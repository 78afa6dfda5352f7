import StarterProjects.Lib.Triple

/-!
# The daemon master and its kernel

The data of `cli.c`, and the system calls it makes. A node keeps its strings in arrays of
100 characters that `strncpy` fills; the name that `strcmp` and `printf` see is read from
the first of them on, through the next ones when no NUL ends it.

What the system calls return, and which signals arrive during each, is a `Nature` that the
state carries; a clock counts the calls. Children that terminate and timers that run out are
such signals. The kernel keeps SIGCHLD back while it is blocked, and `sigsuspend` lets it in.
The kernel also keeps a record of the run, which no function reads.

Memory does not run out. The sizes of the blocks that `malloc` returns to the child of
`legion_start` are not modelled, nor is a `sigint_handler` that comes in the middle of a
command. The directory of the logs is there, since `mkdir` makes it.
-/

namespace StarterProjects.Legion

open Lib

/-- The characters of a C string, without the terminating NUL. -/
abbrev CString := List Char

def DAEMON_NAME_MAX_LENGTH : Nat := 100
def DAEMON_EXE_MAX_LENGTH : Nat := 100
def DAEMON_ARGS_MAX_LENGTH : Nat := 100
def LOGFILE_PATH_LENGTH : Nat := 100
def LOG_VERSIONS : Nat := 7
def LOGFILE_DIR : CString := "logs".toList
def LEGION_ERROR : Int := 0
def LEGION_SUCCESS : Int := 1

/-! ## Nodes -/

/-- A `char` array of a fixed size. -/
structure CharArray (n : Nat) where
  chars : List Char
  size : chars.length = n

/-- `strncpy` fills up with NULs; a string of `n` characters or more gets none. -/
def strncpy (n : Nat) (src : CString) : CharArray n where
  chars := src.take n ++ List.replicate (n - src.length) '\x00'
  size := by
    rw [List.length_append, List.length_take, List.length_replicate]
    omega

inductive DaemonStatus where
  | unknown
  | inactive
  | starting
  | active
  | stopping
  | exited
  | crashed
deriving DecidableEq, Repr

def DaemonStatus.toNat : DaemonStatus → Nat
  | .unknown => 0
  | .inactive => 1
  | .starting => 2
  | .active => 3
  | .stopping => 4
  | .exited => 5
  | .crashed => 6

def daemon_status_map : DaemonStatus → CString
  | .unknown => "unknown".toList
  | .inactive => "inactive".toList
  | .starting => "starting".toList
  | .active => "active".toList
  | .stopping => "stopping".toList
  | .exited => "exited".toList
  | .crashed => "crashed".toList

structure DaemonNode where
  daemonName : CharArray DAEMON_NAME_MAX_LENGTH
  daemonExe : CharArray DAEMON_EXE_MAX_LENGTH
  daemonArgs : CharArray DAEMON_ARGS_MAX_LENGTH
  daemonStatus : DaemonStatus
  daemonProcessID : Int

/-- The four bytes of an `int`, for a status the last three of them 0. -/
def DaemonStatus.bytes (status : DaemonStatus) : List Char :=
  Char.ofNat status.toNat :: List.replicate 3 '\x00'

/-- The C string at the address of `daemonName`. -/
def DaemonNode.name (d : DaemonNode) : CString :=
  (d.daemonName.chars ++ d.daemonExe.chars ++ d.daemonArgs.chars ++ d.daemonStatus.bytes).takeWhile
    fun c => c ≠ '\x00'

/-! ## The state -/

/-- A pointer in `argArr`: NULL at first, a string of the line being executed, or one that
dangles since the end of an earlier line, with what a read happens to find there. -/
inductive Slot where
  | null
  | own (text : CString)
  | stale (text : CString)

def Slot.text : Slot → Option CString
  | .null => none
  | .own text => some text
  | .stale text => some text

/-- The calls of the event functions. -/
inductive SfEvent where
  | register (name cmd : CString)
  | unregister (name : CString)
  | start (name : CString)
  | active (name : CString) (pid : Int)
  | stop (name : CString) (pid : Int)
  | reset (name : CString)
  | kill (name : CString) (pid : Int)
  | logrotate (name : CString)
  | term (name : CString) (pid : Int) (exitStatus : Int)
  | crash (name : CString) (pid : Int) (signal : Int)
  | error (reason : CString)
deriving DecidableEq, Repr

inductive Signal where
  /-- A child terminates: SIGCHLD. -/
  | terminates (pid : Int)
  /-- The timer runs out: SIGALRM. -/
  | alarm

inductive KillSignal where
  | sigterm
  | sigkill
deriving DecidableEq, Repr

/-- What is recorded of a run: the calls whose outcome matters, and the statuses in the table
each time `legion_start`, `legion_stop` or `legion_logrotate` returns. -/
inductive Call where
  | kill (pid : Int) (signal : KillSignal) (answer : Int)
  /-- `terminated` tells whether the process has terminated when the call is made. -/
  | waitpid (pid : Int) (terminated : Bool)
  /-- `sigalrm` is the flag as the call returns. -/
  | read (answer : Int) (sigalrm : Bool)
  /-- The flags as the call returns. -/
  | sigsuspend (sigchld sigalrm : Bool)
  | returned (statuses : List DaemonStatus)
deriving DecidableEq, Repr

/-- What the system calls answer at one moment, and the signals that arrive. -/
structure Answers where
  pipe : Int
  fork : Int
  read : Int
  kill : Int
  waitpid : Int
  dup2 : Int
  setpgid : Int
  execvpe : Int
  unlink : Int := 0
  rename : Int := 0
  signals : List Signal

structure Nature where
  moment : Nat → Answers
  /-- What memory that is not allocated any more holds where the slot points to. -/
  leftover : Nat → Nat → CString

/-- `files` has the numbers of the sessions in each log that exists; `sessions` counts the
sessions so far; `isChild` holds in a process that came out of a `fork` with 0. -/
structure Kernel where
  nature : Nature
  clock : Nat
  pathSet : Bool
  chldBlocked : Bool
  chldPending : Bool
  terminated : List Int
  calls : List Call
  files : CString → Option (List Nat)
  sessions : Nat
  isChild : Bool

structure Master where
  daemons : List DaemonNode
  running : Bool
  argArr : Nat → Slot
  argArrIdx : Nat
  sigchld_flag : Bool
  sigalrm_flag : Bool
  out : List Char
  events : List SfEvent
  kernel : Kernel

/-- The state in which `run_cli` enters its loop; there may be logs of an earlier run. -/
def Master.initial (nature : Nature) (pathSet : Bool) (files : CString → Option (List Nat)) :
    Master where
  daemons := []
  running := true
  argArr := fun _ => .null
  argArrIdx := 0
  sigchld_flag := false
  sigalrm_flag := false
  out := []
  events := []
  kernel :=
    { nature := nature, clock := 0, pathSet := pathSet, chldBlocked := false
      chldPending := false, terminated := [], calls := [], files := files, sessions := 0
      isChild := false }

/-! ## Signals and system calls -/

def sigchld_handler (s : Master) : Master := { s with sigchld_flag := true }

def sigalrm_handler (s : Master) : Master := { s with sigalrm_flag := true }

/-- A blocked SIGCHLD waits. -/
def Master.deliver (s : Master) : Signal → Master
  | .terminates pid =>
    let s := { s with kernel := { s.kernel with terminated := pid :: s.kernel.terminated } }
    if s.kernel.chldBlocked then { s with kernel := { s.kernel with chldPending := true } }
    else sigchld_handler s
  | .alarm => sigalrm_handler s

def Master.answers (s : Master) : Answers := s.kernel.nature.moment s.kernel.clock

def Master.deliverAll (s : Master) (signals : List Signal) : Master :=
  signals.foldl Master.deliver s

def Master.tick (s : Master) : Master :=
  { s with kernel := { s.kernel with clock := s.kernel.clock + 1 } }

/-- Time for one system call, with the signals that arrive. -/
def Master.pass (s : Master) : Master := s.tick.deliverAll s.answers.signals

def syscall (answer : Answers → Int) : Exec Master Int := fun s => .ok (answer s.answers, s.pass)

def Master.log (s : Master) (call : Call) : Master :=
  { s with kernel := { s.kernel with calls := s.kernel.calls ++ [call] } }

def logCall (call : Master → Call) : Exec Master Unit := modify fun s => s.log (call s)

def kill (pid : Int) (signal : KillSignal) : Exec Master Int := do
  let answer ← syscall Answers.kill
  logCall fun _ => .kill pid signal answer
  return answer

/-- The number is that of a new process from now on. -/
def Master.renew (s : Master) (pid : Int) : Master :=
  { s with kernel := { s.kernel with terminated := s.kernel.terminated.filter (· ≠ pid) } }

/-- The child gets 0, and the parent the number of the child. -/
def fork : Exec Master Int := do
  modify fun s => s.renew s.answers.fork
  let pid ← syscall Answers.fork
  modify fun s => { s with kernel := { s.kernel with isChild := s.kernel.isChild || pid = 0 } }
  return pid

/-- A SIGALRM interrupts it; the byte of the daemon or the end of the pipe ends it. -/
def read : Exec Master Int := do
  let answer ← syscall Answers.read
  logCall fun s => .read answer s.sigalrm_flag
  return answer

/-- It does not return before the process has terminated, unless with an error. -/
def waitpid (pid : Int) : Exec Master Int := do
  logCall fun s => .waitpid pid (decide (pid ∈ s.kernel.terminated))
  let answer ← syscall Answers.waitpid
  if answer = -1 then
    return -1
  if pid ∈ (← Exec.gets fun s => s.kernel.terminated) then
    return pid
  Exec.stop .diverges

/-- `sigprocmask(SIG_BLOCK, ..)` with SIGCHLD. -/
def blockChld : Exec Master Unit :=
  modify fun s => { s with kernel := { s.kernel with chldBlocked := true } }

/-- A SIGCHLD that waits comes in, and no other is kept back. -/
def Master.unblock (s : Master) : Master :=
  { s with
    sigchld_flag := s.sigchld_flag || s.kernel.chldPending
    kernel := { s.kernel with chldBlocked := false, chldPending := false } }

/-- The signals that end the wait; the timer set before it does so when no other comes. -/
def Master.awaited (s : Master) : List Signal :=
  if s.kernel.chldPending = false ∧ s.answers.signals = [] then [.alarm] else s.answers.signals

/-- After the wait the mask is what it was. -/
def Master.wake (s : Master) : Master :=
  let woken := s.unblock.tick.deliverAll s.awaited
  { woken with kernel := { woken.kernel with chldBlocked := s.kernel.chldBlocked } }

/-- `alarm(CHILD_TIMEOUT)` and `sigsuspend` with an empty mask. -/
def sigsuspend : Exec Master Unit := do
  modify Master.wake
  logCall fun s => .sigsuspend s.sigchld_flag s.sigalrm_flag

/-- The session opens its log with `freopen` and mode `a`. -/
def Master.openLog (s : Master) (path : CString) : Master :=
  { s with kernel :=
    { s.kernel with
      files := Function.update s.kernel.files path
        (some ((s.kernel.files path).getD [] ++ [s.kernel.sessions]))
      sessions := s.kernel.sessions + 1 } }

/-! ## Output -/

def fprintf (text : CString) : Exec Master Unit := modify fun s => { s with out := s.out ++ text }

def sf (event : SfEvent) : Exec Master Unit :=
  modify fun s => { s with events := s.events ++ [event] }

def sf_error (reason : String) : Exec Master Unit := sf (.error reason.toList)

/-- `sprintf` into `errMsg[100]`, and then the event. -/
def sf_error_errMsg (before : String) (curName : CString) (after : String) : Exec Master Unit :=
  let errMsg := before.toList ++ curName ++ after.toList
  if errMsg.length < 100 then sf (.error errMsg) else Exec.stop .undefined

/-! ## The table -/

/-- The node behind a pointer, which is its place in the list. -/
def node (i : Nat) : Exec Master DaemonNode := fun s =>
  match s.daemons[i]? with
  | some d => .ok (d, s)
  | none => .error .undefined

def Master.modifyNode (s : Master) (i : Nat) (f : DaemonNode → DaemonNode) : Master :=
  { s with daemons := s.daemons.modify i f }

def setStatus (i : Nat) (status : DaemonStatus) : Exec Master Unit :=
  modify fun s => s.modifyNode i fun d => { d with daemonStatus := status }

def setProcessID (i : Nat) (pid : Int) : Exec Master Unit :=
  modify fun s => s.modifyNode i fun d => { d with daemonProcessID := pid }

/-- `strcmp` with a NULL pointer is undefined; an empty table makes no comparison. -/
def legion_daemon_name_exists (curName : Option CString) : Exec Master (Option Nat) := fun s =>
  match curName with
  | some name => .ok (s.daemons.findIdx? fun d => d.name = name, s)
  | none => if s.daemons = [] then .ok (none, s) else .error .undefined

end StarterProjects.Legion
