import StarterProjects.Legion.State

/-!
# What the commands do

The functions of `cli.c` that work on the table of daemons. A pointer to a name is an
`Option CString`, with `none` for NULL; a pointer to a node is its place in the table.

`returning` records the statuses each time one of the three functions that change them returns.
-/

namespace StarterProjects.Legion

open Lib

/-- `curNode->..` in an event, as the node is then. -/
def sf_node (i : Nat) (event : DaemonNode → SfEvent) : Exec Master Unit := do
  let curNode ← node i
  sf (event curNode)

/-- A slot whose string is read: it must not be NULL. -/
def arg (k : Nat) : Exec Master CString := fun s =>
  match (s.argArr k).text with
  | some text => .ok (text, s)
  | none => .error .undefined

def slot (k : Nat) : Exec Master (Option CString) := Exec.gets fun s => (s.argArr k).text

/-! ## register, unregister, status -/

def newNode (curName curExe args : CString) : DaemonNode where
  daemonName := strncpy DAEMON_NAME_MAX_LENGTH curName
  daemonExe := strncpy DAEMON_EXE_MAX_LENGTH curExe
  daemonArgs := strncpy DAEMON_ARGS_MAX_LENGTH args
  daemonStatus := .inactive
  daemonProcessID := 0

/-- A new node comes first. -/
def legion_register (curName curExe args : CString) : Exec Master Int := do
  modify fun s => { s with daemons := newNode curName curExe args :: s.daemons }
  if 3 < (← Exec.gets Master.argArrIdx) then
    let cmd ← arg 3
    sf_node 0 fun tempNode => .register tempNode.name cmd
  else
    sf_node 0 fun tempNode => .register tempNode.name []
  return LEGION_SUCCESS

def legion_unregister (curName : Option CString) : Exec Master Int := do
  match ← legion_daemon_name_exists curName with
  | none => return LEGION_ERROR
  | some i =>
    let foundNode ← node i
    if foundNode.daemonStatus = .inactive then
      modify fun s => { s with daemons := s.daemons.eraseIdx i }
      sf (.unregister foundNode.name)
      return LEGION_SUCCESS
    else
      return LEGION_ERROR

def legion_status (curName : Option CString) : Exec Master (Option Nat) :=
  legion_daemon_name_exists curName

/-- `"%s\t%i\t%s\n"` -/
def DaemonNode.line (d : DaemonNode) : CString :=
  d.name ++ '\t' :: (toString d.daemonProcessID).toList ++
    '\t' :: daemon_status_map d.daemonStatus ++ ['\n']

def legion_status_all : Exec Master Unit := do
  let daemons ← Exec.gets Master.daemons
  Exec.forEach (fun runnerNode => fprintf runnerNode.line) daemons

/-! ## start -/

def clearSigchld : Exec Master Unit := modify fun s => { s with sigchld_flag := false }

def clearSigalrm : Exec Master Unit := modify fun s => { s with sigalrm_flag := false }

def returning (m : Exec Master Int) : Exec Master Int := do
  let res ← m
  logCall fun s => .returned (s.daemons.map DaemonNode.daemonStatus)
  return res

/-- `"%s/%s.log.%c"` -/
def logPath (curName : CString) (logFileVersion : Char) : CString :=
  LOGFILE_DIR ++ '/' :: curName ++ ".log.".toList ++ [logFileVersion]

/-- The child becomes the daemon, when nothing fails. -/
def legion_start_exec : Exec Master Int := do
  if (← syscall Answers.dup2) = -1 then
    sf_error "dup2 error with child"
    return LEGION_ERROR
  else if (← syscall Answers.setpgid) ≠ 0 then
    sf_error "setpgid error with child"
    return LEGION_ERROR
  else if (← syscall Answers.execvpe) = -1 then
    sf_error "Error executing daemon"
    return LEGION_ERROR
  else
    Exec.stop .replaced

/-- The branch of the child. Without a PATH the length of `NULL + 2` is taken, before the
branch that would report it. -/
def legion_start_child (curName : CString) (logFileVersion : Char) : Exec Master Int := do
  if (← Exec.gets fun s => s.kernel.pathSet) = false then
    Exec.stop .undefined
  else
    modify fun s => s.openLog (logPath curName logFileVersion)
    legion_start_exec

/-- The parent waits for the byte of the daemon, for a second. -/
def legion_start_sync (i : Nat) (curName : CString) (childPID : Int) : Exec Master Int := do
  blockChld
  if (← read) ≠ 0 then
    sf_node i fun curNode => .start curNode.name
    setProcessID i childPID
    setStatus i .active
    sf_node i fun curNode => .active curNode.name curNode.daemonProcessID
  if ← Exec.gets Master.sigalrm_flag then
    sf (.stop curName childPID)
    setStatus i .crashed
    clearSigalrm
    return LEGION_ERROR
  else
    return LEGION_SUCCESS

/-- The branch of the parent. The log is opened by the child, which runs at the same time. -/
def legion_start_parent (i : Nat) (curName : CString) (logFileVersion : Char) (childPID : Int) :
    Exec Master Int := do
  modify fun s =>
    if s.kernel.pathSet then s.openLog (logPath curName logFileVersion) else s
  legion_start_sync i curName childPID

def legion_start_node (i : Nat) (curName : CString) (logFileVersion : Char) :
    Exec Master Int := do
  setStatus i .starting
  if (← syscall Answers.pipe) = -1 then
    setStatus i .inactive
    sf_error "Pipe error"
    return LEGION_ERROR
  else
    let childPID ← fork
    if childPID = -1 then
      setStatus i .inactive
      sf_error "Fork error"
      return LEGION_ERROR
    else if childPID = 0 then
      legion_start_child curName logFileVersion
    else
      legion_start_parent i curName logFileVersion childPID

def legion_start (curName : Option CString) (logFileVersion : Char) : Exec Master Int :=
  returning do
    match ← legion_daemon_name_exists curName with
    | none =>
      sf_error "command execution"
      return LEGION_ERROR
    | some i =>
      let curNode ← node i
      if curNode.daemonStatus ≠ .inactive then
        sf_error "command execution"
        return LEGION_ERROR
      else
        legion_start_node i (curName.getD []) logFileVersion

/-! ## stop -/

/-- After `sigsuspend`. -/
def legion_stop_woken (i : Nat) (curName : CString) : Exec Master Int := do
  if ← Exec.gets Master.sigchld_flag then
    let curNode ← node i
    let curPID ← waitpid curNode.daemonProcessID
    if curPID = -1 then
      sf_error_errMsg "WaitPID error with daemon " curName "."
      setProcessID i 0
      setStatus i .crashed
      sf_node i fun curNode => .crash curNode.name curPID 0
      return LEGION_ERROR
    else
      setStatus i .exited
      clearSigchld
      sf_node i fun curNode => .term curNode.name curPID 0
      return LEGION_SUCCESS
  else if ← Exec.gets Master.sigalrm_flag then
    let curNode ← node i
    sf (.kill curNode.name curNode.daemonProcessID)
    let _ ← kill curNode.daemonProcessID .sigkill
    sf_error_errMsg "Daemon " curName " killed with SIGKILL."
    clearSigalrm
    return LEGION_ERROR
  else
    setStatus i .exited
    return LEGION_SUCCESS

/-- As far as `sigsuspend`; `false` when SIGTERM is not sent. -/
def legion_stop_wait (i : Nat) : Exec Master Bool := do
  setStatus i .stopping
  sf_node i fun curNode => .stop curNode.name curNode.daemonProcessID
  let curNode ← node i
  if (← kill curNode.daemonProcessID .sigterm) ≠ 0 then
    return false
  else
    sigsuspend
    return true

def legion_stop_active (i : Nat) (curName : CString) : Exec Master Int := do
  if ← legion_stop_wait i then
    legion_stop_woken i curName
  else
    sf_error_errMsg "Unable to send SIGTERM to daemon " curName "."
    return LEGION_ERROR

/-- Without a node, `curNode->daemonStatus` goes through NULL. -/
def legion_stop (curName : Option CString) : Exec Master Int :=
  returning do
    match ← legion_daemon_name_exists curName with
    | none => Exec.stop .undefined
    | some i =>
      let curNode ← node i
      if curNode.daemonStatus = .exited ∨ curNode.daemonStatus = .crashed then
        setStatus i .inactive
        sf_node i fun curNode => .reset curNode.name
        return LEGION_SUCCESS
      else if curNode.daemonStatus ≠ .active then
        sf_error "command execution"
        return LEGION_ERROR
      else
        legion_stop_active i (curName.getD [])

/-! ## logrotate -/

/-- `version + '0'` -/
def versionChar (version : Nat) : Char := Char.ofNat ('0'.toNat + version)

/-- `sprintf` to a block of `LOGFILE_PATH_LENGTH`. -/
def sprintfPath (curName : CString) (version : Nat) : Exec Master CString :=
  if (logPath curName (versionChar version)).length < LOGFILE_PATH_LENGTH then
    return logPath curName (versionChar version)
  else
    Exec.stop .undefined

/-- `access(path, F_OK) == 0` -/
def accessible (path : CString) : Exec Master Bool :=
  Exec.gets fun s => (s.kernel.files path).isSome

def Master.setFile (s : Master) (path : CString) (file : Option (List Nat)) : Master :=
  { s with kernel := { s.kernel with files := Function.update s.kernel.files path file } }

/-- What it answers is not looked at. -/
def unlink (path : CString) : Exec Master Unit := do
  if (← syscall Answers.unlink) ≠ -1 then
    modify fun s => s.setFile path none

/-- Without a file of the old name it is -1. -/
def rename (oldPath newPath : CString) : Exec Master Int := do
  let answer ← syscall Answers.rename
  match ← Exec.gets fun s => s.kernel.files oldPath with
  | none => return -1
  | some sessions =>
    if answer = -1 then
      return -1
    else
      modify fun s => (s.setFile newPath (some sessions)).setFile oldPath none
      return 0

/-- The loop over `i`, from the given number of versions down. -/
def renameLogs (curName : CString) : Nat → Exec Master Bool
  | 0 => return true
  | i + 1 => do
    let oldLogFilePath ← sprintfPath curName i
    let newLogFilePath ← sprintfPath curName (i + 1)
    if (← rename oldLogFilePath newLogFilePath) = -1 then
      sf_error "Unable to logrotate files"
      return false
    else
      renameLogs curName i

/-- The first version without a file, for at most `fuel` tests. -/
def nextVersion (curName : CString) : Nat → Nat → Exec Master Nat
  | 0, _ => Exec.stop .diverges
  | fuel + 1, lastVersion => do
    if ← accessible (← sprintfPath curName lastVersion) then
      nextVersion curName fuel (lastVersion + 1)
    else
      return lastVersion

def restart (curName : CString) (logFileVersion : Char) : Exec Master Int := do
  sf (.logrotate curName)
  let _ ← legion_stop (some curName)
  let _ ← legion_stop (some curName)
  let _ ← legion_start (some curName) logFileVersion
  return LEGION_SUCCESS

def legion_logrotate_node (curName : CString) : Exec Master Int := do
  let logFilePath ← sprintfPath curName (LOG_VERSIONS - 1)
  if ← accessible logFilePath then
    unlink logFilePath
    if ← renameLogs curName (LOG_VERSIONS - 1) then
      restart curName '0'
    else
      return LEGION_ERROR
  else
    let lastVersion ← nextVersion curName LOG_VERSIONS 0
    restart curName (versionChar lastVersion)

def legion_logrotate (curName : Option CString) : Exec Master Int :=
  returning do
    match ← legion_daemon_name_exists curName with
    | none =>
      sf_error "command execution"
      return LEGION_ERROR
    | some i =>
      let curNode ← node i
      if curNode.daemonStatus ≠ .active then
        sf_error "Daemon not started"
        return LEGION_ERROR
      else
        legion_logrotate_node (curName.getD [])

/-! ## quit -/

/-- One turn of the loop that stops the daemons. -/
def stopIfActive (i : Nat) : Exec Master Unit := do
  let tempNode ← node i
  if tempNode.daemonStatus = .active then
    let _ ← legion_stop (some tempNode.name)

/-- The first `k` turns of that loop. -/
def stopDaemons (k : Nat) : Exec Master Unit := do
  modify fun s => { s with running := false }
  Exec.forEach stopIfActive (List.range k)

/-- The head of the list is a node of its own, told by its name. -/
def legion_quit : Exec Master Unit := do
  stopDaemons (← Exec.gets fun s => s.daemons.length)
  let daemons ← Exec.gets Master.daemons
  Exec.forEach (fun tempNode =>
    if tempNode.name ≠ "daemonNodeHead".toList then sf (.unregister tempNode.name)
    else pure ()) daemons
  Exec.stop .exits

end StarterProjects.Legion
