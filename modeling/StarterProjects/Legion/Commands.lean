import StarterProjects.Legion.Daemons
import StarterProjects.Legion.Tokens

/-!
# The command loop

`legion_check_args` goes by the first argument; each command has a function of its own for
what stands in its branch. After a command the strings of its line are gone, while `argArr`
keeps the pointers to them.
-/

namespace StarterProjects.Legion

open Lib

def HELP_MSG : CString :=
  ("Available commands:\n" ++
    "help (0 args) Print this help message\n" ++
    "quit (0 args) Quit the program\n" ++
    "register (0 args) Register a daemon\n" ++
    "unregister (1 args) Unregister a daemon\n" ++
    "status (1 args) Show the status of a daemon\n" ++
    "status-all (0 args) Show the status of all daemons\n" ++
    "start (1 args) Start a daemon\n" ++
    "stop (1 args) Stop a daemon\n" ++
    "logrotate (1 args) Rotate log files for a daemon\n").toList

/-- `"Error executing command: %s \n"` -/
def printError (curArg : CString) : Exec Master Unit :=
  fprintf ("Error executing command: ".toList ++ curArg ++ " \n".toList)

/-- The command is always called `status-all` in the first line. -/
def legion_check_args_print_err (given required : Nat) (curArg : CString) :
    Exec Master Unit := do
  fprintf ("Wrong number of args (given: ".toList ++ (toString given).toList ++
    ", required: ".toList ++ (toString required).toList ++
    ") for command 'status-all' \n".toList)
  sf_error "command execution"
  printError curArg

def check_register (given : Nat) : Exec Master Unit := do
  if given < 2 then
    fprintf "Usage: register <daemon> <cmd-and-args> \n".toList
    sf_error "command execution"
    printError (← arg 0)
  else
    match ← legion_daemon_name_exists (← slot 1) with
    | none =>
      let curName ← arg 1
      let curExe ← arg 2
      let args ← slot 3
      let _ ← legion_register curName curExe (args.getD [])
    | some _ =>
      fprintf ("Daemon ".toList ++ (← arg 1) ++ " is already registered.\n".toList)
      sf_error "command execution"
      printError (← arg 0)

def check_unregister (given : Nat) : Exec Master Unit := do
  if 1 < given then
    legion_check_args_print_err given 2 "unregister".toList
  else if (← legion_unregister (← slot 1)) = LEGION_ERROR then
    fprintf ("Daemon ".toList ++ (← arg 1) ++ " is not registered.\n".toList)
    sf_error "command execution"
    printError (← arg 0)

def check_status (given : Nat) : Exec Master Unit := do
  if 1 < given then
    legion_check_args_print_err given 1 "status".toList
  else
    match ← legion_status (← slot 1) with
    | some i =>
      let curNode ← node i
      fprintf curNode.line
    | none =>
      sf_error "command execution"
      printError (← arg 0)

def check_status_all (given : Nat) : Exec Master Unit := do
  if 0 < given then
    legion_check_args_print_err given 0 "status-all".toList
  else
    legion_status_all

/-- The branch of a command that works on the daemon of a name. -/
def check_daemon (command : String) (run : Option CString → Exec Master Int) (given : Nat) :
    Exec Master Unit := do
  if 1 < given then
    legion_check_args_print_err given 1 command.toList
  else if (← run (← slot 1)) = LEGION_ERROR then
    printError (← arg 0)

def check_start : Nat → Exec Master Unit :=
  check_daemon "start" fun curName => legion_start curName '0'

def check_stop : Nat → Exec Master Unit := check_daemon "stop" legion_stop

def check_logrotate : Nat → Exec Master Unit := check_daemon "logrotate" legion_logrotate

def check_unrecognized : Exec Master Unit := do
  fprintf ("Unrecognized command: ".toList ++ (← arg 0) ++ " \n".toList)
  sf_error "command execution"
  printError (← arg 0)

/-- `given` is `argArrIdx - 1`. -/
def check_command (command : CString) (given : Nat) : Exec Master Unit :=
  if command = "help".toList then fprintf HELP_MSG
  else if command = "quit".toList then legion_quit
  else if command = "register".toList then check_register given
  else if command = "unregister".toList then check_unregister given
  else if command = "status".toList then check_status given
  else if command = "status-all".toList then check_status_all given
  else if command = "start".toList then check_start given
  else if command = "stop".toList then check_stop given
  else if command = "logrotate".toList then check_logrotate given
  else check_unrecognized

def legion_check_args : Exec Master Unit := do
  let argArrIdx ← Exec.gets Master.argArrIdx
  if 0 < argArrIdx then
    check_command (← arg 0) (argArrIdx - 1)

/-- The block of the tokens is freed, and `argContainer` is gone. -/
def Slot.forget (text : CString) : Slot → Slot
  | .null => .null
  | .own _ => .stale text
  | .stale _ => .stale text

def Master.forget (s : Master) : Master :=
  { s with
    argArr := fun k => (s.argArr k).forget (s.kernel.nature.leftover s.kernel.clock k) }

def Master.withArgs (s : Master) (v : ArgVector) : Master :=
  { s with argArr := v.argArr, argArrIdx := v.argArrIdx }

/-- A line with its tokens in `argArr`. -/
def executeArgs (v : ArgVector) : Exec Master Unit := do
  modify fun s => s.withArgs v
  legion_check_args
  modify Master.forget

def legion_parse_args (curStr : List Char) : Exec Master Unit := do
  match parseArgs (← Exec.gets Master.argArr) curStr with
  | .error r => Exec.stop r
  | .ok none => modify fun s => { s with argArrIdx := 0 }
  | .ok (some (_, v)) => executeArgs v

def prompt : Exec Master Unit := fprintf "legion> ".toList

/-- `while(running)` on the lines of the input. -/
def run_cli : List (List Char) → Exec Master Unit
  | [] => do
    if ← Exec.gets Master.running then
      prompt
  | cliArgs :: lines => do
    if ← Exec.gets Master.running then
      prompt
      legion_parse_args cliArgs
      run_cli lines

/-- One turn of the loop. -/
def turn (cliArgs : List Char) : Exec Master Unit := do
  prompt
  legion_parse_args cliArgs

/-- The turns for these lines, as far as the test of the loop after the last. -/
def turns (lines : List (List Char)) : Exec Master Unit := Exec.forEach turn lines

end StarterProjects.Legion
