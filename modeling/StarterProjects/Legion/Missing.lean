import StarterProjects.Legion.Names

/-!
# Names that no daemon has

Five commands look their argument up in the table and may get NULL. Four of them test the
pointer before anything else; `legion_stop` tests it after it has looked at the status.

`refused_iff`: a command on a name that is not registered reports an error and changes nothing,
exactly when it is not `stop`.
-/

namespace StarterProjects.Legion

open Lib Lib.Exec

/-- The commands on the daemon of a name. -/
inductive DaemonCommand where
  | unregister
  | status
  | start
  | stop
  | logrotate
deriving DecidableEq, Repr

def DaemonCommand.word : DaemonCommand → CString
  | .unregister => "unregister".toList
  | .status => "status".toList
  | .start => "start".toList
  | .stop => "stop".toList
  | .logrotate => "logrotate".toList

/-- Its branch, with one argument. -/
def DaemonCommand.run : DaemonCommand → Exec Master Unit
  | .unregister => check_unregister 1
  | .status => check_status 1
  | .start => check_start 1
  | .stop => check_stop 1
  | .logrotate => check_logrotate 1

theorem check_command_word (command : DaemonCommand) :
    check_command command.word 1 = command.run := by
  unfold check_command
  cases command with
  | unregister =>
    rw [if_neg (by decide), if_neg (by decide), if_neg (by decide), if_pos (by decide)]
    rfl
  | status =>
    rw [if_neg (by decide), if_neg (by decide), if_neg (by decide), if_neg (by decide),
      if_pos (by decide)]
    rfl
  | start =>
    rw [if_neg (by decide), if_neg (by decide), if_neg (by decide), if_neg (by decide),
      if_neg (by decide), if_neg (by decide), if_pos (by decide)]
    rfl
  | stop =>
    rw [if_neg (by decide), if_neg (by decide), if_neg (by decide), if_neg (by decide),
      if_neg (by decide), if_neg (by decide), if_neg (by decide), if_pos (by decide)]
    rfl
  | logrotate =>
    rw [if_neg (by decide), if_neg (by decide), if_neg (by decide), if_neg (by decide),
      if_neg (by decide), if_neg (by decide), if_neg (by decide), if_neg (by decide),
      if_pos (by decide)]
    rfl

/-- The command reports an error. The table is as before, and so is the kernel, with the logs
and all processes: no system call has been made. -/
structure Refused (s : Master) (command : CString) (s' : Master) : Prop where
  daemons : s'.daemons = s.daemons
  kernel : s'.kernel = { s.kernel with calls := s'.kernel.calls }
  calls : ∃ returns : List (List DaemonStatus),
    s'.kernel.calls = s.kernel.calls ++ returns.map Call.returned
  events : s'.events = s.events ++ [.error "command execution".toList]
  printed : ∃ text, s'.out =
    s.out ++ text ++ ("Error executing command: ".toList ++ command ++ " \n".toList)

/-! ## The five commands -/

section Commands

variable {t : Master} {command curName : CString}

theorem missing_run (hmissing : findName t curName = none) :
    legion_daemon_name_exists (some curName) t = .ok (none, t) := by
  rw [name_exists_run]
  exact congrArg (fun i? => Except.ok (i?, t)) hmissing

theorem check_daemon_missing {s : Master} {run : Option CString → Exec Master Int}
    (h : Given s command curName t)
    (hrun : ∃ statuses, run (some curName) t = .ok (LEGION_ERROR,
      { t with events := t.events ++ [SfEvent.error "command execution".toList] }.log
        (.returned statuses))) (word : String) :
    Ends (check_daemon word run 1) t fun _ t' => Refused t command t' := by
  obtain ⟨statuses, hrun⟩ := hrun
  rw [check_daemon, if_neg (by decide)]
  refine .run h.slot_run (.run hrun ?_)
  rw [if_pos rfl]
  refine .run (arg_own h.command) (.of_eq rfl ⟨rfl, rfl, ⟨[statuses], rfl⟩, rfl, [], ?_⟩)
  rw [List.append_nil]
  rfl

theorem start_missing (hmissing : findName t curName = none) (logFileVersion : Char) :
    ∃ statuses, legion_start (some curName) logFileVersion t = .ok (LEGION_ERROR,
      { t with events := t.events ++ [SfEvent.error "command execution".toList] }.log
        (.returned statuses)) := by
  refine ⟨t.daemons.map DaemonNode.daemonStatus, ?_⟩
  rw [legion_start, returning]
  exact bind_ok (bind_ok (missing_run hmissing))

theorem logrotate_missing (hmissing : findName t curName = none) :
    ∃ statuses, legion_logrotate (some curName) t = .ok (LEGION_ERROR,
      { t with events := t.events ++ [SfEvent.error "command execution".toList] }.log
        (.returned statuses)) := by
  refine ⟨t.daemons.map DaemonNode.daemonStatus, ?_⟩
  rw [legion_logrotate, returning]
  exact bind_ok (bind_ok (missing_run hmissing))

/-- The status is looked at through NULL. -/
theorem stop_missing (hmissing : findName t curName = none) :
    legion_stop (some curName) t = .error .undefined := by
  rw [legion_stop, returning]
  exact bind_error (bind_ok (missing_run hmissing))

theorem check_unregister_missing {s : Master} (h : Given s command curName t)
    (hmissing : findName t curName = none) :
    Ends (check_unregister 1) t fun _ t' => Refused t command t' := by
  have hrun : legion_unregister (some curName) t = .ok (LEGION_ERROR, t) :=
    bind_ok (missing_run hmissing)
  rw [check_unregister, if_neg (by decide)]
  refine .run h.slot_run (.run hrun ?_)
  rw [if_pos rfl]
  refine .run (arg_own h.curName) (.run (modify_apply _ _) (.run (modify_apply _ _) ?_))
  refine .run (arg_own h.command) (.of_eq rfl ⟨rfl, rfl, ⟨[], ?_⟩, rfl, _, rfl⟩)
  exact (List.append_nil _).symm

theorem check_status_missing {s : Master} (h : Given s command curName t)
    (hmissing : findName t curName = none) :
    Ends (check_status 1) t fun _ t' => Refused t command t' := by
  rw [check_status, if_neg (by decide)]
  refine .run h.slot_run (.run (missing_run hmissing) (.run (modify_apply _ _) ?_))
  refine .run (arg_own h.command) (.of_eq rfl ⟨rfl, rfl, ⟨[], ?_⟩, rfl, [], ?_⟩)
  · exact (List.append_nil _).symm
  · rw [List.append_nil]

/-- Each of the commands, on a name without a daemon. -/
theorem check_command_missing (command : DaemonCommand) {s : Master}
    (h : Given s command.word curName t) (hmissing : findName t curName = none) :
    if command = .stop then check_command command.word 1 t = .error .undefined
    else Ends (check_command command.word 1) t fun _ t' => Refused t command.word t' := by
  rw [check_command_word]
  cases command with
  | unregister => exact check_unregister_missing h hmissing
  | status => exact check_status_missing h hmissing
  | start => exact check_daemon_missing h (start_missing hmissing '0') "start"
  | logrotate => exact check_daemon_missing h (logrotate_missing hmissing) "logrotate"
  | stop =>
    show check_daemon "stop" legion_stop 1 t = _
    rw [check_daemon, if_neg (by decide), bind_ok h.slot_run, bind_error (stop_missing hmissing)]

end Commands

/-- The line of such a command. -/
theorem missing_line (command : DaemonCommand) {curStr : List Char} {curName : CString} {s : Master}
    (ht : tokenise curStr = .ok (some [command.word, curName]))
    (hmissing : ∀ d ∈ s.daemons, d.name ≠ curName) :
    if command = .stop then legion_parse_args curStr s = .error .undefined
    else Ends (legion_parse_args curStr) s fun _ s' => Refused s command.word s' := by
  obtain ⟨t, hgiven, hrun⟩ := parse_args_pair ht s
  obtain ⟨v, rfl⟩ := hgiven.same
  have hfind : findName (s.withArgs v) curName = none :=
    List.findIdx?_eq_none_iff.mpr fun d hd => decide_eq_false (hmissing d hd)
  have hcommand := check_command_missing command hgiven hfind
  split at hcommand
  · rw [if_pos ‹_›]
    exact hrun.trans (bind_error hcommand)
  · rw [if_neg ‹_›]
    refine .congr hrun (hcommand.step fun _ t' hrefused => .of_eq (modify_apply _ _) ?_)
    exact ⟨hrefused.daemons, hrefused.kernel, hrefused.calls, hrefused.events, hrefused.printed⟩

/-- A command line of the five, on a name without a daemon, is refused unless it is `stop`. -/
theorem refused_iff (command : DaemonCommand) {curStr : List Char} {curName : CString} {s : Master}
    (ht : tokenise curStr = .ok (some [command.word, curName]))
    (hmissing : ∀ d ∈ s.daemons, d.name ≠ curName) :
    Ends (legion_parse_args curStr) s (fun _ s' => Refused s command.word s') ↔
      command ≠ .stop := by
  have hline := missing_line command ht hmissing
  constructor
  · rintro hends rfl
    rw [if_pos rfl] at hline
    exact hends.ne_error _ hline
  · intro hne
    rwa [if_neg hne] at hline

/-- Two other daemons are in the table. -/
theorem startLazy_refused : ∃ s, s.daemons.map DaemonNode.name = ["x".toList, "a".toList] ∧
    Ends (legion_parse_args startLazy.chars) s fun _ s' => Refused s "start".toList s' := by
  have hends : Ends (forEach turnOn [registerArgs.fields, registerShort.fields])
      (.initial idle true fun _ => none) fun _ s =>
        s.daemons.map DaemonNode.name = ["x".toList, "a".toList] := by
    decide +kernel
  obtain ⟨-, s, -, hnames⟩ := hends
  refine ⟨s, hnames, (refused_iff .start (tokenise_fields (by decide) (by decide)) ?_).mpr
    (by decide)⟩
  intro d hd hlazy
  have hname : d.name ∈ ["x".toList, "a".toList] := hnames ▸ List.mem_map_of_mem hd
  rw [hlazy] at hname
  exact absurd hname (by decide)

/-- `stop` in an empty table. -/
theorem stop_dereferences_null :
    ¬ ∀ (command : DaemonCommand) (curStr : List Char) (curName : CString) (s : Master),
      tokenise curStr = .ok (some [command.word, curName]) → (∀ d ∈ s.daemons, d.name ≠ curName) →
        Ends (legion_parse_args curStr) s fun _ s' => Refused s command.word s' := by
  intro hall
  have ht : tokenise stopLazy.chars = .ok (some ["stop".toList, "lazy".toList]) :=
    tokenise_fields (by decide) (by decide)
  have hnone : ∀ d ∈ (Master.initial idle true fun _ => none).daemons, d.name ≠ "lazy".toList :=
    fun _ hd => absurd hd List.not_mem_nil
  have hline := missing_line .stop ht hnone
  rw [if_pos rfl] at hline
  exact (hall .stop _ _ _ ht hnone).ne_error _ hline

end StarterProjects.Legion
