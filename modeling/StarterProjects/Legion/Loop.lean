import StarterProjects.Legion.Frames

/-!
# Assertions along the command loop

An assertion that `legion_start` and `legion_stop` keep, and that bears what the other
functions do to the state, holds whenever the loop comes around.
-/

namespace StarterProjects.Legion

open Lib Lib.Exec

structure Preserved (I : Master → Prop) : Prop where
  quiet : ∀ s s', Quiet s s' → I s → I s'
  register : ∀ (s : Master) curName curExe args, I s →
    I { s with daemons := newNode curName curExe args :: s.daemons }
  unregister : ∀ (s : Master) i, I s → I { s with daemons := s.daemons.eraseIdx i }
  setFile : ∀ (s : Master) path file, I s → I (s.setFile path file)
  returned : ∀ s : Master, I s → I (s.log (.returned (s.daemons.map DaemonNode.daemonStatus)))
  start : ∀ curName logFileVersion, Triple I (legion_start curName logFileVersion) fun _ => I
  stop : ∀ curName, Triple I (legion_stop curName) fun _ => I

namespace Preserved

variable {I : Master → Prop} {α : Type}

theorem of_quiet (hI : Preserved I) {m : Exec Master α} (h : Within Quiet m) :
    Triple I m fun _ => I :=
  h.triple hI.quiet

theorem run_register (hI : Preserved I) (curName curExe args : CString) :
    Triple I (legion_register curName curExe args) fun _ => I := by
  have hevent : ∀ event, Within Quiet (sf_node 0 event >>= fun _ => pure LEGION_SUCCESS) :=
    fun event => (quiet_sf_node 0 event).bind fun _ => .ret
  refine Triple.bind (Q := fun _ => I) (.modify fun s hs => hI.register s _ _ _ hs) fun _ => ?_
  refine (hI.of_quiet .gets).bind fun argArrIdx => .ite (fun _ => ?_) fun _ => ?_
  · exact hI.of_quiet ((quiet_arg 3).bind fun _ => hevent _)
  · exact hI.of_quiet (hevent _)

theorem run_unregister (hI : Preserved I) (curName : Option CString) :
    Triple I (legion_unregister curName) fun _ => I := by
  refine (hI.of_quiet (quiet_name_exists curName)).bind fun i? => ?_
  cases i? with
  | none => exact .ret fun _ h => h
  | some i =>
    refine (hI.of_quiet (quiet_node i)).bind fun d => .ite (fun _ => ?_) fun _ =>
      .ret fun _ h => h
    exact (Triple.modify fun s hs => hI.unregister s i hs).bind fun _ =>
      hI.of_quiet ((quiet_sf _).bind fun _ => .ret)

theorem rename (hI : Preserved I) (oldPath newPath : CString) :
    Triple I (rename oldPath newPath) fun _ => I := by
  refine (hI.of_quiet (quiet_syscall _)).bind fun answer => ?_
  refine (hI.of_quiet .gets).bind fun file => ?_
  cases file with
  | none => exact .ret fun _ h => h
  | some sessions =>
    refine .ite (fun _ => .ret fun _ h => h) fun _ => ?_
    exact (Triple.modify fun s hs => hI.setFile _ _ _ (hI.setFile s _ _ hs)).bind fun _ =>
      .ret fun _ h => h

theorem unlink (hI : Preserved I) (path : CString) : Triple I (unlink path) fun _ => I :=
  (hI.of_quiet (quiet_syscall _)).bind fun _ =>
    .ite (fun _ => .modify fun s hs => hI.setFile s _ _ hs) fun _ => .ret fun _ h => h

theorem quiet_sprintfPath (curName : CString) (version : Nat) :
    Within Quiet (sprintfPath curName version) :=
  .ite .ret .stop

theorem renameLogs (hI : Preserved I) (curName : CString) :
    ∀ i, Triple I (renameLogs curName i) fun _ => I
  | 0 => .ret fun _ h => h
  | i + 1 => by
    refine (hI.of_quiet (quiet_sprintfPath _ _)).bind fun _ => ?_
    refine (hI.of_quiet (quiet_sprintfPath _ _)).bind fun _ => ?_
    refine (hI.rename _ _).bind fun res => .ite (fun _ => ?_) fun _ => hI.renameLogs curName i
    exact hI.of_quiet ((quiet_sf_error _).bind fun _ => .ret)

theorem quiet_nextVersion (curName : CString) :
    ∀ fuel lastVersion, Within Quiet (nextVersion curName fuel lastVersion)
  | 0, _ => .stop
  | fuel + 1, lastVersion =>
    (quiet_sprintfPath _ _).bind fun _ => Within.gets.bind fun _ =>
      .ite (quiet_nextVersion curName fuel (lastVersion + 1)) .ret

theorem restart (hI : Preserved I) (curName : CString) (logFileVersion : Char) :
    Triple I (restart curName logFileVersion) fun _ => I :=
  (hI.of_quiet (quiet_sf _)).bind fun _ => (hI.stop _).bind fun _ => (hI.stop _).bind fun _ =>
    (hI.start _ _).bind fun _ => .ret fun _ h => h

theorem returning (hI : Preserved I) {m : Exec Master Int} (h : Triple I m fun _ => I) :
    Triple I (returning m) fun _ => I :=
  h.bind fun _ => (Triple.modify fun s hs => hI.returned s hs).bind fun _ => .ret fun _ h => h

theorem logrotate_node (hI : Preserved I) (curName : CString) :
    Triple I (legion_logrotate_node curName) fun _ => I := by
  refine (hI.of_quiet (quiet_sprintfPath _ _)).bind fun _ => ?_
  refine (hI.of_quiet .gets).bind fun full => .ite (fun _ => ?_) fun _ => ?_
  · refine (hI.unlink _).bind fun _ => ?_
    exact (hI.renameLogs curName _).bind fun _ =>
      .ite (fun _ => hI.restart _ _) fun _ => .ret fun _ h => h
  · exact (hI.of_quiet (quiet_nextVersion curName _ _)).bind fun _ => hI.restart _ _

theorem logrotate (hI : Preserved I) (curName : Option CString) :
    Triple I (legion_logrotate curName) fun _ => I := by
  have herror : ∀ reason, Triple I (do sf_error reason; return LEGION_ERROR) fun _ => I :=
    fun reason => hI.of_quiet ((quiet_sf_error reason).bind fun _ => .ret)
  refine hI.returning ((hI.of_quiet (quiet_name_exists curName)).bind fun i? => ?_)
  cases i? with
  | none => exact herror _
  | some i =>
    exact (hI.of_quiet (quiet_node i)).bind fun d => .ite (fun _ => herror _) fun _ =>
      hI.logrotate_node _

/-! ## The loop of `legion_quit` -/

theorem stopIfActive (hI : Preserved I) (i : Nat) : Triple I (stopIfActive i) fun _ => I :=
  (hI.of_quiet (quiet_node i)).bind fun _ =>
    .ite (fun _ => (hI.stop _).bind fun _ => .ret fun _ h => h) fun _ => .ret fun _ h => h

theorem stopDaemons (hI : Preserved I) (k : Nat) : Triple I (stopDaemons k) fun _ => I := by
  refine (hI.of_quiet (.modify ?_)).bind fun _ => .forEach hI.stopIfActive _
  exact fun _ => .of_eq rfl rfl

theorem quit (hI : Preserved I) : Triple I legion_quit fun _ => I :=
  (hI.of_quiet .gets).bind fun _ => (hI.stopDaemons _).bind fun _ =>
    (hI.of_quiet .gets).bind fun _ => .bind (Q := fun _ _ => True)
      (fun _ _ _ _ _ => trivial) fun _ => .stop

/-! ## The commands -/

theorem check_register (hI : Preserved I) (given : Nat) :
    Triple I (check_register given) fun _ => I := by
  have herror : ∀ text, Within Quiet (do
      fprintf text; sf_error "command execution"; printError (← arg 0)) := fun text =>
    (quiet_fprintf text).bind fun _ => (quiet_sf_error _).bind fun _ =>
      (quiet_arg 0).bind fun _ => quiet_printError _
  refine .ite (fun _ => hI.of_quiet (herror _)) fun _ => ?_
  refine (hI.of_quiet .gets).bind fun _ => (hI.of_quiet (quiet_name_exists _)).bind fun i? => ?_
  cases i? with
  | none =>
    exact (hI.of_quiet (quiet_arg 1)).bind fun _ => (hI.of_quiet (quiet_arg 2)).bind fun _ =>
      (hI.of_quiet .gets).bind fun _ => (hI.run_register _ _ _).bind fun _ => .ret fun _ h => h
  | some i => exact hI.of_quiet ((quiet_arg 1).bind fun _ => herror _)

theorem check_unregister (hI : Preserved I) (given : Nat) :
    Triple I (check_unregister given) fun _ => I := by
  refine .ite (fun _ => hI.of_quiet (quiet_print_err _ _ _)) fun _ => ?_
  refine (hI.of_quiet .gets).bind fun _ => (hI.run_unregister _).bind fun res => ?_
  refine .ite (fun _ => hI.of_quiet ?_) fun _ => .ret fun _ h => h
  exact (quiet_arg 1).bind fun _ => (quiet_fprintf _).bind fun _ => (quiet_sf_error _).bind fun _ =>
    (quiet_arg 0).bind fun _ => quiet_printError _

theorem quiet_check_status (given : Nat) : Within Quiet (check_status given) := by
  refine .ite (quiet_print_err _ _ _) (Within.gets.bind fun _ =>
    (quiet_name_exists _).bind fun i? => ?_)
  cases i? with
  | none =>
    exact (quiet_sf_error _).bind fun _ => (quiet_arg 0).bind fun _ => quiet_printError _
  | some i => exact (quiet_node i).bind fun _ => quiet_fprintf _

theorem quiet_check_status_all (given : Nat) : Within Quiet (check_status_all given) :=
  .ite (quiet_print_err _ _ _) (Within.gets.bind fun _ => .forEach (fun _ => quiet_fprintf _) _)

theorem check_daemon (hI : Preserved I) (command : String)
    {run : Option CString → Exec Master Int} (hrun : ∀ curName, Triple I (run curName) fun _ => I)
    (given : Nat) : Triple I (check_daemon command run given) fun _ => I := by
  refine .ite (fun _ => hI.of_quiet (quiet_print_err _ _ _)) fun _ => ?_
  refine (hI.of_quiet .gets).bind fun _ => (hrun _).bind fun res => ?_
  exact .ite (fun _ => hI.of_quiet ((quiet_arg 0).bind fun _ => quiet_printError _)) fun _ =>
    .ret fun _ h => h

theorem check_command (hI : Preserved I) (command : CString) (given : Nat) :
    Triple I (check_command command given) fun _ => I := by
  unfold Legion.check_command
  refine .ite (fun _ => hI.of_quiet (quiet_fprintf _)) fun _ => ?_
  refine .ite (fun _ => hI.quit) fun _ => ?_
  refine .ite (fun _ => hI.check_register given) fun _ => ?_
  refine .ite (fun _ => hI.check_unregister given) fun _ => ?_
  refine .ite (fun _ => hI.of_quiet (quiet_check_status given)) fun _ => ?_
  refine .ite (fun _ => hI.of_quiet (quiet_check_status_all given)) fun _ => ?_
  refine .ite (fun _ => hI.check_daemon _ (fun _ => hI.start _ _) given) fun _ => ?_
  refine .ite (fun _ => hI.check_daemon _ hI.stop given) fun _ => ?_
  refine .ite (fun _ => hI.check_daemon _ hI.logrotate given) fun _ => ?_
  exact hI.of_quiet ((quiet_arg 0).bind fun _ => (quiet_fprintf _).bind fun _ =>
    (quiet_sf_error _).bind fun _ => (quiet_arg 0).bind fun _ => quiet_printError _)

theorem check_args (hI : Preserved I) : Triple I legion_check_args fun _ => I :=
  (hI.of_quiet .gets).bind fun _ => .ite
    (fun _ => (hI.of_quiet (quiet_arg 0)).bind fun _ => hI.check_command _ _) fun _ =>
      .ret fun _ h => h

theorem parse_args (hI : Preserved I) (curStr : List Char) :
    Triple I (legion_parse_args curStr) fun _ => I := by
  refine (hI.of_quiet .gets).bind fun argArr => ?_
  split
  · exact .stop
  · exact hI.of_quiet (.modify fun _ => .of_eq rfl rfl)
  · refine (hI.of_quiet (.modify ?_)).bind fun _ => hI.check_args.bind fun _ => ?_
    · exact fun _ => .of_eq rfl rfl
    · exact hI.of_quiet (.modify fun _ => .of_eq rfl rfl)

/-- The loop rule. -/
theorem turns (hI : Preserved I) (lines : List (List Char)) :
    Triple I (turns lines) fun _ => I :=
  .forEach (fun cliArgs => (hI.of_quiet quiet_prompt).bind fun _ => hI.parse_args cliArgs) lines

end Preserved

end StarterProjects.Legion
