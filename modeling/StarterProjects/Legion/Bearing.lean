import StarterProjects.Legion.Frames

/-!
# Relations along the command loop

`Still` is finer than `Quiet`: no event is emitted, and the clock does not go back. A relation
that bears what is still, the events without a node and the functions on a daemon is kept by
every turn of the loop; `legion_quit` does not come back.
-/

namespace StarterProjects.Legion

open Lib Lib.Exec

structure Still (s s' : Master) : Prop extends Quiet s s' where
  events : s'.events = s.events
  clock : s.kernel.clock ≤ s'.kernel.clock

instance : IsPreorder Master Still where
  refl := fun s => ⟨refl_of Quiet s, rfl, Nat.le_refl _⟩
  trans := fun _ _ _ h h' => ⟨trans_of Quiet h.toQuiet h'.toQuiet, h'.events.trans h.events,
    Nat.le_trans h.clock h'.clock⟩

/-- A change of anything else. -/
theorem Still.of_eq {s s' : Master} (hd : s'.daemons = s.daemons) (he : s'.events = s.events)
    (hk : s'.kernel = s.kernel) : Still s s' :=
  ⟨.of_eq hd (by rw [hk]), he, by rw [hk]⟩

theorem still_deliver (s : Master) (signal : Signal) : Still s (s.deliver signal) := by
  refine ⟨quiet_deliver s signal, ?_, Nat.le_of_eq (deliver_clock s signal).symm⟩
  cases signal with
  | alarm => rfl
  | terminates pid =>
    unfold Master.deliver
    simp only
    split <;> rfl

theorem still_deliverAll (signals : List Signal) :
    ∀ s : Master, Still s (s.deliverAll signals) := by
  induction signals with
  | nil => exact fun s => refl_of Still s
  | cons signal signals ih => exact fun s => trans_of Still (still_deliver s signal) (ih _)

theorem still_pass (s : Master) : Still s s.pass :=
  trans_of Still (⟨.of_eq rfl rfl, rfl, Nat.le_succ _⟩ : Still s s.tick) (still_deliverAll _ _)

theorem still_wake (s : Master) : Still s s.wake := by
  have h := still_deliverAll s.awaited s.unblock.tick
  exact ⟨quiet_wake s, h.events, Nat.le_trans (Nat.le_succ _) h.clock⟩

/-- Apart from the mark of a child, a fork is still. -/
theorem fork_still {s s' : Master} {pid : Int} (h : Legion.fork s = .ok (pid, s')) :
    ∃ t, Still s t ∧ t.kernel.clock = s.kernel.clock + 1 ∧ pid = s.answers.fork ∧
      s' = { t with kernel := { t.kernel with isChild := t.kernel.isChild || pid = 0 } } := by
  cases h
  have hrenew : Still s (s.renew s.answers.fork) := ⟨.of_eq rfl rfl, rfl, Nat.le_refl _⟩
  exact ⟨(s.renew s.answers.fork).pass, trans_of Still hrenew (still_pass _), pass_clock _, rfl,
    rfl⟩

section Stills

theorem still_syscall (answer : Answers → Int) : Within Still (syscall answer) := by
  intro s _ _ h
  cases h
  exact still_pass s

theorem still_fprintf (text : CString) : Within Still (fprintf text) :=
  .modify fun _ => .of_eq rfl rfl rfl

theorem still_clearSigchld : Within Still clearSigchld := .modify fun _ => .of_eq rfl rfl rfl

theorem still_clearSigalrm : Within Still clearSigalrm := .modify fun _ => .of_eq rfl rfl rfl

theorem still_blockChld : Within Still blockChld :=
  .modify fun _ => ⟨.of_eq rfl rfl, rfl, Nat.le_refl _⟩

theorem still_node (i : Nat) : Within Still (node i) := within_node i

theorem still_arg (k : Nat) : Within Still (arg k) := by
  intro s d s' h
  unfold arg at h
  split at h
  · cases h
    exact refl_of Still s
  · cases h

theorem still_name_exists (curName : Option CString) :
    Within Still (legion_daemon_name_exists curName) :=
  within_name_exists curName

theorem still_sprintfPath (curName : CString) (version : Nat) :
    Within Still (sprintfPath curName version) :=
  .ite .ret .stop

theorem still_nextVersion (curName : CString) :
    ∀ fuel lastVersion, Within Still (nextVersion curName fuel lastVersion)
  | 0, _ => .stop
  | fuel + 1, lastVersion =>
    (still_sprintfPath _ _).bind fun _ => Within.gets.bind fun _ =>
      .ite (still_nextVersion curName fuel (lastVersion + 1)) .ret

end Stills

/-- The relations that bear what the commands are made of. -/
structure Bears (R : Master → Master → Prop) : Prop where
  still : ∀ s s', Still s s' → R s s'
  error : ∀ (s : Master) reason, R s { s with events := s.events ++ [.error reason] }
  rotates : ∀ (s : Master) name, R s { s with events := s.events ++ [.logrotate name] }
  returned : ∀ s : Master, R s (s.log (.returned (s.daemons.map DaemonNode.daemonStatus)))
  register : ∀ curName curExe args, Within R (legion_register curName curExe args)
  unregister : ∀ curName, Within R (legion_unregister curName)
  unlink : ∀ path, Within R (unlink path)
  rename : ∀ oldPath newPath, Within R (rename oldPath newPath)
  start : ∀ curName logFileVersion, Within R (legion_start curName logFileVersion)
  stop : ∀ curName, Within R (legion_stop curName)

namespace Bears

variable {R : Master → Master → Prop} {α : Type}

theorem of_still (hR : Bears R) {m : Exec Master α} (h : Within Still m) : Within R m :=
  h.mono hR.still

theorem sf_error (hR : Bears R) (reason : String) : Within R (sf_error reason) :=
  .modify fun s => hR.error s _

variable [IsPreorder Master R]

theorem returning (hR : Bears R) {m : Exec Master Int} (h : Within R m) :
    Within R (returning m) :=
  h.bind fun _ => (Within.modify fun s => hR.returned s).bind fun _ => .ret

/-! ## logrotate -/

theorem renameLogs (hR : Bears R) (curName : CString) : ∀ i, Within R (renameLogs curName i)
  | 0 => .ret
  | i + 1 => by
    refine (hR.of_still (still_sprintfPath _ _)).bind fun _ => ?_
    refine (hR.of_still (still_sprintfPath _ _)).bind fun _ => (hR.rename _ _).bind fun _ => ?_
    exact .ite ((hR.sf_error _).bind fun _ => .ret) (hR.renameLogs curName i)

theorem restart (hR : Bears R) (curName : CString) (logFileVersion : Char) :
    Within R (restart curName logFileVersion) :=
  (Within.modify fun s => hR.rotates s _).bind fun _ => (hR.stop _).bind fun _ =>
    (hR.stop _).bind fun _ => (hR.start _ _).bind fun _ => .ret

theorem logrotate_node (hR : Bears R) (curName : CString) :
    Within R (legion_logrotate_node curName) := by
  refine (hR.of_still (still_sprintfPath _ _)).bind fun _ => Within.gets.bind fun _ => .ite ?_ ?_
  · exact (hR.unlink _).bind fun _ => (hR.renameLogs curName _).bind fun _ =>
      .ite (hR.restart _ _) .ret
  · exact (hR.of_still (still_nextVersion curName _ _)).bind fun _ => hR.restart _ _

theorem logrotate (hR : Bears R) (curName : Option CString) :
    Within R (legion_logrotate curName) := by
  have herror : ∀ reason, Within R (do Legion.sf_error reason; return LEGION_ERROR) :=
    fun reason => (hR.sf_error reason).bind fun _ => .ret
  refine hR.returning ((hR.of_still (still_name_exists curName)).bind fun i? => ?_)
  cases i? with
  | none => exact herror _
  | some i =>
    exact (hR.of_still (still_node i)).bind fun _ => .ite (herror _) (hR.logrotate_node _)

/-! ## The commands -/

theorem printError (hR : Bears R) : Within R (do Legion.printError (← arg 0)) :=
  (hR.of_still (still_arg 0)).bind fun _ => hR.of_still (still_fprintf _)

theorem error_line (hR : Bears R) (text : CString) : Within R (do
    fprintf text; Legion.sf_error "command execution"; Legion.printError (← arg 0)) :=
  (hR.of_still (still_fprintf text)).bind fun _ => (hR.sf_error _).bind fun _ => hR.printError

theorem print_err (hR : Bears R) (given required : Nat) (curArg : CString) :
    Within R (legion_check_args_print_err given required curArg) :=
  (hR.of_still (still_fprintf _)).bind fun _ => (hR.sf_error _).bind fun _ =>
    hR.of_still (still_fprintf _)

omit [IsPreorder Master R] in
/-- There is no state after it. -/
theorem quit : Within R legion_quit := by
  intro s _ s' h
  obtain ⟨_, _, _, h⟩ := bind_eq_ok h
  obtain ⟨_, _, _, h⟩ := bind_eq_ok h
  obtain ⟨_, _, _, h⟩ := bind_eq_ok h
  obtain ⟨_, _, _, h⟩ := bind_eq_ok h
  cases h

theorem check_register (hR : Bears R) (given : Nat) : Within R (check_register given) := by
  refine .ite (hR.error_line _) (Within.gets.bind fun curName =>
    (hR.of_still (still_name_exists curName)).bind fun i? => ?_)
  cases i? with
  | none =>
    exact (hR.of_still (still_arg 1)).bind fun _ => (hR.of_still (still_arg 2)).bind fun _ =>
      Within.gets.bind fun _ => (hR.register _ _ _).bind fun _ => .ret
  | some i => exact (hR.of_still (still_arg 1)).bind fun _ => hR.error_line _

theorem check_unregister (hR : Bears R) (given : Nat) : Within R (check_unregister given) :=
  .ite (hR.print_err _ _ _) (Within.gets.bind fun _ => (hR.unregister _).bind fun _ =>
    .ite ((hR.of_still (still_arg 1)).bind fun _ => hR.error_line _) .ret)

theorem check_status (hR : Bears R) (given : Nat) : Within R (check_status given) := by
  refine .ite (hR.print_err _ _ _) (Within.gets.bind fun curName =>
    (hR.of_still (still_name_exists curName)).bind fun i? => ?_)
  cases i? with
  | none => exact (hR.sf_error _).bind fun _ => hR.printError
  | some i => exact (hR.of_still (still_node i)).bind fun _ => hR.of_still (still_fprintf _)

theorem check_status_all (hR : Bears R) (given : Nat) : Within R (check_status_all given) :=
  .ite (hR.print_err _ _ _) (Within.gets.bind fun _ =>
    .forEach (fun _ => hR.of_still (still_fprintf _)) _)

theorem check_daemon (hR : Bears R) (command : String) {run : Option CString → Exec Master Int}
    (hrun : ∀ curName, Within R (run curName)) (given : Nat) :
    Within R (check_daemon command run given) :=
  .ite (hR.print_err _ _ _) (Within.gets.bind fun _ => (hrun _).bind fun _ =>
    .ite hR.printError .ret)

theorem check_command (hR : Bears R) (command : CString) (given : Nat) :
    Within R (check_command command given) := by
  unfold Legion.check_command
  refine .ite (hR.of_still (still_fprintf _)) (.ite quit (.ite (hR.check_register given) ?_))
  refine .ite (hR.check_unregister given) (.ite (hR.check_status given) ?_)
  refine .ite (hR.check_status_all given) (.ite
    (hR.check_daemon _ (fun _ => hR.start _ _) given) ?_)
  refine .ite (hR.check_daemon _ hR.stop given) (.ite (hR.check_daemon _ hR.logrotate given) ?_)
  exact (hR.of_still (still_arg 0)).bind fun _ => hR.error_line _

theorem check_args (hR : Bears R) : Within R legion_check_args :=
  Within.gets.bind fun _ => .ite
    ((hR.of_still (still_arg 0)).bind fun _ => hR.check_command _ _) .ret

omit [IsPreorder Master R] in
theorem modify_still (hR : Bears R) {f : Master → Master} (h : ∀ s, Still s (f s)) :
    Within R (modify f : Exec Master PUnit) :=
  hR.of_still (.modify h)

theorem execute_args (hR : Bears R) (v : ArgVector) : Within R (executeArgs v) := by
  unfold executeArgs
  refine Within.bind (hR.modify_still ?_) fun _ => hR.check_args.bind fun _ => hR.modify_still ?_
  · exact fun _ => .of_eq rfl rfl rfl
  · exact fun _ => .of_eq rfl rfl rfl

theorem parse_args (hR : Bears R) (curStr : List Char) : Within R (legion_parse_args curStr) := by
  refine Within.gets.bind fun argArr => ?_
  split
  · exact .stop
  · exact hR.modify_still fun _ => .of_eq rfl rfl rfl
  · exact hR.execute_args _

/-- The loop rule. -/
theorem turns (hR : Bears R) (lines : List (List Char)) : Within R (turns lines) :=
  .forEach (fun cliArgs => (hR.of_still (still_fprintf _)).bind fun _ => hR.parse_args cliArgs)
    lines

end Bears

end StarterProjects.Legion
