import StarterProjects.Legion.Lines

/-!
# Who runs the command loop

A process is told by what `fork` has answered it: the run of a child is one in which some
`fork` answers 0. The error branches of the child in `legion_start` return, so such a run
goes on with the next command, as a second master.

`alone_of_execs`: no child comes to the loop when each finds a PATH and `dup2`, `setpgid` and
`execvpe` succeed.
-/

namespace StarterProjects.Legion

open Lib Lib.Exec

/-- Every child becomes the program of its daemon: after a `fork` that answers 0, at the moment
`t`, nothing fails. -/
def Execs (nature : Nature) (pathSet : Bool) : Prop :=
  ∀ t, (nature.moment t).fork = 0 → pathSet = true ∧ (nature.moment (t + 1)).dup2 ≠ -1 ∧
    (nature.moment (t + 2)).setpgid = 0 ∧ (nature.moment (t + 3)).execvpe ≠ -1

def SameProcess (s s' : Master) : Prop :=
  s'.kernel.nature = s.kernel.nature ∧ s'.kernel.pathSet = s.kernel.pathSet ∧
    s'.kernel.isChild = s.kernel.isChild

instance : IsPreorder Master SameProcess where
  refl := fun _ => ⟨rfl, rfl, rfl⟩
  trans := fun _ _ _ h h' => ⟨h'.1.trans h.1, h'.2.1.trans h.2.1, h'.2.2.trans h.2.2⟩

theorem stops_sameProcess : Stops SameProcess where
  quiet := fun _ _ h => ⟨h.nature, h.pathSet, h.isChild⟩
  node := fun _ _ _ => ⟨rfl, rfl, rfl⟩
  log := fun _ _ => ⟨rfl, rfl, rfl⟩

/-- The process is the first master. -/
def IsMaster (nature : Nature) (pathSet : Bool) (s : Master) : Prop :=
  s.kernel.nature = nature ∧ s.kernel.pathSet = pathSet ∧ s.kernel.isChild = false

/-- A `fork` has answered `pid` at the moment before. -/
def Forked (nature : Nature) (pathSet : Bool) (pid : Int) (s : Master) : Prop :=
  s.kernel.nature = nature ∧ s.kernel.pathSet = pathSet ∧ s.kernel.isChild = decide (pid = 0) ∧
    ∃ t, (nature.moment t).fork = pid ∧ s.kernel.clock = t + 1

/-- It is the moment `t`. -/
def AtMoment (nature : Nature) (t : Nat) (s : Master) : Prop :=
  s.kernel.nature = nature ∧ s.kernel.clock = t

section Children

variable {nature : Nature} {pathSet : Bool} {α : Type} {m : Exec Master α}

theorem SameProcess.isMaster {s s' : Master} (hs : SameProcess s s')
    (h : IsMaster nature pathSet s) : IsMaster nature pathSet s' :=
  ⟨hs.1.trans h.1, hs.2.1.trans h.2.1, hs.2.2.trans h.2.2⟩

theorem keeps_master (h : Within SameProcess m) :
    Triple (IsMaster nature pathSet) m fun _ => IsMaster nature pathSet :=
  h.triple fun _ _ hs => hs.isMaster

theorem syscall_at (answer : Answers → Int) (t : Nat) :
    Triple (AtMoment nature t) (syscall answer)
      fun r s => r = answer (nature.moment t) ∧ AtMoment nature (t + 1) s := by
  rintro s r s' ⟨hn, hc⟩ h
  cases h
  refine ⟨by rw [Master.answers, hn, hc], (quiet_pass s).nature.trans hn, ?_⟩
  rw [pass_clock, hc]

theorem fork_forked : Triple (IsMaster nature pathSet) fork (Forked nature pathSet) := by
  rintro s pid s' ⟨hn, hp, hc⟩ h
  obtain ⟨t, hquiet, hclock, hpid, rfl⟩ := fork_inv h
  refine ⟨hquiet.nature.trans hn, hquiet.pathSet.trans hp, ?_, s.kernel.clock, ?_, hclock⟩
  · show (t.kernel.isChild || _) = _
    rw [hquiet.isChild, hc, Bool.false_or]
  · rw [← hn]
    exact hpid.symm

/-- A child that finds everything in order does not return. -/
theorem start_exec_replaced {t : Nat} (hdup2 : (nature.moment t).dup2 ≠ -1)
    (hsetpgid : (nature.moment (t + 1)).setpgid = 0)
    (hexec : (nature.moment (t + 2)).execvpe ≠ -1) {Q : Int → Master → Prop} :
    Triple (AtMoment nature t) legion_start_exec Q := by
  refine (syscall_at Answers.dup2 t).bind fun dup2 => ?_
  refine .ite (fun he => ?_) fun _ => ?_
  · exact fun s _ _ hs => absurd (hs.1.symm.trans he) hdup2
  refine ((syscall_at Answers.setpgid (t + 1)).pre fun s hs => hs.2).bind fun setpgid => ?_
  refine .ite (fun he => ?_) fun _ => ?_
  · exact fun s _ _ hs => absurd (hs.1.trans hsetpgid) he
  refine ((syscall_at Answers.execvpe (t + 2)).pre fun s hs => hs.2).bind fun execvpe => ?_
  refine .ite (fun he => ?_) fun _ => .stop
  exact fun s _ _ hs => absurd (hs.1.symm.trans he) hexec

theorem start_child_replaced (hexecs : Execs nature pathSet) (curName : CString)
    (logFileVersion : Char) {Q : Int → Master → Prop} :
    Triple (Forked nature pathSet 0) (legion_start_child curName logFileVersion) Q := by
  refine .of_state fun s₀ hs₀ => ?_
  obtain ⟨hn, hp, -, t, hfork, hclock⟩ := hs₀
  obtain ⟨-, hdup2, hsetpgid, hexec⟩ := hexecs t hfork
  refine Triple.bind (Q := fun _ s => s = s₀) (.gets fun _ hs => hs) fun _ => ?_
  refine .ite (fun _ => .stop) fun _ => ?_
  refine Triple.bind (Q := fun _ => AtMoment nature (t + 1)) (.modify fun s hs => ?_) fun _ => ?_
  · subst hs
    exact ⟨hn, hclock⟩
  · exact start_exec_replaced hdup2 hsetpgid hexec

theorem start_node_master (hexecs : Execs nature pathSet) (i : Nat) (curName : CString)
    (logFileVersion : Char) :
    Triple (IsMaster nature pathSet) (legion_start_node i curName logFileVersion)
      fun _ => IsMaster nature pathSet := by
  have hR := stops_sameProcess
  have herror : ∀ reason, Within SameProcess (do
      setStatus i .inactive; sf_error reason; return LEGION_ERROR) := fun reason =>
    (hR.setStatus i _).bind fun _ => (hR.of_quiet (quiet_sf_error reason)).bind fun _ => .ret
  refine (keeps_master (hR.setStatus i _)).bind fun _ => ?_
  refine (keeps_master (hR.of_quiet (quiet_syscall _))).bind fun pipe => ?_
  refine .ite (fun _ => keeps_master (herror _)) fun _ => fork_forked.bind fun childPID => ?_
  have hparent : childPID ≠ 0 → ∀ s, Forked nature pathSet childPID s →
      IsMaster nature pathSet s := fun hne s hs =>
    ⟨hs.1, hs.2.1, hs.2.2.1.trans (decide_eq_false hne)⟩
  refine .ite (fun he => (keeps_master (herror _)).pre (hparent (by omega))) fun _ => ?_
  refine .ite (fun he => ?_) fun hne => ?_
  · subst he
    exact start_child_replaced hexecs curName logFileVersion
  · refine (keeps_master (.bind (.modify fun s => ?_) fun _ => hR.start_sync i _ _)).pre
      (hparent hne)
    split
    · exact ⟨rfl, rfl, rfl⟩
    · exact refl_of SameProcess s

theorem preserved_isMaster (hexecs : Execs nature pathSet) :
    Preserved (IsMaster nature pathSet) where
  quiet := fun _ _ h hs => SameProcess.isMaster ⟨h.nature, h.pathSet, h.isChild⟩ hs
  register := fun _ _ _ _ hs => hs
  unregister := fun _ _ hs => hs
  setFile := fun _ _ _ hs => hs
  returned := fun _ hs => hs
  stop := fun curName => keeps_master (stops_sameProcess.stop curName)
  start := fun curName logFileVersion => by
    have hR := stops_sameProcess
    have herror : Within SameProcess (do sf_error "command execution"; return LEGION_ERROR) :=
      (hR.of_quiet (quiet_sf_error _)).bind fun _ => .ret
    refine Triple.bind (Q := fun _ => IsMaster nature pathSet) ?_ fun _ =>
      (keeps_master (hR.logCall _)).bind fun _ => .ret fun _ h => h
    refine (keeps_master (hR.of_quiet (quiet_name_exists curName))).bind fun i? => ?_
    cases i? with
    | none => exact keeps_master herror
    | some i =>
      exact (keeps_master (hR.of_quiet (quiet_node i))).bind fun _ =>
        .ite (fun _ => keeps_master herror) fun _ => start_node_master hexecs i _ _

end Children

/-- Whenever the loop comes around, it is in the process that began it. -/
theorem alone_of_execs {nature : Nature} {pathSet : Bool} (hexecs : Execs nature pathSet)
    (files : CString → Option (List Nat)) (lines : List (List Char)) (s : Master)
    (h : turns lines (.initial nature pathSet files) = .ok ((), s)) :
    s.kernel.isChild = false :=
  ((preserved_isMaster hexecs).turns lines _ _ _ ⟨rfl, rfl, rfl⟩ h).2.2

/-- What `fork` and `execvpe` return at every moment. -/
def forking (fork execvpe : Int) : Nature where
  moment _ :=
    { pipe := 0, fork := fork, read := 1, kill := 0, waitpid := 0, dup2 := 3, setpgid := 0
      execvpe := execvpe, signals := [] }
  leftover _ _ := []

/-- A daemon is registered and started, and the loop goes on in the parent. -/
theorem alone_of_execs_start : ∃ s,
    turns [registerLazy.chars, startLazy.chars] (.initial (forking 17 0) true fun _ => none) =
      .ok ((), s) ∧
    s.daemons.map DaemonNode.daemonProcessID = [17] ∧ s.kernel.isChild = false := by
  have hends : Ends (forEach turnOn [registerLazy.fields, startLazy.fields])
      (.initial (forking 17 0) true fun _ => none) fun u s =>
        u = () ∧ s.daemons.map DaemonNode.daemonProcessID = [17] := by
    decide +kernel
  obtain ⟨hrun, hpid⟩ := hends.eq_after
  have hturns := (turns_lazy _).trans hrun
  refine ⟨_, hturns, hpid, @alone_of_execs (forking 17 0) true
    (fun _ _ => ⟨rfl, (by decide : (3 : Int) ≠ -1), rfl, (by decide : (0 : Int) ≠ -1)⟩)
    (fun _ => none) [registerLazy.chars, startLazy.chars] _ hturns⟩

/-- With a mistyped executable the child reads the next command. -/
theorem child_reads_commands :
    ¬ ∀ (nature : Nature) (pathSet : Bool) (files : CString → Option (List Nat))
        (lines : List (List Char)) (s : Master),
      turns lines (.initial nature pathSet files) = .ok ((), s) → s.kernel.isChild = false := by
  intro h
  have hends : Ends (forEach turnOn [registerLazy.fields, startLazy.fields])
      (.initial (forking 0 (-1)) true fun _ => none)
      fun u s => u = () ∧ s.kernel.isChild = true := by
    decide +kernel
  have hchild := h _ true _ [registerLazy.chars, startLazy.chars] _
    ((turns_lazy _).trans hends.eq_after.1)
  rw [hends.eq_after.2] at hchild
  cases hchild

end StarterProjects.Legion
