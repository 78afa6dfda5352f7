import Mathlib.Data.List.Basic
import StarterProjects.Legion.Bearing
import StarterProjects.Legion.Lines
import StarterProjects.Legion.Supervisor
import StarterProjects.Legion.Waiting

/-!
# The master refines the supervisor

`At s₀ c i d calls events` says how far a start or stop of the node `i` has come since `s₀`: the
node is `d` now, and the calls and the events have been added. Each primitive has a rule for it,
and at the end a `Shift` leads from `s₀` to the state reached. With the loop rule every run of
commands is a run of the supervisor, and has its three properties.
-/

namespace StarterProjects.Legion

open Lib Lib.Exec

/-- What is seen goes on as the supervisor may. -/
structure Refines (s s' : Master) : Prop where
  nature : s'.kernel.nature = s.kernel.nature
  run : Run s.kernel.nature s.view s'.view

instance : IsPreorder Master Refines where
  refl := fun _ => ⟨rfl, .refl⟩
  trans := fun _ _ _ h h' => ⟨h'.nature.trans h.nature, h.run.trans (h.nature ▸ h'.run)⟩

theorem Refines.of_move {s s' : Master} (hn : s'.kernel.nature = s.kernel.nature)
    (h : Move s.kernel.nature s.view s'.view) : Refines s s' :=
  ⟨hn, .single h⟩

theorem refines_still {s s' : Master} (h : Still s s') : Refines s s' := by
  refine .of_move h.nature ?_
  have hview : s'.view = { s.view with clock := s'.kernel.clock } := by
    rw [Master.view, h.daemons, h.calls, h.events]
    rfl
  rw [hview]
  exact .pass h.clock

/-- Only the logs are changed. -/
theorem refines_files (s : Master) (path : CString) (file : Option (List Nat)) :
    Refines s (s.setFile path file) :=
  ⟨rfl, .refl⟩

/-! ## Assertions about a start or stop -/

structure At (s₀ : Master) (c i : Nat) (d : DaemonNode) (calls : List Call)
    (events : List SfEvent) (s : Master) : Prop where
  nature : s.kernel.nature = s₀.kernel.nature
  place : i < s₀.daemons.length
  daemons : s.daemons = s₀.daemons.set i d
  calls : s.kernel.calls = s₀.kernel.calls ++ calls
  events : s.events = s₀.events ++ events
  since : s₀.kernel.clock ≤ c
  clock : c ≤ s.kernel.clock

section At

variable {s₀ : Master} {c i : Nat} {d d' : DaemonNode} {calls : List Call} {events : List SfEvent}
  {α : Type}

theorem At.start (h : s₀.daemons[i]? = some d) : At s₀ s₀.kernel.clock i d [] [] s₀ := by
  obtain ⟨hi, hd⟩ := List.getElem?_eq_some_iff.mp h
  refine ⟨rfl, hi, ?_, (List.append_nil _).symm, (List.append_nil _).symm, Nat.le_refl _,
    Nat.le_refl _⟩
  rw [← hd, List.set_getElem_self]

theorem At.node {s : Master} (h : At s₀ c i d calls events s) : s.daemons[i]? = some d := by
  rw [h.daemons, List.getElem?_set_self h.place]

theorem At.still {s s' : Master} (h : At s₀ c i d calls events s) (hs : Still s s') :
    At s₀ c i d calls events s' where
  nature := hs.nature.trans h.nature
  place := h.place
  daemons := hs.daemons.trans h.daemons
  calls := hs.calls.trans h.calls
  events := hs.events.trans h.events
  since := h.since
  clock := Nat.le_trans h.clock hs.clock

theorem At.log {s : Master} (h : At s₀ c i d calls events s) (call : Call) :
    At s₀ c i d (calls ++ [call]) events (s.log call) where
  nature := h.nature
  place := h.place
  daemons := h.daemons
  calls := by
    rw [← List.append_assoc, ← h.calls]
    rfl
  events := h.events
  since := h.since
  clock := h.clock

theorem At.modifyNode {s : Master} (h : At s₀ c i d calls events s) (f : DaemonNode → DaemonNode) :
    At s₀ c i (f d) calls events (s.modifyNode i f) where
  nature := h.nature
  place := h.place
  daemons := by
    show s.daemons.modify i f = _
    rw [h.daemons, List.set_eq_modify, List.modify_modify_eq, List.set_eq_modify]
    rfl
  calls := h.calls
  events := h.events
  since := h.since
  clock := h.clock

/-- The end of the start or stop. -/
theorem At.refines {s : Master} (h : At s₀ c i d' calls events s) (hd : s₀.daemons[i]? = some d)
    (hs : Shift (ForkedIn s₀.kernel.nature s₀.kernel.clock s.kernel.clock) d calls events d') :
    Refines s₀ s := by
  refine .of_move h.nature ?_
  have hview : s.view = ⟨s₀.view.daemons.set i d', s₀.view.calls ++ calls,
      s₀.view.events ++ events, s.kernel.clock⟩ := by
    rw [Master.view, h.daemons, h.calls, h.events]
    rfl
  rw [hview]
  exact .shift hd (Nat.le_trans h.since h.clock) hs

/-- From a state that has a name. -/
theorem At.named {s : Master} (h : At s₀ c i d calls events s) {m : Exec Master α}
    {Q : α → Master → Prop} (hm : Triple (At s₀ c i d calls events) m Q) :
    Triple (fun t => t = s) m Q :=
  hm.pre fun _ ht => ht ▸ h

/-! ### A rule for each primitive -/

theorem at_still {m : Exec Master α} (h : Within Still m) :
    Triple (At s₀ c i d calls events) m fun _ => At s₀ c i d calls events :=
  h.triple fun _ _ hs hat => hat.still hs

theorem at_node {k : DaemonNode → Exec Master α} {Q : α → Master → Prop}
    (h : Triple (At s₀ c i d calls events) (k d) Q) :
    Triple (At s₀ c i d calls events) (node i >>= k) Q := by
  intro s a s' hat hrun
  rw [bind_ok (node_run hat.node)] at hrun
  exact h s a s' hat hrun

theorem at_setStatus (status : DaemonStatus) :
    Triple (At s₀ c i d calls events) (setStatus i status) fun _ =>
      At s₀ c i (d.withStatus status) calls events :=
  .modify fun _ h => h.modifyNode fun d => d.withStatus status

theorem at_setProcessID (pid : Int) :
    Triple (At s₀ c i d calls events) (setProcessID i pid) fun _ =>
      At s₀ c i (d.withProcessID pid) calls events :=
  .modify fun _ h => h.modifyNode fun d => d.withProcessID pid

theorem at_sf (event : SfEvent) :
    Triple (At s₀ c i d calls events) (sf event) fun _ => At s₀ c i d calls (events ++ [event]) :=
  .modify fun _ h =>
    { h with events := (congrArg (· ++ [event]) h.events).trans (List.append_assoc ..) }

theorem at_sf_node (event : DaemonNode → SfEvent) :
    Triple (At s₀ c i d calls events) (sf_node i event) fun _ =>
      At s₀ c i d calls (events ++ [event d]) :=
  at_node (at_sf _)

theorem at_error (reason : String) :
    Triple (At s₀ c i d calls events) (sf_error reason) fun _ =>
      At s₀ c i d calls (events ++ [.error reason.toList]) :=
  at_sf _

theorem at_errMsg (before : String) (curName : CString) (after : String) :
    Triple (At s₀ c i d calls events) (sf_error_errMsg before curName after) fun _ =>
      At s₀ c i d calls (events ++ [.error (before.toList ++ curName ++ after.toList)]) :=
  .ite (fun _ => at_sf _) fun _ => .stop

theorem at_kill (pid : Int) (signal : KillSignal) :
    Triple (At s₀ c i d calls events) (kill pid signal) fun answer =>
      At s₀ c i d (calls ++ [.kill pid signal answer]) events :=
  (at_still (still_syscall _)).bind fun _ =>
    (Triple.modify fun _ h => h.log _).bind fun _ => .ret fun _ h => h

theorem at_sigsuspend :
    Triple (At s₀ c i d calls events) sigsuspend fun _ s =>
      At s₀ c i d (calls ++ [.sigsuspend s.sigchld_flag s.sigalrm_flag]) events s ∧
        (s.sigchld_flag = false → s.sigalrm_flag = true) := by
  intro s _ s' h hrun
  cases hrun
  exact ⟨(h.still (still_wake s)).log _, wake_alarm s⟩

theorem at_waitpid (pid : Int) :
    Triple (At s₀ c i d calls events) (waitpid pid) fun answer s =>
      (answer = -1 ∨ answer = pid) ∧
        ∃ terminated, At s₀ c i d (calls ++ [.waitpid pid terminated]) events s := by
  refine Triple.bind (Q := fun _ s =>
    ∃ terminated, At s₀ c i d (calls ++ [.waitpid pid terminated]) events s) ?_ fun _ => ?_
  · exact .modify fun s h => ⟨_, h.log _⟩
  · refine Triple.bind (Q := fun _ s =>
      ∃ terminated, At s₀ c i d (calls ++ [.waitpid pid terminated]) events s) ?_ fun answer => ?_
    · exact (still_syscall _).triple fun _ _ hs ⟨terminated, h⟩ => ⟨terminated, h.still hs⟩
    · refine .ite (fun _ => .ret fun _ h => ⟨.inl rfl, h⟩) fun _ => ?_
      exact Triple.bind (Q := fun _ s =>
        ∃ terminated, At s₀ c i d (calls ++ [.waitpid pid terminated]) events s)
        (.gets fun _ h => h) fun _ => .ite (fun _ => .ret fun _ h => ⟨.inr rfl, h⟩) fun _ => .stop

theorem at_read :
    Triple (At s₀ c i d calls events) read fun answer s =>
      At s₀ c i d (calls ++ [.read answer s.sigalrm_flag]) events s :=
  (at_still (still_syscall _)).bind fun _ =>
    (Triple.modify fun _ h => h.log _).bind fun _ => .ret fun _ h => h

/-- The answer of `fork` came between `s₀` and now. -/
theorem at_fork :
    Triple (At s₀ c i d calls events) fork fun pid s => At s₀ c i d calls events s ∧
      ∃ n, s₀.kernel.clock ≤ n ∧ n < s.kernel.clock ∧
        (s₀.kernel.nature.moment n).fork = pid := by
  intro s pid s' h hrun
  obtain ⟨t, ht, hclock, hpid, rfl⟩ := fork_still hrun
  refine ⟨{ h.still ht with }, s.kernel.clock, Nat.le_trans h.since h.clock, ?_, ?_⟩
  · show s.kernel.clock < t.kernel.clock
    omega
  · rw [hpid, ← h.nature]
    rfl

theorem at_openLog (path : CString) :
    Triple (At s₀ c i d calls events) (modify fun s => s.openLog path) fun _ =>
      At s₀ c i d calls events :=
  .modify fun _ h => { h with }

/-- What starts with a look at the node `i`. -/
theorem within_of_node {k : DaemonNode → Exec Master α} (i : Nat)
    (h : ∀ s₀ d, s₀.daemons[i]? = some d →
      Triple (fun s => s = s₀) (k d) fun _ => Refines s₀) : Within Refines (node i >>= k) := by
  intro s a s' hrun
  obtain ⟨d, s₁, hnode, hrest⟩ := bind_eq_ok hrun
  obtain ⟨hd, rfl⟩ := node_inv hnode
  exact h _ d hd _ a s' rfl hrest

theorem refines_error (reason : String) : Within Refines (sf_error reason) :=
  .modify fun _ => .of_move rfl .error

/-- The status of the daemon does not allow the command. -/
theorem refines_refusal : Within Refines (do sf_error "command execution"; return LEGION_ERROR) :=
  (refines_error _).bind fun _ => .ret

/-! ## stop -/

/-- SIGTERM has been sent, or not. -/
def StopWaited (s₀ : Master) (c i : Nat) (d : DaemonNode) : Bool → Master → Prop
  | false, s => ∃ answer, answer ≠ 0 ∧
      At s₀ c i (d.withStatus .stopping) [.kill d.daemonProcessID .sigterm answer]
        [.stop (d.withStatus .stopping).name d.daemonProcessID] s
  | true, s => At s₀ c i (d.withStatus .stopping)
      [.kill d.daemonProcessID .sigterm 0, .sigsuspend s.sigchld_flag s.sigalrm_flag]
      [.stop (d.withStatus .stopping).name d.daemonProcessID] s ∧
        (s.sigchld_flag = false → s.sigalrm_flag = true)

theorem at_stop_wait : Triple (At s₀ c i d [] []) (legion_stop_wait i) (StopWaited s₀ c i d) := by
  refine (at_setStatus _).bind fun _ => (at_sf_node _).bind fun _ => at_node ?_
  refine (at_kill _ _).bind fun answer => .ite (fun hne => ?_) fun h0 => ?_
  · exact .ret fun s h => ⟨answer, hne, h⟩
  · rw [Decidable.of_not_not h0]
    exact at_sigsuspend.bind fun _ => .ret fun _ h => h

/-- The child that ended the wait was the daemon, or was taken for it. -/
theorem at_stop_reap (hd : s₀.daemons[i]? = some d) (ha : d.daemonStatus = .active)
    (curName : CString) (sigalrm : Bool) :
    Triple (At s₀ c i (d.withStatus .stopping)
        [.kill d.daemonProcessID .sigterm 0, .sigsuspend true sigalrm]
        [.stop (d.withStatus .stopping).name d.daemonProcessID])
      (do
        let curNode ← node i
        let curPID ← waitpid curNode.daemonProcessID
        if curPID = -1 then
          sf_error_errMsg "WaitPID error with daemon " curName "."
          setProcessID i 0
          setStatus i .crashed
          sf_node i fun curNode => .crash curNode.name curPID 0
          return LEGION_ERROR
        else
          setStatus i .exited
          clearSigchld
          sf_node i fun curNode => .term curNode.name curPID 0
          return LEGION_SUCCESS)
      fun _ => Refines s₀ := by
  refine at_node ((at_waitpid _).bind fun curPID => ?_)
  refine .of_state fun s₁ ⟨hpid, terminated, h⟩ => ?_
  refine .ite (fun hlost => ?_) fun hreaped => ?_
  · refine (h.named (at_errMsg _ _ _)).bind fun _ => (at_setProcessID _).bind fun _ => ?_
    refine (at_setStatus _).bind fun _ => (at_sf_node _).bind fun _ => .ret fun s hs => ?_
    exact hs.refines hd (hlost ▸ .lost ha)
  · refine (h.named (at_setStatus _)).bind fun _ => ?_
    refine (at_still still_clearSigchld).bind fun _ => ?_
    refine (at_sf_node _).bind fun _ => .ret fun s hs => hs.refines hd ?_
    rw [hpid.resolve_left hreaped]
    exact .reaped ha

/-- The timer ended the wait. -/
theorem at_stop_kill (hd : s₀.daemons[i]? = some d) (ha : d.daemonStatus = .active)
    (curName : CString) :
    Triple (At s₀ c i (d.withStatus .stopping)
        [.kill d.daemonProcessID .sigterm 0, .sigsuspend false true]
        [.stop (d.withStatus .stopping).name d.daemonProcessID])
      (do
        let curNode ← node i
        sf (.kill curNode.name curNode.daemonProcessID)
        let _ ← kill curNode.daemonProcessID .sigkill
        sf_error_errMsg "Daemon " curName " killed with SIGKILL."
        clearSigalrm
        return LEGION_ERROR)
      fun _ => Refines s₀ := by
  refine at_node ((at_sf _).bind fun _ => (at_kill _ _).bind fun answer => ?_)
  refine (at_errMsg _ _ _).bind fun _ => (at_still still_clearSigalrm).bind fun _ => ?_
  exact .ret fun s hs => hs.refines hd (.killed ha)

theorem at_stop_woken (hd : s₀.daemons[i]? = some d) (ha : d.daemonStatus = .active)
    (curName : CString) :
    Triple (StopWaited s₀ c i d true) (legion_stop_woken i curName) fun _ => Refines s₀ := by
  refine .of_state fun w ⟨h, halarm⟩ => .gets_bind ?_
  cases hflag : w.sigchld_flag with
  | true =>
    rw [hflag] at h
    exact h.named (at_stop_reap hd ha curName _)
  | false =>
    rw [hflag, halarm hflag] at h
    refine .gets_bind ?_
    rw [halarm hflag]
    exact h.named (at_stop_kill hd ha curName)

theorem refines_returning {m : Exec Master Int} (h : Within Refines m) :
    Within Refines (returning m) :=
  h.bind fun _ => (Within.modify fun _ => .of_move rfl .returned).bind fun _ => .ret

theorem refines_stop (curName : Option CString) : Within Refines (legion_stop curName) := by
  refine refines_returning ((within_name_exists curName).bind fun i? => ?_)
  cases i? with
  | none => exact .stop
  | some i =>
    refine within_of_node i fun s₀ d hd => .ite (fun hended => ?_) fun _ => .ite (fun _ => ?_) ?_
    · refine ((At.start hd).named (at_setStatus _)).bind fun _ => ?_
      exact (at_sf_node _).bind fun _ => .ret fun s hs => hs.refines hd (.reset hended)
    · exact refines_refusal.of_start
    · intro ha
      refine ((At.start hd).named at_stop_wait).bind fun sent => ?_
      cases sent with
      | true => exact at_stop_woken hd (Decidable.of_not_not ha) _
      | false =>
        refine .of_state fun s₁ ⟨answer, hne, h⟩ => ?_
        refine (h.named (at_errMsg _ _ _)).bind fun _ => ?_
        exact .ret fun s hs => hs.refines hd (.unsent (Decidable.of_not_not ha) hne)

/-! ## start -/

theorem DaemonNode.withStatus_self {status : DaemonStatus} (h : d.daemonStatus = status) :
    d.withStatus status = d := by
  rw [← h]
  rfl

/-- There is no child. -/
theorem at_start_failed (hd : s₀.daemons[i]? = some d) (hi : d.daemonStatus = .inactive)
    (reason : String) :
    Triple (At s₀ c i (d.withStatus .starting) [] [])
      (do setStatus i .inactive; sf_error reason; return LEGION_ERROR) fun _ => Refines s₀ := by
  refine (at_setStatus _).bind fun _ => (at_error _).bind fun _ => .ret fun s hs => hs.refines hd ?_
  rw [show (d.withStatus .starting).withStatus .inactive = d from DaemonNode.withStatus_self hi]
  exact .unforked hi

theorem at_start_exec (hd : s₀.daemons[i]? = some d) (hi : d.daemonStatus = .inactive) :
    Triple (At s₀ c i (d.withStatus .starting) [] []) legion_start_exec fun _ => Refines s₀ := by
  have herror : ∀ reason, Triple (At s₀ c i (d.withStatus .starting) [] [])
      (do sf_error reason; return LEGION_ERROR) fun _ => Refines s₀ := fun reason =>
    (at_error _).bind fun _ => .ret fun s hs => hs.refines hd (.child hi)
  refine (at_still (still_syscall _)).bind fun _ => .ite (fun _ => herror _) fun _ => ?_
  refine (at_still (still_syscall _)).bind fun _ => .ite (fun _ => herror _) fun _ => ?_
  exact (at_still (still_syscall _)).bind fun _ => .ite (fun _ => herror _) fun _ => .stop

theorem at_start_child (hd : s₀.daemons[i]? = some d) (hi : d.daemonStatus = .inactive)
    (curName : CString) (logFileVersion : Char) :
    Triple (At s₀ c i (d.withStatus .starting) [] []) (legion_start_child curName logFileVersion)
      fun _ => Refines s₀ :=
  (at_still .gets).bind fun _ => .ite (fun _ => .stop) fun _ =>
    (at_openLog _).bind fun _ => at_start_exec hd hi

theorem ForkedIn.mono {nature : Nature} {lo hi hi' : Nat} (h : hi ≤ hi') {pid : Int}
    (hf : ForkedIn nature lo hi pid) : ForkedIn nature lo hi' pid := by
  obtain ⟨n, hlo, hn, hpid⟩ := hf
  exact ⟨n, hlo, Nat.lt_of_lt_of_le hn h, hpid⟩

/-- The flag of SIGALRM is left alone. -/
def SameAlarm (s s' : Master) : Prop := s'.sigalrm_flag = s.sigalrm_flag

instance : IsPreorder Master SameAlarm where
  refl := fun _ => rfl
  trans := fun _ _ _ h h' => Eq.trans h' h

/-- `At`, with the flag that the last `read` returned with. -/
def AtAlarm (s₀ : Master) (c i : Nat) (alarm : Bool) (d : DaemonNode) (calls : List Call)
    (events : List SfEvent) (s : Master) : Prop :=
  At s₀ c i d calls events s ∧ s.sigalrm_flag = alarm

theorem AtAlarm.rule {alarm : Bool} {calls' : List Call} {events' : List SfEvent}
    {m : Exec Master α} (h : Triple (At s₀ c i d calls events) m fun _ =>
      At s₀ c i d' calls' events') (hm : Within SameAlarm m) :
    Triple (AtAlarm s₀ c i alarm d calls events) m fun _ =>
      AtAlarm s₀ c i alarm d' calls' events' :=
  fun s a s' ⟨hat, hflag⟩ hrun => ⟨h s a s' hat hrun, (hm s a s' hrun).trans hflag⟩

theorem sameAlarm_sf_node (event : DaemonNode → SfEvent) : Within SameAlarm (sf_node i event) :=
  (within_node i).bind fun _ => .modify fun _ => rfl

/-- The end of the parent's branch. -/
theorem at_start_timer (hd : s₀.daemons[i]? = some d) (curName : CString) {childPID : Int}
    {alarm : Bool}
    (hlate : alarm = true → ∀ hi, c ≤ hi → Shift (ForkedIn s₀.kernel.nature s₀.kernel.clock hi) d
      calls (events ++ [.stop curName childPID]) (d'.withStatus .crashed))
    (hearly : alarm = false → ∀ hi, c ≤ hi →
      Shift (ForkedIn s₀.kernel.nature s₀.kernel.clock hi) d calls events d') :
    Triple (AtAlarm s₀ c i alarm d' calls events)
      (do
        if ← Exec.gets Master.sigalrm_flag then
          sf (.stop curName childPID)
          setStatus i .crashed
          clearSigalrm
          return LEGION_ERROR
        else
          return LEGION_SUCCESS)
      fun _ => Refines s₀ := by
  refine .of_state fun w ⟨h, hflag⟩ => .gets_bind ?_
  rw [hflag]
  cases halarm : alarm with
  | true =>
    refine h.named ((at_sf _).bind fun _ => (at_setStatus _).bind fun _ => ?_)
    refine (at_still still_clearSigalrm).bind fun _ => .ret fun s hs => hs.refines hd ?_
    exact hlate halarm _ hs.clock
  | false => exact .ret fun s hs => hs ▸ h.refines hd (hearly halarm _ h.clock)

/-- After the byte, or the end of the pipe. -/
theorem at_start_sync (hd : s₀.daemons[i]? = some d) (hi : d.daemonStatus = .inactive)
    (curName : CString) {childPID : Int}
    (hf : ForkedIn s₀.kernel.nature s₀.kernel.clock c childPID) :
    Triple (At s₀ c i (d.withStatus .starting) [] []) (legion_start_sync i curName childPID)
      fun _ => Refines s₀ := by
  refine (at_still still_blockChld).bind fun _ => at_read.bind fun answer => ?_
  refine .of_state fun w h => ?_
  have hw : ∀ t, t = w → AtAlarm s₀ c i w.sigalrm_flag (d.withStatus .starting)
      [.read answer w.sigalrm_flag] [] t := fun t ht => ⟨ht ▸ h, ht ▸ rfl⟩
  refine .ite (fun hbyte => ?_) fun hend => ?_
  · refine ((AtAlarm.rule (at_sf_node _) (sameAlarm_sf_node _)).pre hw).bind fun _ => ?_
    refine (AtAlarm.rule (at_setProcessID _) (.modify fun _ => rfl)).bind fun _ => ?_
    refine (AtAlarm.rule (at_setStatus _) (.modify fun _ => rfl)).bind fun _ => ?_
    refine (AtAlarm.rule (at_sf_node _) (sameAlarm_sf_node _)).bind fun _ => ?_
    refine at_start_timer hd curName (fun halarm hi' hc => ?_) fun halarm hi' hc => ?_
    · rw [halarm]
      exact .late hi (hf.mono hc) hbyte
    · rw [halarm]
      exact .launched hi (hf.mono hc) hbyte
  · refine (at_start_timer hd curName (fun halarm _ _ => ?_) fun halarm _ _ => ?_).pre hw
    · rw [halarm, Decidable.of_not_not hend]
      exact .timedOut hi
    · rw [halarm, Decidable.of_not_not hend]
      exact .silent hi

theorem at_start_parent (hd : s₀.daemons[i]? = some d) (hi : d.daemonStatus = .inactive)
    (curName : CString) (logFileVersion : Char) {childPID : Int}
    (hf : ForkedIn s₀.kernel.nature s₀.kernel.clock c childPID) :
    Triple (At s₀ c i (d.withStatus .starting) [] [])
      (legion_start_parent i curName logFileVersion childPID) fun _ => Refines s₀ := by
  refine Triple.bind (.modify fun s h => ?_) fun _ => at_start_sync hd hi curName hf
  split
  · exact { h with }
  · exact h

theorem at_start_node (hd : s₀.daemons[i]? = some d) (hi : d.daemonStatus = .inactive)
    (curName : CString) (logFileVersion : Char) :
    Triple (At s₀ c i d [] []) (legion_start_node i curName logFileVersion)
      fun _ => Refines s₀ := by
  refine (at_setStatus _).bind fun _ => (at_still (still_syscall _)).bind fun _ => ?_
  refine .ite (fun _ => at_start_failed hd hi _) fun _ => at_fork.bind fun childPID => ?_
  refine .of_state fun w ⟨h, n, hlo, hn, hpid⟩ => ?_
  refine .ite (fun _ => h.named (at_start_failed hd hi _)) fun hne => .ite (fun _ => ?_)
    fun h0 => ?_
  · exact h.named (at_start_child hd hi _ _)
  · have hnow : At s₀ w.kernel.clock i (d.withStatus .starting) [] [] w :=
      { h with since := Nat.le_trans h.since h.clock, clock := Nat.le_refl _ }
    exact hnow.named (at_start_parent hd hi _ _ ⟨n, hlo, hn, hpid, hne, h0⟩)

theorem refines_start (curName : Option CString) (logFileVersion : Char) :
    Within Refines (legion_start curName logFileVersion) := by
  refine refines_returning ((within_name_exists curName).bind fun i? => ?_)
  cases i? with
  | none => exact refines_refusal
  | some i =>
    refine within_of_node i fun s₀ d hd => .ite (fun _ => refines_refusal.of_start) fun hi => ?_
    exact (At.start hd).named (at_start_node hd (Decidable.of_not_not hi) _ _)

end At

/-! ## The other functions -/

theorem arg_state {k : Nat} {s s' : Master} {text : CString} (h : arg k s = .ok (text, s')) :
    s' = s := by
  unfold arg at h
  split at h
  · cases h
    rfl
  · cases h

/-- The node comes first, and is reported by its name. -/
theorem refines_register (curName curExe args : CString) :
    Within Refines (legion_register curName curExe args) := by
  intro s r s' h
  obtain ⟨t, ht⟩ : ∃ t, t = { s with daemons := newNode curName curExe args :: s.daemons } :=
    ⟨_, rfl⟩
  have hevent : ∀ cmd, Triple (fun u => u = t)
      (do sf_node 0 fun tempNode => .register tempNode.name cmd; return LEGION_SUCCESS)
      fun _ => Refines s := by
    rintro cmd u r s' rfl h
    subst ht
    cases h
    exact .of_move rfl (.register rfl)
  rw [legion_register, modify_bind, ← ht, gets_bind] at h
  split at h
  · obtain ⟨cmd, u, hcmd, h⟩ := bind_eq_ok h
    exact hevent cmd u r s' (arg_state hcmd) h
  · exact hevent [] t r s' rfl h

theorem refines_unregister (curName : Option CString) :
    Within Refines (legion_unregister curName) := by
  refine (within_name_exists curName).bind fun i? => ?_
  cases i? with
  | none => exact .ret
  | some i =>
    refine within_of_node i fun s₀ d hd => .ite (fun hi => ?_) fun _ => Within.ret.of_start
    rintro s r s' rfl h
    cases h
    exact .of_move rfl (.unregister hd hi)

theorem refines_unlink (path : CString) : Within Refines (unlink path) :=
  ((still_syscall _).mono fun _ _ => refines_still).bind fun _ =>
    .ite (.modify fun s => refines_files s _ _) .ret

theorem refines_rename (oldPath newPath : CString) : Within Refines (rename oldPath newPath) := by
  refine ((still_syscall _).mono fun _ _ => refines_still).bind fun _ =>
    Within.gets.bind fun file => ?_
  cases file with
  | none => exact .ret
  | some sessions =>
    refine .ite .ret (Within.bind (.modify fun s => ?_) fun _ => .ret)
    exact trans_of Refines (refines_files s newPath (some sessions)) (refines_files _ oldPath none)

theorem bears_refines : Bears Refines where
  still := fun _ _ => refines_still
  error := fun _ _ => .of_move rfl .error
  rotates := fun _ _ => .of_move rfl .rotates
  returned := fun _ => .of_move rfl .returned
  register := refines_register
  unregister := refines_unregister
  unlink := refines_unlink
  rename := refines_rename
  start := refines_start
  stop := refines_stop

/-! ## Runs of commands -/

/-- The turns for these lines, and then the first `k` turns of the loop of `quit`. -/
def session (lines : List (List Char)) (k : Nat) : Exec Master Unit := do
  turns lines
  stopDaemons k

theorem refines_session (lines : List (List Char)) (k : Nat) :
    Within Refines (session lines k) := by
  refine (bears_refines.turns lines).bind fun _ => ?_
  refine Within.bind (.modify fun _ => refines_still (.of_eq rfl rfl rfl)) fun _ => ?_
  exact .forEach (fun i => (within_node i).bind fun _ =>
    .ite ((refines_stop _).bind fun _ => .ret) .ret) _

/-- The daemon starts as 11, and ends in the fifth call. -/
def dutiful (signals : List Signal) : Nature where
  moment k :=
    { pipe := 0, fork := 11, read := 1, kill := 0, waitpid := 11, dup2 := 3, setpgid := 0
      execvpe := -1, signals := if k = 4 then signals else [] }
  leftover _ _ := []

theorem session_fields (lines : List CommandLine)
    (h : ∀ line ∈ lines, 2 ≤ line.body.length ∧ ∀ text ∈ line.fields, Plain text) (k : Nat)
    {s s' : Master} (hrun : (do forEach turnOn (lines.map CommandLine.fields); stopDaemons k) s =
      .ok ((), s')) : session (lines.map CommandLine.chars) k s = .ok ((), s') := by
  obtain ⟨u, t, h₁, h₂⟩ := bind_eq_ok hrun
  exact (bind_ok ((turns_fields lines h s).trans h₁)).trans h₂

/-- `start lazy`, then `quit`. -/
theorem dutiful_quits :
    Ends (do forEach turnOn ([registerLazy, startLazy].map CommandLine.fields); stopDaemons 1)
      (.initial (dutiful [.terminates 11]) true fun _ => none) fun u s => u = () ∧
        s.kernel.calls = [.read 1 false, .returned [.active], .kill 11 .sigterm 0,
          .sigsuspend true false, .waitpid 11 true, .returned [.exited]] ∧
        .term "lazy".toList 11 0 ∈ s.events := by decide +kernel

end StarterProjects.Legion
