import StarterProjects.Legion.Waiting

/-!
# The byte of the daemon

The parent in `legion_start` waits in `read` for the byte of the daemon. Any answer but 0 is
taken for the byte, also the -1 of a `read` that SIGALRM has interrupted, and `sf_active` is
called. What comes after looks only at the flag of SIGALRM. The flag may be older than this
start: a `read` that finds the pipe at its end leaves the timer on.

`start_synchronises_iff`: a daemon whose byte is received gets active, and no other one,
exactly when no SIGALRM has come by the time the byte is received.
-/

namespace StarterProjects.Legion

open Lib Lib.Exec

/-- `read` of one byte: there is one, the pipe is at its end, or SIGALRM comes before. -/
def Answers.ReadsByte (a : Answers) : Prop :=
  a.read = 1 ∨ a.read = 0 ∨ a.read = -1 ∧ Signal.alarm ∈ a.signals

/-- `legion_start` with this name finds the node `d` at `i`, which is inactive, and comes to the
`read` of the parent. -/
structure Starting (s : Master) (curName : CString) (i : Nat) (d : DaemonNode) : Prop where
  found : s.daemons.findIdx? (fun d => d.name = curName) = some i
  node : s.daemons[i]? = some d
  inactive : d.daemonStatus = .inactive
  pipe : (s.ahead 0).pipe ≠ -1
  forked : (s.ahead 1).fork ≠ -1
  parent : (s.ahead 1).fork ≠ 0
  read : (s.ahead 2).ReadsByte

/-- SIGALRM has come before, or it does as far as the `read`. -/
def Master.Alarmed (s : Master) : Prop :=
  s.sigalrm_flag = true ∨ ∃ n < 3, Signal.alarm ∈ (s.ahead n).signals

/-! ## What is seen of a start -/

/-- From `s` to `s'` one byte has been read. -/
def Received (s s' : Master) : Prop :=
  ∃ sigalrm, Call.read 1 sigalrm ∈ s'.kernel.calls.drop s.kernel.calls.length

/-- `sf_active` has been called. -/
def ReportsActive (s s' : Master) : Prop :=
  ∃ name pid, SfEvent.active name pid ∈ s'.events.drop s.events.length

/-- LEGION_SUCCESS is returned, and the node `i` is active. -/
def ReturnsActive (i : Nat) (r : Int) (s' : Master) : Prop :=
  r = LEGION_SUCCESS ∧ ∃ d, s'.daemons[i]? = some d ∧ d.daemonStatus = .active

/-- The start of the node `i` as the process `pid`, after a `read` with this answer and the flag
that it found. -/
structure Started (s : Master) (i : Nat) (answer : Int) (sigalrm : Bool) (r : Int)
    (s' : Master) : Prop where
  events : ∃ name name' stopped pid, s'.events =
    s.events ++ (if answer = 0 then [] else [.start name, .active name' pid]) ++
      (if sigalrm then [.stop stopped pid] else [])
  calls : ∃ statuses, s'.kernel.calls =
    s.kernel.calls ++ [.read answer sigalrm, .returned statuses]
  result : r = if sigalrm then LEGION_ERROR else LEGION_SUCCESS
  status : ∃ d, s'.daemons[i]? = some d ∧ d.daemonStatus =
    if sigalrm then .crashed else if answer = 0 then .starting else .active

namespace Started

variable {s s' : Master} {i : Nat} {answer r : Int} {sigalrm : Bool}
  (h : Started s i answer sigalrm r s')

include h

theorem received_iff : Received s s' ↔ answer = 1 := by
  obtain ⟨statuses, hcalls⟩ := h.calls
  rw [Received, hcalls, List.drop_left]
  simp [eq_comm]

theorem reports_iff : ReportsActive s s' ↔ answer ≠ 0 := by
  obtain ⟨name, name', stopped, pid, hevents⟩ := h.events
  rw [ReportsActive, hevents, List.append_assoc, List.drop_left]
  by_cases h0 : answer = 0 <;> cases sigalrm <;> simp [h0]

theorem returns_iff : ReturnsActive i r s' ↔ answer ≠ 0 ∧ sigalrm = false := by
  obtain ⟨d, hd, hstatus⟩ := h.status
  rw [ReturnsActive, h.result, hd]
  cases sigalrm with
  | true => simp [LEGION_ERROR, LEGION_SUCCESS]
  | false =>
    have hactive : d.daemonStatus = .active ↔ answer ≠ 0 := by
      rw [hstatus]
      by_cases h0 : answer = 0 <;> simp [h0]
    simp [hactive]

end Started

/-! ## The parent -/

theorem deliverAll_events (signals : List Signal) :
    ∀ s : Master, (s.deliverAll signals).events = s.events := by
  induction signals with
  | nil => exact fun _ => rfl
  | cons signal signals ih =>
    refine fun s => (ih _).trans ?_
    cases signal with
    | alarm => rfl
    | terminates pid =>
      unfold Master.deliver
      simp only
      split <;> rfl

theorem pass_events (s : Master) : s.pass.events = s.events := deliverAll_events _ _

theorem sf_node_run {s : Master} {i : Nat} {d : DaemonNode} {event : DaemonNode → SfEvent}
    (h : s.daemons[i]? = some d) :
    sf_node i event s = .ok ((), { s with events := s.events ++ [event d] }) :=
  bind_ok (node_run h)

theorem modifyNode_node {s : Master} {i : Nat} {d : DaemonNode} {f : DaemonNode → DaemonNode}
    (h : s.daemons[i]? = some d) : (s.modifyNode i f).daemons[i]? = some (f d) := by
  show (s.daemons.modify i f)[i]? = _
  rw [List.getElem?_modify_eq, h]
  rfl

/-- The end of the parent's branch, where the flag of SIGALRM is looked at. -/
def start_timer (i : Nat) (curName : CString) (childPID : Int) : Exec Master Int := do
  if ← Exec.gets Master.sigalrm_flag then
    sf (.stop curName childPID)
    setStatus i .crashed
    clearSigalrm
    return LEGION_ERROR
  else
    return LEGION_SUCCESS

theorem start_timer_ends {s u : Master} {i : Nat} {d : DaemonNode} {curName : CString}
    {childPID answer : Int} (hd : u.daemons[i]? = some d)
    (hstatus : d.daemonStatus = if answer = 0 then .starting else .active)
    (hevents : ∃ name name', u.events =
      s.events ++ if answer = 0 then [] else [.start name, .active name' childPID])
    (hcalls : u.kernel.calls = s.kernel.calls ++ [.read answer u.sigalrm_flag]) :
    Ends (returning (start_timer i curName childPID)) u
      fun r s' => Started s i answer u.sigalrm_flag r s' := by
  obtain ⟨name, name', hevents⟩ := hevents
  have hreturned : ∀ statuses, u.kernel.calls ++ [.returned statuses] =
      s.kernel.calls ++ [.read answer u.sigalrm_flag, .returned statuses] := fun statuses => by
    rw [hcalls, List.append_assoc]
    rfl
  cases hflag : u.sigalrm_flag with
  | true =>
    have hrun : start_timer i curName childPID u = .ok (LEGION_ERROR, { ({ u with
        events := u.events ++ [SfEvent.stop curName childPID] }.modifyNode i fun d =>
          { d with daemonStatus := .crashed }) with sigalrm_flag := false }) := by
      rw [start_timer, gets_bind, if_pos hflag]
      rfl
    refine .run hrun (.of_eq rfl ⟨⟨name, name', curName, childPID, ?_⟩,
      ⟨_, hflag ▸ hreturned _⟩, rfl,
      _, modifyNode_node hd, rfl⟩)
    exact congrArg (· ++ _) hevents
  | false =>
    have hrun : start_timer i curName childPID u = .ok (LEGION_SUCCESS, u) := by
      rw [start_timer, gets_bind, if_neg (by rw [hflag]; decide)]
      rfl
    refine .run hrun (.of_eq rfl ⟨⟨name, name', curName, childPID, ?_⟩,
      ⟨_, hflag ▸ hreturned _⟩, rfl,
      d, hd, hstatus⟩)
    exact hevents.trans (List.append_nil _).symm

/-- From the `read` on. -/
theorem start_sync_ends {s t : Master} {i : Nat} {d : DaemonNode} (curName : CString)
    (childPID : Int) (hd : t.daemons[i]? = some d) (hstatus : d.daemonStatus = .starting)
    (hevents : t.events = s.events) (hcalls : t.kernel.calls = s.kernel.calls) :
    ∃ sigalrm, (sigalrm = true ↔ t.sigalrm_flag = true ∨ Signal.alarm ∈ t.answers.signals) ∧
      Ends (returning (legion_start_sync i curName childPID)) t
        fun r s' => Started s i t.answers.read sigalrm r s' := by
  -- in `b` SIGCHLD is blocked, in `u` the pipe has been read
  obtain ⟨b, hb⟩ : ∃ b : Master, b = { t with kernel := { t.kernel with chldBlocked := true } } :=
    ⟨_, rfl⟩
  have hbt : b.answers = t.answers ∧ b.sigalrm_flag = t.sigalrm_flag ∧ b.events = s.events ∧
      b.daemons[i]? = some d ∧ b.kernel.calls = s.kernel.calls := by
    subst hb
    exact ⟨rfl, rfl, hevents, hd, hcalls⟩
  obtain ⟨hanswers, hflag, hevents, hd, hcalls⟩ := hbt
  refine ⟨b.pass.sigalrm_flag, ?_, ?_⟩
  · refine (deliverAll_alarm_iff _ _).trans ?_
    rw [hanswers]
    exact or_congr_left (by rw [← hflag]; rfl)
  · obtain ⟨u, hu⟩ : ∃ u, u = b.pass.log (.read b.answers.read b.pass.sigalrm_flag) := ⟨_, rfl⟩
    have hread : read b = .ok (b.answers.read, u) := by
      subst hu
      rfl
    have hdu : u.daemons[i]? = some d := by
      subst hu
      show b.pass.daemons[i]? = _
      rw [(quiet_pass b).daemons, hd]
    have heu : u.events = s.events := by
      subst hu
      exact (pass_events b).trans hevents
    have hfu : u.sigalrm_flag = b.pass.sigalrm_flag := by
      subst hu
      rfl
    have hcu : u.kernel.calls = s.kernel.calls ++ [.read t.answers.read u.sigalrm_flag] := by
      rw [hfu, ← hanswers, ← hcalls, ← (quiet_pass b).calls]
      subst hu
      rfl
    -- nothing was read: the daemon is not made active
    by_cases h0 : t.answers.read = 0
    · have hrun : legion_start_sync i curName childPID t = start_timer i curName childPID u := by
        rw [legion_start_sync, blockChld, modify_bind, ← hb, bind_ok hread, hanswers,
          if_neg (not_not_intro h0)]
        rfl
      refine .congr (returning_congr hrun) (hfu ▸ ?_)
      refine start_timer_ends hdu (by rw [hstatus, if_pos h0]) ⟨[], [], ?_⟩ hcu
      rw [heu, if_pos h0, List.append_nil]
    · obtain ⟨w, hw⟩ : ∃ w : Master, w = (({ u with
          events := u.events ++ [SfEvent.start d.name] }.modifyNode i fun d =>
            { d with daemonProcessID := childPID }).modifyNode i fun d =>
            { d with daemonStatus := .active }) := ⟨_, rfl⟩
      obtain ⟨d', hd'⟩ : ∃ d', d' = { d with
          daemonProcessID := childPID, daemonStatus := DaemonStatus.active } := ⟨_, rfl⟩
      have hdw : w.daemons[i]? = some d' := by
        subst hw hd'
        exact modifyNode_node (modifyNode_node hdu)
      have hrun : legion_start_sync i curName childPID t = start_timer i curName childPID
          { w with events := w.events ++ [.active d'.name d'.daemonProcessID] } := by
        rw [legion_start_sync, blockChld, modify_bind, ← hb, bind_ok hread, hanswers, if_pos h0,
          bind_ok (sf_node_run hdu), setProcessID, modify_bind, setStatus, modify_bind, ← hw,
          bind_ok (sf_node_run hdw)]
        rfl
      have hew : w.events = s.events ++ [.start d.name] := by
        subst hw
        exact congrArg (· ++ _) heu
      have hkw : w.kernel.calls = u.kernel.calls ∧ w.sigalrm_flag = u.sigalrm_flag := by
        subst hw
        exact ⟨rfl, rfl⟩
      refine .congr (returning_congr hrun) (hfu ▸ hkw.2 ▸ ?_)
      refine start_timer_ends hdw (by rw [hd', if_neg h0]) ⟨d.name, d'.name, ?_⟩
        (hkw.1.trans (hkw.2 ▸ hcu))
      rw [hew, if_neg h0, List.append_assoc, hd']
      rfl

/-- `n` system calls after `s`; of the signals, only SIGALRM has left a trace. -/
structure Elapsed (s : Master) (n : Nat) (t : Master) : Prop where
  ahead : ∀ k, t.ahead k = s.ahead (n + k)
  flag : t.sigalrm_flag = true ↔
    s.sigalrm_flag = true ∨ ∃ k < n, Signal.alarm ∈ (s.ahead k).signals
  events : t.events = s.events
  calls : t.kernel.calls = s.kernel.calls

theorem Elapsed.pass {s t : Master} {n : Nat} (h : Elapsed s n t) : Elapsed s (n + 1) t.pass where
  ahead := fun k => by rw [pass_ahead, h.ahead, Nat.add_assoc, Nat.add_comm 1 k]
  flag := by
    have hanswers : t.answers = s.ahead n := h.ahead 0
    refine (deliverAll_alarm_iff _ _).trans ?_
    rw [hanswers]
    change t.sigalrm_flag = true ∨ _ ↔ _
    rw [h.flag, or_assoc]
    refine or_congr_right ⟨?_, ?_⟩
    · rintro (⟨k, hk, hm⟩ | hm)
      · exact ⟨k, Nat.lt_succ_of_lt hk, hm⟩
      · exact ⟨n, Nat.lt_succ_self n, hm⟩
    · rintro ⟨k, hk, hm⟩
      rcases Nat.lt_succ_iff_lt_or_eq.mp hk with hk | rfl
      · exact .inl ⟨k, hk, hm⟩
      · exact .inr hm
  events := (pass_events t).trans h.events
  calls := (quiet_pass t).calls.trans h.calls

theorem Elapsed.of_eq {s t u : Master} {n : Nat} (h : Elapsed s n t)
    (hu : (u.kernel.nature, u.kernel.clock, u.sigalrm_flag, u.events, u.kernel.calls) =
      (t.kernel.nature, t.kernel.clock, t.sigalrm_flag, t.events, t.kernel.calls)) :
    Elapsed s n u := by
  simp only [Prod.mk.injEq] at hu
  obtain ⟨hnature, hclock, hflag, hevents, hcalls⟩ := hu
  refine ⟨fun k => ?_, hflag ▸ h.flag, hevents.trans h.events, hcalls.trans h.calls⟩
  rw [← h.ahead, Master.ahead, hnature, hclock]
  rfl

theorem Elapsed.fork {s t : Master} {n : Nat} (h : Elapsed s n t) :
    ∃ u, Legion.fork t = .ok ((s.ahead n).fork, u) ∧ Elapsed s (n + 1) u ∧
      u.daemons = t.daemons := by
  have hrenew : Elapsed s n (t.renew t.answers.fork) := h.of_eq rfl
  have hanswers : (t.renew t.answers.fork).answers = s.ahead n := h.ahead 0
  have hrun : Legion.fork t = .ok ((t.renew t.answers.fork).answers.fork, _) := rfl
  rw [hanswers] at hrun
  exact ⟨_, hrun, hrenew.pass.of_eq rfl, (quiet_pass _).daemons⟩

/-- The parent reaches its `read`. -/
theorem start_node_parent {s : Master} {i : Nat} {d : DaemonNode} (hd : s.daemons[i]? = some d)
    (hpipe : (s.ahead 0).pipe ≠ -1) (hforked : (s.ahead 1).fork ≠ -1)
    (hparent : (s.ahead 1).fork ≠ 0) (curName : CString) (logFileVersion : Char) :
    ∃ t, Elapsed s 2 t ∧ t.daemons[i]? = some { d with daemonStatus := .starting } ∧
      legion_start_node i curName logFileVersion s =
        legion_start_sync i curName (s.ahead 1).fork t := by
  obtain ⟨b, hb⟩ : ∃ b, b = s.modifyNode i fun d => { d with daemonStatus := .starting } :=
    ⟨_, rfl⟩
  have hbn : Elapsed s 0 b := by
    subst hb
    exact ⟨fun k => by rw [Nat.zero_add]; rfl, by simp; rfl, rfl, rfl⟩
  have hbd : b.daemons[i]? = some { d with daemonStatus := .starting } := by
    subst hb
    exact modifyNode_node hd
  have hcall : syscall Answers.pipe b = .ok ((s.ahead 0).pipe, b.pass) := by
    rw [← hbn.ahead 0]
    rfl
  obtain ⟨u, hfork, hu, hud⟩ := hbn.pass.fork
  have hdu : u.daemons[i]? = some { d with daemonStatus := .starting } := by
    rw [hud, (quiet_pass b).daemons, hbd]
  refine ⟨if u.kernel.pathSet then u.openLog (logPath curName logFileVersion) else u, ?_, ?_, ?_⟩
  · split
    · exact hu.of_eq rfl
    · exact hu
  · split
    · exact hdu
    · exact hdu
  · rw [legion_start_node, setStatus, modify_bind, ← hb, bind_ok hcall, if_neg hpipe,
      bind_ok hfork, if_neg hforked, if_neg hparent, legion_start_parent, modify_bind]

theorem start_ends {s : Master} {curName : CString} {i : Nat} {d : DaemonNode}
    (h : Starting s curName i d) (logFileVersion : Char) :
    ∃ sigalrm, (sigalrm = true ↔ s.Alarmed) ∧
      Ends (legion_start (some curName) logFileVersion) s
        fun r s' => Started s i (s.ahead 2).read sigalrm r s' := by
  obtain ⟨t, ht, htd, hrun⟩ :=
    start_node_parent h.node h.pipe h.forked h.parent curName logFileVersion
  have hanswers : t.answers = s.ahead 2 := ht.ahead 0
  obtain ⟨sigalrm, hflag, hends⟩ := start_sync_ends curName (s.ahead 1).fork htd rfl
    ht.events ht.calls
  rw [hanswers] at hflag hends
  refine ⟨sigalrm, hflag.trans ?_, .congr (returning_congr ?_) hends⟩
  · have hall := (Elapsed.pass ht).flag
    rw [Master.Alarmed, ← hall]
    refine ((deliverAll_alarm_iff _ _).trans ?_).symm
    rw [hanswers]
    rfl
  · have hfind : legion_daemon_name_exists (some curName) s = .ok (some i, s) := by
      rw [name_exists_run, h.found]
    refine (bind_ok hfind).trans ((bind_ok (node_run h.node)).trans ?_)
    rw [if_neg (not_not_intro h.inactive)]
    exact hrun

/-! ## The byte and the report -/

/-- The daemon is reported and left active exactly when one byte has been received. -/
def Synchronised (s : Master) (i : Nat) (r : Int) (s' : Master) : Prop :=
  ReportsActive s s' ∧ ReturnsActive i r s' ↔ Received s s'

/-- Either of the two happens exactly then. -/
def SynchronisedEach (s : Master) (i : Nat) (r : Int) (s' : Master) : Prop :=
  (ReportsActive s s' ↔ Received s s') ∧ (ReturnsActive i r s' ↔ Received s s')

/-- A `read` that answers -1 has been interrupted by SIGALRM. -/
theorem Starting.interrupted {s : Master} {curName : CString} {i : Nat} {d : DaemonNode}
    (h : Starting s curName i d) (hread : (s.ahead 2).read = -1) : s.Alarmed := by
  rcases h.read with h1 | h0 | ⟨-, halarm⟩
  · omega
  · omega
  · exact .inr ⟨2, by decide, halarm⟩

theorem start_synchronises_iff {s : Master} {curName : CString} {i : Nat} {d : DaemonNode}
    (h : Starting s curName i d) (logFileVersion : Char) :
    (Ends (legion_start (some curName) logFileVersion) s (Synchronised s i) ↔
      ((s.ahead 2).read = 1 → ¬ s.Alarmed)) ∧
    (Ends (legion_start (some curName) logFileVersion) s (SynchronisedEach s i) ↔
      (s.ahead 2).read ≠ -1 ∧ ((s.ahead 2).read = 1 → ¬ s.Alarmed)) := by
  obtain ⟨sigalrm, hflag, hends⟩ := start_ends h logFileVersion
  have hclear : sigalrm = false ↔ ¬ s.Alarmed := by rw [← hflag, Bool.not_eq_true]
  refine ⟨hends.iff_of fun r s' hs => ?_, hends.iff_of fun r s' hs => ?_⟩
  · rw [Synchronised, hs.reports_iff, hs.returns_iff, hs.received_iff, hclear]
    constructor
    · exact fun hiff h1 => (hiff.mpr h1).2.2
    · refine fun hbyte => ⟨fun ⟨_, hne, hquiet⟩ => ?_, fun h1 => ⟨by omega, by omega, hbyte h1⟩⟩
      rcases h.read with h1 | h0 | ⟨hminus, -⟩
      · exact h1
      · exact absurd h0 hne
      · exact absurd (h.interrupted hminus) hquiet
  · rw [SynchronisedEach, hs.reports_iff, hs.returns_iff, hs.received_iff, hclear]
    constructor
    · exact fun ⟨hreports, hreturns⟩ =>
        ⟨fun hminus => absurd (hreports.mp (by omega)) (by omega), fun h1 => (hreturns.mpr h1).2⟩
    · rintro ⟨hminus, hbyte⟩
      have hbyte' : (s.ahead 2).read ≠ 0 ↔ (s.ahead 2).read = 1 := by
        have := h.read
        unfold Answers.ReadsByte at this
        omega
      exact ⟨hbyte', fun ⟨hne, _⟩ => hbyte'.mp hne, fun h1 => ⟨hbyte'.mpr h1, hbyte h1⟩⟩

/-- Two daemons start. The first ends without a byte, and its timer goes on until the second
start. -/
def timerLeft : Nature where
  moment k :=
    { pipe := 0, fork := if k = 1 then 11 else 12, read := if k = 2 then 0 else 1, kill := 0
      waitpid := 11, dup2 := 3, setpgid := 0, execvpe := -1
      signals := if k = 3 then [.alarm] else [] }
  leftover _ _ := []

def startFirst : Exec Master Unit := do
  let _ ← legion_register "lazy".toList "lazy".toList []
  let _ ← legion_register "yoyo".toList "yoyo".toList []
  let _ ← legion_start (some "lazy".toList) '0'

def firstStarted : Master := after startFirst (.initial timerLeft true fun _ => none)

theorem firstStarted_starting : ∃ d, Starting firstStarted "yoyo".toList 0 d :=
  ⟨firstStarted.daemons.get ⟨0, by decide +kernel⟩,
    { found := by decide +kernel
      node := rfl
      inactive := by decide +kernel
      pipe := by decide +kernel
      forked := by decide +kernel
      parent := by decide +kernel
      read := .inl (by decide +kernel) }⟩

theorem firstStarted_synchronises :
    Ends (legion_start (some "yoyo".toList) '0') firstStarted (Synchronised firstStarted 0) ↔
      ((firstStarted.ahead 2).read = 1 → ¬ firstStarted.Alarmed) := by
  obtain ⟨d, h⟩ := firstStarted_starting
  exact (start_synchronises_iff h '0').1

/-- The second has sent its byte, and it is given up. -/
theorem byte_given_up :
    ¬ ∀ (s : Master) (curName : CString) (i : Nat) (d : DaemonNode) (logFileVersion : Char),
      Starting s curName i d →
        Ends (legion_start (some curName) logFileVersion) s (Synchronised s i) := by
  intro hall
  obtain ⟨d, h⟩ := firstStarted_starting
  obtain ⟨sigalrm, hflag, hends⟩ := start_ends h '0'
  have hread : (firstStarted.ahead 2).read = 1 := by decide +kernel
  have halarm : Signal.alarm ∈ (firstStarted.ahead 0).signals := by
    rw [show (firstStarted.ahead 0).signals = [.alarm] by rfl]
    exact List.mem_singleton_self _
  obtain ⟨r, s', hrun, hsync⟩ := hall _ _ _ _ '0' h
  have hs := hends.apply hrun
  have hreturns := (hsync.mpr (hs.received_iff.mpr hread)).2
  rw [hs.returns_iff, hflag.mpr (.inr ⟨0, by decide, halarm⟩)] at hreturns
  cases hreturns.2

end StarterProjects.Legion
