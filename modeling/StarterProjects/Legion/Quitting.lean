import StarterProjects.Legion.Names
import StarterProjects.Legion.Starting

/-!
# The end of the table

`legion_quit` stops what is active, and then walks over the list and frees it, from the dummy
head on. The dummy is told from a daemon by its name, and `register` accepts that name.

`quit_unregisters_iff`: each daemon gets its `sf_unregister` exactly when none has the name of
the dummy and each of the stops comes to its end.
-/

namespace StarterProjects.Legion

open Lib Lib.Exec

def headName : CString := "daemonNodeHead".toList

/-- The loop that frees the list, on the names of the nodes it comes to. -/
def freeNodes (names : List CString) : Exec Master Unit :=
  Exec.forEach (fun name => if name ≠ headName then sf (.unregister name) else pure ()) names

/-- What `legion_quit` does before `_exit`. -/
def quitting : Exec Master Unit := do
  stopDaemons (← Exec.gets fun s => s.daemons.length)
  let names ← Exec.gets fun s => s.daemons.map DaemonNode.name
  freeNodes (headName :: names)

theorem forEach_map {ι κ : Type} (f : ι → κ) (body : κ → Exec Master Unit) :
    ∀ is : List ι, Exec.forEach body (is.map f) = Exec.forEach (fun i => body (f i)) is
  | [] => rfl
  | i :: is => congrArg (body (f i) >>= fun _ => ·) (forEach_map f body is)

theorem legion_quit_eq : legion_quit = quitting >>= fun _ => Exec.stop .exits := by
  have hfree : ∀ daemons : List DaemonNode,
      freeNodes (headName :: daemons.map DaemonNode.name) = Exec.forEach (fun tempNode =>
        if tempNode.name ≠ "daemonNodeHead".toList then sf (.unregister tempNode.name)
        else pure ()) daemons := fun daemons => by
    funext s
    exact congrFun (forEach_map DaemonNode.name _ daemons) s
  have hrest : ∀ s, (do
      let daemons ← Exec.gets Master.daemons
      Exec.forEach (fun tempNode =>
        if tempNode.name ≠ "daemonNodeHead".toList then sf (.unregister tempNode.name)
        else pure ()) daemons
      Exec.stop .exits : Exec Master Unit) s = (do
      let names ← Exec.gets fun s => s.daemons.map DaemonNode.name
      freeNodes (headName :: names)
      Exec.stop .exits : Exec Master Unit) s := fun s => by
    rw [gets_bind, gets_bind, hfree]
  simp only [legion_quit, quitting, bind_assoc]
  exact congrArg _ (funext fun k => congrArg _ (funext fun _ => funext hrest))

/-! ## The names -/

theorem freeNodes_run (names : List CString) : ∀ s : Master, freeNodes names s =
    .ok ((), { s with events :=
      s.events ++ (names.filter (· ≠ headName)).map SfEvent.unregister }) := by
  induction names with
  | nil =>
    intro s
    rw [List.filter_nil, List.map_nil, List.append_nil]
    rfl
  | cons name names ih =>
    intro s
    by_cases hname : name = headName
    · have hturn : (if name ≠ headName then sf (.unregister name) else pure ()) s =
        .ok ((), s) := by
        rw [if_neg (not_not_intro hname)]
        rfl
      rw [List.filter_cons_of_neg (by simpa using hname)]
      exact (bind_ok hturn).trans (ih s)
    · have hturn : (if name ≠ headName then sf (.unregister name) else pure ()) s =
          .ok ((), { s with events := s.events ++ [.unregister name] }) := by
        rw [if_pos hname]
        rfl
      rw [List.filter_cons_of_pos (by simpa using hname), List.map_cons]
      refine (bind_ok hturn).trans ((ih _).trans ?_)
      rw [List.append_assoc]
      rfl

/-- A name shorter than its array does not depend on what is behind the array. -/
theorem name_eq_iff (d : DaemonNode) {name : CString} (h : name.length < DAEMON_NAME_MAX_LENGTH) :
    d.name = name ↔ d.daemonName.chars.takeWhile (fun c => c ≠ '\x00') = name := by
  unfold DaemonNode.name
  rw [List.append_assoc, List.append_assoc, List.takeWhile_append]
  split
  · rename_i hfull
    refine iff_of_false (fun he => ?_) fun he => ?_
    · have hlength := congrArg List.length he
      rw [List.length_append, d.daemonName.size] at hlength
      omega
    · rw [he, d.daemonName.size] at hfull
      omega
  · exact Iff.rfl

theorem head_iff {s s' : Master}
    (h : s'.daemons.map DaemonNode.daemonName = s.daemons.map DaemonNode.daemonName) :
    (∀ d ∈ s'.daemons, d.name ≠ headName) ↔ ∀ d ∈ s.daemons, d.name ≠ headName := by
  have harray : ∀ t : Master, (∀ d ∈ t.daemons, d.name ≠ headName) ↔
      ∀ a ∈ t.daemons.map DaemonNode.daemonName,
        a.chars.takeWhile (fun c => c ≠ '\x00') ≠ headName := fun t => by
    rw [List.forall_mem_map]
    exact forall₂_congr fun d _ => not_congr (name_eq_iff d (by decide))
  rw [harray, harray, h]

/-! ## What a stop leaves alone -/

/-- The names of the calls of `sf_unregister`. -/
def Master.unregistered (s : Master) : List CString := s.events.filterMap SfEvent.unregistered

structure Registered (s s' : Master) : Prop where
  names : s'.daemons.map DaemonNode.daemonName = s.daemons.map DaemonNode.daemonName
  unregistered : s'.unregistered = s.unregistered

instance : IsPreorder Master Registered where
  refl := fun _ => ⟨rfl, rfl⟩
  trans := fun _ _ _ h h' => ⟨h'.names.trans h.names, h'.unregistered.trans h.unregistered⟩

/-- A change of anything else. -/
theorem Registered.of_eq {s s' : Master} (hd : s'.daemons = s.daemons)
    (he : s'.events = s.events) : Registered s s' :=
  ⟨congrArg (List.map DaemonNode.daemonName) hd, congrArg (List.filterMap SfEvent.unregistered) he⟩

theorem registered_modifyNode (s : Master) (i : Nat) {f : DaemonNode → DaemonNode}
    (h : ∀ d, (f d).daemonName = d.daemonName) : Registered s (s.modifyNode i f) where
  names := by
    show (s.daemons.modify i f).map DaemonNode.daemonName = _
    refine List.ext_getElem? fun j => ?_
    rw [List.getElem?_map, List.getElem?_map, List.getElem?_modify]
    cases s.daemons[j]? with
    | none => rfl
    | some d =>
      by_cases hj : i = j
      · simp [hj, h]
      · simp [hj]
  unregistered := rfl

theorem registered_event (s : Master) (event : SfEvent) (h : event.unregistered = none) :
    Registered s { s with events := s.events ++ [event] } where
  names := rfl
  unregistered := by
    show (s.events ++ [event]).filterMap SfEvent.unregistered = _
    rw [List.filterMap_append, List.filterMap_cons_none h, List.filterMap_nil, List.append_nil]
    rfl

theorem stopSteps_registered : StopSteps Registered where
  pass := fun s => .of_eq (quiet_pass s).daemons (pass_events s)
  wake := fun s => .of_eq (quiet_wake s).daemons (deliverAll_events _ _)
  sigchld := fun _ => .of_eq rfl rfl
  sigalrm := fun _ => .of_eq rfl rfl
  status := fun s i _ => registered_modifyNode s i fun _ => rfl
  pid := fun s i _ => registered_modifyNode s i fun _ => rfl
  log := fun _ _ => .of_eq rfl rfl
  event := registered_event

theorem registered_stopIfActive (i : Nat) : Within Registered (stopIfActive i) :=
  (within_node i).bind fun _ => .ite ((stopSteps_registered.stop _).bind fun _ => .ret) .ret

/-! ## When a stop comes to its end -/

/-- `sprintf` does not write behind `errMsg`. -/
def ErrMsgFits (before : String) (curName : CString) (after : String) : Prop :=
  (before.toList ++ curName ++ after.toList).length < 100

/-- No message about the active daemon `d` is too long, and when it is waited for it
terminates. No process has the number -1, which would be taken for an error. -/
def Stoppable (s : Master) (curName : CString) (d : DaemonNode) : Prop :=
  if (s.ahead 0).kill ≠ 0 then
    ErrMsgFits "Unable to send SIGTERM to daemon " curName "."
  else if s.heard = false ∧ s.deathsAhead = [] then
    ErrMsgFits "Daemon " curName " killed with SIGKILL."
  else if (s.ahead 2).waitpid = -1 then
    ErrMsgFits "WaitPID error with daemon " curName "."
  else
    (d.daemonProcessID ∈ s.kernel.terminated ∨ d.daemonProcessID ∈ s.deathsAhead ∨
        d.daemonProcessID ∈ deaths (s.ahead 2).signals) ∧
      (d.daemonProcessID = -1 → ErrMsgFits "WaitPID error with daemon " curName ".")

theorem errMsg_returns (before : String) (curName : CString) (after : String) {s : Master}
    {k : Unit → Exec Master Int} (hk : ∀ s', s'.daemons = s.daemons → Returns (k ()) s') :
    Returns (sf_error_errMsg before curName after >>= k) s ↔ ErrMsgFits before curName after := by
  by_cases hfits : ErrMsgFits before curName after
  · have hrun : sf_error_errMsg before curName after s = .ok ((), { s with events :=
        s.events ++ [.error (before.toList ++ curName ++ after.toList)] }) := by
      rw [sf_error_errMsg]
      exact congrFun (if_pos hfits) s
    exact iff_of_true (Ends.run hrun (hk _ rfl)) hfits
  · have hrun : sf_error_errMsg before curName after s = .error .undefined := by
      rw [sf_error_errMsg]
      exact congrFun (if_neg hfits) s
    exact iff_of_false (Returns.not_of_error (bind_error hrun)) hfits

theorem sf_node_returns {s : Master} {i : Nat} {d : DaemonNode} (h : s.daemons[i]? = some d)
    (event : DaemonNode → SfEvent) (r : Int) :
    Returns (do sf_node i event; return r) s :=
  Ends.run (sf_node_run h) (.ret trivial)

/-- The state in which the process is waited for. -/
def Master.waiting (s : Master) (pid : Int) : Master :=
  s.log (.waitpid pid (decide (pid ∈ s.kernel.terminated)))

theorem waitpid_error {s : Master} {pid : Int} (h : s.answers.waitpid = -1) :
    waitpid pid s = .ok (-1, (s.waiting pid).pass) := by
  have hrun : syscall Answers.waitpid (s.waiting pid) = .ok (-1, (s.waiting pid).pass) := by
    rw [← h]
    rfl
  rw [waitpid, logCall, modify_bind]
  exact (bind_ok hrun).trans rfl

theorem waitpid_returns {s : Master} {pid : Int} (h : s.answers.waitpid ≠ -1) :
    waitpid pid s = if pid ∈ s.kernel.terminated ∨ pid ∈ deaths s.answers.signals then
      .ok (pid, (s.waiting pid).pass) else .error .diverges := by
  have hrun : syscall Answers.waitpid (s.waiting pid) =
      .ok (s.answers.waitpid, (s.waiting pid).pass) := rfl
  have hterminated : pid ∈ (s.waiting pid).pass.kernel.terminated ↔
      pid ∈ s.kernel.terminated ∨ pid ∈ deaths s.answers.signals :=
    mem_deliverAll_terminated _ _ _
  rw [waitpid, logCall, modify_bind]
  refine (bind_ok hrun).trans ?_
  rw [if_neg h, gets_bind]
  by_cases hp : pid ∈ s.kernel.terminated ∨ pid ∈ deaths s.answers.signals
  · rw [if_pos hp, if_pos (hterminated.mpr hp)]
    rfl
  · rw [if_neg hp, if_neg (mt hterminated.mp hp)]
    rfl

theorem pass_node {s : Master} {i : Nat} {d : DaemonNode} (h : s.daemons[i]? = some d) :
    s.pass.daemons[i]? = some d := by
  rw [(quiet_pass s).daemons, h]

/-- After a wait in which a child has been heard of. -/
theorem woken_waits {w : Master} {i : Nat} {d : DaemonNode} (curName : CString)
    (hd : w.daemons[i]? = some d) (hflag : w.sigchld_flag = true) :
    Returns (legion_stop_woken i curName) w ↔
      if w.answers.waitpid = -1 then ErrMsgFits "WaitPID error with daemon " curName "."
      else (d.daemonProcessID ∈ w.kernel.terminated ∨
          d.daemonProcessID ∈ deaths w.answers.signals) ∧
        (d.daemonProcessID = -1 → ErrMsgFits "WaitPID error with daemon " curName ".") := by
  have hnext : (w.waiting d.daemonProcessID).pass.daemons[i]? = some d := pass_node hd
  have herrMsg : ∀ curPID, Returns (do
      sf_error_errMsg "WaitPID error with daemon " curName "."
      setProcessID i 0
      setStatus i .crashed
      sf_node i fun curNode => .crash curNode.name curPID 0
      return LEGION_ERROR) (w.waiting d.daemonProcessID).pass ↔
      ErrMsgFits "WaitPID error with daemon " curName "." := fun curPID => by
    refine errMsg_returns _ _ _ fun s' hs' => .run rfl (.run rfl ?_)
    exact sf_node_returns (modifyNode_node (modifyNode_node (hs' ▸ hnext))) _ _
  rw [legion_stop_woken, Returns.congr (gets_bind _ _ w), if_pos hflag,
    Returns.congr (bind_ok (node_run hd))]
  by_cases herror : w.answers.waitpid = -1
  · rw [if_pos herror, Returns.congr (bind_ok (waitpid_error herror)), if_pos rfl]
    exact herrMsg _
  · rw [if_neg herror]
    by_cases hp : d.daemonProcessID ∈ w.kernel.terminated ∨
        d.daemonProcessID ∈ deaths w.answers.signals
    · rw [Returns.congr (bind_ok ((waitpid_returns herror).trans (if_pos hp))), and_iff_right hp]
      by_cases hpid : d.daemonProcessID = -1
      · rw [if_pos hpid, forall_prop_of_true hpid]
        exact herrMsg _
      · rw [if_neg hpid]
        refine iff_of_true (.run rfl (.run rfl ?_)) fun h => absurd h hpid
        refine sf_node_returns (?_ : _ = some { d with daemonStatus := .exited }) _ _
        exact modifyNode_node hnext
    · have hrun := (waitpid_returns herror).trans (if_neg hp)
      exact iff_of_false (Returns.not_of_error (bind_error hrun)) fun h => hp h.1

/-- After a wait that the timer has ended. -/
theorem woken_kills_returns {w : Master} {i : Nat} {d : DaemonNode} (curName : CString)
    (hd : w.daemons[i]? = some d) (hflag : w.sigchld_flag = false)
    (halarm : w.sigalrm_flag = true) :
    Returns (legion_stop_woken i curName) w ↔
      ErrMsgFits "Daemon " curName " killed with SIGKILL." := by
  rw [legion_stop_woken, Returns.congr (gets_bind _ _ w), if_neg (by rw [hflag]; decide),
    Returns.congr (gets_bind _ _ w), if_pos halarm, Returns.congr (bind_ok (node_run hd))]
  refine (Returns.congr (bind_ok rfl)).trans ((Returns.congr (bind_ok rfl)).trans ?_)
  exact errMsg_returns _ _ _ fun s' _ => .run rfl (.ret trivial)

/-! ## The turns -/

theorem waited_answers (s : Master) (i : Nat) (d : DaemonNode) :
    ((s.stopping i d).signalled d).waited.answers = s.ahead 2 := by
  have hclock : ((s.stopping i d).signalled d).wake.kernel.clock =
      ((s.stopping i d).signalled d).kernel.clock + 1 := deliverAll_clock _ _
  have hsignalled : ((s.stopping i d).signalled d).kernel.clock = s.kernel.clock + 1 :=
    pass_clock _
  have hnature : ((s.stopping i d).signalled d).wake.kernel.nature = s.kernel.nature :=
    (quiet_wake _).nature.trans (quiet_pass _).nature
  show ((s.stopping i d).signalled d).wake.kernel.nature.moment
    ((s.stopping i d).signalled d).wake.kernel.clock = _
  rw [hnature, hclock, hsignalled]
  rfl

theorem stop_active_returns {s : Master} {curName : CString} {i : Nat} {d : DaemonNode}
    (hd : s.daemons[i]? = some d) :
    Returns (legion_stop_active i curName) s ↔ Stoppable s curName d := by
  rw [legion_stop_active, Stoppable]
  show _ ↔ if s.answers.kill ≠ 0 then _ else _
  by_cases hsent : s.answers.kill ≠ 0
  · have hrun := (stop_wait_run hd).trans (if_pos hsent)
    rw [if_pos hsent, Returns.congr (bind_ok hrun)]
    exact errMsg_returns _ _ _ fun s' _ => .ret trivial
  · have hrun := (stop_wait_run hd).trans (if_neg hsent)
    rw [if_neg hsent, Returns.congr (bind_ok hrun), if_pos rfl]
    by_cases hheard : s.heard = false ∧ s.deathsAhead = []
    · have hflag := (waited_flag_false s i d).mpr hheard
      rw [if_pos hheard]
      exact woken_kills_returns curName (waited_node hd) hflag (wake_alarm _ hflag)
    · have hflag := eq_true_of_ne_false (mt (waited_flag_false s i d).mp hheard)
      rw [if_neg hheard, woken_waits curName (waited_node hd) hflag, waited_answers,
        mem_waited_iff, or_assoc]

/-- The turn for the daemon at `i` comes to its end: the first daemon of that name is the one
that is stopped. -/
def TurnEnds (s : Master) (i : Nat) : Prop :=
  ∀ d, s.daemons[i]? = some d → d.daemonStatus = .active →
    ∀ j e, Stopping s d.name j e → Stoppable s d.name e

/-- All the turns do, each from the state that the ones before it leave. -/
def TurnsEnd : List Nat → Master → Prop
  | [], _ => True
  | i :: is, s => TurnEnds s i ∧ TurnsEnd is (after (stopIfActive i) s)

theorem returning_returns {m : Exec Master Int} {s : Master} :
    Returns (returning m) s ↔ Returns m s :=
  Returns.bind_iff fun _ _ _ => .run rfl (.ret trivial)

/-- The daemon that is found when one of its name is there. -/
theorem found_of_mem {s : Master} {d : DaemonNode} (hd : d ∈ s.daemons) :
    ∃ j e, s.daemons.findIdx? (fun e => e.name = d.name) = some j ∧ s.daemons[j]? = some e := by
  cases hfind : s.daemons.findIdx? (fun e => e.name = d.name) with
  | none =>
    rw [List.findIdx?_eq_none_iff] at hfind
    simpa using hfind d hd
  | some j =>
    obtain ⟨hj, -⟩ := List.findIdx?_eq_some_iff_getElem.mp hfind
    exact ⟨j, s.daemons[j], rfl, List.getElem?_eq_getElem hj⟩

theorem stop_returns {s : Master} {d : DaemonNode} (hd : d ∈ s.daemons) :
    Returns (legion_stop (some d.name)) s ↔
      ∀ j e, Stopping s d.name j e → Stoppable s d.name e := by
  obtain ⟨j, e, hfound, he⟩ := found_of_mem hd
  have hunique : ∀ j' e', Stopping s d.name j' e' → e' = e := fun j' e' h => by
    have hj : j = j' := Option.some.inj (hfound.symm.trans h.found)
    exact Option.some.inj (h.node.symm.trans (hj ▸ he))
  by_cases hactive : e.daemonStatus = .active
  · have hs : Stopping s d.name j e := ⟨hfound, he, hactive⟩
    rw [Returns.congr hs.stop_eq, returning_returns, stop_active_returns he]
    exact ⟨fun h j' e' hs' => hunique j' e' hs' ▸ h, fun h => h j e hs⟩
  · refine iff_of_true (returning_returns.mpr ?_) fun j' e' hs' => ?_
    · rw [Returns.congr (bind_ok (name_exists_run _ _)), hfound,
        Returns.congr (bind_ok (node_run he))]
      by_cases hended : e.daemonStatus = .exited ∨ e.daemonStatus = .crashed
      · rw [if_pos hended]
        exact .run rfl (sf_node_returns (modifyNode_node he) _ _)
      · rw [if_neg hended, if_pos hactive]
        exact .run rfl (.ret trivial)
    · exact absurd (hunique j' e' hs' ▸ hs'.active) hactive

theorem stopIfActive_returns {s : Master} {i : Nat} (hi : i < s.daemons.length) :
    Returns (stopIfActive i) s ↔ TurnEnds s i := by
  have hd : s.daemons[i]? = some s.daemons[i] := List.getElem?_eq_getElem hi
  rw [stopIfActive, Returns.congr (bind_ok (node_run hd))]
  by_cases hactive : s.daemons[i].daemonStatus = .active
  · rw [if_pos hactive, Returns.bind_iff fun _ _ _ => .ret trivial,
      stop_returns (List.getElem_mem hi)]
    constructor
    · intro h d hd' _
      obtain rfl : s.daemons[i] = d := Option.some.inj (hd.symm.trans hd')
      exact h
    · exact fun h => h _ hd hactive
  · rw [if_neg hactive]
    refine iff_of_true (.ret trivial) fun d hd' hactive' => ?_
    obtain rfl : s.daemons[i] = d := Option.some.inj (hd.symm.trans hd')
    exact absurd hactive' hactive

theorem Registered.length {s s' : Master} (h : Registered s s') :
    s'.daemons.length = s.daemons.length := by
  have hlength := congrArg List.length h.names
  rwa [List.length_map, List.length_map] at hlength

theorem stopTurns_returns : ∀ (is : List Nat) (s : Master), (∀ i ∈ is, i < s.daemons.length) →
    (Returns (Exec.forEach stopIfActive is) s ↔ TurnsEnd is s)
  | [], _, _ => iff_of_true (.ret trivial) trivial
  | i :: is, s, h => by
    rw [Exec.forEach, TurnsEnd, Returns.seq_iff, stopIfActive_returns (h i List.mem_cons_self)]
    refine and_congr_right fun hturn => stopTurns_returns is _ fun j hj => ?_
    obtain ⟨_, s', hrun, -⟩ := (stopIfActive_returns (h i List.mem_cons_self)).mpr hturn
    have hafter : after (stopIfActive i) s = s' := by rw [after, hrun]
    rw [hafter, (registered_stopIfActive i s _ s' hrun).length]
    exact h j (List.mem_cons_of_mem _ hj)

/-! ## Which daemons are unregistered -/

/-- As `legion_quit` comes to `_exit` it has made one call of `sf_unregister` for each of the
daemons registered, and no other. -/
def UnregistersEach (s : Master) : Prop :=
  Ends quitting s fun _ s' =>
    s'.unregistered = s.unregistered ++ s'.daemons.map DaemonNode.name ∧
      s'.daemons.map DaemonNode.daemonName = s.daemons.map DaemonNode.daemonName

theorem unregistered_append (t : Master) (names : List CString) :
    Master.unregistered { t with events := t.events ++ names.map SfEvent.unregister } =
      t.unregistered ++ names := by
  have hnames : (names.map SfEvent.unregister).filterMap SfEvent.unregistered = names := by
    rw [List.filterMap_map]
    exact List.filterMap_some
  show (t.events ++ names.map SfEvent.unregister).filterMap SfEvent.unregistered = _
  rw [List.filterMap_append, hnames]
  rfl

/-- The state in which the first turn starts. -/
def Master.halted (s : Master) : Master := { s with running := false }

/-- The loop that stops the daemons. -/
theorem stopDaemons_returns (s : Master) :
    Returns (stopDaemons s.daemons.length) s ↔ TurnsEnd (List.range s.daemons.length) s.halted :=
  stopTurns_returns _ s.halted fun _ hi => List.mem_range.mp hi

theorem registered_stopDaemons (k : Nat) : Within Registered (stopDaemons k) :=
  .bind (.modify fun _ => .of_eq rfl rfl) fun _ => .forEach registered_stopIfActive _

/-- The loop that frees the list. -/
theorem freed {s t : Master} (h : Registered s t) :
    Ends (freeNodes (headName :: t.daemons.map DaemonNode.name)) t (fun _ s' =>
      s'.unregistered = s.unregistered ++ s'.daemons.map DaemonNode.name ∧
        s'.daemons.map DaemonNode.daemonName = s.daemons.map DaemonNode.daemonName) ↔
      ∀ d ∈ s.daemons, d.name ≠ headName := by
  have hrun := freeNodes_run (headName :: t.daemons.map DaemonNode.name) t
  rw [List.filter_cons_of_neg (by simp)] at hrun
  refine (Ends.of_eq (Q := fun _ s' => s' = _) hrun rfl).iff_of fun _ s' hs' => ?_
  rw [hs', unregistered_append, h.unregistered, and_iff_left h.names, List.append_cancel_left_eq,
    List.filter_eq_self, List.forall_mem_map, ← head_iff h.names]
  simp

theorem quit_unregisters_iff (s : Master) :
    UnregistersEach s ↔
      (∀ d ∈ s.daemons, d.name ≠ headName) ∧ TurnsEnd (List.range s.daemons.length) s.halted := by
  rw [← stopDaemons_returns, UnregistersEach, quitting]
  constructor
  · intro h
    obtain ⟨_, s', hrun, hend⟩ := h
    rw [gets_bind] at hrun
    obtain ⟨_, t, hstops, hfree⟩ := bind_eq_ok hrun
    rw [gets_bind] at hfree
    exact ⟨(freed (registered_stopDaemons _ s _ t hstops)).mp (.of_eq hfree hend), .of_eq hstops⟩
  · rintro ⟨hnames, _, t, hstops, -⟩
    refine .congr (gets_bind _ _ s) (.run hstops (.congr (gets_bind _ _ t) ?_))
    exact (freed (registered_stopDaemons _ s _ t hstops)).mpr hnames

/-- A daemon registered under the name of the dummy. -/
def dummyRegistered : Master :=
  after (turn "register daemonNodeHead lazy\n".toList) (.initial idle true fun _ => none)

theorem dummy_not_unregistered : ¬ ∀ s : Master, UnregistersEach s := by
  intro h
  obtain ⟨_, s', hrun, hevents, -⟩ := h dummyRegistered
  have hnone : Ends quitting dummyRegistered fun _ s' =>
      s'.unregistered = [] ∧ s'.daemons.length = 1 := by decide +kernel
  obtain ⟨hempty, hone⟩ := hnone.apply hrun
  rw [hempty] at hevents
  have hlength := congrArg List.length hevents
  rw [List.length_append, List.length_map, hone] at hlength
  cases hlength

end StarterProjects.Legion
