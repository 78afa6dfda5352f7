import StarterProjects.Legion.Lines

/-!
# No daemon is left on the way

`starting` and `stopping` are statuses that `legion_start` and `legion_stop` pass through. Both
refuse a daemon that has one of them, so one that is left with it stays there.

`settled_iff`: at every return of `legion_start`, `legion_stop` and `legion_logrotate` in the
master all daemons are settled exactly when, up to then,

* SIGTERM has always been sent,
* no `sigsuspend` has ended with the timer, without a SIGCHLD,
* no `read` has found the pipe at its end before the timer.
-/

namespace StarterProjects.Legion

open Lib Lib.Exec

def DaemonStatus.IsSettled : DaemonStatus → Prop
  | .inactive | .active | .exited | .crashed => True
  | .unknown | .starting | .stopping => False

instance : DecidablePred DaemonStatus.IsSettled := fun status => by
  cases status <;> (unfold DaemonStatus.IsSettled; infer_instance)

/-- At the return of one of the three functions. -/
def Call.FindsSettled : Call → Prop
  | .returned statuses => ∀ status ∈ statuses, status.IsSettled
  | _ => True

/-- The outcomes after which a final status is set. -/
def Call.Favourable : Call → Prop
  | .kill _ .sigterm answer => answer = 0
  | .sigsuspend sigchld sigalrm => sigchld = true ∨ sigalrm = false
  | .read answer sigalrm => answer ≠ 0 ∨ sigalrm = true
  | _ => True

/-! ## Assertions about the record and the table -/

/-- All is well so far, but for the node `i`, which is there. -/
structure Moving (i : Nat) (s : Master) : Prop where
  favourable : ∀ call ∈ s.kernel.calls, call.Favourable
  settled : ∀ call ∈ s.kernel.calls, call.FindsSettled
  others : ∀ j d, s.daemons[j]? = some d → j ≠ i → d.daemonStatus.IsSettled
  there : i < s.daemons.length

structure Sound (s : Master) : Prop where
  favourable : ∀ call ∈ s.kernel.calls, call.Favourable
  settled : ∀ call ∈ s.kernel.calls, call.FindsSettled
  daemons : ∀ d ∈ s.daemons, d.daemonStatus.IsSettled

/-- A daemon is on the way and nothing will move it. -/
structure Doomed (s : Master) : Prop where
  unfavourable : ∃ call ∈ s.kernel.calls, ¬ call.Favourable
  stranded : ∃ d ∈ s.daemons, ¬ d.daemonStatus.IsSettled

/-- It has been seen so, or this is a child. -/
def Over (s : Master) : Prop :=
  s.kernel.isChild = true ∨
    (∃ call ∈ s.kernel.calls, ¬ call.Favourable) ∧ ∃ call ∈ s.kernel.calls, ¬ call.FindsSettled

/-- The record grows, and a child stays a child. -/
def Onward (s s' : Master) : Prop :=
  (∀ call ∈ s.kernel.calls, call ∈ s'.kernel.calls) ∧
    (s.kernel.isChild = true → s'.kernel.isChild = true)

instance : IsPreorder Master Onward where
  refl := fun _ => ⟨fun _ h => h, fun h => h⟩
  trans := fun _ _ _ h h' => ⟨fun call hc => h'.1 call (h.1 call hc), fun hc => h'.2 (h.2 hc)⟩

theorem starts_onward : Starts Onward where
  quiet := fun _ _ h => ⟨fun _ hc => h.calls ▸ hc, fun hc => h.isChild.trans hc⟩
  node := fun _ _ _ => ⟨fun _ h => h, fun h => h⟩
  log := fun _ _ => ⟨fun _ hc => List.mem_append_left _ hc, fun h => h⟩
  child := fun s b => ⟨fun _ h => h, fun h => by
    show (s.kernel.isChild || b) = true
    rw [h, Bool.true_or]⟩
  openLog := fun _ _ => ⟨fun _ h => h, fun h => h⟩

theorem Over.onward {s s' : Master} (h : Over s) (hs : Onward s s') : Over s' := by
  rcases h with h | ⟨⟨c, hc, hbad⟩, ⟨c', hc', hbad'⟩⟩
  · exact .inl (hs.2 h)
  · exact .inr ⟨⟨c, hs.1 c hc, hbad⟩, ⟨c', hs.1 c' hc', hbad'⟩⟩

section Rules

variable {α : Type} {m : Exec Master α} {i : Nat}

theorem keeps_over (h : Within Onward m) : Triple Over m fun _ => Over :=
  h.triple fun _ _ hs ho => ho.onward hs

theorem Sound.quiet {s s' : Master} (h : Sound s) (hq : Quiet s s') : Sound s' where
  favourable := fun c hc => h.favourable c (hq.calls ▸ hc)
  settled := fun c hc => h.settled c (hq.calls ▸ hc)
  daemons := fun d hd => h.daemons d (hq.daemons ▸ hd)

theorem Moving.quiet {s s' : Master} (h : Moving i s) (hq : Quiet s s') : Moving i s' where
  favourable := fun c hc => h.favourable c (hq.calls ▸ hc)
  settled := fun c hc => h.settled c (hq.calls ▸ hc)
  others := fun j d hd => h.others j d (hq.daemons ▸ hd)
  there := by rw [hq.daemons]; exact h.there

theorem Doomed.quiet {s s' : Master} (h : Doomed s) (hq : Quiet s s') : Doomed s' where
  unfavourable := by rw [hq.calls]; exact h.unfavourable
  stranded := by rw [hq.daemons]; exact h.stranded

theorem keeps_sound (h : Within Quiet m) : Triple Sound m fun _ => Sound :=
  h.triple fun _ _ hq hs => hs.quiet hq

theorem keeps_moving (h : Within Quiet m) : Triple (Moving i) m fun _ => Moving i :=
  h.triple fun _ _ hq hs => hs.quiet hq

theorem keeps_doomed (h : Within Quiet m) : Triple Doomed m fun _ => Doomed :=
  h.triple fun _ _ hq hs => hs.quiet hq

theorem Sound.moving {s : Master} (h : Sound s) (hi : i < s.daemons.length) : Moving i s where
  favourable := h.favourable
  settled := h.settled
  others := fun _ d hd _ => h.daemons d (List.mem_of_getElem? hd)
  there := hi

/-- Something of the node `i` changes. -/
theorem Moving.node {s : Master} (h : Moving i s) (f : DaemonNode → DaemonNode) :
    Moving i (s.modifyNode i f) where
  favourable := h.favourable
  settled := h.settled
  others := fun j d hd hj => by
    refine h.others j d ?_ hj
    rw [← hd]
    exact (List.getElem?_modify_ne _ _ (Ne.symm hj)).symm
  there := by
    show i < (s.daemons.modify i f).length
    rw [List.length_modify]
    exact h.there

theorem Moving.log {s : Master} (h : Moving i s) {call : Call} (hf : call.Favourable)
    (hs : call.FindsSettled) : Moving i (s.log call) where
  favourable := fun c hc => by
    rcases List.mem_append.mp hc with hc | hc
    · exact h.favourable c hc
    · rw [List.mem_singleton.mp hc]
      exact hf
  settled := fun c hc => by
    rcases List.mem_append.mp hc with hc | hc
    · exact h.settled c hc
    · rw [List.mem_singleton.mp hc]
      exact hs
  others := h.others
  there := h.there

/-- The node gets its final status. -/
theorem Moving.sound {s : Master} (h : Moving i s) {status : DaemonStatus}
    (hs : status.IsSettled) :
    Sound (s.modifyNode i fun d => { d with daemonStatus := status }) where
  favourable := h.favourable
  settled := h.settled
  daemons := fun d hd => by
    obtain ⟨j, hj⟩ := List.mem_iff_getElem?.mp hd
    by_cases hji : j = i
    · subst hji
      change (s.daemons.modify j _)[j]? = some d at hj
      rw [List.getElem?_modify_eq] at hj
      obtain ⟨d', -, rfl⟩ := Option.map_eq_some_iff.mp hj
      exact hs
    · exact (h.node _).others j d hj hji

/-- The node `i` is there, with this status. -/
def HasStatus (i : Nat) (status : DaemonStatus) (s : Master) : Prop :=
  ∃ d, s.daemons[i]? = some d ∧ d.daemonStatus = status

theorem HasStatus.quiet {status : DaemonStatus} {s s' : Master} (h : HasStatus i status s)
    (hq : Quiet s s') : HasStatus i status s' := by
  rw [HasStatus, hq.daemons]
  exact h

theorem HasStatus.set {s : Master} (hi : i < s.daemons.length) (status : DaemonStatus) :
    HasStatus i status (s.modifyNode i fun d => { d with daemonStatus := status }) := by
  refine ⟨{ s.daemons.get ⟨i, hi⟩ with daemonStatus := status }, ?_, rfl⟩
  show (s.daemons.modify i _)[i]? = _
  rw [List.getElem?_modify_eq, List.getElem?_eq_getElem hi]
  rfl

theorem HasStatus.doomed {status : DaemonStatus} {s : Master} (h : HasStatus i status s)
    (hs : ¬ status.IsSettled) (hbad : ∃ call ∈ s.kernel.calls, ¬ call.Favourable) : Doomed s := by
  obtain ⟨d, hd, rfl⟩ := h
  exact ⟨hbad, d, List.mem_of_getElem? hd, hs⟩

theorem setProcessID_moving (pid : Int) :
    Triple (Moving i) (setProcessID i pid) fun _ => Moving i :=
  .modify fun _ hs => hs.node _

theorem setStatus_sound (status : DaemonStatus) (h : status.IsSettled) :
    Triple (Moving i) (setStatus i status) fun _ => Sound :=
  .modify fun _ hs => hs.sound h

end Rules

/-- What holds when a function is about to return. -/
def Closing (s : Master) : Prop := Over s ∨ Sound s ∨ Doomed s

/-- What holds in between. -/
def Watched (s : Master) : Prop := Over s ∨ Sound s

theorem Sound.returned {s : Master} (h : Sound s) :
    Sound (s.log (.returned (s.daemons.map DaemonNode.daemonStatus))) where
  favourable := fun c hc => by
    rcases List.mem_append.mp hc with hc | hc
    · exact h.favourable c hc
    · rw [List.mem_singleton.mp hc]
      trivial
  settled := fun c hc => by
    rcases List.mem_append.mp hc with hc | hc
    · exact h.settled c hc
    · rw [List.mem_singleton.mp hc]
      intro status hstatus
      obtain ⟨d, hd, rfl⟩ := List.mem_map.mp hstatus
      exact h.daemons d hd
  daemons := h.daemons

/-- A stranded daemon is seen. -/
theorem Closing.returned {s : Master} (h : Closing s) :
    Watched (s.log (.returned (s.daemons.map DaemonNode.daemonStatus))) := by
  rcases h with h | h | h
  · exact .inl (h.onward (starts_onward.log s _))
  · exact .inr h.returned
  · obtain ⟨⟨c, hc, hbad⟩, ⟨d, hd, hunsettled⟩⟩ := h
    refine .inl (.inr ⟨⟨c, List.mem_append_left _ hc, hbad⟩,
      ⟨_, List.mem_append_right _ (List.mem_singleton_self _), fun hall => hunsettled ?_⟩⟩)
    exact hall _ (List.mem_map_of_mem hd)

theorem returning_watched {m : Exec Master Int} (honward : Within Onward (returning m))
    (hsound : Triple Sound m fun _ => Closing) : Triple Watched (returning m) fun _ => Watched := by
  intro s r s' hs h
  rcases hs with hs | hs
  · exact .inl (hs.onward (honward s r s' h))
  · obtain ⟨r₁, s₁, h₁, hlog⟩ := bind_eq_ok h
    cases hlog
    exact (hsound s _ s₁ hs h₁).returned

/-! ## `legion_start` -/

section Start

variable {i : Nat}

theorem Sound.closing {s : Master} (h : Sound s) : Closing s := .inr (.inl h)

/-- After `read`: the node will be settled, or the timer has to do it. -/
def AfterRead (i : Nat) (answer : Int) (s : Master) : Prop :=
  (answer ≠ 0 → Moving i s) ∧
    (answer = 0 → s.sigalrm_flag = true → Moving i s) ∧
    (answer = 0 → s.sigalrm_flag = false →
      ∃ call ∈ s.kernel.calls, ¬ call.Favourable) ∧
    HasStatus i .starting s

theorem read_after : Triple (fun s => Moving i s ∧ HasStatus i .starting s) read (AfterRead i) := by
  rintro s answer s' ⟨hs, hd⟩ h
  cases h
  have hquiet := quiet_pass s
  have hmoving := hs.quiet hquiet
  have hstarting := hd.quiet hquiet
  refine ⟨fun hne => hmoving.log (.inl hne) trivial, fun _ halarm => ?_, fun he halarm => ?_,
    hstarting⟩
  · exact hmoving.log (.inr halarm) trivial
  · refine ⟨_, List.mem_append_right _ (List.mem_singleton_self _), ?_⟩
    rintro (hne | ha)
    · exact hne he
    · exact absurd (ha.symm.trans halarm) (by decide)

theorem start_sync_closing (curName : CString) (childPID : Int) :
    Triple (fun s => Moving i s ∧ HasStatus i .starting s) (legion_start_sync i curName childPID)
      fun _ => Closing := by
  have htimeout : Triple (Moving i) (do
      sf (.stop curName childPID)
      setStatus i .crashed
      clearSigalrm
      return LEGION_ERROR) fun _ => Closing :=
    (keeps_moving (quiet_sf _)).bind fun _ => (setStatus_sound .crashed trivial).bind fun _ =>
      (keeps_sound quiet_clearSigalrm).bind fun _ => .ret fun _ h => h.closing
  refine Triple.bind (Q := fun _ s => Moving i s ∧ HasStatus i .starting s) (quiet_blockChld.triple
    fun s s' hq hs => ⟨hs.1.quiet hq, hs.2.quiet hq⟩) fun _ => ?_
  refine read_after.bind fun answer => .ite (fun hne => ?_) fun he => ?_
  · -- the byte has come
    refine Triple.pre (P := Moving i) ?_ fun s hs => hs.1 hne
    refine (keeps_moving (quiet_sf_node i _)).bind fun _ => ?_
    refine (setProcessID_moving childPID).bind fun _ => ?_
    refine Triple.bind (Q := fun _ s => Sound s ∧ Moving i s) (.modify fun s hs =>
      ⟨hs.sound trivial, hs.node _⟩) fun _ => ?_
    refine Triple.bind (Q := fun _ s => Sound s ∧ Moving i s) ((quiet_sf_node i _).triple
      fun s s' hq hs => ⟨hs.1.quiet hq, hs.2.quiet hq⟩) fun _ => ?_
    refine Triple.bind (Q := fun _ s => Sound s ∧ Moving i s) (.gets fun _ hs => hs) fun flag => ?_
    exact .ite (fun _ => htimeout.pre fun _ hs => hs.2) fun _ => .ret fun _ hs => hs.1.closing
  · have he : answer = 0 := Decidable.of_not_not he
    refine Triple.bind (Q := fun flag s => AfterRead i answer s ∧ s.sigalrm_flag = flag)
      (.gets fun _ hs => ⟨hs, rfl⟩) fun flag => .ite (fun hflag => ?_) fun hflag => ?_
    · exact htimeout.pre fun s hs => hs.1.2.1 he (hs.2.trans hflag)
    · exact .ret fun s hs => .inr (.inr (hs.1.2.2.2.doomed id
        (hs.1.2.2.1 he (hs.2.trans (by simpa using hflag)))))

/-- The statuses of the two processes after a fork. -/
theorem fork_moving : Triple (fun s => Moving i s ∧ HasStatus i .starting s) fork fun pid s =>
    (pid = 0 → s.kernel.isChild = true) ∧ Moving i s ∧ HasStatus i .starting s := by
  rintro s pid s' ⟨hs, hd⟩ h
  obtain ⟨t, hquiet, -, -, rfl⟩ := fork_inv h
  have hmoving := hs.quiet hquiet
  have hstarting := hd.quiet hquiet
  refine ⟨fun he => ?_, ⟨hmoving.favourable, hmoving.settled, hmoving.others, hmoving.there⟩,
    hstarting⟩
  show (t.kernel.isChild || _) = true
  rw [decide_eq_true he, Bool.or_true]

theorem start_node_closing (curName : CString) (logFileVersion : Char) :
    Triple (fun s => Sound s ∧ i < s.daemons.length) (legion_start_node i curName logFileVersion)
      fun _ => Closing := by
  have herror : ∀ reason, Triple (Moving i) (do
      setStatus i .inactive; sf_error reason; return LEGION_ERROR) fun _ => Closing :=
    fun reason => (setStatus_sound .inactive trivial).bind fun _ =>
      (keeps_sound (quiet_sf_error reason)).bind fun _ => .ret fun _ h => h.closing
  refine Triple.bind (Q := fun _ s => Moving i s ∧ HasStatus i .starting s) (.modify fun s hs =>
    ⟨(hs.1.moving hs.2).node _, HasStatus.set hs.2 _⟩) fun _ => ?_
  refine Triple.bind (Q := fun _ s => Moving i s ∧ HasStatus i .starting s)
    ((quiet_syscall _).triple
    fun s s' hq hs => ⟨hs.1.quiet hq, hs.2.quiet hq⟩) fun pipe => ?_
  refine .ite (fun _ => (herror _).pre fun _ hs => hs.1) fun _ => ?_
  refine fork_moving.bind fun childPID => .ite (fun _ => (herror _).pre fun _ hs => hs.2.1)
    fun _ => .ite (fun he => ?_) fun _ => ?_
  · -- what the child returns is not seen by the master
    refine (keeps_over (starts_onward.start_child curName logFileVersion)).conseq
      (fun s hs => .inl (hs.1 he)) fun _ _ => .inl
  · refine Triple.bind (Q := fun _ s => Moving i s ∧ HasStatus i .starting s)
      (.modify fun s hs => ?_)
      fun _ => start_sync_closing curName childPID
    split
    · exact ⟨⟨hs.2.1.favourable, hs.2.1.settled, hs.2.1.others, hs.2.1.there⟩, hs.2.2⟩
    · exact hs.2

theorem start_watched (curName : Option CString) (logFileVersion : Char) :
    Triple Watched (legion_start curName logFileVersion) fun _ => Watched := by
  have herror : Triple Sound (do sf_error "command execution"; return LEGION_ERROR)
      fun _ => Closing :=
    (keeps_sound (quiet_sf_error _)).bind fun _ => .ret fun _ h => h.closing
  refine returning_watched (starts_onward.start curName logFileVersion)
    ((keeps_sound (quiet_name_exists curName)).bind fun i? => ?_)
  cases i? with
  | none => exact herror
  | some i =>
    refine Triple.bind (Q := fun _ s => Sound s ∧ i < s.daemons.length) ?_ fun d =>
      .ite (fun _ => herror.pre fun _ hs => hs.1) fun _ => start_node_closing _ _
    intro s d s' hs h
    obtain ⟨hd, rfl⟩ := node_inv h
    exact ⟨hs, (List.getElem?_eq_some_iff.mp hd).1⟩

end Start

/-! ## `legion_stop` -/

section Stop

variable {i : Nat}

theorem kill_after (pid : Int) :
    Triple (fun s => Moving i s ∧ HasStatus i .stopping s) (kill pid .sigterm) fun answer s =>
      (answer = 0 → Moving i s ∧ HasStatus i .stopping s) ∧ (answer ≠ 0 → Doomed s) := by
  rintro s answer s' ⟨hs, hd⟩ h
  cases h
  have hmoving := hs.quiet (quiet_pass s)
  have hstopping := hd.quiet (quiet_pass s)
  refine ⟨fun he => ⟨hmoving.log he trivial, hstopping⟩, fun hne => ?_⟩
  have hlast : Call.kill pid .sigterm s.answers.kill ∈
      (s.pass.log (.kill pid .sigterm s.answers.kill)).kernel.calls :=
    List.mem_append_right _ (List.mem_singleton_self _)
  exact HasStatus.doomed (s := s.pass.log (.kill pid .sigterm s.answers.kill)) hstopping id
    ⟨_, hlast, hne⟩

/-- After the wait: the node will be settled, or the timer has ended the wait. -/
def AfterWait (i : Nat) (s : Master) : Prop :=
  (s.sigchld_flag = true ∨ s.sigalrm_flag = false → Moving i s) ∧
    (s.sigchld_flag = false → s.sigalrm_flag = true → Doomed s)

theorem sigsuspend_after :
    Triple (fun s => Moving i s ∧ HasStatus i .stopping s) sigsuspend fun _ => AfterWait i := by
  rintro s _ s' ⟨hs, hd⟩ h
  cases h
  have hmoving := hs.quiet (quiet_wake s)
  have hstopping := hd.quiet (quiet_wake s)
  refine ⟨fun hheard => hmoving.log hheard trivial, fun hchld halarm => ?_⟩
  have hlast : Call.sigsuspend s.wake.sigchld_flag s.wake.sigalrm_flag ∈
      (s.wake.log (.sigsuspend s.wake.sigchld_flag s.wake.sigalrm_flag)).kernel.calls :=
    List.mem_append_right _ (List.mem_singleton_self _)
  refine HasStatus.doomed
    (s := s.wake.log (.sigsuspend s.wake.sigchld_flag s.wake.sigalrm_flag)) hstopping id
    ⟨_, hlast, ?_⟩
  rintro (he | he)
  · exact absurd (he.symm.trans hchld) (by decide)
  · exact absurd (he.symm.trans halarm) (by decide)

theorem stop_wait_after :
    Triple (fun s => Sound s ∧ i < s.daemons.length) (legion_stop_wait i) fun sent s =>
      (sent = true → AfterWait i s) ∧ (sent = false → Doomed s) := by
  have hquiet : ∀ {α : Type} {m : Exec Master α}, Within Quiet m →
      Triple (fun s => Moving i s ∧ HasStatus i .stopping s) m
        fun _ s => Moving i s ∧ HasStatus i .stopping s :=
    fun h => h.triple fun s s' hq hs => ⟨hs.1.quiet hq, hs.2.quiet hq⟩
  refine Triple.bind (Q := fun _ s => Moving i s ∧ HasStatus i .stopping s) (.modify fun s hs =>
    ⟨(hs.1.moving hs.2).node _, HasStatus.set hs.2 _⟩) fun _ => ?_
  refine (hquiet (quiet_sf_node i _)).bind fun _ => (hquiet (quiet_node i)).bind fun d => ?_
  refine (kill_after _).bind fun answer => .ite (fun hne => ?_) fun he => ?_
  · exact .ret fun s hs => ⟨fun hc => (by cases hc), fun _ => hs.2 hne⟩
  · refine (sigsuspend_after.pre fun s hs => hs.1 (Decidable.of_not_not he)).bind fun _ => ?_
    exact .ret fun s hs => ⟨fun _ => hs, fun hc => (by cases hc)⟩

theorem waitpid_moving (pid : Int) : Triple (Moving i) (waitpid pid) fun _ => Moving i := by
  refine Triple.bind (Q := fun _ => Moving i) (.modify fun s hs => hs.log trivial trivial)
    fun _ => ?_
  exact keeps_moving ((quiet_syscall _).bind fun _ =>
    .ite .ret (.bind .gets fun _ => .ite .ret .stop))

theorem kill_doomed (pid : Int) (signal : KillSignal) :
    Triple Doomed (kill pid signal) fun _ => Doomed := by
  refine (keeps_doomed (quiet_syscall _)).bind fun answer => ?_
  refine Triple.bind (Q := fun _ => Doomed) (.modify fun s hs => ⟨?_, hs.stranded⟩) fun _ =>
    .ret fun _ h => h
  obtain ⟨c, hc, hbad⟩ := hs.unfavourable
  exact ⟨c, List.mem_append_left _ hc, hbad⟩

theorem Doomed.closing {s : Master} (h : Doomed s) : Closing s := .inr (.inr h)

theorem stop_woken_closing (curName : CString) :
    Triple (AfterWait i) (legion_stop_woken i curName) fun _ => Closing := by
  refine Triple.bind (Q := fun flag s => AfterWait i s ∧ s.sigchld_flag = flag)
    (.gets fun _ hs => ⟨hs, rfl⟩) fun chld => .ite (fun hchld => ?_) fun hchld => ?_
  · -- a child is waited for
    refine Triple.pre (P := Moving i) ?_ fun s hs => hs.1.1 (.inl (hs.2.trans hchld))
    refine (keeps_moving (quiet_node i)).bind fun d => (waitpid_moving _).bind fun curPID => ?_
    refine .ite (fun _ => ?_) fun _ => ?_
    · refine (keeps_moving (quiet_sf_error_errMsg _ _ _)).bind fun _ => ?_
      exact (setProcessID_moving 0).bind fun _ => (setStatus_sound .crashed trivial).bind fun _ =>
        (keeps_sound (quiet_sf_node i _)).bind fun _ => .ret fun _ h => h.closing
    · exact (setStatus_sound .exited trivial).bind fun _ =>
        (keeps_sound quiet_clearSigchld).bind fun _ =>
          (keeps_sound (quiet_sf_node i _)).bind fun _ => .ret fun _ h => h.closing
  · have hchld : chld = false := by simpa using hchld
    refine Triple.bind (Q := fun flag s => (AfterWait i s ∧ s.sigchld_flag = chld) ∧
      s.sigalrm_flag = flag) (.gets fun _ hs => ⟨hs, rfl⟩) fun alrm => ?_
    refine .ite (fun halrm => ?_) fun halrm => ?_
    · -- SIGKILL, and the status stays
      refine Triple.pre (P := Doomed) ?_ fun s hs =>
        hs.1.1.2 (hs.1.2.trans hchld) (hs.2.trans halrm)
      refine (keeps_doomed (quiet_node i)).bind fun d =>
        (keeps_doomed (quiet_sf _)).bind fun _ => ?_
      exact (kill_doomed _ _).bind fun _ =>
        (keeps_doomed (quiet_sf_error_errMsg _ _ _)).bind fun _ =>
        (keeps_doomed quiet_clearSigalrm).bind fun _ => .ret fun _ h => h.closing
    · refine Triple.pre (P := Moving i) ?_ fun s hs =>
        hs.1.1.1 (.inr (hs.2.trans (by simpa using halrm)))
      exact (setStatus_sound .exited trivial).bind fun _ => .ret fun _ h => h.closing

theorem stop_active_closing (curName : CString) :
    Triple (fun s => Sound s ∧ i < s.daemons.length) (legion_stop_active i curName)
      fun _ => Closing := by
  refine stop_wait_after.bind fun sent => .ite (fun h => ?_) fun h => ?_
  · exact (stop_woken_closing curName).pre fun s hs => hs.1 h
  · exact ((keeps_doomed (quiet_sf_error_errMsg _ _ _)).bind fun _ =>
      .ret fun _ h => h.closing).pre fun s hs => hs.2 (by simpa using h)

theorem stop_watched (curName : Option CString) :
    Triple Watched (legion_stop curName) fun _ => Watched := by
  refine returning_watched (starts_onward.stop curName)
    ((keeps_sound (quiet_name_exists curName)).bind fun i? => ?_)
  cases i? with
  | none => exact .stop
  | some i =>
    refine Triple.bind (Q := fun _ s => Sound s ∧ i < s.daemons.length) ?_ fun d =>
      .ite (fun _ => ?_) fun _ => .ite (fun _ => ?_) fun _ => stop_active_closing _
    · intro s d s' hs h
      obtain ⟨hd, rfl⟩ := node_inv h
      exact ⟨hs, (List.getElem?_eq_some_iff.mp hd).1⟩
    · refine ((setStatus_sound .inactive trivial).pre fun s hs => hs.1.moving hs.2).bind fun _ => ?_
      exact (keeps_sound (quiet_sf_node i _)).bind fun _ => .ret fun _ h => h.closing
    · exact ((keeps_sound (quiet_sf_error _)).bind fun _ =>
        .ret fun _ h => h.closing).pre fun s hs => hs.1

end Stop

/-! ## The whole run -/

theorem Watched.of_eq {s s' : Master} (h : Watched s)
    (hcalls : s'.kernel.calls = s.kernel.calls) (hchild : s'.kernel.isChild = s.kernel.isChild)
    (hdaemons : ∀ d ∈ s'.daemons, d ∈ s.daemons ∨ d.daemonStatus = .inactive) : Watched s' := by
  rcases h with h | h
  · exact .inl (h.onward ⟨fun c hc => hcalls ▸ hc, fun hc => hchild.trans hc⟩)
  · refine .inr ⟨fun c hc => h.favourable c (hcalls ▸ hc), fun c hc => h.settled c (hcalls ▸ hc),
      fun d hd => ?_⟩
    rcases hdaemons d hd with hd | hd
    · exact h.daemons d hd
    · rw [hd]
      trivial

theorem preserved_watched : Preserved Watched where
  quiet := fun _ _ hq hs => hs.of_eq hq.calls hq.isChild fun _ hd => .inl (hq.daemons ▸ hd)
  register := fun s _ _ _ hs => hs.of_eq rfl rfl fun d hd => by
    rcases List.mem_cons.mp hd with rfl | hd
    · exact .inr rfl
    · exact .inl hd
  unregister := fun s i hs => hs.of_eq rfl rfl fun _ hd => .inl (List.mem_of_mem_eraseIdx hd)
  setFile := fun _ _ _ hs => hs.of_eq rfl rfl fun _ => .inl
  returned := fun s hs => by
    rcases hs with hs | hs
    · exact .inl (hs.onward (starts_onward.log s _))
    · exact .inr hs.returned
  start := start_watched
  stop := stop_watched

/-- The turns of the loop, and then some of the turns in which `legion_quit` stops daemons. -/
def passage (lines : List (List Char)) (quitting : Option Nat) : Exec Master Unit := do
  turns lines
  match quitting with
  | none => pure ()
  | some k => stopDaemons k

theorem passage_watched (lines : List (List Char)) (quitting : Option Nat) :
    Triple Watched (passage lines quitting) fun _ => Watched := by
  refine (preserved_watched.turns lines).bind fun _ => ?_
  cases quitting with
  | none => exact .ret fun _ h => h
  | some k => exact preserved_watched.stopDaemons k

/-- In the master, all returns up to now have found the daemons settled exactly when all
outcomes have been favourable. -/
theorem settled_iff {nature : Nature} {pathSet : Bool} {files : CString → Option (List Nat)}
    {lines : List (List Char)} {quitting : Option Nat} {s : Master}
    (h : passage lines quitting (.initial nature pathSet files) = .ok ((), s))
    (hmaster : s.kernel.isChild = false) :
    (∀ call ∈ s.kernel.calls, call.FindsSettled) ↔ ∀ call ∈ s.kernel.calls, call.Favourable := by
  have hinitial : Watched (.initial nature pathSet files) :=
    .inr ⟨fun _ hc => absurd hc List.not_mem_nil, fun _ hc => absurd hc List.not_mem_nil,
      fun _ hd => absurd hd List.not_mem_nil⟩
  rcases passage_watched lines quitting _ _ _ hinitial h with
    (hchild | ⟨⟨c, hc, hbad⟩, ⟨c', hc', hbad'⟩⟩) | hsound
  · rw [hmaster] at hchild
    cases hchild
  · exact iff_of_false (fun hall => hbad' (hall c' hc')) fun hall => hbad (hall c hc)
  · exact iff_of_true hsound.settled hsound.favourable

/-- The daemon sends this byte, or closes the pipe. -/
def answering (read : Int) : Nature where
  moment _ :=
    { pipe := 0, fork := 11, read := read, kill := 0, waitpid := 11, dup2 := 3, setpgid := 0
      execvpe := 0, signals := [] }
  leftover _ _ := []

/-- The state after `start lazy`. -/
def lazyStarted (read : Int) : Master :=
  after (passage [registerLazy.chars, startLazy.chars] none)
    (.initial (answering read) true fun _ => none)

theorem lazyStarted_eq (read : Int) {P : Master → Prop}
    (h : Ends (forEach turnOn [registerLazy.fields, startLazy.fields])
      (.initial (answering read) true fun _ => none) fun u s => u = () ∧ P s) :
    passage [registerLazy.chars, startLazy.chars] none
        (.initial (answering read) true fun _ => none) = .ok ((), lazyStarted read) ∧
      P (lazyStarted read) := by
  refine Ends.eq_after ?_
  obtain ⟨u, s, he, hP⟩ := h
  exact ⟨(), s, bind_ok ((turns_lazy _).trans he), rfl, hP.2⟩

theorem settled_iff_lazyStarted :
    (∀ call ∈ (lazyStarted 1).kernel.calls, call.FindsSettled) ↔
      ∀ call ∈ (lazyStarted 1).kernel.calls, call.Favourable :=
  have h := lazyStarted_eq 1 (P := fun s => s.kernel.isChild = false) (by decide +kernel)
  settled_iff h.1 h.2

instance : DecidablePred Call.FindsSettled := fun call => by
  cases call <;> (unfold Call.FindsSettled; infer_instance)

/-- A daemon that closes the pipe without a byte is starting for good. -/
theorem daemon_left_starting :
    ¬ ∀ (nature : Nature) (pathSet : Bool) (files : CString → Option (List Nat))
        (lines : List (List Char)) (quitting : Option Nat) (s : Master),
      passage lines quitting (.initial nature pathSet files) = .ok ((), s) →
      s.kernel.isChild = false → ∀ call ∈ s.kernel.calls, call.FindsSettled := by
  intro h
  have hrun := lazyStarted_eq 0 (P := fun s => s.kernel.isChild = false ∧
    ¬ ∀ call ∈ s.kernel.calls, call.FindsSettled) (by decide +kernel)
  exact hrun.2.2 (h _ _ _ _ _ _ hrun.1 hrun.2.1)

end StarterProjects.Legion
