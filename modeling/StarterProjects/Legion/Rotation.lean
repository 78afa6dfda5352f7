import StarterProjects.Legion.Frames

/-!
# The logs after rotations

Each session of a daemon has a log. As long as there are fewer than `LOG_VERSIONS` of them,
`legion_logrotate` lets the next session write the next number, so the number 0 is the oldest.
With all numbers in use it deletes the log of the highest number, as if that were the oldest,
and moves the others up.

`keepsRecent_iff`: after one start and `k` rotations the logs are those of the latest sessions,
with only the oldest ever discarded, exactly when `k < LOG_VERSIONS`. The first rotation with
seven logs discards the newest.
-/

namespace StarterProjects.Legion

open Lib Lib.Exec

/-! ## What opens a log -/

def SameLogs (s s' : Master) : Prop :=
  s'.kernel.files = s.kernel.files ∧ s'.kernel.sessions = s.kernel.sessions

instance : IsPreorder Master SameLogs where
  refl := fun _ => ⟨rfl, rfl⟩
  trans := fun _ _ _ h h' => ⟨h'.1.trans h.1, h'.2.trans h.2⟩

theorem forks_sameLogs : Forks SameLogs where
  quiet := fun _ _ h => ⟨h.files, h.sessions⟩
  node := fun _ _ _ => ⟨rfl, rfl⟩
  log := fun _ _ => ⟨rfl, rfl⟩
  child := fun _ _ => ⟨rfl, rfl⟩

/-- The logs are as in `s₀`. -/
def Unopened (s₀ s : Master) : Prop := SameLogs s₀ s

/-- Or a session has opened a log since. -/
def Opened (path : CString) (s₀ s : Master) : Prop :=
  SameLogs s₀ s ∨ SameLogs (s₀.openLog path) s

theorem Unopened.openLog {path : CString} {s₀ s : Master} (h : Unopened s₀ s) :
    Opened path s₀ (s.openLog path) := by
  refine .inr ⟨?_, ?_⟩
  · show Function.update _ _ _ = Function.update _ _ _
    rw [h.1, h.2]
  · exact congrArg (· + 1) h.2

section Opens

variable {α : Type} {m : Exec Master α} {path : CString} {s₀ : Master}

theorem keeps_unopened (h : Within SameLogs m) :
    Triple (Unopened s₀) m fun _ => Unopened s₀ :=
  h.triple fun _ _ hs hu => trans_of SameLogs hu hs

theorem keeps_opened (h : Within SameLogs m) :
    Triple (Opened path s₀) m fun _ => Opened path s₀ :=
  h.triple fun _ _ hs ho => ho.imp (trans_of SameLogs · hs) (trans_of SameLogs · hs)

theorem opens_unopened (h : Within SameLogs m) :
    Triple (Unopened s₀) m fun _ => Opened path s₀ :=
  (keeps_unopened h).post fun _ _ => .inl

theorem start_node_opens (i : Nat) (curName : CString) (logFileVersion : Char) :
    Triple (Unopened s₀) (legion_start_node i curName logFileVersion)
      fun _ => Opened (logPath curName logFileVersion) s₀ := by
  have hR := forks_sameLogs
  have herror : ∀ reason, Within SameLogs (do
      setStatus i .inactive; sf_error reason; return LEGION_ERROR) := fun reason =>
    (hR.setStatus i _).bind fun _ => (hR.of_quiet (quiet_sf_error reason)).bind fun _ => .ret
  refine (keeps_unopened (hR.setStatus i _)).bind fun _ => ?_
  refine (keeps_unopened (hR.of_quiet (quiet_syscall _))).bind fun pipe => ?_
  refine .ite (fun _ => ?_) fun _ => ?_
  · exact opens_unopened (herror _)
  refine (keeps_unopened hR.fork).bind fun childPID => ?_
  refine .ite (fun _ => ?_) fun _ => .ite (fun _ => ?_) fun _ => ?_
  · exact opens_unopened (herror _)
  · refine (keeps_unopened .gets).bind fun _ => ?_
    refine .ite (fun _ => .stop) fun _ => ?_
    exact (Triple.modify fun s hs => hs.openLog).bind fun _ => keeps_opened hR.start_exec
  · refine (Triple.modify fun s hs => ?_).bind fun _ => keeps_opened (hR.start_sync i _ _)
    split
    · exact hs.openLog
    · exact .inl hs

theorem start_opens (curName : CString) (logFileVersion : Char) :
    Triple (Unopened s₀) (legion_start (some curName) logFileVersion)
      fun _ => Opened (logPath curName logFileVersion) s₀ := by
  have hR := forks_sameLogs
  have hlog : Triple (Opened (logPath curName logFileVersion) s₀)
      (logCall fun s => .returned (s.daemons.map DaemonNode.daemonStatus))
      fun _ => Opened (logPath curName logFileVersion) s₀ := keeps_opened (hR.logCall _)
  have herror : Within SameLogs (do sf_error "command execution"; return LEGION_ERROR) :=
    (hR.of_quiet (quiet_sf_error _)).bind fun _ => .ret
  refine Triple.bind (Q := fun _ => Opened (logPath curName logFileVersion) s₀) ?_ fun _ =>
    hlog.bind fun _ => .ret fun _ h => h
  refine (keeps_unopened (hR.of_quiet (quiet_name_exists _))).bind fun i? => ?_
  cases i? with
  | none => exact opens_unopened herror
  | some i =>
    refine (keeps_unopened (hR.of_quiet (quiet_node i))).bind fun _ =>
      .ite (fun _ => opens_unopened herror) fun _ => start_node_opens i _ _

theorem restart_opens (curName : CString) (logFileVersion : Char) :
    Triple (Unopened s₀) (restart curName logFileVersion)
      fun _ => Opened (logPath curName logFileVersion) s₀ := by
  have hR := forks_sameLogs
  have hstop : Triple (Unopened s₀) (legion_stop (some curName)) fun _ => Unopened s₀ :=
    keeps_unopened (hR.stop (some curName))
  exact (keeps_unopened (hR.of_quiet (quiet_sf _))).bind fun _ => hstop.bind fun _ =>
    hstop.bind fun _ => (start_opens curName logFileVersion).bind fun _ => .ret fun _ h => h

end Opens

/-- With one session more, a log has been opened. -/
theorem Opened.of_sessions {path : CString} {s₀ s : Master} (h : Opened path s₀ s)
    (hn : s.kernel.sessions = s₀.kernel.sessions + 1) : SameLogs (s₀.openLog path) s := by
  refine h.resolve_left fun hu => ?_
  have := hu.2
  omega

/-! ## The two regimes of `legion_logrotate` -/

theorem logPath_inj {curName : CString} {c c' : Char}
    (h : logPath curName c = logPath curName c') : c = c' := by
  unfold logPath at h
  exact List.singleton_inj.mp (List.append_cancel_left h)

theorem sprintfPath_inv {curName path : CString} {version : Nat} {s s' : Master}
    (h : sprintfPath curName version s = .ok (path, s')) :
    path = logPath curName (versionChar version) ∧ s' = s := by
  unfold sprintfPath at h
  split at h
  · cases h
    exact ⟨rfl, rfl⟩
  · cases h

theorem unlink_inv {path : CString} {s s' : Master} (h : unlink path s = .ok ((), s')) :
    SameLogs s s' ∨ SameLogs (s.setFile path none) s' := by
  obtain ⟨answer, s₁, h₁, h⟩ := bind_eq_ok h
  cases h₁
  have hpass := quiet_pass s
  split at h
  · cases h
    refine .inr ⟨?_, hpass.sessions⟩
    show Function.update _ _ _ = Function.update _ _ _
    rw [hpass.files]
  · cases h
    exact .inl ⟨hpass.files, hpass.sessions⟩

theorem rename_inv {oldPath newPath : CString} {r : Int} {s s' : Master}
    (h : rename oldPath newPath s = .ok (r, s')) :
    r = -1 ∧ SameLogs s s' ∨ ∃ l, s.kernel.files oldPath = some l ∧
      SameLogs ((s.setFile newPath (some l)).setFile oldPath none) s' := by
  obtain ⟨answer, s₁, h₁, h⟩ := bind_eq_ok h
  cases h₁
  have hpass := quiet_pass s
  rw [gets_bind, hpass.files] at h
  cases hfile : s.kernel.files oldPath with
  | none =>
    rw [hfile] at h
    cases h
    exact .inl ⟨rfl, hpass.files, hpass.sessions⟩
  | some l =>
    simp only [hfile] at h
    split at h
    · cases h
      exact .inl ⟨rfl, hpass.files, hpass.sessions⟩
    · cases h
      refine .inr ⟨l, rfl, ?_, hpass.sessions⟩
      show Function.update (Function.update _ _ _) _ _ = Function.update (Function.update _ _ _) _ _
      rw [hpass.files]

/-- The search ends at the first number without a log. -/
theorem nextVersion_inv {curName : CString} {s s' : Master} {fuel : Nat} :
    ∀ {lastVersion v : Nat}, nextVersion curName fuel lastVersion s = .ok (v, s') →
      s' = s ∧ s.kernel.files (logPath curName (versionChar v)) = none ∧ lastVersion ≤ v ∧
        ∀ u, lastVersion ≤ u → u < v →
          s.kernel.files (logPath curName (versionChar u)) ≠ none := by
  induction fuel with
  | zero => exact fun h => by cases h
  | succ fuel ih =>
    intro lastVersion v hnext
    rw [nextVersion] at hnext
    obtain ⟨path, s₁, h₁, h⟩ := bind_eq_ok hnext
    obtain ⟨rfl, rfl⟩ := sprintfPath_inv h₁
    simp only [accessible, gets_bind] at h
    split at h
    · rename_i hsome
      obtain ⟨hs, hv, hle, hbelow⟩ := ih h
      refine ⟨hs, hv, by omega, fun u hu huv => ?_⟩
      rcases Nat.eq_or_lt_of_le hu with rfl | hlt
      · exact Option.isSome_iff_ne_none.mp hsome
      · exact hbelow u hlt huv
    · rename_i hnone
      cases h
      exact ⟨rfl, Option.not_isSome_iff_eq_none.mp hnone, Nat.le_refl _,
        fun u hu huv => absurd huv (Nat.not_lt.mpr hu)⟩

/-- What a successful rotation has done to the logs: it has opened the first number that was
free, or thrown the highest away and moved the others. -/
theorem logrotate_node_inv {curName : CString} {s s' : Master}
    (h : legion_logrotate_node curName s = .ok (LEGION_SUCCESS, s')) :
    (s.kernel.files (logPath curName (versionChar 6)) = none ∧
      ∃ v, s.kernel.files (logPath curName (versionChar v)) = none ∧
        (∀ u < v, s.kernel.files (logPath curName (versionChar u)) ≠ none) ∧
        Opened (logPath curName (versionChar v)) s s') ∨
    (∃ u t, (SameLogs s u ∨ SameLogs (s.setFile (logPath curName (versionChar 6)) none) u) ∧
      renameLogs curName 6 u = .ok (true, t) ∧
        s.kernel.files (logPath curName (versionChar 6)) ≠ none ∧
      Opened (logPath curName '0') t s') := by
  obtain ⟨path, s₁, h₁, hpath⟩ := bind_eq_ok h
  obtain ⟨rfl, rfl⟩ := sprintfPath_inv h₁
  simp only [accessible, gets_bind] at hpath
  split at hpath
  · rename_i hsome
    obtain ⟨⟨⟩, s₂, hunlink, hmove⟩ := bind_eq_ok hpath
    obtain ⟨moved, t, hmoved, hrest⟩ := bind_eq_ok hmove
    split at hrest
    · rename_i hm
      rw [hm] at hmoved
      exact .inr ⟨s₂, t, unlink_inv hunlink, hmoved, Option.isSome_iff_ne_none.mp hsome,
        restart_opens curName '0' t _ _ (refl_of SameLogs t) hrest⟩
    · cases hrest
  · rename_i hnone
    obtain ⟨v, t, hnext, hrest⟩ := bind_eq_ok hpath
    obtain ⟨rfl, hv, -, hbelow⟩ := nextVersion_inv hnext
    exact .inl ⟨Option.not_isSome_iff_eq_none.mp hnone, v, hv, fun u hu =>
      hbelow u (Nat.zero_le u) hu,
      restart_opens curName (versionChar v) t _ _ (refl_of SameLogs t) hrest⟩

theorem logrotate_inv {curName : CString} {s s' : Master}
    (h : legion_logrotate (some curName) s = .ok (LEGION_SUCCESS, s')) :
    ∃ t, legion_logrotate_node curName s = .ok (LEGION_SUCCESS, t) ∧ SameLogs t s' := by
  unfold legion_logrotate returning at h
  obtain ⟨r, t, hbody, hlog⟩ := bind_eq_ok h
  cases hlog
  obtain ⟨i?, s₁, h₁, hfound⟩ := bind_eq_ok hbody
  obtain ⟨-, rfl⟩ := name_exists_inv h₁
  cases i? with
  | none => cases hfound
  | some i =>
    obtain ⟨d, s₂, h₂, hnode⟩ := bind_eq_ok hfound
    obtain rfl := (node_inv h₂).2
    split at hnode
    · cases hnode
    · exact ⟨t, hnode, rfl, rfl⟩

/-! ## Fewer than seven logs -/

theorem versionChar_inj {u v : Nat} (hu : u < LOG_VERSIONS) (hv : v < LOG_VERSIONS)
    (h : versionChar u = versionChar v) : u = v := by
  have : ∀ u < LOG_VERSIONS, ∀ v < LOG_VERSIONS, versionChar u = versionChar v → u = v := by
    decide
  exact this u hu v hv h

/-- The session `first + v` has the log of number `v`, up to the number `k`. -/
structure Layout (curName : CString) (first k : Nat) (s : Master) : Prop where
  sessions : s.kernel.sessions = first + k + 1
  used : ∀ v ≤ k, s.kernel.files (logPath curName (versionChar v)) = some [first + v]
  unused : ∀ version, (∀ v ≤ k, version ≠ versionChar v) →
    s.kernel.files (logPath curName version) = none

namespace Layout

variable {curName : CString} {first k : Nat} {s s' : Master}

theorem same (h : Layout curName first k s) (hs : SameLogs s s') : Layout curName first k s' where
  sessions := hs.2.trans h.sessions
  used := fun v hv => by rw [hs.1, h.used v hv]
  unused := fun version hv => by rw [hs.1, h.unused version hv]

theorem next_unused (h : Layout curName first k s) (hk : k + 1 < LOG_VERSIONS) :
    s.kernel.files (logPath curName (versionChar (k + 1))) = none :=
  h.unused _ fun v hv he => by
    have := versionChar_inj hk (by omega) he
    omega

/-- The next session writes the next number. -/
theorem openLog (h : Layout curName first k s) (hk : k + 1 < LOG_VERSIONS) :
    Layout curName first (k + 1) (s.openLog (logPath curName (versionChar (k + 1)))) where
  sessions := congrArg (· + 1) h.sessions
  used := fun v hv => by
    show Function.update _ _ _ _ = _
    by_cases he : v = k + 1
    · subst he
      rw [Function.update_self, h.next_unused hk, h.sessions]
      rfl
    · rw [Function.update_of_ne fun hp => he (versionChar_inj (by omega) hk (logPath_inj hp))]
      exact h.used v (by omega)
  unused := fun version hv => by
    show Function.update _ _ _ _ = _
    rw [Function.update_of_ne fun hp => hv (k + 1) (Nat.le_refl _) (logPath_inj hp)]
    exact h.unused version fun v hvk => hv v (by omega)

/-- A rotation that finds a number free. -/
theorem rotate (h : Layout curName first k s) (hk : k + 1 < LOG_VERSIONS)
    (hrotate : legion_logrotate (some curName) s = .ok (LEGION_SUCCESS, s'))
    (hopens : s'.kernel.sessions = s.kernel.sessions + 1) : Layout curName first (k + 1) s' := by
  obtain ⟨t, hnode, hsame⟩ := logrotate_inv hrotate
  have hfree := h.next_unused hk
  rcases logrotate_node_inv hnode with ⟨-, v, hv, hbelow, hopened⟩ | ⟨_, _, _, _, hfull, _⟩
  · have hvk : v = k + 1 := by
      rcases Nat.lt_trichotomy v (k + 1) with hlt | rfl | hgt
      · rw [h.used v (by omega)] at hv
        cases hv
      · rfl
      · exact absurd hfree (hbelow (k + 1) hgt)
    subst hvk
    exact ((h.openLog hk).same (hopened.of_sessions (hsame.2.symm.trans hopens))).same hsame
  · exfalso
    by_cases h6 : k + 1 = 6
    · rw [h6] at hfree
      exact hfull hfree
    · refine hfull (h.unused _ fun v hv he => ?_)
      have := versionChar_inj (by decide) (show v < LOG_VERSIONS by omega) he
      have : LOG_VERSIONS = 7 := rfl
      omega

end Layout

/-! ## The rotation with seven logs -/

/-- No log has the session `j` in it. -/
def Lost (curName : CString) (j : Nat) (s : Master) : Prop :=
  ∀ version l, s.kernel.files (logPath curName version) = some l → j ∉ l

theorem Lost.setFile {curName path : CString} {j : Nat} {s : Master} {file : Option (List Nat)}
    (h : Lost curName j s) (hfile : ∀ l, file = some l → j ∉ l) :
    Lost curName j (s.setFile path file) := by
  intro version l hl
  change Function.update _ _ _ _ = _ at hl
  by_cases he : logPath curName version = path
  · subst he
    rw [Function.update_self] at hl
    exact hfile l hl
  · rw [Function.update_of_ne he] at hl
    exact h version l hl

theorem Lost.same {curName : CString} {j : Nat} {s s' : Master} (h : Lost curName j s)
    (hs : SameLogs s s') : Lost curName j s' :=
  fun version l hl => h version l (by rw [← hs.1]; exact hl)

/-- A log that is moved keeps its sessions. -/
theorem renameLogs_lost {curName : CString} {j n : Nat} :
    ∀ {i : Nat}, Triple (fun s => Lost curName j s ∧ s.kernel.sessions = n)
      (renameLogs curName i) fun _ s => Lost curName j s ∧ s.kernel.sessions = n
  | 0 => .ret fun _ h => h
  | i + 1 => by
    intro s b s' hs h
    obtain ⟨hlost, hn⟩ := hs
    rw [renameLogs] at h
    obtain ⟨oldPath, s₁, h₁, hold⟩ := bind_eq_ok h
    obtain ⟨rfl, rfl⟩ := sprintfPath_inv h₁
    obtain ⟨newPath, s₂, h₂, hnew⟩ := bind_eq_ok hold
    obtain ⟨rfl, rfl⟩ := sprintfPath_inv h₂
    obtain ⟨res, s₃, hrename, hrest⟩ := bind_eq_ok hnew
    have hmoved : Lost curName j s₃ ∧ s₃.kernel.sessions = n := by
      rcases rename_inv hrename with ⟨-, hsame⟩ | ⟨l, hfile, hsame⟩
      · exact ⟨hlost.same hsame, hsame.2.trans hn⟩
      · refine ⟨Lost.same ((hlost.setFile fun l' hl' => ?_).setFile fun _ hl' => ?_) hsame,
          hsame.2.trans hn⟩
        · cases hl'
          exact hlost _ l hfile
        · cases hl'
    split at hrest
    · cases hrest
      exact hmoved
    · exact renameLogs_lost s₃ b s' hmoved hrest

/-- The highest log is written over by the one below. -/
theorem renameLogs_over {curName : CString} {j i : Nat} {s s' : Master} (hi : i + 1 < LOG_VERSIONS)
    (hlost : ∀ version l, version ≠ versionChar (i + 1) →
      s.kernel.files (logPath curName version) = some l → j ∉ l)
    (h : renameLogs curName (i + 1) s = .ok (true, s')) :
    Lost curName j s' ∧ s'.kernel.sessions = s.kernel.sessions := by
  rw [renameLogs] at h
  obtain ⟨oldPath, s₁, h₁, hold⟩ := bind_eq_ok h
  obtain ⟨rfl, rfl⟩ := sprintfPath_inv h₁
  obtain ⟨newPath, s₂, h₂, hnew⟩ := bind_eq_ok hold
  obtain ⟨rfl, rfl⟩ := sprintfPath_inv h₂
  obtain ⟨res, s₃, hrename, hrest⟩ := bind_eq_ok hnew
  rcases rename_inv hrename with ⟨rfl, -⟩ | ⟨l, hfile, hsame⟩
  · cases hrest
  · have hl : j ∉ l := hlost _ l (fun hc => by
      have := versionChar_inj (by omega) hi hc
      omega) hfile
    have hover : Lost curName j (s₂.setFile (logPath curName (versionChar (i + 1))) (some l)) := by
      intro version l' hl'
      change Function.update _ _ _ _ = _ at hl'
      by_cases he : version = versionChar (i + 1)
      · rw [he, Function.update_self] at hl'
        cases hl'
        exact hl
      · rw [Function.update_of_ne fun hp => he (logPath_inj hp)] at hl'
        exact hlost version l' he hl'
    have hmoved : Lost curName j s₃ := Lost.same (hover.setFile fun _ hl' => by cases hl') hsame
    split at hrest
    · cases hrest
    · exact renameLogs_lost (n := s₂.kernel.sessions) s₃ _ s' ⟨hmoved, hsame.2⟩ hrest

theorem Opened.lost {curName : CString} {version : Char} {j : Nat} {s s' : Master}
    (h : Lost curName j s) (hj : s.kernel.sessions ≠ j)
    (hs : Opened (logPath curName version) s s') : Lost curName j s' := by
  intro c l hl
  rcases hs with hs | hs
  · rw [hs.1] at hl
    exact h c l hl
  · rw [hs.1] at hl
    change Function.update _ _ _ _ = _ at hl
    by_cases he : logPath curName c = logPath curName version
    · rw [he, Function.update_self] at hl
      cases hl
      intro hmem
      rcases List.mem_append.mp hmem with hmem | hmem
      · cases hf : s.kernel.files (logPath curName version) with
        | none =>
          rw [hf] at hmem
          cases hmem
        | some l =>
          rw [hf] at hmem
          exact h version l hf hmem
      · exact hj (List.mem_singleton.mp hmem).symm
    · rw [Function.update_of_ne he] at hl
      exact h c l hl

/-- With all numbers in use, the session that goes is the last but one. -/
theorem Layout.rotate_full {curName : CString} {first : Nat} {s s' : Master}
    (h : Layout curName first 6 s)
    (hrotate : legion_logrotate (some curName) s = .ok (LEGION_SUCCESS, s')) :
    Lost curName (first + 6) s' := by
  obtain ⟨t, hnode, hsame⟩ := logrotate_inv hrotate
  have hlost : ∀ version l, version ≠ versionChar 6 →
      s.kernel.files (logPath curName version) = some l → first + 6 ∉ l := by
    intro version l he hl
    by_cases hused : ∃ v ≤ 6, version = versionChar v
    · obtain ⟨v, hv, rfl⟩ := hused
      rw [h.used v hv] at hl
      cases hl
      have : v ≠ 6 := fun hv6 => he (hv6 ▸ rfl)
      simp
      omega
    · rw [h.unused version fun v hv hc => hused ⟨v, hv, hc⟩] at hl
      cases hl
  have ht : Lost curName (first + 6) t := by
    rcases logrotate_node_inv hnode with ⟨h6, -⟩ | ⟨w, u, hunlinked, hmoved, -, hopened⟩
    · rw [h.used 6 (Nat.le_refl _)] at h6
      cases h6
    · have hw : w.kernel.sessions = s.kernel.sessions ∧ ∀ version, version ≠ versionChar 6 →
          w.kernel.files (logPath curName version) = s.kernel.files (logPath curName version) := by
        rcases hunlinked with hs | hs
        · exact ⟨hs.2, fun version _ => by rw [hs.1]⟩
        · refine ⟨hs.2, fun version he => ?_⟩
          rw [hs.1]
          exact Function.update_of_ne (fun hp => he (logPath_inj hp)) _ _
      obtain ⟨hu, hn⟩ := renameLogs_over (by decide)
        (fun version l he hl => hlost version l he (hw.2 version he ▸ hl)) hmoved
      exact hopened.lost hu (by rw [hn, hw.1, h.sessions]; omega)
  exact ht.same hsame

/-! ## All rotations -/

/-- A daemon without logs is started, and rotated `k` times; each time a session opens its log.
`states i` is the state after `i` rotations. -/
structure Rotations (curName : CString) (s₀ : Master) (states : Nat → Master) (k : Nat) :
    Prop where
  unlogged : ∀ version, s₀.kernel.files (logPath curName version) = none
  start : legion_start (some curName) '0' s₀ = .ok (LEGION_SUCCESS, states 0)
  starts : (states 0).kernel.sessions = s₀.kernel.sessions + 1
  rotate : ∀ i < k,
    legion_logrotate (some curName) (states i) = .ok (LEGION_SUCCESS, states (i + 1))
  restarts : ∀ i < k, (states (i + 1)).kernel.sessions = (states i).kernel.sessions + 1

/-- One of the logs has the session `j` in it. -/
def Retained (curName : CString) (s : Master) (j : Nat) : Prop :=
  ∃ version l, s.kernel.files (logPath curName version) = some l ∧ j ∈ l

/-- The logs are those of the latest sessions, `first + k` being the last, and whatever a
rotation has discarded was the oldest then. -/
structure KeepsRecent (curName : CString) (first : Nat) (states : Nat → Master) (k : Nat) :
    Prop where
  recent : ∀ j, Retained curName (states k) j ↔
    first ≤ j ∧ j ≤ first + k ∧ first + k < j + LOG_VERSIONS
  discards : ∀ i < k, ∀ j, Retained curName (states i) j →
    ¬ Retained curName (states (i + 1)) j → ∀ j', Retained curName (states i) j' → j ≤ j'

theorem Layout.retained_iff {curName : CString} {first k : Nat} {s : Master}
    (h : Layout curName first k s) (j : Nat) :
    Retained curName s j ↔ first ≤ j ∧ j ≤ first + k := by
  constructor
  · rintro ⟨version, l, hl, hj⟩
    by_cases hused : ∃ v ≤ k, version = versionChar v
    · obtain ⟨v, hv, rfl⟩ := hused
      rw [h.used v hv] at hl
      cases hl
      rw [List.mem_singleton.mp hj]
      omega
    · rw [h.unused version fun v hv hc => hused ⟨v, hv, hc⟩] at hl
      cases hl
  · rintro ⟨hfirst, hlast⟩
    refine ⟨versionChar (j - first), [first + (j - first)], h.used _ (by omega), ?_⟩
    rw [Nat.add_sub_cancel' hfirst]
    exact List.mem_singleton_self j

namespace Rotations

variable {curName : CString} {s₀ : Master} {states : Nat → Master} {k : Nat}

theorem layout_zero (h : Rotations curName s₀ states k) :
    Layout curName s₀.kernel.sessions 0 (states 0) := by
  have hopened := (start_opens curName '0' s₀ _ _ (refl_of SameLogs s₀) h.start).of_sessions
    h.starts
  refine Layout.same (s := s₀.openLog (logPath curName '0')) ⟨rfl, fun v hv => ?_,
    fun version hv => ?_⟩ hopened
  · obtain rfl := Nat.le_zero.mp hv
    show Function.update _ _ _ (logPath curName '0') = _
    rw [Function.update_self, h.unlogged]
    rfl
  · have hne : logPath curName version ≠ logPath curName '0' := fun hp =>
      hv 0 (Nat.le_refl _) (logPath_inj hp)
    show Function.update _ _ _ _ = _
    rw [Function.update_of_ne hne]
    exact h.unlogged version

theorem layout (h : Rotations curName s₀ states k) :
    ∀ {i : Nat}, i ≤ k → i < LOG_VERSIONS → Layout curName s₀.kernel.sessions i (states i)
  | 0, _, _ => h.layout_zero
  | i + 1, hi, hlt =>
    (h.layout (Nat.le_of_succ_le hi) (by omega)).rotate hlt (h.rotate i hi) (h.restarts i hi)

/-- The first rotation with seven logs discards the newest session. -/
theorem not_keepsRecent (h : Rotations curName s₀ states k) (hk : 6 < k) :
    ¬ KeepsRecent curName s₀.kernel.sessions states k := by
  intro hkeeps
  have hlayout := h.layout (Nat.le_of_lt hk) (by decide)
  have hnewest := (hlayout.retained_iff (s₀.kernel.sessions + 6)).mpr ⟨by omega, by omega⟩
  have holdest := (hlayout.retained_iff s₀.kernel.sessions).mpr ⟨by omega, by omega⟩
  have hgone : ¬ Retained curName (states 7) (s₀.kernel.sessions + 6) := by
    rintro ⟨version, l, hl, hj⟩
    exact hlayout.rotate_full (h.rotate 6 hk) version l hl hj
  have hle := hkeeps.discards 6 hk _ hnewest hgone _ holdest
  omega

theorem keepsRecent (h : Rotations curName s₀ states k) (hk : k < LOG_VERSIONS) :
    KeepsRecent curName s₀.kernel.sessions states k where
  recent := fun j => by
    rw [(h.layout (Nat.le_refl k) hk).retained_iff]
    omega
  discards := fun i hi j hj hnot => by
    rw [(h.layout (Nat.le_of_lt hi) (by omega)).retained_iff] at hj
    rw [(h.layout (i := i + 1) hi (by omega)).retained_iff] at hnot
    omega

end Rotations

theorem keepsRecent_iff {curName : CString} {s₀ : Master} {states : Nat → Master} {k : Nat}
    (h : Rotations curName s₀ states k) :
    KeepsRecent curName s₀.kernel.sessions states k ↔ k < LOG_VERSIONS :=
  ⟨fun hkeeps => Nat.lt_of_not_le fun hk => h.not_keepsRecent hk hkeeps, h.keepsRecent⟩

/-- A daemon that starts and stops as it is told; SIGTERM ends it during `sigsuspend`. -/
def obedient : Nature where
  moment k :=
    { pipe := 0, fork := 11, read := 1, kill := 0, waitpid := 11, dup2 := 3, setpgid := 0
      execvpe := -1, signals := if k % 6 = 4 then [.terminates 11] else [] }
  leftover _ _ := []

def lazyRegistered : Master :=
  after (legion_register "lazy".toList "lazy".toList []) (.initial obedient true fun _ => none)

def lazyRotated : Nat → Master
  | 0 => after (legion_start (some "lazy".toList) '0') lazyRegistered
  | i + 1 => after (legion_logrotate (some "lazy".toList)) (lazyRotated i)

theorem lazy_rotations {k : Nat} (hk : k ≤ 7) :
    Rotations "lazy".toList lazyRegistered lazyRotated k := by
  have hstart : Ends (legion_start (some "lazy".toList) '0') lazyRegistered
      fun r s => r = LEGION_SUCCESS ∧
        s.kernel.sessions = lazyRegistered.kernel.sessions + 1 := by decide +kernel
  have hrotate : ∀ i < 7, Ends (legion_logrotate (some "lazy".toList)) (lazyRotated i)
      fun r s => r = LEGION_SUCCESS ∧
        s.kernel.sessions = (lazyRotated i).kernel.sessions + 1 := by decide +kernel
  exact
    { unlogged := fun _ => rfl
      start := hstart.eq_after.1
      starts := hstart.eq_after.2
      rotate := fun i hi => (hrotate i (Nat.lt_of_lt_of_le hi hk)).eq_after.1
      restarts := fun i hi => (hrotate i (Nat.lt_of_lt_of_le hi hk)).eq_after.2 }

theorem keepsRecent_iff_lazy :
    KeepsRecent "lazy".toList lazyRegistered.kernel.sessions lazyRotated 2 ↔ 2 < LOG_VERSIONS :=
  keepsRecent_iff (lazy_rotations (by decide))

/-- After the seventh rotation the log of the seventh session is gone, not that of the first. -/
theorem newest_session_discarded :
    ¬ ∀ (curName : CString) (s₀ : Master) (states : Nat → Master) (k : Nat),
      Rotations curName s₀ states k → KeepsRecent curName s₀.kernel.sessions states k :=
  fun h => (lazy_rotations (Nat.le_refl 7)).not_keepsRecent (by decide)
    (h _ _ _ _ (lazy_rotations (Nat.le_refl 7)))

end StarterProjects.Legion
