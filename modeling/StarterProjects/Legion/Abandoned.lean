import StarterProjects.Legion.Rotation
import StarterProjects.Legion.Waiting

/-!
# Rotations that are given up

With all numbers in use `legion_logrotate` deletes the log of the highest number, and moves the
others up from the highest to the lowest. When one of them is missing, or `rename` fails, it
returns LEGION_ERROR with the logs as they are by then.

`logs_kept_iff`: an error leaves the logs as they were exactly when the first step of the two
has failed as well, so that nothing has been done.
-/

namespace StarterProjects.Legion

open Lib Lib.Exec

/-! ## The loop -/

/-- Of the logs below `n`, that of number `i` is there and `rename` moves it, which comes after
those of the numbers between. -/
def Moves (curName : CString) (s : Master) (n i : Nat) : Prop :=
  s.kernel.files (logPath curName (versionChar i)) ≠ none ∧ (s.ahead (n - 1 - i)).rename ≠ -1

/-- The loop from `n` down stops at `p`, after the move of all above. -/
structure StuckAt (curName : CString) (s : Master) (n p : Nat) (s' : Master) : Prop where
  lt : p < n
  stuck : ¬ Moves curName s n p
  above : ∀ i, p < i → i < n → Moves curName s n i
  first : p + 1 = n → s'.kernel.files = s.kernel.files
  later : p + 1 < n → s'.kernel.files (logPath curName (versionChar (p + 1))) = none

theorem sprintfPath_run {curName : CString} {version : Nat}
    (hfits : (logPath curName (versionChar version)).length < LOGFILE_PATH_LENGTH) (s : Master) :
    sprintfPath curName version s = .ok (logPath curName (versionChar version), s) := by
  rw [sprintfPath, if_pos hfits]
  rfl

theorem logPath_length (curName : CString) (c c' : Char) :
    (logPath curName c).length = (logPath curName c').length := by
  simp [logPath]

theorem rename_run (oldPath newPath : CString) (s : Master) :
    rename oldPath newPath s =
      match s.kernel.files oldPath with
      | none => .ok (-1, s.pass)
      | some l =>
        if s.answers.rename = -1 then .ok (-1, s.pass)
        else .ok (0, (s.pass.setFile newPath (some l)).setFile oldPath none) := by
  have hrun : rename oldPath newPath s = (match s.pass.kernel.files oldPath with
      | none => pure (-1)
      | some sessions =>
        if s.answers.rename = -1 then
          return -1
        else do
          modify fun s => (s.setFile newPath (some sessions)).setFile oldPath none
          return 0 : Exec Master Int) s.pass := rfl
  rw [hrun, (quiet_pass s).files]
  cases s.kernel.files oldPath with
  | none => rfl
  | some l =>
    simp only
    split <;> rfl

/-- The log of number `n` has been moved up. -/
def Master.movedUp (s : Master) (curName : CString) (n : Nat) (l : List Nat) : Master :=
  (s.pass.setFile (logPath curName (versionChar (n + 1))) (some l)).setFile
    (logPath curName (versionChar n)) none

theorem movedUp_below {curName : CString} {n i : Nat} (hn : n + 1 < LOG_VERSIONS) (hi : i < n)
    (s : Master) (l : List Nat) :
    (s.movedUp curName n l).kernel.files (logPath curName (versionChar i)) =
      s.kernel.files (logPath curName (versionChar i)) := by
  have hne : ∀ v, v < LOG_VERSIONS → i < v →
      logPath curName (versionChar i) ≠ logPath curName (versionChar v) := fun v hv hiv hp => by
    have := versionChar_inj (by omega) hv (logPath_inj hp)
    omega
  refine (Function.update_of_ne (hne n (by omega) hi) _ _).trans ?_
  refine (Function.update_of_ne (hne (n + 1) hn (by omega)) _ _).trans ?_
  rw [(quiet_pass s).files]

theorem movedUp_moves {curName : CString} {n i : Nat} (hn : n + 1 < LOG_VERSIONS) (hi : i < n)
    (s : Master) (l : List Nat) :
    Moves curName (s.movedUp curName n l) n i ↔ Moves curName s (n + 1) i := by
  have hahead : (s.movedUp curName n l).ahead (n - 1 - i) = s.ahead (n + 1 - 1 - i) := by
    rw [show n + 1 - 1 - i = n - 1 - i + 1 by omega, ← pass_ahead]
    rfl
  rw [Moves, Moves, movedUp_below hn hi, hahead]

theorem renameLogs_ends {curName : CString}
    (hfits : ∀ version, (logPath curName version).length < LOGFILE_PATH_LENGTH) :
    ∀ {n : Nat}, n < LOG_VERSIONS → ∀ s, Ends (renameLogs curName n) s fun moved s' =>
      moved = true ∧ (∀ i < n, Moves curName s n i) ∨
        moved = false ∧ ∃ p, StuckAt curName s n p s'
  | 0, _, s => .ret (.inl ⟨rfl, nofun⟩)
  | n + 1, hn, s => by
    rw [renameLogs]
    refine .run (sprintfPath_run (hfits _) s) (.run (sprintfPath_run (hfits _) s) ?_)
    have hrename := rename_run (logPath curName (versionChar n))
      (logPath curName (versionChar (n + 1))) s
    have hahead : s.ahead (n + 1 - 1 - n) = s.answers := by
      rw [Nat.add_sub_cancel, Nat.sub_self]
      rfl
    -- the move fails, and the loop is left
    have hstuck : ¬ Moves curName s (n + 1) n →
        rename (logPath curName (versionChar n)) (logPath curName (versionChar (n + 1))) s =
          .ok (-1, s.pass) →
        Ends (do
          if (← rename (logPath curName (versionChar n))
              (logPath curName (versionChar (n + 1)))) = -1 then
            sf_error "Unable to logrotate files"
            return false
          else
            renameLogs curName n) s fun moved s' =>
          moved = true ∧ (∀ i < n + 1, Moves curName s (n + 1) i) ∨
            moved = false ∧ ∃ p, StuckAt curName s (n + 1) p s' := fun hnot hrun => by
      refine .run hrun ?_
      rw [if_pos rfl]
      refine .of_eq rfl (.inr ⟨rfl, n, Nat.lt_succ_self n, hnot, fun i h₁ h₂ => ?_, fun _ => ?_,
        fun h => ?_⟩)
      · omega
      · exact (quiet_pass s).files
      · omega
    cases hfile : s.kernel.files (logPath curName (versionChar n)) with
    | none =>
      rw [hfile] at hrename
      exact hstuck (fun h => h.1 hfile) hrename
    | some l =>
      rw [hfile] at hrename
      by_cases hanswer : s.answers.rename = -1
      · simp only [if_pos hanswer] at hrename
        exact hstuck (fun h => h.2 (hahead ▸ hanswer)) hrename
      · simp only [if_neg hanswer] at hrename
        have hmoves : Moves curName s (n + 1) n :=
          ⟨by rw [hfile]; exact Option.some_ne_none _, hahead ▸ hanswer⟩
        refine .run hrename ?_
        rw [if_neg (by decide)]
        refine (renameLogs_ends hfits (by omega) (s.movedUp curName n l)).mono fun moved s' h => ?_
        rcases h with ⟨hmoved, hall⟩ | ⟨hmoved, p, hp⟩
        · refine .inl ⟨hmoved, fun i hi => ?_⟩
          rcases Nat.lt_succ_iff_lt_or_eq.mp hi with hi | rfl
          · exact (movedUp_moves hn hi s l).mp (hall i hi)
          · exact hmoves
        · refine .inr ⟨hmoved, p, Nat.lt_succ_of_lt hp.lt,
            fun h => hp.stuck ((movedUp_moves hn hp.lt s l).mpr h), fun i h₁ h₂ => ?_,
            fun h => absurd hp.lt (by omega), fun _ => ?_⟩
          · rcases Nat.lt_succ_iff_lt_or_eq.mp h₂ with h₂ | rfl
            · exact (movedUp_moves hn h₂ s l).mp (hp.above i h₁ h₂)
            · exact hmoves
          · by_cases hpn : p + 1 = n
            · rw [hp.first hpn, hpn]
              exact Function.update_self _ _ _
            · exact hp.later (by have := hp.lt; omega)

/-! ## The rotation -/

/-- An error leaves all logs as they were. -/
def LogsKept (curName : CString) (s : Master) : Prop :=
  ∀ s', legion_logrotate (some curName) s = .ok (LEGION_ERROR, s') →
    s'.kernel.files = s.kernel.files

/-- The log of number `i` is there, and `rename` moves it when its turn comes, after `unlink`
and the moves of those above. -/
def Movable (curName : CString) (s : Master) (i : Nat) : Prop :=
  s.kernel.files (logPath curName (versionChar i)) ≠ none ∧
    (s.ahead (LOG_VERSIONS - 1 - i)).rename ≠ -1

/-- If there is a log of the highest number, the others can all be moved; or neither is it
deleted nor the first of them moved. -/
def AllOrNothing (curName : CString) (s : Master) : Prop :=
  (logPath curName (versionChar (LOG_VERSIONS - 1))).length < LOGFILE_PATH_LENGTH →
    s.kernel.files (logPath curName (versionChar (LOG_VERSIONS - 1))) ≠ none →
      (∀ i < LOG_VERSIONS - 1, Movable curName s i) ∨
        (s.answers.unlink = -1 ∧ ¬ Movable curName s (LOG_VERSIONS - 2))

def Master.unlinked (s : Master) (curName : CString) : Master :=
  if s.answers.unlink = -1 then s.pass
  else s.pass.setFile (logPath curName (versionChar (LOG_VERSIONS - 1))) none

theorem unlink_run (curName : CString) (s : Master) :
    unlink (logPath curName (versionChar (LOG_VERSIONS - 1))) s =
      .ok ((), s.unlinked curName) := by
  have hrun : unlink (logPath curName (versionChar (LOG_VERSIONS - 1))) s =
      (if s.answers.unlink ≠ -1 then
        modify fun s => s.setFile (logPath curName (versionChar (LOG_VERSIONS - 1))) none
      else pure () : Exec Master Unit) s.pass := rfl
  rw [hrun, Master.unlinked]
  by_cases h : s.answers.unlink = -1
  · rw [if_neg (not_not_intro h), if_pos h]
    rfl
  · rw [if_pos h, if_neg h]
    rfl

theorem unlinked_moves {curName : CString} {s : Master} {i : Nat} (hi : i < LOG_VERSIONS - 1) :
    Moves curName (s.unlinked curName) (LOG_VERSIONS - 1) i ↔ Movable curName s i := by
  have hne : logPath curName (versionChar i) ≠
      logPath curName (versionChar (LOG_VERSIONS - 1)) := fun hp => by
    have := versionChar_inj (by omega) (by decide) (logPath_inj hp)
    omega
  have hfiles : (s.unlinked curName).kernel.files (logPath curName (versionChar i)) =
      s.kernel.files (logPath curName (versionChar i)) := by
    unfold Master.unlinked
    split
    · rw [(quiet_pass s).files]
    · refine (Function.update_of_ne hne _ _).trans ?_
      rw [(quiet_pass s).files]
  have hahead : (s.unlinked curName).ahead (LOG_VERSIONS - 1 - 1 - i) =
      s.ahead (LOG_VERSIONS - 1 - i) := by
    rw [show LOG_VERSIONS - 1 - i = LOG_VERSIONS - 1 - 1 - i + 1 by omega, ← pass_ahead]
    unfold Master.unlinked
    split <;> rfl
  rw [Moves, Movable, hfiles, hahead]

theorem restart_success {curName : CString} {version : Char} {r : Int} {s s' : Master}
    (h : restart curName version s = .ok (r, s')) : r = LEGION_SUCCESS := by
  obtain ⟨_, _, _, h⟩ := bind_eq_ok h
  obtain ⟨_, _, _, h⟩ := bind_eq_ok h
  obtain ⟨_, _, _, h⟩ := bind_eq_ok h
  obtain ⟨_, _, _, h⟩ := bind_eq_ok h
  cases h
  rfl

/-- The rotation of an active daemon. -/
theorem Stopping.logrotate_eq {s : Master} {curName : CString} {i : Nat} {d : DaemonNode}
    (h : Stopping s curName i d) :
    legion_logrotate (some curName) s = returning (legion_logrotate_node curName) s := by
  have hfind : legion_daemon_name_exists (some curName) s = .ok (some i, s) := by
    rw [name_exists_run, h.found]
  refine returning_congr ((bind_ok hfind).trans ((bind_ok (node_run h.node)).trans ?_))
  rw [if_neg (not_not_intro h.active)]
  rfl

/-- With all numbers in use. -/
theorem logrotate_node_full {curName : CString} {s : Master}
    (hfits : (logPath curName (versionChar (LOG_VERSIONS - 1))).length < LOGFILE_PATH_LENGTH)
    (hfull : s.kernel.files (logPath curName (versionChar (LOG_VERSIONS - 1))) ≠ none) :
    legion_logrotate_node curName s = (do
      if ← renameLogs curName (LOG_VERSIONS - 1) then
        restart curName '0'
      else
        return LEGION_ERROR) (s.unlinked curName) := by
  rw [legion_logrotate_node, bind_ok (sprintfPath_run hfits s), accessible, gets_bind,
    if_pos (Option.isSome_iff_ne_none.mpr hfull), bind_ok (unlink_run curName s)]

/-- An error comes from a move that fails. -/
theorem logrotate_node_error {curName : CString} {s s' : Master}
    (h : legion_logrotate_node curName s = .ok (LEGION_ERROR, s')) :
    (logPath curName (versionChar (LOG_VERSIONS - 1))).length < LOGFILE_PATH_LENGTH ∧
      s.kernel.files (logPath curName (versionChar (LOG_VERSIONS - 1))) ≠ none := by
  rw [legion_logrotate_node] at h
  obtain ⟨path, s₁, h₁, hpath⟩ := bind_eq_ok h
  obtain ⟨rfl, rfl⟩ := sprintfPath_inv h₁
  refine ⟨?_, fun hnone => ?_⟩
  · by_contra hlong
    rw [sprintfPath, if_neg hlong] at h₁
    cases h₁
  · rw [accessible, gets_bind, hnone, if_neg (by decide)] at hpath
    obtain ⟨_, _, _, hrest⟩ := bind_eq_ok hpath
    cases restart_success hrest

/-- How the moves of a rotation end. -/
theorem rotation_loop {curName : CString}
    (hfits : (logPath curName (versionChar (LOG_VERSIONS - 1))).length < LOGFILE_PATH_LENGTH)
    (s : Master) :
    Ends (renameLogs curName (LOG_VERSIONS - 1)) (s.unlinked curName) fun moved u =>
      moved = true ∧ (∀ i < LOG_VERSIONS - 1, Movable curName s i) ∨
        moved = false ∧ ∃ p, StuckAt curName (s.unlinked curName) (LOG_VERSIONS - 1) p u := by
  have hlength : ∀ version, (logPath curName version).length < LOGFILE_PATH_LENGTH :=
    fun version => by
    rw [logPath_length curName version (versionChar (LOG_VERSIONS - 1))]
    exact hfits
  refine (renameLogs_ends hlength (by decide) (s.unlinked curName)).mono fun moved u h => ?_
  exact h.imp_left fun ⟨hmoved, hall⟩ => ⟨hmoved, fun i hi => (unlinked_moves hi).mp (hall i hi)⟩

/-- The highest log has not been deleted, and nothing has been moved. -/
theorem StuckAt.nothing {curName : CString} {s u : Master}
    (h : StuckAt curName (s.unlinked curName) (LOG_VERSIONS - 1) (LOG_VERSIONS - 2) u)
    (hunlink : s.answers.unlink = -1) : u.kernel.files = s.kernel.files := by
  rw [h.first rfl, Master.unlinked, if_pos hunlink, (quiet_pass s).files]

/-- Otherwise one log is gone. -/
theorem StuckAt.something {curName : CString} {s u : Master} {p : Nat}
    (hfull : s.kernel.files (logPath curName (versionChar (LOG_VERSIONS - 1))) ≠ none)
    (h : StuckAt curName (s.unlinked curName) (LOG_VERSIONS - 1) p u)
    (hp : p + 1 = LOG_VERSIONS - 1 → s.answers.unlink ≠ -1) : u.kernel.files ≠ s.kernel.files := by
  intro hsame
  have hlt := h.lt
  by_cases hlast : p + 1 = LOG_VERSIONS - 1
  · refine hfull ?_
    rw [← hsame, h.first hlast, Master.unlinked, if_neg (hp hlast)]
    exact Function.update_self _ _ _
  · have hgone := h.later (by omega)
    rw [hsame] at hgone
    exact ((unlinked_moves (by omega)).mp (h.above (p + 1) (by omega) (by omega))).1 hgone

/-- The logs of earlier runs, without the number 3. -/
def gap : CString → Option (List Nat) := fun path =>
  if (['1', '2', '4', '5', '6'].map (logPath "lazy".toList)).contains path then some [] else none

def gapStarted : Master :=
  after (legion_start (some "lazy".toList) '0')
    (after (legion_register "lazy".toList "lazy".toList []) (.initial obedient true gap))

theorem gapStarted_active : ∃ d, Stopping gapStarted "lazy".toList 0 d :=
  ⟨gapStarted.daemons.get ⟨0, by decide +kernel⟩, by decide +kernel, rfl, by decide +kernel⟩

end StarterProjects.Legion
