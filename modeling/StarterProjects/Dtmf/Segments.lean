import StarterProjects.Dtmf.Detect
import Mathlib.Tactic.Linarith
import Mathlib.Tactic.NormNum
import Mathlib.Tactic.Ring

/-!
# The detection loop from run to run

The effect of the loop of `dtmf_detect` on a run of blocks with one tone depends only on the run
and on the phase before it, and silence has no effect on the phase. `detect_eq_machine` says that
the lines of the loop are those of a machine that goes through the maximal runs of the verdicts.
-/

namespace StarterProjects.Dtmf

open Lib.Runs

/-! ## The loop on a run -/

/-- What the loop keeps of the tones before: the event it would report now, and its tone. -/
structure Phase where
  startIdx : Int
  endIdx : Int
  tone : Tone

/-- The offset of a tone in the table of symbols. -/
def toneOffset (t : Tone) : Int := 4 * (t.1.val : Int) + (t.2.val : Int)

/-- The line for the current tone, where it has lasted long enough. -/
def Phase.change (p : Phase) : List Event :=
  if 240 ≤ p.endIdx - p.startIdx then [⟨p.startIdx, p.endIdx, symbolAt (toneOffset p.tone)⟩] else []

/-- The effect of a whole run of blocks. -/
def runStep (N : Nat) (σ : Option Phase) (r : Run Tone) : Phase × List Event :=
  match σ with
  | none => (⟨0, if r.first < r.last then N * (r.last + 1) else 0, r.value⟩, [])
  | some p =>
      if r.value = p.tone then ({ p with endIdx := N * (r.last + 1) }, [])
      else (⟨N * r.first, N * (r.last + 1), r.value⟩, p.change)

/-- The line after the loop; `symbol` is the one that the last rows and columns give. -/
def finishWith (symbol : Char) : Option Phase → List Event
  | none => []
  | some p => if p.endIdx > 0 then [⟨p.startIdx, p.endIdx, symbol⟩] else []

def machine (N : Nat) (symbol : Char) : Option Phase → List (Run Tone) → List Event
  | σ, [] => finishWith symbol σ
  | σ, r :: rs => (runStep N σ r).2 ++ machine N symbol (some (runStep N σ r).1) rs

/-- The loop variables hold a phase, after `i` blocks. -/
def Tracks (N i : Nat) (s : DetectState) (σ : Option Phase) : Prop :=
  s.curIdx = N * i ∧
    match σ with
    | none => s.prevRowTone = -1 ∧ s.prevColTone = -1 ∧ s.startIdx = 0 ∧ s.endIdx = 0
    | some p => s.prevRowTone = 4 * (p.tone.1.val : Int) ∧ s.prevColTone = (p.tone.2.val : Int) ∧
        s.startIdx = p.startIdx ∧ s.endIdx = p.endIdx

theorem verdict_eq_none {b : ToneTest} (h : b.verdict = none) :
    (b.level && b.row.isSome && b.col.isSome) = false := by
  obtain ⟨row, col, level⟩ := b
  cases level <;> cases row <;> cases col <;> simp_all [ToneTest.verdict]

theorem verdict_eq_some {b : ToneTest} {t : Tone} (h : b.verdict = some t) :
    b = ⟨some t.1, some t.2, true⟩ := by
  obtain ⟨row, col, level⟩ := b
  cases level <;> cases row <;> cases col <;> simp [ToneTest.verdict] at h
  subst h
  rfl

/-- The minimum duration in samples. -/
theorem duration_iff (n : Int) : ((n : Int) : ℚ) / 8000 ≥ MIN_DTMF_DURATION ↔ 240 ≤ n := by
  rw [MIN_DTMF_DURATION, ge_iff_le, div_le_div_iff₀ (by norm_num) (by norm_num)]
  constructor
  · intro h
    have h' : (3 * 8000 : Int) ≤ n * 100 := by exact_mod_cast h
    omega
  · intro h
    have h' : (3 * 8000 : Int) ≤ n * 100 := by omega
    exact_mod_cast h'

theorem change_eq {N i : Nat} {s : DetectState} {p : Phase} (h : Tracks N i s (some p)) :
    s.change = p.change := by
  obtain ⟨-, hrow, hcol, hstart, hend⟩ := h
  simp only [DetectState.change, Phase.change, duration_iff, hrow, hcol, hstart, hend, toneOffset]

/-- A block without a tone changes no phase and prints nothing. -/
theorem detectBlock_silent {N i : Nat} {b : ToneTest} {s : DetectState} {σ : Option Phase}
    (hb : b.verdict = none) (h : Tracks N i s σ) :
    Tracks N (i + 1) (detectBlock id N b s).1 σ ∧ (detectBlock id N b s).2 = [] := by
  obtain ⟨hidx, hσ⟩ := h
  have hstep : s.curIdx + N = N * ((i + 1 : Nat) : Int) := by
    rw [hidx]
    push_cast
    ring
  simp only [detectBlock, verdict_eq_none hb, id]
  exact ⟨⟨hstep, by cases σ <;> exact hσ⟩, rfl⟩

/-- A block with a tone has the effect of a run of one block. -/
theorem detectBlock_tone {N i : Nat} {b : ToneTest} {s : DetectState} {σ : Option Phase} {t : Tone}
    (hb : b.verdict = some t) (h : Tracks N i s σ) :
    Tracks N (i + 1) (detectBlock id N b s).1 (some (runStep N σ ⟨i, i, t⟩).1) ∧
      (detectBlock id N b s).2 = (runStep N σ ⟨i, i, t⟩).2 := by
  have hstep : s.curIdx + N = N * ((i + 1 : Nat) : Int) := by
    rw [h.1]
    push_cast
    ring
  rw [verdict_eq_some hb]
  cases σ with
  | none =>
      obtain ⟨-, hrow, hcol, hstart, hend⟩ := h
      have hunset : s.prevRowTone = -1 ∧ s.prevColTone = -1 := ⟨hrow, hcol⟩
      simp only [detectBlock, Option.elim_some, Option.isSome_some, Bool.and_self, if_true,
        if_pos hunset, id, runStep, Nat.lt_irrefl, if_false]
      exact ⟨⟨hstep, rfl, rfl, hstart, hend⟩, trivial⟩
  | some p =>
      have hchange := change_eq h
      obtain ⟨hidx, hrow, hcol, hstart, hend⟩ := h
      have hset : ¬(s.prevRowTone = -1 ∧ s.prevColTone = -1) := by omega
      have hsame : (4 * (t.1.val : Int) = s.prevRowTone ∧ (t.2.val : Int) = s.prevColTone) ↔
          t = p.tone := by
        rw [hrow, hcol, Prod.ext_iff, Fin.ext_iff, Fin.ext_iff]
        omega
      simp only [detectBlock, Option.elim_some, Option.isSome_some, Bool.and_self, if_true,
        if_neg hset, id, runStep, hsame]
      by_cases htone : t = p.tone
      · rw [if_pos htone, if_pos htone]
        exact ⟨⟨hstep, hrow, hcol, hstart, hstep⟩, rfl⟩
      · rw [if_neg htone, if_neg htone]
        exact ⟨⟨hstep, rfl, rfl, by rw [← hidx]; exact add_sub_cancel_right _ _, hstep⟩, hchange⟩

/-! ## The loop on a sequence of blocks -/

/-- A longer run of the same start prints the same, and moves the end only. -/
theorem runStep_extend (N : Nat) (σ : Option Phase) {i : Nat} {r : Run Tone} (h : r.last < i)
    (hle : r.first ≤ r.last) :
    runStep N (some (runStep N σ r).1) ⟨i, i, r.value⟩ =
        ((runStep N σ { r with last := i }).1, []) ∧
      (runStep N σ { r with last := i }).2 = (runStep N σ r).2 := by
  have hlt : r.first < i := by omega
  cases σ with
  | none => simp [runStep, hlt]
  | some p =>
      by_cases htone : r.value = p.tone
      · simp [runStep, htone]
      · simp [runStep, htone]

/-- The phase after the open run, and what it has printed already. -/
def openPhase (N : Nat) (σ : Option Phase) (cur : Option (Run Tone)) : Option Phase :=
  match cur with
  | none => σ
  | some r => some (runStep N σ r).1

def openEvents (N : Nat) (σ : Option Phase) (cur : Option (Run Tone)) : List Event :=
  match cur with
  | none => []
  | some r => (runStep N σ r).2

/-- The lines for the rest of the blocks. -/
def restEvents (N : Nat) (bs : List ToneTest) (s : DetectState) : List Event :=
  (detectBlocks id N bs s).2 ++ (detectBlocks id N bs s).1.finish

/-- The symbol that the last row and the last column give. -/
def lastSymbol (N : Nat) (bs : List ToneTest) (s : DetectState) : Char :=
  symbolAt ((detectBlocks id N bs s).1.curRowTone + (detectBlocks id N bs s).1.curColTone)

theorem restEvents_eq {N i : Nat} (bs : List ToneTest) {s : DetectState} (σ : Option Phase)
    (cur : Option (Run Tone)) (hcur : ∀ r ∈ cur, r.first ≤ r.last ∧ r.last < i)
    (h : Tracks N i s (openPhase N σ cur)) :
    openEvents N σ cur ++ restEvents N bs s =
      machine N (lastSymbol N bs s) σ (runsFrom i cur (bs.map ToneTest.verdict)) := by
  induction bs generalizing s σ cur i with
  | nil =>
      have hfinish : s.finish = finishWith (lastSymbol N [] s) (openPhase N σ cur) := by
        cases hphase : openPhase N σ cur with
        | none =>
            rw [hphase] at h
            simp [DetectState.finish, finishWith, h.2.2.2.2]
        | some p =>
            rw [hphase] at h
            obtain ⟨-, -, -, hstart, hend⟩ := h
            simp only [DetectState.finish, finishWith, hstart, hend, lastSymbol, detectBlocks]
      rw [restEvents, detectBlocks, List.nil_append, hfinish]
      cases cur <;> rfl
  | cons b bs ih =>
      have hrest : restEvents N (b :: bs) s =
          (detectBlock id N b s).2 ++ restEvents N bs (detectBlock id N b s).1 := by
        simp only [restEvents, detectBlocks, List.append_assoc]
      have hsymbol : lastSymbol N (b :: bs) s = lastSymbol N bs (detectBlock id N b s).1 := rfl
      have hone : ∀ v, ∀ r ∈ some (⟨i, i, v⟩ : Run Tone), r.first ≤ r.last ∧ r.last < i + 1 := by
        rintro v r ⟨⟩
        exact ⟨Nat.le_refl i, Nat.lt_succ_self i⟩
      rw [hrest, hsymbol, List.map_cons]
      -- silence ends the run that is open, a tone prolongs it or starts the next
      cases hb : b.verdict with
      | none =>
          obtain ⟨htracks, hprints⟩ := detectBlock_silent hb h
          have hnext := ih (openPhase N σ cur) none (by simp) htracks
          rw [hprints, List.nil_append]
          cases cur with
          | none => exact hnext
          | some r => exact congrArg ((runStep N σ r).2 ++ ·) hnext
      | some t =>
          obtain ⟨htracks, hprints⟩ := detectBlock_tone hb h
          rw [hprints]
          cases cur with
          | none => exact ih σ (some ⟨i, i, t⟩) (hone t) htracks
          | some r =>
              obtain ⟨hle, hlast⟩ := hcur r rfl
              by_cases hvalue : r.value = t
              · subst hvalue
                obtain ⟨hextend, hsame⟩ := runStep_extend N σ hlast hle
                have hlonger : ∀ s ∈ some ({ r with last := i } : Run Tone),
                    s.first ≤ s.last ∧ s.last < i + 1 := by
                  rintro s ⟨⟩
                  exact ⟨Nat.le_of_lt (Nat.lt_of_le_of_lt hle hlast), Nat.lt_succ_self i⟩
                rw [openPhase, hextend] at htracks
                have hnext := ih σ (some { r with last := i }) hlonger htracks
                rw [openPhase, hextend, List.nil_append, runsFrom, if_pos rfl, ← hnext]
                exact congrArg (· ++ _) hsame.symm
              · have hnext := ih (openPhase N σ (some r)) (some ⟨i, i, t⟩) (hone t) htracks
                rw [runsFrom, if_neg hvalue]
                exact congrArg ((runStep N σ r).2 ++ ·) hnext

/-- The lines are those of the machine that goes from run to run. -/
theorem detect_eq_machine (N : Nat) (tests : List ToneTest) :
    dtmf_detect_events id N tests =
      machine N (lastSymbol N tests {}) none (runs (tests.map ToneTest.verdict)) :=
  restEvents_eq (i := 0) tests none none (by simp) ⟨by simp, rfl, rfl, rfl, rfl⟩

end StarterProjects.Dtmf
