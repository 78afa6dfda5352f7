import Mathlib.Data.List.Basic
import Mathlib.Tactic.Common

/-!
# The lines of a stream

A line goes up to its newline `nl`, which it includes; the last one may lack it. Reading line after
line gives all of the stream (`flatten_lines`), and a line is found again at the offset where it
began (`first_at`).
-/

namespace Lib.Lines

variable {α : Type*} (nl : α)

/-- No line is cut at the end. -/
def Whole (s : List α) : Prop := ∀ c ∈ s.getLast?, c = nl

variable [DecidableEq α]

/-- The first line, and what is left after it. -/
def first : List α → List α × List α
  | [] => ([], [])
  | c :: cs => if c = nl then ([c], cs) else (c :: (first cs).1, (first cs).2)

def lines : List α → List (List α)
  | [] => []
  | c :: cs =>
      if c = nl then [c] :: lines cs
      else match lines cs with
        | [] => [[c]]
        | l :: ls => (c :: l) :: ls

variable {nl}

@[simp] theorem flatten_lines (s : List α) : (lines nl s).flatten = s := by
  induction s with
  | nil => rfl
  | cons c cs ih =>
      rw [lines]
      split
      · simp [ih]
      · split <;> rename_i heq <;> rw [heq] at ih <;> simp [← ih]

theorem lines_eq_nil_iff {s : List α} : lines nl s = [] ↔ s = [] := by
  constructor
  · intro h
    rw [← @flatten_lines α nl _ s, h]
    rfl
  · rintro rfl
    rfl

theorem lines_cons_of_ne {c : α} (hc : c ≠ nl) (cs : List α) :
    lines nl (c :: cs) = (c :: (first nl cs).1) :: lines nl (first nl cs).2 := by
  induction cs generalizing c with
  | nil => simp [lines, first, hc]
  | cons d cs ih =>
      rw [lines, if_neg hc]
      by_cases hd : d = nl
      · simp [lines, first, hd]
      · rw [ih hd, first, if_neg hd]

/-- A stream that is not at its end is its first line, and the lines of what is left. -/
theorem lines_eq_first {s : List α} (h : s ≠ []) :
    lines nl s = (first nl s).1 :: lines nl (first nl s).2 := by
  cases s with
  | nil => exact absurd rfl h
  | cons c cs =>
      by_cases hc : c = nl
      · simp [lines, first, hc]
      · rw [lines_cons_of_ne hc, first, if_neg hc]

theorem ne_nil_of_mem_lines {s l : List α} (h : l ∈ lines nl s) : l ≠ [] := by
  induction s generalizing l with
  | nil => exact absurd h List.not_mem_nil
  | cons c cs ih =>
      rw [lines] at h
      split at h
      · rcases List.mem_cons.mp h with rfl | htail
        · simp
        · exact ih htail
      · split at h
        · simp_all
        · rename_i l' ls heq
          rcases List.mem_cons.mp h with rfl | htail
          · simp
          · exact ih (heq ▸ List.mem_cons_of_mem l' htail)

theorem lines_append {as : List α} (h : Whole nl as) (bs : List α) :
    lines nl (as ++ bs) = lines nl as ++ lines nl bs := by
  induction as with
  | nil => rfl
  | cons c cs ih =>
      cases cs with
      | nil =>
          have hc : c = nl := h c (by simp)
          simp [lines, hc]
      | cons d cs =>
          have hrest := ih fun x hx => h x (by simpa using hx)
          rw [List.cons_append, lines, hrest]
          by_cases hc : c = nl
          · simp [lines, hc]
          · rw [if_neg hc, lines.eq_2 nl c (d :: cs), if_neg hc]
            cases hlines : lines nl (d :: cs) with
            | nil => exact absurd (lines_eq_nil_iff.mp hlines) (List.cons_ne_nil d cs)
            | cons l ls => rfl

theorem first_append (s : List α) : (first nl s).1 ++ (first nl s).2 = s := by
  induction s with
  | nil => rfl
  | cons c cs ih =>
      rw [first]
      split
      · rfl
      · exact congrArg (c :: ·) ih

/-- The lines from an offset where one begins. -/
theorem lines_drop {s : List α} {pre post : List (List α)} (h : lines nl s = pre ++ post) :
    lines nl (s.drop pre.flatten.length) = post := by
  induction pre generalizing s with
  | nil => simpa using h
  | cons x pre ih =>
      have hne : s ≠ [] := fun hs => by simp [hs, lines] at h
      rw [lines_eq_first hne, List.cons_append, List.cons.injEq] at h
      have hdrop : s.drop x.length = (first nl s).2 := by
        conv_lhs => rw [← @first_append α nl _ s, h.1]
        exact List.drop_left
      rw [List.flatten_cons, List.length_append, ← List.drop_drop, hdrop]
      exact ih h.2

/-- The line that begins at an offset. -/
theorem first_at {s : List α} {pre : List (List α)} {l : List α} {post : List (List α)}
    (h : lines nl s = pre ++ l :: post) : (first nl (s.drop pre.flatten.length)).1 = l := by
  have hdrop := lines_drop h
  have hne : s.drop pre.flatten.length ≠ [] := fun hnil => by
    rw [hnil] at hdrop
    exact absurd hdrop (List.cons_ne_nil l post).symm
  rw [lines_eq_first hne, List.cons.injEq] at hdrop
  exact hdrop.1

/-! ## A part of a line -/

theorem first_append_of_not_mem {u : List α} (h : nl ∉ u) (v : List α) :
    first nl (u ++ v) = (u ++ (first nl v).1, (first nl v).2) := by
  induction u with
  | nil => rfl
  | cons c u ih =>
      rw [List.mem_cons, not_or] at h
      rw [List.cons_append, first, if_neg (Ne.symm h.1), ih h.2]
      rfl

/-- What comes before the last line of an unfinished stream. -/
theorem exists_whole_append (s : List α) : ∃ pre x, s = pre ++ x ∧ Whole nl pre ∧ nl ∉ x := by
  induction s with
  | nil => exact ⟨[], [], rfl, fun c hc => absurd hc (by simp), List.not_mem_nil⟩
  | cons c s ih =>
      obtain ⟨pre, x, rfl, hpre, hx⟩ := ih
      by_cases hc : pre = [] ∧ c ≠ nl
      · obtain ⟨rfl, hne⟩ := hc
        refine ⟨[], c :: x, rfl, fun d hd => absurd hd (by simp), ?_⟩
        rw [List.mem_cons, not_or]
        exact ⟨Ne.symm hne, hx⟩
      · refine ⟨c :: pre, x, rfl, fun d hd => ?_, hx⟩
        cases pre with
        | nil =>
            obtain rfl : c = d := by simpa using hd
            exact not_not.mp fun hne => hc ⟨rfl, hne⟩
        | cons p pre => exact hpre d (by simpa using hd)

/-- Text without a newline stands in one line, whatever text of the kind it is. -/
theorem lines_window (before after : List α) : ∃ pre x y post, before = pre.flatten ++ x ∧ nl ∉ x ∧
    ∀ w, w ≠ [] → nl ∉ w → lines nl (before ++ w ++ after) = pre ++ (x ++ w ++ y) :: post := by
  obtain ⟨start, x, rfl, hstart, hx⟩ := @exists_whole_append α nl _ before
  refine ⟨lines nl start, x, (first nl after).1, lines nl (first nl after).2, by simp, hx, ?_⟩
  intro w hw hnl
  have hline : nl ∉ x ++ w := by
    rw [List.mem_append, not_or]
    exact ⟨hx, hnl⟩
  have hne : x ++ w ++ after ≠ [] := by simp [hw]
  rw [List.append_assoc start, List.append_assoc start, lines_append hstart, lines_eq_first hne,
    first_append_of_not_mem hline]

end Lib.Lines
