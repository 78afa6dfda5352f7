import StarterProjects.Lib.Contiguous
import Mathlib.Data.Prod.Lex
import Mathlib.Data.List.Sort

/-!
# Comparators

A comparator gives an integer for two entries, as `qsort` asks for. It follows a key on a list when
its sign is the order of the keys there. Then it orders the entries of that list, and in any sorted
arrangement of them the entries are contiguous by everything that is monotone in the key.
-/

namespace Lib

variable {α κ : Type*} [LinearOrder κ]

/-- On these entries, the sign is the order of the keys. -/
def Follows (cmp : α → α → Int) (key : α → κ) (l : List α) : Prop :=
  ∀ a ∈ l, ∀ b ∈ l, (cmp a b < 0 ↔ key a < key b) ∧ (0 < cmp a b ↔ key b < key a)

namespace Follows

variable {cmp : α → α → Int} {key : α → κ} {l : List α}

theorem le_iff (h : Follows cmp key l) {a b : α} (ha : a ∈ l) (hb : b ∈ l) :
    cmp a b ≤ 0 ↔ key a ≤ key b := by
  rw [← not_lt, (h a ha b hb).2, not_lt]

theorem eq_zero_iff (h : Follows cmp key l) {a b : α} (ha : a ∈ l) (hb : b ∈ l) :
    cmp a b = 0 ↔ key a = key b := by
  obtain ⟨hlt, hgt⟩ := h a ha b hb
  rw [eq_iff_le_not_lt, eq_iff_le_not_lt, hlt, ← not_lt, hgt, not_lt]

theorem antisymm (h : Follows cmp key l) {a b : α} (ha : a ∈ l) (hb : b ∈ l) :
    cmp a b < 0 ↔ 0 < cmp b a :=
  (h a ha b hb).1.trans (h b hb a ha).2.symm

theorem trans (h : Follows cmp key l) {a b c : α} (ha : a ∈ l) (hb : b ∈ l) (hc : c ∈ l)
    (hab : cmp a b ≤ 0) (hbc : cmp b c ≤ 0) : cmp a c ≤ 0 := by
  rw [h.le_iff ha hb] at hab
  rw [h.le_iff hb hc] at hbc
  exact (h.le_iff ha hc).mpr (hab.trans hbc)

theorem pairwise (h : Follows cmp key l) {r : List α} (hr : r ⊆ l)
    (hsorted : r.Pairwise fun a b => cmp a b ≤ 0) : r.Pairwise fun a b => key a ≤ key b :=
  hsorted.imp_of_mem fun ha hb hab => (h.le_iff (hr ha) (hr hb)).mp hab

theorem pairwise_mergeSort (h : Follows cmp key l) :
    (l.mergeSort fun a b => decide (cmp a b ≤ 0)).Pairwise fun a b => cmp a b ≤ 0 := by
  have hkeys : (l.mergeSort fun a b => decide (cmp a b ≤ 0)).map key =
      (l.map key).mergeSort fun a b => decide (a ≤ b) :=
    List.map_mergeSort fun a ha b hb => decide_eq_decide.mpr (h.le_iff ha hb)
  have hsorted := List.pairwise_mergeSort' (· ≤ ·) (l.map key)
  rw [← hkeys, List.pairwise_map] at hsorted
  have hmem := (List.mergeSort_perm l fun a b => decide (cmp a b ≤ 0)).subset
  exact hsorted.imp_of_mem fun ha hb hab => (h.le_iff (hmem ha) (hmem hb)).mpr hab

end Follows

/-- In a sorted list the entries of one value are contiguous. -/
theorem Contiguous.of_pairwise {β : Type*} [PartialOrder β] {f : α → β} {l : List α}
    (h : l.Pairwise fun a b => f a ≤ f b) : Contiguous f l := by
  intro a b c hsub heq
  have hthree := h.sublist hsub
  simp only [List.pairwise_cons, List.mem_cons, forall_eq_or_imp] at hthree
  obtain ⟨⟨hab, -⟩, ⟨hbc, -⟩, -⟩ := hthree
  exact le_antisymm (heq ▸ hbc) hab

section Lexicographic

variable {ι : Type*} [LinearOrder ι] {f : α → κ} {g : α → ι} {l : List α}

theorem Contiguous.fst_of_pairwise (h : l.Pairwise fun a b => toLex (f a, g a) ≤ toLex (f b, g b)) :
    Contiguous f l :=
  of_pairwise (h.imp fun hab => Prod.Lex.monotone_fst _ _ hab)

/-- Where the first part of the key is the same, the entries are sorted by the second. -/
theorem Contiguous.snd_of_pairwise (h : l.Pairwise fun a b => toLex (f a, g a) ≤ toLex (f b, g b))
    (v : κ) : Contiguous g (l.filter fun e => decide (f e = v)) := by
  refine of_pairwise ((h.filter _).imp_of_mem fun ha hb hab => ?_)
  have hfa := of_decide_eq_true (List.mem_filter.mp ha).2
  have hfb := of_decide_eq_true (List.mem_filter.mp hb).2
  rcases Prod.Lex.toLex_le_toLex.mp hab with hlt | ⟨-, hle⟩
  · exact absurd hlt (by simp [hfa, hfb])
  · exact hle

end Lexicographic

end Lib
