import Mathlib.Data.List.Basic

/-!
# The whole blocks of a list

A list is cut into consecutive blocks of `n` elements; what is left at its end is no block.
-/

namespace Lib.Blocks

variable {α : Type*} {n : Nat} {xs : List α}

/-- The consecutive blocks of `n` elements, in order. -/
def wholeBlocks (n : Nat) (xs : List α) : List (List α) :=
  (List.range (xs.length / n)).map fun b => (xs.drop (b * n)).take n

@[simp] theorem length_wholeBlocks (n : Nat) (xs : List α) :
    (wholeBlocks n xs).length = xs.length / n := by
  simp [wholeBlocks]

theorem wholeBlocks_of_lt (h : xs.length < n) : wholeBlocks n xs = [] := by
  rw [wholeBlocks, Nat.div_eq_of_lt h, List.range_zero, List.map_nil]

/-- A list with a block to it is that block and the blocks of what follows. -/
theorem wholeBlocks_of_le (hn : 0 < n) (h : n ≤ xs.length) :
    wholeBlocks n xs = xs.take n :: wholeBlocks n (xs.drop n) := by
  have hdiv : xs.length / n = (xs.length - n) / n + 1 := by
    rw [Nat.div_eq_sub_div hn h]
  have hnext : ∀ b, (xs.drop ((b + 1) * n)).take n = ((xs.drop n).drop (b * n)).take n := by
    intro b
    rw [List.drop_drop, Nat.add_one_mul, Nat.add_comm]
  rw [wholeBlocks, wholeBlocks, hdiv, List.range_succ_eq_map, List.map_cons, List.map_map,
    List.length_drop, Nat.zero_mul, List.drop_zero]
  exact congrArg _ (List.map_congr_left fun b _ => hnext b)

/-- Every block is full. -/
theorem length_of_mem_wholeBlocks {ys : List α} (h : ys ∈ wholeBlocks n xs) : ys.length = n := by
  obtain ⟨b, hb, rfl⟩ := List.mem_map.mp h
  have hlt : b + 1 ≤ xs.length / n := List.mem_range.mp hb
  have hfits : (b + 1) * n ≤ xs.length :=
    Nat.le_trans (Nat.mul_le_mul_right n hlt) (Nat.div_mul_le_self xs.length n)
  rw [Nat.add_one_mul] at hfits
  rw [List.length_take, List.length_drop]
  omega

end Lib.Blocks
