import Mathlib.Algebra.BigOperators.Intervals
import Mathlib.Algebra.BigOperators.Ring.Finset
import Mathlib.Tactic.LinearCombination
import Mathlib.Tactic.Ring

/-!
# Second-order recurrences

A filter that keeps its last two values, `s = (z + w) * s1 + x - s2`, run on a sequence. Where
`z * w = 1`, one step multiplies `s1 - w * s2` by `z` and adds the input (`resonate_step`), so after
`n` steps it is the polynomial in `z` whose coefficients are the inputs (`resonate_sum`).
-/

namespace Lib.Resonator

open Finset

variable {R : Type*} [CommRing R]

/-- The last two values of the filter after `n` inputs, the newer one first. -/
def resonate (b : R) (x : ℕ → R) : ℕ → R × R
  | 0 => (0, 0)
  | n + 1 => (b * (resonate b x n).1 + x n - (resonate b x n).2, (resonate b x n).1)

/-- A ring homomorphism carries a filter to a filter. -/
theorem resonate_map {S : Type*} [CommRing S] (f : R →+* S) (b : R) (x : ℕ → R) (n : ℕ) :
    resonate (f b) (fun m => f (x m)) n = ((f (resonate b x n).1), f (resonate b x n).2) := by
  induction n with
  | zero => simp [resonate]
  | succ n ih => simp only [resonate, ih, map_sub, map_add, map_mul]

theorem resonate_step {z w : R} (h : z * w = 1) (s₁ s₂ x : R) :
    ((z + w) * s₁ + x - s₂) - w * s₁ = z * (s₁ - w * s₂) + x := by
  linear_combination s₂ * h

theorem resonate_sum {z w : R} (h : z * w = 1) (x : ℕ → R) (n : ℕ) :
    (resonate (z + w) x n).1 - w * (resonate (z + w) x n).2 =
      ∑ m ∈ range n, x m * z ^ (n - 1 - m) := by
  induction n with
  | zero => simp [resonate]
  | succ n ih =>
      have shift : ∀ m ∈ range n, z * (x m * z ^ (n - 1 - m)) = x m * z ^ (n + 1 - 1 - m) := by
        intro m hm
        have hlt := mem_range.mp hm
        have hexp : n + 1 - 1 - m = (n - 1 - m) + 1 := by omega
        rw [hexp, pow_succ]
        ring
      rw [resonate, resonate_step h, ih, sum_range_succ, mul_sum, sum_congr rfl shift]
      simp

end Lib.Resonator
