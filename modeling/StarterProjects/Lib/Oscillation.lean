import Mathlib.Algebra.BigOperators.Field
import Mathlib.Algebra.Ring.GeomSum
import Mathlib.Analysis.SpecialFunctions.Trigonometric.Bounds

/-!
# Oscillations and their spectrum

A stretch of a signal that is taken `R` times in a unit of time, and the sum of its products with
an oscillation of frequency `F`. What a full turn adds up to cancels, so an oscillation of another
frequency leaves a sum that does not grow with the stretch (`norm_spectrumAt_cosine_le`). One of the
frequency `F` itself leaves half the length of the stretch (`norm_spectrumAt_cosine_self`). Neither
depends on the phase.
-/

namespace Lib.Oscillation

open Finset
open Complex (I)

noncomputable section

/-- The literal 2 of the reals rests on this. -/
local instance atLeastTwo_two : Nat.AtLeastTwo 2 := ⟨by decide⟩

/-- A cosine from the index `s` on. -/
def cosine (R f : ℝ) (s n : ℕ) : ℝ := Real.cos (2 * Real.pi * f * (s + n : ℕ) / R)

def spectrumAt (R F : ℝ) (x : ℕ → ℝ) (N : ℕ) : ℂ :=
  ∑ n ∈ range N, x n * Complex.exp (-2 * Real.pi * I * F * n / R)

/-- The sum of the first values of an oscillation. -/
def turns (R f : ℝ) (N : ℕ) : ℂ :=
  ∑ n ∈ range N, Complex.exp (((2 * Real.pi * f / R : ℝ) : ℂ) * I) ^ n

end

/-! ## Turns -/

section Turns

variable {R f : ℝ} {N : ℕ}

@[simp] theorem turns_zero (R : ℝ) (N : ℕ) : turns R 0 N = N := by
  simp [turns]

theorem norm_pow_sub_one_le (θ : ℝ) (n : ℕ) : ‖Complex.exp ((θ : ℂ) * I) ^ n - 1‖ ≤ 2 := by
  have hpow : ‖Complex.exp ((θ : ℂ) * I) ^ n‖ = 1 := by
    rw [norm_pow, Complex.norm_exp_ofReal_mul_I, one_pow]
  refine (norm_sub_le _ _).trans ?_
  rw [hpow, norm_one]
  norm_num

/-- A turn is as far from standing still as its angle is from a full circle. -/
theorem norm_turn_sub_one (θ : ℝ) :
    ‖Complex.exp ((θ : ℂ) * I) - 1‖ = 2 * |Real.sin (θ / 2)| := by
  rw [mul_comm, Complex.norm_exp_I_mul_ofReal_sub_one, Real.norm_eq_abs, abs_mul, abs_two]

theorem norm_turns_le (hR : 0 < R) (hf : f ≠ 0) (hhalf : 2 * |f| ≤ R) (N : ℕ) :
    ‖turns R f N‖ ≤ R / (2 * |f|) := by
  have hpos : 0 < |f| := abs_pos.mpr hf
  have hπ := Real.pi_pos
  have hangle : 2 * Real.pi * f / R / 2 = Real.pi * (f / R) := by ring
  have hturn : |Real.pi * (f / R)| = Real.pi * (|f| / R) := by
    rw [abs_mul, abs_div, abs_of_pos hπ, abs_of_pos hR]
  have hquarter : |Real.pi * (f / R)| ≤ Real.pi / 2 := by
    rw [hturn, div_eq_mul_one_div Real.pi 2]
    refine mul_le_mul_of_nonneg_left ?_ hπ.le
    rw [div_le_div_iff₀ hR two_pos]
    linarith
  have hsin : 2 * (|f| / R) ≤ |Real.sin (Real.pi * (f / R))| := by
    have hjordan := Real.mul_abs_le_abs_sin hquarter
    rwa [hturn, ← mul_assoc, div_mul_cancel₀ _ hπ.ne'] at hjordan
  have hgeom : ‖turns R f N‖ * (2 * |Real.sin (Real.pi * (f / R))|) ≤ 2 := by
    rw [← hangle, ← norm_turn_sub_one, ← norm_mul, turns, geom_sum_mul]
    exact norm_pow_sub_one_le _ N
  have hstep : 0 < |f| / R := div_pos hpos hR
  rw [le_div_iff₀ (by positivity)]
  have hprod : ‖turns R f N‖ * (2 * (2 * (|f| / R))) ≤ 2 :=
    (mul_le_mul_of_nonneg_left (by linarith) (norm_nonneg _)).trans hgeom
  have hscale : ‖turns R f N‖ * (2 * |f|) =
      ‖turns R f N‖ * (2 * (2 * (|f| / R))) * (R / 2) := by
    field_simp
  rw [hscale]
  calc ‖turns R f N‖ * (2 * (2 * (|f| / R))) * (R / 2)
      ≤ 2 * (R / 2) := mul_le_mul_of_nonneg_right hprod (by linarith)
    _ = R := by ring

end Turns

/-! ## The spectrum of a cosine -/

section Cosine

variable {R F f : ℝ}

/-- A cosine is half of a turn forwards and half of one backwards. -/
theorem spectrumAt_cosine (hR : R ≠ 0) (F f : ℝ) (s N : ℕ) :
    spectrumAt R F (cosine R f s) N =
      (Complex.exp (((2 * Real.pi * f * s / R : ℝ) : ℂ) * I) * turns R (f - F) N +
        Complex.exp (((-(2 * Real.pi * f * s / R) : ℝ) : ℂ) * I) * turns R (-f - F) N) / 2 := by
  have hR' : (R : ℂ) ≠ 0 := Complex.ofReal_ne_zero.mpr hR
  rw [spectrumAt, turns, turns, mul_sum, mul_sum, ← sum_add_distrib, sum_div]
  refine sum_congr rfl fun n _ => ?_
  have hforth : ((2 * Real.pi * f * (s + n : ℕ) / R : ℝ) : ℂ) * I + -2 * Real.pi * I * F * n / R =
      ((2 * Real.pi * f * s / R : ℝ) : ℂ) * I +
        n * (((2 * Real.pi * (f - F) / R : ℝ) : ℂ) * I) := by
    push_cast
    field_simp
    ring
  have hback : -((2 * Real.pi * f * (s + n : ℕ) / R : ℝ) : ℂ) * I + -2 * Real.pi * I * F * n / R =
      ((-(2 * Real.pi * f * s / R) : ℝ) : ℂ) * I +
        n * (((2 * Real.pi * (-f - F) / R : ℝ) : ℂ) * I) := by
    push_cast
    field_simp
    ring
  rw [cosine, Complex.ofReal_cos, Complex.cos, ← Complex.exp_nat_mul, ← Complex.exp_nat_mul,
    ← Complex.exp_add, ← Complex.exp_add, div_mul_eq_mul_div, add_mul, ← Complex.exp_add,
    ← Complex.exp_add, hforth, hback]

theorem norm_phase_mul (θ : ℝ) (z : ℂ) : ‖Complex.exp ((θ : ℂ) * I) * z‖ = ‖z‖ := by
  rw [norm_mul, Complex.norm_exp_ofReal_mul_I, one_mul]

/-- At another frequency. -/
theorem norm_spectrumAt_cosine_le (hF : 0 < F) (hf : 0 < f) (hne : f ≠ F) (hhalf : 2 * (f + F) ≤ R)
    (s N : ℕ) :
    ‖spectrumAt R F (cosine R f s) N‖ ≤ R / 4 * (1 / |f - F| + 1 / (f + F)) := by
  have hR : 0 < R := by linarith
  have hnear : |f - F| ≤ f + F := abs_sub_le_iff.mpr ⟨by linarith, by linarith⟩
  have hsum : |-f - F| = f + F := by
    rw [abs_of_neg (by linarith)]
    ring
  have hdiff := norm_turns_le hR (sub_ne_zero.mpr hne) (by linarith) N
  have hback := norm_turns_le hR (show -f - F ≠ 0 by linarith) (by rw [hsum]; exact hhalf) N
  rw [hsum] at hback
  have hpos : 0 < |f - F| := abs_pos.mpr (sub_ne_zero.mpr hne)
  rw [spectrumAt_cosine hR.ne', norm_div, RCLike.norm_ofNat]
  have hadd := norm_add_le
    (Complex.exp (((2 * Real.pi * f * s / R : ℝ) : ℂ) * I) * turns R (f - F) N)
    (Complex.exp (((-(2 * Real.pi * f * s / R) : ℝ) : ℂ) * I) * turns R (-f - F) N)
  rw [norm_phase_mul, norm_phase_mul] at hadd
  have hright : R / 4 * (1 / |f - F| + 1 / (f + F)) =
      (R / (2 * |f - F|) + R / (2 * (f + F))) / 2 := by
    field_simp
    ring
  rw [hright]
  linarith

/-- At its own frequency. -/
theorem norm_spectrumAt_cosine_self (hf : 0 < f) (hhalf : 4 * f ≤ R) (s N : ℕ) :
    |‖spectrumAt R f (cosine R f s) N‖ - N / 2| ≤ R / (8 * f) := by
  have hR : 0 < R := by linarith
  have hsum : |-f - f| = 2 * f := by
    rw [abs_of_neg (by linarith)]
    ring
  have hback := norm_turns_le hR (show -f - f ≠ 0 by linarith) (by rw [hsum]; linarith) N
  rw [hsum] at hback
  have hmain : ‖(Complex.exp (((2 * Real.pi * f * s / R : ℝ) : ℂ) * I) * turns R (f - f) N) / 2‖ =
      N / 2 := by
    rw [norm_div, norm_phase_mul, sub_self, turns_zero, RCLike.norm_natCast, RCLike.norm_ofNat]
  have hrest : ‖(Complex.exp (((-(2 * Real.pi * f * s / R) : ℝ) : ℂ) * I) *
      turns R (-f - f) N) / 2‖ ≤ R / (8 * f) := by
    rw [norm_div, norm_phase_mul, RCLike.norm_ofNat]
    refine (div_le_div_of_nonneg_right hback two_pos.le).trans (le_of_eq ?_)
    field_simp
    norm_num
  rw [spectrumAt_cosine hR.ne', add_div, ← hmain]
  refine (abs_norm_sub_norm_le _ _).trans ?_
  rw [add_sub_cancel_left]
  exact hrest

end Cosine

/-! ## Sums and small signals -/

section Spectrum

variable {R F : ℝ}

theorem spectrumAt_add (R F : ℝ) (x y : ℕ → ℝ) (N : ℕ) :
    spectrumAt R F (fun n => x n + y n) N = spectrumAt R F x N + spectrumAt R F y N := by
  rw [spectrumAt, spectrumAt, spectrumAt, ← sum_add_distrib]
  refine sum_congr rfl fun n _ => ?_
  push_cast
  ring

theorem spectrumAt_mul (R F : ℝ) (x : ℕ → ℝ) (c : ℝ) (N : ℕ) :
    spectrumAt R F (fun n => x n * c) N = spectrumAt R F x N * c := by
  rw [spectrumAt, spectrumAt, sum_mul]
  refine sum_congr rfl fun n _ => ?_
  push_cast
  ring

theorem norm_oscillation (R F : ℝ) (n : ℕ) :
    ‖Complex.exp (-2 * Real.pi * I * F * n / R)‖ = 1 := by
  have harg : (-2 * Real.pi * I * F * n / R : ℂ) =
      ((-2 * Real.pi * F * n / R : ℝ) : ℂ) * I := by
    push_cast
    ring
  rw [harg, Complex.norm_exp_ofReal_mul_I]

theorem norm_spectrumAt_le {x : ℕ → ℝ} {N : ℕ} {δ : ℝ} (hx : ∀ n < N, |x n| ≤ δ) :
    ‖spectrumAt R F x N‖ ≤ N * δ := by
  have hterm : ∀ n ∈ range N, ‖(x n : ℂ) * Complex.exp (-2 * Real.pi * I * F * n / R)‖ ≤ δ := by
    intro n hn
    rw [norm_mul, norm_oscillation, mul_one, Complex.norm_real]
    exact hx n (mem_range.mp hn)
  have hsum := norm_sum_le_of_le (range N) hterm
  rwa [sum_const, card_range, nsmul_eq_mul] at hsum

end Spectrum

end Lib.Oscillation
