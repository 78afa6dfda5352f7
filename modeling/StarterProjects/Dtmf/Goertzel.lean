import StarterProjects.Lib.Resonator
import Mathlib.Analysis.SpecialFunctions.Trigonometric.Basic

/-!
# `goertzel.c`

The Goertzel filter over exact real arithmetic: a `double` is a real number, `M_PI` is `π`, and
`N` is the 32-bit word the source squares before it divides.

The final product of the source takes `s0 - s1 * exp(iA)` where the closed form of the recurrence
has `s0 - s1 * exp(-iA)`. The two are the values of one polynomial at conjugate points, so the
complex result is not the transform of the signal but its squared magnitude is
(`goertzel_strength_run`).
-/

namespace StarterProjects.Dtmf

open Finset Lib.Resonator
open Complex (I)

noncomputable section

structure GoertzelState where
  N : BitVec 32
  k : ℝ
  A : ℝ
  B : ℝ
  s0 : ℝ
  s1 : ℝ
  s2 : ℝ

def goertzel_init (N : BitVec 32) (k : ℝ) : GoertzelState where
  A := (2 * Real.pi) * (k / N.toNat)
  B := Real.cos ((2 * Real.pi) * (k / N.toNat)) * 2
  k := k
  N := N
  s0 := 0
  s1 := 0
  s2 := 0

def goertzel_step (gp : GoertzelState) (x : ℝ) : GoertzelState :=
  let s0 := gp.B * gp.s1 + x - gp.s2
  { gp with s0 := s0, s2 := gp.s1, s1 := s0 }

/-- `gp->s0` as the last step leaves it. -/
def lastValue (gp : GoertzelState) (x : ℝ) : ℝ := gp.B * gp.s1 + x - gp.s2

/-- Returns the strength and the state it leaves. -/
def goertzel_strength (gp : GoertzelState) (x : ℝ) : ℝ × GoertzelState :=
  let constant_c_real := Real.cos gp.A
  let constant_c_imag := -1 * Real.sin gp.A
  let constant_d_real := Real.cos (gp.A * (gp.N.toNat - 1))
  let constant_d_imag := -1 * Real.sin (gp.A * (gp.N.toNat - 1))
  let gp := { gp with s0 := lastValue gp x }
  let y_A := -1 * gp.s1 * constant_c_real + gp.s0
  let y_B := gp.s1 * constant_c_imag
  let y_C := constant_d_real
  let y_D := constant_d_imag
  let y_real := y_A * y_C - y_B * y_D
  let y_imag := y_A * y_D + y_B * y_C
  let sqrd_mag_y := y_real ^ 2 + y_imag ^ 2
  let complete_y := 2 * sqrd_mag_y / ((gp.N * gp.N).toNat : ℝ)
  (complete_y, gp)

/-- The state after `n` steps on the samples `x 0`, ..., `x (n - 1)`. -/
def goertzel_steps (gp : GoertzelState) (x : ℕ → ℝ) : ℕ → GoertzelState
  | 0 => gp
  | n + 1 => goertzel_step (goertzel_steps gp x n) (x n)

/-- `exp(-2πi k n / N)`. -/
def twiddle (N : ℕ) (k : ℝ) (n : ℕ) : ℂ := Complex.exp (-2 * Real.pi * I * k * n / N)

end

/-! ## The steps are the recurrence -/

section Steps

variable (gp : GoertzelState) (x : ℕ → ℝ)

@[simp] theorem goertzel_steps_A (n : ℕ) : (goertzel_steps gp x n).A = gp.A := by
  induction n with
  | zero => rfl
  | succ n ih => exact ih

@[simp] theorem goertzel_steps_B (n : ℕ) : (goertzel_steps gp x n).B = gp.B := by
  induction n with
  | zero => rfl
  | succ n ih => exact ih

@[simp] theorem goertzel_steps_N (n : ℕ) : (goertzel_steps gp x n).N = gp.N := by
  induction n with
  | zero => rfl
  | succ n ih => exact ih

theorem goertzel_steps_resonate (h₁ : gp.s1 = 0) (h₂ : gp.s2 = 0) (n : ℕ) :
    ((goertzel_steps gp x n).s1, (goertzel_steps gp x n).s2) = resonate gp.B x n := by
  induction n with
  | zero => simp [goertzel_steps, resonate, h₁, h₂]
  | succ n ih =>
      have hB := goertzel_steps_B gp x n
      rw [resonate, ← ih]
      simp only [goertzel_steps, goertzel_step, hB]

/-- What the last step of `goertzel_strength` computes, on a fresh filter after `n` steps. -/
theorem lastValue_resonate (h₁ : gp.s1 = 0) (h₂ : gp.s2 = 0) (n : ℕ) :
    (lastValue (goertzel_steps gp x n) (x n), (goertzel_steps gp x n).s1) =
      resonate gp.B x (n + 1) := by
  have h := goertzel_steps_resonate gp x h₁ h₂ n
  rw [resonate, ← h, lastValue, goertzel_steps_B]

end Steps

/-! ## The strength -/

/-- The angle of the filter for `N` samples and frequency index `k`. -/
noncomputable def angle (N : ℕ) (k : ℝ) : ℝ := (2 * Real.pi) * (k / N)

theorem exp_mul_exp_neg (A : ℝ) : Complex.exp (-(A * I)) * Complex.exp (A * I) = 1 := by
  rw [← Complex.exp_add, neg_add_cancel, Complex.exp_zero]

theorem exp_neg_eq (A : ℝ) : Complex.exp (-(A * I)) = Real.cos A - Real.sin A * I := by
  rw [← neg_mul, Complex.exp_mul_I, Complex.cos_neg, Complex.sin_neg, Complex.ofReal_cos,
    Complex.ofReal_sin]
  ring

theorem exp_add_exp_neg (A : ℝ) :
    Complex.exp (-(A * I)) + Complex.exp (A * I) = ((Real.cos A * 2 : ℝ) : ℂ) := by
  rw [exp_neg_eq, Complex.exp_mul_I, Complex.ofReal_mul, Complex.ofReal_cos, Complex.ofReal_sin,
    Complex.ofReal_ofNat]
  ring

theorem twiddle_eq_pow (N : ℕ) (k : ℝ) (n : ℕ) :
    twiddle N k n = Complex.exp (-(angle N k * I)) ^ n := by
  rw [twiddle, angle, ← Complex.exp_nat_mul]
  congr 1
  push_cast
  ring

/-- The strength in terms of the complex number whose product the source takes. -/
theorem goertzel_strength_eq (gp : GoertzelState) (x : ℝ) :
    (goertzel_strength gp x).1 =
      2 * Complex.normSq (lastValue gp x - Complex.exp (gp.A * I) * gp.s1) /
        ((gp.N * gp.N).toNat : ℝ) := by
  have hphase : Real.cos (gp.A * (gp.N.toNat - 1)) ^ 2 +
      Real.sin (gp.A * (gp.N.toNat - 1)) ^ 2 = 1 :=
    Real.cos_sq_add_sin_sq _
  have hre : (lastValue gp x - Complex.exp (gp.A * I) * gp.s1 : ℂ).re =
      lastValue gp x - gp.s1 * Real.cos gp.A := by
    rw [Complex.sub_re, Complex.re_mul_ofReal, Complex.ofReal_re, Complex.exp_ofReal_mul_I_re]
    ring
  have him : (lastValue gp x - Complex.exp (gp.A * I) * gp.s1 : ℂ).im =
      -(gp.s1 * Real.sin gp.A) := by
    rw [Complex.sub_im, Complex.im_mul_ofReal, Complex.ofReal_im, Complex.exp_ofReal_mul_I_im]
    ring
  rw [Complex.normSq_apply, hre, him]
  simp only [goertzel_strength]
  congr 2
  linear_combination ((lastValue gp x - gp.s1 * Real.cos gp.A) ^ 2 +
    (gp.s1 * Real.sin gp.A) ^ 2) * hphase

/-- The recurrence ends in the conjugate of the transform, turned by a phase. -/
theorem closed_form (N : ℕ) (k : ℝ) (x : ℕ → ℝ) (n : ℕ) :
    ((resonate (Real.cos (angle N k) * 2) x (n + 1)).1 -
        Complex.exp (angle N k * I) * (resonate (Real.cos (angle N k) * 2) x (n + 1)).2 : ℂ) =
      Complex.exp (-(angle N k * I)) ^ n *
        (starRingEnd ℂ) (∑ m ∈ range (n + 1), x m * twiddle N k m) := by
  have hz := exp_mul_exp_neg (angle N k)
  have hcast := resonate_map Complex.ofRealHom (Real.cos (angle N k) * 2) x (n + 1)
  have hsum := resonate_sum hz (fun m => (x m : ℂ)) (n + 1)
  have hconj : (starRingEnd ℂ) (Complex.exp (-(angle N k * I))) = Complex.exp (angle N k * I) := by
    rw [← Complex.exp_conj, map_neg, map_mul, Complex.conj_ofReal, Complex.conj_I, mul_neg, neg_neg]
  -- Every term of the polynomial is the phase times the conjugate of a term of the transform.
  have term : ∀ m ∈ range (n + 1), (x m : ℂ) * Complex.exp (-(angle N k * I)) ^ (n + 1 - 1 - m) =
      Complex.exp (-(angle N k * I)) ^ n * (starRingEnd ℂ) (x m * twiddle N k m) := by
    intro m hm
    have hle : m ≤ n := Nat.lt_succ_iff.mp (mem_range.mp hm)
    have hsplit : Complex.exp (-(angle N k * I)) ^ n =
        Complex.exp (-(angle N k * I)) ^ (n - m) * Complex.exp (-(angle N k * I)) ^ m := by
      rw [← pow_add, Nat.sub_add_cancel hle]
    rw [map_mul, Complex.conj_ofReal, twiddle_eq_pow, map_pow, hconj, hsplit, Nat.add_sub_cancel,
      mul_assoc, mul_left_comm _ (x m : ℂ), ← mul_pow, hz, one_pow, mul_one, mul_comm]
  rw [exp_add_exp_neg, sum_congr rfl term, ← mul_sum, ← map_sum] at hsum
  rw [← hsum]
  exact congrArg (fun r : ℂ × ℂ => r.1 - Complex.exp (angle N k * I) * r.2) hcast.symm

theorem normSq_phase (A : ℝ) (n : ℕ) : Complex.normSq (Complex.exp (-(A * I)) ^ n) = 1 := by
  have hone : Complex.normSq (Complex.exp (-(A * I))) = 1 := by
    rw [Complex.normSq_eq_norm_sq, ← neg_mul, ← Complex.ofReal_neg, Complex.norm_exp_ofReal_mul_I,
      one_pow]
  rw [map_pow, hone, one_pow]

/-- The square of `N` that the source divides by does not wrap. -/
theorem toNat_mul_self {N : ℕ} (h : N ≤ 65535) :
    (BitVec.ofNat 32 N * BitVec.ofNat 32 N).toNat = N * N := by
  have hword : N < 2 ^ 32 := by omega
  have hsquare : N * N ≤ 65535 * 65535 := Nat.mul_le_mul h h
  rw [BitVec.toNat_mul, BitVec.toNat_ofNat, Nat.mod_eq_of_lt hword, Nat.mod_eq_of_lt (by omega)]

/-- A whole run: the filter for `N` samples, stepped on all but the last, and its strength on the
last. -/
noncomputable def goertzel_run (N : ℕ) (k : ℝ) (x : ℕ → ℝ) : ℝ :=
  (goertzel_strength (goertzel_steps (goertzel_init (BitVec.ofNat 32 N) k) x (N - 1)) (x (N - 1))).1

/-- The strength is `2 / N²` times the squared magnitude of the transform, for every frequency
index, whole or not. -/
theorem goertzel_strength_run (N : ℕ) (hpos : 1 ≤ N) (hmax : N ≤ 65535) (k : ℝ) (x : ℕ → ℝ) :
    goertzel_run N k x = 2 / (N : ℝ) ^ 2 * ‖∑ n ∈ range N, x n *
      Complex.exp (-2 * Real.pi * I * k * n / N)‖ ^ 2 := by
  obtain ⟨n, rfl⟩ : ∃ n, N = n + 1 := ⟨N - 1, by omega⟩
  have hword : (BitVec.ofNat 32 (n + 1)).toNat = n + 1 := by
    rw [BitVec.toNat_ofNat]
    exact Nat.mod_eq_of_lt (by omega)
  have hA : (goertzel_init (BitVec.ofNat 32 (n + 1)) k).A = angle (n + 1) k := by
    rw [goertzel_init, hword, angle]
  have hB : (goertzel_init (BitVec.ofNat 32 (n + 1)) k).B = Real.cos (angle (n + 1) k) * 2 := by
    rw [goertzel_init, hword, angle]
  have hlast := lastValue_resonate (goertzel_init (BitVec.ofNat 32 (n + 1)) k) x rfl rfl n
  have hclosed := closed_form (n + 1) k x n
  rw [hB] at hlast
  rw [← hlast] at hclosed
  have hN : (goertzel_init (BitVec.ofNat 32 (n + 1)) k).N = BitVec.ofNat 32 (n + 1) := rfl
  have hsquare : ((n + 1) * (n + 1) : ℕ) = ((n + 1 : ℕ) : ℝ) ^ 2 := by
    push_cast
    ring
  rw [goertzel_run, Nat.add_sub_cancel, goertzel_strength_eq, goertzel_steps_A, goertzel_steps_N,
    hA, hN, toNat_mul_self hmax, hclosed, Complex.normSq_mul, normSq_phase, Complex.normSq_conj,
    one_mul, Complex.normSq_eq_norm_sq, hsquare]
  simp only [twiddle]
  ring

/-- Two equal samples and a frequency index that is not whole. -/
theorem goertzel_strength_run_half :
    goertzel_run 2 (1 / 2) (fun _ => 1) = 2 / ((2 : ℕ) : ℝ) ^ 2 * ‖∑ n ∈ range 2,
      ((1 : ℝ) : ℂ) * Complex.exp (-2 * Real.pi * I * ((1 / 2 : ℝ) : ℂ) * n / ((2 : ℕ) : ℂ))‖ ^ 2 :=
  goertzel_strength_run 2 (by decide) (by decide) (1 / 2) (fun _ => 1)

end StarterProjects.Dtmf
