import Mathlib.Algebra.Order.Floor.Ring
import Mathlib.Tactic.Linarith

/-!
# Rounding towards zero

`trunc` is the conversion of a number to an integer that drops its fraction. It is monotone, it is
off by less than 1, and between two neighbouring integers it is constant (`trunc_of_mem`). Two
numbers with an integer between them are rounded alike only around 0 (`eq_zero_of_trunc_eq`).
-/

namespace Lib

variable {K : Type*} [Field K] [LinearOrder K] [IsStrictOrderedRing K] [FloorRing K]

def trunc (x : K) : ℤ := if 0 ≤ x then ⌊x⌋ else ⌈x⌉

variable {x y : K} {n : ℤ}

omit [IsStrictOrderedRing K] in
theorem trunc_of_nonneg (h : 0 ≤ x) : trunc x = ⌊x⌋ := if_pos h

omit [IsStrictOrderedRing K] in
theorem trunc_of_neg (h : x < 0) : trunc x = ⌈x⌉ := if_neg (not_le.mpr h)

theorem trunc_intCast (n : ℤ) : trunc (n : K) = n := by
  unfold trunc
  split
  · exact Int.floor_intCast n
  · exact Int.ceil_intCast n

theorem floor_le_trunc (x : K) : ⌊x⌋ ≤ trunc x := by
  unfold trunc
  split
  · exact le_refl _
  · exact Int.floor_le_ceil x

theorem trunc_le_ceil (x : K) : trunc x ≤ ⌈x⌉ := by
  unfold trunc
  split
  · exact Int.floor_le_ceil x
  · exact le_refl _

theorem lt_trunc_add_one (x : K) : x < trunc x + 1 := by
  have hfloor : (⌊x⌋ : K) ≤ trunc x := Int.cast_le.mpr (floor_le_trunc x)
  linarith [Int.lt_floor_add_one x]

theorem trunc_lt_add_one (x : K) : (trunc x : K) < x + 1 := by
  have hceil : (trunc x : K) ≤ ⌈x⌉ := Int.cast_le.mpr (trunc_le_ceil x)
  linarith [Int.ceil_lt_add_one x]

omit [IsStrictOrderedRing K] in
theorem trunc_mono (h : x ≤ y) : trunc x ≤ trunc y := by
  rcases le_or_gt 0 x with hx | hx
  · rw [trunc_of_nonneg hx, trunc_of_nonneg (hx.trans h)]
    exact Int.floor_le_floor h
  · rcases le_or_gt 0 y with hy | hy
    · rw [trunc_of_neg hx, trunc_of_nonneg hy]
      have hle : ⌈x⌉ ≤ 0 := Int.ceil_le.mpr (by exact_mod_cast hx.le)
      exact hle.trans (Int.floor_nonneg.mpr hy)
    · rw [trunc_of_neg hx, trunc_of_neg hy]
      exact Int.ceil_le_ceil h

theorem le_trunc (h : (n : K) ≤ x) : n ≤ trunc x := by
  have hmono := trunc_mono h
  rwa [trunc_intCast] at hmono

theorem trunc_le (h : x ≤ n) : trunc x ≤ n := by
  have hmono := trunc_mono h
  rwa [trunc_intCast] at hmono

/-- Between two neighbouring integers the one nearer to zero is taken. -/
theorem trunc_of_mem (hlow : (n : K) < x) (hhigh : x < n + 1) :
    trunc x = if 0 ≤ n then n else n + 1 := by
  split
  · next h =>
    have hx : 0 ≤ x := (Int.cast_nonneg h).trans hlow.le
    rw [trunc_of_nonneg hx]
    exact Int.floor_eq_iff.mpr ⟨hlow.le, hhigh⟩
  · next h =>
    have hn : ((n + 1 : ℤ) : K) ≤ 0 := Int.cast_nonpos.mpr (by omega)
    have hx : x < 0 := by
      push_cast at hn
      linarith
    rw [trunc_of_neg hx]
    refine Int.ceil_eq_iff.mpr ⟨?_, ?_⟩
    · push_cast
      linarith
    · push_cast
      exact hhigh.le

theorem trunc_eq_of_mem (hx : (n : K) < x) (hx' : x < n + 1) (hy : (n : K) < y)
    (hy' : y < n + 1) : trunc x = trunc y := by
  rw [trunc_of_mem hx hx', trunc_of_mem hy hy']

/-- Numbers on both sides of an integer are rounded to different integers, unless it is 0. -/
theorem eq_zero_of_trunc_eq (hx : x < n) (hy : (n : K) < y) (h : trunc x = trunc y) : n = 0 := by
  have hxn : trunc x = n := le_antisymm (trunc_le hx.le) (h ▸ le_trunc hy.le)
  have hyn : trunc y = n := h ▸ hxn
  rcases lt_trichotomy n 0 with hneg | hzero | hpos
  · have hy0 : ¬ 0 ≤ y := fun hy0 => by
      have hfloor := Int.floor_nonneg.mpr hy0
      rw [trunc_of_nonneg hy0] at hyn
      omega
    rw [trunc_of_neg (not_le.mp hy0)] at hyn
    have := Int.le_ceil y
    rw [hyn] at this
    linarith
  · exact hzero
  · have hx0 : ¬ x < 0 := fun hx0 => by
      rw [trunc_of_neg hx0] at hxn
      have hceil : ⌈x⌉ ≤ 0 := Int.ceil_le.mpr (by exact_mod_cast hx0.le)
      omega
    rw [trunc_of_nonneg (not_lt.mp hx0)] at hxn
    have := Int.floor_le x
    rw [hxn] at this
    linarith

/-- What is left of two roundings when the numbers add up to an integer. -/
theorem trunc_add_near (h : x + y = n) : |trunc x + trunc y - n| ≤ 1 := by
  have hx := lt_trunc_add_one x
  have hx' := trunc_lt_add_one x
  have hy := lt_trunc_add_one y
  have hy' := trunc_lt_add_one y
  have hlow : n < trunc x + trunc y + 2 := by
    have hq : (n : K) < trunc x + trunc y + 2 := by linarith
    exact_mod_cast hq
  have hhigh : trunc x + trunc y < n + 2 := by
    have hq : (trunc x + trunc y : K) < n + 2 := by linarith
    exact_mod_cast hq
  rw [abs_le]
  omega

/-- Division of integers in C. -/
theorem trunc_div (a : ℤ) (b : ℕ) : trunc ((a : K) / b) = a.tdiv b := by
  have floor : ∀ c : ℤ, 0 ≤ c → ⌊(c : K) / b⌋ = c.tdiv b := by
    intro c hc
    rw [Int.floor_div_natCast, Int.floor_intCast, Int.tdiv_eq_ediv_of_nonneg hc]
  have hb : (0 : K) ≤ b := Nat.cast_nonneg b
  rcases le_or_gt 0 a with ha | ha
  · rw [trunc_of_nonneg (div_nonneg (Int.cast_nonneg ha) hb), floor a ha]
  · rcases hb.eq_or_lt with h0 | hpos
    · have hzero : b = 0 := by exact_mod_cast h0.symm
      rw [hzero, Nat.cast_zero, div_zero, Nat.cast_zero, Int.tdiv_zero]
      exact_mod_cast trunc_intCast (K := K) 0
    · have hneg : (a : K) / b < 0 := div_neg_of_neg_of_pos (Int.cast_lt_zero.mpr ha) hpos
      have hflip : (a : K) / b = -(((-a : ℤ) : K) / b) := by
        rw [Int.cast_neg, neg_div, neg_neg]
      rw [trunc_of_neg hneg, hflip, Int.ceil_neg, floor (-a) (by omega), Int.neg_tdiv, neg_neg]

end Lib
