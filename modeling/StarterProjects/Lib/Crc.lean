import Mathlib.Algebra.Field.ZMod
import Mathlib.RingTheory.AdjoinRoot

/-!
# Cyclic redundancy checks

A word of `w` bits stands for a polynomial over GF(2) in the reflected way: its lowest bit is the
coefficient of the highest power. `shift` is one step of the division by `generator poly`, and
`feed` takes in the bytes of a message.

* A step multiplies by `X` in the quotient ring (`class_shift`), so `feed` computes a remainder
  (`toPoly_feed`).
* Eight steps can be taken at once with a table for the low byte (`shifts_split`).
* Two messages have the same check exactly when the generator divides their difference
  (`feed_eq_iff`), so a check tells any two that differ in a window of `w` bits (`feed_burst`).
-/

namespace Lib.Crc

open Polynomial

variable {w : Nat}

/-- One bit of the division. -/
def shift (poly r : BitVec w) : BitVec w :=
  if r.getLsbD 0 then (r >>> 1) ^^^ poly else r >>> 1

/-- The remainder after one more byte. -/
def feedByte (poly r : BitVec w) (b : BitVec 8) : BitVec w :=
  (shift poly)^[8] (r ^^^ b.setWidth w)

def feed (poly : BitVec w) (r : BitVec w) (bs : List (BitVec 8)) : BitVec w :=
  bs.foldl (feedByte poly) r

/-! ## Words as polynomials -/

noncomputable section

def bit (b : Bool) : ZMod 2 := if b then 1 else 0

theorem bit_xor (a b : Bool) : bit (a ^^ b) = bit a + bit b := by
  cases a <;> cases b <;> decide

theorem bit_injective : Function.Injective bit := by decide

def toPoly (r : BitVec w) : (ZMod 2)[X] :=
  ∑ d ∈ Finset.range w, C (bit (r.getMsbD d)) * X ^ d

@[simp] theorem coeff_toPoly (r : BitVec w) (d : Nat) : (toPoly r).coeff d = bit (r.getMsbD d) := by
  simp only [toPoly, finsetSum_coeff, coeff_C_mul_X_pow]
  rw [Finset.sum_ite_eq]
  split
  · rfl
  · rename_i hd
    rw [BitVec.getMsbD_of_ge r d (by simpa using hd)]
    rfl

theorem toPoly_injective : Function.Injective (toPoly : BitVec w → (ZMod 2)[X]) := by
  intro a b h
  refine BitVec.eq_of_getMsbD_eq fun d _ => bit_injective ?_
  rw [← coeff_toPoly, ← coeff_toPoly, h]

@[simp] theorem toPoly_xor (a b : BitVec w) : toPoly (a ^^^ b) = toPoly a + toPoly b := by
  ext d
  simp [bit_xor]

theorem degree_toPoly_lt (r : BitVec w) : (toPoly r).degree < w := by
  rw [degree_lt_iff_coeff_zero]
  intro d hd
  rw [coeff_toPoly, BitVec.getMsbD_of_ge r d hd]
  rfl

/-- A shorter word in the low bits of a longer one. -/
theorem toPoly_setWidth {v : Nat} (h : v ≤ w) (r : BitVec v) :
    toPoly (r.setWidth w) = X ^ (w - v) * toPoly r := by
  ext d
  rw [coeff_toPoly, coeff_X_pow_mul', BitVec.getMsbD_setWidth]
  by_cases hd : w - v ≤ d
  · have hplace : d + v - w = d - (w - v) := by omega
    rw [if_pos hd, coeff_toPoly, hplace]
    simp [hd]
  · simp [hd, bit]

/-! ## The division -/

/-- The divisor: `poly` has its lower powers. -/
def generator (poly : BitVec w) : (ZMod 2)[X] := X ^ w + toPoly poly

theorem generator_monic (poly : BitVec w) : (generator poly).Monic :=
  monic_X_pow_add (degree_toPoly_lt poly)

theorem degree_generator (poly : BitVec w) : (generator poly).degree = w := by
  rw [generator, degree_add_eq_left_of_degree_lt] <;> rw [degree_X_pow]
  exact degree_toPoly_lt poly

/-- The bit that falls out of a word is the coefficient of `X ^ w`, which the generator removes. -/
theorem X_mul_toPoly (hw : 0 < w) (poly r : BitVec w) :
    X * toPoly r = toPoly (shift poly r) + C (bit (r.getLsbD 0)) * generator poly := by
  have hshift : X * toPoly r = toPoly (r >>> 1) + C (bit (r.getLsbD 0)) * X ^ w := by
    ext d
    rw [coeff_add, coeff_toPoly, coeff_C_mul_X_pow, BitVec.getMsbD_ushiftRight]
    cases d with
    | zero =>
        have hne : 0 ≠ w := Nat.ne_of_lt hw
        simp [bit, hne]
    | succ d =>
        rw [coeff_X_mul, coeff_toPoly]
        rcases Nat.lt_trichotomy (d + 1) w with hlt | heq | hgt
        · have hne : d + 1 ≠ w := Nat.ne_of_lt hlt
          simp [hlt, hne]
        · have hlast : r.getMsbD d = r.getLsbD 0 := by
            have hplace : w - 1 - d = 0 := by omega
            have hin : d < w := by omega
            simp [BitVec.getMsbD_eq_getLsbD, hplace, hin]
          simp [heq, hlast, bit]
        · have hout : w ≤ d := Nat.le_of_lt_succ hgt
          have hne : d + 1 ≠ w := Nat.ne_of_gt hgt
          simp [hne, hout, bit, Nat.not_lt.mpr (Nat.le_of_lt hgt)]
  by_cases hbit : r.getLsbD 0 = true
  · have htwo : toPoly poly + toPoly poly = 0 := CharTwo.add_self_eq_zero _
    rw [hshift, shift, if_pos hbit, toPoly_xor, generator, hbit]
    simp only [bit, if_true, map_one, one_mul]
    linear_combination -htwo
  · rw [hshift, shift, if_neg hbit]
    simp [bit, hbit]

/-- The residue of a polynomial. -/
def residue (poly : BitVec w) : (ZMod 2)[X] →+* AdjoinRoot (generator poly) :=
  AdjoinRoot.mk (generator poly)

theorem residue_eq_iff (poly : BitVec w) (f g : (ZMod 2)[X]) :
    residue poly f = residue poly g ↔ generator poly ∣ f - g :=
  AdjoinRoot.mk_eq_mk

theorem residue_shift (hw : 0 < w) (poly r : BitVec w) :
    residue poly (toPoly (shift poly r)) = residue poly (X * toPoly r) := by
  rw [eq_comm, residue_eq_iff, X_mul_toPoly hw, add_sub_cancel_left]
  exact dvd_mul_left _ _

theorem residue_shifts (hw : 0 < w) (poly r : BitVec w) (n : Nat) :
    residue poly (toPoly ((shift poly)^[n] r)) = residue poly (X ^ n * toPoly r) := by
  induction n generalizing r with
  | zero => simp
  | succ n ih =>
      rw [Function.iterate_succ_apply, ih, map_mul, residue_shift hw, ← map_mul]
      ring_nf

/-- A word is the remainder of whatever it is congruent to. -/
theorem toPoly_eq_modByMonic {poly r : BitVec w} {f : (ZMod 2)[X]}
    (h : residue poly (toPoly r) = residue poly f) : toPoly r = f %ₘ generator poly := by
  obtain ⟨q, hq⟩ := (residue_eq_iff poly _ _).mp h.symm
  refine ((div_modByMonic_unique q (toPoly r) (generator_monic poly) ⟨?_, ?_⟩).2).symm
  · rw [← hq]
    ring
  · rw [degree_generator]
    exact degree_toPoly_lt r

/-! ## Eight steps at once -/

theorem shift_xor (poly a b : BitVec w) :
    shift poly (a ^^^ b) = shift poly a ^^^ shift poly b := by
  simp only [shift, BitVec.getLsbD_xor, BitVec.ushiftRight_xor_distrib]
  cases a.getLsbD 0 <;> cases b.getLsbD 0
  · simp
  · simp [BitVec.xor_assoc]
  · simp only [Bool.xor_false, if_true, Bool.false_eq_true, if_false]
    ac_rfl
  · -- The divisor is taken away twice.
    have htwice : a >>> 1 ^^^ poly ^^^ (b >>> 1 ^^^ poly) =
        a >>> 1 ^^^ b >>> 1 ^^^ (poly ^^^ poly) := by ac_rfl
    simp [htwice]

theorem shifts_xor (poly a b : BitVec w) (n : Nat) :
    (shift poly)^[n] (a ^^^ b) = (shift poly)^[n] a ^^^ (shift poly)^[n] b := by
  induction n generalizing a b with
  | zero => rfl
  | succ n ih => rw [Function.iterate_succ_apply, shift_xor, ih, Function.iterate_succ_apply,
      Function.iterate_succ_apply]

/-- Without a low bit there is nothing to divide. -/
theorem shifts_of_low_zero (poly r : BitVec w) {n : Nat} (h : ∀ i < n, r.getLsbD i = false) :
    (shift poly)^[n] r = r >>> n := by
  induction n generalizing r with
  | zero => simp
  | succ n ih =>
      have hfirst := h 0 (Nat.succ_pos n)
      have hrest (i : Nat) (hi : i < n) : (r >>> 1).getLsbD i = false := by
        rw [BitVec.getLsbD_ushiftRight, Nat.add_comm]
        exact h (i + 1) (Nat.succ_lt_succ hi)
      rw [Function.iterate_succ_apply, shift, hfirst, if_neg Bool.false_ne_true, ih _ hrest,
        ← BitVec.shiftRight_add, Nat.add_comm 1 n]

/-- So a table for the values of the low byte does the eight steps for a byte. -/
theorem shifts_split (poly r : BitVec w) :
    (shift poly)^[8] r = (r >>> 8) ^^^ (shift poly)^[8] ((r.setWidth 8).setWidth w) := by
  have hparts : r = (r >>> 8) <<< 8 ^^^ (r.setWidth 8).setWidth w := by
    ext i hi
    by_cases hlow : i < 8
    · simp [hi, hlow]
    · have hplace : 8 + (i - 8) = i := by omega
      simp [hi, hlow, hplace]
  have hhigh : (shift poly)^[8] ((r >>> 8) <<< 8) = r >>> 8 := by
    rw [shifts_of_low_zero poly _ fun i hi => by simp [hi]]
    ext i hi
    by_cases hin : 8 + i < w
    · simp [hin]
    · simp [hin, BitVec.getLsbD_of_ge r (8 + i) (by omega)]
  conv_lhs => rw [hparts, shifts_xor, hhigh]

/-! ## Messages -/

/-- The bytes of a message, the first one at the highest powers. -/
def message : List (BitVec 8) → (ZMod 2)[X]
  | [] => 0
  | b :: bs => X ^ (8 * bs.length) * toPoly b + message bs

theorem message_append (as bs : List (BitVec 8)) :
    message (as ++ bs) = X ^ (8 * bs.length) * message as + message bs := by
  induction as with
  | nil => simp [message]
  | cons a as ih =>
      rw [List.cons_append, message, message, ih, List.length_append]
      ring

theorem coeff_message_of_ge {bs : List (BitVec 8)} {d : Nat} (hd : 8 * bs.length ≤ d) :
    (message bs).coeff d = 0 := by
  induction bs with
  | nil => rfl
  | cons b bs ih =>
      rw [List.length_cons] at hd
      rw [message, coeff_add, ih (by omega), add_zero, coeff_X_pow_mul', if_pos (by omega),
        coeff_toPoly, BitVec.getMsbD_of_ge b _ (by omega)]
      rfl

theorem message_injective : ∀ {as bs : List (BitVec 8)}, as.length = bs.length →
    message as = message bs → as = bs
  | [], [], _, _ => rfl
  | a :: as, b :: bs, hlen, h => by
      have hlen : as.length = bs.length := Nat.succ.inj hlen
      have hfirst : toPoly a = toPoly b := by
        ext d
        have has : (message as).coeff (d + 8 * bs.length) = 0 := coeff_message_of_ge (by omega)
        have hbs : (message bs).coeff (d + 8 * bs.length) = 0 := coeff_message_of_ge (by omega)
        have hcoeff := congrArg (coeff · (d + 8 * bs.length)) h
        simpa only [message, hlen, coeff_add, coeff_X_pow_mul, has, hbs, add_zero] using hcoeff
      simp only [message, hlen, hfirst, add_right_inj] at h
      rw [toPoly_injective hfirst, message_injective hlen h]

theorem residue_feed (hw : 8 ≤ w) (poly r : BitVec w) (bs : List (BitVec 8)) :
    residue poly (toPoly (feed poly r bs)) =
      residue poly (X ^ (8 * bs.length) * toPoly r + X ^ w * message bs) := by
  induction bs generalizing r with
  | nil => simp [feed, message]
  | cons b bs ih =>
      have hbyte : residue poly (toPoly (feedByte poly r b)) =
          residue poly (X ^ 8 * toPoly r + X ^ w * toPoly b) := by
        have hpow : (X : (ZMod 2)[X]) ^ w = X ^ 8 * X ^ (w - 8) := by
          rw [← pow_add, Nat.add_sub_cancel' hw]
        rw [feedByte, residue_shifts (by omega), toPoly_xor, toPoly_setWidth hw, hpow]
        ring_nf
      have hrest := ih (feedByte poly r b)
      rw [map_add, map_mul, hbyte, ← map_mul, ← map_add] at hrest
      rw [feed, List.foldl_cons]
      refine hrest.trans (congrArg _ ?_)
      rw [message, List.length_cons]
      ring

/-- What is computed is the remainder of the message, behind the value it started with. -/
theorem toPoly_feed (hw : 8 ≤ w) (poly r : BitVec w) (bs : List (BitVec 8)) :
    toPoly (feed poly r bs) =
      (X ^ (8 * bs.length) * toPoly r + X ^ w * message bs) %ₘ generator poly :=
  toPoly_eq_modByMonic (residue_feed hw poly r bs)

/-- With the power 0 in it, the generator has no factor `X`. -/
theorem isCoprime_X {poly : BitVec w} (hpoly : poly.getMsbD 0 = true) (hw : 0 < w) :
    IsCoprime (generator poly) (X : (ZMod 2)[X]) := by
  refine (irreducible_X.coprime_iff_not_dvd.mpr fun hdvd => ?_).symm
  rw [X_dvd_iff, generator, coeff_add, coeff_toPoly, hpoly, coeff_X_pow,
    if_neg (Nat.ne_of_lt hw)] at hdvd
  exact absurd hdvd (by decide)

/-- Two messages of one length have the same check exactly when the generator divides their
difference. -/
theorem feed_eq_iff (hw : 8 ≤ w) {poly : BitVec w} (hpoly : poly.getMsbD 0 = true) (r : BitVec w)
    {as bs : List (BitVec 8)} (hlen : as.length = bs.length) :
    feed poly r as = feed poly r bs ↔ generator poly ∣ message as - message bs := by
  have hcop : IsCoprime (generator poly) (X ^ w) := (isCoprime_X hpoly (by omega)).pow_right
  have hfeed : feed poly r as = feed poly r bs ↔
      residue poly (toPoly (feed poly r as)) = residue poly (toPoly (feed poly r bs)) := by
    constructor
    · exact fun h => by rw [h]
    · intro h
      refine toPoly_injective ?_
      rw [toPoly_eq_modByMonic h, ← toPoly_eq_modByMonic rfl]
  rw [hfeed, residue_feed hw, residue_feed hw, residue_eq_iff, hlen, add_sub_add_left_eq_sub,
    ← mul_sub]
  exact ⟨hcop.dvd_of_dvd_mul_left, fun h => Dvd.dvd.mul_left h _⟩

/-- A check tells messages that differ only in a window of as many bits as it has. -/
theorem feed_burst (hw : 8 ≤ w) {poly : BitVec w} (hpoly : poly.getMsbD 0 = true) (r : BitVec w)
    (before after : List (BitVec 8)) {as bs : List (BitVec 8)} (hlen : as.length = bs.length)
    (hwindow : 8 * as.length ≤ w)
    (h : feed poly r (before ++ as ++ after) = feed poly r (before ++ bs ++ after)) : as = bs := by
  have hall : (before ++ as ++ after).length = (before ++ bs ++ after).length := by simp [hlen]
  have hdiff : message (before ++ as ++ after) - message (before ++ bs ++ after) =
      X ^ (8 * after.length) * (message as - message bs) := by
    simp only [message_append, hlen]
    ring
  have hdvd := (feed_eq_iff hw hpoly r hall).mp h
  rw [hdiff] at hdvd
  have hwindow' := (isCoprime_X hpoly (by omega)).pow_right.dvd_of_dvd_mul_left hdvd
  -- The difference is too short to be a multiple of the generator.
  have hdegree : (message as - message bs).degree < (generator poly).degree := by
    rw [degree_generator, degree_lt_iff_coeff_zero]
    intro d hd
    rw [coeff_sub, coeff_message_of_ge (by omega), coeff_message_of_ge (by omega), sub_zero]
  exact message_injective hlen (sub_eq_zero.mp (eq_zero_of_dvd_of_degree_lt hwindow' hdegree))

end

end Lib.Crc
