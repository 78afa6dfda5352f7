import Mathlib.Data.BitVec
import Mathlib.Tactic.Ring

/-!
# Big-endian numbers

A list of bytes, most significant first, read as a natural number, and the list of a given
width that a number is written as; the number of these bytes is the remainder that fits
(`value_bytes`). `toNat_shiftIn` is the step of a decoder that shifts a word and XORs the next
byte into it.
-/

namespace Lib.BigEndian

abbrev Byte := BitVec 8

/-- The number that the bytes stand for, the first byte being the most significant. -/
def value (bs : List Byte) : Nat :=
  bs.foldl (fun n b => 256 * n + b.toNat) 0

/-- The lowest `w` bytes of a number, most significant first. -/
def bytes : Nat → Nat → List Byte
  | 0, _ => []
  | w + 1, n => BitVec.ofNat 8 (n / 256 ^ w) :: bytes w n

@[simp] theorem value_nil : value [] = 0 := rfl

@[simp] theorem length_bytes (w n : Nat) : (bytes w n).length = w := by
  induction w with
  | zero => rfl
  | succ w ih => rw [bytes, List.length_cons, ih]

theorem value_concat (bs : List Byte) (b : Byte) :
    value (bs ++ [b]) = 256 * value bs + b.toNat := by
  simp [value]

theorem value_cons (b : Byte) (bs : List Byte) :
    value (b :: bs) = b.toNat * 256 ^ bs.length + value bs := by
  induction bs using List.reverseRecOn with
  | nil => simp [value]
  | append_singleton bs c ih =>
      rw [← List.cons_append, value_concat, value_concat, ih, List.length_append,
        List.length_singleton, pow_succ]
      ring

theorem value_lt (bs : List Byte) : value bs < 256 ^ bs.length := by
  induction bs using List.reverseRecOn with
  | nil => simp
  | append_singleton bs b ih =>
      have hb := b.isLt
      rw [value_concat, List.length_append, List.length_singleton, pow_succ]
      omega

theorem value_bytes (w n : Nat) : value (bytes w n) = n % 256 ^ w := by
  induction w with
  | zero => simp [bytes, Nat.mod_one]
  | succ w ih =>
      have hsplit : n % 256 ^ (w + 1) = n % 256 ^ w + 256 ^ w * (n / 256 ^ w % 256) := by
        rw [pow_succ, Nat.mod_mul]
      rw [bytes, value_cons, ih, length_bytes, BitVec.toNat_ofNat, hsplit,
        Nat.add_comm, Nat.mul_comm]

/-- A byte below the shifted part: XOR is addition. -/
theorem mul_xor (n c : Nat) (hc : c < 256) : 256 * n ^^^ c = 256 * n + c := by
  have hdiv : (256 * n ^^^ c) / 256 = n := by
    have h := Nat.xor_div_two_pow (a := 256 * n) (b := c) (n := 8)
    norm_num at h
    rw [h, Nat.div_eq_of_lt hc, Nat.xor_zero]
  have hmod : (256 * n ^^^ c) % 256 = c := by
    have h := Nat.xor_mod_two_pow (a := 256 * n) (b := c) (n := 8)
    norm_num at h
    rw [h, Nat.mod_eq_of_lt hc]
  omega

theorem toNat_shiftIn {w : Nat} (acc : BitVec w) (b : Byte) (h : 256 * acc.toNat + 255 < 2 ^ w) :
    ((acc <<< 8) ^^^ BitVec.ofNat w b.toNat).toNat = 256 * acc.toNat + b.toNat := by
  have hb := b.isLt
  have hshift : acc.toNat <<< 8 = 256 * acc.toNat := by
    rw [Nat.shiftLeft_eq, Nat.mul_comm]
  rw [BitVec.toNat_xor, BitVec.toNat_shiftLeft, BitVec.toNat_ofNat, hshift,
    Nat.mod_eq_of_lt (by omega), Nat.mod_eq_of_lt (by omega), mul_xor _ _ hb]

end Lib.BigEndian
