import StarterProjects.Finddup.Fullcmp
import StarterProjects.Lib.Crc
import StarterProjects.Lib.Lines
import Mathlib.Data.List.TakeWhile
import Mathlib.Data.Vector.Basic
import Mathlib.Data.BitVec

/-!
# `crc32.c` and `get_crc`

`rc_crc32` takes in a byte at a time with a table of 256 remainders.

* What it returns is the complement of a polynomial remainder (`rc_crc32_remainder`), so the table
  does the eight divisions of a byte.
* `get_crc` adds up the checksums of the lines of a file, each as far as its first NUL. So two files
  that differ in up to four bytes of a line are told apart (`get_crc_window`).
-/

namespace StarterProjects.Finddup

open Lib Lib.Crc Polynomial

def POLY : BitVec 32 := 0xedb88320

/-- `for(j = 0; j < 8; j++)`, so many rounds. -/
def remLoop : Nat → BitVec 32 → BitVec 32
  | 0, rem => rem
  | j + 1, rem => remLoop j (if rem &&& 1 ≠ 0 then (rem >>> 1) ^^^ POLY else rem >>> 1)

def table : Vector (BitVec 32) 256 := Vector.ofFn fun i => remLoop 8 (BitVec.ofNat 32 i)

/-- `(crc & 0xff) ^ octet`. -/
def tableIndex (crc : BitVec 32) (octet : Byte) : BitVec 32 := (crc &&& 0xff) ^^^ octet.setWidth 32

theorem tableIndex_eq (crc : BitVec 32) (octet : Byte) :
    tableIndex crc octet = ((crc ^^^ octet.setWidth 32).setWidth 8).setWidth 32 := by
  unfold tableIndex
  ext i hi
  have hmask : ∀ i, (hi : i < 32) → (0xff#32)[i] = decide (i < 8) := by decide
  by_cases hlow : i < 8
  · simp [hlow, hmask i hi, BitVec.getLsbD_eq_getElem hi]
  · simp [hlow, hmask i hi]

theorem tableIndex_lt (crc : BitVec 32) (octet : Byte) : (tableIndex crc octet).toNat < 256 := by
  rw [tableIndex_eq, BitVec.toNat_setWidth]
  have h := ((crc ^^^ octet.setWidth 32).setWidth 8).isLt
  omega

/-- One round of the loop over the buffer. -/
def crcOctet (crc : BitVec 32) (octet : Byte) : BitVec 32 :=
  have := tableIndex_lt crc octet
  (crc >>> 8) ^^^ table[(tableIndex crc octet).toNat]

def rc_crc32 (crc : BitVec 32) (buf : List Byte) : BitVec 32 := ~~~ buf.foldl crcOctet (~~~ crc)

/-! ## The division -/

theorem remLoop_eq (n : Nat) (rem : BitVec 32) : remLoop n rem = (shift POLY)^[n] rem := by
  induction n generalizing rem with
  | zero => rfl
  | succ n ih =>
      have hbit : rem &&& 1 ≠ 0 ↔ rem.getLsbD 0 = true := by
        rw [show (1 : BitVec 32) = 1#32 from rfl, BitVec.and_one_eq_setWidth_ofBool_getLsbD]
        cases rem.getLsbD 0 <;> decide
      rw [remLoop, ih, Function.iterate_succ_apply, shift]
      simp only [hbit]

/-- The round is the one without a table. -/
theorem crcOctet_eq (crc : BitVec 32) (octet : Byte) :
    crcOctet crc octet = feedByte POLY crc octet := by
  have hoctet : crc >>> 8 = (crc ^^^ octet.setWidth 32) >>> 8 := by
    ext i hi
    simp
  have hlt := tableIndex_lt crc octet
  have hentry : table[(tableIndex crc octet).toNat] = (shift POLY)^[8] (tableIndex crc octet) := by
    simp only [table, Vector.getElem_ofFn, remLoop_eq, BitVec.ofNat_toNat, BitVec.setWidth_eq]
  rw [crcOctet, hentry, hoctet, tableIndex_eq, feedByte, ← shifts_split]

theorem rc_crc32_eq (crc : BitVec 32) (buf : List Byte) :
    rc_crc32 crc buf = ~~~ feed POLY (~~~ crc) buf := by
  have hround : crcOctet = feedByte POLY := by
    funext crc octet
    exact crcOctet_eq crc octet
  rw [rc_crc32, hround, feed]

theorem generator_POLY : generator POLY = (X ^ 32 + X ^ 26 + X ^ 23 + X ^ 22 + X ^ 16 + X ^ 12 +
    X ^ 11 + X ^ 10 + X ^ 8 + X ^ 7 + X ^ 5 + X ^ 4 + X ^ 2 + X + 1 : (ZMod 2)[X]) := by
  simp only [generator, toPoly, Finset.sum_range_succ, Finset.sum_range_zero, POLY]
  simp [bit]
  ring

theorem rc_crc32_remainder (crc : BitVec 32) (buf : List Byte) :
    toPoly (~~~ rc_crc32 crc buf) =
      (X ^ (8 * buf.length) * toPoly (~~~ crc) + X ^ 32 * message buf) %ₘ
        (X ^ 32 + X ^ 26 + X ^ 23 + X ^ 22 + X ^ 16 + X ^ 12 + X ^ 11 + X ^ 10 + X ^ 8 + X ^ 7 +
          X ^ 5 + X ^ 4 + X ^ 2 + X + 1) := by
  rw [rc_crc32_eq, BitVec.not_not, toPoly_feed (by decide), generator_POLY]

/-! ## `get_crc` -/

def NEWLINE : Byte := 0x0A

def EOS : Byte := 0x00

/-- The characters of a string up to its end. -/
def cString (s : List Byte) : List Byte := s.takeWhile (· ≠ EOS)

/-- Line after line, `curCRC32 += rc_crc32(0, curLine, strlen(curLine))`. -/
def crcLines : BitVec 32 → List (List Byte) → BitVec 32
  | curCRC32, [] => curCRC32
  | curCRC32, curLine :: lines => crcLines (curCRC32 + rc_crc32 0 (cString curLine)) lines

/-- The checksum of a file that could be opened. -/
def get_crc (fp : ReadFile) : BitVec 32 := crcLines 0 (Lines.lines NEWLINE fp)

theorem crcLines_eq (crc : BitVec 32) (ls : List (List Byte)) :
    crcLines crc ls = crc + (ls.map fun l => rc_crc32 0 (cString l)).sum := by
  induction ls generalizing crc with
  | nil => simp [crcLines]
  | cons l ls ih => rw [crcLines, ih, List.map_cons, List.sum_cons, BitVec.add_assoc]

theorem cString_append {u : List Byte} (h : EOS ∉ u) (v : List Byte) :
    cString (u ++ v) = u ++ cString v := by
  rw [cString, List.takeWhile_append_of_pos fun c hc => ?_, cString]
  exact decide_eq_true fun heq => h (heq ▸ hc)

/-- Two files that differ in a window of up to four bytes, with no newline or NUL in it nor a NUL
before it in its line, have different checksums. -/
theorem get_crc_window (before after : List Byte) {as bs : List Byte} (hlen : as.length = bs.length)
    (hwindow : as.length ≤ 4) (has : ∀ c ∈ as, c ≠ NEWLINE ∧ c ≠ EOS)
    (hbs : ∀ c ∈ bs, c ≠ NEWLINE ∧ c ≠ EOS)
    (hbefore : ∀ start x, before = start ++ x → NEWLINE ∉ x → EOS ∉ x) (hne : as ≠ bs) :
    get_crc (before ++ as ++ after) ≠ get_crc (before ++ bs ++ after) := by
  obtain ⟨pre, x, y, post, hpre, hx, hline⟩ := @Lines.lines_window _ NEWLINE _ before after
  have hxnul : EOS ∉ x := hbefore _ x hpre hx
  have hane : as ≠ [] := by
    rintro rfl
    exact hne (List.length_eq_zero_iff.mp hlen.symm).symm
  have hbne : bs ≠ [] := by
    rintro rfl
    exact hne (List.length_eq_zero_iff.mp hlen)
  have hcut {w : List Byte} (hw : ∀ c ∈ w, c ≠ NEWLINE ∧ c ≠ EOS) :
      cString (x ++ w ++ y) = x ++ w ++ cString y := by
    refine cString_append (fun hmem => ?_) y
    rcases List.mem_append.mp hmem with hmem | hmem
    · exact hxnul hmem
    · exact (hw _ hmem).2 rfl
  intro heq
  rw [get_crc, get_crc, hline as hane fun hmem => (has _ hmem).1 rfl,
    hline bs hbne fun hmem => (hbs _ hmem).1 rfl, crcLines_eq, crcLines_eq] at heq
  simp only [List.map_append, List.map_cons, List.sum_append, List.sum_cons, hcut has, hcut hbs,
    BitVec.add_right_inj, BitVec.add_left_inj] at heq
  rw [rc_crc32_eq, rc_crc32_eq, BitVec.not_inj] at heq
  exact hne (feed_burst (by decide) (by decide) _ x (cString y) hlen (by omega) heq)

theorem get_crc_window_line :
    get_crc ([0x61] ++ [0x62] ++ [0x64, 0x0A]) ≠ get_crc ([0x61] ++ [0x63] ++ [0x64, 0x0A]) := by
  refine get_crc_window [0x61] [0x64, 0x0A] rfl (by decide) (by decide) (by decide) ?_ (by decide)
  rintro start x heq - hmem
  exact absurd (heq ▸ List.mem_append_right start hmem) (by decide)

end StarterProjects.Finddup
