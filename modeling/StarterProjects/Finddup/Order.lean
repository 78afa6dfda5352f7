import StarterProjects.Finddup.Groups
import StarterProjects.Lib.Comparator

/-!
# `comp1`

The comparator of the sort. Each difference of two fields is a 64 bit one that is stored in an
`int`, and the next one is taken where the stored value is 0. So only the lower 32 bits of a
difference count: `comp1_orders_iff` says for which descriptors the order is still that of the
fields.
-/

namespace StarterProjects.Finddup

open Lib

/-- The value of an integer in an `int` of 32 bits. -/
def toInt (n : Int) : Int := n.bmod 4294967296

/-- The value of a difference in an `unsigned long`. -/
def toULong (n : Int) : Int := n % 18446744073709551616

def comp1 (p1a p2a : FileDesc) : Int :=
  let retval := toInt (p1a.length - p2a.length)
  if retval ≠ 0 then retval
  else
    let retval := toInt (toULong (p1a.crc32 - p2a.crc32))
    if retval ≠ 0 then retval
    else
      let retval := toInt (toULong (p1a.device - p2a.device))
      if retval ≠ 0 then retval
      else toInt (toULong (p1a.inode - p2a.inode))

/-! ## The first difference -/

def differences (a b : FileDesc) : List Int :=
  [a.length - b.length, a.crc32 - b.crc32, a.device - b.device, a.inode - b.inode]

theorem toInt_toULong (n : Int) : toInt (toULong n) = toInt n := by
  unfold toInt toULong
  rw [Int.bmod_def, Int.bmod_def]
  omega

theorem toInt_eq_zero_iff (n : Int) : toInt n = 0 ↔ n % 4294967296 = 0 := by
  unfold toInt
  rw [Int.bmod_def]
  omega

theorem toInt_pos_iff (n : Int) :
    0 < toInt n ↔ n % 4294967296 ≠ 0 ∧ n % 4294967296 < 2147483648 := by
  unfold toInt
  rw [Int.bmod_def]
  omega

/-- The first of the numbers that is not 0, or 0. -/
def firstNonzero (ds : List Int) : Int := (ds.find? fun d => d ≠ 0).getD 0

theorem firstNonzero_cons (d : Int) (ds : List Int) :
    firstNonzero (d :: ds) = if d ≠ 0 then d else firstNonzero ds := by
  by_cases hd : d ≠ 0
  · simp [firstNonzero, hd]
  · simp [firstNonzero, not_not.mp hd]

theorem comp1_eq (a b : FileDesc) : comp1 a b = firstNonzero ((differences a b).map toInt) := by
  have hlast (n : Int) : firstNonzero [n] = n := by
    by_cases hn : n = 0 <;> simp [firstNonzero, hn]
  simp only [comp1, differences, List.map_cons, List.map_nil, firstNonzero_cons _ (_ :: _), hlast,
    toInt_toULong]

/-- The order of the fields: length and checksum, then device and inode. -/
def FileDesc.key (e : FileDesc) : (Int ×ₗ Nat) ×ₗ (Nat ×ₗ Nat) :=
  toLex (toLex (e.length, e.crc32), toLex (e.device, e.inode))

theorem key_lt_iff (a b : FileDesc) : a.key < b.key ↔ firstNonzero (differences a b) < 0 := by
  simp only [FileDesc.key, Prod.Lex.toLex_lt_toLex, differences, firstNonzero_cons,
    EmbeddingLike.apply_eq_iff_eq, Prod.mk.injEq]
  simp only [firstNonzero, List.find?_nil, Option.getD_none]
  split_ifs <;> omega

theorem firstNonzero_map_neg (ds : List Int) :
    firstNonzero (ds.map Neg.neg) = -firstNonzero ds := by
  induction ds with
  | nil => rfl
  | cons d ds ih =>
    rw [List.map_cons, firstNonzero_cons, firstNonzero_cons, ih]
    rcases eq_or_ne d 0 with rfl | hd
    · rfl
    · rw [if_pos hd, if_pos (Int.neg_ne_zero.mpr hd)]

theorem differences_swap (a b : FileDesc) :
    firstNonzero (differences b a) = -firstNonzero (differences a b) := by
  rw [← firstNonzero_map_neg]
  simp only [differences, List.map_cons, List.map_nil, Int.neg_sub]

/-- The first difference that is not 0 is not lost: the first whose lower 32 bits are not all 0 has
its sign there. -/
def SignKept (ds : List Int) : Prop :=
  ∀ d, ds.find? (fun d => d ≠ 0) = some d →
    ∃ e, ds.find? (fun e => e % 4294967296 ≠ 0) = some e ∧ (0 < d ↔ e % 4294967296 < 2147483648)

theorem firstNonzero_map_toInt (ds : List Int) :
    firstNonzero (ds.map toInt) =
      ((ds.find? fun e => e % 4294967296 ≠ 0).map toInt).getD 0 := by
  unfold firstNonzero
  rw [List.find?_map]
  simp only [Function.comp_def, ne_eq, toInt_eq_zero_iff]

/-- The sign of the narrowed first difference. -/
theorem signKept_iff (ds : List Int) :
    (firstNonzero (ds.map toInt) < 0 ↔ firstNonzero ds < 0) ∧
      (0 < firstNonzero (ds.map toInt) ↔ 0 < firstNonzero ds) ↔ SignKept ds := by
  rw [firstNonzero_map_toInt]
  unfold firstNonzero SignKept
  cases hfirst : ds.find? fun d => d ≠ 0 with
  | none =>
      have hall : ∀ x ∈ ds, x = 0 := by simpa using hfirst
      have hnone : (ds.find? fun e => e % 4294967296 ≠ 0) = none := by
        rw [List.find?_eq_none]
        intro x hx
        simp [hall x hx]
      rw [hnone]
      simp
  | some d =>
      have hd : d ≠ 0 := by simpa using List.find?_some hfirst
      cases hnarrow : ds.find? fun e => e % 4294967296 ≠ 0 with
      | none =>
          simp only [Option.map_none, Option.getD_none, Option.getD_some, Option.some.injEq,
            forall_eq', reduceCtorEq, false_and, exists_false, lt_self_iff_false, iff_false,
            false_iff]
          omega
      | some e =>
          have he : e % 4294967296 ≠ 0 := by simpa using List.find?_some hnarrow
          have hpos := toInt_pos_iff e
          have hzero := toInt_eq_zero_iff e
          simp only [Option.map_some, Option.getD_some, Option.some.injEq, forall_eq',
            exists_eq_left']
          omega

/-! ## The order -/

/-- What a sort with `comp1` is to rely on, for these descriptors. -/
structure Orders (l : List FileDesc) : Prop where
  follows : Follows comp1 FileDesc.key l
  antisymm : ∀ a ∈ l, ∀ b ∈ l, comp1 a b < 0 ↔ 0 < comp1 b a
  trans : ∀ a ∈ l, ∀ b ∈ l, ∀ c ∈ l, comp1 a b ≤ 0 → comp1 b c ≤ 0 → comp1 a c ≤ 0
  zero : ∀ a ∈ l, ∀ b ∈ l, comp1 a b = 0 →
    a.length = b.length ∧ a.crc32 = b.crc32 ∧ a.device = b.device ∧ a.inode = b.inode
  grouped : ∀ r : List FileDesc, r.Perm l → r.Pairwise (fun a b => comp1 a b ≤ 0) →
    Contiguous FileDesc.sizeCrc r ∧
      ∀ key, Contiguous FileDesc.inodeOf (r.filter fun e => decide (e.sizeCrc = key))

theorem follows_iff (l : List FileDesc) : Follows comp1 FileDesc.key l ↔
    ∀ a ∈ l, ∀ b ∈ l, SignKept (differences a b) := by
  unfold Follows
  have hpair (a b : FileDesc) :
      (comp1 a b < 0 ↔ a.key < b.key) ∧ (0 < comp1 a b ↔ b.key < a.key) ↔
        SignKept (differences a b) := by
    have hgt : b.key < a.key ↔ 0 < firstNonzero (differences a b) := by
      rw [key_lt_iff, differences_swap]
      omega
    rw [← signKept_iff, comp1_eq, key_lt_iff, hgt]
  simp only [hpair]

theorem Orders.of_follows {l : List FileDesc} (h : Follows comp1 FileDesc.key l) : Orders l where
  follows := h
  antisymm := fun _ ha _ hb => h.antisymm ha hb
  trans := fun _ ha _ hb _ hc => h.trans ha hb hc
  zero := by
    intro a ha b hb hzero
    have hkey := (h.eq_zero_iff ha hb).mp hzero
    simp only [FileDesc.key, EmbeddingLike.apply_eq_iff_eq, Prod.mk.injEq] at hkey
    exact ⟨hkey.1.1, hkey.1.2, hkey.2.1, hkey.2.2⟩
  grouped := by
    intro r hr hsorted
    have hkeys := h.pairwise hr.subset hsorted
    have hfst : Contiguous (fun e : FileDesc => toLex (e.length, e.crc32)) r :=
      Contiguous.fst_of_pairwise hkeys
    have hsnd (key : Int ×ₗ Nat) : Contiguous (fun e : FileDesc => toLex (e.device, e.inode))
        (r.filter fun e => decide (toLex (e.length, e.crc32) = key)) :=
      Contiguous.snd_of_pairwise hkeys key
    exact ⟨hfst, fun key => hsnd (toLex key)⟩

/-- `comp1` orders the descriptors exactly when no two of them lose the sign of their first
difference. -/
theorem comp1_orders_iff (l : List FileDesc) :
    Orders l ↔ ∀ a ∈ l, ∀ b ∈ l, SignKept (differences a b) :=
  ⟨fun h => (follows_iff l).mp h.follows, fun h => Orders.of_follows ((follows_iff l).mpr h)⟩

/-- Two files whose lengths differ by `2^32` are the same for `comp1`. -/
theorem comp1_not_orders : ¬ ∀ l : List FileDesc, Orders l := by
  intro hall
  have hzero := (hall [⟨1, 0, 1, 1, 0, 0⟩, ⟨4294967297, 0, 1, 1, 5, 0⟩]).zero
    ⟨1, 0, 1, 1, 0, 0⟩ (by simp) ⟨4294967297, 0, 1, 1, 5, 0⟩ (by simp) (by decide)
  exact absurd hzero.1 (by decide)

end StarterProjects.Finddup
