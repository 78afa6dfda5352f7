import Mathlib.Data.List.Basic

/-!
# `fullcmp`

The comparison of two files. What `getc` returns for the first file is stored in a `char` before
it is compared with `EOF` and with what `getc` returns for the second one. So the byte `0xFF` ends
the comparison as the end of the file does, and a byte from `0x80` on is never equal to one of the
other file: `fullcmp_iff` says on which files the result is right all the same.
-/

namespace StarterProjects.Finddup

abbrev Byte := BitVec 8

def EOF : Int := -1

/-- A file that is read: the bytes that are left. -/
abbrev ReadFile := List Byte

def getc (fp : ReadFile) : Int :=
  match fp with
  | [] => EOF
  | c :: _ => c.toNat

/-- The value of an `int` in a `char` of 8 bits with sign. -/
def toChar (n : Int) : Int := n.bmod 256

/-- The loop. Returns the last value of `ch`. -/
def fullcmpLoop : ReadFile → ReadFile → Int
  | [], _ => toChar EOF
  | c :: fp1, fp2 =>
      let ch := toChar c.toNat
      if ch = EOF then ch
      else if ch - getc fp2 ≠ 0 then ch
      else fullcmpLoop fp1 fp2.tail

/-- A file that cannot be opened ends the program. -/
def fullcmp (fopen : String → Option ReadFile) (getfn : Int → String) (v1 v2 : Int) :
    Option Int := do
  let fp1 ← fopen (getfn v1)
  let fp2 ← fopen (getfn v2)
  let ch := fullcmpLoop fp1 fp2
  return if ch = EOF then 0 else 1

/-! ## The bytes of one round -/

theorem toChar_EOF : toChar EOF = EOF := by decide

theorem toChar_ascii {c : Byte} (h : c.toNat < 128) : toChar c.toNat = c.toNat := by
  unfold toChar
  exact Int.bmod_eq_of_le (by omega) (by omega)

theorem toChar_high {c : Byte} (h : 128 ≤ c.toNat) : toChar c.toNat = (c.toNat : Int) - 256 := by
  have hc := c.isLt
  unfold toChar
  rw [Int.bmod_def]
  omega

theorem getc_cons (d : Byte) (fp : ReadFile) : getc (d :: fp) = d.toNat := rfl

/-- The round for a byte below `0x80`: it goes on exactly when the other byte is the same. -/
theorem fullcmpLoop_ascii {c d : Byte} (h : c.toNat < 128) (fp1 fp2 : ReadFile) :
    fullcmpLoop (c :: fp1) (d :: fp2) = if c = d then fullcmpLoop fp1 fp2 else c.toNat := by
  have hne : (c.toNat : Int) ≠ EOF := by
    unfold EOF
    omega
  rw [fullcmpLoop, toChar_ascii h, if_neg hne, getc_cons]
  by_cases hcd : c = d
  · rw [if_neg (by rw [hcd]; simp), if_pos hcd]
    rfl
  · have hnat : c.toNat ≠ d.toNat := fun heq => hcd (BitVec.eq_of_toNat_eq heq)
    rw [if_pos (by omega), if_neg hcd]

/-- A byte from `0x80` on ends the comparison, whatever the other one is. -/
theorem fullcmpLoop_high {c : Byte} (h : 128 ≤ c.toNat) (fp1 fp2 : ReadFile) :
    fullcmpLoop (c :: fp1) fp2 = (c.toNat : Int) - 256 := by
  have hc := c.isLt
  rw [fullcmpLoop, toChar_high h]
  by_cases hff : (c.toNat : Int) - 256 = EOF
  · rw [if_pos hff]
  · rw [if_neg hff, if_pos]
    unfold EOF at hff
    cases fp2 with
    | nil =>
        rw [show getc [] = -1 from rfl]
        omega
    | cons d fp2 =>
        rw [getc_cons]
        omega

/-! ## The result -/

/-- Where the first byte from `0x80` on comes before any difference, it is `0xFF` for equal files
and another one for different files. -/
def HighByteTells (fp1 fp2 : ReadFile) : Prop :=
  ∀ pre c rest1 rest2, fp1 = pre ++ c :: rest1 → fp2 = pre ++ rest2 →
    (∀ b ∈ pre, b.toNat < 128) → 128 ≤ c.toNat → (c = 0xFF ↔ fp1 = fp2)

theorem highByteTells_cons {c : Byte} (h : c.toNat < 128) (fp1 fp2 : ReadFile) :
    HighByteTells (c :: fp1) (c :: fp2) ↔ HighByteTells fp1 fp2 := by
  constructor
  · intro htells pre b rest1 rest2 h1 h2 hpre hb
    have hpre' : ∀ x ∈ c :: pre, x.toNat < 128 := List.forall_mem_cons.mpr ⟨h, hpre⟩
    rw [htells (c :: pre) b rest1 rest2 (by rw [h1]; rfl) (by rw [h2]; rfl) hpre' hb,
      List.cons_inj_right]
  · intro htells pre b rest1 rest2 h1 h2 hpre hb
    cases pre with
    | nil =>
        have hcb : c = b := (List.cons.inj h1).1
        rw [hcb] at h
        omega
    | cons x pre =>
        rw [List.cons_inj_right]
        exact htells pre b rest1 rest2 (List.cons.inj h1).2 (List.cons.inj h2).2
          (fun y hy => hpre y (List.mem_cons_of_mem x hy)) hb

/-- Before a difference there is nothing to tell. -/
theorem highByteTells_of_ne {c d : Byte} (h : c.toNat < 128) (hcd : c ≠ d) (fp1 fp2 : ReadFile) :
    HighByteTells (c :: fp1) (d :: fp2) := by
  intro pre b rest1 rest2 h1 h2 hpre hb
  cases pre with
  | nil =>
      have hcb : c = b := (List.cons.inj h1).1
      rw [hcb] at h
      omega
  | cons x pre => exact absurd ((List.cons.inj h1).1.trans (List.cons.inj h2).1.symm) hcd

theorem highByteTells_high {c : Byte} (h : 128 ≤ c.toNat) (fp1 fp2 : ReadFile) :
    HighByteTells (c :: fp1) fp2 ↔ (c = 0xFF ↔ c :: fp1 = fp2) := by
  constructor
  · intro htells
    exact htells [] c fp1 fp2 rfl rfl (fun _ hb => absurd hb List.not_mem_nil) h
  · intro htells pre b rest1 rest2 h1 h2 hpre hb
    cases pre with
    | nil => rwa [← (List.cons.inj h1).1]
    | cons x pre =>
        have hx := hpre x List.mem_cons_self
        rw [← (List.cons.inj h1).1] at hx
        omega

theorem fullcmpLoop_iff : ∀ {fp1 fp2 : ReadFile}, fp1.length = fp2.length →
    ((fullcmpLoop fp1 fp2 = EOF ↔ fp1 = fp2) ↔ HighByteTells fp1 fp2)
  | [], [], _ => by
    refine iff_of_true (iff_of_true toChar_EOF rfl) ?_
    intro pre c rest1 rest2 h
    exact absurd h.symm (List.append_ne_nil_of_right_ne_nil pre (List.cons_ne_nil c rest1))
  | [], _ :: _, hlen => absurd hlen.symm (Nat.succ_ne_zero _)
  | _ :: _, [], hlen => absurd hlen (Nat.succ_ne_zero _)
  | c :: fp1, d :: fp2, hlen => by
    have hlen' : fp1.length = fp2.length := Nat.succ.inj hlen
    by_cases hc : c.toNat < 128
    · rw [fullcmpLoop_ascii hc]
      by_cases hcd : c = d
      · subst hcd
        rw [if_pos rfl, List.cons_inj_right, highByteTells_cons hc]
        exact fullcmpLoop_iff hlen'
      · have hne : (c.toNat : Int) ≠ EOF := by
          unfold EOF
          omega
        have hlists : ¬ (c :: fp1 = d :: fp2) := fun h => hcd (List.cons.inj h).1
        rw [if_neg hcd]
        exact iff_of_true (iff_of_false hne hlists) (highByteTells_of_ne hc hcd fp1 fp2)
    · have hc : 128 ≤ c.toNat := Nat.le_of_not_lt hc
      have hff : (c.toNat : Int) - 256 = EOF ↔ c = 0xFF := by
        rw [← BitVec.toNat_inj, EOF, show (0xFF : Byte).toNat = 255 from rfl]
        omega
      rw [fullcmpLoop_high hc, hff, highByteTells_high hc]

/-- On two files of one length the result is 0 for equal contents only, and for all of them,
exactly when the first byte from `0x80` on tells. -/
theorem fullcmp_iff (fopen : String → Option ReadFile) (getfn : Int → String) (v1 v2 : Int)
    {fp1 fp2 : ReadFile} (h1 : fopen (getfn v1) = some fp1) (h2 : fopen (getfn v2) = some fp2)
    (hlen : fp1.length = fp2.length) :
    ∃ r, fullcmp fopen getfn v1 v2 = some r ∧ ((r = 0 ↔ fp1 = fp2) ↔ HighByteTells fp1 fp2) := by
  refine ⟨if fullcmpLoop fp1 fp2 = EOF then 0 else 1, ?_, ?_⟩
  · simp only [fullcmp, h1, h2, Option.bind_eq_bind, Option.bind_some]
    rfl
  · rw [← fullcmpLoop_iff hlen]
    by_cases hend : fullcmpLoop fp1 fp2 = EOF
    · simp [hend]
    · simp [hend]

/-- A text file and a copy of it. -/
theorem fullcmp_copy : ∃ r, fullcmp (fun _ => some [0x61, 0x0A]) (fun _ => "a") 0 1 = some r ∧
    ((r = 0 ↔ ([0x61, 0x0A] : ReadFile) = [0x61, 0x0A]) ↔
      HighByteTells [0x61, 0x0A] [0x61, 0x0A]) :=
  fullcmp_iff (fun _ => some [0x61, 0x0A]) (fun _ => "a") 0 1 rfl rfl rfl

/-- A file of one byte `0x80` differs from itself. -/
theorem fullcmp_high_bytes : ¬ ∀ (fopen : String → Option ReadFile) (getfn : Int → String)
    (v1 v2 : Int) (fp1 fp2 : ReadFile), fopen (getfn v1) = some fp1 → fopen (getfn v2) = some fp2 →
      fp1.length = fp2.length → (fullcmp fopen getfn v1 v2 = some 0 ↔ fp1 = fp2) := by
  intro hall
  have hself : fullcmp (fun _ => some [0x80]) (fun _ => "a") 0 1 = some 1 := by decide
  have hzero := (hall (fun _ => some [0x80]) (fun _ => "a") 0 1 [0x80] [0x80] rfl rfl rfl).mpr rfl
  rw [hself] at hzero
  exact absurd hzero (by decide)

/-- A file of one byte `0xFF` is the same as another one. -/
example : fullcmp (fun name => if name = "a" then some [0xFF] else some [0x61])
    (fun v => if v = 0 then "a" else "b") 0 1 = some 0 := by decide

end StarterProjects.Finddup
