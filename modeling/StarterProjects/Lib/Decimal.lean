import Mathlib.Data.List.Basic
import Mathlib.Data.Nat.Init

/-!
# Decimal numerals

Strings of digits, whose value `Nat.ofDigitChars` gives, and numerals with a sign. A scanner that
takes one digit after the other has a value that never goes down, so a bound on the whole is a
bound on every step.
-/

namespace Lib.Decimal

def AllDigits (ds : List Char) : Prop := ∀ c ∈ ds, c.isDigit = true

theorem isDigit_iff (c : Char) : c.isDigit = true ↔ 48 ≤ c.toNat ∧ c.toNat ≤ 57 :=
  Char.isDigit_iff_toNat

theorem allDigits_toDigits (n : Nat) : AllDigits (Nat.toDigits 10 n) :=
  fun _ hc => Nat.isDigit_of_mem_toDigits (by decide) (by decide) hc

theorem allDigits_cons {c : Char} {ds : List Char} :
    AllDigits (c :: ds) ↔ c.isDigit = true ∧ AllDigits ds :=
  List.forall_mem_cons

theorem value_cons (c : Char) (ds : List Char) (u : Nat) :
    Nat.ofDigitChars 10 (c :: ds) u = Nat.ofDigitChars 10 ds (10 * u + (c.toNat - 48)) :=
  Nat.ofDigitChars_cons

/-- What the digits so far come to is a lower bound of the value. -/
theorem le_value (ds : List Char) (u : Nat) : u ≤ Nat.ofDigitChars 10 ds u := by
  induction ds generalizing u with
  | nil => simp
  | cons c ds ih =>
      rw [value_cons]
      have hrest := ih (10 * u + (c.toNat - 48))
      omega

/-- A numeral and its value: one digit or more, after a minus sign or none. -/
inductive Numeral : List Char → Int → Prop
  | plain {ds : List Char} (hne : ds ≠ []) (hds : AllDigits ds) :
      Numeral ds (Nat.ofDigitChars 10 ds 0)
  | minus {ds : List Char} (hne : ds ≠ []) (hds : AllDigits ds) :
      Numeral ('-' :: ds) (-(Nat.ofDigitChars 10 ds 0 : Int))

theorem not_allDigits_minus (ds : List Char) : ¬ AllDigits ('-' :: ds) := fun h =>
  absurd (h '-' List.mem_cons_self) (by decide)

theorem Numeral.unique {s : List Char} {v v' : Int} (h : Numeral s v) (h' : Numeral s v') :
    v = v' := by
  cases h with
  | plain hne hds =>
      cases h' with
      | plain => rfl
      | minus => exact absurd hds (not_allDigits_minus _)
  | minus hne hds =>
      cases h' with
      | plain _ hds' => exact absurd hds' (not_allDigits_minus _)
      | minus => rfl

/-- Digits and minus signs. -/
def SignsAndDigits (s : List Char) : Prop := ∀ c ∈ s, c.isDigit = true ∨ c = '-'

theorem Numeral.signsAndDigits {s : List Char} {v : Int} (h : Numeral s v) : SignsAndDigits s := by
  cases h with
  | plain _ hds => exact fun c hc => Or.inl (hds c hc)
  | minus _ hds =>
      intro c hc
      rcases List.mem_cons.mp hc with rfl | hmem
      · exact Or.inr rfl
      · exact Or.inl (hds c hmem)

end Lib.Decimal
