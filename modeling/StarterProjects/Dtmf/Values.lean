import StarterProjects.Dtmf.EventLines

/-!
# `get_current_value`

The value of an option. The loop takes a minus sign at any place, multiplies by ten after every
digit, and divides once at the end; a `long` wraps. `get_current_value_iff` says for which strings
this is the value of a numeral.
-/

namespace StarterProjects.Dtmf

open Lib.Decimal

/-- The value of an integer in a `long`. -/
def toLong (n : Int) : Int := n.bmod 18446744073709551616

/-- The loop. Returns the sign and what is left in `*currVal`; `none` is its `return 0`, with
`*currVal` as it is then. -/
def get_current_value_loop : List Char → Int → Int → Except Int (Int × Int)
  | [], negValue, currVal => .ok (negValue, currVal)
  | c :: cs, negValue, currVal =>
      if c.toNat = 45 then get_current_value_loop cs (-1) currVal
      else if c.toNat > 57 ∨ c.toNat < 48 then .error currVal
      else
        let currVal := toLong (currVal + ((c.toNat : Int) - 48))
        let currVal := toLong (currVal * 10)
        get_current_value_loop cs negValue currVal

/-- The returned value and what is stored in `*currVal`. -/
def get_current_value (valPtr : Option (List Char)) : Int × Int :=
  match valPtr with
  | none => (0, 0)
  | some s =>
      match get_current_value_loop s 1 0 with
      | .error currVal => (0, currVal)
      | .ok (negValue, currVal) => (1, toLong (toLong (currVal.tdiv 10) * negValue))

def FitsLong (v : Int) : Prop := -9223372036854775808 ≤ v ∧ v ≤ 9223372036854775807

/-- What the function is to do: it accepts the numerals whose value is a `long`, and stores it. -/
structure ValueRight (s : List Char) (res : Int × Int) : Prop where
  accepts : res.1 = 1 ↔ ∃ v, Numeral s v ∧ FitsLong v
  stores : ∀ v, Numeral s v → FitsLong v → res.2 = v

/-! ## The loop -/

/-- The digits of a string, without the minus signs. -/
def digitsOf (s : List Char) : List Char := s.filter fun c => c ≠ '-'

theorem toLong_step (n d : Int) :
    toLong (toLong (toLong (10 * n) + d) * 10) = toLong (10 * (10 * n + d)) := by
  unfold toLong
  rw [Int.bmod_add_bmod, Int.bmod_mul_bmod, Int.mul_comm]

theorem toLong_eq {n : Int} (h : FitsLong n) : toLong n = n := by
  obtain ⟨hlow, hhigh⟩ := h
  exact Int.bmod_eq_of_le (by omega) (by omega)

theorem toLong_fits (n : Int) : FitsLong (toLong n) := by
  unfold toLong FitsLong
  have hlow := Int.le_bmod (x := n) (m := 18446744073709551616) (by decide)
  have hhigh := Int.bmod_lt (x := n) (m := 18446744073709551616) (by decide)
  omega

theorem eq_minus_iff (c : Char) : c.toNat = 45 ↔ c = '-' := Char.toNat_inj (d := '-')

/-- A string of digits and minus signs is read to its end; any minus sign counts. -/
theorem get_current_value_loop_ok {s : List Char} (hs : SignsAndDigits s) (negValue : Int)
    (u : Nat) : get_current_value_loop s negValue (toLong (10 * u)) =
      .ok (if '-' ∈ s then -1 else negValue,
        toLong (10 * (Nat.ofDigitChars 10 (digitsOf s) u : Nat))) := by
  induction s generalizing negValue u with
  | nil => rfl
  | cons c s ih =>
      obtain ⟨hc, hs⟩ := List.forall_mem_cons.mp hs
      rw [get_current_value_loop]
      by_cases hminus : c = '-'
      · rw [if_pos ((eq_minus_iff c).mpr hminus), ih hs]
        have hrest : digitsOf (c :: s) = digitsOf s := by simp [digitsOf, hminus]
        rw [hrest, ite_self, if_pos (by simp [hminus])]
      · have hdigit := (isDigit_iff c).mp (hc.resolve_right hminus)
        have hcast : (10 * (u : Int) + ((c.toNat : Int) - 48)) =
            ((10 * u + (c.toNat - 48) : Nat) : Int) := by omega
        have hrest : digitsOf (c :: s) = c :: digitsOf s := by simp [digitsOf, hminus]
        rw [if_neg (fun h => hminus ((eq_minus_iff c).mp h)), if_neg (by omega)]
        show get_current_value_loop s negValue
          (toLong (toLong (toLong (10 * u) + ((c.toNat : Int) - 48)) * 10)) = _
        rw [toLong_step, hcast, ih hs, hrest, value_cons]
        simp [List.mem_cons, Ne.symm hminus]

/-- Another character ends the loop. -/
theorem get_current_value_loop_error {s : List Char} (hs : ¬ SignsAndDigits s)
    (negValue currVal : Int) : ∃ v, get_current_value_loop s negValue currVal = .error v := by
  induction s generalizing negValue currVal with
  | nil => exact absurd (fun c hc => absurd hc List.not_mem_nil) hs
  | cons c s ih =>
      have hrest (hc : c.isDigit = true ∨ c = '-') : ¬ SignsAndDigits s := fun h =>
        hs (List.forall_mem_cons.mpr ⟨hc, h⟩)
      rw [get_current_value_loop]
      by_cases hminus : c = '-'
      · rw [if_pos ((eq_minus_iff c).mpr hminus)]
        exact ih (hrest (Or.inr hminus)) _ _
      · rw [if_neg fun h => hminus ((eq_minus_iff c).mp h)]
        by_cases hdigit : c.isDigit = true
        · have hrange := (isDigit_iff c).mp hdigit
          rw [if_neg (by omega)]
          exact ih (hrest (Or.inl hdigit)) _ _
        · rw [isDigit_iff] at hdigit
          rw [if_pos (by omega)]
          exact ⟨_, rfl⟩

/-! ## The result -/

/-- The quotient is cut off towards 0. -/
theorem tdiv_ten (n : Int) : (0 ≤ n → 10 * n.tdiv 10 ≤ n ∧ n ≤ 10 * n.tdiv 10 + 9) ∧
    (n ≤ 0 → n ≤ 10 * n.tdiv 10 ∧ 10 * n.tdiv 10 ≤ n + 9) := by
  have hsplit := Int.mul_tdiv_add_tmod n 10
  have hlow := Int.lt_tmod_of_pos n (b := 10) (by decide)
  have hhigh := Int.tmod_lt_of_pos n (b := 10) (by decide)
  constructor
  · intro hn
    have hrest := Int.tmod_nonneg 10 hn
    omega
  · intro hn
    have hrest := Int.tmod_nonneg 10 (Int.neg_nonneg.mpr hn)
    rw [Int.neg_tmod] at hrest
    omega

/-- The quotient that is stored, without its sign. -/
def storedMagnitude (s : List Char) : Int :=
  (toLong (10 * (Nat.ofDigitChars 10 (digitsOf s) 0 : Nat))).tdiv 10

theorem storedMagnitude_bound (s : List Char) :
    -922337203685477580 ≤ storedMagnitude s ∧ storedMagnitude s ≤ 922337203685477580 := by
  obtain ⟨hlow, hhigh⟩ := toLong_fits (10 * (Nat.ofDigitChars 10 (digitsOf s) 0 : Nat))
  have hdiv := tdiv_ten (toLong (10 * (Nat.ofDigitChars 10 (digitsOf s) 0 : Nat)))
  unfold storedMagnitude
  omega

theorem get_current_value_ok {s : List Char} (hs : SignsAndDigits s) :
    get_current_value (some s) =
      (1, if '-' ∈ s then -storedMagnitude s else storedMagnitude s) := by
  have hloop := get_current_value_loop_ok hs 1 0
  have hbound := storedMagnitude_bound s
  have hfits : FitsLong (storedMagnitude s) := ⟨by omega, by omega⟩
  have hneg : FitsLong (storedMagnitude s * -1) := ⟨by omega, by omega⟩
  rw [show toLong (10 * ((0 : Nat) : Int)) = 0 from rfl] at hloop
  simp only [get_current_value, hloop]
  rw [← storedMagnitude, toLong_eq hfits]
  split_ifs
  · rw [toLong_eq hneg, Int.mul_neg_one]
  · rw [Int.mul_one, toLong_eq hfits]

theorem get_current_value_error {s : List Char} (hs : ¬ SignsAndDigits s) :
    (get_current_value (some s)).1 = 0 := by
  obtain ⟨v, hv⟩ := get_current_value_loop_error hs 1 0
  simp only [get_current_value, hv]

/-- A numeral of a small value is stored as it is. -/
theorem get_current_value_numeral {s : List Char} {v : Int} (h : Numeral s v)
    (hlow : -922337203685477580 ≤ v) (hhigh : v ≤ 922337203685477580) :
    get_current_value (some s) = (1, v) := by
  have hfilter {ds : List Char} (hds : AllDigits ds) : digitsOf ds = ds ∧ '-' ∉ ds := by
    have hne : ∀ c ∈ ds, c ≠ '-' := by
      rintro c hc rfl
      exact absurd (hds '-' hc) (by decide)
    exact ⟨List.filter_eq_self.mpr fun c hc => decide_eq_true (hne c hc), fun hc => hne '-' hc rfl⟩
  have hsmall {n : Nat} (hn : (n : Int) ≤ 922337203685477580) : (toLong (10 * n)).tdiv 10 = n := by
    rw [toLong_eq ⟨by omega, by omega⟩, Int.mul_comm]
    exact Int.mul_tdiv_cancel _ (by decide)
  rw [get_current_value_ok h.signsAndDigits]
  cases h with
  | plain hne hds =>
      obtain ⟨hdigits, hminus⟩ := hfilter hds
      rw [if_neg hminus, storedMagnitude, hdigits, hsmall hhigh]
  | minus hne hds =>
      rename_i ds
      have hdigits : digitsOf ('-' :: ds) = ds := by
        rw [digitsOf, List.filter_cons_of_neg (by decide)]
        exact (hfilter hds).1
      rw [if_pos List.mem_cons_self, storedMagnitude, hdigits, hsmall (by omega)]

/-- The function is right about a string exactly when another character than digits and minus signs
occurs in it, or it is a numeral whose value can be multiplied by ten. -/
theorem get_current_value_iff (s : List Char) : ValueRight s (get_current_value (some s)) ↔
    (∃ c ∈ s, ¬ (c.isDigit = true ∨ c = '-')) ∨
      ∃ v, Numeral s v ∧ -922337203685477580 ≤ v ∧ v ≤ 922337203685477580 := by
  have hother : (∃ c ∈ s, ¬ (c.isDigit = true ∨ c = '-')) ↔ ¬ SignsAndDigits s := by
    simp [SignsAndDigits]
  rw [hother]
  constructor
  · intro hright
    by_cases hs : SignsAndDigits s
    · have hres := get_current_value_ok hs
      obtain ⟨v, hv, hfits⟩ := hright.accepts.mp (by rw [hres])
      have hstored := hright.stores v hv hfits
      have hbound := storedMagnitude_bound s
      rw [hres] at hstored
      refine Or.inr ⟨v, hv, ?_⟩
      rw [← hstored]
      split_ifs <;> omega
    · exact Or.inl hs
  · rintro (hs | ⟨v, hv, hlow, hhigh⟩)
    · have hnone (v : Int) : ¬ Numeral s v := fun hv => hs hv.signsAndDigits
      refine ⟨?_, fun v hv => absurd hv (hnone v)⟩
      rw [get_current_value_error hs]
      exact iff_of_false (by decide) fun hex => hex.elim fun v hv => hnone v hv.1
    · have hres := get_current_value_numeral hv hlow hhigh
      refine ⟨?_, fun v' hv' _ => ?_⟩
      · rw [hres]
        exact iff_of_true rfl ⟨v, hv, by omega, by omega⟩
      · rw [hres, hv.unique hv']

/-- The minus sign may stand anywhere. -/
theorem get_current_value_sign : ¬ ∀ s, ValueRight s (get_current_value (some s)) := by
  intro hall
  obtain ⟨v, hv, -⟩ := (hall ['1', '-', '2']).accepts.mp (by decide)
  generalize hs : ['1', '-', '2'] = s at hv
  cases hv with
  | plain _ hds => exact absurd (hds '-' (by simp [← hs])) (by decide)
  | minus => exact absurd (List.cons.inj hs).1 (by decide)

/-- `18446744073709551716`, which is `2^64 + 100`, is taken for a number below `2^63`. -/
example : (get_current_value (some "18446744073709551716".toList)).1 = 1 := by decide

end StarterProjects.Dtmf
