import StarterProjects.Dtmf.Generate
import StarterProjects.Dtmf.Detect
import StarterProjects.Lib.Decimal

/-!
# Event lines, printed and read

`dtmf_detect` prints an event as start, end and symbol between tabs; `dtmf_generate` reads such a
line with `get_txt_idx`, which multiplies by ten once more than there are digits and divides at the
end. `parseLine_printed_iff`: an event comes back exactly when ten times its end is an `int`.
-/

namespace StarterProjects.Dtmf

open Lib.Decimal

/-- `%i`. -/
def printInt : Int → List Char
  | .ofNat n => Nat.toDigits 10 n
  | .negSucc n => '-' :: Nat.toDigits 10 (n + 1)

/-- `fprintf(events_out, "%i\t%i\t%c\n", ...)`. -/
def Event.print (e : Event) : List Char :=
  printInt e.startIdx ++ '\t' :: (printInt e.endIdx ++ ['\t', e.symbol, '\n'])

theorem int32_of_lt {n : Int} (h0 : 0 ≤ n) (h : n < 2147483648) : int32 n = some n :=
  if_pos ⟨by omega, h⟩

theorem int32_overflow {n : Int} (h : 2147483648 ≤ n) : int32 n = none :=
  if_neg (by omega)

/-- The scan of digits, from ten times the value so far. -/
theorem get_txt_idx_loop_digits {ds : List Char} (hds : AllDigits ds) {stop : Char}
    (hstop : stop.isDigit = false) (rest : List Char) {u : Nat} (hu : 10 * u < 2147483648)
    (count : Nat) : get_txt_idx_loop (ds ++ stop :: rest) (10 * u : Nat) count =
      if 10 * Nat.ofDigitChars 10 ds u < 2147483648 then
        some (count + ds.length, (Nat.ofDigitChars 10 ds u : Int))
      else none := by
  induction ds generalizing u count with
  | nil =>
      have hend : stop.toNat > 57 ∨ stop.toNat < 48 := by
        rw [Bool.eq_false_iff, ne_eq, isDigit_iff] at hstop
        omega
      rw [List.nil_append, get_txt_idx_loop, if_pos hend, Nat.ofDigitChars_nil, if_pos hu]
      have hdiv : ((10 * u : Nat) : Int).tdiv 10 = u := by
        rw [Nat.cast_mul, Int.mul_comm]
        exact Int.mul_tdiv_cancel _ (by decide)
      rw [hdiv, List.length_nil, Nat.add_zero]
  | cons c ds ih =>
      obtain ⟨hc, hds⟩ := allDigits_cons.mp hds
      rw [isDigit_iff] at hc
      have hgo : ¬ (c.toNat > 57 ∨ c.toNat < 48) := by omega
      have hvalue := le_value ds (10 * u + (c.toNat - 48))
      have hadd : ((10 * u : Nat) : Int) + ((c.toNat : Int) - 48) =
          ((10 * u + (c.toNat - 48) : Nat) : Int) := by omega
      rw [List.cons_append, get_txt_idx_loop, if_neg hgo, value_cons, hadd]
      rcases Nat.lt_or_ge (10 * (10 * u + (c.toNat - 48))) 2147483648 with hfits | hover
      · have hmul : ((10 * u + (c.toNat - 48) : Nat) : Int) * 10 =
            ((10 * (10 * u + (c.toNat - 48)) : Nat) : Int) := by omega
        rw [int32_of_lt (by omega) (by omega), Option.bind_eq_bind, Option.bind_some,
          int32_of_lt (by omega) (by omega), hmul, Option.bind_some]
        rw [ih hds hfits (count + 1), List.length_cons, Nat.add_right_comm, Nat.add_assoc]
      · rw [if_neg (by omega)]
        rcases Nat.lt_or_ge (10 * u + (c.toNat - 48)) 2147483648 with hsum | hsum
        · rw [int32_of_lt (by omega) (by omega), Option.bind_eq_bind, Option.bind_some,
            int32_overflow (by omega), Option.bind_none]
        · rw [int32_overflow (by omega), Option.bind_eq_bind, Option.bind_none]

/-- A printed number that another character follows. -/
theorem get_txt_idx_print {n : Int} (hn : 0 ≤ n) {stop : Char} (hstop : stop.isDigit = false)
    (rest : List Char) : get_txt_idx (printInt n ++ stop :: rest) =
      if 10 * n < 2147483648 then some ((printInt n).length, n) else none := by
  obtain ⟨m, rfl⟩ := Int.eq_ofNat_of_zero_le hn
  have hloop := get_txt_idx_loop_digits (allDigits_toDigits m) hstop rest (u := 0) (by decide) 0
  rw [Nat.ofDigitChars_ten_toDigits, Nat.zero_add] at hloop
  show get_txt_idx_loop (Nat.toDigits 10 m ++ stop :: rest) ((10 * 0 : Nat) : Int) 0 = _
  rw [hloop]
  refine if_congr ?_ rfl rfl
  omega

theorem parseLine_none {line_buf : List Char} (h : get_txt_idx line_buf = none) :
    parseLine line_buf = none := by
  unfold parseLine
  rw [h]
  rfl

theorem parseLine_some {line_buf : List Char} {count : Nat} {curStrIdx : Int}
    (h : get_txt_idx line_buf = some (count, curStrIdx)) :
    parseLine line_buf = (get_txt_idx (line_buf.drop (count + 1))).bind fun second =>
      ((line_buf.drop (count + 1)).drop (second.1 + 1)).head?.map fun curDTMF =>
        ⟨curStrIdx, second.2, curDTMF⟩ := by
  unfold parseLine
  rw [h]
  cases hsecond : get_txt_idx (line_buf.drop (count + 1)) with
  | none =>
      simp only [Option.bind_eq_bind, Option.bind_some, hsecond, Option.bind_none]
  | some second =>
      simp only [Option.bind_eq_bind, Option.bind_some, hsecond]
      cases ((line_buf.drop (count + 1)).drop (second.1 + 1)).head? <;> rfl

theorem drop_past (front : List Char) (c : Char) (back : List Char) :
    (front ++ c :: back).drop (front.length + 1) = back := by
  rw [List.drop_append, Nat.add_sub_cancel_left, List.drop_of_length_le (Nat.le_succ _)]
  rfl

/-- The line, whatever follows it in the buffer. -/
theorem parseLine_print {startIdx endIdx : Int} (symbol : Char) (h0 : 0 ≤ startIdx)
    (h1 : 0 ≤ endIdx) (rest : List Char) :
    parseLine (Event.print ⟨startIdx, endIdx, symbol⟩ ++ rest) =
      if 10 * startIdx < 2147483648 ∧ 10 * endIdx < 2147483648 then
        some ⟨startIdx, endIdx, symbol⟩
      else none := by
  have hline : Event.print ⟨startIdx, endIdx, symbol⟩ ++ rest = printInt startIdx ++ '\t' ::
      (printInt endIdx ++ '\t' :: (symbol :: '\n' :: rest)) := by
    simp [Event.print]
  have htab : ('\t').isDigit = false := by decide
  have hfirst := get_txt_idx_print h0 htab (printInt endIdx ++ '\t' :: (symbol :: '\n' :: rest))
  have hsecond := get_txt_idx_print h1 htab (symbol :: '\n' :: rest)
  rw [hline]
  by_cases hs : 10 * startIdx < 2147483648
  · rw [if_pos hs] at hfirst
    rw [parseLine_some hfirst, drop_past, hsecond]
    by_cases he : 10 * endIdx < 2147483648
    · rw [if_pos he, Option.bind_some, drop_past, if_pos ⟨hs, he⟩]
      rfl
    · rw [if_neg he, if_neg fun h => he h.2, Option.bind_none]
  · rw [if_neg hs] at hfirst
    rw [parseLine_none hfirst, if_neg fun h => hs h.1]

/-- Between 0 and the limit that `-t` admits, an event is read back from its line exactly when ten
times its end is an `int`. -/
theorem parseLine_printed_iff {startIdx endIdx : Int} (symbol : Char) (old : List Char)
    (h0 : 0 ≤ startIdx) (hle : startIdx ≤ endIdx) (hmax : endIdx ≤ 2147483640) :
    parseLine (storeLine (Event.print ⟨startIdx, endIdx, symbol⟩) old) =
        some ⟨startIdx, endIdx, symbol⟩ ↔ endIdx ≤ 214748364 := by
  unfold storeLine
  rw [parseLine_print symbol h0 (h0.trans hle)]
  by_cases hend : endIdx ≤ 214748364
  · rw [if_pos ⟨by omega, by omega⟩]
    exact iff_of_true rfl hend
  · rw [if_neg (by omega)]
    exact iff_of_false (by simp) hend

/-- The last event of a stream of half a minute. -/
theorem parseLine_printed_short :
    parseLine (storeLine (Event.print ⟨239800, 240000, '5'⟩) emptyLineBuf) =
      some ⟨239800, 240000, '5'⟩ ↔ (240000 : Int) ≤ 214748364 :=
  parseLine_printed_iff '5' emptyLineBuf (by decide) (by decide) (by decide)

/-- An event that ends where ten times the index is no `int` any more. -/
theorem parseLine_printed_overflow : ¬ ∀ (startIdx endIdx : Int) (symbol : Char) (old : List Char),
    0 ≤ startIdx → startIdx ≤ endIdx → endIdx ≤ 2147483640 →
      parseLine (storeLine (Event.print ⟨startIdx, endIdx, symbol⟩) old) =
        some ⟨startIdx, endIdx, symbol⟩ := by
  intro hall
  have hread := hall 0 214748365 '1' [] (by decide) (by decide) (by decide)
  unfold storeLine at hread
  rw [parseLine_print '1' (by decide) (by decide), if_neg (by decide)] at hread
  exact absurd hread (by simp)

end StarterProjects.Dtmf
