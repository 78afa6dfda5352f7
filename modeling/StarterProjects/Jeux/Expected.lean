import StarterProjects.Jeux.Elo

/-!
# The documented ratings

The contract of `player_post_result` has the real quotient of the difference of the ratings and
400 in the exponent; the code has the quotient of integers. `documented` is the contract.
What the underdog is expected to score is less than the code takes it for, unless 400 divides the
difference; the new ratings are the same all the same where the difference is lost in the
rounding (`sameRatings_iff`).
-/

namespace StarterProjects.Jeux

open Lib Lib.Exec

/-- The ratings for which a quotient of integers does as well as the real one. -/
def RoundsAlike (R1 R2 result : Int) : Prop :=
  R1 = R2 ∨ (400 ≤ (R2 - R1).natAbs ∧ (R2 - R1).natAbs ≤ 470) ∨ 800 ≤ (R2 - R1).natAbs ∨
    ((R2 - R1).natAbs ≤ 21 ∧ R1.natAbs ≤ 16 ∧ R2.natAbs ≤ 16 ∧
      (if R1 < R2 then (scores result).1 else (scores result).2) = .won)

instance (R1 R2 result : Int) : Decidable (RoundsAlike R1 R2 result) :=
  inferInstanceAs (Decidable (_ ∨ _))

/-! ## The power in the exponent -/

section Power

variable {a : ℕ}

theorem odds_pos : 0 < odds a := Real.rpow_pos_of_pos (by norm_num) _

theorem odds_pow : odds a ^ 400 = 10 ^ a := by
  rw [odds, ← Real.rpow_natCast, ← Real.rpow_mul (by norm_num), Nat.cast_ofNat,
    div_mul_cancel₀ _ (by norm_num), Real.rpow_natCast]

theorem odds_lt {c : ℝ} (hc : 0 ≤ c) (h : 10 ^ a < c ^ 400) : odds a < c := by
  rw [← odds_pow] at h
  exact lt_of_pow_lt_pow_left₀ 400 hc h

theorem le_odds {c : ℝ} (h : c ^ 400 ≤ 10 ^ a) : c ≤ odds a := by
  rw [← odds_pow] at h
  exact le_of_pow_le_pow_left₀ (by norm_num) odds_pos.le h

theorem pow_ten_le {n : ℕ} (h : a ≤ n) : (10 : ℝ) ^ a ≤ 10 ^ n :=
  pow_le_pow_right₀ (by norm_num) h

theorem one_lt_odds (h : 0 < a) : 1 < odds a :=
  Real.one_lt_rpow (by norm_num) (div_pos (Nat.cast_pos.mpr h) (by norm_num))

theorem odds_lt_of_le (h : a ≤ 21) : odds a < 17 / 15 := by
  refine odds_lt (by norm_num) ((pow_ten_le h).trans_lt ?_)
  rw [show 400 = 20 * 20 by norm_num, pow_mul]
  norm_num

theorem le_odds_of_ge (h : 22 ≤ a) : 17 / 15 ≤ odds a := by
  refine le_odds (le_trans ?_ (pow_ten_le h))
  rw [show 400 = 20 * 20 by norm_num, pow_mul]
  norm_num

theorem odds_lt_fifteen (h : a ≤ 470) : odds a < 15 := by
  refine odds_lt (by norm_num) ((pow_ten_le h).trans_lt ?_)
  rw [show 400 = 20 * 20 by norm_num, pow_mul, show 470 = 47 * 10 by norm_num, pow_mul]
  norm_num

theorem fifteen_lt_odds (h : 471 ≤ a) : 15 < odds a := by
  refine lt_of_pow_lt_pow_left₀ 400 odds_pos.le ?_
  rw [odds_pow]
  refine lt_of_lt_of_le ?_ (pow_ten_le h)
  rw [show 400 = 20 * 20 by norm_num, pow_mul, show 471 = 157 * 3 by norm_num, pow_mul]
  norm_num

theorem ten_le_odds (h : 400 ≤ a) : 10 ≤ odds a := le_odds (pow_ten_le h)

theorem hundred_le_odds (h : 800 ≤ a) : 100 ≤ odds a := by
  refine le_odds (le_trans (le_of_eq ?_) (pow_ten_le h))
  rw [show 800 = 2 * 400 by norm_num, pow_mul]
  norm_num

end Power

/-! ## The points that the underdog is expected to score -/

section Points

variable {x c : ℝ}

theorem points_lt (hx : 0 < x) (h : 32 < c * (1 + x)) : points x < c :=
  (div_lt_iff₀ (by linarith)).mpr h

theorem lt_points (hx : 0 < x) (h : c * (1 + x) < 32) : c < points x :=
  (lt_div_iff₀ (by linarith)).mpr h

theorem points_pos (hx : 0 < x) : 0 < points x := lt_points hx (by linarith)

/-- Points between the same two integers make no difference. -/
theorem alike_of_mem {u v n : ℤ} {e f : ℝ} (he : n < e) (he' : e < n + 1) (hf : n < f)
    (hf' : f < n + 1) : trunc (u - e) = trunc (u - f) ∧ trunc (v + e) = trunc (v + f) := by
  constructor
  · refine trunc_eq_of_mem (n := u - n - 1) ?_ ?_ ?_ ?_ <;> push_cast <;> linarith
  · refine trunc_eq_of_mem (n := v + n) ?_ ?_ ?_ ?_ <;> push_cast <;> linarith

/-- The code takes players with about the same rating for equal ones. -/
theorem alike_sixteen_iff {u v : ℤ} {f : ℝ} (hf : 15 < f) (hf' : f < 16) :
    (trunc ((u : ℝ) - 16) = trunc (u - f) ∧ trunc ((v : ℝ) + 16) = trunc (v + f)) ↔
      16 ≤ u ∧ v ≤ -16 := by
  have hu : trunc ((u : ℝ) - 16) = u - 16 := by exact_mod_cast trunc_intCast (K := ℝ) (u - 16)
  have hv : trunc ((v : ℝ) + 16) = v + 16 := by exact_mod_cast trunc_intCast (K := ℝ) (v + 16)
  have huf : trunc (u - f) = if 0 ≤ u - 16 then u - 16 else u - 16 + 1 := by
    refine trunc_of_mem ?_ ?_ <;> push_cast <;> linarith
  have hvf : trunc (v + f) = if 0 ≤ v + 15 then v + 15 else v + 15 + 1 := by
    refine trunc_of_mem ?_ ?_ <;> push_cast <;> linarith
  rw [hu, hv, huf, hvf]
  split <;> split <;> omega

theorem not_alike_sixteen {u : ℤ} {f : ℝ} (hf : f ≤ 15) :
    trunc ((u : ℝ) - 16) ≠ trunc (u - f) := by
  have hu : trunc ((u : ℝ) - 16) = u - 16 := by exact_mod_cast trunc_intCast (K := ℝ) (u - 16)
  have huf : u - 15 ≤ trunc (u - f) := by
    refine le_trunc ?_
    push_cast
    linarith
  omega

/-- Points on both sides of 2 are rounded alike around 0 only. -/
theorem eq_two_of_alike {u v : ℤ} {e f : ℝ} (he : 2 < e) (hf : f < 2)
    (hu : trunc (u - e) = trunc (u - f)) (hv : trunc (v + e) = trunc (v + f)) :
    u = 2 ∧ v = -2 := by
  have hu0 : u - 2 = 0 := by
    refine eq_zero_of_trunc_eq (x := u - e) (y := u - f) ?_ ?_ hu <;> push_cast <;> linarith
  have hv0 : v + 2 = 0 := by
    refine eq_zero_of_trunc_eq (x := v + f) (y := v + e) ?_ ?_ hv.symm <;> push_cast <;> linarith
  omega

/-- For which differences, and for which numbers that the points are taken from and given to,
the two quotients round alike. -/
theorem alike_iff {u v : ℤ} {a : ℕ} (ha : 0 < a) (huv : u - v + a ≤ 64) :
    (trunc (u - points (10 ^ (a / 400))) = trunc (u - points (odds a)) ∧
      trunc (v + points (10 ^ (a / 400))) = trunc (v + points (odds a))) ↔
    (400 ≤ a ∧ a ≤ 470) ∨ 800 ≤ a ∨ (a ≤ 21 ∧ 16 ≤ u ∧ v ≤ -16) := by
  have hpos := odds_pos (a := a)
  -- the exponent of the code is 0 below 400, 1 below 800, and at least 2 from there on
  rcases Nat.lt_or_ge a 400 with h400 | h400
  · have hcode : points (10 ^ (a / 400)) = 16 := by
      rw [Nat.div_eq_of_lt h400, points]
      norm_num
    rw [hcode]
    rcases Nat.lt_or_ge 21 a with h21 | h21
    · have hf : points (odds a) ≤ 15 :=
        (div_le_iff₀ (by linarith)).mpr (by linarith [le_odds_of_ge h21])
      have hne := not_alike_sixteen (u := u) hf
      constructor
      · rintro ⟨hu, -⟩
        exact absurd hu hne
      · omega
    · have hf := lt_points (c := 15) hpos (by linarith [odds_lt_of_le h21])
      have hf' := points_lt (c := 16) hpos (by linarith [one_lt_odds ha])
      rw [alike_sixteen_iff hf hf']
      omega
  · rcases Nat.lt_or_ge a 800 with h800 | h800
    · have hcode : points (10 ^ (a / 400)) = 32 / 11 := by
        rw [show a / 400 = 1 by omega, points]
        norm_num
      rw [hcode]
      rcases Nat.lt_or_ge 470 a with h470 | h470
      · have hf := points_lt (c := 2) hpos (by linarith [fifteen_lt_odds h470])
        constructor
        · rintro ⟨hu, hv⟩
          have htwo := eq_two_of_alike (by norm_num) hf hu hv
          omega
        · omega
      · have hf := lt_points (c := 2) hpos (by linarith [odds_lt_fifteen h470])
        have hf' := points_lt (c := 3) hpos (by linarith [ten_le_odds h400])
        refine iff_of_true (alike_of_mem (n := 2) ?_ ?_ ?_ ?_) (by omega) <;> push_cast
        · norm_num
        · norm_num
        · exact hf
        · linarith
    · have hcode : (100 : ℝ) ≤ 10 ^ (a / 400) := by
        have hpow : (10 : ℝ) ^ 2 ≤ 10 ^ (a / 400) := pow_le_pow_right₀ (by norm_num) (by omega)
        linarith
      have he := points_lt (x := 10 ^ (a / 400)) (c := 1) (by linarith) (by linarith)
      have hf := points_lt (c := 1) hpos (by linarith [hundred_le_odds h800])
      have he0 := points_pos (x := 10 ^ (a / 400)) (by linarith)
      have hf0 := points_pos hpos
      refine iff_of_true (alike_of_mem (n := 0) ?_ ?_ ?_ ?_) (by omega) <;> push_cast <;> linarith

end Points

/-! ## The two formulas -/

/-- The points for a score. -/
def stake : Score → Int
  | .lost => 0
  | .drew => 16
  | .won => 32

theorem stake_value (S : Score) : (stake S : ℝ) = 32 * S.value := by
  cases S <;> simp only [stake, Score.value] <;> norm_num

section Underdog

variable {R Ropp : Int} (h : R < Ropp) (S : Score)

include h

theorem tdiv_underdog : (Ropp - R).tdiv 400 = ((Ropp - R).natAbs / 400 : ℕ) := by
  rw [Int.tdiv_eq_ediv_of_nonneg (by omega)]
  omega

theorem cast_underdog : ((Ropp - R : Int) : ℝ) = (Ropp - R).natAbs := by
  rw [← Int.cast_natCast, Int.natAbs_of_nonneg (by omega)]

theorem elo_underdog : elo R ((Ropp - R).tdiv 400) S =
    trunc ((R + stake S : Int) - points (10 ^ ((Ropp - R).natAbs / 400))) := by
  rw [elo_eq_trunc (K := ℝ), tdiv_underdog h, expectation, zpow_natCast, points]
  push_cast
  rw [stake_value]
  congr 1
  ring

theorem elo_favourite {S' : Score} (hS : S'.value = 1 - S.value) :
    elo Ropp ((R - Ropp).tdiv 400) S' =
      trunc ((Ropp - stake S : Int) + points (10 ^ ((Ropp - R).natAbs / 400))) := by
  rw [elo_eq_trunc (K := ℝ), ← neg_sub Ropp R, Int.neg_tdiv, expectation_neg, tdiv_underdog h,
    expectation, zpow_natCast, points, hS]
  push_cast
  rw [stake_value]
  congr 1
  ring

theorem documented_underdog : documented R Ropp S =
    trunc ((R + stake S : Int) - points (odds (Ropp - R).natAbs)) := by
  rw [documented, cast_underdog h, ← odds, points]
  push_cast
  rw [stake_value]
  congr 1
  ring

theorem documented_favourite {S' : Score} (hS : S'.value = 1 - S.value) :
    documented Ropp R S' =
      trunc ((Ropp - stake S : Int) + points (odds (Ropp - R).natAbs)) := by
  have hpos := odds_pos (a := (Ropp - R).natAbs)
  have hodds : (10 : ℝ) ^ (((R - Ropp : Int) : ℝ) / 400) = (odds (Ropp - R).natAbs)⁻¹ := by
    rw [← neg_sub Ropp R, Int.cast_neg, cast_underdog h, neg_div, Real.rpow_neg (by norm_num),
      ← odds]
  rw [documented, hodds, points, hS]
  push_cast
  rw [stake_value]
  congr 1
  field_simp
  ring

/-- Both new ratings are the documented ones. -/
theorem sameRatings_underdog {S' : Score} (hS : S'.value = 1 - S.value) :
    (elo R ((Ropp - R).tdiv 400) S = documented R Ropp S ∧
      elo Ropp ((R - Ropp).tdiv 400) S' = documented Ropp R S') ↔
    (400 ≤ (Ropp - R).natAbs ∧ (Ropp - R).natAbs ≤ 470) ∨ 800 ≤ (Ropp - R).natAbs ∨
      ((Ropp - R).natAbs ≤ 21 ∧ R.natAbs ≤ 16 ∧ Ropp.natAbs ≤ 16 ∧ S = .won) := by
  have hstake : stake S = 0 ∨ stake S = 16 ∨ stake S = 32 := by
    cases S
    · exact Or.inl rfl
    · exact Or.inr (Or.inl rfl)
    · exact Or.inr (Or.inr rfl)
  rw [elo_underdog h, elo_favourite h S hS, documented_underdog h, documented_favourite h S hS,
    alike_iff (by omega) (by omega)]
  refine or_congr Iff.rfl (or_congr Iff.rfl (and_congr Iff.rfl ?_))
  constructor
  · rintro ⟨hu, hv⟩
    have hwon : S = .won := by
      cases S
      · simp only [stake] at hu hv
        omega
      · simp only [stake] at hu hv
        omega
      · rfl
    rw [hwon, stake] at hu hv
    exact ⟨by omega, by omega, hwon⟩
  · rintro ⟨hR, hRopp, rfl⟩
    rw [stake]
    omega

end Underdog

theorem scores_value_fst (result : Int) :
    (scores result).1.value = 1 - (scores result).2.value := by
  rw [scores_value, sub_sub_cancel]

/-- Where the code does what its contract says, as far as the numbers go. -/
theorem sameRatings_iff (R1 R2 result : Int) :
    (newR1 R1 R2 result = documented R1 R2 (scores result).1 ∧
      newR2 R1 R2 result = documented R2 R1 (scores result).2) ↔ RoundsAlike R1 R2 result := by
  rw [newR1, newR2, RoundsAlike]
  rcases lt_trichotomy R1 R2 with hlt | rfl | hgt
  · rw [sameRatings_underdog hlt _ (scores_value result), if_pos hlt, or_iff_right hlt.ne]
  · refine iff_of_true ⟨?_, ?_⟩ (Or.inl rfl) <;>
      rw [elo_eq_trunc (K := ℝ), documented, sub_self, Int.zero_tdiv, expectation, zpow_zero,
        Int.cast_zero, zero_div, Real.rpow_zero]
  · rw [and_comm, sameRatings_underdog hgt _ (scores_value_fst result), if_neg (by omega)]
    have habs : (R1 - R2).natAbs = (R2 - R1).natAbs := by omega
    rw [habs, or_iff_right hgt.ne', and_left_comm (a := R2.natAbs ≤ 16)]

/-- A posted result leaves the documented ratings exactly when there are such ratings, the
differences do not overflow, and the two quotients round alike. -/
theorem post_documented_iff {w : World} {p1 p2 : PlayerPtr} (hne : p1 ≠ p2) (h1 : Ready w p1)
    (h2 : Ready w p2) (result : Int) :
    (Ends (player_post_result_int p1 p2 result).run w fun _ w' =>
      ratingOf w' p1 = documented (ratingOf w p1) (ratingOf w p2) (scores result).1 ∧
        ratingOf w' p2 = documented (ratingOf w p2) (ratingOf w p1) (scores result).2) ↔
    (IsInt (ratingOf w p2 - ratingOf w p1) ∧ IsInt (ratingOf w p1 - ratingOf w p2) ∧
      IsInt (documented (ratingOf w p1) (ratingOf w p2) (scores result).1) ∧
      IsInt (documented (ratingOf w p2) (ratingOf w p1) (scores result).2)) ∧
      RoundsAlike (ratingOf w p1) (ratingOf w p2) result := by
  rw [post_int_ends_iff h1 h2 result hne fun N1 N2 =>
      N1 = documented (ratingOf w p1) (ratingOf w p2) (scores result).1 ∧
        N2 = documented (ratingOf w p2) (ratingOf w p1) (scores result).2, ← sameRatings_iff]
  constructor
  · rintro ⟨hr, he1, he2⟩
    exact ⟨⟨hr.diff, hr.diff', he1 ▸ hr.new1, he2 ▸ hr.new2⟩, he1, he2⟩
  · rintro ⟨⟨hd, hd', hn1, hn2⟩, he1, he2⟩
    exact ⟨⟨hd, hd', he1 ▸ hn1, he2 ▸ hn2⟩, he1, he2⟩

/-- Two players who are 300 points apart. -/
def World.apart : World := rate 1 1800 (World.newcomers 2)

theorem apart_ratings : Ready World.apart 0 ∧ Ready World.apart 1 ∧
    ratingOf World.apart 0 = 1500 ∧ ratingOf World.apart 1 = 1800 := by
  have h0 := ready_newcomers (show 0 < 2 by decide)
  have h1 := ready_newcomers (show 1 < 2 by decide)
  refine ⟨ready_rate h0, ready_rate h1, ?_, ratingOf_rate_same h1 _⟩
  exact (ratingOf_rate_other (by decide) _ _).trans (ratingOf_newcomers (by decide))

theorem post_documented_newcomers :
    (0 : PlayerPtr) ≠ 1 ∧
      Ends (player_post_result_int 0 1 1).run (World.newcomers 2) fun _ w' =>
        ratingOf w' 0 = documented 1500 1500 .won ∧ ratingOf w' 1 = documented 1500 1500 .lost := by
  have h0 := ratingOf_newcomers (show 0 < 2 by decide)
  have h1 := ratingOf_newcomers (show 1 < 2 by decide)
  have h := post_documented_iff (show (0 : PlayerPtr) ≠ 1 by decide)
    (ready_newcomers (show 0 < 2 by decide)) (ready_newcomers (show 1 < 2 by decide)) 1
  rw [h0, h1] at h
  have hsame := (sameRatings_iff 1500 1500 1).mpr (Or.inl rfl)
  have hn1 : IsInt (newR1 1500 1500 1) := by decide
  have hn2 : IsInt (newR2 1500 1500 1) := by decide
  rw [hsame.1] at hn1
  rw [hsame.2] at hn2
  exact ⟨by decide, h.mpr ⟨⟨by decide, by decide, hn1, hn2⟩, Or.inl rfl⟩⟩

/-- After a draw they keep their ratings, as equal players do. -/
theorem apart_draw :
    ratingOf World.apart 0 = 1500 ∧ ratingOf World.apart 1 = 1800 ∧
      (player_post_result_int 0 1 0).run World.apart =
        .ok ((), rate 1 1800 (rate 0 1500 World.apart)) ∧
      ¬ Ends (player_post_result_int 0 1 0).run World.apart fun _ w' =>
        ratingOf w' 0 = documented 1500 1800 .drew ∧
          ratingOf w' 1 = documented 1800 1500 .drew := by
  obtain ⟨hr0, hr1, h0, h1⟩ := apart_ratings
  refine ⟨h0, h1, ?_, fun h => ?_⟩
  · rw [post_int_run hr0 hr1, h0, h1, if_pos (by decide), post_elo_run hr0 hr1, h0, h1]
    rfl
  · have hq := ((post_int_ends_iff hr0 hr1 0 (by decide) fun N1 N2 =>
      N1 = documented 1500 1800 .drew ∧ N2 = documented 1800 1500 .drew).mp h).2
    rw [h0, h1] at hq
    exact absurd ((sameRatings_iff 1500 1800 0).mp hq) (by decide)

end StarterProjects.Jeux
