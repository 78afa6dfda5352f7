import Mathlib.Analysis.SpecialFunctions.Pow.Real
import StarterProjects.Jeux.Ratings
import StarterProjects.Lib.Truncation

/-!
# What a result does to the ratings

`player_post_result` in exact arithmetic: a new rating is `R + 32 * (S - E)` rounded towards zero
(`elo_eq_trunc`), where the exponent in `E` is a quotient of integers; in its contract
(`documented`) it is a real quotient. Differences and new ratings that are no `int` are undefined
in C; without them a result moves points from the loser to the winner, except for the rounding
(`fairStep_new`).
-/

namespace StarterProjects.Jeux

open Lib Lib.Exec

/-- The values of an `int`. -/
def IsInt (n : Int) : Prop := -2147483648 ≤ n ∧ n ≤ 2147483647

instance (n : Int) : Decidable (IsInt n) := inferInstanceAs (Decidable (_ ∧ _))

def newR1 (R1 R2 result : Int) : Int := elo R1 ((R2 - R1).tdiv 400) (scores result).1

def newR2 (R1 R2 result : Int) : Int := elo R2 ((R1 - R2).tdiv 400) (scores result).2

/-- No conversion and no difference overflows. -/
structure InRange (R1 R2 result : Int) : Prop where
  diff : IsInt (R2 - R1)
  diff' : IsInt (R1 - R2)
  new1 : IsInt (newR1 R1 R2 result)
  new2 : IsInt (newR2 R1 R2 result)

instance (R1 R2 result : Int) : Decidable (InRange R1 R2 result) :=
  decidable_of_iff (IsInt (R2 - R1) ∧ IsInt (R1 - R2) ∧ IsInt (newR1 R1 R2 result) ∧
      IsInt (newR2 R1 R2 result))
    ⟨fun h => ⟨h.1, h.2.1, h.2.2.1, h.2.2.2⟩, fun h => ⟨h.diff, h.diff', h.new1, h.new2⟩⟩

/-- `player_post_result` with its overflows. -/
def player_post_result_int (player1 player2 : PlayerPtr) (result : Int) : Prog World Unit := do
  let R1 ← lockedRead player1
  let R2 ← lockedRead player2
  if InRange R1 R2 result then
    lockedWrite player1 (newR1 R1 R2 result)
    lockedWrite player2 (newR2 R1 R2 result)
  else
    Prog.stop .undefined

section Run

variable {w : World} {p1 p2 : PlayerPtr} (h1 : Ready w p1) (h2 : Ready w p2) (result : Int)

include h1 h2

/-- Where nothing overflows it is `player_post_result` in exact arithmetic. -/
theorem post_int_run : (player_post_result_int p1 p2 result).run w =
    if InRange (ratingOf w p1) (ratingOf w p2) result then
      (player_post_result elo id p1 p2 result).run w
    else .error .undefined := by
  rw [player_post_result_int, Prog.run_bind_ok (lockedRead_ready h1),
    Prog.run_bind_ok (lockedRead_ready h2)]
  split
  · rw [player_post_result]
    dsimp only [id]
    rw [Prog.run_bind_ok (lockedRead_ready h1), Prog.run_bind_ok (lockedRead_ready h2)]
    rfl
  · rfl

theorem post_elo_run : (player_post_result elo id p1 p2 result).run w =
    .ok ((), rate p2 (newR2 (ratingOf w p1) (ratingOf w p2) result)
      (rate p1 (newR1 (ratingOf w p1) (ratingOf w p2) result) w)) := by
  have hready : ∀ m : Fin 2, Ready w (if m = 0 then p1 else p2) := fun m => by
    split
    · exact h1
    · exact h2
  exact post_run hready

/-- What it leaves, and that nothing else can be left. -/
theorem post_int_ends_iff (hne : p1 ≠ p2) (Q : Int → Int → Prop) :
    (Ends (player_post_result_int p1 p2 result).run w fun _ w' =>
      Q (ratingOf w' p1) (ratingOf w' p2)) ↔
    InRange (ratingOf w p1) (ratingOf w p2) result ∧
      Q (newR1 (ratingOf w p1) (ratingOf w p2) result)
        (newR2 (ratingOf w p1) (ratingOf w p2) result) := by
  unfold Ends
  simp only [post_int_run h1 h2]
  split
  · next hr =>
    rw [post_elo_run h1 h2]
    constructor
    · rintro ⟨_, w', he, hQ⟩
      obtain ⟨-, rfl⟩ := Prod.mk.inj (Except.ok.inj he)
      rw [ratingOf_rate_other hne, ratingOf_rate_same h1, ratingOf_rate_same (ready_rate h2)] at hQ
      exact ⟨hr, hQ⟩
    · rintro ⟨-, hQ⟩
      refine ⟨(), _, rfl, ?_⟩
      rw [ratingOf_rate_other hne, ratingOf_rate_same h1, ratingOf_rate_same (ready_rate h2)]
      exact hQ
  · next hr =>
    constructor
    · rintro ⟨_, _, he, -⟩
      cases he
    · rintro ⟨hr', -⟩
      exact absurd hr' hr

end Run

/-! ## The formula -/

def Score.value : Score → ℚ
  | .lost => 0
  | .drew => 1 / 2
  | .won => 1

/-- `E1` or `E2`, for the exponent `k`. -/
def expectation (K : Type*) [Field K] (k : Int) : K := 1 / (1 + 10 ^ k)

/-- The new rating of a player, as the contract has it. -/
noncomputable def documented (R Ropp : Int) (S : Score) : Int :=
  trunc ((R : ℝ) + 32 * (S.value - 1 / (1 + (10 : ℝ) ^ (((Ropp - R : Int) : ℝ) / 400))))

/-- The odds against the player whose rating is lower by `a`. -/
noncomputable def odds (a : ℕ) : ℝ := (10 : ℝ) ^ ((a : ℝ) / 400)

/-- Of 32 points, with odds of `x` to 1 against a player. -/
noncomputable def points (x : ℝ) : ℝ := 32 / (1 + x)

section Formula

variable {K : Type*} [Field K] [LinearOrder K] [IsStrictOrderedRing K] [FloorRing K]

omit [FloorRing K] in
/-- The fraction that stands for a power in `elo`. -/
theorem expectation_eq (k : Int) :
    expectation K k = 10 ^ (-k).toNat / (10 ^ k.toNat + 10 ^ (-k).toNat) := by
  rcases le_total 0 k with hk | hk
  · obtain ⟨n, rfl⟩ := Int.eq_ofNat_of_zero_le hk
    rw [expectation, Int.toNat_neg_natCast, Int.toNat_natCast, zpow_natCast, pow_zero, add_comm]
  · obtain ⟨n, hn⟩ := Int.eq_ofNat_of_zero_le (Int.neg_nonneg_of_nonpos hk)
    obtain rfl : k = -n := by omega
    have hpos : (0 : K) < 10 ^ n := pow_pos (by norm_num) n
    rw [expectation, neg_neg, Int.toNat_neg_natCast, Int.toNat_natCast, zpow_neg, zpow_natCast,
      pow_zero]
    field_simp
    ring

theorem elo_eq_trunc (R k : Int) (S : Score) :
    elo R k S = trunc ((R : K) + 32 * (S.value - expectation K k)) := by
  have hpos : (0 : K) < 10 ^ k.toNat + 10 ^ (-k).toNat :=
    add_pos (pow_pos (by norm_num) _) (pow_pos (by norm_num) _)
  have hb : (10 ^ k.toNat + 10 ^ (-k).toNat : Int) =
      ((10 ^ k.toNat + 10 ^ (-k).toNat : ℕ) : ℤ) := by
    push_cast
    rfl
  simp only [elo]
  rw [hb, ← trunc_div (K := K), expectation_eq]
  congr 1
  push_cast
  cases S <;> simp only [Score.value] <;> field_simp <;> ring

omit [FloorRing K] in
theorem expectation_pos (k : Int) : 0 < expectation K k :=
  one_div_pos.mpr (add_pos one_pos (zpow_pos (by norm_num) k))

omit [FloorRing K] in
/-- What the two players are expected to score. -/
theorem expectation_neg (k : Int) : expectation K (-k) = 1 - expectation K k := by
  have hpos : (0 : K) < 10 ^ k := zpow_pos (by norm_num) k
  rw [expectation, expectation, zpow_neg]
  field_simp
  ring

omit [FloorRing K] in
theorem expectation_lt_one (k : Int) : expectation K k < 1 := by
  have hpos := expectation_pos (K := K) (-k)
  rw [expectation_neg] at hpos
  linarith

end Formula

/-- One point is given for a game. -/
theorem scores_value (result : Int) :
    (scores result).2.value = 1 - (scores result).1.value := by
  unfold scores
  split
  · show (1 : ℚ) / 2 = 1 - 1 / 2
    norm_num
  · split
    · exact (sub_self 1).symm
    · exact (sub_zero 1).symm

theorem Score.value_mem (S : Score) : 0 ≤ S.value ∧ S.value ≤ 1 := by
  cases S <;> simp only [Score.value] <;> norm_num

/-! ## What the formula does -/

theorem elo_near (R k : Int) (S : Score) : |elo R k S - R| ≤ 32 := by
  rw [elo_eq_trunc (K := ℚ), abs_le]
  have hS := Score.value_mem S
  have he := expectation_pos (K := ℚ) k
  have he' := expectation_lt_one (K := ℚ) k
  constructor
  · refine le_sub_iff_add_le.mpr (le_trunc ?_)
    push_cast
    linarith [hS.1]
  · refine sub_le_iff_le_add.mpr (trunc_le ?_)
    push_cast
    linarith [hS.2]

theorem le_elo_won (R k : Int) : R ≤ elo R k .won := by
  rw [elo_eq_trunc (K := ℚ)]
  refine le_trunc ?_
  have he := expectation_lt_one (K := ℚ) k
  show (R : ℚ) ≤ R + 32 * (1 - expectation ℚ k)
  linarith

theorem elo_lost_le (R k : Int) : elo R k .lost ≤ R := by
  rw [elo_eq_trunc (K := ℚ)]
  refine trunc_le ?_
  have he := expectation_pos (K := ℚ) k
  show R + 32 * (0 - expectation ℚ k) ≤ (R : ℚ)
  linarith

/-- A game moves ratings from the loser to the winner. -/
structure FairStep (result R1 R2 N1 N2 : Int) : Prop where
  moves1 : |N1 - R1| ≤ 32
  moves2 : |N2 - R2| ≤ 32
  won1 : result = 1 → R1 ≤ N1 ∧ N2 ≤ R2
  won2 : result ≠ 0 → result ≠ 1 → R2 ≤ N2 ∧ N1 ≤ R1
  total : |N1 + N2 - (R1 + R2)| ≤ 1

theorem fairStep_new (R1 R2 result : Int) :
    FairStep result R1 R2 (newR1 R1 R2 result) (newR2 R1 R2 result) where
  moves1 := elo_near _ _ _
  moves2 := elo_near _ _ _
  won1 := by
    rintro rfl
    exact ⟨le_elo_won _ _, elo_lost_le _ _⟩
  won2 := by
    intro h0 h1
    have hscores : scores result = (.lost, .won) := by rw [scores, if_neg h0, if_neg h1]
    rw [newR1, newR2, hscores]
    exact ⟨le_elo_won _ _, elo_lost_le _ _⟩
  total := by
    rw [newR1, newR2, elo_eq_trunc (K := ℚ), elo_eq_trunc (K := ℚ)]
    refine trunc_add_near ?_
    rw [← neg_sub R2 R1, Int.neg_tdiv, expectation_neg, scores_value]
    push_cast
    ring

/-- A posted result moves at most 32 points, and none the wrong way. -/
theorem post_fair {w : World} {p1 p2 : PlayerPtr} (hne : p1 ≠ p2) (h1 : Ready w p1)
    (h2 : Ready w p2) (result : Int)
    (hr : InRange (ratingOf w p1) (ratingOf w p2) result) :
    Ends (player_post_result_int p1 p2 result).run w fun _ w' =>
      FairStep result (ratingOf w p1) (ratingOf w p2) (ratingOf w' p1) (ratingOf w' p2) :=
  (post_int_ends_iff h1 h2 result hne _).mpr ⟨hr, fairStep_new _ _ _⟩

theorem post_fair_newcomers :
    (0 : PlayerPtr) ≠ 1 ∧ InRange 1500 1500 2 ∧
      Ends (player_post_result_int 0 1 2).run (World.newcomers 2) fun _ w' =>
        FairStep 2 1500 1500 (ratingOf w' 0) (ratingOf w' 1) := by
  have h0 := ratingOf_newcomers (show 0 < 2 by decide)
  have h1 := ratingOf_newcomers (show 1 < 2 by decide)
  have h := post_fair (show (0 : PlayerPtr) ≠ 1 by decide)
    (ready_newcomers (show 0 < 2 by decide)) (ready_newcomers (show 1 < 2 by decide)) 2
    (by rw [h0, h1]; decide)
  rw [h0, h1] at h
  exact ⟨by decide, by decide, h⟩

/-- Two players with the greatest rating there is. -/
def World.champions : World :=
  rate 1 2147483647 (rate 0 2147483647 (World.newcomers 2))

theorem champions_ratings : Ready World.champions 0 ∧ Ready World.champions 1 ∧
    ratingOf World.champions 0 = 2147483647 ∧ ratingOf World.champions 1 = 2147483647 := by
  have h0 := ready_newcomers (show 0 < 2 by decide)
  have h1 := ready_newcomers (show 1 < 2 by decide)
  refine ⟨ready_rate (ready_rate h0), ready_rate (ready_rate h1), ?_,
    ratingOf_rate_same (ready_rate h1) _⟩
  exact (ratingOf_rate_other (by decide) _ _).trans (ratingOf_rate_same h0 _)

/-- The winner of their game has no new rating. -/
theorem champion_wins :
    IsInt (2147483647 - 2147483647) ∧ ratingOf World.champions 0 = 2147483647 ∧
      ratingOf World.champions 1 = 2147483647 ∧
      ¬ Ends (player_post_result_int 0 1 1).run World.champions fun _ w' =>
        FairStep 1 2147483647 2147483647 (ratingOf w' 0) (ratingOf w' 1) := by
  obtain ⟨hr0, hr1, h0, h1⟩ := champions_ratings
  refine ⟨by decide, h0, h1, fun h => ?_⟩
  have hr := ((post_int_ends_iff hr0 hr1 1 (by decide) _).mp h).1
  rw [h0, h1] at hr
  exact absurd hr (by decide)

end StarterProjects.Jeux
