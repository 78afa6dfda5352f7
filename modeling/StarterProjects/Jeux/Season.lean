import Mathlib.Algebra.BigOperators.Fin
import Mathlib.Algebra.Order.BigOperators.Group.Finset
import StarterProjects.Jeux.Elo

/-!
# A season

Results of games among the registered players, posted one after another. As long as no rating can
get out of the range of an `int`, every one of them is posted (`season_played`). Each result loses
or gains at most one point in rounding, over all players; it gains none while the ratings are
positive.
-/

namespace StarterProjects.Jeux

open Lib Lib.Exec Finset

/-- What `player_post_result` gets. -/
structure Post where
  player1 : PlayerPtr
  player2 : PlayerPtr
  result : Int

def Post.OfPlayer (post : Post) (p : PlayerPtr) : Prop := p = post.player1 ∨ p = post.player2

instance (post : Post) (p : PlayerPtr) : Decidable (post.OfPlayer p) :=
  inferInstanceAs (Decidable (_ ∨ _))

/-- The games of a player. -/
def gamesOf (p : PlayerPtr) (posts : List Post) : Nat := posts.countP fun post => post.OfPlayer p

def season : List Post → Prog World Unit
  | [] => return ()
  | post :: posts => do
    player_post_result_int post.player1 post.player2 post.result
    season posts

def total (w : World) (ps : Finset PlayerPtr) : Int := ∑ p ∈ ps, ratingOf w p

/-- What becomes of the ratings of `ps` in a season. -/
structure Played (ps : Finset PlayerPtr) (posts : List Post) (w w' : World) : Prop where
  ready : ∀ p ∈ ps, Ready w' p
  near : ∀ p ∈ ps, |ratingOf w' p - ratingOf w p| ≤ 32 * gamesOf p posts
  total : |total w' ps - total w ps| ≤ posts.length
  falls : (∀ p ∈ ps, 32 * gamesOf p posts ≤ ratingOf w p) → Jeux.total w' ps ≤ Jeux.total w ps

/-- Rounded down, the new ratings have no more points than the old ones. -/
theorem new_falls {R1 R2 : Int} (h1 : 32 ≤ R1) (h2 : 32 ≤ R2) (result : Int) :
    newR1 R1 R2 result + newR2 R1 R2 result ≤ R1 + R2 := by
  have hfloor : ∀ (R k : Int) (S : Score), 32 ≤ R →
      (elo R k S : ℚ) ≤ R + 32 * (S.value - expectation ℚ k) := fun R k S hR => by
    have hS := (Score.value_mem S).1
    have he := expectation_lt_one (K := ℚ) k
    have hR' : (32 : ℚ) ≤ R := by exact_mod_cast hR
    rw [elo_eq_trunc (K := ℚ), Rat.cast_id, trunc_of_nonneg (by linarith)]
    exact Int.floor_le _
  have hle1 := hfloor R1 ((R2 - R1).tdiv 400) (scores result).1 h1
  have hle2 := hfloor R2 ((R1 - R2).tdiv 400) (scores result).2 h2
  rw [← neg_sub R2 R1, Int.neg_tdiv, expectation_neg, scores_value] at hle2
  have hsum : ((newR1 R1 R2 result + newR2 R1 R2 result : Int) : ℚ) ≤ (R1 + R2 : Int) := by
    rw [newR1, newR2, ← neg_sub R2 R1, Int.neg_tdiv]
    push_cast
    linarith
  exact_mod_cast hsum

/-- Differences and new ratings stay in the range of an `int`. -/
theorem inRange_of_le {R1 R2 B : Int} (h1 : |R1| ≤ B) (h2 : |R2| ≤ B)
    (hB : 2 * (B + 32) ≤ 2147483647) (result : Int) : InRange R1 R2 result := by
  have hstep := fairStep_new R1 R2 result
  have hnew1 := abs_le.mp hstep.moves1
  have hnew2 := abs_le.mp hstep.moves2
  rw [abs_le] at h1 h2
  exact ⟨by unfold IsInt; omega, by unfold IsInt; omega, by unfold IsInt; omega,
    by unfold IsInt; omega⟩

section OnePost

variable {w : World} {ps : Finset PlayerPtr} {p1 p2 : PlayerPtr} {R1 R2 : Int}

/-- The ratings after a result. -/
theorem ratingOf_posted (h1 : Ready w p1) (h2 : Ready w p2) (p : PlayerPtr) :
    ratingOf (rate p2 R2 (rate p1 R1 w)) p =
      Function.update (Function.update (ratingOf w) p1 R1) p2 R2 p := by
  rcases eq_or_ne p p2 with rfl | hp2
  · rw [ratingOf_rate_same (ready_rate h2), Function.update_self]
  rw [ratingOf_rate_other hp2, Function.update_of_ne hp2]
  rcases eq_or_ne p p1 with rfl | hp1
  · rw [ratingOf_rate_same h1, Function.update_self]
  · rw [ratingOf_rate_other hp1, Function.update_of_ne hp1]

/-- The total moves by what the two ratings move. -/
theorem total_posted (h1 : Ready w p1) (h2 : Ready w p2) (hp1 : p1 ∈ ps) (hp2 : p2 ∈ ps)
    (hne : p1 ≠ p2) : total (rate p2 R2 (rate p1 R1 w)) ps =
      total w ps + (R1 + R2 - (ratingOf w p1 + ratingOf w p2)) := by
  have hsum : ∀ {f : PlayerPtr → Int} {p : PlayerPtr} {R : Int}, p ∈ ps →
      ∑ q ∈ ps, Function.update f p R q = ∑ q ∈ ps, f q + (R - f p) := fun {f p R} hp => by
    rw [sum_update_of_mem hp, sdiff_singleton_eq_erase, ← add_sum_erase ps f hp]
    ring
  rw [total, sum_congr rfl fun p _ => ratingOf_posted h1 h2 p, hsum hp2, hsum hp1,
    Function.update_of_ne hne.symm, total]
  ring

end OnePost

/-- Two different players of `ps`. -/
def Post.Among (post : Post) (ps : Finset PlayerPtr) : Prop :=
  post.player1 ∈ ps ∧ post.player2 ∈ ps ∧ post.player1 ≠ post.player2

/-- One result. -/
theorem post_played {w : World} {ps : Finset PlayerPtr} {post : Post} {B : Int}
    (hpost : post.Among ps) (hready : ∀ p ∈ ps, Ready w p) (hB : ∀ p ∈ ps, |ratingOf w p| ≤ B)
    (hroom : 2 * (B + 32) ≤ 2147483647) :
    Ends (player_post_result_int post.player1 post.player2 post.result).run w fun _ w' =>
      Played ps [post] w w' := by
  obtain ⟨hp1, hp2, hne⟩ := hpost
  have h1 := hready _ hp1
  have h2 := hready _ hp2
  have hstep := fairStep_new (ratingOf w post.player1) (ratingOf w post.player2) post.result
  have hrun := post_int_run h1 h2 post.result
  rw [if_pos (inRange_of_le (hB _ hp1) (hB _ hp2) hroom post.result), post_elo_run h1 h2] at hrun
  have hgames : ∀ p, gamesOf p [post] = if post.OfPlayer p then 1 else 0 := fun p => by
    rw [gamesOf, List.countP_singleton]
    simp only [decide_eq_true_eq]
  refine .of_eq hrun ⟨fun p hp => ready_rate (ready_rate (hready p hp)), fun p hp => ?_, ?_,
    fun hlow => ?_⟩
  · rw [ratingOf_posted h1 h2, hgames]
    rcases eq_or_ne p post.player2 with rfl | hne2
    · rw [Function.update_self, if_pos (.inr rfl)]
      exact hstep.moves2
    rw [Function.update_of_ne hne2]
    rcases eq_or_ne p post.player1 with rfl | hne1
    · rw [Function.update_self, if_pos (.inl rfl)]
      exact hstep.moves1
    · have hnone : ¬ post.OfPlayer p := not_or.mpr ⟨hne1, hne2⟩
      rw [Function.update_of_ne hne1, if_neg hnone, sub_self, abs_zero]
      exact le_refl 0
  · rw [total_posted h1 h2 hp1 hp2 hne, add_sub_cancel_left]
    exact hstep.total
  · have hlow1 := hlow _ hp1
    have hlow2 := hlow _ hp2
    rw [hgames, if_pos (.inl rfl)] at hlow1
    rw [hgames, if_pos (.inr rfl)] at hlow2
    have hfalls := new_falls hlow1 hlow2 post.result
    rw [total_posted h1 h2 hp1 hp2 hne]
    omega

/-- One season after another. -/
theorem Played.append {ps : Finset PlayerPtr} {posts posts' : List Post} {w w' w'' : World}
    (h : Played ps posts w w') (h' : Played ps posts' w' w'') :
    Played ps (posts ++ posts') w w'' := by
  have hgames : ∀ p, gamesOf p (posts ++ posts') = gamesOf p posts + gamesOf p posts' :=
    fun p => List.countP_append
  refine ⟨h'.ready, fun p hp => ?_, ?_, fun hlow => ?_⟩
  · have hnear := abs_le.mp (h.near p hp)
    have hnear' := abs_le.mp (h'.near p hp)
    rw [hgames, abs_le]
    push_cast
    omega
  · have htotal := abs_le.mp h.total
    have htotal' := abs_le.mp h'.total
    rw [List.length_append, abs_le]
    push_cast
    omega
  · refine (h'.falls fun p hp => ?_).trans (h.falls fun p hp => ?_)
    · have hp' := hlow p hp
      have hnear := abs_le.mp (h.near p hp)
      rw [hgames] at hp'
      push_cast at hp'
      omega
    · have hp' := hlow p hp
      rw [hgames] at hp'
      push_cast at hp'
      omega

theorem season_played {ps : Finset PlayerPtr} {posts : List Post} {w : World} {B : Int}
    (hposts : ∀ post ∈ posts, post.Among ps) (hready : ∀ p ∈ ps, Ready w p)
    (hB : ∀ p ∈ ps, |ratingOf w p| ≤ B) (hroom : 2 * (B + 32 * posts.length) ≤ 2147483647) :
    Ends (season posts).run w fun _ w' => Played ps posts w w' := by
  induction posts generalizing w B with
  | nil =>
    refine .ret ⟨hready, fun p _ => ?_, ?_, fun _ => le_refl _⟩
    · rw [sub_self, abs_zero]
      exact le_refl 0
    · rw [sub_self, abs_zero]
      exact le_refl 0
  | cons post posts ih =>
    rw [List.length_cons] at hroom
    push_cast at hroom
    obtain ⟨_, w₁, hrun, hplayed⟩ :=
      post_played (hposts post List.mem_cons_self) hready hB (by omega)
    have hB₁ : ∀ p ∈ ps, |ratingOf w₁ p| ≤ B + 32 := fun p hp => by
      have hone : gamesOf p [post] ≤ 1 := List.countP_le_length
      have hnear := abs_le.mp (hplayed.near p hp)
      have hp := abs_le.mp (hB p hp)
      rw [abs_le]
      omega
    obtain ⟨u, w₂, hrun₂, hplayed₂⟩ := ih (fun p hp => hposts p (List.mem_cons_of_mem _ hp))
      hplayed.ready hB₁ (by omega)
    exact ⟨u, w₂, (Prog.run_bind_ok hrun).trans hrun₂, hplayed.append hplayed₂⟩

/-- Three newcomers, and every one plays twice. -/
theorem season_played_newcomers : Ends (season [⟨0, 1, 1⟩, ⟨1, 2, 0⟩, ⟨2, 0, 2⟩]).run
    (World.newcomers 3) fun _ w' =>
      Played {0, 1, 2} [⟨0, 1, 1⟩, ⟨1, 2, 0⟩, ⟨2, 0, 2⟩] (World.newcomers 3) w' := by
  have hmem : ∀ p ∈ ({0, 1, 2} : Finset PlayerPtr), p < 3 := by decide
  refine season_played (B := 1500) ?_ (fun p hp => ready_newcomers (hmem p hp)) (fun p hp => ?_)
    (by decide)
  · unfold Post.Among
    decide
  · rw [ratingOf_newcomers (hmem p hp)]
    decide

end StarterProjects.Jeux
