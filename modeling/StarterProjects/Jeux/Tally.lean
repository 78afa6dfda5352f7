import StarterProjects.Jeux.Ending
import StarterProjects.Jeux.Outcomes

/-!
# The count of the moves

The test for a draw reads `movesMade`, which is kept beside the board. `tallies_of_create` says
that the two agree in every run on a new game, for moves to any index and by any role, until the
game gives up its last reference.
-/

namespace StarterProjects.Jeux

open Lib Lib.Exec

/-- The cells that a letter stands in. -/
def occupied (board : Fin 9 → Char) : Finset (Fin 9) := Finset.univ.filter fun i => board i ≠ ' '

/-- The counter and the board of a game agree. -/
structure Tallied (G : Game) : Prop where
  count : G.movesMade = (occupied G.gameBoard).card
  bound : G.movesMade ≤ 9

/-- The board has one letter more, in a cell that was blank. -/
def FillsOne (board board' : Fin 9 → Char) : Prop :=
  ∃ i, board i = ' ' ∧ board' i ≠ ' ' ∧ ∀ j, j ≠ i → board' j = board j

/-- What a call may do to a game that survives it. -/
structure KeepsTally (op : GameOp) (res : GameResult) (G G' : Game) : Prop where
  tallied : Tallied G'
  stays : ∀ i, G.gameBoard i ≠ ' ' → G'.gameBoard i = G.gameBoard i
  fills : ∀ move, op = .apply move → res = .status 0 → FillsOne G.gameBoard G'.gameBoard
  refuses : ∀ move, op = .apply move → res = .status (-1) →
    G'.gameBoard = G.gameBoard ∧ G'.curRole = G.curRole ∧ G'.movesMade = G.movesMade ∧
      G'.gameWinner = G.gameWinner ∧ G'.terminated = G.terminated
  returns : ∀ move, op = .apply move → res = .status 0 ∨ res = .status (-1)

/-- The calls run one after the other. A call takes the game away only with its last reference;
nothing is asked of the calls after that. -/
def Tallies (g : GamePtr) : List GameOp → World → Prop
  | [], w => ∀ G, (game g).get w = some G → Tallied G
  | op :: ops, w => ∀ G, (game g).get w = some G → Tallied G ∧
      Ends (op.call g).run w fun res w' =>
        (∀ G', (game g).get w' = some G' → KeepsTally op res G G') ∧
        ((game g).get w' = none → G.refCount = 1) ∧ Tallies g ops w'

/-! ## One call -/

theorem mem_occupied {board : Fin 9 → Char} {i : Fin 9} : i ∈ occupied board ↔ board i ≠ ' ' := by
  simp [occupied]

theorem card_occupied_le (board : Fin 9 → Char) : (occupied board).card ≤ 9 :=
  (Finset.card_le_univ _).trans_eq (Fintype.card_fin 9)

theorem occupied_update {board : Fin 9 → Char} {i : Fin 9} {c : Char} (hc : c ≠ ' ') :
    occupied (Function.update board i c) = insert i (occupied board) := by
  ext j
  rw [mem_occupied, Finset.mem_insert, mem_occupied]
  rcases eq_or_ne j i with rfl | hj
  · simp [hc]
  · rw [Function.update_of_ne hj]
    simp [hj]

namespace Game

variable {G : Game} {m : GameMove} {i : Fin 9}

theorem blank_of_target (h : G.target m = some i) : G.gameBoard i = ' ' := by
  simpa using (Option.filter_eq_some_iff.mp h).2

theorem occupied_placed (h : G.target m = some i) (role : GameRole) :
    (occupied (G.placed i role).gameBoard).card = (occupied G.gameBoard).card + 1 := by
  have hnot : i ∉ occupied G.gameBoard := by
    rw [mem_occupied, blank_of_target h]
    exact not_not_intro rfl
  show (occupied (Function.update G.gameBoard i (mark role))).card = _
  rw [occupied_update (mark_ne_blank role), Finset.card_insert_of_notMem hnot]

end Game

namespace Tallied

variable {G G' : Game}

theorem of_count (h : G.movesMade = (occupied G.gameBoard).card) : Tallied G :=
  ⟨h, h ▸ card_occupied_le _⟩

theorem created : Tallied Game.created := of_count rfl

/-- A call that neither makes a move nor touches the board. -/
theorem counts_of_same {op : GameOp} {res : GameResult} (h : Tallied G)
    (hboard : G'.gameBoard = G.gameBoard) (hmoves : G'.movesMade = G.movesMade)
    (hop : ∀ move, op ≠ .apply move) : KeepsTally op res G G' where
  tallied := of_count (by rw [hmoves, hboard, h.count])
  stays := fun i _ => congrFun hboard i
  fills := fun move hm => absurd hm (hop move)
  refuses := fun move hm => absurd hm (hop move)
  returns := fun move hm => absurd hm (hop move)

theorem counts_of_refused (h : Tallied G) (m : GameMove) :
    KeepsTally (.apply m) (.status (-1)) G G where
  tallied := h
  stays := fun _ _ => rfl
  fills := fun _ _ hres => nomatch hres
  refuses := fun _ _ _ => ⟨rfl, rfl, rfl, rfl, rfl⟩
  returns := fun _ _ => Or.inr rfl

theorem counts_of_placed (h : Tallied G) {m : GameMove} {i : Fin 9} (ht : G.target m = some i) :
    KeepsTally (.apply m) (.status 0) G (G.placed i m.curPlayer) where
  tallied := of_count (by
    rw [Game.occupied_placed ht, ← h.count]
    rfl)
  stays := by
    intro j hj
    have hne : j ≠ i := by
      rintro rfl
      exact hj (Game.blank_of_target ht)
    exact Function.update_of_ne hne _ _
  fills := by
    intro _ _ _
    refine ⟨i, Game.blank_of_target ht, ?_, fun j hj => Function.update_of_ne hj _ _⟩
    show Function.update G.gameBoard i (Game.mark m.curPlayer) i ≠ ' '
    rw [Function.update_self]
    exact mark_ne_blank _
  refuses := fun _ _ hres => nomatch hres
  returns := fun _ _ => Or.inl rfl

/-- Every call on a live game returns. Unless it gave up the last reference it leaves a game
whose count is right again. -/
theorem step {g : GamePtr} {w : World} (h : Tallied G) (hlive : (game g).get w = some G)
    (hfree : G.gameLock = 1) (op : GameOp) :
    Ends (op.call g).run w fun res w' =>
      (∃ G', (game g).get w' = some G' ∧ G'.gameLock = 1 ∧ KeepsTally op res G G') ∨
      ((game g).get w' = none ∧ G.refCount = 1) := by
  cases op with
  | parse role str =>
    exact .of_eq (call_parse role str hlive hfree)
      (Or.inl ⟨G, hlive, hfree, h.counts_of_same rfl rfl nofun⟩)
  | getWinner =>
    exact .of_eq (call_getWinner hlive hfree)
      (Or.inl ⟨G, hlive, hfree, h.counts_of_same rfl rfl nofun⟩)
  | apply m =>
    refine .of_eq (call_apply m hlive hfree) (Or.inl ?_)
    cases ht : G.target m with
    | none =>
      rw [Game.moved_none ht]
      exact ⟨G, Obj.get_set _ hlive, hfree, h.counts_of_refused m⟩
    | some i =>
      rw [Game.moved_some ht]
      exact ⟨_, Obj.get_set _ hlive, hfree, h.counts_of_placed ht⟩
  | isOver =>
    refine .of_eq (call_isOver hlive hfree) (Or.inl ?_)
    cases ho : G.outcome with
    | none =>
      rw [Game.judged_none ho]
      exact ⟨G, Obj.get_set _ hlive, hfree, h.counts_of_same rfl rfl nofun⟩
    | some r =>
      rw [Game.judged_some ho]
      exact ⟨_, Obj.get_set _ hlive, hfree, h.counts_of_same rfl rfl nofun⟩
  | resign role =>
    have hrun := game_resign_run role hlive hfree
    split at hrun
    · exact .of_eq (Prog.run_bind_ok hrun)
        (Or.inl ⟨G, hlive, hfree, h.counts_of_same rfl rfl nofun⟩)
    · split at hrun
      · next hlast =>
        refine .of_eq (Prog.run_bind_ok hrun) (Or.inr ⟨?_, hlast⟩)
        exact Heap.free_same _ _
      · refine .of_eq (Prog.run_bind_ok hrun) (Or.inl ⟨_, Obj.get_set _ hlive, hfree, ?_⟩)
        exact h.counts_of_same rfl rfl nofun

/-! ## Runs -/

theorem tallies {g : GamePtr} (ops : List GameOp) : ∀ {w : World},
    (∀ G, (game g).get w = some G → Tallied G ∧ G.gameLock = 1) → Tallies g ops w := by
  induction ops with
  | nil => exact fun h G hG => (h G hG).1
  | cons op ops ih =>
    intro w h G hlive
    obtain ⟨htally, hfree⟩ := h G hlive
    refine ⟨htally, (htally.step hlive hfree op).mono fun res w' hstep => ?_⟩
    rcases hstep with ⟨G', hlive', hfree', hcounts⟩ | ⟨hgone, hlast⟩
    · refine ⟨fun G₁ hG₁ => ?_, fun hnone => ?_, ih fun G₁ hG₁ => ?_⟩
      · cases hlive'.symm.trans hG₁
        exact hcounts
      · cases hnone.symm.trans hlive'
      · cases hlive'.symm.trans hG₁
        exact ⟨hcounts.tallied, hfree'⟩
    · refine ⟨fun G₁ hG₁ => ?_, fun _ => hlast, ih fun G₁ hG₁ => ?_⟩
      · cases hgone.symm.trans hG₁
      · cases hgone.symm.trans hG₁

end Tallied

/-- The count of a new game is right in every run. -/
theorem tallies_of_create (w : World) (ops : List GameOp) :
    Ends game_create.run w fun g w' =>
      (game g).get w' = some Game.created ∧ Tallies g ops w' := by
  refine (game_create_ends w).mono fun g w' h => ⟨h, Tallied.tallies ops fun G hG => ?_⟩
  cases h.symm.trans hG
  exact ⟨Tallied.created, rfl⟩

end StarterProjects.Jeux
