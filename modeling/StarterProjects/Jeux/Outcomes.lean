import StarterProjects.Jeux.Turns
import Mathlib.Data.Finset.Card
import Mathlib.Data.Fintype.Card
import Mathlib.Tactic.FinCases

/-!
# Outcomes

A game is played cell by cell, with the two players in turn, and stops when `game_is_over` says
so. The test for nine moves comes before the tests of the lines: a line that the ninth move
completes is a draw. `outcomes_iff` says that nothing else goes wrong.
-/

namespace StarterProjects.Jeux

open Lib Lib.Exec

/-- What a move and the two questions after it return. -/
structure Turn where
  applied : Int
  isOver : Int
  winner : GameRole

def takeTurn (g : GamePtr) (role : GameRole) (cell : Fin 9) : Prog World Turn := do
  let applied ← game_apply_move g { boardIndex := cell + 1, curPlayer := role }
  let isOver ← game_is_over g
  let winner ← game_get_winner g
  return { applied, isOver, winner }

/-- The players take turns until the game is over or there are no more moves. -/
def play (g : GamePtr) : GameRole → List (Fin 9) → Prog World (List Turn)
  | _, [] => return []
  | role, cell :: cells => do
    let turn ← takeTurn g role cell
    if turn.isOver = 1 then return [turn]
    let turns ← play g (Game.opponent role) cells
    return turn :: turns

/-! ## The rules -/

/-- The cell in a row and a column, counted from 0. -/
def cellAt (row column : Fin 3) : Fin 9 := ⟨3 * row + column, by omega⟩

inductive IsLine : (Fin 3 → Fin 9) → Prop
  | row (r : Fin 3) : IsLine fun c => cellAt r c
  | column (c : Fin 3) : IsLine fun r => cellAt r c
  | diagonal : IsLine fun i => cellAt i i
  | antidiagonal : IsLine fun i => cellAt i (2 - i)

/-- A line of the player's marks. -/
def Owns (board : Fin 9 → Char) (player : GameRole) : Prop :=
  player.IsPlayer ∧ ∃ line, IsLine line ∧ ∀ k, board (line k) = Game.mark player

def Full (board : Fin 9 → Char) : Prop := ∀ i, board i ≠ ' '

/-- The answers after a move that led to the board: it was legal, the game is over where there is a
line or no free cell, and the winner is whoever owns a line. -/
structure Turn.Right (board : Fin 9 → Char) (turn : Turn) : Prop where
  applied : turn.applied = 0
  isOver : turn.isOver = 1 ↔ (∃ player, Owns board player) ∨ Full board
  winner : ∀ player, Owns board player → turn.winner = player
  draw : (∀ player, ¬ Owns board player) → turn.winner = .nullRole

/-- The board after the moves, with `role` to begin. -/
def boardFrom : GameRole → List (Fin 9) → (Fin 9 → Char) → Fin 9 → Char
  | _, [], board => board
  | role, cell :: cells, board =>
      boardFrom (Game.opponent role) cells (Function.update board cell (Game.mark role))

def boardAfter (cells : List (Fin 9)) : Fin 9 → Char :=
  boardFrom .firstPlayerRole cells fun _ => ' '

/-- The ninth move completes a line, the first one of the game. -/
def NinthWins (cells : List (Fin 9)) : Prop :=
  ∃ first ninth, cells = first ++ [ninth] ∧ first.length = 8 ∧
    (∀ player, ¬ Owns (boardAfter first) player) ∧ ∃ player, Owns (boardAfter cells) player

/-! ## The tests of the lines -/

variable {board : Fin 9 → Char} {role : GameRole} {cell : Fin 9}

theorem mem_winningLines {line : Fin 3 → Fin 9} (h : IsLine line) :
    (line 0, line 1, line 2) ∈ winningLines := by
  cases h with
  | row r => fin_cases r <;> decide
  | column c => fin_cases c <;> decide
  | diagonal => decide
  | antidiagonal => decide

theorem isLine_of_mem {l : Fin 9 × Fin 9 × Fin 9} (h : l ∈ winningLines) :
    ∃ line, IsLine line ∧ (line 0, line 1, line 2) = l := by
  simp only [winningLines, List.mem_cons, List.not_mem_nil, or_false] at h
  rcases h with rfl | rfl | rfl | rfl | rfl | rfl | rfl | rfl
  · exact ⟨_, .row 0, rfl⟩
  · exact ⟨_, .row 1, rfl⟩
  · exact ⟨_, .row 2, rfl⟩
  · exact ⟨_, .column 0, rfl⟩
  · exact ⟨_, .column 1, rfl⟩
  · exact ⟨_, .column 2, rfl⟩
  · exact ⟨_, .diagonal, rfl⟩
  · exact ⟨_, .antidiagonal, rfl⟩

theorem mark_ne_blank (role : GameRole) : Game.mark role ≠ ' ' := by
  unfold Game.mark
  split <;> decide

/-- The letter that the tests find is that of a line, and they find one where there is one. -/
theorem winningLetter_spec (board : Fin 9 → Char) :
    (winningLetter board ≠ ' ' →
      ∃ line, IsLine line ∧ ∀ k, board (line k) = winningLetter board) ∧
    (winningLetter board = ' ' → ∀ player, ¬ Owns board player) := by
  unfold winningLetter
  cases hfind : winningLines.find? fun l =>
    board l.1 ≠ ' ' && board l.1 = board l.2.1 && board l.1 = board l.2.2 with
  | none =>
      refine ⟨fun h => absurd rfl h, fun _ player howns => ?_⟩
      obtain ⟨-, line, hline, hmarks⟩ := howns
      have hnone := List.find?_eq_none.mp hfind _ (mem_winningLines hline)
      simp [hmarks, mark_ne_blank] at hnone
  | some l =>
      have hl := List.find?_some hfind
      simp only [Bool.and_eq_true, decide_eq_true_eq] at hl
      obtain ⟨⟨hblank, h1⟩, h2⟩ := hl
      obtain ⟨line, hline, rfl⟩ := isLine_of_mem (List.mem_of_find?_eq_some hfind)
      refine ⟨fun _ => ⟨line, hline, fun k => ?_⟩, fun h => absurd h hblank⟩
      fin_cases k
      · rfl
      · exact h1.symm
      · exact h2.symm

/-- Only marks are on the board. -/
def Marked (board : Fin 9 → Char) : Prop := ∀ i, board i = ' ' ∨ board i = 'X' ∨ board i = 'O'

theorem outcome_of_owns {G : Game} (hmarked : Marked G.gameBoard) (hnine : G.movesMade ≠ 9)
    (h : ∃ player, Owns G.gameBoard player) :
    ∃ player, Owns G.gameBoard player ∧ G.outcome = some player := by
  obtain ⟨hfound, hnone⟩ := winningLetter_spec G.gameBoard
  have hblank : winningLetter G.gameBoard ≠ ' ' := fun hblank => h.elim (hnone hblank)
  obtain ⟨line, hline, hletter⟩ := hfound hblank
  unfold Game.outcome
  rw [if_neg hnine]
  rcases hmarked (line 0) with hspace | hX | hO
  · exact absurd ((hletter 0).symm.trans hspace) hblank
  · have hX : winningLetter G.gameBoard = 'X' := (hletter 0).symm.trans hX
    refine ⟨.firstPlayerRole, ⟨.inl rfl, line, hline, ?_⟩, by rw [if_pos hX]⟩
    exact fun k => (hletter k).trans hX
  · have hO : winningLetter G.gameBoard = 'O' := (hletter 0).symm.trans hO
    refine ⟨.secondPlayerRole, ⟨.inr rfl, line, hline, ?_⟩, ?_⟩
    · exact fun k => (hletter k).trans hO
    · rw [if_neg (by rw [hO]; decide), if_pos hO]

theorem outcome_of_not_owns {G : Game} (hnine : G.movesMade ≠ 9)
    (h : ∀ player, ¬ Owns G.gameBoard player) : G.outcome = none := by
  obtain ⟨hfound, -⟩ := winningLetter_spec G.gameBoard
  unfold Game.outcome
  rw [if_neg hnine, if_neg, if_neg]
  · intro hO
    obtain ⟨line, hline, hletter⟩ := hfound (by rw [hO]; decide)
    exact h .secondPlayerRole ⟨.inr rfl, line, hline, fun k => (hletter k).trans hO⟩
  · intro hX
    obtain ⟨line, hline, hletter⟩ := hfound (by rw [hX]; decide)
    exact h .firstPlayerRole ⟨.inl rfl, line, hline, fun k => (hletter k).trans hX⟩

/-! ## One more mark -/

/-- A line stays where a mark comes into a free cell. -/
theorem Owns.update {player : GameRole} (h : Owns board player) (hfree : board cell = ' ')
    (c : Char) : Owns (Function.update board cell c) player := by
  obtain ⟨hplayer, line, hline, hmarks⟩ := h
  refine ⟨hplayer, line, hline, fun k => ?_⟩
  have hne : line k ≠ cell := by
    rintro rfl
    exact mark_ne_blank player ((hmarks k).symm.trans hfree)
  rw [Function.update_of_ne hne, hmarks]

/-- A line that was not there before belongs to the player who has moved. -/
theorem Owns.mover {player : GameRole} (hrole : role.IsPlayer)
    (h : Owns (Function.update board cell (Game.mark role)) player)
    (hbefore : ¬ Owns board player) : player = role := by
  obtain ⟨hplayer, line, hline, hmarks⟩ := h
  by_contra hne
  refine hbefore ⟨hplayer, line, hline, fun k => ?_⟩
  have hother : line k ≠ cell := by
    rintro rfl
    have hmark := hmarks k
    rw [Function.update_self] at hmark
    rcases hplayer with rfl | rfl <;> rcases hrole with rfl | rfl <;>
      first | exact hne rfl | exact absurd hmark (by decide)
  rw [← hmarks k, Function.update_of_ne hother]

theorem Marked.update (h : Marked board) (role : GameRole) (cell : Fin 9) :
    Marked (Function.update board cell (Game.mark role)) := by
  intro i
  by_cases hi : i = cell
  · subst hi
    rw [Function.update_self]
    unfold Game.mark
    split
    · exact .inr (.inl rfl)
    · exact .inr (.inr rfl)
  · rw [Function.update_of_ne hi]
    exact h i

theorem Owns.boardFrom {player : GameRole} {cells : List (Fin 9)} (h : Owns board player)
    (hfree : ∀ c ∈ cells, board c = ' ') (hnodup : cells.Nodup) :
    Owns (boardFrom role cells board) player := by
  induction cells generalizing role board with
  | nil => exact h
  | cons c cells ih =>
      obtain ⟨hc, hnodup⟩ := List.nodup_cons.mp hnodup
      refine ih (h.update (hfree c List.mem_cons_self) _) (fun d hd => ?_) hnodup
      have hne : d ≠ c := fun hdc => hc (hdc ▸ hd)
      rw [Function.update_of_ne hne]
      exact hfree d (List.mem_cons_of_mem c hd)

/-! ## A game in progress -/

/-- A live game after the moves `done`, with `role` to move and no line yet. -/
structure StillPlaying (g : GamePtr) (done : List (Fin 9)) (w : World) (G : Game) : Prop where
  live : (game g).get w = some G
  free : G.gameLock = 1
  moves : G.movesMade = done.length
  blank : ∀ i, G.gameBoard i = ' ' ↔ i ∉ done
  marked : Marked G.gameBoard
  undecided : ∀ player, ¬ Owns G.gameBoard player
  winner : G.gameWinner = .nullRole

variable {g : GamePtr} {done cells : List (Fin 9)} {w : World} {G : Game}

theorem full_iff (hnodup : done.Nodup) (hblank : ∀ i, board i = ' ' ↔ i ∉ done) :
    Full board ↔ done.length = 9 := by
  have hmem : Full board ↔ ∀ i, i ∈ done := by
    unfold Full
    simp only [ne_eq, hblank, not_not]
  have hcard : done.toFinset.card = done.length := List.toFinset_card_of_nodup hnodup
  have hall := Finset.card_eq_iff_eq_univ done.toFinset
  rw [Fintype.card_fin, Finset.eq_univ_iff_forall] at hall
  rw [hmem, ← hcard, hall]
  simp only [List.mem_toFinset]

theorem blank_update (hblank : ∀ i, board i = ' ' ↔ i ∉ done) (cell : Fin 9) (role : GameRole)
    (i : Fin 9) :
    Function.update board cell (Game.mark role) i = ' ' ↔ i ∉ done ++ [cell] := by
  rw [List.mem_append, List.mem_singleton, not_or]
  by_cases hi : i = cell
  · subst hi
    rw [Function.update_self]
    exact iff_of_false (mark_ne_blank role) fun hc => hc.2 rfl
  · rw [Function.update_of_ne hi, hblank]
    exact ⟨fun hc => ⟨hc, hi⟩, fun hc => hc.1⟩

/-- The three calls after a move into a free cell. -/
theorem takeTurn_run (hlive : (game g).get w = some G) (hl : G.gameLock = 1)
    (hfree : G.gameBoard cell = ' ') (role : GameRole) :
    (takeTurn g role cell).run w = .ok (⟨0, (G.placed cell role).judged.1,
      (G.placed cell role).judged.2.gameWinner⟩, (game g).set (G.placed cell role).judged.2 w) := by
  have hcell : cellOf ((cell : Int) + 1) = some cell := by
    unfold cellOf
    rw [dif_pos (by omega)]
    exact congrArg some (Fin.ext (by simp))
  have hmoved : G.moved ⟨(cell : Int) + 1, role⟩ = (0, G.placed cell role) := by
    unfold Game.moved Game.target
    rw [hcell, Option.filter_some, if_pos (decide_eq_true hfree)]
  have hlock : (G.placed cell role).judged.2.gameLock = 1 := by
    unfold Game.judged
    cases (G.placed cell role).outcome <;> exact hl
  have hset := Obj.get_set (game g) (a := G.placed cell role) hlive
  have hset' := Obj.get_set (game g) (a := (G.placed cell role).judged.2) hset
  have happly := game_apply_move_run ⟨(cell : Int) + 1, role⟩ hlive hl
  rw [hmoved] at happly
  rw [takeTurn, Prog.run_bind_ok happly, Prog.run_bind_ok (game_is_over_run hset hl),
    Prog.run_bind_ok (game_get_winner_run hset' hlock), Obj.set_set]
  rfl

/-- `NinthWins` after `n` moves that led to the board. -/
def NinthFrom (n : Nat) (role : GameRole) (cells : List (Fin 9)) (board : Fin 9 → Char) : Prop :=
  ∃ first ninth, cells = first ++ [ninth] ∧ n + first.length = 8 ∧
    (∀ player, ¬ Owns (boardFrom role first board) player) ∧
    ∃ player, Owns (boardFrom role cells board) player

theorem ninthFrom_nil (n : Nat) (role : GameRole) (board : Fin 9 → Char) :
    ¬ NinthFrom n role [] board := by
  rintro ⟨first, ninth, hcells, -⟩
  exact absurd hcells (by simp)

theorem ninthFrom_cons (n : Nat) (role : GameRole) (c : Fin 9) (cells : List (Fin 9))
    (board : Fin 9 → Char) : NinthFrom n role (c :: cells) board ↔
      (cells = [] ∧ n = 8 ∧ (∀ player, ¬ Owns board player) ∧
        ∃ player, Owns (Function.update board c (Game.mark role)) player) ∨
      NinthFrom (n + 1) (Game.opponent role) cells
        (Function.update board c (Game.mark role)) := by
  constructor
  · rintro ⟨first, ninth, hcells, hlen, hbefore, hline⟩
    cases first with
    | nil =>
        obtain ⟨rfl, rfl⟩ := List.cons.inj hcells
        exact .inl ⟨rfl, hlen, hbefore, hline⟩
    | cons d first =>
        obtain ⟨rfl, rfl⟩ := List.cons.inj hcells
        refine .inr ⟨first, ninth, rfl, ?_, hbefore, hline⟩
        rw [List.length_cons] at hlen
        omega
  · rintro (⟨rfl, rfl, hbefore, hline⟩ | ⟨first, ninth, rfl, hlen, hbefore, hline⟩)
    · exact ⟨[], c, rfl, rfl, hbefore, hline⟩
    · refine ⟨c :: first, ninth, rfl, ?_, hbefore, hline⟩
      rw [List.length_cons]
      omega

/-- The answers of a game in progress are right, one after the other. -/
def AllRight (role : GameRole) (cells : List (Fin 9)) (board : Fin 9 → Char)
    (turns : List Turn) : Prop :=
  ∀ (k : Nat) (turn : Turn), turns[k]? = some turn →
    turn.Right (boardFrom role (cells.take (k + 1)) board)

theorem allRight_cons (role : GameRole) (c : Fin 9) (cells : List (Fin 9)) (board : Fin 9 → Char)
    (turn : Turn) (turns : List Turn) : AllRight role (c :: cells) board (turn :: turns) ↔
      turn.Right (Function.update board c (Game.mark role)) ∧
        AllRight (Game.opponent role) cells (Function.update board c (Game.mark role)) turns := by
  constructor
  · intro h
    refine ⟨?_, fun k t hk => ?_⟩
    · have hfirst := h 0 turn rfl
      rwa [List.take_succ_cons, List.take_zero] at hfirst
    · have hnext := h (k + 1) t hk
      rwa [List.take_succ_cons] at hnext
  · rintro ⟨hfirst, hrest⟩ k t hk
    cases k with
    | zero =>
        obtain rfl : turn = t := Option.some.inj hk
        exact hfirst
    | succ k => exact hrest k t hk

theorem allRight_nil (role : GameRole) (cells : List (Fin 9)) (board : Fin 9 → Char) :
    AllRight role cells board [] :=
  fun _ _ hk => nomatch hk

/-- A draw is the right answer on a full board without a line. -/
theorem draw_right_iff (hfull : Full board) :
    (⟨0, 1, .nullRole⟩ : Turn).Right board ↔ ∀ player, ¬ Owns board player := by
  constructor
  · intro hright player howns
    have hplayer := howns.1
    rw [← hright.winner player howns] at hplayer
    exact absurd hplayer (by decide)
  · intro hnone
    exact ⟨rfl, iff_of_true rfl (.inr hfull), fun p howns => absurd howns (hnone p), fun _ => rfl⟩

namespace StillPlaying

/-- The ninth move is answered as a draw. -/
theorem ninth (h : StillPlaying g done w G) (role : GameRole) (hfree : G.gameBoard cell = ' ')
    (hnine : done.length + 1 = 9) :
    Ends (takeTurn g role cell).run w fun turn _ => turn = ⟨0, 1, .nullRole⟩ := by
  have hjudged : (G.placed cell role).judged =
      (1, { G.placed cell role with gameWinner := .nullRole, terminated := true }) := by
    have hout : (G.placed cell role).outcome = some .nullRole :=
      if_pos (show G.movesMade + 1 = 9 by rw [h.moves, hnine])
    unfold Game.judged
    rw [hout]
  have hrun := takeTurn_run h.live h.free hfree role
  rw [hjudged] at hrun
  exact .of_eq hrun rfl

/-- An earlier move that completes a line wins. -/
theorem line (h : StillPlaying g done w G) (hrole : role.IsPlayer) (hfree : G.gameBoard cell = ' ')
    (hnine : done.length + 1 ≠ 9)
    (hline : ∃ player, Owns (Function.update G.gameBoard cell (Game.mark role)) player) :
    Ends (takeTurn g role cell).run w fun turn _ => turn = ⟨0, 1, role⟩ := by
  have hmoves : (G.placed cell role).movesMade ≠ 9 := by
    show G.movesMade + 1 ≠ 9
    rwa [h.moves]
  obtain ⟨player, howns, hout⟩ := outcome_of_owns (h.marked.update role cell) hmoves hline
  obtain rfl := howns.mover hrole (h.undecided player)
  have hjudged : (G.placed cell player).judged =
      (1, { G.placed cell player with gameWinner := player, terminated := true }) := by
    unfold Game.judged
    rw [hout]
  have hrun := takeTurn_run h.live h.free hfree player
  rw [hjudged] at hrun
  exact .of_eq hrun rfl

/-- An earlier move without a line goes on. -/
theorem on (h : StillPlaying g done w G) (role : GameRole) (hfree : G.gameBoard cell = ' ')
    (hnine : done.length + 1 ≠ 9)
    (hnone : ∀ player, ¬ Owns (Function.update G.gameBoard cell (Game.mark role)) player) :
    Ends (takeTurn g role cell).run w fun turn w' => turn = ⟨0, 0, .nullRole⟩ ∧
      StillPlaying g (done ++ [cell]) w' (G.placed cell role) := by
  have hmoves : (G.placed cell role).movesMade ≠ 9 := by
    show G.movesMade + 1 ≠ 9
    rwa [h.moves]
  have hjudged : (G.placed cell role).judged = (0, G.placed cell role) := by
    unfold Game.judged
    rw [outcome_of_not_owns hmoves hnone]
  have hrun := takeTurn_run h.live h.free hfree role
  rw [hjudged] at hrun
  refine .of_eq hrun ⟨congrArg _ h.winner, ?_⟩
  refine ⟨Obj.get_set _ h.live, h.free, ?_, ?_, h.marked.update role cell, hnone, h.winner⟩
  · show G.movesMade + 1 = _
    rw [h.moves, List.length_append, List.length_singleton]
  · exact blank_update h.blank cell role

/-- The induction over the moves. Before the ninth move the answers are right; the ninth one is
answered as a draw. -/
theorem right_iff (hrole : role.IsPlayer) (h : StillPlaying g done w G)
    (hnodup : (done ++ cells).Nodup) :
    Ends (play g role cells).run w fun turns _ => AllRight role cells G.gameBoard turns ↔
      ¬ NinthFrom done.length role cells G.gameBoard := by
  induction cells generalizing done role w G with
  | nil =>
      exact .ret (iff_of_true (allRight_nil _ _ _) (ninthFrom_nil _ _ _))
  | cons c cells ih =>
      have hsplit : (done ++ [c] ++ cells).Nodup := by simpa using hnodup
      have hfree : G.gameBoard c = ' ' := by
        rw [h.blank]
        intro hc
        exact (List.nodup_append.mp hnodup).2.2 c hc c List.mem_cons_self rfl
      have hblank := blank_update h.blank c role
      have hfull : Full (Function.update G.gameBoard c (Game.mark role)) ↔ done.length + 1 = 9 := by
        rw [full_iff (List.nodup_append.mp hsplit).1 hblank, List.length_append,
          List.length_singleton]
      rw [play, Prog.run_bind, ninthFrom_cons]
      -- the ninth move ends the game before any line is looked at
      by_cases hnine : done.length + 1 = 9
      · refine (h.ninth role hfree hnine).step fun turn w' hturn => ?_
        subst hturn
        obtain rfl : cells = [] := by
          have hlen := hnodup.length_le_card
          rw [List.length_append, List.length_cons, Fintype.card_fin] at hlen
          exact List.length_eq_zero_iff.mp (by omega)
        refine .ret ?_
        rw [allRight_cons, draw_right_iff (hfull.mpr hnine)]
        simp only [allRight_nil, ninthFrom_nil, and_true, or_false, not_and, not_exists, true_and]
        exact ⟨fun hnone _ _ => hnone, fun hnone => hnone (by omega) h.undecided⟩
      · by_cases hline : ∃ player, Owns (Function.update G.gameBoard c (Game.mark role)) player
        · refine (h.line hrole hfree hnine hline).step fun turn w' hturn => ?_
          subst hturn
          refine .ret (iff_of_true ?_ ?_)
          · refine (allRight_cons _ _ _ _ _ _).mpr ⟨?_, allRight_nil _ _ _⟩
            refine ⟨rfl, iff_of_true rfl (.inl hline), fun p howns => ?_, fun hnone => ?_⟩
            · exact (howns.mover hrole (h.undecided p)).symm
            · exact absurd hline (not_exists.mpr hnone)
          · rintro (⟨-, hlen, -⟩ | ⟨first, ninth, rfl, -, hbefore, -⟩)
            · omega
            · -- the line of this move would still be there before the ninth
              obtain ⟨player, howns⟩ := hline
              have hlater := List.nodup_append.mp hsplit
              refine hbefore player (howns.boardFrom (fun d hd => ?_)
                (List.nodup_append.mp hlater.2.1).1)
              rw [hblank]
              exact fun hmem => hlater.2.2 d hmem d (List.mem_append_left _ hd) rfl
        · -- no line yet: the game goes on with the other player
          have hnone := not_exists.mp hline
          refine (h.on role hfree hnine hnone).step fun turn w' hturn => ?_
          obtain ⟨rfl, hplaying⟩ := hturn
          have hrest := ih (Game.opponent_isPlayer role) hplaying hsplit
          rw [List.length_append, List.length_singleton] at hrest
          show Ends (play g (Game.opponent role) cells >>= fun turns =>
            Prog.ret (⟨0, 0, .nullRole⟩ :: turns)).run w' _
          rw [Prog.run_bind]
          refine hrest.step fun turns w'' hturns => .ret ?_
          have hright : (⟨0, 0, .nullRole⟩ : Turn).Right
              (Function.update G.gameBoard c (Game.mark role)) := by
            refine ⟨rfl, iff_of_false (by decide) ?_, fun p howns => absurd howns (hnone p),
              fun _ => rfl⟩
            exact not_or.mpr ⟨hline, fun hall => hnine (hfull.mp hall)⟩
          rw [allRight_cons, and_iff_right hright]
          refine hturns.trans (not_congr (or_iff_right ?_).symm)
          rintro ⟨-, hlen, -⟩
          omega

theorem created (hlive : (game g).get w = some Game.created) :
    StillPlaying g [] w Game.created where
  live := hlive
  free := rfl
  moves := rfl
  blank := fun i => iff_of_true rfl List.not_mem_nil
  marked := fun _ => .inl rfl
  undecided := by
    rintro player ⟨-, line, -, hmarks⟩
    exact mark_ne_blank player (hmarks 0).symm
  winner := rfl

end StillPlaying

theorem ninthWins_iff (cells : List (Fin 9)) :
    NinthWins cells ↔ NinthFrom 0 .firstPlayerRole cells fun _ => ' ' := by
  simp only [NinthFrom, Nat.zero_add]
  exact Iff.rfl

/-- On a new game the answers after every move are right exactly when it is not the ninth move that
completes the first line. -/
theorem outcomes_iff (w : World) {cells : List (Fin 9)} (hlegal : cells.Nodup) :
    Ends (game_create >>= fun g => play g .firstPlayerRole cells).run w fun turns _ =>
      (∀ (k : Nat) (turn : Turn), turns[k]? = some turn →
        turn.Right (boardAfter (cells.take (k + 1)))) ↔ ¬ NinthWins cells := by
  rw [Prog.run_bind, ninthWins_iff]
  refine (game_create_ends w).step fun g w' hlive => ?_
  exact (StillPlaying.created hlive).right_iff (.inl rfl) hlegal

/-- The first player fills the first row. -/
theorem outcomes_row : Ends (game_create >>= fun g => play g .firstPlayerRole [0, 3, 1, 4, 2]).run
    (World.initial fun _ => 0) fun turns _ =>
      (∀ (k : Nat) (turn : Turn), turns[k]? = some turn →
        turn.Right (boardAfter (([0, 3, 1, 4, 2] : List (Fin 9)).take (k + 1)))) ↔
        ¬ NinthWins [0, 3, 1, 4, 2] :=
  outcomes_iff (World.initial fun _ => 0) (show ([0, 3, 1, 4, 2] : List (Fin 9)).Nodup by decide)

/-- The last free cell completes the first row. -/
theorem outcomes_ninth : ¬ ∀ (w : World) (cells : List (Fin 9)), cells.Nodup →
    Ends (game_create >>= fun g => play g .firstPlayerRole cells).run w fun turns _ =>
      ∀ (k : Nat) (turn : Turn), turns[k]? = some turn →
        turn.Right (boardAfter (cells.take (k + 1))) := by
  intro hall
  have hwins : NinthWins [0, 3, 1, 4, 5, 7, 6, 8, 2] := by
    refine ⟨[0, 3, 1, 4, 5, 7, 6, 8], 2, rfl, rfl, (winningLetter_spec _).2 (by decide), ?_⟩
    exact ⟨.firstPlayerRole, .inl rfl, _, .row 0, by decide⟩
  obtain ⟨turns, w, hrun, hright⟩ := hall (World.initial fun _ => 0) [0, 3, 1, 4, 5, 7, 6, 8, 2]
    (by decide)
  rw [Prog.run_bind] at hrun
  obtain ⟨g, w', hcreate, hplay⟩ := Exec.bind_eq_ok hrun
  have hplaying := StillPlaying.created ((game_create_ends _).apply hcreate)
  have hnodup : ([] ++ [0, 3, 1, 4, 5, 7, 6, 8, 2] : List (Fin 9)).Nodup := by decide
  have hiff := (hplaying.right_iff (.inl rfl) hnodup).apply hplay
  exact hiff.mp hright ((ninthWins_iff _).mp hwins)

end StarterProjects.Jeux
