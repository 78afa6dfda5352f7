import StarterProjects.Jeux.Game

/-!
# The end of a game

A game ends when a player resigns or when `game_is_over` finds a full board or a full
line. Only the second sets `terminated`, which only `game_resign` reads; the winner is
computed again from the board on every query, with nine moves counting as a draw whatever
lines there are. So after the end a second resignation, a late move or a late query can
change the outcome.

`final_of_create`: a run keeps its outcome exactly when after the end no legal move is
applied, `game_resign` is called only with `terminated` set, and `game_is_over` only on a
board that shows the recorded winner.
-/

namespace StarterProjects.Jeux

open Lib Lib.Exec

/-- A call of the game module. -/
inductive GameOp where
  | parse (role : GameRole) (str : CString)
  | apply (move : GameMove)
  | resign (role : GameRole)
  | isOver
  | getWinner

inductive GameResult where
  | move (move : Option GameMove)
  | status (res : Int)
  | role (role : GameRole)
deriving DecidableEq

def GameOp.call (g : GamePtr) : GameOp → Prog World GameResult
  | .parse role str => do return .move (← game_parse_move g role str)
  | .apply move => do return .status (← game_apply_move g move)
  | .resign role => do return .status (← game_resign g role)
  | .isOver => do return .status (← game_is_over g)
  | .getWinner => do return .role (← game_get_winner g)

/-! ## What it means that the end is final -/

/-- What `game_get_winner` would return. -/
def winnerOf (g : GamePtr) (w : World) : Option GameRole := ((game g).get w).map Game.gameWinner

/-- The call ends the game: it resigned, or it was told that the game is over. -/
def GameOp.ends : GameOp → GameResult → Bool
  | .resign _, .status res => res = 0
  | .isOver, .status res => res = 1
  | _, _ => false

/-- What the call has to do on a game that ended with `winner`. -/
def Late (winner : GameRole) (op : GameOp) (res : GameResult) (w w' : World) : Prop :=
  match op with
  | .parse _ _ => True
  | .apply _ => res = .status (-1) ∧ w' = w
  | .resign _ => res = .status (-1) ∧ w' = w
  | .isOver => res = .status 1
  | .getWinner => res = .role winner

/-- The calls run one after the other; `ended` is the winner when the game has ended. -/
def Final (g : GamePtr) : Option GameRole → List GameOp → World → Prop
  | _, [], _ => True
  | none, op :: ops, w => Ends (op.call g).run w fun res w' =>
      Final g (if op.ends res then winnerOf g w' else none) ops w'
  | some winner, op :: ops, w => Ends (op.call g).run w fun res w' =>
      Late winner op res w w' ∧ winnerOf g w' = some winner ∧ Final g (some winner) ops w'

/-- The call does not touch the outcome of a game that ended with `winner`. -/
def Harmless (winner : GameRole) (op : GameOp) (G : Game) : Prop :=
  match op with
  | .parse _ _ => True
  | .apply move => G.target move = none
  | .resign _ => G.terminated = true
  | .isOver => G.outcome = some winner
  | .getWinner => True

/-- Every call after the end is harmless. -/
def Settled (g : GamePtr) : Option GameRole → List GameOp → World → Prop
  | _, [], _ => True
  | none, op :: ops, w => ∀ res w', (op.call g).run w = .ok (res, w') →
      Settled g (if op.ends res then winnerOf g w' else none) ops w'
  | some winner, op :: ops, w => (∀ G, (game g).get w = some G → Harmless winner op G) ∧
      ∀ res w', (op.call g).run w = .ok (res, w') → Settled g (some winner) ops w'

/-! ## One call -/

section Calls

variable {g : GamePtr} {w : World} {G : Game}

theorem call_parse (role : GameRole) (str : CString) (h : (game g).get w = some G)
    (hl : G.gameLock = 1) :
    ((GameOp.parse role str).call g).run w = .ok (.move (G.parsed role str), w) :=
  Prog.run_bind_ok (game_parse_move_run role str h hl)

theorem call_apply (m : GameMove) (h : (game g).get w = some G) (hl : G.gameLock = 1) :
    ((GameOp.apply m).call g).run w =
      .ok (.status (G.moved m).1, (game g).set (G.moved m).2 w) :=
  Prog.run_bind_ok (game_apply_move_run m h hl)

theorem call_isOver (h : (game g).get w = some G) (hl : G.gameLock = 1) :
    (GameOp.isOver.call g).run w = .ok (.status G.judged.1, (game g).set G.judged.2 w) :=
  Prog.run_bind_ok (game_is_over_run h hl)

theorem call_getWinner (h : (game g).get w = some G) (hl : G.gameLock = 1) :
    (GameOp.getWinner.call g).run w = .ok (.role G.gameWinner, w) :=
  Prog.run_bind_ok (game_get_winner_run h hl)

theorem call_resign_late (role : GameRole) (h : (game g).get w = some G) (hl : G.gameLock = 1)
    (ht : G.terminated = true) :
    ((GameOp.resign role).call g).run w = .ok (.status (-1), w) := by
  have hrun := game_resign_run role h hl
  rw [if_pos ht] at hrun
  exact Prog.run_bind_ok hrun

/-- A resignation of a game that is not marked as over goes through. -/
theorem call_resign (role : GameRole) (h : (game g).get w = some G) (hl : G.gameLock = 1)
    (ht : G.terminated = false) : ∃ w', ((GameOp.resign role).call g).run w = .ok (.status 0, w') ∧
      (G.refCount ≠ 1 → w' = (game g).set (G.resigned role) w) := by
  have hrun := game_resign_run role h hl
  rw [if_neg (by rw [ht]; decide)] at hrun
  by_cases hc : G.refCount = 1
  · rw [if_pos hc] at hrun
    exact ⟨_, Prog.run_bind_ok hrun, fun hn => absurd hc hn⟩
  · rw [if_neg hc] at hrun
    exact ⟨_, Prog.run_bind_ok hrun, fun _ => rfl⟩

end Calls

theorem Game.moved_none {m : GameMove} {G : Game} (h : G.target m = none) :
    G.moved m = (-1, G) := by
  rw [moved, h]

theorem Game.moved_some {m : GameMove} {G : Game} {i : Fin 9} (h : G.target m = some i) :
    G.moved m = (0, G.placed i m.curPlayer) := by
  rw [moved, h]

theorem Game.judged_none {G : Game} (h : G.outcome = none) : G.judged = (0, G) := by
  rw [judged, h]

theorem Game.judged_some {G : Game} {r : GameRole} (h : G.outcome = some r) :
    G.judged = (1, { G with gameWinner := r, terminated := true }) := by
  rw [judged, h]

/-! ## Runs -/

/-- A live game: both references are there before the end, its winner stands after it. -/
structure Playing (g : GamePtr) (ended : Option GameRole) (w : World) (G : Game) : Prop where
  live : (game g).get w = some G
  free : G.gameLock = 1
  refs : ended = none → G.refCount = 2
  winner : ∀ r, ended = some r → G.gameWinner = r

namespace Playing

variable {g : GamePtr} {w : World} {G : Game}

theorem winnerOf_eq {ended : Option GameRole} (h : Playing g ended w G) :
    winnerOf g w = some G.gameWinner := by
  rw [winnerOf, h.live]
  rfl

theorem of_created (h : (game g).get w = some Game.created) : Playing g none w Game.created :=
  ⟨h, rfl, fun _ => rfl, fun _ hr => nomatch hr⟩

/-- Before the end every call returns; if it ends the game, its winner is noted. -/
theorem open_step (h : Playing g none w G) (op : GameOp) : ∃ res w' G',
    (op.call g).run w = .ok (res, w') ∧
      Playing g (if op.ends res then winnerOf g w' else none) w' G' := by
  cases op with
  | parse role str => exact ⟨_, _, G, call_parse role str h.live h.free, h⟩
  | getWinner => exact ⟨_, _, G, call_getWinner h.live h.free, h⟩
  | apply m =>
    have hrun := call_apply m h.live h.free
    cases ht : G.target m with
    | none =>
      rw [Game.moved_none ht, Obj.set_get _ h.live] at hrun
      exact ⟨_, _, G, hrun, h⟩
    | some i =>
      rw [Game.moved_some ht] at hrun
      exact ⟨_, _, _, hrun, Obj.get_set _ h.live, h.free, fun _ => h.refs rfl,
        fun _ hr => nomatch hr⟩
  | isOver =>
    have hrun := call_isOver h.live h.free
    cases ho : G.outcome with
    | none =>
      rw [Game.judged_none ho, Obj.set_get _ h.live] at hrun
      exact ⟨_, _, G, hrun, h⟩
    | some r =>
      rw [Game.judged_some ho] at hrun
      refine ⟨_, _, _, hrun, Obj.get_set _ h.live, h.free, fun _ => h.refs rfl, fun r' hr => ?_⟩
      rw [winnerOf, Obj.get_set _ h.live] at hr
      exact Option.some.inj hr
  | resign role =>
    cases ht : G.terminated with
    | true => exact ⟨_, _, G, call_resign_late role h.live h.free ht, h⟩
    | false =>
      obtain ⟨w', hrun, hw⟩ := call_resign role h.live h.free ht
      obtain rfl := hw (by rw [h.refs rfl]; decide)
      refine ⟨_, _, _, hrun, Obj.get_set _ h.live, h.free, fun hn => ?_, fun r' hr => ?_⟩
      · rw [winnerOf, Obj.get_set _ h.live] at hn
        exact nomatch hn
      · rw [winnerOf, Obj.get_set _ h.live] at hr
        exact Option.some.inj hr

/-- After the end every call returns; it leaves the outcome alone exactly when it is
harmless. -/
theorem late_step {winner : GameRole} (h : Playing g (some winner) w G) (op : GameOp) :
    ∃ res w', (op.call g).run w = .ok (res, w') ∧
      (Late winner op res w w' ∧ winnerOf g w' = some winner → Harmless winner op G) ∧
      (Harmless winner op G → Late winner op res w w' ∧
        ∃ G', Playing g (some winner) w' G') := by
  cases op with
  | parse role str =>
    exact ⟨_, _, call_parse role str h.live h.free, fun _ => trivial, fun _ => ⟨trivial, G, h⟩⟩
  | getWinner =>
    exact ⟨_, _, call_getWinner h.live h.free, fun _ => trivial,
      fun _ => ⟨congrArg _ (h.winner _ rfl), G, h⟩⟩
  | apply m =>
    have hrun := call_apply m h.live h.free
    cases ht : G.target m with
    | none =>
      rw [Game.moved_none ht, Obj.set_get _ h.live] at hrun
      exact ⟨_, _, hrun, fun _ => ht, fun _ => ⟨⟨rfl, rfl⟩, G, h⟩⟩
    | some i =>
      rw [Game.moved_some ht] at hrun
      refine ⟨_, _, hrun, fun hl => ?_, fun hh => ?_⟩
      · exact absurd hl.1.1 (show GameResult.status 0 ≠ .status (-1) by decide)
      · exact absurd (ht.symm.trans hh) nofun
  | isOver =>
    have hrun := call_isOver h.live h.free
    cases ho : G.outcome with
    | none =>
      rw [Game.judged_none ho] at hrun
      refine ⟨_, _, hrun, fun hl => ?_, fun hh => ?_⟩
      · exact absurd hl.1 (show GameResult.status 0 ≠ .status 1 by decide)
      · exact absurd (ho.symm.trans hh) nofun
    | some r =>
      rw [Game.judged_some ho] at hrun
      refine ⟨_, _, hrun, fun hl => ?_, fun hh => ⟨rfl, _, Obj.get_set _ h.live, h.free, nofun, ?_⟩⟩
      · have hw := hl.2
        rw [winnerOf, Obj.get_set _ h.live] at hw
        cases Option.some.inj hw
        exact ho
      · intro r' hr
        cases hr
        exact Option.some.inj (ho.symm.trans hh)
  | resign role =>
    cases ht : G.terminated with
    | true =>
      exact ⟨_, _, call_resign_late role h.live h.free ht, fun _ => ht, fun _ => ⟨⟨rfl, rfl⟩, G, h⟩⟩
    | false =>
      obtain ⟨w', hrun, _⟩ := call_resign role h.live h.free ht
      refine ⟨_, _, hrun, fun hl => ?_, fun hh => ?_⟩
      · exact absurd hl.1.1 (by decide)
      · exact absurd (ht.symm.trans hh) (by decide)

/-- The induction over the calls. -/
theorem final_iff : ∀ {ops : List GameOp} {ended : Option GameRole} {w : World} {G : Game},
    Playing g ended w G → (Final g ended ops w ↔ Settled g ended ops w)
  | [], _, _, _, _ => by
    unfold Final Settled
    exact Iff.rfl
  | op :: ops, none, w, G, h => by
    obtain ⟨res, w', G', hrun, hG'⟩ := h.open_step op
    unfold Final Settled
    constructor
    · intro hf res₁ w₁ hw
      rw [hrun] at hw
      cases hw
      exact (final_iff hG').mp (hf.apply hrun)
    · intro hs
      exact .of_eq hrun ((final_iff hG').mpr (hs _ _ hrun))
  | op :: ops, some winner, w, G, h => by
    obtain ⟨res, w', hrun, hbad, hgood⟩ := h.late_step op
    unfold Final Settled
    constructor
    · intro hf
      obtain ⟨hlate, hwin, hrest⟩ := hf.apply hrun
      have hh := hbad ⟨hlate, hwin⟩
      obtain ⟨_, G', hG'⟩ := hgood hh
      refine ⟨fun G₁ hG₁ => ?_, fun res₁ w₁ hw => ?_⟩
      · rw [h.live] at hG₁
        cases hG₁
        exact hh
      · rw [hrun] at hw
        cases hw
        exact (final_iff hG').mp hrest
    · intro ⟨hh, hrest⟩
      obtain ⟨hlate, G', hG'⟩ := hgood (hh G h.live)
      refine .of_eq hrun ⟨hlate, ?_, (final_iff hG').mpr (hrest _ _ hrun)⟩
      rw [hG'.winnerOf_eq, hG'.winner _ rfl]

end Playing

/-- The outcome of a new game is final exactly when every call after its end is harmless. -/
theorem final_of_create (w : World) (ops : List GameOp) :
    Ends game_create.run w fun g w' => Final g none ops w' ↔ Settled g none ops w' :=
  (game_create_ends w).mono fun _ _ h => (Playing.of_created h).final_iff

/-- The first player resigns, then the second one: the second resignation goes through. -/
theorem resigned_twice : ¬ Ends game_create.run (World.initial fun _ => 0) fun g w =>
    Final g none [.resign .firstPlayerRole, .resign .secondPlayerRole] w := by
  intro ⟨g, w, hrun, hf⟩
  have h := (game_create_ends _).apply hrun
  have hs := (Playing.of_created h).final_iff.mp hf
  obtain ⟨w', hr, hw⟩ := call_resign .firstPlayerRole h rfl rfl
  obtain rfl := hw (by decide)
  have hlate := hs _ _ hr
  simp only [GameOp.ends, decide_true, if_true, winnerOf, Obj.get_set _ h, Option.map_some] at hlate
  exact nomatch show false = true from hlate.1 _ (Obj.get_set _ h)

end StarterProjects.Jeux
