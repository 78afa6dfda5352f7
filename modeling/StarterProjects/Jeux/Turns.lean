import Mathlib.Data.Finset.Card
import StarterProjects.Jeux.Game

/-!
# Turns

A player asks for a move with a string; the server parses it and applies the move. The
turn check sits in the parser and compares the role of the requester, but the mark that is
placed is the one the string names: `5<-O` from the first player, whose turn it is, places
an O and leaves the turn with the first player.

`fair_of_create`: a sequence of requests is fair exactly when no request of the player on
the move names the mark of the other one for a free cell.
-/

namespace StarterProjects.Jeux

open Lib Lib.Exec

/-- A player of the game asks for a move. -/
structure Request where
  role : GameRole
  str : CString
  player : role ≠ .nullRole

/-- Parse the move and apply it; `none` unless both succeed. -/
def request (g : GamePtr) (r : Request) : Prog World (Option GameMove) := do
  match ← game_parse_move g r.role r.str with
  | none => return none
  | some move =>
    let res ← game_apply_move g move
    return if res = 0 then some move else none

/-! ## What a fair run is -/

def marks (board : Fin 9 → Char) (c : Char) : Nat := (Finset.univ.filter fun i => board i = c).card

def Balanced (g : GamePtr) (w : World) : Prop :=
  ∃ G, (game g).get w = some G ∧ (marks G.gameBoard 'X' = marks G.gameBoard 'O' ∨
    marks G.gameBoard 'X' = marks G.gameBoard 'O' + 1)

/-- From `w` to `w'` the mark of `role` came into one free cell. -/
def Places (g : GamePtr) (role : GameRole) (w w' : World) : Prop :=
  ∃ G G' i, (game g).get w = some G ∧ (game g).get w' = some G' ∧ G.gameBoard i = ' ' ∧
    G'.gameBoard = Function.update G.gameBoard i (Game.mark role)

/-- The requests are answered one after the other; every successful one comes from the
player whose turn it is, counted from `next`, and places that player's mark; the board is
balanced all the time. -/
def Fair (g : GamePtr) : GameRole → List Request → World → Prop
  | _, [], w => Balanced g w
  | next, r :: rs, w => Balanced g w ∧ Ends (request g r).run w fun res w' =>
      if res.isSome then
        r.role = next ∧ Places g r.role w w' ∧ Fair g (Game.opponent next) rs w'
      else Fair g next rs w'

/-- The player on the move names the other player's mark for a free cell. -/
def Foul (g : GamePtr) (r : Request) (w : World) : Prop :=
  ∃ G i, (game g).get w = some G ∧ G.curRole = r.role ∧ cellOf (leadingDigit r.str) = some i ∧
    G.gameBoard i = ' ' ∧ r.str.length = 4 ∧ r.str[3]? = some (Game.mark (Game.opponent r.role))

def NoFoul (g : GamePtr) : List Request → World → Prop
  | [], _ => True
  | r :: rs, w => ¬ Foul g r w ∧ ∀ res w', (request g r).run w = .ok (res, w') → NoFoul g rs w'

/-! ## One request -/

namespace Game

/-- The answer to a request, and the game after it. -/
def answered (r : Request) (G : Game) : Option GameMove × Game :=
  match G.parsed r.role r.str with
  | none => (none, G)
  | some m => match G.target m with
    | none => (none, G)
    | some i => (some m, G.placed i m.curPlayer)

theorem opponent_isPlayer (role : GameRole) : (opponent role).IsPlayer := by
  unfold opponent
  split
  · exact .inr rfl
  · exact .inl rfl

theorem mark_opponent {role : GameRole} (h : role.IsPlayer) :
    mark (opponent role) ≠ mark role := by
  rcases h with rfl | rfl <;> decide

/-- Only the other player's mark in fourth place makes the named player another one. -/
theorem namedRole_cases {role : GameRole} (h : role.IsPlayer) (str : CString) :
    (namedRole role str = role ∧ ¬ (str.length = 4 ∧ str[3]? = some (mark (opponent role)))) ∨
    (namedRole role str = opponent role ∧
      str.length = 4 ∧ str[3]? = some (mark (opponent role))) := by
  unfold namedRole
  by_cases h4 : str.length = 4
  · rw [if_pos h4]
    rcases h with rfl | rfl
    · by_cases hX : str[3]? = some 'X'
      · exact .inl ⟨if_pos hX, fun hc => by rw [hX] at hc; exact absurd hc.2 (by decide)⟩
      · rw [if_neg hX]
        by_cases hO : str[3]? = some 'O'
        · exact .inr ⟨if_pos hO, h4, hO⟩
        · exact .inl ⟨if_neg hO, fun hc => hO hc.2⟩
    · by_cases hX : str[3]? = some 'X'
      · exact .inr ⟨if_pos hX, h4, hX⟩
      · rw [if_neg hX]
        exact .inl ⟨by split <;> rfl, fun hc => hX hc.2⟩
  · rw [if_neg h4]
    exact .inl ⟨rfl, fun hc => h4 hc.1⟩

end Game

theorem cellOf_none {i : Int} (h : i > 9 ∨ i < 1) : cellOf i = none := dif_neg (by omega)

section Request

variable {g : GamePtr} {w : World} {G : Game} {r : Request}

theorem request_run (h : (game g).get w = some G) (hl : G.gameLock = 1) :
    (request g r).run w = .ok ((G.answered r).1, (game g).set (G.answered r).2 w) := by
  rw [request, Prog.run_bind_ok (game_parse_move_run r.role r.str h hl), Game.answered]
  cases G.parsed r.role r.str with
  | none =>
    show Except.ok (none, w) = .ok (none, (game g).set G w)
    rw [Obj.set_get _ h]
  | some m =>
    refine (Prog.run_bind_ok (game_apply_move_run m h hl)).trans ?_
    dsimp only
    cases ht : G.target m with
    | none =>
      simp only [Game.moved, ht]
      rfl
    | some i =>
      simp only [Game.moved, ht]
      rfl

/-- What an answer says about the game: refused and unchanged, or a mark of the named
player in the free cell of the leading digit. -/
theorem answered_cases (r : Request) (G : Game) :
    (G.answered r = (none, G) ∧ ¬ (G.curRole = r.role ∧
      ∃ i, cellOf (leadingDigit r.str) = some i ∧ G.gameBoard i = ' ')) ∨
    ∃ i m, G.curRole = r.role ∧ cellOf (leadingDigit r.str) = some i ∧ G.gameBoard i = ' ' ∧
      G.answered r = (some m, G.placed i (namedRole r.role r.str)) := by
  unfold Game.answered Game.parsed
  by_cases hrole : G.curRole = r.role
  · rw [if_neg fun hc => hc.2 hrole]
    by_cases hd : leadingDigit r.str > 9 ∨ leadingDigit r.str < 1
    · rw [if_pos hd]
      exact .inl ⟨rfl, fun ⟨_, i, hi, _⟩ => by rw [cellOf_none hd] at hi; cases hi⟩
    · rw [if_neg hd]
      dsimp only [Game.target]
      cases hc : (cellOf (leadingDigit r.str)).filter fun i => G.gameBoard i = ' ' with
      | none =>
        refine .inl ⟨rfl, fun ⟨_, i, hi, hb⟩ => ?_⟩
        rw [hi, Option.filter_some, if_pos (decide_eq_true hb)] at hc
        cases hc
      | some i =>
        obtain ⟨hi, hb⟩ := Option.filter_eq_some_iff.mp hc
        exact .inr ⟨i, _, hrole, hi, of_decide_eq_true hb, by rw [hrole]⟩
  · rw [if_pos ⟨r.player, hrole⟩]
    exact .inl ⟨rfl, fun hc => hrole hc.1⟩

end Request

/-! ## Counting marks -/

theorem marks_update_same {board : Fin 9 → Char} {i : Fin 9} {c : Char} (h : board i ≠ c) :
    marks (Function.update board i c) c = marks board c + 1 := by
  unfold marks
  have hset : (Finset.univ.filter fun j => Function.update board i c j = c) =
      insert i (Finset.univ.filter fun j => board j = c) := by
    ext j
    rcases eq_or_ne j i with rfl | hj
    · simp only [Finset.mem_filter, Finset.mem_univ, Function.update_self, Finset.mem_insert,
        true_or, and_self]
    · simp only [Finset.mem_filter, Finset.mem_univ, true_and, Function.update_of_ne hj,
        Finset.mem_insert, hj, false_or]
  have hi : i ∉ Finset.univ.filter fun j => board j = c := fun hc => h (Finset.mem_filter.mp hc).2
  rw [hset, Finset.card_insert_of_notMem hi]

theorem marks_update_other {board : Fin 9 → Char} {i : Fin 9} {c d : Char} (h : board i ≠ d)
    (hcd : c ≠ d) : marks (Function.update board i c) d = marks board d := by
  unfold marks
  refine congrArg Finset.card (Finset.filter_congr fun j _ => ?_)
  rcases eq_or_ne j i with rfl | hj
  · rw [Function.update_self]
    exact ⟨fun hc => absurd hc hcd, fun hc => absurd hc h⟩
  · rw [Function.update_of_ne hj]

/-! ## Runs -/

/-- A live game on the move of `next`: as many X as O before the first player moves, one
more before the second does. -/
structure Even (g : GamePtr) (next : GameRole) (w : World) (G : Game) : Prop where
  live : (game g).get w = some G
  free : G.gameLock = 1
  turn : G.curRole = next
  player : next.IsPlayer
  count : marks G.gameBoard 'X' =
    marks G.gameBoard 'O' + if next = .firstPlayerRole then 0 else 1

namespace Even

variable {g : GamePtr} {next : GameRole} {w : World} {G : Game}

theorem balanced (h : Even g next w G) : Balanced g w :=
  ⟨G, h.live, by have := h.count; split at this <;> omega⟩

/-- The player on the move puts the own mark into a free cell. -/
theorem placed (h : Even g next w G) {i : Fin 9} (hi : G.gameBoard i = ' ') :
    Even g (Game.opponent next) ((game g).set (G.placed i next) w) (G.placed i next) where
  live := Obj.get_set _ h.live
  free := h.free
  turn := rfl
  player := Game.opponent_isPlayer _
  count := by
    have hc := h.count
    have hX : G.gameBoard i ≠ 'X' := by rw [hi]; decide
    have hO : G.gameBoard i ≠ 'O' := by rw [hi]; decide
    show marks (Function.update _ i _) 'X' = marks (Function.update _ i _) 'O' + _
    rcases h.player with rfl | rfl
    · have e1 := marks_update_same hX
      have e2 := marks_update_other hO (show 'X' ≠ 'O' by decide)
      simp only [Game.mark, Game.opponent, if_true, reduceCtorEq, if_false] at hc ⊢
      omega
    · have e1 := marks_update_same hO
      have e2 := marks_update_other hX (show 'O' ≠ 'X' by decide)
      simp only [Game.mark, Game.opponent, reduceCtorEq, if_false, if_true] at hc ⊢
      omega

/-- The induction over the requests: a foul request is answered with the wrong mark, any
other one leaves an even game. -/
theorem fair_iff : ∀ {rs : List Request} {next : GameRole} {w : World} {G : Game},
    Even g next w G → (Fair g next rs w ↔ NoFoul g rs w)
  | [], _, _, _, h => ⟨fun _ => trivial, fun _ => h.balanced⟩
  | r :: rs, next, w, G, h => by
    have hrun := request_run (r := r) h.live h.free
    rcases answered_cases r G with ⟨ha, hno⟩ | ⟨i, m, hrole, hi, hb, ha⟩
    · rw [ha, Obj.set_get _ h.live] at hrun
      have hfoul : ¬ Foul g r w := fun ⟨G', i, hG', hr, hi, hb, _⟩ => by
        rw [h.live] at hG'
        cases hG'
        exact hno ⟨hr, i, hi, hb⟩
      constructor
      · intro hf
        refine ⟨hfoul, fun res w' hw => ?_⟩
        rw [hrun] at hw
        cases hw
        exact (fair_iff h).mp (by simpa using hf.2.apply hrun)
      · intro hn
        exact ⟨h.balanced, .of_eq hrun (by simpa using (fair_iff h).mpr (hn.2 _ _ hrun))⟩
    · rw [ha] at hrun
      have hnext : next = r.role := h.turn.symm.trans hrole
      subst hnext
      rcases Game.namedRole_cases h.player r.str with ⟨hnamed, hother⟩ | ⟨hnamed, h4, h3⟩
      · rw [hnamed] at hrun
        have hfoul : ¬ Foul g r w := fun ⟨_, _, _, _, _, _, hs⟩ => hother hs
        have hp := h.placed hb
        constructor
        · intro hf
          refine ⟨hfoul, fun res w' hw => ?_⟩
          rw [hrun] at hw
          cases hw
          exact (fair_iff hp).mp (hf.2.apply hrun).2.2
        · intro hn
          refine ⟨h.balanced, .of_eq hrun ⟨rfl, ?_, (fair_iff hp).mpr (hn.2 _ _ hrun)⟩⟩
          exact ⟨G, _, i, h.live, hp.live, hb, rfl⟩
      · rw [hnamed] at hrun
        refine ⟨fun hf => absurd (hf.2.apply hrun).2.1 ?_, fun hn => absurd ?_ hn.1⟩
        · rintro ⟨G₁, G₂, j, hG₁, hG₂, hj, hG⟩
          rw [h.live] at hG₁
          cases hG₁
          have hset : some (G.placed i (Game.opponent r.role)) = some G₂ :=
            (Obj.get_set (game g) h.live).symm.trans hG₂
          cases hset
          -- the cell got the opponent's mark, so it is not the one a fair answer changes
          have hat : Function.update G.gameBoard i (Game.mark (Game.opponent r.role)) i =
              Function.update G.gameBoard j (Game.mark r.role) i := congrFun hG i
          rw [Function.update_self] at hat
          rcases eq_or_ne i j with rfl | hij
          · rw [Function.update_self] at hat
            exact Game.mark_opponent h.player hat
          · rw [Function.update_of_ne hij, hb] at hat
            exact absurd hat (by unfold Game.mark; split <;> decide)
        · exact ⟨G, i, h.live, hrole, hi, hb, h4, h3⟩

theorem of_created (h : (game g).get w = some Game.created) :
    Even g .firstPlayerRole w Game.created where
  live := h
  free := rfl
  turn := rfl
  player := by decide
  count := by decide

end Even

/-- On a new game the requests of the two players are answered fairly exactly when none of
them is foul. -/
theorem fair_of_create (w : World) (rs : List Request) :
    Ends game_create.run w fun g w' => Fair g .firstPlayerRole rs w' ↔ NoFoul g rs w' :=
  (game_create_ends w).mono fun _ _ h => (Even.of_created h).fair_iff

/-- The first player writes `5<-O`: an O is placed. -/
theorem foul_is_unfair : ¬ Ends game_create.run (World.initial fun _ => 0) fun g w =>
    Fair g .firstPlayerRole [⟨.firstPlayerRole, "5<-O".toList, by decide⟩] w := by
  intro ⟨g, w, hrun, hf⟩
  have h := (game_create_ends _).apply hrun
  refine ((Even.of_created h).fair_iff.mp hf).1 ⟨_, 4, h, rfl, ?_, rfl, ?_, ?_⟩ <;> decide

end StarterProjects.Jeux
