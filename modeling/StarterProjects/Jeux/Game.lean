import Mathlib.Data.Fintype.Basic
import StarterProjects.Jeux.World

/-!
# The game module

The functions of `game.c`, and for each of them what it does to a live game whose lock is
free: `moved`, `judged` and `resigned` are the games that `game_apply_move`,
`game_is_over` and `game_resign` leave.
-/

namespace StarterProjects.Jeux

open Lib

/-- The object behind a `GAME *`. -/
def game (g : GamePtr) : Obj World Game := games.obj g

def Game.created : Game where
  gameWinner := .nullRole
  curRole := .firstPlayerRole
  refCount := 2
  gameDraw := false
  terminated := false
  gameBoard := fun _ => ' '
  movesMade := 0
  gameLock := 1

def game_create : Prog World GamePtr := games.malloc Game.created

def game_ref (g : GamePtr) : Prog World GamePtr := do
  addRef (game g) gameRefs
  return g

def game_unref (g : GamePtr) : Prog World Unit := dropRef games g gameRefs

/-- The cell that a board index counted from 1 means. -/
def cellOf (curIdx : Int) : Option (Fin 9) :=
  if h : 1 ≤ curIdx ∧ curIdx ≤ 9 then some ⟨(curIdx - 1).toNat, by omega⟩ else none

def game_apply_move (g : GamePtr) (move : GameMove) : Prog World Int := do
  P (game g) gameLock
  let G ← (game g).read
  match (cellOf move.boardIndex).filter (fun i => G.gameBoard i = ' ') with
  | none =>
    V (game g) gameLock
    return -1
  | some i =>
    (game g).update fun G =>
      { G with
        curRole := if move.curPlayer = .firstPlayerRole then .secondPlayerRole else .firstPlayerRole
        gameBoard := Function.update G.gameBoard i
          (if move.curPlayer = .firstPlayerRole then 'X' else 'O')
        movesMade := G.movesMade + 1 }
    V (game g) gameLock
    return 0

def game_resign (g : GamePtr) (role : GameRole) : Prog World Int := do
  P (game g) gameLock
  let G ← (game g).read
  if G.terminated then
    V (game g) gameLock
    return -1
  (game g).update fun G =>
    { G with gameWinner := if role = .firstPlayerRole then .secondPlayerRole else .firstPlayerRole }
  V (game g) gameLock
  game_unref g
  return 0

/-- Three cells in a row: the horizontal, the vertical and the diagonal checks, in order. -/
def winningLines : List (Fin 9 × Fin 9 × Fin 9) :=
  [(0, 1, 2), (3, 4, 5), (6, 7, 8), (0, 3, 6), (1, 4, 7), (2, 5, 8), (0, 4, 8), (2, 4, 6)]

/-- The letter of the first line that one letter fills, or a blank. -/
def winningLetter (board : Fin 9 → Char) : Char :=
  match winningLines.find? fun l =>
    board l.1 ≠ ' ' && board l.1 = board l.2.1 && board l.1 = board l.2.2 with
  | some l => board l.1
  | none => ' '

def game_is_over (g : GamePtr) : Prog World Int := do
  P (game g) gameLock
  let G ← (game g).read
  if G.movesMade = 9 then
    (game g).update fun G => { G with gameWinner := .nullRole, terminated := true }
    V (game g) gameLock
    return 1
  if winningLetter G.gameBoard = 'X' then
    (game g).update fun G => { G with gameWinner := .firstPlayerRole, terminated := true }
    V (game g) gameLock
    return 1
  if winningLetter G.gameBoard = 'O' then
    (game g).update fun G => { G with gameWinner := .secondPlayerRole, terminated := true }
    V (game g) gameLock
    return 1
  V (game g) gameLock
  return 0

def game_get_winner (g : GamePtr) : Prog World GameRole := do
  P (game g) gameLock
  let G ← (game g).read
  V (game g) gameLock
  return G.gameWinner

/-- The string is appended to what the malloc'ed storage happens to hold before its first
NUL: the source never initialises it. -/
def game_unparse_state (storage : CString) (g : GamePtr) : Prog World CString := do
  P (game g) gameLock
  let G ← (game g).read
  let line := fun i j k => [G.gameBoard i, '|', G.gameBoard j, '|', G.gameBoard k, '\n']
  let rule := "-----\n".toList
  let turn := match G.curRole with
    | .firstPlayerRole => "X to move\n".toList
    | .secondPlayerRole => "O to move\n".toList
    | _ => []
  V (game g) gameLock
  return storage ++ line 0 1 2 ++ rule ++ line 3 4 5 ++ rule ++ line 6 7 8 ++ turn

/-- `*str - '0'`, where the string ends with a NUL. -/
def leadingDigit (str : CString) : Int := ((str.head?.getD '\x00').toNat : Int) - 48

/-- The player whose mark the string names: its fourth character counts when there are
exactly four. -/
def namedRole (curRole : GameRole) (str : CString) : GameRole :=
  if str.length = 4 then
    if str[3]? = some 'X' then .firstPlayerRole
    else if str[3]? = some 'O' then .secondPlayerRole
    else curRole
  else curRole

def game_parse_move (g : GamePtr) (role : GameRole) (str : CString) :
    Prog World (Option GameMove) := do
  P (game g) gameLock
  let G ← (game g).read
  if role ≠ .nullRole ∧ G.curRole ≠ role then
    V (game g) gameLock
    return none
  let curIdx := leadingDigit str
  if curIdx > 9 ∨ curIdx < 1 then
    V (game g) gameLock
    return none
  V (game g) gameLock
  return some { boardIndex := curIdx, curPlayer := namedRole G.curRole str }

/-! ## What they do to a live game -/

namespace Game

/-- The free cell the move is for. -/
def target (m : GameMove) (G : Game) : Option (Fin 9) :=
  (cellOf m.boardIndex).filter fun i => G.gameBoard i = ' '

def mark (role : GameRole) : Char := if role = .firstPlayerRole then 'X' else 'O'

def opponent (role : GameRole) : GameRole :=
  if role = .firstPlayerRole then .secondPlayerRole else .firstPlayerRole

/-- The game after a mark of `role` in cell `i`. -/
def placed (i : Fin 9) (role : GameRole) (G : Game) : Game :=
  { G with
    curRole := opponent role
    gameBoard := Function.update G.gameBoard i (mark role)
    movesMade := G.movesMade + 1 }

def moved (m : GameMove) (G : Game) : Int × Game :=
  match target m G with
  | none => (-1, G)
  | some i => (0, placed i m.curPlayer G)

/-- The outcome that the board shows: the winner, `nullRole` for a draw. -/
def outcome (G : Game) : Option GameRole :=
  if G.movesMade = 9 then some .nullRole
  else if winningLetter G.gameBoard = 'X' then some .firstPlayerRole
  else if winningLetter G.gameBoard = 'O' then some .secondPlayerRole
  else none

def judged (G : Game) : Int × Game :=
  match outcome G with
  | none => (0, G)
  | some r => (1, { G with gameWinner := r, terminated := true })

def parsed (role : GameRole) (str : CString) (G : Game) : Option GameMove :=
  if role ≠ .nullRole ∧ G.curRole ≠ role then none
  else if leadingDigit str > 9 ∨ leadingDigit str < 1 then none
  else some ⟨leadingDigit str, namedRole G.curRole str⟩

/-- The game as it stands when a resignation gives up its reference. -/
def resigned (role : GameRole) (G : Game) : Game :=
  { G with gameWinner := opponent role, refCount := G.refCount - 1 }

end Game

theorem game_create_run (w : World) :
    game_create.run w = .ok (w.gameHeap.next, games.modify (Heap.alloc Game.created) w) :=
  Arena.malloc_run _ _

theorem game_create_ends (w : World) : Exec.Ends game_create.run w fun g w' =>
    (game g).get w' = some Game.created :=
  .of_eq (game_create_run w) (Heap.alloc_same _ _)

section Runs

variable {g : GamePtr} {w : World} {G : Game}

theorem game_parse_move_run (role : GameRole) (str : CString) (h : (game g).get w = some G)
    (hl : G.gameLock = 1) :
    (game_parse_move g role str).run w = .ok (G.parsed role str, w) := by
  have leave : ∀ m : Option GameMove,
      (V (game g) gameLock >>= fun _ => Prog.ret m).run ((game g).set (gameLock.put 0 G) w) =
        .ok (m, w) := fun m => by
    rw [set_V h, gameLock.reopen hl, Obj.set_get _ h]
    rfl
  rw [game_parse_move, critical h hl]
  unfold Game.parsed
  show (if role ≠ .nullRole ∧ G.curRole ≠ role then _ else _ : Prog World _).run _ = _
  split
  · exact leave _
  · show (if leadingDigit str > 9 ∨ leadingDigit str < 1 then _ else _ : Prog World _).run _ = _
    split
    · exact leave _
    · exact leave _

theorem game_apply_move_run (m : GameMove) (h : (game g).get w = some G)
    (hl : G.gameLock = 1) :
    (game_apply_move g m).run w = .ok ((G.moved m).1, (game g).set (G.moved m).2 w) := by
  have hf : (cellOf m.boardIndex).filter (fun i => (gameLock.put 0 G).gameBoard i = ' ') =
      G.target m := rfl
  rw [game_apply_move, critical h hl, hf, Game.moved]
  cases ht : G.target m with
  | none =>
    show (V (game g) gameLock >>= fun _ => Prog.ret (-1)).run _ = _
    rw [set_V h, gameLock.reopen hl]
    rfl
  | some i =>
    show _ = Except.ok ((0 : Int), (game g).set (G.placed i m.curPlayer) w)
    rw [set_update h, set_V h, ← gameLock.put_same (show gameLock.value (G.placed i _) = 1 from hl)]
    rfl

theorem game_is_over_run (h : (game g).get w = some G) (hl : G.gameLock = 1) :
    (game_is_over g).run w = .ok (G.judged.1, (game g).set G.judged.2 w) := by
  have close : ∀ r, (Obj.update (game g) (fun G => { G with gameWinner := r, terminated := true })
      >>= fun _ => V (game g) gameLock >>= fun _ => Prog.ret (1 : Int)).run
        ((game g).set (gameLock.put 0 G) w) =
      .ok (1, (game g).set { G with gameWinner := r, terminated := true } w) := fun r => by
    rw [set_update h, set_V h, ← gameLock.put_same
      (show gameLock.value { G with gameWinner := r, terminated := true } = 1 from hl)]
    rfl
  rw [game_is_over, critical h hl]
  unfold Game.judged Game.outcome
  show (if G.movesMade = 9 then _ else _ : Prog World _).run _ = _
  split
  · exact close _
  · show (if winningLetter G.gameBoard = 'X' then _ else _ : Prog World _).run _ = _
    split
    · exact close _
    · show (if winningLetter G.gameBoard = 'O' then _ else _ : Prog World _).run _ = _
      split
      · exact close _
      · show (V (game g) gameLock >>= fun _ => Prog.ret (0 : Int)).run _ = _
        rw [set_V h, gameLock.reopen hl]
        rfl

theorem game_get_winner_run (h : (game g).get w = some G) (hl : G.gameLock = 1) :
    (game_get_winner g).run w = .ok (G.gameWinner, w) := by
  rw [game_get_winner, critical h hl, set_V h, gameLock.reopen hl, Obj.set_get _ h]
  rfl

theorem game_unparse_state_returns (storage : CString) (h : (game g).get w = some G)
    (hl : G.gameLock = 1) : Exec.Returns (game_unparse_state storage g).run w := by
  rw [game_unparse_state]
  refine (Exec.Returns.congr (critical h hl)).mpr ((Exec.Returns.congr (set_V h)).mpr ?_)
  exact .of_eq rfl

/-- The last reference frees the game. -/
theorem game_unref_run (h : (game g).get w = some G) (hl : G.gameLock = 1) :
    (game_unref g).run w = if G.refCount = 1 then
        .ok ((), games.modify (Heap.free g) ((game g).set { G with refCount := 0 } w))
      else .ok ((), (game g).set { G with refCount := G.refCount - 1 } w) :=
  Counted.dropRef_run h hl

theorem game_resign_run (role : GameRole) (h : (game g).get w = some G) (hl : G.gameLock = 1) :
    (game_resign g role).run w = if G.terminated then .ok (-1, w)
      else if G.refCount = 1 then
        .ok (0, games.modify (Heap.free g) ((game g).set { G.resigned role with refCount := 0 } w))
      else .ok (0, (game g).set (G.resigned role) w) := by
  rw [game_resign, critical h hl]
  show (if G.terminated then _ else _ : Prog World _).run _ = _
  split
  · show (V (game g) gameLock >>= fun _ => Prog.ret (-1 : Int)).run _ = _
    rw [set_V h, gameLock.reopen hl, Obj.set_get _ h]
    rfl
  · have hopen : gameLock.put 1 { G with gameWinner := Game.opponent role } =
        { G with gameWinner := Game.opponent role } := gameLock.put_same hl
    have hrun := game_unref_run
      (Obj.get_set (game g) (a := { G with gameWinner := Game.opponent role }) h) hl
    simp only [Obj.set_set] at hrun
    rw [set_update h, set_V h]
    show (game_unref g >>= fun _ => Prog.ret (0 : Int)).run ((game g).set
      (gameLock.put 1 { G with gameWinner := Game.opponent role }) w) = _
    rw [hopen]
    split
    · next hc =>
      rw [if_pos hc] at hrun
      exact Prog.run_bind_ok hrun
    · next hc =>
      rw [if_neg hc] at hrun
      exact Prog.run_bind_ok hrun

theorem game_resign_returns (role : GameRole) (h : (game g).get w = some G)
    (hl : G.gameLock = 1) : Exec.Returns (game_resign g role).run w := by
  have hrun := game_resign_run role h hl
  split at hrun
  · exact .of_eq hrun
  · split at hrun
    · exact .of_eq hrun
    · exact .of_eq hrun

end Runs

end StarterProjects.Jeux
