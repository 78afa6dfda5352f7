import StarterProjects.Jeux.World

/-!
# The player module

The functions of `player.c`. A `PLAYER *` that the source compares with NULL is an
`Option`. The new rating is computed in floating point: `rated R k S` stands for
`R + 32 * (S - 1 / (1 + pow(10, k)))`, converted to `int`.
-/

namespace StarterProjects.Jeux

open Lib

def NAME_MAX_LENGTH : Nat := 100

def PLAYER_INITIAL_RATING : Int := 1500

/-- The object behind a `PLAYER *`. -/
def player (p : PlayerPtr) : Obj World Player := players.obj p

def Player.created (name : CString) : Player where
  playerName := name
  refCount := 1
  rating := PLAYER_INITIAL_RATING
  playerLock := 1

/-- `strcat` writes the name and its NUL into a field of `NAME_MAX_LENGTH` characters. -/
def player_create (name : CString) : Prog World PlayerPtr :=
  if name.length < NAME_MAX_LENGTH then players.malloc (Player.created name)
  else Prog.stop .undefined

def player_ref (player? : Option PlayerPtr) : Prog World (Option PlayerPtr) :=
  match player? with
  | none => return none
  | some p => do
    P (player p) playerLock
    (player p).update fun X => { X with refCount := X.refCount + 1 }
    (player p).update fun X => { X with refCount := X.refCount + 1 }
    V (player p) playerLock
    return some p

def player_unref (player? : Option PlayerPtr) : Prog World Unit :=
  match player? with
  | none => return ()
  | some p => dropRef players p playerRefs

/-- The characters behind the returned `char *`; NULL for NULL. -/
def player_get_name (player? : Option PlayerPtr) : Prog World (Option CString) :=
  match player? with
  | none => return none
  | some p => do
    let X ← (player p).read
    return some X.playerName

/-- `strcmp(s, t) == 0`. -/
def strcmp_eq (s : Option CString) (t : CString) : Prog World Bool :=
  match s with
  | none => Prog.stop .undefined
  | some s => return s = t

def player_get_rating (player? : Option PlayerPtr) : Prog World Int :=
  match player? with
  | none => return 0
  | some p => do
    let X ← (player p).read
    return X.rating

inductive Score where
  | lost
  | drew
  | won
deriving DecidableEq, Repr

/-- `S1` and `S2`. -/
def scores (result : Int) : Score × Score :=
  if result = 0 then (.drew, .drew) else if result = 1 then (.won, .lost) else (.lost, .won)

/-- Reading a rating in its critical section. -/
def lockedRead (p : PlayerPtr) : Prog World Int := do
  P (player p) playerLock
  let X ← (player p).read
  V (player p) playerLock
  return X.rating

/-- Writing a rating in its critical section. -/
def lockedWrite (p : PlayerPtr) (R : Int) : Prog World Unit := do
  P (player p) playerLock
  (player p).update fun X => { X with rating := R }
  V (player p) playerLock

/-- `section_` is how a critical section is run: `id` step by step, `Prog.atomic` at once. -/
def player_post_result (rated : Int → Int → Score → Int)
    (section_ : ∀ {α}, Prog World α → Prog World α) (player1 player2 : PlayerPtr) (result : Int) :
    Prog World Unit := do
  let S1 := (scores result).1
  let S2 := (scores result).2
  let R1 ← section_ (lockedRead player1)
  let R2 ← section_ (lockedRead player2)
  let newR1 := rated R1 ((R2 - R1).tdiv 400) S1
  let newR2 := rated R2 ((R1 - R2).tdiv 400) S2
  section_ (lockedWrite player1 newR1)
  section_ (lockedWrite player2 newR2)

/-! ## What they do to a live player -/

section Runs

variable {p : PlayerPtr} {w : World} {X : Player}

theorem player_set_other {q : PlayerPtr} (h : q ≠ p) :
    (player q).get ((player p).set X w) = (player q).get w := Arena.get_set_other h w

theorem player_create_run {name : CString} (h : name.length < NAME_MAX_LENGTH) (w : World) :
    (player_create name).run w =
      .ok (w.playerHeap.next, players.modify (Heap.alloc (Player.created name)) w) := by
  rw [player_create, if_pos h]
  exact Arena.malloc_run _ _

theorem player_create_long {name : CString} (h : ¬ name.length < NAME_MAX_LENGTH) (w : World) :
    (player_create name).run w = .error .undefined := by
  rw [player_create, if_neg h]
  rfl

theorem player_ref_run (h : (player p).get w = some X) (hl : X.playerLock = 1) :
    (player_ref (some p)).run w =
      .ok (some p, (player p).set { X with refCount := X.refCount + 2 } w) := by
  have hput : playerLock.put 1 { X with refCount := X.refCount + 2 } =
      { X with refCount := X.refCount + 2 } := playerLock.put_same hl
  have htwo : X.refCount + 1 + 1 = X.refCount + 2 := by omega
  rw [player_ref, P_then h hl, set_update h, set_update h, set_V h, ← hput, ← htwo]
  rfl

/-- The last reference frees the player. -/
theorem player_unref_run (h : (player p).get w = some X) (hl : X.playerLock = 1) :
    (player_unref (some p)).run w = if X.refCount = 1 then
        .ok ((), players.modify (Heap.free p) ((player p).set { X with refCount := 0 } w))
      else .ok ((), (player p).set { X with refCount := X.refCount - 1 } w) :=
  Counted.dropRef_run h hl

theorem player_unref_dead (h : (player p).get w = none) :
    (player_unref (some p)).run w = .error .undefined :=
  Counted.dropRef_dead h

theorem player_ref_dead (h : (player p).get w = none) :
    (player_ref (some p)).run w = .error .undefined :=
  Prog.run_bind_error (P_dead h)

theorem lockedRead_run (h : (player p).get w = some X) (hl : X.playerLock = 1) :
    (lockedRead p).run w = .ok (X.rating, w) := by
  rw [lockedRead, critical h hl, set_V h, playerLock.reopen hl, Obj.set_get _ h]
  rfl

theorem lockedWrite_run (R : Int) (h : (player p).get w = some X) (hl : X.playerLock = 1) :
    (lockedWrite p R).run w = .ok ((), (player p).set { X with rating := R } w) := by
  have hput : playerLock.put 1 { X with rating := R } = { X with rating := R } :=
    playerLock.put_same hl
  rw [lockedWrite, P_then h hl, set_update h, V_run (Obj.get_set _ h), Obj.set_set, ← hput]
  rfl

end Runs

end StarterProjects.Jeux
