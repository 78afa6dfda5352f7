import StarterProjects.Jeux.Game

/-!
# The invitation module

The functions of `invitation.c`. `inv_close` calls into the game module while it holds the
lock of the invitation, and passes on whatever `invGame` is.
-/

namespace StarterProjects.Jeux

open Lib

/-- The object behind an `INVITATION *`. -/
def invitation (i : InvitationPtr) : Obj World Invitation := invitations.obj i

/-- `client_ref` on the two clients is the client module's and changes nothing here. -/
def inv_create (source target : Option ClientPtr) (source_role target_role : GameRole) :
    Prog World (Option InvitationPtr) :=
  match source, target with
  | some source, some target => do
    let client_get_fd ← Prog.ask World.clientFd
    if client_get_fd source = client_get_fd target then
      return none
    let newInv ← invitations.malloc
      { invGame := none, invSource := source, invTarget := target,
        invSourceGameRole := source_role, invTargetGameRole := target_role,
        invState := .openState, refCount := 1, invLock := 1 }
    return some newInv
  | _, _ => return none

def inv_ref (i : InvitationPtr) : Prog World InvitationPtr := do
  addRef (invitation i) invRefs
  return i

def inv_unref (i : InvitationPtr) : Prog World Unit := dropRef invitations i invRefs

/-- The getters read one field under the lock. -/
def inv_get {α : Type} (field : Invitation → α) (i : InvitationPtr) : Prog World α := do
  P (invitation i) invLock
  let I ← (invitation i).read
  V (invitation i) invLock
  return field I

def inv_get_source := inv_get Invitation.invSource

def inv_get_target := inv_get Invitation.invTarget

def inv_get_source_role := inv_get Invitation.invSourceGameRole

def inv_get_target_role := inv_get Invitation.invTargetGameRole

def inv_get_game := inv_get Invitation.invGame

def inv_accept (i : InvitationPtr) : Prog World Int := do
  P (invitation i) invLock
  let I ← (invitation i).read
  if I.invState = .openState then
    (invitation i).update fun I => { I with invState := .acceptedState }
    let newGame ← game_create
    (invitation i).update fun I => { I with invGame := some newGame }
  else
    V (invitation i) invLock
    return -1
  V (invitation i) invLock
  return 0

def inv_close (i : InvitationPtr) (role : GameRole) : Prog World Int := do
  P (invitation i) invLock
  let I ← (invitation i).read
  if I.invState = .openState ∨ I.invState = .acceptedState then
    (invitation i).update fun I => { I with invState := .closedState }
    if role ≠ .nullRole then
      match I.invGame with
      | none => Prog.stop .undefined
      | some g =>
        if (← game_is_over g) = 0 then
          let _ ← game_resign g role
  else
    return -1
  V (invitation i) invLock
  return 0

/-! ## What they do to a live invitation -/

/-- The game is over: marked so, or the board shows it. -/
def Game.over (G : Game) : Bool := G.terminated || G.outcome.isSome

/-- The game after a player left it. -/
def Game.left (role : GameRole) (G : Game) : Game :=
  if G.over then G.judged.2 else G.resigned role

section Runs

variable {i : InvitationPtr} {w : World} {I : Invitation}

theorem inv_get_returns {α : Type} (field : Invitation → α) (h : (invitation i).get w = some I)
    (hl : I.invLock = 1) : Exec.Returns (inv_get field i).run w := by
  rw [inv_get]
  refine (Exec.Returns.congr (critical h hl)).mpr ((Exec.Returns.congr (set_V h)).mpr ?_)
  exact .of_eq rfl

theorem inv_accept_open (h : (invitation i).get w = some I) (hl : I.invLock = 1)
    (ho : I.invState = .openState) :
    (inv_accept i).run w = .ok (0, (invitation i).set
      { I with invState := .acceptedState, invGame := some w.gameHeap.next }
      (games.modify (Heap.alloc Game.created) w)) := by
  have hg : (invitation i).get (games.modify (Heap.alloc Game.created) w) = some I := h
  rw [inv_accept, critical h hl]
  show (if I.invState = .openState then _ else _ : Prog World _).run _ = _
  rw [if_pos ho, set_update h, Prog.run_bind_ok (game_create_run _)]
  -- the new game does not touch the invitation
  show ((invitation i).update _ >>= _).run ((invitation i).set _
    (games.modify (Heap.alloc Game.created) w)) = _
  rw [set_update hg, set_V hg, ← invLock.put_same (show invLock.value
    { I with invState := .acceptedState, invGame := some w.gameHeap.next } = 1 from hl)]
  rfl

theorem inv_accept_late (h : (invitation i).get w = some I) (hl : I.invLock = 1)
    (ho : I.invState ≠ .openState) : (inv_accept i).run w = .ok (-1, w) := by
  rw [inv_accept, critical h hl]
  show (if I.invState = .openState then _ else _ : Prog World _).run _ = _
  rw [if_neg ho, set_V h, invLock.reopen hl, Obj.set_get _ h]
  rfl

/-- Closing a closed invitation returns with the lock taken. -/
theorem inv_close_closed (role : GameRole) (h : (invitation i).get w = some I)
    (hl : I.invLock = 1) (hc : I.invState = .closedState) :
    (inv_close i role).run w = .ok (-1, (invitation i).set { I with invLock := 0 } w) := by
  rw [inv_close, critical h hl]
  show (if I.invState = .openState ∨ I.invState = .acceptedState then _ else _ :
    Prog World _).run _ = _
  rw [if_neg (by rw [hc]; decide)]
  rfl

theorem open_or_accepted (h : I.invState ≠ .closedState) :
    I.invState = .openState ∨ I.invState = .acceptedState := by
  cases hi : I.invState with
  | openState => exact .inl rfl
  | acceptedState => exact .inr rfl
  | closedState => exact absurd hi h

theorem inv_close_null (h : (invitation i).get w = some I) (hl : I.invLock = 1)
    (hc : I.invState ≠ .closedState) : (inv_close i .nullRole).run w =
      .ok (0, (invitation i).set { I with invState := .closedState } w) := by
  rw [inv_close, critical h hl]
  show (if I.invState = .openState ∨ I.invState = .acceptedState then _ else _ :
    Prog World _).run _ = _
  rw [if_pos (open_or_accepted hc), set_update h, if_neg (by decide), set_V h, ← invLock.put_same
    (show invLock.value { I with invState := .closedState } = 1 from hl)]
  rfl

/-- An open invitation has no game to resign. -/
theorem inv_close_absent {role : GameRole} (h : (invitation i).get w = some I)
    (hl : I.invLock = 1) (hr : role ≠ .nullRole) (hc : I.invState ≠ .closedState)
    (hg : I.invGame = none) : (inv_close i role).run w = .error .undefined := by
  rw [inv_close, critical h hl]
  show (if I.invState = .openState ∨ I.invState = .acceptedState then _ else _ :
    Prog World _).run _ = _
  rw [if_pos (open_or_accepted hc), set_update h, if_pos hr]
  show (match I.invGame with | none => _ | some g => _ : Prog World _).run _ = _
  rw [hg]
  rfl

/-- A player who closes an invitation that is not closed yet leaves its game. -/
theorem inv_close_enter {role : GameRole} (h : (invitation i).get w = some I)
    (hl : I.invLock = 1) (hr : role ≠ .nullRole) (hc : I.invState ≠ .closedState)
    {g : GamePtr} (hg : I.invGame = some g) :
    (inv_close i role).run w = (game_is_over g >>= fun ended =>
      if ended = 0 then
        game_resign g role >>= fun _ => V (invitation i) invLock >>= fun _ => Prog.ret (0 : Int)
      else V (invitation i) invLock >>= fun _ => Prog.ret (0 : Int)).run
        ((invitation i).set { invLock.put 0 I with invState := .closedState } w) := by
  rw [inv_close, critical h hl]
  show (if I.invState = .openState ∨ I.invState = .acceptedState then _ else _ :
    Prog World _).run _ = _
  rw [if_pos (open_or_accepted hc), set_update h, if_pos hr]
  show (match I.invGame with | none => _ | some g => _ : Prog World _).run _ = _
  rw [hg]
  rfl

theorem inv_close_player {role : GameRole} {g : GamePtr} {G : Game}
    (h : (invitation i).get w = some I) (hl : I.invLock = 1) (hr : role ≠ .nullRole)
    (hc : I.invState ≠ .closedState) (hg : I.invGame = some g) (hG : (game g).get w = some G)
    (hGl : G.gameLock = 1) (href : G.refCount ≠ 1) :
    (inv_close i role).run w = .ok (0, (invitation i).set { I with invState := .closedState }
      ((game g).set (G.left role) w)) := by
  have leave : ∀ G', (V (invitation i) invLock >>= fun _ => Prog.ret (0 : Int)).run
      ((invitation i).set { invLock.put 0 I with invState := .closedState } ((game g).set G' w)) =
        .ok (0, (invitation i).set { I with invState := .closedState } ((game g).set G' w)) := by
    intro G'
    have h' : (invitation i).get ((game g).set G' w) = some I := h
    rw [set_V h', ← invLock.put_same
      (show invLock.value { I with invState := .closedState } = 1 from hl)]
    rfl
  have hover := game_is_over_run
    (show (game g).get ((invitation i).set { invLock.put 0 I with invState := .closedState } w) =
      some G from hG) hGl
  rw [inv_close_enter h hl hr hc hg, Prog.run_bind_ok hover]
  show (if G.judged.1 = 0 then _ else _ : Prog World _).run _ = _
  unfold Game.left Game.over
  -- a game that has an outcome is over, and is not resigned
  cases ho : G.outcome with
  | some r =>
    have hj : G.judged.1 ≠ 0 := by
      rw [Game.judged, ho]
      exact show (1 : Int) ≠ 0 by decide
    rw [if_neg hj, Option.isSome_some, Bool.or_true, if_pos rfl]
    exact leave _
  | none =>
    have hj : G.judged = (0, G) := by rw [Game.judged, ho]
    have hset : (game g).set G ((invitation i).set
        { invLock.put 0 I with invState := .closedState } w) =
        (invitation i).set { invLock.put 0 I with invState := .closedState } w :=
      Obj.set_get _ hG
    have hres := game_resign_run role
      (show (game g).get ((invitation i).set { invLock.put 0 I with invState := .closedState } w) =
        some G from hG) hGl
    rw [hj, if_pos rfl, Option.isSome_none, Bool.or_false, hset]
    show (game_resign g role >>= _).run _ = _
    cases ht : G.terminated with
    | true =>
      rw [if_pos ht] at hres
      rw [Prog.run_bind_ok hres, if_pos rfl, Obj.set_get _ hG]
      have hl' := leave G
      rw [Obj.set_get _ hG] at hl'
      exact hl'
    | false =>
      rw [if_neg (by rw [ht]; decide), if_neg href] at hres
      rw [Prog.run_bind_ok hres, if_neg (by decide)]
      exact leave _

end Runs

end StarterProjects.Jeux
