import StarterProjects.Lib.Objects

/-!
# The data of the game server

The objects of `player.c`, `game.c`, `invitation.c` and the two registries, with the
fields the source gives them. Players, games and invitations live behind pointers and can
be freed; the registries are there for the whole run. The nodes of a registry are the list
of what they point to, in order.

The client module (`client.h`) comes as a library without source. Of it the world holds
what its accessors return: the file descriptor of a client, which never changes, and the
player it is logged in as.
-/

namespace StarterProjects.Jeux

open Lib

/-- The characters of a C string, without the terminating NUL. -/
abbrev CString := List Char

abbrev PlayerPtr := Nat
abbrev GamePtr := Nat
abbrev InvitationPtr := Nat
abbrev ClientPtr := Nat

/-- A variable of the enumeration type can hold any other value too. -/
inductive GameRole where
  | nullRole
  | firstPlayerRole
  | secondPlayerRole
  | other (value : Nat)
deriving DecidableEq, Repr

/-- The role of a player of a game. -/
def GameRole.IsPlayer (role : GameRole) : Prop :=
  role = .firstPlayerRole ∨ role = .secondPlayerRole

instance (role : GameRole) : Decidable role.IsPlayer :=
  inferInstanceAs (Decidable (_ ∨ _))

inductive InvitationState where
  | openState
  | acceptedState
  | closedState
deriving DecidableEq, Repr

structure Player where
  playerName : CString
  refCount : Int
  rating : Int
  playerLock : Nat

structure Game where
  gameWinner : GameRole
  curRole : GameRole
  refCount : Int
  gameDraw : Bool
  terminated : Bool
  gameBoard : Fin 9 → Char
  movesMade : Nat
  gameLock : Nat

structure GameMove where
  boardIndex : Int
  curPlayer : GameRole
deriving DecidableEq, Repr

structure Invitation where
  invGame : Option GamePtr
  invSource : ClientPtr
  invTarget : ClientPtr
  invSourceGameRole : GameRole
  invTargetGameRole : GameRole
  invState : InvitationState
  refCount : Int
  invLock : Nat

structure PlayerRegistry where
  nodes : List PlayerPtr
  playerCount : Nat
  registryLock : Nat

/-- `registered` and `released` are history variables that no branch of the code reads: the
clients whose registration has taken effect and was not taken back, and those that
`client_unref` was called for, the last call first. -/
structure ClientRegistry where
  nodes : List ClientPtr
  clientCount : Int
  registryLock : Nat
  notEmpty : Nat
  registered : List ClientPtr
  released : List ClientPtr

structure World where
  playerHeap : Heap Player
  gameHeap : Heap Game
  invitationHeap : Heap Invitation
  pregState : PlayerRegistry
  cregState : ClientRegistry
  clientFd : ClientPtr → Int
  clientPlayer : ClientPtr → Option PlayerPtr

/-! ## Where the objects live -/

def players : Arena World Player where
  heap := World.playerHeap
  modify := fun f w => { w with playerHeap := f w.playerHeap }
  heap_modify := fun _ _ => rfl
  modify_modify := fun _ _ _ => rfl
  modify_congr := fun h => by rw [h]
  modify_id := fun _ => rfl

def games : Arena World Game where
  heap := World.gameHeap
  modify := fun f w => { w with gameHeap := f w.gameHeap }
  heap_modify := fun _ _ => rfl
  modify_modify := fun _ _ _ => rfl
  modify_congr := fun h => by rw [h]
  modify_id := fun _ => rfl

def invitations : Arena World Invitation where
  heap := World.invitationHeap
  modify := fun f w => { w with invitationHeap := f w.invitationHeap }
  heap_modify := fun _ _ => rfl
  modify_modify := fun _ _ _ => rfl
  modify_congr := fun h => by rw [h]
  modify_id := fun _ => rfl

def preg : Obj World PlayerRegistry where
  get := fun w => some w.pregState
  modify := fun f w => { w with pregState := f w.pregState }
  get_modify := fun _ _ => rfl
  modify_modify := fun _ _ _ => rfl
  modify_congr := fun h => by rw [h _ rfl]
  modify_id := fun _ => rfl

def creg : Obj World ClientRegistry where
  get := fun w => some w.cregState
  modify := fun f w => { w with cregState := f w.cregState }
  get_modify := fun _ _ => rfl
  modify_modify := fun _ _ _ => rfl
  modify_congr := fun h => by rw [h _ rfl]
  modify_id := fun _ => rfl

/-! ## Their locks -/

def playerLock : Lock Player :=
  ⟨Player.playerLock, fun n p => { p with playerLock := n }, fun _ _ => rfl, fun _ _ _ => rfl,
    fun _ => rfl⟩

def gameLock : Lock Game :=
  ⟨Game.gameLock, fun n g => { g with gameLock := n }, fun _ _ => rfl, fun _ _ _ => rfl,
    fun _ => rfl⟩

def invLock : Lock Invitation :=
  ⟨Invitation.invLock, fun n i => { i with invLock := n }, fun _ _ => rfl, fun _ _ _ => rfl,
    fun _ => rfl⟩

def pregLock : Lock PlayerRegistry :=
  ⟨PlayerRegistry.registryLock, fun n r => { r with registryLock := n }, fun _ _ => rfl,
    fun _ _ _ => rfl, fun _ => rfl⟩

def registryLock : Lock ClientRegistry :=
  ⟨ClientRegistry.registryLock, fun n r => { r with registryLock := n }, fun _ _ => rfl,
    fun _ _ _ => rfl, fun _ => rfl⟩

def notEmpty : Lock ClientRegistry :=
  ⟨ClientRegistry.notEmpty, fun n r => { r with notEmpty := n }, fun _ _ => rfl,
    fun _ _ _ => rfl, fun _ => rfl⟩

/-! ## Their reference counts -/

def playerRefs : Counted Player :=
  ⟨playerLock, Player.refCount, fun n p => { p with refCount := n }, fun _ _ => rfl,
    fun _ _ => rfl, fun _ _ _ => rfl, fun _ _ => rfl⟩

def gameRefs : Counted Game :=
  ⟨gameLock, Game.refCount, fun n g => { g with refCount := n }, fun _ _ => rfl,
    fun _ _ => rfl, fun _ _ _ => rfl, fun _ _ => rfl⟩

def invRefs : Counted Invitation :=
  ⟨invLock, Invitation.refCount, fun n i => { i with refCount := n }, fun _ _ => rfl,
    fun _ _ => rfl, fun _ _ _ => rfl, fun _ _ => rfl⟩

/-- The registries as `preg_init` and `creg_init` leave them, and no object yet. -/
def World.initial (clientFd : ClientPtr → Int) : World where
  playerHeap := Heap.empty
  gameHeap := Heap.empty
  invitationHeap := Heap.empty
  pregState := { nodes := [], playerCount := 0, registryLock := 1 }
  cregState :=
    { nodes := [], clientCount := 0, registryLock := 1, notEmpty := 1,
      registered := [], released := [] }
  clientFd := clientFd
  clientPlayer := fun _ => none

end StarterProjects.Jeux
