import Mathlib.Data.Set.Insert
import StarterProjects.Jeux.Invitation
import StarterProjects.Jeux.PlayerRegistry
import StarterProjects.Jeux.Returning
import StarterProjects.Lib.Keeps
import StarterProjects.Lib.Reach

/-!
# The locks of the server

The objects of the server have their locks in fields, so a lock is there as long as its
object is. `Locks L f w` says which values the locks in `L` have. A function keeps the locks
it asks for: from a state in which they are free it does not block, and where it returns
they are free again. There is one rule for each way a program meets a lock, and one lemma
`keeps_*` for each function.
-/

namespace StarterProjects.Jeux

open Lib Lib.Exec

/-! ## The locks of the world -/

inductive LockId where
  | player (p : PlayerPtr)
  | game (g : GamePtr)
  | invitation (i : InvitationPtr)
  | preg
  | creg
deriving DecidableEq

/-- The value of a lock, if its object is there. -/
def lockValue (w : World) : LockId → Option Nat
  | .player p => ((player p).get w).map Player.playerLock
  | .game g => ((game g).get w).map Game.gameLock
  | .invitation i => ((invitation i).get w).map Invitation.invLock
  | .preg => some w.pregState.registryLock
  | .creg => some w.cregState.registryLock

/-- The locks `L` have the values `f`, as far as their objects are there. -/
def Locks (L : Set LockId) (f : LockId → Nat) (w : World) : Prop :=
  ∀ id ∈ L, ∀ v, lockValue w id = some v → v = f id

/-- The locks are free. -/
def Free (L : Set LockId) (w : World) : Prop := Locks L (fun _ => 1) w

/-- `f` with the lock `id` taken. -/
def held (id : LockId) (f : LockId → Nat) : LockId → Nat := Function.update f id 0

theorem held_same (id : LockId) (f : LockId → Nat) : held id f id = 0 := Function.update_self ..

theorem held_other {id id' : LockId} (h : id' ≠ id) (f : LockId → Nat) : held id f id' = f id' :=
  Function.update_of_ne h ..

theorem held_game (i : InvitationPtr) (g : GamePtr) (f : LockId → Nat) :
    held (.invitation i) f (.game g) = f (.game g) :=
  held_other (show LockId.game g ≠ .invitation i from nofun) f

/-- `id` is the lock `l` of the object `o`. -/
structure IsLock {α : Type} (o : Obj World α) (l : Lock α) (id : LockId) : Prop where
  value : ∀ w, lockValue w id = (o.get w).map l.value
  apart : ∀ f w id', id' ≠ id → lockValue (o.modify f w) id' = lockValue w id'

/-- The objects of an arena have the locks `mk`. -/
structure IsArena {α : Type} (ar : Arena World α) (l : Lock α) (mk : Nat → LockId) : Prop where
  inj : Function.Injective mk
  value : ∀ w p, lockValue w (mk p) = ((ar.heap w).cell p).map l.value
  apart : ∀ f w id, (∀ p, id ≠ mk p) → lockValue (ar.modify f w) id = lockValue w id

theorem players_isArena : IsArena players playerLock .player where
  inj := fun _ _ h => LockId.player.inj h
  value := fun _ _ => rfl
  apart := fun f w id h => by
    cases id with
    | player p => exact absurd rfl (h p)
    | _ => rfl

theorem games_isArena : IsArena games gameLock .game where
  inj := fun _ _ h => LockId.game.inj h
  value := fun _ _ => rfl
  apart := fun f w id h => by
    cases id with
    | game g => exact absurd rfl (h g)
    | _ => rfl

theorem invitations_isArena : IsArena invitations invLock .invitation where
  inj := fun _ _ h => LockId.invitation.inj h
  value := fun _ _ => rfl
  apart := fun f w id h => by
    cases id with
    | invitation i => exact absurd rfl (h i)
    | _ => rfl

/-- What happens at one pointer does not show at the locks of other objects. -/
theorem IsArena.other {α : Type} {ar : Arena World α} {l : Lock α} {mk : Nat → LockId}
    (h : IsArena ar l mk) {w : World} {g : Heap α → Heap α} {p : Nat}
    (hg : ∀ q, q ≠ p → (g (ar.heap w)).cell q = (ar.heap w).cell q) {id : LockId}
    (hid : id ≠ mk p) : lockValue (ar.modify g w) id = lockValue w id := by
  by_cases hq : ∃ q, id = mk q
  · obtain ⟨q, rfl⟩ := hq
    have hne : q ≠ p := fun he => hid (congrArg mk he)
    rw [h.value, h.value, ar.heap_modify, hg q hne]
  · exact h.apart g w id fun q he => hq ⟨q, he⟩

theorem IsArena.isLock {α : Type} {ar : Arena World α} {l : Lock α} {mk : Nat → LockId}
    (h : IsArena ar l mk) (p : Nat) : IsLock (ar.obj p) l (mk p) where
  value := fun w => h.value w p
  apart := fun f _ _ hid => h.other (fun _ hq => Heap.update_other _ f hq) hid

theorem player_isLock (p : PlayerPtr) : IsLock (player p) playerLock (.player p) :=
  players_isArena.isLock p

theorem game_isLock (g : GamePtr) : IsLock (game g) gameLock (.game g) := games_isArena.isLock g

theorem invitation_isLock (i : InvitationPtr) :
    IsLock (invitation i) invLock (.invitation i) := invitations_isArena.isLock i

theorem preg_isLock : IsLock preg pregLock .preg where
  value := fun _ => rfl
  apart := fun f w id' h => by
    cases id' with
    | preg => exact absurd rfl h
    | _ => rfl

theorem creg_isLock : IsLock creg registryLock .creg where
  value := fun _ => rfl
  apart := fun f w id' h => by
    cases id' with
    | creg => exact absurd rfl h
    | _ => rfl

/-! ## Critical sections -/

section Rules

variable {α β γ : Type} {o : Obj World α} {l : Lock α} {id : LockId} {L : Set LockId}
  {f : LockId → Nat} {w : World} {a : α} {m : Prog World β} {B : World → Prop}

/-- Writing the object of a lock. -/
theorem IsLock.locks_set (h : IsLock o l id) (ha : o.get w = some a) {b : α} {n : Nat}
    (hn : l.value b = n) (hw : Locks L f w) :
    Locks L (Function.update f id n) (o.set b w) := fun id' hid v hv => by
  rcases eq_or_ne id' id with rfl | hne
  · rw [h.value, Obj.get_set _ ha] at hv
    rw [Function.update_self]
    exact (Option.some.inj hv).symm.trans hn
  · rw [Obj.set, h.apart _ _ _ hne] at hv
    rw [Function.update_of_ne hne]
    exact hw id' hid v hv

theorem IsLock.locks_same (h : IsLock o l id) (ha : o.get w = some a) {b : α}
    (hb : l.value b = l.value a) (hw : Locks L f w) : Locks L f (o.set b w) :=
  fun id' hid v hv => by
    rcases eq_or_ne id' id with rfl | hne
    · rw [h.value, Obj.get_set _ ha] at hv
      refine hw id' hid v ?_
      rw [h.value, ha, ← hv]
      exact congrArg some hb.symm
    · rw [Obj.set, h.apart _ _ _ hne] at hv
      exact hw id' hid v hv

/-- The value of the lock, where its object is there. -/
theorem IsLock.value_at (h : IsLock o l id) (hid : id ∈ L) (hw : Locks L f w)
    (ha : o.get w = some a) : l.value a = f id := hw id hid _ (by rw [h.value, ha]; rfl)

/-- Taking the lock. -/
theorem IsLock.take (h : IsLock o l id) (hid : id ∈ L) (hf : f id = 1) :
    Keeps (Locks L f) (P o l) (Locks L (held id f)) := Keeps.take fun w a hw ha => by
  have hv : l.value a = f id := h.value_at hid hw ha
  refine ⟨by omega, h.locks_set ha ?_ hw⟩
  rw [l.value_put]
  omega

/-- Giving it back. -/
theorem IsLock.give (h : IsLock o l id) (hid : id ∈ L) (hf : f id = 1) :
    Keeps (Locks L (held id f)) (V o l) (Locks L f) := Keeps.update fun w a hw ha => by
  have hv : l.value a = 0 := (h.value_at hid hw ha).trans (held_same id f)
  have hset := h.locks_set (b := l.put (l.value a + 1) a) ha
    (show l.value (l.put (l.value a + 1) a) = f id by rw [l.value_put]; omega) hw
  rwa [held, Function.update_idem, Function.update_eq_self] at hset

/-- Writing fields that are not the lock. -/
theorem IsLock.write (h : IsLock o l id) {g : α → α} (hg : ∀ a, l.value (g a) = l.value a) :
    Keeps (Locks L f) (o.update g) (Locks L f) :=
  Keeps.update fun _ a hw ha => h.locks_same ha (hg a) hw

/-- A critical section: what is inside gives the lock back. -/
theorem IsLock.enter (h : IsLock o l id) (hid : id ∈ L) (hf : f id = 1) {k : Unit → Prog World β}
    (hk : Keeps (Locks L (held id f)) (k ()) B) : Keeps (Locks L f) (P o l >>= k) B :=
  (h.take hid hf).bind fun _ => hk

theorem IsLock.leave (h : IsLock o l id) (hid : id ∈ L) (hf : f id = 1) {k : Unit → Prog World β}
    (hk : Keeps (Locks L f) (k ()) B) : Keeps (Locks L (held id f)) (V o l >>= k) B :=
  (h.give hid hf).bind fun _ => hk

theorem IsLock.written (h : IsLock o l id) {g : α → α} (hg : ∀ a, l.value (g a) = l.value a)
    {k : Unit → Prog World β} (hk : Keeps (Locks L f) (k ()) B) :
    Keeps (Locks L f) (o.update g >>= k) B :=
  (h.write hg).bind fun _ => hk

/-- Entering from a state of which more is known. -/
theorem IsLock.enter_at (h : IsLock o l id) (hid : id ∈ L) (hf : f id = 1) {A : World → Prop}
    {k : α → Prog World β} (hA : ∀ w, A w → Locks L f w)
    (hk : ∀ w a, A w → o.get w = some a → Keeps (fun w' => Locks L (held id f) w' ∧
      w' = o.set (l.put 0 a) w) (k (l.put 0 a)) B) :
    Keeps A (P o l >>= fun _ => o.read >>= k) B := fun w hw => by
  cases ha : o.get w with
  | none => exact Keeps.of_undefined (Prog.run_bind_error (P_dead ha))
  | some a =>
    have hv : l.value a = f id := h.value_at hid (hA w hw) ha
    rw [critical ha (hv.trans hf)]
    exact hk w a hw ha _ ⟨h.locks_set ha (l.value_put 0 a) (hA w hw), rfl⟩

theorem IsLock.enter_read (h : IsLock o l id) (hid : id ∈ L) (hf : f id = 1) {A : World → Prop}
    {k : α → Prog World β} (hA : ∀ w, A w → Locks L f w)
    (hk : ∀ w a, A w → o.get w = some a → Keeps (Locks L (held id f)) (k (l.put 0 a)) B) :
    Keeps A (P o l >>= fun _ => o.read >>= k) B :=
  h.enter_at hid hf hA fun w a hw ha => (hk w a hw ha).weaken fun _ h => h.1

/-- Reading under the lock, when what is read does not matter. -/
theorem keeps_read {A : World → Prop} {k : α → Prog World β} (hk : ∀ a, Keeps A (k a) B) :
    Keeps A (o.read >>= k) B := Keeps.read fun a => (hk a).weaken fun _ h => h.1

theorem keeps_ret {A : World → Prop} {b : β} : Keeps A (Prog.ret b) A := Keeps.ret fun _ h => h

variable {ar : Arena World α} {mk : Nat → LockId}

/-- A new object comes with its lock free. -/
theorem IsArena.locks_alloc (h : IsArena ar l mk) (ha : l.value a = 1) (hf : ∀ p, f (mk p) = 1)
    (hw : Locks L f w) : Locks L f (ar.modify (Heap.alloc a) w) := fun id hid v hv => by
  rcases eq_or_ne id (mk (ar.heap w).next) with rfl | hne
  · rw [h.value, ar.heap_modify, Heap.alloc_same] at hv
    rw [hf]
    exact (Option.some.inj hv).symm.trans ha
  · rw [h.other (fun q hq => Heap.alloc_other _ a hq) hne] at hv
    exact hw id hid v hv

theorem IsArena.locks_free (h : IsArena ar l mk) {p : Nat} (hw : Locks L f w) :
    Locks L f (ar.modify (Heap.free p) w) := fun id hid v hv => by
  rcases eq_or_ne id (mk p) with rfl | hne
  · rw [h.value, ar.heap_modify, Heap.free_same] at hv
    cases hv
  · rw [h.other (fun q hq => Heap.free_other _ hq) hne] at hv
    exact hw id hid v hv

theorem IsArena.keeps_malloc (h : IsArena ar l mk) (ha : l.value a = 1)
    (hf : ∀ p, f (mk p) = 1) : Keeps (Locks L f) (ar.malloc a) (Locks L f) :=
  Keeps.malloc fun _ => h.locks_alloc ha hf

theorem IsArena.keeps_free (h : IsArena ar l mk) {p : Nat} :
    Keeps (Locks L f) (ar.free p) (Locks L f) := Keeps.free fun _ => h.locks_free

theorem keeps_addRef {C : Counted α} (h : IsLock o C.lock id) (hid : id ∈ L) (hf : f id = 1) :
    Keeps (Locks L f) (addRef o C) (Locks L f) :=
  h.enter hid hf <| h.written (fun a => C.lock_put _ a) <| h.give hid hf

theorem keeps_dropRef {C : Counted α} {p : Nat} (h : IsArena ar C.lock mk) (hid : mk p ∈ L)
    (hf : f (mk p) = 1) : Keeps (Locks L f) (dropRef ar p C) (Locks L f) := by
  refine (h.isLock p).enter hid hf <| (h.isLock p).written (fun a => C.lock_put _ a) <|
    keeps_read fun a => (h.isLock p).leave hid hf ?_
  show Keeps _ (if C.count a = 0 then _ else _ : Prog World Unit) _
  split
  · exact h.keeps_free
  · exact keeps_ret

end Rules

/-! ## The functions -/

section Functions

variable {L : Set LockId} {f : LockId → Nat}

section Games

variable {g : GamePtr} (hid : .game g ∈ L) (hf : f (.game g) = 1)

include hid hf

theorem keeps_game_ref : Keeps (Locks L f) (game_ref g) (Locks L f) :=
  (keeps_addRef (C := gameRefs) (game_isLock g) hid hf).bind fun _ => keeps_ret

theorem keeps_game_unref : Keeps (Locks L f) (game_unref g) (Locks L f) :=
  keeps_dropRef (C := gameRefs) games_isArena hid hf

theorem keeps_game_apply_move (move : GameMove) :
    Keeps (Locks L f) (game_apply_move g move) (Locks L f) := by
  refine (game_isLock g).enter hid hf <| keeps_read fun G => ?_
  split
  · exact (game_isLock g).leave hid hf keeps_ret
  · exact (game_isLock g).written (fun _ => by rfl) <| (game_isLock g).leave hid hf keeps_ret

theorem keeps_game_resign (role : GameRole) :
    Keeps (Locks L f) (game_resign g role) (Locks L f) := by
  refine (game_isLock g).enter hid hf <| keeps_read fun G => ?_
  show Keeps _ (if G.terminated then _ else _ : Prog World Int) _
  split
  · exact (game_isLock g).leave hid hf keeps_ret
  · exact (game_isLock g).written (fun _ => by rfl) <| (game_isLock g).leave hid hf <|
      (keeps_game_unref hid hf).bind fun _ => keeps_ret

theorem keeps_game_is_over : Keeps (Locks L f) (game_is_over g) (Locks L f) := by
  have close : ∀ r, Keeps (Locks L (held (.game g) f))
      ((game g).update (fun G => { G with gameWinner := r, terminated := true }) >>= fun _ =>
        V (game g) gameLock >>= fun _ => Prog.ret (1 : Int)) (Locks L f) := fun r =>
    (game_isLock g).written (fun _ => by rfl) <| (game_isLock g).leave hid hf keeps_ret
  refine (game_isLock g).enter hid hf <| keeps_read fun G => ?_
  show Keeps _ (if G.movesMade = 9 then _ else if winningLetter G.gameBoard = 'X' then _
    else if winningLetter G.gameBoard = 'O' then _ else _ : Prog World Int) _
  split
  · exact close _
  split
  · exact close _
  split
  · exact close _
  · exact (game_isLock g).leave hid hf keeps_ret

theorem keeps_game_get_winner : Keeps (Locks L f) (game_get_winner g) (Locks L f) :=
  (game_isLock g).enter hid hf <| keeps_read fun _ => (game_isLock g).leave hid hf keeps_ret

theorem keeps_game_unparse_state (storage : CString) :
    Keeps (Locks L f) (game_unparse_state storage g) (Locks L f) :=
  (game_isLock g).enter hid hf <| keeps_read fun _ => (game_isLock g).leave hid hf keeps_ret

theorem keeps_game_parse_move (role : GameRole) (str : CString) :
    Keeps (Locks L f) (game_parse_move g role str) (Locks L f) := by
  refine (game_isLock g).enter hid hf <| keeps_read fun G => ?_
  show Keeps _ (if role ≠ .nullRole ∧ G.curRole ≠ role then _
    else if leadingDigit str > 9 ∨ leadingDigit str < 1 then _ else _ :
      Prog World (Option GameMove)) _
  split
  · exact (game_isLock g).leave hid hf keeps_ret
  split
  · exact (game_isLock g).leave hid hf keeps_ret
  · exact (game_isLock g).leave hid hf keeps_ret

end Games

section Players

variable {p : PlayerPtr} (hid : .player p ∈ L) (hf : f (.player p) = 1)

include hid hf

theorem keeps_player_ref : Keeps (Locks L f) (player_ref (some p)) (Locks L f) :=
  (player_isLock p).enter hid hf <| (player_isLock p).written (fun _ => by rfl) <|
    (player_isLock p).written (fun _ => by rfl) <| (player_isLock p).leave hid hf keeps_ret

theorem keeps_player_unref : Keeps (Locks L f) (player_unref (some p)) (Locks L f) :=
  keeps_dropRef (C := playerRefs) players_isArena hid hf

theorem keeps_lockedRead : Keeps (Locks L f) (lockedRead p) (Locks L f) :=
  (player_isLock p).enter hid hf <| keeps_read fun _ => (player_isLock p).leave hid hf keeps_ret

theorem keeps_lockedWrite (R : Int) : Keeps (Locks L f) (lockedWrite p R) (Locks L f) :=
  (player_isLock p).enter hid hf <| (player_isLock p).written (fun _ => by rfl) <|
    (player_isLock p).give hid hf

end Players

theorem keeps_player_post_result (rated : Int → Int → Score → Int) {p q : PlayerPtr}
    (hp : .player p ∈ L) (hq : .player q ∈ L) (result : Int) :
    Keeps (Free L) (player_post_result rated id p q result) (Free L) :=
  (keeps_lockedRead hp rfl).bind fun _ => (keeps_lockedRead hq rfl).bind fun _ =>
    (keeps_lockedWrite hp rfl _).bind fun _ => keeps_lockedWrite hq rfl _

section Names

variable {A : World → Prop}

/-- Reading a name and comparing it. -/
theorem keeps_compare {p : Option PlayerPtr} {name : CString} {β : Type} {B : World → Prop}
    {k : Bool → Prog World β} (hk : ∀ b, Keeps A (k b) B) :
    Keeps A (player_get_name p >>= fun s => strcmp_eq s name >>= k) B := by
  have hcmp : ∀ s, Keeps A (strcmp_eq s name >>= k) B := fun s => by
    cases s with
    | none => exact Keeps.stop nofun
    | some s => exact hk _
  cases p with
  | none => exact hcmp none
  | some p =>
    rw [player_get_name, Prog.bind_assoc]
    exact keeps_read fun X => hcmp (some X.playerName)

theorem keeps_preg_walk {name : CString} :
    ∀ nodes : List PlayerPtr, Keeps A (preg_walk name nodes) A
  | [] => keeps_ret
  | [_] => keeps_ret
  | _ :: _ :: _ => keeps_compare fun b => by
    cases b with
    | true => exact keeps_ret
    | false => exact keeps_preg_walk _

theorem keeps_preg_player_exists {name : CString} : Keeps A (preg_player_exists name) A :=
  keeps_read fun r => by
    split
    · exact keeps_ret
    · refine keeps_compare fun b => ?_
      cases b with
      | true => exact keeps_ret
      | false => exact keeps_preg_walk _

theorem keeps_preg_register {name : CString} (hid : .preg ∈ L) :
    Keeps (Free L) (preg_register name) (Free L) := by
  have hcreate : Keeps (Free L) (player_create name) (Free L) := by
    unfold player_create
    split
    · exact players_isArena.keeps_malloc rfl fun _ => rfl
    · exact Keeps.stop nofun
  refine hcreate.bind fun newPlayer => preg_isLock.enter hid rfl <|
    keeps_preg_player_exists.bind fun found => ?_
  split
  · exact players_isArena.keeps_free.bind fun _ =>
      preg_isLock.leave hid rfl keeps_preg_player_exists
  · refine keeps_read fun r => ?_
    show Keeps _ (if r.nodes = [] then _ else _ : Prog World (Option PlayerPtr)) _
    split
    · exact preg_isLock.written (fun _ => by rfl) <| preg_isLock.leave hid rfl keeps_ret
    · exact preg_isLock.written (fun _ => by rfl) <| preg_isLock.leave hid rfl keeps_ret

end Names

section Invitations

variable {i : InvitationPtr} (hid : .invitation i ∈ L)

include hid

theorem keeps_inv_ref : Keeps (Free L) (inv_ref i) (Free L) :=
  (keeps_addRef (C := invRefs) (invitation_isLock i) hid rfl).bind fun _ => keeps_ret

theorem keeps_inv_unref : Keeps (Free L) (inv_unref i) (Free L) :=
  keeps_dropRef (C := invRefs) invitations_isArena hid rfl

theorem keeps_inv_get {α : Type} (field : Invitation → α) :
    Keeps (Free L) (inv_get field i) (Free L) :=
  (invitation_isLock i).enter hid rfl <| keeps_read fun _ =>
    (invitation_isLock i).leave hid rfl keeps_ret

theorem keeps_inv_accept : Keeps (Free L) (inv_accept i) (Free L) := by
  refine (invitation_isLock i).enter hid rfl <| keeps_read fun I => ?_
  show Keeps _ (if I.invState = .openState then _ else _ : Prog World Int) _
  split
  · exact (invitation_isLock i).written (fun _ => by rfl) <|
      (games_isArena.keeps_malloc rfl fun g => held_game i g _).bind fun _ =>
        (invitation_isLock i).written (fun _ => by rfl) <|
          (invitation_isLock i).leave hid rfl keeps_ret
  · exact (invitation_isLock i).leave hid rfl keeps_ret

/-- The invitation is not closed, and the lock of its game is asked for too. -/
theorem keeps_inv_close (role : GameRole) :
    Keeps (fun w => Free L w ∧ ∀ I, (invitation i).get w = some I →
      I.invState ≠ .closedState ∧ ∀ g, I.invGame = some g → .game g ∈ L)
      (inv_close i role) (Free L) := by
  refine (invitation_isLock i).enter_read hid rfl (fun _ h => h.1) fun w I hw hI => ?_
  obtain ⟨hopen, hgame⟩ := hw.2 I hI
  show Keeps _ (if I.invState = .openState ∨ I.invState = .acceptedState then _ else _ :
    Prog World Int) _
  rw [if_pos (open_or_accepted hopen)]
  refine (invitation_isLock i).written (fun _ => by rfl) ?_
  have leave : Keeps (Locks L (held (.invitation i) fun _ => 1))
      (V (invitation i) invLock >>= fun _ => Prog.ret (0 : Int)) (Free L) :=
    (invitation_isLock i).leave hid rfl keeps_ret
  split
  · dsimp only
    split
    · exact Keeps.stop nofun
    · next g hg =>
      have hone : held (.invitation i) (fun _ => 1) (.game g) = 1 := held_game i g _
      refine (keeps_game_is_over (hgame g hg) hone).bind fun ended => ?_
      split
      · exact (keeps_game_resign (hgame g hg) hone role).bind fun _ => leave
      · exact leave
  · exact leave

end Invitations

section ClientRegistries

variable {w : World} {c : ClientPtr} (hid : .creg ∈ L)

include hid

theorem creg_free (hw : Free L w) : w.cregState.registryLock = 1 := hw _ hid _ rfl

omit hid in
theorem free_creg_set {r : ClientRegistry} (hw : Free L w) (hr : r.registryLock = 1) :
    Free L (creg.set r w) := by
  have hset := creg_isLock.locks_set (creg_get w) hr hw
  rwa [show Function.update (fun _ => 1) LockId.creg 1 = fun _ => 1 from
    Function.update_eq_self _ _] at hset

theorem keeps_creg_register : Keeps (fun w => Free L w ∧
      (w.cregState.nodes = [] → w.cregState.notEmpty ≠ 0)) (creg_register c) (Free L) := by
  rintro w ⟨hw, hne⟩
  have hl := creg_free hid hw
  by_cases hfull : w.cregState.clientCount ≥ MAX_CLIENTS
  · exact Keeps.of_ok (creg_register_full hl hfull) hw
  · exact Keeps.of_ok (creg_register_run hl hfull hne) (free_creg_set hw hl)

/-- `creg_unregister` returns, with its lock free and the nodes as they were. -/
theorem creg_unregister_ends (hw : Free L w) : ∃ res r, (creg_unregister c).run w =
    .ok (res, creg.set r w) ∧ r.registryLock = 1 ∧ r.nodes = w.cregState.nodes := by
  have hl := creg_free hid hw
  have hrun := creg_unregister_run (c := c) hl
  split at hrun
  · exact ⟨_, _, hrun, hl, rfl⟩
  · exact ⟨_, _, hrun, hl, rfl⟩

theorem keeps_creg_unregister : Keeps (Free L) (creg_unregister c) (Free L) := fun w hw => by
  obtain ⟨res, r, hrun, hr, _⟩ := creg_unregister_ends (c := c) hid hw
  exact Keeps.of_ok hrun (free_creg_set hw hr)

/-- The nodes do not change while the loop runs, so it comes to their end. -/
theorem creg_shutdown_loop_ends {fuel i : Nat} (hw : Free L w)
    (hle : i ≤ w.cregState.nodes.length) (hlt : w.cregState.nodes.length < i + fuel) :
    Ends (creg_shutdown_loop fuel i).run w fun _ w' => Free L w' := by
  induction fuel generalizing i w with
  | zero => omega
  | succ fuel ih =>
    have hnode : (creg_shutdown_node i).run w = .ok (w.cregState.nodes[i]?, w) :=
      read_then (creg_get w)
    rw [creg_shutdown_loop]
    refine .congr (Prog.run_bind_ok hnode) ?_
    cases hc : w.cregState.nodes[i]? with
    | none => exact .of_eq rfl hw
    | some c =>
      obtain ⟨res, r, hrun, hr, hn⟩ := creg_unregister_ends (c := c) hid hw
      have hi : i < w.cregState.nodes.length := (List.getElem?_eq_some_iff.mp hc).1
      refine .congr (Prog.run_bind_ok hrun) (ih (free_creg_set hw hr) ?_ ?_)
      · show i + 1 ≤ r.nodes.length
        rw [hn]
        omega
      · show r.nodes.length < i + 1 + fuel
        rw [hn]
        omega

theorem creg_shutdown_all_ends (hw : Free L w) :
    Ends (Prog.ask (fun w : World => w.cregState.nodes.length + 1) >>= creg_shutdown_all).run w
      fun _ w' => Free L w' := by
  have hl := creg_free hid hw
  have hsockets : creg_shutdown_sockets.run w = .ok (registryLock.put 0 w.cregState, w) := by
    rw [creg_shutdown_sockets, critical (creg_get w) hl, set_V (creg_get w),
      registryLock.reopen hl, Obj.set_get _ (creg_get w)]
    rfl
  refine .congr (Prog.run_bind_ok (Prog.ask_run _ _)) ?_
  rw [creg_shutdown_all]
  exact .congr (Prog.run_bind_ok hsockets)
    (creg_shutdown_loop_ends hid hw (Nat.zero_le _) (by omega))

theorem keeps_creg_search {user : CString} : ∀ nodes : List ClientPtr,
    Keeps (Locks L (held .creg fun _ => 1)) (creg_search user nodes) (Free L)
  | [] => creg_isLock.leave hid rfl keeps_ret
  | c :: rest => Keeps.ask fun player? => keeps_compare fun b => by
    cases b with
    | true => exact Keeps.weaken (creg_isLock.leave hid rfl keeps_ret) fun _ h => h.1
    | false => exact Keeps.weaken (keeps_creg_search rest) fun _ h => h.1

/-- Somebody has registered. -/
theorem keeps_creg_lookup {user : CString} :
    Keeps (fun w => Free L w ∧ w.cregState.nodes ≠ []) (creg_lookup user) (Free L) := by
  refine creg_isLock.enter_read hid rfl (fun _ h => h.1) fun w r hw hr => ?_
  have hn : r.nodes ≠ [] := by
    cases hr
    exact hw.2
  split
  · next he => exact absurd he hn
  · next c rest he =>
    exact Keeps.ask fun player? => keeps_compare fun b => by
      cases b with
      | true => exact Keeps.weaken (creg_isLock.leave hid rfl keeps_ret) fun _ h => h.1
      | false => exact Keeps.weaken (keeps_creg_search hid (c :: rest)) fun _ h => h.1

omit hid in
/-- Dropping a reference changes no client. -/
theorem keeps_unref_client {player? : Option PlayerPtr} {cp : ClientPtr → Option PlayerPtr}
    (hp : ∀ p, player? = some p → .player p ∈ L ∧ f (.player p) = 1) :
    Keeps (fun w => Locks L f w ∧ w.clientPlayer = cp) (player_unref player?)
      fun w => Locks L f w ∧ w.clientPlayer = cp := by
  cases player? with
  | none => exact keeps_ret
  | some p =>
    obtain ⟨hin, hf⟩ := hp p rfl
    rintro w ⟨hw, hcp⟩
    obtain ⟨hlive, hok⟩ := keeps_player_unref hin hf w hw
    refine ⟨hlive, fun a w' hrun => ⟨hok a w' hrun, ?_⟩⟩
    cases hX : (player p).get w with
    | none =>
      rw [player_unref_dead hX] at hrun
      cases hrun
    | some X =>
      have hl : X.playerLock = f (.player p) :=
        hw _ hin _ (congrArg (Option.map Player.playerLock) hX)
      rw [player_unref_run hX (hl.trans hf)] at hrun
      split at hrun
      · cases hrun
        exact hcp
      · cases hrun
        exact hcp

omit hid in
theorem keeps_creg_fill {cp : ClientPtr → Option PlayerPtr} {clients : List ClientPtr} {n : Nat}
    {arr : List (Option PlayerPtr)}
    (hp : ∀ c ∈ clients, ∀ p, cp c = some p → .player p ∈ L ∧ f (.player p) = 1) :
    Keeps (fun w => Locks L f w ∧ w.clientPlayer = cp) (creg_fill n clients arr) (Locks L f) := by
  induction clients generalizing n arr with
  | nil => exact Keeps.ret fun _ h => h.1
  | cons c clients ih =>
    rw [creg_fill]
    split
    · refine Keeps.ask fun player? => ?_
      rintro w ⟨⟨hw, hcp⟩, hc⟩
      have hunref : Keeps (fun w => Locks L f w ∧ w.clientPlayer = cp) (player_unref player?)
          fun w => Locks L f w ∧ w.clientPlayer = cp := keeps_unref_client fun p he =>
        hp c List.mem_cons_self p (by rw [← hcp, hc, he])
      exact hunref.bind (fun _ => ih fun d hd => hp d (List.mem_cons_of_mem _ hd))
        w ⟨hw, hcp⟩
    · exact Keeps.stop fun h => by cases h

theorem keeps_creg_all_players (storage : Nat → Option PlayerPtr) :
    Keeps (fun w => Free L w ∧ ∀ c ∈ w.cregState.nodes, ∀ p, w.clientPlayer c = some p →
      .player p ∈ L) (creg_all_players storage) (Free L) := by
  refine creg_isLock.enter_at hid rfl (fun _ h => h.1) fun w r hw hr => ?_
  cases hr
  have leave : ∀ arr : List (Option PlayerPtr), Keeps (Locks L (held .creg fun _ => 1))
      (V creg registryLock >>= fun _ => Prog.ret arr) (Free L) := fun _ =>
    creg_isLock.leave hid rfl keeps_ret
  show Keeps _ (if w.cregState.clientCount + 1 < 0 then _
    else if w.cregState.nodes = [] then _ else _ : Prog World (List (Option PlayerPtr))) _
  split
  · exact Keeps.stop nofun
  split
  · exact (leave _).weaken fun _ h => h.1
  · have hfill : Keeps
        (fun w' => Locks L (held .creg fun _ => 1) w' ∧ w'.clientPlayer = w.clientPlayer)
        (creg_fill 0 w.cregState.nodes
          ((List.range (w.cregState.clientCount + 1).toNat).map storage))
        (Locks L (held .creg fun _ => 1)) := keeps_creg_fill fun c hc p hp =>
      ⟨hw.2 c hc p hp, held_other (show LockId.player p ≠ .creg from nofun) _⟩
    refine (hfill.weaken fun w' h => ⟨h.1, by rw [h.2]; rfl⟩).bind fun arr => ?_
    split
    · exact leave _
    · exact Keeps.stop nofun

end ClientRegistries

end Functions

end StarterProjects.Jeux
