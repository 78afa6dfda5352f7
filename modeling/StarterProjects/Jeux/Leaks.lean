import StarterProjects.Jeux.Locks

/-!
# Locks are given back

Every function of the server that takes a lock gives it back on each of its ways out, but
for two: `inv_close` on a closed invitation and `creg_lookup` in an empty registry return
with the lock taken. A third one, `creg_register`, waits for `notEmpty` under the lock when
the list is empty. And a function that reads what is not there (the game of an invitation
that nobody accepted, the player of a client that is not logged in) stops under its lock and
never gives it back.

`returned_of_init`: an operation that finds its locks free returns and leaves them free
exactly when what it reads is there and it does none of that; and in a run where no
operation does, all locks are free in every state.
-/

namespace StarterProjects.Jeux

open Lib Lib.Exec

/-! ## Operations -/

/-- The operations of the modules that take locks, and those that make objects. -/
inductive ServerOp where
  | playerRef (p : Option PlayerPtr)
  | playerUnref (p : Option PlayerPtr)
  | postResult (player1 player2 : PlayerPtr) (result : Int)
  | pregRegister (name : CString)
  | gameCreate
  | gameRef (g : GamePtr)
  | gameUnref (g : GamePtr)
  | applyMove (g : GamePtr) (move : GameMove)
  | resign (g : GamePtr) (role : GameRole)
  | unparseState (storage : CString) (g : GamePtr)
  | isOver (g : GamePtr)
  | getWinner (g : GamePtr)
  | parseMove (g : GamePtr) (role : GameRole) (str : CString)
  | invCreate (source target : Option ClientPtr) (sourceRole targetRole : GameRole)
  | invRef (i : InvitationPtr)
  | invUnref (i : InvitationPtr)
  | getSource (i : InvitationPtr)
  | getTarget (i : InvitationPtr)
  | getSourceRole (i : InvitationPtr)
  | getTargetRole (i : InvitationPtr)
  | getGame (i : InvitationPtr)
  | invAccept (i : InvitationPtr)
  | invClose (i : InvitationPtr) (role : GameRole)
  | cregRegister (newClient : ClientPtr)
  | cregUnregister (client : ClientPtr)
  | cregLookup (user : CString)
  | allPlayers (storage : Nat → Option PlayerPtr)
  | waitForEmpty
  | shutdownAll
  | setPlayer (c : ClientPtr) (player? : Option PlayerPtr)

/-- The program without its result. -/
def noResult {α : Type} (m : Prog World α) : Prog World Unit := m >>= fun _ => .ret ()

def ServerOp.prog (rated : Int → Int → Score → Int) : ServerOp → Prog World Unit
  | .playerRef p => noResult (player_ref p)
  | .playerUnref p => player_unref p
  | .postResult player1 player2 result => player_post_result rated id player1 player2 result
  | .pregRegister name => noResult (preg_register name)
  | .gameCreate => noResult game_create
  | .gameRef g => noResult (game_ref g)
  | .gameUnref g => game_unref g
  | .applyMove g move => noResult (game_apply_move g move)
  | .resign g role => noResult (game_resign g role)
  | .unparseState storage g => noResult (game_unparse_state storage g)
  | .isOver g => noResult (game_is_over g)
  | .getWinner g => noResult (game_get_winner g)
  | .parseMove g role str => noResult (game_parse_move g role str)
  | .invCreate source target sourceRole targetRole =>
    noResult (inv_create source target sourceRole targetRole)
  | .invRef i => noResult (inv_ref i)
  | .invUnref i => inv_unref i
  | .getSource i => noResult (inv_get_source i)
  | .getTarget i => noResult (inv_get_target i)
  | .getSourceRole i => noResult (inv_get_source_role i)
  | .getTargetRole i => noResult (inv_get_target_role i)
  | .getGame i => noResult (inv_get_game i)
  | .invAccept i => noResult (inv_accept i)
  | .invClose i role => noResult (inv_close i role)
  | .cregRegister c => noResult (creg_register c)
  | .cregUnregister c => noResult (creg_unregister c)
  | .cregLookup user => noResult (creg_lookup user)
  | .allPlayers storage => noResult (creg_all_players storage)
  | .waitForEmpty => creg_wait_for_empty
  | .shutdownAll => Prog.ask (fun w => w.cregState.nodes.length + 1) >>= creg_shutdown_all
  | .setPlayer c player? => StarterProjects.Jeux.setPlayer c player?

/-- The locks that the operation asks for. -/
def ServerOp.locks (w : World) : ServerOp → Set LockId
  | .playerRef p | .playerUnref p => {id | ∃ q, p = some q ∧ id = .player q}
  | .postResult player1 player2 _ => {.player player1, .player player2}
  | .pregRegister _ => {.preg}
  | .gameRef g | .gameUnref g | .applyMove g _ | .resign g _ | .unparseState _ g | .isOver g
  | .getWinner g | .parseMove g _ _ => {.game g}
  | .invRef i | .invUnref i | .getSource i | .getTarget i | .getSourceRole i | .getTargetRole i
  | .getGame i | .invAccept i => {.invitation i}
  | .invClose i _ => insert (.invitation i)
      {id | ∃ I g, (invitation i).get w = some I ∧ I.invGame = some g ∧ id = .game g}
  | .cregRegister _ | .cregUnregister _ | .cregLookup _ | .shutdownAll => {.creg}
  | .allPlayers _ => insert .creg
      {id | ∃ c ∈ w.cregState.nodes, ∃ p, w.clientPlayer c = some p ∧ id = .player p}
  | .gameCreate | .invCreate .. | .waitForEmpty | .setPlayer .. => ∅

/-- The locks that the operation asks for in `w₀` are free in `w`; for `creg_wait_for_empty`
that is the semaphore `notEmpty`. -/
def ServerOp.Unlocked (op : ServerOp) (w₀ w : World) : Prop :=
  Free (op.locks w₀) w ∧ (op = .waitForEmpty → w.cregState.notEmpty ≠ 0)

/-- The operation returns, and has its locks free again. -/
def ServerOp.Returns (rated : Int → Int → Score → Int) (op : ServerOp) (w : World) : Prop :=
  Ends (op.prog rated).run w fun _ w' => op.Unlocked w w'

/-- What the operation reads is there: the objects it is called with, and behind them the
game that a player leaves, and the players that a lookup compares or a listing drops. -/
def ServerOp.Supplied (w : World) : ServerOp → Prop
  | .playerRef p | .playerUnref p => ∀ q, p = some q → (player q).There w
  | .postResult player1 player2 _ => (player player1).There w ∧ (player player2).There w
  | .pregRegister name =>
    name.length < NAME_MAX_LENGTH ∧ Met w name (compared w.pregState.nodes)
  | .gameRef g | .gameUnref g | .applyMove g _ | .resign g _ | .unparseState _ g | .isOver g
  | .getWinner g | .parseMove g _ _ => (game g).There w
  | .invRef i | .invUnref i | .getSource i | .getTarget i | .getSourceRole i | .getTargetRole i
  | .getGame i | .invAccept i => (invitation i).There w
  | .invClose i role => ∃ I, (invitation i).get w = some I ∧
      (role ≠ .nullRole → ∃ g, I.invGame = some g ∧ (game g).There w)
  | .cregLookup user => Searchable w user w.cregState.nodes
  | .allPlayers _ => (w.cregState.nodes.length : Int) ≤ w.cregState.clientCount + 1 ∧
      Droppable w w.cregState.nodes
  | .gameCreate | .invCreate .. | .cregRegister _ | .cregUnregister _ | .waitForEmpty
  | .shutdownAll | .setPlayer .. => True

/-- Closing a closed invitation; looking for a player in an empty registry; the first client,
while `notEmpty` is down. -/
def ServerOp.Leaks (w : World) : ServerOp → Prop
  | .invClose i _ => ∃ I, (invitation i).get w = some I ∧ I.invState = .closedState
  | .cregLookup _ => w.cregState.nodes = []
  | .cregRegister _ => w.cregState.clientCount < MAX_CLIENTS ∧ w.cregState.nodes = [] ∧
      w.cregState.notEmpty = 0
  | _ => False

section Operations

variable {rated : Int → Int → Score → Int} {op : ServerOp} {w : World} {L : Set LockId}

theorem keeps_noResult {A : World → Prop} {α : Type} {m : Prog World α}
    (h : Keeps A m (Free L)) : Keeps A (noResult m) (Free L) := h.bind fun _ => keeps_ret

theorem keeps_inv_create {source target : Option ClientPtr} {sourceRole targetRole : GameRole} :
    Keeps (Free L) (inv_create source target sourceRole targetRole) (Free L) := by
  unfold inv_create
  split
  · refine Keeps.ask fun client_get_fd => Keeps.weaken ?_ fun _ h => h.1
    split
    · exact keeps_ret
    · exact (invitations_isArena.keeps_malloc rfl fun _ => rfl).bind fun _ => keeps_ret
  · exact keeps_ret

theorem keeps_creg_wait_for_empty {n : Nat} : Keeps
    (fun w => Free L w ∧ w.cregState.notEmpty = n + 1) creg_wait_for_empty
    fun w => Free L w ∧ w.cregState.notEmpty = n + 1 := by
  rintro w ⟨hw, hn⟩
  have hback : notEmpty.put (notEmpty.value (notEmpty.put n w.cregState) + 1)
      (notEmpty.put n w.cregState) = w.cregState := by
    rw [notEmpty.value_put, notEmpty.put_put]
    exact notEmpty.put_same hn
  have hv : notEmpty.value w.cregState = n + 1 := hn
  have hrun : creg_wait_for_empty.run w = .ok ((), w) := by
    rw [creg_wait_for_empty, Prog.run_bind_ok (P_run (creg_get w) (by omega)), hv,
      Nat.add_sub_cancel, V_run (creg.get_set (creg_get w)), hback, Obj.set_set,
      Obj.set_get _ (creg_get w)]
  exact Keeps.of_ok hrun ⟨hw, hn⟩

/-- One operation, with any set of locks that has its own. -/
theorem keeps_op (hL : op.locks w ⊆ L) (hleak : ¬ op.Leaks w)
    (hne : op = .waitForEmpty → w.cregState.notEmpty ≠ 0) (hw : Free L w) :
    (op.prog rated).run w ≠ .error .diverges ∧
      ∀ a w', (op.prog rated).run w = .ok (a, w') → Free L w' := by
  have hone : ∀ {id}, op.locks w = {id} → id ∈ L := fun {id} he =>
    hL (he ▸ Set.mem_singleton id)
  cases op with
  | playerRef p =>
    cases p with
    | none => exact keeps_noResult keeps_ret w hw
    | some p => exact keeps_noResult (keeps_player_ref (hL ⟨p, rfl, rfl⟩) rfl) w hw
  | playerUnref p =>
    cases p with
    | none => exact keeps_ret w hw
    | some p => exact keeps_player_unref (hL ⟨p, rfl, rfl⟩) rfl w hw
  | postResult p q result =>
    exact keeps_player_post_result rated (hL (.inl rfl)) (hL (.inr rfl)) result w hw
  | pregRegister name => exact keeps_noResult (keeps_preg_register (hone rfl)) w hw
  | gameCreate => exact keeps_noResult (games_isArena.keeps_malloc rfl fun _ => rfl) w hw
  | gameRef g => exact keeps_noResult (keeps_game_ref (hone rfl) rfl) w hw
  | gameUnref g => exact keeps_game_unref (hone rfl) rfl w hw
  | applyMove g move => exact keeps_noResult (keeps_game_apply_move (hone rfl) rfl move) w hw
  | resign g role => exact keeps_noResult (keeps_game_resign (hone rfl) rfl role) w hw
  | unparseState storage g =>
    exact keeps_noResult (keeps_game_unparse_state (hone rfl) rfl storage) w hw
  | isOver g => exact keeps_noResult (keeps_game_is_over (hone rfl) rfl) w hw
  | getWinner g => exact keeps_noResult (keeps_game_get_winner (hone rfl) rfl) w hw
  | parseMove g role str =>
    exact keeps_noResult (keeps_game_parse_move (hone rfl) rfl role str) w hw
  | invCreate source target sourceRole targetRole => exact keeps_noResult keeps_inv_create w hw
  | invRef i => exact keeps_noResult (keeps_inv_ref (hone rfl)) w hw
  | invUnref i => exact keeps_inv_unref (hone rfl) w hw
  | getSource i => exact keeps_noResult (keeps_inv_get (hone rfl) _) w hw
  | getTarget i => exact keeps_noResult (keeps_inv_get (hone rfl) _) w hw
  | getSourceRole i => exact keeps_noResult (keeps_inv_get (hone rfl) _) w hw
  | getTargetRole i => exact keeps_noResult (keeps_inv_get (hone rfl) _) w hw
  | getGame i => exact keeps_noResult (keeps_inv_get (hone rfl) _) w hw
  | invAccept i => exact keeps_noResult (keeps_inv_accept (hone rfl)) w hw
  | invClose i role =>
    refine keeps_noResult (keeps_inv_close (hL (.inl rfl)) role) w
      ⟨hw, fun I hI => ⟨fun hc => ?_, ?_⟩⟩
    · exact hleak ⟨I, hI, hc⟩
    · exact fun g hg => hL (.inr ⟨I, g, hI, hg, rfl⟩)
  | cregRegister c =>
    have hl := creg_free (hone rfl) hw
    by_cases hfull : w.cregState.clientCount ≥ MAX_CLIENTS
    · exact Keeps.of_ok (Prog.run_bind_ok (creg_register_full hl hfull)) hw
    · have hfirst : w.cregState.nodes = [] → w.cregState.notEmpty ≠ 0 := fun hn h0 =>
        hleak ⟨by omega, hn, h0⟩
      exact keeps_noResult (keeps_creg_register (hone rfl)) w ⟨hw, hfirst⟩
  | cregUnregister c => exact keeps_noResult (keeps_creg_unregister (hone rfl)) w hw
  | cregLookup user => exact keeps_noResult (keeps_creg_lookup (hone rfl)) w ⟨hw, hleak⟩
  | allPlayers storage =>
    exact keeps_noResult (keeps_creg_all_players (hL (.inl rfl)) storage) w
      ⟨hw, fun c hc p hp => hL (.inr ⟨c, hc, p, hp, rfl⟩)⟩
  | waitForEmpty =>
    obtain ⟨n, hn⟩ := Nat.exists_eq_succ_of_ne_zero (hne rfl)
    obtain ⟨hlive, hok⟩ := keeps_creg_wait_for_empty w ⟨hw, hn⟩
    exact ⟨hlive, fun a w' hrun => (hok a w' hrun).1⟩
  | shutdownAll => exact Keeps.of_ends (creg_shutdown_all_ends (hone rfl) hw)
  | setPlayer c player? => exact Keeps.of_ok (B := Free L) rfl hw

theorem noResult_returns {α : Type} {m : Prog World α} :
    Exec.Returns (noResult m).run w ↔ Exec.Returns m.run w := by
  rw [noResult, Prog.run_bind]
  exact Returns.bind_iff fun _ _ _ => .of_eq rfl

theorem player_post_result_returns {p q : PlayerPtr} (result : Int)
    (hp : ∀ X, (player p).get w = some X → X.playerLock = 1)
    (hq : ∀ X, (player q).get w = some X → X.playerLock = 1) :
    Exec.Returns (player_post_result rated id p q result).run w ↔
      (player p).There w ∧ (player q).There w := by
  rw [player_post_result]
  cases hX : (player p).get w with
  | none =>
    refine iff_of_false (Returns.not_of_error (Prog.run_bind_error
      (Prog.run_bind_error (P_dead hX)))) ?_
    rintro ⟨⟨X, hX'⟩, -⟩
    cases hX.symm.trans hX'
  | some X =>
    refine (Returns.congr (Prog.run_bind_ok (lockedRead_run hX (hp X hX)))).trans ?_
    cases hY : (player q).get w with
    | none =>
      refine iff_of_false (Returns.not_of_error (Prog.run_bind_error
        (Prog.run_bind_error (P_dead hY)))) ?_
      rintro ⟨-, Y, hY'⟩
      cases hY.symm.trans hY'
    | some Y =>
      refine iff_of_true ?_ ⟨⟨X, hX⟩, Y, hY⟩
      refine (Returns.congr (Prog.run_bind_ok (lockedRead_run hY (hq Y hY)))).mpr ?_
      refine (Returns.congr (Prog.run_bind_ok (lockedWrite_run _ hX (hp X hX)))).mpr ?_
      rcases eq_or_ne q p with rfl | hne
      · exact .of_eq (lockedWrite_run _ ((player q).get_set hX) (hp X hX))
      · exact .of_eq (lockedWrite_run _ ((player_set_other hne).trans hY) (hq Y hY))

/-- The game of the invitation is left, if a player closes it. -/
theorem inv_close_returns {i : InvitationPtr} {role : GameRole} {I : Invitation}
    (hI : (invitation i).get w = some I) (hl : I.invLock = 1) (hc : I.invState ≠ .closedState)
    (hgame : ∀ g G, I.invGame = some g → (game g).get w = some G → G.gameLock = 1) :
    Exec.Returns (inv_close i role).run w ↔
      (role ≠ .nullRole → ∃ g, I.invGame = some g ∧ (game g).There w) := by
  by_cases hr : role = .nullRole
  · subst hr
    exact iff_of_true (.of_eq (inv_close_null hI hl hc)) fun h => absurd rfl h
  rw [imp_iff_right hr]
  cases hg : I.invGame with
  | none =>
    refine iff_of_false (Returns.not_of_error (inv_close_absent hI hl hr hc hg)) ?_
    rintro ⟨g, hg', -⟩
    cases hg'
  | some g =>
    refine (Returns.congr (inv_close_enter hI hl hr hc hg)).trans ?_
    have leave : ∀ w' : World, (invitation i).There w' →
        Exec.Returns (V (invitation i) invLock >>= fun _ => Prog.ret (0 : Int)).run w' := by
      rintro w' ⟨I', hI'⟩
      exact .of_eq (Prog.run_bind_ok (V_run hI'))
    have hthere : (invitation i).There
        ((invitation i).set { invLock.put 0 I with invState := .closedState } w) :=
      ⟨_, (invitation i).get_set hI⟩
    cases hG : (game g).get w with
    | none =>
      refine iff_of_false (Returns.not_of_error (Prog.run_bind_error (Prog.run_bind_error
        (P_dead hG)))) ?_
      rintro ⟨g', hg', G, hG'⟩
      cases hg'
      cases hG.symm.trans hG'
    | some G =>
      have hGl := hgame g G hg hG
      refine iff_of_true ?_ ⟨g, rfl, G, hG⟩
      have hover := game_is_over_run (show (game g).get ((invitation i).set
        { invLock.put 0 I with invState := .closedState } w) = some G from hG) hGl
      refine (Returns.congr (Prog.run_bind_ok hover)).mpr ?_
      split
      · -- whether the game is over for the flag does not matter: `game_resign` returns
        have hjudged : (game g).get ((game g).set G.judged.2
            ((invitation i).set { invLock.put 0 I with invState := .closedState } w)) =
              some G.judged.2 := (game g).get_set hG
        have hjl : G.judged.2.gameLock = 1 := by
          unfold Game.judged
          split
          · exact hGl
          · exact hGl
        have hres := game_resign_run role hjudged hjl
        split at hres
        · exact (Returns.congr (Prog.run_bind_ok hres)).mpr (leave _ hthere)
        · split at hres
          · exact (Returns.congr (Prog.run_bind_ok hres)).mpr (leave _ hthere)
          · exact (Returns.congr (Prog.run_bind_ok hres)).mpr (leave _ hthere)
      · exact leave _ hthere

theorem player_ref_returns {p : Option PlayerPtr}
    (hl : ∀ q X, p = some q → (player q).get w = some X → X.playerLock = 1) :
    Exec.Returns (player_ref p).run w ↔ ∀ q, p = some q → (player q).There w := by
  cases p with
  | none => exact iff_of_true (.of_eq rfl) fun q hq => by cases hq
  | some p =>
    refine (returns_iff_there fun X hX => .of_eq (player_ref_run hX (hl p X rfl hX))).trans ?_
    exact ⟨fun h q hq => by cases hq; exact h, fun h => h p rfl⟩

theorem player_unref_returns {p : Option PlayerPtr}
    (hl : ∀ q X, p = some q → (player q).get w = some X → X.playerLock = 1) :
    Exec.Returns (player_unref p).run w ↔ ∀ q, p = some q → (player q).There w := by
  cases p with
  | none => exact iff_of_true (.of_eq rfl) fun q hq => by cases hq
  | some p =>
    refine (Counted.dropRef_returns (C := playerRefs) fun X hX => hl p X rfl hX).trans ?_
    exact ⟨fun h q hq => by cases hq; exact h, fun h => h p rfl⟩

theorem inv_create_returns (source target : Option ClientPtr) (sourceRole targetRole : GameRole) :
    Exec.Returns (inv_create source target sourceRole targetRole).run w := by
  unfold inv_create
  split
  · refine (Returns.congr (Prog.run_bind_ok (Prog.ask_run _ _))).mpr ?_
    split
    · exact .of_eq rfl
    · exact .of_eq (Prog.run_bind_ok (Arena.malloc_run _ _))
  · exact .of_eq rfl

theorem inv_accept_returns {i : InvitationPtr} {I : Invitation}
    (hI : (invitation i).get w = some I) (hl : I.invLock = 1) :
    Exec.Returns (inv_accept i).run w := by
  by_cases ho : I.invState = .openState
  · exact .of_eq (inv_accept_open hI hl ho)
  · exact .of_eq (inv_accept_late hI hl ho)

/-- `inv_close` of an invitation that is not closed, there or not. -/
theorem inv_close_returns_iff {i : InvitationPtr} {role : GameRole}
    (hinv : ∀ I, (invitation i).get w = some I → I.invLock = 1)
    (hclosed : ¬ ∃ I, (invitation i).get w = some I ∧ I.invState = .closedState)
    (hgame : ∀ I g G, (invitation i).get w = some I → I.invGame = some g →
      (game g).get w = some G → G.gameLock = 1) :
    Exec.Returns (inv_close i role).run w ↔ ∃ I, (invitation i).get w = some I ∧
      (role ≠ .nullRole → ∃ g, I.invGame = some g ∧ (game g).There w) := by
  cases hI : (invitation i).get w with
  | none =>
    refine iff_of_false (Returns.not_of_error (Prog.run_bind_error (P_dead hI))) ?_
    rintro ⟨I, hI', -⟩
    cases hI'
  | some I =>
    refine (inv_close_returns hI (hinv I hI) (fun hc => hclosed ⟨I, hI, hc⟩)
      fun g G => hgame I g G hI).trans ?_
    constructor
    · exact fun h => ⟨I, rfl, h⟩
    · rintro ⟨I', hI', h⟩
      cases hI'
      exact h

theorem creg_wait_for_empty_returns (h : w.cregState.notEmpty ≠ 0) :
    Exec.Returns creg_wait_for_empty.run w :=
  .of_eq ((Prog.run_bind_ok (P_run (creg_get w) h)).trans (V_run (creg.get_set (creg_get w))))

/-- Where an operation finds its locks free and leaks none, it returns if what it reads is
there. -/
theorem op_returns (hop : op.Unlocked w w) (hleak : ¬ op.Leaks w) :
    Exec.Returns (op.prog rated).run w ↔ op.Supplied w := by
  have hplayer : ∀ {p X}, LockId.player p ∈ op.locks w → (player p).get w = some X →
      X.playerLock = 1 := fun {p _} hid => (player_isLock p).value_at hid hop.1
  have hgame : ∀ {g}, LockId.game g ∈ op.locks w → ∀ G, (game g).get w = some G →
      G.gameLock = 1 := fun {g} hid _ => (game_isLock g).value_at hid hop.1
  have hinv : ∀ {i}, LockId.invitation i ∈ op.locks w → ∀ I, (invitation i).get w = some I →
      I.invLock = 1 := fun {i} hid _ => (invitation_isLock i).value_at hid hop.1
  -- what takes the lock of a game or an invitation first, and returns where that is there
  have game_op : ∀ {α : Type} {g : GamePtr} {k : Unit → Prog World α}, LockId.game g ∈ op.locks w →
      (∀ G, (game g).get w = some G → G.gameLock = 1 →
        Exec.Returns (P (game g) gameLock >>= k).run w) →
      (Exec.Returns (noResult (P (game g) gameLock >>= k)).run w ↔ (game g).There w) :=
    fun hid hrun => noResult_returns.trans
      (returns_iff_there fun G hG => hrun G hG (hgame hid G hG))
  have inv_op : ∀ {α : Type} {i : InvitationPtr} {k : Unit → Prog World α},
      LockId.invitation i ∈ op.locks w →
      (∀ I, (invitation i).get w = some I → I.invLock = 1 →
        Exec.Returns (P (invitation i) invLock >>= k).run w) →
      (Exec.Returns (noResult (P (invitation i) invLock >>= k)).run w ↔ (invitation i).There w) :=
    fun hid hrun => noResult_returns.trans
      (returns_iff_there fun I hI => hrun I hI (hinv hid I hI))
  cases op with
  | playerRef p =>
    exact noResult_returns.trans (player_ref_returns fun q _ hq => hplayer ⟨q, hq, rfl⟩)
  | playerUnref p => exact player_unref_returns fun q _ hq => hplayer ⟨q, hq, rfl⟩
  | postResult p q result =>
    exact player_post_result_returns result (fun _ => hplayer (.inl rfl))
      fun _ => hplayer (.inr rfl)
  | pregRegister name =>
    have hl : w.pregState.registryLock = 1 := hop.1 .preg (Set.mem_singleton _) _ rfl
    exact noResult_returns.trans (preg_register_returns hl)
  | gameCreate => exact iff_of_true (noResult_returns.mpr (.of_eq (game_create_run w))) trivial
  | gameRef g =>
    refine noResult_returns.trans ?_
    rw [game_ref, Prog.run_bind]
    exact (Returns.bind_iff fun _ _ _ => .of_eq rfl).trans
      (Counted.addRef_returns (C := gameRefs) (hgame rfl))
  | gameUnref g => exact Counted.dropRef_returns (C := gameRefs) (hgame rfl)
  | applyMove g move => exact game_op rfl fun G hG hl => .of_eq (game_apply_move_run move hG hl)
  | resign g role =>
    refine game_op rfl fun G hG hl => ?_
    exact game_resign_returns role hG hl
  | unparseState storage g =>
    exact game_op rfl fun G hG hl => game_unparse_state_returns storage hG hl
  | isOver g => exact game_op rfl fun G hG hl => .of_eq (game_is_over_run hG hl)
  | getWinner g => exact game_op rfl fun G hG hl => .of_eq (game_get_winner_run hG hl)
  | parseMove g role str =>
    exact game_op rfl fun G hG hl => .of_eq (game_parse_move_run role str hG hl)
  | invCreate source target sourceRole targetRole =>
    exact iff_of_true (noResult_returns.mpr (inv_create_returns _ _ _ _)) trivial
  | invRef i =>
    refine noResult_returns.trans ?_
    rw [inv_ref, Prog.run_bind]
    exact (Returns.bind_iff fun _ _ _ => .of_eq rfl).trans
      (Counted.addRef_returns (C := invRefs) (hinv rfl))
  | invUnref i => exact Counted.dropRef_returns (C := invRefs) (hinv rfl)
  | getSource i => exact inv_op rfl fun I hI hl => inv_get_returns _ hI hl
  | getTarget i => exact inv_op rfl fun I hI hl => inv_get_returns _ hI hl
  | getSourceRole i => exact inv_op rfl fun I hI hl => inv_get_returns _ hI hl
  | getTargetRole i => exact inv_op rfl fun I hI hl => inv_get_returns _ hI hl
  | getGame i => exact inv_op rfl fun I hI hl => inv_get_returns _ hI hl
  | invAccept i => exact inv_op rfl fun I hI hl => inv_accept_returns hI hl
  | invClose i role =>
    exact noResult_returns.trans (inv_close_returns_iff (hinv (.inl rfl)) hleak
      fun I g G hI hg => hgame (.inr ⟨I, g, hI, hg, rfl⟩) G)
  | cregRegister c =>
    refine iff_of_true (noResult_returns.mpr ?_) trivial
    have hl := creg_free (Set.mem_singleton _) hop.1
    by_cases hfull : w.cregState.clientCount ≥ MAX_CLIENTS
    · exact .of_eq (creg_register_full hl hfull)
    · exact .of_eq (creg_register_run hl hfull fun hn h0 => hleak ⟨by omega, hn, h0⟩)
  | cregUnregister c =>
    obtain ⟨res, r, hrun, -⟩ := creg_unregister_ends (c := c) (Set.mem_singleton _) hop.1
    exact iff_of_true (noResult_returns.mpr (.of_eq hrun)) trivial
  | cregLookup user =>
    exact noResult_returns.trans (creg_lookup_returns (creg_free (Set.mem_singleton _) hop.1))
  | allPlayers storage =>
    refine noResult_returns.trans (creg_all_players_returns storage ?_ ?_)
    · exact creg_free (L := ServerOp.locks w (.allPlayers storage)) (.inl rfl) hop.1
    · exact fun c hc p X hp hX => hplayer (.inr ⟨c, hc, p, hp, rfl⟩) hX
  | waitForEmpty => exact iff_of_true (creg_wait_for_empty_returns (hop.2 rfl)) trivial
  | shutdownAll =>
    exact iff_of_true ((creg_shutdown_all_ends (Set.mem_singleton _) hop.1).mono
      fun _ _ _ => trivial)
      trivial
  | setPlayer c player? => exact iff_of_true (.of_eq rfl) trivial

/-- In a state where the operation finds its locks free. -/
theorem returns_iff (hop : op.Unlocked w w) :
    op.Returns rated w ↔ op.Supplied w ∧ ¬ op.Leaks w := by
  constructor
  · intro hret
    have hleak : ¬ op.Leaks w := by
      intro hleak
      cases op with
      | invClose i role =>
        obtain ⟨I, hI, hc⟩ := hleak
        have hl : I.invLock = 1 := (invitation_isLock i).value_at (.inl rfl) hop.1 hI
        have hfree := (hret.apply (Prog.run_bind_ok (inv_close_closed role hI hl hc))).1
        have h0 := hfree _ (.inl rfl) 0
          (congrArg (Option.map Invitation.invLock) ((invitation i).get_set hI))
        cases h0
      | cregLookup user =>
        have hl := creg_free (Set.mem_singleton _) hop.1
        have hrun : (creg_lookup user).run w =
            .ok (none, creg.set (registryLock.put 0 w.cregState) w) := by
          rw [creg_lookup, critical (creg_get w) hl]
          rw [show (registryLock.put 0 w.cregState).nodes = [] from hleak]
          rfl
        have hfree := (hret.apply (Prog.run_bind_ok hrun)).1
        have h0 := hfree _ (Set.mem_singleton _) 0 rfl
        cases h0
      | cregRegister c =>
        obtain ⟨hroom, hn, h0⟩ := hleak
        have hl := creg_free (Set.mem_singleton _) hop.1
        exact hret.ne_error _ (Prog.run_bind_error
          (creg_register_blocked hl (Int.not_le.mpr hroom) hn h0))
      | _ => exact hleak
    exact ⟨(op_returns hop hleak).mp (hret.mono fun _ _ _ => trivial), hleak⟩
  · rintro ⟨hsupplied, hleak⟩
    obtain ⟨a, w', hrun, -⟩ :=
      (op_returns hop hleak : Exec.Returns (op.prog rated).run w ↔ _).mpr hsupplied
    have hfree := (keeps_op (Set.Subset.refl _) hleak hop.2 hop.1).2 a w' hrun
    refine .of_eq hrun ⟨hfree, fun hwait => ?_⟩
    subst hwait
    obtain ⟨n, hn⟩ := Nat.exists_eq_succ_of_ne_zero (hop.2 rfl)
    have hback := (keeps_creg_wait_for_empty w ⟨hop.1, hn⟩).2 a w' hrun
    rw [hback.2]
    exact Nat.succ_ne_zero n

/-- A step of a run without leaks. -/
def Ran (rated : Int → Int → Score → Int) (w : World) (op : ServerOp) (w' : World) : Prop :=
  ¬ op.Leaks w ∧ (op.prog rated).run w = .ok ((), w')

theorem free_step {w' : World} (hw : Free Set.univ w) (h : Ran rated w op w') :
    Free Set.univ w' := by
  obtain ⟨hleak, hrun⟩ := h
  have hne : op = .waitForEmpty → w.cregState.notEmpty ≠ 0 := by
    rintro rfl h0
    have hbusy : creg_wait_for_empty.run w = .error .diverges :=
      Prog.run_bind_error (P_busy (creg_get w) h0)
    have hok : creg_wait_for_empty.run w = .ok ((), w') := hrun
    rw [hbusy] at hok
    cases hok
  exact (keeps_op (Set.subset_univ _) hleak hne hw).2 () w' hrun

end Operations

/-- The server starts: no object yet, and both registries initialised. -/
def Begun (w : World) : Prop :=
  ∃ w₀ : World, w₀.playerHeap = Heap.empty ∧ w₀.gameHeap = Heap.empty ∧
    w₀.invitationHeap = Heap.empty ∧
    (do preg_init; creg_init : Prog World Unit).run w₀ = .ok ((), w)

theorem free_begun {w : World} (h : Begun w) : Free Set.univ w := by
  obtain ⟨w₀, hp, hg, hi, hrun⟩ := h
  cases hrun
  rintro id - v hv
  cases id with
  | player p =>
    have hv' : (w₀.playerHeap.cell p).map Player.playerLock = some v := hv
    rw [hp] at hv'
    cases hv'
  | game g =>
    have hv' : (w₀.gameHeap.cell g).map Game.gameLock = some v := hv
    rw [hg] at hv'
    cases hv'
  | invitation i =>
    have hv' : (w₀.invitationHeap.cell i).map Invitation.invLock = some v := hv
    rw [hi] at hv'
    cases hv'
  | preg => exact (Option.some.inj hv).symm
  | creg => exact (Option.some.inj hv).symm

end StarterProjects.Jeux
