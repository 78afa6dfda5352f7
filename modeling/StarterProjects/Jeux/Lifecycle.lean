import StarterProjects.Jeux.Invitation

/-!
# The life of an invitation

An invitation is open, then accepted with a game or closed. The header promises that
closing an open invitation touches no game, that `NULL_ROLE` closes an accepted one only
when no game is in progress, and that a closed one stays as it is. `inv_close` does not
look at the game for `NULL_ROLE`, looks at an absent game for any other role, and keeps
its lock when it refuses.

`lifecycle_of_create`: a sequence of calls follows the header exactly when it closes open
invitations with `NULL_ROLE` only, accepted ones with `NULL_ROLE` only after the game is
over, and closed ones never.
-/

namespace StarterProjects.Jeux

open Lib Lib.Exec

/-- The two calls, and what can happen to the game of the invitation between them. -/
inductive InvOp where
  | accept
  | close (role : GameRole)
  | move (move : GameMove)
  | isOver

/-- A call on the game of the invitation, if it has one. -/
def onGame (i : InvitationPtr) (p : GamePtr → Prog World Int) : Prog World Int := do
  match ← inv_get_game i with
  | none => return -1
  | some g => p g

def InvOp.call (i : InvitationPtr) : InvOp → Prog World Int
  | .accept => inv_accept i
  | .close role => inv_close i role
  | .move m => onGame i fun g => game_apply_move g m
  | .isOver => onGame i game_is_over

/-! ## What the header promises -/

/-- `inv_close` from the state `I.invState`, with the game as it is in `w`. -/
def ClosesAs (i : InvitationPtr) (I : Invitation) (role : GameRole) (res : Int)
    (w w' : World) : Prop :=
  match I.invState with
  | .openState => res = 0 ∧ w' = (invitation i).set { I with invState := .closedState } w
  | .acceptedState => ∃ g G, I.invGame = some g ∧ (game g).get w = some G ∧
      if role = .nullRole then
        if G.over then res = 0 ∧ w' = (invitation i).set { I with invState := .closedState } w
        else res = -1 ∧ w' = w
      else res = 0 ∧ w' = (invitation i).set { I with invState := .closedState }
        ((game g).set (G.left role) w)
  | .closedState => res = -1 ∧ w' = w

theorem closesAs_open {i : InvitationPtr} {I : Invitation} {role : GameRole} {res : Int}
    {w w' : World} (h : I.invState = .openState) : ClosesAs i I role res w w' ↔
      res = 0 ∧ w' = (invitation i).set { I with invState := .closedState } w := by
  unfold ClosesAs
  rw [h]

theorem closesAs_accepted {i : InvitationPtr} {I : Invitation} {role : GameRole} {res : Int}
    {w w' : World} (h : I.invState = .acceptedState) : ClosesAs i I role res w w' ↔
      ∃ g G, I.invGame = some g ∧ (game g).get w = some G ∧
        if role = .nullRole then
          if G.over then res = 0 ∧ w' = (invitation i).set { I with invState := .closedState } w
          else res = -1 ∧ w' = w
        else res = 0 ∧ w' = (invitation i).set { I with invState := .closedState }
          ((game g).set (G.left role) w) := by
  unfold ClosesAs
  rw [h]

theorem closesAs_closed {i : InvitationPtr} {I : Invitation} {role : GameRole} {res : Int}
    {w w' : World} (h : I.invState = .closedState) : ClosesAs i I role res w w' ↔
      res = -1 ∧ w' = w := by
  unfold ClosesAs
  rw [h]

def Documented (i : InvitationPtr) (op : InvOp) (res : Int) (w w' : World) : Prop :=
  ∃ I, (invitation i).get w = some I ∧ match op with
    | .accept =>
      if I.invState = .openState then
        res = 0 ∧ ∃ g, (game g).get w = none ∧ (game g).get w' = some Game.created ∧
          (invitation i).get w' = some { I with invState := .acceptedState, invGame := some g }
      else res = -1 ∧ w' = w
    | .close role => ClosesAs i I role res w w'
    | _ => True

/-- Every call returns and does what the header says. -/
def Lifecycle (i : InvitationPtr) : List InvOp → World → Prop
  | [], _ => True
  | op :: ops, w => Ends (op.call i).run w fun res w' =>
      Documented i op res w w' ∧ Lifecycle i ops w'

/-! ## The calls that do not leave it -/

def Regular (i : InvitationPtr) (op : InvOp) (w : World) : Prop :=
  ∀ I, (invitation i).get w = some I → match op with
    | .close role => match I.invState with
      | .openState => role = .nullRole
      | .acceptedState => role = .nullRole →
          ∃ g G, I.invGame = some g ∧ (game g).get w = some G ∧ G.over = true
      | .closedState => False
    | _ => True

def RegularRun (i : InvitationPtr) : List InvOp → World → Prop
  | [], _ => True
  | op :: ops, w => Regular i op w ∧
      ∀ res w', (op.call i).run w = .ok (res, w') → RegularRun i ops w'

/-! ## One call -/

/-- A live invitation whose game, if it has one, is live too. -/
structure Offer (i : InvitationPtr) (w : World) (I : Invitation) : Prop where
  live : (invitation i).get w = some I
  free : I.invLock = 1
  absent : I.invState = .openState → I.invGame = none
  present : I.invState = .acceptedState → ∃ g, I.invGame = some g
  game : ∀ g, I.invGame = some g → ∃ G, (game g).get w = some G ∧ G.gameLock = 1 ∧
    (I.invState = .acceptedState → G.refCount = 2)

namespace Offer

variable {i : InvitationPtr} {w : World} {I : Invitation}

theorem set_same (h : Offer i w I) (J : Invitation) :
    (invitation i).get ((invitation i).set J w) = some J := Obj.get_set _ h.live

/-- The game of the invitation changed, but kept its references and its lock. -/
theorem game_set (h : Offer i w I) {g : GamePtr} {G G' : Game} (hg : I.invGame = some g)
    (hG : (Jeux.game g).get w = some G) (hl : G'.gameLock = G.gameLock)
    (hr : G'.refCount = G.refCount) : Offer i ((Jeux.game g).set G' w) I where
  live := h.live
  free := h.free
  absent := h.absent
  present := h.present
  game := fun g' hg' => by
    obtain rfl : g = g' := Option.some.inj (hg.symm.trans hg')
    obtain ⟨G₁, hG₁, hl₁, hr₁⟩ := h.game g hg
    rw [hG] at hG₁
    cases hG₁
    exact ⟨G', Obj.get_set _ hG, hl.trans hl₁, fun ha => hr.trans (hr₁ ha)⟩

/-- A closed invitation asks nothing of the references of its game. -/
theorem closed (h : Offer i w I) {w' : World}
    (hlive : (invitation i).get w' = some { I with invState := .closedState })
    (hgame : ∀ g, I.invGame = some g →
      ∃ G, (Jeux.game g).get w' = some G ∧ G.gameLock = 1) :
    Offer i w' { I with invState := .closedState } where
  live := hlive
  free := h.free
  absent := nofun
  present := nofun
  game := fun g hg => by
    obtain ⟨G, hG, hl⟩ := hgame g hg
    exact ⟨G, hG, hl, nofun⟩

theorem onGame_run (h : Offer i w I) (p : GamePtr → Prog World Int) :
    (onGame i p).run w = match I.invGame with
      | none => .ok (-1, w)
      | some g => (p g).run w := by
  have hget : (inv_get_game i).run w = .ok (I.invGame, w) := by
    rw [inv_get_game, inv_get, critical h.live h.free, set_V h.live, invLock.reopen h.free,
      Obj.set_get _ h.live]
    rfl
  rw [onGame, Prog.run_bind_ok hget]
  cases I.invGame with
  | none => rfl
  | some g => rfl

/-- A call on the game leaves the invitation as it is. -/
theorem play (h : Offer i w I) (p : GamePtr → Prog World Int)
    (hp : ∀ g G, (Jeux.game g).get w = some G → G.gameLock = 1 → ∃ res G',
      (p g).run w = .ok (res, (Jeux.game g).set G' w) ∧ G'.gameLock = G.gameLock ∧
        G'.refCount = G.refCount) :
    ∃ res w', (onGame i p).run w = .ok (res, w') ∧ Offer i w' I := by
  have hrun := h.onGame_run p
  cases hg : I.invGame with
  | none =>
    rw [hg] at hrun
    exact ⟨_, _, hrun, h⟩
  | some g =>
    obtain ⟨G, hG, hl, _⟩ := h.game g hg
    obtain ⟨res, G', hpg, hl', hr'⟩ := hp g G hG hl
    rw [hg] at hrun
    exact ⟨_, _, hrun.trans hpg, h.game_set hg hG hl' hr'⟩

theorem moved_lock (m : GameMove) (G : Game) :
    (G.moved m).2.gameLock = G.gameLock ∧ (G.moved m).2.refCount = G.refCount := by
  unfold Game.moved
  split
  · exact ⟨rfl, rfl⟩
  · exact ⟨rfl, rfl⟩

theorem judged_lock (G : Game) :
    G.judged.2.gameLock = G.gameLock ∧ G.judged.2.refCount = G.refCount := by
  unfold Game.judged
  split
  · exact ⟨rfl, rfl⟩
  · exact ⟨rfl, rfl⟩

theorem left_lock (role : GameRole) (G : Game) : (G.left role).gameLock = G.gameLock := by
  unfold Game.left
  split
  · exact (judged_lock G).1
  · rfl

theorem accept (h : Offer i w I) : ∃ res w' I', (inv_accept i).run w = .ok (res, w') ∧
    Documented i .accept res w w' ∧ Offer i w' I' := by
  by_cases ho : I.invState = .openState
  · have hlive : (invitation i).get ((invitation i).set
        { I with invState := .acceptedState, invGame := some w.gameHeap.next }
        (games.modify (Heap.alloc Game.created) w)) =
        some { I with invState := .acceptedState, invGame := some w.gameHeap.next } :=
      Obj.get_set _ (show (invitation i).get (games.modify (Heap.alloc Game.created) w) = _ from
        h.live)
    have hnew : (Jeux.game w.gameHeap.next).get ((invitation i).set
        { I with invState := .acceptedState, invGame := some w.gameHeap.next }
        (games.modify (Heap.alloc Game.created) w)) = some Game.created :=
      Heap.alloc_same _ _
    refine ⟨_, _, _, inv_accept_open h.live h.free ho, ⟨I, h.live, ?_⟩, hlive, h.free, nofun,
      fun _ => ⟨_, rfl⟩, ?_⟩
    · dsimp only
      rw [if_pos ho]
      exact ⟨rfl, _, w.gameHeap.fresh _ (Nat.le_refl _), hnew, hlive⟩
    · intro g hg
      cases hg
      exact ⟨_, hnew, rfl, fun _ => rfl⟩
  · refine ⟨_, _, I, inv_accept_late h.live h.free ho, ⟨I, h.live, ?_⟩, h⟩
    dsimp only
    rw [if_neg ho]
    exact ⟨rfl, rfl⟩

/-- A close that follows the header leaves an offer again. -/
theorem close_regular (h : Offer i w I) {role : GameRole} (hr : Regular i (.close role) w) :
    ∃ res w' I', (inv_close i role).run w = .ok (res, w') ∧
      Documented i (.close role) res w w' ∧ Offer i w' I' := by
  have hreg := hr I h.live
  dsimp only at hreg
  cases hs : I.invState with
  | closedState =>
    rw [hs] at hreg
    exact hreg.elim
  | openState =>
    rw [hs] at hreg
    subst hreg
    refine ⟨_, _, _, inv_close_null h.live h.free (by rw [hs]; decide), ⟨I, h.live, ?_⟩,
      h.closed (h.set_same _) fun g hg => ?_⟩
    · exact (closesAs_open hs).mpr ⟨rfl, rfl⟩
    · rw [h.absent hs] at hg
      cases hg
  | acceptedState =>
    rw [hs] at hreg
    obtain ⟨g, hg⟩ := h.present hs
    obtain ⟨G, hG, hl, href⟩ := h.game g hg
    by_cases hrole : role = .nullRole
    · subst hrole
      obtain ⟨g', G', hg', hG', hover⟩ := hreg rfl
      obtain rfl : g = g' := Option.some.inj (hg.symm.trans hg')
      obtain rfl : G = G' := Option.some.inj (hG.symm.trans hG')
      refine ⟨_, _, _, inv_close_null h.live h.free (by rw [hs]; decide), ⟨I, h.live, ?_⟩,
        h.closed (h.set_same _) fun g' hg' => ?_⟩
      · refine (closesAs_accepted hs).mpr ⟨g, G, hg, hG, ?_⟩
        rw [if_pos rfl, if_pos hover]
        exact ⟨rfl, rfl⟩
      · obtain ⟨G', hG', hl', _⟩ := h.game g' hg'
        exact ⟨G', hG', hl'⟩
    · have hset : (Jeux.game g).get ((Jeux.game g).set (G.left role) w) = some (G.left role) :=
        Obj.get_set _ hG
      refine ⟨_, _, _, inv_close_player h.live h.free hrole (by rw [hs]; decide) hg hG hl
        (by rw [href hs]; decide), ⟨I, h.live, ?_⟩, h.closed ?_ fun g' hg' => ?_⟩
      · refine (closesAs_accepted hs).mpr ⟨g, G, hg, hG, ?_⟩
        rw [if_neg hrole]
        exact ⟨rfl, rfl⟩
      · exact Obj.get_set _ (show (invitation i).get ((Jeux.game g).set (G.left role) w) = _ from
          h.live)
      · obtain rfl : g = g' := Option.some.inj (hg.symm.trans hg')
        exact ⟨_, hset, (left_lock role G).trans hl⟩

/-- A close that does not follow it crashes, closes over a game in progress, or leaves
with the lock. -/
theorem close_irregular (h : Offer i w I) {role : GameRole} (hr : ¬ Regular i (.close role) w)
    {res : Int} {w' : World} (hrun : (inv_close i role).run w = .ok (res, w')) :
    ¬ Documented i (.close role) res w w' := by
  rintro ⟨I₁, hI₁, hd⟩
  rw [h.live] at hI₁
  cases hI₁
  change ClosesAs i I role res w w' at hd
  -- a closed invitation keeps its lock, an open one has no game to leave, and an accepted one
  -- must not be closed without a role before its game is over
  cases hs : I.invState with
  | closedState =>
    rw [inv_close_closed role h.live h.free hs] at hrun
    cases hrun
    have hlock := h.set_same { I with invLock := 0 }
    rw [((closesAs_closed hs).mp hd).2, h.live] at hlock
    have hzero : I.invLock = 0 := congrArg Invitation.invLock (Option.some.inj hlock)
    rw [h.free] at hzero
    cases hzero
  | openState =>
    by_cases hrole : role = .nullRole
    · refine hr fun I₁ hI₁ => ?_
      rw [h.live] at hI₁
      cases hI₁
      dsimp only
      rw [hs]
      exact hrole
    · rw [inv_close_absent h.live h.free hrole (by rw [hs]; decide) (h.absent hs)] at hrun
      cases hrun
  | acceptedState =>
    obtain ⟨g, G, hg, hG, hd⟩ := (closesAs_accepted hs).mp hd
    by_cases hrole : role = .nullRole
    · subst hrole
      rw [if_pos rfl] at hd
      by_cases hover : G.over = true
      · refine hr fun I₁ hI₁ => ?_
        rw [h.live] at hI₁
        cases hI₁
        dsimp only
        rw [hs]
        exact fun _ => ⟨g, G, hg, hG, hover⟩
      · rw [inv_close_null h.live h.free (by rw [hs]; decide)] at hrun
        cases hrun
        rw [if_neg hover] at hd
        exact absurd hd.1 (by decide)
    · refine hr fun I₁ hI₁ => ?_
      rw [h.live] at hI₁
      cases hI₁
      dsimp only
      rw [hs]
      exact fun hc => absurd hc hrole

theorem step (h : Offer i w I) (op : InvOp) (hr : Regular i op w) :
    ∃ res w' I', (op.call i).run w = .ok (res, w') ∧ Documented i op res w w' ∧
      Offer i w' I' := by
  cases op with
  | accept => exact h.accept
  | close role => exact h.close_regular hr
  | move m =>
    obtain ⟨res, w', hrun, h'⟩ := h.play (fun g => game_apply_move g m) fun g G hG hl =>
      ⟨_, _, game_apply_move_run m hG hl, moved_lock m G⟩
    exact ⟨res, w', I, hrun, ⟨I, h.live, trivial⟩, h'⟩
  | isOver =>
    obtain ⟨res, w', hrun, h'⟩ := h.play game_is_over fun g G hG hl =>
      ⟨_, _, game_is_over_run hG hl, judged_lock G⟩
    exact ⟨res, w', I, hrun, ⟨I, h.live, trivial⟩, h'⟩

theorem irregular (h : Offer i w I) (op : InvOp) (hr : ¬ Regular i op w) {res : Int}
    {w' : World} (hrun : (op.call i).run w = .ok (res, w')) : ¬ Documented i op res w w' := by
  cases op with
  | close role => exact h.close_irregular hr hrun
  | accept => exact absurd (fun _ _ => trivial) hr
  | move m => exact absurd (fun _ _ => trivial) hr
  | isOver => exact absurd (fun _ _ => trivial) hr

/-- The induction over the calls. -/
theorem lifecycle_iff : ∀ {ops : List InvOp} {w : World} {I : Invitation}, Offer i w I →
    (Lifecycle i ops w ↔ RegularRun i ops w)
  | [], _, _, _ => Iff.rfl
  | op :: ops, w, I, h => by
    constructor
    · rintro ⟨res, w', hrun, hd, hl⟩
      have hr : Regular i op w := by
        by_contra hr
        exact h.irregular op hr hrun hd
      obtain ⟨res₁, w₁, I', hrun₁, _, h'⟩ := h.step op hr
      refine ⟨hr, fun res₂ w₂ hrun₂ => ?_⟩
      rw [hrun] at hrun₁ hrun₂
      cases hrun₁
      cases hrun₂
      exact (lifecycle_iff h').mp hl
    · rintro ⟨hr, hrest⟩
      obtain ⟨res, w', I', hrun, hd, h'⟩ := h.step op hr
      exact ⟨res, w', hrun, hd, (lifecycle_iff h').mpr (hrest _ _ hrun)⟩

end Offer

/-- What `inv_create` returns is an open offer without a game. -/
theorem inv_create_offer (source target : Option ClientPtr) (source_role target_role : GameRole)
    (w : World) : Ends (inv_create source target source_role target_role).run w
      fun r w' => ∀ i, r = some i → ∃ I, Offer i w' I ∧ I.invState = .openState := by
  cases source with
  | none => exact .of_eq rfl nofun
  | some source =>
    cases target with
    | none => exact .of_eq rfl nofun
    | some target =>
      rw [inv_create, Prog.run_bind]
      refine Ends.run (Prog.ask_run _ _) ?_
      split
      · exact .of_eq rfl nofun
      · rw [Prog.run_bind]
        refine Ends.run (Arena.malloc_run _ _) (.of_eq rfl ?_)
        intro i hi
        cases hi
        exact ⟨_, ⟨Heap.alloc_same _ _, rfl, fun _ => rfl, nofun, nofun⟩, rfl⟩

/-- An invitation follows its header exactly when every call is regular. -/
theorem lifecycle_of_create (source target : Option ClientPtr)
    (source_role target_role : GameRole) (ops : List InvOp) (w : World) :
    Ends (inv_create source target source_role target_role).run w fun r w' =>
      ∀ i, r = some i → (Lifecycle i ops w' ↔ RegularRun i ops w') :=
  (inv_create_offer source target source_role target_role w).mono fun _ _ h i hi => by
    obtain ⟨I, hI, _⟩ := h i hi
    exact hI.lifecycle_iff

/-- Accepted, and closed with `NULL_ROLE` before the first move: the close succeeds. -/
theorem closed_in_progress :
    ¬ Ends (inv_create (some 0) (some 1) .firstPlayerRole .secondPlayerRole).run
      (World.initial fun c => c) fun r w =>
        ∀ i, r = some i → Lifecycle i [.accept, .close .nullRole] w := by
  rintro ⟨r, w, hrun, hl⟩
  cases hrun
  obtain ⟨I, h, hopen⟩ := (inv_create_offer (some 0) (some 1) .firstPlayerRole .secondPlayerRole
    (World.initial fun c => c)).apply rfl 0 rfl
  have hr := h.lifecycle_iff.mp (hl 0 rfl)
  obtain ⟨g, G, hg, hG, hover⟩ := (hr.2 _ _ (inv_accept_open h.live h.free hopen)).1 _
    (Obj.get_set _ h.live) rfl
  cases hg
  cases hG
  exact absurd hover (by decide)

end StarterProjects.Jeux
