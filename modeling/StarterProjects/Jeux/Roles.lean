import StarterProjects.Jeux.Sessions

/-!
# The roles in an invitation

INVITE names the role of the target in a byte of the header. The server takes 2 for the
second player, so that the source is the first one, and makes the source the second player
for any other byte; the byte itself goes into the invitation as it came. With 0 the target
has `NULL_ROLE`, for which `game_parse_move` does not ask whose turn it is; with 2 from 255
the target has no role that ever has the turn.

`fit_of_named`: when every honoured INVITE names role 1 or 2, source and target of every
invitation are the two players, and each moves in turn.
-/

namespace StarterProjects.Jeux

open Lib

/-- One is the first player, the other the second. -/
def Opposed (source_role target_role : GameRole) : Prop :=
  source_role = .firstPlayerRole ∧ target_role = .secondPlayerRole ∨
    source_role = .secondPlayerRole ∧ target_role = .firstPlayerRole

/-- In the game of `I` a move of this role is accepted only on its turn. -/
def InTurn (w : World) (I : Invitation) (role : GameRole) : Prop :=
  ∀ g G str move w', I.invGame = some g → (game g).get w = some G →
    (game_parse_move g role str).run w = .ok (some move, w') → G.curRole = role

/-- The invitations give both players their roles, and these enforce the turns. -/
def Fit (w : World) : Prop :=
  ∀ i I, (invitation i).get w = some I →
    Opposed I.invSourceGameRole I.invTargetGameRole ∧
      ∀ role, role = I.invSourceGameRole ∨ role = I.invTargetGameRole →
        role ≠ .nullRole ∧ InTurn w I role

def FitRun (M : ClientModule) (storage : Storage) : List ServerEvent → ServerState → Prop
  | [], s => Fit s.world
  | e :: es, s => Fit s.world ∧ ∀ s', ServerStep M storage s e s' → FitRun M storage es s'

/-- The INVITEs of logged-in clients name the first or the second player. -/
def NamedRun (M : ClientModule) (storage : Storage) : List ServerEvent → ServerState → Prop
  | [], _ => True
  | e :: es, s => (∀ i p conn, e = .packet i p → s.connections[i]? = some conn →
        conn.loggedIn = true → p.kind = .invite → p.role = 1 ∨ p.role = 2) ∧
      ∀ s', ServerStep M storage s e s' → NamedRun M storage es s'

/-! ## Which invitations a program makes -/

/-- Every invitation was there with its roles, or has roles that `P` allows. -/
def MakesOnly (P : GameRole → GameRole → Prop) (w w' : World) : Prop :=
  ∀ i I', (invitation i).get w' = some I' →
    (∃ I, (invitation i).get w = some I ∧ I.invSourceGameRole = I'.invSourceGameRole ∧
      I.invTargetGameRole = I'.invTargetGameRole) ∨ P I'.invSourceGameRole I'.invTargetGameRole

instance (P : GameRole → GameRole → Prop) : IsPreorder World (MakesOnly P) where
  refl := fun _ _ I h => .inl ⟨I, h, rfl, rfl⟩
  trans := fun _ _ _ h h' i I'' hI'' => by
    rcases h' i I'' hI'' with ⟨I', hI', hs', ht'⟩ | hP
    · rcases h i I' hI' with ⟨I, hI, hs, ht⟩ | hP
      · exact .inl ⟨I, hI, hs.trans hs', ht.trans ht'⟩
      · rw [hs', ht'] at hP
        exact .inr hP
    · exact .inr hP

theorem MakesOnly.mono {P Q : GameRole → GameRole → Prop} (hPQ : ∀ r r', P r r' → Q r r')
    {w w' : World} (h : MakesOnly P w w') : MakesOnly Q w w' := fun i I' hI' =>
  (h i I' hI').imp_right (hPQ _ _)

theorem aside_makesOnly (P : GameRole → GameRole → Prop) : Aside (MakesOnly P) where
  players := fun _ _ _ I h => .inl ⟨I, h, rfl, rfl⟩
  preg := fun _ _ _ I h => .inl ⟨I, h, rfl, rfl⟩
  locks := fun _ _ _ _ I h => .inl ⟨I, h, rfl, rfl⟩

/-- `inv_create` makes an invitation with the roles it is given. -/
theorem inv_create_makes (source target : Option ClientPtr) (source_role target_role : GameRole) :
    Within (MakesOnly fun r r' => r = source_role ∧ r' = target_role)
      (inv_create source target source_role target_role) := by
  cases source with
  | none => exact .ret _
  | some source =>
    cases target with
    | none => exact .ret _
    | some target =>
      refine (Within.ask _).bind fun client_get_fd => .ite (.ret _) ?_
      refine .bind (.act (fun w w' h => ?_) fun _ => .ret _) fun _ => .ret _
      cases h
      intro i I' hI'
      by_cases hi : i = w.invitationHeap.next
      · rw [hi] at hI'
        cases (Heap.alloc_same _ _).symm.trans hI'
        exact .inr ⟨rfl, rfl⟩
      · exact .inl ⟨I', (Heap.alloc_other _ _ hi).symm.trans hI', rfl, rfl⟩

/-- `client_make_invitation` passes its two roles to `inv_create`; the other functions of
`client.h` make no invitation; and none changes the roles of one. -/
structure ClientModule.Passes (M : ClientModule) : Prop
    extends M.Within (MakesOnly fun _ _ => False) where
  make : ∀ c target? source_role target_role,
    Lib.Within (MakesOnly fun r r' => r = source_role ∧ r' = target_role)
      (M.client_make_invitation c target? source_role target_role)

theorem ClientModule.Within.mono {M : ClientModule} {R R' : World → World → Prop}
    (hRR : ∀ w w', R w w' → R' w w') (h : M.Within R) : M.Within R' where
  login := fun c q w a w' hr => hRR _ _ (h.login c q w a w' hr)
  revoke := fun c id w a w' hr => hRR _ _ (h.revoke c id w a w' hr)
  decline := fun c id w a w' hr => hRR _ _ (h.decline c id w a w' hr)
  accept := fun c id w a w' hr => hRR _ _ (h.accept c id w a w' hr)
  move := fun c id m w a w' hr => hRR _ _ (h.move c id m w a w' hr)
  resign := fun c id w a w' hr => hRR _ _ (h.resign c id w a w' hr)

/-! ## What the server makes of the byte -/

/-- The roles that the server takes from the byte are those of the two players exactly when
the byte is 1 or 2. -/
theorem opposed_iff (role : UInt8) :
    Opposed (GameRole.ofNat (if role.toNat = 2 then 1 else 2)) (GameRole.ofNat role.toNat) ↔
      role = 1 ∨ role = 2 := by
  have h1 : role = 1 ↔ role.toNat = 1 := UInt8.toNat_inj.symm
  have h2 : role = 2 ↔ role.toNat = 2 := UInt8.toNat_inj.symm
  rw [h1, h2]
  generalize role.toNat = n
  rcases n with _ | _ | _ | n
  · -- the target gets `NULL_ROLE`
    refine ⟨?_, by omega⟩
    rintro (⟨-, h⟩ | ⟨-, h⟩) <;> cases h
  · exact ⟨fun _ => .inl rfl, fun _ => .inr ⟨rfl, rfl⟩⟩
  · exact ⟨fun _ => .inr rfl, fun _ => .inl ⟨rfl, rfl⟩⟩
  · -- the target gets the role of nobody
    refine ⟨?_, by omega⟩
    rintro (⟨-, h⟩ | ⟨-, h⟩) <;> cases h

/-- A move for a player's role is parsed only when it has the turn. -/
theorem game_parse_move_turn {g : GamePtr} {w w' : World} {G : Game} {role : GameRole}
    {str : CString} {move : GameMove} (h : (game g).get w = some G) (hrole : role ≠ .nullRole)
    (hrun : (game_parse_move g role str).run w = .ok (some move, w')) : G.curRole = role := by
  by_cases hl : gameLock.value G = 0
  · rw [game_parse_move, Prog.run_bind_error (P_busy h hl)] at hrun
    cases hrun
  · rw [game_parse_move, Prog.run_bind_ok (P_run h hl), set_read h] at hrun
    by_contra hne
    rw [if_pos ⟨hrole, hne⟩, set_V h] at hrun
    cases hrun

theorem Opposed.fit {w : World} {I : Invitation}
    (h : Opposed I.invSourceGameRole I.invTargetGameRole) (role : GameRole)
    (hrole : role = I.invSourceGameRole ∨ role = I.invTargetGameRole) :
    role ≠ .nullRole ∧ InTurn w I role := by
  have hne : role ≠ .nullRole := by
    rcases h with ⟨hs, ht⟩ | ⟨hs, ht⟩ <;> rcases hrole with rfl | rfl <;>
      first | (rw [hs]; decide) | (rw [ht]; decide)
  exact ⟨hne, fun _ _ _ _ _ _ hG hrun => game_parse_move_turn hG hne hrun⟩

/-! ## Runs -/

/-- The roles of all invitations are those of two players. -/
def AllOpposed (w : World) : Prop :=
  ∀ i I, (invitation i).get w = some I → Opposed I.invSourceGameRole I.invTargetGameRole

theorem AllOpposed.fit {w : World} (h : AllOpposed w) : Fit w := fun i I hI =>
  ⟨h i I hI, (h i I hI).fit⟩

theorem AllOpposed.within {w w' : World} (h : AllOpposed w) (hw : MakesOnly Opposed w w') :
    AllOpposed w' := fun i I' hI' => by
  rcases hw i I' hI' with ⟨I, hI, hs, ht⟩ | hP
  · rw [← hs, ← ht]
    exact h i I hI
  · exact hP

section Run

variable {M : ClientModule} {storage : Storage} {s s' : ServerState} {e : ServerEvent}

theorem within_creg_register (newClient : ClientPtr) :
    Within (MakesOnly Opposed) (creg_register newClient) := by
  have hset : ∀ g w, MakesOnly Opposed w (creg.modify g w) := fun _ _ _ I h =>
    .inl ⟨I, h, rfl, rfl⟩
  have hV : Within (MakesOnly Opposed) (V creg registryLock) := .update fun w => hset _ w
  refine .bind (.take fun w => hset _ w) fun _ => Within.read.bind fun r => ?_
  refine .ite (hV.bind fun _ => .ret _) (.ite ?_ ?_)
  · exact .bind (.update fun w => hset _ w) fun _ => .bind (.take fun w => hset _ w) fun _ =>
      .bind (.update fun w => hset _ w) fun _ => hV.bind fun _ => .ret _
  · exact .bind (.update fun w => hset _ w) fun _ => hV.bind fun _ => .ret _

theorem AllOpposed.step (hM : M.Passes) (h : AllOpposed s.world)
    (hs : ServerStep M storage s e s')
    (hnamed : ∀ i p conn, e = .packet i p → s.connections[i]? = some conn →
      conn.loggedIn = true → p.kind = .invite → p.role = 1 ∨ p.role = 2) :
    AllOpposed s'.world := by
  cases hs with
  | connect hreg => exact h.within (within_creg_register _ _ _ _ hreg)
  | packet hi hopen hserve =>
    refine h.within (within_serve (aside_makesOnly _)
      (hM.toWithin.mono fun _ _ => MakesOnly.mono fun _ _ => False.elim)
      (fun hk hb => within_serve_invite (aside_makesOnly _) fun target? => ?_) _ _ _ hserve)
    have hopposed := (opposed_iff _).mpr (hnamed _ _ _ rfl hi hb hk)
    exact fun w a w' hr => (hM.make _ _ _ _ w a w' hr).mono fun r r' hrr => by
      rw [hrr.1, hrr.2]
      exact hopposed
  | hangup hi hopen hloop =>
    cases hloop
    exact h

/-- The induction over the events. -/
theorem AllOpposed.fitRun (hM : M.Passes) : ∀ {es : List ServerEvent} {s : ServerState},
    AllOpposed s.world → NamedRun M storage es s → FitRun M storage es s
  | [], _, h, _ => h.fit
  | _ :: _, _, h, ⟨hnamed, hnext⟩ =>
    ⟨h.fit, fun s' hs => AllOpposed.fitRun hM (h.step hM hs hnamed) (hnext s' hs)⟩

end Run

/-- In a run of the server whose honoured INVITEs name role 1 or 2, every invitation has the
two players' roles, and each of them moves in turn. -/
theorem fit_of_named {M : ClientModule} (hM : M.Passes) (storage : Storage)
    (clientFd : ClientPtr → Int) (es : List ServerEvent)
    (h : NamedRun M storage es (ServerState.initial clientFd)) :
    FitRun M storage es (ServerState.initial clientFd) :=
  AllOpposed.fitRun hM (fun _ _ hI => by cases hI) h

/-- A client module with which a logged-in client can make an invitation. -/
def inviting : ClientModule :=
  { lonely with
    client_make_invitation := fun source target source_role target_role => do
      match ← inv_create source target source_role target_role with
      | none => return -1
      | some _ => return 0 }

theorem inviting_passes : inviting.Passes where
  login := fun client? player? => by
    cases client? with
    | none => exact .ret _
    | some c =>
      refine .bind (.act (fun _ _ h => ?_) fun _ => .ret _) fun _ => .ret _
      cases h
      exact fun _ I hI => .inl ⟨I, hI, rfl, rfl⟩
  revoke := fun _ _ => .ret _
  decline := fun _ _ => .ret _
  accept := fun _ _ => .ret _
  move := fun _ _ _ => .ret _
  resign := fun _ _ => .ret _
  make := fun source target source_role target_role =>
    (inv_create_makes source target source_role target_role).bind fun inv? => by
      cases inv? with
      | none => exact .ret _
      | some i => exact .ret _

/-- Clients 0 and 1 log in as `a` and `b`; then 0 invites `b` to a role. -/
def invitationEvents (role : UInt8) : List ServerEvent :=
  [.connect 0, .connect 1, .packet 0 ⟨1, 0, 0, ['a', '\x00']⟩, .packet 1 ⟨1, 0, 0, ['b', '\x00']⟩,
    .packet 0 ⟨3, 0, role, ['b', '\x00']⟩]

theorem invitation_named : ∀ {es : List ServerEvent} {s : ServerState},
    (∀ e ∈ es, ∀ i p, e = .packet i p → p.kind = .invite → p.role = 1 ∨ p.role = 2) →
      NamedRun inviting zeroed es s
  | [], _, _ => trivial
  | _ :: _, _, h => ⟨fun i p _ he _ _ hk => h _ List.mem_cons_self i p he hk,
      fun _ _ => invitation_named fun e he => h e (List.mem_cons_of_mem _ he)⟩

theorem fit_of_named_sample : FitRun inviting zeroed (invitationEvents 2)
    (ServerState.initial fun c => c) := by
  refine fit_of_named inviting_passes zeroed _ _ (invitation_named ?_)
  intro e he i p hp hk
  simp only [invitationEvents, List.mem_cons, List.not_mem_nil, or_false] at he
  rcases he with rfl | rfl | rfl | rfl | rfl <;> cases hp
  · cases hk
  · cases hk
  · exact .inr rfl

theorem FitRun.after {M : ClientModule} {storage : Storage} : ∀ {es : List ServerEvent}
    {s t : ServerState}, FitRun M storage es s → s.after M storage es = some t → Fit t.world
  | [], _, _, h, ht => by
    cases ht
    exact h
  | _ :: _, _, _, h, ht => by
    obtain ⟨s', hs, ht⟩ := Option.bind_eq_some_iff.mp ht
    exact (h.2 s' (.of_next hs)).after ht

/-- The role byte of the INVITE is 0. -/
theorem null_role_invited : ¬ FitRun inviting zeroed (invitationEvents 0)
    (ServerState.initial fun c => c) := by
  intro h
  have hrole : (((ServerState.initial fun c => c).after inviting zeroed (invitationEvents 0)).bind
      fun s => (invitation 0).get s.world).map Invitation.invTargetGameRole = some .nullRole := by
    decide +kernel
  obtain ⟨I, hI, hnull⟩ := Option.map_eq_some_iff.mp hrole
  obtain ⟨s, hs, hI⟩ := Option.bind_eq_some_iff.mp hI
  exact ((h.after hs 0 I hI).2 _ (.inr rfl)).1 hnull

end StarterProjects.Jeux
