import StarterProjects.Jeux.Server

/-!
# The server with all its connections

Clients connect, send packets and disconnect in any order. A step of the server is one of
these: a thread starts and registers its connection, a thread serves one packet, or a thread
finds that no packet comes any more and returns. Between two steps no thread holds anything;
what a thread does within a step it does alone.

How far most of these steps go is collected here once: serving a packet changes neither the
count nor the members of the client registry, and none but an INVITE makes an invitation,
unless the client module does.
-/

namespace StarterProjects.Jeux

open Lib

/-- A connection: what `creg_register` returned for it, and the thread's `loggedIn`. The
thread of a connection that is not open has returned. -/
structure Connection where
  client : Option ClientPtr
  loggedIn : Bool
  isOpen : Bool

structure ServerState where
  world : World
  connections : List Connection

def ServerState.initial (clientFd : ClientPtr → Int) : ServerState where
  world := World.initial clientFd
  connections := []

inductive ServerEvent where
  /-- A client connects; `client_create` returns `newClient`. -/
  | connect (newClient : ClientPtr)
  | packet (i : Nat) (p : Packet)
  | hangup (i : Nat)

/-- A step of the thread of one connection. -/
inductive ServerStep (M : ClientModule) (storage : Storage) :
    ServerState → ServerEvent → ServerState → Prop
  | connect {s newClient client? w} :
      (creg_register newClient).run s.world = .ok (client?, w) →
      ServerStep M storage s (.connect newClient)
        ⟨w, s.connections ++ [⟨client?, false, true⟩]⟩
  | packet {s i p c loggedIn w es} : s.connections[i]? = some c → c.isOpen = true →
      (serve M storage c.client c.loggedIn p).run (s.world, []) = .ok (loggedIn, (w, es)) →
      ServerStep M storage s (.packet i p)
        ⟨w, s.connections.set i { c with loggedIn := loggedIn }⟩
  | hangup {s i c w es} : s.connections[i]? = some c → c.isOpen = true →
      (service_loop M storage c.client c.loggedIn []).run (s.world, []) = .ok ((), (w, es)) →
      ServerStep M storage s (.hangup i) ⟨w, s.connections.set i { c with isOpen := false }⟩

/-- The step, when there is one. -/
def ServerState.next (M : ClientModule) (storage : Storage) (s : ServerState) :
    ServerEvent → Option ServerState
  | .connect newClient => match (creg_register newClient).run s.world with
    | .ok (client?, w) => some ⟨w, s.connections ++ [⟨client?, false, true⟩]⟩
    | .error _ => none
  | .packet i p => s.connections[i]?.bind fun c =>
    if c.isOpen then match (serve M storage c.client c.loggedIn p).run (s.world, []) with
      | .ok (loggedIn, (w, _)) =>
        some ⟨w, s.connections.set i { c with loggedIn := loggedIn }⟩
      | .error _ => none
    else none
  | .hangup i => s.connections[i]?.bind fun c =>
    if c.isOpen then some ⟨s.world, s.connections.set i { c with isOpen := false }⟩ else none

theorem ServerStep.of_next {M : ClientModule} {storage : Storage} {s s' : ServerState}
    {e : ServerEvent} (h : s.next M storage e = some s') : ServerStep M storage s e s' := by
  cases e with
  | connect newClient =>
    cases hreg : (creg_register newClient).run s.world with
    | error r =>
      simp only [ServerState.next, hreg] at h
      cases h
    | ok r =>
      simp only [ServerState.next, hreg] at h
      cases h
      exact .connect hreg
  | packet i p =>
    obtain ⟨c, hi, h⟩ := Option.bind_eq_some_iff.mp h
    split at h
    · next hopen =>
      split at h
      · next hserve =>
        cases h
        exact .packet hi hopen hserve
      · cases h
    · cases h
  | hangup i =>
    obtain ⟨c, hi, h⟩ := Option.bind_eq_some_iff.mp h
    split at h
    · next hopen =>
      cases h
      exact .hangup hi hopen rfl
    · cases h

/-- The state after a list of events. -/
def ServerState.after (M : ClientModule) (storage : Storage) :
    List ServerEvent → ServerState → Option ServerState
  | [], s => some s
  | e :: es, s => (s.next M storage e).bind (ServerState.after M storage es)

/-! ## How far serving a packet goes -/

/-- Neither a change to the players and their registry nor one to the semaphores of the
client registry goes beyond `R`. -/
structure Aside (R : World → World → Prop) : Prop where
  players : ∀ g w, R w (players.modify g w)
  preg : ∀ g w, R w (preg.modify g w)
  locks : ∀ g w, (∀ r, (g r).clientCount = r.clientCount ∧ (g r).registered = r.registered) →
    R w (creg.modify g w)

/-- None of the calls but `client_make_invitation` goes beyond `R`. -/
structure ClientModule.Within (M : ClientModule) (R : World → World → Prop) : Prop where
  login : ∀ c player?, Lib.Within R (M.client_login c player?)
  revoke : ∀ c id, Lib.Within R (M.client_revoke_invitation c id)
  decline : ∀ c id, Lib.Within R (M.client_decline_invitation c id)
  accept : ∀ c id, Lib.Within R (M.client_accept_invitation c id)
  move : ∀ c id move, Lib.Within R (M.client_make_move c id move)
  resign : ∀ c id, Lib.Within R (M.client_resign_game c id)

section Aside

variable {R : World → World → Prop} [IsPreorder World R] (hR : Aside R)

theorem within_player_get_name (player? : Option PlayerPtr) :
    Within R (player_get_name player?) := by
  cases player? with
  | none => exact .ret _
  | some p => exact .bind .read fun _ => .ret _

theorem within_player_get_rating (player? : Option PlayerPtr) :
    Within R (player_get_rating player?) := by
  cases player? with
  | none => exact .ret _
  | some p => exact .bind .read fun _ => .ret _

theorem within_strcmp_eq (s : Option CString) (t : CString) : Within R (strcmp_eq s t) := by
  cases s with
  | none => exact .stop _
  | some s => exact .ret _

/-- A node is compared, and then either way nothing changes. -/
theorem within_compare {α : Type} {player? : Option PlayerPtr} {user : CString}
    {k : Bool → Prog World α} (hk : ∀ b, Within R (k b)) :
    Within R (do k (← strcmp_eq (← player_get_name player?) user)) :=
  (within_player_get_name _).bind fun _ => (within_strcmp_eq _ _).bind hk

include hR

theorem within_player_unref (player? : Option PlayerPtr) : Within R (player_unref player?) := by
  cases player? with
  | none => exact .ret _
  | some p =>
    have hcell : ∀ g w, R w ((player p).modify g w) := fun g w => hR.players _ w
    refine .bind (.take fun w => hcell _ w) fun _ => .bind (.update fun w => hcell _ w) fun _ =>
      .bind .read fun _ => .bind (.update fun w => hcell _ w) fun _ => ?_
    exact .ite (.free hR.players) (.ret _)

theorem within_V : Within R (V creg registryLock) :=
  .update fun w => hR.locks _ w fun _ => ⟨rfl, rfl⟩

theorem within_P : Within R (P creg registryLock) :=
  .take fun w => hR.locks _ w fun _ => ⟨rfl, rfl⟩

theorem within_creg_search (user : CString) :
    ∀ nodes, Within R (creg_search user nodes)
  | [] => (within_V hR).bind fun _ => .ret _
  | _ :: rest => (Within.ask _).bind fun _ => within_compare fun _ =>
      .ite ((within_V hR).bind fun _ => .ret _) (within_creg_search user rest)

theorem within_creg_lookup (user : CString) : Within R (creg_lookup user) := by
  refine (within_P hR).bind fun _ => Within.read.bind fun r => ?_
  cases r.nodes with
  | nil => exact .ret _
  | cons c rest =>
    exact (Within.ask _).bind fun _ => within_compare fun _ =>
      .ite ((within_V hR).bind fun _ => .ret _) (within_creg_search hR user (c :: rest))

theorem within_creg_fill : ∀ (nodes : List ClientPtr) (count : Nat)
    (player_array : List (Option PlayerPtr)), Within R (creg_fill count nodes player_array)
  | [], _, _ => .ret _
  | _ :: rest, _, _ => .ite ((Within.ask _).bind fun _ => (within_player_unref hR _).bind fun _ =>
      within_creg_fill rest _ _) (.stop _)

theorem within_creg_all_players (storage : Nat → Option PlayerPtr) :
    Within R (creg_all_players storage) := by
  have leave : ∀ array : List (Option PlayerPtr),
      Within R (V creg registryLock >>= fun _ => Prog.ret array) := fun _ =>
    (within_V hR).bind fun _ => .ret _
  refine (within_P hR).bind fun _ => Within.read.bind fun r => ?_
  exact .ite (.stop _) (.ite (leave _) ((within_creg_fill hR _ _ _).bind fun _ =>
    .ite (leave _) (.stop _)))

omit hR in
theorem within_preg_walk (name : CString) : ∀ nodes, Within R (preg_walk name nodes)
  | [] => .ret _
  | [_] => .ret _
  | _ :: q :: rest => within_compare fun _ => .ite (.ret _) (within_preg_walk name (q :: rest))

omit hR in
theorem within_preg_player_exists (name : CString) : Within R (preg_player_exists name) := by
  refine Within.read.bind fun r => ?_
  cases r.nodes with
  | nil => exact .ret _
  | cons p rest =>
    exact within_compare fun _ => .ite (.ret _) (within_preg_walk name (p :: rest))

theorem within_preg_register (name : CString) : Within R (preg_register name) := by
  have hV : Within R (V preg pregLock) := .update fun w => hR.preg _ w
  have enroll : ∀ (g : PlayerRegistry → PlayerRegistry) (p : PlayerPtr), Within R
      (preg.update g >>= fun _ => V preg pregLock >>= fun _ => Prog.ret (some p)) := fun g p =>
    .bind (.update fun w => hR.preg _ w) fun _ => hV.bind fun _ => .ret _
  refine .bind (.ite (.malloc hR.players) (.stop _)) fun newPlayer =>
    .bind (.take fun w => hR.preg _ w) fun _ => (within_preg_player_exists name).bind
      fun found => ?_
  refine .ite ?_ (Within.read.bind fun r => .ite (enroll _ _) (enroll _ _))
  exact .bind (.free hR.players) fun _ => hV.bind fun _ => within_preg_player_exists name

omit hR in
theorem within_strcat (buf : List Char) (s : CString) : Within R (strcat buf s) :=
  .ite (.ret _) (.stop _)

omit hR in
theorem within_users_line (storage : Storage) (retStr : Option (List Char)) (p : PlayerPtr) :
    Within R (users_line storage retStr p) := by
  refine (within_player_get_rating _).bind fun rating => .ite ?_ (.stop _)
  refine (within_player_get_name _).bind fun name? => ?_
  cases name? with
  | none => exact .stop _
  | some name =>
    exact (within_strcat _ _).bind fun _ => (within_strcat _ _).bind fun _ =>
      (within_strcat _ _).bind fun _ => within_strcat _ _

omit hR in
theorem within_users_loop (storage : Storage) : ∀ (playerArr : List (Option PlayerPtr))
    (retStr : Option (List Char)), Within R (users_loop storage playerArr retStr)
  | [], _ => .stop _
  | none :: _, _ => .ret _
  | some p :: rest, _ => (within_users_line storage _ p).bind fun _ =>
      within_users_loop storage rest _

omit hR in
theorem within_users_text (storage : Storage) (playerArr : List (Option PlayerPtr)) :
    Within R (users_text storage playerArr) := by
  refine (within_users_loop storage playerArr none).bind fun retStr => ?_
  cases retStr.bind stringIn with
  | none => exact .stop _
  | some text => exact .ret _

end Aside

section Serve

variable {R : World → World → Prop} [IsPreorder World R] {M : ClientModule} {storage : Storage}
  {client? : Option ClientPtr}

theorem within_send (r : Reply) : Within (Beside R) (send client? r) := by
  cases client? with
  | none => exact .stop _
  | some c => exact .emit _

theorem within_call {α γ : Type} {op : Operation} {p : Prog World α} {k : α → Service γ}
    (hp : Within R p) (hk : ∀ a, Within (Beside R) (k a)) :
    Within (Beside R) (call op p >>= k) :=
  .bind (.bind (.emit _) fun _ => hp.silent) hk

omit [IsPreorder World R] in
theorem within_withText {α : Type} {p : Packet} {g : CString → Prog World α}
    (hg : ∀ text, Within R (g text)) : Within R (withText p g) := by
  unfold withText
  cases p.text with
  | none => exact .stop _
  | some text => exact hg text

theorem within_sendResult (res : Int) : Within (Beside R) (sendResult client? res) :=
  .ite (within_send _) (within_send _)

theorem within_honoured {loggedIn : Bool} {body : Service Unit}
    (hbody : loggedIn = true → Within (Beside R) body) :
    Within (Beside R) (honoured client? loggedIn body) := by
  cases loggedIn with
  | false => exact (within_send _).bind fun _ => .ret _
  | true => exact (hbody rfl).bind fun _ => .ret _

theorem within_serve_login (hR : Aside R) (hM : M.Within R) (loggedIn : Bool) (p : Packet) :
    Within (Beside R) (serve_login M client? loggedIn p) := by
  cases loggedIn with
  | true => exact (within_send _).bind fun _ => .ret _
  | false =>
    refine within_call (within_withText fun _ => within_preg_register hR _) fun player? =>
      within_call (hM.login _ _) fun res => ?_
    exact .ite ((within_send _).bind fun _ => .ret _) ((within_send _).bind fun _ => .ret _)

theorem within_serve_users (hR : Aside R) : Within (Beside R) (serve_users storage client?) :=
  within_call (within_creg_all_players hR _) fun _ =>
    .bind (within_users_text storage _).silent fun _ => within_send _

theorem within_serve_invite (hR : Aside R) {p : Packet}
    (hmake : ∀ target?, Within R (M.client_make_invitation client? target?
      (GameRole.ofNat (if p.role.toNat = 2 then 1 else 2)) (GameRole.ofNat p.role.toNat))) :
    Within (Beside R) (serve_invite M client? p) :=
  within_call (within_withText fun _ => within_creg_lookup hR _) fun _ =>
    within_call (hmake _) fun _ => .ite (within_send _) (within_send _)

theorem within_serve_accept (hM : M.Within R) (p : Packet) :
    Within (Beside R) (serve_accept M client? p) := by
  refine within_call (hM.accept _ _) fun res => .ite ?_ (within_send _)
  cases res.2 with
  | none => exact within_send _
  | some text => exact within_send _

/-- An honoured INVITE is the only packet that needs more than `hM`. -/
theorem within_serve (hR : Aside R) (hM : M.Within R) {loggedIn : Bool} {p : Packet}
    (hinvite : p.kind = .invite → loggedIn = true →
      Within (Beside R) (serve_invite M client? p)) :
    Within (Beside R) (serve M storage client? loggedIn p) := by
  have simple : ∀ {op : Operation} {q : Prog World Int}, Within R q → Within (Beside R)
      (honoured client? loggedIn (call op q >>= fun res => sendResult client? res)) := fun hq =>
    within_honoured fun _ => within_call hq fun _ => within_sendResult _
  unfold serve
  cases hk : p.kind with
  | login => exact within_serve_login hR hM _ _
  | users => exact within_honoured fun _ => within_serve_users hR
  | invite => exact within_honoured fun hb => hinvite hk hb
  | revoke => exact simple (hM.revoke _ _)
  | decline => exact simple (hM.decline _ _)
  | accept => exact within_honoured fun _ => within_serve_accept hM _
  | move => exact simple (hM.move _ _ _)
  | resign => exact simple (hM.resign _ _)
  | unknown => exact (within_send _).bind fun _ => .ret _

end Serve

end StarterProjects.Jeux
