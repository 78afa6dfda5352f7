import StarterProjects.Jeux.Server
import StarterProjects.Lib.Last

/-!
# Packets without a payload

The pointer to the payload of an empty packet is NULL, and nobody between the connection and
`strlen` looks at it. `nullHandled_iff` says in which runs of the service thread this does no harm:
a LOGIN without a payload has to come after the login, and an INVITE without one before it.

The transcript is looked at wherever the run ends, since a run that reads a string through NULL
does not return.
-/

namespace StarterProjects.Jeux

open Lib

/-! ## What is asked of the transcript -/

/-- The callee reads the payload as a string. -/
def Operation.ReadsPayload (op : Operation) : Prop := op = .pregRegister ∨ op = .cregLookup

/-- What follows a packet in the transcript: NULL is not passed for a string, and where a string
is missing the answer is a NACK. -/
structure NullHandledBy (p : Packet) (next : List Event) : Prop where
  passed : p.pointer = none → ∀ op : Operation, op.ReadsPayload → next.head? ≠ some (.called op)
  answered : p.pointer = none → p.kind = .login ∨ p.kind = .invite →
    next.head? = some (.sent .nack)

def NullHandled : List Event → Prop
  | [] => True
  | .received p :: es => NullHandledBy p es ∧ NullHandled es
  | .called _ :: es => NullHandled es
  | .sent _ :: es => NullHandled es

/-! ## What is asked of the run -/

/-- A packet from which the thread is going to read a string has one; the others it can refuse. -/
def TextGiven (client : Option ClientPtr) (loggedIn : Bool) (p : Packet) : Prop :=
  p.pointer = none →
    (p.kind = .login → loggedIn = true ∧ client ≠ none) ∧
    (p.kind = .invite → loggedIn = false ∧ client ≠ none)

/-- So it is with every packet that the thread comes to. -/
def TextsGiven (M : ClientModule) (storage : Storage) (client : Option ClientPtr) :
    Bool → List Arrival → World × List Event → Prop
  | _, [], _ => True
  | loggedIn, a :: rest, s => TextGiven client loggedIn a.packet ∧
      ∀ loggedIn' s', (serve M storage client loggedIn a.packet).run
          (a.others s.1, s.2 ++ [.received a.packet]) = .ok (loggedIn', s') →
        TextsGiven M storage client loggedIn' rest s'

/-! ## What one packet adds to the transcript -/

/-- No packet is received in between. -/
def Quiet (s s' : World × List Event) : Prop :=
  ∃ new, s'.2 = s.2 ++ new ∧ ∀ p, Event.received p ∉ new

instance : IsPreorder (World × List Event) Quiet where
  refl := fun s => ⟨[], (List.append_nil _).symm, fun _ => List.not_mem_nil⟩
  trans := by
    rintro s t u ⟨new, ht, hnew⟩ ⟨new', hu, hnew'⟩
    refine ⟨new ++ new', by rw [hu, ht, List.append_assoc], fun p hp => ?_⟩
    exact (List.mem_append.mp hp).elim (hnew p) (hnew' p)

theorem quiet_silent {α : Type} (p : Prog World α) :
    Along Quiet (p.silent : Service α) := fun s =>
  ⟨[], by rw [Prog.silent_last p s.1 s.2, List.append_nil], fun _ => List.not_mem_nil⟩

theorem quiet_emit {e : Event} (he : ∀ p, e ≠ .received p) :
    Along Quiet (Prog.emit e : Service Unit) := fun _ =>
  ⟨[e], rfl, fun p hp => he p (List.mem_singleton.mp hp).symm⟩

theorem quiet_call {α : Type} (op : Operation) (p : Prog World α) : Along Quiet (call op p) :=
  (quiet_emit fun _ => Event.noConfusion).bind fun _ => quiet_silent p

theorem quiet_send (client : Option ClientPtr) (r : Reply) : Along Quiet (send client r) := by
  cases client with
  | none => exact Along.stop _
  | some c => exact quiet_emit fun _ => Event.noConfusion

theorem quiet_sendResult (client : Option ClientPtr) (res : Int) :
    Along Quiet (sendResult client res) :=
  (quiet_send _ _).ite (quiet_send _ _)

/-- The program begins with this event; without one it does not return. -/
def Opens {α : Type} (first : Option Event) (p : Service α) : Prop :=
  ∀ s, ∃ new, (p.last s).2 = s.2 ++ new ∧ (∀ q, Event.received q ∉ new) ∧ new.head? = first ∧
    (first = none → ∀ r, p.run s ≠ .ok r)

section Opens

variable {α β : Type} {k : α → Service β}

theorem opens_emit {e : Event} (he : ∀ p, e ≠ .received p) :
    Opens (some e) (Prog.emit e : Service Unit) := fun _ =>
  ⟨[e], rfl, fun p hp => he p (List.mem_singleton.mp hp).symm, rfl, fun h => nomatch h⟩

theorem Opens.bind {e : Event} {p : Service α} (hp : Opens (some e) p)
    (hk : ∀ a, Along Quiet (k a)) : Opens (some e) (p >>= k) := by
  intro s
  obtain ⟨new, hnew, hquiet, hfirst, -⟩ := hp s
  cases hrun : p.run s with
  | error r =>
    exact ⟨new, by rw [Prog.last_bind_error hrun, hnew], hquiet, hfirst, fun h => nomatch h⟩
  | ok res =>
    obtain ⟨a, s'⟩ := res
    obtain ⟨new', hnew', hquiet'⟩ := hk a s'
    rw [Prog.last_of_run hrun] at hnew
    refine ⟨new ++ new', ?_, fun p hp => ?_, ?_, fun h => nomatch h⟩
    · rw [Prog.last_bind_ok hrun, hnew', hnew, List.append_assoc]
    · exact (List.mem_append.mp hp).elim (hquiet p) (hquiet' p)
    · rw [List.head?_append, hfirst, Option.some_or]

theorem opens_call (op : Operation) (p : Prog World α) (hk : ∀ a, Along Quiet (k a)) :
    Opens (some (.called op)) (call op p >>= k) :=
  ((opens_emit fun _ => Event.noConfusion).bind fun _ => quiet_silent p).bind hk

/-- A NACK can be sent to a client only. -/
def refusal (client : Option ClientPtr) : Option Event := client.map fun _ => .sent .nack

theorem opens_refusal (client : Option ClientPtr) {b : Bool} :
    Opens (refusal client) (send client .nack >>= fun _ => Prog.ret b) := by
  cases client with
  | none =>
    intro s
    refine ⟨[], (List.append_nil _).symm, fun _ => List.not_mem_nil, rfl, fun _ _ h => ?_⟩
    cases h
  | some c => exact (opens_emit fun _ => Event.noConfusion).bind fun _ => Along.ret _

end Opens

/-- The call that a packet is served with. -/
def PacketType.operation : PacketType → Option Operation
  | .login => some .pregRegister
  | .users => some .cregAllPlayers
  | .invite => some .cregLookup
  | .revoke => some .revokeInvitation
  | .decline => some .declineInvitation
  | .accept => some .acceptInvitation
  | .move => some .makeMove
  | .resign => some .resignGame
  | .unknown => none

/-- The first event after a packet. -/
def firstEvent (client : Option ClientPtr) (loggedIn : Bool) (k : PacketType) : Option Event :=
  if loggedIn = decide (k = .login) then refusal client
  else (k.operation.map Event.called).or (refusal client)

section Serve

variable (M : ClientModule) (storage : Storage) (client : Option ClientPtr) (loggedIn : Bool)
  (p : Packet)

theorem honoured_opens {body : Service Unit} {op : Operation} {k : PacketType}
    (hk : k ≠ .login) (hop : k.operation = some op) (hbody : Opens (some (.called op)) body) :
    Opens (firstEvent client loggedIn k) (honoured client loggedIn body) := by
  unfold firstEvent
  rw [decide_eq_false hk, hop]
  cases loggedIn with
  | false => exact opens_refusal client
  | true => exact hbody.bind fun _ => Along.ret _

theorem serve_login_opens :
    Opens (firstEvent client loggedIn .login) (serve_login M client loggedIn p) := by
  cases loggedIn with
  | true => exact opens_refusal client
  | false =>
    refine opens_call _ _ fun curPlayer => (quiet_call _ _).bind fun res => Along.ite ?_ ?_
    · exact (quiet_send _ _).bind fun _ => Along.ret _
    · exact (quiet_send _ _).bind fun _ => Along.ret _

theorem serve_users_opens : Opens (some (.called .cregAllPlayers)) (serve_users storage client) :=
  opens_call _ _ fun _ => (quiet_silent _).bind fun _ => quiet_send _ _

theorem serve_invite_opens : Opens (some (.called .cregLookup)) (serve_invite M client p) :=
  opens_call _ _ fun _ => (quiet_call _ _).bind fun _ => (quiet_send _ _).ite (quiet_send _ _)

theorem serve_accept_opens :
    Opens (some (.called .acceptInvitation)) (serve_accept M client p) := by
  refine opens_call _ _ fun res => Along.ite ?_ (quiet_send _ _)
  cases res.2 with
  | some text => exact quiet_send _ _
  | none => exact quiet_send _ _

/-- One case for each type of packet. -/
theorem serve_opens :
    Opens (firstEvent client loggedIn p.kind) (serve M storage client loggedIn p) := by
  have simple : ∀ {op : Operation} (q : Prog World Int), Opens (some (.called op))
      (call op q >>= fun res => sendResult client res) := fun q =>
    opens_call _ q fun _ => quiet_sendResult _ _
  unfold serve
  cases hk : p.kind with
  | login => exact serve_login_opens M client loggedIn p
  | users => exact honoured_opens client loggedIn nofun rfl (serve_users_opens storage client)
  | invite => exact honoured_opens client loggedIn nofun rfl (serve_invite_opens M client p)
  | revoke => exact honoured_opens client loggedIn nofun rfl (simple _)
  | decline => exact honoured_opens client loggedIn nofun rfl (simple _)
  | accept => exact honoured_opens client loggedIn nofun rfl (serve_accept_opens M client p)
  | move => exact honoured_opens client loggedIn nofun rfl (simple _)
  | resign => exact honoured_opens client loggedIn nofun rfl (simple _)
  | unknown =>
    have hfirst : firstEvent client loggedIn .unknown = refusal client := by
      cases loggedIn with
      | false => rfl
      | true => rfl
    rw [hfirst]
    exact opens_refusal client

end Serve

/-! ## Runs -/

theorem nullHandled_append {new : List Event} (es : List Event)
    (h : ∀ p, Event.received p ∉ new) :
    NullHandled (new ++ es) ↔ NullHandled es := by
  induction new with
  | nil => exact Iff.rfl
  | cons e new ih =>
    have hrest := ih fun p hp => h p (List.mem_cons_of_mem e hp)
    cases e with
    | received p => exact absurd List.mem_cons_self (h p)
    | called op => exact hrest
    | sent r => exact hrest

/-- The first event tells whether NULL was handled. -/
theorem nullHandledBy_iff {client : Option ClientPtr} {loggedIn : Bool} {p : Packet}
    {next : List Event} (h : next.head? = firstEvent client loggedIn p.kind) :
    NullHandledBy p next ↔ TextGiven client loggedIn p := by
  have hfields : NullHandledBy p next ↔ (p.pointer = none →
      (∀ op : Operation, op.ReadsPayload → firstEvent client loggedIn p.kind ≠ some (.called op)) ∧
      (p.kind = .login ∨ p.kind = .invite →
        firstEvent client loggedIn p.kind = some (.sent .nack))) := by
    rw [← h]
    exact ⟨fun hn hp => ⟨hn.passed hp, hn.answered hp⟩, fun hn => ⟨fun hp => (hn hp).1,
      fun hp => (hn hp).2⟩⟩
  rw [hfields, TextGiven]
  refine imp_congr_right fun _ => ?_
  generalize p.kind = k
  -- a string is read by the calls for LOGIN and INVITE, and only these are asked about
  cases k <;> cases loggedIn <;> cases client <;>
    simp [firstEvent, refusal, PacketType.operation, Operation.ReadsPayload]

section Loop

variable (M : ClientModule) (storage : Storage) (client : Option ClientPtr)

/-- The induction is on the packets. -/
theorem loop_nullHandled_iff : ∀ (arrivals : List Arrival) (loggedIn : Bool)
    (s : World × List Event), ∃ new,
      ((service_loop M storage client loggedIn arrivals).last s).2 = s.2 ++ new ∧
        (NullHandled new ↔ TextsGiven M storage client loggedIn arrivals s)
  | [], _, s => ⟨[], (List.append_nil _).symm, Iff.rfl⟩
  | a :: rest, loggedIn, s => by
    have hrecv : (proto_recv_packet a).run s =
        .ok (a.packet, (a.others s.1, s.2 ++ [.received a.packet])) := rfl
    obtain ⟨new, hnew, hquiet, hfirst, hstops⟩ := serve_opens M storage client loggedIn a.packet
      (a.others s.1, s.2 ++ [.received a.packet])
    have hhandled := fun later => nullHandled_append later hquiet
    rw [service_loop, Prog.last_bind_ok hrecv]
    unfold TextsGiven
    cases hrun : (serve M storage client loggedIn a.packet).run
        (a.others s.1, s.2 ++ [.received a.packet]) with
    | error r =>
      refine ⟨.received a.packet :: new, ?_, ?_⟩
      · rw [Prog.last_bind_error hrun, hnew, List.append_assoc]
        rfl
      · show NullHandledBy a.packet new ∧ NullHandled new ↔ _
        have hnone : NullHandled new := by
          have h := hhandled []
          rw [List.append_nil] at h
          exact h.mpr trivial
        rw [nullHandledBy_iff hfirst]
        exact and_congr_right fun _ => iff_of_true hnone fun _ _ h => nomatch h
    | ok res =>
      obtain ⟨loggedIn', s'⟩ := res
      obtain ⟨later, hlater, hiff⟩ := loop_nullHandled_iff rest loggedIn' s'
      have hne : new ≠ [] := by
        rintro rfl
        exact hstops hfirst.symm _ hrun
      rw [Prog.last_of_run hrun] at hnew
      refine ⟨.received a.packet :: (new ++ later), ?_, ?_⟩
      · rw [Prog.last_bind_ok hrun, hlater, hnew, List.append_assoc, List.append_assoc]
        rfl
      · show NullHandledBy a.packet (new ++ later) ∧ NullHandled (new ++ later) ↔ _
        rw [nullHandledBy_iff (by rw [List.head?_append_of_ne_nil _ hne, hfirst]), hhandled, hiff]
        refine and_congr_right fun _ => ⟨fun h loggedIn₁ s₁ he => ?_, fun h => h _ _ rfl⟩
        cases he
        exact h

end Loop

/-- NULL is handled in a run exactly when the packets without a payload that the thread comes to are
such as it can refuse, and it has a client to refuse them to. -/
theorem nullHandled_iff (M : ClientModule) (storage : Storage) (newClient : ClientPtr)
    (arrivals : List Arrival) (w : World) :
    NullHandled ((jeux_client_service M storage newClient arrivals).last (w, [])).2 ↔
      ∀ client w', (creg_register newClient).run w = .ok (client, w') →
        TextsGiven M storage client false arrivals (w', []) := by
  cases hrun : (creg_register newClient).run w with
  | error r =>
    have hreg : ((creg_register newClient).silent : Service _).run (w, []) = .error r := by
      rw [Prog.silent_run, hrun]
      rfl
    rw [jeux_client_service, Prog.last_bind_error hreg, Prog.silent_last]
    exact iff_of_true trivial fun _ _ h => nomatch h
  | ok res =>
    obtain ⟨client, w'⟩ := res
    obtain ⟨new, hnew, hiff⟩ := loop_nullHandled_iff M storage client arrivals false (w', [])
    rw [jeux_client_service, Prog.last_bind_ok (Prog.silent_ok [] hrun), hnew, List.nil_append,
      hiff]
    refine ⟨fun h client₁ w₁ he => ?_, fun h => h _ _ rfl⟩
    cases he
    exact h

/-- The first packet is a LOGIN without a payload. -/
theorem null_registered : ¬ NullHandled ((jeux_client_service lonely zeroed 0
    [⟨id, ⟨1, 0, 0, []⟩⟩]).last (World.initial fun _ => 4, [])).2 :=
  fun h => absurd (h.1.answered rfl (Or.inl rfl)) nofun

end StarterProjects.Jeux
