import StarterProjects.Jeux.Returning
import StarterProjects.Jeux.Server

/-!
# One reply for each packet

The service thread answers each packet with one ACK or NACK, honours nothing but LOGIN
before the first successful LOGIN, and no LOGIN after it: so the thread is written, and so
it runs as long as what it calls returns. It does not look at what the packet holds. The
name in a LOGIN and the user in an INVITE are read as C strings, whether the payload is
absent, not terminated, or too long for a player; `creg_lookup` compares the names of
clients that are not logged in; and the answer to USERS is put together in memory that is
too small for it (`users_unanswered`). What the functions of `client.h` do with the rest of a
packet is theirs: a packet is answered when the function that is called for it returns.

`answers_of_safe`: a run with none of these, whose calls return, is answered throughout.
-/

namespace StarterProjects.Jeux

open Lib Lib.Exec

/-! ## What is promised -/

/-- The transcript of one packet: calls, then one reply. A packet other than LOGIN before
the login, and LOGIN after it, makes no call and gets a NACK. -/
def Answered (loggedIn : Bool) (p : Packet) (loggedIn' : Bool) (new : List Event) : Prop :=
  ∃ (ops : List Operation) (reply : Reply), new = ops.map .called ++ [.sent reply] ∧
    (loggedIn = decide (p.kind = .login) → ops = [] ∧ reply = .nack) ∧
    (loggedIn' = true ↔ loggedIn = true ∨ p.kind = .login ∧ reply ≠ .nack)

/-- The transcript of a connection on which these packets came: each is answered, in order,
before the next one is received. -/
def Answers : Bool → List Packet → List Event → Prop
  | _, [], es => es = []
  | loggedIn, p :: ps, es => ∃ new rest loggedIn', es = .received p :: (new ++ rest) ∧
      Answered loggedIn p loggedIn' new ∧ Answers loggedIn' ps rest

/-! ## Packets that are safe to serve -/

/-- The first LOGIN carries a terminated name that fits into a player, an INVITE a
terminated name that can be searched for, and there is no USERS. The registries are free.
The function of the client module that is called for the packet returns, in the state in
which it is called. -/
def Servable (M : ClientModule) (c : ClientPtr) (w : World) (loggedIn : Bool) (p : Packet) :
    Prop :=
  match p.kind with
  | .login => loggedIn = false → ∃ name, p.text = some name ∧ name.length < NAME_MAX_LENGTH ∧
      w.pregState.registryLock = 1 ∧ Met w name (compared w.pregState.nodes) ∧
      ∀ player? w', (preg_register name).run w = .ok (player?, w') →
        Returns (M.client_login (some c) player?).run w'
  | .users => loggedIn = false
  | .invite => loggedIn = true → ∃ user, p.text = some user ∧
      w.cregState.registryLock = 1 ∧ Searchable w user w.cregState.nodes ∧
      ∀ target? w', (creg_lookup user).run w = .ok (target?, w') →
        Returns (M.client_make_invitation (some c) target?
          (GameRole.ofNat (if p.role.toNat = 2 then 1 else 2)) (GameRole.ofNat p.role.toNat)).run w'
  | .revoke => loggedIn = true → Returns (M.client_revoke_invitation (some c) p.id).run w
  | .decline => loggedIn = true → Returns (M.client_decline_invitation (some c) p.id).run w
  | .accept => loggedIn = true → Returns (M.client_accept_invitation (some c) p.id).run w
  | .move => loggedIn = true → Returns (M.client_make_move (some c) p.id p.pointer).run w
  | .resign => loggedIn = true → Returns (M.client_resign_game (some c) p.id).run w
  | .unknown => True

/-- Every packet is safe to serve when it comes. -/
def SafeRun (M : ClientModule) (storage : Storage) (c : ClientPtr) :
    Bool → List Arrival → World → Prop
  | _, [], _ => True
  | loggedIn, a :: rest, w => Servable M c (a.others w) loggedIn a.packet ∧
      ∀ es loggedIn' s,
        (serve M storage (some c) loggedIn a.packet).run (a.others w, es) = .ok (loggedIn', s) →
          SafeRun M storage c loggedIn' rest s.1

/-- The connection gets a place in the registry, and its packets are safe. -/
def SafeConnection (M : ClientModule) (storage : Storage) (newClient : ClientPtr)
    (arrivals : List Arrival) (w : World) : Prop :=
  (w.cregState.registryLock = 1 ∧ w.cregState.clientCount < MAX_CLIENTS ∧
      (w.cregState.nodes = [] → w.cregState.notEmpty ≠ 0)) ∧
    SafeRun M storage newClient false arrivals (creg.set (w.cregState.joined newClient) w)

/-! ## Running the pieces -/

section Pieces

variable {α β : Type} {w w' : World} {es : List Event} {c : ClientPtr}

theorem ends_bind {σ : Type} {p : Prog σ α} {k : α → Prog σ β} {s s' : σ} {a : α}
    {R : β → σ → Prop} (h : p.run s = .ok (a, s')) (hk : Ends (k a).run s' R) :
    Ends (p >>= k).run s R := by
  unfold Ends
  rw [Prog.run_bind_ok h]
  exact hk

theorem ends_step {σ : Type} {p : Prog σ α} {k : α → Prog σ β} {s : σ} {Q : α → σ → Prop}
    {R : β → σ → Prop} (h : Ends p.run s Q) (hk : ∀ a s', Q a s' → Ends (k a).run s' R) :
    Ends (p >>= k).run s R := by
  obtain ⟨a, s', hp, hQ⟩ := h
  exact ends_bind hp (hk a s' hQ)

theorem call_run {op : Operation} {p : Prog World α} {a : α} (h : p.run w = .ok (a, w')) :
    (call op p).run (w, es) = .ok (a, (w', es ++ [.called op])) := by
  rw [call, Prog.run_bind_ok (Prog.emit_run _ _ _)]
  exact Prog.silent_ok _ h

theorem send_run (r : Reply) :
    (send (some c) r).run (w, es) = .ok ((), (w, es ++ [.sent r])) := rfl

/-- The rest of the transcript is some calls and one reply. -/
def OneReply (es : List Event) (s : World × List Event) : Prop :=
  ∃ (ops : List Operation) (reply : Reply), s.2 = es ++ (ops.map .called ++ [.sent reply])

theorem OneReply.called {op : Operation} {s : World × List Event}
    (h : OneReply (es ++ [.called op]) s) : OneReply es s := by
  obtain ⟨ops, reply, hs⟩ := h
  refine ⟨op :: ops, reply, ?_⟩
  rw [hs, List.append_assoc]
  rfl

theorem send_ends (r : Reply) :
    Ends (send (some c) r).run (w, es) fun _ s => OneReply es s :=
  .of_eq (send_run r) ⟨[], r, rfl⟩

/-- A call that returns, then something that replies. -/
theorem call_ends {op : Operation} {p : Prog World α} {k : α → Service Unit}
    (hp : Returns p.run w)
    (hk : ∀ a w' es, p.run w = .ok (a, w') →
      Ends (k a).run (w', es) fun _ s => OneReply es s) :
    Ends (call op p >>= k).run (w, es) fun _ s => OneReply es s := by
  obtain ⟨a, w', hp, -⟩ := hp
  exact ends_bind (call_run hp) ((hk a w' _ hp).mono fun _ _ => OneReply.called)

theorem sendResult_ends (res : Int) :
    Ends (sendResult (some c) res).run (w, es) fun _ s => OneReply es s := by
  unfold sendResult
  split
  · exact send_ends _
  · exact send_ends _

theorem withText_run {p : Packet} {text : CString} {f : CString → Prog World α}
    (h : p.text = some text) : withText p f = f text := by
  rw [withText, h]

end Pieces

/-! ## One packet -/

section Packet

variable {M : ClientModule} {storage : Storage} {c : ClientPtr} {w : World} {es : List Event}
  {p : Packet} {loggedIn : Bool}

/-- What the answer to one packet adds to the transcript. -/
def Adds (p : Packet) (loggedIn : Bool) (es : List Event) (loggedIn' : Bool)
    (s : World × List Event) : Prop :=
  ∃ new, s.2 = es ++ new ∧ Answered loggedIn p loggedIn' new

theorem refused_ends :
    Ends (send (some c) .nack >>= fun _ => Prog.ret loggedIn).run (w, es)
      (Adds p loggedIn es) := by
  refine ends_bind (send_run _) (.ret ⟨_, rfl, [], .nack, rfl, fun _ => ⟨rfl, rfl⟩, ?_⟩)
  exact ⟨.inl, fun ho => ho.resolve_right fun hc => hc.2 rfl⟩

theorem honoured_ends {body : Service Unit} (hk : p.kind ≠ .login)
    (hbody : loggedIn = true → Ends body.run (w, es) fun _ s => OneReply es s) :
    Ends (honoured (some c) loggedIn body).run (w, es) (Adds p loggedIn es) := by
  cases loggedIn with
  | false => exact refused_ends
  | true =>
    refine ends_step (hbody rfl) fun _ s hs => .ret ?_
    obtain ⟨ops, reply, hs⟩ := hs
    refine ⟨_, hs, ops, reply, rfl, fun hd => ?_, ⟨fun _ => .inl rfl, fun _ => rfl⟩⟩
    exact absurd (of_decide_eq_true hd.symm) hk

theorem serve_login_ends (hk : p.kind = .login)
    (h : loggedIn = false → ∃ name, p.text = some name ∧ name.length < NAME_MAX_LENGTH ∧
      w.pregState.registryLock = 1 ∧ Met w name (compared w.pregState.nodes) ∧
      ∀ player? w', (preg_register name).run w = .ok (player?, w') →
        Returns (M.client_login (some c) player?).run w') :
    Ends (serve_login M (some c) loggedIn p).run (w, es) (Adds p loggedIn es) := by
  cases loggedIn with
  | true => exact refused_ends
  | false =>
    obtain ⟨name, htext, hlen, hl, hmet, hcall⟩ := h rfl
    obtain ⟨player?, w₁, hreg, -⟩ := (preg_register_returns hl).mpr ⟨hlen, hmet⟩
    obtain ⟨res, w₂, hlogin, -⟩ := hcall player? w₁ hreg
    have hreg' : (withText p preg_register).run w = .ok (player?, w₁) := by
      rw [withText_run htext, hreg]
    have hnew : ∀ r : Reply, es ++ [.called .pregRegister] ++ [.called .clientLogin] ++ [.sent r] =
        es ++ ([Operation.pregRegister, .clientLogin].map .called ++ [.sent r]) := fun r => by
      simp only [List.map_cons, List.map_nil, List.append_assoc, List.cons_append, List.nil_append]
    refine ends_bind (call_run hreg') (ends_bind (call_run hlogin) ?_)
    by_cases h0 : res = 0
    · rw [if_pos h0]
      refine ends_bind (send_run _) (.ret ⟨_, hnew _, _, _, rfl, fun hd => ?_, ?_⟩)
      · exact absurd hk (of_decide_eq_false hd.symm)
      · exact ⟨fun _ => .inr ⟨hk, Reply.noConfusion⟩, fun _ => rfl⟩
    · rw [if_neg h0]
      refine ends_bind (send_run _) (.ret ⟨_, hnew _, _, _, rfl, fun hd => ?_, ?_⟩)
      · exact absurd hk (of_decide_eq_false hd.symm)
      · exact ⟨.inl, fun ho => ho.resolve_right fun hc => hc.2 rfl⟩

theorem serve_invite_ends {user : CString} (htext : p.text = some user)
    (hl : w.cregState.registryLock = 1) (h : Searchable w user w.cregState.nodes)
    (hcall : ∀ target? w', (creg_lookup user).run w = .ok (target?, w') →
      Returns (M.client_make_invitation (some c) target?
        (GameRole.ofNat (if p.role.toNat = 2 then 1 else 2))
        (GameRole.ofNat p.role.toNat)).run w') :
    Ends (serve_invite M (some c) p).run (w, es) fun _ s => OneReply es s := by
  have hlookup : (withText p creg_lookup).run w = (creg_lookup user).run w := by
    rw [withText_run htext]
  refine call_ends ((Returns.congr hlookup).mpr ((creg_lookup_returns hl).mpr h))
    fun target? w₁ es hrun => ?_
  refine call_ends (hcall target? w₁ (hlookup.symm.trans hrun)) fun id w₂ es _ => ?_
  by_cases hid : id ≠ -1
  · rw [if_pos hid]
    exact send_ends _
  · rw [if_neg hid]
    exact send_ends _

theorem serve_accept_ends (hcall : Returns (M.client_accept_invitation (some c) p.id).run w) :
    Ends (serve_accept M (some c) p).run (w, es) fun _ s => OneReply es s := by
  refine call_ends hcall fun res w' es _ => ?_
  obtain ⟨res, retMsg⟩ := res
  dsimp only
  by_cases h0 : res = 0
  · rw [if_pos h0]
    cases retMsg with
    | some text => exact send_ends _
    | none => exact send_ends _
  · rw [if_neg h0]
    exact send_ends _

theorem serve_ends (storage : Storage) (es : List Event) (h : Servable M c w loggedIn p) :
    Ends (serve M storage (some c) loggedIn p).run (w, es) (Adds p loggedIn es) := by
  have simple : ∀ {op : Operation} {q : Prog World Int}, p.kind ≠ .login →
      (loggedIn = true → Returns q.run w) →
      Ends (honoured (some c) loggedIn (call op q >>= fun res => sendResult (some c) res)).run
        (w, es) (Adds p loggedIn es) := fun hk hq =>
    honoured_ends hk fun hb => call_ends (hq hb) fun res _ _ _ => sendResult_ends res
  unfold Servable at h
  unfold serve
  cases hk : p.kind with
  | login =>
    rw [hk] at h
    exact serve_login_ends hk h
  | users =>
    rw [hk] at h
    exact honoured_ends (by rw [hk]; decide) fun hb => absurd (hb.symm.trans h) (by decide)
  | invite =>
    rw [hk] at h
    refine honoured_ends (by rw [hk]; decide) fun hb => ?_
    obtain ⟨user, htext, hl, hs, hcall⟩ := h hb
    exact serve_invite_ends htext hl hs hcall
  | revoke =>
    rw [hk] at h
    exact simple (by rw [hk]; decide) h
  | decline =>
    rw [hk] at h
    exact simple (by rw [hk]; decide) h
  | accept =>
    rw [hk] at h
    exact honoured_ends (by rw [hk]; decide) fun hb => serve_accept_ends (h hb)
  | move =>
    rw [hk] at h
    exact simple (by rw [hk]; decide) h
  | resign =>
    rw [hk] at h
    exact simple (by rw [hk]; decide) h
  | unknown => exact refused_ends

end Packet

/-! ## The answer to USERS -/

section Users

variable {storage : Storage} {w w' : World}

theorem not_mem_take_idxOf (c : Char) (buf : List Char) : c ∉ buf.take (buf.idxOf c) := by
  induction buf with
  | nil => exact List.not_mem_nil
  | cons d buf ih =>
    by_cases hd : d = c
    · rw [hd, List.idxOf_cons_self]
      exact List.not_mem_nil
    · rw [List.idxOf_cons_ne _ hd, List.take_succ_cons, List.mem_cons, not_or]
      exact ⟨Ne.symm hd, ih⟩

theorem strcat_ok {buf buf' : List Char} {s : CString} (h : (strcat buf s).run w = .ok (buf', w')) :
    w' = w ∧ buf.idxOf '\x00' + s.length < buf.length ∧ buf'.length = buf.length ∧
      ('\x00' ∉ s → buf'.idxOf '\x00' = buf.idxOf '\x00' + s.length) := by
  unfold strcat at h
  dsimp only at h
  split at h
  · next hlt =>
    cases h
    refine ⟨rfl, hlt, ?_, fun hs => ?_⟩
    · simp only [List.length_append, List.length_take, List.length_cons, List.length_drop]
      omega
    · have hfront : '\x00' ∉ buf.take (buf.idxOf '\x00') ++ s := fun hmem =>
        (List.mem_append.mp hmem).elim (not_mem_take_idxOf _ _) hs
      rw [List.idxOf_append_of_notMem hfront, List.idxOf_cons_self, List.length_append,
        List.length_take]
      omega
  · cases h

theorem decimal_digits (n : Int) : '\x00' ∉ decimal n := by
  have digits : ∀ m, '\x00' ∉ Nat.toDigits 10 m := fun m hm =>
    absurd (Nat.isDigit_of_mem_toDigits (by decide) (by decide) hm) (by decide)
  cases n with
  | ofNat m => exact digits m
  | negSucc m => exact fun hm => (List.mem_cons.mp hm).elim (by decide) (digits _)

/-- The line of a player. -/
def userLine (X : Player) : CString := X.playerName ++ ['\t'] ++ decimal X.rating ++ ['\n']

/-- The size that `realloc` is asked for in the turn of a player. -/
def curLineLen (X : Player) : Nat := X.playerName.length + 1 + (decimal X.rating).length + 1

theorem length_userLine (X : Player) : (userLine X).length = curLineLen X := by
  simp only [userLine, curLineLen, List.length_append, List.length_cons, List.length_nil]

/-- The four calls of `strcat` in a turn. -/
def strcatLine (retStr : List Char) (X : Player) : Prog World (List Char) := do
  let retStr ← strcat retStr X.playerName
  let retStr ← strcat retStr ['\t']
  let retStr ← strcat retStr (decimal X.rating)
  strcat retStr ['\n']

/-- A turn of the loop, as long as the rating fits into its buffer. -/
theorem users_line_run {p : PlayerPtr} {X : Player} (retStr : Option (List Char))
    (hX : (player p).get w = some X) :
    (users_line storage retStr p).run w = if (decimal X.rating).length < 10 then
        (strcatLine (realloc storage retStr (curLineLen X)) X).run w
      else .error .undefined := by
  have hrating : (player_get_rating (some p)).run w = .ok (X.rating, w) := by
    rw [player_get_rating, read_then hX]
    rfl
  have hname : (player_get_name (some p)).run w = .ok (some X.playerName, w) := by
    rw [player_get_name, read_then hX]
    rfl
  rw [users_line, Prog.run_bind_ok hrating]
  dsimp only
  split
  · rw [Prog.run_bind_ok hname]
    rfl
  · rfl

/-- There has to be room for what is in the buffer, the line and a NUL. -/
theorem strcatLine_room {retStr buf : List Char} {X : Player} (hname : '\x00' ∉ X.playerName)
    (h : (strcatLine retStr X).run w = .ok (buf, w')) :
    retStr.idxOf '\x00' + (userLine X).length + 1 ≤ retStr.length := by
  obtain ⟨b₁, w₁, h1, h⟩ := Prog.run_bind_inv h
  obtain ⟨b₂, w₂, h2, h⟩ := Prog.run_bind_inv h
  obtain ⟨b₃, w₃, h3, h4⟩ := Prog.run_bind_inv h
  obtain ⟨rfl, l1, e1, i1⟩ := strcat_ok h1
  obtain ⟨rfl, l2, e2, i2⟩ := strcat_ok h2
  obtain ⟨rfl, l3, e3, i3⟩ := strcat_ok h3
  obtain ⟨rfl, l4, -, -⟩ := strcat_ok h4
  have i1 := i1 hname
  have i2 := i2 (by decide)
  have i3 := i3 (decimal_digits _)
  rw [length_userLine, curLineLen]
  simp only [List.length_cons, List.length_nil] at i2 l4
  omega

/-- The line needs one character more than `realloc` was asked for. -/
theorem users_line_fails {retStr : Option (List Char)} {p : PlayerPtr} {X : Player}
    (hX : (player p).get w = some X) (hname : '\x00' ∉ X.playerName) (buf : List Char) :
    (users_line storage retStr p).run w ≠ .ok (buf, w') := by
  intro h
  rw [users_line_run retStr hX] at h
  split at h
  · have hroom := strcatLine_room hname h
    rw [length_userLine, realloc, List.length_map, List.length_range] at hroom
    omega
  · cases h

/-- There is no list of players from which the answer can be put together. -/
theorem users_unanswered (hnames : ∀ p X, (player p).get w = some X → '\x00' ∉ X.playerName)
    (playerArr : List (Option PlayerPtr)) (text : CString) :
    (users_text storage playerArr).run w ≠ .ok (text, w') := by
  intro h
  obtain ⟨retStr, w₁, hloop, h⟩ := Prog.run_bind_inv h
  cases playerArr with
  | nil => cases hloop
  | cons tempPlayer rest =>
    cases tempPlayer with
    | none =>
      cases hloop
      cases h
    | some p =>
      obtain ⟨buf, w₂, hline, _⟩ := Prog.run_bind_inv hloop
      cases hX : (player p).get w with
      | none =>
        have hdead : (users_line storage none p).run w = .error .undefined := by
          rw [users_line, player_get_rating, Prog.bind_assoc]
          exact Prog.run_bind_error (read_dead hX)
        rw [hdead] at hline
        cases hline
      | some X => exact users_line_fails hX (hnames p X hX) buf hline

end Users

/-! ## A connection -/

section Connection

variable {M : ClientModule} {storage : Storage} {c : ClientPtr}

/-- The induction over the packets. -/
theorem loop_answers : ∀ {arrivals : List Arrival} {loggedIn : Bool} {w : World}
    {es : List Event}, SafeRun M storage c loggedIn arrivals w →
    Ends (service_loop M storage (some c) loggedIn arrivals).run (w, es) fun _ s =>
      ∃ new, s.2 = es ++ new ∧ Answers loggedIn (arrivals.map Arrival.packet) new
  | [], _, _, _, _ => .ret ⟨[], (List.append_nil _).symm, rfl⟩
  | a :: rest, loggedIn, w, es, h => by
    obtain ⟨hsafe, hrest⟩ := h
    have hrecv : (proto_recv_packet a).run (w, es) =
        .ok (a.packet, (a.others w, es ++ [.received a.packet])) := rfl
    obtain ⟨loggedIn', s, hs, new, hnew, hanswer⟩ :=
      serve_ends storage (es ++ [.received a.packet]) hsafe
    refine ends_bind hrecv (ends_bind hs ((loop_answers (hrest _ _ _ hs)).mono ?_))
    intro _ t ht
    obtain ⟨later, hlater, hanswers⟩ := ht
    refine ⟨.received a.packet :: (new ++ later), ?_, new, later, loggedIn', rfl, hanswer, hanswers⟩
    rw [hlater, hnew]
    simp only [List.append_assoc, List.cons_append, List.nil_append]

end Connection

/-- In a connection that is registered and whose packets are safe, every packet is answered. -/
theorem answers_of_safe (M : ClientModule) (storage : Storage) (newClient : ClientPtr)
    (arrivals : List Arrival) (w : World)
    (h : SafeConnection M storage newClient arrivals w) :
    Ends (jeux_client_service M storage newClient arrivals).run (w, []) fun _ s =>
      Answers false (arrivals.map Arrival.packet) s.2 := by
  obtain ⟨⟨hl, hroom, hne⟩, hrun⟩ := h
  have hreg := creg_register_run (c := newClient) hl (Int.not_le.mpr hroom) hne
  refine ends_bind (Prog.silent_ok [] hreg) ((loop_answers hrun).mono ?_)
  intro _ s hs
  obtain ⟨new, hnew, hanswers⟩ := hs
  rw [hnew]
  exact hanswers

/-- A client resigns a game that it does not have, logs in as `ann`, and sends a move. -/
theorem answers_of_safe_sample :
    Ends (jeux_client_service lonely zeroed 0
      [⟨id, ⟨8, 0, 0, []⟩⟩, ⟨id, ⟨1, 0, 0, ['a', 'n', 'n', '\x00']⟩⟩,
        ⟨id, ⟨7, 0, 0, ['5', '\x00']⟩⟩]).run
      (World.initial fun _ => 4, []) fun _ s =>
        Answers false [⟨8, 0, 0, []⟩, ⟨1, 0, 0, ['a', 'n', 'n', '\x00']⟩,
          ⟨7, 0, 0, ['5', '\x00']⟩] s.2 := by
  refine answers_of_safe lonely zeroed 0 _ _
    ⟨⟨rfl, by decide, fun _ => by decide⟩, (fun h => by cases h), ?_⟩
  intro es loggedIn' s hs
  cases hs
  refine ⟨fun _ => ⟨['a', 'n', 'n'], rfl, by decide, rfl, trivial, fun _ _ _ => .of_eq rfl⟩, ?_⟩
  -- the move gets its answer whatever the login has done
  exact fun es loggedIn' s _ => ⟨fun _ => .of_eq rfl, fun _ _ _ _ => trivial⟩

/-- The first packet is a LOGIN without a payload. -/
theorem login_unanswered :
    ¬ Ends (jeux_client_service lonely zeroed 0 [⟨id, ⟨1, 0, 0, []⟩⟩]).run
      (World.initial fun _ => 4, []) fun _ s => Answers false [⟨1, 0, 0, []⟩] s.2 :=
  fun h => h.ne_error .undefined rfl

end StarterProjects.Jeux
