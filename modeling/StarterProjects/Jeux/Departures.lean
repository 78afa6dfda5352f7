import StarterProjects.Jeux.Sessions

/-!
# Connections that end

The header of the registry says that the thread of a client removes it from the registry when
it is about to terminate. `jeux_client_service` leaves its loop and returns; it does not call
`creg_unregister`. So a place in the registry is taken for good, and the 65th connection ever
made is refused, however few are open.

`vacates_iff`: in a run of the server the places of the departed are free again exactly when
no registered client disconnects.
-/

namespace StarterProjects.Jeux

open Lib

/-- Whoever has left is not registered. -/
def Left (s : ServerState) : Prop :=
  ∀ conn ∈ s.connections, conn.isOpen = false → ∀ c, conn.client = some c →
    c ∉ s.world.cregState.registered

/-- A connection is refused only when as many are open as there are places. -/
def RefusesFull (s : ServerState) : ServerEvent → Prop
  | .connect newClient => ∀ w, (creg_register newClient).run s.world = .ok (none, w) →
      MAX_CLIENTS ≤ (s.connections.countP Connection.isOpen : Int)
  | _ => True

/-- This is so all along the run. -/
def Vacates (M : ClientModule) (storage : Storage) : List ServerEvent → ServerState → Prop
  | [], s => Left s
  | e :: es, s => Left s ∧ RefusesFull s e ∧
      ∀ s', ServerStep M storage s e s' → Vacates M storage es s'

/-- The connections that end are refused ones. -/
def Stays (M : ClientModule) (storage : Storage) : List ServerEvent → ServerState → Prop
  | [], _ => True
  | e :: es, s => (∀ i conn, e = .hangup i → s.connections[i]? = some conn →
        conn.isOpen = true → conn.client = none) ∧
      ∀ s', ServerStep M storage s e s' → Stays M storage es s'

theorem Vacates.left {M : ClientModule} {storage : Storage} {es : List ServerEvent}
    {s : ServerState} (h : Vacates M storage es s) : Left s := by
  cases es with
  | nil => exact h
  | cons e es => exact h.1

/-! ## The registry during a run -/

/-- The count and the members of the registry. -/
def roll (w : World) : Int × List ClientPtr :=
  (w.cregState.clientCount, w.cregState.registered)

theorem aside_roll : Aside (SameAt roll) where
  players := fun _ _ => rfl
  preg := fun _ _ => rfl
  locks := fun _ _ h => Prod.ext (h _).1 (h _).2

/-- The functions of `client.h` neither register nor unregister a client. -/
structure ClientModule.Detached (M : ClientModule) : Prop extends M.Within (SameAt roll) where
  make : ∀ c target? source_role target_role,
    Lib.Within (SameAt roll) (M.client_make_invitation c target? source_role target_role)

theorem creg_register_inv {c : ClientPtr} {client? : Option ClientPtr} {w w' : World}
    (h : (creg_register c).run w = .ok (client?, w')) :
    (client? = none ∧ roll w' = roll w ∧ MAX_CLIENTS ≤ (roll w).1) ∨
    (client? = some c ∧ roll w' = ((roll w).1 + 1, (roll w).2 ++ [c])) := by
  have hV : Within (SameAt roll) (V creg registryLock) := within_V aside_roll
  have hP : ∀ l : Lock ClientRegistry, (∀ n r, (l.put n r).clientCount = r.clientCount ∧
      (l.put n r).registered = r.registered) → Within (SameAt roll) (P creg l) := fun l hl =>
    .take fun w => aside_roll.locks _ w fun _ => hl _ _
  obtain ⟨_, w₁, h1, h⟩ := Prog.run_bind_inv h
  have e₁ := hP registryLock (fun _ _ => ⟨rfl, rfl⟩) _ _ _ h1
  rw [read_then (creg_get w₁)] at h
  split at h
  · next hfull =>
    obtain ⟨_, w₂, h2, h3⟩ := Prog.run_bind_inv h
    cases h3
    refine .inl ⟨rfl, (hV _ _ _ h2).trans e₁, ?_⟩
    rw [← e₁]
    exact hfull
  · refine .inr ?_
    rw [← e₁]
    split at h
    · rw [update_then (creg_get w₁)] at h
      obtain ⟨_, w₂, h2, h⟩ := Prog.run_bind_inv h
      have e₂ := hP notEmpty (fun _ _ => ⟨rfl, rfl⟩) _ _ _ h2
      rw [update_then (creg_get w₂)] at h
      obtain ⟨_, w₃, h3, h4⟩ := Prog.run_bind_inv h
      cases h4
      refine ⟨rfl, (hV _ _ _ h3).trans (Prod.ext ?_ ?_)⟩
      · show w₂.cregState.clientCount = w₁.cregState.clientCount + 1
        exact congrArg Prod.fst e₂
      · show w₂.cregState.registered ++ [c] = w₁.cregState.registered ++ [c]
        exact congrArg (fun r => r.2 ++ [c]) e₂
    · rw [update_then (creg_get w₁)] at h
      obtain ⟨_, w₂, h2, h3⟩ := Prog.run_bind_inv h
      cases h3
      exact ⟨rfl, hV _ _ _ h2⟩

theorem filterMap_set {α β : Type} {g : α → Option β} {a b : α} :
    ∀ {l : List α} {i : Nat}, l[i]? = some a → g b = g a → (l.set i b).filterMap g = l.filterMap g
  | [], _, h, _ => by cases h
  | x :: l, 0, h, hg => by
    cases h
    rw [List.set_cons_zero, List.filterMap_cons, List.filterMap_cons, hg]
  | x :: l, i + 1, h, hg => by
    have ih := filterMap_set (l := l) (i := i) h hg
    rw [List.set_cons_succ, List.filterMap_cons, List.filterMap_cons, ih]

/-- As long as nobody has left, the clients of the connections are those in the registry. -/
structure Seated (s : ServerState) : Prop where
  registered : s.world.cregState.registered = s.connections.filterMap Connection.client
  count : s.world.cregState.clientCount = (s.connections.filterMap Connection.client).length
  present : ∀ conn ∈ s.connections, conn.client ≠ none → conn.isOpen = true

namespace Seated

variable {M : ClientModule} {storage : Storage} {s s' : ServerState} {e : ServerEvent}

theorem left (h : Seated s) : Left s := fun conn hc hopen c hclient => by
  have hpresent := h.present conn hc (by rw [hclient]; exact Option.some_ne_none c)
  rw [hopen] at hpresent
  cases hpresent

theorem refusesFull (h : Seated s) : RefusesFull s e := by
  cases e with
  | connect newClient =>
    intro w hw
    rcases creg_register_inv hw with ⟨-, -, hfull⟩ | ⟨hc, -⟩
    · have hle : (s.connections.filterMap Connection.client).length ≤
          s.connections.countP Connection.isOpen := by
        rw [List.length_filterMap_eq_countP]
        exact List.countP_mono_left fun conn hc hsome =>
          h.present conn hc (Option.isSome_iff_ne_none.mp hsome)
      have hcount : MAX_CLIENTS ≤ s.world.cregState.clientCount := hfull
      rw [h.count] at hcount
      omega
    · cases hc
  | packet i p => trivial
  | hangup i => trivial

/-- A connection is written over by one with the same client, open if the client is there. -/
theorem set (h : Seated s) {w : World} {i : Nat} {conn conn' : Connection}
    (hw : roll w = roll s.world) (hi : s.connections[i]? = some conn)
    (hclient : conn'.client = conn.client) (hopen : conn'.client ≠ none → conn'.isOpen = true) :
    Seated ⟨w, s.connections.set i conn'⟩ where
  registered := by
    rw [filterMap_set hi hclient, ← h.registered]
    exact congrArg Prod.snd hw
  count := by
    rw [filterMap_set hi hclient, ← h.count]
    exact congrArg Prod.fst hw
  present := fun d hd hne => by
    rcases List.mem_or_eq_of_mem_set hd with hd | rfl
    · exact h.present d hd hne
    · exact hopen hne

theorem step (hM : M.Detached) (h : Seated s) (hs : ServerStep M storage s e s')
    (hstay : ∀ i conn, e = .hangup i → s.connections[i]? = some conn →
      conn.isOpen = true → conn.client = none) : Seated s' := by
  cases hs with
  | connect hreg =>
    rename_i newClient client? w
    rcases creg_register_inv hreg with ⟨rfl, hroll, -⟩ | ⟨rfl, hroll⟩
    · refine ⟨?_, ?_, fun d hd hne => ?_⟩
      · rw [List.filterMap_append]
        exact (congrArg Prod.snd hroll).trans (h.registered.trans (List.append_nil _).symm)
      · rw [List.filterMap_append]
        exact (congrArg Prod.fst hroll).trans
          (h.count.trans (congrArg (fun l => (List.length l : Int)) (List.append_nil _).symm))
      · rcases List.mem_append.mp hd with hd | hd
        · exact h.present d hd hne
        · rw [List.mem_singleton.mp hd]
    · refine ⟨?_, ?_, fun d hd hne => ?_⟩
      · rw [List.filterMap_append, ← h.registered]
        exact congrArg Prod.snd hroll
      · rw [List.filterMap_append, List.length_append, Int.natCast_add, ← h.count]
        exact congrArg Prod.fst hroll
      · rcases List.mem_append.mp hd with hd | hd
        · exact h.present d hd hne
        · rw [List.mem_singleton.mp hd]
  | packet hi hopen hserve =>
    have hroll := within_serve aside_roll hM.toWithin
      (fun _ _ => within_serve_invite aside_roll fun _ => hM.make _ _ _ _) _ _ _ hserve
    exact h.set hroll hi rfl fun _ => hopen
  | hangup hi hopen hloop =>
    cases hloop
    exact h.set rfl hi rfl fun hne => absurd (hstay _ _ rfl hi hopen) hne

/-- A registered client that disconnects stays registered. -/
theorem not_left (h : Seated s) {i : Nat} {conn : Connection} {c : ClientPtr}
    (hi : s.connections[i]? = some conn) (hc : conn.client = some c) :
    ¬ Left ⟨s.world, s.connections.set i { conn with isOpen := false }⟩ := fun hleft => by
  have hlt := (List.getElem?_eq_some_iff.mp hi).1
  refine hleft _ (List.mem_set hlt _) rfl c hc ?_
  show c ∈ s.world.cregState.registered
  rw [h.registered]
  exact List.mem_filterMap.mpr ⟨conn, List.mem_of_getElem? hi, hc⟩

/-- The induction over the events. -/
theorem vacates_iff (hM : M.Detached) : ∀ {es : List ServerEvent} {s : ServerState}, Seated s →
    (Vacates M storage es s ↔ Stays M storage es s)
  | [], _, h => ⟨fun _ => trivial, fun _ => h.left⟩
  | e :: es, s, h => by
    constructor
    · rintro ⟨_, _, hnext⟩
      have hstay : ∀ i conn, e = .hangup i → s.connections[i]? = some conn →
          conn.isOpen = true → conn.client = none := by
        rintro i conn rfl hi hopen
        cases hc : conn.client with
        | none => rfl
        | some c =>
          exact absurd (hnext _ (.hangup hi hopen rfl)).left (h.not_left hi hc)
      exact ⟨hstay, fun s' hs => (vacates_iff hM (h.step hM hs hstay)).mp (hnext s' hs)⟩
    · rintro ⟨hstay, hnext⟩
      exact ⟨h.left, h.refusesFull,
        fun s' hs => (vacates_iff hM (h.step hM hs hstay)).mpr (hnext s' hs)⟩

end Seated

/-- From the start of the server: the places of the departed are free again exactly when no
registered client disconnects. -/
theorem vacates_of_init {M : ClientModule} (hM : M.Detached) (storage : Storage)
    (clientFd : ClientPtr → Int) (es : List ServerEvent) :
    Vacates M storage es (ServerState.initial clientFd) ↔
      Stays M storage es (ServerState.initial clientFd) :=
  Seated.vacates_iff hM ⟨rfl, rfl, fun _ hc => absurd hc List.not_mem_nil⟩

theorem lonely_detached : lonely.Detached where
  login := fun client? player? => by
    cases client? with
    | none => exact .ret _
    | some c => exact .bind (.act (fun _ _ h => by cases h; rfl) fun _ => .ret _) fun _ => .ret _
  revoke := fun _ _ => .ret _
  decline := fun _ _ => .ret _
  accept := fun _ _ => .ret _
  move := fun _ _ _ => .ret _
  resign := fun _ _ => .ret _
  make := fun _ _ _ _ => .ret _

/-- Two clients connect and stay; and one connects and disconnects. -/
theorem vacates_of_init_sample :
    Vacates lonely zeroed [.connect 0, .connect 1] (ServerState.initial fun _ => 4) ∧
      (Vacates lonely zeroed [.connect 0, .hangup 0] (ServerState.initial fun _ => 4) ↔
        Stays lonely zeroed [.connect 0, .hangup 0] (ServerState.initial fun _ => 4)) :=
  ⟨(vacates_of_init lonely_detached zeroed _ _).mpr
    ⟨fun _ _ he => (by cases he), fun _ _ => ⟨fun _ _ he => (by cases he), fun _ _ => trivial⟩⟩,
    vacates_of_init lonely_detached zeroed _ _⟩

/-- A client connects and disconnects; it is still registered. -/
theorem departed_is_registered :
    ¬ Vacates lonely zeroed [.connect 0, .hangup 0] (ServerState.initial fun _ => 4) := by
  rintro ⟨-, -, hnext⟩
  have hconnect : ServerStep lonely zeroed (ServerState.initial fun _ => 4) (.connect 0)
      ⟨_, [⟨some 0, false, true⟩]⟩ := .connect rfl
  obtain ⟨-, -, hnext⟩ := hnext _ hconnect
  have hleft := hnext _ (.hangup (i := 0) rfl rfl rfl)
  exact hleft _ List.mem_cons_self rfl 0 rfl List.mem_cons_self

end StarterProjects.Jeux
