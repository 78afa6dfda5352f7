import StarterProjects.Jeux.Sections

/-!
# The registry never gets stuck

`notEmpty` can be up while clients are registered, and the count can be wrong; but `notEmpty` is
never down for good. However the threads interleave, it is up, or a thread that waits for an empty
registry has just taken it down, or the count is positive (`Bounded`).

`live_of_init`: in every reachable state a thread inside a call can go on; and between the calls
none is refused but that of a thread that waits for clients that are counted. `terminate_of_init`:
the shutdown of the server lets such a thread pass, so the server comes to its end.
-/

namespace StarterProjects.Jeux

open Lib

/-! ## The discipline -/

/-- The registry between two critical sections. With `up`, `notEmpty` is up or a thread passes. -/
structure Bounded (r : ClientRegistry) (up : Bool) : Prop where
  fresh : r.nodes = [] → r.clientCount = 0
  nodes : r.clientCount ≤ r.nodes.length
  count : r.clientCount ≤ MAX_CLIENTS
  counted : up = false → 1 ≤ r.clientCount

theorem Bounded.same {r r' : ClientRegistry} {up : Bool} (h : Bounded r up) (hs : Same r' r) :
    Bounded r' up := by
  obtain ⟨hn, hc, -⟩ := hs
  refine ⟨?_, ?_, ?_, ?_⟩
  · rw [hn, hc]
    exact h.fresh
  · rw [hn, hc]
    exact h.nodes
  · rw [hc]
    exact h.count
  · rw [hc]
    exact h.counted

theorem Bounded.up {r : ClientRegistry} {up : Bool} (h : Bounded r up) : Bounded r true :=
  ⟨h.fresh, h.nodes, h.count, fun hup => by cases hup⟩

/-- A section can put `notEmpty` up at any time; a registry with `up` false has counted
clients. -/
def bounding (ι : Type) [DecidableEq ι] : Discipline ι where
  rest := Bounded
  inside := fun _ _ => True
  gives := fun _ _ => True
  token := fun up n phase => up = true → n ≠ 0 ∨ ∃ t, phase t = .passing
  rest_same := Bounded.same
  inside_same := fun h _ => h
  inside_taken := fun _ => trivial
  inside_given := fun _ => trivial
  keeps := fun {up n phase t y} h ht hy hup => (h hup).imp_right fun ⟨u, hu⟩ => ⟨u, by
    have hut : u ≠ t := fun he => ht (he ▸ hu)
    rwa [Function.update_of_ne hut]⟩
  passes := fun {up n phase t} _ _ _ => .inr ⟨t, Function.update_self ..⟩
  passed := fun _ _ _ => .inl (Nat.succ_ne_zero _)
  takes := fun _ _ hup => by cases hup
  given := fun _ _ _ => .inl (Nat.succ_ne_zero _)

variable {ι : Type} [DecidableEq ι]

section Sections

variable {fd : ClientPtr → Int} {r : ClientRegistry} {up : Bool} {c : ClientPtr} {a : Point}

theorem Bounded.lowered (hb : Bounded r up) (hn : r.nodes ≠ [])
    (hpos : up = false → 1 ≤ r.clientCount - 1) : Bounded (r.lowered c) up :=
  ⟨fun h => absurd h hn, Int.le_trans (Int.sub_le_self _ (by decide)) hb.nodes,
    Int.le_trans (Int.sub_le_self _ (by decide)) hb.count, hpos⟩

theorem bounded_unregister :
    Admits (bounding ι) fd r (creg_unregister c >>= fun _ => .ret a) := by
  refine admits_unregister (fun up hb _ hfound => ?_) fun up hb _ _ => ?_
  · have hn : r.nodes ≠ [] := by
      obtain ⟨d, hd, -⟩ := hfound
      exact List.ne_nil_of_mem hd
    refine section_drop trivial
      (fun _ => ⟨trivial, Bounded.lowered hb.up hn fun hup => by cases hup⟩) fun h0 =>
      Bounded.lowered hb hn fun hup => ?_
    have hpos := hb.counted hup
    omega
  · exact section_signal (fun _ => ⟨trivial, hb.up⟩) fun _ => hb

theorem bounded_register : Admits (bounding ι) fd r (Call.register c).prog := by
  refine admits_register (fun up hb hroom hn => ?_) fun up hb hroom hn => ?_
  · have h0 := hb.fresh hn
    -- the first node finds `notEmpty` up, or down for a thread that passes
    have hup : up = true := by
      cases up with
      | true => rfl
      | false =>
        have hpos := hb.counted rfl
        omega
    refine ⟨hup, trivial, nofun, ?_, Int.not_le.mp hroom, fun _ => ?_⟩
    · show r.clientCount + 1 ≤ 1
      omega
    · show 1 ≤ r.clientCount + 1
      omega
  · have hnodes := hb.nodes
    refine ⟨trivial, fun h => absurd (List.append_eq_nil_iff.mp h).1 hn, ?_, Int.not_le.mp hroom,
      fun hup => ?_⟩
    · show r.clientCount + 1 ≤ ((r.nodes ++ [c]).length : Int)
      rw [List.length_append, List.length_singleton]
      omega
    · have hpos := hb.counted hup
      show 1 ≤ r.clientCount + 1
      omega

theorem bounded_call {call : Call} (h : call ≠ .waitForEmpty) :
    Admits (bounding ι) fd r call.prog := by
  cases call with
  | register d => exact bounded_register
  | unregister d => exact bounded_unregister
  | waitForEmpty => exact absurd rfl h
  | shutdownAll => exact admits_sockets

end Sections

theorem going_of_init {c : Threads ι World Point} (h : Reaches Started Step c) :
    ∃ up phase, Going (bounding ι) c.1 c.2 up phase :=
  Going.of_reaches (D := bounding ι) (F := fun _ _ => True)
    (fun {r} hn hc _ => ⟨⟨fun _ => hc, by rw [hc, hn]; exact Int.le_refl 0,
      by rw [hc]; decide, fun hup => by cases hup⟩, trivial⟩)
    (fun _ => .inl Nat.one_ne_zero) (fun _ _ _ _ => bounded_call)
    (fun _ _ _ _ _ _ => bounded_unregister) (h.mono fun _ _ _ hs => ⟨hs, trivial⟩)

/-! ## No deadlock -/

/-- A thread inside a call can go on, if there is one. Otherwise only a wait for clients that are
counted is refused. -/
structure Live (c : Threads ι World Point) : Prop where
  bounded : c.1.cregState.registryLock ≠ 0 →
    c.1.cregState.clientCount ≤ c.1.cregState.nodes.length ∧ c.1.cregState.clientCount ≤ MAX_CLIENTS
  goes : ∀ t, c.2 t ≠ .ret .idle → ∃ u c', c.2 u ≠ .ret .idle ∧ Step c (u, none) c'
  waits : (∀ t, c.2 t = .ret .idle) → ∀ t call, (∀ c', ¬ Step c (t, some call) c') →
    call = .waitForEmpty ∧ c.1.cregState.notEmpty = 0 ∧ 1 ≤ c.1.cregState.clientCount

section Live

variable {w : World} {pool : ι → Prog World Point} {up : Bool} {phase : ι → Phase} {t : ι}

/-- Between the calls `notEmpty` is down for counted clients only. -/
theorem Going.quiet (h : Going (bounding ι) w pool up phase) (hidle : ∀ t, pool t = .ret .idle) :
    w.cregState.registryLock = 1 ∧ (w.cregState.notEmpty = 0 →
      1 ≤ w.cregState.clientCount ∧ w.cregState.clientCount ≤ w.cregState.nodes.length) := by
  have houtside : ∀ t, phase t = .outside := fun t => h.outside (hidle t)
  have hlock : w.cregState.registryLock = 1 := by
    rcases h.lock with ⟨h1, -⟩ | ⟨-, t, ht, -⟩
    · exact h1
    · rw [houtside t] at ht
      cases ht
  have hb : Bounded w.cregState up := h.rest (by rw [hlock]; exact Nat.one_ne_zero)
  refine ⟨hlock, fun h0 => ⟨hb.counted ?_, hb.nodes⟩⟩
  cases up with
  | false => rfl
  | true =>
    rcases h.token rfl with hne | ⟨t, ht⟩
    · exact absurd h0 hne
    · rw [houtside t] at ht
      cases ht

/-- A thread that can take a turn is inside a call. -/
theorem goes_of_turn {c c' : Threads ι World Point} (h : turn t c = some c') :
    ∃ u c', c.2 u ≠ .ret .idle ∧ Step c (u, none) c' := by
  refine ⟨t, c', fun hidle => ?_, .go h⟩
  rw [turn_ret hidle] at h
  cases h

theorem Going.goes_passing (h : Going (bounding ι) w pool up phase) (ht : phase t = .passing) :
    ∃ u c', pool u ≠ .ret .idle ∧ Step (w, pool) (u, none) c' :=
  goes_of_turn (V_turn (h.passes ht) (creg_get w))

/-- The thread in the critical section waits for nobody but a thread that passes. -/
theorem Going.goes_holding (h : Going (bounding ι) w pool up phase) (ht : phase t = .holding) :
    ∃ u c', pool u ≠ .ret .idle ∧ Step (w, pool) (u, none) c' := by
  have hat := h.threads t
  rw [ht] at hat
  obtain ⟨r, -, hbusy⟩ := hat
  generalize hq : pool t = q at hbusy
  cases hbusy with
  | leave _ => exact goes_of_turn (V_turn hq (creg_get w))
  | read _ => exact goes_of_turn (read_turn hq (creg_get w))
  | ask _ => exact goes_of_turn (ask_turn hq)
  | update _ _ => exact goes_of_turn (update_turn hq (creg_get w))
  | give _ => exact goes_of_turn (V_turn hq (creg_get w))
  | take _ =>
    rcases h.token rfl with hne | ⟨u, hu⟩
    · exact goes_of_turn (P_turn_up hq (creg_get w) hne)
    · exact h.goes_passing hu

/-- With the lock free, every call that takes it can be made. -/
theorem enters_free (pool : ι → Prog World Point) (t : ι) {p : Prog World Point}
    (hp : Admits (bounding ι) w.clientFd w.cregState p) (hl : w.cregState.registryLock ≠ 0) :
    ∃ c', turn t (w, Function.update pool t p) = some c' := by
  obtain ⟨q, hq, -⟩ := hp
  exact ⟨_, P_turn_up ((Function.update_self ..).trans hq) (creg_get w) hl⟩

theorem Going.live (h : Going (bounding ι) w pool up phase) : Live (w, pool) := by
  refine ⟨fun hl => ⟨Bounded.nodes (h.rest hl), Bounded.count (h.rest hl)⟩, fun t ht => ?_,
    fun hidle t call hstuck => ?_⟩
  · by_cases hhold : ∃ u, phase u = .holding
    · obtain ⟨u, hu⟩ := hhold
      exact h.goes_holding hu
    -- nobody holds the lock
    have hl : w.cregState.registryLock ≠ 0 := by
      rcases h.lock with ⟨h1, -⟩ | ⟨-, u, hu, -⟩
      · rw [h1]
        exact Nat.one_ne_zero
      · exact absurd ⟨u, hu⟩ hhold
    cases hph : phase t with
    | holding => exact absurd ⟨t, hph⟩ hhold
    | passing => exact h.goes_passing hph
    | outside =>
      have hat := h.threads t
      rw [hph] at hat
      obtain ⟨a, ha⟩ := hat
      cases a with
      | idle => exact absurd ha ht
      | visit i => exact ⟨t, _, ht, .loop _ ha (read_turn (visit_prog pool t i) (creg_get w))⟩
      | leave d i =>
        obtain ⟨c', hc'⟩ := enters_free pool t bounded_unregister hl
        exact ⟨t, c', ht, .loop _ ha hc'⟩
  · obtain ⟨hlock, hcounted⟩ := h.quiet hidle
    have hl : w.cregState.registryLock ≠ 0 := by
      rw [hlock]
      exact Nat.one_ne_zero
    have henters : ¬ Admits (bounding ι) w.clientFd w.cregState call.prog := fun hp => by
      obtain ⟨c', hc'⟩ := enters_free pool t hp hl
      exact hstuck c' (.call call (hidle t) hc')
    cases call with
    | register d => exact absurd bounded_register henters
    | unregister d => exact absurd bounded_unregister henters
    | shutdownAll => exact absurd admits_sockets henters
    | waitForEmpty =>
      have h0 : w.cregState.notEmpty = 0 := by
        by_contra hne
        refine hstuck _ (.call .waitForEmpty (hidle t) (P_turn_up (l := notEmpty) (k := fun _ =>
          V creg notEmpty >>= fun _ => .ret .idle) ?_ (creg_get w) hne))
        exact (Function.update_self ..).trans (Prog.bind_assoc _ _ _)
      exact ⟨rfl, h0, (hcounted h0).1⟩

end Live

theorem live_of_init {c : Threads ι World Point} (h : Reaches Started Step c) :
    Live c := by
  obtain ⟨up, phase, hg⟩ := going_of_init h
  exact hg.live

/-- The threads that the schedule runs on. -/
theorem reaches_of_turns {l : List ι} {c c' : Threads ι World Point}
    (h : Reaches Started Step c) (ht : turns l c = some c') : Reaches Started Step c' := by
  induction l generalizing c with
  | nil => exact Option.some.inj ht ▸ h
  | cons t l ih =>
    obtain ⟨c₁, h₁, h₂⟩ := Option.bind_eq_some_iff.mp ht
    exact ih (h.step (.go h₁)) h₂

theorem started_initial (fd : ClientPtr → Int) :
    Reaches Started Step ((World.initial fd, fun _ => .ret .idle) : Threads Bool World Point) :=
  .init ⟨⟨World.initial fd, rfl⟩, fun _ => rfl⟩

/-- One thread has taken `notEmpty` down to see whether the registry is empty, and the other one
waits for it with the lock, to register the first client. -/
theorem live_while_passing : ∃ c : Threads Bool World Point,
    c.1.cregState.registryLock = 0 ∧ c.1.cregState.notEmpty = 0 ∧ turn true c = none ∧ Live c := by
  have h₁ := (started_initial fun c => c).step (.call (t := false) .waitForEmpty rfl rfl)
  have h₂ := h₁.step (.call (t := true) (.register 0) rfl rfl)
  have h₃ := reaches_of_turns h₂ (l := [true, true]) rfl
  exact ⟨_, rfl, rfl, rfl, live_of_init h₃⟩

/-! ## The shutdown of the server -/

/-- What `terminate` does before it frees the registries. -/
def terminate (fuel : Nat) : Prog World Unit := do
  creg_shutdown_all fuel
  creg_wait_for_empty

namespace ClientRegistry

/-- The clients of the nodes, unregistered one after the other. -/
def closed (r : ClientRegistry) (cs : List ClientPtr) : ClientRegistry :=
  cs.foldl parted r

/-- The count goes through 0 once at most. -/
structure Closes (r : ClientRegistry) (cs : List ClientPtr) (r' : ClientRegistry) : Prop where
  nodes : r'.nodes = r.nodes
  count : r'.clientCount = r.clientCount - cs.length
  lock : r'.registryLock = r.registryLock
  released : r'.released = cs.reverse ++ r.released
  notEmpty : r'.notEmpty = r.notEmpty +
    if 1 ≤ r.clientCount ∧ r.clientCount ≤ cs.length then 1 else 0

theorem closed_closes : ∀ (cs : List ClientPtr) (r : ClientRegistry), Closes r cs (r.closed cs)
  | [], r => by
    refine ⟨rfl, (Int.sub_zero _).symm, rfl, rfl, ?_⟩
    rw [if_neg fun h => ?_]
    · rfl
    · obtain ⟨h1, h2⟩ := h
      have h0 : r.clientCount ≤ 0 := h2
      omega
  | c :: cs, r => by
    have ih := closed_closes cs (r.parted c)
    refine ⟨ih.nodes, ih.count.trans ?_, ih.lock, ih.released.trans ?_, ih.notEmpty.trans ?_⟩
    · show r.clientCount - 1 - cs.length = r.clientCount - ((c :: cs).length : Int)
      rw [List.length_cons]
      omega
    · show cs.reverse ++ c :: r.released = (c :: cs).reverse ++ r.released
      rw [List.reverse_cons, List.append_assoc]
      rfl
    · show (if r.clientCount - 1 = 0 then r.notEmpty + 1 else r.notEmpty) +
        (if 1 ≤ r.clientCount - 1 ∧ r.clientCount - 1 ≤ cs.length then 1 else 0) =
        r.notEmpty + if 1 ≤ r.clientCount ∧ r.clientCount ≤ ((c :: cs).length : Int) then 1 else 0
      rw [List.length_cons]
      split_ifs <;> omega

/-- A count that is not above the number of nodes does go through 0. -/
theorem closed_up {r : ClientRegistry} {cs : List ClientPtr}
    (h : r.notEmpty = 0 → 1 ≤ r.clientCount ∧ r.clientCount ≤ cs.length) :
    (r.closed cs).notEmpty ≠ 0 := by
  rw [(closed_closes cs r).notEmpty]
  by_cases h0 : r.notEmpty = 0
  · rw [if_pos (h h0)]
    exact Nat.succ_ne_zero _
  · exact fun hsum => h0 (Nat.eq_zero_of_add_eq_zero_right hsum)

/-- The shutdown gives up one reference for each node. -/
theorem Outlasted.closed {r : ClientRegistry} {refs : ClientPtr → Nat} (h : r.Outlasted refs) :
    (r.closed r.nodes).Referenced refs := fun c hc => by
  have hcloses := closed_closes r.nodes r
  rw [hcloses.nodes, hcloses.released] at hc
  rw [hcloses.released, List.count_append, List.count_reverse, Nat.add_comm]
  refine h c ?_
  rcases hc with hc | hc
  · exact .inl hc
  · exact (List.mem_append.mp hc).imp_left List.mem_reverse.mp

end ClientRegistry

section Shutdown

variable {w : World}

/-- Every node that the loop comes to has the descriptor of its client. -/
theorem creg_shutdown_loop_run {fuel i : Nat} (hl : w.cregState.registryLock = 1)
    (hfuel : w.cregState.nodes.length < fuel + i) (hi : i ≤ w.cregState.nodes.length) :
    (creg_shutdown_loop fuel i).run w =
      .ok ((), creg.set (w.cregState.closed (w.cregState.nodes.drop i)) w) := by
  induction fuel generalizing i w with
  | zero => omega
  | succ fuel ih =>
    have hnode : (creg_shutdown_node i).run w = .ok (w.cregState.nodes[i]?, w) :=
      Prog.run_bind_ok (read_run (creg_get w))
    rw [creg_shutdown_loop, Prog.run_bind_ok hnode]
    rcases Nat.lt_or_eq_of_le hi with hlt | rfl
    · have hlisted : Listed w w.cregState.nodes[i] := ⟨_, List.getElem_mem hlt, rfl⟩
      have hleaves := creg_unregister_run hl (c := w.cregState.nodes[i])
      rw [if_pos hlisted] at hleaves
      rw [List.getElem?_eq_getElem hlt]
      show (creg_unregister _ >>= fun _ => creg_shutdown_loop fuel (i + 1)).run w = _
      rw [Prog.run_bind_ok hleaves, ih (w := creg.set (w.cregState.parted _) w) hl
        (by show w.cregState.nodes.length < _; omega) hlt, Obj.set_set,
        List.drop_eq_getElem_cons hlt]
      rfl
    · rw [List.getElem?_eq_none (Nat.le_refl _), List.drop_length]
      rfl

theorem creg_shutdown_all_run {fuel : Nat} (hl : w.cregState.registryLock = 1)
    (hfuel : w.cregState.nodes.length < fuel) : (creg_shutdown_all fuel).run w =
      .ok ((), creg.set (w.cregState.closed w.cregState.nodes) w) := by
  have hsockets : creg_shutdown_sockets.run w =
      .ok (registryLock.put 0 w.cregState, w) := by
    rw [creg_shutdown_sockets, critical (creg_get w) hl, set_V (creg_get w),
      registryLock.reopen hl, Obj.set_get _ (creg_get w)]
    rfl
  rw [creg_shutdown_all, Prog.run_bind_ok hsockets]
  exact creg_shutdown_loop_run hl hfuel (Nat.zero_le _)

theorem terminate_run {fuel : Nat} (hl : w.cregState.registryLock = 1)
    (hfuel : w.cregState.nodes.length < fuel)
    (hup : w.cregState.notEmpty = 0 →
      1 ≤ w.cregState.clientCount ∧ w.cregState.clientCount ≤ w.cregState.nodes.length) :
    (terminate fuel).run w = .ok ((), creg.set (w.cregState.closed w.cregState.nodes) w) := by
  have hne := ClientRegistry.closed_up hup
  have hback : notEmpty.value (w.cregState.closed w.cregState.nodes) - 1 + 1 =
      notEmpty.value (w.cregState.closed w.cregState.nodes) :=
    Nat.sub_add_cancel (Nat.pos_of_ne_zero hne)
  rw [terminate, Prog.run_bind_ok (creg_shutdown_all_run hl hfuel), creg_wait_for_empty,
    Prog.run_bind_ok (P_run (creg.get_set (creg_get w)) hne), Obj.set_set,
    V_run (creg.get_set (creg_get w)), Obj.set_set, notEmpty.value_put, notEmpty.put_put,
    hback, notEmpty.put_value]

end Shutdown

/-- From every state in which no thread is inside a call, the server comes to its end, if one
more reference has been taken of each CLIENT than the registry gives up. It leaves with nobody
counted, with `notEmpty` up, and with all CLIENTs still there. -/
theorem terminate_of_init {c : Threads ι World Point} (h : Reaches Started Step c)
    (hidle : ∀ t, c.2 t = .ret .idle) {fuel : Nat} (hfuel : c.1.cregState.nodes.length < fuel)
    (refs : ClientPtr → Nat) (hrefs : c.1.cregState.Outlasted refs) :
    ∃ w, (terminate fuel).run c.1 = .ok ((), w) ∧ w.cregState.registryLock = 1 ∧
      w.cregState.nodes = c.1.cregState.nodes ∧ w.cregState.clientCount ≤ 0 ∧
      w.cregState.notEmpty ≠ 0 ∧ w.cregState.Referenced refs := by
  obtain ⟨up, phase, hg⟩ := going_of_init h
  obtain ⟨hlock, hup⟩ := hg.quiet hidle
  have hnodes := Bounded.nodes (hg.rest (by rw [hlock]; exact Nat.one_ne_zero))
  have hcloses := ClientRegistry.closed_closes c.1.cregState.nodes c.1.cregState
  refine ⟨_, terminate_run hlock hfuel hup, hcloses.lock.trans hlock, hcloses.nodes, ?_,
    ClientRegistry.closed_up hup, hrefs.closed⟩
  show (c.1.cregState.closed c.1.cregState.nodes).clientCount ≤ 0
  rw [hcloses.count]
  omega

/-- A client is there, so `notEmpty` is down; another one has come and gone. Somebody else holds
two references to each. -/
theorem terminate_of_init_registered : ∃ w w' : World, w.cregState.registered = [0] ∧
    w.cregState.released = [1] ∧ w.cregState.notEmpty = 0 ∧
    (terminate 3).run w = .ok ((), w') ∧ w'.cregState.Referenced fun _ => 3 := by
  have h₁ := (started_initial fun c => c).step (.call (t := true) (.register 0) rfl rfl)
  have h₂ := reaches_of_turns h₁ (l := List.replicate 5 true) rfl
  have h₃ := h₂.step (.call (t := true) (.register 1) rfl rfl)
  have h₄ := reaches_of_turns h₃ (l := List.replicate 3 true) rfl
  have h₅ := h₄.step (.call (t := true) (.unregister 1) rfl rfl)
  have h₆ := reaches_of_turns h₅ (l := List.replicate 6 true) rfl
  have honce : ∀ d, List.count d [1] + List.count d [0, 1] < 3 := fun d =>
    Nat.lt_succ_of_le (Nat.add_le_add (List.nodup_iff_count.mp (by decide) d)
      (List.nodup_iff_count.mp (by decide) d))
  obtain ⟨w', hrun, -, -, -, -, hleft⟩ : ∃ w', (terminate 3).run _ = .ok ((), w') ∧ _ :=
    terminate_of_init h₆ (fun t => by cases t <;> rfl) (by decide) (fun _ => 3) fun d _ => honce d
  exact ⟨_, w', rfl, rfl, rfl, hrun, hleft⟩

end StarterProjects.Jeux
