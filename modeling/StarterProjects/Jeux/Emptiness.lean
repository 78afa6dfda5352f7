import StarterProjects.Jeux.Sections

/-!
# Waiting for an empty registry

`notEmpty` is 1 while nobody is registered and 0 otherwise, or so it should be: the first
node takes it down and the departure that brings the count to 0 puts it up again. Since a
drained registry keeps its nodes, the next registration takes the branch that leaves
`notEmpty` alone; and a failed departure puts it up once more.

`right_of_init`: in a run whose registrations do not come into a drained list, and whose
departures are of registered clients, or fail while somebody is registered, the semaphore
is right.
-/

namespace StarterProjects.Jeux

open Lib

variable {ι : Type} [DecidableEq ι]

/-- With `registryLock` free and no thread passing, `notEmpty` tells whether the registry is
empty; and a thread passes only when it is. -/
def Right (c : Threads ι World Point) : Prop :=
  (c.1.cregState.registryLock = 1 → (∀ t, ¬ Passing (c.2 t)) →
    c.1.cregState.notEmpty = if c.1.cregState.registered = [] then 1 else 0) ∧
  ∀ t c', Step c (t, some .waitForEmpty) c' → c.1.cregState.registered = []

/-- The client is registered, or it is not found while somebody is registered. -/
def Leaves (w : World) (c : ClientPtr) : Prop :=
  c ∈ w.cregState.registered ∨ ¬ Listed w c ∧ w.cregState.clientCount ≠ 0

/-- What is asked of a step that takes `registryLock`. -/
def Fits (c : Threads ι World Point) : ι × Option Call → Prop
  | (_, some (.register _)) => c.1.cregState.nodes ≠ [] → c.1.cregState.clientCount ≠ 0
  | (_, some (.unregister client)) => Leaves c.1 client
  | (_, some _) => True
  | (t, none) => ∀ client i, c.2 t = .ret (.leave client i) → Leaves c.1 client

/-! ## The discipline -/

/-- The registry between two critical sections; `up` tells whether `notEmpty` is up, or down
because of a thread that passes. -/
structure Steady (r : ClientRegistry) (up : Bool) : Prop where
  up_iff : up = true ↔ r.registered = []
  count : r.clientCount = r.registered.length
  nodes : ∀ c ∈ r.registered, c ∈ r.nodes

theorem Steady.same {r r' : ClientRegistry} {up : Bool} (h : Steady r up) (hs : Same r' r) :
    Steady r' up := by
  obtain ⟨hn, hc, hreg⟩ := hs
  refine ⟨?_, ?_, ?_⟩
  · rw [hreg]
    exact h.up_iff
  · rw [hc, hreg]
    exact h.count
  · rw [hn, hreg]
    exact h.nodes

/-- `notEmpty` is up for an empty registry, and no thread passes while it is down for one that
is not. A section puts it up when the last client has gone. -/
def steadily (ι : Type) [DecidableEq ι] : Discipline ι where
  rest := Steady
  inside := fun r up => up = true → r.registered = []
  gives := fun r up => up = false ∧ r.registered = []
  token := fun up n phase =>
    (up = true → Owned .passing n phase) ∧ (up = false → Taken .passing n phase)
  rest_same := Steady.same
  inside_same := fun h hs hup => hs.2.2.trans (h hup)
  inside_taken := fun _ => nofun
  inside_given := fun h _ => h.2
  keeps := fun {up n phase t y} h ht hy =>
    ⟨fun hup => (h.1 hup).pass ht hy, fun hup => (h.2 hup).pass t hy⟩
  passes := fun {up n phase t} h hn => by
    cases up with
    | false => exact absurd (h.2 rfl).1 hn
    | true => exact ⟨fun _ => (h.1 rfl).enter hn t, nofun⟩
  passed := fun {up n phase t} h ht => by
    cases up with
    | false => exact absurd ht ((h.2 rfl).2 t)
    | true => exact ⟨fun _ => (h.1 rfl).leave ht nofun, nofun⟩
  takes := fun h hn => ⟨nofun, fun _ => .of_owned (h.1 rfl) hn⟩
  given := fun hg h => ⟨fun _ => (h.2 hg.1).owned, nofun⟩

section Sections

variable {fd : ClientPtr → Int} {r : ClientRegistry} {up : Bool} {c : ClientPtr} {a : Point}

theorem Steady.down (h : Steady r up) (hreg : r.registered ≠ []) : up = false :=
  Bool.eq_false_iff.mpr fun hup => hreg (h.up_iff.mp hup)

/-- A registered client leaves, so `notEmpty` is down. -/
theorem steady_drop (hs : Steady r up) (hc : c ∈ r.registered) :
    Section (steadily ι) fd r up (creg_drop c >>= fun _ => .ret a) := by
  obtain rfl := hs.down (List.ne_nil_of_mem hc)
  have hpos := List.length_pos_of_mem hc
  have hlen : (r.clientCount - 1 : Int) = (r.registered.erase c).length := by
    rw [hs.count, List.length_erase_of_mem hc]
    omega
  have hnodes : ∀ d ∈ r.registered.erase c, d ∈ r.nodes := fun d hd =>
    hs.nodes d (List.mem_of_mem_erase hd)
  refine section_drop nofun (fun h0 => ?_) fun h0 => ?_
  · have hnil : r.registered.erase c = [] :=
      List.eq_nil_of_length_eq_zero (by rw [h0] at hlen; omega)
    exact ⟨⟨rfl, hnil⟩, iff_of_true rfl hnil, hlen, hnodes⟩
  · refine ⟨iff_of_false Bool.false_ne_true fun hnil => h0 ?_, hlen, hnodes⟩
    have hnil' : r.registered.erase c = [] := hnil
    rw [hlen, hnil']
    rfl

theorem steady_unregister
    (hfit : c ∈ r.registered ∨ ¬ (∃ d ∈ r.nodes, fd d = fd c) ∧ r.clientCount ≠ 0) :
    Admits (steadily ι) fd r (creg_unregister c >>= fun _ => .ret a) := by
  refine admits_unregister (fun up hs _ hfound => ?_) fun up hs _ hnone => ?_
  · exact steady_drop hs (hfit.resolve_right fun h => h.1 hfound)
  · have h0 : r.clientCount ≠ 0 := by
      rcases hfit with hc | ⟨-, h0⟩
      · exact absurd rfl (hnone c (hs.nodes c hc))
      · exact h0
    exact section_signal (fun h => absurd h h0) fun _ => hs

theorem steady_register (hfit : r.nodes ≠ [] → r.clientCount ≠ 0) :
    Admits (steadily ι) fd r (Call.register c).prog := by
  have hsome : ∀ l : List ClientPtr, l ++ [c] ≠ [] := fun l =>
    List.append_ne_nil_of_right_ne_nil l (List.cons_ne_nil c [])
  have hlen : ∀ up, Steady r up → r.clientCount + 1 = ((r.registered ++ [c]).length : Int) :=
    fun up hs => by
      rw [hs.count, List.length_append]
      rfl
  refine admits_register (fun up hs _ hn => ?_) fun up hs _ hn => ?_
  · have hreg : r.registered = [] := List.eq_nil_iff_forall_not_mem.mpr fun d hd => by
      have hmem := hs.nodes d hd
      rw [hn] at hmem
      cases hmem
    refine ⟨hs.up_iff.mpr hreg, fun _ => hreg, iff_of_false nofun (hsome _), hlen up hs, ?_⟩
    intro d hd
    have hd' : d ∈ r.registered ++ [c] := hd
    rwa [hreg] at hd'
  · have hreg : r.registered ≠ [] := fun h => hfit hn (by rw [hs.count, h]; rfl)
    obtain rfl := hs.down hreg
    refine ⟨nofun, iff_of_false nofun (hsome _), hlen _ hs, fun d hd => ?_⟩
    have hd' : d ∈ r.registered ++ [c] := hd
    rcases List.mem_append.mp hd' with hd | hd
    · exact List.mem_append_left _ (hs.nodes d hd)
    · exact List.mem_append_right _ hd

end Sections

/-! ## Every run -/

theorem Going.right {c : Threads ι World Point} {up : Bool} {phase : ι → Phase}
    (h : Going (steadily ι) c.1 c.2 up phase) : Right c := by
  refine ⟨fun hl hnone => ?_, fun t c' hs => ?_⟩
  · have hs : Steady c.1.cregState up := h.rest (by omega)
    have hpass : ∀ t, phase t ≠ .passing := fun t ht => hnone t (h.passes ht)
    cases up with
    | true =>
      rw [if_pos (h.inside rfl)]
      rcases h.token.1 rfl with ⟨h1, _⟩ | ⟨_, t, ht, _⟩
      · exact h1
      · exact absurd ht (hpass t)
    | false =>
      rw [if_neg fun hreg => Bool.noConfusion (hs.up_iff.mpr hreg)]
      exact (h.token.2 rfl).1
  · cases hs with
    | call _ hp hturn =>
      have hup := (passing_turn hturn).1
      cases up with
      | true => exact h.inside rfl
      | false => exact absurd (h.token.2 rfl).1 hup

/-- In every run whose steps fit, and in every state of it, the semaphore is right. -/
theorem right_of_init {c : Threads ι World Point}
    (h : Reaches Started (fun c e c' => Step c e c' ∧ Fits c e) c) : Right c := by
  have hcall : ∀ (c : Threads ι World Point) t call, Fits c (t, some call) →
      call ≠ .waitForEmpty →
      Admits (steadily ι) c.1.clientFd c.1.cregState call.prog := fun c t call hfit hne => by
    cases call with
    | register d => exact steady_register hfit
    | unregister d => exact steady_unregister hfit
    | waitForEmpty => exact absurd rfl hne
    | shutdownAll => exact admits_sockets
  obtain ⟨up, phase, hg⟩ := Going.of_reaches (D := steadily ι)
    (fun hn hc hreg => ⟨⟨iff_of_true rfl hreg, by rw [hc, hreg]; rfl, fun d hd => by
      rw [hreg] at hd; cases hd⟩, fun _ => hreg⟩)
    ⟨fun _ => .inl ⟨rfl, nofun⟩, nofun⟩ hcall
    (fun c t d i hfit hp => steady_unregister (hfit d i hp)) h
  exact hg.right

theorem fits_go {c c' : Threads ι World Point} {t : ι} (h : turn t c = some c') :
    Fits c (t, none) := fun client i hp => by
  rw [turn_ret hp] at h
  cases h

/-- One thread: a client is registered. -/
theorem right_registered : ∃ c : Threads Unit World Point,
    c.1.cregState.registered = [0] ∧ Right c := by
  have h₀ : Reaches Started (fun c e c' => Step c e c' ∧ Fits c e)
      ((World.initial fun _ => 4, fun _ => .ret .idle) : Threads Unit World Point) :=
    .init ⟨⟨World.initial fun _ => 4, rfl⟩, fun _ => rfl⟩
  have h₁ := h₀.step (i := ((), some (Call.register 0)))
    ⟨.call (.register 0) rfl rfl, fun (hn : [] ≠ []) => absurd rfl hn⟩
  have h₂ := reaches_turns (fun _ _ _ => fits_go) (l := List.replicate 5 ()) h₁ rfl
  exact ⟨_, rfl, right_of_init h₂⟩

/-- One thread: a client comes and goes, and another one comes. It is registered, and
`notEmpty` is still up. -/
theorem open_while_registered : ∃ c : Threads Unit World Point,
    Reaches Started Step c ∧ c.1.cregState.registered = [1] ∧ c.1.cregState.notEmpty = 1 ∧
      ¬ Right c := by
  have hgo : ∀ {l : List Unit} {c c' : Threads Unit World Point},
      Reaches Started (fun c e c' => Step c e c' ∧ True) c → turns l c = some c' →
      Reaches Started (fun c e c' => Step c e c' ∧ True) c' :=
    reaches_turns fun _ _ _ _ => trivial
  have h₀ : Reaches Started (fun c e c' => Step c e c' ∧ True)
      ((World.initial fun c => c, fun _ => .ret .idle) : Threads Unit World Point) :=
    .init ⟨⟨World.initial fun c => c, rfl⟩, fun _ => rfl⟩
  have h₁ := h₀.step (i := ((), some (.register 0))) ⟨.call (.register 0) rfl rfl, trivial⟩
  have h₂ := hgo (l := List.replicate 5 ()) h₁ rfl
  have h₃ := h₂.step (i := ((), some (.unregister 0))) ⟨.call (.unregister 0) rfl rfl, trivial⟩
  have h₄ := hgo (l := List.replicate 7 ()) h₃ rfl
  have h₅ := h₄.step (i := ((), some (.register 1))) ⟨.call (.register 1) rfl rfl, trivial⟩
  have h₆ := hgo (l := List.replicate 3 ()) h₅ rfl
  refine ⟨_, h₆.mono fun _ _ _ h => h.1, rfl, rfl, fun hr => ?_⟩
  exact absurd (hr.1 rfl fun _ hp => by cases hp) Nat.one_ne_zero

end StarterProjects.Jeux
