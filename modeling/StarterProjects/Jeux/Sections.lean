import StarterProjects.Jeux.ClientRegistry
import StarterProjects.Lib.Mutex
import StarterProjects.Lib.Reach

/-!
# Threads that call the client registry

Any number of threads call `creg_register`, `creg_unregister`, `creg_wait_for_empty` and
`creg_shutdown_all`, one action after the other. What is kept of the registry is different
from claim to claim; how it is kept is not. A `Discipline` says what is kept between two
critical sections and inside of one, and what the phases of the threads tell about
`notEmpty`. `Section` are the programs that keep it, with one rule for each action, and
`Going` is the invariant of all threads.

`Going.step`: a thread that enters with a section, or that waits for an empty registry,
keeps the invariant with each of its actions.
-/

namespace StarterProjects.Jeux

open Lib

inductive Call where
  | register (newClient : ClientPtr)
  | unregister (client : ClientPtr)
  | waitForEmpty
  | shutdownAll

/-- Where a thread is between its critical sections: in no call, or in the second loop of
`creg_shutdown_all`, at a node or about to unregister its client. -/
inductive Point where
  | idle
  | visit (i : Nat)
  | leave (client : ClientPtr) (i : Nat)

def Call.prog : Call → Prog World Point
  | .register c => creg_register c >>= fun _ => .ret .idle
  | .unregister c => creg_unregister c >>= fun _ => .ret .idle
  | .waitForEmpty => creg_wait_for_empty >>= fun _ => .ret .idle
  | .shutdownAll => creg_shutdown_sockets >>= fun _ => .ret (.visit 0)

def Point.prog : Point → Prog World Point
  | .idle => .ret .idle
  | .visit i => creg_shutdown_node i >>= fun
    | none => .ret .idle
    | some c => .ret (.leave c i)
  | .leave c i => creg_unregister c >>= fun _ => .ret (.visit (i + 1))

section Steps

variable {ι : Type} [DecidableEq ι]

/-- One action of the thread `t`: the first one of the call that it makes, the first one of
what comes next in its loop, or one inside a critical section. -/
inductive Step : Threads ι World Point → ι × Option Call → Threads ι World Point → Prop
  | call {c t c'} (call : Call) : c.2 t = .ret .idle →
      turn t (c.1, Function.update c.2 t call.prog) = some c' → Step c (t, some call) c'
  | loop {c t c'} (p : Point) : c.2 t = .ret p →
      turn t (c.1, Function.update c.2 t p.prog) = some c' → Step c (t, none) c'
  | go {c t c'} : turn t c = some c' → Step c (t, none) c'

def Started (c : Threads ι World Point) : Prop :=
  (∃ w, creg_init.run w = .ok ((), c.1)) ∧ ∀ t, c.2 t = .ret .idle

end Steps

/-- The thread has done its `P(notEmpty)` in `creg_wait_for_empty` and not yet its `V`. -/
def Passing (p : Prog World Point) : Prop := p = (V creg notEmpty >>= fun _ => .ret .idle)

inductive Phase where
  | outside
  | passing
  | holding

/-- The same registry, but for the two semaphores and the references. -/
def Same (r r' : ClientRegistry) : Prop :=
  r.nodes = r'.nodes ∧ r.clientCount = r'.clientCount ∧ r.registered = r'.registered

theorem Same.refl (r : ClientRegistry) : Same r r := ⟨rfl, rfl, rfl⟩

theorem Same.trans {r r' r'' : ClientRegistry} (h : Same r r') (h' : Same r' r'') : Same r r'' :=
  ⟨h.1.trans h'.1, h.2.1.trans h'.2.1, h.2.2.trans h'.2.2⟩

/-! ## Disciplines -/

/-- What is kept of the registry: between two critical sections (`rest`) and all the time
(`inside`), and when a thread may put `notEmpty` up (`gives`). `up` tells whether `notEmpty`
is up, or down because of a thread that passes; what it says of the semaphore and the threads
is `token`. -/
structure Discipline (ι : Type) [DecidableEq ι] where
  rest : ClientRegistry → Bool → Prop
  inside : ClientRegistry → Bool → Prop
  gives : ClientRegistry → Bool → Prop
  token : Bool → Nat → (ι → Phase) → Prop
  rest_same : ∀ {r r' up}, rest r up → Same r' r → rest r' up
  inside_same : ∀ {r r' up}, inside r up → Same r' r → inside r' up
  inside_taken : ∀ r, inside r false
  inside_given : ∀ {r up}, gives r up → inside r true
  keeps : ∀ {up n phase t y}, token up n phase → phase t ≠ .passing → y ≠ Phase.passing →
    token up n (Function.update phase t y)
  passes : ∀ {up n phase t}, token up n phase → n ≠ 0 →
    token up (n - 1) (Function.update phase t .passing)
  passed : ∀ {up n phase t}, token up n phase → phase t = .passing →
    token up (n + 1) (Function.update phase t .outside)
  takes : ∀ {n phase}, token true n phase → n ≠ 0 → token false (n - 1) phase
  given : ∀ {r up n phase}, gives r up → token up n phase → token true (n + 1) phase

variable {ι : Type} [DecidableEq ι]

/-- `p` is the rest of a critical section that leaves the registry as the discipline wants it.
The rules are those of the actions of a section; `fd` gives the descriptors. -/
inductive Section (D : Discipline ι) (fd : ClientPtr → Int) :
    ClientRegistry → Bool → Prog World Point → Prop
  | leave {r up a} : D.rest r up → Section D fd r up (V creg registryLock >>= fun _ => .ret a)
  | read {r up k} : (∀ r', Same r' r → Section D fd r up (k r')) →
      Section D fd r up (creg.read >>= k)
  | ask {r up k} : Section D fd r up (k fd) → Section D fd r up (Prog.ask World.clientFd >>= k)
  | update {r up f s k} : (∀ r', Same r' r → Same (f r') s ∧
        (f r').registryLock = r'.registryLock ∧ (f r').notEmpty = r'.notEmpty) →
      D.inside s up → Section D fd s up (k ()) → Section D fd r up (creg.update f >>= k)
  | take {r k} : Section D fd r false (k ()) → Section D fd r true (P creg notEmpty >>= k)
  | give {r up k} : D.gives r up → Section D fd r true (k ()) →
      Section D fd r up (V creg notEmpty >>= k)

/-- The program takes the lock; from what is kept on, the rest of it is a section. -/
def Admits (D : Discipline ι) (fd : ClientPtr → Int) (r : ClientRegistry) (p : Prog World Point) :
    Prop :=
  ∃ q, p = (P creg registryLock >>= q) ∧
    ∀ up, D.rest r up → D.inside r up → Section D fd r up (q ())

/-! ## The functions -/

section Functions

variable {D : Discipline ι} {fd : ClientPtr → Int} {r : ClientRegistry} {up : Bool} {c : ClientPtr}
  {a : Point}

/-- The end of `creg_unregister`: `notEmpty` goes up when the count is 0. -/
theorem section_signal {res : Int}
    (h0 : r.clientCount = 0 → D.gives r up ∧ D.rest r true)
    (h : r.clientCount ≠ 0 → D.rest r up) :
    Section D fd r up (creg_signal res >>= fun _ => .ret a) := by
  show Section D fd r up (creg.read >>= fun r' => (if r'.clientCount = 0 then
    V creg notEmpty >>= fun _ => V creg registryLock >>= fun _ => .ret res
    else V creg registryLock >>= fun _ => .ret res : Prog World Int) >>= fun _ => .ret a)
  refine .read fun r' hr => ?_
  rw [hr.2.1]
  split
  · next hc =>
    show Section D fd r up (V creg notEmpty >>= fun _ => V creg registryLock >>= fun _ => .ret a)
    exact .give (h0 hc).1 (.leave (h0 hc).2)
  · next hc =>
    show Section D fd r up (V creg registryLock >>= fun _ => .ret a)
    exact .leave (h hc)

/-- The registry with the count lowered for `c`. -/
def ClientRegistry.lowered (r : ClientRegistry) (c : ClientPtr) : ClientRegistry :=
  { r with clientCount := r.clientCount - 1, registered := r.registered.erase c }

theorem section_drop (hin : D.inside (r.lowered c) up)
    (h0 : r.clientCount - 1 = 0 → D.gives (r.lowered c) up ∧ D.rest (r.lowered c) true)
    (h : r.clientCount - 1 ≠ 0 → D.rest (r.lowered c) up) :
    Section D fd r up (creg_drop c >>= fun _ => .ret a) := by
  rw [creg_drop, Prog.bind_assoc]
  refine .update (s := r.lowered c) (fun r' hr => ⟨⟨hr.1, ?_, ?_⟩, rfl, rfl⟩) hin ?_
  · show r'.clientCount - 1 = r.clientCount - 1
    rw [hr.2.1]
  · show r'.registered.erase c = r.registered.erase c
    rw [hr.2.2]
  rw [client_unref, Prog.bind_assoc]
  exact .update (s := r.lowered c) (fun r' hr => ⟨hr, rfl, rfl⟩) hin (section_signal h0 h)

/-- Some node has the descriptor of `c`, or none has. -/
theorem section_find
    (hdrop : (∃ d ∈ r.nodes, fd d = fd c) → Section D fd r up (creg_drop c >>= fun _ => .ret a))
    (hnone : (∀ d ∈ r.nodes, fd d ≠ fd c) →
      Section D fd r up (creg_signal (-1) >>= fun _ => .ret a)) :
    ∀ {nodes : List ClientPtr}, (∀ d ∈ nodes, d ∈ r.nodes) →
      (∀ d ∈ r.nodes, d ∈ nodes ∨ fd d ≠ fd c) →
      Section D fd r up (creg_find fd c nodes >>= fun _ => .ret a)
  | [], _, hall => hnone fun d hd => (hall d hd).resolve_left List.not_mem_nil
  | d :: nodes, hsub, hall => by
    rw [creg_find]
    split
    · next hd => exact hdrop ⟨d, hsub d List.mem_cons_self, hd⟩
    · next hd =>
      refine section_find hdrop hnone (fun e he => hsub e (List.mem_cons_of_mem _ he))
        fun e he => ?_
      refine (hall e he).elim (fun hmem => ?_) .inr
      rcases List.mem_cons.mp hmem with rfl | hmem
      · exact .inr hd
      · exact .inl hmem

theorem admits_unregister
    (hdrop : ∀ up, D.rest r up → D.inside r up → (∃ d ∈ r.nodes, fd d = fd c) →
      Section D fd r up (creg_drop c >>= fun _ => .ret a))
    (hnone : ∀ up, D.rest r up → D.inside r up → (∀ d ∈ r.nodes, fd d ≠ fd c) →
      Section D fd r up (creg_signal (-1) >>= fun _ => .ret a)) :
    Admits D fd r (creg_unregister c >>= fun _ => .ret a) := by
  refine ⟨_, Prog.bind_assoc _ _ _, fun up hrest hin => ?_⟩
  rw [Prog.bind_assoc]
  refine .read fun r' hr => ?_
  rw [Prog.bind_assoc]
  refine .ask ?_
  have hfind := section_find (hdrop up hrest hin) (hnone up hrest hin) (fun _ => id) fun _ => .inl
  rw [hr.1]
  -- the first node is compared twice
  generalize r.nodes = nodes at hfind
  cases nodes with
  | nil => exact hfind
  | cons d rest =>
    rw [creg_find] at hfind
    show Section D fd r up ((if fd d = fd c then _ else _ : Prog World Int) >>= _)
    split at hfind
    · next hd =>
      rw [if_pos hd]
      exact hfind
    · next hd =>
      rw [if_neg hd, creg_find, if_neg hd]
      exact hfind

/-- The first node takes `notEmpty` down, any other one does not. -/
theorem admits_register
    (hfirst : ∀ up, D.rest r up → ¬ r.clientCount ≥ MAX_CLIENTS → r.nodes = [] → up = true ∧
      D.inside { r with nodes := [c], clientCount := r.clientCount + 1 } true ∧
      D.rest { r with
        nodes := [c], clientCount := r.clientCount + 1, registered := r.registered ++ [c] } false)
    (hmore : ∀ up, D.rest r up → ¬ r.clientCount ≥ MAX_CLIENTS → r.nodes ≠ [] →
      D.inside { r with
        nodes := r.nodes ++ [c]
        clientCount := r.clientCount + 1
        registered := r.registered ++ [c] } up ∧
      D.rest { r with
        nodes := r.nodes ++ [c]
        clientCount := r.clientCount + 1
        registered := r.registered ++ [c] } up) :
    Admits D fd r (Call.register c).prog := by
  refine ⟨_, Prog.bind_assoc _ _ _, fun up hrest _ => ?_⟩
  rw [Prog.bind_assoc]
  refine .read fun r' hr => ?_
  show Section D fd r up ((if r'.clientCount ≥ MAX_CLIENTS then _
    else if r'.nodes = [] then _ else _ : Prog World _) >>= _)
  rw [hr.2.1, hr.1]
  split
  · show Section D fd r up (V creg registryLock >>= fun _ => .ret .idle)
    exact .leave hrest
  next hroom =>
  split
  · next hn =>
    obtain ⟨rfl, hin, hdone⟩ := hfirst up hrest hroom hn
    show Section D fd r true (creg.update _ >>= fun _ => P creg notEmpty >>= fun _ =>
      creg.update _ >>= fun _ => V creg registryLock >>= fun _ => .ret .idle)
    refine .update (s := { r with nodes := [c], clientCount := r.clientCount + 1 })
      (fun r' hr => ⟨⟨rfl, ?_, hr.2.2⟩, rfl, rfl⟩) hin (.take (.update
      (s := { r with
        nodes := [c], clientCount := r.clientCount + 1, registered := r.registered ++ [c] })
      (fun r' hr => ⟨⟨hr.1, hr.2.1, ?_⟩, rfl, rfl⟩) (D.inside_taken _) (.leave hdone)))
    · show r'.clientCount + 1 = _
      rw [hr.2.1]
    · show r'.registered ++ [c] = _
      rw [hr.2.2]
  · next hn =>
    obtain ⟨hin, hdone⟩ := hmore up hrest hroom hn
    show Section D fd r up (creg.update _ >>= fun _ => V creg registryLock >>= fun _ => .ret .idle)
    refine .update (s := { r with
        nodes := r.nodes ++ [c]
        clientCount := r.clientCount + 1
        registered := r.registered ++ [c] })
      (fun r' hr => ⟨⟨?_, ?_, ?_⟩, rfl, rfl⟩) hin (.leave hdone)
    · show r'.nodes ++ [c] = _
      rw [hr.1]
    · show r'.clientCount + 1 = _
      rw [hr.2.1]
    · show r'.registered ++ [c] = _
      rw [hr.2.2]

theorem admits_sockets : Admits D fd r Call.shutdownAll.prog :=
  ⟨_, Prog.bind_assoc _ _ _, fun up hrest _ => by
    rw [Prog.bind_assoc]
    exact .read fun _ _ => .leave hrest⟩

end Functions

/-! ## All threads -/

/-- What a thread in this phase still has to do. -/
def Placed (D : Discipline ι) (w : World) (up : Bool) : Phase → Prog World Point → Prop
  | .outside, p => ∃ a, p = .ret a
  | .passing, p => Passing p
  | .holding, p => ∃ r, Same w.cregState r ∧ Section D w.clientFd r up p

/-- `registryLock` is down for the one thread that holds it, and the discipline is kept. -/
structure Going (D : Discipline ι) (w : World) (pool : ι → Prog World Point) (up : Bool)
    (phase : ι → Phase) : Prop where
  lock : Owned .holding w.cregState.registryLock phase
  token : D.token up w.cregState.notEmpty phase
  inside : D.inside w.cregState up
  rest : w.cregState.registryLock ≠ 0 → D.rest w.cregState up
  threads : ∀ t, Placed D w up (phase t) (pool t)

section Threads

variable {D : Discipline ι} {w w' : World} {pool : ι → Prog World Point} {up up' : Bool}
  {phase : ι → Phase} {t : ι} {p : Prog World Point} {a : Point} {c' : Threads ι World Point}

/-- One thread moves; another one that holds the lock sees nothing of it. -/
theorem placed_update {y : Phase} (h : ∀ u, Placed D w up (phase u) (pool u))
    (ht : Placed D w' up' y p)
    (hkeep : ∀ u, u ≠ t → phase u = .holding →
      Same w'.cregState w.cregState ∧ w'.clientFd = w.clientFd ∧ up' = up) (u : ι) :
    Placed D w' up' (Function.update phase t y u) (Function.update pool t p u) := by
  rcases eq_or_ne u t with rfl | hu
  · rw [Function.update_self, Function.update_self]
    exact ht
  rw [Function.update_of_ne hu, Function.update_of_ne hu]
  have hat := h u
  cases hph : phase u with
  | outside | passing =>
    rw [hph] at hat
    exact hat
  | holding =>
    obtain ⟨hs, hfd, rfl⟩ := hkeep u hu hph
    rw [hph] at hat
    obtain ⟨r, hr, hp⟩ := hat
    exact ⟨r, hs.trans hr, hfd ▸ hp⟩

theorem Going.enter (h : Going D w pool up phase) (ht : phase t = .outside)
    (hp : Admits D w.clientFd w.cregState p)
    (hturn : turn t (w, Function.update pool t p) = some c') :
    ∃ up phase, Going D c'.1 c'.2 up phase := by
  obtain ⟨q, hq, hsection⟩ := hp
  obtain ⟨hv, rfl⟩ := P_turn ((Function.update_self ..).trans hq) (creg_get w) hturn
  have h1 := (h.lock.up hv).1
  have hnone := (h.lock.up hv).2
  refine ⟨up, Function.update phase t .holding, h.lock.enter hv t,
    D.keeps h.token (by rw [ht]; nofun) nofun, D.inside_same h.inside ⟨rfl, rfl, rfl⟩,
    fun hl => ?_, ?_⟩
  · exact absurd (show w.cregState.registryLock - 1 = 0 by rw [h1]) hl
  · rw [Function.update_idem]
    exact placed_update h.threads ⟨w.cregState, .refl _, hsection _ (h.rest hv) h.inside⟩
      fun u _ hu => absurd hu (hnone u)

/-- `P(notEmpty)` of a thread that waits. -/
theorem passing_turn (hturn : turn t (w, Function.update pool t Call.waitForEmpty.prog) = some c') :
    w.cregState.notEmpty ≠ 0 ∧
      c' = (creg.set (notEmpty.put (w.cregState.notEmpty - 1) w.cregState) w,
        Function.update pool t (V creg notEmpty >>= fun _ => .ret .idle)) := by
  have hp : Function.update pool t Call.waitForEmpty.prog t =
      P creg notEmpty >>= fun _ => V creg notEmpty >>= fun _ => .ret .idle :=
    (Function.update_self ..).trans (Prog.bind_assoc _ _ _)
  obtain ⟨hv, rfl⟩ := P_turn hp (creg_get w) hturn
  rw [Function.update_idem]
  exact ⟨hv, rfl⟩

theorem Going.pass (h : Going D w pool up phase) (ht : phase t = .outside)
    (hturn : turn t (w, Function.update pool t Call.waitForEmpty.prog) = some c') :
    ∃ up phase, Going D c'.1 c'.2 up phase := by
  obtain ⟨hv, rfl⟩ := passing_turn hturn
  refine ⟨up, Function.update phase t .passing, h.lock.pass (by rw [ht]; nofun) nofun,
    D.passes h.token hv, D.inside_same h.inside ⟨rfl, rfl, rfl⟩,
    fun hl => D.rest_same (h.rest hl) ⟨rfl, rfl, rfl⟩, ?_⟩
  exact placed_update h.threads rfl fun _ _ _ => ⟨⟨rfl, rfl, rfl⟩, rfl, rfl⟩

theorem Going.passes (h : Going D w pool up phase) (ht : phase t = .passing) :
    pool t = V creg notEmpty >>= fun _ => .ret .idle := by
  have hat := h.threads t
  rw [ht] at hat
  exact hat

theorem Going.passed (h : Going D w pool up phase) (ht : phase t = .passing)
    (hturn : turn t (w, pool) = some c') : ∃ up phase, Going D c'.1 c'.2 up phase := by
  cases (V_turn (h.passes ht) (creg_get w)).symm.trans hturn
  refine ⟨up, Function.update phase t .outside, h.lock.pass (by rw [ht]; nofun) nofun,
    D.passed h.token ht, D.inside_same h.inside ⟨rfl, rfl, rfl⟩,
    fun hl => D.rest_same (h.rest hl) ⟨rfl, rfl, rfl⟩, ?_⟩
  exact placed_update h.threads ⟨_, rfl⟩ fun _ _ _ => ⟨⟨rfl, rfl, rfl⟩, rfl, rfl⟩

/-- The next node is read without the lock. -/
theorem visit_prog (pool : ι → Prog World Point) (t : ι) (i : Nat) :
    Function.update pool t (Point.visit i).prog t = creg.read >>= fun r =>
      match r.nodes[i]? with
      | none => .ret .idle
      | some c => .ret (.leave c i) :=
  (Function.update_self ..).trans (Prog.bind_assoc _ _ _)

theorem still {x : Phase} (ht : phase t = x) : Function.update phase t x = phase := by
  rw [← ht]
  exact Function.update_eq_self ..

theorem Going.visit {i : Nat} (h : Going D w pool up phase) (ht : phase t = .outside)
    (hturn : turn t (w, Function.update pool t (Point.visit i).prog) = some c') :
    ∃ up phase, Going D c'.1 c'.2 up phase := by
  cases (read_turn (visit_prog pool t i) (creg_get w)).symm.trans hturn
  refine ⟨up, phase, h.lock, h.token, h.inside, h.rest, ?_⟩
  rw [Function.update_idem]
  have hstands : ∀ {p : Prog World Point}, (∃ a, p = .ret a) →
      ∀ u, Placed D w up (phase u) (Function.update pool t p u) := fun {p} hp u => by
    have hu := placed_update (t := t) (y := .outside) h.threads hp
      (fun _ _ _ => ⟨.refl _, rfl, rfl⟩) u
    rwa [still ht] at hu
  refine hstands ?_
  split
  · exact ⟨_, rfl⟩
  · exact ⟨_, rfl⟩

/-- The thread in the critical section: one case for each of its actions. -/
theorem Going.held (h : Going D w pool up phase) (ht : phase t = .holding)
    (hturn : turn t (w, pool) = some c') : ∃ up phase, Going D c'.1 c'.2 up phase := by
  obtain ⟨r, hr, hp⟩ : ∃ r, Same w.cregState r ∧ Section D w.clientFd r up (pool t) := by
    have hat := h.threads t
    rwa [ht] at hat
  have h0 := h.lock.down ht
  have halone : ∀ u, u ≠ t → phase u ≠ .holding := fun u hut hu => hut (h.lock.alone ht hu)
  -- the threads when this one goes on inside
  have hat : ∀ {w' up'} {p' : Prog World Point}, Placed D w' up' .holding p' →
      ∀ u, Placed D w' up' (phase u) (Function.update pool t p' u) := fun {w' up' p'} hnew u => by
    have hu := placed_update (t := t) h.threads hnew (fun u hut hu => absurd hu (halone u hut)) u
    rwa [still ht] at hu
  generalize hq : pool t = q at hp
  cases hp with
  | leave hrest =>
    cases (V_turn hq (creg_get w)).symm.trans hturn
    refine ⟨up, Function.update phase t .outside, h.lock.leave ht nofun,
      D.keeps h.token (by rw [ht]; nofun) nofun, D.inside_same h.inside ⟨rfl, rfl, rfl⟩,
      fun _ => D.rest_same hrest hr, ?_⟩
    exact placed_update h.threads ⟨_, rfl⟩ fun u hut hu => absurd hu (halone u hut)
  | read hk =>
    cases (read_turn hq (creg_get w)).symm.trans hturn
    exact ⟨up, phase, h.lock, h.token, h.inside, h.rest, hat ⟨r, hr, hk _ hr⟩⟩
  | ask hk =>
    cases (ask_turn hq).symm.trans hturn
    exact ⟨up, phase, h.lock, h.token, h.inside, h.rest, hat ⟨r, hr, hk⟩⟩
  | @update _ _ f s k hf hin hk =>
    cases (update_turn hq (creg_get w)).symm.trans hturn
    obtain ⟨hsame, hlock, hne⟩ := hf _ hr
    have hlock' : (f w.cregState).registryLock = 0 := hlock.trans h0
    refine ⟨up, phase, ?_, ?_, D.inside_same hin hsame, fun hl => absurd hlock' hl,
      hat ⟨s, hsame, hk⟩⟩
    · show Owned _ (f w.cregState).registryLock phase
      rw [hlock]
      exact h.lock
    · show D.token up (f w.cregState).notEmpty phase
      rw [hne]
      exact h.token
  | take hk =>
    obtain ⟨hv, rfl⟩ := P_turn hq (creg_get w) hturn
    exact ⟨false, phase, h.lock, D.takes h.token hv, D.inside_taken _,
      fun hl => absurd h0 hl, hat ⟨r, ⟨hr.1, hr.2.1, hr.2.2⟩, hk⟩⟩
  | give hgives hk =>
    cases (V_turn hq (creg_get w)).symm.trans hturn
    exact ⟨true, phase, h.lock, D.given hgives h.token,
      D.inside_same (D.inside_given hgives) ⟨hr.1, hr.2.1, hr.2.2⟩, fun hl => absurd h0 hl,
      hat ⟨r, ⟨hr.1, hr.2.1, hr.2.2⟩, hk⟩⟩

/-- A thread that has returned to a point between its sections is in none. -/
theorem Going.outside (h : Going D w pool up phase) (hp : pool t = .ret a) :
    phase t = .outside := by
  have hat := h.threads t
  cases hph : phase t with
  | outside => rfl
  | passing =>
    rw [hph, hp] at hat
    cases hat
  | holding =>
    rw [hph, hp] at hat
    obtain ⟨r, _, hsection⟩ := hat
    generalize hq : (Prog.ret a : Prog World Point) = q at hsection
    cases hsection <;> cases hq

/-- What one step of a thread keeps, if the calls that take the lock are admitted. -/
theorem Going.step {c c' : Threads ι World Point} {e : ι × Option Call}
    (h : Going D c.1 c.2 up phase) (hs : Step c e c')
    (hcall : ∀ t call, e = (t, some call) → call ≠ .waitForEmpty →
      Admits D c.1.clientFd c.1.cregState call.prog)
    (hleave : ∀ t d i, e = (t, none) → c.2 t = .ret (.leave d i) →
      Admits D c.1.clientFd c.1.cregState (Point.leave d i).prog) :
    ∃ up phase, Going D c'.1 c'.2 up phase := by
  cases hs with
  | @call t _ call hp hturn =>
    have ht := h.outside hp
    cases call with
    | waitForEmpty => exact h.pass ht hturn
    | register d => exact h.enter ht (hcall t _ rfl nofun) hturn
    | unregister d => exact h.enter ht (hcall t _ rfl nofun) hturn
    | shutdownAll => exact h.enter ht (hcall t _ rfl nofun) hturn
  | @loop t _ p hp hturn =>
    have ht := h.outside hp
    cases p with
    | idle =>
      rw [turn_ret (show Function.update c.2 t Point.idle.prog t = .ret .idle from
        Function.update_self ..)] at hturn
      cases hturn
    | visit i => exact h.visit ht hturn
    | leave d i => exact h.enter ht (hleave t d i rfl hp) hturn
  | @go t _ hturn =>
    cases ht : phase t with
    | outside =>
      have hat := h.threads t
      rw [ht] at hat
      obtain ⟨a, ha⟩ := hat
      rw [turn_ret ha] at hturn
      cases hturn
    | passing => exact h.passed ht hturn
    | holding => exact h.held ht hturn

/-- The invariant of a run, from what the discipline says of an empty registry. -/
theorem Going.of_reaches {F : Threads ι World Point → ι × Option Call → Prop}
    (hrest : ∀ {r : ClientRegistry}, r.nodes = [] → r.clientCount = 0 → r.registered = [] →
      D.rest r true ∧ D.inside r true)
    (htoken : D.token true 1 fun _ => .outside)
    (hcall : ∀ c t call, F c (t, some call) → call ≠ .waitForEmpty →
      Admits D c.1.clientFd c.1.cregState call.prog)
    (hleave : ∀ c t d i, F c (t, none) → c.2 t = .ret (.leave d i) →
      Admits D c.1.clientFd c.1.cregState (Point.leave d i).prog)
    {c : Threads ι World Point} (h : Reaches Started (fun c e c' => Step c e c' ∧ F c e) c) :
    ∃ up phase, Going D c.1 c.2 up phase := by
  refine h.invariant (I := fun c => ∃ up phase, Going D c.1 c.2 up phase) ?_ ?_
  · rintro ⟨w, pool⟩ ⟨⟨w₀, hinit⟩, hidle⟩
    obtain ⟨hr, hi⟩ : D.rest w.cregState true ∧ D.inside w.cregState true := by
      cases hinit
      exact hrest rfl rfl rfl
    cases hinit
    exact ⟨true, fun _ => .outside, .inl ⟨rfl, nofun⟩, htoken, hi, fun _ => hr,
      fun t => ⟨_, hidle t⟩⟩
  · rintro s e s' ⟨up, phase, hg⟩ ⟨hs, hF⟩
    exact hg.step hs (fun t call he => hcall s t call (he ▸ hF))
      fun t d i he => hleave s t d i (he ▸ hF)

end Threads

/-- Inside a call nothing is asked. -/
theorem reaches_turns {F : Threads ι World Point → ι × Option Call → Prop}
    (hfit : ∀ c t c', turn t c = some c' → F c (t, none)) :
    ∀ {l : List ι} {c c' : Threads ι World Point},
      Reaches Started (fun c e c' => Step c e c' ∧ F c e) c → turns l c = some c' →
      Reaches Started (fun c e c' => Step c e c' ∧ F c e) c'
  | [], _, _, h, ht => Option.some.inj ht ▸ h
  | t :: l, c, c', h, ht => by
    obtain ⟨c₁, h₁, h₂⟩ := Option.bind_eq_some_iff.mp ht
    exact reaches_turns hfit (h.step ⟨.go h₁, hfit c t c₁ h₁⟩) h₂

end StarterProjects.Jeux
