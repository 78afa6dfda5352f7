import StarterProjects.Jeux.Progress
import StarterProjects.Jeux.Registered
import StarterProjects.Lib.Nodes

/-!
# The nodes of the client registry

`ClientRegistry` has its nodes as a list. In `client_registry.c` they are allocated one by one and
linked. Here is the file with its pointers, up to `creg_fini`, which the server calls at its end.
The CLIENTs are objects as well: each has a number of references, the registry gives one up in
`creg_unregister`, and a CLIENT without a reference is not there any more.

Every call does to the linked nodes what it does to the list (`register_simulates`,
`unregister_simulates`), and touches no memory that is not there. `server_frees`: as long as more
references to each CLIENT have been taken than there are calls for it, in the end all nodes have
been freed, and no CLIENT of a node; the registry itself has been freed, too, unless nobody ever
was registered.
-/

namespace StarterProjects.Jeux.Linked

open Lib Lib.Exec

/-- `CLIENT_REGISTRY`. -/
structure Registry where
  head : Option Nat
  clientCount : Int
  registryLock : Nat
  notEmpty : Nat

/-- Of the clients there are the descriptors, and the references that have not been given up:
those of `client_create` and of whoever called `client_ref`. -/
structure Memory where
  registryHeap : Heap Registry
  nodeHeap : Heap (Node ClientPtr)
  clientFd : ClientPtr → Int
  clientRefs : ClientPtr → Nat

def registries : Arena Memory Registry where
  heap := Memory.registryHeap
  modify := fun f m => { m with registryHeap := f m.registryHeap }
  heap_modify := fun _ _ => rfl
  modify_modify := fun _ _ _ => rfl
  modify_congr := fun h => by rw [h]
  modify_id := fun _ => rfl

def nodes : Arena Memory (Node ClientPtr) where
  heap := Memory.nodeHeap
  modify := fun f m => { m with nodeHeap := f m.nodeHeap }
  heap_modify := fun _ _ => rfl
  modify_modify := fun _ _ _ => rfl
  modify_congr := fun h => by rw [h]
  modify_id := fun _ => rfl

def registryLock : Lock Registry :=
  ⟨Registry.registryLock, fun n r => { r with registryLock := n }, fun _ _ => rfl,
    fun _ _ _ => rfl, fun _ => rfl⟩

def notEmpty : Lock Registry :=
  ⟨Registry.notEmpty, fun n r => { r with notEmpty := n }, fun _ _ => rfl,
    fun _ _ _ => rfl, fun _ => rfl⟩

/-- The object behind a `CLIENT_REGISTRY *`. -/
def registry (cr : Nat) : Obj Memory Registry := registries.obj cr

/-! ## Of the client module -/

def client_get_fd (client : ClientPtr) : Prog Memory Int :=
  .act some fun m =>
    if m.clientRefs client = 0 then .stop .undefined else .ret (m.clientFd client)

/-- A reference less. -/
def Memory.unref (m : Memory) (client : ClientPtr) : Memory :=
  { m with clientRefs := Function.update m.clientRefs client (m.clientRefs client - 1) }

def Memory.freed (m : Memory) (client : ClientPtr) : Memory :=
  { m with clientRefs := Function.update m.clientRefs client 0 }

/-- It aborts when there is no reference to give up. -/
def client_unref (client : ClientPtr) : Prog Memory Unit :=
  .act (fun m => some (m.unref client)) fun m =>
    if m.clientRefs client = 0 then .stop .abort else .ret ()

/-- `free(newClient)`: whatever references there are. -/
def client_free (client : ClientPtr) : Prog Memory Unit :=
  .act (fun m => some (m.freed client)) fun m =>
    if m.clientRefs client = 0 then .stop .undefined else .ret ()

/-! ## `client_registry.c` -/

def creg_init : Prog Memory Nat :=
  registries.malloc { head := none, clientCount := 0, registryLock := 1, notEmpty := 1 }

/-- `fuel` bounds the nodes that are visited. -/
def creg_register (fuel cr : Nat) (newClient : ClientPtr) : Prog Memory (Option ClientPtr) := do
  let newClientNode ← nodes.malloc ⟨newClient, none⟩
  P (registry cr) registryLock
  let r ← (registry cr).read
  if r.clientCount ≥ MAX_CLIENTS then
    client_free newClient
    nodes.free newClientNode
    V (registry cr) registryLock
    return none
  match r.head with
  | none =>
    (registry cr).update fun r =>
      { r with head := some newClientNode, clientCount := r.clientCount + 1 }
    P (registry cr) notEmpty
    V (registry cr) registryLock
    return some newClient
  | some tempNode =>
    let tempNode ← lastNode nodes fuel tempNode
    (nodes.obj tempNode).update fun node => { node with next := some newClientNode }
    (registry cr).update fun r => { r with clientCount := r.clientCount + 1 }
    V (registry cr) registryLock
    return some newClient

def creg_signal (cr : Nat) (res : Int) : Prog Memory Int := do
  let r ← (registry cr).read
  if r.clientCount = 0 then
    V (registry cr) notEmpty
  V (registry cr) registryLock
  return res

/-- `crFd = client_get_fd(curClient); if(crFd == clientFd)`. -/
def creg_compare (clientFd : Int) (cr : Nat) (client curClient : ClientPtr) :
    Prog Memory (Option Int) := do
  let crFd ← client_get_fd curClient
  if crFd = clientFd then
    (registry cr).update fun r => { r with clientCount := r.clientCount - 1 }
    client_unref client
    let res ← creg_signal cr 0
    return some res
  else return none

/-- The first node is compared before the loop. -/
def creg_compare_head (clientFd : Int) (cr : Nat) (client : ClientPtr) :
    Option Nat → Prog Memory (Option Int)
  | none => return none
  | some p => do
    let node ← (nodes.obj p).read
    creg_compare clientFd cr client node.item

def creg_unregister (fuel cr : Nat) (client : ClientPtr) : Prog Memory Int := do
  P (registry cr) registryLock
  let r ← (registry cr).read
  let clientFd ← client_get_fd client
  match ← creg_compare_head clientFd cr client r.head with
  | some res => return res
  | none =>
    match ← walk nodes (creg_compare clientFd cr client) fuel r.head with
    | some res => return res
    | none => creg_signal cr (-1)

def creg_wait_for_empty (cr : Nat) : Prog Memory Unit := do
  P (registry cr) notEmpty
  V (registry cr) notEmpty

/-- The body of the first loop of `creg_shutdown_all`, which shuts a socket down. -/
def creg_shutdown_socket (client : ClientPtr) : Prog Memory (Option Unit) := do
  let _ ← client_get_fd client
  return none

/-- The body of the second loop. -/
def creg_shutdown_client (fuel cr : Nat) (client : ClientPtr) : Prog Memory (Option Unit) := do
  let _ ← creg_unregister fuel cr client
  return none

def creg_shutdown_all (fuel cr : Nat) : Prog Memory Unit := do
  P (registry cr) registryLock
  let r ← (registry cr).read
  let _ ← walk nodes creg_shutdown_socket fuel r.head
  V (registry cr) registryLock
  let r ← (registry cr).read
  let _ ← walk nodes (creg_shutdown_client fuel cr) fuel r.head

/-- `while(tempNode != NULL)` in `creg_fini`. -/
def creg_fini_loop (cr : Nat) : Nat → Option Nat → Prog Memory Unit
  | 0, _ => Prog.stop .diverges
  | _ + 1, none => return ()
  | fuel + 1, some tempNode => do
    let r ← (registry cr).read
    match r.head with
    | none => Prog.stop .undefined
    | some head => do
      let node ← (nodes.obj head).read
      (registry cr).update fun r => { r with head := node.next }
      nodes.free tempNode
      let r ← (registry cr).read
      creg_fini_loop cr fuel r.head

/-- An empty registry is left where it is. -/
def creg_fini (fuel cr : Nat) : Prog Memory Unit := do
  let r ← (registry cr).read
  match r.head with
  | none => return ()
  | some tempNode => do
    creg_fini_loop cr fuel (some tempNode)
    registries.free cr

/-! ## What stands for what -/

/-- The object of a registry whose first node is `head`. -/
def view (r : ClientRegistry) (head : Option Nat) : Registry :=
  ⟨head, r.clientCount, r.registryLock, r.notEmpty⟩

/-- The nodes `l` are linked from the registry at `cr`, hold the clients of the list, and are all
the nodes there are. The CLIENTs `gone` were freed when they were refused; of the others, the
references `refs` are there that were not released. -/
structure Rep (refs : ClientPtr → Nat) (gone : List ClientPtr) (cr : Nat)
    (l : List (Nat × ClientPtr)) (m : Memory) (w : World) : Prop where
  object : ∃ head, (registry cr).get m = some (view w.cregState head) ∧ Links m.nodeHeap head l
  items : l.map Prod.snd = w.cregState.nodes
  owned : ∀ q, m.nodeHeap.cell q ≠ none → q ∈ l.map Prod.fst
  clientFd : m.clientFd = w.clientFd
  clientRefs : ∀ c, c ∉ gone → m.clientRefs c + w.cregState.released.count c = refs c
  gone : ∀ c ∈ gone, c ∉ w.cregState.nodes

section Rep

variable {refs : ClientPtr → Nat} {gone : List ClientPtr} {cr : Nat} {l : List (Nat × ClientPtr)}
  {m m' : Memory} {w : World}

/-- The registry and the references change, and the nodes stay. -/
theorem Rep.set (h : Rep refs gone cr l m w) {head : Option Nat} {a : Registry} {r : ClientRegistry}
    (hget : (registry cr).get m' = some a) (hlinks : Links m.nodeHeap head l)
    (hnodes : r.nodes = w.cregState.nodes) (hheap : m'.nodeHeap = m.nodeHeap)
    (hfd : m'.clientFd = m.clientFd)
    (hrefs : ∀ c, c ∉ gone → m'.clientRefs c + r.released.count c = refs c) :
    Rep refs gone cr l ((registry cr).set (view r head) m') (creg.set r w) where
  object := ⟨head, (registry cr).get_set hget, hheap ▸ hlinks⟩
  items := h.items.trans hnodes.symm
  owned := fun q hq => h.owned q (hheap ▸ hq)
  clientFd := hfd.trans h.clientFd
  clientRefs := hrefs
  gone := fun c hc hin => h.gone c hc (hnodes ▸ hin)

end Rep

/-! ## The calls, with nothing else going on -/

section Calls

variable {cr : Nat} {l : List (Nat × ClientPtr)} {m : Memory} {head : Option Nat}
  {r r' : ClientRegistry} {c : ClientPtr} {fuel : Nat}

theorem signal_run (res : Int) (hget : (registry cr).get m = some (view r' head))
    (hl : r.registryLock = 1) :
    (creg_signal cr res).run ((registry cr).set (registryLock.put 0 (view r head)) m) =
      .ok (res, (registry cr).set (view r.signalled head) m) := by
  have hopen : registryLock.put 1 (view r.signalled head) = view r.signalled head :=
    registryLock.put_same hl
  rw [creg_signal, set_read hget, ← hopen]
  show (if r.clientCount = 0 then _ else _ : Prog Memory _).run _ = _
  split
  · next h0 =>
    rw [set_V hget, set_V hget, ClientRegistry.signalled_zero h0]
    rfl
  · next h0 =>
    rw [set_V hget, ClientRegistry.signalled_same h0]
    rfl

theorem get_fd_run (h : m.clientRefs c ≠ 0) : (client_get_fd c).run m = .ok (m.clientFd c, m) := by
  rw [client_get_fd, Prog.run_act rfl, if_neg h]
  rfl

theorem unref_run (h : m.clientRefs c ≠ 0) : (client_unref c).run m = .ok ((), m.unref c) := by
  rw [client_unref, Prog.run_act (f := fun m => some (Memory.unref m c)) rfl, if_neg h]
  rfl

theorem client_free_run (h : m.clientRefs c ≠ 0) : (client_free c).run m = .ok ((), m.freed c) := by
  rw [client_free, Prog.run_act (f := fun m => some (Memory.freed m c)) rfl, if_neg h]
  rfl

theorem unref_count {d : ClientPtr} {l : List ClientPtr} (h : m.clientRefs c ≠ 0) :
    (m.unref c).clientRefs d + (c :: l).count d = m.clientRefs d + l.count d := by
  show Function.update m.clientRefs c (m.clientRefs c - 1) d + _ = _
  rcases eq_or_ne d c with rfl | hne
  · rw [Function.update_self, List.count_cons_self]
    omega
  · rw [Function.update_of_ne hne, List.count_cons_of_ne (Ne.symm hne)]

theorem compare_run (curClient : ClientPtr) (hget : (registry cr).get m = some (view r' head))
    (hl : r.registryLock = 1) (hcur : m.clientRefs curClient ≠ 0) (hc : m.clientRefs c ≠ 0) :
    (creg_compare (m.clientFd c) cr c curClient).run
        ((registry cr).set (registryLock.put 0 (view r head)) m) =
      if m.clientFd curClient = m.clientFd c then
        .ok (some 0, (registry cr).set (view (r.parted c) head) (m.unref c))
      else .ok (none, (registry cr).set (registryLock.put 0 (view r head)) m) := by
  have hfd := get_fd_run (m := (registry cr).set (registryLock.put 0 (view r head)) m) hcur
  rw [creg_compare, Prog.run_bind_ok hfd]
  show (if m.clientFd curClient = m.clientFd c then _ else _ : Prog Memory _).run _ = _
  split
  · have hsignal := signal_run 0 (m := m.unref c) (r := { r with
      clientCount := r.clientCount - 1
      registered := r.registered.erase c
      released := c :: r.released }) hget hl
    rw [set_update hget]
    have hunref := unref_run (c := c) (m := (registry cr).set
      (registryLock.put 0 (view { r with clientCount := r.clientCount - 1 } head)) m) hc
    exact (Prog.run_bind_ok hunref).trans (Prog.run_bind_ok hsignal)
  · rfl

/-- The comparisons of all nodes. -/
theorem firstSome_compare (hget : (registry cr).get m = some (view r' head))
    (hl : r.registryLock = 1) (hc : m.clientRefs c ≠ 0) :
    ∀ l : List (Nat × ClientPtr), (∀ x ∈ l, m.clientRefs x.2 ≠ 0) →
      firstSome (fun x => (creg_compare (m.clientFd c) cr c x.2).run) l
        ((registry cr).set (registryLock.put 0 (view r head)) m) =
      if ∃ x ∈ l, m.clientFd x.2 = m.clientFd c then
        .ok (some 0, (registry cr).set (view (r.parted c) head) (m.unref c))
      else .ok (none, (registry cr).set (registryLock.put 0 (view r head)) m)
  | [], _ => rfl
  | x :: l, hlive => by
    have hcompare := compare_run (c := c) x.2 hget hl (hlive x List.mem_cons_self) hc
    rw [firstSome]
    by_cases hx : m.clientFd x.2 = m.clientFd c
    · rw [if_pos hx] at hcompare
      rw [bind_ok hcompare, if_pos ⟨x, List.mem_cons_self, hx⟩]
      rfl
    · rw [if_neg hx] at hcompare
      have hrest : (∃ y ∈ x :: l, m.clientFd y.2 = m.clientFd c) ↔
          ∃ y ∈ l, m.clientFd y.2 = m.clientFd c := by
        simp only [List.mem_cons, exists_eq_or_imp, hx, false_or]
      rw [bind_ok hcompare, if_congr hrest rfl rfl]
      exact firstSome_compare hget hl hc l fun y hy => hlive y (List.mem_cons_of_mem _ hy)

/-- The CLIENTs of the nodes are there, and the one to be unregistered. -/
theorem unregister_run (hget : (registry cr).get m = some (view r head))
    (hl : r.registryLock = 1) (hlinks : Links m.nodeHeap head l) (hfuel : l.length < fuel)
    (hlive : ∀ x ∈ l, m.clientRefs x.2 ≠ 0) (hc : m.clientRefs c ≠ 0) :
    (creg_unregister fuel cr c).run m =
      if ∃ x ∈ l, m.clientFd x.2 = m.clientFd c then
        .ok (0, (registry cr).set (view (r.parted c) head) (m.unref c))
      else .ok (-1, (registry cr).set (view r.signalled head) m) := by
  have hcompare : ∀ x ∈ l, _ := fun x hx => compare_run (c := c) x.2 hget hl (hlive x hx) hc
  have hwalk : (walk nodes (creg_compare (m.clientFd c) cr c) fuel head).run
      ((registry cr).set (registryLock.put 0 (view r head)) m) =
        firstSome (fun x => (creg_compare (m.clientFd c) cr c x.2).run) l
          ((registry cr).set (registryLock.put 0 (view r head)) m) := by
    refine walk_run (I := fun _ s => s = (registry cr).set (registryLock.put 0 (view r head)) m)
      (fun x l' s s' hsuf hs hrun => ?_) rfl hlinks hfuel
    rw [hs, hcompare x (hsuf.subset List.mem_cons_self)] at hrun
    split at hrun
    · cases hrun
    · cases hrun
      exact ⟨rfl, by rw [hs]⟩
  rw [firstSome_compare hget hl hc l hlive] at hwalk
  have hfd := get_fd_run (m := (registry cr).set (registryLock.put 0 (view r head)) m) hc
  rw [creg_unregister, critical hget hl, Prog.run_bind_ok hfd]
  cases l with
  | nil =>
    obtain rfl : head = none := hlinks
    rw [if_neg (by simp)] at hwalk ⊢
    exact (Prog.run_bind_ok hwalk).trans (signal_run (-1) hget hl)
  | cons x l =>
    obtain ⟨rfl, n, hcell, -⟩ := hlinks
    have hnode : (nodes.obj x.1).get
        ((registry cr).set (registryLock.put 0 (view r (some x.1))) m) =
        some ⟨x.2, n⟩ := hcell
    have hfirst : (creg_compare_head (m.clientFd c) cr c (some x.1)).run
        ((registry cr).set (registryLock.put 0 (view r (some x.1))) m) = _ :=
      (read_then hnode).trans (hcompare x List.mem_cons_self)
    -- the first node is compared twice, in front of the loop and in it
    by_cases hx : m.clientFd x.2 = m.clientFd c
    · rw [if_pos hx] at hfirst
      rw [if_pos ⟨x, List.mem_cons_self, hx⟩]
      exact Prog.run_bind_ok hfirst
    · rw [if_neg hx] at hfirst
      refine (Prog.run_bind_ok hfirst).trans ?_
      by_cases hfound : ∃ y ∈ x :: l, m.clientFd y.2 = m.clientFd c
      · rw [if_pos hfound] at hwalk ⊢
        exact Prog.run_bind_ok hwalk
      · rw [if_neg hfound] at hwalk ⊢
        exact (Prog.run_bind_ok hwalk).trans (signal_run (-1) hget hl)

/-- The memory with a node for a new client. -/
def withNode (m : Memory) (c : ClientPtr) : Memory :=
  nodes.modify (Heap.alloc ⟨c, none⟩) m

theorem malloc_node (m : Memory) (c : ClientPtr) :
    (nodes.malloc ⟨c, none⟩).run m = .ok (m.nodeHeap.next, withNode m c) :=
  Arena.malloc_run _ _

theorem register_full_run (hget : (registry cr).get m = some (view r head))
    (hl : r.registryLock = 1) (hfull : r.clientCount ≥ MAX_CLIENTS) (hc : m.clientRefs c ≠ 0) :
    (creg_register fuel cr c).run m = .ok (none, (registry cr).set (view r head)
      (nodes.modify (Heap.free m.nodeHeap.next) ((withNode m c).freed c))) := by
  have hfree : (client_free c).run ((registry cr).set (registryLock.put 0 (view r head))
      (withNode m c)) = .ok ((), (registry cr).set (registryLock.put 0 (view r head))
        ((withNode m c).freed c)) := client_free_run hc
  have hnode : (nodes.obj m.nodeHeap.next).get ((registry cr).set
      (registryLock.put 0 (view r head)) ((withNode m c).freed c)) = some ⟨c, none⟩ :=
    Heap.alloc_same _ _
  have hget₂ : (registry cr).get (nodes.modify (Heap.free m.nodeHeap.next)
      ((withNode m c).freed c)) = some (view r head) := hget
  rw [creg_register, Prog.run_bind_ok (malloc_node m c),
    critical (show (registry cr).get (withNode m c) = some (view r head) from hget) hl]
  show (if r.clientCount ≥ MAX_CLIENTS then _ else _ : Prog Memory _).run _ = _
  rw [if_pos hfull]
  refine (Prog.run_bind_ok hfree).trans ((Prog.run_bind_ok (Arena.free_run hnode)).trans ?_)
  have hV := set_V (l := registryLock) (b := registryLock.put 0 (view r head))
    (k := fun _ => (return none : Prog Memory (Option ClientPtr))) hget₂
  rw [registryLock.reopen (a := view r head) hl] at hV
  exact hV

theorem register_first_run (hget : (registry cr).get m = some (view r none))
    (hl : r.registryLock = 1) (hroom : ¬ r.clientCount ≥ MAX_CLIENTS) (hn : r.nodes = [])
    (hne : r.notEmpty ≠ 0) : (creg_register fuel cr c).run m =
      .ok (some c, (registry cr).set (view (r.joined c) (some m.nodeHeap.next))
        (withNode m c)) := by
  have hget₁ : (registry cr).get (withNode m c) = some (view r none) := hget
  have hopen : registryLock.put 1 (view (r.joined c) (some m.nodeHeap.next)) =
      view (r.joined c) (some m.nodeHeap.next) := registryLock.put_same hl
  rw [creg_register, Prog.run_bind_ok (malloc_node m c), critical hget₁ hl]
  show (if r.clientCount ≥ MAX_CLIENTS then _ else _ : Prog Memory _).run _ = _
  rw [if_neg hroom]
  show ((registry cr).update _ >>= _).run _ = _
  rw [set_update hget₁]
  refine (Prog.run_bind_ok (P_run ((registry cr).get_set hget₁) hne)).trans ?_
  rw [Obj.set_set, set_V hget₁, ← hopen, ClientRegistry.joined_first hn]
  rfl

/-- The node is linked behind the last one. -/
theorem register_more_run {l : List (Nat × ClientPtr)} {z p : Nat} {a : ClientPtr}
    (hget : (registry cr).get m = some (view r (some p))) (hl : r.registryLock = 1)
    (hroom : ¬ r.clientCount ≥ MAX_CLIENTS) (hn : r.nodes ≠ [])
    (hlinks : Links m.nodeHeap (some p) (l ++ [(z, a)])) (hfuel : l.length < fuel) :
    (creg_register fuel cr c).run m =
      .ok (some c, (registry cr).set (view (r.joined c) (some p))
        (nodes.modify (Heap.update z fun node => { node with next := some m.nodeHeap.next })
          (withNode m c))) := by
  have hget₁ : (registry cr).get (withNode m c) = some (view r (some p)) := hget
  obtain ⟨n, hz⟩ := (hlinks.alloc ⟨c, none⟩).cell_of_mem
    (List.mem_append_right l (List.mem_singleton_self _))
  rw [creg_register, Prog.run_bind_ok (malloc_node m c), critical hget₁ hl]
  show (if r.clientCount ≥ MAX_CLIENTS then _ else _ : Prog Memory _).run _ = _
  rw [if_neg hroom]
  have hlast : (lastNode nodes fuel p).run ((registry cr).set
      (registryLock.put 0 (view r (some p))) (withNode m c)) = .ok (z, _) :=
    lastNode_run (hlinks.alloc _) hfuel
  refine (Prog.run_bind_ok hlast).trans ?_
  have hnode : (nodes.obj z).get ((registry cr).set (registryLock.put 0 (view r (some p)))
      (withNode m c)) = some ⟨a, n⟩ := hz
  rw [update_then hnode]
  have hmore : ∀ m' : Memory, (registry cr).get m' = some (view r (some p)) →
      ((registry cr).update (fun r => { r with clientCount := r.clientCount + 1 }) >>= fun _ =>
        V (registry cr) registryLock >>= fun _ => (return some c : Prog Memory _)).run
          ((registry cr).set (registryLock.put 0 (view r (some p))) m') =
        .ok (some c, (registry cr).set (view (r.joined c) (some p)) m') := by
    intro m' hget'
    have hopen : registryLock.put 1 (view (r.joined c) (some p)) =
        view (r.joined c) (some p) := registryLock.put_same hl
    rw [set_update hget', set_V hget', ← hopen, ClientRegistry.joined_more hn]
    rfl
  have hlinked : nodes.modify (Heap.update z fun node =>
      { node with next := some m.nodeHeap.next }) (withNode m c) =
        (nodes.obj z).set ⟨a, some m.nodeHeap.next⟩ (withNode m c) :=
    (nodes.obj z).modify_eq_set (f := fun node => { node with next := some m.nodeHeap.next })
      (show (nodes.obj z).get (withNode m c) = some ⟨a, n⟩ from hz)
  rw [hlinked]
  exact hmore ((nodes.obj z).set ⟨a, some m.nodeHeap.next⟩ (withNode m c)) hget

end Calls

/-! ## Simulation -/

section Simulation

variable {refs : ClientPtr → Nat} {gone : List ClientPtr} {cr : Nat} {l : List (Nat × ClientPtr)}
  {m : Memory} {w : World} {c : ClientPtr} {fuel : Nat}

theorem unregister_simulates (h : Rep refs gone cr l m w) (hl : w.cregState.registryLock = 1)
    (hfuel : l.length < fuel) (hlive : ∀ d ∈ w.cregState.nodes, m.clientRefs d ≠ 0)
    (hc : m.clientRefs c ≠ 0) :
    ∃ res w', (Jeux.creg_unregister c).run w = .ok (res, w') ∧
      Ends (creg_unregister fuel cr c).run m fun res' m' => res' = res ∧
        Rep refs gone cr l m' w' := by
  obtain ⟨head, hget, hlinks⟩ := h.object
  have hlisted : (∃ x ∈ l, m.clientFd x.2 = m.clientFd c) ↔ Listed w c := by
    rw [Listed, ← h.items, h.clientFd]
    simp only [List.mem_map, exists_exists_and_eq_and]
  have hitems : ∀ x ∈ l, m.clientRefs x.2 ≠ 0 := fun x hx =>
    hlive x.2 (h.items ▸ List.mem_map_of_mem hx)
  have hrun := unregister_run (c := c) hget hl hlinks hfuel hitems hc
  rw [if_congr hlisted rfl rfl] at hrun
  rw [creg_unregister_run hl]
  by_cases hin : Listed w c
  · rw [if_pos hin] at hrun ⊢
    have hget' : (registry cr).get (m.unref c) = some (view w.cregState head) := hget
    refine ⟨_, _, rfl, .of_eq hrun ⟨rfl, h.set hget' hlinks rfl rfl rfl fun d hd => ?_⟩⟩
    exact (unref_count hc).trans (h.clientRefs d hd)
  · rw [if_neg hin] at hrun ⊢
    exact ⟨_, _, rfl, .of_eq hrun ⟨rfl, h.set hget hlinks rfl rfl rfl h.clientRefs⟩⟩

/-- A new node at the end of the list. -/
theorem Rep.append (h : Rep refs gone cr l m w) {r : ClientRegistry} {m' : Memory}
    {head' : Option Nat} (hget : (registry cr).get m' = some (view r head'))
    (hnew : Links m'.nodeHeap head' (l ++ [(m.nodeHeap.next, c)]))
    (hcells : ∀ q, m'.nodeHeap.cell q ≠ none → q ≠ m.nodeHeap.next → m.nodeHeap.cell q ≠ none)
    (hnodes : r.nodes = w.cregState.nodes ++ [c]) (hfd : m'.clientFd = m.clientFd)
    (hrefs : m'.clientRefs = m.clientRefs) (hreleased : r.released = w.cregState.released)
    (hc : c ∉ gone) : Rep refs gone cr (l ++ [(m.nodeHeap.next, c)]) m' (creg.set r w) where
  object := ⟨head', hget, hnew⟩
  items := by
    rw [List.map_append, h.items]
    exact hnodes.symm
  owned := fun q hq => by
    rw [List.map_append, List.mem_append]
    rcases eq_or_ne q m.nodeHeap.next with rfl | hne
    · exact .inr List.mem_cons_self
    · exact .inl (h.owned q (hcells q hq hne))
  clientFd := hfd.trans h.clientFd
  clientRefs := fun d hd => by
    show m'.clientRefs d + r.released.count d = refs d
    rw [hrefs, hreleased]
    exact h.clientRefs d hd
  gone := fun d hd hin => by
    have hin' : d ∈ w.cregState.nodes ++ [c] := hnodes ▸ hin
    rcases List.mem_append.mp hin' with hin | hin
    · exact h.gone d hd hin
    · exact hc (List.mem_singleton.mp hin ▸ hd)

/-- A new CLIENT is refused: it has no node, and it is freed with the node it nearly got. -/
theorem refused_simulates (h : Rep refs gone cr l m w) (hl : w.cregState.registryLock = 1)
    (hfull : w.cregState.clientCount ≥ MAX_CLIENTS) (hc : m.clientRefs c ≠ 0)
    (hnew : c ∉ w.cregState.nodes) : (Jeux.creg_register c).run w = .ok (none, w) ∧
      Ends (creg_register fuel cr c).run m fun res m' => res = none ∧
        Rep refs (c :: gone) cr l m' w := by
  obtain ⟨head, hget, hlinks⟩ := h.object
  have hcells : ∀ q, ((m.nodeHeap.alloc ⟨c, none⟩).free m.nodeHeap.next).cell q =
      m.nodeHeap.cell q := fun q => by
    rcases eq_or_ne q m.nodeHeap.next with rfl | hne
    · rw [Heap.free_same, m.nodeHeap.fresh _ (Nat.le_refl _)]
    · rw [Heap.free_other _ hne, Heap.alloc_other _ _ hne]
  refine ⟨creg_register_full hl hfull, .of_eq (register_full_run hget hl hfull hc) ⟨rfl, ?_⟩⟩
  exact
    { object := ⟨head, (registry cr).get_set (b := view w.cregState head) hget,
        hlinks.congr fun x _ => hcells x.1⟩
      items := h.items
      owned := fun q hq => h.owned q fun hnone => hq ((hcells q).trans hnone)
      clientFd := h.clientFd
      clientRefs := fun d hd => by
        obtain ⟨hne, hd⟩ := not_or.mp (List.mem_cons.not.mp hd)
        show Function.update m.clientRefs c 0 d + _ = _
        rw [Function.update_of_ne hne]
        exact h.clientRefs d hd
      gone := fun d hd => (List.mem_cons.mp hd).elim (fun he => he ▸ hnew) (h.gone d) }

theorem register_simulates (h : Rep refs gone cr l m w) (hl : w.cregState.registryLock = 1)
    (hfull : ¬ w.cregState.clientCount ≥ MAX_CLIENTS)
    (hup : w.cregState.nodes = [] → w.cregState.notEmpty ≠ 0) (hfuel : l.length < fuel)
    (hc : c ∉ gone) :
    (Jeux.creg_register c).run w = .ok (some c, creg.set (w.cregState.joined c) w) ∧
      Ends (creg_register fuel cr c).run m fun res m' => res = some c ∧
        Rep refs gone cr (l ++ [(m.nodeHeap.next, c)]) m' (creg.set (w.cregState.joined c) w) := by
  obtain ⟨head, hget, hlinks⟩ := h.object
  have hrun := creg_register_run (c := c) hl hfull hup
  refine ⟨hrun, ?_⟩
  rcases List.eq_nil_or_concat' l with rfl | ⟨l₀, ⟨z, a⟩, rfl⟩
  · obtain rfl : head = none := hlinks
    have hn : w.cregState.nodes = [] := h.items.symm
    refine .of_eq (register_first_run hget hl hfull hn (hup hn)) ⟨rfl, ?_⟩
    refine h.append ((registry cr).get_set (b := view w.cregState none) hget) ?_
      (fun q hq hne => ?_)
      rfl rfl rfl rfl hc
    · exact ⟨rfl, none, Heap.alloc_same _ _, rfl⟩
    · have hq' : (m.nodeHeap.alloc ⟨c, none⟩).cell q ≠ none := hq
      rwa [Heap.alloc_other _ _ hne] at hq'
  · obtain ⟨p, rfl⟩ : ∃ p, head = some p := by
      cases l₀ with
      | nil => exact ⟨_, hlinks.1⟩
      | cons x l₀ => exact ⟨_, hlinks.1⟩
    have hn : w.cregState.nodes ≠ [] := by
      rw [← h.items, List.map_append]
      exact List.append_ne_nil_of_right_ne_nil _ (List.cons_ne_nil _ _)
    rw [List.length_append, List.length_singleton] at hfuel
    refine .of_eq (register_more_run hget hl hfull hn hlinks (by omega)) ⟨rfl, ?_⟩
    refine h.append ((registry cr).get_set (b := view w.cregState (some p)) hget) ?_
      (fun q hq hne => ?_) rfl rfl rfl rfl hc
    · have hnot : m.nodeHeap.next ∉ (l₀ ++ [(z, a)]).map Prod.fst := fun hmem => by
        obtain ⟨x, hx, he⟩ := List.mem_map.mp hmem
        exact hlinks.ne_next hx he
      rw [List.append_assoc]
      exact (hlinks.alloc ⟨c, none⟩).append (Heap.alloc_same _ _) hnot
    · have hq' : ((m.nodeHeap.alloc ⟨c, none⟩).update z fun node =>
          { node with next := some m.nodeHeap.next }).cell q ≠ none := hq
      intro hnone
      refine hq' ?_
      rcases eq_or_ne q z with rfl | hqz
      · rw [Heap.update_same, Heap.alloc_other _ _ hne, hnone]
        rfl
      · rw [Heap.update_other _ _ hqz, Heap.alloc_other _ _ hne, hnone]

end Simulation

/-! ## Sequences of calls -/

inductive Answer where
  | client (newClient : Option ClientPtr)
  | status (res : Int)

/-- The client that the call is for. -/
def client : RegistryCall → ClientPtr
  | .register newClient => newClient
  | .unregister client => client

/-- The call on the list. -/
def listed : RegistryCall → Prog World Answer
  | .register newClient => do
    let res ← Jeux.creg_register newClient
    return .client res
  | .unregister client => do
    let res ← Jeux.creg_unregister client
    return .status res

/-- The call on the nodes. -/
def linked (fuel cr : Nat) : RegistryCall → Prog Memory Answer
  | .register newClient => do
    let res ← creg_register fuel cr newClient
    return .client res
  | .unregister client => do
    let res ← creg_unregister fuel cr client
    return .status res

def answers {σ : Type} (answer : RegistryCall → Prog σ Answer) :
    List RegistryCall → Prog σ (List Answer)
  | [] => return []
  | call :: calls => do
    let a ← answer call
    let rest ← answers answer calls
    return a :: rest

/-- Between the calls of one thread. -/
structure Resting (w : World) : Prop where
  lock : w.cregState.registryLock = 1
  bounded : Bounded w.cregState (decide (w.cregState.notEmpty ≠ 0))

section Sequences

variable {cr : Nat} {l : List (Nat × ClientPtr)} {m : Memory} {w w' : World} {c : ClientPtr}
  {fuel : Nat}

theorem Resting.counted (h : Resting w) (h0 : w.cregState.notEmpty = 0) :
    1 ≤ w.cregState.clientCount := h.bounded.counted (decide_eq_false fun hne => hne h0)

theorem Resting.up (h : Resting w) (hn : w.cregState.nodes = []) : w.cregState.notEmpty ≠ 0 :=
  fun h0 => by
    have hcount := h.counted h0
    rw [h.bounded.fresh hn] at hcount
    exact absurd hcount (by decide)

theorem Resting.joined (h : Resting w) (hroom : ¬ w.cregState.clientCount ≥ MAX_CLIENTS) :
    Resting (creg.set (w.cregState.joined c) w) := by
  have hnodes := h.bounded.nodes
  refine ⟨h.lock, fun hnil => ?_, ?_, Int.not_le.mp hroom, fun hdown => ?_⟩
  · exact absurd (List.append_eq_nil_iff.mp hnil).2 (List.cons_ne_nil c [])
  · show w.cregState.clientCount + 1 ≤ ((w.cregState.nodes ++ [c]).length : Int)
    rw [List.length_append, List.length_singleton]
    omega
  · show 1 ≤ w.cregState.clientCount + 1
    have h0 : (if w.cregState.nodes = [] then w.cregState.notEmpty - 1 else
        w.cregState.notEmpty) = 0 := not_not.mp (of_decide_eq_false hdown)
    split at h0
    · next hn =>
      rw [h.bounded.fresh hn]
      decide
    · have hcount := h.counted h0
      omega

/-- A count that is not changed, or goes down while somebody is in the list. -/
theorem Resting.signalled (h : Resting w) {r : ClientRegistry}
    (hlock : r.registryLock = w.cregState.registryLock) (hnodes : r.nodes = w.cregState.nodes)
    (hne : r.notEmpty = w.cregState.notEmpty)
    (hcount : r.clientCount = w.cregState.clientCount ∨
      w.cregState.nodes ≠ [] ∧ r.clientCount = w.cregState.clientCount - 1) :
    Resting (creg.set r.signalled w) := by
  have hfew := h.bounded.nodes
  have hmax := h.bounded.count
  refine ⟨hlock.trans h.lock, fun hnil => ?_, ?_, ?_, fun hdown => ?_⟩
  · have hnil' : w.cregState.nodes = [] := hnodes.symm.trans hnil
    rcases hcount with hc | ⟨hn, -⟩
    · exact hc.trans (h.bounded.fresh hnil')
    · exact absurd hnil' hn
  · show r.clientCount ≤ (r.nodes.length : Int)
    rw [hnodes]
    omega
  · show r.clientCount ≤ MAX_CLIENTS
    omega
  · show 1 ≤ r.clientCount
    have h0 : (if r.clientCount = 0 then r.notEmpty + 1 else r.notEmpty) = 0 :=
      not_not.mp (of_decide_eq_false hdown)
    split at h0
    · omega
    · have hc := h.counted (hne.symm.trans h0)
      omega

theorem resting_unregister {res : Int} (h : Resting w)
    (hrun : (Jeux.creg_unregister c).run w = .ok (res, w')) : Resting w' := by
  rw [creg_unregister_run h.lock] at hrun
  split at hrun
  · next hin =>
    cases hrun
    obtain ⟨d, hd, -⟩ := hin
    exact h.signalled rfl rfl rfl (.inr ⟨List.ne_nil_of_mem hd, rfl⟩)
  · cases hrun
    exact h.signalled rfl rfl rfl (.inl rfl)

/-- The references that the registry has given up, and those it will give up for its nodes and
the clients `rest`, are not more than the calls for `all`. -/
def Spent (all : List ClientPtr) (r : ClientRegistry) (rest : List ClientPtr) : Prop :=
  ∀ d, r.released.count d + r.nodes.count d + rest.count d ≤ all.count d

section Spent

variable {all rest : List ClientPtr} {r r' : ClientRegistry} {refs : ClientPtr → Nat}
  {d : ClientPtr}

/-- A call gives a reference up, or puts a node into the list that will, or does neither. -/
theorem Spent.step (h : Spent all r (c :: rest))
    (hr : r'.released = r.released ∧ r'.nodes = r.nodes ∨
      r'.released = c :: r.released ∧ r'.nodes = r.nodes ∨
      r'.released = r.released ∧ r'.nodes = r.nodes ++ [c]) : Spent all r' rest := fun d => by
  have hd := h d
  rw [List.count_cons] at hd
  rcases hr with ⟨hreleased, hnodes⟩ | ⟨hreleased, hnodes⟩ | ⟨hreleased, hnodes⟩
  · rw [hreleased, hnodes]
    omega
  · rw [hreleased, hnodes, List.count_cons]
    omega
  · rw [hreleased, hnodes, List.count_append, List.count_singleton]
    omega

/-- A client that one of the calls is for has a reference left. -/
theorem Spent.there (h : Spent all w.cregState rest) (hrefs : ∀ c ∈ all, all.count c < refs c)
    (hrep : Rep refs gone cr l m w) (hd : d ∈ w.cregState.nodes ∨ d ∈ rest) (hgone : d ∉ gone) :
    w.cregState.nodes.count d < m.clientRefs d := by
  have hsum := hrep.clientRefs d hgone
  have hspent := h d
  have hmem : d ∈ all := by
    rcases hd with hd | hd
    · have hpos := List.count_pos_iff.mpr hd
      exact List.count_pos_iff.mp (by omega)
    · have hpos := List.count_pos_iff.mpr hd
      exact List.count_pos_iff.mp (by omega)
  have hmore := hrefs d hmem
  omega

/-- The same of the clients in the list, none of which was refused. -/
theorem Spent.nodes_there (h : Spent all w.cregState rest)
    (hrefs : ∀ c ∈ all, all.count c < refs c) (hrep : Rep refs gone cr l m w)
    (hd : d ∈ w.cregState.nodes) : w.cregState.nodes.count d < m.clientRefs d :=
  h.there hrefs hrep (.inl hd) fun hg => hrep.gone d hg hd

end Spent

/-- A CLIENT whose registration is refused was new: it is in no node, and no later call is for
it. -/
def NewRefused : List RegistryCall → World → Prop
  | [], _ => True
  | call :: calls, w => (∀ c, call = .register c → w.cregState.clientCount ≥ MAX_CLIENTS →
        c ∉ w.cregState.nodes ∧ c ∉ calls.map client) ∧
      ∀ a w', (listed call).run w = .ok (a, w') → NewRefused calls w'

/-- What a call does to the nodes is what it does to the list. -/
theorem linked_simulates {refs : ClientPtr → Nat} {all gone : List ClientPtr}
    {calls : List RegistryCall} (hrefs : ∀ c ∈ all, all.count c < refs c)
    (h : Rep refs gone cr l m w) (hw : Resting w) (hfuel : l.length < fuel) {call : RegistryCall}
    (hspent : Spent all w.cregState ((call :: calls).map client))
    (hgone : ∀ c ∈ gone, c ∉ (call :: calls).map client) (hnew : NewRefused (call :: calls) w) :
    ∃ a w' l' gone', (listed call).run w = .ok (a, w') ∧ Resting w' ∧ l'.length ≤ l.length + 1 ∧
      Spent all w'.cregState (calls.map client) ∧ (∀ c ∈ gone', c ∉ calls.map client) ∧
      Ends (linked fuel cr call).run m fun a' m' => a' = a ∧ Rep refs gone' cr l' m' w' := by
  have hlater : ∀ c ∈ gone, c ∉ calls.map client := fun c hc hin =>
    hgone c hc (List.mem_cons_of_mem _ hin)
  have hmine : client call ∉ gone := fun hc => hgone _ hc List.mem_cons_self
  have hthere := hspent.there hrefs h (.inr List.mem_cons_self) hmine
  cases call with
  | register c =>
    by_cases hfull : w.cregState.clientCount ≥ MAX_CLIENTS
    · obtain ⟨hnode, hcalls⟩ := hnew.1 c rfl hfull
      obtain ⟨hrun, _, m', hrun', rfl, hrep⟩ :=
        refused_simulates h hw.lock hfull (Nat.ne_zero_of_lt hthere) hnode
      refine ⟨_, w, l, c :: gone, Prog.run_bind_ok hrun, hw, Nat.le_succ _,
        hspent.step (.inl ⟨rfl, rfl⟩), fun d hd => ?_, .of_eq (Prog.run_bind_ok hrun') ⟨rfl, hrep⟩⟩
      exact (List.mem_cons.mp hd).elim (fun he => he ▸ hcalls) (hlater d)
    · obtain ⟨hrun, _, m', hrun', rfl, hrep⟩ :=
        register_simulates (c := c) h hw.lock hfull hw.up hfuel hmine
      exact ⟨_, _, _, gone, Prog.run_bind_ok hrun, hw.joined hfull, Nat.le_of_eq List.length_append,
        hspent.step (.inr (.inr ⟨rfl, rfl⟩)), hlater, .of_eq (Prog.run_bind_ok hrun') ⟨rfl, hrep⟩⟩
  | unregister c =>
    obtain ⟨res, w', hrun, _, m', hrun', rfl, hrep⟩ :=
      unregister_simulates (c := c) h hw.lock hfuel
        (fun d hd => Nat.ne_zero_of_lt (hspent.nodes_there hrefs h hd)) (Nat.ne_zero_of_lt hthere)
    refine ⟨_, w', l, gone, Prog.run_bind_ok hrun, resting_unregister hw hrun, Nat.le_succ _,
      hspent.step ?_, hlater, .of_eq (Prog.run_bind_ok hrun') ⟨rfl, hrep⟩⟩
    rw [creg_unregister_run hw.lock] at hrun
    split at hrun
    · cases hrun
      exact .inr (.inl ⟨rfl, rfl⟩)
    · cases hrun
      exact .inl ⟨rfl, rfl⟩

theorem answers_simulates {refs : ClientPtr → Nat} {all : List ClientPtr}
    (hrefs : ∀ c ∈ all, all.count c < refs c) {calls : List RegistryCall} {gone : List ClientPtr}
    (h : Rep refs gone cr l m w) (hw : Resting w) (hfuel : l.length + calls.length < fuel)
    (hspent : Spent all w.cregState (calls.map client))
    (hgone : ∀ c ∈ gone, c ∉ calls.map client) (hnew : NewRefused calls w) :
    ∃ as w' l' gone', (answers listed calls).run w = .ok (as, w') ∧ Resting w' ∧
      l'.length < fuel ∧ Spent all w'.cregState [] ∧
      Ends (answers (linked fuel cr) calls).run m fun as' m' => as' = as ∧
        Rep refs gone' cr l' m' w' := by
  induction calls generalizing l m w gone with
  | nil => exact ⟨[], w, l, gone, rfl, hw, hfuel, hspent, .ret ⟨rfl, h⟩⟩
  | cons call calls ih =>
    rw [List.length_cons] at hfuel
    have hroom : l.length < fuel := by omega
    obtain ⟨a, w₁, l₁, gone₁, hrun, hw₁, hlen, hspent₁, hgone₁, _, m₁, hrun', rfl, h₁⟩ :=
      linked_simulates hrefs h hw hroom hspent hgone hnew
    obtain ⟨as, w', l', gone', hrest, hw', hlen', hspent', _, m', hrest', rfl, h'⟩ :=
      ih h₁ hw₁ (by omega) hspent₁ hgone₁ (hnew.2 _ _ hrun)
    exact ⟨_, w', l', gone', (Prog.run_bind_ok hrun).trans (Prog.run_bind_ok hrest), hw', hlen',
      hspent', .of_eq ((Prog.run_bind_ok hrun').trans (Prog.run_bind_ok hrest')) ⟨rfl, h'⟩⟩

end Sequences

/-! ## The end of the server -/

section Shutdown

variable {cr : Nat} {l : List (Nat × ClientPtr)} {m : Memory} {head : Option Nat}
  {r : ClientRegistry} {fuel : Nat}

/-- Every node is found, since it has the descriptor of its client. -/
theorem shutdown_client_run {x : Nat × ClientPtr} (hget : (registry cr).get m = some (view r head))
    (hl : r.registryLock = 1) (hlinks : Links m.nodeHeap head l) (hfuel : l.length < fuel)
    (hlive : ∀ y ∈ l, m.clientRefs y.2 ≠ 0) (hx : x ∈ l) :
    (creg_shutdown_client fuel cr x.2).run m =
      .ok (none, (registry cr).set (view (r.parted x.2) head) (m.unref x.2)) := by
  have hrun := unregister_run (c := x.2) hget hl hlinks hfuel hlive (hlive x hx)
  rw [if_pos ⟨x, hx, rfl⟩] at hrun
  exact Prog.run_bind_ok hrun

/-- The loop over the clients, with those of `l'` still to come: each has a reference more than
the loop will give up. -/
structure Closing (cr : Nat) (head : Option Nat) (l l' : List (Nat × ClientPtr))
    (r : ClientRegistry) (m : Memory) : Prop where
  object : (registry cr).get m = some (view r head)
  lock : r.registryLock = 1
  links : Links m.nodeHeap head l
  there : ∀ y ∈ l, (l'.map Prod.snd).count y.2 < m.clientRefs y.2

theorem Closing.live {l' : List (Nat × ClientPtr)} (h : Closing cr head l l' r m) :
    ∀ y ∈ l, m.clientRefs y.2 ≠ 0 := fun y hy => Nat.ne_zero_of_lt (h.there y hy)

theorem Closing.step {x : Nat × ClientPtr} {l' : List (Nat × ClientPtr)}
    (h : Closing cr head l (x :: l') r m) (hx : x ∈ l) : Closing cr head l l' (r.parted x.2)
      ((registry cr).set (view (r.parted x.2) head) (m.unref x.2)) where
  object := (registry cr).get_set (b := view r head) h.object
  lock := h.lock
  links := h.links
  there := fun y hy => by
    have hbefore := h.there y hy
    have hcount := unref_count (d := y.2) (l := l'.map Prod.snd) (h.live x hx)
    rw [List.map_cons] at hbefore
    show (l'.map Prod.snd).count y.2 < (m.unref x.2).clientRefs y.2
    omega

theorem firstSome_shutdown (hfuel : l.length < fuel) :
    ∀ {l' : List (Nat × ClientPtr)} {r : ClientRegistry} {m : Memory}, (∀ x ∈ l', x ∈ l) →
      Closing cr head l l' r m →
      Ends (firstSome (fun x => (creg_shutdown_client fuel cr x.2).run) l') m fun res m' =>
        res = none ∧ (registry cr).get m' = some (view (r.closed (l'.map Prod.snd)) head) ∧
          m'.nodeHeap = m.nodeHeap ∧
          ∀ c, m'.clientRefs c + (l'.map Prod.snd).count c = m.clientRefs c
  | [], _, _, _, h => .ret ⟨rfl, h.object, rfl, fun _ => rfl⟩
  | x :: l', r, m, hsub, h => by
    have hx := hsub x List.mem_cons_self
    have hrun := shutdown_client_run h.object h.lock h.links hfuel h.live hx
    rw [firstSome]
    refine Ends.run hrun ((firstSome_shutdown hfuel (fun y hy => hsub y (List.mem_cons_of_mem _ hy))
      (h.step hx)).mono ?_)
    rintro res m' ⟨rfl, hget, hheap, hrefs⟩
    refine ⟨rfl, hget, hheap, fun c => ?_⟩
    have hafter : m'.clientRefs c + (l'.map Prod.snd).count c =
        (m.unref x.2).clientRefs c := hrefs c
    have hcount := unref_count (d := c) (l := l'.map Prod.snd) (h.live x hx)
    rw [List.map_cons]
    omega

/-- The sockets are shut down, which changes nothing here. -/
theorem firstSome_sockets : ∀ l : List (Nat × ClientPtr), (∀ x ∈ l, m.clientRefs x.2 ≠ 0) →
    firstSome (fun x => (creg_shutdown_socket x.2).run) l m = .ok (none, m)
  | [], _ => rfl
  | x :: l, hlive => by
    have hrun : (creg_shutdown_socket x.2).run m = .ok (none, m) :=
      Prog.run_bind_ok (get_fd_run (hlive x List.mem_cons_self))
    rw [firstSome, bind_ok hrun]
    exact firstSome_sockets l fun y hy => hlive y (List.mem_cons_of_mem _ hy)

theorem shutdown_all_run (hfuel : l.length < fuel) (h : Closing cr head l l r m) :
    Ends (creg_shutdown_all fuel cr).run m fun _ m' =>
      (registry cr).get m' = some (view (r.closed (l.map Prod.snd)) head) ∧
        m'.nodeHeap = m.nodeHeap ∧
        ∀ c, m'.clientRefs c + (l.map Prod.snd).count c = m.clientRefs c := by
  have hsockets : (walk nodes creg_shutdown_socket fuel head).run
      ((registry cr).set (registryLock.put 0 (view r head)) m) =
        .ok (none, (registry cr).set (registryLock.put 0 (view r head)) m) := by
    refine (walk_run (I := fun _ s => s = (registry cr).set (registryLock.put 0 (view r head)) m)
      (fun x l' s s' hsuf hs hrun => ?_) rfl h.links hfuel).trans (firstSome_sockets l h.live)
    have hx : s.clientRefs x.2 ≠ 0 := by
      rw [hs]
      exact h.live x (hsuf.subset List.mem_cons_self)
    rw [creg_shutdown_socket, Prog.run_bind_ok (get_fd_run hx)] at hrun
    cases hrun
    exact ⟨hs, rfl⟩
  have hwalk : (walk nodes (creg_shutdown_client fuel cr) fuel head).run m =
      firstSome (fun x => (creg_shutdown_client fuel cr x.2).run) l m := by
    refine walk_run (I := fun l' s => ∃ r', Closing cr head l l' r' s)
      (fun x l' s s' hsuf hs hrun => ?_) ⟨r, h⟩ h.links hfuel
    obtain ⟨r', hs⟩ := hs
    have hx := hsuf.subset List.mem_cons_self
    rw [shutdown_client_run hs.object hs.lock hs.links hfuel hs.live hx] at hrun
    cases hrun
    exact ⟨⟨_, hs.step hx⟩, rfl⟩
  obtain ⟨res, m', hrun, -, hclosed⟩ := firstSome_shutdown hfuel (fun x hx => hx) h
  refine .congr (critical h.object h.lock) (.congr (Prog.run_bind_ok hsockets) ?_)
  refine .congr (set_V h.object) ?_
  rw [registryLock.reopen (a := view r head) h.lock, (registry cr).set_get h.object]
  refine .congr (read_then h.object) (.of_eq (Prog.run_bind_ok (hwalk.trans hrun)) ?_)
  exact hclosed

theorem wait_for_empty_run (hget : (registry cr).get m = some (view r head))
    (hne : r.notEmpty ≠ 0) : (creg_wait_for_empty cr).run m = .ok ((), m) := by
  have hback : notEmpty.value (view r head) - 1 + 1 = notEmpty.value (view r head) :=
    Nat.sub_add_cancel (Nat.pos_of_ne_zero hne)
  rw [creg_wait_for_empty, Prog.run_bind_ok (P_run hget hne), V_run ((registry cr).get_set hget),
    Obj.set_set, notEmpty.value_put, notEmpty.put_put, hback, notEmpty.put_value,
    (registry cr).set_get hget]

/-- The loop of `creg_fini` frees one node after the other. -/
theorem fini_loop_run {a : Registry} (hget : (registry cr).get m = some a)
    (hlinks : Links m.nodeHeap a.head l)
    (howned : ∀ q, m.nodeHeap.cell q ≠ none → q ∈ l.map Prod.fst)
    (hfuel : l.length < fuel) : Ends (creg_fini_loop cr fuel a.head).run m fun _ m' =>
      (∃ a', (registry cr).get m' = some a') ∧ (∀ q, m'.nodeHeap.cell q = none) ∧
        m'.clientRefs = m.clientRefs := by
  induction fuel generalizing m a l with
  | zero => omega
  | succ fuel ih =>
    obtain ⟨head, clientCount, lock, empty⟩ := a
    cases l with
    | nil =>
      obtain rfl : head = none := hlinks
      refine .ret ⟨⟨_, hget⟩, fun q => ?_, rfl⟩
      by_contra hq
      exact absurd (howned q hq) List.not_mem_nil
    | cons x l =>
      obtain ⟨n, hcell, hrest⟩ := hlinks.free
      obtain ⟨rfl, -⟩ := hlinks
      have hnode : (nodes.obj x.1).get m = some ⟨x.2, n⟩ := hcell
      have hget₁ := (registry cr).get_set (a := ⟨n, clientCount, lock, empty⟩) hget
      have hfree : (nodes.free x.1).run
          ((registry cr).set ⟨n, clientCount, lock, empty⟩ m) = .ok ((), _) :=
        Arena.free_run (a := ⟨x.2, n⟩) hcell
      have hnext := ih (m := nodes.modify (Heap.free x.1)
        ((registry cr).set ⟨n, clientCount, lock, empty⟩ m))
        (a := ⟨n, clientCount, lock, empty⟩) (l := l) hget₁ hrest (fun q hq => ?_)
        (by rw [List.length_cons] at hfuel; omega)
      · refine .congr ?_ hnext
        rw [creg_fini_loop, read_then hget]
        show ((nodes.obj x.1).read >>= _).run m = _
        rw [read_then hnode, update_then hget, Prog.run_bind_ok hfree]
        exact read_then hget₁
      · have hne : q ≠ x.1 := fun he => hq (by rw [he]; exact Heap.free_same _ _)
        have hq' : m.nodeHeap.cell q ≠ none := fun hnone =>
          hq ((Heap.free_other _ hne).trans hnone)
        rcases List.mem_cons.mp (howned q hq') with he | hmem
        · exact absurd he hne
        · exact hmem

/-- All nodes are freed, and the registry if there was one. -/
theorem fini_run {a : Registry} (hget : (registry cr).get m = some a)
    (hlinks : Links m.nodeHeap a.head l)
    (howned : ∀ q, m.nodeHeap.cell q ≠ none → q ∈ l.map Prod.fst)
    (hfuel : l.length < fuel) : Ends (creg_fini fuel cr).run m fun _ m' =>
      (m'.registryHeap.cell cr = none ↔ l ≠ []) ∧ (∀ q, m'.nodeHeap.cell q = none) ∧
        m'.clientRefs = m.clientRefs := by
  cases l with
  | nil =>
    have hhead : a.head = none := hlinks
    refine .congr (read_then hget) ?_
    rw [hhead]
    refine .ret ⟨iff_of_false ?_ fun hne => hne rfl, fun q => ?_, rfl⟩
    · intro hnone
      exact absurd (hnone.symm.trans hget) (by simp)
    · by_contra hq
      exact absurd (howned q hq) List.not_mem_nil
  | cons x l =>
    have hhead : a.head = some x.1 := hlinks.1
    obtain ⟨_, m₁, hloop, ⟨a', hget'⟩, hcells, hrefs⟩ := fini_loop_run hget hlinks howned hfuel
    rw [hhead] at hloop
    refine .congr (read_then hget) ?_
    rw [hhead]
    refine .of_eq ((Prog.run_bind_ok hloop).trans (Arena.free_run hget')) ⟨?_, hcells, hrefs⟩
    exact iff_of_true (Heap.free_same _ _) (List.cons_ne_nil x l)

end Shutdown

def Memory.empty (clientFd : ClientPtr → Int) (clientRefs : ClientPtr → Nat) : Memory :=
  ⟨Heap.empty, Heap.empty, clientFd, clientRefs⟩

/-- The registry in the life of the server: some calls, and then what `terminate` does. -/
def server (fuel : Nat) (calls : List RegistryCall) : Prog Memory (List Answer) := do
  let cr ← creg_init
  let as ← answers (linked fuel cr) calls
  creg_shutdown_all fuel cr
  creg_wait_for_empty cr
  creg_fini fuel cr
  return as

/-- The answers are those of the list, and no node is left. No CLIENT of a node is lost, if more
references were taken of it than there are calls for it. -/
theorem server_frees (clientFd : ClientPtr → Int) (refs : ClientPtr → Nat)
    (calls : List RegistryCall)
    (hrefs : ∀ c ∈ calls.map client, (calls.map client).count c < refs c)
    (hnew : NewRefused calls (World.initial clientFd)) {fuel : Nat} (hfuel : calls.length < fuel) :
    ∃ as w, (answers listed calls).run (World.initial clientFd) = .ok (as, w) ∧
      Ends (server fuel calls).run (Memory.empty clientFd refs) fun as' m => as' = as ∧
        (∀ q, m.nodeHeap.cell q = none) ∧
        (m.registryHeap.cell 0 = none ↔ w.cregState.nodes ≠ []) ∧
        ∀ c ∈ w.cregState.nodes, m.clientRefs c ≠ 0 := by
  have hinit := Arena.malloc_run (A := registries)
    { head := none, clientCount := 0, registryLock := 1, notEmpty := 1 }
    (Memory.empty clientFd refs)
  have hstart : Rep refs [] 0 [] (registries.modify (Heap.alloc
      { head := none, clientCount := 0, registryLock := 1, notEmpty := 1 })
      (Memory.empty clientFd refs)) (World.initial clientFd) :=
    ⟨⟨none, rfl, rfl⟩, rfl, fun q hq => absurd rfl hq, rfl, fun _ _ => rfl, nofun⟩
  have hresting : Resting (World.initial clientFd) :=
    ⟨rfl, fun _ => rfl, Int.le_refl 0, (by decide : (0 : Int) ≤ MAX_CLIENTS), nofun⟩
  have hroom : ([] : List (Nat × ClientPtr)).length + calls.length < fuel := by
    rw [List.length_nil, Nat.zero_add]
    exact hfuel
  have hspent₀ : Spent (calls.map client) (World.initial clientFd).cregState (calls.map client) :=
    fun d => Nat.le_of_eq (Nat.zero_add _)
  -- the calls; then shutdown, wait and `creg_fini` on the list that they leave
  obtain ⟨as, w, l, gone, hrun, hw, hlen, hspent, _, m, hrun', rfl, hrep⟩ :=
    answers_simulates hrefs hstart hresting hroom hspent₀ nofun hnew
  refine ⟨_, w, hrun, ?_⟩
  obtain ⟨head, hget, hlinks⟩ := hrep.object
  have hup : (w.cregState.closed (l.map Prod.snd)).notEmpty ≠ 0 := by
    refine ClientRegistry.closed_up fun h0 => ⟨hw.counted h0, ?_⟩
    rw [hrep.items]
    exact hw.bounded.nodes
  have hclosing : Closing 0 head l l w.cregState m := ⟨hget, hw.lock, hlinks, fun y hy => by
    rw [hrep.items]
    exact hspent.nodes_there hrefs hrep (hrep.items ▸ List.mem_map_of_mem hy)⟩
  obtain ⟨_, m₁, hshutdown, hget₁, hheap₁, hrefs₁⟩ := shutdown_all_run hlen hclosing
  obtain ⟨_, m', hfini, hregistry, hcells, hrefs'⟩ :=
    fini_run (l := l) hget₁ (hheap₁ ▸ hlinks) (hheap₁ ▸ hrep.owned) hlen
  refine .of_eq (Prog.run_bind_ok hinit |>.trans <| (Prog.run_bind_ok hrun').trans <|
    (Prog.run_bind_ok hshutdown).trans <| (Prog.run_bind_ok (wait_for_empty_run hget₁ hup)).trans <|
      Prog.run_bind_ok hfini) ⟨rfl, hcells, hregistry.trans ?_, fun c hc => ?_⟩
  · rw [← hrep.items, ne_eq, ne_eq, List.map_eq_nil_iff]
  · have hbefore := hspent.nodes_there hrefs hrep hc
    have hafter := hrefs₁ c
    rw [hrep.items] at hafter
    rw [hrefs']
    omega

/-- A client comes and goes, and another one comes. Somebody else has two references to each. -/
theorem server_frees_departed : ∃ as w,
    (answers listed [.register 0, .unregister 0, .register 1]).run (World.initial fun c => c) =
      .ok (as, w) ∧
    Ends (server 4 [.register 0, .unregister 0, .register 1]).run
      (Memory.empty (fun c => c) fun _ => 3) fun as' m =>
      as' = as ∧ (∀ q, m.nodeHeap.cell q = none) ∧
        (m.registryHeap.cell 0 = none ↔ w.cregState.nodes ≠ []) ∧
        ∀ c ∈ w.cregState.nodes, m.clientRefs c ≠ 0 := by
  have hroom : ∀ {w : World} {calls : List RegistryCall} {call : RegistryCall},
      w.cregState.clientCount < MAX_CLIENTS → ∀ c, call = .register c →
        w.cregState.clientCount ≥ MAX_CLIENTS → c ∉ w.cregState.nodes ∧ c ∉ calls.map client :=
    fun hlt _ _ hge => absurd hge (Int.not_le.mpr hlt)
  refine server_frees (fun c => c) (fun _ => 3) [.register 0, .unregister 0, .register 1]
    (by decide) ⟨hroom (by decide), fun a w h₁ => ?_⟩ (by decide)
  cases h₁
  refine ⟨hroom (by decide), fun a w h₂ => ?_⟩
  cases h₂
  exact ⟨hroom (by decide), fun _ _ _ => trivial⟩

end StarterProjects.Jeux.Linked
