import StarterProjects.Jeux.Player

/-!
# The client registry

The functions of `client_registry.c`. `creg_unregister` compares file descriptors and never
takes a node out of the list; what it does change is `clientCount`, and the semaphore
`notEmpty` when the count is 0. The client that `client_create` returns is a parameter of
`creg_register`.

Of the references to a CLIENT there is no count here, since `client_create` and `client_ref`
are in the client module. What the registry does to them is in `released`, one entry for each
`client_unref`. The descriptors of the CLIENTs are read as if all of them were there, and they
are as long as more references have been taken of each than `released` has entries for it
(`Referenced`).
-/

namespace StarterProjects.Jeux

open Lib

def MAX_CLIENTS : Int := 64

def creg_init : Prog World Unit :=
  creg.update fun _ =>
    { nodes := [], clientCount := 0, registryLock := 1, notEmpty := 1,
      registered := [], released := [] }

def creg_register (newClient : ClientPtr) : Prog World (Option ClientPtr) := do
  P creg registryLock
  let r ← creg.read
  if r.clientCount ≥ MAX_CLIENTS then
    V creg registryLock
    return none
  if r.nodes = [] then
    creg.update fun r => { r with nodes := [newClient], clientCount := r.clientCount + 1 }
    P creg notEmpty
    creg.update fun r => { r with registered := r.registered ++ [newClient] }
    V creg registryLock
    return some newClient
  creg.update fun r =>
    { r with
      nodes := r.nodes ++ [newClient]
      clientCount := r.clientCount + 1
      registered := r.registered ++ [newClient] }
  V creg registryLock
  return some newClient

/-- "Tell wait_for_empty to continue", and leave with `res`. -/
def creg_signal (res : Int) : Prog World Int := do
  let r ← creg.read
  if r.clientCount = 0 then
    V creg notEmpty
  V creg registryLock
  return res

/-- The client module frees the CLIENT with the last reference. -/
def client_unref (client : ClientPtr) : Prog World Unit :=
  creg.update fun r => { r with released := client :: r.released }

/-- The branch of `creg_unregister` for a node with the descriptor of the client. -/
def creg_drop (client : ClientPtr) : Prog World Int := do
  creg.update fun r =>
    { r with clientCount := r.clientCount - 1, registered := r.registered.erase client }
  client_unref client
  creg_signal 0

/-- `while(tempNode != NULL)`. -/
def creg_find (client_get_fd : ClientPtr → Int) (client : ClientPtr) :
    List ClientPtr → Prog World Int
  | [] => creg_signal (-1)
  | c :: rest =>
    if client_get_fd c = client_get_fd client then creg_drop client
    else creg_find client_get_fd client rest

def creg_unregister (client : ClientPtr) : Prog World Int := do
  P creg registryLock
  let r ← creg.read
  let client_get_fd ← Prog.ask World.clientFd
  match r.nodes with
  | [] => creg_find client_get_fd client []
  | c :: rest =>
    if client_get_fd c = client_get_fd client then creg_drop client
    else creg_find client_get_fd client (c :: rest)

def creg_search (user : CString) : List ClientPtr → Prog World (Option ClientPtr)
  | [] => do
    V creg registryLock
    return none
  | c :: rest => do
    let tempPlayer ← Prog.ask fun w => w.clientPlayer c
    if ← strcmp_eq (← player_get_name tempPlayer) user then
      V creg registryLock
      return some c
    creg_search user rest

def creg_lookup (user : CString) : Prog World (Option ClientPtr) := do
  P creg registryLock
  let r ← creg.read
  match r.nodes with
  | [] => return none
  | c :: rest => do
    let tempPlayer ← Prog.ask fun w => w.clientPlayer c
    if ← strcmp_eq (← player_get_name tempPlayer) user then
      V creg registryLock
      return some c
    creg_search user (c :: rest)

/-- A write past the end of the array is undefined. -/
def creg_fill : Nat → List ClientPtr → List (Option PlayerPtr) →
    Prog World (List (Option PlayerPtr))
  | _, [], player_array => return player_array
  | count, c :: rest, player_array =>
    if count < player_array.length then do
      let tempPlayer ← Prog.ask fun w => w.clientPlayer c
      player_unref tempPlayer
      creg_fill (count + 1) rest (player_array.set count tempPlayer)
    else Prog.stop .undefined

/-- `storage` is what `Malloc` finds in the new array. For a negative size `Malloc` gives up. -/
def creg_all_players (storage : Nat → Option PlayerPtr) :
    Prog World (List (Option PlayerPtr)) := do
  P creg registryLock
  let r ← creg.read
  if r.clientCount + 1 < 0 then
    Prog.stop .abort
  else
    let player_array := (List.range (r.clientCount + 1).toNat).map storage
    if r.nodes = [] then
      V creg registryLock
      return player_array
    let player_array ← creg_fill 0 r.nodes player_array
    if 0 ≤ r.clientCount then
      V creg registryLock
      return player_array.set r.clientCount.toNat none
    else Prog.stop .undefined

def creg_wait_for_empty : Prog World Unit := do
  P creg notEmpty
  V creg notEmpty

/-- The first loop of `creg_shutdown_all` calls `shutdown` on the sockets. -/
def creg_shutdown_sockets : Prog World ClientRegistry := do
  P creg registryLock
  let r ← creg.read
  V creg registryLock
  return r

/-- The node that the second loop visits next; it does not take the lock. -/
def creg_shutdown_node (i : Nat) : Prog World (Option ClientPtr) := do
  let r ← creg.read
  return r.nodes[i]?

/-- Other threads can append nodes, so `fuel` bounds the number of nodes visited. -/
def creg_shutdown_loop : Nat → Nat → Prog World Unit
  | 0, _ => Prog.stop .diverges
  | fuel + 1, i => do
    match ← creg_shutdown_node i with
    | none => return ()
    | some c =>
      let _ ← creg_unregister c
      creg_shutdown_loop fuel (i + 1)

def creg_shutdown_all (fuel : Nat) : Prog World Unit := do
  let _ ← creg_shutdown_sockets
  creg_shutdown_loop fuel 0

/-- What `client_login` and `client_logout` of the client module write. -/
def setPlayer (c : ClientPtr) (player? : Option PlayerPtr) : Prog World Unit :=
  .act (fun w => some { w with clientPlayer := Function.update w.clientPlayer c player? })
    fun _ => .ret ()

/-! ## What they do when no other thread runs -/

/-- Some node has the descriptor of `c`. -/
def Listed (w : World) (c : ClientPtr) : Prop :=
  ∃ d ∈ w.cregState.nodes, w.clientFd d = w.clientFd c

instance (w : World) (c : ClientPtr) : Decidable (Listed w c) :=
  inferInstanceAs (Decidable (∃ d ∈ w.cregState.nodes, w.clientFd d = w.clientFd c))

namespace ClientRegistry

variable (r : ClientRegistry) (c : ClientPtr)

/-- A client more. The first node takes the semaphore down. -/
def joined : ClientRegistry :=
  { r with
    nodes := r.nodes ++ [c]
    clientCount := r.clientCount + 1
    registered := r.registered ++ [c]
    notEmpty := if r.nodes = [] then r.notEmpty - 1 else r.notEmpty }

/-- The semaphore goes up when the count is 0. -/
def signalled : ClientRegistry :=
  { r with notEmpty := if r.clientCount = 0 then r.notEmpty + 1 else r.notEmpty }

variable {r c}

theorem joined_first (h : r.nodes = []) : r.joined c =
    { r with
      nodes := [c]
      clientCount := r.clientCount + 1
      registered := r.registered ++ [c]
      notEmpty := r.notEmpty - 1 } := by
  rw [joined, if_pos h, h]
  rfl

theorem joined_more (h : r.nodes ≠ []) : r.joined c =
    { r with
      nodes := r.nodes ++ [c]
      clientCount := r.clientCount + 1
      registered := r.registered ++ [c] } := by
  rw [joined, if_neg h]

theorem signalled_zero (h : r.clientCount = 0) :
    r.signalled = { r with notEmpty := r.notEmpty + 1 } := by
  rw [signalled, if_pos h]

theorem signalled_same (h : r.clientCount ≠ 0) : r.signalled = r := by
  rw [signalled, if_neg h]

variable (r c)

/-- A client less; its node stays. -/
def parted : ClientRegistry :=
  signalled { r with
    clientCount := r.clientCount - 1
    registered := r.registered.erase c
    released := c :: r.released }

/-- `refs` says how many references have been taken of each CLIENT, by `client_create` and by
`client_ref`. Of those that the registry knows one is left, so they are there. -/
def Referenced (refs : ClientPtr → Nat) : Prop :=
  ∀ c, c ∈ r.nodes ∨ c ∈ r.released → r.released.count c < refs c

/-- One is left even when every node gives up another one. -/
def Outlasted (refs : ClientPtr → Nat) : Prop :=
  ∀ c, c ∈ r.nodes ∨ c ∈ r.released → r.released.count c + r.nodes.count c < refs c

end ClientRegistry

section Runs

variable {w : World} {c : ClientPtr}

theorem creg_get (w : World) : creg.get w = some w.cregState := rfl

theorem creg_register_full (hl : w.cregState.registryLock = 1)
    (hfull : w.cregState.clientCount ≥ MAX_CLIENTS) :
    (creg_register c).run w = .ok (none, w) := by
  rw [creg_register, critical (creg_get w) hl]
  show (if w.cregState.clientCount ≥ MAX_CLIENTS then _ else _ : Prog World _).run _ = _
  rw [if_pos hfull, set_V (creg_get w), registryLock.reopen hl, Obj.set_get _ (creg_get w)]
  rfl

/-- The first node, while `notEmpty` is down. -/
theorem creg_register_blocked (hl : w.cregState.registryLock = 1)
    (hroom : ¬ w.cregState.clientCount ≥ MAX_CLIENTS) (hn : w.cregState.nodes = [])
    (h0 : w.cregState.notEmpty = 0) : (creg_register c).run w = .error .diverges := by
  rw [creg_register, critical (creg_get w) hl]
  show (if w.cregState.clientCount ≥ MAX_CLIENTS then _
    else if w.cregState.nodes = [] then _ else _ : Prog World _).run _ = _
  rw [if_neg hroom, if_pos hn, set_update (creg_get w)]
  exact Prog.run_bind_error (P_busy (creg.get_set (creg_get w)) h0)

theorem creg_register_run (hl : w.cregState.registryLock = 1)
    (hroom : ¬ w.cregState.clientCount ≥ MAX_CLIENTS)
    (hne : w.cregState.nodes = [] → w.cregState.notEmpty ≠ 0) :
    (creg_register c).run w = .ok (some c, creg.set (w.cregState.joined c) w) := by
  have hopen : registryLock.put 1 (w.cregState.joined c) = w.cregState.joined c :=
    registryLock.put_same hl
  rw [creg_register, critical (creg_get w) hl, ← hopen]
  show (if w.cregState.clientCount ≥ MAX_CLIENTS then _ else _ : Prog World _).run _ = _
  rw [if_neg hroom]
  show (if w.cregState.nodes = [] then _ else _ : Prog World _).run _ = _
  split
  · next hn =>
    rw [set_update (creg_get w)]
    rw [Prog.run_bind_ok (P_run (creg.get_set (creg_get w)) (hne hn)), Obj.set_set,
      set_update (creg_get w), set_V (creg_get w), ClientRegistry.joined_first hn]
    rfl
  · next hn =>
    rw [set_update (creg_get w), set_V (creg_get w), ClientRegistry.joined_more hn]
    rfl

/-- The end of `creg_unregister`, in the critical section. -/
theorem creg_signal_run (res : Int) {r : ClientRegistry} (hl : r.registryLock = 1) :
    (creg_signal res).run (creg.set (registryLock.put 0 r) w) =
      .ok (res, creg.set r.signalled w) := by
  have hopen : registryLock.put 1 r.signalled = r.signalled := registryLock.put_same hl
  rw [creg_signal, set_read (creg_get w), ← hopen]
  show (if r.clientCount = 0 then _ else _ : Prog World _).run _ = _
  split
  · next h0 =>
    rw [set_V (creg_get w), set_V (creg_get w), ClientRegistry.signalled_zero h0]
    rfl
  · next h0 =>
    rw [set_V (creg_get w), ClientRegistry.signalled_same h0]
    rfl

theorem creg_drop_run {r : ClientRegistry} (hl : r.registryLock = 1) :
    (creg_drop c).run (creg.set (registryLock.put 0 r) w) = .ok (0, creg.set (r.parted c) w) := by
  rw [creg_drop, set_update (creg_get w), client_unref, set_update (creg_get w)]
  exact creg_signal_run 0 (r := { r with
    clientCount := r.clientCount - 1
    registered := r.registered.erase c
    released := c :: r.released }) hl

theorem creg_find_run {r : ClientRegistry} (hl : r.registryLock = 1) (fd : ClientPtr → Int) :
    ∀ nodes : List ClientPtr, (creg_find fd c nodes).run (creg.set (registryLock.put 0 r) w) =
      if ∃ d ∈ nodes, fd d = fd c then .ok (0, creg.set (r.parted c) w)
      else .ok (-1, creg.set r.signalled w)
  | [] => creg_signal_run (-1) hl
  | d :: nodes => by
    rw [creg_find]
    split
    · next hd => rw [if_pos ⟨d, List.mem_cons_self, hd⟩, creg_drop_run hl]
    · next hd =>
      have hrest : (∃ e ∈ d :: nodes, fd e = fd c) ↔ ∃ e ∈ nodes, fd e = fd c := by
        simp only [List.mem_cons, exists_eq_or_imp, hd, false_or]
      rw [creg_find_run hl fd nodes]
      exact (if_congr hrest rfl rfl).symm

/-- The first comparison is made twice. -/
theorem creg_unregister_run (hl : w.cregState.registryLock = 1) :
    (creg_unregister c).run w =
      if Listed w c then .ok (0, creg.set (w.cregState.parted c) w)
      else .ok (-1, creg.set w.cregState.signalled w) := by
  have hfind := creg_find_run (w := w) (c := c) hl w.clientFd w.cregState.nodes
  rw [creg_unregister, critical (creg_get w) hl, Prog.run_bind_ok (Prog.ask_run _ _)]
  refine Eq.trans ?_ hfind
  cases hn : w.cregState.nodes with
  | nil =>
    show (match w.cregState.nodes with
      | [] => _
      | c :: rest => _ : Prog World _).run _ = _
    rw [hn]
    rfl
  | cons d rest =>
    show (match w.cregState.nodes with
      | [] => _
      | c :: rest => _ : Prog World _).run _ = _
    rw [hn]
    show (if w.clientFd d = w.clientFd c then _ else _ : Prog World _).run _ = _
    split
    · next hd =>
      rw [creg_find, if_pos hd]
    · rfl

end Runs

end StarterProjects.Jeux
