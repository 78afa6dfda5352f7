import Mathlib.Algebra.Group.Basic
import Mathlib.Algebra.Group.Nat.Defs
import Mathlib.Algebra.Group.Pi.Basic
import StarterProjects.Jeux.ClientRegistry
import StarterProjects.Jeux.PlayerRegistry
import StarterProjects.Lib.Reach

/-!
# References to players

The ledger counts what was handed out and given back: pointers returned by `preg_register`,
calls of `player_ref` and of `player_unref`, entries of the arrays of `creg_all_players`.
By the contracts a registered player has one reference more than the balance. The code
counts differently: nothing for a returned pointer, two for a `player_ref`, and -1 for an
entry.

`accounted_of_init`: the reference counts are those of the contracts exactly when, for every
registered player, the surplus and the deficit cancel out and the count has not reached 0.
-/

namespace StarterProjects.Jeux

open Lib Lib.Exec

/-- What was handed out and given back, for every player. -/
@[ext] structure Ledger where
  returned : PlayerPtr → Nat
  refs : PlayerPtr → Nat
  entries : PlayerPtr → Nat
  unrefs : PlayerPtr → Nat

namespace Ledger

/-- What makes a count go down. -/
def drops (L : Ledger) : PlayerPtr → Nat := L.entries + L.unrefs

def empty : Ledger := ⟨fun _ => 0, fun _ => 0, fun _ => 0, fun _ => 0⟩

def add (L M : Ledger) : Ledger :=
  ⟨L.returned + M.returned, L.refs + M.refs, L.entries + M.entries, L.unrefs + M.unrefs⟩

/-- The references that are outstanding under the contracts for a registered player. -/
def outstanding (L : Ledger) (p : PlayerPtr) : Int :=
  1 + L.returned p + L.refs p + L.entries p - L.unrefs p

end Ledger

/-- One for the player, if there is one. -/
def one (player? : Option PlayerPtr) (p : PlayerPtr) : Nat := if player? = some p then 1 else 0

/-- The requests of a run. A client that logs in takes a reference to its player, and gives
it back when it logs out; which player it is logged in as is kept by the client module. -/
inductive PlayerOp where
  | register (name : CString)
  | ref (p : PlayerPtr)
  | unref (p : PlayerPtr)
  | connect (newClient : ClientPtr)
  | login (client : ClientPtr) (p : PlayerPtr)
  | logout (client : ClientPtr)
  | allPlayers (storage : Nat → Option PlayerPtr)

/-- The players of the clients, as often as they have one. -/
def playing (w : World) (clients : List ClientPtr) (p : PlayerPtr) : Nat :=
  (clients.map w.clientPlayer).count (some p)

/-- The request, with what it adds to the ledger. -/
def PlayerOp.prog : PlayerOp → Prog World Ledger
  | .register name => do
    let r ← preg_register name
    return { Ledger.empty with returned := one r }
  | .ref p => do
    let _ ← player_ref (some p)
    return { Ledger.empty with refs := one (some p) }
  | .unref p => do
    player_unref (some p)
    return { Ledger.empty with unrefs := one (some p) }
  | .connect c => do
    let _ ← creg_register c
    return Ledger.empty
  | .login c p => do
    let _ ← player_ref (some p)
    setPlayer c (some p)
    return { Ledger.empty with refs := one (some p) }
  | .logout c => do
    let player? ← Prog.ask fun w => w.clientPlayer c
    player_unref player?
    setPlayer c none
    return { Ledger.empty with unrefs := one player? }
  | .allPlayers storage => do
    let entries ← Prog.ask fun w => playing w w.cregState.nodes
    let _ ← creg_all_players storage
    return { Ledger.empty with entries := entries }

/-- A request is answered, and the ledger is kept. -/
def Served (s : Ledger × World) (op : PlayerOp) (s' : Ledger × World) : Prop :=
  ∃ d, op.prog.run s.2 = .ok (d, s'.2) ∧ s'.1 = s.1.add d

/-- The server starts: no player, nobody logged in, and both registries initialised. -/
def Opened (s : Ledger × World) : Prop :=
  s.1 = Ledger.empty ∧ ∃ w : World, w.playerHeap = Heap.empty ∧ (∀ c, w.clientPlayer c = none) ∧
    (do preg_init; creg_init : Prog World Unit).run w = .ok ((), s.2)

/-- Every registered player is there, and its count is what the contracts say. -/
def Accounted (s : Ledger × World) : Prop :=
  ∀ p ∈ s.2.pregState.nodes, ∃ X, (player p).get s.2 = some X ∧ X.refCount = s.1.outstanding p

/-- Every `player_ref` makes up for a returned pointer or for half an entry, and there is
something left. -/
def Ledger.Even (L : Ledger) (p : PlayerPtr) : Prop :=
  L.refs p = L.returned p + 2 * L.entries p ∧ L.entries p + L.unrefs p < 1 + 2 * L.refs p

/-! ## What the code counts -/

/-- The count of a player is 1, two more for every reference and one less for every drop; it
is freed when that is 0. -/
structure Counts (refs drops : PlayerPtr → Nat) (w : World) : Prop where
  pregFree : w.pregState.registryLock = 1
  known : ∀ p ∈ w.pregState.nodes, p < w.playerHeap.next
  live : ∀ p X, (player p).get w = some X →
    X.playerLock = 1 ∧ X.refCount + drops p = 1 + 2 * refs p ∧ 0 < X.refCount
  freed : ∀ p ∈ w.pregState.nodes, (player p).get w = none → (drops p : Int) = 1 + 2 * refs p
  unborn : ∀ p, w.playerHeap.next ≤ p → refs p = 0 ∧ drops p = 0

section Counting

variable {refs drops refs' drops' : PlayerPtr → Nat} {w w' : World} {p : PlayerPtr} {X : Player}

theorem one_same (p : PlayerPtr) : one (some p) p = 1 := if_pos rfl

theorem one_other {p q : PlayerPtr} (h : q ≠ p) : one (some p) q = 0 :=
  if_neg fun he => h (Option.some.inj he).symm

/-- Only the count of one live player changes, to one that is still positive. -/
theorem Counts.recount (h : Counts refs drops w) (hX : (player p).get w = some X)
    (hother : ∀ q, q ≠ p → refs' q = refs q ∧ drops' q = drops q) {n : Int}
    (hn : n + drops' p = 1 + 2 * refs' p) (hpos : 0 < n) :
    Counts refs' drops' ((player p).set { X with refCount := n } w) where
  pregFree := h.pregFree
  known := h.known
  live := fun q Y hY => by
    rcases eq_or_ne q p with rfl | hq
    · rw [Obj.get_set _ hX] at hY
      cases hY
      exact ⟨(h.live _ _ hX).1, hn, hpos⟩
    · rw [player_set_other hq] at hY
      rw [(hother q hq).1, (hother q hq).2]
      exact h.live q Y hY
  freed := fun q hq hnone => by
    rcases eq_or_ne q p with rfl | hqp
    · rw [Obj.get_set _ hX] at hnone
      cases hnone
    · rw [player_set_other hqp] at hnone
      rw [(hother q hqp).1, (hother q hqp).2]
      exact h.freed q hq hnone
  unborn := fun q hq => by
    have hne : q ≠ p := (Nat.ne_of_lt (Nat.lt_of_lt_of_le (live_lt hX) hq)).symm
    rw [(hother q hne).1, (hother q hne).2]
    exact h.unborn q hq

/-- The last reference to a live player is dropped. -/
theorem Counts.free (h : Counts refs drops w) (hX : (player p).get w = some X)
    (hother : ∀ q, q ≠ p → drops' q = drops q) (hp : (drops' p : Int) = 1 + 2 * refs p)
    (Y : Player) : Counts refs drops' (players.modify (Heap.free p) ((player p).set Y w)) := by
  have hget : ∀ q, q ≠ p → (player q).get (players.modify (Heap.free p) ((player p).set Y w)) =
      (player q).get w := fun q hq => (Heap.free_other _ hq).trans (player_set_other hq)
  refine ⟨h.pregFree, h.known, fun q Z hZ => ?_, fun q hq hnone => ?_,
    fun q hq => ?_⟩
  · rcases eq_or_ne q p with rfl | hqp
    · have hdead : (player q).get (players.modify (Heap.free q) ((player q).set Y w)) = none :=
        Heap.free_same _ _
      rw [hdead] at hZ
      cases hZ
    · rw [hother q hqp]
      exact h.live q Z ((hget q hqp).symm.trans hZ)
  · rcases eq_or_ne q p with rfl | hqp
    · exact hp
    · rw [hother q hqp]
      exact h.freed q hq ((hget q hqp).symm.trans hnone)
  · have hne : q ≠ p := (Nat.ne_of_lt (Nat.lt_of_lt_of_le (live_lt hX) hq)).symm
    rw [hother q hne]
    exact h.unborn q hq

/-- Everything but the players. -/
def SameRest (w w' : World) : Prop :=
  w'.pregState = w.pregState ∧ w'.cregState = w.cregState ∧ w'.clientPlayer = w.clientPlayer

theorem Counts.ref (h : Counts refs drops w) {r : Option PlayerPtr}
    (hrun : (player_ref (some p)).run w = .ok (r, w')) :
    Counts (refs + one (some p)) drops w' ∧ SameRest w w' := by
  cases hX : (player p).get w with
  | none =>
    rw [player_ref_dead hX] at hrun
    cases hrun
  | some X =>
    obtain ⟨hl, hcount, hpos⟩ := h.live p X hX
    rw [player_ref_run hX hl] at hrun
    cases hrun
    refine ⟨h.recount hX (fun q hq => ⟨?_, rfl⟩) ?_ (by omega), rfl, rfl, rfl⟩
    · rw [Pi.add_apply, one_other hq]
      rfl
    · rw [Pi.add_apply, one_same]
      omega

theorem Counts.unref (h : Counts refs drops w) {player? : Option PlayerPtr}
    (hrun : (player_unref player?).run w = .ok ((), w')) :
    Counts refs (drops + one player?) w' ∧ SameRest w w' := by
  cases player? with
  | none =>
    cases hrun
    exact ⟨h, rfl, rfl, rfl⟩
  | some p =>
    have hother : ∀ q, q ≠ p → (drops + one (some p)) q = drops q := fun q hq => by
      rw [Pi.add_apply, one_other hq]
      rfl
    have hsame : (drops + one (some p)) p = drops p + 1 := by rw [Pi.add_apply, one_same]
    cases hX : (player p).get w with
    | none =>
      rw [player_unref_dead hX] at hrun
      cases hrun
    | some X =>
      obtain ⟨hl, hcount, hpos⟩ := h.live p X hX
      rw [player_unref_run hX hl] at hrun
      split at hrun
      · cases hrun
        exact ⟨h.free hX hother (by omega) _, rfl, rfl, rfl⟩
      · cases hrun
        exact ⟨h.recount hX (fun q hq => ⟨rfl, hother q hq⟩) (by omega) (by omega), rfl, rfl, rfl⟩

/-! ## The registries -/

/-- The lookup reads names; what it finds is a node. -/
theorem preg_walk_ok {name : CString} : ∀ {nodes : List PlayerPtr} {r : Option PlayerPtr},
    (preg_walk name nodes).run w = .ok (r, w') → w' = w ∧ ∀ q, r = some q → q ∈ nodes
  | [], _, h => by
    cases h
    exact ⟨rfl, nofun⟩
  | [_], _, h => by
    cases h
    exact ⟨rfl, nofun⟩
  | p :: q :: rest, r, h => by
    cases hX : (player p).get w with
    | none =>
      rw [preg_walk, ← Prog.bind_assoc, player_get_name, Prog.bind_assoc, Prog.bind_assoc,
        Prog.run_bind_error (read_dead hX)] at h
      cases h
    | some X =>
      rw [preg_walk, ← Prog.bind_assoc, Prog.run_bind_ok (compare_run hX)] at h
      cases hd : decide (nameOf w p = some name) with
      | true =>
        rw [hd] at h
        cases h
        exact ⟨rfl, fun q hq => Option.some.inj hq ▸ List.mem_cons_self⟩
      | false =>
        rw [hd] at h
        obtain ⟨hw, hmem⟩ := preg_walk_ok h
        exact ⟨hw, fun q hq => List.mem_cons_of_mem _ (hmem q hq)⟩

theorem preg_player_exists_ok {name : CString} {r : Option PlayerPtr}
    (h : (preg_player_exists name).run w = .ok (r, w')) :
    w' = w ∧ ∀ q, r = some q → q ∈ w.pregState.nodes := by
  rw [preg_player_exists, read_then (show preg.get w = some w.pregState from rfl)] at h
  cases hn : w.pregState.nodes with
  | nil =>
    rw [hn] at h
    cases h
    exact ⟨rfl, fun q hq => absurd hq (Option.some_ne_none q).symm⟩
  | cons p rest =>
    rw [hn] at h
    have h' : (player_get_name (some p) >>= fun s => strcmp_eq s name >>= fun b =>
        if b then pure (some p) else preg_walk name (p :: rest)).run w = .ok (r, w') := h
    cases hX : (player p).get w with
    | none =>
      rw [player_get_name, Prog.bind_assoc, Prog.run_bind_error (read_dead hX)] at h'
      cases h'
    | some X =>
      rw [← Prog.bind_assoc, Prog.run_bind_ok (compare_run hX)] at h'
      split at h'
      · cases h'
        exact ⟨rfl, fun q hq => Option.some.inj hq ▸ List.mem_cons_self⟩
      · exact preg_walk_ok h'

theorem preg_register_ok {name : CString} {r : Option PlayerPtr}
    (hl : w.pregState.registryLock = 1) (h : (preg_register name).run w = .ok (r, w')) :
    w' = w.discarded name ∧ (∀ q, r = some q → q ∈ w.pregState.nodes) ∨
      w' = w.enrolled name := by
  have hlen : name.length < NAME_MAX_LENGTH := by
    by_contra hlong
    rw [preg_register, Prog.run_bind_error (player_create_long hlong w)] at h
    cases h
  -- the first lookup returns, since the whole call does
  obtain ⟨r₁, w₁, hex⟩ : ∃ r₁ w₁, (preg_player_exists name).run (w.locked name) =
      .ok (r₁, w₁) := by
    have hr : preg.get (w.newPlayer name) = some w.pregState := rfl
    rw [preg_register, Prog.run_bind_ok (player_create_run hlen w)] at h
    have h' : (P preg pregLock >>= _).run (w.newPlayer name) = .ok (r, w') := h
    rw [P_then hr hl] at h'
    obtain ⟨r₁, w₁, hex, _⟩ := Prog.run_bind_inv h'
    exact ⟨r₁, w₁, hex⟩
  obtain ⟨rfl, _⟩ := preg_player_exists_ok hex
  cases r₁ with
  | some q =>
    rw [preg_register_known hlen hl hex] at h
    obtain ⟨rfl, hmem⟩ := preg_player_exists_ok h
    exact .inl ⟨rfl, hmem⟩
  | none =>
    rw [preg_register_new hlen hl hex] at h
    cases h
    exact .inr rfl

theorem Counts.register (h : Counts refs drops w) {name : CString} {r : Option PlayerPtr}
    (hrun : (preg_register name).run w = .ok (r, w')) : Counts refs drops w' := by
  have hnext : ∀ {p}, w.playerHeap.next + 1 ≤ p → w.playerHeap.next ≤ p := fun hp => by omega
  rcases preg_register_ok h.pregFree hrun with ⟨rfl, _⟩ | rfl
  · have hgone : (player w.playerHeap.next).get (w.discarded name) = none := Heap.free_same _ _
    refine ⟨h.pregFree, fun p hp => Nat.lt_succ_of_lt (h.known p hp),
      fun p X hX => ?_, fun p hp hnone => ?_, fun p hp => h.unborn p (hnext hp)⟩
    · rcases eq_or_ne p w.playerHeap.next with rfl | hne
      · rw [hgone] at hX
        cases hX
      · exact h.live p X ((discarded_other hne).symm.trans hX)
    · have hne : p ≠ w.playerHeap.next := Nat.ne_of_lt (h.known p hp)
      exact h.freed p hp ((discarded_other hne).symm.trans hnone)
  · have hborn : (player w.playerHeap.next).get (w.enrolled name) = some (Player.created name) :=
      newPlayer_same
    have hother : ∀ p, p ≠ w.playerHeap.next →
        (player p).get (w.enrolled name) = (player p).get w := fun p hp => newPlayer_other hp
    refine ⟨h.pregFree, fun p hp => ?_, fun p X hX => ?_, fun p hp hnone => ?_,
      fun p hp => h.unborn p (hnext hp)⟩
    · rcases List.mem_append.mp hp with hp | hp
      · exact Nat.lt_succ_of_lt (h.known p hp)
      · exact List.mem_singleton.mp hp ▸ Nat.lt_succ_self _
    · rcases eq_or_ne p w.playerHeap.next with rfl | hne
      · rw [hborn] at hX
        cases hX
        obtain ⟨hr, hd⟩ := h.unborn _ (Nat.le_refl _)
        rw [hr, hd]
        exact ⟨rfl, rfl, Int.one_pos⟩
      · exact h.live p X ((hother p hne).symm.trans hX)
    · rcases eq_or_ne p w.playerHeap.next with rfl | hne
      · rw [hborn] at hnone
        cases hnone
      · refine h.freed p ?_ ((hother p hne).symm.trans hnone)
        rcases List.mem_append.mp hp with hp | hp
        · exact hp
        · exact absurd (List.mem_singleton.mp hp) hne

theorem playing_cons (w : World) (c : ClientPtr) (cs : List ClientPtr) :
    playing w (c :: cs) = one (w.clientPlayer c) + playing w cs := by
  funext p
  rw [playing, List.map_cons, List.count_cons, Pi.add_apply, Nat.add_comm]
  simp only [one, beq_iff_eq, playing]

/-- The loop of `creg_all_players` drops one reference for each entry. -/
theorem Counts.fill : ∀ {clients : List ClientPtr} {n : Nat} {arr arr' : List (Option PlayerPtr)}
    {drops : PlayerPtr → Nat} {w : World}, Counts refs drops w →
    (creg_fill n clients arr).run w = .ok (arr', w') →
    Counts refs (drops + playing w clients) w' ∧ SameRest w w'
  | [], _, _, _, _, _, h, hrun => by
    cases hrun
    exact ⟨h, rfl, rfl, rfl⟩
  | c :: clients, n, arr, arr', drops, w, h, hrun => by
    rw [creg_fill] at hrun
    split at hrun
    · rw [Prog.run_bind_ok (Prog.ask_run _ _)] at hrun
      obtain ⟨_, w₁, hdrop, hrest⟩ := Prog.run_bind_inv hrun
      obtain ⟨h₁, hp, hc, hcl⟩ := h.unref hdrop
      obtain ⟨h₂, hp', hc', hcl'⟩ := Counts.fill h₁ hrest
      have hsame : playing w₁ clients = playing w clients := by
        funext p
        rw [playing, playing, hcl]
      rw [hsame, add_assoc, ← playing_cons] at h₂
      exact ⟨h₂, hp'.trans hp, hc'.trans hc, hcl'.trans hcl⟩
    · cases hrun

theorem Counts.creg_set (h : Counts refs drops w) (r : ClientRegistry) :
    Counts refs drops (creg.set r w) := ⟨h.pregFree, h.known, h.live, h.freed, h.unborn⟩

theorem Counts.connect (h : Counts refs drops w) (hl : w.cregState.registryLock = 1)
    {c : ClientPtr} {r : Option ClientPtr} (hrun : (creg_register c).run w = .ok (r, w')) :
    Counts refs drops w' ∧ w'.cregState.registryLock = 1 := by
  by_cases hfull : w.cregState.clientCount ≥ MAX_CLIENTS
  · rw [creg_register_full hl hfull] at hrun
    cases hrun
    exact ⟨h, hl⟩
  · by_cases hn : w.cregState.nodes = [] ∧ w.cregState.notEmpty = 0
    · rw [creg_register_blocked hl hfull hn.1 hn.2] at hrun
      cases hrun
    · rw [creg_register_run hl hfull fun h₁ h₂ => hn ⟨h₁, h₂⟩] at hrun
      cases hrun
      exact ⟨h.creg_set _, hl⟩

theorem Counts.allPlayers (h : Counts refs drops w) (hl : w.cregState.registryLock = 1)
    {storage : Nat → Option PlayerPtr} {arr : List (Option PlayerPtr)}
    (hrun : (creg_all_players storage).run w = .ok (arr, w')) :
    Counts refs (drops + playing w w.cregState.nodes) w' ∧ w'.cregState.registryLock = 1 := by
  rw [creg_all_players, critical (creg_get w) hl] at hrun
  have hrun' : (if w.cregState.clientCount + 1 < 0 then _
    else if w.cregState.nodes = [] then _ else _ : Prog World _).run _ = _ := hrun
  split at hrun'
  · cases hrun'
  split at hrun'
  · next hn =>
    rw [set_V (creg_get w), registryLock.reopen hl, Obj.set_get _ (creg_get w)] at hrun'
    cases hrun'
    rw [hn]
    exact ⟨h, hl⟩
  · obtain ⟨arr', w₁, hfill, hrest⟩ := Prog.run_bind_inv hrun'
    obtain ⟨h₁, hp, hc, hcl⟩ := (h.creg_set (registryLock.put 0 w.cregState)).fill hfill
    split at hrest
    · have hget : creg.get w₁ = some (registryLock.put 0 w.cregState) := congrArg some hc
      rw [V_then hget] at hrest
      cases hrest
      exact ⟨h₁.creg_set _, rfl⟩
    · cases hrest

end Counting

/-! ## Runs -/

theorem Ledger.drops_add (L d : Ledger) : (L.add d).drops = L.drops + d.drops :=
  add_add_add_comm _ _ _ _

theorem Ledger.refs_add (L d : Ledger) : (L.add d).refs = L.refs + d.refs := rfl

/-- The ledger of a run and the counts in the world. -/
def Books (s : Ledger × World) : Prop :=
  Counts s.1.refs s.1.drops s.2 ∧ s.2.cregState.registryLock = 1

theorem Books.step {s s' : Ledger × World} {op : PlayerOp} (h : Books s) (hs : Served s op s') :
    Books s' := by
  obtain ⟨L, w⟩ := s
  obtain ⟨L', w'⟩ := s'
  obtain ⟨d, hrun, rfl : L' = L.add d⟩ := hs
  obtain ⟨hc, hl⟩ := h
  have hzero : ∀ f : PlayerPtr → Nat, f + 0 = f := add_zero
  unfold Books
  rw [Ledger.drops_add, Ledger.refs_add]
  cases op with
  | register name =>
    obtain ⟨r, w₁, hreg, hret⟩ := Prog.run_bind_inv hrun
    cases hret
    have hkeep : w'.cregState = w.cregState := by
      rcases preg_register_ok hc.pregFree hreg with ⟨rfl, _⟩ | rfl
      · rfl
      · rfl
    rw [← hkeep] at hl
    exact ⟨hc.register hreg, hl⟩
  | ref p =>
    obtain ⟨r, w₁, href, hret⟩ := Prog.run_bind_inv hrun
    cases hret
    obtain ⟨hc', hs⟩ := hc.ref href
    rw [← hs.2.1] at hl
    exact ⟨hc', hl⟩
  | unref p =>
    obtain ⟨_, w₁, hunref, hret⟩ := Prog.run_bind_inv hrun
    cases hret
    obtain ⟨hc', hs⟩ := hc.unref hunref
    rw [← hs.2.1] at hl
    refine ⟨?_, hl⟩
    show Counts (L.refs + 0) (L.drops + (0 + one (some p))) w'
    rw [zero_add]
    exact hc'
  | connect c =>
    obtain ⟨r, w₁, hreg, hret⟩ := Prog.run_bind_inv hrun
    cases hret
    exact hc.connect hl hreg
  | login c p =>
    obtain ⟨r, w₁, href, hret⟩ := Prog.run_bind_inv hrun
    cases hret
    obtain ⟨hc', hs⟩ := hc.ref href
    rw [← hs.2.1] at hl
    exact ⟨⟨hc'.pregFree, hc'.known, hc'.live, hc'.freed, hc'.unborn⟩, hl⟩
  | logout c =>
    have hrun' : (player_unref (w.clientPlayer c) >>= _).run w = .ok (d, w') := hrun
    obtain ⟨_, w₁, hunref, hret⟩ := Prog.run_bind_inv hrun'
    cases hret
    obtain ⟨hc', hs⟩ := hc.unref hunref
    rw [← hs.2.1] at hl
    refine ⟨?_, hl⟩
    show Counts (L.refs + 0) (L.drops + (0 + one (w.clientPlayer c))) _
    rw [zero_add]
    exact ⟨hc'.pregFree, hc'.known, hc'.live, hc'.freed, hc'.unborn⟩
  | allPlayers storage =>
    have hrun' : (creg_all_players storage >>= _).run w = .ok (d, w') := hrun
    obtain ⟨arr, w₁, hall, hret⟩ := Prog.run_bind_inv hrun'
    cases hret
    obtain ⟨hc', hl'⟩ := hc.allPlayers hl hall
    exact ⟨hc', hl'⟩

theorem Books.init {s : Ledger × World} (h : Opened s) : Books s := by
  obtain ⟨L, w⟩ := s
  obtain ⟨rfl : L = Ledger.empty, w₀, hheap, -, hrun⟩ := h
  cases hrun
  have hcell : ∀ p, w₀.playerHeap.cell p = none := fun p => by
    rw [hheap]
    rfl
  refine ⟨⟨rfl, nofun, fun p X hX => ?_, nofun, fun _ _ => ⟨rfl, rfl⟩⟩, rfl⟩
  have hX' : w₀.playerHeap.cell p = some X := hX
  rw [hcell] at hX'
  cases hX'

/-- In every state of every run: the counts are those of the contracts exactly when the
ledger is even for every registered player. -/
theorem accounted_of_init {s : Ledger × World} (h : Reaches Opened Served s) :
    Accounted s ↔ ∀ p ∈ s.2.pregState.nodes, s.1.Even p := by
  have hb : Books s := h.invariant (fun _ => Books.init) fun _ _ _ hb hs => hb.step hs
  refine forall₂_congr fun p hp => ?_
  have hdrops : s.1.drops p = s.1.entries p + s.1.unrefs p := rfl
  cases hX : (player p).get s.2 with
  | none =>
    have hdead := hb.1.freed p hp hX
    constructor
    · rintro ⟨X, hX', _⟩
      cases hX'
    · rintro ⟨_, hlt⟩
      omega
  | some X =>
    obtain ⟨_, hcount, hpos⟩ := hb.1.live p X hX
    unfold Ledger.Even Ledger.outstanding
    constructor
    · rintro ⟨Y, hY, hout⟩
      cases hY
      omega
    · intro heven
      exact ⟨X, rfl, by omega⟩

theorem reaches_served {L : Ledger} {w w' : World} {d : Ledger}
    (h : Reaches Opened Served (L, w)) (op : PlayerOp) (hrun : op.prog.run w = .ok (d, w')) :
    Reaches Opened Served (L.add d, w') := h.step (i := op) ⟨d, hrun, rfl⟩

/-- A player was registered and referenced once: the registry, the caller and the reference. -/
theorem even_after_ref :
    ∃ s, Reaches Opened Served s ∧ s.2.pregState.nodes = [0] ∧ Accounted s := by
  have h₀ : Reaches Opened Served (Ledger.empty, World.initial fun _ => 0) :=
    .init ⟨rfl, World.initial fun _ => 0, rfl, fun _ => rfl, rfl⟩
  have h₁ := reaches_served h₀ (.register "ann".toList) rfl
  have h₂ := reaches_served h₁ (.ref 0) rfl
  refine ⟨_, h₂, rfl, (accounted_of_init h₂).mpr fun p hp => ?_⟩
  obtain rfl := List.mem_singleton.mp hp
  exact ⟨rfl, by decide⟩

/-- A registered player: the registry and the caller hold it, and the count is 1. -/
theorem one_for_two : ∃ s, Reaches Opened Served s ∧ ¬ Accounted s := by
  have h₀ : Reaches Opened Served (Ledger.empty, World.initial fun _ => 0) :=
    .init ⟨rfl, World.initial fun _ => 0, rfl, fun _ => rfl, rfl⟩
  have h₁ := reaches_served h₀ (.register "ann".toList) rfl
  refine ⟨_, h₁, fun ha => ?_⟩
  obtain ⟨X, hX, hout⟩ := ha 0 (List.mem_singleton_self _)
  cases hX
  exact absurd hout (by decide)

end StarterProjects.Jeux
