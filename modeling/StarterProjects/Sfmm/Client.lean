import StarterProjects.Lib.Reach
import StarterProjects.Sfmm.Allocator

/-!
# Clients of the allocator

A client calls `sf_malloc`, `sf_free` and `sf_realloc`, the last two on pointers
that are live, and writes bytes into what it asked for. `Sys` is the heap with the
table of live allocations. A step is taken only when the call returns: a run ends
with the first call that aborts, never comes back or does something undefined.
-/

namespace StarterProjects.Sfmm

open Lib Lib.Exec

/-- A pointer the client holds, with the size it asked for. -/
structure Allocation where
  ptr : Nat
  size : Nat
deriving DecidableEq, Repr

structure Sys where
  heap : State
  live : List Allocation

inductive Op where
  | malloc (size : Nat)
  | free (ptr : Nat)
  | realloc (ptr rsize : Nat)
  | write (addr value : Nat)
deriving DecidableEq, Repr

/-- `p` is the pointer of a live allocation. -/
def Live (live : List Allocation) (p : Nat) : Prop := ∃ a ∈ live, a.ptr = p

namespace Op

/-- What the client is allowed to ask for. -/
def Valid (live : List Allocation) : Op → Prop
  | malloc size => size < 2 ^ 64
  | free p => Live live p
  | realloc p rsize => Live live p ∧ rsize < 2 ^ 64
  | write addr value => value < 256 ∧ ∃ a ∈ live, a.ptr ≤ addr ∧ addr < a.ptr + a.size

/-- The call; the result of one without a result is `NULL`. -/
def run (e : Env) (fuel : Nat) : Op → Exec State Nat
  | malloc size => sf_malloc e fuel size
  | free p => do
      sf_free e p
      pure NULL
  | realloc p rsize => sf_realloc e fuel p rsize
  | write addr value => do
      modify fun s => { s with mem := setByte s.mem addr value }
      pure NULL

/-- The table of live allocations after a call that returned `r`. -/
def after (live : List Allocation) (r : Nat) : Op → List Allocation
  | malloc size => if r = NULL then live else ⟨r, size⟩ :: live
  | free p => live.filter fun a => a.ptr ≠ p
  | realloc p rsize =>
      if rsize = 0 then live.filter fun a => a.ptr ≠ p
      else if r = NULL then live
      else ⟨r, rsize⟩ :: live.filter fun a => a.ptr ≠ p
  | write _ _ => live

instance (live : List Allocation) (p : Nat) : Decidable (Live live p) :=
  inferInstanceAs (Decidable (∃ a ∈ live, a.ptr = p))

instance (live : List Allocation) : (op : Op) → Decidable (op.Valid live)
  | malloc _ => inferInstanceAs (Decidable (_ < _))
  | free _ => inferInstanceAs (Decidable (Live _ _))
  | realloc _ _ => inferInstanceAs (Decidable (_ ∧ _))
  | write _ _ => inferInstanceAs (Decidable (_ ∧ ∃ a ∈ live, _))

/-- The call is one of `sf_malloc` or `sf_free`. -/
def MallocFree : Op → Prop
  | malloc _ | free _ => True
  | realloc _ _ | write _ _ => False

end Op

/-- The call returns `r` and leaves the heap `s'`. -/
def Returns (e : Env) (s : State) (op : Op) (r : Nat) (s' : State) : Prop :=
  ∃ fuel, op.run e fuel s = .ok (r, s')

/-- The call ends in `abort`. -/
def Aborts (e : Env) (s : State) (op : Op) : Prop := ∃ fuel, op.run e fuel s = .error .abort

/-- A call the client may make, that meets the condition `C` and returns. -/
structure Step (e : Env) (C : Sys → Op → Prop) (s : Sys) (op : Op) (s' : Sys) : Prop where
  valid : op.Valid s.live
  cond : C s op
  returns : ∃ r, Returns e s.heap op r s'.heap ∧ s'.live = op.after s.live r

/-- The heap has no page yet and nothing is live; memory is arbitrary. -/
structure Start (e : Env) (s : Sys) : Prop where
  empty : s.heap.sf_mem_end = e.sf_mem_start
  none_live : s.live = []

/-- The states that calls which meet `C` lead to. -/
abbrev Reached (e : Env) (C : Sys → Op → Prop) : Sys → Prop := Reaches (Start e) (Step e C)

/-- The calls of `ops` in order, when each is valid and returns. -/
def Sys.exec (e : Env) (fuel : Nat) : List Op → Sys → Option Sys
  | [], s => some s
  | op :: ops, s =>
      if op.Valid s.live then
        match op.run e fuel s.heap with
        | .ok (r, heap) => exec e fuel ops ⟨heap, op.after s.live r⟩
        | .error _ => none
      else none

theorem Reached.exec {e : Env} {C : Sys → Op → Prop} {fuel : Nat} :
    ∀ {ops : List Op} {s s' : Sys}, Reached e C s → (∀ op ∈ ops, ∀ t, C t op) →
      s.exec e fuel ops = some s' → Reached e C s'
  | [], _, _, h, _, he => by
    cases he
    exact h
  | op :: ops, s, s', h, hC, he => by
    unfold Sys.exec at he
    split at he
    · rename_i hvalid
      split at he
      · rename_i r heap hrun
        refine Reached.exec (.step (i := op) h ?_) (fun o ho => hC o (List.mem_cons_of_mem _ ho)) he
        exact ⟨hvalid, hC op List.mem_cons_self s, r, ⟨fuel, hrun⟩, rfl⟩
      · cases he
    · cases he

/-! ## A client for runs on fixed inputs -/

/-- A heap of at most 24 pages. -/
def sampleEnv : Env where
  magic := 0x1234567890abcdef
  sf_mem_start := 0x100000
  heapLimit := 0x118000
  listHeads := 0x1000
  grants := fun _ => true
  magic_lt := by decide
  start_pos := by decide
  start_aligned := by decide
  limit_lt := by decide
  heads_pos := by decide
  heads_aligned := by decide
  heads_lt := by decide
  heads_apart := by decide

/-- Nothing has been called yet, and memory holds zeros. -/
def sample : Sys := ⟨⟨fun _ => 0, 0x100000, fun _ => ⟨0, NULL⟩, NULL, 0, 0⟩, []⟩

theorem sample_reached (C : Sys → Op → Prop) : Reached sampleEnv C sample := .init ⟨rfl, rfl⟩

end StarterProjects.Sfmm
