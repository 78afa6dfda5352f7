import Mathlib.Tactic.Simps.Basic
import StarterProjects.Lib.Tiles
import StarterProjects.Sfmm.Allocator

/-!
# The abstract allocator

A `Pool` is what the allocator is about, without memory: which blocks there
are, which lists hold them, and the four scalars of the run. It has no pointers
and no words, except for `known`, the words of free blocks whose contents are
determined (footers, and what is left of merged headers).

`Pool.Shape` is what holds at every point inside a call; `Pool.Inv` what holds
between calls.
-/

namespace StarterProjects.Sfmm

open Lib

structure Pool where
  /-- the block that starts at an address -/
  hdr : Nat → Option Hdr
  free : Nat → List Nat
  quick : Nat → List Nat
  /-- decoded contents of a word of a free block -/
  known : Nat → Option Nat
  /-- the sentinel of a free list points back to the last block -/
  closed : Nat → Bool
  /-- the quick list that is being flushed -/
  busy : Option Nat
  /-- words that were written and are neither header nor link -/
  touched : List Nat
  memEnd : Nat
  globalEnd : Nat
  errno : Nat
  growCalls : Nat

namespace Pool

/-! ## Steps of the abstract allocator -/

/-- Take `b` off its free list. -/
@[simps] def erase (g : Pool) (b : Nat) : Pool :=
  { g with
    free := fun i => (g.free i).erase b
    closed := fun i => g.closed i || decide ((g.free i).getLast? = some b) }

/-- Put `b` at the front of the free list of its size class. -/
@[simps] def put (g : Pool) (b size : Nat) : Pool :=
  { g with
    free := fun i => if i = freeIndex size then b :: g.free i else g.free i
    closed := fun i => g.closed i || (decide (i = freeIndex size) && (g.free i).isEmpty) }

/-- The block at `a` gets a new header. -/
@[simps] def setHdr (g : Pool) (a : Nat) (h : Hdr) : Pool :=
  { g with hdr := fun x => if x = a then some h else g.hdr x }

/-- The word at `c` is written with an unknown value. -/
@[simps] def spoil (g : Pool) (c : Nat) : Pool :=
  { g with
    known := fun x => if x = c then none else g.known x
    touched := c :: g.touched }

/-- The word at `c` is written with the value `w`. -/
@[simps] def note (g : Pool) (c w : Nat) : Pool :=
  { g with
    known := fun x => if x = c then some w else g.known x
    touched := c :: g.touched }

/-- The free block at `p` swallows the blocks of `drop`. -/
@[simps] def fuse (g : Pool) (p size : Nat) (drop : List Nat) : Pool :=
  { g with hdr := fun x => if x = p then some ⟨size, false, true⟩
                           else if x ∈ drop then none else g.hdr x }

/-- The block at `a` becomes allocated; nothing is known of its words any more. -/
@[simps] def allot (g : Pool) (a : Nat) (h : Hdr) : Pool :=
  { g with
    hdr := fun x => if x = a then some h else g.hdr x
    known := fun x => if a + 16 ≤ x ∧ x ≤ a + h.size then none else g.known x }

/-- The free block at `a` is cut after `m` bytes. The rest is a free block; the
first part has no header yet. -/
@[simps] def carve (g : Pool) (a m size : Nat) : Pool :=
  { g with
    hdr := fun x => if x = a + m then some ⟨size - m, false, true⟩
                    else if x = a then none else g.hdr x
    known := fun x => if a < x ∧ x < a + m + 32 then none else g.known x }

@[simps] def setQuick (g : Pool) (i : Nat) (l : List Nat) : Pool :=
  { g with quick := fun j => if j = i then l else g.quick j }

@[simps] def setGlobalEnd (g : Pool) (b : Nat) : Pool := { g with globalEnd := b }

@[simps] def setErrno (g : Pool) (n : Nat) : Pool := { g with errno := n }

@[simps] def setBusy (g : Pool) (i : Option Nat) : Pool := { g with busy := i }

/-- The block at `b` becomes a free block of the given size that has swallowed
the blocks of `drop`, with header, footer and a place in its list. -/
def makeFree (g : Pool) (b size : Nat) (drop : List Nat) : Pool :=
  (((g.fuse b size drop).spoil b).note (b + size) (Hdr.mk size false true).word).put b size

/-! ## Searches -/

/-- Sizes of the blocks. -/
def sizes (g : Pool) : Nat → Option Nat := fun a => (g.hdr a).map Hdr.size

def sizeOf (g : Pool) (a : Nat) : Nat := (g.sizes a).getD 0

theorem sizes_some {g : Pool} {a k : Nat} :
    g.sizes a = some k ↔ ∃ h, g.hdr a = some h ∧ h.size = k :=
  Option.map_eq_some_iff

theorem sizes_of_hdr {g : Pool} {a : Nat} {h : Hdr} (ha : g.hdr a = some h) :
    g.sizes a = some h.size := sizes_some.mpr ⟨h, ha, rfl⟩

theorem sizeOf_of_hdr {g : Pool} {a : Nat} {h : Hdr} (ha : g.hdr a = some h) :
    g.sizeOf a = h.size := by
  rw [sizeOf, sizes_of_hdr ha, Option.getD_some]

/-- Coalescing of the free block `m`, which is in no list, with a free block
before it and a free block after it. -/
def coalesce (g : Pool) (m : Nat) (past next : Option Nat) : Pool :=
  match past, next with
  | none, none => g.put m (g.sizeOf m)
  | some p, none => ((g.erase m).erase p).makeFree p (g.sizeOf m + g.sizeOf p) [m]
  | none, some n => ((g.erase m).erase n).makeFree m (g.sizeOf m + g.sizeOf n) [n]
  | some p, some n =>
      (((g.erase m).erase p).erase n).makeFree p (g.sizeOf m + g.sizeOf p + g.sizeOf n) [m, n]

/-- The free block that starts where the block at `m` ends. -/
def freeAfter (g : Pool) (m : Nat) : Option Nat :=
  match g.hdr (m + g.sizeOf m) with
  | some h => if h.alloc then none else some (m + g.sizeOf m)
  | none => none

theorem freeAfter_some {g : Pool} {m n : Nat} (h : g.freeAfter m = some n) :
    n = m + g.sizeOf m ∧ ∃ k, g.hdr n = some k ∧ k.alloc = false := by
  unfold freeAfter at h
  split at h
  · rename_i k hk
    split at h
    · cases h
    · cases h
      exact ⟨rfl, k, hk, by simpa using ‹¬ k.alloc = true›⟩
  · cases h

/-- The quick list that serves a block size. -/
def quickHit (g : Pool) (blockSize : Nat) : Option Nat :=
  (List.range 10).find? fun i => !(g.quick i).isEmpty && decide (blockSize = 32 + 16 * i)

/-- The first block of the free lists, in order, that is large enough. -/
def fit (g : Pool) (blockSize : Nat) : Option Nat :=
  (List.range 10).findSome? fun i => (g.free i).find? fun a => decide (blockSize ≤ g.sizeOf a)

/-! ## What holds inside a call -/

/-- Blocks are aligned, inside the heap and apart; lists hold blocks of the
right kind and size; known words belong to free blocks, behind their links. -/
structure Shape (e : Env) (g : Pool) : Prop where
  limit : g.memEnd ≤ e.heapLimit
  pages : e.sf_mem_start + PAGE_SZ ≤ g.memEnd
  end_aligned : g.memEnd % 16 = 0
  inside : ∀ {a h}, g.hdr a = some h → e.sf_mem_start ≤ a ∧ a % 16 = 0 ∧ 32 ≤ h.size ∧
    h.size % 16 = 0 ∧ a + h.size + 16 ≤ g.memEnd
  apart : ∀ {a b h k}, g.hdr a = some h → g.hdr b = some k → a < b → a + h.size ≤ b
  free_mem : ∀ {i a}, i < 10 → a ∈ g.free i →
    ∃ h, g.hdr a = some h ∧ h.alloc = false ∧ freeIndex h.size = i
  free_nodup : ∀ i < 10, (g.free i).Nodup
  quick_mem : ∀ {i a}, i < 10 → a ∈ g.quick i →
    ∃ h, g.hdr a = some h ∧ h.alloc = true ∧ h.size = 32 + 16 * i
  quick_nodup : ∀ i < 10, (g.quick i).Nodup
  known_mem : ∀ {c w}, g.known c = some w →
    ∃ a h, g.hdr a = some h ∧ h.alloc = false ∧ a + 32 ≤ c ∧ c ≤ a + h.size

theorem freeIndex_lt (n : Nat) : freeIndex n < 10 := by
  unfold freeIndex
  repeat' refine iteInduction (motive := fun i => i < 10) (fun _ => by decide) fun _ => ?_
  decide

namespace Shape

variable {e : Env} {g : Pool} (S : Shape e g) {a b : Nat} {h k : Hdr}

include S

theorem cases_apart (ha : g.hdr a = some h) (hb : g.hdr b = some k) :
    a = b ∨ a + h.size ≤ b ∨ b + k.size ≤ a := by
  rcases Nat.lt_trichotomy a b with hl | hl | hl
  · exact .inr (.inl (S.apart ha hb hl))
  · exact .inl hl
  · exact .inr (.inr (S.apart hb ha hl))

theorem head_apart (ha : g.hdr a = some h) {i : Nat} (hi : i < 10) :
    e.head i + 32 ≤ a ∨ a + h.size + 16 ≤ e.head i := by
  have h1 := S.inside ha
  have h2 := S.limit
  rcases e.heads_apart with h3 | h3
  · exact .inl (by unfold Env.head; omega)
  · exact .inr (by unfold Env.head; omega)

theorem lt_two_pow (ha : g.hdr a = some h) : a + h.size + 16 < 2 ^ 64 := by
  have h1 := S.inside ha
  have h2 := S.limit
  have h3 := e.limit_lt
  omega

/-- The size class of a list member tells the list. -/
theorem free_unique {i j : Nat} (hi : i < 10) (hj : j < 10) (h1 : a ∈ g.free i)
    (h2 : a ∈ g.free j) : i = j := by
  obtain ⟨h, hh, _, rfl⟩ := S.free_mem hi h1
  obtain ⟨k, hk, _, rfl⟩ := S.free_mem hj h2
  rw [hh] at hk
  cases hk
  rfl

theorem spoil (c : Nat) : (g.spoil c).Shape e :=
  { S with
    known_mem := by
      intro x w hx
      simp only [spoil_known] at hx
      split at hx
      · cases hx
      · exact S.known_mem hx }

theorem note {c w : Nat}
    (hc : ∃ a h, g.hdr a = some h ∧ h.alloc = false ∧ a + 32 ≤ c ∧ c ≤ a + h.size) :
    (g.note c w).Shape e :=
  { S with
    known_mem := by
      intro x u hx
      simp only [note_known] at hx
      split at hx
      · rename_i he
        rw [he]
        exact hc
      · exact S.known_mem hx }

theorem not_free_of_alloc (ha : g.hdr a = some h) (hal : h.alloc = true) {i : Nat}
    (hi : i < 10) : a ∉ g.free i := by
  intro hm
  obtain ⟨k, hk, hf, _⟩ := S.free_mem hi hm
  rw [ha] at hk
  cases hk
  rw [hal] at hf
  cases hf

/-- No block starts inside another one, so none of the lists has it. -/
theorem interior {x : Nat} (ha : g.hdr a = some h) (h1 : a < x) (h2 : x < a + h.size) :
    g.hdr x = none := by
  cases hx : g.hdr x with
  | none => rfl
  | some k =>
    have h3 := S.apart ha hx h1
    omega

theorem interior_not_free {x : Nat} (ha : g.hdr a = some h) (h1 : a < x) (h2 : x < a + h.size)
    {i : Nat} (hi : i < 10) : x ∉ g.free i := by
  intro hm
  obtain ⟨k, hk, _⟩ := S.free_mem hi hm
  rw [S.interior ha h1 h2] at hk
  cases hk

theorem not_quick_of_free (ha : g.hdr a = some h) (hal : h.alloc = false) {i : Nat}
    (hi : i < 10) : a ∉ g.quick i := by
  intro hm
  obtain ⟨k, hk, hf, _⟩ := S.quick_mem hi hm
  rw [ha] at hk
  cases hk
  rw [hal] at hf
  cases hf

end Shape

/-! ## Blocks of the client -/

/-- The block at `a` is in the hands of the client: allocated and on no quick
list. -/
def Used (g : Pool) (a : Nat) (h : Hdr) : Prop :=
  g.hdr a = some h ∧ h.alloc = true ∧ ∀ i < 10, a ∉ g.quick i

/-- The word `x` belongs to the payload of a block in use. -/
def InPayload (g : Pool) (x : Nat) : Prop :=
  ∃ a h, g.Used a h ∧ nextOf a ≤ x ∧ x ≤ a + h.size

section Payload

variable {e : Env} {g : Pool} {b i x : Nat} {k : Hdr}

theorem not_used_of_free (hal : k.alloc = false) : ¬ g.Used b k := by
  intro hu
  rw [hu.2.1] at hal
  cases hal

theorem not_used_of_quick (hi : i < 10) (hb : b ∈ g.quick i) : ¬ g.Used b k :=
  fun hu => hu.2.2 i hi hb

/-- A payload word is apart from a block that is not in use. -/
theorem InPayload.apart (hx : g.InPayload x) (S : g.Shape e) (hb : g.hdr b = some k)
    (hn : ¬ g.Used b k) : x ≤ b ∨ b + k.size + 16 ≤ x := by
  obtain ⟨a, h, hu, h1, h2⟩ := hx
  unfold nextOf at h1
  rcases S.cases_apart hu.1 hb with rfl | h3 | h3
  · have h4 := hu.1
    rw [hb] at h4
    cases h4
    exact absurd hu hn
  · exact .inl (by omega)
  · exact .inr (by omega)

/-- A header is no payload word, whatever block it is of. -/
theorem InPayload.not_header (hx : g.InPayload x) (S : g.Shape e) {b : Nat} {k : Hdr}
    (hb : g.hdr b = some k) : x ≠ headerOf b := by
  obtain ⟨a, h, hu, h1, h2⟩ := hx
  have h3 := S.cases_apart hu.1 hb
  have h4 := S.inside hb
  unfold nextOf headerOf at *
  omega

theorem InPayload.unknown (hx : g.InPayload x) (S : g.Shape e) : g.known x = none := by
  cases hw : g.known x with
  | none => rfl
  | some w =>
    obtain ⟨b, k, hb, hal, h1, h2⟩ := S.known_mem hw
    have h3 := hx.apart S hb (not_used_of_free hal)
    omega

/-- Neither link of a block that is not in use is a payload word, nor is one of a list head. -/
theorem InPayload.not_link {y : Nat} (hx : g.InPayload x) (S : g.Shape e)
    (hy : (∃ i < 10, y = e.head i) ∨ ∃ k, g.hdr y = some k ∧ ¬ g.Used y k) :
    x ≠ nextOf y ∧ x ≠ prevOf y := by
  rcases hy with ⟨i, hi, rfl⟩ | ⟨k, hk, hn⟩
  · obtain ⟨a, h, hu, h1, h2⟩ := hx
    have h3 := S.head_apart hu.1 hi
    unfold nextOf prevOf at *
    omega
  · have h1 := hx.apart S hk hn
    have h2 := S.inside hk
    unfold nextOf prevOf
    omega

theorem InPayload.not_path {y : Nat} (hx : g.InPayload x) (S : g.Shape e) (hi : i < 10)
    (hy : y ∈ e.head i :: g.free i) : x ≠ nextOf y ∧ x ≠ prevOf y := by
  refine hx.not_link S ?_
  rcases List.mem_cons.mp hy with rfl | hy
  · exact .inl ⟨i, hi, rfl⟩
  · obtain ⟨k, hk, hal, _⟩ := S.free_mem hi hy
    exact .inr ⟨k, hk, not_used_of_free hal⟩

theorem InPayload.not_quick (hx : g.InPayload x) (S : g.Shape e) {i y : Nat} (hi : i < 10)
    (hy : y ∈ g.quick i) : x ≠ nextOf y := by
  obtain ⟨k, hk, _⟩ := S.quick_mem hi hy
  exact (hx.not_link S (.inr ⟨k, hk, not_used_of_quick hi hy⟩)).1

end Payload

/-! ## What holds between calls -/

/-- `globalEnd` is an address a header can be read at. -/
def EndInside (e : Env) (g : Pool) : Prop :=
  e.sf_mem_start ≤ g.globalEnd ∧ g.globalEnd % 16 = 0 ∧ g.globalEnd + 32 ≤ g.memEnd

/-- The blocks tile the heap. The free blocks of `pend` are in no list and may
have free neighbours; every other free block is in its list and has no free
neighbour besides those. Every free block has a footer with its size, except that
a pending block may have lost it to the free block after it. -/
structure Settling (e : Env) (g : Pool) (pend : List Nat) : Prop extends Shape e g where
  tiles : Tiles e.sf_mem_start (g.memEnd - 16) g.sizes
  pending : ∀ a ∈ pend, ∃ h, g.hdr a = some h ∧ h.alloc = false ∧ ∀ i < 10, a ∉ g.free i
  listed : ∀ {a h}, g.hdr a = some h → h.alloc = false → a ∉ pend → a ∈ g.free (freeIndex h.size)
  quick_len : ∀ i < 10, (g.quick i).length ≤ QUICK_LIST_MAX
  coalesced : ∀ {a h k}, g.hdr a = some h → g.hdr (a + h.size) = some k →
    h.alloc = false → k.alloc = false → a ∈ pend ∨ a + h.size ∈ pend
  footed : ∀ {a h}, g.hdr a = some h → h.alloc = false →
    (∃ w, g.known (a + h.size) = some w ∧ unflag w = h.size) ∨
      (a ∈ pend ∧ a + h.size ∉ pend ∧ ∃ k, g.hdr (a + h.size) = some k ∧ k.alloc = false)
  end_inside : EndInside e g

/-- Between calls nothing is pending and no quick list is being flushed. -/
structure Inv (e : Env) (g : Pool) : Prop extends Settling e g [] where
  idle : g.busy = none

end Pool

end StarterProjects.Sfmm
