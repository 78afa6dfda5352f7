import Mathlib.Tactic.IntervalCases
import StarterProjects.Sfmm.Release

/-!
# What can be seen of a heap

Properties of a heap are stated on its memory: `IsBlock` walks the headers from
`sf_mem_start`, and sizes and flags are decoded from the header words. When a
memory represents a pool, what is seen is what the pool has.
-/

namespace StarterProjects.Sfmm

open Lib Lib.Exec

section Observe

variable (e : Env) (s : State)

/-- The header word of a block, decoded. -/
def hdrAt (b : Nat) : Nat := s.mem (headerOf b) ^^^ e.magic

def sizeAt (b : Nat) : Nat := unflag (hdrAt e s b)

def AllocAt (b : Nat) : Prop := hdrAt e s b &&& THIS_BLOCK_ALLOCATED ≠ 0

def PrevAt (b : Nat) : Prop := hdrAt e s b &&& PREV_BLOCK_ALLOCATED ≠ 0

/-- The addresses reached from `sf_mem_start` by block sizes, up to the last 16
bytes of the heap. -/
inductive IsBlock : Nat → Prop
  | first : e.sf_mem_start < s.sf_mem_end → IsBlock e.sf_mem_start
  | next {b : Nat} : IsBlock b → b + sizeAt e s b + 16 < s.sf_mem_end → IsBlock (b + sizeAt e s b)

/-- The block before the end of the heap. -/
def IsLast (b : Nat) : Prop := IsBlock e s b ∧ b + sizeAt e s b + 16 = s.sf_mem_end

/-- `n` nodes along `nxt`. -/
def nodes (nxt : Nat → Nat) : Nat → Nat → List Nat
  | 0, _ => []
  | n + 1, b => b :: nodes nxt n (nxt b)

/-- The blocks of quick list `i`. -/
def quickBlocks (i : Nat) : List Nat :=
  nodes s.nxt (s.sf_quick_lists i).length (s.sf_quick_lists i).first

/-- The nodes along `nxt` from `b` up to `stop`, `n` at most. -/
def nodesTo (nxt : Nat → Nat) (stop : Nat) : Nat → Nat → List Nat
  | 0, _ => []
  | n + 1, b => if b = stop then [] else b :: nodesTo nxt stop n (nxt b)

/-- The blocks of free list `i`, in order. -/
def freeBlocks (i : Nat) : List Nat :=
  nodesTo s.nxt (e.head i) (walkBound e s) (s.nxt (e.head i))

/-- Following `next` from the sentinel of free list `i` visits `l`, and the `prev`
of each of these blocks is the node before it; when `closed` holds, the sentinel
points back to the last one too. -/
def FreeList (closed : Bool) (i : Nat) (l : List Nat) : Prop :=
  Path closed s.nxt s.prv (e.head i) l (e.head i)

instance (b : Nat) : Decidable (AllocAt e s b) := inferInstanceAs (Decidable (_ ≠ _))

instance (b : Nat) : Decidable (PrevAt e s b) := inferInstanceAs (Decidable (_ ≠ _))

end Observe

/-- A heap without pages has no blocks. -/
theorem no_block {e : Env} {s : State} (hs : s.sf_mem_end = e.sf_mem_start) (b : Nat) :
    ¬ IsBlock e s b := by
  intro hb
  induction hb with
  | first hlt => omega
  | next _ _ ih => exact ih

/-- The sizes free list `i` is for. -/
def InClass (i n : Nat) : Prop :=
  if i = 0 then n = 32 else if i = 9 then 8192 < n else 32 * 2 ^ (i - 1) < n ∧ n ≤ 32 * 2 ^ i

theorem inClass_iff {i n : Nat} (hi : i < 10) (hn : 32 ≤ n) : InClass i n ↔ freeIndex n = i := by
  constructor
  · intro h
    unfold freeIndex
    interval_cases i <;> simp [InClass] at h <;> repeat rw [if_neg (by omega)]
    all_goals exact if_pos (by omega)
  · rintro rfl
    unfold freeIndex
    repeat' refine iteInduction (motive := fun k => InClass k n) (fun _ => ?_) fun _ => ?_
    all_goals
      simp [InClass]
      omega

theorem nodes_chain {nxt : Nat → Nat} {stop : Nat} : ∀ {l : List Nat} {a : Nat},
    Chain nxt stop a l → nodes nxt l.length a = l
  | [], _, _ => rfl
  | b :: l, a, h => by
    obtain ⟨rfl, _, h3⟩ := h
    rw [List.length_cons, nodes, nodes_chain h3]

theorem nodesTo_path {c : Bool} {nxt prv : Nat → Nat} {z : Nat} :
    ∀ {l : List Nat} {a n : Nat}, Path c nxt prv a l z → z ∉ l → l.length < n →
      nodesTo nxt z n (nxt a) = l
  | _, _, 0, _, _, hn => absurd hn (Nat.not_lt_zero _)
  | [], a, n + 1, h, _, _ => by rw [nodesTo, if_pos h.1]
  | b :: l, a, n + 1, h, hz, hn => by
    obtain ⟨h1, _, h3⟩ := h
    rw [List.mem_cons, not_or] at hz
    rw [nodesTo, h1, if_neg (Ne.symm hz.1),
      nodesTo_path h3 hz.2 (by rw [List.length_cons] at hn; omega)]

/-- The walk over the headers visits the blocks that tile the heap. -/
theorem isBlock_of_tiles {e : Env} {s : State} {g : Pool} {b : Nat} {h : Hdr}
    (tiles : Tiles e.sf_mem_start (g.memEnd - 16) g.sizes) (hend : s.sf_mem_end = g.memEnd)
    (hpages : e.sf_mem_start < g.memEnd)
    (hsize : ∀ a k, g.hdr a = some k → sizeAt e s a = k.size) (hb : g.hdr b = some h) :
    IsBlock e s b := by
  refine tiles.walk (P := IsBlock e s) (.first (by omega)) ?_ (Pool.sizes_of_hdr hb)
  intro a k ha hblock hlt
  obtain ⟨k', hk', rfl⟩ := Pool.sizes_some.mp ha
  have h2 := IsBlock.next hblock (by rw [hsize a k' hk']; omega)
  rwa [hsize a k' hk'] at h2

namespace Represents

variable {e : Env} {W : Nat → Prop} {m₀ : Nat → Nat} {s : State} {g : Pool}
  (R : Represents e W m₀ s g) {b : Nat} {h : Hdr}

include R

theorem hdrAt_eq (hb : g.hdr b = some h) : hdrAt e s b = h.word := by
  rw [hdrAt, R.header hb, xor_magic]

theorem sizeAt_eq (hb : g.hdr b = some h) : sizeAt e s b = h.size := by
  have h1 := R.shape.inside hb
  rw [sizeAt, R.hdrAt_eq hb, Hdr.unflag_word (by omega)]

theorem allocAt_iff (hb : g.hdr b = some h) : AllocAt e s b ↔ h.alloc = true := by
  have h1 := R.shape.inside hb
  rw [AllocAt, R.hdrAt_eq hb, Hdr.word_alloc (by omega)]
  cases h.alloc <;> simp

theorem prevAt_iff (hb : g.hdr b = some h) : PrevAt e s b ↔ h.prev = true := by
  have h1 := R.shape.inside hb
  rw [PrevAt, R.hdrAt_eq hb, Hdr.word_prev (by omega)]
  cases h.prev <;> simp

theorem not_allocAt (hb : g.hdr b = some h) : ¬ AllocAt e s b ↔ h.alloc = false := by
  rw [R.allocAt_iff hb, Bool.not_eq_true]

/-- The walk over the headers visits exactly the blocks. -/
theorem isBlock_iff {pend : List Nat} (I : g.Settling e pend) :
    IsBlock e s b ↔ ∃ h, g.hdr b = some h := by
  constructor
  · intro hb
    induction hb with
    | first _ =>
      obtain ⟨k, hk⟩ := I.tiles.first
      exact (Pool.sizes_some.mp hk).imp fun _ h => h.1
    | @next b _ hlt ih =>
      obtain ⟨h, hh⟩ := ih
      rw [R.sizeAt_eq hh] at hlt ⊢
      rw [R.memEnd] at hlt
      rcases I.tiles.next (Pool.sizes_of_hdr hh) with hend | ⟨k, hk⟩
      · omega
      · exact (Pool.sizes_some.mp hk).imp fun _ h => h.1
  · rintro ⟨h, hh⟩
    have h1 := R.shape.pages
    unfold PAGE_SZ at h1
    exact isBlock_of_tiles I.tiles R.memEnd (by omega) (fun _ _ hk => R.sizeAt_eq hk) hh

theorem isLast_iff {pend : List Nat} (I : g.Settling e pend) :
    IsLast e s b ↔ ∃ h, g.Last b h := by
  unfold IsLast
  rw [R.isBlock_iff I, R.memEnd]
  constructor
  · rintro ⟨⟨h, hb⟩, hend⟩
    rw [R.sizeAt_eq hb] at hend
    exact ⟨h, hb, by omega⟩
  · rintro ⟨h, L⟩
    have h1 := L.ends
    have h2 := R.shape.inside L.hdr
    rw [R.sizeAt_eq L.hdr]
    exact ⟨⟨h, L.hdr⟩, by omega⟩

theorem quickBlocks_eq {i : Nat} (hbusy : g.busy = none) (hi : i < 10) :
    quickBlocks s i = g.quick i := by
  obtain ⟨hc, hl⟩ := R.chain i hi (by rw [hbusy]; exact nofun)
  rw [quickBlocks, hl, nodes_chain hc]

theorem quick_length {i : Nat} (hbusy : g.busy = none) (hi : i < 10) :
    (s.sf_quick_lists i).length = (g.quick i).length :=
  (R.chain i hi (by rw [hbusy]; exact nofun)).2

theorem freeBlocks_eq {i : Nat} (hi : i < 10) : freeBlocks e s i = g.free i :=
  nodesTo_path (R.ring i hi) (head_not_mem R.shape hi hi) (R.free_length_lt hi)

/-- From now on other words may be watched, with the values they have now. -/
theorem rewatch {W' : Nat → Prop} (hW : ∀ x, W' x → Still e g x) : Represents e W' s.mem s g :=
  { R with
    watch := fun hx => hW _ hx
    kept := fun _ _ => rfl }

/-- From now on no word has been written. -/
theorem restart : Represents e (fun _ => False) s.mem s { g with touched := [] } :=
  { R with
    shape := { R.shape with }
    watch := nofun
    kept := nofun }

end Represents

theorem Pool.Inv.restart {e : Env} {g : Pool} (I : g.Inv e) : { g with touched := [] }.Inv e :=
  { I with }

end StarterProjects.Sfmm
