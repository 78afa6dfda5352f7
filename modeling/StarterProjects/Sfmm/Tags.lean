import Mathlib.Data.List.Find
import StarterProjects.Sfmm.Flags

/-!
# Boundary tags

PREV flags and footers as they are seen in memory. `KeepsTags` says of a call that
meets `Sound` that it does not forget a flag; in a run of such calls all boundary tags
are right between calls.
-/

namespace StarterProjects.Sfmm

open Lib Lib.Exec

section Conditions

variable (e : Env) (s : State)

/-- The PREV flag of a block is set exactly when the block before it is allocated or on
a quick list, and the footer of a block on a free list repeats its header. -/
structure TagsRight : Prop where
  flags : ∀ b, IsBlock e s b → IsBlock e s (b + sizeAt e s b) →
    (PrevAt e s (b + sizeAt e s b) ↔ AllocAt e s b ∨ ∃ i < 10, b ∈ quickBlocks s i)
  footers : ∀ b, IsBlock e s b → ∀ i < 10, b ∈ freeBlocks e s i →
    s.mem (b + sizeAt e s b) = s.mem (headerOf b)

/-- The first block of the free lists that is large enough. -/
def firstFit (m : Nat) : Option Nat :=
  (List.range 10).findSome? fun i => (freeBlocks e s i).find? fun b => decide (m ≤ sizeAt e s b)

/-- A quick list holds a block for the block size `m`. -/
def QuickServed (m : Nat) : Prop := ∃ i < 10, m = 32 + 16 * i ∧ (s.sf_quick_lists i).length ≠ 0

/-- The first fit is cut, or it is the last block. When nothing fits, the heap grows:
behind an allocated block by one page that is enough, or by none; behind a free block
by one page at least, unless that block is the first one or its flag is clear. -/
structure MallocKeeps (n : Nat) : Prop where
  fit : ¬ QuickServed s (blockSize n) → ∀ b, firstFit e s (blockSize n) = some b →
    blockSize n + 32 ≤ sizeAt e s b ∨ IsLast e s b
  behind : ¬ Served e s (blockSize n) → AllocAt e s s.globalEnd → n ≤ 4088 ∨ ¬ CanGrow e s 0
  tail : ¬ Served e s (blockSize n) → ¬ AllocAt e s s.globalEnd →
    CanGrow e s 0 ∨ ¬ PrevAt e s s.globalEnd

/-- When a full quick list is flushed, right behind each of its blocks is a free block
or another one of them. -/
def FreeKeeps (b : Nat) : Prop :=
  ∀ i, quickIndex (sizeAt e s b) = some i → (s.sf_quick_lists i).length = QUICK_LIST_MAX →
    ∀ c ∈ quickBlocks s i, IsBlock e s (c + (32 + 16 * i)) ∧
      (¬ AllocAt e s (c + (32 + 16 * i)) ∨ c + (32 + 16 * i) ∈ quickBlocks s i)

end Conditions

/-- The calls of a sound run that keep the boundary tags right. -/
def KeepsTags (e : Env) (s : Sys) (op : Op) : Prop :=
  Sound e s op ∧ match op with
    | .malloc n => n ≠ 0 → intNeg n = false → s.heap.sf_mem_end ≠ e.sf_mem_start →
        MallocKeeps e s.heap n
    | .free p => FreeKeeps e s.heap (p - 16)
    | .realloc _ _ | .write _ _ => True

/-! ## What is seen of a pool -/

namespace Represents

variable {e : Env} {W : Nat → Prop} {m₀ : Nat → Nat} {s : State} {g : Pool}
  (R : Represents e W m₀ s g)

include R

theorem tagsRight (I : g.Inv e) (F : g.Flags []) : TagsRight e s where
  flags := by
    intro b hb hnext
    obtain ⟨h, hh⟩ := (R.isBlock_iff I.toSettling).mp hb
    obtain ⟨k, hk⟩ := (R.isBlock_iff I.toSettling).mp hnext
    rw [R.prevAt_iff hk, R.allocAt_iff hh]
    rw [R.sizeAt_eq hh] at hk
    rw [F.prevs hh hk List.not_mem_nil List.not_mem_nil, iff_self_or]
    rintro ⟨i, hi, hq⟩
    rw [R.quickBlocks_eq I.idle hi] at hq
    obtain ⟨l, hl, hal, _⟩ := I.quick_mem hi hq
    rw [hh] at hl
    cases hl
    exact hal
  footers := by
    intro b _ i hi hb
    rw [R.freeBlocks_eq hi] at hb
    obtain ⟨h, hh, hal, _⟩ := I.free_mem hi hb
    rw [R.sizeAt_eq hh, R.known (F.feet hh hal List.not_mem_nil), R.header hh]

theorem firstFit_eq (m : Nat) : firstFit e s m = g.fit m := by
  have hlist : ∀ i < 10, (freeBlocks e s i).find? (fun b => decide (m ≤ sizeAt e s b)) =
      (g.free i).find? fun b => decide (m ≤ g.sizeOf b) := by
    intro i hi
    rw [R.freeBlocks_eq hi]
    refine List.find?_congr fun b hb => ?_
    obtain ⟨h, hh, _⟩ := R.shape.free_mem hi hb
    rw [R.sizeAt_eq hh, Pool.sizeOf_of_hdr hh]
  have hall : ∀ l : List Nat, (∀ i ∈ l, i < 10) →
      (l.findSome? fun i => (freeBlocks e s i).find? fun b => decide (m ≤ sizeAt e s b)) =
        l.findSome? fun i => (g.free i).find? fun b => decide (m ≤ g.sizeOf b) := by
    intro l hl
    induction l with
    | nil => rfl
    | cons i l ih =>
      rw [List.findSome?_cons, List.findSome?_cons, hlist i (hl i List.mem_cons_self),
        ih fun j hj => hl j (List.mem_cons_of_mem _ hj)]
  exact hall _ fun i hi => List.mem_range.mp hi

theorem quickServed_iff (hbusy : g.busy = none) {m : Nat} :
    QuickServed s m ↔ g.quickHit m ≠ none := by
  constructor
  · rintro ⟨i, hi, hm, hlen⟩ hq
    rw [R.quick_length hbusy hi] at hlen
    exact Pool.quickHit_none hq hi ⟨fun he => hlen (by rw [he]; rfl), hm⟩
  · intro hq
    obtain ⟨i, hi⟩ := Option.ne_none_iff_exists'.mp hq
    obtain ⟨h1, ⟨a, l, hl⟩, h2⟩ := Pool.quickHit_some hi
    exact ⟨i, h1, h2, by rw [R.quick_length hbusy h1, hl]; exact Nat.succ_ne_zero _⟩

end Represents

namespace Tracks

variable {e : Env} {live : List Allocation} {s s' : State} {g : Pool}
  (T : Tracks e live s g)

include T

theorem keeps {n : Nat} (hK : MallocKeeps e s n) : g.Keeps e n := by
  have R := T.rep
  constructor
  · intro hq a hf
    have h1 := hK.fit (by rw [R.quickServed_iff T.inv.idle, hq]; simp) a
      (by rw [R.firstFit_eq]; exact hf)
    obtain ⟨⟨i, hi, ha⟩, _⟩ := Pool.fit_some hf
    obtain ⟨h, hh, _⟩ := R.shape.free_mem hi ha
    rw [R.sizeAt_eq hh, R.isLast_iff T.inv.toSettling] at h1
    rwa [Pool.sizeOf_of_hdr hh]
  · intro hU h L
    have hns : ¬ Served e s (blockSize n) := by
      rw [T.served_iff, not_not]
      exact hU
    have h1 := hK.behind hns
    have h2 := hK.tail hns
    rw [R.globalEnd, R.allocAt_iff L.hdr, T.canGrow_iff, Bool.not_eq_true] at h1 h2
    rw [R.prevAt_iff L.hdr, Bool.not_eq_true] at h2
    split
    · exact h1 ‹_›
    · exact h2 (by rwa [Bool.not_eq_true] at *)

theorem flush_followed {b : Nat} {h : Hdr} (hu : g.Used b h) (hok : FreeOk e s b)
    (hK : FreeKeeps e s b) (i : Nat) (hq : quickIndex h.size = some i)
    (hlen : (g.quick i).length = QUICK_LIST_MAX) :
    g.Flushable i ∧ ∀ c ∈ g.quick i, ∃ k, g.hdr (c + (32 + 16 * i)) = some k ∧
      (k.alloc = false ∨ c + (32 + 16 * i) ∈ g.quick i) := by
  have R := T.rep
  refine ⟨((T.freeable hu hok).flush i hq hlen).1, fun c hc => ?_⟩
  obtain ⟨hi, _⟩ := quickIndex_some.mp hq
  have hquick := R.quickBlocks_eq T.inv.idle hi
  obtain ⟨hb, hcase⟩ := hK i (by rw [R.sizeAt_eq hu.1]; exact hq)
    (by rw [R.quick_length T.inv.idle hi]; exact hlen) c (by rw [hquick]; exact hc)
  obtain ⟨k, hk⟩ := (R.isBlock_iff T.inv.toSettling).mp hb
  rw [R.not_allocAt hk, hquick] at hcase
  exact ⟨k, hk, hcase⟩

end Tracks

/-! ## Runs -/

/-- What is known of every state of a run that keeps the tags. -/
def Tagged (e : Env) (s : Sys) : Prop :=
  Start e s ∨ ∃ g, Tracks e s.live s.heap g ∧ g.Flags []

theorem initial_keeps {e : Env} {errno growCalls : Nat} (n : Nat) :
    (Pool.initial e errno growCalls).Keeps e n := by
  have hend : (Pool.initial e errno growCalls).hdr e.sf_mem_start = some ⟨4080, false, false⟩ :=
    if_pos rfl
  constructor
  · intro _ a hf
    obtain ⟨⟨i, _, ha⟩, _⟩ := Pool.fit_some hf
    simp only [Pool.initial] at ha
    split at ha
    · rw [List.mem_singleton.mp ha]
      exact .inr ⟨_, hend, rfl⟩
    · cases ha
  · intro _ h L
    have h1 := L.hdr
    rw [show (Pool.initial e errno growCalls).globalEnd = e.sf_mem_start from rfl, hend] at h1
    cases h1
    exact .inr rfl

theorem Tagged.malloc {e : Env} {s s' : Sys} {n r : Nat} (h : Tagged e s)
    (hvalid : n < 2 ^ 64) (hK : KeepsTags e s (.malloc n))
    (hret : Returns e s.heap (.malloc n) r s'.heap)
    (hlive : s'.live = Op.after s.live r (.malloc n)) : Tagged e s' := by
  obtain ⟨hok, hkeep⟩ := hK
  refine (malloc_pool (Q := fun g' => g'.Flags []) h hvalid hok hret hlive
    (fun T F hm => ?_) fun T hm => ?_).imp_right fun ⟨g', T', F'⟩ => ⟨_, T', F'.prevs, F'.feet⟩
  · exact F.malloc T.inv (T.growable_of_ok hok)
      (fun h0 hneg => T.keeps (hkeep h0 hneg T.initialised)) hm
  · exact (Pool.initial_flags _ _).malloc T.inv (T.growable_of_ok (initial_mallocOk T n))
      (fun _ _ => initial_keeps n) hm

theorem Tagged.step {e : Env} {s s' : Sys} {op : Op} (h : Tagged e s)
    (hstep : Step e (KeepsTags e) s op s') : Tagged e s' := by
  obtain ⟨hvalid, hcond, r, hret, hlive⟩ := hstep
  cases op with
  | malloc n => exact h.malloc hvalid hcond hret hlive
  | realloc p n => exact hcond.1.elim
  | free p =>
    obtain ⟨hok, hkeep⟩ := hcond
    rcases h with hS | ⟨g, T, F⟩
    · obtain ⟨x, hx, _⟩ := hvalid
      rw [hS.none_live] at hx
      cases hx
    · obtain ⟨b, k, rfl, hu, T'⟩ := T.free_to hvalid hok hret
      have hok' : FreeOk e s.heap (nextOf b - 16) := hok
      have hkeep' : FreeKeeps e s.heap (nextOf b - 16) := hkeep
      rw [show nextOf b - 16 = b from Nat.add_sub_cancel b 16] at hok' hkeep'
      have F' := F.freeBlock T.inv hu (T.flush_followed hu hok' hkeep')
      exact .inr ⟨{ g.freeBlock b with touched := [] }, hlive ▸ T', F'.prevs, F'.feet⟩
  | write addr v =>
    rcases h with hS | ⟨g, T, F⟩
    · obtain ⟨_, x, hx, _⟩ := hvalid
      rw [hS.none_live] at hx
      cases hx
    · exact .inr ⟨g, by rw [hlive]; exact T.write hvalid.2 hret, F⟩

theorem Reached.tagged {e : Env} {s : Sys} (h : Reached e (KeepsTags e) s) : Tagged e s :=
  h.invariant (fun _ hS => .inl hS) fun _ _ _ hs hstep => hs.step hstep

/-- In a run that keeps the tags every PREV flag and every footer is right. -/
theorem tags_of_sound {e : Env} {s : Sys} (h : Reached e (KeepsTags e) s) :
    TagsRight e s.heap := by
  rcases h.tagged with hS | ⟨g, T, F⟩
  · exact ⟨fun b hb => absurd hb (no_block hS.empty b),
      fun b hb => absurd hb (no_block hS.empty b)⟩
  · exact T.rep.tagsRight T.inv F

/-- After `malloc(24)` the tags are right. -/
theorem tags_of_sound_sample : ∃ s : Sys, s.live = [⟨0x100010, 24⟩] ∧
    TagsRight sampleEnv s.heap := by
  have hrun : Ends (sf_malloc sampleEnv 1 24) sample.heap fun p _ => p = 0x100010 := by
    decide +kernel
  obtain ⟨_, t, ht, rfl⟩ := hrun
  refine ⟨⟨t, [⟨0x100010, 24⟩]⟩, rfl, tags_of_sound (.step (i := .malloc 24) (sample_reached _) ?_)⟩
  exact ⟨by decide, ⟨sample_mallocOk 24, fun _ _ h => absurd rfl h⟩, _, ⟨1, ht⟩, rfl⟩

/-- Two blocks of 208 bytes; the first is freed and allocated again by an exact fit,
and the second still says that the block before it is free. -/
theorem exact_fit_forgets : ¬ ∀ (e : Env) (s : Sys),
    Reached e (fun _ op => op.MallocFree) s → TagsRight e s.heap := by
  intro hall
  have hrun : ∃ s ∈ sample.exec sampleEnv 1 [.malloc 200, .malloc 200, .free 0x100010, .malloc 200],
      (s.heap.sf_mem_end = 0x101000 ∧ sizeAt sampleEnv s.heap 0x100000 = 208) ∧
        AllocAt sampleEnv s.heap 0x100000 ∧ ¬ PrevAt sampleEnv s.heap 0x1000d0 := by
    decide +kernel
  obtain ⟨s, hs, ⟨hend, hsize⟩, h1, h2⟩ := hrun
  have hfirst : IsBlock sampleEnv s.heap 0x100000 := .first (by rw [hend]; decide)
  have hnext := hfirst.next (by rw [hsize, hend]; decide)
  have h3 := ((hall sampleEnv s ((sample_reached _).exec (by simp [Op.MallocFree]) hs)).flags
    _ hfirst hnext).mpr (.inl h1)
  rw [hsize] at h3
  exact h2 h3

end StarterProjects.Sfmm
