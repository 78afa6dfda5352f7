import StarterProjects.Sfmm.Accounts

/-!
# The block that serves a request

A request is served by the head of the quick list for its block size, or else by the first block
of the free lists, in their order, that is large enough; no page is asked for.
-/

namespace StarterProjects.Sfmm

open Lib Lib.Exec

section Choice

variable (e : Env) (s : State)

/-- The quick list for the block size `m`, unless it is empty. -/
def quickChoice (m : Nat) : Option Nat :=
  (List.range 10).find? fun i => !(quickBlocks s i).isEmpty && decide (m = 32 + 16 * i)

/-- The block that serves a request: the head of a quick list, or the first one of the free
lists that is large enough. -/
def choice (m : Nat) : Option Nat :=
  match quickChoice s m with
  | some i => (quickBlocks s i).head?
  | none => ((List.range 10).flatMap (freeBlocks e s)).find? fun b => decide (m ≤ sizeAt e s b)

end Choice

theorem find?_congr_mem {α : Type} {p q : α → Bool} : ∀ {l : List α}, (∀ x ∈ l, p x = q x) →
    l.find? p = l.find? q
  | [], _ => rfl
  | x :: l, h => by
    rw [List.find?_cons, List.find?_cons, h x List.mem_cons_self,
      find?_congr_mem fun y hy => h y (List.mem_cons_of_mem _ hy)]

namespace Tracks

variable {e : Env} {live : List Allocation} {s s' : State} {g : Pool} (T : Tracks e live s g)

include T

theorem quickChoice_eq (m : Nat) : quickChoice s m = g.quickHit m :=
  find?_congr_mem fun i hi => by
    rw [T.rep.quickBlocks_eq T.inv.idle (List.mem_range.mp hi)]

theorem freeChoice_eq (m : Nat) :
    ((List.range 10).flatMap (freeBlocks e s)).find? (fun b => decide (m ≤ sizeAt e s b)) =
      g.fit m := by
  rw [List.flatMap_congr fun i hi => T.rep.freeBlocks_eq (List.mem_range.mp hi)]
  have hsizes : ∀ b ∈ (List.range 10).flatMap g.free,
      decide (m ≤ sizeAt e s b) = decide (m ≤ g.sizeOf b) := fun b hb => by
    obtain ⟨i, hi, hb⟩ := Pool.mem_lists.mp hb
    obtain ⟨k, hk, _⟩ := T.inv.free_mem hi hb
    rw [T.rep.sizeAt_eq hk, Pool.sizeOf_of_hdr hk]
  rw [find?_congr_mem hsizes, List.find?_flatMap]
  rfl

/-- The block that is chosen is served, without growth. -/
theorem choice_serve {m b : Nat} (hchoice : choice e s m = some b) (stale : Bool) :
    ∃ g', g.serve m stale = some (nextOf b, g') ∧ g'.growCalls = g.growCalls ∧
      g'.memEnd = g.memEnd := by
  unfold choice at hchoice
  rw [T.quickChoice_eq, T.freeChoice_eq] at hchoice
  unfold Pool.serve
  cases hq : g.quickHit m with
  | some i =>
    rw [hq] at hchoice
    obtain ⟨hi, ⟨a, l, hl⟩, _⟩ := Pool.quickHit_some hq
    dsimp only at hchoice
    rw [T.rep.quickBlocks_eq T.inv.idle hi, hl] at hchoice
    cases hchoice
    refine ⟨g.setQuick i l, ?_, rfl, rfl⟩
    dsimp only
    rw [hl]
    rfl
  | none =>
    rw [hq] at hchoice
    dsimp only at hchoice ⊢
    rw [hchoice]
    refine ⟨_, rfl, ?_⟩
    unfold Pool.place
    split
    · exact ⟨rfl, rfl⟩
    · unfold Pool.exact
      split <;> exact ⟨rfl, rfl⟩

/-- A request that a list serves gets that block. -/
theorem malloc_served {n p r : Nat} (hn : n < 2 ^ 64) (h0 : n ≠ 0) (hneg : intNeg n = false)
    (hserve : ∀ stale, ∃ g', g.serve (blockSize n) stale = some (p, g'))
    (hret : Returns e s (.malloc n) r s') :
    r = p ∧ ∃ stale g', g.serve (blockSize n) stale = some (p, g') ∧
      Tracks e (Op.after live r (.malloc n)) s' { g' with touched := [] } := by
  have hok : MallocOk e s n := by
    intro _ _
    rw [if_neg T.initialised, T.served_iff, not_not]
    intro hU
    obtain ⟨_, hs⟩ := hserve true
    rw [(Pool.serve_none true).mpr hU] at hs
    cases hs
  obtain ⟨stale, g', hm, T'⟩ := T.malloc_to hn hok hret
  obtain ⟨g'', hs⟩ := hserve stale
  have hm' : g.malloc e n stale = some (p, g'') := by
    unfold Pool.malloc
    rw [if_neg h0, hneg, hs]
    rfl
  rw [hm'] at hm
  cases hm
  exact ⟨rfl, stale, _, hs, T'⟩

end Tracks

/-- In a sound run a request is served by the first block that fits, quick lists first, and the
heap does not grow when there is one. -/
theorem choice_of_sound {e : Env} {s : Sys} (h : Reached e (Sound e) s)
    (hpages : s.heap.sf_mem_end ≠ e.sf_mem_start) {n b r : Nat} {s' : State} (hn : n < 2 ^ 64)
    (h0 : n ≠ 0) (hneg : intNeg n = false) (hchoice : choice e s.heap (blockSize n) = some b)
    (hret : Returns e s.heap (.malloc n) r s') :
    r = nextOf b ∧ s'.growCalls = s.heap.growCalls ∧ s'.sf_mem_end = s.heap.sf_mem_end := by
  obtain ⟨g, T⟩ := h.sane.resolve_left fun hS => hpages hS.empty
  have hserve := T.choice_serve hchoice
  obtain ⟨hr, stale, g', hs, T'⟩ := T.malloc_served hn h0 hneg
    (fun stale => (hserve stale).imp fun _ h => h.1) hret
  obtain ⟨g'', hs', hgrow, hend⟩ := hserve stale
  cases hs.symm.trans hs'
  exact ⟨hr, (T'.rep.growCalls.trans hgrow).trans T.rep.growCalls.symm,
    (T'.rep.memEnd.trans hend).trans T.rep.memEnd.symm⟩

/-- After `malloc(24)` the rest of the page serves `malloc(100)`. -/
theorem choice_of_sound_sample : ∃ s t : State, ∃ r, Returns sampleEnv s (.malloc 100) r t ∧
    r = 0x100030 ∧ t.growCalls = s.growCalls ∧ t.sf_mem_end = s.sf_mem_end := by
  have hrun : Ends (sf_malloc sampleEnv 1 24) sample.heap fun p t =>
      p = 0x100010 ∧ t.sf_mem_end ≠ sampleEnv.sf_mem_start ∧
        choice sampleEnv t (blockSize 100) = some 0x100020 ∧
          Ends (sf_malloc sampleEnv 1 100) t fun _ _ => True := by
    decide +kernel
  obtain ⟨_, t, ht, rfl, hpages, hchoice, r, u, hu, _⟩ := hrun
  exact ⟨t, u, r, ⟨1, hu⟩, choice_of_sound (s := ⟨t, [⟨0x100010, 24⟩]⟩)
    (.step (i := .malloc 24) (sample_reached _) ⟨by decide, sample_mallocOk 24, _, ⟨1, ht⟩, rfl⟩)
    hpages (by decide) (by decide) (by decide) hchoice ⟨1, hu⟩⟩

end StarterProjects.Sfmm
