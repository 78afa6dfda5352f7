import StarterProjects.Sfmm.Tail

/-!
# When `sf_malloc` comes back

In a sound run a call of `sf_malloc` returns exactly when the lists serve it, the
growth loop is refused a page, or what the loop adds to a free last block is large
enough. The loop counts down `(int)(size - T)`, without the header and the padding of
the block; when that ends it too early, the self-calls never do.
-/

namespace StarterProjects.Sfmm

open Lib Lib.Exec

/-- The growth loop behind a free last block of `T` bytes is refused a page, or ends
with a block that is large enough; `k` pages are added before it starts. -/
def TailServes (e : Env) (s : State) (n T k : Nat) : Prop :=
  (∃ j < growTurns n T, ¬ CanGrow e s (k + j)) ∨ blockSize n ≤ T + growTurns n T * PAGE_SZ

/-- The request is refused at once, or served, or the growth of the heap leads to
one or the other. -/
def Progress (e : Env) (s : State) (n : Nat) : Prop :=
  n = 0 ∨ intNeg n = true ∨
    if s.sf_mem_end = e.sf_mem_start then blockSize n ≤ 4080 ∨ TailServes e s n 4080 1
    else Served e s (blockSize n) ∨ AllocAt e s s.globalEnd ∨
      TailServes e s n (sizeAt e s s.globalEnd) 0

namespace Pool

theorem malloc_none {e : Env} {g : Pool} {n : Nat} {stale : Bool} :
    g.malloc e n stale = none ↔ n ≠ 0 ∧ intNeg n = false ∧ g.Unserved (blockSize n) ∧
      (g.grow e n).1 = true ∧ (g.grow e n).2.Unserved (blockSize n) := by
  unfold malloc
  by_cases h0 : n = 0
  · simp [h0]
  cases hneg : intNeg n with
  | true => simp [h0]
  | false =>
    rw [← serve_none stale, ← serve_none stale]
    cases g.serve (blockSize n) stale with
    | some r => simp [h0]
    | none => cases (g.grow e n).1 <;> simp [h0]

/-- After growth behind a free last block, only that block can serve the request. -/
theorem merged_unserved {e : Env} {g g' : Pool} {h : Hdr} {n j m : Nat} (I : g.Inv e)
    (I' : g'.Inv e) (hU : g.Unserved m) (hquick : g'.quick = g.quick)
    (L : g.Last g.globalEnd h) (M : Merged e g n h.size j g')
    (F : g'.FreeTail g.globalEnd (g.globalEnd + h.size) h.size) :
    g'.Unserved m ↔ h.size + j * PAGE_SZ < m := by
  have hsize := M.size F L rfl
  obtain ⟨k, L', hal, _⟩ := F.tail
  constructor
  · intro hU'
    have h1 := fit_none hU'.2 (freeIndex_lt _) (I'.listed L'.hdr hal List.not_mem_nil)
    rwa [hsize] at h1
  · intro hlt
    refine ⟨by rw [quickHit, hquick]; exact hU.1, ?_⟩
    cases hf : g'.fit m with
    | none => rfl
    | some a =>
      obtain ⟨⟨i, hi, ha⟩, hle⟩ := fit_some hf
      by_cases hat : a = g.globalEnd
      · rw [hat, hsize] at hle
        omega
      · obtain ⟨l, hl, hlal, _⟩ := I'.free_mem hi ha
        rw [sizeOf_of_hdr hl] at hle
        rw [M.others a hat] at hl
        have h1 := fit_none hU.2 (freeIndex_lt _) (I.listed hl hlal List.not_mem_nil)
        rw [sizeOf_of_hdr hl] at h1
        omega

end Pool

namespace Tracks

variable {e : Env} {live : List Allocation} {s : State} {g : Pool} (T : Tracks e live s g)

include T

theorem merged_canGrow {g' : Pool} {n t j : Nat} (M : Pool.Merged e g n t j g') :
    g'.canGrow e = true ↔ CanGrow e s j := by
  unfold CanGrow Pool.canGrow
  rw [M.calls, M.memEnd, T.rep.growCalls, T.rep.memEnd, Nat.succ_mul, Nat.add_assoc]
  simp

/-- `Pool.malloc` gives something exactly when the request is refused, served, or
leads to a last block that is large enough. -/
theorem malloc_some_iff {n : Nat} (stale : Bool) (hok : MallocOk e s n) :
    g.malloc e n stale ≠ none ↔ n = 0 ∨ intNeg n = true ∨ Served e s (blockSize n) ∨
      AllocAt e s s.globalEnd ∨ TailServes e s n (sizeAt e s s.globalEnd) 0 := by
  rw [ne_eq, Pool.malloc_none]
  by_cases h0 : n = 0
  · simp [h0]
  cases hneg : intNeg n with
  | true => simp
  | false =>
  by_cases hU : g.Unserved (blockSize n)
  swap
  · have h1 : Served e s (blockSize n) := T.served_iff.mpr hU
    simp [h1, hU]
  have hns : ¬ Served e s (blockSize n) := by
    rw [T.served_iff, not_not]
    exact hU
  have hG := T.growable_of_ok hok h0 hneg hU
  obtain ⟨h, L, hone⟩ := hG
  have hend := T.rep.globalEnd
  simp only [h0, hns, hU, ne_eq, not_false_eq_true, true_and, false_or, Bool.false_eq_true, hend]
  rw [T.rep.allocAt_iff L.hdr, T.rep.sizeAt_eq L.hdr]
  cases hal : h.alloc with
  | true =>
    simp only [true_or, iff_true]
    rintro ⟨h1, h2⟩
    exact Pool.grow_behind_serves L hal (hone hal) hneg h1 h2
  | false =>
    obtain ⟨I', _⟩ := T.inv.grow ⟨h, L, hone⟩ hneg
    obtain ⟨hkept, _⟩ := Pool.grow_outcome T.inv.toShape T.inv.idle ⟨h, L, hone⟩ hneg
    obtain ⟨j, g', M, F, ⟨he, rfl⟩ | ⟨he, hj, hc⟩⟩ := Pool.grow_tail (n := n) T.inv.toShape L hal
    · rw [he] at I' hkept ⊢
      simp only [true_and, Bool.false_eq_true, false_or]
      rw [Pool.merged_unserved T.inv I' hU hkept.quick L M F, Nat.not_lt]
      unfold TailServes
      refine ⟨.inr, fun h1 => h1.resolve_left ?_⟩
      rintro ⟨i, hi, hno⟩
      refine hno ?_
      have h2 := M.granted i hi
      rw [Nat.zero_add]
      exact ⟨by rw [T.rep.growCalls]; exact h2.1, by rw [T.rep.memEnd]; exact h2.2⟩
    · rw [he]
      simp only [Bool.false_eq_true, false_and, not_false_eq_true, false_or, true_iff]
      refine .inl ⟨j, hj, ?_⟩
      rw [Nat.zero_add, ← T.merged_canGrow M, hc]
      exact Bool.false_ne_true

theorem returns_iff {n : Nat} (hn : n < 2 ^ 64) (hok : MallocOk e s n) :
    (∃ p s', Returns e s (.malloc n) p s') ↔ n = 0 ∨ intNeg n = true ∨
      Served e s (blockSize n) ∨ AllocAt e s s.globalEnd ∨
      TailServes e s n (sizeAt e s s.globalEnd) 0 := by
  obtain ⟨stale, hcall⟩ := T.malloc_call hn hok
  rw [← T.malloc_some_iff stale hok]
  cases hm : g.malloc e n stale with
  | none =>
    rw [hm] at hcall
    refine iff_of_false ?_ fun hc => hc rfl
    rintro ⟨p, s', fuel, hrun⟩
    exact nomatch (hcall fuel).symm.trans hrun
  | some q =>
    rw [hm] at hcall
    obtain ⟨p, s', hrun, _⟩ := hcall 0
    exact iff_of_true ⟨p, s', 2, hrun⟩ nofun

end Tracks

/-! ## The first call -/

theorem initial_served {e : Env} {errno growCalls m : Nat} :
    ¬ (Pool.initial e errno growCalls).Unserved m ↔ m ≤ 4080 := by
  have hq : (Pool.initial e errno growCalls).quickHit m = none :=
    List.find?_eq_none.mpr fun i _ => by simp [Pool.initial]
  have hsize : (Pool.initial e errno growCalls).sizeOf e.sf_mem_start = 4080 :=
    Pool.sizeOf_of_hdr (h := ⟨4080, false, false⟩) (if_pos rfl)
  have hmem : e.sf_mem_start ∈ (Pool.initial e errno growCalls).free 7 := List.mem_cons_self
  unfold Pool.Unserved
  rw [hq]
  simp only [true_and]
  constructor
  · intro hne
    cases hf : (Pool.initial e errno growCalls).fit m with
    | none => exact absurd hf hne
    | some a =>
      obtain ⟨⟨i, _, ha⟩, hle⟩ := Pool.fit_some hf
      have ha' : a ∈ if i = 7 then [e.sf_mem_start] else [] := ha
      split at ha'
      · rwa [List.mem_singleton.mp ha', hsize] at hle
      · cases ha'
  · intro hle hf
    have h1 := Pool.fit_none hf (by decide) hmem
    omega

section Initial

variable {e : Env} {live : List Allocation} {s s₁ : State} {errno : Nat}

theorem initial_end {growCalls : Nat} (T : Tracks e live s₁ (Pool.initial e errno growCalls)) :
    IsLast e s₁ e.sf_mem_start ∧ s₁.globalEnd = e.sf_mem_start ∧
      ¬ AllocAt e s₁ e.sf_mem_start ∧ sizeAt e s₁ e.sf_mem_start = 4080 := by
  have hhdr : (Pool.initial e errno growCalls).hdr e.sf_mem_start =
      some ⟨4080, false, false⟩ := if_pos rfl
  exact ⟨(T.rep.isLast_iff T.inv.toSettling).mpr ⟨_, hhdr, rfl⟩, T.rep.globalEnd,
    (T.rep.not_allocAt hhdr).mpr rfl, T.rep.sizeAt_eq hhdr⟩

/-- The pages that are left after the first one. -/
theorem initial_canGrow (hs : s.sf_mem_end = e.sf_mem_start)
    (T : Tracks e live s₁ (Pool.initial e errno s.growCalls)) (j : Nat) :
    CanGrow e s₁ j ↔ CanGrow e s (1 + j) := by
  unfold CanGrow
  rw [show s₁.growCalls = s.growCalls + 1 from T.rep.growCalls,
    show s₁.sf_mem_end = s.sf_mem_end + PAGE_SZ by rw [hs]; exact T.rep.memEnd]
  rw [Nat.add_assoc s.growCalls, Nat.add_assoc s.sf_mem_end,
    show PAGE_SZ + (j + 1) * PAGE_SZ = (1 + j + 1) * PAGE_SZ by unfold PAGE_SZ; omega]

end Initial

/-- On a fresh heap. -/
theorem first_returns_iff {e : Env} {s : State} {n : Nat} (hs : s.sf_mem_end = e.sf_mem_start)
    (hn : n < 2 ^ 64) (h0 : n ≠ 0) (hneg : intNeg n = false) (hgrow : CanGrow e s 0) :
    (∃ p s', Returns e s (.malloc n) p s') ↔ blockSize n ≤ 4080 ∨ TailServes e s n 4080 1 := by
  obtain ⟨s₁, T, hrun⟩ := first_page hs hgrow
  have hsame : (∃ p s', Returns e s (.malloc n) p s') ↔ ∃ p s', Returns e s₁ (.malloc n) p s' := by
    refine exists_congr fun p => exists_congr fun s' => ⟨?_, ?_⟩ <;> rintro ⟨fuel, h⟩ <;>
      cases fuel with
      | zero => cases h
      | succ fuel =>
        refine ⟨fuel + 1, ?_⟩
        change sf_malloc e (fuel + 1) n _ = _ at h
        change sf_malloc e (fuel + 1) n _ = _
        simpa only [hrun n fuel h0 hneg] using h
  obtain ⟨_, hend, hal, hsize⟩ := initial_end T
  rw [hsame, T.returns_iff hn (initial_mallocOk T n), T.served_iff, initial_served, hend, hsize]
  unfold TailServes
  simp only [h0, hneg, Bool.false_eq_true, false_or, hal, initial_canGrow hs T, Nat.zero_add]

theorem Sane.returns_iff {e : Env} {s : Sys} {n : Nat} (h : Sane e s) (hn : n < 2 ^ 64)
    (hok : MallocOk e s.heap n) :
    (∃ p s', Returns e s.heap (.malloc n) p s') ↔ Progress e s.heap n := by
  unfold Progress
  rcases h with hS | ⟨g, T⟩
  · rw [if_pos hS.empty]
    by_cases h0 : n = 0
    · refine iff_of_true ⟨NULL, s.heap, 1, ?_⟩ (.inl h0)
      rw [h0]
      rfl
    cases hneg : intNeg n with
    | true =>
      refine iff_of_true ⟨NULL, { s.heap with sf_errno := ENOMEM }, 1, ?_⟩ (.inr (.inl rfl))
      change sf_malloc_body e _ n s.heap = _
      rw [sf_malloc_body, if_neg h0, if_pos hneg]
      rfl
    | false =>
      have hgrow := hok h0 hneg
      rw [if_pos hS.empty] at hgrow
      rw [first_returns_iff hS.empty hn h0 hneg hgrow]
      simp [h0]
  · rw [if_neg T.initialised]
    exact T.returns_iff hn hok

/-- In a sound run `sf_malloc` returns exactly when it makes progress. -/
theorem malloc_returns_iff {e : Env} {s : Sys} {n : Nat} (h : Reached e (Sound e) s)
    (hn : n < 2 ^ 64) (hok : MallocOk e s.heap n) :
    (∃ p s', Returns e s.heap (.malloc n) p s') ↔ Progress e s.heap n :=
  h.sane.returns_iff hn hok

theorem malloc_returns_sample : ∃ p s', Returns sampleEnv sample.heap (.malloc 3000) p s' :=
  (malloc_returns_iff (sample_reached _) (by decide) (sample_mallocOk 3000)).mpr
    (.inr (.inr (.inl (by decide))))

/-- The first page has 4080 bytes for blocks, and a request of 4073 bytes needs a
block of 4096. The loop starts at `(int)(4073 - 4080)`, adds nothing, and `sf_malloc`
calls itself on the same heap. -/
theorem malloc_never_returns : ¬ ∀ (e : Env) (s : Sys) (n : Nat),
    Reached e (fun _ op => op.MallocFree) s → n < 2 ^ 64 →
      ∃ p s', Returns e s.heap (.malloc n) p s' := by
  intro hall
  have hsane : Sane sampleEnv sample := .inl ⟨rfl, rfl⟩
  have h1 := (hsane.returns_iff (by decide) (sample_mallocOk 4073)).mp
    (hall sampleEnv sample 4073 (sample_reached _) (by decide))
  have hturns : growTurns 4073 4080 = 0 := by decide
  rcases h1 with h1 | h1 | h1
  · cases h1
  · exact absurd h1 (by decide)
  · rw [if_pos (show sample.heap.sf_mem_end = sampleEnv.sf_mem_start from rfl)] at h1
    rcases h1 with h1 | ⟨j, hj, _⟩ | h1
    · exact absurd h1 (by decide)
    · rw [hturns] at hj
      exact absurd hj (Nat.not_lt_zero j)
    · exact absurd h1 (by decide)

end StarterProjects.Sfmm
