import StarterProjects.Sfmm.Run

/-!
# What `sf_malloc` returns

In a sound run a pointer that `sf_malloc` returns is aligned, its bytes are in the
heap, and no other live allocation has one of them. Without the conditions of a
sound run this fails: `globalEnd` is not moved back when the last block is merged
into the block before it, and the next growth takes a block of the client for the
end of the heap.
-/

namespace StarterProjects.Sfmm

open Lib Lib.Exec

/-- The `n` bytes at `p` are a fresh allocation beside those of `live`. -/
structure Fresh (e : Env) (memEnd : Nat) (live : List Allocation) (p n : Nat) : Prop where
  aligned : p % 16 = 0
  inside : e.sf_mem_start ≤ p ∧ p + n ≤ memEnd
  disjoint : ∀ x ∈ live, p + n ≤ x.ptr ∨ x.ptr + x.size ≤ p

/-- A block that comes into use is fresh for the allocations that were live. -/
theorem Table.fresh {e : Env} {g g' : Pool} {live : List Allocation} {a m n : Nat}
    (T : Table g live) (S : g'.Shape e) (h : Pool.Gives g g' a m) (hn : n + 8 ≤ m) :
    Fresh e g'.memEnd live (nextOf a) n := by
  obtain ⟨k, hk, hm⟩ := h.used
  have h1 := S.inside hk.1
  refine ⟨by unfold nextOf; omega, by unfold nextOf; omega, fun x hx => ?_⟩
  obtain ⟨b, l, h2, h3, h4⟩ := T.held x hx
  have hba : b ≠ a := fun he => h.fresh l (he ▸ h3)
  have h5 := (h.others b l hba).mpr h3
  have h6 := S.cases_apart hk.1 h5.1
  rw [h2]
  unfold nextOf
  omega

/-- In a sound run every pointer that `sf_malloc` returns is a fresh allocation. -/
theorem malloc_fresh {e : Env} {s : Sys} {s' : State} {n p : Nat} (h : Reached e (Sound e) s)
    (hn : n < 2 ^ 64) (hok : MallocOk e s.heap n) (hret : Returns e s.heap (.malloc n) p s')
    (hp : p ≠ NULL) : Fresh e s'.sf_mem_end s.live p n := by
  by_cases htriv : n = 0 ∨ intNeg n = true
  · exact absurd (malloc_trivial htriv hret).1 hp
  · simp only [not_or, Bool.not_eq_true] at htriv
    obtain ⟨s₁, g, T, hok₁, hrun⟩ := h.sane.malloc_tracked hok htriv.1 htriv.2
    obtain ⟨fuel, hfuel⟩ := hret
    cases fuel with
    | zero => cases hfuel
    | succ fuel =>
      obtain ⟨stale, g', hm, R⟩ := T.malloc_step hn hok₁ ⟨fuel + 1, (hrun fuel).symm.trans hfuel⟩
      obtain ⟨I, ⟨rfl, _⟩ | ⟨a, rfl, hgives⟩⟩ := T.inv.malloc (T.growable_of_ok hok₁) hm
      · exact absurd rfl hp
      · rw [R.memEnd]
        exact T.table.fresh I.toShape hgives (blockSize_spec n).2.2.1

/-- Two blocks are live behind a free one, which serves the request. -/
theorem malloc_fresh_sample : ∃ s : Sys, s.live = [⟨0x100ca0, 24⟩, ⟨0x100bd0, 200⟩] ∧
    ∃ s', Returns sampleEnv s.heap (.malloc 1000) 0x100010 s' ∧
      Fresh sampleEnv s'.sf_mem_end s.live 0x100010 1000 := by
  have hrun : ∃ s ∈ sample.execSeen sampleEnv 2
      [.malloc 3000, .malloc 200, .malloc 24, .free 0x100010],
      s.live = [⟨0x100ca0, 24⟩, ⟨0x100bd0, 200⟩] ∧ MallocSeen sampleEnv s.heap 1000 ∧
        Ends (sf_malloc sampleEnv 1 1000) s.heap fun p _ => p = 0x100010 := by
    decide +kernel
  obtain ⟨s, hs, hlive, hok, _, s', hs', rfl⟩ := hrun
  exact ⟨s, hlive, s', ⟨1, hs'⟩, malloc_fresh ((sample_reached _).execSeen hs) (by decide) hok.ok
    ⟨1, hs'⟩ (by decide)⟩

/-- `malloc(3000)`, `free` of it, `malloc(5000)`, `malloc(4000)`: the last pointer is
that of a block that reaches into the one before. -/
theorem malloc_overlaps : ¬ ∀ (e : Env) (s : Sys) (n p : Nat) (s' : State),
    Reached e (fun _ op => op.MallocFree) s → n < 2 ^ 64 → Returns e s.heap (.malloc n) p s' →
      p ≠ NULL → Fresh e s'.sf_mem_end s.live p n := by
  intro hall
  have hrun : ∃ s ∈ sample.exec sampleEnv 3 [.malloc 3000, .free 0x100010, .malloc 5000],
      s.live = [⟨0x100bd0, 5000⟩] ∧
        Ends (sf_malloc sampleEnv 3 4000) s.heap fun p _ => p = 0x100010 := by
    decide +kernel
  obtain ⟨s, hs, hlive, _, s', hs', rfl⟩ := hrun
  have hreach : Reached sampleEnv (fun _ op => op.MallocFree) s :=
    (sample_reached _).exec (by simp [Op.MallocFree]) hs
  have hfresh := hall sampleEnv s 4000 0x100010 s' hreach (by decide) ⟨3, hs'⟩ (by decide)
  have hdisj := hfresh.disjoint ⟨0x100bd0, 5000⟩ (by rw [hlive]; exact List.mem_cons_self)
  revert hdisj
  decide

end StarterProjects.Sfmm
