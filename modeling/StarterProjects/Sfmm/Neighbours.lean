import StarterProjects.Sfmm.Run

/-!
# Free neighbours

In a sound run no two free blocks are adjacent between calls. A flush passes the
footer in front of a block as it is stored, so that it does not find the free block
before the blocks it returns; `FlushOk` excludes it.
-/

namespace StarterProjects.Sfmm

open Lib Lib.Exec

/-- Of two adjacent blocks one is allocated. -/
def Coalesced (e : Env) (s : State) : Prop :=
  ∀ b, IsBlock e s b → IsBlock e s (b + sizeAt e s b) →
    AllocAt e s b ∨ AllocAt e s (b + sizeAt e s b)

theorem Tracks.coalesced {e : Env} {live : List Allocation} {s : State} {g : Pool}
    (T : Tracks e live s g) : Coalesced e s := by
  have R := T.rep
  intro b hb hnext
  obtain ⟨h, hh⟩ := (R.isBlock_iff T.inv.toSettling).mp hb
  obtain ⟨k, hk⟩ := (R.isBlock_iff T.inv.toSettling).mp hnext
  rw [R.allocAt_iff hh, R.allocAt_iff hk]
  rw [R.sizeAt_eq hh] at hk
  cases hal : h.alloc with
  | true => exact .inl rfl
  | false => exact .inr (T.inv.next_alloc hh hal hk)

/-- In a sound run coalescing is complete. -/
theorem coalesced_of_sound {e : Env} {s : Sys} (h : Reached e (Sound e) s) :
    Coalesced e s.heap := by
  rcases h.sane with hS | ⟨g, T⟩
  · exact fun b hb => absurd hb (no_block hS.empty b)
  · exact T.coalesced

/-- Three blocks in front of a fourth one. The first and the third are freed, and then the second,
which is merged with both. -/
theorem coalesced_of_sound_sample : ∃ s : Sys, s.live = [⟨0x1002f0, 24⟩] ∧
    ¬ AllocAt sampleEnv s.heap 0x100000 ∧ sizeAt sampleEnv s.heap 0x100000 = 208 + 320 + 208 ∧
    Coalesced sampleEnv s.heap := by
  have hrun : ∃ s ∈ sample.execSeen sampleEnv 2
      [.malloc 200, .malloc 300, .malloc 200, .malloc 24, .free 0x100010, .free 0x100220,
        .free 0x1000e0],
      s.live = [⟨0x1002f0, 24⟩] ∧ ¬ AllocAt sampleEnv s.heap 0x100000 ∧
        sizeAt sampleEnv s.heap 0x100000 = 208 + 320 + 208 := by
    decide +kernel
  obtain ⟨s, hs, hlive, hfree, hsize⟩ := hrun
  exact ⟨s, hlive, hfree, hsize, coalesced_of_sound ((sample_reached _).execSeen hs)⟩

/-- A block of 208 bytes in front of five of 32. These fill their quick list, then
the first block is freed, and then a sixth block of 32 bytes: the flush leaves the
first block and the merged five side by side. -/
theorem flush_leaves_neighbours : ¬ ∀ (e : Env) (s : Sys),
    Reached e (fun _ op => op.MallocFree) s → Coalesced e s.heap := by
  intro hall
  have hrun : ∃ s ∈ sample.exec sampleEnv 2
      [.malloc 200, .malloc 24, .malloc 24, .malloc 24, .malloc 24, .malloc 24, .malloc 24,
        .free 0x1000e0, .free 0x100100, .free 0x100120, .free 0x100140, .free 0x100160,
        .free 0x100010, .free 0x100180],
      (s.heap.sf_mem_end = 0x101000 ∧ sizeAt sampleEnv s.heap 0x100000 = 208) ∧
        ¬ AllocAt sampleEnv s.heap 0x100000 ∧ ¬ AllocAt sampleEnv s.heap 0x1000d0 := by
    decide +kernel
  obtain ⟨s, hs, ⟨hend, hsize⟩, h1, h2⟩ := hrun
  have hfirst : IsBlock sampleEnv s.heap 0x100000 := .first (by rw [hend]; decide)
  have hnext := hfirst.next (by rw [hsize, hend]; decide)
  rcases hall sampleEnv s ((sample_reached _).exec (by simp [Op.MallocFree]) hs) _ hfirst hnext
    with h | h
  · exact h1 h
  · rw [hsize] at h
    exact h2 h

end StarterProjects.Sfmm
