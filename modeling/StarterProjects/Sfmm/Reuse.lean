import StarterProjects.Sfmm.Twins

/-!
# How much of a block a request gets

Blocks are cut where 32 bytes or more are left over, so in every state of a sound run each
allocation has at most 16 bytes more than the block size it needs. A block that goes to a quick
list is the answer to the next request for its size.
-/

namespace StarterProjects.Sfmm

open Lib Lib.Exec

namespace Pool

variable {e : Env} {g g' : Pool} {m p : Nat} {stale : Bool}

/-! ## The size of what is served -/

/-- A block that is served has the size asked for, or 16 bytes more. -/
theorem serve_size (S : g.Shape e) (h16 : m % 16 = 0)
    (h : g.serve m stale = some (p, g')) :
    ∃ a k, p = nextOf a ∧ g'.hdr a = some k ∧ (k.size = m ∨ k.size = m + 16) := by
  unfold Pool.serve at h
  split at h
  · rename_i i hq
    cases h
    obtain ⟨hi, ⟨a, l, hl⟩, rfl⟩ := quickHit_some hq
    obtain ⟨k, hk, _, hsize⟩ := S.quick_mem hi (hl ▸ List.mem_cons_self)
    exact ⟨a, k, by rw [hl]; rfl, hk, .inl hsize⟩
  · split at h
    · rename_i a hf
      cases h
      obtain ⟨⟨i, hi, ha⟩, hle⟩ := fit_some hf
      obtain ⟨k, hk, _⟩ := S.free_mem hi ha
      have h1 := S.inside hk
      rw [sizeOf_of_hdr hk] at hle
      unfold Pool.place
      rw [sizeOf_of_hdr hk]
      split
      · exact ⟨a, _, rfl, (split_hdr hk a).trans (if_pos rfl), .inl rfl⟩
      · refine ⟨a, _, rfl, (exact_hdr hk stale a).trans (if_pos rfl), ?_⟩
        dsimp only
        omega
    · cases h

theorem Inv.malloc_size (I : g.Inv e) {n : Nat}
    (hG : n ≠ 0 → intNeg n = false → g.Unserved (blockSize n) → g.Growable e n)
    (h : g.malloc e n stale = some (p, g')) :
    p = NULL ∨ ∃ a k, p = nextOf a ∧ g'.hdr a = some k ∧
      (k.size = blockSize n ∨ k.size = blockSize n + 16) := by
  have h16 := (blockSize_spec n).2.1
  unfold Pool.malloc at h
  split at h
  · cases h
    exact .inl rfl
  · rename_i h0
    split at h
    · cases h
      exact .inl rfl
    · rename_i hneg
      rw [Bool.not_eq_true] at hneg
      cases hs : g.serve (blockSize n) stale with
      | some q =>
        rw [hs] at h
        cases h
        exact .inr (serve_size I.toShape h16 hs)
      | none =>
        rw [hs] at h
        obtain ⟨I₁, _⟩ := I.grow (hG h0 hneg ((serve_none _).mp hs)) hneg
        dsimp only at h
        split at h
        · exact .inr (serve_size I₁.toShape h16 h)
        · cases h
          exact .inl rfl

/-- Each allocation has a block of the size it needs, or of 16 bytes more. -/
def Snug (g : Pool) (live : List Allocation) : Prop :=
  ∀ x ∈ live, ∃ a h, x.ptr = nextOf a ∧ g.Used a h ∧
    (h.size = blockSize x.size ∨ h.size = blockSize x.size + 16)

theorem Snug.malloc {live : List Allocation} (N : g.Snug live) (I : g.Inv e) {n : Nat}
    (hG : n ≠ 0 → intNeg n = false → g.Unserved (blockSize n) → g.Growable e n)
    (h : g.malloc e n stale = some (p, g')) : g'.Snug (Op.after live p (.malloc n)) := by
  have hafter : Op.after live p (.malloc n) = if p = NULL then live else ⟨p, n⟩ :: live := rfl
  rcases I.malloc hG h with ⟨I', ⟨rfl, hsame⟩ | ⟨a, rfl, hgives⟩⟩
  · rw [hafter, if_pos rfl]
    intro x hx
    obtain ⟨b, k, h1, h2, h3⟩ := N x hx
    exact ⟨b, k, h1, (hsame b k).mpr h2, h3⟩
  · obtain ⟨k, hk, _⟩ := hgives.used
    have hne : nextOf a ≠ NULL := by
      unfold nextOf NULL
      omega
    rw [hafter, if_neg hne]
    intro x hx
    rcases List.mem_cons.mp hx with rfl | hx
    · obtain ⟨b, l, hb, hl, hsize⟩ := (I.malloc_size hG h).resolve_left hne
      have hab : a = b := by
        unfold nextOf at hb
        omega
      subst hab
      rw [hk.1] at hl
      cases hl
      exact ⟨a, k, rfl, hk, hsize⟩
    · obtain ⟨b, l, h1, h2, h3⟩ := N x hx
      have hba : b ≠ a := fun he => hgives.fresh l (he ▸ h2)
      exact ⟨b, l, h1, (hgives.others b l hba).mpr h2, h3⟩

theorem Snug.takes {live : List Allocation} (N : g.Snug live) {b : Nat} (h : Takes g g' b) :
    g'.Snug (live.filter fun x => x.ptr ≠ nextOf b) := by
  intro x hx
  obtain ⟨hx, hne⟩ := List.mem_filter.mp hx
  obtain ⟨a, k, h1, h2, h3⟩ := N x hx
  have hab : a ≠ b := by
    rintro rfl
    simp [h1] at hne
  obtain ⟨l, hl, hsize⟩ := (h.others a k.size hab).mpr ⟨k, h2, rfl⟩
  exact ⟨a, l, h1, hl, by rwa [hsize]⟩

end Pool

/-- In a sound run no allocation has 32 bytes more than the block size it needs. -/
theorem snug_of_sound {e : Env} {s : Sys} (h : Reached e (Sound e) s) : ∀ x ∈ s.live,
    sizeAt e s.heap (x.ptr - 16) = blockSize x.size ∨
      sizeAt e s.heap (x.ptr - 16) = blockSize x.size + 16 := by
  have hP := h.pools (P := Pool.Snug) (fun _ _ => nofun) (fun _ I hG N hm => N.malloc I hG hm)
    (fun htakes N => N.takes htakes) fun N => N
  intro x hx
  rcases hP with hS | ⟨g, T, N⟩
  · rw [hS.none_live] at hx
    cases hx
  · obtain ⟨a, k, hp, hu, hsize⟩ := N x hx
    rw [hp, show nextOf a - 16 = a from Nat.add_sub_cancel a 16, T.rep.sizeAt_eq hu.1]
    exact hsize

/-- After `malloc(24)`. -/
theorem snug_of_sound_sample : ∃ s : Sys, s.live = [⟨0x100010, 24⟩] ∧ ∀ x ∈ s.live,
    sizeAt sampleEnv s.heap (x.ptr - 16) = blockSize x.size ∨
      sizeAt sampleEnv s.heap (x.ptr - 16) = blockSize x.size + 16 := by
  have hrun : Ends (sf_malloc sampleEnv 1 24) sample.heap fun p _ => p = 0x100010 := by
    decide +kernel
  obtain ⟨_, t, ht, rfl⟩ := hrun
  exact ⟨⟨t, [⟨0x100010, 24⟩]⟩, rfl, snug_of_sound (.step (i := .malloc 24) (sample_reached _)
    ⟨by decide, sample_mallocOk 24, _, ⟨1, ht⟩, rfl⟩)⟩

/-! ## Free, and ask again -/

namespace Pool

variable {g : Pool} {b i : Nat}

theorem flushRun_quick : ∀ (rest : List Nat) {g : Pool}, (rest.foldl flushOne g).quick = g.quick
  | [], _ => rfl
  | m :: rest, g => by
    rw [List.foldl_cons, flushRun_quick rest, flushOne]
    cases g.freeAfter m <;> rfl

/-- A block that goes to a quick list is the head of it, and alone in it after a flush. -/
theorem freeBlock_quick (hq : quickIndex (g.sizeOf b) = some i) :
    ∃ l, (g.freeBlock b).quick i = b :: l := by
  unfold Pool.freeBlock
  rw [hq]
  dsimp only
  split
  · refine ⟨[], ?_⟩
    unfold Pool.flush
    rw [flushRun_quick, flushStart_eq]
    exact if_pos rfl
  · exact ⟨g.quick i, if_pos rfl⟩

/-- Taking the block out again leaves what there was. -/
theorem push_pop (g : Pool) (b i : Nat) : (g.push b i).setQuick i (g.quick i) = g := by
  unfold Pool.push Pool.setQuick
  congr 1
  funext j
  dsimp only
  split
  · rename_i hj
    rw [hj]
  · rfl

theorem quickHit_of (hi : i < 10) (hne : g.quick i ≠ []) : g.quickHit (32 + 16 * i) = some i := by
  cases hq : g.quickHit (32 + 16 * i) with
  | none => exact absurd ⟨hne, rfl⟩ (quickHit_none hq hi)
  | some j =>
    obtain ⟨_, _, hj⟩ := quickHit_some hq
    exact congrArg some (by omega)

end Pool

/-- In a sound run a block that `sf_free` puts in a quick list is what the next request for its
size gets; where no flush was needed, the heap is then what it was before. -/
theorem free_malloc_of_sound {e : Env} {s : Sys} {p n r q : Nat} {s₁ s₂ : State}
    (h : Reached e (Sound e) s) (hp : Live s.live p) (hok : FreeOk e s.heap (p - 16)) (h0 : n ≠ 0)
    (hquick : blockSize n ≤ 176) (hsize : sizeAt e s.heap (p - 16) = blockSize n)
    (hfree : Returns e s.heap (.free p) r s₁) (hmalloc : Returns e s₁ (.malloc n) q s₂) :
    q = p ∧ ∀ i, quickIndex (blockSize n) = some i →
      (s.heap.sf_quick_lists i).length ≠ QUICK_LIST_MAX → Alike e s.heap s₂ := by
  rcases h.sane with hS | ⟨g, T⟩
  · obtain ⟨x, hx, _⟩ := hp
    rw [hS.none_live] at hx
    cases hx
  obtain ⟨b, k, rfl, hu, T₁⟩ := T.free_to hp hok hfree
  have hb := blockSize_spec n
  rw [show nextOf b - 16 = b from Nat.add_sub_cancel b 16, T.rep.sizeAt_eq hu.1] at hsize
  obtain ⟨i, hi, hbi⟩ : ∃ i < 10, blockSize n = 32 + 16 * i :=
    ⟨(blockSize n - 32) / 16, by omega, by omega⟩
  have hqi : quickIndex (g.sizeOf b) = some i := by
    rw [Pool.sizeOf_of_hdr hu.1, hsize]
    exact quickIndex_some.mpr ⟨hi, hbi⟩
  obtain ⟨l, hl⟩ := Pool.freeBlock_quick hqi
  -- the block that was freed is the first one of its quick list
  have hserve : ∀ stale, ({ g.freeBlock b with touched := [] } : Pool).serve (blockSize n) stale =
      some (nextOf b, ({ g.freeBlock b with touched := [] } : Pool).setQuick i l) := by
    intro stale
    have hne : (g.freeBlock b).quick i ≠ [] := by
      rw [hl]
      exact List.cons_ne_nil b l
    unfold Pool.serve
    rw [hbi, Pool.quickHit_of (g := { g.freeBlock b with touched := [] }) hi hne]
    dsimp only
    rw [hl]
    rfl
  have hn : n < 2 ^ 64 := by omega
  have hneg : intNeg n = false := by
    unfold intNeg
    rw [decide_eq_false_iff_not]
    omega
  obtain ⟨rfl, stale, g', hs, T₂⟩ := T₁.malloc_served hn h0 hneg (fun stale => ⟨_, hserve stale⟩)
    hmalloc
  refine ⟨rfl, fun j hj hlen => ?_⟩
  rw [hserve] at hs
  cases hs
  rw [← hsize, ← Pool.sizeOf_of_hdr hu.1, hqi] at hj
  cases hj
  rw [T.rep.quick_length T.inv.idle hi] at hlen
  have hpush : g.freeBlock b = g.push b i := by
    unfold Pool.freeBlock
    rw [hqi]
    exact if_neg hlen
  have hrest : l = g.quick i := by
    rw [hpush] at hl
    exact (List.cons.inj (hl.symm.trans (if_pos rfl))).2
  -- without a flush, pushing the block and taking it again changes nothing
  have hsame : { ({ g.freeBlock b with touched := [] } : Pool).setQuick i l with touched := [] } =
      g := by
    rw [hrest, hpush]
    change { (g.push b i).setQuick i (g.quick i) with touched := [] } = g
    rw [Pool.push_pop, ← T.untouched]
  rw [hsame] at T₂
  exact T.alike T₂

/-- After `malloc(24)`, `free` and `malloc(20)` get the same block. -/
theorem free_malloc_of_sound_sample : ∃ s t : State, ∃ q, q = 0x100010 ∧
    Returns sampleEnv s (.malloc 20) q t := by
  have hrun : Ends (sf_malloc sampleEnv 1 24) sample.heap fun p t => p = 0x100010 ∧
      (sizeAt sampleEnv t 0x100000 = 32 ∧ ∀ i < 10, (t.sf_quick_lists i).length = 0) ∧
        Ends (sf_free sampleEnv 0x100010) t fun _ u =>
          Ends (sf_malloc sampleEnv 1 20) u fun _ _ => True := by
    decide +kernel
  obtain ⟨_, t, ht, rfl, ⟨hsize, hquick⟩, _, u, hu, q, v, hv, _⟩ := hrun
  have hmalloc : Reached sampleEnv (Sound sampleEnv) ⟨t, [⟨0x100010, 24⟩]⟩ :=
    .step (i := .malloc 24) (sample_reached _) ⟨by decide, sample_mallocOk 24, _, ⟨1, ht⟩, rfl⟩
  have hindex : quickIndex (sizeAt sampleEnv t 0x100000) = some 0 := by
    rw [hsize]
    rfl
  have hok : FreeOk sampleEnv t 0x100000 := by
    refine ⟨fun i hi hlen => ?_, fun hnone => ?_, fun hnone => ?_⟩
    · obtain rfl := Option.some.inj (hindex.symm.trans hi)
      rw [hquick 0 (by decide)] at hlen
      cases hlen
    · rw [hindex] at hnone
      cases hnone
    · rw [hindex] at hnone
      cases hnone
  have hfree : Returns sampleEnv t (.free 0x100010) NULL u := ⟨0, (bind_ok hu).trans rfl⟩
  exact ⟨u, v, q, (free_malloc_of_sound (p := 0x100010) (n := 20) hmalloc
    ⟨_, List.mem_cons_self, rfl⟩ hok (by decide) (by decide) (hsize.trans (by decide)) hfree
    ⟨1, hv⟩).1, ⟨1, hv⟩⟩

end StarterProjects.Sfmm
