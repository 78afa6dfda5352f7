import StarterProjects.Sfmm.Progress

/-!
# When no page is left

A request that the lists do not serve and for which the growth loop is refused a
page. In a sound run it fails cleanly: the pages it did get form one free block at
the end of the heap.
-/

namespace StarterProjects.Sfmm

open Lib Lib.Exec

/-- The request is not served by the lists, and the growth loop asks for a page that
is refused. On a fresh heap the first page may be. -/
def Exhausts (e : Env) (s : State) (n : Nat) : Prop :=
  n ≠ 0 ∧ intNeg n = false ∧
    if s.sf_mem_end = e.sf_mem_start then
      ¬ CanGrow e s 0 ∨ 4080 < blockSize n ∧ ∃ j < growTurns n 4080, ¬ CanGrow e s (1 + j)
    else ¬ Served e s (blockSize n) ∧
      ∃ j < growTurns n (if AllocAt e s s.globalEnd then 0 else sizeAt e s s.globalEnd),
        ¬ CanGrow e s j

/-- The last block is free, reaches back to where the heap ended in `s`, and is once
in the list of its size class. -/
structure OneTail (e : Env) (s s' : State) (b : Nat) : Prop where
  last : IsLast e s' b
  free : ¬ AllocAt e s' b
  reaches : b ≤ s.sf_mem_end
  merged : ∀ t, IsLast e s t → b = if AllocAt e s t then t + sizeAt e s t else t
  listed : ∃ i < 10, InClass i (sizeAt e s' b) ∧ ∃ l, FreeList e s' false i l ∧ l.count b = 1

/-- What a failed request leaves behind. -/
structure CleanFailure (e : Env) (live : List Allocation) (s s' : State) : Prop where
  errno : s'.sf_errno = ENOMEM
  kept : ∀ x ∈ live, IsBlock e s' (x.ptr - 16) ∧ AllocAt e s' (x.ptr - 16) ∧
    hdrAt e s' (x.ptr - 16) = hdrAt e s (x.ptr - 16)
  pages : s'.sf_mem_end = s.sf_mem_end ∨ ∃ b, OneTail e s s' b

namespace Tracks

variable {e : Env} {live : List Allocation} {s s' : State} {g g' : Pool}

/-- A free block is once in the list of its size class. -/
theorem listed_once (T : Tracks e live s g) {b : Nat} {h : Hdr} (hb : g.hdr b = some h)
    (hal : h.alloc = false) :
    ∃ i < 10, InClass i (sizeAt e s b) ∧ ∃ l, FreeList e s false i l ∧ l.count b = 1 := by
  have h1 := T.rep.shape.inside hb
  have hi := Pool.freeIndex_lt h.size
  refine ⟨freeIndex h.size, hi, ?_, g.free (freeIndex h.size), (T.rep.ring _ hi).open_of, ?_⟩
  · rw [T.rep.sizeAt_eq hb]
    exact (inClass_iff hi h1.2.2.1).mpr rfl
  · exact List.count_eq_one_of_mem (T.rep.shape.free_nodup _ hi)
      (T.inv.listed hb hal List.not_mem_nil)

/-- The blocks in use are kept when the same blocks are in use with the same headers. -/
theorem kept (T : Tracks e live s g) (T' : Tracks e live s' g') (hsame : Pool.SameUsed g g') :
    ∀ x ∈ live, IsBlock e s' (x.ptr - 16) ∧ AllocAt e s' (x.ptr - 16) ∧
      hdrAt e s' (x.ptr - 16) = hdrAt e s (x.ptr - 16) := by
  intro x hx
  obtain ⟨a, h, hxa, hu, _⟩ := T.table.held x hx
  have hu' := (hsame a h).mpr hu
  rw [hxa, show nextOf a - 16 = a from Nat.add_sub_cancel a 16]
  refine ⟨(T'.rep.isBlock_iff T'.inv.toSettling).mpr ⟨h, hu'.1⟩,
    (T'.rep.allocAt_iff hu'.1).mpr hu.2.1, ?_⟩
  rw [T'.rep.hdrAt_eq hu'.1, T.rep.hdrAt_eq hu.1]

/-- The block at `b` is the last one of the grown heap, and the last one before it
was `t`. -/
theorem oneTail (T : Tracks e live s g) (T' : Tracks e live s' g') {t b : Nat} {h k : Hdr}
    (L : g.Last t h) (L' : g'.Last b k) (hal : k.alloc = false)
    (hb : b = if h.alloc = true then t + h.size else t) : OneTail e s s' b := by
  have hend := L.ends
  have h1 := T.rep.memEnd
  refine ⟨(T'.rep.isLast_iff T'.inv.toSettling).mpr ⟨k, L'⟩, (T'.rep.not_allocAt L'.hdr).mpr hal,
    ?_, fun u hu => ?_, T'.listed_once L'.hdr hal⟩
  · rw [hb, h1]
    split <;> omega
  · obtain ⟨l, Lu⟩ := (T.rep.isLast_iff T.inv.toSettling).mp hu
    obtain rfl : u = t := by
      have h2 := L.above T.inv.toShape Lu.hdr
      have h3 := Lu.above T.inv.toShape L.hdr
      omega
    have hlh : l = h := by
      have h2 := Lu.hdr
      rw [L.hdr] at h2
      cases h2
      rfl
    rw [hb, T.rep.sizeAt_eq L.hdr]
    exact if_congr (T.rep.allocAt_iff L.hdr).symm rfl rfl

/-- A request that exhausts the heap. Only behind an allocated block can it fail
without a free last block. -/
theorem exhausted (T : Tracks e live s g) {n : Nat} (hn : n < 2 ^ 64) (hok : MallocOk e s n)
    (hex : Exhausts e s n) : ∃ s', Returns e s (.malloc n) NULL s' ∧ CleanFailure e live s s' ∧
      (AllocAt e s s.globalEnd ∨ ∃ b, OneTail e s s' b) := by
  obtain ⟨h0, hneg, hex⟩ := hex
  rw [if_neg T.initialised] at hex
  obtain ⟨hns, j, hj, hno⟩ := hex
  have hU : g.Unserved (blockSize n) := by
    rw [T.served_iff, not_not] at hns
    exact hns
  have hG := T.growable_of_ok hok h0 hneg hU
  obtain ⟨h, L, hone⟩ := hG
  obtain ⟨I', hsame⟩ := T.inv.grow ⟨h, L, hone⟩ hneg
  -- the loop is refused a page, and the pool it leaves has one free last block
  have hgrow : (g.grow e n).1 = false ∧ (g.grow e n).2.errno = ENOMEM ∧
      ((g.grow e n).2.memEnd = g.memEnd ∧ h.alloc = true ∨
        ∃ b k, (g.grow e n).2.Last b k ∧ k.alloc = false ∧
          b = if h.alloc = true then g.globalEnd + h.size else g.globalEnd) := by
    rw [T.rep.globalEnd] at hj
    cases hal : h.alloc with
    | false =>
      rw [if_neg (fun hc => by rw [T.rep.allocAt_iff L.hdr, hal] at hc; cases hc),
        T.rep.sizeAt_eq L.hdr] at hj
      obtain ⟨i, g₁, M, F, ⟨he, rfl⟩ | ⟨he, hi, hc⟩⟩ := Pool.grow_tail (n := n) T.inv.toShape L hal
      · refine absurd ?_ hno
        have h2 := M.granted j hj
        exact ⟨by rw [T.rep.growCalls]; exact h2.1, by rw [T.rep.memEnd]; exact h2.2⟩
      · rw [he]
        obtain ⟨k, L', hk, _⟩ := F.tail
        exact ⟨rfl, rfl, .inr ⟨g.globalEnd, k, ⟨L'.hdr, L'.ends⟩, hk, rfl⟩⟩
    | true =>
      rw [if_pos ((T.rep.allocAt_iff L.hdr).mpr hal)] at hj
      rcases Pool.grow_behind (e := e) L.hdr hal rfl hneg (Pool.Growable.one (hone hal)) with
        ⟨_, he⟩ | ⟨hc, hnp, he⟩ | ⟨_, _, he⟩
      · rw [he]
        exact ⟨rfl, rfl, .inl ⟨rfl, rfl⟩⟩
      · -- one page is all the loop asks for
        have hturns := intNeg_turn (n := n) (T := 0) (i := 1) (by decide) (by omega)
        rw [Nat.zero_add, Nat.one_mul, hnp] at hturns
        rw [← of_decide_eq_true hturns.symm, Nat.lt_one_iff] at hj
        rw [hj, T.canGrow_iff] at hno
        exact absurd hc hno
      · rw [he]
        have hend := L.ends
        refine ⟨rfl, rfl, .inr ⟨g.globalEnd + h.size, ⟨PAGE_SZ, false, false⟩, ⟨?_, ?_⟩, rfl, rfl⟩⟩
        · simp [Pool.pageBehind]
        · change g.globalEnd + h.size + PAGE_SZ + 16 = g.memEnd + PAGE_SZ
          omega
  obtain ⟨stale, hcall⟩ := T.malloc_call hn hok
  have hm : g.malloc e n stale = some (NULL, (g.grow e n).2) := by
    rw [Pool.malloc, if_neg h0, hneg, (Pool.serve_none _).mpr hU, hgrow.1]
    rfl
  rw [hm] at hcall
  obtain ⟨p, s', hrun, rfl, R'⟩ := hcall 0
  have T' := Tracks.restart I' R' (T.table.same hsame)
  have hpages : (s'.sf_mem_end = s.sf_mem_end ∧ AllocAt e s s.globalEnd) ∨
      ∃ b, OneTail e s s' b := by
    refine hgrow.2.2.imp (fun h1 => ⟨?_, ?_⟩) ?_
    · rw [R'.memEnd, T.rep.memEnd, h1.1]
    · rw [T.rep.globalEnd]
      exact (T.rep.allocAt_iff L.hdr).mpr h1.2
    · rintro ⟨b, k, L', hk, hb⟩
      exact ⟨b, T.oneTail T' L ⟨L'.hdr, L'.ends⟩ hk hb⟩
  exact ⟨s', ⟨2, hrun⟩, ⟨R'.errno.trans hgrow.2.1, T.kept T' hsame, hpages.imp And.left id⟩,
    hpages.imp And.right id⟩

end Tracks

theorem first_exhausted {e : Env} {s : State} {n : Nat} (hs : s.sf_mem_end = e.sf_mem_start)
    (hn : n < 2 ^ 64) (hok : MallocOk e s n) (hex : Exhausts e s n) :
    ∃ s', Returns e s (.malloc n) NULL s' ∧ CleanFailure e [] s s' := by
  obtain ⟨h0, hneg, hex⟩ := hex
  have hgrow := hok h0 hneg
  rw [if_pos hs] at hex hgrow
  obtain ⟨hbig, j, hj, hno⟩ := hex.resolve_left (not_not.mpr hgrow)
  obtain ⟨s₁, T, hrun⟩ := first_page hs hgrow
  obtain ⟨hlast, hend, hal, hsize⟩ := initial_end T
  have hex₁ : Exhausts e s₁ n := by
    refine ⟨h0, hneg, ?_⟩
    rw [if_neg T.initialised, T.served_iff, initial_served, hend, if_neg hal, hsize]
    exact ⟨by omega, j, hj, by rwa [initial_canGrow hs T]⟩
  obtain ⟨s', ⟨fuel, hret⟩, hclean, htail⟩ := T.exhausted hn (initial_mallocOk T n) hex₁
  obtain ⟨b, htail⟩ := htail.resolve_left (by rw [hend]; exact hal)
  have hb := htail.merged _ hlast
  rw [if_neg hal] at hb
  refine ⟨s', ?_, hclean.errno, nofun, .inr ⟨b, htail.last, htail.free, ?_, ?_, htail.listed⟩⟩
  · cases fuel with
    | zero => cases hret
    | succ fuel => exact ⟨fuel + 1, (hrun n fuel h0 hneg).trans hret⟩
  · rw [hb, hs]
  · exact fun t ht => absurd ht.1 (no_block hs t)

/-- In a sound run a request that exhausts the heap fails cleanly. -/
theorem malloc_exhausted {e : Env} {s : Sys} {n : Nat} (h : Reached e (Sound e) s)
    (hn : n < 2 ^ 64) (hok : MallocOk e s.heap n) (hex : Exhausts e s.heap n) :
    ∃ s', Returns e s.heap (.malloc n) NULL s' ∧ CleanFailure e s.live s.heap s' := by
  rcases h.sane with hS | ⟨g, T⟩
  · rw [hS.none_live]
    exact first_exhausted hS.empty hn hok hex
  · obtain ⟨s', h1, h2, _⟩ := T.exhausted hn hok hex
    exact ⟨s', h1, h2⟩

theorem malloc_exhausted_sample : ∃ s', Returns sampleEnv sample.heap (.malloc 100000) NULL s' ∧
    CleanFailure sampleEnv [] sample.heap s' :=
  malloc_exhausted (sample_reached _) (by decide) (sample_mallocOk 100000)
    ⟨by decide, by decide, .inr ⟨by decide, 23, by decide, fun hc => absurd hc.2 (by decide)⟩⟩

/-- A block that fills the first page, and then a request for more than there is. Of
the 23 pages behind the block only the first one is in a block, which is linked to
itself. -/
theorem exhaustion_loses_pages : ¬ ∀ (e : Env) (s : Sys) (n : Nat),
    Reached e (fun _ op => ∃ size, op = .malloc size) s → n < 2 ^ 64 → Exhausts e s.heap n →
      ∃ s', Returns e s.heap (.malloc n) NULL s' ∧ CleanFailure e s.live s.heap s' := by
  intro hall
  have hrun : ∃ s ∈ sample.exec sampleEnv 1 [.malloc 4072],
      (s.heap.sf_mem_end = 0x101000 ∧ s.heap.globalEnd = 0x100000 ∧
        sizeAt sampleEnv s.heap 0x100000 = 4080 ∧ AllocAt sampleEnv s.heap 0x100000 ∧
        ∀ i < 10, (s.heap.sf_quick_lists i).length = 0) ∧
      Ends (sf_malloc sampleEnv 1 200000) s.heap fun _ t =>
        t.sf_mem_end = 0x118000 ∧ sizeAt sampleEnv t 0x100ff0 = 4096 := by
    decide +kernel
  obtain ⟨s, hs, ⟨hend, hglobal, hsize, hal, hquick⟩, p, t, ht, htend, htsize⟩ := hrun
  -- the block in the first page is the only one
  have hblock : ∀ b, IsBlock sampleEnv s.heap b → b = 0x100000 := by
    intro b hb
    induction hb with
    | first _ => rfl
    | next _ hlt ih =>
      rw [ih, hsize, hend] at hlt
      exact absurd hlt (by decide)
  have hlast : IsLast sampleEnv s.heap 0x100000 :=
    ⟨.first (by rw [hend]; decide), by rw [hsize, hend]⟩
  have hex : Exhausts sampleEnv s.heap 200000 := by
    refine ⟨by decide, by decide, ?_⟩
    rw [if_neg (by rw [hend]; decide), hglobal, if_pos hal]
    refine ⟨?_, 23, by decide, fun hc => ?_⟩
    · rintro (⟨i, hi, _, hne⟩ | ⟨b, hb, hno, _⟩)
      · exact hne (hquick i hi)
      · rw [hblock b hb] at hno
        exact hno hal
    · have h1 := hc.2
      rw [hend] at h1
      exact absurd h1 (by decide)
  obtain ⟨s', hret, hclean⟩ := hall sampleEnv s 200000
    ((sample_reached _).exec (by simp) hs) (by decide) hex
  obtain ⟨_, rfl⟩ := hret.malloc_unique ⟨1, ht⟩
  rcases hclean.pages with h1 | ⟨b, htail⟩
  · rw [htend, hend] at h1
    exact absurd h1 (by decide)
  · have hb := htail.merged _ hlast
    rw [if_pos hal, hsize] at hb
    have h1 := htail.last.2
    rw [hb, htsize, htend] at h1
    exact absurd h1 (by decide)

end StarterProjects.Sfmm
