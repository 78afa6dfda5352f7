import StarterProjects.Sfmm.Run
import StarterProjects.Sfmm.Tame

/-!
# Calls of `sf_malloc` alone

A client that only allocates. As long as the heap grows behind a free block, the
returned blocks stand in the heap in the order of the calls, and what is left is one
free block behind them, which `globalEnd` points to.
-/

namespace StarterProjects.Sfmm

open Lib Lib.Exec

/-! ## The layout -/

/-- From `lo` to `hi` there are the blocks of `l`, in this order and nothing between
them, each in use and large enough for its request. -/
def Row (e : Env) (s : State) : Nat → List Allocation → Nat → Prop
  | lo, [], hi => lo = hi
  | lo, x :: l, hi =>
      (x.ptr = nextOf lo ∧ AllocAt e s lo ∧ 32 ≤ sizeAt e s lo ∧ sizeAt e s lo % 16 = 0 ∧
        x.size + 8 ≤ sizeAt e s lo) ∧ Row e s (lo + sizeAt e s lo) l hi

/-- The block at `b` ends the heap, is free, in its list and alone in the lists. -/
structure OnlyFree (e : Env) (s : State) (b : Nat) : Prop where
  last : b + sizeAt e s b + 16 = s.sf_mem_end
  free : ¬ AllocAt e s b
  listed : ∃ i < 10, InClass i (sizeAt e s b) ∧
    ∀ j < 10, FreeList e s true j (if j = i then [b] else [])
  globalEnd : s.globalEnd = b

/-- The live blocks, in the order of the calls, fill the heap, or a free block behind
them does. -/
def Packed (e : Env) (s : Sys) : Prop :=
  ∃ b, Row e s.heap e.sf_mem_start s.live.reverse b ∧
    (b + 16 = s.heap.sf_mem_end ∧ (∀ j < 10, FreeList e s.heap true j []) ∨ OnlyFree e s.heap b)

/-- A call of `sf_malloc` with a size that is not zero and a result that is not `NULL`.
If it grows a heap that has pages, the last block is free. -/
structure Allocates (e : Env) (s : Sys) (n : Nat) (s' : Sys) : Prop where
  size_lt : n < 2 ^ 64
  size_ne : n ≠ 0
  returns : ∃ p, p ≠ NULL ∧ Returns e s.heap (.malloc n) p s'.heap ∧
    s'.live = Op.after s.live p (.malloc n)
  behind : s'.heap.sf_mem_end ≠ s.heap.sf_mem_end → s.heap.sf_mem_end ≠ e.sf_mem_start →
    ∃ b, IsLast e s.heap b ∧ ¬ AllocAt e s.heap b

/-! ## The layout of a pool -/

namespace Pool

variable {e : Env} {g g' : Pool}

/-- `Row` for the blocks of a pool. -/
def Row (g : Pool) : Nat → List Allocation → Nat → Prop
  | lo, [], hi => lo = hi
  | lo, x :: l, hi => ∃ h, (g.hdr lo = some h ∧ h.alloc = true ∧ x.ptr = nextOf lo ∧
      x.size + 8 ≤ h.size) ∧ Row g (lo + h.size) l hi

theorem Row.congr (hg : ∀ {a h}, g.hdr a = some h → h.alloc = true → g'.hdr a = some h) :
    ∀ {l : List Allocation} {lo hi : Nat}, g.Row lo l hi → g'.Row lo l hi
  | [], _, _, h => h
  | _ :: _, _, _, ⟨k, ⟨hk, hal, hp⟩, hr⟩ => ⟨k, ⟨hg hk hal, hal, hp⟩, hr.congr hg⟩

theorem Row.snoc {x : Allocation} {h : Hdr} :
    ∀ {l : List Allocation} {lo hi : Nat}, g.Row lo l hi → g.hdr hi = some h → h.alloc = true →
      x.ptr = nextOf hi → x.size + 8 ≤ h.size → g.Row lo (l ++ [x]) (hi + h.size)
  | [], _, _, rfl, hh, hal, hp, hn => ⟨h, ⟨hh, hal, hp, hn⟩, rfl⟩
  | _ :: _, _, _, ⟨k, hk, hr⟩, hh, hal, hp, hn => ⟨k, hk, hr.snoc hh hal hp hn⟩

/-- The blocks of `l` reach up to `t`, where the only free block may be. -/
structure Lined (e : Env) (g : Pool) (l : List Allocation) (t : Nat) : Prop where
  row : g.Row e.sf_mem_start l t
  quick : ∀ i < 10, g.quick i = []
  only : ∀ {a h}, g.hdr a = some h → h.alloc = false → a = t
  closed : ∀ i < 10, g.closed i = true ∨ g.free i = [t]

/-- The free block is there, and `globalEnd` points to it. -/
def Roomy (g : Pool) (t : Nat) : Prop := g.globalEnd = t ∧ ∃ h, g.Last t h ∧ h.alloc = false

/-- It is not there, and `globalEnd` points to the last block, which is in use. -/
def Full (g : Pool) (t : Nat) : Prop :=
  t + 16 = g.memEnd ∧ ∃ h, g.Last g.globalEnd h ∧ h.alloc = true

namespace Lined

variable {l : List Allocation} {t : Nat} (L : g.Lined e l t)

include L

theorem quickHit (m : Nat) : g.quickHit m = none := by
  cases hq : g.quickHit m with
  | none => rfl
  | some i =>
    obtain ⟨hi, ⟨a, l, hal⟩, _⟩ := quickHit_some hq
    rw [L.quick i hi] at hal
    cases hal

theorem fit (S : g.Shape e) {m a : Nat} (h : g.fit m = some a) :
    a = t ∧ m ≤ g.sizeOf t ∧ ∃ i < 10, t ∈ g.free i := by
  obtain ⟨⟨i, hi, ha⟩, hle⟩ := fit_some h
  obtain ⟨k, hk, hal, _⟩ := S.free_mem hi ha
  obtain rfl := L.only hk hal
  exact ⟨rfl, hle, i, hi, ha⟩

theorem unserved (S : g.Shape e) (hF : g.Full t) (m : Nat) : g.Unserved m := by
  refine ⟨L.quickHit m, ?_⟩
  cases hf : g.fit m with
  | none => rfl
  | some a =>
    obtain ⟨_, _, i, hi, ht⟩ := L.fit S hf
    obtain ⟨k, hk, _⟩ := S.free_mem hi ht
    have h1 := S.inside hk
    have h2 := hF.1
    omega

/-- After the free block has left its list every list is closed. -/
theorem closes {i : Nat} (hi : i < 10) : (g.erase t).closed i = true := by
  rw [erase_closed]
  rcases L.closed i hi with h | h
  · rw [h, Bool.true_or]
  · rw [h]
    simp

/-- The lists hold the free block only. -/
theorem free_eq (I : g.Inv e) {h : Hdr} (ht : g.hdr t = some h) (hal : h.alloc = false) {j : Nat}
    (hj : j < 10) : g.free j = if j = freeIndex h.size then [t] else [] := by
  have hall : ∀ a ∈ g.free j, a = t ∧ j = freeIndex h.size := by
    intro a ha
    obtain ⟨k, hk, hkal, hidx⟩ := I.free_mem hj ha
    obtain rfl := L.only hk hkal
    rw [ht] at hk
    cases hk
    exact ⟨rfl, hidx.symm⟩
  split
  · rename_i hidx
    have hmem := I.listed ht hal List.not_mem_nil
    rw [← hidx] at hmem
    have hnd := I.free_nodup j hj
    match hl : g.free j, hmem, hnd with
    | [a], _, _ => rw [(hall a (by rw [hl]; exact List.mem_cons_self)).1]
    | a :: b :: _, _, hnd =>
      have ha := (hall a (by rw [hl]; exact List.mem_cons_self)).1
      have hb := (hall b (by rw [hl]; exact List.mem_cons_of_mem _ List.mem_cons_self)).1
      rw [ha, hb] at hnd
      exact absurd List.mem_cons_self (List.nodup_cons.mp hnd).1
  · exact List.eq_nil_iff_forall_not_mem.mpr fun a ha => ‹¬ _› (hall a ha).2

theorem free_full (S : g.Shape e) (hF : g.Full t) {j : Nat} (hj : j < 10) : g.free j = [] := by
  refine List.eq_nil_iff_forall_not_mem.mpr fun a ha => ?_
  obtain ⟨k, hk, hal, _⟩ := S.free_mem hj ha
  obtain rfl := L.only hk hal
  have h1 := S.inside hk
  have h2 := hF.1
  omega

/-- The request is served in the front of the free block. -/
theorem split (S : g.Shape e) {h : Hdr} {m n : Nat} (ht : g.Last t h) (hend : g.globalEnd = t)
    (hal : h.alloc = false) (h32 : 32 ≤ m) (hrest : m + 32 ≤ h.size) (hn : n + 8 ≤ m) :
    (g.split t m).Lined e (l ++ [⟨nextOf t, n⟩]) (t + m) ∧ (g.split t m).Roomy (t + m) ∧
      ∀ i < 10, (g.split t m).closed i = true := by
  have hhdr := split_hdr (m := m) ht.hdr
  have hends := ht.ends
  have hclosed : ∀ i < 10, (g.split t m).closed i = true := by
    intro i hi
    rw [Pool.split, sizeOf_of_hdr ht.hdr]
    change ((g.erase t).closed i || _) = true
    rw [L.closes hi, Bool.true_or]
  refine ⟨⟨?_, L.quick, ?_, fun i hi => .inl (hclosed i hi)⟩,
    ⟨?_, ⟨h.size - m, false, true⟩, ⟨?_, ?_⟩, rfl⟩, hclosed⟩
  · refine Row.snoc (h := ⟨m, true, true⟩) (L.row.congr fun {a k} ha hk => ?_)
      ((hhdr t).trans (if_pos rfl)) rfl rfl hn
    have hat : a ≠ t := by
      rintro rfl
      rw [ht.hdr] at ha
      cases ha
      rw [hal] at hk
      cases hk
    have ham : a ≠ t + m := by
      rintro rfl
      rw [S.interior ht.hdr (by omega) (by omega)] at ha
      cases ha
    rw [hhdr, if_neg hat, if_neg ham]
    exact ha
  · intro a k ha hk
    rw [hhdr] at ha
    split at ha
    · cases ha
      cases hk
    · split at ha
      · assumption
      · exact absurd (L.only ha hk) ‹_›
  · change (if t + m > g.globalEnd then t + m else g.globalEnd) = t + m
    rw [if_pos (by omega)]
  · rw [hhdr, if_neg (by omega), if_pos rfl]
  · change t + m + (h.size - m) + 16 = g.memEnd
    omega

/-- The request takes the whole free block. -/
theorem exact {h : Hdr} {n : Nat} (ht : g.Last t h) (hend : g.globalEnd = t)
    (hal : h.alloc = false) (hn : n + 8 ≤ h.size) (stale : Bool) :
    (g.exact t stale).Lined e (l ++ [⟨nextOf t, n⟩]) (t + h.size) ∧
      (g.exact t stale).Full (t + h.size) ∧ ∀ i < 10, (g.exact t stale).closed i = true := by
  have hhdr := exact_hdr ht.hdr stale
  have hhdr_t := (hhdr t).trans (if_pos rfl)
  have hclosed : ∀ i < 10, (g.exact t stale).closed i = true := by
    intro i hi
    rw [exact_eq ht.hdr]
    exact L.closes hi
  have hglobal : (g.exact t stale).globalEnd = t := by
    rw [exact_eq ht.hdr]
    change (if t > g.globalEnd then t else g.globalEnd) = t
    rw [hend, ite_self]
  have hends : t + h.size + 16 = (g.exact t stale).memEnd := by
    rw [exact_eq ht.hdr]
    exact ht.ends
  refine ⟨⟨?_, ?_, ?_, fun i hi => .inl (hclosed i hi)⟩, ⟨hends,
    ⟨h.size, true, h.prev || g.endAlloc stale⟩, ⟨?_, ?_⟩, rfl⟩, hclosed⟩
  · refine Row.snoc (h := ⟨h.size, true, h.prev || g.endAlloc stale⟩)
      (L.row.congr fun {a k} ha hk => ?_) hhdr_t rfl rfl hn
    rw [hhdr, if_neg ?_]
    · exact ha
    · rintro rfl
      rw [ht.hdr] at ha
      cases ha
      rw [hal] at hk
      cases hk
  · intro i hi
    rw [exact_eq ht.hdr]
    exact L.quick i hi
  · intro a k ha hk
    rw [hhdr] at ha
    split at ha
    · cases ha
      cases hk
    · exact absurd (L.only ha hk) ‹_›
  · rw [hglobal]
    exact hhdr_t
  · rw [hglobal]
    exact hends

/-- A request that the free block serves. -/
theorem serve (S : g.Shape e) (hR : g.Roomy t) {m n p : Nat} {stale : Bool} (h32 : 32 ≤ m)
    (hn : n + 8 ≤ m) (hserve : g.serve m stale = some (p, g')) :
    ∃ t', g'.Lined e (l ++ [⟨p, n⟩]) t' ∧ (g'.Roomy t' ∨ g'.Full t') ∧
      ∀ i < 10, g'.closed i = true := by
  obtain ⟨hend, h, ht, hal⟩ := hR
  rw [Pool.serve, L.quickHit] at hserve
  dsimp only at hserve
  cases hf : g.fit m with
  | none =>
    rw [hf] at hserve
    cases hserve
  | some a =>
    obtain ⟨rfl, hle, _⟩ := L.fit S hf
    rw [hf] at hserve
    cases hserve
    rw [sizeOf_of_hdr ht.hdr] at hle
    unfold place
    rw [sizeOf_of_hdr ht.hdr]
    split
    · obtain ⟨h1, h2, h3⟩ := L.split S ht hend hal h32 (by omega) hn
      exact ⟨_, h1, .inl h2, h3⟩
    · obtain ⟨h1, h2, h3⟩ := L.exact ht hend hal (Nat.le_trans hn hle) stale
      exact ⟨_, h1, .inr h2, h3⟩

end Lined

/-- What merging pages into the block `globalEnd` points to leaves of a pool. -/
structure Larger (g g' : Pool) : Prop where
  globalEnd : g'.globalEnd = g.globalEnd
  quick : g'.quick = g.quick
  others : ∀ a, a ≠ g.globalEnd → g'.hdr a = g.hdr a
  closed : ∀ i < 10, g'.closed i = true ∨ g'.free i = [g.globalEnd]

theorem Larger.page {m : Nat} (h : Larger g g') (hm : m ≠ g.globalEnd) :
    Larger g (pageMerged g.globalEnd m g'.grown) := by
  refine ⟨h.globalEnd, h.quick, fun a ha => ?_, fun i hi => .inl ?_⟩
  · rw [pageMerged, makeFree_hdr, if_neg ha, if_neg List.not_mem_nil]
    exact h.others a ha
  · change (((g'.closed i || decide ((g'.free i).getLast? = some m)) ||
      decide (((g'.free i).erase m).getLast? = some g.globalEnd)) || _) = true
    rcases h.closed i hi with h1 | h1
    · rw [h1, Bool.true_or, Bool.true_or, Bool.true_or]
    · rw [h1, List.erase_of_not_mem (by simpa using hm)]
      simp

namespace Lined

variable {l : List Allocation} {t : Nat} (L : g.Lined e l t)

include L

/-- Growth behind the free block only makes it larger. -/
theorem grow (S : g.Shape e) (hR : g.Roomy t) {n : Nat} (hgrow : (g.grow e n).1 = true) :
    (g.grow e n).2.Lined e l t ∧ (g.grow e n).2.Roomy t := by
  obtain ⟨hend, h, ht, hal⟩ := hR
  obtain ⟨m, hm⟩ : ∃ m, m = t + h.size := ⟨_, rfl⟩
  have h1 := S.inside ht.hdr
  subst hend
  rcases grow_merged n (P := Larger g) S ht hal hm ⟨rfl, rfl, fun _ _ => rfl, L.closed⟩
    (fun _ hP _ _ _ => hP.page (by omega)) with ⟨_, ⟨h2, h3, h4, h5⟩, F, _⟩ | ⟨h2, _⟩
  · obtain ⟨k, ht', hk, _⟩ := F.tail
    refine ⟨⟨L.row.congr fun {a b} ha hb => ?_, fun i hi => by rw [h3]; exact L.quick i hi,
      fun {a b} ha hb => ?_, h5⟩, h2, k, ht', hk⟩
    · rw [h4 a ?_]
      · exact ha
      · rintro rfl
        rw [ht.hdr] at ha
        cases ha
        rw [hal] at hb
        cases hb
    · by_contra hne
      rw [h4 a hne] at ha
      exact hne (L.only ha hb)
  · rw [hgrow] at h2
    cases h2

/-- What a call of `sf_malloc` makes of the layout. -/
theorem malloc (I : g.Inv e) (hR : g.Roomy t) {n p : Nat} {stale : Bool}
    (hm : g.malloc e n stale = some (p, g')) (hp : p ≠ NULL) :
    ∃ t', g'.Lined e (l ++ [⟨p, n⟩]) t' ∧ (g'.Roomy t' ∨ g'.Full t') ∧
      ∀ i < 10, g'.closed i = true := by
  have hb := blockSize_spec n
  have hG : g.Growable e n := by
    obtain ⟨hend, h, ht, hal⟩ := hR
    exact ⟨h, hend ▸ ht, fun hc => by rw [hal] at hc; cases hc⟩
  unfold Pool.malloc at hm
  split at hm
  · cases hm
    exact absurd rfl hp
  · split at hm
    · cases hm
      exact absurd rfl hp
    · rename_i hneg
      split at hm
      · rename_i r hs
        cases hm
        exact L.serve I.toShape hR hb.1 hb.2.2.1 hs
      · split at hm
        · rename_i hgrow
          obtain ⟨L1, hR1⟩ := L.grow I.toShape hR hgrow
          have I1 := (I.grow hG (Bool.not_eq_true _ ▸ hneg)).1
          exact L1.serve I1.toShape hR1 hb.1 hb.2.2.1 hm
        · cases hm
          exact absurd rfl hp

end Lined

/-- The first page is one free block. -/
theorem initial_lined (errno growCalls : Nat) :
    (initial e errno growCalls).Lined e [] e.sf_mem_start ∧
      (initial e errno growCalls).Roomy e.sf_mem_start := by
  refine ⟨⟨rfl, fun _ _ => rfl, fun {a h} ha _ => ?_, fun i _ => ?_⟩, rfl,
    ⟨4080, false, false⟩, ⟨if_pos rfl, rfl⟩, rfl⟩
  · simp only [initial] at ha
    split at ha
    · assumption
    · cases ha
  · simp only [initial]
    by_cases hi : i = 7
    · exact .inr (if_pos hi)
    · exact .inl (decide_eq_true hi)

end Pool

/-! ## The layout in memory -/

namespace Tracks

variable {e : Env} {live : List Allocation} {s s' : State} {g : Pool} {t : Nat}

theorem row (T : Tracks e live s g) :
    ∀ {l : List Allocation} {lo hi : Nat}, g.Row lo l hi → Row e s lo l hi
  | [], _, _, h => h
  | _ :: _, _, _, ⟨h, ⟨hh, hal, hp, hn⟩, hr⟩ => by
    have h1 := T.rep.shape.inside hh
    unfold Row
    rw [T.rep.sizeAt_eq hh, T.rep.allocAt_iff hh]
    exact ⟨⟨hp, hal, h1.2.2.1, h1.2.2.2.1, hn⟩, T.row hr⟩

theorem packed {s : Sys} (T : Tracks e s.live s.heap g) (L : g.Lined e s.live.reverse t)
    (ht : g.Roomy t ∨ g.Full t) (hclosed : ∀ i < 10, g.closed i = true) : Packed e s := by
  have hlist : ∀ j < 10, FreeList e s.heap true j (g.free j) := fun j hj => by
    have h1 := T.rep.ring j hj
    rwa [hclosed j hj] at h1
  refine ⟨t, T.row L.row, ?_⟩
  rcases ht with ⟨hend, h, ht, hal⟩ | hF
  · have h1 := T.rep.shape.inside ht.hdr
    have hi := Pool.freeIndex_lt h.size
    refine .inr ⟨?_, (T.rep.not_allocAt ht.hdr).mpr hal, ⟨freeIndex h.size, hi, ?_, fun j hj => ?_⟩,
      T.rep.globalEnd.trans hend⟩
    · rw [T.rep.sizeAt_eq ht.hdr, T.rep.memEnd]
      exact ht.ends
    · rw [T.rep.sizeAt_eq ht.hdr]
      exact (inClass_iff hi h1.2.2.1).mpr rfl
    · rw [← L.free_eq T.inv ht.hdr hal hj]
      exact hlist j hj
  · refine .inl ⟨by rw [T.rep.memEnd]; exact hF.1, fun j hj => ?_⟩
    rw [← L.free_full T.inv.toShape hF hj]
    exact hlist j hj

end Tracks

/-! ## Calls that cannot return a pointer -/

section Fails

variable {e : Env} {s s' : State} {n r : Nat}

/-- Behind a last block in use the growth loop asks for a page at least once. -/
theorem Represents.grow_adds {W : Nat → Prop} {m₀ : Nat → Nat} {g : Pool}
    (R : Represents e W m₀ s g) {h : Hdr} (L : g.Last g.globalEnd h) (hal : h.alloc = true)
    (hneg : intNeg n = false) (hrun : sf_malloc_grow e n s = .ok (true, s')) :
    s.sf_mem_end < s'.sf_mem_end := by
  have h1 := R.shape.inside L.hdr
  have h2 := L.ends
  have h3 := R.shape.lt_two_pow L.hdr
  have hpage : sub64 s.sf_mem_end 16 = s.sf_mem_end - 16 :=
    sub64_of_le (by rw [R.memEnd]; omega) (by rw [R.memEnd]; omega)
  have hbit : h.word &&& THIS_BLOCK_ALLOCATED = THIS_BLOCK_ALLOCATED := by
    rw [Hdr.word_alloc (by omega), hal]
    rfl
  unfold sf_malloc_grow at hrun
  rw [bind_ok (get_apply s), R.globalEnd, bind_ok (R.load_header L.hdr)] at hrun
  obtain ⟨_, s₁, hs₁, hrun⟩ := bind_eq_ok hrun
  obtain ⟨_, s₂, hs₂, hrun⟩ := bind_eq_ok hrun
  obtain ⟨w, s₃, hs₃, hrun⟩ := bind_eq_ok hrun
  have hs₁ := (store_eq_ok hs₁).2
  have hs₂ := (store_eq_ok hs₂).2
  obtain ⟨_, hw, hs₃⟩ := load_eq_ok hs₃
  have hend : s₃.sf_mem_end = s.sf_mem_end := by rw [hs₃, hs₂, hs₁]; rfl
  -- the header of `globalEnd` is not one of the words written behind it
  have hword : w = h.word ^^^ e.magic := by
    rw [hw, hs₂, State.put_mem, hs₁, State.put_mem, hpage, R.memEnd,
      if_neg (by unfold headerOf prevFooterOf; omega), if_neg (by unfold headerOf; omega)]
    exact R.header L.hdr
  rw [hword, xor_magic, if_pos hbit] at hrun
  obtain ⟨fuel, hfuel⟩ : ∃ fuel, growBound = fuel + 1 := ⟨_, rfl⟩
  rw [hfuel, sf_malloc_pages, hneg] at hrun
  simp only [Bool.false_eq_true, if_false] at hrun
  obtain ⟨page, s₄, hs₄, hrun⟩ := bind_eq_ok hrun
  split at hrun
  · obtain ⟨_, _, _, hrun⟩ := bind_eq_ok hrun
    cases hrun
  · obtain ⟨_, s₅, hs₅, hrun⟩ := bind_eq_ok hrun
    have h4 := (Tame.malloc_page e _).2 _ _ _ hs₅
    have h5 := (Tame.malloc_pages e _ _ _).2 _ _ _ hrun
    have h6 : s₄.sf_mem_end = s.sf_mem_end + PAGE_SZ := by
      rw [← hend]
      unfold sf_mem_grow at hs₄
      split at hs₄ <;> cases hs₄
      · rfl
      · exact absurd rfl ‹_›
    unfold PAGE_SZ at h6
    omega

/-- A full heap grows before `sf_malloc` returns a pointer. -/
theorem Tracks.full_grows {live : List Allocation} {g : Pool} {l : List Allocation} {t : Nat}
    (T : Tracks e live s g) (L : g.Lined e l t) (hF : g.Full t) (hn : n < 2 ^ 64) (h0 : n ≠ 0)
    (hneg : intNeg n = false) (hr : r ≠ NULL) (hret : Returns e s (.malloc n) r s') :
    s.sf_mem_end < s'.sf_mem_end := by
  obtain ⟨fuel, hrun⟩ := hret
  change sf_malloc e fuel n s = .ok (r, s') at hrun
  obtain ⟨_, h, hlast, hal⟩ := id hF
  cases fuel with
  | zero => cases hrun
  | succ fuel =>
    rw [sf_malloc, T.rep.malloc_body h0 hneg, T.rep.malloc_unserved hn hneg T.inv.idle
      T.inv.end_inside (L.unserved T.inv.toShape hF _)] at hrun
    obtain ⟨grown, s₁, hgrow, hrun⟩ := bind_eq_ok hrun
    cases grown with
    | false =>
      cases hrun
      exact absurd rfl hr
    | true =>
      exact Nat.lt_of_lt_of_le (T.rep.grow_adds hlast hal hneg hgrow)
        ((Tame.malloc e fuel n).2 _ _ _ hrun)

end Fails

/-! ## Runs -/

/-- An initialised heap in which the calls so far are laid out. -/
def Laid (e : Env) (s : Sys) : Prop :=
  ∃ g t, Tracks e s.live s.heap g ∧ g.Lined e s.live.reverse t ∧ (g.Roomy t ∨ g.Full t) ∧
    ∀ i < 10, g.closed i = true

/-- A call on a heap with a free last block. -/
theorem Tracks.allocates {e : Env} {live : List Allocation} {s s' : State} {g : Pool} {n p t : Nat}
    (T : Tracks e live s g) (L : g.Lined e live.reverse t) (hR : g.Roomy t) (hn : n < 2 ^ 64)
    (hp : p ≠ NULL) (hret : Returns e s (.malloc n) p s') : Laid e ⟨s', ⟨p, n⟩ :: live⟩ := by
  obtain ⟨hend, h, ht, hal⟩ := hR
  have hok : MallocOk e s n := fun _ _ => by
    rw [if_neg T.initialised]
    intro _
    unfold GrowOk
    rw [T.rep.globalEnd, hend]
    exact ⟨(T.rep.isLast_iff T.inv.toSettling).mpr ⟨h, ht⟩,
      fun hc => absurd hc ((T.rep.not_allocAt ht.hdr).mpr hal)⟩
  obtain ⟨stale, g', hm, R⟩ := T.malloc_step hn hok hret
  obtain ⟨I, ⟨rfl, _⟩ | ⟨a, rfl, hgives⟩⟩ := T.inv.malloc (T.growable_of_ok hok) hm
  · exact absurd rfl hp
  obtain ⟨t', L', ht', hclosed⟩ := L.malloc T.inv ⟨hend, h, ht, hal⟩ hm hp
  refine ⟨_, t', Tracks.restart I R (T.table.gives hgives (blockSize_spec n).2.2.1),
    ?_, ?_, hclosed⟩
  · rw [List.reverse_cons]
    refine ⟨?_, L'.quick, L'.only, L'.closed⟩
    refine L'.row.congr ?_
    exact fun ha _ => ha
  · exact ht'.imp (fun ⟨h1, k, h2, h3⟩ => ⟨h1, k, ⟨h2.hdr, h2.ends⟩, h3⟩)
      fun ⟨h1, k, h2, h3⟩ => ⟨h1, k, ⟨h2.hdr, h2.ends⟩, h3⟩

theorem Allocates.laid {e : Env} {s s' : Sys} {n : Nat} (h : Start e s ∨ Laid e s)
    (hstep : Allocates e s n s') : Laid e s' := by
  obtain ⟨hn, h0, ⟨p, hp, hret, hlive⟩, hbehind⟩ := hstep
  have hneg : intNeg n = false := by
    by_contra hc
    exact hp (malloc_trivial (.inr (by simpa using hc)) hret).1
  obtain ⟨heap', live'⟩ := s'
  obtain rfl : live' = ⟨p, n⟩ :: s.live := hlive.trans (if_neg hp)
  rcases h with hS | ⟨g, t, T, L, hR | hF, _⟩
  · obtain ⟨s₁, T, hsame⟩ := first_page hS.empty (first_page_granted hS.empty h0 hneg hret)
    obtain ⟨fuel, hrun⟩ := hret
    cases fuel with
    | zero => cases hrun
    | succ fuel =>
      obtain ⟨L, hR⟩ := Pool.initial_lined (e := e) s.heap.sf_errno s.heap.growCalls
      rw [hS.none_live]
      exact T.allocates L hR hn hp ⟨fuel + 1, (hsame n fuel h0 hneg).symm.trans hrun⟩
  · exact T.allocates L hR hn hp hret
  · -- the heap has to grow, but its last block is in use
    have hgrew := T.full_grows L hF hn h0 hneg hp hret
    obtain ⟨b, hb, hfree⟩ := hbehind (Nat.ne_of_gt hgrew) T.initialised
    obtain ⟨k, hk⟩ := (T.rep.isLast_iff T.inv.toSettling).mp hb
    obtain rfl := L.only hk.hdr ((T.rep.not_allocAt hk.hdr).mp hfree)
    have h1 := T.rep.shape.inside hk.hdr
    have h2 := hF.1
    omega

/-- After every call of a run of such calls the heap is filled by the returned blocks
in the order of the calls and at most one free block behind them. -/
theorem packed_of_calls {e : Env} {s s' : Sys} {n : Nat}
    (h : Reaches (Start e) (Allocates e) s) (hstep : Allocates e s n s') : Packed e s' := by
  have hlaid : Start e s ∨ Laid e s :=
    h.invariant (I := fun s => Start e s ∨ Laid e s) (fun _ hS => .inl hS)
      fun _ _ _ hs hstep => .inr (hstep.laid hs)
  obtain ⟨g, t, T, L, ht, hclosed⟩ := hstep.laid hlaid
  exact T.packed L ht hclosed

/-- `malloc(3000)`, `malloc(5000)`: the second call adds two pages behind a free block. -/
theorem packed_of_calls_sample : ∃ s s', s'.live = [⟨0x100bd0, 5000⟩, ⟨0x100010, 3000⟩] ∧
    Allocates sampleEnv s 5000 s' ∧ Packed sampleEnv s' := by
  have hrun : Ends (sf_malloc sampleEnv 1 3000) sample.heap fun p t => p = 0x100010 ∧
      (t.sf_mem_end = 0x101000 ∧ sizeAt sampleEnv t 0x100000 = 3008 ∧
        sizeAt sampleEnv t 0x100bc0 = 1072 ∧ ¬ AllocAt sampleEnv t 0x100bc0) ∧
      Ends (sf_malloc sampleEnv 2 5000) t fun q _ => q = 0x100bd0 := by
    decide +kernel
  obtain ⟨_, t, ht, rfl, ⟨hend, hfirst, hsize, hfree⟩, _, t', ht', rfl⟩ := hrun
  have hlast : IsLast sampleEnv t 0x100bc0 := by
    have h1 := IsBlock.next (e := sampleEnv) (s := t) (.first (by rw [hend]; decide))
      (by rw [hend, show sizeAt sampleEnv t sampleEnv.sf_mem_start = 3008 from hfirst]; decide)
    rw [show sizeAt sampleEnv t sampleEnv.sf_mem_start = 3008 from hfirst] at h1
    exact ⟨h1, by rw [hend, hsize]⟩
  have hone : Allocates sampleEnv sample 3000 ⟨t, [⟨0x100010, 3000⟩]⟩ :=
    ⟨by decide, by decide, ⟨_, by decide, ⟨1, ht⟩, rfl⟩, fun _ hne => absurd rfl hne⟩
  have htwo : Allocates sampleEnv ⟨t, [⟨0x100010, 3000⟩]⟩ 5000
      ⟨t', [⟨0x100bd0, 5000⟩, ⟨0x100010, 3000⟩]⟩ :=
    ⟨by decide, by decide, ⟨_, by decide, ⟨2, ht'⟩, rfl⟩, fun _ _ => ⟨_, hlast, hfree⟩⟩
  exact ⟨_, _, rfl, htwo, packed_of_calls (.step (.init ⟨rfl, rfl⟩) hone) htwo⟩

end StarterProjects.Sfmm
