import StarterProjects.Sfmm.Flags

/-!
# The last block

`globalEnd` is raised when a block is cut or taken whole, and nothing else moves it. So it
misses the merging of the last block into the free block before it, and into a block that is
freed or flushed right before it. Growth behind an allocated block leaves it where it is, too,
until the new page is allocated in.
-/

namespace StarterProjects.Sfmm

open Lib Lib.Exec

namespace Pool

/-- `globalEnd` is the last block. -/
def Ended (g : Pool) : Prop := ∃ h, g.Last g.globalEnd h

variable {e : Env} {g g' : Pool}

theorem Ended.of_hdr {k : Hdr} (hdr : g'.hdr g.globalEnd = some k)
    (hends : g.globalEnd + k.size + 16 = g.memEnd) (hglobal : g'.globalEnd = g.globalEnd)
    (hmem : g'.memEnd = g.memEnd) : g'.Ended := by
  refine ⟨k, ?_, ?_⟩
  · rw [hglobal, hdr]
  · rw [hglobal, hmem, hends]

/-! ## `sf_malloc` -/

/-- A block is taken; a page that has come behind `globalEnd` is the block that is taken. -/
theorem Last.place {a t m : Nat} {h k : Hdr} {stale : Bool} (S : g.Shape e) (L : g.Last t k)
    (ha : g.hdr a = some h) (h32 : 32 ≤ m) (hend : g.globalEnd = t ∨ g.globalEnd ≤ a ∧ a = t) :
    (g.place a m stale).Ended := by
  have h1 := S.inside ha
  have hle := (L.above S ha).1
  have hends := L.ends
  unfold Pool.place
  rw [sizeOf_of_hdr ha]
  split
  · have hhdr := split_hdr (m := m) ha
    have hglobal : (g.split a m).globalEnd =
        if a + m > g.globalEnd then a + m else g.globalEnd := rfl
    have hmem : (g.split a m).memEnd = g.memEnd := rfl
    -- what is cut off the last block is the last block then
    by_cases hat : a = t
    · subst hat
      have hsame := L.hdr
      rw [ha] at hsame
      cases hsame
      refine ⟨⟨h.size - m, false, true⟩, ?_, ?_⟩
      · rw [hglobal, if_pos (by omega), hhdr, if_neg (by omega), if_pos rfl]
      · rw [hglobal, if_pos (by omega), hmem]
        dsimp only
        omega
    · obtain rfl := hend.resolve_right fun hc => hat hc.2
      have hapart := S.apart ha L.hdr (by omega)
      refine Ended.of_hdr (k := k) ?_ hends ?_ hmem
      · rw [hhdr, if_neg (Ne.symm hat), if_neg (by omega)]
        exact L.hdr
      · rw [hglobal, if_neg (by omega)]
  · have hhdr := exact_hdr ha stale
    have hglobal : (g.exact a stale).globalEnd = t := by
      rw [exact_eq ha]
      change (if a > g.globalEnd then a else g.globalEnd) = t
      rcases hend with hend | ⟨hend, rfl⟩
      · rw [if_neg (by omega), hend]
      · split
        · rfl
        · omega
    have hmem : (g.exact a stale).memEnd = g.memEnd := by
      rw [exact_eq ha]
      rfl
    by_cases hat : t = a
    · subst hat
      have hsame := L.hdr
      rw [ha] at hsame
      cases hsame
      refine ⟨⟨h.size, true, h.prev || g.endAlloc stale⟩, ?_, ?_⟩
      · rw [hglobal, hhdr, if_pos rfl]
      · rw [hglobal, hmem]
        exact hends
    · refine ⟨k, ?_, ?_⟩
      · rw [hglobal, hhdr, if_neg hat]
        exact L.hdr
      · rw [hglobal, hmem]
        exact hends

theorem Ended.serve {m p : Nat} {stale : Bool} (E : g.Ended) (S : g.Shape e) (h32 : 32 ≤ m)
    (hs : g.serve m stale = some (p, g')) : g'.Ended := by
  obtain ⟨k, L⟩ := E
  unfold Pool.serve at hs
  split at hs
  · cases hs
    exact ⟨k, L.hdr, L.ends⟩
  · split at hs
    · rename_i a hf
      cases hs
      obtain ⟨⟨i, hi, hm⟩, -⟩ := fit_some hf
      obtain ⟨h, ha, -⟩ := S.free_mem hi hm
      exact L.place S ha h32 (.inl rfl)
    · cases hs

/-- What growth leaves, and what a request is then served from. -/
structure Regrown (g : Pool) (size m : Nat) (e : Env) : Prop where
  failed : (g.grow e size).1 = false → (g.grow e size).2.Ended
  served : (g.grow e size).1 = true → ∀ stale p g',
    (g.grow e size).2.serve m stale = some (p, g') → g'.Ended

section Grow

variable {h : Hdr} {size m : Nat} (I : g.Inv e) (L : g.Last g.globalEnd h)

include I L

/-- The pages become part of the last block. -/
theorem Ended.growTail (hal : h.alloc = false) (h32 : 32 ≤ m) : Regrown g size m e := by
  rcases grow_merged (e := e) size (P := fun g₁ => g₁.Inv e ∧ g₁.globalEnd = g.globalEnd)
    I.toShape L hal rfl ⟨(I.tailNoted L hal rfl).1, rfl⟩
    (fun g₁ hP Ft hc _ => ⟨(hP.1.pageMerged Ft hc).1, hP.2⟩) with
    ⟨hr, ⟨I₁, hglobal⟩, Ft, _⟩ | ⟨hr, g₁, ⟨_, hglobal⟩, Ft, _, _, he⟩
  · obtain ⟨k, L₁, _⟩ := Ft.tail
    rw [← hglobal] at L₁
    exact ⟨fun hc => (by rw [hr] at hc; cases hc),
      fun _ stale p g' hs => Ended.serve ⟨k, L₁⟩ I₁.toShape h32 hs⟩
  · obtain ⟨k, L₁, _⟩ := Ft.tail
    rw [← hglobal] at L₁
    refine ⟨fun _ => ?_, fun hc => (by rw [hr] at hc; cases hc)⟩
    rw [he]
    exact ⟨k, L₁.hdr, L₁.ends⟩

/-- One page comes behind the last block and serves the request, or none comes. -/
theorem Ended.growBehind (hal : h.alloc = true) (hneg : intNeg size = false)
    (hc : size ≤ 4088 ∨ g.canGrow e = false) (hU : g.Unserved m) (h32 : 32 ≤ m) :
    Regrown g size m e := by
  have h1 := I.toShape.inside L.hdr
  have h2 := L.ends
  obtain ⟨c, hcm⟩ : ∃ c, c = g.globalEnd + h.size := ⟨_, rfl⟩
  rcases grow_behind (e := e) L.hdr hal hcm hneg (Growable.one (hc.imp id .inl)) with
    ⟨_, he⟩ | ⟨hg, _, he⟩ | ⟨hg, hn, _⟩
  · refine ⟨fun _ => ?_, fun hr => (by rw [he] at hr; cases hr)⟩
    rw [he]
    exact ⟨h, L.hdr, L.ends⟩
  · refine ⟨fun hr => (by rw [he] at hr; cases hr), fun _ stale p g' hs => ?_⟩
    rw [he] at hs
    have I₁ := ((I.endSpoiled L hal hcm).1.pageBehind (t := g.globalEnd) (h := h)
      ⟨L.hdr, L.ends⟩ hal hcm.symm hg).1
    have hpage := (pageBehind_hdr (g := (g.spoil (c + 8)).spoil c) c c).trans (if_pos rfl)
    obtain ⟨rfl, -⟩ := serve_new I I₁ hU rfl
      (fun a ha => (pageBehind_hdr c a).trans (if_neg ha)) hs
    refine Last.place (t := c) I₁.toShape ⟨hpage, ?_⟩ hpage h32 (.inr ⟨?_, rfl⟩)
    · change c + PAGE_SZ + 16 = g.memEnd + PAGE_SZ
      omega
    · change g.globalEnd ≤ c
      omega
  · rcases hc with hc | hc
    · unfold intNeg sub64 PAGE_SZ at hn
      rw [decide_eq_false_iff_not] at hn
      omega
    · rw [hc] at hg
      cases hg

end Grow

theorem Ended.malloc {size p : Nat} {stale : Bool} (E : g.Ended) (I : g.Inv e)
    (hgrow : size ≠ 0 → intNeg size = false → g.Unserved (blockSize size) →
      ∀ h, g.Last g.globalEnd h → h.alloc = true → size ≤ 4088 ∨ g.canGrow e = false)
    (h : g.malloc e size stale = some (p, g')) : g'.Ended := by
  have h32 := (blockSize_spec size).1
  unfold Pool.malloc at h
  split at h
  · cases h
    exact E
  · rename_i h0
    split at h
    · cases h
      exact E.imp fun _ L => ⟨L.hdr, L.ends⟩
    · rename_i hneg
      rw [Bool.not_eq_true] at hneg
      cases hs : g.serve (blockSize size) stale with
      | some q =>
        rw [hs] at h
        cases h
        exact E.serve I.toShape h32 hs
      | none =>
        rw [hs] at h
        have hU := (serve_none stale).mp hs
        obtain ⟨k, L⟩ := E
        have hregrown : Regrown g size (blockSize size) e := by
          cases hal : k.alloc with
          | false => exact Ended.growTail I L hal h32
          | true => exact Ended.growBehind I L hal hneg (hgrow h0 hneg hU k L hal) hU h32
        dsimp only at h
        split at h
        · exact hregrown.served ‹_› _ _ _ h
        · cases h
          exact hregrown.failed (by rwa [Bool.not_eq_true] at *)

/-! ## `sf_free` -/

theorem coalesce_globalEnd (g : Pool) (m : Nat) (past next : Option Nat) :
    (g.coalesce m past next).globalEnd = g.globalEnd := by
  cases past <;> cases next <;> rfl

theorem coalesce_memEnd (g : Pool) (m : Nat) (past next : Option Nat) :
    (g.coalesce m past next).memEnd = g.memEnd := by
  cases past <;> cases next <;> rfl

/-- The last block stays where it is unless it is merged into one before it. -/
theorem Ended.coalesce {m : Nat} {h : Hdr} {past : Option Nat} {pend : List Nat} (E : g.Ended)
    (I : g.Settling e pend) (hm : g.hdr m = some h) (hal : h.alloc = false)
    (hpast : ∀ p, past = some p →
      g.globalEnd ≠ m ∧ ∃ k, g.hdr p = some k ∧ k.alloc = false ∧ p + k.size = m)
    (hnext : g.freeAfter m ≠ some g.globalEnd) :
    (g.coalesce m past (g.freeAfter m)).Ended := by
  obtain ⟨k, L⟩ := E
  have hends := L.ends
  rcases I.joined hm hal fun p hp => (hpast p hp).2 with ⟨rfl, hfa⟩ | ⟨g', b, size, drop, J⟩
  · rw [hfa]
    exact ⟨k, L.hdr, L.ends⟩
  · have hglobal := coalesce_globalEnd g m past (g.freeAfter m)
    have hmem := coalesce_memEnd g m past (g.freeAfter m)
    have hinside : b + size + 16 ≤ g.memEnd := by
      rw [← hmem, J.eq]
      exact J.fusable.inside
    have hhdr : (g.coalesce m past (g.freeAfter m)).hdr g.globalEnd =
        if g.globalEnd = b then some ⟨size, false, true⟩
        else if g.globalEnd ∈ drop then none else g.hdr g.globalEnd := by
      rw [J.eq, makeFree_hdr, J.erased.hdr]
    by_cases hb : g.globalEnd = b
    · -- the joined block starts where the last one does, and is at least as large
      obtain ⟨l, hl, -, hle⟩ := J.fusable.start
      rw [J.erased.hdr, ← hb, L.hdr] at hl
      cases hl
      refine .of_hdr (hhdr.trans (if_pos hb)) ?_ hglobal hmem
      dsimp only
      omega
    · have hdrop : g.globalEnd ∉ drop := fun hd => by
        rcases (J.parts _).mp (List.mem_cons_of_mem _ hd) with hc | hc | hc
        · cases hp : past with
          | none => exact hb (by rw [hc, J.start, hp, Option.getD_none])
          | some p => exact (hpast p hp).1 hc
        · exact hb (by rw [J.start, hc, Option.getD_some])
        · exact hnext hc
      refine .of_hdr ?_ hends hglobal hmem
      rw [hhdr, if_neg hb, if_neg hdrop]
      exact L.hdr

/-- A freed block is not the last one with a free block before it, and right behind it is no
free last block. -/
structure Apart (g : Pool) (b : Nat) (h : Hdr) : Prop where
  before : g.globalEnd = b → ∀ a k, g.hdr a = some k → k.alloc = false → a + k.size ≠ b
  behind : g.globalEnd = b + h.size → ∀ k, g.hdr g.globalEnd = some k → k.alloc = true

theorem Ended.freeMain {b : Nat} {h : Hdr} (E : g.Ended) (I : g.Inv e) (hu : g.Used b h)
    (hapart : g.Apart b h) : (g.freeMain b).Ended := by
  obtain ⟨k, L⟩ := E
  have hb := hu.1
  have hhdr := release_hdr hb
  have hrel := release_eq (g := g) b
  have hglobal : (g.release b).globalEnd = g.globalEnd := by rw [hrel]
  have hmem : (g.release b).memEnd = g.memEnd := by rw [hrel]
  have hrelb := (hhdr b).trans (if_pos rfl)
  have h1 := I.inside hb
  have hE : (g.release b).Ended := by
    have hlast := hhdr g.globalEnd
    by_cases hgb : g.globalEnd = b
    · have hsame := L.hdr
      rw [hgb, hb] at hsame
      cases hsame
      exact .of_hdr (hlast.trans (if_pos hgb)) L.ends hglobal hmem
    · rw [if_neg hgb] at hlast
      by_cases hgn : g.globalEnd = b + h.size
      · rw [if_pos hgn, L.hdr] at hlast
        exact .of_hdr hlast L.ends hglobal hmem
      · rw [if_neg hgn, L.hdr] at hlast
        exact .of_hdr hlast L.ends hglobal hmem
  refine hE.coalesce (I.release hu) hrelb rfl (fun p hp => ?_) fun hc => ?_
  · obtain ⟨l, hl, hl', hlal, hend⟩ := release_before I.toShape hb hp
    refine ⟨fun hgb => ?_, l, hl, hlal, hend⟩
    exact hapart.before (hglobal ▸ hgb) p l hl' hlal hend
  · obtain ⟨hn, l, hl, hlal⟩ := freeAfter_some hc
    rw [hglobal] at hn hl
    rw [sizeOf_of_hdr hrelb] at hn
    have hkal := hapart.behind hn k L.hdr
    rw [hhdr, if_neg (by rw [hn]; dsimp only; omega), if_pos hn, L.hdr] at hl
    cases hl
    rw [hkal] at hlal
    cases hlal

/-- No block of the list comes right before the last one, if that is free. -/
def Clear (g : Pool) (n : Nat) (l : List Nat) : Prop :=
  ∀ c ∈ l, c + n = g.globalEnd → ∃ k, g.hdr g.globalEnd = some k ∧ k.alloc = true

theorem Clear.next {n m : Nat} {rest : List Nat} (hclear : g.Clear n (m :: rest))
    (F : Flushing e g n (m :: rest)) : g.freeAfter m ≠ some g.globalEnd := by
  intro hc
  obtain ⟨hn, l, hl, hlal⟩ := freeAfter_some hc
  rw [sizeOf_of_hdr (F.hdr m List.mem_cons_self)] at hn
  obtain ⟨k, hk, hal⟩ := hclear m List.mem_cons_self hn.symm
  rw [hk] at hl
  cases hl
  rw [hal] at hlal
  cases hlal

/-- An allocated block is not touched by a turn of the flush. -/
theorem flushOne_alloc {m x : Nat} {h k : Hdr} (hm : g.hdr m = some h) (hal : h.alloc = false)
    (hx : g.hdr x = some k) (hxal : k.alloc = true) : (g.flushOne m).hdr x = some k := by
  have hfree : ∀ {y l}, g.hdr y = some l → l.alloc = false → x ≠ y := by
    rintro _ l hl hlal rfl
    rw [hx] at hl
    cases hl
    rw [hxal] at hlal
    cases hlal
  unfold flushOne
  cases hf : g.freeAfter m with
  | none => exact hx
  | some n =>
    obtain ⟨-, l, hl, hlal⟩ := freeAfter_some hf
    rw [Pool.coalesce, makeFree_hdr, if_neg (hfree hm hal), if_neg ?_]
    · exact hx
    · rw [List.mem_singleton]
      exact hfree hl hlal

theorem Ended.flushRun {n : Nat} : ∀ {rest : List Nat} {g : Pool}, g.Ended →
    Flushing e g n rest → g.Clear n rest → (rest.foldl flushOne g).Ended
  | [], _, E, _, _ => E
  | m :: rest, g, E, Fl, hclear => by
    have hm := Fl.hdr m List.mem_cons_self
    refine Ended.flushRun (g := g.flushOne m) ?_ Fl.step fun c hc hce => ?_
    · exact E.coalesce Fl.settling hm rfl nofun (hclear.next Fl)
    · have hglobal : (g.flushOne m).globalEnd = g.globalEnd := coalesce_globalEnd _ _ _ _
      rw [hglobal] at hce ⊢
      obtain ⟨k, hk, hal⟩ := hclear c (List.mem_cons_of_mem _ hc) hce
      exact ⟨k, flushOne_alloc hm rfl hk hal, hal⟩

theorem Ended.flush {b i : Nat} {h : Hdr} (E : g.Ended) (I : g.Inv e) (hi : i < 10)
    (hu : g.Used b h) (hsz : h.size = 32 + 16 * i) (hF : g.Flushable i)
    (hlast : ∀ c ∈ g.quick i, c + (32 + 16 * i) = g.globalEnd →
      g.globalEnd ∉ g.quick i ∧ ∃ k, g.hdr g.globalEnd = some k ∧ k.alloc = true) :
    (g.flush b i).Ended := by
  obtain ⟨k, L⟩ := E
  have hhdr := flushStart_hdr (b := b) I hi
  have heq := flushStart_eq (g := g) (b := b) (i := i)
  have hglobal : (g.flushStart b i).globalEnd = g.globalEnd := by rw [heq]
  have hmem : (g.flushStart b i).memEnd = g.memEnd := by rw [heq]
  refine Ended.flushRun (e := e) (n := 32 + 16 * i) ?_ (flushStart_flushing I hi hu hsz hF) ?_
  · have hlast := hhdr g.globalEnd
    split at hlast
    · obtain ⟨l, hl, -, hls⟩ := I.quick_mem hi ‹_›
      rw [L.hdr] at hl
      cases hl
      refine .of_hdr hlast ?_ hglobal hmem
      dsimp only
      rw [← hls]
      exact L.ends
    · exact .of_hdr (hlast.trans L.hdr) L.ends hglobal hmem
  · intro c hc hce
    rw [hglobal] at hce ⊢
    obtain ⟨hnot, l, hl, hal⟩ := hlast c hc hce
    exact ⟨l, by rw [hhdr, if_neg hnot, hl], hal⟩

theorem Ended.freeBlock {b : Nat} {h : Hdr} (E : g.Ended) (I : g.Inv e) (hu : g.Used b h)
    (hapart : quickIndex h.size = none → g.Apart b h)
    (hflush : ∀ i, quickIndex h.size = some i → (g.quick i).length = QUICK_LIST_MAX →
      g.Flushable i ∧ ∀ c ∈ g.quick i, c + (32 + 16 * i) = g.globalEnd →
        g.globalEnd ∉ g.quick i ∧ ∃ k, g.hdr g.globalEnd = some k ∧ k.alloc = true) :
    (g.freeBlock b).Ended := by
  unfold Pool.freeBlock
  rw [sizeOf_of_hdr hu.1]
  cases hq : quickIndex h.size with
  | none => exact E.freeMain I hu (hapart hq)
  | some i =>
    obtain ⟨hi, hsz⟩ := quickIndex_some.mp hq
    dsimp only
    split
    · obtain ⟨h1, h2⟩ := hflush i hq ‹_›
      exact E.flush I hi hu hsz h1 h2
    · exact E.imp fun _ L => ⟨L.hdr, L.ends⟩

theorem initial_ended (errno growCalls : Nat) : (initial e errno growCalls).Ended :=
  ⟨⟨4080, false, false⟩, if_pos rfl, rfl⟩

end Pool

/-! ## What is seen of it -/

section Conditions

variable (e : Env) (s : State)

/-- Once there is a page `globalEnd` is the last block: a block whose header tells that it ends
16 bytes before the end of the heap. -/
def EndRight : Prop := s.sf_mem_end ≠ e.sf_mem_start → IsLast e s s.globalEnd

/-- When nothing serves the request and the last block is allocated, one page is enough for it
or none comes. -/
def MallocKeepsEnd (n : Nat) : Prop :=
  ¬ Served e s (blockSize n) → ∀ b, IsLast e s b → AllocAt e s b → n ≤ 4088 ∨ ¬ CanGrow e s 0

/-- The last block is not merged into one before it: not into the free block that ends at `b`,
not into `b`, and not into a block of the quick list that is flushed. -/
structure FreeKeepsEnd (b : Nat) : Prop where
  before : quickIndex (sizeAt e s b) = none → IsLast e s b →
    ∀ a, IsBlock e s a → ¬ AllocAt e s a → a + sizeAt e s a ≠ b
  behind : quickIndex (sizeAt e s b) = none → IsLast e s (b + sizeAt e s b) →
    AllocAt e s (b + sizeAt e s b)
  flushed : ∀ i, quickIndex (sizeAt e s b) = some i →
    (s.sf_quick_lists i).length = QUICK_LIST_MAX → ∀ c ∈ quickBlocks s i,
      IsLast e s (c + (32 + 16 * i)) →
        AllocAt e s (c + (32 + 16 * i)) ∧ c + (32 + 16 * i) ∉ quickBlocks s i

end Conditions

/-- The calls that keep `globalEnd` right. They may rely on it, so it is not part of what is
asked of `sf_malloc`. -/
def KeepsEnd (e : Env) (s : Sys) : Op → Prop
  | .malloc n => n ≠ 0 → intNeg n = false → s.heap.sf_mem_end ≠ e.sf_mem_start →
      MallocKeepsEnd e s.heap n
  | .free p => FreeOk e s.heap (p - 16) ∧ FreeKeepsEnd e s.heap (p - 16)
  | .realloc _ _ => False
  | .write _ _ => True

namespace Tracks

variable {e : Env} {live : List Allocation} {s : State} {g : Pool} (T : Tracks e live s g)

include T

theorem endRight (E : g.Ended) : EndRight e s := fun _ => by
  rw [T.rep.globalEnd]
  exact (T.rep.isLast_iff T.inv.toSettling).mpr E

theorem mallocOk {n : Nat} (E : g.Ended)
    (hkeep : n ≠ 0 → intNeg n = false → MallocKeepsEnd e s n) : MallocOk e s n := by
  intro h0 hneg
  rw [if_neg T.initialised]
  intro hns
  have hlast := T.endRight E T.initialised
  exact ⟨hlast, fun hal => (hkeep h0 hneg hns _ hlast hal).imp_right .inl⟩

theorem grow_of_keeps {n : Nat} (E : g.Ended) (hkeep : MallocKeepsEnd e s n)
    (hU : g.Unserved (blockSize n)) {h : Hdr} (L : g.Last g.globalEnd h) (hal : h.alloc = true) :
    n ≤ 4088 ∨ g.canGrow e = false := by
  have hns : ¬ Served e s (blockSize n) := by
    rw [T.served_iff, not_not]
    exact hU
  have hlast := T.endRight E T.initialised
  have hcase := hkeep hns _ hlast (by rw [T.rep.globalEnd]; exact (T.rep.allocAt_iff L.hdr).mpr hal)
  rwa [T.canGrow_iff, Bool.not_eq_true] at hcase

theorem apart {b : Nat} {h : Hdr} (hb : g.hdr b = some h) (hq : quickIndex h.size = none)
    (hkeep : FreeKeepsEnd e s b) (E : g.Ended) : g.Apart b h := by
  have R := T.rep
  have hsize := R.sizeAt_eq hb
  have hlast := T.endRight E T.initialised
  rw [R.globalEnd] at hlast
  refine ⟨fun hgb a k ha hal => ?_, fun hgb k hk => ?_⟩
  · have h1 := hkeep.before (by rw [hsize]; exact hq) (hgb ▸ hlast) a
      ((R.isBlock_iff T.inv.toSettling).mpr ⟨k, ha⟩) ((R.not_allocAt ha).mpr hal)
    rwa [R.sizeAt_eq ha] at h1
  · have h1 := hkeep.behind (by rw [hsize]; exact hq) (by rw [hsize, ← hgb]; exact hlast)
    rw [hsize, ← hgb] at h1
    exact (R.allocAt_iff hk).mp h1

theorem flush_apart {b i : Nat} {h : Hdr} (hu : g.Used b h) (hok : FreeOk e s b)
    (hkeep : FreeKeepsEnd e s b) (E : g.Ended) (hq : quickIndex h.size = some i)
    (hlen : (g.quick i).length = QUICK_LIST_MAX) :
    g.Flushable i ∧ ∀ c ∈ g.quick i, c + (32 + 16 * i) = g.globalEnd →
      g.globalEnd ∉ g.quick i ∧ ∃ k, g.hdr g.globalEnd = some k ∧ k.alloc = true := by
  have R := T.rep
  refine ⟨((T.freeable hu hok).flush i hq hlen).1, fun c hc hce => ?_⟩
  obtain ⟨hi, _⟩ := quickIndex_some.mp hq
  have hquick := R.quickBlocks_eq T.inv.idle hi
  have hlast := T.endRight E T.initialised
  rw [R.globalEnd] at hlast
  obtain ⟨hal, hnot⟩ := hkeep.flushed i (by rw [R.sizeAt_eq hu.1]; exact hq)
    (by rw [R.quick_length T.inv.idle hi]; exact hlen) c (by rw [hquick]; exact hc)
    (by rw [hce]; exact hlast)
  rw [hce] at hal hnot
  obtain ⟨k, L⟩ := E
  exact ⟨hquick ▸ hnot, k, L.hdr, (R.allocAt_iff L.hdr).mp hal⟩

end Tracks

/-! ## Runs -/

/-- What is known of every state of a run that keeps `globalEnd` right. -/
def Ending (e : Env) (s : Sys) : Prop := Start e s ∨ ∃ g, Tracks e s.live s.heap g ∧ g.Ended

theorem Ending.mallocOk {e : Env} {s s' : Sys} {n r : Nat} (h : Ending e s)
    (hkeep : KeepsEnd e s (.malloc n)) (hret : Returns e s.heap (.malloc n) r s'.heap) :
    MallocOk e s.heap n := by
  rcases h with hS | ⟨g, T, E⟩
  · intro h0 hneg
    rw [if_pos hS.empty]
    exact first_page_granted hS.empty h0 hneg hret
  · exact T.mallocOk E fun h0 hneg => hkeep h0 hneg T.initialised

theorem Ending.malloc {e : Env} {s s' : Sys} {n r : Nat} (h : Ending e s) (hvalid : n < 2 ^ 64)
    (hkeep : KeepsEnd e s (.malloc n)) (hret : Returns e s.heap (.malloc n) r s'.heap)
    (hlive : s'.live = Op.after s.live r (.malloc n)) : Ending e s' := by
  have hok := h.mallocOk hkeep hret
  refine (malloc_pool (Q := Pool.Ended) h hvalid hok hret hlive (fun T E hm => ?_)
    fun T hm => ?_).imp_right
      fun ⟨g', T', E'⟩ => ⟨_, T', E'.imp fun _ L => ⟨L.hdr, L.ends⟩⟩
  · exact E.malloc T.inv (fun h0 hneg hU _ L hal =>
      T.grow_of_keeps E (hkeep h0 hneg T.initialised) hU L hal) hm
  · refine (Pool.initial_ended _ _).malloc T.inv (fun _ _ _ h L hal => ?_) hm
    -- the first page is a free block
    rw [Option.some.inj (L.hdr.symm.trans (if_pos rfl))] at hal
    cases hal

theorem Ending.step {e : Env} {s s' : Sys} {op : Op} (h : Ending e s)
    (hstep : Step e (KeepsEnd e) s op s') : Ending e s' := by
  obtain ⟨hvalid, hcond, r, hret, hlive⟩ := hstep
  cases op with
  | malloc n => exact h.malloc hvalid hcond hret hlive
  | realloc p n => exact hcond.elim
  | free p =>
    obtain ⟨hok, hkeep⟩ := hcond
    rcases h with hS | ⟨g, T, E⟩
    · obtain ⟨x, hx, _⟩ := hvalid
      rw [hS.none_live] at hx
      cases hx
    · obtain ⟨b, k, rfl, hu, T'⟩ := T.free_to hvalid hok hret
      have hok' : FreeOk e s.heap (nextOf b - 16) := hok
      have hkeep' : FreeKeepsEnd e s.heap (nextOf b - 16) := hkeep
      rw [show nextOf b - 16 = b from Nat.add_sub_cancel b 16] at hok' hkeep'
      obtain ⟨l, L⟩ := E.freeBlock T.inv hu (fun hq => T.apart hu.1 hq hkeep' E)
        fun i hq hlen => T.flush_apart hu hok' hkeep' E hq hlen
      exact .inr ⟨{ g.freeBlock b with touched := [] }, hlive ▸ T', l, L.hdr, L.ends⟩
  | write addr v =>
    rcases h with hS | ⟨g, T, E⟩
    · obtain ⟨_, x, hx, _⟩ := hvalid
      rw [hS.none_live] at hx
      cases hx
    · exact .inr ⟨g, by rw [hlive]; exact T.write hvalid.2 hret, E⟩

theorem Reached.ending {e : Env} {s : Sys} (h : Reached e (KeepsEnd e) s) : Ending e s :=
  h.invariant (fun _ hS => .inl hS) fun _ _ _ hs hstep => hs.step hstep

/-- In a run that keeps it right `globalEnd` is the last block in every state. -/
theorem end_of_kept {e : Env} {s : Sys} (h : Reached e (KeepsEnd e) s) : EndRight e s.heap := by
  rcases h.ending with hS | ⟨g, T, E⟩
  · exact fun hpages => absurd hS.empty hpages
  · exact T.endRight E

/-- After `malloc(24)` it is the block behind. -/
theorem end_of_kept_sample : ∃ s : Sys, s.live = [⟨0x100010, 24⟩] ∧
    s.heap.sf_mem_end ≠ sampleEnv.sf_mem_start ∧ EndRight sampleEnv s.heap := by
  have hrun : Ends (sf_malloc sampleEnv 1 24) sample.heap fun p t =>
      p = 0x100010 ∧ t.sf_mem_end ≠ sampleEnv.sf_mem_start := by
    decide +kernel
  obtain ⟨_, t, ht, rfl, hpages⟩ := hrun
  refine ⟨⟨t, [⟨0x100010, 24⟩]⟩, rfl, hpages,
    end_of_kept (.step (i := .malloc 24) (sample_reached _) ?_)⟩
  exact ⟨by decide, fun _ _ hpages => absurd rfl hpages, _, ⟨1, ht⟩, rfl⟩

/-- A block is freed that has only the last block behind it. The two become one block, and
`globalEnd` is an address inside it. -/
theorem merge_forgets_end : ¬ ∀ (e : Env) (s : Sys),
    Reached e (fun _ op => op.MallocFree) s → EndRight e s.heap := by
  intro hall
  have hrun : ∃ s ∈ sample.exec sampleEnv 1 [.malloc 3000, .free 0x100010],
      s.heap.sf_mem_end = 0x101000 ∧ s.heap.globalEnd = 0x100bc0 ∧
        sizeAt sampleEnv s.heap 0x100000 = 4080 := by
    decide +kernel
  obtain ⟨s, hs, hend, hglobal, hsize⟩ := hrun
  have hfirst : ∀ b, IsBlock sampleEnv s.heap b → b = 0x100000 := fun b hb => by
    induction hb with
    | first _ => rfl
    | @next b _ hlt ih =>
      rw [ih, hsize, hend] at hlt
      omega
  have hlast := hall sampleEnv s ((sample_reached _).exec (by simp [Op.MallocFree]) hs)
    (by rw [hend]; decide)
  have hblock := hfirst _ hlast.1
  rw [hglobal] at hblock
  cases hblock

end StarterProjects.Sfmm
