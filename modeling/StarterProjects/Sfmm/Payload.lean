import StarterProjects.Sfmm.Run

/-!
# Payloads of live allocations

The last word of an allocated block is the `prev_footer` of the block behind it, and a
request may be large enough to use it. Three steps of the allocator write such a word
although the block in front of it is allocated: a block that is merged gets a
`prev_footer`, `sf_free` writes a footer for the block behind the freed one, and growth
writes the `prev_footer` of the new page. All other stores stay clear of live payloads.
-/

namespace StarterProjects.Sfmm

open Lib Lib.Exec

namespace Pool

variable {e : Env} {g g' : Pool} {x : Nat}

theorem SameUsed.inPayload (h : SameUsed g g') (hx : g.InPayload x) : g'.InPayload x := by
  obtain ⟨a, k, hu, h1⟩ := hx
  exact ⟨a, k, (h a k).mpr hu, h1⟩

theorem InPayload.still (hx : g.InPayload x) (S : g.Shape e) (h8 : x % 8 = 0) : Still e g x := by
  obtain ⟨a, h, hu, h1, h2⟩ := id hx
  have h3 := S.inside hu.1
  unfold nextOf at h1
  refine ⟨h8, by omega, by omega, hx.not_header S, fun hb hal => ?_, hx.not_quick S⟩
  have h4 := hx.apart S hb (not_used_of_free hal)
  omega

/-! ## `sf_malloc` -/

/-- A request that is served from the lists writes no payload. -/
theorem serve_touched (I : g.Inv e) {m p : Nat} {stale : Bool} (h0 : 0 < m) (hx : g.InPayload x)
    (hs : g.serve m stale = some (p, g')) (h : x ∈ g'.touched) : x ∈ g.touched := by
  unfold Pool.serve at hs
  split at hs
  · cases hs
    exact h
  · split at hs
    · rename_i a hf
      cases hs
      obtain ⟨⟨i, hi, hm⟩, hle⟩ := fit_some hf
      obtain ⟨k, ha, hal, _⟩ := I.free_mem hi hm
      have h1 := hx.apart I.toShape ha (not_used_of_free hal)
      rw [sizeOf_of_hdr ha] at hle
      unfold Pool.place at h
      rw [sizeOf_of_hdr ha] at h
      split at h
      · change x ∈ (a + g.sizeOf a) :: (a + m) :: (a + m + 8) :: g.touched at h
        rw [sizeOf_of_hdr ha] at h
        have h2 : x ≠ a + k.size ∧ x ≠ a + m ∧ x ≠ a + m + 8 := by omega
        simpa only [List.mem_cons, h2.1, h2.2.1, h2.2.2, false_or] using h
      · rw [exact_eq ha] at h
        exact h
    · cases hs

/-- Growth writes the word in front of a free last block, if it gets a page, and the
last word of an allocated one. -/
theorem grow_touched (I : g.Inv e) {size : Nat} (hG : g.Growable e size)
    (hneg : intNeg size = false) (hx : g.InPayload x)
    (hend : ∀ h, g.Last g.globalEnd h →
      if h.alloc then x ≠ g.globalEnd + h.size else g.canGrow e = true → x ≠ g.globalEnd)
    (h : x ∈ (g.grow e size).2.touched) : x ∈ g.touched := by
  obtain ⟨k, L, hone⟩ := hG
  have S := I.toShape
  have h1 := S.inside L.hdr
  have hx' := hend k L
  obtain ⟨m, hm⟩ : ∃ m, m = g.globalEnd + k.size := ⟨_, rfl⟩
  obtain ⟨b, l, hu, _, h2⟩ := id hx
  have h3 := L.above S hu.1
  cases hal : k.alloc with
  | false =>
    rw [hal, if_neg Bool.false_ne_true] at hx'
    have h4 := hx.apart S L.hdr (not_used_of_free hal)
    have hle : x ≠ m ∧ x ≠ m + 8 := by omega
    have hfirst : x ∈ ((g.spoil (m + 8)).note m k.size).touched → x ∈ g.touched := by
      simp only [note_touched, spoil_touched, List.mem_cons, hle.1, hle.2, false_or, imp_self]
    have hcg : ((g.spoil (m + 8)).note m k.size).canGrow e = g.canGrow e := rfl
    obtain ⟨g₀, hg₀⟩ : ∃ g₀, g₀ = (g.spoil (m + 8)).note m k.size := ⟨_, rfl⟩
    rw [← hg₀] at hfirst hcg
    -- once there is a page, the block in front reaches the word at most by its end
    rcases grow_merged (e := e) size (P := fun g₁ =>
        (g₁ = g₀ ∨ g.canGrow e = true) ∧ (x ∈ g₁.touched → x ∈ g.touched)) S L hal hm
      ⟨.inl hg₀.symm, by rw [← hg₀]; exact hfirst⟩
      (fun g₁ hP Ft hc _ => by
        have hc₀ : g.canGrow e = true := hP.1.elim (fun he => by rw [← hcg, ← he]; exact hc) id
        obtain ⟨l, L₁, _, h5⟩ := Ft.tail
        refine ⟨.inr hc₀, fun hm₁ => hP.2 ?_⟩
        change x ∈ (g.globalEnd + (g₁.grown.sizeOf g.globalEnd + PAGE_SZ)) :: g.globalEnd ::
          (m + PAGE_SZ) :: (m + 8) :: g₁.touched at hm₁
        have h6 := hx' hc₀
        have h7 : x ≠ g.globalEnd + (g₁.grown.sizeOf g.globalEnd + PAGE_SZ) ∧ x ≠ m + PAGE_SZ := by
          unfold PAGE_SZ
          omega
        simpa only [List.mem_cons, h6, h7.1, h7.2, hle.2, false_or] using hm₁)
      with ⟨_, hP, _⟩ | ⟨_, g₁, hP, _, _, _, he⟩
    · exact hP.2 h
    · rw [he] at h
      exact hP.2 h
  | true =>
    rw [hal, if_pos rfl] at hx'
    have hle : x ≠ m ∧ x ≠ m + 8 ∧ x ≠ m + PAGE_SZ := by
      unfold PAGE_SZ
      omega
    rcases grow_behind (e := e) L.hdr hal hm hneg (Growable.one (hone hal)) with
      ⟨_, he⟩ | ⟨_, _, he⟩ | ⟨_, _, he⟩ <;> rw [he] at h
    · change x ∈ m :: (m + 8) :: g.touched at h
      simpa only [List.mem_cons, hle.1, hle.2.1, false_or] using h
    all_goals
      change x ∈ (m + PAGE_SZ) :: m :: (m + 8) :: g.touched at h
      simpa only [List.mem_cons, hle.1, hle.2.1, hle.2.2, false_or] using h

theorem malloc_touched (I : g.Inv e) {size p : Nat} {stale : Bool}
    (hG : size ≠ 0 → intNeg size = false → g.Unserved (blockSize size) → g.Growable e size)
    (hm : g.malloc e size stale = some (p, g')) (hx : g.InPayload x)
    (hend : size ≠ 0 → intNeg size = false → g.Unserved (blockSize size) →
      ∀ h, g.Last g.globalEnd h →
        if h.alloc then x ≠ g.globalEnd + h.size else g.canGrow e = true → x ≠ g.globalEnd)
    (h : x ∈ g'.touched) : x ∈ g.touched := by
  have hpos : 0 < blockSize size := by
    have := (blockSize_spec size).1
    omega
  unfold Pool.malloc at hm
  split at hm
  · cases hm
    exact h
  · rename_i h0
    split at hm
    · cases hm
      exact h
    · rename_i hneg
      rw [Bool.not_eq_true] at hneg
      cases hs : g.serve (blockSize size) stale with
      | some q =>
        rw [hs] at hm
        cases hm
        exact serve_touched I hpos hx hs h
      | none =>
        rw [hs] at hm
        have hU := (serve_none stale).mp hs
        have hG := hG h0 hneg hU
        have hend := hend h0 hneg hU
        obtain ⟨I₁, hused⟩ := I.grow hG hneg
        dsimp only at hm
        split at hm
        · exact grow_touched I hG hneg hx hend (serve_touched I₁ hpos (hused.inPayload hx) hm h)
        · cases hm
          exact grow_touched I hG hneg hx hend h

/-! ## `sf_free` -/

/-- A joined block writes its `prev_footer` and its footer. -/
theorem coalesce_touched {pend : List Nat} {m : Nat} {h : Hdr} {past : Option Nat}
    (I : g.Settling e pend) (hm : g.hdr m = some h) (hal : h.alloc = false)
    (hpast : ∀ p, past = some p → ∃ k, g.hdr p = some k ∧ k.alloc = false ∧ p + k.size = m)
    (hx : g.InPayload x)
    (hstart : past ≠ none ∨ g.freeAfter m ≠ none → x ≠ past.getD m)
    (ht : x ∈ (g.coalesce m past (g.freeAfter m)).touched) : x ∈ g.touched := by
  rcases I.joined hm hal hpast with ⟨rfl, hfa⟩ | ⟨g', b, size, drop, J⟩
  · rw [hfa] at ht
    exact ht
  · obtain ⟨l, hl, hlal, hend⟩ := J.ends
    have h1 := hx.apart I.toShape hl (not_used_of_free hlal)
    have h2 := I.inside hl
    have hne : x ≠ b + size := by omega
    have hb : x ≠ b := by
      rw [J.start]
      refine hstart ?_
      by_contra hc
      rw [not_or, not_not, not_not] at hc
      -- a block that is joined with no other is no join
      have h3 := J.eq
      have h4 := congrArg Pool.touched h3
      rw [hc.1, hc.2] at h4
      change g.touched = (b + size) :: b :: g'.touched at h4
      rw [J.touched] at h4
      have h5 := congrArg List.length h4
      simp only [List.length_cons] at h5
      omega
    rw [J.eq] at ht
    change x ∈ (b + size) :: b :: g'.touched at ht
    rw [J.touched] at ht
    simpa only [List.mem_cons, hne, hb, false_or] using ht

section Free

variable {b : Nat} {h : Hdr} (I : g.Inv e) (hu : g.Used b h)

include I hu

/-- Releasing a block writes the last word of an allocated block behind it. -/
theorem release_touched (hx : g.InPayload x) (hb : x ≤ b ∨ b + h.size < x)
    (hbehind : ∀ k, g.hdr (b + h.size) = some k → k.alloc = true → x ≠ b + h.size + k.size)
    (ht : x ∈ (g.release b).touched) : x ∈ g.touched := by
  have S := I.toShape
  have h1 := S.inside hu.1
  have hne : x ≠ b + h.size := by omega
  rw [Pool.release, hu.1] at ht
  change x ∈ (b + h.size) :: (g.clearNext (b + h.size)).touched at ht
  have ht := (List.mem_cons.mp ht).resolve_left hne
  unfold Pool.clearNext at ht
  split at ht
  · rename_i k hk
    split at ht
    · exact (List.mem_cons.mp ht).resolve_left (hbehind k hk ‹_›)
    · rename_i hal
      rw [Bool.not_eq_true] at hal
      have h2 := hx.apart S hk (not_used_of_free hal)
      have h3 := S.inside hk
      exact (List.mem_cons.mp ht).resolve_left (by omega)
  · -- the block in hand is the last one
    rename_i hnone
    obtain ⟨a, k, hua, h2, h3⟩ := hx
    have h4 := S.cases_apart hua.1 hu.1
    have hend := (I.tiles.next (sizes_of_hdr hu.1)).resolve_right fun hc => by
      obtain ⟨l, hl⟩ := hc
      obtain ⟨k, hk, _⟩ := sizes_some.mp hl
      rw [hnone] at hk
      cases hk
    have h5 := S.inside hua.1
    unfold nextOf at h2
    have h6 : x ≠ b + h.size + 8 := by omega
    change x ∈ (b + h.size) :: (b + h.size + 8) :: g.touched at ht
    simpa only [List.mem_cons, hne, h6, false_or] using ht

end Free

/-- The word `x` belongs to the payload of a block in use other than `b`. -/
def OtherPayload (g : Pool) (b x : Nat) : Prop :=
  ∃ a h, a ≠ b ∧ g.Used a h ∧ nextOf a ≤ x ∧ x ≤ a + h.size

theorem OtherPayload.inPayload {b : Nat} (hx : g.OtherPayload b x) : g.InPayload x :=
  hx.imp fun _ h => h.imp fun _ h => h.2

theorem Takes.inPayload {b : Nat} (h : Takes g g' b) (hx : g.OtherPayload b x) :
    g'.InPayload x := by
  obtain ⟨a, k, hab, hu, h1, h2⟩ := hx
  obtain ⟨l, hl, hsz⟩ := (h.others a k.size hab).mpr ⟨k, hu, rfl⟩
  exact ⟨a, l, hl, h1, by omega⟩

theorem OtherPayload.apart {b : Nat} {h : Hdr} (hx : g.OtherPayload b x) (S : g.Shape e)
    (hb : g.hdr b = some h) : x ≤ b ∨ b + h.size < x := by
  obtain ⟨a, k, hab, hu, h1, h2⟩ := hx
  have h3 := (S.cases_apart hu.1 hb).resolve_left hab
  unfold nextOf at h1
  omega

section Free

variable {b : Nat} {h : Hdr} (I : g.Inv e) (hu : g.Used b h) (hx : g.OtherPayload b x)

include I hu hx

theorem freeMain_touched
    (hbehind : ∀ k, g.hdr (b + h.size) = some k → k.alloc = true → x ≠ b + h.size + k.size)
    (hnext : ∀ k, g.hdr (b + h.size) = some k → k.alloc = false → x ≠ b)
    (hpast : ∀ p k, g.hdr p = some k → k.alloc = false → p + k.size = b → x ≠ p)
    (ht : x ∈ (g.freeMain b).touched) : x ∈ g.touched := by
  have S := I.toShape
  have hhdr := release_hdr hu.1
  have h1 := S.inside hu.1
  have hb : (g.release b).hdr b = some { h with alloc := false } := by rw [hhdr, if_pos rfl]
  have hbefore : ∀ p, g.freeBefore b = some p →
      ∃ k, (g.release b).hdr p = some k ∧ k.alloc = false ∧ p + k.size = b := by
    intro p hp
    obtain ⟨k, hk, -, hal, hpb⟩ := release_before S hu.1 hp
    exact ⟨k, hk, hal, hpb⟩
  refine release_touched I hu hx.inPayload (hx.apart S hu.1) hbehind
    (coalesce_touched (I.release hu) hb rfl hbefore ((release_takes hu).inPayload hx)
      (fun hc => ?_) ht)
  cases hp : g.freeBefore b with
  | some p =>
    obtain ⟨k, hk, hal, hpb⟩ := freeBefore_some hp
    exact hpast p k hk hal hpb
  | none =>
    rw [hp] at hc
    obtain ⟨n, hn⟩ := Option.ne_none_iff_exists'.mp (hc.resolve_left fun h => h rfl)
    obtain ⟨rfl, k, hk, hal⟩ := freeAfter_some hn
    rw [sizeOf_of_hdr hb] at hk
    dsimp only at hk
    rw [hhdr, if_neg (by omega), if_pos rfl] at hk
    obtain ⟨k', hk', rfl⟩ := Option.map_eq_some_iff.mp hk
    exact hnext k' hk' hal

end Free

theorem flushRun_touched {n : Nat} : ∀ {rest : List Nat} {g : Pool}, Flushing e g n rest →
    g.InPayload x → (∀ m ∈ rest, ∀ k, g.hdr (m + n) = some k → k.alloc = false → x ≠ m) →
      x ∈ (rest.foldl flushOne g).touched → x ∈ g.touched
  | [], _, _, _, _, h => h
  | m :: rest, g, F, hx, hne, h => by
    have hm := F.hdr m List.mem_cons_self
    obtain ⟨size, _, hfree, _⟩ := flushOne_spec F
    have hsame : SameUsed g (g.flushOne m) := coalesce_sameUsed hm rfl nofun
    have h1 := flushRun_touched F.step (hsame.inPayload hx) (fun c hc k hk hal => ?_) h
    · refine coalesce_touched F.settling hm rfl (by rintro p hp; cases hp) hx (fun hc => ?_) h1
      obtain ⟨c, hc⟩ := Option.ne_none_iff_exists'.mp (hc.resolve_left fun h => h rfl)
      obtain ⟨rfl, k, hk, hal⟩ := freeAfter_some hc
      rw [sizeOf_of_hdr hm] at hk
      exact hne m List.mem_cons_self k hk hal
    · -- what is free behind a block to come was free before
      rcases hfree _ k hk hal with ⟨h2, _⟩ | ⟨_, h2⟩
      · exact hne c (List.mem_cons_of_mem _ hc) _ (h2 ▸ hm) rfl
      · exact hne c (List.mem_cons_of_mem _ hc) k h2 hal

theorem flush_touched {b i : Nat} {h : Hdr} (I : g.Inv e) (hi : i < 10) (hu : g.Used b h)
    (hsz : h.size = 32 + 16 * i) (hF : g.Flushable i) (hx : g.OtherPayload b x)
    (hne : ∀ c ∈ g.quick i, (c + (32 + 16 * i) ∈ g.quick i ∨
      ∃ k, g.hdr (c + (32 + 16 * i)) = some k ∧ k.alloc = false) → x ≠ c)
    (ht : x ∈ (g.flush b i).touched) : x ∈ g.touched := by
  have h1 := flushRun_touched (flushStart_flushing I hi hu hsz hF)
    ((flushStart_takes I hi).inPayload hx) (fun c hc k hk hal => ?_) ht
  · rcases (flushStart_touched I hi x).mp h1 with h2 | h2
    · obtain ⟨c, hc, rfl⟩ := List.mem_map.mp h2
      obtain ⟨k, hk, _, hks⟩ := I.quick_mem hi hc
      have h3 := hx.inPayload.apart I.toShape hk (not_used_of_quick hi hc)
      omega
    · exact h2
  · rw [flushStart_hdr I hi] at hk
    refine hne c hc ?_
    split at hk
    · exact .inl ‹_›
    · exact .inr ⟨k, hk, hal⟩

/-- The words that `sf_free` writes although they belong to live payloads. -/
structure FreeClear (g : Pool) (b : Nat) (h : Hdr) (x : Nat) : Prop where
  behind : quickIndex h.size = none → ∀ k, g.hdr (b + h.size) = some k → k.alloc = true →
    x ≠ b + h.size + k.size
  next : quickIndex h.size = none → ∀ k, g.hdr (b + h.size) = some k → k.alloc = false → x ≠ b
  past : quickIndex h.size = none → ∀ p k, g.hdr p = some k → k.alloc = false →
    p + k.size = b → x ≠ p
  flush : ∀ i, quickIndex h.size = some i → (g.quick i).length = QUICK_LIST_MAX →
    ∀ c ∈ g.quick i, (c + (32 + 16 * i) ∈ g.quick i ∨
      ∃ k, g.hdr (c + (32 + 16 * i)) = some k ∧ k.alloc = false) → x ≠ c

theorem freeBlock_touched {b : Nat} {h : Hdr} (I : g.Inv e) (hu : g.Used b h)
    (hF : ∀ i, quickIndex h.size = some i → (g.quick i).length = QUICK_LIST_MAX → g.Flushable i)
    (hx : g.OtherPayload b x) (hc : g.FreeClear b h x) (ht : x ∈ (g.freeBlock b).touched) :
    x ∈ g.touched := by
  unfold Pool.freeBlock at ht
  rw [sizeOf_of_hdr hu.1] at ht
  cases hq : quickIndex h.size with
  | none =>
    rw [hq] at ht
    exact freeMain_touched I hu hx (hc.behind hq) (hc.next hq) (hc.past hq) ht
  | some i =>
    obtain ⟨hi, hsz⟩ := quickIndex_some.mp hq
    rw [hq] at ht
    dsimp only at ht
    split at ht
    · exact flush_touched I hi hu hsz (hF i hq ‹_›) hx (hc.flush i hq ‹_›) ht
    · exact ht

end Pool

/-! ## Memory -/

/-- The word `x` holds bytes that a live allocation asked for. -/
def Held (live : List Allocation) (x : Nat) : Prop := ∃ a ∈ live, a.ptr ≤ x ∧ x < a.ptr + a.size

instance (live : List Allocation) (x : Nat) : Decidable (Held live x) :=
  inferInstanceAs (Decidable (∃ a ∈ live, a.ptr ≤ x ∧ x < a.ptr + a.size))

/-- A request that makes the heap grow: behind an allocated block, the word that becomes
the `prev_footer` of the page is not held; behind a free block that gets a page, its
`prev_footer` is not. -/
structure MallocSpares (e : Env) (s : Sys) : Prop where
  behind : AllocAt e s.heap s.heap.globalEnd → ¬ Held s.live (s.heap.sf_mem_end - 16)
  tail : ¬ AllocAt e s.heap s.heap.globalEnd → CanGrow e s.heap 0 → ¬ Held s.live s.heap.globalEnd

/-- A block that goes to the free lists: the last word of an allocated block behind it is
not held, nor is the `prev_footer` of the block it is merged to. When a full quick list
is flushed, the same of each block that is merged. -/
structure FreeSpares (e : Env) (s : Sys) (b : Nat) : Prop where
  behind : quickIndex (sizeAt e s.heap b) = none → ∀ c, c = b + sizeAt e s.heap b →
    IsBlock e s.heap c → AllocAt e s.heap c → ¬ Held s.live (c + sizeAt e s.heap c)
  next : quickIndex (sizeAt e s.heap b) = none → ∀ c, c = b + sizeAt e s.heap b →
    IsBlock e s.heap c → ¬ AllocAt e s.heap c → ¬ Held s.live b
  past : quickIndex (sizeAt e s.heap b) = none → ∀ p, IsBlock e s.heap p →
    ¬ AllocAt e s.heap p → p + sizeAt e s.heap p = b → ¬ Held s.live p
  flush : ∀ i, quickIndex (sizeAt e s.heap b) = some i →
    (s.heap.sf_quick_lists i).length = QUICK_LIST_MAX → ∀ c ∈ quickBlocks s.heap i,
      (c + (32 + 16 * i) ∈ quickBlocks s.heap i ∨
        IsBlock e s.heap (c + (32 + 16 * i)) ∧ ¬ AllocAt e s.heap (c + (32 + 16 * i))) →
      ¬ Held s.live c

/-- The calls of a sound run that write no word a live allocation asked for. -/
def Spares (e : Env) (s : Sys) (op : Op) : Prop :=
  Sound e s op ∧ match op with
    | .malloc n => n ≠ 0 → intNeg n = false → ¬ Served e s.heap (blockSize n) → MallocSpares e s
    | .free p => FreeSpares e s (p - 16)
    | .realloc _ _ | .write _ _ => True

namespace Tracks

variable {e : Env} {live : List Allocation} {s s' : State} {g : Pool} {x : Nat}
  (T : Tracks e live s g)

include T

theorem inPayload (h8 : x % 8 = 0) (hx : Held live x) : g.InPayload x := by
  obtain ⟨b, h, hu, h1, h2⟩ := T.write_word hx
  rw [Nat.div_mul_cancel (Nat.dvd_of_mod_eq_zero h8)] at h1 h2
  exact ⟨b, h, hu, h1, h2⟩

theorem otherPayload {a : Allocation} {b : Nat} (h8 : x % 8 = 0) (ha : a ∈ live)
    (hab : a.ptr ≠ nextOf b) (h1 : a.ptr ≤ x) (h2 : x < a.ptr + a.size) :
    g.OtherPayload b x := by
  obtain ⟨c, h, h3, hu, h4⟩ := T.table.held a ha
  have h5 := T.rep.shape.inside hu.1
  unfold nextOf at h3
  refine ⟨c, h, ?_, hu, by unfold nextOf; omega, by omega⟩
  rintro rfl
  exact hab h3

/-- The words of some of the allocations are spared. -/
theorem malloc_keeps {held : List Allocation} {n r : Nat} (hheld : ∀ a ∈ held, a ∈ live)
    (hn : n < 2 ^ 64) (hok : MallocOk e s n)
    (hsp : n ≠ 0 → intNeg n = false → ¬ Served e s (blockSize n) → MallocSpares e ⟨s, held⟩)
    (hret : Returns e s (.malloc n) r s') (h8 : x % 8 = 0) (hx : Held held x) :
    s'.mem x = s.mem x := by
  obtain ⟨stale, g', hm, R⟩ := T.malloc_step hn hok hret
  have hp := T.inPayload h8 (hx.imp fun a h => ⟨hheld a h.1, h.2⟩)
  refine R.kept (hp.still T.rep.shape h8) fun ht => ?_
  refine absurd (Pool.malloc_touched T.inv (T.growable_of_ok hok) hm hp ?_ ht)
    (by rw [T.untouched]; exact List.not_mem_nil)
  intro h0 hneg hU h L
  have hK := hsp h0 hneg (by rw [T.served_iff, not_not]; exact hU)
  have h1 := hK.behind
  have h2 := hK.tail
  dsimp only at h1 h2
  rw [T.rep.globalEnd, T.rep.allocAt_iff L.hdr] at h1 h2
  rw [T.rep.memEnd] at h1
  have h3 := L.ends
  split
  · rintro rfl
    exact h1 ‹_› (by rwa [show g.memEnd - 16 = g.globalEnd + h.size by omega])
  · rintro hc rfl
    exact h2 ‹_› (T.canGrow_iff.mpr hc) hx

theorem freeClear {b : Nat} {h : Hdr} (hu : g.Used b h) (hsp : FreeSpares e ⟨s, live⟩ b)
    (hx : Held live x) : g.FreeClear b h x := by
  have R := T.rep
  have hblock := fun a => R.isBlock_iff (b := a) T.inv.toSettling
  have hsz := R.sizeAt_eq hu.1
  have h1 := hsp.behind
  have h2 := hsp.next
  have h3 := hsp.past
  have h4 := hsp.flush
  dsimp only at h1 h2 h3 h4
  rw [hsz] at h1 h2 h3 h4
  refine ⟨fun hq k hk hal => ?_, fun hq k hk hal => ?_, fun hq p k hk hal hpb => ?_,
    fun i hq hlen c hc hcase => ?_⟩
  · rintro rfl
    have h5 := h1 hq _ rfl ((hblock _).mpr ⟨k, hk⟩) ((R.allocAt_iff hk).mpr hal)
    rw [R.sizeAt_eq hk] at h5
    exact h5 hx
  · rintro rfl
    exact h2 hq _ rfl ((hblock _).mpr ⟨k, hk⟩) ((R.not_allocAt hk).mpr hal) hx
  · rintro rfl
    exact h3 hq _ ((hblock _).mpr ⟨k, hk⟩) ((R.not_allocAt hk).mpr hal)
      (by rw [R.sizeAt_eq hk]; exact hpb) hx
  · rintro rfl
    obtain ⟨hi, _⟩ := quickIndex_some.mp hq
    have hquick := R.quickBlocks_eq T.inv.idle hi
    have h5 := h4 i hq (by rw [R.quick_length T.inv.idle hi]; exact hlen) x
      (by rw [hquick]; exact hc)
    refine h5 (hcase.imp (fun h => by rw [hquick]; exact h) fun hk => ?_) hx
    obtain ⟨k, hk, hal⟩ := hk
    exact ⟨(hblock _).mpr ⟨k, hk⟩, (R.not_allocAt hk).mpr hal⟩

theorem free_keeps {p r : Nat} {a : Allocation} (hp : Live live p) (hok : FreeOk e s (p - 16))
    (hsp : FreeSpares e ⟨s, live⟩ (p - 16)) (hret : Returns e s (.free p) r s') (h8 : x % 8 = 0)
    (ha : a ∈ live) (hap : a.ptr ≠ p) (h1 : a.ptr ≤ x) (h2 : x < a.ptr + a.size) :
    s'.mem x = s.mem x := by
  obtain ⟨b, h, rfl, hu, R⟩ := T.free_step hp hok hret
  rw [show nextOf b - 16 = b from Nat.add_sub_cancel b 16] at hok hsp
  have S := T.rep.shape
  have hx := T.otherPayload h8 ha hap h1 h2
  have hb := hx.apart S hu.1
  have hflush := fun i hq hlen => ((T.freeable hu hok).flush i hq hlen).1
  refine R.kept ⟨hx.inPayload.still S h8, ?_, fun _ => hb, fun i hq hlen c hc => ?_⟩ fun ht => ?_
  · have h3 := S.inside hu.1
    unfold nextOf
    omega
  · obtain ⟨hi, _⟩ := quickIndex_some.mp hq
    obtain ⟨k, hk, _, hks⟩ := S.quick_mem hi hc
    have h3 := hx.inPayload.apart S hk (Pool.not_used_of_quick hi hc)
    omega
  · exact absurd (Pool.freeBlock_touched T.inv hu hflush hx (T.freeClear hu hsp ⟨a, ha, h1, h2⟩) ht)
      (by rw [T.untouched]; exact List.not_mem_nil)

end Tracks

theorem byteAt_congr {mem mem' : Nat → Nat} {a : Nat} (h : mem' (a / 8 * 8) = mem (a / 8 * 8)) :
    byteAt mem' a = byteAt mem a := by
  unfold byteAt
  rw [h]

/-- A call of a sound run that spares the held words leaves the requested bytes of every
other live allocation as they are. -/
theorem payload_kept {e : Env} {s s' : Sys} {op : Op} {a : Allocation} {i : Nat}
    (h : Reached e (Sound e) s) (hstep : Step e (Spares e) s op s') (hop : op.MallocFree)
    (ha : a ∈ s.live) (hfreed : op ≠ .free a.ptr) (hi : i < a.size) :
    byteAt s'.heap.mem (a.ptr + i) = byteAt s.heap.mem (a.ptr + i) := by
  obtain ⟨hvalid, ⟨hok, hsp⟩, r, hret, _⟩ := hstep
  rcases h.sane with hS | ⟨g, T⟩
  · rw [hS.none_live] at ha
    cases ha
  · obtain ⟨b, k, hptr, hu, _⟩ := T.table.held a ha
    have h1 := T.rep.shape.inside hu.1
    unfold nextOf at hptr
    have hlo : a.ptr ≤ (a.ptr + i) / 8 * 8 := by omega
    have hhi : (a.ptr + i) / 8 * 8 < a.ptr + a.size := by omega
    have h8 : (a.ptr + i) / 8 * 8 % 8 = 0 := by omega
    apply byteAt_congr
    cases op with
    | malloc n => exact T.malloc_keeps (fun _ h => h) hvalid hok hsp hret h8 ⟨a, ha, hlo, hhi⟩
    | free p =>
      exact T.free_keeps hvalid hok hsp hret h8 ha (fun hc => hfreed (by rw [hc])) hlo hhi
    | realloc p n => exact hop.elim
    | write addr v => exact hop.elim

/-- After `malloc(24)`, a second request keeps the 24 bytes. -/
theorem payload_kept_sample : ∃ s s' : Sys, s.live = [⟨0x100010, 24⟩] ∧
    s'.live = [⟨0x100030, 100⟩, ⟨0x100010, 24⟩] ∧
      ∀ i < 24, byteAt s'.heap.mem (0x100010 + i) = byteAt s.heap.mem (0x100010 + i) := by
  have hrun : Ends (sf_malloc sampleEnv 1 24) sample.heap fun p t => p = 0x100010 ∧
      t.sf_mem_end = 0x101000 ∧ sizeAt sampleEnv t 0x100000 = 32 ∧
        ¬ AllocAt sampleEnv t 0x100020 ∧ sizeAt sampleEnv t 0x100020 = 4048 ∧
          Ends (sf_malloc sampleEnv 1 100) t fun q _ => q = 0x100030 := by
    decide +kernel
  obtain ⟨_, t, ht, rfl, hend, h1, h2, h3, _, t', ht', rfl⟩ := hrun
  have hreach : Reached sampleEnv (Sound sampleEnv) ⟨t, [⟨0x100010, 24⟩]⟩ :=
    .step (i := .malloc 24) (sample_reached _) ⟨by decide, sample_mallocOk 24, _, ⟨1, ht⟩, rfl⟩
  have hfirst : IsBlock sampleEnv t 0x100000 := .first (by rw [hend]; decide)
  have hrest : IsBlock sampleEnv t 0x100020 := by
    have h4 := hfirst.next (by rw [h1, hend]; decide)
    rwa [h1] at h4
  -- the rest of the page serves the second request
  have hserved : Served sampleEnv t (blockSize 100) :=
    .inr ⟨_, hrest, h2, by rw [h3]; decide⟩
  have hok : MallocOk sampleEnv t 100 := by
    intro _ _
    rw [if_neg (by rw [hend]; decide)]
    exact fun hc => absurd hserved hc
  have hstep : Step sampleEnv (Spares sampleEnv) ⟨t, [⟨0x100010, 24⟩]⟩ (.malloc 100)
      ⟨t', [⟨0x100030, 100⟩, ⟨0x100010, 24⟩]⟩ :=
    ⟨(by decide : 100 < 2 ^ 64), ⟨hok, fun _ _ hc => absurd hserved hc⟩, _, ⟨1, ht'⟩, rfl⟩
  refine ⟨⟨t, _⟩, ⟨t', _⟩, rfl, rfl, fun i hi => ?_⟩
  exact payload_kept (a := ⟨0x100010, 24⟩) hreach hstep trivial List.mem_cons_self nofun hi

/-- Two blocks of 208 bytes whose payloads are used to the end. When the first is freed,
the second gets a footer, over its last eight bytes. -/
theorem free_writes_payload : ¬ ∀ (e : Env) (s s' : Sys) (op : Op) (a : Allocation) (i : Nat),
    Reached e (fun _ op => ∀ p n, op ≠ .realloc p n) s → Step e (fun _ _ => True) s op s' →
      op.MallocFree → a ∈ s.live → op ≠ .free a.ptr → i < a.size →
        byteAt s'.heap.mem (a.ptr + i) = byteAt s.heap.mem (a.ptr + i) := by
  intro hall
  have hrun : ∃ s ∈ sample.exec sampleEnv 1 [.malloc 200, .malloc 200, .write 0x1001a7 0],
      s.live = [⟨0x1000e0, 200⟩, ⟨0x100010, 200⟩] ∧
        Ends (sf_free sampleEnv 0x100010) s.heap fun _ t =>
          byteAt t.mem 0x1001a7 ≠ byteAt s.heap.mem 0x1001a7 := by
    decide +kernel
  obtain ⟨s, hs, hlive, _, t, ht, hne⟩ := hrun
  refine hne (hall sampleEnv s ⟨t, _⟩ (.free 0x100010) ⟨0x1000e0, 200⟩ 199
    ((sample_reached _).exec (by simp) hs) ⟨?_, trivial, NULL, ⟨1, ?_⟩, rfl⟩ trivial ?_ (by simp)
    (by decide))
  · rw [hlive]
    exact ⟨_, List.mem_cons_of_mem _ List.mem_cons_self, rfl⟩
  · change (sf_free sampleEnv 0x100010 >>= fun _ => pure NULL) s.heap = _
    rw [bind_ok ht]
    rfl
  · rw [hlive]
    exact List.mem_cons_self

end StarterProjects.Sfmm
