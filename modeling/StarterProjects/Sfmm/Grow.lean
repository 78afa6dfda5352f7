import StarterProjects.Sfmm.Serve

/-!
# Growing the heap

The growth loop of `sf_malloc` behind a last block that `globalEnd` points to.
Behind a free block every page is merged into it. Behind an allocated block the
first page becomes a block of its own.
-/

namespace StarterProjects.Sfmm

open Lib Lib.Exec

namespace Pool

def canGrow (e : Env) (g : Pool) : Bool :=
  e.grants g.growCalls && decide (g.memEnd + PAGE_SZ ≤ e.heapLimit)

/-- One more page. -/
@[simps] def grown (g : Pool) : Pool :=
  { g with memEnd := g.memEnd + PAGE_SZ, growCalls := g.growCalls + 1 }

/-- A request for a page that was refused. -/
@[simps] def refused (g : Pool) : Pool :=
  { g with errno := ENOMEM, growCalls := g.growCalls + 1 }

/-- The new page becomes a block at `m`. -/
def pageBehind (m : Nat) (g : Pool) : Pool :=
  (((g.setHdr m ⟨PAGE_SZ, false, false⟩).note (m + PAGE_SZ)
    (Hdr.mk PAGE_SZ false false).word)).put m PAGE_SZ

/-- The new page is merged into the free block at `t`; `m` is where that block
ended before the heap grew. -/
def pageMerged (t m : Nat) (g : Pool) : Pool :=
  ((((g.spoil (m + 8)).spoil (m + PAGE_SZ)).erase m).erase t).makeFree t (g.sizeOf t + PAGE_SZ) []

/-- The growth loop; `false` means that no page was left. -/
def pages (e : Env) (page : Pool → Pool) : Nat → Nat → Pool → Bool × Pool
  | 0, _, g => (false, g)
  | fuel + 1, tempSize, g =>
      if intNeg tempSize then (true, g)
      else if g.canGrow e then pages e page fuel (sub64 tempSize PAGE_SZ) (page g.grown)
      else (false, g.refused)

/-- The growth part of `sf_malloc`. -/
def grow (e : Env) (g : Pool) (size : Nat) : Bool × Pool :=
  match g.hdr g.globalEnd with
  | some h =>
      let m := g.globalEnd + h.size
      if h.alloc then
        ((g.spoil (m + 8)).spoil m).pages e (pageBehind m) growBound size
      else
        ((g.spoil (m + 8)).note m h.size).pages e (pageMerged g.globalEnd m) growBound
          (sub64 size h.size)
  | none => (false, g)

theorem canGrow_limit {e : Env} {g : Pool} (h : g.canGrow e = true) :
    g.memEnd + PAGE_SZ ≤ e.heapLimit := by
  unfold canGrow at h
  rw [Bool.and_eq_true, decide_eq_true_eq] at h
  exact h.2

theorem Shape.grown {e : Env} {g : Pool} (S : g.Shape e) (h : g.canGrow e = true) :
    g.grown.Shape e :=
  { S with
    limit := canGrow_limit h
    pages := by
      have := S.pages
      simp only [grown_memEnd]
      omega
    end_aligned := by
      have := S.end_aligned
      simp only [grown_memEnd, PAGE_SZ]
      omega
    inside := by
      intro a k ha
      have := S.inside ha
      simp only [grown_memEnd]
      omega }

/-- The block at `t` is the last one. -/
structure Last (g : Pool) (t : Nat) (h : Hdr) : Prop where
  hdr : g.hdr t = some h
  ends : t + h.size + 16 = g.memEnd

theorem Last.above {e : Env} {g : Pool} {t : Nat} {h : Hdr} (L : g.Last t h) (S : g.Shape e)
    {b : Nat} {k : Hdr} (hb : g.hdr b = some k) : b ≤ t ∧ b + k.size ≤ t + h.size := by
  have h1 := S.inside hb
  have h2 := S.cases_apart hb L.hdr
  have h3 := L.ends
  rcases h2 with rfl | h2 | h2
  · have h4 := L.hdr
    rw [hb] at h4
    cases h4
    exact ⟨Nat.le_refl _, Nat.le_refl _⟩
  · omega
  · omega

/-- A free last block at `t`, the address `m` where it ended when the growth of
the heap began, and its size `T` at that time, which is noted there. -/
structure FreeTail (g : Pool) (t m T : Nat) : Prop where
  tail : ∃ h, g.Last t h ∧ h.alloc = false ∧ m ≤ t + h.size
  room : 32 ≤ T
  start : t + T = m
  aligned : m % 16 = 0
  known : g.known m = some T

theorem makeFree_hdr {g : Pool} {b size : Nat} {drop : List Nat} (x : Nat) :
    (g.makeFree b size drop).hdr x =
      if x = b then some ⟨size, false, true⟩ else if x ∈ drop then none else g.hdr x := rfl

theorem makeFree_known {g : Pool} {b size : Nat} {drop : List Nat} (x : Nat) :
    (g.makeFree b size drop).known x =
      if x = b + size then some (Hdr.mk size false true).word
      else if x = b then none else g.known x := rfl

theorem FreeTail.page {g : Pool} {t m T : Nat} (F : g.FreeTail t m T) :
    (pageMerged t m g.grown).FreeTail t m T ∧
      (pageMerged t m g.grown).sizeOf t = g.sizeOf t + PAGE_SZ := by
  obtain ⟨h, ⟨ht, hend⟩, hal, hle⟩ := F.tail
  have hsz : g.grown.sizeOf t = h.size := sizeOf_of_hdr ht
  have h0 := F.start
  have h1 := F.room
  have hP : PAGE_SZ = 4096 := rfl
  have hhdr : (pageMerged t m g.grown).hdr t = some ⟨h.size + PAGE_SZ, false, true⟩ := by
    rw [pageMerged, hsz, makeFree_hdr, if_pos rfl]
  refine ⟨⟨⟨_, ⟨hhdr, ?_⟩, rfl, by dsimp only; omega⟩, F.room, F.start, F.aligned, ?_⟩, ?_⟩
  · change t + (h.size + PAGE_SZ) + 16 = g.memEnd + PAGE_SZ
    omega
  · rw [pageMerged, hsz, makeFree_known, if_neg (by omega), if_neg (by omega)]
    simp only [erase_known, spoil_known]
    rw [if_neg (by omega), if_neg (by omega)]
    exact F.known
  · rw [sizeOf_of_hdr hhdr, sizeOf_of_hdr ht]

/-- A counter that is not negative is below `2 ^ 31`, and one turn lowers it. -/
theorem tempSize_turn {tempSize : Nat} (hneg : intNeg tempSize = false)
    (hlt : tempSize < 2 ^ 64) :
    sub64 tempSize PAGE_SZ < 2 ^ 64 ∧ (intNeg (sub64 tempSize PAGE_SZ) = true ∨
      sub64 tempSize PAGE_SZ % 2 ^ 32 / PAGE_SZ + 1 = tempSize % 2 ^ 32 / PAGE_SZ) := by
  unfold intNeg sub64 PAGE_SZ at *
  simp only [decide_eq_false_iff_not, decide_eq_true_eq] at *
  omega

/-- Enough turns for the growth loop. -/
def Turns (fuel tempSize : Nat) : Prop :=
  tempSize < 2 ^ 64 ∧ 0 < fuel ∧ (intNeg tempSize = true ∨ tempSize % 2 ^ 32 / PAGE_SZ + 2 ≤ fuel)

theorem Turns.growBound {tempSize : Nat} (h : tempSize < 2 ^ 64) : Turns growBound tempSize := by
  refine ⟨h, by decide, ?_⟩
  cases hn : intNeg tempSize with
  | true => exact .inl rfl
  | false =>
    right
    unfold intNeg at hn
    rw [decide_eq_false_iff_not] at hn
    unfold PAGE_SZ Sfmm.growBound
    omega

theorem Turns.next {fuel tempSize : Nat} (h : Turns (fuel + 1) tempSize)
    (hneg : intNeg tempSize = false) : Turns fuel (sub64 tempSize PAGE_SZ) := by
  obtain ⟨h1, h2, h3⟩ := h
  obtain ⟨h4, h5⟩ := tempSize_turn hneg h1
  have h6 := h3.resolve_left (by rw [hneg]; exact Bool.false_ne_true)
  have h7 : tempSize % 2 ^ 32 / PAGE_SZ + 1 ≤ fuel := Nat.le_of_succ_le_succ h6
  refine ⟨h4, Nat.lt_of_lt_of_le (Nat.succ_pos _) h7, h5.imp id fun h8 => ?_⟩
  rw [← h8] at h7
  exact h7

/-- Rule for the growth loop: what a page preserves holds at its end. -/
theorem pages_rule {e : Env} (page : Pool → Pool) {P : Nat → Pool → Prop}
    (hstep : ∀ tempSize g, P tempSize g → intNeg tempSize = false → g.canGrow e = true →
      P (sub64 tempSize PAGE_SZ) (page g.grown)) :
    ∀ {fuel tempSize : Nat} {g : Pool}, Turns fuel tempSize → P tempSize g →
      ((g.pages e page fuel tempSize).1 = true ∧
        ∃ n, intNeg n = true ∧ P n (g.pages e page fuel tempSize).2) ∨
      ((g.pages e page fuel tempSize).1 = false ∧
        ∃ n g', intNeg n = false ∧ P n g' ∧ g'.canGrow e = false ∧
          (g.pages e page fuel tempSize).2 = g'.refused)
  | 0, _, _, hT, _ => absurd hT.2.1 (Nat.lt_irrefl 0)
  | fuel + 1, tempSize, g, hT, hP => by
    rw [pages]
    cases hn : intNeg tempSize with
    | true => exact .inl ⟨rfl, tempSize, hn, hP⟩
    | false =>
      cases hc : g.canGrow e with
      | false => exact .inr ⟨rfl, tempSize, g, hn, hP, hc, rfl⟩
      | true => exact pages_rule page hstep (hT.next hn) (hstep tempSize g hP hn hc)

/-! ## What growth leads to -/

theorem sub64_sub64 {n a b : Nat} (h : a + b < 2 ^ 64) :
    sub64 (sub64 n a) b = sub64 n (a + b) := by
  unfold sub64
  omega

/-- The three ways in which growth behind an allocated block can go. -/
theorem grow_behind {e : Env} {g : Pool} {h : Hdr} {m size : Nat}
    (ht : g.hdr g.globalEnd = some h) (hal : h.alloc = true) (hm : m = g.globalEnd + h.size)
    (hneg : intNeg size = false)
    (hone : intNeg (sub64 size PAGE_SZ) = true ∨ g.canGrow e = false ∨ g.grown.canGrow e = false) :
    let g₁ := (g.spoil (m + 8)).spoil m
    (g.canGrow e = false ∧ g.grow e size = (false, g₁.refused)) ∨
    (g.canGrow e = true ∧ intNeg (sub64 size PAGE_SZ) = true ∧
      g.grow e size = (true, pageBehind m g₁.grown)) ∨
    (g.canGrow e = true ∧ intNeg (sub64 size PAGE_SZ) = false ∧
      g.grow e size = (false, (pageBehind m g₁.grown).refused)) := by
  intro g₁
  obtain ⟨fuel, hfuel⟩ : ∃ fuel, growBound = fuel + 1 + 1 := ⟨_, rfl⟩
  have hc1 : g₁.canGrow e = g.canGrow e := rfl
  have hc2 : (pageBehind m g₁.grown).canGrow e = g.grown.canGrow e := rfl
  have hgrow : g.grow e size = g₁.pages e (pageBehind m) growBound size := by
    rw [grow, ht]
    simp only [hal, if_true, ← hm]
    rfl
  rw [hgrow, hfuel, pages, hneg, hc1]
  cases hc : g.canGrow e with
  | false => exact .inl ⟨rfl, rfl⟩
  | true =>
    simp only [Bool.false_eq_true, if_false, if_true]
    rw [pages, hc2]
    cases hn : intNeg (sub64 size PAGE_SZ) with
    | true => exact .inr (.inl ⟨trivial, rfl, rfl⟩)
    | false =>
      rw [hn, hc] at hone
      have hc3 : g.grown.canGrow e = false := by simpa using hone
      rw [hc3]
      exact .inr (.inr ⟨trivial, rfl, rfl⟩)

/-- Rule for growth behind a free block. -/
theorem grow_merged {e : Env} {g : Pool} {h : Hdr} {m : Nat} (size : Nat) {P : Pool → Prop}
    (S : g.Shape e) (L : g.Last g.globalEnd h) (hal : h.alloc = false)
    (hm : m = g.globalEnd + h.size)
    (h0 : P ((g.spoil (m + 8)).note m h.size))
    (hstep : ∀ g', P g' → g'.FreeTail g.globalEnd m h.size → g'.canGrow e = true →
      intNeg (sub64 size (g'.sizeOf g.globalEnd)) = false →
      P (pageMerged g.globalEnd m g'.grown)) :
    ((g.grow e size).1 = true ∧ P (g.grow e size).2 ∧
      (g.grow e size).2.FreeTail g.globalEnd m h.size ∧
      intNeg (sub64 size ((g.grow e size).2.sizeOf g.globalEnd)) = true) ∨
    ((g.grow e size).1 = false ∧ ∃ g', P g' ∧ g'.FreeTail g.globalEnd m h.size ∧
      intNeg (sub64 size (g'.sizeOf g.globalEnd)) = false ∧
      g'.canGrow e = false ∧ (g.grow e size).2 = g'.refused) := by
  have h1 := S.inside L.hdr
  have h2 := S.lt_two_pow L.hdr
  have hgrow : g.grow e size = ((g.spoil (m + 8)).note m h.size).pages e
      (pageMerged g.globalEnd m) growBound (sub64 size h.size) := by
    rw [grow, L.hdr]
    simp only [hal, ← hm, Bool.false_eq_true, if_false]
  have F : ((g.spoil (m + 8)).note m h.size).FreeTail g.globalEnd m h.size :=
    ⟨⟨h, ⟨L.hdr, L.ends⟩, hal, by omega⟩, h1.2.2.1, hm.symm, by omega, by simp⟩
  rw [hgrow]
  have hT : Turns growBound (sub64 size h.size) := .growBound (Nat.mod_lt _ (by decide))
  have hinit : sub64 size h.size =
      sub64 size (((g.spoil (m + 8)).note m h.size).sizeOf g.globalEnd) := by
    rw [sizeOf_of_hdr (g := (g.spoil (m + 8)).note m h.size) (a := g.globalEnd) (h := h) L.hdr]
  have hturn : ∀ n g', (P g' ∧ g'.FreeTail g.globalEnd m h.size ∧ g'.memEnd ≤ e.heapLimit ∧
      n = sub64 size (g'.sizeOf g.globalEnd)) → intNeg n = false → g'.canGrow e = true →
      P (pageMerged g.globalEnd m g'.grown) ∧
      (pageMerged g.globalEnd m g'.grown).FreeTail g.globalEnd m h.size ∧
      (pageMerged g.globalEnd m g'.grown).memEnd ≤ e.heapLimit ∧
      sub64 n PAGE_SZ = sub64 size ((pageMerged g.globalEnd m g'.grown).sizeOf g.globalEnd) := by
    intro n g' hP hn hc
    obtain ⟨hP, hF, _, rfl⟩ := hP
    obtain ⟨h3, h4⟩ := hF.page
    have hlim := canGrow_limit hc
    refine ⟨hstep g' hP hF hc hn, h3, hlim, ?_⟩
    obtain ⟨k, L', _⟩ := hF.tail
    have h5 := L'.ends
    have h6 := e.limit_lt
    rw [h4, sub64_sub64]
    rw [sizeOf_of_hdr L'.hdr]
    omega
  rcases pages_rule (e := e) (pageMerged g.globalEnd m)
    (P := fun n g' => P g' ∧ g'.FreeTail g.globalEnd m h.size ∧ g'.memEnd ≤ e.heapLimit ∧
      n = sub64 size (g'.sizeOf g.globalEnd)) hturn hT ⟨h0, F, S.limit, hinit⟩ with
    ⟨hr, n, hn, hP, hF, _, rfl⟩ | ⟨hr, n, g', hn, ⟨hP, hF, _, rfl⟩, hc, he⟩
  · exact .inl ⟨hr, hP, hF, hn⟩
  · exact .inr ⟨hr, g', hP, hF, hn, hc, he⟩

end Pool

namespace Represents

variable {e : Env} {W : Nat → Prop} {m₀ : Nat → Nat} {s : State} {g : Pool}
  (R : Represents e W m₀ s g)

include R

/-! ## `sf_mem_grow` -/

theorem grow_ok (h : g.canGrow e = true) :
    Ends (sf_mem_grow e) s fun r s' =>
      r = g.memEnd ∧ s'.mem = s.mem ∧ Represents e W m₀ s' g.grown := by
  have h1 := h
  unfold Pool.canGrow at h1
  rw [Bool.and_eq_true, decide_eq_true_eq, ← R.growCalls, ← R.memEnd] at h1
  refine .of_eq (if_pos h1) ⟨R.memEnd, rfl, ?_⟩
  exact
  { R with
    shape := R.shape.grown h
    memEnd := by simp only [R.memEnd, Pool.grown_memEnd]
    growCalls := by simp only [R.growCalls, Pool.grown_growCalls]
    watch := fun hx =>
      { R.watch hx with
        bound := by
          have := (R.watch hx).bound
          simp only [Pool.grown_memEnd]
          omega } }

theorem grow_refused (h : g.canGrow e = false) :
    Ends (sf_mem_grow e) s fun r s' => r = NULL ∧ Represents e W m₀ s' g.refused := by
  have h1 : ¬ (e.grants s.growCalls = true ∧ s.sf_mem_end + PAGE_SZ ≤ e.heapLimit) := by
    rw [R.growCalls, R.memEnd]
    unfold Pool.canGrow at h
    simpa using h
  refine .of_eq (if_neg h1) ⟨rfl, ?_⟩
  exact
  { R with
    shape := { R.shape with }
    errno := rfl
    growCalls := by simp only [R.growCalls, Pool.refused_growCalls]
    watch := fun hx => { R.watch hx with } }

/-! ## One page -/

/-- The stores before the page is coalesced. -/
theorem page_prefix {m : Nat} (hm : m % 16 = 0) (hlo : e.sf_mem_start ≤ m)
    (hhi : m + PAGE_SZ + 16 ≤ g.memEnd) :
    sf_malloc_page e m s =
      (sf_coalesce e m PAGE_SZ (s.mem m ^^^ e.magic) true >>= fun _ => pure ())
        ((s.put (headerOf m) (PAGE_SZ ^^^ e.magic)).put (m + PAGE_SZ) (PAGE_SZ ^^^ e.magic)) := by
  have h1 := R.shape.limit
  have h2 := e.limit_lt
  have hh : mapped e s (headerOf m) := by
    unfold headerOf
    exact R.mapped_heap (by omega) (by omega) (by omega)
  have hf : mapped e s (m + PAGE_SZ) := by
    unfold PAGE_SZ at hhi ⊢
    exact R.mapped_heap (by omega) (by omega) (by omega)
  have hp : mapped e s (prevFooterOf m) := R.mapped_heap (x := m) (by omega) (by omega) (by omega)
  have hput : ∀ s' : State, (s'.put (headerOf m) (PAGE_SZ ^^^ e.magic)).mem (headerOf m) =
      PAGE_SZ ^^^ e.magic := fun _ => if_pos rfl
  have hun : unflag PAGE_SZ = PAGE_SZ := rfl
  have hne : headerOf m ≠ m + PAGE_SZ := by unfold headerOf PAGE_SZ; omega
  unfold sf_malloc_page sf_set_block_footer sf_get_block_sz
  simp only [bind_assoc]
  rw [bind_ok (store_ok hh), bind_ok (load_ok (s := s.put _ _) hh), hput, xor_magic, hun,
    add64_of_lt (by omega), bind_ok (store_ok (s := s.put _ _) hf),
    bind_ok (load_ok (s := (s.put _ _).put _ _) hh)]
  simp only [State.put_mem, if_neg hne, if_true, xor_magic, hun, pure_bind]
  rw [bind_ok (load_ok (s := (s.put _ _).put _ _) hp)]
  simp only [State.put_mem, prevFooterOf]
  rw [if_neg (by unfold PAGE_SZ; omega), if_neg (by unfold headerOf; omega)]

/-- `sf_coalesce` for a page: the block after is looked at but never merged. -/
theorem coalesce_page {m t T : Nat} {h : Hdr} (ht : g.hdr t = some h) (hT : 0 < T)
    (htm : t + T = m) (hm : m % 8 = 0) (hend : m + PAGE_SZ + 16 ≤ g.memEnd) :
    ∃ nsz, sf_coalesce e m PAGE_SZ T true s =
      sf_merge e m PAGE_SZ (t, !h.alloc, h.size) (m + PAGE_SZ, false, nsz) s := by
  have S := R.shape
  have h1 := S.inside ht
  have h2 := S.limit
  have h3 := e.limit_lt
  have h4 := S.pages
  have hP : PAGE_SZ = 4096 := rfl
  have hend' : sub64 s.sf_mem_end 16 = g.memEnd - 16 := by
    rw [R.memEnd, sub64_of_le (by omega) (by omega)]
  have hpast : sf_get_past_block m T = t := by
    rw [sf_get_past_block, sub64_of_le (by omega) (by omega)]
    omega
  have hnext : sf_get_next_block m PAGE_SZ = m + PAGE_SZ := add64_of_lt (by omega)
  obtain ⟨q, hq⟩ : ∃ q, sf_probe_next e s (m + PAGE_SZ) s = .ok (q, s) := by
    unfold sf_probe_next
    split
    · exact ⟨_, rfl⟩
    · have hmap : mapped e s (headerOf (m + PAGE_SZ)) := by
        unfold headerOf
        exact R.mapped_heap (by omega) (by omega) (by omega)
      unfold sf_probe
      rw [bind_ok (load_ok hmap)]
      exact ⟨_, rfl⟩
  refine ⟨q.2, ?_⟩
  unfold sf_coalesce
  rw [bind_ok (get_apply s), if_pos hT, hpast, hnext]
  dsimp only
  rw [show sf_probe_past e s t = sf_probe e t from by
    unfold sf_probe_past
    rw [hend', if_neg (by omega)], bind_ok (R.probe_ok ht)]
  dsimp only
  rw [bind_ok hq]
  rfl

/-- Behind an allocated block the page becomes a free block. -/
theorem page_behind {t m : Nat} {h : Hdr} (ht : g.hdr t = some h) (hal : h.alloc = true)
    (htm : t + h.size = m) (habove : ∀ b k, g.hdr b = some k → b + k.size ≤ m)
    (hend : m + PAGE_SZ + 16 = g.memEnd) (hmem : s.mem m = h.size ^^^ e.magic)
    (hW : ∀ x, W x → x ≤ m) :
    Ends (sf_malloc_page e m) s fun _ s' => Represents e W m₀ s' (g.pageBehind m) := by
  have S := R.shape
  have h1 := S.inside ht
  have hP : PAGE_SZ = 4096 := rfl
  have hnone : g.hdr m = none := by
    cases hm : g.hdr m with
    | none => rfl
    | some k =>
      have h4 := S.inside hm
      have h5 := habove m k hm
      omega
  have R1 := R.appear (a := m) (h := ⟨PAGE_SZ, false, false⟩) hnone
    ⟨by omega, by omega, by dsimp only; omega, rfl, by dsimp only; omega⟩
    (fun b k hb => .inl (habove b k hb))
    (fun x hx => by
      have := hW x hx
      unfold headerOf
      dsimp only
      omega)
  have hm : (g.setHdr m ⟨PAGE_SZ, false, false⟩).hdr m = some ⟨PAGE_SZ, false, false⟩ := by simp
  have R2 := R1.store_note (x := m + PAGE_SZ) (w := (Hdr.mk PAGE_SZ false false).word)
    (quiet_end R1.shape hm) (by omega) (by simp only [Pool.setHdr_memEnd]; omega)
    ⟨m, _, hm, rfl, by omega, by dsimp only; omega⟩
  obtain ⟨nsz, hco⟩ := R2.coalesce_page (m := m) (t := t) (T := h.size) (h := h)
    (by simp only [Pool.note_hdr, Pool.setHdr_hdr]; rw [if_neg (by omega)]; exact ht)
    (by omega) htm (by omega) (by simp only [Pool.note_memEnd, Pool.setHdr_memEnd]; omega)
  unfold Ends
  rw [R.page_prefix (by omega) (by omega) (by omega), hmem, xor_magic]
  rw [hal] at hco
  refine Ends.step (P := fun _ s' => Represents e W m₀ s' (g.pageBehind m)) ?_ fun _ _ h => .ret h
  unfold Ends
  refine hco ▸ ?_
  refine (R2.put_ends (b := m) hm rfl fun i hi hc => ?_).step fun _ s3 R3 => .ret R3
  obtain ⟨k, hk, _⟩ := S.free_mem hi hc
  rw [hnone] at hk
  cases hk

omit R in
/-- Behind the links of the last block everything is quiet. -/
theorem quiet_behind (S : g.Shape e) {t x : Nat} {h : Hdr} (ht : g.hdr t = some h)
    (habove : ∀ b k, g.hdr b = some k → b ≤ t) (hx : x % 8 = 0) (htx : t + 32 ≤ x) :
    Quiet g x := by
  have h1 := S.inside ht
  refine ⟨hx, ?_, ?_, ?_⟩ <;> intro b k hb <;> have h2 := S.inside hb <;> have h3 := habove b k hb
  · unfold headerOf; omega
  · unfold nextOf; omega
  · unfold prevOf; omega

/-- Behind a free block the page is merged into it. -/
theorem page_merged {t m T : Nat} {h : Hdr} (ht : g.hdr t = some h) (hal : h.alloc = false)
    (hT : 32 ≤ T) (htm : t + T = m) (hm : m % 16 = 0) (hle : m ≤ t + h.size)
    (hend : t + h.size + PAGE_SZ + 16 = g.memEnd) (habove : ∀ b k, g.hdr b = some k → b ≤ t)
    (hk : g.known m = some T) (hW : ∀ x, W x → x ≤ t) :
    Ends (sf_malloc_page e m) s fun _ s' => Represents e W m₀ s' (g.pageMerged t m) := by
  have S := R.shape
  have h1 := S.inside ht
  have h2 := S.limit
  have h3 := e.limit_lt
  have hP : PAGE_SZ = 4096 := rfl
  have R1 := R.store_spoil (x := m + 8) (v := PAGE_SZ ^^^ e.magic)
    (quiet_behind S ht habove (by omega) (by omega)) (by omega) (by omega)
  have R2 := R1.store_spoil (x := m + PAGE_SZ) (v := PAGE_SZ ^^^ e.magic)
    (quiet_behind R1.shape ht habove (by omega) (by omega)) (by omega)
    (by simp only [Pool.spoil_memEnd]; omega)
  obtain ⟨nsz, hco⟩ := R2.coalesce_page (m := m) (t := t) (T := T) (h := h) ht (by omega) htm
    (by omega) (by simp only [Pool.spoil_memEnd]; omega)
  rw [hal] at hco
  unfold Ends
  rw [R.page_prefix hm (by omega) (by omega), R.known hk, xor_magic]
  refine Ends.step (P := fun _ s' => Represents e W m₀ s' (g.pageMerged t m)) ?_ fun _ _ h => .ret h
  unfold Ends
  refine hco ▸ ?_
  refine (R2.remove_ends m).step fun _ s3 R3 => ?_
  refine (R3.remove_ends t).step fun _ s4 R4 => ?_
  have F : ((((g.spoil (m + 8)).spoil (m + PAGE_SZ)).erase m).erase t).Fusable e t
      (h.size + PAGE_SZ) [] :=
    { start := ⟨h, ht, hal, by omega⟩
      not_mem := List.not_mem_nil
      aligned := by omega
      inside := by
        simp only [Pool.erase_memEnd, Pool.spoil_memEnd]
        omega
      swallows := nofun
      covers := by
        intro y k hy hyt _
        have h4 := habove y k hy
        have h5 := S.cases_apart (h := k) hy ht
        have h6 := S.inside (h := k) hy
        omega
      unlisted := fun i hi => ⟨R3.shape.not_mem_erase hi, nofun⟩ }
  rw [add64_of_lt (by omega), Nat.add_comm PAGE_SZ]
  refine (R4.make_free_ends F fun x hx => .inl (hW x hx)).step fun _ s5 R5 => .ret ?_
  rw [Pool.pageMerged, Pool.sizeOf_of_hdr ht]
  exact R5

/-! ## The loop -/

omit R in
theorem pages_ends {page : Pool → Pool} {m : Nat} {P : Nat → Pool → Prop}
    (hstep : ∀ tempSize g, P tempSize g → intNeg tempSize = false → g.canGrow e = true →
      P (sub64 tempSize PAGE_SZ) (page g.grown))
    (hpage : ∀ tempSize g s, P tempSize g → g.Shape e → Represents e W m₀ s g.grown →
      Ends (sf_malloc_page e m) s fun _ s' => Represents e W m₀ s' (page g.grown)) :
    ∀ {fuel tempSize : Nat} {s : State} {g : Pool}, Pool.Turns fuel tempSize → P tempSize g →
      Represents e W m₀ s g →
      Ends (sf_malloc_pages e m fuel tempSize) s fun r s' =>
        r = (g.pages e page fuel tempSize).1 ∧
          Represents e W m₀ s' (g.pages e page fuel tempSize).2
  | 0, _, _, _, hT, _, _ => absurd hT.2.1 (Nat.lt_irrefl 0)
  | fuel + 1, tempSize, s, g, hT, hP, R => by
    rw [sf_malloc_pages, Pool.pages]
    cases hn : intNeg tempSize with
    | true => exact .ret ⟨rfl, R⟩
    | false =>
      simp only [Bool.false_eq_true, if_false]
      cases hc : g.canGrow e with
      | false =>
        refine (R.grow_refused hc).step fun r s1 hr => ?_
        obtain ⟨rfl, R1⟩ := hr
        rw [if_pos rfl]
        exact .run (modify_apply _ s1) (.ret ⟨rfl, R1.set_errno ENOMEM⟩)
      | true =>
        refine (R.grow_ok hc).step fun r s1 hr => ?_
        obtain ⟨rfl, _, R1⟩ := hr
        have h1 := R.shape.pages
        rw [if_neg (by unfold NULL PAGE_SZ at *; omega)]
        refine (hpage _ _ s1 hP R.shape R1).step fun _ s2 R2 => ?_
        exact pages_ends hstep hpage (hT.next hn) (hstep _ _ hP hn hc) R2

/-- Growth behind a free block. -/
theorem pages_merged_ends {t m T : Nat} (tempSize : Nat) (F : g.FreeTail t m T)
    (hW : ∀ x, W x → x ≤ t) (ht : tempSize < 2 ^ 64) :
    Ends (sf_malloc_pages e m growBound tempSize) s fun r s' =>
      r = (g.pages e (Pool.pageMerged t m) growBound tempSize).1 ∧
        Represents e W m₀ s' (g.pages e (Pool.pageMerged t m) growBound tempSize).2 := by
  refine pages_ends (P := fun _ g => g.FreeTail t m T) (fun _ _ h _ _ => h.page.1) ?_
    (.growBound ht) F R
  intro _ g' s' F' S' R'
  obtain ⟨h, L, hal, hle⟩ := F'.tail
  have hend := L.ends
  exact R'.page_merged (T := T) L.hdr hal F'.room F'.start F'.aligned hle
    (by simp only [Pool.grown_memEnd]; omega) (fun b k hb => (L.above S' hb).1) F'.known hW

/-- Growth behind an allocated block, by no more than one page. -/
theorem pages_behind_ends {t m : Nat} {h : Hdr} (size : Nat) (L : g.Last t h) (hal : h.alloc = true)
    (htm : t + h.size = m) (hmem : s.mem m = h.size ^^^ e.magic) (hW : ∀ x, W x → x ≤ m)
    (hone : intNeg (sub64 size PAGE_SZ) = true ∨ g.canGrow e = false ∨
      (Pool.pageBehind m g.grown).canGrow e = false) (hneg : intNeg size = false) :
    Ends (sf_malloc_pages e m growBound size) s fun r s' =>
      r = (g.pages e (Pool.pageBehind m) growBound size).1 ∧
        Represents e W m₀ s' (g.pages e (Pool.pageBehind m) growBound size).2 := by
  obtain ⟨fuel, hfuel⟩ : ∃ fuel, growBound = fuel + 1 + 1 := ⟨_, rfl⟩
  rw [hfuel, sf_malloc_pages, Pool.pages, hneg]
  simp only [Bool.false_eq_true, if_false]
  cases hc : g.canGrow e with
  | false =>
    refine (R.grow_refused hc).step fun r s1 hr => ?_
    obtain ⟨rfl, R1⟩ := hr
    rw [if_pos rfl]
    exact .run (modify_apply _ s1) (.ret ⟨rfl, R1.set_errno ENOMEM⟩)
  | true =>
    refine (R.grow_ok hc).step fun r s1 hr => ?_
    obtain ⟨rfl, hmem1, R1⟩ := hr
    have h1 := R.shape.pages
    have h2 := L.ends
    rw [if_neg (by unfold NULL PAGE_SZ at *; omega)]
    refine (R1.page_behind (t := t) (h := h) L.hdr hal htm (fun b k hb => ?_) ?_ (hmem1 ▸ hmem)
      hW).step fun _ s2 R2 => ?_
    · have := (L.above R.shape hb).2
      omega
    · simp only [Pool.grown_memEnd]
      omega
    rw [if_pos rfl, sf_malloc_pages, Pool.pages]
    cases hn : intNeg (sub64 size PAGE_SZ) with
    | true => exact .ret ⟨rfl, R2⟩
    | false =>
      have hc2 : (Pool.pageBehind m g.grown).canGrow e = false := by
        rw [hn, hc] at hone
        simpa using hone
      rw [hc2]
      refine (R2.grow_refused hc2).step fun r s3 hr => ?_
      obtain ⟨rfl, R3⟩ := hr
      rw [if_pos rfl]
      exact .run (modify_apply _ s3) (.ret ⟨rfl, R3.set_errno ENOMEM⟩)

/-- The growth part of `sf_malloc`, when `globalEnd` is the last block. -/
theorem grow_ends {size : Nat} {h : Hdr} (L : g.Last g.globalEnd h) (hneg : intNeg size = false)
    (hone : h.alloc = true → intNeg (sub64 size PAGE_SZ) = true ∨ g.canGrow e = false ∨
      g.grown.canGrow e = false) :
    Ends (sf_malloc_grow e size) s fun r s' =>
      r = (g.grow e size).1 ∧ Represents e W m₀ s' (g.grow e size).2 := by
  have S := R.shape
  have h1 := S.inside L.hdr
  have h2 := S.limit
  have h3 := e.limit_lt
  have hend := L.ends
  have habove := fun b k hb => (L.above S (b := b) (k := k) hb).1
  obtain ⟨m, hm⟩ : ∃ m, m = g.globalEnd + h.size := ⟨_, rfl⟩
  have hpage : sub64 s.sf_mem_end 16 = m := by
    rw [R.memEnd, sub64_of_le (by omega) (by omega)]
    omega
  have hbit : (h.word &&& THIS_BLOCK_ALLOCATED = THIS_BLOCK_ALLOCATED) ↔ h.alloc = true := by
    rw [Hdr.word_alloc (by omega)]
    cases h.alloc <;> decide
  have hx : ∀ x, W x → x ≤ m := by
    intro x hx
    have := (R.watch hx).bound
    omega
  unfold sf_malloc_grow
  refine .run (get_apply s) ?_
  rw [R.globalEnd]
  refine .run (R.load_header L.hdr) ?_
  simp only [hpage, xor_magic, hbit, Hdr.unflag_word (h := h) (by omega)]
  refine .run (store_ok (R.mapped_heap (by unfold headerOf; omega) (by unfold headerOf; omega)
    (by unfold headerOf; omega))) ?_
  generalize (if h.alloc = true then (PAGE_SZ ||| PREV_BLOCK_ALLOCATED) ^^^ e.magic
    else PAGE_SZ ^^^ e.magic) = v
  have R1 := R.store_spoil (x := m + 8) (v := v)
    (quiet_behind S L.hdr habove (by omega) (by omega)) (by omega) (by omega)
  have hmap : mapped e (s.put (headerOf m) v) (prevFooterOf m) := R.mapped_heap (x := m) (by omega)
    (by omega) (by omega)
  refine .run (store_ok hmap) ?_
  cases hal : h.alloc with
  | true =>
    have R2 := R1.store_spoil (x := m) (v := h.size ^^^ e.magic) (hm ▸ quiet_end R1.shape L.hdr)
      (by omega) (by simp only [Pool.spoil_memEnd]; omega)
    refine .run (R2.load_header L.hdr) ?_
    simp only [xor_magic, hbit, hal, if_true]
    have hp := R2.pages_behind_ends (t := g.globalEnd) size ⟨L.hdr, hend⟩ hal hm.symm
      (if_pos rfl) hx (hone hal) hneg
    rw [Pool.grow, L.hdr]
    simp only [hal, if_true, ← hm]
    exact hp
  | false =>
    have R2 := R1.store_note (x := m) (w := h.size) (hm ▸ quiet_end R1.shape L.hdr)
      (by omega) (by simp only [Pool.spoil_memEnd]; omega)
      ⟨g.globalEnd, h, L.hdr, hal, by omega, by omega⟩
    refine .run (R2.load_header L.hdr) ?_
    simp only [xor_magic, hbit, hal, Bool.false_eq_true, if_false]
    have F : ((g.spoil (m + 8)).note m h.size).FreeTail g.globalEnd m h.size :=
      ⟨⟨h, ⟨L.hdr, hend⟩, hal, by omega⟩, h1.2.2.1, hm.symm, by omega, by simp⟩
    have hp := R2.pages_merged_ends (sub64 size h.size) F
      (fun x hx' => by
        have h4 := hx x hx'
        have h5 := (R.watch hx').not_free L.hdr hal
        omega)
      (Nat.mod_lt _ (by decide))
    rw [Pool.grow, L.hdr]
    simp only [hal, ← hm, Bool.false_eq_true, if_false]
    exact hp

end Represents

end StarterProjects.Sfmm
