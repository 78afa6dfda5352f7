import StarterProjects.Sfmm.Client
import StarterProjects.Sfmm.Observe

/-!
# Sound runs

`MallocOk` and `FreeOk` say of the heap before a call that the call does not run
into one of the defects that corrupt the heap. In a run of such calls the memory
always represents a pool whose blocks in use are the live allocations.
-/

namespace StarterProjects.Sfmm

open Lib Lib.Exec

/-- What `sf_malloc` returns does not depend on the depth it is run to. -/
theorem Returns.malloc_unique {e : Env} {s s' s'' : State} {n r r' : Nat}
    (h : Returns e s (.malloc n) r s') (h' : Returns e s (.malloc n) r' s'') :
    r = r' ∧ s' = s'' := by
  obtain ⟨fuel, h⟩ := h
  obtain ⟨fuel', h'⟩ := h'
  have h1 := sf_malloc_below (Nat.le_max_left fuel fuel') s _ h
  have h2 := sf_malloc_below (Nat.le_max_right fuel fuel') s _ h'
  rw [h1] at h2
  cases h2
  exact ⟨rfl, rfl⟩

/-! ## Conditions on a call -/

section Conditions

variable (e : Env) (s : State)

/-- A list holds a block for the block size `m`. -/
def Served (m : Nat) : Prop :=
  (∃ i < 10, m = 32 + 16 * i ∧ (s.sf_quick_lists i).length ≠ 0) ∨
    ∃ b, IsBlock e s b ∧ ¬ AllocAt e s b ∧ m ≤ sizeAt e s b

/-- The page asked for after `k` more ones is granted. -/
def CanGrow (k : Nat) : Prop :=
  e.grants (s.growCalls + k) = true ∧ s.sf_mem_end + (k + 1) * PAGE_SZ ≤ e.heapLimit

/-- `globalEnd` is the last block; if that is allocated, one page is enough for
the request, or there is no second one although the loop asks for it. -/
def GrowOk (n : Nat) : Prop :=
  IsLast e s s.globalEnd ∧ (AllocAt e s s.globalEnd →
    n ≤ 4088 ∨ ¬ CanGrow e s 0 ∨ (intNeg (sub64 n PAGE_SZ) = false ∧ ¬ CanGrow e s 1))

/-- The first page is granted; a heap that must grow can. -/
def MallocOk (n : Nat) : Prop :=
  n ≠ 0 → intNeg n = false →
    if s.sf_mem_end = e.sf_mem_start then CanGrow e s 0
    else ¬ Served e s (blockSize n) → GrowOk e s n

/-- The word that `sf_flush_quick_list` passes as the footer in front of `c`. -/
def rawFooter (i c : Nat) : Nat :=
  if c ∈ (quickBlocks s i).map (· + (32 + 16 * i)) then (32 + 16 * i) ^^^ e.magic else s.mem c

/-- No block of the list comes right before one that the list holds later, no free
block comes right before one of them, and the raw footers lead out of the heap. -/
structure FlushOk (i : Nat) : Prop where
  order : (quickBlocks s i).Pairwise fun b c => b + (32 + 16 * i) ≠ c
  before : ∀ c ∈ quickBlocks s i, ∀ b, IsBlock e s b → ¬ AllocAt e s b → b + sizeAt e s b ≠ c
  raw : ∀ c ∈ quickBlocks s i, RawOutside e s.sf_mem_end c (rawFooter e s i c)

/-- The word in front of `b`, taken for a footer, leads out of the heap, to an
allocated block, or to the free block that ends at `b`. -/
def FooterOk (b : Nat) : Prop :=
  let f := unflag (s.mem b ^^^ e.magic)
  let p := if f > 0 then sf_get_past_block b f else NULL
  p < e.sf_mem_start ∨ s.sf_mem_end - 16 ≤ p ∨
    (IsBlock e s p ∧ p ≠ b ∧ (¬ AllocAt e s p → p + sizeAt e s p = b))

/-- A full quick list can be flushed; a block for the free lists has a footer in
front of it that does not mislead, and behind the last one nothing looks like a
header with a size. -/
structure FreeOk (b : Nat) : Prop where
  flush : ∀ i, quickIndex (sizeAt e s b) = some i →
    (s.sf_quick_lists i).length = QUICK_LIST_MAX → FlushOk e s i
  footer : quickIndex (sizeAt e s b) = none → FooterOk e s b
  phantom : quickIndex (sizeAt e s b) = none → IsLast e s b →
    sizeAt e s (b + sizeAt e s b) = 0

end Conditions

/-- The calls of a sound run: no `sf_realloc`, and no other call runs into a defect. -/
def Sound (e : Env) (s : Sys) : Op → Prop
  | .malloc n => MallocOk e s.heap n
  | .free p => FreeOk e s.heap (p - 16)
  | .realloc _ _ => False
  | .write _ _ => True

/-! ## The table of live allocations -/

/-- The live allocations are the blocks in use, each large enough. -/
structure Table (g : Pool) (live : List Allocation) : Prop where
  nodup : (live.map Allocation.ptr).Nodup
  held : ∀ x ∈ live, ∃ a h, x.ptr = nextOf a ∧ g.Used a h ∧ x.size + 8 ≤ h.size
  all : ∀ {a h}, g.Used a h → Live live (nextOf a)

namespace Table

open Pool

variable {g g' : Pool} {live : List Allocation} (T : Table g live)

include T

theorem used {p : Nat} (hp : Live live p) : ∃ a h, p = nextOf a ∧ g.Used a h := by
  obtain ⟨x, hx, rfl⟩ := hp
  obtain ⟨a, h, h1, h2, _⟩ := T.held x hx
  exact ⟨a, h, h1, h2⟩

theorem same (h : SameUsed g g') : Table g' live where
  nodup := T.nodup
  held := fun x hx => by
    obtain ⟨a, k, h1, h2, h3⟩ := T.held x hx
    exact ⟨a, k, h1, (h a k).mpr h2, h3⟩
  all := fun hu => T.all ((h _ _).mp hu)

theorem gives {a m n : Nat} (h : Gives g g' a m) (hn : n + 8 ≤ m) :
    Table g' (⟨nextOf a, n⟩ :: live) where
  nodup := by
    refine List.nodup_cons.mpr ⟨fun hm => ?_, T.nodup⟩
    obtain ⟨x, hx, he⟩ := List.mem_map.mp hm
    obtain ⟨b, k, h1, h2, _⟩ := T.held x hx
    have hba : b = a := by
      dsimp only at he
      rw [h1] at he
      unfold nextOf at he
      omega
    exact h.fresh k (hba ▸ h2)
  held := fun x hx => by
    rcases List.mem_cons.mp hx with rfl | hx
    · obtain ⟨k, hk, hm⟩ := h.used
      exact ⟨a, k, rfl, hk, Nat.le_trans hn hm⟩
    · obtain ⟨b, k, h1, h2, h3⟩ := T.held x hx
      have hba : b ≠ a := fun he => h.fresh k (he ▸ h2)
      exact ⟨b, k, h1, (h.others b k hba).mpr h2, h3⟩
  all := fun {b k} hu => by
    by_cases hba : b = a
    · exact ⟨_, List.mem_cons_self, by rw [hba]⟩
    · obtain ⟨x, hx, he⟩ := T.all ((h.others b k hba).mp hu)
      exact ⟨x, List.mem_cons_of_mem _ hx, he⟩

theorem takes {b : Nat} (h : Takes g g' b) :
    Table g' (live.filter fun x => x.ptr ≠ nextOf b) where
  nodup := T.nodup.sublist (List.filter_sublist.map _)
  held := fun x hx => by
    obtain ⟨hx, hne⟩ := List.mem_filter.mp hx
    obtain ⟨a, k, h1, h2, h3⟩ := T.held x hx
    have hab : a ≠ b := by
      rintro rfl
      simp [h1] at hne
    obtain ⟨l, hl, hsz⟩ := (h.others a k.size hab).mpr ⟨k, h2, rfl⟩
    exact ⟨a, l, h1, hl, by omega⟩
  all := fun {a k} hu => by
    have hab : a ≠ b := fun he => h.gone k (he ▸ hu)
    obtain ⟨l, hl, _⟩ := (h.others a k.size hab).mp ⟨k, hu, rfl⟩
    obtain ⟨x, hx, he⟩ := T.all hl
    refine ⟨x, List.mem_filter.mpr ⟨hx, ?_⟩, he⟩
    have hne : nextOf a ≠ nextOf b := by
      unfold nextOf
      omega
    simpa [he] using hne

end Table

/-- Memory, pool and table of an initialised heap, between two calls. -/
structure Tracks (e : Env) (live : List Allocation) (s : State) (g : Pool) : Prop where
  inv : g.Inv e
  rep : Represents e (fun _ => False) s.mem s g
  table : Table g live
  untouched : g.touched = []

theorem Tracks.restart {e : Env} {W : Nat → Prop} {m₀ : Nat → Nat} {live : List Allocation}
    {s : State} {g : Pool} (I : g.Inv e) (R : Represents e W m₀ s g) (T : Table g live) :
    Tracks e live s { g with touched := [] } :=
  ⟨I.restart, R.restart, T.same (Pool.SameUsed.refl g), rfl⟩

/-! ## `sf_malloc` -/

namespace Tracks

variable {e : Env} {live : List Allocation} {s s' : State} {g : Pool}
  (T : Tracks e live s g)

include T

theorem initialised : s.sf_mem_end ≠ e.sf_mem_start := by
  have h1 := T.rep.shape.pages
  rw [T.rep.memEnd]
  unfold PAGE_SZ at h1
  omega

theorem served_iff {m : Nat} : Served e s m ↔ ¬ g.Unserved m := by
  have R := T.rep
  have I := T.inv
  unfold Served Pool.Unserved
  constructor
  · rintro (⟨i, hi, rfl, hlen⟩ | ⟨b, hb, hal, hle⟩) ⟨hq, hf⟩
    · rw [R.quick_length I.idle hi] at hlen
      exact Pool.quickHit_none hq hi ⟨fun he => hlen (by rw [he]; rfl), rfl⟩
    · obtain ⟨h, hh⟩ := (R.isBlock_iff I.toSettling).mp hb
      have hfree := (R.not_allocAt hh).mp hal
      have hlt := Pool.fit_none hf (Pool.freeIndex_lt _) (I.listed hh hfree List.not_mem_nil)
      rw [Pool.sizeOf_of_hdr hh] at hlt
      rw [R.sizeAt_eq hh] at hle
      omega
  · intro hn
    cases hq : g.quickHit m with
    | some i =>
      obtain ⟨hi, ⟨a, l, hl⟩, hm⟩ := Pool.quickHit_some hq
      refine .inl ⟨i, hi, hm, ?_⟩
      rw [R.quick_length I.idle hi, hl]
      exact Nat.succ_ne_zero _
    | none =>
      cases hf : g.fit m with
      | none => exact absurd ⟨hq, hf⟩ hn
      | some a =>
        obtain ⟨⟨i, hi, ha⟩, hle⟩ := Pool.fit_some hf
        obtain ⟨h, hh, hal, _⟩ := R.shape.free_mem hi ha
        rw [Pool.sizeOf_of_hdr hh] at hle
        exact .inr ⟨a, (R.isBlock_iff I.toSettling).mpr ⟨h, hh⟩, (R.not_allocAt hh).mpr hal,
          by rw [R.sizeAt_eq hh]; exact hle⟩

theorem canGrow_iff : CanGrow e s 0 ↔ g.canGrow e = true := by
  unfold CanGrow Pool.canGrow
  rw [T.rep.growCalls, T.rep.memEnd]
  simp

theorem canGrow_second : CanGrow e s 1 ↔ g.grown.canGrow e = true := by
  unfold CanGrow Pool.canGrow
  rw [T.rep.growCalls, T.rep.memEnd]
  simp only [Pool.grown_growCalls, Pool.grown_memEnd, Bool.and_eq_true, decide_eq_true_eq]
  rw [show g.memEnd + (1 + 1) * PAGE_SZ = g.memEnd + PAGE_SZ + PAGE_SZ by omega]

theorem growable {n : Nat} (h : GrowOk e s n) : g.Growable e n := by
  have R := T.rep
  obtain ⟨hlast, hal⟩ := h
  obtain ⟨k, L⟩ := (R.isLast_iff T.inv.toSettling).mp hlast
  rw [R.globalEnd] at L hal
  refine ⟨k, L, fun hkal => ?_⟩
  rcases hal ((R.allocAt_iff L.hdr).mpr hkal) with h | h | ⟨h1, h2⟩
  · exact .inl h
  · rw [T.canGrow_iff, Bool.not_eq_true] at h
    exact .inr (.inl h)
  · rw [T.canGrow_second, Bool.not_eq_true] at h2
    exact .inr (.inr ⟨h1, h2⟩)

theorem growable_of_ok {n : Nat} (hok : MallocOk e s n) (h0 : n ≠ 0) (hneg : intNeg n = false)
    (hU : g.Unserved (blockSize n)) : g.Growable e n := by
  have h := hok h0 hneg
  rw [if_neg T.initialised, T.served_iff, not_not] at h
  exact T.growable (h hU)

/-- A call of `sf_malloc` that meets `MallocOk` is `Pool.malloc`: it returns what
that gives, and never comes back when that gives nothing. Every word that was
still is watched. -/
theorem malloc_call {n : Nat} (hn : n < 2 ^ 64) (hok : MallocOk e s n) :
    ∃ stale, match g.malloc e n stale with
      | some (p, g') => ∀ fuel, Ends (sf_malloc e (fuel + 2) n) s fun r s' =>
          r = p ∧ Represents e (Still e g) s.mem s' g'
      | none => ∀ fuel, sf_malloc e fuel n s = .error .diverges :=
  have R : Represents e (Still e g) s.mem s g := T.rep.rewatch fun _ h => h
  R.malloc_ends hn T.inv.idle T.inv.end_inside
    (T.growable_of_ok hok)

theorem malloc_step {n r : Nat} (hn : n < 2 ^ 64) (hok : MallocOk e s n)
    (hret : Returns e s (.malloc n) r s') :
    ∃ stale g', g.malloc e n stale = some (r, g') ∧ Represents e (Still e g) s.mem s' g' := by
  obtain ⟨fuel, hrun⟩ := hret
  obtain ⟨stale, h⟩ := T.malloc_call hn hok
  cases hm : g.malloc e n stale with
  | none =>
    rw [hm] at h
    have h1 := h fuel
    rw [show sf_malloc e fuel n s = .ok (r, s') from hrun] at h1
    cases h1
  | some q =>
    obtain ⟨p, g'⟩ := q
    rw [hm] at h
    have h1 := sf_malloc_below (Nat.le_add_right fuel 2) s _ hrun
    obtain ⟨rfl, R⟩ := (h fuel).apply h1
    exact ⟨stale, g', hm, R⟩

/-- After `sf_malloc` the memory still represents a pool, with one more live
allocation unless `NULL` is returned. -/
theorem malloc_to {n r : Nat} (hn : n < 2 ^ 64) (hok : MallocOk e s n)
    (hret : Returns e s (.malloc n) r s') :
    ∃ stale g', g.malloc e n stale = some (r, g') ∧
      Tracks e (Op.after live r (.malloc n)) s' { g' with touched := [] } := by
  obtain ⟨stale, g', hm, R⟩ := T.malloc_step hn hok hret
  obtain ⟨I, h⟩ := T.inv.malloc (T.growable_of_ok hok) hm
  refine ⟨stale, g', hm, Tracks.restart I R ?_⟩
  change Table g' (if r = NULL then live else ⟨r, n⟩ :: live)
  rcases h with ⟨rfl, hsame⟩ | ⟨a, rfl, hgives⟩
  · rw [if_pos rfl]
    exact T.table.same hsame
  · obtain ⟨k, hk, _⟩ := hgives.used
    have h1 := I.inside hk.1
    rw [if_neg (by unfold nextOf NULL; omega)]
    exact T.table.gives hgives (blockSize_spec n).2.2.1

/-! ## `sf_free` -/

theorem flushable {i : Nat} (hi : i < 10) (hok : FlushOk e s i) : g.Flushable i := by
  have hq := T.rep.quickBlocks_eq T.inv.idle hi
  refine ⟨hq ▸ hok.order, fun c hc a k ha hal => ?_⟩
  rw [← hq] at hc
  have h1 := hok.before c hc a ((T.rep.isBlock_iff T.inv.toSettling).mpr ⟨k, ha⟩)
    ((T.rep.not_allocAt ha).mpr hal)
  rwa [T.rep.sizeAt_eq ha] at h1

theorem footer_honest {b : Nat} (hok : FooterOk e s b) :
    Honest e g b (unflag (s.mem b ^^^ e.magic)) := by
  unfold FooterOk at hok
  unfold Honest
  dsimp only at hok ⊢
  rw [T.rep.memEnd] at hok
  refine hok.imp id (Or.imp id ?_)
  rintro ⟨h1, h2, h3⟩
  obtain ⟨k, hk⟩ := (T.rep.isBlock_iff T.inv.toSettling).mp h1
  rw [T.rep.not_allocAt hk, T.rep.sizeAt_eq hk] at h3
  exact ⟨k, hk, h2, h3⟩

theorem freeable {b : Nat} {h : Hdr} (hu : g.Used b h) (hok : FreeOk e s b) :
    Represents.Freeable e (Represents.Spared e g b h) s.mem s g b h := by
  have R := T.rep
  have hsz := R.sizeAt_eq hu.1
  refine ⟨fun i hq hlen => ?_, fun hq => ?_, fun hq L => ?_⟩
  · obtain ⟨hi, hn⟩ := quickIndex_some.mp hq
    have hfl := hok.flush i (by rw [hsz]; exact hq)
      (by rw [R.quick_length T.inv.idle hi]; exact hlen)
    have hF := T.flushable hi hfl
    refine ⟨hF, fun c hc => ?_⟩
    have hraw := hfl.raw c (by rw [R.quickBlocks_eq T.inv.idle hi]; exact hc)
    rw [rawFooter, R.quickBlocks_eq T.inv.idle hi, R.memEnd] at hraw
    by_cases hm : c ∈ (g.quick i).map (· + (32 + 16 * i))
    · rw [if_pos hm] at hraw ⊢
      exact hraw
    · rw [if_neg hm] at hraw ⊢
      refine ⟨?_, by rw [T.untouched]; exact List.not_mem_nil, hraw⟩
      -- the word in front of a block that is flushed and follows none
      obtain ⟨k, hk, hal, hks⟩ := R.shape.quick_mem hi hc
      have h1 := R.shape.inside hk
      have hcb : ∀ {a l}, g.hdr a = some l → c ≠ nextOf a := by
        intro a l ha
        have h2 := R.shape.cases_apart ha hk
        have h3 := R.shape.inside ha
        unfold nextOf
        omega
      refine ⟨⟨by omega, h1.1, by omega, fun ha => ?_, fun ha hal => ?_, fun hj ha => ?_⟩,
        hcb hu.1, fun hn => ?_, fun j hj hjlen d hd => ?_⟩
      · have h3 := R.shape.inside ha
        unfold headerOf
        omega
      · have h2 := R.shape.cases_apart ha hk
        have h3 := hF.before c hc _ _ ha hal
        have h4 := R.shape.inside ha
        omega
      · obtain ⟨l, hl, _⟩ := R.shape.quick_mem hj ha
        exact hcb hl
      · rw [hq] at hn
        cases hn
      · rw [hq] at hj
        cases hj
        obtain ⟨l, hl, _, hls⟩ := R.shape.quick_mem hi hd
        have h2 := R.shape.cases_apart hl hk
        have h3 : c ≠ d + (32 + 16 * i) := fun he => hm (List.mem_map.mpr ⟨d, hd, he.symm⟩)
        omega
  · exact T.footer_honest (hok.footer (by rw [hsz]; exact hq))
  · have h1 := hok.phantom (by rw [hsz]; exact hq)
      ((R.isLast_iff T.inv.toSettling).mpr ⟨h, L⟩)
    rwa [hsz] at h1

/-- A call of `sf_free` on a live pointer that meets `FreeOk` is `Pool.freeBlock`,
unless it aborts. -/
theorem free_call {b : Nat} {h : Hdr} (hu : g.Used b h) (hok : FreeOk e s b)
    (hbad : ¬ BadPast e s b h.word) :
    Ends (sf_free e (nextOf b)) s fun _ s' =>
      Represents e (Represents.Spared e g b h) s.mem s' (g.freeBlock b) :=
  (T.rep.rewatch fun _ hx => hx.still).free_ends T.inv hu hbad (T.freeable hu hok) fun _ hx => hx

theorem free_step {p r : Nat} (hp : Live live p) (hok : FreeOk e s (p - 16))
    (hret : Returns e s (.free p) r s') :
    ∃ b h, p = nextOf b ∧ g.Used b h ∧
      Represents e (Represents.Spared e g b h) s.mem s' (g.freeBlock b) := by
  obtain ⟨b, h, rfl, hu⟩ := T.table.used hp
  obtain ⟨fuel, hrun⟩ := hret
  obtain ⟨u, s1, h1, h2⟩ := bind_eq_ok (show (sf_free e (nextOf b) >>= fun _ => pure NULL) s =
    .ok (r, s') from hrun)
  cases h2
  rw [show nextOf b - 16 = b from Nat.add_sub_cancel b 16] at hok
  have hbad : ¬ BadPast e s b h.word := by
    intro hbad
    rw [T.rep.free_checked hu.1 hu.2.1, if_pos hbad] at h1
    cases h1
  exact ⟨b, h, rfl, hu, (T.free_call hu hok hbad).apply h1⟩

theorem free_to {p r : Nat} (hp : Live live p) (hok : FreeOk e s (p - 16))
    (hret : Returns e s (.free p) r s') :
    ∃ b h, p = nextOf b ∧ g.Used b h ∧
      Tracks e (Op.after live r (.free p)) s' { g.freeBlock b with touched := [] } := by
  obtain ⟨b, h, rfl, hu, R⟩ := T.free_step hp hok hret
  rw [show nextOf b - 16 = b from Nat.add_sub_cancel b 16] at hok
  obtain ⟨I, htakes⟩ := T.inv.freeBlock hu fun i hq hlen =>
    ((T.freeable hu hok).flush i hq hlen).1
  exact ⟨b, h, rfl, hu, Tracks.restart I R (T.table.takes htakes)⟩

theorem free {p r : Nat} (hp : Live live p) (hok : FreeOk e s (p - 16))
    (hret : Returns e s (.free p) r s') :
    ∃ g', Tracks e (Op.after live r (.free p)) s' g' := by
  obtain ⟨_, _, _, _, T'⟩ := T.free_to hp hok hret
  exact ⟨_, T'⟩

/-! ## Writes of the client -/

/-- The word of a byte that the client may write belongs to a block in use. -/
theorem write_word {addr : Nat} (hx : ∃ a ∈ live, a.ptr ≤ addr ∧ addr < a.ptr + a.size) :
    g.InPayload (addr / 8 * 8) := by
  obtain ⟨x, hx, h1, h2⟩ := hx
  obtain ⟨b, h, h3, hu, h4⟩ := T.table.held x hx
  have h5 := T.rep.shape.inside hu.1
  unfold nextOf at h3
  exact ⟨b, h, hu, by unfold nextOf; omega, by omega⟩

theorem write {addr v r : Nat} (hx : ∃ a ∈ live, a.ptr ≤ addr ∧ addr < a.ptr + a.size)
    (hret : Returns e s (.write addr v) r s') : Tracks e live s' g := by
  obtain ⟨fuel, hrun⟩ := hret
  have hs : s' = s.put (addr / 8 * 8) (setByte s.mem addr v (addr / 8 * 8)) := by
    rw [show (Op.write addr v).run e fuel s = .ok (NULL, { s with mem := setByte s.mem addr v })
      from rfl] at hrun
    cases hrun
    unfold State.put
    congr 1
    funext x
    unfold setByte
    by_cases hxa : x = addr / 8 * 8
    · rw [if_pos hxa, if_pos hxa, if_pos rfl, hxa]
    · rw [if_neg hxa, if_neg hxa]
  rw [hs]
  have R := T.rep.store_payload (v := setByte s.mem addr v (addr / 8 * 8)) (T.write_word hx) nofun
  exact ⟨T.inv, R.rewatch nofun, T.table, T.untouched⟩

end Tracks

/-! ## The first call -/

section First

variable {e : Env} {s : State}

/-- On a fresh heap `sf_malloc` adds the first page and goes on as usual. -/
theorem first_page (hs : s.sf_mem_end = e.sf_mem_start) (hgrow : CanGrow e s 0) :
    ∃ s₁, Tracks e [] s₁ (Pool.initial e s.sf_errno s.growCalls) ∧
      ∀ n fuel, n ≠ 0 → intNeg n = false →
        sf_malloc e (fuel + 1) n s = sf_malloc e (fuel + 1) n s₁ := by
  have hlim := hgrow.2
  rw [hs] at hlim
  obtain ⟨u, s₁, hrun, R⟩ : Ends (sf_init_first_page e) s fun _ s' =>
      Represents e (fun _ => False) s.mem s' (Pool.initial e s.sf_errno s.growCalls) :=
    init_ends hs hgrow.1 (by omega)
  refine ⟨s₁, ⟨Pool.initial_inv R.shape, R.rewatch nofun, ⟨List.nodup_nil, nofun, ?_⟩, rfl⟩, ?_⟩
  · intro a h hu
    have h1 : (if a = e.sf_mem_start then some (Hdr.mk 4080 false false) else none) = some h := hu.1
    split at h1
    · cases h1
      cases hu.2.1
    · cases h1
  · intro n fuel h0 hneg
    rw [sf_malloc, R.malloc_body h0 hneg]
    unfold sf_malloc_body
    rw [if_neg h0, hneg]
    simp only [Bool.false_eq_true, if_false]
    rw [bind_ok (get_apply s), if_pos hs.symm, bind_ok hrun]

/-- Without a first page `sf_malloc` writes to the page at `NULL`. -/
theorem first_page_granted {s' : State} {n r : Nat} (hs : s.sf_mem_end = e.sf_mem_start)
    (h0 : n ≠ 0)
    (hneg : intNeg n = false) (hret : Returns e s (.malloc n) r s') : CanGrow e s 0 := by
  by_contra hno
  obtain ⟨fuel, hrun⟩ := hret
  change sf_malloc e fuel n s = .ok (r, s') at hrun
  cases fuel with
  | zero => cases hrun
  | succ fuel =>
    rw [sf_malloc, sf_malloc_body, if_neg h0, hneg] at hrun
    simp only [Bool.false_eq_true, if_false] at hrun
    rw [bind_ok (get_apply s), if_pos hs.symm] at hrun
    obtain ⟨_, _, hinit, _⟩ := bind_eq_ok hrun
    obtain ⟨_, s₁, h1, h2, _⟩ := init_lists_ends e s
    have hgrow : sf_mem_grow e s₁ =
        .ok (NULL, { s₁ with sf_errno := ENOMEM, growCalls := s₁.growCalls + 1 }) := by
      refine if_neg fun hc => hno ?_
      rw [h2] at hc
      unfold CanGrow
      simpa using hc
    unfold sf_init_first_page at hinit
    rw [bind_ok h1, bind_ok hgrow] at hinit
    obtain ⟨_, _, _, hinit⟩ := bind_eq_ok hinit
    obtain ⟨_, _, hstore, _⟩ := bind_eq_ok hinit
    have hmap := (store_eq_ok hstore).1
    have h3 := e.start_pos
    have h4 := e.heads_pos
    unfold mapped prevFooterOf NULL at hmap
    omega

theorem initial_mallocOk {live : List Allocation} {errno growCalls : Nat}
    (T : Tracks e live s (Pool.initial e errno growCalls)) (n : Nat) : MallocOk e s n := by
  intro _ _
  rw [if_neg T.initialised]
  intro _
  have L : (Pool.initial e errno growCalls).Last e.sf_mem_start ⟨4080, false, false⟩ :=
    ⟨by simp only [Pool.initial, if_true], rfl⟩
  have hend : s.globalEnd = e.sf_mem_start := T.rep.globalEnd
  refine ⟨?_, fun hal => ?_⟩
  · rw [hend]
    exact (T.rep.isLast_iff T.inv.toSettling).mpr ⟨_, L⟩
  · rw [hend, T.rep.allocAt_iff L.hdr] at hal
    cases hal

end First

/-- What is known of every state of a sound run. -/
def Sane (e : Env) (s : Sys) : Prop := Start e s ∨ ∃ g, Tracks e s.live s.heap g

/-- A request that reaches the lists is one on an initialised heap. -/
theorem Sane.malloc_tracked {e : Env} {s : Sys} {n : Nat} (h : Sane e s)
    (hok : MallocOk e s.heap n) (h0 : n ≠ 0) (hneg : intNeg n = false) :
    ∃ s₁ g, Tracks e s.live s₁ g ∧ MallocOk e s₁ n ∧
      ∀ fuel, sf_malloc e (fuel + 1) n s.heap = sf_malloc e (fuel + 1) n s₁ := by
  rcases h with hS | ⟨g, T⟩
  · have h1 := hok h0 hneg
    rw [if_pos hS.empty] at h1
    obtain ⟨s₁, T, hrun⟩ := first_page hS.empty h1
    rw [hS.none_live]
    exact ⟨s₁, _, T, initial_mallocOk T n, fun fuel => hrun n fuel h0 hneg⟩
  · exact ⟨s.heap, g, T, hok, fun _ => rfl⟩

/-- A request that is refused at once changes at most `sf_errno`. -/
theorem malloc_trivial {e : Env} {s s' : State} {n r : Nat} (h : n = 0 ∨ intNeg n = true)
    (hret : Returns e s (.malloc n) r s') :
    r = NULL ∧ (s' = s ∨ s' = { s with sf_errno := ENOMEM }) := by
  obtain ⟨fuel, hrun⟩ := hret
  change sf_malloc e fuel n s = .ok (r, s') at hrun
  cases fuel with
  | zero => cases hrun
  | succ fuel =>
    rw [sf_malloc, sf_malloc_body] at hrun
    by_cases h0 : n = 0
    · rw [if_pos h0] at hrun
      cases hrun
      exact ⟨rfl, .inl rfl⟩
    · rw [if_neg h0, if_pos (h.resolve_left h0)] at hrun
      cases hrun
      exact ⟨rfl, .inr rfl⟩

/-- The first request that reaches the lists is one to the first page. -/
theorem Start.malloc {e : Env} {s : Sys} {s' : State} {n r : Nat} (hS : Start e s)
    (hn : n < 2 ^ 64) (h0 : n ≠ 0) (hneg : intNeg n = false) (hok : MallocOk e s.heap n)
    (hret : Returns e s.heap (.malloc n) r s') :
    ∃ s₁ stale g', Tracks e [] s₁ (Pool.initial e s.heap.sf_errno s.heap.growCalls) ∧
      (Pool.initial e s.heap.sf_errno s.heap.growCalls).malloc e n stale = some (r, g') ∧
        Tracks e (Op.after s.live r (.malloc n)) s' { g' with touched := [] } := by
  have h1 := hok h0 hneg
  rw [if_pos hS.empty] at h1
  obtain ⟨s₁, T, hrun⟩ := first_page hS.empty h1
  obtain ⟨fuel, hfuel⟩ := hret
  cases fuel with
  | zero => cases hfuel
  | succ fuel =>
    obtain ⟨stale, g', hm, T'⟩ := T.malloc_to hn (initial_mallocOk T n)
      ⟨fuel + 1, (hrun n fuel h0 hneg).symm.trans hfuel⟩
    rw [hS.none_live]
    exact ⟨s₁, stale, g', T, hm, T'⟩

/-- One `sf_malloc`, as seen from pools: what it makes of a pool with `P` has `Q`, and so has
what it makes of the first page. -/
theorem malloc_pool {e : Env} {s s' : Sys} {n r : Nat} {P Q : Pool → Prop}
    (h : Start e s ∨ ∃ g, Tracks e s.live s.heap g ∧ P g) (hn : n < 2 ^ 64)
    (hok : MallocOk e s.heap n) (hret : Returns e s.heap (.malloc n) r s'.heap)
    (hlive : s'.live = Op.after s.live r (.malloc n))
    (hnext : ∀ {g stale g'}, Tracks e s.live s.heap g → P g →
      g.malloc e n stale = some (r, g') → Q g')
    (hfirst : ∀ {s₁ errno growCalls stale g'},
      Tracks e [] s₁ (Pool.initial e errno growCalls) →
      (Pool.initial e errno growCalls).malloc e n stale = some (r, g') → Q g') :
    Start e s' ∨ ∃ g', Tracks e s'.live s'.heap { g' with touched := [] } ∧ Q g' := by
  rw [hlive]
  rcases h with hS | ⟨g, T, hP⟩
  · by_cases htriv : n = 0 ∨ intNeg n = true
    · obtain ⟨rfl, hs'⟩ := malloc_trivial htriv hret
      refine .inl ⟨?_, by rw [hlive]; exact hS.none_live⟩
      rcases hs' with h1 | h1 <;> rw [h1] <;> exact hS.empty
    · -- the first page comes, and then it is a request on an initialised heap
      simp only [not_or, Bool.not_eq_true] at htriv
      obtain ⟨_, _, g', T, hm, T'⟩ := hS.malloc hn htriv.1 htriv.2 hok hret
      exact .inr ⟨g', T', hfirst T hm⟩
  · obtain ⟨stale, g', hm, T'⟩ := T.malloc_to hn hok hret
    exact .inr ⟨g', T', hnext T hP hm⟩

theorem Sane.malloc {e : Env} {s s' : Sys} {n r : Nat} (h : Sane e s) (hn : n < 2 ^ 64)
    (hok : MallocOk e s.heap n) (hret : Returns e s.heap (.malloc n) r s'.heap)
    (hlive : s'.live = Op.after s.live r (.malloc n)) : Sane e s' := by
  have hpool := malloc_pool (P := fun _ => True) (Q := fun _ => True)
    (h.imp_right fun ⟨g, T⟩ => ⟨g, T, trivial⟩) hn hok hret hlive
    (fun _ _ _ => trivial) (fun _ _ => trivial)
  exact hpool.imp_right fun ⟨_, T, _⟩ => ⟨_, T⟩

theorem Sane.step {e : Env} {s s' : Sys} {op : Op} (h : Sane e s)
    (hstep : Step e (Sound e) s op s') : Sane e s' := by
  obtain ⟨hvalid, hcond, r, hret, hlive⟩ := hstep
  cases op with
  | malloc n => exact h.malloc hvalid hcond hret hlive
  | realloc p n => exact hcond.elim
  | free p =>
    rcases h with hS | ⟨g, T⟩
    · obtain ⟨x, hx, _⟩ := hvalid
      rw [hS.none_live] at hx
      cases hx
    · obtain ⟨g', T'⟩ := T.free hvalid hcond hret
      exact .inr ⟨g', hlive ▸ T'⟩
  | write addr v =>
    rcases h with hS | ⟨g, T⟩
    · obtain ⟨_, x, hx, _⟩ := hvalid
      rw [hS.none_live] at hx
      cases hx
    · exact .inr ⟨g, by rw [hlive]; exact T.write hvalid.2 hret⟩

theorem Reached.sane {e : Env} {s : Sys} (h : Reached e (Sound e) s) : Sane e s :=
  h.invariant (fun _ hS => .inl hS) fun _ _ _ hs hstep => hs.step hstep

theorem sample_mallocOk (n : Nat) : MallocOk sampleEnv sample.heap n := fun _ _ => by
  rw [if_pos (show sample.heap.sf_mem_end = sampleEnv.sf_mem_start from rfl)]
  exact ⟨rfl, by decide⟩

/-! ## Sound runs on fixed inputs -/

section Seen

variable (e : Env) (s : State)

/-- The addresses that the walk over the headers visits from `b` on, `n` at most. -/
def blocksFrom : Nat → Nat → List Nat
  | 0, _ => []
  | n + 1, b =>
      b :: if b + sizeAt e s b + 16 < s.sf_mem_end then blocksFrom n (b + sizeAt e s b) else []

def firstBlocks : List Nat :=
  if e.sf_mem_start < s.sf_mem_end then blocksFrom e s 32 e.sf_mem_start else []

/-- The first page is granted, or one of the first blocks is free and large enough. -/
def MallocSeen (n : Nat) : Prop :=
  if s.sf_mem_end = e.sf_mem_start then CanGrow e s 0
  else ∃ b ∈ firstBlocks e s, ¬ AllocAt e s b ∧ blockSize n ≤ sizeAt e s b

/-- The word in front of `b`, taken for a footer, leads out of the heap or to one of the first
blocks. -/
def FooterSeen (b : Nat) : Prop :=
  let f := unflag (s.mem b ^^^ e.magic)
  let p := if f > 0 then sf_get_past_block b f else NULL
  p < e.sf_mem_start ∨ s.sf_mem_end - 16 ≤ p ∨
    (p ∈ firstBlocks e s ∧ p ≠ b ∧ (¬ AllocAt e s p → p + sizeAt e s p = b))

/-- There is room in the quick list of the block; one for the free lists is not the last. -/
def FreeSeen (b : Nat) : Prop :=
  (quickIndex (sizeAt e s b)).elim (FooterSeen e s b ∧ b + sizeAt e s b + 16 ≠ s.sf_mem_end)
    fun i => (s.sf_quick_lists i).length ≠ QUICK_LIST_MAX

instance (k : Nat) : Decidable (CanGrow e s k) := inferInstanceAs (Decidable (_ ∧ _))

instance (n : Nat) : Decidable (MallocSeen e s n) :=
  inferInstanceAs (Decidable (if s.sf_mem_end = e.sf_mem_start then CanGrow e s 0
    else ∃ b ∈ firstBlocks e s, ¬ AllocAt e s b ∧ blockSize n ≤ sizeAt e s b))

instance (b : Nat) : Decidable (FooterSeen e s b) := inferInstanceAs (Decidable (_ ∨ _))

instance (b : Nat) : Decidable (FreeSeen e s b) :=
  match h : quickIndex (sizeAt e s b) with
  | some i => decidable_of_iff ((s.sf_quick_lists i).length ≠ QUICK_LIST_MAX)
      (by rw [FreeSeen, h, Option.elim])
  | none => decidable_of_iff (FooterSeen e s b ∧ b + sizeAt e s b + 16 ≠ s.sf_mem_end)
      (by rw [FreeSeen, h, Option.elim])

end Seen

/-- What can be read off the first blocks, and is enough for the call to be sound. -/
def Seen (e : Env) (s : Sys) : Op → Prop
  | .malloc n => MallocSeen e s.heap n
  | .free p => FreeSeen e s.heap (p - 16)
  | .realloc _ _ => False
  | .write _ _ => True

instance (e : Env) (s : Sys) : (op : Op) → Decidable (Seen e s op)
  | .malloc n => inferInstanceAs (Decidable (MallocSeen e s.heap n))
  | .free p => inferInstanceAs (Decidable (FreeSeen e s.heap (p - 16)))
  | .realloc _ _ => inferInstanceAs (Decidable False)
  | .write _ _ => inferInstanceAs (Decidable True)

section Seen

variable {e : Env} {s : State}

theorem isBlock_of_from : ∀ {n b a : Nat}, IsBlock e s b → a ∈ blocksFrom e s n b → IsBlock e s a
  | 0, _, _, _, ha => absurd ha List.not_mem_nil
  | n + 1, b, a, hb, ha => by
    rw [blocksFrom, List.mem_cons] at ha
    rcases ha with rfl | ha
    · exact hb
    · split at ha
      · next hlt => exact isBlock_of_from (.next hb hlt) ha
      · exact absurd ha List.not_mem_nil

theorem isBlock_of_first {a : Nat} (ha : a ∈ firstBlocks e s) : IsBlock e s a := by
  unfold firstBlocks at ha
  split at ha
  · next hlt => exact isBlock_of_from (.first hlt) ha
  · exact absurd ha List.not_mem_nil

theorem MallocSeen.ok {n : Nat} (h : MallocSeen e s n) : MallocOk e s n := by
  intro _ _
  unfold MallocSeen at h
  split at h
  · next hend =>
    rw [if_pos hend]
    exact h
  · next hend =>
    rw [if_neg hend]
    obtain ⟨b, hb, hfree, hle⟩ := h
    exact fun hserved => absurd (.inr ⟨b, isBlock_of_first hb, hfree, hle⟩) hserved

theorem FooterSeen.ok {b : Nat} (h : FooterSeen e s b) : FooterOk e s b :=
  h.imp_right (Or.imp_right fun hp => ⟨isBlock_of_first hp.1, hp.2⟩)

theorem FreeSeen.ok {b : Nat} (h : FreeSeen e s b) : FreeOk e s b := by
  unfold FreeSeen at h
  refine ⟨fun i hi hfull => ?_, fun hnone => ?_, fun hnone hlast => ?_⟩
  · rw [hi] at h
    exact absurd hfull h
  · rw [hnone] at h
    exact h.1.ok
  · rw [hnone] at h
    exact absurd hlast.2 h.2

theorem Seen.sound {s : Sys} : ∀ {op : Op}, Seen e s op → Sound e s op
  | .malloc _, h => MallocSeen.ok h
  | .free _, h => FreeSeen.ok h
  | .realloc _ _, h => h
  | .write _ _, h => h

end Seen

/-- The calls of `ops` in order, when each is seen to be sound. -/
def Sys.execSeen (e : Env) (fuel : Nat) : List Op → Sys → Option Sys
  | [], s => some s
  | op :: ops, s =>
      if Seen e s op then (s.exec e fuel [op]).bind (Sys.execSeen e fuel ops) else none

theorem Reached.execSeen {e : Env} {fuel : Nat} : ∀ {ops : List Op} {s s' : Sys},
    Reached e (Sound e) s → s.execSeen e fuel ops = some s' → Reached e (Sound e) s'
  | [], _, _, h, he => by
    cases he
    exact h
  | op :: ops, s, s', h, he => by
    unfold Sys.execSeen at he
    split at he
    · next hseen =>
      obtain ⟨t, ht, he⟩ := Option.bind_eq_some_iff.mp he
      refine Reached.execSeen ?_ he
      -- one call of `exec` is one step
      rw [Sys.exec] at ht
      split at ht
      · next hvalid =>
        split at ht
        · next r heap hrun =>
          cases ht
          exact .step (i := op) h ⟨hvalid, hseen.sound, r, ⟨fuel, hrun⟩, rfl⟩
        · cases ht
      · cases ht
    · cases he

end StarterProjects.Sfmm
