import StarterProjects.Sfmm.Run

/-!
# Where every block is

In every state of a sound run each block of the heap has one place: the table of the client, a
quick list or a free list, and the sizes of the blocks account for every byte of the heap. Free
lists are rings through their sentinels, but for one link: `sf_init_first_page` puts the first
block of the heap in its list without pointing the sentinel back to it.
-/

namespace StarterProjects.Sfmm

open Lib Lib.Exec

namespace Pool

variable {e : Env} {g g' : Pool}

/-! ## Rings -/

/-- The sentinel of a list points back to the last block, unless that is the first block of the
heap. -/
def Ringed (e : Env) (g : Pool) : Prop :=
  ∀ i < 10, g.closed i = true ∨ (g.free i).getLast? = some e.sf_mem_start

theorem initial_ringed (errno growCalls : Nat) : (initial e errno growCalls).Ringed e := by
  intro i _
  by_cases hi : i = 7
  · exact .inr (by rw [hi]; rfl)
  · exact .inl (decide_eq_true hi)

/-- A property of the free lists and their last links that insertion and removal keep. -/
structure Listwise (P : Pool → Prop) : Prop where
  of_lists : ∀ {g g' : Pool}, P g → g'.free = g.free → g'.closed = g.closed → P g'
  erase : ∀ {g : Pool} (b : Nat), P g → P (g.erase b)
  put : ∀ {g : Pool} (b size : Nat), P g → P (g.put b size)

theorem ringed_listwise : Listwise (Ringed e) where
  of_lists := fun h hfree hclosed i hi => by
    rw [hfree, hclosed]
    exact h i hi
  erase := fun {g} b h i hi => by
    rw [erase_closed, erase_free, Bool.or_eq_true, decide_eq_true_eq]
    rcases h i hi with hc | hl
    · exact .inl (.inl hc)
    · by_cases hb : e.sf_mem_start = b
      · exact .inl (.inr (hb ▸ hl))
      · -- the last block stays the last one
        obtain ⟨l, hl'⟩ := List.getLast?_eq_some_iff.mp hl
        rw [hl', List.erase_append]
        split
        · exact .inr List.getLast?_concat
        · rw [List.erase_of_not_mem (by rw [List.mem_singleton]; exact Ne.symm hb)]
          exact .inr List.getLast?_concat
  put := fun {g} b size h i hi => by
    rw [put_closed, put_free]
    by_cases hsize : i = freeIndex size
    · rw [if_pos hsize]
      cases hl : g.free i with
      | nil => exact .inl (by simp [hsize])
      | cons a l =>
        refine (h i hi).imp (fun hc => by simp [hc]) fun hlast => ?_
        rw [List.getLast?_cons_cons, ← hl]
        exact hlast
    · rw [if_neg hsize]
      exact (h i hi).imp_left fun hc => by simp [hc]

namespace Listwise

variable {P : Pool → Prop} (K : Listwise P)

include K

theorem makeFree (h : P g) (b size : Nat) (drop : List Nat) : P (g.makeFree b size drop) :=
  K.put (g := ((g.fuse b size drop).spoil b).note (b + size) (Hdr.mk size false true).word) b size
    (K.of_lists h rfl rfl)

theorem coalesce (h : P g) (m : Nat) (past next : Option Nat) : P (g.coalesce m past next) := by
  cases past with
  | none =>
    cases next with
    | none => exact K.put m _ h
    | some n => exact K.makeFree (K.erase n (K.erase m h)) m _ _
  | some p =>
    cases next with
    | none => exact K.makeFree (K.erase p (K.erase m h)) p _ _
    | some n => exact K.makeFree (K.erase n (K.erase p (K.erase m h))) p _ _

theorem serve (h : P g) {m p : Nat} {stale : Bool} (hs : g.serve m stale = some (p, g')) :
    P g' := by
  unfold Pool.serve at hs
  split at hs
  · cases hs
    exact K.of_lists h rfl rfl
  · split at hs
    · rename_i a _
      cases hs
      unfold Pool.place
      split
      · have herase : ∀ g₁ : Pool, g₁.free = g.free → g₁.closed = g.closed → P (g₁.erase a) :=
          fun g₁ hfree hclosed => K.erase a (K.of_lists h hfree hclosed)
        unfold Pool.split
        exact K.of_lists (K.put (a + m) (g.sizeOf a - m) (K.of_lists (herase _ rfl rfl) rfl rfl))
          rfl rfl
      · unfold Pool.exact
        split
        · exact K.of_lists (K.erase a h) rfl rfl
        · exact h
    · cases hs

theorem behind (h : P g) (m : Nat) : P (pageBehind m g.grown) :=
  K.put (g := (g.grown.setHdr m _).note (m + PAGE_SZ) _) m PAGE_SZ (K.of_lists h rfl rfl)

theorem merged (h : P g) (t m : Nat) : P (pageMerged t m g.grown) := by
  have hspoil : P ((g.grown.spoil (m + 8)).spoil (m + PAGE_SZ)) := K.of_lists h rfl rfl
  exact K.makeFree (K.erase t (K.erase m hspoil)) t _ []

theorem pages {page : Pool → Pool} (hpage : ∀ {g : Pool}, P g → P (page g.grown))
    {n : Nat} (hn : n < 2 ^ 64) (h : P g) : P (g.pages e page growBound n).2 := by
  rcases pages_rule (e := e) (P := fun _ g₁ => P g₁) page
    (fun _ _ h₁ _ _ => hpage h₁) (Turns.growBound hn) h with
    ⟨_, _, _, h'⟩ | ⟨_, _, g₁, _, h', _, he⟩
  · exact h'
  · rw [he]
    exact K.of_lists h' rfl rfl

theorem grow (h : P g) {size : Nat} (hsize : size < 2 ^ 64) : P (g.grow e size).2 := by
  unfold Pool.grow
  split
  · rename_i k _
    have hspoil : P (g.spoil (g.globalEnd + k.size + 8)) := K.of_lists h rfl rfl
    dsimp only
    split
    · exact K.pages (fun h₁ => K.behind h₁ _) hsize (K.of_lists hspoil rfl rfl)
    · exact K.pages (fun h₁ => K.merged h₁ _ _) (Nat.mod_lt _ (by decide))
        (K.of_lists hspoil rfl rfl)
  · exact h

theorem malloc (h : P g) {size p : Nat} {stale : Bool} (hsize : size < 2 ^ 64)
    (hm : g.malloc e size stale = some (p, g')) : P g' := by
  unfold Pool.malloc at hm
  split at hm
  · cases hm
    exact h
  · split at hm
    · cases hm
      exact K.of_lists h rfl rfl
    · split at hm
      · rename_i q hq
        cases hm
        exact K.serve h hq
      · split at hm
        · exact K.serve (K.grow h hsize) hm
        · cases hm
          exact K.grow h hsize

theorem release (h : P g) (b : Nat) : P (g.release b) := by
  rw [release_eq]
  exact K.of_lists h rfl rfl

theorem flushRun : ∀ (rest : List Nat) {g : Pool}, P g → P (rest.foldl flushOne g)
  | [], _, h => h
  | m :: rest, _, h => flushRun rest (K.coalesce h m none _)

theorem freeBlock (h : P g) (b : Nat) : P (g.freeBlock b) := by
  unfold Pool.freeBlock
  split
  · split
    · have hstart : ∀ i, P (g.flushStart b i) := fun i => by
        rw [flushStart_eq]
        exact K.of_lists h rfl rfl
      exact K.flushRun _ (hstart _)
    · exact K.of_lists h rfl rfl
  · exact K.coalesce (K.release h b) _ _ _

end Listwise

/-! ## Places -/

/-- The blocks of the client's table, of the quick lists and of the free lists. -/
def places (g : Pool) (live : List Allocation) : List Nat :=
  live.map (fun x => x.ptr - 16) ++ (List.range 10).flatMap g.quick ++
    (List.range 10).flatMap g.free

theorem mem_lists {l : Nat → List Nat} {b : Nat} :
    b ∈ (List.range 10).flatMap l ↔ ∃ i < 10, b ∈ l i := by
  simp only [List.mem_flatMap, List.mem_range]

/-- Lists that share no block make up one list without repetition. -/
theorem nodup_lists {l : Nat → List Nat} (hl : ∀ i < 10, (l i).Nodup)
    (hone : ∀ {i j b}, i < 10 → j < 10 → b ∈ l i → b ∈ l j → i = j) :
    ((List.range 10).flatMap l).Nodup := by
  refine List.nodup_flatMap.mpr ⟨fun i hi => hl i (List.mem_range.mp hi), ?_⟩
  refine List.nodup_range.pairwise_of_forall_ne fun i hi j hj hne => ?_
  exact fun b hb hb' => hne (hone (List.mem_range.mp hi) (List.mem_range.mp hj) hb hb')

section Places

variable {live : List Allocation} (I : g.Inv e) (T : Table g live)

include T

theorem mem_held {b : Nat} :
    b ∈ live.map (fun x => x.ptr - 16) ↔ ∃ h, g.Used b h := by
  rw [List.mem_map]
  constructor
  · rintro ⟨x, hx, rfl⟩
    obtain ⟨a, h, hp, hu, _⟩ := T.held x hx
    exact ⟨h, by rwa [hp, show nextOf a - 16 = a from Nat.add_sub_cancel a 16]⟩
  · rintro ⟨h, hu⟩
    obtain ⟨x, hx, hp⟩ := T.all hu
    exact ⟨x, hx, by rw [hp, show nextOf b - 16 = b from Nat.add_sub_cancel b 16]⟩

include I

theorem mem_places {b : Nat} : b ∈ g.places live ↔ ∃ h, g.hdr b = some h := by
  unfold places
  rw [List.mem_append, List.mem_append, mem_held T, mem_lists, mem_lists]
  constructor
  · rintro ((⟨h, hu⟩ | ⟨i, hi, hb⟩) | ⟨i, hi, hb⟩)
    · exact ⟨h, hu.1⟩
    · exact (I.quick_mem hi hb).imp fun _ h => h.1
    · exact (I.free_mem hi hb).imp fun _ h => h.1
  · rintro ⟨h, hh⟩
    cases hal : h.alloc with
    | false => exact .inr ⟨_, freeIndex_lt _, I.listed hh hal List.not_mem_nil⟩
    | true =>
      refine .inl ?_
      by_cases hq : ∃ i < 10, b ∈ g.quick i
      · exact .inr hq
      · exact .inl ⟨h, hh, hal, fun i hi hb => hq ⟨i, hi, hb⟩⟩

theorem nodup_places : (g.places live).Nodup := by
  unfold places
  have hheld : (live.map fun x => x.ptr - 16).Nodup := by
    refine List.Nodup.map_on (f := fun x : Allocation => x.ptr - 16) (fun x hx y hy he => ?_)
      T.nodup.of_map
    obtain ⟨a, _, hxa, _⟩ := T.held x hx
    obtain ⟨b, _, hyb, _⟩ := T.held y hy
    have hptr : x.ptr = y.ptr := by
      unfold nextOf at hxa hyb
      omega
    exact List.inj_on_of_nodup_map T.nodup hx hy hptr
  have hquick : ((List.range 10).flatMap g.quick).Nodup := by
    refine nodup_lists I.quick_nodup fun hi hj hb hb' => ?_
    obtain ⟨h, hh, _, hsize⟩ := I.quick_mem hi hb
    obtain ⟨k, hk, _, hsize'⟩ := I.quick_mem hj hb'
    rw [hh] at hk
    cases hk
    omega
  refine List.nodup_append.mpr ⟨List.nodup_append.mpr ⟨hheld, hquick, ?_⟩,
    nodup_lists I.free_nodup fun hi hj hb hb' => I.free_unique hi hj hb hb', ?_⟩
  · rintro b hb _ hb' rfl
    obtain ⟨h, hu⟩ := (mem_held T).mp hb
    obtain ⟨i, hi, hb'⟩ := mem_lists.mp hb'
    exact hu.2.2 i hi hb'
  · -- a block of a free list is not allocated
    rintro b hb _ hb' rfl
    obtain ⟨i, hi, hb'⟩ := mem_lists.mp hb'
    have hal : ∃ h, g.hdr b = some h ∧ h.alloc = true := by
      rcases List.mem_append.mp hb with hb | hb
      · obtain ⟨h, hu⟩ := (mem_held T).mp hb
        exact ⟨h, hu.1, hu.2.1⟩
      · obtain ⟨j, hj, hb⟩ := mem_lists.mp hb
        obtain ⟨h, hh, hal, _⟩ := I.quick_mem hj hb
        exact ⟨h, hh, hal⟩
    obtain ⟨h, hh, hal⟩ := hal
    exact I.not_free_of_alloc hh hal hi hb'

end Places

end Pool

/-! ## Runs -/

/-- One sound call on an initialised heap keeps what every operation of the pool keeps. -/
theorem Tracks.pools {e : Env} {P : Pool → List Allocation → Prop} {s s' : Sys} {g : Pool}
    {op : Op} (T : Tracks e s.live s.heap g) (hP : P g s.live)
    (hmalloc : ∀ {g g' : Pool} {live : List Allocation} {n r : Nat} {stale : Bool}, n < 2 ^ 64 →
      g.Inv e → (n ≠ 0 → intNeg n = false → g.Unserved (blockSize n) → g.Growable e n) →
      P g live → g.malloc e n stale = some (r, g') → P g' (Op.after live r (.malloc n)))
    (hfree : ∀ {g : Pool} {live : List Allocation} {b : Nat}, Pool.Takes g (g.freeBlock b) b →
      P g live → P (g.freeBlock b) (live.filter fun x => x.ptr ≠ nextOf b))
    (hrestart : ∀ {g : Pool} {live : List Allocation}, P g live → P { g with touched := [] } live)
    (hstep : Step e (Sound e) s op s') : ∃ g, Tracks e s'.live s'.heap g ∧ P g s'.live := by
  obtain ⟨hvalid, hcond, r, hret, hlive⟩ := hstep
  cases op with
  | malloc n =>
    obtain ⟨stale, g', hm, T'⟩ := T.malloc_to hvalid hcond hret
    refine ⟨_, hlive ▸ T', hrestart ?_⟩
    rw [hlive]
    exact hmalloc hvalid T.inv (T.growable_of_ok hcond) hP hm
  | realloc p n => exact hcond.elim
  | free p =>
    obtain ⟨b, k, rfl, hu, T'⟩ := T.free_to hvalid hcond hret
    have hok : FreeOk e s.heap b := hcond
    have htakes := (T.inv.freeBlock hu fun i hq hlen => ((T.freeable hu hok).flush i hq hlen).1).2
    refine ⟨_, hlive ▸ T', hrestart ?_⟩
    rw [hlive]
    exact hfree htakes hP
  | write addr v =>
    refine ⟨g, ?_, ?_⟩ <;> rw [hlive]
    · exact T.write hvalid.2 hret
    · exact hP

/-- The first call is a request. -/
theorem Start.op_malloc {e : Env} {s : Sys} (hS : Start e s) :
    ∀ {op : Op}, op.Valid s.live → ∃ n, op = .malloc n
  | .malloc n, _ => ⟨n, rfl⟩
  | .free _, ⟨x, hx, _⟩ => by
    rw [hS.none_live] at hx
    cases hx
  | .realloc _ _, ⟨⟨x, hx, _⟩, _⟩ => by
    rw [hS.none_live] at hx
    cases hx
  | .write _ _, ⟨_, x, hx, _⟩ => by
    rw [hS.none_live] at hx
    cases hx

/-- What every operation of the pool keeps holds in every state of a sound run. -/
theorem Reached.pools {e : Env} {P : Pool → List Allocation → Prop}
    (hfirst : ∀ errno growCalls, P (.initial e errno growCalls) [])
    (hmalloc : ∀ {g g' : Pool} {live : List Allocation} {n r : Nat} {stale : Bool}, n < 2 ^ 64 →
      g.Inv e → (n ≠ 0 → intNeg n = false → g.Unserved (blockSize n) → g.Growable e n) →
      P g live → g.malloc e n stale = some (r, g') → P g' (Op.after live r (.malloc n)))
    (hfree : ∀ {g : Pool} {live : List Allocation} {b : Nat}, Pool.Takes g (g.freeBlock b) b →
      P g live → P (g.freeBlock b) (live.filter fun x => x.ptr ≠ nextOf b))
    (hrestart : ∀ {g : Pool} {live : List Allocation}, P g live → P { g with touched := [] } live)
    {s : Sys} (h : Reached e (Sound e) s) :
    Start e s ∨ ∃ g, Tracks e s.live s.heap g ∧ P g s.live := by
  refine h.invariant (I := fun s => Start e s ∨ ∃ g, Tracks e s.live s.heap g ∧ P g s.live)
    (fun _ hS => .inl hS) fun s op s' hs hstep => ?_
  rcases hs with hS | ⟨g, T, hP⟩
  · obtain ⟨hvalid, hcond, r, hret, hlive⟩ := hstep
    obtain ⟨n, rfl⟩ := hS.op_malloc hvalid
    refine (malloc_pool (P := fun _ => False) (Q := fun g' => P g' s'.live) (.inl hS) hvalid hcond
      hret hlive (fun _ hc _ => hc.elim) fun T hm => ?_).imp_right
        fun ⟨_, T, hP⟩ => ⟨_, T, hrestart hP⟩
    rw [hlive, hS.none_live]
    exact hmalloc hvalid T.inv (T.growable_of_ok (initial_mallocOk T n)) (hfirst _ _) hm
  · exact .inr (T.pools hP hmalloc hfree hrestart hstep)

theorem Reached.ringed {e : Env} {s : Sys} (h : Reached e (Sound e) s) :
    Start e s ∨ ∃ g, Tracks e s.live s.heap g ∧ g.Ringed e :=
  have K := Pool.ringed_listwise (e := e)
  h.pools (P := fun g _ => g.Ringed e) Pool.initial_ringed (fun hn _ _ hP hm => K.malloc hP hn hm)
    (fun _ hP => K.freeBlock hP _) fun hP => K.of_lists hP rfl rfl

/-! ## What is seen of it -/

/-- The blocks that the client holds, those of the quick lists and those of the free lists. -/
def places (e : Env) (s : Sys) : List Nat :=
  s.live.map (fun x => x.ptr - 16) ++ (List.range 10).flatMap (quickBlocks s.heap) ++
    (List.range 10).flatMap (freeBlocks e s.heap)

/-- Every block has one place, which its header agrees with; the sizes of the blocks and the 16
bytes that belong to none add up to the heap; every free list is a ring. -/
structure Accounted (e : Env) (s : Sys) : Prop where
  once : (places e s).Nodup
  all : ∀ b, b ∈ places e s ↔ IsBlock e s.heap b
  bytes : ((places e s).map (sizeAt e s.heap)).sum + 16 = s.heap.sf_mem_end - e.sf_mem_start
  live : ∀ x ∈ s.live, AllocAt e s.heap (x.ptr - 16) ∧ x.size + 8 ≤ sizeAt e s.heap (x.ptr - 16)
  quick : ∀ i < 10, ∀ b ∈ quickBlocks s.heap i,
    AllocAt e s.heap b ∧ sizeAt e s.heap b = 32 + 16 * i
  free : ∀ i < 10, ∀ b ∈ freeBlocks e s.heap i,
    ¬ AllocAt e s.heap b ∧ InClass i (sizeAt e s.heap b)
  ring : ∀ i < 10, FreeList e s.heap
    (decide ((freeBlocks e s.heap i).getLast? ≠ some e.sf_mem_start)) i (freeBlocks e s.heap i)

theorem Tracks.places_eq {e : Env} {s : Sys} {g : Pool} (T : Tracks e s.live s.heap g) :
    places e s = g.places s.live := by
  have hlists : ∀ {l l' : Nat → List Nat}, (∀ i < 10, l i = l' i) →
      (List.range 10).flatMap l = (List.range 10).flatMap l' := fun h =>
    List.flatMap_congr fun i hi => h i (List.mem_range.mp hi)
  unfold places Pool.places
  rw [hlists fun i hi => T.rep.quickBlocks_eq T.inv.idle hi,
    hlists fun i hi => T.rep.freeBlocks_eq hi]

/-- Where no block is allocated there is only one. -/
theorem Pool.Inv.single {e : Env} {g : Pool} (I : g.Inv e)
    (hfree : ∀ {a h}, g.hdr a = some h → h.alloc = false) :
    ∃ h, g.Last e.sf_mem_start h ∧ ∀ a, (∃ k, g.hdr a = some k) → a = e.sf_mem_start := by
  obtain ⟨k, hk⟩ := I.tiles.first
  obtain ⟨h, hh, rfl⟩ := Pool.sizes_some.mp hk
  have h1 := I.inside hh
  have hend : e.sf_mem_start + h.size + 16 = g.memEnd := by
    rcases I.tiles.next hk with hend | ⟨_, hl⟩
    · omega
    · -- a second block would be a free one behind a free one
      obtain ⟨l, hl, _⟩ := Pool.sizes_some.mp hl
      rcases I.coalesced hh hl (hfree hh) (hfree hl) with hc | hc <;> cases hc
  refine ⟨h, ⟨hh, hend⟩, fun a ⟨l, hl⟩ => ?_⟩
  have h2 := I.inside hl
  rcases I.cases_apart hh hl with heq | hle | hle <;> omega

/-- In a sound run all of the heap is one free block again, in the list of its size, once the
client holds nothing and the quick lists are empty. -/
theorem one_block_of_sound {e : Env} {s : Sys} (h : Reached e (Sound e) s)
    (hpages : s.heap.sf_mem_end ≠ e.sf_mem_start) (hlive : s.live = [])
    (hquick : ∀ i < 10, (s.heap.sf_quick_lists i).length = 0) :
    IsLast e s.heap e.sf_mem_start ∧ ¬ AllocAt e s.heap e.sf_mem_start ∧
      ∀ i < 10, freeBlocks e s.heap i =
        if i = freeIndex (sizeAt e s.heap e.sf_mem_start) then [e.sf_mem_start] else [] := by
  obtain ⟨g, T⟩ := h.sane.resolve_left fun hS => hpages hS.empty
  have R := T.rep
  have I := T.inv
  have hfree : ∀ {a k}, g.hdr a = some k → k.alloc = false := by
    intro a k hk
    by_contra hal
    rw [Bool.not_eq_false] at hal
    obtain ⟨x, hx, _⟩ := T.table.all ⟨hk, hal, fun i hi hm => by
      rw [List.eq_nil_of_length_eq_zero ((R.quick_length I.idle hi).symm.trans (hquick i hi))] at hm
      cases hm⟩
    rw [hlive] at hx
    cases hx
  obtain ⟨k, L, honly⟩ := I.single hfree
  refine ⟨(R.isLast_iff I.toSettling).mpr ⟨k, L⟩, (R.not_allocAt L.hdr).mpr (hfree L.hdr),
    fun i hi => ?_⟩
  rw [R.freeBlocks_eq hi, R.sizeAt_eq L.hdr]
  have honly' : ∀ a ∈ g.free i, a = e.sf_mem_start ∧ i = freeIndex k.size := fun a ha => by
    obtain ⟨l, hl, _, hclass⟩ := I.free_mem hi ha
    obtain rfl := honly a ⟨l, hl⟩
    rw [L.hdr] at hl
    cases hl
    exact ⟨rfl, hclass.symm⟩
  split
  · rename_i hik
    have hmem := I.listed L.hdr (hfree L.hdr) List.not_mem_nil
    rw [← hik] at hmem
    refine List.perm_singleton.mp ((List.perm_ext_iff_of_nodup (I.free_nodup i hi)
      (List.nodup_singleton _)).mpr fun a => ?_)
    rw [List.mem_singleton]
    exact ⟨fun ha => (honly' a ha).1, fun ha => ha ▸ hmem⟩
  · rename_i hik
    exact List.eq_nil_iff_forall_not_mem.mpr fun a ha => hik (honly' a ha).2

/-- After `malloc(300)` and `free` of it. -/
theorem one_block_of_sound_sample : ∃ s : Sys, s.heap.sf_mem_end = 0x101000 ∧
    IsLast sampleEnv s.heap 0x100000 ∧ freeBlocks sampleEnv s.heap 7 = [0x100000] := by
  have hrun : Ends (sf_malloc sampleEnv 1 300) sample.heap fun p t =>
      p = 0x100010 ∧ (t.sf_mem_end = 0x101000 ∧ sizeAt sampleEnv t 0x100000 = 320 ∧
        unflag (t.mem 0x100000 ^^^ sampleEnv.magic) > 0 ∧ t.sf_mem_end - 16 ≤
          sf_get_past_block 0x100000 (unflag (t.mem 0x100000 ^^^ sampleEnv.magic))) ∧
        Ends (sf_free sampleEnv 0x100010) t fun _ u => u.sf_mem_end = 0x101000 ∧
          (∀ i < 10, (u.sf_quick_lists i).length = 0) ∧
            freeIndex (sizeAt sampleEnv u 0x100000) = 7 := by
    decide +kernel
  obtain ⟨_, t, ht, rfl, ⟨hend, hsize, hpos, hpast⟩, _, u, hu, hend', hquick, hclass⟩ := hrun
  have hmalloc : Reached sampleEnv (Sound sampleEnv) ⟨t, [⟨0x100010, 300⟩]⟩ :=
    .step (i := .malloc 300) (sample_reached _) ⟨by decide, sample_mallocOk 300, _, ⟨1, ht⟩, rfl⟩
  have hok : FreeOk sampleEnv t 0x100000 := by
    refine ⟨fun i hi => ?_, fun _ => ?_, fun _ hlast => ?_⟩
    · rw [hsize] at hi
      cases hi
    · unfold FooterOk
      dsimp only
      rw [if_pos hpos]
      exact .inr (.inl hpast)
    · have hl := hlast.2
      rw [hsize, hend] at hl
      cases hl
  have hfree : Reached sampleEnv (Sound sampleEnv) ⟨u, []⟩ := by
    refine .step (i := .free 0x100010) hmalloc ⟨⟨⟨0x100010, 300⟩, List.mem_cons_self, rfl⟩, hok,
      NULL, ⟨0, ?_⟩, rfl⟩
    exact (bind_ok hu).trans rfl
  obtain ⟨hlast, _, hlists⟩ := one_block_of_sound hfree (fun hc => absurd (hend'.symm.trans hc)
    (by decide)) rfl hquick
  refine ⟨_, hend', hlast, ?_⟩
  exact (hlists 7 (by decide)).trans (if_pos hclass.symm)

end StarterProjects.Sfmm
