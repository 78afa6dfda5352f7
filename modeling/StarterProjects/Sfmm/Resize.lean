import StarterProjects.Sfmm.Trim

/-!
# Runs with `sf_realloc`

`sf_realloc` frees, keeps, cuts or moves the block. `ReallocOk` says of the heap before a call
that none of this corrupts the heap: the cut has a free block behind it and its stray stores do no
harm, and the calls of `sf_malloc` and `sf_free` that move the block meet their own conditions.
-/

namespace StarterProjects.Sfmm

open Lib Lib.Exec

/-! ## The pool -/

/-- A bigger block for the one at `b`, which is freed if there is one. -/
def Pool.move (e : Env) (g : Pool) (b n : Nat) (stale : Bool) : Option (Nat × Pool) :=
  (g.malloc e n stale).map fun q =>
    if q.1 = NULL then (NULL, q.2) else (q.1, { q.2 with touched := [] }.freeBlock b)

/-- `sf_realloc` of the block at `b`, for an allocator without memory. A request of exactly the
block size is refused. -/
def Pool.realloc (e : Env) (g : Pool) (b n : Nat) (stale : Bool) : Option (Nat × Pool) :=
  if n = 0 then
    some (NULL, g.freeBlock b)
  else if g.sizeOf b < n then
    g.move e b n stale
  else if g.sizeOf b = n then
    some (NULL, g)
  else if Uncut (g.sizeOf b) n then
    some (nextOf b, g)
  else
    some (nextOf b, g.trim b (blockSize n))

/-! ## Conditions on a call -/

section Conditions

variable (e : Env) (s : State)

/-- The word `x` belongs to the payload of an allocated block that is in no quick list. -/
def PayloadAt (x : Nat) : Prop :=
  ∃ a, IsBlock e s a ∧ AllocAt e s a ∧ (∀ i < 10, a ∉ quickBlocks s i) ∧
    nextOf a ≤ x ∧ x ≤ a + sizeAt e s a

/-- The stores through the words at the front of the payload of `b` go to payloads, or change
nothing, and spare what is cut off, up to `c`. -/
def StrayOk (b n c : Nat) : Prop :=
  ∀ x, x = nextOf (s.prv b) ∨ x = prevOf (s.nxt b) →
    (x < b + n ∨ c < x) ∧ ((s.relinked b).mem x = s.mem x ∨ PayloadAt e s x)

/-- Or they take the free block at `c` off its list. -/
def LinksOk (b n c : Nat) : Prop :=
  (s.prv b = s.prv c ∧ s.nxt b = s.nxt c) ∨ StrayOk e s b n c

/-- The block at `b` can be cut after `n` bytes: what is left over is a block, the block behind is
free, and the stores do no harm. -/
structure CutOk (b n : Nat) : Prop where
  rest : n + 32 ≤ sizeAt e s b
  next : IsBlock e s (b + sizeAt e s b)
  next_free : ¬ AllocAt e s (b + sizeAt e s b)
  links : LinksOk e s b n (b + sizeAt e s b)

/-- The heap when `sf_realloc` has found a bigger block and filled it, and is about to free the
block at `b`. -/
def Moved (b n : Nat) (s₂ : State) : Prop :=
  ∃ q s₁, Returns e s (.malloc n) q s₁ ∧ q ≠ NULL ∧
    memcpyWords e ((sizeAt e s b - 8) / 8) q b s₁ = .ok ((), s₂)

/-- The calls that `sf_realloc` makes meet their conditions; a request that is not too large is the
block size itself, or leaves room for the header. -/
def ReallocOk (b n : Nat) : Prop :=
  if n = 0 then FreeOk e s b
  else if sizeAt e s b < n then MallocOk e s n ∧ ∀ s₂, Moved e s b n s₂ → FreeOk e s₂ b
  else sizeAt e s b = n ∨
    n + 8 ≤ sizeAt e s b ∧ (Uncut (sizeAt e s b) n ∨ CutOk e s b (blockSize n))

end Conditions

/-! ## What the sizes decide -/

theorem add64_iterate_mod (a : Nat) : ∀ k, (fun d => add64 d 1)^[k] a % 16 = (a + k) % 16
  | 0 => rfl
  | k + 1 => by
    have hk := add64_iterate_mod a k
    rw [Function.iterate_succ_apply']
    unfold add64 at hk ⊢
    omega

/-- The first rounding ends, though it may wrap. -/
theorem sf_realloc_difference_some (rsize : Nat) : ∃ d, sf_realloc_difference rsize = some d := by
  unfold sf_realloc_difference
  generalize add64 rsize 8 = a
  refine ⟨_, whileLoop_iterate (fun d : Nat => d % 16 != 0) (fun d => add64 d 1)
    ((16 - a % 16) % 16) 64 a (by omega) (fun j hj => ?_) ?_⟩
  · rw [add64_iterate_mod]
    simp only [bne_iff_ne, ne_eq]
    omega
  · rw [add64_iterate_mod]
    simp only [bne_eq_false_iff_eq]
    omega

/-- `memcpy` writes its `n` words and nothing else. -/
theorem memcpyWords_ok {e : Env} : ∀ {n dst src : Nat} {s s' : State},
    memcpyWords e n dst src s = .ok ((), s') → s' = { s with mem := s'.mem } ∧
      ∀ x, x < dst ∨ dst + 8 * n ≤ x → s'.mem x = s.mem x
  | 0, _, _, _, _, h => by
    cases h
    exact ⟨rfl, fun _ _ => rfl⟩
  | n + 1, dst, src, s, s', h => by
    rw [memcpyWords] at h
    obtain ⟨_, s₁, h1, h⟩ := bind_eq_ok h
    obtain ⟨_, s₂, h2, h⟩ := bind_eq_ok h
    obtain ⟨-, rfl, rfl⟩ := load_eq_ok h1
    obtain ⟨-, rfl⟩ := store_eq_ok h2
    obtain ⟨hs, hrest⟩ := memcpyWords_ok h
    refine ⟨hs, fun x hx => ?_⟩
    rw [hrest x (by omega), State.put_mem, if_neg (by omega)]

/-- It goes through where all its words are mapped. -/
theorem memcpyWords_runs {e : Env} : ∀ {n dst src : Nat} {s : State},
    (∀ i < n, mapped e s (dst + 8 * i) ∧ mapped e s (src + 8 * i)) →
      ∃ s', memcpyWords e n dst src s = .ok ((), s')
  | 0, _, _, s, _ => ⟨s, rfl⟩
  | n + 1, dst, src, s, hmap => by
    have h0 : mapped e s dst ∧ mapped e s src := hmap 0 (Nat.succ_pos n)
    have hrest : ∀ i < n, mapped e s (dst + 8 + 8 * i) ∧ mapped e s (src + 8 + 8 * i) :=
      fun i hi => by
        have h1 := hmap (i + 1) (Nat.succ_lt_succ hi)
        rwa [show dst + 8 * (i + 1) = dst + 8 + 8 * i by omega,
          show src + 8 * (i + 1) = src + 8 + 8 * i by omega] at h1
    obtain ⟨s', hs'⟩ := memcpyWords_runs (s := s.put dst (s.mem src)) hrest
    refine ⟨s', ?_⟩
    rw [memcpyWords, bind_ok (load_ok h0.2), bind_ok (store_ok h0.1)]
    exact hs'

namespace LiveBlock

variable {e : Env} {s : State} {b : Nat} {h : Hdr} (L : LiveBlock e s b h)

include L

theorem sf_realloc_main_bigger {rsize : Nat} (hlt : h.size < rsize) (hn : rsize < 2 ^ 64)
    (fuel : Nat) : sf_realloc_main e fuel (nextOf b) b h.size rsize s =
      sf_realloc_bigger e fuel b h.size rsize s := by
  have hsize := L.size_ge
  obtain ⟨d, hd⟩ := sf_realloc_difference_some rsize
  unfold sf_realloc_main
  rw [hd]
  dsimp only
  rw [if_neg (by unfold add64; omega), if_pos hlt]

/-- A request of the block size is refused without a word. -/
theorem sf_realloc_main_same (fuel : Nat) :
    sf_realloc_main e fuel (nextOf b) b h.size h.size s = .ok (NULL, s) := by
  have hinside := L.inside
  have hlimit := L.limit
  obtain ⟨d, hd⟩ := sf_realloc_difference_some h.size
  unfold sf_realloc_main
  rw [hd]
  dsimp only
  rw [if_neg (by unfold add64; omega), if_neg (by omega), if_neg (by omega), pure_apply]

/-- A call that returns has passed the check of the block before. -/
theorem sf_realloc_ok {rsize fuel r : Nat} {s' : State}
    (hrun : sf_realloc e fuel (nextOf b) rsize s = .ok (r, s')) :
    ¬ PastStops e s b h.word ∧
      (if rsize = 0 then do
        sf_free e (nextOf b)
        pure NULL
      else sf_realloc_main e fuel (nextOf b) b h.size rsize) s = .ok (r, s') := by
  rw [L.sf_realloc_entry] at hrun
  have hpast : ¬ PastStops e s b h.word := fun hpast => by
    rcases pastRejectedRealloc_stops hpast with hbad | ⟨why, herr⟩
    · rw [bind_ok hbad] at hrun
      cases hrun
    · rw [bind_error herr] at hrun
      cases hrun
  rw [bind_ok (pastRejectedRealloc_passes hpast)] at hrun
  exact ⟨hpast, hrun⟩

end LiveBlock

/-! ## The table -/

namespace Table

variable {g g' : Pool} {live : List Allocation} (T : Table g live)

include T

/-- The block at `b` is kept with another request. -/
theorem resized {b n : Nat} {h k : Hdr} (hu : g.Used b h) (hu' : g'.Used b k)
    (hothers : ∀ a l, a ≠ b → (g'.Used a l ↔ g.Used a l)) (hn : n + 8 ≤ k.size) :
    Table g' (⟨nextOf b, n⟩ :: live.filter fun x => x.ptr ≠ nextOf b) where
  nodup := by
    refine List.nodup_cons.mpr ⟨fun hm => ?_, T.nodup.sublist (List.filter_sublist.map _)⟩
    obtain ⟨x, hx, he⟩ := List.mem_map.mp hm
    have hne := (List.mem_filter.mp hx).2
    simp [he] at hne
  held := fun x hx => by
    rcases List.mem_cons.mp hx with rfl | hx
    · exact ⟨b, k, rfl, hu', hn⟩
    · obtain ⟨hx, hne⟩ := List.mem_filter.mp hx
      obtain ⟨a, l, h1, h2, h3⟩ := T.held x hx
      have hab : a ≠ b := by
        rintro rfl
        simp [h1] at hne
      exact ⟨a, l, h1, (hothers a l hab).mpr h2, h3⟩
  all := fun {a l} hua => by
    by_cases hab : a = b
    · exact ⟨_, List.mem_cons_self, by rw [hab]⟩
    · obtain ⟨x, hx, he⟩ := T.all ((hothers a l hab).mp hua)
      have hne : nextOf a ≠ nextOf b := by
        unfold nextOf
        omega
      exact ⟨x, List.mem_cons_of_mem _ (List.mem_filter.mpr ⟨hx, by simpa [he] using hne⟩), he⟩

end Table

/-! ## The step -/

namespace Tracks

variable {e : Env} {live : List Allocation} {s s' : State} {g : Pool}
  (T : Tracks e live s g)

include T

theorem inPayload_of_at {x : Nat} (h : PayloadAt e s x) : g.InPayload x := by
  obtain ⟨a, hblock, hal, hquick, h1, h2⟩ := h
  obtain ⟨l, hl⟩ := (T.rep.isBlock_iff T.inv.toSettling).mp hblock
  rw [T.rep.allocAt_iff hl] at hal
  rw [T.rep.sizeAt_eq hl] at h2
  exact ⟨a, l, ⟨hl, hal, fun i hi hm => hquick i hi (by rwa [T.rep.quickBlocks_eq T.inv.idle hi])⟩,
    h1, h2⟩

theorem trimmable {b n : Nat} {h : Hdr} (hu : g.Used b h) (hn : 32 ≤ n) (hn16 : n % 16 = 0)
    (hok : CutOk e s b n) : ∃ k, g.Trimmable b n h k := by
  have hsize := T.rep.sizeAt_eq hu.1
  have hnext := hok.next
  have hfree := hok.next_free
  have hrest := hok.rest
  rw [hsize] at hnext hfree hrest
  obtain ⟨k, hk⟩ := (T.rep.isBlock_iff T.inv.toSettling).mp hnext
  exact ⟨k, ⟨hu, hn, hn16, hrest⟩, hk, (T.rep.not_allocAt hk).mp hfree⟩

theorem stray {b n c : Nat} (hok : StrayOk e s b n c) : g.Stray s b n c :=
  fun x hx => ⟨(hok x hx).1, (hok x hx).2.imp_right T.inPayload_of_at⟩

theorem harmless {b n c : Nat} (hok : LinksOk e s b n c) : g.Harmless s b n c :=
  hok.imp_right T.stray

/-- The cut of a block that meets `CutOk`, with the words of `W` watched. -/
theorem cut_ends {W : Nat → Prop} {b n : Nat} {h : Hdr} (hu : g.Used b h)
    (hok : CutOk e s b (blockSize n)) (hlinks : LinksMapped e s b)
    (hW : ∀ x, W x → Still e g x ∧ (x < b + blockSize n ∨ b + h.size < x) ∧
      (s.relinked b).mem x = s.mem x) :
    ∃ k, g.Trimmable b (blockSize n) h k ∧
      Ends (sf_realloc_split e b h.size (blockSize n)) s fun r s' =>
        r = nextOf b ∧ Represents e W s.mem s' (g.trim b (blockSize n)) := by
  have hspec := blockSize_spec n
  obtain ⟨k, C⟩ := T.trimmable hu hspec.1 hspec.2.1 hok
  have hharm := T.harmless hok.links
  rw [T.rep.sizeAt_eq hu.1] at hharm
  exact ⟨k, C, (T.rep.rewatch fun x hx => (hW x hx).1).trim_ends C T.inv hharm hlinks.1 hlinks.2
    T.untouched fun x hx => (hW x hx).2⟩

theorem cut_to {b n r : Nat} {h : Hdr} (hu : g.Used b h) (hok : CutOk e s b (blockSize n))
    (hrun : sf_realloc_split e b h.size (blockSize n) s = .ok (r, s')) :
    r = nextOf b ∧ Tracks e (⟨nextOf b, n⟩ :: live.filter fun x => x.ptr ≠ nextOf b) s'
      { g.trim b (blockSize n) with touched := [] } := by
  have S := T.rep.shape
  have h1 := S.inside hu.1
  have h2 := S.lt_two_pow hu.1
  have hspec := blockSize_spec n
  have hrest := hok.rest
  rw [T.rep.sizeAt_eq hu.1] at hrest
  have hlinks := sf_realloc_split_links hspec.1 hspec.2.1 h1.2.2.2.1 (by omega) (by omega)
    (Q := fun _ _ => True) ⟨_, _, hrun, trivial⟩
  obtain ⟨k, C, hends⟩ := T.cut_ends (W := fun _ => False) hu hok hlinks nofun
  obtain ⟨hr, R⟩ := hends.apply hrun
  exact ⟨hr, Tracks.restart (C.inv T.inv) R
    (T.table.resized hu (C.used_front S) (fun _ _ => C.used_others S) hspec.2.2.1)⟩

/-- The copy into a new block. -/
theorem copy_to {a b k : Nat} {h : Hdr} (hu : g.Used a h) (hk : 8 * k + 16 ≤ h.size)
    (hrun : memcpyWords e k (nextOf a) b s = .ok ((), s')) : Tracks e live s' g := by
  have h1 := T.rep.shape.inside hu.1
  obtain ⟨hs, hmem⟩ := memcpyWords_ok hrun
  have R := T.rep.store_payloads hs fun x hne => by
    refine ⟨id, a, h, hu, ?_⟩
    by_contra hc
    exact hne (hmem x (by unfold nextOf at hc ⊢; omega))
  exact ⟨T.inv, R.rewatch nofun, T.table, T.untouched⟩

/-- The copy into a new block ends. -/
theorem copy_ends {a b k : Nat} {l h : Hdr} (ha : g.Used a l) (hb : g.Used b h)
    (hl : 8 * k + 16 ≤ l.size) (hh : 8 * k ≤ h.size) :
    Ends (memcpyWords e k (nextOf a) b) s fun _ s' => Tracks e live s' g := by
  have h1 := T.rep.shape.inside ha.1
  have h2 := T.rep.shape.inside hb.1
  have hmap : ∀ i < k, mapped e s (nextOf a + 8 * i) ∧ mapped e s (b + 8 * i) := fun i hi => by
    unfold nextOf
    exact ⟨T.rep.mapped_heap (by omega) (by omega) (by omega),
      T.rep.mapped_heap (by omega) (by omega) (by omega)⟩
  obtain ⟨s', hrun⟩ := memcpyWords_runs hmap
  exact ⟨(), s', hrun, T.copy_to ha hl hrun⟩

/-- What `sf_malloc` returns is another block than the one at `b`, which stays. -/
theorem new_block {b n q : Nat} {h : Hdr} {s₁ : State} (hu : g.Used b h) (hn : n < 2 ^ 64)
    (hmalloc : MallocOk e s n) (hret : Returns e s (.malloc n) q s₁) (hq : q ≠ NULL) :
    ∃ stale g' a k, g.malloc e n stale = some (q, g') ∧ q = nextOf a ∧ a ≠ b ∧ g'.Used a k ∧
      n + 8 ≤ k.size ∧ g'.Used b h ∧ Tracks e (⟨q, n⟩ :: live) s₁ { g' with touched := [] } := by
  obtain ⟨stale, g', hg', T₁⟩ := T.malloc_to hn hmalloc hret
  have hlive : Op.after live q (.malloc n) = ⟨q, n⟩ :: live := if_neg hq
  rw [hlive] at T₁
  obtain ⟨a, rfl, hgives⟩ := (T.inv.malloc (T.growable_of_ok hmalloc) hg').2.resolve_left
    fun hc => hq hc.1
  obtain ⟨k, hk, hksize⟩ := hgives.used
  have hspec := blockSize_spec n
  have hab : a ≠ b := fun he => hgives.fresh h (he ▸ hu)
  exact ⟨stale, g', a, k, hg', rfl, hab, hk, by omega, (hgives.others b h hab.symm).mpr hu, T₁⟩

/-- The heap with the copy in the new block, before the old one is freed. -/
theorem moved_to {b n q : Nat} {h : Hdr} {s₁ s₂ : State} (hu : g.Used b h) (hn : n < 2 ^ 64)
    (hlt : h.size < n) (hmalloc : MallocOk e s n) (hret : Returns e s (.malloc n) q s₁)
    (hq : q ≠ NULL) (hcopy : memcpyWords e ((h.size - 8) / 8) q b s₁ = .ok ((), s₂)) :
    q ≠ nextOf b ∧ ∃ stale g', g.malloc e n stale = some (q, g') ∧ g'.Used b h ∧
      Tracks e (⟨q, n⟩ :: live) s₂ { g' with touched := [] } := by
  have h1 := T.rep.shape.inside hu.1
  obtain ⟨stale, g', a, k, hg', rfl, hab, hk, hsize, hub, T₁⟩ :=
    T.new_block hu hn hmalloc hret hq
  exact ⟨fun he => hab (Nat.add_right_cancel he), stale, g', hg', hub,
    T₁.copy_to (a := a) (h := k) hk (by omega) hcopy⟩

/-- Moving the block: `sf_malloc`, the copy and `sf_free`. -/
theorem bigger_to {b n r fuel : Nat} {h : Hdr} (hu : g.Used b h) (hn : n < 2 ^ 64)
    (hlt : h.size < n) (hmalloc : MallocOk e s n) (hfree : ∀ s₂, Moved e s b n s₂ → FreeOk e s₂ b)
    (hrun : sf_realloc_bigger e fuel b h.size n s = .ok (r, s')) :
    ∃ stale g', g.move e b n stale = some (r, g') ∧
      Tracks e (if r = NULL then live else ⟨r, n⟩ :: live.filter fun x => x.ptr ≠ nextOf b) s'
        { g' with touched := [] } := by
  have h2 := T.rep.shape.lt_two_pow hu.1
  unfold sf_realloc_bigger at hrun
  obtain ⟨q, s₁, hm, hrun⟩ := bind_eq_ok hrun
  have hret : Returns e s (.malloc n) q s₁ := ⟨fuel, hm⟩
  by_cases hq : q = NULL
  · obtain ⟨stale, g', hg', T₁⟩ := T.malloc_to hn hmalloc hret
    rw [if_pos hq] at hrun
    cases hrun
    have hlive : Op.after live q (.malloc n) = live := if_pos hq
    rw [hlive] at T₁
    refine ⟨stale, g', ?_, by rwa [if_pos rfl]⟩
    rw [Pool.move, hg', hq]
    rfl
  · rw [if_neg hq] at hrun
    obtain ⟨_, s₂, hcopy, hrun⟩ := bind_eq_ok hrun
    obtain ⟨_, s₃, hf, hrun⟩ := bind_eq_ok hrun
    cases hrun
    obtain ⟨hne, stale, g', hg', -, T₂⟩ := T.moved_to hu hn hlt hmalloc hret hq hcopy
    have hok := hfree s₂ ⟨_, s₁, hret, hq, by rw [T.rep.sizeAt_eq hu.1]; exact hcopy⟩
    have hb : Live (⟨r, n⟩ :: live) (nextOf b) :=
      let ⟨x, hx, he⟩ := T.table.all hu
      ⟨x, List.mem_cons_of_mem _ hx, he⟩
    have hret₂ : Returns e s₂ (.free (nextOf b)) NULL s' := ⟨0, by
      change (sf_free e (nextOf b) >>= fun _ => pure NULL) s₂ = _
      rw [add64_of_lt (by omega)] at hf
      rw [nextOf, bind_ok hf]
      rfl⟩
    obtain ⟨b', _, hb', _, T₃⟩ := T₂.free_to hb
      (by rwa [show nextOf b - 16 = b from Nat.add_sub_cancel b 16]) hret₂
    obtain rfl : b = b' := Nat.add_right_cancel hb'
    refine ⟨stale, { g' with touched := [] }.freeBlock b, ?_, ?_⟩
    · rw [Pool.move, hg', Option.map_some, if_neg hq]
    rw [if_neg hq]
    have hfilter : Op.after (⟨r, n⟩ :: live) NULL (.free (nextOf b)) =
        ⟨r, n⟩ :: live.filter fun x => x.ptr ≠ nextOf b :=
      List.filter_cons_of_pos (p := fun x : Allocation => decide (x.ptr ≠ nextOf b))
        (decide_eq_true hne)
    rwa [hfilter] at T₃

/-- After `sf_realloc` the memory represents what `Pool.realloc` makes of the pool. -/
theorem realloc_to {p n r : Nat} (hp : Live live p) (hn : n < 2 ^ 64)
    (hok : ReallocOk e s (p - 16) n) (hret : Returns e s (.realloc p n) r s') :
    ∃ b h, p = nextOf b ∧ g.Used b h ∧ ∃ stale g', g.realloc e b n stale = some (r, g') ∧
      Tracks e (Op.after live r (.realloc p n)) s' { g' with touched := [] } := by
  obtain ⟨b, h, rfl, hu⟩ := T.table.used hp
  refine ⟨b, h, rfl, hu, ?_⟩
  obtain ⟨fuel, hrun⟩ := hret
  change sf_realloc e fuel (nextOf b) n s = .ok (r, s') at hrun
  have L := T.rep.liveBlock hu.1 hu.2.1
  have hsize := T.rep.sizeAt_eq hu.1
  obtain ⟨-, hrun⟩ := L.sf_realloc_ok hrun
  rw [show nextOf b - 16 = b from Nat.add_sub_cancel b 16] at hok
  unfold ReallocOk at hok
  rw [hsize] at hok
  unfold Pool.realloc Op.after
  rw [Pool.sizeOf_of_hdr hu.1]
  by_cases h0 : n = 0
  · rw [if_pos h0] at hok hrun
    simp only [if_pos h0]
    obtain ⟨_, _, -, hr⟩ := bind_eq_ok hrun
    cases hr
    obtain ⟨b', _, hb', _, T'⟩ := T.free_to (p := nextOf b) hp
      (by rwa [show nextOf b - 16 = b from Nat.add_sub_cancel b 16]) ⟨0, hrun⟩
    obtain rfl : b = b' := Nat.add_right_cancel hb'
    exact ⟨true, _, rfl, T'⟩
  rw [if_neg h0] at hok hrun
  simp only [if_neg h0]
  have hnull : nextOf b ≠ NULL := by
    have h1 := L.start
    unfold nextOf NULL
    omega
  by_cases hlt : h.size < n
  · rw [if_pos hlt] at hok
    rw [L.sf_realloc_main_bigger hlt hn] at hrun
    simp only [if_pos hlt]
    exact T.bigger_to hu hn hlt hok.1 hok.2 hrun
  rw [if_neg hlt] at hok
  simp only [if_neg hlt]
  by_cases hsame : h.size = n
  · simp only [if_pos hsame]
    rw [← hsame, L.sf_realloc_main_same] at hrun
    cases hrun
    exact ⟨true, g, rfl, by rw [if_pos rfl]; exact Tracks.restart T.inv T.rep T.table⟩
  · obtain ⟨hfit, hcase⟩ := hok.resolve_left hsame
    simp only [if_neg hsame]
    rw [L.sf_realloc_main_cases hfit] at hrun
    by_cases hcut : Uncut h.size n
    · rw [if_pos hcut] at hrun
      cases hrun
      simp only [if_pos hcut, if_neg hnull]
      refine ⟨true, g, rfl, Tracks.restart T.inv T.rep ?_⟩
      exact T.table.resized hu hu (fun _ _ _ => Iff.rfl) hfit
    · rw [if_neg hcut] at hrun
      obtain ⟨rfl, T'⟩ := T.cut_to hu (hcase.resolve_left hcut) hrun
      simp only [if_neg hcut, if_neg hnull]
      exact ⟨true, _, rfl, T'⟩

end Tracks

/-! ## Runs -/

/-- The calls of a run with `sf_realloc` in which none runs into a defect that corrupts the
heap. -/
def Careful (e : Env) (s : Sys) : Op → Prop
  | .malloc n => MallocOk e s.heap n
  | .free p => FreeOk e s.heap (p - 16)
  | .realloc p n => ReallocOk e s.heap (p - 16) n
  | .write _ _ => True

theorem Careful.sound {e : Env} {s : Sys} : ∀ {op : Op}, Careful e s op →
    (∀ p n, op ≠ .realloc p n) → Sound e s op
  | .malloc _, h, _ => h
  | .free _, h, _ => h
  | .realloc p n, _, hne => absurd rfl (hne p n)
  | .write _ _, h, _ => h

theorem Sane.careful {e : Env} {s s' : Sys} {op : Op} (h : Sane e s)
    (hstep : Step e (Careful e) s op s') : Sane e s' := by
  obtain ⟨hvalid, hcond, r, hret, hlive⟩ := hstep
  by_cases hop : ∃ p n, op = .realloc p n
  · obtain ⟨p, n, rfl⟩ := hop
    rcases h with hS | ⟨g, T⟩
    · obtain ⟨⟨x, hx, _⟩, _⟩ := hvalid
      rw [hS.none_live] at hx
      cases hx
    · obtain ⟨_, _, _, _, _, _, _, T'⟩ := T.realloc_to hvalid.1 hvalid.2 hcond hret
      exact .inr ⟨_, hlive ▸ T'⟩
  · exact h.step ⟨hvalid, hcond.sound fun p n hc => hop ⟨p, n, hc⟩, r, hret, hlive⟩

theorem Reached.careful {e : Env} {s : Sys} (h : Reached e (Careful e) s) : Sane e s :=
  h.invariant (fun _ hS => .inl hS) fun _ _ _ hs hstep => hs.careful hstep

/-- A sound run makes no call of `sf_realloc`. -/
theorem Reached.careful_of_sound {e : Env} {s : Sys} (h : Reached e (Sound e) s) :
    Reached e (Careful e) s :=
  h.mono fun _ op _ hstep => ⟨hstep.valid, by
    have hcond := hstep.cond
    cases op with
    | realloc p n => exact hcond.elim
    | malloc n => exact hcond
    | free p => exact hcond
    | write addr v => exact hcond, hstep.returns⟩

end StarterProjects.Sfmm
