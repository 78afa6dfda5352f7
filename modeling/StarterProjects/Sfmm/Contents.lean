import StarterProjects.Sfmm.Exhaustion
import StarterProjects.Sfmm.Resize

/-!
# What `sf_realloc` keeps

A smaller request keeps the bytes in front when the cut is harmless and no word that it writes is
among them. A larger one copies from the start of the block and not from its payload, so the
contents are kept only if it fails.
-/

namespace StarterProjects.Sfmm

open Lib Lib.Exec

/-- The `k` bytes at `q` are now what those at `p` were. -/
def SameBytes (mem mem' : Nat → Nat) (p q k : Nat) : Prop :=
  ∀ i < k, byteAt mem' (q + i) = byteAt mem (p + i)

theorem sameBytes_of_words {mem mem' : Nat → Nat} {p k : Nat} (hp : p % 8 = 0)
    (h : ∀ x, x % 8 = 0 → p ≤ x → x < p + k → mem' x = mem x) : SameBytes mem mem' p p k :=
  fun i hi => byteAt_congr (h _ (by omega) (by omega) (by omega))

/-- The pointer `p` is that of an allocated block with room for `n` bytes. -/
structure HeldAt (e : Env) (s : State) (p n : Nat) : Prop where
  block : IsBlock e s (p - 16)
  alloc : AllocAt e s (p - 16)
  not_quick : ∀ i < 10, p - 16 ∉ quickBlocks s i
  room : n + 8 ≤ sizeAt e s (p - 16)

/-- What `sfmm.h` says of a call for `n` bytes: `NULL` with `ENOMEM`, and the allocation stays; or a
pointer to enough room that begins with what the allocation held, beside all others. -/
def Contract (e : Env) (s : Sys) (a : Allocation) (n r : Nat) (s' : State) : Prop :=
  (r = NULL ∧ s'.sf_errno = ENOMEM ∧ HeldAt e s' a.ptr a.size ∧
    SameBytes s.heap.mem s'.mem a.ptr a.ptr a.size) ∨
  (r ≠ NULL ∧ HeldAt e s' r n ∧ SameBytes s.heap.mem s'.mem a.ptr r (min a.size n) ∧
    ∀ x ∈ s.live, x.ptr ≠ a.ptr → r + n ≤ x.ptr ∨ x.ptr + x.size ≤ r)

/-! ## Conditions -/

section Conditions

variable (e : Env) (s : State) (a : Allocation) (n : Nat)

/-- A larger request is refused: it is negative as an `int`, or exhausts the heap; and growing the
heap writes no word of the allocation. -/
def GrowFails : Prop :=
  intNeg n = true ∨ MallocOk e s n ∧ Exhausts e s n ∧ MallocSpares e ⟨s, [a]⟩

/-- What is left over is a block. The stores through the links do no harm, or take the free block
behind off its list; and no word that is written is among the bytes that are kept. -/
structure CutKeeps : Prop where
  rest : blockSize n + 32 ≤ sizeAt e s (a.ptr - 16)
  mapped : LinksMapped e s (a.ptr - 16)
  stores : LinksOk e s (a.ptr - 16) (blockSize n) (a.ptr - 16 + sizeAt e s (a.ptr - 16))
  next : (IsBlock e s (a.ptr - 16 + sizeAt e s (a.ptr - 16)) ∧
      ¬ AllocAt e s (a.ptr - 16 + sizeAt e s (a.ptr - 16))) ∨
    StrayOk e s (a.ptr - 16) (blockSize n) (a.ptr - 16 + sizeAt e s (a.ptr - 16))
  footer : min a.size n + 16 ≤ blockSize n
  links : ∀ x, a.ptr ≤ x → x < a.ptr + min a.size n → (s.relinked (a.ptr - 16)).mem x = s.mem x

/-- The check of the block before passes; a larger request is refused; and a smaller one leaves
room for the header and keeps the block, or cuts it harmlessly. -/
def Faithful : Prop :=
  let b := a.ptr - 16
  ¬ PastStops e s b (hdrAt e s b) ∧
    if sizeAt e s b < n then GrowFails e s a n
    else n + 8 ≤ sizeAt e s b ∧ (Uncut (sizeAt e s b) n ∨ CutKeeps e s a n)

end Conditions

/-- The headers and the quick lists decide what is held, not the links of the free lists. -/
theorem Represents.heldAt_outside {e : Env} {W : Nat → Prop} {m₀ : Nat → Nat} {s t : State}
    {g : Pool} {b n : Nat} {h : Hdr} (R : Represents e W m₀ t g)
    (tiles : Tiles e.sf_mem_start (g.memEnd - 16) g.sizes) (hbusy : g.busy = none)
    (hs : s = { t with mem := s.mem })
    (hmem : ∀ x, (∀ y, FreeNode e g y → x ≠ nextOf y ∧ x ≠ prevOf y) → s.mem x = t.mem x)
    (hu : g.Used b h) (hn : n + 8 ≤ h.size) : HeldAt e s (nextOf b) n := by
  have S := R.shape
  have hpages := S.pages
  unfold PAGE_SZ at hpages
  have hend : s.sf_mem_end = g.memEnd := by
    rw [hs]
    exact R.memEnd
  have hheader : ∀ {a k}, g.hdr a = some k → hdrAt e s a = k.word := fun ha => by
    rw [hdrAt, hmem _ (R.header_outside ha), R.header ha, xor_magic]
  have hsize : ∀ a k, g.hdr a = some k → sizeAt e s a = k.size := fun a k ha => by
    have h1 := S.inside ha
    rw [sizeAt, hheader ha, Hdr.unflag_word (by omega)]
  have hquick : ∀ i < 10, quickBlocks s i = g.quick i := fun i hi => by
    obtain ⟨hc, hl⟩ := R.chain i hi (hbusy ▸ (Option.some_ne_none i).symm)
    have hlists : s.sf_quick_lists = t.sf_quick_lists := by rw [hs]
    rw [quickBlocks, hlists, hl]
    exact nodes_chain (hc.congr fun a ha => hmem _ (R.quick_outside hi ha))
  refine ⟨?_, ?_, fun i hi => ?_, ?_⟩ <;>
    rw [show nextOf b - 16 = b from Nat.add_sub_cancel b 16]
  · exact isBlock_of_tiles tiles hend (by omega) hsize hu.1
  · have h1 := S.inside hu.1
    rw [AllocAt, hheader hu.1, Hdr.word_alloc (by omega), hu.2.1]
    decide
  · rw [hquick i hi]
    exact hu.2.2 i hi
  · rwa [hsize b h hu.1]

theorem Represents.heldAt {e : Env} {W : Nat → Prop} {m₀ : Nat → Nat} {s : State} {g : Pool}
    {b n : Nat} {h : Hdr} (R : Represents e W m₀ s g) (I : g.Inv e) (hu : g.Used b h)
    (hn : n + 8 ≤ h.size) : HeldAt e s (nextOf b) n :=
  R.heldAt_outside I.tiles I.idle rfl (fun _ _ => rfl) hu hn

namespace Tracks

variable {e : Env} {live : List Allocation} {s s' : State} {g : Pool} {a : Allocation} {n : Nat}
  (T : Tracks e live s g)

include T

theorem heldAt (ha : a ∈ live) : HeldAt e s a.ptr a.size := by
  obtain ⟨b, h, hp, hu, hsize⟩ := T.table.held a ha
  rw [hp]
  exact T.rep.heldAt T.inv hu hsize

/-- Allocations that fit in a block are beside those of the other blocks. -/
theorem live_apart {b : Nat} {h : Hdr} (hu : g.Used b h) (hn : n + 8 ≤ h.size) {x : Allocation}
    (hx : x ∈ live) (hne : x.ptr ≠ nextOf b) :
    nextOf b + n ≤ x.ptr ∨ x.ptr + x.size ≤ nextOf b := by
  obtain ⟨c, k, hc, hv, hsize⟩ := T.table.held x hx
  have h1 := T.rep.shape.cases_apart hu.1 hv.1
  unfold nextOf at hc hne ⊢
  omega

/-- A larger request that is refused. -/
theorem grow_fails (hn : n < 2 ^ 64) (hn0 : 0 < n) (ha : a ∈ live) (hg : GrowFails e s a n) :
    ∃ s', (∀ fuel, sf_malloc e (fuel + 2) n s = .ok (NULL, s')) ∧ s'.sf_errno = ENOMEM ∧
      HeldAt e s' a.ptr a.size ∧ SameBytes s.mem s'.mem a.ptr a.ptr a.size := by
  have hlive : ∀ y ∈ [a], y ∈ live := fun y hy => List.mem_singleton.mp hy ▸ ha
  have hmono : ∀ {s'}, sf_malloc e 2 n s = .ok (NULL, s') →
      ∀ fuel, sf_malloc e (fuel + 2) n s = .ok (NULL, s') := fun h fuel =>
    sf_malloc_below (Nat.le_add_left 2 fuel) s _ h
  have hptr : a.ptr % 8 = 0 := by
    obtain ⟨b, h, hp, hu, -⟩ := T.table.held a ha
    have h1 := T.rep.shape.inside hu.1
    unfold nextOf at hp
    omega
  have hok : MallocOk e s n := by
    rcases hg with hneg | hok
    · exact fun _ hc => absurd (hneg.symm.trans hc) (by decide)
    · exact hok.1
  have hheld : ∀ {s'}, sf_malloc e 2 n s = .ok (NULL, s') → HeldAt e s' a.ptr a.size := fun h => by
    obtain ⟨_, _, _, T'⟩ := T.malloc_to hn hok ⟨2, h⟩
    rw [Op.after, if_pos rfl] at T'
    exact T'.heldAt ha
  rcases hg with hneg | ⟨-, hex, hsp⟩
  · obtain ⟨stale, hcall⟩ := T.malloc_call hn hok
    have hm : g.malloc e n stale = some (NULL, g.setErrno ENOMEM) := by
      rw [Pool.malloc, if_neg (Nat.pos_iff_ne_zero.mp hn0), if_pos hneg]
    rw [hm] at hcall
    obtain ⟨_, s', hrun, rfl, R⟩ := hcall 0
    refine ⟨s', hmono hrun, R.errno, hheld hrun, sameBytes_of_words hptr fun x h8 h1 h2 =>
      R.kept ?_ ?_⟩
    · exact (T.inPayload h8 ⟨a, ha, h1, h2⟩).still T.rep.shape h8
    · change x ∉ g.touched
      rw [T.untouched]
      exact List.not_mem_nil
  · obtain ⟨s', hret, hclean, -⟩ := T.exhausted hn hok hex
    have hrun : sf_malloc e 2 n s = .ok (NULL, s') := by
      obtain ⟨fuel, hrun⟩ := id hret
      obtain ⟨stale, hcall⟩ := T.malloc_call hn hok
      cases hm : g.malloc e n stale with
      | none =>
        rw [hm] at hcall
        have h1 := (hcall fuel).symm.trans hrun
        cases h1
      | some q =>
        rw [hm] at hcall
        obtain ⟨r, t, ht, _⟩ := hcall 0
        obtain ⟨rfl, rfl⟩ := Returns.malloc_unique ⟨2, ht⟩ hret
        exact ht
    exact ⟨s', hmono hrun, hclean.errno, hheld hrun, sameBytes_of_words hptr fun x h8 h1 h2 =>
      T.malloc_keeps hlive hn hok (fun _ _ _ => hsp) hret h8
        ⟨a, List.mem_singleton.mpr rfl, h1, h2⟩⟩

/-- The cut leaves the bytes in front, whatever the lists look like afterwards. -/
theorem cut_keeps {b : Nat} {h : Hdr} (hu : g.Used b h) (hp : a.ptr = nextOf b)
    (hok : CutKeeps e s a n) :
    Ends (sf_realloc_split e b h.size (blockSize n)) s fun r s' => r = a.ptr ∧
      HeldAt e s' a.ptr n ∧ SameBytes s.mem s'.mem a.ptr a.ptr (min a.size n) := by
  have S := T.rep.shape
  have I := T.inv
  have h1 := S.inside hu.1
  have hspec := blockSize_spec n
  obtain ⟨hrest, hmapped, hstores, hnext, hfooter, hlinks⟩ := hok
  rw [hp, show nextOf b - 16 = b from Nat.add_sub_cancel b 16] at hrest hmapped hstores hnext hlinks
  rw [T.rep.sizeAt_eq hu.1] at hrest hstores hnext
  rw [hp]
  have C : g.Cuttable b (blockSize n) h := ⟨hu, hspec.1, hspec.2.1, hrest⟩
  -- the words that are kept
  generalize hW : (fun x => x % 8 = 0 ∧ nextOf b ≤ x ∧ x < nextOf b + min a.size n) = W
  have hW' : ∀ x, W x → Still e g x ∧ (x < b + blockSize n ∨ b + h.size < x) ∧
      (s.relinked b).mem x = s.mem x ∧ x < b + blockSize n := by
    rw [← hW]
    rintro x ⟨h8, h2, h3⟩
    unfold nextOf at h2 h3
    exact ⟨Pool.InPayload.still ⟨b, h, hu, h2, by omega⟩ S h8, .inl (by omega), hlinks x h2 h3,
      by omega⟩
  have hsame : ∀ {s' : State}, (∀ x, W x → s'.mem x = s.mem x) →
      SameBytes s.mem s'.mem (nextOf b) (nextOf b) (min a.size n) := fun h => by
    refine sameBytes_of_words (by unfold nextOf; omega) fun x h8 h2 h3 => h x ?_
    rw [← hW]
    exact ⟨h8, h2, h3⟩
  by_cases hfree : IsBlock e s (b + h.size) ∧ ¬ AllocAt e s (b + h.size)
  · have hcut : CutOk e s b (blockSize n) := by
      have hsz := T.rep.sizeAt_eq hu.1
      refine ⟨?_, ?_, ?_, ?_⟩ <;> rw [hsz]
      exacts [hrest, hfree.1, hfree.2, hstores]
    obtain ⟨k, C, hends⟩ := T.cut_ends hu hcut hmapped fun x hx =>
      ⟨(hW' x hx).1, (hW' x hx).2.1, (hW' x hx).2.2.1⟩
    refine hends.mono fun r s' ⟨hr, R⟩ => ⟨hr, R.heldAt (C.inv I) (C.used_front S) hspec.2.2.1,
      hsame fun x hx => R.kept hx ?_⟩
    -- the words that the merge writes lie behind
    have h2 := (hW' x hx).2.2.2
    rw [C.trim_touched S, T.untouched, List.mem_cons, List.mem_singleton]
    omega
  · have hafter : ∀ k, g.hdr (b + h.size) = some k → k.alloc = true := fun k hk => by
      by_contra hal
      exact hfree ⟨(T.rep.isBlock_iff I.toSettling).mpr ⟨k, hk⟩,
        (T.rep.not_allocAt hk).mpr (Bool.eq_false_iff.mpr hal)⟩
    refine ((T.rep.rewatch fun x hx => (hW' x hx).1).alone_ends C I hafter
      (T.stray (hnext.resolve_left hfree)) hmapped.1 hmapped.2 T.untouched fun x hx =>
        ⟨(hW' x hx).2.1, (hW' x hx).2.2.1⟩).mono ?_
    rintro r s' ⟨hr, t, R, hs', hmem⟩
    refine ⟨hr, R.heldAt_outside (C.tiles I) I.idle hs' hmem ⟨C.hdr_front, rfl, hu.2.2⟩
      hspec.2.2.1, hsame fun x hx => ?_⟩
    refine (hmem x (R.still_outside (R.watch hx))).trans (R.kept hx ?_)
    change x ∉ g.touched
    rw [T.untouched]
    exact List.not_mem_nil

/-- Whether it is refused or done in place, such a call leaves the bytes where they are. -/
theorem faithful_ends (hn : n < 2 ^ 64) (hn0 : 0 < n) (ha : a ∈ live) (hok : Faithful e s a n)
    (fuel : Nat) : Ends (sf_realloc e (fuel + 2) a.ptr n) s (Contract e ⟨s, live⟩ a n) := by
  obtain ⟨b, h, hp, hu, -⟩ := T.table.held a ha
  have L := T.rep.liveBlock hu.1 hu.2.1
  obtain ⟨hpast, hok⟩ := hok
  rw [hp, show nextOf b - 16 = b from Nat.add_sub_cancel b 16, T.rep.hdrAt_eq hu.1] at hpast
  rw [hp, show nextOf b - 16 = b from Nat.add_sub_cancel b 16, T.rep.sizeAt_eq hu.1] at hok
  have hrun := (L.sf_realloc_checked hn0 (fuel + 2)).trans
    (bind_ok (pastRejectedRealloc_passes hpast))
  rw [← hp] at hrun
  refine .congr hrun ?_
  rw [if_neg Bool.false_ne_true, hp]
  by_cases hlt : h.size < n
  · rw [if_pos hlt] at hok
    obtain ⟨s', hm, hrefused⟩ := T.grow_fails hn hn0 ha hok
    have hmain : sf_realloc_main e (fuel + 2) (nextOf b) b h.size n s = .ok (NULL, s') := by
      rw [L.sf_realloc_main_bigger hlt hn, sf_realloc_bigger, bind_ok (hm fuel), if_pos rfl,
        pure_apply]
    exact .of_eq hmain (.inl ⟨rfl, hrefused⟩)
  · rw [if_neg hlt] at hok
    obtain ⟨hfit, hcase⟩ := hok
    have hmain := L.sf_realloc_main_cases hfit (fuel + 2)
    have hnull : nextOf b ≠ NULL := by
      have h1 := L.start
      unfold nextOf NULL
      omega
    have hapart : ∀ x ∈ live, x.ptr ≠ a.ptr → nextOf b + n ≤ x.ptr ∨ x.ptr + x.size ≤ nextOf b :=
      fun x hx hne => T.live_apart hu hfit hx (hp ▸ hne)
    by_cases hcut : Uncut h.size n
    · rw [if_pos hcut] at hmain
      exact .of_eq hmain (.inr ⟨hnull, T.rep.heldAt T.inv hu hfit, hp ▸ fun i _ => rfl, hapart⟩)
    · rw [if_neg hcut] at hmain
      refine .congr hmain ((T.cut_keeps hu hp (hcase.resolve_left hcut)).mono ?_)
      rintro r s' ⟨rfl, hheld, hsame⟩
      exact .inr ⟨hp ▸ hnull, hheld, hsame, hp ▸ hapart⟩

end Tracks

/-- In a careful run a call that meets the condition does what `sfmm.h` says. -/
theorem realloc_keeps {e : Env} {s : Sys} {a : Allocation} {n : Nat}
    (h : Reached e (Careful e) s) (ha : a ∈ s.live) (hn0 : 0 < n) (hn : n < 2 ^ 64)
    (hok : Faithful e s.heap a n) (fuel : Nat) :
    Ends (sf_realloc e (fuel + 2) a.ptr n) s.heap (Contract e s a n) := by
  rcases h.careful with hS | ⟨g, T⟩
  · rw [hS.none_live] at ha
    cases ha
  exact T.faithful_ends hn hn0 ha hok fuel

/-- `malloc(200)`, `malloc(64)`, a store behind the first two words of the second block, and
`realloc` of it to 32 bytes: it is cut, and the stored byte is still there. -/
theorem realloc_keeps_cut : ∃ s : Sys, s.live = [⟨0x1000e0, 64⟩, ⟨0x100010, 200⟩] ∧
    byteAt s.heap.mem 0x1000f0 = 65 ∧ Ends (sf_realloc sampleEnv 2 0x1000e0 32) s.heap
      fun r t => r = 0x1000e0 ∧ sizeAt sampleEnv t 0x1000d0 = 48 ∧
        Contract sampleEnv s ⟨0x1000e0, 64⟩ 32 r t := by
  have hrun : ∃ s ∈ sample.execSeen sampleEnv 2 [.malloc 200, .malloc 64, .write 0x1000f0 65],
      (s.live = [⟨0x1000e0, 64⟩, ⟨0x100010, 200⟩] ∧ byteAt s.heap.mem 0x1000f0 = 65) ∧
      (0x100120 ∈ firstBlocks sampleEnv s.heap ∧ ¬ AllocAt sampleEnv s.heap 0x100120) ∧
      (hdrAt sampleEnv s.heap 0x1000d0 = 86 ∧ s.heap.prv 0x1000d0 = s.heap.prv 0x100120 ∧
        s.heap.nxt 0x1000d0 = s.heap.nxt 0x100120) ∧
      (s.heap.prv 0x1000d0 = 0x10e0 ∧ s.heap.nxt 0x1000d0 = 0x10e0) ∧
      Ends (sf_realloc sampleEnv 2 0x1000e0 32) s.heap fun r t => r = 0x1000e0 ∧
        sizeAt sampleEnv t 0x1000d0 = 48 := by
    decide +kernel
  obtain ⟨s, hs, ⟨hlive, hbyte⟩, ⟨hnext, hfree⟩, ⟨hhdr, hprv, hnxt⟩, ⟨hp, hn⟩, hends⟩ := hrun
  have hsize : sizeAt sampleEnv s.heap 0x1000d0 = 80 := by
    rw [sizeAt, hhdr]
    decide
  have hcut : CutKeeps sampleEnv s.heap ⟨0x1000e0, 64⟩ 32 := by
    refine ⟨?_, ?_, ?_, ?_, by decide, fun x h1 h2 => ?_⟩
    · change blockSize 32 + 32 ≤ sizeAt sampleEnv s.heap 0x1000d0
      rw [hsize]
      decide
    · change mapped sampleEnv s.heap (nextOf (s.heap.prv 0x1000d0)) ∧
        mapped sampleEnv s.heap (prevOf (s.heap.nxt 0x1000d0))
      rw [hp, hn]
      exact ⟨⟨by decide, .inr (by decide)⟩, ⟨by decide, .inr (by decide)⟩⟩
    · change LinksOk sampleEnv s.heap 0x1000d0 _ (0x1000d0 + sizeAt sampleEnv s.heap 0x1000d0)
      rw [hsize]
      exact .inl ⟨hprv, hnxt⟩
    · change (IsBlock sampleEnv s.heap (0x1000d0 + sizeAt sampleEnv s.heap 0x1000d0) ∧
        ¬ AllocAt sampleEnv s.heap (0x1000d0 + sizeAt sampleEnv s.heap 0x1000d0)) ∨ _
      rw [hsize]
      exact .inl ⟨isBlock_of_first hnext, hfree⟩
    · change (s.heap.relinked 0x1000d0).mem x = s.heap.mem x
      simp only [State.relinked, State.put_mem, hp, hn]
      unfold nextOf prevOf
      rw [if_neg (by dsimp only at h1; omega), if_neg (by dsimp only at h1; omega)]
  have hok : Faithful sampleEnv s.heap ⟨0x1000e0, 64⟩ 32 := by
    refine ⟨fun hpast => ?_, ?_⟩
    · have h1 := hpast.1
      change hdrAt sampleEnv s.heap 0x1000d0 &&& _ = 0 at h1
      rw [hhdr] at h1
      exact absurd h1 (by decide)
    · change if sizeAt sampleEnv s.heap 0x1000d0 < 32 then _ else _
      rw [hsize, if_neg (by decide)]
      refine ⟨?_, .inr hcut⟩
      change 32 + 8 ≤ sizeAt sampleEnv s.heap 0x1000d0
      rw [hsize]
      decide
  obtain ⟨r, t, ht, hr, h48⟩ := hends
  have hcontract := (realloc_keeps ((sample_reached _).execSeen hs).careful_of_sound
    (a := ⟨0x1000e0, 64⟩) (by rw [hlive]; exact List.mem_cons_self) (by decide) (by decide) hok
    0).apply ht
  exact ⟨s, hlive, hbyte, r, t, ht, hr, h48, hcontract⟩

/-- `malloc(64)`, a store of 65 to its first byte, and `realloc` to 200 bytes: the copy starts at
the old block, two words before its payload. -/
theorem realloc_copies_header : ¬ ∀ (e : Env) (s : Sys) (a : Allocation) (n r : Nat) (s' : State),
    Reached e (fun _ _ => True) s → a ∈ s.live → 0 < n → n < 2 ^ 64 →
      Returns e s.heap (.realloc a.ptr n) r s' → Contract e s a n r s' := by
  intro hall
  have hrun : ∃ s ∈ sample.exec sampleEnv 2 [.malloc 64, .write 0x100010 65],
      s.live = [⟨0x100010, 64⟩] ∧ Ends (sf_realloc sampleEnv 2 0x100010 200) s.heap fun r t =>
        r = 0x100060 ∧ byteAt t.mem 0x100060 ≠ byteAt s.heap.mem 0x100010 := by
    decide +kernel
  obtain ⟨s, hs, hlive, _, t, ht, rfl, hne⟩ := hrun
  rcases hall sampleEnv s ⟨0x100010, 64⟩ 200 0x100060 t ((sample_reached _).exec (by simp) hs)
    (by rw [hlive]; exact List.mem_cons_self) (by decide) (by decide) ⟨2, by
      change sf_realloc sampleEnv 2 0x100010 200 s.heap = _
      exact ht⟩ with ⟨hr, _⟩ | ⟨_, _, hsame, _⟩
  · exact absurd hr (by decide)
  · exact hne (hsame 0 (by decide))

end StarterProjects.Sfmm
