import StarterProjects.Sfmm.Client
import StarterProjects.Sfmm.Cut
import StarterProjects.Sfmm.Release

/-!
# A smaller request to `sf_realloc`

`sf_realloc` rounds the request twice: `difference` decides whether to cut the
block, and `newBlockSz` says where. Only the second has a minimum, so a block of
48 bytes is cut for a request of at most 8, and 16 bytes are left over. The cut
also stores through the first words of the payload (`sf_realloc_resize`).
-/

namespace StarterProjects.Sfmm

open Lib Lib.Exec

/-! ## The two roundings -/

theorem add64_iterate {a : Nat} : ∀ k, a + k < 2 ^ 64 → (fun d => add64 d 1)^[k] a = a + k
  | 0, _ => rfl
  | k + 1, h => by
    rw [Function.iterate_succ_apply', add64_iterate k (by omega), add64_of_lt (by omega),
      Nat.add_assoc]

section

variable {rsize : Nat}

theorem sf_realloc_difference_eq (h : rsize + 8 + padTurns rsize < 2 ^ 64) :
    sf_realloc_difference rsize = some (rsize + 8 + padTurns rsize) := by
  have hturns := padTurns_lt rsize
  unfold sf_realloc_difference
  rw [add64_of_lt (by omega)]
  have hloop := whileLoop_iterate (fun d : Nat => d % 16 != 0) (fun d => add64 d 1)
    (padTurns rsize) 64 (rsize + 8) (by omega)
    (fun j hj => by
      rw [add64_iterate j (by omega)]
      simp only [bne_iff_ne, ne_eq]
      unfold padTurns at hj
      omega)
    (by
      rw [add64_iterate _ h]
      simp only [bne_eq_false_iff_eq]
      unfold padTurns
      omega)
  rw [hloop, add64_iterate _ h]

theorem sf_realloc_newBlockSz_eq (h : blockSize rsize < 2 ^ 64) :
    sf_realloc_newBlockSz rsize = some (blockSize rsize) := by
  have hspec := blockSize_spec rsize
  have hend : rsize + 8 + (blockSize rsize - (rsize + 8)) = blockSize rsize := by omega
  unfold sf_realloc_newBlockSz
  rw [add64_of_lt (by omega)]
  have hloop := whileLoop_iterate (fun d : Nat => d % 16 != 0 || decide (d ≤ 16))
    (fun d => add64 d 1) (blockSize rsize - (rsize + 8)) 64 (rsize + 8) (by omega)
    (fun j hj => by
      rw [add64_iterate j (by omega)]
      simp only [Bool.or_eq_true, bne_iff_ne, ne_eq, decide_eq_true_eq]
      unfold blockSize at hj
      omega)
    (by
      rw [add64_iterate _ (by omega), hend]
      simp only [Bool.or_eq_false_iff, bne_eq_false_iff_eq, decide_eq_false_iff_not]
      omega)
  rw [hloop, add64_iterate _ (by omega), hend]

end

/-! ## What becomes of the block -/

/-- A call on the block at `b` gives it back as it is, or cut into a block of the size that
`sf_malloc` would use and a rest that is a block as well, with the free block behind or without. -/
def Resized (e : Env) (s : State) (b curBlockSz rsize p : Nat) (s' : State) : Prop :=
  p = nextOf b ∧ (s' = s ∨ ∃ newBlockSz rest more, sf_malloc_round rsize = some newBlockSz ∧
    Fits curBlockSz newBlockSz rest ∧ rest % 16 = 0 ∧ Cuts e s b newBlockSz rest more s')

/-- What would be left over is too small for a block. -/
def Uncut (curBlockSz rsize : Nat) : Prop :=
  curBlockSz = rsize + 8 ∨ curBlockSz - (rsize + 8 + padTurns rsize) < 32

instance (curBlockSz rsize : Nat) : Decidable (Uncut curBlockSz rsize) :=
  inferInstanceAs (Decidable (_ ∨ _))

/-- The cut takes the first words of the payload for links, and stores through them. -/
def LinksMapped (e : Env) (s : State) (b : Nat) : Prop :=
  mapped e s (nextOf (s.prv b)) ∧ mapped e s (prevOf (s.nxt b))

/-- The check of the block before ends the call: the PREV flag of the header `h` of `b` is clear,
and one block size before `b` there is, from `sf_mem_start` on, no word or one that looks
allocated. -/
def PastStops (e : Env) (s : State) (b h : Nat) : Prop :=
  h &&& PREV_BLOCK_ALLOCATED = 0 ∧ e.sf_mem_start ≤ sub64 b (stripFlags h) ∧
    (mapped e s (headerOf (sub64 b (stripFlags h))) →
      (s.mem (headerOf (sub64 b (stripFlags h))) ^^^ e.magic) &&& THIS_BLOCK_ALLOCATED ≠ 0)

section

variable {e : Env} {s : State} {b h : Nat}

theorem pastRejectedRealloc_passes (hp : ¬ PastStops e s b h) :
    pastRejectedRealloc e b h s = .ok (false, s) := by
  unfold pastRejectedRealloc sf_get_past_block
  by_cases hprev : h &&& PREV_BLOCK_ALLOCATED = 0
  · rw [if_pos hprev]
    by_cases hin : sub64 b (stripFlags h) ≥ e.sf_mem_start
    · have hword : mapped e s (headerOf (sub64 b (stripFlags h))) ∧
          (s.mem (headerOf (sub64 b (stripFlags h))) ^^^ e.magic) &&& THIS_BLOCK_ALLOCATED = 0 := by
        by_contra hne
        exact hp ⟨hprev, hin, fun hmap hzero => hne ⟨hmap, hzero⟩⟩
      rw [if_pos hin, bind_ok (load_ok hword.1), pure_apply]
      simp [hword.2]
    · rw [if_neg hin, pure_apply]
  · rw [if_neg hprev, pure_apply]

/-- The check reads a word that is not there, or finds an allocated block. -/
theorem pastRejectedRealloc_eq (hp : PastStops e s b h) : pastRejectedRealloc e b h s =
    if mapped e s (headerOf (sub64 b (stripFlags h))) then .ok (true, s)
    else .error .undefined := by
  obtain ⟨hprev, hin, hword⟩ := hp
  unfold pastRejectedRealloc sf_get_past_block
  rw [if_pos hprev, if_pos hin]
  split
  · rename_i hmap
    rw [bind_ok (load_ok hmap), pure_apply]
    simp [hword hmap]
  · rename_i hmap
    exact bind_error (if_neg hmap)

theorem pastRejectedRealloc_stops (hp : PastStops e s b h) :
    pastRejectedRealloc e b h s = .ok (true, s) ∨
      ∃ why, pastRejectedRealloc e b h s = .error why := by
  rw [pastRejectedRealloc_eq hp]
  split
  · exact .inl rfl
  · exact .inr ⟨_, rfl⟩

end

namespace LiveBlock

variable {e : Env} {s : State} {b : Nat} {h : Hdr} (L : LiveBlock e s b h)

include L

/-- The checks of the header pass, and what is left is the check of the block before. -/
theorem sf_realloc_entry (rsize fuel : Nat) :
    sf_realloc e fuel (nextOf b) rsize s = (pastRejectedRealloc e b h.word >>= fun bad =>
      if bad then do
        setErrno EINVAL
        stop .abort
      else if rsize = 0 then do
        sf_free e (nextOf b)
        pure NULL
      else sf_realloc_main e fuel (nextOf b) b h.size rsize) s := by
  have hstart := L.start
  have haligned := L.aligned
  have hpos := e.start_pos
  have hmod := L.size_mod
  unfold sf_realloc
  rw [L.sub_header]
  dsimp only
  rw [if_neg (by unfold NULL; omega), if_neg (by unfold nextOf; omega), bind_ok (get_apply s),
    bind_ok (load_ok L.mapped_header), L.header, xor_magic, if_neg L.accepted,
    Hdr.stripFlags_word (by omega)]

theorem sf_realloc_checked {rsize : Nat} (h0 : 0 < rsize) (fuel : Nat) :
    sf_realloc e fuel (nextOf b) rsize s = (pastRejectedRealloc e b h.word >>= fun bad =>
      if bad then do
        setErrno EINVAL
        stop .abort
      else sf_realloc_main e fuel (nextOf b) b h.size rsize) s := by
  rw [L.sf_realloc_entry]
  simp only [if_neg (Nat.pos_iff_ne_zero.mp h0)]

/-- A request that fits still fits when it is rounded up. -/
theorem difference_le {rsize : Nat} (hfit : rsize + 8 ≤ h.size) :
    rsize + 8 + padTurns rsize ≤ h.size := by
  have hmod := L.size_mod
  have hturns := padTurns_lt rsize
  have hround : (rsize + 8 + padTurns rsize) % 16 = 0 := by
    unfold padTurns
    omega
  omega

/-- What the sizes alone decide, for a request that fits in the block. -/
theorem sf_realloc_main_cases {rsize : Nat} (hfit : rsize + 8 ≤ h.size) (fuel : Nat) :
    sf_realloc_main e fuel (nextOf b) b h.size rsize s =
      if Uncut h.size rsize then .ok (nextOf b, s)
      else sf_realloc_split e b h.size (blockSize rsize) s := by
  have hmod := L.size_mod
  have hinside := L.inside
  have hlimit := L.limit
  have hle := L.difference_le hfit
  have hblock : blockSize rsize = max 32 (rsize + 8 + padTurns rsize) := by
    unfold blockSize padTurns
    omega
  unfold sf_realloc_main
  rw [sf_realloc_difference_eq (by omega), add64_of_lt (by omega)]
  dsimp only
  by_cases hsame : h.size = rsize + 8
  · rw [if_pos hsame, if_pos (show Uncut h.size rsize from .inl hsame), pure_apply]
  · rw [if_neg hsame, if_neg (by omega), if_pos (by omega), sub64_of_le hle (by omega)]
    by_cases hsplinter : h.size - (rsize + 8 + padTurns rsize) < 32
    · rw [if_pos hsplinter, if_pos (show Uncut h.size rsize from .inr hsplinter), pure_apply]
    · rw [if_neg hsplinter, if_neg fun hc : Uncut h.size rsize => hc.elim hsame hsplinter,
        sf_realloc_newBlockSz_eq (by omega)]

/-- A cut leaves two blocks, unless 48 bytes are cut for a request of at most 8. -/
theorem fits {rsize : Nat} (hcut : ¬ Uncut h.size rsize) (h48 : ¬ (rsize ≤ 8 ∧ h.size = 48)) :
    Fits h.size (blockSize rsize) (h.size - blockSize rsize) := by
  have hmod := L.size_mod
  have hspec := blockSize_spec rsize
  have hcut' : ¬ (h.size - (rsize + 8 + padTurns rsize) < 32) := fun hc => hcut (.inr hc)
  have hblock : blockSize rsize = max 32 (rsize + 8 + padTurns rsize) := by
    unfold blockSize padTurns
    omega
  exact ⟨by omega, by omega, by omega, by omega⟩

end LiveBlock

/-- The split loads both links and stores through them. -/
theorem sf_realloc_split_links {e : Env} {s : State} {b size n : Nat} {Q : Nat → State → Prop}
    (hn : 32 ≤ n) (hn16 : n % 16 = 0) (hsize : size % 16 = 0) (hle : n ≤ size)
    (hlimit : b + size < 2 ^ 64) (hends : Ends (sf_realloc_split e b size n) s Q) :
    LinksMapped e s b := by
  obtain ⟨p, s', hrun, -⟩ := hends
  unfold sf_realloc_split at hrun
  rw [add64_of_lt (by omega), sub64_of_le hle (by omega), or_prev_word (by omega)] at hrun
  obtain ⟨_, s1, h1, hrun⟩ := bind_eq_ok hrun
  obtain ⟨_, s2, h2, hrun⟩ := bind_eq_ok hrun
  obtain ⟨_, s3, h3, hrun⟩ := bind_eq_ok hrun
  obtain ⟨newPrev, s4, h4, hrun⟩ := bind_eq_ok hrun
  obtain ⟨newNext, s5, h5, hrun⟩ := bind_eq_ok hrun
  obtain ⟨_, s6, h6, hrun⟩ := bind_eq_ok hrun
  obtain ⟨_, s7, h7, -⟩ := bind_eq_ok hrun
  obtain ⟨-, rfl⟩ := store_eq_ok h1
  obtain ⟨-, rfl⟩ := store_eq_ok h2
  -- the footer lies behind the links
  have hfooter : ∃ v, s3 = ((s.put (headerOf (b + n)) ((Hdr.mk (size - n) false true).word ^^^
      e.magic)).put (prevFooterOf (b + n)) ((n ||| THIS_BLOCK_ALLOCATED) ^^^ e.magic)).put
        (b + size) v := by
    unfold sf_set_block_footer at h3
    obtain ⟨w, t, h3, hstore⟩ := bind_eq_ok h3
    obtain ⟨-, rfl, rfl⟩ := load_eq_ok h3
    obtain ⟨-, rfl⟩ := store_eq_ok hstore
    rw [State.put_mem, if_neg (by unfold headerOf prevFooterOf; omega), State.put_mem, if_pos rfl,
      xor_magic, Hdr.unflag_word (by dsimp only; omega), add64_of_lt (by dsimp only; omega),
      show b + n + (size - n) = b + size by omega]
    exact ⟨_, rfl⟩
  obtain ⟨v, rfl⟩ := hfooter
  obtain ⟨-, rfl, rfl⟩ := load_eq_ok h4
  obtain ⟨-, rfl, rfl⟩ := load_eq_ok h5
  obtain ⟨hprev, rfl⟩ := store_eq_ok h6
  obtain ⟨hnext, -⟩ := store_eq_ok h7
  have hkeep : ∀ x, x < b + 32 → (((s.put (headerOf (b + n)) ((Hdr.mk (size - n) false true).word
      ^^^ e.magic)).put (prevFooterOf (b + n)) ((n ||| THIS_BLOCK_ALLOCATED) ^^^ e.magic)).put
        (b + size) v).mem x = s.mem x := fun x hx => by
    simp only [State.put_mem]
    rw [if_neg (by omega), if_neg (by unfold prevFooterOf; omega),
      if_neg (by unfold headerOf; omega)]
  rw [hkeep (prevOf b) (by unfold prevOf; omega)] at hprev
  rw [hkeep (nextOf b) (by unfold nextOf; omega)] at hnext
  exact ⟨hprev, hnext⟩

/-- For a live block and a request that fits in it: if `sf_realloc` keeps the block or cuts it into
two blocks, the check of the block before has passed, and for a cut the words that are taken for
links point into memory. Conversely it does so when that check passes, unless the cut is that of 48
bytes for a request of at most 8, or its two stores through the links do harm. -/
theorem sf_realloc_resize {e : Env} {s : State} {b : Nat} {h : Hdr} (L : LiveBlock e s b h)
    {rsize : Nat} (h0 : 0 < rsize) (hfit : rsize + 8 ≤ h.size) (fuel : Nat) :
    (Ends (sf_realloc e fuel (nextOf b) rsize) s (Resized e s b h.size rsize) →
      ¬ PastStops e s b h.word ∧ (Uncut h.size rsize ∨ LinksMapped e s b)) ∧
    (¬ PastStops e s b h.word ∧ (Uncut h.size rsize ∨ ¬ (rsize ≤ 8 ∧ h.size = 48) ∧
        ∃ hdr free free', Unharmed e s b (b + blockSize rsize) h hdr free free') →
      Ends (sf_realloc e fuel (nextOf b) rsize) s (Resized e s b h.size rsize)) := by
  have hin := L.inside
  have hlimit := L.limit
  have hmod := L.size_mod
  have hspec := blockSize_spec rsize
  have hround := L.difference_le hfit
  have hmain := L.sf_realloc_main_cases hfit fuel
  have hchecked := L.sf_realloc_checked h0 fuel
  constructor
  · intro hends
    replace hends := hends.congr hchecked.symm
    have hpast : ¬ PastStops e s b h.word := fun hpast => by
      rcases pastRejectedRealloc_stops hpast with hbad | ⟨why, herr⟩
      · refine hends.ne_error .abort ?_
        rw [bind_ok hbad]
        rfl
      · exact hends.ne_error why (bind_error herr)
    refine ⟨hpast, ?_⟩
    by_cases hcut : Uncut h.size rsize
    · exact .inl hcut
    · right
      rw [if_neg hcut] at hmain
      have hle : blockSize rsize ≤ h.size := by
        have hcut' : ¬ (h.size - (rsize + 8 + padTurns rsize) < 32) := fun hc => hcut (.inr hc)
        unfold blockSize
        unfold padTurns at hcut'
        omega
      refine sf_realloc_split_links (by omega) (by omega) hmod hle (by omega)
        (.congr ?_ hends)
      rw [bind_ok (pastRejectedRealloc_passes hpast)]
      exact hmain.symm
  · rintro ⟨hpast, hcase⟩
    have hrun := hchecked.trans ((bind_ok (pastRejectedRealloc_passes hpast)).trans hmain)
    by_cases hcut : Uncut h.size rsize
    · rw [if_pos hcut] at hrun
      exact .of_eq hrun ⟨rfl, .inl rfl⟩
    · rw [if_neg hcut] at hrun
      obtain ⟨h48, hdr, free, free', U⟩ := hcase.resolve_left hcut
      have F := L.fits hcut h48
      have hround' : sf_malloc_round rsize = some (blockSize rsize) :=
        sf_malloc_round_of_lt (by omega)
      have hsum := F.sum
      refine .congr hrun ((U.split_ends F).mono fun p s' hcuts => ?_)
      obtain ⟨hp, more, C⟩ := hcuts
      exact ⟨hp, .inr ⟨_, _, more, hround', F, by omega, C⟩⟩

/-- The blocks of one page after `malloc(64)`. -/
def eightyHdr (a : Nat) : Option Hdr :=
  if a = 0x100050 then some ⟨4000, false, true⟩
  else if a = 0x100000 then some ⟨80, true, true⟩
  else none

theorem eightyHdr_some {a : Nat} {h : Hdr} (ha : eightyHdr a = some h) :
    (a = 0x100050 ∧ h = ⟨4000, false, true⟩) ∨ (a = 0x100000 ∧ h = ⟨80, true, true⟩) := by
  unfold eightyHdr at ha
  split at ha
  · cases ha
    exact .inl ⟨‹_›, rfl⟩
  · split at ha
    · cases ha
      exact .inr ⟨‹_›, rfl⟩
    · cases ha

/-- The free block is in its list, or in none. -/
theorem eighty_heap {t : State} {free : Nat → List Nat} (hend : t.sf_mem_end = 0x101000)
    (hused : t.mem 0x100008 = (Hdr.mk 80 true true).word ^^^ sampleEnv.magic)
    (hrest : t.mem 0x100058 = (Hdr.mk 4000 false true).word ^^^ sampleEnv.magic)
    (hring : ∀ i < 10, Path false t.nxt t.prv (sampleEnv.head i) (free i) (sampleEnv.head i))
    (hfree : ∀ i, free i = [] ∨ i = 7 ∧ free i = [0x100050]) :
    FreeHeap sampleEnv t eightyHdr free where
  limit := by
    rw [hend]
    decide
  pages := by
    rw [hend]
    decide
  end_aligned := by
    rw [hend]
  tiles := by
    rw [hend]
    refine twoFree_heap.tiles.congr fun x => ?_
    unfold twoFreeHdr eightyHdr
    split_ifs <;> rfl
  sizes := by
    intro a h ha
    rcases eightyHdr_some ha with ⟨rfl, rfl⟩ | ⟨rfl, rfl⟩ <;> decide
  header := by
    intro a h ha
    rcases eightyHdr_some ha with ⟨rfl, rfl⟩ | ⟨rfl, rfl⟩
    · exact hrest
    · exact hused
  ring := hring
  free_mem := by
    intro i a hi ha
    rcases hfree i with h0 | ⟨rfl, h1⟩
    · rw [h0] at ha
      exact absurd ha List.not_mem_nil
    · rw [h1] at ha
      rw [List.mem_singleton.mp ha]
      exact ⟨_, rfl, rfl, rfl⟩
  free_nodup := by
    intro i hi
    rcases hfree i with h0 | ⟨-, h1⟩
    · rw [h0]
      exact List.nodup_nil
    · rw [h1]
      exact List.nodup_singleton _

/-- `malloc(64)` and `realloc` to 8 bytes: the first two words of the payload are still the links
to the head of list 7, and the block is cut into 32 and 48 bytes. -/
theorem sf_realloc_resize_cut : ∃ s, LiveBlock sampleEnv s 0x100000 ⟨80, true, true⟩ ∧
    ¬ Uncut 80 8 ∧
    Ends (sf_realloc sampleEnv 0 0x100010 8) s (Resized sampleEnv s 0x100000 80 8) := by
  have hrun : ∃ t ∈ sample.exec sampleEnv 1 [.malloc 64], t.heap.sf_mem_end = 0x101000 ∧
      t.heap.mem 0x100008 = (Hdr.mk 80 true true).word ^^^ sampleEnv.magic ∧
      t.heap.mem 0x100058 = (Hdr.mk 4000 false true).word ^^^ sampleEnv.magic ∧
      (∀ i < 10, i ≠ 7 → t.heap.nxt (sampleEnv.head i) = sampleEnv.head i) ∧
      (t.heap.nxt 0x10e0 = 0x100050 ∧ t.heap.nxt 0x100050 = 0x10e0 ∧ t.heap.prv 0x100050 = 0x10e0) ∧
      t.heap.prv 0x100000 = 0x10e0 ∧ t.heap.nxt 0x100000 = 0x10e0 := by
    decide +kernel
  obtain ⟨t, -, hend, hused, hrest, hempty, hseven, hprv, hnxt⟩ := hrun
  have L : LiveBlock sampleEnv t.heap 0x100000 ⟨80, true, true⟩ :=
    ⟨rfl, hused, by decide, by decide, by decide, by decide, by rw [hend]; decide,
      by rw [hend]; decide⟩
  have hbefore : FreeHeap sampleEnv t.heap eightyHdr twoFreeLists := by
    refine eighty_heap hend hused hrest (fun i hi => ?_) fun i => ?_
    · unfold twoFreeLists
      split
      · next h7 =>
        subst h7
        exact ⟨hseven.1, hseven.2.2, hseven.2.1, fun hc => by cases hc⟩
      · exact ⟨hempty i hi ‹_›, fun hc => by cases hc⟩
    · unfold twoFreeLists
      split
      · exact .inr ⟨‹_›, rfl⟩
      · exact .inl rfl
  -- both stores go to the head of list 7, which forgets its block
  have hmem : ∀ x, (t.heap.relinked 0x100000).mem x =
      if x = 0x10f8 then 0x10e0 else if x = 0x10f0 then 0x10e0 else t.heap.mem x := fun x => by
    simp only [State.relinked, State.put_mem, hprv, hnxt, nextOf, prevOf]
  have hafter : FreeHeap sampleEnv (t.heap.relinked 0x100000) eightyHdr fun _ => [] := by
    refine eighty_heap hend ?_ ?_ (fun i hi => ⟨?_, fun hc => by cases hc⟩) fun _ => .inl rfl
    · rw [hmem, if_neg (by decide), if_neg (by decide), hused]
    · rw [hmem, if_neg (by decide), if_neg (by decide), hrest]
    · by_cases h7 : i = 7
      · subst h7
        exact hmem 0x10f0
      · have hne : nextOf (sampleEnv.head i) ≠ 0x10f8 ∧ nextOf (sampleEnv.head i) ≠ 0x10f0 := by
          simp only [nextOf, Env.head, sampleEnv]
          omega
        refine (hmem _).trans ?_
        rw [if_neg hne.1, if_neg hne.2]
        exact hempty i hi h7
  have U : Unharmed sampleEnv t.heap 0x100000 0x100020 ⟨80, true, true⟩ eightyHdr twoFreeLists
      fun _ => [] :=
    { before := hbefore
      block := rfl
      alloc := rfl
      mapped_prev := by
        rw [hprv]
        exact ⟨by decide, .inr (by decide)⟩
      mapped_next := by
        rw [hnxt]
        exact ⟨by decide, .inr (by decide)⟩
      aside := by
        rw [hprv, hnxt]
        rintro x (rfl | rfl) <;> decide
      after := hafter }
  refine ⟨t.heap, L, by decide, (sf_realloc_resize L (by decide) (by decide) 0).2
    ⟨fun hpast => ?_, .inr ⟨by decide, eightyHdr, twoFreeLists, _, U⟩⟩⟩
  exact absurd hpast.1 (by decide)

/-- `malloc(40)` twice, and `realloc` of the first block to 8 bytes: a block of 16 bytes is left. -/
theorem sf_realloc_leaves_16 : ¬ ∀ (e : Env) (s : State) (b : Nat) (h : Hdr) (rsize fuel : Nat),
    LiveBlock e s b h → 0 < rsize → rsize + 8 ≤ h.size →
      Ends (sf_realloc e fuel (nextOf b) rsize) s (Resized e s b h.size rsize) := by
  intro hall
  have hrun : ∃ t ∈ sample.exec sampleEnv 1 [.malloc 40, .malloc 40],
      (t.heap.sf_mem_end = 0x101000 ∧
        t.heap.mem 0x100008 = (Hdr.mk 48 true true).word ^^^ sampleEnv.magic) ∧
      Ends (sf_realloc sampleEnv 0 0x100010 8) t.heap fun _ s' =>
        unflag (s'.mem 0x100008 ^^^ sampleEnv.magic) = 32 ∧
          unflag (s'.mem 0x100028 ^^^ sampleEnv.magic) = 16 := by
    decide +kernel
  obtain ⟨t, -, ⟨hend, hheader⟩, p, s', hs', hblock, hrest⟩ := hrun
  have L : LiveBlock sampleEnv t.heap 0x100000 ⟨48, true, true⟩ :=
    ⟨rfl, hheader, by decide, by decide, by decide, by decide, by rw [hend]; decide,
      by rw [hend]; decide⟩
  have hends := hall sampleEnv t.heap 0x100000 _ 8 0 L (by decide) (by decide)
  obtain ⟨-, rfl | ⟨newBlockSz, rest, more, hround, F, -, -⟩⟩ := hends.apply hs'
  · rw [hheader] at hblock
    revert hblock
    decide
  · have hround' : sf_malloc_round 8 = some 32 := by decide
    rw [hround'] at hround
    have hnew := Option.some.inj hround
    have hsum := F.sum
    have hrest32 := F.rest_ge
    dsimp only at hsum
    omega

end StarterProjects.Sfmm
