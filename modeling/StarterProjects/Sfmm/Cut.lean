import StarterProjects.Sfmm.Headers
import StarterProjects.Sfmm.Merge
import StarterProjects.Sfmm.Observe
import StarterProjects.Sfmm.Serve

/-!
# The cut of `sf_realloc`

`sf_realloc_split` takes the first words of the payload for the links of a free list and
writes through them. Then it puts the rest of the block into its list, and has it coalesced
as if it were in none.

`split_ends`: where the two words do no harm (`Unharmed`) there are two blocks afterwards, and
the second one may have swallowed the free block behind it.
-/

namespace StarterProjects.Sfmm

open Lib Lib.Exec

/-! ## Coalescing a block that is in a list -/

namespace Represents

variable {e : Env} {W : Nat → Prop} {m₀ : Nat → Nat} {s : State} {g : Pool}
  (R : Represents e W m₀ s g)

include R

/-- Without a free neighbour the block is put into its list a second time, and the list is none
any more. -/
theorem coalesce_alone {m n footer : Nat} (hm : g.hdr m = some ⟨n, false, true⟩)
    (hp : PastSeen e g m footer none)
    (hedge : m + n + 16 = g.memEnd ∨ ∃ k, g.hdr (m + n) = some k) (hfa : g.freeAfter m = none) :
    Ends (sf_coalesce e m n footer false) s fun _ s' => s' = { s with mem := s'.mem } ∧
      ∀ x, (∀ y, FreeNode e g y → x ≠ nextOf y ∧ x ≠ prevOf y) → s'.mem x = s.mem x := by
  obtain ⟨q, psz, nsz, -, -, hrun⟩ := R.coalesce_probed hm hp hedge
  rw [hfa] at hrun
  refine .congr hrun ?_
  exact (R.put_outside (n := n) (.inr ⟨_, hm, rfl⟩)).step fun _ s' houtside => .ret houtside

/-- A header is no link. -/
theorem header_outside {a : Nat} {h : Hdr} (ha : g.hdr a = some h) (y : Nat)
    (hy : FreeNode e g y) : headerOf a ≠ nextOf y ∧ headerOf a ≠ prevOf y :=
  (header_ne_link R.shape ha hy.node).imp Ne.symm Ne.symm

/-- Nor is a word that stays. -/
theorem still_outside {x : Nat} (hx : Still e g x) (y : Nat) (hy : FreeNode e g y) :
    x ≠ nextOf y ∧ x ≠ prevOf y := by
  rcases hy with ⟨i, hi, rfl⟩ | ⟨h, hy, hal⟩
  · have h1 := R.shape.limit
    have h2 := hx.start
    have h3 := hx.bound
    unfold nextOf prevOf Env.head
    rcases e.heads_apart with h4 | h4 <;> omega
  · have h1 := hx.not_free hy hal
    have h2 := R.shape.inside hy
    unfold nextOf prevOf
    omega

/-- Nor is the link of a block in a quick list. -/
theorem quick_outside {i a : Nat} (hi : i < 10) (ha : a ∈ g.quick i) (y : Nat)
    (hy : FreeNode e g y) : nextOf a ≠ nextOf y ∧ nextOf a ≠ prevOf y := by
  have S := R.shape
  obtain ⟨h, hh, hal, -⟩ := S.quick_mem hi ha
  have hne : a ≠ y := by
    rintro rfl
    rcases hy with ⟨j, hj, rfl⟩ | ⟨k, hk, hkal⟩
    · have h1 := S.head_apart hh hj
      have h2 := S.inside hh
      omega
    · obtain rfl := Option.some.inj (hh.symm.trans hk)
      exact absurd (hal.symm.trans hkal) (by decide)
  have h1 := node_apart S (.inr ⟨h, hh⟩) hy.node
  unfold nextOf prevOf
  omega

/-- Only the headers are of interest. -/
theorem coalesce_listed {m n footer : Nat} (hm : g.hdr m = some ⟨n, false, true⟩)
    (hp : PastSeen e g m footer none)
    (hedge : m + n + 16 = g.memEnd ∨ ∃ k, g.hdr (m + n) = some k) :
    Ends (sf_coalesce e m n footer false) s fun _ s' =>
      s'.mem (headerOf m) =
        (Hdr.mk (n + ((g.freeAfter m).map g.sizeOf).getD 0) false true).word ^^^ e.magic ∧
      ∀ a k, g.hdr a = some k → a ≠ m → g.freeAfter m ≠ some a →
        s'.mem (headerOf a) = k.word ^^^ e.magic := by
  cases hfa : g.freeAfter m with
  | none =>
    refine (R.coalesce_alone hm hp hedge hfa).mono fun _ s' hs' => ?_
    have hkept : ∀ a k, g.hdr a = some k → s'.mem (headerOf a) = k.word ^^^ e.magic :=
      fun a k ha => (hs'.2 _ (R.header_outside ha)).trans (R.header ha)
    exact ⟨hkept m _ hm, fun a k ha _ _ => hkept a k ha⟩
  | some x =>
    obtain ⟨hx, k, hk, hkal⟩ := Pool.freeAfter_some hfa
    rw [Pool.sizeOf_of_hdr hm] at hx
    subst hx
    have hsum : g.mergedSize m none (some (m + n)) = n + g.sizeOf (m + n) := by
      simp [Pool.mergedSize, Pool.mergedBlocks, Pool.sizeOf_of_hdr hm]
    refine (R.coalesce_next hm rfl hp hk hkal).mono fun _ s' R' => ?_
    refine ⟨?_, fun a l ha hne hne' => ?_⟩
    · have hmerged : (g.coalesce m none (some (m + n))).hdr m = some ⟨_, false, true⟩ :=
        (Pool.coalesce_merged rfl).1
      rw [hsum] at hmerged
      exact R'.header hmerged
    · have hkeep : (g.coalesce m none (some (m + n))).hdr a = g.hdr a :=
        Pool.coalesce_hdr_of_ne (fun _ => hne) (fun he => by cases he) hne'
      exact R'.header (hkeep.trans ha)

end Represents

/-! ## The heap -/

/-- The two stores through the words of the payload. -/
def State.relinked (s : State) (b : Nat) : State :=
  (s.put (nextOf (s.prv b)) (s.nxt b)).put (prevOf (s.nxt b)) (s.prv b)

/-- The heap is well formed, and stays so when the first words of the allocated block at `b` are
taken for links; the rest at `m` keeps its header and the word in front of it. -/
structure Unharmed (e : Env) (s : State) (b m : Nat) (h : Hdr) (hdr : Nat → Option Hdr)
    (free free' : Nat → List Nat) : Prop where
  before : FreeHeap e s hdr free
  block : hdr b = some h
  alloc : h.alloc = true
  mapped_prev : mapped e s (nextOf (s.prv b))
  mapped_next : mapped e s (prevOf (s.nxt b))
  aside : ∀ x, x = nextOf (s.prv b) ∨ x = prevOf (s.nxt b) → x ≠ m ∧ x ≠ headerOf m
  after : FreeHeap e (s.relinked b) hdr free'

namespace FreeHeap

variable {e : Env} {s : State} {hdr : Nat → Option Hdr} {free : Nat → List Nat}
  (H : FreeHeap e s hdr free) {b : Nat} {h : Hdr}

include H

theorem sizeAt_eq (hb : hdr b = some h) : sizeAt e s b = h.size := by
  have hsizes := H.sizes hb
  rw [sizeAt, hdrAt, H.header hb, xor_magic, Hdr.unflag_word (by omega)]

theorem allocAt_iff (hb : hdr b = some h) : AllocAt e s b ↔ h.alloc = true := by
  have hsizes := H.sizes hb
  rw [AllocAt, hdrAt, H.header hb, xor_magic, Hdr.word_alloc (by omega)]
  cases h.alloc <;> simp

/-- The walk over the headers visits blocks. -/
theorem hdr_of_isBlock (hb : IsBlock e s b) : ∃ h, hdr b = some h := by
  induction hb with
  | first _ =>
    obtain ⟨k, hk⟩ := H.tiles.first
    exact (Option.map_eq_some_iff.mp hk).imp fun _ hh => hh.1
  | @next b _ hlt ih =>
    obtain ⟨h, hh⟩ := ih
    rw [H.sizeAt_eq hh] at hlt ⊢
    rcases H.edge hh with hend | hnext
    · omega
    · exact hnext

/-- What is left without an allocated block. -/
theorem shape_without (hb : hdr b = some h) (hal : h.alloc = true) :
    (freePool s (fun a => if a = b then none else hdr a) free).Shape e := by
  have S := H.represents.shape
  have hold : ∀ {a k}, (if a = b then none else hdr a) = some k → hdr a = some k := by
    intro a k ha
    split at ha
    · cases ha
    · exact ha
  exact
  { limit := S.limit
    pages := S.pages
    end_aligned := S.end_aligned
    inside := fun ha => S.inside (hold ha)
    apart := fun ha hc => S.apart (hold ha) (hold hc)
    free_mem := by
      intro i a hi ha
      obtain ⟨k, hk, hfree, hindex⟩ := S.free_mem hi ha
      refine ⟨k, ?_, hfree, hindex⟩
      have hne : a ≠ b := by
        rintro rfl
        have hk' : hdr a = some k := hk
        rw [hb] at hk'
        cases hk'
        rw [hal] at hfree
        cases hfree
      exact (if_neg hne).trans hk
    free_nodup := S.free_nodup
    quick_mem := fun _ ha => absurd ha List.not_mem_nil
    quick_nodup := fun _ _ => List.nodup_nil
    known_mem := fun hc => by cases hc }

end FreeHeap

/-! ## The state after the stores of the cut -/

/-- A block of `size` bytes is cut into two blocks. -/
structure Fits (size newBlockSz rest : Nat) : Prop where
  sum : newBlockSz + rest = size
  newBlock_ge : 32 ≤ newBlockSz
  newBlock_mod : newBlockSz % 16 = 0
  rest_ge : 32 ≤ rest

section Cut

variable (e : Env) (s : State) (b newBlockSz rest : Nat)

/-- Header, `prev_footer` and footer of the rest, and the two links. -/
def State.cut : State :=
  ((((s.put (headerOf (b + newBlockSz)) ((Hdr.mk rest false true).word ^^^ e.magic)).put
    (prevFooterOf (b + newBlockSz)) ((newBlockSz ||| THIS_BLOCK_ALLOCATED) ^^^ e.magic)).put
      (b + newBlockSz + rest) ((Hdr.mk rest false true).word ^^^ e.magic)).put
        (nextOf (s.prv b)) (s.nxt b)).put (prevOf (s.nxt b)) (s.prv b)

/-- What the cut does after these stores. -/
def sf_realloc_settle : Exec State Nat := do
  sf_put_in_free_list e (b + newBlockSz) rest
  store e (headerOf b)
    ((newBlockSz ||| THIS_BLOCK_ALLOCATED ||| PREV_BLOCK_ALLOCATED) ^^^ e.magic)
  raiseGlobalEnd (b + newBlockSz)
  let footer ← load e (prevFooterOf (b + newBlockSz))
  let _ ← sf_coalesce e (b + newBlockSz) rest (unflag (footer ^^^ e.magic)) false
  pure (nextOf b)

theorem sf_realloc_settle_blind : QuickBlind (sf_realloc_settle e b newBlockSz rest) := fun q =>
  (QuickBlind.put_in_free_list e _ _ q).bind fun _ => (QuickBlind.store e _ _ q).bind fun _ =>
    Blind.bind (fun _ => rfl) fun _ => (QuickBlind.load e _ q).bind fun _ =>
      (QuickBlind.coalesce e _ _ _ _ q).bind fun _ => Blind.ret _

/-- The pool then, without the block at `b`, whose header is not written yet. -/
def cutPool (hdr : Nat → Option Hdr) (free : Nat → List Nat) : Pool :=
  (freePool s (fun a => if a = b then none else hdr a) free).setHdr (b + newBlockSz)
    ⟨rest, false, true⟩

end Cut

/-- The cut leaves a block of `newBlockSz` bytes and an unallocated one behind it, which the free
block behind may have joined. The other headers stay. -/
structure Cuts (e : Env) (s : State) (b newBlockSz rest more : Nat) (s' : State) : Prop where
  block : s'.mem (headerOf b) = (Hdr.mk newBlockSz true true).word ^^^ e.magic
  remainder : s'.mem (headerOf (b + newBlockSz)) =
    (Hdr.mk (rest + more) false true).word ^^^ e.magic
  joined : more = 0 ∨ (b + newBlockSz + rest + 16 < s.sf_mem_end ∧
    ¬ AllocAt e s (b + newBlockSz + rest) ∧ more = sizeAt e s (b + newBlockSz + rest))
  more_mod : more % 16 = 0
  others : ∀ a, IsBlock e s a → a ≠ b → (more = 0 ∨ a ≠ b + newBlockSz + rest) →
    s'.mem (headerOf a) = s.mem (headerOf a)

/-- The quick lists do not count. -/
theorem Cuts.of_withQuicks {e : Env} {s s' : State} {b newBlockSz rest more : Nat}
    {q : Nat → QuickList} (h : Cuts e s b newBlockSz rest more (s'.withQuicks q)) :
    Cuts e s b newBlockSz rest more s' :=
  ⟨h.block, h.remainder, h.joined, h.more_mod, h.others⟩

section Words

variable {e : Env} {s : State} {b n rest : Nat} {hdr : Nat → Option Hdr} {free : Nat → List Nat}

theorem cut_mem {x : Nat} (h1 : x ≠ headerOf (b + n)) (h2 : x ≠ b + n) (h3 : x ≠ b + n + rest) :
    (s.cut e b n rest).mem x = (s.relinked b).mem x := by
  simp only [State.cut, State.relinked, State.put_mem, prevFooterOf, if_neg h1, if_neg h2,
    if_neg h3]

/-- The stores of the cut, up to those through the two links. -/
theorem sf_realloc_split_run {size : Nat} (F : Fits size n rest)
    (hin : e.sf_mem_start ≤ b ∧ b % 16 = 0 ∧ size % 16 = 0 ∧ b + size + 16 ≤ s.sf_mem_end ∧
      s.sf_mem_end < 2 ^ 64)
    (hmapped_prev : mapped e s (nextOf (s.prv b))) (hmapped_next : mapped e s (prevOf (s.nxt b))) :
    sf_realloc_split e b size n s = sf_realloc_settle e b n rest (s.cut e b n rest) := by
  have ⟨hsum, hn, hn16, hrest⟩ := F
  -- the words of the block; which words there are, no store changes
  have hword : ∀ x, b + 8 ≤ x → x ≤ b + size → x % 8 = 0 → mapped e s x := fun x h1 h2 h8 =>
    ⟨h8, .inl ⟨by omega, by omega⟩⟩
  have hheader : mapped e s (headerOf (b + n)) :=
    hword _ (by unfold headerOf; omega) (by unfold headerOf; omega) (by unfold headerOf; omega)
  have hfooter : mapped e s (prevFooterOf (b + n)) := hword (b + n) (by omega) (by omega) (by omega)
  have hend : mapped e s (b + n + rest) := hword _ (by omega) (by omega) (by omega)
  have hprev : mapped e s (prevOf b) :=
    hword _ (by unfold prevOf; omega) (by unfold prevOf; omega) (by unfold prevOf; omega)
  have hnext : mapped e s (nextOf b) :=
    hword _ (by unfold nextOf; omega) (by unfold nextOf; omega) (by unfold nextOf; omega)
  have hkeep : ∀ v w u x, x < b + n → (((s.put (headerOf (b + n)) v).put (prevFooterOf (b + n))
      w).put (b + n + rest) u).mem x = s.mem x := fun v w u x hx => by
    simp only [State.put_mem]
    rw [if_neg (by omega), if_neg (by unfold prevFooterOf; omega),
      if_neg (by unfold headerOf; omega)]
  unfold sf_realloc_split
  rw [add64_of_lt (by omega), sub64_of_le (by omega) (by omega),
    show size - n = rest by omega, or_prev_word (by omega)]
  refine (bind_ok (store_ok ?_)).trans ?_
  · exact hheader
  refine (bind_ok (store_ok ?_)).trans ?_
  · exact hfooter
  refine (bind_ok (footer_run (w := (Hdr.mk rest false true).word) (c := b + n + rest)
    ?_ ?_ ?_ ?_)).trans ?_
  · rw [State.put_mem, if_neg (by unfold headerOf prevFooterOf; omega), State.put_mem, if_pos rfl]
  · exact hheader
  · rw [Hdr.unflag_word (by dsimp only; omega), add64_of_lt (by dsimp only; omega)]
  · exact hend
  refine (bind_ok (load_ok ?_)).trans ?_
  · exact hprev
  refine (bind_ok (load_ok ?_)).trans ?_
  · exact hnext
  rw [hkeep _ _ _ (prevOf b) (by unfold prevOf; omega),
    hkeep _ _ _ (nextOf b) (by unfold nextOf; omega)]
  refine (bind_ok (store_ok ?_)).trans ?_
  · exact hmapped_prev
  refine (bind_ok (store_ok ?_)).trans ?_
  · exact hmapped_next
  rfl

/-- The stores of the cut after the first two leave these alone. -/
theorem cut_header {size : Nat} (F : Fits size n rest)
    (haside : ∀ x, x = nextOf (s.prv b) ∨ x = prevOf (s.nxt b) → x ≠ b + n ∧ x ≠ headerOf (b + n)) :
    (s.cut e b n rest).mem (headerOf (b + n)) = (Hdr.mk rest false true).word ^^^ e.magic := by
  have h1 := (haside _ (.inl rfl)).2.symm
  have h2 := (haside _ (.inr rfl)).2.symm
  have hrest := F.rest_ge
  simp only [State.cut, State.put_mem, if_neg h1, if_neg h2, if_true]
  rw [if_neg (by unfold headerOf; omega), if_neg (by unfold headerOf prevFooterOf; omega)]

theorem cut_footer {size : Nat} (F : Fits size n rest)
    (haside : ∀ x, x = nextOf (s.prv b) ∨ x = prevOf (s.nxt b) → x ≠ b + n ∧ x ≠ headerOf (b + n)) :
    (s.cut e b n rest).mem (b + n) = (Hdr.mk n true false).word ^^^ e.magic := by
  have h1 := (haside _ (.inl rfl)).1.symm
  have h2 := (haside _ (.inr rfl)).1.symm
  have hn16 := F.newBlock_mod
  have hrest := F.rest_ge
  simp only [State.cut, State.put_mem, if_neg h1, if_neg h2, prevFooterOf, if_true]
  rw [if_neg (by omega)]
  congr 1
  exact Hdr.word_or_this (h := ⟨n, false, false⟩) (by dsimp only; omega)

theorem cut_hdr {t : State} {a : Nat} {k : Hdr}
    (ha : (cutPool t b n rest hdr free).hdr a = some k) :
    (a = b + n ∧ k = ⟨rest, false, true⟩) ∨ (a ≠ b + n ∧ a ≠ b ∧ hdr a = some k) := by
  simp only [cutPool, Pool.setHdr_hdr] at ha
  split at ha
  · cases ha
    exact .inl ⟨‹_›, rfl⟩
  · next hne =>
    have ha' : (if a = b then none else hdr a) = some k := ha
    split at ha'
    · cases ha'
    · exact .inr ⟨hne, ‹_›, ha'⟩

/-- The blocks, when the header at `b` has been written. -/
theorem settled_hdr {t : State} (a : Nat) :
    ((((cutPool t b n rest hdr free).put (b + n) rest).setHdr b ⟨n, true, true⟩).raiseEnd
      (b + n)).hdr a =
        if a = b then some ⟨n, true, true⟩ else if a = b + n then some ⟨rest, false, true⟩
        else hdr a := by
  show (if a = b then _ else if a = b + n then _ else if a = b then none else hdr a) = _
  split
  · rfl
  · rfl

end Words

namespace Unharmed

variable {e : Env} {s : State} {b n rest : Nat} {h : Hdr} {hdr : Nat → Option Hdr}
  {free free' : Nat → List Nat} (U : Unharmed e s b (b + n) h hdr free free')

include U

theorem inside : e.sf_mem_start ≤ b ∧ b % 16 = 0 ∧ h.size % 16 = 0 ∧
    b + h.size + 16 ≤ s.sf_mem_end ∧ s.sf_mem_end < 2 ^ 64 := by
  have hin := U.before.inside U.block
  have hsizes := U.before.sizes U.block
  have hlimit := U.before.limit
  have htop := e.limit_lt
  omega

/-! ### Words -/

/-- A link of a list is no word of the block. -/
theorem link_aside {y : Nat}
    (hy : Represents.FreeNode e (freePool (s.relinked b) hdr free') y) {x : Nat} (h1 : b + 8 ≤ x)
    (h2 : x ≤ b + h.size) : nextOf y ≠ x ∧ prevOf y ≠ x := by
  have S := U.after.represents.shape
  have hb : (freePool (s.relinked b) hdr free').hdr b = some h := U.block
  unfold nextOf prevOf
  rcases hy with ⟨i, hi, rfl⟩ | ⟨k, hk, hfree⟩
  · have hhead := S.head_apart hb hi
    omega
  · have hin := S.inside hk
    have hne : y ≠ b := by
      rintro rfl
      rw [hb] at hk
      cases hk
      rw [U.alloc] at hfree
      cases hfree
    have hapart := (S.cases_apart hk hb).resolve_left hne
    omega

variable (F : Fits h.size n rest)

include F

/-! ### The pool -/

theorem cut_shape : (cutPool (s.cut e b n rest) b n rest hdr free').Shape e := by
  have ⟨hsum, hn, hn16, hrest⟩ := F
  have S := U.after.represents.shape
  have hb : (freePool (s.relinked b) hdr free').hdr b = some h := U.block
  have hin := U.inside
  refine (U.after.shape_without U.block U.alloc).appear ?_ ⟨?_, ?_, hrest, ?_, ?_⟩ ?_
  · have hnone : hdr (b + n) = none := S.interior hb (by omega) (by omega)
    show (if b + n = b then none else hdr (b + n)) = none
    rw [hnone, ite_self]
  · omega
  · omega
  · dsimp only
    omega
  · show b + n + rest + 16 ≤ s.sf_mem_end
    omega
  · intro a k ha
    have ha' : (if a = b then none else hdr a) = some k := ha
    split at ha'
    · cases ha'
    · have hapart := (S.cases_apart (g := freePool (s.relinked b) hdr free')
        ha' hb).resolve_left ‹_›
      dsimp only
      omega

/-- Memory after the stores stands for the pool. The word in front of the rest is watched. -/
theorem cut_represents : Represents e (fun x => x = b + n) (s.cut e b n rest).mem
    ((s.cut e b n rest).withQuicks noQuicks)
    (cutPool (s.cut e b n rest) b n rest hdr free') where
  shape := U.cut_shape F
  memEnd := rfl
  globalEnd := rfl
  errno := rfl
  growCalls := rfl
  header := by
    have ⟨hsum, hn, hn16, hrest⟩ := F
    intro a k ha
    have hin := U.inside
    rcases cut_hdr ha with ⟨rfl, rfl⟩ | ⟨hne, -, hold⟩
    · exact cut_header F U.aside
    · have hsizes := U.after.sizes hold
      exact (cut_mem (by unfold headerOf; omega) (by unfold headerOf; omega)
        (by unfold headerOf; omega)).trans (U.after.header hold)
  known := fun hc => by cases hc
  ring := by
    have ⟨hsum, hn, hn16, hrest⟩ := F
    intro i hi
    have R := U.after.represents
    have hin := U.inside
    have hkeep : ∀ {y}, Represents.FreeNode e (freePool (s.relinked b) hdr free') y →
        (s.cut e b n rest).nxt y = (s.relinked b).nxt y ∧
          (s.cut e b n rest).prv y = (s.relinked b).prv y := by
      intro y hy
      have haside := fun x => U.link_aside hy (x := x)
      have h1 := haside (headerOf (b + n)) (by unfold headerOf; omega) (by unfold headerOf; omega)
      have h2 := haside (b + n) (by omega) (by omega)
      have h3 := haside (b + n + rest) (by omega) (by omega)
      exact ⟨cut_mem h1.1 h2.1 h3.1,
        cut_mem h1.2 h2.2 h3.2⟩
    refine (U.after.ring i hi).congr (fun y hy => (hkeep (R.freeNode_path hi hy)).1)
      (fun y hy => (hkeep (R.freeNode_path hi (List.mem_cons_of_mem _ hy))).2) fun hc => by cases hc
  chain := fun _ _ _ => ⟨rfl, rfl⟩
  watch := by
    have ⟨hsum, hn, hn16, hrest⟩ := F
    rintro x rfl
    have S := U.after.represents.shape
    have hb : (freePool (s.relinked b) hdr free').hdr b = some h := U.block
    have hin := U.inside
    refine ⟨by omega, by omega, ?_, fun {a k} ha => ?_, fun {a k} ha hfree => ?_, fun _ ha => ?_⟩
    · show b + n + 16 ≤ s.sf_mem_end
      omega
    · rcases cut_hdr ha with ⟨rfl, rfl⟩ | ⟨-, -, hold⟩
      · unfold headerOf
        omega
      · have hsizes := U.after.sizes hold
        unfold headerOf
        omega
    · rcases cut_hdr ha with ⟨rfl, rfl⟩ | ⟨-, hne, hold⟩
      · exact .inl (Nat.le_refl _)
      · have hapart := (S.cases_apart (g := freePool (s.relinked b) hdr free') hold hb).resolve_left
          hne
        omega
    · exact absurd ha List.not_mem_nil
  kept := fun _ _ => rfl

/-! ### The rest of the call -/

/-- What the headers say when `sf_coalesce` is done. -/
theorem cuts_of_headers {g : Pool} {s' : State} (hb : g.hdr b = some ⟨n, true, true⟩)
    (hm : g.hdr (b + n) = some ⟨rest, false, true⟩)
    (hold : ∀ {a k}, hdr a = some k → a ≠ b → g.hdr a = some k)
    (hnew : ∀ {a k}, g.hdr a = some k → a ≠ b → a ≠ b + n → hdr a = some k)
    (hs : s'.mem (headerOf (b + n)) =
        (Hdr.mk (rest + ((g.freeAfter (b + n)).map g.sizeOf).getD 0) false true).word ^^^ e.magic ∧
      ∀ a k, g.hdr a = some k → a ≠ b + n → g.freeAfter (b + n) ≠ some a →
        s'.mem (headerOf a) = k.word ^^^ e.magic) :
    Cuts e s b n rest (((g.freeAfter (b + n)).map g.sizeOf).getD 0) s' := by
  have ⟨hsum, hn, hn16, hrest⟩ := F
  have hin := U.inside
  -- the block that was swallowed, if there was one
  have hafter : ∀ x, g.freeAfter (b + n) = some x → x = b + n + rest ∧
      ∃ k, hdr x = some k ∧ k.alloc = false ∧ g.sizeOf x = k.size := fun x hx => by
    obtain ⟨rfl, k, hk, hfree⟩ := Pool.freeAfter_some hx
    rw [Pool.sizeOf_of_hdr hm] at hk ⊢
    exact ⟨rfl, k, hnew hk (by dsimp only; omega) (by dsimp only; omega), hfree,
      Pool.sizeOf_of_hdr hk⟩
  obtain ⟨hheader, hothers⟩ := hs
  refine ⟨hothers b _ hb (by omega) fun he => ?_, hheader, ?_, ?_, fun a ha hne hor => ?_⟩
  · have hx := (hafter b he).1
    omega
  · cases hfa : g.freeAfter (b + n) with
    | none => exact .inl rfl
    | some x =>
      obtain ⟨rfl, k, hk, hfree, hsize⟩ := hafter x hfa
      have hpos := U.before.inside hk
      have hk32 := (U.before.sizes hk).2.1
      refine .inr ⟨by omega, ?_, ?_⟩
      · rw [U.before.allocAt_iff hk, hfree]
        exact Bool.false_ne_true
      · rw [U.before.sizeAt_eq hk, ← hsize]
        rfl
  · cases hfa : g.freeAfter (b + n) with
    | none => rfl
    | some x =>
      obtain ⟨-, k, hk, -, hsize⟩ := hafter x hfa
      have hmod := (U.before.sizes hk).2.2
      show g.sizeOf x % 16 = 0
      rw [hsize, hmod]
  · obtain ⟨k, hk⟩ := U.before.hdr_of_isBlock ha
    rw [U.before.header hk]
    refine hothers a k (hold hk hne) (fun he => ?_) fun hfa => ?_
    · have hnone := U.before.represents.shape.interior (g := freePool s hdr free) U.block
        (x := a) (by omega) (by omega)
      have hk' : (freePool s hdr free).hdr a = some k := hk
      rw [hnone] at hk'
      cases hk'
    · obtain ⟨rfl, l, hl, -, hsize⟩ := hafter a hfa
      have hl32 := (U.before.sizes hl).2.1
      rw [hfa] at hor
      rcases hor with h0 | hne'
      · have hzero : g.sizeOf (b + n + rest) = 0 := h0
        omega
      · exact hne' rfl

theorem settle_ends : Ends (sf_realloc_settle e b n rest) (s.cut e b n rest) fun r s' =>
    r = nextOf b ∧ ∃ more, Cuts e s b n rest more s' := by
  have ⟨hsum, hn, hn16, hrest⟩ := F
  have hin := U.inside
  have R := U.cut_represents F
  have hm : (cutPool (s.cut e b n rest) b n rest hdr free').hdr (b + n) =
      some ⟨rest, false, true⟩ := by simp [cutPool]
  have hinterior : hdr (b + n) = none :=
    U.after.represents.shape.interior (g := freePool (s.relinked b) hdr free') U.block
      (by omega) (by omega)
  have hun : ∀ i < 10, b + n ∉ free' i := fun i hi hmem => by
    obtain ⟨k, hk, -⟩ := U.after.free_mem hi hmem
    rw [hinterior] at hk
    cases hk
  have hblind := (sf_realloc_settle_blind e b n rest noQuicks).ends (s := s.cut e b n rest)
    (Q := fun r s' => r = nextOf b ∧ ∃ more, Cuts e s b n rest more s')
  refine (hblind ?_).mono fun r s' => And.imp_right (Exists.imp fun _ hC => hC.of_withQuicks)
  unfold sf_realloc_settle
  refine (R.put_ends (h := ⟨rest, false, true⟩) hm rfl hun).step fun _ s1 R1 => ?_
  rw [or_this_prev_word (by omega)]
  refine .run (store_ok (R1.mapped_heap (x := headerOf b) (by unfold headerOf; omega)
    (by unfold headerOf; omega) ?_)) ?_
  · show headerOf b + 8 ≤ s.sf_mem_end
    unfold headerOf
    omega
  have R2 := R1.appear (a := b) (h := ⟨n, true, true⟩) ?_ ?_ ?_ ?_
  · refine (R2.raise_ends (b + n)).step fun _ s3 R3 => ?_
    generalize hg : (((cutPool (s.cut e b n rest) b n rest hdr free').put (b + n) rest).setHdr b
      ⟨n, true, true⟩).raiseEnd (b + n) = g at R3
    have hhdr : ∀ a, g.hdr a = if a = b then some ⟨n, true, true⟩
        else if a = b + n then some ⟨rest, false, true⟩ else hdr a := fun a => by
      rw [← hg]
      exact settled_hdr a
    have hb3 : g.hdr b = some ⟨n, true, true⟩ := (hhdr b).trans (if_pos rfl)
    have hm3 : g.hdr (b + n) = some ⟨rest, false, true⟩ := by
      rw [hhdr, if_neg (by omega), if_pos rfl]
    have hold : ∀ {a k}, hdr a = some k → a ≠ b → g.hdr a = some k := fun {a k} ha hne => by
      rw [hhdr, if_neg hne, if_neg fun he => ?_, ha]
      rw [he, hinterior] at ha
      cases ha
    have hnew : ∀ {a k}, g.hdr a = some k → a ≠ b → a ≠ b + n → hdr a = some k :=
      fun {a k} ha hne hne' => by
        rwa [hhdr, if_neg hne, if_neg hne'] at ha
    have hend : g.memEnd = s.sf_mem_end := by rw [← hg]; rfl
    have hfooter : s3.mem (prevFooterOf (b + n)) = (Hdr.mk n true false).word ^^^ e.magic :=
      (R3.kept rfl (by rw [← hg]; exact List.not_mem_nil)).trans
        (cut_footer F U.aside)
    refine .run (load_ok (R3.mapped_start hm3)) ?_
    rw [hfooter, xor_magic, Hdr.unflag_word (by dsimp only; omega)]
    have hpast : Represents.PastSeen e g (b + n) n none := by
      refine .inr (.inr ⟨⟨n, true, true⟩, ?_, rfl⟩)
      rw [if_pos (by omega), sf_get_past_block, sub64_of_le (by omega) (by omega),
        Nat.add_sub_cancel]
      exact hb3
    have hafter : b + n + rest = b + h.size := by omega
    have hedge : b + n + rest + 16 = g.memEnd ∨ ∃ k, g.hdr (b + n + rest) = some k := by
      rw [hend, hafter]
      exact (U.before.edge U.block).imp_right (Exists.imp fun _ hk => hold hk (by omega))
    refine (R3.coalesce_listed hm3 hpast hedge).step fun _ s' hs' => ?_
    exact .ret ⟨rfl, _, U.cuts_of_headers F hb3 hm3 hold hnew hs'⟩
  · show (if b = b + n then _ else if b = b then none else hdr b) = none
    rw [if_neg (by omega), if_pos rfl]
  · refine ⟨hin.1, hin.2.1, hn, hn16, ?_⟩
    show b + n + 16 ≤ s.sf_mem_end
    omega
  · intro a k ha
    rcases cut_hdr ha with ⟨rfl, rfl⟩ | ⟨-, hne, hk⟩
    · exact .inr (Nat.le_refl _)
    · have hapart := (U.after.represents.shape.cases_apart
        (g := freePool (s.relinked b) hdr free') hk U.block).resolve_left hne
      dsimp only
      omega
  · rintro x rfl
    refine ⟨?_, fun hc => by cases hc⟩
    unfold headerOf
    omega

/-- The stores of the cut, up to those through the two links. -/
theorem split_run : sf_realloc_split e b h.size n s =
    sf_realloc_settle e b n rest (s.cut e b n rest) :=
  sf_realloc_split_run F U.inside U.mapped_prev U.mapped_next

theorem split_ends : Ends (sf_realloc_split e b h.size n) s fun r s' =>
    r = nextOf b ∧ ∃ more, Cuts e s b n rest more s' :=
  .congr (U.split_run F) (U.settle_ends F)

end Unharmed

end StarterProjects.Sfmm
