import StarterProjects.Lib.Reach
import StarterProjects.Lib.Stacks
import StarterProjects.Sfmm.Client
import StarterProjects.Sfmm.Release

/-!
# The quick lists by themselves

Insertions, and the scan of `sf_malloc`, in any order. What `sf_coalesce` does to
the blocks that a flush takes off is set aside: the insertion stops where it
would be called for them, and between two steps everything but the headers and
links of the blocks on the quick lists may change. `quick_lists_correct` says
that the lists are the stacks of the blocks that were inserted and not taken.
-/

namespace StarterProjects.Sfmm

open Lib Lib.Exec

variable (e : Env)

/-! ## The insertion up to the coalescing -/

/-- `sf_flush_quick_list` up to its second loop, with the blocks it takes off. -/
def sf_flush_take (curBlock listIdx : Nat) : Exec State (List Nat) := do
  let q ← getQuick listIdx
  if q.length ≠ 0 then do
    let blockArray ← sf_flush_clear e QUICK_LIST_MAX q.first
    store e (nextOf curBlock) NULL
    setQuick listIdx ⟨1, curBlock⟩
    pure blockArray
  else
    pure []

/-- `sf_put_in_quick_list_helper` up to the second loop of the flush. -/
def sf_put_take_helper (curBlock curIdx : Nat) : Exec State (List Nat) := do
  let q ← getQuick curIdx
  if q.length = 5 then
    sf_flush_take e curBlock curIdx
  else if q.first ≠ NULL then do
    store e (nextOf curBlock) q.first
    setQuick curIdx ⟨q.length + 1, curBlock⟩
    pure []
  else do
    store e (nextOf curBlock) NULL
    setQuick curIdx ⟨q.length + 1, curBlock⟩
    pure []

/-- `sf_put_in_quick_list` up to the second loop of the flush. -/
def sf_put_take (curBlock blockSize : Nat) : Exec State (List Nat) :=
  match quickIndex blockSize with
  | some i => sf_put_take_helper e curBlock i
  | none => pure []

theorem sf_flush_quick_list_eq (curBlock listIdx : Nat) :
    sf_flush_quick_list e curBlock listIdx =
      sf_flush_take e curBlock listIdx >>= forEach (sf_flush_one e) := by
  unfold sf_flush_quick_list sf_flush_take
  rw [bind_assoc]
  congr 1
  funext q
  split
  · simp only [bind_assoc, pure_bind]
  · rw [pure_bind]
    rfl

/-- The insertion of the source: what is left is to coalesce the blocks taken off. -/
theorem sf_put_in_quick_list_eq (curBlock blockSize : Nat) :
    sf_put_in_quick_list e curBlock blockSize = (do
      let taken ← sf_put_take e curBlock blockSize
      forEach (sf_flush_one e) taken
      pure (quickIndex blockSize).isSome) := by
  unfold sf_put_in_quick_list sf_put_take
  cases quickIndex blockSize with
  | none => rfl
  | some i =>
    have hhelper : sf_put_in_quick_list_helper e curBlock i =
        sf_put_take_helper e curBlock i >>= forEach (sf_flush_one e) := by
      unfold sf_put_in_quick_list_helper sf_put_take_helper
      rw [bind_assoc]
      congr 1
      funext q
      split
      · exact sf_flush_quick_list_eq e curBlock i
      · split
        · simp only [bind_assoc, pure_bind]
          rfl
        · simp only [bind_assoc, pure_bind]
          rfl
    simp only [hhelper, bind_assoc]
    rfl

/-- The loop of `sf_malloc` over the quick lists. -/
def sf_malloc_scan (blockSize : Nat) : Exec State (Option Nat) :=
  firstSome (sf_malloc_quick e blockSize) (List.range NUM_QUICK_LISTS)

/-! ## Runs -/

/-- The heap with the sizes of its blocks, and what was put on the quick lists and not taken: the
blocks with their sizes, the latest first. -/
structure QuickState where
  heap : State
  blocks : Nat → Option Nat
  present : List (Nat × Nat)

/-- Blocks are aligned, inside the heap and apart. -/
structure Room (s : State) (blocks : Nat → Option Nat) : Prop where
  limit : s.sf_mem_end < 2 ^ 64
  inside : ∀ {a n}, blocks a = some n →
    e.sf_mem_start ≤ a ∧ a % 16 = 0 ∧ 32 ≤ n ∧ n % 16 = 0 ∧ a + n + 16 ≤ s.sf_mem_end
  apart : ∀ {a b n k}, blocks a = some n → blocks b = some k → a < b → a + n ≤ b

/-- The block at `b` has `n` bytes and its header says that it is allocated. -/
def Allocated (s : State) (blocks : Nat → Option Nat) (b n : Nat) : Prop :=
  blocks b = some n ∧ ∃ prev, s.mem (headerOf b) = (Hdr.mk n true prev).word ^^^ e.magic

/-- After the insertion of a block, if there is a list for its size. -/
def QuickState.insert (x : QuickState) (b n : Nat) : List (Nat × Nat) :=
  if (quickIndex n).isSome then Stacks.push QUICK_LIST_MAX b n x.present else x.present

inductive QuickOp where
  | put (b n : Nat)
  | scan (n : Nat)
  | other

/-- Only `sf_init_lists` has run. -/
def QuickInit (x : QuickState) : Prop :=
  x.present = [] ∧ Room e x.heap x.blocks ∧ ∃ s, sf_init_lists e s = .ok ((), x.heap)

/-- One step. The last kind is anything else that happens to the heap: it leaves the quick lists
and the headers and links of the blocks on them alone. -/
def QuickStep (x : QuickState) : QuickOp → QuickState → Prop
  | .put b n, y => Allocated e x.heap x.blocks b n ∧ (∀ z ∈ x.present, z.1 ≠ b) ∧
      (∃ taken, sf_put_take e b n x.heap = .ok (taken, y.heap)) ∧
      y.blocks = x.blocks ∧ y.present = x.insert b n
  | .scan n, y => (∃ r, sf_malloc_scan e n x.heap = .ok (r, y.heap)) ∧
      y.blocks = x.blocks ∧ y.present = Stacks.pop n x.present
  | .other, y => Room e y.heap y.blocks ∧ y.present = x.present ∧
      y.heap.sf_quick_lists = x.heap.sf_quick_lists ∧
      ∀ z ∈ x.present, y.blocks z.1 = x.blocks z.1 ∧
        y.heap.mem (headerOf z.1) = x.heap.mem (headerOf z.1) ∧
        y.heap.nxt z.1 = x.heap.nxt z.1

abbrev QuickReached : QuickState → Prop := Reaches (QuickInit e) (QuickStep e)

/-- What holds of the quick lists. -/
structure QuickInv (x : QuickState) : Prop where
  room : Room e x.heap x.blocks
  chain : ∀ i < 10, Chain x.heap.nxt NULL (x.heap.sf_quick_lists i).first
    (Stacks.stack (32 + 16 * i) x.present)
  length : ∀ i < 10, (x.heap.sf_quick_lists i).length =
    (Stacks.stack (32 + 16 * i) x.present).length
  bound : ∀ i < 10, (Stacks.stack (32 + 16 * i) x.present).length ≤ QUICK_LIST_MAX
  allocated : ∀ z ∈ x.present, Allocated e x.heap x.blocks z.1 z.2
  sizes : ∀ z ∈ x.present, ∃ i < 10, z.2 = 32 + 16 * i
  nodup : (x.present.map Prod.fst).Nodup

/-- What the lists promise to the rest of the allocator. -/
structure QuickCorrect (x : QuickState) : Prop where
  lists : ∀ i < 10, ∃ l, Chain x.heap.nxt NULL (x.heap.sf_quick_lists i).first l ∧
    (x.heap.sf_quick_lists i).length = l.length ∧ l.length ≤ 5 ∧ l.Nodup ∧
    (∀ b ∈ l, Allocated e x.heap x.blocks b (32 + 16 * i)) ∧
    ∀ b, b ∈ l ↔ (b, 32 + 16 * i) ∈ x.present
  scan : ∀ n, Ends (sf_malloc_scan e n) x.heap fun r _ =>
    r = (Stacks.top n x.present).map nextOf
  insert : ∀ b n, Allocated e x.heap x.blocks b n → (∀ z ∈ x.present, z.1 ≠ b) →
    Ends (sf_put_take e b n) x.heap fun taken s' =>
      sf_put_in_quick_list e b n x.heap =
        (forEach (sf_flush_one e) taken >>= fun _ => pure (quickIndex n).isSome) s' ∧
      ∀ i, quickIndex n = some i →
        ((x.heap.sf_quick_lists i).length = 5 →
          Chain x.heap.nxt NULL (x.heap.sf_quick_lists i).first taken ∧ taken.length = 5 ∧
            taken.Nodup ∧ s'.sf_quick_lists i = ⟨1, b⟩ ∧ s'.nxt b = NULL) ∧
        ((x.heap.sf_quick_lists i).length ≠ 5 → taken = [])

/-! ## The words of a block -/

section

variable {e : Env} {s : State} {blocks : Nat → Option Nat} (R : Room e s blocks) {a b n k : Nat}

include R

theorem Room.mapped_header (ha : blocks a = some n) : mapped e s (headerOf a) := by
  have h1 := R.inside ha
  unfold headerOf
  exact ⟨by omega, .inl ⟨by omega, by omega⟩⟩

theorem Room.mapped_next (ha : blocks a = some n) : mapped e s (nextOf a) := by
  have h1 := R.inside ha
  unfold nextOf
  exact ⟨by omega, .inl ⟨by omega, by omega⟩⟩

theorem Room.mapped_end (ha : blocks a = some n) : mapped e s (a + n) := by
  have h1 := R.inside ha
  exact ⟨by omega, .inl ⟨by omega, by omega⟩⟩

theorem Room.ne_null (ha : blocks a = some n) : a ≠ NULL := by
  have h1 := R.inside ha
  have h2 := e.start_pos
  unfold NULL
  omega

/-- The end of a block is neither the header nor the link of one. -/
theorem Room.end_ne (ha : blocks a = some n) (hb : blocks b = some k) :
    headerOf b ≠ a + n ∧ nextOf b ≠ a + n := by
  have h1 := R.inside ha
  have h2 := R.inside hb
  unfold headerOf nextOf
  rcases Nat.lt_trichotomy a b with hlt | rfl | hlt
  · have := R.apart ha hb hlt
    omega
  · omega
  · have := R.apart hb ha hlt
    omega

theorem Room.header_ne_next (ha : blocks a = some n) (hb : blocks b = some k) :
    headerOf a ≠ nextOf b := by
  have h1 := R.inside ha
  have h2 := R.inside hb
  unfold headerOf nextOf
  omega

end

theorem Room.of_end {e : Env} {s s' : State} {blocks : Nat → Option Nat} (R : Room e s blocks)
    (h : s'.sf_mem_end = s.sf_mem_end) : Room e s' blocks :=
  ⟨h ▸ R.limit, fun ha => h ▸ R.inside ha, R.apart⟩

/-! ## The first loop of the flush -/

/-- The quick lists, the links of the blocks, and the headers of those that are not in `l` are the
same. -/
structure SameLinks (blocks : Nat → Option Nat) (l : List Nat) (s s' : State) : Prop where
  quick : s'.sf_quick_lists = s.sf_quick_lists
  memEnd : s'.sf_mem_end = s.sf_mem_end
  link : ∀ {b n}, blocks b = some n → s'.nxt b = s.nxt b
  header : ∀ {b n}, blocks b = some n → b ∉ l → s'.mem (headerOf b) = s.mem (headerOf b)

section

variable {e : Env} {blocks : Nat → Option Nat}

theorem SameLinks.trans {l l' : List Nat} {s s' s'' : State} (h : SameLinks blocks l s s')
    (h' : SameLinks blocks l' s' s'') : SameLinks blocks (l ++ l') s s'' where
  quick := h'.quick.trans h.quick
  memEnd := h'.memEnd.trans h.memEnd
  link := fun hb => (h'.link hb).trans (h.link hb)
  header := fun hb hn => by
    rw [List.mem_append, not_or] at hn
    exact (h'.header hb hn.2).trans (h.header hb hn.1)

theorem Allocated.same {l : List Nat} {s s' : State} {b n : Nat} (hb : Allocated e s blocks b n)
    (h : SameLinks blocks l s s') (hn : b ∉ l) : Allocated e s' blocks b n := by
  obtain ⟨hsize, prev, hheader⟩ := hb
  exact ⟨hsize, prev, (h.header hsize hn).trans hheader⟩

/-- Header and footer of one block: all flags are cleared. -/
def clearedState (e : Env) (s : State) (a n : Nat) : State :=
  (s.put (headerOf a) ((Hdr.mk n false false).word ^^^ e.magic)).put (a + n)
    ((Hdr.mk n false false).word ^^^ e.magic)

theorem sameLinks_cleared {s : State} (R : Room e s blocks) {a n : Nat} (ha : blocks a = some n) :
    SameLinks blocks [a] s (clearedState e s a n) where
  quick := rfl
  memEnd := rfl
  link := fun {b k} hb => by
    unfold State.nxt clearedState
    simp only [State.put_mem]
    rw [if_neg (R.end_ne ha hb).2, if_neg (R.header_ne_next ha hb).symm]
  header := fun {b k} hb hn => by
    have hab : headerOf b ≠ headerOf a := by
      rw [List.mem_singleton] at hn
      unfold headerOf
      omega
    unfold clearedState
    simp only [State.put_mem]
    rw [if_neg (R.end_ne ha hb).1, if_neg hab]

/-- The loop collects the blocks of the chain, each once. -/
theorem flush_clear_takes {n : Nat} : ∀ {l : List Nat} {room head : Nat} {s : State},
    Room e s blocks → (∀ a ∈ l, Allocated e s blocks a n) → l.Nodup →
      Chain s.nxt NULL head l → l.length ≤ room →
        Ends (sf_flush_clear e room head) s fun r s' => r = l ∧ SameLinks blocks l s s'
  | [], room, head, s, _, _, _, hc, _ => by
    have hc' : head = NULL := hc
    cases room <;> show Ends (if head = NULL then pure [] else load e (headerOf head) >>= _) s _ <;>
      rw [if_pos hc'] <;> exact .ret ⟨rfl, rfl, rfl, fun _ => rfl, fun _ _ => rfl⟩
  | a :: l, 0, _, _, _, _, _, _, hlen => absurd hlen (Nat.not_succ_le_zero _)
  | a :: l, room + 1, head, s, R, hall, hnd, hc, hlen => by
    obtain ⟨rfl, hnull, hc⟩ := hc
    obtain ⟨hsize, prev, hheader⟩ := hall head List.mem_cons_self
    have h1 := R.inside hsize
    have h2 := R.limit
    have hnd' := List.nodup_cons.mp hnd
    have hsame := sameLinks_cleared R hsize
    show Ends (if head = NULL then pure [] else load e (headerOf head) >>= _) s _
    rw [if_neg hnull]
    refine .run (load_ok (R.mapped_header hsize)) ?_
    rw [hheader, xor_magic, Hdr.unflag_word (by dsimp only; omega)]
    refine .run (store_ok (R.mapped_header hsize)) ?_
    have hfooter : sf_set_block_footer e head (s.put (headerOf head) (n ^^^ e.magic)) =
        .ok ((), clearedState e s head n) := by
      have hload : load e (headerOf head) (s.put (headerOf head) (n ^^^ e.magic)) =
          .ok (n ^^^ e.magic, s.put (headerOf head) (n ^^^ e.magic)) := by
        rw [load_ok (s := s.put _ _) (R.mapped_header hsize), State.put_mem, if_pos rfl]
      unfold sf_set_block_footer
      rw [bind_ok hload, xor_magic, show unflag n = n by unfold unflag; omega,
        add64_of_lt (by omega), store_ok (s := s.put _ _) (R.mapped_end hsize)]
      rfl
    refine .run hfooter ?_
    refine .run (load_ok (s := clearedState e s head n) (R.mapped_next hsize)) ?_
    have hnext : (clearedState e s head n).mem (nextOf head) = s.nxt head := hsame.link hsize
    rw [hnext]
    have hrest : ∀ b ∈ l, b ∉ [head] := fun b hb hmem =>
      hnd'.1 (by rw [← List.mem_singleton.mp hmem]; exact hb)
    have hrec := flush_clear_takes (R.of_end hsame.memEnd)
      (fun b hb => (hall b (List.mem_cons_of_mem _ hb)).same hsame (hrest b hb)) hnd'.2
      (hc.congr fun b hb => hsame.link (hall b (List.mem_cons_of_mem _ hb)).1)
      (Nat.le_of_succ_le_succ hlen)
    exact hrec.step fun r s' hr => .ret ⟨by rw [hr.1], hsame.trans hr.2⟩

end

/-! ## One step -/

theorem getQuick_apply (i : Nat) (s : State) : getQuick i s = .ok (s.sf_quick_lists i, s) := rfl

theorem setQuick_apply (i : Nat) (q : QuickList) (s : State) :
    setQuick i q s = .ok ((), s.withQuick i q) := rfl

namespace QuickInv

variable {e : Env} {x : QuickState} (I : QuickInv e x)

include I

theorem allocated_of_mem {a n : Nat} (ha : a ∈ Stacks.stack n x.present) :
    Allocated e x.heap x.blocks a n :=
  I.allocated _ (Stacks.mem_stack.mp ha)

/-- One list is changed, in the heap and in what is present. -/
theorem relisted {i first : Nat} {l : List Nat} {s : State} {present : List (Nat × Nat)}
    (hend : s.sf_mem_end = x.heap.sf_mem_end)
    (hquick : s.sf_quick_lists i = ⟨l.length, first⟩)
    (hquicks : ∀ j, j ≠ i → s.sf_quick_lists j = x.heap.sf_quick_lists j)
    (hstack : Stacks.stack (32 + 16 * i) present = l)
    (hstacks : ∀ j, j ≠ i → Stacks.stack (32 + 16 * j) present =
      Stacks.stack (32 + 16 * j) x.present)
    (hchain : Chain s.nxt NULL first l) (hbound : l.length ≤ QUICK_LIST_MAX)
    (hlinks : ∀ z ∈ x.present, s.nxt z.1 = x.heap.nxt z.1)
    (halloc : ∀ z ∈ present, Allocated e s x.blocks z.1 z.2)
    (hsizes : ∀ z ∈ present, ∃ j < 10, z.2 = 32 + 16 * j)
    (hnodup : (present.map Prod.fst).Nodup) : QuickInv e ⟨s, x.blocks, present⟩ where
  room := I.room.of_end hend
  chain := by
    intro j hj
    by_cases hji : j = i
    · subst hji
      rw [hquick, hstack]
      exact hchain
    · rw [hquicks j hji, hstacks j hji]
      exact (I.chain j hj).congr fun a ha => hlinks _ (Stacks.mem_stack.mp ha)
  length := by
    intro j hj
    by_cases hji : j = i
    · subst hji
      rw [hquick, hstack]
    · rw [hquicks j hji, hstacks j hji]
      exact I.length j hj
  bound := by
    intro j hj
    by_cases hji : j = i
    · subst hji
      rw [hstack]
      exact hbound
    · rw [hstacks j hji]
      exact I.bound j hj
  allocated := halloc
  sizes := hsizes
  nodup := hnodup

/-- A list that is full is emptied, and the block comes to its front. -/
theorem pushed {b i v : Nat} {s : State} (hi : i < 10)
    (hb : Allocated e x.heap x.blocks b (32 + 16 * i)) (hfresh : ∀ z ∈ x.present, z.1 ≠ b)
    {taken : List Nat} (rest : List Nat)
    (hs : SameLinks x.blocks taken x.heap s)
    (htaken : ∀ z ∈ x.present, z.1 ∈ taken →
      (Stacks.stack (32 + 16 * i) x.present).length = QUICK_LIST_MAX ∧ z.2 = 32 + 16 * i)
    (hnew : b ∉ taken)
    (hrest : rest = if (Stacks.stack (32 + 16 * i) x.present).length = QUICK_LIST_MAX then []
      else Stacks.stack (32 + 16 * i) x.present)
    (hv : Chain x.heap.nxt NULL v rest) :
    QuickInv e ⟨(s.put (nextOf b) v).withQuick i ⟨rest.length + 1, b⟩, x.blocks,
      Stacks.push QUICK_LIST_MAX b (32 + 16 * i) x.present⟩ := by
  have R := I.room
  have hnext : ((s.put (nextOf b) v).withQuick i ⟨rest.length + 1, b⟩).nxt b = v := if_pos rfl
  have hlinks : ∀ z ∈ x.present,
      ((s.put (nextOf b) v).withQuick i ⟨rest.length + 1, b⟩).nxt z.1 = x.heap.nxt z.1 := by
    intro z hz
    have hput : (s.put (nextOf b) v).nxt z.1 = s.nxt z.1 := by
      rw [nxt_put_next, if_neg (hfresh z hz)]
    exact hput.trans (hs.link (I.allocated z hz).1)
  have hsub : ∀ a ∈ rest, a ∈ Stacks.stack (32 + 16 * i) x.present := by
    intro a ha
    rw [hrest] at ha
    split at ha
    · exact absurd ha List.not_mem_nil
    · exact ha
  -- headers of blocks that are not taken off are the same
  have halloc : ∀ a n, Allocated e x.heap x.blocks a n → a ∉ taken →
      Allocated e ((s.put (nextOf b) v).withQuick i ⟨rest.length + 1, b⟩) x.blocks a n := by
    intro a n ha hna
    obtain ⟨hsize, prev, hheader⟩ := ha.same hs hna
    refine ⟨hsize, prev, ?_⟩
    have hput : (s.put (nextOf b) v).mem (headerOf a) = s.mem (headerOf a) := by
      rw [State.put_mem, if_neg (R.header_ne_next hsize hb.1)]
    exact hput.trans hheader
  refine I.relisted (i := i) (l := b :: rest) hs.memEnd (if_pos rfl) (fun j hj => ?_) ?_
    (fun j hj => Stacks.stack_push_ne (by omega)) ⟨rfl, R.ne_null hb.1, ?_⟩ ?_ hlinks
    (fun z hz => ?_) (fun z hz => ?_) (Stacks.push_nodup I.nodup hfresh)
  · have hother : ((s.put (nextOf b) v).withQuick i ⟨rest.length + 1, b⟩).sf_quick_lists j =
        s.sf_quick_lists j := if_neg hj
    rw [hother, hs.quick]
  · rw [Stacks.stack_push_self, hrest]
  · rw [hnext]
    exact hv.congr fun a ha => hlinks _ (Stacks.mem_stack.mp (hsub a ha))
  · have hle := I.bound i hi
    rw [List.length_cons, hrest]
    split
    · decide
    · omega
  · rcases Stacks.mem_push hz with rfl | ⟨hmem, hkeep⟩
    · exact halloc b _ hb hnew
    · refine halloc z.1 z.2 (I.allocated z hmem) fun hin => ?_
      obtain ⟨hfull, hsize⟩ := htaken z hmem hin
      exact hkeep hfull hsize
  · rcases Stacks.mem_push hz with rfl | ⟨hmem, -⟩
    · exact ⟨i, hi, rfl⟩
    · exact I.sizes z hmem

/-- The first block of a list is taken. -/
theorem popped {i a : Nat} {l : List Nat} (hi : i < 10)
    (hstack : Stacks.stack (32 + 16 * i) x.present = a :: l) :
    QuickInv e ⟨x.heap.withQuick i ⟨l.length, x.heap.nxt a⟩, x.blocks,
      Stacks.pop (32 + 16 * i) x.present⟩ := by
  have hsub : (Stacks.pop (32 + 16 * i) x.present).Sublist x.present := Stacks.pop_sublist
  have hchain := I.chain i hi
  have hbound := I.bound i hi
  rw [hstack] at hchain hbound
  obtain ⟨-, -, hrest⟩ := hchain
  refine I.relisted (i := i) (l := l) rfl (if_pos rfl) (fun j hj => if_neg hj) ?_
    (fun j hj => Stacks.stack_pop_ne (by omega)) hrest (Nat.le_of_succ_le hbound)
    (fun _ _ => rfl) (fun z hz => I.allocated z (hsub.subset hz))
    (fun z hz => I.sizes z (hsub.subset hz)) (I.nodup.sublist (hsub.map Prod.fst))
  rw [Stacks.stack_pop_self, hstack, List.tail_cons]

/-- An insertion into a full list takes all of it off. -/
theorem put_full_ends {b i : Nat} (hi : i < 10) (hb : Allocated e x.heap x.blocks b (32 + 16 * i))
    (hfresh : ∀ z ∈ x.present, z.1 ≠ b)
    (hfull : (x.heap.sf_quick_lists i).length = QUICK_LIST_MAX) :
    Ends (sf_flush_take e b i) x.heap fun taken s' =>
      QuickInv e ⟨s', x.blocks, Stacks.push QUICK_LIST_MAX b (32 + 16 * i) x.present⟩ ∧
      taken = Stacks.stack (32 + 16 * i) x.present ∧ s'.sf_quick_lists i = ⟨1, b⟩ ∧
      s'.nxt b = NULL := by
  have hlen := (I.length i hi).symm.trans hfull
  have hnd : (Stacks.stack (32 + 16 * i) x.present).Nodup := I.nodup.sublist Stacks.stack_sublist
  have htaken : ∀ z ∈ x.present, z.1 ∈ Stacks.stack (32 + 16 * i) x.present →
      (Stacks.stack (32 + 16 * i) x.present).length = QUICK_LIST_MAX ∧ z.2 = 32 + 16 * i := by
    intro z hz hin
    have hinj := List.inj_on_of_nodup_map I.nodup hz (Stacks.mem_stack.mp hin) rfl
    exact ⟨hlen, by rw [hinj]⟩
  have hnew : b ∉ Stacks.stack (32 + 16 * i) x.present := fun hin =>
    hfresh _ (Stacks.mem_stack.mp hin) rfl
  unfold sf_flush_take
  refine .run (getQuick_apply i x.heap) ?_
  rw [if_pos (by rw [hfull]; decide)]
  refine (flush_clear_takes I.room (fun a ha => I.allocated_of_mem ha) hnd (I.chain i hi)
    (I.bound i hi)).step ?_
  rintro taken s ⟨rfl, hs⟩
  refine .run (store_ok ((I.room.of_end hs.memEnd).mapped_next hb.1)) ?_
  refine .run (setQuick_apply i _ _) (.ret ⟨?_, rfl, if_pos rfl, if_pos rfl⟩)
  exact I.pushed hi hb hfresh [] hs htaken hnew (by rw [if_pos hlen]) rfl

/-- With room, the block comes to the front of the list. -/
theorem put_room_ends {b i : Nat} (hi : i < 10) (hb : Allocated e x.heap x.blocks b (32 + 16 * i))
    (hfresh : ∀ z ∈ x.present, z.1 ≠ b)
    (hroom : (x.heap.sf_quick_lists i).length ≠ QUICK_LIST_MAX) :
    Ends (store e (nextOf b) (x.heap.sf_quick_lists i).first >>= fun _ =>
      setQuick i ⟨(x.heap.sf_quick_lists i).length + 1, b⟩ >>= fun _ => pure ([] : List Nat))
      x.heap fun taken s' =>
        QuickInv e ⟨s', x.blocks, Stacks.push QUICK_LIST_MAX b (32 + 16 * i) x.present⟩ ∧
        taken = [] := by
  have hlen := I.length i hi
  have hsame : SameLinks x.blocks [] x.heap x.heap := ⟨rfl, rfl, fun _ => rfl, fun _ _ => rfl⟩
  refine .run (store_ok (I.room.mapped_next hb.1)) ?_
  refine .run (setQuick_apply i _ _) (.ret ⟨?_, rfl⟩)
  rw [hlen]
  exact I.pushed hi hb hfresh _ hsame (fun _ _ hin => absurd hin List.not_mem_nil)
    List.not_mem_nil (by rw [if_neg (hlen ▸ hroom)]) (I.chain i hi)

/-- What an insertion takes off: all of a full list, and else nothing. -/
theorem put_take_ends {b n : Nat} (hb : Allocated e x.heap x.blocks b n)
    (hfresh : ∀ z ∈ x.present, z.1 ≠ b) :
    Ends (sf_put_take e b n) x.heap fun taken s' =>
      QuickInv e ⟨s', x.blocks, x.insert b n⟩ ∧
      ∀ i, quickIndex n = some i →
        ((x.heap.sf_quick_lists i).length = QUICK_LIST_MAX →
          taken = Stacks.stack n x.present ∧ s'.sf_quick_lists i = ⟨1, b⟩ ∧ s'.nxt b = NULL) ∧
        ((x.heap.sf_quick_lists i).length ≠ QUICK_LIST_MAX → taken = []) := by
  unfold sf_put_take QuickState.insert
  cases hq : quickIndex n with
  | none =>
    refine .ret ⟨?_, nofun⟩
    simpa using I
  | some i =>
    obtain ⟨hi, rfl⟩ := quickIndex_some.mp hq
    simp only [Option.isSome_some, if_true, Option.some.injEq]
    unfold sf_put_take_helper
    refine .run (getQuick_apply i x.heap) ?_
    by_cases hfull : (x.heap.sf_quick_lists i).length = QUICK_LIST_MAX
    · rw [if_pos (show (x.heap.sf_quick_lists i).length = 5 from hfull)]
      refine (I.put_full_ends hi hb hfresh hfull).mono ?_
      rintro taken s' ⟨hinv, htaken⟩
      refine ⟨hinv, ?_⟩
      rintro j rfl
      exact ⟨fun _ => htaken, fun hne => absurd hfull hne⟩
    · rw [if_neg (show ¬ (x.heap.sf_quick_lists i).length = 5 from hfull)]
      refine Ends.mono (P := fun taken s' =>
        QuickInv e ⟨s', x.blocks, Stacks.push QUICK_LIST_MAX b (32 + 16 * i) x.present⟩ ∧
          taken = []) ?_ ?_
      · -- the link is that of the first block, which may be `NULL`
        have hput := I.put_room_ends hi hb hfresh hfull
        by_cases hfirst : (x.heap.sf_quick_lists i).first = NULL
        · rw [if_neg (not_not.mpr hfirst), ← hfirst]
          exact hput
        · rw [if_pos hfirst]
          exact hput
      · rintro taken s' ⟨hinv, rfl⟩
        refine ⟨hinv, ?_⟩
        rintro j rfl
        exact ⟨fun h => absurd h hfull, fun _ => rfl⟩

/-- The scan returns the latest block of exactly the size, if there is one. -/
theorem scan_ends (n : Nat) :
    Ends (sf_malloc_scan e n) x.heap fun r s' =>
      r = (Stacks.top n x.present).map nextOf ∧
        QuickInv e ⟨s', x.blocks, Stacks.pop n x.present⟩ := by
  have R := I.room
  -- a list answers when it has a block and its blocks have the size
  have hmiss : ∀ j < 10, ¬ (Stacks.stack (32 + 16 * j) x.present ≠ [] ∧ n = 32 + 16 * j) →
      sf_malloc_quick e n j x.heap = .ok (none, x.heap) := by
    intro j hj hno
    refine sf_malloc_quick_miss (I.chain j hj) (I.length j hj) (fun a ha => ?_) hno
    obtain ⟨hsize, prev, hheader⟩ := I.allocated_of_mem ha
    exact ⟨_, R.mapped_header hsize, hheader, rfl⟩
  rw [Stacks.top_eq_head?]
  unfold sf_malloc_scan
  cases hstack : Stacks.stack n x.present with
  | nil =>
    have hnone : firstSome (sf_malloc_quick e n) (List.range NUM_QUICK_LISTS) x.heap =
        .ok (none, x.heap) := by
      refine firstSome_none fun j hj => hmiss j (List.mem_range.mp hj) ?_
      rintro ⟨hne, hn⟩
      rw [← hn] at hne
      exact hne hstack
    refine .of_eq hnone ⟨rfl, ?_⟩
    rw [Stacks.pop_of_stack_nil hstack]
    exact I
  | cons a l =>
    have ha : a ∈ Stacks.stack n x.present := by
      rw [hstack]
      exact List.mem_cons_self
    obtain ⟨i, hi, hn⟩ := I.sizes _ (Stacks.mem_stack.mp ha)
    dsimp only at hn
    subst hn
    obtain ⟨hsize, prev, hheader⟩ := I.allocated_of_mem ha
    have hchain := I.chain i hi
    have hlen := I.length i hi
    rw [hstack] at hchain hlen
    have hhit := sf_malloc_quick_hit hchain.1 hlen (R.mapped_header hsize) (R.mapped_next hsize)
      hheader rfl
    obtain ⟨pre, post, hsplit⟩ := List.append_of_mem (List.mem_range.mpr hi)
    have hnd : (pre ++ i :: post).Nodup := hsplit ▸ List.nodup_range
    change Ends (firstSome _ (List.range 10)) x.heap _
    rw [hsplit]
    refine firstSome_ends (fun j hj => hmiss j ?_ ?_) (.of_eq hhit ⟨⟨_, rfl⟩, rfl, ?_⟩)
    · exact List.mem_range.mp (hsplit ▸ List.mem_append_left _ hj)
    · rintro ⟨-, hji⟩
      have hne : j ≠ i := (List.nodup_append.mp hnd).2.2 j hj i List.mem_cons_self
      omega
    · exact I.popped hi hstack

end QuickInv

/-! ## Runs -/

section

variable {e : Env}

theorem quickInv_init {x : QuickState} (h : QuickInit e x) : QuickInv e x := by
  obtain ⟨hnone, R, s, hs⟩ := h
  have hempty : ∀ i < 10, x.heap.sf_quick_lists i = ⟨0, NULL⟩ := fun i hi =>
    (((init_lists_ends e s).apply hs).2 i hi).1
  have hstack : ∀ n, Stacks.stack n x.present = [] := fun n => by rw [hnone]; rfl
  exact
  { room := R
    chain := by
      intro i hi
      rw [hempty i hi, hstack]
      rfl
    length := by
      intro i hi
      rw [hempty i hi, hstack]
      rfl
    bound := by
      intro i hi
      rw [hstack]
      exact Nat.zero_le _
    allocated := by
      rw [hnone]
      exact nofun
    sizes := by
      rw [hnone]
      exact nofun
    nodup := by
      rw [hnone]
      exact List.nodup_nil }

/-- What the rest of the allocator does to other words does not matter. -/
theorem QuickInv.other {x y : QuickState} (I : QuickInv e x) (R : Room e y.heap y.blocks)
    (hpresent : y.present = x.present) (hquick : y.heap.sf_quick_lists = x.heap.sf_quick_lists)
    (hsame : ∀ z ∈ x.present, y.blocks z.1 = x.blocks z.1 ∧
      y.heap.mem (headerOf z.1) = x.heap.mem (headerOf z.1) ∧ y.heap.nxt z.1 = x.heap.nxt z.1) :
    QuickInv e y where
  room := R
  chain := by
    intro i hi
    rw [hquick, hpresent]
    exact (I.chain i hi).congr fun a ha => (hsame _ (Stacks.mem_stack.mp ha)).2.2
  length := by
    intro i hi
    rw [hquick, hpresent]
    exact I.length i hi
  bound := by
    intro i hi
    rw [hpresent]
    exact I.bound i hi
  allocated := by
    intro z hz
    rw [hpresent] at hz
    obtain ⟨hblock, hword, -⟩ := hsame z hz
    obtain ⟨hsize, prev, hheader⟩ := I.allocated z hz
    exact ⟨hblock.trans hsize, prev, hword.trans hheader⟩
  sizes := by
    intro z hz
    rw [hpresent] at hz
    exact I.sizes z hz
  nodup := by
    rw [hpresent]
    exact I.nodup

theorem quickInv_step {x y : QuickState} {op : QuickOp} (I : QuickInv e x)
    (h : QuickStep e x op y) : QuickInv e y := by
  obtain ⟨heap, blocks, present⟩ := y
  cases op with
  | put b n =>
    obtain ⟨hb, hfresh, ⟨taken, hrun⟩, rfl, rfl⟩ := h
    exact ((I.put_take_ends hb hfresh).apply hrun).1
  | scan n =>
    obtain ⟨⟨r, hrun⟩, rfl, rfl⟩ := h
    exact ((I.scan_ends n).apply hrun).2
  | other =>
    obtain ⟨R, hpresent, hquick, hsame⟩ := h
    exact I.other R hpresent hquick hsame

theorem quickInv_reached {x : QuickState} (h : QuickReached e x) : QuickInv e x :=
  h.invariant (fun _ h0 => quickInv_init h0) fun _ _ _ I hstep => quickInv_step I hstep

/-- After every run: each list is a chain of as many blocks of its size as it counts, the scan
finds the latest block of a size, and an insertion into a full list takes its five blocks off. -/
theorem quick_lists_correct {x : QuickState} (h : QuickReached e x) : QuickCorrect e x := by
  have I := quickInv_reached h
  have hnodup : ∀ n, (Stacks.stack n x.present).Nodup := fun n =>
    I.nodup.sublist Stacks.stack_sublist
  refine ⟨fun i hi => ?_, fun n => (I.scan_ends n).mono fun r s' hr => hr.1, ?_⟩
  · exact ⟨Stacks.stack (32 + 16 * i) x.present, I.chain i hi, I.length i hi, I.bound i hi,
      hnodup _, fun b hb => I.allocated_of_mem hb, fun b => Stacks.mem_stack⟩
  · intro b n hb hfresh
    obtain ⟨taken, s', hrun, -, htaken⟩ := I.put_take_ends hb hfresh
    refine ⟨taken, s', hrun, ?_, fun i hn => ⟨fun hfull => ?_, fun hroom => ?_⟩⟩
    · rw [sf_put_in_quick_list_eq, bind_ok hrun]
    · obtain ⟨hi, rfl⟩ := quickIndex_some.mp hn
      obtain ⟨rfl, hlist, hend⟩ := (htaken i hn).1 hfull
      exact ⟨I.chain i hi, (I.length i hi).symm.trans hfull, hnodup _, hlist, hend⟩
    · exact (htaken i hn).2 hroom

end

/-! ## A run on fixed inputs -/

instance (e : Env) (s : State) (blocks : Nat → Option Nat) (b n : Nat) :
    Decidable (Allocated e s blocks b n) := inferInstanceAs (Decidable (_ ∧ ∃ _ : Bool, _))

/-- The insertions and scans of `ops` in order. -/
def QuickState.exec (e : Env) : List QuickOp → QuickState → Option QuickState
  | [], x => some x
  | .put b n :: ops, x =>
      if Allocated e x.heap x.blocks b n ∧ ∀ z ∈ x.present, z.1 ≠ b then
        match sf_put_take e b n x.heap with
        | .ok (_, heap) => exec e ops ⟨heap, x.blocks, x.insert b n⟩
        | .error _ => none
      else none
  | .scan n :: ops, x =>
      match sf_malloc_scan e n x.heap with
      | .ok (_, heap) => exec e ops ⟨heap, x.blocks, Stacks.pop n x.present⟩
      | .error _ => none
  | .other :: _, _ => none

theorem quickReached_exec {e : Env} {ops : List QuickOp} {x y : QuickState}
    (h : QuickReached e x) (hy : x.exec e ops = some y) : QuickReached e y := by
  induction ops generalizing x with
  | nil =>
    cases hy
    exact h
  | cons op ops ih =>
    cases op with
    | put b n =>
      rw [QuickState.exec] at hy
      split at hy
      · next hb =>
        split at hy
        · next taken heap hrun =>
          have hput : QuickReached e ⟨heap, x.blocks, x.insert b n⟩ :=
            .step (i := .put b n) h ⟨hb.1, hb.2, ⟨taken, hrun⟩, rfl, rfl⟩
          exact ih hput hy
        · cases hy
      · cases hy
    | scan n =>
      rw [QuickState.exec] at hy
      split at hy
      · next r heap hrun =>
        have hscan : QuickReached e ⟨heap, x.blocks, Stacks.pop n x.present⟩ :=
          .step (i := .scan n) h ⟨⟨r, hrun⟩, rfl, rfl⟩
        exact ih hscan hy
      · cases hy
    | other => cases hy

/-- Six blocks of 32 bytes and two of 48. -/
def eightBlocks : List (Nat × Nat) :=
  [(0x100000, 32), (0x100020, 32), (0x100040, 32), (0x100060, 32), (0x100080, 32),
    (0x1000a0, 32), (0x1000c0, 48), (0x1000f0, 48)]

def eightSize (a : Nat) : Option Nat := List.lookup a eightBlocks

/-- One page with these blocks, all allocated. -/
def eightPage : State := { sample.heap with
  mem := fun x => match eightSize (x - 8) with
    | some n => (Hdr.mk n true true).word ^^^ sampleEnv.magic
    | none => 0
  sf_mem_end := 0x101000 }

theorem mem_eightBlocks {a n : Nat} (h : eightSize a = some n) : (a, n) ∈ eightBlocks := by
  obtain ⟨pre, post, hsplit, -⟩ := List.lookup_eq_some_iff.mp h
  rw [hsplit]
  exact List.mem_append_right pre List.mem_cons_self

theorem eightPage_room {s : State} (hend : s.sf_mem_end = 0x101000) :
    Room sampleEnv s eightSize where
  limit := by
    rw [hend]
    decide
  inside := by
    intro a n ha
    rw [hend]
    have hall : ∀ z ∈ eightBlocks, sampleEnv.sf_mem_start ≤ z.1 ∧ z.1 % 16 = 0 ∧ 32 ≤ z.2 ∧
        z.2 % 16 = 0 ∧ z.1 + z.2 + 16 ≤ 0x101000 := by decide
    exact hall _ (mem_eightBlocks ha)
  apart := by
    intro a b n k ha hb hlt
    have hall : ∀ z ∈ eightBlocks, ∀ w ∈ eightBlocks, z.1 < w.1 → z.1 + z.2 ≤ w.1 := by decide
    exact hall (a, n) (mem_eightBlocks ha) (b, k) (mem_eightBlocks hb) hlt

/-- The list of the 32-byte blocks is full, and another one of them flushes it; of the two blocks
of 48 bytes a scan takes the one that came last. -/
theorem quick_lists_correct_sample : ∃ x y : QuickState,
    x.present = [(0x100080, 32), (0x1000f0, 48), (0x100060, 32), (0x100040, 32), (0x1000c0, 48),
      (0x100020, 32), (0x100000, 32)] ∧ QuickCorrect sampleEnv x ∧
    y.present = [(0x1000a0, 32), (0x1000c0, 48)] ∧ QuickCorrect sampleEnv y := by
  have hrun : Ends (sf_init_lists sampleEnv) eightPage fun _ s => s.sf_mem_end = 0x101000 ∧
      ∃ x ∈ QuickState.exec sampleEnv
        [.put 0x100000 32, .put 0x100020 32, .put 0x1000c0 48, .put 0x100040 32, .put 0x100060 32,
          .put 0x1000f0 48, .put 0x100080 32] ⟨s, eightSize, []⟩,
        x.present = [(0x100080, 32), (0x1000f0, 48), (0x100060, 32), (0x100040, 32),
          (0x1000c0, 48), (0x100020, 32), (0x100000, 32)] ∧
        ∃ y ∈ x.exec sampleEnv [.put 0x1000a0 32, .scan 48],
          y.present = [(0x1000a0, 32), (0x1000c0, 48)] := by
    decide +kernel
  obtain ⟨_, s, hinit, hend, x, hx, hxs, y, hy, hys⟩ := hrun
  have h₀ : QuickReached sampleEnv ⟨s, eightSize, []⟩ :=
    .init ⟨rfl, eightPage_room hend, eightPage, hinit⟩
  have hreach := quickReached_exec h₀ hx
  exact ⟨x, y, hxs, quick_lists_correct hreach, hys,
    quick_lists_correct (quickReached_exec hreach hy)⟩

end StarterProjects.Sfmm
