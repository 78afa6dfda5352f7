import Mathlib.Algebra.Order.Ring.Nat
import Mathlib.Order.Bounds.Basic
import StarterProjects.Sfmm.Client
import StarterProjects.Sfmm.Coalesce

/-!
# What `sf_coalesce` merges

The whole effect of `sf_coalesce` on a free block that is in no list, for a heap
of which only the blocks and the free lists are known (`sf_coalesce_merges`).
`FreeHeap` asks nothing of the quick lists, so the run is one of the heap without
them: `sf_coalesce` neither reads nor writes them.
-/

namespace StarterProjects.Sfmm

open Lib Lib.Exec

/-! ## The quick lists make no difference -/

def State.withQuicks (s : State) (q : Nat → QuickList) : State := { s with sf_quick_lists := q }

/-- The program neither reads nor writes the quick lists. -/
abbrev QuickBlind {α : Type} (m : Exec State α) : Prop :=
  ∀ q : Nat → QuickList, Blind (fun s => s.withQuicks q) m

namespace QuickBlind

variable (e : Env)

theorem load (a : Nat) : QuickBlind (load e a) := by
  intro q s
  unfold Sfmm.load
  by_cases h : mapped e s a
  · rw [if_pos h, if_pos (show mapped e (s.withQuicks q) a from h)]
    rfl
  · rw [if_neg h, if_neg (show ¬ mapped e (s.withQuicks q) a from h)]
    rfl

theorem store (a v : Nat) : QuickBlind (store e a v) := by
  intro q s
  unfold Sfmm.store
  by_cases h : mapped e s a
  · rw [if_pos h, if_pos (show mapped e (s.withQuicks q) a from h)]
    rfl
  · rw [if_neg h, if_neg (show ¬ mapped e (s.withQuicks q) a from h)]
    rfl

theorem footer (b : Nat) : QuickBlind (sf_set_block_footer e b) := fun q =>
  (load e _ q).bind fun _ => store e _ _ q

theorem put_in_free_list (b n : Nat) : QuickBlind (sf_put_in_free_list e b n) := fun q =>
  (load e _ q).bind fun _ => (store e _ _ q).bind fun _ => (store e _ _ q).bind fun _ =>
    (store e _ _ q).bind fun _ => store e _ _ q

theorem remove_walk (b head : Nat) : ∀ fuel cur, QuickBlind (sf_remove_walk e b head fuel cur)
  | 0, _, _ => Blind.stop _
  | fuel + 1, _, q => (load e _ q).bind fun cur => Blind.ite (Blind.ret _) (Blind.ite
      ((load e _ q).bind fun _ => (load e _ q).bind fun _ => (store e _ _ q).bind fun _ =>
        (load e _ q).bind fun _ => (store e _ _ q).bind fun _ => Blind.ret _)
      (remove_walk b head fuel cur q))

theorem remove (b : Nat) : QuickBlind (sf_remove_from_free_list e b) := fun q =>
  Blind.get (fun _ => rfl) fun _ =>
    (Blind.firstSome (fun _ => remove_walk e _ _ _ _ q) _).bind fun _ => Blind.ret _

theorem probe (b : Nat) : QuickBlind (sf_probe e b) := fun q =>
  (load e _ q).bind fun _ => Blind.ret _

theorem make_free (b n past : Nat) : QuickBlind (sf_make_free e b n past) := fun q =>
  (store e _ _ q).bind fun _ => (store e _ _ q).bind fun _ => (footer e _ q).bind fun _ =>
    put_in_free_list e _ _ q

theorem merge (b n : Nat) (past next : Nat × Bool × Nat) :
    QuickBlind (sf_merge e b n past next) := by
  obtain ⟨p, pf, pn⟩ := past
  obtain ⟨x, xf, xn⟩ := next
  intro q
  cases pf <;> cases xf
  · exact (put_in_free_list e _ _ q).bind fun _ => Blind.ret _
  · exact (remove e _ q).bind fun _ => (remove e _ q).bind fun _ => (make_free e _ _ _ q).bind
      fun _ => Blind.ret _
  · exact (remove e _ q).bind fun _ => (remove e _ q).bind fun _ => (make_free e _ _ _ q).bind
      fun _ => Blind.ret _
  · exact (remove e _ q).bind fun _ => (remove e _ q).bind fun _ => (remove e _ q).bind fun _ =>
      (make_free e _ _ _ q).bind fun _ => Blind.ret _

theorem coalesce (b n f : Nat) (large : Bool) : QuickBlind (sf_coalesce e b n f large) := fun q =>
  Blind.get (fun _ => rfl) fun _ => (Blind.ite (Blind.ret _) (probe e _ q)).bind fun _ =>
    (Blind.ite (Blind.ret _) (probe e _ q)).bind fun _ => merge e _ _ _ _ q

end QuickBlind

/-! ## The heap -/

/-- The blocks tile the heap, headers say what they are, and the free lists hold unallocated blocks
of their size classes, linked in both directions. -/
structure FreeHeap (e : Env) (s : State) (hdr : Nat → Option Hdr) (free : Nat → List Nat) :
    Prop where
  limit : s.sf_mem_end ≤ e.heapLimit
  pages : e.sf_mem_start + PAGE_SZ ≤ s.sf_mem_end
  end_aligned : s.sf_mem_end % 16 = 0
  tiles : Tiles e.sf_mem_start (s.sf_mem_end - 16) fun a => (hdr a).map Hdr.size
  sizes : ∀ {a h}, hdr a = some h → a % 16 = 0 ∧ 32 ≤ h.size ∧ h.size % 16 = 0
  header : ∀ {a h}, hdr a = some h → s.mem (headerOf a) = h.word ^^^ e.magic
  ring : ∀ i < 10, Path false s.nxt s.prv (e.head i) (free i) (e.head i)
  free_mem : ∀ {i a}, i < 10 → a ∈ free i →
    ∃ h, hdr a = some h ∧ h.alloc = false ∧ freeIndex h.size = i
  free_nodup : ∀ i < 10, (free i).Nodup

/-- The pool of such a heap, when nothing else is known of it. -/
def freePool (s : State) (hdr : Nat → Option Hdr) (free : Nat → List Nat) : Pool where
  hdr := hdr
  free := free
  quick := fun _ => []
  known := fun _ => none
  closed := fun _ => false
  busy := none
  touched := []
  memEnd := s.sf_mem_end
  globalEnd := s.globalEnd
  errno := s.sf_errno
  growCalls := s.growCalls

def noQuicks : Nat → QuickList := fun _ => ⟨0, NULL⟩

namespace FreeHeap

variable {e : Env} {s : State} {hdr : Nat → Option Hdr} {free : Nat → List Nat}
  (H : FreeHeap e s hdr free)

include H

theorem inside {a : Nat} {h : Hdr} (ha : hdr a = some h) :
    e.sf_mem_start ≤ a ∧ a + h.size + 16 ≤ s.sf_mem_end := by
  have hsize : (fun a => (hdr a).map Hdr.size) a = some h.size := by simp [ha]
  have hin := H.tiles.inside hsize
  have hpages := H.pages
  unfold PAGE_SZ at hpages
  omega

theorem represents :
    Represents e (fun _ => False) s.mem (s.withQuicks noQuicks) (freePool s hdr free) where
  shape :=
    { limit := H.limit
      pages := H.pages
      end_aligned := H.end_aligned
      inside := fun {a h} ha => by
        have hin := H.inside ha
        have hsizes := H.sizes ha
        exact ⟨hin.1, hsizes.1, hsizes.2.1, hsizes.2.2, hin.2⟩
      apart := fun {a b h k} ha hb hab => by
        have ha' : (hdr a).map Hdr.size = some h.size := by rw [show hdr a = some h from ha]; rfl
        have hb' : (hdr b).map Hdr.size = some k.size := by rw [show hdr b = some k from hb]; rfl
        exact H.tiles.apart ha' hb' hab
      free_mem := H.free_mem
      free_nodup := H.free_nodup
      quick_mem := fun _ ha => absurd ha List.not_mem_nil
      quick_nodup := fun _ _ => List.nodup_nil
      known_mem := fun hc => absurd hc (by simp [freePool]) }
  memEnd := rfl
  globalEnd := rfl
  errno := rfl
  growCalls := rfl
  header := H.header
  known := fun hc => absurd hc (by simp [freePool])
  ring := H.ring
  chain := fun _ _ _ => ⟨rfl, rfl⟩
  watch := False.elim
  kept := fun hx => hx.elim

/-- A block is followed by another one, or it is the last. -/
theorem edge {m : Nat} {h : Hdr} (hm : hdr m = some h) :
    m + h.size + 16 = s.sf_mem_end ∨ ∃ k, hdr (m + h.size) = some k := by
  have hsize : (fun a => (hdr a).map Hdr.size) m = some h.size := by simp [hm]
  have hpages := H.pages
  unfold PAGE_SZ at hpages
  rcases H.tiles.next hsize with hend | ⟨l, hl⟩
  · exact .inl (by omega)
  · obtain ⟨k, hk, -⟩ := Option.map_eq_some_iff.mp hl
    exact .inr ⟨k, hk⟩

end FreeHeap

/-! ## What coalescing makes of a pool -/

namespace Pool

/-- The blocks that become one, from the lowest on. -/
def mergedBlocks (m : Nat) (past next : Option Nat) : List Nat := past.toList ++ m :: next.toList

def mergedSize (g : Pool) (m : Nat) (past next : Option Nat) : Nat :=
  ((mergedBlocks m past next).map g.sizeOf).sum

variable {g : Pool} {m i a : Nat} {past next : Option Nat}

theorem mem_put {b size : Nat} :
    a ∈ (g.put b size).free i ↔ a ∈ g.free i ∨ (a = b ∧ i = freeIndex size) := by
  rw [put_free]
  by_cases hi : i = freeIndex size
  · rw [if_pos hi, List.mem_cons]
    simp only [hi, and_true]
    exact or_comm
  · rw [if_neg hi]
    simp only [hi, and_false, or_false]

/-- With a free neighbour, coalescing takes the merged blocks off the lists and makes one block. -/
theorem coalesce_eq_makeFree (h : (past.isSome || next.isSome) = true) :
    g.coalesce m past next = ((m :: (past.toList ++ next.toList)).foldl erase g).makeFree
      (past.getD m) (g.mergedSize m past next)
      ((if past.isSome then [m] else []) ++ next.toList) := by
  cases past with
  | none =>
    cases next with
    | none => exact absurd h (by decide)
    | some n => simp [coalesce, mergedSize, mergedBlocks]
  | some p =>
    cases next with
    | none => simp [coalesce, mergedSize, mergedBlocks, Nat.add_comm (g.sizeOf p)]
    | some n =>
      simp [coalesce, mergedSize, mergedBlocks, Nat.add_left_comm (g.sizeOf p), Nat.add_assoc]

theorem mem_foldl_erase : ∀ {l : List Nat} {g : Pool}, (g.free i).Nodup →
    (a ∈ (l.foldl erase g).free i ↔ a ∈ g.free i ∧ a ∉ l)
  | [], g, _ => by simp
  | b :: l, g, hnd => by
    rw [List.foldl_cons, mem_foldl_erase (hnd.erase b), erase_free, hnd.mem_erase_iff,
      List.mem_cons]
    tauto

theorem foldl_erase_hdr : ∀ (l : List Nat) (g : Pool), (l.foldl erase g).hdr = g.hdr
  | [], _ => rfl
  | _ :: l, _ => foldl_erase_hdr l _

/-- The members of the lists: the free neighbours go, the merged block comes. -/
theorem mem_coalesce (hnd : (g.free i).Nodup) (hm : m ∉ g.free i) :
    a ∈ (g.coalesce m past next).free i ↔
      (a ∈ g.free i ∧ past ≠ some a ∧ next ≠ some a) ∨
        (a = past.getD m ∧ i = freeIndex (g.mergedSize m past next)) := by
  by_cases h : (past.isSome || next.isSome) = true
  · have hne : a ∈ g.free i → a ≠ m := fun ha he => hm (he ▸ ha)
    rw [coalesce_eq_makeFree h, makeFree, mem_put]
    simp only [note_free, spoil_free, fuse_free]
    rw [mem_foldl_erase hnd]
    simp only [List.mem_cons, List.mem_append, Option.mem_toList, not_or]
    tauto
  · simp only [Bool.or_eq_true, Option.isSome_iff_ne_none, not_or, not_not] at h
    obtain ⟨rfl, rfl⟩ := h
    rw [coalesce, mem_put]
    simp [mergedSize, mergedBlocks]

/-- The header and the footer of the merged block. -/
theorem coalesce_merged (h : (past.isSome || next.isSome) = true) :
    (g.coalesce m past next).hdr (past.getD m) = some ⟨g.mergedSize m past next, false, true⟩ ∧
      (g.coalesce m past next).known (past.getD m + g.mergedSize m past next) =
        some (Hdr.mk (g.mergedSize m past next) false true).word := by
  rw [coalesce_eq_makeFree h, makeFree]
  simp

/-- The other blocks stay as they are. -/
theorem coalesce_hdr_of_ne (hm : (past.isSome || next.isSome) = true → a ≠ m)
    (hpast : past ≠ some a) (hnext : next ≠ some a) :
    (g.coalesce m past next).hdr a = g.hdr a := by
  by_cases h : (past.isSome || next.isSome) = true
  · have hb : a ≠ past.getD m := by
      cases past with
      | none => exact hm h
      | some p => exact fun he => hpast (by rw [he]; rfl)
    have hdrop : a ∉ (if past.isSome then [m] else []) ++ next.toList := by
      rw [List.mem_append, Option.mem_toList, not_or]
      refine ⟨fun hmem => hm h ?_, hnext⟩
      split at hmem
      · exact List.mem_singleton.mp hmem
      · exact absurd hmem List.not_mem_nil
    rw [coalesce_eq_makeFree h, makeFree]
    simp only [put_hdr, note_hdr, spoil_hdr, fuse_hdr, if_neg hb, if_neg hdrop]
    rw [foldl_erase_hdr]
  · simp only [Bool.or_eq_true, Option.isSome_iff_ne_none, not_or, not_not] at h
    obtain ⟨rfl, rfl⟩ := h
    rfl

theorem mem_mergedBlocks :
    a ∈ mergedBlocks m past next ↔ a = m ∨ past = some a ∨ next = some a := by
  rw [mergedBlocks, List.mem_append, List.mem_cons, Option.mem_toList, Option.mem_toList,
    or_left_comm]

theorem mergedBlocks_nodup (hp : ∀ p, past = some p → p < m) (hn : ∀ n, next = some n → m < n) :
    (mergedBlocks m past next).Nodup := by
  cases past with
  | none =>
    cases next with
    | none => simp [mergedBlocks]
    | some n => simpa [mergedBlocks] using (hn n rfl).ne
  | some p =>
    cases next with
    | none => simpa [mergedBlocks] using (hp p rfl).ne
    | some n =>
      have h1 := hp p rfl
      have h2 := hn n rfl
      simp [mergedBlocks, h1.ne, h2.ne, (h1.trans h2).ne]

theorem mergedBlocks_isLeast (hp : ∀ p, past = some p → p < m)
    (hn : ∀ n, next = some n → m < n) :
    IsLeast {a | a ∈ mergedBlocks m past next} (past.getD m) := by
  constructor
  · cases past <;> simp [mergedBlocks]
  · intro a ha
    have ha' := mem_mergedBlocks.mp ha
    have hle : past.getD m ≤ m := by
      cases past with
      | none => exact Nat.le_refl m
      | some p => exact (hp p rfl).le
    rcases ha' with rfl | h | h
    · exact hle
    · rw [h]
      exact Nat.le_refl a
    · exact hle.trans (hn a h).le

end Pool

/-! ## `sf_coalesce` -/

/-- An unallocated block right before or right after the block at `m`. -/
def FreeNeighbour (hdr : Nat → Option Hdr) (m : Nat) (h : Hdr) (a : Nat) : Prop :=
  ∃ k, hdr a = some k ∧ k.alloc = false ∧ (a + k.size = m ∨ m + h.size = a)

def lengthAt (hdr : Nat → Option Hdr) (a : Nat) : Nat := ((hdr a).map Hdr.size).getD 0

/-- The block at `m` and its unallocated neighbours, which are `merged`, have become the block of
`size` bytes at `b`, and the free lists are `free'`. -/
structure Merges (e : Env) (s : State) (hdr : Nat → Option Hdr) (free : Nat → List Nat) (m : Nat)
    (h : Hdr) (r : Bool) (s' : State) (free' : Nat → List Nat) (merged : List Nat)
    (b size : Nat) : Prop where
  returned : r = true ↔ ∃ a, FreeNeighbour hdr m h a
  nodup : merged.Nodup
  mem_merged : ∀ a, a ∈ merged ↔ a = m ∨ FreeNeighbour hdr m h a
  lowest : IsLeast {a | a ∈ merged} b
  total : size = (merged.map (lengthAt hdr)).sum
  ring : ∀ i < 10, Path false s'.nxt s'.prv (e.head i) (free' i) (e.head i)
  free_nodup : ∀ i < 10, (free' i).Nodup
  members : ∀ i < 10, ∀ a, a ∈ free' i ↔
    (a ∈ free i ∧ ¬ FreeNeighbour hdr m h a) ∨ (a = b ∧ i = freeIndex size)
  header : r = true → unflag (s'.mem (headerOf b) ^^^ e.magic) = size
  footer : r = true → unflag (s'.mem (b + size) ^^^ e.magic) = size
  others : ∀ a k, hdr a = some k → (r = true → a ∉ merged) →
    s'.mem (headerOf a) = s.mem (headerOf a)

/-- The block after, when it is unallocated. -/
theorem freeAfter_iff (s : State) {hdr : Nat → Option Hdr} (free : Nat → List Nat) {m : Nat}
    {h : Hdr} (hm : hdr m = some h) (a : Nat) :
    (freePool s hdr free).freeAfter m = some a ↔
      ∃ k, hdr a = some k ∧ k.alloc = false ∧ m + h.size = a := by
  have hsize : (freePool s hdr free).sizeOf m = h.size :=
    Pool.sizeOf_of_hdr (g := freePool s hdr free) hm
  constructor
  · intro hafter
    obtain ⟨rfl, k, hk, hal⟩ := Pool.freeAfter_some hafter
    exact ⟨k, hk, hal, by rw [hsize]⟩
  · rintro ⟨k, hk, hal, rfl⟩
    have hk' : (freePool s hdr free).hdr (m + h.size) = some k := hk
    rw [Pool.freeAfter, hsize, hk']
    exact if_neg (by simp [hal])

namespace FreeHeap

variable {e : Env} {s : State} {hdr : Nat → Option Hdr} {free : Nat → List Nat}
  (H : FreeHeap e s hdr free) {m prevFooter : Nat}

include H

/-- The footer leads to the block before, when there is one. -/
theorem pastSeen (hprev : (m = e.sf_mem_start ∧ prevFooter = 0) ∨
      ∃ p k, hdr p = some k ∧ p + k.size = m ∧ prevFooter = k.size) :
    ∃ past, Represents.PastSeen e (freePool s hdr free) m prevFooter past ∧
      ∀ a, past = some a ↔ ∃ k, hdr a = some k ∧ k.alloc = false ∧ a + k.size = m := by
  rcases hprev with ⟨rfl, rfl⟩ | ⟨p, k, hp, hend, rfl⟩
  · refine ⟨none, .inl e.start_pos, fun a => ⟨nofun, ?_⟩⟩
    rintro ⟨k, hk, -, hend⟩
    have hin := H.inside hk
    have hsize := (H.sizes hk).2.1
    omega
  · have hin := H.inside hp
    have hsize := (H.sizes hp).2.1
    have hlimit := H.limit
    have htop := e.limit_lt
    -- only one block ends at `m`
    have honly : ∀ a l, hdr a = some l → a + l.size = m → a = p := by
      intro a l ha hal
      have hsize' := (H.sizes ha).2.1
      rcases H.represents.shape.cases_apart (g := freePool s hdr free) ha hp with h1 | h1 | h1
      · exact h1
      · omega
      · omega
    have hback : (if k.size > 0 then sf_get_past_block m k.size else NULL) = p := by
      rw [if_pos (by omega), sf_get_past_block, sub64_of_le (by omega) (by omega)]
      omega
    cases hal : k.alloc with
    | true =>
      refine ⟨none, .inr (.inr ⟨k, ?_, hal⟩), fun a => ⟨nofun, ?_⟩⟩
      · rw [hback]
        exact hp
      · rintro ⟨l, ha, halloc, hal'⟩
        obtain rfl := honly a l ha hal'
        rw [hp] at ha
        cases ha
        rw [hal] at halloc
        cases halloc
    | false =>
      refine ⟨some p, ⟨k, hp, hal, hend, rfl⟩, fun a => ⟨?_, ?_⟩⟩
      · rintro ⟨⟩
        exact ⟨k, hp, hal, hend⟩
      · rintro ⟨l, ha, -, hal'⟩
        rw [honly a l ha hal']

end FreeHeap

/-- `sf_coalesce` of an unallocated block that is in no list, given the size of the block before
it. -/
theorem sf_coalesce_merges {e : Env} {s : State} {hdr : Nat → Option Hdr} {free : Nat → List Nat}
    (H : FreeHeap e s hdr free) {m prevFooter : Nat} {h : Hdr} (hm : hdr m = some h)
    (hal : h.alloc = false) (hun : ∀ i < 10, m ∉ free i)
    (hprev : (m = e.sf_mem_start ∧ prevFooter = 0) ∨
      ∃ p k, hdr p = some k ∧ p + k.size = m ∧ prevFooter = k.size) :
    Ends (sf_coalesce e m h.size prevFooter false) s fun r s' =>
      ∃ free' merged b size, Merges e s hdr free m h r s' free' merged b size := by
  obtain ⟨past, hpast, hpastIff⟩ := H.pastSeen hprev
  have hnextIff := freeAfter_iff s free hm
  have hrun := (QuickBlind.coalesce e m h.size prevFooter false noQuicks).ends (s := s)
    (H.represents.coalesce_returns hm hal hun hpast (H.edge hm))
  refine hrun.mono ?_
  rintro r s' ⟨hr, R⟩
  generalize hnext : (freePool s hdr free).freeAfter m = next at hnextIff hr R
  -- the free neighbours are the blocks that the two probes find
  have hneighbour : ∀ a, FreeNeighbour hdr m h a ↔ past = some a ∨ next = some a := by
    intro a
    rw [hpastIff, hnextIff]
    constructor
    · rintro ⟨k, hk, hkal, hbefore | hafter⟩
      · exact .inl ⟨k, hk, hkal, hbefore⟩
      · exact .inr ⟨k, hk, hkal, hafter⟩
    · rintro (⟨k, hk, hkal, hbefore⟩ | ⟨k, hk, hkal, hafter⟩)
      · exact ⟨k, hk, hkal, .inl hbefore⟩
      · exact ⟨k, hk, hkal, .inr hafter⟩
  have hbefore : ∀ p, past = some p → p < m := by
    intro p hp
    obtain ⟨k, hk, -, hend⟩ := (hpastIff p).mp hp
    have := (H.sizes hk).2.1
    omega
  have hafter : ∀ n, next = some n → m < n := by
    intro n hn
    obtain ⟨k, -, -, hend⟩ := (hnextIff n).mp hn
    have := (H.sizes hm).2.1
    omega
  have hmerged := fun hmerge : r = true =>
    Pool.coalesce_merged (g := freePool s hdr free) (m := m) (hr.symm.trans hmerge)
  refine ⟨((freePool s hdr free).coalesce m past next).free,
    Pool.mergedBlocks m past next, past.getD m, (freePool s hdr free).mergedSize m past next, ?_⟩
  refine
    { returned := ?_
      nodup := Pool.mergedBlocks_nodup hbefore hafter
      mem_merged := ?_
      lowest := Pool.mergedBlocks_isLeast hbefore hafter
      total := rfl
      ring := fun i hi => (R.ring i hi).open_of
      free_nodup := R.shape.free_nodup
      members := ?_
      header := ?_
      footer := ?_
      others := ?_ }
  · rw [hr, Bool.or_eq_true, Option.isSome_iff_exists, Option.isSome_iff_exists, ← exists_or]
    exact exists_congr fun a => (hneighbour a).symm
  · intro a
    rw [hneighbour]
    exact Pool.mem_mergedBlocks
  · intro i hi a
    rw [Pool.mem_coalesce (H.free_nodup i hi) (hun i hi), hneighbour]
    simp only [not_or, freePool, ne_eq]
  · intro hmerge
    obtain ⟨hheader, -⟩ := hmerged hmerge
    have hsize := R.shape.inside hheader
    have hword : s'.mem (headerOf (past.getD m)) = _ := R.header hheader
    rw [hword, xor_magic, Hdr.unflag_word (by omega)]
  · intro hmerge
    obtain ⟨hheader, hfooter⟩ := hmerged hmerge
    have hsize := R.shape.inside hheader
    have hword : s'.mem (past.getD m + (freePool s hdr free).mergedSize m past next) = _ :=
      R.known hfooter
    rw [hword, xor_magic, Hdr.unflag_word (by omega)]
  · intro a k ha hout
    have hmem : ∀ x, x = m ∨ past = some x ∨ next = some x →
        x ∈ Pool.mergedBlocks m past next := fun x => Pool.mem_mergedBlocks.mpr
    have hkeep : ((freePool s hdr free).coalesce m past next).hdr a =
        (freePool s hdr free).hdr a := Pool.coalesce_hdr_of_ne
      (fun h1 he => hout (hr.trans h1) (hmem a (.inl he)))
      (fun h1 => hout (by rw [hr, h1]; rfl) (hmem a (.inr (.inl h1))))
      (fun h1 => hout (by rw [hr, h1]; exact Bool.or_true _) (hmem a (.inr (.inr h1))))
    have hnew : s'.mem (headerOf a) = k.word ^^^ e.magic := R.header (hkeep.trans ha)
    rw [hnew, H.header ha]

/-- One page: a free block of 80 bytes that is in no list, and one of 4000 bytes in list 7. -/
def twoFree : State where
  mem x :=
    if x = 0x100008 then (Hdr.mk 80 false true).word ^^^ sampleEnv.magic
    else if x = 0x100058 then (Hdr.mk 4000 false true).word ^^^ sampleEnv.magic
    else if x = 0x10f0 then 0x100050
    else if x = 0x100060 ∨ x = 0x100068 then 0x10e0
    else x - 16
  sf_mem_end := 0x101000
  sf_quick_lists := noQuicks
  globalEnd := 0x100050
  sf_errno := 0
  growCalls := 1

def twoFreeHdr (a : Nat) : Option Hdr :=
  if a = 0x100050 then some ⟨4000, false, true⟩
  else if a = 0x100000 then some ⟨80, false, true⟩
  else none

def twoFreeLists (i : Nat) : List Nat := if i = 7 then [0x100050] else []

theorem twoFree_hdr {a : Nat} {h : Hdr} (ha : twoFreeHdr a = some h) :
    (a = 0x100050 ∧ h = ⟨4000, false, true⟩) ∨ (a = 0x100000 ∧ h = ⟨80, false, true⟩) := by
  unfold twoFreeHdr at ha
  split at ha
  · cases ha
    exact .inl ⟨‹_›, rfl⟩
  · split at ha
    · cases ha
      exact .inr ⟨‹_›, rfl⟩
    · cases ha

theorem twoFree_heap : FreeHeap sampleEnv twoFree twoFreeHdr twoFreeLists where
  limit := by decide
  pages := by decide
  end_aligned := by decide
  tiles := by
    have hwhole : Tiles 0x100000 0x100ff0 fun x => if x = 0x100000 then some 4080 else none :=
      { first := ⟨4080, rfl⟩
        inside := fun {a k} h => by split at h <;> cases h; omega
        apart := fun {a b k l} h h' hlt => by
          split at h <;> cases h
          split at h' <;> cases h'
          omega
        next := fun {a k} h => by split at h <;> cases h; exact .inl (by omega) }
    have hcut := hwhole.split (a := 0x100000) (k := 4080) rfl (m := 80) (by decide) (by decide)
    refine hcut.congr fun x => ?_
    unfold twoFreeHdr
    split_ifs <;> rfl
  sizes := by
    intro a h ha
    rcases twoFree_hdr ha with ⟨rfl, rfl⟩ | ⟨rfl, rfl⟩ <;> decide
  header := by
    intro a h ha
    rcases twoFree_hdr ha with ⟨rfl, rfl⟩ | ⟨rfl, rfl⟩ <;> rfl
  ring := by
    intro i hi
    unfold twoFreeLists
    by_cases h7 : i = 7
    · subst h7
      exact ⟨rfl, rfl, rfl, fun hc => by cases hc⟩
    · rw [if_neg h7]
      refine ⟨?_, fun hc => by cases hc⟩
      simp only [State.nxt, nextOf, Env.head, sampleEnv, twoFree]
      split_ifs <;> omega
  free_mem := by
    intro i a hi ha
    unfold twoFreeLists at ha
    split at ha
    · rename_i h7
      rw [List.mem_singleton.mp ha, h7]
      exact ⟨_, rfl, rfl, rfl⟩
    · exact absurd ha List.not_mem_nil
  free_nodup := by
    intro i hi
    unfold twoFreeLists
    split
    · exact List.nodup_singleton _
    · exact List.nodup_nil

theorem sf_coalesce_merges_twoFree :
    Ends (sf_coalesce sampleEnv 0x100000 80 0 false) twoFree fun r s' =>
      ∃ free' merged b size, Merges sampleEnv twoFree twoFreeHdr twoFreeLists 0x100000
        ⟨80, false, true⟩ r s' free' merged b size :=
  sf_coalesce_merges twoFree_heap (m := 0x100000) (h := ⟨80, false, true⟩) rfl rfl (by decide)
    (.inl ⟨rfl, rfl⟩)

end StarterProjects.Sfmm
