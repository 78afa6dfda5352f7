import StarterProjects.Sfmm.Headers
import StarterProjects.Sfmm.Rounding

/-!
# Serving a request from the lists

The part of `sf_malloc` that does not grow the heap: the quick lists, the
first fit and the two ways to allocate in it.
-/

namespace StarterProjects.Sfmm

open Lib Lib.Exec

/-! ## Allocation in a free block -/

namespace Pool

/-- `globalEnd` is raised to `b`, never lowered. -/
def raiseEnd (g : Pool) (b : Nat) : Pool :=
  g.setGlobalEnd (if b > g.globalEnd then b else g.globalEnd)

/-- Whether the header of `globalEnd` is that of an allocated block. `stale` is
what the word says when `globalEnd` is no block any more. -/
def endAlloc (g : Pool) (stale : Bool) : Bool :=
  match g.hdr g.globalEnd with
  | some h => h.alloc
  | none => stale

def split (g : Pool) (a m : Nat) : Pool :=
  let w := (Hdr.mk (g.sizeOf a - m) false true).word
  ((((((((g.note (a + m + 8) w).spoil (a + m)).note (a + g.sizeOf a) w).erase a).carve a m
    (g.sizeOf a)).put (a + m) (g.sizeOf a - m)).setHdr a ⟨m, true, true⟩).raiseEnd (a + m))

def exact (g : Pool) (a : Nat) (stale : Bool) : Pool :=
  match g.hdr a with
  | some h => ((g.erase a).allot a ⟨h.size, true, h.prev || g.endAlloc stale⟩).raiseEnd a
  | none => g

def place (g : Pool) (a m : Nat) (stale : Bool) : Pool :=
  if g.sizeOf a - m ≥ 32 then g.split a m else g.exact a stale

/-- The payload pointer and the new pool, when the lists can serve a block of
`m` bytes. -/
def serve (g : Pool) (m : Nat) (stale : Bool) : Option (Nat × Pool) :=
  match g.quickHit m with
  | some i => some (nextOf ((g.quick i).headD NULL), g.setQuick i (g.quick i).tail)
  | none =>
      match g.fit m with
      | some a => some (nextOf a, g.place a m stale)
      | none => none

theorem quickHit_some {g : Pool} {m i : Nat} (h : g.quickHit m = some i) :
    i < 10 ∧ (∃ a l, g.quick i = a :: l) ∧ m = 32 + 16 * i := by
  have h1 := List.find?_some h
  have h2 := List.mem_range.mp (List.mem_of_find?_eq_some h)
  rw [Bool.and_eq_true, decide_eq_true_eq] at h1
  refine ⟨h2, ?_, h1.2⟩
  cases hq : g.quick i with
  | nil =>
    rw [hq] at h1
    exact absurd h1.1 (by decide)
  | cons a l => exact ⟨a, l, rfl⟩

theorem quickHit_none {g : Pool} {m i : Nat} (h : g.quickHit m = none) (hi : i < 10) :
    ¬ (g.quick i ≠ [] ∧ m = 32 + 16 * i) := by
  have h1 := List.find?_eq_none.mp h i (List.mem_range.mpr hi)
  rintro ⟨h2, h3⟩
  refine h1 ?_
  rw [Bool.and_eq_true, decide_eq_true_eq]
  refine ⟨?_, h3⟩
  cases hq : g.quick i with
  | nil => exact absurd hq h2
  | cons a l => rfl

theorem fit_some {g : Pool} {m a : Nat} (h : g.fit m = some a) :
    (∃ i < 10, a ∈ g.free i) ∧ m ≤ g.sizeOf a := by
  obtain ⟨i, hi, hf⟩ := List.exists_of_findSome?_eq_some h
  exact ⟨⟨i, List.mem_range.mp hi, List.mem_of_find?_eq_some hf⟩,
    of_decide_eq_true (List.find?_some (p := fun a => decide (m ≤ g.sizeOf a)) hf)⟩

theorem fit_none {g : Pool} {m i a : Nat} (h : g.fit m = none) (hi : i < 10) (ha : a ∈ g.free i) :
    g.sizeOf a < m := by
  have h1 := List.findSome?_eq_none_iff.mp h i (List.mem_range.mpr hi)
  have h2 := List.find?_eq_none.mp h1 a ha
  simpa using h2

end Pool

namespace Represents

variable {e : Env} {W : Nat → Prop} {m₀ : Nat → Nat} {s : State} {g : Pool}
  (R : Represents e W m₀ s g)

include R

theorem raise_ends (b : Nat) :
    Ends (raiseGlobalEnd b) s fun _ s' => Represents e W m₀ s' (g.raiseEnd b) := by
  refine .of_eq (modify_apply _ s) ?_
  rw [Pool.raiseEnd, ← R.globalEnd]
  exact R.set_globalEnd _

/-- The two stores of the split branch unlink the block, in the other order than
`sf_remove_from_free_list`. -/
theorem unlink' {b i : Nat} (hi : i < 10) (hb : b ∈ g.free i) :
    Represents e W m₀
      ((s.put (nextOf (s.prv b)) (s.nxt b)).put (prevOf (s.nxt b)) (s.prv b)) (g.erase b) := by
  have hbm : b ∈ e.head i :: g.free i := List.mem_cons_of_mem _ hb
  have fn := R.freeNode_path hi (R.nxt_mem hi hbm)
  have fp := R.freeNode_path hi (R.prv_mem hi hb)
  rw [State.put_comm _ _ _ (node_next_ne_prev R.shape fp.node fn.node)]
  exact R.unlink hi hb

theorem split_ends {a i m : Nat} {h : Hdr} (hi : i < 10) (hm : a ∈ g.free i)
    (ha : g.hdr a = some h) (hal : h.alloc = false) (h32 : 32 ≤ m) (h16 : m % 16 = 0)
    (hrest : m + 32 ≤ h.size) :
    Ends (sf_malloc_split e a h.size m) s fun r s' =>
      r = nextOf a ∧ Represents e W m₀ s' (g.split a m) := by
  have S := R.shape
  have h1 := S.inside ha
  have h2 := S.lt_two_pow ha
  obtain ⟨w, hw⟩ : ∃ w, w = (Hdr.mk (h.size - m) false true).word := ⟨_, rfl⟩
  unfold sf_malloc_split
  rw [add64_of_lt (by omega), or_prev_word (by omega), ← hw]
  -- header, `prev_footer` and footer of the rest
  refine .run (store_ok (R.mapped_heap (by unfold headerOf; omega) (by unfold headerOf; omega)
    (by unfold headerOf; omega))) ?_
  have R1 := R.store_note (x := a + m + 8) (w := w)
    (quiet_inside S ha (by omega) (by omega) (by omega))
    (by omega) (by omega) ⟨a, h, ha, hal, by omega, by omega⟩
  refine .run (store_ok (R1.mapped_heap (x := a + m) (by omega) (by omega) (by simp; omega))) ?_
  have R2 := R1.store_spoil (x := a + m) (v := (m ||| THIS_BLOCK_ALLOCATED) ^^^ e.magic)
    (quiet_inside R1.shape ha (by omega) (by omega) (by omega)) (by omega) (by simp; omega)
  refine .run (R2.footer_known (b := a + m) (w := w) (by omega) (by omega) (by simp; omega)
    (by simp) (c := a + h.size) (by
      rw [hw, Hdr.unflag_word (by dsimp only; omega), add64_of_lt (by dsimp only; omega)]
      dsimp only
      omega)
    (R2.mapped_end ha)) ?_
  have R3 := R2.store_note (x := a + h.size) (w := w) (quiet_end R2.shape ha) (by omega)
    (by simp; omega) ⟨a, h, ha, hal, by omega, by omega⟩
  -- the block leaves its list
  have hm3 : a ∈ (((g.note (a + m + 8) w).spoil (a + m)).note (a + h.size) w).free i := hm
  have han : Node e _ a := .inr ⟨h, ha⟩
  refine .run (R3.load_prev han) (.run (R3.load_next han) ?_)
  have hbm : a ∈ e.head i :: _ := List.mem_cons_of_mem _ hm3
  refine .run (store_ok (R3.mapped_next (R3.freeNode_path hi (R3.prv_mem hi hm3)).node)) ?_
  refine .run (store_ok (R3.mapped_prev (R3.freeNode_path hi (R3.nxt_mem hi hbm)).node)) ?_
  have R4 := R3.unlink' hi hm3
  have hun := fun j (hj : j < 10) => R3.shape.not_mem_erase (b := a) hj
  have R5 := R4.carve (m := m) ha hun (fun j hj => S.not_quick_of_free ha hal hj) h32 h16 hrest
    (by rw [← hw]; exact R4.known (c := a + m + 8) (by simp))
    fun x hx => (R.outside_free ha hal x hx).imp_left fun hle => by omega
  refine (R5.put_ends (b := a + m) (h := ⟨h.size - m, false, true⟩) (by simp) rfl ?_).step
    fun _ s6 R6 => ?_
  · exact fun j hj hc => S.interior_not_free ha (by omega) (by omega) hj (List.mem_of_mem_erase hc)
  -- the front becomes a block again, now allocated
  rw [or_this_prev_word (by omega)]
  refine .run (store_ok (R6.mapped_heap (by unfold headerOf; omega) (by unfold headerOf; omega)
    (by unfold headerOf; simp; omega))) ?_
  have R7 := R6.appear (a := a) (h := ⟨m, true, true⟩) (by simp; omega)
    ⟨h1.1, h1.2.1, h32, h16, by simp; omega⟩ ?_ ?_
  · refine (R7.raise_ends (a + m)).step fun _ s8 R8 => .ret ⟨rfl, ?_⟩
    rw [Pool.split, Pool.sizeOf_of_hdr ha, ← hw]
    exact R8
  · intro b k hb
    simp only [Pool.put_hdr, Pool.carve_hdr] at hb
    split at hb
    · exact .inr (by dsimp only; omega)
    · split at hb
      · cases hb
      · have h3 := (S.cases_apart hb ha).resolve_left ‹_›
        dsimp only
        omega
  · exact fun x hx => ⟨(R.watch hx).not_header ha, nofun⟩

theorem exact_ends {a : Nat} {h : Hdr} (ha : g.hdr a = some h) (hal : h.alloc = false)
    (hend : mapped e s (headerOf g.globalEnd)) :
    ∃ stale, Ends (sf_malloc_exact e a) s fun r s' =>
      r = nextOf a ∧ Represents e W m₀ s' (g.exact a stale) := by
  have h1 := R.shape.inside ha
  obtain ⟨_, s1, he, R1⟩ := R.remove_ends a
  refine ⟨decide ((s1.mem (headerOf g.globalEnd) ^^^ e.magic) &&& THIS_BLOCK_ALLOCATED =
    THIS_BLOCK_ALLOCATED), ?_⟩
  have hmapped : mapped e s1 (headerOf g.globalEnd) := by
    unfold mapped at hend ⊢
    rw [R1.memEnd]
    rw [R.memEnd] at hend
    exact hend
  unfold sf_malloc_exact
  refine .run he (.run (get_apply s1) ?_)
  rw [show s1.globalEnd = g.globalEnd from R1.globalEnd]
  refine .run (load_ok hmapped) ?_
  refine .run (R1.load_header ha) ?_
  -- what the word of `globalEnd` says is what the pool says, if it is a block
  generalize hst : decide ((s1.mem (headerOf g.globalEnd) ^^^ e.magic) &&& THIS_BLOCK_ALLOCATED =
    THIS_BLOCK_ALLOCATED) = stale
  have hbit : g.endAlloc stale = stale := by
    unfold Pool.endAlloc
    cases hk : g.hdr g.globalEnd with
    | none => rfl
    | some k =>
      have h2 := R.shape.inside hk
      change k.alloc = stale
      rw [← hst, R1.header hk, xor_magic, Hdr.word_alloc (by omega)]
      cases k.alloc <;> rfl
  have R2 := R1.allot (a := a) (f := ⟨h.size, true, h.prev || stale⟩) ha hal rfl rfl
    fun j hj => R.shape.not_mem_erase hj
  have hstore : ∀ v, v = (Hdr.mk h.size true (h.prev || stale)).word →
      Ends (do
        store e (headerOf a) (v ^^^ e.magic)
        raiseGlobalEnd a
        pure (nextOf a)) s1 fun r s' => r = nextOf a ∧ Represents e W m₀ s' (g.exact a stale) := by
    rintro v rfl
    refine .run (store_ok (R1.mapped_header ha)) ?_
    refine (R2.raise_ends a).step fun _ s3 R3 => .ret ⟨rfl, ?_⟩
    rw [Pool.exact, ha]
    simp only [hbit]
    exact R3
  have h8 : h.size % 8 = 0 := by omega
  rw [xor_magic, Hdr.word_or_this h8]
  dsimp only
  cases stale with
  | true =>
    rw [if_pos (of_decide_eq_true hst)]
    refine hstore _ ?_
    rw [Hdr.word_or_prev (h := { h with alloc := true }) h8, Bool.or_true]
  | false =>
    rw [if_neg (of_decide_eq_false hst)]
    refine hstore _ ?_
    rw [Bool.or_false]

theorem place_ends {a i m : Nat} (hi : i < 10) (hm : a ∈ g.free i) (h32 : 32 ≤ m)
    (h16 : m % 16 = 0) (hfit : m ≤ g.sizeOf a) (hend : mapped e s (headerOf g.globalEnd)) :
    ∃ stale, Ends (sf_malloc_place e a (g.sizeOf a) m) s fun r s' =>
      r = nextOf a ∧ Represents e W m₀ s' (g.place a m stale) := by
  obtain ⟨h, ha, hal, _⟩ := R.shape.free_mem hi hm
  have h1 := R.shape.inside ha
  unfold sf_malloc_place Pool.place
  rw [Pool.sizeOf_of_hdr ha] at hfit ⊢
  by_cases hs : h.size - m ≥ 32
  · refine ⟨true, ?_⟩
    rw [if_pos hs, if_pos hs]
    exact R.split_ends hi hm ha hal h32 h16 (by omega)
  · simp only [if_neg hs]
    exact R.exact_ends ha hal hend

/-- The quick lists are asked first. -/
theorem quick_ends {m i : Nat} (hbusy : g.busy = none) (hq : g.quickHit m = some i) :
    Ends (firstSome (sf_malloc_quick e m) (List.range NUM_QUICK_LISTS)) s fun r s' =>
      r = some (nextOf ((g.quick i).headD NULL)) ∧
        Represents e W m₀ s' (g.setQuick i (g.quick i).tail) := by
  obtain ⟨hi, ⟨a, l, hal⟩, rfl⟩ := Pool.quickHit_some hq
  obtain ⟨pre, post, hr⟩ := List.append_of_mem (List.mem_range.mpr hi)
  have hnd : (pre ++ i :: post).Nodup := hr ▸ List.nodup_range
  change Ends (firstSome _ (List.range 10)) s _
  rw [hr, hal]
  refine firstSome_ends (fun j hj => ?_) ?_
  · have hj10 : j < 10 := List.mem_range.mp (hr ▸ List.mem_append_left _ hj)
    have hji : j ≠ i := (List.nodup_append.mp hnd).2.2 j hj i List.mem_cons_self
    exact R.quick_turn_miss hj10 hbusy fun hc => hji (by omega)
  · refine (R.quick_turn_hit hi hbusy hal).mono fun r s' hr => ?_
    exact ⟨⟨nextOf a, hr.1⟩, hr⟩

/-- The part of `sf_malloc` that needs no growth. -/
theorem search_ends {m : Nat} (hbusy : g.busy = none) (h32 : 32 ≤ m) (h16 : m % 16 = 0)
    (hend : mapped e s (headerOf g.globalEnd)) :
    ∃ stale, match g.serve m stale with
      | some (p, g') => Ends (sf_malloc_search e m) s fun r s' =>
          r = some p ∧ Represents e W m₀ s' g'
      | none => sf_malloc_search e m s = .ok (none, s) := by
  unfold Pool.serve sf_malloc_search
  cases hq : g.quickHit m with
  | some i =>
    refine ⟨true, (R.quick_ends hbusy hq).step fun r s' hr => ?_⟩
    obtain ⟨rfl, R'⟩ := hr
    exact .ret ⟨rfl, R'⟩
  | none =>
    have hmiss : firstSome (sf_malloc_quick e m) (List.range NUM_QUICK_LISTS) s = .ok (none, s) :=
      firstSome_none fun j hj =>
        R.quick_turn_miss (List.mem_range.mp hj) hbusy
          (Pool.quickHit_none hq (List.mem_range.mp hj))
    cases hf : g.fit m with
    | none =>
      refine ⟨true, ?_⟩
      dsimp only
      rw [bind_ok hmiss]
      dsimp only
      rw [bind_ok (get_apply s), bind_ok (R.find_ok m), hf]
      rfl
    | some a =>
      obtain ⟨⟨i, hi, hm⟩, hle⟩ := Pool.fit_some hf
      obtain ⟨stale, hplace⟩ := R.place_ends hi hm h32 h16 hle hend
      refine ⟨stale, ?_⟩
      dsimp only
      refine .run hmiss (.run (get_apply s) (.run (R.find_ok m) ?_))
      rw [hf]
      refine hplace.step fun r s' hr => .ret ⟨?_, hr.2⟩
      rw [hr.1]

end Represents

end StarterProjects.Sfmm
