import StarterProjects.Sfmm.Run
import StarterProjects.Sfmm.Tame

/-!
# When `sf_free` aborts

`sf_free` aborts only in its checks. They look at the header of the block, and, when
its PREV flag is clear, at what lies one block size before it: the block's own size,
not that of the block before. So a double free of a block on a quick list is found
only by accident, and a valid free may be refused.
-/

namespace StarterProjects.Sfmm

open Lib Lib.Exec

section Aborts

variable {e : Env} {s : State} {p : Nat}

/-- What the checks of `sf_free` say about the header in front of an aligned pointer. -/
def Rejected (e : Env) (s : State) (p : Nat) : Prop :=
  headerRejected e s p (hdrAt e s (p - 16)) ∨ BadPast e s (p - 16) (hdrAt e s (p - 16))

/-- `sf_free` after its checks. -/
theorem free_rest (b n : Nat) (prev : Bool) :
    Tame (sf_put_in_quick_list e b n >>= fun quick =>
      if quick then pure () else sf_free_main e b n prev) :=
  (Tame.put_in_quick_list e b n).bind fun _ => Orderly.ite (Orderly.ret _)
    (Tame.free_main e b n prev)

theorem aborts_iff (hend : s.sf_mem_end % 16 = 0) (hp : p % 16 = 0) (h16 : 16 ≤ p)
    (hlt : p < 2 ^ 64) :
    Aborts e s (.free p) ↔
      p - 16 = NULL ∨ (mapped e s (headerOf (p - 16)) ∧ Rejected e s p) := by
  have hrun : Aborts e s (.free p) ↔ sf_free e p s = .error .abort := by
    constructor
    · rintro ⟨_, h⟩
      change (sf_free e p >>= fun _ => pure NULL) s = _ at h
      cases hf : sf_free e p s with
      | ok q =>
        rw [bind_ok (show sf_free e p s = .ok (q.1, q.2) from hf)] at h
        cases h
      | error r =>
        rw [bind_error hf] at h
        cases h
        rfl
    · exact fun h => ⟨0, bind_error h⟩
  rw [hrun, sf_free, sub64_of_le h16 hlt]
  dsimp only
  by_cases h0 : p - 16 = NULL
  · rw [if_pos h0]
    exact iff_of_true rfl (.inl h0)
  rw [if_neg h0, if_neg (show ¬ p % 16 ≠ 0 from fun hc => hc hp), bind_ok (get_apply s)]
  by_cases hmap : mapped e s (headerOf (p - 16))
  swap
  · refine iff_of_false ?_ fun h => h.elim h0 fun h => hmap h.1
    rw [bind_error (show load e _ s = .error .undefined from if_neg hmap)]
    exact nofun
  rw [bind_ok (load_ok hmap),
    show s.mem (headerOf (p - 16)) ^^^ e.magic = hdrAt e s (p - 16) from rfl]
  unfold Rejected
  by_cases hrej : headerRejected e s p (hdrAt e s (p - 16))
  · rw [if_pos hrej]
    exact iff_of_true rfl (.inr ⟨hmap, .inl hrej⟩)
  have hsz : stripFlags (hdrAt e s (p - 16)) % 16 = 0 := by
    by_contra hc
    exact hrej (.inr (.inr (.inl hc)))
  rw [if_neg hrej, bind_ok (pastRejected_eq hend (by omega) hsz)]
  by_cases hbad : BadPast e s (p - 16) (hdrAt e s (p - 16))
  · rw [decide_eq_true hbad]
    exact iff_of_true rfl (.inr ⟨hmap, .inr hbad⟩)
  · rw [decide_eq_false hbad]
    exact iff_of_false ((free_rest _ _ _).1 s) fun h => h.elim h0 fun h => h.2.elim hrej hbad

end Aborts

/-- What `sf_free` must find at an aligned pointer: nothing, in front of a live one; an
allocated header one block size before it, for a block on a quick list; and in front of
a pointer to no block a header that fails the checks. -/
structure VerdictOk (e : Env) (s : Sys) (p : Nat) : Prop where
  live : Live s.live p → ¬ BadPast e s.heap (p - 16) (hdrAt e s.heap (p - 16))
  queued : ∀ i < 10, p - 16 ∈ quickBlocks s.heap i →
    BadPast e s.heap (p - 16) (hdrAt e s.heap (p - 16))
  stray : ¬ IsBlock e s.heap (p - 16) →
    p - 16 = NULL ∨ (mapped e s.heap (headerOf (p - 16)) ∧ Rejected e s.heap p)

namespace Tracks

variable {e : Env} {s : Sys} {g : Pool} (T : Tracks e s.live s.heap g)

include T

theorem mem_quickBlocks {i b : Nat} (hi : i < 10) : b ∈ quickBlocks s.heap i ↔ b ∈ g.quick i := by
  rw [T.rep.quickBlocks_eq T.inv.idle hi]

/-- At a block in use or on a quick list only the second check can fail. -/
theorem aborts_allocated {b : Nat} {h : Hdr} (hb : g.hdr b = some h) (hal : h.alloc = true) :
    Aborts e s.heap (.free (nextOf b)) ↔ BadPast e s.heap b (hdrAt e s.heap b) := by
  have h1 := T.rep.shape.inside hb
  have h2 := T.rep.shape.lt_two_pow hb
  have hpos := node_pos T.rep.shape (.inr ⟨h, hb⟩)
  have hsub : nextOf b - 16 = b := Nat.add_sub_cancel b 16
  rw [aborts_iff (by rw [T.rep.memEnd]; exact T.rep.shape.end_aligned) (by unfold nextOf; omega)
    (by unfold nextOf; omega) (by unfold nextOf; omega), Rejected, hsub]
  have hacc := (T.rep.liveBlock hb hal).accepted
  rw [← T.rep.hdrAt_eq hb] at hacc
  have hmap := T.rep.mapped_header hb
  tauto

theorem aborts_free {b : Nat} {h : Hdr} (hb : g.hdr b = some h) (hal : h.alloc = false) :
    Aborts e s.heap (.free (nextOf b)) := by
  have h1 := T.rep.shape.inside hb
  have h2 := T.rep.shape.lt_two_pow hb
  have hsub : nextOf b - 16 = b := Nat.add_sub_cancel b 16
  rw [aborts_iff (by rw [T.rep.memEnd]; exact T.rep.shape.end_aligned) (by unfold nextOf; omega)
    (by unfold nextOf; omega) (by unfold nextOf; omega), Rejected, hsub]
  refine .inr ⟨T.rep.mapped_header hb, .inl (.inl ?_)⟩
  rw [T.rep.hdrAt_eq hb, Hdr.word_alloc (by omega), hal]
  decide

/-- No block starts in front of the pointer. -/
theorem verdict_stray {b : Nat} (hb : g.hdr b = none) (hp : nextOf b % 16 = 0)
    (hhi : nextOf b < s.heap.sf_mem_end) :
    (Aborts e s.heap (.free (nextOf b)) ↔ ¬ Live s.live (nextOf b)) ↔
      VerdictOk e s (nextOf b) := by
  have hpos := e.start_pos
  have hend := T.rep.memEnd
  have hlim := T.rep.shape.limit
  have hlt := e.limit_lt
  have hsub : nextOf b - 16 = b := Nat.add_sub_cancel b 16
  have hno : ∀ i < 10, b ∉ g.quick i := fun i hi hm => by
    obtain ⟨k, hk, _⟩ := T.rep.shape.quick_mem hi hm
    rw [hb] at hk
    cases hk
  have hlive : ¬ Live s.live (nextOf b) := fun hl => by
    obtain ⟨a, k, hab, hu⟩ := T.table.used hl
    obtain rfl : b = a := Nat.add_right_cancel hab
    rw [hu.1] at hb
    cases hb
  have hblock : ¬ IsBlock e s.heap b := by
    rw [T.rep.isBlock_iff T.inv.toSettling, hb]
    rintro ⟨k, hk⟩
    cases hk
  rw [aborts_iff (by rw [hend]; exact T.rep.shape.end_aligned) hp (by unfold nextOf; omega)
    (by omega)]
  constructor
  · intro h
    exact ⟨fun hl => absurd hl hlive,
      fun i hi hm => absurd ((T.mem_quickBlocks hi).mp (hsub ▸ hm)) (hno i hi),
      fun _ => h.mpr hlive⟩
  · intro h
    exact iff_of_true (h.stray (by rw [hsub]; exact hblock)) hlive

/-- The condition on pointers in front of which no block starts says nothing here. -/
theorem verdict_block {b : Nat} {h : Hdr} (hb : g.hdr b = some h)
    (hc : ¬ IsBlock e s.heap (nextOf b - 16)) : nextOf b - 16 = NULL ∨
      (mapped e s.heap (headerOf (nextOf b - 16)) ∧ Rejected e s.heap (nextOf b)) := by
  rw [show nextOf b - 16 = b from Nat.add_sub_cancel b 16] at hc
  exact absurd ((T.rep.isBlock_iff T.inv.toSettling).mpr ⟨h, hb⟩) hc

theorem verdict_free {b : Nat} {h : Hdr} (hb : g.hdr b = some h) (hal : h.alloc = false) :
    (Aborts e s.heap (.free (nextOf b)) ↔ ¬ Live s.live (nextOf b)) ↔
      VerdictOk e s (nextOf b) := by
  have hsub : nextOf b - 16 = b := Nat.add_sub_cancel b 16
  have hlive : ¬ Live s.live (nextOf b) := fun hl => by
    obtain ⟨a, k, hab, hu⟩ := T.table.used hl
    obtain rfl : b = a := Nat.add_right_cancel hab
    have h1 := hu.1
    rw [hb] at h1
    cases h1
    rw [hu.2.1] at hal
    cases hal
  refine iff_of_true (iff_of_true (T.aborts_free hb hal) hlive)
    ⟨fun hl => absurd hl hlive, fun i hi hm => ?_, T.verdict_block hb⟩
  rw [hsub, T.mem_quickBlocks hi] at hm
  exact absurd hm (T.rep.shape.not_quick_of_free hb hal hi)

/-- A block that is not in a quick list is live. -/
theorem verdict_allocated {b : Nat} {h : Hdr} (hb : g.hdr b = some h) (hal : h.alloc = true) :
    (Aborts e s.heap (.free (nextOf b)) ↔ ¬ Live s.live (nextOf b)) ↔
      VerdictOk e s (nextOf b) := by
  have hsub : nextOf b - 16 = b := Nat.add_sub_cancel b 16
  rw [T.aborts_allocated hb hal]
  by_cases hlive : Live s.live (nextOf b)
  · constructor
    · intro h1
      refine ⟨fun _ => ?_, fun i hi hm => ?_, T.verdict_block hb⟩
      · rw [hsub]
        exact fun hbad => h1.mp hbad hlive
      · obtain ⟨a, k, hab, hu⟩ := T.table.used hlive
        obtain rfl : b = a := Nat.add_right_cancel hab
        rw [hsub, T.mem_quickBlocks hi] at hm
        exact absurd hm (hu.2.2 i hi)
    · intro h1
      have h2 := h1.live hlive
      rw [hsub] at h2
      exact iff_of_false h2 (not_not.mpr hlive)
  · obtain ⟨i, hi, hm⟩ : ∃ i < 10, b ∈ g.quick i := by
      by_contra hno
      exact hlive (T.table.all ⟨hb, hal, fun i hi hm => hno ⟨i, hi, hm⟩⟩)
    constructor
    · intro h1
      refine ⟨fun hl => absurd hl hlive, fun _ _ _ => ?_, T.verdict_block hb⟩
      rw [hsub]
      exact h1.mpr hlive
    · intro h1
      have h2 := h1.queued i hi (by rw [hsub, T.mem_quickBlocks hi]; exact hm)
      rw [hsub] at h2
      exact iff_of_true h2 hlive

/-- `sf_free` gives the right verdict on a pointer exactly when it finds what it must. -/
theorem verdict_iff {p : Nat} (hp : p % 16 = 0) (hlo : e.sf_mem_start ≤ p)
    (hhi : p < s.heap.sf_mem_end) :
    (Aborts e s.heap (.free p) ↔ ¬ Live s.live p) ↔ VerdictOk e s p := by
  have hpos := e.start_pos
  have h16 := e.start_aligned
  obtain ⟨b, rfl⟩ : ∃ b, p = nextOf b := ⟨p - 16, by unfold nextOf; omega⟩
  cases hb : g.hdr b with
  | none => exact T.verdict_stray hb hp hhi
  | some h =>
    cases hal : h.alloc with
    | false => exact T.verdict_free hb hal
    | true => exact T.verdict_allocated hb hal

end Tracks

/-- In a sound run `sf_free` aborts on exactly the pointers that are not live, as far as
it finds what it must. -/
theorem verdict_of_sound {e : Env} {s : Sys} {p : Nat} (h : Reached e (Sound e) s)
    (hp : p % 16 = 0) (hlo : e.sf_mem_start ≤ p) (hhi : p < s.heap.sf_mem_end) :
    (Aborts e s.heap (.free p) ↔ ¬ Live s.live p) ↔ VerdictOk e s p := by
  rcases h.sane with hS | ⟨g, T⟩
  · have h1 := hS.empty
    omega
  · exact T.verdict_iff hp hlo hhi

/-- After `malloc(24)` the verdict on the pointer it returned is right. -/
theorem verdict_of_sound_sample : ∃ s : Sys, s.live = [⟨0x100010, 24⟩] ∧
    (Aborts sampleEnv s.heap (.free 0x100010) ↔ ¬ Live s.live 0x100010) := by
  have hrun : Ends (sf_malloc sampleEnv 1 24) sample.heap fun p t => p = 0x100010 ∧
      t.sf_mem_end = 0x101000 ∧ hdrAt sampleEnv t 0x100000 = 38 ∧
      ∀ i < 10, (t.sf_quick_lists i).length = 0 := by
    decide +kernel
  obtain ⟨_, t, ht, rfl, hend, hhdr, hquick⟩ := hrun
  have hreach : Reached sampleEnv (Sound sampleEnv) ⟨t, [⟨0x100010, 24⟩]⟩ :=
    .step (i := .malloc 24) (sample_reached _) ⟨by decide, sample_mallocOk 24, _, ⟨1, ht⟩, rfl⟩
  refine ⟨_, rfl, (verdict_of_sound hreach (by decide) (by decide) ?_).mpr
    ⟨fun _ => ?_, fun i hi hm => ?_, fun hb => ?_⟩⟩
  · exact Nat.lt_of_lt_of_eq (by decide : 0x100010 < 0x101000) hend.symm
  · change ¬ BadPast sampleEnv t 0x100000 (hdrAt sampleEnv t 0x100000)
    rw [hhdr]
    exact fun hc => absurd hc.1 (by decide)
  · rw [quickBlocks, hquick i hi] at hm
    cases hm
  · exact absurd (IsBlock.first (by rw [hend]; decide)) hb

/-- `malloc(24)`, `free` of it, and `free` of it again, which puts the block on the
quick list a second time. -/
theorem double_free_accepted : ¬ ∀ (e : Env) (s : Sys) (p : Nat),
    Reached e (fun _ op => op.MallocFree) s → p % 16 = 0 → e.sf_mem_start ≤ p →
      p < s.heap.sf_mem_end → (Aborts e s.heap (.free p) ↔ ¬ Live s.live p) := by
  intro hall
  have hrun : ∃ s ∈ sample.exec sampleEnv 1 [.malloc 24, .free 0x100010],
      s.live = [] ∧ s.heap.sf_mem_end = 0x101000 ∧
        Ends (sf_free sampleEnv 0x100010) s.heap fun _ _ => True := by
    decide +kernel
  obtain ⟨s, hs, hlive, hend, _, s', hs', _⟩ := hrun
  have hreach : Reached sampleEnv (fun _ op => op.MallocFree) s :=
    (sample_reached _).exec (by simp [Op.MallocFree]) hs
  obtain ⟨_, hab⟩ := (hall sampleEnv s 0x100010 hreach (by decide) (by decide)
    (by rw [hend]; decide)).mpr (by rw [hlive]; rintro ⟨_, hx, _⟩; cases hx)
  change (sf_free sampleEnv 0x100010 >>= fun _ => pure NULL) s.heap = _ at hab
  rw [bind_ok hs'] at hab
  cases hab

end StarterProjects.Sfmm
