import StarterProjects.Sfmm.Twins
import StarterProjects.Sfmm.Verdict

/-!
# How the calls of two clients end

`sf_free` and `sf_realloc` check what lies one block size before a block whose PREV flag is clear.
If that is the header of a block, or not in the heap, the checks find the same in both heaps. Then
two clients that make the same calls are aborted at the same ones, whatever they have stored.
-/

namespace StarterProjects.Sfmm

open Lib Lib.Exec

/-! ## Conditions on a call -/

/-- The check of the block before reads no word of a payload: the PREV flag of `b` is set, or one
block size before it lies nothing of the heap, or a block. -/
def PastClear (e : Env) (s : State) (b : Nat) : Prop :=
  let past := sub64 b (stripFlags (hdrAt e s b))
  hdrAt e s b &&& PREV_BLOCK_ALLOCATED ≠ 0 ∨ past < e.sf_mem_start ∨
    ¬ mapped e s (headerOf past) ∨ IsBlock e s past

/-- What decides whether the call returns is no word of a payload: not the header that the checks
read, also once the block has been moved, and not the links that a cut follows. -/
def Checked (e : Env) (s : Sys) : Op → Prop
  | .malloc _ => True
  | .free p => PastClear e s.heap (p - 16)
  | .realloc p n => PastClear e s.heap (p - 16) ∧
      (sizeAt e s.heap (p - 16) < n → ∀ s₂, Moved e s.heap (p - 16) n s₂ →
        PastClear e s₂ (p - 16)) ∧
      (n ≠ 0 → n + 8 ≤ sizeAt e s.heap (p - 16) →
        Uncut (sizeAt e s.heap (p - 16)) n ∨ LinksMapped e s.heap (p - 16))
  | .write _ _ => True

/-- The calls in which no word of a payload decides anything. -/
def Guarded (e : Env) (s : Sys) (op : Op) : Prop := Unread e s op ∧ Checked e s op

/-- What the check of `sf_free` refuses, that of `sf_realloc` does not let pass. -/
theorem BadPast.stops {e : Env} {s : State} {b w : Nat} (hbad : BadPast e s b w) :
    PastStops e s b w :=
  ⟨hbad.1, hbad.2.1, fun _ => hbad.2.2.2⟩

/-- The call aborts in both heaps or in neither, and returns in both or in neither. -/
structure EndsAlike (e : Env) (s t : State) (op : Op) : Prop where
  aborts : Aborts e s op ↔ Aborts e t op
  returns : (∃ r s', Returns e s op r s') ↔ ∃ r t', Returns e t op r t'

/-! ## One client -/

namespace Tracks

section One

variable {e : Env} {live : List Allocation} {s s' : State} {g : Pool} (T : Tracks e live s g)

include T

/-- Whether `sf_malloc` returns is up to the pool. -/
theorem malloc_returns {n : Nat} (hn : n < 2 ^ 64) (hok : MallocOk e s n) (hseen : EndSeen e s n)
    {q : Nat} {g' : Pool} (hm : g.malloc e n true = some (q, g')) :
    ∃ s₁, Returns e s (.malloc n) q s₁ := by
  obtain ⟨stale, hcall⟩ := T.malloc_call hn hok
  rw [T.malloc_stale hn hok hseen stale true, hm] at hcall
  obtain ⟨r, s₁, hrun, rfl, _⟩ := hcall 0
  exact ⟨s₁, 2, hrun⟩

/-- A heap with the block moved stands for the pool with the new block. -/
theorem moved_pool {b n : Nat} {h : Hdr} {s₂ : State} (hu : g.Used b h) (hn : n < 2 ^ 64)
    (hlt : h.size < n) (hok : MallocOk e s n) (hseen : EndSeen e s n)
    (hmoved : Moved e s b n s₂) : ∃ q g', g.malloc e n true = some (q, g') ∧ q ≠ NULL ∧
      g'.Used b h ∧ Tracks e (⟨q, n⟩ :: live) s₂ { g' with touched := [] } := by
  obtain ⟨q, s₁, hret, hq, hcopy⟩ := hmoved
  rw [T.rep.sizeAt_eq hu.1] at hcopy
  obtain ⟨_, stale, g', hm, hub, T₂⟩ := T.moved_to hu hn hlt hok hret hq hcopy
  exact ⟨q, g', (T.malloc_stale hn hok hseen true stale).trans hm, hq, hub, T₂⟩

theorem moved_of_pool {b n q : Nat} {h : Hdr} {g' : Pool} (hu : g.Used b h) (hn : n < 2 ^ 64)
    (hlt : h.size < n) (hok : MallocOk e s n) (hseen : EndSeen e s n)
    (hm : g.malloc e n true = some (q, g')) (hq : q ≠ NULL) : ∃ s₂, Moved e s b n s₂ := by
  obtain ⟨s₁, hret⟩ := T.malloc_returns hn hok hseen hm
  have h1 := T.rep.shape.inside hu.1
  obtain ⟨_, g'', a, k, _, rfl, _, hk, hsize, hub, T₁⟩ := T.new_block hu hn hok hret hq
  obtain ⟨_, s₂, hcopy, _⟩ := T₁.copy_ends (a := a) (b := b) (k := (h.size - 8) / 8) (l := k)
    (h := h) hk hub (by omega) (by omega)
  exact ⟨s₂, _, s₁, hret, hq, by rw [T.rep.sizeAt_eq hu.1]; exact hcopy⟩

/-- At a block in use only the check of the block before can fail. -/
theorem free_aborts {b : Nat} {h : Hdr} (hu : g.Used b h) :
    Aborts e s (.free (nextOf b)) ↔ BadPast e s b h.word := by
  have habort := aborts_allocated (s := ⟨s, live⟩) T hu.1 hu.2.1
  rwa [T.rep.hdrAt_eq hu.1] at habort

/-- Moving the block aborts where freeing the old one does. -/
theorem bigger_aborts {b n : Nat} {h : Hdr} (hu : g.Used b h) (hn : n < 2 ^ 64)
    (hlt : h.size < n) (hok : MallocOk e s n)
    (hrun : ∀ fuel, sf_realloc e fuel (nextOf b) n s = sf_realloc_bigger e fuel b h.size n s) :
    Aborts e s (.realloc (nextOf b) n) ↔ ∃ s₂, Moved e s b n s₂ ∧ BadPast e s₂ b h.word := by
  have hsize := T.rep.sizeAt_eq hu.1
  have h2 := T.rep.shape.lt_two_pow hu.1
  have hptr : add64 b 16 = nextOf b := by rw [add64_of_lt (by omega), nextOf]
  unfold sf_realloc_bigger at hrun
  constructor
  · rintro ⟨fuel, habort⟩
    replace habort := (hrun fuel).symm.trans habort
    rcases bind_eq_error habort with hc | ⟨q, s₁, hm, habort⟩
    · exact absurd hc ((Tame.malloc e fuel n).1 s)
    by_cases hq : q = NULL
    · rw [if_pos hq] at habort
      cases habort
    rw [if_neg hq] at habort
    rcases bind_eq_error habort with hc | ⟨_, s₂, hcopy, habort⟩
    · exact absurd hc ((Tame.memcpy e _ _ _).1 s₁)
    rcases bind_eq_error habort with hf | ⟨_, s₃, _, habort⟩
    swap
    · cases habort
    obtain ⟨_, _, g', _, hub, T₂⟩ := T.moved_to hu hn hlt hok ⟨fuel, hm⟩ hq hcopy
    refine ⟨s₂, ⟨q, s₁, ⟨fuel, hm⟩, hq, by rw [hsize]; exact hcopy⟩, ?_⟩
    rw [hptr] at hf
    exact (T₂.free_aborts (b := b) (h := h) hub).mp ⟨0, bind_error hf⟩
  · rintro ⟨s₂, ⟨q, s₁, hret, hq, hcopy⟩, hbad⟩
    rw [hsize] at hcopy
    obtain ⟨_, _, g', _, hub, T₂⟩ := T.moved_to hu hn hlt hok hret hq hcopy
    obtain ⟨_, habort⟩ := (T₂.free_aborts (b := b) (h := h) hub).mpr hbad
    obtain ⟨fuel, hm⟩ := hret
    refine ⟨fuel, (hrun fuel).trans ?_⟩
    rw [bind_ok (show sf_malloc e fuel n s = _ from hm), if_neg hq, bind_ok hcopy, hptr]
    rcases bind_eq_error habort with hf | ⟨_, _, _, hc⟩
    · exact bind_error hf
    · cases hc

/-- `sf_realloc` aborts in its own check, or frees a moved block that fails the one of
`sf_free`. -/
theorem realloc_aborts {b n : Nat} {h : Hdr} (hu : g.Used b h) (hn : n < 2 ^ 64)
    (hok : ReallocOk e s b n) : Aborts e s (.realloc (nextOf b) n) ↔
      (PastStops e s b h.word ∧ mapped e s (headerOf (sub64 b h.size))) ∨
      (¬ PastStops e s b h.word ∧ h.size < n ∧ ∃ s₂, Moved e s b n s₂ ∧ BadPast e s₂ b h.word) := by
  have L := T.rep.liveBlock hu.1 hu.2.1
  have hmod := L.size_mod
  have hsize := T.rep.sizeAt_eq hu.1
  have h2 := T.rep.shape.lt_two_pow hu.1
  by_cases hp : PastStops e s b h.word
  · have hcheck := pastRejectedRealloc_eq hp
    rw [Hdr.stripFlags_word (by omega)] at hcheck
    constructor
    · rintro ⟨fuel, hrun⟩
      refine .inl ⟨hp, ?_⟩
      by_contra hmap
      rw [if_neg hmap] at hcheck
      have hstop := (L.sf_realloc_entry n fuel).symm.trans hrun
      rw [bind_error hcheck] at hstop
      cases hstop
    · rintro (⟨_, hmap⟩ | ⟨hc, _⟩)
      · rw [if_pos hmap] at hcheck
        exact ⟨0, (L.sf_realloc_entry n 0).trans ((bind_ok hcheck).trans rfl)⟩
      · exact absurd hp hc
  · have hrun : ∀ fuel, sf_realloc e fuel (nextOf b) n s =
        (if n = 0 then do
          sf_free e (nextOf b)
          pure NULL
        else sf_realloc_main e fuel (nextOf b) b h.size n) s := fun fuel =>
      (L.sf_realloc_entry n fuel).trans (bind_ok (pastRejectedRealloc_passes hp))
    have hother : ∀ {C : Prop}, ((PastStops e s b h.word ∧ C) ∨ (¬ PastStops e s b h.word ∧
        h.size < n ∧ ∃ s₂, Moved e s b n s₂ ∧ BadPast e s₂ b h.word)) ↔
          h.size < n ∧ ∃ s₂, Moved e s b n s₂ ∧ BadPast e s₂ b h.word := by
      tauto
    rw [hother]
    unfold ReallocOk at hok
    rw [hsize] at hok
    by_cases h0 : n = 0
    · refine iff_of_false ?_ fun hc => by omega
      rintro ⟨fuel, habort⟩
      have hfree := (hrun fuel).symm.trans habort
      rw [if_pos h0] at hfree
      exact hp ((T.free_aborts hu).mp ⟨0, hfree⟩).stops
    rw [if_neg h0] at hok
    simp only [if_neg h0] at hrun
    by_cases hlt : h.size < n
    · rw [if_pos hlt] at hok
      simp only [L.sf_realloc_main_bigger hlt hn] at hrun
      rw [and_iff_right hlt]
      exact T.bigger_aborts hu hn hlt hok.1 hrun
    · refine iff_of_false ?_ fun hc => hlt hc.1
      rintro ⟨fuel, habort⟩
      replace habort := (hrun fuel).symm.trans habort
      rw [if_neg hlt] at hok
      rcases hok with rfl | ⟨hfit, -⟩
      · rw [L.sf_realloc_main_same] at habort
        cases habort
      · rw [L.sf_realloc_main_cases hfit] at habort
        split at habort
        · cases habort
        · exact (Tame.realloc_split e _ _ _).1 s habort

/-- Moving the block returns where the request is answered and the old block can be freed. -/
theorem bigger_returns {b n : Nat} {h : Hdr} (hu : g.Used b h) (hn : n < 2 ^ 64)
    (hlt : h.size < n) (hok : MallocOk e s n) (hfree : ∀ s₂, Moved e s b n s₂ → FreeOk e s₂ b)
    (hrun : ∀ fuel, sf_realloc e fuel (nextOf b) n s = sf_realloc_bigger e fuel b h.size n s) :
    (∃ r s', Returns e s (.realloc (nextOf b) n) r s') ↔
      (∃ q s₁, Returns e s (.malloc n) q s₁) ∧
        ∀ s₂, Moved e s b n s₂ → ¬ BadPast e s₂ b h.word := by
  have hsize := T.rep.sizeAt_eq hu.1
  have h1 := T.rep.shape.inside hu.1
  have h2 := T.rep.shape.lt_two_pow hu.1
  have hptr : add64 b 16 = nextOf b := by rw [add64_of_lt (by omega), nextOf]
  constructor
  · rintro ⟨r, s', fuel, hr⟩
    replace hr := (hrun fuel).symm.trans hr
    unfold sf_realloc_bigger at hr
    obtain ⟨q, s₁, hm, hr⟩ := bind_eq_ok hr
    refine ⟨⟨q, s₁, fuel, hm⟩, ?_⟩
    rintro s₂ ⟨q', s₁', hret', hq, hcopy⟩ hbad
    obtain ⟨rfl, rfl⟩ := hret'.malloc_unique ⟨fuel, hm⟩
    rw [hsize] at hcopy
    rw [if_neg hq, bind_ok hcopy, hptr] at hr
    obtain ⟨_, s₃, hf, -⟩ := bind_eq_ok hr
    -- the free that came back would have aborted
    obtain ⟨_, _, g', _, hub, T₂⟩ := T.moved_to hu hn hlt hok ⟨fuel, hm⟩ hq hcopy
    obtain ⟨_, habort⟩ := (T₂.free_aborts (b := b) (h := h) hub).mpr hbad
    have hc := (bind_ok hf).symm.trans habort
    cases hc
  · rintro ⟨⟨q, s₁, hret⟩, hpass⟩
    obtain ⟨fuel, hm⟩ := id hret
    by_cases hq : q = NULL
    · refine ⟨NULL, s₁, fuel, (hrun fuel).trans ?_⟩
      unfold sf_realloc_bigger
      rw [bind_ok (show sf_malloc e fuel n s = _ from hm), if_pos hq, pure_apply]
    obtain ⟨_, g', a, k, _, rfl, _, hk, hroom, hub, T₁⟩ := T.new_block hu hn hok hret hq
    obtain ⟨_, s₂, hcopy, T₂⟩ := T₁.copy_ends (a := a) (b := b) (k := (h.size - 8) / 8) (l := k)
      (h := h) hk hub (by omega) (by omega)
    have hmoved : Moved e s b n s₂ := ⟨_, s₁, hret, hq, by rw [hsize]; exact hcopy⟩
    obtain ⟨_, s₃, hf, -⟩ := T₂.free_call (b := b) (h := h) hub (hfree s₂ hmoved) (hpass s₂ hmoved)
    refine ⟨nextOf a, s₃, fuel, (hrun fuel).trans ?_⟩
    unfold sf_realloc_bigger
    rw [bind_ok (show sf_malloc e fuel n s = _ from hm), if_neg hq, bind_ok hcopy, hptr,
      bind_ok hf, pure_apply]

theorem realloc_returns {b n : Nat} {h : Hdr} (hu : g.Used b h) (hn : n < 2 ^ 64)
    (hok : ReallocOk e s b n)
    (hlinks : n ≠ 0 → n + 8 ≤ h.size → Uncut h.size n ∨ LinksMapped e s b) :
    (∃ r s', Returns e s (.realloc (nextOf b) n) r s') ↔ ¬ PastStops e s b h.word ∧
      (h.size < n → (∃ q s₁, Returns e s (.malloc n) q s₁) ∧
        ∀ s₂, Moved e s b n s₂ → ¬ BadPast e s₂ b h.word) := by
  have L := T.rep.liveBlock hu.1 hu.2.1
  have hsize := T.rep.sizeAt_eq hu.1
  by_cases hp : PastStops e s b h.word
  · refine iff_of_false ?_ fun hc => hc.1 hp
    rintro ⟨r, s', fuel, hr⟩
    change sf_realloc e fuel (nextOf b) n s = .ok (r, s') at hr
    exact (L.sf_realloc_ok hr).1 hp
  rw [and_iff_right hp]
  have hrun : ∀ fuel, sf_realloc e fuel (nextOf b) n s =
      (if n = 0 then do
        sf_free e (nextOf b)
        pure NULL
      else sf_realloc_main e fuel (nextOf b) b h.size n) s := fun fuel =>
    (L.sf_realloc_entry n fuel).trans (bind_ok (pastRejectedRealloc_passes hp))
  unfold ReallocOk at hok
  rw [hsize] at hok
  by_cases h0 : n = 0
  · rw [if_pos h0] at hok
    refine iff_of_true ?_ fun hlt => by omega
    obtain ⟨_, s', hf, -⟩ := T.free_call hu hok fun hbad => hp hbad.stops
    refine ⟨NULL, s', 0, (hrun 0).trans ?_⟩
    rw [if_pos h0, bind_ok hf, pure_apply]
  rw [if_neg h0] at hok
  simp only [if_neg h0] at hrun
  by_cases hlt : h.size < n
  · rw [if_pos hlt] at hok
    simp only [L.sf_realloc_main_bigger hlt hn] at hrun
    rw [T.bigger_returns hu hn hlt hok.1 hok.2 hrun, forall_prop_of_true hlt]
  refine iff_of_true ?_ fun hc => absurd hc hlt
  rw [if_neg hlt] at hok
  rcases hok with rfl | ⟨hfit, hcase⟩
  · exact ⟨NULL, s, 0, (hrun 0).trans (L.sf_realloc_main_same 0)⟩
  have hmain := (hrun 0).trans (L.sf_realloc_main_cases hfit 0)
  by_cases hcut : Uncut h.size n
  · rw [if_pos hcut] at hmain
    exact ⟨_, s, 0, hmain⟩
  · rw [if_neg hcut] at hmain
    obtain ⟨_, _, r, s', hsplit, _⟩ := T.cut_ends (W := fun _ => False) hu
      (hcase.resolve_left hcut) ((hlinks h0 hfit).resolve_left hcut) nofun
    exact ⟨r, s', 0, hmain.trans hsplit⟩

theorem free_returns {b : Nat} {h : Hdr} (hu : g.Used b h) (hok : FreeOk e s b) :
    (∃ r s', Returns e s (.free (nextOf b)) r s') ↔ ¬ BadPast e s b h.word := by
  constructor
  · rintro ⟨r, s', fuel, hr⟩ hbad
    obtain ⟨_, habort⟩ := (T.free_aborts hu).mpr hbad
    have hc := hr.symm.trans habort
    cases hc
  · intro hpass
    obtain ⟨_, s', hf, -⟩ := T.free_call hu hok hpass
    exact ⟨NULL, s', 0, (bind_ok hf).trans rfl⟩

theorem malloc_returns_iff_pool {n : Nat} (hn : n < 2 ^ 64) (hok : MallocOk e s n)
    (hseen : EndSeen e s n) : (∃ r s', Returns e s (.malloc n) r s') ↔
      ∃ r g', g.malloc e n true = some (r, g') := by
  constructor
  · rintro ⟨r, s', hret⟩
    obtain ⟨stale, g', hm, _⟩ := T.malloc_to hn hok hret
    exact ⟨r, g', (T.malloc_stale hn hok hseen true stale).trans hm⟩
  · rintro ⟨r, g', hm⟩
    exact ⟨r, T.malloc_returns hn hok hseen hm⟩

end One

/-! ## Two clients -/

section Two

variable {e : Env} {live live' : List Allocation} {s t : State} {g : Pool} {b n : Nat} {h : Hdr}
  (T : Tracks e live s g) (U : Tracks e live' t g)

include T U

theorem mapped_like {x : Nat} : mapped e t x ↔ mapped e s x := by
  unfold mapped
  rw [U.rep.memEnd, T.rep.memEnd]

/-- What the checks read is the same in both heaps. -/
theorem past_same (hb : g.hdr b = some h) (hclear : PastClear e s b)
    (hprev : h.word &&& PREV_BLOCK_ALLOCATED = 0)
    (hin : e.sf_mem_start ≤ sub64 b (stripFlags h.word))
    (hmap : mapped e s (headerOf (sub64 b (stripFlags h.word)))) :
    t.mem (headerOf (sub64 b (stripFlags h.word))) =
      s.mem (headerOf (sub64 b (stripFlags h.word))) := by
  unfold PastClear at hclear
  rw [T.rep.hdrAt_eq hb] at hclear
  rcases hclear with hc | hc | hc | hc
  · exact absurd hprev hc
  · exact absurd hin (Nat.not_le.mpr hc)
  · exact absurd hmap hc
  · obtain ⟨k, hk⟩ := (T.rep.isBlock_iff T.inv.toSettling).mp hc
    rw [T.rep.header hk, U.rep.header hk]

theorem pastStops_like (hb : g.hdr b = some h) (hclear : PastClear e s b)
    (hp : PastStops e s b h.word) : PastStops e t b h.word := by
  obtain ⟨hprev, hin, hword⟩ := hp
  refine ⟨hprev, hin, fun hmap => ?_⟩
  have hmap' := (T.mapped_like U).mp hmap
  rw [T.past_same U hb hclear hprev hin hmap']
  exact hword hmap'

theorem badPast_like (hb : g.hdr b = some h) (hclear : PastClear e s b)
    (hbad : BadPast e s b h.word) : BadPast e t b h.word := by
  obtain ⟨hprev, hin, hend, hword⟩ := hbad
  have h1 := T.rep.shape.inside hb
  have h2 := T.rep.shape.end_aligned
  have h3 := Hdr.stripFlags_word (h := h) (by omega)
  have hmap : mapped e s (headerOf (sub64 b (stripFlags h.word))) := by
    rw [T.rep.memEnd] at hend
    rw [h3] at hin hend ⊢
    refine T.rep.mapped_heap ?_ ?_ ?_ <;> unfold headerOf sub64 at * <;> omega
  refine ⟨hprev, hin, ?_, ?_⟩
  · rwa [U.rep.memEnd, ← T.rep.memEnd]
  · rwa [T.past_same U hb hclear hprev hin hmap]

/-- A moved block fails the check of `sf_free` in both heaps. -/
theorem moved_like (hu : g.Used b h) (hn : n < 2 ^ 64) (hlt : h.size < n) (hok : MallocOk e s n)
    (hok' : MallocOk e t n) (hseen : EndSeen e s n) (hseen' : EndSeen e t n)
    (hclear : ∀ s₂, Moved e s b n s₂ → PastClear e s₂ b)
    (hbad : ∃ s₂, Moved e s b n s₂ ∧ BadPast e s₂ b h.word) :
    ∃ t₂, Moved e t b n t₂ ∧ BadPast e t₂ b h.word := by
  obtain ⟨s₂, hmoved, hbad⟩ := hbad
  obtain ⟨q, g', hm, hq, hub, T₂⟩ := T.moved_pool hu hn hlt hok hseen hmoved
  obtain ⟨t₂, hmoved'⟩ := U.moved_of_pool hu hn hlt hok' hseen' hm hq
  obtain ⟨q', g'', hm', _, _, U₂⟩ := U.moved_pool hu hn hlt hok' hseen' hmoved'
  rw [hm] at hm'
  cases hm'
  exact ⟨t₂, hmoved', T₂.badPast_like (h := h) U₂ hub.1 (hclear s₂ hmoved) hbad⟩

theorem free_alike (hu : g.Used b h) (hok : FreeOk e s b) (hok' : FreeOk e t b)
    (hclear : PastClear e s b) (hclear' : PastClear e t b) :
    EndsAlike e s t (.free (nextOf b)) := by
  have hbad : BadPast e s b h.word ↔ BadPast e t b h.word :=
    ⟨T.badPast_like U hu.1 hclear, U.badPast_like T hu.1 hclear'⟩
  constructor
  · rw [T.free_aborts hu, U.free_aborts hu, hbad]
  · rw [T.free_returns hu hok, U.free_returns hu hok', hbad]

theorem realloc_alike (hu : g.Used b h) (hn : n < 2 ^ 64)
    (hs : Guarded e ⟨s, live⟩ (.realloc (nextOf b) n))
    (ht : Guarded e ⟨t, live'⟩ (.realloc (nextOf b) n)) :
    EndsAlike e s t (.realloc (nextOf b) n) := by
  obtain ⟨⟨hok, hseen⟩, hclear, hmoved, hlinks⟩ := hs
  obtain ⟨⟨hok', hseen'⟩, hclear', hmoved', hlinks'⟩ := ht
  dsimp only at hok hseen hclear hmoved hlinks hok' hseen' hclear' hmoved' hlinks'
  rw [show nextOf b - 16 = b from Nat.add_sub_cancel b 16] at *
  have hsize := T.rep.sizeAt_eq hu.1
  have hsize' := U.rep.sizeAt_eq hu.1
  rw [hsize] at hseen hmoved hlinks
  rw [hsize'] at hseen' hmoved' hlinks'
  have hstops : PastStops e s b h.word ↔ PastStops e t b h.word :=
    ⟨T.pastStops_like U hu.1 hclear, U.pastStops_like T hu.1 hclear'⟩
  have hmalloc : h.size < n → MallocOk e s n ∧ MallocOk e t n := fun hlt => by
    unfold ReallocOk at hok hok'
    rw [hsize, if_neg (by omega), if_pos hlt] at hok
    rw [hsize', if_neg (by omega), if_pos hlt] at hok'
    exact ⟨hok.1, hok'.1⟩
  have hbad : h.size < n → ((∃ s₂, Moved e s b n s₂ ∧ BadPast e s₂ b h.word) ↔
      ∃ t₂, Moved e t b n t₂ ∧ BadPast e t₂ b h.word) := fun hlt =>
    ⟨T.moved_like U hu hn hlt (hmalloc hlt).1 (hmalloc hlt).2 (hseen hlt) (hseen' hlt)
      (hmoved hlt), U.moved_like T hu hn hlt (hmalloc hlt).2 (hmalloc hlt).1 (hseen' hlt)
        (hseen hlt) (hmoved' hlt)⟩
  constructor
  · rw [T.realloc_aborts hu hn hok, U.realloc_aborts hu hn hok', hstops, T.mapped_like U]
    exact or_congr_right (and_congr_right fun _ => and_congr_right hbad)
  · rw [T.realloc_returns hu hn hok hlinks, U.realloc_returns hu hn hok' hlinks', hstops]
    refine and_congr_right fun _ => forall_congr' fun hlt => and_congr ?_ ?_
    · rw [T.malloc_returns_iff_pool hn (hmalloc hlt).1 (hseen hlt),
        U.malloc_returns_iff_pool hn (hmalloc hlt).2 (hseen' hlt)]
    · simpa only [not_exists, not_and] using not_congr (hbad hlt)

end Two

theorem endSeen_of_known {e : Env} {live : List Allocation} {s : State} {g : Pool}
    (T : Tracks e live s g) (K : g.EndKnown) (n : Nat) : EndSeen e s n := fun _ _ _ _ _ => by
  rw [T.rep.globalEnd]
  exact (T.rep.isBlock_iff T.inv.toSettling).mpr K

end Tracks

/-! ## Before the first page -/

theorem malloc_not_aborts (e : Env) (s : State) (n : Nat) : ¬ Aborts e s (.malloc n) := by
  rintro ⟨fuel, h⟩
  exact (Tame.malloc e fuel n).1 s h

theorem write_not_aborts (e : Env) (s : State) (addr v : Nat) :
    ¬ Aborts e s (.write addr v) := by
  rintro ⟨fuel, h⟩
  cases h

/-- What is refused at once returns. -/
theorem malloc_refused_returns {e : Env} {n : Nat} (h : n = 0 ∨ intNeg n = true) (s : State) :
    ∃ r s', Returns e s (.malloc n) r s' := by
  by_cases h0 : n = 0
  · refine ⟨NULL, s, 1, ?_⟩
    change sf_malloc e 1 n s = _
    rw [sf_malloc, sf_malloc_body, if_pos h0, pure_apply]
  · refine ⟨NULL, { s with sf_errno := ENOMEM }, 1, ?_⟩
    change sf_malloc e 1 n s = _
    rw [sf_malloc, sf_malloc_body, if_neg h0, if_pos (h.resolve_left h0)]
    rfl

/-- Whether a first request returns is up to the pool of the first page. -/
theorem Start.malloc_returns_iff_pool {e : Env} {s : Sys} {n : Nat} (hS : Start e s)
    (hn : n < 2 ^ 64) (h0 : n ≠ 0) (hneg : intNeg n = false) (hok : MallocOk e s.heap n) :
    (∃ r s', Returns e s.heap (.malloc n) r s') ↔ ∃ r g',
      (Pool.initial e s.heap.sf_errno s.heap.growCalls).malloc e n true = some (r, g') := by
  have hgrow := hok h0 hneg
  rw [if_pos hS.empty] at hgrow
  obtain ⟨s₁, T, hrun⟩ := first_page hS.empty hgrow
  have hsame : (∃ r s', Returns e s.heap (.malloc n) r s') ↔
      ∃ r s', Returns e s₁ (.malloc n) r s' := by
    refine exists_congr fun r => exists_congr fun s' => ?_
    constructor
    · rintro ⟨_ | fuel, hret⟩
      · cases hret
      · exact ⟨fuel + 1, (hrun n fuel h0 hneg).symm.trans hret⟩
    · rintro ⟨_ | fuel, hret⟩
      · cases hret
      · exact ⟨fuel + 1, (hrun n fuel h0 hneg).trans hret⟩
  rw [hsame, T.malloc_returns_iff_pool hn (initial_mallocOk T n)
    (T.endSeen_of_known (Pool.initial_ended _ _).known n)]

theorem Start.malloc_alike {e : Env} {s t : Sys} {n : Nat} (hs : Start e s) (ht : Start e t)
    (herr : t.heap.sf_errno = s.heap.sf_errno) (hgrow : t.heap.growCalls = s.heap.growCalls)
    (hn : n < 2 ^ 64) (hok : MallocOk e s.heap n) (hok' : MallocOk e t.heap n) :
    EndsAlike e s.heap t.heap (.malloc n) := by
  refine ⟨iff_of_false (malloc_not_aborts _ _ _) (malloc_not_aborts _ _ _), ?_⟩
  by_cases htriv : n = 0 ∨ intNeg n = true
  · exact iff_of_true (malloc_refused_returns htriv _) (malloc_refused_returns htriv _)
  · simp only [not_or, Bool.not_eq_true] at htriv
    rw [hs.malloc_returns_iff_pool hn htriv.1 htriv.2 hok,
      ht.malloc_returns_iff_pool hn htriv.1 htriv.2 hok', herr, hgrow]

/-! ## Runs -/

/-- Two heaps that stand for one pool end every guarded call alike. -/
theorem Twins.endsAlike {e : Env} {s t : Sys} {op : Op} (h : Twins e s t)
    (hvalid : op.Valid s.live) (hs : Guarded e s op) (ht : Guarded e t op) :
    EndsAlike e s.heap t.heap op := by
  cases h with
  | start hS hT herr hgrow =>
    obtain ⟨n, rfl⟩ := hS.op_malloc hvalid
    exact hS.malloc_alike hT herr hgrow hvalid hs.1.1 ht.1.1
  | pool g hlive T U =>
    cases op with
    | malloc n =>
      refine ⟨iff_of_false (malloc_not_aborts _ _ _) (malloc_not_aborts _ _ _), ?_⟩
      rw [T.malloc_returns_iff_pool hvalid hs.1.1 hs.1.2,
        U.malloc_returns_iff_pool hvalid ht.1.1 ht.1.2]
    | free p =>
      obtain ⟨b, h, rfl, hu⟩ := T.table.used hvalid
      obtain ⟨hok, hclear⟩ := hs
      obtain ⟨hok', hclear'⟩ := ht
      change FreeOk e s.heap (nextOf b - 16) at hok
      change PastClear e s.heap (nextOf b - 16) at hclear
      change FreeOk e t.heap (nextOf b - 16) at hok'
      change PastClear e t.heap (nextOf b - 16) at hclear'
      rw [show nextOf b - 16 = b from Nat.add_sub_cancel b 16] at *
      exact T.free_alike U hu hok hok' hclear hclear'
    | realloc p n =>
      obtain ⟨b, h, rfl, hu⟩ := T.table.used hvalid.1
      have U' : Tracks e t.live t.heap g := hlive ▸ U
      exact T.realloc_alike U' hu hvalid.2 hs ht
    | write addr v =>
      exact ⟨iff_of_false (write_not_aborts _ _ _ _) (write_not_aborts _ _ _ _),
        iff_of_true ⟨_, _, 0, rfl⟩ ⟨_, _, 0, rfl⟩⟩

/-- Two clients that make the same calls, and read no payload in them, get the same answers and
leave heaps that differ in the payloads only. What they have stored does not decide how a further
call ends either. -/
theorem payloads_decide_nothing {e : Env} {s₀ t₀ s t : Sys} {log log' : List (Op × Nat)}
    (hs : Start e s₀) (ht : Start e t₀) (herrno : t₀.heap.sf_errno = s₀.heap.sf_errno)
    (hgrow : t₀.heap.growCalls = s₀.heap.growCalls) (hrun : Calls e (Unread e) s₀ log s)
    (hrun' : Calls e (Unread e) t₀ log' t) (hsame : log.map Prod.fst = log'.map Prod.fst) :
    log = log' ∧ t.live = s.live ∧ Alike e s.heap t.heap ∧ ∀ op, op.Valid s.live →
      Guarded e s op → Guarded e t op → EndsAlike e s.heap t.heap op := by
  obtain ⟨hlog, h⟩ := (Twins.unwinds e).logged (.start hs ht herrno hgrow) hrun hrun' hsame
  exact ⟨hlog, h.alike.1, h.alike.2, fun op hvalid hs ht => h.endsAlike hvalid hs ht⟩

/-- Before the cut the free block behind is that of the links, and after it the store of `v` is
still there and the block can be freed. -/
def CutSeen (v : Nat) (w : State) : Prop :=
  (0x100120 ∈ firstBlocks sampleEnv w ∧ ¬ AllocAt sampleEnv w 0x100120) ∧
  (sizeAt sampleEnv w 0x1000d0 = 80 ∧ w.prv 0x1000d0 = w.prv 0x100120 ∧
    w.nxt 0x1000d0 = w.nxt 0x100120) ∧
  Ends (sf_realloc sampleEnv 1 0x1000e0 32) w fun r x => r = 0x1000e0 ∧
    byteAt x.mem 0x1000f0 = v ∧ FreeSeen sampleEnv x 0x1000d0 ∧ hdrAt sampleEnv x 0x1000d0 = 54

instance (v : Nat) (w : State) : Decidable (CutSeen v w) :=
  inferInstanceAs (Decidable ((_ ∧ _) ∧ (_ ∧ _ ∧ _) ∧ Ends _ _ _))

/-- `malloc(200)`, `malloc(64)`, a store of 65 or of 66 to the second block, and `realloc` of it to
32 bytes: what is stored is still there, and `free` of the block ends alike. -/
theorem payloads_decide_nothing_cut : ∃ s t : Sys, byteAt s.heap.mem 0x1000f0 = 65 ∧
    byteAt t.heap.mem 0x1000f0 = 66 ∧ Alike sampleEnv s.heap t.heap ∧
      EndsAlike sampleEnv s.heap t.heap (.free 0x1000e0) := by
  have hrun : Ends (sf_malloc sampleEnv 1 200) sample.heap fun p t => p = 0x100010 ∧
      (MallocSeen sampleEnv t 64 ∧ t.globalEnd ∈ firstBlocks sampleEnv t) ∧
        Ends (sf_malloc sampleEnv 1 64) t fun q u => q = 0x1000e0 ∧ ∀ v ∈ [65, 66],
          CutSeen v { u with mem := setByte u.mem 0x1000f0 v } := by
    decide +kernel
  obtain ⟨_, t, ht, rfl, ⟨hseen, hend⟩, _, u, hu, rfl, hcut⟩ := hrun
  have h1 : Answered sampleEnv (Unread sampleEnv) sample (.malloc 200) 0x100010
      ⟨t, [⟨0x100010, 200⟩]⟩ :=
    ⟨(by decide : 200 < 2 ^ 64), ⟨sample_mallocOk 200, fun hpages => absurd rfl hpages⟩,
      ⟨1, ht⟩, rfl⟩
  have h2 : Answered sampleEnv (Unread sampleEnv) ⟨t, [⟨0x100010, 200⟩]⟩ (.malloc 64) 0x1000e0
      ⟨u, [⟨0x1000e0, 64⟩, ⟨0x100010, 200⟩]⟩ :=
    ⟨(by decide : 64 < 2 ^ 64), ⟨hseen.ok, fun _ _ _ _ _ => isBlock_of_first hend⟩,
      ⟨1, hu⟩, rfl⟩
  have hclient : ∀ v ∈ [65, 66], ∃ x : State, Calls sampleEnv (Unread sampleEnv) sample
      ([] ++ [(.malloc 200, 0x100010)] ++ [(.malloc 64, 0x1000e0)] ++
        [(.realloc 0x1000e0 32, 0x1000e0)]) ⟨x, [⟨0x1000e0, 32⟩, ⟨0x100010, 200⟩]⟩ ∧
      byteAt x.mem 0x1000f0 = v ∧
      Guarded sampleEnv ⟨x, [⟨0x1000e0, 32⟩, ⟨0x100010, 200⟩]⟩ (.free 0x1000e0) := by
    intro v hv
    have hv256 : v < 256 := by
      rcases List.mem_cons.mp hv with rfl | hv
      · decide
      · rw [List.mem_singleton.mp hv]
        decide
    obtain ⟨⟨hnext, hfree⟩, ⟨hsize, hprv, hnxt⟩, _, x, hx, rfl, hbyte, hfreeSeen, hhdr⟩ := hcut v hv
    generalize hw : ({ u with mem := setByte u.mem 0x1000f0 v } : State) = w at *
    have h3 : Answered sampleEnv (Unread sampleEnv) ⟨u, [⟨0x1000e0, 64⟩, ⟨0x100010, 200⟩]⟩
        (.write 0x1000f0 v) NULL ⟨w, [⟨0x1000e0, 64⟩, ⟨0x100010, 200⟩]⟩ :=
      ⟨⟨hv256, ⟨0x1000e0, 64⟩, List.mem_cons_self, by decide, by decide⟩, trivial,
        ⟨0, hw ▸ rfl⟩, rfl⟩
    have hok : ReallocOk sampleEnv w 0x1000d0 32 := by
      unfold ReallocOk
      rw [if_neg (by decide), hsize, if_neg (by decide)]
      refine .inr ⟨by decide, .inr ⟨by rw [hsize]; decide, ?_, ?_, ?_⟩⟩ <;> rw [hsize]
      · exact isBlock_of_first hnext
      · exact hfree
      · exact .inl ⟨hprv, hnxt⟩
    have h4 : Answered sampleEnv (Unread sampleEnv) ⟨w, [⟨0x1000e0, 64⟩, ⟨0x100010, 200⟩]⟩
        (.realloc 0x1000e0 32) 0x1000e0 ⟨x, [⟨0x1000e0, 32⟩, ⟨0x100010, 200⟩]⟩ := by
      refine ⟨⟨⟨_, List.mem_cons_self, rfl⟩, by decide⟩, ⟨hok, fun hlt => ?_⟩, ⟨1, hx⟩, rfl⟩
      change sizeAt sampleEnv w 0x1000d0 < 32 at hlt
      rw [hsize] at hlt
      exact absurd hlt (by decide)
    have hcalls : Calls sampleEnv (Unread sampleEnv) sample
        ([] ++ [(.malloc 200, 0x100010)] ++ [(.malloc 64, 0x1000e0)])
        ⟨u, [⟨0x1000e0, 64⟩, ⟨0x100010, 200⟩]⟩ := .visible (.visible .start id h1) id h2
    refine ⟨x, .visible (.hide (i := .write 0x1000f0 v) hcalls trivial h3) id h4, hbyte,
      hfreeSeen.ok, .inl ?_⟩
    change hdrAt sampleEnv x 0x1000d0 &&& PREV_BLOCK_ALLOCATED ≠ 0
    rw [hhdr]
    decide
  obtain ⟨x, hcalls, hbyte, hguard⟩ := hclient 65 (by decide)
  obtain ⟨y, hcalls', hbyte', hguard'⟩ := hclient 66 (by decide)
  obtain ⟨_, _, halike, hends⟩ := payloads_decide_nothing ⟨rfl, rfl⟩ ⟨rfl, rfl⟩ rfl rfl hcalls
    hcalls' rfl
  exact ⟨_, _, hbyte, hbyte', halike, hends _ ⟨_, List.mem_cons_self, rfl⟩ hguard hguard'⟩

/-- `malloc(200)`, `malloc(100)`, `free` of the first block and `malloc(200)`, which gets it again:
the second block looks as if a free one were before it, and its size leads into the payload of the
first. One client stores a word there that makes `free` of the second block abort, and the other
does not. -/
theorem abort_reads_payload : ¬ ∀ (e : Env) (s₀ t₀ s t : Sys) (log log' : List (Op × Nat)),
    Start e s₀ → Start e t₀ → t₀.heap.sf_errno = s₀.heap.sf_errno →
      t₀.heap.growCalls = s₀.heap.growCalls → Calls e (fun _ _ => True) s₀ log s →
        Calls e (fun _ _ => True) t₀ log' t → log.map Prod.fst = log'.map Prod.fst →
          log = log' ∧ t.live = s.live ∧ Alike e s.heap t.heap ∧ ∀ op, op.Valid s.live →
            EndsAlike e s.heap t.heap op := by
  intro hall
  have hrun : ∃ s ∈ sample.exec sampleEnv 1 [.malloc 200, .malloc 100, .free 0x100010, .malloc 200],
      s.live = [⟨0x100010, 200⟩, ⟨0x1000e0, 100⟩] ∧
        (s.heap.sf_mem_end = 0x101000 ∧ BadPast sampleEnv
          { s.heap with mem := setByte s.heap.mem 0x100068 0 } 0x1000d0
          (hdrAt sampleEnv { s.heap with mem := setByte s.heap.mem 0x100068 0 } 0x1000d0)) ∧
        Ends (sf_free sampleEnv 0x1000e0) { s.heap with mem := setByte s.heap.mem 0x100068 4 }
          fun _ _ => True := by
    decide +kernel
  obtain ⟨s, hs, hlive, ⟨hend, hbad⟩, hfree⟩ := hrun
  obtain ⟨log, hcalls⟩ := Calls.exec (C := fun _ _ => True) (.start (s := sample)) (by simp) hs
  have hstores : ∀ v < 256, Calls sampleEnv (fun _ _ => True) sample log
      ⟨{ s.heap with mem := setByte s.heap.mem 0x100068 v }, s.live⟩ := fun v hv =>
    .hide (i := .write 0x100068 v) hcalls trivial ⟨⟨hv, ⟨0x100010, 200⟩,
      by rw [hlive]; exact List.mem_cons_self, by decide, by decide⟩, trivial, ⟨0, rfl⟩, rfl⟩
  obtain ⟨-, -, -, hends⟩ := hall sampleEnv sample sample _ _ log log ⟨rfl, rfl⟩ ⟨rfl, rfl⟩ rfl rfl
    (hstores 0 (by decide)) (hstores 4 (by decide)) rfl
  have hvalid : Op.Valid s.live (.free 0x1000e0) := by
    rw [hlive]
    exact ⟨_, List.mem_cons_of_mem _ List.mem_cons_self, rfl⟩
  obtain ⟨_, habort⟩ := (hends _ hvalid).aborts.mp ((aborts_iff (by rw [hend])
    (by decide) (by decide) (by decide)).mpr
      (.inr ⟨⟨by decide, .inl ⟨by decide, by rw [show _ = _ from hend]; decide⟩⟩, .inr hbad⟩))
  obtain ⟨_, s', hf, -⟩ := hfree
  have hc := (bind_ok hf).symm.trans habort
  cases hc

end StarterProjects.Sfmm
