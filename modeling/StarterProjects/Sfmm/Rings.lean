import StarterProjects.Sfmm.Accounts
import StarterProjects.Sfmm.Resize

/-!
# The free lists in runs with `sf_realloc`

In every state of a careful run each free list is a ring through its sentinel and each free block
is in the list of its size, once. The rings are closed once a block has left list 7, to which
`sf_init_first_page` adds the first block without a link back.
-/

namespace StarterProjects.Sfmm

open Lib Lib.Exec

namespace Pool

variable {e : Env} {g g' : Pool}

/-- Every sentinel points back to the last block of its list. -/
def Closed (g : Pool) : Prop := ∀ i < 10, g.closed i = true

theorem closed_listwise : Listwise Closed where
  of_lists := fun h _ hclosed i hi => by rw [hclosed, h i hi]
  erase := fun b h i hi => by rw [erase_closed, h i hi, Bool.true_or]
  put := fun b size h i hi => by rw [put_closed, h i hi, Bool.true_or]

namespace Listwise

variable {P : Pool → Prop} (K : Listwise P)

include K

theorem trim (h : P g) (b n : Nat) : P (g.trim b n) :=
  K.coalesce (g := g.cut b n) (K.of_lists h rfl rfl) _ _ _

theorem realloc (h : P g) {b n r : Nat} {stale : Bool} (hn : n < 2 ^ 64)
    (hr : g.realloc e b n stale = some (r, g')) : P g' := by
  unfold Pool.realloc at hr
  split at hr
  · cases hr
    exact K.freeBlock h b
  · split at hr
    · obtain ⟨⟨q, g₁⟩, hm, hq⟩ := Option.map_eq_some_iff.mp hr
      have h₁ := K.malloc h hn hm
      dsimp only at hq
      split at hq <;> cases hq
      · exact h₁
      · exact K.freeBlock (g := { g₁ with touched := [] }) (K.of_lists h₁ rfl rfl) b
    · split at hr
      · cases hr
        exact h
      · split at hr <;> cases hr
        · exact h
        · exact K.trim h b _

end Listwise

/-- The first block of the heap leaves its list. -/
theorem closed_of_erase (errno growCalls : Nat) (hfree : g.free = (initial e errno growCalls).free)
    (hclosed : g.closed = (initial e errno growCalls).closed) :
    (g.erase e.sf_mem_start).Closed := by
  intro i _
  rw [erase_closed, hfree, hclosed]
  by_cases hi : i = 7
  · rw [hi]
    simp [initial]
  · simp [initial, hi]

theorem initial_serve_closed {errno growCalls m p : Nat} {stale : Bool}
    (hs : (initial e errno growCalls).serve m stale = some (p, g')) : g'.Closed := by
  have K := closed_listwise
  have hquick : (initial e errno growCalls).quickHit m = none := by
    cases hq : (initial e errno growCalls).quickHit m with
    | none => rfl
    | some i =>
      obtain ⟨_, ⟨a, l, hl⟩, _⟩ := quickHit_some hq
      cases hl
  unfold Pool.serve at hs
  rw [hquick] at hs
  dsimp only at hs
  split at hs
  · rename_i a hf
    cases hs
    -- there is only one block
    obtain ⟨⟨i, hi, ha⟩, _⟩ := fit_some hf
    obtain rfl : a = e.sf_mem_start := by
      change a ∈ (if i = 7 then [e.sf_mem_start] else []) at ha
      split at ha
      · exact List.mem_singleton.mp ha
      · cases ha
    unfold Pool.place
    split
    · unfold Pool.split
      exact K.of_lists (K.put _ _ (K.of_lists (closed_of_erase errno growCalls rfl rfl) rfl rfl))
        rfl rfl
    · unfold Pool.exact
      rw [show (initial e errno growCalls).hdr e.sf_mem_start = some ⟨4080, false, false⟩ from
        if_pos rfl]
      exact K.of_lists (closed_of_erase errno growCalls rfl rfl) rfl rfl
  · cases hs

theorem initial_merged_closed (errno growCalls : Nat) {m : Nat} (hm : m ≠ e.sf_mem_start)
    (hfree : g.free = (initial e errno growCalls).free)
    (hclosed : g.closed = (initial e errno growCalls).closed) :
    (pageMerged e.sf_mem_start m g.grown).Closed := by
  have hlists : ∀ i, g.free i = if i = 7 then [e.sf_mem_start] else [] := fun i => by
    rw [hfree]
    rfl
  have hkeep : ∀ i, (g.free i).erase m = g.free i := fun i => by
    refine List.erase_of_not_mem fun hc => ?_
    rw [hlists] at hc
    split at hc
    · exact hm (List.mem_singleton.mp hc)
    · cases hc
  refine closed_listwise.makeFree (closed_of_erase errno growCalls ?_ ?_)
    _ _ _
  · rw [← hfree]
    exact funext hkeep
  · rw [← hclosed]
    funext i
    change (g.closed i || decide ((g.free i).getLast? = some m)) = g.closed i
    rw [decide_eq_false fun hc => ?_, Bool.or_false]
    have hmem := List.mem_of_getLast? hc
    rw [hlists] at hmem
    split at hmem
    · exact hm (List.mem_singleton.mp hmem)
    · cases hmem

/-- The first request that reaches the lists closes the last ring, when the first page serves it
or a second one is granted. -/
theorem initial_closed {errno growCalls n r : Nat} {stale : Bool}
    (S : (initial e errno growCalls).Shape e) (h0 : n ≠ 0) (hneg : intNeg n = false)
    (hroom : blockSize n ≤ 4080 ∨ (initial e errno growCalls).canGrow e = true)
    (hm : (initial e errno growCalls).malloc e n stale = some (r, g')) : g'.Closed := by
  have K := closed_listwise
  have hstart : (initial e errno growCalls).hdr e.sf_mem_start = some ⟨4080, false, false⟩ :=
    if_pos rfl
  unfold Pool.malloc at hm
  rw [if_neg h0, hneg, if_neg Bool.false_ne_true] at hm
  cases hs : (initial e errno growCalls).serve (blockSize n) stale with
  | some q =>
    rw [hs] at hm
    cases hm
    exact initial_serve_closed hs
  | none =>
    rw [hs] at hm
    dsimp only at hm
    have hU := (serve_none stale).mp hs
    have hlarge : 4080 < blockSize n := by
      have h1 := fit_none hU.2 (i := 7) (a := e.sf_mem_start) (by decide) List.mem_cons_self
      rwa [sizeOf_of_hdr hstart] at h1
    have hgrow := hroom.resolve_left (Nat.not_le.mpr hlarge)
    -- after one turn of the growth loop the ring is closed
    have hturn : ∀ g₁ : Pool, (g₁.Closed ∨ g₁ =
        ((initial e errno growCalls).spoil (e.sf_mem_start + 4080 + 8)).note
          (e.sf_mem_start + 4080) 4080) →
        (pageMerged e.sf_mem_start (e.sf_mem_start + 4080) g₁.grown).Closed := by
      rintro g₁ (hg₁ | rfl)
      · exact K.merged hg₁ _ _
      · exact initial_merged_closed errno growCalls (by omega) rfl rfl
    rcases grow_merged (e := e) n (P := fun g₁ => g₁.Closed ∨ g₁ =
        ((initial e errno growCalls).spoil (e.sf_mem_start + 4080 + 8)).note
          (e.sf_mem_start + 4080) 4080) S (h := ⟨4080, false, false⟩) ⟨hstart, rfl⟩ rfl rfl
      (.inr rfl) (fun g₁ hg₁ _ _ _ => .inl (hturn g₁ hg₁)) with
      ⟨hok, hP, _⟩ | ⟨hok, g₁, hP, _, _, hno, he⟩
    · rw [if_pos hok] at hm
      rcases hP with hP | hP
      · exact K.serve hP hm
      · have hnone := (serve_none (g := (grow e (initial e errno growCalls) n).2) stale).mpr
          (by rw [hP]; exact hU)
        rw [hnone] at hm
        cases hm
    · rw [if_neg (by rw [hok]; exact Bool.false_ne_true)] at hm
      cases hm
      rw [he]
      rcases hP with hP | hP
      · exact K.of_lists hP rfl rfl
      · rw [hP] at hno
        exact absurd (hno.symm.trans hgrow) Bool.false_ne_true

end Pool

/-! ## Runs -/

/-- The calls of a careful run. The first one reaches the lists, and the first page serves it or a
second one is granted. -/
def KeepsRings (e : Env) (s : Sys) (op : Op) : Prop :=
  Careful e s op ∧ ∀ n, op = .malloc n → s.heap.sf_mem_end = e.sf_mem_start →
    n ≠ 0 ∧ intNeg n = false ∧ (blockSize n ≤ 4080 ∨ CanGrow e s.heap 1)

/-- The heap represents a pool whose lists are rings. -/
def Rung (e : Env) (s : Sys) : Prop := ∃ g, Tracks e s.live s.heap g ∧ g.Closed

theorem Rung.step {e : Env} {s s' : Sys} {op : Op} (hs : Start e s ∨ Rung e s)
    (hstep : Step e (KeepsRings e) s op s') : Rung e s' := by
  have K := Pool.closed_listwise
  obtain ⟨hvalid, ⟨hcond, hfirst⟩, r, hret, hlive⟩ := hstep
  rcases hs with hS | ⟨g, T, hP⟩
  · obtain ⟨n, rfl⟩ := hS.op_malloc hvalid
    obtain ⟨h0, hneg, hroom⟩ := hfirst n rfl hS.empty
    obtain ⟨_, _, g', T, hm, T'⟩ := hS.malloc hvalid h0 hneg hcond hret
    have hclosed : g'.Closed :=
      Pool.initial_closed T.rep.shape h0 hneg (hroom.imp_right fun hc => ?_) hm
    · exact ⟨{ g' with touched := [] }, hlive ▸ T', K.of_lists hclosed rfl rfl⟩
    -- the second page of the fresh heap
    unfold CanGrow at hc
    rw [hS.empty] at hc
    unfold Pool.canGrow Pool.initial
    simp only [Bool.and_eq_true, decide_eq_true_eq]
    exact ⟨hc.1, by omega⟩
  · by_cases hop : ∃ p n, op = .realloc p n
    · obtain ⟨p, n, rfl⟩ := hop
      obtain ⟨_, _, _, _, _, g', hr, T'⟩ := T.realloc_to hvalid.1 hvalid.2 hcond hret
      exact ⟨{ g' with touched := [] }, hlive ▸ T', K.of_lists (K.realloc hP hvalid.2 hr) rfl rfl⟩
    · exact T.pools (P := fun g _ => g.Closed) hP (fun hn _ _ hP hm => K.malloc hP hn hm)
        (fun _ hP => K.freeBlock hP _) (fun hP => K.of_lists hP rfl rfl)
        ⟨hvalid, hcond.sound fun p n hc => hop ⟨p, n, hc⟩, r, hret, hlive⟩

/-- Every free list is a ring, and every free block is in the list of its size, once. -/
structure Listed (e : Env) (s : State) : Prop where
  ring : ∀ i < 10, FreeList e s true i (freeBlocks e s i)
  once : ((List.range 10).flatMap (freeBlocks e s)).Nodup
  free : ∀ i < 10, ∀ b, b ∈ freeBlocks e s i ↔
    IsBlock e s b ∧ ¬ AllocAt e s b ∧ InClass i (sizeAt e s b)
  all : ∀ b, IsBlock e s b → ¬ AllocAt e s b → ∃ i < 10, b ∈ freeBlocks e s i

theorem Tracks.listed {e : Env} {live : List Allocation} {s : State} {g : Pool}
    (T : Tracks e live s g) (hclosed : g.Closed) : Listed e s := by
  have R := T.rep
  have I := T.inv
  have hfree : ∀ i < 10, ∀ b, b ∈ freeBlocks e s i ↔
      IsBlock e s b ∧ ¬ AllocAt e s b ∧ InClass i (sizeAt e s b) := fun i hi b => by
    rw [R.freeBlocks_eq hi, R.isBlock_iff I.toSettling]
    constructor
    · intro hb
      obtain ⟨k, hk, hal, hclass⟩ := I.free_mem hi hb
      rw [R.not_allocAt hk, R.sizeAt_eq hk, inClass_iff hi (I.inside hk).2.2.1]
      exact ⟨⟨k, hk⟩, hal, hclass⟩
    · rintro ⟨⟨k, hk⟩, hal, hclass⟩
      rw [R.not_allocAt hk] at hal
      rw [R.sizeAt_eq hk, inClass_iff hi (I.inside hk).2.2.1] at hclass
      exact hclass ▸ I.listed hk hal List.not_mem_nil
  refine ⟨fun i hi => ?_, ?_, hfree, fun b hb hal => ?_⟩
  · have hring := R.ring i hi
    rw [hclosed i hi] at hring
    rwa [R.freeBlocks_eq hi]
  · rw [List.flatMap_congr fun i hi => R.freeBlocks_eq (List.mem_range.mp hi)]
    exact Pool.nodup_lists I.free_nodup fun hi hj hb hb' => I.free_unique hi hj hb hb'
  · have hi := Pool.freeIndex_lt (sizeAt e s b)
    obtain ⟨k, hk⟩ := (R.isBlock_iff I.toSettling).mp hb
    have h1 := I.inside hk
    refine ⟨_, hi, (hfree _ hi b).mpr ⟨hb, hal, (inClass_iff hi ?_).mpr rfl⟩⟩
    rw [R.sizeAt_eq hk]
    exact h1.2.2.1

/-- After every call of such a run the lists are in order. -/
theorem listed_of_rings {e : Env} {s s' : Sys} {op : Op} (h : Reached e (KeepsRings e) s)
    (hstep : Step e (KeepsRings e) s op s') : Listed e s'.heap := by
  have hs : Start e s ∨ Rung e s :=
    h.invariant (I := fun s => Start e s ∨ Rung e s) (fun _ hS => .inl hS)
      fun _ _ _ hs hstep => .inr (Rung.step hs hstep)
  obtain ⟨g, T, hclosed⟩ := Rung.step hs hstep
  exact T.listed hclosed

set_option synthInstance.maxSize 512 in
/-- `malloc(200)`, `malloc(64)`, and `realloc` of the second block to 8 bytes: the rest of it and
the free block behind it become one. -/
theorem listed_of_rings_cut : ∃ s : Sys, s.live = [⟨0x1000e0, 8⟩, ⟨0x100010, 200⟩] ∧
    freeBlocks sampleEnv s.heap 7 = [0x1000f0] ∧ Listed sampleEnv s.heap := by
  have hrun : Ends (sf_malloc sampleEnv 1 200) sample.heap fun p t => p = 0x100010 ∧
      t.sf_mem_end = 0x101000 ∧ MallocSeen sampleEnv t 64 ∧
        Ends (sf_malloc sampleEnv 1 64) t fun q u => q = 0x1000e0 ∧
          (0x100120 ∈ firstBlocks sampleEnv u ∧ ¬ AllocAt sampleEnv u 0x100120) ∧
          (sizeAt sampleEnv u 0x1000d0 = 80 ∧ u.prv 0x1000d0 = u.prv 0x100120 ∧
            u.nxt 0x1000d0 = u.nxt 0x100120) ∧
          Ends (sf_realloc sampleEnv 1 0x1000e0 8) u fun r v => r = 0x1000e0 ∧
            freeBlocks sampleEnv v 7 = [0x1000f0] := by
    decide +kernel
  obtain ⟨_, t, ht, rfl, hend, hseen, _, u, hu, rfl, ⟨hnext, hfree⟩, ⟨hcut, hprv, hnxt⟩, _, v, hv,
    rfl, hseven⟩ := hrun
  have h1 : Reached sampleEnv (KeepsRings sampleEnv) ⟨t, [⟨0x100010, 200⟩]⟩ := by
    refine .step (i := .malloc 200) (sample_reached _) ⟨(by decide : 200 < 2 ^ 64),
      ⟨sample_mallocOk 200, fun n hn _ => ?_⟩, _, ⟨1, ht⟩, rfl⟩
    cases hn
    exact ⟨by decide, by decide, .inl (by decide)⟩
  have h2 : Reached sampleEnv (KeepsRings sampleEnv) ⟨u, [⟨0x1000e0, 64⟩, ⟨0x100010, 200⟩]⟩ := by
    refine .step (i := .malloc 64) h1 ⟨(by decide : 64 < 2 ^ 64), ⟨hseen.ok, fun n hn hpages => ?_⟩,
      _, ⟨1, hu⟩, rfl⟩
    exact absurd (hend.symm.trans hpages) (by decide)
  have hok : ReallocOk sampleEnv u 0x1000d0 8 := by
    unfold ReallocOk
    rw [if_neg (by decide), hcut, if_neg (by decide)]
    refine .inr ⟨by decide, .inr ⟨by rw [hcut]; decide, ?_, ?_, ?_⟩⟩ <;> rw [hcut]
    · exact isBlock_of_first hnext
    · exact hfree
    · exact .inl ⟨hprv, hnxt⟩
  have hstep : Step sampleEnv (KeepsRings sampleEnv) ⟨u, [⟨0x1000e0, 64⟩, ⟨0x100010, 200⟩]⟩
      (.realloc 0x1000e0 8) ⟨v, [⟨0x1000e0, 8⟩, ⟨0x100010, 200⟩]⟩ :=
    ⟨⟨⟨_, List.mem_cons_self, rfl⟩, by decide⟩, ⟨hok, nofun⟩, _, ⟨1, hv⟩, rfl⟩
  exact ⟨_, rfl, hseven, listed_of_rings h2 hstep⟩

/-- `malloc(200)`, `malloc(100)`, and `realloc` of the first block to 100 bytes: with an allocated
block behind it the rest is put into its list twice, and points to itself. -/
theorem realloc_lists_twice : ¬ ∀ (e : Env) (s s' : Sys) (op : Op),
    Reached e (fun _ _ => True) s → Step e (fun _ _ => True) s op s' → Listed e s'.heap := by
  intro hall
  have hrun : ∃ s ∈ sample.exec sampleEnv 1 [.malloc 200, .malloc 100],
      s.live = [⟨0x1000e0, 100⟩, ⟨0x100010, 200⟩] ∧
        Ends (sf_realloc sampleEnv 1 0x100010 100) s.heap fun _ t =>
          (freeBlocks sampleEnv t 2).take 2 = [0x100070, 0x100070] := by
    decide +kernel
  obtain ⟨s, hs, hlive, p, t, ht, htwice⟩ := hrun
  have hstep : Step sampleEnv (fun _ _ => True) s (.realloc 0x100010 100)
      ⟨t, (Op.realloc 0x100010 100).after s.live p⟩ := by
    refine ⟨⟨?_, by decide⟩, trivial, p, ⟨1, ht⟩, rfl⟩
    rw [hlive]
    exact ⟨_, List.mem_cons_of_mem _ List.mem_cons_self, rfl⟩
  have honce := (hall sampleEnv s _ _ ((sample_reached _).exec (by simp) hs) hstep).once
  have hnodup := ((List.nodup_flatMap.mp honce).1 2 (by decide)).sublist (List.take_sublist 2 _)
  rw [htwice] at hnodup
  exact absurd hnodup (by decide)

end StarterProjects.Sfmm
