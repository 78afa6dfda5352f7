import StarterProjects.Sfmm.Grow

/-!
# `sf_malloc`

The first page, and what a call of `sf_malloc` does to the pool: the abstract
`Pool.malloc` returns a pointer and a pool, or nothing when the self-calls of
`sf_malloc` never end.
-/

namespace StarterProjects.Sfmm

open Lib Lib.Exec

/-! ## The first page -/

/-- The pool after `sf_init_first_page`. -/
def Pool.initial (e : Env) (errno growCalls : Nat) : Pool where
  hdr := fun a => if a = e.sf_mem_start then some ⟨4080, false, false⟩ else none
  free := fun i => if i = 7 then [e.sf_mem_start] else []
  quick := fun _ => []
  known := fun c => if c = e.sf_mem_start + 4080 then some (Hdr.mk 4080 false false).word else none
  closed := fun i => decide (i ≠ 7)
  busy := none
  touched := []
  memEnd := e.sf_mem_start + PAGE_SZ
  globalEnd := e.sf_mem_start
  errno := errno
  growCalls := growCalls + 1

section Init

variable {e : Env} {s : State}

theorem mapped_head (i : Nat) (hi : i < 10) :
    mapped e s (nextOf (e.head i)) ∧ mapped e s (prevOf (e.head i)) := by
  have := e.heads_aligned
  unfold mapped nextOf prevOf Env.head
  omega

theorem init_lists_ends (e : Env) (s : State) :
    Ends (sf_init_lists e) s fun _ s' =>
      s' = { s with mem := s'.mem, sf_quick_lists := s'.sf_quick_lists } ∧
      ∀ i < 10, s'.sf_quick_lists i = ⟨0, NULL⟩ ∧ s'.nxt (e.head i) = e.head i ∧
        s'.prv (e.head i) = e.head i := by
  unfold sf_init_lists
  refine Ends.step (P := fun _ s' => s' = { s with sf_quick_lists := s'.sf_quick_lists } ∧
    ∀ i < 10, s'.sf_quick_lists i = ⟨0, NULL⟩) ?_ ?_
  · -- the quick lists that are still to come are the only ones that may not be empty
    refine (forEach_ends (fun rest s' => s' = { s with sf_quick_lists := s'.sf_quick_lists } ∧
      ∀ i < 10, i ∉ rest → s'.sf_quick_lists i = ⟨0, NULL⟩) ?_ (List.range 10) s
      ⟨rfl, fun i hi hn => absurd (List.mem_range.mpr hi) hn⟩).mono
      fun _ s' h => ⟨h.1, fun i hi => h.2 i hi List.not_mem_nil⟩
    intro j rest s' h
    refine .of_eq (modify_apply _ s') ⟨by rw [h.1]; rfl, fun i hi hn => ?_⟩
    simp only [State.withQuick]
    by_cases hij : i = j
    · exact if_pos hij
    · rw [if_neg hij]
      exact h.2 i hi (by simp [hij, hn])
  · rintro _ s1 ⟨h1, h2⟩
    refine (forEach_ends (fun rest s' => s' = { s1 with mem := s'.mem } ∧
      (∀ j ∈ rest, j < 10) ∧
      ∀ i < 10, i ∉ rest → s'.nxt (e.head i) = e.head i ∧ s'.prv (e.head i) = e.head i) ?_
      (List.range 10) s1
      ⟨rfl, fun j hj => List.mem_range.mp hj,
        fun i hi hn => absurd (List.mem_range.mpr hi) hn⟩).mono
      fun _ s' h => ⟨by rw [h.1, h1], fun i hi => ⟨by rw [h.1]; exact h2 i hi, ?_⟩⟩
    · rintro j rest s' ⟨h3, h4, h5⟩
      have hj := h4 j List.mem_cons_self
      refine .run (store_ok (mapped_head j hj).2) ?_
      refine .of_eq (store_ok (s := s'.put _ _) (mapped_head j hj).1) ⟨by rw [h3]; rfl,
        fun k hk => h4 k (List.mem_cons_of_mem _ hk), fun i hi hn => ?_⟩
      unfold State.nxt State.prv
      simp only [State.put_mem]
      by_cases hij : i = j
      · subst hij
        rw [if_pos rfl, if_neg (by unfold prevOf nextOf; omega), if_pos rfl]
        exact ⟨rfl, rfl⟩
      · have h6 := h5 i hi (by simp [hij, hn])
        rw [if_neg (by unfold nextOf Env.head; omega),
          if_neg (by unfold nextOf prevOf Env.head; omega),
          if_neg (by unfold nextOf prevOf Env.head; omega),
          if_neg (by unfold prevOf Env.head; omega)]
        exact h6
    · exact h.2.2 i hi List.not_mem_nil

/-! ### The pool of the first page -/

section Initial

variable {errno growCalls : Nat}

theorem initial_hdr {a : Nat} {h : Hdr} (ha : (Pool.initial e errno growCalls).hdr a = some h) :
    a = e.sf_mem_start ∧ h = ⟨4080, false, false⟩ := by
  simp only [Pool.initial] at ha
  split at ha
  · cases ha
    exact ⟨‹_›, rfl⟩
  · cases ha

theorem initial_free {i a : Nat} (ha : a ∈ (Pool.initial e errno growCalls).free i) :
    i = 7 ∧ a = e.sf_mem_start := by
  simp only [Pool.initial] at ha
  split at ha
  · exact ⟨‹_›, List.mem_singleton.mp ha⟩
  · cases ha

theorem initial_start : (Pool.initial e errno growCalls).hdr e.sf_mem_start =
    some ⟨4080, false, false⟩ := if_pos rfl

theorem initial_shape (hlim : e.sf_mem_start + PAGE_SZ ≤ e.heapLimit) :
    (Pool.initial e errno growCalls).Shape e where
  limit := hlim
  pages := Nat.le_refl _
  end_aligned := by
    have h16 := e.start_aligned
    simp only [Pool.initial, PAGE_SZ]
    omega
  inside := by
    intro a h ha
    obtain ⟨rfl, rfl⟩ := initial_hdr ha
    exact ⟨Nat.le_refl _, e.start_aligned, by decide, by decide, Nat.le_refl _⟩
  apart := by
    intro a b h k ha hb hab
    obtain ⟨rfl, _⟩ := initial_hdr ha
    obtain ⟨rfl, _⟩ := initial_hdr hb
    exact absurd hab (Nat.lt_irrefl _)
  free_mem := by
    intro i a _ ha
    obtain ⟨rfl, rfl⟩ := initial_free ha
    exact ⟨_, initial_start, rfl, rfl⟩
  free_nodup := by
    intro i _
    simp only [Pool.initial]
    split <;> simp
  quick_mem := fun _ ha => nomatch ha
  quick_nodup := fun _ _ => List.nodup_nil
  known_mem := by
    intro c w hc
    simp only [Pool.initial] at hc
    split at hc
    · exact ⟨_, _, initial_start, rfl, by omega, by dsimp only; omega⟩
    · cases hc

end Initial

/-- What the first page leaves of the memory `mem`: the header and the footer of its block, and
the links between the block and the sentinel of the list 7. -/
def firstPage (e : Env) (mem : Nat → Nat) (x : Nat) : Nat :=
  if x = e.sf_mem_start + 16 then e.head 7 else if x = e.sf_mem_start + 24 then e.head 7
  else if x = e.head 7 + 16 then e.sf_mem_start
  else if x = e.sf_mem_start + 4080 then 4080 ^^^ e.magic
  else if x = e.sf_mem_start then 0
  else if x = e.sf_mem_start + 8 then 4080 ^^^ e.magic else mem x

/-- The run on empty lists. -/
theorem first_page_run (hs : s.sf_mem_end = e.sf_mem_start)
    (hgrant : e.grants s.growCalls = true) (hlim : e.sf_mem_start + PAGE_SZ ≤ e.heapLimit) :
    Ends (sf_init_first_page e) s fun _ s' => ∃ s1 : State,
      (∀ i < 10, s1.sf_quick_lists i = ⟨0, NULL⟩ ∧ s1.nxt (e.head i) = e.head i ∧
        s1.prv (e.head i) = e.head i) ∧
      s' = { s with mem := firstPage e s1.mem, sf_mem_end := e.sf_mem_start + PAGE_SZ,
                    growCalls := s.growCalls + 1, globalEnd := e.sf_mem_start,
                    sf_quick_lists := s1.sf_quick_lists } := by
  have hpos := e.start_pos
  have h16 := e.start_aligned
  have hlt := e.limit_lt
  have hP : PAGE_SZ = 4096 := rfl
  unfold sf_init_first_page
  refine (init_lists_ends e s).step fun _ s1 h1 => ?_
  obtain ⟨h1, h2⟩ := h1
  have hgc : s1.growCalls = s.growCalls := by rw [h1]
  have hme : s1.sf_mem_end = e.sf_mem_start := by rw [h1]; exact hs
  have hgrow : sf_mem_grow e s1 = .ok (e.sf_mem_start,
      { s1 with sf_mem_end := e.sf_mem_start + PAGE_SZ, growCalls := s.growCalls + 1 }) := by
    unfold sf_mem_grow
    rw [hgc, hme, if_pos ⟨hgrant, hlim⟩]
  refine .run hgrow ?_
  generalize hs2 : ({ s1 with sf_mem_end := e.sf_mem_start + PAGE_SZ,
                              growCalls := s.growCalls + 1 } : State) = s2
  have hmap : ∀ {s' : State} {x : Nat}, s'.sf_mem_end = e.sf_mem_start + PAGE_SZ → x % 8 = 0 →
      e.sf_mem_start ≤ x → x < e.sf_mem_start + 4096 → mapped e s' x := by
    intro s' x h3 h4 h5 h6
    exact ⟨h4, .inl ⟨h5, by omega⟩⟩
  have hend : s2.sf_mem_end = e.sf_mem_start + PAGE_SZ := by rw [← hs2]
  rw [add64_of_lt (by omega)]
  refine .run (store_ok (hmap hend (by unfold headerOf; omega) (by unfold headerOf; omega)
    (by unfold headerOf; omega))) ?_
  refine .run (store_ok (hmap hend (x := e.sf_mem_start) (by omega) (by omega) (by omega))) ?_
  refine .run (store_ok (hmap hend (by omega) (by omega) (by omega))) ?_
  refine .run (modify_apply _ _) ?_
  refine .run (store_ok (mapped_head 7 (by decide)).1) ?_
  refine .run (store_ok (hmap hend (by unfold prevOf; omega) (by unfold prevOf; omega)
    (by unfold prevOf; omega))) ?_
  refine .of_eq (store_ok (hmap hend (by unfold nextOf; omega) (by unfold nextOf; omega)
    (by unfold nextOf; omega))) ⟨s1, h2, ?_⟩
  rw [← hs2, h1]
  rfl

/-- The links of the sentinels on the first page. -/
theorem firstPage_links (hlim : e.sf_mem_start + PAGE_SZ ≤ e.heapLimit) {s1 s' : State}
    (hmem : s'.mem = firstPage e s1.mem)
    (h : ∀ i < 10, s1.sf_quick_lists i = ⟨0, NULL⟩ ∧ s1.nxt (e.head i) = e.head i ∧
      s1.prv (e.head i) = e.head i) : ∀ i < 10,
    s'.nxt (e.head i) = (if i = 7 then e.sf_mem_start else e.head i) ∧
      s'.prv (e.head i) = e.head i := by
  have hpos := e.start_pos
  have hlt := e.limit_lt
  have hapart := e.heads_apart
  have hhp := e.heads_pos
  have hP : PAGE_SZ = 4096 := rfl
  intro i hi
  obtain ⟨_, h3, h4⟩ := h i hi
  unfold State.nxt State.prv nextOf prevOf Env.head at *
  rw [hmem, firstPage, firstPage]
  unfold Env.head
  rw [if_neg (by omega), if_neg (by omega)]
  refine ⟨?_, ?_⟩
  · by_cases hi7 : i = 7
    · rw [if_pos (by omega), if_pos hi7]
    · rw [if_neg (by omega), if_neg (by omega), if_neg (by omega), if_neg (by omega), if_neg hi7]
      exact h3
  · rw [if_neg (by omega), if_neg (by omega), if_neg (by omega), if_neg (by omega),
      if_neg (by omega), if_neg (by omega)]
    exact h4

/-- The first page, when there is one. -/
theorem init_ends {m₀ : Nat → Nat} (hs : s.sf_mem_end = e.sf_mem_start)
    (hgrant : e.grants s.growCalls = true) (hlim : e.sf_mem_start + PAGE_SZ ≤ e.heapLimit) :
    Ends (sf_init_first_page e) s fun _ s' =>
      Represents e (fun _ => False) m₀ s' (Pool.initial e s.sf_errno s.growCalls) := by
  have hpos := e.start_pos
  have hlt := e.limit_lt
  have hapart := e.heads_apart
  have hhp := e.heads_pos
  have hP : PAGE_SZ = 4096 := rfl
  refine (first_page_run hs hgrant hlim).mono fun _ s3 h => ?_
  obtain ⟨s1, h2, hfields⟩ := h
  have hmem : s3.mem = firstPage e s1.mem := by rw [hfields]
  have hhead := firstPage_links hlim hmem h2
  exact
  { shape := initial_shape hlim
    memEnd := by rw [hfields]; rfl
    globalEnd := by rw [hfields]; rfl
    errno := by rw [hfields]; rfl
    growCalls := by rw [hfields]; rfl
    header := by
      intro a h ha
      obtain ⟨rfl, rfl⟩ := initial_hdr ha
      rw [hmem]
      unfold firstPage headerOf Env.head
      rw [if_neg (by omega), if_neg (by omega), if_neg (by omega), if_neg (by omega),
        if_neg (by omega), if_pos rfl]
      rfl
    known := by
      intro c w hc
      simp only [Pool.initial] at hc
      split at hc
      · cases hc
        subst c
        rw [hmem]
        unfold firstPage Env.head
        rw [if_neg (by omega), if_neg (by omega), if_neg (by omega), if_pos rfl]
        rfl
      · cases hc
    ring := by
      intro i hi
      obtain ⟨h3, h4⟩ := hhead i hi
      -- list 7 holds the block of the page, the others are empty
      by_cases hi7 : i = 7
      · subst hi7
        rw [if_pos rfl] at h3
        refine ⟨h3, ?_, ?_, fun hc => absurd hc Bool.false_ne_true⟩
        · unfold State.prv prevOf
          rw [hmem, firstPage, if_neg (by omega), if_pos rfl]
        · unfold State.nxt nextOf
          rw [hmem, firstPage, if_pos rfl]
      · rw [if_neg hi7] at h3
        simp only [Pool.initial, if_neg hi7]
        exact ⟨h3, fun _ => h4⟩
    chain := by
      intro i hi _
      rw [hfields]
      simp only [(h2 i hi).1]
      exact ⟨rfl, rfl⟩
    watch := nofun
    kept := nofun }

end Init

/-! ## The depth of the self-calls -/

theorem sf_malloc_body_below {e : Env} {again again' : Exec State Nat} {size : Nat}
    (h : Below again again') :
    Below (sf_malloc_body e again size) (sf_malloc_body e again' size) := by
  have hmain : Below (sf_malloc_main e again size) (sf_malloc_main e again' size) := by
    unfold sf_malloc_main
    cases sf_malloc_round size with
    | none => exact .refl _
    | some b =>
      refine Below.bind (.refl _) fun r => ?_
      cases r with
      | some p => exact .refl _
      | none =>
        refine Below.bind (.refl _) fun grown => ?_
        cases grown with
        | true => exact h
        | false => exact .refl _
  unfold sf_malloc_body
  split
  · exact .refl _
  · split
    · exact .refl _
    · refine Below.bind (.refl _) fun s => ?_
      dsimp only
      split
      · exact Below.bind (.refl _) fun _ => hmain
      · exact hmain

/-- A deeper bound on the self-calls changes no result. -/
theorem sf_malloc_below {e : Env} {size : Nat} :
    ∀ {fuel fuel' : Nat}, fuel ≤ fuel' → Below (sf_malloc e fuel size) (sf_malloc e fuel' size)
  | 0, _, _ => fun _ _ h => nomatch h
  | _ + 1, 0, hle => absurd hle (Nat.not_succ_le_zero _)
  | _ + 1, _ + 1, hle => sf_malloc_body_below (sf_malloc_below (Nat.le_of_succ_le_succ hle))

/-! ## `sf_malloc` on pools -/

namespace Pool

/-- What `sf_malloc` returns and what becomes of the pool. Nothing is returned
when the heap was grown by too little, for then the self-calls never end. -/
def malloc (e : Env) (g : Pool) (size : Nat) (stale : Bool) : Option (Nat × Pool) :=
  if size = 0 then some (NULL, g)
  else if intNeg size then some (NULL, g.setErrno ENOMEM)
  else
    match g.serve (blockSize size) stale with
    | some r => some r
    | none =>
        if (g.grow e size).1 then (g.grow e size).2.serve (blockSize size) stale
        else some (NULL, (g.grow e size).2)

/-- The heap can be grown for the request: `globalEnd` is the last block and, if
that is allocated, no more than one page is added, which then serves the
request or is the last one there is. -/
def Growable (e : Env) (g : Pool) (size : Nat) : Prop :=
  ∃ h, g.Last g.globalEnd h ∧ (h.alloc = true → size ≤ 4088 ∨ g.canGrow e = false ∨
    (intNeg (sub64 size PAGE_SZ) = false ∧ g.grown.canGrow e = false))

/-- Neither the quick lists nor the free lists serve a block size. -/
def Unserved (g : Pool) (m : Nat) : Prop := g.quickHit m = none ∧ g.fit m = none

theorem serve_none {g : Pool} {m : Nat} (stale : Bool) :
    g.serve m stale = none ↔ g.Unserved m := by
  unfold serve Unserved
  cases g.quickHit m with
  | some i => simp
  | none => cases g.fit m <;> simp

/-- The request has led to a free last block that is too small, and for which
the growth loop does not run any more. -/
structure Stuck (g : Pool) (size : Nat) : Prop where
  idle : g.busy = none
  unserved : g.Unserved (blockSize size)
  tail : ∃ h, g.Last g.globalEnd h ∧ h.alloc = false ∧ intNeg (sub64 size h.size) = true

theorem Stuck.grow {e : Env} {g : Pool} {size : Nat} (K : g.Stuck size) :
    (g.grow e size).1 = true ∧ (g.grow e size).2.Stuck size := by
  obtain ⟨h, L, hal, hneg⟩ := K.tail
  have hgrow : g.grow e size = (true, (g.spoil (g.globalEnd + h.size + 8)).note
      (g.globalEnd + h.size) h.size) := by
    obtain ⟨fuel, hfuel⟩ : ∃ fuel, growBound = fuel + 1 := ⟨_, rfl⟩
    rw [Pool.grow, L.hdr]
    simp only [hal, Bool.false_eq_true, if_false]
    rw [hfuel, pages, if_pos hneg]
  rw [hgrow]
  exact ⟨rfl, K.idle, K.unserved, h, ⟨L.hdr, L.ends⟩, hal, hneg⟩

/-- What growth does not change. -/
structure Kept (e : Env) (g g' : Pool) : Prop where
  busy : g'.busy = g.busy
  quick : g'.quick = g.quick
  globalEnd : g'.globalEnd = g.globalEnd
  memEnd : g.memEnd ≤ g'.memEnd

theorem Kept.endInside {e : Env} {g g' : Pool} (K : Kept e g g') (h : g.EndInside e) :
    g'.EndInside e := by
  have h1 := K.memEnd
  unfold EndInside at *
  rw [K.globalEnd]
  omega

theorem Growable.one {e : Env} {g : Pool} {size : Nat} (h : size ≤ 4088 ∨ g.canGrow e = false ∨
      (intNeg (sub64 size PAGE_SZ) = false ∧ g.grown.canGrow e = false)) :
    intNeg (sub64 size PAGE_SZ) = true ∨ g.canGrow e = false ∨ g.grown.canGrow e = false := by
  rcases h with h | h | h
  · left
    unfold intNeg sub64 PAGE_SZ
    simp only [decide_eq_true_eq]
    omega
  · exact .inr (.inl h)
  · exact .inr (.inr h.2)

/-- The page behind an allocated block serves the request, when the loop ends. -/
theorem grow_behind_serves {e : Env} {g : Pool} {size : Nat} {h : Hdr}
    (L : g.Last g.globalEnd h) (hal : h.alloc = true)
    (hone : size ≤ 4088 ∨ g.canGrow e = false ∨
      (intNeg (sub64 size PAGE_SZ) = false ∧ g.grown.canGrow e = false))
    (hneg : intNeg size = false) (hgrow : (g.grow e size).1 = true) :
    ¬ (g.grow e size).2.Unserved (blockSize size) := by
  intro hU
  rcases grow_behind (e := e) L.hdr hal rfl hneg (Growable.one hone) with
    ⟨_, he⟩ | ⟨hc, hn, he⟩ | ⟨_, _, he⟩
  · rw [he] at hgrow
    cases hgrow
  · rw [he] at hU
    -- the page serves what is at most as large as its payload
    have hle : size ≤ 4088 := by
      rcases hone with h1 | h1 | h1
      · exact h1
      · rw [hc] at h1; cases h1
      · rw [hn] at h1; cases h1.1
    have hmem : g.globalEnd + h.size ∈ (pageBehind (g.globalEnd + h.size)
        ((g.spoil (g.globalEnd + h.size + 8)).spoil (g.globalEnd + h.size)).grown).free 7 := by
      unfold pageBehind
      simp [freeIndex, PAGE_SZ]
    have hlt := fit_none hU.2 (by decide) hmem
    rw [sizeOf_of_hdr (h := ⟨PAGE_SZ, false, false⟩) (by simp [pageBehind])] at hlt
    have hb : blockSize size ≤ 4096 := by
      unfold blockSize
      omega
    simp only [PAGE_SZ] at hlt
    omega
  · rw [he] at hgrow
    cases hgrow

/-- After growth the request is served, or it never is. -/
theorem grow_outcome {e : Env} {g : Pool} {size : Nat} (S : g.Shape e) (hbusy : g.busy = none)
    (hG : g.Growable e size) (hneg : intNeg size = false) :
    Kept e g (g.grow e size).2 ∧
      ((g.grow e size).1 = true → (g.grow e size).2.Unserved (blockSize size) →
        (g.grow e size).2.Stuck size) := by
  obtain ⟨h, L, hone⟩ := hG
  cases hal : h.alloc with
  | false =>
    rcases grow_merged size (P := Kept e g) S L hal rfl
      ⟨rfl, rfl, rfl, Nat.le_refl _⟩
      (fun g' K _ _ _ => ⟨K.busy, K.quick, K.globalEnd,
        Nat.le_trans K.memEnd (Nat.le_add_right _ _)⟩)
      with ⟨h1, K, F, hn⟩ | ⟨h1, g', K, _, _, _, he⟩
    · refine ⟨K, fun _ hU' => ⟨K.busy.trans hbusy, hU', ?_⟩⟩
      obtain ⟨k, L', hk, _⟩ := F.tail
      rw [K.globalEnd]
      rw [sizeOf_of_hdr L'.hdr] at hn
      exact ⟨k, L', hk, hn⟩
    · rw [he, h1]
      exact ⟨⟨K.busy, K.quick, K.globalEnd, K.memEnd⟩, nofun⟩
  | true =>
    refine ⟨?_, fun h1 hU => absurd hU (grow_behind_serves L hal (hone hal) hneg h1)⟩
    rcases grow_behind (e := e) L.hdr hal rfl hneg (Growable.one (hone hal)) with
      ⟨_, he⟩ | ⟨_, _, he⟩ | ⟨_, _, he⟩ <;> rw [he]
    · exact ⟨rfl, rfl, rfl, Nat.le_refl _⟩
    · exact ⟨rfl, rfl, rfl, Nat.le_add_right _ _⟩
    · exact ⟨rfl, rfl, rfl, Nat.le_add_right _ _⟩

end Pool

namespace Represents

variable {e : Env} {W : Nat → Prop} {m₀ : Nat → Nat} {s : State} {g : Pool}
  (R : Represents e W m₀ s g)

include R

theorem mapped_globalEnd (hend : g.EndInside e) : mapped e s (headerOf g.globalEnd) := by
  unfold Pool.EndInside at hend
  unfold headerOf
  exact R.mapped_heap (by omega) (by omega) (by omega)

/-- On an initialised heap `sf_malloc` is its main part. -/
theorem malloc_body {again : Exec State Nat} {size : Nat} (h0 : size ≠ 0)
    (hneg : intNeg size = false) :
    sf_malloc_body e again size s = sf_malloc_main e again size s := by
  have h1 := R.shape.pages
  have h2 : e.sf_mem_start ≠ s.sf_mem_end := by
    rw [R.memEnd]
    unfold PAGE_SZ at h1
    omega
  unfold sf_malloc_body
  rw [if_neg h0, hneg]
  simp only [Bool.false_eq_true, if_false]
  rw [bind_ok (get_apply s), if_neg h2]

/-- When the lists do not serve the request, the heap is grown. -/
theorem malloc_unserved {again : Exec State Nat} {size : Nat} (hn : size < 2 ^ 64)
    (hneg : intNeg size = false) (hbusy : g.busy = none) (hend : g.EndInside e)
    (hU : g.Unserved (blockSize size)) :
    sf_malloc_main e again size s =
      (sf_malloc_grow e size >>= fun grown => if grown then again else pure NULL) s := by
  have hb := blockSize_spec size
  obtain ⟨stale, hs⟩ := R.search_ends hbusy hb.1 hb.2.1 (R.mapped_globalEnd hend)
  rw [(Pool.serve_none _).mpr hU] at hs
  unfold sf_malloc_main
  rw [sf_malloc_round_eq (intNeg_of_large hneg hn)]
  dsimp only
  rw [bind_ok hs]

theorem stuck_diverges {size : Nat} (h0 : size ≠ 0) (hn : size < 2 ^ 64)
    (hneg : intNeg size = false) (hend : g.EndInside e) (K : g.Stuck size) (fuel : Nat) :
    sf_malloc e fuel size s = .error .diverges := by
  induction fuel generalizing s g with
  | zero => rfl
  | succ fuel ih =>
    obtain ⟨h, L, hal, _⟩ := K.tail
    rw [sf_malloc, R.malloc_body h0 hneg, R.malloc_unserved hn hneg K.idle hend K.unserved]
    obtain ⟨r, s1, he, rfl, R1⟩ := R.grow_ends L hneg (fun hc => by rw [hal] at hc; cases hc)
    obtain ⟨h1, K1⟩ := K.grow (e := e)
    rw [bind_ok he, h1, if_pos rfl]
    have hkept := (Pool.grow_outcome R.shape K.idle
      ⟨h, L, fun hc => by rw [hal] at hc; cases hc⟩ hneg).1
    exact ih R1 (hkept.endInside hend) K1

/-- A call of `sf_malloc` is `Pool.malloc`. -/
theorem malloc_ends {size : Nat} (hn : size < 2 ^ 64) (hbusy : g.busy = none)
    (hend : g.EndInside e)
    (hG : size ≠ 0 → intNeg size = false → g.Unserved (blockSize size) → g.Growable e size) :
    ∃ stale, match g.malloc e size stale with
      | some (p, g') => ∀ fuel, Ends (sf_malloc e (fuel + 2) size) s fun r s' =>
          r = p ∧ Represents e W m₀ s' g'
      | none => ∀ fuel, sf_malloc e fuel size s = .error .diverges := by
  by_cases h0 : size = 0
  · refine ⟨true, ?_⟩
    rw [Pool.malloc, if_pos h0]
    intro fuel
    rw [sf_malloc, sf_malloc_body, if_pos h0]
    exact .ret ⟨rfl, R⟩
  cases hneg : intNeg size with
  | true =>
    refine ⟨true, ?_⟩
    rw [Pool.malloc, if_neg h0, if_pos hneg]
    intro fuel
    rw [sf_malloc, sf_malloc_body, if_neg h0, if_pos hneg]
    exact .run (modify_apply _ s) (.ret ⟨rfl, R.set_errno ENOMEM⟩)
  | false =>
    have hb := blockSize_spec size
    obtain ⟨stale, hs⟩ := R.search_ends hbusy hb.1 hb.2.1 (R.mapped_globalEnd hend)
    cases hserve : g.serve (blockSize size) stale with
    | some q =>
      obtain ⟨p, g'⟩ := q
      rw [hserve] at hs
      refine ⟨stale, ?_⟩
      rw [Pool.malloc, if_neg h0, hneg, hserve]
      intro fuel
      unfold Ends
      rw [sf_malloc, R.malloc_body h0 hneg, sf_malloc_main,
        sf_malloc_round_eq (intNeg_of_large hneg hn)]
      refine hs.step fun r s' hr => ?_
      obtain ⟨rfl, R'⟩ := hr
      exact .ret ⟨rfl, R'⟩
    | none =>
      -- no block serves: the heap grows, and `sf_malloc` calls itself if it has grown
      have hU := (Pool.serve_none _).mp hserve
      obtain ⟨h, L, hone⟩ := hG h0 hneg hU
      obtain ⟨hkept, hstuck⟩ := Pool.grow_outcome R.shape hbusy ⟨h, L, hone⟩ hneg
      obtain ⟨r, s1, he, rfl, R1⟩ := R.grow_ends L hneg fun hal => Pool.Growable.one (hone hal)
      have hrun : ∀ fuel, sf_malloc e (fuel + 1) size s =
          if (g.grow e size).1 then sf_malloc e fuel size s1 else .ok (NULL, s1) := by
        intro fuel
        rw [sf_malloc, R.malloc_body h0 hneg, R.malloc_unserved hn hneg hbusy hend hU, bind_ok he]
        split <;> rfl
      cases hg : (g.grow e size).1 with
      | false =>
        refine ⟨true, ?_⟩
        rw [Pool.malloc, if_neg h0, hneg, (Pool.serve_none _).mpr hU, hg]
        intro fuel
        refine .of_eq ?_ ⟨rfl, R1⟩
        rw [hrun, hg]
        rfl
      | true =>
        obtain ⟨stale, hs1⟩ := R1.search_ends (hkept.busy.trans hbusy) hb.1 hb.2.1
          (R1.mapped_globalEnd (hkept.endInside hend))
        refine ⟨stale, ?_⟩
        rw [Pool.malloc, if_neg h0, hneg, (Pool.serve_none _).mpr hU, hg]
        simp only [Bool.false_eq_true, if_false, if_true]
        -- the inner call serves from the page that came, or grows the heap without end
        cases hserve1 : (g.grow e size).2.serve (blockSize size) stale with
        | none =>
          have K := hstuck hg ((Pool.serve_none _).mp hserve1)
          intro fuel
          cases fuel with
          | zero => rfl
          | succ fuel =>
            rw [hrun, hg, if_pos rfl]
            exact R1.stuck_diverges h0 hn hneg (hkept.endInside hend) K fuel
        | some q =>
          obtain ⟨p, g'⟩ := q
          rw [hserve1] at hs1
          intro fuel
          unfold Ends
          rw [hrun, hg, if_pos rfl, sf_malloc, R1.malloc_body h0 hneg, sf_malloc_main,
            sf_malloc_round_eq (intNeg_of_large hneg hn)]
          refine hs1.step fun r s' hr => ?_
          obtain ⟨rfl, R'⟩ := hr
          exact .ret ⟨rfl, R'⟩

end Represents

end StarterProjects.Sfmm
