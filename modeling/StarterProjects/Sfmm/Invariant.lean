import StarterProjects.Sfmm.Settle

/-!
# `sf_malloc` keeps the invariant

Every step of `Pool.malloc` leads from a pool that satisfies `Inv` to one that
does, and gives out a block that was not in use; no other block comes into use
or goes out of use.
-/

namespace StarterProjects.Sfmm

open Lib

namespace Pool

/-- The same blocks are in use, with the same headers. -/
def SameUsed (g g' : Pool) : Prop := ∀ b h, g'.Used b h ↔ g.Used b h

/-- The block at `a` comes into use, with at least `m` bytes, and no other. -/
structure Gives (g g' : Pool) (a m : Nat) : Prop where
  fresh : ∀ h, ¬ g.Used a h
  used : ∃ h, g'.Used a h ∧ m ≤ h.size
  others : ∀ b h, b ≠ a → (g'.Used b h ↔ g.Used b h)

theorem SameUsed.refl (g : Pool) : SameUsed g g := fun _ _ => Iff.rfl

theorem SameUsed.trans {g g' g'' : Pool} (h : SameUsed g g') (h' : SameUsed g' g'') :
    SameUsed g g'' := fun b k => (h' b k).trans (h b k)

theorem SameUsed.gives {g g' g'' : Pool} {a m : Nat} (h : SameUsed g g') (h' : Gives g' g'' a m) :
    Gives g g'' a m where
  fresh := fun k hk => h'.fresh k ((h a k).mpr hk)
  used := h'.used
  others := fun b k hb => (h'.others b k hb).trans (h b k)

variable {e : Env} {g : Pool}

/-! ## The quick lists -/

theorem Shape.set_quick (S : g.Shape e) {i : Nat} {l : List Nat}
    (hmem : ∀ b ∈ l, ∃ h, g.hdr b = some h ∧ h.alloc = true ∧ h.size = 32 + 16 * i)
    (hnd : l.Nodup) : (g.setQuick i l).Shape e :=
  { S with
    quick_mem := by
      intro j b hj hb
      simp only [setQuick_quick] at hb
      split at hb
      · rename_i hji
        rw [hji]
        exact hmem b hb
      · exact S.quick_mem hj hb
    quick_nodup := by
      intro j hj
      simp only [setQuick_quick]
      split
      · exact hnd
      · exact S.quick_nodup j hj }

theorem Inv.set_quick (I : g.Inv e) {i : Nat} {l : List Nat}
    (hmem : ∀ b ∈ l, ∃ h, g.hdr b = some h ∧ h.alloc = true ∧ h.size = 32 + 16 * i)
    (hnd : l.Nodup) (hlen : l.length ≤ QUICK_LIST_MAX) : (g.setQuick i l).Inv e :=
  { I.toShape.set_quick hmem hnd with
    tiles := I.tiles
    pending := fun _ ha => absurd ha List.not_mem_nil
    listed := I.listed
    quick_len := by
      intro j hj
      simp only [setQuick_quick]
      split
      · exact hlen
      · exact I.quick_len j hj
    coalesced := I.coalesced
    footed := I.footed
    end_inside := I.end_inside
    idle := I.idle }

theorem Inv.pop (I : g.Inv e) {i a : Nat} {l : List Nat} (hi : i < 10) (hq : g.quick i = a :: l) :
    (g.setQuick i l).Inv e ∧ Gives g (g.setQuick i l) a (32 + 16 * i) := by
  have hsub : ∀ b ∈ l, b ∈ g.quick i := fun b hb => hq ▸ List.mem_cons_of_mem _ hb
  have hnd := I.quick_nodup i hi
  rw [hq] at hnd
  have hlen := I.quick_len i hi
  rw [hq] at hlen
  have ha : a ∈ g.quick i := hq ▸ List.mem_cons_self
  obtain ⟨h, hh, hal, hsz⟩ := I.quick_mem hi ha
  refine ⟨I.set_quick (fun b hb => I.quick_mem hi (hsub b hb)) (List.nodup_cons.mp hnd).2
    (by simp only [List.length_cons] at hlen; omega), ?_, ⟨h, ⟨hh, hal, ?_⟩, by omega⟩, ?_⟩
  · exact fun k hk => hk.2.2 i hi ha
  · intro j hj
    simp only [setQuick_quick]
    split
    · exact (List.nodup_cons.mp hnd).1
    · rename_i hji
      intro hc
      obtain ⟨k, hk, _, hks⟩ := I.quick_mem hj hc
      rw [hh] at hk
      cases hk
      omega
  · intro b k hb
    refine and_congr Iff.rfl (and_congr Iff.rfl (forall_congr' fun j => forall_congr' fun hj => ?_))
    simp only [setQuick_quick]
    split
    · rename_i hji
      rw [hji, hq, List.mem_cons]
      simp [hb]
    · exact Iff.rfl

/-! ## Allocation in a free block -/

/-- A free block of an idle pool has neither a pending nor a free neighbour, and
it has its footer. -/
theorem Inv.footer (I : g.Inv e) {a : Nat} {h : Hdr} (ha : g.hdr a = some h)
    (hal : h.alloc = false) : ∃ w, g.known (a + h.size) = some w ∧ unflag w = h.size :=
  (I.footed ha hal).resolve_right fun hc => nomatch hc.1

theorem Inv.next_alloc (I : g.Inv e) {a : Nat} {h k : Hdr} (ha : g.hdr a = some h)
    (hal : h.alloc = false) (hk : g.hdr (a + h.size) = some k) : k.alloc = true := by
  cases hkal : k.alloc with
  | true => rfl
  | false => exact nomatch (I.coalesced ha hk hal hkal)

theorem Inv.prev_alloc (I : g.Inv e) {a : Nat} {h k : Hdr} (ha : g.hdr a = some h)
    (hk : g.hdr (a + h.size) = some k) (hkal : k.alloc = false) : h.alloc = true := by
  cases hal : h.alloc with
  | true => rfl
  | false => exact nomatch (I.coalesced ha hk hal hkal)

theorem Shape.raiseEnd (S : g.Shape e) (b : Nat) : (g.raiseEnd b).Shape e := { S with }

theorem raiseEnd_inside {b : Nat} (hin : EndInside e g) (h1 : e.sf_mem_start ≤ b)
    (h2 : b % 16 = 0) (h3 : b + 32 ≤ g.memEnd) : EndInside e (g.raiseEnd b) := by
  unfold EndInside raiseEnd at *
  simp only [setGlobalEnd_globalEnd, setGlobalEnd_memEnd]
  split
  · exact ⟨h1, h2, h3⟩
  · exact hin

theorem exact_eq {a : Nat} {h : Hdr} (ha : g.hdr a = some h) (stale : Bool) :
    g.exact a stale =
      ((g.erase a).allot a ⟨h.size, true, h.prev || g.endAlloc stale⟩).raiseEnd a := by
  rw [exact, ha]

theorem exact_hdr {a : Nat} {h : Hdr} (ha : g.hdr a = some h) (stale : Bool) (x : Nat) :
    (g.exact a stale).hdr x =
      if x = a then some ⟨h.size, true, h.prev || g.endAlloc stale⟩ else g.hdr x := by
  rw [exact_eq ha]
  rfl

/-- A block that is not the one in hand is used as before. -/
theorem used_congr {g' : Pool} {b : Nat} {k : Hdr} (hq : g'.quick = g.quick)
    (hh : g'.hdr b = g.hdr b) : g'.Used b k ↔ g.Used b k := by
  unfold Used
  rw [hq, hh]

/-- The other blocks are the old ones. -/
theorem exact_old {a x : Nat} {h k : Hdr} {stale : Bool} (ha : g.hdr a = some h)
    (hx : (g.exact a stale).hdr x = some k) :
    ∃ l, g.hdr x = some l ∧ l.size = k.size ∧ (k.alloc = false → x ≠ a ∧ l = k) := by
  rw [exact_hdr ha] at hx
  split at hx
  · rename_i hxa
    cases hx
    exact ⟨h, hxa ▸ ha, rfl, fun hc => by cases hc⟩
  · exact ⟨k, hx, rfl, fun _ => ⟨‹_›, rfl⟩⟩

theorem Shape.exact (S : g.Shape e) {a : Nat} {h : Hdr} (ha : g.hdr a = some h)
    (hal : h.alloc = false) (stale : Bool) : (g.exact a stale).Shape e := by
  rw [exact_eq ha]
  exact ((S.erase a).allot (a := a) (f := ⟨h.size, true, h.prev || g.endAlloc stale⟩) ha hal rfl
    fun j hj => S.not_mem_erase hj).raiseEnd a

theorem Inv.exact_footer (I : g.Inv e) {a x : Nat} {h k : Hdr} {stale : Bool}
    (ha : g.hdr a = some h) (hx : (g.exact a stale).hdr x = some k) (hkal : k.alloc = false) :
    ∃ w, (g.exact a stale).known (x + k.size) = some w ∧ unflag w = k.size := by
  have S := I.toShape
  obtain ⟨k', hk', _, h2⟩ := exact_old ha hx
  obtain ⟨hxa, rfl⟩ := h2 hkal
  obtain ⟨w, hw, hun⟩ := I.footer hk' hkal
  refine ⟨w, ?_, hun⟩
  have h3 := (S.cases_apart hk' ha).resolve_left hxa
  have h4 := S.inside hk'
  rw [exact_eq ha]
  -- only what is known inside the block that is handed out is given up
  change (if a + 16 ≤ x + k'.size ∧ x + k'.size ≤ a + h.size then none else g.known _) = _
  rw [if_neg (by omega)]
  exact hw

theorem Inv.exact_gives (I : g.Inv e) {a m : Nat} {h : Hdr}
    (ha : g.hdr a = some h) (hal : h.alloc = false) (hle : m ≤ h.size) (stale : Bool) :
    Gives g (g.exact a stale) a m := by
  have S := I.toShape
  have hhdr := exact_hdr ha stale
  refine ⟨?_, ⟨_, ⟨(hhdr a).trans (if_pos rfl), rfl, ?_⟩, hle⟩, ?_⟩
  · intro k hk
    rw [Used, ha] at hk
    cases hk.1
    rw [hal] at hk
    cases hk.2.1
  · intro j hj
    rw [exact_eq ha]
    exact S.not_quick_of_free ha hal hj
  · intro b k hb
    refine used_congr (by rw [exact_eq ha]; rfl) ?_
    rw [hhdr, if_neg hb]

theorem Inv.exact (I : g.Inv e) {a m : Nat} {h : Hdr}
    (ha : g.hdr a = some h) (hal : h.alloc = false) (hle : m ≤ h.size) (stale : Bool) :
    (g.exact a stale).Inv e ∧ Gives g (g.exact a stale) a m := by
  have S := I.toShape
  have h1 := S.inside ha
  have hme : (g.exact a stale).memEnd = g.memEnd := by
    rw [exact_eq ha]
    rfl
  refine ⟨{ S.exact ha hal stale with
    tiles := ?_
    pending := fun _ ha => absurd ha List.not_mem_nil
    listed := ?_
    quick_len := ?_
    coalesced := ?_
    footed := fun hx hkal => .inl (I.exact_footer ha hx hkal)
    end_inside := ?_
    idle := ?_ }, I.exact_gives ha hal hle stale⟩
  · rw [hme]
    refine I.tiles.congr fun x => ?_
    unfold sizes
    rw [exact_hdr ha]
    split
    · rename_i hxa
      rw [hxa, ha]
      rfl
    · rfl
  · intro x k hx hkal _
    obtain ⟨l, hl, _, h2⟩ := exact_old ha hx
    obtain ⟨hxa, rfl⟩ := h2 hkal
    have h3 := I.listed hl hkal (List.not_mem_nil)
    rw [exact_eq ha]
    exact (List.mem_erase_of_ne hxa).mpr h3
  · intro j hj
    rw [exact_eq ha]
    exact I.quick_len j hj
  · intro x k l hx hl hkal hlal
    obtain ⟨k', hk', _, h2⟩ := exact_old ha hx
    obtain ⟨l', hl', _, h3⟩ := exact_old ha hl
    obtain ⟨_, rfl⟩ := h2 hkal
    obtain ⟨_, rfl⟩ := h3 hlal
    exact I.coalesced hk' hl' hkal hlal
  · rw [exact_eq ha]
    exact raiseEnd_inside I.end_inside h1.1 h1.2.1 (by simp; omega)
  · rw [exact_eq ha]
    exact I.idle

/-- The blocks after a split. -/
theorem split_hdr {a m : Nat} {h : Hdr} (ha : g.hdr a = some h) (x : Nat) :
    (g.split a m).hdr x =
      if x = a then some ⟨m, true, true⟩
      else if x = a + m then some ⟨h.size - m, false, true⟩ else g.hdr x := by
  rw [split, sizeOf_of_hdr ha]
  change (if x = a then _ else if x = a + m then _ else if x = a then none else g.hdr x) = _
  split
  · rfl
  · split
    · rfl
    · rfl

theorem split_known {a m : Nat} {h : Hdr} (ha : g.hdr a = some h) (x : Nat) :
    (g.split a m).known x =
      if a < x ∧ x < a + m + 32 then none
      else if x = a + h.size then some (Hdr.mk (h.size - m) false true).word
      else if x = a + m then none
      else if x = a + m + 8 then some (Hdr.mk (h.size - m) false true).word else g.known x := by
  rw [split, sizeOf_of_hdr ha]
  rfl

theorem split_free {a m : Nat} {h : Hdr} (ha : g.hdr a = some h) (i : Nat) :
    (g.split a m).free i =
      if i = freeIndex (h.size - m) then (a + m) :: (g.free i).erase a else (g.free i).erase a := by
  rw [split, sizeOf_of_hdr ha]
  rfl

/-- A block of the pool after a split is one of the two parts, or an old block
elsewhere. -/
theorem split_cases (S : g.Shape e) {a m x : Nat} {h k : Hdr} (ha : g.hdr a = some h)
    (hx : (g.split a m).hdr x = some k) :
    (x = a ∧ k = ⟨m, true, true⟩) ∨ (x = a + m ∧ k = ⟨h.size - m, false, true⟩) ∨
      (x ≠ a ∧ x ≠ a + m ∧ g.hdr x = some k ∧ (x + k.size ≤ a ∨ a + h.size ≤ x)) := by
  rw [split_hdr ha] at hx
  split at hx
  · cases hx
    exact .inl ⟨‹_›, rfl⟩
  · rename_i hxa
    split at hx
    · cases hx
      exact .inr (.inl ⟨‹_›, rfl⟩)
    · exact .inr (.inr ⟨hxa, ‹_›, hx, (S.cases_apart hx ha).resolve_left hxa⟩)

theorem Shape.split (S : g.Shape e) {a m : Nat} {h : Hdr} (ha : g.hdr a = some h)
    (hal : h.alloc = false) (h32 : 32 ≤ m) (h16 : m % 16 = 0) (hrest : m + 32 ≤ h.size) :
    (g.split a m).Shape e := by
  have h1 := S.inside ha
  rw [Pool.split, sizeOf_of_hdr ha]
  generalize (Hdr.mk (h.size - m) false true).word = w
  have S1 := ((S.note (c := a + m + 8) (w := w) ⟨a, h, ha, hal, by omega, by omega⟩).spoil
    (a + m)).note (c := a + h.size) (w := w) ⟨a, h, ha, hal, by omega, by omega⟩
  have S2 := (S1.erase a).carve (a := a) (m := m) ha (fun i hi => S1.not_mem_erase hi)
    (fun i hi => S1.not_quick_of_free ha hal hi) h32 h16 hrest
  have S3 := S2.put (b := a + m) (h := ⟨h.size - m, false, true⟩) (by simp) rfl fun i hi hc =>
    S.interior_not_free ha (by omega) (by omega) hi (List.mem_of_mem_erase hc)
  refine (S3.appear (a := a) (h := ⟨m, true, true⟩) (by simp; omega)
    ⟨h1.1, h1.2.1, h32, h16, by simp; omega⟩ fun b k hb => ?_).raiseEnd (a + m)
  simp only [put_hdr, carve_hdr] at hb
  split at hb
  · exact .inr (by dsimp only; omega)
  · split at hb
    · cases hb
    · have h3 := (S.cases_apart hb ha).resolve_left ‹_›
      dsimp only
      omega

/-- Both parts of the split have an allocated block next to them. -/
theorem Inv.split_coalesced (I : g.Inv e) {a m x : Nat} {h k l : Hdr} (ha : g.hdr a = some h)
    (hal : h.alloc = false) (h32 : 32 ≤ m) (hrest : m + 32 ≤ h.size)
    (hx : (g.split a m).hdr x = some k) (hl : (g.split a m).hdr (x + k.size) = some l)
    (hkal : k.alloc = false) : l.alloc = true := by
  have S := I.toShape
  cases hlal : l.alloc with
  | true => rfl
  | false =>
    rcases split_cases S ha hx with ⟨_, rfl⟩ | ⟨rfl, rfl⟩ | ⟨hxa, hxm, hx, h2⟩
    · cases hkal
    · -- the block after the free block is allocated
      rcases split_cases S ha hl with ⟨_, rfl⟩ | ⟨h3, rfl⟩ | ⟨_, _, hl, _⟩
      · cases hlal
      · dsimp only at h3
        omega
      · dsimp only at hl
        rw [show a + m + (h.size - m) = a + h.size by omega] at hl
        rw [I.next_alloc ha hal hl] at hlal
        cases hlal
    · rcases split_cases S ha hl with ⟨_, rfl⟩ | ⟨h3, _⟩ | ⟨_, _, hl, _⟩
      · cases hlal
      · have h4 := S.inside hx
        omega
      · exact absurd (I.coalesced hx hl hkal hlal) (by simp)

theorem Inv.split_footer (I : g.Inv e) {a m x : Nat} {h k : Hdr} (ha : g.hdr a = some h)
    (h32 : 32 ≤ m) (hrest : m + 32 ≤ h.size) (h16 : m % 16 = 0)
    (hx : (g.split a m).hdr x = some k) (hkal : k.alloc = false) :
    ∃ w, (g.split a m).known (x + k.size) = some w ∧ unflag w = k.size := by
  have S := I.toShape
  have h1 := S.inside ha
  rw [split_known ha]
  rcases split_cases S ha hx with ⟨_, rfl⟩ | ⟨rfl, rfl⟩ | ⟨hxa, hxm, hx, h2⟩
  · cases hkal
  · dsimp only
    rw [if_neg (by omega), if_pos (by omega)]
    exact ⟨_, rfl, Hdr.unflag_word (by dsimp only; omega)⟩
  · have h4 := S.inside hx
    rw [if_neg (by omega), if_neg (by omega), if_neg (by omega), if_neg (by omega)]
    exact I.footer hx hkal

theorem split_used (S : g.Shape e) {a m b : Nat} {h k : Hdr} (ha : g.hdr a = some h)
    (h32 : 32 ≤ m) (hrest : m + 32 ≤ h.size) (hb : b ≠ a) :
    (g.split a m).Used b k ↔ g.Used b k := by
  have hmid : g.hdr (a + m) = none := S.interior ha (by omega) (by omega)
  unfold Used
  rw [split_hdr ha, if_neg hb]
  split
  · rename_i hbm
    rw [hbm, hmid]
    constructor
    · rintro ⟨h2, h3, _⟩
      cases h2
      cases h3
    · rintro ⟨h2, _⟩
      cases h2
  · rfl

theorem Inv.split (I : g.Inv e) {a m : Nat} {h : Hdr} (ha : g.hdr a = some h)
    (hal : h.alloc = false) (h32 : 32 ≤ m) (h16 : m % 16 = 0) (hrest : m + 32 ≤ h.size) :
    (g.split a m).Inv e ∧ Gives g (g.split a m) a m := by
  have S := I.toShape
  have h1 := S.inside ha
  refine ⟨{ S.split ha hal h32 h16 hrest with
    tiles := ?_
    pending := fun _ ha => absurd ha List.not_mem_nil
    listed := ?_
    quick_len := I.quick_len
    coalesced := fun hx hl hkal hlal => by
      rw [I.split_coalesced ha hal h32 hrest hx hl hkal] at hlal
      cases hlal
    footed := fun hx hkal => .inl (I.split_footer ha h32 hrest h16 hx hkal)
    end_inside := ?_
    idle := I.idle }, ?_, ⟨_, ⟨(split_hdr ha a).trans (if_pos rfl), rfl, ?_⟩, Nat.le_refl m⟩,
    fun b k hb => split_used S ha h32 hrest hb⟩
  · have hT := I.tiles.split (sizes_of_hdr ha) (m := m) (by omega) (by omega)
    refine hT.congr fun x => ?_
    unfold sizes
    rw [split_hdr ha]
    split
    · rw [if_neg (by omega)]
      rfl
    · split <;> rfl
  · intro x k hx hkal _
    rw [split_free ha]
    rcases split_cases S ha hx with ⟨_, rfl⟩ | ⟨rfl, rfl⟩ | ⟨hxa, _, hx, _⟩
    · cases hkal
    · rw [if_pos rfl]
      exact List.mem_cons_self
    · have h3 := (List.mem_erase_of_ne hxa).mpr (I.listed hx hkal List.not_mem_nil)
      split
      · exact List.mem_cons_of_mem _ h3
      · exact h3
  · exact raiseEnd_inside (g := _) I.end_inside (by omega) (by omega) (by
      change a + m + 32 ≤ g.memEnd
      omega)
  · intro k hk
    rw [Used, ha] at hk
    cases hk.1
    rw [hal] at hk
    cases hk.2.1
  · exact fun j hj => S.not_quick_of_free ha hal hj

theorem Inv.place (I : g.Inv e) {a i m : Nat} (hi : i < 10) (hm : a ∈ g.free i) (h32 : 32 ≤ m)
    (h16 : m % 16 = 0) (hfit : m ≤ g.sizeOf a) (stale : Bool) :
    (g.place a m stale).Inv e ∧ Gives g (g.place a m stale) a m := by
  obtain ⟨h, ha, hal, _⟩ := I.free_mem hi hm
  rw [sizeOf_of_hdr ha] at hfit
  unfold Pool.place
  rw [sizeOf_of_hdr ha]
  split
  · exact I.split ha hal h32 h16 (by omega)
  · exact I.exact ha hal hfit stale

/-- A request served from the lists. -/
theorem Inv.serve (I : g.Inv e) {m p : Nat} {stale : Bool} {g' : Pool} (h32 : 32 ≤ m)
    (h16 : m % 16 = 0) (h : g.serve m stale = some (p, g')) :
    g'.Inv e ∧ ∃ a, p = nextOf a ∧ Gives g g' a m := by
  unfold Pool.serve at h
  split at h
  · rename_i i hq
    cases h
    obtain ⟨hi, ⟨a, l, hal⟩, rfl⟩ := quickHit_some hq
    rw [hal]
    obtain ⟨h1, h2⟩ := I.pop hi hal
    exact ⟨h1, a, rfl, h2⟩
  · split at h
    · rename_i a hf
      cases h
      obtain ⟨⟨i, hi, hm⟩, hle⟩ := fit_some hf
      obtain ⟨h1, h2⟩ := I.place hi hm h32 h16 hle stale
      exact ⟨h1, a, rfl, h2⟩
    · cases h

/-! ## Growth -/

/-- Words that are no footers of free blocks may change, and a footer may be
written again. -/
theorem Inv.rewrite (I : g.Inv e) {g' : Pool} (S : g'.Shape e)
    (hg : g' = { g with known := g'.known, touched := g'.touched })
    (hk : ∀ a h, g.hdr a = some h → h.alloc = false →
      ∃ w, g'.known (a + h.size) = some w ∧ unflag w = h.size) :
    g'.Inv e ∧ SameUsed g g' := by
  have hhdr : g'.hdr = g.hdr := by rw [hg]
  have hquick : g'.quick = g.quick := by rw [hg]
  have hfree : g'.free = g.free := by rw [hg]
  have hend : g'.memEnd = g.memEnd := by rw [hg]
  have hglob : g'.globalEnd = g.globalEnd := by rw [hg]
  refine ⟨{ S with
    tiles := ?_
    pending := fun _ ha => absurd ha List.not_mem_nil
    listed := ?_
    quick_len := ?_
    coalesced := ?_
    footed := ?_
    end_inside := ?_
    idle := ?_ }, fun b k => used_congr hquick (by rw [hhdr])⟩
  · rw [hend, show g'.sizes = g.sizes by unfold sizes; rw [hhdr]]
    exact I.tiles
  · intro a h ha hal hn
    rw [hfree]
    exact I.listed (hhdr ▸ ha) hal hn
  · intro i hi
    rw [hquick]
    exact I.quick_len i hi
  · intro a h k ha hb hal hkal
    rw [hhdr] at ha hb
    exact I.coalesced ha hb hal hkal
  · intro a h ha hal
    exact .inl (hk a h (hhdr ▸ ha) hal)
  · have := I.end_inside
    unfold EndInside at *
    rw [hend, hglob]
    exact this
  · rw [hg]
    exact I.idle

theorem Inv.refused (I : g.Inv e) : g.refused.Inv e ∧ SameUsed g g.refused :=
  ⟨{ I with }, SameUsed.refl g⟩

theorem Inv.setErrno (I : g.Inv e) (n : Nat) : (g.setErrno n).Inv e ∧ SameUsed g (g.setErrno n) :=
  ⟨{ I with }, SameUsed.refl g⟩

/-- Free blocks that are fused were not in use. -/
theorem makeFree_sameUsed {g' : Pool} {b size : Nat} {drop : List Nat} (hhdr : g'.hdr = g.hdr)
    (hquick : g'.quick = g.quick)
    (hfree : ∀ y, y = b ∨ y ∈ drop → ∃ k, g.hdr y = some k ∧ k.alloc = false) :
    SameUsed g (g'.makeFree b size drop) := by
  intro a k
  have hnot : a = b ∨ a ∈ drop → ¬ g.Used a k := by
    intro ha hu
    obtain ⟨l, hl, hlal⟩ := hfree a ha
    rw [Used, hl] at hu
    cases hu.1
    rw [hlal] at hu
    cases hu.2.1
  by_cases ha : a = b ∨ a ∈ drop
  · refine iff_of_false ?_ (hnot ha)
    rintro ⟨h1, h2, _⟩
    rw [makeFree_hdr] at h1
    split at h1
    · cases h1
      cases h2
    · rw [if_pos (ha.resolve_left ‹_›)] at h1
      cases h1
  · simp only [not_or] at ha
    refine used_congr hquick ?_
    rw [makeFree_hdr, if_neg ha.1, if_neg ha.2, hhdr]

/-- A page that is merged into the free last block: `g'` is the pool with that block
off its list and the page in the heap. -/
structure PageJoined (e : Env) (g : Pool) (t m : Nat) (h : Hdr) (g' : Pool) : Prop where
  last : g.Last t h
  free : h.alloc = false
  eq : Pool.pageMerged t m g.grown = g'.makeFree t (h.size + PAGE_SZ) []
  erased : Erased g g' [t]
  shape : g'.Shape e
  fusable : g'.Fusable e t (h.size + PAGE_SZ) []
  memEnd : g'.memEnd = g.memEnd + PAGE_SZ
  busy : g'.busy = g.busy

theorem FreeTail.joined {t m T : Nat} (F : g.FreeTail t m T) (S : g.Shape e)
    (hc : g.canGrow e = true) : ∃ h g', PageJoined e g t m h g' := by
  obtain ⟨h, L, hal, hle⟩ := F.tail
  have hsz : g.grown.sizeOf t = h.size := sizeOf_of_hdr L.hdr
  have h1 := S.inside L.hdr
  have h2 := L.ends
  have h3 := F.start
  have h4 := F.room
  have h5 := F.aligned
  have habove := fun b k hb => L.above S (b := b) (k := k) hb
  have hP : PAGE_SZ = 4096 := rfl
  obtain ⟨g', hg'⟩ : ∃ g', g' = (((g.grown.spoil (m + 8)).spoil (m + PAGE_SZ)).erase m).erase t :=
    ⟨_, rfl⟩
  have S0 := ((S.grown hc).spoil (m + 8)).spoil (m + PAGE_SZ)
  have S' : g'.Shape e := hg' ▸ (S0.erase m).erase t
  have hmem : g'.memEnd = g.memEnd + PAGE_SZ := by rw [hg']; rfl
  have E : Erased g g' [t] := by
    refine ⟨by rw [hg']; rfl, by rw [hg']; rfl, by rw [hg']; rfl, by omega, ?_, ?_, ?_⟩
    · intro a k ha hkal hn
      rw [List.mem_singleton] at hn
      have h6 := (habove a k ha).1
      have h7 := S.cases_apart ha L.hdr
      have h8 := S.inside ha
      rw [hg']
      simp only [erase_known, spoil_known, grown_known]
      rw [if_neg (by omega), if_neg (by omega)]
    · intro i hi y hy hn
      rw [List.mem_singleton] at hn
      -- no block starts at the new page yet
      have hym : y ≠ m := by
        rintro rfl
        obtain ⟨k, hk, _⟩ := S.free_mem hi hy
        have h6 := (habove y k hk).1
        omega
      rw [hg']
      exact (List.mem_erase_of_ne hn).mpr ((List.mem_erase_of_ne hym).mpr hy)
    · intro i y hy
      rw [hg'] at hy
      exact List.mem_of_mem_erase (List.mem_of_mem_erase hy)
  refine ⟨h, g', L, hal, by rw [Pool.pageMerged, hsz, hg'], E, S',
  { start := ⟨h, by rw [E.hdr]; exact L.hdr, hal, by omega⟩
    not_mem := List.not_mem_nil
    aligned := by omega
    inside := by omega
    swallows := fun _ hd => absurd hd List.not_mem_nil
    covers := ?_
    unlisted := fun i hi => ⟨by rw [hg']; exact (S0.erase m).not_mem_erase hi,
      fun _ hd => absurd hd List.not_mem_nil⟩ }, hmem, by rw [hg']; rfl⟩
  intro y k hy hyt _
  rw [E.hdr] at hy
  have h6 := habove y k hy
  have h7 := S.cases_apart hy L.hdr
  have h8 := S.inside hy
  omega

theorem Inv.pageMerged (I : g.Inv e) {t m T : Nat} (F : g.FreeTail t m T)
    (hc : g.canGrow e = true) :
    (pageMerged t m g.grown).Inv e ∧ SameUsed g (pageMerged t m g.grown) := by
  obtain ⟨h, g', J⟩ := F.joined I.toShape hc
  have L := J.last
  have h1 := I.inside L.hdr
  have h2 := L.ends
  have hP : PAGE_SZ = 4096 := rfl
  have hset : (g'.makeFree t (h.size + PAGE_SZ) []).Settling e [] :=
    (Absorbs.mk I.toSettling J.erased J.fusable (fun y hy => .inl (List.mem_singleton.mp hy))
      (fun _ hd => absurd hd List.not_mem_nil) (fun _ hd => absurd hd List.not_mem_nil)
      ?_ ?_).makeFree J.shape ?_
  · rw [J.eq]
    refine ⟨{ hset with idle := J.busy.trans I.idle }, makeFree_sameUsed J.erased.hdr
      J.erased.quick fun y hy => ⟨h, ?_, J.free⟩⟩
    rw [hy.resolve_right List.not_mem_nil]
    exact L.hdr
  · intro a k ha hkal hat
    rw [I.prev_alloc ha (hat ▸ L.hdr) J.free] at hkal
    cases hkal
  · intro k hk _
    have h6 := I.inside hk
    omega
  · have hT := I.tiles.extend (sizes_of_hdr L.hdr) (by omega) PAGE_SZ
    rw [J.memEnd, show g.memEnd + PAGE_SZ - 16 = g.memEnd - 16 + PAGE_SZ by omega]
    refine hT.congr fun x => ?_
    rw [fuse_sizes, if_neg List.not_mem_nil]
    unfold sizes
    rw [J.erased.hdr]

theorem pageBehind_hdr (m x : Nat) : (pageBehind m g.grown).hdr x =
    if x = m then some ⟨PAGE_SZ, false, false⟩ else g.hdr x := rfl

theorem pageBehind_cases {m x : Nat} {k : Hdr} (hx : (pageBehind m g.grown).hdr x = some k) :
    (x = m ∧ k = ⟨PAGE_SZ, false, false⟩) ∨ (x ≠ m ∧ g.hdr x = some k) := by
  rw [pageBehind_hdr] at hx
  split at hx
  · cases hx
    exact .inl ⟨‹_›, rfl⟩
  · exact .inr ⟨‹_›, hx⟩

/-- The page behind an allocated last block starts where no block has started before. -/
theorem Last.fresh {t m : Nat} {h : Hdr} (L : g.Last t h) (S : g.Shape e) (hm : t + h.size = m) :
    g.hdr m = none := by
  have h1 := L.ends
  cases hk : g.hdr m with
  | none => rfl
  | some k =>
    have h2 := S.inside hk
    have h3 := (L.above S hk).2
    omega

theorem Shape.pageBehind (S : g.Shape e) {t m : Nat} {h : Hdr} (L : g.Last t h)
    (hm : t + h.size = m) (hc : g.canGrow e = true) : (pageBehind m g.grown).Shape e := by
  have h1 := S.inside L.hdr
  have h2 := L.ends
  have hP : PAGE_SZ = 4096 := rfl
  have hnone := L.fresh S hm
  have S1 := (S.grown hc).appear (a := m) (h := ⟨PAGE_SZ, false, false⟩) hnone
    ⟨by omega, by omega, by decide, rfl, by simp only [grown_memEnd]; omega⟩
    fun b k hb => .inl (by have := (L.above S hb).2; omega)
  have S2 := S1.note (c := m + PAGE_SZ) (w := (Hdr.mk PAGE_SZ false false).word)
    ⟨m, ⟨PAGE_SZ, false, false⟩, by simp, rfl, by omega, Nat.le_refl _⟩
  refine S2.put (b := m) (h := ⟨PAGE_SZ, false, false⟩) (by simp) rfl fun i hi hcon => ?_
  obtain ⟨k, hk, _⟩ := S.free_mem hi hcon
  rw [hnone] at hk
  cases hk

theorem Inv.pageBehind_coalesced (I : g.Inv e) {t m x : Nat} {h k l : Hdr} (L : g.Last t h)
    (hal : h.alloc = true) (hm : t + h.size = m) (hx : (pageBehind m g.grown).hdr x = some k)
    (hl : (pageBehind m g.grown).hdr (x + k.size) = some l) (hkal : k.alloc = false)
    (hlal : l.alloc = false) : x ∈ ([] : List Nat) ∨ x + k.size ∈ ([] : List Nat) := by
  have S := I.toShape
  have h1 := S.inside L.hdr
  have h2 := L.ends
  have hP : PAGE_SZ = 4096 := rfl
  rcases pageBehind_cases hx with ⟨rfl, rfl⟩ | ⟨_, hx⟩
  · rcases pageBehind_cases hl with ⟨h3, rfl⟩ | ⟨_, hl⟩
    · dsimp only at h3
      omega
    · have h4 := (L.above S hl).2
      have h5 := S.inside hl
      dsimp only at h4
      omega
  · rcases pageBehind_cases hl with ⟨h3, rfl⟩ | ⟨_, hl⟩
    · -- only the last block ends where the page starts
      have h4 := S.cases_apart hx L.hdr
      have h5 := S.inside hx
      rcases h4 with rfl | h4 | h4
      · rw [L.hdr] at hx
        cases hx
        rw [hal] at hkal
        cases hkal
      · omega
      · omega
    · exact I.coalesced hx hl hkal hlal

theorem Inv.pageBehind_footer (I : g.Inv e) {t m x : Nat} {h k : Hdr} (L : g.Last t h)
    (hm : t + h.size = m) (hx : (pageBehind m g.grown).hdr x = some k) (hkal : k.alloc = false) :
    ∃ w, (pageBehind m g.grown).known (x + k.size) = some w ∧ unflag w = k.size := by
  have hP : PAGE_SZ = 4096 := rfl
  change ∃ w, (if x + k.size = m + PAGE_SZ then _ else g.known _) = some w ∧ _
  rcases pageBehind_cases hx with ⟨rfl, rfl⟩ | ⟨_, hx⟩
  · rw [if_pos rfl]
    exact ⟨_, rfl, by decide⟩
  · have h4 := (L.above I.toShape hx).2
    rw [if_neg (by omega)]
    exact I.footer hx hkal

theorem pageBehind_used {m : Nat} (hnone : g.hdr m = none) :
    SameUsed g (pageBehind m g.grown) := by
  intro b k
  unfold Used
  rw [pageBehind_hdr]
  split
  · rename_i hbm
    rw [hbm, hnone]
    constructor
    · rintro ⟨h3, h4, _⟩
      cases h3
      cases h4
    · rintro ⟨h3, _⟩
      cases h3
  · rfl

/-- The page behind an allocated last block. -/
theorem Inv.pageBehind (I : g.Inv e) {t m : Nat} {h : Hdr} (L : g.Last t h) (hal : h.alloc = true)
    (hm : t + h.size = m) (hc : g.canGrow e = true) :
    (pageBehind m g.grown).Inv e ∧ SameUsed g (pageBehind m g.grown) := by
  have S := I.toShape
  have h2 := L.ends
  refine ⟨{ S.pageBehind L hm hc with
    tiles := ?_
    pending := fun _ ha => absurd ha List.not_mem_nil
    listed := ?_
    quick_len := I.quick_len
    coalesced := fun hx hl => I.pageBehind_coalesced L hal hm hx hl
    footed := fun hx hkal => .inl (I.pageBehind_footer L hm hx hkal)
    end_inside := ?_
    idle := I.idle }, pageBehind_used (L.fresh S hm)⟩
  · have h1 := S.inside L.hdr
    have hT := I.tiles.snoc (d := PAGE_SZ) (by decide)
    change Tiles _ (g.memEnd + PAGE_SZ - 16) _
    rw [show g.memEnd + PAGE_SZ - 16 = g.memEnd - 16 + PAGE_SZ by omega]
    refine hT.congr fun x => ?_
    unfold sizes
    rw [pageBehind_hdr, show g.memEnd - 16 = m by omega]
    split <;> rfl
  · intro x k hx hkal _
    change x ∈ if freeIndex k.size = freeIndex PAGE_SZ then m :: g.free _ else g.free _
    rcases pageBehind_cases hx with ⟨rfl, rfl⟩ | ⟨_, hx⟩
    · rw [if_pos rfl]
      exact List.mem_cons_self
    · have h3 := I.listed hx hkal List.not_mem_nil
      split
      · exact List.mem_cons_of_mem _ h3
      · exact h3
  · have h3 := I.end_inside
    have hP : PAGE_SZ = 4096 := rfl
    unfold EndInside at *
    change _ ≤ g.globalEnd ∧ g.globalEnd % 16 = 0 ∧ g.globalEnd + 32 ≤ g.memEnd + PAGE_SZ
    omega

theorem Last.size_eq {g : Pool} {t a : Nat} {h k : Hdr} (S : g.Shape e) (L : g.Last t h)
    (ha : g.hdr a = some k) (hak : a + k.size = t + h.size) : a = t := by
  have h1 := S.cases_apart ha L.hdr
  have h2 := S.inside ha
  have h3 := S.inside L.hdr
  omega

/-- Before the first page comes, growth writes the size of a free last block where its
footer is. -/
theorem Inv.tailNoted (I : g.Inv e) {m : Nat} {h : Hdr} (L : g.Last g.globalEnd h)
    (hal : h.alloc = false) (hm : m = g.globalEnd + h.size) :
    ((g.spoil (m + 8)).note m h.size).Inv e ∧ SameUsed g ((g.spoil (m + 8)).note m h.size) := by
  have S := I.toShape
  have h1 := S.inside L.hdr
  have h2 := L.ends
  refine I.rewrite ((S.spoil _).note ⟨_, h, L.hdr, hal, by omega, by omega⟩) rfl ?_
  intro a k ha hkal
  have h3 := S.inside ha
  obtain ⟨w, hw, hun⟩ := I.footer ha hkal
  simp only [note_known, spoil_known]
  by_cases ham : a + k.size = m
  · have hat := Last.size_eq S L ha (by omega)
    subst hat
    rw [L.hdr] at ha
    cases ha
    rw [if_pos ham]
    exact ⟨_, rfl, by unfold unflag; omega⟩
  · rw [if_neg ham, if_neg (by omega)]
    exact ⟨w, hw, hun⟩

/-- Behind an allocated last block there is no footer. -/
theorem Last.no_footer {t a : Nat} {h k : Hdr} (S : g.Shape e) (L : g.Last t h)
    (hal : h.alloc = true) (ha : g.hdr a = some k) (hkal : k.alloc = false) :
    a + k.size ≠ t + h.size := by
  intro ham
  have hat := Last.size_eq S L ha ham
  subst hat
  rw [L.hdr] at ha
  cases ha
  rw [hal] at hkal
  cases hkal

theorem Inv.endSpoiled (I : g.Inv e) {m : Nat} {h : Hdr} (L : g.Last g.globalEnd h)
    (hal : h.alloc = true) (hm : m = g.globalEnd + h.size) :
    ((g.spoil (m + 8)).spoil m).Inv e ∧ SameUsed g ((g.spoil (m + 8)).spoil m) := by
  have S := I.toShape
  have h1 := S.inside L.hdr
  have h2 := L.ends
  refine I.rewrite ((S.spoil _).spoil _) rfl ?_
  intro a k ha hkal
  have h3 := S.inside ha
  have h4 := L.no_footer S hal ha hkal
  simp only [spoil_known]
  rw [if_neg (by omega), if_neg (by omega)]
  exact I.footer ha hkal

theorem Inv.grow (I : g.Inv e) {size : Nat} (hG : g.Growable e size) (hneg : intNeg size = false) :
    (g.grow e size).2.Inv e ∧ SameUsed g (g.grow e size).2 := by
  obtain ⟨h, L, hone⟩ := hG
  have S := I.toShape
  obtain ⟨m, hm⟩ : ∃ m, m = g.globalEnd + h.size := ⟨_, rfl⟩
  cases hal : h.alloc with
  | false =>
    rcases grow_merged size (P := fun g' => g'.Inv e ∧ SameUsed g g') S L hal hm
      (I.tailNoted L hal hm)
      (fun g' hP F hc _ => by
        obtain ⟨h3, h4⟩ := hP.1.pageMerged F hc
        exact ⟨h3, hP.2.trans h4⟩) with ⟨_, hP, _, _⟩ | ⟨_, g', hP, _, _, _, he⟩
    · exact hP
    · rw [he]
      exact ⟨hP.1.refused.1, hP.2⟩
  | true =>
    have h0 := I.endSpoiled L hal hm
    rcases grow_behind (e := e) L.hdr hal hm hneg (Growable.one (hone hal)) with
      ⟨_, he⟩ | ⟨hc, _, he⟩ | ⟨hc, _, he⟩
    · rw [he]
      exact ⟨h0.1.refused.1, h0.2⟩
    · rw [he]
      obtain ⟨h3, h4⟩ := h0.1.pageBehind (t := g.globalEnd) (h := h) ⟨L.hdr, L.ends⟩ hal hm.symm hc
      exact ⟨h3, h0.2.trans h4⟩
    · rw [he]
      obtain ⟨h3, h4⟩ := h0.1.pageBehind (t := g.globalEnd) (h := h) ⟨L.hdr, L.ends⟩ hal hm.symm hc
      exact ⟨h3.refused.1, h0.2.trans h4⟩

/-- `sf_malloc` keeps the invariant; it returns `NULL` and leaves the blocks in
use as they are, or it brings one more block into use. -/
theorem Inv.malloc (I : g.Inv e) {size p : Nat} {stale : Bool} {g' : Pool}
    (hG : size ≠ 0 → intNeg size = false → g.Unserved (blockSize size) → g.Growable e size)
    (h : g.malloc e size stale = some (p, g')) :
    g'.Inv e ∧ (p = NULL ∧ SameUsed g g' ∨ ∃ a, p = nextOf a ∧ Gives g g' a (blockSize size)) := by
  have hb := blockSize_spec size
  unfold Pool.malloc at h
  split at h
  · cases h
    exact ⟨I, .inl ⟨rfl, SameUsed.refl g⟩⟩
  · rename_i h0
    split at h
    · cases h
      exact ⟨(I.setErrno ENOMEM).1, .inl ⟨rfl, SameUsed.refl g⟩⟩
    · rename_i hneg
      rw [Bool.not_eq_true] at hneg
      cases hs : g.serve (blockSize size) stale with
      | some q =>
        rw [hs] at h
        cases h
        obtain ⟨h1, h2⟩ := I.serve hb.1 hb.2.1 hs
        exact ⟨h1, .inr h2⟩
      | none =>
        rw [hs] at h
        obtain ⟨I1, hused⟩ := I.grow (hG h0 hneg ((serve_none _).mp hs)) hneg
        dsimp only at h
        split at h
        · obtain ⟨h1, a, h2, h3⟩ := I1.serve hb.1 hb.2.1 h
          exact ⟨h1, .inr ⟨a, h2, hused.gives h3⟩⟩
        · cases h
          exact ⟨I1, .inl ⟨rfl, hused⟩⟩

/-! ## The first page -/

theorem initial_inv {errno growCalls : Nat} (S : (initial e errno growCalls).Shape e) :
    (initial e errno growCalls).Inv e := by
  have hhdr : ∀ {a h}, (initial e errno growCalls).hdr a = some h →
      a = e.sf_mem_start ∧ h = ⟨4080, false, false⟩ := by
    intro a h ha
    simp only [initial] at ha
    split at ha
    · cases ha
      exact ⟨‹_›, rfl⟩
    · cases ha
  have hsz : (initial e errno growCalls).sizes = fun a =>
      if a = e.sf_mem_start then some 4080 else none := by
    funext a
    unfold sizes initial
    dsimp only
    split <;> rfl
  have hend : (initial e errno growCalls).memEnd - 16 = e.sf_mem_start + 4080 := rfl
  refine { S with
    tiles := ?_
    pending := fun _ ha => absurd ha List.not_mem_nil
    listed := ?_
    quick_len := fun _ _ => Nat.zero_le _
    coalesced := ?_
    footed := ?_
    end_inside := ⟨Nat.le_refl _, e.start_aligned, by
      change e.sf_mem_start + 32 ≤ e.sf_mem_start + 4096
      omega⟩
    idle := rfl }
  · rw [hsz, hend]
    refine ⟨⟨4080, if_pos rfl⟩, ?_, ?_, ?_⟩
    · intro a k ha
      split at ha
      · cases ha
        omega
      · cases ha
    · intro a b k l ha hb hab
      split at ha
      · split at hb
        · omega
        · cases hb
      · cases ha
    · intro a k ha
      split at ha
      · cases ha
        exact .inl (by omega)
      · cases ha
  · intro a h ha _ _
    obtain ⟨rfl, rfl⟩ := hhdr ha
    exact List.mem_cons_self
  · intro a h k ha hk _ _
    obtain ⟨rfl, rfl⟩ := hhdr ha
    obtain ⟨h1, _⟩ := hhdr hk
    dsimp only at h1
    omega
  · intro a h ha _
    obtain ⟨rfl, rfl⟩ := hhdr ha
    refine .inl ⟨(Hdr.mk 4080 false false).word, ?_, Hdr.unflag_word (by decide)⟩
    simp only [initial, if_true]

end Pool

end StarterProjects.Sfmm
