import StarterProjects.Sfmm.Malloc

/-!
# The invariant through coalescing

`sf_coalesce` on a pending block leaves one block fewer pending, provided its
free neighbours are no pending blocks.
-/

namespace StarterProjects.Sfmm

open Lib

namespace Pool

variable {e : Env} {g : Pool}

theorem Fusable.makeFree_shape {b size : Nat} {drop : List Nat} (F : g.Fusable e b size drop)
    (S : g.Shape e) : (g.makeFree b size drop).Shape e := by
  obtain ⟨h, hb, hal, hsz⟩ := F.start
  have h1 := S.inside hb
  have hnew : (g.fuse b size drop).hdr b = some ⟨size, false, true⟩ := by simp
  have S1 := ((F.shape S).spoil b).note (c := b + size) (w := (Hdr.mk size false true).word)
    ⟨b, _, hnew, rfl, by omega, Nat.le_refl _⟩
  exact S1.put (b := b) (h := ⟨size, false, true⟩) hnew rfl fun i hi => (F.unlisted i hi).1

/-- `g'` is `g` with the blocks of `gone` taken off their lists, and perhaps
with more memory and with other contents in what is no footer. -/
structure Erased (g g' : Pool) (gone : List Nat) : Prop where
  hdr : g'.hdr = g.hdr
  quick : g'.quick = g.quick
  globalEnd : g'.globalEnd = g.globalEnd
  memEnd : g.memEnd ≤ g'.memEnd
  known : ∀ {a h}, g.hdr a = some h → h.alloc = false → a ∉ gone →
    g'.known (a + h.size) = g.known (a + h.size)
  free : ∀ i < 10, ∀ y, y ∈ g.free i → y ∉ gone → y ∈ g'.free i
  sub : ∀ i y, y ∈ g'.free i → y ∈ g.free i

theorem Erased.refl (g : Pool) : Erased g g [] :=
  ⟨rfl, rfl, rfl, Nat.le_refl _, fun _ _ _ => rfl, fun _ _ _ h _ => h, fun _ _ h => h⟩

theorem Erased.erase {g g' : Pool} {gone : List Nat} (E : Erased g g' gone) (b : Nat) :
    Erased g (g'.erase b) (b :: gone) :=
  { E with
    known := fun ha hal hn => E.known ha hal fun hc => hn (List.mem_cons_of_mem _ hc)
    free := by
      intro i hi y hy hn
      simp only [List.mem_cons, not_or] at hn
      exact (List.mem_erase_of_ne hn.1).mpr (E.free i hi y hy hn.2)
    sub := fun i y hy => E.sub i y (List.mem_of_mem_erase hy) }

theorem Erased.mono {g g' : Pool} {gone gone' : List Nat} (E : Erased g g' gone)
    (h : ∀ y ∈ gone, y ∈ gone') : Erased g g' gone' :=
  { E with
    known := fun ha hal hn => E.known ha hal fun hc => hn (h _ hc)
    free := fun i hi y hy hn => E.free i hi y hy fun hc => hn (h y hc) }

theorem fuse_sizes {b size : Nat} {drop : List Nat} (x : Nat) :
    (g.fuse b size drop).sizes x =
      if x = b then some size else if x ∈ drop then none else g.sizes x := by
  unfold sizes
  simp only [fuse_hdr]
  split
  · rfl
  · split <;> rfl

theorem freeAfter_none {m : Nat} (h : g.freeAfter m = none) {k : Hdr}
    (hk : g.hdr (m + g.sizeOf m) = some k) : k.alloc = true := by
  unfold freeAfter at h
  rw [hk] at h
  cases hal : k.alloc with
  | true => rfl
  | false => simp [hal] at h

theorem mem_makeFree_free {b size : Nat} {drop : List Nat} {i x : Nat} (hx : x ∈ g.free i) :
    x ∈ (g.makeFree b size drop).free i := by
  simp only [Pool.makeFree, put_free, note_free, spoil_free, fuse_free]
  split
  · exact List.mem_cons_of_mem _ hx
  · exact hx

theorem of_mem_makeFree_free {b size : Nat} {drop : List Nat} {i x : Nat} (hxb : x ≠ b)
    (hx : x ∈ (g.makeFree b size drop).free i) : x ∈ g.free i := by
  simp only [Pool.makeFree, put_free, note_free, spoil_free, fuse_free] at hx
  split at hx
  · exact (List.mem_cons.mp hx).resolve_left hxb
  · exact hx

/-- A run of free blocks becomes one free block, the first one of them: the run consists of that
block and those of `drop`, and of the pending blocks the others stay pending. -/
structure Absorbs (e : Env) (g g' : Pool) (pend pend' gone drop : List Nat) (b size : Nat) :
    Prop where
  settling : g.Settling e pend
  erased : Erased g g' gone
  fusable : g'.Fusable e b size drop
  gone : ∀ y ∈ gone, y = b ∨ y ∈ drop
  kept : ∀ y ∈ pend', y ∈ pend ∧ y ≠ b ∧ y ∉ drop
  pend : ∀ y ∈ pend, y ∈ pend' ∨ y = b ∨ y ∈ drop
  left : ∀ a k, g.hdr a = some k → k.alloc = false → a + k.size = b → a ∈ pend'
  right : ∀ k, g.hdr (b + size) = some k → k.alloc = false → b + size ∈ pend'

namespace Absorbs

variable {g' : Pool} {pend pend' gone drop : List Nat} {b size x : Nat} {k : Hdr}
  (A : Absorbs e g g' pend pend' gone drop b size)

include A

theorem hdr_cases (hx : (g'.makeFree b size drop).hdr x = some k) :
    (x = b ∧ k = ⟨size, false, true⟩) ∨
      (x ≠ b ∧ x ∉ drop ∧ g.hdr x = some k ∧ (x + k.size ≤ b ∨ b + size ≤ x)) := by
  rw [← A.erased.hdr]
  exact A.fusable.hdr_cases hx

theorem hdr_keep (hxb : x ≠ b) (hxd : x ∉ drop) (hx : g.hdr x = some k) :
    (g'.makeFree b size drop).hdr x = some k :=
  fuse_hdr_of_mem hxb hxd (A.erased.hdr ▸ hx)

/-- A pending block outside the run stays pending. -/
theorem pending_of_outside (hx : x ∈ pend) (hxb : x ≠ b) (hxd : x ∉ drop) : x ∈ pend' :=
  (A.pend x hx).resolve_right fun hc => hc.elim hxb hxd

theorem pending (hx : x ∈ pend') : ∃ h, (g'.makeFree b size drop).hdr x = some h ∧
    h.alloc = false ∧ ∀ i < 10, x ∉ (g'.makeFree b size drop).free i := by
  obtain ⟨h1, h2, h3⟩ := A.kept x hx
  obtain ⟨h, hh, hal, hun⟩ := A.settling.pending x h1
  exact ⟨h, A.hdr_keep h2 h3 hh, hal, fun i hi hm =>
    hun i hi (A.erased.sub i x (of_mem_makeFree_free h2 hm))⟩

theorem listed (hx : (g'.makeFree b size drop).hdr x = some k) (hal : k.alloc = false)
    (hn : x ∉ pend') : x ∈ (g'.makeFree b size drop).free (freeIndex k.size) := by
  rcases A.hdr_cases hx with ⟨rfl, rfl⟩ | ⟨h1, h2, hx, _⟩
  · simp [Pool.makeFree]
  · refine mem_makeFree_free (A.erased.free _ (freeIndex_lt _) _ (A.settling.listed hx hal ?_) ?_)
    · exact fun hp => hn (A.pending_of_outside hp h1 h2)
    · exact fun hg => (A.gone x hg).elim h1 h2

theorem coalesced {l : Hdr} (hx : (g'.makeFree b size drop).hdr x = some k)
    (hl : (g'.makeFree b size drop).hdr (x + k.size) = some l) (hal : k.alloc = false)
    (hlal : l.alloc = false) (hpos : 0 < size) : x ∈ pend' ∨ x + k.size ∈ pend' := by
  rcases A.hdr_cases hx with ⟨rfl, rfl⟩ | ⟨h1, h2, hx, _⟩
  · rcases A.hdr_cases hl with ⟨h4, _⟩ | ⟨_, _, hl, _⟩
    · dsimp only at h4
      omega
    · exact .inr (A.right l hl hlal)
  · rcases A.hdr_cases hl with ⟨h4, _⟩ | ⟨h4, h5, hl, _⟩
    · exact .inl (A.left x k hx hal h4)
    · rcases A.settling.coalesced hx hl hal hlal with h6 | h6
      · exact .inl (A.pending_of_outside h6 h1 h2)
      · exact .inr (A.pending_of_outside h6 h4 h5)

theorem footed (hx : (g'.makeFree b size drop).hdr x = some k) (hal : k.alloc = false)
    (hpos : 0 < size) :
    (∃ w, (g'.makeFree b size drop).known (x + k.size) = some w ∧ unflag w = k.size) ∨
      (x ∈ pend' ∧ x + k.size ∉ pend' ∧
        ∃ l, (g'.makeFree b size drop).hdr (x + k.size) = some l ∧ l.alloc = false) := by
  have I := A.settling
  rw [makeFree_known]
  rcases A.hdr_cases hx with ⟨rfl, rfl⟩ | ⟨h1, h2, hx, h3⟩
  · rw [if_pos rfl]
    exact .inl ⟨_, rfl, Hdr.unflag_word (by have := A.fusable.aligned; dsimp only; omega)⟩
  · have h4 := I.inside hx
    rw [if_neg (by omega)]
    by_cases hxb : x + k.size = b
    · -- the new block overwrites the footer of the pending block before it
      refine .inr ⟨A.left x k hx hal hxb, fun hp => (A.kept _ hp).2.1 hxb,
        ⟨size, false, true⟩, ?_, rfl⟩
      rw [hxb, makeFree_hdr, if_pos rfl]
    · rw [if_neg hxb]
      rcases I.footed hx hal with ⟨w, hw, hun⟩ | ⟨hp, hnp, l, hl, hlal⟩
      · refine .inl ⟨w, ?_, hun⟩
        rw [A.erased.known hx hal fun hg => (A.gone x hg).elim h1 h2]
        exact hw
      · have hd : x + k.size ∉ drop := by
          intro hd
          have h5 := A.fusable.swallows _ hd l (A.erased.hdr ▸ hl)
          have h6 := I.inside hl
          omega
        exact .inr ⟨A.pending_of_outside hp h1 h2, fun hc => hnp (A.kept _ hc).1, l,
          A.hdr_keep hxb hd hl, hlal⟩

theorem end_inside : EndInside e (g'.makeFree b size drop) := by
  have h1 := A.settling.end_inside
  have h2 := A.erased.memEnd
  unfold EndInside at *
  change _ ≤ g'.globalEnd ∧ g'.globalEnd % 16 = 0 ∧ g'.globalEnd + 32 ≤ g'.memEnd
  rw [A.erased.globalEnd]
  omega

theorem makeFree (S' : g'.Shape e)
    (T : Tiles e.sf_mem_start (g'.memEnd - 16) (g'.fuse b size drop).sizes) :
    (g'.makeFree b size drop).Settling e pend' := by
  have hpos : 0 < size := by
    obtain ⟨h0, hb, _, hsz⟩ := A.fusable.start
    have hinside := S'.inside hb
    omega
  exact
  { A.fusable.makeFree_shape S' with
    tiles := T
    pending := fun _ ha => A.pending ha
    listed := A.listed
    quick_len := fun i hi => by
      change (g'.quick i).length ≤ _
      rw [A.erased.quick]
      exact A.settling.quick_len i hi
    coalesced := fun ha hk hal hkal => A.coalesced ha hk hal hkal hpos
    footed := fun ha hal => A.footed ha hal hpos
    end_inside := A.end_inside }

end Absorbs

/-- A pending block without free neighbours goes to its list. -/
theorem Settling.put {pend pend' : List Nat} {m : Nat} {h : Hdr} (I : g.Settling e pend)
    (hm : g.hdr m = some h) (hal : h.alloc = false) (hun : ∀ i < 10, m ∉ g.free i)
    (hpend' : ∀ y ∈ pend', y ∈ pend ∧ y ≠ m) (hpend : ∀ y ∈ pend, y ∈ pend' ∨ y = m)
    (hleft : ∀ a k, g.hdr a = some k → k.alloc = false → a + k.size = m → a ∈ pend')
    (hright : ∀ k, g.hdr (m + h.size) = some k → k.alloc = true) :
    (g.put m h.size).Settling e pend' :=
  { I.toShape.put hm hal hun with
    tiles := I.tiles
    pending := by
      intro a ha
      obtain ⟨h1, h2⟩ := hpend' a ha
      obtain ⟨k, hk, hkal, hku⟩ := I.pending a h1
      refine ⟨k, hk, hkal, fun i hi hc => ?_⟩
      simp only [put_free] at hc
      split at hc
      · exact hku i hi ((List.mem_cons.mp hc).resolve_left h2)
      · exact hku i hi hc
    listed := by
      intro a k ha hkal hn
      simp only [put_free]
      by_cases ham : a = m
      · subst ham
        change g.hdr a = some k at ha
        rw [hm] at ha
        cases ha
        rw [if_pos rfl]
        exact List.mem_cons_self
      · have h1 := I.listed ha hkal fun hp => (hpend a hp).elim hn ham
        split
        · exact List.mem_cons_of_mem _ h1
        · exact h1
    quick_len := I.quick_len
    coalesced := by
      intro a k l ha hk hkal hlal
      -- if one of two free neighbours is `m`, the other one is before it and pending
      rcases I.coalesced ha hk hkal hlal with h1 | h1
      · rcases hpend a h1 with h2 | h2
        · exact .inl h2
        · subst h2
          change g.hdr a = some k at ha
          rw [hm] at ha
          cases ha
          rw [hright l hk] at hlal
          cases hlal
      · rcases hpend _ h1 with h2 | h2
        · exact .inr h2
        · exact .inl (hleft a k ha hkal h2)
    footed := by
      intro a k ha hkal
      rcases I.footed ha hkal with h1 | ⟨hp, hnp, l, hl, hlal⟩
      · exact .inl h1
      · rcases hpend a hp with h2 | h2
        · exact .inr ⟨h2, fun hc => hnp (hpend' _ hc).1, l, hl, hlal⟩
        · subst h2
          change g.hdr a = some k at ha
          rw [hm] at ha
          cases ha
          rw [hright l hl] at hlal
          cases hlal
    end_inside := I.end_inside }

/-- The free block that ends at `b`, told by its footer. -/
def freeBefore (g : Pool) (b : Nat) : Option Nat :=
  match g.known b with
  | some w =>
      match g.hdr (b - unflag w) with
      | some h =>
          if !h.alloc && h.size = unflag w && unflag w ≤ b then some (b - unflag w) else none
      | none => none
  | none => none

theorem freeBefore_some {p b : Nat} (h : g.freeBefore b = some p) :
    ∃ k, g.hdr p = some k ∧ k.alloc = false ∧ p + k.size = b := by
  unfold freeBefore at h
  split at h
  · split at h
    · rename_i w _ k hk
      split at h
      · rename_i hc
        cases h
        simp only [Bool.and_eq_true, Bool.not_eq_true', decide_eq_true_eq] at hc
        exact ⟨k, hk, hc.1.1, by omega⟩
      · cases h
    · cases h
  · cases h

theorem freeBefore_none {pend : List Nat} (I : g.Settling e pend) {b p : Nat} {k : Hdr}
    (hb : b ∉ pend) (hpb : p ∉ pend) (h : g.freeBefore b = none) (hp : g.hdr p = some k)
    (hal : k.alloc = false) : p + k.size ≠ b := by
  rintro rfl
  rcases I.footed hp hal with ⟨w, hw, hun⟩ | ⟨hc, _⟩
  · unfold freeBefore at h
    rw [hw] at h
    simp only [hun, Nat.add_sub_cancel] at h
    rw [hp] at h
    simp [hal] at h
  · exact hpb hc

/-- `sf_coalesce` joins the free block `m` with its free neighbours: `g'` is the pool
with the parts off their lists, which become one block of `size` bytes at `b`. -/
structure Joined (e : Env) (g : Pool) (m : Nat) (past : Option Nat) (g' : Pool) (b size : Nat)
    (drop : List Nat) : Prop where
  eq : g.coalesce m past (g.freeAfter m) = g'.makeFree b size drop
  erased : Erased g g' (b :: drop)
  shape : g'.Shape e
  fusable : g'.Fusable e b size drop
  tiles : Tiles e.sf_mem_start (g'.memEnd - 16) (g'.fuse b size drop).sizes
  touched : g'.touched = g.touched
  start : b = past.getD m
  parts : ∀ y, y ∈ b :: drop ↔ y = m ∨ past = some y ∨ g.freeAfter m = some y
  ends : ∃ k, g.hdr ((g.freeAfter m).getD m) = some k ∧ k.alloc = false ∧
    (g.freeAfter m).getD m + k.size = b + size

theorem Settling.joined_after {pend : List Nat} {m n : Nat} {h : Hdr} (I : g.Settling e pend)
    (hm : g.hdr m = some h) (hal : h.alloc = false) (hfa : g.freeAfter m = some n) :
    ∃ g' b size drop, Joined e g m none g' b size drop := by
  have hsz := sizeOf_of_hdr hm
  obtain ⟨hn, k, hk, hkal⟩ := freeAfter_some hfa
  rw [hsz] at hn
  subst hn
  have S1 := I.toShape.erase m
  have S2 := S1.erase (m + h.size)
  exact ⟨_, m, h.size + k.size, [m + h.size],
    { eq := by rw [hfa, Pool.coalesce, hsz, sizeOf_of_hdr hk]
      erased := (((Erased.refl g).erase m).erase _).mono (by simp)
      shape := S2
      fusable := fusable_two S2 hm hal hk hkal fun i hi =>
        ⟨not_mem_erase_of (I.toShape.not_mem_erase hi), S1.not_mem_erase hi⟩
      tiles := (I.tiles.fuse (sizes_of_hdr hm) (sizes_of_hdr hk)).congr fun x => by
        rw [fuse_sizes]
        simp only [List.mem_singleton]
        rfl
      touched := rfl
      start := rfl
      parts := fun y => by simp [hfa, eq_comm]
      ends := ⟨k, by rw [hfa]; exact hk, hkal, by rw [hfa]; exact Nat.add_assoc _ _ _⟩ }⟩

theorem Settling.joined_past {pend : List Nat} {p : Nat} {h l : Hdr} (I : g.Settling e pend)
    (hl : g.hdr p = some l) (hlal : l.alloc = false) (hm : g.hdr (p + l.size) = some h)
    (hal : h.alloc = false) (hfa : g.freeAfter (p + l.size) = none) :
    ∃ g' b size drop, Joined e g (p + l.size) (some p) g' b size drop := by
  have hsz := sizeOf_of_hdr hm
  have S1 := I.toShape.erase (p + l.size)
  have S2 := S1.erase p
  exact ⟨_, p, l.size + h.size, [p + l.size],
    { eq := by rw [hfa, Pool.coalesce, hsz, sizeOf_of_hdr hl, Nat.add_comm h.size]
      erased := (((Erased.refl g).erase _).erase p).mono (by simp)
      shape := S2
      fusable := fusable_two S2 hl hlal hm hal fun i hi =>
        ⟨S1.not_mem_erase hi, not_mem_erase_of (I.toShape.not_mem_erase hi)⟩
      tiles := (I.tiles.fuse (sizes_of_hdr hl) (sizes_of_hdr hm)).congr fun x => by
        rw [fuse_sizes]
        simp only [List.mem_singleton]
        rfl
      touched := rfl
      start := rfl
      parts := fun y => by simp [hfa, eq_comm, or_comm]
      ends := ⟨h, by rw [hfa]; exact hm, hal, by rw [hfa]; exact Nat.add_assoc _ _ _⟩ }⟩

/-- The tiles are fused twice: the block before takes `m`, and both take the block behind. -/
theorem Settling.tiles_fuse_both {pend : List Nat} {p : Nat} {h k l : Hdr}
    (I : g.Settling e pend) (hl : g.hdr p = some l) (hm : g.hdr (p + l.size) = some h)
    (hk : g.hdr (p + l.size + h.size) = some k) :
    Tiles e.sf_mem_start (g.memEnd - 16) (g.fuse p (l.size + h.size + k.size)
      [p + l.size, p + l.size + h.size]).sizes := by
  have h1 := I.inside hl
  have h2 := I.inside hm
  have T1 := I.tiles.fuse (sizes_of_hdr hl) (sizes_of_hdr hm)
  have T2 := T1.fuse (a := p) (k := l.size + h.size) (l := k.size) (if_pos rfl) (by
    rw [← Nat.add_assoc, if_neg (by omega), if_neg (by omega)]
    exact sizes_of_hdr hk)
  refine T2.congr fun x => ?_
  rw [fuse_sizes, ← Nat.add_assoc]
  simp only [List.mem_cons, List.not_mem_nil, or_false]
  split
  · rfl
  · by_cases hx1 : x = p + l.size + h.size
    · rw [if_pos (.inr hx1), if_pos hx1]
    · rw [if_neg hx1]
      by_cases hx2 : x = p + l.size
      · rw [if_pos (.inl hx2), if_pos hx2]
      · rw [if_neg (by rintro (hc | hc) <;> contradiction), if_neg hx2]

theorem Settling.joined_both {pend : List Nat} {p n : Nat} {h l : Hdr} (I : g.Settling e pend)
    (hl : g.hdr p = some l) (hlal : l.alloc = false) (hm : g.hdr (p + l.size) = some h)
    (hal : h.alloc = false) (hfa : g.freeAfter (p + l.size) = some n) :
    ∃ g' b size drop, Joined e g (p + l.size) (some p) g' b size drop := by
  have hsz := sizeOf_of_hdr hm
  obtain ⟨hn, k, hk, hkal⟩ := freeAfter_some hfa
  rw [hsz] at hn
  subst hn
  have S1 := I.toShape.erase (p + l.size)
  have S2 := S1.erase p
  have S3 := S2.erase (p + l.size + h.size)
  exact ⟨_, p, l.size + h.size + k.size, [p + l.size, p + l.size + h.size],
    { eq := by
        rw [hfa, Pool.coalesce, hsz, sizeOf_of_hdr hl, sizeOf_of_hdr hk, Nat.add_comm h.size]
      erased := ((((Erased.refl g).erase _).erase p).erase _).mono (by simp)
      shape := S3
      fusable := fusable_three S3 hl hlal hm hal hk hkal fun i hi =>
        ⟨not_mem_erase_of (S1.not_mem_erase hi),
          not_mem_erase_of (not_mem_erase_of (I.toShape.not_mem_erase hi)),
          S2.not_mem_erase hi⟩
      tiles := I.tiles_fuse_both hl hm hk
      touched := rfl
      start := rfl
      parts := fun y => by
        simp only [hfa, List.mem_cons, List.not_mem_nil, or_false, Option.some.injEq]
        rw [eq_comm (a := p), eq_comm (a := p + l.size + h.size), or_left_comm]
      ends := ⟨k, by rw [hfa]; exact hk, hkal, by
        rw [hfa, ← Nat.add_assoc, ← Nat.add_assoc]
        rfl⟩ }⟩

/-- A block without free neighbours goes to its list as it is; otherwise it is joined. -/
theorem Settling.joined {pend : List Nat} {m : Nat} {h : Hdr} {past : Option Nat}
    (I : g.Settling e pend) (hm : g.hdr m = some h) (hal : h.alloc = false)
    (hpast : ∀ p, past = some p → ∃ k, g.hdr p = some k ∧ k.alloc = false ∧ p + k.size = m) :
    past = none ∧ g.freeAfter m = none ∨
      ∃ g' b size drop, Joined e g m past g' b size drop := by
  cases hpa : past with
  | none =>
    cases hfa : g.freeAfter m with
    | none => exact .inl ⟨rfl, rfl⟩
    | some n => exact .inr (I.joined_after hm hal hfa)
  | some p =>
    obtain ⟨l, hl, hlal, rfl⟩ := hpast p hpa
    cases hfa : g.freeAfter (p + l.size) with
    | none => exact .inr (I.joined_past hl hlal hm hal hfa)
    | some n => exact .inr (I.joined_both hl hlal hm hal hfa)

/-- A free block right before the joined one is pending. -/
theorem Joined.left {m b size : Nat} {h : Hdr} {past : Option Nat} {rest drop : List Nat}
    {g' : Pool} (J : Joined e g m past g' b size drop) (I : g.Settling e (m :: rest))
    (hm : g.hdr m = some h)
    (hpast : ∀ p, past = some p →
      p ∉ rest ∧ ∃ k, g.hdr p = some k ∧ k.alloc = false ∧ p + k.size = m)
    (hnone : past = none → ∀ a k, g.hdr a = some k → k.alloc = false → a + k.size = m → a ∈ rest)
    (a : Nat) (k : Hdr) (ha : g.hdr a = some k) (hkal : k.alloc = false) (hab : a + k.size = b) :
    a ∈ rest := by
  cases hpa : past with
  | none => exact hnone hpa a k ha hkal (by rw [hab, J.start, hpa]; rfl)
  | some p =>
    obtain ⟨hpr, l, hl, hlal, hpm⟩ := hpast p hpa
    have hbp : b = p := by rw [J.start, hpa]; rfl
    have h0 := I.inside hm
    have h1 := I.inside ha
    have h2 := I.inside hl
    rw [hbp] at hab
    rcases I.coalesced ha (hab ▸ hl) hkal hlal with h3 | h3
    · exact (List.mem_cons.mp h3).resolve_left (by omega)
    · exact absurd ((List.mem_cons.mp h3).resolve_left (by omega)) (hab ▸ hpr)

/-- Coalescing settles a pending block. -/
theorem Settling.coalesce {m : Nat} {h : Hdr} {past : Option Nat} {rest : List Nat}
    (I : g.Settling e (m :: rest)) (hmr : m ∉ rest) (hm : g.hdr m = some h)
    (hpast : ∀ p, past = some p →
      p ∉ rest ∧ ∃ k, g.hdr p = some k ∧ k.alloc = false ∧ p + k.size = m)
    (hnone : past = none → ∀ a k, g.hdr a = some k → k.alloc = false → a + k.size = m → a ∈ rest)
    (hnext : ∀ n, g.freeAfter m = some n → n ∉ rest) :
    (g.coalesce m past (g.freeAfter m)).Settling e rest := by
  obtain ⟨h', hh', hal, hun⟩ := I.pending m List.mem_cons_self
  rw [hm] at hh'
  cases hh'
  have hsz := sizeOf_of_hdr hm
  have h0 := I.inside hm
  rcases I.joined hm hal fun p hp => (hpast p hp).2 with ⟨rfl, hfa⟩ | ⟨g', b, size, drop, J⟩
  · rw [hfa, Pool.coalesce, hsz]
    refine I.put hm hal hun (fun y hy => ⟨List.mem_cons_of_mem _ hy, fun he => hmr (he ▸ hy)⟩)
      (fun y hy => (List.mem_cons.mp hy).symm) (hnone rfl) fun k hk => ?_
    exact freeAfter_none hfa (hsz.symm ▸ hk)
  · have hparts := fun y => (J.parts y).mp
    rw [J.eq]
    refine (Absorbs.mk I J.erased J.fusable (fun y => List.mem_cons.mp) (fun y hy => ?_)
      (fun y hy => ?_) ?_ ?_).makeFree J.shape J.tiles
    · -- none of the parts is pending any more
      refine ⟨List.mem_cons_of_mem _ hy, not_or.mp fun hc => ?_⟩
      rcases hparts y (List.mem_cons.mpr hc) with rfl | h1 | h1
      · exact hmr hy
      · exact (hpast y h1).1 hy
      · exact hnext y h1 hy
    · rcases List.mem_cons.mp hy with rfl | hy
      · exact .inr (List.mem_cons.mp ((J.parts y).mpr (.inl rfl)))
      · exact .inl hy
    · exact J.left I hm hpast hnone
    · -- a free block right after the joined one is pending
      intro k hk hkal
      obtain ⟨l, hl, hlal, hend⟩ := J.ends
      rw [← hend] at hk ⊢
      cases hfa : g.freeAfter m with
      | none =>
        rw [hfa] at hl hk
        rw [Option.getD_none, hm] at hl
        cases hl
        have := freeAfter_none hfa (hsz.symm ▸ hk)
        rw [this] at hkal
        cases hkal
      | some n =>
        have hnr := hnext n hfa
        have hn := (freeAfter_some hfa).1
        simp only [hfa, Option.getD_some] at hl hk ⊢
        have h1 := I.inside hl
        rcases I.coalesced hl hk hlal hkal with h3 | h3
        · exact absurd ((List.mem_cons.mp h3).resolve_left (by omega)) hnr
        · exact (List.mem_cons.mp h3).resolve_left (by omega)

end Pool

end StarterProjects.Sfmm
