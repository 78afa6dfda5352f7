import StarterProjects.Sfmm.Invariant

/-!
# `sf_free` for a block that goes to a free list

The block after loses its PREV flag and gets a footer, whether it is free or
not; the block itself becomes free and is coalesced. Which block is taken for
the one before it is read from the word in front of it.
-/

namespace StarterProjects.Sfmm

open Lib Lib.Exec

namespace Pool

/-- What `sf_free` does to the block at `c`. When no block starts there, `c` is
the end of the heap and the words are those of the next page. -/
def clearNext (g : Pool) (c : Nat) : Pool :=
  match g.hdr c with
  | some k =>
      if k.alloc then (g.setHdr c { k with prev := false }).spoil (c + k.size)
      else (g.setHdr c { k with prev := false }).note (c + k.size) { k with prev := false }.word
  | none => (g.spoil (c + 8)).spoil c

/-- The block at `b` becomes free and is in no list. -/
def release (g : Pool) (b : Nat) : Pool :=
  match g.hdr b with
  | some h => ((g.clearNext (b + h.size)).setHdr b { h with alloc := false }).note (b + h.size)
      { h with alloc := false }.word
  | none => g

/-- `sf_free` for a block that goes to a free list. -/
def freeMain (g : Pool) (b : Nat) : Pool :=
  (g.release b).coalesce b (g.freeBefore b) ((g.release b).freeAfter b)

variable {e : Env} {g : Pool}

theorem clearNext_eq (c : Nat) : g.clearNext c =
    { g with hdr := (g.clearNext c).hdr, known := (g.clearNext c).known,
             touched := (g.clearNext c).touched } := by
  unfold clearNext
  split
  · split <;> rfl
  · rfl

theorem clearNext_hdr (c x : Nat) :
    (g.clearNext c).hdr x =
      if x = c then (g.hdr c).map fun k => { k with prev := false } else g.hdr x := by
  unfold clearNext
  cases hk : g.hdr c with
  | none =>
    by_cases hxc : x = c
    · rw [if_pos hxc, hxc]
      exact hk
    · rw [if_neg hxc]
      rfl
  | some k =>
    dsimp only
    split <;> simp

theorem release_eq (b : Nat) : g.release b =
    { g with hdr := (g.release b).hdr, known := (g.release b).known,
             touched := (g.release b).touched } := by
  unfold release
  split
  · rw [clearNext_eq]
    rfl
  · rfl

theorem release_hdr {b : Nat} {h : Hdr} (hb : g.hdr b = some h) (x : Nat) :
    (g.release b).hdr x =
      if x = b then some { h with alloc := false }
      else if x = b + h.size then (g.hdr x).map fun k => { k with prev := false } else g.hdr x := by
  rw [release, hb]
  simp only [note_hdr, setHdr_hdr, clearNext_hdr]
  split
  · rfl
  · split
    · rename_i hx
      rw [hx]
    · rfl

theorem clearNext_known (c x : Nat) (h8 : x % 16 = 0) (h16 : c % 16 = 0) :
    (g.clearNext c).known x =
      match g.hdr c with
      | some k => if x = c + k.size then
          if k.alloc then none else some { k with prev := false }.word else g.known x
      | none => if x = c then none else g.known x := by
  unfold clearNext
  cases hk : g.hdr c with
  | none =>
    dsimp only
    simp only [spoil_known]
    split
    · rfl
    · rw [if_neg (by omega)]
  | some k =>
    dsimp only
    split
    · split <;> simp_all
    · split <;> simp_all

theorem Shape.clearNext (S : g.Shape e) (c : Nat) : (g.clearNext c).Shape e := by
  unfold Pool.clearNext
  split
  · rename_i k hk
    have S1 := S.reflag (f := { k with prev := false }) hk rfl id
      fun hal i hi => S.not_quick_of_free hk hal hi
    split
    · exact S1.spoil _
    · rename_i hal
      rw [Bool.not_eq_true] at hal
      have h1 := S.inside hk
      exact S1.note ⟨c, { k with prev := false }, by simp, hal, by omega, Nat.le_refl _⟩
  · exact (S.spoil _).spoil _

/-- A block is the one in hand, or an old one with the old size and kind. -/
theorem release_cases {b x : Nat} {h k : Hdr} (hb : g.hdr b = some h)
    (hx : (g.release b).hdr x = some k) :
    (x = b ∧ k = { h with alloc := false }) ∨
      (x ≠ b ∧ ∃ k', g.hdr x = some k' ∧ k'.size = k.size ∧ k'.alloc = k.alloc) := by
  rw [release_hdr hb] at hx
  split at hx
  · cases hx
    exact .inl ⟨‹_›, rfl⟩
  · rename_i hxb
    refine .inr ⟨hxb, ?_⟩
    split at hx
    · obtain ⟨k', hk', rfl⟩ := Option.map_eq_some_iff.mp hx
      exact ⟨k', hk', rfl, rfl⟩
    · exact ⟨k, hx, rfl, rfl⟩

theorem Shape.release (S : g.Shape e) {b : Nat} {h : Hdr} (hu : g.Used b h) :
    (g.release b).Shape e := by
  obtain ⟨hb, -, hq⟩ := hu
  have h1 := S.inside hb
  have hb1 : (g.clearNext (b + h.size)).hdr b = some h := by
    rw [clearNext_hdr, if_neg (by omega)]
    exact hb
  have S1 := (S.clearNext (b + h.size)).reflag (f := { h with alloc := false }) hb1 rfl nofun
    fun _ i hi => by
      rw [clearNext_eq]
      exact hq i hi
  rw [Pool.release, hb]
  exact S1.note ⟨b, { h with alloc := false }, by simp, rfl, by omega, Nat.le_refl _⟩

theorem release_known {b : Nat} {h : Hdr} (hb : g.hdr b = some h) (x : Nat) :
    (g.release b).known x = if x = b + h.size then some { h with alloc := false }.word
      else (g.clearNext (b + h.size)).known x := by
  rw [Pool.release, hb]
  rfl

/-- Every free block has its footer, the released one and the one behind it too. -/
theorem Inv.release_footer (I : g.Inv e) {b x : Nat} {h k : Hdr} (hu : g.Used b h)
    (hx : (g.release b).hdr x = some k) (hkal : k.alloc = false) :
    ∃ w, (g.release b).known (x + k.size) = some w ∧ unflag w = k.size := by
  have S := I.toShape
  have hb := hu.1
  have h1 := S.inside hb
  rw [release_known hb]
  rcases release_cases hb hx with ⟨rfl, rfl⟩ | ⟨hxb, k', hk', hsz, hal'⟩
  · rw [if_pos rfl]
    exact ⟨_, rfl, Hdr.unflag_word (by dsimp only; omega)⟩
  · have h2 := S.inside hk'
    have h3 := (S.cases_apart hk' hb).resolve_left hxb
    obtain ⟨w, hw, hun⟩ := I.footer hk' (hal'.trans hkal)
    rw [if_neg (by omega), ← hsz, clearNext_known _ _ (by omega) (by omega)]
    cases hc : g.hdr (b + h.size) with
    | none =>
      dsimp only
      rw [if_neg (by omega)]
      exact ⟨w, hw, hun⟩
    | some l =>
      dsimp only
      have h4 := S.inside hc
      have h5 := S.cases_apart hk' hc
      by_cases hxc : x = b + h.size
      · subst hxc
        rw [hk'] at hc
        cases hc
        rw [if_pos rfl, if_neg (by rw [hal', hkal]; exact Bool.false_ne_true)]
        exact ⟨_, rfl, Hdr.unflag_word (by dsimp only; omega)⟩
      · rw [if_neg (by omega)]
        exact ⟨w, hw, hun⟩

/-- After its release a block is the one pending block. -/
theorem Inv.release (I : g.Inv e) {b : Nat} {h : Hdr} (hu : g.Used b h) :
    (g.release b).Settling e [b] := by
  have S := I.toShape
  obtain ⟨hb, hal, hq⟩ := hu
  have hrel := release_eq (g := g) b
  refine { S.release ⟨hb, hal, hq⟩ with
    tiles := ?_
    pending := ?_
    listed := ?_
    quick_len := ?_
    coalesced := ?_
    footed := fun hx hkal => .inl (I.release_footer ⟨hb, hal, hq⟩ hx hkal)
    end_inside := ?_ }
  · rw [show (g.release b).memEnd = g.memEnd by rw [hrel]]
    refine I.tiles.congr fun x => ?_
    unfold sizes
    rw [release_hdr hb]
    split
    · rename_i hxb
      rw [hxb, hb]
      rfl
    · split
      · rw [Option.map_map]
        rfl
      · rfl
  · intro a ha
    rw [List.mem_singleton.mp ha]
    refine ⟨_, (release_hdr hb b).trans (if_pos rfl), rfl, fun i hi => ?_⟩
    rw [hrel]
    exact S.not_free_of_alloc hb hal hi
  · intro a k ha hkal hn
    rcases release_cases hb ha with ⟨rfl, _⟩ | ⟨_, k', hk', hsz, hal'⟩
    · exact absurd List.mem_cons_self hn
    · rw [hrel, ← hsz]
      exact I.listed hk' (hal'.trans hkal) List.not_mem_nil
  · intro i hi
    rw [hrel]
    exact I.quick_len i hi
  · intro a k l ha hl hkal hlal
    rcases release_cases hb ha with ⟨rfl, _⟩ | ⟨_, k', hk', hsz, hal'⟩
    · exact .inl List.mem_cons_self
    · rcases release_cases hb hl with ⟨h2, _⟩ | ⟨_, l', hl', _, hal''⟩
      · exact .inr (by rw [h2]; exact List.mem_cons_self)
      · rw [← hsz] at hl'
        exact absurd (I.coalesced hk' hl' (hal'.trans hkal) (hal''.trans hlal)) (by simp)
  · rw [hrel]
    exact I.end_inside

/-! ### Blocks in use -/

/-- The block at `a` is in use and has `n` bytes. -/
def InUse (g : Pool) (a n : Nat) : Prop := ∃ h, g.Used a h ∧ h.size = n

/-- The block at `b` goes out of use, and no other. -/
structure Takes (g g' : Pool) (b : Nat) : Prop where
  gone : ∀ h, ¬ g'.Used b h
  others : ∀ a n, a ≠ b → (g'.InUse a n ↔ g.InUse a n)

theorem SameUsed.inUse {g g' : Pool} (h : SameUsed g g') (a n : Nat) :
    g'.InUse a n ↔ g.InUse a n :=
  exists_congr fun k => and_congr (h a k) Iff.rfl

theorem Takes.sameUsed {g g' g'' : Pool} {b : Nat} (h : Takes g g' b) (h' : SameUsed g' g'') :
    Takes g g'' b where
  gone := fun k hk => h.gone k ((h' b k).mp hk)
  others := fun a n hab => (h'.inUse a n).trans (h.others a n hab)

theorem coalesce_busy (g : Pool) (m : Nat) (past next : Option Nat) :
    (g.coalesce m past next).busy = g.busy := by
  cases past <;> cases next <;> rfl

/-- Coalescing does not touch the blocks in use. -/
theorem coalesce_sameUsed {m : Nat} {h : Hdr} {past : Option Nat} (hm : g.hdr m = some h)
    (hal : h.alloc = false)
    (hpast : ∀ p, past = some p → ∃ k, g.hdr p = some k ∧ k.alloc = false) :
    SameUsed g (g.coalesce m past (g.freeAfter m)) := by
  have hnext : ∀ n, g.freeAfter m = some n → ∃ k, g.hdr n = some k ∧ k.alloc = false :=
    fun n hn => (freeAfter_some hn).2
  cases past with
  | none =>
    cases hf : g.freeAfter m with
    | none => exact SameUsed.refl g
    | some n =>
      refine makeFree_sameUsed rfl rfl fun y hy => ?_
      rcases hy with rfl | hy
      · exact ⟨h, hm, hal⟩
      · rw [List.mem_singleton.mp hy]
        exact hnext n hf
  | some p =>
    cases hf : g.freeAfter m with
    | none =>
      refine makeFree_sameUsed rfl rfl fun y hy => ?_
      rcases hy with rfl | hy
      · exact hpast y rfl
      · rw [List.mem_singleton.mp hy]
        exact ⟨h, hm, hal⟩
    | some n =>
      refine makeFree_sameUsed rfl rfl fun y hy => ?_
      simp only [List.mem_cons, List.not_mem_nil, or_false] at hy
      rcases hy with rfl | rfl | rfl
      · exact hpast y rfl
      · exact ⟨h, hm, hal⟩
      · exact hnext y hf

theorem release_takes {b : Nat} {h : Hdr} (hu : g.Used b h) : Takes g (g.release b) b := by
  have hhdr := release_hdr hu.1
  have hrel := release_eq (g := g) b
  refine ⟨?_, fun a n hab => ?_⟩
  · rintro k ⟨h1, h2, _⟩
    rw [hhdr, if_pos rfl] at h1
    cases h1
    cases h2
  · unfold InUse Used
    rw [hhdr, if_neg hab, show (g.release b).quick = g.quick by rw [hrel]]
    split
    · cases hk : g.hdr a with
      | none => simp
      | some k =>
        constructor
        · rintro ⟨l, ⟨h1, h2, h3⟩, h4⟩
          cases h1
          exact ⟨k, ⟨rfl, h2, h3⟩, h4⟩
        · rintro ⟨l, ⟨h1, h2, h3⟩, h4⟩
          cases h1
          exact ⟨_, ⟨rfl, h2, h3⟩, h4⟩
    · rfl

/-- The free block that ends at `b` is there after the release of `b`, too. -/
theorem release_before {b p : Nat} {h : Hdr} (S : g.Shape e) (hb : g.hdr b = some h)
    (hp : g.freeBefore b = some p) :
    ∃ k, (g.release b).hdr p = some k ∧ g.hdr p = some k ∧ k.alloc = false ∧ p + k.size = b := by
  obtain ⟨k, hk, hal, hpb⟩ := freeBefore_some hp
  have h1 := S.inside hb
  have h2 := S.inside hk
  refine ⟨k, ?_, hk, hal, hpb⟩
  rw [release_hdr hb, if_neg (by omega), if_neg (by omega)]
  exact hk

/-- Freeing a block through the free lists keeps the invariant. -/
theorem Inv.freeMain (I : g.Inv e) {b : Nat} {h : Hdr} (hu : g.Used b h) :
    (g.freeMain b).Inv e ∧ Takes g (g.freeMain b) b := by
  have S := I.toShape
  have h1 := S.inside hu.1
  have hhdr := release_hdr hu.1
  have hb : (g.release b).hdr b = some { h with alloc := false } := by rw [hhdr, if_pos rfl]
  have hpast : ∀ p, g.freeBefore b = some p →
      ∃ k, (g.release b).hdr p = some k ∧ k.alloc = false ∧ p + k.size = b := by
    intro p hp
    obtain ⟨k, hk, -, hend⟩ := release_before S hu.1 hp
    exact ⟨k, hk, hend⟩
  have hset : (g.freeMain b).Settling e [] := (I.release hu).coalesce List.not_mem_nil hb
    (fun p hp => ⟨List.not_mem_nil, hpast p hp⟩)
    (fun hnone a k ha hal hab => by
      have h2 := (I.release hu).inside ha
      rw [hhdr, if_neg (by omega), if_neg (by omega)] at ha
      exact absurd hab (freeBefore_none I.toSettling List.not_mem_nil List.not_mem_nil
        hnone ha hal))
    (fun _ _ => List.not_mem_nil)
  refine ⟨{ hset with idle := ?_ }, (release_takes hu).sameUsed (coalesce_sameUsed hb rfl
    fun p hp => (hpast p hp).imp fun k hk => ⟨hk.1, hk.2.1⟩)⟩
  rw [Pool.freeMain, coalesce_busy, release_eq]
  exact I.idle

end Pool

/-- The footer `sf_free` reads in front of the block at `b` leads to no block, to
an allocated block, or to the free block that ends at `b`. -/
def Honest (e : Env) (g : Pool) (b footer : Nat) : Prop :=
  let p := if footer > 0 then sf_get_past_block b footer else NULL
  p < e.sf_mem_start ∨ g.memEnd - 16 ≤ p ∨
    ∃ k, g.hdr p = some k ∧ p ≠ b ∧ (k.alloc = false → p + k.size = b)

namespace Represents

variable {e : Env} {W : Nat → Prop} {m₀ : Nat → Nat} {s : State} {g : Pool}
  (R : Represents e W m₀ s g)

include R

/-- The block after is a block. -/
theorem free_next_block {c : Nat} {k : Hdr} (hc : g.hdr c = some k) :
    Ends (sf_free_next e c) s fun _ s' =>
      Represents e W m₀ s' (g.clearNext c) ∧ ∀ x < c, s'.mem x = s.mem x := by
  have S := R.shape
  have h1 := S.inside hc
  unfold sf_free_next
  refine .run (R.load_header hc) ?_
  rw [xor_magic, Hdr.clearPrev_word (by omega)]
  refine .run (store_ok (R.mapped_header hc)) ?_
  have R1 := R.reflag (f := { k with prev := false }) hc rfl id
    (fun hal i hi => S.not_quick_of_free hc hal hi) fun hal => R.outside_free hc hal
  have hc1 : (g.setHdr c { k with prev := false }).hdr c = some { k with prev := false } := by simp
  have hkeep : ∀ x < c, ((s.put (headerOf c) ({ k with prev := false }.word ^^^ e.magic)).put
      (c + k.size) ({ k with prev := false }.word ^^^ e.magic)).mem x = s.mem x := by
    intro x hx
    simp only [State.put_mem]
    rw [if_neg (by omega), if_neg (by unfold headerOf; omega)]
  have hq : Quiet (g.setHdr c { k with prev := false }) (c + k.size) :=
    quiet_end (h := { k with prev := false }) R1.shape hc1
  refine .of_eq (R1.footer_ok hc1) ⟨?_, hkeep⟩
  rw [Pool.clearNext, hc]
  dsimp only
  split
  · exact R1.store_spoil (x := c + k.size) hq (by omega) (by simp only [Pool.setHdr_memEnd]; omega)
  · rename_i hal
    rw [Bool.not_eq_true] at hal
    exact R1.store_note (x := c + k.size) hq (by omega)
      (by simp only [Pool.setHdr_memEnd]; omega) ⟨c, _, hc1, hal, by omega, Nat.le_refl _⟩

/-- The block after is the end of the heap, and the word there has no size. -/
theorem free_next_end {t c : Nat} {h : Hdr} (L : g.Last t h) (hc : c = t + h.size)
    (hphantom : unflag (s.mem (headerOf c) ^^^ e.magic) = 0) :
    Ends (sf_free_next e c) s fun _ s' =>
      Represents e W m₀ s' (g.clearNext c) ∧ ∀ x < c, s'.mem x = s.mem x := by
  have S := R.shape
  have h1 := S.inside L.hdr
  have h2 := L.ends
  have h3 := S.limit
  have h4 := e.limit_lt
  have habove := fun b k hb => L.above S (b := b) (k := k) hb
  have hnone : g.hdr c = none := by
    cases hk : g.hdr c with
    | none => rfl
    | some k =>
      have := (habove c k hk).1
      omega
  have hmap : mapped e s (headerOf c) := by
    unfold headerOf
    exact R.mapped_heap (by omega) (by omega) (by omega)
  have hmapc : ∀ v, mapped e (s.put (headerOf c) v) c := fun v =>
    R.mapped_heap (by omega) (by omega) (by omega)
  have hun : unflag (clearPrev (s.mem (headerOf c) ^^^ e.magic)) = 0 := by
    unfold unflag clearPrev at *
    omega
  obtain ⟨w, hw⟩ : ∃ w, w = clearPrev (s.mem (headerOf c) ^^^ e.magic) ^^^ e.magic := ⟨_, rfl⟩
  have hput : (s.put (headerOf c) w).mem (headerOf c) = w := if_pos rfl
  have hrun : sf_free_next e c s = .ok ((), (s.put (headerOf c) w).put c w) := by
    unfold sf_free_next sf_set_block_footer
    rw [bind_ok (load_ok hmap), ← hw, bind_ok (store_ok hmap),
      bind_ok (load_ok (s := s.put _ _) hmap), hput]
    nth_rewrite 1 [hw]
    rw [xor_magic, hun, add64_of_lt (by omega)]
    exact store_ok (hmapc w)
  refine .of_eq hrun ⟨?_, fun x hx => ?_⟩
  · rw [Pool.clearNext, hnone]
    have R1 := R.store_spoil (x := c + 8) (v := w)
      (quiet_behind S L.hdr (fun b k hb => (habove b k hb).1) (by omega) (by omega)) (by omega)
      (by omega)
    exact R1.store_spoil (x := c) (v := w) (hc ▸ quiet_end R1.shape L.hdr) (by omega)
      (by simp only [Pool.spoil_memEnd]; omega)
  · simp only [State.put_mem]
    rw [if_neg (by omega), if_neg (by unfold headerOf; omega)]

/-- What an honest footer leads to is what the pool has before the block, also
when the other blocks have got new flags since. -/
theorem honest_past {b : Nat} {g' : Pool} (I : g.Settling e [])
    (hH : Honest e g b (unflag (s.mem b ^^^ e.magic))) (hend : g'.memEnd = g.memEnd)
    (hhdr : ∀ p k, p ≠ b → g.hdr p = some k →
      ∃ k', g'.hdr p = some k' ∧ k'.alloc = k.alloc ∧ k'.size = k.size) :
    PastSeen e g' b (unflag (s.mem b ^^^ e.magic)) (g.freeBefore b) := by
  cases hf : g.freeBefore b with
  | some p =>
    obtain ⟨k, hk, hal, hpb⟩ := Pool.freeBefore_some hf
    have h1 := I.inside hk
    obtain ⟨k', hk', h2, h3⟩ := hhdr p k (by omega) hk
    refine ⟨k', hk', h2.trans hal, by omega, ?_⟩
    rcases I.footed hk hal with ⟨w, hw, hun⟩ | ⟨hc, _⟩
    · rw [← hpb, R.known hw, xor_magic, hun, h3]
    · cases hc
  | none =>
    unfold Honest at hH
    unfold PastSeen
    dsimp only at hH ⊢
    rw [hend]
    rcases hH with h1 | h1 | ⟨k, hk, hpb, h2⟩
    · exact .inl h1
    · exact .inr (.inl h1)
    · obtain ⟨k', hk', h3, _⟩ := hhdr _ k hpb hk
      refine .inr (.inr ⟨k', hk', ?_⟩)
      rw [h3]
      cases hal : k.alloc with
      | true => rfl
      | false =>
        exact absurd (h2 hal) (Pool.freeBefore_none I List.not_mem_nil List.not_mem_nil hf hk hal)

theorem release_ends {b : Nat} {h : Hdr} (I : g.Settling e []) (hb : g.hdr b = some h)
    (hal : h.alloc = true) (hq : ∀ i < 10, b ∉ g.quick i) (hW : ∀ x, W x → x ≤ b ∨ b + h.size < x)
    (hphantom : g.Last b h → unflag (s.mem (headerOf (b + h.size)) ^^^ e.magic) = 0)
    {past : Option Nat}
    (hpast : PastSeen e (g.release b) b (unflag (s.mem b ^^^ e.magic)) past) :
    Ends (sf_free_main e b h.size h.prev) s fun _ s' =>
      Represents e W m₀ s' ((g.release b).coalesce b past ((g.release b).freeAfter b)) := by
  have S := R.shape
  have h1 := S.inside hb
  have h2 := S.lt_two_pow hb
  unfold sf_free_main
  rw [show sf_get_next_block b h.size = b + h.size from add64_of_lt (by omega)]
  -- the block after
  have hnext : Ends (sf_free_next e (b + h.size)) s fun _ s' =>
      Represents e W m₀ s' (g.clearNext (b + h.size)) ∧ ∀ x < b + h.size, s'.mem x = s.mem x := by
    rcases I.tiles.next (Pool.sizes_of_hdr hb) with hend | ⟨l, hl⟩
    · have L : g.Last b h := ⟨hb, by omega⟩
      exact R.free_next_end L rfl (hphantom L)
    · obtain ⟨k, hk, _⟩ := Pool.sizes_some.mp hl
      exact R.free_next_block hk
  refine hnext.step fun _ s1 h3 => ?_
  obtain ⟨R1, hkeep⟩ := h3
  have hb1 : (g.clearNext (b + h.size)).hdr b = some h := by
    rw [Pool.clearNext_hdr, if_neg (by omega)]
    exact hb
  have hquick : (g.clearNext (b + h.size)).quick = g.quick := by rw [Pool.clearNext_eq]
  -- the block itself
  have hword : (if h.prev then h.size ||| PREV_BLOCK_ALLOCATED else h.size) =
      { h with alloc := false }.word := by
    cases hp : h.prev with
    | true => exact or_prev_word (by omega)
    | false => rfl
  rw [hword]
  refine .run (store_ok (R1.mapped_header hb1)) ?_
  have R2 := R1.reflag (f := { h with alloc := false }) hb1 rfl nofun
    (fun _ i hi => by rw [hquick]; exact hq i hi) (fun _ => hW)
  have hb2 : ((g.clearNext (b + h.size)).setHdr b { h with alloc := false }).hdr b =
      some { h with alloc := false } := by simp
  refine .run (R2.footer_ok hb2) ?_
  have R3 := R2.store_note (x := b + h.size) (w := { h with alloc := false }.word)
    (quiet_end (h := { h with alloc := false }) R2.shape hb2) (by omega)
    (by have := R2.shape.inside hb2; dsimp only at this; omega)
    ⟨b, _, hb2, rfl, by omega, Nat.le_refl _⟩
  have hrel : g.release b = ((g.clearNext (b + h.size)).setHdr b { h with alloc := false }).note
      (b + h.size) { h with alloc := false }.word := by
    rw [Pool.release, hb]
  rw [← hrel] at R3
  have hb3 : (g.release b).hdr b = some { h with alloc := false } := by
    rw [Pool.release_hdr hb, if_pos rfl]
  -- the word in front of the block has not been written
  have hmem : ∀ v w, (((s1.put (headerOf b) v).put (b + h.size) w).mem b) = s.mem b := by
    intro v w
    simp only [State.put_mem]
    rw [if_neg (by omega), if_neg (by unfold headerOf; omega)]
    exact hkeep b (by omega)
  refine .run (load_ok (R3.mapped_start hb3)) ?_
  rw [show prevFooterOf b = b from rfl, hmem]
  refine (R3.coalesce_ends hb3 rfl (fun i hi hc => ?_) hpast ?_).step fun _ s5 R5 => .ret R5
  · rw [Pool.release_eq] at hc
    exact S.not_free_of_alloc hb hal hi hc
  · rw [show (g.release b).memEnd = g.memEnd by rw [Pool.release_eq]]
    rcases I.tiles.next (Pool.sizes_of_hdr hb) with hlast | ⟨l, hl⟩
    · exact .inl (by dsimp only; omega)
    · obtain ⟨k, hk, _⟩ := Pool.sizes_some.mp hl
      refine .inr ⟨{ k with prev := false }, ?_⟩
      dsimp only
      rw [Pool.release_hdr hb, if_neg (by omega), if_pos rfl, hk]
      rfl

end Represents

end StarterProjects.Sfmm
