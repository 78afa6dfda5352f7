import StarterProjects.Sfmm.Free

/-!
# Flushing a quick list

`sf_flush_quick_list` first makes all blocks of the list free and then coalesces
them one after the other. In between they are free blocks that are in no list.
`Flushing` is what carries the second loop: the blocks that are still to come
are pending, no free block ends where one of them starts, and none of them
follows one that is coalesced earlier.
-/

namespace StarterProjects.Sfmm

open Lib Lib.Exec

namespace Pool

/-- The first loop, for one block. -/
def clearOne (g : Pool) (b : Nat) : Pool :=
  match g.hdr b with
  | some k => (g.setHdr b ⟨k.size, false, false⟩).note (b + k.size) (Hdr.mk k.size false false).word
  | none => g

/-- The second loop, for one block; no block before it is ever found. -/
def flushOne (g : Pool) (b : Nat) : Pool := g.coalesce b none (g.freeAfter b)

/-- The pool after the first loop, with the block in hand as the only one on the
quick list. -/
def flushStart (g : Pool) (b i : Nat) : Pool :=
  ((((g.setQuick i []).setBusy (some i)) |> (g.quick i).foldl clearOne).setBusy none).setQuick i [b]

def flush (g : Pool) (b i : Nat) : Pool := (g.quick i).foldl flushOne (g.flushStart b i)

variable {e : Env} {g : Pool}

/-! ## The first loop -/

/-- The blocks of `l` all have `n` bytes. -/
def Sized (g : Pool) (n : Nat) (l : List Nat) : Prop := ∀ b ∈ l, ∃ k, g.hdr b = some k ∧ k.size = n

theorem clearOne_eq {n b : Nat} {k : Hdr} (hb : g.hdr b = some k) (hn : k.size = n) :
    g.clearOne b = (g.setHdr b ⟨n, false, false⟩).note (b + n) (Hdr.mk n false false).word := by
  rw [clearOne, hb, ← hn]

theorem Sized.clearOne {n b : Nat} {l : List Nat} (h : g.Sized n (b :: l)) :
    (g.clearOne b).Sized n l := by
  intro c hc
  obtain ⟨k, hk, hn⟩ := h b List.mem_cons_self
  obtain ⟨k', hk', hn'⟩ := h c (List.mem_cons_of_mem _ hc)
  rw [clearOne_eq hk hn]
  by_cases hcb : c = b
  · exact ⟨⟨n, false, false⟩, by simp [hcb], rfl⟩
  · exact ⟨k', by simp only [note_hdr, setHdr_hdr, if_neg hcb]; exact hk', hn'⟩

theorem clear_hdr {n : Nat} : ∀ {l : List Nat} {g : Pool}, g.Sized n l → ∀ x,
    (l.foldl clearOne g).hdr x = if x ∈ l then some ⟨n, false, false⟩ else g.hdr x
  | [], _, _, _ => by simp
  | b :: l, g, h, x => by
    obtain ⟨k, hk, hn⟩ := h b List.mem_cons_self
    rw [List.foldl_cons, clear_hdr h.clearOne x, clearOne_eq hk hn]
    simp only [note_hdr, setHdr_hdr, List.mem_cons]
    by_cases hxl : x ∈ l
    · simp [hxl]
    · by_cases hxb : x = b <;> simp [hxl, hxb]

theorem clear_known {n : Nat} : ∀ {l : List Nat} {g : Pool}, g.Sized n l → ∀ x,
    (l.foldl clearOne g).known x =
      if x ∈ l.map (· + n) then some (Hdr.mk n false false).word else g.known x
  | [], _, _, _ => by simp
  | b :: l, g, h, x => by
    obtain ⟨k, hk, hn⟩ := h b List.mem_cons_self
    rw [List.foldl_cons, clear_known h.clearOne x, clearOne_eq hk hn]
    simp only [note_known, setHdr_known, List.map_cons, List.mem_cons]
    by_cases hxl : x ∈ l.map (· + n)
    · simp [hxl]
    · by_cases hxb : x = b + n <;> simp [hxl, hxb]

theorem clear_touched {n : Nat} : ∀ {l : List Nat} {g : Pool}, g.Sized n l → ∀ x,
    x ∈ (l.foldl clearOne g).touched ↔ x ∈ l.map (· + n) ∨ x ∈ g.touched
  | [], _, _, _ => by simp
  | b :: l, g, h, x => by
    obtain ⟨k, hk, hn⟩ := h b List.mem_cons_self
    rw [List.foldl_cons, clear_touched h.clearOne x, clearOne_eq hk hn]
    simp only [note_touched, setHdr_touched, List.map_cons, List.mem_cons]
    tauto

theorem clear_eq : ∀ (l : List Nat) (g : Pool), l.foldl clearOne g =
    { g with hdr := (l.foldl clearOne g).hdr, known := (l.foldl clearOne g).known,
             touched := (l.foldl clearOne g).touched }
  | [], _ => rfl
  | b :: l, g => by
    rw [List.foldl_cons, clear_eq l (g.clearOne b)]
    unfold clearOne
    split <;> rfl

theorem Shape.clear {n : Nat} : ∀ {l : List Nat} {g : Pool}, g.Shape e → g.Sized n l →
    (∀ b ∈ l, ∀ j < 10, b ∉ g.quick j) → (l.foldl clearOne g).Shape e
  | [], _, S, _, _ => S
  | b :: l, g, S, h, hq => by
    obtain ⟨k, hk, hn⟩ := h b List.mem_cons_self
    have h1 := S.inside hk
    have S1 := S.reflag (f := ⟨n, false, false⟩) hk hn.symm nofun
      fun _ j hj => hq b List.mem_cons_self j hj
    have S2 := S1.note (c := b + n) (w := (Hdr.mk n false false).word)
      ⟨b, ⟨n, false, false⟩, by simp, rfl, by omega, Nat.le_refl _⟩
    rw [List.foldl_cons]
    rw [← clearOne_eq hk hn] at S2
    refine Shape.clear S2 h.clearOne fun c hc j hj => ?_
    rw [clearOne_eq hk hn]
    exact hq c (List.mem_cons_of_mem _ hc) j hj

section Start

variable {b i : Nat} {h : Hdr} (I : g.Inv e) (hi : i < 10) (hu : g.Used b h)
  (hsz : h.size = 32 + 16 * i)

include I hi

theorem quick_sized :
    ((g.setQuick i []).setBusy (some i)).Sized (32 + 16 * i) (g.quick i) := fun _ hb => by
  obtain ⟨k, hk, _, hn⟩ := I.quick_mem hi hb
  exact ⟨k, hk, hn⟩

theorem flushStart_hdr (x : Nat) : (g.flushStart b i).hdr x =
    if x ∈ g.quick i then some ⟨32 + 16 * i, false, false⟩ else g.hdr x :=
  clear_hdr (quick_sized I hi) x

theorem flushStart_known (x : Nat) : (g.flushStart b i).known x =
    if x ∈ (g.quick i).map (· + (32 + 16 * i)) then
      some (Hdr.mk (32 + 16 * i) false false).word else g.known x :=
  clear_known (quick_sized I hi) x

theorem flushStart_touched (x : Nat) : x ∈ (g.flushStart b i).touched ↔
    x ∈ (g.quick i).map (· + (32 + 16 * i)) ∨ x ∈ g.touched :=
  clear_touched (quick_sized I hi) x

omit I hi in
theorem flushStart_eq : g.flushStart b i =
    { g with hdr := (g.flushStart b i).hdr, known := (g.flushStart b i).known,
             touched := (g.flushStart b i).touched,
             quick := fun j => if j = i then [b] else if j = i then [] else g.quick j,
             busy := none } := by
  unfold flushStart
  rw [clear_eq]
  rfl

theorem not_other_quick {c j : Nat} (hc : c ∈ g.quick i) (hj : j < 10) (hji : j ≠ i) :
    c ∉ g.quick j := by
  intro hcj
  obtain ⟨k, hk, _, hn⟩ := I.quick_mem hi hc
  obtain ⟨k', hk', _, hn'⟩ := I.quick_mem hj hcj
  rw [hk] at hk'
  cases hk'
  omega

theorem flushStart_takes : Takes g (g.flushStart b i) b := by
  have hhdr := flushStart_hdr (b := b) I hi
  have heq := flushStart_eq (g := g) (b := b) (i := i)
  have hq : ∀ j, (g.flushStart b i).quick j = if j = i then [b] else g.quick j := by
    intro j
    rw [heq]
    dsimp only
    split <;> rfl
  refine ⟨fun k hk => hk.2.2 i hi (by rw [hq, if_pos rfl]; exact List.mem_cons_self), ?_⟩
  intro a n hab
  refine exists_congr fun k => and_congr ?_ Iff.rfl
  unfold Used
  rw [hhdr]
  by_cases ha : a ∈ g.quick i
  · rw [if_pos ha]
    refine iff_of_false ?_ fun hc => hc.2.2 i hi ha
    rintro ⟨h1, h2, _⟩
    cases h1
    cases h2
  · rw [if_neg ha]
    refine and_congr Iff.rfl (and_congr Iff.rfl (forall_congr' fun j => forall_congr' fun hj => ?_))
    rw [hq]
    split
    · rename_i hji
      rw [hji]
      simp [hab, ha]
    · rfl

include hu hsz

theorem flushStart_shape : (g.flushStart b i).Shape e := by
  have S := I.toShape
  have S1 : ((g.setQuick i []).setBusy (some i)).Shape e :=
    { S.set_quick (i := i) (l := []) nofun List.nodup_nil with }
  have S2 := S1.clear (n := 32 + 16 * i) (l := g.quick i) (quick_sized I hi) (by
    intro c hc j hj
    simp only [setBusy_quick, setQuick_quick]
    split
    · exact List.not_mem_nil
    · exact not_other_quick I hi hc hj ‹_›)
  have S3 :
      (((g.quick i).foldl clearOne ((g.setQuick i []).setBusy (some i))).setBusy none).Shape e :=
    { S2 with }
  refine S3.set_quick (fun c hc => ?_) (List.nodup_singleton b)
  rw [List.mem_singleton.mp hc]
  refine ⟨h, ?_, hu.2.1, hsz⟩
  have h1 := flushStart_hdr (b := b) I hi b
  rw [if_neg (hu.2.2 i hi)] at h1
  exact h1.trans hu.1

theorem flushStart_settling : (g.flushStart b i).Settling e (g.quick i) := by
  have S := I.toShape
  have hhdr := flushStart_hdr (b := b) I hi
  have hkn := flushStart_known (b := b) I hi
  have heq := flushStart_eq (g := g) (b := b) (i := i)
  have hquick : ∀ c ∈ g.quick i, ∃ k, g.hdr c = some k ∧ k.alloc = true ∧ k.size = 32 + 16 * i :=
    fun c hc => I.quick_mem hi hc
  -- a block is one of the flushed ones, or an old one
  have hold : ∀ {x k}, (g.flushStart b i).hdr x = some k →
      (x ∈ g.quick i ∧ k = ⟨32 + 16 * i, false, false⟩) ∨ (x ∉ g.quick i ∧ g.hdr x = some k) := by
    intro x k hx
    rw [hhdr] at hx
    split at hx
    · cases hx
      exact .inl ⟨‹_›, rfl⟩
    · exact .inr ⟨‹_›, hx⟩
  refine { flushStart_shape I hi hu hsz with
    tiles := ?_
    pending := ?_
    listed := ?_
    quick_len := ?_
    coalesced := ?_
    footed := ?_
    end_inside := ?_ }
  · rw [show (g.flushStart b i).memEnd = g.memEnd by rw [heq]]
    refine I.tiles.congr fun x => ?_
    unfold sizes
    rw [hhdr]
    split
    · obtain ⟨k, hk, _, hn⟩ := hquick x ‹_›
      rw [hk, Option.map_some, Option.map_some, hn]
    · rfl
  · intro c hc
    refine ⟨_, (hhdr c).trans (if_pos hc), rfl, fun j hj => ?_⟩
    obtain ⟨k, hk, hal, _⟩ := hquick c hc
    rw [heq]
    exact S.not_free_of_alloc hk hal hj
  · intro a k ha hal hn
    rcases hold ha with ⟨h1, _⟩ | ⟨_, ha⟩
    · exact absurd h1 hn
    · rw [heq]
      exact I.listed ha hal List.not_mem_nil
  · intro j hj
    rw [heq]
    dsimp only
    split
    · exact Nat.le_of_ble_eq_true rfl
    · exact I.quick_len j hj
  · intro a k l ha hl hal hlal
    rcases hold ha with ⟨h1, _⟩ | ⟨_, ha⟩
    · exact .inl h1
    · rcases hold hl with ⟨h1, _⟩ | ⟨_, hl⟩
      · exact .inr h1
      · exact absurd (I.coalesced ha hl hal hlal) (by simp)
  · intro a k ha hal
    left
    rw [hkn]
    rcases hold ha with ⟨h1, rfl⟩ | ⟨h1, ha⟩
    · rw [if_pos (List.mem_map.mpr ⟨a, h1, rfl⟩)]
      exact ⟨_, rfl, Hdr.unflag_word (by dsimp only; omega)⟩
    · have hne : a + k.size ∉ (g.quick i).map (· + (32 + 16 * i)) := by
        intro hm
        obtain ⟨c, hc, hce⟩ := List.mem_map.mp hm
        obtain ⟨k', hk', hkal, hn⟩ := hquick c hc
        have h2 := S.inside ha
        have h3 := S.inside hk'
        rcases S.cases_apart ha hk' with rfl | h4 | h4
        · exact h1 hc
        · omega
        · omega
      rw [if_neg hne]
      exact I.footer ha hal
  · rw [heq]
    exact I.end_inside

end Start

/-! ## The second loop -/

structure Flushing (e : Env) (g : Pool) (n : Nat) (rest : List Nat) : Prop where
  settling : g.Settling e rest
  nodup : rest.Nodup
  hdr : ∀ b ∈ rest, g.hdr b = some ⟨n, false, false⟩
  order : rest.Pairwise fun b c => b + n ≠ c
  before : ∀ m ∈ rest, ∀ a k, g.hdr a = some k → k.alloc = false → a + k.size = m → a ∈ rest
  idle : g.busy = none

theorem Flushing.next {n m : Nat} {rest : List Nat} (F : Flushing e g n (m :: rest)) :
    g.freeAfter m = none ∨ g.freeAfter m = some (m + n) ∧ m + n ∉ rest := by
  have hm := F.hdr m List.mem_cons_self
  cases hf : g.freeAfter m with
  | none => exact .inl rfl
  | some c =>
    obtain ⟨rfl, _⟩ := freeAfter_some hf
    rw [sizeOf_of_hdr hm]
    refine .inr ⟨rfl, fun hc => ?_⟩
    exact (List.pairwise_cons.mp F.order).1 _ hc rfl

/-- What one turn does, as seen from the blocks still to come: the block has
become part of a free block that ends before none of them, and nothing about
them has changed. -/
theorem flushOne_spec {n m : Nat} {rest : List Nat} (F : Flushing e g n (m :: rest)) :
    ∃ size, m + size ∉ rest ∧
      (∀ x k, (g.flushOne m).hdr x = some k → k.alloc = false →
        (x = m ∧ k.size = size) ∨ (x ≠ m ∧ g.hdr x = some k)) ∧
      ∀ x ∈ rest, (g.flushOne m).hdr x = g.hdr x ∧ (g.flushOne m).known x = g.known x ∧
        (x ∈ (g.flushOne m).touched ↔ x ∈ g.touched) := by
  have hm := F.hdr m List.mem_cons_self
  have hmr : ∀ x ∈ rest, x ≠ m := fun x hx he => (List.nodup_cons.mp F.nodup).1 (he ▸ hx)
  have hsz : g.sizeOf m = n := sizeOf_of_hdr hm
  unfold flushOne
  -- no free block behind `m`, or one that is not waiting to be flushed itself
  rcases F.next with hf | ⟨hf, hnr⟩
  · rw [hf, coalesce, hsz]
    refine ⟨n, fun hc => (List.pairwise_cons.mp F.order).1 _ hc rfl, fun x k hx _ => ?_,
      fun x _ => ⟨rfl, rfl, Iff.rfl⟩⟩
    by_cases hxm : x = m
    · change g.hdr x = some k at hx
      rw [hxm, hm] at hx
      cases hx
      exact .inl ⟨hxm, rfl⟩
    · exact .inr ⟨hxm, hx⟩
  · obtain ⟨_, k, hk, hkal⟩ := freeAfter_some hf
    have h1 := F.settling.inside hk
    have h2 := F.settling.inside hm
    have hend : m + (n + k.size) ∉ rest := by
      intro hc
      rw [← Nat.add_assoc] at hc
      have h3 := F.before _ (List.mem_cons_of_mem _ hc) _ k hk hkal rfl
      rcases List.mem_cons.mp h3 with h3 | h3
      · dsimp only at h2
        omega
      · exact hnr h3
    rw [hf, coalesce, hsz, sizeOf_of_hdr hk]
    refine ⟨n + k.size, hend, fun x l hx _ => ?_, fun x hx => ?_⟩
    · rw [makeFree_hdr] at hx
      split at hx
      · cases hx
        exact .inl ⟨‹_›, rfl⟩
      · split at hx
        · cases hx
        · exact .inr ⟨‹_›, hx⟩
    · have h3 := hmr x hx
      have h4 : x ≠ m + n := fun he => hnr (he ▸ hx)
      have h5 : x ≠ m + (n + k.size) := fun he => hend (he ▸ hx)
      refine ⟨?_, ?_, ?_⟩
      · rw [makeFree_hdr, if_neg h3, if_neg (by simpa using h4)]
        rfl
      · rw [makeFree_known, if_neg h5, if_neg h3]
        rfl
      · simp only [makeFree, put_touched, note_touched, spoil_touched, fuse_touched, erase_touched,
          List.mem_cons, h5, h3, false_or]

theorem Flushing.step {n m : Nat} {rest : List Nat} (F : Flushing e g n (m :: rest)) :
    Flushing e (g.flushOne m) n rest := by
  have hm := F.hdr m List.mem_cons_self
  have hmr : ∀ x ∈ rest, x ≠ m := fun x hx he => (List.nodup_cons.mp F.nodup).1 (he ▸ hx)
  obtain ⟨size, hend, hfree, hrest⟩ := flushOne_spec F
  refine
  { settling := ?_
    nodup := (List.nodup_cons.mp F.nodup).2
    hdr := fun b hb => (hrest b hb).1.trans (F.hdr b (List.mem_cons_of_mem _ hb))
    order := (List.pairwise_cons.mp F.order).2
    before := ?_
    idle := by rw [flushOne, coalesce_busy]; exact F.idle }
  · refine F.settling.coalesce (List.nodup_cons.mp F.nodup).1 hm nofun ?_ ?_
    · intro _ a k ha hal ham
      have h1 := F.before m List.mem_cons_self a k ha hal ham
      have h2 := F.settling.inside ha
      exact (List.mem_cons.mp h1).resolve_left (by omega)
    · intro c hc
      rcases F.next with hf | ⟨hf, hnr⟩
      · rw [hf] at hc
        cases hc
      · rw [hf] at hc
        cases hc
        exact hnr
  · intro b hb a k ha hal hab
    rcases hfree a k ha hal with ⟨rfl, rfl⟩ | ⟨ham, ha'⟩
    · exact absurd (hab ▸ hb) hend
    · exact (List.mem_cons.mp (F.before b (List.mem_cons_of_mem _ hb) a k ha' hal hab)).resolve_left
        ham

theorem Flushing.run {n : Nat} : ∀ {rest : List Nat} {g : Pool}, Flushing e g n rest →
    (rest.foldl flushOne g).Inv e ∧ SameUsed g (rest.foldl flushOne g)
  | [], g, F => ⟨{ F.settling with idle := F.idle }, SameUsed.refl g⟩
  | m :: rest, g, F => by
    obtain ⟨h1, h2⟩ := F.step.run
    have hm := F.hdr m List.mem_cons_self
    have hsame : SameUsed g (g.flushOne m) := coalesce_sameUsed hm rfl nofun
    exact ⟨h1, hsame.trans h2⟩

/-! ## The whole flush -/

/-- The order of the blocks on a quick list, and the free blocks around them,
that a flush can cope with. -/
structure Flushable (g : Pool) (i : Nat) : Prop where
  order : (g.quick i).Pairwise fun b c => b + (32 + 16 * i) ≠ c
  before : ∀ m ∈ g.quick i, ∀ a k, g.hdr a = some k → k.alloc = false → a + k.size ≠ m

theorem flushStart_flushing {b i : Nat} {h : Hdr} (I : g.Inv e) (hi : i < 10) (hu : g.Used b h)
    (hsz : h.size = 32 + 16 * i) (hF : g.Flushable i) :
    Flushing e (g.flushStart b i) (32 + 16 * i) (g.quick i) := by
  have hhdr := flushStart_hdr (b := b) I hi
  exact
  { settling := flushStart_settling I hi hu hsz
    nodup := I.quick_nodup i hi
    hdr := fun c hc => (hhdr c).trans (if_pos hc)
    order := hF.order
    before := by
      intro m hm a k ha hal ham
      rw [hhdr] at ha
      split at ha
      · assumption
      · exact absurd ham (hF.before m hm a k ha hal)
    idle := by rw [flushStart_eq] }

theorem Inv.flush {b i : Nat} {h : Hdr} (I : g.Inv e) (hi : i < 10) (hu : g.Used b h)
    (hsz : h.size = 32 + 16 * i) (hF : g.Flushable i) :
    (g.flush b i).Inv e ∧ Takes g (g.flush b i) b := by
  obtain ⟨h1, h2⟩ := (flushStart_flushing I hi hu hsz hF).run
  exact ⟨h1, (flushStart_takes I hi).sameUsed h2⟩

end Pool

/-- What `sf_flush_quick_list` passes as the footer leads out of the heap. -/
def RawOutside (e : Env) (memEnd b footer : Nat) : Prop :=
  let p := if footer > 0 then sf_get_past_block b footer else NULL
  p < e.sf_mem_start ∨ memEnd - 16 ≤ p

instance (e : Env) (memEnd b footer : Nat) : Decidable (RawOutside e memEnd b footer) :=
  inferInstanceAs (Decidable (_ ∨ _))

namespace Represents

variable {e : Env} {W : Nat → Prop} {m₀ : Nat → Nat} {s : State} {g : Pool}
  (R : Represents e W m₀ s g)

include R

omit R in
/-- The first loop. The links of the blocks to come are still in place. -/
theorem flush_clear_ends {n : Nat} : ∀ {l : List Nat} {room head : Nat} {s : State} {g : Pool},
    Represents e W m₀ s g → g.Sized n l → l.Nodup → (∀ b ∈ l, ∀ j < 10, b ∉ g.quick j) →
      Chain s.nxt NULL head l → l.length ≤ room → (∀ b ∈ l, ∀ x, W x → x ≤ b ∨ b + n < x) →
      Ends (sf_flush_clear e room head) s fun r s' =>
        r = l ∧ Represents e W m₀ s' (l.foldl Pool.clearOne g)
  | [], room, head, s, g, R, _, _, _, hc, _, _ => by
    have hc' : head = NULL := hc
    cases room <;> show Ends (if head = NULL then pure [] else load e (headerOf head) >>= _) s _ <;>
      rw [if_pos hc'] <;> exact .ret ⟨rfl, R⟩
  | b :: l, 0, _, _, _, _, _, _, _, _, hlen, _ => absurd hlen (Nat.not_succ_le_zero _)
  | b :: l, room + 1, head, s, g, R, hz, hnd, hq, hc, hlen, hW => by
    obtain ⟨rfl, hb0, hc⟩ := hc
    obtain ⟨k, hk, hn⟩ := hz head List.mem_cons_self
    have S := R.shape
    have h1 := S.inside hk
    show Ends (if head = NULL then pure [] else load e (headerOf head) >>= _) s _
    rw [if_neg hb0]
    refine .run (R.load_header hk) ?_
    rw [xor_magic, Hdr.unflag_word (by omega), hn]
    refine .run (store_ok (R.mapped_header hk)) ?_
    have R1 := R.reflag (f := ⟨n, false, false⟩) hk hn.symm nofun
      (fun _ j hj => hq head List.mem_cons_self j hj) fun _ => hn ▸ hW head List.mem_cons_self
    have hk1 : (g.setHdr head ⟨n, false, false⟩).hdr head = some ⟨n, false, false⟩ := by simp
    refine .run (R1.footer_ok hk1) ?_
    have hquiet := quiet_end R1.shape hk1
    have R2 := R1.store_note (x := head + n) (w := (Hdr.mk n false false).word) hquiet (by omega)
      (by have := R1.shape.inside hk1; dsimp only at this; omega)
      ⟨head, _, hk1, rfl, by omega, Nat.le_refl _⟩
    rw [← Pool.clearOne_eq hk hn] at R2
    -- neither store hits a link
    have hlink : ∀ x, (∃ h, g.hdr x = some h) →
        ((s.put (headerOf head) ((Hdr.mk n false false).word ^^^ e.magic)).put (head + n)
          ((Hdr.mk n false false).word ^^^ e.magic)).nxt x = s.nxt x := by
      rintro x ⟨h, hx⟩
      have h2 := S.inside hx
      have h3 := S.cases_apart hx hk
      unfold State.nxt
      simp only [State.put_mem]
      rw [if_neg (by unfold nextOf; omega), if_neg (by unfold nextOf headerOf; omega)]
    have hnode : Node e (g.clearOne head) head := by
      refine .inr ⟨⟨n, false, false⟩, ?_⟩
      rw [Pool.clearOne_eq hk hn]
      simp
    refine .run (R2.load_next hnode) ?_
    rw [hlink head ⟨k, hk⟩]
    have hnd' := List.nodup_cons.mp hnd
    have hrec := flush_clear_ends R2 hz.clearOne hnd'.2 (fun c hcm j hj => by
        rw [Pool.clearOne_eq hk hn]
        exact hq c (List.mem_cons_of_mem _ hcm) j hj)
      (hc.congr fun x hx => hlink x ((hz x (List.mem_cons_of_mem _ hx)).imp fun _ h => h.1))
      (Nat.le_of_succ_le_succ hlen) (fun c hcm => hW c (List.mem_cons_of_mem _ hcm))
    refine hrec.step fun r s' hr => .ret ⟨?_, ?_⟩
    · rw [hr.1]
    · exact hr.2

/-- A pending block is coalesced by a footer that leads out of the heap. -/
theorem flush_one_ends {n m : Nat} {rest : List Nat} (F : Pool.Flushing e g n (m :: rest))
    (hraw : RawOutside e g.memEnd m (s.mem m)) :
    Ends (sf_flush_one e m) s fun _ s' => Represents e W m₀ s' (g.flushOne m) := by
  have hm := F.hdr m List.mem_cons_self
  obtain ⟨k, hk, _, hun⟩ := F.settling.pending m List.mem_cons_self
  unfold sf_flush_one
  refine .run (R.block_sz_ok hm) (.run (load_ok (R.mapped_start hm)) ?_)
  have hpast : PastSeen e g m (s.mem m) none := hraw.imp id .inl
  refine (R.coalesce_ends hm rfl hun hpast ?_).step fun _ s1 R1 => .ret R1
  rcases F.settling.tiles.next (Pool.sizes_of_hdr hm) with hend | ⟨l, hl⟩
  · have := F.settling.inside hm
    exact .inl (by omega)
  · exact .inr ((Pool.sizes_some.mp hl).imp fun _ h => h.1)

/-- What is known of the word in front of a pending block. -/
def RawSafe (e : Env) (W : Nat → Prop) (m₀ : Nat → Nat) (g : Pool) (b : Nat) : Prop :=
  (∃ w, g.known b = some w ∧ RawOutside e g.memEnd b (w ^^^ e.magic)) ∨
    (W b ∧ b ∉ g.touched ∧ RawOutside e g.memEnd b (m₀ b))

omit R in
/-- The second loop. -/
theorem flush_loop_ends {n : Nat} : ∀ {rest : List Nat} {s : State} {g : Pool},
    Represents e W m₀ s g → Pool.Flushing e g n rest → (∀ b ∈ rest, RawSafe e W m₀ g b) →
      Ends (forEach (sf_flush_one e) rest) s fun _ s' =>
        Represents e W m₀ s' (rest.foldl Pool.flushOne g)
  | [], _, _, R, _, _ => .ret R
  | m :: rest, s, g, R, F, hraw => by
    have hm : RawOutside e g.memEnd m (s.mem m) := by
      rcases hraw m List.mem_cons_self with ⟨w, hw, hout⟩ | ⟨hW, ht, hout⟩
      · rw [R.known hw]
        exact hout
      · rw [R.kept hW ht]
        exact hout
    refine (R.flush_one_ends F hm).step fun _ s1 R1 => ?_
    refine flush_loop_ends R1 F.step fun b hb => ?_
    obtain ⟨_, _, _, hrest⟩ := Pool.flushOne_spec F
    obtain ⟨_, hk, ht⟩ := hrest b hb
    have hend : (g.flushOne m).memEnd = g.memEnd := by
      unfold Pool.flushOne
      cases g.freeAfter m <;> rfl
    unfold RawSafe
    rw [hk, ht, hend]
    exact hraw b (List.mem_cons_of_mem _ hb)

/-- A quick list is about to be flushed: its blocks leave it. -/
theorem start_flush {i : Nat} (hbusy : g.busy = none) :
    Represents e W m₀ s ((g.setQuick i []).setBusy (some i)) :=
  { R with
    shape := { R.shape.set_quick (i := i) (l := []) nofun List.nodup_nil with }
    chain := by
      intro j hj hjb
      have hji : j ≠ i := fun he => hjb (by rw [he]; rfl)
      simp only [Pool.setBusy_quick, Pool.setQuick_quick, if_neg hji]
      exact R.chain j hj (by rw [hbusy]; exact nofun)
    watch := fun hx =>
      { R.watch hx with
        not_quick := by
          intro j a hj ha
          simp only [Pool.setBusy_quick, Pool.setQuick_quick] at ha
          split at ha
          · cases ha
          · exact (R.watch hx).not_quick hj ha } }

/-- The quick list holds the one block that has just been freed. -/
theorem finish_flush {b i : Nat} {h : Hdr} (hbusy : g.busy = some i) (hb : g.hdr b = some h)
    (hal : h.alloc = true) (hsz : h.size = 32 + 16 * i) (hW : ¬ W (nextOf b))
    (hnext : s.nxt b = NULL) :
    Represents e W m₀ (s.withQuick i ⟨1, b⟩) ((g.setBusy none).setQuick i [b]) := by
  have hmem : ∀ c ∈ [b], ∃ k, g.hdr c = some k ∧ k.alloc = true ∧ k.size = 32 + 16 * i := by
    intro c hc
    rw [List.mem_singleton.mp hc]
    exact ⟨h, hb, hal, hsz⟩
  have hb0 := node_pos R.shape (.inr ⟨h, hb⟩)
  exact
  { R with
    shape := { R.shape.set_quick (i := i) (l := [b]) hmem (List.nodup_singleton b) with }
    chain := by
      intro j hj _
      simp only [Pool.setQuick_quick, Pool.setBusy_quick, State.withQuick]
      split
      · exact ⟨⟨rfl, hb0, hnext⟩, rfl⟩
      · rename_i hji
        exact R.chain j hj (by rw [hbusy]; exact fun he => hji (Option.some.inj he).symm)
    watch := fun hx =>
      { R.watch hx with
        not_quick := by
          intro j a hj ha
          simp only [Pool.setQuick_quick, Pool.setBusy_quick] at ha
          split at ha
          · rw [List.mem_singleton.mp ha]
            rintro rfl
            exact hW hx
          · exact (R.watch hx).not_quick hj ha } }

/-- `sf_flush_quick_list` on a full list. -/
theorem flush_ends {b i : Nat} {h : Hdr} (I : g.Inv e) (hi : i < 10) (hu : g.Used b h)
    (hsz : h.size = 32 + 16 * i) (hne : g.quick i ≠ []) (hF : g.Flushable i)
    (hWq : ∀ c ∈ g.quick i, ∀ x, W x → x ≤ c ∨ c + (32 + 16 * i) < x) (hW : ¬ W (nextOf b))
    (hraw : ∀ c ∈ g.quick i, if c ∈ (g.quick i).map (· + (32 + 16 * i)) then
      RawOutside e g.memEnd c ((32 + 16 * i) ^^^ e.magic)
      else W c ∧ c ∉ g.touched ∧ RawOutside e g.memEnd c (m₀ c)) :
    Ends (sf_flush_quick_list e b i) s fun _ s' => Represents e W m₀ s' (g.flush b i) := by
  obtain ⟨hc, hlen⟩ := R.chain i hi (by rw [I.idle]; exact nofun)
  have hlen0 : (s.sf_quick_lists i).length ≠ 0 := by
    rw [hlen]
    exact fun he => hne (List.length_eq_zero_iff.mp he)
  have hz := Pool.quick_sized I hi
  unfold sf_flush_quick_list getQuick
  rw [bind_assoc]
  refine .run (get_apply s) ?_
  rw [pure_bind, if_pos hlen0]
  have hclear := flush_clear_ends (R.start_flush I.idle (i := i)) hz (I.quick_nodup i hi)
    (fun c hc j hj => by
      simp only [Pool.setBusy_quick, Pool.setQuick_quick]
      split
      · exact List.not_mem_nil
      · exact Pool.not_other_quick I hi hc hj ‹_›)
    hc (I.quick_len i hi) hWq
  refine hclear.step fun l s1 hr => ?_
  obtain ⟨rfl, R1⟩ := hr
  -- the block in hand is still allocated and on no list
  have hb1 : ((g.quick i).foldl Pool.clearOne
      ((g.setQuick i []).setBusy (some i))).hdr b = some h := by
    rw [Pool.clear_hdr hz, if_neg (hu.2.2 i hi)]
    exact hu.1
  have hbusy1 : ((g.quick i).foldl Pool.clearOne
      ((g.setQuick i []).setBusy (some i))).busy = some i := by
    rw [Pool.clear_eq]
    rfl
  refine .run (store_ok (R1.mapped_next (.inr ⟨h, hb1⟩))) ?_
  have R2 := R1.store_link (v := NULL) hb1 hu.2.1 hW fun j hj hm => by
    rw [Pool.clear_eq] at hm
    simp only [Pool.setBusy_quick, Pool.setQuick_quick] at hm
    split at hm
    · cases hm
    · exact hu.2.2 j hj hm
  refine .run (modify_apply _ _) ?_
  have R3 := R2.finish_flush hbusy1 hb1 hu.2.1 hsz hW (by rw [nxt_put_next, if_pos rfl])
  refine flush_loop_ends R3 (Pool.flushStart_flushing I hi hu hsz hF) fun c hc => ?_
  have hkn := Pool.flushStart_known (b := b) I hi c
  have ht := Pool.flushStart_touched (b := b) I hi c
  have hend : (g.flushStart b i).memEnd = g.memEnd := by rw [Pool.flushStart_eq]
  have h1 := hraw c hc
  unfold RawSafe
  by_cases hm : c ∈ (g.quick i).map (· + (32 + 16 * i))
  · rw [if_pos hm] at h1 hkn
    exact .inl ⟨_, hkn, by rw [hend]; exact h1⟩
  · rw [if_neg hm] at h1
    exact .inr ⟨h1.1, fun hc => (ht.mp hc).elim hm h1.2.1, by rw [hend]; exact h1.2.2⟩

end Represents

end StarterProjects.Sfmm
