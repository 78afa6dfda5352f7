import StarterProjects.Sfmm.Flush

/-!
# `sf_free` as a whole

The header of a block in use passes every check; what may still reject it is the
look at the block its own size leads back to. A block that passes goes on its
quick list, possibly through a flush, or to the free lists.
-/

namespace StarterProjects.Sfmm

open Lib Lib.Exec

/-- One link of a chain of tests. -/
theorem link_some {n a k i : Nat} {o : Option Nat} (h : (if n = a then some k else o) = some i) :
    n = a ∧ k = i ∨ o = some i := by
  split at h
  · next hn => exact .inl ⟨hn, Option.some.inj h⟩
  · exact .inr h

theorem quickIndex_some {n i : Nat} : quickIndex n = some i ↔ i < 10 ∧ n = 32 + 16 * i := by
  constructor
  · intro h
    unfold quickIndex at h
    repeat
      rcases link_some h with ⟨rfl, rfl⟩ | h
      · exact ⟨by decide, rfl⟩
    cases h
  · rintro ⟨hi, rfl⟩
    have hchain : ∀ i < 10, quickIndex (32 + 16 * i) = some i := by decide
    exact hchain i hi

namespace Pool

def push (g : Pool) (b i : Nat) : Pool := g.setQuick i (b :: g.quick i)

def freeBlock (g : Pool) (b : Nat) : Pool :=
  match quickIndex (g.sizeOf b) with
  | some i => if (g.quick i).length = QUICK_LIST_MAX then g.flush b i else g.push b i
  | none => g.freeMain b

variable {e : Env} {g : Pool}

theorem Inv.push (I : g.Inv e) {b i : Nat} {h : Hdr} (hi : i < 10) (hu : g.Used b h)
    (hsz : h.size = 32 + 16 * i) (hlen : (g.quick i).length ≠ QUICK_LIST_MAX) :
    (g.push b i).Inv e ∧ Takes g (g.push b i) b := by
  have hlen' := I.quick_len i hi
  refine ⟨I.set_quick (fun c hc => ?_) (List.nodup_cons.mpr ⟨hu.2.2 i hi, I.quick_nodup i hi⟩)
    (by rw [List.length_cons]; omega), ?_, ?_⟩
  · rcases List.mem_cons.mp hc with rfl | hc
    · exact ⟨h, hu.1, hu.2.1, hsz⟩
    · exact I.quick_mem hi hc
  · exact fun k hk => hk.2.2 i hi (by simp [Pool.push])
  · intro a n hab
    refine exists_congr fun k => and_congr ?_ Iff.rfl
    refine and_congr Iff.rfl (and_congr Iff.rfl (forall_congr' fun j => forall_congr' fun hj => ?_))
    simp only [Pool.push, setQuick_quick]
    split
    · rename_i hji
      rw [hji, List.mem_cons]
      simp [hab]
    · exact Iff.rfl

/-- `sf_free` keeps the invariant and takes one block out of use. -/
theorem Inv.freeBlock (I : g.Inv e) {b : Nat} {h : Hdr} (hu : g.Used b h)
    (hF : ∀ i, quickIndex h.size = some i → (g.quick i).length = QUICK_LIST_MAX →
      g.Flushable i) :
    (g.freeBlock b).Inv e ∧ Takes g (g.freeBlock b) b := by
  unfold Pool.freeBlock
  rw [sizeOf_of_hdr hu.1]
  cases hq : quickIndex h.size with
  | none => exact I.freeMain hu
  | some i =>
    obtain ⟨hi, hsz⟩ := quickIndex_some.mp hq
    dsimp only
    split
    · exact I.flush hi hu hsz (hF i hq ‹_›)
    · exact I.push hi hu hsz ‹_›

end Pool

/-- The PREV flag of the header `h` of `b` is clear, and what lies one block size
before `b` is in the heap and looks allocated. -/
def BadPast (e : Env) (s : State) (b h : Nat) : Prop :=
  h &&& PREV_BLOCK_ALLOCATED = 0 ∧ e.sf_mem_start ≤ sub64 b (stripFlags h) ∧
    sub64 b (stripFlags h) < s.sf_mem_end ∧
    (s.mem (headerOf (sub64 b (stripFlags h))) ^^^ e.magic) &&& THIS_BLOCK_ALLOCATED ≠ 0

instance (e : Env) (s : State) (b h : Nat) : Decidable (BadPast e s b h) :=
  inferInstanceAs (Decidable (_ ∧ _))

theorem pastRejected_eq {e : Env} {s : State} {b h : Nat} (hend : s.sf_mem_end % 16 = 0)
    (hb : b % 16 = 0) (hh : stripFlags h % 16 = 0) :
    pastRejected e s b h s = .ok (decide (BadPast e s b h), s) := by
  unfold pastRejected sf_get_past_block
  by_cases hp : h &&& PREV_BLOCK_ALLOCATED = 0
  · rw [if_pos hp]
    by_cases hin : sub64 b (stripFlags h) ≥ e.sf_mem_start ∧ sub64 b (stripFlags h) < s.sf_mem_end
    · have h16 : sub64 b (stripFlags h) % 16 = 0 := by
        unfold sub64
        omega
      have hmap : mapped e s (headerOf (sub64 b (stripFlags h))) :=
        ⟨by unfold headerOf; omega, .inl ⟨by unfold headerOf; omega, by unfold headerOf; omega⟩⟩
      rw [if_pos hin, bind_ok (load_ok hmap), pure_apply]
      congr 2
      exact decide_eq_decide.mpr ⟨fun hc => ⟨hp, hin.1, hin.2, hc⟩, fun hc => hc.2.2.2⟩
    · rw [if_neg hin, pure_apply,
        decide_eq_false fun hc : BadPast e s b h => hin ⟨hc.2.1, hc.2.2.1⟩]
  · rw [if_neg hp, pure_apply, decide_eq_false fun hc : BadPast e s b h => hp hc.1]

/-- An allocated block of the heap, as its header has it. -/
structure LiveBlock (e : Env) (s : State) (b : Nat) (h : Hdr) : Prop where
  alloc : h.alloc = true
  header : s.mem (headerOf b) = h.word ^^^ e.magic
  start : e.sf_mem_start ≤ b
  aligned : b % 16 = 0
  size_ge : 32 ≤ h.size
  size_mod : h.size % 16 = 0
  inside : b + h.size ≤ s.sf_mem_end
  limit : s.sf_mem_end < 2 ^ 64

namespace LiveBlock

variable {e : Env} {s : State} {b : Nat} {h : Hdr} (L : LiveBlock e s b h)

include L

theorem sub_header : sub64 (nextOf b) 16 = b := by
  have hinside := L.inside
  have hsize := L.size_ge
  have hlimit := L.limit
  unfold nextOf
  rw [sub64_of_le (by omega) (by omega)]
  omega

theorem mapped_header : mapped e s (headerOf b) := by
  have hinside := L.inside
  have hsize := L.size_ge
  have hstart := L.start
  have haligned := L.aligned
  unfold headerOf
  exact ⟨by omega, .inl ⟨by omega, by omega⟩⟩

/-- The header of an allocated block is in order. -/
theorem accepted : ¬ headerRejected e s (nextOf b) h.word := by
  have hsize := L.size_ge
  have hmod := L.size_mod
  have hinside := L.inside
  have hstart := L.start
  have hlimit := L.limit
  unfold headerRejected
  rw [Hdr.word_alloc (by omega), L.alloc, Hdr.stripFlags_word (by omega), L.sub_header,
    add64_of_lt (by omega)]
  simp only [if_true, ne_eq, not_true_eq_false, false_or, not_or]
  unfold nextOf
  omega

end LiveBlock

namespace Represents

variable {e : Env} {W : Nat → Prop} {m₀ : Nat → Nat} {s : State} {g : Pool}
  (R : Represents e W m₀ s g)

include R

theorem liveBlock {b : Nat} {h : Hdr} (hb : g.hdr b = some h) (hal : h.alloc = true) :
    LiveBlock e s b h := by
  have h1 := R.shape.inside hb
  have h2 := R.shape.lt_two_pow hb
  have h3 := R.shape.limit
  have h4 := e.limit_lt
  have h5 := R.memEnd
  exact ⟨hal, R.header hb, h1.1, h1.2.1, h1.2.2.1, h1.2.2.2.1, by omega, by omega⟩

/-- What the checks of `sf_free` leave of it, for an allocated block. -/
theorem free_checked {b : Nat} {h : Hdr} (hb : g.hdr b = some h) (hal : h.alloc = true) :
    sf_free e (nextOf b) s =
      if BadPast e s b h.word then .error .abort
      else (sf_put_in_quick_list e b h.size >>= fun quick =>
        if quick then pure () else sf_free_main e b h.size h.prev) s := by
  have h1 := R.shape.inside hb
  have h2 := R.shape.lt_two_pow hb
  have L := R.liveBlock hb hal
  have hprev : decide (h.word &&& PREV_BLOCK_ALLOCATED = 0x2) = h.prev := by
    rw [Hdr.word_prev (by omega)]
    cases h.prev <;> rfl
  have hpos := node_pos R.shape (.inr ⟨h, hb⟩)
  have hrej := pastRejected_eq (e := e) (s := s) (b := b) (h := h.word)
    (by rw [R.memEnd]; exact R.shape.end_aligned) (by omega)
    (by rw [Hdr.stripFlags_word (by omega)]; omega)
  unfold sf_free
  rw [L.sub_header]
  dsimp only
  rw [if_neg hpos, if_neg (by unfold nextOf; omega), bind_ok (get_apply s),
    bind_ok (R.load_header hb), xor_magic, if_neg L.accepted, bind_ok hrej,
    Hdr.stripFlags_word (by omega), hprev]
  by_cases hbad : BadPast e s b h.word
  · rw [if_pos hbad, if_pos (decide_eq_true hbad)]
    rfl
  · rw [if_neg hbad, if_neg (ne_true_of_eq_false (decide_eq_false hbad))]

/-- The block goes on a quick list that has room. -/
theorem push_ends {b i : Nat} {h : Hdr} (I : g.Inv e) (hi : i < 10) (hu : g.Used b h)
    (hsz : h.size = 32 + 16 * i) (hW : ∀ c ∈ b :: g.quick i, ¬ W (nextOf c))
    (hlen : (g.quick i).length ≠ QUICK_LIST_MAX) :
    Ends (sf_put_in_quick_list_helper e b i) s fun _ s' => Represents e W m₀ s' (g.push b i) := by
  obtain ⟨hc, hl⟩ := R.chain i hi (by rw [I.idle]; exact nofun)
  have hmap := R.mapped_next (y := b) (.inr ⟨h, hu.1⟩)
  have hb0 := node_pos R.shape (.inr ⟨h, hu.1⟩)
  have hne : ∀ c ∈ g.quick i, c ≠ b := fun c hc he => hu.2.2 i hi (he ▸ hc)
  -- both branches that push store the old front in the link
  have hrun : sf_put_in_quick_list_helper e b i s =
      (store e (nextOf b) (s.sf_quick_lists i).first >>= fun _ =>
        setQuick i ⟨(s.sf_quick_lists i).length + 1, b⟩) s := by
    unfold sf_put_in_quick_list_helper getQuick
    rw [bind_assoc, bind_ok (get_apply s), pure_bind, if_neg (by rw [hl]; exact hlen)]
    split
    · rfl
    · rename_i hf
      rw [not_ne_iff.mp hf]
  unfold Ends
  rw [hrun]
  refine Ends.run (store_ok hmap) (Ends.of_eq (modify_apply _ _) ?_)
  have R1 := R.store_link (v := (s.sf_quick_lists i).first) hu.1 hu.2.1 (hW b List.mem_cons_self)
    hu.2.2
  refine R1.set_quick (fun c hc => ⟨?_, hW c hc⟩)
    (List.nodup_cons.mpr ⟨hu.2.2 i hi, I.quick_nodup i hi⟩) ⟨rfl, hb0, ?_⟩ (by rw [hl]; rfl)
  · rcases List.mem_cons.mp hc with rfl | hc
    · exact ⟨h, hu.1, hu.2.1, hsz⟩
    · exact I.quick_mem hi hc
  · rw [nxt_put_next, if_pos rfl]
    exact hc.congr fun x hx => by rw [nxt_put_next, if_neg (hne x hx)]

/-- What `sf_free` needs of the memory around the block at `b`. -/
structure Freeable (e : Env) (W : Nat → Prop) (m₀ : Nat → Nat) (s : State) (g : Pool) (b : Nat)
    (h : Hdr) : Prop where
  /-- a full quick list can be flushed -/
  flush : ∀ i, quickIndex h.size = some i → (g.quick i).length = QUICK_LIST_MAX →
    g.Flushable i ∧ ∀ c ∈ g.quick i, if c ∈ (g.quick i).map (· + (32 + 16 * i)) then
      RawOutside e g.memEnd c ((32 + 16 * i) ^^^ e.magic)
      else W c ∧ c ∉ g.touched ∧ RawOutside e g.memEnd c (m₀ c)
  /-- the word in front of the block does not mislead -/
  honest : quickIndex h.size = none → Honest e g b (unflag (s.mem b ^^^ e.magic))
  /-- behind the last block there is no header with a size -/
  phantom : quickIndex h.size = none → g.Last b h →
    unflag (s.mem (headerOf (b + h.size)) ^^^ e.magic) = 0

/-- The words that `sf_free` does not take over, for a block at `b`. -/
structure Spared (e : Env) (g : Pool) (b : Nat) (h : Hdr) (x : Nat) : Prop where
  still : Still e g x
  not_link : x ≠ nextOf b
  not_freed : quickIndex h.size = none → x ≤ b ∨ b + h.size < x
  not_flushed : ∀ i, quickIndex h.size = some i → (g.quick i).length = QUICK_LIST_MAX →
    ∀ c ∈ g.quick i, x ≤ c ∨ c + (32 + 16 * i) < x

/-- `sf_free` on a block in use that the checks let pass. -/
theorem free_ends {b : Nat} {h : Hdr} (I : g.Inv e) (hu : g.Used b h)
    (hbad : ¬ BadPast e s b h.word) (hF : Freeable e W m₀ s g b h)
    (hW : ∀ x, W x → Spared e g b h x) :
    Ends (sf_free e (nextOf b)) s fun _ s' => Represents e W m₀ s' (g.freeBlock b) := by
  have h1 := R.shape.inside hu.1
  have hWb : ¬ W (nextOf b) := fun hc => (hW _ hc).not_link rfl
  unfold Ends
  rw [R.free_checked hu.1 hu.2.1, if_neg hbad, Pool.freeBlock, Pool.sizeOf_of_hdr hu.1]
  unfold sf_put_in_quick_list
  -- the block goes to the free lists at once, or to its quick list
  cases hq : quickIndex h.size with
  | none =>
    refine Ends.run rfl ?_
    exact R.release_ends I.toSettling hu.1 hu.2.1 hu.2.2 (fun x hx => (hW x hx).not_freed hq)
      (hF.phantom hq)
      (R.honest_past I.toSettling (hF.honest hq) (by rw [Pool.release_eq]) fun p k hp hk => by
        rw [Pool.release_hdr hu.1, if_neg hp]
        split
        · exact ⟨{ k with prev := false }, by rw [hk]; rfl, rfl, rfl⟩
        · exact ⟨k, hk, rfl, rfl⟩)
  | some i =>
    obtain ⟨hi, hsz⟩ := quickIndex_some.mp hq
    dsimp only
    rw [bind_assoc]
    -- a full quick list is flushed
    by_cases hlen : (g.quick i).length = QUICK_LIST_MAX
    · rw [if_pos hlen]
      have hl := (R.chain i hi (by rw [I.idle]; exact nofun)).2
      have hne : g.quick i ≠ [] := by
        intro he
        rw [he] at hlen
        cases hlen
      have hrun : sf_put_in_quick_list_helper e b i s = sf_flush_quick_list e b i s := by
        unfold sf_put_in_quick_list_helper getQuick
        rw [bind_assoc, bind_ok (get_apply s), pure_bind, if_pos (by rw [hl]; exact hlen)]
      obtain ⟨hfl, hraw⟩ := hF.flush i hq hlen
      have hflush : Ends (sf_put_in_quick_list_helper e b i) s fun _ s' =>
          Represents e W m₀ s' (g.flush b i) := by
        have hends := R.flush_ends I hi hu hsz hne hfl
          (fun c hc x hx => (hW x hx).not_flushed i hq hlen c hc) hWb hraw
        unfold Ends at hends ⊢
        rwa [hrun]
      exact hflush.step fun _ s1 R1 => .run rfl (.ret R1)
    · rw [if_neg hlen]
      refine (R.push_ends I hi hu hsz (fun c hc hWc => ?_) hlen).step fun _ s1 R1 =>
        .run rfl (.ret R1)
      rcases List.mem_cons.mp hc with rfl | hc
      · exact hWb hWc
      · exact (R.watch hWc).not_quick hi hc rfl

end Represents

end StarterProjects.Sfmm
