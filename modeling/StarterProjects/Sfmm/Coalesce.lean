import StarterProjects.Sfmm.Lists

/-!
# Coalescing

`sf_coalesce` on a free block that is in no list, when what it takes for the
block before is either the true free neighbour or nothing it may merge with.
-/

namespace StarterProjects.Sfmm

open Lib Lib.Exec

namespace Pool

/-- A free block swallows the free blocks up to a boundary. -/
structure Fusable (e : Env) (g : Pool) (b size : Nat) (drop : List Nat) : Prop where
  start : ∃ h, g.hdr b = some h ∧ h.alloc = false ∧ h.size ≤ size
  not_mem : b ∉ drop
  aligned : size % 16 = 0
  inside : b + size + 16 ≤ g.memEnd
  swallows : ∀ y ∈ drop, ∀ k, g.hdr y = some k → k.alloc = false ∧ b ≤ y ∧ y + k.size ≤ b + size
  covers : ∀ y k, g.hdr y = some k → y ≠ b → y ∉ drop → y + k.size ≤ b ∨ b + size ≤ y
  unlisted : ∀ i < 10, b ∉ g.free i ∧ ∀ y ∈ drop, y ∉ g.free i

/-- The blocks of the new pool: the fused one, and old ones outside it. -/
theorem Fusable.hdr_cases {e : Env} {g : Pool} {b size : Nat} {drop : List Nat}
    (F : Fusable e g b size drop) {x : Nat} {k : Hdr} (hx : (g.fuse b size drop).hdr x = some k) :
    (x = b ∧ k = ⟨size, false, true⟩) ∨
      (x ≠ b ∧ x ∉ drop ∧ g.hdr x = some k ∧ (x + k.size ≤ b ∨ b + size ≤ x)) := by
  simp only [fuse_hdr] at hx
  split at hx
  · cases hx
    exact .inl ⟨‹_›, rfl⟩
  · rename_i hne
    split at hx
    · cases hx
    · rename_i hnd
      exact .inr ⟨hne, hnd, hx, F.covers x k hx hne hnd⟩

theorem fuse_hdr_of_mem {g : Pool} {b size : Nat} {drop : List Nat} {x : Nat} {k : Hdr}
    (hxb : x ≠ b) (hxd : x ∉ drop) (hx : g.hdr x = some k) :
    (g.fuse b size drop).hdr x = some k := by
  simp only [fuse_hdr, if_neg hxb, if_neg hxd]
  exact hx

theorem Fusable.shape {e : Env} {g : Pool} {b size : Nat} {drop : List Nat}
    (F : Fusable e g b size drop) (S : g.Shape e) : (g.fuse b size drop).Shape e := by
  obtain ⟨h, hb, hal, hsz⟩ := F.start
  have h1 := S.inside hb
  exact
  { S with
    inside := by
      intro a k ha
      rcases F.hdr_cases ha with ⟨rfl, rfl⟩ | ⟨_, _, ha, _⟩
      · exact ⟨h1.1, h1.2.1, by dsimp only; omega, F.aligned, F.inside⟩
      · exact S.inside ha
    apart := by
      intro a c k l ha hc hac
      rcases F.hdr_cases ha with ⟨rfl, rfl⟩ | ⟨_, _, ha, h2⟩ <;>
        rcases F.hdr_cases hc with ⟨rfl, rfl⟩ | ⟨_, _, hc, h3⟩
      · omega
      · have h4 := S.inside hc
        dsimp only
        omega
      · rcases h2 with h2 | h2 <;> omega
      · exact S.apart ha hc hac
    free_mem := by
      intro i a hi ha
      obtain ⟨k, hk, hkal, hidx⟩ := S.free_mem hi ha
      refine ⟨k, fuse_hdr_of_mem ?_ ?_ hk, hkal, hidx⟩
      · rintro rfl
        exact (F.unlisted i hi).1 ha
      · intro hm
        exact (F.unlisted i hi).2 a hm ha
    quick_mem := by
      intro i a hi ha
      obtain ⟨k, hk, hkal, hidx⟩ := S.quick_mem hi ha
      refine ⟨k, fuse_hdr_of_mem ?_ ?_ hk, hkal, hidx⟩
      · rintro rfl
        exact S.not_quick_of_free hb hal hi ha
      · intro hm
        exact S.not_quick_of_free hk (F.swallows a hm k hk).1 hi ha
    known_mem := by
      intro c w hc
      obtain ⟨a, k, ha, hkal, h2, h3⟩ := S.known_mem hc
      by_cases hab : a = b
      · subst hab
        rw [hb] at ha
        cases ha
        exact ⟨a, ⟨size, false, true⟩, by simp, rfl, h2, by dsimp only; omega⟩
      · by_cases had : a ∈ drop
        · have h4 := F.swallows a had k ha
          exact ⟨b, ⟨size, false, true⟩, by simp, rfl, by omega, by dsimp only; omega⟩
        · exact ⟨a, k, fuse_hdr_of_mem hab had ha, hkal, h2, h3⟩ }

theorem Fusable.still {e : Env} {g : Pool} {b size : Nat} {drop : List Nat}
    (F : Fusable e g b size drop) {x : Nat} (hx : Still e g x) (hb : x ≤ b ∨ b + size < x) :
    Still e (g.fuse b size drop) x := by
  have hhdr : ∀ {a k}, (g.fuse b size drop).hdr a = some k →
      (a = b ∧ k = ⟨size, false, true⟩) ∨ g.hdr a = some k := by
    intro a k ha
    simp only [fuse_hdr] at ha
    split at ha
    · cases ha
      exact .inl ⟨‹_›, rfl⟩
    · split at ha
      · cases ha
      · exact .inr ha
  obtain ⟨h, hh, _⟩ := F.start
  exact
  { hx with
    not_header := by
      intro a k ha
      rcases hhdr ha with ⟨rfl, _⟩ | ha
      · exact hx.not_header hh
      · exact hx.not_header ha
    not_free := by
      intro a k ha hal
      rcases hhdr ha with ⟨rfl, rfl⟩ | ha
      · exact hb
      · exact hx.not_free ha hal }

section Neighbours

variable {e : Env} {g : Pool} (S : g.Shape e) {p : Nat} {h k l : Hdr}
  (hp : g.hdr p = some h) (hpal : h.alloc = false)
  (hm : g.hdr (p + h.size) = some k) (hmal : k.alloc = false)

include S hp hpal hm hmal

theorem fusable_two (hun : ∀ i < 10, p ∉ g.free i ∧ p + h.size ∉ g.free i) :
    g.Fusable e p (h.size + k.size) [p + h.size] := by
  have h1 := S.inside hp
  have h2 := S.inside hm
  refine ⟨⟨h, hp, hpal, by omega⟩, ?_, by omega, by omega, ?_, ?_, ?_⟩
  · rw [List.mem_singleton]
    omega
  · intro y hy j hj
    rw [List.mem_singleton.mp hy] at hj ⊢
    rw [hm] at hj
    cases hj
    exact ⟨hmal, by omega, by omega⟩
  · intro y j hy hyp hym
    rw [List.mem_singleton] at hym
    have h3 := S.cases_apart hy hp
    have h4 := S.cases_apart hy hm
    have h5 := S.inside hy
    omega
  · intro i hi
    refine ⟨(hun i hi).1, fun y hy => ?_⟩
    rw [List.mem_singleton.mp hy]
    exact (hun i hi).2

theorem fusable_three (hn : g.hdr (p + h.size + k.size) = some l) (hnal : l.alloc = false)
    (hun : ∀ i < 10, p ∉ g.free i ∧ p + h.size ∉ g.free i ∧ p + h.size + k.size ∉ g.free i) :
    g.Fusable e p (h.size + k.size + l.size) [p + h.size, p + h.size + k.size] := by
  have h1 := S.inside hp
  have h2 := S.inside hm
  have h3 := S.inside hn
  refine ⟨⟨h, hp, hpal, by omega⟩, ?_, by omega, by omega, ?_, ?_, ?_⟩
  · simp only [List.mem_cons, List.not_mem_nil, or_false]
    omega
  · intro y hy j hj
    simp only [List.mem_cons, List.not_mem_nil, or_false] at hy
    rcases hy with rfl | rfl
    · rw [hm] at hj
      cases hj
      exact ⟨hmal, by omega, by omega⟩
    · rw [hn] at hj
      cases hj
      exact ⟨hnal, by omega, by omega⟩
  · intro y j hy hyp hym
    simp only [List.mem_cons, List.not_mem_nil, or_false, not_or] at hym
    have h4 := S.cases_apart hy hp
    have h5 := S.cases_apart hy hm
    have h6 := S.cases_apart hy hn
    have h7 := S.inside hy
    omega
  · intro i hi
    obtain ⟨h4, h5, h6⟩ := hun i hi
    refine ⟨h4, fun y hy => ?_⟩
    simp only [List.mem_cons, List.not_mem_nil, or_false] at hy
    rcases hy with rfl | rfl
    · exact h5
    · exact h6

end Neighbours

end Pool

/-! ## Footers -/

/-- The footer is the header word, at the end of the block. -/
theorem footer_run {e : Env} {s : State} {b c w : Nat} (hw : s.mem (headerOf b) = w ^^^ e.magic)
    (h1 : mapped e s (headerOf b)) (hc : add64 b (unflag w) = c) (h2 : mapped e s c) :
    sf_set_block_footer e b s = .ok ((), s.put c (w ^^^ e.magic)) := by
  unfold sf_set_block_footer
  rw [bind_ok (load_ok h1), hw, xor_magic, hc]
  exact store_ok h2

namespace Represents

variable {e : Env} {W : Nat → Prop} {m₀ : Nat → Nat} {s : State} {g : Pool}
  (R : Represents e W m₀ s g)

include R

theorem footer_ok {a : Nat} {h : Hdr} (ha : g.hdr a = some h) :
    sf_set_block_footer e a s = .ok ((), s.put (a + h.size) (h.word ^^^ e.magic)) := by
  have h1 := R.shape.inside ha
  have h2 := R.shape.lt_two_pow ha
  refine footer_run (R.header ha) (R.mapped_header ha) ?_ (R.mapped_end ha)
  rw [Hdr.unflag_word (by omega), add64_of_lt (by omega)]

/-- The footer of a block whose header word is known to be in place. -/
theorem footer_known {b w c : Nat} (h8 : b % 8 = 0) (hlo : e.sf_mem_start ≤ b + 8)
    (hhi : b + 16 ≤ g.memEnd) (hk : g.known (b + 8) = some w) (hc : add64 b (unflag w) = c)
    (hm : mapped e s c) : sf_set_block_footer e b s = .ok ((), s.put c (w ^^^ e.magic)) := by
  have h1 : mapped e s (headerOf b) :=
    R.mapped_heap (by unfold headerOf; omega) (by unfold headerOf; omega)
      (by unfold headerOf; omega)
  exact footer_run (R.known hk) h1 hc hm

/-- The footer of a free block. -/
theorem footer_note {a : Nat} {h : Hdr} (ha : g.hdr a = some h) (hal : h.alloc = false) :
    Ends (sf_set_block_footer e a) s fun _ s' =>
      Represents e W m₀ s' (g.note (a + h.size) h.word) := by
  have h1 := R.shape.inside ha
  refine .of_eq (R.footer_ok ha) ?_
  exact R.store_note (quiet_end R.shape ha) (by omega) (by omega)
    ⟨a, h, ha, hal, by omega, by omega⟩

theorem block_sz_ok {a : Nat} {h : Hdr} (ha : g.hdr a = some h) :
    sf_get_block_sz e a s = .ok (h.size, s) := by
  have h1 := R.shape.inside ha
  unfold sf_get_block_sz
  rw [bind_ok (R.load_header ha), xor_magic, Hdr.unflag_word (by omega)]
  rfl

theorem probe_ok {a : Nat} {h : Hdr} (ha : g.hdr a = some h) :
    sf_probe e a s = .ok ((!h.alloc, h.size), s) := by
  have h1 := R.shape.inside ha
  unfold sf_probe
  rw [bind_ok (R.load_header ha), xor_magic, Hdr.unflag_word (by omega),
    Hdr.word_alloc (by omega)]
  cases h.alloc <;> rfl

/-! ## The merging branches -/

theorem make_free_ends {b size past : Nat} {drop : List Nat} (F : g.Fusable e b size drop)
    (hW : ∀ x, W x → x ≤ b ∨ b + size < x) :
    Ends (sf_make_free e b size past) s fun _ s' =>
      Represents e W m₀ s' (g.makeFree b size drop) := by
  obtain ⟨h, hb, hal, hsz⟩ := F.start
  have S := R.shape
  have S' := F.shape S
  have h1 := S.inside hb
  have hb' : (g.fuse b size drop).hdr b = some ⟨size, false, true⟩ := by simp
  unfold sf_make_free
  rw [or_prev_word (by have := F.aligned; omega)]
  refine .run (store_ok (R.mapped_header hb)) ?_
  have R1 : Represents e W m₀ _ (g.fuse b size drop) :=
    R.store_header S' hb'
      (fun x k hx hk => by
        simp only [Pool.fuse_hdr, if_neg hx] at hk
        split at hk
        · cases hk
        · exact hk)
      (fun x hx => F.still (R.watch hx) (hW x hx))
      (fun _ _ hc => hc) rfl
  refine .run (store_ok (R1.mapped_start hb')) ?_
  have R2 := R1.store_spoil (v := (past ||| THIS_BLOCK_ALLOCATED) ^^^ e.magic)
    (quiet_start S' hb') h1.1 (by have := F.inside; simp only [Pool.fuse_memEnd]; omega)
  refine (R2.footer_note hb' rfl).step fun _ s' R3 => ?_
  exact R3.put_ends (b := b) (h := ⟨size, false, true⟩) hb' rfl fun i hi => (F.unlisted i hi).1

/-! ## `sf_coalesce` -/


/-- What the footer value handed to `sf_coalesce` leads to: the free block that
ends at `m`, or nothing in the heap, or an allocated block. -/
def PastSeen (e : Env) (g : Pool) (m footer : Nat) : Option Nat → Prop
  | some p => ∃ h, g.hdr p = some h ∧ h.alloc = false ∧ p + h.size = m ∧ footer = h.size
  | none =>
      let p := if footer > 0 then sf_get_past_block m footer else NULL
      p < e.sf_mem_start ∨ g.memEnd - 16 ≤ p ∨ ∃ h, g.hdr p = some h ∧ h.alloc = true

/-- The first probe of `sf_coalesce`. -/
theorem past_probe_ok {m footer : Nat} {past : Option Nat} (hm : m < 2 ^ 64)
    (hp : PastSeen e g m footer past) :
    ∃ psz, (past.isSome → psz = g.sizeOf (past.getD 0)) ∧
      (past.isSome → (if footer > 0 then sf_get_past_block m footer else NULL) = past.getD 0) ∧
      sf_probe_past e s (if footer > 0 then sf_get_past_block m footer else NULL) s =
        .ok ((past.isSome, psz), s) := by
  have h1 := R.shape.pages
  have h2 := R.shape.limit
  have h3 := e.limit_lt
  have hend : sub64 s.sf_mem_end 16 = g.memEnd - 16 := by
    rw [R.memEnd, sub64_of_le (by unfold PAGE_SZ at h1; omega) (by omega)]
  unfold sf_probe_past
  rw [hend]
  cases past with
  | some p =>
    obtain ⟨h, hh, hal, hpm, rfl⟩ := hp
    have h4 := R.shape.inside hh
    have hpb : (if h.size > 0 then sf_get_past_block m h.size else NULL) = p := by
      rw [if_pos (by omega), sf_get_past_block, sub64_of_le (by omega) hm]
      omega
    rw [hpb]
    refine ⟨h.size, fun _ => (Pool.sizeOf_of_hdr hh).symm, fun _ => rfl, ?_⟩
    rw [if_neg (by omega), R.probe_ok hh, hal]
    rfl
  | none =>
    unfold PastSeen at hp
    dsimp only at hp
    generalize (if footer > 0 then sf_get_past_block m footer else NULL) = p at hp ⊢
    rcases hp with hlo | hhi | ⟨h, hh, hal⟩
    · exact ⟨0, nofun, nofun, by rw [if_pos (.inl hlo)]; rfl⟩
    · exact ⟨0, nofun, nofun, by rw [if_pos (.inr hhi)]; rfl⟩
    · have h4 := R.shape.inside hh
      refine ⟨h.size, nofun, nofun, ?_⟩
      rw [if_neg (by omega), R.probe_ok hh, hal]
      rfl

/-- The second probe of `sf_coalesce`. -/
theorem next_probe_ok {m : Nat} {h : Hdr} (hm : g.hdr m = some h)
    (hedge : m + h.size + 16 = g.memEnd ∨ ∃ k, g.hdr (m + h.size) = some k) :
    ∃ nsz, ((g.freeAfter m).isSome → nsz = g.sizeOf ((g.freeAfter m).getD 0)) ∧
      ((g.freeAfter m).isSome → m + h.size = (g.freeAfter m).getD 0) ∧
      sf_probe_next e s (m + h.size) s = .ok (((g.freeAfter m).isSome, nsz), s) := by
  have h1 := R.shape.pages
  have h2 := R.shape.limit
  have h3 := e.limit_lt
  have h4 := R.shape.inside hm
  have hend : sub64 s.sf_mem_end 16 = g.memEnd - 16 := by
    rw [R.memEnd, sub64_of_le (by unfold PAGE_SZ at h1; omega) (by omega)]
  unfold sf_probe_next
  rw [hend]
  cases hn : g.hdr (m + h.size) with
  | none =>
    have hfa : g.freeAfter m = none := by
      rw [Pool.freeAfter, Pool.sizeOf_of_hdr hm, hn]
    rw [hfa]
    refine ⟨0, nofun, nofun, ?_⟩
    rcases hedge with he | ⟨k, hk⟩
    · rw [if_pos (.inl (by omega))]
      rfl
    · rw [hn] at hk
      cases hk
  | some k =>
    have h5 := R.shape.inside hn
    rw [if_neg (by omega), R.probe_ok hn]
    cases hal : k.alloc with
    | true =>
      have hfa : g.freeAfter m = none := by
        rw [Pool.freeAfter, Pool.sizeOf_of_hdr hm, hn]
        simp [hal]
      rw [hfa]
      exact ⟨k.size, nofun, nofun, rfl⟩
    | false =>
      have hfa : g.freeAfter m = some (m + h.size) := by
        rw [Pool.freeAfter, Pool.sizeOf_of_hdr hm, hn]
        simp [hal]
      rw [hfa]
      exact ⟨k.size, fun _ => (Pool.sizeOf_of_hdr hn).symm, fun _ => rfl, rfl⟩

/-- Watched words are outside free blocks and their footers. -/
theorem outside_free {b : Nat} {h : Hdr} (hb : g.hdr b = some h) (hal : h.alloc = false) :
    ∀ x, W x → x ≤ b ∨ b + h.size < x :=
  fun _ hx => (R.watch hx).not_free hb hal

section Branches

variable {m p psz footer : Nat} {h k l : Hdr} {past : Option Nat}

/-- What the two probes find out. -/
theorem coalesce_probed (hm : g.hdr m = some h) (hp : PastSeen e g m footer past)
    (hedge : m + h.size + 16 = g.memEnd ∨ ∃ k, g.hdr (m + h.size) = some k) :
    ∃ p psz nsz, (past.isSome → p = past.getD 0 ∧ psz = g.sizeOf p) ∧
      ((g.freeAfter m).isSome → nsz = g.sizeOf (m + h.size)) ∧
      sf_coalesce e m h.size footer false s = sf_merge e m h.size (p, past.isSome, psz)
        (m + h.size, (g.freeAfter m).isSome, nsz) s := by
  have hlt := R.shape.lt_two_pow hm
  obtain ⟨psz, hp1, hp2, hprobe⟩ := R.past_probe_ok (by omega) hp
  obtain ⟨nsz, hn1, hn2, hprobe'⟩ := R.next_probe_ok hm hedge
  have hnext : sf_get_next_block m h.size = m + h.size := add64_of_lt (by omega)
  refine ⟨_, psz, nsz, fun hs => ⟨hp2 hs, ?_⟩, fun hs => ?_, ?_⟩
  · rw [hp1 hs, hp2 hs]
  · rw [hn1 hs, hn2 hs]
  · unfold sf_coalesce
    rw [bind_ok (get_apply s), bind_ok hprobe]
    simp only [hnext]
    rw [bind_ok hprobe']
    rfl

/-- The block is merged with the free block after it. Whether it is in a list does not matter. -/
theorem merge_next (hm : g.hdr m = some h) (hal : h.alloc = false)
    (hk : g.hdr (m + h.size) = some k) (hkal : k.alloc = false) :
    Ends (sf_merge e m h.size (p, false, psz) (m + h.size, true, k.size)) s fun r s' =>
      r = true ∧ Represents e W m₀ s' (g.coalesce m none (some (m + h.size))) := by
  have S := R.shape
  have hlt := S.lt_two_pow hk
  refine (R.remove_ends m).step fun _ s1 R1 => ?_
  refine (R1.remove_ends (m + h.size)).step fun _ s2 R2 => ?_
  have F : ((g.erase m).erase (m + h.size)).Fusable e m (h.size + k.size) [m + h.size] :=
    Pool.fusable_two R2.shape hm hal hk hkal fun i hi =>
      ⟨Pool.not_mem_erase_of (S.not_mem_erase hi), R1.shape.not_mem_erase hi⟩
  rw [add64_of_lt (by omega)]
  refine (R2.make_free_ends F ?_).step fun _ s3 R3 => .ret ⟨rfl, ?_⟩
  · intro x hx
    have h1 := R.outside_free hm hal x hx
    have h2 := R.outside_free hk hkal x hx
    omega
  · simpa only [Pool.coalesce, Pool.sizeOf_of_hdr hm, Pool.sizeOf_of_hdr hk] using R3

/-- `sf_coalesce` without a free block before: whether the block is in a list does not matter
when it is merged with the one after it. -/
theorem coalesce_next (hm : g.hdr m = some h) (hal : h.alloc = false)
    (hp : PastSeen e g m footer none) (hk : g.hdr (m + h.size) = some k) (hkal : k.alloc = false) :
    Ends (sf_coalesce e m h.size footer false) s fun _ s' =>
      Represents e W m₀ s' (g.coalesce m none (some (m + h.size))) := by
  obtain ⟨q, psz, nsz, -, hafter, hrun⟩ := R.coalesce_probed hm hp (.inr ⟨k, hk⟩)
  have hfa : g.freeAfter m = some (m + h.size) := by
    rw [Pool.freeAfter, Pool.sizeOf_of_hdr hm, hk]
    exact if_neg (by simp [hkal])
  have hnsz : nsz = k.size := (hafter (by rw [hfa]; rfl)).trans (Pool.sizeOf_of_hdr hk)
  rw [hfa, hnsz] at hrun
  exact .congr hrun ((R.merge_next hm hal hk hkal).mono fun _ _ hr => hr.2)

/-- It is merged with the free block before it. -/
theorem merge_past {nsz : Nat} (hl : g.hdr p = some l) (hlal : l.alloc = false)
    (hm : g.hdr (p + l.size) = some h) (hal : h.alloc = false) :
    Ends (sf_merge e (p + l.size) h.size (p, true, l.size) (p + l.size + h.size, false, nsz)) s
      fun r s' => r = true ∧ Represents e W m₀ s' (g.coalesce (p + l.size) (some p) none) := by
  have S := R.shape
  have hlt := S.lt_two_pow hm
  refine (R.remove_ends _).step fun _ s1 R1 => ?_
  refine (R1.remove_ends p).step fun _ s2 R2 => ?_
  have F : ((g.erase (p + l.size)).erase p).Fusable e p (l.size + h.size) [p + l.size] :=
    Pool.fusable_two R2.shape hl hlal hm hal fun i hi =>
      ⟨R1.shape.not_mem_erase hi, Pool.not_mem_erase_of (S.not_mem_erase hi)⟩
  rw [add64_of_lt (by omega), Nat.add_comm h.size]
  refine (R2.make_free_ends F ?_).step fun _ s3 R3 => .ret ⟨rfl, ?_⟩
  · intro x hx
    have h1 := R.outside_free hm hal x hx
    have h2 := R.outside_free hl hlal x hx
    omega
  · simpa only [Pool.coalesce, Pool.sizeOf_of_hdr hm, Pool.sizeOf_of_hdr hl,
      Nat.add_comm h.size] using R3

/-- It is merged with both. -/
theorem merge_both (hl : g.hdr p = some l) (hlal : l.alloc = false)
    (hm : g.hdr (p + l.size) = some h) (hal : h.alloc = false)
    (hk : g.hdr (p + l.size + h.size) = some k) (hkal : k.alloc = false) :
    Ends (sf_merge e (p + l.size) h.size (p, true, l.size) (p + l.size + h.size, true, k.size)) s
      fun r s' => r = true ∧ Represents e W m₀ s'
        (g.coalesce (p + l.size) (some p) (some (p + l.size + h.size))) := by
  have S := R.shape
  have hlt := S.lt_two_pow hk
  refine (R.remove_ends _).step fun _ s1 R1 => ?_
  refine (R1.remove_ends p).step fun _ s2 R2 => ?_
  refine (R2.remove_ends (p + l.size + h.size)).step fun _ s3 R3 => ?_
  have F : (((g.erase (p + l.size)).erase p).erase (p + l.size + h.size)).Fusable e p
      (l.size + h.size + k.size) [p + l.size, p + l.size + h.size] :=
    Pool.fusable_three R3.shape hl hlal hm hal hk hkal fun i hi =>
      ⟨Pool.not_mem_erase_of (R1.shape.not_mem_erase hi),
        Pool.not_mem_erase_of (Pool.not_mem_erase_of (S.not_mem_erase hi)),
        R2.shape.not_mem_erase hi⟩
  rw [add64_of_lt (a := h.size) (by omega), add64_of_lt (by omega), Nat.add_comm h.size]
  refine (R3.make_free_ends F ?_).step fun _ s4 R4 => .ret ⟨rfl, ?_⟩
  · intro x hx
    have h1 := R.outside_free hm hal x hx
    have h2 := R.outside_free hl hlal x hx
    have h3 := R.outside_free hk hkal x hx
    omega
  · simpa only [Pool.coalesce, Pool.sizeOf_of_hdr hm, Pool.sizeOf_of_hdr hl,
      Pool.sizeOf_of_hdr hk, Nat.add_comm h.size] using R4

/-- `sf_coalesce` on a free block that is in no list, and whether it merges. -/
theorem coalesce_returns (hm : g.hdr m = some h) (hal : h.alloc = false)
    (hun : ∀ i < 10, m ∉ g.free i) (hp : PastSeen e g m footer past)
    (hedge : m + h.size + 16 = g.memEnd ∨ ∃ k, g.hdr (m + h.size) = some k) :
    Ends (sf_coalesce e m h.size footer false) s fun r s' =>
      r = (past.isSome || (g.freeAfter m).isSome) ∧
        Represents e W m₀ s' (g.coalesce m past (g.freeAfter m)) := by
  have hsz := Pool.sizeOf_of_hdr hm
  obtain ⟨q, psz, nsz, hpast, hafter, hrun⟩ := R.coalesce_probed hm hp hedge
  refine .congr hrun ?_
  cases hfa : g.freeAfter m with
  | none =>
    cases past with
    | none =>
      refine (R.put_ends hm hal hun).step fun _ s' R' => .ret ⟨rfl, ?_⟩
      simpa only [Pool.coalesce, hsz] using R'
    | some p =>
      obtain ⟨l, hl, hlal, rfl, rfl⟩ := hp
      obtain ⟨rfl, rfl⟩ := hpast rfl
      rw [Pool.sizeOf_of_hdr hl]
      exact R.merge_past hl hlal hm hal
  | some n =>
    obtain ⟨hn, k, hk, hkal⟩ := Pool.freeAfter_some hfa
    rw [hsz] at hn
    subst hn
    have hnsz : nsz = k.size := (hafter (by rw [hfa]; rfl)).trans (Pool.sizeOf_of_hdr hk)
    subst hnsz
    cases past with
    | none => exact R.merge_next hm hal hk hkal
    | some p =>
      obtain ⟨l, hl, hlal, rfl, rfl⟩ := hp
      obtain ⟨rfl, rfl⟩ := hpast rfl
      rw [Pool.sizeOf_of_hdr hl]
      exact R.merge_both hl hlal hm hal hk hkal

end Branches

theorem coalesce_ends {m footer : Nat} {h : Hdr} {past : Option Nat} (hm : g.hdr m = some h)
    (hal : h.alloc = false) (hun : ∀ i < 10, m ∉ g.free i) (hp : PastSeen e g m footer past)
    (hedge : m + h.size + 16 = g.memEnd ∨ ∃ k, g.hdr (m + h.size) = some k) :
    Ends (sf_coalesce e m h.size footer false) s fun _ s' =>
      Represents e W m₀ s' (g.coalesce m past (g.freeAfter m)) :=
  (R.coalesce_returns hm hal hun hp hedge).mono fun _ _ h => h.2

end Represents

end StarterProjects.Sfmm
