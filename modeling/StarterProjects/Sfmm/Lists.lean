import Mathlib.Data.List.Perm.Subperm
import StarterProjects.Sfmm.Represents

/-!
# The free lists and quick lists in memory

Insertion, removal and search, each as one step of the pool.
-/

namespace StarterProjects.Sfmm

open Lib Lib.Exec

theorem Pool.not_mem_erase_of {g : Pool} {a b i : Nat} (h : a ∉ g.free i) :
    a ∉ (g.erase b).free i :=
  fun hm => h (List.mem_of_mem_erase hm)

namespace Pool.Shape

variable {e : Env} {g : Pool} (S : g.Shape e) {b : Nat} {h : Hdr}

include S

theorem put (hb : g.hdr b = some h) (hal : h.alloc = false) (hnot : ∀ i < 10, b ∉ g.free i) :
    (g.put b h.size).Shape e :=
  { S with
    free_mem := by
      intro i a hi ha
      simp only [Pool.put_free] at ha
      split at ha
      · rename_i hie
        rcases List.mem_cons.mp ha with rfl | ha
        · exact ⟨h, hb, hal, hie.symm⟩
        · exact S.free_mem hi ha
      · exact S.free_mem hi ha
    free_nodup := by
      intro i hi
      simp only [Pool.put_free]
      split
      · exact List.nodup_cons.mpr ⟨hnot i hi, S.free_nodup i hi⟩
      · exact S.free_nodup i hi }

theorem erase (b : Nat) : (g.erase b).Shape e :=
  { S with
    free_mem := fun hi ha => S.free_mem hi (List.mem_of_mem_erase ha)
    free_nodup := fun i hi => (S.free_nodup i hi).erase b }

theorem not_mem_erase {i : Nat} (hi : i < 10) : b ∉ (g.erase b).free i :=
  fun hm => ((S.free_nodup i hi).mem_erase_iff.mp hm).1 rfl

end Pool.Shape

/-! ## One turn of the quick list loop -/

section QuickTurn

variable {e : Env} {s : State} {i : Nat}

/-- A list without blocks, or with blocks of another size, does not answer. -/
theorem sf_malloc_quick_miss {blockSize : Nat} {l : List Nat}
    (hc : Chain s.nxt NULL (s.sf_quick_lists i).first l)
    (hl : (s.sf_quick_lists i).length = l.length)
    (hblocks : ∀ a ∈ l, ∃ h : Hdr, mapped e s (headerOf a) ∧
      s.mem (headerOf a) = h.word ^^^ e.magic ∧ h.size = 32 + 16 * i)
    (hmiss : ¬ (l ≠ [] ∧ blockSize = 32 + 16 * i)) :
    sf_malloc_quick e blockSize i s = .ok (none, s) := by
  unfold sf_malloc_quick getQuick
  rw [bind_assoc, bind_ok (get_apply s), pure_bind]
  cases l with
  | nil =>
    rw [if_neg (by simp [hl])]
    rfl
  | cons a l =>
    obtain ⟨h, hmap, hheader, hsz⟩ := hblocks a List.mem_cons_self
    rw [List.length_cons] at hl
    rw [if_pos (by omega), hc.1, bind_ok (load_ok hmap), hheader, xor_magic,
      Hdr.stripFlags_word (by omega), hsz, if_neg fun he => hmiss ⟨by simp, he.symm⟩]
    rfl

/-- The first block of the list of its size is taken. -/
theorem sf_malloc_quick_hit {a n : Nat} {h : Hdr} (ha : (s.sf_quick_lists i).first = a)
    (hl : (s.sf_quick_lists i).length = n + 1) (hmap : mapped e s (headerOf a))
    (hnext : mapped e s (nextOf a)) (hheader : s.mem (headerOf a) = h.word ^^^ e.magic)
    (hsz : h.size = 32 + 16 * i) :
    sf_malloc_quick e (32 + 16 * i) i s =
      .ok (some (nextOf a), s.withQuick i ⟨n, s.nxt a⟩) := by
  unfold sf_malloc_quick getQuick setQuick
  rw [bind_assoc, bind_ok (get_apply s), pure_bind]
  rw [if_pos (by omega), ha, bind_ok (load_ok hmap), hheader, xor_magic,
    Hdr.stripFlags_word (by omega), if_pos hsz, bind_ok (modify_apply _ s),
    bind_ok (load_ok (s := s.withQuick i _) hnext),
    bind_ok (modify_apply _ _), State.withQuick_withQuick, hl]
  rfl

end QuickTurn

namespace Represents

variable {e : Env} {W : Nat → Prop} {m₀ : Nat → Nat} {s : State} {g : Pool}
  (R : Represents e W m₀ s g)

include R

/-- The node after a node of a ring is in the ring. -/
theorem nxt_mem {i b : Nat} (hi : i < 10) (hb : b ∈ e.head i :: g.free i) :
    s.nxt b ∈ e.head i :: g.free i := by
  rcases (R.ring i hi).nxt_mem hb with hm | hm
  · exact List.mem_cons_of_mem _ hm
  · exact hm ▸ List.mem_cons_self

theorem prv_mem {i b : Nat} (hi : i < 10) (hb : b ∈ g.free i) :
    s.prv b ∈ e.head i :: g.free i := (R.ring i hi).prv_mem hb

/-- Different rings have no node in common. -/
theorem ring_ne {i j x y : Nat} (hi : i < 10) (hj : j < 10) (hij : j ≠ i)
    (hx : x ∈ e.head j :: g.free j) (hy : y ∈ e.head i :: g.free i) : x ≠ y := by
  rintro rfl
  have S := R.shape
  rcases List.mem_cons.mp hx with rfl | hx <;> rcases List.mem_cons.mp hy with he | hy
  · unfold Env.head at he
    omega
  · exact head_not_mem S hj hi hy
  · exact head_not_mem S hi hj (he ▸ hx)
  · exact hij (S.free_unique hj hi hx hy)

/-! ## Insertion -/

/-- The four stores of an insertion. -/
theorem put_run {b n : Nat} (fb : FreeNode e g b) : ∃ x, FreeNode e g x ∧
    x = s.nxt (e.head (freeIndex n)) ∧ sf_put_in_free_list e b n s =
      .ok ((), (((s.put (prevOf x) b).put (nextOf b) x).put (prevOf b)
        (e.head (freeIndex n))).put (nextOf (e.head (freeIndex n))) b) := by
  have hi := Pool.freeIndex_lt n
  have fh : FreeNode e g (e.head (freeIndex n)) := .inl ⟨_, hi, rfl⟩
  have fn := R.freeNode_path hi (R.nxt_mem hi List.mem_cons_self)
  refine ⟨_, fn, rfl, ?_⟩
  unfold sf_put_in_free_list sf_put_in_free_list_helper
  rw [bind_ok (R.load_next fh.node), bind_ok (store_ok (R.mapped_prev fn.node))]
  refine (bind_ok (store_ok (s := s.put _ _) (R.mapped_next fb.node))).trans ?_
  refine (bind_ok (store_ok (s := (s.put _ _).put _ _) (R.mapped_prev fb.node))).trans ?_
  exact store_ok (R.mapped_next fh.node)

/-- It writes links of free nodes only, even when the block is in a list already. -/
theorem put_outside {b n : Nat} (fb : FreeNode e g b) :
    Ends (sf_put_in_free_list e b n) s fun _ s' => s' = { s with mem := s'.mem } ∧
      ∀ x, (∀ y, FreeNode e g y → x ≠ nextOf y ∧ x ≠ prevOf y) → s'.mem x = s.mem x := by
  have fh : FreeNode e g (e.head (freeIndex n)) := .inl ⟨_, Pool.freeIndex_lt n, rfl⟩
  obtain ⟨x, fn, -, hrun⟩ := R.put_run (n := n) fb
  refine .of_eq hrun ⟨rfl, fun a ha => ?_⟩
  simp only [State.put_mem]
  rw [if_neg (ha _ fh).1, if_neg (ha _ fb).2, if_neg (ha _ fb).1, if_neg (ha _ fn).2]

theorem put_ends {b : Nat} {h : Hdr} (hb : g.hdr b = some h) (hal : h.alloc = false)
    (hnot : ∀ i < 10, b ∉ g.free i) :
    Ends (sf_put_in_free_list e b h.size) s fun _ s' => Represents e W m₀ s' (g.put b h.size) := by
  have S := R.shape
  have hi := Pool.freeIndex_lt h.size
  generalize hidx : freeIndex h.size = i at hi
  have fh : FreeNode e g (e.head i) := .inl ⟨i, hi, rfl⟩
  have fb : FreeNode e g b := .inr ⟨h, hb, hal⟩
  have hn := R.nxt_mem hi List.mem_cons_self
  have fn : FreeNode e g (s.nxt (e.head i)) := R.freeNode_path hi hn
  have hhb : e.head i ≠ b := by
    intro he
    have h1 := S.head_apart hb hi
    have h2 := S.inside hb
    omega
  have hnb : s.nxt (e.head i) ≠ b := by
    intro he
    rcases List.mem_cons.mp hn with hm | hm
    · exact hhb (hm.symm.trans he)
    · exact hnot i hi (he ▸ hm)
  obtain ⟨x, -, hx, hrun⟩ := R.put_run (n := h.size) fb
  rw [hidx] at hx hrun
  subst hx
  refine .of_eq hrun ?_
  generalize hs' : State.put _ (nextOf (e.head i)) b = s'
  -- the links of every node in the final memory
  have hnx : ∀ y, Node e g y → s'.nxt y =
      if y = e.head i then b else if y = b then s.nxt (e.head i) else s.nxt y := by
    intro y hy
    rw [← hs', nxt_put_next, nxt_put_prev S hy fb.node, nxt_put_next, nxt_put_prev S hy fn.node]
  have hpv : ∀ y, Node e g y → s'.prv y =
      if y = b then e.head i else if y = s.nxt (e.head i) then b else s.prv y := by
    intro y hy
    rw [← hs', prv_put_next S hy fh.node, prv_put_prev, prv_put_next S hy fb.node, prv_put_prev]
  refine R.relink (S.put hb hal hnot) rfl (by rw [← hs']; rfl) ?_ ?_
  · intro x hx
    rw [← hs']
    simp only [State.put_mem]
    rw [if_neg (hx _ fh).1, if_neg (hx _ fb).2, if_neg (hx _ fb).1, if_neg (hx _ fn).2]
  · intro j hj
    simp only [Pool.put_free, Pool.put_closed, hidx]
    -- only the ring of the class of `b` changes: the others share no node with it
    by_cases hji : j = i
    · subst hji
      have hring := R.ring j hj
      simp only [if_true, decide_true, Bool.true_and]
      refine hring.push (head_not_mem S hj hj) ?_ (S.free_nodup j hj) (head_not_mem S hj hj)
        ?_ ?_ ?_ ?_ ?_ ?_
      · simp only [List.mem_cons, not_or]
        exact ⟨hhb.symm, hnot j hj⟩
      · rw [hnx _ fh.node, if_pos rfl]
      · rw [hnx _ fb.node, if_neg hhb.symm, if_pos rfl]
      · intro x hx
        have hxh : x ≠ e.head j := fun he => head_not_mem S hj hj (he ▸ hx)
        have hxb : x ≠ b := fun he => hnot j hj (he ▸ hx)
        rw [hnx _ (node_free S hj hx), if_neg hxh, if_neg hxb]
      · rw [hpv _ fb.node, if_pos rfl]
      · rw [hpv _ fn.node, if_neg hnb, if_pos rfl]
      · intro x hx hxn
        rcases hx with rfl | hx
        · rw [hpv _ fh.node, if_neg hhb, if_neg hxn]
        · have hxb : x ≠ b := fun he => hnot j hj (he ▸ hx)
          rw [hpv _ (node_free S hj hx), if_neg hxb, if_neg hxn]
    · simp only [hji, if_false, decide_false, Bool.false_and, Bool.or_false]
      have hjb : ∀ x ∈ e.head j :: g.free j, x ≠ e.head i ∧ x ≠ b ∧ x ≠ s.nxt (e.head i) := by
        intro x hx
        refine ⟨R.ring_ne hi hj hji hx List.mem_cons_self, ?_, R.ring_ne hi hj hji hx hn⟩
        rintro rfl
        rcases List.mem_cons.mp hx with he | hx
        · have h1 := S.head_apart hb hj
          have h2 := S.inside hb
          omega
        · exact hnot j hj hx
      refine (R.ring j hj).congr (fun x hx => ?_) (fun x hx => ?_) fun _ => ?_
      · obtain ⟨h1, h2, _⟩ := hjb x hx
        rw [hnx _ (node_path S hj hx), if_neg h1, if_neg h2]
      · obtain ⟨_, h2, h3⟩ := hjb x (List.mem_cons_of_mem _ hx)
        rw [hpv _ (node_free S hj hx), if_neg h2, if_neg h3]
      · obtain ⟨_, h2, h3⟩ := hjb _ List.mem_cons_self
        rw [hpv _ (.inl ⟨j, hj, rfl⟩), if_neg h2, if_neg h3]

/-! ## Removal -/

/-- A free list of which `b` is no member is traversed without effect. -/
theorem remove_walk_miss {b i : Nat} (hi : i < 10) :
    ∀ {l : List Nat} {a fuel : Nat} {c : Bool}, Path c s.nxt s.prv a l (e.head i) →
      (∀ x ∈ a :: l, Node e g x) → e.head i ∉ l → b ∉ l → l.length < fuel →
      sf_remove_walk e b (e.head i) fuel a s = .ok (none, s)
  | l, a, 0, _, _, _, _, _, hf => absurd hf (by omega)
  | [], a, fuel + 1, _, hp, hn, _, _, _ => by
    rw [sf_remove_walk, bind_ok (R.load_next (hn a List.mem_cons_self)), if_pos hp.1]
    rfl
  | d :: l, a, fuel + 1, _, hp, hn, hh, hb, hf => by
    obtain ⟨h1, _, h3⟩ := hp
    have hdh : d ≠ e.head i := fun he => hh (by rw [← he]; exact List.mem_cons_self)
    have hdb : d ≠ b := fun he => hb (by rw [← he]; exact List.mem_cons_self)
    rw [sf_remove_walk, bind_ok (R.load_next (hn a List.mem_cons_self)), h1, if_neg hdh,
      if_neg hdb]
    exact remove_walk_miss hi h3 (fun x hx => hn x (List.mem_cons_of_mem _ hx))
      (fun hm => hh (List.mem_cons_of_mem _ hm)) (fun hm => hb (List.mem_cons_of_mem _ hm))
      (by simpa using hf)

/-- A free list of which `b` is a member is traversed up to `b`, whose
neighbours are then linked to each other. -/
theorem remove_walk_hit {b i : Nat} (hi : i < 10) (hbn : Node e g b)
    (hn' : Node e g (s.nxt b)) (hp' : Node e g (s.prv b)) (hne : s.nxt b ≠ b) :
    ∀ {l : List Nat} {a fuel : Nat} {c : Bool}, Path c s.nxt s.prv a l (e.head i) →
      (∀ x ∈ a :: l, Node e g x) → e.head i ∉ l → b ∈ l → l.length < fuel →
      sf_remove_walk e b (e.head i) fuel a s = .ok (some (),
        (s.put (prevOf (s.nxt b)) (s.prv b)).put (nextOf (s.prv b)) (s.nxt b))
  | l, a, 0, _, _, _, _, _, hf => absurd hf (by omega)
  | [], a, fuel + 1, _, _, _, _, hb, _ => nomatch hb
  | d :: l, a, fuel + 1, _, hp, hn, hh, hb, hf => by
    obtain ⟨h1, _, h3⟩ := hp
    have hdh : d ≠ e.head i := fun he => hh (by rw [← he]; exact List.mem_cons_self)
    rw [sf_remove_walk, bind_ok (R.load_next (hn a List.mem_cons_self)), h1, if_neg hdh]
    by_cases hdb : d = b
    · subst hdb
      have hprv : (s.put (prevOf (s.nxt d)) (s.prv d)).prv d = s.prv d := by
        rw [prv_put_prev, if_neg hne.symm]
      rw [if_pos rfl, bind_ok (R.load_next hbn), bind_ok (R.load_prev hbn),
        bind_ok (store_ok (R.mapped_prev hn'))]
      rw [bind_ok (load_ok (s := s.put _ _) (R.mapped_prev hbn))]
      change ((store e (nextOf ((s.put (prevOf (s.nxt d)) (s.prv d)).prv d)) (s.nxt d)) >>= _) _ = _
      rw [hprv, bind_ok (store_ok (s := s.put _ _) (R.mapped_next hp'))]
      rfl
    · rw [if_neg hdb]
      have hbl : b ∈ l := (List.mem_cons.mp hb).resolve_left fun he => hdb he.symm
      exact remove_walk_hit hi hbn hn' hp' hne h3 (fun x hx => hn x (List.mem_cons_of_mem _ hx))
        (fun hm => hh (List.mem_cons_of_mem _ hm)) hbl (by simpa using hf)

/-- What the two stores of a removal do to the pool. -/
theorem unlink {b i : Nat} (hi : i < 10) (hb : b ∈ g.free i) :
    Represents e W m₀
      ((s.put (prevOf (s.nxt b)) (s.prv b)).put (nextOf (s.prv b)) (s.nxt b)) (g.erase b) := by
  have S := R.shape
  have hbm : b ∈ e.head i :: g.free i := List.mem_cons_of_mem _ hb
  have fn := R.freeNode_path hi (R.nxt_mem hi hbm)
  have fp := R.freeNode_path hi (R.prv_mem hi hb)
  generalize hs' : State.put _ (nextOf (s.prv b)) (s.nxt b) = s'
  have hnx : ∀ y, Node e g y → s'.nxt y = if y = s.prv b then s.nxt b else s.nxt y := by
    intro y hy
    rw [← hs', nxt_put_next, nxt_put_prev S hy fn.node]
  have hpv : ∀ y, Node e g y → s'.prv y = if y = s.nxt b then s.prv b else s.prv y := by
    intro y hy
    rw [← hs', prv_put_next S hy fp.node, prv_put_prev]
  refine R.relink (S.erase b) rfl (by rw [← hs']; rfl) ?_ ?_
  · intro x hx
    rw [← hs']
    simp only [State.put_mem]
    rw [if_neg (hx _ fp).1, if_neg (hx _ fn).2]
  · intro j hj
    simp only [Pool.erase_free, Pool.erase_closed]
    by_cases hji : j = i
    · subst hji
      have hnd : (e.head j :: g.free j).Nodup :=
        List.nodup_cons.mpr ⟨head_not_mem S hj hj, S.free_nodup j hj⟩
      refine (R.ring j hj).erase hb hnd (head_not_mem S hj hj) ?_ ?_ ?_ ?_
      · rw [hnx _ fp.node, if_pos rfl]
      · intro x hx hxp _
        rw [hnx _ (node_path S hj hx), if_neg hxp]
      · rw [hpv _ fn.node, if_pos rfl]
      · intro x hx hxn _
        have hxm : x ∈ e.head j :: g.free j := List.mem_cons.mpr hx
        rw [hpv _ (node_path S hj hxm), if_neg hxn]
    · have hbj : b ∉ g.free j := fun hm => hji (S.free_unique hj hi hm hb)
      have hlast : (g.free j).getLast? ≠ some b := fun hm => hbj (List.mem_of_getLast? hm)
      rw [List.erase_of_not_mem hbj, decide_eq_false hlast, Bool.or_false]
      refine (R.ring j hj).congr (fun x hx => ?_) (fun x hx => ?_) fun _ => ?_
      · rw [hnx _ (node_path S hj hx), if_neg (R.ring_ne hi hj hji hx (R.prv_mem hi hb))]
      · have hxm := List.mem_cons_of_mem (e.head j) hx
        rw [hpv _ (node_free S hj hx), if_neg (R.ring_ne hi hj hji hxm (R.nxt_mem hi hbm))]
      · rw [hpv _ (.inl ⟨j, hj, rfl⟩),
          if_neg (R.ring_ne hi hj hji List.mem_cons_self (R.nxt_mem hi hbm))]

/-- Erasing a block that is in no list changes nothing. -/
theorem erase_absent {b : Nat} (hb : ∀ i < 10, b ∉ g.free i) :
    Represents e W m₀ s (g.erase b) := by
  refine R.relink (R.shape.erase b) rfl rfl (fun _ _ => rfl) fun i hi => ?_
  have hlast : (g.free i).getLast? ≠ some b := fun hm => hb i hi (List.mem_of_getLast? hm)
  simp only [Pool.erase_free, Pool.erase_closed]
  rw [List.erase_of_not_mem (hb i hi), decide_eq_false hlast, Bool.or_false]
  exact R.ring i hi

/-- A free list has fewer members than a traversal may visit. -/
theorem free_length_lt {i : Nat} (hi : i < 10) : (g.free i).length < walkBound e s := by
  have S := R.shape
  have hlen : ((g.free i).map (· / 16)).length ≤
      (List.range' (e.sf_mem_start / 16) (g.memEnd / 16 - e.sf_mem_start / 16)).length := by
    refine (List.subperm_of_subset ?_ ?_).length_le
    · refine (S.free_nodup i hi).map_on fun x hx y hy hxy => ?_
      obtain ⟨h, hh, _⟩ := S.free_mem hi hx
      obtain ⟨k, hk, _⟩ := S.free_mem hi hy
      have h1 := S.inside hh
      have h2 := S.inside hk
      omega
    · intro y hy
      obtain ⟨x, hx, rfl⟩ := List.mem_map.mp hy
      obtain ⟨h, hh, _⟩ := S.free_mem hi hx
      have h1 := S.inside hh
      rw [List.mem_range'_1]
      omega
  rw [List.length_map, List.length_range'] at hlen
  unfold walkBound
  rw [R.memEnd]
  omega

/-- `sf_remove_from_free_list` takes the block off whichever list it is on. -/
theorem remove_ends (b : Nat) :
    Ends (sf_remove_from_free_list e b) s fun _ s' => Represents e W m₀ s' (g.erase b) := by
  have S := R.shape
  have hmiss : ∀ i < 10, b ∉ g.free i →
      sf_remove_walk e b (e.head i) (walkBound e s) (e.head i) s = .ok (none, s) :=
    fun i hi hb => R.remove_walk_miss hi (R.ring i hi) (fun x hx => node_path S hi hx)
      (head_not_mem S hi hi) hb (R.free_length_lt hi)
  unfold sf_remove_from_free_list
  refine .run (get_apply s) ?_
  by_cases hb : ∃ i < 10, b ∈ g.free i
  · obtain ⟨i, hi, hb⟩ := hb
    obtain ⟨pre, post, hr⟩ := List.append_of_mem (List.mem_range.mpr hi)
    have hnd : (pre ++ i :: post).Nodup := hr ▸ List.nodup_range
    have hbm : b ∈ e.head i :: g.free i := List.mem_cons_of_mem _ hb
    have hne : s.nxt b ≠ b := (R.ring i hi).nxt_ne
      (List.nodup_cons.mpr ⟨head_not_mem S hi hi, S.free_nodup i hi⟩) (head_not_mem S hi hi) hb
    have hhit := R.remove_walk_hit hi (node_free S hi hb)
      (R.freeNode_path hi (R.nxt_mem hi hbm)).node (R.freeNode_path hi (R.prv_mem hi hb)).node
      hne (R.ring i hi) (fun x hx => node_path S hi hx) (head_not_mem S hi hi) hb
      (R.free_length_lt hi)
    change Ends (firstSome _ (List.range 10) >>= _) s _
    rw [hr]
    refine Ends.step (P := fun _ s' => Represents e W m₀ s' (g.erase b)) ?_ fun _ _ h => .ret h
    refine firstSome_ends (fun j hj => ?_) (.of_eq hhit ⟨⟨(), rfl⟩, R.unlink hi hb⟩)
    have hj10 : j < 10 := List.mem_range.mp (hr ▸ List.mem_append_left _ hj)
    refine hmiss j hj10 fun hm => ?_
    have hji := S.free_unique hj10 hi hm hb
    exact (List.nodup_append.mp hnd).2.2 j hj i List.mem_cons_self hji
  · simp only [not_exists, not_and] at hb
    refine .run (firstSome_none fun j hj => hmiss j ?_ (hb j ?_)) (.ret (R.erase_absent hb))
    · exact List.mem_range.mp hj
    · exact List.mem_range.mp hj

/-! ## The search of the free lists -/

theorem find_walk {blockSize i : Nat} (hi : i < 10) :
    ∀ {l : List Nat} {a fuel : Nat} {c : Bool}, Path c s.nxt s.prv a l (e.head i) →
      (∀ x ∈ a :: l, Node e g x) → (∀ x ∈ l, ∃ h, g.hdr x = some h) → e.head i ∉ l →
      l.length < fuel →
      sf_malloc_find e blockSize (e.head i) fuel a s =
        .ok ((l.find? fun x => decide (blockSize ≤ g.sizeOf x)).map fun x => (x, g.sizeOf x), s)
  | l, a, 0, _, _, _, _, _, hf => absurd hf (by omega)
  | [], a, fuel + 1, _, hp, hn, _, _, _ => by
    rw [sf_malloc_find, bind_ok (R.load_next (hn a List.mem_cons_self)), if_pos hp.1]
    rfl
  | d :: l, a, fuel + 1, _, hp, hn, hb, hh, hf => by
    obtain ⟨h1, _, h3⟩ := hp
    have hdh : d ≠ e.head i := fun he => hh (by rw [← he]; exact List.mem_cons_self)
    obtain ⟨h, hd⟩ := hb d List.mem_cons_self
    have hsz : h.size % 8 = 0 := by
      have := R.shape.inside hd
      omega
    rw [sf_malloc_find, bind_ok (R.load_next (hn a List.mem_cons_self)), h1, if_neg hdh,
      bind_ok (R.load_header hd), xor_magic, Hdr.stripFlags_word hsz, List.find?_cons,
      Pool.sizeOf_of_hdr hd]
    by_cases hle : blockSize ≤ h.size
    · rw [if_pos hle]
      simp [hle, Pool.sizeOf_of_hdr hd]
    · rw [if_neg hle]
      simp only [hle, decide_false]
      exact find_walk hi h3 (fun x hx => hn x (List.mem_cons_of_mem _ hx))
        (fun x hx => hb x (List.mem_cons_of_mem _ hx)) (fun hm => hh (List.mem_cons_of_mem _ hm))
        (by simpa using hf)

/-- The search of `sf_malloc` returns the first fit, with its size. -/
theorem find_ok (blockSize : Nat) :
    firstSome (fun i => sf_malloc_find e blockSize (e.head i) (walkBound e s) (e.head i))
      (List.range NUM_FREE_LISTS) s =
      .ok ((g.fit blockSize).map fun a => (a, g.sizeOf a), s) := by
  have S := R.shape
  change firstSome _ (List.range 10) s = _
  rw [firstSome_read fun i hi => R.find_walk (List.mem_range.mp hi)
    (R.ring i (List.mem_range.mp hi))
    (fun x hx => node_path S (List.mem_range.mp hi) hx)
    (fun x hx => (S.free_mem (List.mem_range.mp hi) hx).imp fun _ h => h.1)
    (head_not_mem S (List.mem_range.mp hi) (List.mem_range.mp hi))
    (R.free_length_lt (List.mem_range.mp hi)), Pool.fit, List.map_findSome?]
  rfl

/-! ## Quick lists -/

/-- The quick lists of the program changed in entry `i`. -/
theorem set_quick {i : Nat} {q : QuickList} {l : List Nat}
    (hmem : ∀ b ∈ l, (∃ h, g.hdr b = some h ∧ h.alloc = true ∧ h.size = 32 + 16 * i) ∧
      ¬ W (nextOf b))
    (hnd : l.Nodup) (hc : Chain s.nxt NULL q.first l) (hl : q.length = l.length) :
    Represents e W m₀ (s.withQuick i q) (g.setQuick i l) :=
  { R with
    shape :=
      { R.shape with
        quick_mem := by
          intro j b hj hb
          simp only [Pool.setQuick_quick] at hb
          split at hb
          · rename_i hji
            rw [hji]
            exact (hmem b hb).1
          · exact R.shape.quick_mem hj hb
        quick_nodup := by
          intro j hj
          simp only [Pool.setQuick_quick]
          split
          · exact hnd
          · exact R.shape.quick_nodup j hj }
    chain := by
      intro j hj hbusy
      simp only [Pool.setQuick_quick, State.withQuick]
      split
      · exact ⟨hc, hl⟩
      · exact R.chain j hj hbusy
    watch := fun {x} hx =>
      { R.watch hx with
        not_quick := by
          intro j a hj ha
          simp only [Pool.setQuick_quick] at ha
          split at ha
          · rintro rfl
            exact (hmem a ha).2 hx
          · exact (R.watch hx).not_quick hj ha } }

/-- Memory that differs in payload words only represents the same pool: the lists, the headers
and the words the pool knows are none of them. -/
theorem store_payloads {s' : State} (hs : s' = { s with mem := s'.mem })
    (hmem : ∀ x, s'.mem x ≠ s.mem x → ¬ W x ∧ g.InPayload x) : Represents e W m₀ s' g := by
  have S := R.shape
  have hkeep : ∀ x, ¬ g.InPayload x → s'.mem x = s.mem x := fun x hx =>
    not_not.mp fun hne => hx (hmem x hne).2
  exact
  { R with
    memEnd := by rw [hs]; exact R.memEnd
    globalEnd := by rw [hs]; exact R.globalEnd
    errno := by rw [hs]; exact R.errno
    growCalls := by rw [hs]; exact R.growCalls
    header := fun ha => (hkeep _ fun hx => hx.not_header S ha rfl).trans (R.header ha)
    known := by
      intro c w hc
      refine (hkeep c fun hx => ?_).trans (R.known hc)
      rw [hx.unknown S] at hc
      cases hc
    ring := by
      intro i hi
      refine (R.ring i hi).congr (fun y hy => ?_) (fun y hy => ?_) fun _ => ?_
      · exact hkeep _ fun hx => (hx.not_path S hi hy).1 rfl
      · exact hkeep _ fun hx => (hx.not_path S hi (List.mem_cons_of_mem _ hy)).2 rfl
      · exact hkeep _ fun hx => (hx.not_path S hi List.mem_cons_self).2 rfl
    chain := by
      intro i hi hbusy
      obtain ⟨h1, h2⟩ := R.chain i hi hbusy
      rw [hs]
      exact ⟨h1.congr fun y hy => hkeep _ fun hx => hx.not_quick S hi hy rfl, h2⟩
    kept := by
      intro y hy ht
      refine Eq.trans ?_ (R.kept hy ht)
      exact not_not.mp fun hne => (hmem y hne).1 hy }

theorem store_payload {x v : Nat} (hx : g.InPayload x) (hW : ¬ W x) :
    Represents e W m₀ (s.put x v) g := by
  refine R.store_payloads rfl fun y hy => ?_
  obtain rfl : y = x := by
    by_contra hne
    exact hy (by rw [State.put_mem, if_neg hne])
  exact ⟨hW, hx⟩

/-- The first link of an allocated block that is neither watched nor on a quick
list may be written. -/
theorem store_link {b v : Nat} {h : Hdr} (hb : g.hdr b = some h) (hal : h.alloc = true)
    (hW : ¬ W (nextOf b)) (hq : ∀ i < 10, b ∉ g.quick i) :
    Represents e W m₀ (s.put (nextOf b) v) g := by
  have h1 := R.shape.inside hb
  exact R.store_payload ⟨b, h, ⟨hb, hal, hq⟩, Nat.le_refl _, by unfold nextOf; omega⟩ hW

/-- Facts about a quick list from the block at its front. -/
theorem quick_front {i a : Nat} {l : List Nat} (hi : i < 10) (hbusy : g.busy = none)
    (hq : g.quick i = a :: l) : (s.sf_quick_lists i).first = a ∧ Chain s.nxt NULL (s.nxt a) l ∧
      (s.sf_quick_lists i).length = l.length + 1 := by
  obtain ⟨h1, h2⟩ := R.chain i hi (by rw [hbusy]; exact nofun)
  rw [hq] at h1 h2
  exact ⟨h1.1, h1.1 ▸ h1.2.2, h2⟩

theorem quick_turn_miss {blockSize i : Nat} (hi : i < 10) (hbusy : g.busy = none)
    (hmiss : ¬ (g.quick i ≠ [] ∧ blockSize = 32 + 16 * i)) :
    sf_malloc_quick e blockSize i s = .ok (none, s) := by
  obtain ⟨h1, h2⟩ := R.chain i hi (by rw [hbusy]; exact nofun)
  refine sf_malloc_quick_miss h1 h2 (fun a ha => ?_) hmiss
  obtain ⟨h, hh, _, hsz⟩ := R.shape.quick_mem hi ha
  exact ⟨h, R.mapped_header hh, R.header hh, hsz⟩

theorem quick_turn_hit {i a : Nat} {l : List Nat} (hi : i < 10) (hbusy : g.busy = none)
    (hq : g.quick i = a :: l) :
    Ends (sf_malloc_quick e (32 + 16 * i) i) s fun r s' =>
      r = some (nextOf a) ∧ Represents e W m₀ s' (g.setQuick i l) := by
  obtain ⟨h1, h2, h3⟩ := R.quick_front hi hbusy hq
  obtain ⟨h, hh, hal, hsz⟩ := R.shape.quick_mem hi (hq ▸ List.mem_cons_self : a ∈ g.quick i)
  have hnd := R.shape.quick_nodup i hi
  rw [hq] at hnd
  refine .of_eq (sf_malloc_quick_hit h1 h3 (R.mapped_header hh) (R.mapped_next (.inr ⟨h, hh⟩))
    (R.header hh) hsz) ⟨rfl, ?_⟩
  refine R.set_quick (fun b hb => ?_) (List.nodup_cons.mp hnd).2 h2 rfl
  have hb' : b ∈ g.quick i := hq ▸ List.mem_cons_of_mem _ hb
  exact ⟨R.shape.quick_mem hi hb', fun hW => (R.watch hW).not_quick hi hb' rfl⟩

end Represents

end StarterProjects.Sfmm
