import StarterProjects.Sfmm.Run

/-!
# PREV flags and footers

The PREV flag of a block tells whether the block before it is allocated, and the
footer of a free block repeats its header. `Pool.Flags g skip` says so of a pool,
except for the blocks of `skip` and the flags right behind them.

Two steps of the allocator do not update the flag of the block behind: the exact fit
leaves it clear, and a flush leaves it set. Two more leave a wrong word when no page
is left: growth behind a free block has cut the flag off its footer by then, and
growth behind an allocated one has made a page whose flag is clear.
-/

namespace StarterProjects.Sfmm

open Lib

namespace Pool

structure Flags (g : Pool) (skip : List Nat) : Prop where
  prevs : ∀ {a h k}, g.hdr a = some h → g.hdr (a + h.size) = some k → a ∉ skip →
    a + h.size ∉ skip → k.prev = h.alloc
  feet : ∀ {a h}, g.hdr a = some h → h.alloc = false → a ∉ skip →
    g.known (a + h.size) = some h.word

variable {e : Env} {g g' : Pool} {skip skip' : List Nat}

theorem Flags.mono (F : g.Flags skip) (h : ∀ y ∈ skip, y ∈ skip') : g.Flags skip' where
  prevs := fun ha hk h1 h2 => F.prevs ha hk (fun hc => h1 (h _ hc)) fun hc => h2 (h _ hc)
  feet := fun ha hal h1 => F.feet ha hal fun hc => h1 (h _ hc)

/-! ## Coalescing -/

theorem Fusable.makeFree_cases {b size x : Nat} {drop : List Nat} {k : Hdr}
    (Fu : g.Fusable e b size drop) (hx : (g.makeFree b size drop).hdr x = some k) :
    (x = b ∧ k = ⟨size, false, true⟩) ∨
      (x ≠ b ∧ x ∉ drop ∧ g.hdr x = some k ∧ (x + k.size ≤ b ∨ b + size ≤ x)) := by
  rw [makeFree_hdr] at hx
  split at hx
  · cases hx
    exact .inl ⟨‹_›, rfl⟩
  · split at hx
    · cases hx
    · exact .inr ⟨‹_›, ‹_›, hx, Fu.covers x k hx ‹_› ‹_›⟩

/-- A joined block has its flag set and gets its footer: that is right if no free
block ends where it starts, and the flag behind it is clear. -/
theorem Flags.makeFree {gone drop : List Nat} {b size : Nat} (F : g.Flags skip)
    (E : Erased g g' gone) (S' : g'.Shape e) (Fu : g'.Fusable e b size drop)
    (hgone : ∀ y ∈ gone, y = b ∨ y ∈ drop)
    (hskip : ∀ y ∈ skip, y ∈ skip' ∨ y = b ∨ y ∈ drop)
    (hleft : ∀ a k, g.hdr a = some k → k.alloc = false → a + k.size = b → a ∈ skip')
    (hright : ∀ k, g.hdr (b + size) = some k → k.prev = true → b + size ∈ skip') :
    (g'.makeFree b size drop).Flags skip' := by
  obtain ⟨h0, hb, _, hsz⟩ := Fu.start
  have h1 := S'.inside hb
  have hold : ∀ {y}, y ∉ skip' → y ≠ b → y ∉ drop → y ∉ skip := fun h2 h3 h4 hc =>
    (hskip _ hc).elim h2 fun h => h.elim h3 h4
  constructor
  · intro a h k ha hk hn hn'
    rcases Fu.makeFree_cases ha with ⟨rfl, rfl⟩ | ⟨hab, had, ha, h2⟩
    · rcases Fu.makeFree_cases hk with ⟨h3, _⟩ | ⟨_, _, hk, _⟩
      · dsimp only at h3
        omega
      · cases hp : k.prev with
        | false => rfl
        | true => exact absurd (hright k (E.hdr ▸ hk) hp) hn'
    · rw [E.hdr] at ha
      rcases Fu.makeFree_cases hk with ⟨h3, rfl⟩ | ⟨h3, h4, hk, _⟩
      · cases hal : h.alloc with
        | true => rfl
        | false => exact absurd (hleft a h ha hal h3) hn
      · exact F.prevs ha (E.hdr ▸ hk) (hold hn hab had) (hold hn' h3 h4)
  · intro a h ha hal hn
    rw [makeFree_known]
    rcases Fu.makeFree_cases ha with ⟨rfl, rfl⟩ | ⟨hab, had, ha, h2⟩
    · exact if_pos rfl
    · have h3 := S'.inside ha
      rw [E.hdr] at ha
      rw [if_neg (by omega), if_neg fun h4 => hn (hleft a h ha hal h4),
        E.known ha hal fun hg => (hgone a hg).elim hab had]
      exact F.feet ha hal (hold hn hab had)

theorem Flags.coalesce {m : Nat} {h : Hdr} {past : Option Nat} {rest : List Nat}
    (F : g.Flags skip) (I : g.Settling e (m :: rest)) (hm : g.hdr m = some h)
    (hskip : ∀ y ∈ skip, y = m ∨ y ∈ rest) (hopen : m ∈ skip → g.freeAfter m ≠ none)
    (hpast : ∀ p, past = some p →
      p ∉ rest ∧ ∃ k, g.hdr p = some k ∧ k.alloc = false ∧ p + k.size = m)
    (hnone : past = none → ∀ a k, g.hdr a = some k → k.alloc = false → a + k.size = m → a ∈ rest)
    (hnext : ∀ n, g.freeAfter m = some n → n ∉ rest) :
    (g.coalesce m past (g.freeAfter m)).Flags rest := by
  obtain ⟨h', hh', hal, _⟩ := I.pending m List.mem_cons_self
  rw [hm] at hh'
  cases hh'
  have h0 := I.inside hm
  rcases I.joined hm hal fun p hp => (hpast p hp).2 with ⟨rfl, hfa⟩ | ⟨g', b, size, drop, J⟩
  · -- the block goes to its list as it is
    have hms : m ∉ skip := fun hc => hopen hc hfa
    have F' : g.Flags rest := F.mono fun y hy =>
      (hskip y hy).resolve_left fun he => hms (he ▸ hy)
    rw [hfa, Pool.coalesce]
    exact ⟨F'.prevs, F'.feet⟩
  · rw [J.eq]
    refine F.makeFree J.erased J.shape J.fusable (fun y => List.mem_cons.mp) (fun y hy => ?_) ?_ ?_
    · rcases hskip y hy with rfl | h1
      · exact .inr (List.mem_cons.mp ((J.parts y).mpr (.inl rfl)))
      · exact .inl h1
    · exact J.left I hm hpast hnone
    · intro k hk hkp
      obtain ⟨l, hl, hlal, hend⟩ := J.ends
      rw [← hend] at hk ⊢
      -- the flag behind the last part tells about that part
      by_contra hnr
      have hn : (g.freeAfter m).getD m ∉ skip := by
        intro hc
        cases hfa : g.freeAfter m with
        | none => rw [hfa] at hc; exact hopen hc hfa
        | some n =>
          rw [hfa] at hc
          have h1 := (freeAfter_some hfa).1
          rw [sizeOf_of_hdr hm] at h1
          exact (hskip _ hc).elim (fun he => by dsimp only [Option.getD_some] at he; omega)
            (hnext n hfa)
      have h1 := I.inside hl
      have h2 : m ≤ (g.freeAfter m).getD m := by
        cases hfa : g.freeAfter m with
        | none => exact Nat.le_refl m
        | some n =>
          have h1 := (freeAfter_some hfa).1
          dsimp only [Option.getD_some]
          omega
      have h3 := F.prevs hl hk hn fun hc => (hskip _ hc).elim (fun he => by omega) hnr
      rw [hkp, hlal] at h3
      cases h3

/-! ## `sf_free` -/

section Free

variable {b : Nat} {h : Hdr} (F : g.Flags []) (I : g.Inv e) (hu : g.Used b h)

include F I hu

theorem Flags.release : (g.release b).Flags [] := by
  have S := I.toShape
  have hb := hu.1
  have h1 := S.inside hb
  have hhdr := release_hdr hb
  -- a block is the one in hand, the one after it, or an old one elsewhere
  have hold : ∀ {x k}, (g.release b).hdr x = some k →
      (x = b ∧ k = { h with alloc := false }) ∨ (x ≠ b ∧ ∃ k', g.hdr x = some k' ∧
        k'.size = k.size ∧ k'.alloc = k.alloc ∧
        (x = b + h.size ∧ k = { k' with prev := false } ∨ x ≠ b + h.size ∧ k' = k)) := by
    intro x k hx
    rw [hhdr] at hx
    split at hx
    · cases hx
      exact .inl ⟨‹_›, rfl⟩
    · rename_i hxb
      refine .inr ⟨hxb, ?_⟩
      split at hx
      · obtain ⟨k', hk', rfl⟩ := Option.map_eq_some_iff.mp hx
        exact ⟨k', hk', rfl, rfl, .inl ⟨‹_›, rfl⟩⟩
      · exact ⟨k, hx, rfl, rfl, .inr ⟨‹_›, rfl⟩⟩
  constructor
  · intro a k l ha hl _ _
    rcases hold ha with ⟨rfl, rfl⟩ | ⟨hab, k', hk', hsz, hal, _⟩
    · rcases hold hl with ⟨h2, _⟩ | ⟨_, l', _, _, _, ⟨_, h2⟩ | ⟨h2, _⟩⟩
      · dsimp only at h2
        omega
      · rw [h2]
      · exact absurd rfl h2
    · have h2 := (S.cases_apart hk' hb).resolve_left hab
      have h3 := S.inside hk'
      rcases hold hl with ⟨h4, rfl⟩ | ⟨_, l', hl', _, _, ⟨h4, _⟩ | ⟨_, rfl⟩⟩
      · rw [← hal]
        exact F.prevs (k := h) hk' (by rw [hsz, h4]; exact hb) List.not_mem_nil List.not_mem_nil
      · omega
      · rw [← hal]
        exact F.prevs hk' (hsz ▸ hl') List.not_mem_nil List.not_mem_nil
  · intro a k ha hkal _
    have hkn : ∀ x, (g.release b).known x = if x = b + h.size then
        some { h with alloc := false }.word else (g.clearNext (b + h.size)).known x := by
      intro x
      rw [Pool.release, hb]
      rfl
    rw [hkn]
    rcases hold ha with ⟨rfl, rfl⟩ | ⟨hab, k', hk', hsz, hal, hcase⟩
    · exact if_pos rfl
    · have h2 := S.inside hk'
      have h3 := (S.cases_apart hk' hb).resolve_left hab
      have hfoot := F.feet hk' (hal.trans hkal) List.not_mem_nil
      rw [if_neg (by omega), ← hsz, clearNext_known _ _ (by omega) (by omega)]
      rcases hcase with ⟨rfl, rfl⟩ | ⟨h4, rfl⟩
      · rw [hk']
        dsimp only
        rw [if_pos rfl, if_neg (by rw [hal, hkal]; exact Bool.false_ne_true)]
      · cases hc : g.hdr (b + h.size) with
        | none =>
          dsimp only
          rw [if_neg (by omega)]
          exact hfoot
        | some l =>
          have h5 := S.inside hc
          have h6 := (S.cases_apart hk' hc).resolve_left h4
          dsimp only
          rw [if_neg (by omega)]
          exact hfoot

theorem Flags.freeMain : (g.freeMain b).Flags [] := by
  have S := I.toShape
  have h1 := S.inside hu.1
  have hhdr := release_hdr hu.1
  have hb : (g.release b).hdr b = some { h with alloc := false } := by rw [hhdr, if_pos rfl]
  refine (F.release I hu).coalesce (I.release hu) hb nofun nofun
    (fun p hp => ⟨List.not_mem_nil, ?_⟩)
    (fun hnone a k ha hal hab => ?_) fun _ _ => List.not_mem_nil
  · obtain ⟨k, hk, -, hend⟩ := release_before S hu.1 hp
    exact ⟨k, hk, hend⟩
  · have h2 := (I.release hu).inside ha
    rw [hhdr, if_neg (by omega), if_neg (by omega)] at ha
    exact absurd hab (freeBefore_none I.toSettling List.not_mem_nil List.not_mem_nil hnone ha hal)

end Free

/-- Right behind each block of the list there is a free block. -/
def Followed (g : Pool) (n : Nat) (l : List Nat) : Prop :=
  ∀ c ∈ l, ∃ k, g.hdr (c + n) = some k ∧ k.alloc = false

theorem Followed.freeAfter {n m : Nat} {rest : List Nat} (hf : g.Followed n (m :: rest))
    (F : Flushing e g n (m :: rest)) : g.freeAfter m = some (m + n) := by
  obtain ⟨k, hk, hkal⟩ := hf m List.mem_cons_self
  rw [Pool.freeAfter, sizeOf_of_hdr (F.hdr m List.mem_cons_self)]
  simp only [hk, hkal, Bool.false_eq_true, if_false]

theorem Followed.step {n m : Nat} {rest : List Nat} (hf : g.Followed n (m :: rest))
    (F : Flushing e g n (m :: rest)) : (g.flushOne m).Followed n rest := by
  intro c hc
  obtain ⟨k, hk, hkal⟩ := hf c (List.mem_cons_of_mem _ hc)
  have hcm : c ≠ m := fun he => (List.nodup_cons.mp F.nodup).1 (he ▸ hc)
  rw [flushOne, hf.freeAfter F, coalesce, makeFree_hdr]
  by_cases h1 : c + n = m
  · exact ⟨_, if_pos h1, rfl⟩
  · rw [if_neg h1, if_neg (by rw [List.mem_singleton]; omega)]
    exact ⟨k, hk, hkal⟩

theorem Flags.flushRun {n : Nat} : ∀ {rest : List Nat} {g : Pool}, g.Flags rest →
    Flushing e g n rest → g.Followed n rest → (rest.foldl flushOne g).Flags []
  | [], _, F, _, _ => F
  | m :: rest, g, F, Fl, hf => by
    have hnext := Fl.next
    have h1 := Fl.settling.inside (Fl.hdr m List.mem_cons_self)
    refine Flags.flushRun (g := g.flushOne m) ?_ Fl.step (hf.step Fl)
    refine F.coalesce Fl.settling (Fl.hdr m List.mem_cons_self) (fun y => List.mem_cons.mp)
      (fun _ hc => by rw [hf.freeAfter Fl] at hc; cases hc) nofun (fun _ a k ha hal ham => ?_)
      fun c hc => ?_
    · have h2 := Fl.settling.inside ha
      exact (List.mem_cons.mp (Fl.before m List.mem_cons_self a k ha hal ham)).resolve_left
        (by omega)
    · rcases hnext with h2 | ⟨h2, hnr⟩
      · rw [h2] at hc
        cases hc
      · rw [h2] at hc
        cases hc
        exact hnr

theorem Flags.flush {b i : Nat} {h : Hdr} (F : g.Flags []) (I : g.Inv e) (hi : i < 10)
    (hu : g.Used b h) (hsz : h.size = 32 + 16 * i) (hF : g.Flushable i)
    (hf : ∀ c ∈ g.quick i, ∃ k, g.hdr (c + (32 + 16 * i)) = some k ∧
      (k.alloc = false ∨ c + (32 + 16 * i) ∈ g.quick i)) :
    (g.flush b i).Flags [] := by
  have S := I.toShape
  have hhdr := flushStart_hdr (b := b) I hi
  refine Flags.flushRun (e := e) (n := 32 + 16 * i) ?_ (flushStart_flushing I hi hu hsz hF) ?_
  · have hold : ∀ {x k}, (g.flushStart b i).hdr x = some k → x ∉ g.quick i → g.hdr x = some k := by
      intro x k hx hn
      rw [hhdr, if_neg hn] at hx
      exact hx
    constructor
    · intro a k l ha hl hn hn'
      exact F.prevs (hold ha hn) (hold hl hn') List.not_mem_nil List.not_mem_nil
    · intro a k ha hal hn
      have ha' := hold ha hn
      rw [flushStart_known I hi, if_neg]
      · exact F.feet ha' hal List.not_mem_nil
      · -- the footers of the flushed blocks are not its footer
        intro hm
        obtain ⟨c, hc, hce⟩ := List.mem_map.mp hm
        obtain ⟨l, hl, _, hls⟩ := I.quick_mem hi hc
        have h2 := S.inside ha'
        have h3 := S.inside hl
        rcases S.cases_apart ha' hl with rfl | h4 | h4
        · exact hn hc
        · omega
        · omega
  · intro c hc
    obtain ⟨k, hk, hcase⟩ := hf c hc
    rw [hhdr]
    split
    · exact ⟨_, rfl, rfl⟩
    · exact ⟨k, hk, hcase.resolve_right ‹_›⟩

/-! ## `sf_malloc` -/

section Place

variable {a m : Nat} {h : Hdr} (F : g.Flags [a]) (I : g.Inv e) (ha : g.hdr a = some h)
  (hal : h.alloc = false)

include F I ha hal

theorem Flags.split (h32 : 32 ≤ m) (hrest : m + 32 ≤ h.size)
    (hnext : ∀ k, g.hdr (a + h.size) = some k → k.prev = false) : (g.split a m).Flags [] := by
  have S := I.toShape
  have h1 := S.inside ha
  constructor
  · intro x k l hx hl _ _
    rcases split_cases S ha hx with ⟨rfl, rfl⟩ | ⟨rfl, rfl⟩ | ⟨hxa, _, hx, h2⟩ <;>
      rcases split_cases S ha hl with ⟨h3, rfl⟩ | ⟨h3, rfl⟩ | ⟨h3, h4, hl, _⟩ <;>
      try dsimp only at h3
    · omega
    · rfl
    · exact absurd rfl h4
    · omega
    · omega
    · refine hnext l ?_
      dsimp only at hl
      rwa [show a + m + (h.size - m) = a + h.size by omega] at hl
    · exact (I.prev_alloc hx (h3 ▸ ha) hal).symm
    · have h5 := S.inside hx
      omega
    · exact F.prevs hx hl (by rwa [List.mem_singleton]) (by rwa [List.mem_singleton])
  · intro x k hx hkal _
    rw [split_known ha]
    rcases split_cases S ha hx with ⟨_, rfl⟩ | ⟨rfl, rfl⟩ | ⟨hxa, _, hx, h2⟩
    · cases hkal
    · dsimp only
      rw [if_neg (by omega), if_pos (by omega)]
    · have h3 := S.inside hx
      rw [if_neg (by omega), if_neg (by omega), if_neg (by omega), if_neg (by omega)]
      exact F.feet hx hkal (by rwa [List.mem_singleton])

theorem Flags.exact {stale : Bool} (hlast : g.hdr (a + h.size) = none)
    (hprev : ∀ b k, g.hdr b = some k → b + k.size = a → (h.prev || g.endAlloc stale) = true) :
    (g.exact a stale).Flags [] := by
  have S := I.toShape
  have h1 := S.inside ha
  have hhdr := exact_hdr ha stale
  constructor
  · intro x k l hx hl _ _
    rw [hhdr] at hx hl
    split at hx
    · rename_i hxa
      subst hxa
      cases hx
      dsimp only at hl
      rw [if_neg (by omega), hlast] at hl
      cases hl
    · rename_i hxa
      split at hl
      · rename_i h2
        cases hl
        dsimp only
        rw [hprev x k hx h2, I.prev_alloc hx (h2 ▸ ha) hal]
      · exact F.prevs hx hl (by rwa [List.mem_singleton]) (by rwa [List.mem_singleton])
  · intro x k hx hkal _
    rw [hhdr] at hx
    split at hx
    · cases hx
      cases hkal
    · rename_i hxa
      have h3 := (S.cases_apart hx ha).resolve_left hxa
      have h4 := S.inside hx
      rw [exact_eq ha]
      change (if a + 16 ≤ x + k.size ∧ x + k.size ≤ a + h.size then none else g.known _) = _
      rw [if_neg (by omega)]
      exact F.feet hx hkal (by rwa [List.mem_singleton])

/-- Behind a block that is cut the flag is clear already; a block that is taken whole
must be the last one. -/
theorem Flags.place {stale : Bool} (h32 : 32 ≤ m)
    (hnext : ∀ k, g.hdr (a + h.size) = some k → k.prev = false ∧ m + 32 ≤ h.size)
    (hprev : ∀ b k, g.hdr b = some k → b + k.size = a → (h.prev || g.endAlloc stale) = true) :
    (g.place a m stale).Flags [] := by
  unfold Pool.place
  rw [sizeOf_of_hdr ha]
  split
  · exact F.split I ha hal h32 (by omega) fun k hk => (hnext k hk).1
  · refine F.exact I ha hal ?_ hprev
    cases hk : g.hdr (a + h.size) with
    | none => rfl
    | some k =>
      have h2 := (hnext k hk).2
      omega

end Place

theorem Last.next_none {t : Nat} {h : Hdr} (S : g.Shape e) (L : g.Last t h) :
    g.hdr (t + h.size) = none := by
  cases hk : g.hdr (t + h.size) with
  | none => rfl
  | some k =>
    have h1 := S.inside hk
    have h2 := L.ends
    omega

theorem Flags.serve {m p : Nat} {stale : Bool} (F : g.Flags []) (I : g.Inv e) (h32 : 32 ≤ m)
    (hfit : g.quickHit m = none → ∀ a, g.fit m = some a →
      m + 32 ≤ g.sizeOf a ∨ ∃ h, g.Last a h)
    (hs : g.serve m stale = some (p, g')) : g'.Flags [] := by
  unfold Pool.serve at hs
  split at hs
  · cases hs
    exact ⟨F.prevs, F.feet⟩
  · rename_i hq
    split at hs
    · rename_i a hf
      cases hs
      obtain ⟨⟨i, hi, hm⟩, hle⟩ := fit_some hf
      obtain ⟨h, ha, hal, _⟩ := I.free_mem hi hm
      have hcase := hfit hq a hf
      rw [sizeOf_of_hdr ha] at hle hcase
      refine (F.mono (by simp)).place I ha hal h32 (fun k hk => ⟨?_, ?_⟩) fun b k hb hba => ?_
      · rw [F.prevs ha hk List.not_mem_nil List.not_mem_nil, hal]
      · refine hcase.resolve_right fun hc => ?_
        obtain ⟨h', L⟩ := hc
        have h1 := L.hdr
        rw [ha] at h1
        cases h1
        rw [L.next_none I.toShape] at hk
        cases hk
      · rw [F.prevs hb (hba ▸ ha) List.not_mem_nil List.not_mem_nil,
          I.prev_alloc hb (hba ▸ ha) hal, Bool.true_or]
    · cases hs

/-- When one block has grown or is new, a request that was not served before is served
from that block. -/
theorem serve_new {g₁ : Pool} {m p t : Nat} {stale : Bool} (I : g.Inv e) (I₁ : g₁.Inv e)
    (hU : g.Unserved m) (hquick : g₁.quick = g.quick)
    (hothers : ∀ a, a ≠ t → g₁.hdr a = g.hdr a) (hs : g₁.serve m stale = some (p, g')) :
    g' = g₁.place t m stale ∧ ∃ h, g₁.hdr t = some h ∧ h.alloc = false := by
  have hq : g₁.quickHit m = none := by
    unfold Pool.quickHit
    rw [hquick]
    exact hU.1
  rw [Pool.serve, hq] at hs
  dsimp only at hs
  split at hs
  · rename_i a hf
    cases hs
    obtain ⟨⟨i, hi, hm⟩, hle⟩ := fit_some hf
    obtain ⟨h, ha, hal, _⟩ := I₁.free_mem hi hm
    rw [sizeOf_of_hdr ha] at hle
    by_cases hat : a = t
    · subst hat
      exact ⟨rfl, h, ha, hal⟩
    · rw [hothers a hat] at ha
      have h1 := fit_none hU.2 (freeIndex_lt _) (I.listed ha hal List.not_mem_nil)
      rw [sizeOf_of_hdr ha] at h1
      omega
  · cases hs

/-! ## Growth -/

theorem endAlloc_of_hdr {g : Pool} {stale : Bool} {h : Hdr} (hh : g.hdr g.globalEnd = some h) :
    endAlloc g stale = h.alloc := by
  rw [endAlloc, hh]

section Grow

variable {h : Hdr} {size m : Nat} (F : g.Flags []) (I : g.Inv e) (L : g.Last g.globalEnd h)

include F I L

theorem Flags.tailNoted (hm : m = g.globalEnd + h.size) :
    ((g.spoil (m + 8)).note m h.size).Flags [g.globalEnd] ∧
      (h.prev = false → ((g.spoil (m + 8)).note m h.size).Flags []) := by
  have S := I.toShape
  have h1 := S.inside L.hdr
  have hfoot : ∀ {a k}, g.hdr a = some k → k.alloc = false →
      (a = g.globalEnd → h.prev = false) →
      ((g.spoil (m + 8)).note m h.size).known (a + k.size) = some k.word := by
    intro a k ha hkal hp
    have h2 := S.inside ha
    simp only [note_known, spoil_known]
    split
    · have hat := Last.size_eq S L ha (by omega)
      have h3 := L.hdr
      rw [← hat, ha] at h3
      cases h3
      unfold Hdr.word
      rw [hkal, hp hat]
      rfl
    · rw [if_neg (by omega)]
      exact F.feet ha hkal List.not_mem_nil
  refine ⟨⟨fun ha hk _ _ => F.prevs ha hk List.not_mem_nil List.not_mem_nil,
    fun ha hkal hn => hfoot ha hkal fun he => absurd (List.mem_singleton.mpr he) hn⟩, fun hp => ?_⟩
  exact ⟨F.prevs, fun ha hkal _ => hfoot ha hkal fun _ => hp⟩

omit F L in
/-- Each page repairs the footer of the free block it is merged into. -/
theorem Flags.pageMerged {t T : Nat} (F : g.Flags [t]) (Ft : g.FreeTail t m T)
    (hc : g.canGrow e = true) : (pageMerged t m g.grown).Flags [] := by
  obtain ⟨h, g₁, J⟩ := Ft.joined I.toShape hc
  have L := J.last
  rw [J.eq]
  refine F.makeFree J.erased J.shape J.fusable (fun y hy => .inl (List.mem_singleton.mp hy))
    (fun y hy => .inr (.inl (List.mem_singleton.mp hy))) (fun a k ha hkal hat => ?_)
    fun k hk _ => ?_
  · rw [I.prev_alloc ha (hat ▸ L.hdr) J.free] at hkal
    cases hkal
  · have h1 := I.inside hk
    have h2 := L.ends
    omega

/-- Growth behind a free block, when a page is granted or the block is the first one. -/
theorem Flags.growTail (hal : h.alloc = false) (hc : g.canGrow e = true ∨ h.prev = false)
    (hU : g.Unserved m) (h32 : 32 ≤ m) :
    ((g.grow e size).1 = false → (g.grow e size).2.Flags []) ∧
      ((g.grow e size).1 = true → ∀ stale p g', (g.grow e size).2.serve m stale = some (p, g') →
        g'.Flags []) := by
  obtain ⟨c, hcm⟩ : ∃ c, c = g.globalEnd + h.size := ⟨_, rfl⟩
  obtain ⟨h0, hfirst⟩ := F.tailNoted I L hcm
  obtain ⟨g₀, hg₀⟩ : ∃ g₀, g₀ = (g.spoil (c + 8)).note c h.size := ⟨_, rfl⟩
  rw [← hg₀] at h0 hfirst
  rcases grow_merged (e := e) size (P := fun g₁ => g₁.Inv e ∧ g₁.quick = g.quick ∧
      (∀ a, a ≠ g.globalEnd → g₁.hdr a = g.hdr a) ∧ (g₁ = g₀ ∨ g₁.Flags []))
    I.toShape L hal hcm
    ⟨(I.tailNoted L hal hcm).1, rfl, fun _ _ => rfl, .inl hg₀.symm⟩
    (fun g₁ hP Ft hc₁ _ => by
      obtain ⟨I₁, hq, ho, hF⟩ := hP
      have hF₁ : g₁.Flags [g.globalEnd] := hF.elim (fun he => he ▸ h0) fun h => h.mono (by simp)
      refine ⟨(I₁.pageMerged Ft hc₁).1, hq, fun a ha => ?_, .inr (hF₁.pageMerged I₁ Ft hc₁)⟩
      rw [Pool.pageMerged, makeFree_hdr, if_neg ha, if_neg List.not_mem_nil]
      exact ho a ha) with
    ⟨hr, ⟨I₁, hq, ho, hF⟩, Ft, _⟩ | ⟨hr, g₁, ⟨_, _, _, hF⟩, _, _, hno, he⟩
  · refine ⟨fun hc => (by rw [hr] at hc; cases hc), fun _ stale p g' hs => ?_⟩
    rcases hF with hF | hF
    · -- no page at all, so nothing is served
      have hU₀ : g₀.Unserved m := by rw [hg₀]; exact hU
      rw [hF, (serve_none stale).mpr hU₀] at hs
      cases hs
    · obtain ⟨rfl, k, hk, hkal⟩ := serve_new I I₁ hU hq ho hs
      obtain ⟨l, L₁, _⟩ := Ft.tail
      have hkl := L₁.hdr
      rw [hk] at hkl
      cases hkl
      refine (hF.mono (by simp)).place I₁ hk hkal h32 (fun j hj => ?_) fun b j hb hbt => ?_
      · rw [L₁.next_none I₁.toShape] at hj
        cases hj
      · rw [hF.prevs hb (hbt ▸ hk) List.not_mem_nil List.not_mem_nil,
          I₁.prev_alloc hb (hbt ▸ hk) hkal, Bool.true_or]
  · refine ⟨fun _ => ?_, fun hc => (by rw [hr] at hc; cases hc)⟩
    rw [he]
    rcases hF with rfl | hF
    · have hno₀ : g.canGrow e = false := by
        rw [hg₀] at hno
        exact hno
      have h1 := hfirst (hc.resolve_left (by rw [hno₀]; exact Bool.false_ne_true))
      exact ⟨h1.prevs, h1.feet⟩
    · exact ⟨hF.prevs, hF.feet⟩

/-- Growth behind an allocated block, by one page that serves the request or by none. -/
theorem Flags.growBehind (hal : h.alloc = true) (hneg : intNeg size = false)
    (hc : size ≤ 4088 ∨ g.canGrow e = false) (hU : g.Unserved m) (h32 : 32 ≤ m) :
    ((g.grow e size).1 = false → (g.grow e size).2.Flags []) ∧
      ((g.grow e size).1 = true → ∀ stale p g', (g.grow e size).2.serve m stale = some (p, g') →
        g'.Flags []) := by
  have S := I.toShape
  have h1 := S.inside L.hdr
  have h2 := L.ends
  obtain ⟨c, hcm⟩ : ∃ c, c = g.globalEnd + h.size := ⟨_, rfl⟩
  have hno := fun a k => L.no_footer (a := a) (k := k) S hal
  have habove := fun a k ha => L.above S (b := a) (k := k) ha
  -- growth writes two words behind the last block, where no free block has its footer
  have F₀ : ((g.spoil (c + 8)).spoil c).Flags [] := by
    refine ⟨F.prevs, fun {a k} ha hkal _ => ?_⟩
    have h3 := S.inside ha
    have h4 := hno a k ha hkal
    simp only [spoil_known]
    rw [if_neg (by omega), if_neg (by omega)]
    exact F.feet ha hkal List.not_mem_nil
  have hone : intNeg (sub64 size PAGE_SZ) = true ∨ g.canGrow e = false ∨
      g.grown.canGrow e = false := Growable.one (hc.imp id .inl)
  rcases grow_behind (e := e) L.hdr hal hcm hneg hone with
    ⟨_, he⟩ | ⟨hg, _, he⟩ | ⟨hg, hn, _⟩
  · rw [he]
    exact ⟨fun _ => ⟨F₀.prevs, F₀.feet⟩, nofun⟩
  · rw [he]
    refine ⟨nofun, fun _ stale p g' hs => ?_⟩
    have I₁ := ((I.endSpoiled L hal hcm).1.pageBehind (t := g.globalEnd) (h := h)
      ⟨L.hdr, L.ends⟩ hal hcm.symm hg).1
    -- the flag of the page's block is the one that is not right yet
    have F₁ : (pageBehind c ((g.spoil (c + 8)).spoil c).grown).Flags [c] := by
      constructor
      · intro a k l ha hl hn hn'
        rw [List.mem_singleton] at hn hn'
        rcases pageBehind_cases ha with ⟨rfl, _⟩ | ⟨_, ha⟩
        · exact absurd rfl hn
        · rcases pageBehind_cases hl with ⟨h3, _⟩ | ⟨_, hl⟩
          · exact absurd h3 hn'
          · exact F₀.prevs ha hl List.not_mem_nil List.not_mem_nil
      · intro a k ha hkal hn
        rw [List.mem_singleton] at hn
        have ha := ((pageBehind_cases ha).resolve_left fun hc => hn hc.1).2
        have h3 := (habove a k ha).2
        change (if a + k.size = c + PAGE_SZ then _ else ((g.spoil (c + 8)).spoil c).known _) = _
        rw [if_neg (by unfold PAGE_SZ; omega)]
        exact F₀.feet ha hkal List.not_mem_nil
    obtain ⟨rfl, k, hk, hkal⟩ := serve_new I I₁ hU rfl
      (fun a ha => (pageBehind_hdr c a).trans (if_neg ha)) hs
    rw [pageBehind_hdr, if_pos rfl] at hk
    cases hk
    refine F₁.place I₁ ((pageBehind_hdr c c).trans (if_pos rfl)) rfl h32 (fun j hj => ?_) ?_
    · have h3 := I₁.inside hj
      change _ ∧ _ ∧ _ ∧ _ ∧ _ ≤ g.memEnd + PAGE_SZ at h3
      dsimp only at h3
      omega
    · -- the block behind which the page came is allocated, and `globalEnd` still is that block
      intro b j _ _
      have hend : (pageBehind c ((g.spoil (c + 8)).spoil c).grown).hdr g.globalEnd = some h := by
        rw [pageBehind_hdr, if_neg (by omega)]
        exact L.hdr
      have h3 : endAlloc (pageBehind c ((g.spoil (c + 8)).spoil c).grown) stale = true := by
        rw [endAlloc_of_hdr hend]
        exact hal
      rw [h3, Bool.or_true]
  · rcases hc with hc | hc
    · unfold intNeg sub64 PAGE_SZ at hn
      rw [decide_eq_false_iff_not] at hn
      omega
    · rw [hc] at hg
      cases hg

end Grow

/-- A request that keeps flags and footers right: the block it takes is cut or is the
last one, and growth does not fail where it leaves a wrong word. -/
structure Keeps (e : Env) (g : Pool) (size : Nat) : Prop where
  fit : g.quickHit (blockSize size) = none → ∀ a, g.fit (blockSize size) = some a →
    blockSize size + 32 ≤ g.sizeOf a ∨ ∃ h, g.Last a h
  tail : g.Unserved (blockSize size) → ∀ h, g.Last g.globalEnd h →
    if h.alloc then size ≤ 4088 ∨ g.canGrow e = false else g.canGrow e = true ∨ h.prev = false

theorem Flags.malloc {size p : Nat} {stale : Bool} (F : g.Flags []) (I : g.Inv e)
    (hG : size ≠ 0 → intNeg size = false → g.Unserved (blockSize size) → g.Growable e size)
    (hK : size ≠ 0 → intNeg size = false → g.Keeps e size)
    (h : g.malloc e size stale = some (p, g')) : g'.Flags [] := by
  have hb := (blockSize_spec size).1
  unfold Pool.malloc at h
  split at h
  · cases h
    exact F
  · rename_i h0
    split at h
    · cases h
      exact ⟨F.prevs, F.feet⟩
    · rename_i hneg
      rw [Bool.not_eq_true] at hneg
      cases hs : g.serve (blockSize size) stale with
      | some q =>
        rw [hs] at h
        cases h
        exact F.serve I hb (hK h0 hneg).fit hs
      | none =>
        rw [hs] at h
        have hU := (serve_none stale).mp hs
        obtain ⟨k, L, _⟩ := hG h0 hneg hU
        have htail := (hK h0 hneg).tail hU k L
        have hgrow : ((g.grow e size).1 = false → (g.grow e size).2.Flags []) ∧
            ((g.grow e size).1 = true → ∀ stale p g',
              (g.grow e size).2.serve (blockSize size) stale = some (p, g') → g'.Flags []) := by
          cases hal : k.alloc with
          | false =>
            rw [hal, if_neg Bool.false_ne_true] at htail
            exact F.growTail I L hal htail hU hb
          | true =>
            rw [hal, if_pos rfl] at htail
            exact F.growBehind I L hal hneg htail hU hb
        dsimp only at h
        split at h
        · exact hgrow.2 ‹_› _ _ _ h
        · cases h
          exact hgrow.1 (by rwa [Bool.not_eq_true] at *)

theorem Flags.push {b i : Nat} (F : g.Flags []) : (g.push b i).Flags [] := ⟨F.prevs, F.feet⟩

theorem Flags.freeBlock {b : Nat} {h : Hdr} (F : g.Flags []) (I : g.Inv e) (hu : g.Used b h)
    (hflush : ∀ i, quickIndex h.size = some i → (g.quick i).length = QUICK_LIST_MAX →
      g.Flushable i ∧ ∀ c ∈ g.quick i, ∃ k, g.hdr (c + (32 + 16 * i)) = some k ∧
        (k.alloc = false ∨ c + (32 + 16 * i) ∈ g.quick i)) :
    (g.freeBlock b).Flags [] := by
  unfold Pool.freeBlock
  rw [sizeOf_of_hdr hu.1]
  cases hq : quickIndex h.size with
  | none => exact F.freeMain I hu
  | some i =>
    obtain ⟨hi, hsz⟩ := quickIndex_some.mp hq
    dsimp only
    split
    · obtain ⟨h1, h2⟩ := hflush i hq ‹_›
      exact F.flush I hi hu hsz h1 h2
    · exact F.push

/-- The first page is a single block with its footer. -/
theorem initial_flags (errno growCalls : Nat) : (initial e errno growCalls).Flags [] where
  prevs := by
    intro a h k ha hk _ _
    simp only [initial] at ha hk
    split at ha
    · cases ha
      rw [if_neg (by dsimp only; omega)] at hk
      cases hk
    · cases ha
  feet := by
    intro a h ha _ _
    simp only [initial] at ha ⊢
    split at ha
    · rename_i hae
      cases ha
      rw [if_pos (by rw [hae])]
    · cases ha

end Pool

end StarterProjects.Sfmm
