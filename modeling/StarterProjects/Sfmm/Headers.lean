import StarterProjects.Sfmm.Coalesce

/-!
# Changes of block headers

The stores of `sfmm.c` that give a block new flags, make a block out of fresh
memory, or allot a free block.
-/

namespace StarterProjects.Sfmm

open Lib Lib.Exec

namespace Pool.Shape

variable {e : Env} {g : Pool} (S : g.Shape e) {a : Nat} {h f : Hdr}

include S

/-- A block gets new flags; a free block stays free. -/
theorem reflag (ha : g.hdr a = some h) (hsz : f.size = h.size)
    (hal : f.alloc = true → h.alloc = true)
    (hq : f.alloc = false → ∀ i < 10, a ∉ g.quick i) : (g.setHdr a f).Shape e := by
  -- every block of the new pool has its old size
  have hold : ∀ {x k}, (g.setHdr a f).hdr x = some k →
      ∃ l, g.hdr x = some l ∧ l.size = k.size := by
    intro x k hx
    simp only [setHdr_hdr] at hx
    split at hx
    · rename_i hxa
      cases hx
      exact ⟨h, hxa ▸ ha, hsz.symm⟩
    · exact ⟨k, hx, rfl⟩
  have hfree : h.alloc = false → f.alloc = false := by
    intro h1
    cases h2 : f.alloc with
    | false => rfl
    | true => rw [hal h2] at h1; cases h1
  exact
  { S with
    inside := by
      intro x k hx
      obtain ⟨l, hl, hlk⟩ := hold hx
      have h1 : _ ∧ _ ∧ _ ∧ _ ∧ _ ≤ g.memEnd := S.inside hl
      exact ⟨h1.1, h1.2.1, by omega, by omega, hlk ▸ h1.2.2.2.2⟩
    apart := by
      intro x y k l hx hy hxy
      obtain ⟨k', hk', h1⟩ := hold hx
      obtain ⟨l', hl', h2⟩ := hold hy
      have := S.apart hk' hl' hxy
      omega
    free_mem := by
      intro i x hi hx
      obtain ⟨k, hk, hkal, hidx⟩ := S.free_mem hi hx
      by_cases hxa : x = a
      · subst hxa
        rw [ha] at hk
        cases hk
        exact ⟨f, by simp, hfree hkal, by rw [hsz]; exact hidx⟩
      · exact ⟨k, by simp only [setHdr_hdr, if_neg hxa]; exact hk, hkal, hidx⟩
    quick_mem := by
      intro i x hi hx
      obtain ⟨k, hk, hkal, hks⟩ := S.quick_mem hi hx
      by_cases hxa : x = a
      · subst hxa
        rw [ha] at hk
        cases hk
        refine ⟨f, by simp, ?_, by rw [hsz]; exact hks⟩
        cases h1 : f.alloc with
        | true => rfl
        | false => exact absurd hx (hq h1 i hi)
      · exact ⟨k, by simp only [setHdr_hdr, if_neg hxa]; exact hk, hkal, hks⟩
    known_mem := by
      intro c w hc
      obtain ⟨x, k, hk, hkal, h1, h2⟩ := S.known_mem hc
      by_cases hxa : x = a
      · subst hxa
        rw [ha] at hk
        cases hk
        exact ⟨x, f, by simp, hfree hkal, h1, by rw [hsz]; exact h2⟩
      · exact ⟨x, k, by simp only [setHdr_hdr, if_neg hxa]; exact hk, hkal, h1, h2⟩ }

/-- A block appears where there was none. -/
theorem appear (hnone : g.hdr a = none)
    (hin : e.sf_mem_start ≤ a ∧ a % 16 = 0 ∧ 32 ≤ h.size ∧ h.size % 16 = 0 ∧
      a + h.size + 16 ≤ g.memEnd)
    (hap : ∀ b k, g.hdr b = some k → b + k.size ≤ a ∨ a + h.size ≤ b) :
    (g.setHdr a h).Shape e := by
  have hkeep : ∀ {x k}, g.hdr x = some k → (g.setHdr a h).hdr x = some k := by
    intro x k hx
    have hxa : x ≠ a := by
      rintro rfl
      rw [hnone] at hx
      cases hx
    simp only [setHdr_hdr, if_neg hxa]
    exact hx
  exact
  { S with
    inside := by
      intro x k hx
      simp only [setHdr_hdr] at hx
      split at hx
      · rename_i hxa
        cases hx
        exact hxa ▸ hin
      · exact S.inside hx
    apart := by
      intro x y k l hx hy hxy
      simp only [setHdr_hdr] at hx hy
      split at hx <;> split at hy
      · omega
      · cases hx
        have h1 := hap y l hy
        have h2 := S.inside hy
        omega
      · cases hy
        have h1 := hap x k hx
        omega
      · exact S.apart hx hy hxy
    free_mem := by
      intro i x hi hx
      obtain ⟨k, hk, hkal⟩ := S.free_mem hi hx
      exact ⟨k, hkeep hk, hkal⟩
    quick_mem := by
      intro i x hi hx
      obtain ⟨k, hk, hkal⟩ := S.quick_mem hi hx
      exact ⟨k, hkeep hk, hkal⟩
    known_mem := by
      intro c w hc
      obtain ⟨x, k, hk, hkal⟩ := S.known_mem hc
      exact ⟨x, k, hkeep hk, hkal⟩ }

/-- A free block that is in no list becomes allocated. -/
theorem allot (ha : g.hdr a = some h) (hfal : h.alloc = false) (hsz : f.size = h.size)
    (hun : ∀ i < 10, a ∉ g.free i) : (g.allot a f).Shape e := by
  have hold : ∀ {x k}, (g.allot a f).hdr x = some k →
      ∃ l, g.hdr x = some l ∧ l.size = k.size := by
    intro x k hx
    simp only [allot_hdr] at hx
    split at hx
    · rename_i hxa
      cases hx
      exact ⟨h, hxa ▸ ha, hsz.symm⟩
    · exact ⟨k, hx, rfl⟩
  have hkeep : ∀ {x k}, x ≠ a → g.hdr x = some k → (g.allot a f).hdr x = some k := by
    intro x k hxa hx
    simp only [allot_hdr, if_neg hxa]
    exact hx
  exact
  { S with
    inside := by
      intro x k hx
      obtain ⟨l, hl, hlk⟩ := hold hx
      have h1 : _ ∧ _ ∧ _ ∧ _ ∧ _ ≤ g.memEnd := S.inside hl
      exact ⟨h1.1, h1.2.1, by omega, by omega, hlk ▸ h1.2.2.2.2⟩
    apart := by
      intro x y k l hx hy hxy
      obtain ⟨k', hk', h1⟩ := hold hx
      obtain ⟨l', hl', h2⟩ := hold hy
      have := S.apart hk' hl' hxy
      omega
    free_mem := by
      intro i x hi hx
      obtain ⟨k, hk, hkal⟩ := S.free_mem hi hx
      exact ⟨k, hkeep (fun he => hun i hi (he ▸ hx)) hk, hkal⟩
    quick_mem := by
      intro i x hi hx
      obtain ⟨k, hk, hkal⟩ := S.quick_mem hi hx
      exact ⟨k, hkeep (fun he => S.not_quick_of_free ha hfal hi (he ▸ hx)) hk, hkal⟩
    known_mem := by
      intro c w hc
      simp only [allot_known] at hc
      split at hc
      · cases hc
      · rename_i hout
        obtain ⟨x, k, hk, hkal, h1, h2⟩ := S.known_mem hc
        refine ⟨x, k, hkeep ?_ hk, hkal, h1, h2⟩
        rintro rfl
        rw [ha] at hk
        cases hk
        omega }

/-- The front of a block that is in no list is cut off. -/
theorem carve {m : Nat} (ha : g.hdr a = some h) (hun : ∀ i < 10, a ∉ g.free i)
    (hq : ∀ i < 10, a ∉ g.quick i) (hm : 32 ≤ m) (hm16 : m % 16 = 0) (hrest : m + 32 ≤ h.size) :
    (g.carve a m h.size).Shape e := by
  have h1 := S.inside ha
  -- the block at `a` gives way to the rest at `a + m`
  have hhdr : ∀ {x k}, (g.carve a m h.size).hdr x = some k →
      (x = a + m ∧ k = ⟨h.size - m, false, true⟩) ∨
        (x ≠ a ∧ g.hdr x = some k ∧ (x + k.size ≤ a ∨ a + h.size ≤ x)) := by
    intro x k hx
    simp only [carve_hdr] at hx
    split at hx
    · cases hx
      exact .inl ⟨‹_›, rfl⟩
    · split at hx
      · cases hx
      · rename_i hxa
        exact .inr ⟨hxa, hx, (S.cases_apart hx ha).resolve_left hxa⟩
  have hkeep : ∀ {x k}, x ≠ a → g.hdr x = some k → (g.carve a m h.size).hdr x = some k := by
    intro x k hxa hx
    have h2 := (S.cases_apart hx ha).resolve_left hxa
    have h3 := S.inside hx
    simp only [carve_hdr, if_neg (show x ≠ a + m by omega), if_neg hxa]
    exact hx
  exact
  { S with
    inside := by
      intro x k hx
      rcases hhdr hx with ⟨rfl, rfl⟩ | ⟨_, hx, _⟩
      · simp only [carve_memEnd]
        omega
      · exact S.inside hx
    apart := by
      intro x y k l hx hy hxy
      rcases hhdr hx with ⟨rfl, rfl⟩ | ⟨_, hx, h2⟩ <;> rcases hhdr hy with ⟨rfl, rfl⟩ | ⟨_, hy, h3⟩
      · omega
      · have h4 := S.inside hy
        dsimp only
        omega
      · omega
      · exact S.apart hx hy hxy
    free_mem := by
      intro i x hi hx
      obtain ⟨k, hk, hkal⟩ := S.free_mem hi hx
      exact ⟨k, hkeep (fun he => hun i hi (he ▸ hx)) hk, hkal⟩
    quick_mem := by
      intro i x hi hx
      obtain ⟨k, hk, hkal⟩ := S.quick_mem hi hx
      exact ⟨k, hkeep (fun he => hq i hi (he ▸ hx)) hk, hkal⟩
    known_mem := by
      intro c w hc
      simp only [carve_known] at hc
      split at hc
      · cases hc
      · rename_i hout
        obtain ⟨x, k, hk, hkal, h2, h3⟩ := S.known_mem hc
        by_cases hxa : x = a
        · subst hxa
          rw [ha] at hk
          cases hk
          refine ⟨x + m, ⟨h.size - m, false, true⟩, by simp, rfl, by omega, ?_⟩
          dsimp only
          omega
        · exact ⟨x, k, hkeep hxa hk, hkal, h2, h3⟩ }

end Pool.Shape

namespace Represents

variable {e : Env} {W : Nat → Prop} {m₀ : Nat → Nat} {s : State} {g : Pool}
  (R : Represents e W m₀ s g) {a : Nat} {h f : Hdr}

include R

theorem reflag (ha : g.hdr a = some h) (hsz : f.size = h.size)
    (hal : f.alloc = true → h.alloc = true)
    (hq : f.alloc = false → ∀ i < 10, a ∉ g.quick i)
    (hW : f.alloc = false → ∀ x, W x → x ≤ a ∨ a + h.size < x) :
    Represents e W m₀ (s.put (headerOf a) (f.word ^^^ e.magic)) (g.setHdr a f) := by
  refine R.store_header (R.shape.reflag ha hsz hal hq) (by simp) ?_ ?_ (fun _ _ hc => hc) rfl
  · intro x k hxa hx
    simp only [Pool.setHdr_hdr, if_neg hxa] at hx
    exact hx
  · intro x hx
    have hs := R.watch hx
    exact
    { hs with
      not_header := by
        intro b k hb
        simp only [Pool.setHdr_hdr] at hb
        split at hb
        · rename_i hba
          rw [hba]
          exact hs.not_header ha
        · exact hs.not_header hb
      not_free := by
        intro b k hb hbal
        simp only [Pool.setHdr_hdr] at hb
        split at hb
        · rename_i hba
          cases hb
          rw [hba, hsz]
          exact hW hbal x hx
        · exact hs.not_free hb hbal }

theorem appear (hnone : g.hdr a = none)
    (hin : e.sf_mem_start ≤ a ∧ a % 16 = 0 ∧ 32 ≤ h.size ∧ h.size % 16 = 0 ∧
      a + h.size + 16 ≤ g.memEnd)
    (hap : ∀ b k, g.hdr b = some k → b + k.size ≤ a ∨ a + h.size ≤ b)
    (hW : ∀ x, W x → x ≠ headerOf a ∧ (h.alloc = false → x ≤ a ∨ a + h.size < x)) :
    Represents e W m₀ (s.put (headerOf a) (h.word ^^^ e.magic)) (g.setHdr a h) := by
  refine R.store_header (R.shape.appear hnone hin hap) (by simp) ?_ ?_ (fun _ _ hc => hc) rfl
  · intro x k hxa hx
    simp only [Pool.setHdr_hdr, if_neg hxa] at hx
    exact hx
  · intro x hx
    have hs := R.watch hx
    exact
    { hs with
      not_header := by
        intro b k hb
        simp only [Pool.setHdr_hdr] at hb
        split at hb
        · rename_i hba
          rw [hba]
          exact (hW x hx).1
        · exact hs.not_header hb
      not_free := by
        intro b k hb hbal
        simp only [Pool.setHdr_hdr] at hb
        split at hb
        · rename_i hba
          cases hb
          rw [hba]
          exact (hW x hx).2 hbal
        · exact hs.not_free hb hbal }

theorem allot (ha : g.hdr a = some h) (hfal : h.alloc = false) (hsz : f.size = h.size)
    (hal : f.alloc = true) (hun : ∀ i < 10, a ∉ g.free i) :
    Represents e W m₀ (s.put (headerOf a) (f.word ^^^ e.magic)) (g.allot a f) := by
  refine R.store_header (R.shape.allot ha hfal hsz hun) (by simp) ?_ ?_ ?_ rfl
  · intro x k hxa hx
    simp only [Pool.allot_hdr, if_neg hxa] at hx
    exact hx
  · intro x hx
    have hs := R.watch hx
    exact
    { hs with
      not_header := by
        intro b k hb
        simp only [Pool.allot_hdr] at hb
        split at hb
        · rename_i hba
          rw [hba]
          exact hs.not_header ha
        · exact hs.not_header hb
      not_free := by
        intro b k hb hbal
        simp only [Pool.allot_hdr] at hb
        split at hb
        · cases hb
          rw [hal] at hbal
          cases hbal
        · exact hs.not_free hb hbal }
  · intro c w hc
    simp only [Pool.allot_known] at hc
    split at hc
    · cases hc
    · exact hc

/-- The rest of a block is a block as soon as its header is in place. -/
theorem carve {m : Nat} (ha : g.hdr a = some h) (hun : ∀ i < 10, a ∉ g.free i)
    (hq : ∀ i < 10, a ∉ g.quick i) (hm : 32 ≤ m) (hm16 : m % 16 = 0) (hrest : m + 32 ≤ h.size)
    (hmem : s.mem (headerOf (a + m)) = (Hdr.mk (h.size - m) false true).word ^^^ e.magic)
    (hW : ∀ x, W x → x ≤ a + m ∨ a + h.size < x) :
    Represents e W m₀ s (g.carve a m h.size) :=
  have S := R.shape.carve ha hun hq hm hm16 hrest
  { R with
    shape := S
    header := by
      intro x k hx
      simp only [Pool.carve_hdr] at hx
      split at hx
      · rename_i hxa
        cases hx
        rw [hxa]
        exact hmem
      · split at hx
        · cases hx
        · exact R.header hx
    known := by
      intro c w hc
      simp only [Pool.carve_known] at hc
      split at hc
      · cases hc
      · exact R.known hc
    watch := by
      intro x hx
      have hs := R.watch hx
      have hout := hW x hx
      exact
      { hs with
        not_header := by
          intro b k hb
          simp only [Pool.carve_hdr] at hb
          split at hb
          · unfold headerOf
            omega
          · split at hb
            · cases hb
            · exact hs.not_header hb
        not_free := by
          intro b k hb hbal
          simp only [Pool.carve_hdr] at hb
          split at hb
          · cases hb
            dsimp only
            omega
          · split at hb
            · cases hb
            · exact hs.not_free hb hbal } }

/-- `globalEnd` takes another value. -/
theorem set_globalEnd (b : Nat) :
    Represents e W m₀ { s with globalEnd := b } (g.setGlobalEnd b) :=
  { R with
    shape := { R.shape with }
    globalEnd := rfl
    watch := fun hx => { R.watch hx with } }

theorem set_errno (n : Nat) :
    Represents e W m₀ { s with sf_errno := n } (g.setErrno n) :=
  { R with
    shape := { R.shape with }
    errno := rfl
    watch := fun hx => { R.watch hx with } }

end Represents

end StarterProjects.Sfmm
