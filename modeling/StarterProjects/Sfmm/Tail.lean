import StarterProjects.Sfmm.Run

/-!
# Growing a free tail

How many pages the growth loop adds behind a free last block, and what it changes:
the block gets larger, and every other header stays as it is.
-/

namespace StarterProjects.Sfmm

open Lib Lib.Exec

/-- How many pages the growth loop asks for when the last block is free and has `T`
bytes: `(int)tempSize` starts at the low 32 bits of `n - T`. -/
def growTurns (n T : Nat) : Nat :=
  if intNeg (sub64 n T) then 0 else sub64 n T % 2 ^ 32 / PAGE_SZ + 1

theorem intNeg_turn {n T i : Nat} (hT : T + i * PAGE_SZ < 2 ^ 64) (hi : i ≤ growTurns n T) :
    intNeg (sub64 n (T + i * PAGE_SZ)) = decide (i = growTurns n T) := by
  unfold growTurns at *
  by_cases hneg : intNeg (sub64 n T) = true
  · rw [if_pos hneg] at hi ⊢
    obtain rfl := Nat.le_zero.mp hi
    rw [Nat.zero_mul, Nat.add_zero, hneg, decide_eq_true rfl]
  · rw [if_neg hneg] at hi ⊢
    unfold intNeg sub64 PAGE_SZ at *
    simp only [decide_eq_true_eq] at *
    rw [decide_eq_decide]
    omega

namespace Pool

/-- After `j` pages have been merged into a free last block of `T` bytes. -/
structure Merged (e : Env) (g : Pool) (n T j : Nat) (g' : Pool) : Prop where
  calls : g'.growCalls = g.growCalls + j
  memEnd : g'.memEnd = g.memEnd + j * PAGE_SZ
  granted : ∀ i < j, e.grants (g.growCalls + i) = true ∧
    g.memEnd + (i + 1) * PAGE_SZ ≤ e.heapLimit
  turns : j ≤ growTurns n T
  others : ∀ a, a ≠ g.globalEnd → g'.hdr a = g.hdr a

theorem Merged.size {e : Env} {g g' : Pool} {n T j m : Nat} (M : Merged e g n T j g')
    (F : g'.FreeTail g.globalEnd m T) {h : Hdr} (L : g.Last g.globalEnd h) (hT : h.size = T) :
    g'.sizeOf g.globalEnd = T + j * PAGE_SZ := by
  obtain ⟨k, L', _⟩ := F.tail
  have h1 := L.ends
  have h2 := L'.ends
  rw [sizeOf_of_hdr L'.hdr]
  have h3 := M.memEnd
  omega

theorem Merged.page {e : Env} {g g' : Pool} {n j m : Nat} {h : Hdr} (M : Merged e g n h.size j g')
    (L : g.Last g.globalEnd h) (F : g'.FreeTail g.globalEnd m h.size) (hc : g'.canGrow e = true)
    (hneg : intNeg (sub64 n (g'.sizeOf g.globalEnd)) = false) :
    Merged e g n h.size (j + 1) (pageMerged g.globalEnd m g'.grown) := by
  have hlim := canGrow_limit hc
  have hsize := M.size F L rfl
  rw [M.memEnd] at hlim
  have hlt := e.limit_lt
  have hends := L.ends
  refine ⟨?_, ?_, fun i hi => ?_, ?_, fun a ha => ?_⟩
  · change g'.growCalls + 1 = _
    rw [M.calls, Nat.add_assoc]
  · change g'.memEnd + PAGE_SZ = _
    rw [M.memEnd, Nat.succ_mul, Nat.add_assoc]
  · rcases Nat.lt_succ_iff_lt_or_eq.mp hi with hi | rfl
    · exact M.granted i hi
    · unfold canGrow at hc
      rw [Bool.and_eq_true, M.calls] at hc
      exact ⟨hc.1, by rw [Nat.succ_mul]; omega⟩
  · have h1 := M.turns
    rw [hsize, intNeg_turn (by unfold PAGE_SZ at *; omega) h1, decide_eq_false_iff_not] at hneg
    omega
  · rw [pageMerged, makeFree_hdr, if_neg ha, if_neg List.not_mem_nil]
    exact M.others a ha

/-- The two ways in which growth behind a free block can go. -/
theorem grow_tail {e : Env} {g : Pool} {h : Hdr} {n : Nat} (S : g.Shape e)
    (L : g.Last g.globalEnd h) (hal : h.alloc = false) :
    ∃ j g', Merged e g n h.size j g' ∧ g'.FreeTail g.globalEnd (g.globalEnd + h.size) h.size ∧
      (g.grow e n = (true, g') ∧ j = growTurns n h.size ∨
        g.grow e n = (false, g'.refused) ∧ j < growTurns n h.size ∧ g'.canGrow e = false) := by
  have hlt := S.lt_two_pow L.hdr
  have hbound : ∀ {j g'}, Merged e g n h.size j g' → j = 0 ∨ h.size + j * PAGE_SZ < 2 ^ 64 := by
    intro j g' M
    rcases Nat.eq_zero_or_pos j with h0 | h0
    · exact .inl h0
    · have h1 := (M.granted (j - 1) (by omega)).2
      have h2 := e.limit_lt
      have h3 := L.ends
      unfold PAGE_SZ at *
      exact .inr (by omega)
  have hsmall : ∀ {j g'}, Merged e g n h.size j g' → h.size + j * PAGE_SZ < 2 ^ 64 := by
    intro j g' M
    rcases hbound M with rfl | h1 <;> omega
  rcases grow_merged n (P := fun g' => ∃ j, Merged e g n h.size j g') S L hal rfl
    ⟨0, rfl, by simp, nofun, Nat.zero_le _, fun _ _ => rfl⟩
    (fun g' ⟨j, M⟩ F hc hneg => ⟨j + 1, M.page L F hc hneg⟩) with
    ⟨h1, ⟨j, M⟩, F, hneg⟩ | ⟨h1, g', ⟨j, M⟩, F, hneg, hc, he⟩
  · refine ⟨j, _, M, F, .inl ⟨Prod.ext h1 rfl, ?_⟩⟩
    rw [M.size F L rfl, intNeg_turn (hsmall M) M.turns] at hneg
    exact of_decide_eq_true hneg
  · refine ⟨j, g', M, F, .inr ⟨Prod.ext h1 he, ?_, hc⟩⟩
    rw [M.size F L rfl, intNeg_turn (hsmall M) M.turns] at hneg
    have h2 := M.turns
    have h3 := of_decide_eq_false hneg
    omega

end Pool

end StarterProjects.Sfmm
