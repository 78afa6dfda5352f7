import StarterProjects.Lib.Objects

/-!
# Threads at a semaphore

What one turn of a thread does when its next action is one of `read`, `update`, `P` or `V`.
`Owned`: the value of a binary semaphore tells whether a thread is inside. `Taken`: it is
down without a thread inside, until somebody puts it up.
-/

namespace Lib

variable {σ α β ι φ : Type}

/-! ## Single turns -/

section Turns

variable [DecidableEq ι] {o : Obj σ α} {l : Lock α} {s : σ} {a : α} {f : α → α} {i : ι}
  {pool : ι → Prog σ β}

theorem read_turn {k : α → Prog σ β} (hp : pool i = o.read >>= k) (h : o.get s = some a) :
    turn i (s, pool) = some (s, Function.update pool i (k a)) := by
  rw [turn_act (f := some) hp rfl]
  simp only [h]
  rfl

theorem ask_turn {γ : Type} {g : σ → γ} {k : γ → Prog σ β} (hp : pool i = Prog.ask g >>= k) :
    turn i (s, pool) = some (s, Function.update pool i (k (g s))) :=
  turn_act (f := some) hp rfl

theorem update_turn {k : Unit → Prog σ β} (hp : pool i = o.update f >>= k)
    (h : o.get s = some a) :
    turn i (s, pool) = some (o.set (f a) s, Function.update pool i (k ())) := by
  rw [turn_act (f := fun s => some (o.modify f s)) hp rfl, o.modify_eq_set h]
  simp only [h]
  rfl

theorem V_turn {k : Unit → Prog σ β} (hp : pool i = V o l >>= k) (h : o.get s = some a) :
    turn i (s, pool) =
      some (o.set (l.put (l.value a + 1) a) s, Function.update pool i (k ())) :=
  update_turn (f := fun a => l.put (l.value a + 1) a) hp h

theorem P_turn {k : Unit → Prog σ β} (hp : pool i = P o l >>= k) (h : o.get s = some a)
    {c : Threads ι σ β} (hc : turn i (s, pool) = some c) : l.value a ≠ 0 ∧
      c = (o.set (l.put (l.value a - 1) a) s, Function.update pool i (k ())) := by
  obtain ⟨f, k', s', hact, hf, rfl⟩ := turn_some hc
  rw [hp] at hact
  obtain ⟨hf', hk⟩ := Prog.act.inj hact
  rw [← hf'] at hf
  rw [← hk]
  simp only [h] at hf ⊢
  split at hf
  · cases hf
  · next hv =>
    cases hf
    rw [o.modify_eq_set h]
    exact ⟨hv, rfl⟩

theorem P_turn_up {k : Unit → Prog σ β} (hp : pool i = P o l >>= k) (h : o.get s = some a)
    (hv : l.value a ≠ 0) : turn i (s, pool) =
      some (o.set (l.put (l.value a - 1) a) s, Function.update pool i (k ())) := by
  refine (turn_act hp (?_ : _ = some (o.set (l.put (l.value a - 1) a) s))).trans ?_
  · simp only [h, if_neg hv]
    rw [o.modify_eq_set h]
  · simp only [h]
    rfl

end Turns

/-! ## Who is inside -/

/-- The semaphore is up and no thread is in the phase `x`, or it is down and exactly one is. -/
def Owned (x : φ) (v : Nat) (phase : ι → φ) : Prop :=
  (v = 1 ∧ ∀ t, phase t ≠ x) ∨ (v = 0 ∧ ∃ h, phase h = x ∧ ∀ t, phase t = x → t = h)

/-- The semaphore is down and no thread is in the phase `x`. -/
def Taken (x : φ) (v : Nat) (phase : ι → φ) : Prop := v = 0 ∧ ∀ t, phase t ≠ x

namespace Owned

variable {x y : φ} {v : Nat} {phase : ι → φ} {t u : ι}

theorem up (h : Owned x v phase) (hv : v ≠ 0) : v = 1 ∧ ∀ t, phase t ≠ x := by
  rcases h with h | ⟨h0, _⟩
  · exact h
  · exact absurd h0 hv

theorem down (h : Owned x v phase) (ht : phase t = x) : v = 0 := by
  rcases h with ⟨_, h⟩ | ⟨h0, _⟩
  · exact absurd ht (h t)
  · exact h0

theorem alone (h : Owned x v phase) (ht : phase t = x) (hu : phase u = x) : u = t := by
  rcases h with ⟨_, h⟩ | ⟨_, s, _, h⟩
  · exact absurd ht (h t)
  · exact (h u hu).trans (h t ht).symm

variable [DecidableEq ι]

theorem enter (h : Owned x v phase) (hv : v ≠ 0) (t : ι) :
    Owned x (v - 1) (Function.update phase t x) := by
  obtain ⟨rfl, hnone⟩ := h.up hv
  refine .inr ⟨rfl, t, Function.update_self .., fun u hu => ?_⟩
  by_contra hut
  rw [Function.update_of_ne hut] at hu
  exact hnone u hu

theorem leave (h : Owned x v phase) (ht : phase t = x) (hy : y ≠ x) :
    Owned x (v + 1) (Function.update phase t y) := by
  refine .inl ⟨by rw [h.down ht], fun u hu => ?_⟩
  rcases eq_or_ne u t with rfl | hut
  · rw [Function.update_self] at hu
    exact hy hu
  · rw [Function.update_of_ne hut] at hu
    exact hut (h.alone ht hu)

theorem pass (h : Owned x v phase) (ht : phase t ≠ x) (hy : y ≠ x) :
    Owned x v (Function.update phase t y) := by
  have hsame : ∀ u, Function.update phase t y u = x ↔ phase u = x := fun u => by
    rcases eq_or_ne u t with rfl | hut
    · rw [Function.update_self]
      exact ⟨fun he => absurd he hy, fun he => absurd he ht⟩
    · rw [Function.update_of_ne hut]
  simp only [Owned, ne_eq, hsame]
  exact h

end Owned

namespace Taken

variable {x y : φ} {v : Nat} {phase : ι → φ} {t : ι}

theorem of_owned (h : Owned x v phase) (hv : v ≠ 0) : Taken x (v - 1) phase := by
  obtain ⟨rfl, hnone⟩ := h.up hv
  exact ⟨rfl, hnone⟩

theorem owned (h : Taken x v phase) : Owned x (v + 1) phase := .inl ⟨by rw [h.1], h.2⟩

theorem pass [DecidableEq ι] (h : Taken x v phase) (t : ι) (hy : y ≠ x) :
    Taken x v (Function.update phase t y) := by
  refine ⟨h.1, fun u => ?_⟩
  rcases eq_or_ne u t with rfl | hut
  · rwa [Function.update_self]
  · rw [Function.update_of_ne hut]
    exact h.2 u

end Taken

end Lib
