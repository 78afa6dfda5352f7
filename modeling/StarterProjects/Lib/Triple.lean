import StarterProjects.Lib.Exec
import Mathlib.Order.RelClasses

/-!
# Assertions about programs, and programs run twice

`Triple P m Q` is partial correctness: where `m` returns from a state with `P`, what it returns
satisfies `Q`. `Within R m` says it of the state found and the state left. `Twin R m` is about
two runs: from `R`-related states `m` either returns one value, in `R`-related states, or stops
for one reason. All have one rule for each way to compose programs.
-/

namespace Lib.Exec

variable {σ α β ι : Type}

/-- A function of the state. -/
def gets (f : σ → α) : Exec σ α := fun s => .ok (f s, s)

@[simp] theorem gets_apply (f : σ → α) (s : σ) : gets f s = .ok (f s, s) := rfl

@[simp] theorem gets_bind (f : σ → α) (k : α → Exec σ β) (s : σ) :
    (gets f >>= k) s = k (f s) s := rfl

@[simp] theorem modify_bind (f : σ → σ) (k : PUnit → Exec σ β) (s : σ) :
    ((modify f : Exec σ PUnit) >>= k) s = k ⟨⟩ (f s) := rfl

@[simp] theorem stop_bind (r : Stop) (k : α → Exec σ β) (s : σ) :
    ((stop r : Exec σ α) >>= k) s = .error r := rfl

@[simp] theorem ret_bind (a : α) (k : α → Exec σ β) (s : σ) :
    ((pure a : Exec σ α) >>= k) s = k a s := rfl

/-- The state that `m` leaves, or the one it found when it does not return. -/
def after (m : Exec σ α) (s : σ) : σ :=
  match m s with
  | .ok r => r.2
  | .error _ => s

theorem Ends.eq_after {m : Exec σ α} {s : σ} {a : α} {P : σ → Prop}
    (h : Ends m s fun b s' => b = a ∧ P s') : m s = .ok (a, after m s) ∧ P (after m s) := by
  obtain ⟨b, s', he, rfl, hP⟩ := h
  rw [after, he]
  exact ⟨rfl, hP⟩

theorem Returns.seq_iff {m : Exec σ Unit} {k : Unit → Exec σ β} {s : σ} :
    Returns (m >>= k) s ↔ Returns m s ∧ Returns (k ()) (after m s) := by
  have hafter : ∀ {u s'}, m s = .ok (u, s') → after m s = s' := fun h => by rw [after, h]
  constructor
  · rintro ⟨b, t, h, -⟩
    obtain ⟨⟨⟩, s₁, hm, hk⟩ := bind_eq_ok h
    exact ⟨.of_eq hm, hafter hm ▸ .of_eq hk⟩
  · rintro ⟨⟨⟨⟩, s₁, hm, -⟩, hk⟩
    rw [hafter hm] at hk
    exact Ends.run hm hk

def Triple (P : σ → Prop) (m : Exec σ α) (Q : α → σ → Prop) : Prop :=
  ∀ s a s', P s → m s = .ok (a, s') → Q a s'

namespace Triple

variable {P P' : σ → Prop} {m m' : Exec σ α} {k : α → Exec σ β} {Q Q' : α → σ → Prop}
  {S : β → σ → Prop}

theorem conseq (h : Triple P m Q) (hP : ∀ s, P' s → P s) (hQ : ∀ a s, Q a s → Q' a s) :
    Triple P' m Q' :=
  fun s a s' hs he => hQ a s' (h s a s' (hP s hs) he)

theorem pre (h : Triple P m Q) (hP : ∀ s, P' s → P s) : Triple P' m Q :=
  h.conseq hP fun _ _ hQ => hQ

theorem post (h : Triple P m Q) (hQ : ∀ a s, Q a s → Q' a s) : Triple P m Q' :=
  h.conseq (fun _ hP => hP) hQ

theorem ret {a : α} (h : ∀ s, P s → Q a s) : Triple P (pure a) Q := by
  intro s b s' hs he
  cases he
  exact h s hs

theorem stop {r : Stop} : Triple P (stop r : Exec σ α) Q := by
  intro s b s' _ he
  cases he

theorem bind (hm : Triple P m Q) (hk : ∀ a, Triple (Q a) (k a) S) : Triple P (m >>= k) S := by
  intro s b s' hs he
  obtain ⟨a, s₁, h₁, h₂⟩ := bind_eq_ok he
  exact hk a s₁ b s' (hm s a s₁ hs h₁) h₂

theorem modify {f : σ → σ} {Q : PUnit → σ → Prop} (h : ∀ s, P s → Q ⟨⟩ (f s)) :
    Triple P (modify f : Exec σ PUnit) Q := by
  intro s b s' hs he
  cases he
  exact h s hs

theorem gets {f : σ → α} (h : ∀ s, P s → Q (f s) s) : Triple P (gets f) Q := by
  intro s b s' hs he
  cases he
  exact h s hs

theorem ite {c : Prop} [Decidable c] (h : c → Triple P m Q) (h' : ¬c → Triple P m' Q) :
    Triple P (if c then m else m') Q := by
  split
  · exact h ‹_›
  · exact h' ‹_›

theorem forEach {I : σ → Prop} {body : ι → Exec σ Unit}
    (h : ∀ i, Triple I (body i) fun _ => I) : ∀ is, Triple I (forEach body is) fun _ => I
  | [] => ret fun _ hI => hI
  | i :: is => (h i).bind fun _ => forEach h is

/-- The state in which a program starts can be named. -/
theorem of_state (h : ∀ s₀, P s₀ → Triple (fun s => s = s₀) m Q) : Triple P m Q :=
  fun s a s' hs he => h s hs s a s' rfl he

/-- What is read of a state that has a name. -/
theorem gets_bind {f : σ → β} {k : β → Exec σ α} {s₀ : σ}
    (h : Triple (fun s => s = s₀) (k (f s₀)) Q) :
    Triple (fun s => s = s₀) (Exec.gets f >>= k) Q := by
  rintro s a s' rfl he
  exact h s a s' rfl he

end Triple

/-- Whenever `m` returns, the state it leaves is `R`-related to the state it found. -/
def Within (R : σ → σ → Prop) (m : Exec σ α) : Prop := ∀ s a s', m s = .ok (a, s') → R s s'

namespace Within

variable {R : σ → σ → Prop} {m m' : Exec σ α} {k : α → Exec σ β}

theorem mono {R' : σ → σ → Prop} (h : Within R m) (hR : ∀ s s', R s s' → R' s s') :
    Within R' m :=
  fun s a s' he => hR s s' (h s a s' he)

theorem stop {r : Stop} : Within R (stop r : Exec σ α) := fun _ _ _ h => by cases h

theorem modify {f : σ → σ} (h : ∀ s, R s (f s)) : Within R (modify f : Exec σ PUnit) :=
  fun s _ _ he => by
    cases he
    exact h s

theorem ite {c : Prop} [Decidable c] (h : Within R m) (h' : Within R m') :
    Within R (if c then m else m') := by
  split
  · exact h
  · exact h'

theorem triple {P : σ → Prop} (h : Within R m) (hP : ∀ s s', R s s' → P s → P s') :
    Triple P m fun _ => P :=
  fun s a s' hs he => hP s s' (h s a s' he) hs

theorem of_start (h : Within R m) {s₀ : σ} : Triple (fun s => s = s₀) m fun _ => R s₀ := by
  rintro s a s' rfl he
  exact h s a s' he

variable [IsPreorder σ R]

theorem ret {a : α} : Within R (pure a) := fun s _ _ h => by
  cases h
  exact refl_of R s

theorem gets {f : σ → α} : Within R (gets f) := fun s _ _ h => by
  cases h
  exact refl_of R s

theorem bind (hm : Within R m) (hk : ∀ a, Within R (k a)) : Within R (m >>= k) :=
  fun s b s' h => by
    obtain ⟨a, s₁, h₁, h₂⟩ := bind_eq_ok h
    exact trans_of R (hm s a s₁ h₁) (hk a s₁ b s' h₂)

theorem forEach {body : ι → Exec σ Unit} (h : ∀ i, Within R (body i)) :
    ∀ is, Within R (forEach body is)
  | [] => ret
  | i :: is => (h i).bind fun _ => forEach h is

end Within

/-- How two runs end. -/
inductive Alike (R : σ → σ → Prop) :
    Except Stop (α × σ) → Except Stop (α × σ) → Prop
  | ok {a : α} {s s' : σ} : R s s' → Alike R (.ok (a, s)) (.ok (a, s'))
  | error {r : Stop} : Alike R (.error r) (.error r)

def Twin (R : σ → σ → Prop) (m : Exec σ α) : Prop :=
  ∀ s s', R s s' → Alike R (m s) (m s')

theorem Alike.mono {R R' : σ → σ → Prop} {x y : Except Stop (α × σ)} (h : Alike R x y)
    (hR : ∀ s s', R s s' → R' s s') : Alike R' x y := by
  cases h with
  | ok h => exact .ok (hR _ _ h)
  | error => exact .error

theorem Alike.bind {R R' : σ → σ → Prop} {m m' : Exec σ α} {k k' : α → Exec σ β} {s s' : σ}
    (h : Alike R (m s) (m' s'))
    (hk : ∀ a t t', R t t' → Alike R' (k a t) (k' a t')) :
    Alike R' ((m >>= k) s) ((m' >>= k') s') := by
  generalize hx : m s = x at h
  generalize hy : m' s' = y at h
  cases h with
  | ok hR =>
    rw [bind_ok hx, bind_ok hy]
    exact hk _ _ _ hR
  | error =>
    rw [bind_error hx, bind_error hy]
    exact .error

theorem Alike.ite {R : σ → σ → Prop} {c : Prop} [Decidable c] {m m' k k' : Exec σ α} {s s' : σ}
    (h : c → Alike R (m s) (m' s')) (h' : ¬c → Alike R (k s) (k' s')) :
    Alike R ((if c then m else k) s) ((if c then m' else k') s') := by
  split
  · exact h ‹_›
  · exact h' ‹_›

namespace Twin

variable {R : σ → σ → Prop} {m m' : Exec σ α} {k : α → Exec σ β}

theorem ret (a : α) : Twin R (pure a) := fun _ _ h => .ok h

theorem stop (r : Stop) : Twin R (stop r : Exec σ α) := fun _ _ _ => .error

theorem bind (hm : Twin R m) (hk : ∀ a, Twin R (k a)) : Twin R (m >>= k) :=
  fun s s' h => (hm s s' h).bind fun a t t' => hk a t t'

theorem modify {f : σ → σ} (h : ∀ s s', R s s' → R (f s) (f s')) :
    Twin R (modify f : Exec σ PUnit) :=
  fun s s' hR => .ok (h s s' hR)

theorem gets {f : σ → α} (h : ∀ s s', R s s' → f s = f s') : Twin R (gets f) := by
  intro s s' hR
  rw [gets_apply, gets_apply, h s s' hR]
  exact .ok hR

theorem ite {c : Prop} [Decidable c] (h : Twin R m) (h' : Twin R m') :
    Twin R (if c then m else m') := by
  split
  · exact h
  · exact h'

theorem forEach {body : ι → Exec σ Unit} (h : ∀ i, Twin R (body i)) :
    ∀ is, Twin R (forEach body is)
  | [] => ret _
  | i :: is => (h i).bind fun _ => forEach h is

end Twin

end Lib.Exec
