import StarterProjects.Lib.Objects

/-!
# Programs with a transcript, and what programs do to the state

A thread over the states `σ × List ε` works on the shared state and writes a transcript of
its own. `silent` is a program that writes nothing, `emit` writes one event.

`Within R p`: whenever `p` returns, running alone, the state it leaves is `R`-related to the
state it found. For a preorder `R` there is one rule for each action.
-/

namespace Lib

variable {σ ε α β γ : Type}

namespace Prog

/-- The program, next to a transcript that it does not touch. -/
def silent : Prog σ α → Prog (σ × List ε) α
  | .ret a => .ret a
  | .stop r => .stop r
  | .act f k => .act (fun s => (f s.1).map fun s' => (s', s.2)) fun s => (k s.1).silent

def emit (e : ε) : Prog (σ × List ε) Unit :=
  .act (fun s => some (s.1, s.2 ++ [e])) fun _ => .ret ()

theorem emit_run (e : ε) (s : σ) (es : List ε) :
    (emit e).run (s, es) = .ok ((), (s, es ++ [e])) := rfl

/-- The transcript goes along. -/
theorem silent_run (p : Prog σ α) (s : σ) (es : List ε) :
    p.silent.run (s, es) = (p.run s).map fun r => (r.1, (r.2, es)) := by
  induction p generalizing s with
  | ret a => rfl
  | stop r => rfl
  | act f k ih =>
    cases h : f s with
    | none =>
      rw [run_act_blocked h]
      exact run_act_blocked (show (f s).map _ = none by rw [h]; rfl)
    | some s' =>
      rw [run_act h, ← ih s s']
      exact run_act (show (f s).map _ = some (s', es) by rw [h]; rfl)

theorem silent_ok {p : Prog σ α} {s s' : σ} {a : α} (es : List ε) (h : p.run s = .ok (a, s')) :
    p.silent.run (s, es) = .ok (a, (s', es)) := by
  rw [silent_run, h]
  rfl

theorem silent_inv {p : Prog σ α} {s : σ} {t : σ × List ε} {a : α} {es : List ε}
    (h : p.silent.run (s, es) = .ok (a, t)) : p.run s = .ok (a, t.1) ∧ t.2 = es := by
  rw [silent_run] at h
  cases hr : p.run s with
  | error e =>
    rw [hr] at h
    cases h
  | ok r =>
    rw [hr] at h
    cases h
    exact ⟨rfl, rfl⟩

end Prog

def Within (R : σ → σ → Prop) (p : Prog σ α) : Prop :=
  ∀ s a s', p.run s = .ok (a, s') → R s s'

/-- `f` of the state is what it was. -/
abbrev SameAt (f : σ → β) : σ → σ → Prop := fun s s' => f s' = f s

instance (f : σ → β) : IsPreorder σ (SameAt f) where
  refl := fun _ => rfl
  trans := fun _ _ _ h h' => h'.trans h

/-- The relation for the states with a transcript. -/
abbrev Beside (R : σ → σ → Prop) : σ × List ε → σ × List ε → Prop := fun s s' => R s.1 s'.1

instance (R : σ → σ → Prop) [IsPreorder σ R] :
    IsPreorder (σ × List ε) (Beside R) where
  refl := fun s => refl_of R s.1
  trans := fun _ _ _ h h' => trans_of R h h'

namespace Within

variable {R : σ → σ → Prop} [IsPreorder σ R] {p : Prog σ α} {k : α → Prog σ γ}

theorem ret (a : α) : Within R (Prog.ret a) := fun s b s' h => by
  cases h
  exact refl_of R s

omit [IsPreorder σ R] in
theorem stop (r : Stop) : Within R (Prog.stop r : Prog σ α) := fun _ _ _ h => by cases h

theorem act {g : σ → Option σ} {k : σ → Prog σ α} (hg : ∀ s s', g s = some s' → R s s')
    (hk : ∀ s, Within R (k s)) : Within R (.act g k) := fun s a s' h => by
  cases hs : g s with
  | none =>
    rw [Prog.run_act_blocked hs] at h
    cases h
  | some t =>
    rw [Prog.run_act hs] at h
    exact trans_of R (hg s t hs) (hk s t a s' h)

theorem bind (hp : Within R p) (hk : ∀ a, Within R (k a)) : Within R (p >>= k) :=
  fun s b s' h => by
    obtain ⟨a, s₁, h1, h2⟩ := Prog.run_bind_inv h
    exact trans_of R (hp s a s₁ h1) (hk a s₁ b s' h2)

omit [IsPreorder σ R] in
theorem ite {c : Prop} [Decidable c] {q : Prog σ α} (hp : Within R p) (hq : Within R q) :
    Within R (if c then p else q) := by
  split
  · exact hp
  · exact hq

theorem ask (g : σ → α) : Within R (Prog.ask g) :=
  act (fun s s' h => by cases h; exact refl_of R s) fun _ => ret _

variable {o : Obj σ α} {A : Arena σ α}

theorem read : Within R o.read := by
  refine act (fun s s' h => by cases h; exact refl_of R s) fun s => ?_
  split
  · exact ret _
  · exact stop _

theorem update {g : α → α} (h : ∀ s, R s (o.modify g s)) : Within R (o.update g) := by
  refine act (fun s s' hs => ?_) fun s => ?_
  · cases hs
    exact h s
  · split
    · exact ret _
    · exact stop _

theorem take {l : Lock α} (h : ∀ s, R s (o.modify (fun a => l.put (l.value a - 1) a) s)) :
    Within R (P o l) := by
  refine act (fun s s' hs => ?_) fun s => ?_
  · split at hs
    · split at hs
      · cases hs
      · cases hs
        exact h s
    · cases hs
      exact refl_of R s
  · split
    · exact ret _
    · exact stop _

omit [IsPreorder σ R] in
theorem silent (hp : Within R p) :
    Within (Beside R : σ × List ε → σ × List ε → Prop) p.silent :=
  fun _ a _ h => hp _ a _ (Prog.silent_inv h).1

theorem emit (e : ε) : Within (Beside R) (Prog.emit e : Prog (σ × List ε) Unit) :=
  act (fun s s' h => by cases h; exact refl_of R s.1) fun _ => ret _

theorem malloc {a : α} (h : ∀ g s, R s (A.modify g s)) : Within R (A.malloc a) :=
  act (fun s s' hs => by cases hs; exact h _ s) fun _ => ret _

theorem free {q : Nat} (h : ∀ g s, R s (A.modify g s)) : Within R (A.free q) := by
  refine act (fun s s' hs => by cases hs; exact h _ s) fun s => ?_
  split
  · exact ret _
  · exact stop _

end Within

end Lib
