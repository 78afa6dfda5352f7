import StarterProjects.Lib.Trace

/-!
# Where a run ends

`Prog.run` forgets the state of a program that stops or blocks. `Prog.last` is the state in
which the program ends, whether it returns or not; so what happened before can be read off a
transcript. `Along R p`: that state is `R`-related to the one the program started in.
-/

namespace Lib

variable {σ ε α β : Type}

namespace Prog

/-- The state in which the program, running alone, returns, stops or is blocked. -/
def last : Prog σ α → σ → σ
  | .ret _, s => s
  | .stop _, s => s
  | .act f k, s => match f s with
    | some s' => (k s).last s'
    | none => s

theorem last_act {f : σ → Option σ} {k : σ → Prog σ α} {s t : σ} (h : f s = some t) :
    (Prog.act f k).last s = (k s).last t := by
  simp only [last, h]

theorem last_act_blocked {f : σ → Option σ} {k : σ → Prog σ α} {s : σ} (h : f s = none) :
    (Prog.act f k).last s = s := by
  simp only [last, h]

theorem last_of_run {p : Prog σ α} {s s' : σ} {a : α} (h : p.run s = .ok (a, s')) :
    p.last s = s' := by
  induction p generalizing s with
  | ret b =>
    cases h
    rfl
  | stop r => cases h
  | act f k ih =>
    cases hf : f s with
    | none =>
      rw [run_act_blocked hf] at h
      cases h
    | some t =>
      rw [run_act hf] at h
      rw [last_act hf]
      exact ih s h

theorem last_bind_ok {p : Prog σ α} {g : α → Prog σ β} {s s' : σ} {a : α}
    (h : p.run s = .ok (a, s')) : (p >>= g).last s = (g a).last s' := by
  induction p generalizing s with
  | ret b =>
    cases h
    rfl
  | stop r => cases h
  | act f k ih =>
    cases hf : f s with
    | none =>
      rw [run_act_blocked hf] at h
      cases h
    | some t =>
      rw [run_act hf] at h
      rw [act_bind, last_act hf]
      exact ih s h

theorem last_bind_error {p : Prog σ α} {g : α → Prog σ β} {s : σ} {r : Stop}
    (h : p.run s = .error r) : (p >>= g).last s = p.last s := by
  induction p generalizing s with
  | ret b => cases h
  | stop r' => rfl
  | act f k ih =>
    cases hf : f s with
    | none => rw [act_bind, last_act_blocked hf, last_act_blocked hf]
    | some t =>
      rw [run_act hf] at h
      rw [act_bind, last_act hf, last_act hf]
      exact ih s h

/-- A silent program leaves the transcript alone, wherever it ends. -/
theorem silent_last (p : Prog σ α) (s : σ) (es : List ε) : (p.silent.last (s, es)).2 = es := by
  induction p generalizing s with
  | ret a => rfl
  | stop r => rfl
  | act f k ih =>
    let f' : σ × List ε → Option (σ × List ε) := fun t => (f t.1).map fun s' => (s', t.2)
    cases hf : f s with
    | none =>
      have hblocked : f' (s, es) = none := by
        simp only [f', hf, Option.map_none]
      rw [silent, last_act_blocked hblocked]
    | some t =>
      have hmove : f' (s, es) = some (t, es) := by
        simp only [f', hf, Option.map_some]
      rw [silent, last_act hmove]
      exact ih s t

end Prog

def Along (R : σ → σ → Prop) (p : Prog σ α) : Prop := ∀ s, R s (p.last s)

namespace Along

variable {R : σ → σ → Prop} [IsPreorder σ R] {p : Prog σ α} {k : α → Prog σ β}

theorem ret (a : α) : Along R (Prog.ret a) := fun s => refl_of R s

theorem stop (r : Stop) : Along R (Prog.stop r : Prog σ α) := fun s => refl_of R s

theorem bind (hp : Along R p) (hk : ∀ a, Along R (k a)) : Along R (p >>= k) := by
  intro s
  cases hrun : p.run s with
  | error r =>
    rw [Prog.last_bind_error hrun]
    exact hp s
  | ok res =>
    obtain ⟨a, s'⟩ := res
    have hs := hp s
    rw [Prog.last_of_run hrun] at hs
    rw [Prog.last_bind_ok hrun]
    exact trans_of R hs (hk a s')

omit [IsPreorder σ R] in
theorem ite {c : Prop} [Decidable c] {q : Prog σ α} (hp : Along R p) (hq : Along R q) :
    Along R (if c then p else q) := by
  split
  · exact hp
  · exact hq

end Along

end Lib
