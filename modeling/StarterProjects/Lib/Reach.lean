import Mathlib.Tactic.Common

/-!
# Reachable states and invariants

A transition system is a set of initial states and a step relation labelled by
the input of the step. `Reaches` are the states some finite sequence of steps
leads to; `Reaches.invariant` is the one induction over such sequences.
-/

namespace Lib

variable {σ ι : Type*} {init : σ → Prop} {step : σ → ι → σ → Prop}

inductive Reaches (init : σ → Prop) (step : σ → ι → σ → Prop) : σ → Prop
  | init {s : σ} : init s → Reaches init step s
  | step {s s' : σ} {i : ι} : Reaches init step s → step s i s' → Reaches init step s'

/-- What holds initially and is preserved by every step holds of every reachable
state. -/
theorem Reaches.invariant {I : σ → Prop} (h0 : ∀ s, init s → I s)
    (hs : ∀ s i s', I s → step s i s' → I s') {s : σ} (h : Reaches init step s) : I s := by
  induction h with
  | init h => exact h0 _ h
  | step _ h ih => exact hs _ _ _ ih h

/-- Fewer steps reach fewer states. -/
theorem Reaches.mono {step' : σ → ι → σ → Prop} (hs : ∀ s i s', step s i s' → step' s i s')
    {s : σ} (h : Reaches init step s) : Reaches init step' s := by
  induction h with
  | init h => exact .init h
  | step _ h ih => exact .step ih (hs _ _ _ h)

end Lib
