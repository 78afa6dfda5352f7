import Mathlib.Data.List.Basic

/-!
# Runs that differ in hidden steps

`Logged` is a run with the log of the steps that are not hidden, each with its answer. Two runs
with the same visible inputs are compared by a relation that a hidden step on either side keeps,
and that a visible step keeps when both sides take it: `Unwinds.logged` says that then the
answers are the same too.
-/

namespace Lib

variable {σ ι α : Type*} {step : σ → ι → α → σ → Prop} {hidden : ι → Prop}

inductive Logged (step : σ → ι → α → σ → Prop) (hidden : ι → Prop) (s : σ) :
    List (ι × α) → σ → Prop
  | start : Logged step hidden s [] s
  | hide {log : List (ι × α)} {s' s'' : σ} {i : ι} {a : α} :
      Logged step hidden s log s' → hidden i → step s' i a s'' → Logged step hidden s log s''
  | visible {log : List (ι × α)} {s' s'' : σ} {i : ι} {a : α} :
      Logged step hidden s log s' → ¬ hidden i → step s' i a s'' →
        Logged step hidden s (log ++ [(i, a)]) s''

/-- Along a run with an invariant the steps may be known to be more. -/
theorem Logged.mono {step' : σ → ι → α → σ → Prop} {I : σ → Prop} {s s' : σ} {log : List (ι × α)}
    (h : Logged step hidden s log s') (hI : I s)
    (hstep : ∀ {s i a s'}, I s → step s i a s' → I s' ∧ step' s i a s') :
    I s' ∧ Logged step' hidden s log s' := by
  induction h with
  | start => exact ⟨hI, .start⟩
  | hide _ hi hs ih => exact ⟨(hstep ih.1 hs).1, .hide ih.2 hi (hstep ih.1 hs).2⟩
  | visible _ hi hs ih => exact ⟨(hstep ih.1 hs).1, .visible ih.2 hi (hstep ih.1 hs).2⟩

/-- What is asked of a relation between two runs, step by step. -/
structure Unwinds (step : σ → ι → α → σ → Prop) (hidden : ι → Prop) (R : σ → σ → Prop) : Prop where
  left : ∀ {s t s' i a}, R s t → hidden i → step s i a s' → R s' t
  right : ∀ {s t t' i a}, R s t → hidden i → step t i a t' → R s t'
  both : ∀ {s t s' t' i a b}, R s t → ¬ hidden i → step s i a s' → step t i b t' →
    a = b ∧ R s' t'

theorem Unwinds.logged {R : σ → σ → Prop} (U : Unwinds step hidden R) {s t s' t' : σ}
    {log log' : List (ι × α)} (h0 : R s t) (hs : Logged step hidden s log s')
    (ht : Logged step hidden t log' t') (hsame : log.map Prod.fst = log'.map Prod.fst) :
    log = log' ∧ R s' t' := by
  induction hs generalizing log' t' with
  | start =>
    -- the second run has hidden steps only
    induction ht with
    | start => exact ⟨rfl, h0⟩
    | hide _ hi hstep ih =>
      obtain ⟨h1, h2⟩ := ih hsame
      exact ⟨h1, U.right h2 hi hstep⟩
    | visible _ _ _ => simp at hsame
  | hide _ hi hstep ih =>
    obtain ⟨h1, h2⟩ := ih ht hsame
    exact ⟨h1, U.left h2 hi hstep⟩
  | visible _ hi hstep ih =>
    -- the second run takes the same step, and then hidden ones
    induction ht with
    | start => simp at hsame
    | hide _ hj hstep' ih' =>
      obtain ⟨h1, h2⟩ := ih' hsame
      exact ⟨h1, U.right h2 hj hstep'⟩
    | visible ht' _ hstep' _ =>
      simp only [List.map_append, List.map_cons, List.map_nil] at hsame
      obtain ⟨hlog, hlast⟩ := List.append_inj' hsame rfl
      obtain ⟨rfl, h2⟩ := ih ht' hlog
      obtain rfl : _ = _ := (List.cons.inj hlast).1
      obtain ⟨rfl, h3⟩ := U.both h2 hi hstep hstep'
      exact ⟨rfl, h3⟩

end Lib
