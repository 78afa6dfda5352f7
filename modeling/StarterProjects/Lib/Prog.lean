import Mathlib.Logic.Function.Basic
import StarterProjects.Lib.Exec

/-!
# Programs of threads over a shared state

A `Prog` is what one thread still has to do: return a value, stop, or perform an
atomic action and go on with what the action read. An action whose effect is `none`
blocks: another thread has to move first.

The same program has two meanings. `Prog.run` runs it alone, where blocking means that
it never comes back. `Turn` lets the threads of a pool take turns, one action at a time;
`turns` is the run a schedule picks.
-/

namespace Lib

/-- What one thread still has to do. -/
inductive Prog (σ α : Type) where
  | ret (a : α)
  | stop (r : Stop)
  /-- Atomic: blocked while `f s` is `none`, then the state is `f s` and `k s` follows. -/
  | act (f : σ → Option σ) (k : σ → Prog σ α)

namespace Prog

variable {σ α β γ : Type}

def bind : Prog σ α → (α → Prog σ β) → Prog σ β
  | .ret a, g => g a
  | .stop r, _ => .stop r
  | .act f k, g => .act f fun s => (k s).bind g

instance : Monad (Prog σ) where
  pure := ret
  bind := bind

@[simp] theorem ret_bind (a : α) (g : α → Prog σ β) : (Prog.ret a >>= g) = g a := rfl

@[simp] theorem stop_bind (r : Stop) (g : α → Prog σ β) : (Prog.stop r >>= g) = .stop r := rfl

@[simp] theorem act_bind (f : σ → Option σ) (k : σ → Prog σ α) (g : α → Prog σ β) :
    (Prog.act f k >>= g) = .act f fun s => k s >>= g := rfl

theorem bind_assoc (p : Prog σ α) (g : α → Prog σ β) (h : β → Prog σ γ) :
    (p >>= g >>= h) = p >>= fun a => g a >>= h := by
  induction p with
  | ret a => rfl
  | stop r => rfl
  | act f k ih => exact congrArg (Prog.act f) (funext ih)

theorem bind_ret (p : Prog σ α) : (p >>= fun a => Prog.ret a) = p := by
  induction p with
  | ret a => rfl
  | stop r => rfl
  | act f k ih => exact congrArg (Prog.act f) (funext ih)

/-! ## Running alone -/

/-- The program with no other thread: a blocked action never comes back. -/
def run : Prog σ α → Exec σ α
  | .ret a => pure a
  | .stop r => Exec.stop r
  | .act f k => fun s => match f s with
      | some s' => (k s).run s'
      | none => .error .diverges

@[simp] theorem run_ret (a : α) (s : σ) : (Prog.ret a : Prog σ α).run s = .ok (a, s) := rfl

@[simp] theorem run_stop (r : Stop) (s : σ) : (Prog.stop r : Prog σ α).run s = .error r := rfl

theorem run_act {f : σ → Option σ} {k : σ → Prog σ α} {s t : σ} (h : f s = some t) :
    (Prog.act f k).run s = (k s).run t := by
  simp only [run, h]

theorem run_act_blocked {f : σ → Option σ} {k : σ → Prog σ α} {s : σ} (h : f s = none) :
    (Prog.act f k).run s = .error .diverges := by
  simp only [run, h]

/-- Running a sequence is running the first program and then the second. -/
theorem run_bind (p : Prog σ α) (g : α → Prog σ β) :
    (p >>= g).run = p.run >>= fun a => (g a).run := by
  induction p with
  | ret a => rfl
  | stop r => rfl
  | act f k ih =>
    funext s
    cases h : f s with
    | none =>
      rw [act_bind, run_act_blocked h]
      exact (Exec.bind_error (run_act_blocked h)).symm
    | some s' =>
      rw [act_bind, run_act h, congrFun (ih s) s']
      cases hk : (k s).run s' with
      | ok r => rw [Exec.bind_ok hk, Exec.bind_ok ((run_act h).trans hk)]
      | error r => rw [Exec.bind_error hk, Exec.bind_error ((run_act h).trans hk)]

theorem run_bind_ok {p : Prog σ α} {g : α → Prog σ β} {s s' : σ} {a : α}
    (h : p.run s = .ok (a, s')) : (p >>= g).run s = (g a).run s' := by
  rw [run_bind]
  exact Exec.bind_ok h

theorem run_bind_error {p : Prog σ α} {g : α → Prog σ β} {s : σ} {r : Stop}
    (h : p.run s = .error r) : (p >>= g).run s = .error r := by
  rw [run_bind]
  exact Exec.bind_error h

theorem run_bind_inv {p : Prog σ α} {g : α → Prog σ β} {s s' : σ} {b : β}
    (h : (p >>= g).run s = .ok (b, s')) :
    ∃ a s₁, p.run s = .ok (a, s₁) ∧ (g a).run s₁ = .ok (b, s') := by
  rw [run_bind] at h
  exact Exec.bind_eq_ok h

/-- Read something of the state. -/
def ask (f : σ → β) : Prog σ β := .act some fun s => .ret (f s)

theorem ask_run (f : σ → β) (s : σ) : (ask f).run s = .ok (f s, s) := run_act (f := some) rfl

/-- `p` as one action: no other thread moves while it runs. -/
def atomic (p : Prog σ α) : Prog σ α :=
  .act (fun s => match p.run s with
      | .ok r => some r.2
      | .error .diverges => none
      | .error _ => some s)
    fun s => match p.run s with
      | .ok r => .ret r.1
      | .error e => .stop e

end Prog

/-! ## Taking turns -/

section Turns

variable {σ α ι : Type} [DecidableEq ι]

/-- The shared state and what every thread still has to do. -/
abbrev Threads (ι σ α : Type) := σ × (ι → Prog σ α)

/-- One action of thread `i`, if it is not blocked and has not returned. -/
def turn (i : ι) (c : Threads ι σ α) : Option (Threads ι σ α) :=
  match c.2 i with
  | .act f k => (f c.1).map fun s' => (s', Function.update c.2 i (k c.1))
  | _ => none

/-- The run that the schedule picks: whose action comes first, second, and so on. -/
def turns : List ι → Threads ι σ α → Option (Threads ι σ α)
  | [], c => some c
  | i :: is, c => (turn i c).bind (turns is)

theorem turn_act {i : ι} {s s' : σ} {pool : ι → Prog σ α} {f : σ → Option σ}
    {k : σ → Prog σ α} (hp : pool i = .act f k) (hf : f s = some s') :
    turn i (s, pool) = some (s', Function.update pool i (k s)) := by
  simp only [turn, hp, hf, Option.map_some]

theorem turn_ret {i : ι} {a : α} {c : Threads ι σ α} (hp : c.2 i = .ret a) : turn i c = none := by
  simp only [turn, hp]

theorem turn_some {i : ι} {s : σ} {pool : ι → Prog σ α} {c : Threads ι σ α}
    (h : turn i (s, pool) = some c) : ∃ f k s', pool i = .act f k ∧ f s = some s' ∧
      c = (s', Function.update pool i (k s)) := by
  cases hp : pool i with
  | ret a => simp only [turn, hp] at h; cases h
  | stop r => simp only [turn, hp] at h; cases h
  | act f k =>
    simp only [turn, hp] at h
    obtain ⟨s', hf, rfl⟩ := Option.map_eq_some_iff.mp h
    exact ⟨f, k, s', rfl, hf, rfl⟩

/-- A turn of a thread that is about to run `p` at once. -/
theorem turn_atomic {β : Type} {i : ι} {s s' : σ} {pool : ι → Prog σ α} {p : Prog σ β}
    {k : β → Prog σ α} {b : β} (hp : pool i = p.atomic >>= k) (h : p.run s = .ok (b, s')) :
    turn i (s, pool) = some (s', Function.update pool i (k b)) := by
  rw [turn_act (f := fun s => match p.run s with
      | .ok r => some r.2
      | .error .diverges => none
      | .error _ => some s) hp (show _ = some s' by simp only [h])]
  simp only [h]
  rfl

theorem turns_cons {i : ι} {is : List ι} {c c' : Threads ι σ α} (h : turn i c = some c') :
    turns (i :: is) c = turns is c' := by
  rw [turns, h]
  rfl

end Turns

end Lib
