import StarterProjects.Lib.Objects

/-!
# Programs that come back

`Keeps A m B`: run alone from a state with `A`, the program `m` does not block for ever, and
where it returns `B` holds. It may also stop, by `abort` or by something undefined. There is
one rule for each action; the rules for `P` and `V` are where a lock is asked for and given
back.
-/

namespace Lib

variable {σ α β : Type}

def Keeps (A : σ → Prop) (m : Prog σ α) (B : σ → Prop) : Prop :=
  ∀ s, A s → m.run s ≠ .error .diverges ∧ ∀ a s', m.run s = .ok (a, s') → B s'

namespace Keeps

variable {A A' B C : σ → Prop} {m : Prog σ α} {k : α → Prog σ β} {o : Obj σ α} {l : Lock α}
  {f : α → α}

theorem of_ok {a : α} {s s' : σ} (h : m.run s = .ok (a, s')) (hB : B s') :
    m.run s ≠ .error .diverges ∧ ∀ a s', m.run s = .ok (a, s') → B s' := by
  rw [h]
  refine ⟨nofun, fun b t ht => ?_⟩
  cases ht
  exact hB

theorem of_ends {s : σ} (h : Exec.Ends m.run s fun _ s' => B s') :
    m.run s ≠ .error .diverges ∧ ∀ a s', m.run s = .ok (a, s') → B s' :=
  ⟨h.ne_error _, fun _ _ => h.apply⟩

theorem of_undefined {s : σ} (h : m.run s = .error .undefined) :
    m.run s ≠ .error .diverges ∧ ∀ a s', m.run s = .ok (a, s') → B s' := by
  rw [h]
  exact ⟨nofun, nofun⟩

theorem ret {a : α} (h : ∀ s, A s → B s) : Keeps A (Prog.ret a) B :=
  fun s hA => of_ok (Prog.run_ret a s) (h s hA)

theorem stop {r : Stop} (hr : r ≠ .diverges) : Keeps A (Prog.stop r : Prog σ α) B :=
  fun _ _ => ⟨fun he => hr (Except.error.inj he), nofun⟩

theorem weaken (h : Keeps A' m B) (hA : ∀ s, A s → A' s) : Keeps A m B := fun s hs => h s (hA s hs)

theorem bind (hm : Keeps A m C) (hk : ∀ a, Keeps C (k a) B) : Keeps A (m >>= k) B := fun s hA => by
  obtain ⟨hlive, hok⟩ := hm s hA
  cases hr : m.run s with
  | ok r =>
    rw [Prog.run_bind_ok (show m.run s = .ok (r.1, r.2) from hr)]
    exact hk r.1 r.2 (hok r.1 r.2 hr)
  | error e =>
    rw [Prog.run_bind_error hr]
    rw [hr] at hlive
    exact ⟨fun he => hlive (congrArg _ (Except.error.inj he)), nofun⟩

/-- What was read is there. -/
theorem read (hk : ∀ a, Keeps (fun s => A s ∧ o.get s = some a) (k a) B) :
    Keeps A (o.read >>= k) B := fun s hA => by
  cases h : o.get s with
  | none =>
    rw [Prog.run_bind_error (read_dead h)]
    exact ⟨nofun, nofun⟩
  | some a =>
    rw [read_then h]
    exact hk a s ⟨hA, h⟩

theorem ask {γ : Type} {g : σ → γ} {k : γ → Prog σ β}
    (hk : ∀ c, Keeps (fun s => A s ∧ g s = c) (k c) B) : Keeps A (Prog.ask g >>= k) B :=
  fun s hA => by
    rw [Prog.run_bind_ok (Prog.ask_run _ _)]
    exact hk _ s ⟨hA, rfl⟩

theorem update (h : ∀ s a, A s → o.get s = some a → B (o.set (f a) s)) :
    Keeps A (o.update f) B := fun s hA => by
  cases ha : o.get s with
  | none =>
    refine of_undefined ?_
    rw [Obj.update, Prog.run_act (f := fun s => some (o.modify f s)) rfl]
    simp only [ha, Prog.run_stop]
  | some a => exact of_ok (update_run ha) (h s a hA ha)

/-- The semaphore is up. -/
theorem take (h : ∀ s a, A s → o.get s = some a →
    l.value a ≠ 0 ∧ B (o.set (l.put (l.value a - 1) a) s)) : Keeps A (P o l) B := fun s hA => by
  cases ha : o.get s with
  | none => exact of_undefined (P_dead ha)
  | some a =>
    obtain ⟨hv, hB⟩ := h s a hA ha
    exact of_ok (P_run ha hv) hB

theorem malloc {ar : Arena σ α} {a : α} (h : ∀ s, A s → B (ar.modify (Heap.alloc a) s)) :
    Keeps A (ar.malloc a) B := fun s hA => of_ok (Arena.malloc_run a s) (h s hA)

theorem free {ar : Arena σ α} {p : Nat} (h : ∀ s, A s → B (ar.modify (Heap.free p) s)) :
    Keeps A (ar.free p) B := fun s hA => by
  cases ha : (ar.obj p).get s with
  | none => exact of_undefined (Arena.free_dead ha)
  | some a => exact of_ok (Arena.free_run ha) (h s hA)

end Keeps

end Lib
