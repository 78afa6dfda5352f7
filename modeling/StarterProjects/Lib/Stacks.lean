import Mathlib.Data.List.Basic

/-!
# Bounded stacks in one list

Values with keys, the latest first. The values of one key are a stack. A stack that has reached
its capacity is emptied when a value comes to it.
-/

namespace Lib.Stacks

variable {α κ : Type*} [DecidableEq κ]

/-- The values of one key. -/
def stack (k : κ) (l : List (α × κ)) : List α := (l.filter fun x => decide (x.2 = k)).map Prod.fst

def push (cap : Nat) (a : α) (k : κ) (l : List (α × κ)) : List (α × κ) :=
  (a, k) :: if (stack k l).length = cap then l.filter fun x => decide (x.2 ≠ k) else l

/-- The latest value of a key. -/
def top (k : κ) (l : List (α × κ)) : Option α := (l.find? fun x => decide (x.2 = k)).map Prod.fst

def pop (k : κ) (l : List (α × κ)) : List (α × κ) := l.eraseP fun x => decide (x.2 = k)

variable {cap : Nat} {a : α} {k k' : κ} {l : List (α × κ)}

theorem mem_stack : a ∈ stack k l ↔ (a, k) ∈ l := by
  simp [stack]

theorem stack_sublist : (stack k l).Sublist (l.map Prod.fst) :=
  List.filter_sublist.map Prod.fst

theorem stack_cons_of_eq {x : α × κ} (h : x.2 = k) : stack k (x :: l) = x.1 :: stack k l := by
  simp [stack, h]

theorem stack_cons_of_ne {x : α × κ} (h : x.2 ≠ k) : stack k (x :: l) = stack k l := by
  simp [stack, h]

theorem stack_filter_ne_self : stack k (l.filter fun x => decide (x.2 ≠ k)) = [] := by
  simp [stack, List.filter_filter]

theorem stack_filter_ne (h : k' ≠ k) :
    stack k' (l.filter fun x => decide (x.2 ≠ k)) = stack k' l := by
  have hfilter : ∀ x : α × κ, (decide (x.2 = k') && decide (x.2 ≠ k)) = decide (x.2 = k') := by
    intro x
    by_cases hx : x.2 = k'
    · simp [hx, h]
    · simp [hx]
  rw [stack, List.filter_filter]
  simp only [hfilter]
  rfl

theorem stack_push_self :
    stack k (push cap a k l) = a :: if (stack k l).length = cap then [] else stack k l := by
  rw [push, stack_cons_of_eq (x := (a, k)) rfl]
  split
  · rw [stack_filter_ne_self]
  · rfl

theorem stack_push_ne (h : k' ≠ k) : stack k' (push cap a k l) = stack k' l := by
  rw [push, stack_cons_of_ne (x := (a, k)) h.symm]
  split
  · rw [stack_filter_ne h]
  · rfl

/-- The values after a push: the new one, and old ones that were not on a full stack of its
key. -/
theorem mem_push {x : α × κ} (h : x ∈ push cap a k l) :
    x = (a, k) ∨ (x ∈ l ∧ ((stack k l).length = cap → x.2 ≠ k)) := by
  rw [push] at h
  rcases List.mem_cons.mp h with rfl | hmem
  · exact .inl rfl
  · right
    split at hmem
    · have hx := List.mem_filter.mp hmem
      exact ⟨hx.1, fun _ => of_decide_eq_true hx.2⟩
    · rename_i hcap
      exact ⟨hmem, fun h => absurd h hcap⟩

theorem push_nodup (hl : (l.map Prod.fst).Nodup) (ha : ∀ x ∈ l, x.1 ≠ a) :
    ((push cap a k l).map Prod.fst).Nodup := by
  have hfresh : a ∉ l.map Prod.fst := by
    intro hmem
    obtain ⟨x, hx, hxa⟩ := List.mem_map.mp hmem
    exact ha x hx hxa
  rw [push, List.map_cons]
  split
  · have hsub : ((l.filter fun x => decide (x.2 ≠ k)).map Prod.fst).Sublist (l.map Prod.fst) :=
      List.filter_sublist.map Prod.fst
    exact List.nodup_cons.mpr ⟨fun hmem => hfresh (hsub.subset hmem), hl.sublist hsub⟩
  · exact List.nodup_cons.mpr ⟨hfresh, hl⟩

theorem top_eq_head? : top k l = (stack k l).head? := by
  rw [top, stack, List.head?_map, List.head?_filter]

theorem stack_pop_self : stack k (pop k l) = (stack k l).tail := by
  induction l with
  | nil => rfl
  | cons x l ih =>
      by_cases hx : x.2 = k
      · rw [pop, List.eraseP_cons_of_pos (by simpa using hx), stack_cons_of_eq hx, List.tail_cons]
      · rw [pop, List.eraseP_cons_of_neg (by simpa using hx), stack_cons_of_ne hx,
          stack_cons_of_ne hx]
        exact ih

theorem stack_pop_ne (h : k' ≠ k) : stack k' (pop k l) = stack k' l := by
  induction l with
  | nil => rfl
  | cons x l ih =>
      by_cases hx : x.2 = k
      · have hx' : x.2 ≠ k' := fun he => h (he.symm.trans hx)
        rw [pop, List.eraseP_cons_of_pos (by simpa using hx), stack_cons_of_ne hx']
      · rw [pop, List.eraseP_cons_of_neg (by simpa using hx)]
        by_cases hx' : x.2 = k'
        · rw [stack_cons_of_eq hx', stack_cons_of_eq hx']
          exact congrArg (x.1 :: ·) ih
        · rw [stack_cons_of_ne hx', stack_cons_of_ne hx']
          exact ih

theorem pop_sublist : (pop k l).Sublist l := List.eraseP_sublist

/-- There is nothing to take. -/
theorem pop_of_stack_nil (h : stack k l = []) : pop k l = l := by
  refine List.eraseP_of_forall_not fun x hx hk => ?_
  have hmem : x.1 ∈ stack k l := mem_stack.mpr (by rw [← of_decide_eq_true hk]; exact hx)
  rw [h] at hmem
  exact absurd hmem List.not_mem_nil

end Lib.Stacks
