import Mathlib.Data.List.Basic

/-!
# Contiguous values

A function is contiguous on a list when entries of one value have no entry of another value
between them. Sublists inherit it, and what follows the entries of the first value does not come
back to it.
-/

namespace Lib

variable {α β : Type*}

/-- Between two entries of one value there is no other value. -/
def Contiguous (f : α → β) (l : List α) : Prop :=
  ∀ a b c, List.Sublist [a, b, c] l → f a = f c → f b = f a

namespace Contiguous

variable {f : α → β} {l : List α}

theorem nil : Contiguous f [] := fun a _ _ hsub _ =>
  absurd (List.eq_nil_of_sublist_nil hsub) (List.cons_ne_nil a _)

theorem sublist {l' : List α} (h : Contiguous f l) (hl : l'.Sublist l) : Contiguous f l' :=
  fun a b c hs => h a b c (hs.trans hl)

theorem tail {p : α} (h : Contiguous f (p :: l)) : Contiguous f l :=
  h.sublist (List.sublist_cons_self p l)

/-- Where another value has come, the first value does not come back. -/
theorem ne_of_mem_dropWhile [DecidableEq β] {p x : α} (h : Contiguous f (p :: l))
    (hx : x ∈ l.dropWhile fun y => decide (f p = f y)) : f p ≠ f x := by
  intro heq
  cases hdrop : l.dropWhile fun y => decide (f p = f y) with
  | nil =>
      rw [hdrop] at hx
      exact absurd hx List.not_mem_nil
  | cons d ds =>
      have hd : f p ≠ f d := by
        have hne : l.dropWhile (fun y => decide (f p = f y)) ≠ [] := by
          rw [hdrop]
          exact List.cons_ne_nil d ds
        have hhead := List.head_dropWhile_not (fun y => decide (f p = f y)) hne
        simpa [hdrop] using hhead
      rw [hdrop] at hx
      rcases List.mem_cons.mp hx with rfl | hmem
      · exact hd heq
      · have hsub : List.Sublist [p, d, x] (p :: l) := by
          refine List.Sublist.cons_cons p ?_
          refine List.Sublist.trans ?_ (List.dropWhile_sublist fun y => decide (f p = f y))
          rw [hdrop]
          exact List.Sublist.cons_cons d (List.singleton_sublist.mpr hmem)
        exact hd (h p d x hsub heq).symm

/-- A group of one value in front of a list without it. -/
theorem group_append {xs ys : List α} {v : β} (hxs : ∀ x ∈ xs, f x = v) (hys : ∀ y ∈ ys, f y ≠ v)
    (h : Contiguous f ys) : Contiguous f (xs ++ ys) := by
  intro a b c hsub heq
  obtain ⟨l₁, l₂, hsplit, h₁, h₂⟩ := List.sublist_append_iff.mp hsub
  cases l₁ with
  | nil =>
      rw [List.nil_append] at hsplit
      subst hsplit
      exact h a b c h₂ heq
  | cons a' l₁ =>
      rw [List.cons_append, List.cons.injEq] at hsplit
      obtain ⟨rfl, hsplit⟩ := hsplit
      have ha : f a = v := hxs a (h₁.subset List.mem_cons_self)
      have hc : ¬ c ∈ l₂ := fun hmem => hys c (h₂.subset hmem) (heq.symm.trans ha)
      -- The last of the three is in the group, and so are the two before it.
      have hnil : l₂ = [] := by
        rcases List.eq_nil_or_concat l₂ with hnil | ⟨front, last, hlast⟩
        · exact hnil
        · rw [List.concat_eq_append] at hlast
          subst hlast
          rw [← List.append_assoc] at hsplit
          have hends := congrArg List.getLast? hsplit
          rw [List.getLast?_append_of_ne_nil _ (by simp)] at hends
          have hcl : c = last := by simpa using hends
          exact absurd (by simp [hcl]) hc
      rw [hnil, List.append_nil] at hsplit
      have hb : f b = v := hxs b (h₁.subset (by rw [← hsplit]; simp))
      exact hb.trans ha.symm

/-- It is the list of the values that counts. -/
theorem of_map_eq {l' : List α} (h : Contiguous f l) (hl : l'.map f = l.map f) :
    Contiguous f l' := by
  intro a b c hsub heq
  have hvalues : List.Sublist [f a, f b, f c] (l.map f) := hl ▸ hsub.map f
  obtain ⟨s, hs, hmap⟩ := List.sublist_map_iff.mp hvalues
  obtain ⟨a', rest, rfl, ha, hrest⟩ := List.map_eq_cons_iff.mp hmap.symm
  obtain ⟨b', rest, rfl, hb, hrest⟩ := List.map_eq_cons_iff.mp hrest
  obtain ⟨c', rest, rfl, hc, hnil⟩ := List.map_eq_cons_iff.mp hrest
  obtain rfl := List.map_eq_nil_iff.mp hnil
  have h' := h a' b' c' hs
  rw [ha, hb, hc] at h'
  exact h' heq

end Contiguous

end Lib
