import StarterProjects.Lib.Contiguous
import Mathlib.Data.List.SplitBy
import Mathlib.Data.List.TakeWhile

/-!
# Groups of equal values

A list in which the values of a function are contiguous falls into its classes: `groupsBy` cuts it
where the value changes, and every class is one of the groups (`Contiguous.classes`).
-/

namespace Lib

variable {α β : Type*}

/-- The groups are the classes of one value of the members of the list. -/
structure Classes (f : α → β) (groups : List (List α)) (l : List α) : Prop where
  perm : groups.flatten.Perm l
  nonempty : ∀ g ∈ groups, g ≠ []
  equal : ∀ g ∈ groups, ∀ a ∈ g, ∀ b ∈ g, f a = f b
  apart : groups.Pairwise fun g h => ∀ a ∈ g, ∀ b ∈ h, f a ≠ f b

/-- The classes of the images. -/
theorem Classes.map {α' : Type*} {f : α → β} {f' : α' → β} {groups : List (List α)} {l : List α}
    (h : Classes f groups l) {m : α → α'} (hm : ∀ a, f' (m a) = f a) :
    Classes f' (groups.map (List.map m)) (l.map m) where
  perm := by
    rw [← List.map_flatten]
    exact h.perm.map m
  nonempty := by
    intro x hx
    obtain ⟨g, hgroup, rfl⟩ := List.mem_map.mp hx
    simpa using h.nonempty g hgroup
  equal := by
    intro x hx y ha z hb
    obtain ⟨g, hgroup, rfl⟩ := List.mem_map.mp hx
    obtain ⟨a, hmema, rfl⟩ := List.mem_map.mp ha
    obtain ⟨b, hmemb, rfl⟩ := List.mem_map.mp hb
    rw [hm, hm]
    exact h.equal g hgroup a hmema b hmemb
  apart := by
    refine List.pairwise_map.mpr (h.apart.imp fun {g g'} hgg => ?_)
    intro x ha y hb
    obtain ⟨a, hmema, rfl⟩ := List.mem_map.mp ha
    obtain ⟨b, hmemb, rfl⟩ := List.mem_map.mp hb
    rw [hm, hm]
    exact hgg a hmema b hmemb

/-- The runs of one value. -/
def groupsBy [DecidableEq β] (f : α → β) (l : List α) : List (List α) :=
  l.splitBy fun a b => decide (f a = f b)

variable [DecidableEq β] {f : α → β}

/-- The first group ends where another value comes. -/
theorem groupsBy_cons {p : α} {ds r : List α} (hds : ∀ d ∈ ds, f d = f p)
    (hr : ∀ e ∈ r.head?, f e ≠ f p) : groupsBy f (p :: (ds ++ r)) = (p :: ds) :: groupsBy f r := by
  have hall : ∀ e ∈ p :: ds, f e = f p := List.forall_mem_cons.mpr ⟨rfl, hds⟩
  have hbreak : ∀ x ∈ (p :: ds).getLast?, ∀ y ∈ r.head?, decide (f x = f y) = false := by
    intro x hx y hy
    have hxp := hall x (List.mem_of_getLast? hx)
    exact decide_eq_false fun heq => hr y hy (heq.symm.trans hxp)
  have hchain : (p :: ds).IsChain fun a b => decide (f a = f b) = true :=
    List.Pairwise.isChain (List.pairwise_of_forall_mem_list fun a ha b hb =>
      decide_eq_true ((hall a ha).trans (hall b hb).symm))
  have hsplit := List.splitBy_append hbreak
  rw [List.splitBy_of_isChain (List.cons_ne_nil p ds) hchain] at hsplit
  exact hsplit

theorem eq_of_mem_takeWhile {p d : α} {l : List α}
    (h : d ∈ l.takeWhile fun e => decide (f p = f e)) : f d = f p := by
  have heq := List.mem_takeWhile_imp h
  exact (of_decide_eq_true heq).symm

/-- The group of the first entry, and the groups of the entries behind it. -/
theorem groupsBy_eq (p : α) (l : List α) :
    groupsBy f (p :: l) = (p :: l.takeWhile fun e => decide (f p = f e)) ::
      groupsBy f (l.dropWhile fun e => decide (f p = f e)) := by
  have hbreak : ∀ e ∈ (l.dropWhile fun e => decide (f p = f e)).head?, f e ≠ f p := by
    intro e he heq
    have hnot := List.head?_dropWhile_not (fun e => decide (f p = f e)) l
    rw [Option.mem_def.mp he] at hnot
    exact of_decide_eq_false hnot heq.symm
  conv_lhs => rw [← List.takeWhile_append_dropWhile (p := fun e => decide (f p = f e)) (l := l)]
  exact groupsBy_cons (fun _ => eq_of_mem_takeWhile) hbreak

/-- Where the values are contiguous, the runs are the classes. -/
theorem Contiguous.classes {l : List α} (h : Contiguous f l) : Classes f (groupsBy f l) l := by
  induction hn : l.length using Nat.strong_induction_on generalizing l with
  | _ n ih =>
      cases l with
      | nil => exact ⟨by simp [groupsBy], by simp [groupsBy],
          by simp [groupsBy], by simp [groupsBy]⟩
      | cons p l =>
          have hsub := List.dropWhile_sublist (fun e => decide (f p = f e)) (l := l)
          have hrest := ih _ (by rw [← hn]; exact Nat.lt_succ_of_le hsub.length_le)
            (h.tail.sublist hsub) rfl
          have hsame : ∀ d ∈ p :: l.takeWhile fun e => decide (f p = f e), f d = f p :=
            List.forall_mem_cons.mpr ⟨rfl, fun _ => eq_of_mem_takeWhile⟩
          rw [groupsBy_eq]
          refine ⟨?_, ?_, ?_, List.pairwise_cons.mpr ⟨?_, hrest.apart⟩⟩
          · have hperm := (hrest.perm.append_left (l.takeWhile fun e => decide (f p = f e))).cons p
            rwa [List.takeWhile_append_dropWhile] at hperm
          · exact List.forall_mem_cons.mpr ⟨List.cons_ne_nil _ _, hrest.nonempty⟩
          · exact List.forall_mem_cons.mpr
              ⟨fun a ha b hb => (hsame a ha).trans (hsame b hb).symm, hrest.equal⟩
          · intro g hg a ha b hb
            have hmem := hrest.perm.subset (List.mem_flatten.mpr ⟨g, hg, hb⟩)
            rw [hsame a ha]
            exact h.ne_of_mem_dropWhile hmem

end Lib
