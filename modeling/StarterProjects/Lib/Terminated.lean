import Mathlib.Data.List.TakeWhile
import Mathlib.Tactic.Common

/-!
# Arrays that end with NULL

An array of optional values is read up to its first `none`. Where the values themselves are
optional, this reads all of them exactly when they come first (`read_eq_iff`); and where an array
is only partly filled, when there is a `none` before the unfilled part (`read_filled_iff`).
-/

namespace Lib.Terminated

variable {β : Type*}

/-- What a reader of the array sees. -/
def read (array : List (Option β)) : List (Option β) := array.takeWhile Option.isSome

/-- The values that are there. -/
def present (values : List (Option β)) : List (Option β) := (values.filterMap id).map some

/-- The values that are there come first. -/
def Packed (values : List (Option β)) : Prop := ∀ x ∈ values.dropWhile Option.isSome, x = none

theorem read_eq_self {values : List (Option β)} (h : none ∉ values) : read values = values := by
  refine List.takeWhile_eq_self_iff.mpr fun x hx => ?_
  cases x with
  | none => exact absurd hx h
  | some b => rfl

theorem present_eq_self {values : List (Option β)} (h : none ∉ values) :
    present values = values := by
  induction values with
  | nil => rfl
  | cons x values ih =>
    cases x with
    | none => exact absurd List.mem_cons_self h
    | some b =>
      have hrest := ih fun hmem => h (List.mem_cons_of_mem _ hmem)
      rw [present, List.filterMap_cons_some (by rfl), List.map_cons, ← present, hrest]

theorem packed_of_not_mem {values : List (Option β)} (h : none ∉ values) : Packed values := by
  have hsome : ∀ x ∈ values, x.isSome = true := by
    intro x hx
    cases x with
    | none => exact absurd hx h
    | some b => rfl
  rw [Packed, List.dropWhile_eq_nil_iff.mpr hsome]
  exact fun x hx => absurd hx List.not_mem_nil

theorem present_eq_nil_iff {values : List (Option β)} :
    present values = [] ↔ ∀ x ∈ values, x = none := by
  rw [present, List.map_eq_nil_iff, List.filterMap_eq_nil_iff]
  exact Iff.rfl

/-- Every value is read exactly when the values come first. -/
theorem read_eq_iff (values : List (Option β)) : read values = present values ↔ Packed values := by
  induction values with
  | nil => exact iff_of_true rfl fun x hx => absurd hx List.not_mem_nil
  | cons x values ih =>
    cases x with
    | none =>
      have hread : read (none :: values) = [] := List.takeWhile_cons_of_neg Bool.false_ne_true
      have hdrop : (none :: values).dropWhile Option.isSome = none :: values :=
        List.dropWhile_cons_of_neg Bool.false_ne_true
      rw [hread, Packed, hdrop, eq_comm, present_eq_nil_iff]
    | some b =>
      have hread : read (some b :: values) = some b :: read values :=
        List.takeWhile_cons_of_pos rfl
      have hpresent : present (some b :: values) = some b :: present values := by
        rw [present, List.filterMap_cons_some (by rfl), List.map_cons, ← present]
      have hdrop : (some b :: values).dropWhile Option.isSome = values.dropWhile Option.isSome :=
        List.dropWhile_cons_of_pos rfl
      rw [hread, hpresent, List.cons_inj_right, ih, Packed, Packed, hdrop]

/-- Nothing behind a `none` is read. -/
theorem read_append_of_mem {values : List (Option β)} (rest : List (Option β))
    (h : none ∈ values) : read (values ++ rest) = read values := by
  induction values with
  | nil => exact absurd h List.not_mem_nil
  | cons x values ih =>
    cases x with
    | none =>
      rw [read, List.cons_append, List.takeWhile_cons_of_neg Bool.false_ne_true, read,
        List.takeWhile_cons_of_neg Bool.false_ne_true]
    | some b =>
      have hmem : none ∈ values := by simpa using h
      have hrest := ih hmem
      rw [read, List.cons_append, List.takeWhile_cons_of_pos rfl, ← read, hrest, read, read,
        List.takeWhile_cons_of_pos rfl]

theorem read_append_of_not_mem {values : List (Option β)} (rest : List (Option β))
    (h : none ∉ values) : read (values ++ rest) = values ++ read rest := by
  refine List.takeWhile_append_of_pos fun x hx => ?_
  cases x with
  | none => exact absurd hx h
  | some b => rfl

theorem read_length_lt {values : List (Option β)} (h : none ∈ values) :
    (read values).length < values.length := by
  have hprefix : read values <+: values := List.takeWhile_prefix _
  refine lt_of_le_of_ne hprefix.length_le fun hlen => ?_
  have hself := hprefix.eq_of_length hlen
  have hsome := List.takeWhile_eq_self_iff.mp hself none h
  exact Bool.false_ne_true hsome

theorem read_concat_none (values : List (Option β)) : read (values ++ [none]) = read values := by
  by_cases h : none ∈ values
  · exact read_append_of_mem _ h
  · rw [read_append_of_not_mem _ h, read_eq_self h, read,
      List.takeWhile_cons_of_neg Bool.false_ne_true, List.append_nil]

theorem read_take (values : List (Option β)) (n : Nat) :
    read (values.take n) = (read values).take n := List.take_takeWhile.symm

/-- An array of `size + 1` places, of which the first ones are filled with the values and the last
one with `none`, is read right whatever is between them. -/
theorem read_filled_iff [Inhabited β] (values : List (Option β)) {size : Nat}
    (hfits : values.length ≤ size + 1) :
    (∀ rest, (values ++ rest).length = size + 1 →
      read ((values ++ rest).take size ++ [none]) = present values) ↔
      Packed values ∧ (none ∈ values ∨ values.length = size) := by
  have hroom : (values ++ List.replicate (size + 1 - values.length)
      (some (default : β))).length = size + 1 := by
    rw [List.length_append, List.length_replicate]
    omega
  simp only [read_concat_none, read_take]
  by_cases h : none ∈ values
  · have hshort : (read values).length ≤ size := by
      have := read_length_lt h
      omega
    simp only [read_append_of_mem _ h, List.take_of_length_le hshort, read_eq_iff]
    exact ⟨fun hp => ⟨hp _ hroom, Or.inl h⟩, fun hp _ _ => hp.1⟩
  · simp only [read_append_of_not_mem _ h, present_eq_self h, h, false_or,
      packed_of_not_mem h, true_and]
    constructor
    · intro hread
      -- what is behind the values could be read as one of them
      have hnone : none ∉ List.replicate (size + 1 - values.length) (some (default : β)) :=
        fun hmem => Option.some_ne_none _ (List.eq_of_mem_replicate hmem).symm
      have hlen := congrArg List.length (hread _ hroom)
      rw [read_eq_self hnone, List.length_take, hroom] at hlen
      omega
    · intro hlen rest _
      rw [← hlen, List.take_left]

end Lib.Terminated
