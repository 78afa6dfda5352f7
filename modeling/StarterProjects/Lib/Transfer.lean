import Mathlib.Tactic.Common

/-!
# Transfers in pieces

The two ends of a connection as `read` and `write` show them. A call may be interrupted; one that
is not moves some of the items that it was asked for, and at least one where it can. So a stream
can arrive in any pieces.
-/

namespace Lib

/-- What a call is going to do. -/
inductive Attempt where
  | interrupted
  /-- At most `more + 1` items are moved. -/
  | upTo (more : Nat)

inductive Outcome (β : Type) where
  | interrupted
  | failed
  | moved (b : β)

/-- The reading end: what is still to come before the connection ends, and what the next calls
do; behind the list every call moves all it can. The end of a `broken` connection is an error. -/
structure Source (α : Type) where
  left : List α
  broken : Bool
  attempts : List Attempt

/-- The writing end: `room` is what can be written before the connection breaks, if it does. -/
structure Sink (α : Type) where
  written : List α
  room : Option Nat
  attempts : List Attempt

variable {α : Type}

namespace Source

def move (s : Source α) (m : Nat) (rest : List Attempt) : Outcome (List α) × Source α :=
  if s.left = [] ∧ s.broken = true then (.failed, { s with attempts := rest })
  else (.moved (s.left.take m), { s with left := s.left.drop m, attempts := rest })

/-- Ask for `n` items; none is moved at the end. -/
def read (s : Source α) (n : Nat) : Outcome (List α) × Source α :=
  match s.attempts with
  | [] => s.move n []
  | .interrupted :: rest => (.interrupted, { s with attempts := rest })
  | .upTo more :: rest => s.move (min n (more + 1)) rest

/-- What `read` can do. -/
inductive Reads (s : Source α) (n : Nat) : Outcome (List α) × Source α → Prop
  | interrupted {rest : List Attempt} (hrest : rest.length < s.attempts.length) :
      Reads s n (.interrupted, { s with attempts := rest })
  | failed {rest : List Attempt} (hleft : s.left = []) (hbroken : s.broken = true) :
      Reads s n (.failed, { s with attempts := rest })
  | moved {rest : List Attempt} {m : Nat} (hpos : 0 < m) (hle : m ≤ n)
      (hrest : rest.length ≤ s.attempts.length) (hend : s.left = [] → s.broken = false) :
      Reads s n (.moved (s.left.take m), { s with left := s.left.drop m, attempts := rest })

theorem reads_move {s : Source α} {n m : Nat} {rest : List Attempt} (hpos : 0 < m) (hle : m ≤ n)
    (hrest : rest.length ≤ s.attempts.length) : Reads s n (s.move m rest) := by
  unfold move
  split
  · next h => exact .failed h.1 h.2
  · next h => exact .moved hpos hle hrest fun hleft => by simpa [hleft] using h

theorem reads_read (s : Source α) {n : Nat} (hn : 0 < n) : Reads s n (s.read n) := by
  unfold read
  split
  · exact reads_move hn (Nat.le_refl n) (Nat.zero_le _)
  · next h => exact .interrupted (by simp [h])
  · next h => exact reads_move (by omega) (Nat.min_le_left _ _) (by simp [h])

/-! The call with a known outcome. -/

variable {s : Source α} {n : Nat} {r : Outcome (List α) × Source α}

theorem Reads.of_interrupted (h : Reads s n r) (hr : r.1 = .interrupted) :
    ∃ rest, r.2 = { s with attempts := rest } := by
  cases h with
  | interrupted _ => exact ⟨_, rfl⟩
  | failed _ _ => cases hr
  | moved _ _ _ _ => cases hr

theorem Reads.of_failed (h : Reads s n r) (hr : r.1 = .failed) :
    s.left = [] ∧ s.broken = true ∧ ∃ rest, r.2 = { s with attempts := rest } := by
  cases h with
  | interrupted _ => cases hr
  | failed hleft hbroken => exact ⟨hleft, hbroken, _, rfl⟩
  | moved _ _ _ _ => cases hr

theorem Reads.of_moved {items : List α} (h : Reads s n r) (hr : r.1 = .moved items) :
    (s.left = [] → s.broken = false) ∧ ∃ m rest, 0 < m ∧ m ≤ n ∧ items = s.left.take m ∧
      r.2 = { s with left := s.left.drop m, attempts := rest } := by
  cases h with
  | interrupted _ => cases hr
  | failed _ _ => cases hr
  | moved hpos hle _ hend => exact ⟨hend, _, _, hpos, hle, (Outcome.moved.inj hr).symm, rfl⟩

end Source

namespace Sink

def move (k : Sink α) (items : List α) (m : Nat) (rest : List Attempt) : Outcome Nat × Sink α :=
  if k.room = some 0 then (.failed, { k with attempts := rest })
  else
    let fitting := min m (k.room.getD m)
    (.moved fitting, ⟨k.written ++ items.take fitting, k.room.map (· - fitting), rest⟩)

/-- Write some of the items, from the first one on. -/
def write (k : Sink α) (items : List α) : Outcome Nat × Sink α :=
  match k.attempts with
  | [] => k.move items items.length []
  | .interrupted :: rest => (.interrupted, { k with attempts := rest })
  | .upTo more :: rest => k.move items (min items.length (more + 1)) rest

/-- What `write` can do. -/
inductive Writes (k : Sink α) (items : List α) : Outcome Nat × Sink α → Prop
  | interrupted {rest : List Attempt} (hrest : rest.length < k.attempts.length) :
      Writes k items (.interrupted, { k with attempts := rest })
  | failed {rest : List Attempt} (hroom : k.room = some 0) :
      Writes k items (.failed, { k with attempts := rest })
  | moved {rest : List Attempt} {m : Nat} (hpos : 0 < m) (hle : m ≤ items.length)
      (hrest : rest.length ≤ k.attempts.length) :
      Writes k items (.moved m, ⟨k.written ++ items.take m, k.room.map (· - m), rest⟩)

theorem writes_move {k : Sink α} {items : List α} {m : Nat} {rest : List Attempt} (hpos : 0 < m)
    (hle : m ≤ items.length) (hrest : rest.length ≤ k.attempts.length) :
    Writes k items (k.move items m rest) := by
  unfold move
  split
  · next h => exact .failed h
  · next h =>
    refine .moved ?_ (by omega) hrest
    cases hroom : k.room with
    | none => simpa using hpos
    | some room =>
      have hne : room ≠ 0 := fun h0 => h (by rw [hroom, h0])
      rw [Option.getD_some]
      omega

theorem writes_write (k : Sink α) {items : List α} (hne : items ≠ []) :
    Writes k items (k.write items) := by
  have hlen : 0 < items.length := List.length_pos_iff.mpr hne
  unfold write
  split
  · exact writes_move hlen (Nat.le_refl _) (Nat.zero_le _)
  · next h => exact .interrupted (by simp [h])
  · next h => exact writes_move (by omega) (Nat.min_le_left _ _) (by simp [h])

variable {k : Sink α} {items : List α} {r : Outcome Nat × Sink α}

theorem Writes.of_interrupted (h : Writes k items r) (hr : r.1 = .interrupted) :
    ∃ rest, r.2 = { k with attempts := rest } := by
  cases h with
  | interrupted _ => exact ⟨_, rfl⟩
  | failed _ => cases hr
  | moved _ _ _ => cases hr

theorem Writes.of_failed (h : Writes k items r) (hr : r.1 = .failed) : k.room = some 0 := by
  cases h with
  | interrupted _ => cases hr
  | failed hroom => exact hroom
  | moved _ _ _ => cases hr

theorem Writes.of_moved {m : Nat} (h : Writes k items r) (hr : r.1 = .moved m) :
    0 < m ∧ m ≤ items.length ∧
      ∃ rest, r.2 = ⟨k.written ++ items.take m, k.room.map (· - m), rest⟩ := by
  cases h with
  | interrupted _ => cases hr
  | failed _ => cases hr
  | moved hpos hle _ =>
    cases hr
    exact ⟨hpos, hle, _, rfl⟩

end Sink

end Lib
