import StarterProjects.Lib.Runs
import Mathlib.Algebra.Order.Field.Rat

/-!
# The event segmentation of `dtmf_detect`

The part of `dtmf_detect` that turns the tone tests of successive blocks into events. What the
floating-point comparisons of one block come to is a `ToneTest`; the verdict on the block is a
tone where all of them succeed. The loop keeps a row and a column also from blocks whose test
fails, and so does the model.

`int16` is the conversion that a store into an `int16_t` index makes. Durations are compared as
exact quotients: `n / 8000.0 >= 0.03` holds of a double exactly when `n` is at least `240`.
-/

namespace StarterProjects.Dtmf

open Lib.Runs

abbrev Tone := Fin 4 × Fin 4

/-- The row and the column whose strengths exceed the other three by 6 dB, where there is one, and
the three comparisons of the strongest row with the strongest column. -/
structure ToneTest where
  row : Option (Fin 4)
  col : Option (Fin 4)
  level : Bool

def ToneTest.verdict (b : ToneTest) : Option Tone :=
  match b.level, b.row, b.col with
  | true, some row, some col => some (row, col)
  | _, _, _ => none

/-- `dtmf_symbol_names`, row after row. -/
def dtmf_symbol_names : List Char :=
  ['1', '2', '3', 'A',
   '4', '5', '6', 'B',
   '7', '8', '9', 'C',
   '*', '0', '#', 'D']

/-- The character at an offset from the first. The offsets used are those of a row and a column. -/
def symbolAt (offset : Int) : Char := dtmf_symbol_names.getD offset.toNat ' '

def MIN_DTMF_DURATION : ℚ := 3 / 100

/-- One line of output. -/
structure Event where
  startIdx : Int
  endIdx : Int
  symbol : Char
  deriving DecidableEq

/-- The local variables of the loop. -/
structure DetectState where
  startIdx : Int := 0
  endIdx : Int := 0
  curIdx : Int := 0
  prevRowTone : Int := -1
  prevColTone : Int := -1
  curRowTone : Int := -1
  curColTone : Int := -1

/-- The event that ends at a change of tone, where it is long enough. -/
def DetectState.change (s : DetectState) : List Event :=
  let blockLen : ℚ := ((s.endIdx - s.startIdx : Int) : ℚ)
  if blockLen / 8000 ≥ MIN_DTMF_DURATION then
    [⟨s.startIdx, s.endIdx, symbolAt (s.prevRowTone + s.prevColTone)⟩]
  else []

/-- One block: the state after it and the lines it prints. -/
def detectBlock (int16 : Int → Int) (N : Nat) (b : ToneTest) (s : DetectState) :
    DetectState × List Event :=
  let s := { s with
    curIdx := int16 (s.curIdx + N)
    curRowTone := b.row.elim s.curRowTone fun row => 4 * (row.val : Int)
    curColTone := b.col.elim s.curColTone fun col => (col.val : Int) }
  if b.level && b.row.isSome && b.col.isSome then
    if s.prevRowTone = -1 ∧ s.prevColTone = -1 then
      ({ s with prevRowTone := s.curRowTone, prevColTone := s.curColTone }, [])
    else if s.curRowTone = s.prevRowTone ∧ s.curColTone = s.prevColTone then
      ({ s with endIdx := s.curIdx }, [])
    else
      ({ s with
          prevRowTone := s.curRowTone
          prevColTone := s.curColTone
          startIdx := int16 (s.curIdx - N)
          endIdx := s.curIdx }, s.change)
  else (s, [])

def detectBlocks (int16 : Int → Int) (N : Nat) : List ToneTest → DetectState →
    DetectState × List Event
  | [], s => (s, [])
  | b :: bs, s =>
      let step := detectBlock int16 N b s
      let rest := detectBlocks int16 N bs step.1
      (rest.1, step.2 ++ rest.2)

/-- What is printed after the loop. -/
def DetectState.finish (s : DetectState) : List Event :=
  if s.endIdx > 0 then [⟨s.startIdx, s.endIdx, symbolAt (s.curRowTone + s.curColTone)⟩] else []

/-- The lines that `dtmf_detect` prints for the complete blocks of a stream. -/
def dtmf_detect_events (int16 : Int → Int) (N : Nat) (tests : List ToneTest) : List Event :=
  let last := detectBlocks int16 N tests {}
  last.2 ++ last.1.finish

/-! ## What the comment above the function asks for -/

/-- The line for a run of blocks. -/
def runEvent (N : Nat) (r : Run Tone) : Event :=
  ⟨N * r.first, N * (r.last + 1), symbolAt (4 * (r.value.1.val : Int) + (r.value.2.val : Int))⟩

def Event.duration (e : Event) : ℚ := ((e.endIdx - e.startIdx : Int) : ℚ) / 8000

/-- The events are the maximal runs of blocks with one tone that last long enough, in order. -/
structure Segmented (N : Nat) (verdicts : List (Option Tone)) (events : List Event) : Prop where
  ordered : events.Pairwise fun e e' => e.startIdx < e'.startIdx
  exact : ∀ e, e ∈ events ↔
    ∃ r, IsRun verdicts r ∧ e = runEvent N r ∧ MIN_DTMF_DURATION ≤ e.duration

end StarterProjects.Dtmf
