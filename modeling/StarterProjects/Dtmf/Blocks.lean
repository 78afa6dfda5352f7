import StarterProjects.Lib.Blocks
import StarterProjects.Dtmf.RoundTrip
import StarterProjects.Dtmf.Detect

/-!
# The blocks that `dtmf_detect` evaluates

The loop of `dtmf_detect` looks at a sample before it looks for the end of the stream: a sample
`-1` ends it like the end of the stream does. The last sample of a block is read without a look at
it. `curBlockSize` counts that sample for the block that follows, so that all blocks but the first
start at one, and a block that lacks two or three samples is still evaluated.

A block is what `goertzel_step` and `goertzel_strength` receive. What the comparisons of the eight
strengths come to is a parameter, `test`.
-/

namespace StarterProjects.Dtmf

open Lib.BigEndian Lib.Blocks

/-! ## The loop -/

/-- The samples of one block: those given to `goertzel_step`, and the one given to
`goertzel_strength`. -/
structure Block where
  steps : List (BitVec 16)
  last : BitVec 16
  deriving DecidableEq

def Block.samples (b : Block) : List (BitVec 16) := b.steps ++ [b.last]

/-- The local variables of the inner loop, with the samples it has given to `goertzel_step`. -/
structure StepState where
  curBlockSize : Nat
  curX : BitVec 16 := 0
  EOF_NOT_FOUND : Bool := true
  steps : List (BitVec 16) := []

/-- The inner loop, with so many rounds left. -/
def stepLoop : Nat → StepState → StateM InFile StepState
  | 0, s => return s
  | left + 1, s => do
      let curBlockSize := s.curBlockSize + 1
      let curX := (← audio_read_sample s.curX).2
      if curX = -1 then
        return { s with curBlockSize, curX, EOF_NOT_FOUND := false }
      else stepLoop left { s with curBlockSize, curX, steps := s.steps ++ [curX] }

/-- The outer loop, for so many rounds at most: the blocks it evaluates, and the stream it
leaves. -/
def detectLoop (N : Nat) : Nat → Nat → InFile → Option (List Block × InFile)
  | 0, _, _ => none
  | fuel + 1, curBlockSize, audio_in =>
      let stepped := stepLoop (N - 1) { curBlockSize } audio_in
      let s := stepped.1
      if s.curBlockSize < N - 1 then some ([], stepped.2)
      else
        -- `curBlockSize` is 1 from here on: it counts the sample that is read next.
        let read := audio_read_sample s.curX stepped.2
        let block := { steps := s.steps, last := read.1.2 }
        if s.EOF_NOT_FOUND then
          (detectLoop N fuel 1 read.2).map fun rest => (block :: rest.1, rest.2)
        else some ([block], read.2)

/-- What `dtmf_detect` returns and prints, with the blocks it has evaluated and the stream as it
leaves it. -/
structure Detected where
  ret : Int
  events : List Event
  blocks : List Block
  audio_in : Option InFile

/-- A value that is stored into an `int16_t`. -/
def int16 (n : Int) : Int := n.bmod 65536

/-- A round of the loop that is followed by another takes a byte at least, so that it makes one
more round than there are bytes at most. -/
def dtmf_detect (test : Block → ToneTest) (block_size : Nat) (audio_in : Option InFile)
    (ah : AudioHeader) : Option Detected :=
  let header := audio_read_header audio_in ah
  if header.ret = EOF then
    some { ret := EOF, events := [], blocks := [], audio_in := header.rest }
  else do
    let audio_in ← header.rest
    let loop ← detectLoop block_size (audio_in.length + 1) 0 audio_in
    return {
      ret := 0
      events := dtmf_detect_events int16 block_size (loop.1.map test)
      blocks := loop.1
      audio_in := some loop.2 }

/-! ## What one round reads -/

variable {N : Nat} {ys zs : List (BitVec 16)}

/-- A read at the end of the stream leaves `-1`. -/
theorem audio_read_sample_flatMap (samplep : BitVec 16) (zs : List (BitVec 16)) :
    (audio_read_sample samplep (zs.flatMap sampleBytes)).1.2 = zs.headD (-1) ∧
      (audio_read_sample samplep (zs.flatMap sampleBytes)).2 = zs.tail.flatMap sampleBytes := by
  cases zs with
  | nil => exact ⟨rfl, rfl⟩
  | cons z zs =>
      rw [List.flatMap_cons, audio_read_sample_bytes]
      exact ⟨rfl, rfl⟩

theorem flatMap_sampleBytes_eq_nil : zs.flatMap sampleBytes = [] ↔ zs = [] := by
  cases zs with
  | nil => simp
  | cons z zs => simp [sampleBytes, bytes]

/-- The variables after steps over `ys`. -/
def StepState.stepped (s : StepState) (ys : List (BitVec 16)) : StepState :=
  { s with
    curBlockSize := s.curBlockSize + ys.length
    curX := ys.getLast?.getD s.curX
    steps := s.steps ++ ys }

theorem stepped_cons (s : StepState) (y : BitVec 16) (ys : List (BitVec 16)) :
    s.stepped (y :: ys) = StepState.stepped
      { s with curBlockSize := s.curBlockSize + 1, curX := y, steps := s.steps ++ [y] } ys := by
  simp [StepState.stepped, List.getLast?_cons, Nat.add_assoc, Nat.add_comm 1]

/-- Samples other than `-1` are stepped over. -/
theorem stepLoop_append (left : Nat) (h : -1 ∉ ys) (s : StepState) (rest : InFile) :
    stepLoop (ys.length + left) s (ys.flatMap sampleBytes ++ rest) =
      stepLoop left (s.stepped ys) rest := by
  induction ys generalizing s with
  | nil => simp [StepState.stepped]
  | cons y ys ih =>
      obtain ⟨hy, hys⟩ := not_or.mp (mt List.mem_cons.mpr h)
      rw [List.flatMap_cons, List.append_assoc, List.length_cons, Nat.add_right_comm, stepLoop,
        read_bind, audio_read_sample_bytes, if_neg (Ne.symm hy), ih hys, stepped_cons]

/-- A read that leaves `-1` ends the inner loop, whether or not a sample was read. -/
theorem stepLoop_stop (left : Nat) (s : StepState) (h : zs.headD (-1) = -1) :
    stepLoop (left + 1) s (zs.flatMap sampleBytes) =
      ({ s with curBlockSize := s.curBlockSize + 1, curX := -1, EOF_NOT_FOUND := false },
        zs.tail.flatMap sampleBytes) := by
  obtain ⟨hvalue, hrest⟩ := audio_read_sample_flatMap s.curX zs
  rw [stepLoop, read_bind, hvalue, hrest, if_pos h, read_pure, h]

/-- A round that steps over a whole block but one is followed by another. -/
theorem detectLoop_full (hlen : N - 1 ≤ ys.length) (h : -1 ∉ ys.take (N - 1)) (fuel s : Nat) :
    detectLoop N (fuel + 1) s (ys.flatMap sampleBytes) =
      (detectLoop N fuel 1 ((ys.drop (N - 1)).tail.flatMap sampleBytes)).map fun rest =>
        (⟨ys.take (N - 1), (ys.drop (N - 1)).headD (-1)⟩ :: rest.1, rest.2) := by
  have htake : (ys.take (N - 1)).length = N - 1 := List.length_take_of_le hlen
  have hsteps := stepLoop_append 0 h { curBlockSize := s } ((ys.drop (N - 1)).flatMap sampleBytes)
  rw [htake, Nat.add_zero, ← List.flatMap_append, List.take_append_drop, stepLoop, read_pure]
    at hsteps
  have hsize :
      ¬ (StepState.stepped { curBlockSize := s } (ys.take (N - 1))).curBlockSize < N - 1 := by
    change ¬ s + (ys.take (N - 1)).length < N - 1
    omega
  obtain ⟨hvalue, hrest⟩ := audio_read_sample_flatMap
    (StepState.stepped { curBlockSize := s } (ys.take (N - 1))).curX (ys.drop (N - 1))
  rw [detectLoop, hsteps]
  simp only [if_neg hsize, hvalue, hrest]
  rfl

/-- A round that comes upon `-1` or the end of the stream is the last. Whether its block is
evaluated depends on `curBlockSize`. -/
theorem detectLoop_stop (hys : -1 ∉ ys) (hlen : ys.length < N - 1) (hstop : zs.headD (-1) = -1)
    (fuel s : Nat) :
    detectLoop N (fuel + 1) s ((ys ++ zs).flatMap sampleBytes) =
      some (if s + ys.length + 2 < N then ([], zs.tail.flatMap sampleBytes)
        else ([⟨ys, zs.tail.headD (-1)⟩], zs.tail.tail.flatMap sampleBytes)) := by
  obtain ⟨left, hleft⟩ : ∃ left, N - 1 = ys.length + (left + 1) :=
    ⟨N - 1 - ys.length - 1, by omega⟩
  have hsteps := stepLoop_append (left + 1) hys { curBlockSize := s } (zs.flatMap sampleBytes)
  rw [← hleft, ← List.flatMap_append, stepLoop_stop left _ hstop] at hsteps
  obtain ⟨hvalue, hrest⟩ := audio_read_sample_flatMap (-1) zs.tail
  rw [detectLoop, hsteps]
  by_cases hfew : s + ys.length + 2 < N
  · have hsize : s + ys.length + 1 < N - 1 := by omega
    simp [StepState.stepped, hfew, hsize]
  · have hsize : ¬ s + ys.length + 1 < N - 1 := by omega
    simp only [StepState.stepped, if_neg hsize, if_neg hfew, hvalue, hrest, Bool.false_eq_true,
      if_false, List.nil_append]

/-- One of the two happens in each round. -/
theorem round_cases (N : Nat) (samples : List (BitVec 16)) :
    (N - 1 ≤ samples.length ∧ -1 ∉ samples.take (N - 1)) ∨
      ∃ ys zs, samples = ys ++ zs ∧ -1 ∉ ys ∧ ys.length < N - 1 ∧ zs.headD (-1) = -1 := by
  by_cases hmark : -1 ∈ samples.take (N - 1)
  · obtain ⟨ys, zs, htake, hys⟩ := List.eq_append_cons_of_mem hmark
    have hlen := congrArg List.length htake
    rw [List.length_take, List.length_append, List.length_cons] at hlen
    refine Or.inr ⟨ys, -1 :: zs ++ samples.drop (N - 1), ?_, hys, by omega, rfl⟩
    rw [← List.append_assoc, ← htake, List.take_append_drop]
  · rcases Nat.lt_or_ge samples.length (N - 1) with hlt | hge
    · rw [List.take_of_length_le (Nat.le_of_lt hlt)] at hmark
      exact Or.inr ⟨samples, [], (List.append_nil samples).symm, hmark, hlt, rfl⟩
    · exact Or.inl ⟨hge, hmark⟩

/-! ## Which blocks are evaluated -/

/-- What `curBlockSize` has counted before the samples that follow the whole blocks: only the
first block starts with the value `s`. -/
def countedBefore (N s T : Nat) : Nat := if T < N then s else 1

/-- The streams of which the loop evaluates the whole blocks and nothing else. -/
structure WholeOnly (N s : Nat) (samples : List (BitVec 16)) : Prop where
  /-- No sample that is looked at is `-1`, but perhaps the very last. -/
  unmarked : ∀ i, i + 1 < samples.length → i % N ≠ N - 1 → samples[i]? ≠ some (-1)
  /-- The samples behind the last whole block are too few to be taken for one. -/
  short : samples.length % N + countedBefore N s samples.length + 2 < N ∨
    samples.length % N + countedBefore N s samples.length + 2 = N ∧
      samples.getLast? = some (-1)

theorem countedBefore_drop {T s : Nat} (h : N ≤ T) :
    countedBefore N 1 (T - N) = countedBefore N s T := by
  have hge : ¬ T < N := by omega
  rw [countedBefore, countedBefore, if_neg hge, ite_self]

/-- A first block in which every sample that is looked at is not `-1` can be left out. -/
theorem wholeOnly_drop {samples : List (BitVec 16)} (hN : 10 ≤ N) (hlen : N ≤ samples.length)
    (h : -1 ∉ samples.take (N - 1)) (s : Nat) :
    WholeOnly N 1 (samples.drop N) ↔ WholeOnly N s samples := by
  have hmod : (samples.length - N) % N = samples.length % N := (Nat.mod_eq_sub_mod hlen).symm
  have hlast : samples.length % N + countedBefore N s samples.length + 2 = N →
      (samples.drop N).getLast? = samples.getLast? := by
    intro hshort
    rw [List.getLast?_drop, if_neg]
    intro hall
    have hself : samples.length = N := by omega
    rw [countedBefore, hself, Nat.mod_self, if_neg (Nat.lt_irrefl N)] at hshort
    omega
  have hshort : ((samples.drop N).length % N + countedBefore N 1 (samples.drop N).length + 2 < N ∨
      (samples.drop N).length % N + countedBefore N 1 (samples.drop N).length + 2 = N ∧
        (samples.drop N).getLast? = some (-1)) ↔
      (samples.length % N + countedBefore N s samples.length + 2 < N ∨
        samples.length % N + countedBefore N s samples.length + 2 = N ∧
          samples.getLast? = some (-1)) := by
    rw [List.length_drop, hmod, countedBefore_drop (s := s) hlen]
    exact or_congr_right (and_congr_right fun heq => by rw [hlast heq])
  constructor
  · rintro ⟨hunmarked, hrest⟩
    refine ⟨?_, hshort.mp hrest⟩
    intro i hi hmod
    rcases Nat.lt_or_ge i N with hlt | hge
    · rw [Nat.mod_eq_of_lt hlt] at hmod
      intro hmark
      refine h (List.mem_take_iff_getElem.mpr ?_)
      obtain ⟨hin, hget⟩ := List.getElem?_eq_some_iff.mp hmark
      exact ⟨i, by omega, hget⟩
    · have hget := hunmarked (i - N) (by rw [List.length_drop]; omega)
        (by rw [← Nat.mod_eq_sub_mod hge]; exact hmod)
      rw [List.getElem?_drop, Nat.add_sub_cancel' hge] at hget
      exact hget
  · rintro ⟨hunmarked, hrest⟩
    refine ⟨?_, hshort.mpr hrest⟩
    intro i hi hmod
    rw [List.length_drop] at hi
    rw [List.getElem?_drop]
    exact hunmarked (N + i) (by omega) (by rw [Nat.add_mod_left]; exact hmod)

/-- The last round evaluates the whole blocks that are left, which are none, exactly where few
samples were stepped over and the sample that ended it was the last, or none. -/
theorem wholeOnly_stop (hN : 10 ≤ N) (hys : -1 ∉ ys) (hlen : ys.length < N - 1)
    (hstop : zs.headD (-1) = -1) (s : Nat) :
    WholeOnly N s (ys ++ zs) ↔ s + ys.length + 2 < N ∧ zs.tail = [] := by
  -- the samples end, or a sample of -1 ends the block
  cases zs with
  | nil =>
      have hmod : ys.length % N = ys.length := Nat.mod_eq_of_lt (by omega)
      have hcounted : countedBefore N s ys.length = s := if_pos (by omega)
      have hlast : ys.getLast? ≠ some (-1) := fun hlast => hys (List.mem_of_getLast? hlast)
      rw [List.append_nil]
      constructor
      · rintro ⟨-, hshort⟩
        rw [hmod, hcounted] at hshort
        rcases hshort with hfew | ⟨-, hmark⟩
        · exact ⟨by omega, rfl⟩
        · exact absurd hmark hlast
      · rintro ⟨hfew, -⟩
        refine ⟨?_, Or.inl (by omega)⟩
        intro i _ _ hget
        exact hys (List.mem_of_getElem? hget)
  | cons z zs =>
      have hz : z = -1 := hstop
      subst hz
      constructor
      · rintro ⟨hunmarked, hshort⟩
        have hget : (ys ++ -1 :: zs)[ys.length]? = some (-1) := by simp
        have hzs : zs = [] := by
          by_contra hne
          have hpos := List.length_pos_iff.mpr hne
          refine hunmarked ys.length (by simp; omega) ?_ hget
          rw [Nat.mod_eq_of_lt (by omega)]
          omega
        subst hzs
        have htotal : (ys ++ [-1]).length = ys.length + 1 := List.length_append
        have hcounted : countedBefore N s (ys.length + 1) = s := if_pos (by omega)
        rw [htotal, Nat.mod_eq_of_lt (by omega), hcounted] at hshort
        exact ⟨by omega, rfl⟩
      · rintro ⟨hfew, hzs⟩
        have hzs : zs = [] := hzs
        subst hzs
        have htotal : (ys ++ [-1]).length = ys.length + 1 := List.length_append
        have hcounted : countedBefore N s (ys.length + 1) = s := if_pos (by omega)
        refine ⟨?_, ?_⟩
        · intro i hi _ hget
          rw [htotal] at hi
          rw [List.getElem?_append_left (by omega)] at hget
          exact hys (List.mem_of_getElem? hget)
        · rw [htotal, Nat.mod_eq_of_lt (by omega), hcounted, List.getLast?_concat]
          exact (Nat.lt_or_eq_of_le (by omega)).imp_right fun heq => ⟨heq, rfl⟩

/-- One round after the other: the loop ends, and it evaluates the whole blocks and reaches the end
of the stream exactly where `WholeOnly` holds. -/
theorem detectLoop_iff (hN : 10 ≤ N) {fuel : Nat} {samples : List (BitVec 16)}
    (hfuel : samples.length < fuel) (s : Nat) :
    ∃ blocks rest,
      detectLoop N fuel s (samples.flatMap sampleBytes) = some (blocks, rest) ∧
        (blocks.map Block.samples = wholeBlocks N samples ∧ rest = [] ↔
          WholeOnly N s samples) := by
  induction fuel generalizing s samples with
  | zero => omega
  | succ fuel ih =>
      rcases round_cases N samples with ⟨hlen, hmark⟩ | ⟨ys, zs, rfl, hys, hlen, hstop⟩
      · have hnext : (samples.drop (N - 1)).tail = samples.drop N := by
          rw [List.tail_drop, Nat.sub_add_cancel (by omega)]
        have hless : (samples.drop N).length < fuel := by
          rw [List.length_drop]
          omega
        obtain ⟨blocks, rest, hloop, hiff⟩ := ih hless 1
        refine ⟨⟨samples.take (N - 1), (samples.drop (N - 1)).headD (-1)⟩ :: blocks, rest, ?_, ?_⟩
        · rw [detectLoop_full hlen hmark, hnext, hloop]
          rfl
        rcases Nat.lt_or_ge samples.length N with hlt | hge
        · -- The block lacks its last sample, and the end of the stream stands for it.
          have hmod : samples.length % N = samples.length := Nat.mod_eq_of_lt hlt
          refine iff_of_false ?_ ?_
          · rw [wholeBlocks_of_lt hlt]
            rintro ⟨h, -⟩
            cases h
          · rintro ⟨-, hshort⟩
            omega
        · have hblock : Block.samples ⟨samples.take (N - 1), (samples.drop (N - 1)).headD (-1)⟩ =
              samples.take N := by
            have hlast : (samples.drop (N - 1)).headD (-1) = samples[N - 1] := by
              rw [List.headD_eq_head?_getD, List.head?_drop, List.getElem?_eq_getElem (by omega),
                Option.getD_some]
            rw [Block.samples, hlast, List.take_append_getElem (by omega),
              Nat.sub_add_cancel (by omega)]
          rw [List.map_cons, hblock, wholeBlocks_of_le (by omega) hge, List.cons_inj_right, hiff,
            wholeOnly_drop hN hge hmark]
      · have hloop := detectLoop_stop hys hlen hstop fuel s
        rw [wholeOnly_stop hN hys hlen hstop]
        by_cases hfew : s + ys.length + 2 < N
        · rw [if_pos hfew] at hloop
          refine ⟨[], _, hloop, ?_⟩
          rw [flatMap_sampleBytes_eq_nil]
          refine ⟨fun h => ⟨hfew, h.2⟩, fun h => ⟨?_, h.2⟩⟩
          have htail : zs.length - 1 = 0 := List.length_tail ▸ congrArg List.length h.2
          exact (wholeBlocks_of_lt (by rw [List.length_append]; omega)).symm
        · rw [if_neg hfew] at hloop
          refine ⟨_, _, hloop, iff_of_false ?_ fun h => hfew h.1⟩
          rintro ⟨hblocks, -⟩
          -- The block that is evaluated is not a whole one.
          have hmem : Block.samples ⟨ys, zs.tail.headD (-1)⟩ ∈ wholeBlocks N (ys ++ zs) := by
            rw [← hblocks, List.map_singleton]
            exact List.mem_singleton_self _
          have hfull := length_of_mem_wholeBlocks hmem
          have hcut : (Block.samples ⟨ys, zs.tail.headD (-1)⟩).length = ys.length + 1 :=
            List.length_append
          omega

/-! ## How many blocks are evaluated -/

/-- How many blocks the loop evaluates of `T` samples none of which is `-1`. -/
def evaluatedBlocks (N s T : Nat) : Nat :=
  T / N + if T % N + countedBefore N s T + 2 < N then 0 else 1

/-- A round over a whole block, or over a block that lacks its last sample only. -/
theorem evaluatedBlocks_drop {T s : Nat} (hN : 10 ≤ N) (hlen : N - 1 ≤ T) :
    evaluatedBlocks N s T = evaluatedBlocks N 1 (T - N) + 1 := by
  rcases Nat.lt_or_ge T N with hlt | hge
  · have hmany : ¬ T % N + countedBefore N s T + 2 < N := by
      rw [Nat.mod_eq_of_lt hlt]
      omega
    have hnone : T - N = 0 := by omega
    have hempty : evaluatedBlocks N 1 0 = 0 := by
      rw [evaluatedBlocks, countedBefore, Nat.zero_div, Nat.zero_mod, ite_self,
        if_pos (show 0 + 1 + 2 < N by omega)]
    rw [hnone, hempty, evaluatedBlocks, if_neg hmany, Nat.div_eq_of_lt hlt]
  · rw [evaluatedBlocks, evaluatedBlocks, countedBefore_drop (s := s) hge,
      Nat.mod_eq_sub_mod hge, Nat.div_eq_sub_div (by omega) hge]
    omega

/-- A last round evaluates a block only where the samples before its end are enough. -/
theorem evaluatedBlocks_pos {T s : Nat} (hN : 0 < N) (h : ys.length ≤ T)
    (hmany : ¬ s + ys.length + 2 < N) : 1 ≤ evaluatedBlocks N s T := by
  rcases Nat.lt_or_ge T N with hlt | hge
  · have hcounted : countedBefore N s T = s := if_pos hlt
    have hmore : ¬ T % N + countedBefore N s T + 2 < N := by
      rw [Nat.mod_eq_of_lt hlt, hcounted]
      omega
    rw [evaluatedBlocks, if_neg hmore]
    exact Nat.le_add_left 1 _
  · exact Nat.le_trans (Nat.div_pos hge hN) (Nat.le_add_right _ _)

theorem detectLoop_length_le (hN : 10 ≤ N) {fuel s : Nat} {samples : List (BitVec 16)}
    {blocks : List Block} {rest : InFile}
    (h : detectLoop N fuel s (samples.flatMap sampleBytes) = some (blocks, rest)) :
    blocks.length ≤ evaluatedBlocks N s samples.length := by
  induction fuel generalizing s samples blocks rest with
  | zero => cases h
  | succ fuel ih =>
      rcases round_cases N samples with ⟨hlen, hmark⟩ | ⟨ys, zs, rfl, hys, hlen, hstop⟩
      · rw [detectLoop_full hlen hmark, List.tail_drop, Nat.sub_add_cancel (by omega),
          Option.map_eq_some_iff] at h
        obtain ⟨⟨blocks', rest'⟩, hloop, heq⟩ := h
        cases heq
        have hnext := ih hloop
        rw [List.length_drop] at hnext
        rw [List.length_cons, evaluatedBlocks_drop hN hlen]
        exact Nat.succ_le_succ hnext
      · rw [detectLoop_stop hys hlen hstop, Option.some_inj] at h
        by_cases hfew : s + ys.length + 2 < N
        · rw [if_pos hfew] at h
          cases h
          exact Nat.zero_le _
        · rw [if_neg hfew] at h
          cases h
          exact evaluatedBlocks_pos (by omega) (by rw [List.length_append]; omega) hfew

/-- Without a sample `-1` the blocks are as many, and start where the whole blocks start. -/
theorem detectLoop_heads (hN : 10 ≤ N) {fuel s : Nat} {samples : List (BitVec 16)} (hs : s ≤ 1)
    (hfuel : samples.length < fuel) (hmark : -1 ∉ samples) :
    ∃ blocks rest,
      detectLoop N fuel s (samples.flatMap sampleBytes) = some (blocks, rest) ∧
        blocks.map (fun b => b.samples.headD 0) =
          (List.range (evaluatedBlocks N s samples.length)).map fun k =>
            samples.getD (k * N) 0 := by
  induction fuel generalizing s samples with
  | zero => omega
  | succ fuel ih =>
      -- what is left is dropped or taken for a block; before that, one block is read
      rcases Nat.lt_or_ge samples.length (N - 1) with hlt | hge
      · have hstop : ([] : List (BitVec 16)).headD (-1) = -1 := rfl
        have hloop := detectLoop_stop hmark hlt hstop fuel s
        have hdiv : samples.length / N = 0 := Nat.div_eq_of_lt (by omega)
        have hmod : samples.length % N = samples.length := Nat.mod_eq_of_lt (by omega)
        have hcounted : countedBefore N s samples.length = s := if_pos (by omega)
        rw [List.append_nil] at hloop
        by_cases hfew : s + samples.length + 2 < N
        · rw [if_pos hfew] at hloop
          refine ⟨_, _, hloop, ?_⟩
          rw [evaluatedBlocks, hdiv, hmod, hcounted, if_pos (by omega)]
          rfl
        · rw [if_neg hfew] at hloop
          refine ⟨_, _, hloop, ?_⟩
          rw [evaluatedBlocks, hdiv, hmod, hcounted, if_neg (by omega)]
          cases samples with
          | nil => rw [List.length_nil] at hfew; omega
          | cons x xs => simp [Block.samples]
      · have hunmarked : -1 ∉ samples.take (N - 1) := fun h => hmark (List.mem_of_mem_take h)
        have hless : (samples.drop N).length < fuel := by
          rw [List.length_drop]
          omega
        obtain ⟨blocks, rest, hloop, hheads⟩ :=
          ih (Nat.le_refl 1) hless fun h => hmark (List.mem_of_mem_drop h)
        have hround := detectLoop_full hge hunmarked fuel s
        rw [List.tail_drop, Nat.sub_add_cancel (by omega), hloop] at hround
        refine ⟨_, _, hround, ?_⟩
        have hhead : ∀ last, (Block.samples ⟨samples.take (N - 1), last⟩).headD 0 =
            samples.getD (0 * N) 0 := by
          intro last
          obtain ⟨x, xs, rfl⟩ : ∃ x xs, samples = x :: xs :=
            List.exists_cons_of_length_pos (by omega)
          obtain ⟨n, hn⟩ : ∃ n, N - 1 = n + 1 := ⟨N - 2, by omega⟩
          rw [hn, Block.samples, List.take_succ_cons, Nat.zero_mul]
          rfl
        have hnext : ∀ k, (samples.drop N).getD (k * N) 0 = samples.getD ((k + 1) * N) 0 := by
          intro k
          rw [List.getD_eq_getElem?_getD, List.getElem?_drop, Nat.add_one_mul, Nat.add_comm N,
            ← List.getD_eq_getElem?_getD]
        rw [List.map_cons, hheads, List.length_drop, evaluatedBlocks_drop hN hge,
          List.range_succ_eq_map, List.map_cons, List.map_map, hhead]
        exact congrArg _ (List.map_congr_left fun k _ => hnext k)

/-- The blocks of an accepted file are those of its samples. -/
theorem dtmf_detect_eq (test : Block → ToneTest) {file : InFile} {ah : AudioHeader}
    {audio_in rest : InFile} {blocks : List Block} (hret : (audio_read_header file ah).ret = 0)
    (hrest : (audio_read_header file ah).rest = some audio_in)
    (hloop : detectLoop N (audio_in.length + 1) 0 audio_in = some (blocks, rest)) :
    dtmf_detect test N file ah =
      some ⟨0, dtmf_detect_events int16 N (blocks.map test), blocks, some rest⟩ := by
  have haccepted : ¬ (audio_read_header file ah).ret = EOF := by
    rw [hret]
    decide
  simp only [dtmf_detect, if_neg haccepted, hrest]
  change (detectLoop N (audio_in.length + 1) 0 audio_in).bind _ = _
  rw [hloop]
  rfl

theorem length_lt_flatMap_sampleBytes (samples : List (BitVec 16)) :
    samples.length < (samples.flatMap sampleBytes).length + 1 := by
  rw [length_flatMap_sampleBytes]
  omega

/-- A stream of `T` samples whose header is accepted is cut into its `T / N` whole blocks, and read
to its end, exactly where no sample that is looked at is `-1`, the very last apart, and at most
`N - 4` samples follow the whole blocks: one more where there is no whole block, and one more where
the last of them is `-1`. -/
theorem dtmf_detect_blocks_iff (test : Block → ToneTest) (hN : 10 ≤ N ∧ N ≤ 1000) {file : InFile}
    {ah : AudioHeader} {samples : List (BitVec 16)} (hret : (audio_read_header file ah).ret = 0)
    (hrest : (audio_read_header file ah).rest = some (samples.flatMap sampleBytes)) :
    ∃ d, dtmf_detect test N file ah = some d ∧
      (d.blocks.map Block.samples = wholeBlocks N samples ∧ d.audio_in = some [] ↔
        WholeOnly N 0 samples) := by
  obtain ⟨blocks, rest, hloop, hiff⟩ :=
    detectLoop_iff hN.1 (length_lt_flatMap_sampleBytes samples) 0
  refine ⟨_, dtmf_detect_eq test hret hrest hloop, ?_⟩
  rw [← hiff, Option.some_inj]

/-- The header of a file of 8000 samples a second. -/
def standardHeader : AudioHeader := ⟨AUDIO_MAGIC, 24, 0xFFFFFFFF, 3, 8000, 1⟩

theorem standard_standardHeader : standardHeader.Standard := ⟨rfl, rfl, rfl, rfl, rfl⟩

/-- A file of those samples. -/
def audioFile (samples : List (BitVec 16)) : InFile :=
  headerBytes standardHeader ++ samples.flatMap sampleBytes

theorem audio_read_header_audioFile (samples : List (BitVec 16)) (ah : AudioHeader) :
    audio_read_header (audioFile samples) ah =
      { ret := 0, hp := standardHeader, rest := some (samples.flatMap sampleBytes) } :=
  audio_read_header_headerBytes ah standard_standardHeader (samples.flatMap sampleBytes)

/-- Twenty samples are two blocks of ten. -/
theorem dtmf_detect_blocks_twenty :
    ∃ d, dtmf_detect (fun _ => ⟨none, none, false⟩) 10 (audioFile (List.replicate 20 0))
        standardHeader = some d ∧
      d.blocks.map Block.samples = [List.replicate 10 0, List.replicate 10 0] ∧
        d.audio_in = some [] := by
  have hread := audio_read_header_audioFile (List.replicate 20 0) standardHeader
  obtain ⟨d, hd, hiff⟩ := dtmf_detect_blocks_iff (fun _ => ⟨none, none, false⟩)
    (show 10 ≤ 10 ∧ 10 ≤ 1000 by decide) (congrArg HeaderRead.ret hread)
    (congrArg HeaderRead.rest hread)
  refine ⟨d, hd, hiff.mpr ⟨?_, Or.inl (by decide)⟩⟩
  intro i _ _ hget
  have hzero := List.eq_of_mem_replicate (List.mem_of_getElem? hget)
  exact absurd hzero (by decide)

/-- Nineteen samples are one block of ten, but a second one is evaluated. -/
theorem dtmf_detect_blocks_nineteen :
    ¬ ∃ d, dtmf_detect (fun _ => ⟨none, none, false⟩) 10 (audioFile (List.replicate 19 0))
        standardHeader = some d ∧
      d.blocks.map Block.samples = wholeBlocks 10 (List.replicate 19 0) ∧
        d.audio_in = some [] := by
  rintro ⟨d, hd, hblocks, hend⟩
  have hread := audio_read_header_audioFile (List.replicate 19 0) standardHeader
  obtain ⟨blocks, rest, hloop, hiff⟩ := detectLoop_iff (N := 10) (by decide)
    (length_lt_flatMap_sampleBytes (List.replicate 19 0)) 0
  rw [dtmf_detect_eq _ (congrArg HeaderRead.ret hread) (congrArg HeaderRead.rest hread) hloop,
    Option.some_inj] at hd
  subst hd
  have hshort := (hiff.mp ⟨hblocks, Option.some_inj.mp hend⟩).short
  exact absurd hshort (by decide)

end StarterProjects.Dtmf
