import StarterProjects.Dtmf.Generate

/-!
# How many samples `dtmf_generate` writes

Without a noise file every loop of `dtmf_generate` appends samples whose number depends on its
bounds only. Once a line has been read, the samples reach up to the end of the last event
(`Progress`), and the padding goes on from there. Before the first line the index of that end is
`-1`, so without events one sample too many is written. The padding stops at half the signed
reading of `data_size`, which is negative from `2 ^ 30` samples on.
-/

namespace StarterProjects.Dtmf

variable (synth : Synth)

/-! ## The loops append samples -/

theorem writeSamples_append (xs ys : List (BitVec 16)) (out : OutFile) :
    writeSamples (xs ++ ys) out = writeSamples ys (writeSamples xs out) :=
  List.foldl_append

/-- The samples of a tone from an index on. -/
def toneSamples (freqs : Nat × Nat) : Int → Nat → List (BitVec 16)
  | _, 0 => []
  | i, n + 1 => synth.tone freqs i :: toneSamples freqs (i + 1) n

@[simp] theorem length_toneSamples (freqs : Nat × Nat) (i : Int) (n : Nat) :
    (toneSamples synth freqs i n).length = n := by
  induction n generalizing i with
  | zero => rfl
  | succ n ih => rw [toneSamples, List.length_cons, ih]

theorem gapLoop_eq (n : Nat) {s : GenState} (h : s.noise_file_p = none) :
    gapLoop synth n s = { s with audio_out := writeSamples (List.replicate n 0) s.audio_out } := by
  induction n generalizing s with
  | zero => rfl
  | succ n ih =>
      have hstep : writeGap synth s =
          { s with audio_out := (audio_write_sample s.audio_out 0).2 } := by
        simp only [writeGap, h]
      rw [gapLoop, hstep]
      exact ih h

theorem toneLoop_eq (freqs : Nat × Nat) (i : Int) (n : Nat) {s : GenState}
    (h : s.noise_file_p = none) :
    toneLoop synth freqs i n s =
      { s with audio_out := writeSamples (toneSamples synth freqs i n) s.audio_out } := by
  induction n generalizing s i with
  | zero => rfl
  | succ n ih =>
      have hstep : writeTone synth freqs i s =
          { s with audio_out := (audio_write_sample s.audio_out (synth.tone freqs i)).2 } := by
        simp only [writeTone, h]
      rw [toneLoop, hstep]
      exact ih (i + 1) h

theorem padLoop_eq (n : Nat) (out : OutFile) :
    padLoop n out = writeSamples (List.replicate n 0) out := by
  induction n generalizing out with
  | zero => rfl
  | succ n ih =>
      rw [padLoop, ih]
      rfl

/-! ## The events so far -/

/-- Samples that are not zero lie in one of the events. -/
def Covered (events : List EventLine) (xs : List (BitVec 16)) : Prop :=
  ∀ (i : Nat) sample, xs[i]? = some sample → sample ≠ 0 →
    ∃ e ∈ events, e.curStrIdx ≤ i ∧ (i : Int) < e.curEndIdx

/-- What the loop has written for some events: `xs` are the samples, and the indices kept are those
of the last event. -/
structure Progress (start : OutFile) (events : List EventLine) (xs : List (BitVec 16))
    (s : GenState) : Prop where
  out : s.audio_out = writeSamples xs start
  noiseless : s.noise_file_p = none
  covered : Covered events xs
  none : events.getLast? = none →
    xs = [] ∧ s.prevStrIdx = -1 ∧ s.prevEndIdx = -1 ∧ s.prevValChangeOnce = true
  some : ∀ e, events.getLast? = some e →
    s.prevStrIdx = e.curStrIdx ∧ s.prevEndIdx = e.curEndIdx ∧ 0 ≤ e.curStrIdx ∧
      (xs.length : Int) = e.curEndIdx

theorem Covered.append_zeros {events : List EventLine} {xs : List (BitVec 16)}
    (h : Covered events xs) (n : Nat) : Covered events (xs ++ List.replicate n 0) := by
  intro i sample hget hne
  rcases Nat.lt_or_ge i xs.length with hlt | hge
  · rw [List.getElem?_append_left hlt] at hget
    exact h i sample hget hne
  · rw [List.getElem?_append_right hge] at hget
    have hmem := List.mem_of_getElem? hget
    exact absurd (List.eq_of_mem_replicate hmem) hne

/-- The samples of an event lie in it. -/
theorem Covered.append_event {events : List EventLine} {xs ys : List (BitVec 16)} {e : EventLine}
    (h : Covered events xs) (hstart : e.curStrIdx = xs.length)
    (hend : e.curEndIdx = (xs.length + ys.length : Nat)) : Covered (events ++ [e]) (xs ++ ys) := by
  intro i sample hget hne
  rcases Nat.lt_or_ge i xs.length with hlt | hge
  · rw [List.getElem?_append_left hlt] at hget
    obtain ⟨e', he', hin⟩ := h i sample hget hne
    exact ⟨e', List.mem_append_left [e] he', hin⟩
  · obtain ⟨hlt, -⟩ := List.getElem?_eq_some_iff.mp hget
    rw [List.length_append] at hlt
    exact ⟨e, by simp, by omega, by omega⟩

/-- The samples after an event that starts at the index `start` or later. -/
def withEvent (xs : List (BitVec 16)) (e : EventLine) : List (BitVec 16) :=
  xs ++ List.replicate (e.curStrIdx - xs.length).toNat 0 ++
    toneSamples synth (getCurFreqColRow e.curDTMF) e.curStrIdx (e.curEndIdx - e.curStrIdx).toNat

/-- The gap and the tone of an event, after the samples `xs`. -/
theorem gap_tone_eq {start : OutFile} {xs : List (BitVec 16)} {s : GenState} (n : Nat)
    (freqs : Nat × Nat) (i : Int) (m : Nat) (hout : s.audio_out = writeSamples xs start)
    (hnoise : s.noise_file_p = none) :
    (toneLoop synth freqs i m (gapLoop synth n s)).audio_out =
        writeSamples (xs ++ List.replicate n 0 ++ toneSamples synth freqs i m) start ∧
      (toneLoop synth freqs i m (gapLoop synth n s)).noise_file_p = none := by
  have hgap := gapLoop_eq synth n hnoise
  have hnoise' : (gapLoop synth n s).noise_file_p = none := by
    rw [hgap]
    exact hnoise
  rw [toneLoop_eq synth freqs i m hnoise']
  refine ⟨?_, hnoise'⟩
  rw [hgap, hout, ← writeSamples_append, ← writeSamples_append]

/-- The state after an event, whose gap starts where the samples end. -/
theorem genEvent_eq {start : OutFile} {events : List EventLine} {xs : List (BitVec 16)}
    {s s' : GenState} {e : EventLine} (h : Progress start events xs s) (hpos : 0 ≤ e.curStrIdx)
    (hgen : genEvent synth e s = some s') :
    e.curStrIdx ≤ e.curEndIdx ∧ (xs.length : Int) ≤ e.curStrIdx ∧
      s'.audio_out = writeSamples (withEvent synth xs e) start ∧ s'.noise_file_p = none ∧
      s'.prevStrIdx = e.curStrIdx ∧ s'.prevEndIdx = e.curEndIdx := by
  have hback : ¬ e.curEndIdx < e.curStrIdx := by
    intro hlt
    rw [genEvent, if_pos hlt] at hgen
    cases hgen
  -- The state whose gap is filled: the first event is preceded by an empty one at 0, or by none.
  cases hlast : events.getLast? with
  | none =>
      obtain ⟨rfl, hstr, hend, honce⟩ := h.none hlast
      have hempty : ((([] : List (BitVec 16)).length : Nat) : Int) = 0 := rfl
      rw [withEvent, hempty, sub_zero]
      by_cases hzero : 0 < e.curStrIdx
      · simp [genEvent, hback, hstr, hend, honce, hzero] at hgen
        subst hgen
        obtain ⟨hout, hnoise⟩ := gap_tone_eq synth e.curStrIdx.toNat (getCurFreqColRow e.curDTMF)
          e.curStrIdx (e.curEndIdx - e.curStrIdx).toNat
          (s := { s with prevStrIdx := 0, prevEndIdx := 0, prevValChangeOnce := false })
          h.out h.noiseless
        exact ⟨Int.not_lt.mp hback, hpos, hout, hnoise, rfl, rfl⟩
      · have hnone : e.curStrIdx.toNat = 0 := by omega
        simp [genEvent, hback, hstr, hend, honce, hzero] at hgen
        subst hgen
        obtain ⟨hout, hnoise⟩ := gap_tone_eq synth 0 (getCurFreqColRow e.curDTMF)
          e.curStrIdx (e.curEndIdx - e.curStrIdx).toNat h.out h.noiseless
        rw [hnone]
        exact ⟨Int.not_lt.mp hback, hpos, hout, hnoise, rfl, rfl⟩
  | some e' =>
      obtain ⟨hstr, hend, hnonneg, hlen⟩ := h.some e' hlast
      have hset : s.prevStrIdx ≠ -1 ∧ s.prevEndIdx ≠ -1 := by omega
      simp [genEvent, hback, hset] at hgen
      obtain ⟨hafter, rfl⟩ := hgen
      obtain ⟨hout, hnoise⟩ := gap_tone_eq synth (e.curStrIdx - s.prevEndIdx).toNat
        (getCurFreqColRow e.curDTMF) e.curStrIdx (e.curEndIdx - e.curStrIdx).toNat h.out h.noiseless
      rw [withEvent, hlen, ← hend]
      exact ⟨Int.not_lt.mp hback, hafter, hout, hnoise, rfl, rfl⟩

/-- One event: the gap before it is filled with zeros, and its samples follow. -/
theorem genEvent_progress {start : OutFile} {events : List EventLine} {xs : List (BitVec 16)}
    {s s' : GenState} {e : EventLine} (h : Progress start events xs s) (hpos : 0 ≤ e.curStrIdx)
    (hgen : genEvent synth e s = some s') :
    Progress start (events ++ [e]) (withEvent synth xs e) s' := by
  obtain ⟨hle, hgap, hout, hnoise, hstr, hend⟩ := genEvent_eq synth h hpos hgen
  have hzeros : ((xs ++ List.replicate (e.curStrIdx - xs.length).toNat 0).length : Int) =
      e.curStrIdx := by
    rw [List.length_append, List.length_replicate]
    omega
  have hlen : ((withEvent synth xs e).length : Int) = e.curEndIdx := by
    rw [withEvent, List.length_append, length_toneSamples]
    omega
  refine ⟨hout, hnoise, ?_, fun hnil => by simp at hnil, ?_⟩
  · refine (h.covered.append_zeros _).append_event hzeros.symm ?_
    rw [withEvent, List.length_append] at hlen
    exact hlen.symm
  · intro e' he'
    have heq : e = e' := by simpa using he'
    subst heq
    exact ⟨hstr, hend, hpos, hlen⟩

/-! ## The indices that are parsed -/

theorem int32_eq_some {n v : Int} (h : int32 n = some v) : v = n := by
  rw [int32] at h
  split_ifs at h
  exact (Option.some.inj h).symm

theorem get_txt_idx_loop_nonneg {cs : List Char} {v : Int} {count : Nat} {r : Nat × Int}
    (hv : 0 ≤ v) (h : get_txt_idx_loop cs v count = some r) : 0 ≤ r.2 := by
  induction cs generalizing v count with
  | nil => cases h
  | cons c cs ih =>
      rw [get_txt_idx_loop] at h
      split_ifs at h with hdigit
      · rw [← Option.some.inj h]
        exact Int.tdiv_nonneg hv (by decide)
      · obtain ⟨v₁, hadd, h₁⟩ := Option.bind_eq_some_iff.mp h
        obtain ⟨v₂, hmul, h₂⟩ := Option.bind_eq_some_iff.mp h₁
        have hdigit' : 48 ≤ c.toNat := by omega
        have hsum : 0 ≤ v₁ := by
          rw [int32_eq_some hadd]
          omega
        have hproduct : 0 ≤ v₂ := by
          rw [int32_eq_some hmul]
          omega
        exact ih hproduct h₂

theorem parseLine_nonneg {line_buf : List Char} {e : EventLine} (h : parseLine line_buf = some e) :
    0 ≤ e.curStrIdx := by
  obtain ⟨r, hstart, h₁⟩ := Option.bind_eq_some_iff.mp h
  obtain ⟨r', -, h₂⟩ := Option.bind_eq_some_iff.mp h₁
  obtain ⟨c, -, h₃⟩ := Option.bind_eq_some_iff.mp h₂
  rw [← Option.some.inj h₃]
  exact get_txt_idx_loop_nonneg (Int.le_refl 0) hstart

/-- A loop that reaches the end of the lines has gone through all their events. -/
theorem genLines_progress {start : OutFile} (lines : List (List Char)) {line_buf : List Char}
    {events : List EventLine} {xs : List (BitVec 16)} {s s' : GenState}
    (h : Progress start events xs s) (hgen : genLines synth lines line_buf s = some (0, s')) :
    ∃ more ys, readLines lines line_buf = some more ∧ Progress start (events ++ more) ys s' := by
  induction lines generalizing line_buf events xs s with
  | nil =>
      have heq : s = s' := congrArg Prod.snd (Option.some.inj hgen)
      subst heq
      exact ⟨[], xs, rfl, by rwa [List.append_nil]⟩
  | cons line lines ih =>
      obtain ⟨e, hparse, hrest⟩ := Option.bind_eq_some_iff.mp hgen
      cases hevent : genEvent synth e s with
      | none =>
          rw [hevent] at hrest
          have hEOF : EOF = 0 := congrArg Prod.fst (Option.some.inj hrest)
          exact absurd hEOF (by decide)
      | some s₁ =>
          rw [hevent] at hrest
          have hstep := genEvent_progress synth h (parseLine_nonneg hparse) hevent
          obtain ⟨more, ys, hread, hprogress⟩ := ih hstep hrest
          refine ⟨e :: more, ys, ?_, ?_⟩
          · rw [readLines]
            exact Option.bind_eq_some_iff.mpr ⟨e, hparse, Option.bind_eq_some_iff.mpr
              ⟨more, hread, rfl⟩⟩
          · rwa [List.append_assoc] at hprogress

/-! ## The whole function -/

/-- The condition on the events: there is one, the last one ends inside the duration, and the
signed data size is not negative or no padding is wanted. -/
def GeneratesExactly (length : Nat) (events : List EventLine) : Prop :=
  ∃ last, events.getLast? = some last ∧ last.curEndIdx ≤ length ∧
    (length < 1073741824 ∨ last.curEndIdx = length)

theorem length_headerBytes (hp : AudioHeader) : (headerBytes hp).length = 24 := by
  simp [headerBytes]

/-- What is written is complete exactly when it has the right number of samples. -/
theorem generated_iff {length : Nat} {events : List EventLine} {hp : AudioHeader}
    {samples : List (BitVec 16)} (hsize : hp.data_size.toNat = 2 * length)
    (hcovered : Covered events samples) {out : OutFile}
    (hout : out.bytes = headerBytes hp ++ samples.flatMap sampleBytes) :
    Generated length events out ↔ samples.length = length := by
  constructor
  · rintro ⟨hp', samples', hout', hlen, -, -⟩
    have hbytes := congrArg List.length (hout.symm.trans hout')
    rw [List.length_append, List.length_append, length_headerBytes, length_headerBytes,
      length_flatMap_sampleBytes, length_flatMap_sampleBytes] at hbytes
    omega
  · intro hlen
    exact ⟨hp, samples, hout, hlen, hsize, hcovered⟩

theorem outputHeader_size {t : Nat} (ht : t ≤ 268435455) :
    (outputHeader (BitVec.ofNat 32 (8 * t))).data_size.toNat = 2 * (8 * t) := by
  have hmul : (BitVec.ofNat 32 (8 * t) * 2).toNat = (8 * t) % 4294967296 * 2 % 4294967296 := by
    simp [BitVec.toNat_mul]
  rw [outputHeader, hmul]
  omega

/-- Half of the signed data size. -/
theorem outputHeader_half {t : Nat} (ht : t ≤ 268435455) :
    (outputHeader (BitVec.ofNat 32 (8 * t))).data_size.toInt.tdiv 2 =
      if 8 * t < 1073741824 then (8 * t : Int) else 8 * t - 2147483648 := by
  have hdouble : ∀ n : Int, (2 * n).tdiv 2 = n := fun n => Int.mul_tdiv_cancel_left n (by decide)
  rw [BitVec.toInt_eq_toNat_cond, outputHeader_size ht]
  by_cases hsmall : 8 * t < 1073741824
  · rw [if_pos (by omega), if_pos hsmall]
    exact hdouble (8 * t)
  · have hsplit : ((2 * (8 * t) : Nat) : Int) - (2 ^ 32 : Nat) = 2 * (8 * t - 2147483648) := by
      push_cast
      ring
    rw [if_neg (by omega), if_neg hsmall, hsplit, hdouble]

theorem genLines_ret {lines : List (List Char)} {line_buf : List Char} {s s' : GenState} {ret : Int}
    (h : genLines synth lines line_buf s = some (ret, s')) : ret = 0 ∨ ret = EOF := by
  induction lines generalizing line_buf s with
  | nil => exact Or.inl (congrArg Prod.fst (Option.some.inj h)).symm
  | cons line lines ih =>
      obtain ⟨e, -, hrest⟩ := Option.bind_eq_some_iff.mp h
      cases hevent : genEvent synth e s with
      | none =>
          rw [hevent] at hrest
          exact Or.inr (congrArg Prod.fst (Option.some.inj hrest)).symm
      | some s₁ =>
          rw [hevent] at hrest
          exact ih hrest

/-- The samples reach the duration exactly when the condition holds. -/
theorem padded_length_iff {t : Nat} (ht : t ≤ 268435455) {events : List EventLine} {start : OutFile}
    {xs : List (BitVec 16)} {s : GenState} (hprogress : Progress start events xs s) :
    xs.length + ((if 8 * t < 1073741824 then (8 * t : Int) else 8 * t - 2147483648)
        - s.prevEndIdx).toNat = 8 * t ↔
      GeneratesExactly (8 * t) events := by
  cases hlast : events.getLast? with
  | none =>
      obtain ⟨rfl, -, hend, -⟩ := hprogress.none hlast
      have hno : ¬ GeneratesExactly (8 * t) events := by
        rintro ⟨last, hsome, -⟩
        rw [hlast] at hsome
        cases hsome
      refine iff_of_false ?_ hno
      rw [hend, List.length_nil]
      split_ifs <;> omega
  | some e =>
      obtain ⟨-, hend, hnonneg, hlen⟩ := hprogress.some e hlast
      have hiff : GeneratesExactly (8 * t) events ↔
          e.curEndIdx ≤ (8 * t : Nat) ∧ (8 * t < 1073741824 ∨ e.curEndIdx = (8 * t : Nat)) := by
        constructor
        · rintro ⟨last, hsome, hle, hpad⟩
          rw [hlast] at hsome
          cases hsome
          exact ⟨hle, hpad⟩
        · rintro ⟨hle, hpad⟩
          exact ⟨e, hlast, hle, hpad⟩
      rw [hiff, hend, ← hlen]
      split_ifs <;> omega

/-- A call that returns 0 has written what it should exactly when there is an event, the last event
ends in time, and the padding after it is not lost. -/
theorem dtmf_generate_iff (t : Nat) (ht : t ≤ 268435455) (events_in : List Char) (out : OutFile)
    (h : dtmf_generate synth none events_in { bytes := [] } (BitVec.ofNat 32 (8 * t)) =
      some (0, out)) :
    ∃ events, readEvents events_in = some events ∧
      (Generated (8 * t) events out ↔ GeneratesExactly (8 * t) events) := by
  have hheader := audio_write_header_eq { bytes := [] }
    (outputHeader (BitVec.ofNat 32 (8 * t))) rfl
  rw [dtmf_generate, if_neg (by simp)] at h
  simp only [hheader] at h
  obtain ⟨r, hlines, hrest⟩ := Option.bind_eq_some_iff.mp h
  obtain ⟨ret, s⟩ := r
  rcases genLines_ret synth hlines with rfl | rfl
  · rw [if_neg (show ¬ (0 : Int) = EOF by decide)] at hrest
    have hstart : Progress { bytes := headerBytes (outputHeader (BitVec.ofNat 32 (8 * t))) } [] []
        { noise_file_p := none,
          audio_out := { bytes := headerBytes (outputHeader (BitVec.ofNat 32 (8 * t))) } } :=
      ⟨rfl, rfl, fun i sample hget => by simp at hget, fun _ => ⟨rfl, rfl, rfl, rfl⟩,
        fun e he => by simp at he⟩
    obtain ⟨events, xs, hread, hprogress⟩ := genLines_progress synth _ hstart hlines
    rw [List.nil_append] at hprogress
    refine ⟨events, hread, ?_⟩
    have hout : padLoop _ s.audio_out = out := congrArg Prod.snd (Option.some.inj hrest)
    rw [padLoop_eq, hprogress.out, ← writeSamples_append, writeSamples_eq,
      outputHeader_half ht] at hout
    rw [generated_iff (outputHeader_size ht) (hprogress.covered.append_zeros _)
      (by rw [← hout]), List.length_append, List.length_replicate]
    exact padded_length_iff ht hprogress
  · rw [if_pos rfl] at hrest
    have hEOF : EOF = 0 := congrArg Prod.fst (Option.some.inj hrest)
    exact absurd hEOF (by decide)

/-- One event and four samples of padding. -/
theorem dtmf_generate_one_event :
    ∃ events, readEvents ['0', '\t', '4', '\t', '1', '\n'] = some events ∧
      (Generated (8 * 1) events
          { bytes := headerBytes (outputHeader 8) ++ List.replicate 16 0 } ↔
        GeneratesExactly (8 * 1) events) :=
  dtmf_generate_iff ⟨fun _ _ => 0, fun _ _ _ => 0, fun _ => 0⟩ 1 (by decide)
    ['0', '\t', '4', '\t', '1', '\n']
    { bytes := headerBytes (outputHeader 8) ++ List.replicate 16 0 } rfl

/-- Without events nine samples are written for a duration of eight. -/
theorem dtmf_generate_no_event :
    dtmf_generate ⟨fun _ _ => 0, fun _ _ _ => 0, fun _ => 0⟩ none [] { bytes := [] } 8 =
        some (0, { bytes := headerBytes (outputHeader 8) ++ List.replicate 18 0 }) ∧
      readEvents [] = some [] ∧
      ¬ Generated 8 [] { bytes := headerBytes (outputHeader 8) ++ List.replicate 18 0 } := by
  refine ⟨rfl, rfl, ?_⟩
  rintro ⟨hp, samples, hbytes, hlen, -⟩
  have hlength := congrArg List.length hbytes
  rw [List.length_append, List.length_append, length_headerBytes, length_headerBytes,
    length_flatMap_sampleBytes, List.length_replicate, hlen] at hlength
  exact absurd hlength (by decide)

end StarterProjects.Dtmf
