import StarterProjects.Dtmf.Samples

/-!
# What `dtmf_generate` writes

The file is described sample by sample, for any events and with or without noise
(`dtmf_generate_exact`). The event that has not ended at an index decides on its sample; behind the
last event there are zeros, without noise, up to the length (`signalLength`).

Every sample up to there takes two bytes of the noise file. The file is read from its first byte
on: its header is noise, too. At its end `audio_read_sample` leaves -1, or for half a word what it
read before.
-/

namespace StarterProjects.Dtmf

open Lib.BigEndian

/-! ## The signal -/

/-- The word of the noise file at the place `i`. -/
def wordAt (f : InFile) (i : Nat) : BitVec 16 := BitVec.ofNat 16 (value ((f.drop (2 * i)).take 2))

/-- What the sample `i` is mixed with. -/
def noiseAt (f : InFile) (i : Nat) : BitVec 16 :=
  if 2 * i + 1 < f.length then wordAt f i
  else if 2 * i + 1 = f.length then (if i = 0 then 0 else wordAt f (i - 1))
  else -1

section Signal

variable (synth : Synth) (noise : Option InFile)

def gapAt (i : Nat) : BitVec 16 :=
  match noise with
  | some f => synth.gap (noiseAt f i)
  | none => 0

def toneAt (freqs : Nat × Nat) (i : Nat) : BitVec 16 :=
  match noise with
  | some f => synth.mixed freqs i (noiseAt f i)
  | none => synth.tone freqs i

/-- The sample at an index, by the first event that ends after it. -/
def signalAt (events : List EventLine) (i : Nat) : BitVec 16 :=
  match events.find? fun e => (i : Int) < e.curEndIdx with
  | some e =>
      if e.curStrIdx ≤ i then toneAt synth noise (getCurFreqColRow e.curDTMF) i
      else gapAt synth noise i
  | none => 0

end Signal

/-- The end of the last event, or -1. -/
def lastEnd : Int → List EventLine → Int
  | low, [] => low
  | _, e :: es => lastEnd e.curEndIdx es

/-- What the padding takes for the length: the data size has 32 bits and a sign, and from `2 ^ 30`
on its half is not the length any more, but lower by a multiple of `2 ^ 31`. -/
def paddedLength (length : BitVec 32) : Int := (length.toNat : Int).bmod (2 ^ 31)

/-- The signal lasts until the last event ends, or for the length if that is more. Where there is
no event it has one sample more than the length: the padding begins at the index -1. -/
def signalLength (length : BitVec 32) (events : List EventLine) : Nat :=
  if events.isEmpty then (paddedLength length + 1).toNat
  else (max (lastEnd (-1) events) (paddedLength length)).toNat

def signal (synth : Synth) (noise : Option InFile) (length : BitVec 32)
    (events : List EventLine) : List (BitVec 16) :=
  (List.range (signalLength length events)).map (signalAt synth noise events)

/-- No event starts before the one in front of it has ended, and none ends before it starts. -/
def OrderedFrom : Int → List EventLine → Prop
  | _, [] => True
  | low, e :: es => low ≤ e.curStrIdx ∧ e.curStrIdx ≤ e.curEndIdx ∧ OrderedFrom e.curEndIdx es

/-! ## One sample -/

/-- The first `k` samples of `v` have been written, each with a word of noise. -/
structure Sounding (v : Nat → BitVec 16) (noise : Option InFile) (start : OutFile) (k : Nat)
    (s : GenState) : Prop where
  out : s.audio_out = writeSamples ((List.range k).map v) start
  file : s.noise_file_p = noise.map (List.drop (2 * k))
  word : ∀ f, noise = some f → s.curNoiseSample = if k = 0 then 0 else noiseAt f (k - 1)

/-- Half a word leaves the sample as it was. -/
theorem audio_read_sample_half (samplep : BitVec 16) (b : Byte) :
    audio_read_sample samplep [b] = ((EOF, samplep), []) := by
  have hread : (BitVec.ofInt 16 (fgetc [b]).1).toInt ≠ EOF := toInt_byte_ne_EOF b
  rw [audio_read_sample, read_bind, if_pos hread]
  rfl

theorem wordAt_eq {f : InFile} {i : Nat} {b c : Byte} {rest : List Byte}
    (h : f.drop (2 * i) = b :: c :: rest) : wordAt f i = BitVec.ofNat 16 (value [b, c]) := by
  rw [wordAt, h]
  rfl

/-- The next word of the noise. -/
theorem read_noise (f : InFile) (k : Nat) :
    (audio_read_sample (if k = 0 then 0 else noiseAt f (k - 1)) (f.drop (2 * k))).1.2 =
        noiseAt f k ∧
      (audio_read_sample (if k = 0 then 0 else noiseAt f (k - 1)) (f.drop (2 * k))).2 =
        f.drop (2 * (k + 1)) := by
  have hlen : (f.drop (2 * k)).length = f.length - 2 * k := List.length_drop
  have hnext : f.drop (2 * (k + 1)) = (f.drop (2 * k)).drop 2 := by
    rw [List.drop_drop, Nat.mul_succ]
  match hf : f.drop (2 * k) with
  | [] =>
    rw [hf, List.length_nil] at hlen
    have hk : noiseAt f k = -1 := by rw [noiseAt, if_neg (by omega), if_neg (by omega)]
    rw [hnext, hf, hk]
    exact ⟨rfl, rfl⟩
  | [b] =>
    rw [hf, List.length_singleton] at hlen
    have hk : noiseAt f k = if k = 0 then 0 else wordAt f (k - 1) := by
      rw [noiseAt, if_neg (by omega), if_pos (by omega)]
    rw [hnext, hf, audio_read_sample_half, hk]
    refine ⟨?_, rfl⟩
    split
    · rfl
    · show noiseAt f (k - 1) = _
      rw [noiseAt, if_pos (by omega)]
  | b :: c :: rest =>
    rw [hf, List.length_cons, List.length_cons] at hlen
    have hk : noiseAt f k = BitVec.ofNat 16 (value [b, c]) := by
      rw [noiseAt, if_pos (by omega), wordAt_eq hf]
    rw [hnext, hf, audio_read_sample_cons, hk]
    exact ⟨rfl, rfl⟩

section Sounding

variable {synth : Synth} {v : Nat → BitVec 16} {noise : Option InFile} {start : OutFile} {k : Nat}
  {s : GenState}

theorem writeSamples_succ (v : Nat → BitVec 16) (k : Nat) (start : OutFile) :
    writeSamples ((List.range (k + 1)).map v) start =
      (audio_write_sample (writeSamples ((List.range k).map v) start) (v k)).2 := by
  rw [List.range_succ, List.map_append, writeSamples_append]
  rfl

/-- A sample more: `mix` of the next word of the noise, or `plain` without noise. -/
theorem Sounding.step (mix : BitVec 16 → BitVec 16) (plain : BitVec 16) {s' : GenState}
    (hs : s' = match s.noise_file_p with
      | some f =>
          let read := audio_read_sample s.curNoiseSample f
          { s with
            noise_file_p := some read.2
            curNoiseSample := read.1.2
            audio_out := (audio_write_sample s.audio_out (mix read.1.2)).2 }
      | none => { s with audio_out := (audio_write_sample s.audio_out plain).2 })
    (hv : v k = match noise with
      | some f => mix (noiseAt f k)
      | none => plain)
    (h : Sounding v noise start k s) : Sounding v noise start (k + 1) s' := by
  cases noise with
  | none =>
    have hfile : s.noise_file_p = none := h.file
    simp only [hfile] at hs
    subst hs
    refine ⟨?_, rfl, fun f hf => nomatch hf⟩
    rw [writeSamples_succ, ← h.out, hv]
  | some f =>
    obtain ⟨hword, hrest⟩ := read_noise f k
    rw [← h.word f rfl] at hword hrest
    have hfile : s.noise_file_p = some (f.drop (2 * k)) := h.file
    simp only [hfile, hword, hrest] at hs
    subst hs
    refine ⟨?_, rfl, fun f' hf => ?_⟩
    · rw [writeSamples_succ, ← h.out, hv]
    · cases hf
      rfl

theorem Sounding.gapLoop {n : Nat} (h : Sounding v noise start k s)
    (hv : ∀ i, k ≤ i → i < k + n → v i = gapAt synth noise i) :
    Sounding v noise start (k + n) (gapLoop synth n s) := by
  induction n generalizing k s with
  | zero => exact h
  | succ n ih =>
    have hstep : Sounding v noise start (k + 1) (writeGap synth s) :=
      .step synth.gap 0 rfl (hv k (Nat.le_refl k) (by omega)) h
    have hrest := ih hstep fun i hi hn => hv i (by omega) (by omega)
    rwa [Nat.add_assoc, Nat.add_comm 1 n] at hrest

theorem Sounding.toneLoop (freqs : Nat × Nat) {n : Nat} (h : Sounding v noise start k s)
    (hv : ∀ i, k ≤ i → i < k + n → v i = toneAt synth noise freqs i) :
    Sounding v noise start (k + n) (toneLoop synth freqs k n s) := by
  induction n generalizing k s with
  | zero => exact h
  | succ n ih =>
    have hstep : Sounding v noise start (k + 1) (writeTone synth freqs k s) :=
      .step (synth.mixed freqs k) (synth.tone freqs k) rfl (hv k (Nat.le_refl k) (by omega)) h
    have hrest := ih hstep fun i hi hn => hv i (by omega) (by omega)
    rwa [Nat.add_assoc, Nat.add_comm 1 n] at hrest

end Sounding

/-! ## One event -/

/-- The indices kept are those of an event, or the first ones. -/
def Ready (s : GenState) : Prop :=
  (s.prevStrIdx = -1 ∧ s.prevEndIdx = -1 ∧ s.prevValChangeOnce = true) ∨
    (0 ≤ s.prevStrIdx ∧ 0 ≤ s.prevEndIdx)

/-- What the loops work on. -/
def GenState.streams (s : GenState) : Option InFile × BitVec 16 × OutFile :=
  (s.noise_file_p, s.curNoiseSample, s.audio_out)

theorem Sounding.congr {v : Nat → BitVec 16} {noise : Option InFile} {start : OutFile} {k : Nat}
    {s s' : GenState} (h : Sounding v noise start k s) (hs : s'.streams = s.streams) :
    Sounding v noise start k s' := by
  simp only [GenState.streams, Prod.mk.injEq] at hs
  obtain ⟨hfile, hword, hout⟩ := hs
  exact ⟨hout.trans h.out, hfile.trans h.file, fun f hf => hword.trans (h.word f hf)⟩

/-- A gap of `n` samples, and then the tone of the event. -/
def GenState.played (synth : Synth) (e : EventLine) (n : Nat) (s : GenState) : GenState :=
  { toneLoop synth (getCurFreqColRow e.curDTMF) e.curStrIdx (e.curEndIdx - e.curStrIdx).toNat
      (gapLoop synth n s) with prevStrIdx := e.curStrIdx, prevEndIdx := e.curEndIdx }

section Events

variable {synth : Synth} {s : GenState} {e : EventLine}

/-- An event is played in its turn. -/
theorem genEvent_run (synth : Synth) (hr : Ready s) (hpos : 0 ≤ e.curStrIdx) :
    if s.prevEndIdx ≤ e.curStrIdx ∧ e.curStrIdx ≤ e.curEndIdx then
      ∃ s₀ : GenState, s₀.streams = s.streams ∧
        genEvent synth e s = some (s₀.played synth e (e.curStrIdx - s.prevEndIdx.toNat).toNat)
    else genEvent synth e s = none := by
  rcases hr with ⟨hstr, hend, honce⟩ | ⟨hstr, hend⟩
  · have hlow : s.prevEndIdx ≤ e.curStrIdx := by omega
    have htoNat : s.prevEndIdx.toNat = 0 := by rw [hend]; rfl
    split
    · next hle =>
      have hback : ¬ e.curEndIdx < e.curStrIdx := Int.not_lt.mpr hle.2
      rw [htoNat, Nat.cast_zero, Int.sub_zero]
      by_cases hzero : 0 < e.curStrIdx
      · refine ⟨{ s with prevStrIdx := 0, prevEndIdx := 0, prevValChangeOnce := false }, rfl, ?_⟩
        simp [genEvent, hback, hstr, hend, honce, hzero, GenState.played]
      · have hnone : e.curStrIdx.toNat = 0 := by omega
        rw [hnone]
        refine ⟨s, rfl, ?_⟩
        simp [genEvent, hback, hstr, hend, honce, hzero, gapLoop, GenState.played]
    · next hnot =>
      have hback : e.curEndIdx < e.curStrIdx := by omega
      rw [genEvent, if_pos hback]
  · have hset : s.prevStrIdx ≠ -1 ∧ s.prevEndIdx ≠ -1 := by omega
    split
    · next hle =>
      have hback : ¬ e.curEndIdx < e.curStrIdx := Int.not_lt.mpr hle.2
      have hearly : ¬ e.curStrIdx < s.prevEndIdx := Int.not_lt.mpr hle.1
      rw [Int.toNat_of_nonneg hend]
      refine ⟨s, rfl, ?_⟩
      simp [genEvent, hback, hset, hearly, GenState.played]
    · next hnot =>
      by_cases hback : e.curEndIdx < e.curStrIdx
      · rw [genEvent, if_pos hback]
      · have hearly : e.curStrIdx < s.prevEndIdx := by omega
        rw [genEvent, if_neg hback, if_pos ⟨hset, hearly⟩]

/-- An event is taken when it is in order, and the next one starts behind it. -/
theorem genEvent_ready {s' : GenState} (hr : Ready s) (hpos : 0 ≤ e.curStrIdx)
    (h : genEvent synth e s = some s') :
    s.prevEndIdx ≤ e.curStrIdx ∧ e.curStrIdx ≤ e.curEndIdx ∧ Ready s' ∧
      s'.prevEndIdx = e.curEndIdx := by
  have hrun := genEvent_run synth hr hpos
  split at hrun
  · next hle =>
    obtain ⟨s₀, -, ht⟩ := hrun
    rw [h] at ht
    cases ht
    exact ⟨hle.1, hle.2, .inr ⟨hpos, Int.le_trans hpos hle.2⟩, rfl⟩
  · rw [h] at hrun
    cases hrun

/-- The samples of the event, where `v` has them right. -/
theorem genEvent_sounding {v : Nat → BitVec 16} {noise : Option InFile} {start : OutFile}
    (hr : Ready s) (h : Sounding v noise start s.prevEndIdx.toNat s)
    (hlow : s.prevEndIdx ≤ e.curStrIdx) (hpos : 0 ≤ e.curStrIdx) (hle : e.curStrIdx ≤ e.curEndIdx)
    (hgap : ∀ i : Nat, s.prevEndIdx ≤ i → (i : Int) < e.curStrIdx → v i = gapAt synth noise i)
    (htone : ∀ i : Nat, e.curStrIdx ≤ i → (i : Int) < e.curEndIdx →
      v i = toneAt synth noise (getCurFreqColRow e.curDTMF) i) :
    ∃ s', genEvent synth e s = some s' ∧ Sounding v noise start s'.prevEndIdx.toNat s' := by
  have hrun := genEvent_run synth hr hpos
  rw [if_pos ⟨hlow, hle⟩] at hrun
  obtain ⟨s₀, hs₀, hs'⟩ := hrun
  refine ⟨_, hs', ?_⟩
  have hgaps : Sounding v noise start e.curStrIdx.toNat
      (gapLoop synth (e.curStrIdx - s.prevEndIdx.toNat).toNat s₀) := by
    have hsum : s.prevEndIdx.toNat + (e.curStrIdx - s.prevEndIdx.toNat).toNat =
        e.curStrIdx.toNat := by omega
    rw [← hsum]
    exact (h.congr hs₀).gapLoop fun i hi hn => hgap i (by omega) (by omega)
  have htones := hgaps.toneLoop (getCurFreqColRow e.curDTMF)
    (n := (e.curEndIdx - e.curStrIdx).toNat) fun i hi hn => htone i (by omega) (by omega)
  have hsum : e.curStrIdx.toNat + (e.curEndIdx - e.curStrIdx).toNat = e.curEndIdx.toNat := by omega
  rw [hsum, Int.toNat_of_nonneg hpos] at htones
  exact htones.congr rfl

end Events

/-! ## All events -/

section Lines

variable {synth : Synth} {noise : Option InFile} {v : Nat → BitVec 16} {start : OutFile}

/-- From `low` on, `v` is what the events ask for. -/
def Agrees (synth : Synth) (noise : Option InFile) (v : Nat → BitVec 16) :
    Int → List EventLine → Prop
  | _, [] => True
  | low, e :: es =>
      (∀ i : Nat, low ≤ i → (i : Int) < e.curStrIdx → v i = gapAt synth noise i) ∧
      (∀ i : Nat, e.curStrIdx ≤ i → (i : Int) < e.curEndIdx →
        v i = toneAt synth noise (getCurFreqColRow e.curDTMF) i) ∧
      Agrees synth noise v e.curEndIdx es

theorem signalAt_event {done es : List EventLine} {e : EventLine} {i : Nat}
    (hdone : ∀ d ∈ done, d.curEndIdx ≤ i) (hi : (i : Int) < e.curEndIdx) :
    signalAt synth noise (done ++ e :: es) i =
      if e.curStrIdx ≤ i then toneAt synth noise (getCurFreqColRow e.curDTMF) i
      else gapAt synth noise i := by
  have hnone : (done.find? fun d => (i : Int) < d.curEndIdx) = none :=
    List.find?_eq_none.mpr fun d hd => by simpa using hdone d hd
  have hfind : ((done ++ e :: es).find? fun d => (i : Int) < d.curEndIdx) = some e := by
    rw [List.find?_append, hnone, Option.none_or, List.find?_cons_of_pos (by simpa using hi)]
  rw [signalAt, hfind]

theorem agrees_signalAt : ∀ {es done : List EventLine} {low : Int}, OrderedFrom low es →
    (∀ d ∈ done, d.curEndIdx ≤ low) →
      Agrees synth noise (signalAt synth noise (done ++ es)) low es
  | [], _, _, _, _ => trivial
  | e :: es, done, low, ⟨hlow, hle, hes⟩, hdone => by
    refine ⟨fun i hi hlt => ?_, fun i hi hlt => ?_, ?_⟩
    · rw [signalAt_event (fun d hd => Int.le_trans (hdone d hd) hi) (by omega), if_neg (by omega)]
    · have hbefore : ∀ d ∈ done, d.curEndIdx ≤ i := fun d hd => by
        have := hdone d hd
        omega
      rw [signalAt_event hbefore hlt, if_pos hi]
    · have hrest : ∀ d ∈ done ++ [e], d.curEndIdx ≤ e.curEndIdx := fun d hd => by
        rcases List.mem_append.mp hd with hd | hd
        · have := hdone d hd
          omega
        · rw [List.mem_singleton.mp hd]
      have hagrees := agrees_signalAt hes hrest
      rwa [List.append_assoc, List.singleton_append] at hagrees

theorem le_lastEnd : ∀ {es : List EventLine} {low : Int}, OrderedFrom low es →
    low ≤ lastEnd low es ∧ ∀ e ∈ es, e.curEndIdx ≤ lastEnd low es
  | [], low, _ => ⟨Int.le_refl low, fun _ he => absurd he List.not_mem_nil⟩
  | e :: es, low, ⟨hlow, hle, hes⟩ => by
    obtain ⟨hlast, hall⟩ := le_lastEnd hes
    refine ⟨Int.le_trans (Int.le_trans hlow hle) hlast, fun d hd => ?_⟩
    rcases List.mem_cons.mp hd with rfl | hd
    · exact hlast
    · exact hall d hd

/-- Half of the data size. -/
theorem outputHeader_tdiv (length : BitVec 32) :
    (outputHeader length).data_size.toInt.tdiv 2 = paddedLength length := by
  have hlt := length.isLt
  have hdouble : ∀ n : Int, (2 * n).tdiv 2 = n := fun n => Int.mul_tdiv_cancel_left n (by decide)
  have hmul : (outputHeader length).data_size.toNat = length.toNat * 2 % 4294967296 := by
    rw [outputHeader, BitVec.toNat_mul]
    rfl
  have hpadded : paddedLength length = (length.toNat : Int).bmod 2147483648 := rfl
  have hsize : (outputHeader length).data_size.toInt = 2 * paddedLength length := by
    rw [hpadded, BitVec.toInt_eq_toNat_cond, hmul, Int.bmod_def]
    split <;> split <;> omega
  rw [hsize, hdouble]

/-- The events and the padding. -/
theorem lastEnd_add_padding {events : List EventLine} (h : OrderedFrom (-1) events)
    (hpos : ∀ e ∈ events, 0 ≤ e.curStrIdx) (length : BitVec 32) :
    (lastEnd (-1) events).toNat + (paddedLength length - lastEnd (-1) events).toNat =
      signalLength length events := by
  cases events with
  | nil =>
    simp [lastEnd, signalLength]
  | cons e es =>
    have hlast := (le_lastEnd h).2 e List.mem_cons_self
    have hstart := hpos e List.mem_cons_self
    have hend := h.2.1
    rw [signalLength, List.isEmpty_cons, if_neg Bool.false_ne_true]
    omega

/-- The signal lasts until every event has ended. -/
theorem le_signalLength {events : List EventLine} (h : OrderedFrom (-1) events) {e : EventLine}
    (he : e ∈ events) (length : BitVec 32) : e.curEndIdx ≤ signalLength length events := by
  have hlast := (le_lastEnd h).2 e he
  have hsome : ¬ events.isEmpty = true := fun hnone => by
    rw [List.isEmpty_iff.mp hnone] at he
    exact absurd he List.not_mem_nil
  rw [signalLength, if_neg hsome]
  omega

/-- Behind the last event. -/
theorem signalAt_after {es : List EventLine} {low : Int} (h : OrderedFrom low es) {i : Nat}
    (hi : lastEnd low es ≤ i) : signalAt synth noise es i = 0 := by
  have hnone : (es.find? fun d => (i : Int) < d.curEndIdx) = none :=
    List.find?_eq_none.mpr fun d hd => by
      have := (le_lastEnd h).2 d hd
      have : ¬ (i : Int) < d.curEndIdx := by omega
      simpa using this
  rw [signalAt, hnone]

theorem readLines_nonneg : ∀ {lines : List (List Char)} {line_buf : List Char}
    {es : List EventLine}, readLines lines line_buf = some es → ∀ e ∈ es, 0 ≤ e.curStrIdx
  | [], _, _, h => by
    cases h
    exact fun _ he => absurd he List.not_mem_nil
  | line :: lines, line_buf, es, h => by
    obtain ⟨e, hparse, hrest⟩ := Option.bind_eq_some_iff.mp h
    obtain ⟨es, hlater, hcons⟩ := Option.bind_eq_some_iff.mp hrest
    cases hcons
    exact List.forall_mem_cons.mpr ⟨parseLine_nonneg hparse, readLines_nonneg hlater⟩

/-- A loop that reaches the end of the lines has found their events in order. -/
theorem genLines_ordered : ∀ {lines : List (List Char)} {line_buf : List Char} {s s' : GenState},
    Ready s → genLines synth lines line_buf s = some (0, s') →
      ∃ es, readLines lines line_buf = some es ∧ OrderedFrom s.prevEndIdx es
  | [], _, _, _, _, _ => ⟨[], rfl, trivial⟩
  | line :: lines, line_buf, s, s', hr, h => by
    obtain ⟨e, hparse, hrest⟩ := Option.bind_eq_some_iff.mp h
    cases hevent : genEvent synth e s with
    | none =>
      rw [hevent] at hrest
      have hEOF : EOF = 0 := congrArg Prod.fst (Option.some.inj hrest)
      exact absurd hEOF (by decide)
    | some s₁ =>
      rw [hevent] at hrest
      obtain ⟨hlow, hle, hr₁, hend⟩ := genEvent_ready hr (parseLine_nonneg hparse) hevent
      obtain ⟨es, hread, hes⟩ := genLines_ordered hr₁ hrest
      refine ⟨e :: es, ?_, hlow, hle, hend ▸ hes⟩
      exact Option.bind_eq_some_iff.mpr ⟨e, hparse, Option.bind_eq_some_iff.mpr ⟨es, hread, rfl⟩⟩

/-- Events in order are played to the end. -/
theorem genLines_sounding : ∀ {lines : List (List Char)} {line_buf : List Char} {s : GenState}
    {es : List EventLine}, Ready s → Sounding v noise start s.prevEndIdx.toNat s →
      readLines lines line_buf = some es → OrderedFrom s.prevEndIdx es →
      Agrees synth noise v s.prevEndIdx es →
        ∃ s', genLines synth lines line_buf s = some (0, s') ∧
          s'.prevEndIdx = lastEnd s.prevEndIdx es ∧ Sounding v noise start s'.prevEndIdx.toNat s'
  | [], _, s, _, _, h, hread, _, _ => by
    cases hread
    exact ⟨s, rfl, rfl, h⟩
  | line :: lines, line_buf, s, es, hr, h, hread, hes, hv => by
    obtain ⟨e, hparse, hrest⟩ := Option.bind_eq_some_iff.mp hread
    obtain ⟨es, hlater, hcons⟩ := Option.bind_eq_some_iff.mp hrest
    cases hcons
    obtain ⟨hlow, hle, hes⟩ := hes
    obtain ⟨hgap, htone, hv⟩ := hv
    have hpos := parseLine_nonneg hparse
    obtain ⟨s₁, hevent, h₁⟩ := genEvent_sounding hr h hlow hpos hle hgap htone
    obtain ⟨-, -, hr₁, hend⟩ := genEvent_ready hr hpos hevent
    rw [← hend] at hes hv
    obtain ⟨s', hlines, hlast, h'⟩ := genLines_sounding hr₁ h₁ hlater hes hv
    refine ⟨s', ?_, hlast.trans (by rw [hend]; rfl), h'⟩
    refine Option.bind_eq_some_iff.mpr ⟨e, hparse, ?_⟩
    rw [hevent]
    exact hlines

/-- The padding: zeros, as the signal has them. -/
theorem Sounding.padLoop {k : Nat} {s : GenState} (h : Sounding v noise start k s) (n : Nat)
    (hv : ∀ i, k ≤ i → v i = 0) :
    padLoop n s.audio_out = writeSamples ((List.range (k + n)).map v) start := by
  have hzeros : List.replicate n (0 : BitVec 16) = (List.range n).map (v <| k + ·) := by
    refine (List.eq_replicate_iff.mpr ⟨by simp, fun b hb => ?_⟩).symm
    obtain ⟨i, -, rfl⟩ := List.mem_map.mp hb
    exact hv _ (Nat.le_add_right k i)
  rw [padLoop_eq, h.out, ← writeSamples_append, hzeros, List.range_add, List.map_append,
    List.map_map]
  rfl

end Lines

/-- The state in which the loop over the lines begins. -/
def GenState.opened (noise : Option InFile) (length : BitVec 32) : GenState where
  noise_file_p := noise
  audio_out := { bytes := headerBytes (outputHeader length) }

theorem sounding_opened (v : Nat → BitVec 16) (noise : Option InFile) (length : BitVec 32) :
    Sounding v noise { bytes := headerBytes (outputHeader length) } 0
      (GenState.opened noise length) where
  out := rfl
  file := by cases noise <;> rfl
  word := fun _ _ => rfl

/-- The whole function, after the noise file has been opened. -/
theorem dtmf_generate_opened (synth : Synth) {noise_file : Option (Option InFile)}
    (hnoise : noise_file ≠ some none) (events_in : List Char) (length : BitVec 32) :
    dtmf_generate synth noise_file events_in { bytes := [] } length =
      (genLines synth (fgetsLines (LINE_BUF_SIZE - 1) [] events_in) emptyLineBuf
        (GenState.opened (noise_file.getD none) length)).bind fun r =>
          if r.1 = EOF then some (EOF, r.2.audio_out)
          else some (0, padLoop
            ((outputHeader length).data_size.toInt.tdiv 2 - r.2.prevEndIdx).toNat
              r.2.audio_out) := by
  have hheader := audio_write_header_eq { bytes := [] } (outputHeader length) rfl
  rw [dtmf_generate, if_neg hnoise]
  simp only [hheader, Option.getD_some, List.nil_append]
  rfl

theorem ready_opened (noise : Option InFile) (length : BitVec 32) :
    Ready (GenState.opened noise length) :=
  .inl ⟨rfl, rfl, rfl⟩

/-- What is written for events in order. -/
theorem dtmf_generate_ordered (synth : Synth) {noise_file : Option (Option InFile)}
    (hnoise : noise_file ≠ some none) {events_in : List Char} {events : List EventLine}
    (hread : readEvents events_in = some events) (hordered : OrderedFrom (-1) events)
    (length : BitVec 32) :
    dtmf_generate synth noise_file events_in { bytes := [] } length =
      some (0, { bytes := headerBytes (outputHeader length) ++
        (signal synth (noise_file.getD none) length events).flatMap sampleBytes }) := by
  obtain ⟨s, hlines, hend, hs⟩ := genLines_sounding (ready_opened _ length)
    (sounding_opened (signalAt synth (noise_file.getD none) events) _ length) hread hordered
    (agrees_signalAt hordered fun _ hd => absurd hd List.not_mem_nil)
  have hlast : s.prevEndIdx = lastEnd (-1) events := hend
  have hpad := hs.padLoop ((outputHeader length).data_size.toInt.tdiv 2 - s.prevEndIdx).toNat
    fun i hi => signalAt_after hordered (by omega)
  rw [dtmf_generate_opened synth hnoise, hlines, Option.bind_some,
    if_neg (show ¬ (0 : Int) = EOF by decide), hpad, writeSamples_eq, hlast, outputHeader_tdiv,
    lastEnd_add_padding hordered (readLines_nonneg hread), signal]

/-- `dtmf_generate` returns 0 exactly on events in order, and this is what it writes then. -/
theorem dtmf_generate_exact (synth : Synth) (noise_file : Option (Option InFile))
    (events_in : List Char) (length : BitVec 32) (out : OutFile) :
    dtmf_generate synth noise_file events_in { bytes := [] } length = some (0, out) ↔
      noise_file ≠ some none ∧ ∃ events, readEvents events_in = some events ∧
        OrderedFrom (-1) events ∧
        out = { bytes := headerBytes (outputHeader length) ++
          (signal synth (noise_file.getD none) length events).flatMap sampleBytes } := by
  by_cases hnoise : noise_file = some none
  · rw [dtmf_generate, if_pos hnoise]
    refine iff_of_false (fun h => ?_) fun h => h.1 hnoise
    have hEOF : EOF = 0 := congrArg Prod.fst (Option.some.inj h)
    exact absurd hEOF (by decide)
  constructor
  · intro h
    have hrun := h
    rw [dtmf_generate_opened synth hnoise] at hrun
    obtain ⟨⟨ret, s⟩, hlines, hrest⟩ := Option.bind_eq_some_iff.mp hrun
    rcases genLines_ret synth hlines with rfl | rfl
    · obtain ⟨events, hread, hordered⟩ := genLines_ordered (ready_opened _ length) hlines
      rw [dtmf_generate_ordered synth hnoise hread hordered] at h
      exact ⟨hnoise, events, hread, hordered, (congrArg Prod.snd (Option.some.inj h)).symm⟩
    · have hEOF : EOF = 0 := congrArg Prod.fst (Option.some.inj hrest)
      exact absurd hEOF (by decide)
  · rintro ⟨-, events, hread, hordered, rfl⟩
    exact dtmf_generate_ordered synth hnoise hread hordered length

end StarterProjects.Dtmf
