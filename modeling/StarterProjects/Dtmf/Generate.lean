import StarterProjects.Dtmf.RoundTrip

/-!
# `dtmf_generate`

The event lines are read with `fgets` into `line_buf`, parsed by `get_txt_idx`, and turned into
samples. Every `fgets` overwrites the front of the buffer only, so what an earlier line left behind
its terminating zero can be read again. An `int` that leaves its range is undefined, and so is a
read past the end of the buffer: the result is then `none`.

What the floating-point expressions come to is a parameter, `Synth`.
-/

namespace StarterProjects.Dtmf

/-! ## The event lines -/

def LINE_BUF_SIZE : Nat := 80

/-- The successive results of `fgets(line_buf, LINE_BUF_SIZE, events_in)`: `room` characters fit
behind those that are stored already. -/
def fgetsLines (room : Nat) (stored : List Char) : List Char → List (List Char)
  | [] => if stored = [] then [] else [stored]
  | c :: cs =>
      if c = '\n' ∨ room ≤ 1 then (stored ++ [c]) :: fgetsLines (LINE_BUF_SIZE - 1) [] cs
      else fgetsLines (room - 1) (stored ++ [c]) cs

/-- The buffer after a line has been stored, with its terminating zero. -/
def storeLine (line line_buf : List Char) : List Char :=
  line ++ '\x00' :: line_buf.drop (line.length + 1)

/-- The value of an `int` expression. -/
def int32 (n : Int) : Option Int :=
  if -2147483648 ≤ n ∧ n < 2147483648 then some n else none

/-- The loop of `get_txt_idx`; both characters of its condition cannot be met at once, and it ends
at the first that is no digit. Returns the count and what is left in `*currVal`. -/
def get_txt_idx_loop : List Char → Int → Nat → Option (Nat × Int)
  | [], _, _ => none
  | c :: cs, currVal, count =>
      if c.toNat > 57 ∨ c.toNat < 48 then some (count, currVal.tdiv 10)
      else do
        let currVal ← int32 (currVal + ((c.toNat : Int) - 48))
        let currVal ← int32 (currVal * 10)
        get_txt_idx_loop cs currVal (count + 1)

def get_txt_idx (valPtr : List Char) : Option (Nat × Int) := get_txt_idx_loop valPtr 0 0

/-- An event as the lines give it. -/
structure EventLine where
  curStrIdx : Int
  curEndIdx : Int
  curDTMF : Char

def parseLine (line_buf : List Char) : Option EventLine := do
  let (count, curStrIdx) ← get_txt_idx line_buf
  let strLineBuf := line_buf.drop (count + 1)
  let (count, curEndIdx) ← get_txt_idx strLineBuf
  let strLineBuf := strLineBuf.drop (count + 1)
  let curDTMF ← strLineBuf.head?
  return { curStrIdx, curEndIdx, curDTMF }

/-- The row and the column frequency of a symbol, in Hz. -/
def getCurFreqColRow (curDTMF : Char) : Nat × Nat :=
  match curDTMF with
  | '1' => (697, 1209)
  | '2' => (697, 1336)
  | '3' => (697, 1477)
  | 'A' => (697, 1633)
  | '4' => (770, 1209)
  | '5' => (770, 1336)
  | '6' => (770, 1477)
  | 'B' => (770, 1633)
  | '7' => (852, 1209)
  | '8' => (852, 1336)
  | '9' => (852, 1477)
  | 'C' => (852, 1633)
  | '*' => (941, 1209)
  | '0' => (941, 1336)
  | '#' => (941, 1477)
  | 'D' => (941, 1633)
  | _ => (0, 0)

/-! ## The samples -/

/-- The truncated samples: of a tone at an index, of the same mixed with a noise sample, and of a
noise sample in a gap. -/
structure Synth where
  tone : Nat × Nat → Int → BitVec 16
  mixed : Nat × Nat → Int → BitVec 16 → BitVec 16
  gap : BitVec 16 → BitVec 16

/-- The local variables of `dtmf_generate` that outlive a line, and its two streams. -/
structure GenState where
  prevStrIdx : Int := -1
  prevEndIdx : Int := -1
  prevValChangeOnce : Bool := true
  noise_file_p : Option InFile
  curNoiseSample : BitVec 16 := 0
  audio_out : OutFile

variable (synth : Synth)

/-- One sample of a gap. -/
def writeGap (s : GenState) : GenState :=
  match s.noise_file_p with
  | some f =>
      let read := audio_read_sample s.curNoiseSample f
      { s with
        noise_file_p := some read.2
        curNoiseSample := read.1.2
        audio_out := (audio_write_sample s.audio_out (synth.gap read.1.2)).2 }
  | none => { s with audio_out := (audio_write_sample s.audio_out 0).2 }

/-- One sample of a tone. -/
def writeTone (freqs : Nat × Nat) (i : Int) (s : GenState) : GenState :=
  match s.noise_file_p with
  | some f =>
      let read := audio_read_sample s.curNoiseSample f
      { s with
        noise_file_p := some read.2
        curNoiseSample := read.1.2
        audio_out := (audio_write_sample s.audio_out (synth.mixed freqs i read.1.2)).2 }
  | none => { s with audio_out := (audio_write_sample s.audio_out (synth.tone freqs i)).2 }

/-- `for(int i = first; i < first + n; i++)` over a gap. -/
def gapLoop : Nat → GenState → GenState
  | 0, s => s
  | n + 1, s => gapLoop n (writeGap synth s)

def toneLoop (freqs : Nat × Nat) (i : Int) : Nat → GenState → GenState
  | 0, s => s
  | n + 1, s => toneLoop freqs (i + 1) n (writeTone synth freqs i s)

def padLoop : Nat → OutFile → OutFile
  | 0, out => out
  | n + 1, out => padLoop n (audio_write_sample out 0).2

/-- The body of the loop after a line has been parsed; `none` is its `return EOF`. -/
def genEvent (e : EventLine) (s : GenState) : Option GenState :=
  let freqs := getCurFreqColRow e.curDTMF
  if e.curEndIdx < e.curStrIdx then none
  else if (s.prevStrIdx ≠ -1 ∧ s.prevEndIdx ≠ -1) ∧ e.curStrIdx < s.prevEndIdx then none
  else
    let s :=
      if ¬(s.prevStrIdx ≠ -1 ∧ s.prevEndIdx ≠ -1) ∧ s.prevValChangeOnce ∧ e.curStrIdx > 0 then
        { s with prevStrIdx := 0, prevEndIdx := 0, prevValChangeOnce := false }
      else s
    let s :=
      if s.prevStrIdx ≠ -1 ∧ s.prevEndIdx ≠ -1 then
        gapLoop synth (e.curStrIdx - s.prevEndIdx).toNat s
      else s
    let s := toneLoop synth freqs e.curStrIdx (e.curEndIdx - e.curStrIdx).toNat s
    some { s with prevStrIdx := e.curStrIdx, prevEndIdx := e.curEndIdx }

/-- The loop over the lines, with the value that is returned after it or from it. -/
def genLines : List (List Char) → List Char → GenState → Option (Int × GenState)
  | [], _, s => some (0, s)
  | line :: lines, line_buf, s => do
      let line_buf := storeLine line line_buf
      let e ← parseLine line_buf
      match genEvent synth e s with
      | none => return (EOF, s)
      | some s => genLines lines line_buf s

/-- `line_buf` is a global array, and zero at first. -/
def emptyLineBuf : List Char := List.replicate LINE_BUF_SIZE '\x00'

def outputHeader (length : BitVec 32) : AudioHeader where
  magic_number := AUDIO_MAGIC
  data_offset := AUDIO_DATA_OFFSET
  data_size := length * 2
  encoding := PCM16_ENCODING
  sample_rate := AUDIO_FRAME_RATE
  channels := AUDIO_CHANNELS

/-- `noise_file` is NULL, the name of a file that cannot be opened, or one with these contents. -/
def dtmf_generate (noise_file : Option (Option InFile)) (events_in : List Char)
    (audio_out : OutFile) (length : BitVec 32) : Option (Int × OutFile) := do
  if noise_file = some none then return (EOF, audio_out)
  let ah := outputHeader length
  let audio_out := ((audio_write_header (some audio_out) ah).2).getD audio_out
  let curDataSz := ah.data_size.toInt
  let noise_file_p := noise_file.getD none
  let (ret, s) ← genLines synth (fgetsLines (LINE_BUF_SIZE - 1) [] events_in) emptyLineBuf
    { noise_file_p, audio_out }
  if ret = EOF then return (EOF, s.audio_out)
  return (0, padLoop (curDataSz.tdiv 2 - s.prevEndIdx).toNat s.audio_out)

/-! ## What the comment above the function asks for -/

/-- The events that a list of lines holds, each parsed from the buffer as it is then. -/
def readLines : List (List Char) → List Char → Option (List EventLine)
  | [], _ => some []
  | line :: lines, line_buf => do
      let line_buf := storeLine line line_buf
      let e ← parseLine line_buf
      let es ← readLines lines line_buf
      return e :: es

def readEvents (events_in : List Char) : Option (List EventLine) :=
  readLines (fgetsLines (LINE_BUF_SIZE - 1) [] events_in) emptyLineBuf

/-- A header that announces the samples, and after it so many samples, zero outside the events. -/
def Generated (length : Nat) (events : List EventLine) (out : OutFile) : Prop :=
  ∃ (hp : AudioHeader) (samples : List (BitVec 16)),
    out.bytes = headerBytes hp ++ samples.flatMap sampleBytes ∧
      samples.length = length ∧ hp.data_size.toNat = 2 * length ∧
      ∀ (i : Nat) sample, samples[i]? = some sample → sample ≠ 0 →
        ∃ e ∈ events, e.curStrIdx ≤ i ∧ (i : Int) < e.curEndIdx

end StarterProjects.Dtmf
