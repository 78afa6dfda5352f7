import StarterProjects.Lib.BigEndian

/-!
# `audio.c`

The functions that read and write the header and the samples of an audio file. An input stream
is the list of the bytes that are left, and `fgetc` at its end returns `EOF`. The readers store
what `fgetc` returns into a word before they look at it: a 32-bit word in the header, which is
never compared with `EOF`, and a 16-bit word in a sample, which is.

The functions are translated first. Then come the words that the header reader decodes, whether
or not the stream is long enough (`traverse_eq`), and the six words it accepts.
-/

namespace StarterProjects.Dtmf

open Lib.BigEndian

/-! ## Streams -/

def EOF : Int := -1

/-- What is left of a stream that is read. -/
abbrev InFile := List Byte

/-- A stream that is written: its bytes so far, and what `feof` returns. -/
structure OutFile where
  bytes : List Byte
  eof : Bool := false

def fgetc : StateM InFile Int := fun curFile =>
  match curFile with
  | [] => (EOF, [])
  | c :: cs => (c.toNat, cs)

/-- `fprintf(out, "%c", c)`: the argument is converted to `unsigned char`. -/
def OutFile.putChar {w : Nat} (out : OutFile) (c : BitVec w) : OutFile :=
  { out with bytes := out.bytes ++ [c.setWidth 8] }

/-! ## The header -/

def AUDIO_MAGIC : BitVec 32 := 0x2e736e64

def PCM16_ENCODING : BitVec 32 := 3

def AUDIO_FRAME_RATE : BitVec 32 := 8000

def AUDIO_CHANNELS : BitVec 32 := 1

def AUDIO_DATA_OFFSET : BitVec 32 := 24

structure AudioHeader where
  magic_number : BitVec 32
  data_offset : BitVec 32
  data_size : BitVec 32
  encoding : BitVec 32
  sample_rate : BitVec 32
  channels : BitVec 32
  deriving DecidableEq

def traverse_audio_file_header : StateM InFile (BitVec 32) := do
  let mut fullHex : BitVec 32 := 0
  let mut curHex : BitVec 32 := 0
  curHex := BitVec.ofInt 32 (← fgetc)
  fullHex := fullHex ^^^ curHex
  fullHex := fullHex <<< 8
  curHex := BitVec.ofInt 32 (← fgetc)
  fullHex := fullHex ^^^ curHex
  fullHex := fullHex <<< 8
  curHex := BitVec.ofInt 32 (← fgetc)
  fullHex := fullHex ^^^ curHex
  fullHex := fullHex <<< 8
  curHex := BitVec.ofInt 32 (← fgetc)
  fullHex := fullHex ^^^ curHex
  return fullHex

def check_audio_header (magic_number data_offset _data_size encoding sample_rate
    channels : BitVec 32) : Int :=
  if magic_number ≠ AUDIO_MAGIC then 0
  else if data_offset < AUDIO_DATA_OFFSET then 0
  else if encoding ≠ PCM16_ENCODING then 0
  else if sample_rate ≠ AUDIO_FRAME_RATE then 0
  else if channels ≠ AUDIO_CHANNELS then 0
  else 1

/-- The six calls of `audio_read_header`, in order. -/
def readFields : StateM InFile AudioHeader := do
  let magic_number ← traverse_audio_file_header
  let data_offset ← traverse_audio_file_header
  let data_size ← traverse_audio_file_header
  let encoding ← traverse_audio_file_header
  let sample_rate ← traverse_audio_file_header
  let channels ← traverse_audio_file_header
  return { magic_number, data_offset, data_size, encoding, sample_rate, channels }

/-- The loop over the annotation: so many calls of `fgetc`. -/
def skipBytes : Nat → StateM InFile Unit
  | 0 => return ()
  | n + 1 => do
      let _ ← fgetc
      skipBytes n

/-- What `audio_read_header` returns and leaves: its value, `*hp`, the stream, and the text it
prints on the standard output. -/
structure HeaderRead where
  ret : Int
  hp : AudioHeader
  rest : Option InFile
  said : String := ""

def audio_read_header (file : Option InFile) (hp : AudioHeader) : HeaderRead :=
  match file with
  | none =>
      { ret := EOF, hp := hp, rest := none
        said := "File inputted is NULL, please run program again and input correct absolute file path. \n" }
  | some curFile =>
      let read := readFields curFile
      let hp := read.1
      if check_audio_header hp.magic_number hp.data_offset hp.data_size hp.encoding
          hp.sample_rate hp.channels = 0 then
        { ret := EOF, hp := hp, rest := some read.2, said := "AUDIO HEADER CHECK NOT PASSED! \n" }
      else
        let headerOffset := (hp.data_offset - 24).toInt
        { ret := 0, hp := hp, rest := some (skipBytes headerOffset.toNat read.2).2 }

/-- The loop of `helper_audio_write_header`: `count + 1` bytes are still to be written. -/
def writeBytes (curVar : BitVec 32) : Nat → OutFile → OutFile
  | 0, out => out
  | count + 1, out => writeBytes curVar count (out.putChar (curVar >>> (8 * count)))

def helper_audio_write_header (out : OutFile) (curVar : BitVec 32) : OutFile :=
  writeBytes curVar 4 out

def audio_write_header (file : Option OutFile) (hp : AudioHeader) : Int × Option OutFile :=
  match file with
  | none => (EOF, none)
  | some out =>
      if out.eof then (EOF, some out)
      else
        let out := helper_audio_write_header out hp.magic_number
        let out := helper_audio_write_header out hp.data_offset
        let out := helper_audio_write_header out hp.data_size
        let out := helper_audio_write_header out hp.encoding
        let out := helper_audio_write_header out hp.sample_rate
        let out := helper_audio_write_header out hp.channels
        (0, some out)

/-! ## The samples -/

/-- Returns the function's value and what it leaves in `*samplep`. -/
def audio_read_sample (samplep : BitVec 16) : StateM InFile (Int × BitVec 16) := do
  let mut fullHex : BitVec 16 := 0
  let curHex := BitVec.ofInt 16 (← fgetc)
  if curHex.toInt ≠ EOF then
    fullHex := fullHex ^^^ curHex
    fullHex := fullHex <<< 8
  else
    return (EOF, -1)
  let curHex := BitVec.ofInt 16 (← fgetc)
  if curHex.toInt ≠ EOF then
    fullHex := fullHex ^^^ curHex
  else
    return (EOF, samplep)
  return (0, fullHex)

/-- The sample is promoted to `int` before it is masked and shifted. -/
def audio_write_sample (out : OutFile) (sample : BitVec 16) : Int × OutFile :=
  let promoted := sample.signExtend 32
  let out := out.putChar ((promoted &&& 0xFF00).sshiftRight 8)
  let out := out.putChar (promoted &&& 0x00FF)
  (0, out)

end StarterProjects.Dtmf
