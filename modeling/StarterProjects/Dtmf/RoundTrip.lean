import StarterProjects.Dtmf.Header

/-!
# Writing an audio file and reading it back

Each writer appends the big-endian bytes of its argument (`helper_audio_write_header_eq`,
`audio_write_sample_eq`), each reader inverts it (`readFields_headerBytes`,
`audio_read_sample_bytes`), and `audio_round_trip` is a whole file. A byte `0xFF` is `255` in the
16-bit variable that is compared with `EOF`, so no sample is taken for the end of the stream.
-/

namespace StarterProjects.Dtmf

open Lib.BigEndian

/-! ## What is written -/

theorem setWidth_shiftRight (w : BitVec 32) (n : Nat) :
    (w >>> (8 * n)).setWidth 8 = BitVec.ofNat 8 (w.toNat / 256 ^ n) := by
  have hpow : 2 ^ (8 * n) = 256 ^ n := by rw [Nat.pow_mul]
  apply BitVec.eq_of_toNat_eq
  rw [BitVec.toNat_setWidth, BitVec.toNat_ushiftRight, BitVec.toNat_ofNat,
    Nat.shiftRight_eq_div_pow, hpow]

theorem writeBytes_eq (curVar : BitVec 32) (n : Nat) (out : OutFile) :
    writeBytes curVar n out = { out with bytes := out.bytes ++ bytes n curVar.toNat } := by
  induction n generalizing out with
  | zero => simp [writeBytes, bytes]
  | succ n ih => simp [writeBytes, ih, OutFile.putChar, bytes, setWidth_shiftRight]

theorem helper_audio_write_header_eq (out : OutFile) (curVar : BitVec 32) :
    helper_audio_write_header out curVar =
      { out with bytes := out.bytes ++ bytes 4 curVar.toNat } :=
  writeBytes_eq curVar 4 out

/-- The 24 bytes of a header. -/
def headerBytes (hp : AudioHeader) : List Byte :=
  bytes 4 hp.magic_number.toNat ++ bytes 4 hp.data_offset.toNat ++ bytes 4 hp.data_size.toNat ++
    bytes 4 hp.encoding.toNat ++ bytes 4 hp.sample_rate.toNat ++ bytes 4 hp.channels.toNat

theorem audio_write_header_eq (out : OutFile) (hp : AudioHeader) (h : out.eof = false) :
    audio_write_header (some out) hp =
      (0, some { out with bytes := out.bytes ++ headerBytes hp }) := by
  simp [audio_write_header, h, helper_audio_write_header_eq, headerBytes]

/-- The two bytes of a sample. -/
def sampleBytes (sample : BitVec 16) : List Byte := bytes 2 sample.toNat

theorem length_flatMap_sampleBytes (samples : List (BitVec 16)) :
    (samples.flatMap sampleBytes).length = 2 * samples.length := by
  induction samples with
  | nil => rfl
  | cons sample samples ih =>
      rw [List.flatMap_cons, List.length_append, ih, sampleBytes, length_bytes, List.length_cons]
      omega

theorem setWidth_high (sample : BitVec 16) :
    ((sample.signExtend 32 &&& 0xFF00).sshiftRight 8).setWidth 8 =
      BitVec.ofNat 8 (sample.toNat / 256) := by
  have mask : ∀ i : Fin 8, (0xFF00 : BitVec 32).getLsbD (8 + i) = true := by decide
  have hdiv : sample.toNat / 256 = sample.toNat >>> 8 := by rw [Nat.shiftRight_eq_div_pow]
  apply BitVec.eq_of_getLsbD_eq
  intro i hi
  have hmask := mask ⟨i, hi⟩
  have hword : 8 + i < 32 := by omega
  have hsample : 8 + i < 16 := by omega
  rw [BitVec.getLsbD_setWidth, BitVec.getLsbD_sshiftRight, BitVec.getLsbD_and,
    BitVec.getLsbD_signExtend, hmask, hdiv, BitVec.getLsbD_ofNat, Nat.testBit_shiftRight,
    BitVec.testBit_toNat]
  simp [hi, hword, hsample]
  omega

theorem setWidth_low (sample : BitVec 16) :
    (sample.signExtend 32 &&& 0x00FF).setWidth 8 = BitVec.ofNat 8 sample.toNat := by
  have mask : ∀ i : Fin 8, (0x00FF : BitVec 32).getLsbD i = true := by decide
  apply BitVec.eq_of_getLsbD_eq
  intro i hi
  have hmask := mask ⟨i, hi⟩
  have hword : i < 32 := by omega
  have hsample : i < 16 := by omega
  rw [BitVec.getLsbD_setWidth, BitVec.getLsbD_and, BitVec.getLsbD_signExtend, hmask,
    BitVec.getLsbD_ofNat, BitVec.testBit_toNat]
  simp [hi, hword, hsample]

theorem audio_write_sample_eq (out : OutFile) (sample : BitVec 16) :
    audio_write_sample out sample = (0, { out with bytes := out.bytes ++ sampleBytes sample }) := by
  have hwritten : sampleBytes sample =
      [BitVec.ofNat 8 (sample.toNat / 256), BitVec.ofNat 8 sample.toNat] := by
    simp only [sampleBytes, bytes, pow_one, pow_zero, Nat.div_one]
  simp only [audio_write_sample, OutFile.putChar, setWidth_high, setWidth_low, hwritten,
    List.append_assoc, List.singleton_append]

/-- One call of `audio_write_sample` for each sample. -/
def writeSamples (samples : List (BitVec 16)) (out : OutFile) : OutFile :=
  samples.foldl (fun out sample => (audio_write_sample out sample).2) out

theorem writeSamples_eq (samples : List (BitVec 16)) (out : OutFile) :
    writeSamples samples out =
      { out with bytes := out.bytes ++ samples.flatMap sampleBytes } := by
  induction samples generalizing out with
  | nil => simp [writeSamples]
  | cons sample samples ih =>
      have hstep : writeSamples (sample :: samples) out =
          writeSamples samples (audio_write_sample out sample).2 := rfl
      rw [hstep, ih, audio_write_sample_eq, List.flatMap_cons, List.append_assoc]

/-! ## What is read back -/

theorem traverse_bytes (w : BitVec 32) (rest : List Byte) :
    traverse_audio_file_header (bytes 4 w.toNat ++ rest) = (w, rest) := by
  have hlt := w.isLt
  have hlen := length_bytes 4 w.toNat
  have hword : (headerWord (bytes 4 w.toNat ++ rest) 0).toNat = w.toNat := by
    rw [headerWord_eq (by simp), bigEndianAt, List.drop_zero, List.take_left' hlen, value_bytes]
    exact Nat.mod_eq_of_lt hlt
  rw [traverse_eq, List.drop_left' hlen, BitVec.eq_of_toNat_eq hword]

theorem readFields_headerBytes (hp : AudioHeader) (rest : List Byte) :
    readFields (headerBytes hp ++ rest) = (hp, rest) := by
  simp only [readFields, headerBytes, List.append_assoc, read_bind, read_pure, traverse_bytes]

/-- A byte in the 16-bit variable is not `EOF`. -/
theorem toInt_byte_ne_EOF (b : Byte) : (BitVec.ofInt 16 (b.toNat : Int)).toInt ≠ EOF := by
  have hb := b.isLt
  rw [BitVec.toInt_ofInt, EOF, Int.bmod_eq_of_le (by omega) (by omega)]
  omega

theorem audio_read_sample_cons (samplep : BitVec 16) (b c : Byte) (rest : List Byte) :
    audio_read_sample samplep (b :: c :: rest) = ((0, BitVec.ofNat 16 (value [b, c])), rest) := by
  have cleared : ∀ x : BitVec 16, 0 ^^^ x = x := fun x => BitVec.zero_xor
  have hb := b.isLt
  have hfirst : (BitVec.ofNat 16 b.toNat).toNat = b.toNat := by
    rw [BitVec.toNat_ofNat]
    exact Nat.mod_eq_of_lt (by omega)
  have joined := toNat_shiftIn (BitVec.ofNat 16 b.toNat) c (by omega)
  have hfits : value [b, c] < 2 ^ 16 := by simpa using value_lt [b, c]
  have hvalue : BitVec.ofInt 16 (b.toNat : Int) <<< 8 ^^^ BitVec.ofInt 16 (c.toNat : Int) =
      BitVec.ofNat 16 (value [b, c]) := by
    apply BitVec.eq_of_toNat_eq
    rw [BitVec.ofInt_natCast, BitVec.ofInt_natCast, joined, hfirst, BitVec.toNat_ofNat,
      Nat.mod_eq_of_lt hfits]
    simp [value]
  have hread1 : (BitVec.ofInt 16 (fgetc (b :: c :: rest)).1).toInt ≠ EOF := toInt_byte_ne_EOF b
  have hread2 : (BitVec.ofInt 16 (fgetc (c :: rest)).1).toInt ≠ EOF := toInt_byte_ne_EOF c
  rw [audio_read_sample, read_bind, if_pos hread1]
  change (fgetc >>= _ : StateM InFile (Int × BitVec 16)) (c :: rest) = _
  rw [read_bind, if_pos hread2, cleared]
  exact congrArg (fun w => ((0, w), rest)) hvalue

/-- A written sample is read back. -/
theorem audio_read_sample_bytes (samplep sample : BitVec 16) (rest : List Byte) :
    audio_read_sample samplep (sampleBytes sample ++ rest) = ((0, sample), rest) := by
  have hvalue : value (bytes 2 sample.toNat) = sample.toNat := by
    rw [value_bytes]
    exact Nat.mod_eq_of_lt sample.isLt
  have hread := audio_read_sample_cons samplep (BitVec.ofNat 8 (sample.toNat / 256 ^ 1))
    (BitVec.ofNat 8 (sample.toNat / 256 ^ 0)) rest
  rw [show [BitVec.ofNat 8 (sample.toNat / 256 ^ 1), BitVec.ofNat 8 (sample.toNat / 256 ^ 0)] =
    bytes 2 sample.toNat from rfl, hvalue, BitVec.ofNat_toNat, BitVec.setWidth_eq] at hread
  exact hread

/-- Successive calls of `audio_read_sample` with one variable: what each returns, and what it
leaves in the variable. -/
def readSamples : Nat → BitVec 16 → StateM InFile (List (Int × BitVec 16))
  | 0, _ => return []
  | n + 1, samplep => do
      let read ← audio_read_sample samplep
      let reads ← readSamples n read.2
      return read :: reads

/-- As many calls as there are samples return the samples, and the next one `EOF`. -/
theorem readSamples_flatMap (samples : List (BitVec 16)) (samplep : BitVec 16) :
    readSamples (samples.length + 1) samplep (samples.flatMap sampleBytes) =
      (samples.map (fun sample => (0, sample)) ++ [(EOF, -1)], []) := by
  induction samples generalizing samplep with
  | nil => rfl
  | cons sample samples ih =>
      rw [List.flatMap_cons, List.length_cons, readSamples]
      simp only [read_bind, read_pure, audio_read_sample_bytes, ih, List.map_cons,
        List.cons_append]

/-- The headers that are written and accepted. -/
structure AudioHeader.Standard (hp : AudioHeader) : Prop where
  magic : hp.magic_number = AUDIO_MAGIC
  offset : hp.data_offset = 24
  encoding : hp.encoding = 3
  rate : hp.sample_rate = 8000
  channels : hp.channels = 1

theorem audio_read_header_headerBytes {hp : AudioHeader} (hp' : AudioHeader) (h : hp.Standard)
    (rest : List Byte) :
    audio_read_header (some (headerBytes hp ++ rest)) hp' =
      { ret := 0, hp := hp, rest := some rest } := by
  have hcheck : check_audio_header hp.magic_number hp.data_offset hp.data_size hp.encoding
      hp.sample_rate hp.channels ≠ 0 := by
    rw [Ne, check_audio_header_eq_zero, not_not, h.magic, h.offset, h.encoding, h.rate, h.channels]
    decide
  have hoffset : (hp.data_offset - 24).toInt.toNat = 0 := by
    rw [h.offset]
    decide
  simp only [audio_read_header, readFields_headerBytes, if_neg hcheck, hoffset]
  rfl

/-- A file is read back as it was written: the same header, the same samples in order, and then
the end of the stream. -/
theorem audio_round_trip {hp : AudioHeader} (h : hp.Standard) (samples : List (BitVec 16))
    (hp' : AudioHeader) (samplep : BitVec 16) :
    ∃ out, audio_write_header (some { bytes := [] }) hp = (0, some out) ∧
      ∃ rest, audio_read_header (some (writeSamples samples out).bytes) hp' =
          { ret := 0, hp := hp, rest := some rest } ∧
        readSamples (samples.length + 1) samplep rest =
          (samples.map (fun sample => (0, sample)) ++ [(EOF, -1)], []) := by
  refine ⟨_, audio_write_header_eq _ hp rfl, samples.flatMap sampleBytes, ?_,
    readSamples_flatMap samples samplep⟩
  rw [writeSamples_eq, List.nil_append]
  exact audio_read_header_headerBytes hp' h (samples.flatMap sampleBytes)

/-- The bytes `0xFF` and negative samples included. -/
theorem audio_round_trip_ff :
    ∃ out, audio_write_header (some { bytes := [] }) ⟨AUDIO_MAGIC, 24, 8, 3, 8000, 1⟩ =
        (0, some out) ∧
      ∃ rest, audio_read_header (some (writeSamples [-1, 0xFF, 0xFF00, -32768] out).bytes)
            ⟨0, 0, 0, 0, 0, 0⟩ =
          { ret := 0, hp := ⟨AUDIO_MAGIC, 24, 8, 3, 8000, 1⟩, rest := some rest } ∧
        readSamples 5 0 rest =
          ([(0, -1), (0, 0xFF), (0, 0xFF00), (0, -32768), (EOF, -1)], []) :=
  audio_round_trip
    (show AudioHeader.Standard ⟨AUDIO_MAGIC, 24, 8, 3, 8000, 1⟩ from ⟨rfl, rfl, rfl, rfl, rfl⟩)
    [-1, 0xFF, 0xFF00, -32768] ⟨0, 0, 0, 0, 0, 0⟩ 0

end StarterProjects.Dtmf
