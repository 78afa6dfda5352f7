import StarterProjects.Dtmf.Audio

/-!
# The header of an audio file

What the header reader decodes on every stream, and which streams it accepts.

The end of the stream reaches the header as `0xFFFFFFFF`, shifted and XORed into a word like any
byte. `traverse_eq` gives the word for every stream, complete or not. A complete word is the
big-endian number of its four bytes (`headerWord_eq`); the low byte of any word is the low byte of
what the fourth `fgetc` returned (`headerWord_low`). The last check is what protects the reader:
the low byte of the channels is `0xFF` on every stream that ends inside the header, and `1` is
asked for.
-/

namespace StarterProjects.Dtmf

open Lib.BigEndian

/-- What `fgetc` returns after `n` other calls. -/
def getcAt (f : InFile) (n : Nat) : Int :=
  match f[n]? with
  | some c => c.toNat
  | none => EOF

/-- The word that `traverse_audio_file_header` makes of the four values that start at `n`. -/
def headerWord (f : InFile) (n : Nat) : BitVec 32 :=
  ((((BitVec.ofInt 32 (getcAt f n)) <<< 8 ^^^ BitVec.ofInt 32 (getcAt f (n + 1))) <<< 8
    ^^^ BitVec.ofInt 32 (getcAt f (n + 2))) <<< 8) ^^^ BitVec.ofInt 32 (getcAt f (n + 3))

/-- The number that the four bytes from the `n`-th on stand for. -/
def bigEndianAt (f : InFile) (n : Nat) : Nat :=
  value ((f.drop n).take 4)

theorem getcAt_of_lt {f : InFile} {n : Nat} (h : n < f.length) : getcAt f n = f[n].toNat := by
  rw [getcAt, List.getElem?_eq_getElem h]

theorem getcAt_of_le {f : InFile} {n : Nat} (h : f.length ≤ n) : getcAt f n = EOF := by
  rw [getcAt, List.getElem?_eq_none h]

theorem getcAt_drop (f : InFile) (k n : Nat) : getcAt (f.drop k) n = getcAt f (k + n) := by
  rw [getcAt, getcAt, List.getElem?_drop]

theorem read_pure {α : Type} (a : α) (f : InFile) : (pure a : StateM InFile α) f = (a, f) := rfl

theorem read_bind {α β : Type} (m : StateM InFile α) (k : α → StateM InFile β) (f : InFile) :
    (m >>= k) f = k (m f).1 (m f).2 := rfl

theorem fgetc_eq (f : InFile) : fgetc f = (getcAt f 0, f.drop 1) := by
  cases f with
  | nil => rfl
  | cons c cs => rfl

theorem traverse_eq (f : InFile) :
    traverse_audio_file_header f = (headerWord f 0, f.drop 4) := by
  have step : ∀ k, fgetc (f.drop k) = (getcAt f k, f.drop (k + 1)) := by
    intro k
    rw [fgetc_eq, getcAt_drop, List.drop_drop, Nat.add_zero]
  have first : fgetc f = (getcAt f 0, f.drop 1) := fgetc_eq f
  have cleared : ∀ x : BitVec 32, 0 ^^^ x = x := fun x => BitVec.zero_xor
  simp only [traverse_audio_file_header, read_bind, read_pure, first, step, headerWord, cleared]

theorem headerWord_drop (f : InFile) (k n : Nat) :
    headerWord (f.drop k) n = headerWord f (k + n) := by
  simp only [headerWord, getcAt_drop, Nat.add_assoc]

/-- The six words, wherever the stream ends. -/
theorem readFields_eq (f : InFile) :
    readFields f =
      ({ magic_number := headerWord f 0, data_offset := headerWord f 4,
         data_size := headerWord f 8, encoding := headerWord f 12,
         sample_rate := headerWord f 16, channels := headerWord f 20 }, f.drop 24) := by
  simp only [readFields, read_bind, read_pure, traverse_eq, headerWord_drop, List.drop_drop]

/-- A complete word is the big-endian number of its bytes. -/
theorem headerWord_eq {f : InFile} {n : Nat} (h : n + 4 ≤ f.length) :
    (headerWord f n).toNat = bigEndianAt f n := by
  have bytesHere : (f.drop n).take 4 = [f[n], f[n + 1], f[n + 2], f[n + 3]] := by
    rw [List.drop_eq_getElem_cons (by omega), List.drop_eq_getElem_cons (by omega),
      List.drop_eq_getElem_cons (by omega), List.drop_eq_getElem_cons (by omega)]
    rfl
  have getcWord : ∀ k (hk : k < f.length),
      BitVec.ofInt 32 (getcAt f k) = BitVec.ofNat 32 f[k].toNat := by
    intro k hk
    rw [getcAt_of_lt hk, BitVec.ofInt_natCast]
  have h0 := f[n].isLt
  have h1 := f[n + 1].isLt
  have h2 := f[n + 2].isLt
  have h3 := f[n + 3].isLt
  have start : (BitVec.ofNat 32 f[n].toNat).toNat = f[n].toNat := by
    rw [BitVec.toNat_ofNat]
    exact Nat.mod_eq_of_lt (by omega)
  -- No partial word reaches the top byte before the last shift, so nothing is lost.
  have second := toNat_shiftIn (BitVec.ofNat 32 f[n].toNat) f[n + 1] (by omega)
  have third := toNat_shiftIn _ f[n + 2] (by rw [second]; omega)
  have fourth := toNat_shiftIn _ f[n + 3] (by rw [third, second]; omega)
  rw [headerWord, getcWord n (by omega), getcWord (n + 1) (by omega), getcWord (n + 2) (by omega),
    getcWord (n + 3) (by omega), fourth, third, second, start, bigEndianAt, bytesHere]
  simp [value]

/-- Whatever was read before, the low byte of a word is that of the last value. -/
theorem headerWord_low (f : InFile) (n : Nat) :
    (headerWord f n).setWidth 8 = (BitVec.ofInt 32 (getcAt f (n + 3))).setWidth 8 := by
  apply BitVec.eq_of_getLsbD_eq
  intro i hi
  simp [headerWord, hi]

/-- No word whose last byte is missing is `1`. -/
theorem headerWord_ne_one {f : InFile} {n : Nat} (h : f.length ≤ n + 3) : headerWord f n ≠ 1 := by
  intro hone
  have hlow := headerWord_low f n
  rw [hone, getcAt_of_le h] at hlow
  exact absurd hlow (by decide)

/-- The words that `audio_read_header` accepts. -/
structure AcceptedWords (f : InFile) : Prop where
  complete : 24 ≤ f.length
  magic : bigEndianAt f 0 = 0x2e736e64
  offset : 24 ≤ bigEndianAt f 4
  encoding : bigEndianAt f 12 = 3
  rate : bigEndianAt f 16 = 8000
  channels : bigEndianAt f 20 = 1

theorem check_audio_header_eq_zero (magic_number data_offset data_size encoding sample_rate
    channels : BitVec 32) :
    check_audio_header magic_number data_offset data_size encoding sample_rate channels = 0 ↔
      ¬(magic_number = AUDIO_MAGIC ∧ 24 ≤ data_offset.toNat ∧ encoding = PCM16_ENCODING ∧
        sample_rate = AUDIO_FRAME_RATE ∧ channels = AUDIO_CHANNELS) := by
  have hlt : data_offset < AUDIO_DATA_OFFSET ↔ ¬ 24 ≤ data_offset.toNat := by
    rw [BitVec.lt_def, Nat.not_le]
    rfl
  simp only [check_audio_header, hlt]
  split_ifs <;> simp_all

/-- A word is one of the constants exactly when the number of its bytes is. -/
theorem headerWord_eq_iff {f : InFile} {n : Nat} (h : n + 4 ≤ f.length) (w : BitVec 32) :
    headerWord f n = w ↔ bigEndianAt f n = w.toNat := by
  rw [← headerWord_eq h]
  exact ⟨fun heq => by rw [heq], BitVec.eq_of_toNat_eq⟩

/-- The reader accepts exactly the streams that hold the six words it asks for, and it accepts
no stream that ends inside the header. -/
theorem audio_read_header_ret (f : InFile) (hp : AudioHeader) :
    (audio_read_header (some f) hp).ret = 0 ↔ AcceptedWords f := by
  have hret : (audio_read_header (some f) hp).ret = 0 ↔
      (headerWord f 0 = AUDIO_MAGIC ∧ 24 ≤ (headerWord f 4).toNat ∧
        headerWord f 12 = PCM16_ENCODING ∧ headerWord f 16 = AUDIO_FRAME_RATE ∧
        headerWord f 20 = AUDIO_CHANNELS) := by
    simp only [audio_read_header, readFields_eq, check_audio_header_eq_zero]
    split_ifs with hwords
    · exact ⟨fun _ => hwords, fun _ => rfl⟩
    · have hEOF : EOF ≠ 0 := by decide
      exact ⟨fun h => absurd h hEOF, fun h => absurd h hwords⟩
  rw [hret]
  by_cases hlen : 24 ≤ f.length
  · rw [headerWord_eq_iff (by omega), headerWord_eq (by omega), headerWord_eq_iff (by omega),
      headerWord_eq_iff (by omega), headerWord_eq_iff (by omega)]
    exact ⟨fun ⟨hm, ho, he, hr, hc⟩ => ⟨hlen, hm, ho, he, hr, hc⟩,
      fun h => ⟨h.magic, h.offset, h.encoding, h.rate, h.channels⟩⟩
  · -- The last byte of the channels is missing.
    have hchannels : headerWord f 20 ≠ AUDIO_CHANNELS := headerWord_ne_one (by omega)
    exact ⟨fun h => absurd h.2.2.2.2 hchannels, fun h => absurd h.complete hlen⟩

end StarterProjects.Dtmf
