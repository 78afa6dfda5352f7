import StarterProjects.Dtmf.EventLines
import StarterProjects.Dtmf.Hearing
import StarterProjects.Dtmf.Replayed
import StarterProjects.Dtmf.Signal

/-!
# What is generated is detected

From the lines of some events `dtmf_generate` makes a recording, and `dtmf_detect` prints lines for
a recording. Where the events are runs of whole blocks that can be told apart (`Playable`), the
lines that come out are those that went in (`detect_generate`): the blocks of a tone are heard, the
silent ones are not, and the loop puts the runs together again.

A tone may not have the sample -1, which `dtmf_detect` takes for the end of the recording.
-/

namespace StarterProjects.Dtmf

open Lib.Runs Lib.Blocks Lib.Decimal

/-! ## The lines are read -/

/-- Without the newline. -/
def Event.body (e : Event) : List Char :=
  printInt e.startIdx ++ '\t' :: (printInt e.endIdx ++ ['\t', e.symbol])

def Event.line (e : Event) : EventLine := ⟨e.startIdx, e.endIdx, e.symbol⟩

/-- The indices have five digits at most. -/
structure Event.Printable (e : Event) : Prop where
  start : 0 ≤ e.startIdx ∧ e.startIdx < 100000
  stop : 0 ≤ e.endIdx ∧ e.endIdx < 100000
  symbol : e.symbol ≠ '\n'

theorem Event.print_eq (e : Event) : e.print = e.body ++ ['\n'] := by
  simp [Event.print, Event.body]

theorem printInt_short {n : Int} (h : 0 ≤ n ∧ n < 100000) :
    (printInt n).length ≤ 5 ∧ '\n' ∉ printInt n := by
  obtain ⟨m, rfl⟩ := Int.eq_ofNat_of_zero_le h.1
  have hm : m < 10 ^ 5 := by omega
  refine ⟨(Nat.length_toDigits_le_iff (by decide) (by decide)).mpr hm, fun hmem => ?_⟩
  exact absurd (allDigits_toDigits m '\n' hmem) (by decide)

theorem Event.Printable.body {e : Event} (h : e.Printable) :
    e.body.length < LINE_BUF_SIZE - 1 ∧ '\n' ∉ e.body := by
  obtain ⟨hlen, hmem⟩ := printInt_short h.start
  obtain ⟨hlen', hmem'⟩ := printInt_short h.stop
  constructor
  · show e.body.length < 79
    simp only [Event.body, List.length_append, List.length_cons, List.length_nil]
    omega
  · have hsymbol := h.symbol.symm
    simp [Event.body, hmem, hmem', hsymbol]

/-- A line that fits is read at once. -/
theorem fgetsLines_line {line rest : List Char} (hnl : '\n' ∉ line) {room : Nat}
    (hroom : line.length < room) (stored : List Char) :
    fgetsLines room stored (line ++ '\n' :: rest) =
      (stored ++ line ++ ['\n']) :: fgetsLines (LINE_BUF_SIZE - 1) [] rest := by
  induction line generalizing room stored with
  | nil => simp [fgetsLines]
  | cons c line ih =>
    obtain ⟨hc, hline⟩ := not_or.mp (mt List.mem_cons.mpr hnl)
    rw [List.length_cons] at hroom
    have hgo : ¬ (c = '\n' ∨ room ≤ 1) := by
      rintro (h | h)
      · exact hc h.symm
      · omega
    rw [List.cons_append, fgetsLines, if_neg hgo, ih hline (by omega)]
    simp

theorem readLines_print : ∀ {es : List Event} (line_buf : List Char), (∀ e ∈ es, e.Printable) →
    readLines (fgetsLines (LINE_BUF_SIZE - 1) [] (es.flatMap Event.print)) line_buf =
      some (es.map Event.line)
  | [], _, _ => rfl
  | e :: es, line_buf, h => by
    obtain ⟨he, hes⟩ := List.forall_mem_cons.mp h
    obtain ⟨hlen, hnl⟩ := he.body
    have hparse : parseLine (storeLine e.print line_buf) = some e.line := by
      rw [storeLine, show e = ⟨e.startIdx, e.endIdx, e.symbol⟩ from rfl,
        parseLine_print e.symbol he.start.1 he.stop.1]
      have hstart := he.start.2
      have hstop := he.stop.2
      rw [if_pos ⟨by omega, by omega⟩]
      rfl
    rw [List.flatMap_cons, Event.print_eq, List.append_assoc, List.singleton_append,
      fgetsLines_line hnl hlen, List.nil_append, ← Event.print_eq, readLines, hparse]
    simp only [Option.bind_eq_bind, Option.bind_some, readLines_print _ hes]
    rfl

/-! ## The samples of the runs -/

/-- The frequencies of a tone. -/
def freqsOf (t : Tone) : Nat × Nat := (rowFreq t.1, colFreq t.2)

theorem getCurFreqColRow_symbolAt : ∀ r c : Fin 4,
    getCurFreqColRow (symbolAt (4 * (r.val : Int) + (c.val : Int))) = freqsOf (r, c) := by
  decide

theorem symbolAt_ne_newline : ∀ r c : Fin 4,
    symbolAt (4 * (r.val : Int) + (c.val : Int)) ≠ '\n' := by
  decide

def runLines (N : Nat) (rs : List (Run Tone)) : List EventLine :=
  (rs.map (runEvent N)).map Event.line

/-- An index lies in front of the blocks from `m` on where its block does. -/
theorem mul_add_lt_mul_iff {N k n m : Nat} (hn : n < N) : N * k + n < N * m ↔ k < m := by
  constructor
  · intro h
    by_contra hge
    have hmul := Nat.mul_le_mul_left N (not_lt.mp hge)
    omega
  · intro h
    have hmul := Nat.mul_le_mul_left N h
    rw [Nat.mul_succ] at hmul
    omega

section Samples

variable {N : Nat} {synth : Synth}

/-- A sample of a block. -/
theorem signalAt_block (rs : List (Run Tone)) {k n : Nat} (hn : n < N) :
    signalAt synth none (runLines N rs) (N * k + n) =
      match toneAtBlock rs k with
      | some t => synth.tone (freqsOf t) (N * k + n : Nat)
      | none => 0 := by
  have hends : ∀ r : Run Tone, ((N * k + n : Nat) : Int) < (runEvent N r).line.curEndIdx ↔
      k ≤ r.last := fun r => by
    show ((N * k + n : Nat) : Int) < N * (r.last + 1) ↔ _
    have hcast : ((N * (r.last + 1) : Nat) : Int) = N * (r.last + 1) := by push_cast; rfl
    rw [← hcast, Int.ofNat_lt, mul_add_lt_mul_iff hn, Nat.lt_succ_iff]
  have hstarts : ∀ r : Run Tone, (runEvent N r).line.curStrIdx ≤ ((N * k + n : Nat) : Int) ↔
      r.first ≤ k := fun r => by
    show ((N : Int) * r.first) ≤ _ ↔ _
    have hcast : ((N * r.first : Nat) : Int) = N * r.first := by push_cast; rfl
    rw [← hcast, Int.ofNat_le, ← not_lt, mul_add_lt_mul_iff hn, not_lt]
  rw [signalAt, runLines, List.map_map, List.find?_map, toneAtBlock]
  have hpred : (fun e : EventLine => decide (((N * k + n : Nat) : Int) < e.curEndIdx)) ∘
      (Event.line ∘ runEvent N) = fun r : Run Tone => decide (k ≤ r.last) :=
    funext fun r => decide_eq_decide.mpr (hends r)
  rw [hpred]
  cases rs.find? fun r => decide (k ≤ r.last) with
  | none => rfl
  | some r =>
    simp only [Option.map_some, Function.comp_apply, hstarts]
    split
    · exact congrArg (fun freqs => synth.tone freqs _)
        (getCurFreqColRow_symbolAt r.value.1 r.value.2)
    · rfl

end Samples

/-! ## Silent blocks -/

/-- Zeros, and behind them a value next to zero. -/
theorem toneTest_silent {N : ℕ} (hpos : 1 ≤ N) (hmax : N ≤ 65535) {b : Block}
    (hsteps : ∀ x ∈ b.steps, x = 0) (hlast : b.last = 0 ∨ b.last = -1) :
    toneTest N b = heard none := by
  have hzero : ∀ n ∈ Finset.range b.steps.length, b.signal n = 0 := fun n hn => by
    have hlt := Finset.mem_range.mp hn
    have hget : b.samples.getD n 0 = 0 := by
      rw [Block.samples, List.getD_eq_getElem?_getD, List.getElem?_append_left hlt,
        List.getElem?_eq_getElem hlt, Option.getD_some]
      exact hsteps _ (List.getElem_mem hlt)
    rw [Block.signal, hget]
    simp
  have hsmall : b.signal b.steps.length ^ 2 ≤ 1 / 1000 := by
    have hget : b.samples.getD b.steps.length 0 = b.last := by
      rw [Block.samples, List.getD_eq_getElem?_getD, List.getElem?_concat_length, Option.getD_some]
    rw [Block.signal, hget]
    rcases hlast with h | h
    · rw [h, show (0 : BitVec 16).toInt = 0 from rfl]
      norm_num
    · rw [h, show (-1 : BitVec 16).toInt = -1 from rfl]
      norm_num
  -- all powers are those of the last sample
  have hpower : ∀ F, power N F b = 2 / (N : ℝ) ^ 2 * b.signal b.steps.length ^ 2 := fun F => by
    have hlen : b.samples.length = b.steps.length + 1 := by
      rw [Block.samples, List.length_append, List.length_singleton]
    have hturn := Lib.Oscillation.norm_oscillation 8000 F b.steps.length
    simp only [Complex.ofReal_natCast, Complex.ofReal_ofNat] at hturn
    rw [power, hlen, Finset.sum_range_succ, Finset.sum_eq_zero fun n hn => by
      rw [hzero n hn, Complex.ofReal_zero, zero_mul], zero_add, norm_mul, hturn, mul_one,
      Complex.norm_real, Real.norm_eq_abs, sq_abs]
  obtain ⟨p, hp⟩ : ∃ p, p = 2 / (N : ℝ) ^ 2 * b.signal b.steps.length ^ 2 := ⟨_, rfl⟩
  have hp0 : 0 ≤ p := by
    rw [hp]
    positivity
  have hlow : p ≤ 2 / 1000 := by
    have hN : (1 : ℝ) ≤ N := by exact_mod_cast hpos
    have hdiv : 2 / (N : ℝ) ^ 2 ≤ 2 := by
      rw [div_le_iff₀ (by positivity)]
      nlinarith
    rw [hp]
    calc 2 / (N : ℝ) ^ 2 * b.signal b.steps.length ^ 2
        ≤ 2 * (1 / 1000) := mul_le_mul hdiv hsmall (sq_nonneg _) two_pos.le
      _ = 2 / 1000 := by ring
  have hall : ∀ F, goertzel_block N F b = p := fun F => by
    rw [goertzel_block_eq hpos hmax, hpower, hp]
  have hnone : toneOf (fun _ => p) = none := by
    rw [Option.eq_none_iff_forall_ne_some]
    intro i hi
    obtain ⟨hthere, hleads⟩ := (toneOf_eq_some_iff fun _ => hp0).mp hi
    obtain ⟨j, hj⟩ := exists_ne i
    have hlead := hleads j hj
    have := six_db_gt_one
    nlinarith
  have hlevel : ¬ MINUS_20DB ≤ strongest (fun _ : Fin 4 => p) + strongest fun _ : Fin 4 => p := by
    have hstrong : strongest (fun _ : Fin 4 => p) < 1 / 400 := strongest_lt fun _ => by linarith
    norm_num [MINUS_20DB]
    linarith
  simp only [toneTest, hall, hnone, hlevel, false_and, decide_false, heard]

/-! ## The blocks that are read -/

/-- Of a recording without the sample -1: the whole blocks, and perhaps one more of the samples
behind them, at the end of which -1 stands for the next one. -/
theorem detectLoop_unmarked {N : ℕ} (hN : 10 ≤ N) {fuel s : ℕ} {samples : List (BitVec 16)}
    (hfuel : samples.length < fuel) (hmark : -1 ∉ samples) :
    ∃ blocks tail rest,
      detectLoop N fuel s (samples.flatMap sampleBytes) = some (blocks ++ tail, rest) ∧
      blocks.map Block.samples = wholeBlocks N samples ∧
      ∀ b ∈ tail, b.steps = samples.drop (samples.length / N * N) ∧ b.last = -1 := by
  induction fuel generalizing s samples with
  | zero => omega
  | succ fuel ih =>
    have hstop : ([] : List (BitVec 16)).headD (-1) = -1 := rfl
    -- too few samples for a block, all but the last one, or a whole block
    rcases Nat.lt_or_ge samples.length (N - 1) with hlt | hge
    · have hloop := detectLoop_stop hmark hlt hstop fuel s
      have hdiv : samples.length / N = 0 := Nat.div_eq_of_lt (by omega)
      rw [List.append_nil] at hloop
      have hwhole : wholeBlocks N samples = [] := wholeBlocks_of_lt (by omega)
      by_cases hfew : s + samples.length + 2 < N
      · rw [if_pos hfew] at hloop
        exact ⟨[], [], _, hloop, hwhole.symm, fun b hb => absurd hb List.not_mem_nil⟩
      · rw [if_neg hfew] at hloop
        refine ⟨[], [_], _, hloop, hwhole.symm, fun b hb => ?_⟩
        rw [List.mem_singleton.mp hb, hdiv, Nat.zero_mul, List.drop_zero]
        exact ⟨rfl, rfl⟩
    · have hunmarked : -1 ∉ samples.take (N - 1) := fun h => hmark (List.mem_of_mem_take h)
      have hround := detectLoop_full hge hunmarked fuel s
      rw [List.tail_drop, Nat.sub_add_cancel (by omega)] at hround
      rcases Nat.lt_or_ge samples.length N with hlast | hfull
      · -- only the last sample is missing
        obtain ⟨fuel, rfl⟩ : ∃ n, fuel = n + 1 := ⟨fuel - 1, by omega⟩
        have hnext : detectLoop N (fuel + 1) 1 (([] : List (BitVec 16)).flatMap sampleBytes) =
            some ([], []) :=
          (detectLoop_stop List.not_mem_nil (by rw [List.length_nil]; omega) hstop fuel 1).trans
            (congrArg some (if_pos (by rw [List.length_nil]; omega)))
        have hempty : samples.drop N = [] := List.drop_of_length_le (by omega)
        have hempty' : samples.drop (N - 1) = [] := List.drop_of_length_le (by omega)
        have hdiv : samples.length / N = 0 := Nat.div_eq_of_lt hlast
        rw [hempty, hnext, Option.map_some] at hround
        refine ⟨[], [_], _, hround, (wholeBlocks_of_lt hlast).symm, fun b hb => ?_⟩
        rw [List.mem_singleton.mp hb, hdiv, Nat.zero_mul, List.drop_zero, hempty']
        exact ⟨List.take_of_length_le (by omega), rfl⟩
      · have hless : (samples.drop N).length < fuel := by
          rw [List.length_drop]
          omega
        obtain ⟨blocks, tail, rest, hloop, hblocks, htail⟩ :=
          ih (s := 1) hless fun h => hmark (List.mem_of_mem_drop h)
        rw [hloop, Option.map_some] at hround
        refine ⟨_ :: blocks, tail, rest, hround, ?_, fun b hb => ?_⟩
        · have hget : (samples.drop (N - 1)).headD (-1) = samples[N - 1] := by
            rw [List.headD_eq_head?_getD, List.head?_drop, List.getElem?_eq_getElem (by omega),
              Option.getD_some]
          rw [List.map_cons, hblocks, wholeBlocks_of_le (by omega) hfull, Block.samples, hget,
            List.take_append_getElem (by omega), Nat.sub_add_cancel (by omega)]
        · obtain ⟨hsteps, hb1⟩ := htail b hb
          have hdiv : samples.length / N = (samples.length - N) / N + 1 :=
            Nat.div_eq_sub_div (by omega) hfull
          refine ⟨?_, hb1⟩
          rw [hsteps, List.length_drop, List.drop_drop, hdiv, Nat.add_one_mul, Nat.add_comm N]

/-! ## The recording -/

/-- No event starts before the one in front of it has ended. -/
theorem PlayableFrom.ordered {N : Nat} : ∀ {rs : List (Run Tone)} {r : Run Tone},
    PlayableFrom N r rs → OrderedFrom (runEvent N r).endIdx (runLines N rs)
  | [], _, _ => trivial
  | r' :: rs, r, ⟨_, hlt, hle, _, h⟩ => by
    have hnext : (N : Int) * (r.last + 1) ≤ N * r'.first := by
      exact_mod_cast Nat.mul_le_mul_left N hlt
    have hends : (N : Int) * r'.first ≤ N * (r'.last + 1) := by
      exact_mod_cast Nat.mul_le_mul_left N (show r'.first ≤ r'.last + 1 by omega)
    exact ⟨hnext, hends, h.ordered⟩

theorem Playable.ordered {N : Nat} {rs : List (Run Tone)} (h : Playable N rs) :
    OrderedFrom (-1) (runLines N rs) := by
  cases rs with
  | nil => trivial
  | cons r rs =>
    obtain ⟨hfirst, hlast, hrest⟩ := h
    have hends : (N : Int) * r.first ≤ N * (r.last + 1) := by
      exact_mod_cast Nat.mul_le_mul_left N (show r.first ≤ r.last + 1 by omega)
    have hstart : (-1 : Int) ≤ N * r.first := by
      have : (0 : Int) ≤ N * r.first := by positivity
      omega
    exact ⟨hstart, hends, hrest.ordered⟩

theorem PlayableFrom.within {N : Nat} : ∀ {rs : List (Run Tone)} {r : Run Tone},
    PlayableFrom N r rs → ∀ r' ∈ rs, r'.first ≤ r'.last ∧ N * (r'.last + 1) < 32768
  | [], _, _, _, hr' => absurd hr' List.not_mem_nil
  | r₁ :: rs, r, ⟨_, _, hle, _, h⟩, r', hr' => by
    rcases List.mem_cons.mp hr' with rfl | hr'
    · exact ⟨hle, h.fits⟩
    · exact h.within r' hr'

theorem Playable.within {N : Nat} {rs : List (Run Tone)} (h : Playable N rs) :
    ∀ r ∈ rs, r.first ≤ r.last ∧ N * (r.last + 1) < 32768 := by
  cases rs with
  | nil => exact fun r hr => absurd hr List.not_mem_nil
  | cons r rs =>
    obtain ⟨hfirst, hlast, hrest⟩ := h
    intro r' hr'
    rcases List.mem_cons.mp hr' with rfl | hr'
    · exact ⟨by omega, hrest.fits⟩
    · exact hrest.within r' hr'

theorem Playable.printable {N : Nat} {rs : List (Run Tone)} (h : Playable N rs) :
    ∀ e ∈ rs.map (runEvent N), e.Printable := by
  intro e he
  obtain ⟨r, hr, rfl⟩ := List.mem_map.mp he
  obtain ⟨hle, hfits⟩ := h.within r hr
  have hends : N * r.first ≤ N * (r.last + 1) := Nat.mul_le_mul_left N (by omega)
  have hstart : (N : Int) * r.first < 100000 := by
    exact_mod_cast (show N * r.first < 100000 by omega)
  have hstop : (N : Int) * (r.last + 1) < 100000 := by
    exact_mod_cast (show N * (r.last + 1) < 100000 by omega)
  exact ⟨⟨by show (0 : Int) ≤ N * r.first; positivity, hstart⟩,
    ⟨by show (0 : Int) ≤ N * (r.last + 1); positivity, hstop⟩,
    symbolAt_ne_newline r.value.1 r.value.2⟩

theorem toneAtBlock_some {rs : List (Run Tone)} {k : Nat} {t : Tone}
    (h : toneAtBlock rs k = some t) : ∃ r ∈ rs, r.first ≤ k ∧ k ≤ r.last ∧ r.value = t := by
  rw [toneAtBlock] at h
  cases hfind : rs.find? fun r => decide (k ≤ r.last) with
  | none => rw [hfind] at h; cases h
  | some r =>
    rw [hfind] at h
    simp only at h
    split at h
    · next hle =>
      exact ⟨r, List.mem_of_find?_eq_some hfind, hle,
        of_decide_eq_true (List.find?_some (p := fun r : Run Tone => decide (k ≤ r.last)) hfind),
        Option.some.inj h⟩
    · cases h

/-- The samples of the tones are exact up to a hundredth of the full amplitude. -/
def Faithful (synth : Synth) : Prop :=
  ∀ (t : Tone) (i : ℕ),
    |((synth.tone (freqsOf t) i).toInt : ℝ) / INT16_MAX - dcurSample (freqsOf t) i| ≤ 0.01

theorem Faithful.near {synth : Synth} (h : Faithful synth) (t : Tone) (i : ℕ) :
    |((synth.tone (freqsOf t) i).toInt : ℝ) / 32767 - dcurSample (freqsOf t) i| ≤ 1 / 100 := by
  have hnear := h t i
  rwa [cast_INT16_MAX, show (0.01 : ℝ) = 1 / 100 by norm_num] at hnear

/-- No sample of a tone is taken for the end of the recording. -/
def Unmarked (synth : Synth) (N : ℕ) (rs : List (Run Tone)) : Prop :=
  ∀ r ∈ rs, ∀ i : ℕ, N * r.first ≤ i → i < N * (r.last + 1) →
    synth.tone (freqsOf r.value) i ≠ -1

section Recording

variable {synth : Synth} {N : ℕ} {rs : List (Run Tone)}

theorem signalAt_unmarked (hN : 0 < N) (h : Unmarked synth N rs) (i : ℕ) :
    signalAt synth none (runLines N rs) i ≠ -1 := by
  have hsplit : N * (i / N) + i % N = i := Nat.div_add_mod i N
  have hmod : i % N < N := Nat.mod_lt i hN
  rw [← hsplit, signalAt_block rs hmod]
  cases hk : toneAtBlock rs (i / N) with
  | none => exact (by decide : (0 : BitVec 16) ≠ -1)
  | some t =>
    obtain ⟨r, hr, hfirst, hlast, rfl⟩ := toneAtBlock_some hk
    have hlow := Nat.mul_le_mul_left N hfirst
    have hhigh := Nat.mul_le_mul_left N (show i / N + 1 ≤ r.last + 1 by omega)
    rw [Nat.mul_succ] at hhigh
    exact h r hr _ (by omega) (by omega)

/-- Behind the last run. -/
theorem signalAt_behind (hN : 0 < N) {i : ℕ} (h : ∀ r ∈ rs, r.last < i / N) :
    signalAt synth none (runLines N rs) i = 0 := by
  have hsplit : N * (i / N) + i % N = i := Nat.div_add_mod i N
  rw [← hsplit, signalAt_block rs (Nat.mod_lt i hN)]
  cases hk : toneAtBlock rs (i / N) with
  | none => rfl
  | some t =>
    obtain ⟨r, hr, -, hlast, -⟩ := toneAtBlock_some hk
    exact absurd (h r hr) (Nat.not_lt.mpr hlast)

/-- A whole block is heard as it is. -/
theorem toneTest_block (hsynth : Faithful synth) (hN : 200 ≤ N) (hmax : N ≤ 65535) {k : ℕ}
    {b : Block} (hb : b.samples =
      (List.range N).map fun n => signalAt synth none (runLines N rs) (N * k + n)) :
    toneTest N b = heard (toneAtBlock rs k) := by
  cases hk : toneAtBlock rs k with
  | some t =>
    have hsounds : Sounds N (rowFreq t.1, colFreq t.2) (N * k) b := by
      refine sounds_of_samples hb fun n hn => ?_
      rw [signalAt_block rs hn, hk]
      exact hsynth.near t (N * k + n)
    exact verdict_eq_some (toneTest_sounds hN hmax hsounds)
  | none =>
    have hzero : ∀ x ∈ b.samples, x = 0 := fun x hx => by
      rw [hb] at hx
      obtain ⟨n, hn, rfl⟩ := List.mem_map.mp hx
      rw [signalAt_block rs (List.mem_range.mp hn), hk]
    exact toneTest_silent (by omega) hmax
      (fun x hx => hzero x (List.mem_append_left _ hx))
      (.inl (hzero b.last (List.mem_append_right _ (List.mem_singleton_self _))))

/-- A stretch of the recording. -/
theorem drop_take_range (v : ℕ → BitVec 16) {L k : ℕ} (h : k * N + N ≤ L) :
    (((List.range L).map v).drop (k * N)).take N =
      (List.range N).map fun n => v (N * k + n) := by
  refine List.ext_getElem (by simp; omega) fun n h₁ h₂ => ?_
  simp [Nat.mul_comm N k]

/-- The events of the recording, of any length that the events fit in. -/
theorem detect_recording (hsynth : Faithful synth) (hN : 200 ≤ N ∧ N ≤ 1000) (h : Playable N rs)
    (hmark : Unmarked synth N rs) {L fuel : ℕ} (hL : ∀ r ∈ rs, N * (r.last + 1) ≤ L)
    (hfuel : L < fuel) : ∃ blocks rest,
      detectLoop N fuel 0 (((List.range L).map fun i : ℕ =>
          signalAt synth none (runLines N rs) i).flatMap sampleBytes) = some (blocks, rest) ∧
        dtmf_detect_events int16 N (blocks.map (toneTest N)) = rs.map (runEvent N) := by
  obtain ⟨hmin, hmax⟩ := hN
  have hpos : 0 < N := by omega
  obtain ⟨samples, hsamples⟩ : ∃ samples, samples = (List.range L).map fun i : ℕ =>
    signalAt synth none (runLines N rs) i := ⟨_, rfl⟩
  have hlen : samples.length = L := by rw [hsamples, List.length_map, List.length_range]
  have hunmarked : -1 ∉ samples := by
    rw [hsamples]
    intro hmem
    obtain ⟨i, -, hi⟩ := List.mem_map.mp hmem
    exact signalAt_unmarked hpos hmark i hi
  obtain ⟨blocks, tail, rest, hloop, hblocks, htail⟩ :=
    detectLoop_unmarked (N := N) (s := 0) (by omega) (hlen ▸ hfuel) hunmarked
  rw [← hsamples]
  refine ⟨blocks ++ tail, rest, hloop, ?_⟩
  have hruns : ∀ r ∈ rs, r.last + 1 ≤ L / N := fun r hr =>
    (Nat.le_div_iff_mul_le hpos).mpr (by rw [Nat.mul_comm]; exact hL r hr)
  have hwhole : ∀ {j : ℕ} {b : Block}, j < L / N →
      b.samples = (samples.drop (j * N)).take N → toneTest N b = heard (toneAtBlock rs j) := by
    intro j b hj hb
    have hend : j * N + N ≤ L := by
      have hmul := Nat.mul_le_mul_right N (show j + 1 ≤ L / N from hj)
      rw [Nat.add_one_mul] at hmul
      exact hmul.trans (Nat.div_mul_le_self L N)
    rw [hsamples, drop_take_range _ hend] at hb
    exact toneTest_block hsynth hmin (by omega) hb
  have hcount : blocks.length = L / N := by
    have := congrArg List.length hblocks
    rwa [List.length_map, length_wholeBlocks, hlen] at this
  have htests : blocks.map (toneTest N) = heardBlocks rs 0 (L / N) := by
    rw [heardBlocks, ← List.range_eq_range']
    refine List.ext_getElem (by simp [hcount]) fun j h₁ h₂ => ?_
    have hj : j < blocks.length := by simpa using h₁
    have hget := List.getElem_of_eq hblocks (i := j) (by simpa using hj)
    simp only [wholeBlocks, List.getElem_map, List.getElem_range] at hget
    rw [List.getElem_map, List.getElem_map, List.getElem_range]
    exact hwhole (hcount ▸ hj) hget
  have hsilent : tail.map (toneTest N) = List.replicate tail.length (heard none) := by
    refine List.eq_replicate_iff.mpr ⟨List.length_map _, fun b hb => ?_⟩
    obtain ⟨b, hmem, rfl⟩ := List.mem_map.mp hb
    obtain ⟨hsteps, hlast⟩ := htail b hmem
    refine toneTest_silent (by omega) (by omega) (fun x hx => ?_) (.inr hlast)
    -- nothing sounds behind the last whole block
    rw [hsteps, hlen, hsamples] at hx
    obtain ⟨j, hj, rfl⟩ := List.mem_iff_getElem.mp hx
    rw [List.getElem_drop, List.getElem_map, List.getElem_range]
    refine signalAt_behind hpos fun r hr => ?_
    have hrun := hruns r hr
    have hindex : L / N ≤ (L / N * N + j) / N :=
      (Nat.le_div_iff_mul_le hpos).mpr (Nat.le_add_right _ _)
    omega
  rw [List.map_append, htests, hsilent]
  exact replayed_events hpos h hruns

end Recording

/-- What is generated from the lines of some events is detected as these events. -/
theorem detect_generate {synth : Synth} (hsynth : Faithful synth) {N : ℕ}
    (hN : 200 ≤ N ∧ N ≤ 1000) {rs : List (Run Tone)} (h : Playable N rs)
    (hmark : Unmarked synth N rs) (length : BitVec 32) (ah : AudioHeader) :
    ∃ out d, dtmf_generate synth none ((rs.map (runEvent N)).flatMap Event.print) { bytes := [] }
        length = some (0, out) ∧
      dtmf_detect (toneTest N) N (some out.bytes) ah = some d ∧ d.ret = 0 ∧
        d.events = rs.map (runEvent N) := by
  have hread : readEvents ((rs.map (runEvent N)).flatMap Event.print) = some (runLines N rs) :=
    readLines_print emptyLineBuf h.printable
  have hordered := h.ordered
  have hgenerate := dtmf_generate_ordered synth
    (show (none : Option (Option InFile)) ≠ some none from nofun) hread hordered length
  have hL : ∀ r ∈ rs, N * (r.last + 1) ≤ signalLength length (runLines N rs) := fun r hr => by
    have hend : (N : Int) * (r.last + 1) ≤ signalLength length (runLines N rs) :=
      le_signalLength hordered (e := (runEvent N r).line)
        (List.mem_map_of_mem (List.mem_map_of_mem hr)) length
    exact_mod_cast hend
  have hheader := audio_read_header_headerBytes ah
    (show (outputHeader length).Standard from ⟨rfl, rfl, rfl, rfl, rfl⟩)
    ((signal synth none length (runLines N rs)).flatMap sampleBytes)
  have hfuel := length_lt_flatMap_sampleBytes (signal synth none length (runLines N rs))
  rw [signal, List.length_map, List.length_range] at hfuel
  obtain ⟨blocks, rest, hloop, hevents⟩ := detect_recording hsynth hN h hmark hL hfuel
  exact ⟨_, _, hgenerate, dtmf_detect_eq (toneTest N) (congrArg HeaderRead.ret hheader)
    (congrArg HeaderRead.rest hheader) hloop, rfl, hevents⟩

/-! ## Exact samples -/

/-- The samples without rounding. -/
noncomputable def exactSynth (noise_w : ℝ) : Synth where
  tone := exactTone
  mixed freqs i noise := BitVec.ofInt 16 (truncated
    ((dcurSample freqs i * (1 - noise_w) + noise.toInt * noise_w * noise_w) * INT16_MAX))
  gap noise := BitVec.ofInt 16 (truncated
    ((0 * (1 - noise_w) + noise.toInt * noise_w * noise_w) * INT16_MAX))

theorem faithful_exactSynth (noise_w : ℝ) : Faithful (exactSynth noise_w) :=
  fun t i => by
    have hnear := exactTone_near (freqsOf t) i
    rwa [← cast_INT16_MAX, show (1 / 100 : ℝ) = 0.01 by norm_num] at hnear

/-- How far a cosine is from its next zero. -/
theorem abs_cos_ge (a : ℤ) :
    |((a - 4000).bmod 8000 : ℝ)| / 4000 ≤ |Real.cos (Real.pi * a / 8000)| := by
  obtain ⟨r, hr⟩ : ∃ r, r = (a - 4000).bmod 8000 := ⟨_, rfl⟩
  obtain ⟨m, hm⟩ : ∃ m, a - 4000 = r + 8000 * m :=
    ⟨(a - 4000).bdiv 8000, by rw [hr]; exact (Int.bmod_add_bdiv _ _).symm⟩
  have hlow := Int.le_bmod (x := a - 4000) (m := 8000) (by decide)
  have hhigh := Int.bmod_lt (x := a - 4000) (m := 8000) (by decide)
  rw [← hr] at hlow hhigh ⊢
  have hπ := Real.pi_pos
  have hangle : Real.pi * a / 8000 = Real.pi * r / 8000 + Real.pi / 2 + m * Real.pi := by
    have ha : (a : ℝ) = 4000 + r + 8000 * m := by
      have : a = 4000 + r + 8000 * m := by omega
      exact_mod_cast this
    rw [ha]
    ring
  have hsmall : |(r : ℝ)| ≤ 4000 := by
    rw [abs_le]
    constructor
    · exact_mod_cast (show -4000 ≤ r by omega)
    · exact_mod_cast (show r ≤ 4000 by omega)
  have hturn : |Real.pi * r / 8000| = Real.pi * |(r : ℝ)| / 8000 := by
    rw [abs_div, abs_mul, abs_of_pos hπ, abs_of_pos (show (0 : ℝ) < 8000 by norm_num)]
  have hjordan := Real.mul_abs_le_abs_sin (x := Real.pi * r / 8000) (by
    rw [hturn]
    nlinarith)
  rw [hangle, Real.cos_add_int_mul_pi, abs_mul, abs_zpow, abs_neg, abs_one, one_zpow, one_mul,
    Real.cos_add_pi_div_two, abs_neg]
  refine le_trans (le_of_eq ?_) hjordan
  rw [hturn]
  field_simp
  ring

theorem truncated_ne {x : ℝ} (h : 2 ≤ |x|) : truncated x ≠ -1 := by
  rw [truncated]
  split
  · next hx =>
    have := Int.floor_nonneg.mpr hx
    omega
  · next hx =>
    rw [abs_of_neg (not_le.mp hx)] at h
    have hceil : ⌈x⌉ ≤ -2 := Int.ceil_le.mpr (by push_cast; linarith)
    omega

/-- How far the index `a` of a cosine of one Hz is from one with the value 0. -/
def zeroDistance (a : ℤ) : ℕ := ((a - 4000).bmod 8000).natAbs

/-- The sum of two cosines is a product of two. -/
theorem exactTone_ne {f g i : ℕ}
    (h : 977 ≤ zeroDistance ((f + g) * i) * zeroDistance ((f - g) * i)) :
    exactTone (f, g) i ≠ -1 := by
  have hproduct : dcurSample (f, g) i = Real.cos (Real.pi * ((f + g) * i : ℤ) / 8000) *
      Real.cos (Real.pi * ((f - g) * i : ℤ) / 8000) := by
    have hsum := Real.cos_add_cos (2 * Real.pi * f * i / 8000) (2 * Real.pi * g * i / 8000)
    have hplus : (2 * Real.pi * f * i / 8000 + 2 * Real.pi * g * i / 8000) / 2 =
        Real.pi * ((f + g) * i : ℤ) / 8000 := by
      push_cast
      ring
    have hminus : (2 * Real.pi * f * i / 8000 - 2 * Real.pi * g * i / 8000) / 2 =
        Real.pi * ((f - g) * i : ℤ) / 8000 := by
      push_cast
      ring
    rw [hplus, hminus] at hsum
    rw [dcurSample_eq, Int.cast_natCast, ← add_mul, hsum]
    ring
  have hplus := abs_cos_ge ((f + g) * i)
  have hminus := abs_cos_ge ((f - g) * i)
  have hfar : (977 : ℝ) ≤ |(((f + g) * i - 4000 : ℤ).bmod 8000 : ℝ)| *
      |(((f - g) * i - 4000 : ℤ).bmod 8000 : ℝ)| := by
    have hcast : ((977 : ℕ) : ℝ) ≤
        ((zeroDistance ((f + g) * i) * zeroDistance ((f - g) * i) : ℕ) : ℝ) := by
      exact_mod_cast h
    rwa [Nat.cast_mul, zeroDistance, zeroDistance, Nat.cast_natAbs, Nat.cast_natAbs,
      Int.cast_abs, Int.cast_abs, Nat.cast_ofNat] at hcast
  have hlarge : 2 ≤ |dcurSample (f, g) i * 32767| := by
    have hmul := mul_le_mul hplus hminus (by positivity) (abs_nonneg _)
    rw [← abs_mul, ← hproduct] at hmul
    rw [abs_mul, abs_of_pos (show (0 : ℝ) < 32767 by norm_num)]
    linarith
  intro hmark
  have hvalue := toInt_exactTone (f, g) i
  rw [hmark, show (-1 : BitVec 16).toInt = -1 from rfl] at hvalue
  exact truncated_ne hlarge hvalue.symm

/-- The symbol 1 for two blocks, and after a silent block the symbol 5 for another. -/
theorem detect_generate_pair : ∃ out d,
    dtmf_generate (exactSynth 0) none "0\t400\t1\n600\t800\t5\n".toList { bytes := [] } 1000 =
        some (0, out) ∧
      dtmf_detect (toneTest 200) 200 (some out.bytes) standardHeader = some d ∧ d.ret = 0 ∧
        d.events = [⟨0, 400, '1'⟩, ⟨600, 800, '5'⟩] := by
  have hmark : Unmarked (exactSynth 0) 200 [⟨0, 1, (0, 0)⟩, ⟨3, 3, (1, 1)⟩] := by
    have hone : ∀ i < 400, 977 ≤ zeroDistance ((697 + 1209) * (i : ℕ)) *
        zeroDistance ((697 - 1209) * (i : ℕ)) := by decide +kernel
    have hfive : ∀ i < 800, 977 ≤ zeroDistance ((770 + 1336) * (i : ℕ)) *
        zeroDistance ((770 - 1336) * (i : ℕ)) := by decide +kernel
    intro r hr i _ hi
    rcases List.mem_pair.mp hr with rfl | rfl
    · exact exactTone_ne (hone i hi)
    · exact exactTone_ne (hfive i hi)
  have hplayable : Playable 200 [⟨0, 1, (0, 0)⟩, ⟨3, 3, (1, 1)⟩] :=
    ⟨rfl, by decide, by decide, by decide, by decide, by decide,
      show 200 * (3 + 1) < 32768 by decide⟩
  exact detect_generate (faithful_exactSynth 0) (by decide) hplayable hmark 1000 standardHeader

end StarterProjects.Dtmf
