import Mathlib.Algebra.Order.Chebyshev
import StarterProjects.Dtmf.Blocks
import StarterProjects.Dtmf.Goertzel

/-!
# When a block has a tone

The test that `dtmf_detect` makes on the eight strengths of a block, over exact real arithmetic. A
quotient by 0 is infinite, or no number.

The strengths are powers of the block's signal at the eight frequencies, whole block or not, since
`N` cancels from the frequency index (`goertzel_block_eq`). `toneTest_verdict_iff` says which powers
make a tone. By the inequality of Cauchy and Schwarz a quiet signal has no powers of that size, so
nothing is detected in it (`detect_quiet`).
-/

namespace StarterProjects.Dtmf

open Finset
open Complex (I)

/-! ## The test -/

def dtmf_freqs : List Nat := [697, 770, 852, 941, 1209, 1336, 1477, 1633]

def rowFreq (row : Fin 4) : Nat := dtmf_freqs.getD row 0

def colFreq (col : Fin 4) : Nat := dtmf_freqs.getD (4 + col) 0

noncomputable section

/-! The literals of `Fin 4` and of the reals rest on these two facts. -/

local instance neZero_four : NeZero (4 : ℕ) := ⟨by decide⟩

local instance atLeastTwo_two : Nat.AtLeastTwo 2 := ⟨by decide⟩

def FOUR_DB : ℝ := 2.51188643151

def SIX_DB : ℝ := 3.981071706

def MINUS_20DB : ℝ := 0.01

/-- `a / b >= t` for `a` and `b` from 0 on. -/
def QuotientGe (a b t : ℝ) : Prop := if b = 0 then 0 < a else t ≤ a / b

/-- `a / b <= t` -/
def QuotientLe (a b t : ℝ) : Prop := b ≠ 0 ∧ a / b ≤ t

def check_SIX_DB (mainStr str1 str2 str3 : ℝ) : Prop :=
  QuotientGe mainStr str1 SIX_DB ∧ QuotientGe mainStr str2 SIX_DB ∧ QuotientGe mainStr str3 SIX_DB

open Classical in
def getMax (d1 d2 : ℝ) : ℝ := if d1 > d2 then d1 else d2

/-- The strongest of four. -/
def strongest (str : Fin 4 → ℝ) : ℝ := getMax (getMax (str 0) (str 1)) (getMax (str 2) (str 3))

open Classical in
/-- The branches for the row tone, and those for the column tone. -/
def toneOf (str : Fin 4 → ℝ) : Option (Fin 4) :=
  if strongest str = str 0 then
    if check_SIX_DB (str 0) (str 1) (str 2) (str 3) then some 0 else none
  else if strongest str = str 1 then
    if check_SIX_DB (str 1) (str 0) (str 2) (str 3) then some 1 else none
  else if strongest str = str 2 then
    if check_SIX_DB (str 2) (str 0) (str 1) (str 3) then some 2 else none
  else
    if check_SIX_DB (str 3) (str 0) (str 1) (str 2) then some 3 else none

/-- `doubleCurX` -/
def Block.signal (b : Block) (n : ℕ) : ℝ := ((b.samples.getD n 0).toInt : ℝ) / 32767

/-- The strength of a frequency in a block. -/
def goertzel_block (N F : ℕ) (b : Block) : ℝ :=
  (goertzel_strength (goertzel_steps (goertzel_init (BitVec.ofNat 32 N) ((F : ℝ) * N / 8000))
    b.signal b.steps.length) (b.signal b.steps.length)).1

open Classical in
/-- The comparisons of one round. -/
def toneTest (N : ℕ) (b : Block) : ToneTest :=
  let rows := fun row => goertzel_block N (rowFreq row) b
  let cols := fun col => goertzel_block N (colFreq col) b
  { row := toneOf rows
    col := toneOf cols
    level := decide (MINUS_20DB ≤ strongest rows + strongest cols ∧
      QuotientGe (strongest rows) (strongest cols) (FOUR_DB * 0.01) ∧
      QuotientLe (strongest rows) (strongest cols) FOUR_DB) }

/-- The power of the signal of a block at a frequency. -/
def power (N F : ℕ) (b : Block) : ℝ :=
  2 / (N : ℝ) ^ 2 * ‖∑ n ∈ range b.samples.length,
    (b.signal n : ℂ) * Complex.exp (-2 * Real.pi * I * F * n / 8000)‖ ^ 2

end

/-! ## The strengths are powers -/

/-- The strength after any number of steps. -/
theorem goertzel_strength_steps {N : ℕ} (hpos : 1 ≤ N) (hmax : N ≤ 65535) (k : ℝ) (x : ℕ → ℝ)
    (n : ℕ) :
    (goertzel_strength (goertzel_steps (goertzel_init (BitVec.ofNat 32 N) k) x n) (x n)).1 =
      2 / (N : ℝ) ^ 2 * ‖∑ m ∈ range (n + 1), x m * twiddle N k m‖ ^ 2 := by
  have hword : (BitVec.ofNat 32 N).toNat = N := by
    rw [BitVec.toNat_ofNat]
    exact Nat.mod_eq_of_lt (by omega)
  have hA : (goertzel_init (BitVec.ofNat 32 N) k).A = angle N k := by
    rw [goertzel_init, hword, angle]
  have hB : (goertzel_init (BitVec.ofNat 32 N) k).B = Real.cos (angle N k) * 2 := by
    rw [goertzel_init, hword, angle]
  have hN : (goertzel_init (BitVec.ofNat 32 N) k).N = BitVec.ofNat 32 N := rfl
  have hlast := lastValue_resonate (goertzel_init (BitVec.ofNat 32 N) k) x rfl rfl n
  have hclosed := closed_form N k x n
  rw [hB] at hlast
  rw [← hlast] at hclosed
  rw [goertzel_strength_eq, goertzel_steps_A, goertzel_steps_N, hA, hN, toNat_mul_self hmax,
    hclosed, Complex.normSq_mul, normSq_phase, Complex.normSq_conj, one_mul,
    Complex.normSq_eq_norm_sq]
  push_cast
  ring

theorem twiddle_frequency {N : ℕ} (hpos : 1 ≤ N) (F n : ℕ) :
    twiddle N ((F : ℝ) * N / 8000) n = Complex.exp (-2 * Real.pi * I * F * n / 8000) := by
  have hN : (N : ℂ) ≠ 0 := by exact_mod_cast Nat.ne_of_gt hpos
  rw [twiddle]
  congr 1
  push_cast
  field_simp

theorem goertzel_block_eq {N : ℕ} (hpos : 1 ≤ N) (hmax : N ≤ 65535) (F : ℕ) (b : Block) :
    goertzel_block N F b = power N F b := by
  have hlen : b.samples.length = b.steps.length + 1 := by
    rw [Block.samples, List.length_append, List.length_singleton]
  rw [goertzel_block, goertzel_strength_steps hpos hmax, power, hlen]
  simp only [twiddle_frequency hpos]

theorem power_nonneg (N F : ℕ) (b : Block) : 0 ≤ power N F b := by
  unfold power
  positivity

/-! ## The strongest of four -/

/-- It is there, and exceeds the other three by 6 dB. -/
def Leads (str : Fin 4 → ℝ) (i : Fin 4) : Prop := 0 < str i ∧ ∀ j, j ≠ i → SIX_DB * str j ≤ str i

section Four

variable {str : Fin 4 → ℝ} {i j : Fin 4}

theorem quotientGe_iff {a b t : ℝ} (hb : 0 ≤ b) (ht : 0 < t) :
    QuotientGe a b t ↔ 0 < a ∧ t * b ≤ a := by
  unfold QuotientGe
  split
  · next h0 =>
    rw [h0, mul_zero]
    exact ⟨fun ha => ⟨ha, ha.le⟩, And.left⟩
  · next h0 =>
    have hpos : 0 < b := lt_of_le_of_ne hb (Ne.symm h0)
    rw [le_div_iff₀ hpos]
    exact ⟨fun h => ⟨lt_of_lt_of_le (mul_pos ht hpos) h, h⟩, And.right⟩

theorem six_db_gt_one : 1 < SIX_DB := by
  norm_num [SIX_DB]

theorem check_SIX_DB_iff {m s1 s2 s3 : ℝ} (h1 : 0 ≤ s1) (h2 : 0 ≤ s2) (h3 : 0 ≤ s3) :
    check_SIX_DB m s1 s2 s3 ↔
      0 < m ∧ SIX_DB * s1 ≤ m ∧ SIX_DB * s2 ≤ m ∧ SIX_DB * s3 ≤ m := by
  have hpos : 0 < SIX_DB := zero_lt_one.trans six_db_gt_one
  rw [check_SIX_DB, quotientGe_iff h1 hpos, quotientGe_iff h2 hpos, quotientGe_iff h3 hpos]
  tauto

theorem Leads.lt (hstr : ∀ i, 0 ≤ str i) (h : Leads str i) (hj : j ≠ i) : str j < str i := by
  rcases (hstr j).eq_or_lt with h0 | h0
  · rw [← h0]
    exact h.1
  · have := h.2 j hj
    have := six_db_gt_one
    nlinarith

theorem getMax_eq (d1 d2 : ℝ) : getMax d1 d2 = max d1 d2 := by
  unfold getMax
  split
  · next h => exact (max_eq_left h.le).symm
  · next h => exact (max_eq_right (not_lt.mp h)).symm

theorem Leads.strongest (hstr : ∀ i, 0 ≤ str i) (h : Leads str i) : strongest str = str i := by
  have hle : ∀ j, str j ≤ str i := fun j => by
    rcases eq_or_ne j i with rfl | hj
    · exact le_refl _
    · exact (h.lt hstr hj).le
  unfold Dtmf.strongest
  rw [getMax_eq, getMax_eq, getMax_eq]
  refine le_antisymm ?_ ?_
  · exact max_le (max_le (hle 0) (hle 1)) (max_le (hle 2) (hle 3))
  · fin_cases i
    · exact le_max_of_le_left (le_max_left _ _)
    · exact le_max_of_le_left (le_max_right _ _)
    · exact le_max_of_le_right (le_max_left _ _)
    · exact le_max_of_le_right (le_max_right _ _)

/-- The comparison made for a frequency. -/
theorem leads_iff (hstr : ∀ i, 0 ≤ str i) {a b c : Fin 4} (h : ∀ j, j ≠ i ↔ j = a ∨ j = b ∨ j = c) :
    check_SIX_DB (str i) (str a) (str b) (str c) ↔ Leads str i := by
  rw [check_SIX_DB_iff (hstr a) (hstr b) (hstr c), Leads]
  simp only [h, forall_eq_or_imp, forall_eq]

theorem toneOf_eq_some_iff (hstr : ∀ i, 0 ≤ str i) : toneOf str = some i ↔ Leads str i := by
  have h0 := leads_iff hstr (show ∀ j : Fin 4, j ≠ 0 ↔ j = 1 ∨ j = 2 ∨ j = 3 by decide)
  have h1 := leads_iff hstr (show ∀ j : Fin 4, j ≠ 1 ↔ j = 0 ∨ j = 2 ∨ j = 3 by decide)
  have h2 := leads_iff hstr (show ∀ j : Fin 4, j ≠ 2 ↔ j = 0 ∨ j = 1 ∨ j = 3 by decide)
  have h3 := leads_iff hstr (show ∀ j : Fin 4, j ≠ 3 ↔ j = 0 ∨ j = 1 ∨ j = 2 by decide)
  unfold toneOf
  rw [h0, h1, h2, h3]
  constructor
  · intro h
    split_ifs at h with _ hl _ hl _ hl hl <;> cases h <;> exact hl
  · intro h
    have hstrong := h.strongest hstr
    have hne : ∀ j, j ≠ i → strongest str ≠ str j := fun j hj => by
      rw [hstrong]
      exact (h.lt hstr hj).ne'
    fin_cases i
    · exact (if_pos hstrong).trans (if_pos h)
    · exact (if_neg (hne 0 (by decide))).trans ((if_pos hstrong).trans (if_pos h))
    · exact (if_neg (hne 0 (by decide))).trans ((if_neg (hne 1 (by decide))).trans
        ((if_pos hstrong).trans (if_pos h)))
    · exact (if_neg (hne 0 (by decide))).trans ((if_neg (hne 1 (by decide))).trans
        ((if_neg (hne 2 (by decide))).trans (if_pos h)))

end Four

/-! ## The verdict -/

theorem verdict_eq_some_iff (t : ToneTest) (row col : Fin 4) :
    t.verdict = some (row, col) ↔ t.level = true ∧ t.row = some row ∧ t.col = some col := by
  obtain ⟨row?, col?, level⟩ := t
  cases level <;> cases row? <;> cases col? <;> simp [ToneTest.verdict]

/-- The three comparisons, where a row and a column lead. -/
theorem level_iff {rows cols : Fin 4 → ℝ} {row col : Fin 4} (hrows : ∀ i, 0 ≤ rows i)
    (hcols : ∀ i, 0 ≤ cols i) (hrow : Leads rows row) (hcol : Leads cols col) :
    (MINUS_20DB ≤ strongest rows + strongest cols ∧
        QuotientGe (strongest rows) (strongest cols) (FOUR_DB * 0.01) ∧
        QuotientLe (strongest rows) (strongest cols) FOUR_DB) ↔
      MINUS_20DB ≤ rows row + cols col ∧ FOUR_DB * 0.01 * cols col ≤ rows row ∧
        rows row ≤ FOUR_DB * cols col := by
  have hfour : 0 < FOUR_DB * 0.01 := by norm_num [FOUR_DB]
  rw [hrow.strongest hrows, hcol.strongest hcols, quotientGe_iff (hcols col) hfour, QuotientLe,
    div_le_iff₀ hcol.1]
  have hthere : 0 < rows row := hrow.1
  have hdivisor : cols col ≠ 0 := hcol.1.ne'
  tauto

/-- A block has the tone whose row and column lead, where both together reach -20 dB and the row
is neither more than 4 dB above the column nor too far below it. -/
theorem toneTest_verdict_iff {N : ℕ} (hpos : 1 ≤ N) (hmax : N ≤ 65535) (b : Block)
    (row col : Fin 4) :
    (toneTest N b).verdict = some (row, col) ↔
      Leads (fun row => power N (rowFreq row) b) row ∧
      Leads (fun col => power N (colFreq col) b) col ∧
      MINUS_20DB ≤ power N (rowFreq row) b + power N (colFreq col) b ∧
      FOUR_DB * 0.01 * power N (colFreq col) b ≤ power N (rowFreq row) b ∧
      power N (rowFreq row) b ≤ FOUR_DB * power N (colFreq col) b := by
  have hrows : ∀ i, 0 ≤ power N (rowFreq i) b := fun i => power_nonneg N _ b
  have hcols : ∀ i, 0 ≤ power N (colFreq i) b := fun i => power_nonneg N _ b
  rw [verdict_eq_some_iff]
  simp only [toneTest, goertzel_block_eq hpos hmax, decide_eq_true_eq]
  rw [toneOf_eq_some_iff hrows, toneOf_eq_some_iff hcols]
  constructor
  · rintro ⟨hlevel, hrow, hcol⟩
    exact ⟨hrow, hcol, (level_iff hrows hcols hrow hcol).mp hlevel⟩
  · rintro ⟨hrow, hcol, hlevel⟩
    exact ⟨(level_iff hrows hcols hrow hcol).mpr hlevel, hrow, hcol⟩

/-! ## Quiet signals -/

/-- The energy of a block. -/
noncomputable def energy (b : Block) : ℝ := ∑ n ∈ range b.samples.length, b.signal n ^ 2

/-- No frequency has more than its share of the energy. -/
theorem power_le (N F : ℕ) (b : Block) :
    power N F b ≤ 2 / (N : ℝ) ^ 2 * (b.samples.length * energy b) := by
  have hturn : ∀ n : ℕ, ‖Complex.exp (-2 * Real.pi * I * F * n / 8000)‖ = 1 := fun n => by
    have harg : (-2 * Real.pi * I * F * n / 8000 : ℂ) =
        ((-2 * Real.pi * F * n / 8000 : ℝ) : ℂ) * I := by
      push_cast
      ring
    rw [harg, Complex.norm_exp_ofReal_mul_I]
  have hnorm : ‖∑ n ∈ range b.samples.length,
      (b.signal n : ℂ) * Complex.exp (-2 * Real.pi * I * F * n / 8000)‖ ≤
        ∑ n ∈ range b.samples.length, |b.signal n| := by
    refine (norm_sum_le _ _).trans (sum_le_sum fun n _ => ?_)
    rw [norm_mul, hturn, mul_one, Complex.norm_real, Real.norm_eq_abs]
  have hsq : (∑ n ∈ range b.samples.length, |b.signal n|) ^ 2 ≤
      b.samples.length * energy b := by
    have hcauchy := sq_sum_le_card_mul_sum_sq (s := range b.samples.length)
      (f := fun n => |b.signal n|)
    simpa only [card_range, sq_abs, energy] using hcauchy
  unfold power
  gcongr
  exact (pow_le_pow_left₀ (norm_nonneg _) hnorm 2).trans hsq

theorem strongest_lt {str : Fin 4 → ℝ} {x : ℝ} (h : ∀ i, str i < x) : strongest str < x := by
  unfold strongest
  rw [getMax_eq, getMax_eq, getMax_eq]
  exact max_lt (max_lt (h 0) (h 1)) (max_lt (h 2) (h 3))

/-- A tone reaches the level. -/
theorem level_of_verdict {N : ℕ} {b : Block} {t : Tone} (h : (toneTest N b).verdict = some t) :
    MINUS_20DB ≤ strongest (fun row => goertzel_block N (rowFreq row) b) +
      strongest fun col => goertzel_block N (colFreq col) b := by
  obtain ⟨hlevel, -, -⟩ := (verdict_eq_some_iff _ t.1 t.2).mp h
  simp only [toneTest, decide_eq_true_eq] at hlevel
  exact hlevel.1

/-- Of at most `N` samples, with a mean square below 1/400. -/
theorem verdict_quiet {N : ℕ} (hpos : 1 ≤ N) (hmax : N ≤ 65535) {b : Block}
    (hlen : b.samples.length ≤ N) (hquiet : energy b < N / 400) :
    (toneTest N b).verdict = none := by
  rw [Option.eq_none_iff_forall_ne_some]
  intro t hv
  have hlevel := level_of_verdict hv
  have hN : (0 : ℝ) < N := by exact_mod_cast hpos
  have henergy : 0 ≤ energy b := sum_nonneg fun n _ => sq_nonneg _
  have hbound : ∀ F, goertzel_block N F b < 1 / 200 := fun F => by
    rw [goertzel_block_eq hpos hmax]
    refine (power_le N F b).trans_lt ?_
    have hlen' : (b.samples.length : ℝ) ≤ N := by exact_mod_cast hlen
    have hprod : b.samples.length * energy b < (N : ℝ) ^ 2 / 400 := by
      have hle := mul_le_mul_of_nonneg_right hlen' henergy
      have hlt := mul_lt_mul_of_pos_left hquiet hN
      linarith [sq (N : ℝ)]
    have hscale := mul_lt_mul_of_pos_left hprod (show 0 < 2 / (N : ℝ) ^ 2 by positivity)
    have hcancel : 2 / (N : ℝ) ^ 2 * ((N : ℝ) ^ 2 / 400) = 1 / 200 := by
      field_simp
      norm_num
    rwa [hcancel] at hscale
  have hrow := strongest_lt fun row => hbound (rowFreq row)
  have hcol := strongest_lt fun col => hbound (colFreq col)
  norm_num [MINUS_20DB] at hlevel
  linarith

/-- A block has at most as many samples as it should. -/
theorem stepLoop_length (left : ℕ) (s : StepState) (f : InFile) :
    (stepLoop left s f).1.steps.length ≤ s.steps.length + left := by
  induction left generalizing s f with
  | zero => exact Nat.le_refl _
  | succ left ih =>
    rw [stepLoop, read_bind]
    split
    · exact Nat.le_add_right _ _
    · refine (ih _ _).trans ?_
      simp only [List.length_append, List.length_singleton]
      omega

theorem detectLoop_length {N : ℕ} (hpos : 1 ≤ N) : ∀ {fuel curBlockSize : ℕ}
    {audio_in rest : InFile} {blocks : List Block},
    detectLoop N fuel curBlockSize audio_in = some (blocks, rest) →
      ∀ b ∈ blocks, b.samples.length ≤ N
  | 0, _, _, _, _, h => nomatch h
  | fuel + 1, curBlockSize, audio_in, rest, blocks, h => by
    have hsteps := stepLoop_length (N - 1) { curBlockSize } audio_in
    have hblock : ∀ last, (Block.mk (stepLoop (N - 1) { curBlockSize } audio_in).1.steps
        last).samples.length ≤ N := fun last => by
      simp only [List.length_nil] at hsteps
      simp only [Block.samples, List.length_append, List.length_singleton]
      omega
    simp only [detectLoop] at h
    split at h
    · cases h
      exact fun b hb => absurd hb List.not_mem_nil
    · split at h
      · obtain ⟨⟨more, left⟩, hmore, hcons⟩ := Option.map_eq_some_iff.mp h
        cases hcons
        intro b hb
        rcases List.mem_cons.mp hb with rfl | hb
        · exact hblock _
        · exact detectLoop_length hpos hmore b hb
      · cases h
        intro b hb
        rw [List.mem_singleton.mp hb]
        exact hblock _

/-- A block without a tone prints nothing, and does not end an event. -/
theorem detectBlock_none (int16 : Int → Int) (N : ℕ) {t : ToneTest} (h : t.verdict = none)
    (s : DetectState) : (detectBlock int16 N t s).1.endIdx = s.endIdx ∧
      (detectBlock int16 N t s).2 = [] := by
  have hno : (t.level && t.row.isSome && t.col.isSome) = false := by
    obtain ⟨row?, col?, level⟩ := t
    cases level <;> cases row? <;> cases col? <;> first | rfl | cases h
  simp only [detectBlock, hno, Bool.false_eq_true, if_false, and_self]

theorem detect_none (int16 : Int → Int) (N : ℕ) : ∀ {tests : List ToneTest},
    (∀ t ∈ tests, t.verdict = none) → ∀ s : DetectState,
      (detectBlocks int16 N tests s).1.endIdx = s.endIdx ∧ (detectBlocks int16 N tests s).2 = []
  | [], _, _ => ⟨rfl, rfl⟩
  | t :: tests, h, s => by
    obtain ⟨hend, hnil⟩ := detectBlock_none int16 N (h t List.mem_cons_self) s
    obtain ⟨hend', hnil'⟩ := detect_none int16 N (fun t' ht => h t' (List.mem_cons_of_mem _ ht))
      (detectBlock int16 N t s).1
    rw [detectBlocks]
    exact ⟨hend'.trans hend, by rw [hnil, hnil', List.append_nil]⟩

/-- A recording whose blocks are all quiet has no events. -/
theorem detect_quiet {N : ℕ} (hN : 10 ≤ N ∧ N ≤ 1000) (file : Option InFile) (ah : AudioHeader)
    (d : Detected) (h : dtmf_detect (toneTest N) N file ah = some d)
    (hquiet : ∀ b ∈ d.blocks, energy b < N / 400) : d.events = [] := by
  unfold dtmf_detect at h
  simp only at h
  split at h
  · cases h
    rfl
  · obtain ⟨audio_in, -, h⟩ := Option.bind_eq_some_iff.mp h
    obtain ⟨⟨blocks, rest⟩, hloop, h⟩ := Option.bind_eq_some_iff.mp h
    cases h
    have hverdicts : ∀ t ∈ blocks.map (toneTest N), t.verdict = none := fun t ht => by
      obtain ⟨b, hb, rfl⟩ := List.mem_map.mp ht
      exact verdict_quiet (by omega) (by omega) (detectLoop_length (by omega) hloop b hb)
        (hquiet b hb)
    obtain ⟨hend, hnil⟩ := detect_none int16 N hverdicts {}
    show (detectBlocks int16 N _ {}).2 ++ (detectBlocks int16 N _ {}).1.finish = []
    rw [hnil, DetectState.finish, hend]
    rfl

/-- Ten samples at a 33rd of full amplitude. -/
def faint : Block := ⟨List.replicate 9 1000, 1000⟩

theorem energy_faint : energy faint = 10 * (1000 / 32767) ^ 2 := by
  have hsample : ∀ n < 10, (faint.samples.getD n 0).toInt = 1000 := by decide
  have hsquare : ∀ n ∈ range 10, faint.signal n ^ 2 = (1000 / 32767 : ℝ) ^ 2 := fun n hn => by
    rw [Block.signal, hsample n (mem_range.mp hn)]
    norm_num
  rw [energy, show faint.samples.length = 10 from rfl, sum_congr rfl hsquare, sum_const,
    card_range, nsmul_eq_mul]
  norm_num

theorem detect_quiet_faint :
    ∃ d, dtmf_detect (toneTest 10) 10 (some (audioFile (List.replicate 20 1000))) standardHeader =
      some d ∧ d.blocks = [faint, faint] ∧ d.events = [] := by
  have hread := audio_read_header_audioFile (List.replicate 20 1000) standardHeader
  have hloop : detectLoop 10 (((List.replicate 20 1000).flatMap sampleBytes).length + 1) 0
      ((List.replicate 20 1000).flatMap sampleBytes) = some ([faint, faint], []) := by
    decide +kernel
  have hdetect := dtmf_detect_eq (toneTest 10) (congrArg HeaderRead.ret hread)
    (congrArg HeaderRead.rest hread) hloop
  refine ⟨_, hdetect, rfl, detect_quiet (by decide) _ _ _ hdetect fun b hb => ?_⟩
  have hfaint : b = faint := by simpa using hb
  rw [hfaint, energy_faint]
  norm_num

end StarterProjects.Dtmf
