import Mathlib
import StarterProjects.Lib.Oscillation
import StarterProjects.Dtmf.Segments
import StarterProjects.Dtmf.Strengths

/-!
# Which blocks are heard

A block whose samples keep to the two cosines of a tone, up to a hundredth of the full amplitude,
from any index on. The spectrum of such a block is a quarter of its length at the two frequencies
of the tone, give or take little, and small at the six other ones. From 200 samples on this is
enough for all comparisons of `dtmf_detect` (`toneTest_sounds`), whatever the phase.
-/

namespace StarterProjects.Dtmf

open Lib.Oscillation

noncomputable section

/-- `dcurSample` of a tone, before it is scaled. -/
def dcurSample (freqs : ℕ × ℕ) (i : ℤ) : ℝ :=
  Real.cos (2.0 * Real.pi * freqs.1 * i / AUDIO_FRAME_RATE.toNat) * 0.5 +
    Real.cos (2.0 * Real.pi * freqs.2 * i / AUDIO_FRAME_RATE.toNat) * 0.5

def INT16_MAX : ℕ := 32767

/-- `trunc` -/
def truncated (x : ℝ) : ℤ := if 0 ≤ x then ⌊x⌋ else ⌈x⌉

/-- The sample of a tone at an index, without noise. -/
def exactTone (freqs : ℕ × ℕ) (i : ℤ) : BitVec 16 :=
  BitVec.ofInt 16 (truncated (dcurSample freqs i * INT16_MAX))

/-- A block of `N` samples has the tone, from the index `s` on. -/
structure Sounds (N : ℕ) (freqs : ℕ × ℕ) (s : ℕ) (b : Block) : Prop where
  length : b.samples.length = N
  near : ∀ n < N, |b.signal n - dcurSample freqs (s + n : ℕ)| ≤ 1 / 100

end

theorem cast_INT16_MAX : (INT16_MAX : ℝ) = 32767 := Nat.cast_ofNat

theorem dcurSample_eq (freqs : ℕ × ℕ) (i : ℤ) : dcurSample freqs i =
    Real.cos (2 * Real.pi * freqs.1 * i / 8000) * (1 / 2) +
      Real.cos (2 * Real.pi * freqs.2 * i / 8000) * (1 / 2) := by
  have hrate : AUDIO_FRAME_RATE.toNat = 8000 := rfl
  have htwo : (2.0 : ℝ) = 2 := by norm_num
  have hhalf : (0.5 : ℝ) = 1 / 2 := by norm_num
  rw [dcurSample, hrate, htwo, hhalf, Nat.cast_ofNat]

/-! ## The frequencies -/

/-- They lie `d` Hz apart or more. -/
def Apart (d f g : ℕ) : Prop := f + d ≤ g ∨ g + d ≤ f

theorem Apart.symm {d f g : ℕ} (h : Apart d f g) : Apart d g f := Or.symm h

/-- A frequency of the table. -/
def Tabled (f : ℕ) : Prop := 697 ≤ f ∧ f ≤ 1633

theorem tabled_rowFreq : ∀ i, Tabled (rowFreq i) := by
  unfold Tabled
  decide

theorem tabled_colFreq : ∀ i, Tabled (colFreq i) := by
  unfold Tabled
  decide

theorem rowFreq_apart : ∀ i j, j ≠ i → Apart 73 (rowFreq i) (rowFreq j) := by
  unfold Apart
  decide

theorem colFreq_apart : ∀ i j, j ≠ i → Apart 73 (colFreq i) (colFreq j) := by
  unfold Apart
  decide

theorem rowFreq_colFreq_apart : ∀ i j, Apart 268 (rowFreq i) (colFreq j) := by
  unfold Apart
  decide

/-- What a tone leaves at another frequency. -/
theorem norm_spectrumAt_apart_le {f F d : ℕ} (hd : Apart d f F) (hpos : 0 < d) (hf : Tabled f)
    (hF : Tabled F) (s N : ℕ) :
    ‖spectrumAt 8000 F (cosine 8000 f s) N‖ ≤ 2000 / d + 2000 / 1394 := by
  have hne : (f : ℝ) ≠ F := by
    have : f ≠ F := by
      rcases hd with h | h <;> omega
    exact_mod_cast this
  have hf0 : (0 : ℝ) < f := by exact_mod_cast (show 0 < f by have := hf.1; omega)
  have hF0 : (0 : ℝ) < F := by exact_mod_cast (show 0 < F by have := hF.1; omega)
  have hmost : (f : ℝ) + F ≤ 4000 := by
    exact_mod_cast (show f + F ≤ 4000 by have := hf.2; have := hF.2; omega)
  have hleast : (1394 : ℝ) ≤ f + F := by
    exact_mod_cast (show 1394 ≤ f + F by have := hf.1; have := hF.1; omega)
  have hdist : (d : ℝ) ≤ |(f : ℝ) - F| := by
    rcases hd with h | h
    · have h' : (f : ℝ) + d ≤ F := by exact_mod_cast h
      rw [abs_sub_comm]
      exact le_trans (by linarith) (le_abs_self _)
    · have h' : (F : ℝ) + d ≤ f := by exact_mod_cast h
      exact le_trans (by linarith) (le_abs_self _)
  have hd0 : (0 : ℝ) < d := by exact_mod_cast hpos
  have hdiff := one_div_le_one_div_of_le hd0 hdist
  have hsum := one_div_le_one_div_of_le (by norm_num) hleast
  refine (norm_spectrumAt_cosine_le hF0 hf0 hne (by linarith) s N).trans ?_
  have hsplit : (2000 : ℝ) / d + 2000 / 1394 = 8000 / 4 * (1 / d + 1 / 1394) := by ring
  rw [hsplit]
  exact mul_le_mul_of_nonneg_left (add_le_add hdiff hsum) (by norm_num)

/-! ## The spectrum of a block that sounds -/

section Sounds

variable {N s f g F : ℕ} {b : Block}

theorem Sounds.swap (h : Sounds N (f, g) s b) : Sounds N (g, f) s b := by
  refine ⟨h.length, fun n hn => ?_⟩
  have hnear := h.near n hn
  rwa [dcurSample_eq, add_comm, ← dcurSample_eq (g, f)] at hnear

/-- Two cosines, and what differs from them. -/
theorem Sounds.split (h : Sounds N (f, g) s b) (F : ℕ) : ∃ z : ℂ, ‖z‖ ≤ N / 100 ∧
    spectrumAt 8000 F b.signal N = spectrumAt 8000 F (cosine 8000 f s) N * (1 / 2 : ℝ) +
      (spectrumAt 8000 F (cosine 8000 g s) N * (1 / 2 : ℝ) + z) := by
  refine ⟨spectrumAt 8000 F (fun n => b.signal n - dcurSample (f, g) (s + n : ℕ)) N, ?_, ?_⟩
  · refine (norm_spectrumAt_le h.near).trans (le_of_eq ?_)
    ring
  · have hsignal : b.signal = fun n => cosine 8000 f s n * (1 / 2) +
        (cosine 8000 g s n * (1 / 2) + (b.signal n - dcurSample (f, g) (s + n : ℕ))) := by
      funext n
      simp only [cosine, dcurSample_eq, Int.cast_natCast]
      ring
    rw [← spectrumAt_mul, ← spectrumAt_mul, ← spectrumAt_add, ← spectrumAt_add, ← hsignal]

theorem norm_mul_half (z : ℂ) : ‖z * (1 / 2 : ℝ)‖ = ‖z‖ / 2 := by
  rw [norm_mul, Complex.norm_real, Real.norm_eq_abs, abs_of_pos (by norm_num)]
  ring

/-- At its own frequency. -/
theorem Sounds.strong (h : Sounds N (f, g) s b) (hf : Tabled f) (hg : Tabled g)
    (hfg : Apart 268 g f) :
    (N : ℝ) / 4 - N / 100 - 6 ≤ ‖spectrumAt 8000 f b.signal N‖ ∧
      ‖spectrumAt 8000 f b.signal N‖ ≤ N / 4 + N / 100 + 6 := by
  obtain ⟨z, hz, hsplit⟩ := h.split f
  have hf697 : (697 : ℝ) ≤ f := by exact_mod_cast hf.1
  have hf1633 : (f : ℝ) ≤ 1633 := by exact_mod_cast hf.2
  have hself := abs_le.mp
    (norm_spectrumAt_cosine_self (R := 8000) (f := (f : ℝ)) (by linarith) (by linarith) s N)
  have hsmall : (8000 : ℝ) / (8 * f) ≤ 3 / 2 := by
    rw [div_le_iff₀ (by linarith)]
    linarith
  have hother := norm_spectrumAt_apart_le hfg (by decide) hg hf s N
  have hrest : ‖spectrumAt 8000 f (cosine 8000 g s) N * (1 / 2 : ℝ) + z‖ ≤
      9 / 2 + N / 100 := by
    refine (norm_add_le _ _).trans (add_le_add ?_ hz)
    rw [norm_mul_half]
    refine (div_le_div_of_nonneg_right hother two_pos.le).trans ?_
    norm_num
  have htotal := abs_norm_sub_norm_le (spectrumAt 8000 f b.signal N)
    (spectrumAt 8000 f (cosine 8000 f s) N * (1 / 2 : ℝ))
  rw [hsplit, add_sub_cancel_left, ← hsplit, norm_mul_half] at htotal
  have htotal := abs_le.mp htotal
  constructor <;> linarith

/-- At another one. -/
theorem Sounds.weak (h : Sounds N (f, g) s b) (hf : Tabled f) (hg : Tabled g) (hF : Tabled F)
    (hfF : Apart 73 f F) (hgF : Apart 268 g F) :
    ‖spectrumAt 8000 F b.signal N‖ ≤ 19 + N / 100 := by
  obtain ⟨z, hz, hsplit⟩ := h.split F
  have hnear := norm_spectrumAt_apart_le hfF (by decide) hf hF s N
  have hfar := norm_spectrumAt_apart_le hgF (by decide) hg hF s N
  have hadd := norm_add₃_le (a := spectrumAt 8000 F (cosine 8000 f s) N * (1 / 2 : ℝ))
    (b := spectrumAt 8000 F (cosine 8000 g s) N * (1 / 2 : ℝ)) (c := z)
  rw [norm_mul_half, norm_mul_half, add_assoc, ← hsplit] at hadd
  norm_num at hnear hfar
  linarith

/-! ## The powers -/

theorem power_eq (hb : b.samples.length = N) (F : ℕ) :
    power N F b = 2 / (N : ℝ) ^ 2 * ‖spectrumAt 8000 F b.signal N‖ ^ 2 := by
  unfold power spectrumAt
  rw [hb]
  simp only [Complex.ofReal_natCast, Complex.ofReal_ofNat]

theorem power_le_power {G : ℕ} {k : ℝ} (hb : b.samples.length = N)
    (h : ‖spectrumAt 8000 F b.signal N‖ ≤ k * ‖spectrumAt 8000 G b.signal N‖) :
    power N F b ≤ k ^ 2 * power N G b := by
  have hsq := pow_le_pow_left₀ (norm_nonneg _) h 2
  have hscale := mul_le_mul_of_nonneg_left hsq (show 0 ≤ 2 / (N : ℝ) ^ 2 by positivity)
  rw [power_eq hb, power_eq hb]
  refine hscale.trans (le_of_eq ?_)
  ring

theorem le_power (hpos : 0 < N) (hb : b.samples.length = N)
    (h : (N : ℝ) / 5 ≤ ‖spectrumAt 8000 F b.signal N‖) : 2 / 25 ≤ power N F b := by
  have hN : (0 : ℝ) < N := by exact_mod_cast hpos
  have hsq := pow_le_pow_left₀ (by positivity) h 2
  have hscale := mul_le_mul_of_nonneg_left hsq (show 0 ≤ 2 / (N : ℝ) ^ 2 by positivity)
  rw [power_eq hb]
  refine le_trans (le_of_eq ?_) hscale
  field_simp
  norm_num

/-- A frequency of the tone leads those of its group. -/
theorem Sounds.leads {freq : Fin 4 → ℕ} {i : Fin 4} (hN : 200 ≤ N)
    (h : Sounds N (freq i, g) s b) (hfreq : ∀ j, Tabled (freq j)) (hg : Tabled g)
    (hapart : ∀ j, j ≠ i → Apart 73 (freq i) (freq j)) (hother : ∀ j, Apart 268 g (freq j)) :
    Leads (fun j => power N (freq j) b) i := by
  have hlong : (200 : ℝ) ≤ N := by exact_mod_cast hN
  obtain ⟨hlow, -⟩ := h.strong (hfreq i) hg (hother i)
  have hhigh : 2 / 25 ≤ power N (freq i) b := le_power (by omega) h.length (by linarith)
  refine ⟨by linarith, fun j hj => ?_⟩
  have hweak := h.weak (hfreq i) hg (hfreq j) (hapart j hj) (hother j)
  have hhalf : power N (freq j) b ≤ (1 / 2) ^ 2 * power N (freq i) b :=
    power_le_power h.length (by linarith)
  have hnonneg := power_nonneg N (freq j) b
  have hsix : SIX_DB ≤ 4 := by norm_num [SIX_DB]
  calc SIX_DB * power N (freq j) b ≤ 4 * power N (freq j) b :=
        mul_le_mul_of_nonneg_right hsix hnonneg
    _ ≤ power N (freq i) b := by linarith

end Sounds

/-- A block of 200 samples or more that has a tone is given this tone. -/
theorem toneTest_sounds {N s : ℕ} {b : Block} {row col : Fin 4} (hN : 200 ≤ N) (hmax : N ≤ 65535)
    (h : Sounds N (rowFreq row, colFreq col) s b) :
    (toneTest N b).verdict = some (row, col) := by
  have hlong : (200 : ℝ) ≤ N := by exact_mod_cast hN
  have hrows : ∀ i, 0 ≤ power N (rowFreq i) b := fun i => power_nonneg N _ b
  have hcols : ∀ i, 0 ≤ power N (colFreq i) b := fun i => power_nonneg N _ b
  have hrow : Leads (fun i => power N (rowFreq i) b) row :=
    h.leads hN tabled_rowFreq (tabled_colFreq col) (rowFreq_apart row)
      fun j => (rowFreq_colFreq_apart j col).symm
  have hcol : Leads (fun i => power N (colFreq i) b) col :=
    h.swap.leads hN tabled_colFreq (tabled_rowFreq row) (colFreq_apart col)
      fun j => rowFreq_colFreq_apart row j
  obtain ⟨hrlow, hrhigh⟩ := h.strong (tabled_rowFreq row) (tabled_colFreq col)
    (rowFreq_colFreq_apart row col).symm
  obtain ⟨hclow, hchigh⟩ := h.swap.strong (tabled_colFreq col) (tabled_rowFreq row)
    (rowFreq_colFreq_apart row col)
  have hrc : power N (rowFreq row) b ≤ (3 / 2) ^ 2 * power N (colFreq col) b :=
    power_le_power h.length (by linarith)
  have hcr : power N (colFreq col) b ≤ (3 / 2) ^ 2 * power N (rowFreq row) b :=
    power_le_power h.length (by linarith)
  have hlevel : 2 / 25 ≤ power N (rowFreq row) b :=
    le_power (by omega) h.length (by linarith)
  have hcol0 := hcols col
  rw [verdict_eq_some_iff]
  simp only [toneTest, goertzel_block_eq (show 1 ≤ N by omega) hmax, decide_eq_true_eq]
  refine ⟨(level_iff hrows hcols hrow hcol).mpr ⟨?_, ?_, ?_⟩,
    (toneOf_eq_some_iff hrows).mpr hrow, (toneOf_eq_some_iff hcols).mpr hcol⟩
  · norm_num [MINUS_20DB]
    linarith
  · norm_num [FOUR_DB]
    linarith
  · norm_num [FOUR_DB]
    linarith

/-! ## The samples that are computed -/

theorem abs_truncated_sub_le (x : ℝ) : |(truncated x : ℝ) - x| ≤ 1 := by
  have hfloor := Int.floor_le x
  have hfloor' := Int.lt_floor_add_one x
  have hceil := Int.le_ceil x
  have hceil' := Int.ceil_lt_add_one x
  rw [abs_le, truncated]
  split <;> constructor <;> linarith

theorem abs_truncated_le {x : ℝ} {n : ℤ} (h : |x| ≤ n) : |truncated x| ≤ n := by
  obtain ⟨hlow, hhigh⟩ := abs_le.mp h
  rw [truncated, abs_le]
  split
  · next hx =>
    have hn : 0 ≤ ⌊x⌋ := Int.floor_nonneg.mpr hx
    have hfloor : (⌊x⌋ : ℝ) ≤ n := (Int.floor_le x).trans hhigh
    have hle : ⌊x⌋ ≤ n := by exact_mod_cast hfloor
    exact ⟨by omega, hle⟩
  · next hx =>
    have hn : ⌈x⌉ ≤ 0 := Int.ceil_le.mpr (by push_cast; linarith)
    have hceil : -(n : ℝ) ≤ ⌈x⌉ := hlow.trans (Int.le_ceil x)
    have hle : -n ≤ ⌈x⌉ := by exact_mod_cast hceil
    exact ⟨hle, by omega⟩

theorem abs_dcurSample_le (freqs : ℕ × ℕ) (i : ℤ) : |dcurSample freqs i| ≤ 1 := by
  have h1 := abs_le.mp (Real.abs_cos_le_one (2 * Real.pi * freqs.1 * i / 8000))
  have h2 := abs_le.mp (Real.abs_cos_le_one (2 * Real.pi * freqs.2 * i / 8000))
  rw [dcurSample_eq, abs_le]
  constructor <;> linarith

theorem toInt_exactTone (freqs : ℕ × ℕ) (i : ℤ) :
    (exactTone freqs i).toInt = truncated (dcurSample freqs i * 32767) := by
  have hle : |dcurSample freqs i * 32767| ≤ ((32767 : ℤ) : ℝ) := by
    have := abs_dcurSample_le freqs i
    rw [abs_mul, abs_of_pos (show (0 : ℝ) < 32767 by norm_num)]
    push_cast
    linarith
  obtain ⟨hlow, hhigh⟩ := abs_le.mp (abs_truncated_le hle)
  rw [exactTone, cast_INT16_MAX, BitVec.toInt_ofInt]
  exact Int.bmod_eq_of_le (by omega) (by omega)

/-- The samples keep to the tone. -/
theorem exactTone_near (freqs : ℕ × ℕ) (i : ℤ) :
    |((exactTone freqs i).toInt : ℝ) / 32767 - dcurSample freqs i| ≤ 1 / 100 := by
  have hnear := abs_truncated_sub_le (dcurSample freqs i * 32767)
  have hscale : ((exactTone freqs i).toInt : ℝ) / 32767 - dcurSample freqs i =
      ((truncated (dcurSample freqs i * 32767) : ℝ) - dcurSample freqs i * 32767) / 32767 := by
    rw [toInt_exactTone]
    ring
  rw [hscale, abs_div, abs_of_pos (show (0 : ℝ) < 32767 by norm_num),
    div_le_iff₀ (by norm_num)]
  linarith

/-- A block of samples. -/
theorem sounds_of_samples {N s : ℕ} {freqs : ℕ × ℕ} {b : Block} {x : ℕ → BitVec 16}
    (hb : b.samples = (List.range N).map x)
    (hx : ∀ n < N, |((x n).toInt : ℝ) / 32767 - dcurSample freqs (s + n : ℕ)| ≤ 1 / 100) :
    Sounds N freqs s b := by
  refine ⟨by rw [hb, List.length_map, List.length_range], fun n hn => ?_⟩
  have hget : b.samples.getD n 0 = x n := by
    rw [hb, List.getD_eq_getElem?_getD, List.getElem?_map, List.getElem?_range hn, Option.map_some,
      Option.getD_some]
  rw [Block.signal, hget]
  exact hx n hn

/-- The symbol 1, in a block of 200 exact samples. -/
noncomputable def oneBlock : Block :=
  ⟨(List.range 199).map fun n : ℕ => exactTone (697, 1209) n, exactTone (697, 1209) 199⟩

theorem oneBlock_samples :
    oneBlock.samples = (List.range 200).map fun n : ℕ => exactTone (697, 1209) n := by
  rw [List.range_succ, List.map_append]
  rfl

theorem toneTest_verdict_iff_one :
    (toneTest 200 oneBlock).verdict = some (0, 0) ∧
      Leads (fun row => power 200 (rowFreq row) oneBlock) 0 ∧
      Leads (fun col => power 200 (colFreq col) oneBlock) 0 ∧
      MINUS_20DB ≤ power 200 (rowFreq 0) oneBlock + power 200 (colFreq 0) oneBlock ∧
      FOUR_DB * 0.01 * power 200 (colFreq 0) oneBlock ≤ power 200 (rowFreq 0) oneBlock ∧
      power 200 (rowFreq 0) oneBlock ≤ FOUR_DB * power 200 (colFreq 0) oneBlock := by
  have hsounds : Sounds 200 (697, 1209) 0 oneBlock :=
    sounds_of_samples oneBlock_samples fun n _ => by
      rw [Nat.zero_add]
      exact exactTone_near (697, 1209) n
  have hverdict : (toneTest 200 oneBlock).verdict = some (0, 0) :=
    toneTest_sounds (by decide) (by decide) hsounds
  exact ⟨hverdict, (toneTest_verdict_iff (by decide) (by decide) oneBlock 0 0).mp hverdict⟩

end StarterProjects.Dtmf
