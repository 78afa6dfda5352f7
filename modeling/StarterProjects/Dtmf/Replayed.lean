import StarterProjects.Dtmf.Groups
import StarterProjects.Dtmf.Indices

/-!
# Events that are told apart

Runs of blocks, each with a tone and with silence between them, and what `dtmf_detect` prints where
it hears these blocks as they are. The first run has to begin with the first block and to go on in
the second one, successive runs must have different tones, every run but the last has to last long
enough, and the indices have to fit. Then the lines are the runs (`replayed_events`).
-/

namespace StarterProjects.Dtmf

open Lib.Runs

/-! ## The runs -/

/-- The runs behind `r`. -/
def PlayableFrom (N : Nat) (r : Run Tone) : List (Run Tone) → Prop
  | [] => N * (r.last + 1) < 32768
  | r' :: rs => N * r.first + 240 ≤ N * (r.last + 1) ∧ r.last < r'.first ∧ r'.first ≤ r'.last ∧
      r'.value ≠ r.value ∧ PlayableFrom N r' rs

def Playable (N : Nat) : List (Run Tone) → Prop
  | [] => True
  | r :: rs => r.first = 0 ∧ 0 < r.last ∧ PlayableFrom N r rs

/-- The tone of a block. -/
def toneAtBlock (rs : List (Run Tone)) (k : Nat) : Option Tone :=
  match rs.find? fun r => k ≤ r.last with
  | some r => if r.first ≤ k then some r.value else none
  | none => none

/-- The test of a block that is heard as it is. -/
def heard : Option Tone → ToneTest
  | some t => ⟨some t.1, some t.2, true⟩
  | none => ⟨none, none, false⟩

def heardBlocks (rs : List (Run Tone)) (i m : Nat) : List ToneTest :=
  (List.range' i m).map fun k => heard (toneAtBlock rs k)

theorem toneAtBlock_gap {rs : List (Run Tone)} {r : Run Tone} {k : Nat} (h : k < r.first)
    (hle : r.first ≤ r.last) : toneAtBlock (r :: rs) k = none := by
  rw [toneAtBlock, List.find?_cons_of_pos (by simpa using by omega)]
  exact if_neg (by omega)

theorem toneAtBlock_run {rs : List (Run Tone)} {r : Run Tone} {k : Nat} (h : r.first ≤ k)
    (hle : k ≤ r.last) : toneAtBlock (r :: rs) k = some r.value := by
  rw [toneAtBlock, List.find?_cons_of_pos (by simpa using hle)]
  exact if_pos h

theorem toneAtBlock_behind {rs : List (Run Tone)} {r : Run Tone} {k : Nat} (h : r.last < k) :
    toneAtBlock (r :: rs) k = toneAtBlock rs k := by
  rw [toneAtBlock, List.find?_cons_of_neg (by simpa using h), toneAtBlock]

theorem heardBlocks_const {rs : List (Run Tone)} {i m : Nat} {v : Option Tone}
    (h : ∀ k, i ≤ k → k < i + m → toneAtBlock rs k = v) :
    heardBlocks rs i m = List.replicate m (heard v) := by
  refine List.eq_replicate_iff.mpr ⟨by rw [heardBlocks, List.length_map, List.length_range'], ?_⟩
  intro b hb
  obtain ⟨k, hk, rfl⟩ := List.mem_map.mp hb
  obtain ⟨hge, hlt⟩ := List.mem_range'_1.mp hk
  rw [h k hge hlt]

/-- Up to the end of the first run. -/
theorem heardBlocks_cons {rs : List (Run Tone)} {r : Run Tone} {i m : Nat} (hi : i ≤ r.first)
    (hle : r.first ≤ r.last) (hm : r.last + 1 ≤ i + m) :
    heardBlocks (r :: rs) i m = List.replicate (r.first - i) (heard none) ++
      (List.replicate (r.last + 1 - r.first) (heard (some r.value)) ++
        heardBlocks rs (r.last + 1) (i + m - (r.last + 1))) := by
  have hgap : heardBlocks (r :: rs) i (r.first - i) = List.replicate (r.first - i) (heard none) :=
    heardBlocks_const fun k _ hk => toneAtBlock_gap (by omega) hle
  have hrun : heardBlocks (r :: rs) r.first (r.last + 1 - r.first) =
      List.replicate (r.last + 1 - r.first) (heard (some r.value)) :=
    heardBlocks_const fun k hk hlt => toneAtBlock_run hk (by omega)
  have hbehind : heardBlocks rs (r.last + 1) (i + m - (r.last + 1)) =
      heardBlocks (r :: rs) (r.last + 1) (i + m - (r.last + 1)) := by
    refine List.map_congr_left fun k hk => ?_
    have hge := (List.mem_range'_1.mp hk).1
    rw [toneAtBlock_behind (by omega)]
  rw [hbehind, ← hgap, ← hrun, heardBlocks, heardBlocks, heardBlocks, heardBlocks,
    ← List.map_append, ← List.map_append]
  congr 1
  have hfirst : r.first = i + (r.first - i) := by omega
  have hlast : r.last + 1 = r.first + (r.last + 1 - r.first) := by omega
  have htail : List.range' r.first (r.last + 1 - r.first) ++
      List.range' (r.last + 1) (i + m - (r.last + 1)) = List.range' r.first (i + m - r.first) := by
    rw [show List.range' (r.last + 1) (i + m - (r.last + 1)) =
        List.range' (r.first + (r.last + 1 - r.first)) (i + m - (r.last + 1)) by rw [← hlast],
      List.range'_append_1]
    congr 1
    omega
  rw [htail, show List.range' r.first (i + m - r.first) =
      List.range' (i + (r.first - i)) (i + m - r.first) by rw [← hfirst], List.range'_append_1]
  congr 1
  omega

/-! ## The loop -/

theorem storedEvents_nil (N : Nat) (s : DetectState) : storedEvents N [] s = s.stored.finish :=
  List.nil_append _

/-- Silence before any tone. -/
theorem storedEvents_unstarted {N : Nat} (n : Nat) {i : Nat} {s : DetectState}
    (h : Tracks N i s none) : storedEvents N (List.replicate n (heard none)) s = [] := by
  induction n generalizing i s with
  | zero =>
    rw [List.replicate_zero, storedEvents_nil, stored_finish h]
    rfl
  | succ n ih =>
    rw [List.replicate_succ, storedEvents_cons, detectBlock_stored_silent (b := heard none) rfl,
      List.nil_append]
    exact ih (detectBlock_silent (b := heard none) rfl h).1

/-- The variables after `i` blocks, the last tone of which is that of the phase. -/
structure At (N i : Nat) (s : DetectState) (p : Phase) : Prop where
  tracks : Tracks N i s (some p)
  row : s.curRowTone = 4 * (p.tone.1.val : Int)
  col : s.curColTone = (p.tone.2.val : Int)

section Loop

variable {N i : Nat} {s : DetectState} {p : Phase}

theorem At.silence (h : At N i s p) (n : Nat) (cs : List ToneTest) :
    ∃ s', storedEvents N (List.replicate n (heard none) ++ cs) s = storedEvents N cs s' ∧
      At N (i + n) s' p := by
  induction n generalizing i s with
  | zero => exact ⟨s, rfl, h⟩
  | succ n ih =>
    obtain ⟨htracks, -⟩ := detectBlock_silent (b := heard none) rfl h.tracks
    have hnext : At N (i + 1) (detectBlock id N (heard none) s).1 p :=
      ⟨htracks, (detectBlock_curRowTone N _ s).trans h.row,
        (detectBlock_curColTone N _ s).trans h.col⟩
    obtain ⟨s', hevents, hs'⟩ := ih hnext
    refine ⟨s', ?_, by rw [Nat.add_comm n, ← Nat.add_assoc]; exact hs'⟩
    rw [List.replicate_succ, List.cons_append, storedEvents_cons,
      detectBlock_stored_silent (b := heard none) rfl, List.nil_append, hevents]

/-- A block with a tone. -/
theorem detect_heard {σ : Option Phase} (h : Tracks N i s σ) (t : Tone) (cs : List ToneTest) :
    ∃ s', storedEvents N (heard (some t) :: cs) s = storedChange t σ ++ storedEvents N cs s' ∧
      Tracks N (i + 1) s' (some (runStep N σ ⟨i, i, t⟩).1) ∧
      s'.curRowTone = 4 * (t.1.val : Int) ∧ s'.curColTone = (t.2.val : Int) := by
  obtain ⟨htracks, -⟩ := detectBlock_tone (b := heard (some t)) rfl h
  refine ⟨_, ?_, htracks, detectBlock_curRowTone N _ s, detectBlock_curColTone N _ s⟩
  rw [storedEvents_cons, detectBlock_stored_tone (b := heard (some t)) rfl h]

/-- The same tone goes on. -/
theorem At.more (h : At N i s p) (n : Nat) (cs : List ToneTest) :
    ∃ s', storedEvents N (List.replicate n (heard (some p.tone)) ++ cs) s = storedEvents N cs s' ∧
      At N (i + n) s' { p with endIdx := if n = 0 then p.endIdx else (N * (i + n) : Nat) } := by
  induction n generalizing i s p with
  | zero => exact ⟨s, rfl, h⟩
  | succ n ih =>
    obtain ⟨s₁, hevents, htracks, hrow, hcol⟩ :=
      detect_heard h.tracks p.tone (List.replicate n (heard (some p.tone)) ++ cs)
    have hphase : (runStep N (some p) ⟨i, i, p.tone⟩).1 =
        { p with endIdx := (N * (i + 1) : Nat) } := by
      simp [runStep]
    rw [hphase] at htracks
    have hnext : At N (i + 1) s₁ { p with endIdx := (N * (i + 1) : Nat) } := ⟨htracks, hrow, hcol⟩
    obtain ⟨s', hevents', hs'⟩ := ih hnext
    refine ⟨s', ?_, ?_⟩
    · rw [List.replicate_succ, List.cons_append, hevents, storedChange, if_pos rfl, List.nil_append,
        hevents']
    · rw [if_neg (Nat.succ_ne_zero n), Nat.add_comm n, ← Nat.add_assoc]
      rcases Nat.eq_zero_or_pos n with rfl | hn
      · exact hs'
      · rw [if_neg (by omega)] at hs'
        exact hs'

/-- Another tone, for `n + 1` blocks. -/
theorem At.change (h : At N i s p) {t : Tone} (ht : t ≠ p.tone) (n : Nat) (cs : List ToneTest) :
    ∃ s', storedEvents N (List.replicate (n + 1) (heard (some t)) ++ cs) s =
        p.stored.change ++ storedEvents N cs s' ∧
      At N (i + n + 1) s' ⟨(N * i : Nat), (N * (i + n + 1) : Nat), t⟩ := by
  obtain ⟨s₁, hevents, htracks, hrow, hcol⟩ :=
    detect_heard h.tracks t (List.replicate n (heard (some t)) ++ cs)
  have hphase : (runStep N (some p) ⟨i, i, t⟩).1 = ⟨(N * i : Nat), (N * (i + 1) : Nat), t⟩ := by
    simp [runStep, ht]
  rw [hphase] at htracks
  have hnext : At N (i + 1) s₁ ⟨(N * i : Nat), (N * (i + 1) : Nat), t⟩ := ⟨htracks, hrow, hcol⟩
  obtain ⟨s', hevents', hs'⟩ := hnext.more n cs
  refine ⟨s', ?_, ?_⟩
  · rw [List.replicate_succ, List.cons_append, hevents, storedChange, if_neg ht, hevents']
  · rw [Nat.add_right_comm]
    rcases Nat.eq_zero_or_pos n with rfl | hn
    · exact hs'
    · rw [if_neg (by omega)] at hs'
      exact hs'

end Loop

/-! ## The lines -/

/-- The phase of a run. -/
def runPhase (N : Nat) (r : Run Tone) : Phase :=
  ⟨(N * r.first : Nat), (N * (r.last + 1) : Nat), r.value⟩

theorem PlayableFrom.fits {N : Nat} : ∀ {rs : List (Run Tone)} {r : Run Tone},
    PlayableFrom N r rs → N * (r.last + 1) < 32768
  | [], _, h => h
  | r' :: rs, r, ⟨_, hlt, hle, _, h⟩ => by
    have hlater := h.fits
    have hmul : N * (r.last + 1) ≤ N * (r'.last + 1) := Nat.mul_le_mul_left N (by omega)
    omega

/-- Nothing is lost in the variables. -/
theorem runPhase_stored {N : Nat} {r : Run Tone} (hle : r.first ≤ r.last)
    (hfits : N * (r.last + 1) < 32768) : (runPhase N r).stored = runPhase N r := by
  have hmul : N * r.first ≤ N * (r.last + 1) := Nat.mul_le_mul_left N (by omega)
  have hstart : int16 ((N * r.first : Nat) : Int) = (N * r.first : Nat) := int16_of_lt (by omega)
  have hend : int16 ((N * (r.last + 1) : Nat) : Int) = (N * (r.last + 1) : Nat) := int16_of_lt hfits
  simp only [Phase.stored, runPhase, hstart, hend]

/-- The line of a run that another tone ends. -/
theorem runPhase_change {N : Nat} {r : Run Tone} (hle : r.first ≤ r.last)
    (hfits : N * (r.last + 1) < 32768) (hlong : N * r.first + 240 ≤ N * (r.last + 1)) :
    (runPhase N r).stored.change = [runEvent N r] := by
  have hlasts : 240 ≤ (runPhase N r).endIdx - (runPhase N r).startIdx := by
    show (240 : Int) ≤ (N * (r.last + 1) : Nat) - (N * r.first : Nat)
    omega
  rw [runPhase_stored hle hfits, Phase.change, if_pos hlasts, runPhase, runEvent, toneOffset]
  push_cast
  rfl

/-- The line of the last run. -/
theorem At.finish {N i : Nat} {s : DetectState} {r : Run Tone} (hN : 0 < N)
    (h : At N i s (runPhase N r)) (hfits : N * (r.last + 1) < 32768) (hle : r.first ≤ r.last) :
    storedEvents N [] s = [runEvent N r] := by
  have hpos : (runPhase N r).endIdx > 0 := by
    show (0 : Int) < (N * (r.last + 1) : Nat)
    exact_mod_cast Nat.mul_pos hN (Nat.succ_pos r.last)
  rw [storedEvents_nil, stored_finish h.tracks, h.row, h.col, Option.map_some,
    runPhase_stored hle hfits, finishWith, if_pos hpos, runPhase, runEvent]
  push_cast
  rfl

/-- From the end of a run on. -/
theorem replayed_from {N : Nat} (hN : 0 < N) {q : Nat} :
    ∀ {rs : List (Run Tone)} {r : Run Tone} {s : DetectState} {m : Nat}, PlayableFrom N r rs →
      r.first ≤ r.last → (∀ r' ∈ rs, r'.last + 1 ≤ r.last + 1 + m) →
      At N (r.last + 1) s (runPhase N r) →
        storedEvents N (heardBlocks rs (r.last + 1) m ++ List.replicate q (heard none)) s =
          runEvent N r :: rs.map (runEvent N)
  | [], r, s, m, h, hle, _, hs => by
    have hsilent : heardBlocks [] (r.last + 1) m = List.replicate m (heard none) :=
      heardBlocks_const fun _ _ _ => rfl
    obtain ⟨s', hevents, hs'⟩ := hs.silence (m + q) []
    rw [hsilent, List.replicate_append_replicate, ← List.append_nil (List.replicate (m + q) _),
      hevents]
    exact hs'.finish hN h hle
  | r' :: rs, r, s, m, h, hle, hm, hs => by
    have hfits := h.fits
    obtain ⟨hlong, hlt, hle', hne, hrest⟩ := h
    have hend := hm r' List.mem_cons_self
    rw [heardBlocks_cons hlt hle' hend, List.append_assoc, List.append_assoc]
    obtain ⟨s₁, hevents₁, hs₁⟩ := hs.silence (r'.first - (r.last + 1)) _
    rw [hevents₁]
    have hi : r.last + 1 + (r'.first - (r.last + 1)) = r'.first := by omega
    rw [hi] at hs₁
    obtain ⟨n, hn⟩ : ∃ n, r'.last + 1 - r'.first = n + 1 := ⟨r'.last - r'.first, by omega⟩
    rw [hn]
    obtain ⟨s₂, hevents₂, hs₂⟩ := hs₁.change (t := r'.value) hne n _
    rw [hevents₂, runPhase_change hle hfits hlong]
    have hi' : r'.first + n + 1 = r'.last + 1 := by omega
    rw [hi'] at hs₂
    have hmore := replayed_from hN (q := q) (m := r.last + 1 + m - (r'.last + 1)) hrest hle'
      (fun r'' hr'' => by
        have := hm r'' (List.mem_cons_of_mem _ hr'')
        omega) hs₂
    rw [hmore]
    rfl

/-- The lines are the runs, whatever silence follows. -/
theorem replayed_events {N m q : Nat} (hN : 0 < N) {rs : List (Run Tone)} (h : Playable N rs)
    (hm : ∀ r ∈ rs, r.last + 1 ≤ m) :
    dtmf_detect_events int16 N (heardBlocks rs 0 m ++ List.replicate q (heard none)) =
      rs.map (runEvent N) := by
  have hstored : dtmf_detect_events int16 N (heardBlocks rs 0 m ++ List.replicate q (heard none)) =
      storedEvents N (heardBlocks rs 0 m ++ List.replicate q (heard none)) {} := rfl
  have hstart : Tracks N 0 {} none := ⟨by simp, rfl, rfl, rfl, rfl⟩
  rw [hstored]
  cases rs with
  | nil =>
    rw [heardBlocks_const (v := none) fun _ _ _ => rfl, List.replicate_append_replicate]
    exact storedEvents_unstarted _ hstart
  | cons r rs =>
    obtain ⟨hfirst, hlast, hrest⟩ := h
    have hend := hm r List.mem_cons_self
    have hle : r.first ≤ r.last := by omega
    rw [heardBlocks_cons (Nat.zero_le _) hle (by omega), hfirst, List.replicate_zero,
      List.nil_append, List.append_assoc]
    obtain ⟨n, hn⟩ : ∃ n, r.last + 1 - 0 = n + 1 + 1 := ⟨r.last - 1, by omega⟩
    rw [hn, List.replicate_succ, List.cons_append]
    -- the first block of all is not counted yet
    obtain ⟨s₁, hevents₁, htracks₁, hrow₁, hcol₁⟩ := detect_heard hstart r.value
      (List.replicate (n + 1) (heard (some r.value)) ++
        (heardBlocks rs (r.last + 1) (0 + m - (r.last + 1)) ++ List.replicate q (heard none)))
    have hs₁ : At N (0 + 1) s₁ ⟨0, 0, r.value⟩ := ⟨htracks₁, hrow₁, hcol₁⟩
    obtain ⟨s₂, hevents₂, hs₂⟩ := hs₁.more (n + 1)
      (heardBlocks rs (r.last + 1) (0 + m - (r.last + 1)) ++ List.replicate q (heard none))
    have hphase : (⟨0, if n + 1 = 0 then 0 else (N * (0 + 1 + (n + 1)) : Nat), r.value⟩ : Phase) =
        runPhase N r := by
      rw [if_neg (Nat.succ_ne_zero n), runPhase, hfirst, Nat.mul_zero]
      congr 3
      omega
    have hs₂ : At N (r.last + 1) s₂ (runPhase N r) := by
      rw [← hphase, show r.last + 1 = 0 + 1 + (n + 1) by omega]
      exact hs₂
    rw [hevents₁, storedChange, List.nil_append, hevents₂]
    exact replayed_from hN hrest hle (fun r' hr' => by
      have := hm r' (List.mem_cons_of_mem _ hr')
      omega) hs₂

end StarterProjects.Dtmf
