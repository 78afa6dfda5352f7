import StarterProjects.Dtmf.Blocks
import StarterProjects.Dtmf.Segments
import Mathlib.Algebra.Order.Floor.Div

/-!
# The indices of the events

`dtmf_detect` keeps its three indices in variables of type `int16_t`. Its decisions depend on them
only where an event is long enough to be printed: `detectBlock_stored` says that the loop goes
through the same states as one with unbounded indices, each stored into 16 bits. An index of `32768`
or more is negative there, and an event that reaches over that index is not printed; one that
starts behind it is.
-/

namespace StarterProjects.Dtmf

open Lib.Runs

variable {N i : Nat}

/-! ## What the indices of the events should be -/

structure IndicesRight (N T : Nat) (events : List Event) : Prop where
  inside : ∀ e ∈ events, 0 ≤ e.startIdx ∧ e.startIdx < e.endIdx ∧ e.endIdx ≤ T
  aligned : ∀ e ∈ events, (N : Int) ∣ e.startIdx ∧ (N : Int) ∣ e.endIdx
  apart : events.Pairwise fun e e' => e.endIdx ≤ e'.startIdx

/-- The lengths of the streams whose events have the right indices. An event that starts behind
the last index that fits and is long enough is printed with the next change of tone. A block that
is not whole is part of the last event, unless that is not printed. -/
def IndicesFit (N T : Nat) : Prop :=
  T < N ∨ evaluatedBlocks N 0 T ≤ 32768 ⌈/⌉ N + 240 ⌈/⌉ N ∧
    (evaluatedBlocks N 0 T = T / N ∨ 32768 ≤ N * evaluatedBlocks N 0 T)

/-! ## Indices of 16 bits -/

theorem int16_of_lt {n : Nat} (h : n < 32768) : int16 n = n :=
  Int.bmod_eq_of_le (by omega) (by omega)

theorem int16_of_ge {n : Nat} (h : 32768 ≤ n) (hlt : n < 65536) : int16 n = n - 65536 := by
  have hshift : int16 n = ((n : Int) - 65536).bmod 65536 := (Int.sub_bmod_right n 65536).symm
  rw [hshift]
  exact Int.bmod_eq_of_le (by omega) (by omega)

theorem int16_add (x y : Int) : int16 (int16 x + y) = int16 (x + y) := Int.bmod_add_bmod

theorem int16_sub (x y : Int) : int16 (int16 x - y) = int16 (x - y) := Int.bmod_sub_bmod

/-- The variables with their indices in 16 bits. -/
def DetectState.stored (s : DetectState) : DetectState :=
  { s with startIdx := int16 s.startIdx, endIdx := int16 s.endIdx, curIdx := int16 s.curIdx }

def Phase.stored (p : Phase) : Phase :=
  { p with startIdx := int16 p.startIdx, endIdx := int16 p.endIdx }

/-- No decision about the variables depends on the indices. -/
theorem detectBlock_stored (N : Nat) (b : ToneTest) (s : DetectState) :
    (detectBlock int16 N b s.stored).1 = (detectBlock id N b s).1.stored := by
  simp only [detectBlock, DetectState.stored, id, int16_add, int16_sub]
  split_ifs <;> rfl

theorem detectBlocks_stored (N : Nat) (bs : List ToneTest) (s : DetectState) :
    (detectBlocks int16 N bs s.stored).1 = (detectBlocks id N bs s).1.stored := by
  induction bs generalizing s with
  | nil => rfl
  | cons b bs ih =>
      simp only [detectBlocks]
      rw [detectBlock_stored, ih]

/-- What a block with a tone prints. -/
def storedChange (t : Tone) : Option Phase → List Event
  | none => []
  | some p => if t = p.tone then [] else p.stored.change

theorem detectBlock_stored_silent {b : ToneTest} (hb : b.verdict = none) (s : DetectState) :
    (detectBlock int16 N b s).2 = [] := by
  simp only [detectBlock, verdict_eq_none hb]
  rfl

theorem detectBlock_stored_tone {b : ToneTest} {s : DetectState} {σ : Option Phase} {t : Tone}
    (hb : b.verdict = some t) (h : Tracks N i s σ) :
    (detectBlock int16 N b s.stored).2 = storedChange t σ := by
  rw [verdict_eq_some hb]
  cases σ with
  | none =>
      obtain ⟨-, hrow, hcol, -, -⟩ := h
      simp only [detectBlock, DetectState.stored, Option.elim_some, Option.isSome_some,
        Bool.and_self, if_true, hrow, hcol, and_self, storedChange]
  | some p =>
      obtain ⟨hidx, hrow, hcol, hstart, hend⟩ := h
      have hset : ¬(s.prevRowTone = -1 ∧ s.prevColTone = -1) := by omega
      have hsame : (4 * (t.1.val : Int) = s.prevRowTone ∧ (t.2.val : Int) = s.prevColTone) ↔
          t = p.tone := by
        rw [hrow, hcol, Prod.ext_iff, Fin.ext_iff, Fin.ext_iff]
        omega
      simp only [detectBlock, DetectState.stored, Option.elim_some, Option.isSome_some,
        Bool.and_self, if_true, if_neg hset, hsame, storedChange]
      by_cases htone : t = p.tone
      · rw [if_pos htone, if_pos htone]
      · rw [if_neg htone, if_neg htone]
        simp only [DetectState.change, Phase.change, Phase.stored, duration_iff, hrow, hcol,
          hstart, hend, toneOffset]
        rfl

/-! ## Streams whose events have the right indices -/

theorem lt_wrapped_iff (hN : 0 < N) {k : Nat} : k < 32768 ⌈/⌉ N ↔ N * k < 32768 := by
  rw [← not_le, ceilDiv_le_iff_le_mul hN, not_le]

/-- The indices of the blocks up to the first event with negative ones still fit twice. -/
theorem mul_wrapped_lt (hN : 0 < N) (hmax : N ≤ 1000) {k : Nat}
    (h : k ≤ 32768 ⌈/⌉ N + 240 ⌈/⌉ N) : N * k < 65536 := by
  have hwrapped : N * (32768 ⌈/⌉ N) ≤ 32768 + N - 1 := Nat.mul_div_le _ _
  have hmin : N * (240 ⌈/⌉ N) ≤ 240 + N - 1 := Nat.mul_div_le _ _
  have hle : N * k ≤ N * (32768 ⌈/⌉ N + 240 ⌈/⌉ N) := Nat.mul_le_mul_left N h
  rw [Nat.mul_add] at hle
  omega

/-- After `i` blocks, the event of a phase reaches from the start of the block `a` to that of the
block `b`, or has not begun. -/
structure Phase.Aligned (N i : Nat) (p : Phase) (a b : Nat) : Prop where
  start : p.startIdx = N * a
  finish : p.endIdx = N * b
  le : b ≤ i
  proper : a < b ∧ b ≠ 1 ∨ a = 0 ∧ b = 0
  pos : 0 < i

variable {p : Phase} {a b : Nat}

theorem Phase.Aligned.succ (h : p.Aligned N i a b) : p.Aligned N (i + 1) a b :=
  ⟨h.start, h.finish, by have := h.le; omega, h.proper, Nat.succ_pos i⟩

/-- A block of the same tone moves the end. -/
theorem Phase.Aligned.extend (h : p.Aligned N i a b) {t : Tone} (ht : t = p.tone) :
    (runStep N (some p) ⟨i, i, t⟩).1.Aligned N (i + 1) a (i + 1) := by
  have hle := h.le
  have hpos := h.pos
  have hproper := h.proper
  rw [runStep, if_pos ht]
  exact ⟨h.start, by push_cast; rfl, Nat.le_refl _, Or.inl (by omega), Nat.succ_pos i⟩

/-- A block of another tone begins an event. -/
theorem Phase.Aligned.change (h : p.Aligned N i a b) {t : Tone} (ht : t ≠ p.tone) :
    (runStep N (some p) ⟨i, i, t⟩).1.Aligned N (i + 1) i (i + 1) := by
  have hpos := h.pos
  rw [runStep, if_neg ht]
  exact ⟨rfl, by push_cast; rfl, Nat.le_refl _, Or.inl (by omega), Nat.succ_pos i⟩

/-- The lines for whole blocks from `lo` up to `hi`, in order. -/
structure EventsWithin (N lo hi : Nat) (events : List Event) : Prop where
  blocks : ∀ e ∈ events, ∃ a b : Nat, e.startIdx = N * a ∧ e.endIdx = N * b ∧ lo ≤ a ∧ a < b ∧
    b ≤ hi ∧ b ≠ 1 ∧ N * b < 32768
  apart : events.Pairwise fun e e' => e.endIdx ≤ e'.startIdx

theorem eventsWithin_nil (N lo hi : Nat) : EventsWithin N lo hi [] :=
  ⟨by simp, List.Pairwise.nil⟩

/-- A line before the others. -/
theorem EventsWithin.cons {lo hi : Nat} {es : List Event} (h : EventsWithin N lo hi es)
    {symbol : Char} (hle : b ≤ lo) (hlt : a < b) (hhi : b ≤ hi) (hone : b ≠ 1)
    (hfits : N * b < 32768) :
    EventsWithin N a hi (⟨N * a, N * b, symbol⟩ :: es) := by
  constructor
  · intro e he
    rcases List.mem_cons.mp he with rfl | he
    · exact ⟨a, b, rfl, rfl, Nat.le_refl a, hlt, hhi, hone, hfits⟩
    · obtain ⟨a', b', hstart, hend, hlo, hrest⟩ := h.blocks e he
      exact ⟨a', b', hstart, hend, by omega, hrest⟩
  · refine List.pairwise_cons.mpr ⟨?_, h.apart⟩
    intro e he
    obtain ⟨a', -, hstart, -, hlo, -⟩ := h.blocks e he
    rw [hstart]
    change (N : Int) * b ≤ N * a'
    exact_mod_cast Nat.mul_le_mul_left N (Nat.le_trans hle hlo)

theorem EventsWithin.mono {lo lo' hi : Nat} {es : List Event} (h : EventsWithin N lo' hi es)
    (hle : lo ≤ lo') : EventsWithin N lo hi es := by
  refine ⟨?_, h.apart⟩
  intro e he
  obtain ⟨a', b', hstart, hend, hlo, hrest⟩ := h.blocks e he
  exact ⟨a', b', hstart, hend, by omega, hrest⟩

/-- An index is positive in 16 bits where it fits. -/
theorem int16_pos_iff {k : Nat} (h : N * k < 65536) :
    0 < int16 (N * k) ↔ 0 < N * k ∧ N * k < 32768 := by
  have hcast : ((N * k : Nat) : Int) = N * k := Nat.cast_mul N k
  rw [← hcast]
  rcases Nat.lt_or_ge (N * k) 32768 with hlt | hge
  · rw [int16_of_lt hlt]
    omega
  · rw [int16_of_ge hge h]
    omega

/-- An event that begins behind the last index that fits is too short, where few blocks follow. -/
theorem lt_of_reported (hN : 0 < N) (hmax : N ≤ 1000) (hle : a ≤ b)
    (hfit : b < 32768 ⌈/⌉ N + 240 ⌈/⌉ N)
    (h : 240 ≤ int16 ((N * b : Nat) : Int) - int16 ((N * a : Nat) : Int)) : N * b < 32768 := by
  by_contra hge
  have hb := mul_wrapped_lt hN hmax (Nat.le_of_lt hfit)
  have ha : N * a ≤ N * b := Nat.mul_le_mul_left N hle
  rw [int16_of_ge (by omega) hb] at h
  rcases Nat.lt_or_ge (N * a) 32768 with hlt | hbehind
  · rw [int16_of_lt hlt] at h
    omega
  · rw [int16_of_ge hbehind (by omega)] at h
    have hwrapped : 32768 ⌈/⌉ N ≤ a := (ceilDiv_le_iff_le_mul hN).mpr hbehind
    have hlong : 240 ⌈/⌉ N ≤ b - a := by
      rw [ceilDiv_le_iff_le_mul hN, Nat.mul_sub]
      omega
    omega

/-- What is printed at a change of tone fits. -/
theorem Phase.Aligned.change_fits (h : p.Aligned N i a b) (hN : 0 < N) (hmax : N ≤ 1000)
    (hfit : i < 32768 ⌈/⌉ N + 240 ⌈/⌉ N) :
    p.stored.change = [] ∨
      p.stored.change = [⟨N * a, N * b, symbolAt (toneOffset p.tone)⟩] ∧ a < b ∧ b ≠ 1 ∧
        N * b < 32768 := by
  obtain ⟨hstart, hend, hle, hproper, -⟩ := h
  have hab : a ≤ b := by omega
  have ha : N * a ≤ N * b := Nat.mul_le_mul_left N hab
  rw [Phase.change]
  by_cases hlong : 240 ≤ p.stored.endIdx - p.stored.startIdx
  · have hlong' := hlong
    simp only [Phase.stored, hstart, hend, ← Nat.cast_mul] at hlong'
    have hfits := lt_of_reported hN hmax hab (by omega) hlong'
    rw [int16_of_lt hfits, int16_of_lt (by omega)] at hlong'
    rw [if_pos hlong]
    refine Or.inr ⟨?_, ?_⟩
    · simp only [Phase.stored, hstart, hend, ← Nat.cast_mul]
      rw [int16_of_lt hfits, int16_of_lt (by omega)]
    · rcases hproper with ⟨hlt, hone⟩ | ⟨rfl, rfl⟩
      · exact ⟨hlt, hone, hfits⟩
      · omega
  · exact Or.inl (if_neg hlong)

/-- What is printed after the loop fits. -/
theorem Phase.Aligned.finish_fits (h : p.Aligned N i a b) (hN : 0 < N) (hmax : N ≤ 1000)
    (hfit : i ≤ 32768 ⌈/⌉ N + 240 ⌈/⌉ N) (symbol : Char) :
    finishWith symbol (some p.stored) = [] ∨
      finishWith symbol (some p.stored) = [⟨N * a, N * b, symbol⟩] ∧ a < b ∧ b ≠ 1 ∧
        N * b < 32768 := by
  obtain ⟨hstart, hend, hle, hproper, -⟩ := h
  have ha : N * a ≤ N * b := Nat.mul_le_mul_left N (by omega)
  have hb : N * b < 65536 := mul_wrapped_lt hN hmax (Nat.le_trans hle hfit)
  rw [finishWith]
  by_cases hpos : p.stored.endIdx > 0
  · have hfits := hpos
    simp only [Phase.stored, hend] at hfits
    obtain ⟨hsome, hfits⟩ := (int16_pos_iff hb).mp hfits
    rw [if_pos hpos]
    refine Or.inr ⟨?_, ?_⟩
    · simp only [Phase.stored, hstart, hend, ← Nat.cast_mul]
      rw [int16_of_lt hfits, int16_of_lt (by omega)]
    · rcases hproper with ⟨hlt, hone⟩ | ⟨rfl, rfl⟩
      · exact ⟨hlt, hone, hfits⟩
      · omega
  · exact Or.inl (if_neg hpos)

/-! ## The rest of a run -/

/-- The lines for the rest of the blocks. -/
def storedEvents (N : Nat) (bs : List ToneTest) (s : DetectState) : List Event :=
  (detectBlocks int16 N bs s.stored).2 ++ (detectBlocks int16 N bs s.stored).1.finish

theorem storedEvents_cons (N : Nat) (b : ToneTest) (bs : List ToneTest) (s : DetectState) :
    storedEvents N (b :: bs) s =
      (detectBlock int16 N b s.stored).2 ++ storedEvents N bs (detectBlock id N b s).1 := by
  simp only [storedEvents, detectBlocks, detectBlock_stored, List.append_assoc]

theorem stored_finish {s : DetectState} {σ : Option Phase} (h : Tracks N i s σ) :
    s.stored.finish = finishWith (symbolAt (s.curRowTone + s.curColTone)) (σ.map Phase.stored) := by
  cases σ with
  | none =>
      have hend : s.endIdx = 0 := h.2.2.2.2
      simp [DetectState.finish, DetectState.stored, finishWith, hend, int16]
  | some p =>
      obtain ⟨-, -, -, hstart, hend⟩ := h
      simp only [DetectState.finish, DetectState.stored, finishWith, Option.map_some, Phase.stored,
        hstart, hend]

/-- A line for the phase, or none, and lines that do not start before its end. -/
theorem eventsWithin_append {lo hi : Nat} {es rest : List Event} {symbol : Char}
    (hes : es = [] ∨ es = [⟨N * a, N * b, symbol⟩] ∧ a < b ∧ b ≠ 1 ∧ N * b < 32768)
    (hle : b ≤ lo) (hhi : b ≤ hi) (ha : a ≤ b) (h : EventsWithin N lo hi rest) :
    EventsWithin N a hi (es ++ rest) := by
  rcases hes with rfl | ⟨rfl, hlt, hone, hfits⟩
  · exact h.mono (Nat.le_trans ha hle)
  · exact h.cons hle hlt hhi hone hfits

/-- The current event begins with the block `lo`. -/
def BeginsAt (N i lo : Nat) : Option Phase → Prop
  | none => lo = 0
  | some p => ∃ b, p.Aligned N i lo b

/-- The lines of a run keep to the blocks from the current event on, where the blocks are few
enough. Each block with a tone extends the event or begins another behind it. -/
theorem storedEvents_within (hN : 0 < N) (hmax : N ≤ 1000) (bs : List ToneTest) {s : DetectState}
    {σ : Option Phase} {lo : Nat} (htracks : Tracks N i s σ)
    (hσ : BeginsAt N i lo σ)
    (hfit : i + bs.length ≤ 32768 ⌈/⌉ N + 240 ⌈/⌉ N) :
    EventsWithin N lo (i + bs.length) (storedEvents N bs s) := by
  induction bs generalizing i s σ lo with
  | nil =>
      rw [storedEvents, detectBlocks, List.nil_append, stored_finish htracks]
      cases σ with
      | none => exact eventsWithin_nil N lo i
      | some p =>
          obtain ⟨b, haligned⟩ := hσ
          have hfinish := haligned.finish_fits hN hmax hfit
            (symbolAt (s.curRowTone + s.curColTone))
          have hwithin := eventsWithin_append hfinish (Nat.le_refl b) haligned.le
            (by have := haligned.proper; omega) (eventsWithin_nil N b i)
          rw [List.append_nil] at hwithin
          exact hwithin
  | cons b bs ih =>
      rw [List.length_cons, Nat.add_comm bs.length, ← Nat.add_assoc] at hfit
      rw [storedEvents_cons, List.length_cons, Nat.add_comm bs.length, ← Nat.add_assoc]
      -- silence leaves the phase open, its tone prolongs it, another tone ends it
      cases hb : b.verdict with
      | none =>
          rw [detectBlock_stored_silent hb, List.nil_append]
          refine ih (detectBlock_silent hb htracks).1 ?_ hfit
          cases σ with
          | none => exact hσ
          | some p =>
              obtain ⟨b', haligned⟩ := hσ
              exact ⟨b', haligned.succ⟩
      | some t =>
          have hnext := (detectBlock_tone hb htracks).1
          rw [detectBlock_stored_tone hb htracks]
          cases σ with
          | none =>
              have hlo : lo = 0 := hσ
              subst hlo
              refine ih hnext ⟨0, ?_⟩ hfit
              rw [runStep, if_neg (Nat.lt_irrefl i)]
              exact ⟨by simp, by simp, Nat.zero_le _, Or.inr ⟨rfl, rfl⟩, Nat.succ_pos i⟩
          | some p =>
              obtain ⟨b', haligned⟩ := hσ
              by_cases htone : t = p.tone
              · rw [storedChange, if_pos htone, List.nil_append]
                exact ih hnext ⟨i + 1, haligned.extend htone⟩ hfit
              · have hrest := ih hnext ⟨i + 1, haligned.change htone⟩ hfit
                have hle := haligned.le
                rw [storedChange, if_neg htone]
                exact eventsWithin_append (haligned.change_fits hN hmax (by omega)) hle
                  (by omega) (by have := haligned.proper; omega) hrest

theorem evaluatedBlocks_le (N s T : Nat) : evaluatedBlocks N s T ≤ T / N + 1 := by
  rw [evaluatedBlocks]
  split <;> omega

/-- The lines keep to the whole blocks. -/
theorem indicesRight_of_within {T M : Nat} {events : List Event} (hN : 0 < N)
    (h : EventsWithin N 0 M events) (hM : M ≤ evaluatedBlocks N 0 T) (hfit : IndicesFit N T) :
    IndicesRight N T events := by
  have hmost := evaluatedBlocks_le N 0 T
  have hwhole : ∀ e ∈ events, ∃ a b : Nat, e.startIdx = (N * a : Nat) ∧ e.endIdx = (N * b : Nat) ∧
      N * a < N * b ∧ N * b ≤ T := by
    intro e he
    obtain ⟨a, b, hstart, hend, -, hlt, hhi, hone, hfits⟩ := h.blocks e he
    refine ⟨a, b, by rw [hstart, Nat.cast_mul], by rw [hend, Nat.cast_mul],
      Nat.mul_lt_mul_of_pos_left hlt hN, ?_⟩
    suffices hle : b ≤ T / N from
      Nat.le_trans (Nat.mul_le_mul_left N hle) (Nat.mul_div_le T N)
    rcases hfit with hlt | ⟨-, hall | hbeyond⟩
    · rw [Nat.div_eq_of_lt hlt] at hmost
      omega
    · omega
    · have hless : b < evaluatedBlocks N 0 T :=
        Nat.lt_of_mul_lt_mul_left (Nat.lt_of_lt_of_le hfits hbeyond)
      omega
  refine ⟨?_, ?_, h.apart⟩
  · intro e he
    obtain ⟨a, b, hstart, hend, hlt, hle⟩ := hwhole e he
    omega
  · intro e he
    obtain ⟨a, b, hstart, hend, -, -⟩ := hwhole e he
    rw [hstart, hend, Nat.cast_mul, Nat.cast_mul]
    exact ⟨dvd_mul_right _ _, dvd_mul_right _ _⟩

/-! ## Streams whose events have wrong indices -/

theorem storedEvents_append (N : Nat) (as bs : List ToneTest) (s : DetectState) :
    storedEvents N (as ++ bs) s =
      (detectBlocks int16 N as s.stored).2 ++ storedEvents N bs (detectBlocks id N as s).1 := by
  induction as generalizing s with
  | nil => rfl
  | cons a as ih =>
      rw [List.cons_append, storedEvents_cons, ih]
      simp only [detectBlocks, detectBlock_stored, List.append_assoc]

/-- Blocks of the tone of a run continue it. -/
theorem detectBlocks_continue {bs : List ToneTest} {s : DetectState} {σ : Option Phase}
    {r : Run Tone} (hbs : ∀ b ∈ bs, b.verdict = some r.value) (hle : r.first ≤ r.last)
    (h : Tracks N (r.last + 1) s (some (runStep N σ r).1)) :
    Tracks N (r.last + bs.length + 1) (detectBlocks id N bs s).1
      (some (runStep N σ { r with last := r.last + bs.length }).1) := by
  induction bs generalizing s r with
  | nil => exact h
  | cons b bs ih =>
      have hnext := (detectBlock_tone (hbs b List.mem_cons_self) h).1
      rw [(runStep_extend N σ (Nat.lt_succ_self r.last) hle).1] at hnext
      have hrest := ih (r := { r with last := r.last + 1 })
        (fun b' hb' => hbs b' (List.mem_cons_of_mem b hb')) (Nat.le_succ_of_le hle) hnext
      have hlast : r.last + 1 + bs.length = r.last + (bs.length + 1) := by omega
      change Tracks N (r.last + 1 + bs.length + 1) _
        (some (runStep N σ { r with last := r.last + 1 + bs.length }).1) at hrest
      rw [hlast] at hrest
      exact hrest

/-- Blocks of one tone are a run. -/
theorem detectBlocks_run {bs : List ToneTest} {s : DetectState} {σ : Option Phase} {t : Tone}
    {n : Nat} (hlen : bs.length = n + 1) (hbs : ∀ b ∈ bs, b.verdict = some t)
    (h : Tracks N i s σ) :
    Tracks N (i + n + 1) (detectBlocks id N bs s).1 (some (runStep N σ ⟨i, i + n, t⟩).1) := by
  cases bs with
  | nil => cases hlen
  | cons b bs =>
      have hfirst := (detectBlock_tone (hbs b List.mem_cons_self) h).1
      have hrest := detectBlocks_continue (r := ⟨i, i, t⟩)
        (fun b' hb' => hbs b' (List.mem_cons_of_mem b hb')) (Nat.le_refl i) hfirst
      have hn : bs.length = n := Nat.succ.inj hlen
      rw [hn] at hrest
      exact hrest

theorem tracks_initial (N : Nat) : Tracks N 0 {} none := ⟨by simp, rfl, rfl, rfl, rfl⟩

theorem dtmf_detect_events_eq_stored (N : Nat) (tests : List ToneTest) :
    dtmf_detect_events int16 N tests = storedEvents N tests {} := rfl

/-- A stream of one tone gives a line up to its last block, be that whole or not. -/
theorem constant_tone_event {tests : List ToneTest} {t : Tone} {n : Nat}
    (hlen : tests.length = n + 2) (hfits : N * (n + 2) < 32768) (hpos : 0 < N)
    (htests : ∀ b ∈ tests, b.verdict = some t) :
    ∃ e ∈ dtmf_detect_events int16 N tests, e.endIdx = (N * (n + 2) : Nat) := by
  have hrun := detectBlocks_run (n := n + 1) hlen htests (tracks_initial N)
  have hevents : dtmf_detect_events int16 N tests =
      (detectBlocks int16 N tests (DetectState.stored {})).2 ++
        (detectBlocks id N tests {}).1.stored.finish := by
    rw [← detectBlocks_stored]
    rfl
  have hcast : (N : Int) * ((0 + (n + 1) : Nat) + 1) = (N * (n + 2) : Nat) := by
    push_cast
    ring
  have hphase : (runStep N none ⟨0, 0 + (n + 1), t⟩).1 = ⟨0, (N * (n + 2) : Nat), t⟩ := by
    rw [runStep, if_pos (by simp), hcast]
  rw [hphase] at hrun
  have hend : int16 ((N * (n + 2) : Nat) : Int) = (N * (n + 2) : Nat) := int16_of_lt hfits
  have hsome : 0 < N * (n + 2) := Nat.mul_pos hpos (by omega)
  rw [hevents, stored_finish hrun, Option.map_some, finishWith, if_pos]
  · refine ⟨_, List.mem_append_right _ (List.mem_singleton_self _), ?_⟩
    simp only [Phase.stored, hend]
  · simp only [Phase.stored, hend]
    omega

/-- An event between two indices that do not fit is printed with negative ones. -/
theorem change_behind {x y : Nat} (t : Tone) (hx : 32768 ≤ x) (hxy : x + 240 ≤ y)
    (hy : y < 65536) : ∃ e ∈ (Phase.mk x y t).stored.change, e.startIdx < 0 := by
  have hstart : int16 x = x - 65536 := int16_of_ge hx (by omega)
  have hend : int16 y = y - 65536 := int16_of_ge (by omega) hy
  simp only [Phase.stored, Phase.change, hstart, hend]
  rw [if_pos (by omega)]
  exact ⟨_, List.mem_singleton_self _, by simp only []; omega⟩

/-- An event that begins behind the last index that fits gives a line when the tone changes. -/
theorem late_change_event {as bs : List ToneTest} (cs : List ToneTest) {b : ToneTest} {t u : Tone}
    (hN : 0 < N) (hmax : N ≤ 1000) (htu : t ≠ u) (hlenA : as.length = 32768 ⌈/⌉ N)
    (hlenB : bs.length = 240 ⌈/⌉ N) (has : ∀ x ∈ as, x.verdict = some t)
    (hbs : ∀ x ∈ bs, x.verdict = some u) (hb : b.verdict = some t) :
    ∃ e ∈ dtmf_detect_events int16 N (as ++ (bs ++ b :: cs)), e.startIdx < 0 := by
  have hwrapped : 0 < 32768 ⌈/⌉ N := (lt_wrapped_iff hN).mpr (by omega)
  have hmin : 0 < 240 ⌈/⌉ N := by
    rw [← not_le, ceilDiv_le_iff_le_mul hN]
    omega
  obtain ⟨w, hw⟩ : ∃ w, 32768 ⌈/⌉ N = w + 1 := ⟨_, (Nat.succ_pred_eq_of_pos hwrapped).symm⟩
  obtain ⟨c, hc⟩ : ∃ c, 240 ⌈/⌉ N = c + 1 := ⟨_, (Nat.succ_pred_eq_of_pos hmin).symm⟩
  have hfirst := detectBlocks_run (hlenA.trans hw) has (tracks_initial N)
  have hsecond := detectBlocks_run (hlenB.trans hc) hbs hfirst
  have hstart : (N : Int) * (0 + w + 1 : Nat) = (N * (32768 ⌈/⌉ N) : Nat) := by
    rw [hw, Nat.zero_add, Nat.cast_mul]
  have hend : (N : Int) * ((0 + w + 1 + c : Nat) + 1) =
      (N * (32768 ⌈/⌉ N) + N * (240 ⌈/⌉ N) : Nat) := by
    rw [hw, hc]
    push_cast
    ring
  have hphase : (runStep N (some (runStep N none ⟨0, 0 + w, t⟩).1)
      ⟨0 + w + 1, 0 + w + 1 + c, u⟩).1 =
      ⟨(N * (32768 ⌈/⌉ N) : Nat), (N * (32768 ⌈/⌉ N) + N * (240 ⌈/⌉ N) : Nat), u⟩ := by
    simp only [runStep, if_neg (Ne.symm htu), hstart, hend]
  have hge : 32768 ≤ N * (32768 ⌈/⌉ N) := (ceilDiv_le_iff_le_mul hN).mp le_rfl
  have hlong : 240 ≤ N * (240 ⌈/⌉ N) := (ceilDiv_le_iff_le_mul hN).mp le_rfl
  have hlt := mul_wrapped_lt hN hmax (le_refl (32768 ⌈/⌉ N + 240 ⌈/⌉ N))
  rw [Nat.mul_add] at hlt
  rw [hphase] at hsecond
  obtain ⟨e, he, hneg⟩ := change_behind u hge (Nat.add_le_add_left hlong _) hlt
  rw [dtmf_detect_events_eq_stored, storedEvents_append, storedEvents_append, storedEvents_cons,
    detectBlock_stored_tone hb hsecond, storedChange, if_neg htu]
  exact ⟨e, List.mem_append_right _ (List.mem_append_right _ (List.mem_append_left _ he)), hneg⟩

/-! ## Which streams have events with the right indices -/

/-- The first row and one of the first two columns. -/
def firstTone (marked : Bool) : ToneTest := ⟨some 0, some (if marked then 1 else 0), true⟩

/-- A stream of one tone has a line for the block that is not whole. -/
theorem not_right_of_partial {T : Nat} (hN : 10 ≤ N) (hT : N ≤ T)
    (hcut : evaluatedBlocks N 0 T ≠ T / N) (hfits : N * evaluatedBlocks N 0 T < 32768)
    {tests : List ToneTest} (hlen : tests.length = evaluatedBlocks N 0 T)
    (htests : ∀ b ∈ tests, b = firstTone false) :
    ¬ IndicesRight N T (dtmf_detect_events int16 N tests) := by
  have hmost := evaluatedBlocks_le N 0 T
  have hleast : T / N ≤ evaluatedBlocks N 0 T := Nat.le_add_right _ _
  have hpos : 0 < T / N := Nat.div_pos hT (by omega)
  have hone : evaluatedBlocks N 0 T = T / N - 1 + 2 := by omega
  rw [hone] at hlen hfits
  obtain ⟨e, he, hend⟩ := constant_tone_event hlen hfits (by omega) fun b hb => by
    rw [htests b hb]
    rfl
  intro hright
  have hle := (hright.inside e he).2.2
  have hlt : T < N * (T / N - 1 + 2) := by
    rw [show T / N - 1 + 2 = T / N + 1 by omega]
    exact Nat.lt_mul_div_succ T (by omega)
  omega

/-- A stream whose tone changes at the first index that does not fit, and once more when the event
there is long enough. -/
theorem not_right_of_late {T : Nat} (hN : 0 < N) (hmax : N ≤ 1000) (m : Nat) {f : Nat → ToneTest}
    (hf : ∀ k, f k = firstTone (32768 ⌈/⌉ N ≤ k ∧ k < 32768 ⌈/⌉ N + 240 ⌈/⌉ N)) :
    ¬ IndicesRight N T (dtmf_detect_events int16 N
      ((List.range (32768 ⌈/⌉ N + (240 ⌈/⌉ N + (m + 1)))).map f)) := by
  generalize hw : 32768 ⌈/⌉ N = w at *
  generalize hc : 240 ⌈/⌉ N = c at *
  have hsplit : (List.range (w + (c + (m + 1)))).map f =
      (List.range w).map f ++ ((List.range c).map (fun k => f (w + k)) ++
        f (w + c) :: (List.range m).map fun k => f (w + (c + (k + 1)))) := by
    rw [List.range_add, List.range_add, List.range_succ_eq_map]
    simp [Function.comp_def]
  have hplain : ∀ k, k < w ∨ w + c ≤ k → (f k).verdict = some (0, 0) := by
    intro k hk
    rw [hf, decide_eq_false (by omega)]
    rfl
  have hmarked : ∀ k, k < c → (f (w + k)).verdict = some (0, 1) := by
    intro k hk
    rw [hf, decide_eq_true (by omega)]
    rfl
  have hbefore : ∀ x ∈ (List.range w).map f, x.verdict = some (0, 0) := by
    intro x hx
    obtain ⟨k, hk, rfl⟩ := List.mem_map.mp hx
    exact hplain k (Or.inl (List.mem_range.mp hk))
  have hevent : ∀ x ∈ (List.range c).map (fun k => f (w + k)), x.verdict = some (0, 1) := by
    intro x hx
    obtain ⟨k, hk, rfl⟩ := List.mem_map.mp hx
    exact hmarked k (List.mem_range.mp hk)
  obtain ⟨e, he, hneg⟩ := late_change_event
    ((List.range m).map fun k => f (w + (c + (k + 1)))) hN hmax (by decide)
    (by rw [List.length_map, List.length_range, hw])
    (by rw [List.length_map, List.length_range, hc])
    hbefore hevent (hplain (w + c) (Or.inr (Nat.le_refl _)))
  rw [hsplit]
  intro hright
  have hnonneg := (hright.inside e he).1
  omega

/-- The blocks that are evaluated start inside the stream. -/
theorem start_lt_of_evaluated {T k : Nat} (hN : 10 ≤ N) (hT : N ≤ T)
    (hk : k < evaluatedBlocks N 0 T) : k * N < T := by
  have hsplit : T / N * N + T % N = T := Nat.div_add_mod' T N
  rcases Nat.lt_or_ge k (T / N) with hlt | hge
  · have hle : (k + 1) * N ≤ T / N * N := Nat.mul_le_mul_right N hlt
    rw [Nat.add_one_mul] at hle
    omega
  · have hmost := evaluatedBlocks_le N 0 T
    have heq : k = T / N := by omega
    rw [evaluatedBlocks, countedBefore, if_neg (show ¬ T < N by omega)] at hk
    subst heq
    by_cases hfew : T % N + 1 + 2 < N
    · rw [if_pos hfew] at hk
      omega
    · omega

/-- Samples of 0 and 1, the same throughout a block. -/
def markedSamples (N T : Nat) (mark : Nat → Bool) : List (BitVec 16) :=
  (List.range T).map fun i => if mark (i / N) then 1 else 0

/-- Tells the two kinds of blocks apart by their first sample. -/
def markTest (b : Block) : ToneTest := firstTone (b.samples.headD 0 = 1)

theorem dtmf_detect_marked {T : Nat} (hN : 10 ≤ N) (hT : N ≤ T) (mark : Nat → Bool) :
    ∃ d, dtmf_detect markTest N (audioFile (markedSamples N T mark)) standardHeader = some d ∧
      d.events = dtmf_detect_events int16 N
        ((List.range (evaluatedBlocks N 0 T)).map fun k => firstTone (mark k)) := by
  have hread := audio_read_header_audioFile (markedSamples N T mark) standardHeader
  have hlen : (markedSamples N T mark).length = T := by
    rw [markedSamples, List.length_map, List.length_range]
  have hmark : -1 ∉ markedSamples N T mark := by
    intro hmem
    obtain ⟨i, -, hi⟩ := List.mem_map.mp hmem
    split at hi <;> exact absurd hi (by decide)
  obtain ⟨blocks, rest, hloop, hheads⟩ := detectLoop_heads hN (Nat.zero_le 1)
    (length_lt_flatMap_sampleBytes (markedSamples N T mark)) hmark
  refine ⟨_, dtmf_detect_eq markTest (congrArg HeaderRead.ret hread)
    (congrArg HeaderRead.rest hread) hloop, ?_⟩
  have htests : blocks.map markTest =
      (List.range (evaluatedBlocks N 0 T)).map fun k => firstTone (mark k) := by
    have hcompose : blocks.map markTest =
        (blocks.map fun b => b.samples.headD 0).map fun x => firstTone (x = 1) := by
      rw [List.map_map]
      rfl
    rw [hcompose, hheads, hlen, List.map_map]
    refine List.map_congr_left fun k hk => ?_
    have hlt := start_lt_of_evaluated hN hT (List.mem_range.mp hk)
    have hsample : (markedSamples N T mark).getD (k * N) 0 = if mark k then 1 else 0 := by
      rw [markedSamples, List.getD_eq_getElem?_getD, List.getElem?_map, List.getElem?_range hlt,
        Option.map_some, Option.getD_some, Nat.mul_div_cancel k (by omega)]
    rw [Function.comp_apply, hsample]
    cases mark k <;> rfl
  rw [htests]

/-- The events of every stream of `T` samples have the right indices exactly where `IndicesFit`
holds. The tone tests of the blocks are any. -/
theorem dtmf_detect_indices_iff (hN : 10 ≤ N ∧ N ≤ 1000) (T : Nat) :
    (∀ (test : Block → ToneTest) (file : InFile) (ah : AudioHeader) (samples : List (BitVec 16)),
      samples.length = T → (audio_read_header file ah).ret = 0 →
        (audio_read_header file ah).rest = some (samples.flatMap sampleBytes) →
          ∃ d, dtmf_detect test N file ah = some d ∧ IndicesRight N T d.events) ↔
      IndicesFit N T := by
  obtain ⟨hmin, hmax⟩ := hN
  have hpos : 0 < N := by omega
  constructor
  · intro hright
    by_contra hfit
    obtain ⟨hT, hwrong⟩ : N ≤ T ∧ (32768 ⌈/⌉ N + 240 ⌈/⌉ N < evaluatedBlocks N 0 T ∨
        evaluatedBlocks N 0 T ≠ T / N ∧ N * evaluatedBlocks N 0 T < 32768) := by
      rw [IndicesFit] at hfit
      omega
    have hmarked : ∀ mark : Nat → Bool, IndicesRight N T (dtmf_detect_events int16 N
        ((List.range (evaluatedBlocks N 0 T)).map fun k => firstTone (mark k))) := by
      intro mark
      have hread := audio_read_header_audioFile (markedSamples N T mark) standardHeader
      obtain ⟨d, hd, hevents⟩ := dtmf_detect_marked hmin hT mark
      obtain ⟨d', hd', hindices⟩ := hright markTest _ standardHeader (markedSamples N T mark)
        (by rw [markedSamples, List.length_map, List.length_range])
        (congrArg HeaderRead.ret hread) (congrArg HeaderRead.rest hread)
      rw [hd, Option.some_inj] at hd'
      rw [← hevents, hd']
      exact hindices
    rcases hwrong with hmany | ⟨hcut, hfits⟩
    · obtain ⟨m, hm⟩ : ∃ m, evaluatedBlocks N 0 T = 32768 ⌈/⌉ N + (240 ⌈/⌉ N + (m + 1)) :=
        ⟨evaluatedBlocks N 0 T - 32768 ⌈/⌉ N - 240 ⌈/⌉ N - 1, by omega⟩
      have hlate := hmarked fun k => 32768 ⌈/⌉ N ≤ k ∧ k < 32768 ⌈/⌉ N + 240 ⌈/⌉ N
      rw [hm] at hlate
      exact not_right_of_late hpos hmax m (fun k => rfl) hlate
    · refine not_right_of_partial hmin hT hcut hfits ?_ ?_ (hmarked fun _ => false)
      · rw [List.length_map, List.length_range]
      · intro b hb
        obtain ⟨-, -, rfl⟩ := List.mem_map.mp hb
        rfl
  · intro hfit test file ah samples hlen hret hrest
    obtain ⟨blocks, rest, hloop, -⟩ :=
      detectLoop_iff hmin (length_lt_flatMap_sampleBytes samples) 0
    have hcount := detectLoop_length_le hmin hloop
    rw [hlen] at hcount
    have hfew : blocks.length ≤ 32768 ⌈/⌉ N + 240 ⌈/⌉ N := by
      rcases hfit with hlt | ⟨hle, -⟩
      · have hmost := evaluatedBlocks_le N 0 T
        have hwrapped : 0 < 32768 ⌈/⌉ N := (lt_wrapped_iff hpos).mpr (by omega)
        rw [Nat.div_eq_of_lt hlt] at hmost
        omega
      · exact Nat.le_trans hcount hle
    refine ⟨_, dtmf_detect_eq test hret hrest hloop, ?_⟩
    have hwithin := storedEvents_within hpos hmax (blocks.map test) (tracks_initial N) rfl
      (by rw [Nat.zero_add, List.length_map]; exact hfew)
    rw [Nat.zero_add, List.length_map] at hwithin
    exact indicesRight_of_within hpos hwithin hcount hfit

/-- A second of sound, in blocks of 100 samples. -/
theorem dtmf_detect_indices_second :
    ∃ d, dtmf_detect markTest 100 (audioFile (List.replicate 8000 0)) standardHeader = some d ∧
      IndicesRight 100 8000 d.events := by
  have hread := audio_read_header_audioFile (List.replicate 8000 0) standardHeader
  have hfit : IndicesFit 100 8000 := Or.inr ⟨by decide, Or.inl rfl⟩
  exact (dtmf_detect_indices_iff (show 10 ≤ 100 ∧ 100 ≤ 1000 by decide) 8000).mpr hfit markTest _
    standardHeader _ (List.length_replicate) (congrArg HeaderRead.ret hread)
    (congrArg HeaderRead.rest hread)

/-- Another tone in the block 33 of 35 blocks of 1000 samples begins at the index `-32536`. -/
theorem dtmf_detect_indices_negative :
    ¬ ∃ d, dtmf_detect markTest 1000
        (audioFile (markedSamples 1000 35000 fun k => 33 ≤ k ∧ k < 34)) standardHeader = some d ∧
      IndicesRight 1000 35000 d.events := by
  rintro ⟨d, hd, hright⟩
  obtain ⟨d', hd', hevents⟩ := dtmf_detect_marked (show 10 ≤ 1000 by decide)
    (show 1000 ≤ 35000 by decide) fun k => 33 ≤ k ∧ k < 34
  rw [hd, Option.some_inj] at hd'
  rw [hd', hevents] at hright
  exact not_right_of_late (show 0 < 1000 by decide) (Nat.le_refl 1000) 0 (fun k => rfl) hright

end StarterProjects.Dtmf
