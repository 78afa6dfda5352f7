import StarterProjects.Dtmf.Arguments

/-!
# The options of `validargs`

Each round of the option loop takes a new flag with a valid value, or the command line is refused
(`optionRound_spec`). So the loop accepts exactly the strings that are such pairs, and what it has
stored are their values (`optionLoop_ends`). `validargs_iff` says on which command lines this is
right: the sentinel `-1`, the values that `get_current_value` takes wrongly, and a last `-n` are
what can go wrong.
-/

namespace StarterProjects.Dtmf

open Lib.Decimal

/-- The number that `get_current_value` takes a string for. -/
def taken (value : Arg) : Int := (get_current_value (some value)).2

/-- A number that passes the checks. -/
def Between (low high : Int) (value : Arg) : Prop :=
  (get_current_value (some value)).1 ≠ 0 ∧ low ≤ taken value ∧ taken value ≤ high

/-- A flag of the mode, with a value that passes the checks. -/
def Acceptable : Mode → Arg × Arg → Prop
  | .generate, (flag, value) =>
      flag = flagOf 't' ∧ Between 0 268435455 value ∨
        flag = flagOf 'l' ∧ Between (-30) 30 value ∨ flag = flagOf 'n' ∧ 4 ≤ value.length
  | .detect, (flag, value) => flag = flagOf 'b' ∧ Between 10 1000 value

def Mode.letters : Mode → List Char
  | generate => ['t', 'l', 'n']
  | detect => ['b']

/-- Acceptable options, none of them twice. -/
def Accepted (mode : Mode) (pairs : List (Arg × Arg)) : Prop :=
  (pairs.map Prod.fst).Nodup ∧ ∀ p ∈ pairs, Acceptable mode p

/-! ## One round -/

/-- What is stored after some options. -/
structure Stored (done : List (Arg × Arg)) (s : ParseState) : Prop where
  tSeen : s.tFlagSeen = (done.lookup (flagOf 't')).isSome
  lSeen : s.lFlagSeen = (done.lookup (flagOf 'l')).isSome
  nSeen : s.nFlagSeen = (done.lookup (flagOf 'n')).isSome
  bSeen : s.bFlagSeen = (done.lookup (flagOf 'b')).isSome
  samples : s.temp_audio_samples = (done.lookup (flagOf 't')).elim (-1) taken
  level : s.temp_noise_level = (done.lookup (flagOf 'l')).elim (-1) taken
  size : s.temp_block_size = (done.lookup (flagOf 'b')).elim (-1) taken
  noiseLen : s.noiseFileLen = (done.lookup (flagOf 'n')).elim 0 List.length
  noise : ∀ name, done.lookup (flagOf 'n') = some name → s.noise_file = some name

/-- The state after some options: the two characters are those of the last flag, which is none of
the flags to come. -/
structure Seen (mode : Mode) (done : List (Arg × Arg)) (s : ParseState) : Prop where
  stored : Stored done s
  dash : s.frstChar = '-'
  stale : s.scndChar ∈ mode.letters → (done.lookup (flagOf s.scndChar)).isSome

theorem get_current_flag_long (c d e : Char) (cs : Arg) (flagLen : Nat) (f s : Char) :
    3 < (get_current_flag (c :: d :: e :: cs) flagLen f s).1 := by
  have hge (a : Arg) (n : Nat) (f s : Char) : a ≠ [] → n + 1 ≤ (get_current_flag a n f s).1 := by
    fun_induction get_current_flag a n f s with
    | case1 => exact fun h => absurd rfl h
    | case2 => exact fun _ => le_rfl
    | case3 => exact fun _ => le_rfl
    | case4 c d e cs n f s ih =>
        intro _
        have hrest := ih (List.cons_ne_nil e cs)
        omega
  have hrest := hge (e :: cs) (flagLen + 3) c d (List.cons_ne_nil e cs)
  rw [get_current_flag]
  omega

theorem flagOf_inj {c d : Char} : flagOf c = flagOf d ↔ c = d := by
  simp [flagOf]

theorem lookup_snoc {done : List (Arg × Arg)} {flag : Arg} (hnew : done.lookup flag = none)
    (value flag' : Arg) : (done ++ [(flag, value)]).lookup flag' =
      if flag' = flag then some value else done.lookup flag' := by
  rw [List.lookup_append, List.lookup_cons, List.lookup_nil]
  by_cases heq : flag' = flag
  · subst heq
    simp [hnew]
  · simp [heq, beq_eq_false_iff_ne.mpr heq]

variable {mode : Mode} {done : List (Arg × Arg)} {s : ParseState}

/-- An option of another letter, or one that has been given. -/
theorem option_refused (value : Option (Option Arg)) (h : Stored done s)
    (hold : s.scndChar ∈ mode.letters → (done.lookup (flagOf s.scndChar)).isSome) :
    mode.option value s = some (EOF, s) := by
  have hnot {c : Char} {seen : Bool} (hseen : seen = (done.lookup (flagOf c)).isSome)
      (hmem : c ∈ mode.letters) : ¬ (s.scndChar = c ∧ (!seen) = true) := by
    rintro ⟨rfl, hnew⟩
    rw [hseen, hold hmem] at hnew
    exact absurd hnew (by decide)
  cases mode with
  | generate =>
      rw [Mode.option, generateOption, if_neg (hnot h.tSeen (by decide)),
        if_neg (hnot h.lSeen (by decide)), if_neg (hnot h.nSeen (by decide))]
      rfl
  | detect =>
      rw [Mode.option, detectOption, if_neg (hnot h.bSeen (by decide))]
      rfl

theorem numberOption_pass {low high : Int} {value : Arg} (h : Between low high value)
    (put : Int → ParseState) (s : ParseState) :
    numberOption low high put (some value) s = (0, put (taken value)) := by
  obtain ⟨hret, hlow, hhigh⟩ := h
  rw [numberOption, if_neg hret, if_neg]
  · rfl
  · exact not_or.mpr ⟨not_lt.mpr hlow, not_lt.mpr hhigh⟩

theorem numberOption_fail {low high : Int} {value : Arg} (h : ¬ Between low high value)
    (put : Int → ParseState) (s : ParseState) :
    numberOption low high put (some value) s = (EOF, s) := by
  rw [numberOption]
  split_ifs with hret hrange
  · rfl
  · rfl
  · rw [not_or, not_lt, not_lt] at hrange
    exact absurd ⟨hret, hrange⟩ h

theorem unseen (hnew : done.lookup (flagOf s.scndChar) = none) {c : Char} {seen : Bool}
    (hseen : seen = (done.lookup (flagOf c)).isSome) (hc : s.scndChar = c) :
    s.scndChar = c ∧ (!seen) = true := by
  refine ⟨hc, ?_⟩
  rw [hseen, ← hc, hnew]
  rfl

/-- A new flag whose value is a number. -/
theorem number_value {low high : Int} {put : Int → ParseState} {t : ParseState} {value : Arg}
    (hround : mode.option (some (some value)) s = some (numberOption low high put (some value) t))
    (hacceptable : Acceptable mode (flagOf s.scndChar, value) ↔ Between low high value)
    (hfrst : ∀ v, (put v).frstChar = s.frstChar) (hscnd : ∀ v, (put v).scndChar = s.scndChar)
    (hstored : Between low high value →
      Stored (done ++ [(flagOf s.scndChar, value)]) (put (taken value))) :
    (Acceptable mode (flagOf s.scndChar, value) ∧ ∃ s', mode.option (some (some value)) s =
        some (0, s') ∧ s'.frstChar = s.frstChar ∧ s'.scndChar = s.scndChar ∧
        Stored (done ++ [(flagOf s.scndChar, value)]) s') ∨
      (¬ Acceptable mode (flagOf s.scndChar, value) ∧
        ∃ s', mode.option (some (some value)) s = some (EOF, s')) := by
  rw [hround, hacceptable]
  by_cases hpass : Between low high value
  · rw [numberOption_pass hpass]
    exact .inl ⟨hpass, _, rfl, hfrst _, hscnd _, hstored hpass⟩
  · rw [numberOption_fail hpass]
    exact .inr ⟨hpass, _, rfl⟩

/-- A new flag with a value. -/
theorem option_value (h : Stored done s) (hmem : s.scndChar ∈ mode.letters)
    (hnew : done.lookup (flagOf s.scndChar) = none) (value : Arg) :
    (Acceptable mode (flagOf s.scndChar, value) ∧ ∃ s', mode.option (some (some value)) s =
        some (0, s') ∧ s'.frstChar = s.frstChar ∧ s'.scndChar = s.scndChar ∧
        Stored (done ++ [(flagOf s.scndChar, value)]) s') ∨
      (¬ Acceptable mode (flagOf s.scndChar, value) ∧
        ∃ s', mode.option (some (some value)) s = some (EOF, s')) := by
  have hlookup := lookup_snoc hnew value
  obtain ⟨ht, hl, hn, hb, hsamples, hlevel, hsize, hlen, hname⟩ := h
  cases mode with
  | generate =>
      simp only [Mode.letters, List.mem_cons, List.not_mem_nil, or_false] at hmem
      rcases hmem with hc | hc | hc
      · have hround : Mode.generate.option (some (some value)) s =
            some (numberOption 0 268435455 (fun v => { s with
              tFlagSeen := true, temp_audio_samples := v }) (some value)
              { s with tFlagSeen := true }) := by
          rw [Mode.option, generateOption, if_pos (unseen hnew ht hc)]
          rfl
        refine number_value hround (by simp [Acceptable, hc, flagOf_inj]) (fun _ => rfl)
          (fun _ => rfl) fun _ => ?_
        rw [hc] at hlookup ⊢
        constructor <;> simp_all [flagOf_inj]
      · have hround : Mode.generate.option (some (some value)) s =
            some (numberOption (-30) 30 (fun v => { s with
              lFlagSeen := true, temp_noise_level := v }) (some value)
              { s with lFlagSeen := true }) := by
          rw [Mode.option, generateOption, if_neg (by simp [hc]), if_pos (unseen hnew hl hc)]
          rfl
        refine number_value hround (by simp [Acceptable, hc, flagOf_inj]) (fun _ => rfl)
          (fun _ => rfl) fun _ => ?_
        rw [hc] at hlookup ⊢
        constructor <;> simp_all [flagOf_inj]
      · have hnone : done.lookup (flagOf 'n') = none := by rwa [← hc]
        have hround : Mode.generate.option (some (some value)) s =
            some (if value.length < 4 then (EOF, { s with
                nFlagSeen := true, noise_file := some value, noiseFileLen := value.length })
              else (0, { s with
                nFlagSeen := true, noise_file := some value, noiseFileLen := value.length })) := by
          rw [hnone, Option.elim_none] at hlen
          rw [Mode.option, generateOption, if_neg (by simp [hc]), if_neg (by simp [hc]),
            if_pos (unseen hnew hn hc)]
          simp [hlen]
        by_cases hshort : value.length < 4
        · rw [if_pos hshort] at hround
          refine .inr ⟨?_, _, hround⟩
          simp [Acceptable, hc, flagOf_inj, hshort]
        · rw [if_neg hshort] at hround
          refine .inl ⟨.inr (.inr ⟨by rw [hc], not_lt.mp hshort⟩), _, hround, rfl, rfl, ?_⟩
          rw [hc] at hlookup ⊢
          constructor <;> simp_all [flagOf_inj]
  | detect =>
      have hc : s.scndChar = 'b' := List.mem_singleton.mp hmem
      have hround : Mode.detect.option (some (some value)) s =
          some (numberOption 10 1000 (fun v => { s with
            bFlagSeen := true, temp_block_size := v }) (some value)
            { s with bFlagSeen := true }) := by
        rw [Mode.option, detectOption, if_pos (unseen hnew hb hc)]
        rfl
      refine number_value hround (by simp [Acceptable, hc]) (fun _ => rfl)
        (fun _ => rfl) fun _ => ?_
      rw [hc] at hlookup ⊢
      constructor <;> simp_all [flagOf_inj]

/-- A new flag behind which the command line ends. -/
theorem option_null (h : Stored done s) (hmem : s.scndChar ∈ mode.letters)
    (hnew : done.lookup (flagOf s.scndChar) = none) :
    (mode = .generate ∧ s.scndChar = 'n' ∧ mode.option (some none) s = none) ∨
      (¬ (mode = .generate ∧ s.scndChar = 'n') ∧
        ∃ s', mode.option (some none) s = some (EOF, s')) := by
  cases mode with
  | generate =>
      simp only [Mode.letters, List.mem_cons, List.not_mem_nil, or_false] at hmem
      rcases hmem with hc | hc | hc
      · refine .inr ⟨by simp [hc], ?_⟩
        rw [Mode.option, generateOption, if_pos (unseen hnew h.tSeen hc)]
        exact ⟨_, rfl⟩
      · refine .inr ⟨by simp [hc], ?_⟩
        rw [Mode.option, generateOption, if_neg (by simp [hc]), if_pos (unseen hnew h.lSeen hc)]
        exact ⟨_, rfl⟩
      · refine .inl ⟨rfl, hc, ?_⟩
        rw [Mode.option, generateOption, if_neg (by simp [hc]), if_neg (by simp [hc]),
          if_pos (unseen hnew h.nSeen hc)]
        rfl
  | detect =>
      have hc : s.scndChar = 'b' := List.mem_singleton.mp hmem
      refine .inr ⟨by simp, ?_⟩
      rw [Mode.option, detectOption, if_pos (unseen hnew h.bSeen hc)]
      exact ⟨_, rfl⟩

/-- The option of a flag that is new in the mode. -/
def NewFlag (mode : Mode) (done : List (Arg × Arg)) (flag : Arg) : Prop :=
  done.lookup flag = none ∧ ∃ c ∈ mode.letters, flag = flagOf c

/-- The round after the flag has been read. -/
theorem optionRound_eq {argv : List Arg} {p : Nat} {flag : Arg}
    (hflag : argAt argv p = some (some flag)) (mode : Mode) (s : ParseState) :
    optionRound mode argv p s =
      let chars := get_current_flag flag 0 s.frstChar s.scndChar
      let s := { s with frstChar := chars.2.1, scndChar := chars.2.2 }
      if chars.1 > 3 then some (EOF, s)
      else if s.frstChar ≠ '-' then some (EOF, s)
      else mode.option (argAt argv (p + 1)) s := by
  rw [optionRound, hflag]
  rfl

theorem Stored.chars (h : Stored done s) (f c : Char) :
    Stored done { s with frstChar := f, scndChar := c } :=
  ⟨h.tSeen, h.lSeen, h.nSeen, h.bSeen, h.samples, h.level, h.size, h.noiseLen, h.noise⟩

theorem optionRound_flag {argv : List Arg} {p : Nat} {c : Char}
    (hflag : argAt argv p = some (some (flagOf c))) (mode : Mode) (s : ParseState) :
    optionRound mode argv p s =
      mode.option (argAt argv (p + 1)) { s with frstChar := '-', scndChar := c } := by
  rw [optionRound_eq hflag]
  rfl

/-- The letter of an option is that of its flag, or an old one. -/
theorem get_current_flag_letter {flag : Arg} {c : Char}
    (hlen : (get_current_flag flag 0 '-' c).1 ≤ 3)
    (hdash : (get_current_flag flag 0 '-' c).2.1 = '-') :
    (get_current_flag flag 0 '-' c).2.2 = c ∨
      flag = flagOf (get_current_flag flag 0 '-' c).2.2 := by
  cases flag with
  | nil => exact .inl rfl
  | cons a flag =>
      cases flag with
      | nil => exact .inl rfl
      | cons b flag =>
          cases flag with
          | nil => exact .inr (congrArg (fun x => [x, b]) hdash)
          | cons d flag => exact absurd hlen (not_le.mpr (get_current_flag_long a b d flag 0 '-' c))

/-- A flag that is not a new one of the mode ends the command line. -/
theorem optionRound_refused {argv : List Arg} {p : Nat} {flag : Arg}
    (hflag : argAt argv p = some (some flag)) (h : Seen mode done s)
    (hnew : ¬ NewFlag mode done flag) :
    ∃ s', optionRound mode argv p s = some (EOF, s') := by
  rw [optionRound_eq hflag, h.dash]
  dsimp only
  split_ifs with hlen hdash
  · exact ⟨_, rfl⟩
  · exact ⟨_, rfl⟩
  · refine ⟨_, option_refused _ (h.stored.chars _ _) fun hmem => ?_⟩
    rcases get_current_flag_letter (not_lt.mp hlen) (not_not.mp hdash) with hold | hown
    · rw [hold] at hmem ⊢
      exact h.stale hmem
    · rw [Option.isSome_iff_ne_none]
      intro hnone
      rw [hown] at hnew
      exact hnew ⟨hnone, _, hmem, rfl⟩

/-! ## The loop -/

theorem acceptable_newFlag {flag value : Arg} (h : Acceptable mode (flag, value)) :
    ∃ c ∈ mode.letters, flag = flagOf c := by
  cases mode with
  | generate =>
      rcases h with ⟨rfl, -⟩ | ⟨rfl, -⟩ | ⟨rfl, -⟩
      · exact ⟨'t', by decide, rfl⟩
      · exact ⟨'l', by decide, rfl⟩
      · exact ⟨'n', by decide, rfl⟩
  | detect =>
      obtain ⟨rfl, -⟩ := h
      exact ⟨'b', by decide, rfl⟩

theorem lookup_eq_none_iff {flag : Arg} :
    done.lookup flag = none ↔ flag ∉ done.map Prod.fst := by
  rw [List.lookup_eq_none_iff]
  constructor
  · intro hall hmem
    obtain ⟨p, hp, rfl⟩ := List.mem_map.mp hmem
    exact absurd (hall p hp) (by simp)
  · intro hout p hp
    refine bne_iff_ne.mpr fun heq => hout ?_
    rw [heq]
    exact List.mem_map_of_mem hp

/-- A round with a flag and a value. -/
theorem optionRound_value {argv : List Arg} {p : Nat} {flag value : Arg}
    (hflag : argAt argv p = some (some flag)) (hvalue : argAt argv (p + 1) = some (some value))
    (h : Seen mode done s) :
    (flag ∉ done.map Prod.fst ∧ Acceptable mode (flag, value) ∧
      ∃ s', optionRound mode argv p s = some (0, s') ∧ Seen mode (done ++ [(flag, value)]) s') ∨
    (¬ (flag ∉ done.map Prod.fst ∧ Acceptable mode (flag, value)) ∧
      ∃ s', optionRound mode argv p s = some (EOF, s')) := by
  by_cases hnew : NewFlag mode done flag
  · obtain ⟨hnone, c, hmem, rfl⟩ := hnew
    rw [optionRound_flag hflag, hvalue]
    rcases option_value (h.stored.chars '-' c) hmem hnone value with
      ⟨hacc, s', hs', hdash, hletter, hstored⟩ | ⟨hacc, s', hs'⟩
    · refine .inl ⟨lookup_eq_none_iff.mp hnone, hacc, s', hs', hstored, hdash, fun _ => ?_⟩
      rw [hletter, lookup_snoc hnone, if_pos rfl]
      rfl
    · exact .inr ⟨fun hc => hacc hc.2, s', hs'⟩
  · refine .inr ⟨fun hc => hnew ?_, optionRound_refused hflag h hnew⟩
    exact ⟨lookup_eq_none_iff.mpr hc.1, acceptable_newFlag hc.2⟩

/-- A round with a flag at the end of the command line. -/
theorem optionRound_last {argv : List Arg} {p : Nat} {flag : Arg}
    (hflag : argAt argv p = some (some flag)) (hnull : argAt argv (p + 1) = some none)
    (h : Seen mode done s) :
    (mode = .generate ∧ flag = flagOf 'n' ∧ flag ∉ done.map Prod.fst ∧
      optionRound mode argv p s = none) ∨
    (¬ (mode = .generate ∧ flag = flagOf 'n' ∧ flag ∉ done.map Prod.fst) ∧
      ∃ s', optionRound mode argv p s = some (EOF, s')) := by
  by_cases hnew : NewFlag mode done flag
  · obtain ⟨hnone, c, hmem, rfl⟩ := hnew
    rw [optionRound_flag hflag, hnull]
    rcases option_null (h.stored.chars '-' c) hmem hnone with
      ⟨hmode, hletter, hfault⟩ | ⟨hnot, s', hs'⟩
    · exact .inl ⟨hmode, congrArg flagOf hletter, lookup_eq_none_iff.mp hnone, hfault⟩
    · exact .inr ⟨fun hc => hnot ⟨hc.1, flagOf_inj.mp hc.2.1⟩, s', hs'⟩
  · refine .inr ⟨fun hc => hnew ?_, optionRound_refused hflag h hnew⟩
    obtain ⟨rfl, rfl, hout⟩ := hc
    exact ⟨lookup_eq_none_iff.mpr hout, 'n', by decide, rfl⟩

/-- The options are valid, and nothing is left over. -/
def Complete (mode : Mode) (done : List (Arg × Arg)) (rest : List Arg) : Prop :=
  Accepted mode (done ++ pairsOf rest) ∧ leftover rest = none

/-- The options are valid but for a last `-n`, the first one, that has no name. -/
def EndsInNoise (mode : Mode) (done : List (Arg × Arg)) (rest : List Arg) : Prop :=
  mode = .generate ∧ Accepted mode (done ++ pairsOf rest) ∧ leftover rest = some (flagOf 'n') ∧
    flagOf 'n' ∉ (done ++ pairsOf rest).map Prod.fst

/-- How the loop ends, with the strings `rest` to come. -/
inductive LoopEnds (mode : Mode) (done : List (Arg × Arg)) (rest : List Arg) :
    Option (Int × ParseState) → Prop
  | finished {s : ParseState} (hdone : Complete mode done rest)
      (hs : Seen mode (done ++ pairsOf rest) s) : LoopEnds mode done rest (some (0, s))
  | fault (hend : EndsInNoise mode done rest) : LoopEnds mode done rest none
  | refused {s : ParseState} (hdone : ¬ Complete mode done rest)
      (hend : ¬ EndsInNoise mode done rest) : LoopEnds mode done rest (some (EOF, s))

theorem Accepted.snoc (h : Accepted mode done) {p : Arg × Arg} (hnew : p.1 ∉ done.map Prod.fst)
    (hp : Acceptable mode p) : Accepted mode (done ++ [p]) := by
  refine ⟨?_, List.forall_mem_append.mpr ⟨h.2, List.forall_mem_singleton.mpr hp⟩⟩
  rw [List.map_append, List.map_singleton]
  refine h.1.append (List.nodup_singleton _) ?_
  exact List.disjoint_singleton.mpr hnew

theorem Accepted.new {p : Arg × Arg} {pairs : List (Arg × Arg)}
    (h : Accepted mode (done ++ p :: pairs)) :
    p.1 ∉ done.map Prod.fst ∧ Acceptable mode p := by
  refine ⟨fun hmem => ?_, h.2 p (List.mem_append_right _ List.mem_cons_self)⟩
  have hnodup := h.1
  rw [List.map_append, List.map_cons, List.nodup_append] at hnodup
  exact hnodup.2.2 _ hmem _ List.mem_cons_self rfl

theorem argAt_at (pre rest : List Arg) (flag : Arg) :
    argAt (pre ++ flag :: rest) pre.length = some (some flag) := by
  rw [argAt, if_pos (by simp)]
  simp

theorem argAt_next (pre rest : List Arg) (flag value : Arg) :
    argAt (pre ++ flag :: value :: rest) (pre.length + 1) = some (some value) := by
  have h := argAt_at (pre ++ [flag]) rest value
  rwa [List.append_assoc, List.length_append] at h

theorem argAt_end (pre : List Arg) (flag : Arg) :
    argAt (pre ++ [flag]) (pre.length + 1) = some none := by
  rw [argAt, if_neg (by simp), if_pos (by simp)]

theorem pairsOf_nil : pairsOf [] = [] := rfl

theorem pairsOf_singleton (flag : Arg) : pairsOf [flag] = [] := rfl

theorem LoopEnds.cons {flag value : Arg} {rest : List Arg} {r : Option (Int × ParseState)}
    (h : LoopEnds mode (done ++ [(flag, value)]) rest r) :
    LoopEnds mode done (flag :: value :: rest) r := by
  have hpairs : done ++ [(flag, value)] ++ pairsOf rest =
      done ++ pairsOf (flag :: value :: rest) := by
    rw [List.append_assoc]
    rfl
  cases h with
  | finished hdone hs => exact .finished ⟨hpairs ▸ hdone.1, hdone.2⟩ (hpairs ▸ hs)
  | fault hend => exact .fault ⟨hend.1, hpairs ▸ hend.2.1, hend.2.2.1, hpairs ▸ hend.2.2.2⟩
  | refused hdone hend =>
      refine .refused (fun h => hdone ⟨hpairs ▸ h.1, h.2⟩) fun h => hend ?_
      exact ⟨h.1, hpairs ▸ h.2.1, h.2.2.1, hpairs ▸ h.2.2.2⟩

/-- The induction over the options, which are taken two strings at a time. -/
theorem optionLoop_ends (fuel : Nat) (pre rest : List Arg) (hfuel : rest.length < fuel)
    (h : Seen mode done s) (hacc : Accepted mode done) :
    LoopEnds mode done rest
      (optionLoop mode (pre ++ rest) fuel pre.length pre.length s) := by
  induction fuel generalizing pre rest done s with
  | zero => exact absurd hfuel (Nat.not_lt_zero _)
  | succ fuel ih =>
      rw [optionLoop]
      cases rest with
      | nil =>
          rw [if_neg (by simp)]
          exact .finished ⟨by rwa [pairsOf_nil, List.append_nil], rfl⟩
            (by rwa [pairsOf_nil, List.append_nil])
      | cons flag rest =>
          rw [if_pos (by simp)]
          cases rest with
          | nil =>
              rcases optionRound_last (argAt_at pre [] flag) (argAt_end pre flag) h with
                ⟨hmode, hflag, hnew, hround⟩ | ⟨hnot, s', hround⟩
              · rw [hround]
                refine .fault ⟨hmode, ?_, congrArg some hflag, ?_⟩
                · rwa [pairsOf_singleton, List.append_nil]
                · rwa [pairsOf_singleton, List.append_nil, ← hflag]
              · rw [hround]
                refine .refused (fun hdone => ?_) fun hend => hnot ?_
                · exact absurd hdone.2 (by simp [leftover])
                · obtain ⟨hmode, -, hleft, hnew⟩ := hend
                  obtain rfl : flag = flagOf 'n' := Option.some.inj hleft
                  rw [pairsOf_singleton, List.append_nil] at hnew
                  exact ⟨hmode, rfl, hnew⟩
          | cons value rest =>
              rcases optionRound_value (argAt_at pre (value :: rest) flag)
                (argAt_next pre rest flag value) h with
                ⟨hnew, hok, s', hround, hs'⟩ | ⟨hnot, s', hround⟩
              · have hrest := ih (pre ++ [flag, value]) rest
                  (by simp only [List.length_cons] at hfuel; omega) hs' (hacc.snoc hnew hok)
                rw [List.append_assoc, List.length_append] at hrest
                rw [hround, Option.bind_eq_bind, Option.bind_some]
                exact hrest.cons
              · rw [hround]
                refine .refused (fun hdone => hnot ?_) fun hend => hnot ?_
                · exact hdone.1.new
                · exact hend.2.1.new

/-! ## The command line -/

/-- The value of an option is a numeral that can be multiplied by ten, and not the one that stands
for a level that is not given. -/
def Tells (p : Arg × Arg) : Prop :=
  p.1 = flagOf 'n' ∨ ∃ v, Numeral p.2 v ∧ -922337203685477580 ≤ v ∧ v ≤ 922337203685477580 ∧
    ¬ (p.1 = flagOf 'l' ∧ v = -1)

/-- The options of a mode can be relied on. -/
def ModeTells (mode : Mode) (args : List Arg) : Prop :=
  ¬ EndsInNoise mode [] args ∧ (Complete mode [] args → ∀ p ∈ pairsOf args, Tells p)

/-- The numeral that a passing value is, if it is one. -/
theorem numeral_taken_iff {value : Arg} (h : (get_current_value (some value)).1 ≠ 0) :
    Numeral value (taken value) ↔
      ∃ v, Numeral value v ∧ -922337203685477580 ≤ v ∧ v ≤ 922337203685477580 := by
  constructor
  · intro hnum
    refine ⟨_, hnum, ?_⟩
    have hs : SignsAndDigits value := by
      by_contra hs
      exact h (get_current_value_error hs)
    have hbound := storedMagnitude_bound value
    rw [taken, get_current_value_ok hs]
    split_ifs <;> omega
  · rintro ⟨v, hv, hlow, hhigh⟩
    rwa [taken, get_current_value_numeral hv hlow hhigh]

theorem mem_of_lookup {pairs : List (Arg × Arg)} {flag value : Arg}
    (h : pairs.lookup flag = some value) : (flag, value) ∈ pairs := by
  obtain ⟨front, back, rfl, -⟩ := List.lookup_eq_some_iff.mp h
  exact List.mem_append_right _ List.mem_cons_self

theorem Accepted.lookup {pairs : List (Arg × Arg)} (h : Accepted mode pairs) {p : Arg × Arg}
    (hp : p ∈ pairs) : pairs.lookup p.1 = some p.2 := by
  obtain ⟨front, back, rfl⟩ := List.append_of_mem hp
  refine List.lookup_eq_some_iff.mpr ⟨front, back, rfl, fun q hq => bne_iff_ne.mpr fun heq => ?_⟩
  exact h.new.1 (heq ▸ List.mem_map_of_mem hq)

/-- The number behind a sentinel: it is given when the value is a small numeral other than `-1`. -/
theorem numberGiven_iff (default : Int) {pairs : List (Arg × Arg)} {letter : Char} {temp : Int}
    (htemp : temp = (pairs.lookup (flagOf letter)).elim (-1) taken)
    (hret : ∀ value, pairs.lookup (flagOf letter) = some value →
      (get_current_value (some value)).1 ≠ 0)
    (hdefault : 0 ≤ default ∧ default ≤ 1000) :
    NumberGiven (if temp ≠ -1 then temp else default) letter default pairs ↔
      ∀ value, pairs.lookup (flagOf letter) = some value →
        ∃ v, Numeral value v ∧ -922337203685477580 ≤ v ∧ v ≤ 922337203685477580 ∧ v ≠ -1 := by
  unfold NumberGiven
  cases hlookup : pairs.lookup (flagOf letter) with
  | none =>
      rw [hlookup, Option.elim_none] at htemp
      rw [if_neg (by rw [htemp]; decide)]
      simp
  | some value =>
      rw [hlookup, Option.elim_some] at htemp
      subst htemp
      have hiff := numeral_taken_iff (hret value hlookup)
      simp only [Option.some.injEq, forall_eq']
      by_cases hsentinel : taken value = -1
      · rw [if_neg (not_not.mpr hsentinel)]
        constructor
        · -- the value would be the default, which is another number than -1
          intro hnum
          have htaken := hiff.mpr ⟨default, hnum, by omega, by omega⟩
          have heq := hnum.unique htaken
          omega
        · rintro ⟨v, hv, hlow, hhigh, hne⟩
          have htaken := hiff.mpr ⟨v, hv, hlow, hhigh⟩
          exact absurd ((hv.unique htaken).trans hsentinel) hne
      · rw [if_pos hsentinel, hiff]
        constructor
        · rintro ⟨v, hv, hlow, hhigh⟩
          have htaken := hiff.mpr ⟨v, hv, hlow, hhigh⟩
          exact ⟨v, hv, hlow, hhigh, fun heq => hsentinel ((hv.unique htaken).symm.trans heq)⟩
        · rintro ⟨v, hv, hlow, hhigh, -⟩
          exact ⟨v, hv, hlow, hhigh⟩

theorem Between.numeral_ne {low high v : Int} {value : Arg} (h : Between low high value)
    (hlow : 0 ≤ low) (hv : Numeral value v)
    (hsmall : -922337203685477580 ≤ v ∧ v ≤ 922337203685477580) : v ≠ -1 := by
  have htaken := (numeral_taken_iff h.1).mpr ⟨v, hv, hsmall⟩
  have hbound := h.2.1
  have heq := hv.unique htaken
  omega

/-- The checks that an option has passed, whatever the mode. -/
theorem Acceptable.checked {p : Arg × Arg} (h : Acceptable mode p) :
    p.1 = flagOf 't' ∧ Between 0 268435455 p.2 ∨ p.1 = flagOf 'l' ∧ Between (-30) 30 p.2 ∨
      p.1 = flagOf 'b' ∧ Between 10 1000 p.2 ∨ p.1 = flagOf 'n' ∧ 4 ≤ p.2.length := by
  cases mode with
  | generate =>
      rcases h with h | h | h
      · exact .inl h
      · exact .inr (.inl h)
      · exact .inr (.inr (.inr h))
  | detect => exact .inr (.inr (.inl h))

theorem Accepted.checked {pairs : List (Arg × Arg)} (hacc : Accepted mode pairs) {c : Char}
    {value : Arg} (h : pairs.lookup (flagOf c) = some value) :
    c = 't' ∧ Between 0 268435455 value ∨ c = 'l' ∧ Between (-30) 30 value ∨
      c = 'b' ∧ Between 10 1000 value ∨ c = 'n' ∧ 4 ≤ value.length := by
  have hchecked := (hacc.2 _ (mem_of_lookup h)).checked
  simpa only [flagOf_inj] using hchecked

theorem given_iff {pairs : List (Arg × Arg)} (hacc : Accepted mode pairs) (h : Stored pairs s) :
    Given (s.globals mode) pairs ↔ ∀ p ∈ pairs, Tells p := by
  have hret {c : Char} (hc : c ≠ 'n') (value : Arg)
      (hvalue : pairs.lookup (flagOf c) = some value) :
      (get_current_value (some value)).1 ≠ 0 := by
    rcases hacc.checked hvalue with ⟨-, h⟩ | ⟨-, h⟩ | ⟨-, h⟩ | ⟨rfl, -⟩
    · exact h.1
    · exact h.1
    · exact h.1
    · exact absurd rfl hc
  have ht := numberGiven_iff 1000 h.samples (hret (by decide)) (by decide)
  have hl := numberGiven_iff 0 h.level (hret (by decide)) (by decide)
  have hb := numberGiven_iff 100 h.size (hret (by decide)) (by decide)
  -- the name of the noise file counts only with its length
  have hn : (s.globals mode).noise_file = pairs.lookup (flagOf 'n') := by
    have hlen := h.noiseLen
    show (if s.noiseFileLen = 0 then none else s.noise_file) = _
    cases hname : pairs.lookup (flagOf 'n') with
    | none =>
        rw [hname, Option.elim_none] at hlen
        rw [if_pos hlen]
    | some name =>
        rw [hname, Option.elim_some] at hlen
        rcases hacc.checked hname with ⟨hc, -⟩ | ⟨hc, -⟩ | ⟨hc, -⟩ | ⟨-, hlong⟩
        · exact absurd hc (by decide)
        · exact absurd hc (by decide)
        · exact absurd hc (by decide)
        · rw [if_neg (by omega), h.noise name hname]
  constructor
  · intro hgiven p hp
    have hvalue := hacc.lookup hp
    rcases (hacc.2 p hp).checked with ⟨hflag, -⟩ | ⟨hflag, -⟩ | ⟨hflag, -⟩ | ⟨hflag, -⟩
    · rw [hflag] at hvalue
      obtain ⟨v, hv, hlow, hhigh, hne⟩ := ht.mp hgiven.audio_samples p.2 hvalue
      exact .inr ⟨v, hv, hlow, hhigh, fun hcontra => hne hcontra.2⟩
    · rw [hflag] at hvalue
      obtain ⟨v, hv, hlow, hhigh, hne⟩ := hl.mp hgiven.noise_level p.2 hvalue
      exact .inr ⟨v, hv, hlow, hhigh, fun hcontra => hne hcontra.2⟩
    · rw [hflag] at hvalue
      obtain ⟨v, hv, hlow, hhigh, hne⟩ := hb.mp hgiven.block_size p.2 hvalue
      exact .inr ⟨v, hv, hlow, hhigh, fun hcontra => hne hcontra.2⟩
    · exact .inl hflag
  · intro htells
    have hnumber {c : Char} (hc : c ≠ 'n') {value : Arg}
        (hvalue : pairs.lookup (flagOf c) = some value) : ∃ v, Numeral value v ∧
          -922337203685477580 ≤ v ∧ v ≤ 922337203685477580 ∧ v ≠ -1 := by
      rcases htells _ (mem_of_lookup hvalue) with hflag | ⟨v, hv, hlow, hhigh, hne⟩
      · exact absurd (flagOf_inj.mp hflag) hc
      · refine ⟨v, hv, hlow, hhigh, ?_⟩
        rcases hacc.checked hvalue with ⟨-, hpass⟩ | ⟨rfl, -⟩ | ⟨-, hpass⟩ | ⟨rfl, -⟩
        · exact hpass.numeral_ne (by decide) hv ⟨hlow, hhigh⟩
        · exact fun heq => hne ⟨rfl, heq⟩
        · exact hpass.numeral_ne (by decide) hv ⟨hlow, hhigh⟩
        · exact absurd rfl hc
    exact ⟨ht.mpr fun _ => hnumber (by decide), hl.mpr fun _ => hnumber (by decide),
      hb.mpr fun _ => hnumber (by decide), hn⟩

theorem seen_start {c : Char} (hc : c ∉ mode.letters) (noise_file : Option Arg) :
    Seen mode [] { frstChar := '-', scndChar := c, noise_file := noise_file } where
  stored := ⟨rfl, rfl, rfl, rfl, rfl, rfl, rfl, rfl, fun _ h => nomatch h⟩
  dash := rfl
  stale := fun hmem => absurd hmem hc

/-- The right outcome of a mode. -/
def ModeRight (argv : List Arg) (res : Option (Int × Globals)) : Prop :=
  ∃ ret g', res = some (ret, g') ∧
    (ret = 0 → g'.global_options = GENERATE_OPTION ∨ g'.global_options = DETECT_OPTION →
      Given g' (pairsOf (argv.drop 2)))

theorem modeRight_error (argv : List Arg) (g : Globals) : ModeRight argv (some (EOF, g)) :=
  ⟨EOF, g, rfl, fun h => absurd h (by decide)⟩

theorem validMode_iff {prog flag : Arg} {rest : List Arg} (h : Seen mode [] s) (g : Globals) :
    ModeRight (prog :: flag :: rest) (validMode mode (prog :: flag :: rest) g s) ↔
      ModeTells mode rest := by
  have hloop := optionLoop_ends (prog :: flag :: rest).length [prog, flag] rest
    (by simp only [List.length_cons]; omega) h ⟨List.nodup_nil, by simp⟩
  unfold validMode ModeTells
  rw [show [prog, flag] ++ rest = prog :: flag :: rest from rfl,
    show [prog, flag].length = 2 from rfl] at hloop
  generalize optionLoop mode (prog :: flag :: rest) (prog :: flag :: rest).length 2 2 s = res
    at hloop ⊢
  cases hloop with
  | fault hend =>
      refine iff_of_false ?_ fun hc => hc.1 hend
      rintro ⟨ret, g', hres, -⟩
      exact absurd hres (by simp)
  | refused hdone hend =>
      exact iff_of_true (modeRight_error _ _) ⟨hend, fun hc => absurd hc hdone⟩
  | finished hdone hs =>
      rename_i s'
      have hacc := hdone.1
      rw [List.nil_append] at hacc hs
      have hgiven := given_iff hacc hs.stored
      have hend : ¬ EndsInNoise mode [] rest := by
        rintro ⟨-, -, hleft, -⟩
        rw [hdone.2] at hleft
        exact absurd hleft (by simp)
      constructor
      · rintro ⟨ret, g', hres, hright⟩
        obtain ⟨rfl, rfl⟩ := Prod.mk.inj (Option.some.inj hres)
        refine ⟨hend, fun _ => hgiven.mp (hright rfl ?_)⟩
        cases mode
        · exact .inl rfl
        · exact .inr rfl
      · rintro ⟨-, htells⟩
        exact ⟨0, s'.globals mode, rfl, fun _ _ => hgiven.mpr (htells hdone)⟩

/-- The mode is that of the first flag. -/
theorem get_current_flag_mode (flag : Arg) {c : Char} (hc : c ≠ '0') :
    ((get_current_flag flag 0 '0' '0').1 ≤ 3 ∧ (get_current_flag flag 0 '0' '0').2.1 = '-' ∧
      (get_current_flag flag 0 '0' '0').2.2 = c) ↔ flag = flagOf c := by
  constructor
  · rintro ⟨hlen, hdash, hletter⟩
    cases flag with
    | nil => exact absurd hletter.symm hc
    | cons a flag =>
        cases flag with
        | nil => exact absurd hletter.symm hc
        | cons b flag =>
            cases flag with
            | nil => exact congrArg₂ (fun x y => [x, y]) hdash hletter
            | cons d flag =>
                exact absurd hlen (not_le.mpr (get_current_flag_long a b d flag 0 '0' '0'))
  · rintro rfl
    exact ⟨Nat.one_le_ofNat, rfl, rfl⟩

/-- The mode by the characters of the first flag. -/
theorem validargs_eq (prog flag : Arg) (rest : List Arg) (g : Globals) :
    validargs (prog :: flag :: rest) g =
      let chars := get_current_flag flag 0 '0' '0'
      let g := { g with global_options := 0 }
      let s : ParseState :=
        { frstChar := chars.2.1, scndChar := chars.2.2, noise_file := g.noise_file }
      if chars.1 > 3 then some (EOF, g)
      else if chars.2.1 = '-' ∧ chars.2.2 = 'h' then
        some (0, { g with global_options := HELP_OPTION })
      else if chars.2.1 = '-' ∧ chars.2.2 = 'g' then
        validMode .generate (prog :: flag :: rest) g s
      else if chars.2.1 = '-' ∧ chars.2.2 = 'd' then
        validMode .detect (prog :: flag :: rest) g s
      else some (EOF, g) := by
  have hargs : ¬ (prog :: flag :: rest).length < 2 := by
    simp only [List.length_cons]
    omega
  have hmode : argAt (prog :: flag :: rest) 1 = some (some flag) := argAt_at [prog] rest flag
  rw [validargs, if_neg hargs, hmode]
  rfl

/-- On a command line without fault the globals are as the options say, exactly when the options of
the mode can be relied on. -/
theorem validargs_iff (argv : List Arg) (g : Globals) : ValidRight argv g ↔
    (argv[1]? = some (flagOf 'g') → ModeTells .generate (argv.drop 2)) ∧
      (argv[1]? = some (flagOf 'd') → ModeTells .detect (argv.drop 2)) := by
  show ModeRight argv (validargs argv g) ↔ _
  cases argv with
  | nil => exact iff_of_true (modeRight_error _ _) (by simp)
  | cons prog args =>
      cases args with
      | nil => exact iff_of_true (modeRight_error _ _) (by simp)
      | cons flag rest =>
          have hh := get_current_flag_mode flag (c := 'h') (by decide)
          have hg := get_current_flag_mode flag (c := 'g') (by decide)
          have hd := get_current_flag_mode flag (c := 'd') (by decide)
          have hflag : (prog :: flag :: rest)[1]? = some flag := rfl
          have hrest : (prog :: flag :: rest).drop 2 = rest := rfl
          rw [validargs_eq, hflag, hrest, Option.some.injEq, Option.some.injEq]
          dsimp only
          split_ifs with hlong hhelp hgen hdet
          · rw [← hg, ← hd]
            exact iff_of_true (modeRight_error _ _)
              ⟨fun h => absurd h.1 (not_le.mpr hlong), fun h => absurd h.1 (not_le.mpr hlong)⟩
          · have hmode := hh.mp ⟨not_lt.mp hlong, hhelp⟩
            refine iff_of_true ⟨0, _, rfl, fun _ h => h.elim
              (by simp [HELP_OPTION, GENERATE_OPTION]) (by simp [HELP_OPTION, DETECT_OPTION])⟩ ?_
            simp [hmode, flagOf_inj]
          · have hmode := hg.mp ⟨not_lt.mp hlong, hgen⟩
            rw [hgen.1, hgen.2, validMode_iff (seen_start (by decide) _)]
            simp [hmode, flagOf_inj]
          · have hmode := hd.mp ⟨not_lt.mp hlong, hdet⟩
            rw [hdet.1, hdet.2, validMode_iff (seen_start (by decide) _)]
            simp [hmode, flagOf_inj]
          · rw [← hg, ← hd]
            exact iff_of_true (modeRight_error _ _)
              ⟨fun h => absurd h.2 hgen, fun h => absurd h.2 hdet⟩

/-- A level of `-1` is taken for none. -/
theorem validargs_level : ¬ ∀ (argv : List Arg) (g : Globals), ValidRight argv g := by
  intro hall
  obtain ⟨ret, g', hres, hright⟩ := hall
    ["dtmf".toList, "-g".toList, "-l".toList, "-1".toList] ⟨0, none, 0, 100, 1000⟩
  have hrun : validargs ["dtmf".toList, "-g".toList, "-l".toList, "-1".toList]
      ⟨0, none, 0, 100, 1000⟩ = some (0, ⟨GENERATE_OPTION, none, 0, 100, 1000⟩) := by
    rfl
  rw [hrun] at hres
  obtain ⟨rfl, rfl⟩ := Prod.mk.inj (Option.some.inj hres)
  have hlevel := (hright rfl (.inl rfl)).noise_level
  have hzero : Numeral ['-', '1'] 0 := hlevel
  have hone : Numeral ['-', '1'] (-1) :=
    .minus (by simp) (List.forall_mem_singleton.mpr (by decide))
  exact absurd (hzero.unique hone) (by decide)

end StarterProjects.Dtmf
