import StarterProjects.Dtmf.Values

/-!
# `validargs`

The command line. `argv` is the list of its strings, and the pointer behind the last one is NULL.
A read past that pointer and a read through NULL are undefined: the result is then `none`. A flag
of one character or none leaves the two characters of the flag before it as they are, or one of
them. The characters of a string are counted without wrapping.
-/

namespace StarterProjects.Dtmf

open Lib.Decimal

def HELP_OPTION : Nat := 0x1

def GENERATE_OPTION : Nat := 0x2

def DETECT_OPTION : Nat := 0x4

/-- A string, without the terminating NUL. -/
abbrev Arg := List Char

structure Globals where
  global_options : Nat
  noise_file : Option Arg
  noise_level : Int
  block_size : Int
  audio_samples : Int

/-- The local variables of `validargs` that outlive an option, and `noise_file`. -/
structure ParseState where
  frstChar : Char := '0'
  scndChar : Char := '0'
  noiseFileLen : Nat := 0
  temp_noise_level : Int := -1
  temp_block_size : Int := -1
  temp_audio_samples : Int := -1
  tFlagSeen : Bool := false
  lFlagSeen : Bool := false
  nFlagSeen : Bool := false
  bFlagSeen : Bool := false
  noise_file : Option Arg

/-- `argv[p]`: a string, NULL behind the last one, and undefined past that. -/
def argAt (argv : List Arg) (p : Nat) : Option (Option Arg) :=
  if p < argv.length then some argv[p]?
  else if p = argv.length then some none
  else none

/-- The returned value and the two characters. -/
def get_current_flag : Arg → Nat → Char → Char → Nat × Char × Char
  | [], flagLen, frstChar, scndChar => (flagLen, frstChar, scndChar)
  | [c], flagLen, _, scndChar => (flagLen + 1, c, scndChar)
  | [c, d], flagLen, _, _ => (flagLen + 1, c, d)
  | c :: d :: e :: cs, flagLen, _, _ => get_current_flag (e :: cs) (flagLen + 3) c d

/-- An option with a number between two bounds. -/
def numberOption (low high : Int) (put : Int → ParseState) (value : Option Arg) (s : ParseState) :
    Int × ParseState :=
  let res := get_current_value value
  if res.1 = 0 then (EOF, s)
  else if res.2 < low ∨ res.2 > high then (EOF, s)
  else (0, put res.2)

/-- One option of the generate mode, after its flag; `value` is the pointer behind the flag. -/
def generateOption (value : Option (Option Arg)) (s : ParseState) : Option (Int × ParseState) := do
  if s.scndChar = 't' ∧ !s.tFlagSeen then
    let s := { s with tFlagSeen := true }
    return numberOption 0 268435455 (fun v => { s with temp_audio_samples := v }) (← value) s
  else if s.scndChar = 'l' ∧ !s.lFlagSeen then
    let s := { s with lFlagSeen := true }
    return numberOption (-30) 30 (fun v => { s with temp_noise_level := v }) (← value) s
  else if s.scndChar = 'n' ∧ !s.nFlagSeen then
    let noise_file ← value
    let tempPtr ← noise_file
    let s := { s with
      nFlagSeen := true
      noise_file := noise_file
      noiseFileLen := s.noiseFileLen + tempPtr.length }
    return if s.noiseFileLen < 4 then (EOF, s) else (0, s)
  else return (EOF, s)

/-- One option of the detect mode. -/
def detectOption (value : Option (Option Arg)) (s : ParseState) : Option (Int × ParseState) := do
  if s.scndChar = 'b' ∧ !s.bFlagSeen then
    let s := { s with bFlagSeen := true }
    return numberOption 10 1000 (fun v => { s with temp_block_size := v }) (← value) s
  else return (EOF, s)

inductive Mode where
  | generate
  | detect
  deriving DecidableEq

def Mode.option : Mode → Option (Option Arg) → ParseState → Option (Int × ParseState)
  | generate => generateOption
  | detect => detectOption

/-- The body of the loop of a mode. -/
def optionRound (mode : Mode) (argv : List Arg) (p : Nat) (s : ParseState) :
    Option (Int × ParseState) := do
  let flagPtr ← argAt argv p
  let flag ← flagPtr
  let (flagLen, frstChar, scndChar) := get_current_flag flag 0 s.frstChar s.scndChar
  let s := { s with frstChar := frstChar, scndChar := scndChar }
  if flagLen > 3 then return (EOF, s)
  else if s.frstChar ≠ '-' then return (EOF, s)
  else mode.option (argAt argv (p + 1)) s

/-- `for(i = 2; i < argc; i++)`, with `tempArgv` at `argv + p`. A round that does not return takes a
flag and a value. -/
def optionLoop (mode : Mode) (argv : List Arg) : Nat → Nat → Nat → ParseState →
    Option (Int × ParseState)
  | 0, _, _, _ => none
  | fuel + 1, i, p, s =>
      if i < argv.length then do
        let (ret, s) ← optionRound mode argv p s
        if ret = EOF then return (EOF, s)
        else optionLoop mode argv fuel (i + 2) (p + 2) s
      else some (0, s)

def Mode.global_options : Mode → Nat
  | generate => GENERATE_OPTION
  | detect => DETECT_OPTION

/-- The globals after the loop of a mode. -/
def ParseState.globals (s : ParseState) (mode : Mode) : Globals where
  global_options := mode.global_options
  noise_file := if s.noiseFileLen = 0 then none else s.noise_file
  noise_level := if s.temp_noise_level ≠ -1 then s.temp_noise_level else 0
  block_size := if s.temp_block_size ≠ -1 then s.temp_block_size else 100
  audio_samples := if s.temp_audio_samples ≠ -1 then s.temp_audio_samples else 1000

/-- What is left to do in a mode. Every round goes forward, so `argc` rounds are enough. -/
def validMode (mode : Mode) (argv : List Arg) (g : Globals) (s : ParseState) :
    Option (Int × Globals) := do
  let (ret, s) ← optionLoop mode argv argv.length 2 2 s
  if ret = EOF then return (EOF, { g with noise_file := s.noise_file })
  else return (0, s.globals mode)

/-- The returned value and the globals. -/
def validargs (argv : List Arg) (g : Globals) : Option (Int × Globals) := do
  let g := { g with global_options := 0 }
  if argv.length < 2 then return (EOF, g)
  else
    let flagPtr ← argAt argv 1
    let flag ← flagPtr
    let (flagLen, frstChar, scndChar) := get_current_flag flag 0 '0' '0'
    if flagLen > 3 then return (EOF, g)
    else
      let s : ParseState := { frstChar, scndChar, noise_file := g.noise_file }
      if frstChar = '-' ∧ scndChar = 'h' then return (0, { g with global_options := HELP_OPTION })
      else if frstChar = '-' ∧ scndChar = 'g' then validMode .generate argv g s
      else if frstChar = '-' ∧ scndChar = 'd' then validMode .detect argv g s
      else return (EOF, g)

/-! ## What the comment above the function asks for -/

/-- The strings behind the mode, two by two: a flag and its value. -/
def pairsOf : List Arg → List (Arg × Arg)
  | flag :: value :: rest => (flag, value) :: pairsOf rest
  | _ => []

/-- A last flag without a value. -/
def leftover : List Arg → Option Arg
  | _ :: _ :: rest => leftover rest
  | [flag] => some flag
  | [] => none

def flagOf (letter : Char) : Arg := ['-', letter]

/-- The global is the number that the option gives, or the default without the option. -/
def NumberGiven (global : Int) (letter : Char) (default : Int) (pairs : List (Arg × Arg)) : Prop :=
  match pairs.lookup (flagOf letter) with
  | some value => Numeral value global
  | none => global = default

/-- The globals are as the options say. -/
structure Given (g : Globals) (pairs : List (Arg × Arg)) : Prop where
  audio_samples : NumberGiven g.audio_samples 't' 1000 pairs
  noise_level : NumberGiven g.noise_level 'l' 0 pairs
  block_size : NumberGiven g.block_size 'b' 100 pairs
  noise_file : g.noise_file = pairs.lookup (flagOf 'n')

/-- The command line is read without a fault, and when it is valid for one of the two modes, the
globals are as its options say. -/
def ValidRight (argv : List Arg) (g : Globals) : Prop :=
  ∃ ret g', validargs argv g = some (ret, g') ∧
    (ret = 0 → g'.global_options = GENERATE_OPTION ∨ g'.global_options = DETECT_OPTION →
      Given g' (pairsOf (argv.drop 2)))

end StarterProjects.Dtmf
