import StarterProjects.Finddup.Checksum
import StarterProjects.Finddup.Crc
import StarterProjects.Finddup.Duplicates
import StarterProjects.Lib.Lines

/-!
# `finddup_main`

The program from its options to its output: the build loop over the names file, the sort and the
three scans. A name is known by the offset of its line, and `getfn` reads it there again
(`getfn_listed`). What goes to `stderr` is left out.

* `buildLoop_eq`: the loop lists the regular files that are not empty, in the order of the names,
  and prints those that are empty.
-/

namespace StarterProjects.Finddup

open Lib

/-- What `lstat` tells, as far as it is used. -/
structure Stat where
  regular : Bool
  st_size : Int
  st_dev : Nat
  st_ino : Nat

/-- The files, by name, which nothing changes while the program runs; and `room`, the size of the
block that `getline` leaves in `filename` when `fullcmp` compares two files. It goes by the line
that comes next in the list of names, not by the names of the two files. -/
structure Disk where
  lstat : String → Option Stat
  fopen : String → Option ReadFile
  room : Int → Int → Nat

/-- The lines of the output. -/
inductive Output where
  | help (text : String)
  | zeroHeading
  | zeroLength (name : String)
  | scan (line : Line)
  deriving DecidableEq

def Output.text : Output → String
  | help text => text ++ "\n"
  | zeroHeading => "Zero length files:\n\n"
  | zeroLength name => name ++ "\n"
  | scan line => line.text

/-! ## The options -/

def HelpMsg : List String :=
  ["Calling sequence:", "", "  finddup [options] list", "",
    "where list is a list of files to check, such as generated",
    "by \"find . -type f -print > file\"", "", "Options:", "  -l - don't list hard links"]

/-- What `getopt_long` returns: 0 for a long option without a letter of its own, or a letter. -/
inductive Opt where
  | long (name : String)
  | letter (ch : Char)

/-- The options set `linkflag`, or they end the program. -/
inductive Parsed where
  | run (linkflag : Bool)
  | exit (status : Nat) (out : List Output)
  deriving DecidableEq

def help : List Output := HelpMsg.map .help

/-- The loop over the options. A long option that is not known to `case 0` falls through to
`case 'l'`. -/
def parseOptions : Bool → List Opt → Parsed
  | linkflag, [] => .run linkflag
  | _, .long name :: opts =>
      if name = "no-links" then parseOptions false opts
      else if name = "help" then .exit 0 help
      else parseOptions false opts
  | _, .letter ch :: opts =>
      if ch = 'l' then parseOptions false opts
      else if ch = 'h' then .exit 0 help
      else if ch = '?' then .exit 1 help
      else .exit 1 []

/-! ## The names file -/

/-- `s[strlen(s)-1] = EOS`, which is outside of the string when that is empty. -/
def chop (line : List Byte) : Option (List Byte) :=
  if cString line = [] then none else some (cString line).dropLast

def nameString (name : List Byte) : String := String.ofList (name.map fun c => Char.ofNat c.toNat)

/-- `fseek` and `getline`. Where no line begins with a character the source is undefined; there it
is the empty name here. -/
def getfn (names : List Byte) (nameloc : Int) : String :=
  nameString ((chop (Lines.first NEWLINE (names.drop nameloc.toNat)).1).getD [])

/-! ## The build loop -/

variable (disk : Disk) (junk : Nat → FileDesc)

def emptyDesc : FileDesc := ⟨0, 0, 0, 0, 0, 0⟩

structure BuildState where
  filelist : List FileDesc
  n_files : Nat := 0
  zl_hdr : Bool := true
  out : List Output := []

/-- `calloc(1, 50 * sizeof(filedesc))`. -/
def BuildState.start : BuildState := { filelist := List.replicate 50 emptyDesc }

/-- Room for 50 more descriptors, which `realloc` leaves as they happen to be. -/
def BuildState.grow (s : BuildState) : BuildState :=
  if s.n_files = s.filelist.length then
    { s with filelist := s.filelist ++ (List.range' s.filelist.length 50).map junk }
  else s

def BuildState.printEmpty (s : BuildState) (name : String) : BuildState :=
  let s := if s.zl_hdr then { s with zl_hdr := false, out := s.out ++ [.zeroHeading] } else s
  { s with out := s.out ++ [.zeroLength name] }

/-- One name, which is at `loc`. -/
def buildEntry (loc : Nat) (line : List Byte) (s : BuildState) : Option BuildState := do
  let s := s.grow junk
  let curfile ← chop line
  match disk.lstat (nameString curfile) with
  | none => return s
  | some statbuf =>
      if !statbuf.regular then return s
      else if statbuf.st_size = 0 then return s.printEmpty (nameString curfile)
      else
        return { s with
          filelist := s.filelist.set s.n_files
            { length := statbuf.st_size, crc32 := 0, device := statbuf.st_dev,
              inode := statbuf.st_ino, nameloc := loc, flags := 0 }
          n_files := s.n_files + 1 }

/-- `while (loc = ftell(namefd), getline(&curfile, &curfileLen, namefd) != -1)`. -/
def buildLoop : Nat → List (List Byte) → BuildState → Option BuildState
  | _, [], s => some s
  | loc, line :: ls, s => do
      let s ← buildEntry disk junk loc line s
      buildLoop (loc + line.length) ls s

/-! ## The program -/

inductive Outcome where
  | exit (status : Nat) (out : List Output)
  | undefined

/-- `get_crc` by the place of a name. A file that cannot be opened ends the program. -/
def crcAt (names : List Byte) (nameloc : Int) : Option Nat :=
  (disk.fopen (getfn names nameloc)).map fun fp => (get_crc fp).toNat

/-- `strcpy` into a block of `room` bytes. -/
def strcpy (room : Nat) (fn : String) : Option String :=
  if fn.length < room then some fn else none

/-- What the scans see of the disk. The files that are compared have been opened for their
checksums before (`fullcmp_opens`). Where the block is too small for a name the source is undefined;
there the files are different here. -/
def filesOf (names : List Byte) : Files where
  getfn := getfn names
  fullcmp v1 v2 := (fullcmp (fun fn => do
    let filename ← strcpy (disk.room v1 v2) fn
    disk.fopen filename) (getfn names) v1 v2).getD 1

/-- The sort and the scans, over the array that the build loop leaves. -/
def scans (linkflag : Bool) (names : List Byte) (s : BuildState) : Outcome :=
  match scan1 (crcAt disk names) s.n_files (SORT s.n_files s.filelist) with
  | .undefined _ => .undefined
  | .exited _ => .exit 1 s.out
  | .on c =>
      match scan2 (filesOf disk names) linkflag (c.filelist.take s.n_files) with
      | none => .undefined
      | some (filelist, links) =>
          match scan3 (filesOf disk names) linkflag filelist with
          | none => .undefined
          | some dups => .exit 0 (s.out ++ (links ++ dups).map .scan)

/-- The program with the operands that the options leave. -/
def finddup_main (opts : List Opt) (operands : List String) : Outcome :=
  match parseOptions true opts with
  | .exit status out => .exit status out
  | .run linkflag =>
      match operands with
      | [list] =>
          match disk.fopen list with
          | none => .exit 1 []
          | some names =>
              match buildLoop disk junk 0 (Lines.lines NEWLINE names) .start with
              | none => .undefined
              | some s => scans disk linkflag names s
      | _ => .exit 1 []

/-! ## What is listed -/

/-- The name in a line. -/
def lineName (line : List Byte) : String := nameString ((chop line).getD [])

/-- The descriptor for a name, if it is one of a file with contents. -/
def describe (loc : Nat) (line : List Byte) : Option FileDesc :=
  (disk.lstat (lineName line)).bind fun st =>
    if st.regular ∧ st.st_size ≠ 0 then some ⟨st.st_size, 0, st.st_dev, st.st_ino, loc, 0⟩
    else none

def describeFrom : Nat → List (List Byte) → List FileDesc
  | _, [] => []
  | loc, line :: ls => (describe disk loc line).toList ++ describeFrom (loc + line.length) ls

/-- The files with contents that are named. -/
def listed (names : List Byte) : List FileDesc := describeFrom disk 0 (Lines.lines NEWLINE names)

/-- The name is that of an empty file. -/
def isEmpty (line : List Byte) : Bool :=
  (disk.lstat (lineName line)).any fun st => st.regular && st.st_size == 0

/-- The list of empty files, with its heading. -/
def emptyReport (zl_hdr : Bool) (ls : List (List Byte)) : List Output :=
  let empty := (ls.filter (isEmpty disk)).map fun line => .zeroLength (lineName line)
  if empty = [] then [] else if zl_hdr then .zeroHeading :: empty else empty

/-- The array holds these files, and behind them slots that have not been written. -/
structure Built (xs : List FileDesc) (s : BuildState) : Prop where
  n_files : s.n_files = xs.length
  array : ∃ m, s.filelist = xs ++ (List.range' xs.length m).map
    (fun i => if i < 50 then emptyDesc else junk i) ∧ 50 ≤ xs.length + m

variable {disk} {junk} {xs : List FileDesc} {s : BuildState}

theorem built_start : Built junk [] .start := by
  refine ⟨rfl, 50, ?_, Nat.le_refl 50⟩
  have hslots : (List.range' 0 50).map (fun i => if i < 50 then emptyDesc else junk i) =
      (List.range' 0 50).map fun _ => emptyDesc := by
    refine List.map_congr_left fun i hi => ?_
    have hbound := (List.mem_range'_1.mp hi).2
    rw [if_pos (by omega)]
  rw [List.nil_append, List.length_nil, hslots, List.map_const', List.length_range']
  rfl

theorem Built.grow (h : Built junk xs s) : Built junk xs (s.grow junk) ∧
    (s.grow junk).out = s.out ∧ (s.grow junk).zl_hdr = s.zl_hdr ∧
    xs.length < (s.grow junk).filelist.length := by
  obtain ⟨hn, m, harray, hroom⟩ := h
  have hsize : s.filelist.length = xs.length + m := by
    rw [harray, List.length_append, List.length_map, List.length_range']
  unfold BuildState.grow
  split
  · rename_i hfull
    obtain rfl : m = 0 := by omega
    refine ⟨⟨hn, 50, ?_, by omega⟩, rfl, rfl, ?_⟩
    · simp only [harray, List.range'_zero, List.map_nil, List.append_nil]
      refine congrArg (xs ++ ·) (List.map_congr_left fun i hi => ?_)
      have hbound := (List.mem_range'_1.mp hi).1
      rw [if_neg (by omega)]
    · simp only [List.length_append, List.length_map, List.length_range']
      omega
  · exact ⟨⟨hn, m, harray, hroom⟩, rfl, rfl, by omega⟩

/-- A slot is filled. -/
theorem Built.set (h : Built junk xs s) (hroom : xs.length < s.filelist.length) (e : FileDesc) :
    Built junk (xs ++ [e])
      { s with filelist := s.filelist.set s.n_files e, n_files := s.n_files + 1 } := by
  obtain ⟨hn, m, harray, hm⟩ := h
  have hsize : s.filelist.length = xs.length + m := by
    rw [harray, List.length_append, List.length_map, List.length_range']
  obtain ⟨m, rfl⟩ : ∃ k, m = k + 1 := ⟨m - 1, by omega⟩
  refine ⟨by simp [hn], m, ?_, by simp; omega⟩
  rw [hn, harray, List.range'_succ, List.map_cons, set_at]
  simp

theorem printEmpty_eq (s : BuildState) (name : String) : s.printEmpty name =
    { s with
      zl_hdr := false
      out := s.out ++ ((if s.zl_hdr then [.zeroHeading] else []) ++ [.zeroLength name]) } := by
  obtain ⟨filelist, n_files, zl_hdr, out⟩ := s
  cases zl_hdr <;> simp [BuildState.printEmpty]

/-- One name. -/
theorem buildEntry_eq (h : Built junk xs s) {loc : Nat} {line : List Byte}
    (hname : chop line ≠ none) : ∃ s', buildEntry disk junk loc line s = some s' ∧
      Built junk (xs ++ (describe disk loc line).toList) s' ∧
      s'.out = s.out ++ emptyReport disk s.zl_hdr [line] ∧
      s'.zl_hdr = (s.zl_hdr && !isEmpty disk line) := by
  obtain ⟨name, hchop⟩ := Option.ne_none_iff_exists'.mp hname
  obtain ⟨hgrown, hout, hhdr, hroom⟩ := h.grow
  have hline : lineName line = nameString name := by rw [lineName, hchop, Option.getD_some]
  rw [← hout, ← hhdr]
  simp only [buildEntry, hchop, Option.bind_eq_bind, Option.bind_some]
  -- no such file, an empty file, a file for the list, or something else
  cases hstat : disk.lstat (nameString name) with
  | none =>
      have hempty : isEmpty disk line = false := by simp [isEmpty, hline, hstat]
      refine ⟨s.grow junk, rfl, ?_, ?_, ?_⟩
      · simpa [describe, hline, hstat] using hgrown
      · simp [emptyReport, hempty]
      · simp [hempty]
  | some st =>
      by_cases hreg : st.regular = true
      · by_cases hzero : st.st_size = 0
        · have hempty : isEmpty disk line = true := by simp [isEmpty, hline, hstat, hreg, hzero]
          have hprint := printEmpty_eq (s.grow junk) (nameString name)
          refine ⟨(s.grow junk).printEmpty (nameString name), by simp [hreg, hzero], ?_, ?_, ?_⟩
          · have hnone : describe disk loc line = none := by simp [describe, hline, hstat, hzero]
            rw [hprint, hnone, Option.toList_none, List.append_nil]
            exact ⟨hgrown.n_files, hgrown.array⟩
          · simp only [hprint, emptyReport, hempty, hline, List.filter_cons_of_pos, List.filter_nil,
              List.map_cons, List.map_nil, List.cons_ne_nil, if_false]
            split <;> rfl
          · simp [hprint, hempty]
        · have hempty : isEmpty disk line = false := by simp [isEmpty, hline, hstat, hzero]
          have hsome : describe disk loc line =
              some ⟨st.st_size, 0, st.st_dev, st.st_ino, loc, 0⟩ := by
            simp [describe, hline, hstat, hreg, hzero]
          refine ⟨{ s.grow junk with
            filelist := (s.grow junk).filelist.set (s.grow junk).n_files
              ⟨st.st_size, 0, st.st_dev, st.st_ino, loc, 0⟩
            n_files := (s.grow junk).n_files + 1 }, by simp [hreg, hzero], ?_, ?_, ?_⟩
          · rw [hsome]
            exact hgrown.set hroom _
          · simp [emptyReport, hempty]
          · simp [hempty]
      · have hempty : isEmpty disk line = false := by simp [isEmpty, hline, hstat, hreg]
        refine ⟨s.grow junk, by simp [hreg], ?_, ?_, ?_⟩
        · simpa [describe, hline, hstat, hreg] using hgrown
        · simp [emptyReport, hempty]
        · simp [hempty]

theorem emptyReport_cons (zl_hdr : Bool) (line : List Byte) (ls : List (List Byte)) :
    emptyReport disk zl_hdr (line :: ls) =
      emptyReport disk zl_hdr [line] ++ emptyReport disk (zl_hdr && !isEmpty disk line) ls := by
  cases hempty : isEmpty disk line with
  | false => simp [emptyReport, hempty]
  | true => cases zl_hdr <;> simp [emptyReport, hempty]

theorem buildLoop_eq (h : Built junk xs s) (loc : Nat) {ls : List (List Byte)}
    (hnames : ∀ line ∈ ls, chop line ≠ none) : ∃ s', buildLoop disk junk loc ls s = some s' ∧
      Built junk (xs ++ describeFrom disk loc ls) s' ∧
      s'.out = s.out ++ emptyReport disk s.zl_hdr ls := by
  induction ls generalizing loc xs s with
  | nil => exact ⟨s, rfl, by simpa [describeFrom] using h, by simp [emptyReport]⟩
  | cons line ls ih =>
      obtain ⟨s₁, hline, hs₁, hout₁, hhdr⟩ := buildEntry_eq h (hnames line List.mem_cons_self)
      obtain ⟨s₂, hrest, hs₂, hout₂⟩ := ih hs₁ (loc + line.length)
        fun l hl => hnames l (List.mem_cons_of_mem line hl)
      refine ⟨s₂, ?_, by simpa [describeFrom] using hs₂, ?_⟩
      · rw [buildLoop, hline, Option.bind_eq_bind, Option.bind_some, hrest]
      · rw [hout₂, hout₁, hhdr, emptyReport_cons s.zl_hdr line ls, List.append_assoc]

/-! ## The names again -/

theorem mem_describeFrom {loc : Nat} {ls : List (List Byte)} {e : FileDesc} :
    e ∈ describeFrom disk loc ls ↔ ∃ pre line post, ls = pre ++ line :: post ∧
      describe disk (loc + pre.flatten.length) line = some e := by
  induction ls generalizing loc with
  | nil => simp [describeFrom]
  | cons x ls ih =>
      rw [describeFrom, List.mem_append, Option.mem_toList, ih]
      constructor
      · rintro (hhere | ⟨pre, line, post, rfl, hline⟩)
        · exact ⟨[], x, ls, rfl, hhere⟩
        · exact ⟨x :: pre, line, post, rfl, by rwa [List.flatten_cons, List.length_append,
            ← Nat.add_assoc]⟩
      · rintro ⟨pre, line, post, hsplit, hline⟩
        cases pre with
        | nil =>
            obtain ⟨rfl, rfl⟩ := List.cons.inj hsplit
            exact Or.inl hline
        | cons y pre =>
            obtain ⟨rfl, rfl⟩ := List.cons.inj hsplit
            rw [List.flatten_cons, List.length_append, ← Nat.add_assoc] at hline
            exact Or.inr ⟨pre, line, post, rfl, hline⟩

theorem describe_nameloc {loc : Nat} {line : List Byte} {e : FileDesc}
    (h : describe disk loc line = some e) : e.nameloc = loc := by
  obtain ⟨st, -, hst⟩ := Option.bind_eq_some_iff.mp h
  split at hst
  · exact (congrArg FileDesc.nameloc (Option.some.inj hst)).symm
  · exact absurd hst (by simp)

/-- `getfn` reads the name of a listed file again. -/
theorem getfn_listed {names : List Byte} {e : FileDesc} (h : e ∈ listed disk names) :
    ∃ line ∈ Lines.lines NEWLINE names, getfn names e.nameloc = lineName line ∧
      describe disk e.nameloc.toNat line = some e := by
  obtain ⟨pre, line, post, hsplit, hline⟩ := mem_describeFrom.mp h
  rw [Nat.zero_add] at hline
  have hloc := describe_nameloc hline
  refine ⟨line, by simp [hsplit], ?_, by rwa [hloc, Int.toNat_natCast]⟩
  rw [getfn, hloc, Int.toNat_natCast, Lines.first_at hsplit, lineName]

/-- No two listed files have one place. -/
theorem pairwise_nameloc {loc : Nat} {ls : List (List Byte)} (hls : ∀ line ∈ ls, line ≠ []) :
    (describeFrom disk loc ls).Pairwise (·.nameloc < ·.nameloc) := by
  induction ls generalizing loc with
  | nil => exact List.Pairwise.nil
  | cons line ls ih =>
      refine List.pairwise_append.mpr ⟨?_, ih fun l hl => hls l (List.mem_cons_of_mem line hl), ?_⟩
      · cases describe disk loc line <;> simp
      · intro a ha b hb
        obtain ⟨pre, l, post, -, hb⟩ := mem_describeFrom.mp hb
        have hpos := List.length_pos_of_ne_nil (hls line List.mem_cons_self)
        rw [describe_nameloc (Option.mem_toList.mp ha), describe_nameloc hb]
        omega

end StarterProjects.Finddup
