/-!
# The scans of `finddup.c`

`scan2` and `scan3` over the array of file descriptors. An access outside the array is undefined,
and the result is then `none`. What is printed is a list of lines; a file is named by the place of
its name in the names file, which `getfn` reads into a fresh buffer.
-/

namespace StarterProjects.Finddup

def FL_CRC : BitVec 8 := 0x01

def FL_DUP : BitVec 8 := 0x02

def FL_LNK : BitVec 8 := 0x04

structure FileDesc where
  length : Int
  crc32 : Nat
  device : Nat
  inode : Nat
  nameloc : Int
  flags : BitVec 8
  deriving DecidableEq

def FileDesc.GetFlag (e : FileDesc) (f : BitVec 8) : Bool := decide ((e.flags &&& f) ≠ 0)

def FileDesc.SetFlag (e : FileDesc) (f : BitVec 8) : FileDesc := { e with flags := e.flags ||| f }

/-- `SetFlag(x, f)` on the array. -/
def SetFlag (filelist : List FileDesc) (x : Nat) (f : BitVec 8) : Option (List FileDesc) := do
  let e ← filelist[x]?
  return filelist.set x (e.SetFlag f)

/-- The lines that the scans print, by the text between the names. -/
inductive Line where
  | linkSummary
  | file (name : String)
  | link (name : String)
  | duplicates (linkflag : Bool)
  | dup (name : String)
  deriving DecidableEq

def Line.text : Line → String
  | linkSummary => "\n\nHard link summary:\n\n"
  | file name => "\nFILE: " ++ name ++ "\n"
  | link name => "LINK: " ++ name ++ "\n"
  | duplicates linkflag =>
      "\n\nList of files with duplicate contents" ++
        (if linkflag then " (includes hard links)" else "") ++ "\n"
  | dup name => "DUP:  " ++ name ++ "\n"

/-- What the scans read from outside: the names, and the comparison of two files by name. -/
structure Files where
  getfn : Int → String
  fullcmp : Int → Int → Int

variable (files : Files) (linkflag : Bool)

/-! ## `scan2`: the links -/

structure LinkState where
  filelist : List FileDesc
  need_hdr : Bool := true
  out : List Line := []

/-- The lines before the name of a link: the heading of the list, and the file it is linked to. -/
def LinkState.printLink (s : LinkState) (inmatch : Bool) (p1 p2 : FileDesc) : LinkState :=
  let s := if s.need_hdr then { s with need_hdr := false, out := s.out ++ [.linkSummary] } else s
  let s := if inmatch then s else { s with out := s.out ++ [.file (files.getfn p1.nameloc)] }
  { s with out := s.out ++ [.link (files.getfn p2.nameloc)] }

/-- The inner loop, with as many entries left as there are from `ix2` on. Returns the last
`ix2`. -/
def markLinks (ix : Nat) : Nat → Nat → Bool → LinkState → Option (Nat × LinkState)
  | 0, ix2, _, s => some (ix2, s)
  | left + 1, ix2, inmatch, s => do
      let p1 ← s.filelist[ix]?
      let p2 ← s.filelist[ix2]?
      if p1.device = p2.device ∧ p1.inode = p2.inode then
        let filelist ← SetFlag s.filelist ix2 FL_LNK
        let s := { s with filelist := filelist }
        if linkflag then
          markLinks ix left (ix2 + 1) true (s.printLink files inmatch p1 p2)
        else
          markLinks ix left (ix2 + 1) inmatch s
      else
        some (ix2, s)

/-- The outer loop, from `ix` on. -/
def linkScan (n_files : Nat) : Nat → Nat → LinkState → Option LinkState
  | 0, _, _ => none
  | fuel + 1, ix, s =>
      if ix < n_files then do
        let (ix2, s) ← markLinks files linkflag ix (n_files - (ix + 1)) (ix + 1) false s
        linkScan n_files fuel ix2 s
      else some s

/-! ## `scan2`: the duplicates -/

/-- `for(n1 = ...; n1 > lastix; --n1) filelist[n1] = filelist[n1-1]`, so many times. -/
def shiftUp : Nat → Nat → List FileDesc → Option (List FileDesc)
  | 0, _, filelist => some filelist
  | count + 1, n1, filelist => do
      let e ← filelist[n1 - 1]?
      shiftUp count (n1 - 1) (filelist.set n1 e)

/-- Entry `ix2` is taken out, those from `lastix` on are shifted, and it is put at `lastix`. -/
def moveTo (lastix ix2 : Nat) (filelist : List FileDesc) : Option (List FileDesc) := do
  let wkdesc ← filelist[ix2]?
  let filelist ← shiftUp (ix2 - lastix) ix2 filelist
  return filelist.set lastix wkdesc

/-- The inner loop. Returns the last `lastix`. -/
def markDups (ix : Nat) : Nat → Nat → Nat → Bool → List FileDesc → Option (Nat × List FileDesc)
  | 0, _, lastix, _, filelist => some (lastix, filelist)
  | left + 1, ix2, lastix, lnkmatch, filelist => do
      let p1 ← filelist[ix]?
      let p2 ← filelist[ix2]?
      if p1.length = p2.length ∧ p1.crc32 = p2.crc32 then
        if (p2.GetFlag FL_LNK && lnkmatch) || files.fullcmp p1.nameloc p2.nameloc == 0 then
          let filelist ← SetFlag filelist ix2 FL_DUP
          if lastix ≠ ix2 then
            let filelist ← moveTo lastix ix2 filelist
            markDups ix left (ix2 + 1) (lastix + 1) true filelist
          else
            markDups ix left (ix2 + 1) lastix true filelist
        else
          markDups ix left (ix2 + 1) lastix false filelist
      else
        some (lastix, filelist)

/-- The outer loop, from `ix` on. -/
def dupScan (n_files : Nat) : Nat → Nat → List FileDesc → Option (List FileDesc)
  | 0, _, _ => none
  | fuel + 1, ix, filelist =>
      if ix < n_files then do
        let (lastix, filelist) ←
          markDups files ix (n_files - (ix + 1)) (ix + 1) (ix + 1) true filelist
        dupScan n_files fuel lastix filelist
      else some filelist

/-- Both loops go forward by an entry at least, so `n_files + 1` rounds are enough. Returns the
array and the lines printed. -/
def scan2 (filelist : List FileDesc) : Option (List FileDesc × List Line) := do
  let n_files := filelist.length
  let s ← linkScan files linkflag n_files (n_files + 1) 0 { filelist := filelist }
  let filelist ← dupScan files n_files (n_files + 1) 0 s.filelist
  return (filelist, s.out)

/-! ## `scan3` -/

structure ReportState where
  need_hdr : Bool := true
  headfn : Option String := none
  inmatch : Bool := true
  out : List Line := []

/-- The lines for a duplicate: the heading, the first file of its group, and its own name. -/
def ReportState.printDup (s : ReportState) (name : String) : ReportState :=
  let s := if s.need_hdr then
      { s with need_hdr := false, out := s.out ++ [.duplicates linkflag] } else s
  let s := match s.headfn with
    | some headfn => { s with headfn := none, out := s.out ++ [Line.file headfn] }
    | none => s
  { s with out := s.out ++ [Line.dup name] }

/-- One entry. -/
def reportEntry (filelist : List FileDesc) (ix : Nat) (s : ReportState) : Option ReportState := do
  let e ← filelist[ix]?
  let s := if e.flags = FL_CRC then { s with inmatch := false } else s
  if e.GetFlag FL_DUP then
    let headfn ←
      if s.inmatch then some s.headfn
      else if ix = 0 then none
      else (filelist[ix - 1]?).map fun e => some (files.getfn e.nameloc)
    let s := { s with headfn := headfn, inmatch := true }
    if linkflag || !e.GetFlag FL_LNK then return s.printDup linkflag (files.getfn e.nameloc)
    else return s
  else return s

def reportLoop (filelist : List FileDesc) : Nat → Nat → ReportState → Option ReportState
  | 0, _, s => some s
  | left + 1, ix, s => do
      let s ← reportEntry files linkflag filelist ix s
      reportLoop filelist left (ix + 1) s

/-- The lines printed. -/
def scan3 (filelist : List FileDesc) : Option (List Line) := do
  let s ← reportLoop files linkflag filelist filelist.length 0 {}
  return s.out

end StarterProjects.Finddup
