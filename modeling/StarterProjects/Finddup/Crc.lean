import StarterProjects.Finddup.Order
import Mathlib.Data.List.NodupEquivFin

/-!
# `scan1`

The scan for equal lengths compares every two neighbours of the sorted list. It goes on to entry
`n_files`, which is the slot behind the last file: `scan1_iff` says that it is always read, unless
a file that cannot be opened ends the program before.
-/

namespace StarterProjects.Finddup

/-- The array with the slots that are not used, and the indices that have been read. -/
structure CrcState where
  filelist : List FileDesc
  needsort : Bool := false
  reads : List Nat := []

/-- How far the scan comes: it goes on, it calls `exit`, or it is undefined, because of an access
outside the array or because `ix` overflows. -/
inductive Progress where
  | on (s : CrcState)
  | exited (reads : List Nat)
  | undefined (reads : List Nat)

def Progress.reads : Progress → List Nat
  | on s => s.reads
  | exited reads => reads
  | undefined reads => reads

def INT_MAX : Nat := 2147483647

variable (get_crc : Int → Option Nat)

/-- An entry with its checksum. A file that cannot be opened ends the program. -/
def FileDesc.withCrc (e : FileDesc) : Option FileDesc :=
  if !e.GetFlag FL_CRC then
    (get_crc e.nameloc).map fun crc => { e with crc32 := crc }.SetFlag FL_CRC
  else some e

/-- One round. -/
def scan1Round (ix : Nat) (s : CrcState) : Progress :=
  let s := { s with reads := s.reads ++ [ix - 1, ix] }
  match s.filelist[ix - 1]?, s.filelist[ix]? with
  | some e1, some e2 =>
      if e1.length = e2.length then
        match e1.withCrc get_crc, e2.withCrc get_crc with
        | some e1, some e2 =>
            .on { s with filelist := (s.filelist.set (ix - 1) e1).set ix e2, needsort := true }
        | _, _ => .exited s.reads
      else .on s
  | _, _ => .undefined s.reads

/-- The rounds from `ix` on. -/
def scan1Loop : Nat → Nat → CrcState → Progress
  | 0, _, s => .on s
  | left + 1, ix, s =>
      match scan1Round get_crc ix s with
      | .on s => if ix = INT_MAX then .undefined s.reads else scan1Loop left (ix + 1) s
      | stopped => stopped

def SORT (n_files : Nat) (filelist : List FileDesc) : List FileDesc :=
  (filelist.take n_files).mergeSort (fun a b => decide (comp1 a b ≤ 0)) ++ filelist.drop n_files

/-- `for(ix = 1; ix <= n_files; ++ix)`, which is `n_files` rounds. -/
def scan1 (n_files : Nat) (filelist : List FileDesc) : Progress :=
  match scan1Loop get_crc n_files 1 { filelist := filelist } with
  | .on s => if s.needsort then .on { s with filelist := SORT n_files s.filelist } else .on s
  | stopped => stopped

/-! ## The rounds -/

variable {get_crc} {l : List FileDesc}

/-- Entry `ix` has the length of the one before it. -/
def SameLength (l : List FileDesc) (ix : Nat) : Prop :=
  ∃ e1 e2, l[ix - 1]? = some e1 ∧ l[ix]? = some e2 ∧ e1.length = e2.length

/-- One of the first `k` rounds takes the checksum of entry `i`. -/
def Touched (l : List FileDesc) (k i : Nat) : Prop :=
  ∃ ix, 1 ≤ ix ∧ ix ≤ k ∧ (i = ix ∨ i = ix - 1) ∧ SameLength l ix

variable (get_crc) in
/-- A checksum that has to be taken and cannot be. -/
def FileDesc.Unreadable (e : FileDesc) : Prop :=
  e.GetFlag FL_CRC = false ∧ get_crc e.nameloc = none

variable (get_crc) in
/-- The round that ends the program. -/
def Stuck (l : List FileDesc) (ix : Nat) : Prop :=
  ∃ e1 e2, l[ix - 1]? = some e1 ∧ l[ix]? = some e2 ∧ e1.length = e2.length ∧
    (e1.Unreadable get_crc ∨ e2.Unreadable get_crc)

variable (get_crc) in
/-- An entry in the scan: the checksum has been taken or not. -/
structure Kept (e e' : FileDesc) (touched : Prop) : Prop where
  length : e'.length = e.length
  nameloc : e'.nameloc = e.nameloc
  flag : e'.GetFlag FL_CRC = true ↔ e.GetFlag FL_CRC = true ∨ touched
  readable : e'.GetFlag FL_CRC = true → ¬ e.Unreadable get_crc

variable (get_crc) in
/-- After the first `k` rounds. -/
structure Scanned (l : List FileDesc) (k : Nat) (s : CrcState) : Prop where
  size : s.filelist.length = l.length
  entry : ∀ i e e', l[i]? = some e → s.filelist[i]? = some e' → Kept get_crc e e' (Touched l k i)
  reads : ∀ i, i ∈ s.reads ↔ 1 ≤ k ∧ i ≤ k

theorem SetFlag_crc (e : FileDesc) : (e.SetFlag FL_CRC).GetFlag FL_CRC = true := by
  have h : ∀ f : BitVec 8, (f ||| 0x01) &&& 0x01 ≠ 0 := by decide +kernel
  exact decide_eq_true (h e.flags)

theorem withCrc_of_flag {e : FileDesc} (h : e.GetFlag FL_CRC = true) :
    e.withCrc get_crc = some e := by
  simp [FileDesc.withCrc, h]

/-- The checksum of an entry is taken, unless that ends the program. -/
theorem Kept.withCrc {e e' : FileDesc} {t : Prop} (h : Kept get_crc e e' t) :
    (e.Unreadable get_crc ∧ e'.withCrc get_crc = none) ∨
      (¬ e.Unreadable get_crc ∧
        ∃ e'', e'.withCrc get_crc = some e'' ∧ Kept get_crc e e'' True) := by
  by_cases hflag : e'.GetFlag FL_CRC = true
  · refine Or.inr ⟨h.readable hflag, e', withCrc_of_flag hflag, h.length, h.nameloc, ?_, h.readable⟩
    simp [hflag]
  · have hold : e.GetFlag FL_CRC = false := by
      rw [h.flag, not_or] at hflag
      exact Bool.eq_false_iff.mpr hflag.1
    cases hcrc : get_crc e.nameloc with
    | none =>
        refine Or.inl ⟨⟨hold, hcrc⟩, ?_⟩
        simp [FileDesc.withCrc, hflag, h.nameloc, hcrc]
    | some crc =>
        have hread : ¬ e.Unreadable get_crc := fun hu => by
          rw [hu.2] at hcrc
          exact absurd hcrc (by simp)
        refine Or.inr ⟨hread, { e' with crc32 := crc }.SetFlag FL_CRC, ?_, h.length, h.nameloc, ?_,
          fun _ => hread⟩
        · simp [FileDesc.withCrc, hflag, h.nameloc, hcrc]
        · simp [SetFlag_crc]

theorem Kept.congr {e e' : FileDesc} {t t' : Prop} (h : Kept get_crc e e' t) (ht : t ↔ t') :
    Kept get_crc e e' t' :=
  ⟨h.length, h.nameloc, by rw [h.flag, ht], h.readable⟩

theorem touched_succ (l : List FileDesc) (k i : Nat) : Touched l (k + 1) i ↔
    Touched l k i ∨ ((i = k + 1 ∨ i = k) ∧ SameLength l (k + 1)) := by
  constructor
  · rintro ⟨ix, hpos, hle, hi, hsame⟩
    rcases Nat.lt_or_ge k ix with hlast | hbefore
    · obtain rfl : ix = k + 1 := by omega
      exact Or.inr ⟨by omega, hsame⟩
    · exact Or.inl ⟨ix, hpos, hbefore, hi, hsame⟩
  · rintro (⟨ix, hpos, hle, hi, hsame⟩ | ⟨hi, hsame⟩)
    · exact ⟨ix, hpos, by omega, hi, hsame⟩
    · exact ⟨k + 1, by omega, le_rfl, by omega, hsame⟩

theorem reads_succ {reads : List Nat} {k : Nat} (h : ∀ i, i ∈ reads ↔ 1 ≤ k ∧ i ≤ k) (i : Nat) :
    i ∈ reads ++ [k + 1 - 1, k + 1] ↔ 1 ≤ k + 1 ∧ i ≤ k + 1 := by
  rw [List.mem_append, h, List.mem_pair]
  omega

variable (get_crc) in
/-- How a round ends, by the array at the start of the scan. -/
inductive RoundEnds (l : List FileDesc) (k : Nat) : Progress → Prop
  | on {s : CrcState} (hs : Scanned get_crc l (k + 1) s) (hon : ¬ Stuck get_crc l (k + 1)) :
      RoundEnds l k (.on s)
  | exited {reads : List Nat} (hreads : ∀ i, i ∈ reads ↔ i ≤ k + 1)
      (hstuck : Stuck get_crc l (k + 1)) : RoundEnds l k (.exited reads)
  | undefined {reads : List Nat} (hnone : l[k + 1]? = none) : RoundEnds l k (.undefined reads)

theorem Scanned.getElem? {k : Nat} {s : CrcState} (h : Scanned get_crc l k s) {i : Nat}
    {e : FileDesc} (hi : l[i]? = some e) :
    ∃ e', s.filelist[i]? = some e' ∧ Kept get_crc e e' (Touched l k i) := by
  have hlt : i < s.filelist.length := by
    rw [h.size]
    exact (List.getElem?_eq_some_iff.mp hi).1
  exact ⟨_, List.getElem?_eq_getElem hlt, h.entry i e _ hi (List.getElem?_eq_getElem hlt)⟩

/-- The two entries of a round get their checksums. -/
theorem Scanned.set_pair {k : Nat} {s : CrcState} (h : Scanned get_crc l k s) {a b a' b' : FileDesc}
    (ha : l[k]? = some a) (hb : l[k + 1]? = some b) (hsame : a.length = b.length)
    (hka : Kept get_crc a a' True) (hkb : Kept get_crc b b' True) (needsort : Bool) :
    Scanned get_crc l (k + 1)
      ⟨(s.filelist.set k a').set (k + 1) b', needsort, s.reads ++ [k + 1 - 1, k + 1]⟩ where
  size := by
    rw [List.length_set, List.length_set]
    exact h.size
  reads := reads_succ h.reads
  entry := by
    intro i e e' he he'
    have hpair : SameLength l (k + 1) := ⟨a, b, ha, hb, hsame⟩
    by_cases hsecond : i = k + 1
    · subst hsecond
      obtain rfl : b = e := by rwa [hb, Option.some.injEq] at he
      have hlt := (List.getElem?_eq_some_iff.mp he').1
      rw [List.getElem?_set_self (by rwa [List.length_set] at hlt), Option.some.injEq] at he'
      subst he'
      exact hkb.congr (iff_of_true trivial ((touched_succ l k _).mpr (Or.inr ⟨by omega, hpair⟩)))
    · rw [List.getElem?_set_ne (Ne.symm hsecond)] at he'
      by_cases hfirst : i = k
      · subst hfirst
        obtain rfl : a = e := by rwa [ha, Option.some.injEq] at he
        have hlt := (List.getElem?_eq_some_iff.mp he').1
        rw [List.getElem?_set_self (by rwa [List.length_set] at hlt), Option.some.injEq] at he'
        subst he'
        exact hka.congr (iff_of_true trivial ((touched_succ l _ _).mpr (Or.inr ⟨by omega, hpair⟩)))
      · rw [List.getElem?_set_ne (Ne.symm hfirst)] at he'
        refine (h.entry i e e' he he').congr ?_
        rw [touched_succ, or_iff_left]
        omega

theorem scan1Round_ends {k : Nat} {s : CrcState} (h : Scanned get_crc l k s) :
    RoundEnds get_crc l k (scan1Round get_crc (k + 1) s) := by
  have hreads := reads_succ h.reads
  cases hsecond : l[k + 1]? with
  | none =>
      have hnone : s.filelist[k + 1]? = none := by
        rw [List.getElem?_eq_none_iff, h.size]
        exact List.getElem?_eq_none_iff.mp hsecond
      simp only [scan1Round, Nat.add_sub_cancel, hnone]
      cases s.filelist[k]? <;> exact .undefined hsecond
  | some b =>
      have hk : k < l.length := by
        have hlt := (List.getElem?_eq_some_iff.mp hsecond).1
        omega
      obtain ⟨a, hfirst⟩ : ∃ a, l[k]? = some a := ⟨l[k], List.getElem?_eq_getElem hk⟩
      have hpair {a' b' : FileDesc} (ha : l[k + 1 - 1]? = some a') (hb : l[k + 1]? = some b') :
          a = a' ∧ b = b' := by
        rw [Nat.add_sub_cancel, hfirst, Option.some.injEq] at ha
        rw [hsecond, Option.some.injEq] at hb
        exact ⟨ha, hb⟩
      obtain ⟨e1, he1, hkept1⟩ := h.getElem? hfirst
      obtain ⟨e2, he2, hkept2⟩ := h.getElem? hsecond
      simp only [scan1Round, Nat.add_sub_cancel, he1, he2]
      by_cases hlen : e1.length = e2.length
      · have hsame : a.length = b.length := by rw [← hkept1.length, hlen, hkept2.length]
        rw [if_pos hlen]
        -- the program ends where one of the two files cannot be opened
        rcases hkept1.withCrc with ⟨hun, hcrc⟩ | ⟨hread1, e1', hcrc1, hkept1'⟩
        · rw [hcrc]
          exact .exited (fun i => (hreads i).trans (by omega))
            ⟨a, b, hfirst, hsecond, hsame, Or.inl hun⟩
        · rcases hkept2.withCrc with ⟨hun, hcrc⟩ | ⟨hread2, e2', hcrc2, hkept2'⟩
          · rw [hcrc1, hcrc]
            exact .exited (fun i => (hreads i).trans (by omega))
              ⟨a, b, hfirst, hsecond, hsame, Or.inr hun⟩
          · rw [hcrc1, hcrc2]
            refine .on (h.set_pair hfirst hsecond hsame hkept1' hkept2' true) ?_
            rintro ⟨a', b', ha, hb, -, hun⟩
            obtain ⟨rfl, rfl⟩ := hpair ha hb
            exact hun.elim hread1 hread2
      · rw [if_neg hlen]
        have hother : ¬ SameLength l (k + 1) := by
          rintro ⟨a', b', ha, hb, hab⟩
          obtain ⟨rfl, rfl⟩ := hpair ha hb
          exact hlen (by rw [hkept1.length, hkept2.length, hab])
        refine .on ⟨h.size, fun i x x' hx hx' => ?_, hreads⟩ ?_
        · refine (h.entry i x x' hx hx').congr ?_
          rw [touched_succ]
          exact ⟨Or.inl, fun ht => ht.elim id fun hr => absurd hr.2 hother⟩
        · rintro ⟨a', b', ha, hb, hab, -⟩
          exact hother ⟨a', b', ha, hb, hab⟩

/-! ## The scan -/

variable (get_crc) in
/-- How the rounds from `k + 1` to `n_files` end. -/
inductive LoopEnds (l : List FileDesc) (k n_files : Nat) : Progress → Prop
  | on {s : CrcState} (hs : Scanned get_crc l n_files s)
      (hon : ∀ ix, k < ix → ix ≤ n_files → ¬ Stuck get_crc l ix) : LoopEnds l k n_files (.on s)
  | exited {reads : List Nat} {ix : Nat} (hk : k < ix) (hn : ix ≤ n_files) (hmax : ix ≤ INT_MAX)
      (hreads : ∀ i, i ∈ reads ↔ i ≤ ix) (hstuck : Stuck get_crc l ix)
      (hfirst : ∀ ix', k < ix' → ix' < ix → ¬ Stuck get_crc l ix') :
      LoopEnds l k n_files (.exited reads)
  | undefined {reads : List Nat} (hwhy : l.length ≤ n_files ∨ INT_MAX ≤ n_files)
      (hnone : ∀ ix, k < ix → ix ≤ n_files → ix ≤ INT_MAX → ¬ Stuck get_crc l ix) :
      LoopEnds l k n_files (.undefined reads)

theorem not_stuck_of_none {k ix : Nat} (h : l[k]? = none) (hix : k ≤ ix) :
    ¬ Stuck get_crc l ix := by
  rintro ⟨a, b, -, hb, -⟩
  have hlt := (List.getElem?_eq_some_iff.mp hb).1
  have hle := List.getElem?_eq_none_iff.mp h
  omega

theorem scan1Loop_ends (left : Nat) {k : Nat} {s : CrcState} (h : Scanned get_crc l k s)
    (hk : k < INT_MAX) : LoopEnds get_crc l k (k + left) (scan1Loop get_crc left (k + 1) s) := by
  induction left generalizing k s with
  | zero => exact .on h fun ix hlt hle => by omega
  | succ left ih =>
      have hround := scan1Round_ends h
      rw [scan1Loop]
      cases hres : scan1Round get_crc (k + 1) s with
      | undefined reads =>
          rw [hres] at hround
          obtain - | - | hnone := hround
          have hlen := List.getElem?_eq_none_iff.mp hnone
          exact .undefined (Or.inl (by omega)) fun ix hlt hle _ => not_stuck_of_none hnone hlt
      | exited reads =>
          rw [hres] at hround
          obtain - | ⟨hreads, hstuck⟩ | - := hround
          exact .exited (Nat.lt_succ_self k) (by omega) hk hreads hstuck fun ix hlt hle => by omega
      | on s' =>
          rw [hres] at hround
          obtain ⟨hs, hon⟩ | - | - := hround
          have hfirst (ix : Nat) (hlt : k < ix) (hix : k + 1 < ix → ¬ Stuck get_crc l ix) :
              ¬ Stuck get_crc l ix := by
            rcases Nat.lt_or_ge (k + 1) ix with hlater | hnow
            · exact hix hlater
            · obtain rfl : ix = k + 1 := by omega
              exact hon
          by_cases hmax : k + 1 = INT_MAX
          · simp only [hmax, if_true]
            exact .undefined (Or.inr (by omega)) fun ix hlt _ hle =>
              hfirst ix hlt fun hlater => by omega
          · simp only [if_neg hmax]
            have hrest := ih hs (by omega)
            rw [show k + 1 + left = k + (left + 1) by omega] at hrest
            generalize scan1Loop get_crc left (k + 1 + 1) s' = out at hrest ⊢
            obtain ⟨hend, hnone⟩ | ⟨hlt, hn, hix, hreads, hstuck, hbefore⟩ | ⟨hwhy, hnone⟩ := hrest
            · exact .on hend fun ix hlt hle => hfirst ix hlt fun hlater => hnone ix hlater hle
            · exact .exited (by omega) hn hix hreads hstuck
                fun ix' hk' hlt' => hfirst ix' hk' fun hlater => hbefore ix' hlater hlt'
            · exact .undefined hwhy fun ix hlt hle hix =>
                hfirst ix hlt fun hlater => hnone ix hlater hle hix

variable (get_crc l) in
theorem scanned_start : Scanned get_crc l 0 { filelist := l } where
  size := rfl
  reads := fun i => by simp
  entry := by
    intro i e e' he he'
    obtain rfl : e = e' := Option.some.inj (he.symm.trans he')
    refine ⟨rfl, rfl, ?_, ?_⟩
    · have hnone : ¬ Touched l 0 i := by
        rintro ⟨ix, hpos, hle, -⟩
        omega
      simp [hnone]
    · rintro hflag ⟨hun, -⟩
      rw [hflag] at hun
      exact absurd hun (by simp)

/-- The flag is set for exactly the entries whose length another one has. -/
def FlagsExact (files : List FileDesc) : Prop :=
  ∀ e ∈ files, e.GetFlag FL_CRC = true ↔ List.Duplicate e.length (files.map (·.length))

/-- What the scan is to do: it reads the entries of the files only, and when it returns, the flags
are exact. -/
structure Scan1Right (n_files : Nat) (out : Progress) : Prop where
  defined : ∀ reads, out ≠ .undefined reads
  reads : ∀ i ∈ out.reads, i < n_files
  flags : ∀ s, out = .on s → FlagsExact (s.filelist.take n_files)

/-- The scan reads the slot behind the last file whenever it comes that far: it is right for no
files, and when a file that cannot be opened ends the program before. -/
theorem scan1_iff (get_crc : Int → Option Nat) (n_files : Nat) (filelist : List FileDesc) :
    Scan1Right n_files (scan1 get_crc n_files filelist) ↔
      n_files = 0 ∨ ∃ ix, 1 ≤ ix ∧ ix < n_files ∧ ix ≤ INT_MAX ∧ Stuck get_crc filelist ix := by
  have hloop := scan1Loop_ends n_files (scanned_start get_crc filelist) (by decide)
  rw [Nat.zero_add, Nat.zero_add] at hloop
  cases hres : scan1Loop get_crc n_files 1 { filelist := filelist } with
  | undefined reads =>
      have hout : scan1 get_crc n_files filelist = .undefined reads := by
        simp only [scan1, hres]
      rw [hres] at hloop
      obtain - | - | ⟨-, hnone⟩ := hloop
      rw [hout]
      refine iff_of_false (fun hright => hright.defined reads rfl) ?_
      rintro (rfl | ⟨ix, hpos, hlt, hle, hstuck⟩)
      · rw [scan1Loop] at hres
        exact absurd hres (by simp)
      · exact hnone ix hpos hlt.le hle hstuck
  | exited reads =>
      have hout : scan1 get_crc n_files filelist = .exited reads := by
        simp only [scan1, hres]
      rw [hres] at hloop
      obtain - | ⟨hlt, hn, hix, hreads, hstuck, hbefore⟩ | - := hloop
      rename_i ix
      rw [hout]
      constructor
      · intro hright
        have hread := hright.reads ix ((hreads ix).mpr le_rfl)
        exact Or.inr ⟨ix, hlt, hread, hix, hstuck⟩
      · rintro (rfl | ⟨ix', hpos, hlt', -, hstuck'⟩)
        · omega
        · have hle : ix ≤ ix' := by
            by_contra hbig
            exact hbefore ix' hpos (by omega) hstuck'
          refine ⟨fun _ h => Progress.noConfusion h, fun i hi => ?_,
            fun _ h => Progress.noConfusion h⟩
          have hi := (hreads i).mp hi
          omega
  | on s =>
      rw [hres] at hloop
      obtain ⟨hs, hnone⟩ | - | - := hloop
      obtain ⟨s', hout, hsame⟩ : ∃ s', scan1 get_crc n_files filelist = .on s' ∧
          s'.reads = s.reads := by
        simp only [scan1, hres]
        cases s.needsort with
        | true => exact ⟨_, rfl, rfl⟩
        | false => exact ⟨_, rfl, rfl⟩
      rw [hout]
      constructor
      · intro hright
        rcases Nat.eq_zero_or_pos n_files with hzero | hpos
        · exact Or.inl hzero
        · -- a loop that comes to its end has read the slot behind the last file
          have hlast : n_files ∈ s.reads := (hs.reads n_files).mpr ⟨hpos, le_rfl⟩
          have hlt := hright.reads n_files (by rwa [Progress.reads, hsame])
          exact absurd hlt (lt_irrefl n_files)
      · rintro (rfl | ⟨ix, hpos, hlt, -, hstuck⟩)
        · refine ⟨fun _ h => Progress.noConfusion h, fun i hi => ?_, fun _ _ e he => ?_⟩
          · rw [Progress.reads, hsame] at hi
            have hread := (hs.reads i).mp hi
            omega
          · rw [List.take_zero] at he
            exact absurd he List.not_mem_nil
        · exact absurd hstuck (hnone ix hpos hlt.le)

/-- One file in a fresh array: the slot behind it is read. -/
theorem scan1_reads_slot : ¬ ∀ (get_crc : Int → Option Nat) (n_files : Nat)
    (filelist : List FileDesc), n_files ≤ filelist.length →
      ((filelist.take n_files).map (·.length)).Pairwise (· ≤ ·) →
      (∀ e ∈ filelist.take n_files, e.flags = 0) →
      Scan1Right n_files (scan1 get_crc n_files filelist) := by
  intro hall
  have hright := hall (fun _ => some 0) 1 [⟨5, 0, 1, 1, 0, 0⟩, ⟨0, 0, 0, 0, 0, 0⟩]
    (by decide) (by decide) (by decide)
  exact absurd (hright.reads 1 (by decide)) (by decide)

/-! ## The flags -/

/-- In a sorted list a value that occurs twice occurs next to itself. -/
theorem duplicate_iff_neighbour {α : Type*} [PartialOrder α] {l : List α}
    (h : l.Pairwise (· ≤ ·)) {i : Nat} (hi : i < l.length) : List.Duplicate l[i] l ↔
      (1 ≤ i ∧ l[i - 1]? = some l[i]) ∨ l[i + 1]? = some l[i] := by
  have hmono {j k : Nat} (hk : k < l.length) (hjk : j ≤ k) : l[j] ≤ l[k] := by
    rcases Nat.lt_or_eq_of_le hjk with hlt | rfl
    · exact List.pairwise_iff_getElem.mp h j k (by omega) hk hlt
    · exact le_rfl
  rw [List.duplicate_iff_exists_distinct_get]
  constructor
  · rintro ⟨⟨j, hj⟩, ⟨k, hk⟩, hjk, hvj, hvk⟩
    simp only [List.get_eq_getElem] at hvj hvk
    simp only [Fin.mk_lt_mk] at hjk
    rcases Nat.lt_or_ge i k with hik | hki
    · have hle1 := hmono (j := i) (k := i + 1) (by omega) (by omega)
      have hle2 := hmono (j := i + 1) hk hik
      rw [← hvk] at hle2
      exact Or.inr (List.getElem?_eq_some_iff.mpr ⟨by omega, le_antisymm hle2 hle1⟩)
    · have hle1 := hmono (j := j) (k := i - 1) (by omega) (by omega)
      have hle2 := hmono (j := i - 1) hi (by omega)
      rw [← hvj] at hle1
      exact Or.inl ⟨by omega, List.getElem?_eq_some_iff.mpr ⟨by omega, le_antisymm hle2 hle1⟩⟩
  · rintro (⟨hpos, hbefore⟩ | hafter)
    · obtain ⟨hlt, hv⟩ := List.getElem?_eq_some_iff.mp hbefore
      exact ⟨⟨i - 1, hlt⟩, ⟨i, hi⟩, by simp only [Fin.mk_lt_mk]; omega, hv.symm, rfl⟩
    · obtain ⟨hlt, hv⟩ := List.getElem?_eq_some_iff.mp hafter
      exact ⟨⟨i, hi⟩, ⟨i + 1, hlt⟩, by simp only [Fin.mk_lt_mk]; omega, rfl, hv.symm⟩

theorem duplicate_perm {α : Type*} [DecidableEq α] {l l' : List α} (h : l.Perm l') (x : α) :
    List.Duplicate x l ↔ List.Duplicate x l' := by
  rw [List.duplicate_iff_two_le_count, List.duplicate_iff_two_le_count, h.count_eq]

/-- The flags after the rounds: an entry is flagged for the sake of a neighbour, and the last file
also for the sake of the slot. -/
theorem touched_iff {n_files i : Nat} (hi : i < n_files) : Touched l n_files i ↔
    (1 ≤ i ∧ SameLength l i) ∨ SameLength l (i + 1) := by
  constructor
  · rintro ⟨ix, hpos, hle, rfl | rfl, hsame⟩
    · exact Or.inl ⟨hpos, hsame⟩
    · exact Or.inr (by rwa [Nat.sub_add_cancel hpos])
  · rintro (⟨hpos, hsame⟩ | hsame)
    · exact ⟨i, hpos, hi.le, Or.inl rfl, hsame⟩
    · exact ⟨i + 1, by omega, hi, Or.inr rfl, hsame⟩

theorem sameLength_iff {i : Nat} {a b : FileDesc} (ha : l[i - 1]? = some a) (hb : l[i]? = some b) :
    SameLength l i ↔ a.length = b.length := by
  constructor
  · rintro ⟨a', b', ha', hb', hab⟩
    obtain rfl : a = a' := Option.some.inj (ha.symm.trans ha')
    obtain rfl : b = b' := Option.some.inj (hb.symm.trans hb')
    exact hab
  · exact fun hab => ⟨a, b, ha, hb, hab⟩

/-- The lengths of the files, in front of a slot. -/
theorem lengths_getElem? (l : List FileDesc) {n i : Nat} (hi : i < n) :
    ((l.take n).map (·.length))[i]? = (l[i]?).map (·.length) := by
  rw [List.getElem?_map, List.getElem?_take_of_lt hi]

/-- An entry is a duplicate by length when a neighbour before the slot has its length. -/
theorem duplicate_length_iff {n_files i : Nat} {e : FileDesc} (he : l[i]? = some e)
    (hi : i < n_files) (hsorted : ((l.take n_files).map (·.length)).Pairwise (· ≤ ·)) :
    List.Duplicate e.length ((l.take n_files).map (·.length)) ↔
      (1 ≤ i ∧ SameLength l i) ∨ (i + 1 < n_files ∧ SameLength l (i + 1)) := by
  have hlt : i < l.length := (List.getElem?_eq_some_iff.mp he).1
  have hbound : i < ((l.take n_files).map (·.length)).length := by
    rw [List.length_map, List.length_take]
    omega
  have hval : ((l.take n_files).map (·.length))[i] = e.length := by
    have hget := lengths_getElem? l hi
    rw [he, List.getElem?_eq_getElem hbound] at hget
    exact Option.some.inj hget
  have hiff := duplicate_iff_neighbour hsorted hbound
  rw [hval] at hiff
  rw [hiff]
  refine or_congr (and_congr_right fun hpos => ?_) ?_
  · rw [lengths_getElem? l (by omega), sameLength_iff (List.getElem?_eq_getElem (by omega)) he,
      List.getElem?_eq_getElem (by omega), Option.map_some, Option.some.injEq]
  · rcases Nat.lt_or_ge (i + 1) n_files with hnext | hend
    · rw [lengths_getElem? l hnext]
      cases hb : l[i + 1]? with
      | none =>
          refine iff_of_false (by simp) ?_
          rintro ⟨-, a, b, -, hb', -⟩
          rw [hb] at hb'
          exact absurd hb' (by simp)
      | some b =>
          rw [sameLength_iff (by rwa [Nat.add_sub_cancel]) hb, Option.map_some, Option.some.injEq]
          exact ⟨fun h => ⟨hnext, h.symm⟩, fun h => h.2.symm⟩
    · refine iff_of_false ?_ fun h => absurd h.1 (by omega)
      rw [List.getElem?_eq_none (by rw [List.length_map, List.length_take]; omega)]
      simp

end StarterProjects.Finddup
