import StarterProjects.Finddup.Listing
import StarterProjects.Finddup.Main
import StarterProjects.Finddup.Sums

/-!
# `finddup_main` on a list of files

* The scans compare only files of one size and checksum (`dupScan_congr`), which have been opened
  before (`fullcmp_opens`).
* Where the comparator and `fullcmp` can tell the files apart, the program prints every class of
  equal files once, and every link (`finddup_main_lists`).
-/

namespace StarterProjects.Finddup

open Lib

/-! ## The comparisons that are made -/

/-- Two ways to compare are the same for any two files of the list that have one size and
checksum. -/
def Agree (files files' : Files) (l : List FileDesc) : Prop :=
  l.Pairwise fun a b => a.sizeCrc = b.sizeCrc →
    files.fullcmp a.nameloc b.nameloc = files'.fullcmp a.nameloc b.nameloc ∧
      files.fullcmp b.nameloc a.nameloc = files'.fullcmp b.nameloc a.nameloc

/-- Where a name is, and what is compared before the contents. -/
def FileDesc.placed (e : FileDesc) : Int × (Int × Nat) := (e.nameloc, e.sizeCrc)

variable {files files' : Files}

theorem Agree.perm {l l' : List FileDesc} (h : Agree files files' l)
    (hl : (l'.map FileDesc.placed).Perm (l.map FileDesc.placed)) : Agree files files' l' := by
  have hiff (l : List FileDesc) : Agree files files' l ↔
      (l.map FileDesc.placed).Pairwise fun a b => a.2 = b.2 →
        files.fullcmp a.1 b.1 = files'.fullcmp a.1 b.1 ∧
          files.fullcmp b.1 a.1 = files'.fullcmp b.1 a.1 := by
    rw [List.pairwise_map]
    rfl
  rw [hiff] at h ⊢
  exact (hl.pairwise_iff fun {a b} hab heq => (hab heq.symm).symm).mpr h

/-- Moving an entry forward is a permutation. -/
theorem moveTo_perm {l l' : List FileDesc} {lastix ix2 : Nat} (hle : lastix ≤ ix2)
    (h : moveTo lastix ix2 l = some l') : l'.Perm l := by
  obtain ⟨x, hx⟩ : ∃ x, l[ix2]? = some x := by
    cases hx : l[ix2]? with
    | none => simp [moveTo, hx] at h
    | some x => exact ⟨x, rfl⟩
  have hlt : ix2 < l.length := (List.getElem?_eq_some_iff.mp hx).1
  have hsplit : l = l.take lastix ++ ((l.take ix2).drop lastix ++ x :: l.drop (ix2 + 1)) := by
    have hfront := List.take_append_drop lastix (l.take ix2)
    rw [List.take_take, Nat.min_eq_left hle] at hfront
    obtain ⟨hlt, rfl⟩ := List.getElem?_eq_some_iff.mp hx
    rw [← List.append_assoc, hfront, ← List.drop_eq_getElem_cons hlt, List.take_append_drop]
  have hlast : (l.take lastix).length = lastix := by
    rw [List.length_take]
    omega
  have hmid : lastix + ((l.take ix2).drop lastix).length = ix2 := by
    rw [List.length_drop, List.length_take]
    omega
  have heq := moveTo_eq (l.take lastix) ((l.take ix2).drop lastix) x (l.drop (ix2 + 1))
  rw [hlast, hmid, ← hsplit, h] at heq
  rw [Option.some.inj heq]
  conv_rhs => rw [hsplit]
  exact List.Perm.append_left _ List.perm_middle.symm

theorem SetFlag_placed {l l' : List FileDesc} {x : Nat} {f : BitVec 8}
    (h : SetFlag l x f = some l') : l'.map FileDesc.placed = l.map FileDesc.placed := by
  obtain ⟨e, he, hset⟩ := Option.bind_eq_some_iff.mp h
  obtain rfl := Option.some.inj hset
  obtain ⟨hlt, rfl⟩ := List.getElem?_eq_some_iff.mp he
  refine List.ext_getElem? fun i => ?_
  rw [List.getElem?_map, List.getElem?_map, List.getElem?_set]
  by_cases hi : x = i
  · subst hi
    rw [if_pos rfl, if_pos hlt, List.getElem?_eq_getElem hlt]
    rfl
  · rw [if_neg hi]

/-- One run of the inner loop, which compares entry `ix` with those from `ix2` on. -/
theorem markDups_congr {ix : Nat} (left : Nat) {ix2 lastix : Nat} {lnkmatch : Bool}
    {l : List FileDesc} (h : Agree files files' l) (hix : ix < ix2) (hlast : lastix ≤ ix2) :
    markDups files ix left ix2 lastix lnkmatch l = markDups files' ix left ix2 lastix lnkmatch l ∧
      ∀ r, markDups files ix left ix2 lastix lnkmatch l = some r →
        (r.2.map FileDesc.placed).Perm (l.map FileDesc.placed) := by
  induction left generalizing ix2 lastix lnkmatch l with
  | zero =>
      refine ⟨rfl, fun r hr => ?_⟩
      obtain rfl := Option.some.inj hr
      exact List.Perm.refl _
  | succ left ih =>
      rw [markDups, markDups]
      cases hp1 : l[ix]? with
      | none => exact ⟨rfl, fun r hr => absurd hr (by simp)⟩
      | some p1 =>
      cases hp2 : l[ix2]? with
      | none => exact ⟨rfl, fun r hr => absurd hr (by simp)⟩
      | some p2 =>
      simp only [Option.bind_eq_bind, Option.bind_some]
      by_cases hkey : p1.length = p2.length ∧ p1.crc32 = p2.crc32
      · -- only files of one size and checksum are compared
        have hcmp : files.fullcmp p1.nameloc p2.nameloc =
            files'.fullcmp p1.nameloc p2.nameloc := by
          obtain ⟨hlt1, rfl⟩ := List.getElem?_eq_some_iff.mp hp1
          obtain ⟨hlt2, rfl⟩ := List.getElem?_eq_some_iff.mp hp2
          exact (List.pairwise_iff_getElem.mp h ix ix2 hlt1 hlt2 hix (Prod.ext hkey.1 hkey.2)).1
        rw [if_pos hkey, if_pos hkey, hcmp]
        split
        · cases hset : SetFlag l ix2 FL_DUP with
          | none => exact ⟨rfl, fun r hr => absurd hr (by simp)⟩
          | some l₁ =>
              have hl₁ := SetFlag_placed hset
              simp only [Option.bind_some]
              split
              · cases hmove : moveTo lastix ix2 l₁ with
                | none => exact ⟨rfl, fun r hr => absurd hr (by simp)⟩
                | some l₂ =>
                    have hl₂ := (moveTo_perm hlast hmove).map FileDesc.placed
                    rw [hl₁] at hl₂
                    obtain ⟨heq, hperm⟩ := @ih (ix2 + 1) (lastix + 1) true l₂ (h.perm hl₂)
                      (Nat.lt_succ_of_lt hix) (Nat.succ_le_succ hlast)
                    exact ⟨heq, fun r hr => (hperm r hr).trans hl₂⟩
              · obtain ⟨heq, hperm⟩ := @ih (ix2 + 1) lastix true l₁ (h.perm (by rw [hl₁]))
                  (Nat.lt_succ_of_lt hix) (Nat.le_succ_of_le hlast)
                exact ⟨heq, fun r hr => hl₁ ▸ hperm r hr⟩
        · exact ih h (Nat.lt_succ_of_lt hix) (Nat.le_succ_of_le hlast)
      · rw [if_neg hkey, if_neg hkey]
        refine ⟨rfl, fun r hr => ?_⟩
        obtain rfl := Option.some.inj hr
        exact List.Perm.refl _

/-- The loop compares only files of one size and checksum. -/
theorem dupScan_congr (n_files fuel : Nat) {ix : Nat} {l : List FileDesc}
    (h : Agree files files' l) :
    dupScan files n_files fuel ix l = dupScan files' n_files fuel ix l := by
  induction fuel generalizing ix l with
  | zero => rfl
  | succ fuel ih =>
      rw [dupScan, dupScan]
      split
      · obtain ⟨heq, hperm⟩ := @markDups_congr files files' ix
          (n_files - (ix + 1)) (ix + 1) (ix + 1)
          true l h (Nat.lt_succ_self ix) le_rfl
        rw [← heq]
        cases hmark : markDups files ix (n_files - (ix + 1)) (ix + 1) (ix + 1) true l with
        | none => rfl
        | some r =>
            simp only [Option.bind_eq_bind, Option.bind_some]
            exact ih (h.perm (hperm r hmark))
      · rfl

/-! ## The scans -/

variable {γ : Type*} [DecidableEq γ] {content : Int → γ} {filelist : List FileDesc}

/-- Where the comparisons tell contents apart as `files'` does, the scans print the links by inode
and the duplicates by content. -/
theorem scans_out (h : Scannable content files' filelist) (hagree : Agree files files' filelist)
    (linkflag : Bool) :
    ∃ r, scan2 files linkflag filelist =
        some (r, headed .linkSummary true (linkReport files linkflag filelist)) ∧
      (r.map FileDesc.clearDup).Perm (linkedAfter [] filelist) ∧
      Contiguous (fun e => content e.nameloc) r ∧
      scan3 files linkflag r =
        some (headed (.duplicates linkflag) true (dupListing files linkflag content r)) := by
  have hlinks : ∀ e ∈ filelist, e.GetFlag FL_LNK = false := by
    intro e he
    rcases h.flags e he with hflags | hflags <;> simp [FileDesc.GetFlag, hflags, FL_LNK, FL_CRC]
  have hscan := @linkScan_out files linkflag filelist.length [] [] filelist (filelist.length + 1)
    { filelist := filelist } le_rfl (Nat.lt_succ_self _) h.contiguous
    (fun e he => absurd he List.not_mem_nil) rfl
  have hlink : LinkOk content none (linkedAfter [] filelist) :=
    linkedAfter_linkOk [] h.contiguous hlinks h.linked
  have hplaced : (linkedAfter [] filelist).map FileDesc.placed = filelist.map FileDesc.placed :=
    linkedAfter_map (fun _ => rfl) [] filelist
  have hlen : (linkedAfter [] filelist).length = filelist.length := by
    have hmap := congrArg List.length hplaced
    rwa [List.length_map, List.length_map] at hmap
  have hmarked : Agree files files' (linkedAfter [] filelist) := hagree.perm (by rw [hplaced])
  obtain ⟨r, hdups, hr, hperm⟩ := dupScan_eq filelist.length [] (filelist.length + 1)
    hlen.le (by omega) h.comparable.linkedAfter hlink (h.unmarked [])
  obtain ⟨s', hreport, hout⟩ := @reportLoop_out files linkflag γ _ content r hr [] {}
  refine ⟨r, ?_, hperm, hr.contiguous, ?_⟩
  · simp only [List.length_nil, Nat.zero_add, List.nil_append] at hscan hdups
    rw [hlen, ← dupScan_congr _ _ hmarked] at hdups
    simp only [scan2, hscan, hdups, Option.bind_eq_bind, Option.bind_some]
    rfl
  · simp only [List.nil_append, List.length_nil] at hreport hout
    simp only [scan3, hreport, Option.bind_eq_bind, Option.bind_some, hout]
    rfl

/-! ## The order -/

/-- The differences that the comparator takes are `int`s. -/
structure Narrow (a b : FileDesc) : Prop where
  length : |a.length - b.length| < 2147483648
  crc32 : a.length = b.length → |(a.crc32 : Int) - b.crc32| < 2147483648
  device : |(a.device : Int) - b.device| < 2147483648
  inode : |(a.inode : Int) - b.inode| < 2147483648

theorem Narrow.signKept {a b : FileDesc} (h : Narrow a b) : SignKept (differences a b) := by
  have hsmall : ∀ d, (differences a b).find? (fun d => d ≠ 0) = some d → |d| < 2147483648 := by
    intro d hd
    have hmem := List.mem_of_find?_eq_some hd
    simp only [differences, List.mem_cons, List.not_mem_nil, or_false] at hmem
    by_cases hlen : a.length = b.length
    · rcases hmem with rfl | rfl | rfl | rfl
      · exact h.length
      · exact h.crc32 hlen
      · exact h.device
      · exact h.inode
    · have hfirst : a.length - b.length ≠ 0 := sub_ne_zero.mpr hlen
      rw [differences, List.find?_cons_of_pos (by simpa using hfirst)] at hd
      obtain rfl := Option.some.inj hd
      exact h.length
  intro d hd
  have hlow := abs_lt.mp (hsmall d hd)
  have hne : d ≠ 0 := by simpa using List.find?_some hd
  obtain ⟨-, before, after, hsplit, hbefore⟩ := List.find?_eq_some_iff_append.mp hd
  refine ⟨d, List.find?_eq_some_iff_append.mpr ⟨?_, before, after, hsplit, fun x hx => ?_⟩, ?_⟩
  · simp only [ne_eq, decide_eq_true_eq]
    omega
  · have hzero : x = 0 := by simpa using hbefore x hx
    simp [hzero]
  · omega

theorem follows_of_narrow {l : List FileDesc} (h : ∀ a ∈ l, ∀ b ∈ l, Narrow a b) :
    Follows comp1 FileDesc.key l :=
  (follows_iff l).mpr fun a ha b hb => (h a ha b hb).signKept

/-! ## What the program relies on -/

variable (disk : Disk) (names : List Byte)

/-- The contents of the file whose name is there. -/
def contentOf (loc : Int) : Option ReadFile := disk.fopen (getfn names loc)

/-- Text in ASCII is always told apart. -/
theorem highByteTells_of_ascii {fp1 fp2 : ReadFile} (h : ∀ c ∈ fp1, c.toNat < 128) :
    HighByteTells fp1 fp2 := by
  intro pre c rest1 rest2 h1 _ _ hc
  have hlow := h c (by simp [h1])
  omega

/-- The files of the list can be read and have the size that `lstat` tells, links have one content,
and no number is too large for the comparators; no line of the names file begins with a NUL, and
the names fit where `fullcmp` copies them. -/
structure Orderly : Prop where
  named : ∀ line ∈ Lines.lines NEWLINE names, chop line ≠ none
  roomy : ∀ a ∈ listed disk names, ∀ b ∈ listed disk names,
    (getfn names a.nameloc).length < disk.room a.nameloc b.nameloc ∧
      (getfn names b.nameloc).length < disk.room a.nameloc b.nameloc
  readable : ∀ e ∈ listed disk names,
    ∃ fp, contentOf disk names e.nameloc = some fp ∧ (fp.length : Int) = e.length
  linked : ∀ a ∈ listed disk names, ∀ b ∈ listed disk names, a.inodeOf = b.inodeOf →
    contentOf disk names a.nameloc = contentOf disk names b.nameloc
  narrow : ∀ e ∈ listed disk names,
    e.length < 2147483648 ∧ e.device < 2147483648 ∧ e.inode < 2147483648
  sums : ∀ a ∈ listed disk names, ∀ b ∈ listed disk names, ∀ fa fb,
    contentOf disk names a.nameloc = some fa → contentOf disk names b.nameloc = some fb →
      fa.length = fb.length → (get_crc fa).toNat < (get_crc fb).toNat + 2147483648
  tells : (listed disk names).Pairwise fun a b => ∀ fa fb,
    contentOf disk names a.nameloc = some fa → contentOf disk names b.nameloc = some fb →
      fa.length = fb.length → get_crc fa = get_crc fb → HighByteTells fa fb ∧ HighByteTells fb fa
  few : (listed disk names).length < INT_MAX

variable {disk} {names}

theorem listed_fresh {e : FileDesc} (h : e ∈ listed disk names) : e.crc32 = 0 ∧ e.flags = 0 := by
  obtain ⟨line, -, -, hline⟩ := getfn_listed h
  obtain ⟨st, -, hst⟩ := Option.bind_eq_some_iff.mp hline
  split at hst
  · have hdesc := Option.some.inj hst
    exact ⟨(congrArg FileDesc.crc32 hdesc).symm, (congrArg FileDesc.flags hdesc).symm⟩
  · exact absurd hst (by simp)

theorem listed_length {e : FileDesc} (h : e ∈ listed disk names) : e.length ≠ 0 := by
  obtain ⟨line, -, -, hline⟩ := getfn_listed h
  obtain ⟨st, -, hst⟩ := Option.bind_eq_some_iff.mp hline
  split at hst
  · rename_i hsize
    rw [← congrArg FileDesc.length (Option.some.inj hst)]
    exact hsize.2
  · exact absurd hst (by simp)

variable (disk) (names) in
/-- The descriptors after `scan1`. -/
noncomputable def FileDesc.finished (e : FileDesc) : FileDesc :=
  summedIn (crcAt disk names) (listed disk names) e

theorem listed_withCrc {e : FileDesc} (he : e ∈ listed disk names)
    {fp : ReadFile} (hfp : contentOf disk names e.nameloc = some fp) :
    e.withCrc (crcAt disk names) =
      some { e with crc32 := (get_crc fp).toNat, flags := FL_CRC } := by
  have hflags := (listed_fresh he).2
  have hnew : e.GetFlag FL_CRC = false := by simp [FileDesc.GetFlag, hflags]
  have hcrc : crcAt disk names e.nameloc = some (get_crc fp).toNat := by
    rw [crcAt, show disk.fopen (getfn names e.nameloc) = some fp from hfp, Option.map_some]
  simp [FileDesc.withCrc, hnew, hcrc, FileDesc.SetFlag, hflags]

/-- The checksum of a listed file is taken if another one has its length. -/
theorem Orderly.finished_cases (h : Orderly disk names) {e : FileDesc}
    (he : e ∈ listed disk names) :
    ∃ fp, contentOf disk names e.nameloc = some fp ∧ (fp.length : Int) = e.length ∧
      (List.Duplicate e.length ((listed disk names).map (·.length)) ∧ e.finished disk names =
          { e with crc32 := (get_crc fp).toNat, flags := FL_CRC } ∨
        ¬ List.Duplicate e.length ((listed disk names).map (·.length)) ∧
          e.finished disk names = e) := by
  obtain ⟨fp, hfp, hlen⟩ := h.readable e he
  refine ⟨fp, hfp, hlen, ?_⟩
  by_cases hdup : List.Duplicate e.length ((listed disk names).map (·.length))
  · refine Or.inl ⟨hdup, ?_⟩
    rw [FileDesc.finished, summedIn, if_pos hdup, FileDesc.summed, listed_withCrc he hfp,
      Option.getD_some]
  · exact Or.inr ⟨hdup, if_neg hdup⟩

/-- Two entries after `scan1`. -/
theorem Orderly.narrow_finished (h : Orderly disk names) {a b : FileDesc}
    (ha : a ∈ listed disk names) (hb : b ∈ listed disk names) :
    Narrow a b ∧ Narrow (a.finished disk names) (b.finished disk names) := by
  obtain ⟨fa, hfa, hlena, hcasea⟩ := h.finished_cases ha
  obtain ⟨fb, hfb, hlenb, hcaseb⟩ := h.finished_cases hb
  obtain ⟨hsizea, hdeva, hinoa⟩ := h.narrow a ha
  obtain ⟨hsizeb, hdevb, hinob⟩ := h.narrow b hb
  have hlength : |a.length - b.length| < 2147483648 := abs_lt.mpr ⟨by omega, by omega⟩
  have hdevice : |(a.device : Int) - b.device| < 2147483648 := abs_lt.mpr ⟨by omega, by omega⟩
  have hinode : |(a.inode : Int) - b.inode| < 2147483648 := abs_lt.mpr ⟨by omega, by omega⟩
  have hzero : |(a.crc32 : Int) - b.crc32| < 2147483648 := by
    rw [(listed_fresh ha).1, (listed_fresh hb).1]
    decide
  refine ⟨⟨hlength, fun _ => hzero, hdevice, hinode⟩, ?_⟩
  have hsums (hlen : a.length = b.length) :
      |((get_crc fa).toNat : Int) - (get_crc fb).toNat| < 2147483648 := by
    have hsame : fa.length = fb.length := by omega
    have hab := h.sums a ha b hb fa fb hfa hfb hsame
    have hba := h.sums b hb a ha fb fa hfb hfa hsame.symm
    exact abs_lt.mpr ⟨by omega, by omega⟩
  rcases hcasea with ⟨hdupa, heqa⟩ | ⟨hdupa, heqa⟩ <;>
    rcases hcaseb with ⟨hdupb, heqb⟩ | ⟨hdupb, heqb⟩ <;> rw [heqa, heqb]
  · exact ⟨hlength, hsums, hdevice, hinode⟩
  · exact ⟨hlength, fun hlen => absurd (hlen ▸ hdupa) hdupb, hdevice, hinode⟩
  · exact ⟨hlength, fun hlen => absurd (hlen ▸ hdupb) hdupa, hdevice, hinode⟩
  · exact ⟨hlength, fun _ => hzero, hdevice, hinode⟩

theorem Orderly.follows_finished (h : Orderly disk names) : Follows comp1 FileDesc.key
    ((listed disk names).map (FileDesc.finished disk names)) := by
  refine follows_of_narrow fun a ha b hb => ?_
  obtain ⟨a, hmema, rfl⟩ := List.mem_map.mp ha
  obtain ⟨b, hmemb, rfl⟩ := List.mem_map.mp hb
  exact (h.narrow_finished hmema hmemb).2

theorem summedIn_perm {get_crc : Int → Option Nat} {l l' : List FileDesc} (h : l.Perm l') :
    summedIn get_crc l = summedIn get_crc l' := by
  funext e
  simp only [summedIn, duplicate_perm (h.map (·.length))]

theorem key_length {a b : FileDesc} (h : a.key ≤ b.key) : a.length ≤ b.length :=
  Prod.Lex.monotone_fst _ _ (Prod.Lex.monotone_fst _ _ h)

/-- The array after `scan1`: the files with their checksums, in order. -/
theorem Orderly.scan1_eq (h : Orderly disk names) {junk : Nat → FileDesc} {s : BuildState}
    (hs : Built junk (listed disk names) s) {slot : FileDesc}
    (hslot : s.filelist[s.n_files]? = some slot)
    (hown : ∀ e ∈ listed disk names, e.length ≠ slot.length) :
    ∃ c, scan1 (crcAt disk names) s.n_files (SORT s.n_files s.filelist) = .on c ∧
      (c.filelist.take s.n_files).Perm ((listed disk names).map (FileDesc.finished disk names)) ∧
      (c.filelist.take s.n_files).Pairwise fun a b => comp1 a b ≤ 0 := by
  obtain ⟨hn, m, harray, -⟩ := hs
  generalize (List.range' (listed disk names).length m).map _ = slots at harray
  have hfollows := follows_of_narrow fun a ha b hb => (h.narrow_finished ha hb).1
  have hperm := List.mergeSort_perm (listed disk names) fun a b => decide (comp1 a b ≤ 0)
  have hsorted := hfollows.pairwise_mergeSort
  have hmerged : SORT s.n_files s.filelist =
      (listed disk names).mergeSort (fun a b => decide (comp1 a b ≤ 0)) ++ slots := by
    rw [SORT, hn, harray, List.take_left, List.drop_left]
  have hslot' : slots[0]? = some slot := by
    rw [harray, hn, List.getElem?_append_right le_rfl, Nat.sub_self] at hslot
    exact hslot
  rw [hmerged, hn]
  generalize (listed disk names).mergeSort (fun a b => decide (comp1 a b ≤ 0)) = xs
    at hperm hsorted
  have hlengths : (xs.map (·.length)).Pairwise (· ≤ ·) :=
    List.pairwise_map.mpr ((hfollows.pairwise hperm.subset hsorted).imp key_length)
  obtain ⟨c, hscan, hfiles⟩ := scan1_sums hslot' (fun e he => hown e (hperm.subset he))
    (by rw [hperm.length_eq]; exact h.few) hlengths fun e he => by
      obtain ⟨fp, hfp, -⟩ := h.readable e (hperm.subset he)
      rw [listed_withCrc (hperm.subset he) hfp]
      exact Option.some_ne_none _
  have hsums : summedIn (crcAt disk names) xs = FileDesc.finished disk names :=
    summedIn_perm hperm
  rw [hperm.length_eq] at hscan hfiles
  rw [hsums] at hfiles
  refine ⟨c, hscan, ?_⟩
  rcases hfiles with hagain | ⟨honce, hnodup⟩
  · rw [hagain]
    have hresort := List.mergeSort_perm (xs.map (FileDesc.finished disk names))
      fun a b => decide (comp1 a b ≤ 0)
    have hall : Follows comp1 FileDesc.key (xs.map (FileDesc.finished disk names)) :=
      fun a ha b hb => h.follows_finished a ((hperm.map _).subset ha) b ((hperm.map _).subset hb)
    exact ⟨hresort.trans (hperm.map _), hall.pairwise_mergeSort⟩
  · have hsame : xs.map (FileDesc.finished disk names) = xs := by
      refine (List.map_congr_left fun e he => ?_).trans (List.map_id xs)
      rw [← hsums, summedIn, if_neg (hnodup e he), id]
    rw [honce]
    refine ⟨hperm.map _, ?_⟩
    rwa [hsame]

variable (disk) (names) in
/-- A comparison that tells the contents apart. -/
def telling : Files where
  getfn := getfn names
  fullcmp v1 v2 := if contentOf disk names v1 = contentOf disk names v2 then 0 else 1

/-- Two files at different places of the list that have one length. -/
theorem pairwise_duplicate (l : List FileDesc) : l.Pairwise fun a b =>
    a.length = b.length → List.Duplicate a.length (l.map (·.length)) := by
  refine List.pairwise_iff_forall_sublist.mpr fun {a b} hsub hlen => ?_
  have hboth := hsub.map (·.length)
  rw [List.map_cons, List.map_cons, List.map_nil, ← hlen] at hboth
  exact List.duplicate_iff_sublist.mpr hboth

theorem Orderly.finished_nameloc (h : Orderly disk names) {e : FileDesc}
    (he : e ∈ listed disk names) : (e.finished disk names).nameloc = e.nameloc ∧
      (e.finished disk names).inodeOf = e.inodeOf := by
  obtain ⟨_, -, -, ⟨-, heq⟩ | ⟨-, heq⟩⟩ := h.finished_cases he <;> rw [heq] <;> exact ⟨rfl, rfl⟩

/-- What `fullcmp` says about two files that it can tell apart. -/
theorem filesOf_fullcmp {v1 v2 : Int} {fa fb : ReadFile} (ha : contentOf disk names v1 = some fa)
    (hb : contentOf disk names v2 = some fb) (hlen : fa.length = fb.length)
    (htells : HighByteTells fa fb)
    (hroom : (getfn names v1).length < disk.room v1 v2 ∧
      (getfn names v2).length < disk.room v1 v2) :
    (filesOf disk names).fullcmp v1 v2 = (telling disk names).fullcmp v1 v2 := by
  have hloop := (fullcmpLoop_iff hlen).mpr htells
  have ha' : disk.fopen (getfn names v1) = some fa := ha
  have hb' : disk.fopen (getfn names v2) = some fb := hb
  simp only [filesOf, telling, fullcmp, strcpy, if_pos hroom.1, if_pos hroom.2, ha, hb, ha', hb',
    Option.bind_eq_bind, Option.bind_some, Option.some.injEq, hloop]
  rfl

theorem Orderly.agree (h : Orderly disk names) : Agree (filesOf disk names) (telling disk names)
    ((listed disk names).map (FileDesc.finished disk names)) := by
  refine List.pairwise_map.mpr ?_
  refine ((pairwise_duplicate (listed disk names)).and h.tells).imp_of_mem ?_
  rintro a b ha hb ⟨hdup, htells⟩ hkey
  obtain ⟨fa, hfa, hlena, hcasea⟩ := h.finished_cases ha
  obtain ⟨fb, hfb, hlenb, hcaseb⟩ := h.finished_cases hb
  rw [(h.finished_nameloc ha).1, (h.finished_nameloc hb).1]
  have hlength : a.length = b.length := by
    have hfirst := congrArg Prod.fst hkey
    obtain ⟨-, heqa⟩ | ⟨-, heqa⟩ := hcasea <;> obtain ⟨-, heqb⟩ | ⟨-, heqb⟩ := hcaseb <;>
      rw [heqa, heqb] at hfirst <;> exact hfirst
  have hlen : fa.length = fb.length := by omega
  have hcrc : get_crc fa = get_crc fb := by
    have hsecond := congrArg Prod.snd hkey
    obtain ⟨-, heqa⟩ | ⟨hnot, -⟩ := hcasea
    · obtain ⟨-, heqb⟩ | ⟨hnot, -⟩ := hcaseb
      · rw [heqa, heqb] at hsecond
        exact BitVec.eq_of_toNat_eq hsecond
      · exact absurd (hlength ▸ hdup hlength) hnot
    · exact absurd (hdup hlength) hnot
  obtain ⟨hab, hba⟩ := htells fa fb hfa hfb hlen hcrc
  exact ⟨filesOf_fullcmp hfa hfb hlen hab (h.roomy a ha b hb),
    filesOf_fullcmp hfb hfa hlen.symm hba (h.roomy b hb a ha)⟩

/-- The scans can work on what `scan1` leaves. -/
theorem Orderly.scannable (h : Orderly disk names) {l : List FileDesc}
    (hperm : l.Perm ((listed disk names).map (FileDesc.finished disk names)))
    (hsorted : l.Pairwise fun a b => comp1 a b ≤ 0) :
    Scannable (contentOf disk names) (telling disk names) l := by
  obtain ⟨hkeys, hinodes⟩ := (Orders.of_follows h.follows_finished).grouped l hperm hsorted
  have hmem : ∀ e ∈ l, ∃ e₀ ∈ listed disk names, e₀.finished disk names = e := fun e he =>
    List.mem_map.mp (hperm.subset he)
  refine ⟨⟨hkeys, fun a _ b _ => ?_, fun a ha b hb hcontent => ?_⟩, hinodes,
    fun a ha b hb hinode => ?_, fun e he => ?_, ?_⟩
  · by_cases hsame : contentOf disk names a.nameloc = contentOf disk names b.nameloc <;>
      simp [telling, hsame]
  · obtain ⟨a, hmema, rfl⟩ := hmem a ha
    obtain ⟨b, hmemb, rfl⟩ := hmem b hb
    rw [(h.finished_nameloc hmema).1, (h.finished_nameloc hmemb).1] at hcontent
    obtain ⟨fa, hfa, hlena, hcasea⟩ := h.finished_cases hmema
    obtain ⟨fb, hfb, hlenb, hcaseb⟩ := h.finished_cases hmemb
    obtain rfl : fa = fb := by
      rw [hfa, hfb] at hcontent
      exact Option.some.inj hcontent
    have hlength : a.length = b.length := by omega
    obtain ⟨hdupa, heqa⟩ | ⟨hdupa, heqa⟩ := hcasea <;>
      obtain ⟨hdupb, heqb⟩ | ⟨hdupb, heqb⟩ := hcaseb <;> rw [heqa, heqb]
    · exact Prod.ext hlength rfl
    · exact absurd (hlength ▸ hdupa) hdupb
    · exact absurd (hlength ▸ hdupb) hdupa
    · exact Prod.ext hlength ((listed_fresh hmema).1.trans (listed_fresh hmemb).1.symm)
  · obtain ⟨a, hmema, rfl⟩ := hmem a ha
    obtain ⟨b, hmemb, rfl⟩ := hmem b hb
    obtain ⟨hloca, hinoa⟩ := h.finished_nameloc hmema
    obtain ⟨hlocb, hinob⟩ := h.finished_nameloc hmemb
    rw [hloca, hlocb]
    exact h.linked a hmema b hmemb (by rw [← hinoa, ← hinob, hinode])
  · obtain ⟨e, hmeme, rfl⟩ := hmem e he
    obtain ⟨_, -, -, ⟨-, heq⟩ | ⟨-, heq⟩⟩ := h.finished_cases hmeme <;> rw [heq]
    · exact Or.inr rfl
    · exact Or.inl (listed_fresh hmeme).2
  · refine (hperm.pairwise_iff fun {a b} hab heq => (hab heq.symm).symm).mpr ?_
    refine List.pairwise_map.mpr ((pairwise_duplicate (listed disk names)).imp_of_mem ?_)
    intro a b ha hb hdup hlength
    obtain ⟨_, -, -, ⟨hdupa, heqa⟩ | ⟨hdupa, heqa⟩⟩ := h.finished_cases ha <;>
      obtain ⟨_, -, -, ⟨hdupb, heqb⟩ | ⟨hdupb, heqb⟩⟩ := h.finished_cases hb <;>
      rw [heqa, heqb] at hlength ⊢
    · exact ⟨rfl, rfl⟩
    · exact absurd (hdup hlength) (hlength ▸ hdupb)
    · exact absurd (hdup hlength) hdupa
    · exact absurd (hdup hlength) hdupa

/-- Once `scan1` has come to its end, files with a checksum can be opened to be compared. -/
theorem fullcmp_opens {n_files : Nat} {l : List FileDesc} {c : CrcState}
    (hflags : ∀ e ∈ l, e.GetFlag FL_CRC = false)
    (h : scan1 (crcAt disk names) n_files l = .on c) {a b : FileDesc} (ha : a ∈ c.filelist)
    (hb : b ∈ c.filelist) (hacrc : a.GetFlag FL_CRC = true) (hbcrc : b.GetFlag FL_CRC = true) :
    fullcmp disk.fopen (getfn names) a.nameloc b.nameloc ≠ none := by
  have hloop := scan1Loop_ends n_files (scanned_start (crcAt disk names) l) (by decide)
  rw [Nat.zero_add] at hloop
  cases hres : scan1Loop (crcAt disk names) n_files 1 { filelist := l } with
  | undefined reads =>
      simp only [scan1, hres] at h
      exact Progress.noConfusion h
  | exited reads =>
      simp only [scan1, hres] at h
      exact Progress.noConfusion h
  | on s =>
      rw [hres] at hloop
      obtain ⟨hs, -⟩ | - | - := hloop
      have hsub : c.filelist ⊆ s.filelist := by
        simp only [scan1, hres] at h
        split at h <;> obtain rfl := (Progress.on.inj h)
        · intro e he
          rcases List.mem_append.mp he with hsorted | hrest
          · exact List.mem_of_mem_take ((List.mergeSort_perm _ _).subset hsorted)
          · exact List.mem_of_mem_drop hrest
        · exact List.Subset.refl _
      have hopen {e : FileDesc} (he : e ∈ c.filelist) (hcrc : e.GetFlag FL_CRC = true) :
          ∃ fp, disk.fopen (getfn names e.nameloc) = some fp := by
        obtain ⟨i, hi⟩ := List.mem_iff_getElem?.mp (hsub he)
        have hlt : i < l.length := by
          rw [← hs.size]
          exact (List.getElem?_eq_some_iff.mp hi).1
        have hkept := hs.entry i _ e (List.getElem?_eq_getElem hlt) hi
        cases hfp : disk.fopen (getfn names e.nameloc) with
        | some fp => exact ⟨fp, rfl⟩
        | none =>
            refine absurd ⟨hflags _ (List.getElem_mem hlt), ?_⟩ (hkept.readable hcrc)
            rw [crcAt, ← hkept.nameloc, hfp, Option.map_none]
      obtain ⟨fa, hfa⟩ := hopen ha hacrc
      obtain ⟨fb, hfb⟩ := hopen hb hbcrc
      simp [fullcmp, hfa, hfb]

/-! ## The groups -/

/-- Some group begins with the file at this place. -/
def leads (groups : List (List FileDesc)) (d : FileDesc) : Bool :=
  groups.any fun g => g.head?.any fun p => p.nameloc == d.nameloc

theorem leads_iff {groups : List (List FileDesc)} {d : FileDesc} :
    leads groups d = true ↔ ∃ g ∈ groups, ∃ p, g.head? = some p ∧ p.nameloc = d.nameloc := by
  simp [leads, Option.any_eq_true]

theorem clearDup_GetFlag_link (e : FileDesc) : e.clearDup.GetFlag FL_LNK = e.GetFlag FL_LNK := by
  have h : ∀ f : BitVec 8, (f &&& ~~~0x02) &&& 0x04 = f &&& 0x04 := by decide +kernel
  exact congrArg (fun f => decide (f ≠ 0)) (h e.flags)

theorem mem_linkedAfter_nameloc {seen l : List FileDesc} {e : FileDesc}
    (h : e ∈ linkedAfter seen l) : ∃ e₀ ∈ l, e₀.nameloc = e.nameloc := by
  obtain ⟨e₀, he₀, rfl | rfl⟩ := mem_linkedAfter h
  · exact ⟨e, he₀, rfl⟩
  · exact ⟨e₀, he₀, rfl⟩

/-- The entries without the mark are the first ones of their links. -/
theorem linkedAfter_leads (n : Nat) (seen l : List FileDesc) (hn : l.length ≤ n)
    (hl : Contiguous FileDesc.inodeOf l) (hseen : ∀ e ∈ seen, ∀ r ∈ l, e.inodeOf ≠ r.inodeOf)
    (hplaces : l.Pairwise fun a b => a.nameloc ≠ b.nameloc)
    (hflags : ∀ e ∈ l, e.GetFlag FL_LNK = false) {m : FileDesc} (hm : m ∈ linkedAfter seen l) :
    (!m.GetFlag FL_LNK) = leads (groupsBy FileDesc.inodeOf l) m := by
  induction n generalizing seen l with
  | zero =>
      obtain rfl := List.length_eq_zero_iff.mp (Nat.le_zero.mp hn)
      exact absurd hm List.not_mem_nil
  | succ n ih =>
      cases l with
      | nil => exact absurd hm List.not_mem_nil
      | cons p rest =>
          have hsub : (pastLinks p rest).Sublist rest := List.dropWhile_sublist _
          have hlinks : (linksOf p rest).Sublist rest := List.takeWhile_sublist _
          have hsplit := linksOf_append_pastLinks p rest
          obtain ⟨hfirst, hrest⟩ := List.pairwise_cons.mp hplaces
          have hapart : ∀ x ∈ linksOf p rest, ∀ y ∈ pastLinks p rest, x.nameloc ≠ y.nameloc := by
            rw [← hsplit] at hrest
            exact (List.pairwise_append.mp hrest).2.2
          have hgroups : groupsBy FileDesc.inodeOf (p :: rest) =
              (p :: linksOf p rest) :: groupsBy FileDesc.inodeOf (pastLinks p rest) :=
            groupsBy_eq p rest
          have hhead : ∀ g ∈ groupsBy FileDesc.inodeOf (pastLinks p rest), ∀ q,
              g.head? = some q → q ∈ pastLinks p rest := fun g hg q hq =>
            (hl.tail.sublist hsub).classes.perm.subset
              (List.mem_flatten.mpr ⟨g, hg, List.mem_of_head? hq⟩)
          rw [linkedAfter_round rest fun e he => hseen e he p List.mem_cons_self] at hm
          -- a file of the first group, or one of the files behind it
          rcases List.mem_append.mp hm with hgroup | htail
          · rcases List.mem_cons.mp hgroup with rfl | hlink
            · rw [hflags m List.mem_cons_self, hgroups]
              exact (leads_iff.mpr ⟨_, List.mem_cons_self, m, rfl, rfl⟩).symm
            · obtain ⟨x, hx, rfl⟩ := List.mem_map.mp hlink
              rw [link_GetFlag, Bool.not_true, eq_comm, Bool.eq_false_iff, ne_eq, leads_iff,
                hgroups]
              rintro ⟨g, hg, q, hq, heq⟩
              rcases List.mem_cons.mp hg with rfl | hg
              · obtain rfl : p = q := Option.some.inj hq
                exact hfirst x (hlinks.subset hx) heq
              · exact hapart x hx q (hhead g hg q hq) heq.symm
          · have hlen := hsub.length_le
            rw [List.length_cons] at hn
            rw [ih _ (pastLinks p rest) (by omega) (hl.tail.sublist hsub)
              (seen_pastLinks hl hseen) (hrest.sublist hsub)
              (fun e he => hflags e (List.mem_cons_of_mem p (hsub.subset he))) htail, hgroups]
            obtain ⟨y, hy, hplace⟩ := mem_linkedAfter_nameloc htail
            have hother : (p.nameloc == m.nameloc) = false := by
              rw [← hplace]
              exact beq_eq_false_iff_ne.mpr (hfirst y (hsub.subset hy))
            simp [leads, hother]

/-- A descriptor as the build loop makes it. -/
def FileDesc.fresh (e : FileDesc) : FileDesc := { e with crc32 := 0, flags := 0 }

theorem Orderly.fresh_finished (h : Orderly disk names) {e : FileDesc}
    (he : e ∈ listed disk names) :
    (e.finished disk names).fresh = e := by
  obtain ⟨hcrc, hflags⟩ := listed_fresh he
  obtain ⟨length, crc32, device, inode, nameloc, flags⟩ := e
  obtain rfl : crc32 = 0 := hcrc
  obtain rfl : flags = 0 := hflags
  obtain ⟨_, -, -, ⟨-, heq⟩ | ⟨-, heq⟩⟩ := h.finished_cases he <;> rw [heq] <;> rfl

/-- The lines of a group do not depend on the marks, but for what is shown. -/
theorem groupLines_fresh (line : String → Line) {shown shown' : FileDesc → Bool}
    {g : List FileDesc} (h : ∀ e ∈ g, shown' e.fresh = shown e) :
    groupLines files line shown' (g.map FileDesc.fresh) = groupLines files line shown g := by
  cases g with
  | nil => rfl
  | cons p ds =>
      have hfilter : (ds.map FileDesc.fresh).filter shown' =
          (ds.filter shown).map FileDesc.fresh := by
        rw [List.filter_map]
        refine congrArg _ (List.filter_congr fun d hd => ?_)
        exact h d (List.mem_cons_of_mem p hd)
      simp only [List.map_cons, groupLines, hfilter, List.map_map]
      rfl

theorem leads_fresh (groups : List (List FileDesc)) (e : FileDesc) :
    leads (groups.map (List.map FileDesc.fresh)) e.fresh = leads groups e := by
  simp only [leads, List.any_map, Function.comp_def, List.head?_map, Option.any_map]
  rfl

theorem inodeOf_fresh (e : FileDesc) : e.fresh.inodeOf = e.inodeOf := rfl

theorem nameloc_fresh (e : FileDesc) : e.fresh.nameloc = e.nameloc := rfl

/-- The groups of a scan are groups of the list. -/
theorem groups_fresh {β : Type*} [DecidableEq β] {f : FileDesc → β} {l l' : List FileDesc}
    (hf : ∀ e, f e.fresh = f e) (hl : Contiguous f l)
    (hperm : (l.map FileDesc.fresh).Perm l') :
    Classes f ((groupsBy f l).map (List.map FileDesc.fresh)) l' := by
  have hclasses : Classes f ((groupsBy f l).map (List.map FileDesc.fresh))
      (l.map FileDesc.fresh) := hl.classes.map hf
  exact { hclasses with perm := hclasses.perm.trans hperm }

theorem Orderly.places (h : Orderly disk names) {l : List FileDesc}
    (hperm : l.Perm ((listed disk names).map (FileDesc.finished disk names))) :
    l.Pairwise fun a b => a.nameloc ≠ b.nameloc := by
  have hlines : ∀ line ∈ Lines.lines NEWLINE names, line ≠ [] := fun _ => Lines.ne_nil_of_mem_lines
  have hnames : (listed disk names).Pairwise (·.nameloc < ·.nameloc) := pairwise_nameloc hlines
  refine (hperm.pairwise_iff fun {a b} hab => hab.symm).mpr (List.pairwise_map.mpr ?_)
  refine hnames.imp_of_mem fun {a b} ha hb hab => ?_
  rw [(h.finished_nameloc ha).1, (h.finished_nameloc hb).1]
  exact ne_of_lt hab

/-- What is printed after `scan1`. -/
theorem Orderly.groups (h : Orderly disk names) {l : List FileDesc}
    (hperm : l.Perm ((listed disk names).map (FileDesc.finished disk names)))
    (hsorted : l.Pairwise fun a b => comp1 a b ≤ 0) (linkflag : Bool) :
    ∃ r, ∃ links dups : List (List FileDesc),
      Classes FileDesc.inodeOf links (listed disk names) ∧
      Classes (fun e => contentOf disk names e.nameloc) dups (listed disk names) ∧
      scan2 (filesOf disk names) linkflag l = some (r, headed .linkSummary true
        (links.flatMap (groupLines (filesOf disk names) .link fun _ => linkflag))) ∧
      scan3 (filesOf disk names) linkflag r = some (headed (.duplicates linkflag) true
        (dups.flatMap (groupLines (filesOf disk names) .dup
          fun d => linkflag || leads links d))) := by
  have hscannable := h.scannable hperm hsorted
  have hagree : Agree (filesOf disk names) (telling disk names) l := h.agree.perm (hperm.map _)
  obtain ⟨r, hscan2, hr, hcontent, hscan3⟩ := scans_out hscannable hagree linkflag
  have hfreshl : (l.map FileDesc.fresh).Perm (listed disk names) := by
    have hmap := hperm.map FileDesc.fresh
    have hid : ((listed disk names).map (FileDesc.finished disk names)).map FileDesc.fresh =
        listed disk names := by
      rw [List.map_map]
      exact (List.map_congr_left fun e he => h.fresh_finished he).trans (List.map_id _)
    rwa [hid] at hmap
  have hfreshr : (r.map FileDesc.fresh).Perm (listed disk names) := by
    have hmap := hr.map FileDesc.fresh
    rw [linkedAfter_map (fun _ => rfl), List.map_map] at hmap
    exact hmap.trans hfreshl
  have hunmarked : ∀ e ∈ l, e.GetFlag FL_LNK = false := by
    intro e he
    rcases hscannable.flags e he with hflags | hflags <;>
      simp [FileDesc.GetFlag, hflags, FL_LNK, FL_CRC]
  -- of the links of a file, the first one is the one that is not marked
  have hshown : ∀ e ∈ r, leads ((groupsBy FileDesc.inodeOf l).map (List.map FileDesc.fresh))
      e.fresh = !e.GetFlag FL_LNK := by
    intro e he
    have hmarked : e.clearDup ∈ linkedAfter [] l := hr.subset (List.mem_map_of_mem he)
    have hfirst := linkedAfter_leads l.length [] l le_rfl hscannable.contiguous
      (fun e he => absurd he List.not_mem_nil) (h.places hperm) hunmarked hmarked
    rw [leads_fresh, ← clearDup_GetFlag_link e, hfirst]
    rfl
  have hlinks := groups_fresh inodeOf_fresh hscannable.contiguous hfreshl
  have hdups := groups_fresh (f := fun e => contentOf disk names e.nameloc)
    (fun e => congrArg _ (nameloc_fresh e)) hcontent hfreshr
  refine ⟨r, _, _, hlinks, hdups, ?_, ?_⟩
  · rw [hscan2, List.flatMap_map, linkReport]
    have hlines : ∀ g ∈ groupsBy FileDesc.inodeOf l,
        groupLines (filesOf disk names) .link (fun _ => linkflag) (g.map FileDesc.fresh) =
          groupLines (filesOf disk names) .link (fun _ => linkflag) g :=
      fun g _ => groupLines_fresh .link fun _ _ => rfl
    rw [List.flatMap_congr hlines]
  · rw [hscan3, List.flatMap_map, dupListing]
    have hlines : ∀ g ∈ groupsBy (fun e => contentOf disk names e.nameloc) r,
        groupLines (filesOf disk names) .dup (fun d => linkflag ||
            leads ((groupsBy FileDesc.inodeOf l).map (List.map FileDesc.fresh)) d)
            (g.map FileDesc.fresh) =
          groupLines (filesOf disk names) .dup (fun d => linkflag || !d.GetFlag FL_LNK) g := by
      intro g hg
      refine groupLines_fresh .dup fun e he => ?_
      rw [hshown e (hcontent.classes.perm.subset (List.mem_flatten.mpr ⟨g, hg, he⟩))]
    rw [List.flatMap_congr hlines]

/-! ## The program -/

variable (disk) (names) in
/-- The slot behind the last file is one of the array, and no file has the length in it. -/
def SlotApart (junk : Nat → FileDesc) : Prop :=
  ∀ s, buildLoop disk junk 0 (Lines.lines NEWLINE names) .start = some s →
    ∃ slot, s.filelist[s.n_files]? = some slot ∧ ∀ e ∈ listed disk names, e.length ≠ slot.length

/-- The first 50 slots are cleared, and no listed file is empty. -/
theorem slotApart_of_few (junk : Nat → FileDesc)
    (hnamed : ∀ line ∈ Lines.lines NEWLINE names, chop line ≠ none)
    (hfew : (listed disk names).length < 50) : SlotApart disk names junk := by
  intro s hs
  obtain ⟨s', hbuild, ⟨hn, m, harray, hroom⟩, -⟩ := buildLoop_eq (@built_start junk) 0 hnamed
  obtain rfl : s' = s := Option.some.inj (hbuild.symm.trans hs)
  rw [List.nil_append, ← listed] at hn harray hroom
  obtain ⟨m, rfl⟩ : ∃ k, m = k + 1 := ⟨m - 1, by omega⟩
  refine ⟨emptyDesc, ?_, fun e he => listed_length he⟩
  rw [harray, hn, List.getElem?_append_right le_rfl, Nat.sub_self, List.range'_succ, List.map_cons,
    List.getElem?_cons_zero, if_pos hfew]

/-- On an orderly list the program prints the empty files, the links of every file, and every class
of files with equal contents once. Without links, a file that is not the first of its links is left
out of its class. -/
theorem finddup_main_lists (disk : Disk) (junk : Nat → FileDesc) {opts : List Opt} {linkflag : Bool}
    {list : String} {names : List Byte} (hopts : parseOptions true opts = .run linkflag)
    (hlist : disk.fopen list = some names) (h : Orderly disk names)
    (hslot : SlotApart disk names junk) :
    ∃ links dups : List (List FileDesc),
      Classes FileDesc.inodeOf links (listed disk names) ∧
      Classes (fun e => contentOf disk names e.nameloc) dups (listed disk names) ∧
      finddup_main disk junk opts [list] =
        .exit 0 (emptyReport disk true (Lines.lines NEWLINE names) ++
          (headed .linkSummary true
              (links.flatMap (groupLines (filesOf disk names) .link fun _ => linkflag)) ++
            headed (.duplicates linkflag) true
              (dups.flatMap (groupLines (filesOf disk names) .dup
                fun d => linkflag || leads links d))).map .scan) := by
  obtain ⟨s, hbuild, hs, hout⟩ := buildLoop_eq built_start 0 h.named
  rw [List.nil_append] at hs
  obtain ⟨slot, hat, hown⟩ := hslot s hbuild
  obtain ⟨c, hscan1, hperm, hsorted⟩ := h.scan1_eq hs hat hown
  obtain ⟨r, links, dups, hlinks, hdups, hscan2, hscan3⟩ := h.groups hperm hsorted linkflag
  refine ⟨links, dups, hlinks, hdups, ?_⟩
  simp only [finddup_main, hopts, hlist, hbuild, scans, hscan1, hscan2, hscan3, hout]
  rfl

/-- In a sorted list, a file that cannot be read and shares its length stops a round. -/
theorem exists_stuck {get_crc : Int → Option Nat} {l : List FileDesc} {n_files : Nat} {e : FileDesc}
    (hsorted : ((l.take n_files).map (·.length)).Pairwise (· ≤ ·)) (he : e ∈ l.take n_files)
    (hdup : List.Duplicate e.length ((l.take n_files).map (·.length)))
    (hread : e.Unreadable get_crc) : ∃ ix, 1 ≤ ix ∧ ix ≤ n_files ∧ Stuck get_crc l ix := by
  obtain ⟨i, hi⟩ := List.mem_iff_getElem?.mp he
  have hlt : i < n_files := by
    have hbound := (List.getElem?_eq_some_iff.mp hi).1
    rw [List.length_take] at hbound
    omega
  rw [List.getElem?_take_of_lt hlt] at hi
  rcases (duplicate_length_iff hi hlt hsorted).mp hdup with ⟨hpos, hsame⟩ | ⟨hnext, hsame⟩
  · obtain ⟨a, b, ha, hb, hab⟩ := hsame
    obtain rfl : e = b := Option.some.inj (hi.symm.trans hb)
    exact ⟨i, hpos, hlt.le, a, e, ha, hb, hab, Or.inr hread⟩
  · obtain ⟨a, b, ha, hb, hab⟩ := hsame
    rw [Nat.add_sub_cancel] at ha
    obtain rfl : e = a := Option.some.inj (hi.symm.trans ha)
    exact ⟨i + 1, by omega, hnext.le, e, b, by rwa [Nat.add_sub_cancel], hb, hab, Or.inl hread⟩

/-- A file that shares its length with another one and cannot be opened ends the program before
anything is reported but the empty files. -/
theorem finddup_main_unreadable (disk : Disk) (junk : Nat → FileDesc) {opts : List Opt}
    {linkflag : Bool} {list : String} {names : List Byte}
    (hopts : parseOptions true opts = .run linkflag) (hlist : disk.fopen list = some names)
    (hnamed : ∀ line ∈ Lines.lines NEWLINE names, chop line ≠ none)
    (hnarrow : ∀ a ∈ listed disk names, ∀ b ∈ listed disk names, Narrow a b)
    (hfew : (listed disk names).length < INT_MAX) (hslot : SlotApart disk names junk)
    {a : FileDesc} (ha : a ∈ listed disk names)
    (hdup : List.Duplicate a.length ((listed disk names).map (·.length)))
    (hread : contentOf disk names a.nameloc = none) :
    finddup_main disk junk opts [list] =
      .exit 1 (emptyReport disk true (Lines.lines NEWLINE names)) := by
  obtain ⟨s, hbuild, ⟨hn, m, harray, -⟩, hout⟩ := buildLoop_eq (@built_start junk) 0 hnamed
  rw [List.nil_append, ← listed] at hn harray
  obtain ⟨slot, hat, -⟩ := hslot s hbuild
  have hfollows := follows_of_narrow hnarrow
  have hperm := List.mergeSort_perm (listed disk names) fun a b => decide (comp1 a b ≤ 0)
  have hsorted := hfollows.pairwise_mergeSort
  have hfront : (SORT s.n_files s.filelist).take s.n_files =
      (listed disk names).mergeSort fun a b => decide (comp1 a b ≤ 0) := by
    rw [SORT, hn, harray, List.take_left, List.drop_left, List.take_left' hperm.length_eq]
  have hsize : s.n_files < (SORT s.n_files s.filelist).length := by
    have hlt := (List.getElem?_eq_some_iff.mp hat).1
    rw [SORT, List.length_append, (List.mergeSort_perm _ _).length_eq, List.length_take,
      List.length_drop]
    omega
  obtain ⟨ix, hpos, hle, hstuck⟩ : ∃ ix, 1 ≤ ix ∧ ix ≤ s.n_files ∧
      Stuck (crcAt disk names) (SORT s.n_files s.filelist) ix := by
    refine exists_stuck (e := a) ?_ ?_ ?_ ⟨?_, ?_⟩
    · rw [hfront]
      exact List.pairwise_map.mpr ((hfollows.pairwise hperm.subset hsorted).imp key_length)
    · rw [hfront]
      exact hperm.symm.subset ha
    · rwa [hfront, duplicate_perm (hperm.map (·.length))]
    · simp [FileDesc.GetFlag, (listed_fresh ha).2]
    · rw [crcAt, show disk.fopen (getfn names a.nameloc) = none from hread, Option.map_none]
  have hloop := scan1Loop_ends s.n_files (scanned_start (crcAt disk names)
    (SORT s.n_files s.filelist)) (by decide)
  rw [Nat.zero_add, Nat.zero_add] at hloop
  -- the loop comes to the file that cannot be opened, or has left before
  have hexit : ∃ reads, scan1 (crcAt disk names) s.n_files (SORT s.n_files s.filelist) =
      .exited reads := by
    cases hres : scan1Loop (crcAt disk names) s.n_files 1
        { filelist := SORT s.n_files s.filelist } with
    | exited reads => exact ⟨reads, by simp only [scan1, hres]⟩
    | undefined reads =>
        rw [hres] at hloop
        obtain - | - | ⟨hwhy, -⟩ := hloop
        omega
    | on c =>
        rw [hres] at hloop
        obtain ⟨-, hon⟩ | - | - := hloop
        exact absurd hstuck (hon ix hpos hle)
  obtain ⟨reads, hexit⟩ := hexit
  simp only [finddup_main, hopts, hlist, hbuild, scans, hexit, hout]
  rfl

/-- The names file of two links of one file, which is the names file itself. -/
def twoLinks : Disk where
  lstat _ := some ⟨true, 4, 1, 1⟩
  fopen _ := some [0x61, 0x0A, 0x62, 0x0A]
  room _ _ := 120

theorem finddup_main_twoLinks : ∃ links dups : List (List FileDesc),
    Classes FileDesc.inodeOf links (listed twoLinks [0x61, 0x0A, 0x62, 0x0A]) ∧
    Classes (fun e => contentOf twoLinks [0x61, 0x0A, 0x62, 0x0A] e.nameloc) dups
      (listed twoLinks [0x61, 0x0A, 0x62, 0x0A]) ∧
    finddup_main twoLinks (fun _ => emptyDesc) [] ["list"] =
      .exit 0 (emptyReport twoLinks true (Lines.lines NEWLINE [0x61, 0x0A, 0x62, 0x0A]) ++
        (headed .linkSummary true (links.flatMap (groupLines
            (filesOf twoLinks [0x61, 0x0A, 0x62, 0x0A]) .link fun _ => true)) ++
          headed (.duplicates true) true (dups.flatMap (groupLines
            (filesOf twoLinks [0x61, 0x0A, 0x62, 0x0A]) .dup
              fun d => true || leads links d))).map .scan) := by
  have hlisted : listed twoLinks [0x61, 0x0A, 0x62, 0x0A] =
      [⟨4, 0, 1, 1, 0, 0⟩, ⟨4, 0, 1, 1, 2, 0⟩] := by decide
  have hnamed : ∀ line ∈ Lines.lines NEWLINE [0x61, 0x0A, 0x62, 0x0A], chop line ≠ none := by decide
  have hcontent (loc : Int) : contentOf twoLinks [0x61, 0x0A, 0x62, 0x0A] loc =
      some [0x61, 0x0A, 0x62, 0x0A] := rfl
  have horderly : Orderly twoLinks [0x61, 0x0A, 0x62, 0x0A] := by
    refine ⟨hnamed, ?_, ?_, fun a _ b _ _ => ?_, ?_, ?_, ?_, ?_⟩
    · rw [hlisted]
      decide
    · rw [hlisted]
      exact fun e he => ⟨_, hcontent _, by revert e; decide⟩
    · rw [hcontent, hcontent]
    · rw [hlisted]
      decide
    · intro a _ b _ fa fb ha hb _
      rw [hcontent] at ha hb
      rw [← Option.some.inj ha, ← Option.some.inj hb]
      omega
    · refine List.pairwise_of_forall fun a b fa fb ha hb _ _ => ?_
      rw [hcontent] at ha hb
      rw [← Option.some.inj ha, ← Option.some.inj hb]
      exact ⟨highByteTells_of_ascii (by decide), highByteTells_of_ascii (by decide)⟩
    · rw [hlisted]
      decide
  exact finddup_main_lists twoLinks (fun _ => emptyDesc) rfl rfl horderly
    (slotApart_of_few _ hnamed (by rw [hlisted]; decide))

/-- The same names, and no file but the list of them can be opened. -/
def lockedLinks : Disk where
  lstat _ := some ⟨true, 4, 1, 1⟩
  fopen name := if name = "list" then some [0x61, 0x0A, 0x62, 0x0A] else none
  room _ _ := 120

theorem finddup_main_lockedLinks : finddup_main lockedLinks (fun _ => emptyDesc) [] ["list"] =
    .exit 1 (emptyReport lockedLinks true (Lines.lines NEWLINE [0x61, 0x0A, 0x62, 0x0A])) := by
  have hlisted : listed lockedLinks [0x61, 0x0A, 0x62, 0x0A] =
      [⟨4, 0, 1, 1, 0, 0⟩, ⟨4, 0, 1, 1, 2, 0⟩] := by decide
  have hnamed : ∀ line ∈ Lines.lines NEWLINE [0x61, 0x0A, 0x62, 0x0A], chop line ≠ none := by decide
  refine finddup_main_unreadable lockedLinks (fun _ => emptyDesc) (a := ⟨4, 0, 1, 1, 0, 0⟩) rfl
    (by decide) hnamed ?_ (by rw [hlisted]; decide)
    (slotApart_of_few _ hnamed (by rw [hlisted]; decide)) (by rw [hlisted]; decide)
    (by rw [hlisted]; decide) (by decide)
  rw [hlisted]
  intro a ha b hb
  simp only [List.mem_cons, List.not_mem_nil, or_false] at ha hb
  rcases ha with rfl | rfl <;> rcases hb with rfl | rfl <;>
    exact ⟨by decide, fun _ => by decide, by decide, by decide⟩

end StarterProjects.Finddup
