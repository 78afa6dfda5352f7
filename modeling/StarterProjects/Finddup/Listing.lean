import StarterProjects.Finddup.Report
import StarterProjects.Lib.Grouping

/-!
# What the scans print

The hard links that `scan2` prints, and the duplicates that `scan3` prints, with and without links.
Both are lists of groups: the first file of a group, and the other ones that are shown.

* `linkScan_out`: the links, group by group of one inode.
* `reportLoop_out`: the duplicates, group by group of one content.
-/

namespace StarterProjects.Finddup

open Lib

variable (files : Files) (linkflag : Bool)

/-- A group of files: its first file, and the others that are shown, if there are any. -/
def groupLines (line : String → Line) (shown : FileDesc → Bool) : List FileDesc → List Line
  | [] => []
  | p :: ds =>
      let others := (ds.filter shown).map fun d => line (files.getfn d.nameloc)
      if others = [] then [] else .file (files.getfn p.nameloc) :: others

/-- The lines under their heading, which is printed once. -/
def headed (heading : Line) (need_hdr : Bool) (lines : List Line) : List Line :=
  if lines = [] then [] else if need_hdr then heading :: lines else lines

/-- The heading is still to be printed after these lines. -/
def stillDue (need_hdr : Bool) (lines : List Line) : Bool := need_hdr && lines.isEmpty

theorem stillDue_append (need_hdr : Bool) (xs ys : List Line) :
    stillDue need_hdr (xs ++ ys) = stillDue (stillDue need_hdr xs) ys := by
  cases xs <;> simp [stillDue]

theorem headed_append (heading : Line) (need_hdr : Bool) (xs ys : List Line) :
    headed heading need_hdr (xs ++ ys) =
      headed heading need_hdr xs ++ headed heading (stillDue need_hdr xs) ys := by
  by_cases hxs : xs = []
  · simp [headed, stillDue, hxs]
  · by_cases hys : ys = []
    · simp [headed, hys]
    · cases need_hdr <;> simp [headed, stillDue, hxs, hys]

/-! ## The links -/

def linkReport (l : List FileDesc) : List Line :=
  (groupsBy FileDesc.inodeOf l).flatMap (groupLines files .link fun _ => linkflag)

variable {files} {linkflag}

theorem printLink_eq (s : LinkState) (inmatch : Bool) (p1 p2 : FileDesc) :
    s.printLink files inmatch p1 p2 = { s with
      need_hdr := false
      out := s.out ++ ((if s.need_hdr then [.linkSummary] else []) ++
        ((if inmatch then [] else [.file (files.getfn p1.nameloc)]) ++
          [.link (files.getfn p2.nameloc)])) } := by
  obtain ⟨filelist, need_hdr, out⟩ := s
  cases need_hdr <;> cases inmatch <;> simp [LinkState.printLink]

/-- The round for the entry behind those that are done. -/
theorem markLinks_cons (pre : List FileDesc) (p : FileDesc) (done : List FileDesc) (x : FileDesc)
    (rest : List FileDesc) (inmatch : Bool) {s : LinkState}
    (hs : s.filelist = pre ++ p :: (done ++ x :: rest)) :
    markLinks files linkflag pre.length (rest.length + 1) (pre.length + 1 + done.length) inmatch s =
      if p.inodeOf = x.inodeOf then
        let s := { s with filelist := pre ++ p :: ((done ++ [x.link]) ++ rest) }
        markLinks files linkflag pre.length rest.length (pre.length + 1 + (done ++ [x.link]).length)
          (inmatch || linkflag) (if linkflag then s.printLink files inmatch p x else s)
      else some (pre.length + 1 + done.length, s) := by
  have hfirst : s.filelist[pre.length]? = some p := by rw [hs, getElem?_at]
  have hlong : s.filelist = (pre ++ p :: done) ++ x :: rest := by simp [hs]
  have hindex : pre.length + 1 + done.length = (pre ++ p :: done).length := by
    simp
    omega
  have hhere : s.filelist[pre.length + 1 + done.length]? = some x := by
    rw [hlong, hindex, getElem?_at]
  have hset : SetFlag s.filelist (pre.length + 1 + done.length) FL_LNK =
      some (pre ++ p :: ((done ++ [x.link]) ++ rest)) := by
    rw [hlong, hindex, SetFlag_at]
    simp [FileDesc.link]
  have hnext : pre.length + 1 + done.length + 1 = pre.length + 1 + (done ++ [x.link]).length := by
    simp
    omega
  have hsame : (p.device = x.device ∧ p.inode = x.inode) ↔ p.inodeOf = x.inodeOf := by
    simp [FileDesc.inodeOf]
  rw [markLinks, hfirst, hhere]
  simp only [Option.bind_eq_bind, Option.bind_some, hsame, hset, hnext]
  cases linkflag <;> simp

variable (files) (linkflag) in
/-- The lines for the links `ls` of `p`, whose name has been printed if `inmatch`. -/
def linkLines (inmatch : Bool) (p : FileDesc) (ls : List FileDesc) : List Line :=
  if linkflag = false ∨ ls = [] then []
  else (if inmatch then [] else [.file (files.getfn p.nameloc)]) ++
    ls.map fun e => .link (files.getfn e.nameloc)

theorem linkLines_false (p : FileDesc) (ls : List FileDesc) :
    linkLines files linkflag false p ls =
      groupLines files .link (fun _ => linkflag) (p :: ls) := by
  cases linkflag <;> simp [linkLines, groupLines]

/-- The inner loop: the marks, and the lines. -/
theorem markLinks_run (pre : List FileDesc) (p : FileDesc) (rest : List FileDesc)
    {done : List FileDesc} (inmatch : Bool) {s : LinkState}
    (hs : s.filelist = pre ++ p :: (done ++ rest)) :
    markLinks files linkflag pre.length rest.length (pre.length + 1 + done.length) inmatch s =
      some (pre.length + 1 + done.length + (linksOf p rest).length,
        { filelist :=
            pre ++ p :: (done ++ ((linksOf p rest).map FileDesc.link ++ pastLinks p rest))
          need_hdr := stillDue s.need_hdr (linkLines files linkflag inmatch p (linksOf p rest))
          out := s.out ++ headed .linkSummary s.need_hdr
            (linkLines files linkflag inmatch p (linksOf p rest)) }) := by
  induction rest generalizing done inmatch s with
  | nil =>
      obtain ⟨filelist, need_hdr, out⟩ := s
      subst hs
      simp [markLinks, linksOf, pastLinks, linkLines, stillDue, headed]
  | cons x rest ih =>
      rw [List.length_cons, markLinks_cons pre p done x rest inmatch hs]
      by_cases heq : p.inodeOf = x.inodeOf
      · have htake : linksOf p (x :: rest) = x :: linksOf p rest :=
          List.takeWhile_cons_of_pos (by simpa using heq)
        have hdrop : pastLinks p (x :: rest) = pastLinks p rest :=
          List.dropWhile_cons_of_pos (by simpa using heq)
        have hcount : pre.length + 1 + done.length + (x :: linksOf p rest).length =
            pre.length + 1 + (done ++ [x.link]).length + (linksOf p rest).length := by
          simp
          omega
        rw [if_pos heq, htake, hdrop, hcount]
        cases linkflag with
        | false =>
            rw [ih _ (by rfl)]
            simp [linkLines, stillDue, headed]
        | true =>
            simp only [if_true, printLink_eq]
            rw [ih _ (by rfl)]
            cases hdr : s.need_hdr <;> cases inmatch <;> cases linksOf p rest <;>
              simp [linkLines, stillDue, headed]
      · have htake : linksOf p (x :: rest) = [] := List.takeWhile_cons_of_neg (by simpa using heq)
        have hdrop : pastLinks p (x :: rest) = x :: rest :=
          List.dropWhile_cons_of_neg (by simpa using heq)
        rw [if_neg heq, htake, hdrop]
        obtain ⟨filelist, need_hdr, out⟩ := s
        subst hs
        simp [linkLines, stillDue, headed]

theorem linkReport_cons (p : FileDesc) (rest : List FileDesc) :
    linkReport files linkflag (p :: rest) =
      linkLines files linkflag false p (linksOf p rest) ++
        linkReport files linkflag (pastLinks p rest) := by
  have hgroup : groupsBy FileDesc.inodeOf (p :: rest) =
      (p :: linksOf p rest) :: groupsBy FileDesc.inodeOf (pastLinks p rest) := groupsBy_eq p rest
  rw [linkReport, hgroup, List.flatMap_cons, ← linkLines_false, linkReport]

/-- Behind the links of an entry there is no inode that has occurred. -/
theorem seen_pastLinks {seen : List FileDesc} {p : FileDesc} {rest : List FileDesc}
    (hR : Contiguous FileDesc.inodeOf (p :: rest))
    (hseen : ∀ e ∈ seen, ∀ r ∈ p :: rest, e.inodeOf ≠ r.inodeOf) :
    ∀ e ∈ seen ++ p :: linksOf p rest, ∀ r ∈ pastLinks p rest, e.inodeOf ≠ r.inodeOf := by
  intro e he r hr
  rcases List.mem_append.mp he with hold | hnew
  · exact hseen e hold r (List.mem_cons_of_mem p ((List.dropWhile_sublist _).subset hr))
  · have hp : p.inodeOf = e.inodeOf := by
      rcases List.mem_cons.mp hnew with rfl | hlink
      · rfl
      · exact mem_linksOf hlink
    rw [← hp]
    exact hR.ne_of_mem_dropWhile hr

/-- The loop: the marks, and the links group by group. -/
theorem linkScan_out (n : Nat) (seen done R : List FileDesc) (fuel : Nat) (s : LinkState)
    (hn : R.length ≤ n) (hfuel : R.length < fuel) (hR : Contiguous FileDesc.inodeOf R)
    (hseen : ∀ e ∈ seen, ∀ r ∈ R, e.inodeOf ≠ r.inodeOf) (hs : s.filelist = done ++ R) :
    linkScan files linkflag (done.length + R.length) fuel done.length s =
      some { filelist := done ++ linkedAfter seen R
             need_hdr := stillDue s.need_hdr (linkReport files linkflag R)
             out := s.out ++ headed .linkSummary s.need_hdr (linkReport files linkflag R) } := by
  induction n generalizing seen done R fuel s with
  | zero =>
      obtain ⟨fuel, rfl⟩ : ∃ k, fuel = k + 1 := ⟨fuel - 1, by omega⟩
      obtain rfl : R = [] := List.length_eq_zero_iff.mp (Nat.le_zero.mp hn)
      obtain ⟨filelist, need_hdr, out⟩ := s
      subst hs
      simp [linkScan, linkedAfter, linkReport, groupsBy, stillDue, headed]
  | succ n ih =>
      obtain ⟨fuel, rfl⟩ : ∃ k, fuel = k + 1 := ⟨fuel - 1, by omega⟩
      cases R with
      | nil =>
          obtain ⟨filelist, need_hdr, out⟩ := s
          subst hs
          simp [linkScan, linkedAfter, linkReport, groupsBy, stillDue, headed]
      | cons p rest =>
          have hsub : (pastLinks p rest).Sublist rest := List.dropWhile_sublist _
          have hseen' := seen_pastLinks hR hseen
          have hlen : (linksOf p rest).length + (pastLinks p rest).length = rest.length := by
            rw [← List.length_append, linksOf_append_pastLinks]
          have hstart : s.filelist = done ++ p :: ([] ++ rest) := hs
          have hmark := @markLinks_run files linkflag done p rest [] false s hstart
          have hmore : done.length < done.length + (p :: rest).length := by simp
          have hleft : done.length + (p :: rest).length - (done.length + 1) = rest.length := by
            simp only [List.length_cons]
            omega
          have hdoneLen : (done ++ p :: (linksOf p rest).map FileDesc.link).length =
              done.length + 1 + (linksOf p rest).length := by
            simp
            omega
          have hnfiles : done.length + (p :: rest).length =
              (done ++ p :: (linksOf p rest).map FileDesc.link).length +
                (pastLinks p rest).length := by
            simp only [List.length_cons, hdoneLen]
            omega
          have hassoc : done ++ p :: ((linksOf p rest).map FileDesc.link ++ pastLinks p rest) =
              (done ++ p :: (linksOf p rest).map FileDesc.link) ++ pastLinks p rest := by simp
          rw [List.length_cons] at hn hfuel
          simp only [List.length_nil, Nat.add_zero, List.nil_append, hassoc] at hmark
          -- one round reports the links of `p`, and the next one starts behind them
          rw [linkScan, if_pos hmore, hleft]
          simp only [hmark, Option.bind_eq_bind, Option.bind_some]
          rw [← hdoneLen, hnfiles, ih _ _ (pastLinks p rest) fuel _ (by omega) (by omega)
            (hR.tail.sublist hsub) hseen' rfl, linkReport_cons, headed_append, stillDue_append,
            linkedAfter_round rest fun e he => hseen e he p List.mem_cons_self]
          simp

/-! ## The duplicates -/

variable {γ : Type*} [DecidableEq γ] (content : Int → γ)

variable (files) (linkflag) in
/-- Without links shown, a duplicate that is a link does not count. -/
def dupListing (l : List FileDesc) : List Line :=
  (groupsBy (fun e => content e.nameloc) l).flatMap
    (groupLines files .dup fun d => linkflag || !d.GetFlag FL_LNK)

variable {content}

theorem printDup_eq (s : ReportState) (name : String) : s.printDup linkflag name =
    { s with
      need_hdr := false
      headfn := none
      out := s.out ++ ((if s.need_hdr then [.duplicates linkflag] else []) ++
        ((s.headfn.map Line.file).toList ++ [.dup name])) } := by
  obtain ⟨need_hdr, headfn, inmatch, out⟩ := s
  cases need_hdr <;> cases headfn <;> simp [ReportState.printDup]

/-- The first duplicate of a group finds the name of the file before it, the others that of the
first. -/
theorem reportEntry_dup (pre : List FileDesc) (p d : FileDesc) (rest : List FileDesc)
    {s : ReportState} (hd : d.GetFlag FL_DUP = true) :
    reportEntry files linkflag (pre ++ p :: d :: rest) (pre.length + 1) s =
      let s := { s with
        headfn := if s.inmatch then s.headfn else some (files.getfn p.nameloc), inmatch := true }
      some (if linkflag || !d.GetFlag FL_LNK then s.printDup linkflag (files.getfn d.nameloc)
        else s) := by
  have hentry : (pre ++ p :: d :: rest)[pre.length + 1]? = some d := by simp
  have hbefore : (pre ++ p :: d :: rest)[pre.length + 1 - 1]? = some p := by simp
  obtain ⟨need_hdr, headfn, inmatch, out⟩ := s
  simp only [reportEntry, hentry, hbefore, Option.bind_eq_bind, Option.bind_some,
    if_neg (flags_ne_of_dup hd), hd]
  cases inmatch <;> cases linkflag <;> cases d.GetFlag FL_LNK <;> simp

variable (files) (linkflag) in
def shownDups (ds : List FileDesc) : List Line :=
  (ds.filter fun d => linkflag || !d.GetFlag FL_LNK).map (dupLine files)

/-- The lines of a group whose first name is still to be printed if it is in `headfn`. -/
def dupLines (headfn : Option String) (shown : List Line) : List Line :=
  if shown = [] then [] else (headfn.map Line.file).toList ++ shown

/-- The duplicates of a group, in a match. -/
theorem reportLoop_run (pre : List FileDesc) (p : FileDesc) (ds rest : List FileDesc)
    {s : ReportState} (left : Nat) (hds : ∀ d ∈ ds, d.GetFlag FL_DUP = true)
    (hinmatch : s.inmatch = true) :
    reportLoop files linkflag (pre ++ p :: (ds ++ rest)) (ds.length + left) (pre.length + 1) s =
      reportLoop files linkflag (pre ++ p :: (ds ++ rest)) left (pre.length + 1 + ds.length)
        { need_hdr := stillDue s.need_hdr (shownDups files linkflag ds)
          headfn := if shownDups files linkflag ds = [] then s.headfn else none
          inmatch := true
          out := s.out ++ headed (.duplicates linkflag) s.need_hdr
            (dupLines s.headfn (shownDups files linkflag ds)) } := by
  induction ds generalizing pre p s with
  | nil =>
      obtain ⟨need_hdr, headfn, inmatch, out⟩ := s
      subst hinmatch
      simp [shownDups, stillDue, headed, dupLines]
  | cons d ds ih =>
      have hd := hds d List.mem_cons_self
      have hcount : (d :: ds).length + left = (ds.length + left) + 1 := by
        rw [List.length_cons]
        omega
      have hassoc : pre ++ p :: (d :: ds ++ rest) = (pre ++ [p]) ++ d :: (ds ++ rest) := by simp
      have hplace : (pre ++ [p]).length = pre.length + 1 := by simp
      have hend : pre.length + 1 + (d :: ds).length = (pre ++ [p]).length + 1 + ds.length := by
        simp
        omega
      have hrest : ∀ e ∈ ds, e.GetFlag FL_DUP = true := fun e he =>
        hds e (List.mem_cons_of_mem d he)
      obtain ⟨need_hdr, headfn, inmatch, out⟩ := s
      obtain rfl : inmatch = true := hinmatch
      rw [hcount, reportLoop, List.cons_append, reportEntry_dup pre p d (ds ++ rest) hd,
        Option.bind_eq_bind, Option.bind_some, ← List.cons_append, hassoc, hend, ← hplace]
      by_cases hshown : (linkflag || !d.GetFlag FL_LNK) = true
      · have hlines : shownDups files linkflag (d :: ds) =
            dupLine files d :: shownDups files linkflag ds := by
          simp only [shownDups, List.filter_cons, hshown, if_true, List.map_cons]
        simp only [hshown, printDup_eq, if_true]
        rw [ih (pre ++ [p]) d hrest rfl, hlines]
        cases need_hdr <;> cases headfn <;> cases shownDups files linkflag ds <;>
          simp [stillDue, headed, dupLines, dupLine]
      · have hlines : shownDups files linkflag (d :: ds) = shownDups files linkflag ds := by
          rw [shownDups, List.filter_cons, if_neg hshown, shownDups]
        simp only [if_neg hshown, if_true]
        rw [ih (pre ++ [p]) d hrest rfl, hlines]

theorem groupLines_dup (p : FileDesc) (ds : List FileDesc) :
    groupLines files .dup (fun d => linkflag || !d.GetFlag FL_LNK) (p :: ds) =
      dupLines (some (files.getfn p.nameloc)) (shownDups files linkflag ds) := rfl

theorem stillDue_dupLines (need_hdr : Bool) (headfn : Option String) (shown : List Line) :
    stillDue need_hdr (dupLines headfn shown) = stillDue need_hdr shown := by
  cases shown <;> cases headfn <;> simp [stillDue, dupLines]

/-- After `FL_CRC` alone a group has ended. -/
theorem reportEntry_single (pre : List FileDesc) {p : FileDesc} {rest : List FileDesc}
    {s : ReportState} (hp : p.GetFlag FL_DUP = false) :
    reportEntry files linkflag (pre ++ p :: rest) pre.length s =
      some { s with inmatch := if p.flags = FL_CRC then false else s.inmatch } := by
  by_cases hcrc : p.flags = FL_CRC <;> simp [reportEntry, hp, hcrc]

/-- Out of a match, the name of the file before is taken. -/
theorem reportLoop_first (pre : List FileDesc) (p : FileDesc) {ds rest : List FileDesc}
    (hne : ds ≠ []) (hds : ∀ d ∈ ds, d.GetFlag FL_DUP = true) (left : Nat) {s : ReportState}
    (hinmatch : s.inmatch = false) :
    reportLoop files linkflag (pre ++ p :: (ds ++ rest)) (ds.length + left) (pre.length + 1) s =
      reportLoop files linkflag (pre ++ p :: (ds ++ rest)) (ds.length + left) (pre.length + 1)
        { s with headfn := some (files.getfn p.nameloc), inmatch := true } := by
  cases ds with
  | nil => exact absurd rfl hne
  | cons d ds =>
      have hcount : (d :: ds).length + left = (ds.length + left) + 1 := by
        rw [List.length_cons]
        omega
      have hd := hds d List.mem_cons_self
      rw [hcount, reportLoop, reportLoop, List.cons_append, reportEntry_dup pre p d (ds ++ rest) hd,
        reportEntry_dup pre p d (ds ++ rest) hd]
      simp [hinmatch]

/-- The lines for a list of groups, from one of its groups on. -/
theorem reportLoop_out {r : List FileDesc} (hr : Grouped content r) (done : List FileDesc)
    (s : ReportState) :
    ∃ s', reportLoop files linkflag (done ++ r) r.length done.length s = some s' ∧
      s'.out = s.out ++
        headed (.duplicates linkflag) s.need_hdr (dupListing files linkflag content r) := by
  induction hr generalizing done s with
  | nil => exact ⟨s, rfl, by simp [dupListing, groupsBy, headed]⟩
  | group p ds r first crc dups apart rest ih =>
      have hcontent : ∀ d ∈ ds, content d.nameloc = content p.nameloc := fun d hd => (dups d hd).2
      have hgroup := groupsBy_cons (f := fun e : FileDesc => content e.nameloc) hcontent
        fun e he => apart e (List.mem_of_head? he)
      have hassoc : (done ++ p :: ds) ++ r = done ++ p :: (ds ++ r) := by simp
      have hplace : (done ++ p :: ds).length = done.length + 1 + ds.length := by
        simp only [List.length_append, List.length_cons]
        omega
      rw [dupListing, hgroup, List.flatMap_cons, ← dupListing, groupLines_dup, headed_append,
        List.length_cons, List.length_append, reportLoop, reportEntry_single done first,
        Option.bind_eq_bind, Option.bind_some]
      by_cases hds : ds = []
      · subst hds
        obtain ⟨s', hscan, hout⟩ := ih (done ++ [p])
          { s with inmatch := if p.flags = FL_CRC then false else s.inmatch }
        refine ⟨s', ?_, ?_⟩
        · rw [← hscan, ← hassoc, hplace]
          simp
        · simpa [shownDups, dupLines, headed, stillDue] using hout
      · have hdup : ∀ d ∈ ds, d.GetFlag FL_DUP = true := fun d hd => (dups d hd).1
        rw [if_pos (crc hds), reportLoop_first done p hds hdup _ rfl,
          reportLoop_run done p ds r r.length hdup rfl]
        obtain ⟨s', hscan, hout⟩ := ih (done ++ p :: ds) _
        rw [hassoc, hplace] at hscan
        refine ⟨s', hscan, ?_⟩
        rw [hout, stillDue_dupLines, List.append_assoc]

end StarterProjects.Finddup
