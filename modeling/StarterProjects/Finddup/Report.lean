import StarterProjects.Finddup.Groups
import Mathlib.Data.List.SplitBy

/-!
# The duplicates that `scan3` lists

`scan3` knows the groups only by their flags: `FL_CRC` alone ends a group, and a duplicate after it
names the entry before it as the first of its group. On the groups that `scan2` leaves it prints
every class of equal files once (`reportLoop_grouped`).
-/

namespace StarterProjects.Finddup

open Lib

variable {γ : Type*} {content : Int → γ}

/-! ## The groups -/

theorem Grouped.contiguous {r : List FileDesc} (hr : Grouped content r) :
    Contiguous (fun e => content e.nameloc) r := by
  induction hr with
  | nil => exact Contiguous.nil
  | group p ds r first crc dups apart rest ih =>
      have hgroup : ∀ e ∈ p :: ds, content e.nameloc = content p.nameloc := by
        intro e he
        rcases List.mem_cons.mp he with rfl | hmem
        · rfl
        · exact (dups e hmem).2
      exact Contiguous.group_append hgroup apart ih

/-- The duplicates are the entries after the first of their class. -/
theorem Grouped.dup_iff {r : List FileDesc} (hr : Grouped content r) (xs : List FileDesc)
    {e : FileDesc} {ys : List FileDesc} (hsplit : r = xs ++ e :: ys) :
    e.GetFlag FL_DUP = true ↔ ∃ e' ∈ xs, content e'.nameloc = content e.nameloc := by
  induction hr generalizing xs with
  | nil => simp at hsplit
  | group p ds r first crc dups apart rest ih =>
      cases xs with
      | nil =>
          rw [List.nil_append, List.cons.injEq] at hsplit
          simp [← hsplit.1, first]
      | cons x xs =>
          rw [List.cons_append, List.cons.injEq] at hsplit
          obtain ⟨rfl, hsplit⟩ := hsplit
          rcases List.append_eq_append_iff.mp hsplit with ⟨as, hxs, hr⟩ | ⟨bs, hds, hr⟩
          · -- The entry is in a later group.
            have he := apart e (by simp [hr])
            rw [ih as hr]
            constructor
            · rintro ⟨e', he', heq⟩
              exact ⟨e', by simp [hxs, he'], heq⟩
            · rintro ⟨e', he', heq⟩
              rw [hxs] at he'
              rcases List.mem_cons.mp he' with rfl | hmem
              · exact absurd heq.symm he
              · rcases List.mem_append.mp hmem with hd | has
                · exact absurd (heq.symm.trans (dups e' hd).2) he
                · exact ⟨e', has, heq⟩
          · cases bs with
            | nil =>
                rw [List.nil_append] at hr
                have he := apart e (by simp [← hr])
                have hfirst := ih [] hr.symm
                rw [hfirst]
                constructor
                · rintro ⟨e', he', -⟩
                  exact absurd he' List.not_mem_nil
                · rintro ⟨e', he', heq⟩
                  rw [List.append_nil] at hds
                  rcases List.mem_cons.mp he' with rfl | hmem
                  · exact absurd heq.symm he
                  · exact absurd (heq.symm.trans (dups e' (hds ▸ hmem)).2) he
            | cons b bs =>
                rw [List.cons_append, List.cons.injEq] at hr
                obtain ⟨rfl, -⟩ := hr
                have he := dups e (by simp [hds])
                exact ⟨fun _ => ⟨p, List.mem_cons_self, he.2.symm⟩, fun _ => he.1⟩

/-! ## What is to be printed -/

variable [DecidableEq γ] (content) (files : Files)

/-- The classes of files with equal contents, where these are contiguous. -/
def classes (l : List FileDesc) : List (List FileDesc) :=
  l.splitBy fun a b => decide (content a.nameloc = content b.nameloc)

def dupLine (e : FileDesc) : Line := .dup (files.getfn e.nameloc)

/-- A class of two files or more: its first file, and the others. -/
def classLines : List FileDesc → List Line
  | p :: d :: ds => .file (files.getfn p.nameloc) :: (d :: ds).map (dupLine files)
  | _ => []

/-- The lines with their heading, unless there are none or it has been printed. -/
def withHeading (need_hdr : Bool) (lines : List Line) : List Line :=
  if lines = [] then [] else if need_hdr then .duplicates true :: lines else lines

def dupReport (l : List FileDesc) : List Line := (classes content l).flatMap (classLines files)

variable {content}

/-- A group is a class. -/
theorem classes_group {p : FileDesc} {ds r : List FileDesc}
    (hds : ∀ d ∈ ds, content d.nameloc = content p.nameloc)
    (hr : ∀ e ∈ r, content e.nameloc ≠ content p.nameloc) :
    classes content (p :: (ds ++ r)) = (p :: ds) :: classes content r := by
  have hall : ∀ e ∈ p :: ds, content e.nameloc = content p.nameloc := by
    intro e he
    rcases List.mem_cons.mp he with rfl | hmem
    · rfl
    · exact hds e hmem
  have hbreak : ∀ x ∈ (p :: ds).getLast?, ∀ y ∈ r.head?,
      decide (content x.nameloc = content y.nameloc) = false := by
    intro x hx y hy
    have hxp := hall x (List.mem_of_getLast? hx)
    have hyp := hr y (List.mem_of_head? hy)
    exact decide_eq_false fun heq => hyp (heq.symm.trans hxp)
  have hchain : (p :: ds).IsChain fun a b =>
      decide (content a.nameloc = content b.nameloc) = true := by
    refine List.Pairwise.isChain (List.pairwise_of_forall_mem_list fun a ha b hb => ?_)
    exact decide_eq_true ((hall a ha).trans (hall b hb).symm)
  have hsplit := List.splitBy_append hbreak
  rw [List.splitBy_of_isChain (List.cons_ne_nil p ds) hchain] at hsplit
  exact hsplit

theorem dupReport_group {p : FileDesc} {ds r : List FileDesc}
    (hds : ∀ d ∈ ds, content d.nameloc = content p.nameloc)
    (hr : ∀ e ∈ r, content e.nameloc ≠ content p.nameloc) :
    dupReport content files (p :: (ds ++ r)) =
      classLines files (p :: ds) ++ dupReport content files r := by
  rw [dupReport, classes_group hds hr, List.flatMap_cons, dupReport]

/-! ## The loop -/

theorem flags_ne_of_dup {e : FileDesc} (h : e.GetFlag FL_DUP = true) : e.flags ≠ FL_CRC := by
  intro hflags
  simp [FileDesc.GetFlag, hflags, FL_CRC, FL_DUP] at h

/-- The duplicates of a group after its first. -/
theorem reportLoop_dups (pre ds r : List FileDesc) {s : ReportState} (left : Nat)
    (hds : ∀ d ∈ ds, d.GetFlag FL_DUP = true) (hhdr : s.need_hdr = false)
    (hheadfn : s.headfn = none) (hinmatch : s.inmatch = true) :
    reportLoop files true (pre ++ (ds ++ r)) (ds.length + left) pre.length s =
      reportLoop files true (pre ++ (ds ++ r)) left (pre.length + ds.length)
        { s with out := s.out ++ ds.map (dupLine files) } := by
  induction ds generalizing pre s with
  | nil => simp
  | cons d ds ih =>
      have hd := hds d List.mem_cons_self
      have hentry : reportEntry files true (pre ++ (d :: ds ++ r)) pre.length s =
          some { s with out := s.out ++ [dupLine files d] } := by
        obtain ⟨need_hdr, headfn, inmatch, out⟩ := s
        subst hhdr hheadfn hinmatch
        simp [reportEntry, flags_ne_of_dup hd, hd, ReportState.printDup, dupLine]
      have hrest := ih (pre ++ [d]) (s := { s with out := s.out ++ [dupLine files d] })
        (fun e he => hds e (List.mem_cons_of_mem d he)) hhdr hheadfn hinmatch
      have hcount : (d :: ds).length + left = (ds.length + left) + 1 := by
        rw [List.length_cons]
        omega
      have hplace : (pre ++ [d]).length = pre.length + 1 := by simp
      have hend : pre.length + 1 + ds.length = pre.length + (d :: ds).length := by
        rw [List.length_cons]
        omega
      have hassoc : (pre ++ [d]) ++ (ds ++ r) = pre ++ (d :: ds ++ r) := by simp
      rw [hassoc, hplace, hend] at hrest
      rw [hcount, reportLoop, hentry, Option.bind_eq_bind, Option.bind_some, hrest]
      simp

/-- The first duplicate of a group prints its first file. -/
theorem reportEntry_first (pre : List FileDesc) (p : FileDesc) {d : FileDesc}
    (rest : List FileDesc) {s : ReportState} (hd : d.GetFlag FL_DUP = true)
    (hinmatch : s.inmatch = false) :
    reportEntry files true (pre ++ p :: d :: rest) (pre.length + 1) s =
      some { need_hdr := false, headfn := none, inmatch := true,
             out := s.out ++ (if s.need_hdr then [.duplicates true] else []) ++
               [.file (files.getfn p.nameloc), dupLine files d] } := by
  have hentry : (pre ++ p :: d :: rest)[pre.length + 1]? = some d := by simp
  have hbefore : (pre ++ p :: d :: rest)[pre.length + 1 - 1]? = some p := by simp
  obtain ⟨need_hdr, headfn, inmatch, out⟩ := s
  subst hinmatch
  simp only [reportEntry, hentry, hbefore, Option.bind_eq_bind, Option.bind_some,
    if_neg (flags_ne_of_dup hd), hd]
  cases need_hdr <;> simp [ReportState.printDup, dupLine]

/-- An entry that is no duplicate prints nothing; after `FL_CRC` alone a group has ended. -/
theorem reportEntry_plain (pre : List FileDesc) {p : FileDesc} {rest : List FileDesc}
    {s : ReportState} (hp : p.GetFlag FL_DUP = false) :
    reportEntry files true (pre ++ p :: rest) pre.length s =
      some { s with inmatch := if p.flags = FL_CRC then false else s.inmatch } := by
  by_cases hcrc : p.flags = FL_CRC <;> simp [reportEntry, hp, hcrc]

theorem withHeading_append {need_hdr : Bool} {xs ys : List Line} (h : xs ≠ []) :
    withHeading need_hdr (xs ++ ys) =
      (if need_hdr then [.duplicates true] else []) ++ xs ++ withHeading false ys := by
  by_cases hys : ys = []
  · cases need_hdr <;> simp [withHeading, h, hys]
  · cases need_hdr <;> simp [withHeading, h, hys]

/-- The lines for a list of groups, from one of its groups on. -/
theorem reportLoop_grouped {r : List FileDesc} (hr : Grouped content r) (done : List FileDesc)
    {s : ReportState} (hs : s.headfn = none) :
    ∃ s', reportLoop files true (done ++ r) r.length done.length s = some s' ∧
      s'.out = s.out ++ withHeading s.need_hdr (dupReport content files r) := by
  induction hr generalizing done s with
  | nil => exact ⟨s, rfl, by simp [dupReport, classes, withHeading]⟩
  | group p ds r first crc dups apart rest ih =>
      have hcontent : ∀ d ∈ ds, content d.nameloc = content p.nameloc := fun d hd => (dups d hd).2
      rw [dupReport_group files hcontent apart, List.length_cons, reportLoop,
        reportEntry_plain files done first, Option.bind_eq_bind, Option.bind_some]
      -- a file on its own prints nothing; the first duplicate prints the file before it
      cases ds with
      | nil =>
          have hnext := ih (done ++ [p])
            (s := { s with inmatch := if p.flags = FL_CRC then false else s.inmatch }) hs
          have hplace : (done ++ [p]).length = done.length + 1 := by simp
          have hassoc : (done ++ [p]) ++ r = done ++ p :: ([] ++ r) := by simp
          rw [hplace, hassoc] at hnext
          exact hnext
      | cons d ds =>
          have hd := (dups d List.mem_cons_self).1
          have hrest : ∀ e ∈ ds, e.GetFlag FL_DUP = true := fun e he =>
            (dups e (List.mem_cons_of_mem d he)).1
          rw [if_pos (crc (List.cons_ne_nil d ds))]
          have hcount : (d :: ds ++ r).length = (ds.length + r.length) + 1 := by simp
          have hfirst := reportEntry_first files done p (ds ++ r)
            (s := { s with inmatch := false }) hd rfl
          have hdups := reportLoop_dups files (done ++ [p, d]) ds r
            (s := { need_hdr := false, headfn := none, inmatch := true,
                    out := s.out ++ (if s.need_hdr then [.duplicates true] else []) ++
                      [.file (files.getfn p.nameloc), dupLine files d] }) r.length hrest rfl rfl rfl
          obtain ⟨s', hscan, hout⟩ := ih (done ++ p :: d :: ds)
            (s := { need_hdr := false, headfn := none, inmatch := true,
                    out := s.out ++ (if s.need_hdr then [.duplicates true] else []) ++
                      [.file (files.getfn p.nameloc), dupLine files d] ++
                      ds.map (dupLine files) }) rfl
          have hplace : (done ++ [p, d]).length = done.length + 1 + 1 := by simp
          have hplace' : (done ++ p :: d :: ds).length = done.length + 1 + 1 + ds.length := by
            simp only [List.length_append, List.length_cons]
            omega
          have hassoc : (done ++ [p, d]) ++ (ds ++ r) = done ++ p :: d :: (ds ++ r) := by simp
          have hassoc' : (done ++ p :: d :: ds) ++ r = done ++ p :: d :: (ds ++ r) := by simp
          rw [hplace, hassoc] at hdups
          rw [hplace', hassoc'] at hscan
          refine ⟨s', ?_, ?_⟩
          · rw [hcount, List.cons_append, reportLoop, hfirst, Option.bind_eq_bind, Option.bind_some,
              hdups, hscan]
          · rw [hout, withHeading_append (by simp [classLines])]
            simp [classLines]

end StarterProjects.Finddup
