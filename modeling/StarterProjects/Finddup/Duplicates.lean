import StarterProjects.Finddup.Report

/-!
# The scans from the sorted list

On a list in the order that the sort leaves, `scan2` makes groups of the files with equal contents,
marks links and duplicates, and `scan3` prints the groups (`scan2_scan3`).
-/

namespace StarterProjects.Finddup

open Lib

variable {γ : Type*} (content : Int → γ) (files : Files)

/-- What the scans are given: entries of one size and checksum are contiguous, and in such a run the
entries of one inode are; checksums have been taken wherever a length is shared; and files are
compared by their contents, which links and equal checksums agree with. -/
structure Scannable (filelist : List FileDesc) : Prop where
  comparable : Comparable content files filelist
  links : ∀ key, Contiguous FileDesc.inodeOf (filelist.filter fun e => decide (e.sizeCrc = key))
  linked : ∀ a ∈ filelist, ∀ b ∈ filelist, a.inodeOf = b.inodeOf →
    content a.nameloc = content b.nameloc
  flags : ∀ e ∈ filelist, e.flags = 0 ∨ e.flags = FL_CRC
  shared : filelist.Pairwise fun a b => a.length = b.length → a.flags = FL_CRC ∧ b.flags = FL_CRC

variable {content} {files} {filelist : List FileDesc}

/-- Links have one size and checksum, so they are contiguous in the whole list. -/
theorem Scannable.contiguous (h : Scannable content files filelist) :
    Contiguous FileDesc.inodeOf filelist := by
  intro a b c hsub heq
  have hmem : ∀ e ∈ [a, b, c], e ∈ filelist := fun e he => hsub.subset he
  have ha := hmem a (by simp)
  have hc := hmem c (by simp)
  have hac := h.comparable.sizeCrc a ha c hc (h.linked a ha c hc heq)
  have hba := h.comparable.contiguous a b c hsub hac
  refine h.links a.sizeCrc a b c ?_ heq
  have hrun : [a, b, c].filter (fun e => decide (e.sizeCrc = a.sizeCrc)) = [a, b, c] := by
    simp [hba, ← hac]
  rw [← hrun]
  exact hsub.filter _

theorem mem_linkedAfter {seen l : List FileDesc} {e : FileDesc} (h : e ∈ linkedAfter seen l) :
    ∃ e₀ ∈ l, e = e₀ ∨ e = e₀.link := by
  induction l generalizing seen with
  | nil => exact absurd h List.not_mem_nil
  | cons x l ih =>
      rw [linkedAfter] at h
      rcases List.mem_cons.mp h with hx | htail
      · refine ⟨x, List.mem_cons_self, ?_⟩
        split_ifs at hx
        · exact Or.inr hx
        · exact Or.inl hx
      · obtain ⟨e₀, he₀, heq⟩ := ih htail
        exact ⟨e₀, List.mem_cons_of_mem x he₀, heq⟩

/-- The marks change neither the names nor what is compared. -/
theorem Comparable.linkedAfter {seen : List FileDesc} (h : Comparable content files filelist) :
    Comparable content files (linkedAfter seen filelist) := by
  have hold : ∀ e ∈ Finddup.linkedAfter seen filelist,
      ∃ e₀ ∈ filelist, e.nameloc = e₀.nameloc ∧ e.sizeCrc = e₀.sizeCrc := by
    intro e he
    obtain ⟨e₀, he₀, rfl | rfl⟩ := mem_linkedAfter he
    · exact ⟨e, he₀, rfl, rfl⟩
    · exact ⟨e₀, he₀, rfl, rfl⟩
  refine ⟨h.contiguous.of_map_eq (linkedAfter_map (fun _ => rfl) seen filelist), ?_, ?_⟩
  · intro a ha b hb
    obtain ⟨a₀, ha₀, haname, -⟩ := hold a ha
    obtain ⟨b₀, hb₀, hbname, -⟩ := hold b hb
    rw [haname, hbname]
    exact h.fullcmp a₀ ha₀ b₀ hb₀
  · intro a ha b hb
    obtain ⟨a₀, ha₀, haname, hakey⟩ := hold a ha
    obtain ⟨b₀, hb₀, hbname, hbkey⟩ := hold b hb
    rw [haname, hbname, hakey, hbkey]
    exact h.sizeCrc a₀ ha₀ b₀ hb₀

theorem link_GetFlag (e : FileDesc) : e.link.GetFlag FL_LNK = true := by
  have h : ∀ f : BitVec 8, (f ||| 0x04) &&& 0x04 ≠ 0 := by decide +kernel
  exact decide_eq_true (h e.flags)

theorem link_GetFlag_crc (e : FileDesc) : e.link.GetFlag FL_CRC = e.GetFlag FL_CRC := by
  have h : ∀ f : BitVec 8, (f ||| 0x04) &&& 0x01 = f &&& 0x01 := by decide +kernel
  exact congrArg (fun f => decide (f ≠ 0)) (h e.flags)

theorem Scannable.unmarked (h : Scannable content files filelist) (seen : List FileDesc) :
    Unmarked (linkedAfter seen filelist) where
  noDup := by
    intro e he
    obtain ⟨e₀, he₀, rfl | rfl⟩ := mem_linkedAfter he
    · rcases h.flags e he₀ with hflags | hflags <;> simp [FileDesc.GetFlag, hflags, FL_DUP, FL_CRC]
    · rcases h.flags e₀ he₀ with hflags | hflags <;>
        simp [FileDesc.GetFlag, FileDesc.link, FileDesc.SetFlag, hflags, FL_DUP, FL_CRC, FL_LNK]
  plain := by
    intro e he hlnk
    obtain ⟨e₀, he₀, rfl | rfl⟩ := mem_linkedAfter he
    · exact h.flags e he₀
    · rw [link_GetFlag] at hlnk
      exact absurd hlnk (by simp)
  shared := by
    have hvalues := linkedAfter_map (f := fun e => (e.length, e.GetFlag FL_CRC))
      (fun e => congrArg (Prod.mk e.length) (link_GetFlag_crc e)) seen filelist
    have hpairs : ((linkedAfter seen filelist).map fun e => (e.length, e.GetFlag FL_CRC)).Pairwise
        fun a b => a.1 = b.1 → a.2 = true ∧ b.2 = true := by
      rw [hvalues, List.pairwise_map]
      refine h.shared.imp fun {a b} hab hlength => ?_
      obtain ⟨ha, hb⟩ := hab hlength
      constructor
      · simp [FileDesc.GetFlag, ha, FL_CRC]
      · simp [FileDesc.GetFlag, hb, FL_CRC]
    exact List.pairwise_map.mp hpairs

variable [DecidableEq γ]

/-- `scan2` leaves the entries with the links marked, in another order: equal contents are
contiguous, and an entry is a duplicate where its content occurred earlier. `scan3`, with links
shown, prints every class of two files or more once. -/
theorem scan2_scan3 (h : Scannable content files filelist) (linkflag : Bool) :
    ∃ r out, scan2 files linkflag filelist = some (r, out) ∧
      (r.map FileDesc.clearDup).Perm (linkedAfter [] filelist) ∧
      Contiguous (fun e => content e.nameloc) r ∧
      (∀ xs e ys, r = xs ++ e :: ys →
        (e.GetFlag FL_DUP = true ↔ ∃ e' ∈ xs, content e'.nameloc = content e.nameloc)) ∧
      scan3 files true r = some (withHeading true (dupReport content files r)) := by
  have hlinks : ∀ e ∈ filelist, e.GetFlag FL_LNK = false := by
    intro e he
    rcases h.flags e he with hflags | hflags <;> simp [FileDesc.GetFlag, hflags, FL_LNK, FL_CRC]
  obtain ⟨s, hscan, hs⟩ := linkScan_eq files linkflag filelist.length [] [] filelist
    (filelist.length + 1) { filelist := filelist } le_rfl
    (Nat.lt_succ_self _) h.contiguous (fun e he => absurd he List.not_mem_nil) rfl
  have hlink : LinkOk content none (linkedAfter [] filelist) :=
    linkedAfter_linkOk [] h.contiguous hlinks h.linked
  have hlen : (linkedAfter [] filelist).length = filelist.length := by
    have hmap := congrArg List.length
      (linkedAfter_map (f := FileDesc.length) (fun _ => rfl) [] filelist)
    rwa [List.length_map, List.length_map] at hmap
  obtain ⟨r, hdups, hr, hperm⟩ := dupScan_eq filelist.length [] (filelist.length + 1)
    hlen.le (by omega) h.comparable.linkedAfter hlink (h.unmarked [])
  obtain ⟨s', hreport, hout⟩ := reportLoop_grouped files hr [] (s := {}) rfl
  refine ⟨r, s.out, ?_, hperm, hr.contiguous, fun xs e ys hsplit => hr.dup_iff xs hsplit, ?_⟩
  · simp only [List.length_nil, Nat.zero_add, List.nil_append] at hscan hs hdups
    rw [hlen] at hdups
    simp only [scan2, hscan, hs, hdups, Option.bind_eq_bind, Option.bind_some]
    rfl
  · simp only [List.nil_append, List.length_nil] at hreport hout
    simp only [scan3, hreport, Option.bind_eq_bind, Option.bind_some, hout]
    rfl

/-- Four files of one size and checksum, with the content of `nameloc / 10`; the last two are
links. -/
def fourFiles : List FileDesc :=
  [⟨5, 7, 1, 1, 10, FL_CRC⟩, ⟨5, 7, 1, 2, 20, FL_CRC⟩, ⟨5, 7, 1, 3, 11, FL_CRC⟩,
    ⟨5, 7, 1, 3, 12, FL_CRC⟩]

def byTens : Files where
  getfn nameloc := if nameloc / 10 = 1 then "one" else "two"
  fullcmp a b := a / 10 - b / 10

theorem scan2_scan3_fourFiles :
    ∃ r out, scan2 byTens false fourFiles = some (r, out) ∧
      (r.map FileDesc.clearDup).Perm (linkedAfter [] fourFiles) ∧
      Contiguous (fun e => e.nameloc / 10) r ∧
      (∀ xs e ys, r = xs ++ e :: ys →
        (e.GetFlag FL_DUP = true ↔ ∃ e' ∈ xs, e'.nameloc / 10 = e.nameloc / 10)) ∧
      scan3 byTens true r = some (withHeading true (dupReport (· / 10) byTens r)) := by
  have hkey : Contiguous FileDesc.sizeCrc (fourFiles ++ []) :=
    Contiguous.group_append (v := (5, 7)) (by decide) (by simp) Contiguous.nil
  have hinode : Contiguous FileDesc.inodeOf fourFiles := by
    have hthird : Contiguous FileDesc.inodeOf (fourFiles.drop 2 ++ []) :=
      Contiguous.group_append (v := (1, 3)) (by decide) (by simp) Contiguous.nil
    have hsecond : Contiguous FileDesc.inodeOf ((fourFiles.drop 1).take 1 ++ fourFiles.drop 2) :=
      Contiguous.group_append (v := (1, 2)) (by decide) (by decide) hthird
    have hfirst : Contiguous FileDesc.inodeOf (fourFiles.take 1 ++ fourFiles.drop 1) :=
      Contiguous.group_append (v := (1, 1)) (by decide) (by decide) hsecond
    exact hfirst
  have h : Scannable (· / 10) byTens fourFiles := by
    refine ⟨⟨hkey, ?_, ?_⟩, ?_, ?_, ?_, ?_⟩
    · decide
    · decide
    · exact fun key => hinode.sublist List.filter_sublist
    · decide
    · decide
    · decide
  exact scan2_scan3 h false

end StarterProjects.Finddup
