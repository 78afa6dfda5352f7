import StarterProjects.Finddup.Links
import Mathlib.Data.List.Induction
import Mathlib.Data.List.Perm.Basic

/-!
# The groups that `scan2` makes

One round of the second loop of `scan2` brings the entries with the content of its first entry
forward, marks them, and leaves the other entries in their order behind them (`markDups_eq`). When
the first entry after it matches already, the place of the last match is not advanced, and the next
round starts at a duplicate; it finds nothing. The array ends as a list of groups (`dupScan_eq`).
-/

namespace StarterProjects.Finddup

open Lib

/-! ## Shifting -/

/-- The place that the shift frees holds the entry that was there, until it is overwritten. -/
theorem shiftUp_eq (xs ys : List FileDesc) (x : FileDesc) (zs : List FileDesc) :
    ∃ e, shiftUp ys.length (xs.length + ys.length) (xs ++ (ys ++ x :: zs)) =
      some (xs ++ e :: (ys ++ zs)) := by
  induction ys using List.reverseRecOn generalizing x zs with
  | nil => exact ⟨x, rfl⟩
  | append_singleton front y ih =>
      have hlast : (xs ++ ((front ++ [y]) ++ x :: zs))[xs.length + (front ++ [y]).length - 1]? =
          some y := by
        have hassoc : xs ++ ((front ++ [y]) ++ x :: zs) = (xs ++ front) ++ y :: x :: zs := by simp
        have hplace : xs.length + (front ++ [y]).length - 1 = (xs ++ front).length := by simp
        rw [hassoc, hplace, getElem?_at]
      have hset : (xs ++ ((front ++ [y]) ++ x :: zs)).set (xs.length + (front ++ [y]).length) y =
          xs ++ (front ++ y :: y :: zs) := by
        have hassoc : xs ++ ((front ++ [y]) ++ x :: zs) =
          (xs ++ (front ++ [y])) ++ x :: zs := by simp
        have hplace : xs.length + (front ++ [y]).length = (xs ++ (front ++ [y])).length := by simp
        rw [hassoc, hplace, set_at]
        simp
      have hcount : (front ++ [y]).length = front.length + 1 := by simp
      obtain ⟨e, he⟩ := ih y (y :: zs)
      refine ⟨e, ?_⟩
      rw [hcount, shiftUp]
      rw [← hcount, hlast, Option.bind_eq_bind, Option.bind_some, hset, hcount,
        show xs.length + (front.length + 1) - 1 = xs.length + front.length by omega, he]
      simp

/-- The entry at the end of `ys` comes before them. -/
theorem moveTo_eq (xs ys : List FileDesc) (x : FileDesc) (zs : List FileDesc) :
    moveTo xs.length (xs.length + ys.length) (xs ++ (ys ++ x :: zs)) =
      some (xs ++ x :: (ys ++ zs)) := by
  have hx : (xs ++ (ys ++ x :: zs))[xs.length + ys.length]? = some x := by
    have h := getElem?_at (xs ++ ys) x zs
    rwa [List.append_assoc, List.length_append] at h
  obtain ⟨e, he⟩ := shiftUp_eq xs ys x zs
  simp only [moveTo, hx, Option.bind_eq_bind, Option.bind_some, Nat.add_sub_cancel_left, he]
  rw [set_at]
  rfl

/-! ## One round -/

/-- What the contiguous entries have in common. -/
def FileDesc.sizeCrc (e : FileDesc) : Int × Nat := (e.length, e.crc32)

def FileDesc.dup (e : FileDesc) : FileDesc := e.SetFlag FL_DUP

variable {γ : Type*} (content : Int → γ)

/-- What the scan relies on for a part of the array: the order, and that the comparison of two
files tells their contents apart. -/
structure Comparable (files : Files) (l : List FileDesc) : Prop where
  contiguous : Contiguous FileDesc.sizeCrc l
  fullcmp : ∀ a ∈ l, ∀ b ∈ l,
    files.fullcmp a.nameloc b.nameloc = 0 ↔ content a.nameloc = content b.nameloc
  sizeCrc : ∀ a ∈ l, ∀ b ∈ l, content a.nameloc = content b.nameloc → a.sizeCrc = b.sizeCrc

variable {content} {files : Files}

theorem Comparable.sublist {l l' : List FileDesc} (h : Comparable content files l)
    (hl : l'.Sublist l) : Comparable content files l' where
  contiguous := h.contiguous.sublist hl
  fullcmp := fun a ha b hb => h.fullcmp a (hl.subset ha) b (hl.subset hb)
  sizeCrc := fun a ha b hb => h.sizeCrc a (hl.subset ha) b (hl.subset hb)

/-- After the entries of one size and checksum there is none with the content of the first. -/
theorem Comparable.ne_of_mem_dropWhile {p e : FileDesc} {T : List FileDesc}
    (h : Comparable content files (p :: T))
    (he : e ∈ T.dropWhile fun y => decide (p.sizeCrc = y.sizeCrc)) :
    content e.nameloc ≠ content p.nameloc := by
  intro heq
  have hmem : e ∈ T := (List.dropWhile_sublist _).subset he
  exact h.contiguous.ne_of_mem_dropWhile he
    (h.sizeCrc e (List.mem_cons_of_mem p hmem) p List.mem_cons_self heq).symm

/-- The test of the inner loop, with its shortcut for links, says that the contents are equal. -/
theorem match_iff {prev : Option γ} {lnkmatch : Bool} {p x : FileDesc} {T : List FileDesc}
    (hlink : LinkOk content prev (x :: T))
    (hprev : lnkmatch = true → prev = some (content p.nameloc))
    (hcmp : files.fullcmp p.nameloc x.nameloc = 0 ↔ content p.nameloc = content x.nameloc) :
    ((x.GetFlag FL_LNK && lnkmatch) || files.fullcmp p.nameloc x.nameloc == 0) = true ↔
      content x.nameloc = content p.nameloc := by
  rw [Bool.or_eq_true, Bool.and_eq_true, beq_iff_eq, hcmp]
  constructor
  · rintro (⟨hlnk, hmatch⟩ | heq)
    · have h := (hlink.1 hlnk).symm.trans (hprev hmatch)
      exact Option.some.inj h
    · exact heq.symm
  · intro heq
    exact Or.inr heq.symm

variable [DecidableEq γ] (content)

/-- The entries with the content of `p`, marked. -/
def dupsOf (p : FileDesc) (rest : List FileDesc) : List FileDesc :=
  (rest.filter fun e => decide (content e.nameloc = content p.nameloc)).map FileDesc.dup

/-- The entries with another content. -/
def others (p : FileDesc) (rest : List FileDesc) : List FileDesc :=
  rest.filter fun e => decide (content e.nameloc ≠ content p.nameloc)

section

variable {content} {p e : FileDesc} {rest : List FileDesc}

theorem dupsOf_cons_of_eq (h : content e.nameloc = content p.nameloc) :
    dupsOf content p (e :: rest) = e.dup :: dupsOf content p rest := by
  simp [dupsOf, h]

theorem dupsOf_cons_of_ne (h : content e.nameloc ≠ content p.nameloc) :
    dupsOf content p (e :: rest) = dupsOf content p rest := by
  simp [dupsOf, h]

theorem others_cons_of_eq (h : content e.nameloc = content p.nameloc) :
    others content p (e :: rest) = others content p rest := by
  simp [others, h]

theorem others_cons_of_ne (h : content e.nameloc ≠ content p.nameloc) :
    others content p (e :: rest) = e :: others content p rest := by
  simp [others, h]

theorem dupsOf_eq_nil (h : ∀ e ∈ rest, content e.nameloc ≠ content p.nameloc) :
    dupsOf content p rest = [] := by
  rw [dupsOf, List.filter_eq_nil_iff.mpr fun e he => by simpa using h e he, List.map_nil]

theorem others_eq_self (h : ∀ e ∈ rest, content e.nameloc ≠ content p.nameloc) :
    others content p rest = rest :=
  List.filter_eq_self.mpr fun e he => decide_eq_true (h e he)

theorem mem_others (h : e ∈ others content p rest) :
    e ∈ rest ∧ content e.nameloc ≠ content p.nameloc := by
  simpa [others] using h

end

variable {content}

/-- The inner loop from the entries `T` on, when `M` are the matches brought forward so far, `D` is
the match that was in place already, and `N` are the entries passed over. -/
def markFrom (files : Files) (pre : List FileDesc) (p : FileDesc) (M D N T : List FileDesc)
    (lnkmatch : Bool) : Option (Nat × List FileDesc) :=
  markDups files pre.length T.length (pre.length + 1 + M.length + D.length + N.length)
    (pre.length + 1 + M.length) lnkmatch (pre ++ p :: (M ++ (D ++ (N ++ T))))

/-- One entry. A match that is in place stays, and `lastix` with it; another comes to the place
after the earlier ones. -/
theorem markFrom_cons (pre : List FileDesc) (p x : FileDesc) (M D N T : List FileDesc)
    (lnkmatch : Bool) :
    markFrom files pre p M D N (x :: T) lnkmatch =
      if p.length = x.length ∧ p.crc32 = x.crc32 then
        if (x.GetFlag FL_LNK && lnkmatch) || files.fullcmp p.nameloc x.nameloc == 0 then
          if D = [] ∧ N = [] then markFrom files pre p M [x.dup] [] T true
          else markFrom files pre p (M ++ [x.dup]) D N T true
        else markFrom files pre p M D (N ++ [x]) T false
      else some (pre.length + 1 + M.length, pre ++ p :: (M ++ (D ++ (N ++ x :: T)))) := by
  have hp : (pre ++ p :: (M ++ (D ++ (N ++ x :: T))))[pre.length]? = some p := getElem?_at pre p _
  have hassoc : pre ++ p :: (M ++ (D ++ (N ++ x :: T))) =
      (pre ++ p :: (M ++ (D ++ N))) ++ x :: T := by simp
  have hplace : pre.length + 1 + M.length + D.length + N.length =
      (pre ++ p :: (M ++ (D ++ N))).length := by
    simp only [List.length_append, List.length_cons]
    omega
  have hx : (pre ++ p :: (M ++ (D ++ (N ++ x :: T))))[pre.length + 1 + M.length + D.length +
      N.length]? = some x := by
    rw [hassoc, hplace, getElem?_at]
  have hset : SetFlag (pre ++ p :: (M ++ (D ++ (N ++ x :: T))))
      (pre.length + 1 + M.length + D.length + N.length) FL_DUP =
        some (pre ++ p :: (M ++ (D ++ (N ++ x.dup :: T)))) := by
    rw [hassoc, hplace, SetFlag_at]
    simp [FileDesc.dup]
  rw [markFrom, List.length_cons, markDups, hp, hx]
  simp only [Option.bind_eq_bind, Option.bind_some, hset]
  refine if_congr Iff.rfl (if_congr Iff.rfl ?_ ?_) rfl
  · -- a match right behind the group stays in place, another one is moved there
    by_cases hinplace : D = [] ∧ N = []
    · obtain ⟨rfl, rfl⟩ := hinplace
      rw [if_neg (by simp), if_pos ⟨rfl, rfl⟩]
      rfl
    · have hne : pre.length + 1 + M.length ≠
          pre.length + 1 + M.length + D.length + N.length := by
        intro hlen
        have hDN : D.length = 0 ∧ N.length = 0 := by omega
        exact hinplace ⟨List.length_eq_zero_iff.mp hDN.1, List.length_eq_zero_iff.mp hDN.2⟩
      have hmove := moveTo_eq (pre ++ p :: M) (D ++ N) x.dup T
      have hlast : (pre ++ p :: M).length = pre.length + 1 + M.length := by
        simp only [List.length_append, List.length_cons]
        omega
      have hix2 : pre.length + 1 + M.length + (D ++ N).length =
          pre.length + 1 + M.length + D.length + N.length := by
        rw [List.length_append]
        omega
      have hfrom : (pre ++ p :: M) ++ ((D ++ N) ++ x.dup :: T) =
          pre ++ p :: (M ++ (D ++ (N ++ x.dup :: T))) := by simp
      have hto : (pre ++ p :: M) ++ x.dup :: ((D ++ N) ++ T) =
          pre ++ p :: ((M ++ [x.dup]) ++ (D ++ (N ++ T))) := by simp
      have hlen : pre.length + 1 + (M ++ [x.dup]).length = pre.length + 1 + M.length + 1 := by
        simp
        omega
      have hlen' : pre.length + 1 + M.length + 1 + D.length + N.length =
          pre.length + 1 + M.length + D.length + N.length + 1 := by omega
      rw [hlast, hix2, hfrom, hto] at hmove
      rw [if_pos hne, if_neg hinplace, hmove, Option.bind_some, markFrom, hlen, hlen']
  · simp [markFrom, Nat.add_assoc]

/-- The loop ends with all matches in front. The invariant: `lnkmatch` says that the entry before
matched, and at most one match was in place already. -/
theorem markDups_eq (pre : List FileDesc) (p : FileDesc) {M D N T : List FileDesc}
    {prev : Option γ} (lnkmatch : Bool)
    (hcmp : ∀ e ∈ T, files.fullcmp p.nameloc e.nameloc = 0 ↔ content p.nameloc = content e.nameloc)
    (hpast : ∀ e ∈ T.dropWhile fun y => decide (p.sizeCrc = y.sizeCrc),
      content e.nameloc ≠ content p.nameloc)
    (hlink : LinkOk content prev T) (hprev : lnkmatch = true → prev = some (content p.nameloc))
    (hD : D.length ≤ 1) (hM : D = [] → N = [] → M = []) :
    ∃ M' D', markFrom files pre p M D N T lnkmatch =
        some (pre.length + 1 + M'.length,
          pre ++ p :: (M' ++ (D' ++ (N ++ others content p T)))) ∧
      D'.length ≤ 1 ∧ (M' ++ D').Perm (M ++ D ++ dupsOf content p T) := by
  induction T generalizing M D N prev lnkmatch with
  | nil => exact ⟨M, D, by simp [markFrom, markDups, others], hD, by simp [dupsOf]⟩
  | cons x T ih =>
      have hrest : ∀ e ∈ T, files.fullcmp p.nameloc e.nameloc = 0 ↔
          content p.nameloc = content e.nameloc := fun e he =>
        hcmp e (List.mem_cons_of_mem x he)
      rw [markFrom_cons]
      by_cases hkey : p.length = x.length ∧ p.crc32 = x.crc32
      · have htest := match_iff hlink hprev (hcmp x List.mem_cons_self)
        have hrun : (x :: T).dropWhile (fun y => decide (p.sizeCrc = y.sizeCrc)) =
            T.dropWhile fun y => decide (p.sizeCrc = y.sizeCrc) :=
          List.dropWhile_cons_of_pos (by simpa [FileDesc.sizeCrc] using hkey)
        rw [hrun] at hpast
        rw [if_pos hkey]
        -- `x` is marked, and moved to the earlier matches if it is not behind them
        by_cases heq : content x.nameloc = content p.nameloc
        · have hprev' : true = true → some (content x.nameloc) = some (content p.nameloc) :=
            fun _ => congrArg some heq
          rw [if_pos (htest.mpr heq), dupsOf_cons_of_eq heq, others_cons_of_eq heq]
          by_cases hinplace : D = [] ∧ N = []
          · obtain ⟨rfl, rfl⟩ := hinplace
            obtain rfl := hM rfl rfl
            rw [if_pos ⟨rfl, rfl⟩]
            obtain ⟨M', D', hmark, hD', hperm⟩ := ih _ (M := []) (D := [x.dup]) (N := []) hrest
              hpast hlink.2 hprev' (by simp) (by simp)
            exact ⟨M', D', hmark, hD', by simpa using hperm⟩
          · rw [if_neg hinplace]
            obtain ⟨M', D', hmark, hD', hperm⟩ := ih _ (M := M ++ [x.dup]) (D := D) (N := N) hrest
              hpast hlink.2 hprev' hD fun hd hn => absurd ⟨hd, hn⟩ hinplace
            refine ⟨M', D', hmark, hD', hperm.trans ?_⟩
            simp only [List.append_assoc, List.singleton_append]
            exact List.Perm.append_left M List.perm_middle.symm
        · rw [if_neg (fun h => heq (htest.mp h)), dupsOf_cons_of_ne heq, others_cons_of_ne heq]
          obtain ⟨M', D', hmark, hD', hperm⟩ := ih false (M := M) (D := D) (N := N ++ [x])
            hrest hpast hlink.2 (fun h => absurd h Bool.false_ne_true) hD
            (fun _ hn => absurd hn (by simp))
          exact ⟨M', D', by simpa using hmark, hD', hperm⟩
      · have hrun : (x :: T).dropWhile (fun y => decide (p.sizeCrc = y.sizeCrc)) = x :: T :=
          List.dropWhile_cons_of_neg (by simpa [FileDesc.sizeCrc] using hkey)
        rw [hrun] at hpast
        rw [if_neg hkey, dupsOf_eq_nil hpast, others_eq_self hpast]
        exact ⟨M, D, rfl, hD, by simp⟩

/-! ## The marks -/

/-- The entry without the mark of a duplicate. -/
def FileDesc.clearDup (e : FileDesc) : FileDesc := { e with flags := e.flags &&& ~~~FL_DUP }

theorem flags_of_GetFlag {e : FileDesc} {f : BitVec 8} (h : e.GetFlag f = false) :
    e.flags &&& f = 0 :=
  not_not.mp (of_decide_eq_false h)

theorem dup_GetFlag (e : FileDesc) : e.dup.GetFlag FL_DUP = true := by
  have h : ∀ f : BitVec 8, (f ||| 0x02) &&& 0x02 ≠ 0 := by decide +kernel
  exact decide_eq_true (h e.flags)

theorem clearDup_dup {e : FileDesc} (h : e.GetFlag FL_DUP = false) : e.dup.clearDup = e := by
  have hflags : ∀ f : BitVec 8, f &&& 0x02 = 0 → (f ||| 0x02) &&& ~~~0x02 = f := by decide +kernel
  have hzero := flags_of_GetFlag h
  obtain ⟨length, crc32, device, inode, nameloc, flags⟩ := e
  simp only [FileDesc.dup, FileDesc.SetFlag, FileDesc.clearDup, FL_DUP, FileDesc.mk.injEq, true_and]
  exact hflags flags hzero

theorem clearDup_eq_self {e : FileDesc} (h : e.GetFlag FL_DUP = false) : e.clearDup = e := by
  have hflags : ∀ f : BitVec 8, f &&& 0x02 = 0 → f &&& ~~~0x02 = f := by decide +kernel
  have hzero := flags_of_GetFlag h
  obtain ⟨length, crc32, device, inode, nameloc, flags⟩ := e
  simp only [FileDesc.clearDup, FL_DUP, FileDesc.mk.injEq, true_and]
  exact hflags flags hzero

/-- The flags before the second loop: no duplicates yet, and a checksum wherever another file has
the same length. -/
structure Unmarked (l : List FileDesc) : Prop where
  noDup : ∀ e ∈ l, e.GetFlag FL_DUP = false
  plain : ∀ e ∈ l, e.GetFlag FL_LNK = false → e.flags = 0 ∨ e.flags = FL_CRC
  shared : l.Pairwise fun a b =>
    a.length = b.length → a.GetFlag FL_CRC = true ∧ b.GetFlag FL_CRC = true

theorem Unmarked.sublist {l l' : List FileDesc} (h : Unmarked l) (hl : l'.Sublist l) :
    Unmarked l' where
  noDup := fun e he => h.noDup e (hl.subset he)
  plain := fun e he => h.plain e (hl.subset he)
  shared := h.shared.sublist hl

/-- A list of groups: an entry that is no duplicate, the duplicates of it, and then entries with
another content. The flags of an entry that has duplicates are `FL_CRC`. -/
inductive Grouped (content : Int → γ) : List FileDesc → Prop
  | nil : Grouped content []
  | group (p : FileDesc) (ds r : List FileDesc) (first : p.GetFlag FL_DUP = false)
      (crc : ds ≠ [] → p.flags = FL_CRC)
      (dups : ∀ d ∈ ds, d.GetFlag FL_DUP = true ∧ content d.nameloc = content p.nameloc)
      (apart : ∀ e ∈ r, content e.nameloc ≠ content p.nameloc) (rest : Grouped content r) :
      Grouped content (p :: (ds ++ r))

/-! ## The rounds -/

section

variable {p : FileDesc} {T : List FileDesc}

theorem mem_dupsOf {d : FileDesc} (h : d ∈ dupsOf content p T) :
    ∃ x ∈ T, content x.nameloc = content p.nameloc ∧ x.dup = d := by
  simpa [dupsOf, and_assoc] using h

/-- The duplicates and the others are all of the entries. -/
theorem dupsOf_others_perm (h : ∀ e ∈ T, e.GetFlag FL_DUP = false) :
    ((dupsOf content p T).map FileDesc.clearDup ++ others content p T).Perm T := by
  have hclear : (dupsOf content p T).map FileDesc.clearDup =
      T.filter fun e => decide (content e.nameloc = content p.nameloc) := by
    rw [dupsOf, List.map_map]
    refine (List.map_congr_left fun e he => ?_).trans (List.map_id _)
    exact clearDup_dup (h e (List.mem_of_mem_filter he))
  have hothers : others content p T =
      T.filter fun e => !decide (content e.nameloc = content p.nameloc) :=
    List.filter_congr fun e _ => by simp
  rw [hclear, hothers]
  exact List.filter_append_perm _ T

/-- Without the entries of one content, links still come directly after an entry of the same
file. -/
theorem LinkOk.others {prev : Option γ} (h : LinkOk content prev T) :
    LinkOk content (prev.filter fun c => decide (c ≠ content p.nameloc)) (others content p T) := by
  induction T generalizing prev with
  | nil => trivial
  | cons x T ih =>
      have hrest := ih h.2
      by_cases heq : content x.nameloc = content p.nameloc
      · rw [others_cons_of_eq heq]
        refine LinkOk.of_none ?_
        simpa [Option.filter, heq] using hrest
      · rw [others_cons_of_ne heq]
        refine ⟨fun hlnk => ?_, by simpa [Option.filter, heq] using hrest⟩
        rw [h.1 hlnk]
        simp [Option.filter, heq]

/-- The group that a round makes, in front of the groups of the others. -/
theorem Grouped.of_round {ds r : List FileDesc} (hcmp : Comparable content files (p :: T))
    (hlink : LinkOk content none (p :: T)) (hflags : Unmarked (p :: T))
    (hds : ds.Perm (dupsOf content p T)) (hr : Grouped content r)
    (hperm : (r.map FileDesc.clearDup).Perm (others content p T)) :
    Grouped content (p :: (ds ++ r)) ∧ ((p :: (ds ++ r)).map FileDesc.clearDup).Perm (p :: T) := by
  have hT : ∀ e ∈ T, e.GetFlag FL_DUP = false := fun e he =>
    hflags.noDup e (List.mem_cons_of_mem p he)
  have hdup : ∀ d ∈ ds, ∃ x ∈ T, content x.nameloc = content p.nameloc ∧ x.dup = d := fun d hd =>
    mem_dupsOf (hds.subset hd)
  constructor
  · refine Grouped.group p ds r (hflags.noDup p List.mem_cons_self) ?_ ?_ ?_ hr
    · intro hne
      obtain ⟨d, hd⟩ := List.exists_mem_of_ne_nil ds hne
      obtain ⟨x, hx, heq, -⟩ := hdup d hd
      have hkey := hcmp.sizeCrc x (List.mem_cons_of_mem p hx) p List.mem_cons_self heq
      have hlength : p.length = x.length := (congrArg Prod.fst hkey).symm
      have hcrc := ((List.pairwise_cons.mp hflags.shared).1 x hx hlength).1
      have hlnk : p.GetFlag FL_LNK = false := by
        cases hmark : p.GetFlag FL_LNK with
        | false => rfl
        | true => exact absurd (hlink.1 hmark).symm (Option.some_ne_none _)
      rcases hflags.plain p List.mem_cons_self hlnk with hzero | hplain
      · simp [FileDesc.GetFlag, hzero] at hcrc
      · exact hplain
    · intro d hd
      obtain ⟨x, -, heq, rfl⟩ := hdup d hd
      exact ⟨dup_GetFlag x, heq⟩
    · intro e he
      exact (mem_others (hperm.subset (List.mem_map_of_mem he))).2
  · rw [List.map_cons, List.map_append, clearDup_eq_self (hflags.noDup p List.mem_cons_self)]
    exact List.Perm.cons p (((hds.map FileDesc.clearDup).append hperm).trans
      (dupsOf_others_perm hT))

/-- A round that starts at a duplicate in place goes on to the entry after it. -/
theorem dupScan_inPlace (pre : List FileDesc) (d : FileDesc) (rest : List FileDesc) (fuel : Nat)
    (hcmp : ∀ e ∈ rest, files.fullcmp d.nameloc e.nameloc = 0 ↔
      content d.nameloc = content e.nameloc)
    (hne : ∀ e ∈ rest, content e.nameloc ≠ content d.nameloc) (hlink : LinkOk content none rest) :
    dupScan files (pre.length + 1 + rest.length) (fuel + 1) pre.length (pre ++ d :: rest) =
      dupScan files (pre.length + 1 + rest.length) fuel (pre.length + 1) (pre ++ d :: rest) := by
  obtain ⟨M, D, hmark, -, hperm⟩ := markDups_eq pre d true (M := []) (D := []) (N := []) hcmp
    (fun e he => hne e ((List.dropWhile_sublist _).subset he)) (LinkOk.of_none hlink)
    (fun _ => rfl) (Nat.zero_le 1) fun _ _ => rfl
  rw [dupsOf_eq_nil hne] at hperm
  obtain ⟨rfl, rfl⟩ := List.append_eq_nil_iff.mp (List.perm_nil.mp hperm)
  rw [others_eq_self hne] at hmark
  have hmore : pre.length < pre.length + 1 + rest.length := by omega
  have hleft : pre.length + 1 + rest.length - (pre.length + 1) = rest.length := by omega
  rw [dupScan, if_pos hmore, hleft]
  simp only [markFrom, List.length_nil, Nat.add_zero, List.nil_append] at hmark
  simp only [hmark, Option.bind_eq_bind, Option.bind_some]

end

/-- One round of the second loop: the matches stand behind the entry, and the loop goes on behind
those that were brought there. -/
theorem dupScan_round (done : List FileDesc) {p : FileDesc} {T : List FileDesc} (fuel : Nat)
    (hcmp : Comparable content files (p :: T)) (hlink : LinkOk content none (p :: T)) :
    ∃ M D, dupScan files (done.length + (T.length + 1)) (fuel + 1) done.length (done ++ p :: T) =
        dupScan files (done.length + (T.length + 1)) fuel (done ++ p :: M).length
          ((done ++ p :: M) ++ (D ++ others content p T)) ∧
      D.length ≤ 1 ∧ (M ++ D).Perm (dupsOf content p T) := by
  obtain ⟨M, D, hmark, hD, hds⟩ := markDups_eq done p true (M := []) (D := []) (N := [])
    (fun e he => hcmp.fullcmp p List.mem_cons_self e (List.mem_cons_of_mem p he))
    (fun e he => hcmp.ne_of_mem_dropWhile he) hlink.2 (fun _ => rfl) (Nat.zero_le 1)
    fun _ _ => rfl
  refine ⟨M, D, ?_, hD, hds⟩
  have hmore : done.length < done.length + (T.length + 1) := by omega
  have hleft : done.length + (T.length + 1) - (done.length + 1) = T.length := by omega
  have hplace : (done ++ p :: M).length = done.length + 1 + M.length := by
    simp only [List.length_append, List.length_cons]
    omega
  simp only [markFrom, List.length_nil, Nat.add_zero, List.nil_append] at hmark
  rw [dupScan, if_pos hmore, hleft, hplace, List.append_assoc, List.cons_append]
  simp only [hmark, Option.bind_eq_bind, Option.bind_some]

/-- The second loop leaves groups, when it has come to the entries `R`. -/
theorem dupScan_eq (n : Nat) (done : List FileDesc) {R : List FileDesc} (fuel : Nat)
    (hn : R.length ≤ n)
    (hfuel : R.length < fuel) (hcmp : Comparable content files R) (hlink : LinkOk content none R)
    (hflags : Unmarked R) :
    ∃ r, dupScan files (done.length + R.length) fuel done.length (done ++ R) = some (done ++ r) ∧
      Grouped content r ∧ (r.map FileDesc.clearDup).Perm R := by
  induction n generalizing done R fuel with
  | zero =>
      obtain ⟨fuel, rfl⟩ : ∃ k, fuel = k + 1 := ⟨fuel - 1, by omega⟩
      obtain rfl : R = [] := List.length_eq_zero_iff.mp (Nat.le_zero.mp hn)
      exact ⟨[], by simp [dupScan], Grouped.nil, by simp⟩
  | succ n ih =>
      obtain ⟨fuel, rfl⟩ : ∃ k, fuel = k + 1 := ⟨fuel - 1, by omega⟩
      cases R with
      | nil => exact ⟨[], by simp [dupScan], Grouped.nil, by simp⟩
      | cons p T =>
          obtain ⟨M, D, hround, hD, hds⟩ := dupScan_round done fuel hcmp hlink
          have hsub : (others content p T).Sublist (p :: T) :=
            List.filter_sublist.trans (List.sublist_cons_self p T)
          have hrestLink : LinkOk content none (others content p T) := by
            simpa [Option.filter] using LinkOk.others (p := p) hlink.2
          have hlen : M.length + D.length + (others content p T).length = T.length := by
            have h : ((dupsOf content p T).map FileDesc.clearDup ++ others content p T).length =
                T.length := (dupsOf_others_perm fun e he =>
              hflags.noDup e (List.mem_cons_of_mem p he)).length_eq
            rw [List.length_append, List.length_map, ← hds.length_eq, List.length_append] at h
            exact h
          rw [List.length_cons] at hn hfuel
          -- The rounds after this group.
          have hnext : ∀ k, (others content p T).length < k → ∃ r,
              dupScan files (done.length + (T.length + 1)) k ((done ++ p :: M) ++ D).length
                  (((done ++ p :: M) ++ D) ++ others content p T) =
                some (done ++ p :: ((M ++ D) ++ r)) ∧
              Grouped content r ∧ (r.map FileDesc.clearDup).Perm (others content p T) := by
            intro k hk
            obtain ⟨r, hscan, hr, hperm⟩ := ih ((done ++ p :: M) ++ D) k (by omega)
              hk (hcmp.sublist hsub) hrestLink (hflags.sublist hsub)
            have hnfiles : ((done ++ p :: M) ++ D).length + (others content p T).length =
                done.length + (T.length + 1) := by
              simp only [List.length_append, List.length_cons]
              omega
            rw [hnfiles] at hscan
            exact ⟨r, by simpa using hscan, hr, hperm⟩
          suffices hrest : ∃ r, dupScan files (done.length + (T.length + 1)) fuel
                (done ++ p :: M).length ((done ++ p :: M) ++ (D ++ others content p T)) =
                  some (done ++ p :: ((M ++ D) ++ r)) ∧
              Grouped content r ∧ (r.map FileDesc.clearDup).Perm (others content p T) by
            obtain ⟨r, hscan, hr, hperm⟩ := hrest
            obtain ⟨hgrouped, hall⟩ := Grouped.of_round hcmp hlink hflags hds hr hperm
            exact ⟨p :: ((M ++ D) ++ r), hround.trans hscan, hgrouped, hall⟩
          cases D with
          | nil => simpa using hnext fuel (by simp only [List.length_nil] at hlen; omega)
          | cons d D =>
              -- The next round starts at the match that was in place.
              obtain rfl : D = [] := List.length_eq_zero_iff.mp (by simpa using hD)
              obtain ⟨x, hx, heq, rfl⟩ := mem_dupsOf (hds.subset (List.mem_append_right M
                List.mem_cons_self))
              rw [List.length_singleton] at hlen
              obtain ⟨k, rfl⟩ : ∃ k, fuel = k + 1 := ⟨fuel - 1, by omega⟩
              obtain ⟨r, hscan, hr, hperm⟩ := hnext k (by omega)
              have hinPlace := dupScan_inPlace (done ++ p :: M) x.dup (others content p T) k
                (fun e he => hcmp.fullcmp x (List.mem_cons_of_mem p hx) e (hsub.subset he))
                (fun e he => by
                  have hne := (mem_others he).2
                  rwa [← heq] at hne)
                hrestLink
              have hnfiles : (done ++ p :: M).length + 1 + (others content p T).length =
                  done.length + (T.length + 1) := by
                simp only [List.length_append, List.length_cons]
                omega
              rw [hnfiles] at hinPlace
              have hplace : ((done ++ p :: M) ++ [x.dup]).length = (done ++ p :: M).length + 1 :=
                List.length_append
              have hassoc : ((done ++ p :: M) ++ [x.dup]) ++ others content p T =
                  (done ++ p :: M) ++ x.dup :: others content p T := List.append_assoc _ _ _
              rw [hplace, hassoc] at hscan
              exact ⟨r, hinPlace.trans hscan, hr, hperm⟩

end StarterProjects.Finddup
