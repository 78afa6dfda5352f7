import StarterProjects.Finddup.Scan
import StarterProjects.Lib.Contiguous
import Mathlib.Data.List.TakeWhile

/-!
# The links that `scan2` marks

The first loop of `scan2` compares the first entry of a run of links with the entries after it.
Where the entries of one inode are contiguous, it marks exactly the entries whose inode occurred
earlier (`linkScan_eq`), and a marked entry comes directly after one of the same file
(`linkedAfter_linkOk`), which is what the shortcut of the second loop relies on.
-/

namespace StarterProjects.Finddup

open Lib

/-! ## Access to the array -/

theorem getElem?_at {α : Type*} (xs : List α) (x : α) (ys : List α) :
    (xs ++ x :: ys)[xs.length]? = some x := by
  simp

theorem set_at {α : Type*} (xs : List α) (x y : α) (ys : List α) :
    (xs ++ x :: ys).set xs.length y = xs ++ y :: ys := by
  simp

theorem SetFlag_at (xs : List FileDesc) (x : FileDesc) (ys : List FileDesc) (f : BitVec 8) :
    SetFlag (xs ++ x :: ys) xs.length f = some (xs ++ x.SetFlag f :: ys) := by
  simp [SetFlag]

/-! ## The marks -/

/-- The file behind the name: links have one inode on one device. -/
def FileDesc.inodeOf (e : FileDesc) : Nat × Nat := (e.device, e.inode)

def FileDesc.link (e : FileDesc) : FileDesc := e.SetFlag FL_LNK

/-- The marks for a list that comes after the entries `seen`: an entry is a link where its inode
occurred earlier. -/
def linkedAfter (seen : List FileDesc) : List FileDesc → List FileDesc
  | [] => []
  | e :: es =>
      (if seen.any fun e' => e'.inodeOf = e.inodeOf then e.link else e) ::
        linkedAfter (seen ++ [e]) es

theorem linkedAfter_append (seen xs ys : List FileDesc) :
    linkedAfter seen (xs ++ ys) = linkedAfter seen xs ++ linkedAfter (seen ++ xs) ys := by
  induction xs generalizing seen with
  | nil => simp [linkedAfter]
  | cons x xs ih => simp [linkedAfter, ih]

/-- Entries whose inode has occurred are links. -/
theorem linkedAfter_of_seen {seen : List FileDesc} (xs : List FileDesc) {p : FileDesc}
    (hp : p ∈ seen)
    (h : ∀ x ∈ xs, p.inodeOf = x.inodeOf) : linkedAfter seen xs = xs.map FileDesc.link := by
  induction xs generalizing seen with
  | nil => rfl
  | cons x xs ih =>
      have hany : (seen.any fun e' => decide (e'.inodeOf = x.inodeOf)) = true :=
        List.any_eq_true.mpr ⟨p, hp, decide_eq_true (h x List.mem_cons_self)⟩
      rw [linkedAfter, if_pos hany, ih (List.mem_append_left [x] hp)
        fun y hy => h y (List.mem_cons_of_mem x hy), List.map_cons]

/-- Whatever a mark leaves alone. -/
theorem linkedAfter_map {α : Type*} {f : FileDesc → α} (hf : ∀ e, f e.link = f e)
    (seen xs : List FileDesc) : (linkedAfter seen xs).map f = xs.map f := by
  induction xs generalizing seen with
  | nil => rfl
  | cons x xs ih =>
      rw [linkedAfter, List.map_cons, List.map_cons, ih]
      split_ifs
      · rw [hf]
      · rfl

/-! ## The loops -/

variable (files : Files) (linkflag : Bool)

@[simp] theorem printLink_filelist (s : LinkState) (inmatch : Bool) (p1 p2 : FileDesc) :
    (s.printLink files inmatch p1 p2).filelist = s.filelist := by
  simp only [LinkState.printLink]
  split_ifs <;> rfl

/-- The entries right after `p` that are links of it, and the others. -/
def linksOf (p : FileDesc) (rest : List FileDesc) : List FileDesc :=
  rest.takeWhile fun e => decide (p.inodeOf = e.inodeOf)

def pastLinks (p : FileDesc) (rest : List FileDesc) : List FileDesc :=
  rest.dropWhile fun e => decide (p.inodeOf = e.inodeOf)

theorem linksOf_append_pastLinks (p : FileDesc) (rest : List FileDesc) :
    linksOf p rest ++ pastLinks p rest = rest :=
  List.takeWhile_append_dropWhile

theorem mem_linksOf {p e : FileDesc} {rest : List FileDesc} (h : e ∈ linksOf p rest) :
    p.inodeOf = e.inodeOf := by
  simpa using List.mem_takeWhile_imp h

/-- The entries from `ix2` on that have the inode of entry `ix` are marked. -/
theorem markLinks_eq (pre : List FileDesc) (p : FileDesc) (rest : List FileDesc)
    {done : List FileDesc} (inmatch : Bool) {s : LinkState}
    (hs : s.filelist = pre ++ p :: (done ++ rest)) :
    ∃ s', markLinks files linkflag pre.length rest.length (pre.length + 1 + done.length) inmatch s =
        some (pre.length + 1 + done.length + (linksOf p rest).length, s') ∧
      s'.filelist = pre ++ p :: (done ++
        ((linksOf p rest).map FileDesc.link ++ pastLinks p rest)) := by
  induction rest generalizing done inmatch s with
  | nil => exact ⟨s, rfl, by simpa [linksOf, pastLinks] using hs⟩
  | cons x rest ih =>
      have hfirst : s.filelist[pre.length]? = some p := by rw [hs, getElem?_at]
      have hlong : s.filelist = (pre ++ p :: done) ++ x :: rest := by simp [hs]
      have hindex : pre.length + 1 + done.length = (pre ++ p :: done).length := by
        simp
        omega
      have hhere : s.filelist[pre.length + 1 + done.length]? = some x := by
        rw [hlong, hindex, getElem?_at]
      have hset : SetFlag s.filelist (pre.length + 1 + done.length) FL_LNK =
          some (pre ++ p :: ((done ++ [x.link]) ++ rest)) := by
        rw [hlong, hindex, SetFlag_at]
        simp [FileDesc.link]
      have hnext : pre.length + 1 + done.length + 1 =
          pre.length + 1 + (done ++ [x.link]).length := by
        simp
        omega
      have hsame : (p.device = x.device ∧ p.inode = x.inode) ↔ p.inodeOf = x.inodeOf := by
        simp [FileDesc.inodeOf]
      rw [List.length_cons, markLinks, hfirst, hhere]
      simp only [Option.bind_eq_bind, Option.bind_some, hsame, hset, hnext]
      -- the loop stops at the first file with another inode
      by_cases heq : p.inodeOf = x.inodeOf
      · have htake : linksOf p (x :: rest) = x :: linksOf p rest :=
          List.takeWhile_cons_of_pos (by simpa using heq)
        have hdrop : pastLinks p (x :: rest) = pastLinks p rest :=
          List.dropWhile_cons_of_pos (by simpa using heq)
        have hcount : pre.length + 1 + done.length + (x :: linksOf p rest).length =
            pre.length + 1 + (done ++ [x.link]).length + (linksOf p rest).length := by
          simp
          omega
        have hlist : done ++ (x.link :: ((linksOf p rest).map FileDesc.link ++ pastLinks p rest)) =
            (done ++ [x.link]) ++ ((linksOf p rest).map FileDesc.link ++ pastLinks p rest) :=
          by simp
        have hmarked : ({ s with filelist := pre ++ p :: ((done ++ [x.link]) ++ rest) } :
            LinkState).filelist = pre ++ p :: ((done ++ [x.link]) ++ rest) := rfl
        rw [if_pos heq, htake, hdrop, hcount, List.map_cons, List.cons_append, hlist]
        cases linkflag with
        | true => exact ih true ((printLink_filelist files _ inmatch p x).trans hmarked)
        | false => exact ih inmatch hmarked
      · have htake : linksOf p (x :: rest) = [] := List.takeWhile_cons_of_neg (by simpa using heq)
        have hdrop : pastLinks p (x :: rest) = x :: rest :=
          List.dropWhile_cons_of_neg (by simpa using heq)
        rw [if_neg heq, htake, hdrop]
        exact ⟨s, rfl, by simpa using hs⟩

/-- One round of the first loop: it goes on behind the links of its entry. -/
theorem linkScan_round (done : List FileDesc) (p : FileDesc) (rest : List FileDesc) (fuel : Nat)
    {s : LinkState} (hs : s.filelist = done ++ p :: rest) :
    ∃ s₁, linkScan files linkflag (done.length + (p :: rest).length) (fuel + 1) done.length s =
        linkScan files linkflag ((done ++ p :: (linksOf p rest).map FileDesc.link).length +
          (pastLinks p rest).length) fuel
          (done ++ p :: (linksOf p rest).map FileDesc.link).length s₁ ∧
      s₁.filelist = (done ++ p :: (linksOf p rest).map FileDesc.link) ++ pastLinks p rest := by
  have hstart : s.filelist = done ++ p :: ([] ++ rest) := hs
  obtain ⟨s₁, hmark, hlist⟩ := markLinks_eq files linkflag done p rest false hstart
  refine ⟨s₁, ?_, by simp [hlist]⟩
  have hlen : (linksOf p rest).length + (pastLinks p rest).length = rest.length := by
    rw [← List.length_append, linksOf_append_pastLinks]
  have hdoneLen : (done ++ p :: (linksOf p rest).map FileDesc.link).length =
      done.length + 1 + (linksOf p rest).length := by
    simp
    omega
  have hleft : done.length + (p :: rest).length - (done.length + 1) = rest.length := by
    simp only [List.length_cons]
    omega
  have hmore : done.length < done.length + (p :: rest).length := by simp
  have hnfiles : done.length + (p :: rest).length =
      (done ++ p :: (linksOf p rest).map FileDesc.link).length + (pastLinks p rest).length := by
    simp only [List.length_cons, hdoneLen]
    omega
  have hmark' : markLinks files linkflag done.length rest.length (done.length + 1) false s =
      some (done.length + 1 + (linksOf p rest).length, s₁) := hmark
  rw [linkScan, if_pos hmore, hleft, hmark']
  simp only [Option.bind_eq_bind, Option.bind_some]
  rw [← hdoneLen, hnfiles]

/-- The marks of an entry with a new inode and of what follows it. -/
theorem linkedAfter_round {seen : List FileDesc} {p : FileDesc} (rest : List FileDesc)
    (hseen : ∀ e ∈ seen, e.inodeOf ≠ p.inodeOf) :
    linkedAfter seen (p :: rest) = (p :: (linksOf p rest).map FileDesc.link) ++
      linkedAfter (seen ++ p :: linksOf p rest) (pastLinks p rest) := by
  have hnew : (seen.any fun e' => decide (e'.inodeOf = p.inodeOf)) = false :=
    List.any_eq_false.mpr fun e he => by simpa using hseen e he
  have hlinks := linkedAfter_of_seen (linksOf p rest)
    (List.mem_append_right seen (List.mem_singleton_self p)) fun x hx => mem_linksOf hx
  have hparts := linkedAfter_append (seen ++ [p]) (linksOf p rest) (pastLinks p rest)
  rw [linksOf_append_pastLinks, hlinks, List.append_assoc, List.singleton_append] at hparts
  rw [linkedAfter, if_neg (by simp [hnew]), hparts, List.cons_append]

/-- The first loop leaves the marks of the list, when the entries before `R` share no inode with
it. -/
theorem linkScan_eq (n : Nat) (seen done R : List FileDesc) (fuel : Nat) (s : LinkState)
    (hn : R.length ≤ n) (hfuel : R.length < fuel) (hR : Contiguous FileDesc.inodeOf R)
    (hseen : ∀ e ∈ seen, ∀ r ∈ R, e.inodeOf ≠ r.inodeOf) (hs : s.filelist = done ++ R) :
    ∃ s', linkScan files linkflag (done.length + R.length) fuel done.length s = some s' ∧
      s'.filelist = done ++ linkedAfter seen R := by
  induction n generalizing seen done R fuel s with
  | zero =>
      obtain ⟨fuel, rfl⟩ : ∃ k, fuel = k + 1 := ⟨fuel - 1, by omega⟩
      have hnil : R = [] := List.length_eq_zero_iff.mp (Nat.le_zero.mp hn)
      subst hnil
      exact ⟨s, by simp [linkScan], by simpa [linkedAfter] using hs⟩
  | succ n ih =>
      obtain ⟨fuel, rfl⟩ : ∃ k, fuel = k + 1 := ⟨fuel - 1, by omega⟩
      cases R with
      | nil => exact ⟨s, by simp [linkScan], by simpa [linkedAfter] using hs⟩
      | cons p rest =>
          have hsub : (pastLinks p rest).Sublist rest := List.dropWhile_sublist _
          -- The entries passed by now, all of them marked as they should be.
          have hseen' : ∀ e ∈ seen ++ p :: linksOf p rest, ∀ r ∈ pastLinks p rest,
              e.inodeOf ≠ r.inodeOf := by
            intro e he r hr
            rcases List.mem_append.mp he with hold | hnew
            · exact hseen e hold r (List.mem_cons_of_mem p (hsub.subset hr))
            · have hp : p.inodeOf = e.inodeOf := by
                rcases List.mem_cons.mp hnew with rfl | hlink
                · rfl
                · exact mem_linksOf hlink
              rw [← hp]
              exact hR.ne_of_mem_dropWhile hr
          have hlen := hsub.length_le
          rw [List.length_cons] at hn hfuel
          obtain ⟨s₁, hround, hlist⟩ := linkScan_round files linkflag done p rest fuel hs
          obtain ⟨s₂, hscan, hfinal⟩ := ih _ _ (pastLinks p rest) fuel s₁ (by omega) (by omega)
            (hR.tail.sublist hsub) hseen' hlist
          refine ⟨s₂, hround.trans hscan, ?_⟩
          rw [hfinal, linkedAfter_round rest fun e he => hseen e he p List.mem_cons_self]
          simp

/-! ## What a mark says -/

/-- Every marked entry comes directly after one with the same content; `prev` is the content of the
entry before the list. -/
def LinkOk {γ : Type*} (content : Int → γ) : Option γ → List FileDesc → Prop
  | _, [] => True
  | prev, e :: es =>
      (e.GetFlag FL_LNK = true → prev = some (content e.nameloc)) ∧
        LinkOk content (some (content e.nameloc)) es

section LinkOk

variable {γ : Type*} {content : Int → γ}

/-- Where no list needs an entry before it, none is harmful. -/
theorem LinkOk.of_none {prev : Option γ} {l : List FileDesc} (h : LinkOk content none l) :
    LinkOk content prev l := by
  cases l with
  | nil => trivial
  | cons e es => exact ⟨fun he => absurd (h.1 he) (Option.some_ne_none _).symm, h.2⟩

/-- Links of contiguous inodes come directly after a link of the same file. -/
theorem linkedAfter_linkOk (seen : List FileDesc) {R : List FileDesc}
    (hR : Contiguous FileDesc.inodeOf (seen ++ R))
    (hflags : ∀ e ∈ R, e.GetFlag FL_LNK = false)
    (hcontent : ∀ e ∈ seen ++ R, ∀ e' ∈ seen ++ R, e.inodeOf = e'.inodeOf →
      content e.nameloc = content e'.nameloc) :
    LinkOk content (seen.getLast?.map fun e => content e.nameloc) (linkedAfter seen R) := by
  induction R generalizing seen with
  | nil => trivial
  | cons e es ih =>
      have happend : seen ++ e :: es = (seen ++ [e]) ++ es := by simp
      have hnext := ih (seen ++ [e]) (happend ▸ hR)
        (fun e' he' => hflags e' (List.mem_cons_of_mem e he'))
        (happend ▸ hcontent)
      rw [List.getLast?_concat, Option.map_some] at hnext
      rw [linkedAfter]
      split_ifs with hany
      · refine ⟨fun _ => ?_, hnext⟩
        obtain ⟨e', he', hinode⟩ := List.any_eq_true.mp hany
        have hinode' : e'.inodeOf = e.inodeOf := of_decide_eq_true hinode
        -- The entry before is the other link, or lies between the two.
        rcases List.eq_nil_or_concat seen with hnil | ⟨front, last, hlast⟩
        · rw [hnil] at he'
          exact absurd he' List.not_mem_nil
        · rw [List.concat_eq_append] at hlast
          subst hlast
          have hsame : last.inodeOf = e.inodeOf := by
            rcases List.mem_append.mp he' with hfront | hlast
            · have hsub : List.Sublist [e', last, e] ((front ++ [last]) ++ e :: es) := by
                have hleft : List.Sublist [e', last] (front ++ [last]) :=
                  (List.singleton_sublist.mpr hfront).append (List.Sublist.refl [last])
                exact hleft.append (List.singleton_sublist.mpr List.mem_cons_self)
              exact (hR e' last e hsub hinode').trans hinode'
            · rw [← List.mem_singleton.mp hlast]
              exact hinode'
          rw [List.getLast?_concat, Option.map_some]
          exact congrArg some (hcontent last (by simp) e (by simp) hsame)
      · exact ⟨fun he => absurd (hflags e List.mem_cons_self) (by simp [he]), hnext⟩

end LinkOk

end StarterProjects.Finddup
