import StarterProjects.Finddup.Crc

/-!
# What `scan1` leaves

Where every checksum can be taken and the slot behind the last file has a length of its own, `scan1`
takes the checksums of exactly the files that share their length with another one, and sorts again
if there are any (`scan1_sums`).
-/

namespace StarterProjects.Finddup

open Lib

variable (get_crc : Int → Option Nat)

/-- The descriptor with its checksum, if it can be taken. -/
def FileDesc.summed (e : FileDesc) : FileDesc := (e.withCrc get_crc).getD e

variable {get_crc} {l : List FileDesc}

theorem withCrc_cases {e e' : FileDesc} (h : e.withCrc get_crc = some e') :
    e'.GetFlag FL_CRC = true ∧ e'.length = e.length := by
  unfold FileDesc.withCrc at h
  split at h
  · obtain ⟨crc, -, rfl⟩ := Option.map_eq_some_iff.mp h
    exact ⟨SetFlag_crc _, rfl⟩
  · rename_i hflag
    obtain rfl := Option.some.inj h
    exact ⟨by simpa using hflag, rfl⟩

/-- Taking a checksum twice is taking it once. -/
theorem summed_withCrc {e : FileDesc} (h : e.withCrc get_crc ≠ none) :
    e.withCrc get_crc = some (e.summed get_crc) ∧
      (e.summed get_crc).withCrc get_crc = some (e.summed get_crc) := by
  obtain ⟨e', he'⟩ := Option.ne_none_iff_exists'.mp h
  have hsum : e.summed get_crc = e' := by rw [FileDesc.summed, he', Option.getD_some]
  rw [hsum]
  exact ⟨he', withCrc_of_flag (withCrc_cases he').1⟩

theorem summed_length (e : FileDesc) : (e.summed get_crc).length = e.length := by
  unfold FileDesc.summed
  cases h : e.withCrc get_crc with
  | none => rfl
  | some e' => exact (withCrc_cases h).2

open Classical in
variable (get_crc) in
/-- After the first `k` rounds: the checksums of these entries have been taken. -/
structure Summed (l : List FileDesc) (k : Nat) (s : CrcState) : Prop where
  entry : ∀ i, s.filelist[i]? =
    (l[i]?).map fun e => if Touched l k i then e.summed get_crc else e
  sort : s.needsort = false → ∀ ix, 1 ≤ ix → ix ≤ k → ¬ SameLength l ix

/-- One round goes on. -/
theorem Summed.round {k : Nat} {s : CrcState} (h : Summed get_crc l k s) {a b : FileDesc}
    (ha : l[k]? = some a) (hb : l[k + 1]? = some b)
    (hread : a.length = b.length → a.withCrc get_crc ≠ none ∧ b.withCrc get_crc ≠ none) :
    ∃ s', scan1Round get_crc (k + 1) s = .on s' ∧ Summed get_crc l (k + 1) s' := by
  classical
  have hsame : SameLength l (k + 1) ↔ a.length = b.length :=
    sameLength_iff (by rwa [Nat.add_sub_cancel]) hb
  have hlength {e : FileDesc} {p : Prop} [Decidable p] :
      (if p then e.summed get_crc else e).length = e.length := by
    split
    · exact summed_length e
    · rfl
  have he1 := h.entry k
  have he2 := h.entry (k + 1)
  rw [ha, Option.map_some] at he1
  rw [hb, Option.map_some] at he2
  simp only [scan1Round, Nat.add_sub_cancel, he1, he2, hlength]
  -- equal lengths: both entries get their checksums, if they have none yet
  by_cases hlen : a.length = b.length
  · obtain ⟨hreada, hreadb⟩ := hread hlen
    have hcrc {e : FileDesc} {p : Prop} [Decidable p] (he : e.withCrc get_crc ≠ none) :
        (if p then e.summed get_crc else e).withCrc get_crc = some (e.summed get_crc) := by
      split
      · exact (summed_withCrc he).2
      · exact (summed_withCrc he).1
    rw [if_pos hlen, hcrc hreada, hcrc hreadb]
    refine ⟨_, rfl, ?_, fun hsort => absurd hsort (by simp)⟩
    intro i
    have hpair : SameLength l (k + 1) := hsame.mpr hlen
    by_cases hsecond : i = k + 1
    · have hlt := (List.getElem?_eq_some_iff.mp he2).1
      have ht : Touched l (k + 1) (k + 1) := (touched_succ l k _).mpr (Or.inr ⟨by omega, hpair⟩)
      rw [hsecond, List.getElem?_set_self (by rwa [List.length_set]), hb, Option.map_some,
        if_pos ht]
    · rw [List.getElem?_set_ne (Ne.symm hsecond)]
      by_cases hfirst : i = k
      · have hlt := (List.getElem?_eq_some_iff.mp he1).1
        have ht : Touched l (k + 1) k := (touched_succ l k _).mpr (Or.inr ⟨by omega, hpair⟩)
        rw [hfirst, List.getElem?_set_self hlt, ha, Option.map_some, if_pos ht]
      · have hother : Touched l (k + 1) i ↔ Touched l k i := by
          rw [touched_succ, or_iff_left]
          omega
        rw [List.getElem?_set_ne (Ne.symm hfirst), h.entry i]
        simp only [hother]
  · rw [if_neg hlen]
    refine ⟨_, rfl, fun i => ?_, fun hsort ix hpos hle => ?_⟩
    · have hother : Touched l (k + 1) i ↔ Touched l k i := by
        rw [touched_succ, or_iff_left]
        exact fun hr => hlen (hsame.mp hr.2)
      simp only [hother]
      exact h.entry i
    · rcases Nat.lt_or_ge k ix with hlast | hbefore
      · obtain rfl : ix = k + 1 := by omega
        exact fun hs => hlen (hsame.mp hs)
      · exact h.sort hsort ix hpos hbefore

/-- The rounds come to the end. -/
theorem scan1Loop_summed (left : Nat) {k : Nat} {s : CrcState} (h : Summed get_crc l k s)
    (hslot : k + left < l.length) (hmax : k + left < INT_MAX)
    (hread : ∀ ix, k ≤ ix → ix < k + left → ∀ a b, l[ix]? = some a → l[ix + 1]? = some b →
      a.length = b.length → a.withCrc get_crc ≠ none ∧ b.withCrc get_crc ≠ none) :
    ∃ s', scan1Loop get_crc left (k + 1) s = .on s' ∧ Summed get_crc l (k + left) s' := by
  induction left generalizing k s with
  | zero => exact ⟨s, rfl, h⟩
  | succ left ih =>
      have ha : l[k]? = some l[k] := List.getElem?_eq_getElem (by omega)
      have hb : l[k + 1]? = some l[k + 1] := List.getElem?_eq_getElem (by omega)
      obtain ⟨s₁, hround, hs₁⟩ := h.round ha hb (hread k le_rfl (by omega) _ _ ha hb)
      obtain ⟨s₂, hrest, hs₂⟩ := ih hs₁ (by omega) (by omega)
        fun ix hlt hle => hread ix (by omega) (by omega)
      refine ⟨s₂, ?_, by rwa [show k + (left + 1) = k + 1 + left by omega]⟩
      have hnext : k + 1 ≠ INT_MAX := by omega
      simp only [scan1Loop, hround, if_neg hnext, hrest]

theorem summed_start (l : List FileDesc) : Summed get_crc l 0 { filelist := l } where
  entry := by
    intro i
    have hnone : ¬ Touched l 0 i := by
      rintro ⟨ix, hpos, hle, -⟩
      omega
    simp [hnone]
  sort := fun _ ix hpos hle => by omega

open Classical in
variable (get_crc) in
/-- A file of a list gets its checksum when another one has its length. -/
noncomputable def summedIn (files : List FileDesc) (e : FileDesc) : FileDesc :=
  if List.Duplicate e.length (files.map (·.length)) then e.summed get_crc else e

/-- The scan of a sorted list `xs` with slots behind it: the checksums are taken where a length is
shared, and the list is sorted again. -/
theorem scan1_sums {xs slots : List FileDesc} {slot : FileDesc} (hslot : slots[0]? = some slot)
    (hown : ∀ e ∈ xs, e.length ≠ slot.length) (hmax : xs.length < INT_MAX)
    (hsorted : (xs.map (·.length)).Pairwise (· ≤ ·))
    (hread : ∀ e ∈ xs, e.withCrc get_crc ≠ none) :
    ∃ s, scan1 get_crc xs.length (xs ++ slots) = .on s ∧
      (s.filelist.take xs.length = (xs.map (summedIn get_crc xs)).mergeSort
          (fun a b => decide (comp1 a b ≤ 0)) ∨
        s.filelist.take xs.length = xs.map (summedIn get_crc xs) ∧
          ∀ e ∈ xs, ¬ List.Duplicate e.length (xs.map (·.length))) := by
  classical
  rcases List.eq_nil_or_concat' xs with rfl | hne
  · exact ⟨{ filelist := slots }, rfl, Or.inr ⟨by simp, fun e he => absurd he List.not_mem_nil⟩⟩
  have hpos : 0 < xs.length := by
    obtain ⟨front, last, rfl⟩ := hne
    simp
  have htake : (xs ++ slots).take xs.length = xs := List.take_left
  have hat : (xs ++ slots)[xs.length]? = some slot := by
    rw [List.getElem?_append_right le_rfl, Nat.sub_self, hslot]
  have hlen : xs.length < (xs ++ slots).length := (List.getElem?_eq_some_iff.mp hat).1
  have hfile {i : Nat} {e : FileDesc} (hi : i < xs.length) (he : (xs ++ slots)[i]? = some e) :
      e ∈ xs := by
    rw [List.getElem?_append_left hi] at he
    exact List.mem_of_getElem? he
  obtain ⟨s, hloop, hs⟩ := scan1Loop_summed xs.length (summed_start (xs ++ slots))
    (by rwa [Nat.zero_add]) (by rwa [Nat.zero_add]) (by
      intro ix _ hlt a b ha hb hab
      rw [Nat.zero_add] at hlt
      have hmema := hfile hlt ha
      rcases Nat.lt_or_ge (ix + 1) xs.length with hnext | hend
      · exact ⟨hread a hmema, hread b (hfile hnext hb)⟩
      · obtain rfl : b = slot := by
          rw [show ix + 1 = xs.length by omega, hat] at hb
          exact (Option.some.inj hb).symm
        exact absurd hab (hown a hmema))
  rw [Nat.zero_add] at hloop hs
  -- the loop compares the last file with the slot behind it as well
  have hlast : ¬ SameLength (xs ++ slots) xs.length := by
    rintro ⟨a, b, ha, hb, hab⟩
    obtain rfl : slot = b := Option.some.inj (hat.symm.trans hb)
    exact hown a (hfile (by omega) ha) hab
  have hdup {i : Nat} {e : FileDesc} (hi : i < xs.length) (he : xs[i]? = some e) :
      Touched (xs ++ slots) xs.length i ↔ List.Duplicate e.length (xs.map (·.length)) := by
    have hat' : (xs ++ slots)[i]? = some e := by rwa [List.getElem?_append_left hi]
    have hsorted' : (((xs ++ slots).take xs.length).map (·.length)).Pairwise (· ≤ ·) := by
      rwa [htake]
    have hiff := duplicate_length_iff hat' hi hsorted'
    rw [htake] at hiff
    rw [touched_iff hi, hiff]
    refine or_congr_right ⟨fun hsame => ⟨?_, hsame⟩, fun h => h.2⟩
    by_contra hend
    exact hlast (by rwa [show i + 1 = xs.length by omega] at hsame)
  have hfiles : s.filelist.take xs.length = xs.map (summedIn get_crc xs) := by
    refine List.ext_getElem? fun i => ?_
    rcases Nat.lt_or_ge i xs.length with hi | hi
    · rw [List.getElem?_take_of_lt hi, hs.entry, List.getElem?_append_left hi, List.getElem?_map,
        List.getElem?_eq_getElem hi, Option.map_some, Option.map_some, summedIn]
      refine congrArg some (if_congr (hdup hi (List.getElem?_eq_getElem hi)) rfl rfl)
    · rw [List.getElem?_eq_none (by rw [List.length_take]; omega),
        List.getElem?_eq_none (by rwa [List.length_map])]
  simp only [scan1, hloop]
  cases hsort : s.needsort with
  | true =>
      refine ⟨_, rfl, Or.inl ?_⟩
      have hperm := List.mergeSort_perm (s.filelist.take xs.length)
        fun a b => decide (comp1 a b ≤ 0)
      simp only [SORT]
      rw [List.take_left' (by rw [hperm.length_eq, hfiles, List.length_map]), hfiles]
  | false =>
      refine ⟨_, rfl, Or.inr ⟨hfiles, fun e he hd => ?_⟩⟩
      obtain ⟨i, hi⟩ := List.mem_iff_getElem?.mp he
      obtain ⟨ix, hone, hle, -, hsame⟩ := (hdup (List.getElem?_eq_some_iff.mp hi).1 hi).mpr hd
      exact hs.sort hsort ix hone hle hsame

end StarterProjects.Finddup
