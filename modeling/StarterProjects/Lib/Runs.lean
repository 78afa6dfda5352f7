import Mathlib.Data.List.Basic
import Mathlib.Data.List.Pairwise

/-!
# Maximal runs

A sequence of optional values, and its maximal runs of consecutive entries that hold one value.
`runs` finds them from left to right; `mem_runs_iff` says that it finds exactly the runs, and
`runs_pairwise` that it lists them in order.
-/

namespace Lib.Runs

variable {β : Type*}

/-- The entries from `first` to `last`, both included. -/
structure Run (β : Type*) where
  first : Nat
  last : Nat
  value : β

/-- All entries of the run hold its value, and it cannot be extended on either side. -/
structure IsRun (vs : List (Option β)) (r : Run β) : Prop where
  le : r.first ≤ r.last
  inside : ∀ k, r.first ≤ k → k ≤ r.last → vs[k]? = some (some r.value)
  left : ∀ k, k + 1 = r.first → vs[k]? ≠ some (some r.value)
  right : vs[r.last + 1]? ≠ some (some r.value)

variable [DecidableEq β]

/-- The runs of the entries from number `i` on; `cur` is the run that the entry before belongs
to. -/
def runsFrom (i : Nat) : Option (Run β) → List (Option β) → List (Run β)
  | cur, [] => cur.toList
  | cur, none :: vs => cur.toList ++ runsFrom (i + 1) none vs
  | none, some v :: vs => runsFrom (i + 1) (some ⟨i, i, v⟩) vs
  | some r, some v :: vs =>
      if r.value = v then runsFrom (i + 1) (some { r with last := i }) vs
      else r :: runsFrom (i + 1) (some ⟨i, i, v⟩) vs

def runs (vs : List (Option β)) : List (Run β) := runsFrom 0 none vs

omit [DecidableEq β] in
/-- Two runs that end at one place are one run. -/
theorem IsRun.eq_of_last_eq {vs : List (Option β)} {r s : Run β} (hr : IsRun vs r)
    (hs : IsRun vs s) (h : r.last = s.last) : r = s := by
  have hvalue : r.value = s.value := by
    have hv := (hr.inside r.last hr.le (Nat.le_refl _)).symm.trans
      (h ▸ hs.inside s.last hs.le (Nat.le_refl _))
    simpa using hv
  have hfirst : r.first = s.first := by
    rcases Nat.lt_trichotomy r.first s.first with hlt | heq | hlt
    · exact absurd (hvalue ▸ hr.inside (s.first - 1) (by omega) (by have := hs.le; omega))
        (hs.left (s.first - 1) (by omega))
    · exact heq
    · exact absurd (hvalue ▸ hs.inside (r.first - 1) (by omega) (by have := hr.le; omega))
        (hr.left (r.first - 1) (by omega))
  cases r
  cases s
  simp_all

/-- What is known of the open run after the entries `pre`: it ends at the last of them. Where no
run is open, the last of them holds no value. -/
def Opened (pre : List (Option β)) : Option (Run β) → Prop
  | none => ∀ k v, k + 1 = pre.length → pre[k]? ≠ some (some v)
  | some r => r.last + 1 = pre.length ∧ r.first ≤ r.last ∧
      (∀ k, r.first ≤ k → k ≤ r.last → pre[k]? = some (some r.value)) ∧
      ∀ k, k + 1 = r.first → pre[k]? ≠ some (some r.value)

section Opened

variable {pre vs : List (Option β)}

omit [DecidableEq β] in
theorem Opened.concat_none {cur : Option (Run β)} (_ : Opened pre cur) :
    Opened (pre ++ [none]) none := by
  intro k v hk
  have hlast : k = pre.length := by simpa using hk
  rw [hlast, List.getElem?_concat_length]
  simp

omit [DecidableEq β] in
/-- A value that the entry before does not hold opens a run. -/
theorem Opened.concat_some {v : β} (h : ∀ k, k + 1 = pre.length → pre[k]? ≠ some (some v)) :
    Opened (pre ++ [some v]) (some ⟨pre.length, pre.length, v⟩) := by
  refine ⟨by simp, Nat.le_refl _, ?_, ?_⟩
  · intro k hge hle
    have hk : k = pre.length := Nat.le_antisymm hle hge
    rw [hk, List.getElem?_concat_length]
  · intro k hk
    rw [List.getElem?_append_left (by simp at hk; omega)]
    exact h k hk

omit [DecidableEq β] in
theorem Opened.extend {r : Run β} (h : Opened pre (some r)) :
    Opened (pre ++ [some r.value]) (some { r with last := pre.length }) := by
  obtain ⟨hlast, hle, hinside, hleft⟩ := h
  refine ⟨by simp, by simp; omega, ?_, ?_⟩
  · intro k hge hk
    rcases Nat.lt_or_ge k pre.length with hlt | hend
    · rw [List.getElem?_append_left hlt]
      exact hinside k hge (by omega)
    · have hk : k = pre.length := Nat.le_antisymm hk hend
      rw [hk, List.getElem?_concat_length]
  · intro k hk
    rw [List.getElem?_append_left (by simp at hk; omega)]
    exact hleft k hk

omit [DecidableEq β] in
/-- Where the next entry does not extend the open run, it is the run that ends here. -/
theorem Opened.mem_iff {cur : Option (Run β)} (h : Opened pre cur)
    (hnext : ∀ r ∈ cur, (pre ++ vs)[pre.length]? ≠ some (some r.value)) (r : Run β) :
    r ∈ cur.toList ↔ IsRun (pre ++ vs) r ∧ r.last + 1 = pre.length := by
  cases cur with
  | none =>
      constructor
      · simp
      · rintro ⟨hrun, hend⟩
        have hentry := hrun.inside r.last hrun.le (Nat.le_refl _)
        rw [List.getElem?_append_left (by omega)] at hentry
        exact absurd hentry (h r.last r.value hend)
  | some s =>
      obtain ⟨hlast, hle, hinside, hleft⟩ := h
      have hs : IsRun (pre ++ vs) s := by
        refine ⟨hle, ?_, ?_, hlast ▸ hnext s rfl⟩
        · intro k hge hk
          rw [List.getElem?_append_left (by omega)]
          exact hinside k hge hk
        · intro k hk
          rw [List.getElem?_append_left (by omega)]
          exact hleft k hk
      rw [Option.toList_some, List.mem_singleton]
      constructor
      · rintro rfl
        exact ⟨hs, hlast⟩
      · rintro ⟨hrun, hend⟩
        exact hrun.eq_of_last_eq hs (by omega)

end Opened

omit [DecidableEq β] in
/-- A run that ends before an entry it could be extended by is not maximal. -/
theorem IsRun.not_before {pre : List (Option β)} {v : β} {r : Run β}
    (hbefore : ∀ k, k + 1 = pre.length →
      pre[k]? = some (some v) ∨ ∀ w, pre[k]? ≠ some (some w)) :
    ¬(IsRun (pre ++ some v :: vs) r ∧ r.last + 1 = pre.length) := by
  rintro ⟨hrun, hend⟩
  have hhere : (pre ++ some v :: vs)[pre.length]? = some (some v) := by simp
  have hentry := hrun.inside r.last hrun.le (Nat.le_refl _)
  rw [List.getElem?_append_left (by omega)] at hentry
  rcases hbefore r.last hend with hsame | hother
  · have hvalue : v = r.value := by simpa using hsame.symm.trans hentry
    exact hrun.right (by rw [hend, hhere, hvalue])
  · exact hother r.value hentry

/-- What is found from an open run on are the runs that do not end before it does. -/
theorem mem_runsFrom (vs : List (Option β)) {pre : List (Option β)} {cur : Option (Run β)}
    (h : Opened pre cur) (r : Run β) :
    r ∈ runsFrom pre.length cur vs ↔ IsRun (pre ++ vs) r ∧ pre.length ≤ r.last + 1 := by
  induction vs generalizing pre cur with
  | nil =>
      have hnone : ∀ s ∈ cur, (pre ++ [])[pre.length]? ≠ some (some s.value) := by simp
      rw [runsFrom, h.mem_iff hnone]
      refine and_congr_right fun hrun => ?_
      have hentry := hrun.inside r.last hrun.le (Nat.le_refl _)
      obtain ⟨hlt, -⟩ := List.getElem?_eq_some_iff.mp hentry
      simp at hlt
      omega
  | cons entry vs ih =>
      have hassoc : pre ++ entry :: vs = pre ++ [entry] ++ vs := by simp
      have hhere : (pre ++ entry :: vs)[pre.length]? = some entry := by simp
      have hlen : (pre ++ [entry]).length = pre.length + 1 := by simp
      have hcases : pre.length ≤ r.last + 1 ↔
          r.last + 1 = pre.length ∨ pre.length + 1 ≤ r.last + 1 := by omega
      -- the entry does not belong to the run that is open
      have closes : ∀ next, (∀ s ∈ cur, entry ≠ some s.value) → Opened (pre ++ [entry]) next →
          (r ∈ cur.toList ++ runsFrom (pre.length + 1) next vs ↔
            IsRun (pre ++ entry :: vs) r ∧ pre.length ≤ r.last + 1) := by
        intro next hne hopen
        have hnext : ∀ s ∈ cur, (pre ++ entry :: vs)[pre.length]? ≠ some (some s.value) := by
          intro s hs heq
          rw [hhere] at heq
          exact hne s hs (Option.some.inj heq)
        have hrest := ih hopen
        rw [hlen, ← hassoc] at hrest
        rw [List.mem_append, h.mem_iff hnext, hrest, hcases, and_or_left]
      -- no run ends in front of the entry
      have continues : ∀ v next, entry = some v → (∀ k, k + 1 = pre.length →
          pre[k]? = some (some v) ∨ ∀ w, pre[k]? ≠ some (some w)) →
          Opened (pre ++ [entry]) next →
          (r ∈ runsFrom (pre.length + 1) next vs ↔
            IsRun (pre ++ entry :: vs) r ∧ pre.length ≤ r.last + 1) := by
        rintro v next rfl hbefore hopen
        have hrest := ih hopen
        rw [hlen, ← hassoc] at hrest
        rw [hrest, hcases, and_or_left, or_iff_right (IsRun.not_before hbefore)]
      cases entry with
      | none => exact closes none (by simp) h.concat_none
      | some v =>
          cases cur with
          | none =>
              have hbefore : ∀ k, k + 1 = pre.length → ∀ w, pre[k]? ≠ some (some w) :=
                fun k hk w => h k w hk
              exact continues v _ rfl (fun k hk => Or.inr (hbefore k hk))
                (Opened.concat_some fun k hk => hbefore k hk v)
          | some s =>
              obtain ⟨hlast, hle, hinside, -⟩ := id h
              have hend : ∀ k, k + 1 = pre.length → pre[k]? = some (some s.value) := by
                intro k hk
                exact hinside k (by omega) (by omega)
              by_cases hsame : s.value = v
              · subst hsame
                rw [runsFrom, if_pos rfl]
                exact continues s.value _ rfl (fun k hk => Or.inl (hend k hk)) h.extend
              · rw [runsFrom, if_neg hsame]
                refine closes _ ?_ (Opened.concat_some fun k hk => ?_)
                · rintro t ⟨⟩ heq
                  exact hsame (Option.some.inj heq).symm
                · rw [hend k hk]
                  simpa using hsame

/-- The list holds exactly the maximal runs. -/
theorem mem_runs_iff (vs : List (Option β)) (r : Run β) : r ∈ runs vs ↔ IsRun vs r := by
  have hopen : Opened ([] : List (Option β)) none := by
    intro k v hk
    simp at hk
  have h := mem_runsFrom vs hopen r
  simpa [runs] using h

/-- A run that is found starts where the open run does, or later than the entries before. -/
theorem first_of_mem {vs : List (Option β)} {i : Nat} {cur : Option (Run β)} {r : Run β}
    (h : r ∈ runsFrom i cur vs) : (∃ c ∈ cur, c.first = r.first) ∨ i ≤ r.first := by
  induction vs generalizing i cur with
  | nil => exact Or.inl ⟨r, by simpa [runsFrom] using h, rfl⟩
  | cons entry vs ih =>
      cases entry with
      | none =>
          rw [runsFrom, List.mem_append] at h
          rcases h with hcur | hrest
          · exact Or.inl ⟨r, by simpa using hcur, rfl⟩
          · rcases ih hrest with ⟨c, hc, -⟩ | hle
            · simp at hc
            · exact Or.inr (by omega)
      | some v =>
          cases cur with
          | none =>
              rcases ih h with ⟨c, hc, hfirst⟩ | hle
              · rw [← Option.some.inj hc] at hfirst
                exact Or.inr (Nat.le_of_eq hfirst)
              · exact Or.inr (by omega)
          | some c =>
              by_cases hsame : c.value = v
              · rw [runsFrom, if_pos hsame] at h
                rcases ih h with ⟨d, hd, hfirst⟩ | hle
                · rw [← Option.some.inj hd] at hfirst
                  exact Or.inl ⟨c, rfl, hfirst⟩
                · exact Or.inr (by omega)
              · rw [runsFrom, if_neg hsame] at h
                rcases List.mem_cons.mp h with hr | hrest
                · exact Or.inl ⟨c, rfl, by rw [hr]⟩
                · rcases ih hrest with ⟨d, hd, hfirst⟩ | hle
                  · rw [← Option.some.inj hd] at hfirst
                    exact Or.inr (Nat.le_of_eq hfirst)
                  · exact Or.inr (by omega)

theorem runsFrom_pairwise (vs : List (Option β)) {i : Nat} {cur : Option (Run β)}
    (h : ∀ c ∈ cur, c.last < i) :
    (runsFrom i cur vs).Pairwise (fun r s => r.last < s.first) := by
  induction vs generalizing i cur with
  | nil => cases cur <;> simp [runsFrom]
  | cons entry vs ih =>
      have opened : ∀ v, (runsFrom (i + 1) (some ⟨i, i, v⟩) vs).Pairwise
          (fun r s => r.last < s.first) := fun v => ih (by simp)
      cases entry with
      | none =>
          have hrest : (runsFrom (i + 1) none vs).Pairwise (fun r s => r.last < s.first) :=
            ih (by simp)
          refine List.pairwise_append.mpr ⟨by cases cur <;> simp, hrest, ?_⟩
          intro c hc s hs
          have hlast := h c (by simpa using hc)
          rcases first_of_mem hs with ⟨d, hd, -⟩ | hle
          · simp at hd
          · omega
      | some v =>
          cases cur with
          | none => exact opened v
          | some c =>
              by_cases hsame : c.value = v
              · rw [runsFrom, if_pos hsame]
                exact ih (by simp)
              · rw [runsFrom, if_neg hsame]
                refine List.pairwise_cons.mpr ⟨fun s hs => ?_, opened v⟩
                have hlast := h c rfl
                rcases first_of_mem hs with ⟨d, hd, hfirst⟩ | hle
                · rw [← Option.some.inj hd] at hfirst
                  have : i = s.first := hfirst
                  omega
                · omega

/-- The runs are listed in order. -/
theorem runs_pairwise (vs : List (Option β)) :
    (runs vs).Pairwise (fun r s => r.last < s.first) :=
  runsFrom_pairwise vs (by simp)

end Lib.Runs
