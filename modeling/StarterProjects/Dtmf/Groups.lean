import StarterProjects.Dtmf.Segments
import Mathlib.Data.List.Sort

/-!
# Which tone sequences are segmented correctly

The runs fall into groups that have one tone and nothing but silence between them. The loop
reports a group as one event at most: the first group from sample 0 on and not before its second
block, the last group however short it is and under the symbol of the last row and column.
`exactFrom_iff` compares that event with the runs of the group, and `detect_segmented_iff` is the
exact condition on the tone tests.
-/

namespace StarterProjects.Dtmf

open Lib.Runs

/-! ## The groups -/

/-- Successive runs of one tone, with silence between them. -/
structure Group where
  head : Run Tone
  more : List (Run Tone)

def Group.runs (g : Group) : List (Run Tone) := g.head :: g.more

/-- The last block of the group. -/
def Group.last (g : Group) : Nat := (g.more.getLast?.getD g.head).last

/-- The groups of a list of runs, the first of which starts with the group `g`. -/
def groupsFrom (g : Group) : List (Run Tone) → List Group
  | [] => [g]
  | r :: rs =>
      if r.value = g.head.value then groupsFrom { g with more := g.more ++ [r] } rs
      else g :: groupsFrom ⟨r, []⟩ rs

def groups : List (Run Tone) → List Group
  | [] => []
  | r :: rs => groupsFrom ⟨r, []⟩ rs

/-- When a group before the last comes out right. The minimum duration is 240 samples. -/
def Group.ExactInner (N : Nat) (isFirst : Bool) (g : Group) : Prop :=
  if isFirst then
    N * (g.last + 1) < 240 ∨
      g.more = [] ∧ (g.head.first = g.last ∧ N < 240 ∨ g.head.first = 0 ∧ 0 < g.last)
  else g.more = [] ∨ N * (g.last + 1) < N * g.head.first + 240

/-- When the last group comes out right; `ends` says that the last row and column of all blocks
are the tone's. -/
def Group.ExactLast (N : Nat) (isFirst : Bool) (ends : Prop) (g : Group) : Prop :=
  if isFirst then
    g.more = [] ∧ (g.head.first = g.last ∧ N < 240 ∨
      g.head.first = 0 ∧ 0 < g.last ∧ 240 ≤ N * (g.last + 1) ∧ ends)
  else g.more = [] ∧ N * g.head.first + 240 ≤ N * (g.last + 1) ∧ ends

/-- When all groups come out right. -/
def ExactFrom (N : Nat) (ends : Tone → Prop) (isFirst : Bool) : List Group → Prop
  | [] => True
  | [g] => g.ExactLast N isFirst (ends g.head.value)
  | g :: g' :: gs => g.ExactInner N isFirst ∧ ExactFrom N ends false (g' :: gs)

/-! ## The lines that should be printed -/

/-- The lines of the runs that last long enough. -/
def runEvents (N : Nat) (rs : List (Run Tone)) : List Event :=
  (rs.filter fun r => N * r.first + 240 ≤ N * (r.last + 1)).map (runEvent N)

theorem runEvents_append (N : Nat) (rs ss : List (Run Tone)) :
    runEvents N (rs ++ ss) = runEvents N rs ++ runEvents N ss := by
  simp [runEvents]

theorem mem_runEvents {N : Nat} {rs : List (Run Tone)} {e : Event} :
    e ∈ runEvents N rs ↔
      ∃ r ∈ rs, N * r.first + 240 ≤ N * (r.last + 1) ∧ runEvent N r = e := by
  simp [runEvents, and_assoc]

/-- Runs in order, none of them empty. -/
structure Ordered (rs : List (Run Tone)) : Prop where
  pairwise : rs.Pairwise fun r s => r.last < s.first
  le : ∀ r ∈ rs, r.first ≤ r.last

theorem Ordered.append_left {rs ss : List (Run Tone)} (h : Ordered (rs ++ ss)) : Ordered rs :=
  ⟨(List.pairwise_append.mp h.pairwise).1, fun r hr => h.le r (List.mem_append_left ss hr)⟩

/-- No event is right exactly when no run is long enough. -/
theorem Group.unreported_iff {N : Nat} {g : Group} :
    [] = runEvents N g.runs ↔ ∀ r ∈ g.runs, N * (r.last + 1) < N * r.first + 240 := by
  rw [eq_comm, runEvents, List.map_eq_nil_iff, List.filter_eq_nil_iff]
  simp

section Group

variable {g : Group} (h : Ordered g.runs)
include h

theorem Group.head_first_le {r : Run Tone} (hr : r ∈ g.runs) : g.head.first ≤ r.first := by
  rcases List.mem_cons.mp hr with rfl | hmore
  · exact Nat.le_refl _
  · have hlt := (List.pairwise_cons.mp h.pairwise).1 r hmore
    have hle := h.le g.head List.mem_cons_self
    omega

theorem Group.last_le {r : Run Tone} (hr : r ∈ g.runs) : r.last ≤ g.last := by
  obtain ⟨head, more⟩ := g
  rcases List.eq_nil_or_concat more with rfl | ⟨init, final, hmore⟩
  · have heq : r = head := by simpa [Group.runs] using hr
    rw [heq]
    exact Nat.le_refl _
  · rw [List.concat_eq_append] at hmore
    subst hmore
    have hlast : Group.last ⟨head, init ++ [final]⟩ = final.last := by simp [Group.last]
    have hsplit : Group.runs ⟨head, init ++ [final]⟩ = (head :: init) ++ [final] := rfl
    rw [hlast]
    rw [hsplit] at h hr
    rcases List.mem_append.mp hr with hinit | hfinal
    · have hlt := (List.pairwise_append.mp h.pairwise).2.2 r hinit final (by simp)
      have hle := h.le final (by simp)
      omega
    · rw [List.mem_singleton.mp hfinal]

/-- Only a group of one run ends with its first run. -/
theorem Group.more_eq_nil (hlast : g.head.last = g.last) : g.more = [] := by
  obtain ⟨head, more⟩ := g
  cases more with
  | nil => rfl
  | cons s ss =>
      have hs : s ∈ Group.runs ⟨head, s :: ss⟩ := by simp [Group.runs]
      have hlt := (List.pairwise_cons.mp h.pairwise).1 s List.mem_cons_self
      have hle := h.le s hs
      have hend := Group.last_le h hs
      omega

/-- One event for the whole group is right exactly when the group is one run, long enough, and
the event starts where it does. -/
theorem Group.reported_iff {N : Nat} (hN : 0 < N) {start : Int} {c : Char}
    (hstart : start ≤ N * g.head.first) :
    [⟨start, N * (g.last + 1), c⟩] = runEvents N g.runs ↔
      g.more = [] ∧ start = N * g.head.first ∧ N * g.head.first + 240 ≤ N * (g.last + 1) ∧
        c = symbolAt (toneOffset g.head.value) := by
  constructor
  · intro heq
    have hmem : (⟨start, N * (g.last + 1), c⟩ : Event) ∈ runEvents N g.runs := by
      rw [← heq]
      exact List.mem_singleton_self _
    obtain ⟨r, hr, hlong, hevent⟩ := mem_runEvents.mp hmem
    rw [runEvent, Event.mk.injEq] at hevent
    obtain ⟨hfirst, hlast, hsymbol⟩ := hevent
    have hle : r.first ≤ g.head.first := by
      have : ((N * r.first : Nat) : Int) ≤ ((N * g.head.first : Nat) : Int) := by
        push_cast
        omega
      exact Nat.le_of_mul_le_mul_left (by exact_mod_cast this) hN
    have hend : r.last = g.last := by
      have : (N * (r.last + 1) : Nat) = N * (g.last + 1) := by exact_mod_cast hlast
      have := Nat.eq_of_mul_eq_mul_left hN this
      omega
    have hhead : r = g.head := by
      rcases List.mem_cons.mp hr with hhead | hmore
      · exact hhead
      · have hlt := (List.pairwise_cons.mp h.pairwise).1 r hmore
        have hne := h.le g.head List.mem_cons_self
        omega
    subst hhead
    exact ⟨Group.more_eq_nil h hend, hfirst.symm, by rw [← hend]; exact hlong, hsymbol.symm⟩
  · rintro ⟨hmore, rfl, hlong, rfl⟩
    obtain ⟨head, more⟩ := g
    subst hmore
    have hlast : Group.last ⟨head, []⟩ = head.last := rfl
    rw [hlast] at hlong ⊢
    simp [Group.runs, runEvents, hlong, runEvent, toneOffset]

theorem Group.unreported_of_short {N : Nat} (hshort : N * (g.last + 1) < N * g.head.first + 240) :
    [] = runEvents N g.runs := by
  refine Group.unreported_iff.mpr fun r hr => ?_
  have hfirst := Nat.mul_le_mul_left N (Group.head_first_le h hr)
  have hlast := Nat.mul_le_mul_left N (Nat.succ_le_succ (Group.last_le h hr))
  simp only [Nat.succ_eq_add_one] at hlast
  omega

end Group

/-! ## The machine on the groups -/

/-- The phase after a group. The first group is dated from sample 0, and has no end before its
second block. -/
def Group.phase (N : Nat) (isFirst : Bool) (g : Group) : Phase where
  startIdx := if isFirst then 0 else N * g.head.first
  endIdx := if isFirst && g.more.isEmpty && g.head.first == g.head.last then 0 else N * (g.last + 1)
  tone := g.head.value

theorem Group.phase_later (N : Nat) (g : Group) :
    g.phase N false = ⟨N * g.head.first, N * (g.last + 1), g.head.value⟩ := rfl

theorem Group.phase_single {N : Nat} {g : Group} (h : g.more = [] ∧ g.head.first = g.head.last) :
    g.phase N true = ⟨0, 0, g.head.value⟩ := by
  simp [Group.phase, h.1, h.2]

theorem Group.phase_first {N : Nat} {g : Group} (h : ¬(g.more = [] ∧ g.head.first = g.head.last)) :
    g.phase N true = ⟨0, N * (g.last + 1), g.head.value⟩ := by
  have hcond : (true && g.more.isEmpty && g.head.first == g.head.last) = false := by
    rw [Bool.true_and, Bool.and_eq_false_iff, List.isEmpty_eq_false_iff, beq_eq_false_iff_ne]
    exact not_and_or.mp h
  simp only [Group.phase, hcond]
  rfl

theorem Group.last_of_more {g : Group} (h : g.more = []) : g.last = g.head.last := by
  simp [Group.last, h]

theorem Group.phase_endIdx_le (N : Nat) (isFirst : Bool) (g : Group) :
    (g.phase N isFirst).endIdx ≤ N * (g.last + 1) := by
  have hnonneg : (0 : Int) ≤ N * (g.last + 1) := by exact_mod_cast Nat.zero_le (N * (g.last + 1))
  simp only [Group.phase]
  split
  · exact hnonneg
  · exact Int.le_refl _

theorem Group.exists_last (g : Group) : ∃ r ∈ g.runs, r.last = g.last := by
  cases hlast : g.more.getLast? with
  | none => exact ⟨g.head, List.mem_cons_self, by rw [Group.last, hlast]; rfl⟩
  | some r =>
      exact ⟨r, List.mem_cons_of_mem _ (List.mem_of_getLast? hlast), by rw [Group.last, hlast]; rfl⟩

/-- A single block goes unreported, rightly where it is short. -/
theorem Group.single_iff {N : Nat} {g : Group} (h : g.more = [] ∧ g.head.first = g.head.last) :
    [] = runEvents N g.runs ↔ N < 240 := by
  have hblock : N * (g.head.last + 1) = N * g.head.last + N := Nat.mul_succ N g.head.last
  rw [Group.unreported_iff]
  simp only [Group.runs, h.1, List.mem_singleton, forall_eq, h.2, hblock]
  omega

/-- The first group is reported from sample 0 on. -/
theorem Group.reported_first_iff {N : Nat} (hN : 0 < N) {g : Group} (h : Ordered g.runs) {c : Char}
    (hsingle : ¬(g.more = [] ∧ g.head.first = g.head.last)) :
    [⟨0, N * (g.last + 1), c⟩] = runEvents N g.runs ↔
      g.more = [] ∧ g.head.first = 0 ∧ 0 < g.last ∧ 240 ≤ N * (g.last + 1) ∧
        c = symbolAt (toneOffset g.head.value) := by
  have hnonneg : (0 : Int) ≤ N * g.head.first := by exact_mod_cast Nat.zero_le _
  rw [Group.reported_iff h hN hnonneg]
  constructor
  · rintro ⟨hmore, hzero, hlong, hc⟩
    have hfirst : g.head.first = 0 := by
      have : N * g.head.first = 0 := by exact_mod_cast hzero.symm
      rcases Nat.mul_eq_zero.mp this with hN' | hfirst
      · omega
      · exact hfirst
    have hlast := Group.last_of_more hmore
    have hne : g.head.first ≠ g.head.last := fun heq => hsingle ⟨hmore, heq⟩
    exact ⟨hmore, hfirst, by omega, by rw [hfirst] at hlong; simpa using hlong, hc⟩
  · rintro ⟨hmore, hfirst, -, hlong, hc⟩
    exact ⟨hmore, by simp [hfirst], by simpa [hfirst] using hlong, hc⟩

/-- The event reported at the change of tone, if any, is the group. -/
theorem Group.change_iff {N : Nat} (hN : 0 < N) {g : Group} (h : Ordered g.runs) (isFirst : Bool) :
    (g.phase N isFirst).change = runEvents N g.runs ↔ g.ExactInner N isFirst := by
  cases isFirst with
  | false =>
      rw [Group.phase_later, Group.ExactInner, if_neg Bool.false_ne_true]
      by_cases hlong : N * g.head.first + 240 ≤ N * (g.last + 1)
      · have hlong' : (240 : Int) ≤ N * (g.last + 1) - N * g.head.first := by
          have : ((N * g.head.first + 240 : Nat) : Int) ≤ ((N * (g.last + 1) : Nat) : Int) := by
            exact_mod_cast hlong
          push_cast at this
          omega
        rw [Phase.change, if_pos hlong', Group.reported_iff h hN (Int.le_refl _)]
        exact ⟨fun hex => Or.inl hex.1, fun hor => ⟨hor.resolve_right (by omega), rfl, hlong, rfl⟩⟩
      · have hshort : ¬ (240 : Int) ≤ N * (g.last + 1) - N * g.head.first := by
          intro hle
          apply hlong
          have : ((N * g.head.first + 240 : Nat) : Int) ≤ ((N * (g.last + 1) : Nat) : Int) := by
            push_cast
            omega
          exact_mod_cast this
        rw [Phase.change, if_neg hshort]
        exact ⟨fun _ => Or.inr (by omega), fun _ => Group.unreported_of_short h (by omega)⟩
  | true =>
      rw [Group.ExactInner, if_pos rfl]
      -- a first group of one block has no length
      by_cases hsingle : g.more = [] ∧ g.head.first = g.head.last
      · have hlast := Group.last_of_more hsingle.1
        have hle : N ≤ N * (g.last + 1) := Nat.le_mul_of_pos_right N (Nat.succ_pos _)
        have hnone : (⟨0, 0, g.head.value⟩ : Phase).change = [] := rfl
        rw [Group.phase_single hsingle, hnone, Group.single_iff hsingle]
        constructor
        · intro hN'
          exact Or.inr ⟨hsingle.1, Or.inl ⟨hsingle.2.trans hlast.symm, hN'⟩⟩
        · rintro (hshort | ⟨-, ⟨-, hN'⟩ | ⟨hzero, hpos⟩⟩)
          · omega
          · exact hN'
          · omega
      · rw [Group.phase_first hsingle]
        by_cases hlong : 240 ≤ N * (g.last + 1)
        · have hlong' : (240 : Int) ≤ N * (g.last + 1) - 0 := by
            rw [sub_zero]
            exact_mod_cast hlong
          rw [Phase.change, if_pos hlong', Group.reported_first_iff hN h hsingle]
          constructor
          · rintro ⟨hmore, hfirst, hpos, -, -⟩
            exact Or.inr ⟨hmore, Or.inr ⟨hfirst, hpos⟩⟩
          · rintro (hshort | ⟨hmore, ⟨hblock, -⟩ | ⟨hfirst, hpos⟩⟩)
            · omega
            · exact absurd ⟨hmore, hblock.trans (Group.last_of_more hmore)⟩ hsingle
            · exact ⟨hmore, hfirst, hpos, hlong, rfl⟩
        · have hshort : ¬ (240 : Int) ≤ N * (g.last + 1) - 0 := by
            rw [sub_zero]
            exact_mod_cast hlong
          rw [Phase.change, if_neg hshort]
          exact ⟨fun _ => Or.inl (by omega), fun _ => Group.unreported_of_short h (by omega)⟩

/-- The event reported at the end, if any, is the group. -/
theorem Group.finish_iff {N : Nat} (hN : 0 < N) {g : Group} (h : Ordered g.runs) (isFirst : Bool)
    (c : Char) :
    finishWith c (some (g.phase N isFirst)) = runEvents N g.runs ↔
      g.ExactLast N isFirst (c = symbolAt (toneOffset g.head.value)) := by
  have hend : (0 : Int) < N * (g.last + 1) := by
    exact_mod_cast Nat.mul_pos hN (Nat.succ_pos g.last)
  cases isFirst with
  | false =>
      rw [Group.phase_later, Group.ExactLast, if_neg Bool.false_ne_true, finishWith, if_pos hend,
        Group.reported_iff h hN (Int.le_refl _)]
      constructor
      · rintro ⟨hmore, -, hlong, hc⟩
        exact ⟨hmore, hlong, hc⟩
      · rintro ⟨hmore, hlong, hc⟩
        exact ⟨hmore, rfl, hlong, hc⟩
  | true =>
      rw [Group.ExactLast, if_pos rfl]
      by_cases hsingle : g.more = [] ∧ g.head.first = g.head.last
      · have hlast := Group.last_of_more hsingle.1
        have hnone : finishWith c (some (⟨0, 0, g.head.value⟩ : Phase)) = [] := rfl
        rw [Group.phase_single hsingle, hnone, Group.single_iff hsingle]
        constructor
        · intro hN'
          exact ⟨hsingle.1, Or.inl ⟨hsingle.2.trans hlast.symm, hN'⟩⟩
        · rintro ⟨-, ⟨-, hN'⟩ | ⟨hzero, hpos, -⟩⟩
          · exact hN'
          · omega
      · rw [Group.phase_first hsingle, finishWith, if_pos hend,
          Group.reported_first_iff hN h hsingle]
        constructor
        · rintro ⟨hmore, hrest⟩
          exact ⟨hmore, Or.inr hrest⟩
        · rintro ⟨hmore, ⟨hblock, -⟩ | hrest⟩
          · exact absurd ⟨hmore, hblock.trans (Group.last_of_more hmore)⟩ hsingle
          · exact ⟨hmore, hrest⟩

/-! ## All groups -/

/-- Two concatenations that a property separates are equal part by part. -/
theorem append_eq_append_iff_of_separated {α : Type*} (p : α → Prop) [DecidablePred p]
    {as bs cs ds : List α} (has : ∀ a ∈ as, p a) (hbs : ∀ b ∈ bs, ¬ p b) (hcs : ∀ c ∈ cs, p c)
    (hds : ∀ d ∈ ds, ¬ p d) : as ++ bs = cs ++ ds ↔ as = cs ∧ bs = ds := by
  have keep : ∀ xs ys : List α, (∀ x ∈ xs, p x) → (∀ y ∈ ys, ¬ p y) →
      (xs ++ ys).filter p = xs := by
    intro xs ys hxs hys
    have hleft : xs.filter p = xs := List.filter_eq_self.mpr (by simpa using hxs)
    have hright : ys.filter p = [] := List.filter_eq_nil_iff.mpr (by simpa using hys)
    rw [List.filter_append, hleft, hright, List.append_nil]
  constructor
  · intro heq
    have hfront : as = cs := by rw [← keep as bs has hbs, heq, keep cs ds hcs hds]
    subst hfront
    exact ⟨rfl, List.append_cancel_left heq⟩
  · rintro ⟨rfl, rfl⟩
    rfl

theorem mem_change {p : Phase} {e : Event} (h : e ∈ p.change) : e.endIdx = p.endIdx := by
  rw [Phase.change] at h
  split_ifs at h
  · rw [List.mem_singleton.mp h]
  · exact absurd h List.not_mem_nil

/-- Whatever the machine prints ends where the phase does, or with one of the runs. -/
theorem mem_machine {N : Nat} {c : Char} {p : Phase} {rs : List (Run Tone)} {e : Event}
    (h : e ∈ machine N c (some p) rs) :
    e.endIdx = p.endIdx ∨ ∃ r ∈ rs, e.endIdx = N * (r.last + 1) := by
  induction rs generalizing p with
  | nil =>
      simp only [machine, finishWith] at h
      split_ifs at h
      · rw [List.mem_singleton.mp h]
        exact Or.inl rfl
      · exact absurd h List.not_mem_nil
  | cons r rs ih =>
      have hend : (runStep N (some p) r).1.endIdx = N * (r.last + 1) := by
        simp only [runStep]
        split_ifs <;> rfl
      rcases List.mem_append.mp h with hnow | hlater
      · simp only [runStep] at hnow
        split_ifs at hnow
        · exact absurd hnow List.not_mem_nil
        · exact Or.inl (mem_change hnow)
      · rcases ih hlater with hphase | ⟨s, hs, hlast⟩
        · exact Or.inr ⟨r, List.mem_cons_self, hphase.trans hend⟩
        · exact Or.inr ⟨s, List.mem_cons_of_mem r hs, hlast⟩

theorem groupsFrom_ne_nil (g : Group) (rs : List (Run Tone)) : groupsFrom g rs ≠ [] := by
  induction rs generalizing g with
  | nil => exact List.cons_ne_nil g []
  | cons r rs ih =>
      rw [groupsFrom]
      split_ifs
      · exact ih _
      · exact List.cons_ne_nil g _

theorem exactFrom_cons {N : Nat} {ends : Tone → Prop} {isFirst : Bool} {g : Group} {gs : List Group}
    (h : gs ≠ []) :
    ExactFrom N ends isFirst (g :: gs) ↔ g.ExactInner N isFirst ∧ ExactFrom N ends false gs := by
  cases gs with
  | nil => exact absurd rfl h
  | cons g' gs => exact Iff.rfl

/-- The machine, started in the phase of a group, prints the long runs exactly when the groups
come out right. -/
theorem exactFrom_iff {N : Nat} (hN : 0 < N) (c : Char) (rs : List (Run Tone)) {g : Group}
    {isFirst : Bool} (h : Ordered (g.runs ++ rs)) :
    machine N c (some (g.phase N isFirst)) rs = runEvents N (g.runs ++ rs) ↔
      ExactFrom N (fun t => c = symbolAt (toneOffset t)) isFirst (groupsFrom g rs) := by
  induction rs generalizing g isFirst with
  | nil =>
      rw [List.append_nil] at h ⊢
      exact Group.finish_iff hN h isFirst c
  | cons r rs ih =>
      by_cases hsame : r.value = g.head.value
      · -- The group goes on: nothing is printed, and the phase is that of the longer group.
        have hlonger : (g.runs ++ r :: rs) = Group.runs { g with more := g.more ++ [r] } ++ rs := by
          simp [Group.runs]
        have hstep : runStep N (some (g.phase N isFirst)) r =
            (Group.phase N isFirst { g with more := g.more ++ [r] }, []) := by
          have hvalue : r.value = (g.phase N isFirst).tone := hsame
          rw [runStep, if_pos hvalue]
          simp [Group.phase, Group.last]
        rw [machine, hstep, List.nil_append, hlonger, groupsFrom, if_pos hsame]
        exact ih (hlonger ▸ h)
      · have hstep : runStep N (some (g.phase N isFirst)) r =
            (Group.phase N false ⟨r, []⟩, (g.phase N isFirst).change) := by
          have hvalue : ¬ r.value = (g.phase N isFirst).tone := hsame
          rw [runStep, if_neg hvalue]
          rfl
        have hgroup : Ordered g.runs := h.append_left
        have hrest : Ordered (Group.runs ⟨r, []⟩ ++ rs) :=
          ⟨(List.pairwise_append.mp h.pairwise).2.1,
            fun s hs => h.le s (List.mem_append_right g.runs hs)⟩
        have later : ∀ s ∈ r :: rs, (N * (g.last + 1) : Int) < N * (s.last + 1) := by
          intro s hs
          obtain ⟨final, hfinal, hlast⟩ := Group.exists_last g
          have hlt := (List.pairwise_append.mp h.pairwise).2.2 final hfinal s hs
          have hle := h.le s (List.mem_append_right g.runs hs)
          exact_mod_cast Nat.mul_lt_mul_of_pos_left (by omega : g.last + 1 < s.last + 1) hN
        rw [machine, hstep, runEvents_append, groupsFrom, if_neg hsame,
          exactFrom_cons (groupsFrom_ne_nil _ _), ← Group.change_iff hN hgroup,
          ← ih hrest]
        -- The events of the group end with it, the others later.
        refine append_eq_append_iff_of_separated (fun e : Event => e.endIdx ≤ N * (g.last + 1))
          ?_ ?_ ?_ ?_
        · intro e he
          rw [mem_change he]
          exact Group.phase_endIdx_le N isFirst g
        · intro e he
          rcases mem_machine he with hend | ⟨s, hs, hend⟩
          · exact hend ▸ Int.not_le.mpr (later r List.mem_cons_self)
          · exact hend ▸ Int.not_le.mpr (later s (List.mem_cons_of_mem r hs))
        · intro e he
          obtain ⟨s, hs, -, rfl⟩ := mem_runEvents.mp he
          have hle : N * (s.last + 1) ≤ N * (g.last + 1) :=
            Nat.mul_le_mul_left N (Nat.succ_le_succ (Group.last_le hgroup hs))
          show (N * (s.last + 1) : Int) ≤ N * (g.last + 1)
          exact_mod_cast hle
        · intro e he
          obtain ⟨s, hs, -, rfl⟩ := mem_runEvents.mp he
          exact Int.not_le.mpr (later s hs)

/-! ## The tone tests -/

/-- The last row and the last column that any block showed are those of the tone. -/
def EndsWith (tests : List ToneTest) (t : Tone) : Prop :=
  (tests.filterMap ToneTest.row).getLast? = some t.1 ∧
    (tests.filterMap ToneTest.col).getLast? = some t.2

/-- The condition on the tone tests: every group of runs comes out right. -/
def DetectsExactly (N : Nat) (tests : List ToneTest) : Prop :=
  ExactFrom N (EndsWith tests) true (groups (runs (tests.map ToneTest.verdict)))

theorem detectBlock_curRowTone (N : Nat) (b : ToneTest) (s : DetectState) :
    (detectBlock id N b s).1.curRowTone =
      b.row.elim s.curRowTone fun row => 4 * (row.val : Int) := by
  simp only [detectBlock]
  split_ifs <;> rfl

theorem detectBlock_curColTone (N : Nat) (b : ToneTest) (s : DetectState) :
    (detectBlock id N b s).1.curColTone = b.col.elim s.curColTone fun col => (col.val : Int) := by
  simp only [detectBlock]
  split_ifs <;> rfl

theorem elim_getLast?_filterMap_cons {α β γ : Type*} (f : α → Option β) (F : β → γ) (z : γ) (b : α)
    (bs : List α) :
    ((b :: bs).filterMap f).getLast?.elim z F =
      (bs.filterMap f).getLast?.elim ((f b).elim z F) F := by
  cases hb : f b with
  | none => simp [hb]
  | some r => cases hbs : (bs.filterMap f).getLast? <;> simp [hb, List.getLast?_cons, hbs]

theorem curRowTone_eq (N : Nat) (tests : List ToneTest) (s : DetectState) :
    (detectBlocks id N tests s).1.curRowTone =
      ((tests.filterMap ToneTest.row).getLast?).elim s.curRowTone fun r => 4 * (r.val : Int) := by
  induction tests generalizing s with
  | nil => rfl
  | cons b bs ih =>
      rw [detectBlocks, elim_getLast?_filterMap_cons, ← detectBlock_curRowTone N b s]
      exact ih _

theorem curColTone_eq (N : Nat) (tests : List ToneTest) (s : DetectState) :
    (detectBlocks id N tests s).1.curColTone =
      ((tests.filterMap ToneTest.col).getLast?).elim s.curColTone fun c => (c.val : Int) := by
  induction tests generalizing s with
  | nil => rfl
  | cons b bs ih =>
      rw [detectBlocks, elim_getLast?_filterMap_cons, ← detectBlock_curColTone N b s]
      exact ih _

/-- No two tones have one symbol. -/
theorem symbolAt_inj : ∀ r c r' c' : Fin 4,
    symbolAt (4 * (r.val : Int) + (c.val : Int)) = symbolAt (4 * (r'.val : Int) + (c'.val : Int)) →
      r = r' ∧ c = c' := by
  decide

theorem getLast?_filterMap_isSome {α β : Type*} {f : α → Option β} {as : List α} {a : α} {b : β}
    (ha : a ∈ as) (hb : f a = some b) : ∃ c, (as.filterMap f).getLast? = some c := by
  have hne : as.filterMap f ≠ [] := List.ne_nil_of_mem (List.mem_filterMap.mpr ⟨a, ha, hb⟩)
  exact ⟨_, List.getLast?_eq_some_getLast hne⟩

/-- The symbol of the last line is the tone's exactly when the blocks end with the tone. -/
theorem lastSymbol_iff {N : Nat} {tests : List ToneTest} {b : ToneTest} {u : Tone}
    (hb : b ∈ tests) (hverdict : b.verdict = some u) (t : Tone) :
    lastSymbol N tests {} = symbolAt (toneOffset t) ↔ EndsWith tests t := by
  have htest := verdict_eq_some hverdict
  have hrow : b.row = some u.1 := by rw [htest]
  have hcol : b.col = some u.2 := by rw [htest]
  obtain ⟨r, hr⟩ := getLast?_filterMap_isSome hb hrow
  obtain ⟨c, hc⟩ := getLast?_filterMap_isSome hb hcol
  rw [lastSymbol, curRowTone_eq, curColTone_eq, EndsWith, hr, hc, Option.elim_some,
    Option.elim_some, toneOffset]
  constructor
  · intro h
    obtain ⟨hr', hc'⟩ := symbolAt_inj _ _ _ _ h
    rw [hr', hc']
    exact ⟨rfl, rfl⟩
  · rintro ⟨hr', hc'⟩
    rw [Option.some.inj hr', Option.some.inj hc']

theorem exactFrom_congr {N : Nat} {p q : Tone → Prop} (h : ∀ t, p t ↔ q t) (isFirst : Bool)
    (gs : List Group) : ExactFrom N p isFirst gs ↔ ExactFrom N q isFirst gs := by
  have hpq : p = q := funext fun t => propext (h t)
  rw [hpq]

theorem runs_ordered (vs : List (Option Tone)) : Ordered (runs vs) :=
  ⟨runs_pairwise vs, fun r hr => ((mem_runs_iff vs r).mp hr).le⟩

theorem dtmf_detect_events_eq_iff {N : Nat} (hN : 0 < N) (tests : List ToneTest) :
    dtmf_detect_events id N tests = runEvents N (runs (tests.map ToneTest.verdict)) ↔
      DetectsExactly N tests := by
  have hordered := runs_ordered (tests.map ToneTest.verdict)
  rw [detect_eq_machine, DetectsExactly]
  cases hruns : runs (tests.map ToneTest.verdict) with
  | nil => simp [machine, finishWith, runEvents, groups, ExactFrom]
  | cons r rs =>
      -- The first block of the first run shows a tone, so a last row and column exist.
      have hrun : IsRun (tests.map ToneTest.verdict) r :=
        (mem_runs_iff _ r).mp (by rw [hruns]; exact List.mem_cons_self)
      have hentry := hrun.inside r.first (Nat.le_refl _) hrun.le
      obtain ⟨b, hb, hverdict⟩ := List.mem_map.mp (List.mem_of_getElem? hentry)
      have hstep : runStep N none r = (Group.phase N true ⟨r, []⟩, []) := by
        rcases Nat.lt_or_eq_of_le hrun.le with hlt | heq
        · rw [Group.phase_first (g := ⟨r, []⟩) fun h => Nat.ne_of_lt hlt h.2]
          simp only [runStep, if_pos hlt]
          rfl
        · rw [Group.phase_single (g := ⟨r, []⟩) ⟨rfl, heq⟩]
          simp only [runStep, heq, Nat.lt_irrefl, if_false]
      rw [hruns] at hordered
      rw [machine, hstep, List.nil_append, groups,
        exactFrom_congr (fun t => (lastSymbol_iff (N := N) hb hverdict t).symm)]
      exact exactFrom_iff hN (lastSymbol N tests {}) rs (g := ⟨r, []⟩) hordered

/-! ## The events of the specification -/

theorem runEvent_duration (N : Nat) (r : Run Tone) :
    MIN_DTMF_DURATION ≤ (runEvent N r).duration ↔ N * r.first + 240 ≤ N * (r.last + 1) := by
  rw [Event.duration, ← ge_iff_le, duration_iff]
  show (240 : Int) ≤ N * (r.last + 1) - N * r.first ↔ _
  constructor
  · intro h
    have : ((N * r.first + 240 : Nat) : Int) ≤ ((N * (r.last + 1) : Nat) : Int) := by
      push_cast
      omega
    exact_mod_cast this
  · intro h
    have : ((N * r.first + 240 : Nat) : Int) ≤ ((N * (r.last + 1) : Nat) : Int) := by
      exact_mod_cast h
    push_cast at this
    omega

/-- The long maximal runs, in order, are the only list that the specification allows. -/
theorem segmented_iff {N : Nat} (hN : 0 < N) (vs : List (Option Tone)) (events : List Event) :
    Segmented N vs events ↔ events = runEvents N (runs vs) := by
  have hexact : ∀ e, e ∈ runEvents N (runs vs) ↔
      ∃ r, IsRun vs r ∧ e = runEvent N r ∧ MIN_DTMF_DURATION ≤ e.duration := by
    intro e
    rw [mem_runEvents]
    constructor
    · rintro ⟨r, hr, hlong, rfl⟩
      exact ⟨r, (mem_runs_iff vs r).mp hr, rfl, (runEvent_duration N r).mpr hlong⟩
    · rintro ⟨r, hr, rfl, hlong⟩
      exact ⟨r, (mem_runs_iff vs r).mpr hr, (runEvent_duration N r).mp hlong, rfl⟩
  have hordered : (runEvents N (runs vs)).Pairwise fun e e' => e.startIdx < e'.startIdx := by
    have hruns := (runs_ordered vs)
    rw [runEvents, List.pairwise_map]
    refine (hruns.pairwise.filter _).imp_of_mem fun {r s} hr _ hlt => ?_
    have hle := hruns.le r (List.mem_filter.mp hr).1
    show (N * r.first : Int) < N * s.first
    exact_mod_cast Nat.mul_lt_mul_of_pos_left (by omega : r.first < s.first) hN
  constructor
  · rintro ⟨horder, hspec⟩
    have : Std.Asymm fun e e' : Event => e.startIdx < e'.startIdx :=
      ⟨fun _ _ hlt => Int.lt_asymm hlt⟩
    have : Std.Irrefl fun e e' : Event => e.startIdx < e'.startIdx :=
      ⟨fun _ => Int.lt_irrefl _⟩
    exact horder.eq_of_mem_iff hordered fun e => (hspec e).trans (hexact e).symm
  · rintro rfl
    exact ⟨hordered, hexact⟩

/-- The lines of `dtmf_detect` are those of the specification exactly when every group of runs
comes out right. -/
theorem detect_segmented_iff (N : Nat) (hN : 10 ≤ N) (tests : List ToneTest) :
    Segmented N (tests.map ToneTest.verdict) (dtmf_detect_events id N tests) ↔
      DetectsExactly N tests := by
  have hpos : 0 < N := by omega
  rw [segmented_iff hpos, dtmf_detect_events_eq_iff hpos]

/-- A tone that is there from the first block on, for three blocks, is reported as it should be. -/
theorem detect_segmented_three :
    Segmented 100 [some (0, 0), some (0, 0), some (0, 0)]
      (dtmf_detect_events id 100
        [⟨some 0, some 0, true⟩, ⟨some 0, some 0, true⟩, ⟨some 0, some 0, true⟩]) :=
  (detect_segmented_iff 100 (by decide)
    [⟨some 0, some 0, true⟩, ⟨some 0, some 0, true⟩, ⟨some 0, some 0, true⟩]).mpr
    ⟨rfl, Or.inr ⟨rfl, by decide, by decide, rfl, rfl⟩⟩

/-- After three silent blocks the same tone is reported from sample 0 on. -/
theorem detect_not_segmented :
    ¬ Segmented 100 [none, none, none, some (0, 0), some (0, 0), some (0, 0)]
      (dtmf_detect_events id 100
        [⟨none, none, false⟩, ⟨none, none, false⟩, ⟨none, none, false⟩,
          ⟨some 0, some 0, true⟩, ⟨some 0, some 0, true⟩, ⟨some 0, some 0, true⟩]) := by
  rw [segmented_iff (by decide)]
  decide

end StarterProjects.Dtmf
