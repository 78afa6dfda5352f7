import Mathlib.Algebra.BigOperators.Group.List.Basic
import Mathlib.Algebra.Ring.Nat
import Mathlib.Data.List.Nodup
import Mathlib.Tactic.Common
import Mathlib.Logic.Function.Basic

/-!
# Tilings of an interval

A partial map `sz` from addresses to lengths tiles `[lo, hi)` when its pieces
lie in the interval, do not overlap, and each is followed by another piece or by
the end. The operations are the ones a heap performs: cut a piece in two, fuse
two neighbours, lengthen the last piece, append a piece.
-/

namespace Lib

structure Tiles (lo hi : Nat) (sz : Nat → Option Nat) : Prop where
  first : ∃ k, sz lo = some k
  inside : ∀ {a k}, sz a = some k → lo ≤ a ∧ 0 < k ∧ a + k ≤ hi
  apart : ∀ {a b k l}, sz a = some k → sz b = some l → a < b → a + k ≤ b
  next : ∀ {a k}, sz a = some k → a + k = hi ∨ ∃ l, sz (a + k) = some l

namespace Tiles

variable {lo hi a k : Nat} {sz : Nat → Option Nat}

/-- Rule for walks: what holds of the first piece and passes from each piece to
the next holds of every piece. -/
theorem walk (t : Tiles lo hi sz) {P : Nat → Prop} (h0 : P lo)
    (hs : ∀ a k, sz a = some k → P a → a + k < hi → P (a + k)) {b l : Nat}
    (hb : sz b = some l) : P b := by
  obtain ⟨k0, h1⟩ := t.first
  -- the distance to `b` decreases along the walk
  suffices h : ∀ n a k, b - a = n → a ≤ b → sz a = some k → P a → P b from
    h _ lo k0 rfl (t.inside hb).1 h1 h0
  intro n
  induction n using Nat.strongRecOn with
  | ind n ih =>
    intro a k hn hab ha hP
    rcases Nat.lt_or_eq_of_le hab with hlt | rfl
    · have hle := t.apart ha hb hlt
      have hpos := t.inside ha
      have hbi := t.inside hb
      rcases t.next ha with he | ⟨l', hl'⟩
      · omega
      · exact ih (b - (a + k)) (by omega) (a + k) l' rfl hle hl' (hs a k ha hP (by omega))
    · exact hP

theorem congr {sz' : Nat → Option Nat} (t : Tiles lo hi sz) (h : ∀ x, sz' x = sz x) :
    Tiles lo hi sz' := by
  rwa [funext h]

/-- Cut the piece at `a` after `m` units. -/
theorem split (t : Tiles lo hi sz) (ha : sz a = some k) {m : Nat} (hm : 0 < m) (hk : m < k) :
    Tiles lo hi fun x => if x = a + m then some (k - m) else if x = a then some m else sz x where
  first := by
    have h1 := t.inside ha
    by_cases h2 : lo = a + m
    · exact ⟨_, if_pos h2⟩
    · rw [if_neg h2]
      by_cases h3 : lo = a
      · exact ⟨_, if_pos h3⟩
      · rw [if_neg h3]
        exact t.first
  inside := by
    intro x l hx
    have h1 := t.inside ha
    split at hx
    · cases hx; omega
    · split at hx
      · cases hx; omega
      · exact t.inside hx
  apart := by
    intro x y l l' hx hy hxy
    -- each of the two tiles is the rest, the part in front of it or an old one
    split at hx <;> split at hy
    · omega
    · split at hy
      · omega
      · cases hx
        rcases Nat.lt_trichotomy a y with h | h | h
        · have := t.apart ha hy h; omega
        · omega
        · have := t.apart hy ha h; omega
    · split at hx
      · cases hx; omega
      · subst y
        rcases Nat.lt_trichotomy a x with h | h | h
        · have := t.apart ha hx h; omega
        · omega
        · have := t.apart hx ha h; omega
    · split at hx <;> split at hy
      · omega
      · cases hx
        have := t.apart ha hy (by omega)
        omega
      · subst y
        exact t.apart hx ha hxy
      · exact t.apart hx hy hxy
  next := by
    intro x l hx
    split at hx
    · cases hx
      have h1 : x + (k - m) = a + k := by omega
      rw [h1]
      rcases t.next ha with h | ⟨l', hl'⟩
      · exact .inl h
      · right
        rw [if_neg (by omega), if_neg (by omega)]
        exact ⟨l', hl'⟩
    · split at hx
      · cases hx
        right
        exact ⟨_, if_pos (by omega)⟩
      · rcases t.next hx with h | ⟨l', hl'⟩
        · exact .inl h
        · right
          split
          · exact ⟨_, rfl⟩
          · split
            · exact ⟨_, rfl⟩
            · exact ⟨l', hl'⟩

/-- Fuse the piece at `a` with the piece after it. -/
theorem fuse (t : Tiles lo hi sz) (ha : sz a = some k) {l : Nat} (hl : sz (a + k) = some l) :
    Tiles lo hi fun x => if x = a then some (k + l) else if x = a + k then none else sz x where
  first := by
    have h1 := t.inside ha
    by_cases h2 : lo = a
    · exact ⟨_, if_pos h2⟩
    · rw [if_neg h2, if_neg (by omega)]
      exact t.first
  inside := by
    intro x m hx
    have h1 := t.inside ha
    have h2 := t.inside hl
    split at hx
    · cases hx; omega
    · split at hx
      · cases hx
      · exact t.inside hx
  apart := by
    intro x y m m' hx hy hxy
    split at hx <;> split at hy
    · omega
    · split at hy
      · cases hy
      · cases hx
        subst x
        have h1 := t.apart ha hy hxy
        have h2 := t.apart hl hy (by omega)
        omega
    · split at hx
      · cases hx
      · subst y
        exact t.apart hx ha hxy
    · split at hx <;> split at hy
      · cases hx
      · cases hx
      · cases hy
      · exact t.apart hx hy hxy
  next := by
    intro x m hx
    have h1 := t.inside ha
    have h2 := t.inside hl
    split at hx
    · cases hx
      subst x
      rcases t.next hl with h | ⟨m', hm'⟩
      · exact .inl (by omega)
      · right
        rw [if_neg (by omega), if_neg (by omega), ← Nat.add_assoc]
        exact ⟨m', hm'⟩
    · split at hx
      · cases hx
      · rcases t.next hx with h | ⟨m', hm'⟩
        · exact .inl h
        · right
          have h3 := t.inside hx
          -- only the piece at `a` ends where the removed piece starts
          have h4 : x + m ≠ a + k := by
            intro h4
            rcases Nat.lt_trichotomy x a with h | h | h
            · have := t.apart hx ha h; omega
            · omega
            · have := t.apart ha hx h; omega
          rw [if_neg h4]
          split
          · exact ⟨_, rfl⟩
          · exact ⟨m', hm'⟩

/-- Lengthen the last piece. -/
theorem extend (t : Tiles lo hi sz) (ha : sz a = some k) (hlast : a + k = hi) (d : Nat) :
    Tiles lo (hi + d) fun x => if x = a then some (k + d) else sz x where
  first := by
    by_cases h2 : lo = a
    · exact ⟨_, if_pos h2⟩
    · rw [if_neg h2]
      exact t.first
  inside := by
    intro x m hx
    have h1 := t.inside ha
    split at hx
    · cases hx; omega
    · have := t.inside hx; omega
  apart := by
    intro x y m m' hx hy hxy
    split at hx <;> split at hy
    · omega
    · subst x
      have h1 := t.apart ha hy hxy
      have h2 := t.inside hy
      omega
    · subst y
      exact t.apart hx ha hxy
    · exact t.apart hx hy hxy
  next := by
    intro x m hx
    split at hx
    · cases hx
      exact .inl (by omega)
    · rename_i hne
      have h1 := t.inside hx
      rcases t.next hx with h | ⟨m', hm'⟩
      · -- two pieces cannot both end at `hi`
        have h2 := t.inside ha
        rcases Nat.lt_trichotomy x a with h3 | h3 | h3
        · have := t.apart hx ha h3; omega
        · exact absurd h3 hne
        · have := t.apart ha hx h3; omega
      · right
        split
        · exact ⟨_, rfl⟩
        · exact ⟨m', hm'⟩

/-- Append a piece at the end. -/
theorem snoc (t : Tiles lo hi sz) {d : Nat} (hd : 0 < d) :
    Tiles lo (hi + d) fun x => if x = hi then some d else sz x where
  first := by
    obtain ⟨k, hk⟩ := t.first
    have h1 := t.inside hk
    rw [if_neg (by omega)]
    exact t.first
  inside := by
    intro x m hx
    obtain ⟨k, hk⟩ := t.first
    have h1 := t.inside hk
    split at hx
    · cases hx; omega
    · have := t.inside hx; omega
  apart := by
    intro x y m m' hx hy hxy
    split at hx <;> split at hy
    · omega
    · have := t.inside hy; omega
    · have := t.inside hx; omega
    · exact t.apart hx hy hxy
  next := by
    intro x m hx
    split at hx
    · cases hx
      exact .inl (by omega)
    · rcases t.next hx with h | ⟨m', hm'⟩
      · exact .inr ⟨d, if_pos h⟩
      · right
        split
        · exact ⟨_, rfl⟩
        · exact ⟨m', hm'⟩

/-- The pieces in a list, from one on: each of them once, and their lengths are what is left. -/
theorem piecesFrom (t : Tiles lo hi sz) : ∀ (n a k : Nat), hi - a = n → sz a = some k →
    ∃ l : List Nat, l.Nodup ∧ (∀ b, b ∈ l ↔ a ≤ b ∧ ∃ m, sz b = some m) ∧
      (l.map fun b => (sz b).getD 0).sum = n := by
  intro n
  induction n using Nat.strongRecOn with
  | ind n ih =>
    intro a k hn ha
    have h1 := t.inside ha
    rcases t.next ha with hend | ⟨m, hm⟩
    · refine ⟨[a], List.nodup_singleton a, fun b => ?_, ?_⟩
      · rw [List.mem_singleton]
        refine ⟨fun hb => ⟨Nat.le_of_eq hb.symm, k, hb ▸ ha⟩, fun ⟨hab, l, hl⟩ => ?_⟩
        have h2 := t.inside hl
        rcases Nat.lt_or_eq_of_le hab with hlt | heq
        · have := t.apart ha hl hlt
          omega
        · exact heq.symm
      · rw [List.map_singleton, ha, List.sum_singleton, Option.getD_some]
        omega
    · have h2 := t.inside hm
      obtain ⟨l, hnodup, hmem, hsum⟩ := ih (hi - (a + k)) (by omega) (a + k) m rfl hm
      refine ⟨a :: l, List.nodup_cons.mpr ⟨fun hc => ?_, hnodup⟩, fun b => ?_, ?_⟩
      · have := ((hmem a).mp hc).1
        omega
      · rw [List.mem_cons, hmem]
        constructor
        · rintro (rfl | ⟨hle, hb⟩)
          · exact ⟨Nat.le_refl _, k, ha⟩
          · exact ⟨by omega, hb⟩
        · rintro ⟨hle, l, hl⟩
          rcases Nat.lt_or_eq_of_le hle with hlt | heq
          · exact .inr ⟨t.apart ha hl hlt, l, hl⟩
          · exact .inl heq.symm
      · rw [List.map_cons, List.sum_cons, hsum, ha, Option.getD_some]
        omega

/-- Any list that has each piece once accounts for the whole interval. -/
theorem sum_pieces (t : Tiles lo hi sz) {l : List Nat} (hnodup : l.Nodup)
    (hmem : ∀ b, b ∈ l ↔ ∃ m, sz b = some m) :
    (l.map fun b => (sz b).getD 0).sum = hi - lo := by
  obtain ⟨k, hk⟩ := t.first
  obtain ⟨l', hnodup', hmem', hsum⟩ := t.piecesFrom (hi - lo) lo k rfl hk
  have hperm : l.Perm l' := (List.perm_ext_iff_of_nodup hnodup hnodup').mpr fun b => by
    rw [hmem, hmem']
    exact ⟨fun ⟨m, hm⟩ => ⟨(t.inside hm).1, m, hm⟩, fun h => h.2⟩
  rw [← hsum]
  exact (hperm.map _).sum_eq

end Tiles

end Lib
