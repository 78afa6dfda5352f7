import Mathlib.Order.Bounds.Basic
import StarterProjects.Sfmm.Allocator

/-!
# Rounding

`sf_malloc` rounds a request in two loops that count up by one, and
`sf_realloc` in two more. The guard before the loops only looks at the low half
of the request, but it leaves `2 ^ 31` bytes below the top of the address
space, so no counter wraps (`sf_malloc_rounds`).
-/

namespace StarterProjects.Sfmm

open Lib Lib.Exec

/-- The size of the block that serves a request of `n` bytes. -/
def blockSize (n : Nat) : Nat := max 32 ((n + 23) / 16 * 16)

theorem blockSize_spec (n : Nat) :
    32 ≤ blockSize n ∧ blockSize n % 16 = 0 ∧ n + 8 ≤ blockSize n ∧ blockSize n < n + 33 := by
  unfold blockSize
  omega

theorem intNeg_of_large {n : Nat} (h : intNeg n = false) (hn : n < 2 ^ 64) :
    n < 2 ^ 64 - 2 ^ 31 := by
  unfold intNeg at h
  rw [decide_eq_false_iff_not] at h
  omega

/-! ## The loops of `sf_malloc` -/

/-- One turn of either loop: the block size, and the padding or the payload. -/
def roundTurn (p : Nat × Nat) : Nat × Nat := (add64 p.1 1, add64 p.2 1)

/-- Turns that do not wrap. -/
theorem roundTurn_iterate {b p : Nat} :
    ∀ k, b + k < 2 ^ 64 → p + k < 2 ^ 64 → roundTurn^[k] (b, p) = (b + k, p + k)
  | 0, _, _ => rfl
  | k + 1, hb, hp => by
    rw [Function.iterate_succ_apply', roundTurn_iterate k (by omega) (by omega)]
    simp only [roundTurn, add64_of_lt (show b + k + 1 < 2 ^ 64 by omega),
      add64_of_lt (show p + k + 1 < 2 ^ 64 by omega), Nat.add_assoc]

/-- The turns of the first loop: up to the next multiple of 16. -/
def padTurns (n : Nat) : Nat := (16 - (n + 8) % 16) % 16

theorem padTurns_lt (n : Nat) : padTurns n < 16 := Nat.mod_lt _ (by decide)

/-- The turns of the second loop: up to 24 bytes of payload. -/
def payloadTurns (n : Nat) : Nat := 24 - (n + padTurns n)

theorem round_turns (n : Nat) : n + 8 + padTurns n + payloadTurns n = blockSize n := by
  unfold payloadTurns padTurns blockSize
  omega

section

variable {n : Nat} (hn : n + 8 + padTurns n < 2 ^ 64)

include hn

theorem first_loop : whileLoop (fun p : Nat × Nat => p.1 % 16 != 0) roundTurn 64 (n + 8, 0) =
    some (n + 8 + padTurns n, padTurns n) := by
  have hturns := padTurns_lt n
  have hloop := whileLoop_iterate (fun p : Nat × Nat => p.1 % 16 != 0) roundTurn
    (padTurns n) 64 (n + 8, 0) (by omega)
    (fun j hj => by
      rw [roundTurn_iterate j (by omega) (by omega)]
      simp only [bne_iff_ne, ne_eq]
      unfold padTurns at hj
      omega)
    (by
      rw [roundTurn_iterate _ (by omega) (by omega)]
      simp only [bne_eq_false_iff_eq]
      unfold padTurns
      omega)
  rw [hloop, roundTurn_iterate _ (by omega) (by omega), Nat.zero_add]

theorem second_loop :
    whileLoop (fun p : Nat × Nat => p.1 % 16 != 0 || decide (p.2 < 24)) roundTurn 64
      (n + 8 + padTurns n, n + padTurns n) =
        some (n + 8 + padTurns n + payloadTurns n, n + padTurns n + payloadTurns n) := by
  have hpad := padTurns_lt n
  have hturns : payloadTurns n ≤ 24 := Nat.sub_le 24 _
  have hsmall : payloadTurns n = 0 ∨ n + padTurns n + payloadTurns n = 24 := by
    unfold payloadTurns
    omega
  have hloop := whileLoop_iterate
    (fun p : Nat × Nat => p.1 % 16 != 0 || decide (p.2 < 24)) roundTurn
    (payloadTurns n) 64 (n + 8 + padTurns n, n + padTurns n) (by omega)
    (fun j hj => by
      rw [roundTurn_iterate j (by omega) (by omega)]
      simp only [Bool.or_eq_true, bne_iff_ne, ne_eq, decide_eq_true_eq]
      right
      unfold payloadTurns at hj
      omega)
    (by
      rw [roundTurn_iterate _ (by omega) (by omega)]
      simp only [Bool.or_eq_false_iff, bne_eq_false_iff_eq, decide_eq_false_iff_not]
      unfold payloadTurns padTurns
      omega)
  rw [hloop, roundTurn_iterate _ (by omega) (by omega)]

/-- The loops end at the block size, when a block of that size fits. -/
theorem sf_malloc_round_of_lt : sf_malloc_round n = some (blockSize n) := by
  have hfirst := first_loop hn
  have hsecond := second_loop hn
  unfold roundTurn at hfirst hsecond
  unfold sf_malloc_round
  rw [add64_of_lt (show n + 8 < 2 ^ 64 by omega), hfirst]
  simp only [Option.bind_eq_bind, Option.bind_some]
  rw [add64_of_lt (show n + padTurns n < 2 ^ 64 by omega), hsecond]
  simp only [Option.bind_some, Option.pure_def, round_turns]

end

theorem sf_malloc_round_eq {n : Nat} (hn : n < 2 ^ 64 - 2 ^ 31) :
    sf_malloc_round n = some (blockSize n) :=
  sf_malloc_round_of_lt (by have := padTurns_lt n; omega)

theorem blockSize_isLeast (n : Nat) :
    IsLeast {m | m % 16 = 0 ∧ n + 8 ≤ m} ((n + 23) / 16 * 16) := by
  refine ⟨⟨by omega, by omega⟩, fun m hm => ?_⟩
  obtain ⟨hmod, hle⟩ := hm
  omega

/-- Every value that the loops of `sf_malloc` compute is the exact sum, and they
end at the least multiple of 16 that holds the header and the payload, or at 32. -/
theorem sf_malloc_rounds {size : Nat} (h64 : size < 2 ^ 64) (hneg : intNeg size = false) :
    ∃ k l c, sf_malloc_round size = some (size + 8 + k + l) ∧
      IsLeast {m | m % 16 = 0 ∧ size + 8 ≤ m} c ∧ size + 8 + k + l = max 32 c ∧
      size + 8 + k + l < 2 ^ 64 ∧
      whileLoop (fun p : Nat × Nat => p.1 % 16 != 0) roundTurn 64 (add64 size 8, 0) =
        some (size + 8 + k, k) ∧
      (∀ j ≤ k, roundTurn^[j] (add64 size 8, 0) = (size + 8 + j, j)) ∧
      whileLoop (fun p : Nat × Nat => p.1 % 16 != 0 || decide (p.2 < 24)) roundTurn 64
        (size + 8 + k, add64 size k) = some (size + 8 + k + l, size + k + l) ∧
      ∀ j ≤ l, roundTurn^[j] (size + 8 + k, add64 size k) = (size + 8 + k + j, size + k + j) := by
  have hlarge := intNeg_of_large hneg h64
  have hpad := padTurns_lt size
  have hn : size + 8 + padTurns size < 2 ^ 64 := by omega
  have hpayload : payloadTurns size ≤ 24 := Nat.sub_le 24 _
  have hstart : add64 size 8 = size + 8 := add64_of_lt (by omega)
  have hmid : add64 size (padTurns size) = size + padTurns size := add64_of_lt (by omega)
  have hround := sf_malloc_round_eq hlarge
  rw [← round_turns] at hround
  refine ⟨padTurns size, payloadTurns size, (size + 23) / 16 * 16, hround, blockSize_isLeast size,
    round_turns size, by omega, ?_, ?_, ?_, ?_⟩
  · rw [hstart]
    exact first_loop hn
  · intro j hj
    rw [hstart, roundTurn_iterate j (by omega) (by omega), Nat.zero_add]
  · rw [hmid]
    exact second_loop hn
  · intro j hj
    rw [hmid, roundTurn_iterate j (by omega) (by omega)]

/-- The greatest request that the guard lets through. -/
theorem sf_malloc_rounds_greatest :
    ∃ k l c, sf_malloc_round 0xffffffff7fffffff = some (0xffffffff7fffffff + 8 + k + l) ∧
      IsLeast {m | m % 16 = 0 ∧ 0xffffffff7fffffff + 8 ≤ m} c ∧
      0xffffffff7fffffff + 8 + k + l = max 32 c ∧ 0xffffffff7fffffff + 8 + k + l < 2 ^ 64 := by
  obtain ⟨k, l, c, hround, hleast, hmax, hlt, _⟩ :=
    sf_malloc_rounds (show 0xffffffff7fffffff < 2 ^ 64 by decide) (by decide)
  exact ⟨k, l, c, hround, hleast, hmax, hlt⟩

end StarterProjects.Sfmm
