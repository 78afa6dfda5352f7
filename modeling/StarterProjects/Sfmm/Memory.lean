import Mathlib.Algebra.Group.Nat.Defs
import StarterProjects.Lib.Exec

/-!
# The memory `sfmm.c` works on

Memory is read and written in 64-bit words at 8-byte aligned addresses. Two
objects are mapped: the heap, from `sf_mem_start` up to the current
`sf_mem_end`, and the array `sf_free_list_heads` of ten sentinel blocks. Every
other access is undefined behaviour (`Stop.undefined`). The quick list array is
never reached through a pointer, so it is a field of the state.

`lib/sfutil.o` is not part of the sources. What the header documents of it is
taken here: the heap is one contiguous 16-byte aligned range that starts empty,
`sf_mem_grow` appends exactly `PAGE_SZ` bytes or returns `NULL` with `sf_errno`
set, and `sf_magic` is constant. Which calls of `sf_mem_grow` succeed is the
parameter `grants`.
-/

namespace StarterProjects.Sfmm

open Lib

def THIS_BLOCK_ALLOCATED : Nat := 0x4
def PREV_BLOCK_ALLOCATED : Nat := 0x2
def NUM_QUICK_LISTS : Nat := 10
def QUICK_LIST_MAX : Nat := 5
def NUM_FREE_LISTS : Nat := 10
def PAGE_SZ : Nat := 4096
def ENOMEM : Nat := 12
def EINVAL : Nat := 22
def NULL : Nat := 0

/-- Addresses, magic number and page supply: what is fixed for a whole run. -/
structure Env where
  magic : Nat
  sf_mem_start : Nat
  /-- the heap never grows past this address -/
  heapLimit : Nat
  /-- address of `sf_free_list_heads` -/
  listHeads : Nat
  /-- whether the `k`-th call of `sf_mem_grow` finds a page -/
  grants : Nat → Bool
  magic_lt : magic < 2 ^ 64
  start_pos : 0 < sf_mem_start
  start_aligned : sf_mem_start % 16 = 0
  limit_lt : heapLimit < 2 ^ 64
  heads_pos : 0 < listHeads
  heads_aligned : listHeads % 8 = 0
  heads_lt : listHeads + 320 < 2 ^ 64
  heads_apart : listHeads + 320 ≤ sf_mem_start ∨ heapLimit ≤ listHeads

/-- `&sf_free_list_heads[i]`; a `struct sf_block` is 32 bytes long. -/
def Env.head (e : Env) (i : Nat) : Nat := e.listHeads + 32 * i

/-- One entry of `sf_quick_lists`. -/
structure QuickList where
  length : Nat
  first : Nat
deriving DecidableEq, Repr

structure State where
  mem : Nat → Nat
  sf_mem_end : Nat
  sf_quick_lists : Nat → QuickList
  globalEnd : Nat
  sf_errno : Nat
  /-- number of calls of `sf_mem_grow` so far -/
  growCalls : Nat

/-! ## 64-bit words -/

/-- Pointer and `size_t` addition. -/
def add64 (a b : Nat) : Nat := (a + b) % 2 ^ 64

/-- Pointer and `size_t` subtraction, which wraps. -/
def sub64 (a b : Nat) : Nat := (a + 2 ^ 64 - b % 2 ^ 64) % 2 ^ 64

/-- `(int)x < 0` -/
def intNeg (x : Nat) : Bool := 2 ^ 31 ≤ x % 2 ^ 32

/-- `x & ~0x7` -/
def unflag (x : Nat) : Nat := x / 8 * 8

/-- `x & ~PREV_BLOCK_ALLOCATED` -/
def clearPrev (x : Nat) : Nat := x - (x &&& PREV_BLOCK_ALLOCATED)

/-- The two `if`s that subtract the flag bits from a header. -/
def stripFlags (x : Nat) : Nat :=
  let y := if x &&& THIS_BLOCK_ALLOCATED = 0x4 then x - 4 else x
  if y &&& PREV_BLOCK_ALLOCATED = 0x2 then y - 2 else y

theorem add64_of_lt {a b : Nat} (h : a + b < 2 ^ 64) : add64 a b = a + b :=
  Nat.mod_eq_of_lt h

theorem sub64_of_le {a b : Nat} (h : b ≤ a) (ha : a < 2 ^ 64) : sub64 a b = a - b := by
  unfold sub64
  rw [Nat.mod_eq_of_lt (show b < 2 ^ 64 by omega)]
  omega

/-- Masking one bit. -/
theorem and_bit (x i : Nat) : x &&& 2 ^ i = x / 2 ^ i % 2 * 2 ^ i := by
  have hx := Nat.testBit_eq_decide_div_mod_eq (x := x) (i := i)
  apply Nat.eq_of_testBit_eq
  intro j
  rw [Nat.testBit_and, Nat.testBit_two_pow]
  rcases Nat.mod_two_eq_zero_or_one (x / 2 ^ i) with h0 | h0
  · by_cases hj : i = j
    · subst hj
      simp [hx, h0]
    · simp [hj, h0]
  · by_cases hj : i = j
    · subst hj
      simp [hx, h0]
    · simp [hj, h0, Nat.testBit_two_pow_of_ne hj]

theorem and_this (x : Nat) : x &&& THIS_BLOCK_ALLOCATED = x / 4 % 2 * 4 := and_bit x 2

theorem and_prev (x : Nat) : x &&& PREV_BLOCK_ALLOCATED = x / 2 % 2 * 2 := and_bit x 1

theorem xor_magic (w m : Nat) : (w ^^^ m) ^^^ m = w := by
  rw [Nat.xor_assoc, Nat.xor_self, Nat.xor_zero]

/-! ## Block headers -/

/-- The contents of a header before it is obfuscated. -/
structure Hdr where
  size : Nat
  alloc : Bool
  prev : Bool
deriving DecidableEq, Repr

/-- Size and flags in one word. -/
def Hdr.word (h : Hdr) : Nat :=
  h.size + (if h.alloc then 4 else 0) + (if h.prev then 2 else 0)

section HdrWord

variable {h : Hdr} (hs : h.size % 8 = 0)

include hs

theorem Hdr.unflag_word : unflag h.word = h.size := by
  unfold unflag word
  split <;> split <;> omega

theorem Hdr.word_alloc : h.word &&& THIS_BLOCK_ALLOCATED = if h.alloc then 4 else 0 := by
  rw [and_this]
  unfold word
  split <;> split <;> omega

theorem Hdr.word_prev : h.word &&& PREV_BLOCK_ALLOCATED = if h.prev then 2 else 0 := by
  rw [and_prev]
  unfold word
  split <;> split <;> omega

theorem Hdr.stripFlags_word : stripFlags h.word = h.size := by
  unfold stripFlags
  simp only [and_this, and_prev]
  unfold word
  cases h.alloc <;> cases h.prev <;> simp <;> split <;> split <;> omega

theorem Hdr.clearPrev_word : clearPrev h.word = { h with prev := false }.word := by
  unfold clearPrev
  rw [Hdr.word_prev hs]
  unfold word
  cases h.alloc <;> cases h.prev <;> simp

theorem Hdr.word_or (f : Nat) (hf : f < 8) :
    h.word ||| f = h.size + ((h.word - h.size) ||| f) := by
  obtain ⟨k, hk⟩ : ∃ k, h.size = 2 ^ 3 * k := ⟨h.size / 8, by omega⟩
  obtain ⟨r, hr, hw⟩ : ∃ r, r < 2 ^ 3 ∧ h.word = 2 ^ 3 * k + r :=
    ⟨h.word - h.size, by unfold word; split <;> split <;> omega,
      by rw [← hk]; unfold word; split <;> split <;> omega⟩
  have hlt : r ||| f < 2 ^ 3 := Nat.or_lt_two_pow hr hf
  rw [hw, hk, Nat.add_sub_cancel_left, Nat.two_pow_add_eq_or_of_lt hr,
    Nat.two_pow_add_eq_or_of_lt hlt, Nat.or_assoc]

theorem Hdr.word_or_this : h.word ||| THIS_BLOCK_ALLOCATED = { h with alloc := true }.word := by
  rw [Hdr.word_or hs _ (by decide)]
  unfold word
  cases h.alloc <;> cases h.prev <;> simp [THIS_BLOCK_ALLOCATED, Nat.add_assoc]

theorem Hdr.word_or_prev : h.word ||| PREV_BLOCK_ALLOCATED = { h with prev := true }.word := by
  rw [Hdr.word_or hs _ (by decide)]
  unfold word
  cases h.alloc <;> cases h.prev <;> simp [PREV_BLOCK_ALLOCATED, Nat.add_assoc]

end HdrWord

/-- A bare size is the word of a header without flags. -/
theorem or_prev_word {n : Nat} (hn : n % 8 = 0) :
    n ||| PREV_BLOCK_ALLOCATED = (Hdr.mk n false true).word :=
  Hdr.word_or_prev (h := ⟨n, false, false⟩) hn

theorem or_this_prev_word {n : Nat} (hn : n % 8 = 0) :
    n ||| THIS_BLOCK_ALLOCATED ||| PREV_BLOCK_ALLOCATED = (Hdr.mk n true true).word := by
  have h1 : n ||| THIS_BLOCK_ALLOCATED = (Hdr.mk n true false).word :=
    Hdr.word_or_this (h := ⟨n, false, false⟩) hn
  rw [h1]
  exact Hdr.word_or_prev (h := ⟨n, true, false⟩) hn

/-! ## Access -/

/-- The word at `a` lies in the heap or in `sf_free_list_heads`. -/
def mapped (e : Env) (s : State) (a : Nat) : Prop :=
  a % 8 = 0 ∧
    ((e.sf_mem_start ≤ a ∧ a + 8 ≤ s.sf_mem_end) ∨ (e.listHeads ≤ a ∧ a + 8 ≤ e.listHeads + 320))

instance (e : Env) (s : State) (a : Nat) : Decidable (mapped e s a) :=
  inferInstanceAs (Decidable (_ ∧ _))

/-- The state after the word at `a` became `v`. -/
def State.put (s : State) (a v : Nat) : State :=
  { s with mem := fun x => if x = a then v else s.mem x }

/-- The state after entry `i` of `sf_quick_lists` became `q`. -/
def State.withQuick (s : State) (i : Nat) (q : QuickList) : State :=
  { s with sf_quick_lists := fun j => if j = i then q else s.sf_quick_lists j }

theorem State.withQuick_withQuick (s : State) (i : Nat) (q q' : QuickList) :
    (s.withQuick i q).withQuick i q' = s.withQuick i q' := by
  unfold withQuick
  congr 1
  funext j
  by_cases hj : j = i
  · simp only [hj, if_true]
  · simp only [hj, if_false]

section Put

variable (s : State) (a v : Nat)

@[simp] theorem State.put_mem (x : Nat) :
    (s.put a v).mem x = if x = a then v else s.mem x := rfl
@[simp] theorem State.put_sf_mem_end : (s.put a v).sf_mem_end = s.sf_mem_end := rfl
@[simp] theorem State.put_sf_quick_lists : (s.put a v).sf_quick_lists = s.sf_quick_lists := rfl
@[simp] theorem State.put_globalEnd : (s.put a v).globalEnd = s.globalEnd := rfl
@[simp] theorem State.put_sf_errno : (s.put a v).sf_errno = s.sf_errno := rfl
@[simp] theorem State.put_growCalls : (s.put a v).growCalls = s.growCalls := rfl

theorem State.put_comm {b w : Nat} (h : a ≠ b) : (s.put a v).put b w = (s.put b w).put a v := by
  unfold put
  congr 1
  funext x
  by_cases hxa : x = a
  · have hxb : x ≠ b := by omega
    simp only [if_pos hxa, if_neg hxb]
  · simp only [if_neg hxa]

@[simp] theorem mapped_put (e : Env) (x : Nat) : mapped e (s.put a v) x ↔ mapped e s x := Iff.rfl

end Put

def load (e : Env) (a : Nat) : Exec State Nat := fun s =>
  if mapped e s a then .ok (s.mem a, s) else .error .undefined

def store (e : Env) (a v : Nat) : Exec State Unit := fun s =>
  if mapped e s a then .ok ((), s.put a v) else .error .undefined

theorem load_ok {e : Env} {a : Nat} {s : State} (h : mapped e s a) :
    load e a s = .ok (s.mem a, s) := if_pos h

theorem store_ok {e : Env} {a v : Nat} {s : State} (h : mapped e s a) :
    store e a v s = .ok ((), s.put a v) := if_pos h

theorem load_eq_ok {e : Env} {a v : Nat} {s s' : State} (h : load e a s = .ok (v, s')) :
    mapped e s a ∧ v = s.mem a ∧ s' = s := by
  unfold load at h
  split at h <;> cases h
  exact ⟨‹_›, rfl, rfl⟩

theorem store_eq_ok {e : Env} {a v : Nat} {s s' : State} {u : Unit}
    (h : store e a v s = .ok (u, s')) : mapped e s a ∧ s' = s.put a v := by
  unfold store at h
  split at h <;> cases h
  exact ⟨‹_›, rfl⟩

/-! ## The fields of a `struct sf_block` -/

/-- `b->prev_footer` is the word at the block address itself. -/
def prevFooterOf (b : Nat) : Nat := b
/-- `&b->header` -/
def headerOf (b : Nat) : Nat := b + 8
/-- `&b->body.links.next`, also `b->body.payload` -/
def nextOf (b : Nat) : Nat := b + 16
/-- `&b->body.links.prev` -/
def prevOf (b : Nat) : Nat := b + 24

/-! ## Bytes -/

/-- The byte at `a`, words being little-endian. -/
def byteAt (mem : Nat → Nat) (a : Nat) : Nat := mem (a / 8 * 8) / 256 ^ (a % 8) % 256

/-- Memory after the byte at `a` became `v`. -/
def setByte (mem : Nat → Nat) (a v : Nat) : Nat → Nat := fun x =>
  if x = a / 8 * 8 then mem x - byteAt mem a * 256 ^ (a % 8) + v * 256 ^ (a % 8) else mem x

end StarterProjects.Sfmm
