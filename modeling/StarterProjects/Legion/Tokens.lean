import StarterProjects.Legion.State
import Mathlib.Data.List.TakeWhile

/-!
# From a command line to the argument vector

`legion_parse_args` reads a line twice. `copyArgs` copies the fields into a block, with an
`@` behind each; `strtok_r` then cuts the block at these. The block has two bytes for each
character of the line. The tokens from the fourth on are joined in `argContainer[500]`.
-/

namespace StarterProjects.Legion

open Lib

/-! ## The first pass -/

/-- There is no end to the search for a newline that is not there. -/
def argsArrLen (curStr : List Char) : Option Nat :=
  if '\n' ∈ curStr then some (curStr.takeWhile fun c => c ≠ '\n').length else none

/-- The characters written to the block, from the characters before the newline; `none` when a
field begins with `<`. -/
def copyArgs : List Char → Option (List Char)
  | [] => some []
  | c :: cs =>
    if c = '<' then none
    else if c = '\'' then
      let field := cs.takeWhile fun d => d ≠ '\''
      let rest := (cs.dropWhile fun d => d ≠ '\'').dropWhile fun d => d = '\''
      (copyArgs (rest.dropWhile fun d => d = ' ')).map fun written => field ++ '@' :: written
    else
      let field := (c :: cs).takeWhile fun d => d ≠ ' '
      let rest := ((c :: cs).dropWhile fun d => d ≠ ' ').dropWhile fun d => d = ' '
      if rest = [] then some (field ++ ['@'])
      else (copyArgs rest).map fun written => field ++ '@' :: written
termination_by cs => cs.length
decreasing_by
  · have h₁ := List.length_dropWhile_le (fun d => decide (d ≠ '\'')) cs
    have h₂ := List.length_dropWhile_le (fun d => decide (d = '\''))
      (cs.dropWhile fun d => decide (d ≠ '\''))
    have h₃ := List.length_dropWhile_le (fun d => decide (d = ' '))
      ((cs.dropWhile fun d => decide (d ≠ '\'')).dropWhile fun d => decide (d = '\''))
    simp only [List.length_cons]
    omega
  · by_cases hc : c = ' '
    · subst hc
      have h₁ := List.length_dropWhile_le (fun d => decide (d = ' ')) cs
      simp
      omega
    · have h₁ := List.length_dropWhile_le (fun d => !decide (d = ' ')) cs
      have h₂ := List.length_dropWhile_le (fun d => decide (d = ' '))
        (cs.dropWhile fun d => !decide (d = ' '))
      simp [hc]
      omega

/-- The string in a block of `size` zeros after the copy. -/
def blockText (size : Nat) (written : List Char) : Option CString :=
  if written.length < size ∨ written.length = size ∧ '\x00' ∈ written then
    some (written.takeWhile fun c => c ≠ '\x00')
  else none

/-! ## The second pass -/

/-- The next token and what comes after its delimiter. -/
def strtok_r (str : CString) : Option (CString × CString) :=
  let str := str.dropWhile fun c => c = '@'
  if str = [] then none
  else some (str.takeWhile fun c => c ≠ '@', (str.dropWhile fun c => c ≠ '@').tail)

theorem strtok_r_shorter {str token rest : CString} (h : strtok_r str = some (token, rest)) :
    rest.length < str.length := by
  simp only [strtok_r] at h
  split at h
  · cases h
  · rename_i hne
    simp only [Option.some.injEq, Prod.mk.injEq] at h
    rw [← h.2]
    have h₁ := List.length_dropWhile_le (fun c => decide (c = '@')) str
    have h₂ := List.length_dropWhile_le (fun c => decide (c ≠ '@'))
      (str.dropWhile fun c => decide (c = '@'))
    have h₃ := List.length_pos_iff.mpr hne
    rw [List.length_tail]
    omega

def tokens (str : CString) : List CString :=
  match _h : strtok_r str with
  | none => []
  | some (token, rest) => token :: tokens rest
termination_by str.length
decreasing_by exact strtok_r_shorter ‹_›

/-- What a line is cut into; `none` when it is given up. -/
def tokenise (curStr : List Char) : Except Stop (Option (List CString)) :=
  match argsArrLen curStr with
  | none => .error .undefined
  | some n =>
    match copyArgs (curStr.take n) with
    | none => .ok none
    | some written =>
      match blockText (n * 2) written with
      | none => .error .undefined
      | some text => .ok (some (tokens text))

/-! ## The argument vector -/

/-- `argContainer` is there once there are more than three arguments. -/
structure ArgVector where
  argArr : Nat → Slot
  argArrIdx : Nat
  argContainer : Option CString

/-- `strcpy` and `strcat` write to `argContainer[500]`. -/
def ArgVector.contain (v : ArgVector) (text : CString) : Option ArgVector :=
  if text.length < 500 then
    some { v with
      argArr := Function.update v.argArr v.argArrIdx (.own text)
      argContainer := some text }
  else none

def ArgVector.store (v : ArgVector) (token : CString) : Option ArgVector :=
  match v.argContainer with
  | some text => v.contain (text ++ ' ' :: token)
  | none =>
    if v.argArrIdx = 3 then v.contain token
    else some { v with
      argArr := Function.update v.argArr v.argArrIdx (.own token)
      argArrIdx := v.argArrIdx + 1 }

def storeTokens (argArr : Nat → Slot) (tokens : List CString) : Option ArgVector :=
  tokens.foldlM ArgVector.store { argArr := argArr, argArrIdx := 0, argContainer := none }

/-- The text that the tokens from the fourth on make together. -/
def joined : List CString → CString
  | [] => []
  | text :: texts => text ++ texts.flatMap fun text => ' ' :: text

theorem joined_append {ts : List CString} (h : ts ≠ []) (t : CString) :
    joined (ts ++ [t]) = joined ts ++ ' ' :: t := by
  obtain ⟨u, us, rfl⟩ := List.exists_cons_of_ne_nil h
  simp [joined]

theorem contain_some {v v' : ArgVector} {text : CString} (h : v.contain text = some v') :
    v' = { v with
      argArr := Function.update v.argArr v.argArrIdx (.own text)
      argContainer := some text } := by
  unfold ArgVector.contain at h
  split at h
  · exact (Option.some.inj h).symm
  · cases h

theorem store_free {v : ArgVector} (hv : v.argContainer = none) (hidx : v.argArrIdx ≠ 3)
    (t : CString) :
    v.store t = some { v with
      argArr := Function.update v.argArr v.argArrIdx (.own t)
      argArrIdx := v.argArrIdx + 1 } := by
  rw [ArgVector.store, hv]
  simp only [if_neg hidx]

/-- What the vector holds after some tokens: three have slots of their own, the others share
one, and the slots behind are what they were. -/
structure Stored (argArr : Nat → Slot) (done : List CString) (v : ArgVector) : Prop where
  idx : v.argArrIdx = min 3 done.length
  own : ∀ k token, k < 3 → done[k]? = some token → v.argArr k = .own token
  shared : 3 < done.length → v.argArr 3 = .own (joined (done.drop 3))
  kept : ∀ k, done.length ≤ k → v.argArr k = argArr k
  container : v.argContainer = if done.length ≤ 3 then none else some (joined (done.drop 3))

namespace Stored

variable {argArr : Nat → Slot} {done : List CString} {v v' : ArgVector} {token : CString}

theorem nil (argArr : Nat → Slot) :
    Stored argArr [] { argArr := argArr, argArrIdx := 0, argContainer := none } where
  idx := rfl
  own := fun _ _ _ h => by cases h
  shared := fun h => absurd h (by decide)
  kept := fun _ _ => rfl
  container := rfl

/-- The fourth token and those after it go to the slot 3. -/
theorem contain {text : CString} (h : Stored argArr done v) (hlen : 3 ≤ done.length)
    (htext : text = joined ((done ++ [token]).drop 3)) (hs : v.contain text = some v') :
    Stored argArr (done ++ [token]) v' := by
  have hidx : v.argArrIdx = 3 := by rw [h.idx]; omega
  rw [contain_some hs, hidx, htext]
  refine ⟨?_, fun k t hk ht => ?_, fun _ => ?_, fun k hk => ?_, ?_⟩
  · simp only [List.length_append, List.length_singleton]
    omega
  · simp only [Function.update_of_ne (show k ≠ 3 by omega)]
    exact h.own k t hk (by rw [← ht, List.getElem?_append_left (by omega)])
  · simp only [Function.update_self]
  · rw [List.length_append, List.length_singleton] at hk
    simp only [Function.update_of_ne (show k ≠ 3 by omega)]
    exact h.kept k (by omega)
  · rw [if_neg (by rw [List.length_append, List.length_singleton]; omega)]

theorem own_slot (h : Stored argArr done v) (hlen : done.length < 3) :
    Stored argArr (done ++ [token])
      { v with
        argArr := Function.update v.argArr v.argArrIdx (.own token)
        argArrIdx := v.argArrIdx + 1 } := by
  have hidx : v.argArrIdx = done.length := by rw [h.idx]; omega
  rw [hidx]
  refine ⟨?_, fun k t hk ht => ?_, fun hl => ?_, fun k hk => ?_, ?_⟩
  · simp only [List.length_append, List.length_singleton]
    omega
  · by_cases hkd : k = done.length
    · subst hkd
      rw [List.getElem?_concat_length] at ht
      cases ht
      exact Function.update_self ..
    · simp only [Function.update_of_ne hkd]
      have hlt : k < done.length := by
        have := (List.getElem?_eq_some_iff.mp ht).1
        rw [List.length_append, List.length_singleton] at this
        omega
      exact h.own k t hk (by rw [← ht, List.getElem?_append_left hlt])
  · rw [List.length_append, List.length_singleton] at hl
    omega
  · rw [List.length_append, List.length_singleton] at hk
    simp only [Function.update_of_ne (show k ≠ done.length by omega)]
    exact h.kept k (by omega)
  · rw [if_pos (by rw [List.length_append, List.length_singleton]; omega)]
    have := h.container
    rwa [if_pos (by omega)] at this

theorem store (h : Stored argArr done v) (hs : v.store token = some v') :
    Stored argArr (done ++ [token]) v' := by
  have hc := h.container
  by_cases hlen : done.length ≤ 3
  · rw [if_pos hlen] at hc
    by_cases hidx : v.argArrIdx = 3
    · rw [ArgVector.store, hc] at hs
      simp only [if_pos hidx] at hs
      have h3 : done.length = 3 := by have := h.idx; omega
      refine h.contain (by omega) ?_ hs
      rw [List.drop_append_of_le_length (by omega), List.drop_of_length_le (by omega)]
      simp [joined]
    · rw [store_free hc hidx] at hs
      cases hs
      exact h.own_slot (by have := h.idx; omega)
  · rw [ArgVector.store, hc, if_neg hlen] at hs
    refine h.contain (by omega) ?_ hs
    rw [List.drop_append_of_le_length (by omega), joined_append]
    exact List.ne_nil_of_length_pos (by rw [List.length_drop]; omega)

theorem foldlM : ∀ {ts done : List CString} {v : ArgVector}, Stored argArr done v →
    ts.foldlM ArgVector.store v = some v' → Stored argArr (done ++ ts) v'
  | [], done, v, h, hs => by
    cases hs
    rwa [List.append_nil]
  | t :: ts, done, v, h, hs => by
    rw [List.foldlM_cons] at hs
    obtain ⟨w, hw, hs⟩ := Option.bind_eq_some_iff.mp hs
    have := (h.store hw).foldlM hs
    rwa [List.append_assoc] at this

end Stored

theorem stored_of_storeTokens {argArr : Nat → Slot} {ts : List CString} {v : ArgVector}
    (h : storeTokens argArr ts = some v) : Stored argArr ts v :=
  (Stored.nil argArr).foldlM h

/-- `legion_parse_args` as far as the call of `legion_check_args`. -/
def parseArgs (argArr : Nat → Slot) (curStr : List Char) :
    Except Stop (Option (List CString × ArgVector)) :=
  match tokenise curStr with
  | .error r => .error r
  | .ok none => .ok none
  | .ok (some tokens) =>
    match storeTokens argArr tokens with
    | none => .error .undefined
    | some v => .ok (some (tokens, v))

theorem parseArgs_some {argArr : Nat → Slot} {curStr : List Char} {ts : List CString}
    {v : ArgVector} (ht : tokenise curStr = .ok (some ts)) (hv : storeTokens argArr ts = some v) :
    parseArgs argArr curStr = .ok (some (ts, v)) := by
  rw [parseArgs, ht]
  simp only [hv]

theorem parseArgs_full {argArr : Nat → Slot} {curStr : List Char} {ts : List CString}
    (ht : tokenise curStr = .ok (some ts)) (hv : storeTokens argArr ts = none) :
    parseArgs argArr curStr = .error .undefined := by
  rw [parseArgs, ht]
  simp only [hv]

end StarterProjects.Legion
