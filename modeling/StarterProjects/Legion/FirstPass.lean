import StarterProjects.Legion.Fields
import StarterProjects.Lib.Scan

/-!
# The first pass, index by index

`legion_parse_args` goes through a line with an index and through the block with a pointer, and
nothing but a newline stops it. `pass` is that part of the function. On a line that ends with a
newline it does what `copyArgs` says of the characters (`pass_run`); without a newline it reads
behind the NUL (`pass_undefined`).
-/

namespace StarterProjects.Legion

open Lib Lib.Exec Lib.Scan

/-- What a call of `getline` can deliver. -/
structure InputLine where
  body : List Char
  /-- The last line of the input may have no newline. -/
  ended : Bool
  no_newline : '\n' ∉ body
  nonempty : body ≠ [] ∨ ended = true

/-- The line in memory, with its NUL. -/
def InputLine.wholeStr (line : InputLine) : List Char :=
  line.body ++ if line.ended then ['\n', '\x00'] else ['\x00']

/-! ## The loops -/

/-- The variables of the function. `curArg` points behind what is stored. -/
structure Pass where
  argsArrLen : Nat
  curIdx : Nat
  stored : List Char

def Pass.start : Pass := ⟨0, 0, []⟩

/-- `argsArrLen++` -/
def countChar : Exec Pass Unit := fun s =>
  if s.argsArrLen < 2147483647 then .ok ((), { s with argsArrLen := s.argsArrLen + 1 })
  else .error .undefined

/-- `curIdx++` -/
def nextIdx : Exec Pass Unit := fun s =>
  if s.curIdx < 2147483647 then .ok ((), { s with curIdx := s.curIdx + 1 }) else .error .undefined

/-- `*curArg = c; curArg++` -/
def storeChar (size : Nat) (c : Char) : Exec Pass Unit := fun s =>
  if s.stored.length < size then .ok ((), { s with stored := s.stored ++ [c] })
  else .error .undefined

section Loops

variable (wholeStr : List Char) (size : Nat)

def whileChar (p : Char → Bool) (body : Char → Exec Pass Unit) : Exec Pass Unit :=
  scan wholeStr Pass.curIdx p body (wholeStr.length + 1)

def copyChar (c : Char) : Exec Pass Unit := do
  storeChar size c
  nextIdx

def measureChar : Exec Pass Unit := do
  countChar
  nextIdx

/-- The loop that measures the line. -/
def countLine : Exec Pass Unit :=
  whileChar wholeStr (fun c => c ≠ '\n') fun _ => measureChar

def skipSpaces : Exec Pass Unit :=
  whileChar wholeStr (fun c => c ≠ '\n' && c = ' ') fun _ => nextIdx

def quotedField : Exec Pass Unit := do
  nextIdx
  whileChar wholeStr (fun c => c ≠ '\n' && c ≠ '\'') (copyChar size)
  storeChar size '@'
  whileChar wholeStr (fun c => c = '\'') fun _ => nextIdx
  skipSpaces wholeStr

def plainField : Exec Pass Unit := do
  whileChar wholeStr (fun c => c ≠ '\n' && c ≠ ' ') (copyChar size)
  storeChar size '@'
  skipSpaces wholeStr

/-- The loop over the fields; `false` where the line is given up. -/
def copyFields : Nat → Exec Pass Bool
  | 0 => stop .diverges
  | fuel + 1 => do
      let c ← peek wholeStr Pass.curIdx
      if c = '\n' then
        return true
      else if c = '<' then
        return false
      else if c = '\'' then
        quotedField wholeStr size
        copyFields fuel
      else
        plainField wholeStr size
        let d ← peek wholeStr Pass.curIdx
        if d = '\n' then
          return true
        else
          copyFields fuel

end Loops

/-- `legion_parse_args` before its first `strtok_r`. The size of the block is a product of
`int`s. -/
def pass (wholeStr : List Char) : Exec Pass Bool := do
  countLine wholeStr
  let s ← get
  if s.argsArrLen * 2 ≤ 2147483647 then
    set { s with curIdx := 0 }
    copyFields wholeStr (s.argsArrLen * 2) (wholeStr.length + 1)
  else
    stop .undefined

/-- No read behind the NUL of the line, and a byte left for the end of the text that `strtok_r`
gets. -/
def Inside (line : InputLine) : Prop :=
  Ends (pass line.wholeStr) Pass.start fun goesOn s =>
    goesOn = true → s.stored.length < s.argsArrLen * 2

/-! ## One loop -/

section Run

variable {wholeStr : List Char} {size : Nat} {s s' : Pass} {cs more : List Char}
  {p q : Char → Bool}

/-- The characters before the newline that are still to come. -/
def Ahead (wholeStr more : List Char) (s : Pass) (cs : List Char) : Prop :=
  wholeStr.drop s.curIdx = cs ++ '\n' :: more

/-- `written` is stored, and `rest` is to come. -/
structure Wrote (wholeStr more : List Char) (s : Pass) (written rest : List Char) (s' : Pass) :
    Prop where
  ahead : Ahead wholeStr more s' rest
  stored : s'.stored = s.stored ++ written
  argsArrLen : s'.argsArrLen = s.argsArrLen

theorem nextIdx_run (h : s.curIdx < 2147483647) :
    nextIdx s = .ok ((), { s with curIdx := s.curIdx + 1 }) := if_pos h

theorem measureChar_run {n : Nat} (h : n < 2147483647) :
    measureChar ⟨n, n, []⟩ = .ok ((), ⟨n + 1, n + 1, []⟩) := by
  have hcount : countChar ⟨n, n, []⟩ = .ok ((), ⟨n + 1, n, []⟩) := if_pos h
  rw [measureChar, bind_ok hcount, nextIdx_run h]

theorem measureChar_stops {n : Nat} (h : ¬ n < 2147483647) :
    measureChar ⟨n, n, []⟩ = .error .undefined := by
  have hcount : countChar ⟨n, n, []⟩ = .error .undefined := if_neg h
  rw [measureChar, bind_error hcount]

theorem storeChar_run {c : Char} (h : s.stored.length < size) :
    storeChar size c s = .ok ((), { s with stored := s.stored ++ [c] }) := if_pos h

theorem Ahead.length (h : Ahead wholeStr more s cs) :
    s.curIdx + cs.length + more.length + 1 = wholeStr.length := by
  have hlen := congrArg List.length h
  rw [List.length_drop, List.length_append, List.length_cons] at hlen
  omega

theorem Ahead.head {c : Char} (h : Ahead wholeStr more s (c :: cs)) :
    wholeStr[s.curIdx]? = some c := getElem?_of_drop h

theorem Ahead.stop (h : Ahead wholeStr more s []) : wholeStr[s.curIdx]? = some '\n' :=
  getElem?_of_drop h

/-- The index is behind a stretch of what was to come. -/
theorem Ahead.behind (h : Ahead wholeStr more s cs) (q : Char → Bool)
    (hidx : s'.curIdx = s.curIdx + (cs.takeWhile q).length) :
    Ahead wholeStr more s' (cs.dropWhile q) := by
  have hcs : cs ++ '\n' :: more = cs.takeWhile q ++ (cs.dropWhile q ++ '\n' :: more) := by
    rw [← List.append_assoc, List.takeWhile_append_dropWhile]
  rw [Ahead, hidx, ← List.drop_drop, h, hcs, List.drop_left]

/-- The loop in front of the newline. `st` is the state after what it has passed. -/
theorem whileChar_run (body : Char → Exec Pass Unit) (h : Ahead wholeStr more s cs)
    (hq : ∀ c ∈ cs, p c = q c) (he : p '\n' = false) (st : List Char → Pass) (hst : st [] = s)
    (hidx : ∀ pre, (st pre).curIdx = s.curIdx + pre.length)
    (hbody : ∀ pre c, pre.length < (cs.takeWhile q).length →
      body c (st pre) = .ok ((), st (pre ++ [c]))) :
    whileChar wholeStr p body s = .ok ((), st (cs.takeWhile q)) := by
  have hlen := h.length
  rw [← hst] at h hidx ⊢
  refine scan_run st h hq he hidx (fun pre c hpre => hbody pre c ?_) (by omega)
  have hle := hpre.length_le
  rw [List.length_append, List.length_singleton] at hle
  omega

theorem skip_ends (h : Ahead wholeStr more s cs) (hq : ∀ c ∈ cs, p c = q c)
    (he : p '\n' = false) (hint : wholeStr.length ≤ 2147483647) :
    Ends (whileChar wholeStr p fun _ => nextIdx) s
      fun _ s' => Wrote wholeStr more s [] (cs.dropWhile q) s' := by
  have hlen := h.length
  have hle := (List.takeWhile_prefix q (l := cs)).length_le
  have hrun := whileChar_run (fun _ => nextIdx) h hq he
    (fun pre => { s with curIdx := s.curIdx + pre.length }) rfl (fun _ => rfl)
    (fun pre c hpre => by
      rw [nextIdx_run (by show s.curIdx + pre.length < 2147483647; omega), List.length_append]
      rfl)
  exact Ends.of_eq hrun ⟨h.behind q rfl, (List.append_nil _).symm, rfl⟩

theorem copy_ends (h : Ahead wholeStr more s cs) (hq : ∀ c ∈ cs, p c = q c)
    (he : p '\n' = false) (hint : wholeStr.length ≤ 2147483647)
    (hroom : s.stored.length + (cs.takeWhile q).length ≤ size) :
    Ends (whileChar wholeStr p (copyChar size)) s
      fun _ s' => Wrote wholeStr more s (cs.takeWhile q) (cs.dropWhile q) s' := by
  have hlen := h.length
  have hle := (List.takeWhile_prefix q (l := cs)).length_le
  have hrun := whileChar_run (copyChar size) h hq he
    (fun pre => { s with curIdx := s.curIdx + pre.length, stored := s.stored ++ pre })
    (by rw [List.append_nil]; rfl) (fun _ => rfl)
    (fun pre c hpre => by
      rw [copyChar, bind_ok (storeChar_run (by
          show (s.stored ++ pre).length < size
          rw [List.length_append]
          omega)),
        nextIdx_run (by show s.curIdx + pre.length < 2147483647; omega), List.length_append,
        List.append_assoc]
      rfl)
  exact Ends.of_eq hrun ⟨h.behind q rfl, rfl, rfl⟩

theorem store_ends {c : Char} (h : Ahead wholeStr more s cs) (hroom : s.stored.length < size) :
    Ends (storeChar size c) s fun _ s' => Wrote wholeStr more s [c] cs s' :=
  Ends.of_eq (storeChar_run hroom) ⟨h, rfl, rfl⟩

theorem Wrote.trans {t : Pass} {written written' rest rest' : List Char}
    (h : Wrote wholeStr more s written rest s') (h' : Wrote wholeStr more s' written' rest' t) :
    Wrote wholeStr more s (written ++ written') rest' t where
  ahead := h'.ahead
  stored := by rw [h'.stored, h.stored, List.append_assoc]
  argsArrLen := h'.argsArrLen.trans h.argsArrLen

/-! ## One field -/

theorem newline_ignored (h : '\n' ∉ cs) (q : Char → Bool) :
    ∀ c ∈ cs, (decide (c ≠ '\n') && q c) = q c := by
  intro c hc
  have hne : c ≠ '\n' := fun he => h (he ▸ hc)
  rw [decide_eq_true hne, Bool.true_and]

theorem not_mem_dropWhile (h : '\n' ∉ cs) : '\n' ∉ cs.dropWhile q := fun hmem =>
  h ((List.dropWhile_suffix q).mem hmem)

theorem spaces_ends (h : Ahead wholeStr more s cs) (hline : '\n' ∉ cs)
    (hint : wholeStr.length ≤ 2147483647) :
    Ends (skipSpaces wholeStr) s
      fun _ s' => Wrote wholeStr more s [] (cs.dropWhile fun d => d = ' ') s' :=
  skip_ends h (newline_ignored hline fun d => d = ' ') (by decide) hint

theorem quotedField_ends (h : Ahead wholeStr more s ('\'' :: cs)) (hline : '\n' ∉ cs)
    (hint : wholeStr.length ≤ 2147483647) (hroom : s.stored.length + cs.length < size) :
    Ends (quotedField wholeStr size) s
      fun _ s' => Wrote wholeStr more s ((cs.takeWhile fun d => d ≠ '\'') ++ ['@'])
        (((cs.dropWhile fun d => d ≠ '\'').dropWhile fun d => d = '\'').dropWhile
          fun d => d = ' ') s' := by
  have hlen := h.length
  rw [List.length_cons] at hlen
  have hle := (List.takeWhile_prefix (fun d => decide (d ≠ '\'')) (l := cs)).length_le
  have h₁ : Ahead wholeStr more { s with curIdx := s.curIdx + 1 } cs := by
    show wholeStr.drop (s.curIdx + 1) = _
    rw [← List.drop_drop, h]
    rfl
  refine Ends.run (nextIdx_run (by omega)) ?_
  refine (copy_ends h₁ (newline_ignored hline fun d => d ≠ '\'') (by decide) hint
    (by show s.stored.length + _ ≤ size; omega)).step fun _ s₂ h₂ => ?_
  have hroom₂ : s₂.stored.length < size := by
    rw [h₂.stored, List.length_append]
    show s.stored.length + _ < size
    omega
  refine (store_ends h₂.ahead hroom₂).step fun _ s₃ h₃ => ?_
  refine (skip_ends (q := fun d => d = '\'') h₃.ahead (fun _ _ => rfl) (by decide) hint).step
    fun _ s₄ h₄ => ?_
  refine (spaces_ends h₄.ahead (not_mem_dropWhile (not_mem_dropWhile hline)) hint).mono
    fun _ s₅ h₅ => ?_
  have hall := ((h₂.trans h₃).trans h₄).trans h₅
  rw [List.append_nil, List.append_nil] at hall
  exact ⟨hall.ahead, hall.stored, hall.argsArrLen⟩

theorem plainField_ends (h : Ahead wholeStr more s cs) (hline : '\n' ∉ cs)
    (hint : wholeStr.length ≤ 2147483647) (hroom : s.stored.length + cs.length < size) :
    Ends (plainField wholeStr size) s
      fun _ s' => Wrote wholeStr more s ((cs.takeWhile fun d => d ≠ ' ') ++ ['@'])
        ((cs.dropWhile fun d => d ≠ ' ').dropWhile fun d => d = ' ') s' := by
  have hle := (List.takeWhile_prefix (fun d => decide (d ≠ ' ')) (l := cs)).length_le
  refine (copy_ends h (newline_ignored hline fun d => d ≠ ' ') (by decide) hint
    (by omega)).step fun _ s₂ h₂ => ?_
  have hroom₂ : s₂.stored.length < size := by
    rw [h₂.stored, List.length_append]
    omega
  refine (store_ends h₂.ahead hroom₂).step fun _ s₃ h₃ => ?_
  refine (spaces_ends h₃.ahead (not_mem_dropWhile hline) hint).mono fun _ s₄ h₄ => ?_
  have hall := (h₂.trans h₃).trans h₄
  rwa [List.append_nil] at hall

/-! ## All fields -/

/-- What a quoted field leaves of the characters behind its quote. -/
theorem quoted_shorter (cs : List Char) : (cs.takeWhile fun d => d ≠ '\'').length +
    (((cs.dropWhile fun d => d ≠ '\'').dropWhile fun d => d = '\'').dropWhile
      fun d => d = ' ').length ≤ cs.length := by
  have hall := congrArg List.length
    (List.takeWhile_append_dropWhile (p := fun d => decide (d ≠ '\'')) (l := cs))
  rw [List.length_append] at hall
  have hquotes := List.length_dropWhile_le (fun d => decide (d = '\''))
    (cs.dropWhile fun d => d ≠ '\'')
  have hspaces := List.length_dropWhile_le (fun d => decide (d = ' '))
    ((cs.dropWhile fun d => d ≠ '\'').dropWhile fun d => d = '\'')
  omega

/-- A word that is not the last one has a space behind it. -/
theorem plain_shorter {cs : List Char}
    (h : ((cs.dropWhile fun d => d ≠ ' ').dropWhile fun d => d = ' ') ≠ []) :
    (cs.takeWhile fun d => d ≠ ' ').length + 1 +
      ((cs.dropWhile fun d => d ≠ ' ').dropWhile fun d => d = ' ').length ≤ cs.length := by
  have hall := congrArg List.length
    (List.takeWhile_append_dropWhile (p := fun d => decide (d ≠ ' ')) (l := cs))
  rw [List.length_append] at hall
  cases hbehind : cs.dropWhile fun d => d ≠ ' ' with
  | nil =>
    rw [hbehind] at h
    exact absurd rfl h
  | cons d ds =>
    have hd : d = ' ' := by
      have hhead := List.head?_dropWhile_not (fun d => decide (d ≠ ' ')) cs
      rw [hbehind] at hhead
      simpa using hhead
    have hspaces := List.length_dropWhile_le (fun d => decide (d = ' ')) ds
    rw [hbehind, List.length_cons] at hall
    rw [List.dropWhile_cons_of_pos (by simpa using hd)]
    omega

/-- What the loop over the fields leaves, from what `copyArgs` says. -/
def Follows (s s' : Pass) (goesOn : Bool) : Option (List Char) → Prop
  | none => goesOn = false
  | some written =>
    goesOn = true ∧ s'.stored = s.stored ++ written ∧ s'.argsArrLen = s.argsArrLen

theorem Follows.after {t : Pass} {goesOn : Bool} {field : List Char} {copied : Option (List Char)}
    (hstored : s'.stored = s.stored ++ (field ++ ['@'])) (hlen : s'.argsArrLen = s.argsArrLen)
    (h : Follows s' t goesOn copied) :
    Follows s t goesOn (copied.map fun written => field ++ '@' :: written) := by
  cases copied with
  | none => exact h
  | some written =>
    obtain ⟨hgoes, hwritten, hlen'⟩ := h
    refine ⟨hgoes, ?_, hlen'.trans hlen⟩
    rw [hwritten, hstored, List.append_assoc, List.append_assoc]
    rfl

/-- The turn of the loop for a word, as far as the test behind it. -/
theorem plain_turn {c : Char} {n fuel : Nat} {Q : Bool → Pass → Prop}
    (h : Ahead wholeStr more s (c :: cs)) (hline : '\n' ∉ c :: cs)
    (hint : wholeStr.length ≤ 2147483647) (hn : wholeStr.length = n + more.length + 1)
    (hroom : s.stored.length ≤ s.curIdx) (hgiven : c ≠ '<') (hquote : c ≠ '\'')
    (hnext : ∀ s', Wrote wholeStr more s (((c :: cs).takeWhile fun d => d ≠ ' ') ++ ['@'])
        (((c :: cs).dropWhile fun d => d ≠ ' ').dropWhile fun d => d = ' ') s' →
      Ends (do
        let d ← peek wholeStr Pass.curIdx
        if d = '\n' then
          return true
        else
          copyFields wholeStr (n * 2) fuel) s' Q) :
    Ends (copyFields wholeStr (n * 2) (fuel + 1)) s Q := by
  have hlen := h.length
  have hroom' : s.stored.length + (c :: cs).length < n * 2 := by
    rw [List.length_cons] at hlen ⊢
    omega
  have hc : c ≠ '\n' := fun hc => hline (by rw [hc]; exact List.mem_cons_self)
  refine Ends.run (peek_run h.head) ?_
  rw [if_neg hc, if_neg hgiven, if_neg hquote]
  exact (plainField_ends h hline hint hroom').step fun _ s' h' => hnext s' h'

theorem copyFields_ends (hint : wholeStr.length ≤ 2147483647) {n fuel : Nat}
    (hn : wholeStr.length = n + more.length + 1) (h : Ahead wholeStr more s cs)
    (hline : '\n' ∉ cs) (hroom : s.stored.length ≤ s.curIdx) (hfuel : cs.length < fuel) :
    Ends (copyFields wholeStr (n * 2) fuel) s
      fun goesOn s' => Follows s s' goesOn (copyArgs cs) := by
  fun_induction copyArgs cs generalizing s fuel with
  | case1 =>
    obtain ⟨fuel, rfl⟩ := Nat.exists_eq_add_of_lt hfuel
    refine Ends.run (peek_run h.stop) ?_
    rw [if_pos rfl]
    exact .ret ⟨rfl, (List.append_nil _).symm, rfl⟩
  | case2 cs =>
    obtain ⟨fuel, rfl⟩ := Nat.exists_eq_add_of_lt hfuel
    refine Ends.run (peek_run h.head) ?_
    rw [if_neg (by decide), if_pos rfl]
    exact .ret rfl
  | case3 cs field rest =>
    rename_i ih
    obtain ⟨fuel, rfl⟩ := Nat.exists_eq_add_of_lt hfuel
    -- a quoted field; the blanks behind it are skipped
    have hlen := h.length
    have hshort : field.length + (rest.dropWhile fun d => d = ' ').length ≤ cs.length :=
      quoted_shorter cs
    rw [List.length_cons] at hlen
    have hcs : '\n' ∉ cs := fun hmem => hline (List.mem_cons_of_mem _ hmem)
    refine Ends.run (peek_run h.head) ?_
    rw [if_neg (by decide), if_neg (by decide), if_pos rfl]
    refine (quotedField_ends h hcs hint (by omega)).step fun _ s' h' => ?_
    change Wrote wholeStr more s (field ++ ['@']) (rest.dropWhile fun d => d = ' ') s' at h'
    have hlen' := h'.ahead.length
    have hroom' : s'.stored.length ≤ s'.curIdx := by
      rw [h'.stored, List.length_append, List.length_append, List.length_singleton]
      omega
    refine (ih h'.ahead (not_mem_dropWhile (not_mem_dropWhile (not_mem_dropWhile hcs))) hroom'
      (by rw [List.length_cons]; omega)).mono fun _ t ht => ?_
    exact ht.after h'.stored h'.argsArrLen
  | case4 c cs hne hne' field =>
    rename_i rest hrest
    obtain ⟨fuel, rfl⟩ := Nat.exists_eq_add_of_lt hfuel
    -- a plain field that ends the line
    refine plain_turn h hline hint hn hroom hne hne' fun s' h' => ?_
    have hstop : Ahead wholeStr more s' [] := by
      rw [← hrest]
      exact h'.ahead
    refine Ends.run (peek_run hstop.stop) ?_
    rw [if_pos rfl]
    exact .ret ⟨rfl, h'.stored, h'.argsArrLen⟩
  | case5 c cs hne hne' field rest =>
    rename_i hrest ih
    obtain ⟨fuel, rfl⟩ := Nat.exists_eq_add_of_lt hfuel
    have hlen := h.length
    have hshort : field.length + 1 + rest.length ≤ (c :: cs).length := plain_shorter hrest
    refine plain_turn h hline hint hn hroom hne hne' fun s' h' => ?_
    change Wrote wholeStr more s (field ++ ['@']) rest s' at h'
    have hlen' := h'.ahead.length
    have hroom' : s'.stored.length ≤ s'.curIdx := by
      rw [h'.stored, List.length_append, List.length_append, List.length_singleton]
      omega
    have hrest' : '\n' ∉ rest := not_mem_dropWhile (not_mem_dropWhile hline)
    obtain ⟨d, ds, hcons⟩ := List.exists_cons_of_ne_nil hrest
    have hd : Ahead wholeStr more s' (d :: ds) := by
      rw [← hcons]
      exact h'.ahead
    refine Ends.run (peek_run hd.head) ?_
    rw [if_neg fun hd => hrest' (by rw [← hd]; exact hcons ▸ List.mem_cons_self)]
    refine (ih h'.ahead hrest' hroom' (by omega)).mono fun _ t ht => ?_
    exact ht.after h'.stored h'.argsArrLen

/-! ## The whole pass -/

theorem countLine_run {n : Nat} (h : Ahead wholeStr more Pass.start cs) (hline : '\n' ∉ cs)
    (hn : cs.length = n) (hint : n ≤ 1073741823) :
    countLine wholeStr Pass.start = .ok ((), ⟨n, n, []⟩) := by
  have hall : cs.takeWhile (fun _ => true) = cs := List.takeWhile_eq_self_iff.mpr fun _ _ => rfl
  have hne : ∀ c ∈ cs, decide (c ≠ '\n') = true := fun c hc =>
    decide_eq_true fun he => hline (by rw [← he]; exact hc)
  have hrun := whileChar_run (p := fun c => c ≠ '\n') (q := fun _ => true) (fun _ => measureChar)
    h hne (by decide)
    (fun pre => ⟨pre.length, pre.length, []⟩) rfl (fun _ => (Nat.zero_add _).symm)
    (fun pre c hpre => by
      rw [hall] at hpre
      rw [measureChar_run (by omega), List.length_append]
      rfl)
  rw [hall, hn] at hrun
  exact hrun

theorem whileChar_cases (wholeStr : List Char) (p : Char → Bool) (body : Char → Exec Pass Unit)
    (I : Pass → Prop)
    (hbody : ∀ c s, I s → wholeStr[s.curIdx]? = some c → p c = true →
      body c s = .error .undefined ∨
        ∃ s', body c s = .ok ((), s') ∧ I s' ∧ s'.curIdx = s.curIdx + 1)
    (h : I s) (hle : s.curIdx ≤ wholeStr.length) :
    whileChar wholeStr p body s = .error .undefined ∨
      ∃ s' c, whileChar wholeStr p body s = .ok ((), s') ∧ I s' ∧
        wholeStr[s'.curIdx]? = some c ∧ p c = false :=
  scan_cases I hbody _ s h hle (by omega)

/-- Measuring the line goes on to a newline, or is undefined. -/
theorem countLine_cases (wholeStr : List Char) :
    countLine wholeStr Pass.start = .error .undefined ∨
      ∃ n, countLine wholeStr Pass.start = .ok ((), ⟨n, n, []⟩) ∧ wholeStr[n]? = some '\n' ∧
        '\n' ∉ wholeStr.take n := by
  have hcases := whileChar_cases wholeStr (fun c => c ≠ '\n') (fun _ => measureChar)
    (fun s => s = ⟨s.curIdx, s.curIdx, []⟩ ∧ '\n' ∉ wholeStr.take s.curIdx)
    (fun c s hI hget hc => ?_) (s := Pass.start) ⟨rfl, List.not_mem_nil⟩ (Nat.zero_le _)
  · rcases hcases with hstop | ⟨s, c, hrun, ⟨hs, hline⟩, hget, hc⟩
    · exact Or.inl hstop
    · obtain rfl : c = '\n' := by simpa using hc
      refine Or.inr ⟨s.curIdx, ?_, hget, hline⟩
      rw [← hs]
      exact hrun
  · obtain ⟨hs, hline⟩ := hI
    rw [hs]
    rcases Nat.lt_or_ge s.curIdx 2147483647 with hlt | hge
    · right
      refine ⟨⟨s.curIdx + 1, s.curIdx + 1, []⟩, measureChar_run hlt, ⟨rfl, ?_⟩, rfl⟩
      · show '\n' ∉ wholeStr.take (s.curIdx + 1)
        rw [List.take_add_one, hget, List.mem_append, Option.toList_some, List.mem_singleton]
        rintro (hmem | rfl)
        · exact hline hmem
        · simp at hc
    · left
      exact measureChar_stops (Nat.not_lt.mpr hge)

end Run

section Lines

variable (line : InputLine)

/-- The characters of a line that ends with a newline are copied as `copyArgs` says. -/
theorem pass_ends (he : line.ended = true) (hlong : line.body.length ≤ 1073741823) :
    Ends (pass line.wholeStr) Pass.start fun goesOn s =>
      Follows ⟨line.body.length, 0, []⟩ s goesOn (copyArgs line.body) := by
  have hw : line.wholeStr = line.body ++ '\n' :: ['\x00'] := by
    rw [InputLine.wholeStr, he]
    rfl
  have hlen : line.wholeStr.length = line.body.length + ['\x00'].length + 1 := by
    rw [hw, List.length_append]
    rfl
  have hint : line.wholeStr.length ≤ 2147483647 := by
    rw [hlen, List.length_singleton]
    omega
  have hstart : Ahead line.wholeStr ['\x00'] Pass.start line.body := hw
  have hagain : Ahead line.wholeStr ['\x00'] ⟨line.body.length, 0, []⟩ line.body := hw
  refine Ends.run (countLine_run hstart line.no_newline rfl hlong) (Ends.run (get_apply _) ?_)
  rw [if_pos (by show line.body.length * 2 ≤ 2147483647; omega)]
  refine Ends.run (set_apply _ _) ?_
  exact copyFields_ends hint hlen hagain line.no_newline (Nat.zero_le _) (by omega)

/-- Without a newline the loop that measures the line reads behind its NUL; a line that is too
long has no size that is an `int`. -/
theorem pass_undefined (h : line.ended = false ∨ 1073741823 < line.body.length) :
    pass line.wholeStr Pass.start = .error .undefined := by
  rcases countLine_cases line.wholeStr with hstop | ⟨n, hrun, hget, hline⟩
  · exact bind_error hstop
  · rw [InputLine.wholeStr] at hget hline
    have hge : line.body.length ≤ n := by
      refine Nat.le_of_not_lt fun hlt => line.no_newline ?_
      rw [List.getElem?_append_left hlt] at hget
      exact List.mem_of_getElem? hget
    rw [List.getElem?_append_right hge] at hget
    have hended : line.ended = true := by
      cases he : line.ended with
      | true => rfl
      | false =>
        rw [he] at hget
        have hmem := List.mem_of_getElem? hget
        simp at hmem
    have hlong : 1073741823 < line.body.length :=
      h.resolve_left (by rw [hended]; decide)
    rw [pass, bind_ok hrun, bind_ok (get_apply _),
      if_neg (by show ¬ n * 2 ≤ 2147483647; omega)]
    rfl

end Lines

/-! ## Room for the end of the text -/

/-- Each field has a separator behind it in the block, and all but the last one have at least one
in the line. -/
theorem copyArgs_length {cs written : List Char} (h : copyArgs cs = some written) :
    written.length ≤ cs.length + 1 := by
  fun_induction copyArgs cs generalizing written with
  | case1 =>
    cases h
    exact Nat.zero_le _
  | case2 cs => cases h
  | case3 cs field rest =>
    rename_i ih
    obtain ⟨written, hw, rfl⟩ := Option.map_eq_some_iff.mp h
    have hshort : field.length + (rest.dropWhile fun d => d = ' ').length ≤ cs.length :=
      quoted_shorter cs
    have hle := ih hw
    rw [List.length_append, List.length_cons, List.length_cons]
    omega
  | case4 c cs _ _ field =>
    cases h
    have hle : field.length ≤ (c :: cs).length := (List.takeWhile_prefix _).length_le
    rw [List.length_append, List.length_singleton]
    omega
  | case5 c cs _ _ field rest =>
    rename_i hrest ih
    obtain ⟨written, hw, rfl⟩ := Option.map_eq_some_iff.mp h
    have hshort : field.length + 1 + rest.length ≤ (c :: cs).length := plain_shorter hrest
    have hle := ih hw
    rw [List.length_append, List.length_cons]
    omega

theorem copyArgs_single {c : Char} (h : c ≠ '<') (h' : c ≠ '\'') (h'' : c ≠ ' ') :
    copyArgs [c] = some [c, '@'] := by
  rw [copyArgs, if_neg h, if_neg h']
  simp [h'']

theorem copyArgs_narrow {c : Char} (h : c = ' ' ∨ c = '\'') : copyArgs [c] = some ['@'] := by
  rcases h with rfl | rfl
  · rw [copyArgs, if_neg (by decide), if_neg (by decide)]
    rfl
  · rw [copyArgs, if_neg (by decide), if_pos rfl]
    simp [copyArgs]

/-- Only the shortest lines fill the block. -/
theorem room_iff (body : List Char) :
    (∀ written, copyArgs body = some written → written.length < body.length * 2) ↔
      body ≠ [] ∧ ∀ c, body = [c] → c = ' ' ∨ c = '\'' ∨ c = '<' := by
  constructor
  · intro h
    constructor
    · rintro rfl
      exact absurd (h [] (by rw [copyArgs])) (by decide)
    · rintro c rfl
      by_contra hno
      obtain ⟨hspace, hno⟩ := not_or.mp hno
      obtain ⟨hquote, hgiven⟩ := not_or.mp hno
      exact absurd (h _ (copyArgs_single hgiven hquote hspace)) (Nat.lt_irrefl 2)
  · rintro ⟨hne, hone⟩ written hw
    have hle := copyArgs_length hw
    obtain ⟨c, cs, rfl⟩ := List.exists_cons_of_ne_nil hne
    rcases eq_or_ne cs [] with rfl | hmore
    · rcases hone c rfl with hspace | hquote | rfl
      · rw [copyArgs_narrow (Or.inl hspace)] at hw
        cases hw
        exact Nat.lt_succ_self 1
      · rw [copyArgs_narrow (Or.inr hquote)] at hw
        cases hw
        exact Nat.lt_succ_self 1
      · rw [copyArgs, if_pos rfl] at hw
        cases hw
    · have hpos := List.length_pos_iff.mpr hmore
      rw [List.length_cons] at hle ⊢
      omega

theorem ended_of_inside {line : InputLine} (h : Inside line) :
    line.ended = true ∧ line.body.length ≤ 1073741823 := by
  have hreturns : ¬ (line.ended = false ∨ 1073741823 < line.body.length) := fun hno =>
    h.ne_error .undefined (pass_undefined line hno)
  obtain ⟨hended, hlong⟩ := not_or.mp hreturns
  rw [Bool.not_eq_false] at hended
  rw [not_lt] at hlong
  exact ⟨hended, hlong⟩

theorem inside_room {line : InputLine} (h : Inside line) :
    ∀ written, copyArgs line.body = some written → written.length < line.body.length * 2 := by
  intro written hw
  obtain ⟨hended, hlong⟩ := ended_of_inside h
  obtain ⟨goesOn, s, hrun, hs⟩ := pass_ends line hended hlong
  rw [hw] at hs
  obtain ⟨hgoes, hstored, hlen⟩ := hs
  have hroom := h.apply hrun hgoes
  rw [hstored, hlen] at hroom
  exact hroom

/-- The first pass stays inside the line and leaves a byte free exactly on the lines that end
with a newline and have two characters or more, or a single one of three, and whose size is an
`int`. -/
theorem inside_iff (line : InputLine) :
    Inside line ↔ line.ended = true ∧ line.body.length ≤ 1073741823 ∧ line.body ≠ [] ∧
      ∀ c, line.body = [c] → c = ' ' ∨ c = '\'' ∨ c = '<' := by
  constructor
  · intro h
    obtain ⟨hended, hlong⟩ := ended_of_inside h
    exact ⟨hended, hlong, (room_iff line.body).mp (inside_room h)⟩
  · rintro ⟨hended, hlong, hroom⟩
    refine (pass_ends line hended hlong).mono fun goesOn s hs hgoes => ?_
    cases hcopy : copyArgs line.body with
    | none =>
      rw [hcopy] at hs
      exact absurd (hgoes.symm.trans hs) (by decide)
    | some written =>
      rw [hcopy] at hs
      obtain ⟨-, hstored, hlen⟩ := hs
      rw [hstored, hlen]
      exact (room_iff line.body).mpr hroom written hcopy

/-- The last line of an input that does not end with a newline. -/
theorem quit_not_inside :
    ¬ Inside ⟨"quit".toList, false, by decide, Or.inl (by decide)⟩ := fun h =>
  h.ne_error .undefined (pass_undefined _ (Or.inl rfl))

end StarterProjects.Legion
