import StarterProjects.Legion.Tokens

/-!
# The fields of a command line

A line is a sequence of fields with spaces between them; a field is a word, or a string in
single quotes. `parseArgs_fields`: the tokens of the line are its fields exactly when

* the line has at least two characters before the newline,
* no field has an `@` or a NUL in it,
* no quoted field is empty,
* the fields from the fourth on, joined, are shorter than `argContainer[500]`.
-/

namespace StarterProjects.Legion

open Lib

/-- A test of the characters of the text, not of all there are. -/
instance (text : CString) (p : Char → Prop) [DecidablePred p] : Decidable (∀ c ∈ text, p c) :=
  List.decidableBAll p text

inductive Field where
  | word (text : CString) (nonempty : text ≠ []) (first : text.head? ≠ some '<')
      (plain : ∀ c ∈ text, c ≠ ' ' ∧ c ≠ '\'' ∧ c ≠ '\n')
  | quoted (text : CString) (plain : ∀ c ∈ text, c ≠ '\'' ∧ c ≠ '\n')

def Field.text : Field → CString
  | .word text _ _ _ => text
  | .quoted text _ => text

def Field.written : Field → List Char
  | .word text _ _ _ => text
  | .quoted text _ => '\'' :: (text ++ ['\''])

inductive Fields where
  | one (field : Field)
  /-- There are `extra + 1` spaces after the field. -/
  | more (field : Field) (extra : Nat) (rest : Fields)

def Fields.texts : Fields → List CString
  | .one field => [field.text]
  | .more field _ rest => field.text :: rest.texts

def Fields.written : Fields → List Char
  | .one field => field.written
  | .more field extra rest => field.written ++ (List.replicate (extra + 1) ' ' ++ rest.written)

/-- A line, which may be empty. -/
abbrev CommandLine := Option Fields

def CommandLine.fields : CommandLine → List CString
  | none => []
  | some fs => fs.texts

def CommandLine.body : CommandLine → List Char
  | none => []
  | some fs => fs.written

def CommandLine.chars (line : CommandLine) : List Char := line.body ++ ['\n']

/-! ## What the first pass writes -/

/-- An `@` behind each. -/
def block (texts : List CString) : List Char := texts.flatMap fun text => text ++ ['@']

@[simp] theorem block_nil : block [] = [] := rfl

theorem block_cons (text : CString) (texts : List CString) :
    block (text :: texts) = text ++ '@' :: block texts := by
  simp [block]

theorem Field.written_head (f : Field) : ∃ c cs, f.written = c :: cs ∧ c ≠ ' ' := by
  cases f with
  | word text nonempty first plain =>
    obtain ⟨c, cs, rfl⟩ := List.exists_cons_of_ne_nil nonempty
    exact ⟨c, cs, rfl, (plain c List.mem_cons_self).1⟩
  | quoted text plain => exact ⟨'\'', text ++ ['\''], rfl, by decide⟩

theorem Fields.written_head (fs : Fields) : ∃ c cs, fs.written = c :: cs ∧ c ≠ ' ' := by
  cases fs with
  | one f => exact f.written_head
  | more f extra rest =>
    obtain ⟨c, cs, hf, hc⟩ := f.written_head
    exact ⟨c, _, by rw [Fields.written, hf]; rfl, hc⟩

/-- What follows a field: nothing, or spaces and the next field. -/
def following : Option (Nat × Fields) → List Char
  | none => []
  | some (extra, rest) => List.replicate (extra + 1) ' ' ++ rest.written

def remaining : Option (Nat × Fields) → List Char
  | none => []
  | some (_, rest) => rest.written

theorem dropWhile_following (next : Option (Nat × Fields)) :
    (following next).dropWhile (fun d => d = ' ') = remaining next := by
  match next with
  | none => rfl
  | some (extra, rest) =>
    obtain ⟨c, cs, h, hc⟩ := rest.written_head
    rw [following, remaining, List.dropWhile_append_of_pos]
    · rw [h, List.dropWhile_cons_of_neg (by simpa using hc)]
    · intro d hd
      simpa using List.eq_of_mem_replicate hd

theorem following_head (next : Option (Nat × Fields)) :
    ∀ c ∈ (following next).head?, c = ' ' := by
  match next with
  | none => rintro c ⟨⟩
  | some (extra, rest) =>
    rintro c ⟨⟩
    rfl

theorem takeWhile_stops {p : Char → Bool} {text cs : List Char} (ht : ∀ c ∈ text, p c)
    (hcs : ∀ c ∈ cs.head?, p c = false) : (text ++ cs).takeWhile p = text := by
  rw [List.takeWhile_append_of_pos ht]
  cases cs with
  | nil => simp
  | cons c cs => rw [List.takeWhile_cons_of_neg (by simp [hcs c rfl]), List.append_nil]

theorem dropWhile_stops {p : Char → Bool} {text cs : List Char} (ht : ∀ c ∈ text, p c)
    (hcs : ∀ c ∈ cs.head?, p c = false) : (text ++ cs).dropWhile p = cs := by
  rw [List.dropWhile_append_of_pos ht]
  cases cs with
  | nil => rfl
  | cons c cs => rw [List.dropWhile_cons_of_neg (by simp [hcs c rfl])]

/-- The turn of the loop for one field. -/
theorem copyArgs_field (f : Field) (next : Option (Nat × Fields)) :
    copyArgs (f.written ++ following next) =
      (copyArgs (remaining next)).map fun written => f.text ++ '@' :: written := by
  cases f with
  | quoted text plain =>
    have ht : ∀ d ∈ text, decide (d ≠ '\'') = true := fun d hd => by simpa using (plain d hd).1
    have hstop : ∀ c ∈ ('\'' :: following next).head?, decide (c ≠ '\'') = false := by
      rintro c ⟨⟩
      rfl
    have hquote : ('\'' :: following next).dropWhile (fun d => d = '\'') = following next := by
      rw [List.dropWhile_cons_of_pos (by rfl)]
      refine @dropWhile_stops _ [] _ (by simp) fun c hc => ?_
      rw [following_head next c hc]
      rfl
    show copyArgs ('\'' :: (text ++ ['\'']) ++ following next) = _
    rw [List.cons_append, List.append_assoc, copyArgs, if_neg (by decide), if_pos rfl]
    simp only [List.singleton_append]
    rw [takeWhile_stops ht hstop, dropWhile_stops ht hstop, hquote, dropWhile_following]
    rfl
  | word text nonempty first plain =>
    have ht : ∀ d ∈ text, decide (d ≠ ' ') = true := fun d hd => by simpa using (plain d hd).1
    have hstop : ∀ c ∈ (following next).head?, decide (c ≠ ' ') = false := fun c hc => by
      rw [following_head next c hc]
      rfl
    have htake := takeWhile_stops ht hstop
    have hdrop := dropWhile_stops ht hstop
    show copyArgs (text ++ following next) = _
    obtain ⟨c, cs, rfl⟩ := List.exists_cons_of_ne_nil nonempty
    have hc : c ≠ '<' := fun h => first (by rw [h]; rfl)
    rw [List.cons_append] at htake hdrop ⊢
    rw [copyArgs, if_neg hc, if_neg (plain c List.mem_cons_self).2.1]
    simp only [htake, hdrop, dropWhile_following]
    split
    · rename_i hnil
      rw [hnil, copyArgs]
      rfl
    · rfl

theorem copyArgs_fields (fs : Fields) : copyArgs fs.written = some (block fs.texts) := by
  induction fs with
  | one f =>
    have h := copyArgs_field f none
    rw [following, List.append_nil, remaining, copyArgs] at h
    rw [Fields.texts, block_cons]
    exact h
  | more f extra rest ih =>
    refine (copyArgs_field f (some (extra, rest))).trans ?_
    rw [remaining, ih, Fields.texts, block_cons]
    rfl

theorem CommandLine.copyArgs (line : CommandLine) :
    copyArgs line.body = some (block line.fields) := by
  cases line with
  | none => rw [body, Legion.copyArgs]; rfl
  | some fs => exact copyArgs_fields fs

theorem Field.text_le (f : Field) : f.text.length ≤ f.written.length := by
  cases f with
  | word text nonempty first plain => exact Nat.le_refl _
  | quoted text plain =>
    simp only [Field.text, Field.written, List.length_cons, List.length_append]
    omega

theorem Fields.block_le (fs : Fields) : (block fs.texts).length ≤ fs.written.length + 1 := by
  induction fs with
  | one f =>
    have h := f.text_le
    simp only [texts, block_cons, block_nil, written, List.length_append, List.length_cons,
      List.length_nil]
    omega
  | more f extra rest ih =>
    have h := f.text_le
    simp only [texts, block_cons, written, List.length_append, List.length_cons,
      List.length_replicate]
    omega

/-! ## What the second pass makes of it -/

theorem tokens_nil : tokens [] = [] := by
  rw [tokens]
  rfl

theorem strtok_r_token {text : CString} (hne : text ≠ []) (hat : '@' ∉ text) (cs : List Char) :
    strtok_r (text ++ '@' :: cs) = some (text, cs) := by
  have hp : ∀ c ∈ text, decide (c ≠ '@') = true := fun c hc => by
    simpa using fun h : c = '@' => hat (h ▸ hc)
  have hstop : ∀ c ∈ ('@' :: cs).head?, decide (c ≠ '@') = false := by
    rintro c ⟨⟩
    rfl
  have hbegin : (text ++ '@' :: cs).dropWhile (fun c => c = '@') = text ++ '@' :: cs := by
    obtain ⟨c, text, rfl⟩ := List.exists_cons_of_ne_nil hne
    have hc := hp c List.mem_cons_self
    exact List.dropWhile_cons_of_neg (by simpa using hc)
  simp only [strtok_r]
  rw [hbegin, if_neg (by simp), takeWhile_stops hp hstop, dropWhile_stops hp hstop]
  rfl

theorem tokens_token {text : CString} (hne : text ≠ []) (hat : '@' ∉ text) (cs : List Char) :
    tokens (text ++ '@' :: cs) = text :: tokens cs := by
  rw [tokens, strtok_r_token hne hat]

/-- A text that survives both passes. -/
def Plain (text : CString) : Prop := text ≠ [] ∧ '@' ∉ text ∧ '\x00' ∉ text

instance (text : CString) : Decidable (Plain text) := by
  unfold Plain
  infer_instance

theorem tokens_block {texts : List CString} (h : ∀ text ∈ texts, Plain text) :
    tokens (block texts) = texts := by
  induction texts with
  | nil => exact tokens_nil
  | cons text texts ih =>
    obtain ⟨hne, hat, _⟩ := h text List.mem_cons_self
    rw [block_cons, tokens_token hne hat, ih fun t ht => h t (List.mem_cons_of_mem _ ht)]

theorem strtok_r_some {str token rest : CString} (h : strtok_r str = some (token, rest)) :
    token ≠ [] ∧ '@' ∉ token ∧ token ⊆ str ∧ rest ⊆ str := by
  simp only [strtok_r] at h
  split at h
  · cases h
  · rename_i hne
    simp only [Option.some.injEq, Prod.mk.injEq] at h
    obtain ⟨rfl, rfl⟩ := h
    have hsub : str.dropWhile (fun c => c = '@') ⊆ str := (List.dropWhile_suffix _).subset
    obtain ⟨c, cs, hc⟩ := List.exists_cons_of_ne_nil hne
    have hfirst : decide (c ≠ '@') = true := by
      have := List.head_dropWhile_not (fun c => decide (c = '@')) hne
      simpa [hc] using this
    refine ⟨?_, fun hat => ?_, ?_, ?_⟩
    · rw [hc, List.takeWhile_cons_of_pos (p := fun c => decide (c ≠ '@')) hfirst]
      exact List.cons_ne_nil _ _
    · simpa using List.mem_takeWhile_imp hat
    · exact fun d hd => hsub ((List.takeWhile_prefix _).subset hd)
    · exact fun d hd => hsub ((List.dropWhile_suffix _).subset (List.mem_of_mem_tail hd))

/-- A token is not empty, and its characters are of the block and no delimiters. -/
theorem mem_tokens {str : CString} :
    ∀ token ∈ tokens str, token ≠ [] ∧ '@' ∉ token ∧ token ⊆ str := by
  induction str using tokens.induct with
  | case1 str h =>
    rw [tokens, h]
    simp
  | case2 str token rest h ih =>
    obtain ⟨hne, hat, hsub, hrest⟩ := strtok_r_some h
    rw [tokens, h]
    intro t ht
    rcases List.mem_cons.mp ht with rfl | ht
    · exact ⟨hne, hat, hsub⟩
    · obtain ⟨h₁, h₂, h₃⟩ := ih t ht
      exact ⟨h₁, h₂, fun c hc => hrest (h₃ hc)⟩

/-! ## The argument vector -/

/-- With something in `argContainer`, the rest is appended to it. -/
theorem store_appended {ts : List CString} {v : ArgVector} {text : CString}
    (hv : v.argContainer = some text) (hlen : text.length < 500) :
    (ts.foldlM ArgVector.store v).isSome ↔
      (text ++ ts.flatMap fun text => ' ' :: text).length < 500 := by
  induction ts generalizing v text with
  | nil => simpa using hlen
  | cons t ts ih =>
    rw [List.foldlM_cons, ArgVector.store, hv]
    simp only [ArgVector.contain]
    split
    · rename_i h
      refine (ih rfl h).trans ?_
      rw [List.flatMap_cons, List.append_assoc]
    · rename_i h
      refine iff_of_false (by simp) fun hc => h ?_
      simp only [List.flatMap_cons, List.length_append] at hc ⊢
      omega

theorem store_full {ts : List CString} {v : ArgVector} (hv : v.argContainer = none)
    (hidx : v.argArrIdx = 3) :
    (ts.foldlM ArgVector.store v).isSome ↔ (joined ts).length < 500 := by
  cases ts with
  | nil => simp [joined]
  | cons t ts =>
    rw [List.foldlM_cons, ArgVector.store, hv]
    simp only [hidx, if_true, ArgVector.contain]
    split
    · rename_i h
      exact store_appended rfl h
    · rename_i h
      refine iff_of_false (by simp) fun hc => h ?_
      rw [joined, List.length_append] at hc
      omega

theorem store_below {ts : List CString} {k : Nat} {v : ArgVector} (hv : v.argContainer = none)
    (hidx : v.argArrIdx + k = 3) :
    (ts.foldlM ArgVector.store v).isSome ↔ (joined (ts.drop k)).length < 500 := by
  induction k generalizing ts v with
  | zero => exact store_full hv hidx
  | succ k ih =>
    cases ts with
    | nil => simp [joined]
    | cons t ts =>
      rw [List.foldlM_cons, store_free hv (by omega)]
      exact ih hv (by simp only; omega)

/-- Three arguments have slots of their own, and the others share one. -/
theorem storeTokens_isSome (argArr : Nat → Slot) (ts : List CString) :
    (storeTokens argArr ts).isSome ↔ (joined (ts.drop 3)).length < 500 :=
  store_below rfl rfl

/-! ## The whole line -/

theorem Field.no_newline (f : Field) : '\n' ∉ f.written := by
  cases f with
  | word text nonempty first plain => exact fun h => (plain _ h).2.2 rfl
  | quoted text plain =>
    intro h
    simp only [Field.written, List.mem_cons, List.mem_append, List.mem_nil_iff, or_false] at h
    rcases h with h | h | h
    · exact absurd h (by decide)
    · exact (plain _ h).2 rfl
    · exact absurd h (by decide)

theorem Fields.no_newline (fs : Fields) : '\n' ∉ fs.written := by
  induction fs with
  | one f => exact f.no_newline
  | more f extra rest ih =>
    intro h
    simp only [written, List.mem_append, List.mem_replicate] at h
    rcases h with h | ⟨_, h⟩ | h
    · exact f.no_newline h
    · exact absurd h (by decide)
    · exact ih h

theorem CommandLine.no_newline (line : CommandLine) : '\n' ∉ line.body := by
  cases line with
  | none => exact List.not_mem_nil
  | some fs => exact fs.no_newline

theorem argsArrLen_line {body : List Char} (h : '\n' ∉ body) :
    argsArrLen (body ++ ['\n']) = some body.length := by
  rw [argsArrLen, if_pos (by simp), takeWhile_stops]
  · exact fun c hc => by simpa using fun hn : c = '\n' => h (hn ▸ hc)
  · rintro c ⟨⟩
    rfl

theorem tokenise_line (line : CommandLine) :
    tokenise line.chars =
      (blockText (line.body.length * 2) (block line.fields)).elim (.error .undefined)
        fun text => .ok (some (tokens text)) := by
  rw [tokenise, CommandLine.chars, argsArrLen_line line.no_newline]
  simp only [List.take_left', line.copyArgs]
  cases blockText (line.body.length * 2) (block line.fields) with
  | none => rfl
  | some text => rfl

theorem mem_block {texts : List CString} {c : Char} (h : c ∈ block texts) :
    c = '@' ∨ ∃ text ∈ texts, c ∈ text := by
  obtain ⟨text, ht, hc⟩ := List.mem_flatMap.mp h
  rcases List.mem_append.mp hc with hc | hc
  · exact .inr ⟨text, ht, hc⟩
  · exact .inl (List.mem_singleton.mp hc)

theorem nul_not_mem_block {texts : List CString} (h : ∀ text ∈ texts, Plain text) :
    '\x00' ∉ block texts := by
  intro hc
  rcases mem_block hc with hc | ⟨text, ht, hc⟩
  · exact absurd hc (by decide)
  · exact (h text ht).2.2 hc

/-- Whatever the line, its tokens are plain texts. -/
theorem plain_of_tokens {curStr : List Char} {ts : List CString}
    (h : tokenise curStr = .ok (some ts)) : ∀ text ∈ ts, Plain text := by
  unfold tokenise at h
  split at h
  · cases h
  · split at h
    · cases h
    · split at h
      · cases h
      · rename_i text hb
        cases h
        have hnul : '\x00' ∉ text := by
          unfold blockText at hb
          split at hb
          · cases hb
            exact fun hc => by simpa using List.mem_takeWhile_imp hc
          · cases hb
        intro token ht
        obtain ⟨hne, hat, hsub⟩ := mem_tokens token ht
        exact ⟨hne, hat, fun hc => hnul (hsub hc)⟩

theorem long_of_tokenise {line : CommandLine}
    (h : tokenise line.chars = .ok (some line.fields)) : 2 ≤ line.body.length := by
  have hplain := plain_of_tokens h
  have hlt : (block line.fields).length < line.body.length * 2 := by
    rw [tokenise_line] at h
    by_contra hc
    rw [blockText, if_neg] at h
    · cases h
    · rintro (hlt | ⟨_, hnul⟩)
      · exact hc hlt
      · exact nul_not_mem_block hplain hnul
  cases line with
  | none => exact absurd hlt (by simp [CommandLine.fields, CommandLine.body])
  | some fs =>
    have hpos : 2 ≤ (block (CommandLine.fields (some fs))).length := by
      have hone : ∀ text texts, (∀ t ∈ text :: texts, Plain t) →
          2 ≤ (block (text :: texts)).length := by
        intro text texts ht
        have := List.length_pos_iff.mpr (ht text List.mem_cons_self).1
        rw [block_cons, List.length_append, List.length_cons]
        omega
      cases fs with
      | one f => exact hone _ _ hplain
      | more f extra rest => exact hone _ _ hplain
    omega

theorem tokenise_fields {line : CommandLine} (hlong : 2 ≤ line.body.length)
    (hplain : ∀ text ∈ line.fields, Plain text) :
    tokenise line.chars = .ok (some line.fields) := by
  have hnul := nul_not_mem_block hplain
  have hle : (block line.fields).length ≤ line.body.length + 1 := by
    cases line with
    | none => exact Nat.zero_le _
    | some fs => exact fs.block_le
  have hall : (block line.fields).takeWhile (fun c => c ≠ '\x00') = block line.fields := by
    rw [List.takeWhile_eq_self_iff]
    exact fun c hc => by simpa using fun h : c = '\x00' => hnul (h ▸ hc)
  rw [tokenise_line, blockText, if_pos (.inl (by omega)), hall, Option.elim_some,
    tokens_block hplain]

/-- The lines whose fields come through. -/
structure CommandLine.Splits (line : CommandLine) : Prop where
  long : 2 ≤ line.body.length
  plain : ∀ text ∈ line.fields, Plain text
  fits : (joined (line.fields.drop 3)).length < 500

instance (line : CommandLine) : Decidable line.Splits :=
  decidable_of_iff (2 ≤ line.body.length ∧ (∀ text ∈ line.fields, Plain text) ∧
      (joined (line.fields.drop 3)).length < 500)
    ⟨fun ⟨h₁, h₂, h₃⟩ => ⟨h₁, h₂, h₃⟩, fun ⟨h₁, h₂, h₃⟩ => ⟨h₁, h₂, h₃⟩⟩

theorem parseArgs_tokens {argArr : Nat → Slot} {curStr : List Char} {ts : List CString}
    {v : ArgVector} (h : parseArgs argArr curStr = .ok (some (ts, v))) :
    tokenise curStr = .ok (some ts) ∧ storeTokens argArr ts = some v := by
  unfold parseArgs at h
  split at h
  · cases h
  · cases h
  · rename_i tokens ht
    split at h
    · cases h
    · rename_i w hw
      cases h
      exact ⟨ht, hw⟩

theorem parseArgs_fields (line : CommandLine) (argArr : Nat → Slot) :
    (∃ v, parseArgs argArr line.chars = .ok (some (line.fields, v))) ↔ line.Splits := by
  constructor
  · rintro ⟨v, h⟩
    obtain ⟨ht, hv⟩ := parseArgs_tokens h
    exact
      { long := long_of_tokenise ht
        plain := plain_of_tokens ht
        fits := (storeTokens_isSome argArr line.fields).mp (by rw [hv]; rfl) }
  · intro h
    obtain ⟨v, hv⟩ := Option.isSome_iff_exists.mp
      ((storeTokens_isSome argArr line.fields).mpr h.fits)
    exact ⟨v, parseArgs_some (tokenise_fields h.long h.plain) hv⟩

/-- `status a@b` -/
def separatorLine : CommandLine :=
  some (.more (.word "status".toList (by decide) (by decide) (by decide)) 0
    (.one (.word "a@b".toList (by decide) (by decide) (by decide))))

theorem separator_splits_field :
    ¬ ∀ (line : CommandLine) (argArr : Nat → Slot),
      ∃ v, parseArgs argArr line.chars = .ok (some (line.fields, v)) := by
  intro h
  obtain ⟨v, hv⟩ := h separatorLine fun _ => .null
  have hplain := plain_of_tokens (parseArgs_tokens hv).1
  exact absurd (hplain "a@b".toList (by decide)).2.1 (by decide)

example : separatorLine.chars = "status a@b\n".toList := by decide

end StarterProjects.Legion
