import StarterProjects.Legion.Fields
import StarterProjects.Legion.Loop

/-!
# Lines whose fields come through

A turn of the loop on such a line does what its fields say, without the two passes over the
line.
-/

namespace StarterProjects.Legion

open Lib Lib.Exec

/-- A turn with these tokens. -/
def turnOn (tokens : List CString) : Exec Master Unit := do
  prompt
  match storeTokens (← Exec.gets Master.argArr) tokens with
  | none => Exec.stop .undefined
  | some v => executeArgs v

theorem parse_args_error {curStr : List Char} {s : Master} {r : Stop}
    (h : parseArgs s.argArr curStr = .error r) : legion_parse_args curStr s = .error r := by
  rw [legion_parse_args, gets_bind, h]
  rfl

theorem parse_args_execute {curStr : List Char} {s : Master} {ts : List CString} {v : ArgVector}
    (h : parseArgs s.argArr curStr = .ok (some (ts, v))) :
    legion_parse_args curStr s = executeArgs v s := by
  rw [legion_parse_args, gets_bind, h]

theorem turn_of_tokenise {curStr : List Char} {ts : List CString}
    (h : tokenise curStr = .ok (some ts)) (s : Master) : turn curStr s = turnOn ts s := by
  rw [turn, turnOn, prompt, fprintf, modify_bind, modify_bind, gets_bind]
  cases hs : storeTokens s.argArr ts with
  | none =>
    simp only
    exact parse_args_error (parseArgs_full h hs)
  | some v =>
    simp only
    exact parse_args_execute (parseArgs_some h hs)

theorem turns_of_tokenise (lines : List (List Char × List CString))
    (h : ∀ line ∈ lines, tokenise line.1 = .ok (some line.2)) (s : Master) :
    turns (lines.map Prod.fst) s = forEach turnOn (lines.map Prod.snd) s := by
  induction lines generalizing s with
  | nil => rfl
  | cons line lines ih =>
    have hturn := turn_of_tokenise (h line List.mem_cons_self)
    have ih := ih fun l hl => h l (List.mem_cons_of_mem _ hl)
    show (turn line.1 >>= fun _ => turns (lines.map Prod.fst)) s =
      (turnOn line.2 >>= fun _ => forEach turnOn (lines.map Prod.snd)) s
    cases hr : turnOn line.2 s with
    | ok r => rw [bind_ok hr, bind_ok ((hturn s).trans hr), ih]
    | error r => rw [bind_error hr, bind_error ((hturn s).trans hr)]

/-- Lines of plain fields, one after the other. -/
theorem turns_fields (lines : List CommandLine)
    (h : ∀ line ∈ lines, 2 ≤ line.body.length ∧ ∀ text ∈ line.fields, Plain text) (s : Master) :
    turns (lines.map CommandLine.chars) s = forEach turnOn (lines.map CommandLine.fields) s := by
  have hlines := turns_of_tokenise (lines.map fun line => (line.chars, line.fields))
    (fun l hl => by
      obtain ⟨line, hmem, rfl⟩ := List.mem_map.mp hl
      exact tokenise_fields (h line hmem).1 (h line hmem).2) s
  rw [List.map_map, List.map_map] at hlines
  exact hlines

/-- `register lazy lazy` -/
def registerLazy : CommandLine :=
  some (.more (.word "register".toList (by decide) (by decide) (by decide)) 0
    (.more (.word "lazy".toList (by decide) (by decide) (by decide)) 0
      (.one (.word "lazy".toList (by decide) (by decide) (by decide)))))

/-- `start lazy` -/
def startLazy : CommandLine :=
  some (.more (.word "start".toList (by decide) (by decide) (by decide)) 0
    (.one (.word "lazy".toList (by decide) (by decide) (by decide))))

/-- `stop lazy` -/
def stopLazy : CommandLine :=
  some (.more (.word "stop".toList (by decide) (by decide) (by decide)) 0
    (.one (.word "lazy".toList (by decide) (by decide) (by decide))))

/-- The shortest name that does not fit. -/
def longName : CString := List.replicate 100 'a'

/-- `register aa.. x` -/
def registerLong : CommandLine :=
  some (.more (.word "register".toList (by decide) (by decide) (by decide)) 0
    (.more (.word longName (by decide) (by decide) (by decide)) 0
      (.one (.word "x".toList (by decide) (by decide) (by decide)))))

/-- `register a b c` -/
def registerArgs : CommandLine :=
  some (.more (.word "register".toList (by decide) (by decide) (by decide)) 0
    (.more (.word "a".toList (by decide) (by decide) (by decide)) 0
      (.more (.word "b".toList (by decide) (by decide) (by decide)) 0
        (.one (.word "c".toList (by decide) (by decide) (by decide))))))

/-- `unregister a` -/
def unregisterArgs : CommandLine :=
  some (.more (.word "unregister".toList (by decide) (by decide) (by decide)) 0
    (.one (.word "a".toList (by decide) (by decide) (by decide))))

/-- `register x y` -/
def registerShort : CommandLine :=
  some (.more (.word "register".toList (by decide) (by decide) (by decide)) 0
    (.more (.word "x".toList (by decide) (by decide) (by decide)) 0
      (.one (.word "y".toList (by decide) (by decide) (by decide)))))

theorem turns_lazy (s : Master) :
    turns [registerLazy.chars, startLazy.chars] s =
      forEach turnOn [registerLazy.fields, startLazy.fields] s :=
  turns_fields [registerLazy, startLazy] (by decide) s

end StarterProjects.Legion
