import Mathlib.Data.List.TakeWhile
import StarterProjects.Lib.Exec

/-!
# Loops that go through a text

A loop of the kind `while (p(text[i])) { ...; i++; }`, where the index `i` is part of the state of
the program. A read outside of the text is undefined. The loop passes the longest stretch of
characters with `p` when another character follows it (`scan_run`); what it does when nothing is
known of the text is said by an invariant (`scan_cases`).
-/

namespace Lib.Scan

variable {σ α : Type} (text : List α) (idx : σ → Nat)

/-- `text[i]` -/
def peek : Exec σ α := fun s =>
  match text[idx s]? with
  | some c => .ok (c, s)
  | none => .error .undefined

/-- For at most `fuel` tests of the condition. -/
def scan (p : α → Bool) (body : α → Exec σ Unit) : Nat → Exec σ Unit
  | 0 => Exec.stop .diverges
  | fuel + 1 => do
      let c ← peek text idx
      if p c then
        body c
        scan p body fuel
      else
        pure ()

variable {text idx} {p q : α → Bool} {body : α → Exec σ Unit} {s : σ} {c : α} {cs more : List α}

theorem peek_run (h : text[idx s]? = some c) : peek text idx s = .ok (c, s) := by
  rw [peek, h]

theorem peek_outside (h : text[idx s]? = none) : peek text idx s = .error .undefined := by
  rw [peek, h]

theorem getElem?_of_drop {n : Nat} (h : text.drop n = c :: more) : text[n]? = some c := by
  have hhead := congrArg List.head? h
  rwa [List.head?_drop] at hhead

theorem scan_stop (h : text[idx s]? = some c) (hc : p c = false) (fuel : Nat) :
    scan text idx p body (fuel + 1) s = .ok ((), s) := by
  rw [scan, Exec.bind_ok (peek_run h), hc]
  rfl

theorem scan_turn {s' : σ} (h : text[idx s]? = some c) (hc : p c = true)
    (hbody : body c s = .ok ((), s')) (fuel : Nat) :
    scan text idx p body (fuel + 1) s = scan text idx p body fuel s' := by
  rw [scan, Exec.bind_ok (peek_run h), if_pos hc, Exec.bind_ok hbody]

/-- The loop in front of `cs` and a character that stops it. `st` is the state after what it has
passed. -/
theorem scan_run (st : List α → σ) {e : α} {fuel : Nat}
    (hat : text.drop (idx (st [])) = cs ++ e :: more)
    (hq : ∀ c ∈ cs, p c = q c) (he : p e = false)
    (hidx : ∀ pre, idx (st pre) = idx (st []) + pre.length)
    (hbody : ∀ pre c, pre ++ [c] <+: cs.takeWhile q → body c (st pre) = .ok ((), st (pre ++ [c])))
    (hfuel : cs.length < fuel) :
    scan text idx p body fuel (st []) = .ok ((), st (cs.takeWhile q)) := by
  induction cs generalizing st fuel with
  | nil =>
    obtain ⟨fuel, rfl⟩ := Nat.exists_eq_add_of_lt hfuel
    exact scan_stop (getElem?_of_drop hat) he _
  | cons c cs ih =>
    obtain ⟨fuel, rfl⟩ := Nat.exists_eq_add_of_lt hfuel
    have hc := hq c List.mem_cons_self
    have hget := getElem?_of_drop hat
    cases hp : q c with
    | false =>
      rw [List.takeWhile_cons_of_neg (by rw [hp]; exact Bool.false_ne_true)]
      exact scan_stop hget (hc.trans hp) _
    | true =>
      rw [List.takeWhile_cons_of_pos hp] at hbody ⊢
      rw [scan_turn hget (hc.trans hp) (hbody [] c ((List.prefix_cons_inj c).mpr List.nil_prefix))]
      have hnext : text.drop (idx (st [c])) = cs ++ e :: more := by
        rw [hidx, ← List.drop_drop, hat]
        rfl
      refine ih (fun pre => st (c :: pre)) hnext (fun d hd => hq d (List.mem_cons_of_mem c hd))
        (fun pre => ?_) (fun pre d hpre => ?_) (by rw [List.length_cons]; omega)
      · have h₁ := hidx (c :: pre)
        have h₂ := hidx [c]
        rw [List.length_cons] at h₁
        rw [List.length_singleton] at h₂
        omega
      · exact hbody (c :: pre) d ((List.prefix_cons_inj c).mpr hpre)

/-- Where the turns of the loop keep `I`, or are undefined, the loop does not go on for ever. -/
theorem scan_cases (I : σ → Prop)
    (hbody : ∀ c s, I s → text[idx s]? = some c → p c = true → body c s = .error .undefined ∨
      ∃ s', body c s = .ok ((), s') ∧ I s' ∧ idx s' = idx s + 1) :
    ∀ (fuel : Nat) (s : σ), I s → idx s ≤ text.length → text.length < idx s + fuel →
      scan text idx p body fuel s = .error .undefined ∨
        ∃ s' c, scan text idx p body fuel s = .ok ((), s') ∧ I s' ∧ text[idx s']? = some c ∧
          p c = false
  | 0, _, _, hle, hfuel => absurd hfuel (Nat.not_lt.mpr hle)
  | fuel + 1, s, hI, hle, hfuel => by
    cases hget : text[idx s]? with
    | none =>
      left
      rw [scan, Exec.bind_error (peek_outside hget)]
    | some c =>
      have hlt := (List.getElem?_eq_some_iff.mp hget).1
      cases hc : p c with
      | false => exact Or.inr ⟨s, c, scan_stop hget hc fuel, hI, hget, hc⟩
      | true =>
        rcases hbody c s hI hget hc with hstop | ⟨s', hgo, hI', hidx⟩
        · left
          rw [scan, Exec.bind_ok (peek_run hget), if_pos hc, Exec.bind_error hstop]
        · rw [scan_turn hget hc hgo]
          exact scan_cases I hbody fuel s' hI' (by omega) (by omega)

end Lib.Scan
