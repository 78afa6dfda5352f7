import Mathlib.Logic.Function.Iterate
import Mathlib.Tactic.Common

/-!
# Stateful programs that may stop

A program over a state `σ` either returns a value with a new state or stops: it
calls `abort`, it does something undefined (a memory access outside every
object), it never comes back, or its process ends or becomes another program.

`Ends m s Q` is total correctness: from `s` the program `m` returns, and what it
returns satisfies `Q`. `Orderly μ m` is the one partial property used: no run
of `m` ends in `abort`, and none lowers the measure `μ`.
-/

namespace Lib

/-- Why a program did not return. -/
inductive Stop where
  | abort
  | undefined
  | diverges
  /-- The process exits. -/
  | exits
  /-- The process goes on as another program. -/
  | replaced
deriving DecidableEq, Repr

abbrev Exec (σ : Type) := StateT σ (Except Stop)

namespace Exec

variable {σ α β ι : Type}

/-- Stop here. -/
def stop (r : Stop) : Exec σ α := fun _ => .error r

/-- The first result of `body` along `is`: a `for` loop that leaves early. -/
def firstSome (body : ι → Exec σ (Option β)) : List ι → Exec σ (Option β)
  | [] => pure none
  | i :: is => do
      match ← body i with
      | some b => pure (some b)
      | none => firstSome body is

/-- `body` for every element of the list, in order. -/
def forEach (body : ι → Exec σ Unit) : List ι → Exec σ Unit
  | [] => pure ()
  | i :: is => do
      body i
      forEach body is

/-- `while (cond) body;` on a value, for at most `fuel` tests of the condition. -/
def whileLoop (cond : α → Bool) (body : α → α) : Nat → α → Option α
  | 0, _ => none
  | fuel + 1, a => if cond a then whileLoop cond body fuel (body a) else some a

/-- `m` returns from `s`, with a value and a state that satisfy `Q`. -/
def Ends (m : Exec σ α) (s : σ) (Q : α → σ → Prop) : Prop :=
  ∃ a s', m s = .ok (a, s') ∧ Q a s'

theorem bind_ok {m : Exec σ α} {f : α → Exec σ β} {s s' : σ} {a : α}
    (h : m s = .ok (a, s')) : (m >>= f) s = f a s' := by
  show (m s >>= fun p => f p.1 p.2) = f a s'
  rw [h]
  rfl

theorem bind_error {m : Exec σ α} {f : α → Exec σ β} {s : σ} {r : Stop}
    (h : m s = .error r) : (m >>= f) s = .error r := by
  show (m s >>= fun p => f p.1 p.2) = .error r
  rw [h]
  rfl

theorem bind_eq_ok {m : Exec σ α} {f : α → Exec σ β} {s s' : σ} {b : β}
    (h : (m >>= f) s = .ok (b, s')) : ∃ a s₁, m s = .ok (a, s₁) ∧ f a s₁ = .ok (b, s') := by
  cases he : m s with
  | ok p => exact ⟨p.1, p.2, rfl, (bind_ok he).symm.trans h⟩
  | error r =>
    rw [bind_error he] at h
    cases h

theorem bind_eq_error {m : Exec σ α} {f : α → Exec σ β} {s : σ} {r : Stop}
    (h : (m >>= f) s = .error r) :
    m s = .error r ∨ ∃ a s₁, m s = .ok (a, s₁) ∧ f a s₁ = .error r := by
  cases he : m s with
  | ok p => exact .inr ⟨p.1, p.2, rfl, (bind_ok he).symm.trans h⟩
  | error why =>
    rw [bind_error he] at h
    cases h
    exact .inl rfl

@[simp] theorem pure_apply (a : α) (s : σ) : (pure a : Exec σ α) s = .ok (a, s) := rfl

@[simp] theorem get_apply (s : σ) : (get : Exec σ σ) s = .ok (s, s) := rfl

@[simp] theorem set_apply (s s' : σ) : (set s' : Exec σ PUnit) s = .ok (⟨⟩, s') := rfl

@[simp] theorem modify_apply (f : σ → σ) (s : σ) :
    (modify f : Exec σ PUnit) s = .ok (⟨⟩, f s) := rfl

@[simp] theorem stop_apply (r : Stop) (s : σ) : (stop r : Exec σ α) s = .error r := rfl

/-- On a fixed input total correctness can be computed. -/
instance (m : Exec σ α) (s : σ) (Q : α → σ → Prop) [∀ a t, Decidable (Q a t)] :
    Decidable (Ends m s Q) :=
  match h : m s with
  | .ok (a, t) => decidable_of_iff (Q a t)
      ⟨fun hQ => ⟨a, t, h, hQ⟩, fun ⟨b, u, hb, hQ⟩ => by rw [h] at hb; cases hb; exact hQ⟩
  | .error r => isFalse fun ⟨b, u, hb, _⟩ => by rw [h] at hb; cases hb

/-! ## Rules of total correctness -/

namespace Ends

variable {m : Exec σ α} {f : α → Exec σ β} {s s' : σ} {a : α}
  {P Q : α → σ → Prop} {R : β → σ → Prop}

theorem ret (h : Q a s) : Ends (pure a) s Q := ⟨a, s, rfl, h⟩

theorem of_eq (h : m s = .ok (a, s')) (hQ : Q a s') : Ends m s Q := ⟨a, s', h, hQ⟩

theorem congr {m' : Exec σ α} {t : σ} (h : m s = m' t) (hm : Ends m' t Q) : Ends m s Q := by
  obtain ⟨a, s', he, hQ⟩ := hm
  exact ⟨a, s', h.trans he, hQ⟩

theorem mono (h : Ends m s P) (hPQ : ∀ a s', P a s' → Q a s') : Ends m s Q := by
  obtain ⟨a, s', he, hP⟩ := h
  exact ⟨a, s', he, hPQ a s' hP⟩

/-- What a run is known to give decides everything about it. -/
theorem iff_of {C : Prop} (h : Ends m s P) (hC : ∀ a s', P a s' → (Q a s' ↔ C)) :
    Ends m s Q ↔ C := by
  obtain ⟨a, s', he, hP⟩ := h
  constructor
  · intro hQ
    exact (hC a s' hP).mp (by
      obtain ⟨b, t, he', hQ⟩ := hQ
      rw [he] at he'
      cases he'
      exact hQ)
  · exact fun hc => ⟨a, s', he, (hC a s' hP).mpr hc⟩

/-- Sequencing: run the first program by its own specification, then go on. -/
theorem step (h : Ends m s P) (hf : ∀ a s', P a s' → Ends (f a) s' R) :
    Ends (m >>= f) s R := by
  obtain ⟨a, s', he, hP⟩ := h
  obtain ⟨b, s'', he', hR⟩ := hf a s' hP
  exact ⟨b, s'', (bind_ok he).trans he', hR⟩

/-- Sequencing after a program whose result is known exactly. -/
theorem run (h : m s = .ok (a, s')) (hf : Ends (f a) s' R) : Ends (m >>= f) s R :=
  step (of_eq (Q := fun b t => b = a ∧ t = s') h ⟨rfl, rfl⟩) fun _ _ hb => by
    obtain ⟨rfl, rfl⟩ := hb
    exact hf

theorem apply (h : Ends m s Q) (he : m s = .ok (a, s')) : Q a s' := by
  obtain ⟨b, t, hb, hQ⟩ := h
  rw [he] at hb
  cases hb
  exact hQ

theorem ne_error (h : Ends m s Q) (r : Stop) : m s ≠ .error r := by
  obtain ⟨a, s', he, _⟩ := h
  rw [he]
  exact fun hc => nomatch hc

end Ends

/-- `m` returns from `s`. -/
def Returns (m : Exec σ α) (s : σ) : Prop := Ends m s fun _ _ => True

namespace Returns

variable {m : Exec σ α} {k : α → Exec σ β} {s s' : σ} {a : α}

theorem of_eq (h : m s = .ok (a, s')) : Returns m s := ⟨a, s', h, trivial⟩

theorem congr {m' : Exec σ α} {t : σ} (h : m s = m' t) : Returns m s ↔ Returns m' t :=
  ⟨Ends.congr h.symm, Ends.congr h⟩

theorem not_of_error {r : Stop} (h : m s = .error r) : ¬ Returns m s :=
  fun hm => Ends.ne_error hm r h

/-- What comes after returns in any case. -/
theorem bind_iff (hk : ∀ a s', m s = .ok (a, s') → Returns (k a) s') :
    Returns (m >>= k) s ↔ Returns m s := by
  constructor
  · rintro ⟨b, t, h, -⟩
    obtain ⟨a, s₁, hm, -⟩ := bind_eq_ok h
    exact of_eq hm
  · rintro ⟨a, s₁, hm, -⟩
    exact Ends.run hm (hk a s₁ hm)

end Returns

/-- A loop that leaves early finds nothing before the first index that answers. -/
theorem firstSome_ends {body : ι → Exec σ (Option β)} {s : σ} {R : Option β → σ → Prop}
    {pre : List ι} {i : ι} {post : List ι}
    (hpre : ∀ j ∈ pre, body j s = .ok (none, s))
    (hi : Ends (body i) s fun r s' => (∃ b, r = some b) ∧ R r s') :
    Ends (firstSome body (pre ++ i :: post)) s R := by
  induction pre with
  | nil =>
    refine hi.step fun r s' hr => ?_
    obtain ⟨⟨b, rfl⟩, hR⟩ := hr
    exact .ret hR
  | cons j pre ih =>
    refine Ends.run (hpre j List.mem_cons_self) ?_
    exact ih fun k hk => hpre k (List.mem_cons_of_mem _ hk)

/-- A loop whose turns only read answers as the first turn that answers. -/
theorem firstSome_read {body : ι → Exec σ (Option β)} {s : σ} {r : ι → Option β} {is : List ι}
    (h : ∀ j ∈ is, body j s = .ok (r j, s)) :
    firstSome body is s = .ok (is.findSome? r, s) := by
  induction is with
  | nil => rfl
  | cons j is ih =>
    rw [firstSome, bind_ok (h j List.mem_cons_self), List.findSome?_cons]
    cases r j with
    | some b => rfl
    | none => exact ih fun k hk => h k (List.mem_cons_of_mem _ hk)

theorem firstSome_none {body : ι → Exec σ (Option β)} {s : σ} {is : List ι}
    (h : ∀ j ∈ is, body j s = .ok (none, s)) : firstSome body is s = .ok (none, s) := by
  rw [firstSome_read (r := fun _ => none) h, List.findSome?_eq_none_iff.mpr fun _ _ => rfl]

/-- Loop rule: a predicate of the remaining list and the state is carried through. -/
theorem forEach_ends {body : ι → Exec σ Unit} (I : List ι → σ → Prop)
    (hbody : ∀ i is s, I (i :: is) s → Ends (body i) s fun _ s' => I is s') :
    ∀ (is : List ι) (s : σ), I is s → Ends (forEach body is) s fun _ s' => I [] s'
  | [], _, h => .ret h
  | i :: is, s, h => (hbody i is s h).step fun _ s' h' => forEach_ends I hbody is s' h'

/-- A loop ends after as many turns as its condition holds. -/
theorem whileLoop_iterate (cond : α → Bool) (body : α → α) :
    ∀ (k fuel : Nat) (a : α), k < fuel → (∀ j < k, cond (body^[j] a) = true) →
      cond (body^[k] a) = false → whileLoop cond body fuel a = some (body^[k] a)
  | _, 0, _, hk, _, _ => absurd hk (Nat.not_lt_zero _)
  | 0, fuel + 1, a, _, _, hend => by
    rw [whileLoop, if_neg (by simpa using hend)]
    rfl
  | k + 1, fuel + 1, a, hk, hon, hend => by
    have h0 : cond a = true := hon 0 (Nat.zero_lt_succ k)
    rw [whileLoop, if_pos h0]
    exact whileLoop_iterate cond body k fuel (body a) (Nat.lt_of_succ_lt_succ hk)
      (fun j hj => hon (j + 1) (Nat.succ_lt_succ hj)) hend

/-! ## Programs that return whenever another one does -/

/-- Whatever `m` returns, `m'` returns too. -/
def Below (m m' : Exec σ α) : Prop := ∀ s r, m s = .ok r → m' s = .ok r

namespace Below

variable {m m' : Exec σ α} {f f' : α → Exec σ β}

theorem refl (m : Exec σ α) : Below m m := fun _ _ h => h

theorem bind (hm : Below m m') (hf : ∀ a, Below (f a) (f' a)) : Below (m >>= f) (m' >>= f') := by
  intro s r h
  obtain ⟨a, s₁, h1, h2⟩ := bind_eq_ok (show (m >>= f) s = .ok (r.1, r.2) from h)
  rw [bind_ok (hm _ _ h1)]
  exact hf _ _ _ h2

end Below

/-! ## Programs that do not depend on a part of the state -/

/-- The change `f` of the state makes no difference to `m`, and `m` keeps it. -/
def Blind (f : σ → σ) (m : Exec σ α) : Prop := ∀ s, m (f s) = (m s).map fun r => (r.1, f r.2)

namespace Blind

variable {f : σ → σ} {m : Exec σ α} {k : α → Exec σ β}

theorem ret (a : α) : Blind f (pure a : Exec σ α) := fun _ => rfl

theorem stop (r : Stop) : Blind f (stop r : Exec σ α) := fun _ => rfl

theorem bind (hm : Blind f m) (hk : ∀ a, Blind f (k a)) : Blind f (m >>= k) := by
  intro s
  have hf := hm s
  cases he : m s with
  | ok r =>
    rw [he] at hf
    have hfs : m (f s) = .ok (r.1, f r.2) := hf
    rw [bind_ok hfs, bind_ok he]
    exact hk r.1 r.2
  | error r =>
    rw [he] at hf
    rw [bind_error (r := r) hf, bind_error he]
    rfl

/-- What is read of the state does not depend on the change either. -/
theorem get {k : σ → Exec σ β} (hread : ∀ s, k (f s) = k s) (hk : ∀ s, Blind f (k s)) :
    Blind f (get >>= k) := by
  intro s
  rw [bind_ok (get_apply (f s)), bind_ok (get_apply s), hread]
  exact hk s s

theorem ite {c : Prop} [Decidable c] {m' : Exec σ α} (h : Blind f m) (h' : Blind f m') :
    Blind f (if c then m else m') := by
  split
  · exact h
  · exact h'

theorem firstSome {body : ι → Exec σ (Option β)} (h : ∀ i, Blind f (body i)) :
    ∀ is, Blind f (Exec.firstSome body is)
  | [] => ret _
  | i :: is => (h i).bind fun r => by
      cases r with
      | some b => exact ret _
      | none => exact firstSome h is

/-- A run after the change is the change of a run. -/
theorem ends {s : σ} {Q : α → σ → Prop} (hm : Blind f m) (h : Ends m (f s) Q) :
    Ends m s fun a s' => Q a (f s') := by
  obtain ⟨a, s₁, hrun, hQ⟩ := h
  have hf := hm s
  rw [hrun] at hf
  cases he : m s with
  | ok r =>
    rw [he] at hf
    cases hf
    exact ⟨r.1, r.2, he, hQ⟩
  | error r =>
    rw [he] at hf
    cases hf

end Blind

/-! ## Programs that never abort and never lower a measure -/

/-- No run of `m` ends in `abort`, and none that returns lowers `μ`. -/
def Orderly (μ : σ → Nat) (m : Exec σ α) : Prop :=
  (∀ s, m s ≠ .error .abort) ∧ ∀ s a s', m s = .ok (a, s') → μ s ≤ μ s'

namespace Orderly

variable {μ : σ → Nat} {m : Exec σ α} {f : α → Exec σ β}

theorem ret (a : α) : Orderly μ (pure a : Exec σ α) :=
  ⟨nofun, fun s b s' h => by cases h; exact Nat.le_refl _⟩

theorem bind (hm : Orderly μ m) (hf : ∀ a, Orderly μ (f a)) : Orderly μ (m >>= f) := by
  constructor
  · intro s
    cases he : m s with
    | ok p => rw [bind_ok (show m s = .ok (p.1, p.2) from he)]; exact (hf _).1 _
    | error r =>
      rw [bind_error he]
      exact fun h => hm.1 s (by rw [he]; cases h; rfl)
  · intro s b s' h
    obtain ⟨a, s₁, h1, h2⟩ := bind_eq_ok h
    exact Nat.le_trans (hm.2 _ _ _ h1) ((hf a).2 _ _ _ h2)

theorem get : Orderly μ (get : Exec σ σ) :=
  ⟨nofun, fun s a s' h => by cases h; exact Nat.le_refl _⟩

theorem modify {g : σ → σ} (h : ∀ s, μ s ≤ μ (g s)) : Orderly μ (modify g : Exec σ PUnit) :=
  ⟨nofun, fun s a s' he => by cases he; exact h s⟩

theorem stop {r : Stop} (h : r ≠ .abort) : Orderly μ (stop r : Exec σ α) :=
  ⟨fun _ hc => h (by cases hc; rfl), nofun⟩

theorem ite {c : Prop} [Decidable c] {m' : Exec σ α} (h : Orderly μ m) (h' : Orderly μ m') :
    Orderly μ (if c then m else m') := by
  split
  · exact h
  · exact h'

theorem firstSome {body : ι → Exec σ (Option β)} (h : ∀ i, Orderly μ (body i)) :
    ∀ is, Orderly μ (Exec.firstSome body is)
  | [] => ret _
  | i :: is => (h i).bind fun r => by
      cases r with
      | some b => exact ret _
      | none => exact firstSome h is

theorem forEach {body : ι → Exec σ Unit} (h : ∀ i, Orderly μ (body i)) :
    ∀ is, Orderly μ (Exec.forEach body is)
  | [] => ret _
  | i :: is => (h i).bind fun _ => forEach h is

end Orderly

end Exec

end Lib
