import Mathlib.Algebra.Group.Int.Defs
import Mathlib.Data.Fin.Basic
import Mathlib.Data.List.Infix
import StarterProjects.Jeux.Player

/-!
# Two results posted at the same time

`player_post_result` reads both ratings and writes both ratings in four critical sections.
Two calls interleave at the level of these sections: `turns` with a schedule of eight
turns. `stage` is what a call still has to do after so many sections; a call that reads a
shared rating before the other one has written it works with a rating that is lost.
-/

namespace StarterProjects.Jeux

open Lib

/-! ## Ratings in the world -/

/-- The rating of `p`; 0 when there is no such player. -/
def ratingOf (w : World) (p : PlayerPtr) : Int := (((player p).get w).map Player.rating).getD 0

/-- The world with another rating of `p`. -/
def rate (p : PlayerPtr) (R : Int) (w : World) : World :=
  (player p).modify (fun X => { X with rating := R }) w

/-- The player is there and its lock is free. -/
def Ready (w : World) (p : PlayerPtr) : Prop :=
  ∃ X, (player p).get w = some X ∧ X.playerLock = 1

theorem rate_get_same (p : PlayerPtr) (R : Int) (w : World) :
    (player p).get (rate p R w) = ((player p).get w).map fun X => { X with rating := R } :=
  (player p).get_modify _ _

theorem rate_get_other {p q : PlayerPtr} (h : q ≠ p) (R : Int) (w : World) :
    (player q).get (rate p R w) = (player q).get w := Heap.update_other _ _ h

theorem ready_rate {p q : PlayerPtr} {R : Int} {w : World} (h : Ready w q) :
    Ready (rate p R w) q := by
  obtain ⟨X, hX, hl⟩ := h
  rcases eq_or_ne q p with rfl | hq
  · exact ⟨{ X with rating := R }, by rw [rate_get_same, hX]; rfl, hl⟩
  · exact ⟨X, (rate_get_other hq R w).trans hX, hl⟩

theorem ratingOf_rate_same {p : PlayerPtr} {w : World} (h : Ready w p) (R : Int) :
    ratingOf (rate p R w) p = R := by
  obtain ⟨X, hX, _⟩ := h
  rw [ratingOf, rate_get_same, hX]
  rfl

theorem ratingOf_rate_other {p q : PlayerPtr} (h : q ≠ p) (R : Int) (w : World) :
    ratingOf (rate p R w) q = ratingOf w q := by
  rw [ratingOf, rate_get_other h]
  rfl

theorem rate_comm {p q : PlayerPtr} (h : p ≠ q) (R S : Int) (w : World) :
    rate p R (rate q S w) = rate q S (rate p R w) := by
  have hheap : (w.playerHeap.update q fun X => { X with rating := S }).update p
      (fun X => { X with rating := R }) =
      (w.playerHeap.update p fun X => { X with rating := R }).update q
        (fun X => { X with rating := S }) := by
    ext1
    · rfl
    · funext x
      simp only [Heap.update_cell, if_neg h, if_neg h.symm]
      split
      · next hx => rw [hx, if_neg h]
      · rfl
  exact congrArg (fun t => { w with playerHeap := t }) hheap

/-! ## A call and its stages -/

/-- Who won and who lost, with the roles of the two players of a call. -/
def score (result : Int) (m : Fin 2) : Score :=
  if m = 0 then (scores result).1 else (scores result).2

section Stages

variable (rated : Int → Int → Score → Int) (a : Fin 2 → PlayerPtr) (result : Int)

/-- The rating that a call computes for its player `m` from the ratings it has read. -/
def newRating (R : Fin 2 → Int) (m : Fin 2) : Int :=
  rated (R m) ((R (1 - m) - R m).tdiv 400) (score result m)

/-- What is left of the call when `n` critical sections are to come, with the ratings read
so far. -/
def left (R : Fin 2 → Int) : Nat → Prog World Unit
  | 0 => .ret ()
  | 1 => (lockedWrite (a 1) (newRating rated result R 1)).atomic >>= fun _ => .ret ()
  | 2 => (lockedWrite (a 0) (newRating rated result R 0)).atomic >>= fun _ => left R 1
  | 3 => (lockedRead (a 1)).atomic >>= fun y => left (Function.update R 1 y) 2
  | n + 4 => (lockedRead (a 0)).atomic >>= fun x => left (Function.update R 0 x) (n + 3)

/-- What is left of the call after `n` of its four critical sections. -/
def stage (R : Fin 2 → Int) (n : Nat) : Prog World Unit := left rated a result R (4 - n)

theorem post_eq_stage (R : Fin 2 → Int) :
    player_post_result rated Prog.atomic (a 0) (a 1) result = stage rated a result R 0 := by
  rw [← Prog.bind_ret (player_post_result _ _ _ _ _), player_post_result]
  simp only [Prog.bind_assoc]
  rfl

end Stages

theorem lockedRead_ready {p : PlayerPtr} {w : World} (h : Ready w p) :
    (lockedRead p).run w = .ok (ratingOf w p, w) := by
  obtain ⟨X, hX, hl⟩ := h
  rw [lockedRead_run hX hl, ratingOf, hX]
  rfl

theorem lockedWrite_ready {p : PlayerPtr} {w : World} (h : Ready w p) (R : Int) :
    (lockedWrite p R).run w = .ok ((), rate p R w) := by
  obtain ⟨X, hX, hl⟩ := h
  rw [lockedWrite_run R hX hl, rate, (player p).modify_eq_set hX]

/-! ## Writing the ratings of a call -/

/-- The first `n` of the two ratings of a call are written. -/
def writes (a : Fin 2 → PlayerPtr) (N : Fin 2 → Int) : Nat → World → World
  | 0, w => w
  | 1, w => rate (a 0) (N 0) w
  | _ + 2, w => rate (a 1) (N 1) (rate (a 0) (N 0) w)

section Writes

variable {a : Fin 2 → PlayerPtr} {N : Fin 2 → Int} {w : World} {q : PlayerPtr}

theorem writes_step (m : Fin 2) :
    writes a N (m + 1) w = rate (a m) (N m) (writes a N m w) := by
  match m with
  | 0 => rfl
  | 1 => rfl

theorem ready_writes (h : Ready w q) : ∀ n, Ready (writes a N n w) q
  | 0 => h
  | 1 => ready_rate h
  | _ + 2 => ready_rate (ready_rate h)

theorem ratingOf_writes {n : Nat} (h : ∀ m : Fin 2, m.val < n → a m ≠ q) :
    ratingOf (writes a N n w) q = ratingOf w q := by
  match n with
  | 0 => rfl
  | 1 => exact ratingOf_rate_other (h 0 (by decide)).symm _ _
  | n + 2 =>
    have h0 := h 0 (show 0 < n + 2 by omega)
    have h1 := h 1 (show 1 < n + 2 by omega)
    exact (ratingOf_rate_other h1.symm _ _).trans (ratingOf_rate_other h0.symm _ _)

/-- The ratings still to be written do not matter to other players. -/
theorem ratingOf_writes_all {n : Nat} (h : ∀ m : Fin 2, n ≤ m.val → a m ≠ q) :
    ratingOf (writes a N n w) q = ratingOf (writes a N 2 w) q := by
  match n with
  | 0 =>
    have h0 := h 0 (Nat.zero_le _)
    have h1 := h 1 (Nat.zero_le _)
    exact ((ratingOf_rate_other h1.symm _ _).trans (ratingOf_rate_other h0.symm _ _)).symm
  | 1 => exact (ratingOf_rate_other (h 1 (Nat.le_refl _)).symm _ _).symm
  | n + 2 => rfl

theorem rate_writes {n : Nat} (R : Int) (h : ∀ m : Fin 2, m.val < n → a m ≠ q) :
    rate q R (writes a N n w) = writes a N n (rate q R w) := by
  match n with
  | 0 => rfl
  | 1 => exact rate_comm (h 0 (by decide)).symm _ _ _
  | n + 2 =>
    have h0 := h 0 (show 0 < n + 2 by omega)
    have h1 := h 1 (show 1 < n + 2 by omega)
    show rate q R (rate (a 1) (N 1) (rate (a 0) (N 0) w)) = _
    rw [rate_comm h1.symm, rate_comm h0.symm]
    rfl

end Writes

/-! ## Turns -/

section Turns

variable {rated : Int → Int → Score → Int} {a : Fin 2 → PlayerPtr} {result : Int}
  {R : Fin 2 → Int} {t : Bool} {w : World} {pool : Bool → Prog World Unit}

theorem turn_read (m : Fin 2) (hp : pool t = stage rated a result R m) (h : Ready w (a m)) :
    turn t (w, pool) = some (w, Function.update pool t
      (stage rated a result (Function.update R m (ratingOf w (a m))) (m + 1))) := by
  match m with
  | 0 =>
    have hp' : pool t = (lockedRead (a 0)).atomic >>= fun x =>
      stage rated a result (Function.update R 0 x) 1 := hp
    have ht := turn_atomic hp' (lockedRead_ready h)
    exact ht
  | 1 =>
    have hp' : pool t = (lockedRead (a 1)).atomic >>= fun y =>
      stage rated a result (Function.update R 1 y) 2 := hp
    have ht := turn_atomic hp' (lockedRead_ready h)
    exact ht

theorem turn_write (m : Fin 2) (hp : pool t = stage rated a result R (m + 2))
    (h : Ready w (a m)) : turn t (w, pool) =
      some (rate (a m) (newRating rated result R m) w, Function.update pool t
        (stage rated a result R (m + 3))) := by
  match m with
  | 0 =>
    have hp' : pool t = (lockedWrite (a 0) (newRating rated result R 0)).atomic >>= fun _ =>
      stage rated a result R 3 := hp
    have ht := turn_atomic hp' (lockedWrite_ready h _)
    exact ht
  | 1 =>
    have hp' : pool t = (lockedWrite (a 1) (newRating rated result R 1)).atomic >>= fun _ =>
      stage rated a result R 4 := hp
    have ht := turn_atomic hp' (lockedWrite_ready h _)
    exact ht

/-- The call that runs alone writes the ratings it computes from what it finds. -/
theorem post_run (h : ∀ m, Ready w (a m)) :
    (player_post_result rated id (a 0) (a 1) result).run w =
      .ok ((), writes a (newRating rated result fun m => ratingOf w (a m)) 2 w) := by
  rw [player_post_result]
  show (lockedRead (a 0) >>= _).run w = _
  rw [Prog.run_bind_ok (lockedRead_ready (h 0))]
  show (lockedRead (a 1) >>= _).run w = _
  rw [Prog.run_bind_ok (lockedRead_ready (h 1))]
  show (lockedWrite (a 0) _ >>= fun _ => lockedWrite (a 1) _).run w = _
  rw [Prog.run_bind_ok (lockedWrite_ready (h 0) _), lockedWrite_ready (ready_rate (h 1))]
  rfl

end Turns

/-! ## The two calls -/

section Calls

variable (rated : Int → Int → Score → Int) (pair : Bool → Fin 2 → PlayerPtr)
  (result : Bool → Int)

/-- The two calls, each about to start. -/
def calls (t : Bool) : Prog World Unit :=
  player_post_result rated Prog.atomic (pair t 0) (pair t 1) (result t)

/-- The call `f` and then the other one. -/
def serial (f : Bool) : Prog World Unit := do
  player_post_result rated id (pair f 0) (pair f 1) (result f)
  player_post_result rated id (pair (!f) 0) (pair (!f) 1) (result (!f))

/-- Whatever the ratings and the results are: the schedule lets both calls return, and every
player has the rating that one of the two serial orders gives. -/
def Serializable (sched : List Bool) : Prop :=
  ∀ result w, (∀ t m, Ready w (pair t m)) →
    ∃ w' f w'', turns sched (w, calls rated pair result) = some (w', fun _ => .ret ()) ∧
      (serial rated pair result f).run w = .ok ((), w'') ∧ ∀ p, ratingOf w' p = ratingOf w'' p

/-- The call `f` has written every shared rating before the other call reads it. -/
def Ordered (sched : List Bool) (f : Bool) : Prop :=
  ∀ pre, pre <+: sched → ∀ m k : Fin 2, pair f m = pair (!f) k →
    k.val < pre.count (!f) → m.val + 2 < pre.count f

/-- The calls have done `n` sections each and read the ratings `R`. -/
def Stands (n : Bool → Nat) (R : Bool → Fin 2 → Int) (pool : Bool → Prog World Unit) : Prop :=
  ∀ t, pool t = stage rated (pair t) (result t) (R t) (n t)

end Calls

/-- One more section of the call `t`. -/
def bump (n : Bool → Nat) (t : Bool) : Bool → Nat := Function.update n t (n t + 1)

theorem bump_same (n : Bool → Nat) (t : Bool) : bump n t t = n t + 1 := Function.update_self ..

theorem bump_other {t u : Bool} (h : u ≠ t) (n : Bool → Nat) : bump n t u = n u :=
  Function.update_of_ne h ..

theorem le_bump (n : Bool → Nat) (t u : Bool) : n u ≤ bump n t u := by
  rcases eq_or_ne u t with rfl | h
  · rw [bump_same]; omega
  · rw [bump_other h]

/-- The sections done after a schedule. -/
def after (n : Bool → Nat) (sched : List Bool) (t : Bool) : Nat := n t + sched.count t

theorem after_nil (n : Bool → Nat) : after n [] = n := rfl

theorem after_cons (n : Bool → Nat) (t : Bool) (sched : List Bool) :
    after n (t :: sched) = after (bump n t) sched := by
  funext u
  rcases eq_or_ne u t with rfl | h
  · rw [after, after, bump_same, List.count_cons_self]; omega
  · rw [after, after, bump_other h, List.count_cons_of_ne h.symm]

/-- The call `t` reads its rating `m`. -/
def readReg (pair : Bool → Fin 2 → PlayerPtr) (w : World) (R : Bool → Fin 2 → Int) (t : Bool)
    (m : Fin 2) : Bool → Fin 2 → Int :=
  Function.update R t (Function.update (R t) m (ratingOf w (pair t m)))

section Runs

variable {rated : Int → Int → Score → Int} {pair : Bool → Fin 2 → PlayerPtr}
  {result : Bool → Int} {n : Bool → Nat} {R : Bool → Fin 2 → Int} {t : Bool} {w : World}
  {pool : Bool → Prog World Unit}

theorem readReg_same (m : Fin 2) : readReg pair w R t m t m = ratingOf w (pair t m) := by
  rw [readReg, Function.update_self, Function.update_self]

theorem readReg_other {m l : Fin 2} (h : l ≠ m) : readReg pair w R t m t l = R t l := by
  rw [readReg, Function.update_self, Function.update_of_ne h]

theorem readReg_thread {u : Bool} (h : u ≠ t) (m l : Fin 2) :
    readReg pair w R t m u l = R u l := by
  rw [readReg, Function.update_of_ne h]

theorem stands_start (w : World) :
    Stands rated pair result (fun _ => 0) (fun t m => ratingOf w (pair t m))
      (calls rated pair result) :=
  fun t => post_eq_stage rated (pair t) (result t) _

theorem stands_turn {R' : Fin 2 → Int} (hp : Stands rated pair result n R pool) :
    Stands rated pair result (bump n t) (Function.update R t R')
      (Function.update pool t (stage rated (pair t) (result t) R' (n t + 1))) := by
  intro u
  rcases eq_or_ne u t with rfl | h
  · rw [Function.update_self, Function.update_self, bump_same]
  · rw [Function.update_of_ne h, Function.update_of_ne h, bump_other h]
    exact hp u

/-- A predicate of the sections done, the world and the ratings read holds all along a
schedule when both kinds of sections keep it. `S` is what the schedule is known to pass
through. -/
theorem turns_induct (I : (Bool → Nat) → World → (Bool → Fin 2 → Int) → Prop)
    (S : (Bool → Nat) → Prop) (ready : ∀ {n w R}, I n w R → ∀ t m, Ready w (pair t m))
    (read : ∀ {n w R t} {m : Fin 2}, I n w R → S n → S (bump n t) → n t = m →
      I (bump n t) w (readReg pair w R t m))
    (write : ∀ {n w R t} {m : Fin 2}, I n w R → S n → S (bump n t) → n t = m + 2 →
      I (bump n t) (rate (pair t m) (newRating rated (result t) (R t) m) w) R) :
    ∀ {sched n w R pool}, I n w R → Stands rated pair result n R pool →
      (∀ pre, pre <+: sched → S (after n pre)) → (∀ t, after n sched t ≤ 4) →
      ∃ w' R' pool', turns sched (w, pool) = some (w', pool') ∧ I (after n sched) w' R' ∧
        Stands rated pair result (after n sched) R' pool' := by
  intro sched
  induction sched with
  | nil =>
    intro n w R pool hI hp _ _
    exact ⟨w, R, pool, rfl, hI, hp⟩
  | cons t sched ih =>
    intro n w R pool hI hp hS h4
    have hS₀ : S n := hS [] List.nil_prefix
    have hS₁ : S (bump n t) := by
      have h := hS [t] ⟨sched, rfl⟩
      rwa [after_cons, after_nil] at h
    have hS' : ∀ pre, pre <+: sched → S (after (bump n t) pre) := fun pre hpre => by
      rw [← after_cons]
      exact hS _ ((List.prefix_cons_inj t).mpr hpre)
    have h4' : ∀ u, after (bump n t) sched u ≤ 4 := fun u => by
      rw [← after_cons]
      exact h4 u
    have hlt : n t < 4 := by
      have h1 := h4' t
      rw [after, bump_same] at h1
      omega
    rw [after_cons]
    rcases Nat.lt_or_ge (n t) 2 with h2 | h2
    · obtain ⟨m, hm⟩ : ∃ m : Fin 2, n t = m := ⟨⟨n t, h2⟩, rfl⟩
      have hturn := turn_read m (by rw [← hm]; exact hp t) (ready hI t m)
      rw [turns_cons hturn, ← hm]
      exact ih (read hI hS₀ hS₁ hm) (stands_turn hp) hS' h4'
    · obtain ⟨m, hm⟩ : ∃ m : Fin 2, n t = m + 2 :=
        ⟨⟨n t - 2, by omega⟩, by show n t = n t - 2 + 2; omega⟩
      have hturn := turn_write m (by rw [← hm]; exact hp t) (ready hI t m)
      rw [turns_cons hturn, show m.val + 3 = n t + 1 by omega]
      have hst : Stands rated pair result (bump n t) (Function.update R t (R t)) _ := stands_turn hp
      rw [Function.update_eq_self] at hst
      exact ih (write hI hS₀ hS₁ hm) hst hS' h4'

/-- After four sections each, both calls have returned. -/
theorem stands_done (hp : Stands rated pair result n R pool) (h : ∀ t, n t = 4) :
    pool = fun _ => .ret () := by
  funext t
  rw [hp t, h t]
  rfl

end Runs

/-! ## An ordered schedule -/

section Sufficient

variable {rated : Int → Int → Score → Int} {pair : Bool → Fin 2 → PlayerPtr}
  {result : Bool → Int} {sched : List Bool} {f : Bool} {w₀ : World}

/-- What the call `t` writes when it reads its ratings in `w`. -/
def posted (rated : Int → Int → Score → Int) (pair : Bool → Fin 2 → PlayerPtr)
    (result : Bool → Int) (t : Bool) (w : World) : Fin 2 → Int :=
  newRating rated (result t) fun m => ratingOf w (pair t m)

/-- The world after the call `t`. -/
def world (rated : Int → Int → Score → Int) (pair : Bool → Fin 2 → PlayerPtr)
    (result : Bool → Int) (t : Bool) (w : World) : World :=
  writes (pair t) (posted rated pair result t w) 2 w

theorem serial_run (f : Bool) (h : ∀ t m, Ready w₀ (pair t m)) :
    (serial rated pair result f).run w₀ =
      .ok ((), world rated pair result (!f) (world rated pair result f w₀)) := by
  rw [serial, Prog.run_bind_ok (post_run (h f)), post_run fun m => ready_writes (h (!f) m) 2]
  rfl

/-- Where an ordered run stands: the call `f` works on `w₀` as if it were alone, the other one
as if it had started after it. -/
structure InOrder (rated : Int → Int → Score → Int) (pair : Bool → Fin 2 → PlayerPtr)
    (result : Bool → Int) (f : Bool) (w₀ : World) (n : Bool → Nat) (w : World)
    (R : Bool → Fin 2 → Int) : Prop where
  first : ∀ m : Fin 2, m < n f → R f m = ratingOf w₀ (pair f m)
  second : ∀ k : Fin 2, k < n (!f) →
    R (!f) k = ratingOf (world rated pair result f w₀) (pair (!f) k)
  world_eq : w = writes (pair (!f)) (posted rated pair result (!f) (world rated pair result f w₀))
    (n (!f) - 2) (writes (pair f) (posted rated pair result f w₀) (n f - 2) w₀)

/-- The shared ratings that the other call has read are written by the call `f`. -/
def Safe (pair : Bool → Fin 2 → PlayerPtr) (f : Bool) (n : Bool → Nat) : Prop :=
  ∀ m k : Fin 2, pair f m = pair (!f) k → k.val < n (!f) → m.val + 2 < n f

variable {n : Bool → Nat} {w : World} {R : Bool → Fin 2 → Int} {m : Fin 2}

theorem InOrder.read_first (h : InOrder rated pair result f w₀ n w R) (hS : Safe pair f n)
    (hm : n f = m) :
    InOrder rated pair result f w₀ (bump n f) w (readReg pair w R f m) := by
  have hne : (!f) ≠ f := Bool.not_ne_self f
  have hlt := m.isLt
  have hval : ratingOf w (pair f m) = ratingOf w₀ (pair f m) := by
    rw [h.world_eq, show n f - 2 = 0 by omega]
    refine ratingOf_writes fun k hk he => ?_
    have := hS m k he.symm (by omega)
    omega
  refine ⟨fun l hl => ?_, fun k hk => ?_, ?_⟩
  · rcases eq_or_ne l m with rfl | hlm
    · rw [readReg_same, hval]
    · rw [readReg_other hlm]
      rw [bump_same] at hl
      have hv : l.val ≠ m.val := fun he => hlm (Fin.ext he)
      exact h.first l (by omega)
  · rw [readReg_thread hne]
    rw [bump_other hne] at hk
    exact h.second k hk
  · rw [bump_same, bump_other hne, show n f + 1 - 2 = n f - 2 by omega]
    exact h.world_eq

theorem InOrder.read_second (h : InOrder rated pair result f w₀ n w R)
    (hS : Safe pair f (bump n (!f))) (hm : n (!f) = m) :
    InOrder rated pair result f w₀ (bump n (!f)) w (readReg pair w R (!f) m) := by
  have hne : f ≠ (!f) := (Bool.not_ne_self f).symm
  have hlt := m.isLt
  have hval : ratingOf w (pair (!f) m) =
      ratingOf (world rated pair result f w₀) (pair (!f) m) := by
    rw [h.world_eq, show n (!f) - 2 = 0 by omega]
    show ratingOf (writes (pair f) _ (n f - 2) w₀) _ = ratingOf (writes (pair f) _ 2 w₀) _
    refine ratingOf_writes_all fun k hk he => ?_
    have := hS k m he (by rw [bump_same]; omega)
    rw [bump_other hne] at this
    omega
  refine ⟨fun l hl => ?_, fun k hk => ?_, ?_⟩
  · rw [readReg_thread hne]
    rw [bump_other hne] at hl
    exact h.first l hl
  · rcases eq_or_ne k m with rfl | hkm
    · rw [readReg_same, hval]
    · rw [readReg_other hkm]
      rw [bump_same] at hk
      have hv : k.val ≠ m.val := fun he => hkm (Fin.ext he)
      exact h.second k (by omega)
  · rw [bump_same, bump_other hne, show n (!f) + 1 - 2 = n (!f) - 2 by omega]
    exact h.world_eq

theorem InOrder.write_first (h : InOrder rated pair result f w₀ n w R) (hS : Safe pair f n)
    (hm : n f = m + 2) : InOrder rated pair result f w₀ (bump n f)
      (rate (pair f m) (newRating rated (result f) (R f) m) w) R := by
  have hne : (!f) ≠ f := Bool.not_ne_self f
  have hreg : R f = fun m => ratingOf w₀ (pair f m) := funext fun l => h.first l (by omega)
  refine ⟨fun l hl => h.first l (by omega), fun k hk => ?_, ?_⟩
  · rw [bump_other hne] at hk
    exact h.second k hk
  · rw [bump_same, bump_other hne, show n f + 1 - 2 = m + 1 by omega, writes_step, hreg,
      h.world_eq, show n f - 2 = m by omega]
    refine rate_writes _ fun k hk he => ?_
    have := hS m k he.symm (by omega)
    omega

theorem InOrder.write_second (h : InOrder rated pair result f w₀ n w R)
    (hm : n (!f) = m + 2) : InOrder rated pair result f w₀ (bump n (!f))
      (rate (pair (!f) m) (newRating rated (result (!f)) (R (!f)) m) w) R := by
  have hne : f ≠ (!f) := (Bool.not_ne_self f).symm
  have hreg : R (!f) = fun k => ratingOf (world rated pair result f w₀) (pair (!f) k) :=
    funext fun k => h.second k (by omega)
  refine ⟨fun l hl => ?_, fun k hk => h.second k (by omega), ?_⟩
  · rw [bump_other hne] at hl
    exact h.first l hl
  · rw [bump_same, bump_other hne, show n (!f) + 1 - 2 = m + 1 by omega, writes_step, hreg,
      h.world_eq, show n (!f) - 2 = m by omega]
    rfl

theorem InOrder.read {t : Bool} (h : InOrder rated pair result f w₀ n w R) (hS : Safe pair f n)
    (hS' : Safe pair f (bump n t)) (hm : n t = m) :
    InOrder rated pair result f w₀ (bump n t) w (readReg pair w R t m) := by
  rcases eq_or_ne t f with rfl | ht
  · exact h.read_first hS hm
  · obtain rfl := Bool.eq_not_of_ne ht
    exact h.read_second hS' hm

theorem InOrder.write {t : Bool} (h : InOrder rated pair result f w₀ n w R) (hS : Safe pair f n)
    (hm : n t = m + 2) : InOrder rated pair result f w₀ (bump n t)
      (rate (pair t m) (newRating rated (result t) (R t) m) w) R := by
  rcases eq_or_ne t f with rfl | ht
  · exact h.write_first hS hm
  · obtain rfl := Bool.eq_not_of_ne ht
    exact h.write_second hm

theorem InOrder.ready (hr : ∀ t m, Ready w₀ (pair t m))
    (h : InOrder rated pair result f w₀ n w R) (t : Bool) (m : Fin 2) : Ready w (pair t m) := by
  rw [h.world_eq]
  exact ready_writes (ready_writes (hr t m) _) _

theorem serializable_of_ordered (h4 : ∀ t, sched.count t = 4) (h : Ordered pair sched f) :
    Serializable rated pair sched := by
  intro result w₀ hr
  have hstart : InOrder rated pair result f w₀ (fun _ => 0) w₀
      fun t m => ratingOf w₀ (pair t m) :=
    ⟨fun _ hm => absurd hm (Nat.not_lt_zero _), fun _ hk => absurd hk (Nat.not_lt_zero _), rfl⟩
  have hcount : ∀ pre t, after (fun _ => 0) pre t = pre.count t := fun pre t => Nat.zero_add _
  obtain ⟨w', R', pool', hrun, hI, hp⟩ := turns_induct (InOrder rated pair result f w₀)
    (Safe pair f) (fun hI => hI.ready hr)
    (fun hI hS hS' hm => hI.read hS hS' hm) (fun hI hS _ hm => hI.write hS hm)
    hstart (stands_start w₀)
    (fun pre hpre m k he hk => by
      rw [hcount] at hk ⊢
      exact h pre hpre m k he hk)
    fun t => by rw [hcount, h4]
  have hend : ∀ t, after (fun _ => 0) sched t = 4 := fun t => by rw [hcount, h4]
  refine ⟨w', f, _, ?_, serial_run f hr, fun p => ?_⟩
  · rw [hrun, stands_done hp hend]
  · rw [hI.world_eq, hend, hend]
    rfl

end Sufficient

/-! ## A schedule that is ordered neither way -/

/-- The calls read their ratings `μ` before the other call has written its own. -/
def Racy (μ : Bool → Fin 2) (n : Bool → Nat) : Prop :=
  ∀ t, n t ≤ μ t → n (!t) ≤ μ (!t) + 2

theorem count_le_of_count_lt {sched pre pre' : List Bool} {t : Bool} (h : pre <+: sched)
    (h' : pre' <+: sched) (hlt : pre.count t < pre'.count t) (u : Bool) :
    pre.count u ≤ pre'.count u := by
  rcases List.prefix_or_prefix_of_prefix h h' with hp | hp
  · exact hp.sublist.count_le u
  · have := hp.sublist.count_le t
    omega

/-- Two violations, one in each direction, give one shared player that both calls read
before the other one writes it. -/
theorem racy_of_not_ordered {pair : Bool → Fin 2 → PlayerPtr} {sched : List Bool}
    (h₀ : ¬ Ordered pair sched false) (h₁ : ¬ Ordered pair sched true) :
    ∃ μ : Bool → Fin 2, pair false (μ false) = pair true (μ true) ∧
      ∀ pre, pre <+: sched → Racy μ fun t => pre.count t := by
  simp only [Ordered, not_forall, Nat.not_lt, Bool.not_false, Bool.not_true] at h₀ h₁
  obtain ⟨pre₁, hpre₁, m₁, k₁, he₁, hk₁, hm₁⟩ := h₀
  obtain ⟨pre₂, hpre₂, m₂, k₂, he₂, hk₂, hm₂⟩ := h₁
  have hm₁' := m₁.isLt
  have hm₂' := m₂.isLt
  -- the other direction of the first violation
  by_cases h₃ : ∀ pre, pre <+: sched → pre.count false ≤ m₁ → pre.count true ≤ k₁ + 2
  · refine ⟨fun t => bif t then k₁ else m₁, he₁, fun pre hpre t => ?_⟩
    cases t with
    | false => exact h₃ pre hpre
    | true =>
      intro hle
      have hlt : pre.count true < pre₁.count true := Nat.lt_of_le_of_lt hle hk₁
      exact (count_le_of_count_lt hpre hpre₁ hlt false).trans hm₁
  -- then the second violation has its other direction
  · simp only [not_forall, Nat.not_le] at h₃
    obtain ⟨pre₃, hpre₃, hle₃, hlt₃⟩ := h₃
    refine ⟨fun t => bif t then m₂ else k₂, he₂.symm, fun pre hpre t => ?_⟩
    cases t with
    | false =>
      intro hle
      have hlt : pre.count false < pre₂.count false := Nat.lt_of_le_of_lt hle hk₂
      exact (count_le_of_count_lt hpre hpre₂ hlt true).trans hm₂
    | true =>
      intro (hle : pre.count true ≤ m₂)
      have hlt : pre.count true < pre₃.count true := by omega
      have := count_le_of_count_lt hpre hpre₃ hlt false
      show pre.count false ≤ k₂ + 2
      omega

/-- For ratings that are not far apart the floating point computation is exact: the winner
gains 16 and the loser loses 16. -/
def Exact (rated : Int → Int → Score → Int) : Prop :=
  ∀ R, 1000 ≤ R → R ≤ 2000 → rated R 0 .won = R + 16 ∧ rated R 0 .lost = R - 16

/-- What the player `m` of a call gains when the first one has won. -/
def gain (m : Fin 2) : Int := if m = 0 then 16 else -16

def Near (b : Int) (R : Int) : Prop := 1500 - b ≤ R ∧ R ≤ 1500 + b

section Necessary

variable {rated : Int → Int → Score → Int} {pair : Bool → Fin 2 → PlayerPtr}
  {sched : List Bool} {w : World} {n : Bool → Nat} {R : Bool → Fin 2 → Int} {t : Bool}
  {m : Fin 2} {μ : Bool → Fin 2}

theorem newRating_near (hex : Exact rated) {b : Int} (hb : b < 200) {R : Fin 2 → Int}
    (h : ∀ m, Near b (R m)) (m : Fin 2) : newRating rated 1 R m = R m + gain m := by
  have hm := h m
  have hm' := h (1 - m)
  unfold Near at hm hm'
  have hk : (R (1 - m) - R m).tdiv 400 = 0 := by
    rcases Int.le_total 0 (R (1 - m) - R m) with hx | hx
    · exact Int.tdiv_eq_zero_of_lt hx (by omega)
    · rw [← Int.neg_neg (R (1 - m) - R m), Int.neg_tdiv,
        Int.tdiv_eq_zero_of_lt (by omega) (by omega), Int.neg_zero]
  obtain ⟨hwon, hlost⟩ := hex (R m) (by omega) (by omega)
  rw [newRating, hk]
  match m with
  | 0 => exact hwon
  | 1 => exact hlost

theorem near_newRating (hex : Exact rated) {b : Int} (hb : b < 200) {R : Fin 2 → Int}
    (h : ∀ m, Near b (R m)) (m : Fin 2) : Near (b + 16) (newRating rated 1 R m) := by
  have hm := h m
  rw [newRating_near hex hb h]
  unfold Near at hm ⊢
  unfold gain
  split <;> omega

theorem Near.mono {b c x : Int} (h : Near b x) (hbc : b ≤ c) : Near c x := by
  unfold Near at h ⊢
  omega

/-- A run in which both calls start from 1500 for the player that they share. -/
structure Racing (pair : Bool → Fin 2 → PlayerPtr) (μ : Bool → Fin 2) (n : Bool → Nat)
    (w : World) (R : Bool → Fin 2 → Int) : Prop where
  ready : ∀ t m, Ready w (pair t m)
  near : ∀ t m, Near (16 * (n false + n true)) (ratingOf w (pair t m))
  near_reg : ∀ t m, Near (16 * (n false + n true)) (R t m)
  stale : ∀ t, μ t < n t → R t (μ t) = 1500
  unwritten : (∀ t, n t ≤ μ t + 2) → ∀ t, ratingOf w (pair t (μ t)) = 1500
  written : (∃ t, μ t + 2 < n t) → ∃ u, ∀ t, ratingOf w (pair t (μ t)) = 1500 + gain (μ u)

theorem bump_total (n : Bool → Nat) (t : Bool) :
    bump n t false + bump n t true = n false + n true + 1 := by
  cases t with
  | false => rw [bump_same, bump_other (by decide)]; omega
  | true => rw [bump_same, bump_other (by decide)]; omega

theorem total_step (n : Bool → Nat) (t : Bool) :
    (16 * (bump n t false + bump n t true) : Int) = 16 * (n false + n true) + 16 := by
  have := bump_total n t
  omega

theorem Racing.read (h : Racing pair μ n w R) (hS : Racy μ n) (hm : n t = m) :
    Racing pair μ (bump n t) w (readReg pair w R t m) := by
  have hlt := m.isLt
  refine ⟨h.ready, fun u l => ?_, fun u l => ?_, fun u hu => ?_, fun hu => ?_, fun hu => ?_⟩
  · exact (h.near u l).mono (by rw [total_step]; omega)
  · have hmono : ∀ x, Near (16 * (n false + n true)) x →
        Near (16 * (bump n t false + bump n t true)) x :=
      fun x hx => hx.mono (by rw [total_step]; omega)
    rcases eq_or_ne u t with rfl | hut
    · rcases eq_or_ne l m with rfl | hlm
      · rw [readReg_same]
        exact hmono _ (h.near u l)
      · rw [readReg_other hlm]
        exact hmono _ (h.near_reg u l)
    · rw [readReg_thread hut]
      exact hmono _ (h.near_reg u l)
  · rcases eq_or_ne u t with rfl | hut
    · rcases eq_or_ne (μ u) m with hum | hum
      -- the shared rating: the other call has not written it
      · have hother := hS u (by rw [hm, hum])
        rw [hum, readReg_same, ← hum]
        refine h.unwritten (fun v => ?_) u
        rcases eq_or_ne v u with rfl | hv
        · rw [hm]; omega
        · obtain rfl := Bool.eq_not_of_ne hv
          exact hother
      · rw [readReg_other hum]
        rw [bump_same] at hu
        have hv : (μ u).val ≠ m.val := fun he => hum (Fin.ext he)
        exact h.stale u (by omega)
    · rw [readReg_thread hut]
      rw [bump_other hut] at hu
      exact h.stale u hu
  · exact h.unwritten fun v => (le_bump n t v).trans (hu v)
  · obtain ⟨v, hv⟩ := hu
    refine h.written ⟨v, ?_⟩
    rcases eq_or_ne v t with rfl | hvt
    · rw [bump_same] at hv
      omega
    · rwa [bump_other hvt] at hv

theorem ne_of_index_ne {a : Fin 2 → PlayerPtr} (hd : a 0 ≠ a 1) {l m : Fin 2} (h : l ≠ m) :
    a l ≠ a m := by
  match l, m with
  | 0, 0 => exact absurd rfl h
  | 0, 1 => exact hd
  | 1, 0 => exact hd.symm
  | 1, 1 => exact absurd rfl h

theorem Racing.write (hex : Exact rated) (hd : ∀ t, pair t 0 ≠ pair t 1)
    (hμ : pair false (μ false) = pair true (μ true)) (h : Racing pair μ n w R)
    (h4 : n false + n true < 8) (hm : n t = m + 2) : Racing pair μ (bump n t)
      (rate (pair t m) (newRating rated 1 (R t) m) w) R := by
  have hb : (16 * (n false + n true) : Int) < 200 := by omega
  have hshared : ∀ u v, pair u (μ u) = pair v (μ v) := fun u v => by
    cases u <;> cases v <;> first | rfl | exact hμ | exact hμ.symm
  have hinj : μ t ≠ m → pair t (μ t) ≠ pair t m := ne_of_index_ne (hd t)
  refine ⟨fun u l => ready_rate (h.ready u l), fun u l => ?_, fun u l => ?_, fun u hu => ?_,
    fun hu => ?_, fun hu => ?_⟩
  · rw [total_step]
    rcases eq_or_ne (pair u l) (pair t m) with he | he
    · rw [he, ratingOf_rate_same (h.ready t m)]
      exact near_newRating hex hb (h.near_reg t) m
    · rw [ratingOf_rate_other he]
      exact (h.near u l).mono (by omega)
  · rw [total_step]
    exact (h.near_reg u l).mono (by omega)
  · refine h.stale u ?_
    rcases eq_or_ne u t with rfl | hut
    · omega
    · rwa [bump_other hut] at hu
  all_goals rcases eq_or_ne (μ t) m with htm | htm
  · have := hu t
    rw [bump_same, htm] at this
    omega
  · intro u
    rw [hshared u t, ratingOf_rate_other (hinj htm)]
    exact h.unwritten (fun v => (le_bump n t v).trans (hu v)) t
  · refine ⟨t, fun u => ?_⟩
    rw [hshared u t, htm, ratingOf_rate_same (h.ready t m), newRating_near hex hb (h.near_reg t),
      ← htm, h.stale t (by rw [hm, htm]; omega)]
  · have hold : ∃ v, μ v + 2 < n v := by
      obtain ⟨v, hv⟩ := hu
      refine ⟨v, ?_⟩
      rcases eq_or_ne v t with rfl | hvt
      · rw [bump_same] at hv
        have hne : (μ v).val ≠ m.val := fun he => htm (Fin.ext he)
        omega
      · rwa [bump_other hvt] at hv
    obtain ⟨u, hu'⟩ := h.written hold
    refine ⟨u, fun v => ?_⟩
    rw [hshared v t, ratingOf_rate_other (hinj htm)]
    exact hu' t

theorem ratingOf_writes_own {N : Fin 2 → Int} {a : Fin 2 → PlayerPtr} (hd : a 0 ≠ a 1)
    (h : ∀ m, Ready w (a m)) (m : Fin 2) : ratingOf (writes a N 2 w) (a m) = N m := by
  match m with
  | 0 =>
    show ratingOf (rate (a 1) (N 1) (rate (a 0) (N 0) w)) (a 0) = N 0
    rw [ratingOf_rate_other hd, ratingOf_rate_same (h 0)]
  | 1 => exact ratingOf_rate_same (ready_rate (h 1)) _

/-- A call that starts from 1500 moves no rating further than 16. -/
theorem near_world (hex : Exact rated) (hd : ∀ t, pair t 0 ≠ pair t 1)
    (hr : ∀ t m, Ready w (pair t m)) (h : ∀ t m, ratingOf w (pair t m) = 1500) (t u : Bool)
    (m : Fin 2) : Near 16 (ratingOf (world rated pair (fun _ => 1) t w) (pair u m)) := by
  have hnear : ∀ l, Near 0 (ratingOf w (pair t l)) := fun l => by
    rw [h]
    exact ⟨by decide, by decide⟩
  by_cases hin : ∃ l, pair t l = pair u m
  · obtain ⟨l, hl⟩ := hin
    rw [← hl, world, ratingOf_writes_own (hd t) (hr t)]
    exact near_newRating hex (by decide) hnear l
  · rw [world, ratingOf_writes fun l _ he => hin ⟨l, he⟩, h]
    exact ⟨by decide, by decide⟩

/-- One call after the other, the shared player gains from both. -/
theorem rating_serial (hex : Exact rated) (hd : ∀ t, pair t 0 ≠ pair t 1)
    (hr : ∀ t m, Ready w (pair t m)) (h : ∀ t m, ratingOf w (pair t m) = 1500) (t : Bool)
    (hμ : pair t (μ t) = pair (!t) (μ (!t))) :
    ratingOf (world rated pair (fun _ => 1) (!t) (world rated pair (fun _ => 1) t w))
      (pair t (μ t)) = 1500 + gain (μ t) + gain (μ (!t)) := by
  have hnear : ∀ l, Near 0 (ratingOf w (pair t l)) := fun l => by
    rw [h]
    exact ⟨by decide, by decide⟩
  have hfirst : ratingOf (world rated pair (fun _ => 1) t w) (pair t (μ t)) =
      1500 + gain (μ t) := by
    rw [world, ratingOf_writes_own (hd t) (hr t), posted, newRating_near hex (by decide) hnear, h]
  have hready : ∀ l, Ready (world rated pair (fun _ => 1) t w) (pair (!t) l) :=
    fun l => ready_writes (hr (!t) l) 2
  have hsecond := near_world hex hd hr h t (!t)
  rw [hμ, world, ratingOf_writes_own (hd (!t)) hready, posted,
    newRating_near hex (by decide) hsecond, ← hμ, hfirst]

/-- In a race the shared player gains from one call only. -/
theorem rating_racing (hex : Exact rated) (hd : ∀ t, pair t 0 ≠ pair t 1)
    (hμ : pair false (μ false) = pair true (μ true)) (h4 : ∀ t, sched.count t = 4)
    (hrace : ∀ pre, pre <+: sched → Racy μ fun t => pre.count t)
    (hr : ∀ t m, Ready w (pair t m)) (h : ∀ t m, ratingOf w (pair t m) = 1500) :
    ∃ w' pool' u, turns sched (w, calls rated pair fun _ => 1) = some (w', pool') ∧
      ∀ t, ratingOf w' (pair t (μ t)) = 1500 + gain (μ u) := by
  have hnear : ∀ t m, Near 0 (ratingOf w (pair t m)) := fun t m => by
    rw [h]
    exact ⟨by decide, by decide⟩
  have hstart : Racing pair μ (fun _ => 0) w fun t m => ratingOf w (pair t m) :=
    ⟨hr, hnear, hnear, fun t _ => h t (μ t), fun _ t => h t (μ t),
      fun ⟨_, ht⟩ => absurd ht (Nat.not_lt_zero _)⟩
  have hcount : ∀ pre, after (fun _ => 0) pre = fun t => pre.count t :=
    fun pre => funext fun t => Nat.zero_add _
  obtain ⟨w', R', pool', hrun, hI, _⟩ := turns_induct (Racing pair μ)
    (fun n => Racy μ n ∧ ∀ t, n t ≤ 4) (fun hI => hI.ready)
    (fun hI hS _ hm => hI.read hS.1 hm)
    (fun {n w R t m} hI hS _ hm => by
      have h₀ := hS.2 t
      have h₁ := hS.2 (!t)
      have hlt := m.isLt
      refine hI.write hex hd hμ ?_ hm
      cases t <;> simp only [Bool.not_true, Bool.not_false] at h₁ <;> omega)
    hstart (stands_start w)
    (fun pre hpre => by
      rw [hcount]
      exact ⟨hrace pre hpre, fun t => (hpre.sublist.count_le t).trans (h4 t).le⟩)
    fun t => by rw [hcount]; exact (h4 t).le
  have hlt := (μ false).isLt
  have hend : after (fun _ => 0) sched false = 4 := (Nat.zero_add _).trans (h4 false)
  obtain ⟨u, hu⟩ := hI.written ⟨false, by rw [hend]; omega⟩
  exact ⟨w', pool', u, hrun, hu⟩

end Necessary

/-- A world where everybody is new. -/
def World.newcomers (bound : Nat) : World :=
  { World.initial (fun _ => 0) with
    playerHeap := ⟨bound, fun p => if p < bound then some (Player.created []) else none,
      fun _ hp => if_neg (Nat.not_lt.mpr hp)⟩ }

theorem newcomers_get {bound p : Nat} (h : p < bound) :
    (player p).get (World.newcomers bound) = some (Player.created []) := if_pos h

theorem ready_newcomers {bound p : Nat} (h : p < bound) : Ready (World.newcomers bound) p :=
  ⟨_, newcomers_get h, rfl⟩

theorem ratingOf_newcomers {bound p : Nat} (h : p < bound) :
    ratingOf (World.newcomers bound) p = 1500 := by
  rw [ratingOf, newcomers_get h]
  rfl

theorem ordered_of_serializable {rated : Int → Int → Score → Int}
    {pair : Bool → Fin 2 → PlayerPtr} {sched : List Bool} (hex : Exact rated)
    (hd : ∀ t, pair t 0 ≠ pair t 1) (h4 : ∀ t, sched.count t = 4)
    (h : Serializable rated pair sched) : Ordered pair sched false ∨ Ordered pair sched true := by
  by_contra hno
  obtain ⟨h₀, h₁⟩ := not_or.mp hno
  obtain ⟨μ, hμ, hrace⟩ := racy_of_not_ordered h₀ h₁
  obtain ⟨bound, hbound⟩ : ∃ bound : Nat, ∀ t m, (pair t m : Nat) < bound := by
    refine ⟨(pair false 0 + pair false 1 + pair true 0 + pair true 1 : Nat) + 1, fun t m => ?_⟩
    match t, m with
    | false, 0 => exact Nat.lt_succ_of_le (by omega)
    | false, 1 => exact Nat.lt_succ_of_le (by omega)
    | true, 0 => exact Nat.lt_succ_of_le (by omega)
    | true, 1 => exact Nat.lt_succ_of_le (by omega)
  have hr : ∀ t m, Ready (World.newcomers bound) (pair t m) := fun t m =>
    ready_newcomers (hbound t m)
  have h1500 : ∀ t m, ratingOf (World.newcomers bound) (pair t m) = 1500 := fun t m =>
    ratingOf_newcomers (hbound t m)
  obtain ⟨w', f, w'', hrun, hserial, hsame⟩ := h (fun _ => 1) _ hr
  obtain ⟨w₁, pool₁, u, hrun₁, hu⟩ := rating_racing hex hd hμ h4 hrace hr h1500
  obtain ⟨rfl, -⟩ := Prod.mk.inj (Option.some.inj (hrun.symm.trans hrun₁))
  rw [serial_run f hr] at hserial
  obtain ⟨-, rfl⟩ := Prod.mk.inj (Except.ok.inj hserial)
  have hμ' : pair f (μ f) = pair (!f) (μ (!f)) := by
    cases f
    · exact hμ
    · exact hμ.symm
  have hboth := hsame (pair f (μ f))
  rw [rating_serial hex hd hr h1500 f hμ', hu f] at hboth
  have hgain : ∀ m, gain m = 16 ∨ gain m = -16 := by decide
  have := hgain (μ f)
  have := hgain (μ (!f))
  have huf : u = f ∨ u = !f := by cases u <;> cases f <;> decide
  rcases huf with rfl | rfl <;> omega

/-- An interleaving of two calls is as good as one of the two serial orders exactly when one
of the calls has written each shared rating before the other one reads it. For the direction
from left to right the players of a call are two different ones. -/
theorem serializable_ordered (rated : Int → Int → Score → Int) (pair : Bool → Fin 2 → PlayerPtr)
    (sched : List Bool) (h4 : ∀ t, sched.count t = 4) :
    (Ordered pair sched false ∨ Ordered pair sched true → Serializable rated pair sched) ∧
      (Exact rated → (∀ t, pair t 0 ≠ pair t 1) → Serializable rated pair sched →
        Ordered pair sched false ∨ Ordered pair sched true) :=
  ⟨fun h => h.elim (serializable_of_ordered h4) (serializable_of_ordered h4),
    fun hex hd h => ordered_of_serializable hex hd h4 h⟩

/-- The computation of the source in exact arithmetic: `R + 32 * (S - 1 / (1 + 10^k))` rounded
towards zero, with `10^k` as the fraction `p / q`. -/
def elo (R k : Int) (S : Score) : Int :=
  let p : Int := 10 ^ k.toNat
  let q : Int := 10 ^ (-k).toNat
  let S2 : Int := match S with
    | .lost => 0
    | .drew => 1
    | .won => 2
  ((R + 16 * S2) * (p + q) - 32 * q).tdiv (p + q)

theorem exact_elo : Exact elo := by
  intro R _ _
  constructor
  · show ((R + 16 * 2) * 2 - 32 * 1).tdiv 2 = R + 16
    rw [show (R + 16 * 2) * 2 - 32 * 1 = (R + 16) * 2 by omega]
    exact Int.mul_tdiv_cancel _ (by decide)
  · show ((R + 16 * 0) * 2 - 32 * 1).tdiv 2 = R - 16
    rw [show (R + 16 * 0) * 2 - 32 * 1 = (R - 16) * 2 by omega]
    exact Int.mul_tdiv_cancel _ (by decide)

instance (pair : Bool → Fin 2 → PlayerPtr) (sched : List Bool) (f : Bool) :
    Decidable (Ordered pair sched f) :=
  decidable_of_iff (∀ pre ∈ sched.inits, ∀ m k : Fin 2, pair f m = pair (!f) k →
    k.val < pre.count (!f) → m.val + 2 < pre.count f) (by simp only [Ordered, List.mem_inits])

/-- The same two players have played twice. -/
def rematch (_ : Bool) (m : Fin 2) : PlayerPtr := m

/-- Each rating is read as soon as the other call has written it. -/
theorem rematch_overlaps :
    Serializable elo rematch [false, false, false, true, false, true, true, true] ∧
      Ordered rematch [false, false, false, true, false, true, true, true] false :=
  have h := serializable_ordered elo rematch
    [false, false, false, true, false, true, true, true] (by decide)
  have hs := h.1 (by decide)
  ⟨hs, (h.2 exact_elo (by decide) hs).resolve_right (by decide)⟩

/-- The winner of one game loses the other one. -/
def rivals (t : Bool) (m : Fin 2) : PlayerPtr := if t then m else 1 - m

/-- Both calls read both ratings first. -/
theorem lost_update :
    ¬ Serializable elo rivals [false, false, true, true, false, false, true, true] := fun h =>
  absurd (ordered_of_serializable exact_elo (by decide) (by decide) h) (by decide)

end StarterProjects.Jeux
