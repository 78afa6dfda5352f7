import Mathlib.Tactic.Common
import StarterProjects.Lib.Prog

/-!
# Objects in the shared state and their locks

An `Obj` is a place of the shared state where an object may live: a global variable, or
the cell behind a pointer. Reading or writing an object that is not there (a NULL pointer,
or one that was freed) is undefined. A `Lock` is a counting semaphore kept in a field of
the object; `P` and `V` are its two operations.
-/

namespace Lib

variable {σ α β : Type}

/-! ## A heap of objects of one type -/

/-- The objects behind pointers: `next` is the pointer the next allocation returns. -/
structure Heap (α : Type) where
  next : Nat
  cell : Nat → Option α
  fresh : ∀ p, next ≤ p → cell p = none

namespace Heap

@[ext] theorem ext {h h' : Heap α} (hn : h.next = h'.next) (hc : h.cell = h'.cell) : h = h' := by
  cases h
  cases h'
  cases hn
  cases hc
  rfl

def empty : Heap α := ⟨0, fun _ => none, fun _ _ => rfl⟩

def alloc (a : α) (h : Heap α) : Heap α where
  next := h.next + 1
  cell := fun q => if q = h.next then some a else h.cell q
  fresh := fun p hp => by
    rw [if_neg (by omega)]
    exact h.fresh p (by omega)

def update (p : Nat) (f : α → α) (h : Heap α) : Heap α where
  next := h.next
  cell := fun q => if q = p then (h.cell p).map f else h.cell q
  fresh := fun q hq => by
    split
    · next he => rw [← he, h.fresh q hq]; rfl
    · exact h.fresh q hq

def free (p : Nat) (h : Heap α) : Heap α where
  next := h.next
  cell := fun q => if q = p then none else h.cell q
  fresh := fun q hq => by
    split
    · rfl
    · exact h.fresh q hq

variable (h : Heap α) (p q : Nat) (a : α) (f g : α → α)

theorem lt_next {h : Heap α} {p : Nat} {a : α} (ha : h.cell p = some a) : p < h.next := by
  rcases Nat.lt_or_ge p h.next with hp | hp
  · exact hp
  · rw [h.fresh p hp] at ha
    cases ha

@[simp] theorem alloc_next : (h.alloc a).next = h.next + 1 := rfl

@[simp] theorem update_next : (h.update p f).next = h.next := rfl

@[simp] theorem free_next : (h.free p).next = h.next := rfl

theorem update_cell : (h.update p f).cell q = if q = p then (h.cell p).map f else h.cell q := rfl

@[simp] theorem alloc_same : (h.alloc a).cell h.next = some a := if_pos rfl

@[simp] theorem update_same : (h.update p f).cell p = (h.cell p).map f := if_pos rfl

@[simp] theorem free_same : (h.free p).cell p = none := if_pos rfl

theorem alloc_other {q : Nat} (hq : q ≠ h.next) : (h.alloc a).cell q = h.cell q := if_neg hq

theorem update_other {p q : Nat} (hq : q ≠ p) : (h.update p f).cell q = h.cell q := if_neg hq

theorem free_other {p q : Nat} (hq : q ≠ p) : (h.free p).cell q = h.cell q := if_neg hq

theorem update_update : (h.update p g).update p f = h.update p (f ∘ g) := by
  ext1
  · rfl
  · funext q
    rcases eq_or_ne q p with rfl | hq
    · rw [update_same, update_same, update_same, Option.map_map]
    · rw [update_other _ _ hq, update_other _ _ hq, update_other _ _ hq]

theorem update_id : h.update p id = h := by
  ext1
  · rfl
  · funext q
    rw [update_cell]
    split
    · next he => rw [he, Option.map_id, id]
    · rfl

theorem update_congr {f g : α → α} (hfg : ∀ a, h.cell p = some a → f a = g a) :
    h.update p f = h.update p g := by
  ext1
  · rfl
  · funext q
    rw [update_cell, update_cell, Option.map_congr hfg]

end Heap

/-! ## Places of objects -/

/-- A place of the state where an object may live. -/
structure Obj (σ α : Type) where
  get : σ → Option α
  modify : (α → α) → σ → σ
  get_modify : ∀ f s, get (modify f s) = (get s).map f
  modify_modify : ∀ f g s, modify f (modify g s) = modify (f ∘ g) s
  modify_congr : ∀ {f g : α → α} {s}, (∀ a, get s = some a → f a = g a) → modify f s = modify g s
  modify_id : ∀ s, modify id s = s

namespace Obj

variable (o : Obj σ α) {s : σ} {a b : α} {f : α → α}

/-- The state with this object there, if an object lives there. -/
def set (a : α) (s : σ) : σ := o.modify (fun _ => a) s

theorem modify_eq_set (h : o.get s = some a) : o.modify f s = o.set (f a) s :=
  o.modify_congr fun b hb => by rw [h] at hb; cases hb; rfl

theorem get_set (h : o.get s = some b) : o.get (o.set a s) = some a := by
  rw [set, o.get_modify, h]
  rfl

theorem set_set : o.set a (o.set b s) = o.set a s := o.modify_modify _ _ _

theorem set_get (h : o.get s = some a) : o.set a s = s := by
  conv_rhs => rw [← o.modify_id s]
  exact o.modify_congr fun b hb => by rw [h] at hb; cases hb; rfl

/-- Writing one place does not show at the other. -/
def Apart (o : Obj σ α) (o' : Obj σ β) : Prop := ∀ f s, o'.get (o.modify f s) = o'.get s

/-- An object lives there. -/
def There (o : Obj σ α) (s : σ) : Prop := ∃ a, o.get s = some a

theorem Apart.set {o : Obj σ α} {o' : Obj σ β} (h : o.Apart o') (a : α) (s : σ) :
    o'.get (o.set a s) = o'.get s := h _ _

def read : Prog σ α := .act some fun s => match o.get s with
  | some a => .ret a
  | none => .stop .undefined

def update (f : α → α) : Prog σ Unit :=
  .act (fun s => some (o.modify f s)) fun s => match o.get s with
    | some _ => .ret ()
    | none => .stop .undefined

end Obj

/-! ## Objects behind pointers -/

/-- A place of the state that holds a heap. -/
structure Arena (σ α : Type) where
  heap : σ → Heap α
  modify : (Heap α → Heap α) → σ → σ
  heap_modify : ∀ f s, heap (modify f s) = f (heap s)
  modify_modify : ∀ f g s, modify f (modify g s) = modify (f ∘ g) s
  modify_congr : ∀ {f g : Heap α → Heap α} {s}, f (heap s) = g (heap s) → modify f s = modify g s
  modify_id : ∀ s, modify id s = s

namespace Arena

variable (A : Arena σ α)

/-- The object behind the pointer `p`. -/
def obj (p : Nat) : Obj σ α where
  get := fun s => (A.heap s).cell p
  modify := fun f => A.modify (Heap.update p f)
  get_modify := fun f s => by rw [A.heap_modify, Heap.update_same]
  modify_modify := fun f g s => by
    rw [A.modify_modify]
    exact A.modify_congr (Heap.update_update _ _ _ _)
  modify_congr := fun h => A.modify_congr (Heap.update_congr _ _ h)
  modify_id := fun s => by
    conv_rhs => rw [← A.modify_id s]
    exact A.modify_congr (Heap.update_id _ _)

def malloc (a : α) : Prog σ Nat :=
  .act (fun s => some (A.modify (Heap.alloc a) s)) fun s => .ret (A.heap s).next

def free (p : Nat) : Prog σ Unit :=
  .act (fun s => some (A.modify (Heap.free p) s)) fun s => match (A.heap s).cell p with
    | some _ => .ret ()
    | none => .stop .undefined

variable {A} {s : σ} {p q : Nat} {a b : α}

theorem get_obj (s : σ) (p : Nat) : (A.obj p).get s = (A.heap s).cell p := rfl

theorem get_set_other (hq : q ≠ p) (s : σ) :
    (A.obj q).get ((A.obj p).set a s) = (A.obj q).get s := by
  show (A.heap (A.modify _ s)).cell q = _
  rw [A.heap_modify, Heap.update_other _ _ hq]
  rfl

theorem malloc_run (a : α) (s : σ) :
    (A.malloc a).run s = .ok ((A.heap s).next, A.modify (Heap.alloc a) s) :=
  Prog.run_act (f := fun s => some (A.modify (Heap.alloc a) s)) rfl

theorem free_run (h : (A.obj p).get s = some a) :
    (A.free p).run s = .ok ((), A.modify (Heap.free p) s) := by
  rw [Arena.free, Prog.run_act (f := fun s => some (A.modify (Heap.free p) s)) rfl]
  rw [get_obj] at h
  simp only [h, Prog.run_ret]

theorem free_dead (h : (A.obj p).get s = none) : (A.free p).run s = .error .undefined := by
  rw [Arena.free, Prog.run_act (f := fun s => some (A.modify (Heap.free p) s)) rfl]
  rw [get_obj] at h
  simp only [h, Prog.run_stop]

end Arena

/-! ## Locks -/

/-- A counting semaphore in a field of an object. -/
structure Lock (α : Type) where
  value : α → Nat
  put : Nat → α → α
  value_put : ∀ n a, value (put n a) = n
  put_put : ∀ m n a, put m (put n a) = put m a
  put_value : ∀ a, put (value a) a = a

theorem Lock.put_same (l : Lock α) {a : α} {n : Nat} (h : l.value a = n) : l.put n a = a := by
  rw [← h, l.put_value]

theorem Lock.reopen (l : Lock α) {a : α} (h : l.value a = 1) :
    l.put (l.value (l.put 0 a) + 1) (l.put 0 a) = a := by
  rw [l.value_put, l.put_put, Nat.zero_add, ← h, l.put_value]

/-- `sem_wait`: blocked while the value is 0. -/
def P (o : Obj σ α) (l : Lock α) : Prog σ Unit :=
  .act (fun s => match o.get s with
      | some a =>
        if l.value a = 0 then none
        else some (o.modify (fun a => l.put (l.value a - 1) a) s)
      | none => some s)
    fun s => match o.get s with
      | some _ => .ret ()
      | none => .stop .undefined

/-- `sem_post`. -/
def V (o : Obj σ α) (l : Lock α) : Prog σ Unit := o.update fun a => l.put (l.value a + 1) a

section Run

variable {o : Obj σ α} {l : Lock α} {s : σ} {a : α} {f : α → α} {k : Unit → Prog σ β}

theorem read_run (h : o.get s = some a) : o.read.run s = .ok (a, s) := by
  rw [Obj.read, Prog.run_act rfl]
  simp only [h, Prog.run_ret]

theorem read_dead (h : o.get s = none) : o.read.run s = .error .undefined := by
  rw [Obj.read, Prog.run_act rfl]
  simp only [h, Prog.run_stop]

theorem update_run (h : o.get s = some a) : (o.update f).run s = .ok ((), o.set (f a) s) := by
  rw [Obj.update, Prog.run_act (f := fun s => some (o.modify f s)) rfl, o.modify_eq_set h]
  simp only [h, Prog.run_ret]

theorem P_run (h : o.get s = some a) (hl : l.value a ≠ 0) :
    (P o l).run s = .ok ((), o.set (l.put (l.value a - 1) a) s) := by
  rw [P, Prog.run_act (by simp only [h, if_neg hl]; rfl), o.modify_eq_set h]
  simp only [h, Prog.run_ret]

theorem P_busy (h : o.get s = some a) (hl : l.value a = 0) :
    (P o l).run s = .error .diverges := by
  rw [P, Prog.run_act_blocked (by simp only [h, if_pos hl])]

theorem P_dead (h : o.get s = none) : (P o l).run s = .error .undefined := by
  rw [P, Prog.run_act (t := s) (by simp only [h])]
  simp only [h, Prog.run_stop]

theorem V_run (h : o.get s = some a) :
    (V o l).run s = .ok ((), o.set (l.put (l.value a + 1) a) s) := update_run h

/-! The same with something left to do. -/

theorem read_then {k : α → Prog σ β} (h : o.get s = some a) :
    (o.read >>= k).run s = (k a).run s := Prog.run_bind_ok (read_run h)

theorem update_then (h : o.get s = some a) :
    (o.update f >>= k).run s = (k ()).run (o.set (f a) s) := Prog.run_bind_ok (update_run h)

/-- Entering the critical section of a free lock, and reading the object there. -/
theorem critical {k : α → Prog σ β} (h : o.get s = some a) (hl : l.value a = 1) :
    (P o l >>= fun _ => o.read >>= k).run s = (k (l.put 0 a)).run (o.set (l.put 0 a) s) := by
  rw [Prog.run_bind_ok (P_run h (by omega)), hl]
  exact read_then (o.get_set h)

theorem P_then (h : o.get s = some a) (hl : l.value a = 1) :
    (P o l >>= k).run s = (k ()).run (o.set (l.put 0 a) s) := by
  rw [Prog.run_bind_ok (P_run h (by omega)), hl]

theorem V_then (h : o.get s = some a) :
    (V o l >>= k).run s = (k ()).run (o.set (l.put (l.value a + 1) a) s) :=
  Prog.run_bind_ok (V_run h)

/-- What asks for a lock first needs the object of the lock. -/
theorem returns_iff_there (h : ∀ a, o.get s = some a → Exec.Returns (P o l >>= k).run s) :
    Exec.Returns (P o l >>= k).run s ↔ o.There s := by
  constructor
  · intro hr
    cases ha : o.get s with
    | none => exact absurd hr (Exec.Returns.not_of_error (Prog.run_bind_error (P_dead ha)))
    | some a => exact ⟨a, ha⟩
  · rintro ⟨a, ha⟩
    exact h a ha

/-! Inside a critical section the object is the one last set. -/

variable {b : α}

theorem set_read {k : α → Prog σ β} (h : o.get s = some a) :
    (o.read >>= k).run (o.set b s) = (k b).run (o.set b s) := read_then (o.get_set h)

theorem set_update (h : o.get s = some a) :
    (o.update f >>= k).run (o.set b s) = (k ()).run (o.set (f b) s) := by
  rw [update_then (o.get_set h), o.set_set]

theorem set_V (h : o.get s = some a) :
    (V o l >>= k).run (o.set b s) = (k ()).run (o.set (l.put (l.value b + 1) b) s) :=
  set_update h

end Run

/-! ## Reference counts -/

/-- A lock and a reference count in two fields of an object. -/
structure Counted (α : Type) where
  lock : Lock α
  count : α → Int
  put : Int → α → α
  count_put : ∀ n a, count (put n a) = n
  count_lock : ∀ n a, count (lock.put n a) = count a
  put_lock : ∀ m n a, put m (lock.put n a) = lock.put n (put m a)
  lock_put : ∀ n a, lock.value (put n a) = lock.value a

/-- One reference more. -/
def addRef (o : Obj σ α) (C : Counted α) : Prog σ Unit := do
  P o C.lock
  o.update fun a => C.put (C.count a + 1) a
  V o C.lock

/-- One reference less; the last one frees the object. -/
def dropRef (A : Arena σ α) (p : Nat) (C : Counted α) : Prog σ Unit := do
  P (A.obj p) C.lock
  (A.obj p).update fun a => C.put (C.count a - 1) a
  let a ← (A.obj p).read
  V (A.obj p) C.lock
  if C.count a = 0 then A.free p

namespace Counted

variable {o : Obj σ α} {A : Arena σ α} {p : Nat} {C : Counted α} {s : σ} {a : α}

theorem reopen (C : Counted α) {a : α} (n : Int) (h : C.lock.value a = 1) :
    C.lock.put (C.lock.value (C.put n (C.lock.put 0 a)) + 1) (C.put n (C.lock.put 0 a)) =
      C.put n a := by
  rw [C.lock_put, C.lock.value_put, C.put_lock, C.lock.put_put]
  exact C.lock.put_same ((C.lock_put n a).trans h)

theorem dropRef_run (h : (A.obj p).get s = some a)
    (hl : C.lock.value a = 1) :
    (dropRef A p C).run s = if C.count a = 1 then
        .ok ((), A.modify (Heap.free p) ((A.obj p).set (C.put 0 a) s))
      else .ok ((), (A.obj p).set (C.put (C.count a - 1) a) s) := by
  rw [dropRef, P_then h hl, set_update h, set_read h, set_V h, C.reopen _ hl,
    C.count_put, C.count_lock]
  split
  · next hc =>
    rw [if_pos (by omega), Arena.free_run ((A.obj p).get_set h)]
    rw [show C.count a - 1 = 0 by omega]
  · rw [if_neg (by omega)]
    rfl

theorem addRef_run (h : o.get s = some a) (hl : C.lock.value a = 1) :
    (addRef o C).run s = .ok ((), o.set (C.put (C.count a + 1) a) s) := by
  rw [addRef, P_then h hl, set_update h, V_run (o.get_set h), o.set_set, C.reopen _ hl,
    C.count_lock]

theorem addRef_returns (hl : ∀ a, o.get s = some a → C.lock.value a = 1) :
    Exec.Returns (addRef o C).run s ↔ o.There s :=
  returns_iff_there fun a ha => .of_eq (addRef_run ha (hl a ha))

theorem dropRef_returns (hl : ∀ a, (A.obj p).get s = some a → C.lock.value a = 1) :
    Exec.Returns (dropRef A p C).run s ↔ (A.obj p).There s :=
  returns_iff_there fun a ha => by
    have hrun := dropRef_run ha (hl a ha)
    split at hrun
    · exact .of_eq hrun
    · exact .of_eq hrun

theorem dropRef_dead (h : (A.obj p).get s = none) :
    (dropRef A p C).run s = .error .undefined :=
  Prog.run_bind_error (P_dead h)

end Counted

end Lib
