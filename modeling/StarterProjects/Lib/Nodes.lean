import Mathlib.Data.List.Nodup
import StarterProjects.Lib.Objects

/-!
# Nodes linked in a heap

A node holds something and the pointer to the next node. `Links h p l`: from `p` on, up to NULL, the
nodes are those of `l`, each with its pointer. The list decides about itself: there is one such `l`
at most, and it comes to no node twice.

Two loops over the nodes: `lastNode` goes to the last one, and `walk` goes on until a node answers.
-/

namespace Lib

variable {σ α β : Type}

structure Node (α : Type) where
  item : α
  next : Option Nat

def Links (h : Heap (Node α)) : Option Nat → List (Nat × α) → Prop
  | p, [] => p = none
  | p, (q, a) :: l => p = some q ∧ ∃ n, h.cell q = some ⟨a, n⟩ ∧ Links h n l

namespace Links

variable {h h' : Heap (Node α)} {p n : Option Nat} {l l' : List (Nat × α)} {q r : Nat} {a b : α}

theorem unique (hl : Links h p l) (hl' : Links h p l') : l = l' := by
  induction l generalizing p l' with
  | nil =>
    obtain rfl : p = none := hl
    match l', hl' with
    | [], _ => rfl
    | (_, _) :: _, ⟨hp, _⟩ => cases hp
  | cons x l ih =>
    obtain ⟨q, a⟩ := x
    obtain ⟨rfl, n, hcell, hrest⟩ := hl
    match l', hl' with
    | (r, b) :: l', ⟨hr, n', hcell', hrest'⟩ =>
      obtain rfl := Option.some.inj hr
      have hnode := Option.some.inj (hcell.symm.trans hcell')
      obtain ⟨rfl, rfl⟩ := Node.mk.inj hnode
      rw [ih hrest hrest']

/-- A list that goes on somewhere in the middle. -/
theorem suffix (hl : Links h p (l ++ (q, a) :: l')) : Links h (some q) ((q, a) :: l') := by
  induction l generalizing p with
  | nil =>
    obtain ⟨rfl, hrest⟩ := hl
    exact ⟨rfl, hrest⟩
  | cons x l ih =>
    obtain ⟨-, n, -, hrest⟩ := hl
    exact ih hrest

theorem nodup (hl : Links h p l) : (l.map Prod.fst).Nodup := by
  induction l generalizing p with
  | nil => exact List.nodup_nil
  | cons x l ih =>
    obtain ⟨q, a⟩ := x
    obtain ⟨rfl, n, hcell, hrest⟩ := hl
    refine List.nodup_cons.mpr ⟨fun hmem => ?_, ih hrest⟩
    obtain ⟨⟨r, b⟩, hx, rfl⟩ := List.mem_map.mp hmem
    obtain ⟨l₁, l₂, rfl⟩ := List.append_of_mem hx
    -- from the same pointer on, the list would be as long as its own end
    have hfrom : Links h (some r) ((r, a) :: (l₁ ++ (r, b) :: l₂)) := ⟨rfl, n, hcell, hrest⟩
    have hlen := congrArg List.length (unique (suffix hrest) hfrom)
    rw [List.length_cons, List.length_cons, List.length_append, List.length_cons] at hlen
    omega

/-- Only the cells of the list are read. -/
theorem congr (hl : Links h p l) (hc : ∀ x ∈ l, h'.cell x.1 = h.cell x.1) : Links h' p l := by
  induction l generalizing p with
  | nil => exact hl
  | cons x l ih =>
    obtain ⟨rfl, n, hcell, hrest⟩ := hl
    exact ⟨rfl, n, (hc x List.mem_cons_self).trans hcell,
      ih hrest fun y hy => hc y (List.mem_cons_of_mem _ hy)⟩

theorem cell_of_mem (hl : Links h p l) (hx : (q, a) ∈ l) : ∃ n, h.cell q = some ⟨a, n⟩ := by
  obtain ⟨l₁, l₂, rfl⟩ := List.append_of_mem hx
  obtain ⟨-, n, hcell, -⟩ := hl.suffix
  exact ⟨n, hcell⟩

/-- A new cell is none of the list. -/
theorem ne_next (hl : Links h p l) {x : Nat × α} (hx : x ∈ l) : x.1 ≠ h.next := by
  obtain ⟨n, hcell⟩ := hl.cell_of_mem hx
  exact Nat.ne_of_lt (Heap.lt_next hcell)

theorem alloc (hl : Links h p l) (node : Node α) : Links (h.alloc node) p l :=
  hl.congr fun _ hx => Heap.alloc_other _ _ (hl.ne_next hx)

/-- The first node is freed. -/
theorem free (hl : Links h p ((q, a) :: l)) :
    ∃ n, h.cell q = some ⟨a, n⟩ ∧ Links (h.free q) n l := by
  have hnodup := List.nodup_cons.mp hl.nodup
  obtain ⟨-, n, hcell, hrest⟩ := hl
  refine ⟨n, hcell, hrest.congr fun x hx => Heap.free_other _ fun he => hnodup.1 ?_⟩
  rw [← he]
  show x.1 ∈ l.map Prod.fst
  exact List.mem_map_of_mem hx

/-- The last node gets a next one. -/
theorem append (hl : Links h p (l ++ [(q, a)])) (hr : h.cell r = some ⟨b, none⟩)
    (hnew : r ∉ (l ++ [(q, a)]).map Prod.fst) :
    Links (h.update q fun n => { n with next := some r }) p (l ++ [(q, a), (r, b)]) := by
  induction l generalizing p with
  | nil =>
    obtain ⟨rfl, n, hcell, -⟩ := hl
    have hne : r ≠ q := fun he => hnew (by rw [he]; exact List.mem_cons_self)
    refine ⟨rfl, some r, ?_, rfl, none, ?_, rfl⟩
    · rw [Heap.update_same, hcell]
      rfl
    · rw [Heap.update_other _ _ hne]
      exact hr
  | cons x l ih =>
    have hnodup := (List.nodup_cons.mp hl.nodup).1
    obtain ⟨rfl, n, hcell, hrest⟩ := hl
    have hne : x.1 ≠ q := fun he => hnodup (by rw [he]; simp)
    refine ⟨rfl, n, ?_, ih hrest fun hmem => hnew (List.mem_cons_of_mem _ hmem)⟩
    rw [Heap.update_other _ _ hne]
    exact hcell

end Links

/-! ## Loops -/

/-- `while(p->next != NULL) p = p->next;` -/
def lastNode (A : Arena σ (Node α)) : Nat → Nat → Prog σ Nat
  | 0, _ => Prog.stop .diverges
  | fuel + 1, p => do
    let node ← (A.obj p).read
    match node.next with
    | none => return p
    | some q => lastNode A fuel q

/-- `while(p != NULL) { body(p->item); p = p->next; }`, where `body` may leave the loop. -/
def walk (A : Arena σ (Node α)) (body : α → Prog σ (Option β)) :
    Nat → Option Nat → Prog σ (Option β)
  | 0, _ => Prog.stop .diverges
  | _ + 1, none => return none
  | fuel + 1, some p => do
    let node ← (A.obj p).read
    match ← body node.item with
    | some b => return some b
    | none =>
      let node ← (A.obj p).read
      walk A body fuel node.next

section Loops

variable {A : Arena σ (Node α)} {s : σ} {p : Option Nat} {l : List (Nat × α)} {q r : Nat} {a : α}

theorem lastNode_run {fuel : Nat} (hl : Links (A.heap s) (some q) (l ++ [(r, a)]))
    (hfuel : l.length < fuel) : (lastNode A fuel q).run s = .ok (r, s) := by
  induction fuel generalizing q l with
  | zero => omega
  | succ fuel ih =>
    cases l with
    | nil =>
      obtain ⟨hq, n, hcell, rfl⟩ := hl
      obtain rfl := Option.some.inj hq
      rw [lastNode, read_then (show (A.obj q).get s = some ⟨a, none⟩ from hcell)]
      rfl
    | cons x l =>
      obtain ⟨hq, n, hcell, hrest⟩ := hl
      obtain rfl := Option.some.inj hq
      obtain ⟨q', rfl⟩ : ∃ q', n = some q' := by
        cases l with
        | nil => exact ⟨_, hrest.1⟩
        | cons y l => exact ⟨_, hrest.1⟩
      rw [lastNode, read_then (show (A.obj x.1).get s = some ⟨x.2, some q'⟩ from hcell)]
      exact ih hrest (by rw [List.length_cons] at hfuel; omega)

/-- A body that leaves the nodes alone is run for their contents, in order. It may rely on `I` of
the nodes that are still to come. -/
theorem walk_run {body : α → Prog σ (Option β)} {I : List (Nat × α) → σ → Prop} {fuel : Nat}
    (hbody : ∀ x l' s s', x :: l' <:+ l → I (x :: l') s → (body x.2).run s = .ok (none, s') →
      I l' s' ∧ A.heap s' = A.heap s) (hs : I l s) (hl : Links (A.heap s) p l)
    (hfuel : l.length < fuel) :
    (walk A body fuel p).run s = Exec.firstSome (fun x => (body x.2).run) l s := by
  induction fuel generalizing s p l with
  | zero => omega
  | succ fuel ih =>
    cases l with
    | nil =>
      obtain rfl : p = none := hl
      rfl
    | cons x l =>
      obtain ⟨rfl, n, hcell, hrest⟩ := hl
      rw [walk, read_then (show (A.obj x.1).get s = some ⟨x.2, n⟩ from hcell), Exec.firstSome]
      cases hrun : (body x.2).run s with
      | error e => rw [Prog.run_bind_error hrun, Exec.bind_error hrun]
      | ok t =>
        obtain ⟨b, s'⟩ := t
        rw [Prog.run_bind_ok hrun, Exec.bind_ok hrun]
        cases b with
        | some b => rfl
        | none =>
          obtain ⟨hs', hheap⟩ := hbody x l _ _ (List.suffix_refl _) hs hrun
          have hcell' : (A.obj x.1).get s' = some ⟨x.2, n⟩ := by
            rw [Arena.get_obj, hheap]
            exact hcell
          show ((A.obj x.1).read >>= fun node => walk A body fuel node.next).run s' = _
          rw [read_then hcell']
          exact ih (fun y l' t t' hsuf => hbody y l' t t' (hsuf.trans (List.suffix_cons x l))) hs'
            (hheap ▸ hrest) (by rw [List.length_cons] at hfuel; omega)

end Loops

end Lib
