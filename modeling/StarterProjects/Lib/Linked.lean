import Mathlib.Data.List.Nodup

/-!
# Linked lists threaded through two pointer fields

`Path closed nxt prv a l z`: following `nxt` from `a` visits the nodes of `l` in
order and then reaches `z`, and `prv` of each visited node is the node before
it. When `closed` holds, `prv z` is the last node as well. A circular list with
sentinel `h` is a path from `h` to `h`.

`Chain nxt stop a l`: following `nxt` from `a` visits `l` and ends at `stop`,
as in a singly linked list that ends in a null pointer.
-/

namespace Lib

variable {α : Type*}

def Path (closed : Bool) (nxt prv : α → α) : α → List α → α → Prop
  | a, [], z => nxt a = z ∧ (closed = true → prv z = a)
  | a, b :: l, z => nxt a = b ∧ prv b = a ∧ Path closed nxt prv b l z

def Chain (nxt : α → α) (stop : α) : α → List α → Prop
  | a, [] => a = stop
  | a, b :: l => a = b ∧ b ≠ stop ∧ Chain nxt stop (nxt b) l

namespace Path

variable {c c' : Bool} {nxt prv nxt' prv' : α → α} {a b z : α} {l : List α}

/-- A path only reads `nxt` of its nodes and `prv` of the nodes it reaches. -/
theorem congr (h : Path c nxt prv a l z) (hn : ∀ x ∈ a :: l, nxt' x = nxt x)
    (hp : ∀ x ∈ l, prv' x = prv x) (hz : c = true → prv' z = prv z) :
    Path c nxt' prv' a l z := by
  induction l generalizing a with
  | nil => exact ⟨(hn a List.mem_cons_self).trans h.1, fun hc => (hz hc).trans (h.2 hc)⟩
  | cons b l ih =>
    obtain ⟨h1, h2, h3⟩ := h
    refine ⟨(hn a List.mem_cons_self).trans h1, (hp b List.mem_cons_self).trans h2, ?_⟩
    exact ih h3 (fun x hx => hn x (List.mem_cons_of_mem _ hx))
      (fun x hx => hp x (List.mem_cons_of_mem _ hx))

theorem open_of (h : Path c nxt prv a l z) : Path false nxt prv a l z := by
  induction l generalizing a with
  | nil => exact ⟨h.1, fun hc => nomatch hc⟩
  | cons b l ih => exact ⟨h.1, h.2.1, ih h.2.2⟩

/-- The node after a member is a member, or the end of the path. -/
theorem nxt_mem (h : Path c nxt prv a l z) (hb : b ∈ a :: l) : nxt b ∈ l ∨ nxt b = z := by
  induction l generalizing a with
  | nil =>
    rw [List.mem_singleton] at hb
    exact .inr (hb ▸ h.1)
  | cons d l ih =>
    rcases List.mem_cons.mp hb with rfl | hb
    · exact .inl (by rw [h.1]; exact List.mem_cons_self)
    · exact (ih h.2.2 hb).imp (List.mem_cons_of_mem _) id

/-- The node before a member is the start of the path, or a member. -/
theorem prv_mem (h : Path c nxt prv a l z) (hb : b ∈ l) : prv b ∈ a :: l := by
  induction l generalizing a with
  | nil => cases hb
  | cons d l ih =>
    rcases List.mem_cons.mp hb with rfl | hb
    · rw [h.2.1]
      exact List.mem_cons_self
    · exact List.mem_cons_of_mem _ (ih h.2.2 hb)

/-- No node of a path is linked to itself. -/
theorem nxt_ne (h : Path c nxt prv a l z) (hl : (a :: l).Nodup) (hz : z ∉ l) (hb : b ∈ l) :
    nxt b ≠ b := by
  induction l generalizing a with
  | nil => cases hb
  | cons d l ih =>
    have hla := List.nodup_cons.mp hl
    rcases List.mem_cons.mp hb with rfl | hb
    · intro he
      rcases h.2.2.nxt_mem List.mem_cons_self with hm | hm
      · exact (List.nodup_cons.mp hla.2).1 (he ▸ hm)
      · exact hz (by rw [← hm, he]; exact List.mem_cons_self)
    · exact ih h.2.2 hla.2 (fun hm => hz (List.mem_cons_of_mem _ hm)) hb

/-- Insertion of `b` right after the start. The list becomes closed when it was
empty, for then the end is the node whose `prv` is written. -/
theorem push (h : Path c nxt prv a l z) (ha : a ∉ l) (hb : b ∉ a :: l) (hl : l.Nodup)
    (hz : z ∉ l)
    (hna : nxt' a = b) (hnb : nxt' b = nxt a) (hn : ∀ x ∈ l, nxt' x = nxt x)
    (hpb : prv' b = a) (hpn : prv' (nxt a) = b)
    (hp : ∀ x, x = z ∨ x ∈ l → x ≠ nxt a → prv' x = prv x) :
    Path (c || l.isEmpty) nxt' prv' a (b :: l) z := by
  refine ⟨hna, hpb, ?_⟩
  cases l with
  | nil =>
    refine ⟨hnb.trans h.1, fun _ => ?_⟩
    rw [← h.1]
    exact hpn
  | cons d l =>
    obtain ⟨h1, h2, h3⟩ := h
    have hdl : d ∉ l := (List.nodup_cons.mp hl).1
    rw [h1] at hnb hpn hp
    simp only [List.isEmpty_cons, Bool.or_false]
    refine ⟨hnb, hpn, h3.congr hn (fun x hx => ?_) fun _ => ?_⟩
    · exact hp x (.inr (List.mem_cons_of_mem _ hx)) fun e => hdl (e ▸ hx)
    · exact hp z (.inl rfl) fun e => hz (e ▸ List.mem_cons_self)

/-- Removal of a member `b`: its neighbours are linked to each other. The list
becomes closed when `b` was its last node. -/
theorem erase [DecidableEq α] (h : Path c nxt prv a l z) (hb : b ∈ l) (hl : (a :: l).Nodup)
    (hz : z ∉ l)
    (hnp : nxt' (prv b) = nxt b) (hn : ∀ x ∈ a :: l, x ≠ prv b → x ≠ b → nxt' x = nxt x)
    (hpn : prv' (nxt b) = prv b)
    (hp : ∀ x, x = z ∨ x ∈ l → x ≠ nxt b → x ≠ b → prv' x = prv x) :
    Path (c || decide (l.getLast? = some b)) nxt' prv' a (l.erase b) z := by
  induction l generalizing a with
  | nil => cases hb
  | cons d l ih =>
    obtain ⟨h1, h2, h3⟩ := h
    have hla := List.nodup_cons.mp hl
    have hld := List.nodup_cons.mp hla.2
    -- the node that goes is the next one, or one further on
    by_cases hdb : d = b
    · subst hdb
      rw [List.erase_cons_head]
      rw [h2] at hnp hn hpn
      cases l with
      | nil =>
        refine ⟨hnp.trans h3.1, fun _ => ?_⟩
        rw [← h3.1]
        exact hpn
      | cons w l =>
        obtain ⟨h4, h5, h6⟩ := h3
        rw [h4] at hnp hpn hp
        have hwl := List.nodup_cons.mp hld.2
        have hwz : z ≠ w := fun hzw => hz (by simp [hzw])
        have hlast : ((d :: w :: l).getLast? = some d) = False := by
          rw [List.getLast?_cons_cons]
          exact eq_false fun hl => hld.1 (List.mem_of_getLast? hl)
        simp only [hlast, decide_false, Bool.or_false]
        refine ⟨hnp, hpn, h6.congr (fun x hx => ?_) (fun x hx => ?_) fun _ => ?_⟩
        · have hxa : x ≠ a := fun hxa => hla.1 (hxa ▸ List.mem_cons_of_mem _ hx)
          have hxd : x ≠ d := fun hxd => hld.1 (hxd ▸ hx)
          exact hn x (List.mem_cons_of_mem _ (List.mem_cons_of_mem _ hx)) hxa hxd
        · have hxw : x ≠ w := fun hxw => hwl.1 (hxw ▸ hx)
          have hxd : x ≠ d := fun hxd => hld.1 (hxd ▸ List.mem_cons_of_mem _ hx)
          exact hp x (.inr (List.mem_cons_of_mem _ (List.mem_cons_of_mem _ hx))) hxw hxd
        · exact hp z (.inl rfl) hwz fun hzd => hz (by simp [hzd])
    · have hbl : b ∈ l := (List.mem_cons.mp hb).resolve_left fun hbd => hdb hbd.symm
      rw [List.erase_cons_tail (by simpa using hdb)]
      have hab : a ≠ b := fun hab => hla.1 (hab ▸ hb)
      have hpa : a ≠ prv b := by
        intro hap
        exact hla.1 (hap ▸ h3.prv_mem hbl)
      have hdn : d ≠ nxt b := by
        intro hdn
        rcases h3.nxt_mem (List.mem_cons_of_mem _ hbl) with hm | hm
        · exact hld.1 (hdn ▸ hm)
        · exact hz (by rw [← hm, ← hdn]; exact List.mem_cons_self)
      have hlast : (d :: l).getLast? = l.getLast? := by
        cases l with
        | nil => cases hbl
        | cons w l => exact List.getLast?_cons_cons
      rw [hlast]
      refine ⟨(hn a List.mem_cons_self hpa hab).trans h1,
        (hp d (.inr List.mem_cons_self) hdn hdb).trans h2, ?_⟩
      refine ih h3 hbl hla.2 (fun hm => hz (List.mem_cons_of_mem _ hm)) ?_ ?_
      · exact fun x hx => hn x (List.mem_cons_of_mem _ hx)
      · exact fun x hx => hp x (hx.imp id (List.mem_cons_of_mem _))

end Path

theorem Chain.congr {nxt nxt' : α → α} {stop a : α} {l : List α} (h : Chain nxt stop a l)
    (hn : ∀ x ∈ l, nxt' x = nxt x) : Chain nxt' stop a l := by
  induction l generalizing a with
  | nil => exact h
  | cons b l ih =>
    obtain ⟨h1, h2, h3⟩ := h
    refine ⟨h1, h2, ?_⟩
    rw [hn b List.mem_cons_self]
    exact ih h3 fun x hx => hn x (List.mem_cons_of_mem _ hx)

end Lib
