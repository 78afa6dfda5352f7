import StarterProjects.Lib.Linked
import StarterProjects.Sfmm.Pool

/-!
# When memory represents a pool

`Represents e W m₀ s g`: the state `s` of the program stands for the pool `g`.
Headers, known words, the ten rings and the ten chains are in memory as `g` says.
`W` is a set of words that are watched, such as payloads: they still have the
value they have in `m₀`, unless `g.touched` lists them.

The lemmas say what one store, one insertion and one removal do to the pool.
-/

namespace StarterProjects.Sfmm

open Lib Lib.Exec

def State.nxt (s : State) (b : Nat) : Nat := s.mem (nextOf b)
def State.prv (s : State) (b : Nat) : Nat := s.mem (prevOf b)

/-- A word that no header, no free block and no link of a quick list occupies. -/
structure Still (e : Env) (g : Pool) (x : Nat) : Prop where
  aligned : x % 8 = 0
  start : e.sf_mem_start ≤ x
  bound : x + 16 ≤ g.memEnd
  not_header : ∀ {a h}, g.hdr a = some h → x ≠ headerOf a
  not_free : ∀ {a h}, g.hdr a = some h → h.alloc = false → x ≤ a ∨ a + h.size < x
  not_quick : ∀ {i a}, i < 10 → a ∈ g.quick i → x ≠ nextOf a

structure Represents (e : Env) (W : Nat → Prop) (m₀ : Nat → Nat) (s : State) (g : Pool) :
    Prop where
  shape : g.Shape e
  memEnd : s.sf_mem_end = g.memEnd
  globalEnd : s.globalEnd = g.globalEnd
  errno : s.sf_errno = g.errno
  growCalls : s.growCalls = g.growCalls
  header : ∀ {a h}, g.hdr a = some h → s.mem (headerOf a) = h.word ^^^ e.magic
  known : ∀ {c w}, g.known c = some w → s.mem c = w ^^^ e.magic
  ring : ∀ i < 10, Path (g.closed i) s.nxt s.prv (e.head i) (g.free i) (e.head i)
  chain : ∀ i < 10, g.busy ≠ some i →
    Chain s.nxt NULL (s.sf_quick_lists i).first (g.quick i) ∧
      (s.sf_quick_lists i).length = (g.quick i).length
  watch : ∀ {x}, W x → Still e g x
  kept : ∀ {x}, W x → x ∉ g.touched → s.mem x = m₀ x

/-! ## Nodes and the words they own -/

/-- Sentinels and blocks: whatever has links. -/
def Node (e : Env) (g : Pool) (y : Nat) : Prop :=
  (∃ i < 10, y = e.head i) ∨ ∃ h, g.hdr y = some h

/-- A word of the heap that is neither a header nor a link. -/
structure Quiet (g : Pool) (x : Nat) : Prop where
  aligned : x % 8 = 0
  not_header : ∀ {a h}, g.hdr a = some h → x ≠ headerOf a
  not_next : ∀ {a h}, g.hdr a = some h → x ≠ nextOf a
  not_prev : ∀ {a h}, g.hdr a = some h → x ≠ prevOf a

section Nodes

variable {e : Env} {g : Pool} (S : g.Shape e)

include S

theorem node_apart {y z : Nat} (hy : Node e g y) (hz : Node e g z) :
    y = z ∨ y + 32 ≤ z ∨ z + 32 ≤ y := by
  rcases hy with ⟨i, hi, rfl⟩ | ⟨h, hh⟩ <;> rcases hz with ⟨j, hj, rfl⟩ | ⟨k, hk⟩
  · unfold Env.head
    omega
  · have h1 := S.head_apart hk hi
    have h2 := S.inside hk
    omega
  · have h1 := S.head_apart hh hj
    have h2 := S.inside hh
    omega
  · have h1 := S.cases_apart hh hk
    have h2 := S.inside hh
    have h3 := S.inside hk
    omega

theorem node_next_ne_prev {y z : Nat} (hy : Node e g y) (hz : Node e g z) :
    nextOf y ≠ prevOf z := by
  have h := node_apart S hy hz
  unfold nextOf prevOf
  omega

theorem node_free {i b : Nat} (hi : i < 10) (hb : b ∈ g.free i) : Node e g b := by
  obtain ⟨h, hh, _⟩ := S.free_mem hi hb
  exact .inr ⟨h, hh⟩

theorem node_quick {i b : Nat} (hi : i < 10) (hb : b ∈ g.quick i) : Node e g b := by
  obtain ⟨h, hh, _⟩ := S.quick_mem hi hb
  exact .inr ⟨h, hh⟩

theorem node_path {i b : Nat} (hi : i < 10) (hb : b ∈ e.head i :: g.free i) : Node e g b := by
  rcases List.mem_cons.mp hb with rfl | hb
  · exact .inl ⟨i, hi, rfl⟩
  · exact node_free S hi hb

theorem node_pos {y : Nat} (hy : Node e g y) : y ≠ NULL := by
  rcases hy with ⟨i, _, rfl⟩ | ⟨h, hh⟩
  · have := e.heads_pos
    unfold Env.head NULL
    omega
  · have := (S.inside hh).1
    have := e.start_pos
    unfold NULL
    omega

theorem head_not_mem {i j : Nat} (hi : i < 10) (hj : j < 10) : e.head i ∉ g.free j := by
  intro hm
  obtain ⟨h, hh, _⟩ := S.free_mem hj hm
  have h1 := S.head_apart hh hi
  have h2 := S.inside hh
  omega

/-- The ends of blocks are quiet. -/
theorem quiet_end {a : Nat} {h : Hdr} (ha : g.hdr a = some h) : Quiet g (a + h.size) := by
  have h1 := S.inside ha
  refine ⟨by omega, ?_, ?_, ?_⟩ <;> intro b k hb <;> have h2 := S.inside hb
  · unfold headerOf; omega
  · have h3 := S.cases_apart ha hb
    unfold nextOf; omega
  · unfold prevOf; omega

/-- The starts of blocks are quiet. -/
theorem quiet_start {a : Nat} {h : Hdr} (ha : g.hdr a = some h) : Quiet g a := by
  have h1 := S.inside ha
  refine ⟨by omega, ?_, ?_, ?_⟩ <;> intro b k hb <;> have h2 := S.inside hb
  · unfold headerOf; omega
  · have h3 := S.cases_apart ha hb
    unfold nextOf; omega
  · unfold prevOf; omega

/-- Behind its links the inside of a block is quiet. -/
theorem quiet_inside {a x : Nat} {h : Hdr} (ha : g.hdr a = some h) (hx : x % 8 = 0)
    (h1 : a + 32 ≤ x) (h2 : x < a + h.size) : Quiet g x := by
  have h3 := S.inside ha
  refine ⟨hx, ?_, ?_, ?_⟩ <;> intro b k hb <;> have h4 := S.inside hb <;>
    have h5 := S.cases_apart ha hb
  · unfold headerOf; omega
  · unfold nextOf; omega
  · unfold prevOf; omega

/-- The header word of a block is no link of any node. -/
theorem header_ne_link {a y : Nat} {h : Hdr} (ha : g.hdr a = some h) (hy : Node e g y) :
    nextOf y ≠ headerOf a ∧ prevOf y ≠ headerOf a := by
  have h1 := node_apart S hy (.inr ⟨h, ha⟩)
  have h2 := S.inside ha
  unfold nextOf prevOf headerOf
  rcases hy with ⟨i, hi, rfl⟩ | ⟨k, hk⟩
  · have h3 := S.head_apart ha hi
    omega
  · have h3 := S.inside hk
    have h4 := S.cases_apart hk ha
    omega

/-- A quiet word of the heap is no link of any node. -/
theorem Quiet.not_link {x : Nat} (hq : Quiet g x) (hlo : e.sf_mem_start ≤ x)
    (hhi : x + 8 ≤ g.memEnd) (y : Nat) (hy : Node e g y) : nextOf y ≠ x ∧ prevOf y ≠ x := by
  rcases hy with ⟨j, hj, rfl⟩ | ⟨h, hy⟩
  · have h1 := S.limit
    unfold nextOf prevOf Env.head
    rcases e.heads_apart with h2 | h2 <;> omega
  · exact ⟨(hq.not_next hy).symm, (hq.not_prev hy).symm⟩

end Nodes

/-! ## Links after a store to a link -/

section Links

variable {e : Env} {g : Pool} {s : State} {y z v : Nat}

theorem nxt_put_next : (s.put (nextOf z) v).nxt y = if y = z then v else s.nxt y := by
  unfold State.nxt
  rw [State.put_mem]
  unfold nextOf
  simp only [Nat.add_right_cancel_iff]

theorem prv_put_prev : (s.put (prevOf z) v).prv y = if y = z then v else s.prv y := by
  unfold State.prv
  rw [State.put_mem]
  unfold prevOf
  simp only [Nat.add_right_cancel_iff]

variable (S : g.Shape e)

include S

theorem nxt_put_prev (hy : Node e g y) (hz : Node e g z) :
    (s.put (prevOf z) v).nxt y = s.nxt y := by
  unfold State.nxt
  rw [State.put_mem, if_neg (node_next_ne_prev S hy hz)]

theorem prv_put_next (hy : Node e g y) (hz : Node e g z) :
    (s.put (nextOf z) v).prv y = s.prv y := by
  unfold State.prv
  rw [State.put_mem, if_neg (node_next_ne_prev S hz hy).symm]

end Links

namespace Represents

variable {e : Env} {W : Nat → Prop} {m₀ : Nat → Nat} {s : State} {g : Pool}
  (R : Represents e W m₀ s g)

include R

/-! ## Reading -/

theorem mapped_heap {x : Nat} (hx : x % 8 = 0) (h1 : e.sf_mem_start ≤ x)
    (h2 : x + 8 ≤ g.memEnd) : mapped e s x :=
  ⟨hx, .inl ⟨h1, by rw [R.memEnd]; exact h2⟩⟩

theorem mapped_header {a : Nat} {h : Hdr} (ha : g.hdr a = some h) : mapped e s (headerOf a) := by
  have h1 := R.shape.inside ha
  unfold headerOf
  exact R.mapped_heap (by omega) (by omega) (by omega)

theorem mapped_end {a : Nat} {h : Hdr} (ha : g.hdr a = some h) : mapped e s (a + h.size) := by
  have h1 := R.shape.inside ha
  exact R.mapped_heap (by omega) (by omega) (by omega)

theorem mapped_start {a : Nat} {h : Hdr} (ha : g.hdr a = some h) :
    mapped e s (prevFooterOf a) := by
  have h1 := R.shape.inside ha
  exact R.mapped_heap (x := a) (by omega) (by omega) (by omega)

theorem mapped_next {y : Nat} (hy : Node e g y) : mapped e s (nextOf y) := by
  rcases hy with ⟨i, hi, rfl⟩ | ⟨h, hh⟩
  · have := e.heads_aligned
    refine ⟨?_, .inr ?_⟩ <;> unfold nextOf Env.head <;> omega
  · have h1 := R.shape.inside hh
    unfold nextOf
    exact R.mapped_heap (by omega) (by omega) (by omega)

theorem mapped_prev {y : Nat} (hy : Node e g y) : mapped e s (prevOf y) := by
  rcases hy with ⟨i, hi, rfl⟩ | ⟨h, hh⟩
  · have := e.heads_aligned
    refine ⟨?_, .inr ?_⟩ <;> unfold prevOf Env.head <;> omega
  · have h1 := R.shape.inside hh
    unfold prevOf
    exact R.mapped_heap (by omega) (by omega) (by omega)

theorem load_header {a : Nat} {h : Hdr} (ha : g.hdr a = some h) :
    load e (headerOf a) s = .ok (h.word ^^^ e.magic, s) := by
  rw [load_ok (R.mapped_header ha), R.header ha]

theorem load_next {y : Nat} (hy : Node e g y) : load e (nextOf y) s = .ok (s.nxt y, s) :=
  load_ok (R.mapped_next hy)

theorem load_prev {y : Nat} (hy : Node e g y) : load e (prevOf y) s = .ok (s.prv y, s) :=
  load_ok (R.mapped_prev hy)

/-! ## One store -/

/-- A store at a quiet word: what was known of the word is lost. -/
theorem store_spoil {x v : Nat} (hq : Quiet g x) (hlo : e.sf_mem_start ≤ x)
    (hhi : x + 8 ≤ g.memEnd) : Represents e W m₀ (s.put x v) (g.spoil x) where
  shape := R.shape.spoil x
  memEnd := R.memEnd
  globalEnd := R.globalEnd
  errno := R.errno
  growCalls := R.growCalls
  header := by
    intro a h ha
    rw [State.put_mem, if_neg (hq.not_header ha).symm]
    exact R.header ha
  known := by
    intro c w hc
    simp only [Pool.spoil_known] at hc
    split at hc
    · cases hc
    · rename_i hne
      rw [State.put_mem, if_neg hne]
      exact R.known hc
  ring := by
    intro i hi
    have hn := hq.not_link R.shape hlo hhi
    refine (R.ring i hi).congr (fun y hy => if_neg ?_) (fun y hy => if_neg ?_) fun _ => if_neg ?_
    · exact (hn y (node_path R.shape hi hy)).1
    · exact (hn y (node_free R.shape hi hy)).2
    · exact (hn _ (.inl ⟨i, hi, rfl⟩)).2
  chain := by
    intro i hi hb
    obtain ⟨h1, h2⟩ := R.chain i hi hb
    refine ⟨h1.congr fun y hy => if_neg ?_, h2⟩
    obtain ⟨h, hy, _⟩ := R.shape.quick_mem hi hy
    exact (hq.not_next hy).symm
  watch := fun hx => { R.watch hx with }
  kept := by
    intro y hy ht
    simp only [Pool.spoil_touched, List.mem_cons, not_or] at ht
    rw [State.put_mem, if_neg ht.1]
    exact R.kept hy ht.2

/-- A store at a quiet word of a free block, with a value that is remembered. -/
theorem store_note {x w : Nat} (hq : Quiet g x) (hlo : e.sf_mem_start ≤ x)
    (hhi : x + 8 ≤ g.memEnd)
    (hx : ∃ a h, g.hdr a = some h ∧ h.alloc = false ∧ a + 32 ≤ x ∧ x ≤ a + h.size) :
    Represents e W m₀ (s.put x (w ^^^ e.magic)) (g.note x w) :=
  have R' := R.store_spoil (v := w ^^^ e.magic) hq hlo hhi
  { R' with
    shape := R.shape.note hx
    watch := fun hx => { R.watch hx with }
    known := by
      intro c u hc
      simp only [Pool.note_known] at hc
      split at hc
      · rename_i he
        cases hc
        rw [he]
        exact if_pos rfl
      · rename_i hne
        rw [State.put_mem, if_neg hne]
        exact R.known hc }

/-- A store of the header word of `a`. The pool `g'` may differ from `g` in the
blocks it has and in what it knows, as long as it knows less. -/
theorem store_header {a : Nat} {h : Hdr} {g' : Pool} (S : g'.Shape e) (ha : g'.hdr a = some h)
    (hhdr : ∀ x k, x ≠ a → g'.hdr x = some k → g.hdr x = some k)
    (hwatch : ∀ x, W x → Still e g' x)
    (hknown : ∀ c w, g'.known c = some w → g.known c = some w)
    (hg : g' = { g with hdr := g'.hdr, known := g'.known }) :
    Represents e W m₀ (s.put (headerOf a) (h.word ^^^ e.magic)) g' := by
  have hb := S.inside ha
  have hlim := S.limit
  have hn : ∀ y, Node e g' y → nextOf y ≠ headerOf a ∧ prevOf y ≠ headerOf a := fun y hy =>
    header_ne_link S ha hy
  have hfree : g'.free = g.free := by rw [hg]
  have hquick : g'.quick = g.quick := by rw [hg]
  exact
  { shape := S
    memEnd := by rw [hg]; exact R.memEnd
    globalEnd := by rw [hg]; exact R.globalEnd
    errno := by rw [hg]; exact R.errno
    growCalls := by rw [hg]; exact R.growCalls
    header := by
      intro x k hx
      rw [State.put_mem]
      by_cases hxa : x = a
      · subst hxa
        rw [ha] at hx
        cases hx
        exact if_pos rfl
      · rw [if_neg (by unfold headerOf; omega)]
        exact R.header (hhdr x k hxa hx)
    known := by
      intro c w hc
      obtain ⟨y, k, hy, hal, h1, h2⟩ := S.known_mem hc
      have h3 := S.cases_apart hy ha
      have h4 := S.inside hy
      rw [State.put_mem, if_neg (by unfold headerOf; omega)]
      exact R.known (hknown c w hc)
    ring := by
      intro i hi
      have hp : Path (g'.closed i) s.nxt s.prv (e.head i) (g'.free i) (e.head i) := by
        rw [hg]
        exact R.ring i hi
      refine hp.congr (fun y hy => if_neg ?_) (fun y hy => if_neg ?_) fun _ => if_neg ?_
      · exact (hn y (node_path S hi hy)).1
      · exact (hn y (node_free S hi hy)).2
      · exact (hn _ (.inl ⟨i, hi, rfl⟩)).2
    chain := by
      intro i hi hbusy
      rw [hg] at hbusy
      obtain ⟨h1, h2⟩ := R.chain i hi hbusy
      rw [hquick]
      refine ⟨h1.congr fun y hy => if_neg ?_, h2⟩
      exact (hn y (node_quick S hi (hquick ▸ hy))).1
    watch := hwatch _
    kept := by
      intro x hx ht
      rw [hg] at ht
      rw [State.put_mem, if_neg ((hwatch x hx).not_header ha)]
      exact R.kept hx ht }

/-! ## Relinking free lists -/

/-- Sentinels and free blocks: what a free list may hold. -/
def FreeNode (e : Env) (g : Pool) (y : Nat) : Prop :=
  (∃ i < 10, y = e.head i) ∨ ∃ h, g.hdr y = some h ∧ h.alloc = false

omit R in
theorem FreeNode.node {y : Nat} (hy : FreeNode e g y) : Node e g y :=
  hy.imp id fun ⟨h, hh, _⟩ => ⟨h, hh⟩

theorem freeNode_path {i b : Nat} (hi : i < 10) (hb : b ∈ e.head i :: g.free i) :
    FreeNode e g b := by
  rcases List.mem_cons.mp hb with rfl | hb
  · exact .inl ⟨i, hi, rfl⟩
  · obtain ⟨h, hh, hal, _⟩ := R.shape.free_mem hi hb
    exact .inr ⟨h, hh, hal⟩

/-- Memory that differs from `s` in links of free nodes only, and in which the
rings are those of `g'`, represents `g'`. -/
theorem relink {s' : State} {g' : Pool} (S : g'.Shape e)
    (hg : g' = { g with free := g'.free, closed := g'.closed })
    (hs : s' = { s with mem := s'.mem })
    (hmem : ∀ x, (∀ y, FreeNode e g y → x ≠ nextOf y ∧ x ≠ prevOf y) → s'.mem x = s.mem x)
    (hring : ∀ i < 10, Path (g'.closed i) s'.nxt s'.prv (e.head i) (g'.free i) (e.head i)) :
    Represents e W m₀ s' g' := by
  have hhdr : g'.hdr = g.hdr := by rw [hg]
  have hquick : g'.quick = g.quick := by rw [hg]
  -- a word of the heap that no free node owns is unchanged
  have hkeep : ∀ x, e.sf_mem_start ≤ x → x + 8 ≤ g.memEnd →
      (∀ y h, g.hdr y = some h → h.alloc = false → x ≠ nextOf y ∧ x ≠ prevOf y) →
      s'.mem x = s.mem x := by
    intro x h1 h2 h3
    refine hmem x fun y hy => ?_
    rcases hy with ⟨i, hi, rfl⟩ | ⟨h, hh, hal⟩
    · have h4 := R.shape.limit
      unfold nextOf prevOf Env.head
      rcases e.heads_apart with h5 | h5 <;> omega
    · exact h3 y h hh hal
  exact
  { shape := S
    memEnd := by rw [hs, hg]; exact R.memEnd
    globalEnd := by rw [hs, hg]; exact R.globalEnd
    errno := by rw [hs, hg]; exact R.errno
    growCalls := by rw [hs, hg]; exact R.growCalls
    header := by
      intro a h ha
      rw [hhdr] at ha
      have h1 := R.shape.inside ha
      rw [hkeep _ (by unfold headerOf; omega) (by unfold headerOf; omega)]
      · exact R.header ha
      · intro y k hy _
        have h2 := R.shape.inside hy
        have h3 := R.shape.cases_apart ha hy
        unfold headerOf nextOf prevOf
        omega
    known := by
      intro c w hc
      have hc' : g.known c = some w := by rw [hg] at hc; exact hc
      obtain ⟨a, h, ha, hal, h1, h2⟩ := R.shape.known_mem hc'
      have h3 := R.shape.inside ha
      rw [hkeep c (by omega) (by omega)]
      · exact R.known hc'
      · intro y k hy _
        have h4 := R.shape.inside hy
        have h5 := R.shape.cases_apart ha hy
        unfold nextOf prevOf
        omega
    ring := hring
    chain := by
      intro i hi hbusy
      rw [hg] at hbusy
      obtain ⟨h1, h2⟩ := R.chain i hi hbusy
      rw [hquick, hs]
      refine ⟨h1.congr fun y hy => ?_, h2⟩
      obtain ⟨h, hh, hal, _⟩ := R.shape.quick_mem hi hy
      have h3 := R.shape.inside hh
      refine hkeep _ (by unfold nextOf; omega) (by unfold nextOf; omega) ?_
      intro z k hz hzal
      have hzy : y ≠ z := by
        rintro rfl
        rw [hh] at hz
        cases hz
        rw [hal] at hzal
        cases hzal
      have h4 := R.shape.cases_apart hh hz
      have h5 := R.shape.inside hz
      unfold nextOf prevOf
      omega
    watch := fun hx =>
      { R.watch hx with
        bound := by rw [hg]; exact (R.watch hx).bound
        not_header := by rw [hhdr]; exact (R.watch hx).not_header
        not_free := by rw [hhdr]; exact (R.watch hx).not_free
        not_quick := by rw [hquick]; exact (R.watch hx).not_quick }
    kept := by
      intro x hx ht
      rw [hg] at ht
      have hw := R.watch hx
      rw [hkeep x hw.start (by have := hw.bound; omega)]
      · exact R.kept hx ht
      · intro y k hy hyal
        have h1 := hw.not_free hy hyal
        have h2 := R.shape.inside hy
        unfold nextOf prevOf
        omega }

end Represents

end StarterProjects.Sfmm
