import StarterProjects.Lib.Unwinding
import StarterProjects.Sfmm.Choice
import StarterProjects.Sfmm.LastBlock
import StarterProjects.Sfmm.Resize

/-!
# Two clients with the same calls

Two clients make the same calls, and store what they like into what is live. `Unread` says of the
heap before a call that no word of a payload is taken for a footer or for the header at
`globalEnd`, to any effect. As long as it holds of both clients, both heaps represent one and the
same pool, which decides what the calls return: what the clients store has no part in it.
-/

namespace StarterProjects.Sfmm

open Lib Lib.Exec

namespace Pool

variable {e : Env} {g g' : Pool}

/-! ## What a stale word is for -/

/-- `globalEnd` is the address of a block. -/
def EndKnown (g : Pool) : Prop := ∃ h, g.hdr g.globalEnd = some h

theorem Ended.known (E : g.Ended) : g.EndKnown := E.imp fun _ L => L.hdr

theorem EndKnown.serve (K : g.EndKnown) (m : Nat) (stale stale' : Bool) :
    g.serve m stale = g.serve m stale' := by
  obtain ⟨h, hh⟩ := K
  have hend : ∀ b, g.endAlloc b = h.alloc := fun b => by rw [endAlloc, hh]
  unfold Pool.serve Pool.place Pool.exact
  simp only [hend]

theorem EndKnown.behind (K : g.EndKnown) (m : Nat) : (pageBehind m g).EndKnown := by
  obtain ⟨h, hh⟩ := K
  by_cases hm : g.globalEnd = m
  · exact ⟨_, if_pos hm⟩
  · exact ⟨h, (if_neg hm).trans hh⟩

theorem EndKnown.grow {size : Nat} (hsize : size < 2 ^ 64) (K : g.EndKnown) :
    (g.grow e size).2.EndKnown := by
  obtain ⟨h, hh⟩ := id K
  have hturns : ∀ {n}, n < 2 ^ 64 → Turns growBound n := fun hn => Turns.growBound hn
  unfold Pool.grow
  rw [hh]
  dsimp only
  split
  · -- a page behind the last block leaves that where it is
    rcases pages_rule (e := e) (P := fun _ g₁ => g₁.EndKnown)
      (Pool.pageBehind (g.globalEnd + h.size))
      (fun _ g₁ K₁ _ _ => EndKnown.behind (g := g₁.grown) K₁ _) (hturns hsize)
      (g := (g.spoil _).spoil _) K with ⟨_, _, _, K'⟩ | ⟨_, _, g₁, _, K', _, he⟩
    · exact K'
    · rw [he]
      exact K'
  · have hlt : sub64 size h.size < 2 ^ 64 := Nat.mod_lt _ (by decide)
    rcases pages_rule (e := e) (P := fun _ g₁ => g₁.EndKnown ∧ g₁.globalEnd = g.globalEnd)
      (pageMerged g.globalEnd (g.globalEnd + h.size))
      (fun _ g₁ K₁ _ _ => ⟨⟨_, if_pos K₁.2⟩, K₁.2⟩) (hturns hlt)
      (g := (g.spoil _).note _ _) ⟨K, rfl⟩ with ⟨_, _, _, K'⟩ | ⟨_, _, g₁, _, K', _, he⟩
    · exact K'.1
    · rw [he]
      exact K'.1

/-- A free block is taken whole only when `globalEnd` is the address of a block. -/
def EndSeen (g : Pool) (m : Nat) : Prop :=
  g.quickHit m = none → ∀ a, g.fit m = some a → g.sizeOf a < m + 32 → g.EndKnown

theorem EndSeen.serve {m : Nat} (hseen : g.EndSeen m) (stale stale' : Bool) :
    g.serve m stale = g.serve m stale' := by
  by_cases hK : g.EndKnown
  · exact hK.serve m stale stale'
  · unfold Pool.serve
    cases hq : g.quickHit m with
    | some i => rfl
    | none =>
      cases hf : g.fit m with
      | none => rfl
      | some a =>
        have hcut : g.sizeOf a - m ≥ 32 := by
          by_contra hc
          exact hK (hseen hq a hf (by omega))
        dsimp only
        rw [place, place, if_pos hcut, if_pos hcut]

/-- Then `sf_malloc` reads no stale word. -/
theorem malloc_stale {size : Nat} (hsize : size < 2 ^ 64) (hseen : g.EndSeen (blockSize size))
    (hgrow : size ≠ 0 → intNeg size = false → g.Unserved (blockSize size) → g.EndKnown)
    (stale stale' : Bool) : g.malloc e size stale = g.malloc e size stale' := by
  unfold Pool.malloc
  rw [hseen.serve stale stale']
  by_cases h0 : size = 0
  · rw [if_pos h0, if_pos h0]
  rw [if_neg h0, if_neg h0]
  by_cases hneg : intNeg size = true
  · rw [if_pos hneg, if_pos hneg]
  rw [if_neg hneg, if_neg hneg]
  cases hs : g.serve (blockSize size) stale' with
  | some q => rfl
  | none =>
    have hK := hgrow h0 (Bool.eq_false_iff.mpr hneg) ((serve_none stale').mp hs)
    dsimp only
    rw [(EndKnown.grow hsize hK).serve (blockSize size) stale stale']

/-- What a call makes of the pool when it reads no stale word. -/
def call (e : Env) (g : Pool) : Op → Option (Nat × Pool)
  | .malloc n => g.malloc e n true
  | .free p => some (NULL, g.freeBlock (p - 16))
  | .realloc p n => g.realloc e (p - 16) n true
  | .write _ _ => some (NULL, g)

end Pool

/-! ## Conditions on a call -/

/-- A free block that a request takes whole has the header at `globalEnd` read, and that is a
block. -/
def EndSeen (e : Env) (s : State) (n : Nat) : Prop :=
  s.sf_mem_end ≠ e.sf_mem_start → ∀ b, choice e s (blockSize n) = some b → ¬ AllocAt e s b →
    sizeAt e s b < blockSize n + 32 → IsBlock e s s.globalEnd

/-- The calls of a careful run that read no stale header at `globalEnd`. -/
def Unread (e : Env) (s : Sys) : Op → Prop
  | .malloc n => MallocOk e s.heap n ∧ EndSeen e s.heap n
  | .free p => FreeOk e s.heap (p - 16)
  | .realloc p n => ReallocOk e s.heap (p - 16) n ∧
      (sizeAt e s.heap (p - 16) < n → EndSeen e s.heap n)
  | .write _ _ => True

/-! ## Calls with their answers -/

/-- A store of the client. -/
def Op.Stores : Op → Prop
  | write _ _ => True
  | malloc _ | free _ | realloc _ _ => False

/-- A step, with what the call returns. -/
structure Answered (e : Env) (C : Sys → Op → Prop) (s : Sys) (op : Op) (r : Nat) (s' : Sys) :
    Prop where
  valid : op.Valid s.live
  cond : C s op
  returns : Returns e s.heap op r s'.heap
  table : s'.live = op.after s.live r

/-- The calls of a client in order, each with its answer; its stores leave nothing in the log. -/
abbrev Calls (e : Env) (C : Sys → Op → Prop) : Sys → List (Op × Nat) → Sys → Prop :=
  Logged (Answered e C) Op.Stores

/-- A run on fixed inputs, with its log. -/
theorem Calls.exec {e : Env} {C : Sys → Op → Prop} {fuel : Nat} {s₀ : Sys} :
    ∀ {ops : List Op} {s s' : Sys} {log : List (Op × Nat)}, Calls e C s₀ log s →
      (∀ op t, C t op) → s.exec e fuel ops = some s' → ∃ log', Calls e C s₀ log' s'
  | [], _, _, log, h, _, he => by
    cases he
    exact ⟨log, h⟩
  | op :: ops, s, s', log, h, hC, he => by
    unfold Sys.exec at he
    split at he
    · rename_i hvalid
      split at he
      · rename_i r heap hrun
        have hstep : Answered e C s op r ⟨heap, op.after s.live r⟩ :=
          ⟨hvalid, hC op s, ⟨fuel, hrun⟩, rfl⟩
        by_cases hop : op.Stores
        · exact Calls.exec (.hide h hop hstep) hC he
        · exact Calls.exec (.visible h hop hstep) hC he
      · cases he
    · cases he

/-! ## The relation -/

/-- Two states that stand for one pool, or in which nothing has happened yet. -/
inductive Twins (e : Env) (s t : Sys) : Prop
  | start : Start e s → Start e t → t.heap.sf_errno = s.heap.sf_errno →
      t.heap.growCalls = s.heap.growCalls → Twins e s t
  | pool (g : Pool) : t.live = s.live → Tracks e s.live s.heap g → Tracks e s.live t.heap g →
      Twins e s t

/-- The answer of `sf_free` is the one of a call without a result. -/
theorem Returns.free_null {e : Env} {s s' : State} {p r : Nat} (h : Returns e s (.free p) r s') :
    r = NULL := by
  obtain ⟨fuel, hrun⟩ := h
  obtain ⟨u, s₁, _, h2⟩ := bind_eq_ok (show (sf_free e p >>= fun _ => pure NULL) s =
    .ok (r, s') from hrun)
  cases h2
  rfl

/-- A size of 0 is no error, and a negative one is. -/
theorem Returns.malloc_refused {e : Env} {s s' : State} {n r : Nat} (h : n = 0 ∨ intNeg n = true)
    (hret : Returns e s (.malloc n) r s') :
    r = NULL ∧ s' = if n = 0 then s else { s with sf_errno := ENOMEM } := by
  obtain ⟨fuel, hrun⟩ := hret
  change sf_malloc e fuel n s = .ok (r, s') at hrun
  cases fuel with
  | zero => cases hrun
  | succ fuel =>
    rw [sf_malloc, sf_malloc_body] at hrun
    by_cases h0 : n = 0
    · rw [if_pos h0] at hrun
      cases hrun
      exact ⟨rfl, (if_pos h0).symm⟩
    · rw [if_neg h0, if_pos (h.resolve_left h0)] at hrun
      cases hrun
      exact ⟨rfl, (if_neg h0).symm⟩

namespace Tracks

variable {e : Env} {live : List Allocation} {s s' : State} {g : Pool} (T : Tracks e live s g)

include T

theorem endSeen {n : Nat} (hseen : EndSeen e s n) : g.EndSeen (blockSize n) := by
  intro hq a hf hsize
  obtain ⟨⟨i, hi, hm⟩, _⟩ := Pool.fit_some hf
  obtain ⟨h, ha, hal, _⟩ := T.inv.free_mem hi hm
  have hchoice : choice e s (blockSize n) = some a := by
    rw [choice, T.quickChoice_eq, hq]
    exact (T.freeChoice_eq _).trans hf
  rw [Pool.sizeOf_of_hdr ha] at hsize
  have hend := hseen T.initialised a hchoice ((T.rep.not_allocAt ha).mpr hal)
    (by rwa [T.rep.sizeAt_eq ha])
  rw [T.rep.globalEnd] at hend
  exact (T.rep.isBlock_iff T.inv.toSettling).mp hend

theorem malloc_stale {n : Nat} (hn : n < 2 ^ 64) (hok : MallocOk e s n) (hseen : EndSeen e s n)
    (stale stale' : Bool) : g.malloc e n stale = g.malloc e n stale' :=
  Pool.malloc_stale hn (T.endSeen hseen) (fun h0 hneg hU =>
    (T.growable_of_ok hok h0 hneg hU).imp fun _ h => h.1.hdr) stale stale'

theorem realloc_stale {b n : Nat} {h : Hdr} (hu : g.Used b h) (hn : n < 2 ^ 64)
    (hok : ReallocOk e s b n) (hseen : sizeAt e s b < n → EndSeen e s n) (stale stale' : Bool) :
    g.realloc e b n stale = g.realloc e b n stale' := by
  have hsize := T.rep.sizeAt_eq hu.1
  unfold Pool.realloc
  rw [Pool.sizeOf_of_hdr hu.1]
  split
  · rfl
  · split
    · rename_i h0 hlt
      unfold ReallocOk at hok
      rw [if_neg h0, if_pos (hsize ▸ hlt)] at hok
      rw [Pool.move, Pool.move, T.malloc_stale hn hok.1 (hseen (hsize ▸ hlt)) stale stale']
    · rfl

/-- The pool decides what a call returns. -/
theorem call_to {op : Op} {r : Nat} (hvalid : op.Valid live) (hcond : Unread e ⟨s, live⟩ op)
    (hret : Returns e s op r s') :
    ∃ g', g.call e op = some (r, g') ∧ Tracks e (op.after live r) s' { g' with touched := [] } := by
  cases op with
  | malloc n =>
    obtain ⟨stale, g', hm, T'⟩ := T.malloc_to hvalid hcond.1 hret
    exact ⟨g', (T.malloc_stale hvalid hcond.1 hcond.2 true stale).trans hm, T'⟩
  | free p =>
    obtain rfl := hret.free_null
    obtain ⟨b, h, rfl, hu, T'⟩ := T.free_to hvalid hcond hret
    refine ⟨_, ?_, T'⟩
    rw [Pool.call, show nextOf b - 16 = b from Nat.add_sub_cancel b 16]
  | realloc p n =>
    obtain ⟨b, h, rfl, hu, stale, g', hr, T'⟩ := T.realloc_to hvalid.1 hvalid.2 hcond.1 hret
    obtain ⟨hok, hseen⟩ := hcond
    dsimp only at hok hseen
    rw [show nextOf b - 16 = b from Nat.add_sub_cancel b 16] at hok hseen
    refine ⟨g', ?_, T'⟩
    rw [Pool.call, show nextOf b - 16 = b from Nat.add_sub_cancel b 16,
      T.realloc_stale hu hvalid.2 hok hseen true stale, hr]
  | write addr v =>
    have T' := T.write hvalid.2 hret
    obtain ⟨fuel, hrun⟩ := hret
    cases hrun
    exact ⟨g, rfl, Tracks.restart T'.inv T'.rep T'.table⟩

end Tracks

namespace Twins

variable {e : Env} {s s' t t' : Sys}

theorem symm (h : Twins e s t) : Twins e t s := by
  cases h with
  | start hs ht herr hgrow => exact .start ht hs herr.symm hgrow.symm
  | pool g hlive T U => exact .pool g hlive.symm (hlive ▸ U) (hlive ▸ T)

/-- A store of one client leaves the pool alone. -/
theorem stores (h : Twins e s t) {op : Op} {r : Nat} (hop : op.Stores)
    (hstep : Answered e (Unread e) s op r s') : Twins e s' t := by
  obtain ⟨hvalid, _, hret, htable⟩ := hstep
  cases op with
  | malloc n => exact hop.elim
  | free p => exact hop.elim
  | realloc p n => exact hop.elim
  | write addr v =>
    have hlive : s'.live = s.live := htable
    cases h with
    | start hs _ _ _ =>
      obtain ⟨_, x, hx, _⟩ := hvalid
      rw [hs.none_live] at hx
      cases hx
    | pool g hsame T U =>
      exact .pool g (hsame.trans hlive.symm) (hlive ▸ T.write hvalid.2 hret) (hlive ▸ U)

/-- A first request adds the same page to both heaps. -/
theorem first (hs : Start e s) (ht : Start e t) (herr : t.heap.sf_errno = s.heap.sf_errno)
    (hgrow : t.heap.growCalls = s.heap.growCalls) {n r r' : Nat} (hn : n < 2 ^ 64)
    (hok : MallocOk e s.heap n) (hok' : MallocOk e t.heap n)
    (hret : Returns e s.heap (.malloc n) r s'.heap)
    (hret' : Returns e t.heap (.malloc n) r' t'.heap)
    (htable : s'.live = Op.after s.live r (.malloc n))
    (htable' : t'.live = Op.after t.live r' (.malloc n)) : r = r' ∧ Twins e s' t' := by
  by_cases htriv : n = 0 ∨ intNeg n = true
  · obtain ⟨rfl, hs'⟩ := hret.malloc_refused htriv
    obtain ⟨rfl, ht'⟩ := hret'.malloc_refused htriv
    refine ⟨rfl, .start ⟨?_, htable.trans hs.none_live⟩ ⟨?_, htable'.trans ht.none_live⟩ ?_ ?_⟩
    · rw [hs']
      split <;> exact hs.empty
    · rw [ht']
      split <;> exact ht.empty
    · rw [hs', ht']
      split <;> first | exact herr | rfl
    · rw [hs', ht']
      split <;> exact hgrow
  · simp only [not_or, Bool.not_eq_true] at htriv
    obtain ⟨_, stale, g', _, hm, T⟩ := hs.malloc hn htriv.1 htriv.2 hok hret
    obtain ⟨_, stale', g'', _, hm', U⟩ := ht.malloc hn htriv.1 htriv.2 hok' hret'
    have hK := (Pool.initial_ended (e := e) s.heap.sf_errno s.heap.growCalls).known
    rw [herr, hgrow, Pool.malloc_stale hn (fun _ _ _ _ => hK) (fun _ _ _ => hK) stale' stale,
      hm] at hm'
    cases hm'
    rw [ht.none_live, ← hs.none_live] at htable' U
    exact ⟨rfl, .pool _ (htable'.trans htable.symm) (htable ▸ T) (htable ▸ U)⟩

/-- The relation is kept by the stores of either client, and by a call that both make. -/
theorem unwinds (e : Env) : Unwinds (Answered e (Unread e)) Op.Stores (Twins e) where
  left := fun h hop hstep => h.stores hop hstep
  right := fun h hop hstep => (h.symm.stores hop hstep).symm
  both := by
    intro s t s' t' op r r' h hop hstep hstep'
    obtain ⟨hvalid, hcond, hret, htable⟩ := hstep
    obtain ⟨_, hcond', hret', htable'⟩ := hstep'
    cases h with
    | pool g hlive T U =>
      rw [hlive] at htable'
      obtain ⟨g', hg, T'⟩ := T.call_to hvalid hcond hret
      obtain ⟨g'', hg', U'⟩ := U.call_to hvalid (by cases op <;> exact hcond') hret'
      rw [hg] at hg'
      cases hg'
      exact ⟨rfl, .pool _ (htable'.trans htable.symm) (htable ▸ T') (htable ▸ U')⟩
    | start hs ht herr hgrow =>
      obtain ⟨n, rfl⟩ := hs.op_malloc hvalid
      exact first hs ht herr hgrow hvalid hcond.1 hcond'.1 hret hret' htable htable'

end Twins

/-! ## What is seen of it -/

/-- Nothing but the payloads tells two heaps apart: the four scalars, the blocks with their
headers, and both kinds of lists are the same. -/
structure Alike (e : Env) (s t : State) : Prop where
  memEnd : t.sf_mem_end = s.sf_mem_end
  globalEnd : s.sf_mem_end ≠ e.sf_mem_start → t.globalEnd = s.globalEnd
  errno : t.sf_errno = s.sf_errno
  growCalls : t.growCalls = s.growCalls
  blocks : ∀ b, IsBlock e t b ↔ IsBlock e s b
  headers : ∀ b, IsBlock e s b → hdrAt e t b = hdrAt e s b
  lists : s.sf_mem_end ≠ e.sf_mem_start → ∀ i < 10,
    quickBlocks t i = quickBlocks s i ∧ freeBlocks e t i = freeBlocks e s i

/-- Two heaps that stand for one pool are alike. -/
theorem Tracks.alike {e : Env} {live live' : List Allocation} {s t : State} {g : Pool}
    (T : Tracks e live s g) (U : Tracks e live' t g) : Alike e s t := by
  have R := T.rep
  have R' := U.rep
  refine ⟨R'.memEnd.trans R.memEnd.symm, fun _ => R'.globalEnd.trans R.globalEnd.symm,
    R'.errno.trans R.errno.symm, R'.growCalls.trans R.growCalls.symm, fun b => ?_,
    fun b hb => ?_, fun _ i hi => ⟨?_, ?_⟩⟩
  · rw [R.isBlock_iff T.inv.toSettling, R'.isBlock_iff T.inv.toSettling]
  · obtain ⟨h, hh⟩ := (R.isBlock_iff T.inv.toSettling).mp hb
    rw [R.hdrAt_eq hh, R'.hdrAt_eq hh]
  · rw [R.quickBlocks_eq T.inv.idle hi, R'.quickBlocks_eq T.inv.idle hi]
  · rw [R.freeBlocks_eq hi, R'.freeBlocks_eq hi]

theorem Twins.alike {e : Env} {s t : Sys} (h : Twins e s t) :
    t.live = s.live ∧ Alike e s.heap t.heap := by
  cases h with
  | start hs ht herr hgrow =>
    have hpages : ¬ s.heap.sf_mem_end ≠ e.sf_mem_start := not_not.mpr hs.empty
    refine ⟨?_, ?_, fun h => absurd h hpages, herr, hgrow, fun b => ?_, fun b hb => ?_,
      fun h => absurd h hpages⟩
    · rw [hs.none_live, ht.none_live]
    · rw [hs.empty, ht.empty]
    · exact iff_of_false (no_block ht.empty b) (no_block hs.empty b)
    · exact absurd hb (no_block hs.empty b)
  | pool g hlive T U => exact ⟨hlive, T.alike U⟩

/-! ## Clients that keep `globalEnd` right -/

theorem Ending.endSeen {e : Env} {s : Sys} (h : Ending e s) (n : Nat) : EndSeen e s.heap n := by
  intro hpages _ _ _ _
  obtain ⟨g, T, E⟩ := h.resolve_left fun hS => hpages hS.empty
  exact (T.endRight E hpages).1

theorem Ending.unread {e : Env} {s s' : Sys} {op : Op} {r : Nat} (h : Ending e s)
    (hstep : Answered e (KeepsEnd e) s op r s') : Answered e (Unread e) s op r s' := by
  obtain ⟨hvalid, hcond, hret, htable⟩ := hstep
  refine ⟨hvalid, ?_, hret, htable⟩
  cases op with
  | malloc n => exact ⟨h.mallocOk hcond hret, h.endSeen n⟩
  | free p => exact hcond.1
  | realloc p n => exact hcond.elim
  | write addr v => trivial

theorem Calls.unread {e : Env} {s₀ s : Sys} {log : List (Op × Nat)} (hs : Start e s₀)
    (hrun : Calls e (KeepsEnd e) s₀ log s) : Calls e (Unread e) s₀ log s :=
  (hrun.mono (I := Ending e) (.inl hs) fun h hstep =>
    ⟨h.step ⟨hstep.valid, hstep.cond, _, hstep.returns, hstep.table⟩, h.unread hstep⟩).2

/-- Two clients that make the same calls get the same answers, whatever they store, and leave
heaps that differ in the payloads only. -/
theorem payloads_unseen {e : Env} {s₀ t₀ s t : Sys} {log log' : List (Op × Nat)}
    (hs : Start e s₀) (ht : Start e t₀) (herrno : t₀.heap.sf_errno = s₀.heap.sf_errno)
    (hgrow : t₀.heap.growCalls = s₀.heap.growCalls) (hrun : Calls e (KeepsEnd e) s₀ log s)
    (hrun' : Calls e (KeepsEnd e) t₀ log' t) (hsame : log.map Prod.fst = log'.map Prod.fst) :
    log = log' ∧ t.live = s.live ∧ Alike e s.heap t.heap :=
  ((Twins.unwinds e).logged (.start hs ht herrno hgrow) (hrun.unread hs) (hrun'.unread ht)
    hsame).imp_right Twins.alike

/-- After `malloc(24)` one client stores an `A`, and the other one a `B`. -/
theorem payloads_unseen_sample : ∃ s t : Sys, Alike sampleEnv s.heap t.heap ∧
    s.heap.mem 0x100010 ≠ t.heap.mem 0x100010 := by
  have hrun : Ends (sf_malloc sampleEnv 1 24) sample.heap fun p u => p = 0x100010 ∧
      setByte u.mem 0x100010 65 0x100010 ≠ setByte u.mem 0x100010 66 0x100010 := by
    decide +kernel
  obtain ⟨_, u, hu, rfl, hne⟩ := hrun
  have hstores : ∀ v < 256, Calls sampleEnv (KeepsEnd sampleEnv) sample [(.malloc 24, 0x100010)]
      ⟨{ u with mem := setByte u.mem 0x100010 v }, [⟨0x100010, 24⟩]⟩ := fun v hv => by
    have hmalloc : Answered sampleEnv (KeepsEnd sampleEnv) sample (.malloc 24) 0x100010
        ⟨u, [⟨0x100010, 24⟩]⟩ :=
      ⟨by decide, fun _ _ hpages => absurd rfl hpages, ⟨1, hu⟩, rfl⟩
    have hwrite : Answered sampleEnv (KeepsEnd sampleEnv) ⟨u, [⟨0x100010, 24⟩]⟩
        (.write 0x100010 v) NULL ⟨{ u with mem := setByte u.mem 0x100010 v }, [⟨0x100010, 24⟩]⟩ :=
      ⟨⟨hv, ⟨0x100010, 24⟩, List.mem_cons_self, by decide, by decide⟩, trivial, ⟨0, rfl⟩, rfl⟩
    exact .hide (i := .write 0x100010 v) (.visible .start nofun hmalloc) trivial hwrite
  exact ⟨_, _, (payloads_unseen ⟨rfl, rfl⟩ ⟨rfl, rfl⟩ rfl rfl (hstores 65 (by decide))
    (hstores 66 (by decide)) rfl).2.2, hne⟩

end StarterProjects.Sfmm
