import StarterProjects.Sfmm.Payload
import StarterProjects.Sfmm.Shrink

/-!
# The cut in front of a free block

`sf_realloc` puts the rest of a block that it cuts into its list, and then has it coalesced as if
it were in none. With an allocated block behind it the rest is put into its list twice. With a
free block behind it, it is taken off its list first, and the two blocks become one: this is
`Pool.trim`, provided the two stores through the words of the payload are harmless.
-/

namespace StarterProjects.Sfmm

open Lib Lib.Exec

namespace Pool

/-- The allocated block at `b` keeps `n` bytes, and the rest of it is a free block that is in no
list. -/
def cut (g : Pool) (b n : Nat) : Pool :=
  ((g.carve b n (g.sizeOf b)).setHdr b ⟨n, true, true⟩).raiseEnd (b + n)

/-- The rest becomes one block with the free block behind it. -/
def trim (g : Pool) (b n : Nat) : Pool :=
  (g.cut b n).coalesce (b + n) none (some (b + g.sizeOf b))

/-- The rest has been put into its list, and the front has its header. -/
def settled (g : Pool) (b n : Nat) : Pool :=
  (((g.carve b n (g.sizeOf b)).put (b + n) (g.sizeOf b - n)).setHdr b
    ⟨n, true, true⟩).raiseEnd (b + n)

/-- The block at `b` is in use and can be cut after `n` bytes. -/
structure Cuttable (g : Pool) (b n : Nat) (h : Hdr) : Prop where
  used : g.Used b h
  ge : 32 ≤ n
  mod : n % 16 = 0
  rest : n + 32 ≤ h.size

/-- Behind it is a free block. -/
structure Trimmable (g : Pool) (b n : Nat) (h k : Hdr) : Prop extends Cuttable g b n h where
  next : g.hdr (b + h.size) = some k
  next_free : k.alloc = false

variable {e : Env} {g : Pool} {b n : Nat} {h k : Hdr}

theorem cut_hdr (hb : g.hdr b = some h) (x : Nat) :
    (g.cut b n).hdr x =
      if x = b then some ⟨n, true, true⟩
      else if x = b + n then some ⟨h.size - n, false, true⟩ else g.hdr x := by
  rw [cut, sizeOf_of_hdr hb]
  change (if x = b then _ else if x = b + n then _ else if x = b then none else g.hdr x) = _
  split
  · rfl
  · split <;> rfl

theorem settled_hdr (g : Pool) (b n : Nat) : (g.settled b n).hdr = (g.cut b n).hdr := rfl

namespace Cuttable

variable (C : g.Cuttable b n h)

include C

theorem hdr_front : (g.cut b n).hdr b = some ⟨n, true, true⟩ := by
  rw [cut_hdr C.used.1, if_pos rfl]

theorem hdr_rest : (g.cut b n).hdr (b + n) = some ⟨h.size - n, false, true⟩ := by
  have h32 := C.ge
  rw [cut_hdr C.used.1, if_neg (by omega), if_pos rfl]

/-- A block after the cut is one of the two parts, or an old block elsewhere. -/
theorem hdr_cases (S : g.Shape e) {x : Nat} {l : Hdr} (hx : (g.cut b n).hdr x = some l) :
    (x = b ∧ l = ⟨n, true, true⟩) ∨ (x = b + n ∧ l = ⟨h.size - n, false, true⟩) ∨
      (x ≠ b ∧ x ≠ b + n ∧ g.hdr x = some l ∧ (x + l.size ≤ b ∨ b + h.size ≤ x)) := by
  rw [cut_hdr C.used.1] at hx
  split at hx
  · cases hx
    exact .inl ⟨‹_›, rfl⟩
  · rename_i hxb
    split at hx
    · cases hx
      exact .inr (.inl ⟨‹_›, rfl⟩)
    · exact .inr (.inr ⟨hxb, ‹_›, hx, (S.cases_apart hx C.used.1).resolve_left hxb⟩)

/-- The blocks elsewhere stay. -/
theorem hdr_keep (S : g.Shape e) {x : Nat} {l : Hdr} (hxb : x ≠ b) (hx : g.hdr x = some l) :
    (g.cut b n).hdr x = some l := by
  have h1 := (S.cases_apart hx C.used.1).resolve_left hxb
  have h2 := S.inside hx
  have h3 := C.rest
  have h4 := C.ge
  rw [cut_hdr C.used.1, if_neg hxb, if_neg (by omega), hx]

theorem shape (S : g.Shape e) : (g.cut b n).Shape e := by
  have h1 := S.inside C.used.1
  have h32 := C.ge
  have h16 := C.mod
  have hrest := C.rest
  rw [Pool.cut, sizeOf_of_hdr C.used.1]
  refine ((S.carve C.used.1 (fun i hi => S.not_free_of_alloc C.used.1 C.used.2.1 hi) C.used.2.2
    h32 h16 hrest).appear (a := b) (h := ⟨n, true, true⟩) ?_ ⟨h1.1, h1.2.1, h32, h16, ?_⟩
      fun x l hx => ?_).raiseEnd (b + n)
  · rw [carve_hdr, if_neg (by omega), if_pos rfl]
  · rw [carve_memEnd]
    dsimp only
    omega
  · rw [carve_hdr] at hx
    split at hx
    · exact .inr (by dsimp only; omega)
    · split at hx
      · cases hx
      · have h2 := (S.cases_apart hx C.used.1).resolve_left ‹_›
        dsimp only
        omega

theorem tiles (I : g.Inv e) : Tiles e.sf_mem_start (g.memEnd - 16) (g.cut b n).sizes := by
  have h32 := C.ge
  have hrest := C.rest
  refine (I.tiles.split (sizes_of_hdr C.used.1) (m := n) (by omega) (by omega)).congr fun x => ?_
  unfold sizes
  rw [cut_hdr C.used.1]
  by_cases hxb : x = b
  · rw [if_pos hxb, if_neg (by omega), if_pos hxb]
    rfl
  · rw [if_neg hxb, if_neg hxb]
    split <;> rfl

end Cuttable

namespace Trimmable

variable (C : g.Trimmable b n h k)

include C

theorem hdr_next (S : g.Shape e) : (g.cut b n).hdr (b + h.size) = some k := by
  have h1 := S.inside C.used.1
  exact C.hdr_keep S (by omega) C.next

/-- The footer of the rest lies in the block behind it. -/
theorem footer (I : g.Inv e) {x : Nat} {l : Hdr} (hx : (g.cut b n).hdr x = some l)
    (hal : l.alloc = false) : (∃ w, (g.cut b n).known (x + l.size) = some w ∧ unflag w = l.size) ∨
      (x ∈ [b + n] ∧ x + l.size ∉ [b + n] ∧
        ∃ k, (g.cut b n).hdr (x + l.size) = some k ∧ k.alloc = false) := by
  have S := I.toShape
  have hrest := C.rest
  rcases C.hdr_cases S hx with ⟨_, rfl⟩ | ⟨rfl, rfl⟩ | ⟨_, _, hold, hapart⟩
  · cases hal
  · right
    have hend : b + n + (h.size - n) = b + h.size := by omega
    dsimp only
    rw [hend, List.mem_singleton, List.mem_singleton]
    exact ⟨rfl, by omega, k, C.hdr_next S, C.next_free⟩
  · left
    obtain ⟨w, hw, hun⟩ := I.footer hold hal
    have h1 := S.inside hold
    refine ⟨w, ?_, hun⟩
    change (if b < x + l.size ∧ x + l.size < b + n + 32 then none else g.known (x + l.size)) = _
    rw [if_neg (by omega), hw]

theorem settling (I : g.Inv e) : (g.cut b n).Settling e [b + n] := by
  have S := I.toShape
  have h1 := S.inside C.used.1
  have h32 := C.ge
  have hrest := C.rest
  have hfree : ∀ i, (g.cut b n).free i = g.free i := fun _ => rfl
  exact
  { C.shape S with
    tiles := C.tiles I
    pending := by
      intro x hx
      obtain rfl := List.mem_singleton.mp hx
      exact ⟨_, C.hdr_rest, rfl, fun i hi =>
        S.interior_not_free C.used.1 (by omega) (by omega) hi⟩
    listed := by
      intro x l hx hal hn
      rcases C.hdr_cases S hx with ⟨_, rfl⟩ | ⟨rfl, _⟩ | ⟨_, _, hold, _⟩
      · cases hal
      · exact absurd List.mem_cons_self hn
      · exact I.listed hold hal List.not_mem_nil
    quick_len := I.quick_len
    coalesced := by
      intro x l l' hx hl hal hlal
      simp only [List.mem_singleton]
      rcases C.hdr_cases S hx with ⟨_, rfl⟩ | ⟨hxr, _⟩ | ⟨_, _, hold, _⟩
      · cases hal
      · exact .inl hxr
      · rcases C.hdr_cases S hl with ⟨_, rfl⟩ | ⟨hlr, _⟩ | ⟨_, _, hold', _⟩
        · cases hlal
        · exact .inr hlr
        · exact absurd (I.coalesced hold hold' hal hlal) (by simp)
    footed := C.footer I
    end_inside := raiseEnd_inside I.end_inside (by omega) (by have := C.mod; omega) (by
      change b + n + 32 ≤ g.memEnd
      omega) }

theorem freeAfter (S : g.Shape e) : (g.cut b n).freeAfter (b + n) = some (b + h.size) := by
  have hrest := C.rest
  have hend : b + n + (h.size - n) = b + h.size := by omega
  have hnext := C.hdr_next S
  rw [← hend] at hnext ⊢
  rw [Pool.freeAfter, sizeOf_of_hdr C.hdr_rest, hnext]
  exact if_neg (by simp [C.next_free])

theorem trim_eq : g.trim b n = (g.cut b n).coalesce (b + n) none (some (b + h.size)) := by
  rw [trim, sizeOf_of_hdr C.used.1]

/-- The merged block gets a `prev_footer` and a footer. -/
theorem trim_touched (S : g.Shape e) : (g.trim b n).touched =
    (b + n + (h.size - n + k.size)) :: (b + n) :: g.touched := by
  rw [C.trim_eq, coalesce, sizeOf_of_hdr C.hdr_rest, sizeOf_of_hdr (C.hdr_next S)]
  rfl

/-- The cut keeps the invariant. -/
theorem inv (I : g.Inv e) : (g.trim b n).Inv e := by
  have S := I.toShape
  have h32 := C.ge
  have hrest := C.rest
  have hfa := C.freeAfter S
  rw [C.trim_eq, ← hfa]
  have hI : ((g.cut b n).coalesce (b + n) none ((g.cut b n).freeAfter (b + n))).Settling e [] :=
    (C.settling I).coalesce List.not_mem_nil C.hdr_rest nofun (fun _ a l ha hal hend => ?_)
      fun _ _ => List.not_mem_nil
  · exact { hI with idle := (coalesce_busy _ _ _ _).trans I.idle }
  · -- in front of the rest is the block that was cut
    rcases C.hdr_cases S ha with ⟨_, rfl⟩ | ⟨rfl, _⟩ | ⟨_, _, hold, hapart⟩
    · cases hal
    · have h2 := (C.shape S).inside ha
      omega
    · have h2 := S.inside hold
      omega

/-- The blocks after the cut. -/
theorem trim_hdr (S : g.Shape e) (x : Nat) : (g.trim b n).hdr x =
    if x = b + n then some ⟨h.size - n + k.size, false, true⟩
    else if x = b + h.size then none else (g.cut b n).hdr x := by
  rw [C.trim_eq, coalesce, makeFree_hdr, sizeOf_of_hdr C.hdr_rest, sizeOf_of_hdr (C.hdr_next S)]
  simp only [List.mem_singleton]
  rfl

theorem used_front (S : g.Shape e) : (g.trim b n).Used b ⟨n, true, true⟩ := by
  have h32 := C.ge
  have h1 := S.inside C.used.1
  refine ⟨?_, rfl, fun i hi => ?_⟩
  · rw [C.trim_hdr S, if_neg (by omega), if_neg (by omega), C.hdr_front]
  · rw [C.trim_eq]
    exact C.used.2.2 i hi

theorem used_others (S : g.Shape e) {a : Nat} {l : Hdr} (hab : a ≠ b) :
    (g.trim b n).Used a l ↔ g.Used a l := by
  have hquick : (g.trim b n).quick = g.quick := by rw [C.trim_eq]; rfl
  have h1 := C.ge
  have h2 := C.rest
  unfold Used
  rw [hquick, C.trim_hdr S, cut_hdr C.used.1, if_neg hab]
  refine and_congr_left fun hl => ?_
  -- neither the rest nor the block behind it is allocated
  by_cases hrest : a = b + n
  · rw [if_pos hrest, hrest, S.interior C.used.1 (by omega) (by omega)]
    refine iff_of_false (fun hc => ?_) nofun
    cases hc
    exact absurd hl.1 Bool.false_ne_true
  · rw [if_neg hrest, if_neg hrest]
    by_cases hnext : a = b + h.size
    · rw [if_pos hnext, hnext, C.next]
      refine iff_of_false nofun fun hc => ?_
      cases hc
      exact absurd (C.next_free.symm.trans hl.1) Bool.false_ne_true
    · rw [if_neg hnext]

end Trimmable

end Pool

/-! ## Memory -/

/-- Each of the two stores through the words at the front of the payload of `b` goes to a payload
or changes nothing, and leaves alone what is cut off, up to `c`. -/
def Pool.Stray (g : Pool) (s : State) (b n c : Nat) : Prop :=
  ∀ x, x = nextOf (s.prv b) ∨ x = prevOf (s.nxt b) →
    (x < b + n ∨ c < x) ∧ ((s.relinked b).mem x = s.mem x ∨ g.InPayload x)

/-- Or they take the block at `c` off its list. -/
def Pool.Harmless (g : Pool) (s : State) (b n c : Nat) : Prop :=
  (s.prv b = s.prv c ∧ s.nxt b = s.nxt c) ∨ g.Stray s b n c

namespace Represents

variable {e : Env} {W : Nat → Prop} {m₀ : Nat → Nat} {s : State} {g g' : Pool}

/-- The pool may have been worked out in another order. -/
theorem reread (R : Represents e W m₀ s g) (S : g'.Shape e)
    (hg : g' = { g with free := g'.free, closed := g'.closed })
    (hfree : ∀ i < 10, g'.free i = g.free i)
    (hclosed : ∀ i < 10, g'.closed i = true → g.closed i = true) : Represents e W m₀ s g' := by
  refine R.relink S hg rfl (fun _ _ => rfl) fun i hi => ?_
  have hring := R.ring i hi
  rw [hfree i hi]
  cases hc : g'.closed i with
  | true => rwa [hclosed i hi hc] at hring
  | false => exact hring.open_of

/-- Stores to payloads leave the pool as it is. -/
theorem relinked_stray {b n c : Nat} (R : Represents e W s.mem s g) (H : g.Stray s b n c)
    (hW : ∀ x, W x → (s.relinked b).mem x = s.mem x) :
    Represents e W s.mem (s.relinked b) g := by
  refine R.store_payloads rfl fun x hne => ?_
  have hx : x = nextOf (s.prv b) ∨ x = prevOf (s.nxt b) := by
    by_contra hc
    rw [not_or] at hc
    refine hne ?_
    rw [State.relinked, State.put_mem, if_neg hc.2, State.put_mem, if_neg hc.1]
  exact ⟨fun hWx => hne (hW x hWx), (H x hx).2.resolve_left hne⟩

/-- The header and the two footers are words of the payload, too. -/
theorem cut_payload {b n : Nat} {h : Hdr} (C : g.Cuttable b n h)
    (R : Represents e W s.mem (s.relinked b) g) (hW : ∀ x, W x → x < b + n ∨ b + h.size < x) :
    Represents e W s.mem (s.cut e b n (h.size - n)) g := by
  have h1 := C.ge
  have h2 := C.rest
  have hu := C.used
  refine R.store_payloads rfl fun x hne => ?_
  have hx : x = headerOf (b + n) ∨ x = b + n ∨ x = b + n + (h.size - n) := by
    by_contra hc
    rw [not_or, not_or] at hc
    exact hne (cut_mem hc.1 hc.2.1 hc.2.2)
  unfold headerOf at hx
  refine ⟨fun hWx => ?_, b, h, hu, by unfold nextOf; omega, by omega⟩
  have h3 := hW x hWx
  omega

section Trim

variable {b n : Nat} {h k : Hdr} (R : Represents e W s.mem s g) (C : g.Trimmable b n h k)

include R C

/-- A link of a free list is no word of the rest. -/
theorem link_aside {y : Nat} (hy : FreeNode e g y) {x : Nat} (hx : x = nextOf y ∨ x = prevOf y) :
    x < b + n ∨ b + h.size < x := by
  have h1 := C.ge
  by_contra hc
  have hp : g.InPayload x := ⟨b, h, C.used, by unfold nextOf; omega, by omega⟩
  obtain ⟨h2, h3⟩ := hp.not_link R.shape <| hy.imp_right fun hfree => by
    obtain ⟨l, hl, hal⟩ := hfree
    exact ⟨l, hl, Pool.not_used_of_free hal⟩
  exact hx.elim h2 h3

/-- The two stores leave the pool as it is, or take the block behind off its list. -/
theorem relinked (I : g.Inv e) (H : g.Harmless s b n (b + h.size))
    (hW : ∀ x, W x → (s.relinked b).mem x = s.mem x) :
    (∀ x, x = nextOf (s.prv b) ∨ x = prevOf (s.nxt b) → x < b + n ∨ b + h.size < x) ∧
      (Represents e W s.mem (s.relinked b) g ∨
        Represents e W s.mem (s.relinked b) (g.erase (b + h.size))) := by
  rcases H with ⟨hprv, hnxt⟩ | hstores
  · have hi := Pool.freeIndex_lt k.size
    have hc := I.listed C.next C.next_free List.not_mem_nil
    have hcm := List.mem_cons_of_mem (e.head (freeIndex k.size)) hc
    have hp := R.freeNode_path hi (R.prv_mem hi hc)
    have hn := R.freeNode_path hi (R.nxt_mem hi hcm)
    refine ⟨fun x hx => ?_, .inr ?_⟩
    · rcases hx with hx | hx
      · exact R.link_aside C hp (.inl (hprv ▸ hx))
      · exact R.link_aside C hn (.inr (hnxt ▸ hx))
    · rw [State.relinked, hprv, hnxt]
      exact R.unlink' hi hc
  · exact ⟨fun x hx => (hstores x hx).1, .inl (R.relinked_stray hstores hW)⟩

omit R in
/-- The lists, whether or not the stores took the block behind off its list, and with the rest put
into its list before it is merged. -/
theorem trim_lists {g₁ : Pool} (S : g.Shape e) (hg₁ : g₁ = g ∨ g₁ = g.erase (b + h.size)) {i : Nat}
    (hi : i < 10) (r : Nat) :
    ((((if i = r then (b + n) :: g₁.free i else g₁.free i).erase (b + n)).erase (b + h.size)) =
      ((g.free i).erase (b + n)).erase (b + h.size)) ∧
    ((g.closed i || decide ((g.free i).getLast? = some (b + n)) ||
        decide (((g.free i).erase (b + n)).getLast? = some (b + h.size))) = true →
      (g₁.closed i || decide (((if i = r then (b + n) :: g₁.free i else g₁.free i).erase
        (b + n)).getLast? = some (b + h.size))) = true) := by
  have h1 := C.ge
  have h2 := C.rest
  have hrest : b + n ∉ g.free i := S.interior_not_free C.used.1 (by omega) (by omega) hi
  have hrest₁ : b + n ∉ g₁.free i := by
    rcases hg₁ with rfl | rfl
    · exact hrest
    · exact fun hm => hrest (List.mem_of_mem_erase hm)
  have herase : (if i = r then (b + n) :: g₁.free i else g₁.free i).erase (b + n) = g₁.free i := by
    split
    · rw [List.erase_cons_head]
    · exact List.erase_of_not_mem hrest₁
  rw [herase, List.erase_of_not_mem hrest]
  constructor
  · rcases hg₁ with rfl | rfl
    · rfl
    · have hgone : b + h.size ∉ (g.free i).erase (b + h.size) := S.not_mem_erase hi
      exact List.erase_of_not_mem hgone
  · simp only [Bool.or_eq_true, decide_eq_true_eq]
    rintro ((hc | hlast) | hlast)
    · rcases hg₁ with rfl | rfl
      · exact .inl hc
      · exact .inl (by rw [Pool.erase_closed, hc, Bool.true_or])
    · exact absurd (List.mem_of_getLast? hlast) hrest
    · rcases hg₁ with rfl | rfl
      · exact .inr hlast
      · exact .inl (by rw [Pool.erase_closed, decide_eq_true hlast, Bool.or_true])

end Trim

section Settle

variable {b n : Nat} {h k : Hdr} (R : Represents e W m₀ s g)

include R

/-- What the cut does after its stores: the rest goes into its list, the header of the front is
written, and `sf_coalesce` is called for the rest. -/
theorem settle_ends {Q : Nat → State → Prop} (C : g.Cuttable b n h)
    (hfree : ∀ i < 10, b + n ∉ g.free i) (hb : ∀ i < 10, b ∉ g.free i)
    (htouched : g.touched = []) (hwatch : W (b + n))
    (hW : ∀ x, W x → x ≤ b + n ∨ b + h.size < x)
    (hheader : s.mem (headerOf (b + n)) = (Hdr.mk (h.size - n) false true).word ^^^ e.magic)
    (hfooter : m₀ (b + n) = (Hdr.mk n true false).word ^^^ e.magic)
    (hcoalesce : ∀ t, Represents e W m₀ t (g.settled b n) →
      PastSeen e (g.settled b n) (b + n) n none →
      Ends (sf_coalesce e (b + n) (h.size - n) n false) t fun _ s' => Q (nextOf b) s') :
    Ends (sf_realloc_settle e b n (h.size - n)) s Q := by
  have S := R.shape
  have h1 := S.inside C.used.1
  have hlt := S.lt_two_pow C.used.1
  have h32 := C.ge
  have h16 := C.mod
  have h2 := C.rest
  have hsize := Pool.sizeOf_of_hdr C.used.1
  have R₁ := R.carve (m := n) C.used.1 hb C.used.2.2 h32 h16 h2 hheader hW
  unfold sf_realloc_settle
  refine (R₁.put_ends (h := ⟨h.size - n, false, true⟩) (by simp) rfl hfree).step fun _ s₂ R₂ => ?_
  rw [or_this_prev_word (by omega)]
  refine .run (store_ok (R₂.mapped_heap (x := headerOf b) (by unfold headerOf; omega)
    (by unfold headerOf; omega) (by unfold headerOf; simp; omega))) ?_
  have R₃ := R₂.appear (a := b) (h := ⟨n, true, true⟩) ?_ ⟨h1.1, h1.2.1, h32, h16, ?_⟩ ?_ ?_
  · refine (R₃.raise_ends (b + n)).step fun _ s₄ R₄ => ?_
    rw [← hsize] at R₄
    replace R₄ : Represents e W m₀ s₄ (g.settled b n) := R₄
    have hrest : (g.settled b n).hdr (b + n) = some ⟨h.size - n, false, true⟩ := C.hdr_rest
    have hpast : PastSeen e (g.settled b n) (b + n) n none := by
      refine .inr (.inr ⟨⟨n, true, true⟩, ?_, rfl⟩)
      rw [if_pos (by omega), sf_get_past_block, sub64_of_le (by omega) (by omega),
        Nat.add_sub_cancel, Pool.settled_hdr]
      exact C.hdr_front
    refine .run (load_ok (R₄.mapped_start hrest)) ?_
    rw [prevFooterOf, R₄.kept hwatch (fun hc => by
      replace hc : b + n ∈ g.touched := hc
      rw [htouched] at hc
      cases hc), hfooter, xor_magic, Hdr.unflag_word (by dsimp only; omega)]
    exact (hcoalesce s₄ R₄ hpast).step fun _ s₅ hQ => .ret hQ
  · rw [Pool.put_hdr, Pool.carve_hdr, if_neg (by omega), if_pos rfl]
  · rw [Pool.put_memEnd, Pool.carve_memEnd]
    dsimp only
    omega
  · intro a l ha
    rw [Pool.put_hdr, Pool.carve_hdr] at ha
    split at ha
    · exact .inr (by dsimp only; omega)
    · split at ha
      · cases ha
      · have h3 := (S.cases_apart ha C.used.1).resolve_left ‹_›
        dsimp only
        omega
  · exact fun x hx =>
      ⟨(R.watch hx).not_header C.used.1, fun hc => (Bool.false_ne_true hc.symm).elim⟩

variable (C : g.Trimmable b n h k)

include C

omit R in
/-- In which order the blocks have left and joined the lists does not matter. -/
theorem reread_trim {g₁ : Pool} (S : g.Shape e) (S' : (g.trim b n).Shape e)
    (hg₁ : g₁ = g ∨ g₁ = g.erase (b + h.size))
    (R' : Represents e W m₀ s ((g₁.settled b n).coalesce (b + n) none (some (b + h.size)))) :
    Represents e W m₀ s (g.trim b n) := by
  have htrim : g.trim b n = (((g.cut b n).erase (b + n)).erase (b + h.size)).makeFree (b + n)
      (h.size - n + k.size) [b + h.size] := by
    rw [C.trim_eq, Pool.coalesce, Pool.sizeOf_of_hdr C.hdr_rest, Pool.sizeOf_of_hdr (C.hdr_next S)]
  have hsize₁ : g₁.sizeOf b = h.size := by
    rcases hg₁ with rfl | rfl <;> exact Pool.sizeOf_of_hdr C.used.1
  generalize hG : g₁.settled b n = G at R'
  rw [Pool.settled, hsize₁] at hG
  have hhdr : G.hdr = (g.cut b n).hdr := by
    rw [← hG, Pool.cut, Pool.sizeOf_of_hdr C.used.1]
    rcases hg₁ with rfl | rfl <;> rfl
  rw [Pool.coalesce, Pool.sizeOf_of_hdr (hhdr ▸ C.hdr_rest),
    Pool.sizeOf_of_hdr (hhdr ▸ C.hdr_next S)] at R'
  have hlists := fun i hi => trim_lists C S hg₁ (i := i) hi (freeIndex (h.size - n))
  refine R'.reread S' ?_ (fun i hi => ?_) fun i hi => ?_
  · rw [htrim, Pool.cut, Pool.sizeOf_of_hdr C.used.1, ← hG]
    rcases hg₁ with rfl | rfl <;> rfl
  · rw [htrim, ← hG]
    change (if i = freeIndex (h.size - n + k.size) then
        (b + n) :: ((g.free i).erase (b + n)).erase (b + h.size)
      else ((g.free i).erase (b + n)).erase (b + h.size)) = if _ then _ :: _ else _
    rw [← (hlists i hi).1]
    rfl
  · rw [htrim, ← hG]
    change (g.closed i || decide ((g.free i).getLast? = some (b + n)) ||
        decide (((g.free i).erase (b + n)).getLast? = some (b + h.size)) ||
      (decide (i = freeIndex (h.size - n + k.size)) &&
        (((g.free i).erase (b + n)).erase (b + h.size)).isEmpty)) = true → (g₁.closed i ||
          (decide (i = freeIndex (h.size - n)) && (g₁.free i).isEmpty) || decide _ ||
            decide _ || (_ && List.isEmpty _)) = true
    have hclosed := (hlists i hi).2
    rw [← (hlists i hi).1]
    simp only [Bool.or_eq_true] at hclosed ⊢
    rintro (hc | hc)
    · rcases hclosed hc with hc | hc
      · exact .inl (.inl (.inl (.inl hc)))
      · exact .inl (.inr hc)
    · exact .inr hc

end Settle

/-- The call up to `sf_coalesce`, when memory after the two stores represents `g₁`. -/
theorem cut_run {b n : Nat} {h : Hdr} {g₁ : Pool} {Q : Nat → State → Prop}
    (R : Represents e W s.mem (s.relinked b) g₁) (C : g₁.Cuttable b n h)
    (hend : s.sf_mem_end = g₁.memEnd) (hprev : mapped e s (nextOf (s.prv b)))
    (hnext : mapped e s (prevOf (s.nxt b))) (htouched : g₁.touched = [])
    (haside : ∀ x, x = nextOf (s.prv b) ∨ x = prevOf (s.nxt b) → x < b + n ∨ b + h.size < x)
    (hW : ∀ x, W x → x < b + n ∨ b + h.size < x)
    (hcoalesce : ∀ t, Represents e W s.mem t (g₁.settled b n) →
      PastSeen e (g₁.settled b n) (b + n) n none →
      Ends (sf_coalesce e (b + n) (h.size - n) n false) t fun _ s' => Q (nextOf b) s') :
    Ends (sf_realloc_split e b h.size n) s Q := by
  have S := R.shape
  have h1 := S.inside C.used.1
  have hlimit := S.limit
  have htop := e.limit_lt
  have h32 := C.ge
  have h2 := C.rest
  have F : Fits h.size n (h.size - n) := ⟨by omega, h32, C.mod, by omega⟩
  have R₂ := cut_payload C R hW
  have haside' : ∀ x, x = nextOf (s.prv b) ∨ x = prevOf (s.nxt b) →
      x ≠ b + n ∧ x ≠ headerOf (b + n) := fun x hx => by
    have h3 := haside x hx
    unfold headerOf
    omega
  refine .congr (sf_realloc_split_run F ⟨h1.1, h1.2.1, h1.2.2.2.1, by omega, by omega⟩ hprev
    hnext) ?_
  -- the word in front of the rest is watched until it is read
  have R₃ : Represents e (fun x => W x ∨ x = b + n) (s.cut e b n (h.size - n)).mem
      (s.cut e b n (h.size - n)) g₁ := R₂.rewatch ?_
  · refine R₃.settle_ends C (fun i hi => ?_) (fun i hi => ?_) htouched (.inr rfl) (fun x hx => ?_)
      (cut_header F haside') (cut_footer F haside') fun t R₄ hpast => ?_
    · exact S.interior_not_free C.used.1 (by omega) (by omega) hi
    · exact S.not_free_of_alloc C.used.1 C.used.2.1 hi
    · exact hx.elim (fun hx => (hW x hx).imp_left Nat.le_of_lt) fun hx => .inl hx.le
    · refine hcoalesce t ?_ hpast
      exact
      { R₄ with
        watch := fun hx => R₄.watch (.inl hx)
        kept := fun hx ht => (R₄.kept (.inl hx) ht).trans
          (R₂.kept hx (htouched ▸ List.not_mem_nil)) }
  · rintro x (hx | rfl)
    · exact R₂.watch hx
    · have hmod := C.mod
      exact Pool.InPayload.still ⟨b, h, C.used, by unfold nextOf; omega, by omega⟩ S (by omega)

/-- What `sf_realloc_split` makes of a block with a free block behind it. -/
theorem trim_ends {b n : Nat} {h k : Hdr} (R : Represents e W s.mem s g) (C : g.Trimmable b n h k)
    (I : g.Inv e) (H : g.Harmless s b n (b + h.size)) (hprev : mapped e s (nextOf (s.prv b)))
    (hnext : mapped e s (prevOf (s.nxt b))) (htouched : g.touched = [])
    (hW : ∀ x, W x → (x < b + n ∨ b + h.size < x) ∧ (s.relinked b).mem x = s.mem x) :
    Ends (sf_realloc_split e b h.size n) s fun r s' =>
      r = nextOf b ∧ Represents e W s.mem s' (g.trim b n) := by
  have h2 := C.rest
  obtain ⟨haside, hlinked⟩ := R.relinked C I H fun x hx => (hW x hx).2
  obtain ⟨g₁, hg₁, R₁⟩ : ∃ g₁, (g₁ = g ∨ g₁ = g.erase (b + h.size)) ∧
      Represents e W s.mem (s.relinked b) g₁ := by
    rcases hlinked with R₁ | R₁
    · exact ⟨_, .inl rfl, R₁⟩
    · exact ⟨_, .inr rfl, R₁⟩
  have C₁ : g₁.Trimmable b n h k := by
    rcases hg₁ with rfl | rfl
    · exact C
    · exact ⟨⟨C.used, C.ge, C.mod, C.rest⟩, C.next, C.next_free⟩
  have hkept : g₁.touched = [] ∧ g₁.memEnd = g.memEnd := by
    rcases hg₁ with rfl | rfl <;> exact ⟨htouched, rfl⟩
  refine R₁.cut_run C₁.toCuttable (R.memEnd.trans hkept.2.symm) hprev hnext hkept.1 haside
    (fun x hx => (hW x hx).1) fun t R₄ hpast => ?_
  have hafter : b + n + (h.size - n) = b + h.size := by omega
  have hk : (g₁.settled b n).hdr (b + n + (h.size - n)) = some k := by
    rw [Pool.settled_hdr, hafter]
    exact C₁.hdr_next R₁.shape
  refine (R₄.coalesce_next C₁.hdr_rest rfl hpast hk C₁.next_free).mono fun _ s' R₅ => ⟨rfl, ?_⟩
  rw [hafter] at R₅
  exact reread_trim C R.shape (C.inv I).toShape hg₁ R₅

/-- And of one without. The rest is in its list twice, so that the lists are no lists any more. -/
theorem alone_ends {b n : Nat} {h : Hdr} (R : Represents e W s.mem s g) (C : g.Cuttable b n h)
    (I : g.Inv e) (hafter : ∀ k, g.hdr (b + h.size) = some k → k.alloc = true)
    (H : g.Stray s b n (b + h.size)) (hprev : mapped e s (nextOf (s.prv b)))
    (hnext : mapped e s (prevOf (s.nxt b))) (htouched : g.touched = [])
    (hW : ∀ x, W x → (x < b + n ∨ b + h.size < x) ∧ (s.relinked b).mem x = s.mem x) :
    Ends (sf_realloc_split e b h.size n) s fun r s' => r = nextOf b ∧
      ∃ t, Represents e W s.mem t (g.settled b n) ∧ s' = { t with mem := s'.mem } ∧
        ∀ x, (∀ y, FreeNode e (g.settled b n) y → x ≠ nextOf y ∧ x ≠ prevOf y) →
          s'.mem x = t.mem x := by
  have S := R.shape
  have h1 := S.inside C.used.1
  have h2 := C.rest
  refine (R.relinked_stray H fun x hx => (hW x hx).2).cut_run C R.memEnd hprev hnext htouched
    (fun x hx => (H x hx).1) (fun x hx => (hW x hx).1) fun t R₄ hpast => ?_
  have hend : b + n + (h.size - n) = b + h.size := by omega
  have hold : ∀ k, (g.settled b n).hdr (b + h.size) = some k ↔ g.hdr (b + h.size) = some k :=
    fun k => by rw [Pool.settled_hdr, Pool.cut_hdr C.used.1, if_neg (by omega), if_neg (by omega)]
  have hedge : b + n + (h.size - n) + 16 = (g.settled b n).memEnd ∨
      ∃ k, (g.settled b n).hdr (b + n + (h.size - n)) = some k := by
    rw [hend]
    rcases I.tiles.next (Pool.sizes_of_hdr C.used.1) with hlast | ⟨_, hl⟩
    · exact .inl (by change b + h.size + 16 = g.memEnd; omega)
    · obtain ⟨k, hk, _⟩ := Pool.sizes_some.mp hl
      exact .inr ⟨k, (hold k).mpr hk⟩
  have hfa : (g.settled b n).freeAfter (b + n) = none := by
    have hrest : (g.settled b n).hdr (b + n) = some ⟨h.size - n, false, true⟩ := C.hdr_rest
    cases hfa : (g.settled b n).freeAfter (b + n) with
    | none => rfl
    | some x =>
      obtain ⟨rfl, k, hk, hal⟩ := Pool.freeAfter_some hfa
      rw [Pool.sizeOf_of_hdr hrest] at hk
      dsimp only at hk
      rw [hend, hold] at hk
      exact absurd ((hafter k hk).symm.trans hal) (by decide)
  exact (R₄.coalesce_alone C.hdr_rest hpast hedge hfa).mono fun _ s' hs' => ⟨rfl, t, R₄, hs'⟩

end Represents

end StarterProjects.Sfmm
