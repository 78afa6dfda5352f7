import StarterProjects.Sfmm.Allocator

/-!
# Behind the checks

Only the checks of `sf_free` and `sf_realloc` call `abort`, and no function gives pages
back. Both are read off the bodies, one function after the other.
-/

namespace StarterProjects.Sfmm

open Lib Lib.Exec

/-- Neither aborts nor shrinks the heap. -/
abbrev Tame {α : Type} (m : Exec State α) : Prop := Orderly State.sf_mem_end m

namespace Tame

open Orderly

variable (e : Env)

theorem load (a : Nat) : Tame (load e a) := by
  constructor
  · intro s h
    unfold Sfmm.load at h
    split at h <;> cases h
  · intro s v s' h
    exact Nat.le_of_eq (by rw [(load_eq_ok h).2.2])

theorem store (a v : Nat) : Tame (store e a v) := by
  constructor
  · intro s h
    unfold Sfmm.store at h
    split at h <;> cases h
  · intro s u s' h
    exact Nat.le_of_eq (by rw [(store_eq_ok h).2, State.put_sf_mem_end])

theorem getQuick (i : Nat) : Tame (getQuick i) := get.bind fun _ => ret _

theorem setQuick (i : Nat) (q : QuickList) : Tame (setQuick i q) :=
  modify fun _ => Nat.le_refl _

theorem block_sz (b : Nat) : Tame (sf_get_block_sz e b) := (load e _).bind fun _ => ret _

theorem footer (b : Nat) : Tame (sf_set_block_footer e b) :=
  (load e _).bind fun _ => store e _ _

theorem put_in_free_list (b n : Nat) : Tame (sf_put_in_free_list e b n) :=
  (load e _).bind fun _ => (store e _ _).bind fun _ => (store e _ _).bind fun _ =>
    (store e _ _).bind fun _ => store e _ _

theorem remove_walk (b head : Nat) : ∀ fuel cur, Tame (sf_remove_walk e b head fuel cur)
  | 0, _ => stop nofun
  | fuel + 1, _ => (load e _).bind fun x =>
      ite (ret _) (ite ((load e _).bind fun _ => (load e _).bind fun _ =>
        (store e _ _).bind fun _ => (load e _).bind fun _ => (store e _ _).bind fun _ => ret _)
        (remove_walk b head fuel x))

theorem remove (b : Nat) : Tame (sf_remove_from_free_list e b) :=
  get.bind fun _ => (firstSome (fun _ => remove_walk e _ _ _ _) _).bind fun _ => ret _

theorem probe (b : Nat) : Tame (sf_probe e b) := (load e _).bind fun _ => ret _

theorem make_free (b n past : Nat) : Tame (sf_make_free e b n past) :=
  (store e _ _).bind fun _ => (store e _ _).bind fun _ => (footer e _).bind fun _ =>
    put_in_free_list e _ _

theorem merge (b n : Nat) (past next : Nat × Bool × Nat) :
    Tame (sf_merge e b n past next) := by
  obtain ⟨p, pf, pn⟩ := past
  obtain ⟨q, qf, qn⟩ := next
  cases pf <;> cases qf
  · exact (put_in_free_list e _ _).bind fun _ => ret _
  · exact (remove e _).bind fun _ => (remove e _).bind fun _ =>
      (make_free e _ _ _).bind fun _ => ret _
  · exact (remove e _).bind fun _ => (remove e _).bind fun _ =>
      (make_free e _ _ _).bind fun _ => ret _
  · exact (remove e _).bind fun _ => (remove e _).bind fun _ => (remove e _).bind fun _ =>
      (make_free e _ _ _).bind fun _ => ret _

theorem coalesce (b n f : Nat) (large : Bool) : Tame (sf_coalesce e b n f large) :=
  get.bind fun _ => (ite (ret _) (probe e _)).bind fun _ =>
    (ite (ret _) (probe e _)).bind fun _ => merge e _ _ _ _

theorem flush_clear : ∀ room head, Tame (sf_flush_clear e room head)
  | 0, head => by
    show Tame (if head = NULL then pure [] else Sfmm.load e (headerOf head) >>= _)
    exact ite (ret _) ((load e _).bind fun _ =>
      (store e _ _).bind fun _ => (footer e _).bind fun _ => stop nofun)
  | room + 1, head => by
    show Tame (if head = NULL then pure [] else Sfmm.load e (headerOf head) >>= _)
    exact ite (ret _) ((load e _).bind fun _ =>
      (store e _ _).bind fun _ => (footer e _).bind fun _ =>
        (load e _).bind fun _ => (flush_clear room _).bind fun _ => ret _)

theorem flush_one (b : Nat) : Tame (sf_flush_one e b) :=
  (block_sz e _).bind fun _ => (load e _).bind fun _ => (coalesce e _ _ _ _).bind fun _ => ret _

theorem flush_quick_list (b i : Nat) : Tame (sf_flush_quick_list e b i) :=
  (getQuick _).bind fun _ => ite ((flush_clear e _ _).bind fun _ => (store e _ _).bind fun _ =>
    (setQuick _ _).bind fun _ => forEach (fun _ => flush_one e _) _) (ret _)

theorem put_in_quick_list (b n : Nat) : Tame (sf_put_in_quick_list e b n) := by
  unfold sf_put_in_quick_list
  cases quickIndex n with
  | none => exact ret _
  | some i =>
    refine Orderly.bind ?_ fun _ => ret _
    exact (getQuick _).bind fun _ => ite (flush_quick_list e _ _)
      (ite ((store e _ _).bind fun _ => setQuick _ _) ((store e _ _).bind fun _ => setQuick _ _))

theorem free_main (b n : Nat) (prev : Bool) : Tame (sf_free_main e b n prev) :=
  Orderly.bind ((load e _).bind fun _ => (store e _ _).bind fun _ => footer e _) fun _ =>
    (store e _ _).bind fun _ => (footer e _).bind fun _ => (load e _).bind fun _ =>
      (coalesce e _ _ _ _).bind fun _ => ret _

/-! ## `sf_malloc` -/

theorem mem_grow : Tame (sf_mem_grow e) := by
  constructor
  · intro s h
    unfold sf_mem_grow at h
    split at h <;> cases h
  · intro s r s' h
    unfold sf_mem_grow at h
    split at h <;> cases h
    · exact Nat.le_add_right _ _
    · exact Nat.le_refl _

theorem setErrno (n : Nat) : Tame (setErrno n) := modify fun _ => Nat.le_refl _

theorem setGlobalEnd (b : Nat) : Tame (setGlobalEnd b) := modify fun _ => Nat.le_refl _

theorem raiseEnd (b : Nat) : Tame (raiseGlobalEnd b) := modify fun _ => Nat.le_refl _

theorem init_first_page : Tame (sf_init_first_page e) :=
  Orderly.bind ((forEach (fun _ => setQuick _ _) _).bind fun _ =>
      forEach (fun _ => (store e _ _).bind fun _ => store e _ _) _) fun _ =>
    (mem_grow e).bind fun _ => (store e _ _).bind fun _ => (store e _ _).bind fun _ =>
      (store e _ _).bind fun _ => (setGlobalEnd _).bind fun _ =>
        (store e _ _).bind fun _ => (store e _ _).bind fun _ => store e _ _

theorem malloc_quick (m i : Nat) : Tame (sf_malloc_quick e m i) :=
  (getQuick _).bind fun _ => ite ((load e _).bind fun _ => ite ((setQuick _ _).bind fun _ =>
    (load e _).bind fun _ => (setQuick _ _).bind fun _ => ret _) (ret _)) (ret _)

theorem malloc_find (m head : Nat) : ∀ fuel cur, Tame (sf_malloc_find e m head fuel cur)
  | 0, _ => stop nofun
  | fuel + 1, _ => (load e _).bind fun x =>
      ite (ret _) ((load e _).bind fun _ => ite (ret _) (malloc_find m head fuel x))

theorem malloc_split (b n m : Nat) : Tame (sf_malloc_split e b n m) :=
  (store e _ _).bind fun _ => (store e _ _).bind fun _ => (footer e _).bind fun _ =>
    (load e _).bind fun _ => (load e _).bind fun _ => (store e _ _).bind fun _ =>
      (store e _ _).bind fun _ => (put_in_free_list e _ _).bind fun _ =>
        (store e _ _).bind fun _ => (raiseEnd _).bind fun _ => ret _

theorem malloc_exact (b : Nat) : Tame (sf_malloc_exact e b) :=
  (remove e _).bind fun _ => get.bind fun _ => (load e _).bind fun _ => (load e _).bind fun _ =>
    ite ((store e _ _).bind fun _ => (raiseEnd _).bind fun _ => ret _)
      ((store e _ _).bind fun _ => (raiseEnd _).bind fun _ => ret _)

theorem malloc_search (m : Nat) : Tame (sf_malloc_search e m) :=
  (firstSome (fun _ => malloc_quick e _ _) _).bind fun r => by
    cases r with
    | some p => exact ret _
    | none =>
      refine get.bind fun _ => (firstSome (fun _ => malloc_find e _ _ _ _) _).bind fun r => ?_
      cases r with
      | some p => exact (ite (malloc_split e _ _ _) (malloc_exact e _)).bind fun _ => ret _
      | none => exact ret _

theorem malloc_page (p : Nat) : Tame (sf_malloc_page e p) :=
  (store e _ _).bind fun _ => (footer e _).bind fun _ => (block_sz e _).bind fun _ =>
    (load e _).bind fun _ => (coalesce e _ _ _ _).bind fun _ => ret _

theorem malloc_pages (p : Nat) : ∀ fuel n, Tame (sf_malloc_pages e p fuel n)
  | 0, _ => stop nofun
  | fuel + 1, _ => ite (ret _) ((mem_grow e).bind fun _ =>
      ite ((setErrno _).bind fun _ => ret _)
        ((malloc_page e _).bind fun _ => malloc_pages p fuel _))

theorem malloc_grow (n : Nat) : Tame (sf_malloc_grow e n) :=
  get.bind fun _ => (load e _).bind fun _ => (store e _ _).bind fun _ => (store e _ _).bind fun _ =>
    (load e _).bind fun _ => malloc_pages e _ _ _

theorem malloc_main {again : Exec State Nat} (h : Tame again) (n : Nat) :
    Tame (sf_malloc_main e again n) := by
  unfold sf_malloc_main
  cases sf_malloc_round n with
  | none => exact stop nofun
  | some m =>
    refine (malloc_search e m).bind fun r => ?_
    cases r with
    | some p => exact ret _
    | none => exact (malloc_grow e n).bind fun _ => ite h (ret _)

theorem malloc : ∀ fuel n, Tame (sf_malloc e fuel n)
  | 0, _ => stop nofun
  | fuel + 1, n => ite (ret _) (ite ((setErrno _).bind fun _ => ret _) (get.bind fun _ => by
      dsimp only
      split
      · exact (init_first_page e).bind fun _ => malloc_main e (malloc fuel n) n
      · exact malloc_main e (malloc fuel n) n))

/-! ## `sf_realloc` -/

theorem memcpy : ∀ n dst src, Tame (memcpyWords e n dst src)
  | 0, _, _ => ret _
  | n + 1, _, _ => (load e _).bind fun _ => (store e _ _).bind fun _ => memcpy n _ _

theorem realloc_split (b size n : Nat) : Tame (sf_realloc_split e b size n) :=
  (store e _ _).bind fun _ => (store e _ _).bind fun _ => (footer e _).bind fun _ =>
    (load e _).bind fun _ => (load e _).bind fun _ => (store e _ _).bind fun _ =>
      (store e _ _).bind fun _ => (put_in_free_list e _ _).bind fun _ =>
        (store e _ _).bind fun _ => (raiseEnd _).bind fun _ => (load e _).bind fun _ =>
          (coalesce e _ _ _ _).bind fun _ => ret _

end Tame

end StarterProjects.Sfmm
