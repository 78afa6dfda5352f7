import Mathlib.Data.List.Induction
import Mathlib.Data.List.Nodup
import StarterProjects.Jeux.PlayerRegistry

/-!
# The names of the registered players

The registry is a map from names to players only as long as the lookup finds the names
that are there. It misses the name of the last of two or more nodes, and a name that does
not fit into its field is written past the end of it.

`unique_of_init`: a sequence of registrations keeps the names distinct and returns the
first player of a name again exactly when no name is too long and none is the name of the
last of two or more nodes.
-/

namespace StarterProjects.Jeux

open Lib Lib.Exec

def DistinctNames (w : World) : Prop := (w.pregState.nodes.map (nameOf w)).Nodup

/-- The names are registered one after the other; `seen` is what was returned for a name the
first time. A name that was seen returns that player and adds no node. -/
def Unique (seen : List (CString × PlayerPtr)) : List CString → World → Prop
  | [], w => DistinctNames w
  | name :: names, w => DistinctNames w ∧ Ends (preg_register name).run w fun r w' =>
      ∃ p, r = some p ∧
        if name ∈ seen.map Prod.fst then
          (name, p) ∈ seen ∧ w'.pregState.nodes = w.pregState.nodes ∧ Unique seen names w'
        else Unique (seen ++ [(name, p)]) names w'

/-- The name fits, and it is not the one name the lookup does not compare. -/
def Findable (name : CString) (w : World) : Prop :=
  name.length < NAME_MAX_LENGTH ∧ ∀ p ∈ w.pregState.nodes.getLast?,
    2 ≤ w.pregState.nodes.length → nameOf w p ≠ some name

def FindableRun : List CString → World → Prop
  | [], _ => True
  | name :: names, w => Findable name w ∧
      ∀ r w', (preg_register name).run w = .ok (r, w') → FindableRun names w'

/-- The registry holds the players that were returned, in order, under distinct names. -/
structure Roll (seen : List (CString × PlayerPtr)) (w : World) : Prop where
  free : w.pregState.registryLock = 1
  nodes : w.pregState.nodes = seen.map Prod.snd
  names : ∀ x ∈ seen, nameOf w x.2 = some x.1
  nodup : (seen.map Prod.fst).Nodup

namespace Roll

variable {seen : List (CString × PlayerPtr)} {w : World} {name : CString}

theorem live (h : Roll seen w) : AllLive w w.pregState.nodes := fun p hp => by
  rw [h.nodes] at hp
  obtain ⟨x, hx, rfl⟩ := List.mem_map.mp hp
  obtain ⟨X, hX, _⟩ := Option.map_eq_some_iff.mp (h.names x hx)
  exact ⟨X, hX⟩

theorem names_eq (h : Roll seen w) :
    w.pregState.nodes.map (nameOf w) = seen.map fun x => some x.1 := by
  rw [h.nodes, List.map_map]
  exact List.map_congr_left h.names

theorem distinct (h : Roll seen w) : DistinctNames w := by
  have hsome : (seen.map fun x => some x.1) = (seen.map Prod.fst).map some := by
    rw [List.map_map]
    rfl
  rw [DistinctNames, h.names_eq, hsome]
  exact h.nodup.map fun _ _ => Option.some.inj

/-- A player of the registry is known by one name. -/
theorem mem_iff (h : Roll seen w) {p : PlayerPtr} :
    (name, p) ∈ seen ↔ p ∈ w.pregState.nodes ∧ nameOf w p = some name := by
  rw [h.nodes]
  constructor
  · exact fun hp => ⟨List.mem_map_of_mem (f := Prod.snd) hp, h.names _ hp⟩
  · rintro ⟨hp, hname⟩
    obtain ⟨x, hx, rfl⟩ := List.mem_map.mp hp
    obtain rfl : x.1 = name := Option.some.inj ((h.names x hx).symm.trans hname)
    exact hx

/-- What the lookup finds was registered under that name. -/
theorem of_lookup (h : Roll seen w) {p : PlayerPtr}
    (hp : lookup (nameOf w) name w.pregState.nodes = some p) : (name, p) ∈ seen :=
  h.mem_iff.mpr (lookup_some hp)

/-- The lookup misses only the last of two or more nodes. -/
theorem missed (h : Roll seen w)
    (hn : lookup (nameOf w) name w.pregState.nodes = none) (hs : name ∈ seen.map Prod.fst) :
    ∃ p ∈ w.pregState.nodes.getLast?, 2 ≤ w.pregState.nodes.length ∧ nameOf w p = some name := by
  obtain ⟨x, hx, rfl⟩ := List.mem_map.mp hs
  obtain ⟨hp, hname⟩ := h.mem_iff.mp (show (x.1, x.2) ∈ seen from hx)
  have hnone := List.find?_eq_none.mp hn
  have hnot : x.2 ∉ compared w.pregState.nodes := fun hc =>
    hnone _ hc (decide_eq_true hname)
  generalize w.pregState.nodes = l at hp hnot
  cases l using List.reverseRecOn with
  | nil => cases hp
  | append_singleton l q _ =>
    cases l with
    | nil => exact absurd hp hnot
    | cons p l =>
      rw [compared_append (List.cons_ne_nil _ _)] at hnot
      have hq : x.2 = q := by
        rcases List.mem_append.mp hp with hp | hp
        · exact absurd hp hnot
        · exact List.mem_singleton.mp hp
      refine ⟨q, List.getLast?_concat, by simp, ?_⟩
      rw [← hq]
      exact hname

/-- The name of the last of two or more nodes is missed. -/
theorem lookup_last (h : Roll seen w) {p : PlayerPtr}
    (hp : p ∈ w.pregState.nodes.getLast?) (h2 : 2 ≤ w.pregState.nodes.length)
    (hname : nameOf w p = some name) : lookup (nameOf w) name w.pregState.nodes = none := by
  have hd := h.distinct
  unfold DistinctNames at hd
  generalize w.pregState.nodes = l at hp h2 hd
  obtain ⟨l, rfl⟩ := List.getLast?_eq_some_iff.mp hp
  have hl : l ≠ [] := by
    rintro rfl
    exact absurd h2 (show ¬ 2 ≤ 1 by decide)
  rw [lookup, compared_append hl]
  refine List.find?_eq_none.mpr fun q hq hc => ?_
  rw [List.map_append, List.map_singleton] at hd
  have hsame : nameOf w q = nameOf w p := (of_decide_eq_true hc).trans hname.symm
  exact (List.nodup_append.mp hd).2.2 _ (List.mem_map_of_mem hq) _ List.mem_cons_self hsame

/-- A player found again: nothing changes but the number of allocations. -/
theorem discarded (h : Roll seen w) : Roll seen (w.discarded name) where
  free := h.free
  nodes := h.nodes
  names := fun x hx => by
    have hp : x.2 ∈ w.pregState.nodes := (h.mem_iff.mp (show (x.1, x.2) ∈ seen from hx)).1
    exact (congrArg (Option.map _) (discarded_other (h.live.ne_next hp))).trans (h.names x hx)
  nodup := h.nodup

/-- A new name: its player is the last node. -/
theorem enrolled (h : Roll seen w) (hnew : name ∉ seen.map Prod.fst) :
    Roll (seen ++ [(name, w.playerHeap.next)]) (w.enrolled name) where
  free := h.free
  nodes := by
    rw [List.map_append, ← h.nodes]
    rfl
  names := fun x hx => by
    rcases List.mem_append.mp hx with hx | hx
    · have hp : x.2 ∈ w.pregState.nodes := (h.mem_iff.mp (show (x.1, x.2) ∈ seen from hx)).1
      exact (congrArg (Option.map _) (newPlayer_other (h.live.ne_next hp))).trans (h.names x hx)
    · cases List.mem_singleton.mp hx
      exact congrArg (Option.map _) newPlayer_same
  nodup := by
    rw [List.map_append, List.nodup_append]
    refine ⟨h.nodup, List.nodup_singleton _, fun a ha b hb hab => hnew ?_⟩
    obtain rfl : b = name := List.mem_singleton.mp hb
    exact hab ▸ ha

/-- The induction over the names. -/
theorem unique_iff : ∀ {names : List CString} {seen : List (CString × PlayerPtr)} {w : World},
    Roll seen w → (Unique seen names w ↔ FindableRun names w)
  | [], _, _, h => ⟨fun _ => trivial, fun _ => h.distinct⟩
  | name :: names, seen, w, h => by
    by_cases hlen : name.length < NAME_MAX_LENGTH
    · have hrun := preg_register_run hlen h.free h.live.met
      cases hq : lookup (nameOf w) name w.pregState.nodes with
      | some q =>
        rw [hq] at hrun
        have hmem := h.of_lookup hq
        have hs : name ∈ seen.map Prod.fst := List.mem_map_of_mem (f := Prod.fst) hmem
        have hfind : Findable name w := ⟨hlen, fun p hp h2 hname => by
          rw [h.lookup_last hp h2 hname] at hq
          cases hq⟩
        constructor
        · rintro ⟨_, hu⟩
          refine ⟨hfind, fun r w' hw => ?_⟩
          rw [hrun] at hw
          cases hw
          obtain ⟨p, -, hp⟩ := hu.apply hrun
          rw [if_pos hs] at hp
          exact (unique_iff h.discarded).mp hp.2.2
        · rintro ⟨_, hf⟩
          refine ⟨h.distinct, .of_eq hrun ⟨q, rfl, ?_⟩⟩
          rw [if_pos hs]
          exact ⟨hmem, rfl, (unique_iff h.discarded).mpr (hf _ _ hrun)⟩
      | none =>
        rw [hq] at hrun
        by_cases hs : name ∈ seen.map Prod.fst
        · -- the name of the last node: a second player is registered under it
          obtain ⟨p, hp, h2, hname⟩ := h.missed hq hs
          constructor
          · rintro ⟨_, hu⟩
            obtain ⟨q, hq', hu⟩ := hu.apply hrun
            rw [if_pos hs] at hu
            cases hq'
            have hmem := (h.mem_iff.mp hu.1).1
            exact absurd rfl (h.live.ne_next hmem)
          · exact fun hf => absurd hname (hf.1.2 p hp h2)
        · have hfind : Findable name w := ⟨hlen, fun p hp h2 hname => hs <| by
            have hmem := h.mem_iff.mpr ⟨List.mem_of_getLast? hp, hname⟩
            exact List.mem_map_of_mem (f := Prod.fst) hmem⟩
          constructor
          · rintro ⟨_, hu⟩
            refine ⟨hfind, fun r w' hw => ?_⟩
            rw [hrun] at hw
            cases hw
            obtain ⟨p, hp, hu⟩ := hu.apply hrun
            rw [if_neg hs] at hu
            cases hp
            exact (unique_iff (h.enrolled hs)).mp hu
          · rintro ⟨_, hf⟩
            refine ⟨h.distinct, .of_eq hrun ⟨_, rfl, ?_⟩⟩
            rw [if_neg hs]
            exact (unique_iff (h.enrolled hs)).mpr (hf _ _ hrun)
    · have hrun : (preg_register name).run w = .error .undefined :=
        Prog.run_bind_error (player_create_long hlen w)
      exact ⟨fun hu => absurd hrun (hu.2.ne_error _), fun hf => absurd hf.1.1 hlen⟩

end Roll

theorem Roll.of_empty {w : World} (hl : w.pregState.registryLock = 1)
    (hn : w.pregState.nodes = []) : Roll [] w where
  free := hl
  nodes := hn
  names := nofun
  nodup := List.nodup_nil

/-- Names stay distinct and are found again exactly when every registration is of a
findable name. -/
theorem unique_of_init (names : List CString) (w : World) :
    Ends preg_init.run w fun _ w' => Unique [] names w' ↔ FindableRun names w' :=
  .of_eq rfl (Roll.of_empty rfl rfl).unique_iff

/-- Two players, and the second one again. -/
theorem last_name_twice : ¬ Ends preg_init.run (World.initial fun _ => 0) fun _ w =>
    Unique [] ["ann".toList, "bob".toList, "bob".toList] w := by
  rintro ⟨_, w, hrun, hu⟩
  cases hrun
  have hf := (Roll.of_empty rfl rfl).unique_iff.mp hu
  exact ((hf.2 _ _ rfl).2 _ _ rfl).1.2 1 rfl (by decide) rfl

end StarterProjects.Jeux
