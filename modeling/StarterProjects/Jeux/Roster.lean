import Mathlib.Data.List.Count
import StarterProjects.Jeux.Directory
import StarterProjects.Lib.Terminated

/-!
# The array of all players

`creg_all_players` writes the player of every node into an array of `clientCount + 1` places,
NULL for a client that is not logged in, and NULL into the last place. The caller reads up to the
first NULL. The number of nodes is not `clientCount` once a client has left, and every call gives
up a reference for each entry: `roster_iff` says when the caller sees the players that it should.
-/

namespace StarterProjects.Jeux

open Lib Lib.Exec

/-- What `client_get_player` returns for the nodes, in order. -/
def entries (w : World) (nodes : List ClientPtr) : List (Option PlayerPtr) :=
  nodes.map w.clientPlayer

/-- The array has a NULL, and up to the first one it holds the players of the clients that are
logged in, in the order of the registry. -/
def ListsPlayers (w : World) (player_array : List (Option PlayerPtr)) : Prop :=
  none ∈ player_array ∧
    Terminated.read player_array = Terminated.present (entries w w.cregState.nodes)

/-- The players whose references are given up: each is there, and is not freed before its last
turn. -/
def Referenced (w : World) (values : List (Option PlayerPtr)) : Prop :=
  ∀ p, some p ∈ values → ∃ X, (player p).get w = some X ∧
    (X.refCount ≤ 0 ∨ (values.count (some p) : Int) ≤ X.refCount)

/-- No player that is there is locked. -/
def Unlocked (w : World) : Prop := ∀ p X, (player p).get w = some X → X.playerLock = 1

/-- When the array is right: there is a node, the nodes fit, the clients that are logged in come
first, and nothing unwritten is read. -/
structure Listable (w : World) : Prop where
  some_node : w.cregState.nodes ≠ []
  fits : (w.cregState.nodes.length : Int) ≤ w.cregState.clientCount + 1
  packed : Terminated.Packed (entries w w.cregState.nodes)
  ends : none ∈ entries w w.cregState.nodes ∨
    (w.cregState.nodes.length : Int) = w.cregState.clientCount
  referenced : Referenced w (entries w w.cregState.nodes)

/-! ## Giving up the references -/

section Unref

variable {w w' : World} {p : PlayerPtr} {X : Player} {values : List (Option PlayerPtr)}

/-- What one `player_unref` leaves. -/
theorem player_unref_step (hX : (player p).get w = some X) (hl : X.playerLock = 1) :
    ∃ w', (player_unref (some p)).run w = .ok ((), w') ∧
      w'.cregState = w.cregState ∧ w'.clientPlayer = w.clientPlayer ∧
      (∀ q, q ≠ p → (player q).get w' = (player q).get w) ∧
      (player p).get w' =
        if X.refCount = 1 then none else some { X with refCount := X.refCount - 1 } := by
  have hrun := player_unref_run hX hl
  split at hrun
  · next hlast =>
    refine ⟨_, hrun, rfl, rfl, fun q hq => ?_, ?_⟩
    · exact (Heap.free_other _ hq).trans (player_set_other hq)
    · rw [if_pos hlast]
      exact Heap.free_same _ _
  · next hmore =>
    refine ⟨_, hrun, rfl, rfl, fun q hq => player_set_other hq, ?_⟩
    rw [if_neg hmore]
    exact Obj.get_set _ hX

theorem referenced_cons_none : Referenced w (none :: values) ↔ Referenced w values := by
  have hmem : ∀ p, some p ∈ none :: values ↔ some p ∈ values := fun p => by simp
  have hcount : ∀ p : PlayerPtr, (none :: values).count (some p) = values.count (some p) :=
    fun p => List.count_cons_of_ne (Option.some_ne_none p).symm
  simp only [Referenced, hmem, hcount]

/-- One reference less and one entry less. -/
theorem referenced_cons_some (hX : (player p).get w = some X)
    (hother : ∀ q, q ≠ p → (player q).get w' = (player q).get w)
    (hsame : (player p).get w' =
      if X.refCount = 1 then none else some { X with refCount := X.refCount - 1 }) :
    Referenced w (some p :: values) ↔ Referenced w' values := by
  have hcount : (some p :: values).count (some p) = values.count (some p) + 1 :=
    List.count_cons_self
  have hcount' : ∀ q, q ≠ p → (some p :: values).count (some q) = values.count (some q) :=
    fun q hq => List.count_cons_of_ne fun he => hq (Option.some.inj he).symm
  constructor
  · intro h q hq
    obtain ⟨Y, hY, hrefs⟩ := h q (List.mem_cons_of_mem _ hq)
    rcases eq_or_ne q p with rfl | hne
    · cases hX.symm.trans hY
      have hpos := List.count_pos_iff.mpr hq
      rw [hcount] at hrefs
      rw [if_neg (by omega)] at hsame
      refine ⟨_, hsame, ?_⟩
      dsimp only
      omega
    · exact ⟨Y, (hother q hne).trans hY, by rwa [hcount' q hne] at hrefs⟩
  · intro h q hq
    rcases eq_or_ne q p with rfl | hne
    · refine ⟨X, hX, ?_⟩
      rw [hcount]
      by_cases hmem : some q ∈ values
      · obtain ⟨Y, hY, hrefs⟩ := h q hmem
        rw [hsame] at hY
        split at hY
        · cases hY
        · cases hY
          dsimp only at hrefs
          omega
      · rw [List.count_eq_zero_of_not_mem hmem]
        omega
    · have hmem : some q ∈ values := by
        simpa [hne] using hq
      obtain ⟨Y, hY, hrefs⟩ := h q hmem
      exact ⟨Y, (hother q hne).symm.trans hY, by rwa [hcount' q hne]⟩

end Unref

/-! ## Filling the array -/

section Fill

variable {w : World}

theorem Unlocked.step {w' : World} {p : PlayerPtr} {X : Player} (h : Unlocked w)
    (hX : (player p).get w = some X)
    (hother : ∀ q, q ≠ p → (player q).get w' = (player q).get w)
    (hsame : (player p).get w' =
      if X.refCount = 1 then none else some { X with refCount := X.refCount - 1 }) :
    Unlocked w' := by
  intro q Y hY
  rcases eq_or_ne q p with rfl | hne
  · rw [hsame] at hY
    split at hY
    · cases hY
    · cases hY
      exact h q X hX
  · exact h q Y ((hother q hne).symm.trans hY)

theorem set_take_drop {β : Type} {array : List β} {count : Nat} (b : β)
    (h : count < array.length) :
    (array.set count b).take (count + 1) = array.take count ++ [b] ∧
      ∀ n, (array.set count b).drop (count + 1 + n) = array.drop (count + 1 + n) := by
  have hlen : (array.take count).length = count := List.length_take_of_le (Nat.le_of_lt h)
  have hset : array.set count b = array.take count ++ [b] ++ array.drop (count + 1) := by
    rw [List.set_eq_take_append_cons_drop, if_pos h, List.append_assoc]
    rfl
  have hfront : (array.take count ++ [b]).length = count + 1 := by
    rw [List.length_append, hlen, List.length_singleton]
  refine ⟨?_, fun n => ?_⟩
  · rw [hset, List.take_left' hfront]
  · rw [hset, ← List.drop_drop, List.drop_left' hfront, List.drop_drop]

/-- The loop fills the array, unless a player that it comes to is not there any more. -/
theorem creg_fill_run : ∀ (nodes : List ClientPtr) {count : Nat}
    {player_array : List (Option PlayerPtr)} {w : World}, Unlocked w →
    count + nodes.length ≤ player_array.length →
    (Referenced w (entries w nodes) → ∃ w', w'.cregState = w.cregState ∧
      (creg_fill count nodes player_array).run w = .ok (player_array.take count ++
        entries w nodes ++ player_array.drop (count + nodes.length), w')) ∧
    (¬ Referenced w (entries w nodes) →
      (creg_fill count nodes player_array).run w = .error .undefined)
  | [], count, player_array, w, _, _ => by
    refine ⟨fun _ => ⟨w, rfl, ?_⟩, fun h => absurd (fun p hp => absurd hp List.not_mem_nil) h⟩
    rw [entries, List.map_nil, List.append_nil, List.length_nil, Nat.add_zero,
      List.take_append_drop]
    rfl
  | c :: rest, count, player_array, w, hunlocked, hfits => by
    rw [List.length_cons] at hfits
    have hroom : count < player_array.length := by omega
    have hfits' : count + 1 + rest.length ≤ (player_array.set count (w.clientPlayer c)).length := by
      rw [List.length_set]
      omega
    obtain ⟨htake, hdrop⟩ := set_take_drop (w.clientPlayer c) hroom
    have hcount : count + (rest.length + 1) = count + 1 + rest.length := by omega
    have hentries : entries w (c :: rest) = w.clientPlayer c :: entries w rest := rfl
    rw [creg_fill, if_pos hroom, Prog.run_bind_ok (Prog.ask_run _ _), hentries,
      List.length_cons, hcount]
    -- a client that is not logged in puts NULL in its place
    cases hc : w.clientPlayer c with
    | none =>
      obtain ⟨hok, hbad⟩ := creg_fill_run rest hunlocked (hc ▸ hfits')
      rw [hc] at htake hdrop
      rw [htake, hdrop] at hok
      rw [referenced_cons_none]
      refine ⟨fun h => ?_, hbad⟩
      obtain ⟨w', hsame, hrun⟩ := hok h
      refine ⟨w', hsame, Eq.trans hrun ?_⟩
      rw [List.append_assoc, List.append_assoc, List.append_assoc]
      rfl
    | some p =>
      rw [hc] at htake hdrop hfits'
      cases hX : (player p).get w with
      | none =>
        refine ⟨fun h => ?_, fun _ => Prog.run_bind_error (player_unref_dead hX)⟩
        obtain ⟨X, hX', -⟩ := h p List.mem_cons_self
        cases hX.symm.trans hX'
      | some X =>
        obtain ⟨w₁, hunref, hcreg, hplayers, hother, hsame⟩ :=
          player_unref_step hX (hunlocked p X hX)
        have hentries₁ : entries w₁ rest = entries w rest := by rw [entries, hplayers, entries]
        obtain ⟨hok, hbad⟩ := creg_fill_run rest (hunlocked.step hX hother hsame) hfits'
        rw [htake, hdrop, hentries₁] at hok
        rw [hentries₁] at hbad
        rw [referenced_cons_some hX hother hsame, Prog.run_bind_ok hunref]
        refine ⟨fun h => ?_, hbad⟩
        obtain ⟨w', hcreg', hrun⟩ := hok h
        refine ⟨w', hcreg'.trans hcreg, Eq.trans hrun ?_⟩
        rw [List.append_assoc, List.append_assoc, List.append_assoc]
        rfl

/-- More nodes than places. -/
theorem creg_fill_short : ∀ (nodes : List ClientPtr) {count : Nat}
    {player_array : List (Option PlayerPtr)} {w : World}, count ≤ player_array.length →
    player_array.length < count + nodes.length →
    ∀ r, (creg_fill count nodes player_array).run w ≠ .ok r
  | [], count, player_array, w, hle, hlt => by
    rw [List.length_nil] at hlt
    omega
  | c :: rest, count, player_array, w, hle, hlt => by
    rintro ⟨arr, w'⟩ hrun
    rw [List.length_cons] at hlt
    rw [creg_fill] at hrun
    split at hrun
    · next hroom =>
      rw [Prog.run_bind_ok (Prog.ask_run _ _)] at hrun
      obtain ⟨_, w₁, -, hrest⟩ := Prog.run_bind_inv hrun
      refine creg_fill_short rest ?_ ?_ _ hrest
      · rw [List.length_set]
        omega
      · rw [List.length_set]
        omega
    · cases hrun

end Fill

/-! ## The array -/

section Array

variable {w : World}

/-- The new array holds what happened to be there. -/
def unwritten (storage : Nat → Option PlayerPtr) (size : Nat) : List (Option PlayerPtr) :=
  (List.range size).map storage

theorem creg_all_players_empty (storage : Nat → Option PlayerPtr)
    (hl : w.cregState.registryLock = 1) (hn : w.cregState.nodes = [])
    (hsize : 0 ≤ w.cregState.clientCount + 1) :
    (creg_all_players storage).run w =
      .ok (unwritten storage (w.cregState.clientCount + 1).toNat, w) := by
  rw [creg_all_players, critical (creg_get w) hl]
  show (if w.cregState.clientCount + 1 < 0 then _
    else if w.cregState.nodes = [] then _ else _ : Prog World _).run _ = _
  rw [if_neg (Int.not_lt.mpr hsize), if_pos hn, set_V (creg_get w), registryLock.reopen hl,
    Obj.set_get _ (creg_get w)]
  rfl

theorem creg_all_players_negative (storage : Nat → Option PlayerPtr)
    (hl : w.cregState.registryLock = 1)
    (hsize : w.cregState.clientCount + 1 < 0) :
    (creg_all_players storage).run w = .error .abort := by
  rw [creg_all_players, critical (creg_get w) hl]
  show (if w.cregState.clientCount + 1 < 0 then _ else _ : Prog World _).run _ = _
  rw [if_pos hsize]
  rfl

/-- The array with NULL in its last place. -/
theorem set_last {β : Type} {array : List β} {size : Nat} (b : β)
    (h : array.length = size + 1) : array.set size b = array.take size ++ [b] := by
  rw [List.set_eq_take_append_cons_drop, if_pos (by omega), List.drop_of_length_le (by omega)]

section Nodes

variable (storage : Nat → Option PlayerPtr) (hl : w.cregState.registryLock = 1)
  (hunlocked : Unlocked w) (hn : w.cregState.nodes ≠ [])

include hl hunlocked hn

theorem creg_all_players_run {size : Nat} (hsize : w.cregState.clientCount = size)
    (hfits : w.cregState.nodes.length ≤ size + 1)
    (href : Referenced w (entries w w.cregState.nodes)) :
    ∃ w', (creg_all_players storage).run w = .ok ((entries w w.cregState.nodes ++
      (unwritten storage (size + 1)).drop w.cregState.nodes.length).take size ++ [none], w') := by
  have hlen : (unwritten storage (size + 1)).length = size + 1 := by
    rw [unwritten, List.length_map, List.length_range]
  have hplaces : (w.cregState.clientCount + 1).toNat = size + 1 := by omega
  have hlocked : Unlocked (creg.set (registryLock.put 0 w.cregState) w) := hunlocked
  have hfits' : 0 + w.cregState.nodes.length ≤ (unwritten storage (size + 1)).length := by omega
  obtain ⟨w', hcreg, hfill⟩ := (creg_fill_run w.cregState.nodes hlocked hfits').1 href
  rw [List.take_zero, List.nil_append, Nat.zero_add] at hfill
  have hget : creg.get w' = some (registryLock.put 0 w.cregState) := congrArg some hcreg
  refine ⟨creg.set (registryLock.put 1 w.cregState) w', ?_⟩
  rw [creg_all_players, critical (creg_get w) hl]
  show (if w.cregState.clientCount + 1 < 0 then _
    else if w.cregState.nodes = [] then _
    else creg_fill 0 w.cregState.nodes (unwritten storage (w.cregState.clientCount + 1).toNat) >>=
      fun player_array => if 0 ≤ w.cregState.clientCount then _ else _ : Prog World _).run _ = _
  have hlast : (registryLock.put 0 w.cregState).clientCount.toNat = size := by
    show w.cregState.clientCount.toNat = size
    omega
  rw [if_neg (by omega), if_neg hn, hplaces, Prog.run_bind_ok hfill, if_pos (by omega),
    V_then hget, hlast]
  refine congrArg (fun a => Except.ok (a, _)) (set_last none ?_)
  rw [List.length_append, entries, List.length_map, List.length_drop, hlen]
  omega

/-- Without room for all nodes, or with a player that is gone, there is no array. -/
theorem creg_all_players_fails
    (h : ¬ ((w.cregState.nodes.length : Int) ≤ w.cregState.clientCount + 1 ∧
      Referenced w (entries w w.cregState.nodes))) :
    ∀ r, (creg_all_players storage).run w ≠ .ok r := by
  rintro ⟨array, w'⟩ hrun
  have hlocked : Unlocked (creg.set (registryLock.put 0 w.cregState) w) := hunlocked
  rw [creg_all_players, critical (creg_get w) hl] at hrun
  have hrun : (if w.cregState.clientCount + 1 < 0 then Prog.stop .abort
    else if w.cregState.nodes = [] then _
    else creg_fill 0 w.cregState.nodes (unwritten storage (w.cregState.clientCount + 1).toNat) >>=
      fun player_array => _ : Prog World _).run _ = _ := hrun
  split at hrun
  · cases hrun
  · next hneg =>
    obtain ⟨array', w₁, hfill, -⟩ := Prog.run_bind_inv hrun
    have hlen : (unwritten storage (w.cregState.clientCount + 1).toNat).length =
        (w.cregState.clientCount + 1).toNat := by
      rw [unwritten, List.length_map, List.length_range]
    rcases Nat.lt_or_ge (w.cregState.clientCount + 1).toNat w.cregState.nodes.length with hlt | hge
    · refine creg_fill_short w.cregState.nodes (Nat.zero_le _) ?_ _ hfill
      omega
    · have href : ¬ Referenced w (entries w w.cregState.nodes) := fun href => h ⟨by omega, href⟩
      have hroom : 0 + w.cregState.nodes.length ≤
          (unwritten storage (w.cregState.clientCount + 1).toNat).length := by omega
      have hdead := (creg_fill_run w.cregState.nodes hlocked hroom).2 href
      rw [hdead] at hfill
      cases hfill

end Nodes

end Array

/-- Every list of this length can be what is behind the written places. -/
theorem exists_storage {rest : List (Option PlayerPtr)} {count size : Nat}
    (h : count + rest.length = size) : ∃ storage, (unwritten storage size).drop count = rest := by
  refine ⟨fun i => rest.getD (i - count) none, ?_⟩
  apply List.ext_getElem
  · rw [List.length_drop, unwritten, List.length_map, List.length_range]
    omega
  · intro i h₁ h₂
    simp [unwritten, h₂]

/-- The caller sees the players exactly when the registry is listable. -/
theorem roster_iff (w : World) (hl : w.cregState.registryLock = 1) (hunlocked : Unlocked w) :
    (∀ storage, Ends (creg_all_players storage).run w fun player_array _ =>
      ListsPlayers w player_array) ↔ Listable w := by
  by_cases hn : w.cregState.nodes = []
  · refine iff_of_false (fun h => ?_) fun h => h.some_node hn
    obtain ⟨array, w', hrun, hnone, -⟩ := h fun _ => some 0
    by_cases hsize : 0 ≤ w.cregState.clientCount + 1
    · rw [creg_all_players_empty _ hl hn hsize] at hrun
      cases hrun
      obtain ⟨i, -, hi⟩ := List.mem_map.mp hnone
      cases hi
    · rw [creg_all_players_negative _ hl (Int.not_le.mp hsize)] at hrun
      cases hrun
  by_cases hok : (w.cregState.nodes.length : Int) ≤ w.cregState.clientCount + 1 ∧
      Referenced w (entries w w.cregState.nodes)
  · obtain ⟨hfits, href⟩ := hok
    have hpos := List.length_pos_iff.mpr hn
    obtain ⟨size, hsize⟩ : ∃ size : Nat, w.cregState.clientCount = size :=
      Int.eq_ofNat_of_zero_le (by omega)
    have hcount : (entries w w.cregState.nodes).length = w.cregState.nodes.length :=
      List.length_map _
    have hroom : (entries w w.cregState.nodes).length ≤ size + 1 := by omega
    have hread := Terminated.read_filled_iff (entries w w.cregState.nodes) hroom
    rw [hcount] at hread
    constructor
    · intro h
      obtain ⟨hpacked, hends⟩ := hread.mp fun rest hrest => by
        rw [List.length_append, hcount] at hrest
        obtain ⟨storage, hstorage⟩ := exists_storage hrest
        obtain ⟨w', hrun⟩ := creg_all_players_run storage hl hunlocked hn hsize
          (by omega) href
        rw [hstorage] at hrun
        exact ((h storage).apply hrun).2
      exact ⟨hn, hfits, hpacked, hends.imp_right fun h => by omega, href⟩
    · intro h storage
      obtain ⟨w', hrun⟩ := creg_all_players_run storage hl hunlocked hn hsize
        (by omega) href
      refine .of_eq hrun ⟨List.mem_append_right _ (List.mem_singleton_self none), ?_⟩
      refine hread.mpr ⟨h.packed, h.ends.imp_right fun h => by omega⟩ _ ?_
      rw [List.length_append, hcount, List.length_drop, unwritten, List.length_map,
        List.length_range]
      omega
  · refine iff_of_false (fun h => ?_) fun h => hok ⟨h.fits, h.referenced⟩
    obtain ⟨array, w', hrun, -⟩ := h fun _ => none
    exact creg_all_players_fails _ hl hunlocked hn hok _ hrun

theorem lobby_unlocked (nodes : List ClientPtr) : Unlocked (lobby nodes) := by
  intro p X hX
  have hX : (if p = 0 then some (Player.created ['a', 'n', 'n']) else none) = some X := hX
  split at hX
  · cases hX
    rfl
  · cases hX

theorem lobby_referenced {nodes : List ClientPtr} {values : List (Option PlayerPtr)}
    (h : ∀ x ∈ values, x = none ∨ x = some 0) (hone : values.count (some 0) ≤ 1) :
    Referenced (lobby nodes) values := by
  intro p hp
  obtain rfl : p = 0 := Option.some.inj ((h _ hp).resolve_left (Option.some_ne_none p))
  refine ⟨_, rfl, Or.inr ?_⟩
  show (values.count (some 0) : Int) ≤ 1
  exact_mod_cast hone

theorem roster_iff_sample : Ends (creg_all_players fun _ => none).run (lobby [1, 0])
    fun player_array _ => ListsPlayers (lobby [1, 0]) player_array := by
  refine (roster_iff (lobby [1, 0]) rfl (lobby_unlocked _)).mpr ⟨nofun, by decide, ?_, ?_, ?_⟩ _
  · show ∀ x ∈ [none], x = none
    decide
  · exact Or.inl (by decide)
  · exact lobby_referenced (by decide) (by decide)

/-- The client in front of `ann` is not logged in: the list seems to be empty. -/
theorem roster_hidden : ¬ ∀ storage, Ends (creg_all_players storage).run (lobby [0, 1])
    fun player_array _ => ListsPlayers (lobby [0, 1]) player_array := by
  intro h
  have hsize : (lobby [0, 1]).cregState.clientCount = (2 : Nat) := rfl
  obtain ⟨w', hrun⟩ := creg_all_players_run (fun _ => none) rfl (lobby_unlocked [0, 1]) nofun hsize
    (by decide) (lobby_referenced (by decide) (by decide))
  exact absurd ((h fun _ => none).apply hrun).2 (by decide)

end StarterProjects.Jeux
