import StarterProjects.Jeux.ClientRegistry

/-!
# What the loops over the clients need

`creg_lookup` compares the names of the players that the clients are logged in as, and
`creg_all_players` drops a reference of each of them. Neither looks whether a client is
logged in, whether its player is still there, or whether the array is long enough.

`creg_lookup_returns` and `creg_all_players_returns` say in which states of the registry,
its lock free, the two functions return.
-/

namespace StarterProjects.Jeux

open Lib Lib.Exec

section Lookup

variable {w : World} {user : CString}

/-- Every node is of a client that is logged in as a live player, up to the first one of
this name. -/
def Searchable (w : World) (user : CString) : List ClientPtr → Prop
  | [] => True
  | c :: rest => ∃ p X, w.clientPlayer c = some p ∧ (player p).get w = some X ∧
      (X.playerName = user ∨ Searchable w user rest)

theorem creg_compare {c : ClientPtr} {p : PlayerPtr} {X : Player}
    {k : Bool → Prog World (Option ClientPtr)}
    (hc : w.clientPlayer c = some p) (hX : (player p).get w = some X) :
    (do let tempPlayer ← Prog.ask fun w => w.clientPlayer c
        k (← strcmp_eq (← player_get_name tempPlayer) user) : Prog World _).run w =
      (k (decide (X.playerName = user))).run w := by
  rw [Prog.run_bind_ok (Prog.ask_run _ _)]
  show (player_get_name (w.clientPlayer c) >>= _).run w = _
  rw [hc, player_get_name, Prog.bind_assoc, read_then hX]
  rfl

/-- The client is not logged in, or its player was freed. -/
theorem creg_compare_dead {c : ClientPtr} {k : Bool → Prog World (Option ClientPtr)}
    (h : ∀ p, w.clientPlayer c = some p → (player p).get w = none) :
    (do let tempPlayer ← Prog.ask fun w => w.clientPlayer c
        k (← strcmp_eq (← player_get_name tempPlayer) user) : Prog World _).run w =
      .error .undefined := by
  rw [Prog.run_bind_ok (Prog.ask_run _ _)]
  show (player_get_name (w.clientPlayer c) >>= _).run w = _
  cases hc : w.clientPlayer c with
  | none => rfl
  | some p =>
    rw [player_get_name, Prog.bind_assoc]
    exact Prog.run_bind_error (read_dead (h p hc))

/-- The turn of a client. -/
theorem creg_turn_returns {c : ClientPtr} {k : Bool → Prog World (Option ClientPtr)}
    (hfound : Returns (k true).run w) :
    Returns (do
      let tempPlayer ← Prog.ask fun w => w.clientPlayer c
      k (← strcmp_eq (← player_get_name tempPlayer) user) : Prog World _).run w ↔
      ∃ p X, w.clientPlayer c = some p ∧ (player p).get w = some X ∧
        (X.playerName = user ∨ Returns (k false).run w) := by
  by_cases hdead : ∀ p, w.clientPlayer c = some p → (player p).get w = none
  · refine iff_of_false (Returns.not_of_error (creg_compare_dead hdead)) ?_
    rintro ⟨p, X, hc, hX, -⟩
    rw [hdead p hc] at hX
    cases hX
  · push Not at hdead
    obtain ⟨p, hc, hlive⟩ := hdead
    obtain ⟨X, hX⟩ := Option.ne_none_iff_exists'.mp hlive
    refine (Returns.congr (creg_compare hc hX)).trans ?_
    by_cases hn : X.playerName = user
    · rw [decide_eq_true hn]
      exact iff_of_true hfound ⟨p, X, hc, hX, .inl hn⟩
    · rw [decide_eq_false hn]
      constructor
      · exact fun h => ⟨p, X, hc, hX, .inr h⟩
      · rintro ⟨p', X', hc', hX', hor⟩
        cases hc.symm.trans hc'
        cases hX.symm.trans hX'
        exact hor.resolve_left hn

theorem creg_leave_returns {α : Type} (a : α) :
    Returns (V creg registryLock >>= fun _ => Prog.ret a).run w :=
  .of_eq (Prog.run_bind_ok (V_run (creg_get w)))

theorem creg_search_returns : ∀ nodes : List ClientPtr,
    Returns (creg_search user nodes).run w ↔ Searchable w user nodes
  | [] => iff_of_true (creg_leave_returns none) trivial
  | c :: rest => by
    rw [creg_search, Searchable]
    refine (creg_turn_returns (creg_leave_returns (some c))).trans ?_
    show (∃ p X, _ ∧ _ ∧ (_ ∨ Returns (creg_search user rest).run w)) ↔ _
    rw [creg_search_returns rest]

theorem searchable_set {r : ClientRegistry} : ∀ {nodes : List ClientPtr},
    Searchable (creg.set r w) user nodes ↔ Searchable w user nodes
  | [] => Iff.rfl
  | c :: rest => by
    unfold Searchable
    rw [searchable_set]
    exact Iff.rfl

/-- The first node is compared once more in the loop. -/
theorem creg_lookup_returns (hl : w.cregState.registryLock = 1) :
    Returns (creg_lookup user).run w ↔ Searchable w user w.cregState.nodes := by
  rw [creg_lookup]
  refine (Returns.congr (critical (creg_get w) hl)).trans ?_
  show Returns (match w.cregState.nodes with
    | [] => _
    | c :: rest => _ : Prog World _).run _ ↔ _
  cases hn : w.cregState.nodes with
  | nil => exact iff_of_true (.of_eq rfl) trivial
  | cons c rest =>
    refine (creg_turn_returns (creg_leave_returns (some c))).trans ?_
    show (∃ p X, _ ∧ _ ∧ (_ ∨ Returns (creg_search user (c :: rest)).run _)) ↔ _
    rw [creg_search_returns, searchable_set]
    constructor
    · rintro ⟨p, X, hc, hX, hn | hs⟩
      · exact ⟨p, X, hc, hX, .inl hn⟩
      · exact hs
    · intro hs
      obtain ⟨p, X, hc, hX, -⟩ := id hs
      exact ⟨p, X, hc, hX, .inr hs⟩

end Lookup

section AllPlayers

variable {w : World} {c : ClientPtr} {clients : List ClientPtr}

/-- How many of the clients are logged in as this player. -/
def logins (w : World) (clients : List ClientPtr) (p : PlayerPtr) : Int :=
  clients.countP fun c => w.clientPlayer c = some p

/-- Each client that is logged in has a live player, and no player is freed before the last
of its clients was there. A count that is not positive is lowered without end. -/
def Droppable (w : World) (clients : List ClientPtr) : Prop :=
  ∀ c ∈ clients, ∀ p, w.clientPlayer c = some p →
    ∃ X, (player p).get w = some X ∧ (X.refCount ≤ 0 ∨ logins w clients p ≤ X.refCount)

/-- The players of the clients have their locks free. -/
def FreePlayers (w : World) (clients : List ClientPtr) : Prop :=
  ∀ c ∈ clients, ∀ p X, w.clientPlayer c = some p → (player p).get w = some X → X.playerLock = 1

theorem logins_cons_same {p : PlayerPtr} (h : w.clientPlayer c = some p) :
    logins w (c :: clients) p = logins w clients p + 1 := by
  rw [logins, List.countP_cons, if_pos (decide_eq_true h)]
  rfl

theorem logins_cons_other {p : PlayerPtr} (h : w.clientPlayer c ≠ some p) :
    logins w (c :: clients) p = logins w clients p := by
  rw [logins, List.countP_cons, if_neg (fun hd => h (of_decide_eq_true hd))]
  rfl

theorem logins_pos {p : PlayerPtr} (hc : c ∈ clients) (h : w.clientPlayer c = some p) :
    1 ≤ logins w clients p := by
  have hpos : 0 < clients.countP fun c => w.clientPlayer c = some p :=
    List.countP_pos_iff.mpr ⟨c, hc, decide_eq_true h⟩
  unfold logins
  omega

theorem droppable_cons_none (h : w.clientPlayer c = none) :
    Droppable w (c :: clients) ↔ Droppable w clients := by
  have hsame : ∀ p, logins w (c :: clients) p = logins w clients p := fun p =>
    logins_cons_other (by rw [h]; exact nofun)
  unfold Droppable
  simp only [hsame, List.forall_mem_cons, h, reduceCtorEq, false_implies, implies_true, true_and]

/-- `w'` is `w` with one reference of `p` dropped. -/
structure Dropped (p : PlayerPtr) (X : Player) (w w' : World) : Prop where
  clients : w'.clientPlayer = w.clientPlayer
  other : ∀ q, q ≠ p → (player q).get w' = (player q).get w
  same : (player p).get w' =
    if X.refCount = 1 then none else some { X with refCount := X.refCount - 1 }

theorem player_unref_dropped {p : PlayerPtr} {X : Player} (hX : (player p).get w = some X)
    (hl : X.playerLock = 1) :
    ∃ w', (player_unref (some p)).run w = .ok ((), w') ∧ Dropped p X w w' := by
  rw [player_unref_run hX hl]
  split
  · next h1 =>
    refine ⟨_, rfl, rfl, fun q hq => ?_, ?_⟩
    · exact (Heap.free_other _ hq).trans (player_set_other hq)
    · rw [if_pos h1]
      exact Heap.free_same _ _
  · next h1 =>
    refine ⟨_, rfl, rfl, fun q hq => player_set_other hq, ?_⟩
    rw [if_neg h1]
    exact (player p).get_set hX

theorem Dropped.logins_eq {p : PlayerPtr} {X : Player} {w' : World} (h : Dropped p X w w')
    (q : PlayerPtr) : logins w' clients q = logins w clients q := by
  unfold logins
  rw [h.clients]

theorem Dropped.freePlayers {p : PlayerPtr} {X : Player} {w' : World} (h : Dropped p X w w')
    (hX : (player p).get w = some X) (hl : X.playerLock = 1) (hw : FreePlayers w clients) :
    FreePlayers w' clients := fun c hc q Y hq hY => by
  rw [h.clients] at hq
  rcases eq_or_ne q p with rfl | hne
  · rw [h.same] at hY
    split at hY
    · cases hY
    · cases hY
      exact hl
  · rw [h.other q hne] at hY
    exact hw c hc q Y hq hY

/-- One reference is dropped, and one client less is to come. -/
theorem Dropped.droppable_cons {p : PlayerPtr} {X : Player} {w' : World} (h : Dropped p X w w')
    (hX : (player p).get w = some X) (hc : w.clientPlayer c = some p) :
    Droppable w (c :: clients) ↔ Droppable w' clients := by
  constructor
  · intro hd d hdm q hq
    rw [h.clients] at hq
    obtain ⟨Y, hY, hcount⟩ := hd d (List.mem_cons_of_mem _ hdm) q hq
    rw [h.logins_eq]
    rcases eq_or_ne q p with rfl | hne
    · cases hX.symm.trans hY
      have hpos := logins_pos hdm hq
      rw [logins_cons_same hc] at hcount
      rw [h.same, if_neg (by omega)]
      exact ⟨_, rfl, show X.refCount - 1 ≤ 0 ∨ _ ≤ X.refCount - 1 by omega⟩
    · rw [logins_cons_other (by rw [hc]; exact fun he => hne (Option.some.inj he).symm)] at hcount
      rw [h.other q hne]
      exact ⟨Y, hY, hcount⟩
  · intro hd d hdm q hq
    by_cases hmem : ∃ e ∈ clients, w.clientPlayer e = some q
    · obtain ⟨e, he, heq⟩ := hmem
      obtain ⟨Y, hY, hcount⟩ := hd e he q (by rw [h.clients]; exact heq)
      rw [h.logins_eq] at hcount
      rcases eq_or_ne q p with rfl | hne
      · have hpos := logins_pos he heq
        rw [h.same] at hY
        split at hY
        · cases hY
        · cases hY
          have hcount' : X.refCount - 1 ≤ 0 ∨ logins w clients q ≤ X.refCount - 1 := hcount
          rw [logins_cons_same hc]
          exact ⟨X, hX, by omega⟩
      · rw [h.other q hne] at hY
        rw [logins_cons_other (by rw [hc]; exact fun he => hne (Option.some.inj he).symm)]
        exact ⟨Y, hY, hcount⟩
    · -- only the client that was there is logged in as this player
      obtain rfl : d = c := (List.mem_cons.mp hdm).resolve_right fun hin => hmem ⟨d, hin, hq⟩
      cases hc.symm.trans hq
      have hnone : logins w clients p = 0 := by
        have hzero : (clients.countP fun c => w.clientPlayer c = some p) = 0 :=
          List.countP_eq_zero.mpr fun e he hd => hmem ⟨e, he, of_decide_eq_true hd⟩
        exact congrArg Int.ofNat hzero
      rw [logins_cons_same hc, hnone]
      exact ⟨X, hX, by omega⟩

/-- The loop of `creg_all_players`, `n` clients having been there. -/
theorem creg_fill_returns : ∀ {clients : List ClientPtr} {n : Nat}
    {arr : List (Option PlayerPtr)} {w : World}, FreePlayers w clients → n ≤ arr.length →
    (Returns (creg_fill n clients arr).run w ↔
      n + clients.length ≤ arr.length ∧ Droppable w clients)
  | [], n, arr, w, _, hn => iff_of_true (.of_eq rfl) ⟨hn, nofun⟩
  | c :: clients, n, arr, w, hfree, hn => by
    rw [creg_fill]
    split
    case isFalse hfull =>
      refine iff_of_false (Returns.not_of_error rfl) fun h => ?_
      rw [List.length_cons] at h
      omega
    next hroom =>
    have hrest : FreePlayers w clients := fun d hd => hfree d (List.mem_cons_of_mem _ hd)
    have hlen : ∀ v : Option PlayerPtr, n + 1 + clients.length ≤ (arr.set n v).length ↔
        n + (c :: clients).length ≤ arr.length := fun v => by
      rw [List.length_set, List.length_cons]
      omega
    refine (Returns.congr (Prog.run_bind_ok (Prog.ask_run _ _))).trans ?_
    cases hc : w.clientPlayer c with
    | none =>
      show Returns (creg_fill (n + 1) clients (arr.set n none)).run w ↔ _
      rw [creg_fill_returns hrest (by rw [List.length_set]; exact hroom), hlen,
        droppable_cons_none hc]
    | some p =>
      cases hX : (player p).get w with
      | none =>
        refine iff_of_false (Returns.not_of_error
          (Prog.run_bind_error (player_unref_dead hX))) fun h => ?_
        obtain ⟨X, hX', -⟩ := h.2 c List.mem_cons_self p hc
        cases hX.symm.trans hX'
      | some X =>
        have hl := hfree c List.mem_cons_self p X hc hX
        obtain ⟨w', hrun, hdrop⟩ := player_unref_dropped hX hl
        refine (Returns.congr (Prog.run_bind_ok hrun)).trans ?_
        rw [creg_fill_returns (hdrop.freePlayers hX hl hrest)
          (by rw [List.length_set]; exact hroom), hlen, hdrop.droppable_cons hX hc]

/-- The array has a place for each client and one more. -/
theorem creg_all_players_returns (storage : Nat → Option PlayerPtr)
    (hl : w.cregState.registryLock = 1) (hfree : FreePlayers w w.cregState.nodes) :
    Returns (creg_all_players storage).run w ↔
      (w.cregState.nodes.length : Int) ≤ w.cregState.clientCount + 1 ∧
        Droppable w w.cregState.nodes := by
  rw [creg_all_players]
  refine (Returns.congr (critical (creg_get w) hl)).trans ?_
  show Returns (if w.cregState.clientCount + 1 < 0 then _
    else if w.cregState.nodes = [] then _ else _ : Prog World (List (Option PlayerPtr))).run _ ↔ _
  split
  · next hneg => exact iff_of_false (Returns.not_of_error rfl) fun h => by omega
  next hsize =>
  split
  · next hn =>
    refine iff_of_true (creg_leave_returns _) ?_
    rw [hn]
    exact ⟨by simpa using hsize, nofun⟩
  next hn =>
  have hlen : ((List.range (w.cregState.clientCount + 1).toNat).map storage).length =
      (w.cregState.clientCount + 1).toNat := by rw [List.length_map, List.length_range]
  have hfill := creg_fill_returns (w := creg.set (registryLock.put 0 w.cregState) w) hfree
    (Nat.zero_le ((List.range (w.cregState.clientCount + 1).toNat).map storage).length)
  have hpos := List.length_pos_iff.mpr hn
  rw [hlen, Nat.zero_add] at hfill
  have hset : Droppable (creg.set (registryLock.put 0 w.cregState) w) w.cregState.nodes ↔
      Droppable w w.cregState.nodes := Iff.rfl
  by_cases hcount : 0 ≤ w.cregState.clientCount
  · have hlast : ∀ (arr : List (Option PlayerPtr)) (w' : World),
        Returns (if 0 ≤ w.cregState.clientCount then
            V creg registryLock >>= fun _ => Prog.ret (arr.set w.cregState.clientCount.toNat none)
          else Prog.stop .undefined : Prog World (List (Option PlayerPtr))).run w' :=
        fun arr w' => by
      rw [if_pos hcount]
      exact creg_leave_returns _
    rw [Prog.run_bind]
    refine (Returns.bind_iff fun arr w' _ => hlast arr w').trans (hfill.trans ?_)
    rw [hset]
    exact and_congr_left fun _ => by omega
  · rw [Prog.run_bind]
    refine iff_of_false (fun hr => ?_) fun h => by omega
    obtain ⟨arr, w', hrun, -⟩ := id hr
    obtain ⟨_, _, h, -⟩ := bind_eq_ok hrun
    have hroom := (hfill.mp (.of_eq h)).1
    omega

end AllPlayers

end StarterProjects.Jeux
