import StarterProjects.Jeux.Replies

/-!
# Looking up a client by its user

`creg_lookup` compares the name of the player of every node it comes to. A client that is not
logged in has no player, and `strcmp` does not take NULL: `lookup_right_iff` says that the search
works exactly when no such client stands before the client that is searched for. On an empty
registry the function returns with the lock held.
-/

namespace StarterProjects.Jeux

open Lib Lib.Exec

/-- The name that a client is logged in under. -/
def clientName (w : World) (c : ClientPtr) : Option CString := (w.clientPlayer c).bind (nameOf w)

/-- The players that clients are logged in as are there. -/
def PlayersLive (w : World) (nodes : List ClientPtr) : Prop :=
  ∀ c ∈ nodes, ∀ p, w.clientPlayer c = some p → ∃ X, (player p).get w = some X

/-- The result of a lookup: a registered client with this name, or NULL when there is none. -/
def RightClient (w : World) (user : CString) : Option ClientPtr → Prop
  | some c => c ∈ w.cregState.nodes ∧ clientName w c = some user
  | none => ∀ c ∈ w.cregState.nodes, clientName w c ≠ some user

/-- The clients that are passed on the way to the one with this name. -/
def passedBy (w : World) (user : CString) (nodes : List ClientPtr) : List ClientPtr :=
  nodes.takeWhile fun c => clientName w c ≠ some user

/-- The first client with this name. -/
def firstNamed (w : World) (user : CString) (nodes : List ClientPtr) : Option ClientPtr :=
  nodes.find? fun c => clientName w c = some user

section Search

variable {w : World} {user : CString} {c : ClientPtr} {nodes : List ClientPtr}

theorem clientName_live {p : PlayerPtr} {X : Player} (hc : w.clientPlayer c = some p)
    (hX : (player p).get w = some X) : clientName w c = some X.playerName := by
  rw [clientName, hc, Option.bind_some, nameOf, hX]
  rfl

theorem clientName_absent (hc : w.clientPlayer c = none) : clientName w c = none := by
  rw [clientName, hc]
  rfl

/-- The name of a client that is not logged in is compared all the same. -/
theorem creg_compare_absent {k : Bool → Prog World (Option ClientPtr)}
    (hc : w.clientPlayer c = none) :
    (do let tempPlayer ← Prog.ask fun w => w.clientPlayer c
        k (← strcmp_eq (← player_get_name tempPlayer) user) : Prog World _).run w =
      .error .undefined := by
  rw [Prog.run_bind_ok (Prog.ask_run _ _)]
  show (player_get_name (w.clientPlayer c) >>= _).run w = _
  rw [hc]
  rfl

theorem creg_search_run (hlive : PlayersLive w nodes) : (creg_search user nodes).run w =
    if ∀ c ∈ passedBy w user nodes, w.clientPlayer c ≠ none then
      .ok (firstNamed w user nodes,
        creg.set (registryLock.put (registryLock.value w.cregState + 1) w.cregState) w)
    else .error .undefined := by
  induction nodes with
  | nil =>
    have hall : ∀ c ∈ passedBy w user [], w.clientPlayer c ≠ none :=
      fun c hc => absurd hc List.not_mem_nil
    rw [if_pos hall]
    exact Prog.run_bind_ok (V_run (creg_get w))
  | cons c rest ih =>
    have ih := ih fun d hd => hlive d (List.mem_cons_of_mem c hd)
    rw [creg_search]
    cases hc : w.clientPlayer c with
    | none =>
      have hname : clientName w c ≠ some user := by
        rw [clientName_absent hc]
        exact (Option.some_ne_none user).symm
      have hmem : c ∈ passedBy w user (c :: rest) := by
        rw [passedBy, List.takeWhile_cons_of_pos (by simpa using hname)]
        exact List.mem_cons_self
      rw [creg_compare_absent hc, if_neg fun h => h c hmem hc]
    | some p =>
      obtain ⟨X, hX⟩ := hlive c List.mem_cons_self p hc
      have hname := clientName_live hc hX
      rw [creg_compare hc hX]
      -- the search ends at the first client of this name
      by_cases hn : X.playerName = user
      · have hyes : clientName w c = some user := by rw [hname, hn]
        have hnone : passedBy w user (c :: rest) = [] :=
          List.takeWhile_cons_of_neg (by simpa using hyes)
        have hfirst : firstNamed w user (c :: rest) = some c :=
          List.find?_cons_of_pos (by simpa using hyes)
        have hall : ∀ d ∈ ([] : List ClientPtr), w.clientPlayer d ≠ none :=
          fun d hd => absurd hd List.not_mem_nil
        rw [if_pos (decide_eq_true hn), hnone, hfirst, if_pos hall]
        exact Prog.run_bind_ok (V_run (creg_get w))
      · have hno : clientName w c ≠ some user := by
          rw [hname]
          exact fun h => hn (Option.some.inj h)
        have hpassed : passedBy w user (c :: rest) = c :: passedBy w user rest :=
          List.takeWhile_cons_of_pos (by simpa using hno)
        have hfirst : firstNamed w user (c :: rest) = firstNamed w user rest :=
          List.find?_cons_of_neg (by simpa using hno)
        rw [if_neg (by simpa using hn), hpassed, hfirst, ih]
        refine if_congr ?_ rfl rfl
        rw [List.forall_mem_cons, and_iff_right]
        rw [hc]
        exact Option.some_ne_none p

/-- The first node is compared once before the search, to no effect. -/
theorem creg_search_twice {rest : List ClientPtr} (hlive : PlayersLive w (c :: rest)) :
    (do let tempPlayer ← Prog.ask fun w => w.clientPlayer c
        if ← strcmp_eq (← player_get_name tempPlayer) user then
          V creg registryLock
          return some c
        creg_search user (c :: rest) : Prog World _).run w =
      (creg_search user (c :: rest)).run w := by
  cases hc : w.clientPlayer c with
  | none => rw [creg_search, creg_compare_absent hc, creg_compare_absent hc]
  | some p =>
    obtain ⟨X, hX⟩ := hlive c List.mem_cons_self p hc
    rw [creg_compare hc hX]
    by_cases hn : X.playerName = user
    · rw [creg_search, creg_compare hc hX, if_pos (decide_eq_true hn), if_pos (decide_eq_true hn)]
    · rw [if_neg (by simpa using hn)]

theorem creg_lookup_run (w : World) (user : CString) (hl : w.cregState.registryLock = 1)
    (hlive : PlayersLive w w.cregState.nodes) : (creg_lookup user).run w =
      if w.cregState.nodes = [] then
        .ok (none, creg.set (registryLock.put 0 w.cregState) w)
      else if ∀ c ∈ passedBy w user w.cregState.nodes, w.clientPlayer c ≠ none then
        .ok (firstNamed w user w.cregState.nodes, w)
      else .error .undefined := by
  rw [creg_lookup, critical (creg_get w) hl]
  have hnodes : (registryLock.put 0 w.cregState).nodes = w.cregState.nodes := rfl
  rw [hnodes]
  cases hn : w.cregState.nodes with
  | nil => rfl
  | cons c rest =>
    rw [hn] at hlive
    have hlocked : PlayersLive (creg.set (registryLock.put 0 w.cregState) w) (c :: rest) := hlive
    have hopen : creg.set (registryLock.put (registryLock.value
        (registryLock.put 0 w.cregState) + 1) (registryLock.put 0 w.cregState))
          (creg.set (registryLock.put 0 w.cregState) w) = w := by
      rw [creg.set_set, registryLock.reopen hl, creg.set_get (creg_get w)]
    dsimp only
    rw [creg_search_twice hlocked, creg_search_run hlocked, if_neg (List.cons_ne_nil c rest)]
    exact if_congr Iff.rfl (congrArg (fun w' => Except.ok (_, w')) hopen) rfl

theorem firstNamed_right :
    RightClient w user (firstNamed w user w.cregState.nodes) := by
  cases hfirst : firstNamed w user w.cregState.nodes with
  | some c => exact ⟨List.mem_of_find?_eq_some hfirst, by simpa using List.find?_some hfirst⟩
  | none => exact fun c hc => by simpa using List.find?_eq_none.mp hfirst c hc

end Search

/-- The lookup finds the client, and compares no absent name, exactly when every client that it
passes on the way is logged in. -/
theorem lookup_right_iff (w : World) (user : CString) (hl : w.cregState.registryLock = 1)
    (hlive : PlayersLive w w.cregState.nodes) :
    (Ends (creg_lookup user).run w fun r _ => RightClient w user r) ↔
      ∀ c ∈ passedBy w user w.cregState.nodes, w.clientPlayer c ≠ none := by
  have hrun := creg_lookup_run w user hl hlive
  split at hrun
  · next hn =>
    refine iff_of_true (.of_eq hrun ?_) ?_
    · rw [RightClient, hn]
      exact fun c hc => absurd hc List.not_mem_nil
    · rw [hn]
      exact fun c hc => absurd hc List.not_mem_nil
  · split at hrun
    · next hall => exact iff_of_true (.of_eq hrun firstNamed_right) hall
    · next hall => exact iff_of_false (fun h => h.ne_error .undefined hrun) hall

/-- These clients are registered; client 1 is logged in as `ann`, and the others are not. -/
def lobby (nodes : List ClientPtr) : World :=
  { World.initial fun _ => 0 with
    playerHeap := Heap.empty.alloc (Player.created ['a', 'n', 'n'])
    cregState :=
      { nodes := nodes, clientCount := nodes.length, registryLock := 1, notEmpty := 0,
        registered := nodes, released := [] }
    clientPlayer := fun c => if c = 1 then some 0 else none }

theorem lobby_live (nodes : List ClientPtr) : PlayersLive (lobby nodes) nodes := by
  intro c _ p hp
  have hp : (if c = 1 then some 0 else none) = some p := hp
  split at hp
  · cases hp
    exact ⟨_, rfl⟩
  · cases hp

theorem lookup_right_iff_sample : Ends (creg_lookup ['a', 'n', 'n']).run (lobby [1, 0]) fun r _ =>
    RightClient (lobby [1, 0]) ['a', 'n', 'n'] r := by
  refine (lookup_right_iff (lobby [1, 0]) ['a', 'n', 'n'] rfl (lobby_live [1, 0])).mpr ?_
  have hnone : passedBy (lobby [1, 0]) ['a', 'n', 'n'] [1, 0] = [] := by decide
  intro c hc
  exact absurd (hnone ▸ hc) List.not_mem_nil

/-- The client in front of `ann` is not logged in. -/
theorem lookup_undefined :
    ¬ Ends (creg_lookup ['a', 'n', 'n']).run (lobby [0, 1]) fun r _ =>
      RightClient (lobby [0, 1]) ['a', 'n', 'n'] r := by
  intro h
  have hrun := creg_lookup_run (lobby [0, 1]) ['a', 'n', 'n'] rfl (lobby_live [0, 1])
  have hpassed : ¬ ∀ c ∈ passedBy (lobby [0, 1]) ['a', 'n', 'n'] [0, 1],
      (lobby [0, 1]).clientPlayer c ≠ none :=
    fun hall => hall 0 (by decide) rfl
  have hnodes : (lobby [0, 1]).cregState.nodes = [0, 1] := rfl
  rw [hnodes, if_neg (List.cons_ne_nil 0 [1]), if_neg hpassed] at hrun
  exact h.ne_error .undefined hrun

end StarterProjects.Jeux
