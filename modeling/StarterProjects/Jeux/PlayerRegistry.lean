import StarterProjects.Jeux.Player

/-!
# The player registry

The functions of `player_registry.c`. `preg_player_exists` compares the first node, and
then walks the list with a condition on `nextPlayer`: the last node ends the loop before
its name is compared. `lookup` is what it finds, `preg_register_run` what the registration
of a name does to a registry of live players.
-/

namespace StarterProjects.Jeux

open Lib

def preg_init : Prog World Unit :=
  preg.update fun _ => { nodes := [], playerCount := 0, registryLock := 1 }

/-- `while(tempNode->nextPlayer != NULL)`. -/
def preg_walk (name : CString) : List PlayerPtr → Prog World (Option PlayerPtr)
  | p :: q :: rest => do
    if ← strcmp_eq (← player_get_name (some p)) name then
      return some p
    preg_walk name (q :: rest)
  | _ => return none

def preg_player_exists (name : CString) : Prog World (Option PlayerPtr) := do
  let r ← preg.read
  match r.nodes with
  | [] => return none
  | p :: rest =>
    if ← strcmp_eq (← player_get_name (some p)) name then
      return some p
    preg_walk name (p :: rest)

def preg_register (name : CString) : Prog World (Option PlayerPtr) := do
  let newPlayer ← player_create name
  P preg pregLock
  if (← preg_player_exists name).isSome then
    players.free newPlayer
    V preg pregLock
    preg_player_exists name
  else
    let r ← preg.read
    if r.nodes = [] then
      preg.update fun r => { r with nodes := [newPlayer], playerCount := r.playerCount + 1 }
      V preg pregLock
      return some newPlayer
    preg.update fun r =>
      { r with nodes := r.nodes ++ [newPlayer], playerCount := r.playerCount + 1 }
    V preg pregLock
    return some newPlayer

/-! ## What the lookup finds -/

def nameOf (w : World) (p : PlayerPtr) : Option CString := ((player p).get w).map Player.playerName

/-- The nodes whose names are compared. -/
def compared : List PlayerPtr → List PlayerPtr
  | [p] => [p]
  | nodes => nodes.dropLast

def lookup (f : PlayerPtr → Option CString) (name : CString) (nodes : List PlayerPtr) :
    Option PlayerPtr :=
  (compared nodes).find? fun p => f p = some name

theorem mem_of_compared {p : PlayerPtr} : ∀ {nodes : List PlayerPtr}, p ∈ compared nodes → p ∈ nodes
  | [], h => h
  | [_], h => h
  | _ :: _ :: _, h => List.dropLast_subset _ h

theorem lookup_some {f : PlayerPtr → Option CString} {name : CString} {nodes : List PlayerPtr}
    {p : PlayerPtr} (h : lookup f name nodes = some p) : p ∈ nodes ∧ f p = some name :=
  ⟨mem_of_compared (List.mem_of_find?_eq_some h), of_decide_eq_true (List.find?_some h :)⟩

/-- Two nodes at least, so the last one is not compared. -/
theorem compared_append {nodes : List PlayerPtr} (h : nodes ≠ []) (q : PlayerPtr) :
    compared (nodes ++ [q]) = nodes := by
  cases nodes with
  | nil => exact absurd rfl h
  | cons p nodes =>
    cases nodes with
    | nil => rfl
    | cons p' nodes =>
      show (p :: p' :: nodes ++ [q]).dropLast = _
      exact List.dropLast_concat

section Runs

variable {w : World} {name : CString}

/-- Every registered player is there. -/
def AllLive (w : World) (nodes : List PlayerPtr) : Prop :=
  ∀ p ∈ nodes, ∃ X, (player p).get w = some X

/-- The players are there, up to the first one of this name. -/
def Met (w : World) (name : CString) : List PlayerPtr → Prop
  | [] => True
  | p :: rest => ∃ X, (player p).get w = some X ∧ (X.playerName = name ∨ Met w name rest)

theorem AllLive.met {nodes : List PlayerPtr} (h : AllLive w nodes) :
    Met w name (compared nodes) := by
  have hc : AllLive w (compared nodes) := fun p hp => h p (mem_of_compared hp)
  generalize compared nodes = l at hc
  induction l with
  | nil => trivial
  | cons p l ih =>
    obtain ⟨X, hX⟩ := hc p List.mem_cons_self
    exact ⟨X, hX, .inr (ih fun q hq => hc q (List.mem_cons_of_mem _ hq))⟩

/-- Where the live players are still the same ones, the comparison finds the same one. -/
theorem Met.same {w' : World}
    (hsame : ∀ p X, (player p).get w = some X → (player p).get w' = some X) :
    ∀ {l : List PlayerPtr}, Met w name l → Met w' name l ∧
      (l.find? fun p => nameOf w' p = some name) = l.find? fun p => nameOf w p = some name
  | [], _ => ⟨trivial, rfl⟩
  | p :: l, ⟨X, hX, hor⟩ => by
    have hX' := hsame p X hX
    have hname : nameOf w' p = nameOf w p := by rw [nameOf, nameOf, hX, hX']
    rw [List.find?_cons, List.find?_cons, hname]
    rcases hor with hn | hrest
    · have hd : decide (nameOf w p = some name) = true := by
        rw [nameOf, hX, Option.map_some, hn]
        exact decide_eq_true rfl
      rw [hd]
      exact ⟨⟨X, hX', .inl hn⟩, rfl⟩
    · obtain ⟨hmet, hfind⟩ := Met.same hsame hrest
      rw [hfind]
      exact ⟨⟨X, hX', .inr hmet⟩, rfl⟩

theorem compare_run {p : PlayerPtr} {X : Player} (h : (player p).get w = some X) :
    (player_get_name (some p) >>= fun s => strcmp_eq s name).run w =
      .ok (decide (nameOf w p = some name), w) := by
  rw [player_get_name, Prog.bind_assoc, read_then h, nameOf, h]
  simp only [Option.map_some, Option.some.injEq]
  rfl

theorem compare_dead {p : PlayerPtr} (h : (player p).get w = none) :
    (player_get_name (some p) >>= fun s => strcmp_eq s name).run w = .error .undefined := by
  rw [player_get_name, Prog.bind_assoc]
  exact Prog.run_bind_error (read_dead h)

/-- Nothing is left to meet after a player of the name. -/
theorem Met.rest {p : PlayerPtr} {l : List PlayerPtr} (h : Met w name (p :: l))
    (hn : decide (nameOf w p = some name) = false) : Met w name l := by
  obtain ⟨X, hX, hor⟩ := h
  refine hor.resolve_left fun he => ?_
  rw [nameOf, hX, Option.map_some, he] at hn
  exact of_decide_eq_false hn rfl

theorem preg_walk_run : ∀ {nodes : List PlayerPtr}, Met w name nodes.dropLast →
    (preg_walk name nodes).run w =
      .ok (nodes.dropLast.find? fun p => nameOf w p = some name, w)
  | [], _ => rfl
  | [_], _ => rfl
  | p :: q :: rest, h => by
    obtain ⟨X, hX, -⟩ := id h
    rw [preg_walk, ← Prog.bind_assoc, Prog.run_bind_ok (compare_run hX), List.dropLast_cons_cons,
      List.find?_cons]
    cases hd : decide (nameOf w p = some name) with
    | true => rfl
    | false => exact preg_walk_run (h.rest hd)

theorem preg_walk_dead : ∀ {nodes : List PlayerPtr}, ¬ Met w name nodes.dropLast →
    (preg_walk name nodes).run w = .error .undefined
  | [], h => absurd trivial h
  | [_], h => absurd trivial h
  | p :: q :: rest, h => by
    rw [preg_walk, ← Prog.bind_assoc]
    cases hX : (player p).get w with
    | none => exact Prog.run_bind_error (compare_dead hX)
    | some X =>
      rw [Prog.run_bind_ok (compare_run hX)]
      cases hd : decide (nameOf w p = some name) with
      | true =>
        rw [nameOf, hX, Option.map_some] at hd
        exact absurd ⟨X, hX, .inl (Option.some.inj (of_decide_eq_true hd))⟩ h
      | false => exact preg_walk_dead fun hmet => h ⟨X, hX, .inr hmet⟩

theorem preg_player_exists_run (h : Met w name (compared w.pregState.nodes)) :
    (preg_player_exists name).run w = .ok (lookup (nameOf w) name w.pregState.nodes, w) := by
  rw [preg_player_exists, read_then (show preg.get w = some w.pregState from rfl)]
  cases hn : w.pregState.nodes with
  | nil => rfl
  | cons p rest =>
    rw [hn] at h
    obtain ⟨l, hl⟩ : ∃ l, compared (p :: rest) = p :: l := by
      cases rest with
      | nil => exact ⟨[], rfl⟩
      | cons q rest => exact ⟨_, rfl⟩
    rw [hl] at h
    obtain ⟨X, hX, -⟩ := id h
    show (player_get_name (some p) >>= fun s => strcmp_eq s name >>= fun b => _).run w = _
    rw [← Prog.bind_assoc, Prog.run_bind_ok (compare_run hX), lookup, hl, List.find?_cons]
    cases hd : decide (nameOf w p = some name) with
    | true => rfl
    | false =>
      cases rest with
      | nil =>
        cases hl
        rfl
      | cons q rest =>
        cases hl
        refine (preg_walk_run (h : Met w name (p :: q :: rest).dropLast)).trans ?_
        rw [List.dropLast_cons_cons, List.find?_cons, hd]

theorem preg_player_exists_dead (h : ¬ Met w name (compared w.pregState.nodes)) :
    (preg_player_exists name).run w = .error .undefined := by
  rw [preg_player_exists, read_then (show preg.get w = some w.pregState from rfl)]
  cases hn : w.pregState.nodes with
  | nil => exact absurd (by rw [hn]; trivial) h
  | cons p rest =>
    rw [hn] at h
    show (player_get_name (some p) >>= fun s => strcmp_eq s name >>= fun b => _).run w = _
    rw [← Prog.bind_assoc]
    cases hX : (player p).get w with
    | none => exact Prog.run_bind_error (compare_dead hX)
    | some X =>
      rw [Prog.run_bind_ok (compare_run hX)]
      cases rest with
      | nil => exact absurd ⟨X, hX, .inr trivial⟩ h
      | cons q rest =>
        cases hd : decide (nameOf w p = some name) with
        | true =>
          rw [nameOf, hX, Option.map_some] at hd
          exact absurd ⟨X, hX, .inl (Option.some.inj (of_decide_eq_true hd))⟩ h
        | false => exact preg_walk_dead h

/-- The world with the new player, not yet in the registry. -/
def World.newPlayer (name : CString) (w : World) : World :=
  players.modify (Heap.alloc (Player.created name)) w

/-- The world after a new player was freed again. -/
def World.discarded (name : CString) (w : World) : World :=
  players.modify (Heap.free w.playerHeap.next) (w.newPlayer name)

/-- The world after a new player was appended to the registry. -/
def World.enrolled (name : CString) (w : World) : World :=
  preg.set { w.pregState with
    nodes := w.pregState.nodes ++ [w.playerHeap.next]
    playerCount := w.pregState.playerCount + 1 } (w.newPlayer name)

theorem newPlayer_other {p : PlayerPtr} (hp : p ≠ w.playerHeap.next) :
    (player p).get (w.newPlayer name) = (player p).get w := Heap.alloc_other _ _ hp

theorem newPlayer_same : (player w.playerHeap.next).get (w.newPlayer name) =
    some (Player.created name) := Heap.alloc_same _ _

theorem live_lt {p : PlayerPtr} {X : Player} (h : (player p).get w = some X) :
    p < w.playerHeap.next := Heap.lt_next h

theorem discarded_other {p : PlayerPtr} (hp : p ≠ w.playerHeap.next) :
    (player p).get (w.discarded name) = (player p).get w :=
  (Heap.free_other _ hp).trans (newPlayer_other hp)

/-- A new player is not one of the registered ones. -/
theorem AllLive.ne_next {nodes : List PlayerPtr} (h : AllLive w nodes) {p : PlayerPtr}
    (hp : p ∈ nodes) : p ≠ w.playerHeap.next := by
  obtain ⟨X, hX⟩ := h p hp
  exact Nat.ne_of_lt (live_lt hX)

/-- The registry while `preg_register` holds its lock. -/
def World.locked (name : CString) (w : World) : World :=
  preg.set (pregLock.put 0 w.pregState) (w.newPlayer name)

/-- Nobody of the name is met, so none of those met is the new player. -/
theorem Met.of_not_found : ∀ {l : List PlayerPtr}, Met (w.locked name) name l →
    (l.find? fun p => nameOf (w.locked name) p = some name) = none → Met w name l
  | [], _, _ => trivial
  | p :: l, hmet, hfind => by
    rw [List.find?_cons] at hfind
    cases hd : decide (nameOf (w.locked name) p = some name) with
    | true =>
      rw [hd] at hfind
      cases hfind
    | false =>
      rw [hd] at hfind
      obtain ⟨X, hX, -⟩ := id hmet
      have hp : p ≠ w.playerHeap.next := by
        rintro rfl
        exact of_decide_eq_false hd (congrArg (Option.map Player.playerName) newPlayer_same)
      exact ⟨X, (newPlayer_other hp).symm.trans hX, .inr ((hmet.rest hd).of_not_found hfind)⟩

/-- The name is found: the new player is freed and the lookup is made again. -/
theorem preg_register_known {q : PlayerPtr} (hlen : name.length < NAME_MAX_LENGTH)
    (hl : w.pregState.registryLock = 1)
    (h : (preg_player_exists name).run (w.locked name) = .ok (some q, w.locked name)) :
    (preg_register name).run w = (preg_player_exists name).run (w.discarded name) := by
  have hr : preg.get (w.newPlayer name) = some w.pregState := rfl
  have hopen : preg.set (pregLock.put 1 (pregLock.put 0 w.pregState)) (w.discarded name) =
      w.discarded name := by
    rw [pregLock.put_put, pregLock.put_same hl]
    exact preg.set_get rfl
  have hnew : (player w.playerHeap.next).get (preg.set (pregLock.put 0 w.pregState)
      (w.newPlayer name)) = some (Player.created name) := newPlayer_same
  unfold World.locked at h
  rw [preg_register, Prog.run_bind_ok (player_create_run hlen w)]
  show (P preg pregLock >>= _).run (w.newPlayer name) = _
  rw [P_then hr hl, Prog.run_bind_ok h]
  show (players.free w.playerHeap.next >>= _).run _ = _
  rw [Prog.run_bind_ok (Arena.free_run hnew)]
  show (V preg pregLock >>= _).run (preg.set (pregLock.put 0 w.pregState) (w.discarded name)) = _
  rw [set_V (a := w.pregState) rfl]
  exact congrArg (preg_player_exists name).run hopen

theorem preg_register_new (hlen : name.length < NAME_MAX_LENGTH)
    (hl : w.pregState.registryLock = 1)
    (h : (preg_player_exists name).run (w.locked name) = .ok (none, w.locked name)) :
    (preg_register name).run w = .ok (some w.playerHeap.next, w.enrolled name) := by
  have hr : preg.get (w.newPlayer name) = some w.pregState := rfl
  have hput : pregLock.put 1 { w.pregState with
        nodes := w.pregState.nodes ++ [w.playerHeap.next]
        playerCount := w.pregState.playerCount + 1 } = { w.pregState with
        nodes := w.pregState.nodes ++ [w.playerHeap.next]
        playerCount := w.pregState.playerCount + 1 } := pregLock.put_same hl
  unfold World.locked at h
  rw [preg_register, Prog.run_bind_ok (player_create_run hlen w)]
  show (P preg pregLock >>= _).run (w.newPlayer name) = _
  rw [P_then hr hl, Prog.run_bind_ok h]
  show (preg.read >>= _).run (preg.set (pregLock.put 0 w.pregState) (w.newPlayer name)) = _
  rw [set_read hr]
  show (if w.pregState.nodes = [] then _ else _ : Prog World _).run _ = _
  unfold World.enrolled
  rw [← hput]
  split
  · next hn =>
    rw [set_update hr, set_V hr, hn]
    rfl
  · rw [set_update hr, set_V hr]
    rfl

/-- The players that were there are still there while the lock is held. -/
theorem locked_get {p : PlayerPtr} {X : Player} (h : (player p).get w = some X) :
    (player p).get (w.locked name) = some X :=
  (newPlayer_other (Nat.ne_of_lt (live_lt h))).trans h

/-- The new player was freed again: the players are those of before. -/
theorem discarded_get (p : PlayerPtr) : (player p).get (w.discarded name) = (player p).get w := by
  rcases eq_or_ne p w.playerHeap.next with rfl | hp
  · exact (Heap.free_same _ _).trans (w.playerHeap.fresh _ (Nat.le_refl _)).symm
  · exact discarded_other hp

theorem preg_register_run (hlen : name.length < NAME_MAX_LENGTH)
    (hl : w.pregState.registryLock = 1) (h : Met w name (compared w.pregState.nodes)) :
    (preg_register name).run w = match lookup (nameOf w) name w.pregState.nodes with
      | some q => .ok (some q, w.discarded name)
      | none => .ok (some w.playerHeap.next, w.enrolled name) := by
  -- the lookup sees the names as they are, under the lock and after the new player is gone
  have hfound : ∀ w' : World, w'.pregState.nodes = w.pregState.nodes →
      (∀ p X, (player p).get w = some X → (player p).get w' = some X) →
      (preg_player_exists name).run w' = .ok (lookup (nameOf w) name w.pregState.nodes, w') := by
    intro w' hn hget
    obtain ⟨hmet, hfind⟩ := h.same hget
    rw [preg_player_exists_run (by rw [hn]; exact hmet), hn]
    exact congrArg (fun r => Except.ok (r, w')) hfind
  have hlocked := hfound (w.locked name) rfl fun _ _ => locked_get
  cases hq : lookup (nameOf w) name w.pregState.nodes with
  | some q =>
    rw [hq] at hlocked
    rw [preg_register_known hlen hl hlocked,
      hfound (w.discarded name) rfl fun p _ hX => (discarded_get p).trans hX, hq]
  | none =>
    rw [hq] at hlocked
    exact preg_register_new hlen hl hlocked

/-- A node of the new player itself: found under the lock, it is gone when the lookup is made
again. -/
theorem preg_register_unmet (hlen : name.length < NAME_MAX_LENGTH)
    (hl : w.pregState.registryLock = 1) (h : ¬ Met w name (compared w.pregState.nodes)) :
    (preg_register name).run w = .error .undefined := by
  by_cases hmet : Met (w.locked name) name (compared w.pregState.nodes)
  · have hrun := preg_player_exists_run (w := w.locked name) hmet
    cases hq : lookup (nameOf (w.locked name)) name (w.locked name).pregState.nodes with
    | some q =>
      rw [hq] at hrun
      rw [preg_register_known hlen hl hrun]
      exact preg_player_exists_dead fun hd => h (hd.same fun p _ hX =>
        (discarded_get p).symm.trans hX).1
    | none => exact absurd (hmet.of_not_found hq) h
  · have hr : preg.get (w.newPlayer name) = some w.pregState := rfl
    have hrun : (preg_player_exists name).run (w.locked name) = .error .undefined :=
      preg_player_exists_dead hmet
    rw [preg_register, Prog.run_bind_ok (player_create_run hlen w)]
    show (P preg pregLock >>= _).run (w.newPlayer name) = _
    rw [P_then hr hl]
    exact Prog.run_bind_error hrun

/-- A registration returns when the name fits and is compared with live players only. -/
theorem preg_register_returns (hl : w.pregState.registryLock = 1) :
    Exec.Returns (preg_register name).run w ↔
      name.length < NAME_MAX_LENGTH ∧ Met w name (compared w.pregState.nodes) := by
  by_cases hlen : name.length < NAME_MAX_LENGTH
  · by_cases hmet : Met w name (compared w.pregState.nodes)
    · refine iff_of_true ?_ ⟨hlen, hmet⟩
      have hrun := preg_register_run hlen hl hmet
      split at hrun
      · exact .of_eq hrun
      · exact .of_eq hrun
    · exact iff_of_false (Exec.Returns.not_of_error (preg_register_unmet hlen hl hmet))
        fun h => hmet h.2
  · exact iff_of_false (Exec.Returns.not_of_error (Prog.run_bind_error (player_create_long hlen w)))
      fun h => hlen h.1

end Runs

end StarterProjects.Jeux
