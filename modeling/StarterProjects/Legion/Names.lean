import StarterProjects.Legion.Lines
import Mathlib.Data.List.InsertIdx

/-!
# Names that are registered once

`legion_register` copies the name with `strncpy` to an array of 100 characters. A name of 100
or more has no NUL there, and `strcmp` reads on through the executable and the arguments. So
the name that is found again is another one than was typed.

`faithful_iff`: in a sequence of `register` and `unregister` commands each name given is found,
where it was registered, exactly when every name that is registered reads back as typed.
-/

namespace StarterProjects.Legion

open Lib Lib.Exec

/-! ## The name that is read back -/

/-- What follows the array of the name in a new node, as far as the next NUL. -/
def runOn (curExe args : CString) : CString :=
  ((strncpy DAEMON_EXE_MAX_LENGTH curExe).chars ++ (strncpy DAEMON_ARGS_MAX_LENGTH args).chars ++
    DaemonStatus.inactive.bytes).takeWhile fun c => c ≠ '\x00'

/-- The name fits, or it happens to go on as what follows it. -/
def ReadsBack (curName curExe args : CString) : Prop :=
  curName.length < DAEMON_NAME_MAX_LENGTH ∨
    curName.drop DAEMON_NAME_MAX_LENGTH = runOn curExe args

instance (curName curExe args : CString) : Decidable (ReadsBack curName curExe args) := by
  unfold ReadsBack
  infer_instance

/-- Reading a copied string, and what comes after the array. -/
theorem strncpy_read (n : Nat) {src : CString} (h : '\x00' ∉ src) (rest : List Char) :
    ((strncpy n src).chars ++ rest).takeWhile (fun c => c ≠ '\x00') =
      if src.length < n then src
      else src.take n ++ rest.takeWhile fun c => c ≠ '\x00' := by
  have hplain : ∀ cs : CString, cs ⊆ src → ∀ c ∈ cs, decide (c ≠ '\x00') = true :=
    fun cs hsub c hc => by simpa using fun he : c = '\x00' => h (he ▸ hsub hc)
  unfold strncpy
  simp only
  split
  · rename_i hlt
    obtain ⟨k, hk⟩ : ∃ k, n - src.length = k + 1 := ⟨n - src.length - 1, by omega⟩
    rw [List.take_of_length_le (Nat.le_of_lt hlt), hk, List.append_assoc]
    refine takeWhile_stops (hplain src fun _ hc => hc) ?_
    rintro c ⟨⟩
    rfl
  · rename_i hge
    rw [Nat.sub_eq_zero_of_le (Nat.le_of_not_lt hge), List.replicate_zero, List.append_nil,
      List.takeWhile_append_of_pos (hplain _ (List.take_subset _ _))]

theorem newNode_name {curName curExe args : CString} (h : '\x00' ∉ curName) :
    (newNode curName curExe args).name =
      if curName.length < DAEMON_NAME_MAX_LENGTH then curName
      else curName.take DAEMON_NAME_MAX_LENGTH ++ runOn curExe args := by
  rw [DaemonNode.name, List.append_assoc, List.append_assoc]
  refine (strncpy_read DAEMON_NAME_MAX_LENGTH h _).trans ?_
  rw [runOn, List.append_assoc]
  rfl

theorem newNode_name_iff {curName curExe args : CString} (h : '\x00' ∉ curName) :
    (newNode curName curExe args).name = curName ↔ ReadsBack curName curExe args := by
  rw [newNode_name h, ReadsBack]
  split
  · rename_i hlt
    exact iff_of_true rfl (.inl hlt)
  · rename_i hge
    rw [or_iff_right hge]
    conv_lhs => rhs; rw [← List.take_append_drop DAEMON_NAME_MAX_LENGTH curName]
    rw [List.append_cancel_left_eq, eq_comm]

/-! ## The two commands -/

theorem arg_own {s : Master} {k : Nat} {text : CString} (h : s.argArr k = .own text) :
    arg k s = .ok (text, s) := by
  rw [arg, h]
  rfl

theorem unregister_daemons {curName : CString} {s s' : Master} {r : Int}
    (h : legion_unregister (some curName) s = .ok (r, s')) :
    (∃ i d, findName s curName = some i ∧ s.daemons[i]? = some d ∧
      d.daemonStatus = .inactive ∧ s'.daemons = s.daemons.eraseIdx i) ∨
    (s'.daemons = s.daemons ∧ ∀ i d, findName s curName = some i → s.daemons[i]? = some d →
      d.daemonStatus ≠ .inactive) := by
  obtain ⟨i?, s₁, h₁, hfound⟩ := bind_eq_ok h
  obtain ⟨hi, rfl⟩ := name_exists_inv h₁
  cases i? with
  | none =>
    cases hfound
    exact .inr ⟨rfl, fun i d hi' => by rw [findName, hi] at hi'; cases hi'⟩
  | some i =>
    obtain ⟨d, s₂, h₂, hnode⟩ := bind_eq_ok hfound
    obtain ⟨hd, rfl⟩ := node_inv h₂
    split at hnode
    · rename_i hinactive
      cases hnode
      exact .inl ⟨i, d, hi, hd, hinactive, rfl⟩
    · rename_i hactive
      cases hnode
      refine .inr ⟨rfl, fun j d' hj hd' => ?_⟩
      rw [findName, hi] at hj
      cases hj
      rw [hd] at hd'
      cases hd'
      exact hactive

/-- The tokens of a line are in the vector when its command is looked at. -/
theorem parse_args_inv {curStr : List Char} {ts : List CString} {s s' : Master}
    (ht : tokenise curStr = .ok (some ts)) (h : legion_parse_args curStr s = .ok ((), s')) :
    ∃ v t, storeTokens s.argArr ts = some v ∧
      legion_check_args (s.withArgs v) = .ok ((), t) ∧
      s' = t.forget := by
  rw [legion_parse_args, gets_bind, parseArgs, ht] at h
  simp only at h
  cases hv : storeTokens s.argArr ts with
  | none =>
    simp only [hv] at h
    cases h
  | some v =>
    simp only [hv] at h
    rw [executeArgs, modify_bind] at h
    obtain ⟨u, t, hargs, hforget⟩ := bind_eq_ok h
    cases hforget
    exact ⟨v, t, rfl, hargs, rfl⟩

/-- What `register` makes of the table. -/
theorem register_ends {curStr : List Char} {curName curExe : CString} {more : List CString}
    {s : Master} {v : ArgVector}
    (ht : tokenise curStr = .ok (some ("register".toList :: curName :: curExe :: more)))
    (hv : storeTokens s.argArr ("register".toList :: curName :: curExe :: more) = some v) :
    Ends (legion_parse_args curStr) s fun _ s' =>
      s'.daemons =
        if findName s curName = none then
          newNode curName curExe ((v.argArr 3).text.getD []) :: s.daemons
        else s.daemons := by
  have hstored := stored_of_storeTokens hv
  have hgiven : (s.withArgs v).argArrIdx = 3 := by
    refine hstored.idx.trans ?_
    simp only [List.length_cons]
    omega
  have h₀ : (s.withArgs v).argArr 0 = _ := hstored.own 0 _ (by decide) rfl
  have h₁ : (s.withArgs v).argArr 1 = _ := hstored.own 1 _ (by decide) rfl
  have h₂ : (s.withArgs v).argArr 2 = _ := hstored.own 2 _ (by decide) rfl
  suffices hargs : Ends legion_check_args (s.withArgs v) fun _ t =>
      t.daemons =
        if findName s curName = none then
          newNode curName curExe ((v.argArr 3).text.getD []) :: s.daemons
        else s.daemons by
    obtain ⟨u, t, ht', hdaemons⟩ := hargs
    refine ⟨(), t.forget, ?_, hdaemons⟩
    rw [parse_args_execute (parseArgs_some ht hv), executeArgs, modify_bind, bind_ok ht']
    rfl
  rw [legion_check_args]
  refine .run (gets_apply Master.argArrIdx _) ?_
  rw [hgiven, if_pos (by decide)]
  refine .run (arg_own h₀) ?_
  rw [check_command, if_neg (by decide), if_neg (by decide), if_pos rfl, check_register,
    if_neg (by decide), slot]
  refine .run (gets_apply _ _) ?_
  rw [h₁, Slot.text]
  refine .run (name_exists_run _ _) ?_
  -- a name that is taken is reported, and the list stays
  cases hfind : findName s curName with
  | none =>
    have hfind' : (s.withArgs v).daemons.findIdx? (fun d => d.name = curName) = none := hfind
    simp only [hfind']
    refine .run (arg_own h₁) (.run (arg_own h₂) (.run (gets_apply _ _) ?_))
    have hregister : Ends (legion_register curName curExe ((v.argArr 3).text.getD []))
        (s.withArgs v) fun _ t =>
          t.daemons = newNode curName curExe ((v.argArr 3).text.getD []) :: s.daemons := by
      rw [legion_register]
      refine .run (modify_apply _ _) (.run (gets_apply _ _) ?_)
      rw [if_neg (by rw [show Master.argArrIdx _ = 3 from hgiven]; decide)]
      exact .of_eq rfl rfl
    exact hregister.step fun _ _ hdaemons => .ret (hdaemons.trans (if_pos trivial).symm)
  | some i =>
    have hfind' : (s.withArgs v).daemons.findIdx? (fun d => d.name = curName) = some i := hfind
    simp only [hfind']
    refine .run (arg_own h₁) ?_
    refine .run (modify_apply _ _) (.run (modify_apply _ _) (.run (arg_own h₀) ?_))
    exact .of_eq rfl (if_neg (Option.some_ne_none i)).symm

theorem register_line {curStr : List Char} {curName curExe : CString} {more : List CString}
    {s s' : Master}
    (ht : tokenise curStr = .ok (some ("register".toList :: curName :: curExe :: more)))
    (h : legion_parse_args curStr s = .ok ((), s')) :
    ∃ v, storeTokens s.argArr ("register".toList :: curName :: curExe :: more) = some v ∧
      s'.daemons =
        if findName s curName = none then
          newNode curName curExe ((v.argArr 3).text.getD []) :: s.daemons
        else s.daemons := by
  obtain ⟨v, t, hv, -, -⟩ := parse_args_inv ht h
  exact ⟨v, hv, (register_ends ht hv).apply h⟩

/-- `legion_check_args` has got a command with one argument. -/
structure Given (s : Master) (command curName : CString) (t : Master) : Prop where
  same : ∃ v, t = s.withArgs v
  command : t.argArr 0 = .own command
  curName : t.argArr 1 = .own curName

theorem Given.slot_run {s t : Master} {command curName : CString} (h : Given s command curName t) :
    slot 1 t = .ok (some curName, t) := by
  rw [slot, gets_apply, h.curName]
  rfl

theorem parse_args_pair {curStr : List Char} {command curName : CString}
    (ht : tokenise curStr = .ok (some [command, curName])) (s : Master) :
    ∃ t, Given s command curName t ∧ legion_parse_args curStr s =
      (check_command command 1 >>= fun _ => modify Master.forget) t := by
  have hsome : (storeTokens s.argArr [command, curName]).isSome :=
    (storeTokens_isSome _ _).mpr (by simp [joined])
  obtain ⟨v, hv⟩ := Option.isSome_iff_exists.mp hsome
  have hstored := stored_of_storeTokens hv
  have hgiven : (s.withArgs v).argArrIdx = 2 := hstored.idx
  have h₀ : (s.withArgs v).argArr 0 = .own command := hstored.own 0 _ (by decide) rfl
  refine ⟨s.withArgs v, ⟨⟨v, rfl⟩, h₀, hstored.own 1 _ (by decide) rfl⟩, ?_⟩
  have hargs : legion_check_args (s.withArgs v) = check_command command 1 (s.withArgs v) := by
    rw [legion_check_args, gets_bind, hgiven, if_pos (by decide), bind_ok (arg_own h₀)]
  rw [parse_args_execute (parseArgs_some ht hv), executeArgs, modify_bind]
  cases hr : check_command command 1 (s.withArgs v) with
  | ok r => rw [bind_ok (hargs.trans hr), bind_ok hr]
  | error r => rw [bind_error (hargs.trans hr), bind_error hr]

/-- What `unregister` makes of it. -/
theorem unregister_line {curStr : List Char} {curName : CString} {s s' : Master}
    (ht : tokenise curStr = .ok (some ["unregister".toList, curName]))
    (h : legion_parse_args curStr s = .ok ((), s')) :
    (∃ i d, findName s curName = some i ∧ s.daemons[i]? = some d ∧
      d.daemonStatus = .inactive ∧ s'.daemons = s.daemons.eraseIdx i) ∨
    (s'.daemons = s.daemons ∧ ∀ i d, findName s curName = some i → s.daemons[i]? = some d →
      d.daemonStatus ≠ .inactive) := by
  obtain ⟨t₀, hgiven, hrun⟩ := parse_args_pair ht s
  obtain ⟨_, t, hargs, hforget⟩ := bind_eq_ok (hrun.symm.trans h)
  obtain ⟨v, rfl⟩ := hgiven.same
  cases hforget
  rw [check_command, if_neg (by decide), if_neg (by decide), if_neg (by decide), if_pos rfl,
    check_unregister, if_neg (by decide), bind_ok hgiven.slot_run] at hargs
  obtain ⟨r, t', hunregister, hend⟩ := bind_eq_ok hargs
  have hquiet : Within Quiet (do
      fprintf ("Daemon ".toList ++ (← arg 1) ++ " is not registered.\n".toList)
      sf_error "command execution"
      printError (← arg 0)) :=
    (quiet_arg 1).bind fun _ => (quiet_fprintf _).bind fun _ => (quiet_sf_error _).bind fun _ =>
      (quiet_arg 0).bind fun _ => quiet_printError _
  have hdaemons : t.daemons = t'.daemons := by
    split at hend
    · exact (hquiet _ _ _ hend).daemons
    · cases hend
      rfl
  have hcases := unregister_daemons hunregister
  rw [← hdaemons] at hcases
  exact hcases

/-! ## Sequences of the two -/

/-- The table, with the names that were typed for its daemons, in the same order. -/
structure Register where
  master : Master
  given : List CString

/-- One `register` or `unregister`. -/
inductive Register.Step : Register → List Char → Register → Prop
  | registered {s s' : Master} {given curStr curName curExe more} :
      tokenise curStr = .ok (some ("register".toList :: curName :: curExe :: more)) →
      findName s curName = none → legion_parse_args curStr s = .ok ((), s') →
      Step ⟨s, given⟩ curStr ⟨s', curName :: given⟩
  | refused {s s' : Master} {given curStr curName curExe more i} :
      tokenise curStr = .ok (some ("register".toList :: curName :: curExe :: more)) →
      findName s curName = some i → legion_parse_args curStr s = .ok ((), s') →
      Step ⟨s, given⟩ curStr ⟨s', given⟩
  | unregistered {s s' : Master} {given curStr curName i d} :
      tokenise curStr = .ok (some ["unregister".toList, curName]) →
      findName s curName = some i → s.daemons[i]? = some d → d.daemonStatus = .inactive →
      legion_parse_args curStr s = .ok ((), s') →
      Step ⟨s, given⟩ curStr ⟨s', given.eraseIdx i⟩
  | kept {s s' : Master} {given curStr curName} :
      tokenise curStr = .ok (some ["unregister".toList, curName]) →
      (∀ i d, findName s curName = some i → s.daemons[i]? = some d →
        d.daemonStatus ≠ .inactive) →
      legion_parse_args curStr s = .ok ((), s') → Step ⟨s, given⟩ curStr ⟨s', given⟩

/-- No two daemons were registered under one name, and each name given is found, at the daemon
that was registered with it: another `register` is refused, and `unregister` takes that one. -/
structure Register.Unique (r : Register) : Prop where
  nodup : r.given.Nodup
  found : ∀ i curName, r.given[i]? = some curName → findName r.master curName = some i

/-- This is so all along. -/
def Register.Faithful : List (List Char) → Register → Prop
  | [], r => r.Unique
  | curStr :: lines, r => r.Unique ∧ ∀ r', r.Step curStr r' → Faithful lines r'

/-- A name that is registered by this line reads back. -/
def StoresName (s : Master) (curStr : List Char) : Prop :=
  ∀ curName curExe more v, tokenise curStr =
      .ok (some ("register".toList :: curName :: curExe :: more)) →
    storeTokens s.argArr ("register".toList :: curName :: curExe :: more) = some v →
    findName s curName = none → ReadsBack curName curExe ((v.argArr 3).text.getD [])

def Register.Stores : List (List Char) → Register → Prop
  | [], _ => True
  | curStr :: lines, r => StoresName r.master curStr ∧ ∀ r', r.Step curStr r' → Stores lines r'

/-- The names in the table are those given, each once. -/
structure Register.Kept (r : Register) : Prop where
  names : r.master.daemons.map DaemonNode.name = r.given
  nodup : r.given.Nodup

theorem findName_eq (s : Master) (curName : CString) :
    findName s curName = (s.daemons.map DaemonNode.name).findIdx? fun n => n = curName := by
  rw [findName, List.findIdx?_map]
  rfl

namespace Register.Kept

variable {r r' : Register} {curStr : List Char}

theorem unique (h : r.Kept) : r.Unique := by
  refine ⟨h.nodup, fun i curName hi => ?_⟩
  rw [findName_eq, h.names, List.findIdx?_eq_some_iff_getElem]
  obtain ⟨hlt, he⟩ := List.getElem?_eq_some_iff.mp hi
  refine ⟨hlt, by simpa using he, fun j hj => ?_⟩
  have hne := List.pairwise_iff_getElem.mp h.nodup j i (by omega) hlt hj
  rw [he] at hne
  simpa using hne

theorem not_mem (h : r.Kept) {curName : CString} (hfind : findName r.master curName = none) :
    curName ∉ r.given := by
  rw [findName_eq, h.names, List.findIdx?_eq_none_iff] at hfind
  exact fun hmem => by simpa using hfind curName hmem

theorem step (h : r.Kept) (hs : r.Step curStr r') (hstore : StoresName r.master curStr) :
    r'.Kept := by
  cases hs with
  | registered ht hfind hp =>
    obtain ⟨v, hv, hdaemons⟩ := register_line ht hp
    have hreads := hstore _ _ _ v ht hv hfind
    have hplain := (plain_of_tokens ht _ (List.mem_cons_of_mem _ List.mem_cons_self)).2.2
    rw [if_pos hfind] at hdaemons
    refine ⟨?_, List.nodup_cons.mpr ⟨h.not_mem hfind, h.nodup⟩⟩
    show List.map _ (Master.daemons _) = _
    rw [hdaemons, List.map_cons, (newNode_name_iff hplain).mpr hreads]
    exact congrArg _ h.names
  | refused ht hfind hp =>
    obtain ⟨v, hv, hdaemons⟩ := register_line ht hp
    rw [if_neg (by rw [hfind]; exact Option.some_ne_none _)] at hdaemons
    refine ⟨?_, h.nodup⟩
    show List.map _ (Master.daemons _) = _
    rw [hdaemons]
    exact h.names
  | @unregistered s s' _ _ _ i d ht hfind hd hinactive hp =>
    have hdaemons : s'.daemons = s.daemons.eraseIdx i := by
      rcases unregister_line ht hp with ⟨j, _, hj, _, _, hdaemons⟩ | ⟨_, hnot⟩
      · rw [hfind] at hj
        cases hj
        exact hdaemons
      · exact absurd hinactive (hnot i d hfind hd)
    refine ⟨?_, h.nodup.eraseIdx i⟩
    show List.map _ (Master.daemons _) = _
    rw [hdaemons, ← List.eraseIdx_map]
    exact congrArg (List.eraseIdx · i) h.names
  | kept ht hnot hp =>
    refine ⟨?_, h.nodup⟩
    show List.map _ (Master.daemons _) = _
    rcases unregister_line ht hp with ⟨i, d, hi, hd, hinactive, _⟩ | ⟨hdaemons, _⟩
    · exact absurd hinactive (hnot i d hi hd)
    · rw [hdaemons]
      exact h.names

/-- A name that is found where it was registered reads back. -/
theorem storesName {r : Register}
    (hunique : ∀ r', r.Step curStr r' → r'.Unique) : StoresName r.master curStr := by
  intro curName curExe more v ht hv hfind
  have hplain := (plain_of_tokens ht _ (List.mem_cons_of_mem _ List.mem_cons_self)).2.2
  obtain ⟨_, s', hp, hdaemons⟩ := register_ends ht hv
  have hfound := (hunique ⟨s', curName :: r.given⟩ (.registered ht hfind hp)).found 0 curName rfl
  rw [if_pos hfind] at hdaemons
  rw [findName, hdaemons, List.findIdx?_eq_some_iff_getElem] at hfound
  obtain ⟨_, hname, _⟩ := hfound
  exact (newNode_name_iff hplain).mp (by simpa using hname)

theorem iff_stores : ∀ {lines : List (List Char)} {r : Register}, r.Kept →
    (r.Faithful lines ↔ r.Stores lines)
  | [], r, h => iff_of_true h.unique trivial
  | curStr :: lines, r, h => by
    constructor
    · rintro ⟨-, hsteps⟩
      have hstores : StoresName r.master curStr := storesName fun r' hs => ?_
      · exact ⟨hstores, fun r' hs => (h.step hs hstores).iff_stores.mp (hsteps r' hs)⟩
      · cases lines with
        | nil => exact hsteps r' hs
        | cons => exact (hsteps r' hs).1
    · rintro ⟨hstores, hsteps⟩
      exact ⟨h.unique, fun r' hs => (h.step hs hstores).iff_stores.mpr (hsteps r' hs)⟩

end Register.Kept

theorem faithful_iff (nature : Nature) (pathSet : Bool) (files : CString → Option (List Nat))
    (lines : List (List Char)) :
    Register.Faithful lines ⟨.initial nature pathSet files, []⟩ ↔
      Register.Stores lines ⟨.initial nature pathSet files, []⟩ := by
  have hkept : Register.Kept ⟨.initial nature pathSet files, []⟩ := ⟨rfl, List.nodup_nil⟩
  exact hkept.iff_stores

def idle : Nature where
  moment := fun _ =>
    { pipe := 0, fork := 0, read := 0, kill := 0, waitpid := 0, dup2 := 0, setpgid := 0
      execvpe := 0, signals := [] }
  leftover := fun _ _ => []

/-- Both commands are accepted. -/
theorem long_name_accepted_twice :
    ¬ Register.Faithful [registerLong.chars, registerLong.chars]
      ⟨.initial idle true fun _ => none, []⟩ := by
  have ht : tokenise registerLong.chars = .ok (some ["register".toList, longName, "x".toList]) :=
    tokenise_fields (by decide +kernel) (by decide +kernel)
  have hstore : ∀ argArr, ∃ v, storeTokens argArr ["register".toList, longName, "x".toList] =
      some v := fun argArr =>
    Option.isSome_iff_exists.mp ((storeTokens_isSome argArr _).mpr (by decide))
  rintro ⟨-, hfirst⟩
  obtain ⟨v, hv⟩ := hstore fun _ => .null
  obtain ⟨_, s, hp, hdaemons⟩ := register_ends (s := .initial idle true fun _ => none) ht hv
  have hempty : findName (.initial idle true fun _ => none) longName = none := rfl
  obtain ⟨-, hsecond⟩ := hfirst ⟨s, [longName]⟩ (.registered ht hempty hp)
  have hslot : v.argArr 3 = .null := (stored_of_storeTokens hv).kept 3 (by decide)
  rw [if_pos hempty, hslot] at hdaemons
  have hfind : findName s longName = none := by
    rw [findName, hdaemons]
    decide +kernel
  obtain ⟨w, hw⟩ := hstore s.argArr
  obtain ⟨_, s', hp', _⟩ := register_ends ht hw
  have hunique := hsecond ⟨s', [longName, longName]⟩ (.registered ht hfind hp')
  exact (List.nodup_cons.mp hunique.nodup).1 List.mem_cons_self

end StarterProjects.Legion
