import StarterProjects.Legion.Names
import StarterProjects.Legion.Twins

/-!
# What a command takes from earlier lines

`argArr` is global, and the slots behind the tokens of a line point to strings of earlier
ones. `register` looks into the slot 3 without a test of the count, and five commands into the
slot 1 when their name is missing. The flags of the signals too are left over from earlier
commands.

`parse_args_alike`: after two histories that lead to one table a line has the same effect and
prints the same, if what it looks at there is the same.
-/

namespace StarterProjects.Legion

open Lib Lib.Exec

/-- Lines, and the state they lead to. -/
structure History where
  lines : List (List Char)
  nature : Nature
  pathSet : Bool
  files : CString → Option (List Nat)
  state : Master
  run : turns lines (.initial nature pathSet files) = .ok ((), state)

/-- The same table, and the same output since then. -/
structure SameEffect (s s' t t' : Master) : Prop where
  daemons : t'.daemons = t.daemons
  out : ∃ text, t.out = s.out ++ text ∧ t'.out = s'.out ++ text
  events : ∃ events, t.events = s.events ++ events ∧ t'.events = s'.events ++ events

/-- The search gives the same for either. -/
def SameFind (s : Master) (curName curName' : Option CString) : Prop :=
  legion_daemon_name_exists curName s = legion_daemon_name_exists curName' s

/-- The slots behind the tokens, where the command looks into one. -/
def SlotsAgree (s s' : Master) : List CString → Prop
  | [command] =>
    (command = "unregister".toList → (s'.argArr 1).text = (s.argArr 1).text) ∧
      (command ∈ ["status".toList, "start".toList, "stop".toList, "logrotate".toList] →
        SameFind s (s.argArr 1).text (s'.argArr 1).text)
  | [command, curName, _] =>
    command = "register".toList → findName s curName = none →
      strncpy DAEMON_ARGS_MAX_LENGTH ((s'.argArr 3).text.getD []) =
        strncpy DAEMON_ARGS_MAX_LENGTH ((s.argArr 3).text.getD [])
  | _ => True

/-- The daemon that `start`, `stop` or `logrotate` finds, when it accepts the count. -/
def target (s : Master) : List CString → Option DaemonNode
  | [_] => addressed s (s.argArr 1).text
  | [_, curName] => addressed s (some curName)
  | _ => none

/-- A daemon may be sent SIGTERM, and the flags are tested after the wait. -/
def MayStop (s : Master) (ts : List CString) : Prop :=
  (ts.head? = some "quit".toList ∧ ∃ d ∈ s.daemons, d.daemonStatus = .active) ∨
    ((ts.head? = some "stop".toList ∨ ts.head? = some "logrotate".toList) ∧
      ∃ d, target s ts = some d ∧ d.daemonStatus = .active)

/-- A daemon may be started, and the flag of SIGALRM is tested after the `read`. -/
def MayStart (s : Master) (ts : List CString) : Prop :=
  ts.head? = some "start".toList ∧ ∃ d, target s ts = some d ∧ d.daemonStatus = .inactive

/-- What the command looks at, besides its tokens and the table, is the same. -/
structure Confined (s s' : Master) (ts : List CString) : Prop where
  slots : SlotsAgree s s' ts
  sigchld : MayStop s ts → s'.sigchld_flag = s.sigchld_flag
  sigalrm : MayStop s ts ∨ MayStart s ts → s'.sigalrm_flag = s.sigalrm_flag

/-! ## Names that find the same -/

theorem name_exists_found {s s' : Master} {curName : Option CString} {i : Nat}
    (h : legion_daemon_name_exists curName s = .ok (some i, s')) :
    ∃ d, s.daemons[i]? = some d ∧ curName = some d.name := by
  cases curName with
  | none =>
    unfold legion_daemon_name_exists at h
    simp only at h
    split at h
    · cases h
    · cases h
  | some name =>
    obtain ⟨hfind, -⟩ := name_exists_inv h
    obtain ⟨hlt, hname, -⟩ := List.findIdx?_eq_some_iff_getElem.mp hfind
    have hname : s.daemons[i].name = name := by simpa using hname
    exact ⟨s.daemons[i], List.getElem?_eq_getElem hlt, by rw [hname]⟩

theorem SameFind.bind {s : Master} {curName curName' : Option CString} {α : Type}
    {rest rest' : Option Nat → Exec Master α} (h : SameFind s curName curName')
    (hnone : rest none = rest' none) (hsome : curName = curName' → rest = rest') :
    (legion_daemon_name_exists curName >>= rest) s =
      (legion_daemon_name_exists curName' >>= rest') s := by
  cases hr : legion_daemon_name_exists curName s with
  | error r => rw [bind_error hr, bind_error (h.symm.trans hr)]
  | ok r =>
    obtain ⟨i?, t⟩ := r
    rw [bind_ok hr, bind_ok (h.symm.trans hr)]
    cases i? with
    | none => rw [hnone]
    | some i =>
      obtain ⟨d, hd, hname⟩ := name_exists_found hr
      obtain ⟨d', hd', hname'⟩ := name_exists_found (h.symm.trans hr)
      rw [hd] at hd'
      cases hd'
      rw [hsome (hname.trans hname'.symm)]

theorem SameFind.start {s : Master} {curName curName' : Option CString}
    (h : SameFind s curName curName') (logFileVersion : Char) :
    legion_start curName logFileVersion s = legion_start curName' logFileVersion s :=
  returning_congr (h.bind rfl fun he => by rw [he])

theorem SameFind.stop {s : Master} {curName curName' : Option CString}
    (h : SameFind s curName curName') : legion_stop curName s = legion_stop curName' s :=
  returning_congr (h.bind rfl fun he => by rw [he])

theorem SameFind.logrotate {s : Master} {curName curName' : Option CString}
    (h : SameFind s curName curName') : legion_logrotate curName s = legion_logrotate curName' s :=
  returning_congr (h.bind rfl fun he => by rw [he])

theorem SameFind.of_daemons {s s' : Master} {curName curName' : Option CString}
    (h : SameFind s curName curName') (hd : s'.daemons = s.daemons) :
    SameFind s' curName curName' := by
  unfold SameFind legion_daemon_name_exists at h ⊢
  rw [hd]
  cases curName <;> cases curName' <;> grind

/-! ## The commands -/

section Commands

variable {s₀ s₀' : Master} {C T : Prop}

theorem arg_text {s : Master} {k : Nat} {text : CString} (h : (s.argArr k).text = some text) :
    arg k s = .ok (text, s) := by
  rw [arg, h]

theorem twin_arg {k : Nat} (hk : (s₀'.argArr k).text = (s₀.argArr k).text) :
    Twin (Same s₀ s₀' C T) (arg k) := by
  intro s s' h
  rw [arg, arg, h.args.1, h.args.2, hk]
  split
  · exact .ok h
  · exact .error

theorem alike_register {s s' : Master} (h : Same s₀ s₀' C T s s') (hidx : s.argArrIdx ≤ 3)
    (curName curExe : CString) {args args' : CString}
    (hargs : strncpy DAEMON_ARGS_MAX_LENGTH args' = strncpy DAEMON_ARGS_MAX_LENGTH args) :
    Alike (Same s₀ s₀' C T) (legion_register curName curExe args s)
      (legion_register curName curExe args' s') := by
  have hnode : newNode curName curExe args' = newNode curName curExe args := by
    rw [newNode, newNode, hargs]
  have hnew : Same s₀ s₀' C T
      { s with daemons := newNode curName curExe args :: s.daemons }
      { s' with daemons := newNode curName curExe args' :: s'.daemons } :=
    { h with daemons := by rw [hnode, h.daemons] }
  rw [legion_register, legion_register, modify_bind, modify_bind, gets_bind, gets_bind,
    if_neg (Nat.not_lt.mpr hidx), if_neg (Nat.not_lt.mpr (h.argArrIdx ▸ hidx))]
  exact ((twin_sf_node 0 _).bind fun _ => .ret _) _ _ hnew

theorem twin_unregister (curName : Option CString) :
    Twin (Same s₀ s₀' C T) (legion_unregister curName) := by
  refine (twin_name_exists curName).bind fun i? => ?_
  cases i? with
  | none => exact .ret _
  | some i =>
    refine (twin_node i).bind fun _ => .ite ?_ (.ret _)
    exact .bind (.modify fun _ _ h => { h with daemons := congrArg (List.eraseIdx · i) h.daemons })
      fun _ => (twin_sf _).bind fun _ => .ret _

theorem alike_check_register (h : Same s₀ s₀' C T s₀ s₀') {given : Nat}
    (h₀ : (s₀'.argArr 0).text = (s₀.argArr 0).text) (hidx : s₀.argArrIdx ≤ 3)
    (hgiven : 2 ≤ given → ∃ curName curExe,
      (s₀.argArr 1).text = some curName ∧ (s₀'.argArr 1).text = some curName ∧
      (s₀.argArr 2).text = some curExe ∧ (s₀'.argArr 2).text = some curExe ∧
      (findName s₀ curName = none →
        strncpy DAEMON_ARGS_MAX_LENGTH ((s₀'.argArr 3).text.getD []) =
          strncpy DAEMON_ARGS_MAX_LENGTH ((s₀.argArr 3).text.getD []))) :
    Alike (Same s₀ s₀' C T) (check_register given s₀) (check_register given s₀') := by
  have herror : ∀ text, Twin (Same s₀ s₀' C T) (do
      fprintf text; sf_error "command execution"; printError (← arg 0)) := fun text =>
    (twin_fprintf text).bind fun _ => (twin_sf_error _).bind fun _ => (twin_arg h₀).bind fun _ =>
      twin_printError _
  rw [check_register]
  split
  · exact herror _ _ _ h
  · rename_i hmany
    obtain ⟨curName, curExe, h₁, h₁', h₂, h₂', h₃⟩ := hgiven (Nat.le_of_not_lt hmany)
    rw [slot, gets_bind, gets_bind, h₁, h₁', bind_ok (name_exists_run curName s₀),
      bind_ok (name_exists_run curName s₀'), h.daemons]
    cases hfind : s₀.daemons.findIdx? fun d => d.name = curName with
    | none =>
      simp only
      rw [bind_ok (arg_text h₁), bind_ok (arg_text h₁'), bind_ok (arg_text h₂),
        bind_ok (arg_text h₂'), slot, gets_bind, gets_bind]
      exact (alike_register h hidx curName curExe (h₃ hfind)).bind fun _ => Twin.ret _
    | some i => exact (twin_arg (h₁'.trans h₁.symm)).bind (fun _ => herror _) _ _ h

theorem twin_check_unregister {given : Nat}
    (h₀ : (s₀'.argArr 0).text = (s₀.argArr 0).text)
    (h₁ : given ≤ 1 → (s₀'.argArr 1).text = (s₀.argArr 1).text) :
    Twin (Same s₀ s₀' C T) (check_unregister given) := by
  rw [check_unregister]
  split
  · exact twin_print_err _ _ _
  · rename_i hfew
    have h₁ := h₁ (Nat.le_of_not_lt hfew)
    refine .bind (.gets fun _ _ h => by rw [h.args.1, h.args.2, h₁]) fun _ =>
      (twin_unregister _).bind fun _ => .ite ?_ (.ret _)
    exact (twin_arg h₁).bind fun _ => (twin_fprintf _).bind fun _ => (twin_sf_error _).bind fun _ =>
      (twin_arg h₀).bind fun _ => twin_printError _

theorem alike_check_status (h : Same s₀ s₀' C T s₀ s₀') {given : Nat}
    (h₀ : (s₀'.argArr 0).text = (s₀.argArr 0).text)
    (h₁ : given ≤ 1 → SameFind s₀ (s₀.argArr 1).text (s₀'.argArr 1).text) :
    Alike (Same s₀ s₀' C T) (check_status given s₀) (check_status given s₀') := by
  rw [check_status]
  split
  · exact twin_print_err _ _ _ _ _ h
  · rename_i hfew
    have hfind := (h₁ (Nat.le_of_not_lt hfew)).of_daemons h.daemons
    rw [slot, gets_bind, gets_bind, legion_status, legion_status,
      ← hfind.bind rfl fun _ => rfl]
    refine (twin_name_exists _).bind (fun i? => ?_) _ _ h
    cases i? with
    | none => exact (twin_sf_error _).bind fun _ => (twin_arg h₀).bind fun _ => twin_printError _
    | some i => exact (twin_node i).bind fun _ => twin_fprintf _

theorem twin_check_status_all (given : Nat) :
    Twin (Same s₀ s₀' C T) (check_status_all given) :=
  .ite (twin_print_err _ _ _) (.bind (.gets fun _ _ h => h.daemons.symm) fun _ =>
    .forEach (fun _ => twin_fprintf _) _)

theorem alike_check_daemon (h : Same s₀ s₀' C T s₀ s₀') {given : Nat}
    (h₀ : (s₀'.argArr 0).text = (s₀.argArr 0).text) (command : String)
    {run : Option CString → Exec Master Int}
    (hrun : given ≤ 1 →
      Alike (Same s₀ s₀' C T) (run (s₀.argArr 1).text s₀) (run (s₀'.argArr 1).text s₀')) :
    Alike (Same s₀ s₀' C T) (check_daemon command run given s₀)
      (check_daemon command run given s₀') := by
  rw [check_daemon]
  split
  · exact twin_print_err _ _ _ _ _ h
  · rename_i hfew
    rw [slot, gets_bind, gets_bind]
    have hend : ∀ res : Int, Twin (Same s₀ s₀' C T)
        (if res = LEGION_ERROR then do printError (← arg 0) else pure ()) := fun _ =>
      .ite ((twin_arg h₀).bind fun _ => twin_printError _) (.ret _)
    exact (hrun (Nat.le_of_not_lt hfew)).bind hend

end Commands

/-! ## The whole line -/

section Line

variable {s s' : Master} {v v' : ArgVector} {command : CString} {rest : List CString}

@[simp] theorem Master.withArgs_argArr (s : Master) (v : ArgVector) :
    (s.withArgs v).argArr = v.argArr := rfl

@[simp] theorem Master.withArgs_argArrIdx (s : Master) (v : ArgVector) :
    (s.withArgs v).argArrIdx = v.argArrIdx := rfl

theorem few_tokens (hv : Stored s.argArr (command :: rest) v)
    (hfew : v.argArrIdx - 1 ≤ 1) : rest = [] ∨ ∃ curName, rest = [curName] := by
  have hidx := hv.idx
  match rest with
  | [] => exact .inl rfl
  | [curName] => exact .inr ⟨curName, rfl⟩
  | _ :: _ :: _ =>
    simp only [List.length_cons] at hidx
    omega

/-- The slot 1 of a command that finds a daemon by it. -/
theorem find_slot (hv : Stored s.argArr (command :: rest) v)
    (hv' : Stored s'.argArr (command :: rest) v') (hslots : SlotsAgree s s' (command :: rest))
    (hcommand : command ∈ ["status".toList, "start".toList, "stop".toList, "logrotate".toList])
    (hfew : v.argArrIdx - 1 ≤ 1) :
    SameFind (s.withArgs v) ((s.withArgs v).argArr 1).text ((s'.withArgs v').argArr 1).text ∧
      addressed (s.withArgs v) ((s.withArgs v).argArr 1).text = target s (command :: rest) := by
  rw [Master.withArgs_argArr, Master.withArgs_argArr]
  rcases few_tokens hv hfew with rfl | ⟨curName, rfl⟩
  · rw [hv.kept 1 (Nat.le_refl 1), hv'.kept 1 (Nat.le_refl 1)]
    exact ⟨(hslots.2 hcommand).of_daemons rfl, rfl⟩
  · rw [hv.own 1 curName (by decide) rfl, hv'.own 1 curName (by decide) rfl]
    exact ⟨rfl, rfl⟩

theorem unregister_slot (hv : Stored s.argArr (command :: rest) v)
    (hv' : Stored s'.argArr (command :: rest) v') (hslots : SlotsAgree s s' (command :: rest))
    (hcommand : command = "unregister".toList) (hfew : v.argArrIdx - 1 ≤ 1) :
    (v'.argArr 1).text = (v.argArr 1).text := by
  rcases few_tokens hv hfew with rfl | ⟨curName, rfl⟩
  · rw [hv.kept 1 (Nat.le_refl 1), hv'.kept 1 (Nat.le_refl 1)]
    exact hslots.1 hcommand
  · rw [hv.own 1 curName (by decide) rfl, hv'.own 1 curName (by decide) rfl]

theorem register_slots (hv : Stored s.argArr (command :: rest) v)
    (hv' : Stored s'.argArr (command :: rest) v') (hslots : SlotsAgree s s' (command :: rest))
    (hcommand : command = "register".toList) (hmany : 2 ≤ v.argArrIdx - 1) :
    ∃ curName curExe,
      (v.argArr 1).text = some curName ∧ (v'.argArr 1).text = some curName ∧
      (v.argArr 2).text = some curExe ∧ (v'.argArr 2).text = some curExe ∧
      (findName s curName = none →
        strncpy DAEMON_ARGS_MAX_LENGTH ((v'.argArr 3).text.getD []) =
          strncpy DAEMON_ARGS_MAX_LENGTH ((v.argArr 3).text.getD [])) := by
  have hidx := hv.idx
  match rest with
  | [] =>
    simp only [List.length_cons, List.length_nil] at hidx
    omega
  | [_] =>
    simp only [List.length_cons, List.length_nil] at hidx
    omega
  | curName :: curExe :: more =>
    refine ⟨curName, curExe, ?_⟩
    rw [hv.own 1 curName (by decide) rfl, hv'.own 1 curName (by decide) rfl,
      hv.own 2 curExe (by decide) rfl, hv'.own 2 curExe (by decide) rfl]
    refine ⟨rfl, rfl, rfl, rfl, fun hfind => ?_⟩
    cases more with
    | nil =>
      rw [hv.kept 3 (Nat.le_refl 3), hv'.kept 3 (Nat.le_refl 3)]
      exact hslots hcommand hfind
    | cons text more =>
      have hlong : 3 < (command :: curName :: curExe :: text :: more).length := by
        simp only [List.length_cons]
        omega
      rw [hv.shared hlong, hv'.shared hlong]

theorem alike_check_command (hv : Stored s.argArr (command :: rest) v)
    (hv' : Stored s'.argArr (command :: rest) v') (hconfined : Confined s s' (command :: rest))
    {C T : Prop} (hC : MayStop s (command :: rest) → C ∧ T) (hT : MayStart s (command :: rest) → T)
    (h : Same (s.withArgs v) (s'.withArgs v') C T (s.withArgs v) (s'.withArgs v')) :
    Alike (Same (s.withArgs v) (s'.withArgs v') C T)
      (check_command command (v.argArrIdx - 1) (s.withArgs v))
      (check_command command (v.argArrIdx - 1) (s'.withArgs v')) := by
  have h₀ : ((s'.withArgs v').argArr 0).text = ((s.withArgs v).argArr 0).text := by
    rw [Master.withArgs_argArr, Master.withArgs_argArr, hv.own 0 command (by decide) rfl,
      hv'.own 0 command (by decide) rfl]
  have hfind := find_slot hv hv' hconfined.slots
  unfold check_command
  refine .ite (fun _ => twin_fprintf _ _ _ h) fun _ => ?_
  refine .ite (fun hquit => ?_) fun _ => ?_
  · exact alike_quit h fun hactive => hC (.inl ⟨congrArg some hquit, hactive⟩)
  refine .ite (fun hregister => ?_) fun _ => ?_
  · have hslots := register_slots hv hv' hconfined.slots hregister
    exact alike_check_register h h₀ (by rw [Master.withArgs_argArrIdx, hv.idx]; omega) hslots
  refine .ite (fun hunregister => ?_) fun _ => ?_
  · have hslot := unregister_slot hv hv' hconfined.slots hunregister
    exact twin_check_unregister h₀ hslot _ _ h
  refine .ite (fun hstatus => ?_) fun _ => ?_
  · exact alike_check_status h h₀ fun hfew => (hfind (by rw [hstatus]; decide) hfew).1
  refine .ite (fun _ => twin_check_status_all _ _ _ h) fun _ => ?_
  refine .ite (fun hstart => ?_) fun _ => ?_
  · refine alike_check_daemon h h₀ "start" fun hfew => ?_
    obtain ⟨hsame, htarget⟩ := hfind (by rw [hstart]; decide) hfew
    rw [← (hsame.of_daemons h.daemons).start '0']
    refine alike_start h _ _ ?_
    rintro ⟨d, hd, hinactive⟩
    exact hT ⟨congrArg some hstart, d, htarget.symm.trans hd, hinactive⟩
  refine .ite (fun hstop => ?_) fun _ => ?_
  · refine alike_check_daemon h h₀ "stop" fun hfew => ?_
    obtain ⟨hsame, htarget⟩ := hfind (by rw [hstop]; decide) hfew
    rw [← (hsame.of_daemons h.daemons).stop]
    refine alike_stop h _ ?_
    rintro ⟨d, hd, hactive⟩
    exact hC (.inr ⟨.inl (congrArg some hstop), d, htarget.symm.trans hd, hactive⟩)
  refine .ite (fun hlogrotate => ?_) fun _ => ?_
  · refine alike_check_daemon h h₀ "logrotate" fun hfew => ?_
    obtain ⟨hsame, htarget⟩ := hfind (by rw [hlogrotate]; decide) hfew
    rw [← (hsame.of_daemons h.daemons).logrotate]
    refine alike_logrotate h _ ?_
    rintro ⟨d, hd, hactive⟩
    exact hC (.inr ⟨.inr (congrArg some hlogrotate), d, htarget.symm.trans hd, hactive⟩)
  exact (twin_arg h₀).bind (fun _ => (twin_fprintf _).bind fun _ => (twin_sf_error _).bind
    fun _ => (twin_arg h₀).bind fun _ => twin_printError _) _ _ h

theorem alike_check_args {ts : List CString} (hv : Stored s.argArr ts v)
    (hv' : Stored s'.argArr ts v') (htable : s'.daemons = s.daemons)
    (houtcomes : SameOutcomes s.kernel s'.kernel) (hconfined : Confined s s' ts) :
    Alike (Same (s.withArgs v) (s'.withArgs v') (MayStop s ts) (MayStop s ts ∨ MayStart s ts))
      (legion_check_args (s.withArgs v)) (legion_check_args (s'.withArgs v')) := by
  have hidx : v'.argArrIdx = v.argArrIdx := hv'.idx.trans hv.idx.symm
  have h : Same (s.withArgs v) (s'.withArgs v') (MayStop s ts) (MayStop s ts ∨ MayStart s ts)
      (s.withArgs v) (s'.withArgs v') :=
    { daemons := htable
      args := ⟨rfl, rfl⟩
      argArrIdx := hidx
      sigchld := hconfined.sigchld
      sigalrm := hconfined.sigalrm
      out := ⟨[], (List.append_nil _).symm, (List.append_nil _).symm⟩
      events := ⟨[], (List.append_nil _).symm, (List.append_nil _).symm⟩
      kernel := houtcomes }
  have hrun : ∀ t : Master, t.argArrIdx = v.argArrIdx → legion_check_args t =
      (if 0 < v.argArrIdx then do check_command (← arg 0) (v.argArrIdx - 1) else pure ()) t :=
    fun t ht => by rw [legion_check_args, gets_bind, ht]
  rw [hrun _ rfl, hrun _ hidx]
  cases ts with
  | nil =>
    rw [if_neg (by rw [hv.idx]; decide)]
    exact .ok h
  | cons command rest =>
    have h₀ : (s.withArgs v).argArr 0 = .own command := hv.own 0 command (by decide) rfl
    have h₀' : (s'.withArgs v').argArr 0 = .own command := hv'.own 0 command (by decide) rfl
    rw [if_pos (by rw [hv.idx, List.length_cons]; omega), bind_ok (arg_own h₀),
      bind_ok (arg_own h₀')]
    exact alike_check_command hv hv' hconfined (fun hstop => ⟨hstop, .inl hstop⟩) .inr h

/-- Neither effect nor output depends on what a confined line does not look at. -/
theorem alike_parse_args {curStr : List Char} (htable : s'.daemons = s.daemons)
    (houtcomes : SameOutcomes s.kernel s'.kernel)
    (hconfined : ∀ ts, tokenise curStr = .ok (some ts) → Confined s s' ts) :
    Alike (SameEffect s s') (legion_parse_args curStr s) (legion_parse_args curStr s') := by
  cases ht : tokenise curStr with
  | error r =>
    have herror : ∀ argArr, parseArgs argArr curStr = .error r := fun _ => by rw [parseArgs, ht]
    rw [parse_args_error (herror _), parse_args_error (herror _)]
    exact .error
  | ok ts? =>
    cases ts? with
    | none =>
      have hgiven : ∀ t : Master, legion_parse_args curStr t =
          .ok ((), { t with argArrIdx := 0 }) := fun t => by
        rw [legion_parse_args, gets_bind, parseArgs, ht]
        rfl
      rw [hgiven, hgiven]
      exact .ok
        { daemons := htable
          out := ⟨[], (List.append_nil _).symm, (List.append_nil _).symm⟩
          events := ⟨[], (List.append_nil _).symm, (List.append_nil _).symm⟩ }
    | some ts =>
      have hsome : (storeTokens s'.argArr ts).isSome = (storeTokens s.argArr ts).isSome := by
        rw [Bool.eq_iff_iff, storeTokens_isSome, storeTokens_isSome]
      cases hv : storeTokens s.argArr ts with
      | none =>
        rw [hv, Option.isSome_none, Option.isSome_eq_false_iff, Option.isNone_iff_eq_none] at hsome
        rw [parse_args_error (parseArgs_full ht hv), parse_args_error (parseArgs_full ht hsome)]
        exact .error
      | some v =>
        obtain ⟨v', hv'⟩ := Option.isSome_iff_exists.mp (hsome.trans (by rw [hv]; rfl))
        rw [parse_args_execute (parseArgs_some ht hv), parse_args_execute (parseArgs_some ht hv'),
          executeArgs, executeArgs, modify_bind, modify_bind]
        have hargs := alike_check_args (stored_of_storeTokens hv) (stored_of_storeTokens hv')
          htable houtcomes (hconfined ts ht)
        exact hargs.bind fun _ t t' h =>
          .ok { daemons := h.daemons, out := h.out, events := h.events }

end Line

theorem parse_args_alike (a b : History) (curStr : List Char)
    (htable : b.state.daemons = a.state.daemons)
    (houtcomes : SameOutcomes a.state.kernel b.state.kernel)
    (hconfined : ∀ ts, tokenise curStr = .ok (some ts) → Confined a.state b.state ts) :
    Alike (SameEffect a.state b.state) (legion_parse_args curStr a.state)
      (legion_parse_args curStr b.state) :=
  alike_parse_args htable houtcomes hconfined

def fresh : History where
  lines := []
  nature := idle
  pathSet := true
  files := fun _ => none
  state := .initial idle true fun _ => none
  run := rfl

/-- What was in `argContainer` is there still. -/
def remembering : Nature := { idle with leftover := fun _ _ => "c".toList }

def used : History where
  lines := [registerArgs.chars, unregisterArgs.chars]
  nature := remembering
  pathSet := true
  files := fun _ => none
  state := after (forEach turnOn [registerArgs.fields, unregisterArgs.fields])
    (.initial remembering true fun _ => none)
  run := by
    have hends : Ends (forEach turnOn [registerArgs.fields, unregisterArgs.fields])
        (.initial remembering true fun _ => none) fun _ _ => True := by decide +kernel
    have hlines := turns_fields [registerArgs, unregisterArgs] (by decide)
      (.initial remembering true fun _ => none)
    exact hlines.trans (hends.mono fun _ _ h => ⟨rfl, h⟩).eq_after.1

theorem used_outcomes : SameOutcomes fresh.state.kernel used.state.kernel where
  moment := fun _ => rfl
  pathSet := rfl
  chldBlocked := rfl
  chldPending := rfl
  terminated := fun _ => Iff.rfl
  files := fun _ => rfl

theorem parse_args_alike_used :
    Alike (SameEffect fresh.state used.state)
      (legion_parse_args startLazy.chars fresh.state)
      (legion_parse_args startLazy.chars used.state) := by
  refine parse_args_alike fresh used startLazy.chars rfl used_outcomes fun ts ht => ?_
  have hfields : tokenise startLazy.chars = .ok (some startLazy.fields) :=
    tokenise_fields (by decide) (by decide)
  rw [hfields] at ht
  cases ht
  exact { slots := trivial, sigchld := fun _ => rfl, sigalrm := fun _ => rfl }

/-- The daemon gets the argument of the one that is not there any more. -/
theorem earlier_argument_registered :
    ¬ ∀ (a b : History) (curStr : List Char), b.state.daemons = a.state.daemons →
      SameOutcomes a.state.kernel b.state.kernel →
      Alike (SameEffect a.state b.state) (legion_parse_args curStr a.state)
        (legion_parse_args curStr b.state) := by
  intro h
  have halike := h fresh used registerShort.chars rfl used_outcomes
  have ht : tokenise registerShort.chars =
      .ok (some ["register".toList, "x".toList, "y".toList]) :=
    tokenise_fields (by decide) (by decide)
  have hstore : ∀ argArr, ∃ v, storeTokens argArr ["register".toList, "x".toList, "y".toList] =
      some v := fun argArr =>
    Option.isSome_iff_exists.mp ((storeTokens_isSome argArr _).mpr (by decide))
  obtain ⟨v, hv⟩ := hstore fresh.state.argArr
  obtain ⟨w, hw⟩ := hstore used.state.argArr
  have hslot : (v.argArr 3).text = none := by
    rw [(stored_of_storeTokens hv).kept 3 (by decide)]
    rfl
  have hstale : (w.argArr 3).text = some "c".toList := by
    rw [(stored_of_storeTokens hw).kept 3 (by decide)]
    rfl
  have hnew : findName fresh.state "x".toList = none := rfl
  have hnew' : findName used.state "x".toList = none := rfl
  obtain ⟨_, t, hp, hdaemons⟩ := register_ends ht hv
  obtain ⟨_, t', hp', hdaemons'⟩ := register_ends ht hw
  rw [hp, hp'] at halike
  cases halike with
  | ok heffect =>
    have htable := heffect.daemons
    rw [hdaemons, hdaemons', if_pos hnew, if_pos hnew', hslot, hstale] at htable
    have hargs := congrArg DaemonNode.daemonArgs (List.cons.inj htable).1
    exact absurd (congrArg CharArray.chars hargs) (by decide +kernel)

end StarterProjects.Legion
