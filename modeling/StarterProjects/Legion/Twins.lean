import StarterProjects.Legion.Frames

/-!
# One command in two states

`Same` relates two runs of one command, from states that may have different pasts: the tables
are equal, the system calls answer alike, and what has been printed since the start is the same.
The flags of the signals need only agree where they are tested, and the slots of `argArr` where
they are looked into.
-/

namespace StarterProjects.Legion

open Lib Lib.Exec

/-- The kernels answer alike from now on, with the same signals at the same moments. -/
structure SameOutcomes (k k' : Kernel) : Prop where
  moment : ∀ n, k'.nature.moment (k'.clock + n) = k.nature.moment (k.clock + n)
  pathSet : k'.pathSet = k.pathSet
  chldBlocked : k'.chldBlocked = k.chldBlocked
  chldPending : k'.chldPending = k.chldPending
  terminated : ∀ pid, pid ∈ k'.terminated ↔ pid ∈ k.terminated
  files : ∀ path, (k'.files path).isSome = (k.files path).isSome

/-- Two states on the way from `s₀` and `s₀'`. The flag of SIGCHLD agrees if `C` holds, that of
SIGALRM if `T` holds. -/
structure Same (s₀ s₀' : Master) (C T : Prop) (s s' : Master) : Prop where
  daemons : s'.daemons = s.daemons
  args : s.argArr = s₀.argArr ∧ s'.argArr = s₀'.argArr
  argArrIdx : s'.argArrIdx = s.argArrIdx
  sigchld : C → s'.sigchld_flag = s.sigchld_flag
  sigalrm : T → s'.sigalrm_flag = s.sigalrm_flag
  out : ∃ text, s.out = s₀.out ++ text ∧ s'.out = s₀'.out ++ text
  events : ∃ events, s.events = s₀.events ++ events ∧ s'.events = s₀'.events ++ events
  kernel : SameOutcomes s.kernel s'.kernel

/-! ## Signals -/

namespace Same

variable {s₀ s₀' s s' : Master} {C T : Prop}

theorem answers (h : Same s₀ s₀' C T s s') : s'.answers = s.answers := h.kernel.moment 0

theorem deliver (h : Same s₀ s₀' C T s s') (signal : Signal) :
    Same s₀ s₀' C T (s.deliver signal) (s'.deliver signal) := by
  cases signal with
  | alarm => exact { h with sigalrm := fun _ => rfl }
  | terminates pid =>
    have hterminated : ∀ p, p ∈ pid :: s'.kernel.terminated ↔ p ∈ pid :: s.kernel.terminated :=
      fun p => by rw [List.mem_cons, List.mem_cons, h.kernel.terminated p]
    have hkernel := h.kernel
    unfold Master.deliver
    simp only
    split
    · rename_i hblocked
      rw [if_pos (h.kernel.chldBlocked.trans hblocked)]
      exact { h with kernel := { hkernel with terminated := hterminated, chldPending := rfl } }
    · rename_i hfree
      rw [if_neg (by rwa [h.kernel.chldBlocked])]
      exact { h with
        sigchld := fun _ => rfl
        kernel := { hkernel with terminated := hterminated } }

theorem deliverAll (signals : List Signal) :
    ∀ {s s' : Master}, Same s₀ s₀' C T s s' →
      Same s₀ s₀' C T (s.deliverAll signals) (s'.deliverAll signals) := by
  induction signals with
  | nil => exact fun h => h
  | cons signal signals ih => exact fun h => ih (h.deliver signal)

theorem tick (h : Same s₀ s₀' C T s s') : Same s₀ s₀' C T s.tick s'.tick := by
  have hkernel := h.kernel
  refine { h with kernel := { hkernel with moment := fun n => ?_ } }
  have := h.kernel.moment (n + 1)
  rwa [Nat.add_comm n 1, ← Nat.add_assoc, ← Nat.add_assoc] at this

theorem pass (h : Same s₀ s₀' C T s s') : Same s₀ s₀' C T s.pass s'.pass := by
  unfold Master.pass
  rw [h.answers]
  exact h.tick.deliverAll _

theorem wake (h : Same s₀ s₀' C T s s') : Same s₀ s₀' C T s.wake s'.wake := by
  have hkernel := h.kernel
  have hawaited : s'.awaited = s.awaited := by
    rw [Master.awaited, Master.awaited, h.kernel.chldPending, h.answers]
  have hunblock : Same s₀ s₀' C T s.unblock s'.unblock :=
    { h with
      sigchld := fun hC => congrArg₂ (· || ·) (h.sigchld hC) h.kernel.chldPending
      kernel := { hkernel with chldBlocked := rfl, chldPending := rfl } }
  have hwoken := hunblock.tick.deliverAll s.awaited
  have hkernel' := hwoken.kernel
  unfold Master.wake
  rw [hawaited]
  exact { hwoken with kernel := { hkernel' with chldBlocked := h.kernel.chldBlocked } }

end Same

/-! ## System calls and the table -/

section Twins

variable {s₀ s₀' : Master} {C T : Prop} {α : Type}

theorem twin_syscall (answer : Answers → Int) : Twin (Same s₀ s₀' C T) (syscall answer) := by
  intro s s' h
  unfold syscall
  rw [h.answers]
  exact .ok h.pass

theorem twin_logCall (call : Master → Call) : Twin (Same s₀ s₀' C T) (logCall call) :=
  .modify fun _ _ h =>
    have hkernel := h.kernel
    { h with kernel := { hkernel with } }

theorem twin_kill (pid : Int) (signal : KillSignal) : Twin (Same s₀ s₀' C T) (kill pid signal) :=
  (twin_syscall _).bind fun _ => (twin_logCall _).bind fun _ => .ret _

theorem twin_fork : Twin (Same s₀ s₀' C T) fork := by
  refine .bind (.modify fun s s' h => ?_) fun _ => (twin_syscall _).bind fun pid =>
    .bind (.modify fun s s' h => ?_) fun _ => .ret _
  · have hkernel := h.kernel
    rw [h.answers]
    refine { h with kernel := { hkernel with terminated := fun pid => ?_ } }
    show pid ∈ List.filter _ _ ↔ pid ∈ List.filter _ _
    rw [List.mem_filter, List.mem_filter, h.kernel.terminated pid]
  · have hkernel := h.kernel
    exact { h with kernel := { hkernel with } }

theorem twin_read : Twin (Same s₀ s₀' C T) read :=
  (twin_syscall _).bind fun _ => (twin_logCall _).bind fun _ => .ret _

theorem twin_waitpid (pid : Int) : Twin (Same s₀ s₀' C T) (waitpid pid) := by
  refine (twin_logCall _).bind fun _ => (twin_syscall _).bind fun answer => .ite (.ret _) ?_
  intro s s' h
  rw [gets_bind, gets_bind]
  simp only [h.kernel.terminated pid]
  split
  · exact .ok h
  · exact .error

theorem twin_blockChld : Twin (Same s₀ s₀' C T) blockChld :=
  .modify fun _ _ h =>
    have hkernel := h.kernel
    { h with kernel := { hkernel with chldBlocked := rfl } }

theorem twin_sigsuspend : Twin (Same s₀ s₀' C T) sigsuspend :=
  .bind (.modify fun _ _ h => h.wake) fun _ => twin_logCall _

theorem SameOutcomes.update {k k' : Kernel} (h : SameOutcomes k k') (path : CString)
    {file file' : Option (List Nat)} (hfile : file'.isSome = file.isSome) (p : CString) :
    (Function.update k'.files path file' p).isSome =
      (Function.update k.files path file p).isSome := by
  by_cases hp : p = path
  · subst hp
    rw [Function.update_self, Function.update_self, hfile]
  · rw [Function.update_of_ne hp, Function.update_of_ne hp, h.files p]

theorem Same.openLog {s s' : Master} (h : Same s₀ s₀' C T s s') (path : CString) :
    Same s₀ s₀' C T (s.openLog path) (s'.openLog path) :=
  have hkernel := h.kernel
  { h with kernel := { hkernel with files := h.kernel.update path rfl } }

theorem Same.setFile {s s' : Master} (h : Same s₀ s₀' C T s s') (path : CString)
    {file file' : Option (List Nat)} (hfile : file'.isSome = file.isSome) :
    Same s₀ s₀' C T (s.setFile path file) (s'.setFile path file') :=
  have hkernel := h.kernel
  { h with kernel := { hkernel with files := h.kernel.update path hfile } }

theorem twin_fprintf (text : CString) : Twin (Same s₀ s₀' C T) (fprintf text) := by
  refine .modify fun s s' h => ?_
  obtain ⟨before, hs, hs'⟩ := h.out
  exact { h with out := ⟨before ++ text, by simp only [hs, List.append_assoc],
    by simp only [hs', List.append_assoc]⟩ }

theorem twin_sf (event : SfEvent) : Twin (Same s₀ s₀' C T) (sf event) := by
  refine .modify fun s s' h => ?_
  obtain ⟨before, hs, hs'⟩ := h.events
  exact { h with events := ⟨before ++ [event], by simp only [hs, List.append_assoc],
    by simp only [hs', List.append_assoc]⟩ }

theorem twin_sf_error (reason : String) : Twin (Same s₀ s₀' C T) (sf_error reason) := twin_sf _

theorem twin_sf_error_errMsg (before : String) (curName : CString) (after : String) :
    Twin (Same s₀ s₀' C T) (sf_error_errMsg before curName after) :=
  .ite (twin_sf _) (.stop _)

theorem twin_node (i : Nat) : Twin (Same s₀ s₀' C T) (node i) := by
  intro s s' h
  rw [node, node, h.daemons]
  split
  · exact .ok h
  · exact .error

theorem twin_sf_node (i : Nat) (event : DaemonNode → SfEvent) :
    Twin (Same s₀ s₀' C T) (sf_node i event) :=
  (twin_node i).bind fun _ => twin_sf _

theorem twin_setStatus (i : Nat) (status : DaemonStatus) :
    Twin (Same s₀ s₀' C T) (setStatus i status) :=
  .modify fun _ _ h => { h with daemons := congrArg (List.modify · i _) h.daemons }

theorem twin_setProcessID (i : Nat) (pid : Int) :
    Twin (Same s₀ s₀' C T) (setProcessID i pid) :=
  .modify fun _ _ h => { h with daemons := congrArg (List.modify · i _) h.daemons }

theorem twin_name_exists (curName : Option CString) :
    Twin (Same s₀ s₀' C T) (legion_daemon_name_exists curName) := by
  intro s s' h
  unfold legion_daemon_name_exists
  rw [h.daemons]
  cases curName with
  | some name => exact .ok h
  | none =>
    simp only
    split
    · exact .ok h
    · exact .error

theorem twin_clearSigchld : Twin (Same s₀ s₀' C T) clearSigchld :=
  .modify fun _ _ h => { h with sigchld := fun _ => rfl }

theorem twin_clearSigalrm : Twin (Same s₀ s₀' C T) clearSigalrm :=
  .modify fun _ _ h => { h with sigalrm := fun _ => rfl }

theorem twin_printError (curArg : CString) : Twin (Same s₀ s₀' C T) (printError curArg) :=
  twin_fprintf _

theorem twin_print_err (given required : Nat) (curArg : CString) :
    Twin (Same s₀ s₀' C T) (legion_check_args_print_err given required curArg) :=
  (twin_fprintf _).bind fun _ => (twin_sf_error _).bind fun _ => twin_printError _

/-! ## The functions on a daemon -/

/-- The daemon that a command finds by this name. -/
def addressed (s : Master) (curName : Option CString) : Option DaemonNode :=
  curName.bind fun name => (findName s name).bind fun i => s.daemons[i]?

theorem alike_returning {m : Exec Master Int} {s s' : Master}
    (h : Alike (Same s₀ s₀' C T) (m s) (m s')) :
    Alike (Same s₀ s₀' C T) (returning m s) (returning m s') :=
  h.bind fun _ => (twin_logCall _).bind fun _ => .ret _

/-- The search by the name comes first, and then the node is looked at. -/
theorem alike_lookup {s s' : Master} (h : Same s₀ s₀' C T s s') {curName : Option CString}
    {rest : Option Nat → Exec Master α} {found : Nat → DaemonNode → Exec Master α}
    (hnone : Twin (Same s₀ s₀' C T) (rest none))
    (hrest : ∀ i, rest (some i) = node i >>= found i)
    (hfound : ∀ i d, addressed s curName = some d →
      Alike (Same s₀ s₀' C T) (found i d s) (found i d s')) :
    Alike (Same s₀ s₀' C T) ((legion_daemon_name_exists curName >>= rest) s)
      ((legion_daemon_name_exists curName >>= rest) s') := by
  cases curName with
  | none =>
    have hnull : ∀ t : Master, legion_daemon_name_exists none t =
        if t.daemons = [] then .ok (none, t) else .error .undefined := fun _ => rfl
    by_cases hempty : s.daemons = []
    · rw [bind_ok ((hnull s).trans (if_pos hempty)),
        bind_ok ((hnull s').trans (if_pos (h.daemons.trans hempty)))]
      exact hnone _ _ h
    · rw [bind_error ((hnull s).trans (if_neg hempty)),
        bind_error ((hnull s').trans (if_neg (h.daemons ▸ hempty)))]
      exact .error
  | some name =>
    rw [bind_ok (name_exists_run name s), bind_ok (name_exists_run name s'), h.daemons]
    cases hfind : s.daemons.findIdx? fun d => d.name = name with
    | none => exact hnone _ _ h
    | some i =>
      rw [hrest]
      cases hd : s.daemons[i]? with
      | none =>
        have hnode : ∀ t : Master, t.daemons[i]? = none → node i t = .error .undefined :=
          fun t ht => by rw [node, ht]
        rw [bind_error (hnode s hd), bind_error (hnode s' (by rw [h.daemons, hd]))]
        exact .error
      | some d =>
        rw [bind_ok (node_run hd), bind_ok (node_run (by rw [h.daemons, hd]))]
        refine hfound i d ?_
        rw [addressed, Option.bind_some, findName, hfind, Option.bind_some, hd]

theorem twin_stop_wait (i : Nat) : Twin (Same s₀ s₀' C T) (legion_stop_wait i) :=
  (twin_setStatus i _).bind fun _ => (twin_sf_node i _).bind fun _ => (twin_node i).bind fun _ =>
    (twin_kill _ _).bind fun _ => .ite (.ret _) (twin_sigsuspend.bind fun _ => .ret _)

theorem twin_stop_woken (hC : C) (hT : T) (i : Nat) (curName : CString) :
    Twin (Same s₀ s₀' C T) (legion_stop_woken i curName) := by
  refine .bind (.gets fun _ _ h => (h.sigchld hC).symm) fun _ => .ite ?_
    (.bind (.gets fun _ _ h => (h.sigalrm hT).symm) fun _ => .ite ?_ ?_)
  · refine (twin_node i).bind fun _ => (twin_waitpid _).bind fun _ => .ite ?_ ?_
    · exact (twin_sf_error_errMsg _ _ _).bind fun _ => (twin_setProcessID i _).bind fun _ =>
        (twin_setStatus i _).bind fun _ => (twin_sf_node i _).bind fun _ => .ret _
    · exact (twin_setStatus i _).bind fun _ => twin_clearSigchld.bind fun _ =>
        (twin_sf_node i _).bind fun _ => .ret _
  · exact (twin_node i).bind fun _ => (twin_sf _).bind fun _ => (twin_kill _ _).bind fun _ =>
      (twin_sf_error_errMsg _ _ _).bind fun _ => twin_clearSigalrm.bind fun _ => .ret _
  · exact (twin_setStatus i _).bind fun _ => .ret _

theorem alike_stop {s s' : Master} (h : Same s₀ s₀' C T s s') (curName : Option CString)
    (hflags : (∃ d, addressed s curName = some d ∧ d.daemonStatus = .active) → C ∧ T) :
    Alike (Same s₀ s₀' C T) (legion_stop curName s) (legion_stop curName s') := by
  refine alike_returning (alike_lookup h (.stop _) (fun _ => rfl) fun i d hd => ?_)
  split
  · exact (twin_setStatus i _).bind (fun _ => (twin_sf_node i _).bind fun _ => .ret _) _ _ h
  · split
    · exact (twin_sf_error _).bind (fun _ => .ret _) _ _ h
    · rename_i hactive
      obtain ⟨hC, hT⟩ := hflags ⟨d, hd, not_not.mp hactive⟩
      refine (twin_stop_wait i).bind (fun _ => .ite (twin_stop_woken hC hT i _) ?_) _ _ h
      exact (twin_sf_error_errMsg _ _ _).bind fun _ => .ret _

theorem twin_stop (hC : C) (hT : T) (curName : Option CString) :
    Twin (Same s₀ s₀' C T) (legion_stop curName) :=
  fun _ _ h => alike_stop h curName fun _ => ⟨hC, hT⟩

theorem twin_start_exec : Twin (Same s₀ s₀' C T) legion_start_exec := by
  have herror : ∀ reason, Twin (Same s₀ s₀' C T) (do sf_error reason; return LEGION_ERROR) :=
    fun reason => (twin_sf_error reason).bind fun _ => .ret _
  exact (twin_syscall _).bind fun _ => .ite (herror _) ((twin_syscall _).bind fun _ =>
    .ite (herror _) ((twin_syscall _).bind fun _ => .ite (herror _) (.stop _)))

theorem twin_start_child (curName : CString) (logFileVersion : Char) :
    Twin (Same s₀ s₀' C T) (legion_start_child curName logFileVersion) :=
  .bind (.gets fun _ _ h => h.kernel.pathSet.symm) fun _ =>
    .ite (.stop _) (.bind (.modify fun _ _ h => h.openLog _) fun _ => twin_start_exec)

theorem twin_start_sync (hT : T) (i : Nat) (curName : CString) (childPID : Int) :
    Twin (Same s₀ s₀' C T) (legion_start_sync i curName childPID) := by
  have hrest : Twin (Same s₀ s₀' C T) (do
      if ← Exec.gets Master.sigalrm_flag then
        sf (.stop curName childPID)
        setStatus i .crashed
        clearSigalrm
        return LEGION_ERROR
      else
        return LEGION_SUCCESS) :=
    .bind (.gets fun _ _ h => (h.sigalrm hT).symm) fun _ => .ite ((twin_sf _).bind fun _ =>
      (twin_setStatus i _).bind fun _ => twin_clearSigalrm.bind fun _ => .ret _) (.ret _)
  refine twin_blockChld.bind fun _ => twin_read.bind fun _ => .ite ?_ hrest
  exact (twin_sf_node i _).bind fun _ => (twin_setProcessID i _).bind fun _ =>
    (twin_setStatus i _).bind fun _ => (twin_sf_node i _).bind fun _ => hrest

theorem twin_start_parent (hT : T) (i : Nat) (curName : CString) (logFileVersion : Char)
    (childPID : Int) :
    Twin (Same s₀ s₀' C T) (legion_start_parent i curName logFileVersion childPID) := by
  refine .bind (.modify fun s s' h => ?_) fun _ => twin_start_sync hT i curName childPID
  rw [h.kernel.pathSet]
  split
  · exact h.openLog _
  · exact h

theorem twin_start_node (hT : T) (i : Nat) (curName : CString) (logFileVersion : Char) :
    Twin (Same s₀ s₀' C T) (legion_start_node i curName logFileVersion) := by
  have herror : ∀ reason, Twin (Same s₀ s₀' C T) (do
      setStatus i .inactive; sf_error reason; return LEGION_ERROR) := fun reason =>
    (twin_setStatus i _).bind fun _ => (twin_sf_error reason).bind fun _ => .ret _
  refine (twin_setStatus i _).bind fun _ => (twin_syscall _).bind fun _ => .ite (herror _) ?_
  exact twin_fork.bind fun _ => .ite (herror _)
    (.ite (twin_start_child _ _) (twin_start_parent hT _ _ _ _))

theorem alike_start {s s' : Master} (h : Same s₀ s₀' C T s s') (curName : Option CString)
    (logFileVersion : Char)
    (hflag : (∃ d, addressed s curName = some d ∧ d.daemonStatus = .inactive) → T) :
    Alike (Same s₀ s₀' C T) (legion_start curName logFileVersion s)
      (legion_start curName logFileVersion s') := by
  have herror : Twin (Same s₀ s₀' C T) (do sf_error "command execution"; return LEGION_ERROR) :=
    (twin_sf_error _).bind fun _ => .ret _
  refine alike_returning (alike_lookup h herror (fun _ => rfl) fun i d hd => ?_)
  split
  · exact herror _ _ h
  · rename_i hinactive
    exact twin_start_node (hflag ⟨d, hd, not_not.mp hinactive⟩) _ _ _ _ _ h

theorem twin_start (hT : T) (curName : Option CString) (logFileVersion : Char) :
    Twin (Same s₀ s₀' C T) (legion_start curName logFileVersion) :=
  fun _ _ h => alike_start h curName logFileVersion fun _ => hT

theorem twin_sprintfPath (curName : CString) (version : Nat) :
    Twin (Same s₀ s₀' C T) (sprintfPath curName version) :=
  .ite (.ret _) (.stop _)

theorem twin_accessible (path : CString) : Twin (Same s₀ s₀' C T) (accessible path) :=
  .gets fun _ _ h => (h.kernel.files path).symm

theorem twin_unlink (path : CString) : Twin (Same s₀ s₀' C T) (unlink path) :=
  (twin_syscall _).bind fun _ => .ite (.modify fun _ _ h => h.setFile path rfl) (.ret _)

theorem twin_rename (oldPath newPath : CString) :
    Twin (Same s₀ s₀' C T) (rename oldPath newPath) := by
  refine (twin_syscall _).bind fun answer => ?_
  intro s s' h
  have hfile := h.kernel.files oldPath
  rw [gets_bind, gets_bind]
  cases hs : s.kernel.files oldPath with
  | none =>
    rw [hs, Option.isSome_none, Option.isSome_eq_false_iff, Option.isNone_iff_eq_none] at hfile
    rw [hfile]
    exact .ok h
  | some sessions =>
    obtain ⟨sessions', hs'⟩ := Option.isSome_iff_exists.mp (hfile.trans (by rw [hs]; rfl))
    rw [hs']
    refine .ite (fun _ => .ok h) fun _ => ?_
    have hnew : Same s₀ s₀' C T (s.setFile newPath (some sessions))
        (s'.setFile newPath (some sessions')) := h.setFile newPath rfl
    exact .ok (hnew.setFile oldPath rfl)

theorem twin_renameLogs (curName : CString) :
    ∀ i, Twin (Same s₀ s₀' C T) (renameLogs curName i)
  | 0 => .ret _
  | i + 1 =>
    (twin_sprintfPath _ _).bind fun _ => (twin_sprintfPath _ _).bind fun _ =>
      (twin_rename _ _).bind fun _ => .ite ((twin_sf_error _).bind fun _ => .ret _)
        (twin_renameLogs curName i)

theorem twin_nextVersion (curName : CString) :
    ∀ fuel lastVersion, Twin (Same s₀ s₀' C T) (nextVersion curName fuel lastVersion)
  | 0, _ => .stop _
  | fuel + 1, lastVersion =>
    (twin_sprintfPath _ _).bind fun _ => (twin_accessible _).bind fun _ =>
      .ite (twin_nextVersion curName fuel (lastVersion + 1)) (.ret _)

theorem twin_restart (hC : C) (hT : T) (curName : CString) (logFileVersion : Char) :
    Twin (Same s₀ s₀' C T) (restart curName logFileVersion) :=
  (twin_sf _).bind fun _ => (twin_stop hC hT _).bind fun _ => (twin_stop hC hT _).bind fun _ =>
    (twin_start hT _ _).bind fun _ => .ret _

theorem twin_logrotate_node (hC : C) (hT : T) (curName : CString) :
    Twin (Same s₀ s₀' C T) (legion_logrotate_node curName) := by
  refine (twin_sprintfPath _ _).bind fun _ => (twin_accessible _).bind fun _ => .ite ?_ ?_
  · exact (twin_unlink _).bind fun _ => (twin_renameLogs curName _).bind fun _ =>
      .ite (twin_restart hC hT _ _) (.ret _)
  · exact (twin_nextVersion curName _ _).bind fun _ => twin_restart hC hT _ _

theorem alike_logrotate {s s' : Master} (h : Same s₀ s₀' C T s s') (curName : Option CString)
    (hflags : (∃ d, addressed s curName = some d ∧ d.daemonStatus = .active) → C ∧ T) :
    Alike (Same s₀ s₀' C T) (legion_logrotate curName s) (legion_logrotate curName s') := by
  have herror : ∀ reason, Twin (Same s₀ s₀' C T) (do sf_error reason; return LEGION_ERROR) :=
    fun reason => (twin_sf_error reason).bind fun _ => .ret _
  refine alike_returning (alike_lookup h (herror _) (fun _ => rfl) fun i d hd => ?_)
  split
  · exact herror _ _ _ h
  · rename_i hactive
    obtain ⟨hC, hT⟩ := hflags ⟨d, hd, not_not.mp hactive⟩
    exact twin_logrotate_node hC hT _ _ _ h

theorem twin_stopIfActive (hC : C) (hT : T) (i : Nat) :
    Twin (Same s₀ s₀' C T) (stopIfActive i) :=
  (twin_node i).bind fun _ => .ite ((twin_stop hC hT _).bind fun _ => .ret _) (.ret _)

/-- With no daemon to stop, the flags are not tested. -/
theorem twin_stopIfActive_idle (i : Nat) :
    Twin (fun s s' => Same s₀ s₀' C T s s' ∧ ∀ d ∈ s.daemons, d.daemonStatus ≠ .active)
      (stopIfActive i) := by
  rintro s s' ⟨h, hidle⟩
  cases hd : s.daemons[i]? with
  | none =>
    have hundefined : ∀ t : Master, t.daemons[i]? = none → stopIfActive i t = .error .undefined :=
      fun t ht => by
        rw [stopIfActive, bind_error]
        rw [node, ht]
    rw [hundefined s hd, hundefined s' (by rw [h.daemons, hd])]
    exact .error
  | some d =>
    have hactive := hidle d (List.mem_of_getElem? hd)
    rw [stopIfActive, bind_ok (node_run hd), bind_ok (node_run (by rw [h.daemons, hd])),
      if_neg hactive]
    exact .ok ⟨h, hidle⟩

theorem alike_quit {s s' : Master} (h : Same s₀ s₀' C T s s')
    (hflags : (∃ d ∈ s.daemons, d.daemonStatus = .active) → C ∧ T) :
    Alike (Same s₀ s₀' C T) (legion_quit s) (legion_quit s') := by
  have hrest : Twin (Same s₀ s₀' C T) (do
      let daemons ← Exec.gets Master.daemons
      Exec.forEach (fun tempNode =>
        if tempNode.name ≠ "daemonNodeHead".toList then sf (.unregister tempNode.name)
        else pure ()) daemons
      Exec.stop .exits : Exec Master Unit) :=
    .bind (.gets fun _ _ h => h.daemons.symm) fun _ =>
      .bind (.forEach (fun _ => .ite (twin_sf _) (.ret _)) _) fun _ => .stop _
  suffices hstop : Alike (Same s₀ s₀' C T) (stopDaemons s.daemons.length s)
      (stopDaemons s.daemons.length s') by
    rw [legion_quit, gets_bind, gets_bind, h.daemons]
    exact hstop.bind fun _ => hrest
  have hrunning : Same s₀ s₀' C T { s with running := false } { s' with running := false } :=
    { h with }
  rw [stopDaemons, modify_bind, modify_bind]
  by_cases hactive : ∃ d ∈ s.daemons, d.daemonStatus = .active
  · obtain ⟨hC, hT⟩ := hflags hactive
    exact Twin.forEach (twin_stopIfActive hC hT) _ _ _ hrunning
  · have hidle : ∀ d ∈ s.daemons, d.daemonStatus ≠ .active := fun d hd he => hactive ⟨d, hd, he⟩
    exact (Twin.forEach twin_stopIfActive_idle _ _ _ ⟨hrunning, hidle⟩).mono fun _ _ h => h.1

end Twins

end StarterProjects.Legion
