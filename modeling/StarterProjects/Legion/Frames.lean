import StarterProjects.Legion.Commands

/-!
# What the functions leave alone

`Quiet` holds between two states that agree on the table, on the record of the run, on the
logs and on what does not change at all. Everything `cli.c` does is a sequence of quiet steps
and a few others; a relation that allows these is kept by `legion_stop` and `legion_start`.

`StopSteps`, `Stops`, `Forks` and `Starts` collect what a relation has to bear for that; the first
asks for the single steps of a stop only, and leaves the calls of `sf_unregister` open.
-/

namespace StarterProjects.Legion

open Lib Lib.Exec

structure Quiet (s s' : Master) : Prop where
  daemons : s'.daemons = s.daemons
  calls : s'.kernel.calls = s.kernel.calls
  files : s'.kernel.files = s.kernel.files
  sessions : s'.kernel.sessions = s.kernel.sessions
  isChild : s'.kernel.isChild = s.kernel.isChild
  nature : s'.kernel.nature = s.kernel.nature
  pathSet : s'.kernel.pathSet = s.kernel.pathSet

instance : IsPreorder Master Quiet where
  refl := fun _ => ⟨rfl, rfl, rfl, rfl, rfl, rfl, rfl⟩
  trans := fun _ _ _ h h' =>
    ⟨h'.daemons.trans h.daemons, h'.calls.trans h.calls, h'.files.trans h.files,
      h'.sessions.trans h.sessions, h'.isChild.trans h.isChild, h'.nature.trans h.nature,
      h'.pathSet.trans h.pathSet⟩

/-- A change of anything else. -/
theorem Quiet.of_eq {s s' : Master} (hd : s'.daemons = s.daemons)
    (hk : (s'.kernel.calls, s'.kernel.files, s'.kernel.sessions, s'.kernel.isChild,
        s'.kernel.nature, s'.kernel.pathSet) =
      (s.kernel.calls, s.kernel.files, s.kernel.sessions, s.kernel.isChild,
        s.kernel.nature, s.kernel.pathSet)) : Quiet s s' := by
  simp only [Prod.mk.injEq] at hk
  exact ⟨hd, hk.1, hk.2.1, hk.2.2.1, hk.2.2.2.1, hk.2.2.2.2.1, hk.2.2.2.2.2⟩

theorem quiet_deliver (s : Master) (signal : Signal) : Quiet s (s.deliver signal) := by
  cases signal with
  | alarm => exact .of_eq rfl rfl
  | terminates pid =>
    unfold Master.deliver
    simp only
    split
    · exact .of_eq rfl rfl
    · exact .of_eq rfl rfl

theorem quiet_deliverAll (signals : List Signal) :
    ∀ s : Master, Quiet s (s.deliverAll signals) := by
  induction signals with
  | nil => exact fun s => refl_of Quiet s
  | cons signal signals ih => exact fun s => trans_of Quiet (quiet_deliver s signal) (ih _)

theorem deliver_clock (s : Master) (signal : Signal) :
    (s.deliver signal).kernel.clock = s.kernel.clock := by
  cases signal with
  | alarm => rfl
  | terminates pid =>
    unfold Master.deliver
    simp only
    split
    · rfl
    · rfl

theorem deliverAll_clock (signals : List Signal) :
    ∀ s : Master, (s.deliverAll signals).kernel.clock = s.kernel.clock := by
  induction signals with
  | nil => exact fun _ => rfl
  | cons signal signals ih => exact fun s => (ih _).trans (deliver_clock s signal)

theorem quiet_pass (s : Master) : Quiet s s.pass :=
  trans_of Quiet (.of_eq rfl rfl : Quiet s s.tick) (quiet_deliverAll _ _)

theorem pass_clock (s : Master) : s.pass.kernel.clock = s.kernel.clock + 1 :=
  deliverAll_clock _ _

/-- What the kernel answers after `n` more system calls. -/
def Master.ahead (s : Master) (n : Nat) : Answers := s.kernel.nature.moment (s.kernel.clock + n)

theorem pass_ahead (s : Master) (n : Nat) : s.pass.ahead n = s.ahead (n + 1) := by
  rw [Master.ahead, pass_clock, (quiet_pass s).nature, Nat.add_assoc, Nat.add_comm 1 n]
  rfl

theorem quiet_wake (s : Master) : Quiet s s.wake := by
  have h := quiet_deliverAll s.awaited s.unblock.tick
  exact ⟨h.daemons, h.calls, h.files, h.sessions, h.isChild, h.nature, h.pathSet⟩

/-! ## Functions that are quiet -/

theorem node_run {s : Master} {i : Nat} {d : DaemonNode} (h : s.daemons[i]? = some d) :
    node i s = .ok (d, s) := by
  rw [node]
  simp only [h]

theorem node_inv {s s' : Master} {i : Nat} {d : DaemonNode} (h : node i s = .ok (d, s')) :
    s.daemons[i]? = some d ∧ s' = s := by
  unfold node at h
  split at h
  · rename_i d' hd
    cases h
    exact ⟨hd, rfl⟩
  · cases h

theorem name_exists_state {curName : Option CString} {s s' : Master} {i? : Option Nat}
    (h : legion_daemon_name_exists curName s = .ok (i?, s')) : s' = s := by
  unfold legion_daemon_name_exists at h
  split at h
  · cases h
    rfl
  · split at h
    · cases h
      rfl
    · cases h

theorem within_node {R : Master → Master → Prop} [IsPreorder Master R] (i : Nat) :
    Within R (node i) := by
  intro s d s' h
  rw [(node_inv h).2]
  exact refl_of R s

theorem within_name_exists {R : Master → Master → Prop} [IsPreorder Master R]
    (curName : Option CString) : Within R (legion_daemon_name_exists curName) := by
  intro s d s' h
  rw [name_exists_state h]
  exact refl_of R s

def findName (s : Master) (curName : CString) : Option Nat :=
  s.daemons.findIdx? fun d => d.name = curName

section Quiets

theorem name_exists_run (curName : CString) (s : Master) :
    legion_daemon_name_exists (some curName) s =
      .ok (s.daemons.findIdx? fun d => d.name = curName, s) := rfl

theorem name_exists_inv {curName : CString} {s s' : Master} {i? : Option Nat}
    (h : legion_daemon_name_exists (some curName) s = .ok (i?, s')) :
    (s.daemons.findIdx? fun d => d.name = curName) = i? ∧ s' = s := by
  cases h
  exact ⟨rfl, rfl⟩

theorem returning_congr {m m' : Exec Master Int} {s s' : Master} (h : m s = m' s') :
    returning m s = returning m' s' := by
  unfold returning
  cases hm : m' s' with
  | ok r => rw [bind_ok (show m s = .ok (r.1, r.2) from h.trans hm), bind_ok hm]
  | error r => rw [bind_error (h.trans hm), bind_error hm]

theorem quiet_syscall (answer : Answers → Int) : Within Quiet (syscall answer) := by
  intro s _ _ h
  cases h
  exact quiet_pass s

theorem quiet_fprintf (text : CString) : Within Quiet (fprintf text) :=
  .modify fun _ => .of_eq rfl rfl

theorem quiet_sf (event : SfEvent) : Within Quiet (sf event) := .modify fun _ => .of_eq rfl rfl

theorem quiet_sf_error (reason : String) : Within Quiet (sf_error reason) := quiet_sf _

theorem quiet_sf_error_errMsg (before : String) (curName : CString) (after : String) :
    Within Quiet (sf_error_errMsg before curName after) :=
  .ite (quiet_sf _) .stop

theorem quiet_node (i : Nat) : Within Quiet (node i) := within_node i

theorem quiet_sf_node (i : Nat) (event : DaemonNode → SfEvent) :
    Within Quiet (sf_node i event) :=
  (quiet_node i).bind fun _ => quiet_sf _

theorem quiet_arg (k : Nat) : Within Quiet (arg k) := by
  intro s d s' h
  unfold arg at h
  split at h
  · cases h
    exact refl_of Quiet s
  · cases h

theorem quiet_name_exists (curName : Option CString) :
    Within Quiet (legion_daemon_name_exists curName) :=
  within_name_exists curName

theorem quiet_blockChld : Within Quiet blockChld := .modify fun _ => .of_eq rfl rfl

theorem quiet_clearSigchld : Within Quiet clearSigchld := .modify fun _ => .of_eq rfl rfl

theorem quiet_clearSigalrm : Within Quiet clearSigalrm := .modify fun _ => .of_eq rfl rfl

theorem quiet_printError (curArg : CString) : Within Quiet (printError curArg) :=
  quiet_fprintf _

theorem quiet_print_err (given required : Nat) (curArg : CString) :
    Within Quiet (legion_check_args_print_err given required curArg) :=
  (quiet_fprintf _).bind fun _ => (quiet_sf_error _).bind fun _ => quiet_printError _

theorem quiet_prompt : Within Quiet prompt := quiet_fprintf _

end Quiets

/-! ## The functions on a daemon -/

def SfEvent.unregistered : SfEvent → Option CString
  | .unregister name => some name
  | _ => none

/-- The relations that bear the single steps of `legion_stop`, which does not call
`sf_unregister`. -/
structure StopSteps (R : Master → Master → Prop) : Prop where
  pass : ∀ s : Master, R s s.pass
  wake : ∀ s : Master, R s s.wake
  sigchld : ∀ s : Master, R s { s with sigchld_flag := false }
  sigalrm : ∀ s : Master, R s { s with sigalrm_flag := false }
  status : ∀ (s : Master) i status, R s (s.modifyNode i fun d => { d with daemonStatus := status })
  pid : ∀ (s : Master) i pid, R s (s.modifyNode i fun d => { d with daemonProcessID := pid })
  log : ∀ (s : Master) (call : Call), R s (s.log call)
  event : ∀ (s : Master) (event : SfEvent), event.unregistered = none →
    R s { s with events := s.events ++ [event] }

/-- The relations that bear any change of a node, and all that is quiet. -/
structure Stops (R : Master → Master → Prop) : Prop where
  quiet : ∀ s s', Quiet s s' → R s s'
  node : ∀ s i (f : DaemonNode → DaemonNode), R s (s.modifyNode i f)
  log : ∀ s (call : Call), R s (s.log call)

/-- The relations that bear a `fork` as well. -/
structure Forks (R : Master → Master → Prop) : Prop extends Stops R where
  child : ∀ (s : Master) b,
    R s { s with kernel := { s.kernel with isChild := s.kernel.isChild || b } }

/-- The relations that bear what `legion_start` does. -/
structure Starts (R : Master → Master → Prop) : Prop extends Forks R where
  openLog : ∀ s path, R s (s.openLog path)

section Within

variable {R : Master → Master → Prop} [IsPreorder Master R] {α : Type}

namespace StopSteps

omit [IsPreorder Master R] in
theorem syscall (hR : StopSteps R) (answer : Answers → Int) : Within R (syscall answer) := by
  intro s _ _ h
  cases h
  exact hR.pass s

omit [IsPreorder Master R] in
theorem setStatus (hR : StopSteps R) (i : Nat) (status : DaemonStatus) :
    Within R (setStatus i status) :=
  .modify fun s => hR.status s i status

omit [IsPreorder Master R] in
theorem setProcessID (hR : StopSteps R) (i : Nat) (pid : Int) : Within R (setProcessID i pid) :=
  .modify fun s => hR.pid s i pid

omit [IsPreorder Master R] in
theorem logCall (hR : StopSteps R) (call : Master → Call) : Within R (logCall call) :=
  .modify fun s => hR.log s _

omit [IsPreorder Master R] in
theorem sf (hR : StopSteps R) {event : SfEvent} (h : event.unregistered = none) :
    Within R (sf event) :=
  .modify fun s => hR.event s event h

theorem sf_node (hR : StopSteps R) (i : Nat) {event : DaemonNode → SfEvent}
    (h : ∀ d, (event d).unregistered = none) : Within R (sf_node i event) :=
  (within_node i).bind fun d => hR.sf (h d)

omit [IsPreorder Master R] in
theorem sf_error_errMsg (hR : StopSteps R) (before : String) (curName : CString)
    (after : String) : Within R (sf_error_errMsg before curName after) :=
  .ite (hR.sf rfl) .stop

theorem returning (hR : StopSteps R) {m : Exec Master Int} (h : Within R m) :
    Within R (returning m) :=
  h.bind fun _ => (hR.logCall _).bind fun _ => .ret

theorem kill (hR : StopSteps R) (pid : Int) (signal : KillSignal) :
    Within R (kill pid signal) :=
  (hR.syscall _).bind fun _ => (hR.logCall _).bind fun _ => .ret

theorem waitpid (hR : StopSteps R) (pid : Int) : Within R (waitpid pid) :=
  (hR.logCall _).bind fun _ => (hR.syscall _).bind fun _ =>
    .ite .ret (.bind .gets fun _ => .ite .ret .stop)

theorem sigsuspend (hR : StopSteps R) : Within R sigsuspend :=
  .bind (.modify hR.wake) fun _ => hR.logCall _

theorem stop_wait (hR : StopSteps R) (i : Nat) : Within R (legion_stop_wait i) :=
  (hR.setStatus i _).bind fun _ => (hR.sf_node i fun _ => rfl).bind fun _ =>
    (within_node i).bind fun _ => (hR.kill _ _).bind fun _ =>
      .ite .ret (hR.sigsuspend.bind fun _ => .ret)

theorem stop_woken (hR : StopSteps R) (i : Nat) (curName : CString) :
    Within R (legion_stop_woken i curName) := by
  refine .bind .gets fun _ => .ite ?_ (.bind .gets fun _ => .ite ?_ ?_)
  · refine (within_node i).bind fun _ => (hR.waitpid _).bind fun _ => .ite ?_ ?_
    · exact (hR.sf_error_errMsg _ _ _).bind fun _ => (hR.setProcessID i _).bind fun _ =>
        (hR.setStatus i _).bind fun _ => (hR.sf_node i fun _ => rfl).bind fun _ => .ret
    · exact (hR.setStatus i _).bind fun _ => (Within.modify hR.sigchld).bind fun _ =>
        (hR.sf_node i fun _ => rfl).bind fun _ => .ret
  · exact (within_node i).bind fun _ => (hR.sf rfl).bind fun _ => (hR.kill _ _).bind fun _ =>
      (hR.sf_error_errMsg _ _ _).bind fun _ => (Within.modify hR.sigalrm).bind fun _ => .ret
  · exact (hR.setStatus i _).bind fun _ => .ret

theorem stop_active (hR : StopSteps R) (i : Nat) (curName : CString) :
    Within R (legion_stop_active i curName) :=
  (hR.stop_wait i).bind fun _ => .ite (hR.stop_woken i curName)
    ((hR.sf_error_errMsg _ _ _).bind fun _ => .ret)

theorem stop (hR : StopSteps R) (curName : Option CString) : Within R (legion_stop curName) := by
  refine hR.returning ((within_name_exists curName).bind fun i? => ?_)
  cases i? with
  | none => exact .stop
  | some i =>
    refine (within_node i).bind fun _ => .ite ?_ (.ite ?_ (hR.stop_active i _))
    · exact (hR.setStatus i _).bind fun _ => (hR.sf_node i fun _ => rfl).bind fun _ => .ret
    · exact (hR.sf rfl).bind fun _ => .ret

end StopSteps

namespace Stops

omit [IsPreorder Master R] in
theorem steps (hR : Stops R) : StopSteps R where
  pass := fun s => hR.quiet _ _ (quiet_pass s)
  wake := fun s => hR.quiet _ _ (quiet_wake s)
  sigchld := fun _ => hR.quiet _ _ (.of_eq rfl rfl)
  sigalrm := fun _ => hR.quiet _ _ (.of_eq rfl rfl)
  status := fun s i _ => hR.node s i _
  pid := fun s i _ => hR.node s i _
  log := hR.log
  event := fun _ _ _ => hR.quiet _ _ (.of_eq rfl rfl)

omit [IsPreorder Master R] in
theorem of_quiet (hR : Stops R) {m : Exec Master α} (h : Within Quiet m) : Within R m :=
  h.mono hR.quiet

omit [IsPreorder Master R] in
theorem setStatus (hR : Stops R) (i : Nat) (status : DaemonStatus) :
    Within R (setStatus i status) :=
  hR.steps.setStatus i status

omit [IsPreorder Master R] in
theorem setProcessID (hR : Stops R) (i : Nat) (pid : Int) : Within R (setProcessID i pid) :=
  hR.steps.setProcessID i pid

omit [IsPreorder Master R] in
theorem logCall (hR : Stops R) (call : Master → Call) : Within R (logCall call) :=
  hR.steps.logCall call

theorem stop (hR : Stops R) (curName : Option CString) : Within R (legion_stop curName) :=
  hR.steps.stop curName

theorem start_exec (hR : Stops R) : Within R legion_start_exec := by
  have herror : ∀ reason, Within R (do sf_error reason; return LEGION_ERROR) := fun reason =>
    (hR.of_quiet (quiet_sf_error reason)).bind fun _ => .ret
  refine (hR.of_quiet (quiet_syscall _)).bind fun _ => .ite (herror _) ?_
  refine (hR.of_quiet (quiet_syscall _)).bind fun _ => .ite (herror _) ?_
  exact (hR.of_quiet (quiet_syscall _)).bind fun _ => .ite (herror _) .stop

theorem read (hR : Stops R) : Within R read :=
  (hR.of_quiet (quiet_syscall _)).bind fun _ => (hR.logCall _).bind fun _ => .ret

theorem start_sync (hR : Stops R) (i : Nat) (curName : CString) (childPID : Int) :
    Within R (legion_start_sync i curName childPID) := by
  have hrest : Within R (do
      if ← Exec.gets Master.sigalrm_flag then
        sf (.stop curName childPID)
        Legion.setStatus i .crashed
        clearSigalrm
        return LEGION_ERROR
      else
        return LEGION_SUCCESS) :=
    .bind .gets fun _ => .ite ((hR.of_quiet (quiet_sf _)).bind fun _ =>
      (hR.setStatus i _).bind fun _ => (hR.of_quiet quiet_clearSigalrm).bind fun _ => .ret) .ret
  refine (hR.of_quiet quiet_blockChld).bind fun _ => hR.read.bind fun _ => .ite ?_ hrest
  exact (hR.of_quiet (quiet_sf_node i _)).bind fun _ => (hR.setProcessID i _).bind fun _ =>
    (hR.setStatus i _).bind fun _ => (hR.of_quiet (quiet_sf_node i _)).bind fun _ => hrest

end Stops

/-- Apart from the mark of a child, a fork is quiet. -/
theorem fork_inv {s s' : Master} {pid : Int} (h : Legion.fork s = .ok (pid, s')) :
    ∃ t, Quiet s t ∧ t.kernel.clock = s.kernel.clock + 1 ∧ pid = s.answers.fork ∧
      s' = { t with kernel := { t.kernel with isChild := t.kernel.isChild || pid = 0 } } := by
  cases h
  have hrenew : Quiet s (s.renew s.answers.fork) := .of_eq rfl rfl
  exact ⟨(s.renew s.answers.fork).pass, trans_of Quiet hrenew (quiet_pass _), pass_clock _, rfl,
    rfl⟩

theorem Forks.fork (hR : Forks R) : Within R fork :=
  .bind (.modify fun _ => hR.quiet _ _ (.of_eq rfl rfl)) fun _ =>
    (hR.of_quiet (quiet_syscall _)).bind fun _ => .bind (.modify fun s => hR.child s _) fun _ =>
      .ret

namespace Starts

theorem start_child (hR : Starts R) (curName : CString) (logFileVersion : Char) :
    Within R (legion_start_child curName logFileVersion) :=
  .bind .gets fun _ => .ite .stop (.bind (.modify fun s => hR.openLog s _) fun _ =>
    hR.start_exec)

theorem start_parent (hR : Starts R) (i : Nat) (curName : CString) (logFileVersion : Char)
    (childPID : Int) : Within R (legion_start_parent i curName logFileVersion childPID) := by
  refine .bind (.modify fun s => ?_) fun _ => hR.start_sync i curName childPID
  split
  · exact hR.openLog s _
  · exact refl_of R s

theorem start_node (hR : Starts R) (i : Nat) (curName : CString) (logFileVersion : Char) :
    Within R (legion_start_node i curName logFileVersion) := by
  have herror : ∀ reason, Within R (do
      Legion.setStatus i .inactive; sf_error reason; return LEGION_ERROR) := fun reason =>
    (hR.setStatus i _).bind fun _ => (hR.of_quiet (quiet_sf_error reason)).bind fun _ => .ret
  refine (hR.setStatus i _).bind fun _ => (hR.of_quiet (quiet_syscall _)).bind fun _ =>
    .ite (herror _) (hR.fork.bind fun _ => .ite (herror _) (.ite ?_ ?_))
  · exact hR.start_child curName logFileVersion
  · exact hR.start_parent i curName logFileVersion _

theorem start (hR : Starts R) (curName : Option CString) (logFileVersion : Char) :
    Within R (legion_start curName logFileVersion) := by
  refine hR.steps.returning ((within_name_exists curName).bind fun i? => ?_)
  cases i? with
  | none => exact (hR.of_quiet (quiet_sf_error _)).bind fun _ => .ret
  | some i =>
    exact (hR.of_quiet (quiet_node i)).bind fun _ => .ite
      ((hR.of_quiet (quiet_sf_error _)).bind fun _ => .ret) (hR.start_node i _ _)

end Starts

end Within

end StarterProjects.Legion
