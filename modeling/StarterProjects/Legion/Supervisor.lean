import Mathlib.Logic.Relation
import StarterProjects.Legion.State

/-!
# The supervisor

What the master is about, without arguments, output and signals: a table of daemons, and beside
it what the system is asked for and what is reported. `Shift` has one case for each way in which
`legion_start` or `legion_stop` can treat a daemon.

Three things hold in every run of the supervisor. The system calls come in episodes, and only
processes that came out of an earlier `fork` are signalled or waited for (`Lawful`). A
termination is reported of a process that was reported active before (`Announced`). A daemon that
is left in `starting` or `stopping` stays there (`Run.stranded`).
-/

namespace StarterProjects.Legion

/-- What is seen of the master. -/
structure View where
  daemons : List DaemonNode
  calls : List Call
  events : List SfEvent
  clock : Nat

def Master.view (s : Master) : View := ⟨s.daemons, s.kernel.calls, s.events, s.kernel.clock⟩

def DaemonNode.withStatus (d : DaemonNode) (status : DaemonStatus) : DaemonNode :=
  { d with daemonStatus := status }

def DaemonNode.withProcessID (d : DaemonNode) (pid : Int) : DaemonNode :=
  { d with daemonProcessID := pid }

/-- The parent of a `fork` between the two moments gets `pid`. -/
def ForkedIn (nature : Nature) (lo hi : Nat) (pid : Int) : Prop :=
  ∃ n, lo ≤ n ∧ n < hi ∧ (nature.moment n).fork = pid ∧ pid ≠ -1 ∧ pid ≠ 0

/-- What becomes of a daemon in one start or stop, with the calls and the events. -/
inductive Shift (Forked : Int → Prop) (d : DaemonNode) :
    List Call → List SfEvent → DaemonNode → Prop
  | reset : d.daemonStatus = .exited ∨ d.daemonStatus = .crashed →
      Shift Forked d [] [.reset (d.withStatus .inactive).name] (d.withStatus .inactive)
  /-- SIGTERM cannot be sent. -/
  | unsent {answer : Int} {reason : CString} : d.daemonStatus = .active → answer ≠ 0 →
      Shift Forked d [.kill d.daemonProcessID .sigterm answer]
        [.stop (d.withStatus .stopping).name d.daemonProcessID, .error reason]
        (d.withStatus .stopping)
  | reaped {sigalrm terminated : Bool} : d.daemonStatus = .active →
      Shift Forked d [.kill d.daemonProcessID .sigterm 0, .sigsuspend true sigalrm,
          .waitpid d.daemonProcessID terminated]
        [.stop (d.withStatus .stopping).name d.daemonProcessID,
          .term (d.withStatus .exited).name d.daemonProcessID 0]
        (d.withStatus .exited)
  /-- `waitpid` fails. -/
  | lost {sigalrm terminated : Bool} {reason : CString} : d.daemonStatus = .active →
      Shift Forked d [.kill d.daemonProcessID .sigterm 0, .sigsuspend true sigalrm,
          .waitpid d.daemonProcessID terminated]
        [.stop (d.withStatus .stopping).name d.daemonProcessID, .error reason,
          .crash ((d.withProcessID 0).withStatus .crashed).name (-1) 0]
        ((d.withProcessID 0).withStatus .crashed)
  /-- The timer ends the wait. -/
  | killed {answer : Int} {reason : CString} : d.daemonStatus = .active →
      Shift Forked d [.kill d.daemonProcessID .sigterm 0, .sigsuspend false true,
          .kill d.daemonProcessID .sigkill answer]
        [.stop (d.withStatus .stopping).name d.daemonProcessID,
          .kill (d.withStatus .stopping).name d.daemonProcessID, .error reason]
        (d.withStatus .stopping)
  /-- No pipe, or no process. -/
  | unforked {reason : CString} : d.daemonStatus = .inactive → Shift Forked d [] [.error reason] d
  /-- The child has failed, and goes on with a table of its own. -/
  | child {reason : CString} : d.daemonStatus = .inactive →
      Shift Forked d [] [.error reason] (d.withStatus .starting)
  /-- The end of the pipe, before the timer. -/
  | silent : d.daemonStatus = .inactive →
      Shift Forked d [.read 0 false] [] (d.withStatus .starting)
  | timedOut {curName : CString} {pid : Int} : d.daemonStatus = .inactive →
      Shift Forked d [.read 0 true] [.stop curName pid] (d.withStatus .crashed)
  | launched {answer pid : Int} : d.daemonStatus = .inactive → Forked pid → answer ≠ 0 →
      Shift Forked d [.read answer false]
        [.start (d.withStatus .starting).name,
          .active ((d.withProcessID pid).withStatus .active).name pid]
        ((d.withProcessID pid).withStatus .active)
  /-- The timer has run out although there was an answer. -/
  | late {answer pid : Int} {curName : CString} : d.daemonStatus = .inactive → Forked pid →
      answer ≠ 0 →
      Shift Forked d [.read answer true]
        [.start (d.withStatus .starting).name,
          .active ((d.withProcessID pid).withStatus .active).name pid, .stop curName pid]
        ((d.withProcessID pid).withStatus .crashed)

/-- One step of the supervisor. -/
inductive Move (nature : Nature) (v : View) : View → Prop
  | pass {c : Nat} : v.clock ≤ c → Move nature v { v with clock := c }
  | error {reason : CString} : Move nature v { v with events := v.events ++ [.error reason] }
  | rotates {name : CString} : Move nature v { v with events := v.events ++ [.logrotate name] }
  | returned : Move nature v
      { v with calls := v.calls ++ [.returned (v.daemons.map DaemonNode.daemonStatus)] }
  | register {d : DaemonNode} {cmd : CString} : d.daemonStatus = .inactive →
      Move nature v
        { v with daemons := d :: v.daemons, events := v.events ++ [.register d.name cmd] }
  | unregister {i : Nat} {d : DaemonNode} : v.daemons[i]? = some d → d.daemonStatus = .inactive →
      Move nature v
        { v with daemons := v.daemons.eraseIdx i, events := v.events ++ [.unregister d.name] }
  | shift {i c : Nat} {d d' : DaemonNode} {calls : List Call} {events : List SfEvent} :
      v.daemons[i]? = some d → v.clock ≤ c →
      Shift (ForkedIn nature v.clock c) d calls events d' →
      Move nature v ⟨v.daemons.set i d', v.calls ++ calls, v.events ++ events, c⟩

/-- Any number of steps. -/
abbrev Run (nature : Nature) : View → View → Prop := Relation.ReflTransGen (Move nature)

/-! ## Episodes -/

/-- The system calls of one start or stop; `Ours` are the processes of the supervisor. -/
inductive Episode (Ours : Int → Prop) : List Call → Prop
  | returned {statuses : List DaemonStatus} : Episode Ours [.returned statuses]
  | read {answer : Int} {sigalrm : Bool} : Episode Ours [.read answer sigalrm]
  | unsent {pid answer : Int} : Ours pid → answer ≠ 0 →
      Episode Ours [.kill pid .sigterm answer]
  | waited {pid : Int} {sigalrm terminated : Bool} : Ours pid →
      Episode Ours [.kill pid .sigterm 0, .sigsuspend true sigalrm, .waitpid pid terminated]
  | killed {pid answer : Int} : Ours pid →
      Episode Ours [.kill pid .sigterm 0, .sigsuspend false true, .kill pid .sigkill answer]

/-- Episodes, one after the other. -/
inductive Protocol (Ours : Int → Prop) : List Call → Prop
  | nil : Protocol Ours []
  | append {calls episode : List Call} : Protocol Ours calls → Episode Ours episode →
      Protocol Ours (calls ++ episode)

section Protocol

variable {P Q : Int → Prop} {calls : List Call}

theorem Episode.mono (h : ∀ pid, P pid → Q pid) (he : Episode P calls) : Episode Q calls := by
  cases he with
  | returned => exact .returned
  | read => exact .read
  | unsent hp ha => exact .unsent (h _ hp) ha
  | waited hp => exact .waited (h _ hp)
  | killed hp => exact .killed (h _ hp)

theorem Protocol.mono (h : ∀ pid, P pid → Q pid) (hc : Protocol P calls) : Protocol Q calls := by
  induction hc with
  | nil => exact .nil
  | append _ he ih => exact .append ih (he.mono h)

end Protocol

/-- A process that came out of a `fork` before the moment `c`. -/
def ForkedBefore (nature : Nature) (c : Nat) (pid : Int) : Prop :=
  ∃ n < c, (nature.moment n).fork = pid ∧ 0 < pid

theorem ForkedBefore.mono {nature : Nature} {c c' : Nat} (h : c ≤ c') {pid : Int}
    (hf : ForkedBefore nature c pid) : ForkedBefore nature c' pid := by
  obtain ⟨n, hn, hpid⟩ := hf
  exact ⟨n, Nat.lt_of_lt_of_le hn h, hpid⟩

theorem ForkedIn.forked {nature : Nature} (hfork : ∀ n, -1 ≤ (nature.moment n).fork) {lo hi : Nat}
    {pid : Int} (h : ForkedIn nature lo hi pid) : ForkedBefore nature hi pid := by
  obtain ⟨n, _, hn, rfl, hne, h0⟩ := h
  have := hfork n
  exact ⟨n, hn, rfl, by omega⟩

/-- The calls keep to the protocol, and active daemons are processes of the supervisor. -/
structure Lawful (nature : Nature) (v : View) : Prop where
  calls : Protocol (ForkedBefore nature v.clock) v.calls
  active : ∀ d ∈ v.daemons, d.daemonStatus = .active →
    ForkedBefore nature v.clock d.daemonProcessID

section Lawful

variable {nature : Nature} {v v' : View}

/-- The calls of a start or stop are an episode, if there are any. -/
theorem Shift.episode {F Ours : Int → Prop} {d d' : DaemonNode} {calls : List Call}
    {events : List SfEvent} (h : Shift F d calls events d')
    (hours : d.daemonStatus = .active → Ours d.daemonProcessID) :
    calls = [] ∨ Episode Ours calls := by
  cases h with
  | reset _ | unforked _ | child _ => exact .inl rfl
  | unsent hd ha => exact .inr (.unsent (hours hd) ha)
  | reaped hd | lost hd => exact .inr (.waited (hours hd))
  | killed hd => exact .inr (.killed (hours hd))
  | silent _ | timedOut _ | launched _ _ _ | late _ _ _ => exact .inr .read

/-- A daemon gets active as a new process. -/
theorem Shift.active {F : Int → Prop} {d d' : DaemonNode} {calls : List Call}
    {events : List SfEvent} (h : Shift F d calls events d') (hactive : d'.daemonStatus = .active) :
    F d'.daemonProcessID := by
  cases h with
  | launched _ hf _ => exact hf
  | unforked hd =>
    rw [hd] at hactive
    cases hactive
  | reset _ | unsent _ _ | reaped _ | lost _ | killed _ | child _ | silent _ | timedOut _
  | late _ _ _ => cases hactive

theorem Lawful.move (hfork : ∀ n, -1 ≤ (nature.moment n).fork) (h : Lawful nature v)
    (hm : Move nature v v') : Lawful nature v' := by
  cases hm with
  | pass hc =>
    exact ⟨h.calls.mono fun _ => ForkedBefore.mono hc, fun d hd ha => (h.active d hd ha).mono hc⟩
  | error => exact ⟨h.calls, h.active⟩
  | rotates => exact ⟨h.calls, h.active⟩
  | returned => exact ⟨h.calls.append .returned, h.active⟩
  | register hd =>
    refine ⟨h.calls, fun d' hd' ha => ?_⟩
    rcases List.mem_cons.mp hd' with rfl | hd'
    · rw [hd] at ha
      cases ha
    · exact h.active d' hd' ha
  | unregister _ _ => exact ⟨h.calls, fun d' hd' => h.active d' (List.mem_of_mem_eraseIdx hd')⟩
  | shift hi hc hs =>
    have hcalls := h.calls.mono fun _ => ForkedBefore.mono hc
    have hactive : ∀ d ∈ v.daemons, d.daemonStatus = .active →
        ForkedBefore nature _ d.daemonProcessID := fun d hd ha => (h.active d hd ha).mono hc
    refine ⟨?_, fun d' hd' ha => ?_⟩
    · rcases hs.episode (hactive _ (List.mem_of_getElem? hi)) with he | he
      · rw [he, List.append_nil]
        exact hcalls
      · exact hcalls.append he
    · rcases List.mem_or_eq_of_mem_set hd' with hd' | rfl
      · exact hactive d' hd' ha
      · exact (hs.active ha).forked hfork

theorem Lawful.run (hfork : ∀ n, -1 ≤ (nature.moment n).fork) (h : Lawful nature v)
    (hr : Run nature v v') : Lawful nature v' := by
  induction hr with
  | refl => exact h
  | tail _ hm ih => exact ih.move hfork hm

end Lawful

/-! ## Announcements -/

/-- The process whose end is reported. -/
def SfEvent.ended : SfEvent → Option Int
  | .term _ pid _ => some pid
  | .kill _ pid => some pid
  | _ => none

/-- The end of a process is reported only after it was reported active. -/
inductive Announced : List SfEvent → Prop
  | nil : Announced []
  | append {events : List SfEvent} {event : SfEvent} : Announced events →
      (∀ pid, event.ended = some pid → ∃ name, .active name pid ∈ events) →
      Announced (events ++ [event])

/-- Ends of processes that have been reported active. -/
theorem Announced.extend : ∀ {more events : List SfEvent}, Announced events →
    (∀ event ∈ more, ∀ pid, event.ended = some pid → ∃ name, .active name pid ∈ events) →
    Announced (events ++ more)
  | [], events, h, _ => by rwa [List.append_nil]
  | event :: more, events, h, hmore => by
    have hstep := h.append (hmore event List.mem_cons_self)
    rw [← List.singleton_append, ← List.append_assoc]
    refine hstep.extend fun e he pid hpid => ?_
    obtain ⟨name, hname⟩ := hmore e (List.mem_cons_of_mem _ he) pid hpid
    exact ⟨name, List.mem_append_left _ hname⟩

/-- The ends that a start or stop reports are ends of the daemon it finds active. -/
theorem Shift.ended {F : Int → Prop} {d d' : DaemonNode} {calls : List Call}
    {events : List SfEvent} (h : Shift F d calls events d') :
    ∀ event ∈ events, ∀ pid, event.ended = some pid →
      d.daemonStatus = .active ∧ pid = d.daemonProcessID := by
  intro event hevent pid hpid
  cases h <;> simp only [List.mem_cons, List.not_mem_nil, or_false] at hevent
  case reset => rw [hevent] at hpid; cases hpid
  case unsent => rcases hevent with rfl | rfl <;> cases hpid
  case reaped hd =>
    rcases hevent with rfl | rfl
    · cases hpid
    · cases hpid
      exact ⟨hd, rfl⟩
  case lost => rcases hevent with rfl | rfl | rfl <;> cases hpid
  case killed hd =>
    rcases hevent with rfl | rfl | rfl
    · cases hpid
    · cases hpid
      exact ⟨hd, rfl⟩
    · cases hpid
  case unforked | child => rw [hevent] at hpid; cases hpid
  case timedOut => rw [hevent] at hpid; cases hpid
  case launched => rcases hevent with rfl | rfl <;> cases hpid
  case late => rcases hevent with rfl | rfl | rfl <;> cases hpid

/-- A daemon gets active with a report. -/
theorem Shift.reports {F : Int → Prop} {d d' : DaemonNode} {calls : List Call}
    {events : List SfEvent} (h : Shift F d calls events d') (hactive : d'.daemonStatus = .active) :
    ∃ name, .active name d'.daemonProcessID ∈ events := by
  cases h with
  | launched => exact ⟨_, List.mem_cons_of_mem _ (List.mem_singleton_self _)⟩
  | unforked hd =>
    rw [hd] at hactive
    cases hactive
  | reset | unsent | reaped | lost | killed | child | silent | timedOut | late => cases hactive

/-- What is reported of ends was announced, and so are the active daemons. -/
structure Reported (v : View) : Prop where
  announced : Announced v.events
  active : ∀ d ∈ v.daemons, d.daemonStatus = .active →
    ∃ name, .active name d.daemonProcessID ∈ v.events

section Reported

variable {nature : Nature} {v v' : View}

/-- An event that is no end. -/
theorem Reported.quiet (h : Reported v) {event : SfEvent} (he : event.ended = none)
    {daemons : List DaemonNode} (hactive : ∀ d ∈ daemons, d.daemonStatus = .active →
      d ∈ v.daemons) : Reported { v with daemons := daemons, events := v.events ++ [event] } where
  announced := h.announced.append fun pid hpid => by
    rw [he] at hpid
    cases hpid
  active := fun d hd ha => by
    obtain ⟨name, hname⟩ := h.active d (hactive d hd ha) ha
    exact ⟨name, List.mem_append_left _ hname⟩

theorem Reported.move (h : Reported v) (hm : Move nature v v') : Reported v' := by
  cases hm with
  | pass _ => exact ⟨h.announced, h.active⟩
  | returned => exact ⟨h.announced, h.active⟩
  | error => exact h.quiet rfl fun d hd _ => hd
  | rotates => exact h.quiet rfl fun d hd _ => hd
  | register hnew =>
    refine h.quiet rfl fun d hd ha => ?_
    rcases List.mem_cons.mp hd with rfl | hd
    · rw [hnew] at ha
      cases ha
    · exact hd
  | unregister _ _ => exact h.quiet rfl fun d hd _ => List.mem_of_mem_eraseIdx hd
  | shift hi _ hs =>
    constructor
    · refine h.announced.extend fun event hevent pid hpid => ?_
      obtain ⟨ha, rfl⟩ := hs.ended event hevent pid hpid
      exact h.active _ (List.mem_of_getElem? hi) ha
    · intro d hd ha
      rcases List.mem_or_eq_of_mem_set hd with hd | rfl
      · obtain ⟨name, hname⟩ := h.active d hd ha
        exact ⟨name, List.mem_append_left _ hname⟩
      · obtain ⟨name, hname⟩ := hs.reports ha
        exact ⟨name, List.mem_append_right _ hname⟩

theorem Reported.run (h : Reported v) (hr : Run nature v v') : Reported v' := by
  induction hr with
  | refl => exact h
  | tail _ hm ih => exact ih.move hm

end Reported

/-! ## Daemons that are left behind -/

/-- No start or stop works on it any more, and neither does `unregister`. -/
def DaemonNode.Stranded (d : DaemonNode) : Prop :=
  d.daemonStatus = .starting ∨ d.daemonStatus = .stopping

/-- A start or stop finds its daemon inactive, active, exited or crashed. -/
theorem Shift.not_stranded {F : Int → Prop} {d d' : DaemonNode} {calls : List Call}
    {events : List SfEvent} (h : Shift F d calls events d') : ¬ d.Stranded := by
  unfold DaemonNode.Stranded
  cases h with
  | reset hd => rcases hd with hd | hd <;> rw [hd] <;> decide
  | unsent hd | reaped hd | lost hd | killed hd => rw [hd]; decide
  | unforked hd | child hd | silent hd | timedOut hd | launched hd | late hd => rw [hd]; decide

theorem Move.stranded {nature : Nature} {v v' : View} {d : DaemonNode} (hm : Move nature v v')
    (hstranded : d.Stranded) (hd : d ∈ v.daemons) : d ∈ v'.daemons := by
  cases hm with
  | pass | error | rotates | returned => exact hd
  | register => exact List.mem_cons_of_mem _ hd
  | unregister hi hinactive =>
    refine (List.mem_eraseIdx_iff_getElem?.mpr ?_)
    obtain ⟨j, hj⟩ := List.mem_iff_getElem?.mp hd
    refine ⟨j, fun hji => ?_, hj⟩
    subst hji
    rw [hi] at hj
    cases hj
    unfold DaemonNode.Stranded at hstranded
    rw [hinactive] at hstranded
    rcases hstranded with h | h <;> cases h
  | shift hi _ hs =>
    obtain ⟨j, hj⟩ := List.mem_iff_getElem?.mp hd
    refine List.mem_iff_getElem?.mpr ⟨j, ?_⟩
    rw [List.getElem?_set_ne, hj]
    intro hij
    subst hij
    rw [hi] at hj
    cases hj
    exact hs.not_stranded hstranded

/-- They stay in the table as they are. -/
theorem Run.stranded {nature : Nature} {v v' : View} {d : DaemonNode} (hr : Run nature v v')
    (hstranded : d.Stranded) (hd : d ∈ v.daemons) : d ∈ v'.daemons := by
  induction hr with
  | refl => exact hd
  | tail _ hm ih => exact hm.stranded hstranded ih

end StarterProjects.Legion
