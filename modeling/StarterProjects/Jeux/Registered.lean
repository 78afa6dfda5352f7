import Mathlib.Data.List.Nodup
import StarterProjects.Jeux.ClientRegistry

/-!
# Who is registered

The registry keeps its clients twice: as a list and as a count. `creg_unregister` lowers the
count and leaves the list as it is, so the two disagree from the first departure on; and a
client that is not found lets the waiting threads go on when the count is 0.

`kept_of_init`: a sequence of calls keeps list and count right exactly when no call
unregisters a client whose descriptor some node has, or any client while nobody is
registered.
-/

namespace StarterProjects.Jeux

open Lib Lib.Exec

inductive RegistryCall where
  | register (newClient : ClientPtr)
  | unregister (client : ClientPtr)

/-- The descriptor of `c` is none of those of the registered clients. -/
def Distinct (reg : List ClientPtr) (c : ClientPtr) (w : World) : Prop :=
  ∀ d ∈ reg, w.clientFd d ≠ w.clientFd c

/-- The list holds exactly the clients `reg`, each once, and the count is its length. -/
def Lists (reg : List ClientPtr) (w : World) : Prop :=
  w.cregState.nodes.Nodup ∧ (∀ c, c ∈ w.cregState.nodes ↔ c ∈ reg) ∧
    w.cregState.clientCount = w.cregState.nodes.length ∧
    0 ≤ w.cregState.clientCount ∧ w.cregState.clientCount ≤ MAX_CLIENTS

/-- The calls are made one after the other; `reg` are the clients registered and not yet
unregistered. The list is right all the time, and to unregister a client that is not
registered returns -1 and changes nothing. -/
def Kept (reg : List ClientPtr) : List RegistryCall → World → Prop
  | [], w => Lists reg w
  | .register c :: calls, w => Lists reg w ∧
      (Distinct reg c w → Ends (creg_register c).run w fun r w' =>
        Kept (if r = some c then reg ++ [c] else reg) calls w')
  | .unregister c :: calls, w => Lists reg w ∧ Ends (creg_unregister c).run w fun r w' =>
      if c ∈ reg then Kept (reg.erase c) calls w' else r = -1 ∧ w' = w ∧ Kept reg calls w'

/-- No node has the descriptor of a client to be unregistered, and somebody is registered. -/
def AbsentRun (reg : List ClientPtr) : List RegistryCall → World → Prop
  | [], _ => True
  | .register c :: calls, w => Distinct reg c w → ∀ r w', (creg_register c).run w = .ok (r, w') →
      AbsentRun (if r = some c then reg ++ [c] else reg) calls w'
  | .unregister c :: calls, w => (¬ Listed w c ∧ w.cregState.clientCount ≠ 0) ∧
      ∀ r w', (creg_unregister c).run w = .ok (r, w') → AbsentRun reg calls w'

theorem Kept.lists {reg : List ClientPtr} {calls : List RegistryCall} {w : World}
    (h : Kept reg calls w) : Lists reg w := by
  match calls with
  | [] => exact h
  | .register _ :: _ => exact h.1
  | .unregister _ :: _ => exact h.1

/-- The registry as long as no client has left it. -/
structure Seats (reg : List ClientPtr) (w : World) : Prop where
  free : w.cregState.registryLock = 1
  nodes : w.cregState.nodes = reg
  count : w.cregState.clientCount = reg.length
  room : w.cregState.clientCount ≤ MAX_CLIENTS
  nodup : reg.Nodup
  empty : reg = [] → w.cregState.notEmpty ≠ 0

namespace Seats

variable {reg : List ClientPtr} {w : World} {c : ClientPtr}

theorem lists (h : Seats reg w) : Lists reg w := by
  rw [Lists, h.nodes]
  exact ⟨h.nodup, fun _ => Iff.rfl, h.count, by rw [h.count]; exact Int.natCast_nonneg _, h.room⟩

theorem listed (h : Seats reg w) (hc : c ∈ reg) : Listed w c := ⟨c, h.nodes ▸ hc, rfl⟩

theorem joined (h : Seats reg w) (hroom : ¬ w.cregState.clientCount ≥ MAX_CLIENTS)
    (hc : Distinct reg c w) : Seats (reg ++ [c]) (creg.set (w.cregState.joined c) w) where
  free := h.free
  nodes := by
    rw [← h.nodes]
    rfl
  count := by
    show w.cregState.clientCount + 1 = _
    rw [h.count, List.length_append]
    rfl
  room := by
    show w.cregState.clientCount + 1 ≤ MAX_CLIENTS
    omega
  nodup := by
    refine List.nodup_append.mpr ⟨h.nodup, List.nodup_singleton _, fun d hd e he hde => ?_⟩
    obtain rfl := List.mem_singleton.mp he
    exact hc d hd (congrArg w.clientFd hde)
  empty := fun he => absurd he (List.append_ne_nil_of_right_ne_nil _ (List.cons_ne_nil _ _))

/-- A departure is not seen in the list. -/
theorem not_lists_erase (h : Seats reg w) (hc : c ∈ reg) :
    ¬ Lists (reg.erase c) (creg.set (w.cregState.parted c) w) := fun hl => by
  have hin : c ∈ (creg.set (w.cregState.parted c) w).cregState.nodes :=
    h.nodes.symm ▸ hc
  exact h.nodup.not_mem_erase ((hl.2.1 c).mp hin)

/-- The induction over the calls. -/
theorem kept_iff : ∀ {calls : List RegistryCall} {reg : List ClientPtr} {w : World},
    Seats reg w → (Kept reg calls w ↔ AbsentRun reg calls w)
  | [], _, _, h => ⟨fun _ => trivial, fun _ => h.lists⟩
  | .register c :: calls, reg, w, h => by
    by_cases hc : Distinct reg c w
    · obtain ⟨r, w', hrun, hseats⟩ : ∃ r w', (creg_register c).run w = .ok (r, w') ∧
          Seats (if r = some c then reg ++ [c] else reg) w' := by
        by_cases hfull : w.cregState.clientCount ≥ MAX_CLIENTS
        · exact ⟨none, w, creg_register_full h.free hfull, h⟩
        · have hne : w.cregState.nodes = [] → w.cregState.notEmpty ≠ 0 := fun hn =>
            h.empty (h.nodes ▸ hn)
          refine ⟨some c, _, creg_register_run h.free hfull hne, ?_⟩
          rw [if_pos rfl]
          exact h.joined hfull hc
      constructor
      · rintro ⟨_, hk⟩ _ r' w'' hw
        rw [hrun] at hw
        cases hw
        exact (kept_iff hseats).mp ((hk hc).apply hrun)
      · exact fun ha => ⟨h.lists, fun _ =>
          .of_eq hrun ((kept_iff hseats).mpr (ha hc r w' hrun))⟩
    · exact ⟨fun _ hd => absurd hd hc, fun _ => ⟨h.lists, fun hd => absurd hd hc⟩⟩
  | .unregister c :: calls, reg, w, h => by
    have hrun := creg_unregister_run (c := c) h.free
    -- a client that is listed stays listed, so this call is never right
    by_cases hl : Listed w c
    · rw [if_pos hl] at hrun
      refine ⟨fun hk => ?_, fun ha => absurd hl ha.1.1⟩
      have hres := hk.2.apply hrun
      split at hres
      · next hc => exact absurd hres.lists (h.not_lists_erase hc)
      · exact absurd hres.1 (by decide)
    · rw [if_neg hl] at hrun
      have hc : c ∉ reg := fun hc => hl (h.listed hc)
      -- with nobody counted, the call that fails raises `notEmpty` once more
      by_cases h0 : w.cregState.clientCount = 0
      · refine ⟨fun hk => ?_, fun ha => absurd h0 ha.1.2⟩
        have hres := hk.2.apply hrun
        rw [if_neg hc, ClientRegistry.signalled_zero h0] at hres
        have hsame := congrArg (fun w => w.cregState.notEmpty) hres.2.1
        exact absurd hsame (Nat.succ_ne_self _)
      · rw [ClientRegistry.signalled_same h0, Obj.set_get _ (creg_get w)] at hrun
        constructor
        · rintro ⟨_, hk⟩
          refine ⟨⟨hl, h0⟩, fun r w' hw => ?_⟩
          rw [hrun] at hw
          cases hw
          have hres := hk.apply hrun
          rw [if_neg hc] at hres
          exact (kept_iff h).mp hres.2.2
        · rintro ⟨_, ha⟩
          refine ⟨h.lists, .of_eq hrun ?_⟩
          rw [if_neg hc]
          exact ⟨rfl, rfl, (kept_iff h).mpr (ha _ _ hrun)⟩

theorem of_empty (hl : w.cregState.registryLock = 1) (hn : w.cregState.nodes = [])
    (h0 : w.cregState.clientCount = 0) (hne : w.cregState.notEmpty ≠ 0) : Seats [] w where
  free := hl
  nodes := hn
  count := h0
  room := h0 ▸ (by decide)
  nodup := List.nodup_nil
  empty := fun _ => hne

end Seats

/-- List and count are right all the time exactly when every call to `creg_unregister` is for
a client that is not in the list while somebody is. -/
theorem kept_of_init (calls : List RegistryCall) (w : World) :
    Ends creg_init.run w fun _ w' => Kept [] calls w' ↔ AbsentRun [] calls w' :=
  .of_eq rfl (Seats.of_empty rfl rfl rfl Nat.one_ne_zero).kept_iff

/-- A client comes and goes; the list still has it. -/
theorem gone_is_listed : ¬ Ends creg_init.run (World.initial fun _ => 4) fun _ w =>
    Kept [] [.register 0, .unregister 0] w := by
  rintro ⟨_, w, hrun, hk⟩
  cases hrun
  have ha := (Seats.of_empty rfl rfl rfl Nat.one_ne_zero).kept_iff.mp hk
  exact (ha nofun _ _ rfl).1.1 ⟨0, List.mem_singleton_self _, rfl⟩

end StarterProjects.Jeux
