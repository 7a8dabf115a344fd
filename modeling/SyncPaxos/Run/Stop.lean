import SyncPaxos.Run.Logs

/-!
# Stop — before and after `StopApplication` has run

A server of the cluster has one stop event, due at the common stop time, and nothing schedules
another.  `Halt` follows it: until it runs the server's file is empty, and from then on the clock
shows at least the stop time.

`World.Stopped` says that the stop of a server has run.
-/

namespace SyncPaxos

open DiscreteEvent

/-- `StopApplication` of server `i` has run. -/
structure World.Stopped (C : Cluster) (w : World) (i : ℕ) : Prop where
  lt : i < C.numNodes
  installed : C.stopTime ≠ 0
  none_pending : w.pending i Task.stopping? = []

instance (C : Cluster) (w : World) (i : ℕ) : Decidable (w.Stopped C i) :=
  decidable_of_iff (i < C.numNodes ∧ C.stopTime ≠ 0 ∧ w.pending i Task.stopping? = [])
    ⟨fun h => ⟨h.1, h.2.1, h.2.2⟩, fun h => ⟨h.lt, h.installed, h.none_pending⟩⟩

/-- Where the stop event of server `i` is, if there is one. -/
inductive Halt (C : Cluster) (i : ℕ) (w : World) : Prop
  | never : ¬ (i < C.numNodes ∧ C.stopTime ≠ 0) → w.pending i Task.stopping? = [] →
      (w.servers i).decisionLog = [] → Halt C i w
  | ahead : i < C.numNodes ∧ C.stopTime ≠ 0 → w.pending i Task.stopping? = [()] →
      (w.servers i).decisionLog = [] → Halt C i w
  | done : w.Stopped C i → C.stopTime ≤ w.now → Halt C i w

section Stop

variable {C : Cluster} {G : World → Choice → Prop} {w w' : World} {c : Choice} {i : ℕ}

theorem isStop_of_stopping {e : Event} (h : e.action.atServer i Task.stopping? = some ()) :
    e.action = .server i .stopApplication := by
  rcases eq_server_of_atServer (by rw [h]; rfl) with ⟨task, htask, hstop⟩
  cases task <;> simp [Task.stopping?] at hstop
  exact htask

/-- The pending stop events of a server before and after a step. -/
theorem StepSpec.stopping_eq {e : Event} {rest : List Event} (hs : StepSpec C c w w' e rest)
    (hr : Reachable C G w) (i : ℕ) :
    w'.pending i Task.stopping? = w.pending i Task.stopping? ∧
        e.action ≠ .server i .stopApplication ∨
      w.pending i Task.stopping? = [()] ∧ w'.pending i Task.stopping? = [] ∧
        e = ⟨C.stopTime, .server i .stopApplication⟩ := by
  have hperm := hs.stopping i
  cases hstop : e.action.atServer i Task.stopping? with
  | none =>
      left
      rw [hstop] at hperm
      refine ⟨?_, ?_⟩
      · have hlen := hperm.length_eq
        -- Lists of units are told apart by their lengths.
        exact (List.ext_getElem hlen (fun _ _ _ => rfl)).symm
      · intro haction
        rw [haction] at hstop
        simp [Callback.atServer, Task.stopping?] at hstop
  | some u =>
      right
      rw [hstop] at hperm
      have hone := stopping_le_one hr i
      have hlen := hperm.length_eq
      simp only [Option.toList_some, List.length_append, List.length_singleton] at hlen
      have haction := isStop_of_stopping hstop
      have hdue := (booted hr).due e (mem_of_pop hs.pop)
      rcases e with ⟨ts, action⟩
      obtain rfl : action = .server i .stopApplication := haction
      obtain rfl : ts = C.stopTime := hdue.2
      refine ⟨?_, ?_, rfl⟩
      · exact List.ext_getElem (by simp; omega) (fun _ _ _ => rfl)
      · exact List.length_eq_zero_iff.1 (by omega)

/-- A step that does not stop a server leaves its file as it is. -/
theorem StepSpec.decisionLog_eq {e : Event} {rest : List Event} (hs : StepSpec C c w w' e rest)
    (hne : e.action ≠ .server i .stopApplication) :
    (w'.servers i).decisionLog = (w.servers i).decisionLog := by
  rcases e with ⟨now, action⟩
  rw [hs.servers]
  cases action with
  | server j task =>
      by_cases hij : i = j
      · subst hij
        have htask : task ≠ .stopApplication := fun h => hne (by rw [h])
        have hchanges : Server.Changes C i now task (w.servers i)
            (Server.run C i now task (w.servers i)).server := Server.run_changes task _
        simpa [serversAfter] using (changes_decidedLog hchanges htask).1
      · simp [serversAfter, Function.update_of_ne hij]
  | _ =>
      rfl

theorem halt (hr : Reachable C G w) (i : ℕ) : Halt C i w := by
  refine Transition.Reachable.invariant (P := Halt C i) ?_ ?_ hr
  · by_cases h : i < C.numNodes ∧ C.stopTime ≠ 0
    · exact .ahead h ((init_stopping i).trans (if_pos h)) rfl
    · exact .never h ((init_stopping i).trans (if_neg h)) rfl
  · intro w c w' hr hw _ hstep
    rcases step_spec hstep with ⟨e, rest, hs⟩
    -- Either the stop event stays where it is, or it is the event that runs.
    rcases hs.stopping_eq hr i with ⟨hpending, hne⟩ | ⟨hbefore, hafter, rfl⟩
    · have hlog := hs.decisionLog_eq hne
      cases hw with
      | never h hnone hnil =>
          exact .never h (hpending.trans hnone) (hlog.trans hnil)
      | ahead h hone hnil =>
          exact .ahead h (hpending.trans hone) (hlog.trans hnil)
      | done h hnow =>
          exact .done ⟨h.lt, h.installed, hpending.trans h.none_pending⟩
            (hnow.trans (step_now_le hr hstep))
    · cases hw with
      | never h hnone _ =>
          cases hbefore.symm.trans hnone
      | ahead h _ _ =>
          exact .done ⟨h.1, h.2, hafter⟩ hs.now.ge
      | done h _ =>
          cases hbefore.symm.trans h.none_pending

/-- A server that has stopped has reached its stop time. -/
theorem World.Stopped.stopTime_le (h : w.Stopped C i) (hr : Reachable C G w) :
    C.stopTime ≤ w.now := by
  cases halt hr i with
  | never hno _ _ =>
      exact absurd ⟨h.lt, h.installed⟩ hno
  | ahead _ hone _ =>
      cases hone.symm.trans h.none_pending
  | done _ hnow =>
      exact hnow

/-- Only a server that has stopped has written its file. -/
theorem stopped_of_mem_decisionLog (hr : Reachable C G w) {p : Proposal}
    (hp : p ∈ (w.servers i).decisionLog) : w.Stopped C i := by
  cases halt hr i with
  | never _ _ hnil =>
      rw [hnil] at hp
      cases hp
  | ahead _ _ hnil =>
      rw [hnil] at hp
      cases hp
  | done h _ =>
      exact h

/-- The file of a server that stops is what it had decided, least id first. -/
theorem StepSpec.decisionLog_stop {rest : List Event} {ts : Time}
    (hs : StepSpec C c w w' ⟨ts, .server i .stopApplication⟩ rest) :
    (w'.servers i).decisionLog =
      (w.servers i).decidedProposalQueue.insertionSort (fun p q => p.proposalId ≤ q.proposalId) := by
  rw [hs.servers]
  simp [serversAfter, Server.run, Server.stopApplication]

theorem decisionLog_sorted (hr : Reachable C G w) (i : ℕ) :
    (w.servers i).decisionLog.Pairwise (fun p q => p.proposalId ≤ q.proposalId) := by
  refine Transition.Reachable.invariant
    (P := fun w => (w.servers i).decisionLog.Pairwise (fun p q => p.proposalId ≤ q.proposalId))
    List.Pairwise.nil ?_ hr
  intro w c w' hr hw _ hstep
  rcases step_spec hstep with ⟨e, rest, hs⟩
  rcases hs.stopping_eq hr i with ⟨-, hne⟩ | ⟨-, -, rfl⟩
  · -- The file is left alone.
    rw [hs.decisionLog_eq hne]
    exact hw
  · -- The file is written.
    have htotal : Std.Total (fun p q : Proposal => p.proposalId ≤ q.proposalId) :=
      ⟨fun p q => le_total p.proposalId q.proposalId⟩
    have htrans : IsTrans Proposal (fun p q => p.proposalId ≤ q.proposalId) :=
      ⟨fun _ _ _ hpq hqr => hpq.trans hqr⟩
    rw [hs.decisionLog_stop]
    exact List.pairwise_insertionSort _ _

end Stop

end SyncPaxos
