import SyncPaxos.Run.Rules

/-!
# Emission — what a member function schedules, read off its record

A server sends a frame exactly when it writes a line about it: `sendsOf` gives the packets that go
with a line.  `run_events` says that a call schedules the packets of its new lines and then the
calls of `newTasks`, so that counting frames is counting lines.
-/

namespace SyncPaxos

open DiscreteEvent

/-- The packets that go with a line of the record. -/
def sendsOf (C : Cluster) (i : ℕ) (now : Time) : Record → List Event
  | .proposed f => broadcast C i now f
  | .acceptSent f => [sendTo i now f f.proposerId]
  | .decision f => broadcast C i now f
  | .handledDecision f =>
      if C.async then [sendTo i now (decisionAckFrame i f) f.proposerId] else []
  | _ => []

namespace Server

variable (C : Cluster) (i : ℕ) (now : Time)

/-- The poll that `DoAsyncPropose` schedules. -/
def asyncProposeTasks (s : Server) : List Event :=
  if C.stopTime ≤ now then
    []
  else if s.waitingProposals = [] then
    [⟨now + 1000, .server i .doAsyncPropose⟩]
  else
    []

/-- The calls that a member function schedules. -/
def newTasks (task : Task) (s : Server) : List Event :=
  match task with
  | .startApplication =>
      [⟨now, .server i .startListenerThread⟩, ⟨now, .server i .startProposerThread⟩,
        ⟨now, .server i .startAcceptorThread⟩]
  | .startProposerThread =>
      if C.async then
        if i = Cluster.leader then s.asyncProposeTasks C i now else []
      else
        [⟨now + i * C.slot, .server i .doSyncPropose⟩]
  | .doSyncPropose =>
      if C.stopTime ≤ now then [] else [⟨now + s.proposePeriod, .server i .doSyncPropose⟩]
  | .doAsyncPropose => s.asyncProposeTasks C i now
  | .doReceivedProposalMessage f =>
      [⟨now + 10, .server i (.sendAcceptMessage { f with acceptorId := i, acceptTime := now })⟩]
  | .doReceivedDecisionAckMessage f =>
      match s.acksOn C now f with
      | none => []
      | some _ => s.asyncProposeTasks C i now
  | _ => []

theorem doPropose_events (s : Server) :
    (s.doPropose C i now).2.events = (s.proposeRecords i now).flatMap (sendsOf C i now) := by
  rcases doPropose_cases C i now s with ⟨hw, h⟩ | ⟨p, rest, hw, h⟩
  · simp [h, proposeRecords, hw]
  · simp [h, proposeRecords, hw, sendsOf]

theorem doAsyncPropose_events (s : Server) :
    (s.doAsyncPropose C i now).events =
      (s.asyncProposeRecords C i now).flatMap (sendsOf C i now) ++ s.asyncProposeTasks C i now := by
  rcases doAsyncPropose_cases C i now s with ⟨ht, h⟩ | ⟨ht, hw, h⟩ | ⟨ht, p, rest, hw, h⟩
  · simp [h, asyncProposeRecords, asyncProposeTasks, ht, sendsOf]
  · simp [h, asyncProposeRecords, asyncProposeTasks, not_le.2 ht, hw, proposeRecords, sendsOf]
  · simp [h, asyncProposeRecords, asyncProposeTasks, not_le.2 ht, hw, proposeRecords, sendsOf]

theorem run_events (task : Task) (s : Server) :
    (run C i now task s).events =
      (newRecords C i now task s).flatMap (sendsOf C i now) ++ newTasks C i now task s := by
  cases task with
  | startApplication =>
      simp [run, startApplication, newRecords, newTasks]
  | stopApplication =>
      simp [run, stopApplication, newRecords, newTasks]
  | startListenerThread =>
      simp [run, startListenerThread, newRecords, newTasks]
  | startProposerThread =>
      rcases startProposerThread_cases C i now s with ⟨ha, hi, h⟩ | ⟨ha, hi, h⟩ | ⟨ha, h⟩
      · subst hi
        simp [run, h, newRecords, newTasks, ha, doAsyncPropose_events, sendsOf,
          asyncProposeRecords, proposeRecords, asyncProposeTasks, record]
      · simp [run, h, newRecords, newTasks, ha, hi, sendsOf]
      · simp [run, h, newRecords, newTasks, ha, sendsOf]
  | startAcceptorThread =>
      simp [run, startAcceptorThread, newRecords, newTasks]
  | createProposalFromRequest r =>
      rcases createProposalFromRequest_cases i now r s with ⟨hq, h⟩ | ⟨hq, h⟩
      · simp [run, h, newRecords, newTasks, hq]
      · simp [run, h, newRecords, newTasks, not_lt.2 hq, sendsOf]
  | doSyncPropose =>
      rcases doSyncPropose_cases C i now s with ⟨ht, h⟩ | ⟨ht, h⟩
      · simp [run, h, newRecords, newTasks, ht, sendsOf]
      · simp [run, h, newRecords, newTasks, not_le.2 ht, doPropose_events, sendsOf,
          proposeRecords, record]
  | doAsyncPropose =>
      exact doAsyncPropose_events C i now s
  | doReceivedProposalMessage f =>
      simp [run, doReceivedProposalMessage, newRecords, newTasks, sendsOf]
  | sendAcceptMessage f =>
      simp [run, sendAcceptMessage, newRecords, newTasks, sendsOf]
  | doReceivedAcceptMessage f =>
      rcases doReceivedAcceptMessage_cases C i now f s with
        ⟨hig, h⟩ | ⟨found, hown, hl, ⟨hm, h⟩ | ⟨hm, hz, ha, h⟩ | ⟨hm, hz, ha, h⟩⟩
      · simp [run, h, newRecords, newTasks, decidesOn_ignored hig, sendsOf]
      · simp [run, h, newRecords, newTasks, decidesOn_counted hown hl hm, sendsOf]
      · simp [run, h, newRecords, newTasks, decidesOn_majority hown hl hm hz, ha, sendsOf]
      · simp [run, h, newRecords, newTasks, decidesOn_majority hown hl hm hz, ha, sendsOf]
  | doReceivedDecisionMessage f =>
      simp [run, doReceivedDecisionMessage, newRecords, newTasks, sendsOf]
  | doReceivedDecisionAckMessage f =>
      rcases doReceivedDecisionAckMessage_cases C i now f s with
        ⟨hig, h⟩ | ⟨found, ha, hl, ⟨hm, h⟩ | ⟨hm, hz, h⟩⟩
      · simp [run, h, newRecords, newTasks, acksOn_ignored hig, sendsOf]
      · simp [run, h, newRecords, newTasks, acksOn_counted ha hl hm, sendsOf]
      · simp [run, h, newRecords, newTasks, acksOn_majority ha hl hm hz, doAsyncPropose_events,
          sendsOf, asyncProposeRecords, proposeRecords, asyncProposeTasks, record, pushDecided,
          eraseProposal]

/-- The calls that a member function schedules, each with its delay and its occasion. -/
inductive Schedules : Task → Server → Event → Prop
  | boot {s : Server} {t : Task} :
      t = .startListenerThread ∨ t = .startProposerThread ∨ t = .startAcceptorThread →
      Schedules .startApplication s ⟨now, .server i t⟩
  | firstSlot {s : Server} :
      C.async = false → Schedules .startProposerThread s ⟨now + i * C.slot, .server i .doSyncPropose⟩
  | nextSlot {s : Server} :
      now < C.stopTime →
      Schedules .doSyncPropose s ⟨now + s.proposePeriod, .server i .doSyncPropose⟩
  | poll {s : Server} {task : Task} :
      (task = .startProposerThread ∧ C.async = true ∧ i = Cluster.leader) ∨
          task = .doAsyncPropose ∨
          (∃ f, task = .doReceivedDecisionAckMessage f ∧ (s.acksOn C now f).isSome) →
      now < C.stopTime → s.waitingProposals = [] →
      Schedules task s ⟨now + 1000, .server i .doAsyncPropose⟩
  | answer {s : Server} {f : PaxosFrame} :
      Schedules (.doReceivedProposalMessage f) s
        ⟨now + 10, .server i (.sendAcceptMessage { f with acceptorId := i, acceptTime := now })⟩

theorem schedules_of_mem_newTasks {task : Task} {s : Server} {e : Event}
    (he : e ∈ newTasks C i now task s) : Schedules C i now task s e := by
  -- The poll has three callers and the same guards at each of them.
  have hasync : e ∈ s.asyncProposeTasks C i now →
      now < C.stopTime ∧ s.waitingProposals = [] ∧ e = ⟨now + 1000, .server i .doAsyncPropose⟩ := by
    intro he
    unfold asyncProposeTasks at he
    split at he
    · cases he
    · rename_i hlate
      split at he
      · rename_i hw
        exact ⟨not_le.1 hlate, hw, List.mem_singleton.1 he⟩
      · cases he
  cases task with
  | startApplication =>
      simp only [newTasks, List.mem_cons, List.not_mem_nil, or_false] at he
      rcases he with rfl | rfl | rfl <;> exact .boot (by simp)
  | startProposerThread =>
      simp only [newTasks] at he
      split at he
      · rename_i ha
        split at he
        · rename_i hl
          rcases hasync he with ⟨hnow, hw, rfl⟩
          exact .poll (.inl ⟨rfl, ha, hl⟩) hnow hw
        · cases he
      · rename_i ha
        rcases List.mem_singleton.1 he with rfl
        exact .firstSlot (by simpa using ha)
  | doSyncPropose =>
      simp only [newTasks] at he
      split at he
      · cases he
      · rename_i hlate
        rcases List.mem_singleton.1 he with rfl
        exact .nextSlot (not_le.1 hlate)
  | doAsyncPropose =>
      rcases hasync he with ⟨hnow, hw, rfl⟩
      exact .poll (.inr (.inl rfl)) hnow hw
  | doReceivedProposalMessage f =>
      rcases List.mem_singleton.1 he with rfl
      exact .answer
  | doReceivedDecisionAckMessage f =>
      simp only [newTasks] at he
      split at he
      · cases he
      · rename_i p hp
        rcases hasync he with ⟨hnow, hw, rfl⟩
        exact .poll (.inr (.inr ⟨f, rfl, by simp [hp]⟩)) hnow hw
  | _ =>
      cases he

/-- A call scheduled by a member function is one of the server's own, never a receive handler. -/
theorem mem_newTasks {task : Task} {s : Server} {e : Event}
    (he : e ∈ newTasks C i now task s) :
    ∃ t, e.action = .server i t ∧
      (t = .startListenerThread ∨ t = .startProposerThread ∨ t = .startAcceptorThread ∨
        t = .doSyncPropose ∨ t = .doAsyncPropose ∨ ∃ f, t = .sendAcceptMessage f) := by
  cases schedules_of_mem_newTasks C i now he with
  | boot ht =>
      refine ⟨_, rfl, ?_⟩
      rcases ht with rfl | rfl | rfl <;> simp
  | _ =>
      exact ⟨_, rfl, by simp⟩

end Server

/-! ## The line of a call -/

/-- The line that a call writes in any case, before any other. -/
def Task.line? (i : ℕ) (now : Time) : Task → Option Record
  | .startProposerThread => some .proposerStarted
  | .doSyncPropose => some (.syncPropose now)
  | .doReceivedProposalMessage f => some (.handledProposal f)
  | .sendAcceptMessage f => some (.acceptSent (acceptFrame i now f))
  | .doReceivedAcceptMessage f => some (.handledAccept f)
  | .doReceivedDecisionMessage f => some (.handledDecision f)
  | .doReceivedDecisionAckMessage f => some (.handledDecisionAck f)
  | _ => none

/-- A line that is the first of a call. -/
def Record.IsLine : Record → Prop
  | .proposerStarted | .syncPropose _ | .handledProposal _ | .acceptSent _ | .handledAccept _
  | .handledDecision _ | .handledDecisionAck _ => True
  | _ => False

/-- A projection of such lines sees one line of each call. -/
theorem newRecords_filterMap {C : Cluster} {i : ℕ} {now : Time} {task : Task} {s : Server}
    {β : Type} {p : Record → Option β} (hp : ∀ r, ¬ r.IsLine → p r = none) :
    (Server.newRecords C i now task s).filterMap p = ((task.line? i now).bind p).toList := by
  have hskip : ∀ (r : Record) (l : Trace), ¬ r.IsLine → (r :: l).filterMap p = l.filterMap p := by
    intro r l hr
    simp [hp r hr]
  have hpropose : (s.proposeRecords i now).filterMap p = [] := by
    unfold Server.proposeRecords
    split
    · rfl
    · exact hskip _ _ id
  have hasync : (s.asyncProposeRecords C i now).filterMap p = [] := by
    refine (hskip _ _ id).trans ?_
    split
    · rfl
    · exact hpropose
  -- The line comes first; what follows it is not seen.
  have hcons : ∀ r l, List.filterMap p l = [] → (r :: l).filterMap p = (p r).toList := by
    intro r l hl
    rw [List.filterMap_cons, hl]
    cases p r <;> rfl
  cases task with
  | startProposerThread =>
      refine hcons _ _ ?_
      split
      · exact hasync
      · rfl
  | createProposalFromRequest r =>
      simp only [Server.newRecords]
      split
      · rfl
      · exact hskip _ _ id
  | doSyncPropose =>
      refine hcons _ _ ?_
      split
      · rfl
      · exact hpropose
  | doAsyncPropose =>
      exact hasync
  | doReceivedProposalMessage f =>
      exact hcons _ _ rfl
  | sendAcceptMessage f =>
      exact hcons _ _ rfl
  | doReceivedAcceptMessage f =>
      refine hcons _ _ ?_
      split
      · rfl
      · refine (hskip _ _ id).trans ?_
        split
        · rfl
        · exact hskip _ _ id
  | doReceivedDecisionMessage f =>
      exact hcons _ _ (hskip _ _ id)
  | doReceivedDecisionAckMessage f =>
      refine hcons _ _ ?_
      split
      · rfl
      · exact (hskip _ _ id).trans hasync
  | _ =>
      rfl

theorem mem_broadcast {C : Cluster} {i : ℕ} {now : Time} {f : PaxosFrame} {e : Event} :
    e ∈ broadcast C i now f ↔ ∃ a, a ≠ i ∧ a < C.numNodes ∧ e = sendTo i now f a := by
  unfold broadcast Cluster.nodes
  simp only [List.mem_map, List.mem_filter, List.mem_range, decide_eq_true_eq, and_assoc]
  constructor
  · rintro ⟨a, hlt, hne, rfl⟩
    exact ⟨a, hne, hlt, rfl⟩
  · rintro ⟨a, hne, hlt, rfl⟩
    exact ⟨a, hlt, hne, rfl⟩

/-- Every packet of a line of the record of server `i` is a Paxos frame from `i`. -/
theorem mem_sendsOf {C : Cluster} {i : ℕ} {now : Time} {r : Record} {e : Event}
    (he : e ∈ sendsOf C i now r) : ∃ f dst, e = sendTo i now f dst := by
  cases r with
  | proposed f =>
      rcases mem_broadcast.1 he with ⟨a, -, -, rfl⟩
      exact ⟨f, a, rfl⟩
  | acceptSent f =>
      exact ⟨_, _, List.mem_singleton.1 he⟩
  | decision f =>
      rcases mem_broadcast.1 he with ⟨a, -, -, rfl⟩
      exact ⟨f, a, rfl⟩
  | handledDecision f =>
      simp only [sendsOf] at he
      split at he
      · exact ⟨_, _, List.mem_singleton.1 he⟩
      · cases he
  | _ =>
      cases he

/-- A call that a step makes pending was scheduled by the call that ran, or by an arrival. -/
theorem mem_emitted_server {C : Cluster} {c : Choice} {w : World} {e x : Event} {i : ℕ} {t : Task}
    (hx : x ∈ emitted C c w e) (hi : x.action = .server i t) :
    (∃ task, e.action = .server i task ∧ x ∈ Server.newTasks C i e.ts task (w.servers i)) ∨
      ∃ packet hop, e.action = .transit packet hop ∧ c.fate = .arrive ∧
        x ∈ arrivalEvents C w e.ts packet := by
  rcases e with ⟨now, action⟩
  -- A client sends a packet and schedules itself, never a call of a server.
  have hclient : ∀ k, x ∈ ((w.clients k).sendRequest C k now c.value).2 → False := by
    intro k hx
    rcases mem_sendRequest hx with rfl | rfl <;> cases hi
  cases action with
  | server k task =>
      simp only [emitted] at hx
      rw [Server.run_events] at hx
      rcases List.mem_append.1 hx with hx | hx
      · rcases List.mem_flatMap.1 hx with ⟨r, -, hr⟩
        rcases mem_sendsOf hr with ⟨f, dst, rfl⟩
        cases hi
      · rcases Server.mem_newTasks C k now hx with ⟨t', ht', -⟩
        rw [hi] at ht'
        cases ht'
        exact .inl ⟨task, rfl, hx⟩
  | clientStart k =>
      exact (hclient k hx).elim
  | sendRequest k =>
      exact (hclient k hx).elim
  | transit packet hop =>
      cases hf : c.fate with
      | arrive =>
          simp only [emitted, hf] at hx
          exact .inr ⟨packet, hop, rfl, rfl, hx⟩
      | forward d =>
          simp only [emitted, hf, List.mem_singleton] at hx
          subst hx
          cases hi
      | duplicate d₁ d₂ =>
          simp only [emitted, hf, List.mem_cons, List.not_mem_nil, or_false] at hx
          rcases hx with rfl | rfl <;> cases hi
      | lose =>
          simp [emitted, hf] at hx

/-- Whether a line is the start of the proposer. -/
@[simp] def Record.started? : Record → Option Unit
  | .proposerStarted => some ()
  | _ => none

section Start

variable {C : Cluster} {i : ℕ} {now : Time} {task : Task} {s : Server}

/-- Only `StartProposerThread` is recorded as the start of the proposer. -/
theorem newRecords_started (now : Time) (task : Task) (s : Server) :
    (Server.newRecords C i now task s).filterMap Record.started? =
      if task = .startProposerThread then [()] else [] := by
  have hlines : ∀ r : Record, ¬ r.IsLine → r.started? = none := by
    intro r hr
    cases r <;> simp [Record.IsLine] at hr ⊢
  rw [newRecords_filterMap hlines]
  cases task <;> rfl

theorem mem_newRecords_started :
    .proposerStarted ∈ Server.newRecords C i now task s ↔ task = .startProposerThread := by
  have hstarted := newRecords_started (C := C) (i := i) now task s
  constructor
  · intro h
    by_contra hne
    rw [if_neg hne] at hstarted
    exact List.filterMap_eq_nil_iff.1 hstarted _ h |> Option.some_ne_none _
  · rintro rfl
    simp [Server.newRecords]

end Start

end SyncPaxos
