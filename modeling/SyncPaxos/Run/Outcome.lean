import SyncPaxos.Model.AppServer

/-!
# Outcome — what each member function can do

One lemma for each function with branches, in the form later proofs split on:

* `doPropose_cases`, `doAsyncPropose_cases`, `doSyncPropose_cases`;
* `doReceivedAcceptMessage_cases`, `doReceivedDecisionAckMessage_cases`.

`newRecords` lists the lines a call adds to the record of its server, and the lemmas `run_…`
after it read off what that means for each kind of line.
-/

namespace SyncPaxos

open DiscreteEvent

namespace Server

variable (C : Cluster) (i : ℕ) (now : Time)

/-! ## Branches -/

/-- `DoPropose` has nothing to propose, or proposes the front of the queue. -/
theorem doPropose_cases (s : Server) :
    (s.waitingProposals = [] ∧ s.doPropose C i now = (0, ⟨s, []⟩)) ∨
      ∃ p rest, s.waitingProposals = p :: rest ∧
        s.doPropose C i now =
          (p.proposalId,
            ⟨({ s with waitingProposals := rest }.putProposal p.proposalId (p.propose i now)).record
                (.proposed (proposalFrame i now p)),
              broadcast C i now (proposalFrame i now p)⟩) := by
  cases hw : s.waitingProposals with
  | nil =>
      exact .inl ⟨rfl, by simp [doPropose, hw]⟩
  | cons p rest =>
      exact .inr ⟨p, rest, rfl, by simp [doPropose, hw, record, putProposal, Proposal.propose,
        proposalFrame]⟩

/-- `DoAsyncPropose` comes too late, proposes, or polls again in a microsecond. -/
theorem doAsyncPropose_cases (s : Server) :
    (C.stopTime ≤ now ∧ s.doAsyncPropose C i now = ⟨s.record (.asyncPropose now), []⟩) ∨
      (now < C.stopTime ∧ s.waitingProposals = [] ∧
        s.doAsyncPropose C i now =
          ⟨s.record (.asyncPropose now), [⟨now + 1000, .server i .doAsyncPropose⟩]⟩) ∨
      (now < C.stopTime ∧ ∃ p rest, s.waitingProposals = p :: rest ∧
        s.doAsyncPropose C i now =
          ⟨{ (({ s.record (.asyncPropose now) with waitingProposals := rest }.putProposal
                p.proposalId (p.propose i now)).record (.proposed (proposalFrame i now p))) with
              leaderState := some .proposed },
            broadcast C i now (proposalFrame i now p)⟩) := by
  by_cases hlate : C.stopTime ≤ now
  · exact .inl ⟨hlate, by simp [doAsyncPropose, hlate]⟩
  · have hnow : now < C.stopTime := not_le.1 hlate
    cases hw : s.waitingProposals with
    | nil =>
        refine .inr (.inl ⟨hnow, rfl, ?_⟩)
        simp [doAsyncPropose, hlate, record, hw]
    | cons p rest =>
        refine .inr (.inr ⟨hnow, p, rest, rfl, ?_⟩)
        simp [doAsyncPropose, hlate, record, hw, doPropose, putProposal, Proposal.propose,
          proposalFrame]

/-- `DoSyncPropose` comes too late, or proposes what there is and waits for the next slot. -/
theorem doSyncPropose_cases (s : Server) :
    (C.stopTime ≤ now ∧ s.doSyncPropose C i now = ⟨s.record (.syncPropose now), []⟩) ∨
      (now < C.stopTime ∧
        s.doSyncPropose C i now =
          ⟨((s.record (.syncPropose now)).doPropose C i now).2.server,
            ((s.record (.syncPropose now)).doPropose C i now).2.events ++
              [⟨now + s.proposePeriod, .server i .doSyncPropose⟩]⟩) := by
  by_cases hlate : C.stopTime ≤ now
  · exact .inl ⟨hlate, by simp [doSyncPropose, hlate]⟩
  · exact .inr ⟨not_le.1 hlate, by simp [doSyncPropose, hlate, record]⟩

/-- An ACCEPT is ignored, counted, or completes a majority. -/
theorem doReceivedAcceptMessage_cases (f : PaxosFrame) (s : Server) :
    ((f.proposerId ≠ i ∨ s.proposals.lookup f.proposalId = none) ∧
        s.doReceivedAcceptMessage C i now f = ⟨s.record (.handledAccept f), []⟩) ∨
      ∃ found, f.proposerId = i ∧ s.proposals.lookup f.proposalId = some found ∧
        ((¬ (found.incrementNumAck.numAck > C.numNodes / 2 ∧ found.decisionTime = 0) ∧
            s.doReceivedAcceptMessage C i now f =
              ⟨(s.record (.handledAccept f)).putProposal f.proposalId found.incrementNumAck, []⟩) ∨
          (found.incrementNumAck.numAck > C.numNodes / 2 ∧ found.decisionTime = 0 ∧
            C.async = true ∧
            s.doReceivedAcceptMessage C i now f =
              ⟨((s.record (.handledAccept f)).record (.decision (decisionFrame now f))).putProposal
                  f.proposalId
                  { found.incrementNumAck with decisionTime := now, numDecisionAck := 1 },
                broadcast C i now (decisionFrame now f)⟩) ∨
          (found.incrementNumAck.numAck > C.numNodes / 2 ∧ found.decisionTime = 0 ∧
            C.async = false ∧
            s.doReceivedAcceptMessage C i now f =
              ⟨(((s.record (.handledAccept f)).record
                    (.decision (decisionFrame now f))).pushDecided
                  { found.incrementNumAck with
                    decisionTime := now, numDecisionAck := 1 }).eraseProposal f.proposalId,
                broadcast C i now (decisionFrame now f)⟩)) := by
  have hdt : ∀ p : Proposal, p.incrementNumAck.decisionTime = p.decisionTime := fun _ => rfl
  by_cases hown : f.proposerId = i
  · cases hl : s.proposals.lookup f.proposalId with
    | none =>
        exact .inl ⟨.inr rfl, by simp [doReceivedAcceptMessage, hown, record, hl]⟩
    | some found =>
        refine .inr ⟨found, hown, rfl, ?_⟩
        by_cases hmaj : found.incrementNumAck.numAck > C.numNodes / 2 ∧ found.decisionTime = 0
        · cases ha : C.async with
          | true =>
              refine .inr (.inl ⟨hmaj.1, hmaj.2, rfl, ?_⟩)
              simp [doReceivedAcceptMessage, hown, record, hl, hdt, hmaj.1, hmaj.2, ha]
          | false =>
              refine .inr (.inr ⟨hmaj.1, hmaj.2, rfl, ?_⟩)
              simp [doReceivedAcceptMessage, hown, record, hl, hdt, hmaj.1, hmaj.2, ha]
        · refine .inl ⟨hmaj, ?_⟩
          simp only [doReceivedAcceptMessage, hown, record, hl, hdt, hmaj, ne_eq,
            not_true_eq_false, if_false]
  · exact .inl ⟨.inl hown, by simp [doReceivedAcceptMessage, hown]⟩

/-- A DECISION_ACK is ignored, counted, or completes a majority and lets the leader go on. -/
theorem doReceivedDecisionAckMessage_cases (f : PaxosFrame) (s : Server) :
    ((C.async = false ∨ s.proposals.lookup f.proposalId = none) ∧
        s.doReceivedDecisionAckMessage C i now f = ⟨s.record (.handledDecisionAck f), []⟩) ∨
      ∃ found, C.async = true ∧ s.proposals.lookup f.proposalId = some found ∧
        ((¬ (found.incrementNumDecisionAck.numDecisionAck > C.numNodes / 2 ∧
              found.decisionAckTime = 0) ∧
            s.doReceivedDecisionAckMessage C i now f =
              ⟨(s.record (.handledDecisionAck f)).putProposal f.proposalId
                found.incrementNumDecisionAck, []⟩) ∨
          (found.incrementNumDecisionAck.numDecisionAck > C.numNodes / 2 ∧
            found.decisionAckTime = 0 ∧
            s.doReceivedDecisionAckMessage C i now f =
              (((s.record (.handledDecisionAck f)).pushDecided
                { found.incrementNumDecisionAck with
                  decisionAckTime := now }).eraseProposal f.proposalId).doAsyncPropose C i now)) := by
  have hdt : ∀ p : Proposal, p.incrementNumDecisionAck.decisionAckTime = p.decisionAckTime :=
    fun _ => rfl
  cases ha : C.async with
  | false =>
      exact .inl ⟨.inl rfl, by simp [doReceivedDecisionAckMessage, ha]⟩
  | true =>
      cases hl : s.proposals.lookup f.proposalId with
      | none =>
          exact .inl ⟨.inr rfl, by simp [doReceivedDecisionAckMessage, ha, record, hl]⟩
      | some found =>
          refine .inr ⟨found, rfl, rfl, ?_⟩
          by_cases hmaj : found.incrementNumDecisionAck.numDecisionAck > C.numNodes / 2 ∧
              found.decisionAckTime = 0
          · refine .inr ⟨hmaj.1, hmaj.2, ?_⟩
            simp [doReceivedDecisionAckMessage, ha, record, hl, hdt, hmaj.1, hmaj.2]
          · refine .inl ⟨hmaj, ?_⟩
            simp only [doReceivedDecisionAckMessage, ha, record, hl, hdt, hmaj, if_true, if_false]

/-- A request is dropped when the queue is full, and queued otherwise. -/
theorem createProposalFromRequest_cases (r : RequestFrame) (s : Server) :
    (1000 < s.waitingProposals.length ∧ s.createProposalFromRequest i now r = ⟨s, []⟩) ∨
      (s.waitingProposals.length ≤ 1000 ∧
        s.createProposalFromRequest i now r =
          ⟨{ s with
              waitingProposals := s.waitingProposals ++ [proposalOfRequest i now r] }.record
              (.queued r), []⟩) := by
  by_cases hfull : 1000 < s.waitingProposals.length
  · exact .inl ⟨hfull, by simp [createProposalFromRequest, hfull]⟩
  · exact .inr ⟨not_lt.1 hfull, by simp [createProposalFromRequest, hfull, record]⟩

/-- The proposer starts as leader, as an idle follower, or with its first slot to come. -/
theorem startProposerThread_cases (s : Server) :
    (C.async = true ∧ i = Cluster.leader ∧
        s.startProposerThread C i now =
          ({ s.record .proposerStarted with
              leaderState := some .waitingRequest } : Server).doAsyncPropose C i now) ∨
      (C.async = true ∧ i ≠ Cluster.leader ∧
        s.startProposerThread C i now = ⟨s.record .proposerStarted, []⟩) ∨
      (C.async = false ∧
        s.startProposerThread C i now =
          ⟨s.record .proposerStarted, [⟨now + i * C.slot, .server i .doSyncPropose⟩]⟩) := by
  cases ha : C.async with
  | true =>
      by_cases hl : i = Cluster.leader
      · exact .inl ⟨rfl, hl, by simp [startProposerThread, ha, hl]⟩
      · exact .inr (.inl ⟨rfl, hl, by simp [startProposerThread, ha, hl]⟩)
  | false =>
      exact .inr (.inr ⟨rfl, by simp [startProposerThread, ha]⟩)

/-! ## The handler of each message type -/

section Receive

variable {i now}
variable {f : PaxosFrame}

theorem receiveMessage_proposal (h : f.messageType = PaxosFrame.PROPOSAL) :
    receiveMessage i now f = some ⟨now, .server i (.doReceivedProposalMessage f)⟩ := by
  have h₁ : f.isProposal = true := by simp [PaxosFrame.isProposal, h]
  simp [receiveMessage, h₁]

theorem receiveMessage_accept (h : f.messageType = PaxosFrame.ACCEPT) :
    receiveMessage i now f = some ⟨now, .server i (.doReceivedAcceptMessage f)⟩ := by
  have h₁ : f.isProposal = false := by rw [PaxosFrame.isProposal, h]; rfl
  have h₂ : f.isAccept = true := by simp [PaxosFrame.isAccept, h]
  simp [receiveMessage, h₁, h₂]

theorem receiveMessage_decision (h : f.messageType = PaxosFrame.DECISION) :
    receiveMessage i now f = some ⟨now, .server i (.doReceivedDecisionMessage f)⟩ := by
  have h₁ : f.isProposal = false := by rw [PaxosFrame.isProposal, h]; rfl
  have h₂ : f.isAccept = false := by rw [PaxosFrame.isAccept, h]; rfl
  have h₃ : f.isDecision = true := by simp [PaxosFrame.isDecision, h]
  simp [receiveMessage, h₁, h₂, h₃]

theorem receiveMessage_decisionAck (h : f.messageType = PaxosFrame.DECISION_ACK) :
    receiveMessage i now f = some ⟨now, .server i (.doReceivedDecisionAckMessage f)⟩ := by
  have h₁ : f.isProposal = false := by rw [PaxosFrame.isProposal, h]; rfl
  have h₂ : f.isAccept = false := by rw [PaxosFrame.isAccept, h]; rfl
  have h₃ : f.isDecision = false := by rw [PaxosFrame.isDecision, h]; rfl
  have h₄ : f.isDecisionAck = true := by simp [PaxosFrame.isDecisionAck, h]
  simp [receiveMessage, h₁, h₂, h₃, h₄]

end Receive

/-! ## New records -/

/-- The line of the proposal that `DoPropose` would make. -/
def proposeRecords (s : Server) : Trace :=
  match s.waitingProposals with
  | [] => []
  | p :: _ => [.proposed (proposalFrame i now p)]

def asyncProposeRecords (s : Server) : Trace :=
  .asyncPropose now :: if C.stopTime ≤ now then [] else s.proposeRecords i now

/-- The proposal that an ACCEPT completes, as it is from then on. -/
def decidesOn (f : PaxosFrame) (s : Server) : Option Proposal :=
  if f.proposerId = i then
    match s.proposals.lookup f.proposalId with
    | none => none
    | some found =>
        if found.incrementNumAck.numAck > C.numNodes / 2 ∧ found.decisionTime = 0 then
          some { found.incrementNumAck with decisionTime := now, numDecisionAck := 1 }
        else
          none
  else
    none

/-- The proposal that a DECISION_ACK completes, as it is from then on. -/
def acksOn (f : PaxosFrame) (s : Server) : Option Proposal :=
  if C.async then
    match s.proposals.lookup f.proposalId with
    | none => none
    | some found =>
        if found.incrementNumDecisionAck.numDecisionAck > C.numNodes / 2 ∧
            found.decisionAckTime = 0 then
          some { found.incrementNumDecisionAck with decisionAckTime := now }
        else
          none
  else
    none

section Completes

variable {C i now} {f : PaxosFrame} {s : Server} {found : Proposal}

theorem decidesOn_ignored (h : f.proposerId ≠ i ∨ s.proposals.lookup f.proposalId = none) :
    s.decidesOn C i now f = none := by
  rcases h with h | h <;> simp [decidesOn, h]

theorem decidesOn_counted (hown : f.proposerId = i)
    (hl : s.proposals.lookup f.proposalId = some found)
    (hfew : ¬ (found.incrementNumAck.numAck > C.numNodes / 2 ∧ found.decisionTime = 0)) :
    s.decidesOn C i now f = none := by
  simp only [decidesOn, hown, hl, hfew, if_true, if_false]

theorem decidesOn_majority (hown : f.proposerId = i)
    (hl : s.proposals.lookup f.proposalId = some found)
    (hmany : found.incrementNumAck.numAck > C.numNodes / 2) (hzero : found.decisionTime = 0) :
    s.decidesOn C i now f =
      some { found.incrementNumAck with decisionTime := now, numDecisionAck := 1 } := by
  simp only [decidesOn, hown, hl, hmany, hzero, if_true, and_self]

theorem acksOn_ignored (h : C.async = false ∨ s.proposals.lookup f.proposalId = none) :
    s.acksOn C now f = none := by
  rcases h with h | h <;> simp [acksOn, h]

theorem acksOn_counted (ha : C.async = true) (hl : s.proposals.lookup f.proposalId = some found)
    (hfew : ¬ (found.incrementNumDecisionAck.numDecisionAck > C.numNodes / 2 ∧
      found.decisionAckTime = 0)) : s.acksOn C now f = none := by
  simp only [acksOn, ha, hl, hfew, if_true, if_false]

theorem acksOn_majority (ha : C.async = true) (hl : s.proposals.lookup f.proposalId = some found)
    (hmany : found.incrementNumDecisionAck.numDecisionAck > C.numNodes / 2)
    (hzero : found.decisionAckTime = 0) :
    s.acksOn C now f = some { found.incrementNumDecisionAck with decisionAckTime := now } := by
  simp only [acksOn, ha, hl, hmany, hzero, if_true, and_self]

theorem acksOn_async (h : (s.acksOn C now f).isSome) : C.async = true := by
  unfold acksOn at h
  split at h
  · assumption
  · cases h

end Completes

/-- The lines that a member function adds to the record of its server. -/
def newRecords (task : Task) (s : Server) : Trace :=
  match task with
  | .startApplication => []
  | .stopApplication => []
  | .startListenerThread => []
  | .startProposerThread =>
      .proposerStarted ::
        if C.async = true ∧ i = Cluster.leader then s.asyncProposeRecords C i now else []
  | .startAcceptorThread => []
  | .createProposalFromRequest r => if 1000 < s.waitingProposals.length then [] else [.queued r]
  | .doSyncPropose =>
      .syncPropose now :: if C.stopTime ≤ now then [] else s.proposeRecords i now
  | .doAsyncPropose => s.asyncProposeRecords C i now
  | .doReceivedProposalMessage f => [.handledProposal f]
  | .sendAcceptMessage f => [.acceptSent (acceptFrame i now f)]
  | .doReceivedAcceptMessage f =>
      .handledAccept f ::
        match s.decidesOn C i now f with
        | none => []
        | some p => .decision (decisionFrame now f) :: if C.async then [] else [.decided p]
  | .doReceivedDecisionMessage f => [.handledDecision f, .decided (learnedProposal f)]
  | .doReceivedDecisionAckMessage f =>
      .handledDecisionAck f ::
        match s.acksOn C now f with
        | none => []
        | some p => .decided p :: s.asyncProposeRecords C i now

theorem doPropose_trace (s : Server) :
    (s.doPropose C i now).2.server.trace = s.trace ++ s.proposeRecords i now := by
  rcases doPropose_cases C i now s with ⟨hw, h⟩ | ⟨p, rest, hw, h⟩
  · simp [h, proposeRecords, hw]
  · simp [h, proposeRecords, hw, record, putProposal]

theorem doAsyncPropose_trace (s : Server) :
    (s.doAsyncPropose C i now).server.trace = s.trace ++ s.asyncProposeRecords C i now := by
  rcases doAsyncPropose_cases C i now s with ⟨ht, h⟩ | ⟨ht, hw, h⟩ | ⟨ht, p, rest, hw, h⟩
  · simp [h, asyncProposeRecords, ht, record]
  · simp [h, asyncProposeRecords, not_le.2 ht, record, proposeRecords, hw]
  · simp [h, asyncProposeRecords, not_le.2 ht, record, proposeRecords, hw, putProposal]

theorem run_trace (task : Task) (s : Server) :
    (run C i now task s).server.trace = s.trace ++ newRecords C i now task s := by
  cases task with
  | startApplication =>
      simp [run, startApplication, newRecords]
  | stopApplication =>
      simp [run, stopApplication, newRecords]
  | startListenerThread =>
      simp [run, startListenerThread, newRecords]
  | startProposerThread =>
      rcases startProposerThread_cases C i now s with ⟨ha, hi, h⟩ | ⟨ha, hi, h⟩ | ⟨ha, h⟩
      · subst hi
        simp [run, h, newRecords, ha, doAsyncPropose_trace, record, asyncProposeRecords,
          proposeRecords]
      · simp [run, h, newRecords, hi, record]
      · simp [run, h, newRecords, ha, record]
  | startAcceptorThread =>
      simp [run, startAcceptorThread, newRecords]
  | createProposalFromRequest r =>
      rcases createProposalFromRequest_cases i now r s with ⟨hq, h⟩ | ⟨hq, h⟩
      · simp [run, h, newRecords, hq]
      · simp [run, h, newRecords, not_lt.2 hq, record]
  | doSyncPropose =>
      rcases doSyncPropose_cases C i now s with ⟨ht, h⟩ | ⟨ht, h⟩
      · simp [run, h, newRecords, ht, record]
      · simp [run, h, newRecords, not_le.2 ht, doPropose_trace, record, proposeRecords]
  | doAsyncPropose =>
      exact doAsyncPropose_trace C i now s
  | doReceivedProposalMessage f =>
      simp [run, doReceivedProposalMessage, newRecords, record]
  | sendAcceptMessage f =>
      simp [run, sendAcceptMessage, newRecords, record]
  | doReceivedAcceptMessage f =>
      rcases doReceivedAcceptMessage_cases C i now f s with
        ⟨hig, h⟩ | ⟨found, hown, hl, ⟨hm, h⟩ | ⟨hm, hz, ha, h⟩ | ⟨hm, hz, ha, h⟩⟩
      · simp [run, h, newRecords, decidesOn_ignored hig, record]
      · simp [run, h, newRecords, decidesOn_counted hown hl hm, record, putProposal]
      · simp [run, h, newRecords, decidesOn_majority hown hl hm hz, ha, record, putProposal]
      · simp [run, h, newRecords, decidesOn_majority hown hl hm hz, ha, record, pushDecided,
          eraseProposal]
  | doReceivedDecisionMessage f =>
      simp [run, doReceivedDecisionMessage, newRecords, record, pushDecided]
  | doReceivedDecisionAckMessage f =>
      rcases doReceivedDecisionAckMessage_cases C i now f s with
        ⟨hig, h⟩ | ⟨found, ha, hl, ⟨hm, h⟩ | ⟨hm, hz, h⟩⟩
      · simp [run, h, newRecords, acksOn_ignored hig, record]
      · simp [run, h, newRecords, acksOn_counted ha hl hm, record, putProposal]
      · simp [run, h, newRecords, acksOn_majority ha hl hm hz, doAsyncPropose_trace, record,
          pushDecided, eraseProposal, asyncProposeRecords, proposeRecords]

end Server

end SyncPaxos
