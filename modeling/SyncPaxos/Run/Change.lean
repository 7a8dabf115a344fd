import Mathlib.Logic.Relation
import SyncPaxos.Run.Outcome

/-!
# Change — what a member function does to its server, piece by piece

A member function is a chain of a few changes of its server.  `Change` lists them, each with what
is known when it happens, and `run_changes` says that there are no others: an invariant of one
server is proved change by change.
-/

namespace SyncPaxos

/-- A line that reports a call and goes with no other change of the server. -/
def Record.IsNote : Record → Prop
  | .proposerStarted | .syncPropose _ | .asyncPropose _ | .acceptSent _ => True
  | _ => False

namespace Proposal

/-- One more ACCEPT gives the entry a majority for the first time. -/
def Elected (C : Cluster) (p : Proposal) : Prop :=
  p.incrementNumAck.numAck > C.numNodes / 2 ∧ p.decisionTime = 0

/-- One more DECISION_ACK gives the entry a majority for the first time. -/
def Confirmed (C : Cluster) (p : Proposal) : Prop :=
  p.incrementNumDecisionAck.numDecisionAck > C.numNodes / 2 ∧ p.decisionAckTime = 0

/-- The entry that a majority of ACCEPTs leaves. -/
def elect (now : Time) (p : Proposal) : Proposal :=
  { p.incrementNumAck with decisionTime := now, numDecisionAck := 1 }

/-- The entry that a majority of DECISION_ACKs leaves. -/
def confirm (now : Time) (p : Proposal) : Proposal :=
  { p.incrementNumDecisionAck with decisionAckTime := now }

end Proposal

namespace Server

variable (C : Cluster) (i : ℕ) (now : Time)

/-- A request goes to the back of the waiting queue. -/
def enqueue (s : Server) (r : RequestFrame) : Server :=
  { s with waitingProposals := s.waitingProposals ++ [proposalOfRequest i now r] }.record
    (.queued r)

/-- The front `p` of the waiting queue goes to `m_proposals` and is broadcast. -/
def propose (s : Server) (p : Proposal) (rest : List Proposal) : Server :=
  ({ s with waitingProposals := rest }.putProposal p.proposalId (p.propose i now)).record
    (.proposed (proposalFrame i now p))

/-- A PROPOSAL is handled and stored. -/
def storeAccepted (s : Server) (f : PaxosFrame) : Server :=
  { s.record (.handledProposal f) with
    acceptedProposals := s.acceptedProposals.insert f.proposalId
      (acceptedProposal now { f with acceptorId := i, acceptTime := now }) }

inductive Change : Task → Server → Server → Prop
  | flags {task : Task} {s : Server} (period : Time) (recv listener : Bool)
      (leader : Option LeaderState) :
      Change task s { s with
        proposePeriod := period
        recvSocket := recv
        listenerSocket := listener
        leaderState := leader }
  | note {task : Task} {s : Server} {r : Record} :
      r.IsNote → Change task s (s.record r)
  | stop {s : Server} :
      Change .stopApplication s s.stopApplication.server
  | queue {s : Server} {r : RequestFrame} :
      s.waitingProposals.length ≤ 1000 →
      Change (.createProposalFromRequest r) s (s.enqueue i now r)
  | propose {task : Task} {s : Server} {p : Proposal} {rest : List Proposal} :
      s.waitingProposals = p :: rest → now < C.stopTime →
      Change task s (s.propose i now p rest)
  | accept {s : Server} {f : PaxosFrame} :
      Change (.doReceivedProposalMessage f) s (s.storeAccepted i now f)
  | ignoreVote {s : Server} {f : PaxosFrame} :
      f.proposerId ≠ i ∨ s.proposals.lookup f.proposalId = none →
      Change (.doReceivedAcceptMessage f) s (s.record (.handledAccept f))
  | vote {s : Server} {f : PaxosFrame} {found : Proposal} :
      f.proposerId = i → s.proposals.lookup f.proposalId = some found → ¬ found.Elected C →
      Change (.doReceivedAcceptMessage f) s
        ((s.record (.handledAccept f)).putProposal f.proposalId found.incrementNumAck)
  /-- A majority in asynchronous mode. -/
  | elect {s : Server} {f : PaxosFrame} {found : Proposal} :
      f.proposerId = i → s.proposals.lookup f.proposalId = some found → found.Elected C →
      C.async = true →
      Change (.doReceivedAcceptMessage f) s
        (((s.record (.handledAccept f)).record (.decision (decisionFrame now f))).putProposal
          f.proposalId (found.elect now))
  /-- A majority in synchronous mode. -/
  | decide {s : Server} {f : PaxosFrame} {found : Proposal} :
      f.proposerId = i → s.proposals.lookup f.proposalId = some found → found.Elected C →
      C.async = false →
      Change (.doReceivedAcceptMessage f) s
        ((((s.record (.handledAccept f)).record (.decision (decisionFrame now f))).pushDecided
          (found.elect now)).eraseProposal f.proposalId)
  | learn {s : Server} {f : PaxosFrame} :
      Change (.doReceivedDecisionMessage f) s
        ((s.record (.handledDecision f)).pushDecided (learnedProposal f))
  | ignoreAck {s : Server} {f : PaxosFrame} :
      C.async = false ∨ s.proposals.lookup f.proposalId = none →
      Change (.doReceivedDecisionAckMessage f) s (s.record (.handledDecisionAck f))
  | ack {s : Server} {f : PaxosFrame} {found : Proposal} :
      C.async = true → s.proposals.lookup f.proposalId = some found → ¬ found.Confirmed C →
      Change (.doReceivedDecisionAckMessage f) s
        ((s.record (.handledDecisionAck f)).putProposal f.proposalId found.incrementNumDecisionAck)
  /-- A majority has logged the decision. -/
  | confirm {s : Server} {f : PaxosFrame} {found : Proposal} :
      C.async = true → s.proposals.lookup f.proposalId = some found → found.Confirmed C →
      Change (.doReceivedDecisionAckMessage f) s
        (((s.record (.handledDecisionAck f)).pushDecided (found.confirm now)).eraseProposal
          f.proposalId)

/-- The changes of one call. -/
abbrev Changes (task : Task) : Server → Server → Prop :=
  Relation.ReflTransGen (Change C i now task)

variable {C i now}

/-- A change only adds to the record. -/
theorem Change.trace_grows {task : Task} {s s' : Server} (h : Change C i now task s s') :
    s.trace <+: s'.trace := by
  cases h <;>
    simp [record, enqueue, Server.propose, storeAccepted, putProposal, pushDecided, eraseProposal,
      stopApplication]

theorem Changes.trace_grows {task : Task} {s s' : Server} (h : Changes C i now task s s') :
    s.trace <+: s'.trace := by
  induction h with
  | refl =>
      exact List.prefix_rfl
  | tail _ hstep ih =>
      exact ih.trans hstep.trace_grows

theorem changes_doPropose (task : Task) (s : Server) (hnow : now < C.stopTime) :
    Changes C i now task s (s.doPropose C i now).2.server := by
  rcases doPropose_cases C i now s with ⟨-, h⟩ | ⟨p, rest, hw, h⟩
  · rw [h]
  · rw [h]
    exact .single (.propose hw hnow)

theorem changes_doAsyncPropose (task : Task) (s : Server) :
    Changes C i now task s (s.doAsyncPropose C i now).server := by
  have hnote : Changes C i now task s (s.record (.asyncPropose now)) := .single (.note trivial)
  rcases doAsyncPropose_cases C i now s with ⟨-, h⟩ | ⟨-, -, h⟩ | ⟨hnow, p, rest, hw, h⟩
  · rw [h]
    exact hnote
  · rw [h]
    exact hnote
  · rw [h]
    have hpropose : Change C i now task (s.record (.asyncPropose now))
        ((s.record (.asyncPropose now)).propose i now p rest) := .propose hw hnow
    exact (hnote.tail hpropose).tail (.flags _ _ _ _)

/-- Every call is a chain of changes. -/
theorem run_changes (task : Task) (s : Server) :
    Changes C i now task s (run C i now task s).server := by
  cases task with
  | startApplication =>
      exact .single (.flags _ _ _ _)
  | stopApplication =>
      exact .single .stop
  | startListenerThread =>
      exact .single (.flags _ _ _ _)
  | startProposerThread =>
      have hnote : Changes C i now .startProposerThread s (s.record .proposerStarted) :=
        .single (.note trivial)
      simp only [run]
      rcases startProposerThread_cases C i now s with ⟨-, -, h⟩ | ⟨-, -, h⟩ | ⟨-, h⟩
      · rw [h]
        exact (hnote.tail (.flags _ _ _ _)).trans (changes_doAsyncPropose _ _)
      · rw [h]
        exact hnote
      · rw [h]
        exact hnote
  | startAcceptorThread =>
      exact .refl
  | createProposalFromRequest r =>
      simp only [run]
      rcases createProposalFromRequest_cases i now r s with ⟨-, h⟩ | ⟨hlen, h⟩
      · rw [h]
      · rw [h]
        exact .single (.queue hlen)
  | doSyncPropose =>
      have hnote : Changes C i now .doSyncPropose s (s.record (.syncPropose now)) :=
        .single (.note trivial)
      simp only [run]
      rcases doSyncPropose_cases C i now s with ⟨-, h⟩ | ⟨hnow, h⟩
      · rw [h]
        exact hnote
      · rw [h]
        exact hnote.trans (changes_doPropose _ _ hnow)
  | doAsyncPropose =>
      exact changes_doAsyncPropose _ _
  | doReceivedProposalMessage f =>
      exact .single .accept
  | sendAcceptMessage f =>
      exact .single (.note trivial)
  | doReceivedAcceptMessage f =>
      simp only [run]
      rcases doReceivedAcceptMessage_cases C i now f s with
        ⟨hig, h⟩ | ⟨found, hown, hl, ⟨hm, h⟩ | ⟨hm, hz, ha, h⟩ | ⟨hm, hz, ha, h⟩⟩
      · rw [h]
        exact .single (.ignoreVote hig)
      · rw [h]
        exact .single (.vote hown hl hm)
      · rw [h]
        exact .single (.elect hown hl ⟨hm, hz⟩ ha)
      · rw [h]
        exact .single (.decide hown hl ⟨hm, hz⟩ ha)
  | doReceivedDecisionMessage f =>
      exact .single .learn
  | doReceivedDecisionAckMessage f =>
      simp only [run]
      rcases doReceivedDecisionAckMessage_cases C i now f s with
        ⟨hig, h⟩ | ⟨found, ha, hl, ⟨hm, h⟩ | ⟨hm, hz, h⟩⟩
      · rw [h]
        exact .single (.ignoreAck hig)
      · rw [h]
        exact .single (.ack ha hl hm)
      · rw [h]
        exact (Relation.ReflTransGen.single (.confirm ha hl ⟨hm, hz⟩)).trans
          (changes_doAsyncPropose _ _)

end Server

end SyncPaxos
