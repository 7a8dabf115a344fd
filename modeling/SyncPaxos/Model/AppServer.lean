import Mathlib.Data.List.Sort
import SyncPaxos.Model.Listener
import SyncPaxos.Model.Proposer

/-!
# AppServer — start, stop and the four receive handlers (paxos-app-server)

`Server.run` is the dispatch of the simulator: what a scheduled member function does to its
server.  An entry of `m_nodes` addressed by a field of a frame is server number that field.
-/

namespace SyncPaxos

open DiscreteEvent

/-- The ACCEPT that `SendAcceptMessage` makes of the frame it is given. -/
def acceptFrame (self : ℕ) (now : Time) (frame : PaxosFrame) : PaxosFrame :=
  { frame with
    messageType := PaxosFrame.ACCEPT
    acceptorId := self
    acceptTime := now }

/-- The DECISION that `SendDecisionMessage` makes of an ACCEPT. -/
def decisionFrame (now : Time) (frame : PaxosFrame) : PaxosFrame :=
  { frame with
    messageType := PaxosFrame.DECISION
    decisionTime := now }

/-- The proposal that `DoReceivedProposalMessage` stores. -/
def acceptedProposal (now : Time) (frame : PaxosFrame) : Proposal :=
  { proposalId := frame.proposalId
    nodeId := frame.proposerId
    value := frame.value
    proposeTime := frame.proposeTime
    numAck := 0
    acceptTime := now }

/-- The proposal that `DoReceivedDecisionMessage` pushes. -/
def learnedProposal (frame : PaxosFrame) : Proposal :=
  { proposalId := frame.proposalId
    proposerId := frame.proposerId
    nodeId := frame.proposerId
    value := frame.value
    proposeTime := frame.proposeTime
    acceptTime := frame.acceptTime
    decisionTime := frame.decisionTime }

/-- The DECISION_ACK sent in answer to a DECISION; its proposer field names the sender. -/
def decisionAckFrame (self : ℕ) (frame : PaxosFrame) : PaxosFrame :=
  { messageType := PaxosFrame.DECISION_ACK
    proposerId := self
    proposalId := frame.proposalId
    value := frame.value
    proposeTime := frame.proposeTime }

namespace Server

variable (C : Cluster) (self : ℕ) (now : Time)

def startApplication (s : Server) : Outcome :=
  ⟨{ s with
      recvSocket := true
      proposePeriod := (2 * C.clockSyncError + C.boundedMessageDelay) * C.numNodes },
    [⟨now, .server self .startListenerThread⟩,
      ⟨now, .server self .startProposerThread⟩,
      ⟨now, .server self .startAcceptorThread⟩]⟩

/-- `StopApplication` pops the queue, least id first, into a fresh file. -/
def stopApplication (s : Server) : Outcome :=
  ⟨{ s with
      decisionLog := s.decidedProposalQueue.insertionSort (fun p q => p.proposalId ≤ q.proposalId)
      decidedProposalQueue := [] }, []⟩

def startAcceptorThread (s : Server) : Outcome :=
  ⟨s, []⟩

/-- `ReceiveMessage` on one packet: the call it schedules, or `none` for the fatal error. -/
def receiveMessage (frame : PaxosFrame) : Option Event :=
  if frame.isProposal then
    some ⟨now, .server self (.doReceivedProposalMessage frame)⟩
  else if frame.isAccept then
    some ⟨now, .server self (.doReceivedAcceptMessage frame)⟩
  else if frame.isDecision then
    some ⟨now, .server self (.doReceivedDecisionMessage frame)⟩
  else if frame.isDecisionAck then
    some ⟨now, .server self (.doReceivedDecisionAckMessage frame)⟩
  else
    none

def doReceivedProposalMessage (frame : PaxosFrame) (s : Server) : Outcome :=
  let s := s.record (.handledProposal frame)
  let answer := { frame with acceptorId := self, acceptTime := now }
  ⟨{ s with
      acceptedProposals := s.acceptedProposals.insert frame.proposalId
        (acceptedProposal now answer) },
    [⟨now + 10, .server self (.sendAcceptMessage answer)⟩]⟩

def sendAcceptMessage (frame : PaxosFrame) (s : Server) : Outcome :=
  let accept := acceptFrame self now frame
  ⟨s.record (.acceptSent accept), [sendTo self now accept accept.proposerId]⟩

def doReceivedAcceptMessage (frame : PaxosFrame) (s : Server) : Outcome :=
  let s := s.record (.handledAccept frame)
  if frame.proposerId ≠ self then
    ⟨s, []⟩
  else
    match s.proposals.lookup frame.proposalId with
    | none => ⟨s, []⟩
    | some found =>
        let proposal := found.incrementNumAck
        if proposal.numAck > C.numNodes / 2 ∧ proposal.decisionTime = 0 then
          let proposal := { proposal with decisionTime := now, numDecisionAck := 1 }
          let decision := decisionFrame now frame
          let s := s.record (.decision decision)
          if C.async then
            -- another round of DECISION_ACKs is needed
            ⟨s.putProposal frame.proposalId proposal, broadcast C self now decision⟩
          else
            ⟨(s.pushDecided proposal).eraseProposal frame.proposalId,
              broadcast C self now decision⟩
        else
          ⟨s.putProposal frame.proposalId proposal, []⟩

def doReceivedDecisionMessage (frame : PaxosFrame) (s : Server) : Outcome :=
  let s := s.record (.handledDecision frame)
  let proposal := learnedProposal frame
  ⟨s.pushDecided proposal,
    if C.async then [sendTo self now (decisionAckFrame self frame) frame.proposerId] else []⟩

def doReceivedDecisionAckMessage (frame : PaxosFrame) (s : Server) : Outcome :=
  let s := s.record (.handledDecisionAck frame)
  if C.async then
    match s.proposals.lookup frame.proposalId with
    | none => ⟨s, []⟩
    | some found =>
        let proposal := found.incrementNumDecisionAck
        if proposal.numDecisionAck > C.numNodes / 2 ∧ proposal.decisionAckTime = 0 then
          let proposal := { proposal with decisionAckTime := now }
          doAsyncPropose C self now ((s.pushDecided proposal).eraseProposal frame.proposalId)
        else
          ⟨s.putProposal frame.proposalId proposal, []⟩
  else
    ⟨s, []⟩

/-- What a scheduled member function does to its server. -/
def run : Task → Server → Outcome
  | .startApplication => startApplication C self now
  | .stopApplication => stopApplication
  | .startListenerThread => startListenerThread
  | .startProposerThread => startProposerThread C self now
  | .startAcceptorThread => startAcceptorThread
  | .createProposalFromRequest frame => createProposalFromRequest self now frame
  | .doSyncPropose => doSyncPropose C self now
  | .doAsyncPropose => doAsyncPropose C self now
  | .doReceivedProposalMessage frame => doReceivedProposalMessage self now frame
  | .sendAcceptMessage frame => sendAcceptMessage self now frame
  | .doReceivedAcceptMessage frame => doReceivedAcceptMessage C self now frame
  | .doReceivedDecisionMessage frame => doReceivedDecisionMessage C self now frame
  | .doReceivedDecisionAckMessage frame => doReceivedDecisionAckMessage C self now frame

end Server

end SyncPaxos
