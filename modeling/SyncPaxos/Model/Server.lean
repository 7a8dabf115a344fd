import SyncPaxos.Model.Event

/-!
# Server — the state of a `PaxosAppServer`

`m_nodeId` and `m_serverId` are both the index the server is installed with; it is an argument
of every member function here.  The sockets are reduced to whether they are bound, and the file
that `StopApplication` writes is the list `decisionLog` of its lines.

No member function reads `trace`.  It is the record of what the server did, line by line like
its log, and it is what statements about the past of a run speak of.
-/

namespace SyncPaxos

inductive LeaderState
  | waitingRequest
  | proposing
  | proposed
  | accepted
  | decising
  | decided
  deriving DecidableEq, Repr

/-- One line of a server's record. -/
inductive Record
  /-- A request was pushed on the waiting queue. -/
  | queued (frame : RequestFrame)
  | proposerStarted
  | syncPropose (at_ : Time)
  | asyncPropose (at_ : Time)
  /-- A PROPOSAL was broadcast. -/
  | proposed (frame : PaxosFrame)
  | handledProposal (frame : PaxosFrame)
  /-- An ACCEPT was sent. -/
  | acceptSent (frame : PaxosFrame)
  | handledAccept (frame : PaxosFrame)
  /-- A DECISION was broadcast. -/
  | decision (frame : PaxosFrame)
  | handledDecision (frame : PaxosFrame)
  | handledDecisionAck (frame : PaxosFrame)
  /-- A proposal was pushed on the decided queue. -/
  | decided (proposal : Proposal)
  deriving DecidableEq, Repr

abbrev Trace := List Record

structure Server where
  proposePeriod : Time := 0
  recvSocket : Bool := false
  listenerSocket : Bool := false
  proposals : ProposalMap := ∅
  acceptedProposals : ProposalMap := ∅
  /-- The contents of `m_decidedProposalQueue`, in the order of the pushes. -/
  decidedProposalQueue : List Proposal := []
  waitingProposals : List Proposal := []
  /-- `m_leaderState`, unset until the leader starts. -/
  leaderState : Option LeaderState := none
  decisionLog : List Proposal := []
  trace : Trace := []

namespace Server

def record (s : Server) (r : Record) : Server :=
  { s with trace := s.trace ++ [r] }

/-- `m_proposals[proposalId] = proposal`; also what a change through the map's pointer leaves. -/
def putProposal (s : Server) (proposalId : ℕ) (proposal : Proposal) : Server :=
  { s with proposals := s.proposals.insert proposalId proposal }

/-- `m_proposals.erase(proposalId)`. -/
def eraseProposal (s : Server) (proposalId : ℕ) : Server :=
  { s with proposals := s.proposals.erase proposalId }

/-- `m_decidedProposalQueue.push(proposal)`. -/
def pushDecided (s : Server) (proposal : Proposal) : Server :=
  { s with
    decidedProposalQueue := s.decidedProposalQueue ++ [proposal]
    trace := s.trace ++ [.decided proposal] }

/-- Everything the server has decided: what it wrote when it stopped and what it holds now. -/
def decidedLog (s : Server) : List Proposal :=
  s.decisionLog ++ s.decidedProposalQueue

end Server

/-! ## What a record says -/

namespace Record

@[simp] def queued? : Record → Option RequestFrame
  | .queued r => some r
  | _ => none

@[simp] def syncPropose? : Record → Option Time
  | .syncPropose t => some t
  | _ => none

@[simp] def asyncPropose? : Record → Option Time
  | .asyncPropose t => some t
  | _ => none

@[simp] def proposed? : Record → Option PaxosFrame
  | .proposed f => some f
  | _ => none

@[simp] def handledProposal? : Record → Option PaxosFrame
  | .handledProposal f => some f
  | _ => none

@[simp] def acceptSent? : Record → Option PaxosFrame
  | .acceptSent f => some f
  | _ => none

@[simp] def handledAccept? : Record → Option PaxosFrame
  | .handledAccept f => some f
  | _ => none

@[simp] def decision? : Record → Option PaxosFrame
  | .decision f => some f
  | _ => none

@[simp] def handledDecision? : Record → Option PaxosFrame
  | .handledDecision f => some f
  | _ => none

@[simp] def handledDecisionAck? : Record → Option PaxosFrame
  | .handledDecisionAck f => some f
  | _ => none

@[simp] def decided? : Record → Option Proposal
  | .decided p => some p
  | _ => none

end Record

namespace Trace

/-- The requests queued, in order. -/
abbrev queued (tr : Trace) : List RequestFrame := tr.filterMap Record.queued?

/-- The times of the calls of `DoSyncPropose`, in order. -/
abbrev syncCalls (tr : Trace) : List Time := tr.filterMap Record.syncPropose?

/-- The times of the calls of `DoAsyncPropose`, in order. -/
abbrev asyncCalls (tr : Trace) : List Time := tr.filterMap Record.asyncPropose?

/-- The PROPOSALs broadcast, in order. -/
abbrev proposed (tr : Trace) : List PaxosFrame := tr.filterMap Record.proposed?

abbrev handledProposals (tr : Trace) : List PaxosFrame := tr.filterMap Record.handledProposal?

/-- The ACCEPTs sent, in order. -/
abbrev acceptsSent (tr : Trace) : List PaxosFrame := tr.filterMap Record.acceptSent?

abbrev handledAccepts (tr : Trace) : List PaxosFrame := tr.filterMap Record.handledAccept?

/-- The DECISIONs broadcast, in order. -/
abbrev decisions (tr : Trace) : List PaxosFrame := tr.filterMap Record.decision?

abbrev handledDecisions (tr : Trace) : List PaxosFrame := tr.filterMap Record.handledDecision?

abbrev handledDecisionAcks (tr : Trace) : List PaxosFrame :=
  tr.filterMap Record.handledDecisionAck?

/-- The proposals decided, in order. -/
abbrev decided (tr : Trace) : List Proposal := tr.filterMap Record.decided?

end Trace

/-- What a member function leaves behind: the server and the events it scheduled, in order. -/
structure Outcome where
  server : Server
  events : List Event

/-- `SendTo` of server `self`: the frame is handed to the network at once. -/
def sendTo (self : ℕ) (now : Time) (frame : PaxosFrame) (dst : ℕ) : Event :=
  ⟨now, .transit ⟨.server self, dst, .paxos frame, now⟩ 0⟩

/-- The loop over `m_nodes` that skips the sender. -/
def broadcast (C : Cluster) (self : ℕ) (now : Time) (frame : PaxosFrame) : List Event :=
  (C.nodes.filter (fun serverId => serverId ≠ self)).map (sendTo self now frame)

end SyncPaxos
