import SyncPaxos.Model.Server

/-!
# Listener — from a client's request to a waiting proposal (paxos-app-server-listener)
-/

namespace SyncPaxos

open DiscreteEvent

namespace Server

variable (C : Cluster) (self : ℕ) (now : Time)

def startListenerThread (s : Server) : Outcome :=
  ⟨{ s with listenerSocket := true }, []⟩

/-- `ReceiveRequest` on one packet. -/
def receiveRequest (requestFrame : RequestFrame) : List Event :=
  -- in asynchronous mode only the leader keeps requests
  if C.async ∧ self ≠ Cluster.leader then
    []
  else
    [⟨now + 10, .server self (.createProposalFromRequest requestFrame)⟩]

/-- The proposal that `CreateProposalFromRequest` builds. -/
def proposalOfRequest (requestFrame : RequestFrame) : Proposal :=
  { proposalId := requestFrame.timestamp
    proposerId := self
    nodeId := self
    value := requestFrame.value
    createTime := requestFrame.timestamp
    receiveTime := now
    propState := .toBeProposed }

def createProposalFromRequest (requestFrame : RequestFrame) (s : Server) : Outcome :=
  if s.waitingProposals.length > 1000 then
    ⟨s, []⟩
  else
    ⟨{ s with
        waitingProposals := s.waitingProposals ++ [proposalOfRequest self now requestFrame]
        trace := s.trace ++ [.queued requestFrame] }, []⟩

end Server

end SyncPaxos
