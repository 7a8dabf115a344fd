import SyncPaxos.Model.Server

/-!
# Proposer — the two propose loops (paxos-app-server-proposer)

`DoPropose` calls `NS_FATAL_ERROR` when the send socket is null.  `StartApplication` creates that
socket before it schedules the proposer, so the branch is left out.
-/

namespace SyncPaxos

open DiscreteEvent

/-- What `DoPropose` makes of the front of the waiting queue. -/
def Proposal.propose (self : ℕ) (now : Time) (p : Proposal) : Proposal :=
  { p with
    nodeId := self
    proposeTime := now
    numAck := 1
    propState := .toBeAccepted
    numDecisionAck := 1 }

/-- The PROPOSAL that `DoPropose` broadcasts for a proposal. -/
def proposalFrame (self : ℕ) (now : Time) (p : Proposal) : PaxosFrame :=
  { messageType := PaxosFrame.PROPOSAL
    proposalId := p.proposalId
    proposerId := self
    value := p.value
    proposeTime := now }

namespace Server

variable (C : Cluster) (self : ℕ) (now : Time)

/-- `DoPropose`, with the proposal id it returns. -/
def doPropose (s : Server) : ℕ × Outcome :=
  match s.waitingProposals with
  | [] => (0, ⟨s, []⟩)
  | front :: rest =>
      let proposal := front.propose self now
      let frame := proposalFrame self now proposal
      (proposal.proposalId,
        ⟨{ s with
            proposals := s.proposals.insert proposal.proposalId proposal
            waitingProposals := rest
            trace := s.trace ++ [.proposed frame] },
          broadcast C self now frame⟩)

def doSyncPropose (s : Server) : Outcome :=
  let s := s.record (.syncPropose now)
  if now ≥ C.stopTime then
    ⟨s, []⟩
  else
    let out := (s.doPropose C self now).2
    ⟨out.server, out.events ++ [⟨now + s.proposePeriod, .server self .doSyncPropose⟩]⟩

def doAsyncPropose (s : Server) : Outcome :=
  let s := s.record (.asyncPropose now)
  if now ≥ C.stopTime then
    ⟨s, []⟩
  else if s.waitingProposals ≠ [] then
    -- the timer on the returned id is commented out in the source
    let out := (s.doPropose C self now).2
    ⟨{ out.server with leaderState := some .proposed }, out.events⟩
  else
    ⟨s, [⟨now + 1000, .server self .doAsyncPropose⟩]⟩

def startProposerThread (s : Server) : Outcome :=
  let s := s.record .proposerStarted
  if C.async then
    if self = Cluster.leader then
      doAsyncPropose C self now { s with leaderState := some .waitingRequest }
    else
      ⟨s, []⟩
  else
    ⟨s, [⟨now + self * C.slot, .server self .doSyncPropose⟩]⟩

/-- `proposeTimerExpired`, which nothing schedules. -/
def proposeTimerExpired (proposalId : ℕ) (s : Server) : Outcome :=
  if (s.proposals.lookup proposalId).isSome ∧ s.leaderState = some .proposed then
    doAsyncPropose C self now s
  else
    ⟨s, []⟩

end Server

end SyncPaxos
