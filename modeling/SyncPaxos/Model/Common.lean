import Mathlib.Algebra.Group.Nat.Defs
import Mathlib.Data.List.AList

/-!
# Common — proposals (paxos-common)

`Proposal` is the record that every container of a server holds.  Its constructor leaves
`m_proposerId`, `m_numDecisionAck` and `m_propState` unset; no member function reads one of them
before setting it, and the model gives them a default.

Containers hold `shared_ptr`s, but an object is in one container of one server at a time
(queue, then `m_proposals`, then the decided queue), so the model moves values.
-/

namespace SyncPaxos

/-- `ns3::Time` at its default resolution: nanoseconds. -/
abbrev Time := ℕ

inductive PropState
  | toBeProposed
  | toBeAccepted
  | toBeDecided
  deriving DecidableEq, Repr

structure Proposal where
  proposalId : ℕ := 0
  nodeId : ℕ := 0
  proposerId : ℕ := 0
  createTime : Time := 0
  receiveTime : Time := 0
  proposeTime : Time := 0
  acceptTime : Time := 0
  decisionTime : Time := 0
  decisionAckTime : Time := 0
  value : ℕ := 0
  numAck : ℕ := 0
  numDecisionAck : ℕ := 0
  propState : PropState := .toBeProposed
  deriving DecidableEq, Repr

namespace Proposal

/-- `m_numAck++` on a `uint32_t`. -/
def incrementNumAck (p : Proposal) : Proposal :=
  { p with numAck := (p.numAck + 1) % 2 ^ 32 }

/-- `m_numDecisionAck++` on a `uint32_t`. -/
def incrementNumDecisionAck (p : Proposal) : Proposal :=
  { p with numDecisionAck := (p.numDecisionAck + 1) % 2 ^ 32 }

end Proposal

/-- `std::unordered_map<uint64_t, std::shared_ptr<Proposal>>`. -/
abbrev ProposalMap := AList (fun _ : ℕ => Proposal)

end SyncPaxos
