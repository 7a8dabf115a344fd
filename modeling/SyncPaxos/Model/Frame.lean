import SyncPaxos.Model.Common

/-!
# Frame — the two headers that travel (paxos-frame)

The fields are the values a frame is delivered with.  `Codec` says how they are written to and read
from a buffer.
-/

namespace SyncPaxos

structure RequestFrame where
  timestamp : Time := 0
  value : ℕ := 0
  deriving DecidableEq, Repr

structure PaxosFrame where
  messageType : ℕ := 0
  proposerId : ℕ := 0
  proposalId : ℕ := 0
  value : ℕ := 0
  proposeTime : Time := 0
  acceptorId : ℕ := 0
  acceptTime : Time := 0
  decisionTime : Time := 0
  deriving DecidableEq, Repr

namespace PaxosFrame

/-! ## Message types -/

abbrev PROPOSAL : ℕ := 100
abbrev ACCEPT : ℕ := 101
abbrev DECISION : ℕ := 102
abbrev DECISION_ACK : ℕ := 103

def isProposal (f : PaxosFrame) : Bool := f.messageType == PROPOSAL
def isAccept (f : PaxosFrame) : Bool := f.messageType == ACCEPT
def isDecision (f : PaxosFrame) : Bool := f.messageType == DECISION
def isDecisionAck (f : PaxosFrame) : Bool := f.messageType == DECISION_ACK

end PaxosFrame

end SyncPaxos
