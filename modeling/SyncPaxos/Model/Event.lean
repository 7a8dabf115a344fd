import SyncPaxos.Library.EventQueue
import SyncPaxos.Model.Frame
import SyncPaxos.Model.Cluster

/-!
# Event — what the simulator has pending

A packet names the server whose node owns the destination address: the senders address entry `k`
of `m_nodes`, that is server `k`, a Paxos frame on `PAXOS_PORT` and a request on `SERVER_PORT`.
While it travels it is an event of its own, so that frames in flight and calls in waiting are in
one queue.
-/

namespace SyncPaxos

open DiscreteEvent

inductive Payload
  | request (frame : RequestFrame)
  | paxos (frame : PaxosFrame)
  deriving DecidableEq, Repr

structure Packet where
  src : App
  dst : ℕ
  payload : Payload
  sentAt : Time
  deriving DecidableEq, Repr

/-- A member function of a server that waits to be called. -/
inductive Task
  | startApplication
  | stopApplication
  | startListenerThread
  | startProposerThread
  | startAcceptorThread
  | createProposalFromRequest (frame : RequestFrame)
  | doSyncPropose
  | doAsyncPropose
  | doReceivedProposalMessage (frame : PaxosFrame)
  | sendAcceptMessage (frame : PaxosFrame)
  | doReceivedAcceptMessage (frame : PaxosFrame)
  | doReceivedDecisionMessage (frame : PaxosFrame)
  | doReceivedDecisionAckMessage (frame : PaxosFrame)
  deriving DecidableEq, Repr

inductive Callback
  | server (i : ℕ) (task : Task)
  | clientStart (k : ℕ)
  | sendRequest (k : ℕ)
  /-- A packet in the network that has crossed `hop` links. -/
  | transit (packet : Packet) (hop : ℕ)
  deriving DecidableEq, Repr

abbrev Event := Scheduled Callback

/-- The packet that an event hands to the network, if it is one just sent. -/
def Callback.sentPacket? : Callback → Option Packet
  | .transit packet 0 => some packet
  | _ => none

end SyncPaxos
