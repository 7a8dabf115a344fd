import SyncPaxos.Model.Common

/-!
# Cluster — what `main` installs

One call of `InitPaxosServerCluster` gives server `i` of `numNodes` the list `m_nodes`, whose
entry `k` has `serverId = k` and the address of the host that server `k` runs on; `main` then
sets one start time and one stop time for all servers and one for all clients.

Every server and client installs its start and stop events when its node is initialised.  Nodes
are initialised in the order of their creation, which the list of hosts does not fix, so the
order is a parameter.
-/

namespace SyncPaxos

/-- An application installed on a node. -/
inductive App
  | client (k : ℕ)
  | server (i : ℕ)
  deriving DecidableEq, Repr

structure Cluster where
  /-- `m_numNodes`, a `uint32_t`. -/
  numNodes : ℕ
  numNodes_lt : numNodes < 2 ^ 32
  numClients : ℕ
  /-- `PaxosAppServer::s_async`. -/
  async : Bool
  clockSyncError : Time
  boundedMessageDelay : Time
  /-- Start and stop time of every server application. -/
  startTime : Time
  stopTime : Time
  clientStartTime : Time
  clientStopTime : Time
  /-- `PaxosAppClient::m_sendInterval`. -/
  sendInterval : Time
  /-- What `PaxosAppClient::m_lastServerId` holds before its first assignment. -/
  lastServerId : ℕ → ℕ
  initOrder : List App
  initOrder_perm :
    initOrder.Perm ((List.range numClients).map .client ++ (List.range numNodes).map .server)

namespace Cluster

/-- `PaxosAppServer::s_leader`. -/
def leader : ℕ := 0

/-- The `serverId`s of `m_nodes`, entry by entry. -/
def nodes (C : Cluster) : List ℕ := List.range C.numNodes

/-- One client and `n` servers, initialised in this order; the client's first request goes to
server `first`. -/
def oneClient (n : ℕ) (hn : n < 2 ^ 32) (async : Bool) (clockSyncError boundedMessageDelay : Time)
    (stopTime clientStopTime sendInterval : Time) (first : ℕ) : Cluster where
  numNodes := n
  numNodes_lt := hn
  numClients := 1
  async := async
  clockSyncError := clockSyncError
  boundedMessageDelay := boundedMessageDelay
  startTime := 1
  stopTime := stopTime
  clientStartTime := 2
  clientStopTime := clientStopTime
  sendInterval := sendInterval
  lastServerId := fun _ => first + n - 1
  initOrder := .client 0 :: (List.range n).map .server
  initOrder_perm := List.Perm.refl _

/-- One slot of the synchronous schedule, `2*m_clockSyncError + m_boundedMessageDelay`, where an
`int64_t` holds it; `PaxosConfig.slot` has what is left of it where none does. -/
def slot (C : Cluster) : Time := 2 * C.clockSyncError + C.boundedMessageDelay

end Cluster

end SyncPaxos
