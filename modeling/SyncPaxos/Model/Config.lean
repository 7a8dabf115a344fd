import SyncPaxos.Model.Cluster

/-!
# Config — what the user sets (paxos-main, paxos-common)

The times of a `PaxosConfig` are strings in the source; here they are what the strings are read
as.  `InitPaxosServerCluster` and `InitPaxosClientCluster` hand them to the applications.

An `ns3::Time` is an `int64_t`, and the servers multiply and add the two times of their slots without
a check.  `simulation` has the slot that comes out of this, as 64 bits; from `2 ^ 63` on it stands for
a negative number.
-/

namespace SyncPaxos

/-- The cluster with another slot in the place of its clock error and its delay bound. -/
def Cluster.withSlot (C : Cluster) (slot : Time) : Cluster :=
  { C with
    clockSyncError := 0
    boundedMessageDelay := slot }

structure PaxosConfig where
  isSynchronous : Bool := true
  clockSyncError : Time := 10
  boundedMessageDelay : Time := 10 ^ 7
  linkDelay : Time := 10 ^ 7
  deriving DecidableEq, Repr

namespace PaxosConfig

/-- What `InitPaxosClientCluster` divides, before it is put into a `uint32_t`. -/
def interval (config : PaxosConfig) : ℕ :=
  if config.isSynchronous then config.boundedMessageDelay / 10 else config.linkDelay / 5

/-- The send interval of every client. -/
def sendInterval (config : PaxosConfig) : Time := config.interval % 2 ^ 32

/-- The cluster `C` with this configuration. -/
def install (config : PaxosConfig) (C : Cluster) : Cluster :=
  { C with
    async := !config.isSynchronous
    clockSyncError := config.clockSyncError
    boundedMessageDelay := config.boundedMessageDelay
    sendInterval := config.sendInterval }

/-- `2 * m_clockSyncError + m_boundedMessageDelay`, the 64 bits of an `int64_t`. -/
def slot (config : PaxosConfig) : Time :=
  (2 * config.clockSyncError + config.boundedMessageDelay) % 2 ^ 64

/-- The cluster `C` with this configuration and the slot that its servers compute. -/
def simulation (config : PaxosConfig) (C : Cluster) : Cluster :=
  (config.install C).withSlot config.slot

end PaxosConfig

end SyncPaxos
