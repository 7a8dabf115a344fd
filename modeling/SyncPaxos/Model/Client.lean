import SyncPaxos.Model.Event

/-!
# Client — the request generator (paxos-app-client)

`StartApplication` calls `SendRequest` directly.  The value is drawn by `m_valueRandom`; it is an
argument here.  `StopApplication` closes a socket that `SendRequest` no longer uses from the stop
time on, so it is not an event of the model.
-/

namespace SyncPaxos

open DiscreteEvent

structure Client where
  lastServerId : ℕ := 0
  deriving DecidableEq, Repr

namespace Client

/-- The round-robin target, `(m_lastServerId + 1) % m_servers.size()` on a `uint32_t`. -/
def nextServerId (C : Cluster) (c : Client) : ℕ :=
  (c.lastServerId + 1) % 2 ^ 32 % C.numNodes

/-- The request packet that client `self` sends. -/
def requestPacket (C : Cluster) (self : ℕ) (now : Time) (value : ℕ) (c : Client) : Packet :=
  ⟨.client self, c.nextServerId C, .request ⟨now, value⟩, now⟩

def sendRequest (C : Cluster) (self : ℕ) (now : Time) (value : ℕ) (c : Client) :
    Client × List Event :=
  if now ≥ C.clientStopTime then
    (c, [])
  else
    ({ c with lastServerId := c.nextServerId C },
      [⟨now, .transit (c.requestPacket C self now value) 0⟩,
        ⟨now + C.sendInterval, .sendRequest self⟩])

end Client

end SyncPaxos
