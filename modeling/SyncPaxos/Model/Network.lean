import Mathlib.Data.Finset.Basic
import SyncPaxos.Model.Simulator

/-!
# Network — what the environment of a run may do

A condition on the environment is a guard on the choices of a run.  `onTransit` lifts a rule for
one packet and its fate to such a guard; it says nothing about steps that run other events.
-/

namespace SyncPaxos

open DiscreteEvent

namespace Fate

def isCopy : Fate → Bool
  | .duplicate _ _ => true
  | _ => false

def isLoss : Fate → Bool
  | .lose => true
  | _ => false

/-- The packet is due again by the time `limit`, or not at all. -/
def within (now limit : Time) : Fate → Bool
  | .forward delay => now + delay ≤ limit
  | .duplicate delay₁ delay₂ => now + delay₁ ≤ limit ∧ now + delay₂ ≤ limit
  | _ => true

end Fate

namespace Packet

def isRequest (packet : Packet) : Bool :=
  match packet.payload with
  | .request _ => true
  | .paxos _ => false

/-- The request in a packet. -/
def request? (packet : Packet) : Option RequestFrame :=
  match packet.payload with
  | .request frame => some frame
  | .paxos _ => none

/-- The Paxos frame in a packet. -/
def paxos? (packet : Packet) : Option PaxosFrame :=
  match packet.payload with
  | .request _ => none
  | .paxos frame => some frame

/-- The two packets go from the same sender to the same server. -/
def sameChannel (packet other : Packet) : Bool :=
  other.src = packet.src ∧ other.dst = packet.dst

end Packet

/-- The network keeps to the rule `N` whenever a packet has its turn. -/
def onTransit (N : World → Packet → Time → Fate → Prop) (w : World) (c : Choice) : Prop :=
  match pop w.events with
  | some (⟨now, .transit packet _⟩, _) => N w packet now c.fate
  | _ => True

instance {N : World → Packet → Time → Fate → Prop} [∀ w p t f, Decidable (N w p t f)]
    (w : World) (c : Choice) : Decidable (onTransit N w c) :=
  match h : pop w.events with
  | some (⟨now, .transit packet _⟩, _) =>
      decidable_of_iff (N w packet now c.fate) (by simp [onTransit, h])
  | some (⟨_, .server _ _⟩, _) => isTrue (by simp [onTransit, h])
  | some (⟨_, .clientStart _⟩, _) => isTrue (by simp [onTransit, h])
  | some (⟨_, .sendRequest _⟩, _) => isTrue (by simp [onTransit, h])
  | none => isTrue (by simp [onTransit, h])

/-! ## Networks -/

/-- Frames may be delayed, reordered, lost and duplicated. -/
def anyNetwork : World → Choice → Prop := fun _ _ => True

/-- Paxos frames may be duplicated, requests may not. -/
def noRequestCopies : World → Choice → Prop :=
  onTransit fun _ packet _ fate => packet.isRequest = true → fate.isCopy = false

/-- Frames may be delayed, reordered and lost, but not duplicated. -/
def noCopies : World → Choice → Prop :=
  onTransit fun _ _ _ fate => fate.isCopy = false

/-- Paxos frames for server `j` are not duplicated. -/
def noCopiesTo (j : ℕ) : World → Choice → Prop :=
  onTransit fun _ packet _ fate =>
    packet.dst = j → packet.isRequest = false → fate.isCopy = false

/-- Paxos frames for server `j` are not lost. -/
def noLossTo (j : ℕ) : World → Choice → Prop :=
  onTransit fun _ packet _ fate =>
    packet.dst = j → packet.isRequest = false → fate.isLoss = false

/-- Paxos frames are not lost. -/
def noPaxosLoss : World → Choice → Prop :=
  onTransit fun _ packet _ fate => packet.isRequest = false → fate.isLoss = false

/-- The servers in `F` are down for the whole run: nothing reaches them, so they send nothing.
Paxos frames for the others are neither lost nor duplicated, and no request is duplicated. -/
def crashed (F : Finset ℕ) : World → Choice → Prop :=
  onTransit fun _ packet _ fate =>
    (packet.dst ∈ F → fate ≠ .arrive) ∧
      (packet.isRequest = true → fate.isCopy = false) ∧
      (packet.dst ∉ F → packet.isRequest = false → fate.isCopy = false ∧ fate.isLoss = false)

/-- A Paxos frame takes at most the delay bound and is not lost, and nothing is duplicated. -/
def timely (C : Cluster) : World → Choice → Prop :=
  onTransit fun _ packet now fate =>
    fate.isCopy = false ∧
      (packet.isRequest = false →
        fate.isLoss = false ∧ fate.within now (packet.sentAt + C.boundedMessageDelay) = true)

/-- Every frame, requests included, takes at most the delay bound, and none is lost or duplicated. -/
def synchronous (C : Cluster) : World → Choice → Prop :=
  onTransit fun _ packet now fate =>
    fate.isCopy = false ∧ fate.isLoss = false ∧
      fate.within now (packet.sentAt + C.boundedMessageDelay) = true

/-- Every packet, requests included, takes at least `d`. -/
def atLeast (d : Time) : World → Choice → Prop :=
  onTransit fun _ packet now fate => fate = .arrive → packet.sentAt + d ≤ now

/-- Nothing is duplicated, and the Paxos frames of one server to another arrive in the order in
which they were sent: with a frame that arrives, the frames that have arrived on its channel are
the first ones that were sent there. -/
def fifo : World → Choice → Prop :=
  onTransit fun w packet _ fate =>
    fate.isCopy = false ∧
      (packet.isRequest = false → fate = .arrive →
        w.arrived.filter packet.sameChannel ++ [packet] <+: w.sent.filter packet.sameChannel)

/-- A request that is to be queued finds room in the waiting queue. -/
def World.HasRoom (w : World) : Prop :=
  match pop w.events with
  | some (⟨_, .server i (.createProposalFromRequest _)⟩, _) =>
      (w.servers i).waitingProposals.length ≤ 1000
  | _ => True

/-- Requests are neither lost nor duplicated, they arrive when their destination listens, and no
waiting queue is full when a request is to be queued. -/
def delivering (w : World) (c : Choice) : Prop :=
  onTransit
    (fun w packet _ fate =>
      packet.isRequest = true →
        fate.isCopy = false ∧ fate.isLoss = false ∧
          (fate = .arrive → (w.servers packet.dst).listenerSocket = true)) w c ∧
    w.HasRoom

/-- A packet that has crossed `H` links is not sent on. -/
def shortRoutes (H : ℕ) (w : World) (c : Choice) : Prop :=
  match pop w.events with
  | some (⟨_, .transit _ hop⟩, _) => H ≤ hop → c.fate = .arrive ∨ c.fate = .lose
  | _ => True

instance (w : World) (c : Choice) : Decidable (anyNetwork w c) := isTrue trivial

instance (w : World) (c : Choice) : Decidable (noRequestCopies w c) :=
  inferInstanceAs (Decidable (onTransit _ w c))

instance (w : World) (c : Choice) : Decidable (noCopies w c) :=
  inferInstanceAs (Decidable (onTransit _ w c))

instance (w : World) (c : Choice) : Decidable (noPaxosLoss w c) :=
  inferInstanceAs (Decidable (onTransit _ w c))

instance (C : Cluster) (w : World) (c : Choice) : Decidable (timely C w c) :=
  inferInstanceAs (Decidable (onTransit _ w c))

instance (C : Cluster) (w : World) (c : Choice) : Decidable (synchronous C w c) :=
  inferInstanceAs (Decidable (onTransit _ w c))

instance (d : Time) (w : World) (c : Choice) : Decidable (atLeast d w c) :=
  inferInstanceAs (Decidable (onTransit _ w c))

instance (w : World) (c : Choice) : Decidable (fifo w c) :=
  inferInstanceAs (Decidable (onTransit _ w c))

instance (F : Finset ℕ) (w : World) (c : Choice) : Decidable (crashed F w c) :=
  inferInstanceAs (Decidable (onTransit _ w c))

instance (w : World) : Decidable w.HasRoom := by
  unfold World.HasRoom
  split <;> infer_instance

instance (H : ℕ) (w : World) (c : Choice) : Decidable (shortRoutes H w c) := by
  unfold shortRoutes
  split <;> infer_instance

instance (w : World) (c : Choice) : Decidable (delivering w c) :=
  inferInstanceAs (Decidable (onTransit _ w c ∧ w.HasRoom))

/-! ## A network that is fixed in advance -/

/-- The values the clients draw at each time, and for each packet what the network does with it after
each number of links. -/
structure Environment where
  value : ℕ → Time → ℕ
  fate : Packet → ℕ → Fate

/-- What the environment decides when an event has its turn. -/
def Environment.choice (env : Environment) (e : Event) : Choice :=
  match e.action with
  | .server _ _ => {}
  | .clientStart k => { value := env.value k e.ts }
  | .sendRequest k => { value := env.value k e.ts }
  | .transit packet hop => { fate := env.fate packet hop }

/-- The run is the one that the environment leads to. -/
def follows (env : Environment) (w : World) (c : Choice) : Prop :=
  match pop w.events with
  | some (e, _) => c = env.choice e
  | none => True

instance (env : Environment) (w : World) (c : Choice) : Decidable (follows env w c) :=
  match h : pop w.events with
  | some (e, _) => decidable_of_iff (c = env.choice e) (by simp [follows, h])
  | none => isTrue (by simp [follows, h])

/-! ## Requests -/

namespace World

/-- The requests sent so far, in order. -/
def requests (w : World) : List RequestFrame := w.sent.filterMap Packet.request?

/-- No two requests carry the same timestamp. -/
def DistinctTimestamps (w : World) : Prop := (w.requests.map (·.timestamp)).Nodup

end World

end SyncPaxos
