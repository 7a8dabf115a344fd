import SyncPaxos.Library.Transition
import SyncPaxos.Model.AppServer
import SyncPaxos.Model.Client

/-!
# Simulator — the whole program as a transition system

The simulator runs the pending event of least time stamp, ties in the order of scheduling.  Two
things are left to the environment: the value a client draws, and what the network does with a
packet each time it is its turn.  A packet may be handed to its destination, sent on over another
link, copied or lost, so one packet may take any route and any time.

`sent` and `arrived` record the packets put into and taken out of the network.
-/

namespace SyncPaxos

open DiscreteEvent

/-- What the network does with a packet. -/
inductive Fate
  | arrive
  | forward (delay : Time)
  | duplicate (delay₁ delay₂ : Time)
  | lose
  deriving DecidableEq, Repr

/-- What the environment decides in one step. -/
structure Choice where
  value : ℕ := 0
  fate : Fate := .arrive
  deriving DecidableEq, Repr

structure World where
  now : Time
  events : List Event
  servers : ℕ → Server
  clients : ℕ → Client
  sent : List Packet
  arrived : List Packet
  /-- `NS_FATAL_ERROR` was called. -/
  aborted : Bool

/-- The events that the initialisation of an application schedules. -/
def App.initEvents (C : Cluster) : App → List Event
  | .client k => [⟨C.clientStartTime, .clientStart k⟩]
  | .server i =>
      ⟨C.startTime, .server i .startApplication⟩ ::
        if C.stopTime = 0 then [] else [⟨C.stopTime, .server i .stopApplication⟩]

namespace World

def init (C : Cluster) : World where
  now := 0
  events := C.initOrder.flatMap (App.initEvents C)
  servers := fun _ => {}
  clients := fun k => ⟨C.lastServerId k⟩
  sent := []
  arrived := []
  aborted := false

/-- Schedule events, in order. -/
def schedule (w : World) (es : List Event) : World :=
  { w with
    events := w.events ++ es
    sent := w.sent ++ es.filterMap (fun e => e.action.sentPacket?) }

/-- The effect of a member function of server `i`. -/
def commit (w : World) (i : ℕ) (out : Outcome) : World :=
  { w with servers := Function.update w.servers i out.server }.schedule out.events

/-- The effect of `SendRequest` of client `k`. -/
def sendRequest (C : Cluster) (value : ℕ) (w : World) (k : ℕ) : World :=
  let out := (w.clients k).sendRequest C k w.now value
  { w with clients := Function.update w.clients k out.1 }.schedule out.2

/-- A packet reaches the node of its destination; without a bound socket it is dropped. -/
def arrive (C : Cluster) (w : World) (packet : Packet) : World :=
  let w := { w with arrived := w.arrived ++ [packet] }
  let s := w.servers packet.dst
  match packet.payload with
  | .request frame =>
      if s.listenerSocket then
        w.schedule (Server.receiveRequest C packet.dst w.now frame)
      else
        w
  | .paxos frame =>
      if s.recvSocket then
        match Server.receiveMessage packet.dst w.now frame with
        | some e => w.schedule [e]
        | none => { w with aborted := true }
      else
        w

/-- The network's turn with a packet. -/
def transit (C : Cluster) (w : World) (packet : Packet) (hop : ℕ) : Fate → World
  | .arrive => w.arrive C packet
  | .forward d => w.schedule [⟨w.now + d, .transit packet (hop + 1)⟩]
  | .duplicate d₁ d₂ =>
      w.schedule [⟨w.now + d₁, .transit packet (hop + 1)⟩, ⟨w.now + d₂, .transit packet (hop + 1)⟩]
  | .lose => w

/-- Run one event that has been taken out of the queue. -/
def exec (C : Cluster) (c : Choice) (w : World) : Callback → World
  | .server i task => w.commit i (Server.run C i w.now task (w.servers i))
  | .clientStart k => w.sendRequest C c.value k
  | .sendRequest k => w.sendRequest C c.value k
  | .transit packet hop => w.transit C packet hop c.fate

/-- One turn of `Simulator::Run`. -/
def step (C : Cluster) (c : Choice) (w : World) : Option World :=
  if w.aborted then
    none
  else
    match pop w.events with
    | none => none
    | some (e, rest) => some ({ w with now := e.ts, events := rest }.exec C c e.action)

end World

/-- The program as a transition system. -/
def program (C : Cluster) : Transition.System World Choice where
  init := World.init C
  next := World.step C

/-- The states of the runs in which the environment keeps to `G`. -/
abbrev Reachable (C : Cluster) (G : World → Choice → Prop) : World → Prop :=
  Transition.Reachable (program C) G

end SyncPaxos
