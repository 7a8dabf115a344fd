import Mathlib.Algebra.GroupWithZero.Nat
import SyncPaxos.Library.EventQueue
import SyncPaxos.Library.Transition

/-!
# PointToPoint — a link of the topology (point-to-point-net-device, point-to-point-channel, ppp-header, queue)

Two devices share a channel.  A device transmits one packet at a time; what it is given in between waits
in its drop-tail queue.  The protocol stack may call `Send` at either device at any time that is not past
the next event of the link.  Packets are opaque: only their size matters.

`accepted` and `received` record what `Send` took and what `Receive` handed up, packet and protocol number,
with their times.  A step is `none` where an assertion of the source fails.  The link is up and no error
model is installed.
-/

namespace SyncPaxos.PointToPoint

open DiscreteEvent

/-- `QueueSizeUnit`. -/
inductive QueueSizeUnit
  | packets
  | bytes
  deriving DecidableEq, Repr

/-- The attributes of a device and of its queue. -/
structure DeviceConfig where
  /-- `DataRate::CalculateBytesTxTime` of `m_bps`. -/
  bytesTxTime : ℕ → ℕ
  tInterframeGap : ℕ := 0
  unit : QueueSizeUnit := .packets
  maxSize : ℕ := 100

/-- A channel and its two devices. -/
structure Link (α : Type) where
  /-- Without the protocol header that `Send` adds. -/
  getSize : α → ℕ
  delay : ℕ
  device : Bool → DeviceConfig

/-! ## The protocol header -/

def etherToPpp (proto : ℕ) : Option ℕ :=
  if proto = 0x0800 then some 0x0021
  else if proto = 0x86DD then some 0x0057
  else none

def pppToEther (proto : ℕ) : Option ℕ :=
  if proto = 0x0021 then some 0x0800
  else if proto = 0x0057 then some 0x86DD
  else none

/-- A packet with its `PppHeader`. -/
structure Frame (α : Type) where
  protocol : ℕ
  packet : α

variable {α : Type}

def addHeader (p : α) (protocolNumber : ℕ) : Option (Frame α) :=
  (etherToPpp protocolNumber).map fun protocol => ⟨protocol, p⟩

def Frame.processHeader (f : Frame α) : Option (α × ℕ) :=
  (pppToEther f.protocol).map fun protocol => (f.packet, protocol)

/-! ## The state of a link -/

/-- A drop-tail queue.  `m_nPackets` is the length of the list. -/
structure Queue (α : Type) where
  /-- `m_packets`, the front first. -/
  packets : List (Frame α) := []
  nBytes : ℕ := 0

structure Device (α : Type) where
  /-- `m_txMachineState` is `BUSY`, not `READY`. -/
  busy : Bool := false
  currentPkt : Option (Frame α) := none
  queue : Queue α := {}

inductive Callback (α : Type)
  | transmitComplete (d : Bool)
  | receive (d : Bool) (f : Frame α)

structure State (α : Type) where
  now : ℕ := 0
  events : List (Scheduled (Callback α)) := []
  devices : Bool → Device α := fun _ => {}
  accepted : Bool → List (ℕ × α × ℕ) := fun _ => []
  received : Bool → List (ℕ × α × ℕ) := fun _ => []

namespace Link

variable (L : Link α)

/-- `GetSize` of a packet with its header. -/
def size (p : α) : ℕ := L.getSize p + 2

def txTime (d : Bool) (p : α) : ℕ := (L.device d).bytesTxTime (L.size p)

/-- `GetCurrentSize() + item > GetMaxSize()`. -/
def wouldOverflow (d : Bool) (p : α) (queue : Queue α) : Bool :=
  match (L.device d).unit with
  | .packets => queue.packets.length + 1 > (L.device d).maxSize
  | .bytes => (queue.nBytes + L.size p) % 2 ^ 32 > (L.device d).maxSize

/-- `Enqueue` where there is room. -/
def enqueue (f : Frame α) (queue : Queue α) : Queue α where
  packets := queue.packets ++ [f]
  nBytes := (queue.nBytes + L.size f.packet) % 2 ^ 32

def dequeue (queue : Queue α) : Option (Option (Frame α) × Queue α) :=
  match queue.packets with
  | [] => some (none, queue)
  | f :: packets => do
      guard (queue.nBytes ≥ L.size f.packet)
      return (some f, ⟨packets, queue.nBytes - L.size f.packet⟩)

end Link

namespace State

variable (L : Link α)

def setDevice (s : State α) (d : Bool) (device : Device α) : State α :=
  { s with devices := Function.update s.devices d device }

/-- `TransmitStart` of a device, and the one of the channel, whose result it returns. -/
def transmitStart (d : Bool) (f : Frame α) (s : State α) : Option (State α × Bool) := do
  guard (!(s.devices d).busy)
  let s := s.setDevice d { s.devices d with busy := true, currentPkt := some f }
  let txTime := L.txTime d f.packet
  let s := { s with
    events := s.events ++
      [⟨s.now + (txTime + (L.device d).tInterframeGap), .transmitComplete d⟩,
        ⟨s.now + (txTime + L.delay), .receive (!d) f⟩] }
  return (s, true)

/-- `Send`, and whether the packet was taken. -/
def send (d : Bool) (p : α) (protocolNumber : ℕ) (s : State α) : Option (State α × Bool) := do
  let f ← addHeader p protocolNumber
  let device := s.devices d
  if L.wouldOverflow d p device.queue then
    return (s, false)
  else
    let queue := L.enqueue f device.queue
    if !device.busy then
      let (packet, queue) ← L.dequeue queue
      (s.setDevice d { device with queue := queue }).transmitStart L d (← packet)
    else
      return (s.setDevice d { device with queue := queue }, true)

def transmitComplete (d : Bool) (s : State α) : Option (State α) := do
  let device := s.devices d
  guard device.busy
  guard device.currentPkt.isSome
  let (packet, queue) ← L.dequeue device.queue
  let s := s.setDevice d { device with busy := false, currentPkt := none, queue := queue }
  match packet with
  | none => return s
  | some f => do
      let (s, _) ← s.transmitStart L d f
      return s

/-- `Receive` hands the packet up. -/
def receive (d : Bool) (f : Frame α) (s : State α) : Option (State α) := do
  let x ← f.processHeader
  return { s with received := Function.update s.received d (s.received d ++ [(s.now, x)]) }

/-- `Send` took the packet. -/
def accept (d : Bool) (p : α) (protocolNumber : ℕ) (s : State α) : State α :=
  { s with accepted := Function.update s.accepted d (s.accepted d ++ [(s.now, p, protocolNumber)]) }

end State

/-- What happens next: the stack calls `Send`, or the next event runs. -/
inductive Input (α : Type)
  | send (t : ℕ) (d : Bool) (p : α) (protocolNumber : ℕ)
  | fire

/-- The stack does not act in the past, and not after the next event. -/
def timely (s : State α) : Input α → Prop
  | .send t _ _ _ => s.now ≤ t ∧ ∀ e ∈ s.events, t ≤ e.ts
  | .fire => True

instance (s : State α) : (c : Input α) → Decidable (timely s c)
  | .send t _ _ _ => inferInstanceAs (Decidable (s.now ≤ t ∧ ∀ e ∈ s.events, t ≤ e.ts))
  | .fire => isTrue trivial

def next (L : Link α) : Input α → State α → Option (State α)
  | .send t d p protocolNumber, s => do
      let (s, taken) ← { s with now := t }.send L d p protocolNumber
      return if taken then s.accept d p protocolNumber else s
  | .fire, s =>
      match pop s.events with
      | none => none
      | some (e, rest) =>
          let s := { s with now := e.ts, events := rest }
          match e.action with
          | .transmitComplete d => s.transmitComplete L d
          | .receive d f => s.receive d f

/-- A link as a transition system. -/
def system (L : Link α) : Transition.System (State α) (Input α) where
  init := {}
  next := next L

end SyncPaxos.PointToPoint
