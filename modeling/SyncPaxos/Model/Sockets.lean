import Mathlib.Algebra.Group.Nat.Defs
import Mathlib.Data.Int.Notation
import SyncPaxos.Library.Transition
import SyncPaxos.Model.Address

/-!
# Sockets — the UDP sockets of a node (udp-socket-impl, ipv4-end-point, ipv4-end-point-demux)

A socket that is bound has an end point.  The demultiplexer of the node holds those of all its sockets:
it gives out ephemeral ports, and finds the end point that a datagram is for.

An operation is `none` where an assertion of the source fails, where it aborts, and where it would use
a null pointer; -1 stands for a failure that it reports.  Pointers to end points are natural numbers
that are never used twice.  IPv6 and the end points of TCP, which have a peer, are left out.
-/

namespace SyncPaxos.Sockets

/-- `Ipv4Address::GetAny`. -/
def getAny : Ipv4Address := 0

structure Ipv4EndPoint where
  localAddr : Ipv4Address
  localPort : ℕ
  peerAddr : Ipv4Address := getAny
  peerPort : ℕ := 0
  rxEnabled : Bool := true
  boundNetDevice : Option ℕ := none
  deriving DecidableEq, Repr

/-- A pointer and what it points to. -/
abbrev EndPoint := ℕ × Ipv4EndPoint

structure Ipv4Interface where
  device : ℕ
  /-- Local addresses, with their masks. -/
  addresses : List (Ipv4Address × ℕ)
  deriving DecidableEq, Repr

/-- `Ipv4Address::CombineMask`. -/
def combineMask (address mask : ℕ) : Ipv4Address := address &&& mask

/-- The inner loop of `Lookup`: an end point bound to the network of the interface. -/
def Ipv4Interface.isSubnetAny (interface : Ipv4Interface) (localAddr daddr : Ipv4Address) : Bool :=
  interface.addresses.any fun addr =>
    localAddr == combineMask addr.1 addr.2 && combineMask addr.1 addr.2 == combineMask daddr addr.2

/-- The arguments of `Lookup`. -/
structure Datagram where
  daddr : Ipv4Address
  dport : ℕ
  saddr : Ipv4Address
  sport : ℕ
  incomingInterface : Ipv4Interface

structure Ipv4EndPointDemux where
  ephemeral : ℕ := 49152
  endPoints : List EndPoint := []
  /-- Where the next end point is put. -/
  next : ℕ := 0

namespace Ipv4EndPointDemux

abbrev portFirst : ℕ := 49152
abbrev portLast : ℕ := 65535

def lookupPortLocal (port : ℕ) (s : Ipv4EndPointDemux) : Bool :=
  s.endPoints.any fun i => i.2.localPort == port

def lookupLocal (boundNetDevice : Option ℕ) (addr : Ipv4Address) (port : ℕ)
    (s : Ipv4EndPointDemux) : Bool :=
  s.endPoints.any fun i =>
    i.2.localPort == port && i.2.localAddr == addr && i.2.boundNetDevice == boundNetDevice

/-! ## Ports -/

/-- A round of the loop moves on to the next port; `uint16_t port`. -/
def nextPort (port : ℕ) : ℕ :=
  let port := (port + 1) % 2 ^ 16
  if port < portFirst ∨ port > portLast then portFirst else port

/-- The loop of `AllocateEphemeralPort`, by the rounds that are left. -/
def findPort (s : Ipv4EndPointDemux) : ℕ → ℕ → ℕ
  | 0, _ => 0
  | count + 1, port =>
      if s.lookupPortLocal (nextPort port) then findPort s count (nextPort port) else nextPort port

def allocateEphemeralPort (s : Ipv4EndPointDemux) : ℕ × Ipv4EndPointDemux :=
  -- Counting down from the difference ends after one round more.
  let port := s.findPort (portLast - portFirst + 1) s.ephemeral
  if port = 0 then (0, s) else (port, { s with ephemeral := port })

/-! ## End points -/

/-- `new Ipv4EndPoint` and `push_back`. -/
def add (endPoint : Ipv4EndPoint) (s : Ipv4EndPointDemux) : Option ℕ × Ipv4EndPointDemux :=
  (some s.next, { s with
    endPoints := s.endPoints ++ [(s.next, endPoint)]
    next := s.next + 1 })

/-- `Allocate(Ipv4Address)`. -/
def allocateAddress (address : Ipv4Address) (s : Ipv4EndPointDemux) :
    Option ℕ × Ipv4EndPointDemux :=
  let (port, s) := s.allocateEphemeralPort
  if port = 0 then (none, s) else s.add { localAddr := address, localPort := port }

/-- `Allocate()`. -/
def allocate (s : Ipv4EndPointDemux) : Option ℕ × Ipv4EndPointDemux := s.allocateAddress getAny

/-- `Allocate(Ptr<NetDevice>, Ipv4Address, uint16_t)`. -/
def allocateLocal (boundNetDevice : Option ℕ) (address : Ipv4Address) (port : ℕ)
    (s : Ipv4EndPointDemux) : Option ℕ × Ipv4EndPointDemux :=
  if s.lookupLocal boundNetDevice address port || s.lookupLocal none address port then
    (none, s)
  else
    s.add { localAddr := address, localPort := port }

/-- `Allocate(Ptr<NetDevice>, uint16_t)`. -/
def allocatePort (boundNetDevice : Option ℕ) (port : ℕ) (s : Ipv4EndPointDemux) :
    Option ℕ × Ipv4EndPointDemux :=
  s.allocateLocal boundNetDevice getAny port

/-- The cases of `UdpSocketImpl::Bind(const Address&)`. -/
def allocateFor (boundNetDevice : Option ℕ) (ipv4 : Ipv4Address) (port : ℕ)
    (s : Ipv4EndPointDemux) : Option ℕ × Ipv4EndPointDemux :=
  if ipv4 = getAny ∧ port = 0 then s.allocate
  else if ipv4 = getAny ∧ port ≠ 0 then s.allocatePort boundNetDevice port
  else if ipv4 ≠ getAny ∧ port = 0 then s.allocateAddress ipv4
  else s.allocateLocal boundNetDevice ipv4 port

def deAllocate (endPoint : ℕ) (s : Ipv4EndPointDemux) : Ipv4EndPointDemux :=
  { s with endPoints := s.endPoints.eraseP fun i => i.1 == endPoint }

/-- Use a pointer to an end point. -/
def modify (endPoint : ℕ) (f : Ipv4EndPoint → Ipv4EndPoint) (s : Ipv4EndPointDemux) :
    Ipv4EndPointDemux :=
  { s with endPoints := s.endPoints.map fun i => if i.1 = endPoint then (i.1, f i.2) else i }

/-! ## Datagrams -/

/-- The lists that `Lookup` fills. -/
structure Retvals where
  /-- Matches exact on local port, wildcards on others. -/
  retval1 : List EndPoint := []
  /-- Matches exact on local port/adder, wildcards on others. -/
  retval2 : List EndPoint := []
  /-- Matches all but local address. -/
  retval3 : List EndPoint := []
  /-- Exact match on all 4. -/
  retval4 : List EndPoint := []

/-- A round of the loop of `Lookup`. -/
def consider (p : Datagram) (r : Retvals) (i : EndPoint) : Retvals :=
  let endP := i.2
  if !endP.rxEnabled then
    r
  else if endP.localPort ≠ p.dport then
    r
  else if endP.boundNetDevice.any (· != p.incomingInterface.device) then
    r
  else
    let localAddressMatchesExact := endP.localAddr == p.daddr
    let localAddressMatchesWildCard := !localAddressMatchesExact &&
      (endP.localAddr == getAny || p.incomingInterface.isSubnetAny endP.localAddr p.daddr)
    -- if no match here, keep looking
    if !localAddressMatchesExact && !localAddressMatchesWildCard then
      r
    else
      let remotePortMatchesExact := endP.peerPort == p.sport
      let remotePortMatchesWildCard := endP.peerPort == 0
      let remoteAddressMatchesExact := endP.peerAddr == p.saddr
      let remoteAddressMatchesWildCard := endP.peerAddr == getAny
      if !(remotePortMatchesExact || remotePortMatchesWildCard) then
        r
      else if !(remoteAddressMatchesExact || remoteAddressMatchesWildCard) then
        r
      else
        let remoteExact := remoteAddressMatchesExact && remotePortMatchesExact
        let remoteWildCard := remoteAddressMatchesWildCard && remotePortMatchesWildCard
        { retval4 := r.retval4 ++ if localAddressMatchesExact && remoteExact then [i] else []
          retval3 := r.retval3 ++ if localAddressMatchesWildCard && remoteExact then [i] else []
          retval2 := r.retval2 ++ if localAddressMatchesExact && remoteWildCard then [i] else []
          retval1 := r.retval1 ++ if localAddressMatchesWildCard && remoteWildCard then [i] else [] }

def lookup (p : Datagram) (s : Ipv4EndPointDemux) : Option (List EndPoint) :=
  let r := s.endPoints.foldl (consider p) {}
  -- Here we find the most exact match
  let retval :=
    if !r.retval4.isEmpty then r.retval4
    else if !r.retval3.isEmpty then r.retval3
    else if !r.retval2.isEmpty then r.retval2
    else r.retval1
  if retval.length > 1 then none else some retval

end Ipv4EndPointDemux

/-! ## Sockets -/

structure UdpSocketImpl where
  endPoint : Option ℕ := none
  boundNetDevice : Option ℕ := none
  shutdownSend : Bool := false
  shutdownRecv : Bool := false
  deriving DecidableEq, Repr

/-- The sockets of a node, in the order in which they are created. -/
structure Node where
  demux : Ipv4EndPointDemux := {}
  sockets : List UdpSocketImpl := []

namespace Node

open Ipv4EndPointDemux

def setSocket (k : ℕ) (socket : UdpSocketImpl) (s : Node) : Node :=
  { s with sockets := s.sockets.set k socket }

/-- The end of both `Bind`s, with `FinishBind`: `k` now has the end point. -/
def bound (k : ℕ) (socket : UdpSocketImpl) (endPoint : ℕ) (demux : Ipv4EndPointDemux)
    (s : Node) : ℤ × Node :=
  let demux := match socket.boundNetDevice with
    | none => demux
    | some device => demux.modify endPoint fun e => { e with boundNetDevice := some device }
  (0, { s with demux := demux }.setSocket k
    { socket with endPoint := some endPoint, shutdownRecv := false, shutdownSend := false })

/-- `Bind()`. -/
def bind (k : ℕ) (s : Node) : Option (ℤ × Node) := do
  let socket ← s.sockets[k]?
  match s.demux.allocate with
  | (some endPoint, demux) => return s.bound k socket endPoint demux
  | (none, demux) =>
      -- `m_endPoint->BindToNetDevice`
      guard (socket.boundNetDevice = none)
      return (-1, { s with demux := demux }.setSocket k { socket with endPoint := none })

/-- `Bind(const Address&)`. -/
def bindTo (k : ℕ) (ipv4 : Ipv4Address) (port : ℕ) (s : Node) : Option (ℤ × Node) := do
  let socket ← s.sockets[k]?
  -- Endpoint already allocated.
  guard (socket.endPoint = none)
  match s.demux.allocateFor socket.boundNetDevice ipv4 port with
  | (some endPoint, demux) => return s.bound k socket endPoint demux
  | (none, demux) => return (-1, { s with demux := demux })

/-- How `DoSendTo` begins. -/
def bindFirst (k : ℕ) (s : Node) : Option (ℤ × Node) := do
  let socket ← s.sockets[k]?
  if socket.endPoint = none then s.bind k else return (0, s)

/-- `DoSendTo` up to the datagram. -/
def sendTo (k : ℕ) (s : Node) : Option (ℤ × Node) := do
  let (ret, s) ← s.bindFirst k
  if ret = -1 then
    return (-1, s)
  else
    let socket ← s.sockets[k]?
    return (if socket.shutdownSend then -1 else 0, s)

def bindToNetDevice (k : ℕ) (netdevice : Option ℕ) (s : Node) : Option Node := do
  let socket ← s.sockets[k]?
  let demux := match socket.endPoint with
    | none => s.demux
    | some endPoint => s.demux.modify endPoint fun e => { e with boundNetDevice := netdevice }
  return { s with demux := demux }.setSocket k { socket with boundNetDevice := netdevice }

def shutdownSend (k : ℕ) (s : Node) : Option Node := do
  let socket ← s.sockets[k]?
  return s.setSocket k { socket with shutdownSend := true }

def shutdownRecv (k : ℕ) (s : Node) : Option Node := do
  let socket ← s.sockets[k]?
  let demux := match socket.endPoint with
    | none => s.demux
    | some endPoint => s.demux.modify endPoint fun e => { e with rxEnabled := false }
  return { s with demux := demux }.setSocket k { socket with shutdownRecv := true }

/-- `Close`, with `DeallocateEndPoint`. -/
def close (k : ℕ) (s : Node) : Option (ℤ × Node) := do
  let socket ← s.sockets[k]?
  if socket.shutdownRecv && socket.shutdownSend then
    return (-1, s)
  else
    let demux := match socket.endPoint with
      | none => s.demux
      | some endPoint => s.demux.deAllocate endPoint
    return (0, { s with demux := demux }.setSocket k
      { socket with endPoint := none, shutdownRecv := true, shutdownSend := true })

end Node

/-- What the applications of a node may do with its sockets. -/
inductive Call
  | createSocket
  | bind (k : ℕ)
  | bindTo (k : ℕ) (ipv4 : Ipv4Address) (port : ℕ)
  | sendTo (k : ℕ)
  | bindToNetDevice (k : ℕ) (netdevice : Option ℕ)
  | shutdownSend (k : ℕ)
  | shutdownRecv (k : ℕ)
  | close (k : ℕ)
  deriving DecidableEq, Repr

def Node.next : Call → Node → Option Node
  | .createSocket, s => some { s with sockets := s.sockets ++ [{}] }
  | .bind k, s => (s.bind k).map Prod.snd
  | .bindTo k ipv4 port, s => (s.bindTo k ipv4 port).map Prod.snd
  | .sendTo k, s => (s.sendTo k).map Prod.snd
  | .bindToNetDevice k netdevice, s => s.bindToNetDevice k netdevice
  | .shutdownSend k, s => s.shutdownSend k
  | .shutdownRecv k, s => s.shutdownRecv k
  | .close k, s => (s.close k).map Prod.snd

def system : Transition.System Node Call where
  init := {}
  next := Node.next

end SyncPaxos.Sockets
