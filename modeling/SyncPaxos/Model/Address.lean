import SyncPaxos.Model.Codec

/-!
# Address — nodes, links and addresses (the ns-3 helpers)

What the helpers build is a `Net`: nodes, point-to-point channels with their devices, and
interfaces with their addresses.  A node is its number.  The loopback interface that every Internet
stack has is left out; no helper assigns its address.

A step of a `Setup` is `none` where ns-3 stops: at a fatal error or a failed assertion.
-/

namespace SyncPaxos

/-! ## Addresses -/

/-- `ns3::Ipv4Address`: a `uint32_t`. -/
abbrev Ipv4Address := ℕ

namespace Ipv4Address

/-- The address `a.b.c.d`. -/
def ofOctets (a b c d : ℕ) : Ipv4Address := ((a * 256 + b) * 256 + c) * 256 + d

/-- One of the four numbers of an address in dotted-decimal notation. -/
def octet (digits : List Char) : Option ℕ :=
  let value := Nat.ofDigitChars 10 digits 0
  if digits ≠ [] ∧ digits.all Char.isDigit ∧ value ≤ 255 ∧ (digits.head? = some '0' → value = 0 ∧
      digits.length = 1) then
    some value
  else
    none

/-- `inet_pton(AF_INET, ..)`, with the bytes in host order. -/
def inetPton (text : String) : Option Ipv4Address :=
  match (text.toList.splitOn '.').map octet with
  | [some a, some b, some c, some d] => some (ofOctets a b c d)
  | _ => none

/-- `Ipv4Address::Ipv4Address(const char*)`: a text that is no address gives 0. -/
def ofString (text : String) : Ipv4Address := (inetPton text).getD 0

end Ipv4Address

/-! ## The network -/

/-- A `PointToPointNetDevice`, with its attribute `DataRate` as it was set. -/
structure NetDevice where
  node : ℕ
  dataRate : String
  deriving DecidableEq, Repr

/-- A `PointToPointChannel` and the devices at its ends. -/
structure Channel where
  a : NetDevice
  b : NetDevice
  delay : Time
  deriving DecidableEq, Repr

/-- An `Ipv4Interface` with its one address. -/
structure Interface where
  device : NetDevice
  address : Ipv4Address
  deriving DecidableEq, Repr

structure Net where
  numNodes : ℕ := 0
  channels : List Channel := []
  interfaces : List Interface := []
  /-- What `Ipv4AddressGenerator` has recorded. -/
  allocated : List Ipv4Address := []
  deriving DecidableEq, Repr

abbrev Setup := StateT Net Option

/-! ## Nodes and links -/

/-- The nanoseconds of a unit. -/
def Time.factor (trailer : List Char) : Option ℕ :=
  if trailer = "s".toList then some (10 ^ 9)
  else if trailer = "ms".toList then some (10 ^ 6)
  else if trailer = "us".toList then some (10 ^ 3)
  else if trailer = "ns".toList then some 1
  else none

/-- `Time::Time(const std::string&)` on a text that is a row of digits and one of the units from a
second down to a nanosecond, as all texts are that the program passes to it.  It is `none` on any
other text, also on those that ns-3 reads: fractions, signs, exponents, other units and none. -/
def Time.ofText (s : String) : Option Time := do
  let number := s.toList.takeWhile (fun c => c ∈ "+-0123456789.eE".toList)
  let trailer := s.toList.dropWhile (fun c => c ∈ "+-0123456789.eE".toList)
  guard (number ≠ [] ∧ number.all Char.isDigit)
  let factor ← Time.factor trailer
  Time.fromDouble (readTime (Nat.ofDigitChars 10 number 0) * factor)

abbrev NodeContainer := List ℕ
abbrev NetDeviceContainer := List NetDevice
abbrev Ipv4InterfaceContainer := List Interface

def NodeContainer.create (n : ℕ) : Setup NodeContainer := do
  let net ← get
  set { net with numNodes := net.numNodes + n }
  return (List.range n).map (net.numNodes + ·)

structure PointToPointHelper where
  dataRate : String
  delay : Time

/-- The helper with the attributes `DataRate` of its devices and `Delay` of its channels set. -/
def PointToPointHelper.ofAttributes (dataRate delay : String) : Option PointToPointHelper := do
  let delay ← Time.ofText delay
  return { dataRate, delay }

/-- `Install(a, b)`: the device of `a` comes first. -/
def PointToPointHelper.install (p2p : PointToPointHelper) (a b : ℕ) : Setup NetDeviceContainer := do
  let devA : NetDevice := ⟨a, p2p.dataRate⟩
  let devB : NetDevice := ⟨b, p2p.dataRate⟩
  modify fun net => { net with channels := net.channels ++ [⟨devA, devB, p2p.delay⟩] }
  return [devA, devB]

/-- `GetAddress(i)`. -/
def Ipv4InterfaceContainer.getAddress (interfaces : Ipv4InterfaceContainer) (i : ℕ) :
    Option Ipv4Address :=
  interfaces[i]?.map Interface.address

/-! ## The address helper -/

structure Ipv4AddressHelper where
  network : ℕ
  mask : ℕ
  address : ℕ
  base : ℕ
  shift : ℕ
  max : ℕ
  deriving DecidableEq, Repr

/-- `Ipv4AddressGenerator::AddAllocated`. -/
def addAllocated (addr : Ipv4Address) : Setup Unit := do
  let net ← get
  guard (addr ≠ 0)
  -- Address Collision
  guard (addr ∉ net.allocated)
  set { net with allocated := net.allocated ++ [addr] }

namespace Ipv4AddressHelper

/-- The number of the lowest bit that is set. -/
def numAddressBits (maskbits : ℕ) : Option ℕ :=
  (List.range 32).find? (maskbits.testBit ·)

def setBase (network mask base : String) : Option Ipv4AddressHelper := do
  let network := Ipv4Address.ofString network
  let mask ← Ipv4Address.inetPton mask
  let address := Ipv4Address.ofString base
  guard (network &&& (2 ^ 32 - 1 - mask) = 0)
  let shift ← numAddressBits mask
  return {
    network := network >>> shift
    mask
    address
    base := address
    shift
    max := (2 ^ shift + 2 ^ 32 - 2) % 2 ^ 32 }

/-- The address, and the helper with `m_address` incremented. -/
def newAddress (ipv4 : Ipv4AddressHelper) : Setup (Ipv4Address × Ipv4AddressHelper) := do
  guard (ipv4.address ≤ ipv4.max)
  let addr := (ipv4.network <<< ipv4.shift) ||| ipv4.address
  addAllocated addr
  return (addr, { ipv4 with address := ipv4.address + 1 })

/-- `Assign`: the devices get their interfaces in the order of the container. -/
def assign : Ipv4AddressHelper → NetDeviceContainer → Setup Ipv4InterfaceContainer
  | _, [] => return []
  | ipv4, device :: devices => do
      let (addr, ipv4) ← ipv4.newAddress
      let interface : Interface := ⟨device, addr⟩
      modify fun net => { net with interfaces := net.interfaces ++ [interface] }
      let interfaces ← ipv4.assign devices
      return interface :: interfaces

end Ipv4AddressHelper

end SyncPaxos
