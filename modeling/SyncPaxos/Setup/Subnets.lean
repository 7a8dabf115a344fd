import SyncPaxos.Library.Growth
import SyncPaxos.Model.Topology
import SyncPaxos.Safety.RoundTrip

/-!
# Subnets — the addresses of one link

A subnet goes from its numbers through a text into an address helper.  The helper numbers the two
ends of the link 1 and 2.  A whole link is an entry of the network (`Link`), and `connect` adds one
(`connect_adds`), if the addresses are not taken.
-/

namespace SyncPaxos

open Ipv4Address

/-! ## The text of a subnet -/

/-- A number below 256 is printed as it is read. -/
theorem octet_toDigits : ∀ n < 256, octet (Nat.toDigits 10 n) = some n := by
  decide +kernel

theorem dot_not_mem_toDigits (n : ℕ) : '.' ∉ Nat.toDigits 10 n := by
  intro hdot
  have hdigit := Nat.isDigit_of_mem_toDigits (by decide) (by decide) hdot
  exact absurd hdigit (by decide)

/-- An address in dotted-decimal notation is read as its four numbers. -/
theorem inetPton_dotted {a b c d : ℕ} (ha : a < 256) (hb : b < 256) (hc : c < 256) (hd : d < 256) :
    inetPton s!"{a}.{b}.{c}.{d}" = some (ofOctets a b c d) := by
  have hlist : (s!"{a}.{b}.{c}.{d}").toList = ['.'].intercalate
      [Nat.toDigits 10 a, Nat.toDigits 10 b, Nat.toDigits 10 c, Nat.toDigits 10 d] := by
    have hdot : (toString ".").toList = ['.'] := rfl
    simp [Nat.toString_eq_repr, Nat.toList_repr, List.intercalate, hdot]
  have hsplit : (s!"{a}.{b}.{c}.{d}").toList.splitOn '.' =
      [Nat.toDigits 10 a, Nat.toDigits 10 b, Nat.toDigits 10 c, Nat.toDigits 10 d] := by
    rw [hlist]
    apply List.splitOn_intercalate
    · simp [dot_not_mem_toDigits]
    · simp
  unfold inetPton
  rw [hsplit]
  simp only [List.map_cons, List.map_nil, octet_toDigits a ha, octet_toDigits b hb,
    octet_toDigits c hc, octet_toDigits d hd]

theorem ofOctets_zero (a b c : ℕ) : ofOctets a b c 0 = ((a * 256 + b) * 256 + c) * 256 := by
  rw [ofOctets, Nat.add_zero]

theorem inetPton_subnet {text : String} {a i j : ℕ} (ha : a < 256) (hi : i < 256) (hj : j < 256)
    (h : text.toList = (s!"{a}.{i}.{j}.{0}").toList) :
    inetPton text = some (((a * 256 + i) * 256 + j) * 256) := by
  rw [String.toList_inj.1 h, ← ofOctets_zero]
  exact inetPton_dotted ha hi hj (by decide)

theorem inetPton_spineLeafSubnet {i j : ℕ} (hi : i < 256) (hj : j < 256) :
    inetPton (PaxosTopologyClos.spineLeafSubnet i j) =
      some (((10 * 256 + i) * 256 + j) * 256) := by
  apply inetPton_subnet (by decide) hi hj
  simp [PaxosTopologyClos.spineLeafSubnet]
  rfl

theorem inetPton_leafHostSubnet {i j : ℕ} (hi : i < 256) (hj : j < 256) :
    inetPton (PaxosTopologyClos.leafHostSubnet i j) =
      some (((20 * 256 + i) * 256 + j) * 256) := by
  apply inetPton_subnet (by decide) hi hj
  simp [PaxosTopologyClos.leafHostSubnet]
  rfl

/-! ## The address helper -/

namespace Ipv4AddressHelper

/-- The helper at the start of a network with the mask 255.255.255.0. -/
def atNetwork (network : ℕ) : Ipv4AddressHelper where
  network := network
  mask := ofOctets 255 255 255 0
  address := 1
  base := 1
  shift := 8
  max := 254

theorem setBase_eq {text : String} {network : ℕ} (h : inetPton text = some (network * 256)) :
    setBase text "255.255.255.0" "0.0.0.1" = some (atNetwork network) := by
  have haddress : Ipv4Address.ofString text = network * 256 := by
    rw [Ipv4Address.ofString, h]
    rfl
  have hmask : inetPton "255.255.255.0" = some (ofOctets 255 255 255 0) := by decide
  have hbase : Ipv4Address.ofString "0.0.0.1" = 1 := by decide
  have hbits : numAddressBits (ofOctets 255 255 255 0) = some 8 := by decide
  have hclean : network * 256 &&& (2 ^ 32 - 1 - ofOctets 255 255 255 0) = 0 := by
    calc network * 256 &&& (2 ^ 32 - 1 - ofOctets 255 255 255 0)
        = network * 256 &&& (2 ^ 8 - 1) := rfl
      _ = network * 256 % 2 ^ 8 := Nat.and_two_pow_sub_one_eq_mod _ 8
      _ = 0 := Nat.mul_mod_left network 256
  have hshift : (network * 256) >>> 8 = network := by
    rw [Nat.shiftRight_eq_div_pow]
    exact Nat.mul_div_cancel network (by decide)
  unfold setBase
  simp only [haddress, hmask, hbase, hbits, hclean, hshift, guard, if_true, Option.bind_eq_bind,
    Option.bind_some]
  rfl

/-- The host number goes into the eight bits that the network leaves free. -/
theorem shiftLeft_or (network : ℕ) {x : ℕ} (hx : x < 256) :
    network <<< 8 ||| x = network * 256 + x := by
  calc network <<< 8 ||| x
      = network <<< 8 + x := (Nat.shiftLeft_add_eq_or_of_lt hx network).symm
    _ = network * 256 + x := by rw [Nat.shiftLeft_eq]

/-- An address that is not taken is recorded. -/
theorem newAddress_run {ipv4 : Ipv4AddressHelper} {net : Net} (hmax : ipv4.address ≤ ipv4.max)
    (hzero : ipv4.network <<< ipv4.shift ||| ipv4.address ≠ 0)
    (hfree : ipv4.network <<< ipv4.shift ||| ipv4.address ∉ net.allocated) :
    ipv4.newAddress.run net =
      some ((ipv4.network <<< ipv4.shift ||| ipv4.address,
          { ipv4 with address := ipv4.address + 1 }),
        { net with
          allocated := net.allocated ++ [ipv4.network <<< ipv4.shift ||| ipv4.address] }) := by
  simp [newAddress, addAllocated, guard, hmax, hzero, hfree]

/-- The two ends of a link get the host numbers 1 and 2. -/
theorem assign_run {network : ℕ} {net : Net} (devA devB : NetDevice)
    (h : (net.allocated ++ [network * 256 + 1, network * 256 + 2]).Nodup) :
    let interfaces : List Interface := [⟨devA, network * 256 + 1⟩, ⟨devB, network * 256 + 2⟩]
    ((atNetwork network).assign [devA, devB]).run net =
      some (interfaces,
        { net with
          interfaces := net.interfaces ++ interfaces
          allocated := net.allocated ++ [network * 256 + 1, network * 256 + 2] }) := by
  have hfirst : network * 256 + 1 ∉ net.allocated := by
    intro hmem
    exact List.disjoint_of_nodup_append h hmem (by simp)
  have hsecond : network * 256 + 2 ∉ net.allocated ++ [network * 256 + 1] := by
    intro hmem
    rcases List.mem_append.1 hmem with hold | hnew
    · exact List.disjoint_of_nodup_append h hold (by simp)
    · simp at hnew
  have hone : network <<< 8 ||| 1 = network * 256 + 1 := shiftLeft_or network (by decide)
  have htwo : network <<< 8 ||| 2 = network * 256 + 2 := shiftLeft_or network (by decide)
  simp [assign, newAddress_run, atNetwork, hone, htwo, hfirst, hsecond]

end Ipv4AddressHelper

/-! ## Links -/

/-- A link with its subnet. -/
structure Link where
  channel : Channel
  network : ℕ

namespace Link

/-- The interfaces of the two ends. -/
def interfaces (l : Link) : Ipv4InterfaceContainer :=
  [⟨l.channel.a, l.network * 256 + 1⟩, ⟨l.channel.b, l.network * 256 + 2⟩]

def addresses (l : Link) : List Ipv4Address :=
  [l.network * 256 + 1, l.network * 256 + 2]

theorem map_interfaces (l : Link) : l.interfaces.map Interface.address = l.addresses := rfl

end Link

def Net.addLinks (net : Net) (ls : List Link) : Net where
  numNodes := net.numNodes
  channels := net.channels ++ ls.map Link.channel
  interfaces := net.interfaces ++ ls.flatMap Link.interfaces
  allocated := net.allocated ++ ls.flatMap Link.addresses

/-- A network takes links whose addresses are new. -/
def links : Growth Net Link where
  extend := Net.addLinks
  Fits net ls := (net.allocated ++ ls.flatMap Link.addresses).Nodup
  extend_nil net := by simp [Net.addLinks]
  extend_append net l l' := by simp [Net.addLinks]
  fits_append net l l' := by
    rw [List.flatMap_append, ← List.append_assoc]
    constructor
    · intro h
      exact ⟨h.of_append_left, h⟩
    · rintro ⟨-, h⟩
      exact h

namespace PaxosTopologyClos

/-- One round of a loop over links adds one link. -/
theorem connect_adds (p2p : PointToPointHelper) {subnet : String} {network : ℕ} (a b : ℕ)
    (h : inetPton subnet = some (network * 256)) :
    let link : Link := ⟨⟨⟨a, p2p.dataRate⟩, ⟨b, p2p.dataRate⟩, p2p.delay⟩, network⟩
    links.Adds (connect p2p subnet a b) [link] link.interfaces := by
  intro link net hfits
  have hnodup : (net.allocated ++ [network * 256 + 1, network * 256 + 2]).Nodup := hfits
  let wired : Net := { net with channels := net.channels ++ [link.channel] }
  have hassign : ((Ipv4AddressHelper.atNetwork network).assign
      [link.channel.a, link.channel.b]).run wired =
        some (link.interfaces, links.extend net [link]) :=
    Ipv4AddressHelper.assign_run link.channel.a link.channel.b hnodup
  calc (connect p2p subnet a b).run net
      = ((Ipv4AddressHelper.atNetwork network).assign [link.channel.a, link.channel.b]).run wired := by
        simp [connect, PointToPointHelper.install, Ipv4AddressHelper.setBase_eq h, wired, link]
    _ = some (link.interfaces, links.extend net [link]) := hassign

end PaxosTopologyClos

end SyncPaxos
