import SyncPaxos.Model.Address
import SyncPaxos.Model.Config

/-!
# Topology — the Clos network and what runs on it (paxos-topology-clos, paxos-main)

The constructor links every spine to every leaf and every leaf to its hosts, with a subnet of its
own for each link.  `InitPaxosServerCluster` and `InitPaxosClientCluster` install the applications;
both always return 0.

`none` also stands for an index that is out of range.  The matrices of links, which nothing reads,
and the routing tables are left out.
-/

namespace SyncPaxos

def PAXOS_PORT : ℕ := 9000
def SERVER_PORT : ℕ := 9001

structure NodeInfo where
  serverId : ℕ
  address : Ipv4Address
  paxosPort : ℕ
  serverPort : ℕ
  deriving DecidableEq, Repr

abbrev NodeInfoList := List NodeInfo

/-- A `PaxosAppServer` on its node, as it is set up. -/
structure PaxosAppServer where
  node : ℕ
  serverId : ℕ
  nodes : NodeInfoList
  clockSyncError : Time
  boundedMessageDelay : Time
  startTime : Time := 0
  stopTime : Time := 0
  deriving DecidableEq, Repr

/-- A `PaxosAppClient` on its node, as it is set up. -/
structure PaxosAppClient where
  node : ℕ
  servers : NodeInfoList
  sendInterval : Time
  startTime : Time := 0
  stopTime : Time := 0
  deriving DecidableEq, Repr

structure PaxosTopologyClos where
  spineNodes : NodeContainer
  leafNodes : NodeContainer
  hostNodes : List NodeContainer
  spineLeafInterfaceMatrix : List (List Ipv4InterfaceContainer)
  hostLeafInterfaceMatrix : List (List Ipv4InterfaceContainer)
  serverInfoList : NodeInfoList := []
  paxosAppServerContainer : List PaxosAppServer := []
  paxosAppClientContainer : List PaxosAppClient := []
  paxosConfig : PaxosConfig
  /-- `PaxosAppServer::s_async`. -/
  async : Bool := false
  deriving DecidableEq, Repr

namespace PaxosTopologyClos

/-! ## The constructor -/

def spineLeafSubnet (i j : ℕ) : String := s!"10.{i}.{j}.0"

def leafHostSubnet (i j : ℕ) : String := s!"20.{i}.{j}.0"

/-- One round of both loops over links: the link from `a` to `b`, with addresses of `subnet`. -/
def connect (p2p : PointToPointHelper) (subnet : String) (a b : ℕ) : Setup Ipv4InterfaceContainer := do
  let link ← p2p.install a b
  -- The last argument is the default.
  let ipv4 ← Ipv4AddressHelper.setBase subnet "255.255.255.0" "0.0.0.1"
  ipv4.assign link

def create (numSpines numLeaves numHostsPerLeaf : ℕ)
    (bandwidthLeaf2Spine delayLeaf2Spine bandwidthHost2Leaf delayHost2Leaf : String)
    (paxosConfig : PaxosConfig) : Setup PaxosTopologyClos := do
  let spineNodes ← NodeContainer.create numSpines
  let leafNodes ← NodeContainer.create numLeaves
  let hostNodes ← (List.range numLeaves).mapM fun _ => NodeContainer.create numHostsPerLeaf
  -- Create point-to-point links between spine and leaf
  let p2p ← PointToPointHelper.ofAttributes bandwidthLeaf2Spine delayLeaf2Spine
  let spineLeafInterfaceMatrix ← (List.range numSpines).mapM fun i =>
    (List.range numLeaves).mapM fun j => do
      let spine ← spineNodes[i]?
      let leaf ← leafNodes[j]?
      connect p2p (spineLeafSubnet i j) spine leaf
  -- Create point-to-point links between leaf and host
  let p2pHost ← PointToPointHelper.ofAttributes bandwidthHost2Leaf delayHost2Leaf
  let hostLeafInterfaceMatrix ← (List.range numLeaves).mapM fun i =>
    (List.range numHostsPerLeaf).mapM fun j => do
      let leaf ← leafNodes[i]?
      let hosts ← hostNodes[i]?
      let host ← hosts[j]?
      connect p2pHost (leafHostSubnet i j) leaf host
  return {
    spineNodes, leafNodes, hostNodes, spineLeafInterfaceMatrix, hostLeafInterfaceMatrix
    paxosConfig }

/-! ## The addresses -/

def getSpineAddress (t : PaxosTopologyClos) (spineId : ℕ) : Option Ipv4Address := do
  let row ← t.spineLeafInterfaceMatrix[spineId]?
  let interfaces ← row[0]?
  interfaces.getAddress 1

def getLeafAddress (t : PaxosTopologyClos) (spineId leafId : ℕ) : Option Ipv4Address := do
  let row ← t.spineLeafInterfaceMatrix[spineId]?
  let interfaces ← row[leafId]?
  interfaces.getAddress 1

def getHostAddress (t : PaxosTopologyClos) (leafId hostId : ℕ) : Option Ipv4Address := do
  let row ← t.hostLeafInterfaceMatrix[leafId]?
  let interfaces ← row[hostId]?
  interfaces.getAddress 1

/-! ## The applications -/

/-- `m_hostNodes[leafId].Get(hostId)`. -/
def hostNode (t : PaxosTopologyClos) (leafId hostId : ℕ) : Option ℕ := do
  let hosts ← t.hostNodes[leafId]?
  hosts[hostId]?

/-- Collect all hosts Info: entry `i`. -/
def collectHostInfo (t : PaxosTopologyClos) (host : ℕ × ℕ) (i : ℕ) : Option NodeInfo := do
  let hostAddress ← t.getHostAddress host.1 host.2
  return {
    serverId := i
    address := hostAddress
    serverPort := SERVER_PORT
    paxosPort := PAXOS_PORT }

/-- Create PaxosAppServer `i` and Install on its node. -/
def createServer (t : PaxosTopologyClos) (serverInfoList : NodeInfoList) (host : ℕ × ℕ) (i : ℕ) :
    Option PaxosAppServer := do
  let node ← t.hostNode host.1 host.2
  return {
    node
    serverId := i
    nodes := serverInfoList
    clockSyncError := t.paxosConfig.clockSyncError
    boundedMessageDelay := t.paxosConfig.boundedMessageDelay }

def initPaxosServerCluster (t : PaxosTopologyClos) (hostIdList : List (ℕ × ℕ)) :
    Option PaxosTopologyClos := do
  let nodeInfos ← hostIdList.zipIdx.mapM fun p => t.collectHostInfo p.1 p.2
  let serverInfoList := t.serverInfoList ++ nodeInfos
  let servers ← hostIdList.zipIdx.mapM fun p => t.createServer serverInfoList p.1 p.2
  return { t with
    async := !t.paxosConfig.isSynchronous
    serverInfoList
    paxosAppServerContainer := t.paxosAppServerContainer ++ servers }

/-- Create PaxosAppClient and Install on this node. -/
def createClient (t : PaxosTopologyClos) (spineId : ℕ) : Option PaxosAppClient := do
  let node ← t.spineNodes[spineId]?
  -- `uint32_t interval`
  let interval :=
    if t.paxosConfig.isSynchronous then t.paxosConfig.boundedMessageDelay / 10 % 2 ^ 32
    else t.paxosConfig.linkDelay / 5 % 2 ^ 32
  let sendInterval ← Time.ofText (toString interval ++ "ns")
  return { node, servers := t.serverInfoList, sendInterval }

def initPaxosClientCluster (t : PaxosTopologyClos) (spineIdList : List ℕ) :
    Option PaxosTopologyClos := do
  let clients ← spineIdList.mapM fun spineId => t.createClient spineId
  return { t with paxosAppClientContainer := t.paxosAppClientContainer ++ clients }

def setPaxosServerAppStartStop (t : PaxosTopologyClos) (start stop : Time) : PaxosTopologyClos :=
  { t with
    paxosAppServerContainer := t.paxosAppServerContainer.map fun s =>
      { s with startTime := start, stopTime := stop } }

def setPaxosClientAppStartStop (t : PaxosTopologyClos) (start stop : Time) : PaxosTopologyClos :=
  { t with
    paxosAppClientContainer := t.paxosAppClientContainer.map fun c =>
      { c with startTime := start, stopTime := stop } }

end PaxosTopologyClos

/-! ## The program -/

namespace Main

def numSpine : ℕ := 3
def numLeaf : ℕ := 5
def numHostsPerLeaf : ℕ := 5

/-- `delayLeaf2Spine` and `delayHost2Leaf`. -/
def delay (config : PaxosConfig) : String :=
  if config.isSynchronous then
    "5us"
  else
    -- `uint32_t delay`; there are four hops.
    let delay := config.linkDelay / 4 % 2 ^ 32
    toString delay ++ "ns"

def hostIdList : List (ℕ × ℕ) := (List.range numLeaf).map fun i => (i, 0)

/-- `main` up to `Simulator::Run`. -/
def main (config : PaxosConfig) : Setup PaxosTopologyClos := do
  let topology ← PaxosTopologyClos.create numSpine numLeaf numHostsPerLeaf
    "1Gbps" (delay config) "1Gbps" (delay config) config
  let topology ← topology.initPaxosServerCluster hostIdList
  let topology ← topology.initPaxosClientCluster [numSpine / 2]
  let start := 10 ^ 9
  let stop := 2 * 10 ^ 9
  return (topology.setPaxosServerAppStartStop start stop).setPaxosClientAppStartStop start stop

end Main

end SyncPaxos
