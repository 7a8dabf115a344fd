import SyncPaxos.Setup.Addresses

/-!
# Program — what `main` sets up

The durations that `main` and `InitPaxosClientCluster` compute go through a `uint32_t` and a text.
The text changes nothing: a `double` holds every `uint32_t`.  So `main` always comes as far as
`Simulator::Run`, and `main_run` says with which network and which applications.  They are those of
the cluster that the protocol is modelled for (`main_installs`).
-/

namespace SyncPaxos

/-! ## Durations as text -/

theorem ofText_toString (t : ℕ) :
    Time.ofText (toString t ++ "ns") = Time.fromDouble (readTime t) := by
  rcases numeric_toString t with ⟨hnumber, htrailer⟩
  have hdigits : Nat.toDigits 10 t ≠ [] ∧ (Nat.toDigits 10 t).all Char.isDigit := by
    refine ⟨Nat.toDigits_ne_nil, ?_⟩
    apply List.all_eq_true.2
    intro c hc
    exact Nat.isDigit_of_mem_toDigits (by decide) (by decide) hc
  have hfactor : Time.factor "ns".toList = some 1 := by decide
  unfold Time.ofText
  simp only [hnumber, htrailer, hfactor, guard, if_pos hdigits, Nat.ofDigitChars_ten_toDigits]
  simp

/-- A `uint32_t` of nanoseconds comes back through its text. -/
theorem ofText_of_lt {t : ℕ} (h : t < 2 ^ 32) : Time.ofText (toString t ++ "ns") = some t := by
  have htime : IsTime t := h.trans (by decide)
  have hexact : ExactTime t := Rounding.representable_of_lt (h.trans (by decide))
  rw [ofText_toString, (fromDouble_readTime_iff htime).2 hexact]

/-- A client sends at the interval of the configuration. -/
theorem PaxosTopologyClos.createClient_eq {t : PaxosTopologyClos} {spineId node : ℕ}
    (h : t.spineNodes[spineId]? = some node) :
    t.createClient spineId = some
      { node, servers := t.serverInfoList, sendInterval := t.paxosConfig.sendInterval } := by
  have hinterval : (if t.paxosConfig.isSynchronous then
      t.paxosConfig.boundedMessageDelay / 10 % 2 ^ 32
      else t.paxosConfig.linkDelay / 5 % 2 ^ 32) = t.paxosConfig.sendInterval := by
    unfold PaxosConfig.sendInterval PaxosConfig.interval
    split
    · rfl
    · rfl
  have hlt : t.paxosConfig.sendInterval < 2 ^ 32 := Nat.mod_lt _ (by decide)
  simp only [createClient, h, hinterval, ofText_of_lt hlt, Option.bind_eq_bind, Option.bind_some]
  rfl

/-! ## The program -/

namespace Main

open PaxosTopologyClos

/-- The delay of every link. -/
def hopDelay (config : PaxosConfig) : Time :=
  if config.isSynchronous then 5000 else config.linkDelay / 4 % 2 ^ 32

theorem ofText_delay (config : PaxosConfig) :
    Time.ofText (delay config) = some (hopDelay config) := by
  unfold delay hopDelay
  split
  · decide
  · exact ofText_of_lt (Nat.mod_lt _ (by decide))

def p2p (config : PaxosConfig) : PointToPointHelper := ⟨"1Gbps", hopDelay config⟩

/-- The one client, on spine 1. -/
def client (config : PaxosConfig) : PaxosAppClient where
  node := 1
  servers := nodeInfos hostIdList
  sendInterval := config.sendInterval
  startTime := 10 ^ 9
  stopTime := 2 * 10 ^ 9

/-- Server `i`, on host 0 of leaf `i`. -/
def server (config : PaxosConfig) (host : ℕ × ℕ) (i : ℕ) : PaxosAppServer :=
  { PaxosTopologyClos.server 3 5 5 config hostIdList host i with
    startTime := 10 ^ 9
    stopTime := 2 * 10 ^ 9 }

/-- The object once the servers are installed. -/
def installed (config : PaxosConfig) : PaxosTopologyClos :=
  withServers 3 5 5 (p2p config) (p2p config) config hostIdList

/-- The object when the simulation starts. -/
def topology (config : PaxosConfig) : PaxosTopologyClos :=
  { installed config with
    paxosAppServerContainer := hostIdList.zipIdx.map fun p => server config p.1 p.2
    paxosAppClientContainer := [client config] }

def net (config : PaxosConfig) : Net := closNet 3 5 5 (p2p config) (p2p config)

/-- What `main` has set up when the simulation starts. -/
theorem main_run (config : PaxosConfig) :
    (main config).run {} = some (topology config, net config) := by
  have hp2p : PointToPointHelper.ofAttributes "1Gbps" (delay config) = some (p2p config) := by
    rw [PointToPointHelper.ofAttributes, ofText_delay]
    rfl
  have hcreate : (create numSpine numLeaf numHostsPerLeaf "1Gbps" (delay config) "1Gbps"
      (delay config) config).run {} =
        some (clos 3 5 5 (p2p config) (p2p config) config, net config) :=
    create_run (by decide) (by decide) (by decide) config hp2p hp2p
  have hservers : (clos 3 5 5 (p2p config) (p2p config) config).initPaxosServerCluster hostIdList =
      some (installed config) :=
    initPaxosServerCluster_eq (by decide)
  have hclient : (installed config).createClient 1 =
      some { client config with startTime := 0, stopTime := 0 } :=
    createClient_eq rfl
  have hclients : (installed config).initPaxosClientCluster [numSpine / 2] =
      some { installed config with
        paxosAppClientContainer := [{ client config with startTime := 0, stopTime := 0 }] } := by
    have hspine : numSpine / 2 = 1 := by decide
    rw [hspine, initPaxosClientCluster, List.mapM_cons, hclient]
    rfl
  rw [main, Growth.run_bind_of hcreate, Growth.run_bind_of (Growth.run_lift hservers _),
    Growth.run_bind_of (Growth.run_lift hclients _)]
  rfl

end Main

/-! ## The cluster -/

/-- The node that an application is installed on. -/
def PaxosTopologyClos.appNode (t : PaxosTopologyClos) : App → Option ℕ
  | .client k => t.paxosAppClientContainer[k]?.map PaxosAppClient.node
  | .server i => t.paxosAppServerContainer[i]?.map PaxosAppServer.node

/-- The list is that of the servers of the cluster: what is sent to the address of entry `k` goes to
the node of server `k`. -/
structure PaxosTopologyClos.Lists (t : PaxosTopologyClos) (net : Net) (C : Cluster)
    (nodes : NodeInfoList) : Prop where
  serverIds : nodes.map NodeInfo.serverId = C.nodes
  addresses : ∀ (k : ℕ) (info : NodeInfo), nodes[k]? = some info →
    net.Names (t.appNode (.server k)) (some info.address)

/-- The applications of `t` are those of the cluster, with the times of the cluster, and are
initialised in the order of their nodes. -/
structure PaxosTopologyClos.Installs (t : PaxosTopologyClos) (net : Net) (C : Cluster) : Prop where
  servers : t.paxosAppServerContainer.length = C.numNodes
  clients : t.paxosAppClientContainer.length = C.numClients
  async : t.async = C.async
  server : ∀ (i : ℕ) (s : PaxosAppServer), t.paxosAppServerContainer[i]? = some s →
    s.serverId = i ∧ t.Lists net C s.nodes ∧
      s.clockSyncError = C.clockSyncError ∧ s.boundedMessageDelay = C.boundedMessageDelay ∧
      s.startTime = C.startTime ∧ s.stopTime = C.stopTime
  client : ∀ c ∈ t.paxosAppClientContainer, t.Lists net C c.servers ∧
    c.sendInterval = C.sendInterval ∧ c.startTime = C.clientStartTime ∧
      c.stopTime = C.clientStopTime
  order : (C.initOrder.filterMap t.appNode).Pairwise (· < ·)

/-- Entry `k` of the list is server `k`. -/
theorem nodeInfos_serverId (hostIdList : List (ℕ × ℕ)) :
    (PaxosTopologyClos.nodeInfos hostIdList).map NodeInfo.serverId =
      List.range hostIdList.length := by
  rw [PaxosTopologyClos.nodeInfos, List.map_map, List.range_eq_range', ← List.zipIdx_map_snd]
  rfl

namespace Main

open PaxosTopologyClos

/-- The cluster of the program, but for its configuration. -/
def cluster (lastServerId : ℕ → ℕ) : Cluster where
  numNodes := 5
  numNodes_lt := by decide
  numClients := 1
  async := false
  clockSyncError := 0
  boundedMessageDelay := 0
  startTime := 10 ^ 9
  stopTime := 2 * 10 ^ 9
  clientStartTime := 10 ^ 9
  clientStopTime := 2 * 10 ^ 9
  sendInterval := 0
  lastServerId := lastServerId
  initOrder := .client 0 :: (List.range 5).map .server
  initOrder_perm := List.Perm.refl _

/-- The list of the program, as all its applications have it. -/
theorem lists (config : PaxosConfig) (lastServerId : ℕ → ℕ) :
    (topology config).Lists (net config) (config.install (cluster lastServerId))
      (nodeInfos hostIdList) := by
  refine ⟨nodeInfos_serverId hostIdList, ?_⟩
  intro k info hinfo
  have hentry : ∃ host, hostIdList[k]? = some host ∧ nodeInfo host k = info := by
    simpa [nodeInfos, List.getElem?_zipIdx] using hinfo
  rcases hentry with ⟨host, hk, rfl⟩
  have hrange : ∀ host ∈ hostIdList, host.1 < 5 ∧ host.2 < 5 := by decide
  rcases hrange host (List.mem_of_getElem? hk) with ⟨hl, hh⟩
  have hnode : (topology config).appNode (.server k) = some (3 + 5 + host.1 * 5 + host.2) := by
    simp [PaxosTopologyClos.appNode, topology, List.getElem?_zipIdx, hk, server,
      PaxosTopologyClos.server]
  exact ⟨_, _, hnode, rfl, owners_hostAddress (by decide) (by decide) (by decide) hl hh⟩

/-- `main` sets up this cluster. -/
theorem main_installs (config : PaxosConfig) (lastServerId : ℕ → ℕ) :
    (topology config).Installs (net config) (config.install (cluster lastServerId)) := by
  have hlists := lists config lastServerId
  refine ⟨rfl, rfl, rfl, ?_, ?_, ?_⟩
  · intro i s hs
    have hserver : ∃ host, hostIdList[i]? = some host ∧ server config host i = s := by
      simpa [topology, List.getElem?_zipIdx] using hs
    rcases hserver with ⟨host, -, rfl⟩
    exact ⟨rfl, hlists, rfl, rfl, rfl, rfl⟩
  · intro c hc
    obtain rfl : c = client config := List.mem_singleton.1 hc
    exact ⟨hlists, rfl, rfl, rfl⟩
  · change [1, 8, 13, 18, 23, 28].Pairwise (· < ·)
    decide

end Main

end SyncPaxos
