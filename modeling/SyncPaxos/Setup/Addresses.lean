import SyncPaxos.Setup.Clos

/-!
# Addresses — whose address a getter returns

Every address of the network belongs to one device, so it makes sense to ask for its node.  The
second end of a link is the leaf for a link between spine and leaf, and the host for a link between
leaf and host.  All three getters take the second end: `GetLeafAddress` and `GetHostAddress` rightly,
and `GetSpineAddress` returns an address of leaf 0.
-/

namespace SyncPaxos

/-- The nodes of the devices with this address. -/
def Net.owners (net : Net) (address : Ipv4Address) : List ℕ :=
  (net.interfaces.filter fun i => i.address = address).map fun i => i.device.node

/-- There is such a node and such an address, and the address is that of one device, on this
node. -/
def Net.Names (net : Net) (node : Option ℕ) (address : Option Ipv4Address) : Prop :=
  ∃ n a, node = some n ∧ address = some a ∧ net.owners a = [n]

/-- Where all values of `f` are different, one element has the value of `x`. -/
theorem filter_eq_singleton {α β : Type} [DecidableEq β] {f : α → β} {xs : List α}
    (h : (xs.map f).Nodup) {x : α} (hx : x ∈ xs) : xs.filter (fun y => f y = f x) = [x] := by
  induction xs with
  | nil =>
      cases hx
  | cons y ys ih =>
      rcases List.nodup_cons.1 h with ⟨hnew, hrest⟩
      rcases List.mem_cons.1 hx with rfl | hx'
      · have hnone : ys.filter (fun y => f y = f x) = [] := by
          apply List.filter_eq_nil_iff.2
          intro z hz heq
          exact hnew (List.mem_map.2 ⟨z, hz, of_decide_eq_true heq⟩)
        simp [hnone]
      · have hne : f y ≠ f x := by
          intro heq
          exact hnew (List.mem_map.2 ⟨x, hx', heq.symm⟩)
        simpa [hne] using ih hrest hx'

/-- With different addresses, the owner of an address is the node of its device. -/
theorem Net.owners_eq {net : Net} (h : (net.interfaces.map Interface.address).Nodup)
    {i : Interface} (hi : i ∈ net.interfaces) : net.owners i.address = [i.device.node] := by
  rw [Net.owners, filter_eq_singleton h hi]
  rfl

namespace PaxosTopologyClos

section Clos

variable {S L H : ℕ} {p2p p2pHost : PointToPointHelper} {config : PaxosConfig}

/-- All addresses of the network are different. -/
theorem nodup_interfaces (hS : S ≤ 256) (hL : L ≤ 256) (hH : H ≤ 256) :
    ((closNet S L H p2p p2pHost).interfaces.map Interface.address).Nodup := by
  have hmap : (closNet S L H p2p p2pHost).interfaces.map Interface.address =
      (closLinks S L H p2p p2pHost).flatMap Link.addresses := by
    simp [closNet, Net.addLinks, List.map_flatMap, Link.map_interfaces]
  rw [hmap]
  exact nodup_addresses (nodup_closLinks hS hL hH)

/-- The address of the second end of a link is that of its second node. -/
theorem owners_second (hS : S ≤ 256) (hL : L ≤ 256) (hH : H ≤ 256) {l : Link}
    (hl : l ∈ closLinks S L H p2p p2pHost) :
    (closNet S L H p2p p2pHost).owners (l.network * 256 + 2) = [l.channel.b.node] := by
  have hmem : (⟨l.channel.b, l.network * 256 + 2⟩ : Interface) ∈
      (closNet S L H p2p p2pHost).interfaces := by
    simp only [closNet, Net.addLinks, List.nil_append]
    exact List.mem_flatMap.2 ⟨l, hl, by simp [Link.interfaces]⟩
  exact Net.owners_eq (nodup_interfaces hS hL hH) hmem

/-- What all getters return: the address of the second end. -/
theorem getAddress_grid {p m n : ℕ} {channel : ℕ → ℕ → Channel} {i j : ℕ} (hi : i < m)
    (hj : j < n) :
    (do
      let row ← (gridMatrix p m n channel)[i]?
      let interfaces ← row[j]?
      interfaces.getAddress 1) = some ((gridLink p channel i j).network * 256 + 2) := by
  rw [gridMatrix_row hi]
  simp [hj, Link.interfaces, Ipv4InterfaceContainer.getAddress]

/-- The address of host `h` of leaf `l`, `20.l.h.2`. -/
def hostAddress (l h : ℕ) : Ipv4Address := ((20 * 256 + l) * 256 + h) * 256 + 2

theorem getHostAddress_eq {l h : ℕ} (hl : l < L) (hh : h < H) :
    (clos S L H p2p p2pHost config).getHostAddress l h = some (hostAddress l h) :=
  getAddress_grid hl hh

theorem hostNode_eq {l h : ℕ} (hl : l < L) (hh : h < H) :
    (clos S L H p2p p2pHost config).hostNode l h = some (S + L + l * H + h) := by
  simp [hostNode, clos, hl, hh]

theorem owners_hostAddress (hS : S ≤ 256) (hL : L ≤ 256) (hH : H ≤ 256) {l h : ℕ} (hl : l < L)
    (hh : h < H) :
    (closNet S L H p2p p2pHost).owners (hostAddress l h) = [S + L + l * H + h] := by
  have hmem : gridLink 20 (leafHost S L H p2pHost) l h ∈ closLinks S L H p2p p2pHost :=
    List.mem_append_right _ (mem_grid.2 ⟨l, hl, h, hh, rfl⟩)
  have howner := owners_second hS hL hH hmem
  exact howner

theorem names_host (hS : S ≤ 256) (hL : L ≤ 256) (hH : H ≤ 256) {l h : ℕ} (hl : l < L)
    (hh : h < H) :
    (closNet S L H p2p p2pHost).Names ((clos S L H p2p p2pHost config).hostNode l h)
      ((clos S L H p2p p2pHost config).getHostAddress l h) :=
  ⟨_, _, hostNode_eq hl hh, getHostAddress_eq hl hh, owners_hostAddress hS hL hH hl hh⟩

theorem names_leaf (hS : S ≤ 256) (hL : L ≤ 256) (hH : H ≤ 256) {s l : ℕ} (hs : s < S)
    (hl : l < L) :
    (closNet S L H p2p p2pHost).Names (clos S L H p2p p2pHost config).leafNodes[l]?
      ((clos S L H p2p p2pHost config).getLeafAddress s l) := by
  have hmem : gridLink 10 (spineLeaf S p2p) s l ∈ closLinks S L H p2p p2pHost :=
    List.mem_append_left _ (mem_grid.2 ⟨s, hs, l, hl, rfl⟩)
  refine ⟨_, _, ?_, getAddress_grid hs hl, owners_second hS hL hH hmem⟩
  simp [clos, hl, gridLink, spineLeaf]

/-- `GetSpineAddress` is `GetLeafAddress` for leaf 0. -/
theorem getSpineAddress_eq (t : PaxosTopologyClos) (s : ℕ) :
    t.getSpineAddress s = t.getLeafAddress s 0 := rfl

/-- It never returns an address of the spine. -/
theorem not_names_spine (hS : S ≤ 256) (hL : L ≤ 256) (hH : H ≤ 256) {s : ℕ} (hs : s < S) :
    ¬ (closNet S L H p2p p2pHost).Names (clos S L H p2p p2pHost config).spineNodes[s]?
      ((clos S L H p2p p2pHost config).getSpineAddress s) := by
  rintro ⟨n, a, hn, ha, howner⟩
  have hself : n = s := by
    have hspine : (clos S L H p2p p2pHost config).spineNodes[s]? = some s := by
      simp [clos, hs]
    exact Option.some.inj (hn.symm.trans hspine)
  rw [getSpineAddress_eq] at ha
  rcases Nat.eq_zero_or_pos L with rfl | hpos
  · -- Without leaves the row is empty.
    simp [getLeafAddress, clos, gridMatrix, hs] at ha
  · have hnames : (closNet S L H p2p p2pHost).Names (clos S L H p2p p2pHost config).leafNodes[0]?
        ((clos S L H p2p p2pHost config).getLeafAddress s 0) :=
      names_leaf hS hL hH hs hpos
    rcases hnames with ⟨n', a', hn', ha', howner'⟩
    have hleaf : n' = S := by
      have hzero : (clos S L H p2p p2pHost config).leafNodes[0]? = some S := by
        simp [clos, hpos]
      exact Option.some.inj (hn'.symm.trans hzero)
    obtain rfl : a = a' := Option.some.inj (ha.symm.trans ha')
    have hnodes : n = n' := List.singleton_inj.1 (howner.symm.trans howner')
    omega

/-! ## The servers -/

/-- Every server knows every server: entry `k` of its list is server `k`, with an address of the
node that this server is on. -/
structure ServersKnown (t : PaxosTopologyClos) (net : Net) (hostIdList : List (ℕ × ℕ)) : Prop where
  length : t.paxosAppServerContainer.length = hostIdList.length
  installed : ∀ (k : ℕ) (host : ℕ × ℕ), hostIdList[k]? = some host →
    ∃ server : PaxosAppServer, t.paxosAppServerContainer[k]? = some server ∧ server.serverId = k ∧
      t.hostNode host.1 host.2 = some server.node
  nodes : ∀ server ∈ t.paxosAppServerContainer, server.nodes.length = hostIdList.length ∧
    ∀ (k : ℕ) (info : NodeInfo), server.nodes[k]? = some info → info.serverId = k ∧
      net.Names (t.paxosAppServerContainer[k]?.map PaxosAppServer.node) (some info.address)

/-- What the first loop of `InitPaxosServerCluster` collects for server `i`. -/
def nodeInfo (host : ℕ × ℕ) (i : ℕ) : NodeInfo where
  serverId := i
  address := hostAddress host.1 host.2
  paxosPort := PAXOS_PORT
  serverPort := SERVER_PORT

def nodeInfos (hostIdList : List (ℕ × ℕ)) : NodeInfoList :=
  hostIdList.zipIdx.map fun p => nodeInfo p.1 p.2

/-- What its second loop installs as server `i`. -/
def server (S L H : ℕ) (config : PaxosConfig) (hostIdList : List (ℕ × ℕ)) (host : ℕ × ℕ) (i : ℕ) :
    PaxosAppServer where
  node := S + L + host.1 * H + host.2
  serverId := i
  nodes := nodeInfos hostIdList
  clockSyncError := config.clockSyncError
  boundedMessageDelay := config.boundedMessageDelay

/-- The object after `InitPaxosServerCluster`. -/
def withServers (S L H : ℕ) (p2p p2pHost : PointToPointHelper) (config : PaxosConfig)
    (hostIdList : List (ℕ × ℕ)) : PaxosTopologyClos :=
  { clos S L H p2p p2pHost config with
    async := !config.isSynchronous
    serverInfoList := nodeInfos hostIdList
    paxosAppServerContainer :=
      hostIdList.zipIdx.map fun p => server S L H config hostIdList p.1 p.2 }

theorem initPaxosServerCluster_eq {hostIdList : List (ℕ × ℕ)}
    (h : ∀ host ∈ hostIdList, host.1 < L ∧ host.2 < H) :
    (clos S L H p2p p2pHost config).initPaxosServerCluster hostIdList =
      some (withServers S L H p2p p2pHost config hostIdList) := by
  have hrange : ∀ p ∈ hostIdList.zipIdx, p.1.1 < L ∧ p.1.2 < H := by
    rintro ⟨host, k⟩ hp
    exact h host (List.fst_mem_of_mem_zipIdx hp)
  have hinfos : (hostIdList.zipIdx.mapM fun p =>
      (clos S L H p2p p2pHost config).collectHostInfo p.1 p.2) = some (nodeInfos hostIdList) := by
    apply Growth.mapM_eq_some
    intro p hp
    rcases hrange p hp with ⟨hl, hh⟩
    rw [collectHostInfo, getHostAddress_eq hl hh]
    rfl
  have hservers : (hostIdList.zipIdx.mapM fun p =>
      (clos S L H p2p p2pHost config).createServer (nodeInfos hostIdList) p.1 p.2) =
        some (hostIdList.zipIdx.map fun p => server S L H config hostIdList p.1 p.2) := by
    apply Growth.mapM_eq_some
    intro p hp
    rcases hrange p hp with ⟨hl, hh⟩
    rw [createServer, hostNode_eq hl hh]
    rfl
  have hnone : (clos S L H p2p p2pHost config).serverInfoList = [] := rfl
  simp only [initPaxosServerCluster, hinfos, hnone, hservers, List.nil_append,
    Option.bind_eq_bind, Option.bind_some]
  rfl

theorem serversKnown (hS : S ≤ 256) (hL : L ≤ 256) (hH : H ≤ 256) {hostIdList : List (ℕ × ℕ)}
    (h : ∀ host ∈ hostIdList, host.1 < L ∧ host.2 < H) :
    (withServers S L H p2p p2pHost config hostIdList).ServersKnown (closNet S L H p2p p2pHost)
      hostIdList := by
  have hserver : ∀ (k : ℕ) (host : ℕ × ℕ), hostIdList[k]? = some host →
      (withServers S L H p2p p2pHost config hostIdList).paxosAppServerContainer[k]? =
        some (server S L H config hostIdList host k) := by
    intro k host hk
    simp [withServers, List.getElem?_zipIdx, hk]
  refine ⟨?_, ?_, ?_⟩
  · simp [withServers]
  · intro k host hk
    rcases h host (List.mem_of_getElem? hk) with ⟨hl, hh⟩
    have hnode : (clos S L H p2p p2pHost config).hostNode host.1 host.2 =
        some (S + L + host.1 * H + host.2) := hostNode_eq hl hh
    exact ⟨_, hserver k host hk, rfl, hnode⟩
  · intro peer hpeer
    rcases List.mem_map.1 hpeer with ⟨p, -, rfl⟩
    refine ⟨by simp [server, nodeInfos], ?_⟩
    intro k info hinfo
    -- Entry `k` was collected for the host that server `k` is installed on.
    have hentry : ∃ host, hostIdList[k]? = some host ∧ nodeInfo host k = info := by
      simpa [server, nodeInfos, List.getElem?_zipIdx] using hinfo
    rcases hentry with ⟨host, hk, rfl⟩
    rcases h host (List.mem_of_getElem? hk) with ⟨hl, hh⟩
    refine ⟨rfl, _, _, ?_, rfl, owners_hostAddress hS hL hH hl hh⟩
    rw [hserver k host hk]
    rfl

end Clos

/-! ## All addresses -/

/-- Addresses are different; those of hosts, of leaves and in the lists of the servers are addresses
of the nodes that they stand for. -/
structure NamesHosts (t : PaxosTopologyClos) (net : Net) (S L H : ℕ) : Prop where
  distinct : (net.interfaces.map Interface.address).Nodup
  hosts : ∀ l < L, ∀ h < H, net.Names (t.hostNode l h) (t.getHostAddress l h)
  leaves : ∀ s < S, ∀ l < L, net.Names t.leafNodes[l]? (t.getLeafAddress s l)
  servers : ∀ hostIdList : List (ℕ × ℕ), (∀ host ∈ hostIdList, host.1 < L ∧ host.2 < H) →
    ∃ t', t.initPaxosServerCluster hostIdList = some t' ∧ t'.ServersKnown net hostIdList

/-- Those of spines are so too. -/
structure AddressesNameNodes (t : PaxosTopologyClos) (net : Net) (S L H : ℕ) : Prop
    extends t.NamesHosts net S L H where
  spines : ∀ s < S, net.Names t.spineNodes[s]? (t.getSpineAddress s)

/-- Only `GetSpineAddress` is wrong, and it is for every spine. -/
theorem addresses_name_nodes_iff {numSpines numLeaves numHostsPerLeaf : ℕ}
    {bandwidthLeaf2Spine delayLeaf2Spine bandwidthHost2Leaf delayHost2Leaf : String}
    {delay delayHost : Time} (config : PaxosConfig) (hS : numSpines ≤ 256) (hL : numLeaves ≤ 256)
    (hH : numHostsPerLeaf ≤ 256) (hdelay : Time.ofText delayLeaf2Spine = some delay)
    (hdelayHost : Time.ofText delayHost2Leaf = some delayHost) :
    ∃ t net,
      (create numSpines numLeaves numHostsPerLeaf bandwidthLeaf2Spine delayLeaf2Spine
        bandwidthHost2Leaf delayHost2Leaf config).run {} = some (t, net) ∧
      t.NamesHosts net numSpines numLeaves numHostsPerLeaf ∧
      (∀ s < numSpines, ¬ net.Names t.spineNodes[s]? (t.getSpineAddress s)) ∧
      (t.AddressesNameNodes net numSpines numLeaves numHostsPerLeaf ↔ numSpines = 0) := by
  have hp2p : PointToPointHelper.ofAttributes bandwidthLeaf2Spine delayLeaf2Spine =
      some ⟨bandwidthLeaf2Spine, delay⟩ := by
    rw [PointToPointHelper.ofAttributes, hdelay]
    rfl
  have hp2pHost : PointToPointHelper.ofAttributes bandwidthHost2Leaf delayHost2Leaf =
      some ⟨bandwidthHost2Leaf, delayHost⟩ := by
    rw [PointToPointHelper.ofAttributes, hdelayHost]
    rfl
  have hnames : (clos numSpines numLeaves numHostsPerLeaf ⟨bandwidthLeaf2Spine, delay⟩
      ⟨bandwidthHost2Leaf, delayHost⟩ config).NamesHosts
      (closNet numSpines numLeaves numHostsPerLeaf ⟨bandwidthLeaf2Spine, delay⟩
        ⟨bandwidthHost2Leaf, delayHost⟩) numSpines numLeaves numHostsPerLeaf :=
    ⟨nodup_interfaces hS hL hH, fun _ hl _ hh => names_host hS hL hH hl hh,
      fun _ hs _ hl => names_leaf hS hL hH hs hl,
      fun _ h => ⟨_, initPaxosServerCluster_eq h, serversKnown hS hL hH h⟩⟩
  refine ⟨_, _, create_run hS hL hH config hp2p hp2pHost, hnames,
    fun _ hs => not_names_spine hS hL hH hs, ?_⟩
  constructor
  · intro h
    by_contra hspine
    have hpos : 0 < numSpines := Nat.pos_of_ne_zero hspine
    exact not_names_spine hS hL hH hpos (h.spines 0 hpos)
  · rintro rfl
    exact ⟨hnames, fun s hs => absurd hs (Nat.not_lt_zero s)⟩

/-- The topology of the program has spines, and is right but for them. -/
theorem addresses_name_nodes_three_spines :
    ∃ t net, (create 3 5 5 "1Gbps" "5us" "1Gbps" "5us" {}).run {} = some (t, net) ∧
      t.NamesHosts net 3 5 5 ∧ ¬ t.AddressesNameNodes net 3 5 5 := by
  have hthree : 3 ≤ 256 := by decide
  have hfive : 5 ≤ 256 := by decide
  have hdelay : Time.ofText "5us" = some 5000 := by decide
  have hcreate : ∃ t net, (create 3 5 5 "1Gbps" "5us" "1Gbps" "5us" {}).run {} = some (t, net) ∧
      t.NamesHosts net 3 5 5 ∧ (∀ s < 3, ¬ net.Names t.spineNodes[s]? (t.getSpineAddress s)) ∧
      (t.AddressesNameNodes net 3 5 5 ↔ 3 = 0) :=
    addresses_name_nodes_iff {} hthree hfive hfive hdelay hdelay
  rcases hcreate with ⟨t, net, hrun, hnames, -, hiff⟩
  exact ⟨t, net, hrun, hnames, fun h => absurd (hiff.1 h) (by decide)⟩

/-- `GetSpineAddress(1)` is the address of leaf 0, node 3, on its link to spine 1, node 1. -/
theorem spine_address_is_leaf :
    ∃ t net, (create 3 5 5 "1Gbps" "5us" "1Gbps" "5us" {}).run {} = some (t, net) ∧
      t.spineNodes[1]? = some 1 ∧ t.leafNodes[0]? = some 3 ∧
      t.getSpineAddress 1 = some (Ipv4Address.ofOctets 10 1 0 2) ∧
      net.owners (Ipv4Address.ofOctets 10 1 0 2) = [3] ∧
      ¬ t.AddressesNameNodes net 3 5 5 := by
  have htest : ((create 3 5 5 "1Gbps" "5us" "1Gbps" "5us" {}).run {}).map (fun p =>
      decide (p.1.spineNodes[1]? = some 1 ∧ p.1.leafNodes[0]? = some 3 ∧
        p.1.getSpineAddress 1 = some (Ipv4Address.ofOctets 10 1 0 2) ∧
        p.2.owners (Ipv4Address.ofOctets 10 1 0 2) = [3])) = some true := by
    decide +kernel
  rcases Option.map_eq_some_iff.1 htest with ⟨⟨t, net⟩, hrun, hgood⟩
  rcases of_decide_eq_true hgood with ⟨hspine, hleaf, haddress, howners⟩
  refine ⟨t, net, hrun, hspine, hleaf, haddress, howners, ?_⟩
  intro h
  rcases h.spines 1 (by decide) with ⟨n, a, hn, ha, howner⟩
  obtain rfl : 1 = n := Option.some.inj (hspine.symm.trans hn)
  obtain rfl : Ipv4Address.ofOctets 10 1 0 2 = a := Option.some.inj (haddress.symm.trans ha)
  exact absurd (howners.symm.trans howner) (by decide)

end PaxosTopologyClos

end SyncPaxos
