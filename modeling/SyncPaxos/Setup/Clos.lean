import Mathlib.Data.List.Nodup
import SyncPaxos.Setup.Subnets

/-!
# Clos — what the constructor builds

Both loops over links fill a grid: round `(i, j)` adds one link, with the subnet `p.i.j.0` for a
`p` of the loop.  Up to 256 rows and columns the subnets of a grid are different, and so are those
of the two grids.  From there the constructor always succeeds, and `create_run` says with what.
-/

namespace SyncPaxos

/-! ## Grids of links -/

section Grid

variable (p m n : ℕ) (channel : ℕ → ℕ → Channel)

/-- The link of round `(i, j)`. -/
def gridLink (i j : ℕ) : Link := ⟨channel i j, (p * 256 + i) * 256 + j⟩

def grid : List Link :=
  (List.range m).flatMap fun i => (List.range n).map fun j => gridLink p channel i j

/-- The matrix of interface containers of a grid. -/
def gridMatrix : List (List Ipv4InterfaceContainer) :=
  (List.range m).map fun i => (List.range n).map fun j => (gridLink p channel i j).interfaces

variable {p m n channel}

theorem mem_grid {l : Link} :
    l ∈ grid p m n channel ↔ ∃ i < m, ∃ j < n, l = gridLink p channel i j := by
  simp [grid, eq_comm]

theorem gridMatrix_row {i : ℕ} (hi : i < m) :
    (gridMatrix p m n channel)[i]? =
      some ((List.range n).map fun j => (gridLink p channel i j).interfaces) := by
  simp [gridMatrix, hi]

/-- Two nested loops whose rounds add one link each add the grid. -/
theorem grid_adds {body : ℕ → ℕ → Setup Ipv4InterfaceContainer}
    (h : ∀ i < m, ∀ j < n,
      links.Adds (body i j) [gridLink p channel i j] (gridLink p channel i j).interfaces) :
    links.Adds ((List.range m).mapM fun i => (List.range n).mapM fun j => body i j)
      (grid p m n channel) (gridMatrix p m n channel) := by
  apply Growth.Adds.mapM
  intro i hi
  rw [List.map_eq_flatMap]
  apply Growth.Adds.mapM
  intro j hj
  exact h i (List.mem_range.1 hi) j (List.mem_range.1 hj)

/-- The first number of a subnet tells the grid. -/
theorem network_div (hm : m ≤ 256) (hn : n ≤ 256) {l : Link} (hl : l ∈ grid p m n channel) :
    l.network / 65536 = p := by
  rcases mem_grid.1 hl with ⟨i, hi, j, hj, rfl⟩
  simp only [gridLink]
  omega

/-- No two links of a grid have one subnet. -/
theorem nodup_networks (hn : n ≤ 256) :
    ((grid p m n channel).map Link.network).Nodup := by
  rw [grid, List.map_flatMap]
  apply List.nodup_flatMap.2
  refine ⟨?_, ?_⟩
  · intro i _
    rw [List.map_map]
    apply List.Nodup.map _ List.nodup_range
    intro j j' hj
    exact Nat.add_left_cancel hj
  · apply List.Nodup.pairwise_of_forall_ne List.nodup_range
    intro i hi i' hi' hne x hx hx'
    simp only [List.map_map, List.mem_map, List.mem_range, Function.comp, gridLink] at hx hx'
    rcases hx with ⟨j, hj, rfl⟩
    rcases hx' with ⟨j', hj', heq⟩
    apply hne
    omega

end Grid

/-- An address tells its subnet. -/
theorem address_div {l : Link} {x : ℕ} (h : x ∈ l.addresses) : x / 256 = l.network := by
  rcases List.mem_pair.1 h with rfl | rfl
  · omega
  · omega

/-- Different subnets have different addresses. -/
theorem nodup_addresses {ls : List Link} (h : (ls.map Link.network).Nodup) :
    (ls.flatMap Link.addresses).Nodup := by
  apply List.nodup_flatMap.2
  refine ⟨?_, ?_⟩
  · intro l _
    simp [Link.addresses]
  · refine (List.pairwise_map.1 h).imp ?_
    intro l l' hne x hx hx'
    exact hne ((address_div hx).symm.trans (address_div hx'))

/-! ## Nodes -/

theorem create_nodes_run (n : ℕ) (net : Net) :
    (NodeContainer.create n).run net =
      some ((List.range n).map (net.numNodes + ·), { net with numNodes := net.numNodes + n }) :=
  rfl

/-- The hosts of the leaves are numbered leaf by leaf. -/
theorem create_hosts_run (n : ℕ) (xs : List ℕ) (net : Net) :
    (xs.mapM fun _ => NodeContainer.create n).run net =
      some ((List.range xs.length).map fun l => (List.range n).map (net.numNodes + l * n + ·),
        { net with numNodes := net.numNodes + xs.length * n }) := by
  induction xs generalizing net with
  | nil =>
      simp
  | cons x xs ih =>
      have hshift : ∀ l, net.numNodes + n + l * n = net.numNodes + (l + 1) * n := by
        intro l
        ring
      rw [List.mapM_cons, StateT.run_bind, create_nodes_run]
      simp [ih, hshift, List.range_succ_eq_map, Function.comp_def]

/-! ## The constructor -/

namespace PaxosTopologyClos

section Create

variable (S L H : ℕ) (p2p p2pHost : PointToPointHelper)

/-- The channel between spine `i` and leaf `j`. -/
def spineLeaf (i j : ℕ) : Channel := ⟨⟨i, p2p.dataRate⟩, ⟨S + j, p2p.dataRate⟩, p2p.delay⟩

/-- The channel between leaf `i` and its host `j`. -/
def leafHost (i j : ℕ) : Channel :=
  ⟨⟨S + i, p2pHost.dataRate⟩, ⟨S + L + i * H + j, p2pHost.dataRate⟩, p2pHost.delay⟩

def closLinks : List Link :=
  grid 10 S L (spineLeaf S p2p) ++ grid 20 L H (leafHost S L H p2pHost)

/-- The network that the constructor leaves. -/
def closNet : Net := Net.addLinks { numNodes := S + L + L * H } (closLinks S L H p2p p2pHost)

/-- The object that it leaves. -/
def clos (config : PaxosConfig) : PaxosTopologyClos where
  spineNodes := List.range S
  leafNodes := (List.range L).map (S + ·)
  hostNodes := (List.range L).map fun l => (List.range H).map (S + L + l * H + ·)
  spineLeafInterfaceMatrix := gridMatrix 10 S L (spineLeaf S p2p)
  hostLeafInterfaceMatrix := gridMatrix 20 L H (leafHost S L H p2pHost)
  paxosConfig := config

variable {S L H p2p p2pHost}

/-- All subnets of the network are different. -/
theorem nodup_closLinks (hS : S ≤ 256) (hL : L ≤ 256) (hH : H ≤ 256) :
    ((closLinks S L H p2p p2pHost).map Link.network).Nodup := by
  rw [closLinks, List.map_append]
  apply List.nodup_append'.2
  refine ⟨nodup_networks hL, nodup_networks hH, ?_⟩
  intro x hx hx'
  rcases List.mem_map.1 hx with ⟨l, hl, rfl⟩
  rcases List.mem_map.1 hx' with ⟨l', hl', heq⟩
  have hten : l.network / 65536 = 10 := network_div hS hL hl
  have htwenty : l'.network / 65536 = 20 := network_div hL hH hl'
  rw [heq, hten] at htwenty
  exact absurd htwenty (by decide)

/-- The links between spines and leaves. -/
theorem spineLeaf_adds (hS : S ≤ 256) (hL : L ≤ 256) :
    links.Adds
      ((List.range S).mapM fun i => (List.range L).mapM fun j => do
        let spine ← (List.range S)[i]?
        let leaf ← ((List.range L).map (S + ·))[j]?
        connect p2p (spineLeafSubnet i j) spine leaf)
      (grid 10 S L (spineLeaf S p2p)) (gridMatrix 10 S L (spineLeaf S p2p)) := by
  apply grid_adds
  intro i hi j hj
  have hspine : (List.range S)[i]? = some i := List.getElem?_range hi
  have hleaf : ((List.range L).map (S + ·))[j]? = some (S + j) := by
    simp [hj]
  refine Growth.Adds.bind_nil (Growth.Adds.lift hspine) ?_
  refine Growth.Adds.bind_nil (Growth.Adds.lift hleaf) ?_
  apply connect_adds
  exact inetPton_spineLeafSubnet (by omega) (by omega)

/-- The links between leaves and hosts. -/
theorem leafHost_adds (hL : L ≤ 256) (hH : H ≤ 256) :
    links.Adds
      ((List.range L).mapM fun i => (List.range H).mapM fun j => do
        let leaf ← ((List.range L).map (S + ·))[i]?
        let hosts ← ((List.range L).map fun l => (List.range H).map (S + L + l * H + ·))[i]?
        let host ← hosts[j]?
        connect p2pHost (leafHostSubnet i j) leaf host)
      (grid 20 L H (leafHost S L H p2pHost)) (gridMatrix 20 L H (leafHost S L H p2pHost)) := by
  apply grid_adds
  intro i hi j hj
  have hleaf : ((List.range L).map (S + ·))[i]? = some (S + i) := by
    simp [hi]
  have hhosts : ((List.range L).map fun l => (List.range H).map (S + L + l * H + ·))[i]? =
      some ((List.range H).map (S + L + i * H + ·)) := by
    simp [hi]
  have hhost : ((List.range H).map (S + L + i * H + ·))[j]? = some (S + L + i * H + j) := by
    simp [hj]
  refine Growth.Adds.bind_nil (Growth.Adds.lift hleaf) ?_
  refine Growth.Adds.bind_nil (Growth.Adds.lift hhosts) ?_
  refine Growth.Adds.bind_nil (Growth.Adds.lift hhost) ?_
  apply connect_adds
  exact inetPton_leafHostSubnet (by omega) (by omega)

/-- Up to 256 of each, and with delays that can be read, the constructor succeeds. -/
theorem create_run (hS : S ≤ 256) (hL : L ≤ 256) (hH : H ≤ 256)
    {bandwidth delay bandwidthHost delayHost : String} (config : PaxosConfig)
    (hp2p : PointToPointHelper.ofAttributes bandwidth delay = some p2p)
    (hp2pHost : PointToPointHelper.ofAttributes bandwidthHost delayHost = some p2pHost) :
    (create S L H bandwidth delay bandwidthHost delayHost config).run {} =
      some (clos S L H p2p p2pHost config, closNet S L H p2p p2pHost) := by
  have hfits : links.Fits { numNodes := S + L + L * H } (closLinks S L H p2p p2pHost) :=
    nodup_addresses (nodup_closLinks hS hL hH)
  have hspines : (NodeContainer.create S).run {} = some (List.range S, { numNodes := S }) := by
    simp [create_nodes_run]
  have hleaves : (NodeContainer.create L).run { numNodes := S } =
      some ((List.range L).map (S + ·), { numNodes := S + L }) :=
    create_nodes_run L { numNodes := S }
  have hhosts : ((List.range L).mapM fun _ => NodeContainer.create H).run { numNodes := S + L } =
      some ((List.range L).map fun l => (List.range H).map (S + L + l * H + ·),
        { numNodes := S + L + L * H }) := by
    simp [create_hosts_run]
  rw [create, Growth.run_bind_of hspines, Growth.run_bind_of hleaves, Growth.run_bind_of hhosts]
  -- From here on only links are added.
  refine Growth.Adds.bind_nil (Growth.Adds.lift hp2p) ?_ _ hfits
  refine Growth.Adds.bind (spineLeaf_adds hS hL) ?_
  refine Growth.Adds.bind_nil (Growth.Adds.lift hp2pHost) ?_
  exact Growth.Adds.bind_pure (leafHost_adds hL hH)

end Create

end PaxosTopologyClos

end SyncPaxos
