import SyncPaxos.Library.LeafSpine
import SyncPaxos.Setup.Durations

/-!
# Routes — the shortest ways through the network

The network that the constructor builds has two layers.  Between hosts of different leaves the
shortest ways have four links, there is one over each spine, and no other has this length; so whatever
shortest ways the routing tables choose, a frame takes twice the delay of a host link and twice that of
a spine link (`shortest_routes`).  In the program this is the four hops that `main` divides the delay by
(`server_routes`).
-/

namespace SyncPaxos

instance (c : Channel) (x y : ℕ) : Decidable (c.Joins x y) := inferInstanceAs (Decidable (_ ∨ _))

theorem Channel.Joins.symm {c : Channel} {x y : ℕ} (h : c.Joins x y) : c.Joins y x := Or.symm h

namespace Net

/-- Nodes with a channel between them are neighbours. -/
def graph (net : Net) : SimpleGraph ℕ where
  Adj x y := x ≠ y ∧ ∃ c ∈ net.channels, c.Joins x y
  symm := ⟨fun _ _ h => ⟨h.1.symm, h.2.imp fun _ hc => ⟨hc.1, hc.2.symm⟩⟩⟩
  loopless := ⟨fun _ h => h.1 rfl⟩

/-- The delay of the channel between two nodes. -/
def delay? (net : Net) (x y : ℕ) : Option Time :=
  (net.channels.find? (fun c => c.Joins x y)).map Channel.delay

/-- The sum of the delays on a way, given by its nodes. -/
def travelTime (net : Net) : List ℕ → Option Time
  | x :: y :: way => do
      let first ← net.delay? x y
      let rest ← net.travelTime (y :: way)
      return first + rest
  | _ => some 0

/-- The shortest ways from `x` to `y` have `n` links.  They are those listed, and each takes `d`. -/
structure ShortestWays (net : Net) (x y n : ℕ) (ways : List (List ℕ)) (d : Time) : Prop where
  least : ∀ p : net.graph.Walk x y, n ≤ p.length
  walks : ∀ way, way ∈ ways ↔ ∃ p : net.graph.Walk x y, p.length = n ∧ p.support = way
  nodup : ways.Nodup
  time : ∀ way ∈ ways, net.travelTime way = some d

theorem Hop.symm {net : Net} {d : Time} {x y : ℕ} (h : net.Hop d x y) : net.Hop d y x :=
  ⟨h.1.imp fun _ hc => ⟨hc.1, hc.2.symm⟩, fun c hc hj => h.2 c hc hj.symm⟩

theorem delay?_of_hop {net : Net} {d : Time} {x y : ℕ} (h : net.Hop d x y) :
    net.delay? x y = some d := by
  rcases h with ⟨⟨c, hc, hj⟩, hall⟩
  have hsome : (net.channels.find? (fun c => c.Joins x y)).isSome := by
    rw [List.find?_isSome]
    exact ⟨c, hc, decide_eq_true hj⟩
  rcases Option.isSome_iff_exists.1 hsome with ⟨found, hfound⟩
  have hjoins : found.Joins x y := by
    simpa using List.find?_some hfound
  rw [delay?, hfound, Option.map_some, hall found (List.mem_of_find?_eq_some hfound) hjoins]

theorem travelTime_singleton (net : Net) (x : ℕ) : net.travelTime [x] = some 0 := rfl

/-- A neighbour in front. -/
theorem travelTime_of_hops {net : Net} {d e : Time} {x y : ℕ} {way : List ℕ} (hhop : net.Hop d x y)
    (hrest : net.travelTime (y :: way) = some e) :
    net.travelTime (x :: y :: way) = some (d + e) := by
  rw [travelTime, delay?_of_hop hhop, hrest]
  rfl

end Net

namespace PaxosTopologyClos

open LeafSpine

section Clos

variable (S L H : ℕ) (p2p p2pHost : PointToPointHelper)

/-- The network in two layers. -/
abbrev layers : SimpleGraph (Node (Fin S) (Fin L) (Fin L × Fin H)) := LeafSpine.graph (Fin S) Prod.fst

/-- The number that a node is created with. -/
def number : Node (Fin S) (Fin L) (Fin L × Fin H) → ℕ
  | .spine s => s
  | .leaf l => S + l
  | .host h => S + L + h.1 * H + h.2

variable {S L H p2p p2pHost}

theorem number_injective : Function.Injective (number S L H) := by
  have hhost : ∀ h : Fin L × Fin H, (h.1 * H + h.2 : ℕ) / H = h.1 ∧ (h.1 * H + h.2 : ℕ) % H = h.2 := by
    intro h
    have hpos : 0 < H := (Nat.zero_le _).trans_lt h.2.isLt
    refine ⟨?_, ?_⟩
    · rw [Nat.add_comm, Nat.add_mul_div_right _ _ hpos, Nat.div_eq_of_lt h.2.isLt, Nat.zero_add]
    · rw [Nat.add_comm, Nat.add_mul_mod_self_right, Nat.mod_eq_of_lt h.2.isLt]
  -- Spines, leaves and hosts have ranges of their own; a host is told by quotient and remainder.
  intro m n heq
  cases m with
  | spine s =>
      cases n <;> simp only [number] at heq <;> first | omega | exact congrArg _ (Fin.ext heq)
  | leaf l =>
      cases n <;> simp only [number] at heq <;>
        first | omega | exact congrArg _ (Fin.ext (Nat.add_left_cancel heq))
  | host h =>
      cases n with
      | host k =>
          have hsum : (h.1 * H + h.2 : ℕ) = k.1 * H + k.2 := by
            simp only [number] at heq
            omega
          have hfst : (h.1 : ℕ) = k.1 := by rw [← (hhost h).1, hsum, (hhost k).1]
          have hsnd : (h.2 : ℕ) = k.2 := by rw [← (hhost h).2, hsum, (hhost k).2]
          exact congrArg _ (Prod.ext (Fin.ext hfst) (Fin.ext hsnd))
      | _ =>
          simp only [number] at heq
          omega

/-! ### Links -/

theorem mem_channels {c : Channel} : c ∈ (closNet S L H p2p p2pHost).channels ↔
    (∃ i < S, ∃ j < L, c = spineLeaf S p2p i j) ∨
      ∃ i < L, ∃ j < H, c = leafHost S L H p2pHost i j := by
  have hchannels : (closNet S L H p2p p2pHost).channels =
      (closLinks S L H p2p p2pHost).map Link.channel := by
    simp [closNet, Net.addLinks]
  rw [hchannels, closLinks, List.map_append, List.mem_append, List.mem_map, List.mem_map]
  constructor
  · rintro (⟨l, hl, rfl⟩ | ⟨l, hl, rfl⟩)
    · rcases mem_grid.1 hl with ⟨i, hi, j, hj, rfl⟩
      exact .inl ⟨i, hi, j, hj, rfl⟩
    · rcases mem_grid.1 hl with ⟨i, hi, j, hj, rfl⟩
      exact .inr ⟨i, hi, j, hj, rfl⟩
  · rintro (⟨i, hi, j, hj, rfl⟩ | ⟨i, hi, j, hj, rfl⟩)
    · exact .inl ⟨_, mem_grid.2 ⟨i, hi, j, hj, rfl⟩, rfl⟩
    · exact .inr ⟨_, mem_grid.2 ⟨i, hi, j, hj, rfl⟩, rfl⟩

/-- Only the links of the fabric are between a spine and a leaf. -/
theorem hop_fabric (s : Fin S) (l : Fin L) : (closNet S L H p2p p2pHost).Hop p2p.delay
    (number S L H (.spine s)) (number S L H (.leaf l)) := by
  refine ⟨⟨spineLeaf S p2p s l, ?_, .inl ⟨rfl, rfl⟩⟩, ?_⟩
  · exact mem_channels.2 (.inl ⟨s, s.isLt, l, l.isLt, rfl⟩)
  · intro c hc hjoins
    rcases mem_channels.1 hc with ⟨i, hi, j, hj, rfl⟩ | ⟨i, hi, j, hj, rfl⟩
    · rfl
    · have hlt := s.isLt
      rcases hjoins with ⟨ha, hb⟩ | ⟨ha, hb⟩ <;> simp only [leafHost, number] at ha hb <;> omega

/-- Only those of the hosts are between a leaf and a host. -/
theorem hop_access (h : Fin L × Fin H) : (closNet S L H p2p p2pHost).Hop p2pHost.delay
    (number S L H (.leaf h.1)) (number S L H (.host h)) := by
  refine ⟨⟨leafHost S L H p2pHost h.1 h.2, ?_, .inl ⟨rfl, rfl⟩⟩, ?_⟩
  · exact mem_channels.2 (.inr ⟨h.1, h.1.isLt, h.2, h.2.isLt, rfl⟩)
  · intro c hc hjoins
    rcases mem_channels.1 hc with ⟨i, hi, j, hj, rfl⟩ | ⟨i, hi, j, hj, rfl⟩
    · rcases hjoins with ⟨ha, hb⟩ | ⟨ha, hb⟩ <;> simp only [spineLeaf, number] at ha hb <;> omega
    · rfl

/-- Channels are where there are links. -/
theorem exists_link {x y : ℕ} (hadj : (closNet S L H p2p p2pHost).graph.Adj x y) :
    ∃ m n, x = number S L H m ∧ y = number S L H n ∧ (layers S L H).Adj m n := by
  rcases hadj with ⟨-, c, hc, hjoins⟩
  -- A channel joins its ends in both directions.
  rcases mem_channels.1 hc with ⟨i, hi, j, hj, rfl⟩ | ⟨i, hi, j, hj, rfl⟩
  · have hlink : (layers S L H).Adj (.spine ⟨i, hi⟩) (.leaf ⟨j, hj⟩) := .inl (.fabric _ _)
    rcases hjoins with ⟨rfl, rfl⟩ | ⟨rfl, rfl⟩
    · exact ⟨_, _, rfl, rfl, hlink⟩
    · exact ⟨_, _, rfl, rfl, hlink.symm⟩
  · let h : Fin L × Fin H := (⟨i, hi⟩, ⟨j, hj⟩)
    have hlink : (layers S L H).Adj (.leaf h.1) (.host h) := .inl (.access h)
    rcases hjoins with ⟨rfl, rfl⟩ | ⟨rfl, rfl⟩
    · exact ⟨_, _, rfl, rfl, hlink⟩
    · exact ⟨_, _, rfl, rfl, hlink.symm⟩

theorem exists_neighbour (m : Node (Fin S) (Fin L) (Fin L × Fin H)) (y : ℕ)
    (hadj : (closNet S L H p2p p2pHost).graph.Adj (number S L H m) y) :
    ∃ n, y = number S L H n ∧ (layers S L H).Adj m n := by
  rcases exists_link hadj with ⟨m', n, hm, hn, hlink⟩
  obtain rfl := number_injective hm
  exact ⟨n, hn, hlink⟩

/-- Links are channels. -/
theorem adj_number (m n : Node (Fin S) (Fin L) (Fin L × Fin H)) (hlink : (layers S L H).Adj m n) :
    (closNet S L H p2p p2pHost).graph.Adj (number S L H m) (number S L H n) := by
  refine ⟨number_injective.ne hlink.ne, ?_⟩
  rcases hlink with hlink | hlink
  · cases hlink with
    | fabric s l =>
        exact (hop_fabric s l).1
    | access h =>
        exact (hop_access h).1
  · cases hlink with
    | fabric s l =>
        exact (hop_fabric s l).symm.1
    | access h =>
        exact (hop_access h).symm.1

/-! ### Ways -/

/-- The shortest ways between the layers, under their numbers. -/
theorem shortestWays {u v : Node (Fin S) (Fin L) (Fin L × Fin H)} {n : ℕ} {d : Time}
    {w : List (List (Node (Fin S) (Fin L) (Fin L × Fin H)))}
    (hleast : ∀ q : (layers S L H).Walk u v, n ≤ q.length)
    (hways : ∀ way, way ∈ w ↔ ∃ q : (layers S L H).Walk u v, q.length = n ∧ q.support = way)
    (hnodup : w.Nodup)
    (htime : ∀ way ∈ w,
      (closNet S L H p2p p2pHost).travelTime (way.map (number S L H)) = some d) :
    (closNet S L H p2p p2pHost).ShortestWays (number S L H u) (number S L H v) n
      (w.map (List.map (number S L H))) d := by
  have hwalk : ∀ p : (closNet S L H p2p p2pHost).graph.Walk (number S L H u) (number S L H v),
      ∃ q : (layers S L H).Walk u v, p.support = q.support.map (number S L H) ∧
        p.length = q.length := by
    intro p
    rcases exists_walk number_injective exists_neighbour p rfl rfl with ⟨q, hq⟩
    have hlength := congrArg List.length hq
    simp only [List.length_map, SimpleGraph.Walk.length_support] at hlength
    exact ⟨q, hq, Nat.succ.inj hlength⟩
  refine ⟨?_, ?_, ?_, ?_⟩
  · intro p
    rcases hwalk p with ⟨q, -, hlength⟩
    rw [hlength]
    exact hleast q
  · intro way
    rw [List.mem_map]
    constructor
    · rintro ⟨way, hway, rfl⟩
      rcases (hways way).1 hway with ⟨q, hlength, rfl⟩
      rcases exists_image adj_number q with ⟨p, hp, hsupport⟩
      exact ⟨p, hp.trans hlength, hsupport⟩
    · rintro ⟨p, hp, rfl⟩
      rcases hwalk p with ⟨q, hsupport, hlength⟩
      exact ⟨q.support, (hways _).2 ⟨q, hlength.symm.trans hp, rfl⟩, hsupport.symm⟩
  · exact hnodup.map (List.map_injective_iff.2 number_injective)
  · intro way hway
    rcases List.mem_map.1 hway with ⟨way, hmem, rfl⟩
    exact htime way hmem

theorem time_access (h : Fin L × Fin H) : (closNet S L H p2p p2pHost).travelTime
    [number S L H (.leaf h.1), number S L H (.host h)] = some p2pHost.delay :=
  Net.travelTime_of_hops (hop_access h) (Net.travelTime_singleton _ _)

theorem time_down (s : Fin S) (h : Fin L × Fin H) : (closNet S L H p2p p2pHost).travelTime
    [number S L H (.spine s), number S L H (.leaf h.1), number S L H (.host h)] =
      some (p2p.delay + p2pHost.delay) :=
  Net.travelTime_of_hops (hop_fabric s h.1) (time_access h)

/-- Between hosts of different leaves there is one over each spine. -/
theorem shortestWays_over (h h' : Fin L × Fin H) (hne : h.1 ≠ h'.1) :
    (closNet S L H p2p p2pHost).ShortestWays (number S L H (.host h)) (number S L H (.host h')) 4
      ((List.range S).map fun s => [number S L H (.host h), S + h.1, s, S + h'.1,
        number S L H (.host h')])
      (2 * p2pHost.delay + 2 * p2p.delay) := by
  have hways : ((List.range S).map fun s => [number S L H (.host h), S + h.1, s, S + h'.1,
      number S L H (.host h')]) = ((List.finRange S).map fun s =>
        [.host h, .leaf h.1, .spine s, .leaf h'.1, .host h']).map (List.map (number S L H)) := by
    rw [List.map_map, ← List.map_coe_finRange_eq_range, List.map_map]
    rfl
  rw [hways]
  refine shortestWays (fun q => four_le_length q hne) ?_ ?_ ?_
  · intro way
    simp only [List.mem_map, List.mem_finRange, true_and]
    constructor
    · rintro ⟨s, rfl⟩
      exact ⟨overSpine Prod.fst h h' s, length_overSpine, support_overSpine⟩
    · rintro ⟨q, hlength, rfl⟩
      rcases support_of_length q hne hlength with ⟨s, hs⟩
      exact ⟨s, hs.symm⟩
  · refine (List.nodup_finRange S).map ?_
    intro s s' heq
    simpa using heq
  · intro way hway
    rcases List.mem_map.1 hway with ⟨s, -, rfl⟩
    -- Up to the spine, and down from it.
    calc (closNet S L H p2p p2pHost).travelTime ([.host h, .leaf h.1, .spine s, .leaf h'.1,
          .host h'].map (number S L H))
        = some (p2pHost.delay + (p2p.delay + (p2p.delay + p2pHost.delay))) :=
          Net.travelTime_of_hops (hop_access h).symm <|
            Net.travelTime_of_hops (hop_fabric s h.1).symm (time_down s h')
      _ = some (2 * p2pHost.delay + 2 * p2p.delay) := by
          congr 1
          ring

/-- Between hosts of one leaf there is one. -/
theorem shortestWays_across {h h' : Fin L × Fin H} (hne : h ≠ h') (heq : h.1 = h'.1) :
    (closNet S L H p2p p2pHost).ShortestWays (number S L H (.host h)) (number S L H (.host h')) 2
      [[number S L H (.host h), S + h.1, number S L H (.host h')]] (2 * p2pHost.delay) := by
  refine shortestWays (w := [[.host h, .leaf h.1, .host h']]) (fun q => two_le_length q hne)
    ?_ (List.nodup_singleton _) ?_
  · intro way
    rw [List.mem_singleton]
    constructor
    · rintro rfl
      exact ⟨across h h' heq, rfl, rfl⟩
    · rintro ⟨q, hlength, rfl⟩
      exact support_of_length_two q hlength
  · intro way hway
    obtain rfl := List.mem_singleton.1 hway
    calc (closNet S L H p2p p2pHost).travelTime ([.host h, .leaf h.1, .host h'].map (number S L H))
        = some (p2pHost.delay + p2pHost.delay) := by
          refine Net.travelTime_of_hops (hop_access h).symm ?_
          rw [heq]
          exact time_access h'
      _ = some (2 * p2pHost.delay) := by
          congr 1
          ring

/-- From a spine to a host there is one. -/
theorem shortestWays_down (s : Fin S) (h : Fin L × Fin H) :
    (closNet S L H p2p p2pHost).ShortestWays (number S L H (.spine s)) (number S L H (.host h)) 2
      [[s, S + h.1, number S L H (.host h)]] (p2p.delay + p2pHost.delay) := by
  refine shortestWays (w := [[.spine s, .leaf h.1, .host h]]) two_le_length_of_spine
    ?_ (List.nodup_singleton _) ?_
  · intro way
    rw [List.mem_singleton]
    constructor
    · rintro rfl
      exact ⟨down Prod.fst s h, rfl, rfl⟩
    · rintro ⟨q, hlength, rfl⟩
      exact support_of_spine q hlength
  · intro way hway
    obtain rfl := List.mem_singleton.1 hway
    exact time_down s h

end Clos

/-! ## All routes -/

/-- The shortest ways between hosts, and from spines to hosts; links of the fabric take `d`, those of
hosts `dHost`. -/
structure ShortestRoutes (t : PaxosTopologyClos) (net : Net) (S L H : ℕ) (d dHost : Time) : Prop where
  hosts : ∀ l < L, ∀ l' < L, l ≠ l' → ∀ h < H, ∀ h' < H, ∃ x y leaf leaf',
    t.hostNode l h = some x ∧ t.hostNode l' h' = some y ∧
      t.leafNodes[l]? = some leaf ∧ t.leafNodes[l']? = some leaf' ∧
      net.ShortestWays x y 4 (t.spineNodes.map fun s => [x, leaf, s, leaf', y]) (2 * dHost + 2 * d)
  neighbours : ∀ l < L, ∀ h < H, ∀ h' < H, h ≠ h' → ∃ x y leaf,
    t.hostNode l h = some x ∧ t.hostNode l h' = some y ∧ t.leafNodes[l]? = some leaf ∧
      net.ShortestWays x y 2 [[x, leaf, y]] (2 * dHost)
  spines : ∀ s < S, ∀ l < L, ∀ h < H, ∃ x y leaf,
    t.spineNodes[s]? = some x ∧ t.hostNode l h = some y ∧ t.leafNodes[l]? = some leaf ∧
      net.ShortestWays x y 2 [[x, leaf, y]] (d + dHost)

theorem shortestRoutes_clos {S L H : ℕ} {p2p p2pHost : PointToPointHelper} (config : PaxosConfig) :
    (clos S L H p2p p2pHost config).ShortestRoutes (closNet S L H p2p p2pHost) S L H p2p.delay
      p2pHost.delay := by
  have hleaf : ∀ l < L, (clos S L H p2p p2pHost config).leafNodes[l]? = some (S + l) := by
    intro l hl
    simp [clos, hl]
  refine ⟨?_, ?_, ?_⟩
  · intro l hl l' hl' hne h hh h' hh'
    have hdiff : (⟨l, hl⟩ : Fin L) ≠ ⟨l', hl'⟩ := fun heq => hne (Fin.mk.inj heq)
    exact ⟨_, _, _, _, hostNode_eq hl hh, hostNode_eq hl' hh', hleaf l hl, hleaf l' hl',
      shortestWays_over (⟨l, hl⟩, ⟨h, hh⟩) (⟨l', hl'⟩, ⟨h', hh'⟩) hdiff⟩
  · intro l hl h hh h' hh' hne
    have hdiff : ((⟨l, hl⟩, ⟨h, hh⟩) : Fin L × Fin H) ≠ (⟨l, hl⟩, ⟨h', hh'⟩) :=
      fun heq => hne (Fin.mk.inj (Prod.mk.inj heq).2)
    exact ⟨_, _, _, hostNode_eq hl hh, hostNode_eq hl hh', hleaf l hl,
      shortestWays_across hdiff rfl⟩
  · intro s hs l hl h hh
    have hspine : (clos S L H p2p p2pHost config).spineNodes[s]? = some s := by
      simp [clos, hs]
    exact ⟨_, _, _, hspine, hostNode_eq hl hh, hleaf l hl,
      shortestWays_down ⟨s, hs⟩ (⟨l, hl⟩, ⟨h, hh⟩)⟩

theorem ofAttributes_of_ofText (bandwidth : String) {delay : String} {d : Time}
    (h : Time.ofText delay = some d) :
    PointToPointHelper.ofAttributes bandwidth delay = some ⟨bandwidth, d⟩ := by
  rw [PointToPointHelper.ofAttributes, h]
  rfl

/-- Whatever the constructor is called with, as far as subnets and delays can be read. -/
theorem shortest_routes {numSpines numLeaves numHostsPerLeaf : ℕ}
    {bandwidthLeaf2Spine delayLeaf2Spine bandwidthHost2Leaf delayHost2Leaf : String}
    {delay delayHost : Time} (config : PaxosConfig) (hS : numSpines ≤ 256) (hL : numLeaves ≤ 256)
    (hH : numHostsPerLeaf ≤ 256) (hdelay : Time.ofText delayLeaf2Spine = some delay)
    (hdelayHost : Time.ofText delayHost2Leaf = some delayHost) :
    ∃ t net,
      (create numSpines numLeaves numHostsPerLeaf bandwidthLeaf2Spine delayLeaf2Spine
        bandwidthHost2Leaf delayHost2Leaf config).run {} = some (t, net) ∧
      t.ShortestRoutes net numSpines numLeaves numHostsPerLeaf delay delayHost := by
  have hp2p := ofAttributes_of_ofText bandwidthLeaf2Spine hdelay
  have hp2pHost := ofAttributes_of_ofText bandwidthHost2Leaf hdelayHost
  exact ⟨_, _, create_run hS hL hH config hp2p hp2pHost, shortestRoutes_clos config⟩

/-- In a network of 3 spines and 5 leaves with 5 hosts each. -/
theorem shortest_routes_three_spines :
    ∃ t net, (create 3 5 5 "1Gbps" "5us" "1Gbps" "10us" {}).run {} = some (t, net) ∧
      t.ShortestRoutes net 3 5 5 5000 10000 := by
  have hthree : 3 ≤ 256 := by decide
  have hfive : 5 ≤ 256 := by decide
  have hdelay : Time.ofText "5us" = some 5000 := by decide
  have hdelayHost : Time.ofText "10us" = some 10000 := by decide
  exact shortest_routes {} hthree hfive hfive hdelay hdelayHost

end PaxosTopologyClos

/-! ## The program -/

namespace Main

/-- From a server to another the shortest ways are the routes over the three spines; in asynchronous
mode they take `linkDelay`, rounded down to four hops.  A request of the client takes two hops. -/
theorem server_routes (config : PaxosConfig) :
    ∃ t net, (main config).run {} = some (t, net) ∧
      (∀ i < numLeaf, ∀ j < numLeaf, i ≠ j → ∃ x y ways,
        t.appNode (.server i) = some x ∧ t.appNode (.server j) = some y ∧
          (List.range numSpine).mapM (fun s => route t s i j) = some ways ∧
          net.ShortestWays x y 4 ways (4 * hopDelay config)) ∧
      ∀ j < numLeaf, ∃ x y leaf,
        t.appNode (.client 0) = some x ∧ t.appNode (.server j) = some y ∧
          t.leafNodes[j]? = some leaf ∧
          net.ShortestWays x y 2 [[x, leaf, y]] (2 * hopDelay config) := by
  have hserver : ∀ k < 5, (topology config).appNode (.server k) = some (3 + 5 + k * 5 + 0) := by
    intro k hk
    simp [PaxosTopologyClos.appNode, topology, hostIdList, numLeaf, hk, server,
      PaxosTopologyClos.server]
  refine ⟨topology config, net config, main_run config, ?_, ?_⟩
  · intro i hi j hj hne
    have hways : (List.range numSpine).mapM (fun s => route (topology config) s i j) =
        some ((List.range 3).map fun s => [8 + i * 5, 3 + i, s, 3 + j, 8 + j * 5]) := by
      apply Growth.mapM_eq_some
      intro s hs
      exact route_eq (List.mem_range.1 hs) hi hj
    have hdiff : (⟨i, hi⟩ : Fin 5) ≠ ⟨j, hj⟩ := fun heq => hne (Fin.mk.inj heq)
    have hover : (net config).ShortestWays (3 + 5 + i * 5 + 0) (3 + 5 + j * 5 + 0) 4
        ((List.range 3).map fun s => [8 + i * 5, 3 + i, s, 3 + j, 8 + j * 5])
        (2 * hopDelay config + 2 * hopDelay config) :=
      PaxosTopologyClos.shortestWays_over (⟨i, hi⟩, 0) (⟨j, hj⟩, 0) hdiff
    have htime : 2 * hopDelay config + 2 * hopDelay config = 4 * hopDelay config := by
      ring
    refine ⟨_, _, _, hserver i hi, hserver j hj, hways, ?_⟩
    rw [← htime]
    exact hover
  · intro j hj
    have hleaf : (topology config).leafNodes[j]? = some (3 + j) := by
      have hlt : j < 5 := hj
      simp [topology, installed, PaxosTopologyClos.withServers, PaxosTopologyClos.clos, hlt]
    have hdown : (net config).ShortestWays 1 (3 + 5 + j * 5 + 0) 2
        [[1, 3 + j, 3 + 5 + j * 5 + 0]] (hopDelay config + hopDelay config) :=
      PaxosTopologyClos.shortestWays_down 1 (⟨j, hj⟩, 0)
    have htime : hopDelay config + hopDelay config = 2 * hopDelay config := by
      ring
    refine ⟨1, _, _, rfl, hserver j hj, hleaf, ?_⟩
    rw [← htime]
    exact hdown

end Main

end SyncPaxos
