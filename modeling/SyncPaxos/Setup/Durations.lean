import SyncPaxos.Setup.Program

/-!
# Durations — what becomes of the configured delays

On the way from one server to another a packet takes four hops.  In asynchronous mode each takes a
quarter of `linkDelay`, and a client waits a fifth of it between requests; in synchronous mode the
hops are as fast as can be, and the client waits a tenth of `boundedMessageDelay`.  All divisions are
exact as long as the quotient fits into a `uint32_t`; a larger one is cut (`durations_survive_iff`).
-/

namespace SyncPaxos

/-! ## Quotients -/

/-- A `uint32_t` keeps a quotient that fits. -/
theorem quotient_kept_iff {k : ℕ} (hk : 0 < k) (x : ℕ) :
    x / k % 2 ^ 32 = x / k ↔ x < k * 2 ^ 32 := by
  rw [Nat.mod_eq_iff_lt (by decide), Nat.div_lt_iff_lt_mul hk, mul_comm]

/-- Four quarters make the whole, up to the remainder. -/
theorem quarter_iff (x : ℕ) :
    4 * (x / 4 % 2 ^ 32) ≤ x ∧ x < 4 * (x / 4 % 2 ^ 32) + 4 ↔ x < 4 * 2 ^ 32 := by
  omega

/-! ## Hops -/

/-- The channel is between `x` and `y`. -/
def Channel.Joins (c : Channel) (x y : ℕ) : Prop :=
  (c.a.node = x ∧ c.b.node = y) ∨ (c.a.node = y ∧ c.b.node = x)

/-- The nodes are neighbours, at a delay of `d`. -/
def Net.Hop (net : Net) (d : Time) (x y : ℕ) : Prop :=
  (∃ c ∈ net.channels, c.Joins x y) ∧ ∀ c ∈ net.channels, c.Joins x y → c.delay = d

namespace Main

/-- The nodes on the way from server `i` to server `j` over spine `s`. -/
def route (t : PaxosTopologyClos) (s i j : ℕ) : Option (List ℕ) := do
  let source ← t.appNode (.server i)
  let sourceLeaf ← t.leafNodes[i]?
  let spine ← t.spineNodes[s]?
  let targetLeaf ← t.leafNodes[j]?
  let target ← t.appNode (.server j)
  return [source, sourceLeaf, spine, targetLeaf, target]

/-- All four hops on all ways from one server to another take `d`. -/
def HopsTake (t : PaxosTopologyClos) (net : Net) (d : Time) : Prop :=
  ∀ s < numSpine, ∀ i < numLeaf, ∀ j < numLeaf, i ≠ j →
    ∃ way, route t s i j = some way ∧ way.IsChain (net.Hop d)

section Hops

variable {config : PaxosConfig}

theorem delay_of_mem {c : Channel} (hc : c ∈ (net config).channels) :
    c.delay = hopDelay config := by
  have hlink : ∃ l ∈ PaxosTopologyClos.closLinks 3 5 5 (p2p config) (p2p config),
      l.channel = c := by
    simpa [net, PaxosTopologyClos.closNet, Net.addLinks] using hc
  rcases hlink with ⟨l, hl, rfl⟩
  rcases List.mem_append.1 hl with hspine | hhost
  · rcases mem_grid.1 hspine with ⟨i, -, j, -, rfl⟩
    rfl
  · rcases mem_grid.1 hhost with ⟨i, -, j, -, rfl⟩
    rfl

/-- Neighbours are at the delay that all links have. -/
theorem hop_of_mem {c : Channel} {x y : ℕ} (hc : c ∈ (net config).channels) (h : c.Joins x y) :
    (net config).Hop (hopDelay config) x y :=
  ⟨⟨c, hc, h⟩, fun _ hc' _ => delay_of_mem hc'⟩

theorem hop_spineLeaf {s l : ℕ} (hs : s < 3) (hl : l < 5) :
    (net config).Hop (hopDelay config) s (3 + l) ∧
      (net config).Hop (hopDelay config) (3 + l) s := by
  have hmem : PaxosTopologyClos.spineLeaf 3 (p2p config) s l ∈ (net config).channels := by
    refine List.mem_map.2 ⟨gridLink 10 (PaxosTopologyClos.spineLeaf 3 (p2p config)) s l, ?_, rfl⟩
    exact List.mem_append_left _ (mem_grid.2 ⟨s, hs, l, hl, rfl⟩)
  exact ⟨hop_of_mem hmem (Or.inl ⟨rfl, rfl⟩), hop_of_mem hmem (Or.inr ⟨rfl, rfl⟩)⟩

theorem hop_leafHost {l : ℕ} (hl : l < 5) :
    (net config).Hop (hopDelay config) (3 + l) (8 + l * 5) ∧
      (net config).Hop (hopDelay config) (8 + l * 5) (3 + l) := by
  have hmem : PaxosTopologyClos.leafHost 3 5 5 (p2p config) l 0 ∈ (net config).channels := by
    refine List.mem_map.2 ⟨gridLink 20 (PaxosTopologyClos.leafHost 3 5 5 (p2p config)) l 0, ?_, rfl⟩
    exact List.mem_append_right _ (mem_grid.2 ⟨l, hl, 0, by decide, rfl⟩)
  exact ⟨hop_of_mem hmem (Or.inl ⟨rfl, rfl⟩), hop_of_mem hmem (Or.inr ⟨rfl, rfl⟩)⟩

theorem route_eq {s i j : ℕ} (hs : s < 3) (hi : i < 5) (hj : j < 5) :
    route (topology config) s i j = some [8 + i * 5, 3 + i, s, 3 + j, 8 + j * 5] := by
  have hserver : ∀ k < 5, (topology config).appNode (.server k) = some (8 + k * 5) := by
    intro k hk
    simp [PaxosTopologyClos.appNode, topology, hostIdList, numLeaf, hk, server,
      PaxosTopologyClos.server]
  have hleaf : ∀ k < 5, (topology config).leafNodes[k]? = some (3 + k) := by
    intro k hk
    simp [topology, installed, PaxosTopologyClos.withServers, PaxosTopologyClos.clos, hk]
  have hspine : (topology config).spineNodes[s]? = some s := by
    simp [topology, installed, PaxosTopologyClos.withServers, PaxosTopologyClos.clos, hs]
  simp [route, hserver, hleaf, hspine, hi, hj]

/-- Every hop of the program takes the delay that `main` has computed. -/
theorem hopsTake (config : PaxosConfig) :
    HopsTake (topology config) (net config) (hopDelay config) := by
  intro s hs i hi j hj _
  refine ⟨_, route_eq hs hi hj, ?_⟩
  simp only [List.isChain_cons_cons]
  exact ⟨(hop_leafHost hi).2, (hop_spineLeaf hs hi).2, (hop_spineLeaf hs hj).1,
    (hop_leafHost hj).1, List.IsChain.singleton _⟩

/-- They take no other. -/
theorem eq_of_hopsTake {d : Time} (h : HopsTake (topology config) (net config) d) :
    d = hopDelay config := by
  rcases h 0 (by decide) 0 (by decide) 1 (by decide) (by decide) with ⟨way, hway, hchain⟩
  rw [route_eq (by decide) (by decide) (by decide)] at hway
  obtain rfl := Option.some.inj hway
  rcases (List.isChain_cons_cons.1 hchain).1 with ⟨⟨c, hc, hjoins⟩, hall⟩
  exact (hall c hc hjoins).symm.trans (delay_of_mem hc)

end Hops

/-! ## What survives -/

/-- The delay of a hop is a quarter of `linkDelay`, and every client waits the part of the configured
delay that is meant for it. -/
structure DurationsSurvive (config : PaxosConfig) (t : PaxosTopologyClos) (net : Net) : Prop where
  hops : ∃ d, HopsTake t net d ∧ 4 * d ≤ config.linkDelay ∧ config.linkDelay < 4 * d + 4
  interval : ∀ client ∈ t.paxosAppClientContainer, client.sendInterval =
    if config.isSynchronous then config.boundedMessageDelay / 10 else config.linkDelay / 5

/-- A client waits the quotient that the `uint32_t` keeps. -/
theorem sendInterval_of_mem {config : PaxosConfig} {c : PaxosAppClient}
    (hc : c ∈ (topology config).paxosAppClientContainer) :
    c.sendInterval = config.interval % 2 ^ 32 := by
  obtain rfl : c = client config := List.mem_singleton.1 hc
  rfl

theorem interval_sync {config : PaxosConfig} (h : config.isSynchronous = true) :
    config.interval = config.boundedMessageDelay / 10 := by
  rw [PaxosConfig.interval, if_pos h]

theorem interval_async {config : PaxosConfig} (h : config.isSynchronous = false) :
    config.interval = config.linkDelay / 5 := by
  rw [PaxosConfig.interval, if_neg (by simp [h])]

theorem hopDelay_sync {config : PaxosConfig} (h : config.isSynchronous = true) :
    hopDelay config = 5000 := by
  rw [hopDelay, if_pos h]

theorem hopDelay_async {config : PaxosConfig} (h : config.isSynchronous = false) :
    hopDelay config = config.linkDelay / 4 % 2 ^ 32 := by
  rw [hopDelay, if_neg (by simp [h])]

/-- Beyond these bounds a quotient is cut; and in synchronous mode the four hops take a `linkDelay`
of their own. -/
theorem durations_survive_iff (config : PaxosConfig) :
    DurationsSurvive config (topology config) (net config) ↔
      if config.isSynchronous then
        (20000 ≤ config.linkDelay ∧ config.linkDelay < 20004) ∧
          config.boundedMessageDelay < 10 * 2 ^ 32
      else
        config.linkDelay < 4 * 2 ^ 32 := by
  have hparts : DurationsSurvive config (topology config) (net config) ↔
      (4 * hopDelay config ≤ config.linkDelay ∧ config.linkDelay < 4 * hopDelay config + 4) ∧
        config.interval % 2 ^ 32 = config.interval := by
    constructor
    · intro h
      rcases h.hops with ⟨d, hd, hle, hlt⟩
      obtain rfl := eq_of_hopsTake hd
      exact ⟨⟨hle, hlt⟩, h.interval (client config) List.mem_cons_self⟩
    · rintro ⟨⟨hle, hlt⟩, hkept⟩
      exact ⟨⟨_, hopsTake config, hle, hlt⟩, fun c hc => (sendInterval_of_mem hc).trans hkept⟩
  rw [hparts]
  cases hmode : config.isSynchronous with
  | true =>
      rw [hopDelay_sync hmode, interval_sync hmode, if_pos rfl, quotient_kept_iff (by decide)]
  | false =>
      rw [hopDelay_async hmode, interval_async hmode, if_neg (by decide), quarter_iff,
        quotient_kept_iff (by decide)]
      -- The hops have the smaller bound.
      exact and_iff_left_of_imp fun h => h.trans (by decide)

/-- In asynchronous mode four hops take `linkDelay`, rounded down, in synchronous mode each takes
5 us; and clients wait the parts meant for them.  This is so for all quotients that a `uint32_t`
holds. -/
theorem durations_survive (config : PaxosConfig) :
    ∃ t net, (main config).run {} = some (t, net) ∧
      (config.isSynchronous = false → config.linkDelay / 4 < 2 ^ 32 →
        ∃ d, HopsTake t net d ∧ 4 * d ≤ config.linkDelay ∧ config.linkDelay < 4 * d + 4) ∧
      (config.isSynchronous = true → HopsTake t net 5000) ∧
      (config.isSynchronous = true → config.boundedMessageDelay / 10 < 2 ^ 32 →
        ∀ client ∈ t.paxosAppClientContainer,
          client.sendInterval = config.boundedMessageDelay / 10) ∧
      (config.isSynchronous = false → config.linkDelay / 5 < 2 ^ 32 →
        ∀ client ∈ t.paxosAppClientContainer, client.sendInterval = config.linkDelay / 5) := by
  have hhops := hopsTake config
  refine ⟨topology config, net config, main_run config, ?_, ?_, ?_, ?_⟩
  · intro hasync hfits
    rw [hopDelay_async hasync] at hhops
    have hlt : config.linkDelay < 4 * 2 ^ 32 :=
      (quotient_kept_iff (by decide) _).1 (Nat.mod_eq_of_lt hfits)
    exact ⟨_, hhops, (quarter_iff config.linkDelay).2 hlt⟩
  · intro hsync
    rw [hopDelay_sync hsync] at hhops
    exact hhops
  · intro hsync hfits c hc
    rw [sendInterval_of_mem hc, interval_sync hsync, Nat.mod_eq_of_lt hfits]
  · intro hasync hfits c hc
    rw [sendInterval_of_mem hc, interval_async hasync, Nat.mod_eq_of_lt hfits]

/-- In asynchronous mode the default of 10 ms is spread over the hops as it should be. -/
theorem durations_survive_ten_milliseconds :
    ∃ t net, (main { isSynchronous := false }).run {} = some (t, net) ∧ HopsTake t net 2500000 ∧
      ∀ client ∈ t.paxosAppClientContainer, client.sendInterval = 2000000 := by
  rcases durations_survive { isSynchronous := false } with
    ⟨t, net, hrun, hhops, -, -, hinterval⟩
  rcases hhops rfl (by decide) with ⟨d, hd, hle, hlt⟩
  have hquarter : ∀ x : ℕ, 4 * x ≤ 10 ^ 7 → 10 ^ 7 < 4 * x + 4 → x = 2500000 := by
    intro x hx hx'
    omega
  obtain rfl := hquarter d hle hlt
  exact ⟨t, net, hrun, hd, hinterval rfl (by decide)⟩

/-- In synchronous mode the default of 10 ms for `linkDelay` has nothing to do with the four hops of
5 us.  In asynchronous mode a `linkDelay` of 2 ^ 34 ns becomes a delay of 0. -/
theorem durations_change :
    (∃ t net, (main {}).run {} = some (t, net) ∧ HopsTake t net 5000 ∧
      ¬ DurationsSurvive {} t net) ∧
    ∃ t net, (main { isSynchronous := false, linkDelay := 2 ^ 34 }).run {} = some (t, net) ∧
      HopsTake t net 0 ∧
      ¬ DurationsSurvive { isSynchronous := false, linkDelay := 2 ^ 34 } t net := by
  constructor
  · refine ⟨_, _, main_run {}, hopsTake {}, ?_⟩
    intro h
    exact absurd ((durations_survive_iff {}).1 h) (by decide)
  · refine ⟨_, _, main_run _, hopsTake { isSynchronous := false, linkDelay := 2 ^ 34 }, ?_⟩
    intro h
    exact absurd ((durations_survive_iff _).1 h) (by decide)

end Main

end SyncPaxos
