import SyncPaxos.Model.Config
import SyncPaxos.Safety.Frames
import SyncPaxos.Timing.Cost
import SyncPaxos.Timing.Firings

/-!
# Termination — the simulations that end

A run ends if the loops of the clients and the slots of the servers advance in time: then every
event is paid for (`World.cost`), and the initial events cost a fixed amount.  If one of these loops
has period zero, it calls itself for ever at one instant, and runs of any length exist.

The times are those of the source as long as all calls of the loops fall on times below `2 ^ 63`,
which is part of `Terminates`.  A delay or a sum from there on is negative as an `int64_t`: the
assertion of `Schedule` or the one of `ProcessOneEvent` stops the program, or time runs backwards.
-/

namespace SyncPaxos

open DiscreteEvent Transition

/-- The calls of the three loops that have the number `k`. -/
def Callback.isLoop (k : ℕ) (action : Callback) : Bool :=
  action.isClient k || action.isSlot k || action.isPoll k

/-- Every simulation of the cluster ends, whatever a network of routes of at most `H` links does.
The loops of the clients and of the slots advance by their period, the polls by a microsecond or
more, none of them goes on at or after its stop time, and an `int64_t` holds all their times. -/
structure Cluster.Terminates (C : Cluster) (H : ℕ) : Prop where
  bounded : ∃ bound : ℕ, ∀ w es,
    Observed (program C) (shortRoutes H) executed w es → es.length ≤ bound
  clients : ∀ w es k, Observed (program C) (shortRoutes H) executed w es →
    (firings (Callback.isClient k) (es ++ w.events)).IsChain
      (fun t t' => t < C.clientStopTime ∧ t' = t + C.sendInterval ∧ t < t')
  slots : ∀ w es i, Observed (program C) (shortRoutes H) executed w es →
    (firings (Callback.isSlot i) (es ++ w.events)).IsChain
      (fun t t' => t < C.stopTime ∧ t' = t + C.slot * C.numNodes ∧ t < t')
  polls : ∀ w es i, Observed (program C) (shortRoutes H) executed w es →
    (firings (Callback.isPoll i) (es ++ w.events)).IsChain
      (fun t t' => t < C.stopTime ∧ t + 1000 ≤ t')
  times : ∀ w es k, Observed (program C) (shortRoutes H) executed w es →
    ∀ t ∈ firings (Callback.isLoop k) (es ++ w.events), t < 2 ^ 63

/-- Start and stop times that leave room in an `int64_t` for one more request and one more poll, as
those of `main` do. -/
structure Cluster.TimesFit (C : Cluster) : Prop where
  clientStart : C.clientStartTime < 2 ^ 63
  clientStop : C.clientStopTime + C.sendInterval ≤ 2 ^ 63
  stop : C.stopTime + 1000 ≤ 2 ^ 63

/-- A client that sends more than one request waits in between. -/
def Cluster.ClientsAdvance (C : Cluster) : Prop :=
  C.numClients = 0 ∨ C.clientStopTime ≤ C.clientStartTime ∨ 0 < C.sendInterval

/-- A server that has more than one slot waits in between. -/
def Cluster.SlotsAdvance (C : Cluster) : Prop :=
  C.async = true ∨ C.stopTime ≤ C.startTime ∨ 0 < C.slot

/-- The number of the last slot in which a server is called: the first one of the last server, or the
last one that is scheduled before the stop time. -/
def Cluster.lastSlot (C : Cluster) : ℕ :=
  if C.stopTime ≤ C.startTime then C.numNodes - 1
  else C.numNodes + (C.stopTime - 1 - C.startTime) / C.slot

/-- An `int64_t` holds the times of all slots. -/
def Cluster.SlotsFit (C : Cluster) : Prop :=
  C.async = true ∨ C.startTime + C.lastSlot * C.slot < 2 ^ 63

section Ends

variable {C : Cluster} {G : World → Choice → Prop} {H : ℕ} {w : World} {es : List Event} {k : ℕ}

theorem Cluster.ClientsAdvance.pos (h : C.ClientsAdvance) (hk : k < C.numClients)
    (hstart : C.clientStartTime < C.clientStopTime) : 0 < C.sendInterval := by
  rcases h with hnone | hstop | hpos
  · rw [hnone] at hk
    cases hk
  · exact absurd hstart (not_lt.2 hstop)
  · exact hpos

theorem Cluster.SlotsAdvance.pos (h : C.SlotsAdvance) (hsync : C.async = false)
    (hstart : C.startTime < C.stopTime) : 0 < C.slot := by
  rcases h with ha | hstop | hpos
  · cases hsync.symm.trans ha
  · exact absurd hstart (not_lt.2 hstop)
  · exact hpos

/-- A client that is called belongs to the cluster, and not before the start. -/
theorem client_due (hn : 0 < C.numNodes) (hr : Reachable C G w) {e : Event} (he : e ∈ w.events)
    (hcl : e.action.client? = some k) : k < C.numClients ∧ C.clientStartTime ≤ e.ts := by
  have hmem : e ∈ w.clientCalls k := List.mem_filter.2 ⟨he, beq_iff_eq.2 hcl⟩
  cases rotation_spec hn hr k with
  | calling m action hk hone _ =>
      rw [hone] at hmem
      obtain rfl := List.mem_singleton.1 hmem
      exact ⟨hk, Nat.le_add_right _ _⟩
  | silent m hnone _ _ =>
      rw [hnone] at hmem
      cases hmem

/-- A run is not longer than what its initial events cost. -/
theorem length_le_cost (hn : 0 < C.numNodes) (hclients : C.ClientsAdvance)
    (hslots : C.SlotsAdvance) (h : Observed (program C) (shortRoutes H) executed w es) :
    es.length ≤ (World.init C).cost C H := by
  have hpay : es.length + w.cost C H ≤ (World.init C).cost C H := by
    refine Observed.length_le (φ := fun w => w.cost C H) ?_ h
    intro w c w' hr hg hstep
    rcases step_spec hstep with ⟨e, rest, hs⟩
    have hmem := mem_of_pop hs.pop
    -- Every event is worth more than all that it schedules.
    have hcost : w'.cost C H < w.cost C H := by
      apply hs.cost hr hg
      · intro i haction hstop
        rcases e with ⟨now, action⟩
        obtain rfl : action = .server i .doSyncPropose := haction
        have hdue := (booted hr).due _ hmem
        rw [period_of_slot hr hmem]
        apply Nat.mul_pos
        · exact hslots.pos (ofMode hr _ hmem) (lt_of_le_of_lt hdue.2 hstop)
        · exact Nat.zero_lt_of_lt hdue.1
      · intro k hcl hstop
        rcases client_due hn hr hmem hcl with ⟨hk, hstart⟩
        exact hclients.pos hk (hstart.trans_lt hstop)
    rw [hs.executed, List.length_singleton, Nat.add_comm]
    exact hcost
  exact (Nat.le_add_right _ _).trans hpay

/-! ### The times of the loops -/

/-- A client is not called later than one interval after its stop. -/
theorem client_lt (hn : 0 < C.numNodes) (hfit : C.TimesFit) (hr : Reachable C G w) : ∀ e ∈ w.events, e.action.isClient k = true → e.ts < 2 ^ 63 := by
  intro e he hcl
  have hmem : e ∈ w.clientCalls k := List.mem_filter.2 ⟨he, hcl⟩
  cases rotation_spec hn hr k with
  | calling m action _ hone hserved =>
      rw [hone] at hmem
      obtain rfl := List.mem_singleton.1 hmem
      cases m with
      | zero =>
          have hfirst : sendTime C 0 = C.clientStartTime := by
            rw [sendTime, Nat.zero_mul, Nat.add_zero]
          exact hfirst.trans_lt hfit.clientStart
      | succ m =>
          have hearly := hserved.inTime m (Nat.lt_succ_self m)
          have hstop := hfit.clientStop
          change sendTime C (m + 1) < 2 ^ 63
          rw [sendTime_succ]
          lia
  | silent m hnone _ _ =>
      rw [hnone] at hmem
      cases hmem

/-- A slot that is the first one of its server, or comes after one before the stop. -/
theorem slot_le_lastSlot (hpos : C.startTime < C.stopTime → 0 < C.slot) {i m : ℕ}
    (hi : i < C.numNodes) (hm : ∀ j, m = j + 1 → slotTime C i j < C.stopTime) :
    i + m * C.numNodes ≤ C.lastSlot := by
  unfold Cluster.lastSlot
  cases m with
  | zero =>
      split <;> lia
  | succ j =>
      have hearly : C.startTime + (i + j * C.numNodes) * C.slot < C.stopTime := hm j rfl
      have hstart : C.startTime < C.stopTime := (Nat.le_add_right _ _).trans_lt hearly
      have hle : i + j * C.numNodes ≤ (C.stopTime - 1 - C.startTime) / C.slot := by
        rw [Nat.le_div_iff_mul_le (hpos hstart)]
        lia
      rw [if_neg (not_le.2 hstart)]
      calc i + (j + 1) * C.numNodes = C.numNodes + (i + j * C.numNodes) := by ring
        _ ≤ C.numNodes + (C.stopTime - 1 - C.startTime) / C.slot := Nat.add_le_add_left hle _

theorem slot_lt (hslots : C.SlotsAdvance) (hfits : C.SlotsFit) (hr : Reachable C G w) :
    ∀ e ∈ w.events, e.action.isSlot k = true → e.ts < 2 ^ 63 := by
  intro e he hslot
  rcases mem_callsIn.1 (List.mem_filter.2 ⟨he, hslot⟩) with ⟨-, task, haction, htask⟩
  obtain rfl : task = .doSyncPropose := by
    cases task <;> first | rfl | cases htask
  rcases e with ⟨now, action⟩
  obtain rfl : action = .server k .doSyncPropose := haction
  have hsync : C.async = false := ofMode hr _ he
  have hi : k < C.numNodes := ((booted hr).due _ he).lt
  have hmem : (⟨now, .server k .doSyncPropose⟩ : Event) ∈ w.calls k Task.isSlotLoop :=
    mem_callsIn.2 ⟨he, _, rfl, rfl⟩
  cases slotLoop hsync hi hr with
  | boot hc _ _ =>
      simp [hc] at hmem
  | thread hc _ _ _ =>
      simp [hc] at hmem
  | slots m hc _ hcalls hearly =>
      rw [hc] at hmem
      cases List.mem_singleton.1 hmem
      have hle : k + m * C.numNodes ≤ C.lastSlot := by
        apply slot_le_lastSlot (fun hstart => hslots.pos hsync hstart) hi
        rintro j rfl
        apply hearly
        rw [hcalls]
        exact List.mem_map_of_mem (List.mem_range.2 (Nat.lt_succ_self j))
      have hlast : C.startTime + C.lastSlot * C.slot < 2 ^ 63 := by
        apply hfits.resolve_left
        rw [hsync]
        exact Bool.false_ne_true
      calc slotTime C k m ≤ C.startTime + C.lastSlot * C.slot :=
            Nat.add_le_add_left (Nat.mul_le_mul_right _ hle) _
        _ < 2 ^ 63 := hlast
  | ended m hc _ _ _ =>
      simp [hc] at hmem

/-- A poll is scheduled before the stop. -/
theorem poll_lt (hfit : C.TimesFit) (hr : Reachable C G w) :
    ∀ e ∈ w.events, e.action.isPoll k = true → e.ts < 2 ^ 63 := by
  refine event_invariant (Q := fun _ => True)
    (P := fun _ e => e.action.isPoll k = true → e.ts < 2 ^ 63)
    (fun _ _ _ _ _ _ => trivial) ?_ (fun _ _ _ _ _ _ h => h) ?_ hr trivial
  · intro e he hpoll
    rcases mem_init_events he with ⟨j, -, rfl⟩ | ⟨j, -, rfl⟩ | ⟨j, -, rfl⟩
    · cases hpoll
    · simp at hpoll
    · simp at hpoll
  · intro w c w' e rest hr _ _ _ _ _ hs x hx hpoll
    rcases mem_emitted_call own_isPoll hx hpoll with ⟨task, he, hnew⟩
    cases Server.schedules_of_mem_newTasks C k e.ts hnew with
    | boot htask =>
        rcases htask with rfl | rfl | rfl <;> simp at hpoll
    | firstSlot =>
        simp at hpoll
    | nextSlot =>
        simp at hpoll
    | poll _ hstop _ =>
        have hroom := hfit.stop
        change e.ts + 1000 < 2 ^ 63
        lia
    | answer =>
        simp at hpoll

theorem terminates_of_advance (hn : 0 < C.numNodes) (hfit : C.TimesFit)
    (hclients : C.ClientsAdvance) (hslots : C.SlotsAdvance) (hfits : C.SlotsFit) (H : ℕ) :
    C.Terminates H where
  bounded := ⟨(World.init C).cost C H, fun _ _ h => length_le_cost hn hclients hslots h⟩
  clients := fun _ _ _ h => client_isChain hn (fun hk hstart => hclients.pos hk hstart) h
  slots := fun _ _ _ h => slot_isChain (fun hsync hstart => hslots.pos hsync hstart) h
  polls := fun _ _ _ h => poll_isChain h
  times := by
    intro w es k h
    refine firings_lt ?_ h
    intro w hr e he hloop
    rcases Bool.or_eq_true_iff.1 hloop with hloop | hpoll
    · rcases Bool.or_eq_true_iff.1 hloop with hclient | hslot
      · exact client_lt hn hfit hr e he hclient
      · exact slot_lt hslots hfits hr e he hslot
    · exact poll_lt hfit hr e he hpoll

end Ends

/-! ## Loops that stand still -/

section StandsStill

variable {C : Cluster} {G : World → Choice → Prop} {H : ℕ} {w : World}

/-- If something is always pending, no bound holds for all runs. -/
theorem not_terminates (hlive : ∀ w, Reachable C (shortRoutes H) w → w.events ≠ []) :
    ¬ C.Terminates H := by
  intro h
  -- A run one step longer than the bound: take the next event, by the shortest route.
  rcases h.bounded with ⟨bound, hbound⟩
  have hlong : ∃ w es, Observed (program C) (shortRoutes H) executed w es ∧
      bound + 1 ≤ es.length := by
    apply exists_observed_length
    intro w hr
    cases hpop : pop w.events with
    | none =>
        exact absurd (pop_eq_none.1 hpop) (hlive w hr)
    | some popped =>
        rcases popped with ⟨e, rest⟩
        refine ⟨{}, { w with now := e.ts, events := rest }.exec C {} e.action, ?_, ?_, ?_⟩
        · unfold shortRoutes
          split
          · exact fun _ => .inl rfl
          · trivial
        · change World.step C {} w = _
          rw [World.step, not_aborted hr, hpop]
          rfl
        · simp [executed, hpop]
  rcases hlong with ⟨w, es, hobs, hlen⟩
  exact absurd (hbound w es hobs) (not_le.2 hlen)

/-- A client that does not wait between its requests never reaches its stop time. -/
theorem client_never_ends (hn : 0 < C.numNodes) (hk : 0 < C.numClients)
    (hstart : C.clientStartTime < C.clientStopTime) (hzero : C.sendInterval = 0)
    (hr : Reachable C G w) : w.events ≠ [] := by
  intro hnil
  have hnone : w.clientCalls 0 = [] := by
    rw [World.clientCalls, hnil, List.filter_nil]
  cases rotation_spec hn hr 0 with
  | calling m action _ hone _ =>
      cases hnone.symm.trans hone
  | silent m _ _ hlast =>
      rcases hlast with ⟨hle, -⟩ | hlate
      · exact absurd hk (not_lt.2 hle)
      · -- It would be silent after its stop time, but all its requests are sent at the start.
        have hnow : sendTime C m = C.clientStartTime := by
          rw [sendTime, hzero, Nat.mul_zero, Nat.add_zero]
        rw [hnow] at hlate
        exact absurd hstart (not_lt.2 hlate)

/-- While a call of the slots is pending, all slots of length zero are at the start. -/
theorem SlotLoop.pending_at_start (h : SlotLoop C 0 w) (hzero : C.slot = 0)
    (hcalls : w.calls 0 Task.isSlotLoop ≠ []) :
    ∃ e ∈ w.events, e.ts = C.startTime := by
  have hmem : ∀ e : Event, w.calls 0 Task.isSlotLoop = [e] → e ∈ w.events := by
    intro e he
    apply (mem_callsIn.1 (_ : e ∈ w.calls 0 Task.isSlotLoop)).1
    rw [he]
    exact List.mem_singleton_self _
  cases h with
  | boot hc _ _ =>
      exact ⟨_, hmem _ hc, rfl⟩
  | thread hc _ _ _ =>
      exact ⟨_, hmem _ hc, rfl⟩
  | slots k hc _ _ =>
      refine ⟨_, hmem _ hc, ?_⟩
      calc slotTime C 0 k = C.startTime + (0 + k * C.numNodes) * C.slot := rfl
        _ = C.startTime := by rw [hzero, Nat.mul_zero, Nat.add_zero]
  | ended k hc _ _ =>
      exact absurd hc hcalls

/-- Slots of length zero never reach the stop time. -/
theorem slots_never_end (hn : 0 < C.numNodes) (hsync : C.async = false)
    (hstart : C.startTime < C.stopTime) (hzero : C.slot = 0) (hr : Reachable C G w) :
    w.events ≠ [] := by
  have hcalls : w.calls 0 Task.isSlotLoop ≠ [] := by
    refine Transition.Reachable.invariant (P := fun w => w.calls 0 Task.isSlotLoop ≠ []) ?_ ?_ hr
    · have hinit : (World.init C).calls 0 Task.isSlotLoop =
          [⟨C.startTime, .server 0 .startApplication⟩] := (init_calls rfl).trans (if_pos ⟨rfl, hn⟩)
      exact fun hnil => nomatch hinit.symm.trans hnil
    · intro w c w' hr hpending hg hstep hnone
      rcases step_spec hstep with ⟨e, rest, hs⟩
      rcases (slotLoop hsync hn hr).pending_at_start hzero hpending with ⟨x, hx, hts⟩
      have hnow : w'.now ≤ C.startTime := by
        calc w'.now = e.ts := hs.now
          _ ≤ x.ts := pop_le hs.pop hx
          _ = C.startTime := hts
      -- The loop is over only once the stop time is reached.
      cases slotLoop hsync hn (.step hr hg hstep) with
      | boot hc _ _ =>
          cases hnone.symm.trans hc
      | thread hc _ _ _ =>
          cases hnone.symm.trans hc
      | slots k hc _ _ =>
          cases hnone.symm.trans hc
      | ended k _ _ hlate =>
          exact absurd hstart (not_lt.2 (hlate.trans hnow))
  intro hnil
  apply hcalls
  rw [World.calls, hnil, callsIn_nil]

/-- A run that ends has called every slot that was to come. -/
theorem slotsFit_of_terminates (hn : 0 < C.numNodes) (hslots : C.SlotsAdvance)
    (h : C.Terminates H) : C.SlotsFit := by
  by_cases ha : C.async = true
  · exact .inl ha
  have hsync : C.async = false := by simpa using ha
  obtain ⟨w, hr, hend⟩ : ∃ w, Reachable C (shortRoutes H) w ∧ w.events = [] := by
    by_contra hlive
    apply not_terminates _ h
    intro w hr hend
    exact hlive ⟨w, hr, hend⟩
  -- The last slot is number `m` of server `i`, and the one before it is before the stop.
  have hi : C.lastSlot % C.numNodes < C.numNodes := Nat.mod_lt _ hn
  have hnumber := Nat.mod_add_div' C.lastSlot C.numNodes
  generalize C.lastSlot % C.numNodes = i at hi hnumber
  generalize C.lastSlot / C.numNodes = m at hnumber
  have hbefore : ∀ j, j < m → slotTime C i j < C.stopTime := by
    intro j hj
    have hround : (j + 1) * C.numNodes ≤ m * C.numNodes := Nat.mul_le_mul_right _ hj
    rw [Nat.succ_mul] at hround
    have hlater : i + j * C.numNodes + C.numNodes ≤ C.lastSlot := by lia
    unfold Cluster.lastSlot at hlater
    by_cases hstop : C.stopTime ≤ C.startTime
    · rw [if_pos hstop] at hlater
      lia
    · rw [if_neg hstop] at hlater
      have hle : i + j * C.numNodes ≤ (C.stopTime - 1 - C.startTime) / C.slot := by lia
      rw [Nat.le_div_iff_mul_le (hslots.pos hsync (not_le.1 hstop))] at hle
      unfold slotTime
      lia
  have hcalled : slotTime C i m ∈ (w.traces i).syncCalls := by
    have hnone : w.calls i Task.isSlotLoop = [] := by rw [World.calls, hend, callsIn_nil]
    cases slotLoop hsync hi hr with
    | boot hc _ _ =>
        cases hnone.symm.trans hc
    | thread hc _ _ _ =>
        cases hnone.symm.trans hc
    | slots k hc _ _ _ =>
        cases hnone.symm.trans hc
    | ended k _ hcalls _ hlast =>
        rcases hlast with ⟨t, ht, hlate⟩
        rw [hcalls] at ht ⊢
        rcases List.mem_map.1 ht with ⟨j, hj, rfl⟩
        refine List.mem_map_of_mem (List.mem_range.2 ?_)
        by_contra hge
        rw [List.mem_range] at hj
        exact absurd (hbefore j (hj.trans_le (not_lt.1 hge))) (not_lt.2 hlate)
  rcases hr.observed executed with ⟨es, hobs⟩
  have hfired : slotTime C i m ∈ firings (Callback.isLoop i) (es ++ w.events) := by
    rw [← firings_isSlot hobs] at hcalled
    rcases mem_firings.1 hcalled with ⟨x, hx, hslot, hts⟩
    refine mem_firings.2 ⟨x, List.mem_append_left _ hx, ?_, hts⟩
    simp [Callback.isLoop, hslot]
  have htime := h.times w es i hobs _ hfired
  rw [slotTime, hnumber] at htime
  exact .inr htime

theorem terminates_iff (hn : 0 < C.numNodes) (hfit : C.TimesFit) :
    C.Terminates H ↔ C.ClientsAdvance ∧ C.SlotsAdvance ∧ C.SlotsFit := by
  constructor
  · intro h
    have hclients : C.ClientsAdvance := by
      by_contra hstill
      unfold Cluster.ClientsAdvance at hstill
      rcases not_or.1 hstill with ⟨hk, hstill⟩
      rcases not_or.1 hstill with ⟨hstart, hpos⟩
      apply not_terminates _ h
      intro w hr
      exact client_never_ends hn (Nat.pos_of_ne_zero hk) (not_le.1 hstart)
        (Nat.eq_zero_of_not_pos hpos) hr
    have hslots : C.SlotsAdvance := by
      by_contra hstill
      unfold Cluster.SlotsAdvance at hstill
      rcases not_or.1 hstill with ⟨hsync, hstill⟩
      rcases not_or.1 hstill with ⟨hstart, hpos⟩
      apply not_terminates _ h
      intro w hr
      exact slots_never_end hn (Bool.eq_false_iff.2 hsync) (not_le.1 hstart)
        (Nat.eq_zero_of_not_pos hpos) hr
    exact ⟨hclients, hslots, slotsFit_of_terminates hn hslots h⟩
  · rintro ⟨hclients, hslots, hfits⟩
    exact terminates_of_advance hn hfit hclients hslots hfits H

end StandsStill

/-! ## What the configuration decides -/

theorem run_withSlot (C : Cluster) (i : ℕ) (now : Time) (task : Task) (s : Server) :
    Server.run (C.withSlot C.slot) i now task s = Server.run C i now task s := by
  have hslot : (C.withSlot C.slot).slot = C.slot := by
    rw [Cluster.slot, Cluster.withSlot, Nat.mul_zero, Nat.zero_add]
  cases task with
  | startApplication =>
      have hperiod : (2 * 0 + C.slot) * C.numNodes =
          (2 * C.clockSyncError + C.boundedMessageDelay) * C.numNodes := by
        rw [Nat.mul_zero, Nat.zero_add, Cluster.slot]
      simp only [Server.run, Server.startApplication, Cluster.withSlot, hperiod]
  | startProposerThread =>
      simp only [Server.run, Server.startProposerThread, hslot]
      rfl
  | _ =>
      rfl

/-- The program takes nothing but the slot from the clock error and the delay bound. -/
theorem program_withSlot (C : Cluster) : program (C.withSlot C.slot) = program C := by
  have hstep : World.step (C.withSlot C.slot) = World.step C := by
    funext c w
    rw [World.step, World.step]
    cases pop w.events with
    | none =>
        rfl
    | some popped =>
        rcases popped with ⟨e, rest⟩
        rcases e with ⟨now, action⟩
        cases action with
        | server i task =>
            simp only [World.exec, run_withSlot]
        | _ =>
            rfl
  rw [program, program, hstep]
  rfl

/-- Unless the sum wraps around, the simulation of a configuration is the program of its cluster. -/
theorem program_simulation (config : PaxosConfig) (C : Cluster)
    (h : 2 * config.clockSyncError + config.boundedMessageDelay < 2 ^ 64) :
    program (config.simulation C) = program (config.install C) := by
  have hslot : config.slot = (config.install C).slot := Nat.mod_eq_of_lt h
  rw [PaxosConfig.simulation, hslot]
  exact program_withSlot (config.install C)

/-- The simulation of a configuration ends if and only if the interval it sends at is no multiple of
`2 ^ 32` and, in synchronous mode, the slot that the servers compute is not zero and an `int64_t`
holds the times of all slots. -/
theorem simulation_ends_iff (config : PaxosConfig) (C : Cluster) (H : ℕ) (hn : 0 < C.numNodes)
    (hfit : (config.simulation C).TimesFit) :
    (config.simulation C).Terminates H ↔
      (C.numClients = 0 ∨ C.clientStopTime ≤ C.clientStartTime ∨ ¬ 2 ^ 32 ∣ config.interval) ∧
        (config.isSynchronous = false ∨
          (C.stopTime ≤ C.startTime ∨ 0 < config.slot) ∧
            C.startTime + (config.simulation C).lastSlot * config.slot < 2 ^ 63) := by
  have hinterval : 0 < config.sendInterval ↔ ¬ 2 ^ 32 ∣ config.interval := by
    rw [PaxosConfig.sendInterval, Nat.dvd_iff_mod_eq_zero, Nat.pos_iff_ne_zero]
  have hmode : (!config.isSynchronous) = true ↔ config.isSynchronous = false := by simp
  have hslot : (config.simulation C).slot = config.slot := by
    rw [Cluster.slot, PaxosConfig.simulation, Cluster.withSlot, Nat.mul_zero, Nat.zero_add]
  have hslots : (config.simulation C).SlotsAdvance ↔
      config.isSynchronous = false ∨ C.stopTime ≤ C.startTime ∨ 0 < config.slot := by
    rw [Cluster.SlotsAdvance, hslot, ← hmode]
    rfl
  have hfits : (config.simulation C).SlotsFit ↔ config.isSynchronous = false ∨
      C.startTime + (config.simulation C).lastSlot * config.slot < 2 ^ 63 := by
    rw [Cluster.SlotsFit, hslot, ← hmode]
    rfl
  rw [terminates_iff (C := config.simulation C) hn hfit, hslots, hfits, ← hinterval, ← or_and_left]
  rfl

/-- The default configuration. -/
theorem simulation_ends_default :
    (({} : PaxosConfig).simulation
      (.oneClient 5 (by decide) false 0 0 (10 ^ 9) (10 ^ 9) 0 0)).Terminates 4 := by
  refine (simulation_ends_iff {} _ 4 (by decide) ⟨?_, ?_, ?_⟩).2
    ⟨.inr (.inr ?_), .inr ⟨.inr ?_, ?_⟩⟩ <;> decide

/-- Two times whose sum wraps around to a slot of zero. -/
example : ¬ (({ clockSyncError := 9223372036854774784, boundedMessageDelay := 2048 } :
    PaxosConfig).simulation (.oneClient 5 (by decide) false 0 0 (10 ^ 9) (10 ^ 9) 0 0)).Terminates 4 := by
  apply not_terminates
  intro w hr
  exact slots_never_end (by decide) rfl (by decide) (by decide) hr

/-- A delay bound below 10 ns leaves no time between two requests. -/
theorem nine_nanoseconds_never_end :
    ¬ (({ boundedMessageDelay := 9 } : PaxosConfig).simulation
      (.oneClient 5 (by decide) false 0 0 (10 ^ 9) (10 ^ 9) 0 0)).Terminates 4 := by
  apply not_terminates
  intro w hr
  exact client_never_ends (by decide) (by decide) (by decide) rfl hr

end SyncPaxos
