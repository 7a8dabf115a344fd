import Mathlib.Algebra.Order.Group.Abs
import Mathlib.Algebra.Order.Ring.Int
import Mathlib.Tactic.Ring
import SyncPaxos.Run.Calls
import SyncPaxos.Run.Stamps

/-!
# Slots — the synchronous schedule

`StartProposerThread` waits `i` slots before the first call of `DoSyncPropose`, and the call
repeats itself every `n` slots, so the `k`-th call of server `i` falls on slot `i + k * n`.
`SlotLoop` is the invariant of this loop: it follows the one pending call from the start of the
application on.  Two different calls of the cluster are then a slot apart, which is what the clock
error and the delay bound need (`slot_exclusivity`).
-/

namespace SyncPaxos

open DiscreteEvent Transition

/-- When server `i` calls `DoSyncPropose` for the `k`-th time, counted from zero. -/
def slotTime (C : Cluster) (i k : ℕ) : Time := C.startTime + (i + k * C.numNodes) * C.slot

/-- The calls that lead to the slots and keep them going. -/
def Task.isSlotLoop : Task → Bool
  | .startApplication | .startProposerThread | .doSyncPropose => true
  | _ => false

/-- The calls of `DoSyncPropose`. -/
def Task.isSlot : Task → Bool
  | .doSyncPropose => true
  | _ => false

theorem slotTime_zero (C : Cluster) (i : ℕ) : slotTime C i 0 = C.startTime + i * C.slot := by
  simp [slotTime]

theorem slotTime_succ (C : Cluster) (i k : ℕ) :
    slotTime C i (k + 1) = slotTime C i k + C.slot * C.numNodes := by
  unfold slotTime
  ring

/-- The number of a slot gives the server and its round. -/
theorem slot_unique {n i j k m : ℕ} (hi : i < n) (hj : j < n) (h : i + k * n = j + m * n) :
    i = j ∧ k = m := by
  have hpos : 0 < n := Nat.zero_lt_of_lt hi
  have hij : i = j := by
    have hmod := congrArg (· % n) h
    simpa [Nat.add_mul_mod_self_right, Nat.mod_eq_of_lt hi, Nat.mod_eq_of_lt hj] using hmod
  refine ⟨hij, ?_⟩
  rw [hij] at h
  exact Nat.eq_of_mul_eq_mul_right hpos (Nat.add_left_cancel h)

/-- A later slot starts at least one slot later. -/
theorem slotTime_add_le {C : Cluster} {i j k m : ℕ}
    (h : i + k * C.numNodes < j + m * C.numNodes) :
    slotTime C i k + C.slot ≤ slotTime C j m := by
  calc slotTime C i k + C.slot = C.startTime + (i + k * C.numNodes + 1) * C.slot := by
        unfold slotTime
        ring
    _ ≤ C.startTime + (j + m * C.numNodes) * C.slot :=
        Nat.add_le_add_left (Nat.mul_le_mul_right _ h) _

theorem slotTime_add_period {C : Cluster} {i k m : ℕ} (h : k < m) :
    slotTime C i k + C.numNodes * C.slot ≤ slotTime C i m := by
  calc slotTime C i k + C.numNodes * C.slot = C.startTime + (i + (k + 1) * C.numNodes) * C.slot := by
        unfold slotTime
        ring
    _ ≤ C.startTime + (i + m * C.numNodes) * C.slot :=
        Nat.add_le_add_left (Nat.mul_le_mul_right _ (Nat.add_le_add_left
          (Nat.mul_le_mul_right _ h) _)) _

theorem slotTime_lt {C : Cluster} {i j k m : ℕ} (h : slotTime C i k < slotTime C j m) :
    i + k * C.numNodes < j + m * C.numNodes := by
  by_contra hle
  have hmono : slotTime C j m ≤ slotTime C i k :=
    Nat.add_le_add_left (Nat.mul_le_mul_right _ (not_lt.1 hle)) _
  lia

/-- Two different slots are a slot apart. -/
theorem slotTime_apart {C : Cluster} {i j k m : ℕ} (hi : i < C.numNodes) (hj : j < C.numNodes)
    (hne : (i, k) ≠ (j, m)) :
    slotTime C i k + C.slot ≤ slotTime C j m ∨ slotTime C j m + C.slot ≤ slotTime C i k := by
  rcases lt_trichotomy (i + k * C.numNodes) (j + m * C.numNodes) with h | h | h
  · exact .inl (slotTime_add_le h)
  · rcases slot_unique hi hj h with ⟨rfl, rfl⟩
    exact absurd rfl hne
  · exact .inr (slotTime_add_le h)

/-! ## What one call does to the loop -/

section Local

variable {C : Cluster} {i : ℕ} {now : Time} {task : Task} {s : Server}

theorem own_isSlotLoop : Own Task.isSlotLoop := by
  intro task h
  cases task <;> simp at h <;> rfl

/-- Only `StartApplication` sets the period. -/
theorem run_proposePeriod (h : task ≠ .startApplication) :
    (Server.run C i now task s).server.proposePeriod = s.proposePeriod := by
  have hpropose : ∀ s : Server,
      (s.doPropose C i now).2.server.proposePeriod = s.proposePeriod := by
    intro s
    rcases Server.doPropose_cases C i now s with ⟨-, h⟩ | ⟨p, rest, -, h⟩ <;>
      simp [h, Server.record, Server.putProposal]
  have hasync : ∀ s : Server,
      (s.doAsyncPropose C i now).server.proposePeriod = s.proposePeriod := by
    intro s
    rcases Server.doAsyncPropose_cases C i now s with ⟨-, h⟩ | ⟨-, -, h⟩ | ⟨-, p, rest, -, h⟩ <;>
      simp [h, Server.record, Server.putProposal]
  cases task with
  | startApplication =>
      exact absurd rfl h
  | startProposerThread =>
      rcases Server.startProposerThread_cases C i now s with ⟨-, -, h⟩ | ⟨-, -, h⟩ | ⟨-, h⟩ <;>
        simp [Server.run, h, hasync, Server.record]
  | createProposalFromRequest r =>
      rcases Server.createProposalFromRequest_cases i now r s with ⟨-, h⟩ | ⟨-, h⟩ <;>
        simp [Server.run, h, Server.record]
  | doSyncPropose =>
      rcases Server.doSyncPropose_cases C i now s with ⟨-, h⟩ | ⟨-, h⟩ <;>
        simp [Server.run, h, hpropose, Server.record]
  | doAsyncPropose =>
      exact hasync s
  | doReceivedAcceptMessage f =>
      rcases Server.doReceivedAcceptMessage_cases C i now f s with
        ⟨-, h⟩ | ⟨found, -, -, ⟨-, h⟩ | ⟨-, -, -, h⟩ | ⟨-, -, -, h⟩⟩ <;>
        simp [Server.run, h, Server.record, Server.putProposal, Server.pushDecided,
          Server.eraseProposal]
  | doReceivedDecisionAckMessage f =>
      rcases Server.doReceivedDecisionAckMessage_cases C i now f s with
        ⟨-, h⟩ | ⟨found, -, -, ⟨-, h⟩ | ⟨-, -, h⟩⟩ <;>
        simp [Server.run, h, hasync, Server.record, Server.putProposal, Server.pushDecided,
          Server.eraseProposal]
  | _ =>
      rfl

/-- Only `DoSyncPropose` is recorded as such. -/
theorem newRecords_syncCalls :
    Trace.syncCalls (Server.newRecords C i now task s) =
      if task = .doSyncPropose then [now] else [] := by
  have hlines : ∀ r : Record, ¬ r.IsLine → r.syncPropose? = none := by
    intro r hr
    cases r <;> simp [Record.IsLine] at hr ⊢
  rw [Trace.syncCalls, newRecords_filterMap hlines]
  cases task <;> rfl

/-- No other call touches the loop. -/
theorem newTasks_slotLoop (h : task.isSlotLoop = false) :
    callsIn i Task.isSlotLoop (Server.newTasks C i now task s) = [] := by
  refine callsIn_eq_nil ?_
  intro x hx
  cases Server.schedules_of_mem_newTasks C i now hx with
  | boot =>
      cases h
  | firstSlot =>
      cases h
  | nextSlot =>
      cases h
  | poll =>
      simp [Callback.isCall, Task.isSlotLoop]
  | answer =>
      simp [Callback.isCall, Task.isSlotLoop]

end Local

/-! ## The loop along a run -/

/-- The loop of server `i`, from the start of its application to the first slot that comes too
late. -/
inductive SlotLoop (C : Cluster) (i : ℕ) (w : World) : Prop
  | boot : w.calls i Task.isSlotLoop = [⟨C.startTime, .server i .startApplication⟩] →
      .proposerStarted ∉ w.traces i → (w.traces i).syncCalls = [] → SlotLoop C i w
  | thread : w.calls i Task.isSlotLoop = [⟨C.startTime, .server i .startProposerThread⟩] →
      (w.servers i).proposePeriod = C.slot * C.numNodes →
      .proposerStarted ∉ w.traces i → (w.traces i).syncCalls = [] → SlotLoop C i w
  | slots (k : ℕ) :
      w.calls i Task.isSlotLoop = [⟨slotTime C i k, .server i .doSyncPropose⟩] →
      (w.servers i).proposePeriod = C.slot * C.numNodes →
      (w.traces i).syncCalls = (List.range k).map (slotTime C i) →
      (∀ t ∈ (w.traces i).syncCalls, t < C.stopTime) → SlotLoop C i w
  | ended (k : ℕ) : w.calls i Task.isSlotLoop = [] →
      (w.traces i).syncCalls = (List.range k).map (slotTime C i) →
      C.stopTime ≤ w.now → (∃ t ∈ (w.traces i).syncCalls, C.stopTime ≤ t) → SlotLoop C i w

section Runs

variable {C : Cluster} {G : World → Choice → Prop} {w w' : World} {c : Choice} {i : ℕ}

theorem SlotLoop.init (hi : i < C.numNodes) : SlotLoop C i (World.init C) := by
  refine .boot ?_ (by simp [World.traces, World.init]) rfl
  rw [init_calls rfl, if_pos ⟨rfl, hi⟩]

/-- An event that is no call of the loop leaves it as it is. -/
theorem SlotLoop.of_same (h : SlotLoop C i w)
    (hcalls : (w.calls i Task.isSlotLoop).Perm (w'.calls i Task.isSlotLoop))
    (hperiod : (w'.servers i).proposePeriod = (w.servers i).proposePeriod)
    (hstarted : .proposerStarted ∈ w'.traces i ↔ .proposerStarted ∈ w.traces i)
    (hsync : (w'.traces i).syncCalls = (w.traces i).syncCalls) (hnow : w.now ≤ w'.now) :
    SlotLoop C i w' := by
  cases h with
  | boot hc hs ht =>
      rw [hc] at hcalls
      exact .boot hcalls.symm.eq_singleton (hstarted.not.2 hs) (hsync.trans ht)
  | thread hc hp hs ht =>
      rw [hc] at hcalls
      exact .thread hcalls.symm.eq_singleton (hperiod.trans hp) (hstarted.not.2 hs)
        (hsync.trans ht)
  | slots k hc hp ht hearly =>
      rw [hc] at hcalls
      exact .slots k hcalls.symm.eq_singleton (hperiod.trans hp) (hsync.trans ht) (hsync ▸ hearly)
  | ended k hc ht hlate hlast =>
      rw [hc] at hcalls
      exact .ended k hcalls.symm.eq_nil (hsync.trans ht) (hlate.trans hnow) (hsync ▸ hlast)

/-- The one pending call of the loop runs. -/
theorem SlotLoop.run (h : SlotLoop C i w) (hsync : C.async = false) {now : Time} {task : Task}
    {rest : List Event} (hs : StepSpec C c w w' ⟨now, .server i task⟩ rest)
    (htask : task.isSlotLoop = true) : SlotLoop C i w' := by
  rcases hs.calls_run (g := Task.isSlotLoop) with ⟨l, hperm, hcalls⟩
  have hhead : callsIn i Task.isSlotLoop [⟨now, .server i task⟩] = [⟨now, .server i task⟩] := by
    simp [htask]
  rw [hhead] at hperm
  have htrace := hs.traces_server
  rw [Server.run_trace] at htrace
  have hserver : w'.servers i = (Server.run C i now task (w.servers i)).server := by
    simp [hs.servers, serversAfter]
  have hcallsOf : (w'.traces i).syncCalls = (w.traces i).syncCalls ++
      if task = .doSyncPropose then [now] else [] := by
    rw [htrace, Trace.syncCalls, List.filterMap_append, ← newRecords_syncCalls]
    rfl
  -- The call that ran is the one that was pending, and nothing else was.
  have hone : ∀ e : Event, w.calls i Task.isSlotLoop = [e] →
      e = ⟨now, .server i task⟩ ∧ l = [] := by
    intro e he
    rw [he] at hperm
    have hlist := hperm.symm.eq_singleton
    simp at hlist
    exact ⟨hlist.1.symm, hlist.2⟩
  cases h with
  | boot hc hst ht =>
      rcases hone _ hc with ⟨heq, rfl⟩
      cases heq
      refine .thread ?_ ?_ ?_ ?_
      · rw [hcalls]
        simp [Server.newTasks, Task.isSlotLoop]
      · rw [hserver]
        rfl
      · rw [htrace, List.mem_append, mem_newRecords_started]
        simpa [World.traces] using hst
      · rw [hcallsOf, if_neg (by simp), List.append_nil]
        exact ht
  | thread hc hp hst ht =>
      rcases hone _ hc with ⟨heq, rfl⟩
      cases heq
      have hnone : (w'.traces i).syncCalls = [] := by
        rw [hcallsOf, if_neg (by simp), List.append_nil]
        exact ht
      refine .slots 0 ?_ ?_ hnone ?_
      · rw [hcalls, slotTime_zero]
        simp [Server.newTasks, hsync, Task.isSlotLoop]
      · rw [hserver, run_proposePeriod (by simp)]
        exact hp
      · intro t hmem
        rw [hnone] at hmem
        cases hmem
  | slots k hc hp ht hearly =>
      rcases hone _ hc with ⟨heq, rfl⟩
      cases heq
      have hnewCalls : (w'.traces i).syncCalls =
          (List.range (k + 1)).map (slotTime C i) := by
        rw [hcallsOf, if_pos rfl, ht, List.range_succ, List.map_append]
        rfl
      by_cases hlate : C.stopTime ≤ slotTime C i k
      · -- A call at or after the stop time does not repeat itself.
        refine .ended (k + 1) ?_ hnewCalls (hs.now ▸ hlate) ⟨slotTime C i k, ?_, hlate⟩
        · rw [hcalls]
          simp [Server.newTasks, hlate]
        · rw [hnewCalls]
          exact List.mem_map_of_mem (List.mem_range.2 (Nat.lt_succ_self k))
      · refine .slots (k + 1) ?_ ?_ hnewCalls ?_
        · rw [hcalls, slotTime_succ]
          simp [Server.newTasks, hlate, hp, Task.isSlotLoop]
        · rw [hserver, run_proposePeriod (by simp)]
          exact hp
        · intro t hmem
          rw [hcallsOf, if_pos rfl, List.mem_append, List.mem_singleton] at hmem
          rcases hmem with hmem | rfl
          · exact hearly t hmem
          · exact not_le.1 hlate
  | ended k hc ht hlate =>
      -- A loop that has ended has no pending call that could run.
      rw [hc] at hperm
      simp at hperm

theorem slotLoop (hsync : C.async = false) (hi : i < C.numNodes) (hr : Reachable C G w) :
    SlotLoop C i w := by
  refine Transition.Reachable.invariant (P := SlotLoop C i) (SlotLoop.init hi) ?_ hr
  intro w c w' hr hw _ hstep
  rcases step_spec hstep with ⟨e, rest, hs⟩
  have hnow := step_now_le hr hstep
  rcases e with ⟨now, action⟩
  -- An event that is no call of server `i` leaves the server and its list of calls alone.
  have hquiet : (∀ task, action ≠ .server i task) → w'.servers i = w.servers i →
      SlotLoop C i w' := by
    intro hne hserver
    have htrace : w'.traces i = w.traces i := congrArg Server.trace hserver
    refine hw.of_same (hs.calls_quiet own_isSlotLoop hne) ?_ ?_ ?_ hnow
    · rw [hserver]
    · rw [htrace]
    · rw [htrace]
  cases action with
  | server j task =>
      by_cases hij : j = i
      · subst hij
        cases hloop : task.isSlotLoop with
        | true =>
            exact hw.run hsync hs hloop
        | false =>
            -- The call is none of the loop: it takes nothing from the list and adds nothing.
            have htrace := hs.traces_server
            rw [Server.run_trace] at htrace
            rcases hs.calls_run (g := Task.isSlotLoop) with ⟨l, hperm, hcalls⟩
            refine hw.of_same ?_ ?_ ?_ ?_ hnow
            · rw [hcalls, newTasks_slotLoop hloop, List.append_nil]
              simpa [hloop] using hperm
            · have hne : task ≠ .startApplication := by
                rintro rfl
                cases hloop
              simp [hs.servers, serversAfter, run_proposePeriod hne]
            · have hne : task ≠ .startProposerThread := by
                rintro rfl
                cases hloop
              rw [htrace, List.mem_append, mem_newRecords_started]
              simp [hne, World.traces]
            · have hne : task ≠ .doSyncPropose := by
                rintro rfl
                cases hloop
              rw [htrace, Trace.syncCalls, List.filterMap_append, ← Trace.syncCalls,
                ← Trace.syncCalls, newRecords_syncCalls, if_neg hne, List.append_nil]
              rfl
      · refine hquiet (fun task => by simp [hij]) ?_
        simp [hs.servers, serversAfter, Function.update_of_ne (Ne.symm hij)]
  | clientStart k =>
      exact hquiet (fun _ => by simp) (by simp [hs.servers, serversAfter])
  | sendRequest k =>
      exact hquiet (fun _ => by simp) (by simp [hs.servers, serversAfter])
  | transit packet hop =>
      exact hquiet (fun _ => by simp) (by simp [hs.servers, serversAfter])

theorem SlotLoop.syncCalls (h : SlotLoop C i w) :
    ∃ k, (w.traces i).syncCalls = (List.range k).map (slotTime C i) := by
  cases h with
  | boot hc hst ht =>
      exact ⟨0, ht⟩
  | thread hc hp hst ht =>
      exact ⟨0, ht⟩
  | slots k hc hp ht =>
      exact ⟨k, ht⟩
  | ended k hc ht hlate =>
      exact ⟨k, ht⟩

/-- A server calls `DoSyncPropose` in its slots, in their order. -/
theorem syncCalls_eq (hsync : C.async = false) (hr : Reachable C G w) {k : ℕ} {t : Time}
    (ht : (w.traces i).syncCalls[k]? = some t) : i < C.numNodes ∧ t = slotTime C i k := by
  have hmem : t ∈ (w.traces i).syncCalls := List.mem_of_getElem? ht
  rcases List.mem_filterMap.1 hmem with ⟨r, hline, -⟩
  have hi := lt_of_mem_trace hr hline
  rcases (slotLoop hsync hi hr).syncCalls with ⟨m, hm⟩
  rw [hm, List.getElem?_map, Option.map_eq_some_iff] at ht
  rcases ht with ⟨k', hk', rfl⟩
  rcases List.getElem?_eq_some_iff.1 hk' with ⟨hlt, hkk⟩
  rw [List.getElem_range] at hkk
  exact ⟨hi, by rw [hkk]⟩

/-- In synchronous mode a PROPOSAL is made in a slot of its proposer. -/
theorem proposed_sync (hsync : C.async = false) (hr : Reachable C G w) (i : ℕ) :
    ∀ f ∈ (w.traces i).proposed, f.proposeTime ∈ (w.traces i).syncCalls := by
  refine server_invariant (Q := fun _ => True)
    (P := fun _ s => ∀ f ∈ s.trace.proposed, f.proposeTime ∈ s.trace.syncCalls)
    (fun _ _ _ _ _ _ => trivial) ?_ ?_ hr trivial i
  · intro i f hf
    cases hf
  · intro w c w' i task now rest hr _ _ _ _ hs hold f hf
    -- `DoPropose` is reached from a poll, too, but not in this mode.
    have hpoll : task ≠ .doAsyncPropose := by
      rintro rfl
      have hmode : C.async = true := ofMode hr _ (mem_of_pop hs.pop)
      rw [hsync] at hmode
      cases hmode
    rw [Server.run_trace, Trace.proposed, List.filterMap_append] at hf
    rw [Server.run_trace, Trace.syncCalls, List.filterMap_append]
    rcases List.mem_append.1 hf with hf | hf
    · exact List.mem_append_left _ (hold f hf)
    · have htask : task = .doSyncPropose := by
        rcases (newRecords_proposed hf).2 with h | h | ⟨-, ha⟩ | ⟨g, -, hacks⟩
        · exact h
        · exact absurd h hpoll
        · cases hsync.symm.trans ha
        · cases hsync.symm.trans (Server.acksOn_async hacks)
      have htime := (newRecords_at _ (Trace.mem_proposed.1 hf)).2
      refine List.mem_append_right _ ?_
      rw [htime, ← Trace.syncCalls, newRecords_syncCalls, if_pos htask]
      exact List.mem_singleton_self _

end Runs

/-! ## Slot exclusivity -/

section Exclusive

variable {C : Cluster} {G : World → Choice → Prop} {w : World} {i : ℕ}

/-- From its start to its stop a server waits for exactly one slot, its next one. -/
theorem timers_one (hsync : C.async = false) (hr : Reachable C G w) (hi : i < C.numNodes)
    (hstart : .proposerStarted ∈ w.traces i ∨ C.startTime < w.now) (hstop : w.now < C.stopTime) :
    w.timers i .doSyncPropose =
      [⟨slotTime C i (w.traces i).syncCalls.length, .server i .doSyncPropose⟩] := by
  -- An event due at the start is not pending any more.
  have hnone : ∀ task, .proposerStarted ∉ w.traces i →
      w.calls i Task.isSlotLoop ≠ [⟨C.startTime, .server i task⟩] := by
    intro task hst hcalls
    have hlate : C.startTime < w.now := hstart.resolve_left hst
    have hmem : (⟨C.startTime, .server i task⟩ : Event) ∈ w.calls i Task.isSlotLoop := by
      rw [hcalls]
      exact List.mem_singleton_self _
    have hnow := now_le_of_mem_events hr _ (mem_callsIn.1 hmem).1
    exact absurd hlate (not_lt.2 hnow)
  cases slotLoop hsync hi hr with
  | boot hc hst ht =>
      exact absurd hc (hnone _ hst)
  | thread hc hp hst ht =>
      exact absurd hc (hnone _ hst)
  | slots k hc hp ht =>
      rw [timers_eq w i _ (g := Task.isSlotLoop) rfl, hc, ht]
      simp
  | ended k hc ht hlate =>
      exact absurd hstop (not_lt.2 hlate)

/-- The slot that is pending is the next one. -/
theorem slot_pending (hsync : C.async = false) (hr : Reachable C G w) {t : Time}
    (he : (⟨t, .server i .doSyncPropose⟩ : Event) ∈ w.events) :
    t = slotTime C i (w.traces i).syncCalls.length := by
  have hmem : (⟨t, .server i .doSyncPropose⟩ : Event) ∈ w.calls i Task.isSlotLoop :=
    mem_callsIn.2 ⟨he, _, rfl, rfl⟩
  cases slotLoop hsync ((booted hr).due _ he).lt hr with
  | boot hc hst ht =>
      simp [hc] at hmem
  | thread hc hp hst ht =>
      simp [hc] at hmem
  | slots k hc hp ht =>
      rw [hc] at hmem
      cases List.mem_singleton.1 hmem
      rw [ht, List.length_map, List.length_range]
  | ended k hc ht hlate =>
      simp [hc] at hmem

/-- What the slots are for.  `clock a t` is the time at which the clock of server `a` shows `t`. -/
structure SlotExclusivity (C : Cluster) (w : World) : Prop where
  pending : ∀ i, i < C.numNodes → .proposerStarted ∈ w.traces i ∨ C.startTime < w.now →
    w.now < C.stopTime →
    w.timers i .doSyncPropose =
      [⟨slotTime C i (w.traces i).syncCalls.length, .server i .doSyncPropose⟩]
  times : ∀ (i k : ℕ) (t : Time), (w.traces i).syncCalls[k]? = some t → t = slotTime C i k
  apart : ∀ (i j k m : ℕ) (t t' : Time), (w.traces i).syncCalls[k]? = some t →
    (w.traces j).syncCalls[m]? = some t' → (i, k) ≠ (j, m) →
    t + C.slot ≤ t' ∨ t' + C.slot ≤ t
  heard : ∀ clock : ℕ → Time → ℤ, (∀ a t, |clock a t - t| ≤ C.clockSyncError) →
    ∀ packet ∈ w.sent, ∀ f, packet.paxos? = some f → f.isProposal = true →
      ∃ k : ℕ, (w.traces f.proposerId).syncCalls[k]? = some packet.sentAt ∧
        ∀ d : Time, d ≤ C.boundedMessageDelay → ∀ j m, j < C.numNodes →
          packet.sentAt < slotTime C j m →
          clock f.proposerId packet.sentAt + d ≤ clock j (slotTime C j m)

theorem sent_proposal (hr : Reachable C G w) {packet : Packet} (hp : packet ∈ w.sent)
    {f : PaxosFrame} (hf : packet.paxos? = some f) (hprop : f.isProposal = true) :
    f ∈ (w.traces f.proposerId).proposed ∧ packet.sentAt = f.proposeTime := by
  have htype : f.messageType = PaxosFrame.PROPOSAL := by
    simpa [PaxosFrame.isProposal] using hprop
  refine ⟨?_, sent_stamp hr packet hp f hf f.proposeTime (by simp [PaxosFrame.stamp?, hprop])⟩
  have hj := (sent_justified hr packet hp).2
  cases hpay : packet.payload with
  | request r =>
      simp [Packet.paxos?, hpay] at hf
  | paxos g =>
      obtain rfl : g = f := by simpa [Packet.paxos?, hpay] using hf
      rw [hpay] at hj
      exact (FrameAt.proposalAt hj htype).mem

end Exclusive

end SyncPaxos
