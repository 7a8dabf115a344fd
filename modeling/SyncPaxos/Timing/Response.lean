import SyncPaxos.Timing.Bounds

/-!
# Response — how long a request waits in synchronous mode

The proposer of a server takes the front of its queue in every slot, so the slot in which a request is
proposed is known as soon as it is queued: the request at position `j` is proposed in the slot that
comes after `j` others.  Whatever the network does, nothing overtakes it and no slot is left out.
-/

namespace SyncPaxos

open DiscreteEvent Transition

section Local

variable {C : Cluster} {i : ℕ} {now : Time} {task : Task} {s : Server}

/-- Only a slot takes from the queue. -/
theorem run_waiting (hsync : C.async = false) (hslot : task ≠ .doSyncPropose)
    (hpoll : task ≠ .doAsyncPropose) :
    s.waitingProposals <+: (Server.run C i now task s).server.waitingProposals := by
  cases task with
  | doSyncPropose => exact absurd rfl hslot
  | doAsyncPropose => exact absurd rfl hpoll
  | startProposerThread =>
      rcases Server.startProposerThread_cases C i now s with ⟨ha, -⟩ | ⟨ha, -⟩ | ⟨-, h⟩
      · cases hsync.symm.trans ha
      · cases hsync.symm.trans ha
      · rw [Server.run, h]
        exact List.prefix_rfl
  | createProposalFromRequest r =>
      rcases Server.createProposalFromRequest_cases i now r s with ⟨-, h⟩ | ⟨-, h⟩
      · rw [Server.run, h]
      · rw [Server.run, h]
        exact List.prefix_append _ _
  | doReceivedAcceptMessage f =>
      rcases Server.doReceivedAcceptMessage_cases C i now f s with
        ⟨-, h⟩ | ⟨p, -, -, ⟨-, h⟩ | ⟨-, -, -, h⟩ | ⟨-, -, -, h⟩⟩ <;>
      · rw [Server.run, h]
        exact List.prefix_rfl
  | doReceivedDecisionAckMessage f =>
      rcases Server.doReceivedDecisionAckMessage_cases C i now f s with ⟨-, h⟩ | ⟨p, ha, -⟩
      · rw [Server.run, h]
        exact List.prefix_rfl
      · cases hsync.symm.trans ha
  | _ => exact List.prefix_rfl

/-- A slot before the stop takes the front of the queue. -/
theorem doSyncPropose_front {p : Proposal} {rest : List Proposal} (hnow : now < C.stopTime)
    (hw : s.waitingProposals = p :: rest) :
    (Server.run C i now .doSyncPropose s).server.waitingProposals = rest ∧
      proposalFrame i now p ∈ (Server.run C i now .doSyncPropose s).server.trace.proposed := by
  rcases Server.doSyncPropose_cases C i now s with ⟨hlate, -⟩ | ⟨-, h⟩
  · exact absurd hnow (not_lt.2 hlate)
  · rcases Server.doPropose_cases C i now (s.record (.syncPropose now)) with
      ⟨hnil, -⟩ | ⟨q, ps, hq, hpropose⟩
    · cases hw.symm.trans hnil
    · cases hw.symm.trans hq
      rw [Server.run, h, hpropose]
      exact ⟨rfl, by simp [Server.record]⟩

end Local

/-! ## The slot of a request -/

section Runs

variable {C : Cluster} {G : World → Choice → Prop} {w w' : World} {c : Choice} {i k : ℕ}
  {p : Proposal}

theorem slotTime_mono {m : ℕ} (h : k ≤ m) : slotTime C i k ≤ slotTime C i m :=
  Nat.add_le_add_left (Nat.mul_le_mul_right _ (Nat.add_le_add_left (Nat.mul_le_mul_right _ h) _)) _

/-- The request waits for the slot `k` of its server, or was proposed there. -/
inductive Scheduled (C : Cluster) (i k : ℕ) (p : Proposal) (w : World) : Prop
  | ahead (j : ℕ) : w.calls i Task.isSlotLoop ≠ [] →
      (w.servers i).waitingProposals[j]? = some p → (w.traces i).syncCalls.length + j = k →
      Scheduled C i k p w
  | done : proposalFrame i (slotTime C i k) p ∈ (w.traces i).proposed → Scheduled C i k p w

theorem Scheduled.of_same (h : Scheduled C i k p w)
    (hcalls : (w.calls i Task.isSlotLoop).Perm (w'.calls i Task.isSlotLoop))
    (hserver : w'.servers i = w.servers i) : Scheduled C i k p w' := by
  have htrace : w'.traces i = w.traces i := congrArg Server.trace hserver
  cases h with
  | ahead j hne hp hk =>
      refine .ahead j ?_ (hserver ▸ hp) (htrace ▸ hk)
      intro hnil
      rw [hnil] at hcalls
      exact hne hcalls.eq_nil
  | done hf =>
      exact .done (htrace ▸ hf)

/-- A call of the server takes the request on by one place, or proposes it. -/
theorem Scheduled.run (h : Scheduled C i k p w) (hsync : C.async = false) (hr : Reachable C G w)
    (hstop : slotTime C i k < C.stopTime) {now : Time} {task : Task} {rest : List Event}
    (hs : StepSpec C c w w' ⟨now, .server i task⟩ rest) : Scheduled C i k p w' := by
  have hserver : w'.servers i = (Server.run C i now task (w.servers i)).server := by
    simp [hs.servers, serversAfter]
  have htrace := hs.traces_server
  cases h with
  | done hf =>
      refine .done ?_
      rw [htrace, Server.run_trace, Trace.proposed, List.filterMap_append]
      exact List.mem_append_left _ hf
  | ahead j hne hp hk =>
      have hcallsOf : (w'.traces i).syncCalls = (w.traces i).syncCalls ++
          if task = .doSyncPropose then [now] else [] := by
        rw [htrace, Server.run_trace, Trace.syncCalls, List.filterMap_append,
          ← newRecords_syncCalls]
        rfl
      rcases hs.calls_run (g := Task.isSlotLoop) with ⟨l, hperm, hcalls⟩
      by_cases hslot : task = .doSyncPropose
      · subst hslot
        have hnow : now = slotTime C i (w.traces i).syncCalls.length :=
          slot_pending hsync hr (mem_of_pop hs.pop)
        have hlt : now < C.stopTime := by
          rw [hnow]
          exact (slotTime_mono (hk ▸ Nat.le_add_right _ _)).trans_lt hstop
        cases hw : (w.servers i).waitingProposals with
        | nil =>
            rw [hw] at hp
            cases hp
        | cons q ps =>
            rcases doSyncPropose_front (C := C) (i := i) hlt hw with ⟨hwaiting, hproposed⟩
            rw [hw] at hp
            cases j with
            | zero =>
                obtain rfl : q = p := Option.some.inj hp
                refine .done ?_
                rw [← hk, Nat.add_zero, ← hnow, htrace]
                exact hproposed
            | succ j =>
                refine .ahead j ?_ ?_ ?_
                · rw [hcalls]
                  simp [Server.newTasks, not_le.2 hlt, Task.isSlotLoop]
                · rw [hserver, hwaiting]
                  exact hp
                · rw [hcallsOf, if_pos rfl, List.length_append, List.length_singleton]
                  lia
      · have hpoll : task ≠ .doAsyncPropose := by
          rintro rfl
          have hmode : C.async = true := ofMode hr _ (mem_of_pop hs.pop)
          cases hsync.symm.trans hmode
        refine .ahead j ?_ ?_ ?_
        · rw [hcalls]
          cases htask : task.isSlotLoop with
          | false =>
              simp only [callsIn_server, htask] at hperm
              intro hnil
              rw [List.append_eq_nil_iff.1 hnil |>.1] at hperm
              exact hne hperm.eq_nil
          | true =>
              cases task <;> simp [Task.isSlotLoop] at htask hslot <;>
                simp [Server.newTasks, Task.isSlotLoop, hsync]
        · have hprefix : (w.servers i).waitingProposals <+:
              (Server.run C i now task (w.servers i)).server.waitingProposals :=
            run_waiting hsync hslot hpoll
          rcases hprefix with ⟨l', hl'⟩
          rw [hserver, ← hl', List.getElem?_append_left (List.getElem?_eq_some_iff.1 hp).1]
          exact hp
        · rw [hcallsOf, if_neg hslot, List.append_nil]
          exact hk

/-- A server with a request in its queue is one of the cluster, and has started. -/
theorem started_of_waiting (hr : Reachable C G w) {j : ℕ}
    (hp : (w.servers i).waitingProposals[j]? = some p) :
    i < C.numNodes ∧ C.startTime ≤ w.now := by
  have hqueued : (w.traces i).queued ≠ [] := by
    intro hnil
    have hqueue := (ledger hr i).queue
    rw [World.traces] at hnil
    rw [hnil, List.map_nil] at hqueue
    have hwaiting := List.map_eq_nil_iff.1 (List.append_eq_nil_iff.1 hqueue).2
    rw [hwaiting] at hp
    cases hp
  rcases List.exists_mem_of_ne_nil _ hqueued with ⟨r, hmem⟩
  refine ⟨lt_of_mem_trace hr (Trace.mem_queued.1 hmem), ?_⟩
  exact (Nat.le_add_right _ _).trans ((booted hr).queued i hqueued)

/-- The slot that comes next is not further away than one round. -/
theorem slot_le (hsync : C.async = false) (hr : Reachable C G w) (hi : i < C.numNodes)
    (hstart : C.startTime ≤ w.now) :
    slotTime C i (w.traces i).syncCalls.length ≤ w.now + C.numNodes * C.slot := by
  rcases (slotLoop hsync hi hr).syncCalls with ⟨k, hk⟩
  rw [hk, List.length_map, List.length_range]
  cases k with
  | zero =>
      rw [slotTime_zero]
      exact Nat.add_le_add hstart (Nat.mul_le_mul_right _ hi.le)
  | succ k =>
      have hmem : slotTime C i k ∈ (w.traces i).syncCalls := by
        rw [hk]
        exact List.mem_map_of_mem (List.mem_range.2 (Nat.lt_succ_self k))
      rcases List.mem_filterMap.1 hmem with ⟨r, hline, hr'⟩
      rcases traces_at hr i r hline with ⟨t, ht, hat⟩
      cases r <;> simp at hr'
      obtain rfl : slotTime C i k = t := hr'.symm.trans hat
      rw [slotTime_succ, Nat.mul_comm C.slot]
      exact Nat.add_le_add_right ht _

theorem scheduled (hsync : C.async = false) (hr : Reachable C G w) (hnow : w.now < C.stopTime)
    {j : ℕ} (hp : (w.servers i).waitingProposals[j]? = some p)
    (hstop : slotTime C i ((w.traces i).syncCalls.length + j) < C.stopTime)
    (hreach : Reaches (program C) G w w') :
    Scheduled C i ((w.traces i).syncCalls.length + j) p w' := by
  have hi := (started_of_waiting hr hp).1
  refine Reaches.invariant hr (P := Scheduled C i _ p) ?_ ?_ hreach
  · refine .ahead j ?_ hp rfl
    cases slotLoop hsync hi hr with
    | boot hc => simp [hc]
    | thread hc => simp [hc]
    | slots k hc => simp [hc]
    | ended k hc ht hlate => exact absurd hnow (not_lt.2 hlate)
  · intro w₁ c w₂ hr₁ h _ hstep
    rcases step_spec hstep with ⟨⟨now, action⟩, rest, hs⟩
    cases action with
    | server a task =>
        by_cases hai : a = i
        · subst hai
          exact h.run hsync hr₁ hstop hs
        · refine h.of_same (hs.calls_quiet own_isSlotLoop fun task => by simp [hai]) ?_
          simp [hs.servers, serversAfter, Function.update_of_ne (Ne.symm hai)]
    | clientStart k =>
        exact h.of_same (hs.calls_quiet own_isSlotLoop fun _ => by simp)
          (by simp [hs.servers, serversAfter])
    | sendRequest k =>
        exact h.of_same (hs.calls_quiet own_isSlotLoop fun _ => by simp)
          (by simp [hs.servers, serversAfter])
    | transit packet hop =>
        exact h.of_same (hs.calls_quiet own_isSlotLoop fun _ => by simp)
          (by simp [hs.servers, serversAfter])

/-- When its slot has passed, the request has been proposed there. -/
theorem Scheduled.proposed (h : Scheduled C i k p w) (hsync : C.async = false)
    (hr : Reachable C G w) (hi : i < C.numNodes) (hpast : w.Past (slotTime C i k)) :
    proposalFrame i (slotTime C i k) p ∈ (w.traces i).proposed := by
  cases h with
  | done hf => exact hf
  | ahead j hne hp hk =>
      have hdue : ∃ e ∈ w.calls i Task.isSlotLoop, e.ts ≤ slotTime C i k := by
        cases slotLoop hsync hi hr with
        | boot hc => exact ⟨_, hc ▸ List.mem_singleton_self _, Nat.le_add_right _ _⟩
        | thread hc => exact ⟨_, hc ▸ List.mem_singleton_self _, Nat.le_add_right _ _⟩
        | slots m hc _ ht =>
            rw [ht, List.length_map, List.length_range] at hk
            exact ⟨_, hc ▸ List.mem_singleton_self _, slotTime_mono (hk ▸ Nat.le_add_right _ _)⟩
        | ended m hc => exact absurd hc hne
      rcases hdue with ⟨e, he, hle⟩
      exact absurd (hpast e (mem_callsIn.1 he).1) (not_lt.2 hle)

/-- The request at position `j` of a queue is proposed in the slot that comes after `j` others. -/
theorem proposed_in_slot (hsync : C.async = false) (hr : Reachable C G w)
    (hnow : w.now < C.stopTime) {j : ℕ} (hp : (w.servers i).waitingProposals[j]? = some p)
    (hstop : slotTime C i ((w.traces i).syncCalls.length + j) < C.stopTime)
    (hreach : Reaches (program C) G w w')
    (hpast : w'.Past (slotTime C i ((w.traces i).syncCalls.length + j))) :
    proposalFrame i (slotTime C i ((w.traces i).syncCalls.length + j)) p ∈
      (w'.traces i).proposed :=
  (scheduled hsync hr hnow hp hstop hreach).proposed hsync (hr.trans hreach)
    (started_of_waiting hr hp).1 hpast

/-- The only request in the queue of server 1 waits for the second slot of that server. -/
theorem proposed_in_slot_three_servers :
    ∃ w w', (w.servers 1).waitingProposals.length = 1 ∧
      Reaches (program (.oneClient 3 (by decide) false 0 11 200 40 20 0)) anyNetwork w w' ∧
      ∃ f ∈ (w'.traces 1).proposed, f.proposeTime = 45 := by
  rcases exists_reaches_of_runInputs
    (S := program (.oneClient 3 (by decide) false 0 11 200 40 20 0)) (G := anyNetwork)
    (List.replicate 21 ({} : Choice)) (List.replicate 23 ({} : Choice))
    (fun w w' => decide (w.now = 32 ∧ (w.traces 1).syncCalls.length = 1 ∧
      (w.servers 1).waitingProposals.length = 1 ∧ ∀ e ∈ w'.events, 45 < e.ts)) (by decide +kernel)
    with ⟨w, w', hr, hreach, htest⟩
  rcases of_decide_eq_true htest with ⟨hnow, hcalls, hlength, hpast⟩
  rcases List.length_eq_one_iff.1 hlength with ⟨p, hp⟩
  have hslot : slotTime (.oneClient 3 (by decide) false 0 11 200 40 20 0) 1
      ((w.traces 1).syncCalls.length + 0) = 45 := by
    rw [hcalls]
    decide
  have hmem := proposed_in_slot (i := 1) (j := 0) (p := p) rfl hr (by rw [hnow]; decide)
    (by rw [hp]; rfl) (by rw [hslot]; decide) hreach (by rw [hslot]; exact hpast)
  exact ⟨w, w', hlength, hreach, _, hmem, hslot⟩

/-- In a timely network every server has decided the request at position `j` of a queue after `j + 1`
rounds of slots, three delays and ten nanoseconds. -/
theorem sync_response (hsync : C.async = false) (hn : 2 ≤ C.numNodes)
    (hr : Reachable C (timely C) w) {j : ℕ} (hp : (w.servers i).waitingProposals[j]? = some p)
    (hstop : w.now + (j + 1) * (C.numNodes * C.slot) < C.stopTime)
    (hreach : Reaches (program C) (timely C) w w') (hd : w'.DistinctTimestamps)
    (hpast : w'.Past (w.now + (j + 1) * (C.numNodes * C.slot) +
      (3 * C.boundedMessageDelay + 10))) {a : ℕ} (ha : a < C.numNodes) :
    ∃ q ∈ (w'.servers a).decidedLog, q.key = p.key ∧ q.nodeId = i := by
  have hr' : Reachable C (timely C) w' := hr.trans hreach
  rcases started_of_waiting hr hp with ⟨hi, hstart⟩
  have hslot : slotTime C i ((w.traces i).syncCalls.length + j) ≤
      w.now + (j + 1) * (C.numNodes * C.slot) := by
    have hnext := slot_le hsync hr hi hstart
    have hlater : slotTime C i ((w.traces i).syncCalls.length + j) =
        slotTime C i (w.traces i).syncCalls.length + j * (C.numNodes * C.slot) := by
      unfold slotTime
      ring
    rw [hlater, Nat.succ_mul]
    lia
  have hsoon : w'.Past (slotTime C i ((w.traces i).syncCalls.length + j)) := by
    intro e he
    have hlate := hpast e he
    lia
  have hf := (scheduled hsync hr (by lia) hp (hslot.trans_lt hstop) hreach).proposed hsync hr' hi hsoon
  have hpast' : w'.Past (slotTime C i ((w.traces i).syncCalls.length + j) +
      3 * C.boundedMessageDelay + 10) := by
    intro e he
    have hlate := hpast e he
    lia
  have hdist := queuedDistinct noRequestCopies_of_timely hr' hd
  rcases decided_of_past hsync hn hr' hdist hf hpast' ha with ⟨q, hq, hkey, hnode⟩
  exact ⟨q, (decidedLog_perm hr' a).mem_iff.2 hq, hkey, hnode⟩

/-- Server 1 has one request in its queue at 32 ns: by 108 ns everybody has decided it. -/
theorem sync_response_three_servers :
    ∃ w w' : World, w.now = 32 ∧ (∀ e ∈ w'.events, 108 < e.ts) ∧
      ∃ p ∈ (w.servers 1).waitingProposals, ∀ a : ℕ, a < 3 →
        ∃ q ∈ (w'.servers a).decidedLog, q.key = p.key ∧ q.nodeId = 1 := by
  rcases exists_reaches_of_runInputs
    (S := program (.oneClient 3 (by decide) false 0 11 200 40 20 0))
    (G := timely (.oneClient 3 (by decide) false 0 11 200 40 20 0))
    (List.replicate 21 ({} : Choice)) (List.replicate 36 ({} : Choice))
    (fun w w' => decide (w.now = 32 ∧ (w.servers 1).waitingProposals.length = 1 ∧
      ∀ e ∈ w'.events, 108 < e.ts)) (by decide +kernel)
    with ⟨w, w', hr, hreach, htest⟩
  rcases of_decide_eq_true htest with ⟨hnow, hlength, hpast⟩
  rcases List.length_eq_one_iff.1 hlength with ⟨p, hp⟩
  refine ⟨w, w', hnow, hpast, p, by rw [hp]; exact List.mem_singleton_self p, ?_⟩
  intro a ha
  refine sync_response (j := 0) rfl (by decide) hr (by rw [hp]; rfl) (by rw [hnow]; decide) hreach
    (distinctTimestamps rfl (by decide) (hr.trans hreach)) ?_ ha
  rw [hnow]
  exact hpast

end Runs

end SyncPaxos
