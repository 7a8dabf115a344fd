import SyncPaxos.Safety.Discipline
import SyncPaxos.Safety.Quorum
import SyncPaxos.Timing.Latency
import SyncPaxos.Timing.Slots

/-!
# Throughput — how many proposals a run can decide

In synchronous mode a proposal takes a slot, whoever makes it.  In asynchronous mode the leader makes
one proposal after the other, and each takes two round trips and the ten nanoseconds of an acceptor.
So proposals are `gap` apart in both modes, and the time between start and stop bounds the number of
lines that any decided log can have.
-/

namespace SyncPaxos

open DiscreteEvent Transition

/-- The least time between two proposals when every packet takes at least `d`. -/
def Cluster.gap (C : Cluster) (d : Time) : Time := if C.async then 4 * d + 10 else C.slot

/-- Two times are at least `g` apart. -/
def Apart (g t t' : Time) : Prop := t + g ≤ t' ∨ t' + g ≤ t

theorem Apart.symm {g t t' : Time} (h : Apart g t t') : Apart g t' t := Or.symm h

section Runs

variable {C : Cluster} {G : World → Choice → Prop} {w : World} {d : Time} {i j : ℕ}
  {f f' : PaxosFrame}

/-! ## When proposals are made -/

/-- Proposals are made between start and stop. -/
theorem proposeTime_range (hr : Reachable C G w) :
    ∀ f ∈ (w.traces i).proposed, C.startTime ≤ f.proposeTime ∧ f.proposeTime < C.stopTime := by
  refine server_invariant (Q := fun _ => True) (P := fun _ s => ∀ f ∈ s.trace.proposed,
    C.startTime ≤ f.proposeTime ∧ f.proposeTime < C.stopTime) (fun _ _ _ _ _ _ => trivial) ?_ ?_ hr
    trivial i
  · intro i f hf
    cases hf
  · intro w c w' i task now rest hr _ hg hstep _ hs hold f hf
    have hr' : Reachable C G w' := .step hr hg hstep
    have htrace := hs.traces_server
    rw [← htrace] at hf
    -- What is proposed was queued, and that is after the start.
    rcases exists_queued_of_proposed hr' hf with ⟨q, hq, -⟩
    have hlate := (booted hr').queued i (List.ne_nil_of_mem hq)
    rw [hs.now] at hlate
    rw [htrace, Server.run_trace, Trace.proposed, List.filterMap_append] at hf
    rcases List.mem_append.1 hf with hf | hf
    · exact hold f hf
    · have htime := (newRecords_at _ (Trace.mem_proposed.1 hf)).2
      rw [htime]
      exact ⟨(Nat.le_add_right _ _).trans hlate, (newRecords_proposed hf).1⟩

/-- A decided proposal says when it was proposed. -/
theorem proposed_of_decided (hr : Reachable C G w) {p : Proposal} (hp : p ∈ (w.traces i).decided) :
    ∃ j, ∃ f ∈ (w.traces j).proposed, f.proposalId = p.proposalId ∧
      f.proposeTime = p.proposeTime := by
  cases (ledger hr i).decided p hp with
  | learned f hf heq =>
      have hat := (sound hr).handledDecision hf
      rcases (sound hr).decision_origin hat.mem with ⟨-, -, g, hg, hid, -, htime⟩
      rw [heq]
      exact ⟨_, g, hg, hid.symm, htime.symm⟩
  | own f _ hf hkey htime =>
      exact ⟨i, f, hf, congrArg Prod.fst hkey, htime⟩

/-- A call makes one proposal at most. -/
theorem newRecords_proposed_le (C : Cluster) (i : ℕ) (now : Time) (task : Task) (s : Server) :
    (Trace.proposed (Server.newRecords C i now task s)).length ≤ 1 := by
  have hpropose : (Trace.proposed (s.proposeRecords i now)).length ≤ 1 := by
    cases hw : s.waitingProposals <;> simp [Server.proposeRecords, hw]
  have hasync : (Trace.proposed (s.asyncProposeRecords C i now)).length ≤ 1 := by
    simp only [Server.asyncProposeRecords, Trace.proposed, List.filterMap_cons,
      Record.proposed?]
    split
    · exact Nat.zero_le _
    · exact hpropose
  cases task with
  | startProposerThread =>
      simp only [Server.newRecords, Trace.proposed, List.filterMap_cons, Record.proposed?]
      split
      · exact hasync
      · exact Nat.zero_le _
  | createProposalFromRequest r =>
      simp only [Server.newRecords]
      split <;> exact Nat.zero_le _
  | doSyncPropose =>
      simp only [Server.newRecords, Trace.proposed, List.filterMap_cons, Record.proposed?]
      split
      · exact Nat.zero_le _
      · exact hpropose
  | doAsyncPropose =>
      exact hasync
  | doReceivedAcceptMessage f =>
      simp only [Server.newRecords, Trace.proposed, List.filterMap_cons, Record.proposed?]
      split
      · exact Nat.zero_le _
      · split <;> simp [List.filterMap_cons]
  | doReceivedDecisionAckMessage f =>
      simp only [Server.newRecords, Trace.proposed, List.filterMap_cons, Record.proposed?]
      split
      · exact Nat.zero_le _
      · exact hasync
  | _ =>
      simp [Server.newRecords, List.filterMap_cons]

/-! ## Synchronous mode -/

/-- A server makes one proposal in a slot. -/
theorem proposed_sublist (hsync : C.async = false) (hr : Reachable C G w) (i : ℕ) :
    ((w.traces i).proposed.map PaxosFrame.proposeTime).Sublist (w.traces i).syncCalls := by
  refine server_invariant (Q := fun _ => True)
    (P := fun _ s => (s.trace.proposed.map PaxosFrame.proposeTime).Sublist s.trace.syncCalls)
    (fun _ _ _ _ _ _ => trivial) ?_ ?_ hr trivial i
  · intro i
    exact List.Sublist.slnil
  · intro w c w' i task now rest hr _ hg hstep _ hs hold
    rw [Server.run_trace, Trace.proposed, Trace.syncCalls, List.filterMap_append,
      List.filterMap_append, List.map_append]
    refine hold.append ?_
    have hle := newRecords_proposed_le C i now task (w.servers i)
    rcases hnew : Trace.proposed (Server.newRecords C i now task (w.servers i)) with
      - | ⟨f, - | ⟨g, l⟩⟩
    · rw [← Trace.proposed, hnew]
      exact List.nil_sublist _
    · -- In this mode only `DoSyncPropose` proposes.
      have hf : f ∈ Trace.proposed (Server.newRecords C i now task (w.servers i)) := by
        rw [hnew]
        exact List.mem_singleton_self f
      have htask : task = .doSyncPropose := by
        rcases (newRecords_proposed hf).2 with h | h | ⟨-, ha⟩ | ⟨g, -, hacks⟩
        · exact h
        · subst h
          have hmode : C.async = true := ofMode hr _ (mem_of_pop hs.pop)
          cases hsync.symm.trans hmode
        · cases hsync.symm.trans ha
        · cases hsync.symm.trans (Server.acksOn_async hacks)
      have htime := (newRecords_at _ (Trace.mem_proposed.1 hf)).2
      rw [← Trace.proposed, hnew, ← Trace.syncCalls, newRecords_syncCalls, if_pos htask,
        List.map_singleton, htime]
    · rw [hnew] at hle
      exact absurd hle (by simp)

theorem slots_apart (hsync : C.async = false) (hr : Reachable C G w)
    (hf : f ∈ (w.traces i).proposed) (hf' : f' ∈ (w.traces j).proposed)
    (hid : f.proposalId ≠ f'.proposalId) : Apart C.slot f.proposeTime f'.proposeTime := by
  rcases List.getElem?_of_mem (proposed_sync hsync hr i f hf) with ⟨k, hk⟩
  rcases List.getElem?_of_mem (proposed_sync hsync hr j f' hf') with ⟨m, hm⟩
  rcases syncCalls_eq hsync hr hk with ⟨hi, hk⟩
  rcases syncCalls_eq hsync hr hm with ⟨hj, hm⟩
  by_cases hij : i = j
  · subst hij
    have hcalls : (w.traces i).syncCalls.Pairwise (Apart C.slot) := by
      rcases (slotLoop hsync hi hr).syncCalls with ⟨n, hn⟩
      rw [hn]
      refine List.pairwise_map.2 (List.pairwise_lt_range.imp ?_)
      intro k m hlt
      exact .inl (slotTime_add_le (Nat.add_lt_add_left (Nat.mul_lt_mul_of_pos_right hlt
        (Nat.zero_lt_of_lt hi)) i))
    have hall := List.pairwise_map.1 (hcalls.sublist (proposed_sublist hsync hr i))
    have hne : f ≠ f' := fun heq => hid (by rw [heq])
    have : Std.Symm (fun f f' : PaxosFrame => Apart C.slot f.proposeTime f'.proposeTime) :=
      ⟨fun _ _ h => h.symm⟩
    exact hall.forall hf hf' hne
  · rw [hk, hm]
    exact slotTime_apart hi hj (fun heq => hij (congrArg Prod.fst heq))

/-! ## Asynchronous mode -/

/-- What the leader holds is one proposal at most. -/
theorem hand_le_one (ha : C.async = true) (hlead : Cluster.leader < C.numNodes)
    (hr : Reachable C G w) :
    ∃ held, Hand Cluster.leader (w.servers Cluster.leader) held ∧ held.length ≤ 1 := by
  cases phase ha hlead hr with
  | before ts task htask hc hhand hlate hst =>
      exact ⟨[], hhand, Nat.zero_le 1⟩
  | polling ts hc hhand hlate =>
      exact ⟨[], hhand, Nat.zero_le 1⟩
  | waiting p hc hhand hlate =>
      exact ⟨[p], hhand, le_rfl⟩
  | ended hc hhand hlate =>
      exact ⟨[], hhand, Nat.zero_le 1⟩

/-- The leader proposes when the proposal before has been acknowledged. -/
theorem proposed_spaced (hG : ∀ w c, G w c → atLeast d w c) (ha : C.async = true)
    (hr : Reachable C G w) (hd : w.QueuedDistinct) :
    (w.traces Cluster.leader).proposed.Pairwise
      (fun f f' => f.proposeTime + (4 * d + 10) ≤ f'.proposeTime) := by
  refine Transition.Reachable.invariant_of (Q := World.QueuedDistinct)
    (P := fun w => (w.traces Cluster.leader).proposed.Pairwise
      (fun f f' => f.proposeTime + (4 * d + 10) ≤ f'.proposeTime))
    (fun _ _ _ _ => QueuedDistinct.of_step) .nil ?_ hr hd
  intro w c w' hr _ hd' hold hg hstep
  have hr' : Reachable C G w' := .step hr hg hstep
  rcases step_spec hstep with ⟨e, rest, hs⟩
  have htrace := hs.traces Cluster.leader
  have hproposed : (w'.traces Cluster.leader).proposed = (w.traces Cluster.leader).proposed ++
      (newLines C w e Cluster.leader).proposed := by
    rw [htrace, Trace.proposed, List.filterMap_append]
  have hnew : (newLines C w e Cluster.leader).proposed.length ≤ 1 ∧
      ∀ g ∈ (newLines C w e Cluster.leader).proposed, g.proposeTime = w'.now := by
    rw [newLines, hs.now]
    split
    · split
      · exact ⟨newRecords_proposed_le .., fun g hg =>
          (newRecords_at _ (Trace.mem_proposed.1 hg)).2⟩
      · exact ⟨Nat.zero_le 1, fun g hg => by cases hg⟩
    · exact ⟨Nat.zero_le 1, fun g hg => by cases hg⟩
  rw [hproposed]
  refine List.pairwise_append.2 ⟨hold, ?_, ?_⟩
  · rcases h : (newLines C w e Cluster.leader).proposed with - | ⟨g, - | ⟨g', l⟩⟩
    · exact .nil
    · exact List.pairwise_singleton _ g
    · rw [h] at hnew
      exact absurd hnew.1 (by simp)
  · intro f hf g hg
    have hlead : Cluster.leader < C.numNodes := lt_of_mem_proposed hr hf
    rcases hand_le_one ha hlead hr' with ⟨held, hhand, hheld⟩
    -- One proposal is held, so all that were made before the new one have been decided.
    have hown : ∃ p ∈ ownDecided Cluster.leader (w'.traces Cluster.leader).decided,
        p.key = f.key := by
      have hline := hhand.line
      rw [← World.traces, hproposed, List.map_append, List.map_append] at hline
      have hlength := congrArg List.length hline
      have hpos := List.length_pos_of_mem hg
      simp only [List.length_append, List.length_map] at hlength
      have hpre : (w.traces Cluster.leader).proposed.map PaxosFrame.key <+:
          (ownDecided Cluster.leader (w'.traces Cluster.leader).decided).map Proposal.key := by
        refine List.prefix_of_prefix_length_le
          (List.prefix_append _ ((newLines C w e Cluster.leader).proposed.map PaxosFrame.key))
          (hline.symm ▸ List.prefix_append _ _) ?_
        rw [List.length_map, List.length_map]
        omega
      exact List.mem_map.1 (hpre.subset (List.mem_map_of_mem hf))
    rcases hown with ⟨p, hp, hkey⟩
    rcases List.mem_filter.1 hp with ⟨hp, hnode⟩
    have hdates := dates_of_decided hG hr' hd' hp
    rcases proposed_of_decided hr' hp with ⟨j, f', hf', hid, htime⟩
    have hids : f'.proposalId = f.proposalId := hid.trans (congrArg Prod.fst hkey)
    have hfmem : f ∈ (w'.traces Cluster.leader).proposed := by
      rw [hproposed]
      exact List.mem_append_left _ hf
    obtain ⟨-, rfl⟩ := proposed_unique hr' hd' hf' hfmem hids
    have hack := hdates.acknowledged ha (of_decide_eq_true hnode)
    rw [hnew.2 g hg, htime]
    have hround := hdates.decided.1
    lia

theorem rounds_apart (hG : ∀ w c, G w c → atLeast d w c) (ha : C.async = true)
    (hr : Reachable C G w) (hd : w.QueuedDistinct) (hf : f ∈ (w.traces i).proposed)
    (hf' : f' ∈ (w.traces j).proposed) (hid : f.proposalId ≠ f'.proposalId) :
    Apart (4 * d + 10) f.proposeTime f'.proposeTime := by
  obtain rfl := eq_leader_of_proposed hr ha hf
  obtain rfl := eq_leader_of_proposed hr ha hf'
  have hne : f ≠ f' := fun heq => hid (by rw [heq])
  have hall : (w.traces Cluster.leader).proposed.Pairwise
      (fun f f' => Apart (4 * d + 10) f.proposeTime f'.proposeTime) :=
    (proposed_spaced hG ha hr hd).imp Or.inl
  have : Std.Symm (fun f f' : PaxosFrame => Apart (4 * d + 10) f.proposeTime f'.proposeTime) :=
    ⟨fun _ _ h => h.symm⟩
  exact hall.forall hf hf' hne

/-! ## Decided logs -/

/-- Proposals with different ids are made a gap apart. -/
theorem proposals_apart (hG : ∀ w c, G w c → atLeast d w c) (hr : Reachable C G w)
    (hd : w.QueuedDistinct) (hf : f ∈ (w.traces i).proposed) (hf' : f' ∈ (w.traces j).proposed)
    (hid : f.proposalId ≠ f'.proposalId) : Apart (C.gap d) f.proposeTime f'.proposeTime := by
  rw [Cluster.gap]
  cases hmode : C.async with
  | true =>
      exact rounds_apart hG hmode hr hd hf hf' hid
  | false =>
      exact slots_apart hmode hr hf hf' hid

/-- No log can have more lines than there are gaps between start and stop. -/
theorem decidedLog_length_le (hG : ∀ w c, G w c → atLeast d w c ∧ noCopies w c)
    (hgap : 0 < C.gap d) (hr : Reachable C G w) (hd : w.DistinctTimestamps) (i : ℕ) :
    (w.servers i).decidedLog.length ≤ (C.stopTime - 1 - C.startTime) / C.gap d + 1 := by
  have hslow : ∀ w c, G w c → atLeast d w c := fun w c hg => (hG w c hg).1
  have hcopies : NoCopies G w :=
    fun _ _ w c hg => onTransit_mono (fun _ _ _ _ hc _ _ => hc) (hG w c hg).2
  have hq : w.QueuedDistinct := queuedDistinct
    (fun w c hg => onTransit_mono (fun _ _ _ _ hc _ => hc) (hG w c hg).2) hr hd
  have hnodup := decided_nodup hr hq (learned_nodup hcopies hr hq i)
  have horigin : ∀ p ∈ (w.servers i).decidedLog, ∃ j, ∃ f ∈ (w.traces j).proposed,
      f.proposalId = p.proposalId ∧ f.proposeTime = p.proposeTime :=
    fun p hp => proposed_of_decided hr (mem_decided_of_log hr hp)
  rw [← List.length_map Proposal.proposeTime]
  refine Counting.length_le_of_apart hgap ?_ ?_
  · intro t ht
    rcases List.mem_map.1 ht with ⟨p, hp, rfl⟩
    rcases horigin p hp with ⟨j, f, hf, -, htime⟩
    rw [← htime]
    exact proposeTime_range hr f hf
  · refine List.pairwise_map.2 (List.Pairwise.imp_of_mem ?_ (List.pairwise_map.1 hnodup))
    intro p q hp hq' hne
    rcases horigin p hp with ⟨j, f, hf, hfid, hftime⟩
    rcases horigin q hq' with ⟨k, f', hf', hfid', hftime'⟩
    rw [← hftime, ← hftime']
    refine proposals_apart hslow hr hq hf hf' ?_
    rw [hfid, hfid']
    exact hne

end Runs

/-- Every packet takes five nanoseconds, and the second proposal is made thirty after the first. -/
theorem decidedLog_length_two_servers :
    ∃ w, Reachable (.oneClient 2 (by decide) true 0 10 9000 60 20 0)
        (fun w c => atLeast 5 w c ∧ noCopies w c) w ∧
      (w.servers 1).decidedLog.map Proposal.proposeTime = [1001, 1031] ∧
      (w.servers 1).decidedLog.length ≤ (9000 - 1 - 1) / 30 + 1 := by
  have hrun := exists_reachable_of_runInputs
    (S := program (.oneClient 2 (by decide) true 0 10 9000 60 20 0))
    (G := fun w c => atLeast 5 w c ∧ noCopies w c)
    ((List.range 57).map fun k =>
      if k ∈ [9, 13, 16, 21, 25, 28, 31, 34, 38, 41, 44] then
        ({ fate := .forward 5 } : Choice)
      else
        {})
    (fun w => (w.servers 1).decidedLog.map Proposal.proposeTime = [1001, 1031]) (by decide +kernel)
  rcases hrun with ⟨w, hr, htest⟩
  exact ⟨w, hr, of_decide_eq_true htest,
    decidedLog_length_le (fun _ _ h => h) (by decide) hr (distinctTimestamps rfl (by decide) hr) 1⟩

end SyncPaxos
