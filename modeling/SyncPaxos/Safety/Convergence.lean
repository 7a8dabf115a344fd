import SyncPaxos.Safety.Voting

/-!
# Convergence — what is left to do when nothing is in flight

A minority of servers is down and the others lose and copy nothing.  Once no frame travels between
live servers and no handler waits, every live server has voted for every proposal and every
proposer has counted the votes.  So no entry of `m_proposals` is left, and all live servers have
decided the same proposals (`convergence`).
-/

namespace SyncPaxos

open DiscreteEvent Transition Counting

/-! ## Servers that are down -/

section Crashed

variable {C : Cluster} {w : World} {F : Finset ℕ} {i j a x : ℕ}

theorem arrived_live (hr : Reachable C (crashed F) w) : ∀ packet ∈ w.arrived, packet.dst ∉ F := by
  refine Transition.Reachable.invariant (P := fun w => ∀ packet ∈ w.arrived, packet.dst ∉ F) ?_ ?_ hr
  · intro packet hp
    cases hp
  · intro w c w' _ hw hg hstep packet hp
    rcases step_spec hstep with ⟨e, rest, hs⟩
    rw [hs.arrived] at hp
    rcases List.mem_append.1 hp with hp | hp
    · exact hw packet hp
    · rcases e with ⟨now, action⟩
      cases action with
      | transit packet' hop =>
          cases hf : c.fate <;> simp [taken, hf] at hp
          subst hp
          intro hmem
          exact (onTransit_of_pop hs.pop hg).1 hmem hf
      | _ =>
          simp [taken] at hp

/-- A server that is down handles nothing. -/
theorem handled_crashed (hr : Reachable C (crashed F) w) (hi : i ∈ F) :
    (w.traces i).filterMap Record.handled? = [] := by
  have hnone : w.arrived.filterMap (Packet.paxosTo? i) = [] := by
    refine List.filterMap_eq_nil_iff.2 ?_
    intro packet hp
    have hne : packet.dst ≠ i := fun h => arrived_live hr packet hp (h ▸ hi)
    simp [Packet.paxosTo?, hne]
  have hreceipts := receipts hr i
  rw [hnone] at hreceipts
  exact (List.append_eq_nil_iff.1 hreceipts).1

/-- A server that is down proposes nothing. -/
theorem proposed_crashed (hr : Reachable C (crashed F) w) (hi : i ∈ F) :
    (w.traces i).proposed = [] := by
  have hnone : w.arrived.filterMap (Packet.requestTo? i) = [] := by
    refine List.filterMap_eq_nil_iff.2 ?_
    intro packet hp
    have hne : packet.dst ≠ i := fun h => arrived_live hr packet hp (h ▸ hi)
    simp [Packet.requestTo?, hne]
  have hcreations := creations hr i
  rw [hnone] at hcreations
  -- Without requests nothing is queued, and only what was queued is proposed.
  have hqueued := (List.append_eq_nil_iff.1 (List.sublist_nil.1 hcreations)).1
  have hqueue := (ledger hr i).queue
  rw [World.traces] at hqueued
  rw [hqueued, List.map_nil, List.append_eq_nil_iff, List.map_eq_nil_iff] at hqueue
  exact hqueue.1

theorem live_of_proposed (hr : Reachable C (crashed F) w) {f : PaxosFrame}
    (hf : f ∈ (w.traces i).proposed) : i < C.numNodes ∧ i ∉ F := by
  refine ⟨lt_of_mem_proposed hr hf, ?_⟩
  intro hi
  rw [proposed_crashed hr hi] at hf
  cases hf

theorem noCopiesTo_of_crashed (hi : i ∉ F) : ∀ w c, crashed F w c → noCopiesTo i w c := by
  intro w c h
  refine onTransit_mono ?_ h
  rintro _ p _ fate hrule rfl hreq
  exact (hrule.2.2 hi hreq).1

theorem noLossTo_of_crashed (hi : i ∉ F) : ∀ w c, crashed F w c → noLossTo i w c := by
  intro w c h
  refine onTransit_mono ?_ h
  rintro _ p _ fate hrule rfl hreq
  exact (hrule.2.2 hi hreq).2

theorem noCopies_of_crashed (hr : Reachable C (crashed F) w) : NoCopies (crashed F) w := by
  intro a hne
  refine noCopiesTo_of_crashed ?_
  intro ha
  exact hne (handled_crashed hr ha)

/-! ## When nothing is in flight -/

/-- No Paxos frame travels to a live server, and no live server has a receive handler or a delayed
ACCEPT pending. -/
structure World.Quiet (C : Cluster) (F : Finset ℕ) (w : World) : Prop where
  network : ∀ packet ∈ w.inTransit, packet.isRequest = false → packet.dst ∈ F
  calls : ∀ i < C.numNodes, i ∉ F →
    w.pending i Task.received? = [] ∧ w.pending i Task.answering? = []

theorem World.Quiet.clear (hq : w.Quiet C F) (hlt : i < C.numNodes) (hi : i ∉ F)
    (test : PaxosFrame → Bool) : w.Clear i test := by
  refine ⟨?_, by rw [(hq.calls i hlt hi).1, List.countP_nil]⟩
  intro packet hp
  refine Bool.eq_false_iff.2 ?_
  intro hcarry
  rcases isRequest_of_carries hcarry with ⟨hdst, hreq⟩
  exact hi (hdst ▸ hq.network packet hp hreq)

theorem World.Quiet.answering (hq : w.Quiet C F) (hlt : i < C.numNodes) (hi : i ∉ F) :
    w.pending i Task.answering = [] := by
  have hnone := List.filterMap_eq_nil_iff.1 (hq.calls i hlt hi).2
  refine List.filterMap_eq_nil_iff.2 ?_
  intro e he
  have hold := hnone e he
  cases haction : e.action with
  | server k task =>
      rw [haction] at hold
      by_cases hki : k = i
      · simp only [Callback.atServer, hki, if_true] at hold ⊢
        rw [Task.answering, hold]
        rfl
      · simp [Callback.atServer, hki]
  | _ =>
      rfl

/-- Every other live server has voted for the proposal. -/
theorem mem_voters_of_quiet (hr : Reachable C (crashed F) w) (hq : w.Quiet C F) {f : PaxosFrame}
    (hf : f ∈ (w.traces i).proposed) (hlt : a < C.numNodes) (ha : a ∉ F) (hne : a ≠ i) :
    a ∈ w.voters i f.proposalId := by
  rcases live_of_proposed hr hf with ⟨hilt, hi⟩
  have hanswer : (w.pending a Task.answering).countP (PaxosFrame.isFor i f.proposalId) = 0 := by
    rw [hq.answering hlt ha, List.countP_nil]
  exact mem_voters_of_clear (noLossTo_of_crashed ha) (noLossTo_of_crashed hi) hr
    (hq.clear hlt ha _) hanswer (hq.clear hilt hi _) hf rfl hlt hne

/-- Every other live server has learned the decision. -/
theorem learned_of_quiet (hr : Reachable C (crashed F) w) (hq : w.Quiet C F) {d : PaxosFrame}
    (hd : d ∈ (w.traces i).decisions) (hlt : a < C.numNodes) (ha : a ∉ F) (hne : a ≠ i) :
    0 < (w.traces a).handledDecisions.countP (PaxosFrame.isFor i d.proposalId) :=
  learned_of_clear (noLossTo_of_crashed ha) hr (hq.clear hlt ha _) hd rfl hlt hne

theorem mem_backers_of_quiet (hr : Reachable C (crashed F) w) (hq : w.Quiet C F)
    (hasync : C.async = true) {d : PaxosFrame} (hd : d ∈ (w.traces i).decisions)
    (hlt : a < C.numNodes) (ha : a ∉ F) (hne : a ≠ i) : a ∈ w.backers i d.proposalId := by
  have hi : i < C.numNodes ∧ i ∉ F := by
    rcases (sound hr).decision_origin hd with ⟨-, -, g, hg, -⟩
    exact live_of_proposed hr hg
  have hlearned := learned_of_quiet hr hq hd hlt ha hne
  -- It has learned the DECISION, and each DECISION handled is acknowledged.
  have hcounted := decisionAcks_ge (a := a) (x := d.proposalId) (noLossTo_of_crashed hi.2) hr
    (hq.clear hi.1 hi.2 _) hasync
  have hpos : 0 < ((w.traces i).ackers d.proposalId).count a := by
    rw [count_ackers]
    omega
  exact List.mem_toFinset.2 (List.count_pos_iff.1 hpos)

/-- No proposal of a live server is outstanding. -/
theorem lookup_eq_none_of_quiet (hn : 2 ≤ C.numNodes) (hF : 2 * F.card < C.numNodes)
    (hr : Reachable C (crashed F) w) (hd : w.QueuedDistinct) (hq : w.Quiet C F) (i x : ℕ) :
    (w.servers i).proposals.lookup x = none := by
  refine Option.not_isSome_iff_eq_none.1 ?_
  intro hsome
  rcases Option.isSome_iff_exists.1 hsome with ⟨p, hl⟩
  have hout := (ledger hr i).outstanding x p hl
  rcases hout.origin with ⟨f, hf, hkey, -⟩
  have hid : f.proposalId = x := (congrArg Prod.fst hkey).trans hout.id
  rcases live_of_proposed hr hf with ⟨hlt, hi⟩
  have hwaits := entries hn hr i x p hl
  have hcopies := noCopies_of_crashed hr
  by_cases hzero : p.decisionTime = 0
  · -- All live servers have voted.
    have hvotes := half_lt_of_live (S := w.voters i x) hF hlt hi
      (fun a halt ha hne => hid ▸ mem_voters_of_quiet hr hq hf halt ha hne)
    exact decisionTime_of_voters hcopies hn hr hd hl hvotes hzero
  · cases hasync : C.async with
    | false =>
        exact hzero (hwaits.sync hasync)
    | true =>
        -- All live servers have learned the decision and acknowledged it.
        rcases (announced hr hd i).announced x p hl hzero with ⟨d, hdec, hdkey, -⟩
        have hdid : d.proposalId = x := (congrArg Prod.fst hdkey).trans hout.id
        have hacks := half_lt_of_live (S := w.backers i x) hF hlt hi
          (fun a halt ha hne => hdid ▸ mem_backers_of_quiet hr hq hasync hdec halt ha hne)
        have hcount := numDecisionAck_eq_card hcopies hr hd hasync hl
        have hfew := hwaits.acks hzero
        omega

/-- A proposal of a live server is in every live server's decided queue. -/
theorem mem_decided_of_quiet (hn : 2 ≤ C.numNodes) (hF : 2 * F.card < C.numNodes)
    (hr : Reachable C (crashed F) w) (hd : w.QueuedDistinct) (hnow : w.now < C.stopTime)
    (hq : w.Quiet C F) (hlt : i < C.numNodes) (hi : i ∉ F) {f : PaxosFrame}
    (hf : f ∈ (w.traces j).proposed) :
    ∃ q ∈ (w.servers i).decidedProposalQueue, q.key = f.key ∧ q.nodeId = j := by
  have hqueue : ∀ a, (w.servers a).decidedProposalQueue = (w.traces a).decided :=
    fun a => (unstopped hr hnow a).queue
  have hown : ∃ q ∈ (w.traces j).decided, q.key = f.key ∧ q.nodeId = j :=
    own_decided hr hd hf (lookup_eq_none_of_quiet hn hF hr hd hq j _)
  rw [hqueue]
  by_cases hij : i = j
  · subst hij
    exact hown
  · -- Another server has learned it from the DECISION of its proposer.
    rcases hown with ⟨q, hmem, hkey, hnode⟩
    rcases decided_by_decision hr hd hmem with ⟨d, hdec, hdkey, -⟩
    rw [hnode] at hdec
    have hlearned := mem_decided_of_learned hr hd hdec (learned_of_quiet hr hq hdec hlt hi hij)
    have hproposer := ((sound hr).decision_origin hdec).2.1
    exact ⟨learnedProposal d, hlearned, hdkey.trans hkey, hproposer⟩

/-- The live servers have nothing outstanding and have decided the same proposals: all that live
servers have proposed. -/
structure World.Converged (C : Cluster) (F : Finset ℕ) (w : World) : Prop where
  empty : ∀ i < C.numNodes, i ∉ F → (w.servers i).proposals = ∅
  once : ∀ i < C.numNodes, i ∉ F →
    ((w.servers i).decidedProposalQueue.map Proposal.proposalId).Nodup
  decided : ∀ i < C.numNodes, i ∉ F → ∀ key j,
    (∃ q ∈ (w.servers i).decidedProposalQueue, q.key = key ∧ q.nodeId = j) ↔
      (j < C.numNodes ∧ j ∉ F) ∧ ∃ f ∈ (w.traces j).proposed, f.key = key
  same : ∀ i < C.numNodes, i ∉ F → ∀ j < C.numNodes, j ∉ F →
    ∀ p ∈ (w.servers i).decidedProposalQueue, ∃ q ∈ (w.servers j).decidedProposalQueue,
      q.key = p.key ∧ q.nodeId = p.nodeId ∧ q.decisionTime = p.decisionTime

/-- Before the stop, whenever no frame between live servers is in flight and no handler waits, the
live servers have converged. -/
theorem convergence (hn : 2 ≤ C.numNodes) (hF : 2 * F.card < C.numNodes)
    (hr : Reachable C (crashed F) w) (hd : w.DistinctTimestamps) (hnow : w.now < C.stopTime)
    (hq : w.Quiet C F) : w.Converged C F := by
  have hrequests : ∀ w c, crashed F w c → noRequestCopies w c :=
    fun _ _ h => onTransit_mono (fun _ _ _ _ hrule => hrule.2.1) h
  have hdist : w.QueuedDistinct := queuedDistinct hrequests hr hd
  have hlog : ∀ i, ∀ p ∈ (w.servers i).decidedProposalQueue, p ∈ (w.servers i).decidedLog :=
    fun i p hp => List.mem_append_right _ hp
  have hproposed : ∀ i, ∀ p ∈ (w.servers i).decidedProposalQueue,
      ∃ f ∈ (w.traces p.nodeId).proposed, f.key = p.key := by
    intro i p hp
    rcases decided_by_decision hr hdist (mem_decided_of_log hr (hlog i p hp)) with
      ⟨d, hdec, hkey, -⟩
    rcases (sound hr).decision_origin hdec with ⟨-, -, g, hg, hid, hval, -⟩
    exact ⟨g, hg, (Prod.ext hid.symm hval.symm : g.key = d.key).trans hkey⟩
  refine ⟨?_, ?_, ?_, ?_⟩
  · intro i _ _
    exact AList.eq_empty_of_lookup (lookup_eq_none_of_quiet hn hF hr hdist hq i)
  · intro i _ _
    have hnodup := decided_nodup hr hdist (learned_nodup (noCopies_of_crashed hr) hr hdist i)
    rw [Server.decidedLog, (unstopped hr hnow i).log, List.nil_append] at hnodup
    exact hnodup
  · intro i hlt hi key j
    constructor
    · rintro ⟨q, hmem, rfl, rfl⟩
      rcases hproposed i q hmem with ⟨f, hf, hkey⟩
      exact ⟨live_of_proposed hr hf, f, hf, hkey⟩
    · rintro ⟨-, f, hf, rfl⟩
      exact mem_decided_of_quiet hn hF hr hdist hnow hq hlt hi hf
  · intro i _ _ j hlt hj p hp
    rcases hproposed i p hp with ⟨f, hf, hkey⟩
    rcases mem_decided_of_quiet hn hF hr hdist hnow hq hlt hj hf with ⟨q, hmem, hqkey, hnode⟩
    have hid : q.key = p.key := hqkey.trans hkey
    have hagree := decided_agree hr hdist (hlog j q hmem) (hlog i p hp) (congrArg Prod.fst hid)
    exact ⟨q, hmem, hid, hnode, hagree.2.2⟩

end Crashed

/-- Server 2 of three is down, and the leader and server 1 converge without it. -/
theorem convergence_three_servers :
    ∃ w, Reachable (.oneClient 3 (by decide) true 0 10 9000 3 5 0) (crashed {2}) w ∧
      (w.servers 1).decidedProposalQueue ≠ [] ∧
      w.Converged (.oneClient 3 (by decide) true 0 10 9000 3 5 0) {2} := by
  have hrun := exists_reachable_of_runInputs
    (S := program (.oneClient 3 (by decide) true 0 10 9000 3 5 0)) (G := crashed {2})
    (List.replicate 18 ({} : Choice) ++ [{ fate := .lose }] ++ List.replicate 5 ({} : Choice) ++
      [{ fate := .lose }] ++ List.replicate 3 ({} : Choice))
    (fun w => (w.servers 1).decidedProposalQueue ≠ [] ∧ w.now < 9000 ∧
      (∀ packet ∈ w.inTransit, packet.isRequest = false → packet.dst ∈ ({2} : Finset ℕ)) ∧
      ∀ i : ℕ, i < 3 → i ∉ ({2} : Finset ℕ) →
        w.pending i Task.received? = [] ∧ w.pending i Task.answering? = []) (by decide +kernel)
  rcases hrun with ⟨w, hr, htest⟩
  rcases of_decide_eq_true htest with ⟨hdecided, hnow, hnet, hcalls⟩
  exact ⟨w, hr, hdecided, convergence (by decide) (by decide) hr
    (distinctTimestamps rfl (by decide) hr) hnow ⟨hnet, hcalls⟩⟩

end SyncPaxos
