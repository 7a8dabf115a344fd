import SyncPaxos.Run.Leader
import SyncPaxos.Run.Logs
import SyncPaxos.Run.Rounds
import SyncPaxos.Safety.Counters

/-!
# Quorum — majorities behind decisions

Over a network that copies nothing, a server handles at most one ACCEPT and at most one
DECISION_ACK of another server for an id: each of them answers the one PROPOSAL or the one DECISION
of that id.  So the two counters of an entry are the sizes of sets of servers, and a majority of
ACCEPTs or of DECISION_ACKs is a majority of servers (`quorum_law`).
-/

namespace SyncPaxos

open DiscreteEvent Transition Counting

namespace World

/-- The other servers whose ACCEPT for the proposal `x` server `i` has handled. -/
def voters (w : World) (i x : ℕ) : Finset ℕ := ((w.traces i).acceptors x).toFinset

/-- The other servers whose DECISION_ACK for the proposal `x` server `i` has handled. -/
def backers (w : World) (i x : ℕ) : Finset ℕ := ((w.traces i).ackers x).toFinset

/-- The set `S` of servers, none of them `i`, is a majority of the cluster together with `i`. -/
structure Majority (C : Cluster) (i : ℕ) (S : Finset ℕ) : Prop where
  not_mem : i ∉ S
  lt : ∀ a ∈ S, a < C.numNodes
  half : C.numNodes < 2 * (S.card + 1)

/-- A majority, with `i`, has accepted the value of the DECISION `d` of server `i`. -/
def HasQuorum (C : Cluster) (w : World) (i : ℕ) (d : PaxosFrame) : Prop :=
  ∃ S, Majority C i S ∧
    ∀ a ∈ S, ∃ p, (w.servers a).acceptedProposals.lookup d.proposalId = some p ∧
      p.nodeId = i ∧ p.value = d.value

structure QuorumLaw (C : Cluster) (w : World) : Prop where
  numAck : ∀ i x p, (w.servers i).proposals.lookup x = some p →
    p.numAck = 1 + (w.voters i x).card ∧ p.numAck ≤ C.numNodes
  decision : ∀ i, ∀ d ∈ (w.traces i).decisions, w.HasQuorum C i d
  logged : C.async = true → ∀ p ∈ (w.servers Cluster.leader).decidedLog,
    ∃ S, Majority C Cluster.leader S ∧
      ∀ a ∈ S, ∃ q ∈ (w.servers a).decidedLog, q.proposalId = p.proposalId

end World

section Quorum

variable {C : Cluster} {G : World → Choice → Prop} {w : World} {i a x : ℕ}

/-! ## Voters -/

theorem mem_acceptors {tr : Trace} : a ∈ tr.acceptors x ↔
    ∃ f ∈ tr.handledAccepts, f.proposalId = x ∧ f.acceptorId = a := by
  unfold Trace.acceptors
  simp only [List.mem_map, List.mem_filter, beq_iff_eq, and_assoc]

theorem mem_ackers {tr : Trace} : a ∈ tr.ackers x ↔
    ∃ f ∈ tr.handledDecisionAcks, f.proposalId = x ∧ f.proposerId = a := by
  unfold Trace.ackers
  simp only [List.mem_map, List.mem_filter, beq_iff_eq, and_assoc]

theorem count_acceptors (tr : Trace) :
    (tr.acceptors x).count a = tr.handledAccepts.countP (PaxosFrame.isVote a x) := by
  rw [Trace.acceptors, List.count, List.countP_map, List.countP_filter]
  rfl

theorem count_ackers (tr : Trace) :
    (tr.ackers x).count a = tr.handledDecisionAcks.countP (PaxosFrame.isFor a x) := by
  rw [Trace.ackers, List.count, List.countP_map, List.countP_filter]
  rfl

/-- A voter is another server of the cluster. -/
theorem acceptor_ne (hr : Reachable C G w) (h : a ∈ (w.traces i).acceptors x) :
    a ≠ i ∧ a < C.numNodes := by
  rcases mem_acceptors.1 h with ⟨f, hf, -, rfl⟩
  rcases (sound hr).accept_origin hf with ⟨-, hne, hlt, -⟩
  exact ⟨hne, hlt⟩

theorem acker_ne (hr : Reachable C G w) (h : a ∈ (w.traces i).ackers x) :
    a ≠ i ∧ a < C.numNodes := by
  rcases mem_ackers.1 h with ⟨f, hf, -, rfl⟩
  rcases ((sound hr).handledDecisionAck hf).from_ with ⟨d, hd, -, hi⟩
  have hat := (sound hr).handledDecision hd
  rw [hi]
  exact ⟨hat.ne, hat.lt⟩

/-- No Paxos frame for a server that has handled any is duplicated. -/
def NoCopies (G : World → Choice → Prop) (w : World) : Prop :=
  ∀ a, (w.traces a).filterMap Record.handled? ≠ [] → ∀ w c, G w c → noCopiesTo a w c

theorem handled?_of_line {r : Record} {f : PaxosFrame}
    (h : r.handledProposal? = some f ∨ r.handledAccept? = some f ∨ r.handledDecision? = some f ∨
      r.handledDecisionAck? = some f) : r.handled? = some f := by
  cases r <;> simp at h <;> exact congrArg some h

theorem handled_ne_nil {tr : Trace} {p : Record → Option PaxosFrame} {f : PaxosFrame}
    (hp : ∀ r f, p r = some f → r.handled? = some f) (hf : f ∈ tr.filterMap p) :
    tr.filterMap Record.handled? ≠ [] := by
  rcases List.mem_filterMap.1 hf with ⟨r, hr, heq⟩
  exact List.ne_nil_of_mem (List.mem_filterMap.2 ⟨r, hr, hp r f heq⟩)

/-- The proposer of an id handles an ACCEPT of each server at most once. -/
theorem acceptors_nodup (hG : NoCopies G w) (hr : Reachable C G w)
    (hd : w.QueuedDistinct) (i x : ℕ) : ((w.traces i).acceptors x).Nodup := by
  refine List.nodup_iff_count_le_one.2 ?_
  intro a
  by_cases ha : a ∈ (w.traces i).acceptors x
  · rcases acceptor_ne hr ha with ⟨hne, hlt⟩
    -- Both ends have handled a frame, so nothing for either of them is copied.
    have hcopies : (∀ w c, G w c → noCopiesTo i w c) ∧ ∀ w c, G w c → noCopiesTo a w c := by
      rcases mem_acceptors.1 ha with ⟨f, hf, -, rfl⟩
      rcases (sound hr).accept_origin hf with ⟨-, -, -, g, -, hg, -⟩
      constructor
      · exact hG _ (handled_ne_nil (fun r f h => handled?_of_line (.inr (.inl h))) hf)
      · exact hG _ (handled_ne_nil (fun r f h => handled?_of_line (.inl h)) hg)
    have honce : (w.traces i).proposed.countP (fun f => f.proposalId == x) ≤ 1 := by
      have hcount := List.nodup_iff_count_le_one.1 (proposed_nodup hr hd i) x
      rwa [List.count, List.countP_map] at hcount
    have hanswers := answers_countP (a := a) (i := i) (x := x) hr
    -- Votes against answers, answers against PROPOSALs handled, and these against the one sent.
    calc ((w.traces i).acceptors x).count a
        = (w.traces i).handledAccepts.countP (PaxosFrame.isVote a x) := count_acceptors _
      _ ≤ (w.traces a).acceptsSent.countP (PaxosFrame.isFor i x) := accepts_le hcopies.1 hr
      _ ≤ (w.traces a).handledProposals.countP (PaxosFrame.isFor i x) := by omega
      _ ≤ (w.traces i).proposed.countP (fun f => f.proposalId == x) :=
          proposals_le hcopies.2 hr hne hlt
      _ ≤ 1 := honce
  · rw [List.count_eq_zero_of_not_mem ha]
    exact Nat.zero_le _

/-- The proposer of an id handles a DECISION_ACK of each server at most once. -/
theorem ackers_nodup (hG : NoCopies G w) (hr : Reachable C G w)
    (hd : w.QueuedDistinct) (ha : C.async = true) (i x : ℕ) : ((w.traces i).ackers x).Nodup := by
  refine List.nodup_iff_count_le_one.2 ?_
  intro a
  by_cases hmem : a ∈ (w.traces i).ackers x
  · rcases acker_ne hr hmem with ⟨hne, hlt⟩
    have hcopies : (∀ w c, G w c → noCopiesTo i w c) ∧ ∀ w c, G w c → noCopiesTo a w c := by
      rcases mem_ackers.1 hmem with ⟨f, hf, -, rfl⟩
      rcases ((sound hr).handledDecisionAck hf).from_ with ⟨d, hg, -⟩
      constructor
      · exact hG _ (handled_ne_nil (fun r f h => handled?_of_line (.inr (.inr (.inr h)))) hf)
      · exact hG _ (handled_ne_nil (fun r f h => handled?_of_line (.inr (.inr (.inl h)))) hg)
    have honce : (w.traces i).decisions.countP (fun f => f.proposalId == x) ≤ 1 := by
      have hcount := List.nodup_iff_count_le_one.1 (announced hr hd i).once x
      rwa [List.count, List.countP_map] at hcount
    calc ((w.traces i).ackers x).count a
        = (w.traces i).handledDecisionAcks.countP (PaxosFrame.isFor a x) := count_ackers _
      _ ≤ (w.traces a).handledDecisions.countP (PaxosFrame.isFor i x) :=
          decisionAcks_le hcopies.1 hr ha
      _ ≤ (w.traces i).decisions.countP (fun f => f.proposalId == x) :=
          decisions_le hcopies.2 hr hne hlt
      _ ≤ 1 := honce
  · rw [List.count_eq_zero_of_not_mem hmem]
    exact Nat.zero_le _

/-- A server handles the DECISION of an id at most once. -/
theorem learned_nodup (hG : NoCopies G w) (hr : Reachable C G w) (hd : w.QueuedDistinct) (i : ℕ) :
    ((w.traces i).handledDecisions.map PaxosFrame.proposalId).Nodup := by
  refine List.nodup_iff_count_le_one.2 ?_
  intro x
  rw [List.count, List.countP_map]
  by_cases hmem : ∃ f ∈ (w.traces i).handledDecisions, f.proposalId = x
  · rcases hmem with ⟨f, hf, rfl⟩
    have hat := (sound hr).handledDecision hf
    have honce : (w.traces f.proposerId).decisions.countP (fun g => g.proposalId == f.proposalId) ≤
        1 := by
      have hcount := List.nodup_iff_count_le_one.1 (announced hr hd f.proposerId).once f.proposalId
      rwa [List.count, List.countP_map] at hcount
    have hcopies := hG i (handled_ne_nil
      (fun r f h => handled?_of_line (.inr (.inr (.inl h)))) hf)
    -- All DECISIONs of the id come from one server.
    calc (w.traces i).handledDecisions.countP (fun g => g.proposalId == f.proposalId)
        = (w.traces i).handledDecisions.countP (PaxosFrame.isFor f.proposerId f.proposalId) := by
          refine List.countP_congr ?_
          intro g hg
          have hgat := (sound hr).handledDecision hg
          simp only [PaxosFrame.isFor, Bool.and_eq_true, beq_iff_eq]
          constructor
          · intro hid
            exact ⟨(decision_unique hr hd hgat.mem hat.mem hid).1, hid⟩
          · exact And.right
      _ ≤ (w.traces f.proposerId).decisions.countP (fun g => g.proposalId == f.proposalId) :=
          decisions_le hcopies hr hat.ne hat.lt
      _ ≤ 1 := honce
  · have hzero : (w.traces i).handledDecisions.countP
        ((fun y => y == x) ∘ PaxosFrame.proposalId) = 0 := by
      refine List.countP_eq_zero.2 ?_
      intro f hf hid
      exact hmem ⟨f, hf, by simpa using hid⟩
    rw [hzero]
    exact Nat.zero_le _

/-! ## What the voters hold -/

/-- A voter holds the value it voted for. -/
theorem accepted_of_acceptor (hr : Reachable C G w) (hd : w.QueuedDistinct)
    (h : a ∈ (w.traces i).acceptors x) {g : PaxosFrame} (hg : g ∈ (w.traces i).proposed)
    (hid : g.proposalId = x) :
    ∃ p, (w.servers a).acceptedProposals.lookup x = some p ∧ p.nodeId = i ∧ p.value = g.value := by
  rcases mem_acceptors.1 h with ⟨f, hf, hfx, rfl⟩
  rcases (sound hr).accept_origin hf with ⟨-, -, -, g', -, hhandled, hfg, -⟩
  rcases (kept hr f.acceptorId).accepted g' hhandled with ⟨p, hp⟩
  rw [← hfg, hfx] at hp
  -- What is stored under the id came from a PROPOSAL of that id, and there is only one.
  rcases (ledger hr f.acceptorId).accepted x p hp with ⟨hpx, f', hf', hkey, hnode⟩
  have hat := (sound hr).handledProposal hf'
  have hidf : f'.proposalId = g.proposalId := by
    have h₁ : f'.proposalId = p.proposalId := congrArg Prod.fst hkey
    rw [h₁, hpx, hid]
  rcases proposed_unique hr hd hat.mem hg hidf with ⟨hown, rfl⟩
  exact ⟨p, hp, hnode.symm.trans hown, (congrArg Prod.snd hkey).symm⟩

/-- A server that has acknowledged a DECISION holds it as decided. -/
theorem decided_of_acker (hr : Reachable C G w) (h : a ∈ (w.traces i).ackers x) :
    ∃ q ∈ (w.servers a).decidedLog, q.proposalId = x := by
  rcases mem_ackers.1 h with ⟨f, hf, rfl, rfl⟩
  rcases ((sound hr).handledDecisionAck hf).from_ with ⟨d, hd, hfd, -⟩
  have hid : d.proposalId = f.proposalId := by
    rw [hfd]
    rfl
  have hlearned : learnedProposal d ∈ (w.traces f.proposerId).decided := by
    have hmem : learnedProposal d ∈ (w.traces f.proposerId).handledDecisions.map learnedProposal :=
      List.mem_map_of_mem hd
    rw [World.traces, ← (kept hr f.proposerId).learned] at hmem
    exact (List.mem_filter.1 hmem).1
  exact ⟨learnedProposal d, (decidedLog_perm hr _).mem_iff.2 hlearned, hid⟩

/-! ## The quorum law -/

/-- The voters of a DECISION have accepted its value. -/
theorem hasQuorum_of_majority (hr : Reachable C G w) (hd : w.QueuedDistinct) {d : PaxosFrame}
    (hdec : d ∈ (w.traces i).decisions) (hmaj : World.Majority C i (w.voters i d.proposalId)) :
    w.HasQuorum C i d := by
  rcases (sound hr).decision_origin hdec with ⟨-, -, g, hg, hid, hval, -⟩
  refine ⟨w.voters i d.proposalId, hmaj, ?_⟩
  intro a ha
  rw [hval]
  exact accepted_of_acceptor hr hd (List.mem_toFinset.1 ha) hg hid.symm

theorem majority_of_nodup {l : List ℕ} (hnodup : l.Nodup) (hne : ∀ a ∈ l, a ≠ i ∧ a < C.numNodes)
    (hhalf : C.numNodes / 2 < 1 + l.length) : World.Majority C i l.toFinset := by
  refine ⟨?_, ?_, ?_⟩
  · intro hmem
    exact (hne i (List.mem_toFinset.1 hmem)).1 rfl
  · intro a ha
    exact (hne a (List.mem_toFinset.1 ha)).2
  · rw [List.toFinset_card_of_nodup hnodup]
    omega

theorem numAck_eq_card (hG : NoCopies G w) (hr : Reachable C G w)
    (hd : w.QueuedDistinct) {p : Proposal} (hl : (w.servers i).proposals.lookup x = some p) :
    p.numAck = 1 + (w.voters i x).card ∧ p.numAck ≤ C.numNodes := by
  have hnodup := acceptors_nodup hG hr hd i x
  have hcard : (w.voters i x).card = ((w.traces i).acceptors x).length :=
    List.toFinset_card_of_nodup hnodup
  have hi : i < C.numNodes := by
    rcases ((ledger hr i).outstanding x p hl).origin with ⟨f, hf, -⟩
    exact lt_of_mem_proposed hr hf
  have hlt : ((w.traces i).acceptors x).length < C.numNodes :=
    length_lt_of_nodup hnodup (fun a ha => (acceptor_ne hr ha).2)
      (fun ha => (acceptor_ne hr ha).1 rfl) hi
  have hcount := (counters hr hd i).numAck x p hl
  have hbound := C.numNodes_lt
  -- Fewer voters than servers: the counter has not wrapped around.
  rw [← World.traces, Nat.mod_eq_of_lt (by omega)] at hcount
  omega

theorem numDecisionAck_eq_card (hG : NoCopies G w) (hr : Reachable C G w)
    (hd : w.QueuedDistinct) (ha : C.async = true) {p : Proposal}
    (hl : (w.servers i).proposals.lookup x = some p) :
    p.numDecisionAck = 1 + (w.backers i x).card := by
  have hnodup := ackers_nodup hG hr hd ha i x
  have hcard : (w.backers i x).card = ((w.traces i).ackers x).length :=
    List.toFinset_card_of_nodup hnodup
  have hi : i < C.numNodes := by
    rcases ((ledger hr i).outstanding x p hl).origin with ⟨f, hf, -⟩
    exact lt_of_mem_proposed hr hf
  have hlt : ((w.traces i).ackers x).length < C.numNodes :=
    length_lt_of_nodup hnodup (fun a ha => (acker_ne hr ha).2)
      (fun ha => (acker_ne hr ha).1 rfl) hi
  have hcount := (counters hr hd i).numDecisionAck ha x p hl
  have hbound := C.numNodes_lt
  rw [← World.traces, Nat.mod_eq_of_lt (by omega)] at hcount
  rw [hcount, hcard]

/-- Over a network that may delay, reorder and lose but not duplicate frames, votes are votes of
distinct servers, a DECISION has a majority behind it, and in asynchronous mode so has every
entry of the leader's decided log. -/
theorem quorum_law (hr : Reachable C noCopies w) (hd : w.DistinctTimestamps) :
    w.QuorumLaw C := by
  have hcopies : ∀ w c, noCopies w c → noRequestCopies w c :=
    fun _ _ h => onTransit_mono (fun _ _ _ _ hc _ => hc) h
  have hq : w.QueuedDistinct := queuedDistinct hcopies hr hd
  have hG : NoCopies noCopies w :=
    fun _ _ _ _ h => onTransit_mono (fun _ _ _ _ hc _ _ => hc) h
  refine ⟨?_, ?_, ?_⟩
  · intro i x p hl
    exact numAck_eq_card hG hr hq hl
  · intro i d hdec
    refine hasQuorum_of_majority hr hq hdec ?_
    exact majority_of_nodup (acceptors_nodup hG hr hq i _)
      (fun a ha => acceptor_ne hr ha) ((counters hr hq i).decision d hdec)
  · intro ha p hp
    have hdecided := mem_decided_of_log hr hp
    -- Only the leader proposes, so its log holds its own proposals only.
    have hown : p.nodeId = Cluster.leader := by
      rcases decided_by_decision hr hq hdecided with ⟨d, hdec, -, -⟩
      rcases (sound hr).decision_origin hdec with ⟨-, -, g, hg, -⟩
      exact eq_leader_of_proposed hr ha hg
    refine ⟨w.backers Cluster.leader p.proposalId, ?_, ?_⟩
    · exact majority_of_nodup (ackers_nodup hG hr hq ha _ _)
        (fun a ha => acker_ne hr ha) ((counters hr hq Cluster.leader).confirmed ha p hdecided hown)
    · intro a hmem
      exact decided_of_acker hr (List.mem_toFinset.1 hmem)

end Quorum

/-- In this asynchronous run of three servers the DECISION to server 2 is lost, so the entry in
the leader's log rests on the leader and server 1. -/
theorem quorum_law_three_servers :
    ∃ w, Reachable (.oneClient 3 (by decide) true 0 10 9000 3 5 0) noCopies w ∧
      (w.servers Cluster.leader).decidedLog ≠ [] ∧ (w.servers 2).decidedLog = [] ∧
      w.QuorumLaw (.oneClient 3 (by decide) true 0 10 9000 3 5 0) := by
  have hrun := exists_reachable_of_runInputs
    (S := program (.oneClient 3 (by decide) true 0 10 9000 3 5 0)) (G := noCopies)
    (List.replicate 28 ({} : Choice) ++ [{ fate := .lose }] ++ List.replicate 4 ({} : Choice))
    (fun w => (w.servers Cluster.leader).decidedLog ≠ [] ∧ (w.servers 2).decidedLog = [])
    (by decide +kernel)
  rcases hrun with ⟨w, hr, htest⟩
  rcases of_decide_eq_true htest with ⟨hlog, hlost⟩
  exact ⟨w, hr, hlog, hlost, quorum_law hr (distinctTimestamps rfl (by decide) hr)⟩

end SyncPaxos
