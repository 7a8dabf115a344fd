import SyncPaxos.Library.Closed
import SyncPaxos.Run.Fifo
import SyncPaxos.Safety.Discipline
import SyncPaxos.Safety.Voting

/-!
# Order — what is proposed first is decided first

Over channels that keep the order, a server that has voted for a proposal has voted for every
earlier proposal of the same proposer (`voters_subset`).  So a majority for one proposal is a
majority for those before it, and a proposer announces its proposals in the order in which it
proposed them, none left out, however many are outstanding at once (`decisions_isPrefix`).  The
DECISIONs keep that order on their way.
-/

namespace SyncPaxos

open DiscreteEvent Transition

variable {C : Cluster} {w : World} {i j x y : ℕ}

theorem noRequestCopies_of_fifo {c : Choice} (h : fifo w c) : noRequestCopies w c :=
  onTransit_mono (fun _ _ _ _ hrule _ => hrule.1) h

theorem noCopies_of_fifo (w : World) : NoCopies fifo w :=
  fun _ _ _ _ h => onTransit_mono (fun _ _ _ _ hrule _ _ => hrule.1) h

/-! ## Votes -/

theorem mem_voters : j ∈ w.voters i x ↔
    x ∈ ((w.traces i).handledAccepts.filter (fun f => f.acceptorId == j)).map
      PaxosFrame.proposalId := by
  rw [World.voters, List.mem_toFinset, mem_acceptors]
  simp only [List.mem_map, List.mem_filter, beq_iff_eq]
  constructor
  · rintro ⟨f, hf, hid, ha⟩
    exact ⟨f, ⟨hf, ha⟩, hid⟩
  · rintro ⟨f, ⟨hf, ha⟩, hid⟩
    exact ⟨f, hf, hid, ha⟩

/-- Who has voted for a proposal has voted for those before it. -/
theorem voters_subset (hr : Reachable C fifo w) (hd : w.QueuedDistinct) {l₁ l₂ : List ℕ}
    (heq : (w.traces i).proposed.map PaxosFrame.proposalId = l₁ ++ y :: l₂) (hx : x ∈ l₁) :
    w.voters i y ⊆ w.voters i x := by
  intro j hj
  have hclosed := List.closedIn_of_isPrefix (proposed_nodup hr hd i) (votes_isPrefix hr i j)
  apply mem_voters.2
  exact hclosed l₁ y l₂ heq (mem_voters.1 hj) hx

/-! ## Decisions -/

theorem proposed_keys_nodup {G : World → Choice → Prop} (hr : Reachable C G w)
    (hd : w.QueuedDistinct) (i : ℕ) : ((w.traces i).proposed.map PaxosFrame.key).Nodup := by
  have hids : (((w.traces i).proposed.map PaxosFrame.key).map Prod.fst).Nodup := by
    rw [List.map_map]
    exact proposed_nodup hr hd i
  exact hids.of_map _

/-- With a proposal, its proposer has announced all those before it. -/
theorem decisions_closed (hn : 2 ≤ C.numNodes) (hr : Reachable C fifo w) (hd : w.QueuedDistinct)
    (i : ℕ) :
    ((w.traces i).proposed.map PaxosFrame.key).ClosedIn
      ((w.traces i).decisions.map PaxosFrame.key) := by
  intro l₁ key l₂ heq hkey key' hkey'
  rcases List.mem_map.1 hkey with ⟨d, hdec, rfl⟩
  have hmem : key' ∈ (w.traces i).proposed.map PaxosFrame.key := by
    rw [heq]
    exact List.mem_append_left _ hkey'
  rcases List.mem_map.1 hmem with ⟨f, hf, rfl⟩
  -- The majority for the later proposal has voted for the earlier one.
  have hids : (w.traces i).proposed.map PaxosFrame.proposalId =
      l₁.map Prod.fst ++ d.proposalId :: l₂.map Prod.fst := by
    have hfst := congrArg (List.map Prod.fst) heq
    rwa [List.map_map, List.map_append, List.map_cons] at hfst
  have hsub := voters_subset hr hd hids (x := f.proposalId) (List.mem_map.2 ⟨f.key, hkey', rfl⟩)
  have hvotes : C.numNodes / 2 < 1 + (w.voters i f.proposalId).card := by
    have hmaj := (counters hr hd i).decision d hdec
    have hlater : (w.voters i d.proposalId).card = ((w.traces i).acceptors d.proposalId).length :=
      List.toFinset_card_of_nodup (acceptors_nodup (noCopies_of_fifo w) hr hd i _)
    have hcard := Finset.card_le_card hsub
    rw [World.traces] at hlater
    omega
  -- So the earlier one has been decided, or it is outstanding with enough votes.
  cases hl : (w.servers i).proposals.lookup f.proposalId with
  | none =>
      rcases own_decided hr hd hf hl with ⟨q, hq, hqkey, rfl⟩
      rcases decided_by_decision hr hd hq with ⟨d', hdec', hdkey, -⟩
      exact List.mem_map.2 ⟨d', hdec', hdkey.trans hqkey⟩
  | some p =>
      have hannounced := decisionTime_of_voters (noCopies_of_fifo w) hn hr hd hl hvotes
      rcases (announced hr hd i).announced _ p hl hannounced with ⟨d', hdec', hdkey, -⟩
      have hid : d'.proposalId = f.proposalId :=
        (congrArg Prod.fst hdkey).trans ((ledger hr i).outstanding _ p hl).id
      rcases (sound hr).decision_origin hdec' with ⟨-, -, g, hg, hgid, hgval, -⟩
      obtain rfl : g = f := (proposed_unique hr hd hg hf (hgid.symm.trans hid)).2
      exact List.mem_map.2 ⟨d', hdec', Prod.ext hgid hgval⟩

/-- One call announces at most one decision and decides at most one proposal. -/
theorem newRecords_length_le {β : Type} {p : Record → Option β}
    (hp : ∀ r, r.decision? = none → r.decided? = none → p r = none)
    (hor : (∀ f, p (.decision f) = none) ∨ ∀ q, p (.decided q) = none) {now : Time} {task : Task}
    {s : Server} : ((Server.newRecords C i now task s).filterMap p).length ≤ 1 := by
  have hskip : ∀ (r : Record) (l : Trace), r.decision? = none → r.decided? = none →
      (r :: l).filterMap p = l.filterMap p := by
    intro r l h₁ h₂
    rw [List.filterMap_cons, hp r h₁ h₂]
  have hcons : ∀ (r : Record) (l : Trace), r.decision? = none → r.decided? = none →
      (l.filterMap p).length ≤ 1 → ((r :: l).filterMap p).length ≤ 1 := by
    intro r l h₁ h₂ hl
    rw [hskip r l h₁ h₂]
    exact hl
  have hone : ∀ r : Record, ([r].filterMap p).length ≤ 1 :=
    fun r => List.length_filterMap_le p [r]
  have hpropose : (s.proposeRecords i now).filterMap p = [] := by
    unfold Server.proposeRecords
    split
    · rfl
    · exact hskip _ _ rfl rfl
  have hasync : (s.asyncProposeRecords C i now).filterMap p = [] := by
    refine (hskip _ _ rfl rfl).trans ?_
    split
    · rfl
    · exact hpropose
  cases task with
  | startProposerThread =>
      apply hcons _ _ rfl rfl
      split
      · simp [hasync]
      · simp
  | createProposalFromRequest r =>
      simp only [Server.newRecords]
      split
      · simp
      · exact hone _
  | doSyncPropose =>
      apply hcons _ _ rfl rfl
      split
      · simp
      · simp [hpropose]
  | doAsyncPropose =>
      simp [Server.newRecords, hasync]
  | doReceivedAcceptMessage f =>
      apply hcons _ _ rfl rfl
      split
      · simp
      · split
        · exact hone _
        · -- Only one of the two lines is seen.
          rcases hor with hno | hno
          · rw [List.filterMap_cons, hno]
            exact hone _
          · rw [List.filterMap_cons, List.filterMap_cons, hno]
            exact hone _
  | doReceivedDecisionMessage f =>
      apply hcons _ _ rfl rfl
      exact hone _
  | doReceivedDecisionAckMessage f =>
      apply hcons _ _ rfl rfl
      split
      · simp
      · rw [List.filterMap_cons, hasync]
        exact hone _
  | sendAcceptMessage f =>
      exact hone _
  | doReceivedProposalMessage f =>
      exact hone _
  | _ =>
      exact Nat.zero_le _

theorem newLines_length_le {β : Type} {p : Record → Option β}
    (hp : ∀ r, r.decision? = none → r.decided? = none → p r = none)
    (hor : (∀ f, p (.decision f) = none) ∨ ∀ q, p (.decided q) = none) (e : Event) :
    ((newLines C w e i).filterMap p).length ≤ 1 := by
  unfold newLines
  split
  · split
    · exact newRecords_length_le hp hor
    · simp
  · simp

/-- A proposer announces its proposals in the order in which it proposed them. -/
theorem decisions_isPrefix (hn : 2 ≤ C.numNodes) (hr : Reachable C fifo w) (hd : w.QueuedDistinct)
    (i : ℕ) :
    (w.traces i).decisions.map PaxosFrame.key <+: (w.traces i).proposed.map PaxosFrame.key := by
  -- One more key at a time, from a closed set: the keys can only come in the order proposed.
  refine Reachable.isPrefix_of_closed (Q := World.QueuedDistinct)
    (l := fun w => (w.traces i).decisions.map PaxosFrame.key)
    (m := fun w => (w.traces i).proposed.map PaxosFrame.key)
    (fun _ _ _ _ => QueuedDistinct.of_step) rfl ?_ ?_ (fun _ hr hd => proposed_keys_nodup hr hd i)
    ?_ (fun _ hr hd => decisions_closed hn hr hd i) hr hd
  · intro w c w' _ hstep
    rcases step_spec hstep with ⟨e, rest, hs⟩
    refine ⟨(newLines C w e i).decisions.map PaxosFrame.key, ?_, ?_⟩
    · rw [List.length_map]
      exact newLines_length_le (fun r h _ => h) (.inr (fun q => rfl)) e
    · rw [hs.traces, Trace.decisions, List.filterMap_append, List.map_append]
  · intro w c w' _ hstep
    exact ((step_trace_grows hstep i).filterMap _).map _
  · intro w hr hd
    constructor
    · have hids : (((w.traces i).decisions.map PaxosFrame.key).map Prod.fst).Nodup := by
        rw [List.map_map]
        exact (announced hr hd i).once
      exact hids.of_map _
    · intro key hkey
      rcases List.mem_map.1 hkey with ⟨d, hdec, rfl⟩
      rcases (sound hr).decision_origin hdec with ⟨-, -, g, hg, hid, hval, -⟩
      exact List.mem_map.2 ⟨g, hg, Prod.ext hid.symm hval.symm⟩

/-! ## Decided queues -/

theorem ownDecided_sync_isPrefix (hn : 2 ≤ C.numNodes) (hsync : C.async = false)
    (hr : Reachable C fifo w) (hd : w.QueuedDistinct) (i : ℕ) :
    (ownDecided i (w.traces i).decided).map Proposal.key <+:
      (w.traces i).proposed.map PaxosFrame.key := by
  refine Reachable.isPrefix_of_closed (Q := World.QueuedDistinct)
    (l := fun w => (ownDecided i (w.traces i).decided).map Proposal.key)
    (m := fun w => (w.traces i).proposed.map PaxosFrame.key)
    (fun _ _ _ _ => QueuedDistinct.of_step) rfl ?_ ?_ (fun _ hr hd => proposed_keys_nodup hr hd i)
    ?_ ?_ hr hd
  · intro w c w' _ hstep
    rcases step_spec hstep with ⟨e, rest, hs⟩
    refine ⟨(ownDecided i (newLines C w e i).decided).map Proposal.key, ?_, ?_⟩
    · rw [List.length_map]
      apply (List.length_filter_le _ _).trans
      exact newLines_length_le (fun r _ h => h) (.inl (fun f => rfl)) e
    · rw [hs.traces, Trace.decided, List.filterMap_append, ownDecided, List.filter_append,
        List.map_append]
      rfl
  · intro w c w' _ hstep
    exact ((step_trace_grows hstep i).filterMap _).map _
  · intro w hr hd
    constructor
    · have hids : (((ownDecided i (w.traces i).decided).map Proposal.key).map Prod.fst).Nodup := by
        rw [List.map_map]
        exact ownDecided_nodup hr hd i
      exact hids.of_map _
    · intro key hkey
      exact (decisions_isPrefix hn hr hd i).subset ((mem_ownDecided_sync hr hd hn hsync).1 hkey)
  · intro w hr hd l₁ key l₂ heq hkey key' hkey'
    apply (mem_ownDecided_sync hr hd hn hsync).2
    exact decisions_closed hn hr hd i l₁ key l₂ heq
      ((mem_ownDecided_sync hr hd hn hsync).1 hkey) hkey'

/-- In asynchronous mode nobody else proposes. -/
theorem ownDecided_follower {G : World → Choice → Prop} (hr : Reachable C G w)
    (hd : w.QueuedDistinct) (ha : C.async = true) (hi : i ≠ Cluster.leader) :
    ownDecided i (w.traces i).decided = [] := by
  have hproposed := (follower_idle hr ha hi).2.1
  have haccounts := accounts hr hd i
  rw [Accounts, ← World.traces, hproposed, List.map_nil] at haccounts
  have hnil := haccounts.symm.eq_nil
  exact List.map_eq_nil_iff.1 (List.append_eq_nil_iff.1 hnil).1

/-- What server `j` has decided of server `i`, in the order of its decisions, is what server `i`
proposed first. -/
theorem decided_isPrefix (hn : 2 ≤ C.numNodes) (hr : Reachable C fifo w) (hd : w.QueuedDistinct)
    (i j : ℕ) :
    (ownDecided i (w.traces j).decided).map Proposal.key <+:
      (w.traces i).proposed.map PaxosFrame.key := by
  by_cases hij : j = i
  · subst hij
    cases ha : C.async with
    | false =>
        exact ownDecided_sync_isPrefix hn ha hr hd j
    | true =>
        by_cases hj : j = Cluster.leader
        · subst hj
          exact ownDecided_isPrefix ha hr
        · rw [ownDecided_follower hr hd ha hj]
          exact List.nil_prefix
  · -- Another server has learned them from DECISIONs.
    have hlearned : ownDecided i (w.traces j).decided =
        ((w.traces j).handledDecisions.filter (fun f => f.proposerId == i)).map
          learnedProposal := by
      have hkept := congrArg (ownDecided i) (kept hr j).learned
      rw [ownDecided, ownDecided, List.filter_filter, List.filter_map] at hkept
      refine Eq.trans ?_ (hkept.trans ?_)
      · refine List.filter_congr ?_
        intro q _
        by_cases hq : q.nodeId = i
        · simp [hq, Ne.symm hij]
        · simp [hq]
      · refine congrArg _ (List.filter_congr ?_)
        intro f _
        by_cases hf : f.proposerId = i <;> simp [learnedProposal, hf]
    rw [hlearned, List.map_map]
    exact ((handledDecisions_isPrefix hr i j).map PaxosFrame.key).trans
      (decisions_isPrefix hn hr hd i)

/-! ## Sorted logs -/

/-- What a server has decided, least id first. -/
def Server.sortedLog (s : Server) : List Proposal :=
  s.decidedLog.insertionSort (fun p q => p.proposalId ≤ q.proposalId)

/-- The requests have reached the leader in the order of their timestamps. -/
def World.RequestsInOrder (w : World) : Prop :=
  ((w.arrived.filterMap (Packet.requestTo? Cluster.leader)).map
    RequestFrame.timestamp).Pairwise (· < ·)

/-- The leader proposes increasing ids. -/
theorem proposed_increasing {G : World → Choice → Prop} (hr : Reachable C G w)
    (hreq : w.RequestsInOrder) :
    ((w.traces Cluster.leader).proposed.map PaxosFrame.proposalId).Pairwise (· < ·) := by
  have hqueued : (w.traces Cluster.leader).queued.Sublist
      (w.arrived.filterMap (Packet.requestTo? Cluster.leader)) :=
    (List.sublist_append_left _ _).trans (creations hr Cluster.leader)
  have hproposed : (w.traces Cluster.leader).proposed.map PaxosFrame.proposalId <+:
      (w.traces Cluster.leader).queued.map RequestFrame.timestamp := by
    have hqueue : (w.traces Cluster.leader).proposed.map PaxosFrame.key <+:
        (w.traces Cluster.leader).queued.map RequestFrame.key :=
      ⟨_, (ledger hr Cluster.leader).queue⟩
    have hids := hqueue.map Prod.fst
    rwa [List.map_map, List.map_map] at hids
  exact (hreq.sublist (hqueued.map _)).sublist hproposed.sublist

/-- In asynchronous mode everything decided is the leader's. -/
theorem ownDecided_leader {G : World → Choice → Prop} (hr : Reachable C G w)
    (hd : w.QueuedDistinct) (ha : C.async = true) (j : ℕ) :
    ownDecided Cluster.leader (w.traces j).decided = (w.traces j).decided := by
  refine List.filter_eq_self.2 ?_
  intro p hp
  rcases decided_by_decision hr hd hp with ⟨d, hdec, -⟩
  rcases (sound hr).decision_origin hdec with ⟨-, -, g, hg, -⟩
  by_contra hne
  have hproposed := (follower_idle hr ha (by simpa using hne)).2.1
  rw [hproposed] at hg
  cases hg

/-- In asynchronous mode the sorted log is the log in the order of the decisions. -/
theorem sortedLog_eq (hn : 2 ≤ C.numNodes) (ha : C.async = true) (hr : Reachable C fifo w)
    (hd : w.QueuedDistinct) (hreq : w.RequestsInOrder) (j : ℕ) :
    (w.servers j).sortedLog = (w.traces j).decided := by
  apply List.insertionSort_eq_of_perm (decidedLog_perm hr j)
  have hids := (decided_isPrefix hn hr hd Cluster.leader j).map Prod.fst
  rw [ownDecided_leader hr hd ha, List.map_map, List.map_map] at hids
  exact (proposed_increasing hr hreq).sublist hids.sublist

/-! ## The order of one proposer -/

/-- Servers decide the proposals of one proposer in the order in which it made them. -/
structure World.InOrder (C : Cluster) (w : World) : Prop where
  gapFree : ∀ s p, (ownDecided p (w.traces s).decided).map Proposal.key <+:
    (w.traces p).proposed.map PaxosFrame.key
  comparable : ∀ s t p,
    (ownDecided p (w.traces s).decided).map Proposal.key <+:
        (ownDecided p (w.traces t).decided).map Proposal.key ∨
      (ownDecided p (w.traces t).decided).map Proposal.key <+:
        (ownDecided p (w.traces s).decided).map Proposal.key
  sorted : C.async = true → w.RequestsInOrder → ∀ (s t k : ℕ) (p q : Proposal),
    (w.servers s).sortedLog[k]? = some p → (w.servers t).sortedLog[k]? = some q →
      p.key = q.key ∧ p.nodeId = q.nodeId ∧ p.decisionTime = q.decisionTime

theorem in_order (hn : 2 ≤ C.numNodes) (hr : Reachable C fifo w) (hd : w.DistinctTimestamps) :
    w.InOrder C := by
  have hdist : w.QueuedDistinct := queuedDistinct (fun _ _ => noRequestCopies_of_fifo) hr hd
  have hpre := fun s p => decided_isPrefix hn hr hdist p s
  refine ⟨hpre, ?_, ?_⟩
  · intro s t p
    exact List.prefix_or_prefix_of_prefix (hpre s p) (hpre t p)
  · intro ha hreq s t k p q hp hq
    rw [sortedLog_eq hn ha hr hdist hreq] at hp hq
    -- Both logs are prefixes of what the leader proposed, so they agree place by place.
    have hs := hpre s Cluster.leader
    have ht := hpre t Cluster.leader
    rw [ownDecided_leader hr hdist ha] at hs ht
    have hkey : p.key = q.key := by
      apply hs.getElem?_eq ht
      · rw [List.getElem?_map, hp]
        rfl
      · rw [List.getElem?_map, hq]
        rfl
    have hmem : ∀ j r, r ∈ (w.traces j).decided → r ∈ (w.servers j).decidedLog :=
      fun j r h => (decidedLog_perm hr j).mem_iff.2 h
    have hagree := decided_agree hr hdist (hmem s p (List.mem_of_getElem? hp))
      (hmem t q (List.mem_of_getElem? hq)) (congrArg Prod.fst hkey)
    exact ⟨hkey, hagree.1, hagree.2.2⟩

/-- Both PROPOSALs of server 0 are on their way at once; it has decided the two of them, and server 1
has learned the first. -/
theorem in_order_two_servers :
    ∃ w, Reachable (.oneClient 2 (by decide) false 0 5 200 9 3 0) fifo w ∧
      (ownDecided 0 (w.traces 0).decided).length = 2 ∧
      (ownDecided 0 (w.traces 1).decided).length = 1 ∧
      w.InOrder (.oneClient 2 (by decide) false 0 5 200 9 3 0) := by
  have hrun := exists_reachable_of_runInputs
    (S := program (.oneClient 2 (by decide) false 0 5 200 9 3 0)) (G := fifo)
    (List.replicate 12 ({} : Choice) ++ [{ fate := .forward 500 }] ++
      List.replicate 9 ({} : Choice) ++ [{ fate := .forward 15 }] ++
      List.replicate 2 ({} : Choice) ++ [{ fate := .forward 5 }] ++
      List.replicate 16 ({} : Choice))
    (fun w => (ownDecided 0 (w.traces 0).decided).length = 2 ∧
      (ownDecided 0 (w.traces 1).decided).length = 1) (by decide +kernel)
  rcases hrun with ⟨w, hr, htest⟩
  rcases of_decide_eq_true htest with ⟨hzero, hone⟩
  exact ⟨w, hr, hzero, hone,
    in_order (by decide) hr (distinctTimestamps rfl (by decide) hr)⟩

end SyncPaxos
