import SyncPaxos.Safety.Voting

/-!
# Majority — no majority is left undecided

`DoPropose` counts the vote of the proposer itself, but only the handlers of ACCEPTs and
DECISION_ACKs compare a counter with `n / 2`.  From two servers on, the proposer's own vote is no
majority: an entry of `m_proposals` gets its majority in a handler, which decides it at once.  A
server on its own has its majority from the start and nobody who answers, so that its entries are
never decided (`held_of_alone`).
-/

namespace SyncPaxos

open DiscreteEvent Transition

/-- No entry of `m_proposals` has a majority of votes and no decision time, in synchronous mode none
has a majority of votes at all, and in asynchronous mode none whose DECISION was sent has a majority
of acks. -/
structure World.MajorityDecided (C : Cluster) (w : World) : Prop where
  votes : ∀ i x p, (w.servers i).proposals.lookup x = some p →
    ¬ (p.numAck > C.numNodes / 2 ∧ p.decisionTime = 0)
  sync : C.async = false → ∀ i x p, (w.servers i).proposals.lookup x = some p →
    ¬ p.numAck > C.numNodes / 2
  acks : C.async = true → ∀ i x p, (w.servers i).proposals.lookup x = some p →
    (∃ d ∈ (w.traces i).decisions, d.proposalId = x) → ¬ p.numDecisionAck > C.numNodes / 2

section Majority

variable {C : Cluster} {G : World → Choice → Prop} {w : World}

/-- From two servers on, an entry has no majority of acks, announced or not. -/
theorem numDecisionAck_le (hn : 2 ≤ C.numNodes) (hr : Reachable C G w) (i : ℕ) :
    ∀ x p, (w.servers i).proposals.lookup x = some p → p.numDecisionAck ≤ C.numNodes / 2 := by
  refine change_invariant (Q := fun _ => True)
    (P := fun _ s => ∀ x p, s.proposals.lookup x = some p → p.numDecisionAck ≤ C.numNodes / 2)
    (fun _ _ _ _ _ _ => trivial) ?_ ?_ hr trivial i
  · intro _ x p hl
    simp at hl
  · intro w₀ c w i now task s s' _ _ _ hled hs hc
    have hhalf : 1 ≤ C.numNodes / 2 := by omega
    -- Every entry that is put is the old one or has a counter to account for.
    have hput : ∀ x p, p.numDecisionAck ≤ C.numNodes / 2 →
        ∀ y q, (s.putProposal x p).proposals.lookup y = some q →
          q.numDecisionAck ≤ C.numNodes / 2 :=
      fun x p hp => AList.forall_lookup_insert
        (P := fun _ (q : Proposal) => q.numDecisionAck ≤ C.numNodes / 2) hp hs
    have herase : ∀ x y q, (s.eraseProposal x).proposals.lookup y = some q →
        q.numDecisionAck ≤ C.numNodes / 2 :=
      fun x => AList.forall_lookup_erase hs
    cases hc with
    | @propose _ _ p =>
        exact hput p.proposalId (p.propose i now) hhalf
    | @vote _ f found _ hl =>
        have hfound : found.numDecisionAck ≤ C.numNodes / 2 := hs _ _ hl
        exact hput f.proposalId found.incrementNumAck hfound
    | @elect _ f found =>
        exact hput f.proposalId (found.elect now) hhalf
    | @decide _ f =>
        exact herase f.proposalId
    | @ack _ f found _ hl hno =>
        refine hput f.proposalId found.incrementNumDecisionAck ?_
        by_contra hgt
        exact hno ⟨not_le.1 hgt, (hled.outstanding _ _ hl).ackTime⟩
    | @confirm _ f =>
        exact herase f.proposalId
    | _ =>
        exact hs

/-- Nobody answers a server on its own, and it hears of no decision. -/
theorem unanswered {Q : World → Prop} {w₀ : World} {c : Choice} {i : ℕ} {now : Time} {task : Task}
    (halone : C.numNodes < 2) (hturn : Turn C G Q w₀ c w i now task) (f : PaxosFrame) :
    task ≠ .doReceivedAcceptMessage f ∧ task ≠ .doReceivedDecisionMessage f ∧
      task ≠ .doReceivedDecisionAckMessage f := by
  refine ⟨?_, ?_, ?_⟩
  · rintro rfl
    have hat : AcceptAt w₀.traces i f := hturn.scheduled
    exact absurd (two_le_of_acceptAt hturn.before hat hturn.lt) (not_le.2 halone)
  · rintro rfl
    have hat : DecisionAt C w₀.traces i f := hturn.scheduled
    exact absurd (two_le_of_decision hturn.before hat.mem) (not_le.2 halone)
  · rintro rfl
    have hat : DecisionAckAt w₀.traces i f := hturn.scheduled
    exact absurd (two_le_of_decisionAckAt hturn.before hat hturn.lt) (not_le.2 halone)

/-- A server on its own decides nothing. -/
theorem decided_of_alone (halone : C.numNodes < 2) (hr : Reachable C G w) (i : ℕ) :
    (w.traces i).decided = [] := by
  refine change_invariant (Q := fun _ => True) (P := fun _ s => s.trace.decided = [])
    (fun _ _ _ _ _ _ => trivial) (fun _ => rfl) ?_ hr trivial i
  intro w₀ c w i now task s s' hturn _ _ _ hs hc
  cases hc with
  | @note _ _ r hr =>
      cases r <;> simp [Record.IsNote] at hr <;>
        simpa [Server.record] using hs
  | @decide _ f =>
      exact absurd rfl (unanswered halone hturn f).1
  | @learn _ f =>
      exact absurd rfl (unanswered halone hturn f).2.1
  | @confirm _ f =>
      exact absurd rfl (unanswered halone hturn f).2.2
  | _ =>
      simpa [Server.stopApplication, Server.enqueue, Server.storeAccepted, Server.record,
        Server.propose, Server.putProposal] using hs

/-- What a server on its own has proposed it holds, with its own vote. -/
theorem held_of_alone (halone : C.numNodes < 2) (hr : Reachable C G w) (i : ℕ) :
    (w.traces i).proposed ≠ [] →
      ∃ x p, (w.servers i).proposals.lookup x = some p ∧ p.numAck = 1 ∧ p.decisionTime = 0 := by
  refine change_invariant (Q := fun _ => True)
    (P := fun _ s => s.trace.proposed ≠ [] →
      ∃ x p, s.proposals.lookup x = some p ∧ p.numAck = 1 ∧ p.decisionTime = 0)
    (fun _ _ _ _ _ _ => trivial) ?_ ?_ hr trivial i
  · intro _ hne
    exact absurd rfl hne
  · intro w₀ c w i now task s s' hturn _ _ hled hs hc
    -- Nobody answers: the handlers of ACCEPTs and DECISION_ACKs never run.
    have hvote : ∀ f, task ≠ .doReceivedAcceptMessage f := fun f => (unanswered halone hturn f).1
    have hack : ∀ f, task ≠ .doReceivedDecisionAckMessage f :=
      fun f => (unanswered halone hturn f).2.2
    cases hc with
    | flags =>
        exact hs
    | @note _ _ r hr =>
        cases r <;> simp [Record.IsNote] at hr <;>
          simpa [Server.record] using hs
    | @propose _ _ p rest hw =>
        have hzero : p.decisionTime = 0 := (hled.waiting p (by simp [hw])).1
        intro _
        exact ⟨p.proposalId, p.propose i now, AList.lookup_insert _, rfl, hzero⟩
    | @ignoreVote _ f =>
        exact absurd rfl (hvote f)
    | @vote _ f =>
        exact absurd rfl (hvote f)
    | @elect _ f =>
        exact absurd rfl (hvote f)
    | @decide _ f =>
        exact absurd rfl (hvote f)
    | @ignoreAck _ f =>
        exact absurd rfl (hack f)
    | @ack _ f =>
        exact absurd rfl (hack f)
    | @confirm _ f =>
        exact absurd rfl (hack f)
    | _ =>
        simpa [Server.stopApplication, Server.enqueue, Server.storeAccepted, Server.record,
          Server.pushDecided] using hs

/-- No majority is left undecided in a cluster of two servers or more, and on a server of its own
until it proposes for the first time. -/
theorem majority_decided_iff (hn : 1 ≤ C.numNodes) (hr : Reachable C G w) :
    w.MajorityDecided C ↔ 2 ≤ C.numNodes ∨ ∀ i, (w.traces i).proposed = [] := by
  constructor
  · intro h
    by_contra hneither
    rcases not_or.1 hneither with ⟨hfew, hsome⟩
    rcases not_forall.1 hsome with ⟨i, hi⟩
    rcases held_of_alone (not_le.1 hfew) hr i hi with ⟨x, p, hl, hone, hzero⟩
    refine h.votes i x p hl ⟨?_, hzero⟩
    omega
  · rintro (hmany | hnone)
    · have hwaits : ∀ i x p, (w.servers i).proposals.lookup x = some p → Waits C p :=
        entries hmany hr
      refine ⟨?_, ?_, ?_⟩
      · rintro i x p hl ⟨hmajority, hzero⟩
        exact absurd hmajority (not_lt.2 ((hwaits i x p hl).votes hzero))
      · intro hsync i x p hl
        have hzero := (hwaits i x p hl).sync hsync
        exact not_lt.2 ((hwaits i x p hl).votes hzero)
      · intro _ i x p hl _
        exact not_lt.2 (numDecisionAck_le hmany hr i x p hl)
    · -- Nothing is outstanding that has not been proposed.
      have hempty : ∀ i x p, (w.servers i).proposals.lookup x ≠ some p := by
        intro i x p hl
        rcases ((ledger hr i).outstanding x p hl).origin with ⟨f, hf, -⟩
        rw [← World.traces, hnone] at hf
        cases hf
      exact ⟨fun i x p hl => absurd hl (hempty i x p), fun _ i x p hl => absurd hl (hempty i x p),
        fun _ i x p hl => absurd hl (hempty i x p)⟩

end Majority

/-- A slot has come round since the entry was proposed, and its two voters are still to be heard. -/
theorem majority_decided_three_servers :
    ∃ w, Reachable (.oneClient 3 (by decide) false 0 10 200 4 5 0) noCopies w ∧
      ((w.servers 0).proposals.lookup 2).map Proposal.numAck = some 1 ∧
      w.MajorityDecided (.oneClient 3 (by decide) false 0 10 200 4 5 0) := by
  have hrun := exists_reachable_of_runInputs
    (S := program (.oneClient 3 (by decide) false 0 10 200 4 5 0)) (G := noCopies)
    (List.replicate 25 ({} : Choice))
    (fun w => ((w.servers 0).proposals.lookup 2).map Proposal.numAck = some 1) (by decide +kernel)
  rcases hrun with ⟨w, hr, htest⟩
  exact ⟨w, hr, of_decide_eq_true htest,
    (majority_decided_iff (by decide) hr).2 (Or.inl (by decide))⟩

/-- A server on its own proposes the request at 21.  When it stops at 200, the entry has its one
vote of one, more than half, and no decision time. -/
theorem alone_never_decides :
    ∃ w, Reachable (.oneClient 1 (by decide) false 0 10 200 4 5 0) noCopies w ∧
      w.now = 200 ∧
      ((w.servers 0).proposals.lookup 2).map (fun p => (p.numAck, p.decisionTime)) = some (1, 0) ∧
      ¬ w.MajorityDecided (.oneClient 1 (by decide) false 0 10 200 4 5 0) := by
  have hrun := exists_reachable_of_runInputs
    (S := program (.oneClient 1 (by decide) false 0 10 200 4 5 0)) (G := noCopies)
    (List.replicate 29 ({} : Choice))
    (fun w => w.now = 200 ∧
      ((w.servers 0).proposals.lookup 2).map (fun p => (p.numAck, p.decisionTime)) = some (1, 0))
    (by decide +kernel)
  rcases hrun with ⟨w, hr, htest⟩
  rcases of_decide_eq_true htest with ⟨hnow, hentry⟩
  refine ⟨w, hr, hnow, hentry, ?_⟩
  intro h
  rcases Option.map_eq_some_iff.1 hentry with ⟨p, hl, hp⟩
  rcases Prod.mk.inj hp with ⟨hone, hzero⟩
  refine h.votes 0 2 p hl ⟨?_, hzero⟩
  rw [hone]
  exact Nat.one_pos

end SyncPaxos
