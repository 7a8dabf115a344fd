import SyncPaxos.Run.Delivery

/-!
# Rounds — counting the frames of one proposal

A proposal makes two rounds: PROPOSALs out and ACCEPTs back, then DECISIONs out and, in
asynchronous mode, DECISION_ACKs back.  For the proposal `x` of server `i` and one other server
`a`, each leg is counted against the leg before it.

* `…_le` holds for a leg on which nothing is copied: an answer is counted once;
* `…_ge` holds for a leg on which nothing is lost, once none of its frames travels or waits.
-/

namespace SyncPaxos

open DiscreteEvent Counting

/-- A frame about the proposal `x` that names server `i` in its proposer field. -/
def PaxosFrame.isFor (i x : ℕ) (f : PaxosFrame) : Bool := f.proposerId == i && f.proposalId == x

/-- A vote of server `a` for the proposal `x`. -/
def PaxosFrame.isVote (a x : ℕ) (f : PaxosFrame) : Bool := f.acceptorId == a && f.proposalId == x

/-- A PROPOSAL, an ACCEPT, a DECISION and a DECISION_ACK of the two rounds. -/
def PaxosFrame.proposalTest (i x : ℕ) (f : PaxosFrame) : Bool := f.isFor i x && f.isProposal
def PaxosFrame.acceptTest (a x : ℕ) (f : PaxosFrame) : Bool := f.isVote a x && f.isAccept
def PaxosFrame.decisionTest (i x : ℕ) (f : PaxosFrame) : Bool := f.isFor i x && f.isDecision
def PaxosFrame.ackTest (a x : ℕ) (f : PaxosFrame) : Bool := f.isFor a x && f.isDecisionAck

variable {C : Cluster} {G : World → Choice → Prop} {w : World} {i a x : ℕ}

/-! ## The sender of a class -/

theorem sender_of_not_accept {f : PaxosFrame} {K : ℕ} (hK : K ≠ PaxosFrame.ACCEPT)
    (hf : (f.messageType == K) = true) : f.sender = f.proposerId := by
  have htype : f.messageType = K := by simpa using hf
  have hno : f.isAccept = false := by
    simpa [PaxosFrame.isAccept, htype] using hK
  simp [PaxosFrame.sender, hno]

theorem proposalTest_sender (f : PaxosFrame) (hf : f.proposalTest i x = true) : f.sender = i := by
  have hf' : (f.proposerId = i ∧ f.proposalId = x) ∧ f.isProposal = true := by
    simpa [PaxosFrame.proposalTest, PaxosFrame.isFor] using hf
  rw [sender_of_not_accept (by decide) hf'.2, hf'.1.1]

theorem acceptTest_sender (f : PaxosFrame) (hf : f.acceptTest a x = true) : f.sender = a := by
  have hf' : (f.acceptorId = a ∧ f.proposalId = x) ∧ f.isAccept = true := by
    simpa [PaxosFrame.acceptTest, PaxosFrame.isVote] using hf
  rw [PaxosFrame.sender, hf'.2, if_pos rfl, hf'.1.1]

theorem decisionTest_sender (f : PaxosFrame) (hf : f.decisionTest i x = true) : f.sender = i := by
  have hf' : (f.proposerId = i ∧ f.proposalId = x) ∧ f.isDecision = true := by
    simpa [PaxosFrame.decisionTest, PaxosFrame.isFor] using hf
  rw [sender_of_not_accept (by decide) hf'.2, hf'.1.1]

theorem ackTest_sender (f : PaxosFrame) (hf : f.ackTest a x = true) : f.sender = a := by
  have hf' : (f.proposerId = a ∧ f.proposalId = x) ∧ f.isDecisionAck = true := by
    simpa [PaxosFrame.ackTest, PaxosFrame.isFor] using hf
  rw [sender_of_not_accept (by decide) hf'.2, hf'.1.1]

/-! ## A class at its sender and at its receiver -/

theorem sentOn_proposalTest (hr : Reachable C G w) (ha : a ≠ i) (hlt : a < C.numNodes) :
    (w.sentOn i a).countP (PaxosFrame.proposalTest i x) =
      (w.traces i).proposed.countP (fun f => f.proposalId == x) := by
  have hfilter := sentOn_proposals hr ha hlt
  calc (w.sentOn i a).countP (PaxosFrame.proposalTest i x)
      = ((w.sentOn i a).filter PaxosFrame.isProposal).countP (PaxosFrame.isFor i x) :=
        List.countP_filter.symm
    _ = (w.traces i).proposed.countP (PaxosFrame.isFor i x) := by rw [hfilter]
    _ = (w.traces i).proposed.countP (fun f => f.proposalId == x) := by
        refine List.countP_congr ?_
        intro f hf
        simp [PaxosFrame.isFor, ((sound hr).proposed hf).2]

theorem sentOn_acceptTest (hr : Reachable C G w) :
    (w.sentOn a i).countP (PaxosFrame.acceptTest a x) =
      (w.traces a).acceptsSent.countP (PaxosFrame.isFor i x) := by
  have hfilter := sentOn_accepts (i := a) (j := i) hr
  calc (w.sentOn a i).countP (PaxosFrame.acceptTest a x)
      = ((w.sentOn a i).filter PaxosFrame.isAccept).countP (PaxosFrame.isVote a x) :=
        List.countP_filter.symm
    _ = ((w.traces a).acceptsSent.filter (fun f => f.proposerId == i)).countP
          (PaxosFrame.isVote a x) := by rw [hfilter]
    _ = (w.traces a).acceptsSent.countP (PaxosFrame.isFor i x) := by
        rw [List.countP_filter]
        refine List.countP_congr ?_
        intro f hf
        rcases (sound hr).acceptSent hf with ⟨g, -, t, rfl⟩
        simp only [PaxosFrame.isFor, PaxosFrame.isVote, acceptFrame, beq_self_eq_true,
          Bool.true_and, Bool.and_eq_true, beq_iff_eq]
        exact and_comm

theorem sentOn_decisionTest (hr : Reachable C G w) (ha : a ≠ i) (hlt : a < C.numNodes) :
    (w.sentOn i a).countP (PaxosFrame.decisionTest i x) =
      (w.traces i).decisions.countP (fun f => f.proposalId == x) := by
  have hfilter := sentOn_decisions hr ha hlt
  calc (w.sentOn i a).countP (PaxosFrame.decisionTest i x)
      = ((w.sentOn i a).filter PaxosFrame.isDecision).countP (PaxosFrame.isFor i x) :=
        List.countP_filter.symm
    _ = (w.traces i).decisions.countP (PaxosFrame.isFor i x) := by rw [hfilter]
    _ = (w.traces i).decisions.countP (fun f => f.proposalId == x) := by
        refine List.countP_congr ?_
        intro f hf
        simp [PaxosFrame.isFor, ((sound hr).decision_origin hf).2.1]

theorem sentOn_ackTest (hr : Reachable C G w) (hasync : C.async = true) :
    (w.sentOn a i).countP (PaxosFrame.ackTest a x) =
      (w.traces a).handledDecisions.countP (PaxosFrame.isFor i x) := by
  have hfilter := sentOn_decisionAcks (i := a) (j := i) hr hasync
  calc (w.sentOn a i).countP (PaxosFrame.ackTest a x)
      = ((w.sentOn a i).filter PaxosFrame.isDecisionAck).countP (PaxosFrame.isFor a x) :=
        List.countP_filter.symm
    _ = (((w.traces a).handledDecisions.filter (fun f => f.proposerId == i)).map
          (decisionAckFrame a)).countP (PaxosFrame.isFor a x) := by rw [hfilter]
    _ = (w.traces a).handledDecisions.countP (PaxosFrame.isFor i x) := by
        rw [List.countP_map, List.countP_filter]
        refine List.countP_congr ?_
        intro f _
        simp [PaxosFrame.isFor, decisionAckFrame, and_comm]

theorem handled_proposalTest (hr : Reachable C G w) :
    ((w.traces a).filterMap Record.handled?).countP (PaxosFrame.proposalTest i x) =
      (w.traces a).handledProposals.countP (PaxosFrame.isFor i x) := by
  rw [← handled_proposals hr a]
  exact List.countP_filter.symm

theorem handled_acceptTest (hr : Reachable C G w) :
    ((w.traces i).filterMap Record.handled?).countP (PaxosFrame.acceptTest a x) =
      (w.traces i).handledAccepts.countP (PaxosFrame.isVote a x) := by
  rw [← handled_accepts hr i]
  exact List.countP_filter.symm

theorem handled_decisionTest (hr : Reachable C G w) :
    ((w.traces a).filterMap Record.handled?).countP (PaxosFrame.decisionTest i x) =
      (w.traces a).handledDecisions.countP (PaxosFrame.isFor i x) := by
  rw [← handled_decisions hr a]
  exact List.countP_filter.symm

theorem handled_ackTest (hr : Reachable C G w) :
    ((w.traces i).filterMap Record.handled?).countP (PaxosFrame.ackTest a x) =
      (w.traces i).handledDecisionAcks.countP (PaxosFrame.isFor a x) := by
  rw [← handled_decisionAcks hr i]
  exact List.countP_filter.symm

/-- The ACCEPTs sent, and those to be sent, against the PROPOSALs handled. -/
theorem answers_countP (hr : Reachable C G w) :
    (w.traces a).acceptsSent.countP (PaxosFrame.isFor i x) +
        (w.pending a Task.answering).countP (PaxosFrame.isFor i x) =
      (w.traces a).handledProposals.countP (PaxosFrame.isFor i x) := by
  have hbody : PaxosFrame.isFor i x ∘ PaxosFrame.body = PaxosFrame.isFor i x := rfl
  have hanswered : (w.traces a).filterMap Record.answered =
      (w.traces a).acceptsSent.map PaxosFrame.body := by
    rw [List.map_filterMap]
    rfl
  -- An answer differs from its PROPOSAL in fields that the count does not read.
  have hbal := congrArg (List.countP (PaxosFrame.isFor i x)) (answers hr a)
  rw [List.countP_append, hanswered, List.countP_map, List.countP_map, hbody] at hbal
  exact hbal

/-! ## Without copies -/

section NoCopies

theorem isRequest_of_carries {packet : Packet} {j : ℕ} {test : PaxosFrame → Bool}
    (h : packet.carries j test = true) : packet.dst = j ∧ packet.isRequest = false := by
  rcases packet with ⟨src, dst, payload, sentAt⟩
  by_cases hj : dst = j
  · refine ⟨hj, ?_⟩
    cases payload with
    | request r =>
        simp [Packet.carries, Packet.paxosTo?, Packet.paxos?] at h
    | paxos f =>
        rfl
  · simp [Packet.carries, Packet.paxosTo?, hj] at h

theorem noCopiesTo_carries {j : ℕ} (hG : ∀ w c, G w c → noCopiesTo j w c)
    (test : PaxosFrame → Bool) : ∀ w c, G w c →
      onTransit (fun _ p _ fate => p.carries j test = true → fate.isCopy = false) w c := by
  intro w c hg
  refine onTransit_mono ?_ (hG w c hg)
  intro _ p _ fate hrule hp
  exact hrule (isRequest_of_carries hp).1 (isRequest_of_carries hp).2

theorem proposals_le (hG : ∀ w c, G w c → noCopiesTo a w c) (hr : Reachable C G w) (ha : a ≠ i)
    (hlt : a < C.numNodes) :
    (w.traces a).handledProposals.countP (PaxosFrame.isFor i x) ≤
      (w.traces i).proposed.countP (fun f => f.proposalId == x) := by
  have hle := delivery_le (noCopiesTo_carries hG (PaxosFrame.proposalTest i x)) hr
    proposalTest_sender
  rw [handled_proposalTest hr, sentOn_proposalTest hr ha hlt] at hle
  omega

theorem accepts_le (hG : ∀ w c, G w c → noCopiesTo i w c) (hr : Reachable C G w) :
    (w.traces i).handledAccepts.countP (PaxosFrame.isVote a x) ≤
      (w.traces a).acceptsSent.countP (PaxosFrame.isFor i x) := by
  have hle := delivery_le (noCopiesTo_carries hG (PaxosFrame.acceptTest a x)) hr acceptTest_sender
  rw [handled_acceptTest hr, sentOn_acceptTest hr] at hle
  omega

theorem decisions_le (hG : ∀ w c, G w c → noCopiesTo a w c) (hr : Reachable C G w) (ha : a ≠ i)
    (hlt : a < C.numNodes) :
    (w.traces a).handledDecisions.countP (PaxosFrame.isFor i x) ≤
      (w.traces i).decisions.countP (fun f => f.proposalId == x) := by
  have hle := delivery_le (noCopiesTo_carries hG (PaxosFrame.decisionTest i x)) hr
    decisionTest_sender
  rw [handled_decisionTest hr, sentOn_decisionTest hr ha hlt] at hle
  omega

theorem decisionAcks_le (hG : ∀ w c, G w c → noCopiesTo i w c) (hr : Reachable C G w)
    (hasync : C.async = true) :
    (w.traces i).handledDecisionAcks.countP (PaxosFrame.isFor a x) ≤
      (w.traces a).handledDecisions.countP (PaxosFrame.isFor i x) := by
  have hle := delivery_le (noCopiesTo_carries hG (PaxosFrame.ackTest a x)) hr ackTest_sender
  rw [handled_ackTest hr, sentOn_ackTest hr hasync] at hle
  omega

end NoCopies

/-! ## Without losses -/

section NoLoss

/-- No frame that passes the test travels to server `j`, and none waits for its handler there. -/
structure World.Clear (w : World) (j : ℕ) (test : PaxosFrame → Bool) : Prop where
  network : ∀ packet ∈ w.inTransit, packet.carries j test = false
  calls : (w.pending j Task.received?).countP test = 0

theorem delivered {j k : ℕ} {test : PaxosFrame → Bool} (hG : ∀ w c, G w c → noLossTo j w c)
    (hr : Reachable C G w) (hclear : w.Clear j test) (hsender : ∀ f, test f = true → f.sender = k) :
    (w.sentOn k j).countP test ≤ ((w.traces j).filterMap Record.handled?).countP test := by
  have hG' : ∀ w c, G w c →
      onTransit (fun _ p _ fate => p.carries j test = true → fate.isLoss = false) w c := by
    intro w c hg
    refine onTransit_mono ?_ (hG w c hg)
    intro _ p _ fate hrule hp
    exact hrule (isRequest_of_carries hp).1 (isRequest_of_carries hp).2
  have hge := delivery_ge hG' hr hsender
  -- Nothing travels and nothing waits, so the lower bound is about handled frames only.
  have hnet : w.inTransit.countP (Packet.carries j test) = 0 := by
    refine List.countP_eq_zero.2 ?_
    intro p hp hcarry
    rw [hclear.network p hp] at hcarry
    cases hcarry
  rw [hclear.calls, hnet] at hge
  omega

theorem proposals_ge (hG : ∀ w c, G w c → noLossTo a w c) (hr : Reachable C G w)
    (hclear : w.Clear a (PaxosFrame.proposalTest i x)) (ha : a ≠ i) (hlt : a < C.numNodes) :
    (w.traces i).proposed.countP (fun f => f.proposalId == x) ≤
      (w.traces a).handledProposals.countP (PaxosFrame.isFor i x) := by
  rw [← sentOn_proposalTest hr ha hlt, ← handled_proposalTest hr]
  exact delivered hG hr hclear proposalTest_sender

theorem accepts_ge (hG : ∀ w c, G w c → noLossTo i w c) (hr : Reachable C G w)
    (hclear : w.Clear i (PaxosFrame.acceptTest a x)) :
    (w.traces a).acceptsSent.countP (PaxosFrame.isFor i x) ≤
      (w.traces i).handledAccepts.countP (PaxosFrame.isVote a x) := by
  rw [← sentOn_acceptTest hr, ← handled_acceptTest hr]
  exact delivered hG hr hclear acceptTest_sender

theorem decisions_ge (hG : ∀ w c, G w c → noLossTo a w c) (hr : Reachable C G w)
    (hclear : w.Clear a (PaxosFrame.decisionTest i x)) (ha : a ≠ i) (hlt : a < C.numNodes) :
    (w.traces i).decisions.countP (fun f => f.proposalId == x) ≤
      (w.traces a).handledDecisions.countP (PaxosFrame.isFor i x) := by
  rw [← sentOn_decisionTest hr ha hlt, ← handled_decisionTest hr]
  exact delivered hG hr hclear decisionTest_sender

theorem decisionAcks_ge (hG : ∀ w c, G w c → noLossTo i w c) (hr : Reachable C G w)
    (hclear : w.Clear i (PaxosFrame.ackTest a x)) (hasync : C.async = true) :
    (w.traces a).handledDecisions.countP (PaxosFrame.isFor i x) ≤
      (w.traces i).handledDecisionAcks.countP (PaxosFrame.isFor a x) := by
  rw [← sentOn_ackTest hr hasync, ← handled_ackTest hr]
  exact delivered hG hr hclear ackTest_sender

end NoLoss

end SyncPaxos
