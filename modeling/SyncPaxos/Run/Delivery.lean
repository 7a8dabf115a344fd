import SyncPaxos.Run.Requests

/-!
# Delivery — what was handled was sent

The stages of a frame's way put together.  For a class of frames of one sender, what its receiver
has handled, what waits there and what travels is at most what the sender's record says, if the
network copies no frame of the class (`delivery_le`), and at least that if it loses none
(`delivery_ge`).

The rest of the module says which lines these are for each type of message, at the sender
(`sentOn_…`) and at the receiver (`handled_…`).
-/

namespace SyncPaxos

open DiscreteEvent Counting

/-- A packet with a Paxos frame for server `j` that passes the test. -/
def Packet.carries (j : ℕ) (test : PaxosFrame → Bool) (packet : Packet) : Bool :=
  (packet.paxosTo? j).any test

variable {C : Cluster} {G : World → Choice → Prop} {w : World} {i j k : ℕ}
  {test : PaxosFrame → Bool}

/-! ## Senders -/

theorem FrameAt.src_eq {h : ℕ → Trace} {a : ℕ} {f : PaxosFrame} {src : App}
    (hf : FrameAt C h a f src) : src = .server f.sender := by
  cases hf with
  | proposal hf =>
      have hno : f.isAccept = false := by rw [PaxosFrame.isAccept, hf.type]; rfl
      rw [PaxosFrame.sender, hno]
      rfl
  | accept hf =>
      have hyes : f.isAccept = true := by rw [PaxosFrame.isAccept, hf.type]; rfl
      rw [PaxosFrame.sender, hyes]
      rfl
  | decision hf =>
      have hno : f.isAccept = false := by rw [PaxosFrame.isAccept, hf.type]; rfl
      rw [PaxosFrame.sender, hno]
      rfl
  | decisionAck hf =>
      have hno : f.isAccept = false := by rw [PaxosFrame.isAccept, hf.type]; rfl
      rw [PaxosFrame.sender, hno]
      rfl

/-- A Paxos frame that was sent names its sender. -/
theorem sent_src (hr : Reachable C G w) {packet : Packet} (hp : packet ∈ w.sent) {f : PaxosFrame}
    (hf : packet.paxos? = some f) : packet.src = .server f.sender := by
  have hj := (sent_justified hr packet hp).2
  cases hpay : packet.payload with
  | request r =>
      simp [Packet.paxos?, hpay] at hf
  | paxos g =>
      obtain rfl : g = f := by simpa [Packet.paxos?, hpay] using hf
      rw [hpay] at hj
      exact FrameAt.src_eq hj

/-- The frames of one sender were sent on its channel. -/
theorem sent_countP_carries (hr : Reachable C G w)
    (hsender : ∀ f, test f = true → f.sender = k) (l : List Packet) (hl : l ⊆ w.sent) :
    l.countP (Packet.carries j test) = (l.filterMap (Packet.channel? k j)).countP test := by
  rw [countP_filterMap_any]
  refine List.countP_congr ?_
  intro packet hp
  have hmem := hl hp
  by_cases hsrc : packet.src = .server k
  · simp [Packet.carries, Packet.channel?, hsrc]
  · have hno : (packet.paxosTo? j).any test = false := by
      cases hf : packet.paxosTo? j with
      | none =>
          rfl
      | some f =>
          have hpaxos : packet.paxos? = some f := by
            unfold Packet.paxosTo? at hf
            split at hf
            · exact hf
            · cases hf
          -- A frame of the class from elsewhere would name `k` as its sender.
          refine Bool.eq_false_iff.2 ?_
          intro htest
          exact hsrc (hsender f htest ▸ sent_src hr hmem hpaxos)
    simp [Packet.carries, Packet.channel?, hsrc, hno]

/-! ## Delivery -/

theorem handled_countP (hr : Reachable C G w) (j : ℕ) (test : PaxosFrame → Bool) :
    ((w.traces j).filterMap Record.handled?).countP test +
        (w.pending j Task.received?).countP test =
      w.arrived.countP (Packet.carries j test) := by
  rw [← List.countP_append, receipts hr j, countP_filterMap_any]
  rfl

theorem delivery_le
    (hG : ∀ w c, G w c →
      onTransit (fun _ p _ fate => p.carries j test = true → fate.isCopy = false) w c)
    (hr : Reachable C G w) (hsender : ∀ f, test f = true → f.sender = k) :
    ((w.traces j).filterMap Record.handled?).countP test +
        (w.pending j Task.received?).countP test + w.inTransit.countP (Packet.carries j test) ≤
      (w.sentOn k j).countP test := by
  rw [handled_countP hr, World.sentOn, ← sent_countP_carries hr hsender w.sent (fun _ h => h)]
  exact transit_le hG hr

theorem delivery_ge
    (hG : ∀ w c, G w c →
      onTransit (fun _ p _ fate => p.carries j test = true → fate.isLoss = false) w c)
    (hr : Reachable C G w) (hsender : ∀ f, test f = true → f.sender = k) :
    (w.sentOn k j).countP test ≤
      ((w.traces j).filterMap Record.handled?).countP test +
        (w.pending j Task.received?).countP test +
        w.inTransit.countP (Packet.carries j test) := by
  rw [handled_countP hr, World.sentOn, ← sent_countP_carries hr hsender w.sent (fun _ h => h)]
  exact transit_ge hG hr

/-! ## The lines of each message type -/

/-- The type of the frames that go with a line. -/
def Record.kind : Record → ℕ
  | .proposed _ => PaxosFrame.PROPOSAL
  | .acceptSent _ => PaxosFrame.ACCEPT
  | .decision _ => PaxosFrame.DECISION
  | .handledDecision _ => PaxosFrame.DECISION_ACK
  | _ => 0

theorem kind_of_frameTo (hw : Sound C w) {r : Record} (hr : r ∈ w.traces i) {f : PaxosFrame}
    (hf : r.frameTo? C i j = some f) : f.messageType = r.kind := by
  cases r with
  | proposed g =>
      have htype := (hw.records i _ hr : g.messageType = PaxosFrame.PROPOSAL ∧ _).1
      simp only [Record.frameTo?] at hf
      split at hf
      · cases hf
        exact htype
      · cases hf
  | acceptSent g =>
      -- The record says how the frame was built, and with it the type it was given.
      rcases (hw.records i _ hr : ∃ g' ∈ (w.traces i).handledProposals, ∃ t, g = acceptFrame i t g')
        with ⟨g', -, t, rfl⟩
      simp only [Record.frameTo?] at hf
      split at hf
      · cases hf
        rfl
      · cases hf
  | decision g =>
      rcases (hw.records i _ hr :
          ∃ g' ∈ (w.traces i).handledAccepts, g'.proposerId = i ∧ ∃ t, g = decisionFrame t g')
        with ⟨g', -, -, t, rfl⟩
      simp only [Record.frameTo?] at hf
      split at hf
      · cases hf
        rfl
      · cases hf
  | handledDecision g =>
      simp only [Record.frameTo?] at hf
      split at hf
      · cases hf
        rfl
      · cases hf
  | _ =>
      cases hf

/-- The frames of one type on a channel. -/
theorem sentOn_kind (hr : Reachable C G w) (K : ℕ) :
    (w.sentOn i j).filter (fun f => f.messageType == K) =
      (w.traces i).filterMap (fun r => if r.kind = K then r.frameTo? C i j else none) := by
  rw [sent_channel hr, List.filter_filterMap]
  refine List.filterMap_congr ?_
  intro r hmem
  cases hf : r.frameTo? C i j with
  | none =>
      simp
  | some f =>
      have hkind := kind_of_frameTo (sound hr) hmem hf
      by_cases hK : r.kind = K <;> simp [Option.filter, hkind, hK]

/-- The PROPOSALs sent to another server are those on record. -/
theorem sentOn_proposals (hr : Reachable C G w) (hij : j ≠ i) (hj : j < C.numNodes) :
    (w.sentOn i j).filter PaxosFrame.isProposal = (w.traces i).proposed := by
  refine (sentOn_kind hr PaxosFrame.PROPOSAL).trans (List.filterMap_congr ?_)
  intro r _
  cases r <;> simp [Record.kind, PaxosFrame.PROPOSAL, PaxosFrame.ACCEPT, PaxosFrame.DECISION,
    PaxosFrame.DECISION_ACK, Record.frameTo?, hij, hj]

/-- The ACCEPTs sent to a proposer are those on record for it. -/
theorem sentOn_accepts (hr : Reachable C G w) :
    (w.sentOn i j).filter PaxosFrame.isAccept =
      (w.traces i).acceptsSent.filter (fun f => f.proposerId == j) := by
  rw [List.filter_filterMap]
  refine (sentOn_kind hr PaxosFrame.ACCEPT).trans (List.filterMap_congr ?_)
  intro r _
  cases r <;> simp [Record.kind, PaxosFrame.PROPOSAL, PaxosFrame.ACCEPT, PaxosFrame.DECISION,
    PaxosFrame.DECISION_ACK, Record.frameTo?, Option.filter]

/-- The DECISIONs sent to another server are those on record. -/
theorem sentOn_decisions (hr : Reachable C G w) (hij : j ≠ i) (hj : j < C.numNodes) :
    (w.sentOn i j).filter PaxosFrame.isDecision = (w.traces i).decisions := by
  refine (sentOn_kind hr PaxosFrame.DECISION).trans (List.filterMap_congr ?_)
  intro r _
  cases r <;> simp [Record.kind, PaxosFrame.PROPOSAL, PaxosFrame.ACCEPT, PaxosFrame.DECISION,
    PaxosFrame.DECISION_ACK, Record.frameTo?, hij, hj]

/-- In asynchronous mode a DECISION_ACK goes back for each DECISION handled. -/
theorem sentOn_decisionAcks (hr : Reachable C G w) (ha : C.async = true) :
    (w.sentOn i j).filter PaxosFrame.isDecisionAck =
      ((w.traces i).handledDecisions.filter (fun f => f.proposerId == j)).map
        (decisionAckFrame i) := by
  rw [List.filter_filterMap, List.map_filterMap]
  refine (sentOn_kind hr PaxosFrame.DECISION_ACK).trans (List.filterMap_congr ?_)
  intro r _
  cases r <;> simp [Record.kind, PaxosFrame.PROPOSAL, PaxosFrame.ACCEPT, PaxosFrame.DECISION,
    PaxosFrame.DECISION_ACK, Record.frameTo?, Option.filter, ha]

/-- The type of the frame that a line says was handled. -/
def Record.handledKind : Record → ℕ
  | .handledProposal _ => PaxosFrame.PROPOSAL
  | .handledAccept _ => PaxosFrame.ACCEPT
  | .handledDecision _ => PaxosFrame.DECISION
  | .handledDecisionAck _ => PaxosFrame.DECISION_ACK
  | _ => 0

theorem kind_of_handled (hw : Sound C w) {r : Record} (hr : r ∈ w.traces i) {f : PaxosFrame}
    (hf : r.handled? = some f) : f.messageType = r.handledKind := by
  cases r <;> cases hf
  · exact (hw.records i _ hr : ProposalAt C w.traces i f).type
  · exact (hw.records i _ hr : AcceptAt w.traces i f).type
  · exact (hw.records i _ hr : DecisionAt C w.traces i f).type
  · exact (hw.records i _ hr : DecisionAckAt w.traces i f).type

/-- The handled frames of one type. -/
theorem handled_kind (hr : Reachable C G w) (i K : ℕ) :
    ((w.traces i).filterMap Record.handled?).filter (fun f => f.messageType == K) =
      (w.traces i).filterMap (fun r => if r.handledKind = K then r.handled? else none) := by
  rw [List.filter_filterMap]
  refine List.filterMap_congr ?_
  intro r hmem
  cases hf : r.handled? with
  | none =>
      simp
  | some f =>
      have hkind := kind_of_handled (sound hr) hmem hf
      by_cases hK : r.handledKind = K <;> simp [Option.filter, hkind, hK]

theorem handled_proposals (hr : Reachable C G w) (i : ℕ) :
    ((w.traces i).filterMap Record.handled?).filter PaxosFrame.isProposal =
      (w.traces i).handledProposals := by
  refine (handled_kind hr i PaxosFrame.PROPOSAL).trans (List.filterMap_congr ?_)
  intro r _
  cases r <;> simp [Record.handledKind, PaxosFrame.PROPOSAL, PaxosFrame.ACCEPT,
    PaxosFrame.DECISION, PaxosFrame.DECISION_ACK]

theorem handled_accepts (hr : Reachable C G w) (i : ℕ) :
    ((w.traces i).filterMap Record.handled?).filter PaxosFrame.isAccept =
      (w.traces i).handledAccepts := by
  refine (handled_kind hr i PaxosFrame.ACCEPT).trans (List.filterMap_congr ?_)
  intro r _
  cases r <;> simp [Record.handledKind, PaxosFrame.PROPOSAL, PaxosFrame.ACCEPT,
    PaxosFrame.DECISION, PaxosFrame.DECISION_ACK]

theorem handled_decisions (hr : Reachable C G w) (i : ℕ) :
    ((w.traces i).filterMap Record.handled?).filter PaxosFrame.isDecision =
      (w.traces i).handledDecisions := by
  refine (handled_kind hr i PaxosFrame.DECISION).trans (List.filterMap_congr ?_)
  intro r _
  cases r <;> simp [Record.handledKind, PaxosFrame.PROPOSAL, PaxosFrame.ACCEPT,
    PaxosFrame.DECISION, PaxosFrame.DECISION_ACK]

theorem handled_decisionAcks (hr : Reachable C G w) (i : ℕ) :
    ((w.traces i).filterMap Record.handled?).filter PaxosFrame.isDecisionAck =
      (w.traces i).handledDecisionAcks := by
  refine (handled_kind hr i PaxosFrame.DECISION_ACK).trans (List.filterMap_congr ?_)
  intro r _
  cases r <;> simp [Record.handledKind, PaxosFrame.PROPOSAL, PaxosFrame.ACCEPT,
    PaxosFrame.DECISION, PaxosFrame.DECISION_ACK]

end SyncPaxos
