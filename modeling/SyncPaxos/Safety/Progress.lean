import SyncPaxos.Safety.Discipline
import SyncPaxos.Safety.Voting

/-!
# Progress — votes that are counted and votes that are under way

The leader takes up its loop again when a majority of DECISION_ACKs is in.  Nothing else takes it
up: the timer on a proposal is commented out in the source, so a frame that is lost is never sent
again.

A proposal goes through two rounds of votes, of ACCEPTs and of DECISION_ACKs.  In each round every
other server has one vote, which is first the frame to that server, then its handler, the answer,
and the answer's handler.  `World.support` adds the votes counted and those under way.  A step that
loses no frame keeps it, and a round starts with the support of all; so as long as every loss leaves
more than half, the leader is not stuck.
-/

namespace SyncPaxos

open DiscreteEvent Transition

/-! ## Rounds -/

/-- A round of votes on a proposal: its id, and whether the votes are ACCEPTs. -/
abbrev Round := ℕ × Bool

def PaxosFrame.round (f : PaxosFrame) : Round := (f.proposalId, f.isProposal || f.isAccept)

/-- The round that an entry of `m_proposals` is in. -/
def Proposal.round (p : Proposal) : Round := (p.proposalId, decide (p.decisionTime = 0))

/-- The votes counted in the round that an entry is in. -/
def Proposal.votes (p : Proposal) : ℕ := if p.decisionTime = 0 then p.numAck else p.numDecisionAck

/-- The round that a call belongs to. -/
def Task.round? : Task → Option Round
  | .doReceivedProposalMessage f => some (f.proposalId, true)
  | .sendAcceptMessage f => some (f.proposalId, true)
  | .doReceivedAcceptMessage f => some (f.proposalId, true)
  | .doReceivedDecisionMessage f => some (f.proposalId, false)
  | .doReceivedDecisionAckMessage f => some (f.proposalId, false)
  | _ => none

/-- The round that a call counts a vote in. -/
def Task.counts? : Task → Option Round
  | .doReceivedAcceptMessage f => some (f.proposalId, true)
  | .doReceivedDecisionAckMessage f => some (f.proposalId, false)
  | _ => none

theorem Task.round_of_counts {task : Task} {ρ : Round} (h : task.counts? = some ρ) :
    task.round? = some ρ := by
  cases task <;> first | exact h | cases h

/-- The round that a line opens, with a broadcast. -/
def Record.opens? : Record → Option Round
  | .proposed f => some f.round
  | .decision f => some f.round
  | _ => none

/-- The round that a line answers in, with a frame to the proposer. -/
def Record.answers? : Record → Option Round
  | .acceptSent f => some f.round
  | .handledDecision f => some (f.proposalId, false)
  | _ => none

def Packet.inRound (ρ : Round) (packet : Packet) : Bool :=
  packet.paxos?.any (fun f => f.round = ρ)

theorem isRequest_of_inRound {ρ : Round} {packet : Packet} (h : packet.inRound ρ = true) :
    packet.isRequest = false := by
  rcases packet with ⟨src, dst, payload, sentAt⟩
  cases payload with
  | request r =>
      cases h
  | paxos f =>
      rfl

/-- An event that takes the round on: a frame in the network, a handler, or an ACCEPT to be sent. -/
def Callback.advances (ρ : Round) : Callback → Bool
  | .server _ task => task.round? = some ρ
  | .transit packet _ => packet.inRound ρ
  | _ => false

/-- The votes of a round that are under way. -/
def underWay (ρ : Round) (es : List Event) : ℕ := es.countP (fun e => e.action.advances ρ)

/-- The votes for a proposal that are counted or under way. -/
def World.support (w : World) (p : Proposal) : ℕ := p.votes + underWay p.round w.events

/-- Paxos frames may be delayed, reordered and lost, but not duplicated, and the votes for a proposal
of the leader, counted and under way, stay a majority when a frame of its round is lost. -/
def majorityLeft (C : Cluster) : World → Choice → Prop :=
  onTransit fun w packet _ fate =>
    (packet.isRequest = false → fate.isCopy = false) ∧
      (fate.isLoss = true → ∀ p ∈ (w.servers Cluster.leader).outstanding,
        packet.inRound p.round = true → C.numNodes / 2 + 1 < w.support p)

instance (C : Cluster) (w : World) (c : Choice) : Decidable (majorityLeft C w c) :=
  inferInstanceAs (Decidable (onTransit _ w c))

/-- The part of `majorityLeft` that is about losses. -/
def lossLeavesMajority (C : Cluster) : World → Choice → Prop :=
  onTransit fun w packet _ fate =>
    fate.isLoss = true → ∀ p ∈ (w.servers Cluster.leader).outstanding,
      packet.inRound p.round = true → C.numNodes / 2 + 1 < w.support p

/-! ## What an event puts under way -/

section Flow

variable {C : Cluster} {G : World → Choice → Prop} {w w' : World} {c : Choice} {i : ℕ} {now : Time}
  {task : Task} {s : Server} {rest : List Event} {ρ : Round}

theorem underWay_append (es es' : List Event) :
    underWay ρ (es ++ es') = underWay ρ es + underWay ρ es' :=
  List.countP_append

theorem underWay_eq_zero {es : List Event} (h : ∀ e ∈ es, e.action.advances ρ = false) :
    underWay ρ es = 0 := by
  refine List.countP_eq_zero.2 ?_
  intro e he
  simp [h e he]

theorem advances_sendTo (f : PaxosFrame) (dst : ℕ) :
    (sendTo i now f dst).action.advances ρ = decide (f.round = ρ) := rfl

/-- A broadcast goes to every server but its sender. -/
theorem underWay_broadcast (hi : i < C.numNodes) (f : PaxosFrame) :
    underWay ρ (broadcast C i now f) = if f.round = ρ then C.numNodes - 1 else 0 := by
  have hlen : (broadcast C i now f).length = C.numNodes - 1 := by
    have hmem : i ∈ List.range C.numNodes := List.mem_range.2 hi
    have herase := List.length_erase_of_mem hmem
    rw [List.Nodup.erase_eq_filter List.nodup_range i, List.length_range] at herase
    rw [broadcast, List.length_map, Cluster.nodes, ← herase]
    exact congrArg List.length (List.filter_congr (fun a _ => by simp [bne, beq_eq_decide]))
  by_cases hf : f.round = ρ
  · rw [if_pos hf, ← hlen]
    refine List.countP_eq_length.2 ?_
    intro e he
    rcases mem_broadcast.1 he with ⟨a, -, -, rfl⟩
    simp [advances_sendTo, hf]
  · rw [if_neg hf]
    refine underWay_eq_zero ?_
    intro e he
    rcases mem_broadcast.1 he with ⟨a, -, -, rfl⟩
    simp [advances_sendTo, hf]

/-- A line that opens a round puts a vote of every other server under way, one that answers puts its
own. -/
theorem underWay_sendsOf (ha : C.async = true) (hi : i < C.numNodes) (r : Record) :
    underWay ρ (sendsOf C i now r) =
      (if r.opens? = some ρ then C.numNodes - 1 else 0) +
        if r.answers? = some ρ then 1 else 0 := by
  cases r with
  | proposed f =>
      simp [sendsOf, underWay_broadcast hi, Record.opens?, Record.answers?]
  | decision f =>
      simp [sendsOf, underWay_broadcast hi, Record.opens?, Record.answers?]
  | acceptSent f =>
      simp [sendsOf, underWay, List.countP_cons, advances_sendTo, Record.opens?, Record.answers?]
  | handledDecision f =>
      have hround : (decisionAckFrame i f).round = (f.proposalId, false) := rfl
      simp [sendsOf, ha, underWay, List.countP_cons, advances_sendTo, hround, Record.opens?,
        Record.answers?]
  | _ =>
      rfl

theorem underWay_flatMap (ha : C.async = true) (hi : i < C.numNodes) (l : Trace) :
    underWay ρ (l.flatMap (sendsOf C i now)) =
      l.countP (fun r => r.opens? = some ρ) * (C.numNodes - 1) +
        l.countP (fun r => r.answers? = some ρ) := by
  induction l with
  | nil =>
      simp [underWay]
  | cons r l ih =>
      rw [List.flatMap_cons, underWay_append, ih, underWay_sendsOf ha hi, List.countP_cons,
        List.countP_cons]
      by_cases ho : r.opens? = some ρ <;> by_cases hv : r.answers? = some ρ <;>
        simp [ho, hv, Nat.succ_mul] <;> omega

/-- A call that counts no vote hands its vote on, to its answer or to a later call. -/
theorem answers_add_newTasks :
    (Server.newRecords C i now task s).countP (fun r => r.answers? = some ρ) +
        underWay ρ (Server.newTasks C i now task s) =
      if task.round? = some ρ ∧ task.counts? = none then 1 else 0 := by
  have hlines : (Server.newRecords C i now task s).countP (fun r => r.answers? = some ρ) =
      (((task.line? i now).bind Record.answers?).toList).countP (fun ρ' => ρ' = ρ) := by
    rw [← newRecords_filterMap (s := s) (C := C) (p := Record.answers?), List.countP_filterMap]
    · refine List.countP_congr ?_
      intro r _
      cases r.answers? <;> simp
    · intro r hr
      cases r <;> first | rfl | exact absurd trivial hr
  have hquiet : (∀ f, task ≠ .doReceivedProposalMessage f) →
      underWay ρ (Server.newTasks C i now task s) = 0 := by
    intro hne
    refine underWay_eq_zero ?_
    intro e he
    cases Server.schedules_of_mem_newTasks C i now he with
    | boot h =>
        rcases h with rfl | rfl | rfl <;> rfl
    | answer =>
        exact absurd rfl (hne _)
    | _ =>
        rfl
  rw [hlines]
  cases task with
  | doReceivedProposalMessage f =>
      -- The answer is a call of its own, ten nanoseconds later.
      simp [Server.newTasks, underWay, List.countP_cons, Callback.advances, Task.line?,
        Record.answers?, Task.round?, Task.counts?]
  | sendAcceptMessage f =>
      have hround : (acceptFrame i now f).round = (f.proposalId, true) := rfl
      rw [hquiet (by simp)]
      simp [Task.line?, Record.answers?, hround, List.countP_cons, Task.round?, Task.counts?]
  | _ =>
      rw [hquiet (by simp)]
      simp [Task.line?, Record.answers?, List.countP_cons, Task.round?, Task.counts?]

theorem underWay_run (ha : C.async = true) (hi : i < C.numNodes) :
    underWay ρ (Server.run C i now task s).events =
      (Server.newRecords C i now task s).countP (fun r => r.opens? = some ρ) * (C.numNodes - 1) +
        if task.round? = some ρ ∧ task.counts? = none then 1 else 0 := by
  rw [Server.run_events, underWay_append, underWay_flatMap ha hi, Nat.add_assoc,
    answers_add_newTasks]

/-- The handler that `ReceiveMessage` schedules is in the round of the frame. -/
theorem round_of_receiveMessage {f : PaxosFrame} {e : Event}
    (h : Server.receiveMessage i now f = some e) (ρ : Round) :
    e.action.advances ρ = decide (f.round = ρ) := by
  have hround : ∃ task, e.action = .server i task ∧ task.round? = some f.round := by
    -- The branches of `ReceiveMessage`; the last one is the fatal error.
    unfold Server.receiveMessage at h
    split at h
    · rename_i hp
      cases h
      exact ⟨_, rfl, by simp [Task.round?, PaxosFrame.round, hp]⟩
    · split at h
      · rename_i hq
        cases h
        exact ⟨_, rfl, by simp [Task.round?, PaxosFrame.round, hq]⟩
      · rename_i hp hq
        have hfalse : f.round = (f.proposalId, false) := by simp [PaxosFrame.round, hp, hq]
        split at h
        · cases h
          exact ⟨_, rfl, by simp [Task.round?, hfalse]⟩
        · split at h
          · cases h
            exact ⟨_, rfl, by simp [Task.round?, hfalse]⟩
          · cases h
  rcases hround with ⟨task, haction, htask⟩
  simp [haction, Callback.advances, htask]

/-- A frame that arrives leaves its vote to the handler. -/
theorem underWay_arrivalEvents (hr : Reachable C G w) {packet : Packet} {hop : ℕ}
    (hj : Justified C w.traces w.sent (.transit packet hop)) :
    underWay ρ (arrivalEvents C w now packet) = if packet.inRound ρ then 1 else 0 := by
  rcases packet with ⟨src, dst, payload, sentAt⟩
  cases payload with
  | request r =>
      refine underWay_eq_zero ?_
      intro e he
      rcases mem_arrivalEvents he with ⟨r', -, -, -, rfl⟩ | ⟨f, task, hpayload, -⟩
      · rfl
      · cases hpayload
  | paxos f =>
      have hat : FrameAt C w.traces dst f src := hj.2
      rcases receiveMessage_of_frameAt hat now with ⟨task, hrecv, -⟩
      have hround := round_of_receiveMessage hrecv ρ
      simp only [arrivalEvents, recvSocket_of_frameAt hr hat, if_true, hrecv, Option.toList_some]
      simp [underWay, List.countP_cons, hround, Packet.inRound, Packet.paxos?]

/-- The votes under way before and after a step. -/
theorem StepSpec.underWay_eq {e : Event} (hs : StepSpec C c w w' e rest) (ρ : Round) :
    underWay ρ w'.events + (if e.action.advances ρ then 1 else 0) =
      underWay ρ w.events + underWay ρ (emitted C c w e) := by
  have hpop : underWay ρ w.events = underWay ρ rest + if e.action.advances ρ then 1 else 0 :=
    pop_countP _ hs.pop
  rw [hs.events, underWay_append, hpop]
  omega

/-- A call takes the vote that it counts off the way, and puts those of the rounds that it opens on. -/
theorem StepSpec.underWay_server (ha : C.async = true) (hi : i < C.numNodes)
    (hs : StepSpec C c w w' ⟨now, .server i task⟩ rest) (ρ : Round) :
    underWay ρ w'.events + (if task.counts? = some ρ then 1 else 0) =
        underWay ρ w.events +
          (newLines C w ⟨now, .server i task⟩ i).countP (fun r => r.opens? = some ρ) *
            (C.numNodes - 1) ∧
      (newLines C w ⟨now, .server i task⟩ i).countP (fun r => r.opens? = some ρ) *
          (C.numNodes - 1) ≤ underWay ρ w'.events := by
  have hrun : underWay ρ (emitted C c w ⟨now, .server i task⟩) =
      (Server.newRecords C i now task (w.servers i)).countP (fun r => r.opens? = some ρ) *
          (C.numNodes - 1) +
        if task.round? = some ρ ∧ task.counts? = none then 1 else 0 :=
    underWay_run ha hi
  have hlines : newLines C w ⟨now, .server i task⟩ i =
      Server.newRecords C i now task (w.servers i) := if_pos rfl
  have hself : (Callback.server i task).advances ρ = decide (task.round? = some ρ) := rfl
  have hflow := hs.underWay_eq ρ
  rw [hrun, hself] at hflow
  rw [hlines]
  constructor
  · cases hcounts : task.counts? with
    | none =>
        simp only [hcounts, and_true, decide_eq_true_eq, reduceCtorEq, if_false] at hflow ⊢
        omega
    | some ρ' =>
        simp only [Task.round_of_counts hcounts, hcounts, reduceCtorEq, and_false, if_false,
          decide_eq_true_eq] at hflow ⊢
        omega
  · rw [hs.events, underWay_append, hrun]
    omega

end Flow

/-! ## What a call does to the entries of the leader -/

section Entry

variable {C : Cluster} {i : ℕ} {now : Time} {task : Task} {s : Server} {y : ℕ} {q : Proposal}

/-- Where an entry after a call comes from: it was there, and the call may have counted a vote for
it, or the call has opened its round. -/
inductive EntryOf (C : Cluster) (i : ℕ) (now : Time) (task : Task) (s : Server) (y : ℕ)
    (q : Proposal) : Prop
  | kept (p : Proposal) : s.proposals.lookup y = some p → q.round = p.round →
      q.votes = p.votes + (if task.counts? = some p.round then 1 else 0) →
      EntryOf C i now task s y q
  | opened (r : Record) : r ∈ Server.newRecords C i now task s → r.opens? = some q.round →
      q.votes = 1 → EntryOf C i now task s y q

theorem doAsyncPropose_entry (hled : Ledger i s)
    (hl : (s.doAsyncPropose C i now).server.proposals.lookup y = some q) :
    s.proposals.lookup y = some q ∨
      ∃ r ∈ s.asyncProposeRecords C i now, r.opens? = some q.round ∧ q.votes = 1 := by
  rcases s.doAsyncPropose_cases C i now with ⟨-, heq⟩ | ⟨-, -, heq⟩ | ⟨hnow, p, ps, hw, heq⟩
  · rw [heq] at hl
    exact .inl hl
  · rw [heq] at hl
    exact .inl hl
  · rw [heq] at hl
    -- The front of the queue becomes an entry, and the other entries stay.
    by_cases hy : y = p.proposalId
    · subst hy
      have hzero : p.decisionTime = 0 := (hled.waiting p (by simp [hw])).1
      obtain rfl : p.propose i now = q := by
        simpa [Server.record, Server.putProposal] using hl
      refine .inr ⟨.proposed (proposalFrame i now p), ?_, ?_, ?_⟩
      · simp [Server.asyncProposeRecords, Server.proposeRecords, hw, not_le.2 hnow]
      · simp [Record.opens?, Proposal.round, Proposal.propose, hzero]
        rfl
      · simp [Proposal.votes, Proposal.propose, hzero]
    · refine .inl ?_
      simpa [Server.record, Server.putProposal, AList.lookup_insert_ne hy] using hl

/-- The vote of an ACCEPT is counted, unless the votes have been settled before. -/
theorem votes_incrementNumAck {p : Proposal} (hp : Waits C p) :
    p.incrementNumAck.votes = p.votes + if p.decisionTime = 0 then 1 else 0 := by
  by_cases hz : p.decisionTime = 0
  · have hle := hp.votes hz
    have hlt : p.numAck + 1 < 2 ^ 32 := by
      have hn := C.numNodes_lt
      omega
    simp only [Proposal.votes, Proposal.incrementNumAck, hz, if_true, Nat.mod_eq_of_lt hlt]
  · simp [Proposal.votes, Proposal.incrementNumAck, hz]

theorem votes_incrementNumDecisionAck {p : Proposal} (hp : Waits C p) :
    p.incrementNumDecisionAck.votes = p.votes + if p.decisionTime = 0 then 0 else 1 := by
  by_cases hz : p.decisionTime = 0
  · simp [Proposal.votes, Proposal.incrementNumDecisionAck, hz]
  · have hle := hp.acks hz
    have hlt : p.numDecisionAck + 1 < 2 ^ 32 := by
      have hn := C.numNodes_lt
      omega
    simp only [Proposal.votes, Proposal.incrementNumDecisionAck, hz, if_false,
      Nat.mod_eq_of_lt hlt]

/-- A call that counts no vote leaves the entry as it is. -/
theorem EntryOf.same (hnone : task.counts? = none) (hq : s.proposals.lookup y = some q) :
    EntryOf C i now task s y q :=
  .kept q hq rfl (by simp [hnone])

/-- So does a vote for another id, for an entry is kept under its own id. -/
theorem EntryOf.other (hled : Ledger i s) {x : ℕ} {b : Bool} (hy : y ≠ x)
    (hcounts : task.counts? = some (x, b)) (hq : s.proposals.lookup y = some q) :
    EntryOf C i now task s y q := by
  have hid : q.proposalId = y := (hled.outstanding _ _ hq).id
  refine .kept q hq rfl ?_
  have hne : ¬ (x = q.proposalId ∧ b = decide (q.decisionTime = 0)) := by
    rintro ⟨rfl, -⟩
    exact hy hid.symm
  simp [hcounts, Proposal.round, hne]

theorem doReceivedAcceptMessage_entry (ha : C.async = true) (hled : Ledger i s)
    (hwaits : ∀ y p, s.proposals.lookup y = some p → Waits C p)
    (hpos : ∀ y p, s.proposals.lookup y = some p → 0 < now) {f : PaxosFrame}
    (hown : f.proposerId = i)
    (hl : (Server.run C i now (.doReceivedAcceptMessage f) s).server.proposals.lookup y = some q) :
    EntryOf C i now (.doReceivedAcceptMessage f) s y q := by
  rcases s.doReceivedAcceptMessage_cases C i now f with ⟨hno, heq⟩ | ⟨found, -, hf, hcases⟩
  · simp only [Server.run, heq] at hl
    refine EntryOf.other hled ?_ rfl hl
    rintro rfl
    rcases hno with hno | hno
    · exact hno hown
    · cases hl.symm.trans hno
  · have hid : found.proposalId = f.proposalId := (hled.outstanding _ _ hf).id
    by_cases hy : y = f.proposalId
    · subst hy
      rcases hcases with ⟨-, heq⟩ | ⟨hmaj, hz, -, heq⟩ | ⟨-, -, hsync, -⟩
      · simp only [Server.run, heq] at hl
        -- The vote is counted, and it is not the one that completes a majority.
        obtain rfl : found.incrementNumAck = q := by simpa [Server.putProposal] using hl
        refine .kept found hf rfl ?_
        rw [votes_incrementNumAck (hwaits _ _ hf)]
        simp [Task.counts?, Proposal.round, hid]
      · simp only [Server.run, heq] at hl
        -- The majority is in, and the entry goes on to the round of the DECISION_ACKs.
        have hnow : now ≠ 0 := (hpos _ _ hf).ne'
        obtain rfl : { found.incrementNumAck with decisionTime := now, numDecisionAck := 1 } =
            q := by
          simpa [Server.putProposal] using hl
        refine .opened (.decision (decisionFrame now f)) ?_ ?_ ?_
        · simp [Server.newRecords, Server.decidesOn_majority hown hf hmaj hz]
        · have hround : (decisionFrame now f).round = (f.proposalId, false) := rfl
          simp [Record.opens?, hround, Proposal.round, Proposal.incrementNumAck, hid, hnow]
        · simp [Proposal.votes, hnow]
      · cases hsync.symm.trans ha
    · refine EntryOf.other hled hy rfl ?_
      rcases hcases with ⟨-, heq⟩ | ⟨-, -, -, heq⟩ | ⟨-, -, hsync, -⟩
      · simp only [Server.run, heq] at hl
        exact (AList.lookup_insert_ne hy).symm.trans hl
      · simp only [Server.run, heq] at hl
        exact (AList.lookup_insert_ne hy).symm.trans hl
      · cases hsync.symm.trans ha

theorem doReceivedDecisionAckMessage_entry (ha : C.async = true) (hled : Ledger i s)
    (hwaits : ∀ y p, s.proposals.lookup y = some p → Waits C p) {f : PaxosFrame}
    (hl : (Server.run C i now (.doReceivedDecisionAckMessage f) s).server.proposals.lookup y =
      some q) :
    EntryOf C i now (.doReceivedDecisionAckMessage f) s y q := by
  rcases s.doReceivedDecisionAckMessage_cases C i now f with
    ⟨hno, heq⟩ | ⟨found, -, hf, hcases⟩
  · simp only [Server.run, heq] at hl
    refine EntryOf.other hled ?_ rfl hl
    rintro rfl
    rcases hno with hno | hno
    · cases hno.symm.trans ha
    · cases hl.symm.trans hno
  · have hid : found.proposalId = f.proposalId := (hled.outstanding _ _ hf).id
    rcases hcases with ⟨-, heq⟩ | ⟨hmaj, hz, heq⟩
    · simp only [Server.run, heq] at hl
      by_cases hy : y = f.proposalId
      · subst hy
        obtain rfl : found.incrementNumDecisionAck = q := by
          simpa [Server.putProposal] using hl
        refine .kept found hf rfl ?_
        rw [votes_incrementNumDecisionAck (hwaits _ _ hf)]
        by_cases hzero : found.decisionTime = 0 <;>
          simp [Task.counts?, Proposal.round, hid, hzero]
      · exact EntryOf.other hled hy rfl ((AList.lookup_insert_ne hy).symm.trans hl)
    · -- The entry is taken out, and the leader goes on to its next request.
      have hconfirm : Server.Change C i now (.doReceivedDecisionAckMessage f) s _ :=
        .confirm ha hf ⟨hmaj, hz⟩
      have hled' := hled.change hconfirm
      simp only [Server.run, heq] at hl
      rcases doAsyncPropose_entry hled' hl with hq | ⟨r, hr, hopens, hvotes⟩
      · have hy : y ≠ f.proposalId := by
          rintro rfl
          simp [Server.eraseProposal] at hq
        exact EntryOf.other hled hy rfl ((AList.lookup_erase_ne hy).symm.trans hq)
      · refine .opened r ?_ hopens hvotes
        have hsome : s.acksOn C now f = some (found.confirm now) :=
          Server.acksOn_majority ha hf hmaj hz
        simp only [Server.newRecords, hsome]
        exact List.mem_cons_of_mem _ (List.mem_cons_of_mem _ hr)

theorem run_entry (ha : C.async = true) (hled : Ledger i s)
    (hwaits : ∀ y p, s.proposals.lookup y = some p → Waits C p)
    (hpos : ∀ y p, s.proposals.lookup y = some p → 0 < now) (hmode : task ≠ .doSyncPropose)
    (hown : ∀ f, task = .doReceivedAcceptMessage f → f.proposerId = i)
    (hl : (Server.run C i now task s).server.proposals.lookup y = some q) :
    EntryOf C i now task s y q := by
  cases task with
  | doSyncPropose =>
      exact absurd rfl hmode
  | startProposerThread =>
      rcases Server.startProposerThread_cases C i now s with
        ⟨-, hlead, heq⟩ | ⟨-, -, heq⟩ | ⟨-, heq⟩
      · have hled' : Ledger i
            ({ s.record .proposerStarted with leaderState := some .waitingRequest } : Server) := by
          have hflags : Server.Change C i now .startProposerThread (s.record .proposerStarted) _ :=
            .flags s.proposePeriod s.recvSocket s.listenerSocket (some .waitingRequest)
          exact (hled.record rfl rfl rfl).change hflags
        simp only [Server.run, heq] at hl
        rcases doAsyncPropose_entry hled' hl with hq | ⟨r, hr, hopens, hvotes⟩
        · exact EntryOf.same rfl hq
        · refine .opened r ?_ hopens hvotes
          simp only [Server.newRecords, ha, hlead, and_self, if_true]
          rw [← hlead]
          exact List.mem_cons_of_mem _ hr
      · simp only [Server.run, heq] at hl
        exact EntryOf.same rfl hl
      · simp only [Server.run, heq] at hl
        exact EntryOf.same rfl hl
  | doAsyncPropose =>
      rcases doAsyncPropose_entry hled hl with hq | ⟨r, hr, hopens, hvotes⟩
      · exact EntryOf.same rfl hq
      · exact .opened r hr hopens hvotes
  | doReceivedAcceptMessage f =>
      exact doReceivedAcceptMessage_entry ha hled hwaits hpos (hown f rfl) hl
  | doReceivedDecisionAckMessage f =>
      exact doReceivedDecisionAckMessage_entry ha hled hwaits hl
  | createProposalFromRequest r =>
      refine EntryOf.same rfl ?_
      simp only [Server.run, Server.createProposalFromRequest] at hl
      split at hl <;> exact hl
  | _ =>
      exact EntryOf.same rfl hl

end Entry

/-! ## Runs -/

section Runs

variable {C : Cluster} {G : World → Choice → Prop} {w w' : World} {c : Choice} {i : ℕ} {task : Task}
  {ρ : Round}

/-- Votes are for the leader. -/
theorem eq_leader_of_counts (ha : C.async = true) (hr : Reachable C G w)
    (hj : Justified C w.traces w.sent (.server i task)) (h : task.counts? = some ρ) :
    i = Cluster.leader := by
  cases task with
  | doReceivedAcceptMessage f =>
      rcases (sound hr).acceptAt_origin hj with ⟨-, -, -, g, hg, -⟩
      exact eq_leader_of_proposed hr ha hg
  | doReceivedDecisionAckMessage f =>
      rcases hj.from_ with ⟨d, hd, -, rfl⟩
      have hdec := ((sound hr).handledDecision hd).mem
      rcases (sound hr).decision_origin hdec with ⟨-, -, g, hg, -⟩
      exact eq_leader_of_proposed hr ha hg
  | _ =>
      cases h

/-- Every entry of the leader has the support of a majority. -/
def Supported (C : Cluster) (w : World) : Prop :=
  ∀ y p, (w.servers Cluster.leader).proposals.lookup y = some p → C.numNodes / 2 < w.support p

/-- The network takes no support away but by a loss, which leaves a majority. -/
theorem Supported.transit (hG : lossLeavesMajority C w c) (hr : Reachable C G w) (hw : Supported C w)
    {packet : Packet} {hop : ℕ} {now : Time} {rest : List Event}
    (hs : StepSpec C c w w' ⟨now, .transit packet hop⟩ rest) : Supported C w' := by
  intro y p hl
  have hentry : (w.servers Cluster.leader).proposals.lookup y = some p := by
    simpa [hs.servers, serversAfter] using hl
  have hold := hw y p hentry
  have hflow := hs.underWay_eq p.round
  have hrule := onTransit_of_pop hs.pop hG
  have hself : (Callback.transit packet hop).advances p.round = packet.inRound p.round := rfl
  rw [World.support] at hold ⊢
  -- A packet of the round carries a vote, any other packet carries none.
  by_cases hin : packet.inRound p.round = true
  · rw [hself, hin, if_pos rfl] at hflow
    cases hfate : c.fate with
    | arrive =>
        have harr : underWay p.round (arrivalEvents C w now packet) = 1 := by
          rw [underWay_arrivalEvents hr ((sound hr).events _ (mem_of_pop hs.pop)), hin, if_pos rfl]
        simp only [emitted, hfate, harr] at hflow
        omega
    | forward d =>
        have hone : underWay p.round [⟨now + d, .transit packet (hop + 1)⟩] = 1 := by
          simp [underWay, Callback.advances, hin]
        simp only [emitted, hfate, hone] at hflow
        omega
    | duplicate d₁ d₂ =>
        have htwo : underWay p.round [⟨now + d₁, .transit packet (hop + 1)⟩,
            ⟨now + d₂, .transit packet (hop + 1)⟩] = 2 := by
          simp [underWay, Callback.advances, hin]
        simp only [emitted, hfate, htwo] at hflow
        omega
    | lose =>
        have hmem : p ∈ (w.servers Cluster.leader).outstanding := AList.mem_values.2 ⟨y, hentry⟩
        have hleft := hrule (by rw [hfate]; rfl) p hmem hin
        have hnone : underWay p.round ([] : List Event) = 0 := rfl
        simp only [emitted, hfate, hnone] at hflow
        rw [World.support] at hleft
        omega
  · rw [hself, if_neg hin] at hflow
    omega

/-- A call keeps the support of an entry, and gives a round that it opens the support of all. -/
theorem Supported.run (ha : C.async = true) (hn : 2 ≤ C.numNodes) (hr : Reachable C G w)
    (hg : G w c) (hstep : World.step C c w = some w') (hw : Supported C w) {now : Time}
    {rest : List Event} (hs : StepSpec C c w w' ⟨now, .server i task⟩ rest) : Supported C w' := by
  intro y q hl
  have hturn : Turn C G (fun _ => True) w c w' i now task := ⟨hr, hg, hstep, ⟨rest, hs⟩, trivial⟩
  rcases hs.underWay_server ha hturn.lt q.round with ⟨hflow, hopened⟩
  rw [World.support]
  by_cases hi : i = Cluster.leader
  · subst hi
    have hserver : w'.servers Cluster.leader =
        (Server.run C Cluster.leader now task (w.servers Cluster.leader)).server := by
      simp [hs.servers, serversAfter]
    rw [hserver] at hl
    -- A decision time of zero means none, so the leader must not decide at time zero.
    have hpos : ∀ y p, (w.servers Cluster.leader).proposals.lookup y = some p → 0 < now := by
      intro y p hp
      rcases ((ledger hr _).outstanding y p hp).origin with ⟨g, hmem, -⟩
      have hmem' : g ∈ (w'.traces Cluster.leader).proposed :=
        mem_filterMap_mono (step_trace_grows hstep _) hmem
      exact hturn.pos (List.ne_nil_of_mem hmem')
    have hmode : task ≠ .doSyncPropose := by
      rintro rfl
      cases (ofMode hr _ hturn.pending).symm.trans ha
    have hown : ∀ f, task = .doReceivedAcceptMessage f → f.proposerId = Cluster.leader := by
      rintro f rfl
      exact (AcceptAt.eq hturn.scheduled).symm
    cases run_entry ha (ledger hr _) (entries hn hr _) hpos hmode hown hl with
    | kept p hp hround hvotes =>
        -- The vote that the call counts was under way before.
        have hold := hw y p hp
        rw [World.support, ← hround] at hold
        rw [← hround] at hvotes
        omega
    | opened r hmem hopens hvotes =>
        -- The round starts with the vote of the leader and one of every other server.
        have hone : 0 < (newLines C w ⟨now, .server Cluster.leader task⟩ Cluster.leader).countP
            (fun r => r.opens? = some q.round) :=
          List.countP_pos_iff.2 ⟨r, by simpa [newLines] using hmem, by simp [hopens]⟩
        have hmul := Nat.le_mul_of_pos_left (C.numNodes - 1) hone
        omega
  · -- A follower counts no vote, and whatever it sends adds to those under way.
    have hentry : (w.servers Cluster.leader).proposals.lookup y = some q := by
      simpa [hs.servers, serversAfter, Function.update_of_ne (Ne.symm hi)] using hl
    have hold := hw y q hentry
    have hcounts : task.counts? ≠ some q.round := by
      intro h
      exact hi (eq_leader_of_counts ha hr hturn.scheduled h)
    rw [World.support] at hold
    rw [if_neg hcounts] at hflow
    omega

theorem supported (ha : C.async = true) (hn : 2 ≤ C.numNodes)
    (hG : ∀ w c, G w c → lossLeavesMajority C w c) (hr : Reachable C G w) : Supported C w := by
  refine Transition.Reachable.invariant (P := Supported C) ?_ ?_ hr
  · intro y p hl
    simp [program, World.init] at hl
  · intro w c w' hr hw hg hstep
    rcases step_spec hstep with ⟨⟨now, action⟩, rest, hs⟩
    have hclient : (∀ ρ, action.advances ρ = false) → w'.servers = w.servers → Supported C w' := by
      intro hself hservers y p hl
      rw [hservers] at hl
      have hold := hw y p hl
      have hflow := hs.underWay_eq p.round
      rw [World.support] at hold ⊢
      simp only [hself, Bool.false_eq_true, if_false] at hflow
      omega
    cases action with
    | server i task =>
        exact hw.run ha hn hr hg hstep hs
    | transit packet hop =>
        exact hw.transit (hG w c hg) hr hs
    | clientStart k =>
        exact hclient (fun _ => rfl) (by simp [hs.servers, serversAfter])
    | sendRequest k =>
        exact hclient (fun _ => rfl) (by simp [hs.servers, serversAfter])

/-- Something is pending that takes the leader on. -/
structure World.Progress (C : Cluster) (w : World) : Prop where
  /-- A frame, a handler or an ACCEPT to be sent, for every proposal of the leader. -/
  outstanding : ∀ p ∈ (w.servers Cluster.leader).outstanding,
    ∃ e ∈ w.events, e.action.advances p.round = true
  /-- Until the servers stop, one of these or a call of the propose loop. -/
  live : w.now < C.stopTime →
    (∃ e ∈ w.events, e.action.isCall Cluster.leader Task.isPollLoop = true) ∨
      ∃ p ∈ (w.servers Cluster.leader).outstanding,
        ∃ e ∈ w.events, e.action.advances p.round = true

theorem advances_of_support (hn : 2 ≤ C.numNodes) (hr : Reachable C G w) {y : ℕ} {p : Proposal}
    (hl : (w.servers i).proposals.lookup y = some p) (h : C.numNodes / 2 < w.support p) :
    ∃ e ∈ w.events, e.action.advances p.round = true := by
  have hwaits := entries hn hr i y p hl
  -- The votes counted are no majority, or the entry would have gone on.
  have hvotes : p.votes ≤ C.numNodes / 2 := by
    by_cases hz : p.decisionTime = 0
    · rw [Proposal.votes, if_pos hz]
      exact hwaits.votes hz
    · rw [Proposal.votes, if_neg hz]
      exact hwaits.acks hz
  have hpos : 0 < underWay p.round w.events := by
    rw [World.support] at h
    omega
  exact List.countP_pos_iff.1 hpos

theorem progress (ha : C.async = true) (hn : 2 ≤ C.numNodes)
    (hr : Reachable C (majorityLeft C) w) : w.Progress C := by
  have hG : ∀ w c, majorityLeft C w c → lossLeavesMajority C w c :=
    fun _ _ => onTransit_mono fun _ _ _ _ hrule => hrule.2
  have hpending : ∀ p ∈ (w.servers Cluster.leader).outstanding,
      ∃ e ∈ w.events, e.action.advances p.round = true := by
    intro p hp
    rcases AList.mem_values.1 hp with ⟨y, hl⟩
    exact advances_of_support hn hr hl (supported ha hn hG hr y p hl)
  refine ⟨hpending, ?_⟩
  intro hnow
  have hcall : ∀ e, w.calls Cluster.leader Task.isPollLoop = [e] →
      ∃ e ∈ w.events, e.action.isCall Cluster.leader Task.isPollLoop = true := by
    intro e hc
    have hmem : e ∈ w.calls Cluster.leader Task.isPollLoop := by simp [hc]
    exact ⟨e, List.mem_filter.1 hmem⟩
  have hlead : Cluster.leader < C.numNodes := Nat.lt_of_lt_of_le (by decide) hn
  -- The loop has not begun, polls, waits for its entry, or has come to its end at the stop.
  cases phase ha hlead hr with
  | before ts task htask hc hhand hlate hst =>
      exact .inl (hcall _ hc)
  | polling ts hc hhand hlate =>
      exact .inl (hcall _ hc)
  | waiting p hc hhand hlate =>
      have hp : p ∈ (w.servers Cluster.leader).outstanding := by simp [hhand.entries]
      exact .inr ⟨p, hp, hpending p hp⟩
  | ended hc hhand hlate =>
      rcases hlate with ⟨r, hmem, hl⟩
      rcases traces_at hr _ r hmem with ⟨t, ht, hat⟩
      exact absurd (hl.le hat) (by lia)

/-- One of three servers does not get the PROPOSAL; the leader decides all the same. -/
theorem progress_three_servers :
    ∃ w, Reachable (.oneClient 3 (by decide) true 0 10 9000 4 5 0)
        (majorityLeft (.oneClient 3 (by decide) true 0 10 9000 4 5 0)) w ∧
      (w.servers Cluster.leader).outstanding.length = 1 ∧ (w.traces 2).handledDecisions ≠ [] ∧
      w.Progress (.oneClient 3 (by decide) true 0 10 9000 4 5 0) := by
  have hrun := exists_reachable_of_runInputs
    (S := program (.oneClient 3 (by decide) true 0 10 9000 4 5 0))
    (G := majorityLeft (.oneClient 3 (by decide) true 0 10 9000 4 5 0))
    (List.replicate 17 ({} : Choice) ++ [{ fate := .lose }] ++ List.replicate 9 ({} : Choice))
    (fun w => (w.servers Cluster.leader).outstanding.length = 1 ∧
      (w.traces 2).handledDecisions ≠ []) (by decide +kernel)
  rcases hrun with ⟨w, hr, htest⟩
  rcases of_decide_eq_true htest with ⟨hheld, hlearned⟩
  exact ⟨w, hr, hheld, hlearned, progress rfl (by decide) hr⟩

/-- One of two servers does not get the PROPOSAL: the leader holds it, undecided, and has another
request in its queue, but nothing is pending any more except that the servers stop. -/
theorem leader_stuck :
    ∃ w, Reachable (.oneClient 2 (by decide) true 0 10 9000 14 5 0) noCopies w ∧ w.now < 9000 ∧
      (w.servers Cluster.leader).outstanding.map Proposal.decisionTime = [0] ∧
      (w.servers Cluster.leader).waitingProposals ≠ [] ∧
      w.events.map (·.action) = [.server 0 .stopApplication, .server 1 .stopApplication] ∧
      ¬ w.Progress (.oneClient 2 (by decide) true 0 10 9000 14 5 0) := by
  have hrun := exists_reachable_of_runInputs
    (S := program (.oneClient 2 (by decide) true 0 10 9000 14 5 0)) (G := noCopies)
    (List.replicate 18 ({} : Choice) ++ [{ fate := .lose }])
    (fun w => w.now < 9000 ∧
      (w.servers Cluster.leader).outstanding.map Proposal.decisionTime = [0] ∧
      (w.servers Cluster.leader).waitingProposals ≠ [] ∧
      w.events.map (·.action) = [.server 0 .stopApplication, .server 1 .stopApplication])
    (by decide +kernel)
  rcases hrun with ⟨w, hr, htest⟩
  rcases of_decide_eq_true htest with ⟨hnow, hheld, hwaiting, hpending⟩
  refine ⟨w, hr, hnow, hheld, hwaiting, hpending, ?_⟩
  intro hprogress
  have hone : (w.servers Cluster.leader).outstanding.length = 1 := by
    simpa using congrArg List.length hheld
  rcases List.length_eq_one_iff.1 hone with ⟨p, hp⟩
  rcases hprogress.outstanding p (by simp [hp]) with ⟨e, he, hadv⟩
  have hmem : e.action ∈ w.events.map (·.action) := List.mem_map_of_mem he
  rw [hpending] at hmem
  rcases List.mem_pair.1 hmem with haction | haction <;>
    simp [haction, Callback.advances, Task.round?] at hadv

end Runs

end SyncPaxos
