import SyncPaxos.Model.Network
import SyncPaxos.Run.Rules

/-!
# Provenance — where every frame comes from

Each frame that is in flight or waits for its handler was made by the member function that makes
such frames, from a frame that its maker had handled before, and it is on its way to the server
it is meant for.  `sound` states this for all pending events and all records at once; nothing is
assumed about the network.

The chains `ACCEPT ← PROPOSAL` and `DECISION ← ACCEPT ← PROPOSAL` at the end follow a frame back
to the broadcast it answers.
-/

namespace SyncPaxos

open DiscreteEvent

/-! ## Frames and the records they rest on -/

section Frames

variable (C : Cluster) (h : ℕ → Trace)

/-- A PROPOSAL that its proposer broadcast, at a server it was broadcast to. -/
structure ProposalAt (a : ℕ) (f : PaxosFrame) : Prop where
  type : f.messageType = PaxosFrame.PROPOSAL
  mem : f ∈ (h f.proposerId).proposed
  ne : a ≠ f.proposerId
  lt : a < C.numNodes

/-- An ACCEPT that its acceptor sent, at the proposer it answers. -/
structure AcceptAt (a : ℕ) (f : PaxosFrame) : Prop where
  type : f.messageType = PaxosFrame.ACCEPT
  mem : f ∈ (h f.acceptorId).acceptsSent
  eq : a = f.proposerId

/-- A DECISION that its proposer broadcast, at a server it was broadcast to. -/
structure DecisionAt (a : ℕ) (f : PaxosFrame) : Prop where
  type : f.messageType = PaxosFrame.DECISION
  mem : f ∈ (h f.proposerId).decisions
  ne : a ≠ f.proposerId
  lt : a < C.numNodes

/-- A DECISION_ACK sent in answer to a DECISION, at the proposer of that DECISION. -/
structure DecisionAckAt (a : ℕ) (f : PaxosFrame) : Prop where
  type : f.messageType = PaxosFrame.DECISION_ACK
  from_ : ∃ d ∈ (h f.proposerId).handledDecisions,
    f = decisionAckFrame f.proposerId d ∧ a = d.proposerId

/-- A Paxos frame that may be in flight to server `a`. -/
inductive FrameAt (a : ℕ) (f : PaxosFrame) : App → Prop where
  | proposal : ProposalAt C h a f → FrameAt a f (.server f.proposerId)
  | accept : AcceptAt h a f → FrameAt a f (.server f.acceptorId)
  | decision : DecisionAt C h a f → FrameAt a f (.server f.proposerId)
  | decisionAck : DecisionAckAt h a f → FrameAt a f (.server f.proposerId)

variable {C h} in
theorem FrameAt.proposalAt {a : ℕ} {f : PaxosFrame} {src : App} (hf : FrameAt C h a f src)
    (htype : f.messageType = PaxosFrame.PROPOSAL) : ProposalAt C h a f := by
  cases hf with
  | proposal hf => exact hf
  | accept hf => cases htype.symm.trans hf.type
  | decision hf => cases htype.symm.trans hf.type
  | decisionAck hf => cases htype.symm.trans hf.type

variable {C h} in
theorem FrameAt.acceptAt {a : ℕ} {f : PaxosFrame} {src : App} (hf : FrameAt C h a f src)
    (htype : f.messageType = PaxosFrame.ACCEPT) : AcceptAt h a f := by
  cases hf with
  | proposal hf => cases htype.symm.trans hf.type
  | accept hf => exact hf
  | decision hf => cases htype.symm.trans hf.type
  | decisionAck hf => cases htype.symm.trans hf.type

variable {C h} in
theorem FrameAt.decisionAt {a : ℕ} {f : PaxosFrame} {src : App} (hf : FrameAt C h a f src)
    (htype : f.messageType = PaxosFrame.DECISION) : DecisionAt C h a f := by
  cases hf with
  | proposal hf => cases htype.symm.trans hf.type
  | accept hf => cases htype.symm.trans hf.type
  | decision hf => exact hf
  | decisionAck hf => cases htype.symm.trans hf.type

/-- What a pending event rests on. -/
def Justified (sent : List Packet) : Callback → Prop
  | .transit packet _ =>
      packet ∈ sent ∧
        match packet.payload with
        | .request frame =>
            (∃ k, k < C.numClients ∧ packet.src = .client k) ∧ packet.sentAt = frame.timestamp
        | .paxos frame => FrameAt C h packet.dst frame packet.src
  | .server i (.createProposalFromRequest frame) =>
      ∃ k, k < C.numClients ∧ (⟨.client k, i, .request frame, frame.timestamp⟩ : Packet) ∈ sent
  | .server a (.doReceivedProposalMessage frame) => ProposalAt C h a frame
  | .server a (.sendAcceptMessage frame) =>
      ∃ f ∈ (h a).handledProposals, ∃ t, frame = { f with acceptorId := a, acceptTime := t }
  | .server a (.doReceivedAcceptMessage frame) => AcceptAt h a frame
  | .server a (.doReceivedDecisionMessage frame) => DecisionAt C h a frame
  | .server a (.doReceivedDecisionAckMessage frame) => DecisionAckAt h a frame
  | .clientStart k => k < C.numClients
  | .sendRequest k => k < C.numClients
  | _ => True

/-- What a line in the record of server `i` rests on. -/
def RecordOk (sent : List Packet) (i : ℕ) : Record → Prop
  | .queued frame =>
      ∃ k, k < C.numClients ∧ (⟨.client k, i, .request frame, frame.timestamp⟩ : Packet) ∈ sent
  | .proposed frame => frame.messageType = PaxosFrame.PROPOSAL ∧ frame.proposerId = i
  | .handledProposal frame => ProposalAt C h i frame
  | .acceptSent frame => ∃ f ∈ (h i).handledProposals, ∃ t, frame = acceptFrame i t f
  | .handledAccept frame => AcceptAt h i frame
  | .decision frame =>
      ∃ f ∈ (h i).handledAccepts, f.proposerId = i ∧ ∃ t, frame = decisionFrame t f
  | .handledDecision frame => DecisionAt C h i frame
  | .handledDecisionAck frame => DecisionAckAt h i frame
  | _ => True

end Frames

/-! ## Records only grow -/

section Mono

variable {C : Cluster} {h h' : ℕ → Trace} {sent sent' : List Packet}

theorem mem_filterMap_mono {α : Type} {p : Record → Option α} {l l' : Trace} {x : α}
    (hl : l <+: l') (hx : x ∈ l.filterMap p) : x ∈ l'.filterMap p :=
  (hl.filterMap p).subset hx

theorem filterMap_concat {α : Type} {p : Record → Option α} (l : Trace) (r : Record) :
    (l ++ [r]).filterMap p = l.filterMap p ++ (p r).toList := by
  rw [List.filterMap_append]
  cases h : p r <;> simp [h]

theorem mem_filterMap_concat {α : Type} {p : Record → Option α} {l : Trace} {r : Record} {x : α} :
    x ∈ (l ++ [r]).filterMap p ↔ x ∈ l.filterMap p ∨ p r = some x := by
  rw [filterMap_concat, List.mem_append, Option.mem_toList]

theorem ProposalAt.mono (hh : ∀ i, h i <+: h' i) {a : ℕ} {f : PaxosFrame}
    (hf : ProposalAt C h a f) : ProposalAt C h' a f :=
  ⟨hf.type, mem_filterMap_mono (hh _) hf.mem, hf.ne, hf.lt⟩

theorem AcceptAt.mono (hh : ∀ i, h i <+: h' i) {a : ℕ} {f : PaxosFrame}
    (hf : AcceptAt h a f) : AcceptAt h' a f :=
  ⟨hf.type, mem_filterMap_mono (hh _) hf.mem, hf.eq⟩

theorem DecisionAt.mono (hh : ∀ i, h i <+: h' i) {a : ℕ} {f : PaxosFrame}
    (hf : DecisionAt C h a f) : DecisionAt C h' a f :=
  ⟨hf.type, mem_filterMap_mono (hh _) hf.mem, hf.ne, hf.lt⟩

theorem DecisionAckAt.mono (hh : ∀ i, h i <+: h' i) {a : ℕ} {f : PaxosFrame}
    (hf : DecisionAckAt h a f) : DecisionAckAt h' a f := by
  rcases hf.from_ with ⟨d, hd, hfd⟩
  exact ⟨hf.type, d, mem_filterMap_mono (hh _) hd, hfd⟩

theorem FrameAt.mono (hh : ∀ i, h i <+: h' i) {a : ℕ} {f : PaxosFrame} {src : App}
    (hf : FrameAt C h a f src) : FrameAt C h' a f src := by
  cases hf with
  | proposal hf =>
      exact .proposal (hf.mono hh)
  | accept hf =>
      exact .accept (hf.mono hh)
  | decision hf =>
      exact .decision (hf.mono hh)
  | decisionAck hf =>
      exact .decisionAck (hf.mono hh)

theorem Justified.mono (hh : ∀ i, h i <+: h' i) (hsent : sent ⊆ sent') {cb : Callback}
    (hj : Justified C h sent cb) : Justified C h' sent' cb := by
  cases cb with
  | server i task =>
      cases task with
      | createProposalFromRequest frame =>
          rcases hj with ⟨k, hlt, hk⟩
          exact ⟨k, hlt, hsent hk⟩
      | doReceivedProposalMessage frame =>
          exact ProposalAt.mono hh hj
      | sendAcceptMessage frame =>
          rcases hj with ⟨f, hf, t, ht⟩
          exact ⟨f, mem_filterMap_mono (hh _) hf, t, ht⟩
      | doReceivedAcceptMessage frame =>
          exact AcceptAt.mono hh hj
      | doReceivedDecisionMessage frame =>
          exact DecisionAt.mono hh hj
      | doReceivedDecisionAckMessage frame =>
          exact DecisionAckAt.mono hh hj
      | _ =>
          trivial
  | clientStart k =>
      exact hj
  | sendRequest k =>
      exact hj
  | transit packet hop =>
      refine ⟨hsent hj.1, ?_⟩
      have hframe := hj.2
      cases hp : packet.payload with
      | request frame =>
          simpa [hp] using hframe
      | paxos frame =>
          simp only [hp] at hframe
          exact hframe.mono hh

theorem RecordOk.mono (hh : ∀ i, h i <+: h' i) (hsent : sent ⊆ sent') {i : ℕ} {r : Record}
    (hr : RecordOk C h sent i r) : RecordOk C h' sent' i r := by
  cases r with
  | queued frame =>
      rcases hr with ⟨k, hlt, hk⟩
      exact ⟨k, hlt, hsent hk⟩
  | proposed frame =>
      exact hr
  | handledProposal frame =>
      exact ProposalAt.mono hh hr
  | acceptSent frame =>
      rcases hr with ⟨f, hf, t, ht⟩
      exact ⟨f, mem_filterMap_mono (hh _) hf, t, ht⟩
  | handledAccept frame =>
      exact AcceptAt.mono hh hr
  | decision frame =>
      rcases hr with ⟨f, hf, hown, t, ht⟩
      exact ⟨f, mem_filterMap_mono (hh _) hf, hown, t, ht⟩
  | handledDecision frame =>
      exact DecisionAt.mono hh hr
  | handledDecisionAck frame =>
      exact DecisionAckAt.mono hh hr
  | _ =>
      trivial

end Mono

/-! ## What one member function adds -/

section Local

variable {C : Cluster} {h : ℕ → Trace} {sent : List Packet} {i : ℕ} {now : Time} {s : Server}

theorem mem_proposeRecords {r : Record} (hr : r ∈ s.proposeRecords i now) :
    ∃ p, r = .proposed (proposalFrame i now p) := by
  unfold Server.proposeRecords at hr
  split at hr
  · cases hr
  · exact ⟨_, List.mem_singleton.1 hr⟩

theorem mem_asyncProposeRecords {r : Record} (hr : r ∈ s.asyncProposeRecords C i now) :
    r = .asyncPropose now ∨ ∃ p, r = .proposed (proposalFrame i now p) := by
  rcases List.mem_cons.1 hr with hr | hr
  · exact .inl hr
  · split at hr
    · cases hr
    · exact .inr (mem_proposeRecords hr)

/-- The lines that a justified call adds are justified. -/
theorem recordOk_of_mem_newRecords {task : Task} (hj : Justified C h sent (.server i task))
    (hnew : ∀ r ∈ Server.newRecords C i now task s, r ∈ h i) :
    ∀ r ∈ Server.newRecords C i now task s, RecordOk C h sent i r := by
  have hasync : ∀ r ∈ s.asyncProposeRecords C i now, RecordOk C h sent i r := by
    intro r hr
    rcases mem_asyncProposeRecords hr with rfl | ⟨p, rfl⟩
    · trivial
    · exact ⟨rfl, rfl⟩
  intro r hr
  cases task with
  | startApplication =>
      cases hr
  | stopApplication =>
      cases hr
  | startListenerThread =>
      cases hr
  | startProposerThread =>
      rcases List.mem_cons.1 hr with rfl | hr
      · trivial
      · split at hr
        · exact hasync r hr
        · cases hr
  | startAcceptorThread =>
      cases hr
  | createProposalFromRequest f =>
      simp only [Server.newRecords] at hr
      split at hr
      · cases hr
      · rcases List.mem_singleton.1 hr with rfl
        exact hj
  | doSyncPropose =>
      rcases List.mem_cons.1 hr with rfl | hr
      · trivial
      · split at hr
        · cases hr
        · rcases mem_proposeRecords hr with ⟨p, rfl⟩
          exact ⟨rfl, rfl⟩
  | doAsyncPropose =>
      exact hasync r hr
  | doReceivedProposalMessage f =>
      rcases List.mem_singleton.1 hr with rfl
      exact hj
  | sendAcceptMessage f =>
      rcases List.mem_singleton.1 hr with rfl
      rcases hj with ⟨g, hg, t, rfl⟩
      exact ⟨g, hg, now, rfl⟩
  | doReceivedAcceptMessage f =>
      -- The DECISION goes back to the ACCEPT that is handled in the same call.
      have hhandled : f ∈ (h i).handledAccepts := by
        have hmem := hnew (.handledAccept f) (by simp [Server.newRecords])
        exact List.mem_filterMap.2 ⟨_, hmem, rfl⟩
      rcases List.mem_cons.1 hr with rfl | hr
      · exact hj
      · split at hr
        · cases hr
        · rcases List.mem_cons.1 hr with rfl | hr
          · exact ⟨f, hhandled, hj.eq.symm, now, rfl⟩
          · split at hr
            · cases hr
            · rcases List.mem_singleton.1 hr with rfl
              trivial
  | doReceivedDecisionMessage f =>
      rcases List.mem_cons.1 hr with rfl | hr
      · exact hj
      · rcases List.mem_singleton.1 hr with rfl
        trivial
  | doReceivedDecisionAckMessage f =>
      rcases List.mem_cons.1 hr with rfl | hr
      · exact hj
      · split at hr
        · cases hr
        · rcases List.mem_cons.1 hr with rfl | hr
          · trivial
          · exact hasync r hr

/-- A broadcast of a frame that is on record. -/
theorem justified_broadcast {f : PaxosFrame}
    (hat : ∀ a, a ≠ i → a < C.numNodes → FrameAt C h a f (.server i))
    {e : Event} (he : e ∈ broadcast C i now f)
    (hsent : ∀ p, e.action.sentPacket? = some p → p ∈ sent) : Justified C h sent e.action := by
  rcases List.mem_map.1 he with ⟨a, ha, rfl⟩
  have ha' : a < C.numNodes ∧ a ≠ i := by
    simpa [Cluster.nodes] using ha
  refine ⟨hsent _ rfl, ?_⟩
  exact hat a ha'.2 ha'.1

/-- The broadcast of a PROPOSAL that is on record. -/
theorem justified_proposal {p : Proposal} {e : Event}
    (he : e ∈ broadcast C i now (proposalFrame i now p))
    (hmem : .proposed (proposalFrame i now p) ∈ h i)
    (hsent : ∀ q, e.action.sentPacket? = some q → q ∈ sent) : Justified C h sent e.action := by
  refine justified_broadcast (f := proposalFrame i now p) ?_ he hsent
  intro a ha hlt
  exact .proposal ⟨rfl, List.mem_filterMap.2 ⟨_, hmem, rfl⟩, ha, hlt⟩

theorem justified_doPropose {e : Event} (he : e ∈ (s.doPropose C i now).2.events)
    (htrace : h i = (s.doPropose C i now).2.server.trace)
    (hsent : ∀ p, e.action.sentPacket? = some p → p ∈ sent) : Justified C h sent e.action := by
  rcases Server.doPropose_cases C i now s with ⟨hw, heq⟩ | ⟨p, rest, hw, heq⟩
  · simp [heq] at he
  · rw [heq] at he htrace
    exact justified_proposal he (by simp [htrace, Server.record]) hsent

theorem justified_doAsyncPropose {e : Event} (he : e ∈ (s.doAsyncPropose C i now).events)
    (htrace : h i = (s.doAsyncPropose C i now).server.trace)
    (hsent : ∀ p, e.action.sentPacket? = some p → p ∈ sent) : Justified C h sent e.action := by
  rcases Server.doAsyncPropose_cases C i now s with
    ⟨-, heq⟩ | ⟨-, -, heq⟩ | ⟨-, p, rest, -, heq⟩
  · simp [heq] at he
  · rw [heq] at he
    rcases List.mem_singleton.1 he with rfl
    trivial
  · rw [heq] at he htrace
    exact justified_proposal he (by simp [htrace, Server.record]) hsent

/-- The events that a justified call schedules are justified. -/
theorem justified_run {task : Task} (hj : Justified C h sent (.server i task))
    (htrace : h i = (Server.run C i now task s).server.trace)
    {e : Event} (he : e ∈ (Server.run C i now task s).events)
    (hsent : ∀ p, e.action.sentPacket? = some p → p ∈ sent) : Justified C h sent e.action := by
  cases task with
  | startApplication =>
      simp only [Server.run, Server.startApplication, List.mem_cons, List.not_mem_nil,
        or_false] at he
      rcases he with rfl | rfl | rfl <;> trivial
  | stopApplication =>
      cases he
  | startListenerThread =>
      cases he
  | startProposerThread =>
      simp only [Server.run] at he htrace
      rcases Server.startProposerThread_cases C i now s with ⟨-, -, heq⟩ | ⟨-, -, heq⟩ | ⟨-, heq⟩
      · rw [heq] at he htrace
        exact justified_doAsyncPropose he htrace hsent
      · simp [heq] at he
      · rw [heq] at he
        rcases List.mem_singleton.1 he with rfl
        trivial
  | startAcceptorThread =>
      cases he
  | createProposalFromRequest f =>
      simp only [Server.run, Server.createProposalFromRequest] at he
      split at he <;> cases he
  | doSyncPropose =>
      simp only [Server.run] at he htrace
      rcases Server.doSyncPropose_cases C i now s with ⟨-, heq⟩ | ⟨-, heq⟩
      · simp [heq] at he
      · rw [heq] at he htrace
        rcases List.mem_append.1 he with he | he
        · exact justified_doPropose he htrace hsent
        · rcases List.mem_singleton.1 he with rfl
          trivial
  | doAsyncPropose =>
      exact justified_doAsyncPropose he htrace hsent
  | doReceivedProposalMessage f =>
      rcases List.mem_singleton.1 he with rfl
      refine ⟨f, ?_, now, rfl⟩
      have hmem : Record.handledProposal f ∈ h i := by
        simp [htrace, Server.run, Server.doReceivedProposalMessage, Server.record]
      exact List.mem_filterMap.2 ⟨_, hmem, rfl⟩
  | sendAcceptMessage f =>
      rcases List.mem_singleton.1 he with rfl
      refine ⟨hsent _ rfl, ?_⟩
      refine FrameAt.accept ⟨rfl, ?_, rfl⟩
      have hmem : Record.acceptSent (acceptFrame i now f) ∈ h i := by
        simp [htrace, Server.run, Server.sendAcceptMessage, Server.record]
      exact List.mem_filterMap.2 ⟨_, hmem, rfl⟩
  | doReceivedAcceptMessage f =>
      have hown : f.proposerId = i := hj.eq.symm
      -- The ACCEPT is for this server, so the DECISION that copies it names this server.
      have hdecision : Record.decision (decisionFrame now f) ∈ h i →
          ∀ a, a ≠ i → a < C.numNodes →
            FrameAt C h a (decisionFrame now f) (.server i) := by
        intro hmem a ha hlt
        rw [← hown] at hmem ha ⊢
        exact FrameAt.decision ⟨rfl, List.mem_filterMap.2 ⟨_, hmem, rfl⟩, ha, hlt⟩
      simp only [Server.run] at he htrace
      rcases Server.doReceivedAcceptMessage_cases C i now f s with
        ⟨-, heq⟩ | ⟨found, -, -, ⟨-, heq⟩ | ⟨-, -, -, heq⟩ | ⟨-, -, -, heq⟩⟩
      · simp [heq] at he
      · simp [heq] at he
      · rw [heq] at he htrace
        have hmem : Record.decision (decisionFrame now f) ∈ h i := by
          simp [htrace, Server.record, Server.putProposal]
        exact justified_broadcast (f := decisionFrame now f) (hdecision hmem) he hsent
      · rw [heq] at he htrace
        have hmem : Record.decision (decisionFrame now f) ∈ h i := by
          simp [htrace, Server.record, Server.pushDecided, Server.eraseProposal]
        exact justified_broadcast (f := decisionFrame now f) (hdecision hmem) he hsent
  | doReceivedDecisionMessage f =>
      simp only [Server.run, Server.doReceivedDecisionMessage] at he htrace
      split at he
      · rcases List.mem_singleton.1 he with rfl
        refine ⟨hsent _ rfl, ?_⟩
        refine FrameAt.decisionAck ⟨rfl, f, ?_, rfl, rfl⟩
        have hmem : Record.handledDecision f ∈ h i := by
          simp [htrace, Server.record, Server.pushDecided]
        exact List.mem_filterMap.2 ⟨_, hmem, rfl⟩
      · cases he
  | doReceivedDecisionAckMessage f =>
      simp only [Server.run] at he htrace
      rcases Server.doReceivedDecisionAckMessage_cases C i now f s with
        ⟨-, heq⟩ | ⟨found, -, -, ⟨-, heq⟩ | ⟨-, -, heq⟩⟩
      · simp [heq] at he
      · simp [heq] at he
      · rw [heq] at he htrace
        exact justified_doAsyncPropose he htrace hsent

end Local

/-! ## The invariant -/

/-- Every pending event and every line of a record is justified. -/
structure Sound (C : Cluster) (w : World) : Prop where
  events : ∀ e ∈ w.events, Justified C w.traces w.sent e.action
  records : ∀ i, ∀ r ∈ w.traces i, RecordOk C w.traces w.sent i r

section Sound

variable {C : Cluster} {G : World → Choice → Prop} {w w' : World} {c : Choice}

theorem StepSpec.traces_server {i : ℕ} {task : Task} {now : Time} {rest : List Event}
    (hs : StepSpec C c w w' ⟨now, .server i task⟩ rest) :
    w'.traces i = (Server.run C i now task (w.servers i)).server.trace := by
  simp [World.traces, hs.servers, serversAfter]

theorem StepSpec.mem_sent {e x : Event} {rest : List Event} (hs : StepSpec C c w w' e rest)
    (hx : x ∈ emitted C c w e) {p : Packet} (hp : x.action.sentPacket? = some p) : p ∈ w'.sent := by
  rw [hs.sent]
  exact List.mem_append_right _ (List.mem_filterMap.2 ⟨x, hx, hp⟩)

/-- The call scheduled by the arrival of a justified packet is justified. -/
theorem justified_arrival {h : ℕ → Trace} {sent : List Packet} {now : Time} {packet : Packet}
    {hop : ℕ} (hj : Justified C h sent (.transit packet hop)) {x : Event}
    (hx : x ∈ arrivalEvents C w now packet) : Justified C h sent x.action := by
  rcases packet with ⟨src, dst, payload, sentAt⟩
  rcases hj with ⟨hsent, hframe⟩
  unfold arrivalEvents at hx
  cases payload with
  | request frame =>
      rcases hframe with ⟨⟨k, hlt, rfl⟩, rfl⟩
      dsimp only at hx
      split at hx
      · unfold Server.receiveRequest at hx
        split at hx
        · cases hx
        · rcases List.mem_singleton.1 hx with rfl
          exact ⟨k, hlt, hsent⟩
      · cases hx
  | paxos frame =>
      dsimp only at hx hframe
      split at hx
      · -- Each type of frame has its handler.
        cases hframe with
        | proposal hf =>
            rw [Server.receiveMessage_proposal hf.type] at hx
            rcases List.mem_singleton.1 hx with rfl
            exact hf
        | accept hf =>
            rw [Server.receiveMessage_accept hf.type] at hx
            rcases List.mem_singleton.1 hx with rfl
            exact hf
        | decision hf =>
            rw [Server.receiveMessage_decision hf.type] at hx
            rcases List.mem_singleton.1 hx with rfl
            exact hf
        | decisionAck hf =>
            rw [Server.receiveMessage_decisionAck hf.type] at hx
            rcases List.mem_singleton.1 hx with rfl
            exact hf
      · cases hx

theorem justified_emitted {e x : Event} {rest : List Event} (hs : StepSpec C c w w' e rest)
    (hj : Justified C w'.traces w'.sent e.action) (hx : x ∈ emitted C c w e) :
    Justified C w'.traces w'.sent x.action := by
  have hsent : ∀ p, x.action.sentPacket? = some p → p ∈ w'.sent := fun p hp => hs.mem_sent hx hp
  rcases e with ⟨now, action⟩
  have hclient : ∀ k, k < C.numClients → x ∈ ((w.clients k).sendRequest C k now c.value).2 →
      Justified C w'.traces w'.sent x.action := by
    intro k hk hx
    rcases mem_sendRequest hx with rfl | rfl
    · exact ⟨hsent _ rfl, ⟨k, hk, rfl⟩, rfl⟩
    · exact hk
  cases action with
  | server i task =>
      exact justified_run hj hs.traces_server hx hsent
  | clientStart k =>
      exact hclient k hj hx
  | sendRequest k =>
      exact hclient k hj hx
  | transit packet hop =>
      -- A packet that travels on, or its copy, is justified as before.
      simp only [emitted] at hx
      split at hx
      · exact justified_arrival hj hx
      · rcases List.mem_singleton.1 hx with rfl
        exact hj
      · simp only [List.mem_cons, List.not_mem_nil, or_false] at hx
        rcases hx with rfl | rfl <;> exact hj
      · cases hx

theorem sound (hr : Reachable C G w) : Sound C w := by
  refine Transition.Reachable.invariant (P := Sound C) ?_ ?_ hr
  · refine ⟨?_, ?_⟩
    · intro e he
      rcases mem_init_events he with ⟨k, hk, rfl⟩ | ⟨i, -, rfl⟩ | ⟨i, -, rfl⟩
      · exact hk
      · trivial
      · trivial
    · intro i r hr
      cases hr
  · intro w c w' _ hsound _ hstep
    rcases step_spec hstep with ⟨e, rest, hs⟩
    have hh : ∀ i, w.traces i <+: w'.traces i := step_trace_grows hstep
    have hsent : w.sent ⊆ w'.sent := (step_sent_grows hstep).subset
    have hj : Justified C w'.traces w'.sent e.action :=
      (hsound.events e (mem_of_pop hs.pop)).mono hh hsent
    refine ⟨?_, ?_⟩
    · intro x hx
      rw [hs.events] at hx
      rcases List.mem_append.1 hx with hx | hx
      · exact (hsound.events x (mem_rest_of_pop hs.pop hx)).mono hh hsent
      · exact justified_emitted hs hj hx
    · intro j r hr
      rcases e with ⟨now, action⟩
      -- Only the server that ran has new lines.
      have hold : r ∈ w.traces j → RecordOk C w'.traces w'.sent j r := fun hr =>
        (hsound.records j r hr).mono hh hsent
      cases action with
      | server i task =>
          by_cases hij : j = i
          · subst hij
            have htrace := hs.traces_server
            rw [Server.run_trace] at htrace
            rw [htrace] at hr
            rcases List.mem_append.1 hr with hr | hr
            · exact hold hr
            · refine recordOk_of_mem_newRecords hj ?_ r hr
              intro r' hr'
              rw [htrace]
              exact List.mem_append_right _ hr'
          · refine hold ?_
            simpa [World.traces, hs.servers, serversAfter, Function.update_of_ne hij] using hr
      | clientStart k =>
          exact hold (by simpa [World.traces, hs.servers, serversAfter] using hr)
      | sendRequest k =>
          exact hold (by simpa [World.traces, hs.servers, serversAfter] using hr)
      | transit packet hop =>
          exact hold (by simpa [World.traces, hs.servers, serversAfter] using hr)

/-- A packet that was sent is justified. -/
theorem sent_justified (hr : Reachable C G w) :
    ∀ packet ∈ w.sent, Justified C w.traces w.sent (.transit packet 0) := by
  refine Transition.Reachable.invariant
    (P := fun w => ∀ packet ∈ w.sent, Justified C w.traces w.sent (.transit packet 0)) ?_ ?_ hr
  · intro packet hp
    cases hp
  · intro w c w' hr hsent hg hstep packet hp
    have hsound' := sound (Transition.Reachable.step hr hg hstep)
    rcases step_spec hstep with ⟨e, rest, hs⟩
    rw [hs.sent] at hp
    rcases List.mem_append.1 hp with hp | hp
    · exact (hsent packet hp).mono (step_trace_grows hstep) (step_sent_grows hstep).subset
    · rcases List.mem_filterMap.1 hp with ⟨x, hx, hsome⟩
      -- A packet that was just sent is a new event.
      have hmem : x ∈ w'.events := by
        rw [hs.events]
        exact List.mem_append_right _ hx
      have hj := hsound'.events x hmem
      rcases x with ⟨ts, action⟩
      cases action with
      | transit p hop =>
          cases hop with
          | zero =>
              obtain rfl : p = packet := Option.some.inj hsome
              exact hj
          | succ hop =>
              cases hsome
      | _ =>
          cases hsome

/-! ## Following a frame back -/

theorem Sound.queued (hw : Sound C w) {i : ℕ} {r : RequestFrame}
    (hq : r ∈ (w.traces i).queued) :
    ∃ k, k < C.numClients ∧ (⟨.client k, i, .request r, r.timestamp⟩ : Packet) ∈ w.sent :=
  hw.records i _ (Trace.mem_queued.1 hq)

theorem Sound.proposed (hw : Sound C w) {i : ℕ} {f : PaxosFrame}
    (hf : f ∈ (w.traces i).proposed) :
    f.messageType = PaxosFrame.PROPOSAL ∧ f.proposerId = i :=
  hw.records i _ (Trace.mem_proposed.1 hf)

theorem Sound.handledProposal (hw : Sound C w) {a : ℕ} {f : PaxosFrame}
    (hf : f ∈ (w.traces a).handledProposals) : ProposalAt C w.traces a f :=
  hw.records a _ (Trace.mem_handledProposals.1 hf)

/-- An ACCEPT answers a PROPOSAL that its sender has handled. -/
theorem Sound.acceptSent (hw : Sound C w) {a : ℕ} {f : PaxosFrame}
    (hf : f ∈ (w.traces a).acceptsSent) :
    ∃ g ∈ (w.traces a).handledProposals, ∃ t, f = acceptFrame a t g :=
  hw.records a _ (Trace.mem_acceptsSent.1 hf)

/-- A handled ACCEPT answers a PROPOSAL of this server that its sender has handled. -/
theorem Sound.handledAccept (hw : Sound C w) {i : ℕ} {f : PaxosFrame}
    (hf : f ∈ (w.traces i).handledAccepts) :
    AcceptAt w.traces i f ∧
      ∃ g ∈ (w.traces f.acceptorId).handledProposals, ∃ t, f = acceptFrame f.acceptorId t g := by
  have hat : AcceptAt w.traces i f := hw.records i _ (Trace.mem_handledAccepts.1 hf)
  exact ⟨hat, hw.acceptSent hat.mem⟩

/-- The broadcast that an ACCEPT at its proposer goes back to. -/
theorem Sound.acceptAt_origin (hw : Sound C w) {i : ℕ} {f : PaxosFrame}
    (hat : AcceptAt w.traces i f) :
    f.proposerId = i ∧ f.acceptorId ≠ i ∧ f.acceptorId < C.numNodes ∧
      ∃ g ∈ (w.traces i).proposed, g ∈ (w.traces f.acceptorId).handledProposals ∧
        f.proposalId = g.proposalId ∧ f.value = g.value ∧ f.proposeTime = g.proposeTime := by
  rcases hw.acceptSent hat.mem with ⟨g, hg, t, heq⟩
  -- The PROPOSAL names the server that the ACCEPT names.
  have hgat := hw.handledProposal hg
  have hown : f.proposerId = i := hat.eq.symm
  have hprop : f.proposerId = g.proposerId := by rw [heq]; rfl
  have hgi : g.proposerId = i := hprop.symm.trans hown
  have hmem := hgat.mem
  have hne := hgat.ne
  rw [hgi] at hmem hne
  refine ⟨hown, hne, hgat.lt, g, hmem, hg, ?_, ?_, ?_⟩ <;> rw [heq] <;> rfl

theorem Sound.accept_origin (hw : Sound C w) {i : ℕ} {f : PaxosFrame}
    (hf : f ∈ (w.traces i).handledAccepts) :
    f.proposerId = i ∧ f.acceptorId ≠ i ∧ f.acceptorId < C.numNodes ∧
      ∃ g ∈ (w.traces i).proposed, g ∈ (w.traces f.acceptorId).handledProposals ∧
        f.proposalId = g.proposalId ∧ f.value = g.value ∧ f.proposeTime = g.proposeTime :=
  hw.acceptAt_origin (hw.handledAccept hf).1

/-- The ACCEPT and the PROPOSAL that a DECISION goes back to. -/
theorem Sound.decision_origin (hw : Sound C w) {i : ℕ} {d : PaxosFrame}
    (hd : d ∈ (w.traces i).decisions) :
    d.messageType = PaxosFrame.DECISION ∧ d.proposerId = i ∧
      ∃ g ∈ (w.traces i).proposed,
        d.proposalId = g.proposalId ∧ d.value = g.value ∧ d.proposeTime = g.proposeTime := by
  rcases hw.records i _ (Trace.mem_decisions.1 hd) with ⟨f, hf, hown, t, rfl⟩
  rcases hw.accept_origin hf with ⟨-, -, -, g, hg, -, hid, hval, htime⟩
  exact ⟨rfl, hown, g, hg, hid, hval, htime⟩

theorem Sound.handledDecision (hw : Sound C w) {a : ℕ} {f : PaxosFrame}
    (hf : f ∈ (w.traces a).handledDecisions) : DecisionAt C w.traces a f :=
  hw.records a _ (Trace.mem_handledDecisions.1 hf)

theorem Sound.handledDecisionAck (hw : Sound C w) {i : ℕ} {f : PaxosFrame}
    (hf : f ∈ (w.traces i).handledDecisionAcks) : DecisionAckAt w.traces i f :=
  hw.records i _ (Trace.mem_handledDecisionAcks.1 hf)

end Sound

end SyncPaxos
