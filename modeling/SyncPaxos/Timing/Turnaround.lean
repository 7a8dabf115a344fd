import SyncPaxos.Safety.Discipline
import SyncPaxos.Safety.Progress
import SyncPaxos.Timing.Latency
import SyncPaxos.Timing.Response

/-!
# Turnaround — how long a request waits for the leader

In a timely network the leader has the acknowledgements of a majority four delays and ten nanoseconds
after it proposed a request, and goes on at once.  So a request is proposed after one turnaround for each
request in front of it.

What is due in a round bounds the round: as long as an entry of the leader has no majority, something
that adds to its votes is pending, and everything of the kind is due in time.
-/

namespace SyncPaxos

open DiscreteEvent Transition

/-- From a PROPOSAL to the acknowledgements of its DECISION. -/
def Cluster.turnaround (C : Cluster) : Time := 4 * C.boundedMessageDelay + 10

/-! ## Acknowledgements in time -/

section Acks

/-- The DECISION that the DECISION_ACK `f` answers was sent at most `d` before `t`. -/
def AckedWithin (h : ℕ → Trace) (d : Time) (f : PaxosFrame) (t : Time) : Prop :=
  ∃ g ∈ (h f.proposerId).handledDecisions, g.proposalId = f.proposalId ∧ t ≤ g.decisionTime + d

/-- The latest time at which a DECISION_ACK is sent, and at which it is handled. -/
def AckDue (C : Cluster) (h : ℕ → Trace) (e : Event) : Prop :=
  match e.action with
  | .transit packet _ =>
      ∀ f, packet.paxos? = some f → f.messageType = PaxosFrame.DECISION_ACK →
        AckedWithin h C.boundedMessageDelay f packet.sentAt
  | .server _ (.doReceivedDecisionAckMessage f) =>
      AckedWithin h (2 * C.boundedMessageDelay) f e.ts
  | _ => True

variable {C : Cluster} {w w' : World} {c : Choice} {h h' : ℕ → Trace} {d t t' : Time}
  {f : PaxosFrame} {e x : Event} {rest : List Event}

theorem AckedWithin.mono (hh : ∀ i, h i <+: h' i) (hf : AckedWithin h d f t) :
    AckedWithin h' d f t := by
  rcases hf with ⟨g, hg, hid, hle⟩
  exact ⟨g, mem_filterMap_mono (hh _) hg, hid, hle⟩

theorem AckedWithin.later (hf : AckedWithin h d f t) (hle : t' ≤ t + d) :
    AckedWithin h (2 * d) f t' := by
  rcases hf with ⟨g, hg, hid, hage⟩
  refine ⟨g, hg, hid, ?_⟩
  lia

theorem AckDue.mono (hh : ∀ i, h i <+: h' i) (he : AckDue C h e) : AckDue C h' e := by
  rcases e with ⟨now, action⟩
  cases action with
  | transit packet hop =>
      exact fun f hf htype => (he f hf htype).mono hh
  | server i task =>
      cases task with
      | doReceivedDecisionAckMessage f =>
          exact AckedWithin.mono hh he
      | _ =>
          trivial
  | _ =>
      trivial

/-- What a step schedules is acknowledged in time. -/
theorem ackDue_emitted (hG : timely C w c) (hr : Sound C w) (hr' : Sound C w')
    (hstep : World.step C c w = some w') (hs : StepSpec C c w w' e rest) (hdue : Due C e)
    (he : AckDue C w.traces e) (hx : x ∈ emitted C c w e) : AckDue C w'.traces x := by
  have hj := hr.events e (mem_of_pop hs.pop)
  have hj' := hr'.events x (hs.events ▸ List.mem_append_right rest hx)
  have hgrows := step_trace_grows hstep
  rcases e with ⟨now, action⟩
  have hclient : ∀ k, x ∈ ((w.clients k).sendRequest C k now c.value).2 → AckDue C w'.traces x := by
    intro k hx
    rcases mem_sendRequest hx with rfl | rfl
    · intro f hf
      cases hf
    · trivial
  cases action with
  | server i task =>
      rcases x with ⟨ts, action⟩
      cases action with
      | transit packet hop =>
          intro f hf htype
          rcases ack_of_run hx rfl hf htype with ⟨g, rfl, hline, rfl, hnow⟩
          -- The DECISION that is answered was handled in time.
          have hle : now ≤ g.decisionTime + C.boundedMessageDelay :=
            hdue g rfl _ (stamp_decision (DecisionAt.type hj))
          refine ⟨g, ?_, rfl, hnow ▸ hle⟩
          change g ∈ (w'.traces i).handledDecisions
          rw [hs.traces_server, Server.run_trace, Trace.mem_handledDecisions]
          exact List.mem_append_right _ hline
      | server a task' =>
          rcases mem_emitted_server hx rfl with ⟨task₀, -, hnew⟩ | ⟨_, _, heq, -⟩
          · rcases Server.mem_newTasks C a now hnew with ⟨t, ht, hcases⟩
            cases ht
            rcases hcases with rfl | rfl | rfl | rfl | rfl | ⟨g, rfl⟩ <;> trivial
          · cases heq
      | _ => trivial
  | clientStart k =>
      exact hclient k hx
  | sendRequest k =>
      exact hclient k hx
  | transit packet hop =>
      have hrule := onTransit_of_pop hs.pop hG
      cases hf : c.fate with
      | arrive =>
          simp only [emitted, hf] at hx
          rcases mem_arrivalEvents hx with ⟨r, -, -, -, rfl⟩ | ⟨f, task, hpay, -, hrecv, rfl⟩
          · trivial
          · have hreq : packet.isRequest = false := by rw [Packet.isRequest, hpay]
            have hpaxos : packet.paxos? = some f := by rw [Packet.paxos?, hpay]
            cases task <;> simp at hrecv <;> subst hrecv
            case doReceivedDecisionAckMessage =>
              exact ((he _ hpaxos (DecisionAckAt.type hj')).mono hgrows).later (hdue hreq)
            all_goals trivial
      | forward d' =>
          simp only [emitted, hf, List.mem_singleton] at hx
          subst hx
          exact fun f hf htype => (he f hf htype).mono hgrows
      | duplicate d₁ d₂ =>
          have hcopy := hrule.1
          rw [hf] at hcopy
          cases hcopy
      | lose =>
          simp [emitted, hf] at hx

theorem acksDue (hr : Reachable C (timely C) w) : ∀ e ∈ w.events, AckDue C w.traces e := by
  refine event_invariant (Q := fun _ => True) (P := fun w e => AckDue C w.traces e)
    (fun _ _ _ _ _ _ => trivial) ?_ ?_ ?_ hr trivial
  · intro e he
    rcases mem_init_events he with ⟨k, -, rfl⟩ | ⟨i, -, rfl⟩ | ⟨i, -, rfl⟩ <;> trivial
  · intro w c w' e hr hstep he
    exact he.mono (step_trace_grows hstep)
  · intro w c w' e rest hr _ _ hall hg hstep hs x hx
    have hmem := mem_of_pop hs.pop
    exact ackDue_emitted hg (sound hr) (sound (.step hr hg hstep)) hstep hs
      ((punctual (fun _ _ h => h) hr).events e hmem) (hall e hmem) hx

end Acks

/-! ## Everything of a round is due in time -/

section Rounds

variable {C : Cluster} {w : World} {c : Choice} {i a y : ℕ} {f₀ d : PaxosFrame} {p : Proposal}
  {e : Event}

theorem lossLeavesMajority_of_timely (h : timely C w c) : lossLeavesMajority C w c := by
  refine onTransit_mono ?_ h
  intro w packet now fate hrule hloss p _ hin
  have hreq : packet.isRequest = false := isRequest_of_inRound hin
  cases hloss.symm.trans (hrule.2 hreq).1

theorem decision_within (hr : Reachable C (timely C) w) (hd : w.QueuedDistinct)
    (hf₀ : f₀ ∈ (w.traces i).proposed) (hdec : d ∈ (w.traces a).decisions)
    (hid : d.proposalId = f₀.proposalId) :
    d.decisionTime ≤ f₀.proposeTime + 2 * C.boundedMessageDelay + 10 := by
  rcases (sound hr).decision_origin hdec with ⟨-, -, g, hg, hgid, -⟩
  obtain ⟨rfl, -⟩ := proposed_unique hr hd hg hf₀ (hgid.symm.trans hid)
  exact decision_inTime hr hd hf₀ hdec hid

/-- A frame with a stamp was sent two delays and ten nanoseconds after its PROPOSAL at the latest. -/
theorem stamp_within (hr : Reachable C (timely C) w) (hd : w.QueuedDistinct)
    (hf₀ : f₀ ∈ (w.traces i).proposed) {f : PaxosFrame} {src : App} {t : Time}
    (hf : FrameAt C w.traces a f src) (hid : f.proposalId = f₀.proposalId)
    (ht : f.stamp? = some t) : t ≤ f₀.proposeTime + 2 * C.boundedMessageDelay + 10 := by
  cases hf with
  | proposal hat =>
      obtain ⟨-, rfl⟩ := proposed_unique hr hd hat.mem hf₀ hid
      cases (stamp_proposal hat.type).symm.trans ht
      lia
  | accept hat =>
      rcases (sound hr).acceptAt_origin hat with ⟨-, -, -, g, hg, -, hgid, -, htime⟩
      obtain ⟨-, rfl⟩ := proposed_unique hr hd hg hf₀ (hgid.symm.trans hid)
      have hsent : f.acceptTime ≤ f.proposeTime + C.boundedMessageDelay + 10 :=
        (punctual (fun _ _ h => h) hr).records _ _ (Trace.mem_acceptsSent.1 hat.mem)
      cases (stamp_accept hat.type).symm.trans ht
      lia
  | decision hat =>
      cases (stamp_decision hat.type).symm.trans ht
      exact decision_within hr hd hf₀ hat.mem hid
  | decisionAck hat =>
      rw [PaxosFrame.stamp?, PaxosFrame.isProposal, PaxosFrame.isAccept, PaxosFrame.isDecision,
        hat.type] at ht
      cases ht

/-- What takes a round of a proposal on is due within its turnaround. -/
theorem advancing_due (hr : Reachable C (timely C) w) (hd : w.QueuedDistinct)
    (hf₀ : f₀ ∈ (w.traces i).proposed) {b : Bool} (he : e ∈ w.events)
    (hadv : e.action.advances (f₀.proposalId, b) = true) :
    e.ts ≤ f₀.proposeTime + C.turnaround := by
  have hj := (sound hr).events e he
  have hdue := (punctual (fun _ _ h => h) hr).events e he
  have hack := acksDue hr e he
  have hacked : ∀ f t, AckedWithin w.traces (2 * C.boundedMessageDelay) f t →
      f.proposalId = f₀.proposalId → t ≤ f₀.proposeTime + C.turnaround := by
    rintro f t ⟨g, hg, hgid, hle⟩ hid
    have hwithin := decision_within hr hd hf₀ ((sound hr).handledDecision hg).mem (hgid.trans hid)
    rw [Cluster.turnaround]
    lia
  have hstamped : ∀ a f src t, FrameAt C w.traces a f src → f.proposalId = f₀.proposalId →
      f.stamp? = some t → e.ts ≤ t + C.boundedMessageDelay →
      e.ts ≤ f₀.proposeTime + C.turnaround := by
    intro a f src t hf hid ht hle
    have hwithin := stamp_within hr hd hf₀ hf hid ht
    rw [Cluster.turnaround]
    lia
  rcases e with ⟨ts, action⟩
  cases action with
  | transit packet hop =>
      rcases packet with ⟨src, dst, payload, sentAt⟩
      cases payload with
      | request r => cases hadv
      | paxos f =>
          have hround : f.round = (f₀.proposalId, b) := by
            simpa [Callback.advances, Packet.inRound, Packet.paxos?] using hadv
          have hid : f.proposalId = f₀.proposalId := congrArg Prod.fst hround
          have hle : ts ≤ sentAt + C.boundedMessageDelay := hdue rfl
          have hframe : FrameAt C w.traces dst f src := hj.2
          have hsent : ∀ t, f.stamp? = some t → ts ≤ f₀.proposeTime + C.turnaround := by
            intro t ht
            have hat : sentAt = t := sent_stamp hr _ hj.1 f rfl t ht
            exact hstamped dst f src t hframe hid ht (hat ▸ hle)
          cases hframe with
          | proposal hat => exact hsent _ (stamp_proposal hat.type)
          | accept hat => exact hsent _ (stamp_accept hat.type)
          | decision hat => exact hsent _ (stamp_decision hat.type)
          | decisionAck hat => exact hacked f ts ((hack f rfl hat.type).later hle) hid
  | server a task =>
      have hround : task.round? = some (f₀.proposalId, b) := by
        simpa [Callback.advances] using hadv
      cases task with
      | doReceivedProposalMessage f =>
          have hat : ProposalAt C w.traces a f := hj
          have hid : f.proposalId = f₀.proposalId := congrArg Prod.fst (Option.some.inj hround)
          exact hstamped a f _ _ (.proposal hat) hid (stamp_proposal hat.type)
            (hdue f rfl _ (stamp_proposal hat.type))
      | sendAcceptMessage f =>
          have hid : f.proposalId = f₀.proposalId := congrArg Prod.fst (Option.some.inj hround)
          have hle : ts ≤ f.proposeTime + C.boundedMessageDelay + 10 := hdue
          rcases hj with ⟨g, hg, t, rfl⟩
          obtain ⟨-, rfl⟩ := proposed_unique hr hd ((sound hr).handledProposal hg).mem hf₀ hid
          refine hle.trans ?_
          rw [Cluster.turnaround]
          dsimp only
          lia
      | doReceivedAcceptMessage f =>
          have hat : AcceptAt w.traces a f := hj
          have hid : f.proposalId = f₀.proposalId := congrArg Prod.fst (Option.some.inj hround)
          exact hstamped a f _ _ (.accept hat) hid (stamp_accept hat.type)
            (hdue f rfl _ (stamp_accept hat.type))
      | doReceivedDecisionMessage f =>
          have hat : DecisionAt C w.traces a f := hj
          have hid : f.proposalId = f₀.proposalId := congrArg Prod.fst (Option.some.inj hround)
          exact hstamped a f _ _ (.decision hat) hid (stamp_decision hat.type)
            (hdue f rfl _ (stamp_decision hat.type))
      | doReceivedDecisionAckMessage f =>
          exact hacked f ts hack (congrArg Prod.fst (Option.some.inj hround))
      | _ => cases hround
  | _ => cases hadv

/-- As long as the leader holds a proposal, something is due within its turnaround. -/
theorem due_of_outstanding (ha : C.async = true) (hn : 2 ≤ C.numNodes)
    (hr : Reachable C (timely C) w) (hd : w.QueuedDistinct)
    (hl : (w.servers Cluster.leader).proposals.lookup y = some p) :
    ∃ e ∈ w.events, e.ts ≤ p.proposeTime + C.turnaround := by
  have hsupport := supported ha hn (fun _ _ => lossLeavesMajority_of_timely) hr y p hl
  rcases advances_of_support hn hr hl hsupport with ⟨e, he, hadv⟩
  rcases ((ledger hr Cluster.leader).outstanding y p hl).origin with ⟨f₀, hf₀, hkey, htime⟩
  have hid : p.proposalId = f₀.proposalId := (congrArg Prod.fst hkey).symm
  rw [Proposal.round, hid] at hadv
  exact ⟨e, he, htime ▸ advancing_due hr hd hf₀ he hadv⟩

end Rounds

/-! ## The leader goes on -/

/-- The propose loop of the leader is taken up again by the time `T`: a call of it is due, or the entry
that the leader holds has had its turnaround. -/
def Ready (C : Cluster) (T : Time) (calls : List Event) (s : Server) : Prop :=
  (∃ e ∈ calls, e.ts ≤ T) ∨
    ∃ x q, s.proposals.lookup x = some q ∧ q.proposeTime + C.turnaround ≤ T

/-- What a call of the leader does to its queue: it grows, or its front is proposed. -/
inductive Progressed (C : Cluster) (now T : Time) (queue : List Proposal) (calls : List Event)
    (s : Server) : Prop
  | kept : queue <+: s.waitingProposals → Ready C T calls s → Progressed C now T queue calls s
  | proposed (q : Proposal) : queue = q :: s.waitingProposals →
      proposalFrame Cluster.leader now q ∈ s.trace.proposed → now ≤ T →
      Ready C (T + C.turnaround) calls s → Progressed C now T queue calls s

section Leader

variable {C : Cluster} {now T : Time} {task : Task} {s : Server} {calls calls' l : List Event}

theorem Ready.of_same {s' : Server} (h : Ready C T calls s) (hcalls : ∀ e ∈ calls, e ∈ calls')
    (hproposals : s'.proposals = s.proposals) : Ready C T calls' s' := by
  rcases h with ⟨e, he, hle⟩ | ⟨x, q, hl, hle⟩
  · exact .inl ⟨e, hcalls e he, hle⟩
  · exact .inr ⟨x, q, hproposals ▸ hl, hle⟩

/-- An entry is replaced by one that was proposed at the same time. -/
theorem Ready.putProposal {s' : Server} (h : Ready C T calls s) (hcalls : ∀ e ∈ calls, e ∈ calls')
    {x : ℕ} {p found : Proposal} (hl : s.proposals.lookup x = some found)
    (hproposals : s'.proposals = s.proposals.insert x p)
    (htime : p.proposeTime = found.proposeTime) : Ready C T calls' s' := by
  rcases h with ⟨e, he, hle⟩ | ⟨y, q, hq, hle⟩
  · exact .inl ⟨e, hcalls e he, hle⟩
  · by_cases hy : y = x
    · subst hy
      obtain rfl : found = q := Option.some.inj (hl.symm.trans hq)
      exact .inr ⟨y, p, by rw [hproposals, AList.lookup_insert], htime ▸ hle⟩
    · exact .inr ⟨y, q, by rw [hproposals, AList.lookup_insert_ne hy]; exact hq, hle⟩

/-- Before the stop the leader proposes what there is, or polls. -/
theorem Progressed.doAsyncPropose (hnow : now < C.stopTime) (hT : now ≤ T)
    (hw : s.waitingProposals ≠ []) :
    Progressed C now T s.waitingProposals calls' (s.doAsyncPropose C Cluster.leader now).server := by
  rcases Server.doAsyncPropose_cases C Cluster.leader now s with
    ⟨hlate, -⟩ | ⟨-, hnil, -⟩ | ⟨-, p, rest, hp, h⟩
  · exact absurd hnow (not_lt.2 hlate)
  · exact absurd hnil hw
  · refine .proposed p ?_ ?_ hT ?_
    · rw [h]
      exact hp
    · rw [h]
      simp [Server.record]
    · refine .inr ⟨p.proposalId, p.propose Cluster.leader now, ?_, Nat.add_le_add_right hT _⟩
      rw [h]
      simp [Server.record, Server.putProposal]

/-- A call of the loop that runs was the one that is due. -/
theorem Ready.now_le (h : Ready C T calls s) (hphase : Phase C calls s)
    (hcalls : calls.Perm (⟨now, .server Cluster.leader task⟩ :: l)) : now ≤ T := by
  rcases (hphase.perm hcalls).of_popped with ⟨rfl, hhand, -⟩
  rcases h with ⟨e, he, hle⟩ | ⟨x, q, hl, -⟩
  · rcases List.mem_singleton.1 (hcalls.mem_iff.1 he) with rfl
    exact hle
  · rw [hhand.lookup_none] at hl
    cases hl

/-- Each call of the leader that is due in time keeps what it has promised. -/
theorem Ready.run (h : Ready C T calls s) (ha : C.async = true)
    (hphase : Phase C calls s) (hled : Ledger Cluster.leader s) (hw : s.waitingProposals ≠ [])
    (hcalls : calls.Perm (callsIn Cluster.leader Task.isPollLoop
      [⟨now, .server Cluster.leader task⟩] ++ l)) (hmode : task ≠ .doSyncPropose)
    (hstop : T < C.stopTime)
    (hround : ∀ x q, s.proposals.lookup x = some q → now ≤ q.proposeTime + C.turnaround) :
    Progressed C now T s.waitingProposals (l ++ callsIn Cluster.leader Task.isPollLoop
        (Server.newTasks C Cluster.leader now task s))
      (Server.run C Cluster.leader now task s).server := by
  -- A call that is none of the loop leaves the one that is due.
  have hkeep : task.isPollLoop = false → ∀ new, ∀ e ∈ calls, e ∈ l ++ new := by
    intro hloop new e he
    have hmem := hcalls.mem_iff.1 he
    simp only [callsIn_server, hloop] at hmem
    exact List.mem_append_left _ hmem
  cases task with
  | startApplication =>
      refine .kept List.prefix_rfl (.inl ⟨⟨now, .server Cluster.leader .startProposerThread⟩, ?_, ?_⟩)
      · simp [Server.newTasks, Task.isPollLoop]
      · exact h.now_le hphase hcalls
  | startProposerThread =>
      rcases Server.startProposerThread_cases C Cluster.leader now s with
        ⟨-, -, heq⟩ | ⟨-, hno, -⟩ | ⟨hno, -⟩
      · have hT := h.now_le hphase hcalls
        simp only [Server.run, heq]
        exact Progressed.doAsyncPropose (s := { s.record .proposerStarted with
          leaderState := some .waitingRequest }) (hT.trans_lt hstop) hT hw
      · exact absurd rfl hno
      · cases ha.symm.trans hno
  | doSyncPropose =>
      exact absurd rfl hmode
  | doAsyncPropose =>
      have hT := h.now_le hphase hcalls
      exact Progressed.doAsyncPropose (hT.trans_lt hstop) hT hw
  | createProposalFromRequest r =>
      rcases Server.createProposalFromRequest_cases Cluster.leader now r s with
        ⟨-, heq⟩ | ⟨-, heq⟩
      · simp only [Server.run, heq]
        exact .kept List.prefix_rfl (h.of_same (hkeep rfl _) rfl)
      · simp only [Server.run, heq]
        exact .kept (List.prefix_append _ _) (h.of_same (hkeep rfl _) rfl)
  | doReceivedAcceptMessage f =>
      rcases Server.doReceivedAcceptMessage_cases C Cluster.leader now f s with
        ⟨-, heq⟩ | ⟨found, -, hl, ⟨-, heq⟩ | ⟨-, -, -, heq⟩ | ⟨-, -, hno, -⟩⟩
      · simp only [Server.run, heq]
        exact .kept List.prefix_rfl (h.of_same (hkeep rfl _) rfl)
      · simp only [Server.run, heq]
        exact .kept List.prefix_rfl (h.putProposal (hkeep rfl _) hl rfl rfl)
      · simp only [Server.run, heq]
        exact .kept List.prefix_rfl (h.putProposal (hkeep rfl _) hl rfl rfl)
      · cases ha.symm.trans hno
  | doReceivedDecisionAckMessage f =>
      rcases Server.doReceivedDecisionAckMessage_cases C Cluster.leader now f s with
        ⟨-, heq⟩ | ⟨found, -, hl, ⟨-, heq⟩ | ⟨-, -, heq⟩⟩
      · simp only [Server.run, heq]
        exact .kept List.prefix_rfl (h.of_same (hkeep rfl _) rfl)
      · simp only [Server.run, heq]
        exact .kept List.prefix_rfl (h.putProposal (hkeep rfl _) hl rfl rfl)
      · -- A majority has logged the decision in time.
        have hT : now ≤ T := by
          rcases h with ⟨e, he, -⟩ | ⟨x, q, hq, hle⟩
          · have hconfirm : calls = [] ∧ Hand Cluster.leader (((s.record
                (.handledDecisionAck f)).pushDecided (found.confirm now)).eraseProposal
                f.proposalId) [] ∧ _ := hphase.confirm hl (hled.outstanding _ _ hl).node
            rw [hconfirm.1] at he
            cases he
          · exact (hround x q hq).trans hle
        simp only [Server.run, heq]
        exact Progressed.doAsyncPropose (s := ((s.record (.handledDecisionAck f)).pushDecided
          (found.confirm now)).eraseProposal f.proposalId) (hT.trans_lt hstop) hT hw
  | _ =>
      exact .kept List.prefix_rfl (h.of_same (hkeep rfl _) rfl)

end Leader

/-! ## Runs -/

section Runs

variable {C : Cluster} {w w' : World} {c : Choice} {F : Time} {j a : ℕ} {p : Proposal}

/-- The request waits, and is proposed after a turnaround for each of those in front of it. -/
inductive Promised (C : Cluster) (F : Time) (j : ℕ) (p : Proposal) (w : World) : Prop
  | ahead (m k : ℕ) : m + k = j → (w.servers Cluster.leader).waitingProposals[k]? = some p →
      Ready C (F + m * C.turnaround) (w.calls Cluster.leader Task.isPollLoop)
        (w.servers Cluster.leader) → Promised C F j p w
  | done (f : PaxosFrame) : f ∈ (w.traces Cluster.leader).proposed → f.key = p.key →
      f.proposeTime ≤ F + j * C.turnaround → Promised C F j p w

/-- What does not touch the leader keeps the promise. -/
theorem Promised.of_same (h : Promised C F j p w)
    (hcalls : (w.calls Cluster.leader Task.isPollLoop).Perm
      (w'.calls Cluster.leader Task.isPollLoop))
    (hserver : w'.servers Cluster.leader = w.servers Cluster.leader) : Promised C F j p w' := by
  have htrace : w'.traces Cluster.leader = w.traces Cluster.leader := congrArg Server.trace hserver
  cases h with
  | ahead m k hmk hp hready =>
      exact .ahead m k hmk (hserver ▸ hp)
        (hready.of_same (fun e he => hcalls.mem_iff.1 he) (by rw [hserver]))
  | done f hf hkey htime =>
      exact .done f (htrace ▸ hf) hkey htime

theorem Promised.run (h : Promised C F j p w) (ha : C.async = true) (hn : 2 ≤ C.numNodes)
    (hr : Reachable C (timely C) w) (hd : w.QueuedDistinct)
    (hstop : F + j * C.turnaround < C.stopTime) {now : Time} {task : Task} {rest : List Event}
    (hs : StepSpec C c w w' ⟨now, .server Cluster.leader task⟩ rest) : Promised C F j p w' := by
  have hserver : w'.servers Cluster.leader =
      (Server.run C Cluster.leader now task (w.servers Cluster.leader)).server := by
    simp [hs.servers, serversAfter]
  cases h with
  | done f hf hkey htime =>
      refine .done f ?_ hkey htime
      rw [hs.traces_server, Server.run_trace, Trace.proposed, List.filterMap_append]
      exact List.mem_append_left _ hf
  | ahead m k hmk hp hready =>
      rcases hs.calls_run (g := Task.isPollLoop) with ⟨l, hperm, hcalls⟩
      have hlead : Cluster.leader < C.numNodes := Nat.lt_of_lt_of_le (by decide) hn
      have hmode : task ≠ .doSyncPropose := by
        rintro rfl
        cases (ofMode hr _ (mem_of_pop hs.pop) : C.async = false).symm.trans ha
      have hne : (w.servers Cluster.leader).waitingProposals ≠ [] := by
        intro hnil
        rw [hnil] at hp
        cases hp
      have hmj : m * C.turnaround ≤ j * C.turnaround :=
        Nat.mul_le_mul_right _ (hmk ▸ Nat.le_add_right _ _)
      -- Something of the round of an entry is due, and it is not due before this call.
      have hround : ∀ x q, (w.servers Cluster.leader).proposals.lookup x = some q →
          now ≤ q.proposeTime + C.turnaround := by
        intro x q hq
        rcases due_of_outstanding ha hn hr hd hq with ⟨e, he, hle⟩
        exact (pop_le hs.pop he).trans hle
      have hgo := hready.run ha (phase ha hlead hr) (ledger hr _) hne hperm hmode (by lia) hround
      rw [← hcalls, ← hserver] at hgo
      cases hgo with
      | kept hpre hready' =>
          refine .ahead m k hmk ?_ hready'
          rcases hpre with ⟨l', hl'⟩
          rw [← hl', List.getElem?_append_left (List.getElem?_eq_some_iff.1 hp).1]
          exact hp
      | proposed q hq hf hle hready' =>
          rw [hq] at hp
          cases k with
          | zero =>
              obtain rfl : q = p := Option.some.inj hp
              exact .done _ hf rfl (hle.trans (Nat.add_le_add_left hmj _))
          | succ k =>
              refine .ahead (m + 1) k (by omega) hp ?_
              rw [Nat.succ_mul, ← Nat.add_assoc]
              exact hready'

/-- A call of the loop is due at the start or within a microsecond. -/
theorem loop_due {G : World → Choice → Prop} (hr : Reachable C G w) :
    ∀ e ∈ w.events, e.action.isCall Cluster.leader Task.isPollLoop = true →
      e.ts ≤ max C.startTime (w.now + 1000) := by
  refine event_invariant (Q := fun _ => True)
    (P := fun w e => e.action.isCall Cluster.leader Task.isPollLoop = true →
      e.ts ≤ max C.startTime (w.now + 1000)) (fun _ _ _ _ _ _ => trivial) ?_ ?_ ?_ hr trivial
  · intro e he hcall
    rcases mem_init_events he with ⟨k, -, rfl⟩ | ⟨i, -, rfl⟩ | ⟨i, -, rfl⟩
    · cases hcall
    · exact le_max_left _ _
    · simp [Callback.isCall, Task.isPollLoop] at hcall
  · intro w c w' e hr hstep hold hcall
    have hnow := step_now_le hr hstep
    exact (hold hcall).trans (max_le_max_left _ (Nat.add_le_add_right hnow _))
  · intro w c w' e rest hr _ _ _ _ _ hs x hx hcall
    rcases mem_emitted_call own_isPollLoop hx hcall with ⟨task, he, hnew⟩
    refine le_max_of_le_right ?_
    rw [hs.now]
    cases Server.schedules_of_mem_newTasks C Cluster.leader e.ts hnew with
    | boot ht => exact Nat.le_add_right _ _
    | poll => exact le_rfl
    | _ => simp [Callback.isCall, Task.isPollLoop] at hcall

/-- The leader with a request in its queue goes on within a microsecond, or after its round. -/
theorem ready_of_waiting {G : World → Choice → Prop} (ha : C.async = true)
    (hr : Reachable C G w) (hnow : w.now < C.stopTime)
    (hp : (w.servers Cluster.leader).waitingProposals[j]? = some p) :
    Ready C (w.now + max 1000 C.turnaround) (w.calls Cluster.leader Task.isPollLoop)
      (w.servers Cluster.leader) := by
  rcases started_of_waiting hr hp with ⟨hlead, hstart⟩
  have hcall : ∀ e, w.calls Cluster.leader Task.isPollLoop = [e] →
      ∃ e ∈ w.calls Cluster.leader Task.isPollLoop, e.ts ≤ w.now + max 1000 C.turnaround := by
    intro e hc
    have hmem : e ∈ w.calls Cluster.leader Task.isPollLoop := hc ▸ List.mem_singleton_self e
    have hdue := List.mem_filter.1 hmem
    have hle := loop_due hr e hdue.1 hdue.2
    exact ⟨e, hmem, by lia⟩
  cases phase ha hlead hr with
  | before ts task htask hc hhand hlate hst => exact .inl (hcall _ hc)
  | polling ts hc hhand hlate => exact .inl (hcall _ hc)
  | waiting q hc hhand hlate =>
      have hq : q ∈ (w.servers Cluster.leader).outstanding := by simp [hhand.entries]
      rcases AList.mem_values.1 hq with ⟨y, hl⟩
      rcases ((ledger hr _).outstanding y q hl).origin with ⟨f, hf, -, htime⟩
      rcases traces_at hr _ _ (Trace.mem_proposed.1 hf) with ⟨t, ht, hat⟩
      have hsoon : q.proposeTime ≤ w.now := by
        rw [← htime, hat.2]
        exact ht
      exact .inr ⟨y, q, hl, by lia⟩
  | ended hc hhand hlate =>
      rcases hlate with ⟨r, hmem, hl⟩
      rcases traces_at hr _ r hmem with ⟨t, ht, hat⟩
      exact absurd (hl.le hat) (by lia)

theorem promised (ha : C.async = true) (hn : 2 ≤ C.numNodes) (hr : Reachable C (timely C) w)
    (hp : (w.servers Cluster.leader).waitingProposals[j]? = some p)
    (hstop : w.now + max 1000 C.turnaround + j * C.turnaround < C.stopTime)
    (hreach : Reaches (program C) (timely C) w w') (hd : w'.QueuedDistinct) :
    Promised C (w.now + max 1000 C.turnaround) j p w' := by
  refine Reaches.invariant hr
    (P := fun w' => w'.QueuedDistinct → Promised C (w.now + max 1000 C.turnaround) j p w') ?_ ?_
    hreach hd
  · intro _
    refine .ahead 0 j (Nat.zero_add j) hp ?_
    rw [Nat.zero_mul, Nat.add_zero]
    exact ready_of_waiting ha hr (by lia) hp
  · intro w₁ c w₂ hr₁ h hg hstep hd₂
    have hd₁ := QueuedDistinct.of_step hstep hd₂
    rcases step_spec hstep with ⟨⟨now, action⟩, rest, hs⟩
    cases action with
    | server i task =>
        by_cases hi : i = Cluster.leader
        · subst hi
          exact (h hd₁).run ha hn hr₁ hd₁ hstop hs
        · refine (h hd₁).of_same (hs.calls_quiet own_isPollLoop fun task => by simp [hi]) ?_
          simp [hs.servers, serversAfter, Function.update_of_ne (Ne.symm hi)]
    | clientStart k =>
        exact (h hd₁).of_same (hs.calls_quiet own_isPollLoop fun _ => by simp)
          (by simp [hs.servers, serversAfter])
    | sendRequest k =>
        exact (h hd₁).of_same (hs.calls_quiet own_isPollLoop fun _ => by simp)
          (by simp [hs.servers, serversAfter])
    | transit packet hop =>
        exact (h hd₁).of_same (hs.calls_quiet own_isPollLoop fun _ => by simp)
          (by simp [hs.servers, serversAfter])

/-- When the time of the promise has passed, the request has been proposed. -/
theorem Promised.proposed (h : Promised C F j p w) (ha : C.async = true) (hn : 2 ≤ C.numNodes)
    (hr : Reachable C (timely C) w) (hd : w.QueuedDistinct)
    (hpast : w.Past (F + j * C.turnaround)) :
    ∃ f ∈ (w.traces Cluster.leader).proposed, f.key = p.key ∧
      f.proposeTime ≤ F + j * C.turnaround := by
  cases h with
  | done f hf hkey htime => exact ⟨f, hf, hkey, htime⟩
  | ahead m k hmk hp hready =>
      have hmj : m * C.turnaround ≤ j * C.turnaround :=
        Nat.mul_le_mul_right _ (hmk ▸ Nat.le_add_right _ _)
      have hdue : ∃ e ∈ w.events, e.ts ≤ F + m * C.turnaround := by
        rcases hready with ⟨e, he, hle⟩ | ⟨x, q, hl, hle⟩
        · exact ⟨e, (mem_callsIn.1 he).1, hle⟩
        · rcases due_of_outstanding ha hn hr hd hl with ⟨e, he, hsoon⟩
          exact ⟨e, he, hsoon.trans hle⟩
      rcases hdue with ⟨e, he, hle⟩
      exact absurd (hpast e he) (by lia)

/-- After its turnaround a proposal is not outstanding any more. -/
theorem lookup_eq_none_of_turnaround (ha : C.async = true) (hn : 2 ≤ C.numNodes)
    (hr : Reachable C (timely C) w) (hd : w.QueuedDistinct) {f : PaxosFrame}
    (hf : f ∈ (w.traces Cluster.leader).proposed)
    (hpast : w.Past (f.proposeTime + C.turnaround)) :
    (w.servers Cluster.leader).proposals.lookup f.proposalId = none := by
  refine Option.eq_none_iff_forall_not_mem.2 ?_
  intro q hl
  have hout := (ledger hr Cluster.leader).outstanding _ q hl
  rcases hout.origin with ⟨g, hg, hkey, htime⟩
  have hid : g.proposalId = f.proposalId := (congrArg Prod.fst hkey).trans hout.id
  obtain ⟨-, rfl⟩ := proposed_unique hr hd hg hf hid
  rcases due_of_outstanding ha hn hr hd hl with ⟨e, he, hle⟩
  rw [← htime] at hle
  exact absurd (hpast e he) (not_lt.2 hle)

/-- After its turnaround every server has decided a proposal. -/
theorem decided_of_turnaround (ha : C.async = true) (hn : 2 ≤ C.numNodes)
    (hr : Reachable C (timely C) w) (hd : w.QueuedDistinct) {f : PaxosFrame}
    (hf : f ∈ (w.traces Cluster.leader).proposed)
    (hpast : w.Past (f.proposeTime + C.turnaround)) (hlt : a < C.numNodes) :
    ∃ q ∈ (w.traces a).decided, q.key = f.key ∧ q.nodeId = Cluster.leader := by
  rcases own_decided hr hd hf (lookup_eq_none_of_turnaround ha hn hr hd hf hpast) with
    ⟨q, hq, hkey, hnode⟩
  by_cases hleader : a = Cluster.leader
  · exact ⟨q, hleader ▸ hq, hkey, hnode⟩
  · rcases decided_by_decision hr hd hq with ⟨d, hdec, hdkey, -⟩
    rw [hnode] at hdec
    have hid : d.proposalId = f.proposalId := congrArg Prod.fst (hdkey.trans hkey)
    have hwithin := decision_within hr hd hf hdec hid
    have hclear : w.Clear a (PaxosFrame.decisionTest Cluster.leader d.proposalId) := by
      refine decision_clear hr hd hdec hpast ?_
      rw [Cluster.turnaround]
      lia
    have hlearned := learned_of_clear noLossTo_of_timely hr hclear hdec rfl hlt hleader
    exact ⟨learnedProposal d, mem_decided_of_learned hr hd hdec hlearned, hdkey.trans hkey,
      ((sound hr).decision_origin hdec).2.1⟩

/-- In a timely network every server has decided the request at position `j` of the leader's queue
after a microsecond or a round that is under way, and `j + 1` turnarounds. -/
theorem async_response (ha : C.async = true) (hn : 2 ≤ C.numNodes)
    (hr : Reachable C (timely C) w)
    (hp : (w.servers Cluster.leader).waitingProposals[j]? = some p)
    (hstop : w.now + max 1000 C.turnaround + j * C.turnaround < C.stopTime)
    (hreach : Reaches (program C) (timely C) w w') (hd : w'.DistinctTimestamps)
    (hpast : w'.Past (w.now + max 1000 C.turnaround + (j + 1) * C.turnaround))
    (hlt : a < C.numNodes) :
    ∃ q ∈ (w'.servers a).decidedLog, q.key = p.key ∧ q.nodeId = Cluster.leader := by
  have hr' : Reachable C (timely C) w' := hr.trans hreach
  have hdist := queuedDistinct noRequestCopies_of_timely hr' hd
  have hsoon : w'.Past (w.now + max 1000 C.turnaround + j * C.turnaround) := by
    intro e he
    have hlate := hpast e he
    rw [Nat.succ_mul] at hlate
    lia
  rcases (promised ha hn hr hp hstop hreach hdist).proposed ha hn hr' hdist hsoon with
    ⟨f, hf, hkey, htime⟩
  have hdone : w'.Past (f.proposeTime + C.turnaround) := by
    intro e he
    have hlate := hpast e he
    rw [Nat.succ_mul] at hlate
    lia
  rcases decided_of_turnaround ha hn hr' hdist hf hdone hlt with ⟨q, hq, hqkey, hnode⟩
  exact ⟨q, (decidedLog_perm hr' a).mem_iff.2 hq, hqkey.trans hkey, hnode⟩

/-- Two requests wait for the leader at 27 ns: by 1127 ns everybody has decided the second one. -/
theorem async_response_three_servers :
    ∃ w w' : World, w.now = 27 ∧ (∀ e ∈ w'.events, 1127 < e.ts) ∧
      ∃ p, (w.servers Cluster.leader).waitingProposals[1]? = some p ∧ ∀ a : ℕ, a < 3 →
        ∃ q ∈ (w'.servers a).decidedLog, q.key = p.key ∧ q.nodeId = Cluster.leader := by
  rcases exists_reaches_of_runInputs
    (S := program (.oneClient 3 (by decide) true 0 10 9000 20 5 0))
    (G := timely (.oneClient 3 (by decide) true 0 10 9000 20 5 0))
    (List.replicate 23 ({} : Choice)) (List.replicate 37 ({} : Choice))
    (fun w w' => decide (w.now = 27 ∧ (w.servers Cluster.leader).waitingProposals.length = 2 ∧
      ∀ e ∈ w'.events, 1127 < e.ts)) (by decide +kernel)
    with ⟨w, w', hr, hreach, htest⟩
  rcases of_decide_eq_true htest with ⟨hnow, hlength, hpast⟩
  rcases List.length_eq_two.1 hlength with ⟨p₀, p, hp⟩
  refine ⟨w, w', hnow, hpast, p, by rw [hp]; rfl, ?_⟩
  intro a hlt
  refine async_response (j := 1) rfl (by decide) hr (by rw [hp]; rfl) (by rw [hnow]; decide) hreach
    (distinctTimestamps rfl (by decide) (hr.trans hreach)) ?_ hlt
  rw [hnow]
  exact hpast

end Runs

end SyncPaxos
