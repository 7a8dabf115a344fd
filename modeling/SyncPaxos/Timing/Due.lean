import SyncPaxos.Run.Handling
import SyncPaxos.Run.Stamps

/-!
# Due — deadlines of frames and handlers

In a timely network a frame that carries its time of sending is handled within the delay bound.
With the ten nanoseconds that an acceptor takes to answer, an ACCEPT is sent within
`delay + 10` and a DECISION within `2 * delay + 10` of the PROPOSAL, and each frame says so itself.
-/

namespace SyncPaxos

open DiscreteEvent

section Due

variable (C : Cluster)

/-- The latest time at which a pending event is due. -/
def Due (e : Event) : Prop :=
  match e.action with
  | .transit packet _ =>
      packet.isRequest = false → e.ts ≤ packet.sentAt + C.boundedMessageDelay
  | .server _ (.sendAcceptMessage f) => e.ts ≤ f.proposeTime + C.boundedMessageDelay + 10
  | .server _ task =>
      ∀ f, task.received? = some f → ∀ t, f.stamp? = some t → e.ts ≤ t + C.boundedMessageDelay
  | _ => True

/-- The latest time that a frame on record may carry. -/
def Record.InTime : Record → Prop
  | .acceptSent f => f.acceptTime ≤ f.proposeTime + C.boundedMessageDelay + 10
  | .decision f => f.decisionTime ≤ f.proposeTime + 2 * C.boundedMessageDelay + 10
  | _ => True

structure Punctual (w : World) : Prop where
  events : ∀ e ∈ w.events, Due C e
  records : ∀ i, ∀ r ∈ w.traces i, r.InTime C

end Due

section Step

variable {C : Cluster} {w w' : World} {c : Choice} {e x : Event} {rest : List Event}

theorem stamp_proposal {f : PaxosFrame} (h : f.messageType = PaxosFrame.PROPOSAL) :
    f.stamp? = some f.proposeTime := by
  have hyes : f.isProposal = true := by simp [PaxosFrame.isProposal, h]
  simp [PaxosFrame.stamp?, hyes]

theorem stamp_accept {f : PaxosFrame} (h : f.messageType = PaxosFrame.ACCEPT) :
    f.stamp? = some f.acceptTime := by
  have hno : f.isProposal = false := by rw [PaxosFrame.isProposal, h]; rfl
  have hyes : f.isAccept = true := by simp [PaxosFrame.isAccept, h]
  simp [PaxosFrame.stamp?, hno, hyes]

theorem stamp_decision {f : PaxosFrame} (h : f.messageType = PaxosFrame.DECISION) :
    f.stamp? = some f.decisionTime := by
  have hno : f.isProposal = false := by rw [PaxosFrame.isProposal, h]; rfl
  have hno' : f.isAccept = false := by rw [PaxosFrame.isAccept, h]; rfl
  have hyes : f.isDecision = true := by simp [PaxosFrame.isDecision, h]
  simp [PaxosFrame.stamp?, hno, hno', hyes]

/-- What a call of a server schedules is due in time. -/
theorem due_run {i : ℕ} {now : Time} {task : Task} {s : Server}
    (hj : Justified C w.traces w.sent (.server i task)) (hdue : Due C ⟨now, .server i task⟩)
    (hx : x ∈ (Server.run C i now task s).events) : Due C x := by
  rw [Server.run_events] at hx
  rcases List.mem_append.1 hx with hx | hx
  · rcases List.mem_flatMap.1 hx with ⟨r, -, hr⟩
    rcases mem_sendsOf hr with ⟨f, dst, rfl⟩
    intro _
    exact Nat.le_add_right _ _
  · cases Server.schedules_of_mem_newTasks C i now hx with
    | boot ht =>
        rcases ht with rfl | rfl | rfl <;> intro f hf <;> cases hf
    | firstSlot =>
        intro f hf
        cases hf
    | nextSlot =>
        intro f hf
        cases hf
    | poll =>
        intro f hf
        cases hf
    | @answer _ f =>
        have htype : f.messageType = PaxosFrame.PROPOSAL := ProposalAt.type hj
        have hle := hdue f rfl _ (stamp_proposal htype)
        exact Nat.add_le_add_right hle 10

/-- What a step schedules is due in time. -/
theorem due_emitted (hG : timely C w c) (hr : Sound C w) (hs : StepSpec C c w w' e rest)
    (hstamp : ∀ packet ∈ w.sent, ∀ f, packet.paxos? = some f → ∀ t, f.stamp? = some t →
      packet.sentAt = t)
    (hdue : Due C e) (hx : x ∈ emitted C c w e) : Due C x := by
  have hj := hr.events e (mem_of_pop hs.pop)
  rcases e with ⟨now, action⟩
  have hclient : ∀ k, x ∈ ((w.clients k).sendRequest C k now c.value).2 → Due C x := by
    intro k hx
    rcases mem_sendRequest hx with rfl | rfl
    · intro hreq
      cases hreq
    · trivial
  cases action with
  | server i task =>
      exact due_run hj hdue hx
  | clientStart k =>
      exact hclient k hx
  | sendRequest k =>
      exact hclient k hx
  | transit packet hop =>
      have hrule := onTransit_of_pop hs.pop hG
      cases hf : c.fate with
      | arrive =>
          simp only [emitted, hf] at hx
          rcases mem_arrivalEvents hx with ⟨r, -, -, -, rfl⟩ | ⟨f, task, hpay, -, hrecv, rfl⟩
          · intro f hf
            cases hf
          · -- The handler runs at once, and the frame has not been on its way for too long.
            have hreq : packet.isRequest = false := by rw [Packet.isRequest, hpay]
            have hpaxos : packet.paxos? = some f := by rw [Packet.paxos?, hpay]
            have hle := hdue hreq
            have hlate : ∀ t, f.stamp? = some t → now ≤ t + C.boundedMessageDelay := by
              intro t ht
              rw [← hstamp packet hj.1 f hpaxos t ht]
              exact hle
            cases task <;> simp at hrecv <;> subst hrecv <;> intro f' hf' <;> cases hf' <;>
              exact hlate
      | forward d =>
          simp only [emitted, hf, List.mem_singleton] at hx
          subst hx
          intro hreq
          have hwithin := (hrule.2 hreq).2
          rw [hf] at hwithin
          simpa [Fate.within] using hwithin
      | duplicate d₁ d₂ =>
          have hcopy := hrule.1
          rw [hf] at hcopy
          cases hcopy
      | lose =>
          simp [emitted, hf] at hx

/-- The lines that a call adds are in time. -/
theorem inTime_newRecords {i : ℕ} {now : Time} {task : Task} {s : Server}
    (hj : Justified C w.traces w.sent (.server i task)) (hdue : Due C ⟨now, .server i task⟩)
    (hold : ∀ a, ∀ r ∈ w.traces a, r.InTime C) :
    ∀ r ∈ Server.newRecords C i now task s, r.InTime C := by
  have hasync : ∀ r ∈ s.asyncProposeRecords C i now, r.InTime C := by
    intro r hr
    rcases mem_asyncProposeRecords hr with rfl | ⟨p, rfl⟩ <;> trivial
  intro r hr
  cases task with
  | startProposerThread =>
      rcases List.mem_cons.1 hr with rfl | hr
      · trivial
      · split at hr
        · exact hasync r hr
        · cases hr
  | createProposalFromRequest f =>
      simp only [Server.newRecords] at hr
      split at hr
      · cases hr
      · rcases List.mem_singleton.1 hr with rfl
        trivial
  | doSyncPropose =>
      rcases List.mem_cons.1 hr with rfl | hr
      · trivial
      · split at hr
        · cases hr
        · rcases mem_proposeRecords hr with ⟨p, rfl⟩
          trivial
  | doAsyncPropose =>
      exact hasync r hr
  | sendAcceptMessage f =>
      rcases List.mem_singleton.1 hr with rfl
      exact hdue
  | doReceivedAcceptMessage f =>
      rcases List.mem_cons.1 hr with rfl | hr
      · trivial
      · split at hr
        · cases hr
        · rcases List.mem_cons.1 hr with rfl | hr
          · -- The vote that completes the majority was sent in time and took one more delay.
            have hat : AcceptAt w.traces i f := hj
            have haccept : f.acceptTime ≤ f.proposeTime + C.boundedMessageDelay + 10 :=
              hold _ _ (Trace.mem_acceptsSent.1 hat.mem)
            have hnow : now ≤ f.acceptTime + C.boundedMessageDelay :=
              hdue f rfl _ (stamp_accept hat.type)
            change now ≤ f.proposeTime + 2 * C.boundedMessageDelay + 10
            lia
          · split at hr
            · cases hr
            · rcases List.mem_singleton.1 hr with rfl
              trivial
  | doReceivedProposalMessage f =>
      rcases List.mem_singleton.1 hr with rfl
      trivial
  | doReceivedDecisionMessage f =>
      simp only [Server.newRecords, List.mem_cons, List.not_mem_nil, or_false] at hr
      rcases hr with rfl | rfl <;> trivial
  | doReceivedDecisionAckMessage f =>
      rcases List.mem_cons.1 hr with rfl | hr
      · trivial
      · split at hr
        · cases hr
        · rcases List.mem_cons.1 hr with rfl | hr
          · trivial
          · exact hasync r hr
  | _ =>
      cases hr

end Step

section Runs

variable {C : Cluster} {G : World → Choice → Prop} {w : World}

theorem punctual (hG : ∀ w c, G w c → timely C w c) (hr : Reachable C G w) : Punctual C w := by
  refine Transition.Reachable.invariant (P := Punctual C) ?_ ?_ hr
  · refine ⟨?_, ?_⟩
    · intro e he
      rcases mem_init_events he with ⟨k, -, rfl⟩ | ⟨i, -, rfl⟩ | ⟨i, -, rfl⟩
      · trivial
      · intro f hf
        cases hf
      · intro f hf
        cases hf
    · intro i r hr
      cases hr
  · intro w c w' hr hw hg hstep
    rcases step_spec hstep with ⟨e, rest, hs⟩
    have hmem := mem_of_pop hs.pop
    have hdue := hw.events e hmem
    refine ⟨?_, ?_⟩
    · intro x hx
      rw [hs.events] at hx
      rcases List.mem_append.1 hx with hx | hx
      · exact hw.events x (mem_rest_of_pop hs.pop hx)
      · exact due_emitted (hG w c hg) (sound hr) hs (sent_stamp hr) hdue hx
    · intro i r hline
      rw [hs.traces] at hline
      rcases List.mem_append.1 hline with hline | hline
      · exact hw.records i r hline
      · rcases e with ⟨now, action⟩
        cases action with
        | server j task =>
            simp only [newLines] at hline
            split at hline
            · rename_i hij
              subst hij
              exact inTime_newRecords ((sound hr).events _ hmem) hdue hw.records r hline
            · cases hline
        | _ =>
            cases hline

end Runs

end SyncPaxos
