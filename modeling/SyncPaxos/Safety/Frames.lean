import SyncPaxos.Run.Handling
import SyncPaxos.Run.Turn
import SyncPaxos.Safety.Quorum

/-!
# Frames — what travels between the servers is well formed and well addressed

The handlers look a server up by a field of the frame they are given, without a check, and pass on
frames they have received; a DECISION_ACK even carries the acker where the others carry the
proposer.  That this goes well is a property of all frames in flight at once: each of them is one
that its sender's record accounts for (`FrameAt`), and whoever it names is a server.

The two branches for an unknown proposal are not dead, for answers still come in when a majority
has been counted.  But then the id is one that the server has decided (`Settled`).
-/

namespace SyncPaxos

open DiscreteEvent Transition

/-! ## Frames in flight -/

section InFlight

variable {C : Cluster} {G : World → Choice → Prop} {w w' : World} {c : Choice} {i : ℕ}

/-- One of the four message types. -/
def PaxosFrame.Known (f : PaxosFrame) : Prop :=
  f.messageType = PaxosFrame.PROPOSAL ∨ f.messageType = PaxosFrame.ACCEPT ∨
    f.messageType = PaxosFrame.DECISION ∨ f.messageType = PaxosFrame.DECISION_ACK

theorem FrameAt.known {h : ℕ → Trace} {a : ℕ} {f : PaxosFrame} {src : App}
    (hf : FrameAt C h a f src) : f.Known := by
  cases hf with
  | proposal hp =>
      exact .inl hp.type
  | accept ha =>
      exact .inr (.inl ha.type)
  | decision hd =>
      exact .inr (.inr (.inl hd.type))
  | decisionAck hk =>
      exact .inr (.inr (.inr hk.type))

/-- Whoever a frame names as its proposer, or as its sender, is a server. -/
theorem proposerId_lt (hr : Reachable C G w) {a : ℕ} {f : PaxosFrame} {src : App}
    (hf : FrameAt C w.traces a f src) : f.proposerId < C.numNodes := by
  have hline : ∀ {r : Record}, r ∈ w.traces f.proposerId → f.proposerId < C.numNodes :=
    fun h => lt_of_mem_trace hr h
  cases hf with
  | proposal hp =>
      exact hline (Trace.mem_proposed.1 hp.mem)
  | accept ha =>
      exact ha.eq ▸ (frameAt_origin hr (.accept ha)).1
  | decision hd =>
      exact hline (Trace.mem_decisions.1 hd.mem)
  | decisionAck hk =>
      rcases hk.from_ with ⟨d, hd, -⟩
      exact hline (Trace.mem_handledDecisions.1 hd)

theorem FrameAt.dst_of_accept {h : ℕ → Trace} {a : ℕ} {f : PaxosFrame} {src : App}
    (hf : FrameAt C h a f src) (hacc : f.isAccept = true) : a = f.proposerId :=
  (hf.acceptAt (by simpa [PaxosFrame.isAccept] using hacc)).eq

/-- The frame of a call of a server is one that reached it, or an answer to one. -/
theorem frame_proposerId_lt (hr : Reachable C G w) {task : Task}
    (hj : Justified C w.traces w.sent (.server i task)) {f : PaxosFrame}
    (hf : task.frame? = some f) : f.proposerId < C.numNodes := by
  cases task with
  | doReceivedProposalMessage g =>
      cases hf
      exact proposerId_lt hr (.proposal hj)
  | sendAcceptMessage g =>
      cases hf
      rcases hj with ⟨g', hg, t, rfl⟩
      have hat : ProposalAt C w.traces i g' := (sound hr).handledProposal hg
      have hlt := proposerId_lt hr (.proposal hat)
      exact hlt
  | doReceivedAcceptMessage g =>
      cases hf
      exact proposerId_lt hr (.accept hj)
  | doReceivedDecisionMessage g =>
      cases hf
      exact proposerId_lt hr (.decision hj)
  | doReceivedDecisionAckMessage g =>
      cases hf
      exact proposerId_lt hr (.decisionAck hj)
  | _ =>
      cases hf

theorem arrive_aborted {packet : Packet}
    (hok : ∀ f, packet.payload = .paxos f →
      ∃ e, Server.receiveMessage packet.dst w.now f = some e) :
    (w.arrive C packet).aborted = w.aborted := by
  unfold World.arrive
  cases hp : packet.payload with
  | request r =>
      simp only
      split <;> rfl
  | paxos f =>
      rcases hok f hp with ⟨e, he⟩
      simp only [he]
      split <;> rfl

/-- No packet that arrives makes a server give up. -/
theorem not_aborted (hr : Reachable C G w) : w.aborted = false := by
  refine Transition.Reachable.invariant (P := fun w => w.aborted = false) rfl ?_ hr
  intro w c w' hr hw _ hstep
  rcases step_spec hstep with ⟨e, rest, hs⟩
  have hj := (sound hr).events e (mem_of_pop hs.pop)
  have hexec : w' = { w with now := e.ts, events := rest }.exec C c e.action := by
    have hnext : World.step C c w = some w' := hstep
    rw [World.step, if_neg (by simp [hw]), hs.pop] at hnext
    exact (Option.some.inj hnext).symm
  rw [hexec]
  rcases e with ⟨now, action⟩
  cases action with
  | server i task =>
      exact hw
  | clientStart k =>
      exact hw
  | sendRequest k =>
      exact hw
  | transit packet hop =>
      cases hfate : c.fate with
      | arrive =>
          simp only [World.exec, World.transit, hfate]
          refine (arrive_aborted ?_).trans hw
          intro f hp
          -- A frame in flight has a type that the switch knows.
          have hat : FrameAt C w.traces packet.dst f packet.src := by
            have hboth := hj.2
            rw [hp] at hboth
            exact hboth
          rcases receiveMessage_of_frameAt hat now with ⟨task, htask, -⟩
          exact ⟨_, htask⟩
      | _ =>
          simp only [World.exec, World.transit, hfate]
          exact hw

end InFlight

/-! ## Unknown proposals -/

/-- What a server has proposed it still holds or has decided. -/
def Settled (i : ℕ) (s : Server) : Prop :=
  ∀ g ∈ s.trace.proposed, s.proposals.lookup g.proposalId ≠ none ∨
    ∃ p ∈ s.trace.decided, p.proposalId = g.proposalId ∧ p.nodeId = i

namespace Settled

variable {i : ℕ} {s : Server}

theorem putProposal (h : Settled i s) (x : ℕ) (p : Proposal) : Settled i (s.putProposal x p) := by
  intro g hg
  by_cases hx : g.proposalId = x
  · refine .inl ?_
    simp [Server.putProposal, hx]
  · rcases h g hg with hheld | hdecided
    · refine .inl ?_
      rw [Server.putProposal, AList.lookup_insert_ne hx]
      exact hheld
    · exact .inr hdecided

theorem record (h : Settled i s) {r : Record} (hp : r.proposed? = none) :
    Settled i (s.record r) := by
  intro g hg
  have hline : (s.record r).trace.proposed = s.trace.proposed := by
    rw [Server.record, Trace.proposed, List.filterMap_append, List.filterMap_cons, hp]
    exact List.append_nil _
  rw [hline] at hg
  rcases h g hg with hheld | ⟨p, hmem, hid⟩
  · exact .inl hheld
  · exact .inr ⟨p, mem_filterMap_mono (List.prefix_append _ _) hmem, hid⟩

theorem pushDecided (h : Settled i s) (p : Proposal) : Settled i (s.pushDecided p) := by
  have hline : Settled i (s.record (.decided p)) := h.record rfl
  exact hline

theorem decide (h : Settled i s) {p : Proposal} {x : ℕ} (hid : p.proposalId = x)
    (hnode : p.nodeId = i) : Settled i ((s.pushDecided p).eraseProposal x) := by
  intro g hg
  by_cases hx : g.proposalId = x
  · refine .inr ⟨p, ?_, hid.trans hx.symm, hnode⟩
    simp [Server.eraseProposal, Server.pushDecided]
  · rcases h.pushDecided p g hg with hheld | hdecided
    · refine .inl ?_
      rw [Server.eraseProposal, AList.lookup_erase_ne hx]
      exact hheld
    · exact .inr hdecided

end Settled

section Unknown

variable {C : Cluster} {G : World → Choice → Prop} {w : World} {i : ℕ}

theorem settled (hr : Reachable C G w) (i : ℕ) : Settled i (w.servers i) := by
  refine change_invariant (Q := fun _ => True) (P := Settled) (fun _ _ _ _ _ _ => trivial) ?_ ?_
    hr trivial i
  · intro i g hg
    cases hg
  · intro w₀ c w i now task s s' hturn _ hpre hled hs hc
    cases hc with
    | flags =>
        exact hs
    | @note _ _ r hr =>
        refine hs.record ?_
        cases r <;> first | rfl | cases hr
    | stop =>
        exact hs
    | queue =>
        exact hs.record rfl
    | @propose _ _ p rest hw =>
        have hput : Settled i ({ s with waitingProposals := rest }.putProposal p.proposalId
            (p.propose i now)) :=
          Settled.putProposal hs _ _
        intro g hg
        have hline : (s.propose i now p rest).trace.proposed =
            s.trace.proposed ++ [proposalFrame i now p] := by
          simp [Server.propose, Server.record, Server.putProposal]
        rw [hline] at hg
        rcases List.mem_append.1 hg with hg | hg
        · -- An older one is held or decided as before.
          rcases hput g hg with hheld | ⟨q, hq, hid⟩
          · exact .inl hheld
          · exact .inr ⟨q, mem_filterMap_mono (List.prefix_append _ _) hq, hid⟩
        · -- The new one is held.
          obtain rfl := List.mem_singleton.1 hg
          refine .inl ?_
          simp [Server.propose, Server.record, Server.putProposal, proposalFrame]
    | accept =>
        exact hs.record rfl
    | ignoreVote =>
        exact hs.record rfl
    | vote =>
        exact (hs.record rfl).putProposal _ _
    | elect =>
        exact ((hs.record rfl).record rfl).putProposal _ _
    | @decide _ f found _ hl =>
        have hout := hled.outstanding _ _ hl
        exact Settled.decide ((hs.record rfl).record rfl) hout.id hout.node
    | learn =>
        exact (hs.record rfl).pushDecided _
    | ignoreAck =>
        exact hs.record rfl
    | ack =>
        exact (hs.record rfl).putProposal _ _
    | @confirm _ f found _ hl =>
        have hout := hled.outstanding _ _ hl
        exact Settled.decide (hs.record rfl) hout.id hout.node

/-- An answer is to a proposal of the server that it is for. -/
theorem answer_origin (hr : Reachable C G w) {task : Task} {f : PaxosFrame}
    (hj : Justified C w.traces w.sent (.server i task))
    (htask : task = .doReceivedAcceptMessage f ∨ task = .doReceivedDecisionAckMessage f) :
    ∃ g ∈ (w.traces i).proposed, g.proposalId = f.proposalId := by
  rcases htask with rfl | rfl
  · rcases (sound hr).acceptAt_origin hj with ⟨-, -, -, g, hg, -, hid, -⟩
    exact ⟨g, hg, hid.symm⟩
  · -- The acknowledgement copies the id of a DECISION, and that one has the id of a PROPOSAL.
    rcases hj.from_ with ⟨d, hd, heq, rfl⟩
    have hdec := ((sound hr).handledDecision hd).mem
    rcases (sound hr).decision_origin hdec with ⟨-, -, g, hg, hid, -⟩
    have hf : f.proposalId = (decisionAckFrame f.proposerId d).proposalId :=
      congrArg PaxosFrame.proposalId heq
    exact ⟨g, hg, hid.symm.trans hf.symm⟩

/-- What holds of the frames between the servers. -/
structure World.WellFormed (C : Cluster) (w : World) : Prop where
  /-- A frame in flight has a known type, is addressed to a server and names one. -/
  frames : ∀ packet ∈ w.inTransit, ∀ f, packet.paxos? = some f →
    f.Known ∧ f.proposerId < C.numNodes ∧ packet.dst < C.numNodes
  accepts : ∀ packet ∈ w.inTransit, ∀ f, packet.paxos? = some f → f.isAccept = true →
    packet.dst = f.proposerId
  /-- The error for an unknown packet type has not been raised. -/
  known : w.aborted = false
  /-- A call is made with a frame that names a server, so the entry of `m_nodes` exists. -/
  indices : ∀ t i task f, (⟨t, .server i task⟩ : Event) ∈ w.events → task.frame? = some f →
    f.proposerId < C.numNodes
  /-- An ACCEPT is handled by the proposer that it names. -/
  proposer : ∀ t i f, (⟨t, .server i (.doReceivedAcceptMessage f)⟩ : Event) ∈ w.events →
    f.proposerId = i
  /-- An answer to a proposal that its server does not hold is to one that it has proposed and
  decided. -/
  unknown : ∀ t i task f, (⟨t, .server i task⟩ : Event) ∈ w.events →
    task = .doReceivedAcceptMessage f ∨ task = .doReceivedDecisionAckMessage f →
    (w.servers i).proposals.lookup f.proposalId = none →
    (∃ g ∈ (w.traces i).proposed, g.proposalId = f.proposalId) ∧
      ∃ p ∈ (w.servers i).decidedLog, p.proposalId = f.proposalId ∧ p.nodeId = i

theorem well_formed (hr : Reachable C G w) : w.WellFormed C := by
  have hflight : ∀ packet ∈ w.inTransit, ∀ f, packet.paxos? = some f →
      FrameAt C w.traces packet.dst f packet.src := by
    intro packet hp f hf
    rcases List.mem_filterMap.1 hp with ⟨⟨ts, action⟩, he, htransit⟩
    cases action with
    | transit packet' hop =>
        cases htransit
        rcases packet with ⟨src, dst, payload, sentAt⟩
        have hj : Justified C w.traces w.sent (.transit ⟨src, dst, payload, sentAt⟩ hop) :=
          (sound hr).events _ he
        cases payload with
        | request r =>
            cases hf
        | paxos g =>
            cases hf
            exact hj.2
    | _ =>
        cases htransit
  refine ⟨?_, ?_, not_aborted hr, ?_, ?_, ?_⟩
  · intro packet hp f hf
    have hat := hflight packet hp f hf
    exact ⟨hat.known, proposerId_lt hr hat, (frameAt_origin hr hat).1⟩
  · intro packet hp f hf hacc
    exact (hflight packet hp f hf).dst_of_accept hacc
  · intro t i task f he hf
    exact frame_proposerId_lt hr ((sound hr).events _ he) hf
  · intro t i f he
    have hat : AcceptAt w.traces i f := (sound hr).events _ he
    exact hat.eq.symm
  · intro t i task f he htask hnone
    rcases answer_origin hr ((sound hr).events _ he) htask with ⟨g, hg, hid⟩
    refine ⟨⟨g, hg, hid⟩, ?_⟩
    rcases settled hr i g hg with hheld | ⟨p, hp, hpid, hnode⟩
    · rw [hid] at hheld
      exact absurd hnone hheld
    · exact ⟨p, (decidedLog_perm hr i).mem_iff.2 hp, hpid.trans hid, hnode⟩

/-- The second ACCEPT comes to a proposal that the first one has decided. -/
theorem well_formed_three_servers :
    ∃ w, Reachable (.oneClient 3 (by decide) false 0 10 200 3 5 0) anyNetwork w ∧
      (∃ e ∈ w.events, ∃ task, e.action = .server 0 task ∧ task.received?.isSome) ∧
      (w.traces 0).decided ≠ [] ∧ (w.servers 0).proposals.lookup 2 = none ∧
      w.WellFormed (.oneClient 3 (by decide) false 0 10 200 3 5 0) := by
  have hrun := exists_reachable_of_runInputs
    (S := program (.oneClient 3 (by decide) false 0 10 200 3 5 0)) (G := anyNetwork)
    (List.replicate 30 ({} : Choice))
    (fun w => (w.events.any fun e => (e.action.atServer 0 Task.received?).isSome) = true ∧
      (w.traces 0).decided ≠ [] ∧ (w.servers 0).proposals.lookup 2 = none) (by decide +kernel)
  rcases hrun with ⟨w, hr, htest⟩
  rcases of_decide_eq_true htest with ⟨hpending, hdecided, hempty⟩
  refine ⟨w, hr, ?_, hdecided, hempty, well_formed hr⟩
  rcases List.any_eq_true.1 hpending with ⟨e, he, hsome⟩
  rcases eq_server_of_atServer hsome with ⟨task, haction, htask⟩
  exact ⟨e, he, task, haction, htask⟩

end Unknown

end SyncPaxos
