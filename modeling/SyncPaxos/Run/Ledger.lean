import SyncPaxos.Library.Store
import SyncPaxos.Run.Change
import SyncPaxos.Run.Provenance

/-!
# Ledger — a server's containers against its own record

Whatever the network does, a server's record accounts for what its containers hold: the requests
it queued are the ones it proposed followed by the ones that wait, an entry of `m_proposals` is a
proposal it broadcast, an entry of `m_acceptedProposals` is a PROPOSAL it handled, and a decided
proposal was learned from a DECISION or is one of its own.
-/

namespace SyncPaxos

open DiscreteEvent

/-! ## What is compared -/

/-- What identifies a request through the protocol: its timestamp and its value. -/
def RequestFrame.key (r : RequestFrame) : ℕ × ℕ := (r.timestamp, r.value)

def Proposal.key (p : Proposal) : ℕ × ℕ := (p.proposalId, p.value)

def PaxosFrame.key (f : PaxosFrame) : ℕ × ℕ := (f.proposalId, f.value)

@[simp] theorem proposalFrame_key (i : ℕ) (now : Time) (p : Proposal) :
    (proposalFrame i now p).key = p.key := rfl

@[simp] theorem proposalOfRequest_key (i : ℕ) (now : Time) (r : RequestFrame) :
    (Server.proposalOfRequest i now r).key = r.key := rfl

/-- The entry `p` of `m_proposals` under `x` is a proposal of server `i` on record. -/
structure Outstanding (i : ℕ) (tr : Trace) (x : ℕ) (p : Proposal) : Prop where
  id : p.proposalId = x
  node : p.nodeId = i
  ackTime : p.decisionAckTime = 0
  origin : ∃ f ∈ tr.proposed, f.key = p.key ∧ f.proposeTime = p.proposeTime

/-- A decided proposal was learned from a DECISION, or is one of the server's own. -/
inductive DecidedBy (i : ℕ) (tr : Trace) (p : Proposal) : Prop where
  | learned (f : PaxosFrame) : f ∈ tr.handledDecisions → p = learnedProposal f → DecidedBy i tr p
  | own (f : PaxosFrame) : p.nodeId = i → f ∈ tr.proposed → f.key = p.key →
      f.proposeTime = p.proposeTime → DecidedBy i tr p

structure Ledger (i : ℕ) (s : Server) : Prop where
  queue : s.trace.proposed.map PaxosFrame.key ++ s.waitingProposals.map Proposal.key =
    s.trace.queued.map RequestFrame.key
  waiting : ∀ p ∈ s.waitingProposals, p.decisionTime = 0 ∧ p.decisionAckTime = 0
  outstanding : ∀ x p, s.proposals.lookup x = some p → Outstanding i s.trace x p
  accepted : ∀ x p, s.acceptedProposals.lookup x = some p → p.proposalId = x ∧
    ∃ f ∈ s.trace.handledProposals, f.key = p.key ∧ f.proposerId = p.nodeId
  log : ∀ p ∈ s.decidedLog, p ∈ s.trace.decided
  decided : ∀ p ∈ s.trace.decided, DecidedBy i s.trace p

namespace Ledger

variable {C : Cluster} {i : ℕ} {now : Time} {s : Server}

theorem outstanding_mono {tr tr' : Trace} (hpre : tr <+: tr') {x : ℕ} {p : Proposal}
    (h : Outstanding i tr x p) : Outstanding i tr' x p := by
  rcases h.origin with ⟨f, hf, hkey⟩
  exact ⟨h.id, h.node, h.ackTime, f, mem_filterMap_mono hpre hf, hkey⟩

theorem decidedBy_mono {tr tr' : Trace} (hpre : tr <+: tr') {p : Proposal}
    (h : DecidedBy i tr p) : DecidedBy i tr' p := by
  cases h with
  | learned f hf heq =>
      exact .learned f (mem_filterMap_mono hpre hf) heq
  | own f hi hf hkey htime =>
      exact .own f hi (mem_filterMap_mono hpre hf) hkey htime

/-! ## One lemma for each change of a server -/

theorem init (i : ℕ) : Ledger i {} := by
  refine ⟨rfl, ?_, ?_, ?_, ?_, ?_⟩
  · intro p hp
    cases hp
  · intro x p hp
    simp at hp
  · intro x p hp
    simp at hp
  · intro p hp
    cases hp
  · intro p hp
    cases hp

/-- A line that neither queues, proposes nor decides. -/
theorem record (h : Ledger i s) {r : Record} (hq : r.queued? = none) (hp : r.proposed? = none)
    (hd : r.decided? = none) : Ledger i (s.record r) := by
  have hpre : s.trace <+: (s.record r).trace := List.prefix_append _ _
  refine ⟨?_, h.waiting, ?_, ?_, ?_, ?_⟩
  · have hqueue := h.queue
    simp only [Server.record, List.filterMap_append, List.filterMap_cons, hq, hp,
      List.filterMap_nil, List.append_nil]
    exact hqueue
  · intro x p hl
    exact outstanding_mono hpre (h.outstanding x p hl)
  · intro x p hl
    rcases h.accepted x p hl with ⟨hid, f, hf, hkey⟩
    exact ⟨hid, f, mem_filterMap_mono hpre hf, hkey⟩
  · intro p hmem
    exact mem_filterMap_mono hpre (h.log p hmem)
  · intro p hmem
    simp only [Server.record, List.filterMap_append, List.filterMap_cons, hd,
      List.filterMap_nil, List.append_nil] at hmem
    exact decidedBy_mono hpre (h.decided p hmem)

theorem putProposal (h : Ledger i s) {x : ℕ} {p : Proposal} (hp : Outstanding i s.trace x p) :
    Ledger i (s.putProposal x p) :=
  ⟨h.queue, h.waiting, AList.forall_lookup_insert hp h.outstanding, h.accepted, h.log, h.decided⟩

theorem eraseProposal (h : Ledger i s) (x : ℕ) : Ledger i (s.eraseProposal x) :=
  ⟨h.queue, h.waiting, AList.forall_lookup_erase h.outstanding, h.accepted, h.log, h.decided⟩

theorem pushDecided (h : Ledger i s) {p : Proposal} (hp : DecidedBy i s.trace p) :
    Ledger i (s.pushDecided p) := by
  have hpre : s.trace <+: (s.pushDecided p).trace := List.prefix_append _ _
  refine ⟨?_, h.waiting, ?_, ?_, ?_, ?_⟩
  · simpa [Server.pushDecided, List.filterMap_cons] using h.queue
  · intro x q hl
    exact outstanding_mono hpre (h.outstanding x q hl)
  · intro x q hl
    rcases h.accepted x q hl with ⟨hid, f, hf, hkey⟩
    exact ⟨hid, f, mem_filterMap_mono hpre hf, hkey⟩
  · intro q hmem
    have hmem' : q ∈ s.decidedLog ∨ q = p := by
      simpa [Server.decidedLog, Server.pushDecided, or_assoc] using hmem
    rcases hmem' with hmem' | rfl
    · exact mem_filterMap_mono hpre (h.log q hmem')
    · simp [Server.pushDecided]
  · intro q hmem
    have hmem' : q ∈ s.trace.decided ∨ q = p := by
      simpa [Server.pushDecided] using hmem
    rcases hmem' with hmem' | rfl
    · exact decidedBy_mono hpre (h.decided q hmem')
    · exact decidedBy_mono hpre hp

/-- A proposal moves from the front of the queue to `m_proposals` and is broadcast. -/
theorem propose (h : Ledger i s) {p : Proposal} {rest : List Proposal}
    (hw : s.waitingProposals = p :: rest) :
    Ledger i (s.propose i now p rest) := by
  have hpre : s.trace <+: s.trace ++ [.proposed (proposalFrame i now p)] :=
    List.prefix_append _ _
  have hzero := h.waiting p (by simp [hw])
  refine ⟨?_, ?_, ?_, ?_, ?_, ?_⟩
  · have hqueue := h.queue
    rw [hw] at hqueue
    simpa [Server.propose, Server.record, Server.putProposal, List.filterMap_cons] using hqueue
  · intro q hq
    exact h.waiting q (by rw [hw]; exact List.mem_cons_of_mem _ hq)
  · refine AList.forall_lookup_insert ?_ (fun y q hl => outstanding_mono hpre (h.outstanding y q hl))
    refine ⟨rfl, rfl, hzero.2, proposalFrame i now p, ?_, rfl, rfl⟩
    simp [Server.propose, Server.record]
  · intro x q hl
    rcases h.accepted x q hl with ⟨hid, f, hf, hkey⟩
    exact ⟨hid, f, mem_filterMap_mono hpre hf, hkey⟩
  · intro q hmem
    exact mem_filterMap_mono hpre (h.log q hmem)
  · intro q hmem
    have hmem' : q ∈ s.trace.decided := by
      simpa [Server.propose, Server.record, Server.putProposal] using hmem
    exact decidedBy_mono hpre (h.decided q hmem')

theorem enqueue (h : Ledger i s) (r : RequestFrame) : Ledger i (s.enqueue i now r) := by
  have hpre : s.trace <+: s.trace ++ [.queued r] := List.prefix_append _ _
  refine ⟨?_, ?_, ?_, ?_, ?_, ?_⟩
  · have hqueue := h.queue
    simp only [Server.enqueue, Server.record, List.map_append, List.filterMap_append,
      List.map_cons, List.map_nil, proposalOfRequest_key]
    simp [← hqueue]
  · intro p hp
    rcases List.mem_append.1 hp with hp | hp
    · exact h.waiting p hp
    · rcases List.mem_singleton.1 hp with rfl
      exact ⟨rfl, rfl⟩
  · intro x p hl
    exact outstanding_mono hpre (h.outstanding x p hl)
  · intro x p hl
    rcases h.accepted x p hl with ⟨hid, f, hf, hkey⟩
    exact ⟨hid, f, mem_filterMap_mono hpre hf, hkey⟩
  · intro p hmem
    exact mem_filterMap_mono hpre (h.log p hmem)
  · intro p hmem
    have hmem' : p ∈ s.trace.decided := by simpa [Server.enqueue, Server.record] using hmem
    exact decidedBy_mono hpre (h.decided p hmem')

theorem stopApplication (h : Ledger i s) : Ledger i s.stopApplication.server := by
  refine ⟨h.queue, h.waiting, h.outstanding, h.accepted, ?_, h.decided⟩
  intro p hp
  have hp' : p ∈ s.decidedProposalQueue := by
    simpa [Server.stopApplication, Server.decidedLog] using hp
  exact h.log p (List.mem_append_right _ hp')

theorem storeAccepted (h : Ledger i s) (f : PaxosFrame) : Ledger i (s.storeAccepted i now f) := by
  have hrec : Ledger i (s.record (.handledProposal f)) := h.record rfl rfl rfl
  refine ⟨hrec.queue, hrec.waiting, hrec.outstanding, ?_, hrec.log, hrec.decided⟩
  refine AList.forall_lookup_insert ?_ hrec.accepted
  refine ⟨rfl, f, ?_, rfl, rfl⟩
  simp [Server.storeAccepted, Server.record]

/-! ## Every change keeps the ledger -/

theorem change {task : Task} {s' : Server} (h : Ledger i s)
    (hc : Server.Change C i now task s s') : Ledger i s' := by
  cases hc with
  | flags =>
      exact ⟨h.queue, h.waiting, h.outstanding, h.accepted, h.log, h.decided⟩
  | @note _ _ r hr =>
      cases r <;> simp [Record.IsNote] at hr <;> exact h.record rfl rfl rfl
  | stop =>
      exact h.stopApplication
  | queue =>
      exact h.enqueue _
  | propose hw =>
      exact h.propose hw
  | accept =>
      exact h.storeAccepted _
  | ignoreVote =>
      exact h.record rfl rfl rfl
  | @vote _ f found _ hl =>
      have hrec : Ledger i (s.record (.handledAccept f)) := h.record rfl rfl rfl
      have hout := hrec.outstanding f.proposalId found hl
      exact hrec.putProposal ⟨hout.id, hout.node, hout.ackTime, hout.origin⟩
  | @elect _ f found _ hl =>
      have hrec : Ledger i ((s.record (.handledAccept f)).record
          (.decision (decisionFrame now f))) := (h.record rfl rfl rfl).record rfl rfl rfl
      have hout := hrec.outstanding f.proposalId found hl
      exact hrec.putProposal ⟨hout.id, hout.node, hout.ackTime, hout.origin⟩
  | @decide _ f found _ hl =>
      have hrec : Ledger i ((s.record (.handledAccept f)).record
          (.decision (decisionFrame now f))) := (h.record rfl rfl rfl).record rfl rfl rfl
      have hout := hrec.outstanding f.proposalId found hl
      rcases hout.origin with ⟨g, hg, hkey, htime⟩
      refine Ledger.eraseProposal (Ledger.pushDecided hrec ?_) _
      exact .own g hout.node hg hkey htime
  | @learn _ f =>
      have hrec : Ledger i (s.record (.handledDecision f)) := h.record rfl rfl rfl
      refine hrec.pushDecided (.learned f ?_ rfl)
      simp [Server.record]
  | ignoreAck =>
      exact h.record rfl rfl rfl
  | @ack _ f found _ hl =>
      have hrec : Ledger i (s.record (.handledDecisionAck f)) := h.record rfl rfl rfl
      have hout := hrec.outstanding f.proposalId found hl
      exact hrec.putProposal ⟨hout.id, hout.node, hout.ackTime, hout.origin⟩
  | @confirm _ f found _ hl =>
      have hrec : Ledger i (s.record (.handledDecisionAck f)) := h.record rfl rfl rfl
      have hout := hrec.outstanding f.proposalId found hl
      rcases hout.origin with ⟨g, hg, hkey, htime⟩
      refine Ledger.eraseProposal (Ledger.pushDecided hrec ?_) _
      exact .own g hout.node hg hkey htime

theorem changes {task : Task} {s' : Server} (h : Ledger i s)
    (hc : Server.Changes C i now task s s') : Ledger i s' := by
  induction hc with
  | refl =>
      exact h
  | tail _ hstep ih =>
      exact ih.change hstep

end Ledger

theorem ledger {C : Cluster} {G : World → Choice → Prop} {w : World} (hr : Reachable C G w)
    (i : ℕ) : Ledger i (w.servers i) := by
  refine server_invariant (Q := fun _ => True) (P := Ledger) ?_ Ledger.init ?_ hr trivial i
  · intro _ _ _ _ _ _
    trivial
  · intro w c w' i task now rest _ _ _ _ _ _ h
    exact h.changes (Server.run_changes task _)

end SyncPaxos
