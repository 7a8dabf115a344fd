import SyncPaxos.Safety.Decisions

/-!
# Agreement — what the servers hold as accepted and decided

`World.Agreement` is the safety contract of the protocol for one client: every accepted and every
decided proposal is a request of the client, an id is decided by one DECISION, and so two servers
that decided the same id agree.

It holds whatever happens to Paxos frames (`agreement`).  It does not survive the duplication of
a request: the second copy is queued, proposed and decided once more, at a later time
(`agreement_needs_single_requests`).
-/

namespace SyncPaxos

open DiscreteEvent Transition

/-- `p` is the request of client `0` that server `p.nodeId` queued. -/
def World.IsRequest (w : World) (p : Proposal) : Prop :=
  ∃ r ∈ (w.traces p.nodeId).queued, r.key = p.key ∧
    (⟨.client 0, p.nodeId, .request r, r.timestamp⟩ : Packet) ∈ w.sent

structure World.Agreement (w : World) : Prop where
  accepted : ∀ i x p, (w.servers i).acceptedProposals.lookup x = some p →
    p.proposalId = x ∧ w.IsRequest p
  decided : ∀ i, ∀ p ∈ (w.servers i).decidedLog, w.IsRequest p
  /-- No server broadcasts two DECISIONs for an id. -/
  once : ∀ i, ((w.traces i).decisions.map PaxosFrame.proposalId).Nodup
  /-- No two servers broadcast a DECISION for the same id. -/
  sole : ∀ i j, ∀ d ∈ (w.traces i).decisions, ∀ d' ∈ (w.traces j).decisions,
    d.proposalId = d'.proposalId → i = j
  agree : ∀ i j, ∀ p ∈ (w.servers i).decidedLog, ∀ q ∈ (w.servers j).decidedLog,
    p.proposalId = q.proposalId →
      p.nodeId = q.nodeId ∧ p.value = q.value ∧ p.decisionTime = q.decisionTime

section Agreement

variable {C : Cluster} {G : World → Choice → Prop} {w : World}

theorem isRequest_of_queued (hr : Reachable C G w) (hone : C.numClients = 1) {p : Proposal}
    {r : RequestFrame} (hq : r ∈ (w.traces p.nodeId).queued) (hkey : r.key = p.key) :
    w.IsRequest p := by
  rcases (sound hr).queued hq with ⟨k, hk, hsent⟩
  obtain rfl : k = 0 := by omega
  exact ⟨r, hq, hkey, hsent⟩

theorem isRequest_of_accepted (hr : Reachable C G w) (hone : C.numClients = 1) {i x : ℕ}
    {p : Proposal} (hl : (w.servers i).acceptedProposals.lookup x = some p) : w.IsRequest p := by
  rcases ((ledger hr i).accepted x p hl).2 with ⟨f, hf, hkey, hnode⟩
  have hat := (sound hr).handledProposal hf
  have hmem := hat.mem
  rw [hnode] at hmem
  rcases exists_queued_of_proposed hr hmem with ⟨r, hrq, hrk⟩
  exact isRequest_of_queued hr hone hrq (hrk.trans hkey)

theorem isRequest_of_decided (hr : Reachable C G w) (hd : w.QueuedDistinct)
    (hone : C.numClients = 1) {i : ℕ} {p : Proposal} (hp : p ∈ (w.servers i).decidedLog) :
    w.IsRequest p := by
  rcases decided_by_decision hr hd (mem_decided_of_log hr hp) with ⟨d, hdec, hkey, -⟩
  rcases (exists_queued_of_decision hr hdec).2 with ⟨r, hrq, hrk⟩
  exact isRequest_of_queued hr hone hrq (hrk.trans hkey)

/-- Agreement and validity, in both modes, over a network that may delay, reorder, lose and
duplicate Paxos frames and may delay, reorder and lose requests. -/
theorem agreement (hone : C.numClients = 1) (hpos : 0 < C.sendInterval)
    (hr : Reachable C noRequestCopies w) : w.Agreement := by
  have hd : w.QueuedDistinct :=
    queuedDistinct (fun _ _ hg => hg) hr (distinctTimestamps hone hpos hr)
  refine ⟨?_, ?_, ?_, ?_, ?_⟩
  · intro i x p hl
    exact ⟨((ledger hr i).accepted x p hl).1, isRequest_of_accepted hr hone hl⟩
  · intro i p hp
    exact isRequest_of_decided hr hd hone hp
  · intro i
    exact (announced hr hd i).once
  · intro i j d hdi d' hdj hid
    exact (decision_unique hr hd hdi hdj hid).1
  · intro i j p hp q hq hid
    exact decided_agree hr hd hp hq hid

end Agreement

/-- A run of two servers in which the DECISION of the first request reaches both, while the
PROPOSAL of the first request was duplicated. -/
theorem agreement_two_servers :
    ∃ w, Reachable (.oneClient 2 (by decide) false 0 10 200 3 5 0) noRequestCopies w ∧
      (w.servers 0).decidedLog ≠ [] ∧ (w.servers 1).decidedLog ≠ [] ∧ w.Agreement := by
  have hrun := exists_reachable_of_runInputs
    (S := program (.oneClient 2 (by decide) false 0 10 200 3 5 0)) (G := noRequestCopies)
    (List.replicate 15 ({} : Choice) ++ [{ fate := .duplicate 0 3 }] ++
      List.replicate 20 ({} : Choice))
    (fun w => (w.servers 0).decidedLog ≠ [] ∧ (w.servers 1).decidedLog ≠ []) (by decide +kernel)
  rcases hrun with ⟨w, hr, htest⟩
  have hboth := of_decide_eq_true htest
  exact ⟨w, hr, hboth.1, hboth.2, agreement rfl (by decide) hr⟩

/-- A duplicated request is decided twice. -/
theorem agreement_needs_single_requests :
    ¬ ∀ (C : Cluster) (w : World), C.numClients = 1 → 0 < C.sendInterval → 0 < C.startTime →
      0 < C.clientStartTime → Reachable C anyNetwork w → w.Agreement := by
  intro h
  have hrun := exists_reachable_of_runInputs
    (S := program (.oneClient 2 (by decide) false 0 10 200 3 5 0)) (G := anyNetwork)
    (List.replicate 10 ({} : Choice) ++ [{ fate := .duplicate 0 0 }] ++
      List.replicate 28 ({} : Choice))
    (fun w => ¬ ((w.traces 0).decisions.map PaxosFrame.proposalId).Nodup) (by decide +kernel)
  rcases hrun with ⟨w, hr, htest⟩
  have hagree := h _ w rfl (by decide) (by decide) (by decide) hr
  exact of_decide_eq_true htest (hagree.once 0)

end SyncPaxos
