import SyncPaxos.Library.Store
import SyncPaxos.Run.Delivery
import SyncPaxos.Run.Logs
import SyncPaxos.Safety.Decisions

/-!
# Accounts — where a proposal is at its proposer

A proposal of a server is in one place at a time: it waits, it is outstanding in `m_proposals`,
or the server has decided it.  `Accounts` is the balance of what a server has proposed; together
with the queue equation of the ledger it accounts for every request the server has queued
(`proposals_conserved`).
-/

namespace SyncPaxos

open DiscreteEvent Transition
open scoped List

namespace Server

/-- The proposals in `m_proposals`. -/
def outstanding (s : Server) : List Proposal := s.proposals.values

end Server

/-- The decided proposals that server `i` proposed itself. -/
def ownDecided (i : ℕ) (l : List Proposal) : List Proposal := l.filter (fun p => p.nodeId = i)

/-- What server `i` proposed it has decided, or it is outstanding. -/
def Accounts (i : ℕ) (s : Server) : Prop :=
  (s.trace.proposed.map PaxosFrame.key).Perm
    ((ownDecided i s.trace.decided).map Proposal.key ++ s.outstanding.map Proposal.key)

namespace Accounts

variable {C : Cluster} {i : ℕ} {s : Server}

/-- A line that neither proposes nor decides. -/
theorem record (h : Accounts i s) {r : Record} (hp : r.proposed? = none)
    (hd : r.decided? = none) : Accounts i (s.record r) := by
  unfold Accounts at h ⊢
  simp only [Server.record, Trace.proposed, Trace.decided, List.filterMap_append,
    List.filterMap_cons, hp, hd, List.filterMap_nil, List.append_nil]
  exact h

/-- An entry that is replaced by one for the same request. -/
theorem putProposal (h : Accounts i s) {x : ℕ} {p found : Proposal}
    (hl : s.proposals.lookup x = some found) (hkey : p.key = found.key) :
    Accounts i (s.putProposal x p) := by
  have hperm : ((s.putProposal x p).outstanding.map Proposal.key).Perm
      (s.outstanding.map Proposal.key) := by
    have herase := (AList.values_erase_perm hl).map Proposal.key
    rw [List.map_cons, ← hkey] at herase
    exact herase.symm
  exact h.trans (List.Perm.append_left _ hperm.symm)

/-- A proposal leaves the waiting queue. -/
theorem propose (h : Accounts i s) (hled : Ledger i s) {now : Time} {p : Proposal}
    {rest : List Proposal}
    (hnew : p.proposalId ∉ s.trace.proposed.map PaxosFrame.proposalId) :
    Accounts i (s.propose i now p rest) := by
  -- The entry is a new one: an old one of this id would have been proposed.
  have hnone : s.proposals.lookup p.proposalId = none := by
    cases hl : s.proposals.lookup p.proposalId with
    | none =>
        rfl
    | some found =>
        have hout := hled.outstanding _ _ hl
        rcases hout.origin with ⟨f, hf, hkey, -⟩
        have hid : f.proposalId = p.proposalId := (congrArg Prod.fst hkey).trans hout.id
        exact absurd (List.mem_map.2 ⟨f, hf, hid⟩) hnew
  have hvalues : (s.propose i now p rest).outstanding = p.propose i now :: s.outstanding :=
    AList.values_insert_of_lookup_none hnone
  have hproposed : (s.propose i now p rest).trace.proposed.map PaxosFrame.key =
      s.trace.proposed.map PaxosFrame.key ++ [p.key] := by
    simp [Server.propose, Server.record, Server.putProposal]
  have hdecided : (s.propose i now p rest).trace.decided = s.trace.decided := by
    simp [Server.propose, Server.record, Server.putProposal]
  unfold Accounts at h ⊢
  rw [hvalues, hproposed, hdecided]
  calc s.trace.proposed.map PaxosFrame.key ++ [p.key]
      ~ p.key :: s.trace.proposed.map PaxosFrame.key := List.perm_append_singleton _ _
    _ ~ p.key :: ((ownDecided i s.trace.decided).map Proposal.key ++
          s.outstanding.map Proposal.key) := h.cons _
    _ ~ (ownDecided i s.trace.decided).map Proposal.key ++
          (p.propose i now :: s.outstanding).map Proposal.key := List.perm_middle.symm

/-- An outstanding proposal is decided. -/
theorem decide (h : Accounts i s) {x : ℕ} {p found : Proposal}
    (hl : s.proposals.lookup x = some found) (hkey : p.key = found.key) (hnode : p.nodeId = i) :
    Accounts i ((s.pushDecided p).eraseProposal x) := by
  have hown : ownDecided i ((s.pushDecided p).eraseProposal x).trace.decided =
      ownDecided i s.trace.decided ++ [p] := by
    simp [ownDecided, Server.pushDecided, Server.eraseProposal, hnode]
  have hproposed : ((s.pushDecided p).eraseProposal x).trace.proposed = s.trace.proposed := by
    simp [Server.pushDecided, Server.eraseProposal]
  have hvalues : s.outstanding.map Proposal.key ~
      p.key :: ((s.pushDecided p).eraseProposal x).outstanding.map Proposal.key := by
    have herase := (AList.values_erase_perm hl).map Proposal.key
    rw [List.map_cons, ← hkey] at herase
    exact herase
  unfold Accounts at h ⊢
  rw [hown, hproposed, List.map_append, List.append_assoc]
  exact h.trans (List.Perm.append_left _ hvalues)

/-- A decision of another server is learned. -/
theorem learn (h : Accounts i s) {p : Proposal} (hnode : p.nodeId ≠ i) :
    Accounts i (s.pushDecided p) := by
  have hown : ownDecided i (s.pushDecided p).trace.decided = ownDecided i s.trace.decided := by
    simp [ownDecided, Server.pushDecided, hnode]
  have hproposed : (s.pushDecided p).trace.proposed = s.trace.proposed := by
    simp [Server.pushDecided]
  unfold Accounts at h ⊢
  rw [hown, hproposed]
  exact h

end Accounts

/-! ## The balance of all servers -/

section Runs

variable {C : Cluster} {G : World → Choice → Prop} {w : World}

theorem accounts (hr : Reachable C G w) (hd : w.QueuedDistinct) (i : ℕ) :
    Accounts i (w.servers i) := by
  refine change_invariant (Q := World.QueuedDistinct) (P := Accounts)
    (fun _ _ _ _ => QueuedDistinct.of_step) (fun _ => List.Perm.refl _) ?_ hr hd i
  intro w₀ c w i now task s s' hturn hpre₀ hpre hled hs hc
  have hpre' : s.trace <+: w.traces i := hc.trace_grows.trans hpre
  cases hc with
  | flags =>
      exact hs
  | @note _ _ r hr =>
      cases r <;> simp [Record.IsNote] at hr <;> exact hs.record rfl rfl
  | stop =>
      exact hs
  | @queue _ r =>
      exact hs.record (r := .queued r) rfl rfl
  | @propose _ _ p rest hw =>
      have hqueued : (s.trace.queued.map RequestFrame.timestamp).Nodup :=
        (hturn.holds.nodup i).sublist
          ((hpre'.filterMap Record.queued?).map RequestFrame.timestamp).sublist
      exact hs.propose hled (front_not_proposed hled hqueued hw)
  | @accept _ f =>
      exact hs.record (r := .handledProposal f) rfl rfl
  | ignoreVote =>
      exact hs.record rfl rfl
  | @vote _ f found _ hl =>
      have hrec : Accounts i (s.record (.handledAccept f)) := hs.record rfl rfl
      exact hrec.putProposal hl rfl
  | @elect _ f found _ hl =>
      have hrec : Accounts i ((s.record (.handledAccept f)).record
          (.decision (decisionFrame now f))) := Accounts.record (hs.record rfl rfl) rfl rfl
      exact hrec.putProposal hl rfl
  | @decide _ f found _ hl =>
      have hrec : Accounts i ((s.record (.handledAccept f)).record
          (.decision (decisionFrame now f))) := Accounts.record (hs.record rfl rfl) rfl rfl
      exact hrec.decide hl rfl (hled.outstanding _ _ hl).node
  | @learn _ f =>
      have hrec : Accounts i (s.record (.handledDecision f)) := hs.record rfl rfl
      have hat : DecisionAt C w.traces i f := hturn.justified
      exact hrec.learn (p := learnedProposal f) hat.ne.symm
  | ignoreAck =>
      exact hs.record rfl rfl
  | @ack _ f found _ hl =>
      have hrec : Accounts i (s.record (.handledDecisionAck f)) := hs.record rfl rfl
      exact hrec.putProposal hl rfl
  | @confirm _ f found _ hl =>
      have hrec : Accounts i (s.record (.handledDecisionAck f)) := hs.record rfl rfl
      exact hrec.decide hl rfl (hled.outstanding _ _ hl).node

/-- A server decides a proposal of its own once. -/
theorem ownDecided_nodup (hr : Reachable C G w) (hd : w.QueuedDistinct) (i : ℕ) :
    ((ownDecided i (w.traces i).decided).map Proposal.proposalId).Nodup := by
  have hids : ((w.traces i).proposed.map PaxosFrame.key).map Prod.fst =
      (w.traces i).proposed.map PaxosFrame.proposalId := List.map_map
  have haccounts := (accounts hr hd i).map Prod.fst
  rw [← World.traces, hids, List.map_append, List.map_map] at haccounts
  have hnodup := haccounts.nodup_iff.1 (proposed_nodup hr hd i)
  exact (List.nodup_append.1 hnodup).1

/-- A server decides every id once, if it handles one DECISION for an id. -/
theorem decided_nodup (hr : Reachable C G w) (hd : w.QueuedDistinct) {i : ℕ}
    (hlearned : ((w.traces i).handledDecisions.map PaxosFrame.proposalId).Nodup) :
    ((w.servers i).decidedLog.map Proposal.proposalId).Nodup := by
  have hperm : (w.servers i).decidedLog ~ ownDecided i (w.traces i).decided ++
      (w.traces i).handledDecisions.map learnedProposal := by
    have hsplit := List.filter_append_perm (fun p : Proposal => decide (p.nodeId = i))
      (w.traces i).decided
    have hrest : (w.traces i).decided.filter (fun p => !decide (p.nodeId = i)) =
        (w.traces i).handledDecisions.map learnedProposal := by
      rw [World.traces, ← (kept hr i).learned]
      simp
    rw [hrest] at hsplit
    exact (decidedLog_perm hr i).trans hsplit.symm
  rw [(hperm.map Proposal.proposalId).nodup_iff, List.map_append]
  refine List.nodup_append.2 ⟨ownDecided_nodup hr hd i, ?_, ?_⟩
  · rw [List.map_map]
    exact hlearned
  · -- An id that the server decided for itself was not announced by another server.
    rintro x hx y hy rfl
    rcases List.mem_map.1 hx with ⟨p, hp, rfl⟩
    rcases List.mem_map.1 hy with ⟨q, hq, hid⟩
    rcases List.mem_map.1 hq with ⟨f, hf, rfl⟩
    have hown : p ∈ (w.traces i).decided ∧ p.nodeId = i := by simpa [ownDecided] using hp
    rcases decided_by_decision hr hd hown.1 with ⟨d, hdec, hkey, -⟩
    have hat := (sound hr).handledDecision hf
    have hsame : d.proposalId = f.proposalId := by
      have hdp : d.proposalId = p.proposalId := congrArg Prod.fst hkey
      exact hdp.trans hid.symm
    have hnode := (decision_unique hr hd hdec hat.mem hsame).1
    exact hat.ne (hown.2.symm.trans hnode)

/-! ## Every request is accounted for -/

/-- Before the servers stop, the requests that server `i` queued are, without repetition, its own
decided proposals, its outstanding proposals and its waiting proposals.  Those that wait are the
last ones queued, and each of the others was broadcast once. -/
theorem proposals_conserved (hr : Reachable C noRequestCopies w) (hd : w.DistinctTimestamps)
    (hnow : w.now < C.stopTime) (i : ℕ) :
    (w.traces i).queued.map RequestFrame.key ~
        (ownDecided i (w.servers i).decidedProposalQueue).map Proposal.key ++
          (w.servers i).outstanding.map Proposal.key ++
          (w.servers i).waitingProposals.map Proposal.key ∧
      ((w.traces i).queued.map RequestFrame.timestamp).Nodup ∧
      (w.traces i).queued.map RequestFrame.key =
        (w.traces i).proposed.map PaxosFrame.key ++
          (w.servers i).waitingProposals.map Proposal.key ∧
      ∀ j, j < C.numNodes → j ≠ i →
        (w.sentOn i j).filter PaxosFrame.isProposal = (w.traces i).proposed := by
  have hq : w.QueuedDistinct := queuedDistinct (fun _ _ hg => hg) hr hd
  have hqueue := (ledger hr i).queue
  have haccounts : Accounts i (w.servers i) := accounts hr hq i
  refine ⟨?_, hq.nodup i, hqueue.symm, ?_⟩
  · rw [World.traces, ← hqueue, (unstopped hr hnow i).queue]
    exact haccounts.append_right _
  · intro j hj hij
    exact sentOn_proposals hr hij hj

end Runs

/-- A state in which server 0 has decided one of its proposals, has one outstanding and one
waiting. -/
theorem proposals_conserved_two_servers :
    ∃ w, Reachable (.oneClient 2 (by decide) false 0 10 200 20 3 0) noRequestCopies w ∧
      (w.servers 0).outstanding ≠ [] ∧ (w.servers 0).waitingProposals ≠ [] ∧
      (w.traces 0).queued.map RequestFrame.key ~
        (ownDecided 0 (w.servers 0).decidedProposalQueue).map Proposal.key ++
          (w.servers 0).outstanding.map Proposal.key ++
          (w.servers 0).waitingProposals.map Proposal.key := by
  have hrun := exists_reachable_of_runInputs
    (S := program (.oneClient 2 (by decide) false 0 10 200 20 3 0)) (G := noRequestCopies)
    (List.replicate 41 ({} : Choice))
    (fun w => w.now < 200 ∧ (w.servers 0).outstanding ≠ [] ∧
      (w.servers 0).waitingProposals ≠ []) (by decide +kernel)
  rcases hrun with ⟨w, hr, htest⟩
  rcases of_decide_eq_true htest with ⟨hnow, hout, hwait⟩
  exact ⟨w, hr, hout, hwait,
    (proposals_conserved hr (distinctTimestamps rfl (by decide) hr) hnow 0).1⟩

end SyncPaxos
