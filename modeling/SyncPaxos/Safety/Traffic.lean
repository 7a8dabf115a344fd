import Mathlib.Algebra.Order.BigOperators.Group.Finset
import Mathlib.Tactic.Ring
import SyncPaxos.Safety.Convergence

/-!
# Traffic — what a decision costs on the wire

The Paxos frames of a run are counted channel by channel: a proposer sends each of its PROPOSALs and
DECISIONs to all others, and each frame that asks for an answer is answered by one frame
(`framesSent_eq`).  Over a network that copies nothing, a proposal costs three frames for each other
server in synchronous mode and four in asynchronous mode, at most (`frames_le`), and exactly that when
nothing was lost and nothing is on its way (`frames_at_rest`).
-/

namespace SyncPaxos

open DiscreteEvent Transition Counting

namespace World

/-- The Paxos frames that have been sent. -/
def framesSent (w : World) : ℕ := w.sent.countP (fun packet => !packet.isRequest)

/-- The proposals that have been made. -/
def proposalsMade (C : Cluster) (w : World) : ℕ :=
  ∑ i ∈ Finset.range C.numNodes, (w.traces i).proposed.length

end World

/-- The rounds of frames that a proposal takes. -/
def Cluster.rounds (C : Cluster) : ℕ := if C.async then 4 else 3

variable {C : Cluster} {G : World → Choice → Prop} {w : World} {a i j : ℕ}

/-! ## Frames by channel -/

/-- The server that a packet names as its sender. -/
def Packet.sender (packet : Packet) : ℕ :=
  match packet.src with
  | .server i => i
  | .client _ => 0

theorem Packet.isSome_channel (packet : Packet)
    (h : packet.isRequest = false → packet.src = .server packet.sender) :
    (packet.channel? i j).isSome =
      ((!packet.isRequest && packet.sender == i) && packet.dst == j) := by
  rcases packet with ⟨src, dst, payload, sentAt⟩
  cases payload with
  | request r =>
      simp [Packet.channel?, Packet.paxosTo?, Packet.paxos?, Packet.isRequest]
  | paxos f =>
      cases src with
      | server k =>
          by_cases hi : k = i <;> by_cases hdst : dst = j <;>
            simp [Packet.channel?, Packet.paxosTo?, Packet.paxos?, Packet.isRequest,
              Packet.sender, hi, hdst]
      | client k =>
          cases h rfl

/-- A Paxos frame that was sent went from one server of the cluster to another. -/
theorem sent_paxos (hr : Reachable C G w) {packet : Packet} (hp : packet ∈ w.sent)
    (hpaxos : packet.isRequest = false) :
    packet.src = .server packet.sender ∧ packet.sender < C.numNodes ∧
      packet.dst < C.numNodes := by
  have hj := (sent_justified hr packet hp).2
  rcases packet with ⟨src, dst, payload, sentAt⟩
  cases payload with
  | request r =>
      cases hpaxos
  | paxos f =>
      have hf : FrameAt C w.traces dst f src := hj
      have hto := (frameAt_origin hr hf).1
      cases hf with
      | proposal hf =>
          exact ⟨rfl, lt_of_mem_proposed hr hf.mem, hto⟩
      | accept hf =>
          rcases List.mem_filterMap.1 hf.mem with ⟨r, hmem, -⟩
          exact ⟨rfl, lt_of_mem_trace hr hmem, hto⟩
      | decision hf =>
          rcases List.mem_filterMap.1 hf.mem with ⟨r, hmem, -⟩
          exact ⟨rfl, lt_of_mem_trace hr hmem, hto⟩
      | decisionAck hf =>
          rcases hf.from_ with ⟨d, hd, -⟩
          rcases List.mem_filterMap.1 hd with ⟨r, hmem, -⟩
          exact ⟨rfl, lt_of_mem_trace hr hmem, hto⟩

/-- The frames are those of all channels. -/
theorem framesSent_channels (hr : Reachable C G w) :
    w.framesSent = ∑ i ∈ Finset.range C.numNodes, ∑ j ∈ Finset.range C.numNodes,
      (w.sentOn i j).length := by
  have hpaxos : ∀ packet ∈ w.sent, (!packet.isRequest) = true →
      packet.sender < C.numNodes ∧ packet.dst < C.numNodes := by
    intro packet hp hreq
    exact (sent_paxos hr hp (by simpa using hreq)).2
  rw [World.framesSent, countP_eq_sum Packet.sender (fun p hp h => (hpaxos p hp h).1)]
  refine Finset.sum_congr rfl ?_
  intro i _
  rw [countP_eq_sum Packet.dst
    (fun p hp h => (hpaxos p hp (Bool.and_eq_true_iff.1 h).1).2)]
  refine Finset.sum_congr rfl ?_
  intro j _
  rw [World.sentOn, List.length_filterMap_eq_countP]
  refine List.countP_congr ?_
  intro packet hp
  rw [packet.isSome_channel (fun hreq => (sent_paxos hr hp hreq).1)]

/-! ## Frames by server -/

/-- The frames that go with a line. -/
def Record.fanOut (C : Cluster) : Record → ℕ
  | .proposed _ => C.numNodes - 1
  | .acceptSent _ => 1
  | .decision _ => C.numNodes - 1
  | .handledDecision _ => if C.async then 1 else 0
  | _ => 0

/-- The answers go to servers of the cluster. -/
structure Record.Answers (C : Cluster) (r : Record) : Prop where
  accept : ∀ f, r = .acceptSent f → f.proposerId < C.numNodes
  ack : ∀ f, r = .handledDecision f → f.proposerId < C.numNodes

theorem sum_frameTo (hi : i < C.numNodes) {r : Record} (h : r.Answers C) :
    ∑ j ∈ Finset.range C.numNodes, (if (r.frameTo? C i j).isSome then 1 else 0) = r.fanOut C := by
  have hothers : ∑ j ∈ Finset.range C.numNodes, (if j ≠ i ∧ j < C.numNodes then 1 else 0) =
      C.numNodes - 1 := by
    have herase : (Finset.range C.numNodes).filter (fun j => j ≠ i ∧ j < C.numNodes) =
        (Finset.range C.numNodes).erase i := by
      ext j
      simp [Finset.mem_erase]
    rw [← Finset.card_filter, herase, Finset.card_erase_of_mem (Finset.mem_range.2 hi),
      Finset.card_range]
  cases r with
  | proposed f =>
      refine Eq.trans (Finset.sum_congr rfl ?_) hothers
      intro j _
      by_cases hj : j ≠ i ∧ j < C.numNodes <;> simp [Record.frameTo?, hj]
  | decision f =>
      refine Eq.trans (Finset.sum_congr rfl ?_) hothers
      intro j _
      by_cases hj : j ≠ i ∧ j < C.numNodes <;> simp [Record.frameTo?, hj]
  | acceptSent f =>
      have hlt := h.accept f rfl
      have hone : ∀ j, (if ((Record.acceptSent f).frameTo? C i j).isSome then 1 else 0) =
          if f.proposerId = j then 1 else 0 := by
        intro j
        by_cases hj : f.proposerId = j <;> simp [Record.frameTo?, hj]
      simp [hone, hlt, Record.fanOut]
  | handledDecision f =>
      have hlt := h.ack f rfl
      have hone : ∀ j, (if ((Record.handledDecision f).frameTo? C i j).isSome then 1 else 0) =
          if C.async = true ∧ f.proposerId = j then 1 else 0 := by
        intro j
        by_cases hj : C.async = true ∧ f.proposerId = j <;> simp [Record.frameTo?, hj]
      cases ha : C.async <;> simp [hone, hlt, ha, Record.fanOut]
  | _ =>
      simp [Record.frameTo?, Record.fanOut]

/-- The frames that a record speaks of. -/
theorem sum_fanOut (l : Trace) :
    (l.map (Record.fanOut C)).sum =
      (C.numNodes - 1) * (l.proposed.length + l.decisions.length) + l.acceptsSent.length +
        (if C.async then l.handledDecisions.length else 0) := by
  induction l with
  | nil =>
      simp
  | cons r l ih =>
      rw [List.map_cons, List.sum_cons, ih]
      cases r <;> cases ha : C.async <;>
        simp [Record.fanOut, Trace.proposed, Trace.decisions, Trace.acceptsSent,
          Trace.handledDecisions, List.filterMap_cons, ha] <;> ring

/-- What the servers have sent, by what is on record. -/
theorem framesSent_eq (hr : Reachable C G w) :
    w.framesSent = ∑ i ∈ Finset.range C.numNodes,
      ((C.numNodes - 1) * ((w.traces i).proposed.length + (w.traces i).decisions.length) +
        (w.traces i).acceptsSent.length +
        (if C.async then (w.traces i).handledDecisions.length else 0)) := by
  rw [framesSent_channels hr]
  refine Finset.sum_congr rfl ?_
  intro i hi
  have hanswers : ∀ r ∈ w.traces i, r.Answers C := by
    intro r hmem
    refine ⟨?_, ?_⟩
    · rintro f rfl
      rcases (sound hr).acceptSent (List.mem_filterMap.2 ⟨_, hmem, rfl⟩) with ⟨g, hg, t, rfl⟩
      exact lt_of_mem_proposed hr ((sound hr).handledProposal hg).mem
    · rintro f rfl
      have hat := (sound hr).handledDecision (List.mem_filterMap.2 ⟨_, hmem, rfl⟩)
      rcases List.mem_filterMap.1 hat.mem with ⟨r, hmem, -⟩
      exact lt_of_mem_trace hr hmem
  have hrow : ∀ l : Trace, (∀ r ∈ l, r.Answers C) →
      ∑ j ∈ Finset.range C.numNodes, (l.filterMap (Record.frameTo? C i j)).length =
        (l.map (Record.fanOut C)).sum := by
    intro l
    induction l with
    | nil =>
        simp
    | cons r l ih =>
        intro hl
        have hrest := ih (fun r hr => hl r (List.mem_cons_of_mem _ hr))
        simp only [List.length_filterMap_eq_countP, List.countP_cons, Finset.sum_add_distrib,
          List.map_cons, List.sum_cons] at hrest ⊢
        rw [hrest, sum_frameTo (Finset.mem_range.1 hi) (hl r List.mem_cons_self), add_comm]
  simp only [sent_channel hr]
  rw [hrow _ hanswers, sum_fanOut]

/-! ## What a server hears -/

section Heard

variable {kind : PaxosFrame → Bool}

/-- The frames of a kind whose senders are their proposers, from server `i` to server `a`. -/
theorem heard_le (hkind : ∀ f, kind f = true → f.sender = f.proposerId)
    (hG : ∀ w c, G w c → noCopiesTo a w c) (hr : Reachable C G w) (i : ℕ) :
    (((w.traces a).filterMap Record.handled?).filter kind).countP (fun f => f.proposerId == i) ≤
      ((w.sentOn i a).filter kind).length := by
  have hsender : ∀ f : PaxosFrame, (f.proposerId == i && kind f) = true → f.sender = i := by
    intro f hf
    rcases Bool.and_eq_true_iff.1 hf with ⟨hi, hk⟩
    rw [hkind f hk]
    exact beq_iff_eq.1 hi
  have hle := delivery_le (noCopiesTo_carries hG _) hr hsender
  have hall : (w.sentOn i a).countP (fun f => f.proposerId == i && kind f) ≤
      ((w.sentOn i a).filter kind).length := by
    rw [← List.countP_filter]
    exact List.countP_le_length
  rw [List.countP_filter]
  omega

theorem heard_ge (hkind : ∀ f, kind f = true → f.sender = f.proposerId)
    (hG : ∀ w c, G w c → noLossTo a w c) (hr : Reachable C G w)
    (hclear : w.Clear a (fun f => f.proposerId == i && kind f))
    (hown : ∀ f ∈ (w.sentOn i a).filter kind, f.proposerId = i) :
    ((w.sentOn i a).filter kind).length ≤
      (((w.traces a).filterMap Record.handled?).filter kind).countP
        (fun f => f.proposerId == i) := by
  have hsender : ∀ f : PaxosFrame, (f.proposerId == i && kind f) = true → f.sender = i := by
    intro f hf
    rcases Bool.and_eq_true_iff.1 hf with ⟨hi, hk⟩
    rw [hkind f hk]
    exact beq_iff_eq.1 hi
  have hge := delivered hG hr hclear hsender
  have hall : (w.sentOn i a).countP (fun f => f.proposerId == i && kind f) =
      ((w.sentOn i a).filter kind).length := by
    rw [← List.countP_filter, List.countP_eq_length]
    intro f hf
    exact beq_iff_eq.2 (hown f hf)
  rw [List.countP_filter]
  omega

theorem sender_of_isProposal (f : PaxosFrame) (h : f.isProposal = true) :
    f.sender = f.proposerId := sender_of_not_accept (by decide) h

theorem sender_of_isDecision (f : PaxosFrame) (h : f.isDecision = true) :
    f.sender = f.proposerId := sender_of_not_accept (by decide) h

end Heard

/-! ## What all servers hear -/

section Sums

variable {heard own : ℕ → List PaxosFrame} {n : ℕ}

/-- What all have heard, by who said it. -/
theorem sum_heard (h : ∀ a < n, ∀ f ∈ heard a, f.proposerId < n ∧ a ≠ f.proposerId) :
    ∑ a ∈ Finset.range n, (heard a).length =
      ∑ a ∈ Finset.range n, ∑ i ∈ (Finset.range n).erase a,
        (heard a).countP (fun f => f.proposerId == i) := by
  refine Finset.sum_congr rfl ?_
  intro a ha
  have hfrom := h a (Finset.mem_range.1 ha)
  have hself : (heard a).countP (fun f => f.proposerId == a) = 0 := by
    refine List.countP_eq_zero.2 ?_
    intro f hf heq
    exact (hfrom f hf).2 (beq_iff_eq.1 heq).symm
  calc (heard a).length
      = (heard a).countP (fun _ => true) := by simp
    _ = ∑ i ∈ Finset.range n, (heard a).countP (fun f => f.proposerId == i) := by
        rw [countP_eq_sum PaxosFrame.proposerId (fun f hf _ => (hfrom f hf).1)]
        simp only [Bool.true_and]
    _ = ∑ i ∈ (Finset.range n).erase a, (heard a).countP (fun f => f.proposerId == i) :=
        (Finset.sum_erase (f := fun i => (heard a).countP (fun f => f.proposerId == i)) _
          hself).symm

theorem sum_heard_le (h : ∀ a < n, ∀ f ∈ heard a, f.proposerId < n ∧ a ≠ f.proposerId)
    (hle : ∀ a < n, ∀ i < n, a ≠ i →
      (heard a).countP (fun f => f.proposerId == i) ≤ (own i).length) :
    ∑ a ∈ Finset.range n, (heard a).length ≤ (n - 1) * ∑ i ∈ Finset.range n, (own i).length := by
  rw [sum_heard h, ← sum_others]
  refine Finset.sum_le_sum ?_
  intro a ha
  refine Finset.sum_le_sum ?_
  intro i hi
  rcases Finset.mem_erase.1 hi with ⟨hne, hi⟩
  exact hle a (Finset.mem_range.1 ha) i (Finset.mem_range.1 hi) hne.symm

theorem sum_heard_ge (h : ∀ a < n, ∀ f ∈ heard a, f.proposerId < n ∧ a ≠ f.proposerId)
    (hge : ∀ a < n, ∀ i < n, a ≠ i →
      (own i).length ≤ (heard a).countP (fun f => f.proposerId == i)) :
    (n - 1) * ∑ i ∈ Finset.range n, (own i).length ≤ ∑ a ∈ Finset.range n, (heard a).length := by
  rw [sum_heard h, ← sum_others]
  refine Finset.sum_le_sum ?_
  intro a ha
  refine Finset.sum_le_sum ?_
  intro i hi
  rcases Finset.mem_erase.1 hi with ⟨hne, hi⟩
  exact hge a (Finset.mem_range.1 ha) i (Finset.mem_range.1 hi) hne.symm

end Sums

section Bounds

theorem handledProposals_from (hr : Reachable C G w) :
    ∀ a < C.numNodes, ∀ f ∈ (w.traces a).handledProposals,
      f.proposerId < C.numNodes ∧ a ≠ f.proposerId := by
  intro a _ f hf
  have hat := (sound hr).handledProposal hf
  exact ⟨lt_of_mem_proposed hr hat.mem, hat.ne⟩

theorem handledDecisions_from (hr : Reachable C G w) :
    ∀ a < C.numNodes, ∀ f ∈ (w.traces a).handledDecisions,
      f.proposerId < C.numNodes ∧ a ≠ f.proposerId := by
  intro a _ f hf
  have hat := (sound hr).handledDecision hf
  rcases List.mem_filterMap.1 hat.mem with ⟨r, hmem, -⟩
  exact ⟨lt_of_mem_trace hr hmem, hat.ne⟩

theorem handledProposals_le (hG : ∀ a, ∀ w c, G w c → noCopiesTo a w c) (hr : Reachable C G w) :
    ∑ a ∈ Finset.range C.numNodes, (w.traces a).handledProposals.length ≤
      (C.numNodes - 1) * w.proposalsMade C := by
  refine sum_heard_le (handledProposals_from hr) ?_
  intro a halt i _ hne
  have hle := heard_le sender_of_isProposal (hG a) hr i
  rwa [handled_proposals hr a, sentOn_proposals hr hne halt] at hle

theorem handledDecisions_le (hG : ∀ a, ∀ w c, G w c → noCopiesTo a w c) (hr : Reachable C G w) :
    ∑ a ∈ Finset.range C.numNodes, (w.traces a).handledDecisions.length ≤
      (C.numNodes - 1) * ∑ i ∈ Finset.range C.numNodes, (w.traces i).decisions.length := by
  refine sum_heard_le (handledDecisions_from hr) ?_
  intro a halt i _ hne
  have hle := heard_le sender_of_isDecision (hG a) hr i
  rwa [handled_decisions hr a, sentOn_decisions hr hne halt] at hle

/-- A PROPOSAL that was handled has been answered, or waits for its answer. -/
theorem length_answers (hr : Reachable C G w) (a : ℕ) :
    (w.traces a).acceptsSent.length + (w.pending a Task.answering).length =
      (w.traces a).handledProposals.length := by
  have hbal := congrArg List.length (answers hr a)
  have hanswered : (w.traces a).filterMap Record.answered =
      (w.traces a).acceptsSent.map PaxosFrame.body := by
    rw [List.map_filterMap]
    rfl
  rw [List.length_append, hanswered, List.length_map, List.length_map] at hbal
  exact hbal

end Bounds

/-! ## DECISIONs and proposals -/

namespace Server

variable {s : Server} {x : ℕ} {found : Proposal} (q : Proposal → Bool)

theorem countP_eraseProposal (hl : s.proposals.lookup x = some found) :
    s.outstanding.countP q =
      (s.eraseProposal x).outstanding.countP q + (if q found = true then 1 else 0) := by
  rw [outstanding, (AList.values_erase_perm hl).countP_eq, List.countP_cons]
  rfl

theorem countP_putProposal (p : Proposal) :
    (s.putProposal x p).outstanding.countP q =
      (s.eraseProposal x).outstanding.countP q + (if q p = true then 1 else 0) :=
  List.countP_cons

/-- An entry for a new id, or in the place of an old one. -/
theorem countP_putProposal_le (p : Proposal) :
    (s.putProposal x p).outstanding.countP q ≤ s.outstanding.countP q + 1 := by
  have hput := countP_putProposal (s := s) (x := x) q p
  have hsub : (s.eraseProposal x).outstanding.countP q ≤ s.outstanding.countP q :=
    ((List.kerase_sublist x s.proposals.entries).map Sigma.snd).countP_le
  split at hput <;> omega

end Server

/-- What is announced and what is still to be decided has been proposed. -/
def Pledged (s : Server) : Prop :=
  s.trace.decisions.length + s.outstanding.countP (fun p => p.decisionTime == 0) ≤
    s.trace.proposed.length

namespace Pledged

variable {s : Server} {x : ℕ} {p found : Proposal}

theorem record (h : Pledged s) {r : Record} (hp : r.proposed? = none) (hd : r.decision? = none) :
    Pledged (s.record r) := by
  unfold Pledged at h ⊢
  simp only [Server.record, Trace.proposed, Trace.decisions, List.filterMap_append,
    List.filterMap_cons, hp, hd, List.filterMap_nil, List.append_nil]
  exact h

/-- An entry that stays as undecided as it was. -/
theorem putProposal (h : Pledged s) (hl : s.proposals.lookup x = some found)
    (htime : p.decisionTime = found.decisionTime) : Pledged (s.putProposal x p) := by
  have hold := Server.countP_eraseProposal (fun p => p.decisionTime == 0) hl
  have hnew := Server.countP_putProposal (s := s) (x := x) (fun p => p.decisionTime == 0) p
  simp only [htime] at hnew
  unfold Pledged at h ⊢
  rw [hnew, ← hold]
  exact h

theorem eraseProposal (h : Pledged s) (hl : s.proposals.lookup x = some found) :
    Pledged (s.eraseProposal x) := by
  have hold := Server.countP_eraseProposal (fun p => p.decisionTime == 0) hl
  unfold Pledged at h ⊢
  have hle : s.trace.decisions.length +
      (s.eraseProposal x).outstanding.countP (fun p => p.decisionTime == 0) ≤
      s.trace.proposed.length := by omega
  exact hle

/-- A majority: the DECISION takes the place of the undecided entry. -/
theorem announce (h : Pledged s) (hl : s.proposals.lookup x = some found)
    (hzero : found.decisionTime = 0) (d : PaxosFrame) :
    Pledged ((s.record (.decision d)).eraseProposal x) := by
  have hold := Server.countP_eraseProposal (fun p => p.decisionTime == 0) hl
  have hdecisions : ((s.record (.decision d)).eraseProposal x).trace.decisions.length =
      s.trace.decisions.length + 1 := by
    simp [Server.record, Server.eraseProposal]
  have hproposed : ((s.record (.decision d)).eraseProposal x).trace.proposed =
      s.trace.proposed := by
    simp [Server.record, Server.eraseProposal]
  have hsame : ((s.record (.decision d)).eraseProposal x).outstanding =
      (s.eraseProposal x).outstanding := rfl
  unfold Pledged at h ⊢
  rw [hdecisions, hproposed, hsame]
  simp [hzero] at hold
  omega

theorem propose (h : Pledged s) (i : ℕ) (now : Time) (p : Proposal) (rest : List Proposal) :
    Pledged (s.propose i now p rest) := by
  have hle := Server.countP_putProposal_le (s := s) (x := p.proposalId)
    (fun p => p.decisionTime == 0) (p.propose i now)
  have hproposed : (s.propose i now p rest).trace.proposed.length =
      s.trace.proposed.length + 1 := by
    simp [Server.propose, Server.record, Server.putProposal]
  have hdecisions : (s.propose i now p rest).trace.decisions = s.trace.decisions := by
    simp [Server.propose, Server.record, Server.putProposal]
  have hsame : (s.propose i now p rest).outstanding =
      (s.putProposal p.proposalId (p.propose i now)).outstanding := rfl
  unfold Pledged at h ⊢
  rw [hproposed, hdecisions, hsame]
  omega

end Pledged

/-- Every server keeps its pledge, whatever the network does. -/
theorem pledged (hr : Reachable C G w) (i : ℕ) : Pledged (w.servers i) := by
  refine change_invariant (Q := fun _ => True) (P := fun _ s => Pledged s)
    (fun _ _ _ _ _ _ => trivial) (fun _ => Nat.le_refl 0) ?_ hr trivial i
  intro w₀ c w i now task s s' hturn _ hpre hled hs hc
  have hpre' : s.trace <+: w.traces i := hc.trace_grows.trans hpre
  cases hc with
  | @note _ _ r hr =>
      cases r <;> simp [Record.IsNote] at hr <;> exact hs.record rfl rfl
  | queue =>
      exact hs.record (r := .queued _) rfl rfl
  | propose =>
      exact hs.propose _ _ _ _
  | @accept _ f =>
      exact hs.record (r := .handledProposal f) rfl rfl
  | ignoreVote =>
      exact hs.record rfl rfl
  | @vote _ f found _ hl =>
      have hrec : Pledged (s.record (.handledAccept f)) := hs.record rfl rfl
      exact hrec.putProposal hl rfl
  | @elect _ f found _ hl hel =>
      -- The new entry has a decision time, since the clock is past zero.
      have hpos : 0 < now := by
        rcases (hled.outstanding _ _ hl).origin with ⟨g, hg, -⟩
        exact hturn.pos (List.ne_nil_of_mem (mem_filterMap_mono hpre' hg))
      have hrec : Pledged (s.record (.handledAccept f)) := hs.record rfl rfl
      have hann := hrec.announce hl hel.2 (decisionFrame now f)
      have hput := Server.countP_putProposal (s := (s.record (.handledAccept f)).record
        (.decision (decisionFrame now f))) (x := f.proposalId)
        (fun p => p.decisionTime == 0) (found.elect now)
      have hnz : ((found.elect now).decisionTime == 0) = false := by
        simp [Proposal.elect, Nat.pos_iff_ne_zero.1 hpos]
      rw [if_neg (by simp [hnz]), Nat.add_zero] at hput
      unfold Pledged at hann ⊢
      rw [hput]
      exact hann
  | @decide _ f found _ hl hel =>
      have hrec : Pledged (s.record (.handledAccept f)) := hs.record rfl rfl
      have hann := hrec.announce hl hel.2 (decisionFrame now f)
      exact hann.record (r := .decided (found.elect now)) rfl rfl
  | @learn _ f =>
      have hrec : Pledged (s.record (.handledDecision f)) := hs.record rfl rfl
      exact hrec.record (r := .decided (learnedProposal f)) rfl rfl
  | ignoreAck =>
      exact hs.record rfl rfl
  | @ack _ f found _ hl =>
      have hrec : Pledged (s.record (.handledDecisionAck f)) := hs.record rfl rfl
      exact hrec.putProposal hl rfl
  | @confirm _ f found _ hl =>
      have hrec : Pledged (s.record (.handledDecisionAck f)) := hs.record rfl rfl
      exact (hrec.eraseProposal hl).record (r := .decided (found.confirm now)) rfl rfl
  | _ =>
      exact hs

/-! ## The bound -/

/-- A DECISION is sent for a proposal. -/
theorem length_decisions_le (hr : Reachable C G w) (i : ℕ) :
    (w.traces i).decisions.length ≤ (w.traces i).proposed.length :=
  (Nat.le_add_right _ _).trans (pledged hr i)

/-- Frame by frame, the kinds of traffic added up. -/
theorem framesSent_sums (hr : Reachable C G w) :
    w.framesSent = (C.numNodes - 1) * w.proposalsMade C +
      (C.numNodes - 1) * ∑ i ∈ Finset.range C.numNodes, (w.traces i).decisions.length +
      ∑ i ∈ Finset.range C.numNodes, (w.traces i).acceptsSent.length +
      (if C.async then ∑ i ∈ Finset.range C.numNodes, (w.traces i).handledDecisions.length
        else 0) := by
  rw [framesSent_eq hr]
  cases ha : C.async <;>
    simp only [Finset.sum_add_distrib, ← Finset.mul_sum, Nat.mul_add, World.proposalsMade,
      if_true, if_false, Bool.false_eq_true, Finset.sum_const_zero]

theorem framesSent_le (hG : ∀ a, ∀ w c, G w c → noCopiesTo a w c) (hr : Reachable C G w) :
    w.framesSent ≤ C.rounds * ((C.numNodes - 1) * w.proposalsMade C) := by
  have hdecisions : ∑ i ∈ Finset.range C.numNodes, (w.traces i).decisions.length ≤
      w.proposalsMade C := Finset.sum_le_sum (fun i _ => length_decisions_le hr i)
  have hdecided := Nat.mul_le_mul_left (C.numNodes - 1) hdecisions
  have haccepts : ∑ i ∈ Finset.range C.numNodes, (w.traces i).acceptsSent.length ≤
      ∑ i ∈ Finset.range C.numNodes, (w.traces i).handledProposals.length := by
    refine Finset.sum_le_sum ?_
    intro i _
    have hbal := length_answers hr i
    omega
  have hproposals := handledProposals_le hG hr
  have hlearned := handledDecisions_le hG hr
  rw [framesSent_sums hr, Cluster.rounds]
  cases C.async <;> simp only [if_true, if_false, Bool.false_eq_true] <;> omega

/-- In every reachable state, whatever is lost, delayed or reordered: a proposal has cost at most
three frames for each other server, and in asynchronous mode four. -/
theorem frames_le (hr : Reachable C noCopies w) :
    w.framesSent ≤ C.rounds * ((C.numNodes - 1) * w.proposalsMade C) :=
  framesSent_le (fun _ _ _ h => onTransit_mono (fun _ _ _ _ hrule _ _ => hrule) h) hr

/-- The PROPOSAL for server 1 is lost. -/
theorem frames_le_three_servers :
    ∃ w, Reachable (.oneClient 3 (by decide) true 0 10 9000 3 5 0) noCopies w ∧
      w.framesSent = 5 ∧
      w.framesSent ≤ Cluster.rounds (.oneClient 3 (by decide) true 0 10 9000 3 5 0) *
        (2 * w.proposalsMade (.oneClient 3 (by decide) true 0 10 9000 3 5 0)) := by
  have hrun := exists_reachable_of_runInputs
    (S := program (.oneClient 3 (by decide) true 0 10 9000 3 5 0)) (G := noCopies)
    (List.replicate 17 ({} : Choice) ++ [{ fate := .lose }] ++ List.replicate 7 ({} : Choice))
    (fun w => w.framesSent = 5) (by decide +kernel)
  rcases hrun with ⟨w, hr, htest⟩
  exact ⟨w, hr, of_decide_eq_true htest, frames_le hr⟩

/-! ## At rest -/

section Rest

theorem handledProposals_ge (hr : Reachable C (crashed ∅) w) (hq : w.Quiet C ∅) :
    (C.numNodes - 1) * w.proposalsMade C ≤
      ∑ a ∈ Finset.range C.numNodes, (w.traces a).handledProposals.length := by
  refine sum_heard_ge (handledProposals_from hr) ?_
  intro a halt i _ hne
  have hsent := sentOn_proposals hr hne halt
  have hge := heard_ge sender_of_isProposal (noLossTo_of_crashed (Finset.notMem_empty a)) hr
    (hq.clear halt (Finset.notMem_empty a) _)
    (fun f hf => ((sound hr).proposed (hsent ▸ hf)).2)
  rwa [handled_proposals hr a, hsent] at hge

theorem handledDecisions_ge (hr : Reachable C (crashed ∅) w) (hq : w.Quiet C ∅) :
    (C.numNodes - 1) * ∑ i ∈ Finset.range C.numNodes, (w.traces i).decisions.length ≤
      ∑ a ∈ Finset.range C.numNodes, (w.traces a).handledDecisions.length := by
  refine sum_heard_ge (handledDecisions_from hr) ?_
  intro a halt i _ hne
  have hsent := sentOn_decisions hr hne halt
  have hge := heard_ge sender_of_isDecision (noLossTo_of_crashed (Finset.notMem_empty a)) hr
    (hq.clear halt (Finset.notMem_empty a) _)
    (fun f hf => ((sound hr).decision_origin (hsent ▸ hf)).2.1)
  rwa [handled_decisions hr a, hsent] at hge

/-- Every proposal has been announced. -/
theorem length_decisions_of_quiet (hn : 2 ≤ C.numNodes) (hr : Reachable C (crashed ∅) w)
    (hd : w.QueuedDistinct) (hq : w.Quiet C ∅) (i : ℕ) :
    (w.traces i).decisions.length = (w.traces i).proposed.length := by
  refine Nat.le_antisymm (length_decisions_le hr i) ?_
  have hsub : (w.traces i).proposed.map PaxosFrame.proposalId ⊆
      (w.traces i).decisions.map PaxosFrame.proposalId := by
    intro x hx
    rcases List.mem_map.1 hx with ⟨f, hf, rfl⟩
    rcases own_decided hr hd hf (lookup_eq_none_of_quiet hn (by simp; omega) hr hd hq i _) with
      ⟨q, hmem, hkey, hnode⟩
    rcases decided_by_decision hr hd hmem with ⟨d, hdec, hdkey, -⟩
    rw [hnode] at hdec
    exact List.mem_map.2 ⟨d, hdec, congrArg Prod.fst (hdkey.trans hkey)⟩
  have hle := ((proposed_nodup hr hd i).subperm hsub).length_le
  rwa [List.length_map, List.length_map] at hle

/-- Over a network that loses and copies no Paxos frame, whenever none is on its way and no handler
waits, every proposal has cost exactly three frames for each other server, and in asynchronous mode
four. -/
theorem frames_at_rest (hr : Reachable C (crashed ∅) w) (hd : w.DistinctTimestamps)
    (hq : w.Quiet C ∅) : w.framesSent = C.rounds * ((C.numNodes - 1) * w.proposalsMade C) := by
  have hle := framesSent_le (fun a => noCopiesTo_of_crashed (Finset.notMem_empty a)) hr
  by_cases hn : 2 ≤ C.numNodes
  · have hdist : w.QueuedDistinct :=
      queuedDistinct (fun _ _ h => onTransit_mono (fun _ _ _ _ hrule => hrule.2.1) h) hr hd
    have hdecisions : ∑ i ∈ Finset.range C.numNodes, (w.traces i).decisions.length =
        w.proposalsMade C :=
      Finset.sum_congr rfl (fun i _ => length_decisions_of_quiet hn hr hdist hq i)
    -- No answer is outstanding.
    have haccepts : ∑ i ∈ Finset.range C.numNodes, (w.traces i).acceptsSent.length =
        ∑ i ∈ Finset.range C.numNodes, (w.traces i).handledProposals.length := by
      refine Finset.sum_congr rfl ?_
      intro i hi
      have hbal := length_answers hr i
      rw [hq.answering (Finset.mem_range.1 hi) (Finset.notMem_empty i)] at hbal
      exact hbal
    have hproposals := handledProposals_ge hr hq
    have hlearned := handledDecisions_ge hr hq
    refine Nat.le_antisymm hle ?_
    rw [hdecisions] at hlearned
    rw [framesSent_sums hr, Cluster.rounds, haccepts, hdecisions]
    cases C.async <;> simp only [if_true, if_false, Bool.false_eq_true] <;> omega
  · -- A server that is alone sends nothing.
    have hzero : C.numNodes - 1 = 0 := by omega
    rw [hzero, Nat.zero_mul, Nat.mul_zero] at hle ⊢
    exact Nat.le_zero.1 hle

end Rest

/-- One proposal of three servers in asynchronous mode: eight frames. -/
theorem frames_at_rest_three_servers :
    ∃ w, Reachable (.oneClient 3 (by decide) true 0 10 9000 3 5 0) (crashed ∅) w ∧
      w.proposalsMade (.oneClient 3 (by decide) true 0 10 9000 3 5 0) = 1 ∧
      w.framesSent = Cluster.rounds (.oneClient 3 (by decide) true 0 10 9000 3 5 0) *
        (2 * w.proposalsMade (.oneClient 3 (by decide) true 0 10 9000 3 5 0)) := by
  have hrun := exists_reachable_of_runInputs
    (S := program (.oneClient 3 (by decide) true 0 10 9000 3 5 0)) (G := crashed ∅)
    (List.replicate 35 ({} : Choice))
    (fun w => w.proposalsMade (.oneClient 3 (by decide) true 0 10 9000 3 5 0) = 1 ∧
      (∀ packet ∈ w.inTransit, packet.isRequest = false → packet.dst ∈ (∅ : Finset ℕ)) ∧
      ∀ i : ℕ, i < 3 → i ∉ (∅ : Finset ℕ) →
        w.pending i Task.received? = [] ∧ w.pending i Task.answering? = []) (by decide +kernel)
  rcases hrun with ⟨w, hr, htest⟩
  rcases of_decide_eq_true htest with ⟨hmade, hnet, hcalls⟩
  exact ⟨w, hr, hmade, frames_at_rest hr (distinctTimestamps rfl (by decide) hr) ⟨hnet, hcalls⟩⟩

end SyncPaxos
