import SyncPaxos.Safety.Decisions

/-!
# Counters — what `numAck` and `numDecisionAck` count

The two counters of an entry are anonymous.  While no timestamp is queued twice they count, on
top of the proposer itself, exactly the ACCEPTs and the DECISION_ACKs that the server has handled
for the id: none was handled before the entry was made, and none is forgotten while it is there.
Nothing is assumed about the network, so a copy of a frame is counted like the frame.
-/

namespace SyncPaxos

open DiscreteEvent

namespace Trace

/-- The senders of the ACCEPTs handled for the proposal `x`. -/
def acceptors (tr : Trace) (x : ℕ) : List ℕ :=
  (tr.handledAccepts.filter (fun f => f.proposalId == x)).map PaxosFrame.acceptorId

/-- The senders of the DECISION_ACKs handled for the proposal `x`. -/
def ackers (tr : Trace) (x : ℕ) : List ℕ :=
  (tr.handledDecisionAcks.filter (fun f => f.proposalId == x)).map PaxosFrame.proposerId

/-- What a line adds to the senders of the ACCEPTs for `x`. -/
theorem acceptors_concat (tr : Trace) (r : Record) (x : ℕ) :
    Trace.acceptors (tr ++ [r]) x =
      tr.acceptors x ++ (r.handledAccept?.toList.filter (fun f => f.proposalId == x)).map
        PaxosFrame.acceptorId := by
  rw [acceptors, handledAccepts, filterMap_concat, List.filter_append, List.map_append, acceptors]

theorem ackers_concat (tr : Trace) (r : Record) (x : ℕ) :
    Trace.ackers (tr ++ [r]) x =
      tr.ackers x ++ (r.handledDecisionAck?.toList.filter (fun f => f.proposalId == x)).map
        PaxosFrame.proposerId := by
  rw [ackers, handledDecisionAcks, filterMap_concat, List.filter_append, List.map_append, ackers]

theorem acceptors_of_other {tr : Trace} {r : Record} {x : ℕ}
    (h : ∀ f, r.handledAccept? = some f → f.proposalId ≠ x) :
    Trace.acceptors (tr ++ [r]) x = tr.acceptors x := by
  have hnone : r.handledAccept?.toList.filter (fun f => f.proposalId == x) = [] := by
    refine List.filter_eq_nil_iff.2 ?_
    intro f hf
    simpa using h f (Option.mem_toList.1 hf)
  rw [acceptors_concat, hnone, List.map_nil, List.append_nil]

theorem ackers_of_other {tr : Trace} {r : Record} {x : ℕ}
    (h : ∀ f, r.handledDecisionAck? = some f → f.proposalId ≠ x) :
    Trace.ackers (tr ++ [r]) x = tr.ackers x := by
  have hnone : r.handledDecisionAck?.toList.filter (fun f => f.proposalId == x) = [] := by
    refine List.filter_eq_nil_iff.2 ?_
    intro f hf
    simpa using h f (Option.mem_toList.1 hf)
  rw [ackers_concat, hnone, List.map_nil, List.append_nil]

theorem length_acceptors_le (tr : Trace) (r : Record) (x : ℕ) :
    (tr.acceptors x).length ≤ (Trace.acceptors (tr ++ [r]) x).length := by
  rw [acceptors_concat, List.length_append]
  exact Nat.le_add_right _ _

theorem length_ackers_le (tr : Trace) (r : Record) (x : ℕ) :
    (tr.ackers x).length ≤ (Trace.ackers (tr ++ [r]) x).length := by
  rw [ackers_concat, List.length_append]
  exact Nat.le_add_right _ _

theorem acceptors_append (tr : Trace) (f : PaxosFrame) :
    Trace.acceptors (tr ++ [.handledAccept f]) f.proposalId =
      tr.acceptors f.proposalId ++ [f.acceptorId] := by
  simp [acceptors]

theorem ackers_append (tr : Trace) (f : PaxosFrame) :
    Trace.ackers (tr ++ [.handledDecisionAck f]) f.proposalId =
      tr.ackers f.proposalId ++ [f.proposerId] := by
  simp [ackers]

theorem ackers_append_accept (tr : Trace) (f : PaxosFrame) (x : ℕ) :
    Trace.ackers (tr ++ [.handledAccept f]) x = tr.ackers x :=
  ackers_of_other (by simp)

theorem acceptors_append_ack (tr : Trace) (f : PaxosFrame) (x : ℕ) :
    Trace.acceptors (tr ++ [.handledDecisionAck f]) x = tr.acceptors x :=
  acceptors_of_other (by simp)

end Trace

/-- The counters of server `i` against its record. -/
structure Counters (C : Cluster) (i : ℕ) (s : Server) : Prop where
  voted : ∀ f ∈ s.trace.handledAccepts,
    f.proposalId ∈ s.trace.proposed.map PaxosFrame.proposalId
  acked : ∀ f ∈ s.trace.handledDecisionAcks,
    f.proposalId ∈ s.trace.decisions.map PaxosFrame.proposalId
  numAck : ∀ x p, s.proposals.lookup x = some p →
    p.numAck = (1 + (s.trace.acceptors x).length) % 2 ^ 32
  numDecisionAck : C.async = true → ∀ x p, s.proposals.lookup x = some p →
    p.numDecisionAck = (1 + (s.trace.ackers x).length) % 2 ^ 32
  decision : ∀ d ∈ s.trace.decisions,
    C.numNodes / 2 < 1 + (s.trace.acceptors d.proposalId).length
  confirmed : C.async = true → ∀ p ∈ s.trace.decided, p.nodeId = i →
    C.numNodes / 2 < 1 + (s.trace.ackers p.proposalId).length

namespace Counters

variable {C : Cluster} {i : ℕ} {s s' : Server}

theorem init (C : Cluster) (i : ℕ) : Counters C i {} := by
  refine ⟨?_, ?_, ?_, ?_, ?_, ?_⟩
  · intro f hf
    cases hf
  · intro f hf
    cases hf
  · intro x p hl
    simp at hl
  · intro _ x p hl
    simp at hl
  · intro d hd
    cases hd
  · intro _ p hp
    cases hp

/-- Nothing else of a server matters, and entries may be missing. -/
theorem of_le (h : Counters C i s) (htrace : s'.trace = s.trace)
    (hsub : ∀ x p, s'.proposals.lookup x = some p → s.proposals.lookup x = some p) :
    Counters C i s' := by
  rcases h with ⟨hvoted, hacked, hvotes, hacks, hdec, hconf⟩
  rw [← htrace] at hvoted hacked hvotes hacks hdec hconf
  exact ⟨hvoted, hacked, fun x p hl => hvotes x p (hsub x p hl),
    fun ha x p hl => hacks ha x p (hsub x p hl), hdec, hconf⟩

/-- One line more.  An entry that the line counts for is left out. -/
theorem of_record (h : Counters C i s) {r : Record} (htrace : s'.trace = s.trace ++ [r])
    (hentries : ∀ x p, s'.proposals.lookup x = some p → s.proposals.lookup x = some p ∧
      (∀ f, r.handledAccept? = some f → f.proposalId ≠ x) ∧
      (C.async = true → ∀ f, r.handledDecisionAck? = some f → f.proposalId ≠ x))
    (hvoted : ∀ f, r.handledAccept? = some f →
      f.proposalId ∈ s.trace.proposed.map PaxosFrame.proposalId)
    (hacked : ∀ f, r.handledDecisionAck? = some f →
      f.proposalId ∈ s.trace.decisions.map PaxosFrame.proposalId)
    (hdecision : ∀ d, r.decision? = some d →
      C.numNodes / 2 < 1 + (s.trace.acceptors d.proposalId).length)
    (hconfirmed : C.async = true → ∀ p, r.decided? = some p → p.nodeId = i →
      C.numNodes / 2 < 1 + (s.trace.ackers p.proposalId).length) :
    Counters C i s' := by
  have hpre : s.trace <+: s'.trace := by
    rw [htrace]
    exact List.prefix_append _ _
  constructor
  · intro f hf
    rw [htrace] at hf
    apply ((hpre.filterMap Record.proposed?).map PaxosFrame.proposalId).subset
    rcases mem_filterMap_concat.1 hf with hf | hnew
    · exact h.voted f hf
    · exact hvoted f hnew
  · intro f hf
    rw [htrace] at hf
    apply ((hpre.filterMap Record.decision?).map PaxosFrame.proposalId).subset
    rcases mem_filterMap_concat.1 hf with hf | hnew
    · exact h.acked f hf
    · exact hacked f hnew
  · intro x p hl
    rcases hentries x p hl with ⟨hold, hother, -⟩
    rw [htrace, Trace.acceptors_of_other hother]
    exact h.numAck x p hold
  · intro ha x p hl
    rcases hentries x p hl with ⟨hold, -, hother⟩
    rw [htrace, Trace.ackers_of_other (hother ha)]
    exact h.numDecisionAck ha x p hold
  · -- A majority that has voted stays one.
    intro d hd
    rw [htrace] at hd ⊢
    have hhalf : C.numNodes / 2 < 1 + (s.trace.acceptors d.proposalId).length := by
      rcases mem_filterMap_concat.1 hd with hd | hnew
      · exact h.decision d hd
      · exact hdecision d hnew
    exact hhalf.trans_le (Nat.add_le_add_left (Trace.length_acceptors_le _ _ _) 1)
  · intro ha p hp hi
    rw [htrace] at hp ⊢
    have hhalf : C.numNodes / 2 < 1 + (s.trace.ackers p.proposalId).length := by
      rcases mem_filterMap_concat.1 hp with hp | hnew
      · exact h.confirmed ha p hp hi
      · exact hconfirmed ha p hnew hi
    exact hhalf.trans_le (Nat.add_le_add_left (Trace.length_ackers_le _ _ _) 1)

/-- A line that neither counts nor decides. -/
theorem record (h : Counters C i s) {r : Record} (hacc : r.handledAccept? = none)
    (hack : r.handledDecisionAck? = none) (hdec : r.decision? = none)
    (hlog : r.decided? = none) : Counters C i (s.record r) := by
  refine h.of_record rfl ?_ ?_ ?_ ?_ ?_
  · intro x p hl
    refine ⟨hl, ?_, ?_⟩
    · intro f hf
      cases hacc.symm.trans hf
    · intro _ f hf
      cases hack.symm.trans hf
  · intro f hf
    cases hacc.symm.trans hf
  · intro f hf
    cases hack.symm.trans hf
  · intro d hd
    cases hdec.symm.trans hd
  · intro _ p hp
    cases hlog.symm.trans hp

/-- An entry whose counters are right. -/
theorem putProposal (h : Counters C i s) {x : ℕ} {p : Proposal}
    (hvotes : p.numAck = (1 + (s.trace.acceptors x).length) % 2 ^ 32)
    (hacks : C.async = true → p.numDecisionAck = (1 + (s.trace.ackers x).length) % 2 ^ 32) :
    Counters C i (s.putProposal x p) := by
  refine ⟨h.voted, h.acked, ?_, ?_, h.decision, h.confirmed⟩
  · exact AList.forall_lookup_insert hvotes h.numAck
  · intro ha
    exact AList.forall_lookup_insert (hacks ha) (h.numDecisionAck ha)

/-- An ACCEPT is handled; the entry it belongs to is left out. -/
theorem handledAccept (h : Counters C i s) {f : PaxosFrame}
    (hf : f.proposalId ∈ s.trace.proposed.map PaxosFrame.proposalId) :
    Counters C i ((s.record (.handledAccept f)).eraseProposal f.proposalId) := by
  refine h.of_record (r := .handledAccept f) rfl ?_ ?_ (by simp) (by simp) (by simp)
  · intro x p hl
    rcases AList.lookup_erase_cases hl with ⟨hne, hold⟩
    exact ⟨hold, by simpa using hne.symm, by simp⟩
  · simpa using hf

/-- A DECISION_ACK is handled; the entry it belongs to is left out. -/
theorem handledDecisionAck (h : Counters C i s) {f : PaxosFrame}
    (hf : f.proposalId ∈ s.trace.decisions.map PaxosFrame.proposalId) :
    Counters C i ((s.record (.handledDecisionAck f)).eraseProposal f.proposalId) := by
  refine h.of_record (r := .handledDecisionAck f) rfl ?_ (by simp) ?_ (by simp) (by simp)
  · intro x p hl
    rcases AList.lookup_erase_cases hl with ⟨hne, hold⟩
    exact ⟨hold, by simp, fun _ => by simpa using hne.symm⟩
  · simpa using hf

/-- In synchronous mode a DECISION_ACK is not counted. -/
theorem handledDecisionAck_sync (h : Counters C i s) {f : PaxosFrame}
    (hf : f.proposalId ∈ s.trace.decisions.map PaxosFrame.proposalId) (hsync : C.async = false) :
    Counters C i (s.record (.handledDecisionAck f)) := by
  refine h.of_record (r := .handledDecisionAck f) rfl ?_ (by simp) ?_ (by simp) (by simp)
  · intro x p hl
    refine ⟨hl, by simp, ?_⟩
    intro ha
    cases hsync.symm.trans ha
  · simpa using hf

/-- A DECISION is broadcast once a majority has voted. -/
theorem announce (h : Counters C i s) {d : PaxosFrame}
    (hd : C.numNodes / 2 < 1 + (s.trace.acceptors d.proposalId).length) :
    Counters C i (s.record (.decision d)) := by
  refine h.of_record (r := .decision d) rfl ?_ (by simp) (by simp) ?_ (by simp)
  · intro x p hl
    exact ⟨hl, by simp, by simp⟩
  · intro d' hd'
    obtain rfl : d = d' := by simpa using hd'
    exact hd

/-- A proposal is decided, one of the server's own in asynchronous mode by a majority. -/
theorem pushDecided (h : Counters C i s) {p : Proposal}
    (hp : C.async = true → p.nodeId = i →
      C.numNodes / 2 < 1 + (s.trace.ackers p.proposalId).length) :
    Counters C i (s.pushDecided p) := by
  refine h.of_record (r := .decided p) rfl ?_ (by simp) (by simp) (by simp) ?_
  · intro x q hl
    exact ⟨hl, by simp, by simp⟩
  · intro ha q hq
    obtain rfl : p = q := by simpa using hq
    exact hp ha

/-- Erasing an entry before it is replaced makes no difference. -/
theorem put_of_erase {x : ℕ} {p : Proposal}
    (h : Counters C i ((s.eraseProposal x).putProposal x p)) : Counters C i (s.putProposal x p) :=
  h.of_le rfl (fun y _ hl => (AList.lookup_insert_erase y).trans hl)

/-- Erasing an entry that is not there makes no difference. -/
theorem of_erase {x : ℕ} (hnone : s.proposals.lookup x = none)
    (h : Counters C i (s.eraseProposal x)) : Counters C i s := by
  refine h.of_le rfl ?_
  intro y q hl
  have hxy : y ≠ x := by
    rintro rfl
    cases hnone.symm.trans hl
  rw [Server.eraseProposal, AList.lookup_erase_ne hxy]
  exact hl

end Counters

/-! ## Counting on -/

theorem numAck_succ {p : Proposal} {k : ℕ} (h : p.numAck = (1 + k) % 2 ^ 32) :
    p.incrementNumAck.numAck = (1 + (k + 1)) % 2 ^ 32 := by
  have heq : p.incrementNumAck.numAck = (p.numAck + 1) % 2 ^ 32 := rfl
  omega

theorem numDecisionAck_succ {p : Proposal} {k : ℕ} (h : p.numDecisionAck = (1 + k) % 2 ^ 32) :
    p.incrementNumDecisionAck.numDecisionAck = (1 + (k + 1)) % 2 ^ 32 := by
  have heq : p.incrementNumDecisionAck.numDecisionAck = (p.numDecisionAck + 1) % 2 ^ 32 := rfl
  omega

/-! ## Every change keeps the counters -/

section Change

variable {C : Cluster} {G : World → Choice → Prop} {Q : World → Prop} {w₀ w : World} {c : Choice}
  {i : ℕ} {now : Time} {s s' : Server} {f : PaxosFrame} {found : Proposal}

/-- An ACCEPT that waits for its handler answers a proposal of the server. -/
theorem Turn.accept_proposed (h : Turn C G Q w₀ c w i now (.doReceivedAcceptMessage f))
    (hpre : w₀.traces i <+: s.trace) :
    f.proposerId = i ∧ f.proposalId ∈ s.trace.proposed.map PaxosFrame.proposalId := by
  have hat : AcceptAt w₀.traces i f := h.scheduled
  rcases (sound h.before).acceptAt_origin hat with ⟨hown, -, -, g, hg, -, hid, -⟩
  exact ⟨hown, List.mem_map.2 ⟨g, mem_filterMap_mono hpre hg, hid.symm⟩⟩

/-- A DECISION_ACK that waits for its handler answers a DECISION of the server. -/
theorem Turn.ack_announced (h : Turn C G Q w₀ c w i now (.doReceivedDecisionAckMessage f))
    (hpre : w₀.traces i <+: s.trace) :
    f.proposalId ∈ s.trace.decisions.map PaxosFrame.proposalId := by
  rcases (h.scheduled : DecisionAckAt w₀.traces i f).from_ with ⟨d, hd, hfd, hi⟩
  have hmem := ((sound h.before).handledDecision hd).mem
  rw [← hi] at hmem
  refine List.mem_map.2 ⟨d, mem_filterMap_mono hpre hmem, ?_⟩
  rw [hfd]
  rfl

/-- What a vote leaves of the counters, but for the entry it is counted for. -/
theorem Counters.voteCounted (hs : Counters C i s)
    (hf : f.proposalId ∈ s.trace.proposed.map PaxosFrame.proposalId)
    (hl : s.proposals.lookup f.proposalId = some found) :
    Counters C i ((s.record (.handledAccept f)).eraseProposal f.proposalId) ∧
      found.incrementNumAck.numAck =
        (1 + (Trace.acceptors (s.trace ++ [.handledAccept f]) f.proposalId).length) % 2 ^ 32 ∧
      (C.async = true → found.numDecisionAck =
        (1 + (Trace.ackers (s.trace ++ [.handledAccept f]) f.proposalId).length) % 2 ^ 32) := by
  refine ⟨hs.handledAccept hf, ?_, ?_⟩
  · rw [Trace.acceptors_append, List.length_append]
    exact numAck_succ (hs.numAck _ _ hl)
  · intro ha
    rw [Trace.ackers_append_accept]
    exact hs.numDecisionAck ha _ _ hl

/-- What a DECISION_ACK leaves of the counters, but for the entry it is counted for. -/
theorem Counters.ackCounted (hs : Counters C i s) (ha : C.async = true)
    (hf : f.proposalId ∈ s.trace.decisions.map PaxosFrame.proposalId)
    (hl : s.proposals.lookup f.proposalId = some found) :
    Counters C i ((s.record (.handledDecisionAck f)).eraseProposal f.proposalId) ∧
      found.numAck =
        (1 + (Trace.acceptors (s.trace ++ [.handledDecisionAck f]) f.proposalId).length) % 2 ^ 32 ∧
      found.incrementNumDecisionAck.numDecisionAck =
        (1 + (Trace.ackers (s.trace ++ [.handledDecisionAck f]) f.proposalId).length) % 2 ^ 32 := by
  refine ⟨hs.handledDecisionAck hf, ?_, ?_⟩
  · rw [Trace.acceptors_append_ack]
    exact hs.numAck _ _ hl
  · rw [Trace.ackers_append, List.length_append]
    exact numDecisionAck_succ (hs.numDecisionAck ha _ _ hl)

/-- A first majority of votes. -/
theorem Counters.elected (hs : Counters C i s) (now : Time) (hann : Announced i s)
    (hf : f.proposalId ∈ s.trace.proposed.map PaxosFrame.proposalId)
    (hl : s.proposals.lookup f.proposalId = some found) (hel : found.Elected C) :
    Counters C i (((s.record (.handledAccept f)).record (.decision (decisionFrame now f))).putProposal
      f.proposalId (found.elect now)) := by
  rcases hs.voteCounted hf hl with ⟨hcount, hvotes, -⟩
  -- The counter is the number of votes modulo `2 ^ 32`, so there are at least as many votes.
  have hmajority : C.numNodes / 2 <
      1 + (Trace.acceptors (s.trace ++ [.handledAccept f]) f.proposalId).length := by
    have hgt := hel.1
    have hmod := Nat.mod_le
      (1 + (Trace.acceptors (s.trace ++ [.handledAccept f]) f.proposalId).length) (2 ^ 32)
    omega
  have hannounced := hcount.announce (d := decisionFrame now f) hmajority
  -- No DECISION_ACK came before the DECISION.
  have hnone : Trace.ackers (s.trace ++ [.handledAccept f]) f.proposalId = [] := by
    rw [Trace.ackers_append_accept]
    refine List.map_eq_nil_iff.2 (List.filter_eq_nil_iff.2 ?_)
    intro g hg hid
    have hid' : g.proposalId = f.proposalId := by simpa using hid
    exact hann.undecided _ _ hl hel.2 (hid' ▸ hs.acked g hg)
  have hacc : Trace.acceptors ((s.trace ++ [.handledAccept f]) ++ [.decision (decisionFrame now f)])
      f.proposalId = Trace.acceptors (s.trace ++ [.handledAccept f]) f.proposalId :=
    Trace.acceptors_of_other (by simp)
  have hack : Trace.ackers ((s.trace ++ [.handledAccept f]) ++ [.decision (decisionFrame now f)])
      f.proposalId = Trace.ackers (s.trace ++ [.handledAccept f]) f.proposalId :=
    Trace.ackers_of_other (by simp)
  refine Counters.put_of_erase (hannounced.putProposal ?_ ?_)
  · refine hvotes.trans ?_
    rw [← hacc]
    rfl
  · intro _
    have hlen : (Trace.ackers ((s.trace ++ [.handledAccept f]) ++
        [.decision (decisionFrame now f)]) f.proposalId).length = 0 := by
      rw [hack, hnone]
      rfl
    change 1 = (1 + (Trace.ackers ((s.trace ++ [.handledAccept f]) ++
        [.decision (decisionFrame now f)]) f.proposalId).length) % 2 ^ 32
    omega

theorem Counters.change {task : Task} (hturn : Turn C G World.QueuedDistinct w₀ c w i now task)
    (hpre₀ : w₀.traces i <+: s.trace) (hpre : s'.trace <+: w.traces i) (hled : Ledger i s)
    (hann : Announced i s) (hs : Counters C i s) (hc : Server.Change C i now task s s') :
    Counters C i s' := by
  have hpre' : s.trace <+: w.traces i := hc.trace_grows.trans hpre
  cases hc with
  | flags =>
      exact hs.of_le rfl (fun _ _ hl => hl)
  | @note _ _ r hr =>
      cases r <;> simp [Record.IsNote] at hr <;> exact hs.record rfl rfl rfl rfl
  | stop =>
      exact hs.of_le rfl (fun _ _ hl => hl)
  | @queue _ r =>
      exact (hs.record (r := .queued r) rfl rfl rfl rfl).of_le rfl (fun _ _ hl => hl)
  | @propose _ _ p rest hw =>
      have hqueued : (s.trace.queued.map RequestFrame.timestamp).Nodup :=
        (hturn.holds.nodup i).sublist
          ((hpre'.filterMap Record.queued?).map RequestFrame.timestamp).sublist
      have hnew := front_not_proposed hled hqueued hw
      -- The id is new, so nothing has been counted for it.
      have hacc : s.trace.acceptors p.proposalId = [] := by
        refine List.map_eq_nil_iff.2 (List.filter_eq_nil_iff.2 ?_)
        intro g hg hid
        have hid' : g.proposalId = p.proposalId := by simpa using hid
        exact hnew (hid' ▸ hs.voted g hg)
      have hack : s.trace.ackers p.proposalId = [] := by
        refine List.map_eq_nil_iff.2 (List.filter_eq_nil_iff.2 ?_)
        intro g hg hid
        have hid' : g.proposalId = p.proposalId := by simpa using hid
        rcases List.mem_map.1 (hs.acked g hg) with ⟨d, hd, hdid⟩
        have hprop := hann.proposed d hd
        rw [hdid, hid'] at hprop
        exact hnew hprop
      have hput : Counters C i (s.putProposal p.proposalId (p.propose i now)) := by
        refine hs.putProposal ?_ ?_
        · rw [hacc]
          rfl
        · intro _
          rw [hack]
          rfl
      exact (hput.record (r := .proposed (proposalFrame i now p)) rfl rfl rfl rfl).of_le rfl
        (fun _ _ hl => hl)
  | @accept _ f =>
      exact (hs.record (r := .handledProposal f) rfl rfl rfl rfl).of_le rfl (fun _ _ hl => hl)
  | @ignoreVote _ f hig =>
      rcases hturn.accept_proposed hpre₀ with ⟨hown, hprop⟩
      -- The vote is for this server, so it is ignored because there is no entry.
      have hnone : s.proposals.lookup f.proposalId = none := by
        rcases hig with hig | hig
        · exact absurd hown hig
        · exact hig
      exact (hs.handledAccept hprop).of_erase hnone
  | @vote _ f found _ hl =>
      rcases hs.voteCounted (hturn.accept_proposed hpre₀).2 hl with ⟨hcount, hvotes, hacks⟩
      exact (hcount.putProposal hvotes hacks).put_of_erase
  | @elect _ f found _ hl hel =>
      exact hs.elected now hann (hturn.accept_proposed hpre₀).2 hl hel
  | @decide _ f found _ hl hel ha =>
      have hput := hs.elected now hann (hturn.accept_proposed hpre₀).2 hl hel
      refine (hput.pushDecided (p := found.elect now) ?_).of_le rfl ?_
      · -- In synchronous mode no DECISION_ACK is needed.
        intro h
        cases ha.symm.trans h
      · intro x p hl
        rcases AList.lookup_erase_cases hl with ⟨hne, hold⟩
        exact (AList.lookup_insert_ne hne).trans hold
  | @learn _ f =>
      have hrec : Counters C i (s.record (.handledDecision f)) := hs.record rfl rfl rfl rfl
      -- A DECISION comes from another server, so the proposal is not one of the own.
      have hat : DecisionAt C w.traces i f := hturn.justified
      exact hrec.pushDecided (p := learnedProposal f) (fun _ hi => absurd hi hat.ne.symm)
  | @ignoreAck _ f hig =>
      have hann' := hturn.ack_announced hpre₀
      rcases hig with hsync | hnone
      · exact hs.handledDecisionAck_sync hann' hsync
      · exact (hs.handledDecisionAck hann').of_erase hnone
  | @ack _ f found ha hl =>
      rcases hs.ackCounted ha (hturn.ack_announced hpre₀) hl with ⟨hcount, hvotes, hacks⟩
      have hput := hcount.putProposal (p := found.incrementNumDecisionAck) hvotes (fun _ => hacks)
      exact hput.put_of_erase
  | @confirm _ f found ha hl hconf =>
      rcases hs.ackCounted ha (hturn.ack_announced hpre₀) hl with ⟨hcount, -, hacks⟩
      have hid : found.proposalId = f.proposalId := (hled.outstanding _ _ hl).id
      -- As for the votes, the counter is not above the number of DECISION_ACKs.
      have hmajority : C.numNodes / 2 <
          1 + (Trace.ackers (s.trace ++ [.handledDecisionAck f]) f.proposalId).length := by
        have hgt := hconf.1
        have hmod := Nat.mod_le
          (1 + (Trace.ackers (s.trace ++ [.handledDecisionAck f]) f.proposalId).length) (2 ^ 32)
        omega
      refine (hcount.pushDecided (p := found.confirm now) ?_).of_le rfl (fun _ _ hl => hl)
      intro _ _
      rw [← hid] at hmajority
      exact hmajority

/-- The counters of every server are right, whatever the network does with Paxos frames. -/
theorem counters (hr : Reachable C G w) (hd : w.QueuedDistinct) (i : ℕ) :
    Counters C i (w.servers i) := by
  refine (change_invariant (Q := World.QueuedDistinct)
    (P := fun i s => Announced i s ∧ Counters C i s) (fun _ _ _ _ => QueuedDistinct.of_step)
    (fun i => ⟨Announced.init i, Counters.init C i⟩) ?_ hr hd i).2
  intro w₀ c w i now task s s' hturn hpre₀ hpre hled hs hc
  exact ⟨hs.1.change hturn hpre₀ hpre hled hc, hs.2.change hturn hpre₀ hpre hled hs.1 hc⟩

end Change

end SyncPaxos
