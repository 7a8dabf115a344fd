import SyncPaxos.Run.Turn

/-!
# Decisions — one DECISION for a proposal

While no timestamp is queued twice, a proposal id is proposed once, by one server.  The entry of
an undecided proposal has a zero decision time, and a majority sets it, so a second majority of
ACCEPTs for the same entry changes nothing: `Announced` is this invariant of one server.

`decision_unique` says what it means for the cluster, and `decided_by_decision` that every decided
proposal repeats the one DECISION of its id.
-/

namespace SyncPaxos

open DiscreteEvent

variable {C : Cluster} {G : World → Choice → Prop} {w : World}

/-! ## Proposal ids -/

theorem ids_of_keys {s : Server} {i : ℕ} (h : Ledger i s) :
    s.trace.proposed.map PaxosFrame.proposalId ++ s.waitingProposals.map Proposal.proposalId =
      s.trace.queued.map RequestFrame.timestamp := by
  have hqueue := congrArg (List.map Prod.fst) h.queue
  rw [List.map_append, List.map_map, List.map_map, List.map_map] at hqueue
  exact hqueue

theorem proposed_nodup (hr : Reachable C G w) (hd : w.QueuedDistinct) (i : ℕ) :
    ((w.traces i).proposed.map PaxosFrame.proposalId).Nodup := by
  have hids := ids_of_keys (ledger hr i)
  have hnodup := hd.nodup i
  rw [World.traces, ← hids] at hnodup
  exact (List.nodup_append.1 hnodup).1

/-- The proposal that waits at the front has not been proposed before. -/
theorem front_not_proposed {s : Server} {i : ℕ} (h : Ledger i s)
    (hnodup : (s.trace.queued.map RequestFrame.timestamp).Nodup) {p : Proposal}
    {rest : List Proposal} (hw : s.waitingProposals = p :: rest) :
    p.proposalId ∉ s.trace.proposed.map PaxosFrame.proposalId := by
  rw [← ids_of_keys h, hw] at hnodup
  intro hmem
  exact (List.nodup_append.1 hnodup).2.2 _ hmem p.proposalId (by simp) rfl

/-- What a server proposed it queued. -/
theorem exists_queued_of_proposed (hr : Reachable C G w) {i : ℕ} {f : PaxosFrame}
    (hf : f ∈ (w.traces i).proposed) : ∃ r ∈ (w.traces i).queued, r.key = f.key := by
  have hqueue := (ledger hr i).queue
  have hmem : f.key ∈ (w.traces i).queued.map RequestFrame.key := by
    rw [World.traces, ← hqueue]
    exact List.mem_append_left _ (List.mem_map_of_mem hf)
  exact List.mem_map.1 hmem

/-- An id is proposed once, by one server. -/
theorem proposed_unique (hr : Reachable C G w) (hd : w.QueuedDistinct) {i j : ℕ}
    {f g : PaxosFrame} (hf : f ∈ (w.traces i).proposed) (hg : g ∈ (w.traces j).proposed)
    (hid : f.proposalId = g.proposalId) : i = j ∧ f = g := by
  rcases exists_queued_of_proposed hr hf with ⟨r, hrq, hrk⟩
  rcases exists_queued_of_proposed hr hg with ⟨r', hrq', hrk'⟩
  -- Both come from a queued request, and these have distinct timestamps.
  have htime : r.timestamp = r'.timestamp := by
    have h₁ : r.timestamp = f.proposalId := congrArg Prod.fst hrk
    have h₂ : r'.timestamp = g.proposalId := congrArg Prod.fst hrk'
    rw [h₁, h₂, hid]
  obtain rfl : i = j := hd.unique i j r hrq r' hrq' htime
  exact ⟨rfl, List.inj_on_of_nodup_map (proposed_nodup hr hd i) hf hg hid⟩

/-! ## The invariant of one server -/

/-- The entries of `m_proposals` and the decided proposals against the DECISIONs broadcast. -/
structure Announced (i : ℕ) (s : Server) : Prop where
  proposed : ∀ d ∈ s.trace.decisions, d.proposalId ∈ s.trace.proposed.map PaxosFrame.proposalId
  undecided : ∀ x p, s.proposals.lookup x = some p → p.decisionTime = 0 →
    x ∉ s.trace.decisions.map PaxosFrame.proposalId
  announced : ∀ x p, s.proposals.lookup x = some p → p.decisionTime ≠ 0 →
    ∃ d ∈ s.trace.decisions, d.key = p.key ∧ d.decisionTime = p.decisionTime
  once : (s.trace.decisions.map PaxosFrame.proposalId).Nodup
  logged : ∀ p ∈ s.trace.decided,
    (∃ f ∈ s.trace.handledDecisions, p = learnedProposal f) ∨
      p.nodeId = i ∧ ∃ d ∈ s.trace.decisions, d.key = p.key ∧ d.decisionTime = p.decisionTime

namespace Announced

variable {i : ℕ} {s s' : Server}

theorem init (i : ℕ) : Announced i {} := by
  refine ⟨?_, ?_, ?_, List.nodup_nil, ?_⟩
  · intro d hd
    cases hd
  · intro x p hl
    simp at hl
  · intro x p hl
    simp at hl
  · intro p hp
    cases hp

/-- Nothing else of a server matters, and entries may be missing. -/
theorem of_le (h : Announced i s) (htrace : s'.trace = s.trace)
    (hsub : ∀ x p, s'.proposals.lookup x = some p → s.proposals.lookup x = some p) :
    Announced i s' := by
  rcases h with ⟨hprop, hund, hann, honce, hlog⟩
  rw [← htrace] at hprop hund hann honce hlog
  exact ⟨hprop, fun x p hl => hund x p (hsub x p hl), fun x p hl => hann x p (hsub x p hl),
    honce, hlog⟩

/-- One line more.  An entry that the line announces is left out. -/
theorem of_record (h : Announced i s) {r : Record} (htrace : s'.trace = s.trace ++ [r])
    (hentries : ∀ x p, s'.proposals.lookup x = some p →
      (∀ d, r.decision? = some d → d.proposalId ≠ x) ∧ s.proposals.lookup x = some p)
    (hproposed : ∀ d, r.decision? = some d →
      d.proposalId ∈ s.trace.proposed.map PaxosFrame.proposalId)
    (hfresh : ∀ d, r.decision? = some d →
      d.proposalId ∉ s.trace.decisions.map PaxosFrame.proposalId)
    (hdecided : ∀ p, r.decided? = some p →
      (∃ f ∈ s.trace.handledDecisions, p = learnedProposal f) ∨
        p.nodeId = i ∧ ∃ d ∈ s.trace.decisions, d.key = p.key ∧ d.decisionTime = p.decisionTime) :
    Announced i s' := by
  have hpre : s.trace <+: s'.trace := by
    rw [htrace]
    exact List.prefix_append _ _
  -- What has been announced stays announced.
  have hold : ∀ q : Proposal,
      (∃ d ∈ s.trace.decisions, d.key = q.key ∧ d.decisionTime = q.decisionTime) →
      ∃ d ∈ s'.trace.decisions, d.key = q.key ∧ d.decisionTime = q.decisionTime := by
    rintro q ⟨d, hd, hsame⟩
    exact ⟨d, mem_filterMap_mono hpre hd, hsame⟩
  constructor
  · intro d hd
    rw [htrace] at hd
    apply ((hpre.filterMap Record.proposed?).map PaxosFrame.proposalId).subset
    rcases mem_filterMap_concat.1 hd with hd | hnew
    · exact h.proposed d hd
    · exact hproposed d hnew
  · intro x p hl hzero hmem
    rcases hentries x p hl with ⟨hother, hl⟩
    rcases List.mem_map.1 hmem with ⟨d, hd, rfl⟩
    rw [htrace] at hd
    rcases mem_filterMap_concat.1 hd with hd | hnew
    · exact h.undecided _ p hl hzero (List.mem_map_of_mem hd)
    · exact hother d hnew rfl
  · intro x p hl hnz
    exact hold p (h.announced x p (hentries x p hl).2 hnz)
  · rw [htrace, Trace.decisions, filterMap_concat, List.map_append]
    cases hr : r.decision? with
    | none =>
        rw [Option.toList_none, List.map_nil, List.append_nil]
        exact h.once
    | some d =>
        rw [Option.toList_some, List.map_singleton, ← List.concat_eq_append]
        exact h.once.concat (hfresh d hr)
  · intro p hp
    rw [htrace] at hp
    have hlogged : (∃ f ∈ s.trace.handledDecisions, p = learnedProposal f) ∨
        p.nodeId = i ∧
          ∃ d ∈ s.trace.decisions, d.key = p.key ∧ d.decisionTime = p.decisionTime := by
      rcases mem_filterMap_concat.1 hp with hp | hnew
      · exact h.logged p hp
      · exact hdecided p hnew
    rcases hlogged with ⟨f, hf, heq⟩ | ⟨hi, hown⟩
    · exact .inl ⟨f, mem_filterMap_mono hpre hf, heq⟩
    · exact .inr ⟨hi, hold p hown⟩

/-- A line that announces and decides nothing. -/
theorem record (h : Announced i s) {r : Record} (hdec : r.decision? = none)
    (hlog : r.decided? = none) : Announced i (s.record r) := by
  have hno : ∀ d, r.decision? ≠ some d := by
    intro d hd
    cases hdec.symm.trans hd
  refine h.of_record rfl ?_ (fun d hd => absurd hd (hno d)) (fun d hd => absurd hd (hno d)) ?_
  · intro x p hl
    exact ⟨fun d hd => absurd hd (hno d), hl⟩
  · intro p hp
    cases hlog.symm.trans hp

/-- An entry that is replaced by one with the same id, value and decision time. -/
theorem putProposal (h : Announced i s) {x : ℕ} {p : Proposal}
    (hzero : p.decisionTime = 0 → x ∉ s.trace.decisions.map PaxosFrame.proposalId)
    (hann : p.decisionTime ≠ 0 →
      ∃ d ∈ s.trace.decisions, d.key = p.key ∧ d.decisionTime = p.decisionTime) :
    Announced i (s.putProposal x p) := by
  refine ⟨h.proposed, ?_, ?_, h.once, h.logged⟩
  · exact AList.forall_lookup_insert hzero h.undecided
  · exact AList.forall_lookup_insert hann h.announced

theorem eraseProposal (h : Announced i s) (x : ℕ) : Announced i (s.eraseProposal x) :=
  h.of_le rfl (fun _ _ hl => (AList.lookup_erase_cases hl).2)

theorem pushDecided (h : Announced i s) {p : Proposal}
    (hp : (∃ f ∈ s.trace.handledDecisions, p = learnedProposal f) ∨
      p.nodeId = i ∧ ∃ d ∈ s.trace.decisions, d.key = p.key ∧ d.decisionTime = p.decisionTime) :
    Announced i (s.pushDecided p) := by
  refine h.of_record (r := .decided p) rfl ?_ ?_ ?_ ?_
  · intro x q hl
    exact ⟨by simp, hl⟩
  · simp
  · simp
  · intro q hq
    obtain rfl : p = q := by simpa using hq
    exact hp

/-- The first DECISION of an id, with the entry that now carries its decision time. -/
theorem announce (h : Announced i s) {d : PaxosFrame} {p : Proposal}
    (hproposed : d.proposalId ∈ s.trace.proposed.map PaxosFrame.proposalId)
    (hfresh : d.proposalId ∉ s.trace.decisions.map PaxosFrame.proposalId)
    (hkey : d.key = p.key) (htime : d.decisionTime = p.decisionTime) (hpos : p.decisionTime ≠ 0) :
    Announced i ((s.record (.decision d)).putProposal d.proposalId p) := by
  have hdec : ∀ d', (Record.decision d).decision? = some d' → d = d' := by
    intro d' hd'
    simpa using hd'
  have hline : Announced i ((s.record (.decision d)).eraseProposal d.proposalId) := by
    refine h.of_record (r := .decision d) rfl ?_ ?_ ?_ ?_
    · intro x q hl
      rcases AList.lookup_erase_cases hl with ⟨hne, hold⟩
      refine ⟨?_, hold⟩
      rintro d' hd' rfl
      exact hne (by rw [hdec d' hd'])
    · intro d' hd'
      rw [← hdec d' hd']
      exact hproposed
    · intro d' hd'
      rw [← hdec d' hd']
      exact hfresh
    · simp
  -- The entry that was left out comes back with its decision time.
  have hput : Announced i
      (((s.record (.decision d)).eraseProposal d.proposalId).putProposal d.proposalId p) := by
    refine hline.putProposal (fun hzero => absurd hzero hpos) ?_
    intro _
    exact ⟨d, mem_filterMap_concat.2 (.inr rfl), hkey, htime⟩
  exact hput.of_le rfl (fun y _ hl => (AList.lookup_insert_erase y).trans hl)

end Announced

/-! ## The invariant of all servers -/

section Turn

variable {Q : World → Prop} {w₀ : World} {c : Choice} {i : ℕ} {now : Time} {s : Server}
  {f : PaxosFrame} {found : Proposal}

/-- A handled ACCEPT and the entry it is counted for speak of the same request. -/
theorem Turn.accept_key {task : Task} (h : Turn C G Q w₀ c w i now task) (hd : w.QueuedDistinct)
    (hmem : f ∈ (w.traces i).handledAccepts) (hpre : s.trace <+: w.traces i) (hled : Ledger i s)
    (hl : s.proposals.lookup f.proposalId = some found) :
    f.key = found.key ∧ f.proposalId ∈ s.trace.proposed.map PaxosFrame.proposalId := by
  rcases (sound h.reach).accept_origin hmem with ⟨-, -, -, g, hg, -, hid, hval, -⟩
  have hout := hled.outstanding _ _ hl
  rcases hout.origin with ⟨g', hg', hkey, -⟩
  have hid' : g'.proposalId = found.proposalId := congrArg Prod.fst hkey
  -- The ACCEPT answers one PROPOSAL and the entry comes from one, and an id is proposed once.
  have hsame : g' = g := by
    refine (proposed_unique h.reach hd (mem_filterMap_mono hpre hg') hg ?_).2
    rw [hid', hout.id, hid]
  refine ⟨?_, ?_⟩
  · calc f.key = g.key := Prod.ext hid hval
      _ = g'.key := by rw [hsame]
      _ = found.key := hkey
  · refine List.mem_map.2 ⟨g', hg', ?_⟩
    rw [hid', hout.id]

/-- The entry that a DECISION_ACK is counted for has been announced. -/
theorem Turn.acked_announced (h : Turn C G Q w₀ c w i now (.doReceivedDecisionAckMessage f))
    (hpre : w₀.traces i <+: s.trace) (hs : Announced i s)
    (hl : s.proposals.lookup f.proposalId = some found) : found.decisionTime ≠ 0 := by
  intro hzero
  rcases (h.scheduled : DecisionAckAt w₀.traces i f).from_ with ⟨d, hd, hfd, hi⟩
  have hat := (sound h.before).handledDecision hd
  have hmem := hat.mem
  rw [← hi] at hmem
  refine hs.undecided _ _ hl hzero (List.mem_map.2 ⟨d, mem_filterMap_mono hpre hmem, ?_⟩)
  rw [hfd]
  rfl

theorem Turn.not_elected_twice {task : Task} (h : Turn C G Q w₀ c w i now task)
    (hd : w.QueuedDistinct) (hmem : f ∈ (w.traces i).handledAccepts)
    (hpre : s.trace <+: w.traces i) (hled : Ledger i s) (hs : Announced i s)
    (hl : s.proposals.lookup f.proposalId = some found) (hel : found.Elected C) :
    Announced i (((s.record (.handledAccept f)).record (.decision (decisionFrame now f))).putProposal
      f.proposalId (found.elect now)) := by
  rcases h.accept_key hd hmem hpre hled hl with ⟨hkey, hprop⟩
  -- A decision time of zero would read as undecided.
  have hpos : 0 < now := by
    rcases List.mem_map.1 hprop with ⟨g, hg, -⟩
    exact h.pos (List.ne_nil_of_mem (mem_filterMap_mono hpre hg))
  have hrec : Announced i (s.record (.handledAccept f)) := hs.record rfl rfl
  have hproposed : (s.record (.handledAccept f)).trace.proposed = s.trace.proposed := by
    simp [Server.record]
  have hdecisions : (s.record (.handledAccept f)).trace.decisions = s.trace.decisions := by
    simp [Server.record]
  refine hrec.announce (d := decisionFrame now f) ?_ ?_ hkey rfl (Nat.pos_iff_ne_zero.1 hpos)
  · rw [hproposed]
    exact hprop
  · rw [hdecisions]
    exact hs.undecided _ _ hl hel.2

end Turn

theorem Announced.change {w₀ : World} {c : Choice} {i : ℕ} {now : Time} {task : Task}
    {s s' : Server} (hturn : Turn C G World.QueuedDistinct w₀ c w i now task)
    (hpre₀ : w₀.traces i <+: s.trace) (hpre : s'.trace <+: w.traces i) (hled : Ledger i s)
    (hs : Announced i s) (hc : Server.Change C i now task s s') : Announced i s' := by
  have hpre' : s.trace <+: w.traces i := hc.trace_grows.trans hpre
  cases hc with
  | flags =>
      exact hs.of_le rfl (fun _ _ hl => hl)
  | @note _ _ r hr =>
      cases r <;> simp [Record.IsNote] at hr <;> exact hs.record rfl rfl
  | stop =>
      exact hs.of_le rfl (fun _ _ hl => hl)
  | queue =>
      exact (hs.record (r := .queued _) rfl rfl).of_le rfl (fun _ _ hl => hl)
  | @propose _ _ p rest hw =>
      have hqueued : (s.trace.queued.map RequestFrame.timestamp).Nodup := by
        exact (hturn.holds.nodup i).sublist
          ((hpre'.filterMap Record.queued?).map RequestFrame.timestamp).sublist
      have hnew := front_not_proposed hled hqueued hw
      -- What has not been proposed has not been announced.
      have hfresh : p.proposalId ∉ s.trace.decisions.map PaxosFrame.proposalId := by
        intro hmem
        rcases List.mem_map.1 hmem with ⟨d, hd, heq⟩
        exact hnew (heq ▸ hs.proposed d hd)
      have hzero : p.decisionTime = 0 := (hled.waiting p (by simp [hw])).1
      have hput : Announced i (s.putProposal p.proposalId (p.propose i now)) :=
        hs.putProposal (fun _ => hfresh) (fun hnz => absurd hzero hnz)
      exact (hput.record (r := .proposed (proposalFrame i now p)) rfl rfl).of_le rfl
        (fun _ _ hl => hl)
  | @accept _ f =>
      exact (hs.record (r := .handledProposal f) rfl rfl).of_le rfl (fun _ _ hl => hl)
  | ignoreVote =>
      exact hs.record rfl rfl
  | @vote _ f found _ hl =>
      have hrec : Announced i (s.record (.handledAccept f)) := hs.record rfl rfl
      exact hrec.putProposal (fun hz => hrec.undecided _ found hl hz)
        (fun hnz => hrec.announced _ found hl hnz)
  | @elect _ f found _ hl hel =>
      have hmem : f ∈ (w.traces i).handledAccepts :=
        mem_filterMap_mono hpre (by simp [Server.record, Server.putProposal])
      exact hturn.not_elected_twice hturn.holds hmem hpre' hled hs hl hel
  | @decide _ f found hown hl hel ha =>
      have hmem : f ∈ (w.traces i).handledAccepts :=
        mem_filterMap_mono hpre
          (by simp [Server.record, Server.pushDecided, Server.eraseProposal])
      have hput := hturn.not_elected_twice hturn.holds hmem hpre' hled hs hl hel
      have hkey := (hturn.accept_key hturn.holds hmem hpre' hled hl).1
      have hnode : found.nodeId = i := (hled.outstanding _ _ hl).node
      -- The entry is pushed and erased at once.
      refine (hput.pushDecided (p := found.elect now) (.inr ⟨hnode, decisionFrame now f, ?_, hkey,
        rfl⟩)).of_le rfl ?_
      · simp [Server.record, Server.putProposal]
      · intro x p hl
        rcases AList.lookup_erase_cases hl with ⟨hne, hold⟩
        exact (AList.lookup_insert_ne hne).trans hold
  | @learn _ f =>
      have hrec : Announced i (s.record (.handledDecision f)) := hs.record rfl rfl
      refine hrec.pushDecided (.inl ⟨f, ?_, rfl⟩)
      simp [Server.record]
  | ignoreAck =>
      exact hs.record rfl rfl
  | @ack _ f found _ hl =>
      have hrec : Announced i (s.record (.handledDecisionAck f)) := hs.record rfl rfl
      exact hrec.putProposal (fun hz => hrec.undecided _ found hl hz)
        (fun hnz => hrec.announced _ found hl hnz)
  | @confirm _ f found _ hl =>
      have hrec : Announced i (s.record (.handledDecisionAck f)) := hs.record rfl rfl
      have hnz := hturn.acked_announced hpre₀ hs hl
      have hnode : found.nodeId = i := (hled.outstanding _ _ hl).node
      have hpush := hrec.pushDecided (p := found.confirm now)
        (.inr ⟨hnode, hrec.announced _ found hl hnz⟩)
      exact hpush.eraseProposal _

theorem announced (hr : Reachable C G w) (hd : w.QueuedDistinct) (i : ℕ) :
    Announced i (w.servers i) := by
  refine change_invariant (Q := World.QueuedDistinct) (P := Announced)
    (fun _ _ _ _ => QueuedDistinct.of_step) Announced.init ?_ hr hd i
  intro w₀ c w i now task s s' hturn hpre₀ hpre hled hs hc
  exact hs.change hturn hpre₀ hpre hled hc

/-! ## One DECISION for an id -/

/-- A DECISION and the request it decides. -/
theorem exists_queued_of_decision (hr : Reachable C G w) {i : ℕ} {d : PaxosFrame}
    (hd : d ∈ (w.traces i).decisions) :
    d.proposerId = i ∧ ∃ r ∈ (w.traces i).queued, r.key = d.key := by
  rcases (sound hr).decision_origin hd with ⟨-, hown, g, hg, hid, hval, -⟩
  rcases exists_queued_of_proposed hr hg with ⟨r, hrq, hrk⟩
  exact ⟨hown, r, hrq, hrk.trans (Prod.ext hid.symm hval.symm)⟩

theorem decision_unique (hr : Reachable C G w) (hd : w.QueuedDistinct) {i j : ℕ}
    {d d' : PaxosFrame} (hdi : d ∈ (w.traces i).decisions) (hdj : d' ∈ (w.traces j).decisions)
    (hid : d.proposalId = d'.proposalId) : i = j ∧ d = d' := by
  rcases (sound hr).decision_origin hdi with ⟨-, -, g, hg, hgid, -, -⟩
  rcases (sound hr).decision_origin hdj with ⟨-, -, g', hg', hgid', -, -⟩
  obtain rfl : i = j := (proposed_unique hr hd hg hg' (by rw [← hgid, hid, hgid'])).1
  exact ⟨rfl, List.inj_on_of_nodup_map (announced hr hd i).once hdi hdj hid⟩

/-- A decided proposal repeats the DECISION of its proposer. -/
theorem decided_by_decision (hr : Reachable C G w) (hd : w.QueuedDistinct) {i : ℕ} {p : Proposal}
    (hp : p ∈ (w.traces i).decided) :
    ∃ d ∈ (w.traces p.nodeId).decisions, d.key = p.key ∧ d.decisionTime = p.decisionTime := by
  rcases (announced hr hd i).logged p hp with ⟨f, hf, rfl⟩ | ⟨rfl, hown⟩
  · -- A learned proposal copies the DECISION.
    have hat := (sound hr).handledDecision hf
    exact ⟨f, hat.mem, rfl, rfl⟩
  · exact hown

/-- What a server holds as decided is on its record. -/
theorem mem_decided_of_log (hr : Reachable C G w) {i : ℕ} {p : Proposal}
    (hp : p ∈ (w.servers i).decidedLog) : p ∈ (w.traces i).decided :=
  (ledger hr i).log p hp

/-- Two servers that decided the same id agree. -/
theorem decided_agree (hr : Reachable C G w) (hd : w.QueuedDistinct) {i j : ℕ} {p q : Proposal}
    (hp : p ∈ (w.servers i).decidedLog) (hq : q ∈ (w.servers j).decidedLog)
    (hid : p.proposalId = q.proposalId) :
    p.nodeId = q.nodeId ∧ p.value = q.value ∧ p.decisionTime = q.decisionTime := by
  rcases decided_by_decision hr hd (mem_decided_of_log hr hp) with ⟨d, hdec, hkey, htime⟩
  rcases decided_by_decision hr hd (mem_decided_of_log hr hq) with ⟨d', hdec', hkey', htime'⟩
  have hids : d.proposalId = d'.proposalId := by
    have h₁ : d.proposalId = p.proposalId := congrArg Prod.fst hkey
    have h₂ : d'.proposalId = q.proposalId := congrArg Prod.fst hkey'
    rw [h₁, h₂, hid]
  rcases decision_unique hr hd hdec hdec' hids with ⟨hnode, rfl⟩
  exact ⟨hnode, congrArg Prod.snd (hkey.symm.trans hkey'), htime.symm.trans htime'⟩

end SyncPaxos
