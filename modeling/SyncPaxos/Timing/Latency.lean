import SyncPaxos.Safety.Decisions
import SyncPaxos.Safety.Ids
import SyncPaxos.Timing.Due

/-!
# Latency — how early things can happen

A packet that is on its way for at least `d` keeps the rounds of a proposal apart.  The times that a
proposal carries through its life say so: it is made, proposed, accepted, decided and, in asynchronous
mode, acknowledged, with a delay between any two of them.
-/

namespace SyncPaxos

open DiscreteEvent Transition

section Early

/-- A DECISION_ACK that is sent at `t` or later answers a DECISION that was on its way for `d`. -/
def AckAge (h : ℕ → Trace) (d : Time) (f : PaxosFrame) (t : Time) : Prop :=
  ∃ g ∈ (h f.proposerId).handledDecisions, g.proposalId = f.proposalId ∧ g.decisionTime + d ≤ t

/-- The earliest time that a line on record at `now` may carry. -/
def Record.NotBefore (d now : Time) : Record → Prop
  | .queued r => r.timestamp + d + 10 ≤ now
  | .proposed f => f.proposalId + d + 10 ≤ f.proposeTime
  | .acceptSent f => f.proposeTime + d + 10 ≤ f.acceptTime
  | .decision f => f.acceptTime + d ≤ f.decisionTime
  | .handledDecision f => f.decisionTime + d ≤ now
  | .decided p => p.decisionAckTime ≤ now
  | _ => True

/-- The earliest time at which a pending event is due. -/
def NotBefore (h : ℕ → Trace) (d : Time) (e : Event) : Prop :=
  match e.action with
  | .transit packet _ =>
      ∀ f, packet.paxos? = some f → f.messageType = PaxosFrame.DECISION_ACK →
        AckAge h d f packet.sentAt
  | .server _ (.createProposalFromRequest r) => r.timestamp + d + 10 ≤ e.ts
  | .server _ (.sendAcceptMessage f) => f.proposeTime + d + 10 ≤ e.ts
  | .server _ (.doReceivedDecisionAckMessage f) => AckAge h (2 * d) f e.ts
  | .server _ task => ∀ f, task.received? = some f → ∀ t, f.stamp? = some t → t + d ≤ e.ts
  | _ => True

variable {h h' : ℕ → Trace} {d t t' : Time} {f : PaxosFrame} {e : Event}

theorem Record.NotBefore.later {r : Record} (hr : r.NotBefore d t) (hle : t ≤ t') :
    r.NotBefore d t' := by
  cases r with
  | queued r =>
      exact Nat.le_trans hr hle
  | handledDecision f =>
      exact Nat.le_trans hr hle
  | decided p =>
      exact Nat.le_trans hr hle
  | _ =>
      exact hr

theorem AckAge.mono (hh : ∀ i, h i <+: h' i) (hage : AckAge h d f t) : AckAge h' d f t := by
  rcases hage with ⟨g, hg, hid, hle⟩
  exact ⟨g, mem_filterMap_mono (hh _) hg, hid, hle⟩

theorem AckAge.later (hage : AckAge h d f t) (hle : t + d ≤ t') : AckAge h (2 * d) f t' := by
  rcases hage with ⟨g, hg, hid, hage⟩
  refine ⟨g, hg, hid, ?_⟩
  lia

theorem NotBefore.mono (hh : ∀ i, h i <+: h' i) (he : NotBefore h d e) : NotBefore h' d e := by
  rcases e with ⟨now, action⟩
  cases action with
  | transit packet hop =>
      exact fun f hf htype => (he f hf htype).mono hh
  | server i task =>
      cases task with
      | doReceivedDecisionAckMessage f =>
          exact AckAge.mono hh he
      | _ =>
          exact he
  | _ =>
      trivial

end Early

section Step

variable {C : Cluster} {G : World → Choice → Prop} {w w' : World} {c : Choice} {d : Time}
  {e x : Event} {rest : List Event}

/-- The call that handles a DECISION says so. -/
theorem eq_of_handledDecision {i : ℕ} {now : Time} {task : Task} {s : Server} {g : PaxosFrame}
    (hline : .handledDecision g ∈ Server.newRecords C i now task s) :
    task = .doReceivedDecisionMessage g := by
  have hmem : g ∈ (Server.newRecords C i now task s).handledDecisions :=
    Trace.mem_handledDecisions.2 hline
  have hskip : ∀ r : Record, ¬ r.IsLine → r.handledDecision? = none := by
    intro r hr
    cases r <;> simp [Record.IsLine] at hr ⊢
  rw [Trace.handledDecisions, newRecords_filterMap hskip, Option.mem_toList] at hmem
  cases task <;> simp [Task.line?] at hmem
  rw [hmem]

/-- A DECISION_ACK is sent at once, in answer to the DECISION that is handled. -/
theorem ack_of_run {i : ℕ} {now : Time} {task : Task} {s : Server} {packet : Packet} {hop : ℕ}
    {f : PaxosFrame} (hx : x ∈ (Server.run C i now task s).events)
    (haction : x.action = .transit packet hop) (hf : packet.paxos? = some f)
    (htype : f.messageType = PaxosFrame.DECISION_ACK) :
    ∃ g, task = .doReceivedDecisionMessage g ∧ .handledDecision g ∈ Server.newRecords C i now task s ∧
      f = decisionAckFrame i g ∧ packet.sentAt = now := by
  rw [Server.run_events] at hx
  rcases List.mem_append.1 hx with hx | hx
  · rcases List.mem_flatMap.1 hx with ⟨r, hline, hsend⟩
    -- Frames of the other types.
    have hother : ∀ g dst, g.messageType ≠ PaxosFrame.DECISION_ACK → x ≠ sendTo i now g dst := by
      rintro g dst hne rfl
      cases haction
      obtain rfl : g = f := Option.some.inj hf
      exact hne htype
    cases newRecords_line r hline with
    | proposed p =>
        rcases mem_broadcast.1 hsend with ⟨a, -, -, heq⟩
        exact absurd heq (hother _ a (show PaxosFrame.PROPOSAL ≠ _ by decide))
    | acceptSent f =>
        exact absurd (List.mem_singleton.1 hsend)
          (hother _ _ (show PaxosFrame.ACCEPT ≠ _ by decide))
    | decision f =>
        rcases mem_broadcast.1 hsend with ⟨a, -, -, heq⟩
        exact absurd heq (hother _ a (show PaxosFrame.DECISION ≠ _ by decide))
    | syncPropose =>
        cases hsend
    | asyncPropose =>
        cases hsend
    | timeless hr =>
        cases r with
        | handledDecision g =>
            simp only [sendsOf] at hsend
            split at hsend
            · obtain rfl := List.mem_singleton.1 hsend
              cases haction
              obtain rfl : decisionAckFrame i g = f := Option.some.inj hf
              exact ⟨g, eq_of_handledDecision hline, hline, rfl, rfl⟩
            · cases hsend
        | proposed g =>
            cases (hr 0).1.symm.trans (hr 1).1
        | acceptSent g =>
            cases Eq.trans (hr 0).symm (hr 1)
        | decision g =>
            cases (hr 0).1.symm.trans (hr 1).1
        | _ =>
            cases hsend
  · rcases Server.mem_newTasks C i now hx with ⟨t, ht, -⟩
    cases haction.symm.trans ht

/-- What a call of a server schedules is not due too early. -/
theorem notBefore_run {i : ℕ} {now : Time} {task : Task}
    (hj : Justified C w.traces w.sent (.server i task)) (he : NotBefore w.traces d ⟨now, .server i task⟩)
    (htrace : w'.traces i = w.traces i ++ Server.newRecords C i now task (w.servers i))
    (hx : x ∈ (Server.run C i now task (w.servers i)).events) : NotBefore w'.traces d x := by
  have hnew := hx
  rw [Server.run_events] at hnew
  rcases List.mem_append.1 hnew with hnew | hnew
  · rcases List.mem_flatMap.1 hnew with ⟨r, -, hsend⟩
    rcases mem_sendsOf hsend with ⟨f, dst, rfl⟩
    intro f hf htype
    rcases ack_of_run hx rfl hf htype with ⟨g, rfl, hline, rfl, hnow⟩
    -- The DECISION that is answered has been on its way.
    refine ⟨g, ?_, rfl, hnow ▸ he g rfl _ (stamp_decision (DecisionAt.type hj))⟩
    change g ∈ (w'.traces i).handledDecisions
    rw [htrace, Trace.mem_handledDecisions]
    exact List.mem_append_right _ hline
  · cases Server.schedules_of_mem_newTasks C i now hnew with
    | boot ht =>
        rcases ht with rfl | rfl | rfl <;> intro f hf <;> cases hf
    | firstSlot =>
        intro f hf
        cases hf
    | nextSlot =>
        intro f hf
        cases hf
    | poll =>
        intro f hf
        cases hf
    | @answer _ f =>
        have htype : f.messageType = PaxosFrame.PROPOSAL := ProposalAt.type hj
        have hle := he f rfl _ (stamp_proposal htype)
        exact Nat.add_le_add_right hle 10

/-- What a step schedules is not due too early. -/
theorem notBefore_emitted (hG : atLeast d w c) (hr : Reachable C G w) (hr' : Reachable C G w')
    (hstep : World.step C c w = some w') (hs : StepSpec C c w w' e rest)
    (he : NotBefore w.traces d e) (hx : x ∈ emitted C c w e) : NotBefore w'.traces d x := by
  have hj := (sound hr).events e (mem_of_pop hs.pop)
  have hj' := (sound hr').events x (hs.events ▸ List.mem_append_right rest hx)
  have hstamp := sent_stamp hr
  have hgrows := step_trace_grows hstep
  rcases e with ⟨now, action⟩
  have hclient : ∀ k, x ∈ ((w.clients k).sendRequest C k now c.value).2 → NotBefore w'.traces d x := by
    intro k hx
    rcases mem_sendRequest hx with rfl | rfl
    · intro f hf
      cases hf
    · trivial
  cases action with
  | server i task =>
      exact notBefore_run hj he (hs.traces_server.trans (Server.run_trace ..)) hx
  | clientStart k =>
      exact hclient k hx
  | sendRequest k =>
      exact hclient k hx
  | transit packet hop =>
      have hrule := onTransit_of_pop hs.pop hG
      have hahead : ∀ ts, NotBefore w'.traces d ⟨ts, .transit packet (hop + 1)⟩ :=
        fun ts f hf htype => (he f hf htype).mono hgrows
      cases hf : c.fate with
      | arrive =>
          simp only [emitted, hf] at hx
          have hdelay := hrule hf
          rcases mem_arrivalEvents hx with ⟨r, hpay, -, -, rfl⟩ | ⟨f, task, hpay, -, hrecv, rfl⟩
          · have hsent : packet.sentAt = r.timestamp := by
              have hboth := hj.2
              rw [hpay] at hboth
              exact hboth.2
            rw [hsent] at hdelay
            exact Nat.add_le_add_right hdelay 10
          · have hpaxos : packet.paxos? = some f := by rw [Packet.paxos?, hpay]
            have hlate : ∀ t, f.stamp? = some t → t + d ≤ now := by
              intro t ht
              rw [← hstamp packet hj.1 f hpaxos t ht]
              exact hdelay
            cases task <;> simp at hrecv <;> subst hrecv
            case doReceivedDecisionAckMessage =>
              exact ((he _ hpaxos (DecisionAckAt.type hj')).mono hgrows).later hdelay
            all_goals
              intro f' hf'
              cases hf'
              exact hlate
      | forward d' =>
          simp only [emitted, hf, List.mem_singleton] at hx
          subst hx
          exact hahead _
      | duplicate d₁ d₂ =>
          simp only [emitted, hf, List.mem_cons, List.not_mem_nil, or_false] at hx
          rcases hx with rfl | rfl <;> exact hahead _
      | lose =>
          simp [emitted, hf] at hx

/-- What a majority of ACCEPTs decides has not been acknowledged. -/
theorem Ledger.ackTime_of_decidesOn {i : ℕ} {now : Time} {s : Server} {f : PaxosFrame}
    {p : Proposal} (hled : Ledger i s) (h : s.decidesOn C i now f = some p) :
    p.decisionAckTime = 0 := by
  rw [Server.decidesOn] at h
  split at h
  · split at h
    · cases h
    · rename_i found hl
      obtain ⟨-, rfl⟩ := Option.ite_none_right_eq_some.1 h |>.imp_right Option.some.inj
      exact (hled.outstanding _ _ hl).ackTime
  · cases h

theorem ackTime_of_acksOn {now : Time} {s : Server} {f : PaxosFrame} {p : Proposal}
    (h : s.acksOn C now f = some p) : p.decisionAckTime = now := by
  rw [Server.acksOn] at h
  split at h
  · split at h
    · cases h
    · obtain ⟨-, rfl⟩ := Option.ite_none_right_eq_some.1 h |>.imp_right Option.some.inj
      rfl
  · cases h

/-- The lines that a call adds do not say that something was early. -/
theorem notBefore_newRecords {i : ℕ} {now : Time} {task : Task} {s : Server}
    (hj : Justified C w.traces w.sent (.server i task))
    (he : NotBefore w.traces d ⟨now, .server i task⟩) (hled : Ledger i s)
    (hqueued : ∀ r ∈ s.trace.queued, r.timestamp + d + 10 ≤ now) :
    ∀ r ∈ Server.newRecords C i now task s, r.NotBefore d now := by
  have hpropose : ∀ r ∈ s.proposeRecords i now, r.NotBefore d now := by
    intro r hr
    rw [Server.proposeRecords] at hr
    cases hwait : s.waitingProposals with
    | nil =>
        rw [hwait] at hr
        cases hr
    | cons p rest =>
        -- The proposal at the front was made of a request that has been queued.
        rw [hwait] at hr
        obtain rfl := List.mem_singleton.1 hr
        have hmem : p.key ∈ s.trace.queued.map RequestFrame.key := by
          rw [← hled.queue, hwait]
          exact List.mem_append_right _ List.mem_cons_self
        rcases List.mem_map.1 hmem with ⟨q, hq, hkey⟩
        have hid : q.timestamp = p.proposalId := congrArg Prod.fst hkey
        have hle := hqueued q hq
        rw [hid] at hle
        exact hle
  have hasync : ∀ r ∈ s.asyncProposeRecords C i now, r.NotBefore d now := by
    intro r hr
    rcases List.mem_cons.1 hr with rfl | hr
    · trivial
    · split at hr
      · cases hr
      · exact hpropose r hr
  intro r hr
  cases task with
  | startProposerThread =>
      rcases List.mem_cons.1 hr with rfl | hr
      · trivial
      · split at hr
        · exact hasync r hr
        · cases hr
  | createProposalFromRequest f =>
      simp only [Server.newRecords] at hr
      split at hr
      · cases hr
      · rcases List.mem_singleton.1 hr with rfl
        exact he
  | doSyncPropose =>
      rcases List.mem_cons.1 hr with rfl | hr
      · trivial
      · split at hr
        · cases hr
        · exact hpropose r hr
  | doAsyncPropose =>
      exact hasync r hr
  | doReceivedProposalMessage f =>
      rcases List.mem_singleton.1 hr with rfl
      trivial
  | sendAcceptMessage f =>
      rcases List.mem_singleton.1 hr with rfl
      exact he
  | doReceivedAcceptMessage f =>
      rcases List.mem_cons.1 hr with rfl | hr
      · trivial
      · cases hdec : s.decidesOn C i now f with
        | none =>
            rw [hdec] at hr
            cases hr
        | some p =>
            rw [hdec] at hr
            rcases List.mem_cons.1 hr with rfl | hr
            · exact he f rfl _ (stamp_accept (AcceptAt.type hj))
            · split at hr
              · cases hr
              · rcases List.mem_singleton.1 hr with rfl
                exact (hled.ackTime_of_decidesOn hdec).trans_le (Nat.zero_le now)
  | doReceivedDecisionMessage f =>
      simp only [Server.newRecords, List.mem_cons, List.not_mem_nil, or_false] at hr
      rcases hr with rfl | rfl
      · exact he f rfl _ (stamp_decision (DecisionAt.type hj))
      · exact Nat.zero_le now
  | doReceivedDecisionAckMessage f =>
      rcases List.mem_cons.1 hr with rfl | hr
      · trivial
      · cases hack : s.acksOn C now f with
        | none =>
            rw [hack] at hr
            cases hr
        | some p =>
            rw [hack] at hr
            rcases List.mem_cons.1 hr with rfl | hr
            · exact (ackTime_of_acksOn hack).le
            · exact hasync r hr
  | _ =>
      cases hr

end Step

section Runs

variable {C : Cluster} {G : World → Choice → Prop} {w : World} {d : Time} {i : ℕ}

/-- Nothing that is pending is due too early. -/
theorem events_notBefore (hG : ∀ w c, G w c → atLeast d w c) (hr : Reachable C G w) :
    ∀ e ∈ w.events, NotBefore w.traces d e := by
  refine event_invariant (Q := fun _ => True) (P := fun w e => NotBefore w.traces d e)
    (fun _ _ _ _ _ _ => trivial) ?_ ?_ ?_ hr trivial
  · intro e he
    rcases mem_init_events he with ⟨k, -, rfl⟩ | ⟨i, -, rfl⟩ | ⟨i, -, rfl⟩
    · trivial
    · intro f hf
      cases hf
    · intro f hf
      cases hf
  · intro w c w' e hr hstep he
    exact he.mono (step_trace_grows hstep)
  · intro w c w' e rest hr _ _ hall hg hstep hs x hx
    exact notBefore_emitted (hG w c hg) hr (.step hr hg hstep) hstep hs
      (hall e (mem_of_pop hs.pop)) hx

/-- Nothing on record was early. -/
theorem traces_notBefore (hG : ∀ w c, G w c → atLeast d w c) (hr : Reachable C G w) (i : ℕ) :
    ∀ r ∈ w.traces i, r.NotBefore d w.now := by
  refine Transition.Reachable.invariant (P := fun w => ∀ r ∈ w.traces i, r.NotBefore d w.now)
    ?_ ?_ hr
  · intro r hr
    cases hr
  · intro w c w' hr hold hg hstep r hline
    rcases step_spec hstep with ⟨e, rest, hs⟩
    have hmem := mem_of_pop hs.pop
    have hle := step_now_le hr hstep
    rw [hs.traces] at hline
    rcases List.mem_append.1 hline with hline | hline
    · exact (hold r hline).later hle
    · have hnow := hs.now
      have he := events_notBefore hG hr e hmem
      rcases e with ⟨now, action⟩
      cases action with
      | server j task =>
          simp only [newLines] at hline
          split at hline
          · rename_i hij
            subst hij
            rw [hnow] at hle ⊢
            refine notBefore_newRecords ((sound hr).events _ hmem) he (ledger hr _) ?_ r hline
            intro q hq
            exact Nat.le_trans (hold _ (Trace.mem_queued.1 hq)) hle
          · cases hline
      | _ =>
          cases hline

/-- A proposal that its leader has decided was acknowledged after a round trip. -/
structure Acknowledged (C : Cluster) (d : Time) (i : ℕ) (s : Server) : Prop where
  announced : Announced i s
  decided : C.async = true → ∀ p ∈ s.trace.decided, p.nodeId = i →
    p.decisionTime + 2 * d ≤ p.decisionAckTime

/-- The DECISION that is acknowledged is that of the entry. -/
theorem Turn.ack_age {w₀ : World} {c : Choice} {now : Time} {s : Server} {f : PaxosFrame}
    {found : Proposal} (hG : ∀ w c, G w c → atLeast d w c)
    (h : Turn C G World.QueuedDistinct w₀ c w i now (.doReceivedDecisionAckMessage f))
    (hpre : s.trace <+: w.traces i) (hs : Announced i s) (hled : Ledger i s)
    (hzero : found.decisionTime ≠ 0)
    (hl : s.proposals.lookup f.proposalId = some found) : found.decisionTime + 2 * d ≤ now := by
  rcases events_notBefore hG h.before _ h.pending with ⟨g, hg, hid, hage⟩
  rcases hs.announced _ _ hl hzero with ⟨g', hg', hkey, htime⟩
  have hgat := (sound h.before).handledDecision hg
  have hgmem : g ∈ (w.traces g.proposerId).decisions :=
    mem_filterMap_mono (step_trace_grows h.step _) hgat.mem
  have hids : g.proposalId = g'.proposalId := by
    have hfound : g'.proposalId = found.proposalId := congrArg Prod.fst hkey
    rw [hid, hfound, (hled.outstanding _ _ hl).id]
  obtain ⟨-, rfl⟩ := decision_unique h.reach h.holds hgmem (mem_filterMap_mono hpre hg') hids
  rw [← htime]
  exact hage

theorem acknowledged (hG : ∀ w c, G w c → atLeast d w c) (hr : Reachable C G w)
    (hd : w.QueuedDistinct) (i : ℕ) : Acknowledged C d i (w.servers i) := by
  refine change_invariant (Q := World.QueuedDistinct) (P := Acknowledged C d)
    (fun _ _ _ _ => QueuedDistinct.of_step) ?_ ?_ hr hd i
  · intro i
    exact ⟨Announced.init i, fun _ p hp => by cases hp⟩
  · intro w₀ c w i now task s s' hturn hpre₀ hpre hled hs hc
    have hann := hs.announced.change hturn hpre₀ hpre hled hc
    have hpre' : s.trace <+: w.traces i := hc.trace_grows.trans hpre
    have hnew : ∀ p, s'.trace.decided = s.trace.decided ++ [p] →
        (C.async = true → p.nodeId = i → p.decisionTime + 2 * d ≤ p.decisionAckTime) →
        Acknowledged C d i s' := by
      intro p htrace hp
      refine ⟨hann, ?_⟩
      intro ha q hq hnode
      rw [htrace] at hq
      rcases List.mem_append.1 hq with hq | hq
      · exact hs.decided ha q hq hnode
      · obtain rfl := List.mem_singleton.1 hq
        exact hp ha hnode
    have hold : s'.trace.decided = s.trace.decided → Acknowledged C d i s' := by
      intro htrace
      refine ⟨hann, ?_⟩
      rw [htrace]
      exact hs.decided
    cases hc with
    | @note _ _ r hr =>
        refine hold ?_
        cases r <;> simp [Record.IsNote] at hr <;> simp [Server.record, List.filterMap_cons]
    | @decide _ f found hown hl hel hsync =>
        refine hnew (found.elect now) ?_ ?_
        · simp [Server.record, Server.pushDecided, Server.eraseProposal, List.filterMap_cons]
        · intro ha
          cases hsync.symm.trans ha
    | @learn _ f =>
        refine hnew (learnedProposal f) ?_ ?_
        · simp [Server.record, Server.pushDecided, List.filterMap_cons]
        · intro _ hnode
          -- A server learns only of the proposals of others.
          have hat : DecisionAt C w.traces i f := hturn.justified
          exact absurd hnode.symm hat.ne
    | @confirm _ f found ha hl hconf =>
        refine hnew (found.confirm now) ?_ ?_
        · simp [Server.record, Server.pushDecided, Server.eraseProposal, List.filterMap_cons]
        · intro _ _
          have hpos : found.decisionTime ≠ 0 := hturn.acked_announced hpre₀ hs.announced hl
          have hage : found.decisionTime + 2 * d ≤ now :=
            hturn.ack_age hG hpre' hs.announced hled hpos hl
          exact hage
    | _ =>
        refine hold ?_
        simp [Server.record, Server.enqueue, Server.propose, Server.storeAccepted,
          Server.putProposal, Server.stopApplication, List.filterMap_cons]

/-! ## The times of a proposal -/

/-- The rounds that a DECISION goes back to. -/
theorem decision_age (hG : ∀ w c, G w c → atLeast d w c) (hr : Reachable C G w) {f : PaxosFrame}
    (hf : f ∈ (w.traces i).decisions) :
    f.proposalId + d + 10 ≤ f.proposeTime ∧ f.proposeTime + d + 10 ≤ f.acceptTime ∧
      f.acceptTime + d ≤ f.decisionTime := by
  have hold := traces_notBefore hG hr
  refine ⟨?_, ?_, hold i _ (Trace.mem_decisions.1 hf)⟩
  · rcases (sound hr).decision_origin hf with ⟨-, -, g, hg, hid, -, htime⟩
    rw [hid, htime]
    exact hold i _ (Trace.mem_proposed.1 hg)
  · rcases (sound hr).records i _ (Trace.mem_decisions.1 hf) with ⟨g, hg, -, t, rfl⟩
    have hat := ((sound hr).handledAccept hg).1
    exact hold _ _ (Trace.mem_acceptsSent.1 hat.mem)

/-- What the times in an entry of the decided log of server `i` say, at the time `now`. -/
structure Dates (C : Cluster) (d now : Time) (i : ℕ) (p : Proposal) : Prop where
  /-- The id of a proposal is the time of its request. -/
  proposed : p.proposalId + d + 10 ≤ p.proposeTime
  decided : p.proposeTime + 2 * d + 10 ≤ p.decisionTime ∧ p.decisionTime ≤ now
  learned : p.nodeId ≠ i → p.proposeTime + d + 10 ≤ p.acceptTime ∧
    p.acceptTime + d ≤ p.decisionTime ∧ p.decisionTime + d ≤ now
  acknowledged : C.async = true → p.nodeId = i →
    p.decisionTime + 2 * d ≤ p.decisionAckTime ∧ p.decisionAckTime ≤ now

theorem dates_of_decided (hG : ∀ w c, G w c → atLeast d w c) (hr : Reachable C G w)
    (hd : w.QueuedDistinct) {p : Proposal} (hp : p ∈ (w.traces i).decided) :
    Dates C d w.now i p := by
  have hlearned : ∀ f ∈ (w.traces i).handledDecisions, p = learnedProposal f →
      Dates C d w.now i p := by
    rintro f hf rfl
    have hat := (sound hr).handledDecision hf
    rcases decision_age hG hr hat.mem with ⟨hpropose, haccept, hdecide⟩
    have hnow : f.decisionTime + d ≤ w.now :=
      traces_notBefore hG hr i _ (Trace.mem_handledDecisions.1 hf)
    refine ⟨hpropose, ⟨?_, ?_⟩, fun _ => ⟨haccept, hdecide, hnow⟩, ?_⟩
    · change f.proposeTime + 2 * d + 10 ≤ f.decisionTime
      lia
    · change f.decisionTime ≤ w.now
      lia
    · intro _ hnode
      exact absurd hnode.symm hat.ne
  rcases (announced hr hd i).logged p hp with ⟨f, hf, heq⟩ | ⟨hnode, g, hg, hkey, htime⟩
  · exact hlearned f hf heq
  · cases (ledger hr i).decided p hp with
    | learned f hf heq =>
        exact hlearned f hf heq
    | own f _ hf hfkey hftime =>
        rcases decision_age hG hr hg with ⟨hpropose, haccept, hdecide⟩
        rcases (sound hr).decision_origin hg with ⟨-, -, q, hq, hid, -, hqtime⟩
        -- The proposal that was decided is the one that was proposed.
        have hids : f.proposalId = q.proposalId := by
          have h₁ : f.proposalId = p.proposalId := congrArg Prod.fst hfkey
          have h₂ : g.proposalId = p.proposalId := congrArg Prod.fst hkey
          rw [h₁, ← h₂, hid]
        obtain ⟨-, rfl⟩ := proposed_unique hr hd hf hq hids
        have hpid : g.proposalId = p.proposalId := congrArg Prod.fst hkey
        have hptime : g.proposeTime = p.proposeTime := hqtime.trans hftime
        rw [hpid, hptime] at hpropose
        rw [hptime] at haccept
        rw [htime] at hdecide
        have hnow : p.decisionTime ≤ w.now := by
          rcases traces_at hr i _ (Trace.mem_decisions.1 hg) with ⟨t, ht, hat⟩
          rw [← htime, hat.2]
          exact ht
        refine ⟨hpropose, ⟨by lia, hnow⟩, fun hne => absurd hnode hne, ?_⟩
        intro ha _
        refine ⟨(acknowledged hG hr hd i).decided ha p hp hnode, ?_⟩
        rcases List.mem_filterMap.1 hp with ⟨r, hr', hsome⟩
        cases r <;> simp at hsome
        subst hsome
        exact traces_notBefore hG hr i _ hr'

/-- In a network where every packet takes at least `d`, the times of every decided proposal are apart. -/
theorem decided_dates (hG : ∀ w c, G w c → atLeast d w c ∧ noRequestCopies w c)
    (hr : Reachable C G w) (hd : w.DistinctTimestamps) {p : Proposal}
    (hp : p ∈ (w.servers i).decidedLog) : Dates C d w.now i p :=
  dates_of_decided (fun w c hg => (hG w c hg).1) hr
    (queuedDistinct (fun w c hg => (hG w c hg).2) hr hd) (mem_decided_of_log hr hp)

end Runs

/-- Every packet takes five nanoseconds: the leader's proposal and what the other server learns of it. -/
theorem decided_dates_two_servers :
    ∃ w, Reachable (.oneClient 2 (by decide) true 0 10 9000 60 20 0)
        (fun w c => atLeast 5 w c ∧ noRequestCopies w c) w ∧
      ∃ p ∈ (w.servers 0).decidedLog, ∃ q ∈ (w.servers 1).decidedLog,
        (p.proposalId, p.proposeTime, p.decisionTime, p.decisionAckTime) = (2, 1001, 1021, 1031) ∧
        (q.proposalId, q.proposeTime, q.acceptTime, q.decisionTime) = (2, 1001, 1016, 1021) ∧
        Dates (.oneClient 2 (by decide) true 0 10 9000 60 20 0) 5 w.now 0 p ∧
        Dates (.oneClient 2 (by decide) true 0 10 9000 60 20 0) 5 w.now 1 q := by
  have hrun := exists_reachable_of_runInputs
    (S := program (.oneClient 2 (by decide) true 0 10 9000 60 20 0))
    (G := fun w c => atLeast 5 w c ∧ noRequestCopies w c)
    ((List.range 57).map fun k =>
      if k ∈ [9, 13, 16, 21, 25, 28, 31, 34, 38, 41, 44] then
        ({ fate := .forward 5 } : Choice)
      else
        {})
    (fun w => ∃ p ∈ (w.servers 0).decidedLog, ∃ q ∈ (w.servers 1).decidedLog,
      (p.proposalId, p.proposeTime, p.decisionTime, p.decisionAckTime) = (2, 1001, 1021, 1031) ∧
      (q.proposalId, q.proposeTime, q.acceptTime, q.decisionTime) = (2, 1001, 1016, 1021))
    (by decide +kernel)
  rcases hrun with ⟨w, hr, htest⟩
  rcases of_decide_eq_true htest with ⟨p, hp, q, hq, hptimes, hqtimes⟩
  have hd := distinctTimestamps rfl (by decide) hr
  exact ⟨w, hr, p, hp, q, hq, hptimes, hqtimes, decided_dates (fun _ _ h => h) hr hd hp,
    decided_dates (fun _ _ h => h) hr hd hq⟩

end SyncPaxos
