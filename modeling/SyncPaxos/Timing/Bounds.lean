import SyncPaxos.Safety.Voting
import SyncPaxos.Timing.Due
import SyncPaxos.Timing.Slots

/-!
# Bounds — how long a proposal takes in synchronous mode

In a timely network every vote for a proposal is in after two delays and ten nanoseconds, and
every DECISION one delay later.  `World.Past` says that a time has passed in the sense of the event
queue: what was due by then has been run, whatever else is due at the same instant as the next
event.

If a server's turns are further apart than it takes to decide, nothing is outstanding when its next
turn comes.
-/

namespace SyncPaxos

open DiscreteEvent Transition Counting

/-- What is due by the time `T` has been run. -/
def World.Past (w : World) (T : Time) : Prop := ∀ e ∈ w.events, T < e.ts

section Bounds

variable {C : Cluster} {G : World → Choice → Prop} {w w' : World} {c : Choice} {T : Time} {i a : ℕ}

theorem past_of_pop {e : Event} {rest : List Event} (hpop : pop w.events = some (e, rest))
    (h : T < e.ts) : w.Past T := by
  intro x hx
  exact h.trans_le (pop_le hpop hx)

/-! ## Nothing is under way any more -/

theorem Due.received {ts t : Time} {j : ℕ} {task : Task} {f : PaxosFrame}
    (h : Due C ⟨ts, .server j task⟩) (hf : task.received? = some f) (ht : f.stamp? = some t) :
    ts ≤ t + C.boundedMessageDelay := by
  cases task <;> simp at hf <;> exact h f (congrArg some hf) t ht

theorem Justified.received {h : ℕ → Trace} {sent : List Packet} {j : ℕ} {task : Task}
    {f : PaxosFrame} (hj : Justified C h sent (.server j task)) (hf : task.received? = some f) :
    ∃ src, FrameAt C h j f src := by
  cases task <;> simp at hf <;> subst hf
  · exact ⟨_, .proposal hj⟩
  · exact ⟨_, .accept hj⟩
  · exact ⟨_, .decision hj⟩
  · exact ⟨_, .decisionAck hj⟩

/-- A class of frames that were all sent one delay ago or earlier. -/
theorem clear_of_past (hr : Reachable C (timely C) w) (hpast : w.Past T) {j : ℕ}
    {test : PaxosFrame → Bool}
    (hold : ∀ f src, FrameAt C w.traces j f src → test f = true →
      ∃ t, f.stamp? = some t ∧ t + C.boundedMessageDelay ≤ T) : w.Clear j test := by
  have hpunctual := punctual (fun _ _ h => h) hr
  constructor
  · intro packet hp
    refine Bool.eq_false_iff.2 ?_
    intro hcarry
    rcases List.mem_filterMap.1 hp with ⟨e, he, htransit⟩
    rcases isRequest_of_carries hcarry with ⟨hdst, hreq⟩
    have hj := (sound hr).events e he
    have hdue := hpunctual.events e he
    have hlate := hpast e he
    rcases e with ⟨ts, action⟩
    cases action with
    | transit packet' hop =>
        obtain rfl : packet' = packet := Option.some.inj htransit
        rcases packet' with ⟨src, dst, payload, sentAt⟩
        cases payload with
        | request r =>
            cases hreq
        | paxos f =>
            obtain rfl : dst = j := hdst
            have htest : test f = true := by
              simpa [Packet.carries, Packet.paxosTo?, Packet.paxos?] using hcarry
            rcases hold f src hj.2 htest with ⟨t, ht, hle⟩
            have hsent : sentAt = t := sent_stamp hr _ hj.1 f rfl t ht
            have hts : ts ≤ sentAt + C.boundedMessageDelay := hdue rfl
            -- It was due one delay after its stamp, hence by `T`, and would have run.
            rw [hsent] at hts
            exact absurd hlate (not_lt.2 (hts.trans hle))
    | _ =>
        cases htransit
  · refine List.countP_eq_zero.2 ?_
    intro f hf htest
    rcases List.mem_filterMap.1 hf with ⟨e, he, hcall⟩
    rcases eq_server_of_atServer (by rw [hcall]; rfl) with ⟨task, haction, -⟩
    have hj := (sound hr).events e he
    have hdue := hpunctual.events e he
    have hlate := hpast e he
    rcases e with ⟨ts, action⟩
    obtain rfl : action = .server j task := haction
    have hrecv : task.received? = some f := by simpa [Callback.atServer] using hcall
    rcases hj.received hrecv with ⟨src, hframe⟩
    rcases hold f src hframe htest with ⟨t, ht, hle⟩
    exact absurd hlate (not_lt.2 ((hdue.received hrecv ht).trans hle))

variable {f₀ : PaxosFrame}

theorem proposals_clear (hr : Reachable C (timely C) w) (hd : w.QueuedDistinct)
    (hf₀ : f₀ ∈ (w.traces i).proposed) (hpast : w.Past T)
    (hT : f₀.proposeTime + C.boundedMessageDelay ≤ T) :
    w.Clear a (PaxosFrame.proposalTest i f₀.proposalId) := by
  refine clear_of_past hr hpast ?_
  intro f src hframe htest
  have htest' : (f.proposerId = i ∧ f.proposalId = f₀.proposalId) ∧
      f.messageType = PaxosFrame.PROPOSAL := by
    simpa [PaxosFrame.proposalTest, PaxosFrame.isFor, PaxosFrame.isProposal] using htest
  have hat := hframe.proposalAt htest'.2
  obtain rfl : f = f₀ := (proposed_unique hr hd hat.mem hf₀ htest'.1.2).2
  exact ⟨_, stamp_proposal hat.type, hT⟩

theorem answers_clear (hr : Reachable C (timely C) w) (hd : w.QueuedDistinct)
    (hf₀ : f₀ ∈ (w.traces i).proposed) (hpast : w.Past T)
    (hT : f₀.proposeTime + C.boundedMessageDelay + 10 ≤ T) :
    (w.pending a Task.answering).countP (PaxosFrame.isFor i f₀.proposalId) = 0 := by
  refine List.countP_eq_zero.2 ?_
  intro b hb hfor
  rcases List.mem_filterMap.1 hb with ⟨e, he, hcall⟩
  rcases eq_server_of_atServer (by rw [hcall]; rfl) with ⟨task, haction, -⟩
  have hj := (sound hr).events e he
  have hdue := (punctual (fun _ _ h => h) hr).events e he
  have hlate := hpast e he
  rcases e with ⟨ts, action⟩
  obtain rfl : action = .server a task := haction
  have hanswering : task.answering = some b := by simpa [Callback.atServer] using hcall
  cases task with
  | sendAcceptMessage f =>
      obtain rfl : f.body = b := Option.some.inj hanswering
      rcases hj with ⟨g, hg, t, rfl⟩
      have hat := (sound hr).handledProposal hg
      have hid : g.proposerId = i ∧ g.proposalId = f₀.proposalId := by
        simpa [PaxosFrame.isFor, PaxosFrame.body] using hfor
      obtain rfl : g = f₀ := (proposed_unique hr hd hat.mem hf₀ hid.2).2
      exact absurd hlate (not_lt.2 (le_trans hdue hT))
  | _ =>
      cases hanswering

theorem accepts_clear (hr : Reachable C (timely C) w) (hd : w.QueuedDistinct)
    (hf₀ : f₀ ∈ (w.traces i).proposed) (hpast : w.Past T)
    (hT : f₀.proposeTime + 2 * C.boundedMessageDelay + 10 ≤ T) :
    w.Clear i (PaxosFrame.acceptTest a f₀.proposalId) := by
  refine clear_of_past hr hpast ?_
  intro f src hframe htest
  have htest' : (f.acceptorId = a ∧ f.proposalId = f₀.proposalId) ∧
      f.messageType = PaxosFrame.ACCEPT := by
    simpa [PaxosFrame.acceptTest, PaxosFrame.isVote, PaxosFrame.isAccept] using htest
  have hat := hframe.acceptAt htest'.2
  rcases (sound hr).acceptAt_origin hat with ⟨-, -, -, g, hg, -, hid, -, htime⟩
  obtain rfl : g = f₀ := (proposed_unique hr hd hg hf₀ (hid.symm.trans htest'.1.2)).2
  have hsent : f.acceptTime ≤ f.proposeTime + C.boundedMessageDelay + 10 :=
    (punctual (fun _ _ h => h) hr).records _ _ (Trace.mem_acceptsSent.1 hat.mem)
  refine ⟨_, stamp_accept hat.type, ?_⟩
  rw [htime] at hsent
  lia

theorem decision_inTime (hr : Reachable C (timely C) w) (hd : w.QueuedDistinct)
    (hf₀ : f₀ ∈ (w.traces i).proposed) {d : PaxosFrame} (hdec : d ∈ (w.traces i).decisions)
    (hid : d.proposalId = f₀.proposalId) :
    d.decisionTime ≤ f₀.proposeTime + 2 * C.boundedMessageDelay + 10 := by
  rcases (sound hr).decision_origin hdec with ⟨-, -, g, hg, hgid, -, htime⟩
  obtain rfl : g = f₀ := (proposed_unique hr hd hg hf₀ (hgid.symm.trans hid)).2
  have hline : d.decisionTime ≤ d.proposeTime + 2 * C.boundedMessageDelay + 10 :=
    (punctual (fun _ _ h => h) hr).records _ _ (Trace.mem_decisions.1 hdec)
  rwa [htime] at hline

/-- A DECISION has arrived everywhere one delay after it was sent. -/
theorem decision_clear (hr : Reachable C (timely C) w) (hd : w.QueuedDistinct) {d : PaxosFrame}
    (hdec : d ∈ (w.traces i).decisions) (hpast : w.Past T)
    (hT : d.decisionTime + C.boundedMessageDelay ≤ T) :
    w.Clear a (PaxosFrame.decisionTest i d.proposalId) := by
  apply clear_of_past hr hpast
  intro f src hframe htest
  have htest' : (f.proposerId = i ∧ f.proposalId = d.proposalId) ∧
      f.messageType = PaxosFrame.DECISION := by
    simpa [PaxosFrame.decisionTest, PaxosFrame.isFor, PaxosFrame.isDecision] using htest
  have hat := hframe.decisionAt htest'.2
  have hmem := hat.mem
  rw [htest'.1.1] at hmem
  obtain rfl : f = d := (decision_unique hr hd hmem hdec htest'.1.2).2
  exact ⟨_, stamp_decision hat.type, hT⟩

/-! ## Decisions in time -/

theorem noCopies_of_timely (w : World) : NoCopies (timely C) w := by
  intro a _ w c hg
  refine onTransit_mono ?_ hg
  intro _ _ _ _ hrule _ _
  exact hrule.1

theorem noLossTo_of_timely : ∀ w c, timely C w c → noLossTo a w c := by
  intro w c hg
  refine onTransit_mono ?_ hg
  intro _ _ _ _ hrule _ hreq
  exact (hrule.2 hreq).1

theorem noRequestCopies_of_timely : ∀ w c, timely C w c → noRequestCopies w c := by
  intro w c hg
  refine onTransit_mono ?_ hg
  intro _ _ _ _ hrule _
  exact hrule.1

/-- After two delays and ten nanoseconds a proposal is not outstanding any more. -/
theorem lookup_eq_none_of_past (hsync : C.async = false) (hn : 2 ≤ C.numNodes)
    (hr : Reachable C (timely C) w) (hd : w.QueuedDistinct) (hf₀ : f₀ ∈ (w.traces i).proposed)
    (hpast : w.Past (f₀.proposeTime + 2 * C.boundedMessageDelay + 10)) :
    (w.servers i).proposals.lookup f₀.proposalId = none := by
  refine Option.eq_none_iff_forall_not_mem.2 ?_
  intro p hl
  have hzero : p.decisionTime = 0 := (entries hn hr i _ p hl).sync hsync
  -- Nothing of the proposal is on its way or waits, so every vote has been counted.
  have hall : ∀ b < C.numNodes, b ∉ (∅ : Finset ℕ) → b ≠ i → b ∈ w.voters i f₀.proposalId := by
    intro b hlt _ hne
    exact mem_voters_of_clear noLossTo_of_timely noLossTo_of_timely hr
      (proposals_clear hr hd hf₀ hpast (by lia)) (answers_clear hr hd hf₀ hpast (by lia))
      (accepts_clear hr hd hf₀ hpast le_rfl) hf₀ rfl hlt hne
  have hhalf := half_lt_of_live (F := ∅) (by simp; omega) (lt_of_mem_proposed hr hf₀) (by simp) hall
  exact decisionTime_of_voters (noCopies_of_timely w) hn hr hd hl hhalf hzero

theorem own_decided_of_past (hsync : C.async = false) (hn : 2 ≤ C.numNodes)
    (hr : Reachable C (timely C) w) (hd : w.QueuedDistinct) (hf₀ : f₀ ∈ (w.traces i).proposed)
    (hpast : w.Past (f₀.proposeTime + 2 * C.boundedMessageDelay + 10)) :
    ∃ p ∈ (w.traces i).decided, p.key = f₀.key ∧ p.nodeId = i ∧
      p.decisionTime ≤ f₀.proposeTime + 2 * C.boundedMessageDelay + 10 := by
  rcases own_decided hr hd hf₀ (lookup_eq_none_of_past hsync hn hr hd hf₀ hpast) with
    ⟨p, hmem, hkey, hnode⟩
  rcases decided_by_decision hr hd hmem with ⟨d, hdec, hdkey, htime⟩
  rw [hnode] at hdec
  have hid : d.proposalId = f₀.proposalId := congrArg Prod.fst (hdkey.trans hkey)
  exact ⟨p, hmem, hkey, hnode, htime ▸ decision_inTime hr hd hf₀ hdec hid⟩

/-- One delay after a DECISION was sent every server has decided its proposal. -/
theorem announced_of_past (hsync : C.async = false) (hn : 2 ≤ C.numNodes)
    (hr : Reachable C (timely C) w) (hd : w.QueuedDistinct) {d : PaxosFrame}
    (hdec : d ∈ (w.traces i).decisions)
    (hpast : w.Past (d.decisionTime + C.boundedMessageDelay)) (ha : a < C.numNodes) :
    ∃ p ∈ (w.traces a).decided, p.key = d.key ∧ p.nodeId = i ∧ p.decisionTime = d.decisionTime := by
  by_cases hai : a = i
  · -- The proposer itself decides together with its DECISION.
    subst hai
    have hown := (mem_ownDecided_sync hr hd hn hsync).2 (List.mem_map_of_mem hdec)
    rcases List.mem_map.1 hown with ⟨p, hp, hkey⟩
    have hp' : p ∈ (w.traces a).decided ∧ p.nodeId = a := by simpa [ownDecided] using hp
    rcases decided_by_decision hr hd hp'.1 with ⟨d', hdec', hkey', htime⟩
    have hid : d'.proposalId = d.proposalId := congrArg Prod.fst (hkey'.trans hkey)
    obtain rfl : d' = d := (decision_unique hr hd hdec' hdec hid).2
    exact ⟨p, hp'.1, hkey, hp'.2, htime.symm⟩
  · have hclear := decision_clear (a := a) hr hd hdec hpast le_rfl
    have hlearned := learned_of_clear noLossTo_of_timely hr hclear hdec rfl ha hai
    exact ⟨learnedProposal d, mem_decided_of_learned hr hd hdec hlearned, rfl,
      ((sound hr).decision_origin hdec).2.1, rfl⟩

/-- One delay later everybody has learned the decision. -/
theorem decided_of_past (hsync : C.async = false) (hn : 2 ≤ C.numNodes)
    (hr : Reachable C (timely C) w) (hd : w.QueuedDistinct) (hf₀ : f₀ ∈ (w.traces i).proposed)
    (hpast : w.Past (f₀.proposeTime + 3 * C.boundedMessageDelay + 10)) (ha : a < C.numNodes) :
    ∃ p ∈ (w.traces a).decided, p.key = f₀.key ∧ p.nodeId = i := by
  have hsoon : w.Past (f₀.proposeTime + 2 * C.boundedMessageDelay + 10) := by
    intro e he
    have hlate := hpast e he
    lia
  rcases own_decided_of_past hsync hn hr hd hf₀ hsoon with ⟨p, hmem, hkey, hnode, htime⟩
  rcases decided_by_decision hr hd hmem with ⟨d, hdec, hdkey, hdtime⟩
  rw [hnode] at hdec
  -- The DECISION was sent at most two delays after the PROPOSAL: the third delay is its own.
  have hpast' : w.Past (d.decisionTime + C.boundedMessageDelay) := by
    intro e he
    have hlate := hpast e he
    lia
  rcases announced_of_past hsync hn hr hd hdec hpast' ha with ⟨q, hq, hqkey, hqnode, -⟩
  exact ⟨q, hq, (hqkey.trans hdkey).trans hkey, hqnode⟩

/-! ## One proposal at a time -/

/-- When the next slot of a server comes, what it proposed in earlier slots has been decided. -/
theorem proposals_empty (hsync : C.async = false) (hn : 2 ≤ C.numNodes)
    (hr : Reachable C (timely C) w) (hd : w.QueuedDistinct)
    (hwide : 2 * C.boundedMessageDelay + 10 < C.numNodes * C.slot) {t : Time} {rest : List Event}
    (hpop : pop w.events = some (⟨t, .server i .doSyncPropose⟩, rest)) :
    (w.servers i).proposals = ∅ := by
  refine AList.eq_empty_of_lookup ?_
  intro x
  refine Option.eq_none_iff_forall_not_mem.2 ?_
  intro p hl
  have hout := (ledger hr i).outstanding x p hl
  rcases hout.origin with ⟨f, hf, hkey, -⟩
  have hid : f.proposalId = x := (congrArg Prod.fst hkey).trans hout.id
  -- It was proposed in an earlier slot of the same server, a whole period ago.
  have hslot : f.proposeTime + C.numNodes * C.slot ≤ t := by
    rcases List.getElem?_of_mem (proposed_sync hsync hr i f hf) with ⟨k, hk⟩
    have hlt : k < (w.traces i).syncCalls.length := (List.getElem?_eq_some_iff.1 hk).1
    rw [(syncCalls_eq hsync hr hk).2, slot_pending hsync hr (mem_of_pop hpop)]
    exact slotTime_add_period hlt
  have hpast : w.Past (f.proposeTime + 2 * C.boundedMessageDelay + 10) :=
    past_of_pop hpop (by dsimp only; lia)
  have hnone := lookup_eq_none_of_past hsync hn hr hd hf hpast
  rw [hid, hl] at hnone
  cases hnone

/-- What was proposed is decided or outstanding. -/
theorem proposed_length (hr : Reachable C G w) (hd : w.QueuedDistinct) (i : ℕ) :
    (w.traces i).proposed.length =
      (ownDecided i (w.traces i).decided).length + (w.servers i).outstanding.length := by
  have hlen := (accounts hr hd i).length_eq
  simpa [World.traces] using hlen

theorem newRecords_proposed_length (now : Time) (s : Server) :
    (Trace.proposed (Server.newRecords C i now .doSyncPropose s)).length ≤ 1 := by
  simp only [Server.newRecords, Trace.proposed]
  split
  · exact Nat.zero_le _
  · cases hw : s.waitingProposals <;> simp [Server.proposeRecords, hw, List.filterMap_cons]

theorem outstanding_le_one (hsync : C.async = false) (hn : 2 ≤ C.numNodes)
    (hwide : 2 * C.boundedMessageDelay + 10 < C.numNodes * C.slot)
    (hr : Reachable C (timely C) w) (hd : w.QueuedDistinct) (i : ℕ) :
    (w.servers i).outstanding.length ≤ 1 := by
  refine Transition.Reachable.invariant_of (Q := World.QueuedDistinct)
    (P := fun w => (w.servers i).outstanding.length ≤ 1)
    (fun _ _ _ _ hstep hd => QueuedDistinct.of_step hstep hd) (Nat.zero_le _) ?_ hr hd
  intro w c w' hr hd hd' hle hg hstep
  have hbefore := proposed_length hr hd i
  have hafter := proposed_length (.step hr hg hstep) hd' i
  rcases step_spec hstep with ⟨e, rest, hs⟩
  have hproposed : (w'.traces i).proposed.length =
      (w.traces i).proposed.length + (newLines C w e i).proposed.length := by
    rw [hs.traces, Trace.proposed, List.filterMap_append, List.length_append]
  have hdecided : (ownDecided i (w.traces i).decided).length ≤
      (ownDecided i (w'.traces i).decided).length := by
    have hpre := ((step_trace_grows hstep i).filterMap Record.decided?).filter
      (fun p => p.nodeId = i)
    exact hpre.length_le
  by_cases hnew : (newLines C w e i).proposed = []
  · -- What is decided does not come back, so without a new proposal the number cannot grow.
    rw [hnew, List.length_nil] at hproposed
    omega
  · -- Something is proposed, so this is a slot, and nothing was outstanding.
    rcases e with ⟨now, action⟩
    cases action with
    | server j task =>
        simp only [newLines] at hnew hproposed
        split at hnew
        · rename_i hij
          subst hij
          rw [if_pos rfl] at hproposed
          rcases List.exists_mem_of_ne_nil _ hnew with ⟨f, hf⟩
          have htask : task = .doSyncPropose := by
            rcases (newRecords_proposed hf).2 with h | rfl | ⟨-, ha⟩ | ⟨g, -, hacks⟩
            · exact h
            · have hmode : C.async = true := ofMode hr _ (mem_of_pop hs.pop)
              cases hsync.symm.trans hmode
            · cases hsync.symm.trans ha
            · cases hsync.symm.trans (Server.acksOn_async hacks)
          subst htask
          have hempty := proposals_empty hsync hn hr hd hwide hs.pop
          have hnone : (w.servers j).outstanding = [] := by
            rw [Server.outstanding, hempty]
            rfl
          have hone := newRecords_proposed_length (C := C) (i := j) now (w.servers j)
          rw [hnone, List.length_nil] at hbefore
          omega
        · exact absurd rfl hnew
    | _ =>
        exact absurd rfl hnew

/-- How long a proposal takes, and what follows for the slots if they are wide enough. -/
structure World.SyncBound (C : Cluster) (w : World) : Prop where
  decided : ∀ i, ∀ f ∈ (w.traces i).proposed,
    w.Past (f.proposeTime + 2 * C.boundedMessageDelay + 10) →
    ∃ p ∈ (w.servers i).decidedLog, p.key = f.key ∧ p.nodeId = i ∧
      p.decisionTime ≤ f.proposeTime + 2 * C.boundedMessageDelay + 10
  learned : ∀ i, ∀ f ∈ (w.traces i).proposed,
    w.Past (f.proposeTime + 3 * C.boundedMessageDelay + 10) → ∀ a < C.numNodes,
    ∃ p ∈ (w.servers a).decidedLog, p.key = f.key ∧ p.nodeId = i
  queue : ∀ a, (⟨C.stopTime, .server a .stopApplication⟩ : Event) ∈ w.events →
    (w.servers a).decidedLog = (w.servers a).decidedProposalQueue
  idle : 2 * C.boundedMessageDelay + 10 < C.numNodes * C.slot → ∀ i t rest,
    pop w.events = some (⟨t, .server i .doSyncPropose⟩, rest) → (w.servers i).proposals = ∅
  single : 2 * C.boundedMessageDelay + 10 < C.numNodes * C.slot → ∀ i,
    (w.servers i).outstanding.length ≤ 1
  wide : 3 ≤ C.numNodes → 10 < C.boundedMessageDelay →
    2 * C.boundedMessageDelay + 10 < C.numNodes * C.slot

end Bounds

end SyncPaxos
