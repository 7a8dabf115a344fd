import SyncPaxos.Run.Channel

/-!
# Stamps — when a frame was sent

A PROPOSAL, an ACCEPT and a DECISION carry the time at which they were sent, each in the field of
its round.  `Line` says what a server writes at a given time; that it says so is read off.
-/

namespace SyncPaxos

open DiscreteEvent

/-- The time of sending that a frame carries. -/
def PaxosFrame.stamp? (f : PaxosFrame) : Option Time :=
  if f.isProposal then some f.proposeTime
  else if f.isAccept then some f.acceptTime
  else if f.isDecision then some f.decisionTime
  else none

/-- A line written at the time `now` says so, if it has a time. -/
def Record.At (now : Time) : Record → Prop
  | .syncPropose t => t = now
  | .asyncPropose t => t = now
  | .proposed f => f.stamp? = some now ∧ f.proposeTime = now
  | .acceptSent f => f.stamp? = some now
  | .decision f => f.stamp? = some now ∧ f.decisionTime = now
  | _ => True

section Local

variable {C : Cluster} {i : ℕ} {now : Time} {task : Task} {s : Server}

theorem acceptFrame_stamp (f : PaxosFrame) : (acceptFrame i now f).stamp? = some now := rfl

theorem decisionFrame_stamp (f : PaxosFrame) : (decisionFrame now f).stamp? = some now := rfl

/-- A line that server `i` writes at the time `now`. -/
inductive Line (i : ℕ) (now : Time) : Record → Prop
  | syncPropose : Line i now (.syncPropose now)
  | asyncPropose : Line i now (.asyncPropose now)
  | proposed (p : Proposal) : Line i now (.proposed (proposalFrame i now p))
  | acceptSent (f : PaxosFrame) : Line i now (.acceptSent (acceptFrame i now f))
  | decision (f : PaxosFrame) : Line i now (.decision (decisionFrame now f))
  | timeless {r : Record} : (∀ t, r.At t) → Line i now r

theorem Line.at {r : Record} (h : Line i now r) : r.At now := by
  cases h with
  | syncPropose =>
      exact rfl
  | asyncPropose =>
      exact rfl
  | proposed p =>
      exact ⟨rfl, rfl⟩
  | acceptSent f =>
      exact acceptFrame_stamp f
  | decision f =>
      exact ⟨decisionFrame_stamp f, rfl⟩
  | timeless h =>
      exact h now

theorem proposeRecords_line : ∀ r ∈ s.proposeRecords i now, Line i now r := by
  intro r hr
  rcases mem_proposeRecords hr with ⟨p, rfl⟩
  exact .proposed p

theorem asyncProposeRecords_line : ∀ r ∈ s.asyncProposeRecords C i now, Line i now r := by
  intro r hr
  rcases mem_asyncProposeRecords hr with rfl | ⟨p, rfl⟩
  · exact .asyncPropose
  · exact .proposed p

/-- What a call writes, it writes at the time of the call. -/
theorem newRecords_line : ∀ r ∈ Server.newRecords C i now task s, Line i now r := by
  intro r hr
  cases task with
  | startProposerThread =>
      rcases List.mem_cons.1 hr with rfl | hr
      · exact .timeless (fun _ => trivial)
      · split at hr
        · exact asyncProposeRecords_line r hr
        · cases hr
  | createProposalFromRequest f =>
      simp only [Server.newRecords] at hr
      split at hr
      · cases hr
      · rcases List.mem_singleton.1 hr with rfl
        exact .timeless (fun _ => trivial)
  | doSyncPropose =>
      rcases List.mem_cons.1 hr with rfl | hr
      · exact .syncPropose
      · split at hr
        · cases hr
        · exact proposeRecords_line r hr
  | doAsyncPropose =>
      exact asyncProposeRecords_line r hr
  | doReceivedProposalMessage f =>
      rcases List.mem_singleton.1 hr with rfl
      exact .timeless (fun _ => trivial)
  | sendAcceptMessage f =>
      rcases List.mem_singleton.1 hr with rfl
      exact .acceptSent f
  | doReceivedAcceptMessage f =>
      rcases List.mem_cons.1 hr with rfl | hr
      · exact .timeless (fun _ => trivial)
      · split at hr
        · cases hr
        · rcases List.mem_cons.1 hr with rfl | hr
          · exact .decision f
          · split at hr
            · cases hr
            · rcases List.mem_singleton.1 hr with rfl
              exact .timeless (fun _ => trivial)
  | doReceivedDecisionMessage f =>
      simp only [Server.newRecords, List.mem_cons, List.not_mem_nil, or_false] at hr
      rcases hr with rfl | rfl <;> exact .timeless (fun _ => trivial)
  | doReceivedDecisionAckMessage f =>
      rcases List.mem_cons.1 hr with rfl | hr
      · exact .timeless (fun _ => trivial)
      · split at hr
        · cases hr
        · rcases List.mem_cons.1 hr with rfl | hr
          · exact .timeless (fun _ => trivial)
          · exact asyncProposeRecords_line r hr
  | _ =>
      cases hr

theorem newRecords_at : ∀ r ∈ Server.newRecords C i now task s, r.At now :=
  fun r hr => (newRecords_line r hr).at

/-- The packets of a line carry the time of the line. -/
theorem sendsOf_stamp {r : Record} (hr : r.At now) {e : Event} (he : e ∈ sendsOf C i now r)
    {packet : Packet} (hp : e.action.sentPacket? = some packet) {f : PaxosFrame}
    (hf : packet.paxos? = some f) {t : Time} (ht : f.stamp? = some t) : packet.sentAt = t := by
  have hsend : ∀ g dst, g.stamp? = some now → e = sendTo i now g dst → packet.sentAt = t := by
    rintro g dst hg rfl
    obtain rfl : (⟨.server i, dst, .paxos g, now⟩ : Packet) = packet := Option.some.inj hp
    obtain rfl : g = f := Option.some.inj hf
    exact Option.some.inj (hg.symm.trans ht)
  cases r with
  | proposed g =>
      rcases mem_broadcast.1 he with ⟨a, -, -, heq⟩
      exact hsend g a hr.1 heq
  | acceptSent g =>
      exact hsend g _ hr (List.mem_singleton.1 he)
  | decision g =>
      rcases mem_broadcast.1 he with ⟨a, -, -, heq⟩
      exact hsend g a hr.1 heq
  | handledDecision g =>
      simp only [sendsOf] at he
      split at he
      · rcases List.mem_singleton.1 he with rfl
        obtain rfl : (⟨.server i, g.proposerId, .paxos (decisionAckFrame i g), now⟩ : Packet) =
          packet := Option.some.inj hp
        -- A DECISION_ACK has no time of its own.
        obtain rfl : decisionAckFrame i g = f := Option.some.inj hf
        cases ht
      · cases he
  | _ =>
      cases he

/-- A PROPOSAL is made before the stop, by a call of the propose loop. -/
theorem newRecords_proposed {f : PaxosFrame}
    (hf : f ∈ Trace.proposed (Server.newRecords C i now task s)) :
    now < C.stopTime ∧
      (task = .doSyncPropose ∨ task = .doAsyncPropose ∨
        (task = .startProposerThread ∧ C.async = true) ∨
        ∃ g, task = .doReceivedDecisionAckMessage g ∧ (s.acksOn C now g).isSome) := by
  have hasync : ∀ s : Server, f ∈ Trace.proposed (s.asyncProposeRecords C i now) →
      now < C.stopTime := by
    intro s hf
    by_contra hlate
    simp [Server.asyncProposeRecords, not_lt.1 hlate] at hf
  cases task with
  | startProposerThread =>
      by_cases hlead : C.async = true ∧ i = Cluster.leader
      · refine ⟨hasync s ?_, .inr (.inr (.inl ⟨rfl, hlead.1⟩))⟩
        simpa [Server.newRecords, hlead] using hf
      · simp [Server.newRecords, hlead] at hf
  | doSyncPropose =>
      refine ⟨?_, .inl rfl⟩
      by_contra hlate
      simp [Server.newRecords, not_lt.1 hlate] at hf
  | doAsyncPropose =>
      exact ⟨hasync s hf, .inr (.inl rfl)⟩
  | createProposalFromRequest r =>
      simp only [Server.newRecords] at hf
      split at hf <;> simp at hf
  | doReceivedAcceptMessage g =>
      simp only [Server.newRecords] at hf
      split at hf
      · simp at hf
      · cases ha : C.async <;> simp [ha, List.filterMap_cons] at hf
  | doReceivedDecisionAckMessage g =>
      cases hack : s.acksOn C now g with
      | none =>
          simp [Server.newRecords, hack] at hf
      | some p =>
          refine ⟨hasync s ?_, .inr (.inr (.inr ⟨g, rfl, Option.isSome_of_mem hack⟩))⟩
          simpa [Server.newRecords, hack, List.filterMap_cons] using hf
  | _ =>
      simp [Server.newRecords] at hf

end Local

section Runs

variable {C : Cluster} {G : World → Choice → Prop} {w : World}

/-- A packet was sent at the time that its frame carries. -/
theorem sent_stamp (hr : Reachable C G w) : ∀ packet ∈ w.sent, ∀ f, packet.paxos? = some f →
    ∀ t, f.stamp? = some t → packet.sentAt = t := by
  refine Transition.Reachable.invariant (P := fun w => ∀ packet ∈ w.sent, ∀ f,
    packet.paxos? = some f → ∀ t, f.stamp? = some t → packet.sentAt = t) ?_ ?_ hr
  · intro packet hp
    cases hp
  · intro w c w' _ hold _ hstep packet hp f hf t ht
    rcases step_spec hstep with ⟨e, rest, hs⟩
    rw [hs.sent] at hp
    rcases List.mem_append.1 hp with hp | hp
    · exact hold packet hp f hf t ht
    · rcases List.mem_filterMap.1 hp with ⟨x, hx, hsome⟩
      rcases mem_emitted_sent hx hsome with ⟨i, task, r, -, hr, hsend⟩ | ⟨k, -, rfl⟩
      · exact sendsOf_stamp (newRecords_at r hr) hsend hsome hf ht
      · -- A client sends no Paxos frame.
        cases hf

/-- No line was written later than now. -/
theorem traces_line (hr : Reachable C G w) (i : ℕ) :
    ∀ r ∈ w.traces i, ∃ t, t ≤ w.now ∧ Line i t r := by
  refine Transition.Reachable.invariant
    (P := fun w => ∀ r ∈ w.traces i, ∃ t, t ≤ w.now ∧ Line i t r) ?_ ?_ hr
  · intro r hr
    cases hr
  · intro w c w' hr hold _ hstep r hline
    rcases step_spec hstep with ⟨e, rest, hs⟩
    have hnow := step_now_le hr hstep
    rw [hs.traces] at hline
    rcases List.mem_append.1 hline with hline | hline
    · rcases hold r hline with ⟨t, ht, hat⟩
      exact ⟨t, ht.trans hnow, hat⟩
    · refine ⟨e.ts, hs.now.ge, ?_⟩
      rcases e with ⟨now, action⟩
      cases action with
      | server j task =>
          simp only [newLines] at hline
          split at hline
          · exact newRecords_line r hline
          · cases hline
      | _ =>
          cases hline

theorem traces_at (hr : Reachable C G w) (i : ℕ) : ∀ r ∈ w.traces i, ∃ t, t ≤ w.now ∧ r.At t := by
  intro r hline
  rcases traces_line hr i r hline with ⟨t, ht, hr⟩
  exact ⟨t, ht, hr.at⟩

/-- A call of `DoAsyncPropose` at or after the stop. -/
def Record.IsLate (C : Cluster) : Record → Prop
  | .asyncPropose t => C.stopTime ≤ t
  | _ => False

theorem Record.IsLate.le {r : Record} {t : Time} (h : r.IsLate C) (hat : r.At t) :
    C.stopTime ≤ t := by
  cases r with
  | asyncPropose t' =>
      obtain rfl : t' = t := hat
      exact h
  | _ =>
      cases h

/-- After a call of `DoAsyncPropose` that comes too late nothing is proposed. -/
theorem no_late_proposal (hr : Reachable C G w) (i : ℕ) :
    (w.traces i).Pairwise (fun r r' => r.IsLate C → r'.proposed? = none) := by
  refine Transition.Reachable.invariant (P := fun w => (w.traces i).Pairwise
    (fun r r' => r.IsLate C → r'.proposed? = none)) ?_ ?_ hr
  · exact List.Pairwise.nil
  · intro w c w' hr hold hg hstep
    have hdated := traces_at (.step hr hg hstep) i
    rcases step_spec hstep with ⟨e, rest, hs⟩
    rw [hs.now] at hdated
    rw [hs.traces] at hdated ⊢
    -- A PROPOSAL among the new lines shows that it is not too late yet.
    have hnew : ∀ r ∈ w.traces i ++ newLines C w e i, ∀ r' ∈ newLines C w e i,
        r.IsLate C → r'.proposed? = none := by
      intro r hline r' hline' hlate
      rcases hdated r hline with ⟨t, ht, hat⟩
      refine Option.eq_none_iff_forall_not_mem.2 ?_
      intro f hf
      have hmem : f ∈ (newLines C w e i).proposed := List.mem_filterMap.2 ⟨r', hline', hf⟩
      have hstop : e.ts < C.stopTime := by
        rcases e with ⟨now, action⟩
        cases action with
        | server j task =>
            simp only [newLines] at hmem
            split at hmem
            · exact (newRecords_proposed hmem).1
            · cases hmem
        | _ =>
            cases hmem
      exact absurd (hlate.le hat) (not_le.2 (ht.trans_lt hstop))
    refine List.pairwise_append.2 ⟨hold, ?_, ?_⟩
    · refine List.pairwise_of_forall_mem_list ?_
      intro r hline r' hline'
      exact hnew r (List.mem_append_right _ hline) r' hline'
    · intro r hline r' hline'
      exact hnew r (List.mem_append_left _ hline) r' hline'

end Runs

end SyncPaxos
