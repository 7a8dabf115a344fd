import SyncPaxos.Library.Closed
import SyncPaxos.Run.Stop
import SyncPaxos.Timing.Bounds

/-!
# LogAgreement — the files of the servers, line by line

All servers stop at the same time, each with what it has learned by then.  A DECISION that was sent
more than one delay before the stop has arrived everywhere and is in every file; a later one may be
in the file of its proposer and in no other.

Line numbers count the ids in increasing order, not the decisions in the order they were taken, so
one missing line shifts all the lines after it.  Two files agree as far as their lines were all
decided more than one delay before the stop.
-/

namespace SyncPaxos

open DiscreteEvent Transition

section LogAgreement

variable {C : Cluster} {w w' : World} {c : Choice} {i a b : ℕ}

/-- A DECISION that a step adds is dated with the time of the step. -/
theorem decisionTime_of_newLines {e : Event} {d : PaxosFrame}
    (hd : d ∈ (newLines C w e i).decisions) : d.decisionTime = e.ts := by
  rcases e with ⟨now, action⟩
  have hline := Trace.mem_decisions.1 hd
  cases action with
  | server j task =>
      simp only [newLines] at hline
      split at hline
      · exact (newRecords_at _ hline).2
      · cases hline
  | _ =>
      cases hline

/-- When the stop of a server has its turn, it has decided whatever was announced more than one
delay ago. -/
theorem decided_at_stop (hsync : C.async = false) (hn : 2 ≤ C.numNodes)
    (hr : Reachable C (timely C) w) (hd : w.QueuedDistinct) {rest : List Event}
    (hpop : pop w.events = some (⟨C.stopTime, .server a .stopApplication⟩, rest)) {d : PaxosFrame}
    (hdec : d ∈ (w.traces i).decisions)
    (hearly : d.decisionTime + C.boundedMessageDelay < C.stopTime) :
    ∃ p ∈ (w.servers a).decidedProposalQueue,
      p.key = d.key ∧ p.nodeId = i ∧ p.decisionTime = d.decisionTime := by
  have hstop := mem_of_pop hpop
  have ha : a < C.numNodes := ((booted hr).due _ hstop).lt
  have hpast : w.Past (d.decisionTime + C.boundedMessageDelay) := past_of_pop hpop hearly
  rcases announced_of_past hsync hn hr hd hdec hpast ha with ⟨p, hp, hsame⟩
  have hlog := (decidedLog_perm hr a).mem_iff.2 hp
  rw [decidedLog_of_running hr hstop] at hlog
  exact ⟨p, hlog, hsame⟩

/-- Whatever was announced more than one delay before the stop is in the file of every server that
has stopped. -/
theorem logged_of_announced (hsync : C.async = false) (hn : 2 ≤ C.numNodes)
    (hr : Reachable C (timely C) w) (hd : w.QueuedDistinct) :
    ∀ a, w.Stopped C a → ∀ i, ∀ d ∈ (w.traces i).decisions,
      d.decisionTime + C.boundedMessageDelay < C.stopTime →
      ∃ p ∈ (w.servers a).decisionLog,
        p.key = d.key ∧ p.nodeId = i ∧ p.decisionTime = d.decisionTime := by
  refine hr.invariant_of (Q := World.QueuedDistinct)
    (P := fun w => ∀ a, w.Stopped C a → ∀ i, ∀ d ∈ (w.traces i).decisions,
      d.decisionTime + C.boundedMessageDelay < C.stopTime →
      ∃ p ∈ (w.servers a).decisionLog,
        p.key = d.key ∧ p.nodeId = i ∧ p.decisionTime = d.decisionTime)
    (fun _ _ _ _ hstep hd => QueuedDistinct.of_step hstep hd) ?_ ?_ hd
  · intro a _ i d hdec
    cases hdec
  · intro w c w' hr hd _ hP _ hstep a hstopped i d hdec hearly
    rcases step_spec hstep with ⟨e, rest, hs⟩
    rw [hs.traces, Trace.decisions, List.filterMap_append] at hdec
    have hnew : d ∈ (newLines C w e i).decisions → d.decisionTime = e.ts := decisionTime_of_newLines
    rcases hs.stopping_eq hr a with ⟨hpending, hne⟩ | ⟨-, -, rfl⟩
    · -- The server had stopped before, so what is announced now is announced after the stop.
      have hbefore : w.Stopped C a :=
        ⟨hstopped.lt, hstopped.installed, hpending.symm.trans hstopped.none_pending⟩
      have hold : d ∈ (w.traces i).decisions := by
        rcases List.mem_append.1 hdec with hold | hline
        · exact hold
        · have hstop := hbefore.stopTime_le hr
          have hnow := now_le_of_mem_events hr e (mem_of_pop hs.pop)
          have htime := hnew hline
          lia
      rw [hs.decisionLog_eq hne]
      exact hP a hbefore i d hold hearly
    · -- The stop itself announces nothing.
      have hold : d ∈ (w.traces i).decisions := by
        rcases List.mem_append.1 hdec with hold | hline
        · exact hold
        · have htime := hnew hline
          dsimp only at htime
          lia
      rcases decided_at_stop hsync hn hr hd hs.pop hold hearly with ⟨p, hp, hsame⟩
      rw [hs.decisionLog_stop]
      exact ⟨p, (List.perm_insertionSort _ _).mem_iff.2 hp, hsame⟩

/-- The ids of a file increase. -/
theorem decisionLog_increasing (hr : Reachable C (timely C) w) (hd : w.QueuedDistinct) (a : ℕ) :
    ((w.servers a).decisionLog.map Proposal.proposalId).Pairwise (· < ·) := by
  have hnodup : ((w.servers a).decisionLog.map Proposal.proposalId).Nodup := by
    have hall := decided_nodup hr hd (learned_nodup (noCopies_of_timely w) hr hd a)
    rw [Server.decidedLog, List.map_append] at hall
    exact (List.nodup_append.1 hall).1
  have hsorted := List.pairwise_map.2 (decisionLog_sorted hr a)
  exact hsorted.imp₂ (fun _ _ hle hne => lt_of_le_of_ne hle hne) hnodup

/-- What a stopped server has in its file, and what the files of two servers have in common.
`announced` starts from the DECISIONs that were sent, `complete` from what a server decided. -/
structure World.LogsAgree (C : Cluster) (w : World) : Prop where
  announced : ∀ b, w.Stopped C b → ∀ i, ∀ d ∈ (w.traces i).decisions,
    d.decisionTime + C.boundedMessageDelay < C.stopTime →
    ∃ q ∈ (w.servers b).decisionLog,
      q.key = d.key ∧ q.nodeId = i ∧ q.decisionTime = d.decisionTime
  complete : ∀ b, w.Stopped C b → ∀ a, ∀ p ∈ (w.traces a).decided,
    p.decisionTime + C.boundedMessageDelay < C.stopTime →
    ∃ q ∈ (w.servers b).decisionLog,
      q.key = p.key ∧ q.nodeId = p.nodeId ∧ q.decisionTime = p.decisionTime
  agree : ∀ a b k p q, (w.servers a).decisionLog[k]? = some p →
    (w.servers b).decisionLog[k]? = some q →
    (∀ r ∈ (w.servers a).decisionLog.take (k + 1) ++ (w.servers b).decisionLog.take (k + 1),
      r.decisionTime + C.boundedMessageDelay < C.stopTime) →
    p.proposalId = q.proposalId ∧ p.nodeId = q.nodeId ∧ p.value = q.value

theorem logs_agree (hsync : C.async = false) (hr : Reachable C (timely C) w)
    (hd : w.DistinctTimestamps) : w.LogsAgree C := by
  have hdist : w.QueuedDistinct := queuedDistinct noRequestCopies_of_timely hr hd
  have hannounced : ∀ b, w.Stopped C b → ∀ i, ∀ d ∈ (w.traces i).decisions,
      d.decisionTime + C.boundedMessageDelay < C.stopTime →
      ∃ q ∈ (w.servers b).decisionLog,
        q.key = d.key ∧ q.nodeId = i ∧ q.decisionTime = d.decisionTime := by
    intro b hb i d hdec hearly
    -- A DECISION needs the vote of another server.
    have hn : 2 ≤ C.numNodes := two_le_of_decision hr hdec
    exact logged_of_announced hsync hn hr hdist b hb i d hdec hearly
  have hcomplete : ∀ b, w.Stopped C b → ∀ a, ∀ p ∈ (w.traces a).decided,
      p.decisionTime + C.boundedMessageDelay < C.stopTime →
      ∃ q ∈ (w.servers b).decisionLog,
        q.key = p.key ∧ q.nodeId = p.nodeId ∧ q.decisionTime = p.decisionTime := by
    intro b hb a p hp hearly
    rcases decided_by_decision hr hdist hp with ⟨d, hdec, hkey, htime⟩
    rw [← htime] at hearly
    rcases hannounced b hb _ d hdec hearly with ⟨q, hq, hqkey, hnode, hqtime⟩
    exact ⟨q, hq, hqkey.trans hkey, hnode, hqtime.trans htime⟩
  have hmem : ∀ a, ∀ p ∈ (w.servers a).decisionLog, p ∈ (w.servers a).decidedLog :=
    fun a p hp => List.mem_append_left _ hp
  refine ⟨hannounced, hcomplete, ?_⟩
  intro a b k p q hp hq hsettled
  have hpmem : p ∈ (w.servers a).decisionLog := List.mem_of_getElem? hp
  have hqmem : q ∈ (w.servers b).decisionLog := List.mem_of_getElem? hq
  have hsub : ∀ a b, w.Stopped C b →
      (∀ r ∈ (w.servers a).decisionLog.take (k + 1),
        r.decisionTime + C.boundedMessageDelay < C.stopTime) →
      ((w.servers a).decisionLog.map Proposal.proposalId).take (k + 1) ⊆
        (w.servers b).decisionLog.map Proposal.proposalId := by
    intro a b hb hearly x hx
    rw [← List.map_take] at hx
    rcases List.mem_map.1 hx with ⟨r, hr', rfl⟩
    have hdecided := mem_decided_of_log hr (hmem a r (List.mem_of_mem_take hr'))
    rcases hcomplete b hb a r hdecided (hearly r hr') with ⟨s, hs, hkey, -⟩
    exact List.mem_map.2 ⟨s, hs, congrArg Prod.fst hkey⟩
  -- Both files increase, and each holds the first lines of the other.
  have hid : p.proposalId = q.proposalId := by
    apply List.eq_of_pairwise_lt (k := k) (decisionLog_increasing hr hdist a)
      (decisionLog_increasing hr hdist b)
    · apply hsub a b (stopped_of_mem_decisionLog hr hqmem)
      exact fun r hr' => hsettled r (List.mem_append_left _ hr')
    · apply hsub b a (stopped_of_mem_decisionLog hr hpmem)
      exact fun r hr' => hsettled r (List.mem_append_right _ hr')
    · simp [hp]
    · simp [hq]
  have hsame := decided_agree hr hdist (hmem a p hpmem) (hmem b q hqmem) hid
  exact ⟨hid, hsame.1, hsame.2.1⟩

end LogAgreement

/-- Two servers with a proposal each.  Of the one from server 0 the PROPOSAL, the ACCEPT and the
DECISION all take about as long as they may, and still both files are settled by the stop. -/
theorem logs_agree_two_servers :
    ∃ w, Reachable (.oneClient 2 (by decide) false 0 10 70 6 3 0)
        (timely (.oneClient 2 (by decide) false 0 10 70 6 3 0)) w ∧
      (∀ a : ℕ, a < 2 → ((w.servers a).decisionLog.map Proposal.proposalId) = [2, 5] ∧
        ∀ p ∈ (w.servers a).decisionLog, p.decisionTime + 10 < 70) ∧
      w.LogsAgree (.oneClient 2 (by decide) false 0 10 70 6 3 0) := by
  have hrun := exists_reachable_of_runInputs
    (S := program (.oneClient 2 (by decide) false 0 10 70 6 3 0))
    (G := timely (.oneClient 2 (by decide) false 0 10 70 6 3 0))
    (List.replicate 18 ({} : Choice) ++ [{ fate := .forward 10 }] ++
      List.replicate 8 ({} : Choice) ++ [{ fate := .forward 9 }] ++
      List.replicate 6 ({} : Choice) ++ [{ fate := .forward 10 }] ++
      List.replicate 6 ({} : Choice))
    (fun w => ∀ a : ℕ, a < 2 → ((w.servers a).decisionLog.map Proposal.proposalId) = [2, 5] ∧
        ∀ p ∈ (w.servers a).decisionLog, p.decisionTime + 10 < 70) (by decide +kernel)
  rcases hrun with ⟨w, hr, htest⟩
  exact ⟨w, hr, of_decide_eq_true htest,
    logs_agree rfl hr (distinctTimestamps rfl (by decide) hr)⟩

/-- If the servers stop while a DECISION travels, the file of its proposer has one line more, and
the first lines of the two files differ. -/
theorem logs_differ_in_first_line :
    ∃ w, Reachable (.oneClient 2 (by decide) false 0 10 55 6 3 0)
        (synchronous (.oneClient 2 (by decide) false 0 10 55 6 3 0)) w ∧
      (∀ a : ℕ, a < 2 → w.Stopped (.oneClient 2 (by decide) false 0 10 55 6 3 0) a) ∧
      ((w.servers 0).decisionLog[0]?).map Proposal.proposalId = some 2 ∧
      ((w.servers 1).decisionLog[0]?).map Proposal.proposalId = some 5 := by
  have hrun := exists_reachable_of_runInputs
    (S := program (.oneClient 2 (by decide) false 0 10 55 6 3 0))
    (G := synchronous (.oneClient 2 (by decide) false 0 10 55 6 3 0))
    (List.replicate 18 ({} : Choice) ++ [{ fate := .forward 10 }] ++
      List.replicate 8 ({} : Choice) ++ [{ fate := .forward 9 }] ++
      List.replicate 6 ({} : Choice) ++ [{ fate := .forward 10 }] ++
      List.replicate 3 ({} : Choice))
    (fun w => (∀ a : ℕ, a < 2 → w.Stopped (.oneClient 2 (by decide) false 0 10 55 6 3 0) a) ∧
      ((w.servers 0).decisionLog[0]?).map Proposal.proposalId = some 2 ∧
      ((w.servers 1).decisionLog[0]?).map Proposal.proposalId = some 5) (by decide +kernel)
  rcases hrun with ⟨w, hr, htest⟩
  exact ⟨w, hr, of_decide_eq_true htest⟩

end SyncPaxos
