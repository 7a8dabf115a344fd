import SyncPaxos.Run.Channel
import SyncPaxos.Run.Stop

/-!
# Finality — what a server still does after it has stopped

`StopApplication` writes the log and closes nothing: the sockets stay bound, and what is pending
stays pending.  The propose loops look at the stop time; the receive paths, the accept-sends and the
creation of proposals do not.  So a stopped server is final as long as none of five calls runs there
(`Server.Works`), and each of the five does something.
-/

namespace SyncPaxos

open DiscreteEvent Transition

/-- What a server does that others or its log can see. -/
inductive Deed
  | sent (packet : Packet)
  | queued (frame : RequestFrame)
  | decided (proposal : Proposal)
  deriving DecidableEq, Repr

namespace Server

variable (C : Cluster) (i : ℕ) (now : Time)

/-- The deeds of a call. -/
def deeds (task : Task) (s : Server) : List Deed :=
  ((run C i now task s).events.filterMap (fun e => e.action.sentPacket?)).map .sent ++
    ((newRecords C i now task s).filterMap Record.queued?).map .queued ++
    ((newRecords C i now task s).filterMap Record.decided?).map .decided

/-- The calls that do something whatever the time is: an ACCEPT is sent, a request is queued, a
decision is learned, or a frame completes a majority. -/
def Works (task : Task) (s : Server) : Prop :=
  match task with
  | .createProposalFromRequest _ => s.waitingProposals.length ≤ 1000
  | .sendAcceptMessage _ => True
  | .doReceivedAcceptMessage f => (s.decidesOn C i now f).isSome
  | .doReceivedDecisionMessage _ => True
  | .doReceivedDecisionAckMessage f => (s.acksOn C now f).isSome
  | _ => False

instance (task : Task) (s : Server) : Decidable (s.Works C i now task) :=
  match task with
  | .createProposalFromRequest _ =>
      inferInstanceAs (Decidable (s.waitingProposals.length ≤ 1000))
  | .doReceivedAcceptMessage f => inferInstanceAs (Decidable ((s.decidesOn C i now f).isSome))
  | .doReceivedDecisionAckMessage f => inferInstanceAs (Decidable ((s.acksOn C now f).isSome))
  | .sendAcceptMessage _ | .doReceivedDecisionMessage _ => isTrue trivial
  | .startApplication | .stopApplication | .startListenerThread | .startProposerThread
  | .startAcceptorThread | .doSyncPropose | .doAsyncPropose
  | .doReceivedProposalMessage _ => isFalse id

end Server

section Late

variable {C : Cluster} {i : ℕ} {now : Time} {task : Task} {s : Server}

theorem asyncProposeRecords_late (hlate : C.stopTime ≤ now) :
    s.asyncProposeRecords C i now = [.asyncPropose now] := by
  simp [Server.asyncProposeRecords, hlate]

theorem run_sent :
    (Server.run C i now task s).events.filterMap (fun e => e.action.sentPacket?) =
      ((Server.newRecords C i now task s).flatMap (sendsOf C i now)).filterMap
        (fun e => e.action.sentPacket?) := by
  rw [Server.run_events, List.filterMap_append, newTasks_sent, List.append_nil]

/-- A call does nothing if its lines are no deeds and are sent to nobody. -/
theorem deeds_of_quiet {l : Trace} (hl : Server.newRecords C i now task s = l)
    (hall : ∀ r ∈ l, sendsOf C i now r = [] ∧ r.queued? = none ∧ r.decided? = none) :
    s.deeds C i now task = [] := by
  have hsends : l.flatMap (sendsOf C i now) = [] :=
    List.flatMap_eq_nil_iff.2 (fun r hr => (hall r hr).1)
  have hqueued : l.filterMap Record.queued? = [] :=
    List.filterMap_eq_nil_iff.2 (fun r hr => (hall r hr).2.1)
  have hdecided : l.filterMap Record.decided? = [] :=
    List.filterMap_eq_nil_iff.2 (fun r hr => (hall r hr).2.2)
  rw [Server.deeds, run_sent, hl, hsends, hqueued, hdecided]
  rfl

theorem deeds_of_quiet_line {r : Record} (hl : Server.newRecords C i now task s = [r])
    (hr : sendsOf C i now r = [] ∧ r.queued? = none ∧ r.decided? = none) :
    s.deeds C i now task = [] := by
  refine deeds_of_quiet hl ?_
  intro r' hr'
  obtain rfl := List.mem_singleton.1 hr'
  exact hr

/-- A decision is announced to a server other than this one. -/
theorem deeds_of_decidesOn {f : PaxosFrame} {p : Proposal} (hn : 2 ≤ C.numNodes)
    (hdec : s.decidesOn C i now f = some p) :
    s.deeds C i now (.doReceivedAcceptMessage f) ≠ [] := by
  have hother : ∃ a, a ≠ i ∧ a < C.numNodes := by
    by_cases hzero : i = 0
    · exact ⟨1, by omega, by omega⟩
    · exact ⟨0, by omega, by omega⟩
  rcases hother with ⟨a, hne, hlt⟩
  have hline : .decision (decisionFrame now f) ∈
      Server.newRecords C i now (.doReceivedAcceptMessage f) s := by
    simp [Server.newRecords, hdec]
  have hsend : sendTo i now (decisionFrame now f) a ∈
      (Server.newRecords C i now (.doReceivedAcceptMessage f) s).flatMap (sendsOf C i now) :=
    List.mem_flatMap.2 ⟨_, hline, mem_broadcast.2 ⟨a, hne, hlt, rfl⟩⟩
  have hpacket : (⟨.server i, a, .paxos (decisionFrame now f), now⟩ : Packet) ∈
      (Server.run C i now (.doReceivedAcceptMessage f) s).events.filterMap
        (fun e => e.action.sentPacket?) := by
    rw [run_sent]
    exact List.mem_filterMap.2 ⟨_, hsend, rfl⟩
  refine List.ne_nil_of_mem (a := .sent ⟨.server i, a, .paxos (decisionFrame now f), now⟩) ?_
  exact List.mem_append_left _ (List.mem_append_left _ (List.mem_map_of_mem hpacket))

/-- Past the stop time a call does something just when it is one of the five.  A completed majority
of votes announces a decision to somebody, since a vote comes from another server. -/
theorem deeds_eq_nil_iff (hlate : C.stopTime ≤ now)
    (hvote : ∀ f, task = .doReceivedAcceptMessage f → 2 ≤ C.numNodes) :
    s.deeds C i now task = [] ↔ ¬ s.Works C i now task := by
  have hloop : ∀ r ∈ s.asyncProposeRecords C i now,
      sendsOf C i now r = [] ∧ r.queued? = none ∧ r.decided? = none := by
    intro r hr
    rw [asyncProposeRecords_late hlate] at hr
    obtain rfl := List.mem_singleton.1 hr
    exact ⟨rfl, rfl, rfl⟩
  cases task with
  | startProposerThread =>
      refine iff_of_true (deeds_of_quiet rfl ?_) id
      intro r hr
      rcases List.mem_cons.1 hr with rfl | hr
      · exact ⟨rfl, rfl, rfl⟩
      · split at hr
        · exact hloop r hr
        · cases hr
  | createProposalFromRequest r =>
      by_cases hfull : 1000 < s.waitingProposals.length
      · -- A full queue drops the request.
        refine iff_of_true (deeds_of_quiet (if_pos hfull) ?_) (not_le.2 hfull)
        intro r hr
        cases hr
      · refine iff_of_false ?_ (not_not.2 (not_lt.1 hfull))
        simp [Server.deeds, Server.newRecords, hfull]
  | doSyncPropose =>
      have hline : Server.newRecords C i now .doSyncPropose s = [.syncPropose now] := by
        simp [Server.newRecords, hlate]
      exact iff_of_true (deeds_of_quiet_line hline ⟨rfl, rfl, rfl⟩) id
  | doAsyncPropose =>
      exact iff_of_true (deeds_of_quiet rfl hloop) id
  | doReceivedProposalMessage f =>
      exact iff_of_true (deeds_of_quiet_line rfl ⟨rfl, rfl, rfl⟩) id
  | sendAcceptMessage f =>
      refine iff_of_false ?_ (not_not.2 trivial)
      rw [Server.deeds, run_sent]
      simp [Server.newRecords, sendsOf, sendTo, Callback.sentPacket?]
  | doReceivedAcceptMessage f =>
      cases hdec : s.decidesOn C i now f with
      | none =>
          have hline : Server.newRecords C i now (.doReceivedAcceptMessage f) s =
              [.handledAccept f] := by
            simp [Server.newRecords, hdec]
          refine iff_of_true (deeds_of_quiet_line hline ⟨rfl, rfl, rfl⟩) ?_
          simp [Server.Works, hdec]
      | some p =>
          exact iff_of_false (deeds_of_decidesOn (hvote f rfl) hdec) (by simp [Server.Works, hdec])
  | doReceivedDecisionMessage f =>
      refine iff_of_false ?_ (not_not.2 trivial)
      simp [Server.deeds, Server.newRecords]
  | doReceivedDecisionAckMessage f =>
      cases hacks : s.acksOn C now f with
      | none =>
          have hline : Server.newRecords C i now (.doReceivedDecisionAckMessage f) s =
              [.handledDecisionAck f] := by
            simp [Server.newRecords, hacks]
          refine iff_of_true (deeds_of_quiet_line hline ⟨rfl, rfl, rfl⟩) ?_
          simp [Server.Works, hacks]
      | some p =>
          refine iff_of_false ?_ (by simp [Server.Works, hacks])
          simp [Server.deeds, Server.newRecords, hacks]
  | _ =>
      refine iff_of_true (deeds_of_quiet rfl ?_) id
      intro r hr
      cases hr

end Late

/-! ## Runs -/

section Runs

variable {C : Cluster} {G : World → Choice → Prop} {w w' : World} {c : Choice} {i : ℕ} {l : List Deed}

/-- What a step does at server `i`, if the server has stopped. -/
def deedsAfterStop (C : Cluster) (i : ℕ) (w : World) (_ : Choice) : List Deed :=
  match pop w.events with
  | some (⟨now, .server j task⟩, _) =>
      if j = i ∧ w.Stopped C i then (w.servers j).deeds C j now task else []
  | _ => []

/-- None of the five calls runs at server `i` after it has stopped. -/
def noLateWork (C : Cluster) (i : ℕ) (w : World) (_ : Choice) : Prop :=
  match pop w.events with
  | some (⟨now, .server j task⟩, _) =>
      j = i → w.Stopped C i → ¬ (w.servers j).Works C j now task
  | _ => True

instance (C : Cluster) (i : ℕ) (w : World) (c : Choice) : Decidable (noLateWork C i w c) :=
  match h : pop w.events with
  | some (⟨now, .server j task⟩, _) =>
      decidable_of_iff (j = i → w.Stopped C i → ¬ (w.servers j).Works C j now task)
        (by simp [noLateWork, h])
  | some (⟨_, .clientStart _⟩, _) => isTrue (by simp [noLateWork, h])
  | some (⟨_, .sendRequest _⟩, _) => isTrue (by simp [noLateWork, h])
  | some (⟨_, .transit _ _⟩, _) => isTrue (by simp [noLateWork, h])
  | none => isTrue (by simp [noLateWork, h])

theorem late_of_stopped (hr : Reachable C G w) (hstop : w.Stopped C i) {e : Event}
    {rest : List Event} (hpop : pop w.events = some (e, rest)) : C.stopTime ≤ e.ts :=
  (hstop.stopTime_le hr).trans (now_le_of_mem_events hr e (mem_of_pop hpop))

/-- A step does something at a stopped server just when it runs one of the five calls there. -/
theorem deedsAfterStop_eq_nil_iff (hr : Reachable C G w) (hstep : World.step C c w = some w') :
    deedsAfterStop C i w c = [] ↔ noLateWork C i w c := by
  rcases step_spec hstep with ⟨⟨now, action⟩, rest, hs⟩
  cases action with
  | server j task =>
      simp only [deedsAfterStop, noLateWork, hs.pop]
      by_cases hat : j = i ∧ w.Stopped C i
      · have hmem := mem_of_pop hs.pop
        have hlt : j < C.numNodes := ((booted hr).due _ hmem).lt
        -- The ACCEPT comes from another server, so there are two.
        have hvote : ∀ f, task = .doReceivedAcceptMessage f → 2 ≤ C.numNodes := by
          rintro f rfl
          have hacc : AcceptAt w.traces j f := (sound hr).events _ hmem
          exact two_le_of_acceptAt hr hacc hlt
        rw [if_pos hat, deeds_eq_nil_iff (late_of_stopped hr hat.2 hs.pop) hvote]
        exact ⟨fun h _ _ => h, fun h => h hat.1 hat.2⟩
      · rw [if_neg hat]
        exact iff_of_true rfl (fun hj hstop => absurd ⟨hj, hstop⟩ hat)
  | _ =>
      simp [deedsAfterStop, noLateWork, hs.pop]

/-- A step that does nothing at a stopped server decides nothing there. -/
theorem StepSpec.decided_of_still {e : Event} {rest : List Event} (hs : StepSpec C c w w' e rest)
    (hstop : w.Stopped C i) (hstill : deedsAfterStop C i w c = []) :
    (w'.traces i).decided = (w.traces i).decided := by
  have hnone : (newLines C w e i).filterMap Record.decided? = [] := by
    rcases e with ⟨now, action⟩
    cases action with
    | server j task =>
        by_cases hj : j = i
        · subst hj
          have hdeeds : (w.servers j).deeds C j now task = [] := by
            simpa [deedsAfterStop, hs.pop, hstop] using hstill
          have hlast := (List.append_eq_nil_iff.1 hdeeds).2
          simpa [newLines] using hlast
        · simp [newLines, hj]
    | _ =>
        rfl
  rw [hs.traces, Trace.decided, List.filterMap_append, hnone, List.append_nil]

/-- Without late work, a stopped server holds nothing that is not in its log. -/
theorem queue_of_stopped (hr : Reachable C (noLateWork C i) w) (hstop : w.Stopped C i) :
    (w.servers i).decidedProposalQueue = [] := by
  refine Transition.Reachable.invariant
    (P := fun w => w.Stopped C i → (w.servers i).decidedProposalQueue = []) ?_ ?_ hr hstop
  · intro hstop
    rfl
  · intro w c w' hr hw hg hstep hstop'
    rcases step_spec hstep with ⟨e, rest, hs⟩
    rcases hs.stopping_eq hr i with ⟨hpending, hne⟩ | ⟨-, -, rfl⟩
    · -- It had stopped before.  Log and queue together are what is decided, and neither list grows.
      have hstop : w.Stopped C i := ⟨hstop'.lt, hstop'.installed, hpending ▸ hstop'.none_pending⟩
      have hdecided := hs.decided_of_still hstop ((deedsAfterStop_eq_nil_iff hr hstep).2 hg)
      have hlog := hs.decisionLog_eq hne
      have hold := (decidedLog_perm hr i).length_eq
      have hnew := (decidedLog_perm (Transition.Reachable.step hr hg hstep) i).length_eq
      rw [Server.decidedLog, hw hstop, List.append_nil] at hold
      rw [hdecided, Server.decidedLog, hlog, List.length_append] at hnew
      exact List.length_eq_zero_iff.1 (by omega)
    · -- It stops now, and the queue is written out.
      simp [hs.servers, serversAfter, Server.run, Server.stopApplication]

/-- A stopped server is final in the runs in which none of the five calls runs there any more: it
does nothing, and its log is all it decides.  A step of another kind is never to blame. -/
theorem final_iff (ho : Observed (program C) G (deedsAfterStop C i) w l) :
    ((∀ w c, G w c → noLateWork C i w c) →
        l = [] ∧ (w.Stopped C i → (w.servers i).decisionLog.Perm (w.traces i).decided)) ∧
      ∀ c w', World.step C c w = some w' →
        (deedsAfterStop C i w c = [] ↔ noLateWork C i w c) := by
  have hr := ho.reachable
  refine ⟨?_, fun c w' hstep => deedsAfterStop_eq_nil_iff hr hstep⟩
  intro hG
  constructor
  · clear hr
    induction ho with
    | init =>
        rfl
    | @step w w' c l hobs hg hstep ih =>
        have hquiet := (deedsAfterStop_eq_nil_iff hobs.reachable hstep).2 (hG w c hg)
        rw [ih, hquiet]
        rfl
  · intro hstop
    have hqueue := queue_of_stopped (hr.mono hG) hstop
    have hperm := decidedLog_perm hr i
    rw [Server.decidedLog, hqueue, List.append_nil] at hperm
    exact hperm

/-- Both servers have logged the request and stopped, and a slot has come round since. -/
theorem final_two_servers :
    ∃ w l, Observed (program (.oneClient 2 (by decide) false 0 10 70 4 5 0))
        (noLateWork (.oneClient 2 (by decide) false 0 10 70 4 5 0) 0)
        (deedsAfterStop (.oneClient 2 (by decide) false 0 10 70 4 5 0) 0) w l ∧
      w.now = 71 ∧ (w.servers 0).decisionLog.map Proposal.proposalId = [2] ∧ l = [] ∧
      (w.servers 0).decisionLog.Perm (w.traces 0).decided := by
  have hrun := exists_reachable_of_runInputs
    (S := program (.oneClient 2 (by decide) false 0 10 70 4 5 0))
    (G := noLateWork (.oneClient 2 (by decide) false 0 10 70 4 5 0) 0)
    (List.replicate 29 ({} : Choice))
    (fun w => w.now = 71 ∧ w.Stopped (.oneClient 2 (by decide) false 0 10 70 4 5 0) 0 ∧
      (w.servers 0).decisionLog.map Proposal.proposalId = [2]) (by decide +kernel)
  rcases hrun with ⟨w, hr, htest⟩
  rcases of_decide_eq_true htest with ⟨hnow, hstop, hlog⟩
  rcases hr.observed (deedsAfterStop (.oneClient 2 (by decide) false 0 10 70 4 5 0) 0) with ⟨l, ho⟩
  rcases (final_iff ho).1 (fun _ _ h => h) with ⟨hl, hperm⟩
  exact ⟨w, l, ho, hnow, hlog, hl, hperm hstop⟩

/-- The servers stop at 25 with an ACCEPT still to be sent.  Server 1 sends it, server 0 decides and
announces the decision, and neither log has it. -/
theorem stopped_server_decides :
    ∃ w, Reachable (.oneClient 2 (by decide) false 0 10 25 4 5 0)
        (synchronous (.oneClient 2 (by decide) false 0 10 25 4 5 0)) w ∧
      (∀ i : ℕ, i < 2 → w.Stopped (.oneClient 2 (by decide) false 0 10 25 4 5 0) i ∧
        (w.servers i).decisionLog = [] ∧
        (w.traces i).decided.map Proposal.proposalId = [2] ∧
        ∃ packet ∈ w.sent, packet.src = .server i ∧ 25 < packet.sentAt) := by
  have hrun := exists_reachable_of_runInputs
    (S := program (.oneClient 2 (by decide) false 0 10 25 4 5 0))
    (G := synchronous (.oneClient 2 (by decide) false 0 10 25 4 5 0))
    (List.replicate 25 ({} : Choice))
    (fun w => ∀ i : ℕ, i < 2 → w.Stopped (.oneClient 2 (by decide) false 0 10 25 4 5 0) i ∧
      (w.servers i).decisionLog = [] ∧
      (w.traces i).decided.map Proposal.proposalId = [2] ∧
      ∃ packet ∈ w.sent, packet.src = .server i ∧ 25 < packet.sentAt) (by decide +kernel)
  rcases hrun with ⟨w, hr, htest⟩
  exact ⟨w, hr, of_decide_eq_true htest⟩

end Runs

end SyncPaxos
