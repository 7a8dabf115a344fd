import SyncPaxos.Run.Calls
import SyncPaxos.Run.Leader
import SyncPaxos.Run.Stamps
import SyncPaxos.Safety.Accounts

/-!
# Discipline — one proposal at a time

In asynchronous mode the propose loop of the leader is taken up again from two places: a poll that
comes back after a microsecond, and the DECISION_ACK that completes a majority.  `Phase` is the
invariant that keeps the two apart: a poll is pending exactly while nothing is outstanding.

* `Hand` compares the outstanding proposals with the record: what was proposed is, in this order,
  what the leader decided of its own and then what it holds.
* `Phase.doAsyncPropose` is the step: whichever place the loop is taken up from, it ends in a poll,
  in a proposal, or for good.
-/

namespace SyncPaxos

open DiscreteEvent Transition

/-- The calls that lead to the polls and keep them going. -/
def Task.isPollLoop : Task → Bool
  | .startApplication | .startProposerThread | .doAsyncPropose => true
  | _ => false

/-- What server `i` proposed is what it decided of its own, and then what it holds. -/
structure Hand (i : ℕ) (s : Server) (held : List Proposal) : Prop where
  entries : s.outstanding = held
  line : s.trace.proposed.map PaxosFrame.key =
    (ownDecided i s.trace.decided ++ held).map Proposal.key

/-- `DoAsyncPropose` has been called at or after the stop. -/
def Server.Late (C : Cluster) (s : Server) : Prop := ∃ r ∈ s.trace, r.IsLate C

/-! ## What is held -/

namespace Hand

variable {C : Cluster} {i : ℕ} {now : Time} {s s' : Server} {held : List Proposal}

theorem init (i : ℕ) : Hand i {} [] := ⟨rfl, rfl⟩

/-- Nothing else of a server matters. -/
theorem of_eq (h : Hand i s held) (hproposals : s'.proposals = s.proposals)
    (hproposed : s'.trace.proposed = s.trace.proposed)
    (hdecided : ownDecided i s'.trace.decided = ownDecided i s.trace.decided) :
    Hand i s' held := by
  constructor
  · rw [Server.outstanding, hproposals]
    exact h.entries
  · rw [hproposed, hdecided]
    exact h.line

theorem lookup_none (h : Hand i s []) (x : ℕ) : s.proposals.lookup x = none :=
  AList.lookup_eq_none_of_values h.entries x

/-- The entry that is held is replaced by one for the same request. -/
theorem putProposal {c : Proposal} (h : Hand i s [c]) {x : ℕ} {p found : Proposal}
    (hl : s.proposals.lookup x = some found) (hkey : p.key = found.key) :
    Hand i (s.putProposal x p) [p] := by
  rcases AList.values_erase_singleton h.entries hl with ⟨rfl, hnil⟩
  constructor
  · calc (s.putProposal x p).outstanding = p :: (s.proposals.erase x).values := rfl
      _ = [p] := by rw [hnil]
  · calc (s.putProposal x p).trace.proposed.map PaxosFrame.key
        = (ownDecided i s.trace.decided ++ [c]).map Proposal.key := h.line
      _ = (ownDecided i s.trace.decided ++ [p]).map Proposal.key := by
        rw [List.map_append, List.map_append, List.map_singleton, List.map_singleton, hkey]

/-- The entry that is held is decided. -/
theorem decide {c : Proposal} (h : Hand i s [c]) {x : ℕ} {p found : Proposal}
    (hl : s.proposals.lookup x = some found) (hkey : p.key = found.key) (hnode : p.nodeId = i) :
    Hand i ((s.pushDecided p).eraseProposal x) [] := by
  rcases AList.values_erase_singleton h.entries hl with ⟨rfl, hnil⟩
  have hown : ownDecided i ((s.pushDecided p).eraseProposal x).trace.decided =
      ownDecided i s.trace.decided ++ [p] := by
    simp [ownDecided, Server.pushDecided, Server.eraseProposal, hnode]
  have hproposed : ((s.pushDecided p).eraseProposal x).trace.proposed = s.trace.proposed := by
    simp [Server.pushDecided, Server.eraseProposal]
  refine ⟨hnil, ?_⟩
  rw [hproposed, hown, List.append_nil]
  calc s.trace.proposed.map PaxosFrame.key
      = (ownDecided i s.trace.decided ++ [c]).map Proposal.key := h.line
    _ = (ownDecided i s.trace.decided ++ [p]).map Proposal.key := by
      rw [List.map_append, List.map_append, List.map_singleton, List.map_singleton, hkey]

/-- The front of the waiting queue is proposed while nothing is held. -/
theorem propose (h : Hand i s []) (now : Time) (p : Proposal) (rest : List Proposal) :
    Hand i (s.propose i now p rest) [p.propose i now] := by
  have hdecided : (s.propose i now p rest).trace.decided = s.trace.decided := by
    simp [Server.propose, Server.record, Server.putProposal]
  constructor
  · calc (s.propose i now p rest).outstanding = p.propose i now :: s.outstanding :=
        AList.values_insert_of_lookup_none (h.lookup_none _)
      _ = [p.propose i now] := by rw [h.entries]
  · have hline := h.line
    rw [List.append_nil] at hline
    calc (s.propose i now p rest).trace.proposed.map PaxosFrame.key
        = s.trace.proposed.map PaxosFrame.key ++ [p.key] := by
          simp [Server.propose, Server.record, Server.putProposal]
      _ = (ownDecided i (s.propose i now p rest).trace.decided ++ [p.propose i now]).map
            Proposal.key := by
          rw [hline, hdecided, List.map_append]
          rfl

end Hand

/-! ## The loop -/

/-- Where the leader is, given its pending calls of the loop. -/
inductive Phase (C : Cluster) (calls : List Event) (s : Server) : Prop
  | before (ts : Time) (task : Task) :
      task = .startApplication ∨ task = .startProposerThread →
      calls = [⟨ts, .server Cluster.leader task⟩] → Hand Cluster.leader s [] → ¬ s.Late C →
      .proposerStarted ∉ s.trace → Phase C calls s
  | polling (ts : Time) :
      calls = [⟨ts, .server Cluster.leader .doAsyncPropose⟩] → Hand Cluster.leader s [] →
      ¬ s.Late C → Phase C calls s
  | waiting (p : Proposal) :
      calls = [] → Hand Cluster.leader s [p] → ¬ s.Late C → Phase C calls s
  | ended :
      calls = [] → Hand Cluster.leader s [] → s.Late C → Phase C calls s

namespace Phase

variable {C : Cluster} {now : Time} {task : Task} {s s' : Server} {calls calls' : List Event}

/-- A call that is none of the loop changes at most the entry that is held. -/
theorem of_same (h : Phase C calls s) (hcalls : calls.Perm calls')
    (hlate : s'.Late C ↔ s.Late C)
    (hstarted : .proposerStarted ∈ s'.trace ↔ .proposerStarted ∈ s.trace)
    (hnil : Hand Cluster.leader s [] → Hand Cluster.leader s' [])
    (hone : ∀ p, Hand Cluster.leader s [p] → ∃ p', Hand Cluster.leader s' [p']) :
    Phase C calls' s' := by
  cases h with
  | before ts task htask hc hhand hl hst =>
      rw [hc] at hcalls
      exact .before ts task htask hcalls.symm.eq_singleton (hnil hhand) (hlate.not.2 hl)
        (hstarted.not.2 hst)
  | polling ts hc hhand hl =>
      rw [hc] at hcalls
      exact .polling ts hcalls.symm.eq_singleton (hnil hhand) (hlate.not.2 hl)
  | waiting p hc hhand hl =>
      rw [hc] at hcalls
      rcases hone p hhand with ⟨p', hhand'⟩
      exact .waiting p' hcalls.symm.eq_nil hhand' (hlate.not.2 hl)
  | ended hc hhand hl =>
      rw [hc] at hcalls
      exact .ended hcalls.symm.eq_nil (hnil hhand) (hlate.2 hl)

theorem perm (h : Phase C calls s) (hcalls : calls.Perm calls') : Phase C calls' s :=
  h.of_same hcalls Iff.rfl Iff.rfl id (fun p hp => ⟨p, hp⟩)

/-- Nothing of what is held changes. -/
theorem of_eq (h : Phase C calls s) (hcalls : calls.Perm calls')
    (hproposals : s'.proposals = s.proposals) {new : Trace} (htrace : s'.trace = s.trace ++ new)
    (hproposed : Trace.proposed new = [])
    (hdecided : ownDecided Cluster.leader (Trace.decided new) = [])
    (hnew : ∀ r ∈ new, ¬ r.IsLate C ∧ r ≠ .proposerStarted) : Phase C calls' s' := by
  have hkeep : ∀ held, Hand Cluster.leader s held → Hand Cluster.leader s' held := by
    intro held hhand
    refine hhand.of_eq hproposals ?_ ?_
    · rw [htrace, Trace.proposed, List.filterMap_append, ← Trace.proposed, ← Trace.proposed,
        hproposed, List.append_nil]
    · rw [htrace, Trace.decided, List.filterMap_append, ownDecided, List.filter_append]
      exact (congrArg _ hdecided).trans (List.append_nil _)
  refine h.of_same hcalls ?_ ?_ (hkeep []) (fun p hp => ⟨p, hkeep [p] hp⟩)
  · unfold Server.Late
    rw [htrace]
    constructor
    · rintro ⟨r, hr, hl⟩
      rcases List.mem_append.1 hr with hr | hr
      · exact ⟨r, hr, hl⟩
      · exact absurd hl (hnew r hr).1
    · rintro ⟨r, hr, hl⟩
      exact ⟨r, List.mem_append_left _ hr, hl⟩
  · rw [htrace, List.mem_append]
    constructor
    · rintro (hr | hr)
      · exact hr
      · exact absurd rfl (hnew _ hr).2
    · exact .inl

/-- The entry that is held is replaced by one for the same request. -/
theorem putProposal (h : Phase C calls s) {x : ℕ} {p found : Proposal}
    (hl : s.proposals.lookup x = some found) (hkey : p.key = found.key) :
    Phase C calls (s.putProposal x p) := by
  refine h.of_same (List.Perm.refl _) Iff.rfl Iff.rfl ?_ ?_
  · intro hhand
    rw [hhand.lookup_none] at hl
    cases hl
  · intro c hhand
    exact ⟨p, hhand.putProposal hl hkey⟩

/-- Wherever it is taken up from, the loop ends in a poll, in a proposal, or for good. -/
theorem doAsyncPropose (now : Time) (hhand : Hand Cluster.leader s []) (hlate : ¬ s.Late C) :
    Phase C (callsIn Cluster.leader Task.isPollLoop (s.asyncProposeTasks C Cluster.leader now))
      (s.doAsyncPropose C Cluster.leader now).server := by
  have hnote : Hand Cluster.leader (s.record (.asyncPropose now)) [] :=
    hhand.of_eq rfl (by simp [Server.record]) (by simp [Server.record, List.filterMap_cons])
  have hearly : now < C.stopTime → ¬ (s.record (.asyncPropose now)).Late C := by
    rintro hnow ⟨r, hr, hl⟩
    rcases List.mem_append.1 hr with hr | hr
    · exact hlate ⟨r, hr, hl⟩
    · rcases List.mem_singleton.1 hr with rfl
      exact absurd hnow (not_lt.2 hl)
  rcases Server.doAsyncPropose_cases C Cluster.leader now s with
    ⟨ht, h⟩ | ⟨ht, hw, h⟩ | ⟨ht, p, rest, hw, h⟩
  · -- The stop time is reached.
    rw [h]
    refine .ended ?_ hnote ⟨.asyncPropose now, ?_, ht⟩
    · simp [Server.asyncProposeTasks, ht]
    · simp [Server.record]
  · -- Nothing waits, so the leader polls.
    rw [h]
    refine .polling (now + 1000) ?_ hnote (hearly ht)
    simp [Server.asyncProposeTasks, not_le.2 ht, hw, Task.isPollLoop]
  · -- The front of the queue is proposed.
    rw [h]
    have hpropose := hnote.propose now p rest
    refine .waiting (p.propose Cluster.leader now) ?_ (hpropose.of_eq rfl rfl rfl) ?_
    · simp [Server.asyncProposeTasks, not_le.2 ht, hw]
    · rintro ⟨r, hr, hl⟩
      rcases List.mem_append.1 hr with hr | hr
      · exact hearly ht ⟨r, hr, hl⟩
      · rcases List.mem_singleton.1 hr with rfl
        exact hl

/-- The one call of the loop that is pending is the one that runs. -/
theorem of_popped {l : List Event} (h : Phase C (⟨now, .server Cluster.leader task⟩ :: l) s) :
    l = [] ∧ Hand Cluster.leader s [] ∧ ¬ s.Late C ∧
      (((task = .startApplication ∨ task = .startProposerThread) ∧ .proposerStarted ∉ s.trace) ∨
        task = .doAsyncPropose) := by
  cases h with
  | before ts task' htask hc hhand hl hst =>
      cases hc
      exact ⟨rfl, hhand, hl, .inl ⟨htask, hst⟩⟩
  | polling ts hc hhand hl =>
      cases hc
      exact ⟨rfl, hhand, hl, .inr rfl⟩
  | waiting p hc hhand hl =>
      cases hc
  | ended hc hhand hl =>
      cases hc

/-- A majority has logged the decision, and the leader goes on. -/
theorem confirm (h : Phase C calls s) {f : PaxosFrame} {found : Proposal}
    (hl : s.proposals.lookup f.proposalId = some found)
    (hnode : found.nodeId = Cluster.leader) :
    calls = [] ∧
      Hand Cluster.leader (((s.record (.handledDecisionAck f)).pushDecided
        (found.confirm now)).eraseProposal f.proposalId) [] ∧
      ¬ (((s.record (.handledDecisionAck f)).pushDecided
        (found.confirm now)).eraseProposal f.proposalId).Late C := by
  -- The entry that is acknowledged is held, so the leader waits.
  have hsome : ¬ Hand Cluster.leader s [] := by
    intro hhand
    rw [hhand.lookup_none] at hl
    cases hl
  cases h with
  | before ts task htask hc hhand hlate hst =>
      exact absurd hhand hsome
  | polling ts hc hhand hlate =>
      exact absurd hhand hsome
  | waiting p hc hhand hlate =>
      have hrec : Hand Cluster.leader (s.record (.handledDecisionAck f)) [p] :=
        hhand.of_eq rfl (by simp [Server.record]) (by simp [Server.record, List.filterMap_cons])
      refine ⟨hc, hrec.decide hl rfl hnode, ?_⟩
      rintro ⟨r, hr, hl⟩
      have hr' : r ∈ s.trace ∨ r = .handledDecisionAck f ∨ r = .decided (found.confirm now) := by
        simpa [Server.record, Server.pushDecided, Server.eraseProposal] using hr
      rcases hr' with hr | rfl | rfl
      · exact hlate ⟨r, hr, hl⟩
      · exact hl
      · exact hl
  | ended hc hhand hlate =>
      exact absurd hhand hsome

/-- Each call of the leader keeps the phase. -/
theorem run (ha : C.async = true) {l : List Event}
    (h : Phase C (callsIn Cluster.leader Task.isPollLoop
      [⟨now, .server Cluster.leader task⟩] ++ l) s)
    (hmode : task ≠ .doSyncPropose) (hled : Ledger Cluster.leader s)
    (hforeign : ∀ f, task = .doReceivedDecisionMessage f → f.proposerId ≠ Cluster.leader) :
    Phase C (l ++ callsIn Cluster.leader Task.isPollLoop
        (Server.newTasks C Cluster.leader now task s))
      (Server.run C Cluster.leader now task s).server := by
  -- A call that schedules no call of the loop leaves the pending one.
  have hself : l.Perm (l ++ []) := by rw [List.append_nil]
  cases task with
  | startApplication =>
      rcases of_popped h with ⟨rfl, hhand, hlate, ⟨-, hst⟩ | hno⟩
      · exact .before now .startProposerThread (.inr rfl) (by simp [Server.newTasks, Task.isPollLoop])
          (hhand.of_eq rfl rfl rfl) hlate hst
      · cases hno
  | stopApplication =>
      exact h.of_eq hself rfl (List.append_nil _).symm rfl rfl (by simp)
  | startListenerThread =>
      exact h.of_eq hself rfl (List.append_nil _).symm rfl rfl (by simp)
  | startProposerThread =>
      rcases of_popped h with ⟨rfl, hhand, hlate, -⟩
      rcases Server.startProposerThread_cases C Cluster.leader now s with
        ⟨-, -, heq⟩ | ⟨-, hno, -⟩ | ⟨hno, -⟩
      · have hstart := doAsyncPropose (C := C) now
          (s := { s.record .proposerStarted with leaderState := some .waitingRequest })
          (hhand.of_eq rfl (by simp [Server.record]) (by simp [Server.record, List.filterMap_cons]))
          (by
            rintro ⟨r, hr, hl⟩
            rcases List.mem_append.1 hr with hr | hr
            · exact hlate ⟨r, hr, hl⟩
            · rcases List.mem_singleton.1 hr with rfl
              exact hl)
        have htasks : Server.newTasks C Cluster.leader now .startProposerThread s =
            s.asyncProposeTasks C Cluster.leader now := by
          simp [Server.newTasks, ha]
        rw [htasks]
        simp only [Server.run, heq]
        exact hstart
      · exact absurd rfl hno
      · rw [ha] at hno
        cases hno
  | startAcceptorThread =>
      exact h.of_eq hself rfl (List.append_nil _).symm rfl rfl (by simp)
  | createProposalFromRequest r =>
      rcases Server.createProposalFromRequest_cases Cluster.leader now r s with
        ⟨-, heq⟩ | ⟨-, heq⟩
      · simp only [Server.run, heq]
        exact h.of_eq hself rfl (List.append_nil _).symm rfl rfl (by simp)
      · simp only [Server.run, heq]
        have hqueue : Phase C (l ++ []) (s.enqueue Cluster.leader now r) :=
          h.of_eq hself rfl rfl rfl rfl (by simp [Record.IsLate])
        exact hqueue
  | doSyncPropose =>
      exact absurd rfl hmode
  | doAsyncPropose =>
      rcases of_popped h with ⟨rfl, hhand, hlate, -⟩
      exact doAsyncPropose now hhand hlate
  | doReceivedProposalMessage f =>
      exact h.of_eq hself rfl rfl rfl rfl (by simp [Record.IsLate])
  | sendAcceptMessage f =>
      exact h.of_eq hself rfl rfl rfl rfl (by simp [Record.IsLate])
  | doReceivedAcceptMessage f =>
      rcases Server.doReceivedAcceptMessage_cases C Cluster.leader now f s with
        ⟨-, heq⟩ | ⟨found, -, hl, ⟨-, heq⟩ | ⟨-, -, -, heq⟩ | ⟨-, -, hno, -⟩⟩
      · simp only [Server.run, heq]
        exact h.of_eq hself rfl rfl rfl rfl (by simp [Record.IsLate])
      · -- The vote is counted.
        have hrec : Phase C (l ++ []) (s.record (.handledAccept f)) :=
          h.of_eq hself rfl rfl rfl rfl (by simp [Record.IsLate])
        simp only [Server.run, heq]
        exact hrec.putProposal hl rfl
      · -- A majority has voted.
        have htrace : ((s.record (.handledAccept f)).record
            (.decision (decisionFrame now f))).trace =
              s.trace ++ [.handledAccept f, .decision (decisionFrame now f)] := by
          simp [Server.record]
        have hrec : Phase C (l ++ []) ((s.record (.handledAccept f)).record
            (.decision (decisionFrame now f))) :=
          h.of_eq hself rfl htrace rfl rfl (by simp [Record.IsLate])
        simp only [Server.run, heq]
        exact hrec.putProposal hl rfl
      · rw [ha] at hno
        cases hno
  | doReceivedDecisionMessage f =>
      have hne := hforeign f rfl
      have htrace : (Server.run C Cluster.leader now (.doReceivedDecisionMessage f) s).server.trace =
          s.trace ++ [.handledDecision f, .decided (learnedProposal f)] := by
        simp [Server.run, Server.doReceivedDecisionMessage, Server.record, Server.pushDecided]
      -- The proposal is another server's, so it is not on the list of the own ones.
      refine h.of_eq hself rfl htrace rfl ?_ ?_
      · simp [ownDecided, learnedProposal, hne]
      · simp [Record.IsLate]
  | doReceivedDecisionAckMessage f =>
      rcases Server.doReceivedDecisionAckMessage_cases C Cluster.leader now f s with
        ⟨hig, heq⟩ | ⟨found, -, hl, ⟨hm, heq⟩ | ⟨hm, hz, heq⟩⟩
      · simp only [Server.run, heq, Server.newTasks, Server.acksOn_ignored hig]
        exact h.of_eq hself rfl rfl rfl rfl (by simp [Record.IsLate])
      · have hrec : Phase C (l ++ []) (s.record (.handledDecisionAck f)) :=
          h.of_eq hself rfl rfl rfl rfl (by simp [Record.IsLate])
        simp only [Server.run, heq, Server.newTasks, Server.acksOn_counted ha hl hm]
        exact hrec.putProposal hl rfl
      · -- The loop is taken up again, with nothing held and no call of it pending.
        have hsome : s.acksOn C now f = some (found.confirm now) :=
          Server.acksOn_majority ha hl hm hz
        rcases h.confirm hl (hled.outstanding _ _ hl).node with ⟨hnil, hhand, hlate⟩
        obtain rfl : l = [] := (List.append_eq_nil_iff.1 hnil).2
        simp only [Server.run, heq, Server.newTasks, hsome]
        exact doAsyncPropose now hhand hlate

end Phase

section Runs

variable {C : Cluster} {G : World → Choice → Prop} {w : World}

theorem own_isPollLoop : Own Task.isPollLoop := by
  intro task h
  cases task <;> simp at h <;> rfl

theorem phase (ha : C.async = true) (hlead : Cluster.leader < C.numNodes)
    (hr : Reachable C G w) :
    Phase C (w.calls Cluster.leader Task.isPollLoop) (w.servers Cluster.leader) := by
  refine Transition.Reachable.invariant
    (P := fun w => Phase C (w.calls Cluster.leader Task.isPollLoop) (w.servers Cluster.leader))
    ?_ ?_ hr
  · refine .before C.startTime .startApplication (.inl rfl) ?_ (Hand.init _) ?_ ?_
    · exact (init_calls rfl).trans (if_pos ⟨rfl, hlead⟩)
    · rintro ⟨r, hr, -⟩
      cases hr
    · intro hr
      cases hr
  · intro w c w' hr hw _ hstep
    rcases step_spec hstep with ⟨e, rest, hs⟩
    have hmem := mem_of_pop hs.pop
    rcases e with ⟨now, action⟩
    have hquiet : (∀ task, action ≠ .server Cluster.leader task) →
        w'.servers Cluster.leader = w.servers Cluster.leader →
        Phase C (w'.calls Cluster.leader Task.isPollLoop) (w'.servers Cluster.leader) := by
      intro hne hserver
      rw [hserver]
      exact hw.perm (hs.calls_quiet own_isPollLoop hne)
    cases action with
    | server j task =>
        by_cases hj : j = Cluster.leader
        · subst hj
          rcases hs.calls_run (g := Task.isPollLoop) with ⟨l, hperm, hcalls⟩
          have hserver : w'.servers Cluster.leader =
              (Server.run C Cluster.leader now task (w.servers Cluster.leader)).server := by
            simp [hs.servers, serversAfter]
          rw [hcalls, hserver]
          refine (hw.perm hperm).run ha ?_ (ledger hr _) ?_
          · -- A slot belongs to the other mode.
            rintro rfl
            have hmode : C.async = false := ofMode hr _ hmem
            rw [ha] at hmode
            cases hmode
          · -- A DECISION comes from another server.
            rintro f rfl
            have hat : DecisionAt C w.traces Cluster.leader f := (sound hr).events _ hmem
            exact hat.ne.symm
        · refine hquiet (fun task => by simp [hj]) ?_
          simp [hs.servers, serversAfter, Function.update_of_ne (Ne.symm hj)]
    | clientStart k =>
        exact hquiet (fun _ => by simp) (by simp [hs.servers, serversAfter])
    | sendRequest k =>
        exact hquiet (fun _ => by simp) (by simp [hs.servers, serversAfter])
    | transit packet hop =>
        exact hquiet (fun _ => by simp) (by simp [hs.servers, serversAfter])

/-- The propose loop of asynchronous mode. -/
structure World.Discipline (C : Cluster) (w : World) : Prop where
  turn : .proposerStarted ∈ w.traces Cluster.leader →
    (∀ t ∈ (w.traces Cluster.leader).asyncCalls, t < C.stopTime) →
    Xor ((∃ ts, w.timers Cluster.leader .doAsyncPropose =
            [⟨ts, .server Cluster.leader .doAsyncPropose⟩]) ∧
          (w.servers Cluster.leader).outstanding = [])
      (w.timers Cluster.leader .doAsyncPropose = [] ∧
        ∃ p, (w.servers Cluster.leader).outstanding = [p])
  silent : ∀ tr₁ t tr₂, w.traces Cluster.leader = tr₁ ++ .asyncPropose t :: tr₂ →
    C.stopTime ≤ t → Trace.proposed tr₂ = []
  followers : ∀ i, i ≠ Cluster.leader → (w.servers i).waitingProposals = [] ∧
    (w.servers i).outstanding = [] ∧ (w.traces i).proposed = []
  order : (ownDecided Cluster.leader (w.traces Cluster.leader).decided).map Proposal.key <+:
    (w.traces Cluster.leader).queued.map RequestFrame.key

theorem discipline_turn (ha : C.async = true) (hr : Reachable C G w)
    (hstart : .proposerStarted ∈ w.traces Cluster.leader)
    (hstop : ∀ t ∈ (w.traces Cluster.leader).asyncCalls, t < C.stopTime) :
    Xor ((∃ ts, w.timers Cluster.leader .doAsyncPropose =
            [⟨ts, .server Cluster.leader .doAsyncPropose⟩]) ∧
          (w.servers Cluster.leader).outstanding = [])
      (w.timers Cluster.leader .doAsyncPropose = [] ∧
        ∃ p, (w.servers Cluster.leader).outstanding = [p]) := by
  have htimers := timers_eq w Cluster.leader .doAsyncPropose (g := Task.isPollLoop) rfl
  cases phase ha (lt_of_mem_trace hr hstart) hr with
  | before ts task htask hc hhand hlate hst =>
      exact absurd hstart hst
  | polling ts hc hhand hlate =>
      rw [hc] at htimers
      have hone : w.timers Cluster.leader .doAsyncPropose =
          [⟨ts, .server Cluster.leader .doAsyncPropose⟩] := by
        simpa using htimers
      refine .inl ⟨⟨⟨ts, hone⟩, hhand.entries⟩, ?_⟩
      rintro ⟨hnone, -⟩
      rw [hone] at hnone
      cases hnone
  | waiting p hc hhand hlate =>
      rw [hc] at htimers
      refine .inr ⟨⟨htimers, p, hhand.entries⟩, ?_⟩
      rintro ⟨-, hnone⟩
      rw [hhand.entries] at hnone
      cases hnone
  | ended hc hhand hlate =>
      rcases hlate with ⟨r, hline, hl⟩
      cases r with
      | asyncPropose t =>
          have hmem : t ∈ (w.traces Cluster.leader).asyncCalls :=
            List.mem_filterMap.2 ⟨_, hline, rfl⟩
          exact absurd (hstop t hmem) (not_lt.2 hl)
      | _ =>
          cases hl

/-- The leader holds what it proposed and has not decided. -/
theorem hand (ha : C.async = true) (hlead : Cluster.leader < C.numNodes) (hr : Reachable C G w) :
    ∃ held, Hand Cluster.leader (w.servers Cluster.leader) held := by
  cases phase ha hlead hr with
  | before ts task htask hc hhand hlate hst =>
      exact ⟨[], hhand⟩
  | polling ts hc hhand hlate =>
      exact ⟨[], hhand⟩
  | waiting p hc hhand hlate =>
      exact ⟨[p], hhand⟩
  | ended hc hhand hlate =>
      exact ⟨[], hhand⟩

/-- What the leader decided of its own comes first in what it proposed. -/
theorem ownDecided_isPrefix (ha : C.async = true) (hr : Reachable C G w) :
    (ownDecided Cluster.leader (w.traces Cluster.leader).decided).map Proposal.key <+:
      (w.traces Cluster.leader).proposed.map PaxosFrame.key := by
  by_cases hlead : Cluster.leader < C.numNodes
  · rcases hand ha hlead hr with ⟨held, hhand⟩
    rw [World.traces, hhand.line, List.map_append]
    exact List.prefix_append _ _
  · -- There is no leader at all.
    have hidle := (booted hr).idle Cluster.leader (not_lt.1 hlead)
    simp [World.traces, hidle, ownDecided]

theorem discipline (ha : C.async = true) (hr : Reachable C G w) : w.Discipline C := by
  refine ⟨discipline_turn ha hr, ?_, ?_, ?_⟩
  · intro tr₁ t tr₂ htrace hlate
    -- Nothing is proposed after a call at or past the stop.
    have hpair := no_late_proposal hr Cluster.leader
    rw [htrace] at hpair
    have hafter := (List.pairwise_cons.1 (List.pairwise_append.1 hpair).2.1).1
    refine List.filterMap_eq_nil_iff.2 ?_
    intro r hr
    exact hafter r hr hlate
  · intro i hi
    rcases follower_idle hr ha hi with ⟨hwaiting, hproposed, hlookup⟩
    refine ⟨hwaiting, ?_, hproposed⟩
    rw [Server.outstanding, AList.eq_empty_of_lookup hlookup]
    rfl
  · have hqueue := (ledger hr Cluster.leader).queue
    exact (ownDecided_isPrefix ha hr).trans ⟨_, hqueue⟩

/-- A PROPOSAL is copied; the leader has decided its first request and proposed its second. -/
theorem discipline_three_servers :
    ∃ w, Reachable (.oneClient 3 (by decide) true 0 10 2500 40 10 0) anyNetwork w ∧
      (ownDecided Cluster.leader (w.traces Cluster.leader).decided).length = 1 ∧
      (w.servers Cluster.leader).outstanding.length = 1 ∧
      w.Discipline (.oneClient 3 (by decide) true 0 10 2500 40 10 0) := by
  have hrun := exists_reachable_of_runInputs
    (S := program (.oneClient 3 (by decide) true 0 10 2500 40 10 0)) (G := anyNetwork)
    (List.replicate 24 ({} : Choice) ++ [{ fate := .duplicate 3 40 }] ++
      List.replicate 30 ({} : Choice))
    (fun w => (ownDecided Cluster.leader (w.traces Cluster.leader).decided).length = 1 ∧
      (w.servers Cluster.leader).outstanding.length = 1) (by decide +kernel)
  rcases hrun with ⟨w, hr, htest⟩
  rcases of_decide_eq_true htest with ⟨hdecided, hheld⟩
  exact ⟨w, hr, hdecided, hheld, discipline rfl hr⟩

end Runs

end SyncPaxos
