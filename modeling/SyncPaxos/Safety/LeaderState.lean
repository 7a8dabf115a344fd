import SyncPaxos.Safety.Discipline

/-!
# LeaderState — `m_leaderState` and the design diagram

The diagram of the asynchronous leader goes round through six states.  The code assigns two of them:
WAITING_REQUEST when the proposer starts, and PROPOSED after each PROPOSAL.  What a call assigns is
`assignedStates`; along a run this is one value for the start and one for every PROPOSAL
(`leaderStates_eq`), so the variable stays at PROPOSED from the first proposal on.

`proposeTimerExpired` reads the variable.  Since it never says that a proposal is over, a timeout of
any proposal that the leader holds calls `DoAsyncPropose`, which takes the next request from the
queue or polls.
-/

namespace SyncPaxos

open DiscreteEvent Transition

/-! ## The diagram -/

namespace LeaderState

/-- The edges of the diagram, those of a timeout among them. -/
def next : LeaderState → List LeaderState
  | waitingRequest => [proposing]
  | proposing => [proposed]
  | proposed => [accepted, proposing]
  | accepted => [decising]
  | decising => [decided, proposing]
  | decided => [waitingRequest]

/-- The values run along the edges, from WAITING_REQUEST on. -/
def IsPath (l : List LeaderState) : Prop :=
  (∀ a ∈ l.head?, a = waitingRequest) ∧ l.IsChain (fun a b => b ∈ a.next)

end LeaderState

/-! ## What a call assigns -/

namespace Server

variable (C : Cluster) (i : ℕ) (now : Time)

/-- The values that `DoAsyncPropose` assigns to `m_leaderState`. -/
def asyncProposeStates (s : Server) : List LeaderState :=
  if C.stopTime ≤ now then
    []
  else if s.waitingProposals ≠ [] then
    [.proposed]
  else
    []

/-- The values that a call assigns to `m_leaderState`, in order. -/
def assignedStates (task : Task) (s : Server) : List LeaderState :=
  match task with
  | .startProposerThread =>
      if C.async = true ∧ i = Cluster.leader then .waitingRequest :: s.asyncProposeStates C now
      else []
  | .doAsyncPropose => s.asyncProposeStates C now
  | .doReceivedDecisionAckMessage f =>
      match s.acksOn C now f with
      | none => []
      | some _ => s.asyncProposeStates C now
  | _ => []

theorem doAsyncPropose_leaderState (s : Server) :
    (s.doAsyncPropose C i now).server.leaderState =
      (s.asyncProposeStates C now).getLast?.or s.leaderState := by
  rcases s.doAsyncPropose_cases C i now with
    ⟨hlate, heq⟩ | ⟨hnow, hw, heq⟩ | ⟨hnow, p, rest, hw, heq⟩
  · simp [heq, asyncProposeStates, hlate, record]
  · simp [heq, asyncProposeStates, hw, record]
  · simp [heq, asyncProposeStates, not_le.2 hnow, hw]

theorem doPropose_leaderState (s : Server) :
    (s.doPropose C i now).2.server.leaderState = s.leaderState := by
  rcases s.doPropose_cases C i now with ⟨-, heq⟩ | ⟨p, rest, -, heq⟩ <;> simp [heq, record, putProposal]

/-- After a call the variable has the last value that the call assigned. -/
theorem run_leaderState (task : Task) (s : Server) :
    (run C i now task s).server.leaderState =
      (s.assignedStates C i now task).getLast?.or s.leaderState := by
  cases task with
  | startProposerThread =>
      rcases startProposerThread_cases C i now s with
        ⟨ha, hi, heq⟩ | ⟨ha, hi, heq⟩ | ⟨ha, heq⟩
      · have hstates : s.assignedStates C i now .startProposerThread =
            .waitingRequest :: s.asyncProposeStates C now := by
          simp [assignedStates, ha, hi]
        rw [run, heq, doAsyncPropose_leaderState, hstates, List.getLast?_cons]
        -- The start has assigned WAITING_REQUEST, which stays if no PROPOSAL follows.
        change (s.asyncProposeStates C now).getLast?.or (some .waitingRequest) = _
        cases (s.asyncProposeStates C now).getLast? <;> rfl
      · simp [run, heq, assignedStates, hi, record]
      · simp [run, heq, assignedStates, ha, record]
  | doAsyncPropose =>
      exact doAsyncPropose_leaderState C i now s
  | doReceivedDecisionAckMessage f =>
      rcases s.doReceivedDecisionAckMessage_cases C i now f with
        ⟨hno, heq⟩ | ⟨found, ha, hl, ⟨hno, heq⟩ | ⟨hmaj, hz, heq⟩⟩
      · simp [run, heq, assignedStates, acksOn_ignored hno, record]
      · simp [run, heq, assignedStates, acksOn_counted ha hl hno, record, putProposal]
      · have hsome : s.acksOn C now f = some (found.confirm now) := acksOn_majority ha hl hmaj hz
        rw [run, heq, doAsyncPropose_leaderState]
        simp only [assignedStates, hsome]
        rfl
  | doReceivedAcceptMessage f =>
      rcases s.doReceivedAcceptMessage_cases C i now f with
        ⟨-, heq⟩ | ⟨found, -, -, ⟨-, heq⟩ | ⟨-, -, -, heq⟩ | ⟨-, -, -, heq⟩⟩ <;>
        simp [run, heq, assignedStates, record, putProposal, pushDecided, eraseProposal]
  | doSyncPropose =>
      rcases s.doSyncPropose_cases C i now with ⟨-, heq⟩ | ⟨-, heq⟩ <;>
        simp [run, heq, assignedStates, doPropose_leaderState, record]
  | createProposalFromRequest r =>
      rcases createProposalFromRequest_cases i now r s with ⟨-, heq⟩ | ⟨-, heq⟩ <;>
        simp [run, heq, assignedStates, record]
  | _ =>
      rfl

end Server

/-! ## What a line says about the variable -/

section Lines

variable {C : Cluster} {i : ℕ} {now : Time} {task : Task} {s : Server}

/-- The value that is assigned next to a line of the leader. -/
def Record.assigned? : Record → Option LeaderState
  | .proposerStarted => some .waitingRequest
  | .proposed _ => some .proposed
  | _ => none

theorem asyncProposeStates_eq :
    s.asyncProposeStates C now = (s.asyncProposeRecords C i now).filterMap Record.assigned? := by
  unfold Server.asyncProposeStates Server.asyncProposeRecords
  by_cases hlate : C.stopTime ≤ now
  · simp [hlate, Record.assigned?]
  · cases hw : s.waitingProposals with
    | nil =>
        simp [hlate, Server.proposeRecords, hw, Record.assigned?]
    | cons p rest =>
        simp only [hlate, Server.proposeRecords, hw, if_false, ne_eq, reduceCtorEq,
          not_false_eq_true, if_true]
        rfl

theorem assignedStates_eq (ha : C.async = true) (hmode : task ≠ .doSyncPropose) :
    s.assignedStates C Cluster.leader now task =
      (Server.newRecords C Cluster.leader now task s).filterMap Record.assigned? := by
  cases task with
  | startProposerThread =>
      simp [Server.assignedStates, Server.newRecords, ha, asyncProposeStates_eq (i := Cluster.leader),
        Record.assigned?]
  | doAsyncPropose =>
      exact asyncProposeStates_eq
  | doSyncPropose =>
      exact absurd rfl hmode
  | doReceivedDecisionAckMessage f =>
      simp only [Server.assignedStates, Server.newRecords]
      cases s.acksOn C now f with
      | none =>
          rfl
      | some p =>
          exact asyncProposeStates_eq
  | doReceivedAcceptMessage f =>
      simp only [Server.assignedStates, Server.newRecords]
      cases s.decidesOn C Cluster.leader now f with
      | none =>
          rfl
      | some p =>
          simp [ha, Record.assigned?]
  | createProposalFromRequest r =>
      simp only [Server.assignedStates, Server.newRecords]
      split <;> rfl
  | _ =>
      rfl

/-- Without a start, what is assigned is one PROPOSED for every PROPOSAL. -/
theorem filterMap_assigned {l : Trace} (h : .proposerStarted ∉ l) :
    l.filterMap Record.assigned? = (Trace.proposed l).map (fun _ => .proposed) := by
  induction l with
  | nil =>
      rfl
  | cons r l ih =>
      have hl : .proposerStarted ∉ l := fun hmem => h (List.mem_cons_of_mem _ hmem)
      cases r with
      | proposerStarted =>
          exact absurd List.mem_cons_self h
      | proposed f =>
          simp [Record.assigned?, ih hl]
      | _ =>
          exact ih hl

end Lines

/-! ## Runs -/

section Runs

variable {C : Cluster} {G : World → Choice → Prop} {w w' : World} {c : Choice} {l : List LeaderState}

/-- The proposer of the leader has been started. -/
def World.Begun (w : World) : Prop := .proposerStarted ∈ w.traces Cluster.leader

instance (w : World) : Decidable w.Begun :=
  inferInstanceAs (Decidable (Record.proposerStarted ∈ w.traces Cluster.leader))

/-- The values that a step assigns to the variable of the leader. -/
def leaderStates (C : Cluster) (w : World) (_ : Choice) : List LeaderState :=
  match pop w.events with
  | some (⟨now, .server i task⟩, _) =>
      if i = Cluster.leader then (w.servers i).assignedStates C i now task else []
  | _ => []

/-- Nothing is proposed and nothing polls before the start. -/
structure World.Asleep (w : World) : Prop where
  polls : ∀ t, (⟨t, .server Cluster.leader .doAsyncPropose⟩ : Event) ∈ w.events → w.Begun
  proposed : (w.traces Cluster.leader).proposed ≠ [] → w.Begun

theorem asleep (ha : C.async = true) (hr : Reachable C G w) : w.Asleep := by
  refine Transition.Reachable.invariant (P := World.Asleep) ?_ ?_ hr
  · constructor
    · intro t he
      rcases mem_init_events he with ⟨k, -, h⟩ | ⟨i, -, h⟩ | ⟨i, -, h⟩ <;> cases h
    · intro h
      exact absurd rfl h
  · intro w c w' hr hw _ hstep
    rcases step_spec hstep with ⟨e, rest, hs⟩
    have hgrow : w.Begun → w'.Begun := fun h => (step_trace_grows hstep _).subset h
    -- A proposal that is acknowledged is held, so it was proposed.
    have hacks : ∀ now g, ((w.servers Cluster.leader).acksOn C now g).isSome → w.Begun := by
      intro now g hsome
      have hheld : (w.servers Cluster.leader).proposals.lookup g.proposalId ≠ none := by
        intro hnone
        simp [Server.acksOn_ignored (.inr hnone)] at hsome
      rcases Option.ne_none_iff_exists'.1 hheld with ⟨p, hp⟩
      rcases ((ledger hr _).outstanding _ p hp).origin with ⟨f, hf, -⟩
      exact hw.proposed (List.ne_nil_of_mem hf)
    have hbegin : e.action = .server Cluster.leader .startProposerThread → w'.Begun := by
      intro haction
      have hline : .proposerStarted ∈ newLines C w e Cluster.leader := by
        simp [newLines, haction, Server.newRecords]
      rw [World.Begun, hs.traces]
      exact List.mem_append_right _ hline
    constructor
    · intro t he
      rw [hs.events] at he
      rcases List.mem_append.1 he with he | he
      · exact hgrow (hw.polls t (mem_rest_of_pop hs.pop he))
      · -- A poll is scheduled by the start, by a poll, or by the end of a proposal.
        have hcall : Callback.isCall Cluster.leader Task.isPollLoop
            (.server Cluster.leader .doAsyncPropose) = true := rfl
        rcases mem_emitted_call own_isPollLoop he hcall with ⟨task, haction, hnew⟩
        cases Server.schedules_of_mem_newTasks C Cluster.leader e.ts hnew with
        | poll htask =>
            rcases htask with ⟨rfl, -⟩ | rfl | ⟨g, rfl, hsome⟩
            · exact hbegin haction
            · refine hgrow (hw.polls e.ts ?_)
              have hmem := mem_of_pop hs.pop
              rcases e with ⟨ts, action⟩
              obtain rfl : action = .server Cluster.leader .doAsyncPropose := haction
              exact hmem
            · exact hgrow (hacks _ g hsome)
        | boot h =>
            rcases h with h | h | h <;> cases h
    · intro hne
      by_cases hold : (w.traces Cluster.leader).proposed = []
      · -- The first PROPOSAL: the call that sends it is the start, or comes after the start.
        have hnew : Trace.proposed (newLines C w e Cluster.leader) ≠ [] := by
          intro hnil
          refine hne ?_
          rw [hs.traces, Trace.proposed, List.filterMap_append]
          exact List.append_eq_nil_iff.2 ⟨hold, hnil⟩
        rcases List.exists_mem_of_ne_nil _ hnew with ⟨f, hf⟩
        rcases e with ⟨now, action⟩
        cases action with
        | server i task =>
            by_cases hi : i = Cluster.leader
            · subst hi
              have hf' : f ∈ Trace.proposed
                  (Server.newRecords C Cluster.leader now task (w.servers Cluster.leader)) := by
                simpa [newLines] using hf
              have hmem := mem_of_pop hs.pop
              rcases (newRecords_proposed hf').2 with rfl | rfl | ⟨rfl, -⟩ | ⟨g, rfl, hsome⟩
              · cases (ofMode hr _ hmem).symm.trans ha
              · exact hgrow (hw.polls now hmem)
              · exact hbegin rfl
              · exact hgrow (hacks _ g hsome)
            · simp [newLines, hi] at hf
        | _ =>
            cases hf
      · exact hgrow (hw.proposed hold)

/-- What the variable of the leader has been assigned in a run. -/
theorem leaderStates_eq (ha : C.async = true) (ho : Observed (program C) G (leaderStates C) w l) :
    l = (w.traces Cluster.leader).filterMap Record.assigned? ∧
      (w.servers Cluster.leader).leaderState = l.getLast? := by
  induction ho with
  | init =>
      exact ⟨rfl, rfl⟩
  | @step w w' c l hobs hg hstep ih =>
      rcases ih with ⟨hl, hlast⟩
      have hr := hobs.reachable
      rcases step_spec hstep with ⟨⟨now, action⟩, rest, hs⟩
      -- A step elsewhere neither writes a line at the leader nor assigns a value.
      have hother : newLines C w ⟨now, action⟩ Cluster.leader = [] →
          leaderStates C w c = [] →
          (w'.servers Cluster.leader).leaderState = (w.servers Cluster.leader).leaderState →
          l ++ leaderStates C w c = (w'.traces Cluster.leader).filterMap Record.assigned? ∧
            (w'.servers Cluster.leader).leaderState = (l ++ leaderStates C w c).getLast? := by
        intro hlines hstates hserver
        rw [hs.traces, hlines, hstates, hserver, List.append_nil, List.append_nil]
        exact ⟨hl, hlast⟩
      cases action with
      | server i task =>
          by_cases hi : i = Cluster.leader
          · subst hi
            have hstates : leaderStates C w c =
                (w.servers Cluster.leader).assignedStates C Cluster.leader now task := by
              simp [leaderStates, hs.pop]
            have hmode : task ≠ .doSyncPropose := by
              rintro rfl
              cases (ofMode hr _ (mem_of_pop hs.pop)).symm.trans ha
            have hserver : w'.servers Cluster.leader =
                (Server.run C Cluster.leader now task (w.servers Cluster.leader)).server := by
              simp [hs.servers, serversAfter]
            have hlines : newLines C w ⟨now, .server Cluster.leader task⟩ Cluster.leader =
                Server.newRecords C Cluster.leader now task (w.servers Cluster.leader) := by
              simp [newLines]
            constructor
            · rw [hs.traces, List.filterMap_append, hlines, ← assignedStates_eq ha hmode, hstates, hl]
            · rw [hserver, Server.run_leaderState, hstates, hlast, List.getLast?_append]
          · refine hother (if_neg hi) ?_ ?_
            · simp [leaderStates, hs.pop, hi]
            · simp [hs.servers, serversAfter, Function.update_of_ne (Ne.symm hi)]
      | clientStart k =>
          exact hother rfl (by simp [leaderStates, hs.pop]) (by simp [hs.servers, serversAfter])
      | sendRequest k =>
          exact hother rfl (by simp [leaderStates, hs.pop]) (by simp [hs.servers, serversAfter])
      | transit packet hop =>
          exact hother rfl (by simp [leaderStates, hs.pop]) (by simp [hs.servers, serversAfter])

/-- One value for the start, and then one for every PROPOSAL. -/
theorem assigned_shape (ha : C.async = true) (hr : Reachable C G w) :
    (w.traces Cluster.leader).filterMap Record.assigned? =
      (if w.Begun then [.waitingRequest] else []) ++
        (w.traces Cluster.leader).proposed.map (fun _ => .proposed) := by
  refine Transition.Reachable.invariant
    (P := fun w => (w.traces Cluster.leader).filterMap Record.assigned? =
      (if w.Begun then [.waitingRequest] else []) ++
        (w.traces Cluster.leader).proposed.map (fun _ => .proposed)) rfl ?_ hr
  intro w c w' hr hw hg hstep
  rcases step_spec hstep with ⟨⟨now, action⟩, rest, hs⟩
  have hadded : (w'.traces Cluster.leader).proposed = (w.traces Cluster.leader).proposed ++
      Trace.proposed (newLines C w ⟨now, action⟩ Cluster.leader) := by
    rw [hs.traces]
    exact List.filterMap_append
  by_cases hstart : action = .server Cluster.leader .startProposerThread
  · subst hstart
    -- The proposer starts once, and with an empty log of proposals.
    have hlead : Cluster.leader < C.numNodes :=
      ((booted hr).due _ (mem_of_pop hs.pop)).lt
    rcases hs.calls_run (g := Task.isPollLoop) with ⟨l, hperm, -⟩
    have hfresh : ¬ w.Begun := by
      rcases ((phase ha hlead hr).perm hperm).of_popped with ⟨-, -, -, ⟨-, hno⟩ | hpoll⟩
      · exact hno
      · cases hpoll
    have hproposed : (w.traces Cluster.leader).proposed = [] := by
      by_contra hne
      exact hfresh ((asleep ha hr).proposed hne)
    have hlines : newLines C w ⟨now, .server Cluster.leader .startProposerThread⟩ Cluster.leader =
        .proposerStarted :: (w.servers Cluster.leader).asyncProposeRecords C Cluster.leader now := by
      simp [newLines, Server.newRecords, ha]
    have hrest : .proposerStarted ∉
        (w.servers Cluster.leader).asyncProposeRecords C Cluster.leader now := by
      intro hmem
      rcases mem_asyncProposeRecords hmem with h | ⟨p, h⟩ <;> cases h
    have hbegun : w'.Begun := by
      rw [World.Begun, hs.traces, hlines]
      exact List.mem_append_right _ List.mem_cons_self
    rw [hproposed, if_neg hfresh] at hw
    calc (w'.traces Cluster.leader).filterMap Record.assigned?
        = (newLines C w ⟨now, .server Cluster.leader .startProposerThread⟩
            Cluster.leader).filterMap Record.assigned? := by
          rw [hs.traces, List.filterMap_append, hw]
          rfl
      _ = .waitingRequest :: (Trace.proposed ((w.servers Cluster.leader).asyncProposeRecords C
            Cluster.leader now)).map (fun _ => .proposed) := by
          rw [hlines, ← filterMap_assigned hrest]
          rfl
      _ = _ := by
          rw [if_pos hbegun, hadded, hproposed, hlines]
          rfl
  · -- Any other step adds the values of its PROPOSALs.
    have hnone : .proposerStarted ∉ newLines C w ⟨now, action⟩ Cluster.leader := by
      intro hmem
      cases action with
      | server i task =>
          by_cases hi : i = Cluster.leader
          · subst hi
            have htask : task = .startProposerThread :=
              mem_newRecords_started.1 (by simpa [newLines] using hmem)
            exact hstart (by rw [htask])
          · simp [newLines, hi] at hmem
      | _ =>
          cases hmem
    have hbegun : w'.Begun ↔ w.Begun := by
      rw [World.Begun, hs.traces, List.mem_append]
      exact or_iff_left hnone
    simp only [hbegun]
    calc (w'.traces Cluster.leader).filterMap Record.assigned?
        = (w.traces Cluster.leader).filterMap Record.assigned? ++
            (Trace.proposed (newLines C w ⟨now, action⟩ Cluster.leader)).map
              (fun _ => .proposed) := by
          rw [hs.traces, List.filterMap_append, filterMap_assigned hnone]
      _ = _ := by
          rw [hw, hadded, List.map_append, List.append_assoc]

/-- The variable stands at PROPOSED from the first PROPOSAL on. -/
theorem leaderState_eq (ha : C.async = true) (hr : Reachable C G w) :
    (w.servers Cluster.leader).leaderState =
      if (w.traces Cluster.leader).proposed ≠ [] then some .proposed
      else if w.Begun then some .waitingRequest else none := by
  rcases hr.observed (leaderStates C) with ⟨l, ho⟩
  rcases leaderStates_eq ha ho with ⟨hl, hlast⟩
  rw [hlast, hl, assigned_shape ha hr, List.getLast?_append, List.getLast?_map]
  cases hp : (w.traces Cluster.leader).proposed.getLast? with
  | none =>
      have hnil := List.getLast?_eq_none_iff.1 hp
      by_cases hb : w.Begun <;> simp [hnil, hb]
  | some f =>
      have hne : (w.traces Cluster.leader).proposed ≠ [] := by
        intro hnil
        rw [hnil] at hp
        cases hp
      simp [hne]

/-- The values of a run are a path as long as nothing has been proposed: the first PROPOSAL takes the
variable from WAITING_REQUEST to PROPOSED. -/
theorem isPath_iff (ha : C.async = true) (ho : Observed (program C) G (leaderStates C) w l) :
    LeaderState.IsPath l ↔ (w.traces Cluster.leader).proposed = [] := by
  have hr := ho.reachable
  have hl := (leaderStates_eq ha ho).1
  rw [assigned_shape ha hr] at hl
  cases hp : (w.traces Cluster.leader).proposed with
  | nil =>
      rw [hp] at hl
      subst hl
      by_cases hb : w.Begun <;> simp [hb, LeaderState.IsPath]
  | cons f fs =>
      have hb : w.Begun := (asleep ha hr).proposed (by simp [hp])
      rw [hp, if_pos hb] at hl
      subst hl
      simp [LeaderState.IsPath, LeaderState.next]

/-- What the variable should say about the data of the leader. -/
structure LeaderMatches (C : Cluster) (s : Server) : Prop where
  waiting : s.leaderState = some .waitingRequest ↔ s.outstanding = []
  proposed : s.leaderState = some .proposed ↔
    ∃ p, s.outstanding = [p] ∧ (∃ f ∈ s.trace.proposed, f.key = p.key) ∧
      p.numAck ≤ C.numNodes / 2
  decided : ∀ p ∈ s.outstanding, p.decisionTime ≠ 0 →
    s.leaderState = some .accepted ∨ s.leaderState = some .decising ∨ s.leaderState = some .decided

theorem leaderMatches_iff (ha : C.async = true) (hr : Reachable C G w) (hb : w.Begun) :
    LeaderMatches C (w.servers Cluster.leader) ↔
      (w.traces Cluster.leader).proposed = [] ∨
        ∃ p, (w.servers Cluster.leader).outstanding = [p] ∧ p.numAck ≤ C.numNodes / 2 ∧
          p.decisionTime = 0 := by
  have hstate := leaderState_eq ha hr
  have horigin : ∀ p ∈ (w.servers Cluster.leader).outstanding,
      ∃ f ∈ (w.traces Cluster.leader).proposed, f.key = p.key := by
    intro p hp
    rcases AList.mem_values.1 hp with ⟨x, hl⟩
    rcases ((ledger hr _).outstanding x p hl).origin with ⟨f, hf, hkey, -⟩
    exact ⟨f, hf, hkey⟩
  by_cases hp : (w.traces Cluster.leader).proposed = []
  · have hnil : (w.servers Cluster.leader).outstanding = [] := by
      refine List.eq_nil_iff_forall_not_mem.2 ?_
      intro p hmem
      rcases horigin p hmem with ⟨f, hf, -⟩
      rw [hp] at hf
      cases hf
    rw [if_neg (by simp [hp]), if_pos hb] at hstate
    refine iff_of_true ⟨?_, ?_, ?_⟩ (.inl hp)
    · exact iff_of_true hstate hnil
    · rw [hstate, hnil]
      simp
    · rw [hnil]
      intro p hmem
      cases hmem
  · rw [if_pos hp] at hstate
    constructor
    · intro h
      rcases h.proposed.1 hstate with ⟨p, hone, -, hfew⟩
      refine .inr ⟨p, hone, hfew, ?_⟩
      by_contra hz
      have hlate := h.decided p (by simp [hone]) hz
      rw [hstate] at hlate
      simp at hlate
    · rintro (hnil | ⟨p, hone, hfew, hz⟩)
      · exact absurd hnil hp
      · refine ⟨?_, ?_, ?_⟩
        · rw [hstate, hone]
          simp
        · refine iff_of_true hstate ⟨p, hone, horigin p (by simp [hone]), hfew⟩
        · intro q hq hnz
          rw [hone] at hq
          obtain rfl := List.mem_singleton.1 hq
          exact absurd hz hnz

/-- In a run the variable follows the diagram, and matches the data, as long as the leader has
proposed nothing; the data alone it matches also while a proposal waits for its first majority. -/
theorem leader_refines_iff (ha : C.async = true)
    (ho : Observed (program C) G (leaderStates C) w l) :
    ((LeaderState.IsPath l ∧ (w.Begun → LeaderMatches C (w.servers Cluster.leader))) ↔
        (w.traces Cluster.leader).proposed = []) ∧
      (w.Begun → (LeaderMatches C (w.servers Cluster.leader) ↔
        (w.traces Cluster.leader).proposed = [] ∨
          ∃ p, (w.servers Cluster.leader).outstanding = [p] ∧ p.numAck ≤ C.numNodes / 2 ∧
            p.decisionTime = 0)) := by
  have hr := ho.reachable
  refine ⟨?_, leaderMatches_iff ha hr⟩
  constructor
  · rintro ⟨hpath, -⟩
    exact (isPath_iff ha ho).1 hpath
  · intro hnone
    refine ⟨(isPath_iff ha ho).2 hnone, ?_⟩
    intro hb
    exact (leaderMatches_iff ha hr hb).2 (.inl hnone)

/-- Before the first proposal all is well, and while it waits for votes the data still match. -/
theorem leader_refines_two_servers :
    ∃ w l, Observed (program (.oneClient 2 (by decide) true 0 10 9000 4 5 0)) anyNetwork
        (leaderStates (.oneClient 2 (by decide) true 0 10 9000 4 5 0)) w l ∧ w.Begun ∧
      (w.servers Cluster.leader).waitingProposals.length = 1 ∧ LeaderState.IsPath l ∧
      LeaderMatches (.oneClient 2 (by decide) true 0 10 9000 4 5 0) (w.servers Cluster.leader) := by
  have hrun := exists_reachable_of_runInputs
    (S := program (.oneClient 2 (by decide) true 0 10 9000 4 5 0)) (G := anyNetwork)
    (List.replicate 12 ({} : Choice))
    (fun w => w.Begun ∧ (w.servers Cluster.leader).waitingProposals.length = 1 ∧
      (w.traces Cluster.leader).proposed = []) (by decide +kernel)
  rcases hrun with ⟨w, hr, htest⟩
  rcases of_decide_eq_true htest with ⟨hb, hwaiting, hnone⟩
  rcases hr.observed (leaderStates (.oneClient 2 (by decide) true 0 10 9000 4 5 0)) with ⟨l, ho⟩
  have hboth := (leader_refines_iff rfl ho).1.2 hnone
  exact ⟨w, l, ho, hb, hwaiting, hboth.1, hboth.2 hb⟩

/-- The leader has decided its only proposal: the variable went from WAITING_REQUEST to PROPOSED,
and there it stays. -/
theorem leader_stays_proposed :
    ∃ w l, Observed (program (.oneClient 2 (by decide) true 0 10 9000 4 5 0)) anyNetwork
        (leaderStates (.oneClient 2 (by decide) true 0 10 9000 4 5 0)) w l ∧ w.Begun ∧
      l = [.waitingRequest, .proposed] ∧
      (w.servers Cluster.leader).leaderState = some .proposed ∧
      (w.servers Cluster.leader).outstanding = [] ∧ ¬ LeaderState.IsPath l ∧
      ¬ LeaderMatches (.oneClient 2 (by decide) true 0 10 9000 4 5 0)
        (w.servers Cluster.leader) := by
  have hrun := exists_reachable_of_runInputs
    (S := program (.oneClient 2 (by decide) true 0 10 9000 4 5 0)) (G := anyNetwork)
    (List.replicate 24 ({} : Choice))
    (fun w => w.Begun ∧
      (w.traces Cluster.leader).filterMap Record.assigned? = [.waitingRequest, .proposed] ∧
      (w.servers Cluster.leader).leaderState = some .proposed ∧
      (w.servers Cluster.leader).outstanding.length = 0) (by decide +kernel)
  rcases hrun with ⟨w, hr, htest⟩
  rcases of_decide_eq_true htest with ⟨hb, hlines, hstate, hempty⟩
  rcases hr.observed (leaderStates (.oneClient 2 (by decide) true 0 10 9000 4 5 0)) with ⟨l, ho⟩
  have hl : l = [.waitingRequest, .proposed] := (leaderStates_eq rfl ho).1.trans hlines
  have hnil := List.length_eq_zero_iff.1 hempty
  refine ⟨w, l, ho, hb, hl, hstate, hnil, ?_, ?_⟩
  · rw [hl]
    simp [LeaderState.IsPath, LeaderState.next]
  · intro hmatches
    have hwaiting := hmatches.waiting.2 hnil
    rw [hstate] at hwaiting
    cases hwaiting

/-! ## The timer -/

/-- What a timeout of proposal `x` at the time `now` should do. -/
structure World.Retries (C : Cluster) (w : World) (now : Time) (x : ℕ) : Prop where
  /-- An undecided proposal is broadcast again, and nothing else happens. -/
  undecided : ∀ p, (w.servers Cluster.leader).proposals.lookup x = some p →
    (∃ f, f.key = p.key ∧
      ((w.servers Cluster.leader).proposeTimerExpired C Cluster.leader now x).server.trace.proposed =
        (w.traces Cluster.leader).proposed ++ [f] ∧
      broadcast C Cluster.leader now f ⊆
        ((w.servers Cluster.leader).proposeTimerExpired C Cluster.leader now x).events) ∧
    ((w.servers Cluster.leader).proposeTimerExpired C Cluster.leader now x).server.waitingProposals =
      (w.servers Cluster.leader).waitingProposals ∧
    (∃ q, ((w.servers Cluster.leader).proposeTimerExpired C Cluster.leader now
      x).server.outstanding = [q]) ∧
    ∀ e ∈ ((w.servers Cluster.leader).proposeTimerExpired C Cluster.leader now x).events,
      e.action ≠ .server Cluster.leader .doAsyncPropose
  decided : (w.servers Cluster.leader).proposals.lookup x = none →
    (w.servers Cluster.leader).proposeTimerExpired C Cluster.leader now x =
      ⟨w.servers Cluster.leader, []⟩

/-- A timeout of a proposal that the leader holds is a call of `DoAsyncPropose`. -/
theorem proposeTimerExpired_eq (ha : C.async = true) (hr : Reachable C G w) (now : Time) {x : ℕ}
    {p : Proposal} (hl : (w.servers Cluster.leader).proposals.lookup x = some p) :
    (w.servers Cluster.leader).proposeTimerExpired C Cluster.leader now x =
      (w.servers Cluster.leader).doAsyncPropose C Cluster.leader now := by
  have hproposed : (w.traces Cluster.leader).proposed ≠ [] := by
    rcases ((ledger hr _).outstanding x p hl).origin with ⟨f, hf, -⟩
    exact List.ne_nil_of_mem hf
  have hstate := leaderState_eq ha hr
  rw [if_pos hproposed] at hstate
  simp [Server.proposeTimerExpired, hl, hstate]

/-- A timeout does what it should just when the proposal has been decided: for one that the leader
still holds it proposes the next request, polls, or, once stopped, does nothing. -/
theorem retries_iff (ha : C.async = true) (hr : Reachable C G w) (now : Time) (x : ℕ) :
    w.Retries C now x ↔ (w.servers Cluster.leader).proposals.lookup x = none := by
  constructor
  · intro h
    by_contra hne
    rcases Option.ne_none_iff_exists'.1 hne with ⟨p, hl⟩
    rcases h.undecided p hl with ⟨⟨f, -, htrace, -⟩, hwaiting, -, -⟩
    rw [proposeTimerExpired_eq ha hr now hl] at htrace hwaiting
    have hnone : ∀ l : List PaxosFrame, l ≠ l ++ [f] := by
      intro l heq
      simpa using congrArg List.length heq
    have hsame : ((w.servers Cluster.leader).record (.asyncPropose now)).trace.proposed =
        (w.traces Cluster.leader).proposed := by
      rw [Server.record, Trace.proposed, List.filterMap_append]
      exact List.append_nil _
    rcases (w.servers Cluster.leader).doAsyncPropose_cases C Cluster.leader now with
      ⟨-, heq⟩ | ⟨-, -, heq⟩ | ⟨-, q, rest, hq, heq⟩
    · rw [heq] at htrace
      exact hnone _ (hsame.symm.trans htrace)
    · rw [heq] at htrace
      exact hnone _ (hsame.symm.trans htrace)
    · -- The queue has become shorter.
      rw [heq, hq] at hwaiting
      have hlen := congrArg List.length hwaiting
      simp [Server.record, Server.putProposal] at hlen
  · intro hnone
    constructor
    · intro p hl
      cases hl.symm.trans hnone
    · intro _
      simp [Server.proposeTimerExpired, hnone]

/-- Nothing comes of a late timeout of a proposal that has been decided. -/
theorem retries_two_servers :
    ∃ w, Reachable (.oneClient 2 (by decide) true 0 10 9000 4 5 0) anyNetwork w ∧
      (w.traces Cluster.leader).decided.map Proposal.proposalId = [2] ∧
      w.Retries (.oneClient 2 (by decide) true 0 10 9000 4 5 0) 5000 2 := by
  have hrun := exists_reachable_of_runInputs
    (S := program (.oneClient 2 (by decide) true 0 10 9000 4 5 0)) (G := anyNetwork)
    (List.replicate 24 ({} : Choice))
    (fun w => (w.traces Cluster.leader).decided.map Proposal.proposalId = [2] ∧
      ((w.servers Cluster.leader).proposals.lookup 2).isNone = true) (by decide +kernel)
  rcases hrun with ⟨w, hr, htest⟩
  rcases of_decide_eq_true htest with ⟨hdecided, hnone⟩
  exact ⟨w, hr, hdecided, (retries_iff rfl hr 5000 2).2 (Option.isNone_iff_eq_none.1 hnone)⟩

/-- Proposal 2 has got no vote and times out: request 12 is proposed beside it. -/
theorem timeout_proposes_next :
    ∃ w, Reachable (.oneClient 2 (by decide) true 0 10 9000 14 5 0) anyNetwork w ∧
      (w.servers Cluster.leader).outstanding.map Proposal.proposalId = [2] ∧
      (((w.servers Cluster.leader).proposeTimerExpired
        (.oneClient 2 (by decide) true 0 10 9000 14 5 0) Cluster.leader 5000
          2).server.trace.proposed.map PaxosFrame.proposalId = [2, 12]) ∧
      ((w.servers Cluster.leader).proposeTimerExpired
        (.oneClient 2 (by decide) true 0 10 9000 14 5 0) Cluster.leader 5000
          2).server.outstanding.length = 2 ∧
      ¬ w.Retries (.oneClient 2 (by decide) true 0 10 9000 14 5 0) 5000 2 := by
  have hrun := exists_reachable_of_runInputs
    (S := program (.oneClient 2 (by decide) true 0 10 9000 14 5 0)) (G := anyNetwork)
    (List.replicate 18 ({} : Choice) ++ [{ fate := .lose }])
    (fun w => (w.servers Cluster.leader).outstanding.map Proposal.proposalId = [2] ∧
      ((w.servers Cluster.leader).proposals.lookup 2).isSome = true ∧
      (((w.servers Cluster.leader).proposeTimerExpired
        (.oneClient 2 (by decide) true 0 10 9000 14 5 0) Cluster.leader 5000
          2).server.trace.proposed.map PaxosFrame.proposalId = [2, 12]) ∧
      ((w.servers Cluster.leader).proposeTimerExpired
        (.oneClient 2 (by decide) true 0 10 9000 14 5 0) Cluster.leader 5000
          2).server.outstanding.length = 2) (by decide +kernel)
  rcases hrun with ⟨w, hr, htest⟩
  rcases of_decide_eq_true htest with ⟨hheld, hsome, hframes, htwo⟩
  refine ⟨w, hr, hheld, hframes, htwo, ?_⟩
  intro hretries
  rcases Option.isSome_iff_exists.1 hsome with ⟨p, hl⟩
  rcases (hretries.undecided p hl).2.2.1 with ⟨q, hq⟩
  rw [hq] at htwo
  cases htwo

end Runs

end SyncPaxos
