import SyncPaxos.Run.Turn

/-!
# Logs — what a server keeps of what it handled

Three facts about the containers that are never searched by the protocol itself:

* `kept`: every PROPOSAL handled has an entry in `m_acceptedProposals`, and the decisions learned
  from others are exactly the DECISIONs handled, in this order;
* `stopping_le_one`: a server stops at most once;
* `decidedLog_perm`: so what it decided is in its decided queue or, sorted, in its file.
-/

namespace SyncPaxos

open DiscreteEvent

/-! ## Handled frames -/

structure Kept (i : ℕ) (s : Server) : Prop where
  accepted : ∀ g ∈ s.trace.handledProposals,
    ∃ p, s.acceptedProposals.lookup g.proposalId = some p
  learned : s.trace.decided.filter (fun p => p.nodeId ≠ i) =
    s.trace.handledDecisions.map learnedProposal

namespace Kept

variable {i : ℕ} {s s' : Server}

theorem init (i : ℕ) : Kept i {} := by
  refine ⟨?_, rfl⟩
  intro g hg
  cases hg

/-- Nothing else of a server matters. -/
theorem of_eq (h : Kept i s) (hprop : s'.trace.handledProposals = s.trace.handledProposals)
    (hacc : s'.acceptedProposals = s.acceptedProposals)
    (hdec : s'.trace.decided = s.trace.decided)
    (hlearn : s'.trace.handledDecisions = s.trace.handledDecisions) : Kept i s' := by
  constructor
  · rw [hprop, hacc]
    exact h.accepted
  · rw [hdec, hlearn]
    exact h.learned

/-- A PROPOSAL is stored. -/
theorem storeAccepted (h : Kept i s) (now : Time) (f : PaxosFrame) :
    Kept i (s.storeAccepted i now f) := by
  have hprop : (s.storeAccepted i now f).trace.handledProposals =
      s.trace.handledProposals ++ [f] := by
    simp [Server.storeAccepted, Server.record]
  have hlearned := h.learned
  constructor
  · intro g hg
    rw [hprop] at hg
    -- A new entry under the same id replaces the old one: some entry is there in both cases.
    by_cases hid : g.proposalId = f.proposalId
    · exact ⟨_, by rw [hid, Server.storeAccepted, AList.lookup_insert]⟩
    · rcases List.mem_append.1 hg with hg | hg
      · rcases h.accepted g hg with ⟨p, hp⟩
        exact ⟨p, by rw [Server.storeAccepted, AList.lookup_insert_ne hid]; exact hp⟩
      · exact absurd (congrArg PaxosFrame.proposalId (List.mem_singleton.1 hg)) hid
  · simpa [Server.storeAccepted, Server.record, List.filterMap_cons] using hlearned

/-- A proposal of the server's own is decided. -/
theorem pushOwn (h : Kept i s) {p : Proposal} (hp : p.nodeId = i) : Kept i (s.pushDecided p) := by
  have hlearned := h.learned
  constructor
  · intro g hg
    exact h.accepted g (by simpa [Server.pushDecided] using hg)
  · simpa [Server.pushDecided, List.filterMap_cons, hp] using hlearned

/-- A DECISION of another server is handled. -/
theorem learn (h : Kept i s) {f : PaxosFrame} (hf : f.proposerId ≠ i) :
    Kept i ((s.record (.handledDecision f)).pushDecided (learnedProposal f)) := by
  have hlearned := h.learned
  have hnode : (learnedProposal f).nodeId ≠ i := hf
  constructor
  · intro g hg
    exact h.accepted g (by simpa [Server.pushDecided, Server.record] using hg)
  · simpa [Server.pushDecided, Server.record, List.filterMap_cons, hnode] using hlearned

end Kept

section Runs

variable {C : Cluster} {G : World → Choice → Prop} {w w' : World} {c : Choice}

theorem kept (hr : Reachable C G w) (i : ℕ) : Kept i (w.servers i) := by
  refine change_invariant (Q := fun _ => True) (P := Kept) (fun _ _ _ _ _ _ => trivial) Kept.init
    ?_ hr trivial i
  intro w₀ c w i now task s s' hturn _ _ hled hs hc
  cases hc with
  | flags =>
      exact hs.of_eq rfl rfl rfl rfl
  | @note _ _ r hr =>
      cases r <;> simp [Record.IsNote] at hr <;>
        exact hs.of_eq (by simp [Server.record]) rfl (by simp [Server.record])
          (by simp [Server.record])
  | stop =>
      exact hs.of_eq rfl rfl rfl rfl
  | @accept _ f =>
      exact hs.storeAccepted now f
  | @decide _ f found _ hl =>
      have hrec : Kept i ((s.record (.handledAccept f)).record
          (.decision (decisionFrame now f))) :=
        hs.of_eq (by simp [Server.record]) rfl (by simp [Server.record]) (by simp [Server.record])
      have hpush := hrec.pushOwn (p := found.elect now) (hled.outstanding _ _ hl).node
      exact hpush.of_eq rfl rfl rfl rfl
  | @learn _ f =>
      have hat : DecisionAt C w.traces i f := hturn.justified
      exact hs.learn hat.ne.symm
  | @confirm _ f found _ hl =>
      have hrec : Kept i (s.record (.handledDecisionAck f)) :=
        hs.of_eq (by simp [Server.record]) rfl (by simp [Server.record]) (by simp [Server.record])
      have hpush := hrec.pushOwn (p := found.confirm now) (hled.outstanding _ _ hl).node
      exact hpush.of_eq rfl rfl rfl rfl
  | _ =>
      refine hs.of_eq ?_ rfl ?_ ?_ <;>
        simp [Server.record, Server.enqueue, Server.propose, Server.putProposal]

/-! ## Stopping -/

/-- The call that stops a server. -/
def Task.stopping? : Task → Option Unit
  | .stopApplication => some ()
  | _ => none

/-- No step schedules a stop. -/
theorem emitted_stopping (C : Cluster) (c : Choice) (w : World) (e : Event) (i : ℕ) :
    (emitted C c w e).filterMap (fun x => x.action.atServer i Task.stopping?) = [] := by
  refine List.filterMap_eq_nil_iff.2 ?_
  intro x hx
  refine Option.not_isSome_iff_eq_none.1 ?_
  intro hsome
  rcases eq_server_of_atServer hsome with ⟨t, ht, hstop⟩
  -- A stop would be one of the calls of `newTasks` or of an arrival, and is neither.
  rcases mem_emitted_server hx ht with ⟨task, -, hnew⟩ | ⟨packet, hop, -, -, harr⟩
  · rcases Server.mem_newTasks C i e.ts hnew with ⟨t', ht', hcases⟩
    rw [ht] at ht'
    cases ht'
    rcases hcases with rfl | rfl | rfl | rfl | rfl | ⟨f, rfl⟩ <;> cases hstop
  · rcases mem_arrivalEvents harr with ⟨r, -, -, -, rfl⟩ | ⟨f, task, -, -, hrecv, rfl⟩
    · cases ht
      cases hstop
    · cases ht
      cases t <;> simp at hrecv <;> cases hstop

theorem StepSpec.stopping {e : Event} {rest : List Event} (hs : StepSpec C c w w' e rest) (i : ℕ) :
    (w.pending i Task.stopping?).Perm
      ((e.action.atServer i Task.stopping?).toList ++ w'.pending i Task.stopping?) := by
  have hperm := (pop_perm hs.pop).filterMap (fun x => x.action.atServer i Task.stopping?)
  have hrest : w'.pending i Task.stopping? =
      rest.filterMap (fun x => x.action.atServer i Task.stopping?) := by
    rw [World.pending, hs.events, List.filterMap_append, emitted_stopping, List.append_nil]
  rw [hrest]
  refine hperm.trans ?_
  rw [List.filterMap_cons]
  cases e.action.atServer i Task.stopping? <;> exact List.Perm.refl _

/-- A server of the cluster is to stop once, unless there is no stop time. -/
theorem init_stopping (i : ℕ) :
    (World.init C).pending i Task.stopping? =
      if i < C.numNodes ∧ C.stopTime ≠ 0 then [()] else [] := by
  have happ : ∀ a : App, (a.initEvents C).filterMap (fun x => x.action.atServer i Task.stopping?) =
      if a = .server i then if C.stopTime ≠ 0 then [()] else [] else [] := by
    intro a
    cases a with
    | client k =>
        simp [App.initEvents, Callback.atServer]
    | server j =>
        by_cases hij : j = i <;> by_cases hz : C.stopTime = 0 <;>
          simp [App.initEvents, Callback.atServer, Task.stopping?, hij, hz]
  calc (World.init C).pending i Task.stopping?
      = (World.init C).events.filterMap (fun x => x.action.atServer i Task.stopping?) := rfl
    _ = _ := init_filterMap (fun a _ => happ a)
    _ = _ := by simp only [server_mem_initOrder, ite_and]

theorem stopping_le_one (hr : Reachable C G w) (i : ℕ) :
    (w.pending i Task.stopping?).length ≤ 1 := by
  refine Transition.Reachable.invariant (P := fun w => (w.pending i Task.stopping?).length ≤ 1)
    ?_ ?_ hr
  · change ((World.init C).pending i Task.stopping?).length ≤ 1
    rw [init_stopping]
    split <;> simp
  intro w c w' _ hle _ hstep
  rcases step_spec hstep with ⟨e, rest, hs⟩
  have hlen := (hs.stopping i).length_eq
  rw [List.length_append] at hlen
  omega

/-! ## The decided log -/

/-- A call other than the stop leaves the file alone and keeps all it decides. -/
theorem changes_decidedLog {i : ℕ} {now : Time} {task : Task} {s s' : Server}
    (hc : Server.Changes C i now task s s') (htask : task ≠ .stopApplication) :
    s'.decisionLog = s.decisionLog ∧
      (s.decidedLog.Perm s.trace.decided → s'.decidedLog.Perm s'.trace.decided) := by
  induction hc with
  | refl =>
      exact ⟨rfl, id⟩
  | @tail s₁ s₂ _ hstep ih =>
      -- Only a push on the decided queue is seen.
      have hsame : s₂.decisionLog = s₁.decisionLog →
          s₂.decidedProposalQueue = s₁.decidedProposalQueue →
          s₂.trace.decided = s₁.trace.decided →
          s₂.decisionLog = s.decisionLog ∧
            (s.decidedLog.Perm s.trace.decided → s₂.decidedLog.Perm s₂.trace.decided) := by
        intro hlog hqueue hdec
        refine ⟨hlog.trans ih.1, ?_⟩
        intro h
        rw [Server.decidedLog, hlog, hqueue, hdec]
        exact ih.2 h
      have hpush : ∀ p, s₂.decisionLog = s₁.decisionLog →
          s₂.decidedProposalQueue = s₁.decidedProposalQueue ++ [p] →
          s₂.trace.decided = s₁.trace.decided ++ [p] →
          s₂.decisionLog = s.decisionLog ∧
            (s.decidedLog.Perm s.trace.decided → s₂.decidedLog.Perm s₂.trace.decided) := by
        intro p hlog hqueue hdec
        refine ⟨hlog.trans ih.1, ?_⟩
        intro h
        rw [Server.decidedLog, hlog, hqueue, hdec, ← List.append_assoc]
        exact (ih.2 h).append_right [p]
      cases hstep with
      | flags =>
          exact hsame rfl rfl rfl
      | @note _ _ r hr =>
          cases r <;> simp [Record.IsNote] at hr <;>
            exact hsame rfl rfl (by simp [Server.record])
      | stop =>
          exact absurd rfl htask
      | decide =>
          refine hpush _ rfl rfl ?_
          simp [Server.record, Server.pushDecided, Server.eraseProposal, List.filterMap_cons]
      | learn =>
          refine hpush _ rfl rfl ?_
          simp [Server.record, Server.pushDecided, List.filterMap_cons]
      | confirm =>
          refine hpush _ rfl rfl ?_
          simp [Server.record, Server.pushDecided, Server.eraseProposal, List.filterMap_cons]
      | _ =>
          refine hsame rfl rfl ?_
          simp [Server.record, Server.enqueue, Server.propose, Server.storeAccepted,
            Server.putProposal]

theorem logs (hr : Reachable C G w) (i : ℕ) :
    (w.pending i Task.stopping? ≠ [] → (w.servers i).decisionLog = []) ∧
      (w.servers i).decidedLog.Perm (w.traces i).decided := by
  refine Transition.Reachable.invariant
    (P := fun w => (w.pending i Task.stopping? ≠ [] → (w.servers i).decisionLog = []) ∧
      (w.servers i).decidedLog.Perm (w.traces i).decided) ?_ ?_ hr
  · exact ⟨fun _ => rfl, List.Perm.refl _⟩
  · intro w c w' hr hw _ hstep
    rcases step_spec hstep with ⟨e, rest, hs⟩
    have hstop := hs.stopping i
    have hlen := hstop.length_eq
    have hone := stopping_le_one hr i
    rw [List.length_append] at hlen
    -- Stops are only taken off the list.
    have hpend : w'.pending i Task.stopping? ≠ [] → w.pending i Task.stopping? ≠ [] := by
      intro hne hnil
      rw [hnil, List.length_nil] at hlen
      exact hne (List.length_eq_zero_iff.1 (by omega))
    rcases e with ⟨now, action⟩
    have hquiet : w'.servers i = w.servers i →
        (w'.pending i Task.stopping? ≠ [] → (w'.servers i).decisionLog = []) ∧
          (w'.servers i).decidedLog.Perm (w'.traces i).decided := by
      intro heq
      rw [World.traces, heq]
      exact ⟨fun hne => hw.1 (hpend hne), hw.2⟩
    cases action with
    | server j task =>
        by_cases hij : i = j
        · subst hij
          have hserver : w'.servers i = (Server.run C i now task (w.servers i)).server := by
            simp [hs.servers, serversAfter]
          by_cases htask : task = .stopApplication
          · -- The stop that ran was the only one, so the file was empty.
            subst htask
            have hnil : w'.pending i Task.stopping? = [] := by
              refine List.length_eq_zero_iff.1 ?_
              simp [Callback.atServer, Task.stopping?] at hlen
              omega
            have hempty : (w.servers i).decisionLog = [] := by
              refine hw.1 (List.ne_nil_of_length_pos ?_)
              simp [Callback.atServer, Task.stopping?] at hlen
              omega
            refine ⟨fun hne => absurd hnil hne, ?_⟩
            rw [World.traces, hserver]
            have hold := hw.2
            rw [Server.decidedLog, hempty, List.nil_append] at hold
            simpa [Server.run, Server.stopApplication, Server.decidedLog, World.traces] using
              (List.perm_insertionSort _ _).trans hold
          · have hchanges : Server.Changes C i now task (w.servers i)
                (Server.run C i now task (w.servers i)).server := Server.run_changes task _
            have hc := changes_decidedLog hchanges htask
            rw [World.traces, hserver, hc.1]
            exact ⟨fun hne => hw.1 (hpend hne), hc.2 hw.2⟩
        · exact hquiet (by simp [hs.servers, serversAfter, Function.update_of_ne hij])
    | _ =>
        exact hquiet (by simp [hs.servers, serversAfter])

/-- All that a server decided, whether it has stopped or not. -/
theorem decidedLog_perm (hr : Reachable C G w) (i : ℕ) :
    (w.servers i).decidedLog.Perm (w.traces i).decided :=
  (logs hr i).2

/-- A server that is still to stop has all it decided in its decided queue. -/
theorem decidedLog_of_running (hr : Reachable C G w) {i : ℕ} {ts : Time}
    (hstop : (⟨ts, .server i .stopApplication⟩ : Event) ∈ w.events) :
    (w.servers i).decidedLog = (w.servers i).decidedProposalQueue := by
  have hpending : w.pending i Task.stopping? ≠ [] := by
    refine List.ne_nil_of_mem (a := ()) (List.mem_filterMap.2 ⟨_, hstop, ?_⟩)
    simp [Callback.atServer, Task.stopping?]
  rw [Server.decidedLog, (logs hr i).1 hpending, List.nil_append]

end Runs

end SyncPaxos
