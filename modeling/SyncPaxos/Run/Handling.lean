import SyncPaxos.Run.Channel

/-!
# Handling — from an arrival to a line of the record

A call that an arrival schedules has a fixed delay, so calls of one kind are run in the order in
which they were scheduled.  Three equations between lists follow:

* `receipts`: the Paxos frames handled, and then those that wait for their handler, are the ones
  that arrived;
* `answers`: the ACCEPTs sent, and then those to be sent, answer the PROPOSALs handled;
* `creations`: the requests queued, and then those to be queued, are among those that arrived.
-/

namespace SyncPaxos

open DiscreteEvent

/-- What a frame says but for its type and its acceptor. -/
def PaxosFrame.body (f : PaxosFrame) : PaxosFrame :=
  { f with messageType := 0, acceptorId := 0, acceptTime := 0 }

@[simp] theorem acceptFrame_body (i : ℕ) (now : Time) (f : PaxosFrame) :
    (acceptFrame i now f).body = f.body := rfl

variable {C : Cluster} {G : World → Choice → Prop} {w w' : World} {c : Choice}

/-! ## Receivers are ready -/

/-- Only a server of the cluster has a record. -/
theorem lt_of_mem_trace (hr : Reachable C G w) {i : ℕ} {r : Record} (h : r ∈ w.traces i) :
    i < C.numNodes := by
  by_contra hlt
  have hidle := (booted hr).idle i (not_lt.1 hlt)
  simp [World.traces, hidle] at h

theorem lt_of_mem_proposed (hr : Reachable C G w) {i : ℕ} {f : PaxosFrame}
    (h : f ∈ (w.traces i).proposed) : i < C.numNodes := by
  rcases List.mem_filterMap.1 h with ⟨r, hr', -⟩
  exact lt_of_mem_trace hr hr'

/-- A Paxos frame in flight goes back to a PROPOSAL, and it goes to a server of the cluster. -/
theorem frameAt_origin (hr : Reachable C G w) {a : ℕ} {f : PaxosFrame} {src : App}
    (h : FrameAt C w.traces a f src) :
    a < C.numNodes ∧ ∃ p, (w.traces p).proposed ≠ [] := by
  have hw := sound hr
  cases h with
  | proposal hf =>
      exact ⟨hf.lt, f.proposerId, List.ne_nil_of_mem hf.mem⟩
  | accept hf =>
      rcases hw.acceptSent hf.mem with ⟨g, hg, t, hgf⟩
      have hat := hw.handledProposal hg
      have hprop : f.proposerId = g.proposerId := by
        rw [hgf]
        rfl
      refine ⟨?_, g.proposerId, List.ne_nil_of_mem hat.mem⟩
      -- The ACCEPT goes to the proposer, which has proposed and so is in the cluster.
      rw [hf.eq, hprop]
      exact lt_of_mem_proposed hr hat.mem
  | decision hf =>
      rcases hw.decision_origin hf.mem with ⟨-, -, g, hg, -⟩
      exact ⟨hf.lt, f.proposerId, List.ne_nil_of_mem hg⟩
  | decisionAck hf =>
      rcases hf.from_ with ⟨d, hd, -, ha⟩
      have hat := hw.handledDecision hd
      rcases hw.decision_origin hat.mem with ⟨-, -, g, hg, -⟩
      rw [ha]
      exact ⟨lt_of_mem_proposed hr hg, d.proposerId, List.ne_nil_of_mem hg⟩

/-- A vote comes from another server. -/
theorem two_le_of_acceptAt (hr : Reachable C G w) {i : ℕ} {f : PaxosFrame}
    (h : AcceptAt w.traces i f) (hi : i < C.numNodes) : 2 ≤ C.numNodes := by
  rcases (sound hr).acceptAt_origin h with ⟨-, hne, hlt, -⟩
  omega

/-- A DECISION needs the vote of another server. -/
theorem two_le_of_decision (hr : Reachable C G w) {i : ℕ} {d : PaxosFrame}
    (hd : d ∈ (w.traces i).decisions) : 2 ≤ C.numNodes := by
  rcases (sound hr).records i _ (Trace.mem_decisions.1 hd) with ⟨f, hf, -⟩
  have hat := (sound hr).handledAccept hf
  exact two_le_of_acceptAt hr hat.1 (lt_of_mem_trace hr (Trace.mem_decisions.1 hd))

/-- A DECISION is acknowledged by another server. -/
theorem two_le_of_decisionAckAt (hr : Reachable C G w) {i : ℕ} {f : PaxosFrame}
    (h : DecisionAckAt w.traces i f) (hi : i < C.numNodes) : 2 ≤ C.numNodes := by
  rcases h.from_ with ⟨d, hd, -, hown⟩
  have hat := (sound hr).handledDecision hd
  have hne : f.proposerId ≠ d.proposerId := hat.ne
  have hlt : f.proposerId < C.numNodes := hat.lt
  omega

theorem recvSocket_of_frameAt (hr : Reachable C G w) {a : ℕ} {f : PaxosFrame} {src : App}
    (h : FrameAt C w.traces a f src) : (w.servers a).recvSocket = true := by
  rcases frameAt_origin hr h with ⟨ha, p, hp⟩
  exact recvSocket_of_proposed hr hp ha

/-- A Paxos frame in flight has a handler. -/
theorem receiveMessage_of_frameAt {h : ℕ → Trace} {a : ℕ} {f : PaxosFrame} {src : App}
    (hf : FrameAt C h a f src) (now : Time) :
    ∃ task, Server.receiveMessage a now f = some ⟨now, .server a task⟩ ∧
      task.received? = some f := by
  cases hf with
  | proposal hf =>
      exact ⟨_, Server.receiveMessage_proposal hf.type, rfl⟩
  | accept hf =>
      exact ⟨_, Server.receiveMessage_accept hf.type, rfl⟩
  | decision hf =>
      exact ⟨_, Server.receiveMessage_decision hf.type, rfl⟩
  | decisionAck hf =>
      exact ⟨_, Server.receiveMessage_decisionAck hf.type, rfl⟩

/-- A client calls no server. -/
theorem sendRequest_atServer {β : Type} (g : Task → Option β) (i k : ℕ) (now : Time) (value : ℕ)
    (cl : Client) :
    (cl.sendRequest C k now value).2.filterMap (fun x => x.action.atServer i g) = [] := by
  unfold Client.sendRequest
  split <;> rfl

/-! ## Receive handlers -/

/-- The handlers that a step makes pending are those of the frames that arrive in it. -/
theorem emitted_received (hr : Reachable C G w) {e : Event} {rest : List Event}
    (hs : StepSpec C c w w' e rest) (i : ℕ) :
    (emitted C c w e).filterMap (fun x => x.action.atServer i Task.received?) =
      (taken c e).filterMap (Packet.paxosTo? i) := by
  have hj := (sound hr).events e (mem_of_pop hs.pop)
  rcases e with ⟨now, action⟩
  cases action with
  | server k task =>
      simp only [emitted, taken, List.filterMap_nil]
      rw [run_atServer]
      exact newTasks_atServer_eq_nil (fun t ht => .inl ht)
  | clientStart k =>
      exact sendRequest_atServer _ i k now c.value _
  | sendRequest k =>
      exact sendRequest_atServer _ i k now c.value _
  | transit packet hop =>
      cases hf : c.fate with
      | arrive =>
          simp only [emitted, taken, hf]
          rcases packet with ⟨src, dst, payload, sentAt⟩
          cases payload with
          | request r =>
              have hnone : Packet.paxosTo? i ⟨src, dst, .request r, sentAt⟩ = none := by
                simp [Packet.paxosTo?, Packet.paxos?]
              simp only [arrivalEvents, Server.receiveRequest]
              split
              · split <;> simp [Callback.atServer, hnone]
              · simp [hnone]
          | paxos f =>
              -- The socket is open, and the frame has a handler.
              have hframe : FrameAt C w.traces dst f src := hj.2
              rcases receiveMessage_of_frameAt hframe now with ⟨task, hmsg, htask⟩
              simp only [arrivalEvents, recvSocket_of_frameAt hr hframe, if_true, hmsg,
                Option.toList_some]
              by_cases hi : dst = i
              · simp only [List.filterMap_cons, List.filterMap_nil, Callback.atServer, hi, if_true,
                  htask, Packet.paxosTo?, Packet.paxos?]
              · simp only [List.filterMap_cons, List.filterMap_nil, Callback.atServer, hi, if_false,
                  Packet.paxosTo?]
      | forward d =>
          simp [emitted, taken, hf, Callback.atServer]
      | duplicate d₁ d₂ =>
          simp [emitted, taken, hf, Callback.atServer]
      | lose =>
          simp [emitted, taken, hf]

theorem eq_server_of_atServer {β : Type} {g : Task → Option β} {i : ℕ} {a : Callback}
    (h : (a.atServer i g).isSome) : ∃ task, a = .server i task ∧ (g task).isSome := by
  cases a with
  | server j task =>
      by_cases hij : j = i
      · subst hij
        exact ⟨task, rfl, by simpa [Callback.atServer] using h⟩
      · simp [Callback.atServer, hij] at h
  | _ =>
      cases h

/-- A receive handler is due at once. -/
theorem emitted_received_ts {e x : Event} {i : ℕ} (hx : x ∈ emitted C c w e)
    (hsome : (x.action.atServer i Task.received?).isSome) : x.ts = e.ts := by
  rcases eq_server_of_atServer hsome with ⟨t, ht, hrecv⟩
  rcases mem_emitted_server hx ht with ⟨task, -, hnew⟩ | ⟨packet, hop, -, -, harr⟩
  · rcases Server.mem_newTasks C i e.ts hnew with ⟨t', ht', hcases⟩
    rw [ht] at ht'
    cases ht'
    -- No call schedules a receive handler.
    rcases hcases with rfl | rfl | rfl | rfl | rfl | ⟨f, rfl⟩ <;> cases hrecv
  · rcases mem_arrivalEvents harr with ⟨r, -, -, -, rfl⟩ | ⟨f, task, -, -, -, rfl⟩
    · cases ht
      cases hrecv
    · rfl

theorem init_atServer {β : Type} {g : Task → Option β} (hg₁ : g .startApplication = none)
    (hg₂ : g .stopApplication = none) (i : ℕ) :
    ∀ e ∈ (World.init C).events, e.action.atServer i g = none := by
  intro e he
  rcases mem_init_events he with ⟨k, -, rfl⟩ | ⟨j, -, rfl⟩ | ⟨j, -, rfl⟩
  · rfl
  · simp [Callback.atServer, hg₁]
  · simp [Callback.atServer, hg₂]

/-- A step that runs a call of a class moves it from the pending calls to the record; any other
step leaves both as they are. -/
theorem StepSpec.advance {β : Type} {g : Task → Option β} {p : Record → Option β} {d : ℕ} {i : ℕ}
    {e : Event} {rest : List Event} (hs : StepSpec C c w w' e rest)
    (hpipe : Pipeline (Callback.atServer i g) d w.now w.events)
    (hrec : ∀ now task s, (Server.newRecords C i now task s).filterMap p = (g task).toList) :
    (w'.traces i).filterMap p ++ rest.filterMap (fun x => x.action.atServer i g) =
      (w.traces i).filterMap p ++ w.pending i g := by
  rcases e with ⟨now, action⟩
  have hquiet : action.atServer i g = none → w'.traces i = w.traces i →
      (w'.traces i).filterMap p ++ rest.filterMap (fun x => x.action.atServer i g) =
        (w.traces i).filterMap p ++ w.pending i g := by
    intro hnone htr
    rw [htr, World.pending, Pipeline.filterMap_of_pop_none hs.pop hnone]
  cases action with
  | server k task =>
      by_cases hki : k = i
      · subst hki
        rw [hs.traces_server, Server.run_trace, List.filterMap_append, hrec]
        have hcls : (Callback.server k task).atServer k g = g task := by
          simp [Callback.atServer]
        -- If the call is of the class it was the first of those that are pending.
        cases hg : g task with
        | none =>
            rw [World.pending, Pipeline.filterMap_of_pop_none hs.pop (hcls.trans hg)]
            simp [World.traces]
        | some b =>
            rw [World.pending, hpipe.filterMap_of_pop hs.pop (hcls.trans hg)]
            simp [World.traces]
      · refine hquiet ?_ ?_
        · simp [Callback.atServer, hki]
        · simp [World.traces, hs.servers, serversAfter, Function.update_of_ne (Ne.symm hki)]
  | clientStart k =>
      exact hquiet rfl (by simp [World.traces, hs.servers, serversAfter])
  | sendRequest k =>
      exact hquiet rfl (by simp [World.traces, hs.servers, serversAfter])
  | transit packet hop =>
      exact hquiet rfl (by simp [World.traces, hs.servers, serversAfter])

/-- Calls that are all scheduled with the same delay. -/
theorem pipeline {β : Type} {g : Task → Option β} {d : Time} {i : ℕ}
    (hg₁ : g .startApplication = none) (hg₂ : g .stopApplication = none)
    (hts : ∀ {w c e x}, x ∈ emitted C c w e → (x.action.atServer i g).isSome → x.ts = e.ts + d)
    (hr : Reachable C G w) : Pipeline (Callback.atServer i g) d w.now w.events := by
  refine Transition.Reachable.invariant
    (P := fun w => Pipeline (Callback.atServer i g) d w.now w.events) ?_ ?_ hr
  · exact Pipeline.of_forall_none (init_atServer hg₁ hg₂ i)
  · intro w c w' hr hpipe _ hstep
    rcases step_spec hstep with ⟨e, rest, hs⟩
    rw [hs.now, hs.events]
    have hnow := now_le_of_mem_events hr e (mem_of_pop hs.pop)
    exact (hpipe.pop hs.pop hnow).schedule (fun _ hx hsome => hts hx hsome)

theorem receipt_pipeline (hr : Reachable C G w) (i : ℕ) :
    Pipeline (Callback.atServer i Task.received?) 0 w.now w.events :=
  pipeline rfl rfl emitted_received_ts hr

theorem init_pending {β : Type} {g : Task → Option β} (hg₁ : g .startApplication = none)
    (hg₂ : g .stopApplication = none) (i : ℕ) : (World.init C).pending i g = [] :=
  List.filterMap_eq_nil_iff.2 (init_atServer hg₁ hg₂ i)

/-- What a server handled, and then what waits for its handler, is what arrived. -/
theorem receipts (hr : Reachable C G w) (i : ℕ) :
    (w.traces i).filterMap Record.handled? ++ w.pending i Task.received? =
      w.arrived.filterMap (Packet.paxosTo? i) := by
  refine Transition.Reachable.invariant
    (P := fun w => (w.traces i).filterMap Record.handled? ++ w.pending i Task.received? =
      w.arrived.filterMap (Packet.paxosTo? i)) ?_ ?_ hr
  · exact init_pending rfl rfl i
  · intro w c w' hr hbal _ hstep
    rcases step_spec hstep with ⟨e, rest, hs⟩
    have hadvance := hs.advance (receipt_pipeline hr i) (fun _ _ _ => newRecords_handled)
    calc (w'.traces i).filterMap Record.handled? ++ w'.pending i Task.received?
        = (w'.traces i).filterMap Record.handled? ++
            (rest.filterMap (fun x => x.action.atServer i Task.received?) ++
              (taken c e).filterMap (Packet.paxosTo? i)) := by
          rw [World.pending, hs.events, List.filterMap_append, emitted_received hr hs]
      _ = (w.traces i).filterMap Record.handled? ++ w.pending i Task.received? ++
            (taken c e).filterMap (Packet.paxosTo? i) := by
          rw [← List.append_assoc, hadvance]
      _ = w'.arrived.filterMap (Packet.paxosTo? i) := by
          rw [hbal, hs.arrived, List.filterMap_append]

/-! ## Delayed answers -/

/-- The body of the frame that waits to be answered. -/
def Task.answering (task : Task) : Option PaxosFrame := task.answering?.map PaxosFrame.body

/-- The body of an ACCEPT that a line says was sent. -/
def Record.answered (r : Record) : Option PaxosFrame := r.acceptSent?.map PaxosFrame.body

theorem newRecords_handledProposals {i : ℕ} {now : Time} {task : Task} {s : Server} :
    Trace.handledProposals (Server.newRecords C i now task s) =
      ((task.line? i now).bind Record.handledProposal?).toList := by
  refine newRecords_filterMap ?_
  intro r hr
  cases r <;> simp [Record.IsLine] at hr ⊢

/-- The answers that a step makes pending are those of the PROPOSALs handled in it. -/
theorem emitted_answering (C : Cluster) (c : Choice) (w : World) (e : Event) (i : ℕ) :
    (emitted C c w e).filterMap (fun x => x.action.atServer i Task.answering) =
      (newLines C w e i).handledProposals.map PaxosFrame.body := by
  have hcls : ∀ a : Callback, a.atServer i Task.answering =
      (a.atServer i Task.answering?).map PaxosFrame.body := by
    intro a
    cases a with
    | server j task =>
        by_cases hij : j = i <;> simp [Callback.atServer, Task.answering, hij]
    | _ =>
        rfl
  simp only [hcls]
  rw [← List.map_filterMap]
  rcases e with ⟨now, action⟩
  cases action with
  | server k task =>
      simp only [emitted, newLines]
      rw [run_atServer, newTasks_answering]
      by_cases hki : k = i
      · subst hki
        simp only [if_true, newRecords_handledProposals]
        cases task <;> simp [Task.line?, PaxosFrame.body]
      · cases task <;> simp [hki]
  | clientStart k =>
      exact congrArg (List.map PaxosFrame.body) (sendRequest_atServer _ i k now c.value _)
  | sendRequest k =>
      exact congrArg (List.map PaxosFrame.body) (sendRequest_atServer _ i k now c.value _)
  | transit packet hop =>
      cases hf : c.fate with
      | arrive =>
          simp only [emitted, hf, newLines, List.filterMap_nil]
          refine congrArg _ (List.filterMap_eq_nil_iff.2 ?_)
          intro x hx
          rcases mem_arrivalEvents hx with ⟨r, -, -, -, rfl⟩ | ⟨f, task, -, -, hrecv, rfl⟩
          · simp [Callback.atServer]
          · cases task <;> simp at hrecv <;> simp [Callback.atServer]
      | forward d =>
          simp [emitted, newLines, hf, Callback.atServer]
      | duplicate d₁ d₂ =>
          simp [emitted, newLines, hf, Callback.atServer]
      | lose =>
          simp [emitted, newLines, hf]

/-- An answer is due ten nanoseconds after the PROPOSAL was handled. -/
theorem emitted_answering_ts {e x : Event} {i : ℕ} (hx : x ∈ emitted C c w e)
    (hsome : (x.action.atServer i Task.answering).isSome) : x.ts = e.ts + 10 := by
  rcases eq_server_of_atServer hsome with ⟨t, ht, hans⟩
  have hf : ∃ f, t = .sendAcceptMessage f := by
    cases t <;> simp [Task.answering] at hans ⊢
  rcases hf with ⟨f, rfl⟩
  rcases mem_emitted_server hx ht with ⟨task, -, hnew⟩ | ⟨packet, hop, -, -, harr⟩
  · cases Server.schedules_of_mem_newTasks C i e.ts hnew with
    | boot hboot =>
        cases ht
        simp at hboot
    | answer =>
        rfl
    | _ =>
        cases ht
  · rcases mem_arrivalEvents harr with ⟨r, -, -, -, rfl⟩ | ⟨f', task, -, -, hrecv, rfl⟩
    · cases ht
    · cases ht
      cases hrecv

theorem answer_pipeline (hr : Reachable C G w) (i : ℕ) :
    Pipeline (Callback.atServer i Task.answering) 10 w.now w.events :=
  pipeline rfl rfl emitted_answering_ts hr

/-- The ACCEPTs a server sent, and then those it is to send, answer the PROPOSALs it handled. -/
theorem answers (hr : Reachable C G w) (i : ℕ) :
    (w.traces i).filterMap Record.answered ++ w.pending i Task.answering =
      (w.traces i).handledProposals.map PaxosFrame.body := by
  refine Transition.Reachable.invariant
    (P := fun w => (w.traces i).filterMap Record.answered ++ w.pending i Task.answering =
      (w.traces i).handledProposals.map PaxosFrame.body) ?_ ?_ hr
  · exact init_pending rfl rfl i
  · intro w c w' hr hbal _ hstep
    rcases step_spec hstep with ⟨e, rest, hs⟩
    have hline : ∀ now task s,
        (Server.newRecords C i now task s).filterMap Record.answered =
          (Task.answering task).toList := by
      intro now task s
      rw [newRecords_filterMap]
      · cases task <;> rfl
      · intro r hr
        cases r <;> simp [Record.IsLine, Record.answered] at hr ⊢
    have hadvance := hs.advance (answer_pipeline hr i) hline
    calc (w'.traces i).filterMap Record.answered ++ w'.pending i Task.answering
        = (w'.traces i).filterMap Record.answered ++
            (rest.filterMap (fun x => x.action.atServer i Task.answering) ++
              (newLines C w e i).handledProposals.map PaxosFrame.body) := by
          rw [World.pending, hs.events, List.filterMap_append, emitted_answering]
      _ = (w.traces i).filterMap Record.answered ++ w.pending i Task.answering ++
            (newLines C w e i).handledProposals.map PaxosFrame.body := by
          rw [← List.append_assoc, hadvance]
      _ = (w'.traces i).handledProposals.map PaxosFrame.body := by
          rw [hbal, hs.traces]
          simp only [Trace.handledProposals, List.filterMap_append, List.map_append]

/-! ## Delayed requests -/

/-- The requests that a step makes pending are those that arrive in it, at a listener that keeps
them. -/
theorem emitted_creating_eq (C : Cluster) (c : Choice) (w : World) (e : Event) (i : ℕ) :
    (emitted C c w e).filterMap (fun x => x.action.atServer i Task.creating?) =
      if (w.servers i).listenerSocket = true ∧ ¬ (C.async = true ∧ i ≠ Cluster.leader) then
        (taken c e).filterMap (Packet.requestTo? i)
      else
        [] := by
  rcases e with ⟨now, action⟩
  cases action with
  | server k task =>
      simp only [emitted, taken, List.filterMap_nil, ite_self]
      rw [run_atServer, newTasks_atServer_eq_nil (fun t ht => .inr ht)]
  | clientStart k =>
      simp only [emitted, sendRequest_atServer, taken, List.filterMap_nil, ite_self]
  | sendRequest k =>
      simp only [emitted, sendRequest_atServer, taken, List.filterMap_nil, ite_self]
  | transit packet hop =>
      cases hf : c.fate with
      | arrive =>
          simp only [emitted, hf, taken]
          rcases packet with ⟨src, dst, payload, sentAt⟩
          cases payload with
          | request r =>
              have hreq : [(⟨src, dst, .request r, sentAt⟩ : Packet)].filterMap
                  (Packet.requestTo? i) = if dst = i then [r] else [] := by
                by_cases hi : dst = i <;> simp [Packet.requestTo?, Packet.request?, hi]
              rw [hreq]
              simp only [arrivalEvents, Server.receiveRequest]
              by_cases hi : dst = i
              · -- The listener is open or closed, and keeps the request or drops it.
                subst hi
                by_cases hopen : (w.servers dst).listenerSocket = true <;>
                  by_cases hlead : C.async = true ∧ dst ≠ Cluster.leader <;>
                  simp [hopen, hlead, Callback.atServer, Task.creating?]
              · split
                · split <;> simp [Callback.atServer, hi]
                · simp
          | paxos f =>
              have hnil : (arrivalEvents C w now ⟨src, dst, .paxos f, sentAt⟩).filterMap
                  (fun x => x.action.atServer i Task.creating?) = [] := by
                refine List.filterMap_eq_nil_iff.2 ?_
                intro x hx
                rcases mem_arrivalEvents hx with ⟨r, hp, -⟩ | ⟨f', task, -, -, hrecv, rfl⟩
                · cases hp
                · cases task <;> simp at hrecv <;> simp [Callback.atServer]
              have hnone : [(⟨src, dst, .paxos f, sentAt⟩ : Packet)].filterMap
                  (Packet.requestTo? i) = [] := by
                simp [Packet.requestTo?, Packet.request?]
              rw [hnil, hnone, ite_self]
      | forward d =>
          simp [emitted, taken, hf, Callback.atServer]
      | duplicate d₁ d₂ =>
          simp [emitted, taken, hf, Callback.atServer]
      | lose =>
          simp [emitted, taken, hf]

theorem emitted_creating (C : Cluster) (c : Choice) (w : World) (e : Event) (i : ℕ) :
    ((emitted C c w e).filterMap (fun x => x.action.atServer i Task.creating?)).Sublist
      ((taken c e).filterMap (Packet.requestTo? i)) := by
  rw [emitted_creating_eq]
  split
  · exact List.Sublist.refl _
  · exact List.nil_sublist _

/-- A request is queued ten nanoseconds after it arrived. -/
theorem emitted_creating_ts {e x : Event} {i : ℕ} (hx : x ∈ emitted C c w e)
    (hsome : (x.action.atServer i Task.creating?).isSome) : x.ts = e.ts + 10 := by
  rcases eq_server_of_atServer hsome with ⟨t, ht, hcreate⟩
  rcases mem_emitted_server hx ht with ⟨task, -, hnew⟩ | ⟨packet, hop, -, -, harr⟩
  · rcases Server.mem_newTasks C i e.ts hnew with ⟨t', ht', hcases⟩
    rw [ht] at ht'
    cases ht'
    rcases hcases with rfl | rfl | rfl | rfl | rfl | ⟨f, rfl⟩ <;> cases hcreate
  · rcases mem_arrivalEvents harr with ⟨r, -, -, -, rfl⟩ | ⟨f', task, -, -, hrecv, rfl⟩
    · rfl
    · cases ht
      cases t <;> simp at hrecv <;> cases hcreate

theorem creation_pipeline (hr : Reachable C G w) (i : ℕ) :
    Pipeline (Callback.atServer i Task.creating?) 10 w.now w.events :=
  pipeline rfl rfl emitted_creating_ts hr

/-- The call that ran queued its request, or dropped it because the queue was full. -/
theorem newLines_queued_eq (C : Cluster) (w : World) (e : Event) (i : ℕ) :
    (newLines C w e i).queued =
      if 1000 < (w.servers i).waitingProposals.length then []
      else (e.action.atServer i Task.creating?).toList := by
  rcases e with ⟨now, action⟩
  cases action with
  | server k task =>
      by_cases hki : k = i
      · subst hki
        simp only [newLines, if_true, newRecords_queued, Callback.atServer]
        cases task <;> simp [Task.creating?]
      · simp [newLines, hki, Callback.atServer]
  | _ =>
      simp [newLines, Callback.atServer]

theorem newLines_queued (C : Cluster) (w : World) (e : Event) (i : ℕ) :
    ((newLines C w e i).queued).Sublist (e.action.atServer i Task.creating?).toList := by
  rw [newLines_queued_eq]
  split
  · exact List.nil_sublist _
  · exact List.Sublist.refl _

/-- The requests a server queued, and then those it is to queue, are among those that arrived. -/
theorem creations (hr : Reachable C G w) (i : ℕ) :
    ((w.traces i).queued ++ w.pending i Task.creating?).Sublist
      (w.arrived.filterMap (Packet.requestTo? i)) := by
  refine Transition.Reachable.invariant
    (P := fun w => ((w.traces i).queued ++ w.pending i Task.creating?).Sublist
      (w.arrived.filterMap (Packet.requestTo? i))) ?_ ?_ hr
  · have hnil : (World.init C).pending i Task.creating? = [] := init_pending rfl rfl i
    change ([] ++ (World.init C).pending i Task.creating?).Sublist _
    rw [hnil]
    exact List.nil_sublist _
  · intro w c w' hr hbal _ hstep
    rcases step_spec hstep with ⟨e, rest, hs⟩
    have hadvance : ((w'.traces i).queued ++
        rest.filterMap (fun x => x.action.atServer i Task.creating?)).Sublist
          ((w.traces i).queued ++ w.pending i Task.creating?) := by
      -- The creation that runs is the first of those that are pending; it may be dropped.
      have hhead : w.pending i Task.creating? = (e.action.atServer i Task.creating?).toList ++
          rest.filterMap (fun x => x.action.atServer i Task.creating?) :=
        (creation_pipeline hr i).filterMap_pop hs.pop
      rw [hs.traces, Trace.queued, List.filterMap_append, List.append_assoc, hhead]
      exact (List.Sublist.refl _).append ((newLines_queued C w e i).append (List.Sublist.refl _))
    have hpending : w'.pending i Task.creating? =
        rest.filterMap (fun x => x.action.atServer i Task.creating?) ++
          (emitted C c w e).filterMap (fun x => x.action.atServer i Task.creating?) := by
      rw [World.pending, hs.events, List.filterMap_append]
    rw [hpending, ← List.append_assoc, hs.arrived, List.filterMap_append]
    exact (hadvance.trans hbal).append (emitted_creating C c w e i)

end SyncPaxos
