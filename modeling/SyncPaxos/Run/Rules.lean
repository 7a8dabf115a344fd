import SyncPaxos.Library.Counting
import SyncPaxos.Run.Outcome
import SyncPaxos.Run.Step

/-!
# Rules — induction over runs

A record is only ever extended and the clock never goes back.  From these two facts and
`step_spec` this module derives the rules that later modules use in place of an induction:

* `server_invariant` for a property of one server, which only its own member functions change;
* `event_invariant` for a property of pending events that stays true as records grow.
-/

namespace SyncPaxos

open DiscreteEvent

variable {C : Cluster} {G : World → Choice → Prop} {w w' : World} {c : Choice}

/-! ## Lines of one kind -/

namespace Trace

variable {α : Type} {tr : Trace} {f : PaxosFrame}

theorem mem_filterMap_iff {p : Record → Option α} {line : α → Record} {a : α}
    (h : ∀ r, p r = some a ↔ r = line a) : a ∈ tr.filterMap p ↔ line a ∈ tr := by
  rw [List.mem_filterMap]
  constructor
  · rintro ⟨r, hr, heq⟩
    exact (h r).1 heq ▸ hr
  · intro hr
    exact ⟨_, hr, (h _).2 rfl⟩

theorem mem_queued {r : RequestFrame} : r ∈ tr.queued ↔ Record.queued r ∈ tr :=
  mem_filterMap_iff (fun l => by cases l <;> simp)

theorem mem_proposed : f ∈ tr.proposed ↔ Record.proposed f ∈ tr :=
  mem_filterMap_iff (fun l => by cases l <;> simp)

theorem mem_handledProposals : f ∈ tr.handledProposals ↔ Record.handledProposal f ∈ tr :=
  mem_filterMap_iff (fun l => by cases l <;> simp)

theorem mem_acceptsSent : f ∈ tr.acceptsSent ↔ Record.acceptSent f ∈ tr :=
  mem_filterMap_iff (fun l => by cases l <;> simp)

theorem mem_handledAccepts : f ∈ tr.handledAccepts ↔ Record.handledAccept f ∈ tr :=
  mem_filterMap_iff (fun l => by cases l <;> simp)

theorem mem_decisions : f ∈ tr.decisions ↔ Record.decision f ∈ tr :=
  mem_filterMap_iff (fun l => by cases l <;> simp)

theorem mem_handledDecisions : f ∈ tr.handledDecisions ↔ Record.handledDecision f ∈ tr :=
  mem_filterMap_iff (fun l => by cases l <;> simp)

theorem mem_handledDecisionAcks : f ∈ tr.handledDecisionAcks ↔ Record.handledDecisionAck f ∈ tr :=
  mem_filterMap_iff (fun l => by cases l <;> simp)

end Trace

/-! ## Records are only extended -/

/-- The records of all servers. -/
def World.traces (w : World) (i : ℕ) : Trace := (w.servers i).trace

/-- The lines that the execution of an event adds to the record of server `i`. -/
def newLines (C : Cluster) (w : World) (e : Event) (i : ℕ) : Trace :=
  match e.action with
  | .server j task => if j = i then Server.newRecords C i e.ts task (w.servers i) else []
  | _ => []

theorem StepSpec.traces {e : Event} {rest : List Event} (hs : StepSpec C c w w' e rest) (i : ℕ) :
    w'.traces i = w.traces i ++ newLines C w e i := by
  rcases e with ⟨now, action⟩
  cases action with
  | server j task =>
      by_cases hij : j = i
      · subst hij
        simp [World.traces, hs.servers, serversAfter, newLines, Server.run_trace]
      · simp [World.traces, hs.servers, serversAfter, newLines, hij,
          Function.update_of_ne (Ne.symm hij)]
  | _ =>
      simp [World.traces, hs.servers, serversAfter, newLines]

theorem step_trace_grows (h : World.step C c w = some w') (i : ℕ) :
    w.traces i <+: w'.traces i := by
  rcases step_spec h with ⟨e, rest, hs⟩
  rw [hs.traces]
  exact List.prefix_append _ _

theorem step_sent_grows (h : World.step C c w = some w') : w.sent <+: w'.sent := by
  rcases step_spec h with ⟨e, rest, hs⟩
  rw [hs.sent]
  exact List.prefix_append _ _

/-! ## The clock -/

theorem broadcast_ts {i : ℕ} {now : Time} {f : PaxosFrame} {e : Event}
    (he : e ∈ broadcast C i now f) : e.ts = now := by
  rcases List.mem_map.1 he with ⟨d, -, rfl⟩
  rfl

theorem doPropose_ts {i : ℕ} {now : Time} {s : Server} {e : Event}
    (he : e ∈ (s.doPropose C i now).2.events) : e.ts = now := by
  unfold Server.doPropose at he
  split at he
  · cases he
  · exact broadcast_ts he

theorem doAsyncPropose_ts {i : ℕ} {now : Time} {s : Server} {e : Event}
    (he : e ∈ (s.doAsyncPropose C i now).events) : now ≤ e.ts := by
  unfold Server.doAsyncPropose at he
  dsimp only at he
  split at he
  · cases he
  · split at he
    · exact (doPropose_ts he).ge
    · rcases List.mem_singleton.1 he with rfl
      exact Nat.le_add_right _ _

/-- No member function schedules into the past. -/
theorem run_ts {i : ℕ} {now : Time} {task : Task} {s : Server} {e : Event}
    (he : e ∈ (Server.run C i now task s).events) : now ≤ e.ts := by
  cases task with
  | startApplication =>
      simp only [Server.run, Server.startApplication, List.mem_cons, List.not_mem_nil,
        or_false] at he
      rcases he with rfl | rfl | rfl <;> exact le_rfl
  | stopApplication =>
      cases he
  | startListenerThread =>
      cases he
  | startProposerThread =>
      simp only [Server.run, Server.startProposerThread] at he
      split at he
      · split at he
        · exact doAsyncPropose_ts he
        · cases he
      · rcases List.mem_singleton.1 he with rfl
        exact Nat.le_add_right _ _
  | startAcceptorThread =>
      cases he
  | createProposalFromRequest f =>
      simp only [Server.run, Server.createProposalFromRequest] at he
      split at he <;> cases he
  | doSyncPropose =>
      simp only [Server.run, Server.doSyncPropose] at he
      split at he
      · cases he
      · rcases List.mem_append.1 he with he | he
        · exact (doPropose_ts he).ge
        · rcases List.mem_singleton.1 he with rfl
          exact Nat.le_add_right _ _
  | doAsyncPropose =>
      exact doAsyncPropose_ts he
  | doReceivedProposalMessage f =>
      rcases List.mem_singleton.1 he with rfl
      exact Nat.le_add_right _ _
  | sendAcceptMessage f =>
      rcases List.mem_singleton.1 he with rfl
      exact le_rfl
  | doReceivedAcceptMessage f =>
      simp only [Server.run, Server.doReceivedAcceptMessage] at he
      split at he
      · cases he
      · split at he
        · cases he
        · split at he
          · split at he
            · exact (broadcast_ts he).ge
            · exact (broadcast_ts he).ge
          · cases he
  | doReceivedDecisionMessage f =>
      simp only [Server.run, Server.doReceivedDecisionMessage] at he
      split at he
      · rcases List.mem_singleton.1 he with rfl
        exact le_rfl
      · cases he
  | doReceivedDecisionAckMessage f =>
      simp only [Server.run, Server.doReceivedDecisionAckMessage] at he
      split at he
      · split at he
        · cases he
        · split at he
          · exact doAsyncPropose_ts he
          · cases he
      · cases he

/-- A client sends one packet, and is called again. -/
theorem mem_sendRequest {k : ℕ} {now : Time} {value : ℕ} {cl : Client} {e : Event}
    (he : e ∈ (cl.sendRequest C k now value).2) :
    e = ⟨now, .transit (cl.requestPacket C k now value) 0⟩ ∨
      e = ⟨now + C.sendInterval, .sendRequest k⟩ := by
  unfold Client.sendRequest at he
  split at he
  · cases he
  · simpa using he

theorem sendRequest_ts {k : ℕ} {now : Time} {value : ℕ} {cl : Client} {e : Event}
    (he : e ∈ (cl.sendRequest C k now value).2) : now ≤ e.ts := by
  rcases mem_sendRequest he with rfl | rfl
  · exact le_rfl
  · exact Nat.le_add_right _ _

theorem arrivalEvents_ts {now : Time} {packet : Packet} {e : Event}
    (he : e ∈ arrivalEvents C w now packet) : now ≤ e.ts := by
  rcases mem_arrivalEvents he with ⟨r, -, -, -, rfl⟩ | ⟨f, task, -, -, -, rfl⟩
  · exact Nat.le_add_right _ _
  · exact le_rfl

theorem emitted_ts {e x : Event} (hx : x ∈ emitted C c w e) : e.ts ≤ x.ts := by
  unfold emitted at hx
  split at hx
  · exact run_ts hx
  · exact sendRequest_ts hx
  · exact sendRequest_ts hx
  · split at hx
    · exact arrivalEvents_ts hx
    · rcases List.mem_singleton.1 hx with rfl
      exact Nat.le_add_right _ _
    · simp only [List.mem_cons, List.not_mem_nil, or_false] at hx
      rcases hx with rfl | rfl <;> exact Nat.le_add_right _ _
    · cases hx

/-- No pending event lies in the past. -/
theorem now_le_of_mem_events (hr : Reachable C G w) : ∀ e ∈ w.events, w.now ≤ e.ts := by
  refine Transition.Reachable.invariant (P := fun w => ∀ e ∈ w.events, w.now ≤ e.ts) ?_ ?_ hr
  · intro e _
    exact Nat.zero_le _
  · intro w c w' _ _ _ hstep x hx
    rcases step_spec hstep with ⟨e, rest, hs⟩
    rw [hs.events] at hx
    rw [hs.now]
    rcases List.mem_append.1 hx with hx | hx
    · exact pop_le hs.pop (mem_rest_of_pop hs.pop hx)
    · exact emitted_ts hx

theorem step_now_le (hr : Reachable C G w) (h : World.step C c w = some w') :
    w.now ≤ w'.now := by
  rcases step_spec h with ⟨e, rest, hs⟩
  rw [hs.now]
  exact now_le_of_mem_events hr e (mem_of_pop hs.pop)

/-! ## Rules -/

section Rules

variable {Q : World → Prop} {P : ℕ → Server → Prop}

/-- A property of one server holds in every reachable state if its member functions keep it.
`Q` is a property that no step establishes anew. -/
theorem server_invariant (hQ : ∀ w c w', Reachable C G w → World.step C c w = some w' → Q w' → Q w)
    (hinit : ∀ i, P i {})
    (hrun : ∀ w c w' i task now rest, Reachable C G w → Q w → G w c →
      World.step C c w = some w' → Q w' → StepSpec C c w w' ⟨now, .server i task⟩ rest →
      P i (w.servers i) → P i (Server.run C i now task (w.servers i)).server)
    (hr : Reachable C G w) (hq : Q w) : ∀ i, P i (w.servers i) := by
  refine Transition.Reachable.invariant_of (P := fun w => ∀ i, P i (w.servers i))
    (fun w c w' hr hs => hQ w c w' hr hs) hinit ?_ hr hq
  intro w c w' hr hq hq' hP hg hstep i
  rcases step_spec hstep with ⟨⟨now, action⟩, rest, hs⟩
  rw [hs.servers]
  unfold serversAfter
  cases action with
  | server j task =>
      by_cases hij : i = j
      · subst hij
        simpa using hrun w c w' i task now rest hr hq hg hstep hq' hs (hP i)
      · simpa [Function.update_of_ne hij] using hP i
  | clientStart k =>
      exact hP i
  | sendRequest k =>
      exact hP i
  | transit packet hop =>
      exact hP i

/-- A property of pending events holds in every reachable state if it holds of the initial
events, stays true along a step, and holds of the events that a step schedules. -/
theorem event_invariant {P : World → Event → Prop}
    (hQ : ∀ w c w', Reachable C G w → World.step C c w = some w' → Q w' → Q w)
    (hinit : ∀ e ∈ (World.init C).events, P (World.init C) e)
    (hkeep : ∀ w c w' e, Reachable C G w → World.step C c w = some w' → P w e → P w' e)
    (hemit : ∀ w c w' e rest, Reachable C G w → Q w → Q w' → (∀ e ∈ w.events, P w e) →
      G w c → World.step C c w = some w' → StepSpec C c w w' e rest →
      ∀ x ∈ emitted C c w e, P w' x)
    (hr : Reachable C G w) (hq : Q w) : ∀ e ∈ w.events, P w e := by
  refine Transition.Reachable.invariant_of (P := fun w => ∀ e ∈ w.events, P w e)
    (fun w c w' hr hs => hQ w c w' hr hs) hinit ?_ hr hq
  intro w c w' hr hq hq' hP hg hstep x hx
  rcases step_spec hstep with ⟨e, rest, hs⟩
  rw [hs.events] at hx
  rcases List.mem_append.1 hx with hx | hx
  · exact hkeep w c w' x hr hstep (hP x (mem_rest_of_pop hs.pop hx))
  · exact hemit w c w' e rest hr hq hq' hP hg hstep hs x hx

end Rules

/-- The events that a client or a server is initialised with. -/
theorem mem_init_events {e : Event} (he : e ∈ (World.init C).events) :
    (∃ k, k < C.numClients ∧ e = ⟨C.clientStartTime, .clientStart k⟩) ∨
      (∃ i, i < C.numNodes ∧ e = ⟨C.startTime, .server i .startApplication⟩) ∨
      (∃ i, i < C.numNodes ∧ e = ⟨C.stopTime, .server i .stopApplication⟩) := by
  rcases List.mem_flatMap.1 he with ⟨a, ha, he⟩
  have ha' := C.initOrder_perm.mem_iff.1 ha
  cases a with
  | client k =>
      have hk : k < C.numClients := by simpa using ha'
      exact .inl ⟨k, hk, List.mem_singleton.1 he⟩
  | server i =>
      have hi : i < C.numNodes := by simpa using ha'
      rcases List.mem_cons.1 he with rfl | he
      · exact .inr (.inl ⟨i, hi, rfl⟩)
      · split at he
        · cases he
        · exact .inr (.inr ⟨i, hi, List.mem_singleton.1 he⟩)

/-! ## Initial events -/

section Initial

variable {β : Type} {a : App}

/-- Every application is initialised once. -/
theorem initOrder_nodup (C : Cluster) : C.initOrder.Nodup := by
  rw [C.initOrder_perm.nodup_iff]
  apply List.Nodup.append
  · exact List.nodup_range.map (fun _ _ h => by cases h; rfl)
  · exact List.nodup_range.map (fun _ _ h => by cases h; rfl)
  · intro b hclient hserver
    rcases List.mem_map.1 hclient with ⟨k, -, rfl⟩
    rcases List.mem_map.1 hserver with ⟨i, -, h⟩
    cases h

@[simp] theorem server_mem_initOrder {i : ℕ} : App.server i ∈ C.initOrder ↔ i < C.numNodes := by
  rw [C.initOrder_perm.mem_iff]
  simp

@[simp] theorem client_mem_initOrder {k : ℕ} :
    App.client k ∈ C.initOrder ↔ k < C.numClients := by
  rw [C.initOrder_perm.mem_iff]
  simp

/-- What only one application contributes to the initial events. -/
theorem init_filterMap {g : Event → Option β} {bs : List β}
    (h : ∀ b ∈ C.initOrder, (b.initEvents C).filterMap g = if b = a then bs else []) :
    (World.init C).events.filterMap g = if a ∈ C.initOrder then bs else [] := by
  calc (World.init C).events.filterMap g
      = C.initOrder.flatMap (fun b => (b.initEvents C).filterMap g) := List.filterMap_flatMap
    _ = if a ∈ C.initOrder then bs else [] :=
      Counting.flatMap_eq_of_nodup (initOrder_nodup C) h

theorem init_filter {p : Event → Bool} {es : List Event}
    (h : ∀ b ∈ C.initOrder, (b.initEvents C).filter p = if b = a then es else []) :
    (World.init C).events.filter p = if a ∈ C.initOrder then es else [] := by
  calc (World.init C).events.filter p
      = C.initOrder.flatMap (fun b => (b.initEvents C).filter p) := List.filter_flatMap
    _ = if a ∈ C.initOrder then es else [] :=
      Counting.flatMap_eq_of_nodup (initOrder_nodup C) h

end Initial

end SyncPaxos
