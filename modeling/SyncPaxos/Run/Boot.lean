import SyncPaxos.Run.Emission
import SyncPaxos.Run.Ledger

/-!
# Boot — which servers run, and since when

Only the servers of the cluster ever run.  All of them start at the same time, and a request
waits ten nanoseconds before it is queued, so by the time any request is queued every server of
the cluster has bound its socket: no Paxos frame ever finds a closed one.
-/

namespace SyncPaxos

open DiscreteEvent

/-! ## Sockets -/

namespace Server

variable {C : Cluster} {i : ℕ} {now : Time}

theorem doPropose_sockets (s : Server) :
    (s.doPropose C i now).2.server.recvSocket = s.recvSocket ∧
      (s.doPropose C i now).2.server.listenerSocket = s.listenerSocket := by
  rcases doPropose_cases C i now s with ⟨-, h⟩ | ⟨p, rest, -, h⟩
  · simp [h]
  · simp [h, record, putProposal]

theorem doAsyncPropose_sockets (s : Server) :
    (s.doAsyncPropose C i now).server.recvSocket = s.recvSocket ∧
      (s.doAsyncPropose C i now).server.listenerSocket = s.listenerSocket := by
  rcases doAsyncPropose_cases C i now s with ⟨-, h⟩ | ⟨-, -, h⟩ | ⟨-, p, rest, -, h⟩
  · simp [h, record]
  · simp [h, record]
  · simp [h, record, putProposal]

/-- `StartApplication` binds the receive socket, the listener thread its own; nothing unbinds. -/
theorem run_sockets (now : Time) (task : Task) (s : Server) :
    (run C i now task s).server.recvSocket =
        (s.recvSocket || decide (task = .startApplication)) ∧
      (run C i now task s).server.listenerSocket =
        (s.listenerSocket || decide (task = .startListenerThread)) := by
  cases task with
  | startApplication =>
      simp [run, startApplication]
  | stopApplication =>
      simp [run, stopApplication]
  | startListenerThread =>
      simp [run, startListenerThread]
  | startProposerThread =>
      rcases startProposerThread_cases C i now s with ⟨-, -, h⟩ | ⟨-, -, h⟩ | ⟨-, h⟩
      · simp [run, h, doAsyncPropose_sockets, record]
      · simp [run, h, record]
      · simp [run, h, record]
  | startAcceptorThread =>
      simp [run, startAcceptorThread]
  | createProposalFromRequest r =>
      rcases createProposalFromRequest_cases i now r s with ⟨-, h⟩ | ⟨-, h⟩ <;>
        simp [run, h, record]
  | doSyncPropose =>
      rcases doSyncPropose_cases C i now s with ⟨-, h⟩ | ⟨-, h⟩
      · simp [run, h, record]
      · simp [run, h, doPropose_sockets, record]
  | doAsyncPropose =>
      simp [run, doAsyncPropose_sockets]
  | doReceivedProposalMessage f =>
      simp [run, doReceivedProposalMessage, record]
  | sendAcceptMessage f =>
      simp [run, sendAcceptMessage, record]
  | doReceivedAcceptMessage f =>
      rcases doReceivedAcceptMessage_cases C i now f s with
        ⟨-, h⟩ | ⟨found, -, -, ⟨-, h⟩ | ⟨-, -, -, h⟩ | ⟨-, -, -, h⟩⟩ <;>
        simp [run, h, record, putProposal, pushDecided, eraseProposal]
  | doReceivedDecisionMessage f =>
      simp [run, doReceivedDecisionMessage, record, pushDecided]
  | doReceivedDecisionAckMessage f =>
      rcases doReceivedDecisionAckMessage_cases C i now f s with
        ⟨-, h⟩ | ⟨found, -, -, ⟨-, h⟩ | ⟨-, -, h⟩⟩
      · simp [run, h, record]
      · simp [run, h, record, putProposal]
      · simp [run, h, doAsyncPropose_sockets, record, pushDecided, eraseProposal]

end Server

/-- The requests that a call puts on the waiting queue. -/
theorem newRecords_queued {C : Cluster} {i : ℕ} (now : Time) (task : Task) (s : Server) :
    Trace.queued (Server.newRecords C i now task s) =
      match task with
      | .createProposalFromRequest r => if 1000 < s.waitingProposals.length then [] else [r]
      | _ => [] := by
  have hpropose : Trace.queued (s.proposeRecords i now) = [] := by
    unfold Server.proposeRecords
    split <;> simp
  have hasync : Trace.queued (s.asyncProposeRecords C i now) = [] := by
    unfold Server.asyncProposeRecords
    split
    · simp
    · simpa using hpropose
  cases task with
  | createProposalFromRequest r =>
      simp only [Server.newRecords]
      split <;> simp
  | startProposerThread =>
      simp only [Server.newRecords]
      split
      · simpa using hasync
      · simp
  | doSyncPropose =>
      simp only [Server.newRecords]
      split
      · simp
      · simpa using hpropose
  | doAsyncPropose =>
      exact hasync
  | doReceivedAcceptMessage f =>
      simp only [Server.newRecords]
      split
      · simp
      · split <;> simp
  | doReceivedDecisionAckMessage f =>
      simp only [Server.newRecords]
      split
      · simp
      · simpa using hasync
  | _ =>
      simp [Server.newRecords]

/-! ## The invariant -/

/-- When a pending event of a server is due. -/
def DueAt (C : Cluster) (e : Event) : Prop :=
  match e.action with
  | .server i .stopApplication => i < C.numNodes ∧ e.ts = C.stopTime
  | .server i (.createProposalFromRequest _) => i < C.numNodes ∧ C.startTime + 10 ≤ e.ts
  | .server i _ => i < C.numNodes ∧ C.startTime ≤ e.ts
  | _ => True

structure Booted (C : Cluster) (w : World) : Prop where
  due : ∀ e ∈ w.events, DueAt C e
  idle : ∀ i, C.numNodes ≤ i → w.servers i = {}
  bound : ∀ i, i < C.numNodes → (w.servers i).recvSocket = true ∨
    (⟨C.startTime, .server i .startApplication⟩ : Event) ∈ w.events
  opened : ∀ i, (w.servers i).recvSocket = true ∨ (w.servers i).listenerSocket = true →
    C.startTime ≤ w.now
  queued : ∀ i, (w.traces i).queued ≠ [] → C.startTime + 10 ≤ w.now

section Booted

variable {C : Cluster} {G : World → Choice → Prop} {w w' : World} {c : Choice}

theorem Booted.init : Booted C (World.init C) := by
  refine ⟨?_, fun _ _ => rfl, ?_, ?_, ?_⟩
  · intro e he
    rcases mem_init_events he with ⟨k, -, rfl⟩ | ⟨i, hi, rfl⟩ | ⟨i, hi, rfl⟩
    · trivial
    · exact ⟨hi, le_rfl⟩
    · exact ⟨hi, rfl⟩
  · intro i hi
    refine .inr ?_
    exact List.mem_flatMap.2 ⟨_, server_mem_initOrder.2 hi, List.mem_cons_self⟩
  · intro i hi
    simp [World.init] at hi
  · intro i hi
    exact absurd rfl hi

/-- What a call schedules is due no earlier than the call itself. -/
theorem dueAt_run {i : ℕ} {now : Time} {task : Task} {s : Server} {e : Event}
    (hi : i < C.numNodes) (hnow : C.startTime ≤ now)
    (he : e ∈ (Server.run C i now task s).events) : DueAt C e := by
  have hts := run_ts he
  rw [Server.run_events] at he
  rcases List.mem_append.1 he with he | he
  · rcases List.mem_flatMap.1 he with ⟨r, -, hr⟩
    rcases mem_sendsOf hr with ⟨f, dst, rfl⟩
    trivial
  · rcases Server.mem_newTasks C i now he with ⟨t, ht, hcases⟩
    rcases e with ⟨ts, action⟩
    obtain rfl : action = .server i t := ht
    have hdue : i < C.numNodes ∧ C.startTime ≤ ts := ⟨hi, hnow.trans hts⟩
    rcases hcases with rfl | rfl | rfl | rfl | rfl | ⟨f, rfl⟩ <;> exact hdue

theorem dueAt_arrival (hw : Booted C w) {now : Time} (hnow : w.now ≤ now) {packet : Packet}
    {e : Event} (he : e ∈ arrivalEvents C w now packet) : DueAt C e := by
  -- Only servers of the cluster have open sockets.
  have hopen : (w.servers packet.dst).recvSocket = true ∨
      (w.servers packet.dst).listenerSocket = true → packet.dst < C.numNodes := by
    intro h
    by_contra hlt
    have hidle := hw.idle packet.dst (not_lt.1 hlt)
    simp [hidle] at h
  rcases mem_arrivalEvents he with ⟨r, -, hl, -, rfl⟩ | ⟨f, task, -, hl, hrecv, rfl⟩
  · have hstart := (hw.opened _ (.inr hl)).trans hnow
    exact ⟨hopen (.inr hl), Nat.add_le_add_right hstart 10⟩
  · have hstart := (hw.opened _ (.inl hl)).trans hnow
    have hdue : packet.dst < C.numNodes ∧ C.startTime ≤ now := ⟨hopen (.inl hl), hstart⟩
    cases task <;> simp at hrecv <;> exact hdue

theorem dueAt_sendRequest {k : ℕ} {now : Time} {value : ℕ} {cl : Client} {e : Event}
    (he : e ∈ (cl.sendRequest C k now value).2) : DueAt C e := by
  rcases mem_sendRequest he with rfl | rfl <;> trivial

theorem DueAt.lt {ts : Time} {i : ℕ} {task : Task} (h : DueAt C ⟨ts, .server i task⟩) :
    i < C.numNodes := by
  cases task with
  | stopApplication =>
      exact h.1
  | createProposalFromRequest r =>
      exact h.1
  | _ =>
      exact h.1

theorem Booted.emitted (hw : Booted C w) (hr : Reachable C G w) {e x : Event} {rest : List Event}
    (hs : StepSpec C c w w' e rest) (hx : x ∈ emitted C c w e) : DueAt C x := by
  have hnow := now_le_of_mem_events hr e (mem_of_pop hs.pop)
  have hdue := hw.due e (mem_of_pop hs.pop)
  rcases e with ⟨now, action⟩
  cases action with
  | server i task =>
      have hi := hdue.lt
      cases task with
      | stopApplication =>
          cases hx
      | createProposalFromRequest r =>
          exact dueAt_run hi ((Nat.le_add_right _ 10).trans hdue.2) hx
      | _ =>
          exact dueAt_run hi hdue.2 hx
  | clientStart k =>
      exact dueAt_sendRequest hx
  | sendRequest k =>
      exact dueAt_sendRequest hx
  | transit packet hop =>
      simp only [SyncPaxos.emitted] at hx
      split at hx
      · exact dueAt_arrival hw hnow hx
      · rcases List.mem_singleton.1 hx with rfl
        trivial
      · simp only [List.mem_cons, List.not_mem_nil, or_false] at hx
        rcases hx with rfl | rfl <;> trivial
      · cases hx

/-! ### What a step keeps -/

theorem Booted.due_step (hw : Booted C w) (hr : Reachable C G w) {e : Event} {rest : List Event}
    (hs : StepSpec C c w w' e rest) : ∀ x ∈ w'.events, DueAt C x := by
  intro x hx
  rw [hs.events] at hx
  rcases List.mem_append.1 hx with hx | hx
  · exact hw.due x (mem_rest_of_pop hs.pop hx)
  · exact hw.emitted hr hs hx

theorem Booted.idle_step (hw : Booted C w) {e : Event} {rest : List Event}
    (hs : StepSpec C c w w' e rest) : ∀ i, C.numNodes ≤ i → w'.servers i = {} := by
  have hdue := hw.due _ (mem_of_pop hs.pop)
  intro i hi
  rw [hs.servers]
  rcases e with ⟨now, action⟩
  cases action with
  | server j task =>
      have hj := hdue.lt
      have hij : i ≠ j := by omega
      simpa [serversAfter, Function.update_of_ne hij] using hw.idle i hi
  | _ =>
      exact hw.idle i hi

theorem Booted.bound_step (hw : Booted C w) {e : Event} {rest : List Event}
    (hs : StepSpec C c w w' e rest) :
    ∀ i, i < C.numNodes → (w'.servers i).recvSocket = true ∨
      (⟨C.startTime, .server i .startApplication⟩ : Event) ∈ w'.events := by
  intro i hi
  -- The start event is popped only when it is run.
  rcases e with ⟨now, action⟩
  have hkeep : (⟨now, action⟩ : Event) ≠ ⟨C.startTime, .server i .startApplication⟩ →
      (⟨C.startTime, .server i .startApplication⟩ : Event) ∈ w.events →
      (⟨C.startTime, .server i .startApplication⟩ : Event) ∈ w'.events := by
    intro hne hmem
    rw [hs.events]
    rcases List.mem_cons.1 ((pop_perm hs.pop).mem_iff.1 hmem) with heq | hrest
    · exact absurd heq.symm hne
    · exact List.mem_append_left _ hrest
  -- If server `i` is as before, it is bound or still waits for its start.
  have hother : w'.servers i = w.servers i →
      (⟨now, action⟩ : Event) ≠ ⟨C.startTime, .server i .startApplication⟩ →
      (w'.servers i).recvSocket = true ∨
        (⟨C.startTime, .server i .startApplication⟩ : Event) ∈ w'.events := by
    intro heq hne
    rw [heq]
    exact (hw.bound i hi).imp_right (hkeep hne)
  cases action with
  | server j task =>
      by_cases hij : i = j
      · subst hij
        have hsock := (Server.run_sockets (C := C) (i := i) now task (w.servers i)).1
        have hserver : w'.servers i = (Server.run C i now task (w.servers i)).server := by
          simp [hs.servers, serversAfter]
        rw [hserver, hsock]
        by_cases ht : task = .startApplication
        · simp [ht]
        · have hne : (⟨now, .server i task⟩ : Event) ≠
              ⟨C.startTime, .server i .startApplication⟩ := by
            simp [ht]
          rcases hw.bound i hi with h | h
          · simp [h]
          · exact .inr (hkeep hne h)
      · refine hother ?_ ?_
        · simp [hs.servers, serversAfter, Function.update_of_ne hij]
        · simp [Ne.symm hij]
  | clientStart k =>
      exact hother (by simp [hs.servers, serversAfter]) (by simp)
  | sendRequest k =>
      exact hother (by simp [hs.servers, serversAfter]) (by simp)
  | transit packet hop =>
      exact hother (by simp [hs.servers, serversAfter]) (by simp)

theorem Booted.opened_step (hw : Booted C w) (hr : Reachable C G w) {e : Event}
    {rest : List Event} (hs : StepSpec C c w w' e rest) :
    ∀ i, (w'.servers i).recvSocket = true ∨ (w'.servers i).listenerSocket = true →
      C.startTime ≤ w'.now := by
  have hdue := hw.due _ (mem_of_pop hs.pop)
  have hnow := (now_le_of_mem_events hr e (mem_of_pop hs.pop)).trans_eq hs.now.symm
  intro i hopen
  rcases e with ⟨now, action⟩
  have hold : (w.servers i).recvSocket = true ∨ (w.servers i).listenerSocket = true →
      C.startTime ≤ w'.now := fun h => (hw.opened i h).trans hnow
  rw [hs.servers] at hopen
  cases action with
  | server j task =>
      by_cases hij : i = j
      · subst hij
        have hsock := Server.run_sockets (C := C) (i := i) now task (w.servers i)
        simp only [serversAfter, Function.update_self, hsock.1, hsock.2, Bool.or_eq_true,
          decide_eq_true_eq] at hopen
        -- A socket that is open now was open before, or this call has opened it.
        have hcases : task = .startApplication ∨ task = .startListenerThread →
            C.startTime ≤ w'.now := by
          intro h
          rw [hs.now]
          rcases h with rfl | rfl <;> exact hdue.2
        rcases hopen with (h | h) | (h | h)
        · exact hold (.inl h)
        · exact hcases (.inl h)
        · exact hold (.inr h)
        · exact hcases (.inr h)
      · simp only [serversAfter, Function.update_of_ne hij] at hopen
        exact hold hopen
  | _ =>
      exact hold hopen

theorem Booted.queued_step (hw : Booted C w) (hr : Reachable C G w) {e : Event}
    {rest : List Event} (hs : StepSpec C c w w' e rest) :
    ∀ i, (w'.traces i).queued ≠ [] → C.startTime + 10 ≤ w'.now := by
  have hdue := hw.due _ (mem_of_pop hs.pop)
  have hnow := (now_le_of_mem_events hr e (mem_of_pop hs.pop)).trans_eq hs.now.symm
  intro i hq
  rcases e with ⟨now, action⟩
  have hold : (w.traces i).queued ≠ [] → C.startTime + 10 ≤ w'.now :=
    fun h => (hw.queued i h).trans hnow
  cases action with
  | server j task =>
      by_cases hij : i = j
      · subst hij
        rw [hs.traces_server, Server.run_trace, Trace.queued, List.filterMap_append] at hq
        have hnew := newRecords_queued (C := C) (i := i) now task (w.servers i)
        cases task with
        | createProposalFromRequest r =>
            rw [hs.now]
            exact hdue.2
        | _ =>
            rw [Trace.queued] at hnew
            rw [hnew, List.append_nil] at hq
            exact hold hq
      · refine hold ?_
        simpa [World.traces, hs.servers, serversAfter, Function.update_of_ne hij] using hq
  | _ =>
      refine hold ?_
      simpa [World.traces, hs.servers, serversAfter] using hq

theorem booted (hr : Reachable C G w) : Booted C w := by
  refine Transition.Reachable.invariant (P := Booted C) Booted.init ?_ hr
  intro w c w' hr hw _ hstep
  rcases step_spec hstep with ⟨e, rest, hs⟩
  exact ⟨hw.due_step hr hs, hw.idle_step hs, hw.bound_step hs, hw.opened_step hr hs,
    hw.queued_step hr hs⟩

/-- Once anything has been proposed, every server of the cluster can receive. -/
theorem recvSocket_of_proposed (hr : Reachable C G w) {i j : ℕ}
    (hp : (w.traces j).proposed ≠ []) (hi : i < C.numNodes) :
    (w.servers i).recvSocket = true := by
  have hw := booted hr
  have hqueued : (w.traces j).queued ≠ [] := by
    intro hnil
    have hqueue := (ledger hr j).queue
    rw [World.traces] at hp hnil
    rw [hnil] at hqueue
    simp at hqueue
    exact hp (by simpa using hqueue.1)
  have hlate := hw.queued j hqueued
  -- The start event cannot be pending any more: it was due ten nanoseconds earlier.
  rcases hw.bound i hi with h | h
  · exact h
  · have hle := now_le_of_mem_events hr _ h
    dsimp only at hle
    lia

end Booted

end SyncPaxos
