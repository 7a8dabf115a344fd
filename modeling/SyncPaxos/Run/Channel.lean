import SyncPaxos.Run.Boot

/-!
# Channel — frames are conserved between records

A frame goes from a line of its sender's record into the network, and from the network to its
destination:

* `sent_channel`: what was sent on a channel is what the sender's record says, in this order;
* `transit_le`, `transit_ge`: what arrived and what travels was sent, if the network does not copy,
  and is all that was sent, if the network does not lose.
-/

namespace SyncPaxos

open DiscreteEvent

/-! ## Views of packets, events and records -/

/-- A Paxos frame for server `j`. -/
def Packet.paxosTo? (j : ℕ) (packet : Packet) : Option PaxosFrame :=
  if packet.dst = j then packet.paxos? else none

/-- A Paxos frame from server `i` for server `j`. -/
def Packet.channel? (i j : ℕ) (packet : Packet) : Option PaxosFrame :=
  if packet.src = .server i then packet.paxosTo? j else none

/-- A request for server `j`. -/
def Packet.requestTo? (j : ℕ) (packet : Packet) : Option RequestFrame :=
  if packet.dst = j then packet.request? else none

/-- The calls of server `i` that `g` selects. -/
def Callback.atServer {β : Type} (i : ℕ) (g : Task → Option β) : Callback → Option β
  | .server j task => if j = i then g task else none
  | _ => none

/-- The packet that an event carries. -/
def Callback.transit? : Callback → Option Packet
  | .transit packet _ => some packet
  | _ => none

/-- The frame that waits to be answered by an ACCEPT. -/
@[simp] def Task.answering? : Task → Option PaxosFrame
  | .sendAcceptMessage f => some f
  | _ => none

/-- The request that waits to be queued. -/
@[simp] def Task.creating? : Task → Option RequestFrame
  | .createProposalFromRequest r => some r
  | _ => none

/-- The frame that a line says was handled. -/
@[simp] def Record.handled? : Record → Option PaxosFrame
  | .handledProposal f => some f
  | .handledAccept f => some f
  | .handledDecision f => some f
  | .handledDecisionAck f => some f
  | _ => none

/-- The frame that went to server `j` with a line of server `i`. -/
def Record.frameTo? (C : Cluster) (i j : ℕ) : Record → Option PaxosFrame
  | .proposed f => if j ≠ i ∧ j < C.numNodes then some f else none
  | .acceptSent f => if f.proposerId = j then some f else none
  | .decision f => if j ≠ i ∧ j < C.numNodes then some f else none
  | .handledDecision f =>
      if C.async = true ∧ f.proposerId = j then some (decisionAckFrame i f) else none
  | _ => none

/-- The server that sent a frame. -/
def PaxosFrame.sender (f : PaxosFrame) : ℕ :=
  if f.isAccept then f.acceptorId else f.proposerId

namespace World

/-- The calls of server `i` that `g` selects and that are pending. -/
def pending {β : Type} (w : World) (i : ℕ) (g : Task → Option β) : List β :=
  w.events.filterMap (fun e => e.action.atServer i g)

/-- The packets in the network. -/
def inTransit (w : World) : List Packet := w.events.filterMap (fun e => e.action.transit?)

/-- The frames that server `i` sent to server `j`. -/
def sentOn (w : World) (i j : ℕ) : List PaxosFrame := w.sent.filterMap (Packet.channel? i j)

/-- The frames from server `i` that arrived at server `j`. -/
def arrivedOn (w : World) (i j : ℕ) : List PaxosFrame := w.arrived.filterMap (Packet.channel? i j)

end World

/-! ## What a call schedules -/

section Run

variable {C : Cluster} {i j : ℕ} {now : Time} {s : Server} {task : Task} {β : Type}
  {g : Task → Option β}

theorem sendsOf_atServer (r : Record) :
    (sendsOf C i now r).filterMap (fun e => e.action.atServer j g) = [] := by
  refine List.filterMap_eq_nil_iff.2 ?_
  intro e he
  rcases mem_sendsOf he with ⟨f, dst, rfl⟩
  rfl

theorem run_atServer :
    (Server.run C i now task s).events.filterMap (fun e => e.action.atServer j g) =
      (Server.newTasks C i now task s).filterMap (fun e => e.action.atServer j g) := by
  rw [Server.run_events, List.filterMap_append, List.filterMap_flatMap]
  simp [sendsOf_atServer]

/-- A class of calls that a server does not schedule for itself. -/
theorem newTasks_atServer_eq_nil (hg : ∀ t, g t ≠ none →
      t.received? ≠ none ∨ t.creating? ≠ none) :
    (Server.newTasks C i now task s).filterMap (fun e => e.action.atServer j g) = [] := by
  refine List.filterMap_eq_nil_iff.2 ?_
  intro e he
  rcases Server.mem_newTasks C i now he with ⟨t, ht, hcases⟩
  have hnone : g t = none := by
    by_contra hne
    have := hg t hne
    rcases hcases with rfl | rfl | rfl | rfl | rfl | ⟨f, rfl⟩ <;> simp at this
  simp [ht, Callback.atServer, hnone]

theorem newTasks_answering :
    (Server.newTasks C i now task s).filterMap (fun e => e.action.atServer j Task.answering?) =
      match task with
      | .doReceivedProposalMessage f =>
          if i = j then [{ f with acceptorId := i, acceptTime := now }] else []
      | _ => [] := by
  have hasync : (s.asyncProposeTasks C i now).filterMap
      (fun e => e.action.atServer j Task.answering?) = [] := by
    unfold Server.asyncProposeTasks
    split
    · rfl
    · split <;> simp [Callback.atServer]
  cases task with
  | startApplication =>
      simp [Server.newTasks, Callback.atServer]
  | startProposerThread =>
      simp only [Server.newTasks]
      split
      · split
        · exact hasync
        · rfl
      · simp [Callback.atServer]
  | doSyncPropose =>
      simp only [Server.newTasks]
      split <;> simp [Callback.atServer]
  | doAsyncPropose =>
      exact hasync
  | doReceivedProposalMessage f =>
      by_cases hij : i = j <;> simp [Server.newTasks, Callback.atServer, hij]
  | doReceivedDecisionAckMessage f =>
      simp only [Server.newTasks]
      split
      · rfl
      · exact hasync
  | _ =>
      rfl

/-- A call writes that it handled the frame it was called with. -/
theorem newRecords_handled :
    (Server.newRecords C i now task s).filterMap Record.handled? = task.received?.toList := by
  rw [newRecords_filterMap]
  · cases task <;> rfl
  · intro r hr
    cases r <;> simp [Record.IsLine] at hr ⊢

end Run

/-! ## From a record to the network -/

section Sent

variable {C : Cluster} {G : World → Choice → Prop} {w w' : World} {c : Choice} {i j k : ℕ}

theorem broadcast_channel {now : Time} {f : PaxosFrame} :
    ((broadcast C i now f).filterMap (fun e => e.action.sentPacket?)).filterMap
        (Packet.channel? i j) = if j ≠ i ∧ j < C.numNodes then [f] else [] := by
  have hfilter : ((broadcast C i now f).filterMap (fun e => e.action.sentPacket?)).filterMap
      (Packet.channel? i j) =
        ((C.nodes.filter (fun serverId => serverId ≠ i)).filter (fun a => a = j)).map
          (fun _ => f) := by
    unfold broadcast
    induction C.nodes.filter (fun serverId => serverId ≠ i) with
    | nil =>
        rfl
    | cons a l ih =>
        rw [List.filterMap_filterMap] at ih ⊢
        by_cases ha : a = j <;>
          simp [sendTo, Callback.sentPacket?, Packet.channel?, Packet.paxosTo?, Packet.paxos?,
            ha] at ih ⊢ <;> exact ih
  rw [hfilter, List.filter_eq, List.map_replicate]
  -- A server is on the list of destinations at most once.
  have hnodup : (C.nodes.filter (fun serverId => serverId ≠ i)).Nodup :=
    List.nodup_range.filter _
  by_cases hj : j ≠ i ∧ j < C.numNodes
  · have hmem : j ∈ C.nodes.filter (fun serverId => serverId ≠ i) := by
      simpa [Cluster.nodes, and_comm] using hj
    rw [List.count_eq_one_of_mem hnodup hmem]
    simp [hj]
  · have hmem : j ∉ C.nodes.filter (fun serverId => serverId ≠ i) := by
      simpa [Cluster.nodes, and_comm] using hj
    rw [List.count_eq_zero_of_not_mem hmem]
    simp [hj]

theorem sendsOf_channel {now : Time} (r : Record) :
    ((sendsOf C i now r).filterMap (fun e => e.action.sentPacket?)).filterMap
        (Packet.channel? i j) = (r.frameTo? C i j).toList := by
  cases r with
  | proposed f =>
      simp only [sendsOf, Record.frameTo?, broadcast_channel]
      split <;> rfl
  | acceptSent f =>
      by_cases hf : f.proposerId = j <;>
        simp [sendsOf, Record.frameTo?, sendTo, Callback.sentPacket?, Packet.channel?,
          Packet.paxosTo?, Packet.paxos?, hf]
  | decision f =>
      simp only [sendsOf, Record.frameTo?, broadcast_channel]
      split <;> rfl
  | handledDecision f =>
      by_cases ha : C.async = true <;> by_cases hf : f.proposerId = j <;>
        simp [sendsOf, Record.frameTo?, sendTo, Callback.sentPacket?, Packet.channel?,
          Packet.paxosTo?, Packet.paxos?, hf, ha]
  | _ =>
      rfl

theorem newTasks_sent {now : Time} {task : Task} {s : Server} :
    (Server.newTasks C i now task s).filterMap (fun e => e.action.sentPacket?) = [] := by
  refine List.filterMap_eq_nil_iff.2 ?_
  intro e he
  rcases Server.mem_newTasks C i now he with ⟨t, ht, -⟩
  rw [ht]
  rfl

/-- The frames a call of server `k` sends from `i` to `j`. -/
theorem run_channel (now : Time) (task : Task) (s : Server) :
    ((Server.run C k now task s).events.filterMap (fun e => e.action.sentPacket?)).filterMap
        (Packet.channel? i j) =
      if k = i then (Server.newRecords C i now task s).filterMap (Record.frameTo? C i j)
      else [] := by
  rw [Server.run_events, List.filterMap_append, newTasks_sent, List.append_nil]
  by_cases hki : k = i
  · subst hki
    rw [if_pos rfl]
    induction Server.newRecords C k now task s with
    | nil =>
        rfl
    | cons r l ih =>
        rw [List.flatMap_cons, List.filterMap_append, List.filterMap_append, ih, sendsOf_channel,
          List.filterMap_cons]
        cases r.frameTo? C k j <;> rfl
  · -- A server sends under its own address only.
    rw [if_neg hki]
    refine List.filterMap_eq_nil_iff.2 ?_
    intro packet hp
    rcases List.mem_filterMap.1 hp with ⟨e, he, hsome⟩
    rcases List.mem_flatMap.1 he with ⟨r, -, hr⟩
    rcases mem_sendsOf hr with ⟨f, dst, rfl⟩
    obtain rfl : (⟨.server k, dst, .paxos f, now⟩ : Packet) = packet := Option.some.inj hsome
    simp [Packet.channel?, hki]

theorem sendRequest_channel {now : Time} {value : ℕ} {cl : Client} :
    ((cl.sendRequest C k now value).2.filterMap (fun e => e.action.sentPacket?)).filterMap
        (Packet.channel? i j) = [] := by
  unfold Client.sendRequest
  split
  · rfl
  · simp [Callback.sentPacket?, Client.requestPacket, Packet.channel?]

theorem arrivalEvents_sent {now : Time} {packet : Packet} :
    (arrivalEvents C w now packet).filterMap (fun e => e.action.sentPacket?) = [] := by
  refine List.filterMap_eq_nil_iff.2 ?_
  intro e he
  rcases mem_arrivalEvents he with ⟨r, -, -, -, rfl⟩ | ⟨f, task, -, -, -, rfl⟩ <;> rfl

/-- The network sends nothing of its own. -/
theorem emitted_transit_sent {now : Time} {packet : Packet} {hop : ℕ} :
    (emitted C c w ⟨now, .transit packet hop⟩).filterMap (fun e => e.action.sentPacket?) = [] := by
  simp only [emitted]
  split
  · exact arrivalEvents_sent
  · rfl
  · rfl
  · rfl

/-- A packet that a step sends goes with a line of a server's record, or is a client's request. -/
theorem mem_emitted_sent {e x : Event} {packet : Packet} (hx : x ∈ emitted C c w e)
    (hp : x.action.sentPacket? = some packet) :
    (∃ i task r, e.action = .server i task ∧ r ∈ Server.newRecords C i e.ts task (w.servers i) ∧
        x ∈ sendsOf C i e.ts r) ∨
      ∃ k, (e.action = .clientStart k ∨ e.action = .sendRequest k) ∧
        packet = (w.clients k).requestPacket C k e.ts c.value := by
  rcases e with ⟨now, action⟩
  have hclient : ∀ k, x ∈ ((w.clients k).sendRequest C k now c.value).2 →
      packet = (w.clients k).requestPacket C k now c.value := by
    intro k hx
    rcases mem_sendRequest hx with rfl | rfl
    · exact (Option.some.inj hp).symm
    · cases hp
  cases action with
  | server i task =>
      left
      simp only [emitted] at hx
      rw [Server.run_events] at hx
      rcases List.mem_append.1 hx with hx | hx
      · rcases List.mem_flatMap.1 hx with ⟨r, hr, hsend⟩
        exact ⟨i, task, r, rfl, hr, hsend⟩
      · rcases Server.mem_newTasks C i now hx with ⟨t, ht, -⟩
        rw [ht] at hp
        cases hp
  | clientStart k =>
      exact .inr ⟨k, .inl rfl, hclient k hx⟩
  | sendRequest k =>
      exact .inr ⟨k, .inr rfl, hclient k hx⟩
  | transit packet' hop =>
      have hmem : packet ∈ (emitted C c w ⟨now, .transit packet' hop⟩).filterMap
          (fun e => e.action.sentPacket?) := List.mem_filterMap.2 ⟨x, hx, hp⟩
      rw [emitted_transit_sent] at hmem
      cases hmem

/-- What was sent from `i` to `j` is what the record of `i` says. -/
theorem sent_channel (hr : Reachable C G w) (i j : ℕ) :
    w.sentOn i j = (w.traces i).filterMap (Record.frameTo? C i j) := by
  refine Transition.Reachable.invariant
    (P := fun w => w.sentOn i j = (w.traces i).filterMap (Record.frameTo? C i j)) rfl ?_ hr
  intro w c w' _ hbal _ hstep
  rcases step_spec hstep with ⟨e, rest, hs⟩
  rcases e with ⟨now, action⟩
  have hsent : w'.sentOn i j = w.sentOn i j ++
      ((emitted C c w ⟨now, action⟩).filterMap (fun e => e.action.sentPacket?)).filterMap
        (Packet.channel? i j) := by
    rw [World.sentOn, hs.sent, List.filterMap_append, World.sentOn]
  have hquiet : ((emitted C c w ⟨now, action⟩).filterMap
      (fun e => e.action.sentPacket?)).filterMap (Packet.channel? i j) = [] →
      w'.traces i = w.traces i →
      w'.sentOn i j = (w'.traces i).filterMap (Record.frameTo? C i j) := by
    intro hnil htr
    rw [hsent, hnil, List.append_nil, htr, hbal]
  cases action with
  | server k task =>
      by_cases hki : k = i
      · subst hki
        rw [hsent, hs.traces_server, Server.run_trace, List.filterMap_append, hbal]
        have hrun := run_channel (C := C) (i := k) (j := j) (k := k) now task (w.servers k)
        rw [if_pos rfl] at hrun
        rw [← hrun]
        rfl
      · refine hquiet ?_ ?_
        · exact (run_channel _ _ _).trans (if_neg hki)
        · simp [World.traces, hs.servers, serversAfter, Function.update_of_ne (Ne.symm hki)]
  | clientStart k =>
      exact hquiet sendRequest_channel (by simp [World.traces, hs.servers, serversAfter])
  | sendRequest k =>
      exact hquiet sendRequest_channel (by simp [World.traces, hs.servers, serversAfter])
  | transit packet hop =>
      refine hquiet ?_ (by simp [World.traces, hs.servers, serversAfter])
      rw [emitted_transit_sent]
      rfl

end Sent

/-! ## Through the network -/

section Transit

variable {C : Cluster} {G : World → Choice → Prop} {w w' : World} {c : Choice}

theorem onTransit_of_pop {N : World → Packet → Time → Fate → Prop} {packet : Packet} {hop : ℕ}
    {now : Time} {rest : List Event}
    (hpop : pop w.events = some (⟨now, .transit packet hop⟩, rest)) (h : onTransit N w c) :
    N w packet now c.fate := by
  simpa [onTransit, hpop] using h

/-- A rule for packets may be weakened. -/
theorem onTransit_mono {N N' : World → Packet → Time → Fate → Prop}
    (hN : ∀ w p t fate, N w p t fate → N' w p t fate) (h : onTransit N w c) : onTransit N' w c := by
  unfold onTransit at h ⊢
  split
  · rename_i now packet hop rest hpop
    rw [hpop] at h
    exact hN _ _ _ _ h
  · trivial

/-- The packets that an event puts back into the network. -/
def returned (c : Choice) (e : Event) : List Packet :=
  match e.action, c.fate with
  | .transit packet _, .forward _ => [packet]
  | .transit packet _, .duplicate _ _ => [packet, packet]
  | _, _ => []

theorem run_transit {i : ℕ} {now : Time} {task : Task} {s : Server} :
    (Server.run C i now task s).events.filterMap (fun e => e.action.transit?) =
      (Server.run C i now task s).events.filterMap (fun e => e.action.sentPacket?) := by
  refine List.filterMap_congr ?_
  intro e he
  rw [Server.run_events] at he
  rcases List.mem_append.1 he with he | he
  · rcases List.mem_flatMap.1 he with ⟨r, -, hr⟩
    rcases mem_sendsOf hr with ⟨f, dst, rfl⟩
    rfl
  · rcases Server.mem_newTasks C i now he with ⟨t, ht, -⟩
    rw [ht]
    rfl

theorem sendRequest_transit {k : ℕ} {now : Time} {value : ℕ} {cl : Client} :
    (cl.sendRequest C k now value).2.filterMap (fun e => e.action.transit?) =
      (cl.sendRequest C k now value).2.filterMap (fun e => e.action.sentPacket?) := by
  unfold Client.sendRequest
  split <;> rfl

theorem arrivalEvents_transit {now : Time} {packet : Packet} :
    (arrivalEvents C w now packet).filterMap (fun e => e.action.transit?) = [] := by
  refine List.filterMap_eq_nil_iff.2 ?_
  intro e he
  rcases mem_arrivalEvents he with ⟨r, -, -, -, rfl⟩ | ⟨f, task, -, -, -, rfl⟩ <;> rfl

/-- A packet in a step's new events was just sent, or comes back. -/
theorem emitted_transit (e : Event) :
    (emitted C c w e).filterMap (fun e => e.action.transit?) =
      returned c e ++ (emitted C c w e).filterMap (fun e => e.action.sentPacket?) := by
  rcases e with ⟨now, action⟩
  cases action with
  | server i task =>
      exact run_transit
  | clientStart k =>
      exact sendRequest_transit
  | sendRequest k =>
      exact sendRequest_transit
  | transit packet hop =>
      cases hf : c.fate with
      | arrive =>
          simp [emitted, returned, hf, arrivalEvents_transit, arrivalEvents_sent]
      | forward d =>
          simp [emitted, returned, hf, Callback.transit?, Callback.sentPacket?]
      | duplicate d₁ d₂ =>
          simp [emitted, returned, hf, Callback.transit?, Callback.sentPacket?]
      | lose =>
          simp [emitted, returned, hf]

/-- The packets of a class in the network, before and after a step. -/
theorem StepSpec.inTransit_countP {e : Event} {rest : List Event} (hs : StepSpec C c w w' e rest)
    (P : Packet → Bool) :
    w'.inTransit.countP P + e.action.transit?.toList.countP P + w.sent.countP P =
      w.inTransit.countP P + (returned c e).countP P + w'.sent.countP P := by
  -- Before the step: the packet that runs, and those that stay.
  have hold : w.inTransit.countP P =
      (e.action.transit?.toList ++ rest.filterMap (fun e => e.action.transit?)).countP P := by
    rw [World.inTransit, ((pop_perm hs.pop).filterMap _).countP_eq P, List.filterMap_cons]
    cases e.action.transit? <;> rfl
  -- After it: those that stayed, those that come back, and those just sent.
  have hnew : w'.inTransit.countP P = (rest.filterMap (fun e => e.action.transit?)).countP P +
      ((returned c e).countP P +
        ((emitted C c w e).filterMap (fun e => e.action.sentPacket?)).countP P) := by
    rw [World.inTransit, hs.events, List.filterMap_append, List.countP_append, emitted_transit,
      List.countP_append]
  rw [hs.sent, List.countP_append, hold, hnew, List.countP_append]
  omega

theorem init_inTransit : (World.init C).inTransit = [] := by
  refine List.filterMap_eq_nil_iff.2 ?_
  intro e he
  rcases mem_init_events he with ⟨k, -, rfl⟩ | ⟨i, -, rfl⟩ | ⟨i, -, rfl⟩ <;> rfl

/-- Without copies of a class of packets, what arrived or travels was sent as often. -/
theorem transit_le {P : Packet → Bool}
    (hG : ∀ w c, G w c → onTransit (fun _ p _ fate => P p = true → fate.isCopy = false) w c)
    (hr : Reachable C G w) :
    w.arrived.countP P + w.inTransit.countP P ≤ w.sent.countP P := by
  refine Transition.Reachable.invariant
    (P := fun w => w.arrived.countP P + w.inTransit.countP P ≤ w.sent.countP P) ?_ ?_ hr
  · change [].countP P + (World.init C).inTransit.countP P ≤ [].countP P
    simp [init_inTransit]
  · intro w c w' _ hle hg hstep
    rcases step_spec hstep with ⟨e, rest, hs⟩
    have hcount := hs.inTransit_countP P
    -- Only a copy makes more than one packet of one.
    have hturn : (taken c e).countP P + (returned c e).countP P ≤
        e.action.transit?.toList.countP P := by
      rcases e with ⟨now, action⟩
      cases action with
      | transit packet hop =>
          have hcopy := onTransit_of_pop hs.pop (hG w c hg)
          by_cases hP : P packet = true
          · have := hcopy hP
            cases hf : c.fate <;> simp [hf, Fate.isCopy] at this <;>
              simp [taken, returned, hf, Callback.transit?]
          · cases hf : c.fate <;> simp [taken, returned, hf, Callback.transit?, hP]
      | _ =>
          simp [taken, returned, Callback.transit?]
    rw [hs.arrived, List.countP_append]
    omega

/-- Without losses of a class of packets, what was sent arrived or travels. -/
theorem transit_ge {P : Packet → Bool}
    (hG : ∀ w c, G w c → onTransit (fun _ p _ fate => P p = true → fate.isLoss = false) w c)
    (hr : Reachable C G w) :
    w.sent.countP P ≤ w.arrived.countP P + w.inTransit.countP P := by
  refine Transition.Reachable.invariant
    (P := fun w => w.sent.countP P ≤ w.arrived.countP P + w.inTransit.countP P) ?_ ?_ hr
  · exact Nat.zero_le _
  · intro w c w' _ hle hg hstep
    rcases step_spec hstep with ⟨e, rest, hs⟩
    have hcount := hs.inTransit_countP P
    -- Only a loss makes none of one.
    have hturn : e.action.transit?.toList.countP P ≤
        (taken c e).countP P + (returned c e).countP P := by
      rcases e with ⟨now, action⟩
      cases action with
      | transit packet hop =>
          have hkeep := onTransit_of_pop hs.pop (hG w c hg)
          by_cases hP : P packet = true
          · have := hkeep hP
            cases hf : c.fate <;> simp [hf, Fate.isLoss] at this <;>
              simp [taken, returned, hf, Callback.transit?, hP]
          · cases hf : c.fate <;> simp [taken, returned, hf, Callback.transit?, hP]
      | _ =>
          simp [taken, returned, Callback.transit?]
    rw [hs.arrived, List.countP_append]
    omega

/-- A packet that arrived was sent. -/
theorem arrived_subset_sent (hr : Reachable C G w) : w.arrived ⊆ w.sent := by
  refine Transition.Reachable.invariant (P := fun w => w.arrived ⊆ w.sent) ?_ ?_ hr
  · intro packet hp
    cases hp
  · intro w c w' hr hsub _ hstep packet hp
    rcases step_spec hstep with ⟨e, rest, hs⟩
    have hsent := (step_sent_grows hstep).subset
    rw [hs.arrived] at hp
    rcases List.mem_append.1 hp with hp | hp
    · exact hsent (hsub hp)
    · have hj := (sound hr).events e (mem_of_pop hs.pop)
      rcases e with ⟨now, action⟩
      cases action with
      | transit packet' hop =>
          cases hf : c.fate <;> simp [taken, hf] at hp
          subst hp
          exact hsent hj.1
      | _ =>
          simp [taken] at hp

end Transit

end SyncPaxos
