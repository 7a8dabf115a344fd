import Mathlib.Algebra.BigOperators.Group.Finset.Basic
import Mathlib.Algebra.Order.BigOperators.Group.List
import SyncPaxos.Run.Rotation
import SyncPaxos.Timing.Slots

/-!
# Cost — what the events to come can amount to

Every pending event has a cost: one for itself, and what it takes to pay for everything it can lead
to.  A packet that may be copied at each of the `H` links of its route costs three times as much
for each link ahead.  The costs of the message types build on each other, in the order in which the
messages answer each other; a request that waits to be proposed is paid for with the call that
queued it, and a loop pays with the time that is left before it stops.

`run_cost` says that a call pays for what it schedules, if the propose loop has a positive period.
-/

namespace SyncPaxos

open DiscreteEvent

/-! ## Costs -/

section Cost

variable (C : Cluster) (H : ℕ)

/-- The cost of a packet that has crossed `hop` links and whose arrival costs `arrival`. -/
def packetCost (arrival hop : ℕ) : ℕ := (arrival + 1) * 3 ^ (H - hop)

/-- A DECISION_ACK may start the poll of the leader again. -/
def ackCost : ℕ := C.stopTime + 2

/-- A DECISION is answered by a DECISION_ACK. -/
def decisionCost : ℕ := packetCost H (ackCost C) 0 + 1

/-- An ACCEPT may make its proposer broadcast a DECISION. -/
def acceptCost : ℕ := C.numNodes * packetCost H (decisionCost C H) 0 + 1

/-- The call that sends an ACCEPT. -/
def answerCost : ℕ := packetCost H (acceptCost C H) 0 + 1

/-- A PROPOSAL is answered by an ACCEPT. -/
def proposalCost : ℕ := answerCost C H + 1

/-- A proposal that waits is to be broadcast. -/
def waitingCost : ℕ := C.numNodes * packetCost H (proposalCost C H) 0

/-- A request that arrives becomes a waiting proposal. -/
def creationCost : ℕ := waitingCost C H + 1

def PaxosFrame.cost (f : PaxosFrame) : ℕ :=
  if f.isProposal then proposalCost C H
  else if f.isAccept then acceptCost C H
  else if f.isDecision then decisionCost C H
  else ackCost C

def Payload.cost : Payload → ℕ
  | .request _ => creationCost C H
  | .paxos f => f.cost C H

def Task.cost (ts : Time) : Task → ℕ
  | .startApplication => C.stopTime + 5
  | .startProposerThread => C.stopTime + 2
  | .stopApplication | .startListenerThread | .startAcceptorThread => 1
  | .createProposalFromRequest _ => creationCost C H
  | .doSyncPropose | .doAsyncPropose => C.stopTime - ts + 1
  | .doReceivedProposalMessage _ => proposalCost C H
  | .sendAcceptMessage _ => answerCost C H
  | .doReceivedAcceptMessage _ => acceptCost C H
  | .doReceivedDecisionMessage _ => decisionCost C H
  | .doReceivedDecisionAckMessage _ => ackCost C

/-- What the event and everything it can lead to cost. -/
def eventCost (e : Event) : ℕ :=
  match e.action with
  | .server _ task => task.cost C H e.ts
  | .clientStart _ | .sendRequest _ =>
      (packetCost H (creationCost C H) 0 + 1) * (C.clientStopTime - e.ts) + 1
  | .transit packet hop => packetCost H (packet.payload.cost C H) hop

def eventsCost (es : List Event) : ℕ := (es.map (eventCost C H)).sum

/-- What the rest of a run can cost. -/
def World.cost (w : World) : ℕ :=
  eventsCost C H w.events +
    waitingCost C H * ∑ i ∈ Finset.range C.numNodes, (w.servers i).waitingProposals.length

end Cost

/-! ## A call of a server -/

section Call

variable {C : Cluster} {H i : ℕ} {now : Time} {s : Server} {task : Task} {f : PaxosFrame}

@[simp] theorem eventsCost_nil : eventsCost C H [] = 0 := rfl

@[simp] theorem eventsCost_cons (e : Event) (es : List Event) :
    eventsCost C H (e :: es) = eventCost C H e + eventsCost C H es := by
  simp [eventsCost]

@[simp] theorem eventsCost_append (es es' : List Event) :
    eventsCost C H (es ++ es') = eventsCost C H es + eventsCost C H es' := by
  simp [eventsCost]

theorem eventsCost_perm {es es' : List Event} (h : es.Perm es') :
    eventsCost C H es = eventsCost C H es' :=
  (h.map _).sum_eq

theorem broadcast_cost (C : Cluster) (H i : ℕ) (now : Time) (f : PaxosFrame) :
    eventsCost C H (broadcast C i now f) ≤ C.numNodes * packetCost H (f.cost C H) 0 := by
  have hcard : (C.nodes.filter (fun serverId => serverId ≠ i)).length ≤ C.numNodes := by
    calc (C.nodes.filter (fun serverId => serverId ≠ i)).length ≤ C.nodes.length :=
          List.length_filter_le _ _
      _ = C.numNodes := List.length_range
  have hconst : eventsCost C H (broadcast C i now f) =
      (C.nodes.filter (fun serverId => serverId ≠ i)).length * packetCost H (f.cost C H) 0 := by
    have hcosts : (eventCost C H ∘ sendTo i now f) = fun _ => packetCost H (f.cost C H) 0 := rfl
    rw [eventsCost, broadcast, List.map_map, hcosts, List.map_const', List.sum_replicate,
      Nat.nsmul_eq_mul]
  rw [hconst]
  exact Nat.mul_le_mul_right _ hcard

/-- A PROPOSAL is paid for by the waiting proposal it is made of. -/
theorem proposal_cost (C : Cluster) (H i : ℕ) (now : Time) (p : Proposal) (rest : List Proposal) :
    eventsCost C H (broadcast C i now (proposalFrame i now p)) + waitingCost C H * rest.length ≤
      waitingCost C H * (p :: rest).length := by
  have hbroadcast := broadcast_cost C H i now (proposalFrame i now p)
  have hcost : (proposalFrame i now p).cost C H = proposalCost C H := rfl
  rw [hcost] at hbroadcast
  rw [List.length_cons, Nat.mul_succ, Nat.add_comm]
  exact Nat.add_le_add_left hbroadcast _

theorem doPropose_cost (C : Cluster) (H i : ℕ) (now : Time) (s : Server) :
    eventsCost C H (s.doPropose C i now).2.events +
        waitingCost C H * (s.doPropose C i now).2.server.waitingProposals.length ≤
      waitingCost C H * s.waitingProposals.length := by
  rcases Server.doPropose_cases C i now s with ⟨-, h⟩ | ⟨p, rest, hwaiting, h⟩
  · rw [h]
    exact (Nat.zero_add _).le
  · rw [h, hwaiting]
    exact proposal_cost C H i now p rest

/-- The next call of a loop costs less than this one. -/
theorem loop_cost {period : Time} (hperiod : 0 < period) (hstop : now < C.stopTime) :
    C.stopTime - (now + period) + 1 ≤ C.stopTime - now := by
  have hle : now + 1 ≤ now + period := Nat.add_le_add_left hperiod _
  lia

/-- A call of the poll pays with the time that is left. -/
theorem doAsyncPropose_cost (C : Cluster) (H i : ℕ) (now : Time) (s : Server) :
    eventsCost C H (s.doAsyncPropose C i now).events +
        waitingCost C H * (s.doAsyncPropose C i now).server.waitingProposals.length ≤
      waitingCost C H * s.waitingProposals.length + (C.stopTime - now) := by
  rcases Server.doAsyncPropose_cases C i now s with
    ⟨-, h⟩ | ⟨hstop, -, h⟩ | ⟨-, p, rest, hwaiting, h⟩
  · rw [h]
    simp [Server.record]
  · -- The poll comes back a microsecond later.
    have hloop : C.stopTime - (now + 1000) + 1 ≤ C.stopTime - now := loop_cost (by decide) hstop
    rw [h]
    simp only [eventsCost_cons, eventsCost_nil, eventCost, Task.cost, Server.record]
    lia
  · rw [h, hwaiting]
    exact (proposal_cost C H i now p rest).trans (Nat.le_add_right _ _)

/-- A call pays for what it schedules, a slot if its period is positive. -/
theorem run_cost (hperiod : task = .doSyncPropose → now < C.stopTime → 0 < s.proposePeriod) :
    eventsCost C H (Server.run C i now task s).events +
        waitingCost C H * (Server.run C i now task s).server.waitingProposals.length <
      task.cost C H now + waitingCost C H * s.waitingProposals.length := by
  cases task with
  | startApplication =>
      simp only [Server.run, Server.startApplication, eventsCost_cons, eventsCost_nil, eventCost,
        Task.cost]
      lia
  | stopApplication =>
      simp only [Server.run, Server.stopApplication, eventsCost_nil, Task.cost]
      lia
  | startListenerThread =>
      simp only [Server.run, Server.startListenerThread, eventsCost_nil, Task.cost]
      lia
  | startAcceptorThread =>
      simp only [Server.run, Server.startAcceptorThread, eventsCost_nil, Task.cost]
      lia
  | startProposerThread =>
      -- The leader of asynchronous mode, a follower, and a server of synchronous mode.
      rcases Server.startProposerThread_cases C i now s with ⟨-, -, h⟩ | ⟨-, -, h⟩ | ⟨-, h⟩
      · have hpoll := doAsyncPropose_cost C H i now
          { s.record .proposerStarted with leaderState := some .waitingRequest }
        simp only [Server.run, h, Task.cost]
        simp only [Server.record] at hpoll ⊢
        lia
      · simp only [Server.run, h, eventsCost_nil, Task.cost, Server.record]
        lia
      · simp only [Server.run, h, eventsCost_cons, eventsCost_nil, eventCost, Task.cost,
          Server.record]
        lia
  | createProposalFromRequest r =>
      rcases Server.createProposalFromRequest_cases i now r s with ⟨-, h⟩ | ⟨-, h⟩
      · simp only [Server.run, h, eventsCost_nil, Task.cost, creationCost]
        lia
      · simp only [Server.run, h, eventsCost_nil, Task.cost, creationCost, Server.record,
          List.length_append, List.length_singleton, Nat.mul_add]
        lia
  | doSyncPropose =>
      rcases Server.doSyncPropose_cases C i now s with ⟨-, h⟩ | ⟨hstop, h⟩
      · simp only [Server.run, h, eventsCost_nil, Task.cost, Server.record]
        lia
      · -- The waiting proposal pays for the broadcast, and the time that is left for the next slot.
        have hpropose := doPropose_cost C H i now
          (s.record (.syncPropose now))
        have hloop := loop_cost (hperiod rfl hstop) hstop
        simp only [Server.run, h, eventsCost_append, eventsCost_cons, eventsCost_nil, eventCost,
          Task.cost]
        simp only [Server.record] at hpropose ⊢
        lia
  | doAsyncPropose =>
      have hpoll := doAsyncPropose_cost C H i now s
      simp only [Server.run, Task.cost]
      lia
  | doReceivedProposalMessage f =>
      simp only [Server.run, Server.doReceivedProposalMessage, eventsCost_cons, eventsCost_nil,
        eventCost, Task.cost, proposalCost, Server.record]
      lia
  | sendAcceptMessage f =>
      have hcost : (acceptFrame i now f).cost C H = acceptCost C H := rfl
      simp only [Server.run, Server.sendAcceptMessage, eventsCost_cons, eventsCost_nil, sendTo,
        eventCost, Payload.cost, hcost, Task.cost, answerCost, Server.record]
      lia
  | doReceivedAcceptMessage f =>
      have hbroadcast := broadcast_cost C H i now (decisionFrame now f)
      have hcost : (decisionFrame now f).cost C H = decisionCost C H := rfl
      rw [hcost] at hbroadcast
      -- At worst the DECISION is broadcast.
      rcases Server.doReceivedAcceptMessage_cases C i now f s with
        ⟨-, h⟩ | ⟨found, -, -, ⟨-, h⟩ | ⟨-, -, -, h⟩ | ⟨-, -, -, h⟩⟩ <;>
        simp only [Server.run, h, eventsCost_nil, Task.cost, acceptCost, Server.record,
          Server.putProposal, Server.pushDecided, Server.eraseProposal] <;>
        lia
  | doReceivedDecisionMessage f =>
      have hcost : (decisionAckFrame i f).cost C H = ackCost C := rfl
      simp only [Server.run, Server.doReceivedDecisionMessage, Task.cost, decisionCost,
        Server.record, Server.pushDecided]
      -- The DECISION_ACK is sent in asynchronous mode only.
      split
      · simp only [eventsCost_cons, eventsCost_nil, sendTo, eventCost, Payload.cost, hcost]
        lia
      · simp only [eventsCost_nil]
        lia
  | doReceivedDecisionAckMessage f =>
      rcases Server.doReceivedDecisionAckMessage_cases C i now f s with
        ⟨-, h⟩ | ⟨found, -, -, ⟨-, h⟩ | ⟨-, -, h⟩⟩
      · simp only [Server.run, h, eventsCost_nil, Task.cost, ackCost, Server.record]
        lia
      · simp only [Server.run, h, eventsCost_nil, Task.cost, ackCost, Server.record,
          Server.putProposal]
        lia
      · have hpoll := doAsyncPropose_cost C H i now
          (((s.record (.handledDecisionAck f)).pushDecided
            { found.incrementNumDecisionAck with
              decisionAckTime := now }).eraseProposal f.proposalId)
        simp only [Server.run, h, Task.cost, ackCost]
        simp only [Server.record, Server.pushDecided, Server.eraseProposal] at hpoll ⊢
        lia

end Call

/-! ## A step -/

section Step

variable {C : Cluster} {G : World → Choice → Prop} {H : ℕ} {w w' : World} {c : Choice}

theorem receiveMessage_cost {i : ℕ} {now : Time} {f : PaxosFrame} {e : Event}
    (h : Server.receiveMessage i now f = some e) : eventCost C H e = f.cost C H := by
  unfold Server.receiveMessage at h
  unfold PaxosFrame.cost
  split at h
  · cases h
    rw [if_pos (by assumption)]
    rfl
  · split at h
    · cases h
      rw [if_neg (by assumption), if_pos (by assumption)]
      rfl
    · split at h
      · cases h
        rw [if_neg (by assumption), if_neg (by assumption), if_pos (by assumption)]
        rfl
      · split at h
        · cases h
          rw [if_neg (by assumption), if_neg (by assumption), if_neg (by assumption)]
          rfl
        · cases h

/-- What an arrival schedules is paid for by the packet. -/
theorem arrival_cost (now : Time) (packet : Packet) :
    eventsCost C H (arrivalEvents C w now packet) ≤ packet.payload.cost C H := by
  unfold arrivalEvents
  cases packet.payload with
  | request r =>
      simp only [Server.receiveRequest]
      split
      · split
        · exact Nat.zero_le _
        · simp [eventCost, Task.cost, Payload.cost]
      · exact Nat.zero_le _
  | paxos f =>
      simp only
      split
      · cases hrecv : Server.receiveMessage packet.dst now f with
        | none =>
            exact Nat.zero_le _
        | some e =>
            simp [receiveMessage_cost hrecv, Payload.cost]
      · exact Nat.zero_le _

theorem lt_packetCost (arrival hop : ℕ) : arrival < packetCost H arrival hop :=
  Nat.lt_of_lt_of_le (Nat.lt_succ_self _)
    (Nat.le_mul_of_pos_right _ (Nat.pow_pos (by decide)))

/-- One link further a packet costs a third. -/
theorem packetCost_succ {hop : ℕ} (h : hop < H) (arrival : ℕ) :
    packetCost H arrival hop = 3 * packetCost H arrival (hop + 1) := by
  have hsplit : H - hop = H - (hop + 1) + 1 := by omega
  rw [packetCost, packetCost, hsplit, pow_succ]
  ring

/-- A packet pays for what the network makes of it. -/
theorem transit_cost (C : Cluster) (w : World) (now : Time) (packet : Packet) {hop : ℕ}
    (hroute : H ≤ hop → c.fate = .arrive ∨ c.fate = .lose) :
    eventsCost C H (emitted C c w ⟨now, .transit packet hop⟩) <
      packetCost H (packet.payload.cost C H) hop := by
  have hpos := lt_packetCost (H := H) (packet.payload.cost C H) hop
  cases hf : c.fate with
  | arrive =>
      simp only [emitted, hf]
      exact (arrival_cost now packet).trans_lt hpos
  | lose =>
      simp only [emitted, hf, eventsCost_nil]
      exact Nat.zero_lt_of_lt hpos
  | forward d =>
      have hlt : hop < H := by
        by_contra hge
        rcases hroute (not_lt.1 hge) with h | h <;> rw [hf] at h <;> cases h
      -- One third of the cost goes on with the packet.
      have hnext := lt_packetCost (H := H) (packet.payload.cost C H) (hop + 1)
      simp only [emitted, hf, eventsCost_cons, eventsCost_nil, eventCost, packetCost_succ hlt]
      omega
  | duplicate d₁ d₂ =>
      have hlt : hop < H := by
        by_contra hge
        rcases hroute (not_lt.1 hge) with h | h <;> rw [hf] at h <;> cases h
      -- Two thirds go on with the two copies.
      have hnext := lt_packetCost (H := H) (packet.payload.cost C H) (hop + 1)
      simp only [emitted, hf, eventsCost_cons, eventsCost_nil, eventCost, packetCost_succ hlt]
      omega

/-- A client pays with the time that is left. -/
theorem sendRequest_cost (H k value : ℕ) (cl : Client) {now : Time}
    (hinterval : now < C.clientStopTime → 0 < C.sendInterval) :
    eventsCost C H (cl.sendRequest C k now value).2 <
      (packetCost H (creationCost C H) 0 + 1) * (C.clientStopTime - now) + 1 := by
  unfold Client.sendRequest
  split
  · exact Nat.succ_pos _
  · rename_i hlate
    have hstop : now < C.clientStopTime := not_le.1 hlate
    have hleft : C.clientStopTime - (now + C.sendInterval) + 1 ≤ C.clientStopTime - now := by
      have hle : now + 1 ≤ now + C.sendInterval := Nat.add_le_add_left (hinterval hstop) _
      lia
    simp only [eventsCost_cons, eventsCost_nil, eventCost, Client.requestPacket, Payload.cost]
    calc packetCost H (creationCost C H) 0 +
          ((packetCost H (creationCost C H) 0 + 1) * (C.clientStopTime - (now + C.sendInterval)) +
            1 + 0)
        = (packetCost H (creationCost C H) 0 + 1) *
            (C.clientStopTime - (now + C.sendInterval) + 1) := by ring
      _ ≤ (packetCost H (creationCost C H) 0 + 1) * (C.clientStopTime - now) :=
          Nat.mul_le_mul_left _ hleft
      _ < (packetCost H (creationCost C H) 0 + 1) * (C.clientStopTime - now) + 1 :=
          Nat.lt_succ_self _

theorem sum_waiting_update {i : ℕ} (hi : i < C.numNodes) (servers : ℕ → Server) (s : Server) :
    (∑ j ∈ Finset.range C.numNodes, (Function.update servers i s j).waitingProposals.length) +
        (servers i).waitingProposals.length =
      (∑ j ∈ Finset.range C.numNodes, (servers j).waitingProposals.length) +
        s.waitingProposals.length := by
  have hmem : i ∈ Finset.range C.numNodes := Finset.mem_range.2 hi
  have hothers : ∑ j ∈ (Finset.range C.numNodes).erase i,
      (Function.update servers i s j).waitingProposals.length =
        ∑ j ∈ (Finset.range C.numNodes).erase i, (servers j).waitingProposals.length := by
    refine Finset.sum_congr rfl ?_
    intro j hj
    rw [Function.update_of_ne (Finset.ne_of_mem_erase hj)]
  rw [← Finset.add_sum_erase _ _ hmem, ← Finset.add_sum_erase _ _ hmem, hothers,
    Function.update_self]
  omega

/-- Every step is paid for, if the loops that run have positive periods. -/
theorem StepSpec.cost {e : Event} {rest : List Event} (hs : StepSpec C c w w' e rest)
    (hr : Reachable C G w) (hg : shortRoutes H w c)
    (hslot : ∀ i, e.action = .server i .doSyncPropose → e.ts < C.stopTime →
      0 < (w.servers i).proposePeriod)
    (hclient : ∀ k, e.action.client? = some k → e.ts < C.clientStopTime → 0 < C.sendInterval) :
    w'.cost C H < w.cost C H := by
  have hdue := (booted hr).due e (mem_of_pop hs.pop)
  have hpopped : eventsCost C H w.events = eventCost C H e + eventsCost C H rest := by
    rw [eventsCost_perm (pop_perm hs.pop), eventsCost_cons]
  rw [World.cost, World.cost, hs.events, eventsCost_append, hpopped, hs.servers]
  rcases e with ⟨now, action⟩
  cases action with
  | server i task =>
      have hi : i < C.numNodes := by
        cases task <;> exact hdue.1
      have hperiod : task = .doSyncPropose → now < C.stopTime →
          0 < (w.servers i).proposePeriod := fun htask => hslot i (congrArg _ htask)
      have hrun := run_cost (C := C) (H := H) (i := i) hperiod
      -- Only the queue of this server changes.
      have hsum := sum_waiting_update hi w.servers (Server.run C i now task (w.servers i)).server
      have hmul := congrArg (waitingCost C H * ·) hsum
      simp only [Nat.mul_add] at hmul
      simp only [serversAfter, emitted, eventCost]
      omega
  | clientStart k =>
      have hinterval : now < C.clientStopTime → 0 < C.sendInterval := hclient k rfl
      have hsend := sendRequest_cost H k c.value (w.clients k) hinterval
      simp only [serversAfter, emitted, eventCost]
      omega
  | sendRequest k =>
      have hinterval : now < C.clientStopTime → 0 < C.sendInterval := hclient k rfl
      have hsend := sendRequest_cost H k c.value (w.clients k) hinterval
      simp only [serversAfter, emitted, eventCost]
      omega
  | transit packet hop =>
      have hroute : H ≤ hop → c.fate = .arrive ∨ c.fate = .lose := by
        unfold shortRoutes at hg
        rw [hs.pop] at hg
        exact hg
      have hcost := transit_cost C w now packet hroute
      simp only [serversAfter, eventCost]
      omega

end Step

end SyncPaxos
