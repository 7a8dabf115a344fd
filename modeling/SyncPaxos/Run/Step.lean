import SyncPaxos.Model.Simulator

/-!
# Step — what one turn of the simulator does

`step_spec` is the one place where `World.step` is unfolded.  It gives each component of the
next state as a function of the event that was popped; every invariant is derived from it.
-/

namespace SyncPaxos

open DiscreteEvent

/-! ## What an event schedules and changes -/

/-- The call that the arrival of a packet schedules. -/
def arrivalEvents (C : Cluster) (w : World) (now : Time) (packet : Packet) : List Event :=
  match packet.payload with
  | .request frame =>
      if (w.servers packet.dst).listenerSocket then
        Server.receiveRequest C packet.dst now frame
      else
        []
  | .paxos frame =>
      if (w.servers packet.dst).recvSocket then
        (Server.receiveMessage packet.dst now frame).toList
      else
        []

/-- The events that the execution of an event schedules. -/
def emitted (C : Cluster) (c : Choice) (w : World) (e : Event) : List Event :=
  match e.action with
  | .server i task => (Server.run C i e.ts task (w.servers i)).events
  | .clientStart k => ((w.clients k).sendRequest C k e.ts c.value).2
  | .sendRequest k => ((w.clients k).sendRequest C k e.ts c.value).2
  | .transit packet hop =>
      match c.fate with
      | .arrive => arrivalEvents C w e.ts packet
      | .forward d => [⟨e.ts + d, .transit packet (hop + 1)⟩]
      | .duplicate d₁ d₂ =>
          [⟨e.ts + d₁, .transit packet (hop + 1)⟩, ⟨e.ts + d₂, .transit packet (hop + 1)⟩]
      | .lose => []

/-- The servers after the execution of an event. -/
def serversAfter (C : Cluster) (w : World) (e : Event) : ℕ → Server :=
  match e.action with
  | .server i task => Function.update w.servers i (Server.run C i e.ts task (w.servers i)).server
  | _ => w.servers

/-- The clients after the execution of an event. -/
def clientsAfter (C : Cluster) (c : Choice) (w : World) (e : Event) : ℕ → Client :=
  match e.action with
  | .clientStart k =>
      Function.update w.clients k ((w.clients k).sendRequest C k e.ts c.value).1
  | .sendRequest k =>
      Function.update w.clients k ((w.clients k).sendRequest C k e.ts c.value).1
  | _ => w.clients

/-- The packets taken out of the network by the execution of an event. -/
def taken (c : Choice) (e : Event) : List Packet :=
  match e.action, c.fate with
  | .transit packet _, .arrive => [packet]
  | _, _ => []

/-- One turn of the simulator, component by component. -/
structure StepSpec (C : Cluster) (c : Choice) (w w' : World) (e : Event)
    (rest : List Event) : Prop where
  pop : pop w.events = some (e, rest)
  now : w'.now = e.ts
  events : w'.events = rest ++ emitted C c w e
  servers : w'.servers = serversAfter C w e
  clients : w'.clients = clientsAfter C c w e
  sent : w'.sent = w.sent ++ (emitted C c w e).filterMap (fun e => e.action.sentPacket?)
  arrived : w'.arrived = w.arrived ++ taken c e

/-- The frame that a receive handler is called with. -/
@[simp] def Task.received? : Task → Option PaxosFrame
  | .doReceivedProposalMessage f => some f
  | .doReceivedAcceptMessage f => some f
  | .doReceivedDecisionMessage f => some f
  | .doReceivedDecisionAckMessage f => some f
  | _ => none

/-- The frame that a call is made with. -/
def Task.frame? : Task → Option PaxosFrame
  | .sendAcceptMessage f => some f
  | task => task.received?

theorem receiveMessage_eq {self : ℕ} {now : Time} {frame : PaxosFrame} {e : Event}
    (h : Server.receiveMessage self now frame = some e) :
    e.ts = now ∧ ∃ task, e.action = .server self task ∧ task.received? = some frame := by
  unfold Server.receiveMessage at h
  split at h
  · cases h
    exact ⟨rfl, _, rfl, rfl⟩
  · split at h
    · cases h
      exact ⟨rfl, _, rfl, rfl⟩
    · split at h
      · cases h
        exact ⟨rfl, _, rfl, rfl⟩
      · split at h
        · cases h
          exact ⟨rfl, _, rfl, rfl⟩
        · cases h

/-- A call that an arrival schedules, and the socket it came through. -/
theorem mem_arrivalEvents {C : Cluster} {w : World} {now : Time} {packet : Packet} {x : Event}
    (hx : x ∈ arrivalEvents C w now packet) :
    (∃ r, packet.payload = .request r ∧ (w.servers packet.dst).listenerSocket = true ∧
        ¬ (C.async = true ∧ packet.dst ≠ Cluster.leader) ∧
        x = ⟨now + 10, .server packet.dst (.createProposalFromRequest r)⟩) ∨
      ∃ f task, packet.payload = .paxos f ∧ (w.servers packet.dst).recvSocket = true ∧
        task.received? = some f ∧ x = ⟨now, .server packet.dst task⟩ := by
  unfold arrivalEvents at hx
  cases hp : packet.payload with
  | request r =>
      simp only [hp] at hx
      split at hx
      · rename_i hl
        unfold Server.receiveRequest at hx
        split at hx
        · cases hx
        · rename_i hlead
          exact .inl ⟨r, rfl, hl, hlead, List.mem_singleton.1 hx⟩
      · cases hx
  | paxos f =>
      simp only [hp] at hx
      split at hx
      · rename_i hl
        rcases receiveMessage_eq (Option.mem_toList.1 hx) with ⟨hts, task, htask, hrecv⟩
        rcases x with ⟨ts, action⟩
        exact .inr ⟨f, task, rfl, hl, hrecv, by simp_all⟩
      · cases hx

/-- The events, the record of packets and the servers after a packet has arrived. -/
theorem arrive_spec (C : Cluster) (w : World) (packet : Packet) :
    (w.arrive C packet).now = w.now ∧
      (w.arrive C packet).events = w.events ++ arrivalEvents C w w.now packet ∧
      (w.arrive C packet).servers = w.servers ∧
      (w.arrive C packet).clients = w.clients ∧
      (w.arrive C packet).sent = w.sent ++
        (arrivalEvents C w w.now packet).filterMap (fun e => e.action.sentPacket?) ∧
      (w.arrive C packet).arrived = w.arrived ++ [packet] := by
  unfold World.arrive arrivalEvents
  cases hp : packet.payload with
  | request frame =>
      by_cases hl : (w.servers packet.dst).listenerSocket = true
      · simp [hl, World.schedule]
      · simp [hl]
  | paxos frame =>
      by_cases hl : (w.servers packet.dst).recvSocket = true
      · cases hm : Server.receiveMessage packet.dst w.now frame with
        | none =>
            simp [hl, hm]
        | some e =>
            simp [hl, hm, World.schedule]
      · simp [hl]

theorem step_spec {C : Cluster} {c : Choice} {w w' : World} (h : World.step C c w = some w') :
    ∃ e rest, StepSpec C c w w' e rest := by
  unfold World.step at h
  split at h
  · cases h
  · split at h
    · cases h
    · rename_i e rest hpop
      have hw : { w with now := e.ts, events := rest }.exec C c e.action = w' :=
        Option.some.inj h
      refine ⟨e, rest, ?_⟩
      subst hw
      rcases e with ⟨ts, action⟩
      cases action with
      | server i task =>
          exact ⟨hpop, rfl, rfl, rfl, rfl, rfl, by simp [World.exec, World.commit, World.schedule, taken]⟩
      | clientStart k =>
          exact ⟨hpop, rfl, rfl, rfl, rfl, rfl,
            by simp [World.exec, World.sendRequest, World.schedule, taken]⟩
      | sendRequest k =>
          exact ⟨hpop, rfl, rfl, rfl, rfl, rfl,
            by simp [World.exec, World.sendRequest, World.schedule, taken]⟩
      | transit packet hop =>
          cases hf : c.fate with
          | arrive =>
              have hspec := arrive_spec C { w with now := ts, events := rest } packet
              rcases hspec with ⟨hnow, hevents, hservers, hclients, hsent, harrived⟩
              refine ⟨hpop, ?_, ?_, ?_, ?_, ?_, ?_⟩
              · simpa [World.exec, World.transit, hf] using hnow
              · simpa [World.exec, World.transit, hf, emitted, arrivalEvents] using hevents
              · simpa [World.exec, World.transit, hf, serversAfter] using hservers
              · simpa [World.exec, World.transit, hf, clientsAfter] using hclients
              · simpa [World.exec, World.transit, hf, emitted, arrivalEvents] using hsent
              · simpa [World.exec, World.transit, hf, taken] using harrived
          | forward d =>
              constructor <;>
                simp [World.exec, World.transit, World.schedule, hf, hpop, emitted, serversAfter,
                  clientsAfter, taken]
          | duplicate d₁ d₂ =>
              constructor <;>
                simp [World.exec, World.transit, World.schedule, hf, hpop, emitted, serversAfter,
                  clientsAfter, taken]
          | lose =>
              constructor <;>
                simp [World.exec, World.transit, hf, hpop, emitted, serversAfter,
                  clientsAfter, taken]

end SyncPaxos
