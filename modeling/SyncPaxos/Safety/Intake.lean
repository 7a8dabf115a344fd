import SyncPaxos.Run.Leader
import SyncPaxos.Run.Rotation

/-!
# Intake — what becomes of a request

The clients send to all servers in turn, in either mode.  A server that proposes queues each
request that is delivered to it, once and in order of arrival (`creations_eq`).  In asynchronous
mode only the leader proposes, and the others drop what the clients send them.
-/

namespace SyncPaxos

open DiscreteEvent Counting Transition

/-- Server `i` keeps the requests it receives. -/
def Cluster.Keeps (C : Cluster) (i : ℕ) : Prop := C.async = true → i = Cluster.leader

instance (C : Cluster) (i : ℕ) : Decidable (C.Keeps i) :=
  inferInstanceAs (Decidable (C.async = true → i = Cluster.leader))

/-- A packet that carries request `r` to server `i`. -/
def Packet.asks (i : ℕ) (r : RequestFrame) (packet : Packet) : Bool := packet.requestTo? i == some r

/-- Request `r` to server `i` has been delivered, and its creation has run. -/
structure World.Delivered (w : World) (i : ℕ) (r : RequestFrame) : Prop where
  network : ∀ packet ∈ w.inTransit, packet.asks i r = false
  calls : r ∉ w.pending i Task.creating?

instance (w : World) (i : ℕ) (r : RequestFrame) : Decidable (w.Delivered i r) :=
  decidable_of_iff ((∀ packet ∈ w.inTransit, packet.asks i r = false) ∧
    r ∉ w.pending i Task.creating?) ⟨fun h => ⟨h.1, h.2⟩, fun h => ⟨h.network, h.calls⟩⟩

variable {C : Cluster} {G : World → Choice → Prop} {w w' : World} {c : Choice} {i : ℕ}
  {r : RequestFrame}

/-! ## Requests on their way -/

theorem asks_iff {packet : Packet} :
    packet.asks i r = true ↔ packet.payload = .request r ∧ packet.dst = i := by
  rcases packet with ⟨src, dst, payload, sentAt⟩
  cases payload with
  | request r' =>
      by_cases hi : dst = i <;> simp [Packet.asks, Packet.requestTo?, Packet.request?, hi]
  | paxos f =>
      simp [Packet.asks, Packet.requestTo?, Packet.request?]

theorem asks_isRequest {packet : Packet} (h : packet.asks i r = true) :
    packet.isRequest = true := by
  rw [Packet.isRequest, (asks_iff.1 h).1]

/-- A request that is delivered finds a server that listens. -/
theorem listening_of_taken {e : Event} {rest : List Event} (hs : StepSpec C c w w' e rest)
    (hg : delivering w c) (htaken : (taken c e).filterMap (Packet.requestTo? i) ≠ []) :
    (w.servers i).listenerSocket = true := by
  rcases List.exists_mem_of_ne_nil _ htaken with ⟨r, hr⟩
  rcases List.mem_filterMap.1 hr with ⟨packet, hp, hreq⟩
  have hasks : packet.asks i r = true := beq_iff_eq.2 hreq
  rcases e with ⟨now, action⟩
  cases action with
  | transit packet' hop =>
      cases hf : c.fate with
      | arrive =>
          obtain rfl : packet = packet' := by simpa [taken, hf] using hp
          have hrule := onTransit_of_pop hs.pop hg.1 (asks_isRequest hasks)
          rw [← (asks_iff.1 hasks).2]
          exact hrule.2.2 hf
      | _ =>
          simp [taken, hf] at hp
  | _ =>
      simp [taken] at hp

/-- A creation that runs finds room. -/
theorem room_of_creating {e : Event} {rest : List Event} (hs : StepSpec C c w w' e rest)
    (hg : delivering w c) (hcreate : e.action.atServer i Task.creating? ≠ none) :
    (w.servers i).waitingProposals.length ≤ 1000 := by
  have hroom : w.HasRoom := hg.2
  rcases e with ⟨now, action⟩
  rcases eq_server_of_atServer (Option.isSome_iff_ne_none.2 hcreate) with ⟨task, rfl, htask⟩
  cases task with
  | createProposalFromRequest r =>
      unfold World.HasRoom at hroom
      rw [hs.pop] at hroom
      exact hroom
  | _ =>
      cases htask

/-- The requests that a server queued, and then those it is to queue, are those that arrived. -/
theorem creations_eq (hG : ∀ w c, G w c → delivering w c) (hr : Reachable C G w)
    (hkeeps : C.Keeps i) :
    (w.traces i).queued ++ w.pending i Task.creating? =
      w.arrived.filterMap (Packet.requestTo? i) := by
  refine Transition.Reachable.invariant
    (P := fun w => (w.traces i).queued ++ w.pending i Task.creating? =
      w.arrived.filterMap (Packet.requestTo? i)) ?_ ?_ hr
  · exact init_pending rfl rfl i
  · intro w c w' hr hbal hg hstep
    have hdel := hG w c hg
    rcases step_spec hstep with ⟨e, rest, hs⟩
    -- A creation that runs finds room, and is queued.
    have hcreated : (newLines C w e i).queued = (e.action.atServer i Task.creating?).toList := by
      rw [newLines_queued_eq]
      cases hcls : e.action.atServer i Task.creating? with
      | none =>
          exact ite_self _
      | some r =>
          have hroom := room_of_creating hs hdel (i := i) (by simp [hcls])
          exact if_neg (not_lt.2 hroom)
    have hpopped : w.pending i Task.creating? = (e.action.atServer i Task.creating?).toList ++
        rest.filterMap (fun x => x.action.atServer i Task.creating?) :=
      (creation_pipeline hr i).filterMap_pop hs.pop
    -- A request that arrives finds a server that listens and proposes, and is to be queued.
    have hnew : (emitted C c w e).filterMap (fun x => x.action.atServer i Task.creating?) =
        (taken c e).filterMap (Packet.requestTo? i) := by
      rw [emitted_creating_eq]
      by_cases htaken : (taken c e).filterMap (Packet.requestTo? i) = []
      · rw [htaken, ite_self]
      · apply if_pos
        exact ⟨listening_of_taken hs hdel htaken, fun h => h.2 (hkeeps h.1)⟩
    have hqueued : (w'.traces i).queued =
        (w.traces i).queued ++ (e.action.atServer i Task.creating?).toList := by
      rw [hs.traces, Trace.queued, List.filterMap_append]
      exact congrArg _ hcreated
    have hpending : w'.pending i Task.creating? =
        rest.filterMap (fun x => x.action.atServer i Task.creating?) ++
          (taken c e).filterMap (Packet.requestTo? i) := by
      rw [World.pending, hs.events, List.filterMap_append, hnew]
    calc (w'.traces i).queued ++ w'.pending i Task.creating?
        = ((w.traces i).queued ++ ((e.action.atServer i Task.creating?).toList ++
              rest.filterMap (fun x => x.action.atServer i Task.creating?))) ++
            (taken c e).filterMap (Packet.requestTo? i) := by
          rw [hqueued, hpending]
          simp only [List.append_assoc]
      _ = w.arrived.filterMap (Packet.requestTo? i) ++
            (taken c e).filterMap (Packet.requestTo? i) := by rw [← hpopped, hbal]
      _ = w'.arrived.filterMap (Packet.requestTo? i) := by
          rw [hs.arrived, List.filterMap_append]

/-! ## Counting a request -/

theorem arrived_count (l : List Packet) :
    (l.filterMap (Packet.requestTo? i)).count r = l.countP (Packet.asks i r) := by
  induction l with
  | nil =>
      rfl
  | cons packet l ih =>
      rw [List.countP_cons, ← ih, List.filterMap_cons]
      cases hp : packet.requestTo? i <;> simp [Packet.asks, hp, List.count_cons]

/-- A request to a server that proposes is queued there, about to be queued, or on its way. -/
theorem intake (hG : ∀ w c, G w c → delivering w c) (hr : Reachable C G w) (hkeeps : C.Keeps i) :
    (w.traces i).queued.count r + (w.pending i Task.creating?).count r +
        w.inTransit.countP (Packet.asks i r) =
      w.sent.countP (Packet.asks i r) := by
  -- Neither copied nor lost, a request is in flight or has arrived as often as it was sent.
  have hcopy : ∀ w c, G w c →
      onTransit (fun _ p _ fate => p.asks i r = true → fate.isCopy = false) w c := by
    intro w c hg
    refine onTransit_mono ?_ (hG w c hg).1
    exact fun _ _ _ _ hrule hasks => (hrule (asks_isRequest hasks)).1
  have hloss : ∀ w c, G w c →
      onTransit (fun _ p _ fate => p.asks i r = true → fate.isLoss = false) w c := by
    intro w c hg
    refine onTransit_mono ?_ (hG w c hg).1
    exact fun _ _ _ _ hrule hasks => (hrule (asks_isRequest hasks)).2.1
  have hle := transit_le hcopy hr
  have hge := transit_ge hloss hr
  have harrived : (w.traces i).queued.count r + (w.pending i Task.creating?).count r =
      w.arrived.countP (Packet.asks i r) := by
    rw [← List.count_append, creations_eq hG hr hkeeps, arrived_count]
  omega

/-- No server queues more than was sent to it. -/
theorem queued_le (hG : ∀ w c, G w c → delivering w c) (hr : Reachable C G w) (j : ℕ) :
    (w.traces j).queued.count r ≤ w.sent.countP (Packet.asks j r) := by
  by_cases hkeeps : C.Keeps j
  · have hsum := intake (r := r) hG hr hkeeps
    omega
  · rw [Cluster.Keeps, Classical.not_imp] at hkeeps
    rw [queued_follower hr hkeeps.1 hkeeps.2]
    exact Nat.zero_le _

end SyncPaxos
