import SyncPaxos.Links.Fifo

/-!
# Latency — how long a packet is on a link

The drop-tail queue bounds what a packet has to wait for, so it bounds when it arrives.  And a link that
is given nothing more delivers everything it has taken.
-/

namespace SyncPaxos.PointToPoint

open DiscreteEvent SingleServer

variable {α : Type} {L : Link α} {d : Bool} {p : α} {f : Frame α} {s s' : State α} {n T : ℕ}
  {begun waiting : List (ℕ × α × ℕ)}

/-! ## What a step does to the queues -/

/-- The steps that a link still makes if it is given nothing more. -/
def State.backlog (s : State α) : ℕ :=
  s.events.length +
    2 * ((s.devices false).queue.packets.length + (s.devices true).queue.packets.length)

theorem setDevice_queue (d' : Bool) (device : Device α) :
    ((s.setDevice d device).devices d').queue =
      if d' = d then device.queue else (s.devices d').queue := by
  by_cases hdd : d' = d
  · subst hdd
    rw [State.setDevice, if_pos rfl]
    simp
  · rw [State.setDevice, if_neg hdd]
    simp [hdd]

/-- A device keeps the packets in its queue. -/
theorem transmitStart_some {taken : Bool} (h : s.transmitStart L d f = some (s', taken)) :
    s'.accepted = s.accepted ∧ s'.now = s.now ∧ s'.events.length = s.events.length + 2 ∧
      ∀ d', (s'.devices d').queue = (s.devices d').queue := by
  cases hb : (s.devices d).busy with
  | true =>
      simp [State.transmitStart, hb] at h
  | false =>
      have hs' := congrArg Prod.fst (Option.some.inj ((transmitStart_eq hb).symm.trans h))
      subst hs'
      refine ⟨rfl, rfl, by simp, ?_⟩
      intro d'
      refine (setDevice_queue d' _).trans ?_
      split
      · rename_i hdd
        rw [hdd]
      · rfl

theorem backlog_setDevice (device : Device α) :
    (s.setDevice d device).backlog + 2 * (s.devices d).queue.packets.length =
      s.backlog + 2 * device.queue.packets.length := by
  rw [State.backlog, State.backlog, setDevice_queue, setDevice_queue, State.setDevice]
  cases d
  · simp only [if_true, Bool.true_eq_false, if_false]
    omega
  · simp only [if_true, Bool.false_eq_true, if_false]
    omega

/-- What `Dequeue` leaves in a queue. -/
theorem dequeue_length {queue queue' : Queue α} {packet : Option (Frame α)}
    (h : L.dequeue queue = some (packet, queue')) :
    queue.packets.length = queue'.packets.length + (if packet.isSome then 1 else 0) ∧
      L.bytes queue' ≤ L.bytes queue := by
  rcases queue with ⟨packets, nBytes⟩
  cases packets with
  | nil =>
      cases h
      exact ⟨rfl, le_rfl⟩
  | cons f packets =>
      rcases Option.bind_eq_some_iff.1 h with ⟨-, -, hpair⟩
      cases hpair
      exact ⟨rfl, by simp [Link.bytes]⟩

theorem transmitComplete_some (h : s.transmitComplete L d = some s') :
    s'.accepted = s.accepted ∧ s'.backlog = s.backlog ∧
      ∀ d', L.bytes (s'.devices d').queue ≤ L.bytes (s.devices d').queue := by
  have hb : (s.devices d).busy = true := by
    by_contra hb
    simp [State.transmitComplete, hb] at h
  have hpkt : (s.devices d).currentPkt.isSome = true := by
    by_contra hpkt
    simp [State.transmitComplete, hpkt] at h
  rw [transmitComplete_eq hb hpkt] at h
  rcases Option.bind_eq_some_iff.1 h with ⟨⟨packet, queue⟩, hdequeue, hstart⟩
  rcases dequeue_length hdequeue with ⟨hlength, hbytes⟩
  have hbacklog := backlog_setDevice (s := s) (d := d) ⟨false, none, queue⟩
  have hqueues : ∀ d', L.bytes ((s.setDevice d ⟨false, none, queue⟩).devices d').queue ≤
      L.bytes (s.devices d').queue := by
    intro d'
    rw [setDevice_queue]
    split
    · rename_i hdd
      exact hdd ▸ hbytes
    · exact le_rfl
  rw [hlength] at hbacklog
  cases packet with
  | none =>
      cases hstart
      exact ⟨rfl, Nat.add_right_cancel hbacklog, hqueues⟩
  | some f =>
      dsimp only at hstart
      rcases Option.map_eq_some_iff.1 hstart with ⟨⟨s₁, taken⟩, hs₁, rfl⟩
      rcases transmitStart_some hs₁ with ⟨hacc, -, hevents, hsame⟩
      refine ⟨hacc, ?_, fun d' => (hsame d').symm ▸ hqueues d'⟩
      rw [State.backlog, hevents, hsame, hsame]
      rw [State.backlog] at hbacklog
      simp only [Option.isSome_some, if_true] at hbacklog
      omega

theorem send_some {taken : Bool} (h : s.send L d p n = some (s', taken)) :
    s'.accepted = s.accepted ∧ s'.now = s.now ∧
      (taken = true → L.wouldOverflow d p (s.devices d).queue = false) := by
  cases hf : addHeader p n with
  | none =>
      simp [State.send, hf] at h
  | some f =>
      cases hover : L.wouldOverflow d p (s.devices d).queue with
      | true =>
          cases (send_of_overflow hf hover).symm.trans h
          exact ⟨rfl, rfl, fun htaken => by cases htaken⟩
      | false =>
          rw [← and_assoc]
          refine ⟨?_, fun _ => rfl⟩
          cases hb : (s.devices d).busy with
          | true =>
              cases (send_of_busy hf hover hb).symm.trans h
              exact ⟨rfl, rfl⟩
          | false =>
              rw [send_of_ready hf hover hb] at h
              rcases Option.bind_eq_some_iff.1 h with ⟨⟨packet, queue⟩, -, hstart⟩
              rcases Option.bind_eq_some_iff.1 hstart with ⟨f', -, hs'⟩
              rcases transmitStart_some hs' with ⟨hacc, hnow, -⟩
              exact ⟨hacc, hnow⟩

/-- Each event that runs is one step less to make. -/
theorem fire_some (hs : next L .fire s = some s') :
    s'.accepted = s.accepted ∧ s.backlog = s'.backlog + 1 ∧
      ∀ d', L.bytes (s'.devices d').queue ≤ L.bytes (s.devices d').queue := by
  cases hpop : pop s.events with
  | none =>
      simp [next, hpop] at hs
  | some popped =>
      rcases popped with ⟨e, rest⟩
      have hlength := (pop_perm hpop).length_eq
      have hbacklog : s.backlog = State.backlog { s with now := e.ts, events := rest } + 1 := by
        simp only [State.backlog, hlength, List.length_cons]
        omega
      cases he : e.action with
      | transmitComplete d =>
          simp only [next, hpop, he] at hs
          rcases transmitComplete_some hs with ⟨hacc, hsame, hbytes⟩
          exact ⟨hacc, by rw [hbacklog, hsame], hbytes⟩
      | receive d f =>
          simp only [next, hpop, he] at hs
          rcases Option.bind_eq_some_iff.1 hs with ⟨x, -, hs'⟩
          cases hs'
          exact ⟨rfl, hbacklog, fun _ => le_rfl⟩

/-- Only a `Send` that is taken adds to what a device has accepted. -/
theorem accepted_next {c : Input α} (hs : next L c s = some s') (d : Bool) :
    s'.accepted d = s.accepted d ∨
      ∃ t p n, c = .send t d p n ∧ L.wouldOverflow d p (s.devices d).queue = false ∧
        s'.accepted d = s.accepted d ++ [(t, p, n)] := by
  cases c with
  | fire =>
      rw [(fire_some hs).1]
      exact .inl rfl
  | send t d' p n =>
      rcases Option.bind_eq_some_iff.1 hs with ⟨⟨s₁, taken⟩, hsend, hs'⟩
      rcases send_some hsend with ⟨hacc, hnow, hroom⟩
      cases taken with
      | false =>
          cases hs'
          exact .inl (congrFun hacc d)
      | true =>
          cases hs'
          by_cases hdd : d = d'
          · subst hdd
            refine .inr ⟨t, p, n, rfl, hroom rfl, ?_⟩
            show Function.update s₁.accepted d (s₁.accepted d ++ [(s₁.now, p, n)]) d = _
            rw [Function.update_self, hacc, hnow]
          · refine .inl ?_
            show Function.update s₁.accepted d' (s₁.accepted d' ++ [(s₁.now, p, n)]) d = _
            rw [Function.update_of_ne hdd, hacc]

/-! ## A packet does not wait for long -/

/-- A packet that comes now starts at once, or after those that wait and the one in transmission. -/
theorem Sent.freeAfter_le (h : Sent L d s begun waiting) (hdue : ∀ e ∈ s.events, s.now ≤ e.ts)
    (hT : ∀ x ∈ begun ++ waiting, L.occupies d x.2 ≤ T) :
    freeAfter (L.occupies d) 0 (begun ++ waiting) ≤ s.now + (waiting.length + 1) * T := by
  rw [freeAfter_append]
  cases hb : (s.devices d).busy with
  | false =>
      rcases h.idle hb with ⟨rfl, -, hle⟩
      exact hle.trans (Nat.le_add_right _ _)
  | true =>
      rcases h.ready_due hb with ⟨e, he, hts⟩
      have hnow : s.now ≤ L.readyAfter d begun := hts ▸ hdue e he
      have hready : L.readyAfter d begun ≤ s.now + T :=
        freeAfter_le_of_started (Nat.zero_le _) h.started
          fun x hx => hT x (List.mem_append_left _ hx)
      have hqueue := freeAfter_le_add_mul (fun x hx => (h.past x hx).trans hnow)
        fun x hx => hT x (List.mem_append_right _ hx)
      rw [Link.readyAfter] at hready hqueue
      rw [Nat.succ_mul]
      omega

/-- The queue of a device bounds for how long its packets wait. -/
theorem starts_within (hunit : (L.device d).unit = .packets)
    (hr : Transition.Reachable (system L) timely s)
    (hT : ∀ x ∈ s.accepted d, L.occupies d x.2 ≤ T) :
    List.Forall₂ (fun x y => y.1 ≤ x.1 + (L.device d).maxSize * T) (s.accepted d)
      (starts (L.occupies d) 0 (s.accepted d)) := by
  refine hr.invariant_of (P := fun s => List.Forall₂ _ (s.accepted d) (starts _ 0 (s.accepted d)))
    (Q := fun s => ∀ x ∈ s.accepted d, L.occupies d x.2 ≤ T) ?_ .nil ?_ hT
  · intro s c s' _ hs hQ x hx
    rcases accepted_next hs d with hacc | ⟨t, p, n, -, -, hacc⟩
    · exact hQ x (hacc.symm ▸ hx)
    · exact hQ x (hacc.symm ▸ List.mem_append_left _ hx)
  · intro s c s' hr hQ _ hP hc hs
    rcases accepted_next hs d with hacc | ⟨t, p, n, rfl, hroom, hacc⟩
    · rw [hacc]
      exact hP
    · have h := valid_of_reachable hr
      rcases h.carried d with ⟨begun, waiting, hsplit, hd⟩
      have hfree : freeAfter (L.occupies d) 0 (s.accepted d) ≤
          s.now + (L.device d).maxSize * T := by
        have hle := hd.freeAfter_le h.due (hsplit ▸ hQ)
        have hlength : waiting.length + 1 ≤ (L.device d).maxSize := by
          simpa [Link.wouldOverflow, hunit, hd.queue.length_eq] using hroom
        rw [hsplit]
        exact hle.trans (Nat.add_le_add_left (Nat.mul_le_mul_right T hlength) _)
      rw [hacc, starts_append]
      refine List.rel_append hP (.cons ?_ .nil)
      exact max_le (hfree.trans (Nat.add_le_add_right hc.1 _)) (Nat.le_add_right _ _)

/-- A packet that is taken is handed up after its transmission time and the delay at the earliest, and
no later than the queue of its device allows. -/
theorem deliver_within (hunit : (L.device d).unit = .packets)
    (hr : Transition.Reachable (system L) timely s)
    (hT : ∀ x ∈ s.accepted d, L.occupies d x.2 ≤ T) :
    List.Forall₂
      (fun x y => y.2 = x.2 ∧ x.1 + (L.txTime d x.2.1 + L.delay) ≤ y.1 ∧
        y.1 ≤ x.1 + (L.device d).maxSize * T + (L.txTime d x.2.1 + L.delay))
      (s.accepted d) (L.deliver d (s.accepted d)) := by
  rw [Link.deliver, List.forall₂_map_right_iff]
  refine (forall₂_starts (s.accepted d) 0).mp ?_ (starts_within hunit hr hT)
  intro x y hearly hlate
  refine ⟨hearly.2.symm, ?_, ?_⟩
  · rw [hearly.2]
    exact Nat.add_le_add_right hearly.1 _
  · rw [hearly.2]
    exact Nat.add_le_add_right hlate _

/-- The second of two packets waits for the first one. -/
theorem deliver_within_two_packets :
    ∃ (L : Link ℕ) (s : State ℕ), s.accepted false = [(0, 4, 0x0800), (1, 5, 0x0800)] ∧
      List.Forall₂
        (fun x y => y.2 = x.2 ∧ x.1 + (L.txTime false x.2.1 + L.delay) ≤ y.1 ∧
          y.1 ≤ x.1 + (L.device false).maxSize * 8 + (L.txTime false x.2.1 + L.delay))
        (s.accepted false) (L.deliver false (s.accepted false)) := by
  rcases Transition.exists_reachable_of_runInputs
    (S := system { getSize := id, delay := 2, device := fun _ => { bytesTxTime := id } })
    (G := timely) [.send 0 false 4 0x0800, .send 1 false 5 0x0800]
    (fun s => decide (s.accepted false = [(0, 4, 0x0800), (1, 5, 0x0800)])) (by decide) with
    ⟨s, hr, hs⟩
  have hacc : s.accepted false = [(0, 4, 0x0800), (1, 5, 0x0800)] := of_decide_eq_true hs
  refine ⟨_, s, hacc, deliver_within rfl hr ?_⟩
  rw [hacc]
  decide

/-! ## A link delivers what it has taken -/

theorem backlog_eq_zero (hr : Transition.Reachable (system L) timely s) (hnil : s.events = []) :
    s.backlog = 0 := by
  have hempty : ∀ d, (s.devices d).queue.packets = [] := by
    intro d
    rcases (valid_of_reachable hr).carried d with ⟨begun, waiting, -, hd⟩
    have hwaiting : waiting = [] := by
      by_contra hne
      rcases hd.ready_due (hd.busy_of_waiting hne) with ⟨e, he, -⟩
      rw [hnil] at he
      cases he
    have hlength := hd.queue.length_eq
    rw [hwaiting] at hlength
    exact List.eq_nil_of_length_eq_zero hlength
  rw [State.backlog, hnil, hempty, hempty]
  rfl

/-- If the stack sends nothing more, and what waits fits into the queues, every packet that was taken is
handed up on the other side. -/
theorem drained (hr : Transition.Reachable (system L) timely s)
    (hfit : ∀ d, L.bytes (s.devices d).queue < 2 ^ 32) :
    ∃ s', Transition.runInputs (system L) timely (List.replicate s.backlog .fire) s = some s' ∧
      s'.events = [] ∧ ∀ d, s'.received (!d) = L.deliver d (s.accepted d) := by
  generalize hn : s.backlog = n
  induction n generalizing s with
  | zero =>
      have hnil : s.events = [] := by
        rw [State.backlog, Nat.add_eq_zero_iff] at hn
        exact List.eq_nil_of_length_eq_zero hn.1
      refine ⟨s, rfl, hnil, ?_⟩
      intro d
      rcases received_deliver hr d with ⟨pending, heq, -, hpending⟩
      rw [heq, hpending hnil, List.append_nil]
  | succ n ih =>
      have hne : s.events ≠ [] := by
        intro hnil
        rw [backlog_eq_zero hr hnil] at hn
        cases hn
      rcases Option.isSome_iff_exists.1 ((valid_of_reachable hr).fire_isSome hne hfit) with
        ⟨s₁, hs₁⟩
      rcases fire_some hs₁ with ⟨hacc, hbacklog, hbytes⟩
      rcases ih (.step hr (c := .fire) trivial hs₁) (fun d => (hbytes d).trans_lt (hfit d))
        (by omega) with ⟨s', hrun, hnil, hreceived⟩
      refine ⟨s', ?_, hnil, hacc ▸ hreceived⟩
      rw [List.replicate_succ, Transition.runInputs, if_pos (show timely s .fire from trivial)]
      rw [show (system L).next .fire s = some s₁ from hs₁]
      exact hrun

/-- Two packets are delivered one after the other. -/
theorem drained_two_packets :
    ∃ s s', Transition.runInputs
        (system { getSize := id, delay := 2, device := fun _ => { bytesTxTime := id } }) timely
        (List.replicate s.backlog .fire) s = some s' ∧
      s.accepted false = [(0, 4, 0x0800), (1, 5, 0x86DD)] ∧
      s'.received true = [(8, 4, 0x0800), (15, 5, 0x86DD)] := by
  rcases Transition.exists_reachable_of_runInputs
    (S := system { getSize := id, delay := 2, device := fun _ => { bytesTxTime := id } })
    (G := timely) [.send 0 false 4 0x0800, .send 1 false 5 0x86DD]
    (fun s => decide (s.accepted false = [(0, 4, 0x0800), (1, 5, 0x86DD)] ∧
      ∀ d, Link.bytes { getSize := id, delay := 2, device := fun _ => { bytesTxTime := id } }
        (s.devices d).queue < 2 ^ 32)) (by decide) with ⟨s, hr, hs⟩
  rcases of_decide_eq_true hs with ⟨hacc, hfit⟩
  rcases drained hr hfit with ⟨s', hrun, -, hreceived⟩
  refine ⟨s, s', hrun, hacc, ?_⟩
  rw [← Bool.not_false, hreceived, hacc]
  decide

end SyncPaxos.PointToPoint
