import SyncPaxos.Library.SingleServer
import SyncPaxos.Model.PointToPoint
import Mathlib.Data.Option.Basic
import Mathlib.Tactic.Common

/-!
# Fifo — a link hands up what it has taken, in order and on time

A device is a server with one customer at a time: a packet occupies it for its transmission time and the
interframe gap, and reaches the other side after its transmission time and the delay.  So the times at
which packets arrive follow from the times at which `Send` took them.
-/

namespace SyncPaxos.PointToPoint

open DiscreteEvent SingleServer

variable {α : Type} {L : Link α} {d d' : Bool} {p : α} {x : α × ℕ} {f : Frame α} {s s' : State α}
  {t n : ℕ} {begun waiting : List (ℕ × α × ℕ)} {events rest : List (Scheduled (Callback α))}
  {e : Scheduled (Callback α)} {queue queue' : Queue α} {l : List (α × ℕ)}

/-! ## What a link does, abstractly -/

namespace Link

/-- For how long a packet keeps a device busy. -/
def occupies (L : Link α) (d : Bool) (x : α × ℕ) : ℕ :=
  L.txTime d x.1 + (L.device d).tInterframeGap

/-- What arrives at the other side, and when, if `l` was taken by the device `d`. -/
def deliver (L : Link α) (d : Bool) (l : List (ℕ × α × ℕ)) : List (ℕ × α × ℕ) :=
  (starts (L.occupies d) 0 l).map fun x => (x.1 + (L.txTime d x.2.1 + L.delay), x.2)

/-- When the device `d` is ready again. -/
def readyAfter (L : Link α) (d : Bool) (l : List (ℕ × α × ℕ)) : ℕ := freeAfter (L.occupies d) 0 l

theorem deliver_append (l l' : List (ℕ × α × ℕ)) :
    L.deliver d (l ++ l') = L.deliver d l ++
      (starts (L.occupies d) (L.readyAfter d l) l').map
        fun x => (x.1 + (L.txTime d x.2.1 + L.delay), x.2) := by
  rw [deliver, starts_append, List.map_append]
  rfl

theorem deliver_sorted (l : List (ℕ × α × ℕ)) :
    (L.deliver d l).Pairwise fun x y => x.1 ≤ y.1 := by
  rw [deliver, List.pairwise_map]
  refine (starts_pairwise l 0).imp ?_
  intro x y hxy
  rw [occupies] at hxy
  show x.1 + (L.txTime d x.2.1 + L.delay) ≤ y.1 + (L.txTime d y.2.1 + L.delay)
  omega

/-- A packet that is taken when the device is ready is transmitted at once. -/
theorem deliver_concat (h : max (L.readyAfter d begun) t = s.now) :
    L.deliver d (begun ++ [(t, x)]) =
      L.deliver d begun ++ [(s.now + (L.txTime d x.1 + L.delay), x)] := by
  rw [deliver_append, starts, h]
  rfl

theorem starts_concat (h : max (L.readyAfter d begun) t = s.now) :
    starts (L.occupies d) 0 (begun ++ [(t, x)]) =
      starts (L.occupies d) 0 begun ++ [(s.now, x)] := by
  rw [starts_append, starts, ← readyAfter, h]
  rfl

theorem readyAfter_concat (h : max (L.readyAfter d begun) t = s.now) :
    L.readyAfter d (begun ++ [(t, x)]) = s.now + L.occupies d x := by
  rw [readyAfter, freeAfter_append, freeAfter, ← readyAfter, h]
  rfl

end Link

/-! ## Headers -/

/-- A header that was added is processed to the protocol number it was made from. -/
theorem processHeader_addHeader (h : addHeader p n = some f) : f.processHeader = some (p, n) := by
  rcases Option.map_eq_some_iff.1 h with ⟨protocol, hppp, rfl⟩
  unfold etherToPpp at hppp
  split at hppp
  · rename_i hn
    cases hppp
    rw [hn]
    rfl
  · split at hppp
    · rename_i hn
      cases hppp
      rw [hn]
      rfl
    · cases hppp

theorem packet_of_processHeader (h : f.processHeader = some x) : f.packet = x.1 := by
  rcases Option.map_eq_some_iff.1 h with ⟨protocol, -, rfl⟩
  rfl

/-! ## The queue of a device -/

/-- The bytes that wait in a queue. -/
def Link.bytes (L : Link α) (queue : Queue α) : ℕ :=
  (queue.packets.map fun f => L.size f.packet).sum

/-- The queue holds the packets `l` with their headers. -/
structure Holds (L : Link α) (queue : Queue α) (l : List (α × ℕ)) : Prop where
  packets : queue.packets.map Frame.processHeader = l.map some
  nBytes : queue.nBytes = L.bytes queue % 2 ^ 32

namespace Holds

theorem length_eq (h : Holds L queue l) : queue.packets.length = l.length := by
  have hlength := congrArg List.length h.packets
  rwa [List.length_map, List.length_map] at hlength

theorem bytes_enqueue : L.bytes (L.enqueue f queue) = L.bytes queue + L.size f.packet := by
  simp [Link.bytes, Link.enqueue]

theorem enqueue (h : Holds L queue l) (hf : f.processHeader = some x) :
    Holds L (L.enqueue f queue) (l ++ [x]) where
  packets := by
    rw [Link.enqueue, List.map_append, List.map_append, h.packets, List.map_singleton, hf]
    rfl
  nBytes := by
    rw [bytes_enqueue, ← Nat.mod_add_mod, ← h.nBytes]
    rfl

theorem dequeue_nil (h : Holds L queue []) : L.dequeue queue = some (none, queue) := by
  rw [Link.dequeue, List.map_eq_nil_iff.1 h.packets]

theorem dequeue_cons (h : Holds L queue (x :: l)) :
    ∃ (f : Frame α) (queue' : Queue α), f.processHeader = some x ∧
      L.bytes queue = L.size f.packet + L.bytes queue' ∧
      L.dequeue queue =
        (if queue.nBytes ≥ L.size f.packet then some (some f, queue') else none) ∧
      (queue.nBytes ≥ L.size f.packet → Holds L queue' l) := by
  cases hqueue : queue.packets with
  | nil =>
      have hlength := h.length_eq
      rw [hqueue] at hlength
      cases hlength
  | cons f packets =>
      have hpackets := h.packets
      rw [hqueue, List.map_cons, List.map_cons] at hpackets
      rcases List.cons.inj hpackets with ⟨hf, hrest⟩
      have hsum : L.bytes queue =
          L.size f.packet + L.bytes ⟨packets, queue.nBytes - L.size f.packet⟩ := by
        rw [Link.bytes, hqueue, List.map_cons, List.sum_cons]
        rfl
      refine ⟨f, ⟨packets, queue.nBytes - L.size f.packet⟩, hf, hsum, ?_, ?_⟩
      · simp only [Link.dequeue, hqueue, guard]
        split <;> rfl
      · intro hsize
        refine ⟨hrest, ?_⟩
        -- What is left of the remainder is the remainder of what is left.
        have hbytes := h.nBytes
        show queue.nBytes - L.size f.packet = _
        omega

/-- The queue after a `Dequeue` that did not fail. -/
theorem dequeue_some {packet : Option (Frame α)} (h : Holds L queue (x :: l))
    (hd : L.dequeue queue = some (packet, queue')) :
    ∃ f, packet = some f ∧ f.processHeader = some x ∧ Holds L queue' l ∧
      L.bytes queue' ≤ L.bytes queue := by
  rcases h.dequeue_cons with ⟨f, queue₁, hf, hsum, heq, hrest⟩
  rw [heq] at hd
  split at hd
  · rename_i hsize
    cases hd
    exact ⟨f, rfl, hf, hrest hsize, hsum ▸ Nat.le_add_left _ _⟩
  · cases hd

/-- The assertion of `Dequeue` holds while the bytes of the queue fit into a `uint32_t`. -/
theorem dequeue_isSome (h : Holds L queue l) (hfit : L.bytes queue < 2 ^ 32) :
    (L.dequeue queue).isSome := by
  cases l with
  | nil =>
      rw [h.dequeue_nil]
      rfl
  | cons x l =>
      rcases h.dequeue_cons with ⟨f, queue', -, hsum, heq, -⟩
      have hsize : queue.nBytes ≥ L.size f.packet := by
        rw [h.nBytes, Nat.mod_eq_of_lt hfit, hsum]
        exact Nat.le_add_right _ _
      rw [heq, if_pos hsize]
      rfl

end Holds

/-! ## The events of one direction -/

/-- A packet on its way from the device `d`, with the time at which it arrives. -/
def inFlight? (d : Bool) (e : Scheduled (Callback α)) : Option (ℕ × α × ℕ) :=
  match e.action with
  | .receive d' f => if d' = !d then f.processHeader.map fun x => (e.ts, x) else none
  | .transmitComplete _ => none

/-- The end of a transmission of the device `d`. -/
def completion? (d : Bool) (e : Scheduled (Callback α)) : Option ℕ :=
  match e.action with
  | .receive _ _ => none
  | .transmitComplete d' => if d' = d then some e.ts else none

theorem inFlight?_key (e : Scheduled (Callback α)) (x : ℕ × α × ℕ) (h : inFlight? d e = some x) :
    x.1 = e.ts := by
  unfold inFlight? at h
  split at h
  · split at h
    · rcases Option.map_eq_some_iff.1 h with ⟨y, -, rfl⟩
      rfl
    · cases h
  · cases h

theorem completion?_key (e : Scheduled (Callback α)) (x : ℕ) (h : completion? d e = some x) :
    x = e.ts := by
  unfold completion? at h
  split at h
  · cases h
  · split at h <;> cases h
    rfl

/-- A packet on its way has a header that `Receive` can process. -/
def Framed (e : Scheduled (Callback α)) : Prop :=
  match e.action with
  | .receive _ f => f.processHeader.isSome = true
  | .transmitComplete _ => True

/-- The packets that the device `d` has begun to transmit, and those that wait in its queue. -/
structure Sent (L : Link α) (d : Bool) (s : State α) (begun waiting : List (ℕ × α × ℕ)) : Prop where
  queue : Holds L (s.devices d).queue (waiting.map Prod.snd)
  flight : s.received (!d) ++ s.events.filterMap (inFlight? d) = L.deliver d begun
  busy : (s.devices d).busy = true →
    (s.devices d).currentPkt.isSome = true ∧
      s.events.filterMap (completion? d) = [L.readyAfter d begun]
  idle : (s.devices d).busy = false →
    waiting = [] ∧ s.events.filterMap (completion? d) = [] ∧ L.readyAfter d begun ≤ s.now
  past : ∀ x ∈ waiting, x.1 ≤ s.now
  started : ∀ x ∈ starts (L.occupies d) 0 begun, x.1 ≤ s.now

namespace Sent

/-- What the other direction does is not seen. -/
theorem congr (h : Sent L d s begun waiting) (hdevice : s'.devices d = s.devices d)
    (hreceived : s'.received (!d) = s.received (!d))
    (hflight : s'.events.filterMap (inFlight? d) = s.events.filterMap (inFlight? d))
    (hcompletions : s'.events.filterMap (completion? d) = s.events.filterMap (completion? d))
    (hnow : s.now ≤ s'.now) : Sent L d s' begun waiting where
  queue := hdevice ▸ h.queue
  flight := by rw [hreceived, hflight, h.flight]
  busy hb := by
    rw [hcompletions, hdevice]
    exact h.busy (hdevice ▸ hb)
  idle hb := by
    rw [hcompletions]
    rcases h.idle (hdevice ▸ hb) with ⟨hw, hc, hle⟩
    exact ⟨hw, hc, hle.trans hnow⟩
  past x hx := (h.past x hx).trans hnow
  started x hx := (h.started x hx).trans hnow

/-- A packet joins the queue of a busy device. -/
theorem enqueue (h : Sent L d s begun waiting) (hb : (s.devices d).busy = true)
    (hf : f.processHeader = some x) :
    Sent L d (s.setDevice d { s.devices d with queue := L.enqueue f (s.devices d).queue }) begun
      (waiting ++ [(s.now, x)]) := by
  have hself : (s.setDevice d
      { s.devices d with queue := L.enqueue f (s.devices d).queue }).devices d =
      { s.devices d with queue := L.enqueue f (s.devices d).queue } := Function.update_self ..
  refine ⟨?_, h.flight, ?_, ?_, ?_, h.started⟩
  · rw [hself, List.map_append]
    exact h.queue.enqueue hf
  · rw [hself]
    exact h.busy
  · rw [hself]
    intro hidle
    cases hb.symm.trans hidle
  · intro x hx
    rcases List.mem_append.1 hx with hx | hx
    · exact h.past x hx
    · cases List.mem_singleton.1 hx
      exact le_rfl

/-- What is in flight arrives in order. -/
theorem flight_sorted (h : Sent L d s begun waiting) :
    (s.events.filterMap (inFlight? d)).Pairwise fun x y => x.1 ≤ y.1 := by
  have hsorted := L.deliver_sorted (d := d) begun
  rw [← h.flight] at hsorted
  exact (List.pairwise_append.1 hsorted).2.1

/-- A device has one transmission at a time. -/
theorem completions_sorted (h : Sent L d s begun waiting) :
    (s.events.filterMap (completion? d)).Pairwise fun x y => x ≤ y := by
  cases hb : (s.devices d).busy with
  | true =>
      rw [(h.busy hb).2]
      exact List.pairwise_singleton ..
  | false =>
      rw [(h.idle hb).2.1]
      exact .nil

end Sent

/-- All packets that the device `d` took are begun or wait. -/
def Carried (L : Link α) (d : Bool) (s : State α) : Prop :=
  ∃ begun waiting, s.accepted d = begun ++ waiting ∧ Sent L d s begun waiting

theorem Carried.congr (h : Carried L d s) (hdevice : s'.devices d = s.devices d)
    (haccepted : s'.accepted d = s.accepted d) (hreceived : s'.received (!d) = s.received (!d))
    (hflight : s'.events.filterMap (inFlight? d) = s.events.filterMap (inFlight? d))
    (hcompletions : s'.events.filterMap (completion? d) = s.events.filterMap (completion? d))
    (hnow : s.now ≤ s'.now) : Carried L d s' := by
  rcases h with ⟨begun, waiting, hacc, hsent⟩
  exact ⟨begun, waiting, haccepted.trans hacc,
    hsent.congr hdevice hreceived hflight hcompletions hnow⟩

/-- What a step of the direction `d` leaves as it is. -/
structure Local (L : Link α) (d : Bool) (s s' : State α) : Prop where
  now_eq : s'.now = s.now
  accepted_eq : s'.accepted d = s.accepted d
  due : ∀ e ∈ s'.events, e ∈ s.events ∨ s.now ≤ e.ts ∧ Framed e
  other : ∀ d', d' ≠ d → Carried L d' s → Carried L d' s'

theorem Local.setDevice (device : Device α) : Local L d s (s.setDevice d device) where
  now_eq := rfl
  accepted_eq := rfl
  due _ he := .inl he
  other _ hd' h := h.congr (Function.update_of_ne hd' ..) rfl rfl rfl rfl le_rfl

/-! ## A transmission begins -/

theorem transmitStart_eq (hready : (s.devices d).busy = false) :
    s.transmitStart L d f =
      some ({ s.setDevice d { s.devices d with busy := true, currentPkt := some f } with
        events := s.events ++
          [⟨s.now + (L.txTime d f.packet + (L.device d).tInterframeGap), .transmitComplete d⟩,
            ⟨s.now + (L.txTime d f.packet + L.delay), .receive (!d) f⟩] }, true) := by
  rw [State.transmitStart, hready]
  rfl

/-- A ready device has taken a packet from its queue. -/
theorem transmitStart_spec (device : Device α) (begun waiting : List (ℕ × α × ℕ))
    (hready : device.busy = false) (hf : f.processHeader = some x)
    (hqueue : Holds L device.queue (waiting.map Prod.snd))
    (hflight : s.received (!d) ++ s.events.filterMap (inFlight? d) = L.deliver d begun)
    (hnone : s.events.filterMap (completion? d) = []) (hpast : ∀ x ∈ waiting, x.1 ≤ s.now)
    (hstarted : ∀ x ∈ starts (L.occupies d) 0 begun, x.1 ≤ s.now)
    (hmax : max (L.readyAfter d begun) t = s.now) :
    ∃ s', (s.setDevice d device).transmitStart L d f = some (s', true) ∧
      Sent L d s' (begun ++ [(t, x)]) waiting ∧ Local L d s s' := by
  have hself : (s.setDevice d device).devices d = device := Function.update_self ..
  have hpacket : f.packet = x.1 := packet_of_processHeader hf
  refine ⟨_, transmitStart_eq (hself.symm ▸ hready), ⟨?_, ?_, ?_, ?_, hpast, ?_⟩,
    ⟨rfl, rfl, ?_, ?_⟩⟩
  · simp only [State.setDevice, Function.update_self]
    exact hqueue
  · simp only [State.setDevice, List.filterMap_append, ← List.append_assoc]
    rw [hflight, L.deliver_concat hmax]
    simp [inFlight?, List.filterMap_cons, hf, hpacket]
  · intro _
    simp only [State.setDevice, Function.update_self, List.filterMap_append, hnone]
    rw [L.readyAfter_concat hmax]
    exact ⟨rfl, by simp [completion?, Link.occupies, hpacket]⟩
  · intro hb
    simp [State.setDevice] at hb
  · rw [L.starts_concat hmax]
    intro x hx
    rcases List.mem_append.1 hx with hx | hx
    · exact hstarted x hx
    · cases List.mem_singleton.1 hx
      exact le_rfl
  · intro e he
    rcases List.mem_append.1 he with he | he
    · exact .inl he
    · refine .inr ?_
      rcases List.mem_cons.1 he with rfl | he
      · exact ⟨Nat.le_add_right _ _, trivial⟩
      · cases List.mem_singleton.1 he
        refine ⟨Nat.le_add_right _ _, ?_⟩
        show f.processHeader.isSome = true
        rw [hf]
        rfl
  · intro d' hd' h
    refine h.congr ?_ rfl rfl ?_ ?_ le_rfl
    · simp [State.setDevice, Function.update_of_ne hd']
    · simp [State.setDevice, inFlight?, hd'.symm]
    · simp [State.setDevice, completion?, hd'.symm]

/-! ## The cases of `Send` -/

/-- The cases of a `Send` that is given a protocol number it knows. -/
theorem send_of_overflow (hf : addHeader p n = some f)
    (hover : L.wouldOverflow d p (s.devices d).queue = true) :
    s.send L d p n = some (s, false) := by
  rw [State.send, hf]
  simp only [Option.bind_eq_bind, Option.bind_some, hover, if_true]
  rfl

theorem send_of_busy (hf : addHeader p n = some f)
    (hover : L.wouldOverflow d p (s.devices d).queue = false) (hb : (s.devices d).busy = true) :
    s.send L d p n =
      some (s.setDevice d { s.devices d with queue := L.enqueue f (s.devices d).queue }, true) := by
  rw [State.send, hf]
  simp only [Option.bind_eq_bind, Option.bind_some, hover, hb]
  rfl

theorem send_of_ready (hf : addHeader p n = some f)
    (hover : L.wouldOverflow d p (s.devices d).queue = false) (hb : (s.devices d).busy = false) :
    s.send L d p n =
      (L.dequeue (L.enqueue f (s.devices d).queue)).bind fun x =>
        x.1.bind fun packet =>
          (s.setDevice d { s.devices d with queue := x.2 }).transmitStart L d packet := by
  rw [State.send, hf]
  simp only [Option.bind_eq_bind, Option.bind_some, hover, hb]
  rfl

/-! ## The cases of `TransmitComplete` -/

theorem transmitComplete_eq (hb : (s.devices d).busy = true)
    (hpkt : (s.devices d).currentPkt.isSome = true) :
    s.transmitComplete L d =
      (L.dequeue (s.devices d).queue).bind fun x =>
        match x.1 with
        | none => some (s.setDevice d ⟨false, none, x.2⟩)
        | some f => ((s.setDevice d ⟨false, none, x.2⟩).transmitStart L d f).map Prod.fst := by
  rw [State.transmitComplete, hb, hpkt]
  simp only [guard, if_true]
  cases L.dequeue (s.devices d).queue with
  | none =>
      rfl
  | some x =>
      rcases x with ⟨packet, queue⟩
      cases packet with
      | none =>
          rfl
      | some f =>
          show ((s.setDevice d ⟨false, none, queue⟩).transmitStart L d f).bind _ =
            ((s.setDevice d ⟨false, none, queue⟩).transmitStart L d f).map Prod.fst
          cases (s.setDevice d ⟨false, none, queue⟩).transmitStart L d f <;> rfl

/-! ## The link -/

structure Valid (L : Link α) (s : State α) : Prop where
  due : ∀ e ∈ s.events, s.now ≤ e.ts
  framed : ∀ e ∈ s.events, Framed e
  carried : ∀ d, Carried L d s

theorem Valid.init : Valid L {} where
  due e he := by cases he
  framed e he := by cases he
  carried d := by
    refine ⟨[], [], rfl, ⟨rfl, rfl⟩, rfl, ?_, fun _ => ⟨rfl, rfl, le_rfl⟩, ?_, ?_⟩
    · intro hb
      cases hb
    · intro x hx
      cases hx
    · intro x hx
      cases hx

/-- A step of one direction. -/
theorem Local.valid (hlocal : Local L d s s') (hdue : ∀ e ∈ s.events, s.now ≤ e.ts)
    (hframed : ∀ e ∈ s.events, Framed e) (hother : ∀ d', d' ≠ d → Carried L d' s)
    (hd : Carried L d s') : Valid L s' where
  due e he := by
    rw [hlocal.now_eq]
    rcases hlocal.due e he with he | he
    · exact hdue e he
    · exact he.1
  framed e he := by
    rcases hlocal.due e he with he | he
    · exact hframed e he
    · exact he.2
  carried d' := by
    by_cases hdd : d' = d
    · exact hdd ▸ hd
    · exact hlocal.other d' hdd (hother d' hdd)

namespace Valid

theorem setNow (h : Valid L s) (hnow : s.now ≤ t) (hdue : ∀ e ∈ s.events, t ≤ e.ts) :
    Valid L { s with now := t } where
  due := hdue
  framed := h.framed
  carried d := (h.carried d).congr rfl rfl rfl rfl rfl hnow

/-- The step was a `Send` that took the packet. -/
theorem accept (h : Valid L s) (hlocal : Local L d s s')
    (hacc : s.accepted d ++ [(s.now, p, n)] = begun ++ waiting) (hd : Sent L d s' begun waiting) :
    Valid L (s'.accept d p n) where
  due e he := by
    show s'.now ≤ e.ts
    rw [hlocal.now_eq]
    rcases hlocal.due e he with he | he
    · exact h.due e he
    · exact he.1
  framed e he := by
    rcases hlocal.due e he with he | he
    · exact h.framed e he
    · exact he.2
  carried d' := by
    by_cases hdd : d' = d
    · subst hdd
      refine ⟨begun, waiting, ?_, hd.congr rfl rfl rfl rfl le_rfl⟩
      show Function.update s'.accepted d' (s'.accepted d' ++ [(s'.now, p, n)]) d' = _
      rw [Function.update_self, hlocal.accepted_eq, hlocal.now_eq, hacc]
    · refine (hlocal.other d' hdd (h.carried d')).congr rfl ?_ rfl rfl rfl le_rfl
      exact Function.update_of_ne hdd ..

theorem send {taken : Bool} (h : Valid L s) (hs : s.send L d p n = some (s', taken)) :
    Valid L (if taken then s'.accept d p n else s') := by
  cases hf : addHeader p n with
  | none =>
      simp [State.send, hf] at hs
  | some f =>
      have hx := processHeader_addHeader hf
      rcases h.carried d with ⟨begun, waiting, hacc, hd⟩
      cases hover : L.wouldOverflow d p (s.devices d).queue with
      | true =>
          cases (send_of_overflow hf hover).symm.trans hs
          exact h
      | false =>
          cases hb : (s.devices d).busy with
          | true =>
              cases (send_of_busy hf hover hb).symm.trans hs
              refine h.accept (.setDevice _) ?_ (hd.enqueue hb hx)
              rw [hacc, List.append_assoc]
          | false =>
              rcases hd.idle hb with ⟨rfl, hnone, hle⟩
              rw [send_of_ready hf hover hb] at hs
              rcases Option.bind_eq_some_iff.1 hs with ⟨⟨packet, queue⟩, hdequeue, hstart⟩
              rcases (hd.queue.enqueue hx).dequeue_some hdequeue with ⟨f', rfl, hf', hqueue, -⟩
              rcases transmitStart_spec { s.devices d with queue := queue } begun [] hb hf' hqueue
                hd.flight hnone hd.past hd.started (max_eq_right hle) with ⟨s₁, hs₁, hd', hlocal⟩
              cases hs₁.symm.trans hstart
              refine h.accept hlocal ?_ hd'
              rw [hacc, List.append_nil, List.append_nil]

/-! ## The next event -/

/-- The event that is popped belongs to at most one direction. -/
theorem popped_other (h : Valid L s) (hpop : pop s.events = some (e, rest))
    (hflight : inFlight? d e = none) (hcompletion : completion? d e = none) :
    Carried L d { s with now := e.ts, events := rest } := by
  rcases pop_split hpop with ⟨l₁, l₂, hq, hrest, -, -⟩
  refine (h.carried d).congr rfl rfl rfl ?_ ?_ (h.due e (mem_of_pop hpop))
  · simp only [hq, hrest, List.filterMap_append, List.filterMap_cons, hflight]
  · simp only [hq, hrest, List.filterMap_append, List.filterMap_cons, hcompletion]

/-- A packet of the device `d` arrives at the other one. -/
theorem receive (h : Valid L s) (hpop : pop s.events = some (e, rest))
    (he : e.action = .receive (!d) f)
    (hs : { s with now := e.ts, events := rest }.receive (!d) f = some s') : Valid L s' := by
  rcases Option.bind_eq_some_iff.1 hs with ⟨x, hf, hs'⟩
  cases hs'
  rcases h.carried d with ⟨begun, waiting, hacc, hd⟩
  have hflights : s.events.filterMap (inFlight? d) = (e.ts, x) :: rest.filterMap (inFlight? d) := by
    rw [filterMap_pop_of_sorted inFlight?_key hd.flight_sorted hpop]
    simp [inFlight?, he, hf]
  have hcompletions : rest.filterMap (completion? d) = s.events.filterMap (completion? d) := by
    rw [filterMap_pop_of_sorted completion?_key hd.completions_sorted hpop]
    simp [completion?, he]
  have hnow := h.due e (mem_of_pop hpop)
  refine ⟨fun x hx => pop_le hpop (mem_rest_of_pop hpop hx),
    fun x hx => h.framed x (mem_rest_of_pop hpop hx), ?_⟩
  intro d'
  by_cases hdd : d' = d
  · subst hdd
    refine ⟨begun, waiting, hacc, hd.queue, ?_, ?_, ?_, fun x hx => (hd.past x hx).trans hnow,
      fun x hx => (hd.started x hx).trans hnow⟩
    · show Function.update s.received (!d') (s.received (!d') ++ [(e.ts, x)]) (!d') ++
        rest.filterMap (inFlight? d') = _
      rw [Function.update_self, List.append_assoc, List.singleton_append, ← hflights]
      exact hd.flight
    · intro hb
      refine ⟨(hd.busy hb).1, hcompletions.trans (hd.busy hb).2⟩
    · intro hb
      rcases hd.idle hb with ⟨hw, hnone, hle⟩
      exact ⟨hw, hcompletions.trans hnone, hle.trans hnow⟩
  · refine (h.popped_other hpop (d := d') ?_ ?_).congr rfl rfl ?_ rfl rfl le_rfl
    · simp [inFlight?, he, Ne.symm hdd]
    · simp [completion?, he]
    · exact Function.update_of_ne (by simpa using hdd) ..

/-- The device whose transmission ends is busy. -/
theorem busy_of_completion (h : Valid L s) (hpop : pop s.events = some (e, rest))
    (he : e.action = .transmitComplete d) :
    (s.devices d).busy = true ∧ (s.devices d).currentPkt.isSome = true := by
  rcases h.carried d with ⟨begun, waiting, -, hd⟩
  have hmem : e.ts ∈ s.events.filterMap (completion? d) :=
    List.mem_filterMap.2 ⟨e, mem_of_pop hpop, by simp [completion?, he]⟩
  cases hb : (s.devices d).busy with
  | false =>
      rw [(hd.idle hb).2.1] at hmem
      cases hmem
  | true =>
      exact ⟨rfl, (hd.busy hb).1⟩

/-- A transmission ends, and the next one begins if a packet waits. -/
theorem transmitComplete (h : Valid L s) (hpop : pop s.events = some (e, rest))
    (he : e.action = .transmitComplete d)
    (hs : { s with now := e.ts, events := rest }.transmitComplete L d = some s') : Valid L s' := by
  rcases h.carried d with ⟨begun, waiting, hacc, hd⟩
  have hflights : rest.filterMap (inFlight? d) = s.events.filterMap (inFlight? d) := by
    rw [filterMap_pop_of_sorted inFlight?_key hd.flight_sorted hpop]
    simp [inFlight?, he]
  have hcompletions : s.events.filterMap (completion? d) = e.ts :: rest.filterMap (completion? d) := by
    rw [filterMap_pop_of_sorted completion?_key hd.completions_sorted hpop]
    simp [completion?, he]
  have hnow := h.due e (mem_of_pop hpop)
  have hdue : ∀ x ∈ rest, e.ts ≤ x.ts := fun x hx => pop_le hpop (mem_rest_of_pop hpop hx)
  have hframed : ∀ x ∈ rest, Framed x := fun x hx => h.framed x (mem_rest_of_pop hpop hx)
  have hother : ∀ d', d' ≠ d → Carried L d' { s with now := e.ts, events := rest } := by
    intro d' hd'
    refine h.popped_other hpop ?_ ?_
    · simp [inFlight?, he]
    · simp [completion?, he, hd'.symm]
  rcases h.busy_of_completion hpop he with ⟨hb, hpkt⟩
  rcases List.cons.inj (hcompletions.symm.trans (hd.busy hb).2) with ⟨hts, hnone⟩
  have hflight : s.received (!d) ++ rest.filterMap (inFlight? d) = L.deliver d begun := by
    rw [hflights, hd.flight]
  rw [transmitComplete_eq (s := { s with now := e.ts, events := rest }) hb hpkt] at hs
  rcases Option.bind_eq_some_iff.1 hs with ⟨⟨packet, queue⟩, hdequeue, hstart⟩
  cases waiting with
  | nil =>
      cases hd.queue.dequeue_nil.symm.trans hdequeue
      cases hstart
      refine (Local.setDevice _).valid hdue hframed hother ⟨begun, [], hacc, ?_⟩
      have hself : (State.setDevice { s with now := e.ts, events := rest } d
          ⟨false, none, (s.devices d).queue⟩).devices d = ⟨false, none, (s.devices d).queue⟩ :=
        Function.update_self ..
      refine ⟨?_, hflight, ?_, ?_, ?_, fun x hx => (hd.started x hx).trans hnow⟩
      · rw [hself]
        exact hd.queue
      · rw [hself]
        intro hb'
        cases hb'
      · intro _
        exact ⟨rfl, hnone, hts.ge⟩
      · intro x hx
        cases hx
  | cons x waiting =>
      have hx := hd.past x (List.mem_cons_self ..)
      rcases hd.queue.dequeue_some hdequeue with ⟨f, rfl, hf, hqueue, -⟩
      rcases transmitStart_spec (s := { s with now := e.ts, events := rest }) (t := x.1)
        ⟨false, none, queue⟩ begun waiting rfl hf hqueue hflight hnone
        (fun y hy => (hd.past y (List.mem_cons_of_mem _ hy)).trans hnow)
        (fun y hy => (hd.started y hy).trans hnow)
        (by rw [← hts, max_eq_left (hx.trans hnow)]) with ⟨s₁, hs₁, hd', hlocal⟩
      rcases Option.map_eq_some_iff.1 hstart with ⟨⟨s₂, taken⟩, hs₂, rfl⟩
      cases hs₁.symm.trans hs₂
      refine hlocal.valid hdue hframed hother ⟨begun ++ [x], waiting, ?_, hd'⟩
      rw [hlocal.accepted_eq, List.append_assoc]
      exact hacc

theorem fire (h : Valid L s) (hs : next L .fire s = some s') : Valid L s' := by
  cases hpop : pop s.events with
  | none =>
      simp [next, hpop] at hs
  | some popped =>
      rcases popped with ⟨e, rest⟩
      cases he : e.action with
      | transmitComplete d =>
          simp only [next, hpop, he] at hs
          exact h.transmitComplete hpop he hs
      | receive d f =>
          simp only [next, hpop, he] at hs
          rw [← Bool.not_not d] at he hs
          exact h.receive hpop he hs

theorem next (h : Valid L s) {c : Input α} (hc : timely s c)
    (hs : PointToPoint.next L c s = some s') : Valid L s' := by
  cases c with
  | send t d p n =>
      rcases Option.bind_eq_some_iff.1 hs with ⟨⟨s₁, taken⟩, hsend, hs'⟩
      cases hs'
      exact (h.setNow hc.1 hc.2).send hsend
  | fire =>
      exact h.fire hs

end Valid

/-! ## Every run of a link -/

theorem valid_of_reachable (hr : Transition.Reachable (system L) timely s) : Valid L s := by
  refine hr.invariant Valid.init ?_
  intro s c s' _ h hc hs
  exact h.next hc hs

/-- The stack sends IPv4 and IPv6 packets, and the bytes that wait at a device fit into its `m_nBytes`. -/
def fits (L : Link α) (s : State α) : Input α → Prop
  | .send _ d p protocolNumber =>
      (etherToPpp protocolNumber).isSome = true ∧
        L.bytes (s.devices d).queue + L.size p < 2 ^ 32
  | .fire => ∀ d, L.bytes (s.devices d).queue < 2 ^ 32

/-- A packet that fits does not fail an assertion of `Send`. -/
theorem Valid.send_isSome (h : Valid L s) (hproto : (etherToPpp n).isSome = true)
    (hfit : L.bytes (s.devices d).queue + L.size p < 2 ^ 32) : (s.send L d p n).isSome := by
  rcases Option.isSome_iff_exists.1 hproto with ⟨protocol, hppp⟩
  have hf : addHeader p n = some ⟨protocol, p⟩ := by
    rw [addHeader, hppp]
    rfl
  rcases h.carried d with ⟨begun, waiting, -, hd⟩
  cases hover : L.wouldOverflow d p (s.devices d).queue with
  | true =>
      rw [send_of_overflow hf hover]
      rfl
  | false =>
      cases hb : (s.devices d).busy with
      | true =>
          rw [send_of_busy hf hover hb]
          rfl
      | false =>
          rcases hd.idle hb with ⟨rfl, -, -⟩
          have hholds := hd.queue.enqueue (processHeader_addHeader hf)
          have hbytes : L.bytes (L.enqueue ⟨protocol, p⟩ (s.devices d).queue) < 2 ^ 32 := by
            rw [Holds.bytes_enqueue]
            exact hfit
          rcases Option.isSome_iff_exists.1 (hholds.dequeue_isSome hbytes) with
            ⟨⟨packet, queue⟩, hdequeue⟩
          rcases hholds.dequeue_some hdequeue with ⟨f, rfl, -, -, -⟩
          have hself : (s.setDevice d { s.devices d with queue := queue }).devices d =
              { s.devices d with queue := queue } := Function.update_self ..
          rw [send_of_ready hf hover hb, hdequeue, Option.bind_some, Option.bind_some,
            transmitStart_eq (hself.symm ▸ hb)]
          rfl

/-- Nor does an event. -/
theorem Valid.fire_isSome (h : Valid L s) (hne : s.events ≠ [])
    (hfit : ∀ d, L.bytes (s.devices d).queue < 2 ^ 32) : (PointToPoint.next L .fire s).isSome := by
  cases hpop : pop s.events with
  | none =>
      exact absurd (pop_eq_none.1 hpop) hne
  | some popped =>
      rcases popped with ⟨e, rest⟩
      cases he : e.action with
      | transmitComplete d =>
          rcases h.busy_of_completion hpop he with ⟨hb, hpkt⟩
          rcases h.carried d with ⟨begun, waiting, -, hd⟩
          rcases Option.isSome_iff_exists.1 (hd.queue.dequeue_isSome (hfit d)) with
            ⟨⟨packet, queue⟩, hdequeue⟩
          simp only [PointToPoint.next, hpop, he]
          rw [transmitComplete_eq (s := { s with now := e.ts, events := rest }) hb hpkt, hdequeue,
            Option.bind_some]
          cases packet with
          | none =>
              rfl
          | some f =>
              have hself : (State.setDevice { s with now := e.ts, events := rest } d
                  ⟨false, none, queue⟩).devices d = ⟨false, none, queue⟩ := Function.update_self ..
              show (Option.map Prod.fst _).isSome = true
              rw [transmitStart_eq (by rw [hself])]
              rfl
      | receive d f =>
          have hframed := h.framed e (mem_of_pop hpop)
          rw [Framed, he] at hframed
          rcases Option.isSome_iff_exists.1 hframed with ⟨x, hx⟩
          simp only [PointToPoint.next, hpop, he]
          rw [State.receive, hx]
          rfl

/-- No assertion of the source fails in what fits. -/
theorem Valid.next_isSome (h : Valid L s) {c : Input α} (hc : timely s c) (hfit : fits L s c)
    (hne : c = .fire → s.events ≠ []) : (PointToPoint.next L c s).isSome := by
  cases c with
  | send t d p n =>
      have hsend := (h.setNow hc.1 hc.2).send_isSome hfit.1 hfit.2
      rcases Option.isSome_iff_exists.1 hsend with ⟨⟨s', taken⟩, hs'⟩
      rw [PointToPoint.next, hs']
      rfl
  | fire =>
      exact h.fire_isSome (hne rfl) hfit

/-- A packet waits for the transmission of another one. -/
theorem Sent.busy_of_waiting (h : Sent L d s begun waiting) (hne : waiting ≠ []) :
    (s.devices d).busy = true := by
  cases hb : (s.devices d).busy with
  | false => exact absurd (h.idle hb).1 hne
  | true => rfl

/-- The end of a transmission is an event. -/
theorem Sent.ready_due (h : Sent L d s begun waiting) (hb : (s.devices d).busy = true) :
    ∃ e ∈ s.events, L.readyAfter d begun = e.ts := by
  have hmem : L.readyAfter d begun ∈ s.events.filterMap (completion? d) := by
    rw [(h.busy hb).2]
    exact List.mem_singleton_self _
  rcases List.mem_filterMap.1 hmem with ⟨e, he, hcompletion⟩
  exact ⟨e, he, completion?_key e _ hcompletion⟩

/-- What a link has handed up is what it was to deliver until now. -/
theorem received_deliver (hr : Transition.Reachable (system L) timely s) (d : Bool) :
    ∃ pending, L.deliver d (s.accepted d) = s.received (!d) ++ pending ∧
      (∀ x ∈ pending, s.now ≤ x.1) ∧ (s.events = [] → pending = []) := by
  have h := valid_of_reachable hr
  rcases h.carried d with ⟨begun, waiting, hacc, hd⟩
  refine ⟨s.events.filterMap (inFlight? d) ++ (starts (L.occupies d) (L.readyAfter d begun)
    waiting).map fun x => (x.1 + (L.txTime d x.2.1 + L.delay), x.2), ?_, ?_, ?_⟩
  · rw [hacc, L.deliver_append, ← hd.flight, List.append_assoc]
  · intro x hx
    rcases List.mem_append.1 hx with hx | hx
    · rcases List.mem_filterMap.1 hx with ⟨e, he, hflight⟩
      rw [inFlight?_key e x hflight]
      exact h.due e he
    · rcases List.mem_map.1 hx with ⟨y, hy, rfl⟩
      have hne : waiting ≠ [] := by
        rintro rfl
        cases hy
      rcases hd.ready_due (hd.busy_of_waiting hne) with ⟨e, he, hts⟩
      have hnow := h.due e he
      have hstart := le_of_mem_starts hy
      show s.now ≤ y.1 + (L.txTime d y.2.1 + L.delay)
      omega
  · intro hnil
    have hwaiting : waiting = [] := by
      by_contra hne
      rcases hd.ready_due (hd.busy_of_waiting hne) with ⟨e, he, -⟩
      rw [hnil] at he
      cases he
    rw [hnil, hwaiting]
    rfl

/-- In every state of a run the assertions of the source hold in what may happen next, if it fits, and a
device has handed up the first packets of what its peer is to deliver: all that are due before now, each
of them once, in order and on time, with the protocol number that it was sent with. -/
theorem link_correct (hr : Transition.Reachable (system L) timely s) :
    (∀ c, timely s c → fits L s c → (c = .fire → s.events ≠ []) → (next L c s).isSome) ∧
      ∀ d, ∃ pending, L.deliver d (s.accepted d) = s.received (!d) ++ pending ∧
        (∀ x ∈ pending, s.now ≤ x.1) ∧ (s.events = [] → pending = []) :=
  ⟨fun _ hc hfit hne => (valid_of_reachable hr).next_isSome hc hfit hne, received_deliver hr⟩

/-- Two packets that cross: the second one is still on its way. -/
theorem link_correct_two_devices :
    ∃ (L : Link ℕ) (s : State ℕ), s.accepted true = [(1, 3, 0x86DD)] ∧
      s.received false = [(8, 3, 0x86DD)] ∧ (next L .fire s).isSome ∧
      ∀ d, ∃ pending, L.deliver d (s.accepted d) = s.received (!d) ++ pending ∧
        (∀ x ∈ pending, s.now ≤ x.1) ∧ (s.events = [] → pending = []) := by
  rcases Transition.exists_reachable_of_runInputs
    (S := system { getSize := id, delay := 2, device := fun _ => { bytesTxTime := id } })
    (G := timely) [.send 0 false 5 0x0800, .send 1 true 3 0x86DD, .fire, .fire, .fire]
    (fun s => decide (s.accepted true = [(1, 3, 0x86DD)] ∧ s.received false = [(8, 3, 0x86DD)] ∧
      s.events ≠ [] ∧
      ∀ d, Link.bytes { getSize := id, delay := 2, device := fun _ => { bytesTxTime := id } }
        (s.devices d).queue < 2 ^ 32)) (by decide) with ⟨s, hr, hs⟩
  rcases of_decide_eq_true hs with ⟨hacc, hreceived, hne, hfit⟩
  exact ⟨_, s, hacc, hreceived, (link_correct hr).1 .fire trivial hfit (fun _ => hne),
    (link_correct hr).2⟩

end SyncPaxos.PointToPoint
