import SyncPaxos.Library.Counting
import SyncPaxos.Model.Network
import SyncPaxos.Run.Handling

/-!
# Requests — each request is queued at most once

When no two requests carry the same timestamp and the network copies no request, a timestamp is
queued at most once in the whole cluster.  `QueuedDistinct` states that; it is what the rest of
the development assumes of proposal ids, whatever happens to Paxos frames.

One client with a positive send interval never repeats a timestamp.
-/

namespace SyncPaxos

open DiscreteEvent Counting

/-- No timestamp has been queued twice, at one server or at two. -/
structure World.QueuedDistinct (w : World) : Prop where
  nodup : ∀ i, ((w.traces i).queued.map RequestFrame.timestamp).Nodup
  unique : ∀ i j, ∀ r ∈ (w.traces i).queued, ∀ r' ∈ (w.traces j).queued,
    r.timestamp = r'.timestamp → i = j

variable {C : Cluster} {G : World → Choice → Prop} {w w' : World} {c : Choice}

theorem DistinctTimestamps.of_step (h : World.step C c w = some w')
    (hd : w'.DistinctTimestamps) : w.DistinctTimestamps := by
  have hpre := ((step_sent_grows h).filterMap Packet.request?).map RequestFrame.timestamp
  exact hd.sublist hpre.sublist

theorem QueuedDistinct.of_step (h : World.step C c w = some w')
    (hd : w'.QueuedDistinct) : w.QueuedDistinct := by
  have hpre : ∀ i, (w.traces i).queued <+: (w'.traces i).queued :=
    fun i => (step_trace_grows h i).filterMap Record.queued?
  constructor
  · intro i
    exact (hd.nodup i).sublist ((hpre i).map RequestFrame.timestamp).sublist
  · intro i j r hr r' hr' ht
    exact hd.unique i j r ((hpre i).subset hr) r' ((hpre j).subset hr') ht

/-! ## Counting the packets of a timestamp -/

/-- A request packet with timestamp `t`. -/
def Packet.hasTimestamp (t : Time) (packet : Packet) : Bool :=
  packet.request?.any (fun r => r.timestamp == t)

/-- A request packet with timestamp `t` for server `i`. -/
def Packet.hasTimestampAt (i : ℕ) (t : Time) (packet : Packet) : Bool :=
  (packet.requestTo? i).any (fun r => r.timestamp == t)

theorem hasTimestampAt_iff {i : ℕ} {t : Time} {packet : Packet} :
    packet.hasTimestampAt i t = true ↔ packet.hasTimestamp t = true ∧ packet.dst = i := by
  by_cases hi : packet.dst = i <;>
    simp [Packet.hasTimestampAt, Packet.hasTimestamp, Packet.requestTo?, hi]

/-- At most one packet with a given timestamp was sent. -/
theorem sent_hasTimestamp_le (hd : w.DistinctTimestamps) (t : Time) :
    w.sent.countP (Packet.hasTimestamp t) ≤ 1 := by
  have hcount : w.sent.countP (Packet.hasTimestamp t) =
      (w.requests.map RequestFrame.timestamp).count t := by
    rw [List.count, List.countP_map, World.requests, countP_filterMap_any]
    rfl
  rw [hcount]
  exact List.nodup_iff_count_le_one.1 hd t

theorem arrived_hasTimestamp_le (hG : ∀ w c, G w c → noRequestCopies w c)
    (hr : Reachable C G w) (hd : w.DistinctTimestamps) (t : Time) :
    w.arrived.countP (Packet.hasTimestamp t) ≤ 1 := by
  have hG' : ∀ w c, G w c →
      onTransit (fun _ p _ fate => p.hasTimestamp t = true → fate.isCopy = false) w c := by
    intro w c hg
    refine onTransit_mono ?_ (hG w c hg)
    intro _ p _ fate hrule ht
    refine hrule ?_
    cases hp : p.payload with
    | request r =>
        simp [Packet.isRequest, hp]
    | paxos f =>
        simp [Packet.hasTimestamp, Packet.request?, hp] at ht
  have hle := transit_le hG' hr
  have hsent := sent_hasTimestamp_le hd t
  omega

theorem queued_count_le (hr : Reachable C G w) (i : ℕ) (t : Time) :
    ((w.traces i).queued.map RequestFrame.timestamp).count t ≤
      w.arrived.countP (Packet.hasTimestampAt i t) := by
  have hsub : ((w.traces i).queued).Sublist (w.arrived.filterMap (Packet.requestTo? i)) :=
    (List.sublist_append_left _ _).trans (creations hr i)
  calc ((w.traces i).queued.map RequestFrame.timestamp).count t
      = (w.traces i).queued.countP (fun r => r.timestamp == t) := by
        rw [List.count, List.countP_map]
        rfl
    _ ≤ (w.arrived.filterMap (Packet.requestTo? i)).countP (fun r => r.timestamp == t) :=
        hsub.countP_le
    _ = w.arrived.countP (Packet.hasTimestampAt i t) :=
        countP_filterMap_any _ _ _

/-- Distinct timestamps are queued at most once, if the network copies no request. -/
theorem queuedDistinct (hG : ∀ w c, G w c → noRequestCopies w c) (hr : Reachable C G w)
    (hd : w.DistinctTimestamps) : w.QueuedDistinct := by
  constructor
  · intro i
    refine List.nodup_iff_count_le_one.2 ?_
    intro t
    have hqueued := queued_count_le hr i t
    have harrived := arrived_hasTimestamp_le hG hr hd t
    have hmono : w.arrived.countP (Packet.hasTimestampAt i t) ≤
        w.arrived.countP (Packet.hasTimestamp t) :=
      List.countP_mono_left (fun p _ hp => (hasTimestampAt_iff.1 hp).1)
    omega
  · intro i j r hri r' hrj ht
    by_contra hij
    have hi : 0 < ((w.traces i).queued.map RequestFrame.timestamp).count r.timestamp :=
      List.count_pos_iff.2 (List.mem_map_of_mem hri)
    have hj : 0 < ((w.traces j).queued.map RequestFrame.timestamp).count r.timestamp := by
      rw [ht]
      exact List.count_pos_iff.2 (List.mem_map_of_mem hrj)
    have hqi := queued_count_le hr i r.timestamp
    have hqj := queued_count_le hr j r.timestamp
    have harrived := arrived_hasTimestamp_le hG hr hd r.timestamp
    -- A packet is for one server only, so the two counts add up.
    have hsum : w.arrived.countP (Packet.hasTimestampAt i r.timestamp) +
        w.arrived.countP (Packet.hasTimestampAt j r.timestamp) ≤
          w.arrived.countP (Packet.hasTimestamp r.timestamp) := by
      refine countP_add_le_of_disjoint (fun p hp => (hasTimestampAt_iff.1 hp).1)
        (fun p hp => (hasTimestampAt_iff.1 hp).1) ?_ _
      intro p hp
      refine Bool.eq_false_iff.2 ?_
      intro hp'
      exact hij ((hasTimestampAt_iff.1 hp).2.symm.trans (hasTimestampAt_iff.1 hp').2)
    omega

/-! ## One client -/

/-- The client that an event runs. -/
def Callback.client? : Callback → Option ℕ
  | .clientStart k => some k
  | .sendRequest k => some k
  | _ => none

namespace World

/-- When the clients are to send next. -/
def nextSends (w : World) : List Time :=
  w.events.filterMap (fun e => e.action.client?.map (fun _ => e.ts))

/-- The timestamps sent and the next one to come increase. -/
structure OneSource (w : World) : Prop where
  increasing : (w.requests.map RequestFrame.timestamp ++ w.nextSends).Pairwise (· < ·)
  single : w.nextSends.length ≤ 1

end World

theorem oneSource_init (hone : C.numClients = 1) : (World.init C).OneSource := by
  have happ : ∀ a ∈ C.initOrder,
      (a.initEvents C).filterMap (fun e => e.action.client?.map (fun _ => e.ts)) =
        if a = .client 0 then [C.clientStartTime] else [] := by
    intro a ha
    cases a with
    | client k =>
        have hk : k < C.numClients := client_mem_initOrder.1 ha
        obtain rfl : k = 0 := by omega
        simp [App.initEvents, Callback.client?]
    | server i =>
        by_cases hz : C.stopTime = 0 <;> simp [App.initEvents, Callback.client?, hz]
  have hcall : (World.init C).nextSends = [C.clientStartTime] := by
    calc (World.init C).nextSends
        = (World.init C).events.filterMap (fun e => e.action.client?.map (fun _ => e.ts)) := rfl
      _ = _ := init_filterMap happ
      _ = [C.clientStartTime] := if_pos (client_mem_initOrder.2 (hone ▸ Nat.one_pos))
  constructor
  · change ([] ++ (World.init C).nextSends).Pairwise (· < ·)
    simp [hcall]
  · simp [hcall]

/-- An event that runs no client schedules none, and what it sends is a server's and no request. -/
theorem emitted_client_quiet {e x : Event} (hquiet : e.action.client? = none)
    (hx : x ∈ emitted C c w e) :
    x.action.client? = none ∧
      ∀ p, x.action.sentPacket? = some p → (∃ i, p.src = .server i) ∧ p.request? = none := by
  constructor
  · rcases e with ⟨now, action⟩
    cases action with
    | server k task =>
        simp only [emitted] at hx
        rw [Server.run_events] at hx
        rcases List.mem_append.1 hx with hx | hx
        · rcases List.mem_flatMap.1 hx with ⟨r, -, hr⟩
          rcases mem_sendsOf hr with ⟨f, dst, rfl⟩
          rfl
        · rcases Server.mem_newTasks C k now hx with ⟨t, ht, -⟩
          rw [ht]
          rfl
    | clientStart k =>
        cases hquiet
    | sendRequest k =>
        cases hquiet
    | transit packet hop =>
        cases hf : c.fate with
        | arrive =>
            simp only [emitted, hf] at hx
            rcases mem_arrivalEvents hx with ⟨r, -, -, -, rfl⟩ | ⟨f, task, -, -, -, rfl⟩ <;> rfl
        | forward d =>
            simp only [emitted, hf, List.mem_singleton] at hx
            subst hx
            rfl
        | duplicate d₁ d₂ =>
            simp only [emitted, hf, List.mem_cons, List.not_mem_nil, or_false] at hx
            rcases hx with rfl | rfl <;> rfl
        | lose =>
            simp [emitted, hf] at hx
  · intro p hp
    -- What is sent comes from a line of a server or from a client, and no client runs.
    rcases mem_emitted_sent hx hp with ⟨i, task, r, -, -, hsend⟩ | ⟨k, haction, -⟩
    · rcases mem_sendsOf hsend with ⟨f, dst, rfl⟩
      obtain rfl := Option.some.inj hp
      exact ⟨⟨i, rfl⟩, rfl⟩
    · rcases haction with haction | haction <;> rw [haction] at hquiet <;> cases hquiet

/-- The event of a client runs its `SendRequest`. -/
theorem emitted_of_client {e : Event} {k : ℕ} (hcl : e.action.client? = some k) :
    emitted C c w e = ((w.clients k).sendRequest C k e.ts c.value).2 := by
  rcases e with ⟨now, action⟩
  cases action with
  | clientStart k' =>
      obtain rfl : k' = k := Option.some.inj hcl
      rfl
  | sendRequest k' =>
      obtain rfl : k' = k := Option.some.inj hcl
      rfl
  | _ =>
      cases hcl

theorem StepSpec.requests {e : Event} {rest : List Event} (hs : StepSpec C c w w' e rest) :
    w'.requests = w.requests ++
      (emitted C c w e).filterMap (fun x => x.action.sentPacket?.bind Packet.request?) := by
  rw [World.requests, hs.sent, List.filterMap_append, List.filterMap_filterMap, World.requests]

theorem StepSpec.nextSends {e : Event} {rest : List Event} (hs : StepSpec C c w w' e rest) :
    w'.nextSends = rest.filterMap (fun x => x.action.client?.map (fun _ => x.ts)) ++
      (emitted C c w e).filterMap (fun x => x.action.client?.map (fun _ => x.ts)) := by
  rw [World.nextSends, hs.events, List.filterMap_append]

/-- The client calls and the requests of a step that runs no client. -/
theorem StepSpec.client_quiet {e : Event} {rest : List Event} (hs : StepSpec C c w w' e rest)
    (hquiet : e.action.client? = none) :
    w'.requests = w.requests ∧ w'.nextSends = w.nextSends := by
  constructor
  · rw [hs.requests, List.filterMap_eq_nil_iff.2, List.append_nil]
    intro x hx
    refine Option.bind_eq_none_iff.2 ?_
    intro p hp
    exact ((emitted_client_quiet hquiet hx).2 p hp).2
  · have hnil : (emitted C c w e).filterMap
        (fun x => x.action.client?.map (fun _ => x.ts)) = [] := by
      refine List.filterMap_eq_nil_iff.2 ?_
      intro x hx
      simp [(emitted_client_quiet hquiet hx).1]
    rw [hs.nextSends, hnil, List.append_nil, World.nextSends]
    rcases pop_split hs.pop with ⟨l₁, l₂, hq, hrest, -, -⟩
    simp [hq, hrest, hquiet]

/-- A step that runs a client sends at most one request, with the time as its timestamp, and
leaves at most one call, one send interval later. -/
theorem emitted_client {e : Event} {k : ℕ} (hcl : e.action.client? = some k) :
    ((emitted C c w e).filterMap (fun x => x.action.sentPacket?.bind Packet.request?)).map
          RequestFrame.timestamp ++
        (emitted C c w e).filterMap (fun x => x.action.client?.map (fun _ => x.ts)) = [] ∨
      ((emitted C c w e).filterMap (fun x => x.action.sentPacket?.bind Packet.request?)).map
            RequestFrame.timestamp = [e.ts] ∧
        (emitted C c w e).filterMap (fun x => x.action.client?.map (fun _ => x.ts)) =
          [e.ts + C.sendInterval] := by
  rw [emitted_of_client hcl]
  unfold Client.sendRequest
  split
  · exact .inl rfl
  · exact .inr ⟨rfl, rfl⟩

theorem oneSource (hone : C.numClients = 1) (hpos : 0 < C.sendInterval) (hr : Reachable C G w) :
    w.OneSource := by
  refine Transition.Reachable.invariant (P := World.OneSource) (oneSource_init hone) ?_ hr
  intro w c w' _ hw _ hstep
  rcases step_spec hstep with ⟨e, rest, hs⟩
  cases hcl : e.action.client? with
  | none =>
      rcases hs.client_quiet hcl with ⟨hreq, hnext⟩
      exact ⟨by rw [hreq, hnext]; exact hw.increasing, by rw [hnext]; exact hw.single⟩
  | some k =>
      -- The call that ran was the only one pending.
      have hperm : w.nextSends.Perm
          (e.ts :: rest.filterMap (fun x => x.action.client?.map (fun _ => x.ts))) := by
        have h := (pop_perm hs.pop).filterMap (fun x => x.action.client?.map (fun _ => x.ts))
        rwa [List.filterMap_cons, hcl] at h
      have hrest : rest.filterMap (fun x => x.action.client?.map (fun _ => x.ts)) = [] := by
        have hlen := hperm.length_eq
        have hsingle := hw.single
        refine List.length_eq_zero_iff.1 ?_
        simp only [List.length_cons] at hlen
        omega
      have hcalls : w.nextSends = [e.ts] := by
        rw [hrest] at hperm
        exact hperm.eq_singleton
      have hincr := hw.increasing
      rw [hcalls] at hincr
      have hnext := hs.nextSends
      rw [hrest, List.nil_append] at hnext
      rcases emitted_client (C := C) (c := c) (w := w) hcl with hnil | ⟨hreq, hcall⟩
      · have h := List.append_eq_nil_iff.1 hnil
        refine ⟨?_, by rw [hnext, h.2]; exact Nat.zero_le _⟩
        rw [hs.requests, List.map_append, h.1, hnext, h.2, List.append_nil, List.append_nil]
        exact (List.pairwise_append.1 hincr).1
      · -- The request carries the time of this call, and the next call comes later.
        refine ⟨?_, by rw [hnext, hcall]; exact le_rfl⟩
        rw [hs.requests, List.map_append, hreq, hnext, hcall]
        refine List.pairwise_append.2 ⟨hincr, List.pairwise_singleton _ _, ?_⟩
        intro a ha b hb
        obtain rfl : b = e.ts + C.sendInterval := List.mem_singleton.1 hb
        have hle : a ≤ e.ts := by
          rcases List.mem_append.1 ha with ha | ha
          · exact ((List.pairwise_append.1 hincr).2.2 a ha e.ts (by simp)).le
          · exact (List.mem_singleton.1 ha).le
        lia

/-- One client with a positive send interval never repeats a timestamp. -/
theorem distinctTimestamps (hone : C.numClients = 1) (hpos : 0 < C.sendInterval)
    (hr : Reachable C G w) : w.DistinctTimestamps := by
  have hincr := (oneSource hone hpos hr).increasing
  have hreq := (List.pairwise_append.1 hincr).1
  exact hreq.imp (fun hlt => Nat.ne_of_lt hlt)

end SyncPaxos
