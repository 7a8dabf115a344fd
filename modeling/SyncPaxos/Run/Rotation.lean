import SyncPaxos.Run.Requests

/-!
# Rotation — which request goes where, and when

A client is driven by one call at a time.  `Rotation` follows it: request number `j` of a client is
sent at `sendTime C j`, to the server that `rotation` gives, until the stop time is reached.
-/

namespace SyncPaxos

open DiscreteEvent

/-- The time of request number `j` of a client. -/
def sendTime (C : Cluster) (j : ℕ) : Time := C.clientStartTime + j * C.sendInterval

/-- The server to which request number `j` of client `k` goes. -/
def rotation (C : Cluster) (k j : ℕ) : ℕ := ((C.lastServerId k + 1) % 2 ^ 32 + j) % C.numNodes

namespace World

/-- The packets that client `k` sent, in order. -/
def sentBy (w : World) (k : ℕ) : List Packet := w.sent.filter (fun p => p.src == .client k)

/-- The pending calls of client `k`. -/
def clientCalls (w : World) (k : ℕ) : List Event :=
  w.events.filter (fun e => e.action.client? == some k)

end World

/-- Client `k` has sent `m` requests, all of them before its stop time. -/
structure Served (C : Cluster) (k m : ℕ) (w : World) : Prop where
  next : (w.clients k).nextServerId C = rotation C k m
  packets : (w.sentBy k).map (fun p => (p.dst, p.sentAt)) =
    (List.range m).map (fun j => (rotation C k j, sendTime C j))
  inTime : ∀ j < m, sendTime C j < C.clientStopTime

/-- Where client `k` is in its rotation: it is to send request number `m`, or has sent its last. -/
inductive Rotation (C : Cluster) (k : ℕ) (w : World) : Prop
  | calling (m : ℕ) (action : Callback) : k < C.numClients →
      w.clientCalls k = [⟨sendTime C m, action⟩] → Served C k m w → Rotation C k w
  | silent (m : ℕ) : w.clientCalls k = [] → Served C k m w →
      C.numClients ≤ k ∧ m = 0 ∨ C.clientStopTime ≤ sendTime C m → Rotation C k w

section Rotation

variable {C : Cluster} {G : World → Choice → Prop} {w w' : World} {c : Choice} {k : ℕ}

theorem sendTime_succ (C : Cluster) (j : ℕ) : sendTime C (j + 1) = sendTime C j + C.sendInterval := by
  rw [sendTime, sendTime, Nat.succ_mul, Nat.add_assoc]

theorem sendTime_injective (h : 0 < C.sendInterval) : Function.Injective (sendTime C) := by
  intro j j' heq
  exact Nat.eq_of_mul_eq_mul_right h (Nat.add_left_cancel heq)

/-- The target after target number `m`. -/
theorem rotation_succ (hn : 0 < C.numNodes) (k m : ℕ) :
    (rotation C k m + 1) % 2 ^ 32 % C.numNodes = rotation C k (m + 1) := by
  have hlt : rotation C k m < C.numNodes := Nat.mod_lt _ hn
  have hbound : rotation C k m + 1 < 2 ^ 32 := lt_of_le_of_lt hlt C.numNodes_lt
  rw [Nat.mod_eq_of_lt hbound]
  unfold rotation
  rw [Nat.mod_add_mod, Nat.add_assoc]

/-! ## Steps -/

/-- What another event schedules is no call of client `k`, and what it sends is not of client `k`. -/
theorem emitted_other_client {e x : Event} (hne : e.action.client? ≠ some k)
    (hx : x ∈ emitted C c w e) :
    x.action.client? ≠ some k ∧ ∀ p, x.action.sentPacket? = some p → p.src ≠ .client k := by
  cases hcl : e.action.client? with
  | none =>
      rcases emitted_client_quiet hcl hx with ⟨hcall, hsent⟩
      refine ⟨by simp [hcall], ?_⟩
      intro p hp hsrc
      rcases (hsent p hp).1 with ⟨i, hi⟩
      cases hsrc.symm.trans hi
  | some k' =>
      have hk : k' ≠ k := fun h => hne (hcl.trans (congrArg some h))
      rw [emitted_of_client hcl] at hx
      -- A request of the other client, and its next call.
      rcases mem_sendRequest hx with rfl | rfl
      · refine ⟨by simp [Callback.client?], ?_⟩
        intro p hp
        obtain rfl := Option.some.inj hp
        simpa [Client.requestPacket] using hk
      · refine ⟨by simpa [Callback.client?] using hk, ?_⟩
        intro p hp
        cases hp

/-- A step of another event leaves client `k` as it is. -/
theorem StepSpec.client_idle {e : Event} {rest : List Event} (hs : StepSpec C c w w' e rest)
    (hne : e.action.client? ≠ some k) :
    (w.clientCalls k).Perm (w'.clientCalls k) ∧ w'.sentBy k = w.sentBy k ∧
      w'.clients k = w.clients k := by
  refine ⟨?_, ?_, ?_⟩
  · have hnew : (emitted C c w e).filter (fun x => x.action.client? == some k) = [] := by
      refine List.filter_eq_nil_iff.2 ?_
      intro x hx
      simpa using (emitted_other_client hne hx).1
    have hpop := (pop_perm hs.pop).filter (fun x => x.action.client? == some k)
    rw [List.filter_cons_of_neg (by simpa using hne)] at hpop
    rw [World.clientCalls, World.clientCalls, hs.events, List.filter_append, hnew, List.append_nil]
    exact hpop
  · have hnew : ((emitted C c w e).filterMap (fun x => x.action.sentPacket?)).filter
        (fun p => p.src == .client k) = [] := by
      refine List.filter_eq_nil_iff.2 ?_
      intro p hp
      rcases List.mem_filterMap.1 hp with ⟨x, hx, hsome⟩
      simpa using (emitted_other_client hne hx).2 p hsome
    rw [World.sentBy, hs.sent, List.filter_append, hnew, List.append_nil, World.sentBy]
  · rw [hs.clients]
    rcases e with ⟨now, action⟩
    cases action with
    | clientStart k' =>
        have hk : k ≠ k' := fun h => hne (congrArg some h.symm)
        exact Function.update_of_ne hk _ _
    | sendRequest k' =>
        have hk : k ≠ k' := fun h => hne (congrArg some h.symm)
        exact Function.update_of_ne hk _ _
    | _ =>
        rfl

/-- The call of client `k` that runs sends a request and calls the client again one send interval
later, or does nothing because the stop time is reached. -/
theorem StepSpec.client_turn {e : Event} {rest : List Event} (hs : StepSpec C c w w' e rest)
    (hcl : e.action.client? = some k) (hone : (w.clientCalls k).length ≤ 1) :
    w.clientCalls k = [e] ∧
      (C.clientStopTime ≤ e.ts ∧ w'.clientCalls k = [] ∧ w'.sentBy k = w.sentBy k ∧
          w'.clients k = w.clients k ∨
        e.ts < C.clientStopTime ∧
          w'.clientCalls k = [⟨e.ts + C.sendInterval, .sendRequest k⟩] ∧
          w'.sentBy k = w.sentBy k ++ [(w.clients k).requestPacket C k e.ts c.value] ∧
          (w'.clients k).lastServerId = (w.clients k).nextServerId C) := by
  have hpop := (pop_perm hs.pop).filter (fun x => x.action.client? == some k)
  rw [List.filter_cons_of_pos (by simpa using hcl)] at hpop
  have hrest : rest.filter (fun x => x.action.client? == some k) = [] := by
    rw [World.clientCalls, hpop.length_eq, List.length_cons] at hone
    exact List.length_eq_zero_iff.1 (Nat.le_zero.1 (Nat.le_of_succ_le_succ hone))
  have hcalls : w.clientCalls k = [e] := by
    rw [hrest] at hpop
    exact hpop.eq_singleton
  refine ⟨hcalls, ?_⟩
  have hclients : w'.clients k = ((w.clients k).sendRequest C k e.ts c.value).1 := by
    rw [hs.clients]
    rcases e with ⟨now, action⟩
    cases action with
    | clientStart k' =>
        obtain rfl : k' = k := Option.some.inj hcl
        exact Function.update_self _ _ _
    | sendRequest k' =>
        obtain rfl : k' = k := Option.some.inj hcl
        exact Function.update_self _ _ _
    | _ =>
        cases hcl
  have hcalls' : w'.clientCalls k = ((w.clients k).sendRequest C k e.ts c.value).2.filter
      (fun x => x.action.client? == some k) := by
    rw [World.clientCalls, hs.events, List.filter_append, hrest, emitted_of_client hcl]
    exact List.nil_append _
  have hsent : w'.sentBy k = w.sentBy k ++
      (((w.clients k).sendRequest C k e.ts c.value).2.filterMap
        (fun x => x.action.sentPacket?)).filter (fun p => p.src == .client k) := by
    rw [World.sentBy, hs.sent, List.filter_append, emitted_of_client hcl, World.sentBy]
  by_cases hstop : e.ts ≥ C.clientStopTime
  · have hsend : (w.clients k).sendRequest C k e.ts c.value = (w.clients k, []) := if_pos hstop
    rw [hsend] at hclients hcalls' hsent
    exact .inl ⟨hstop, hcalls', hsent.trans (List.append_nil _), hclients⟩
  · have hsend : (w.clients k).sendRequest C k e.ts c.value =
        ({ w.clients k with lastServerId := (w.clients k).nextServerId C },
          [⟨e.ts, .transit ((w.clients k).requestPacket C k e.ts c.value) 0⟩,
            ⟨e.ts + C.sendInterval, .sendRequest k⟩]) := if_neg hstop
    rw [hsend] at hclients hcalls' hsent
    refine .inr ⟨not_le.1 hstop, ?_, ?_, ?_⟩
    · simpa [Callback.client?] using hcalls'
    · simpa [Callback.sentPacket?, Client.requestPacket] using hsent
    · rw [hclients]

/-! ## The rotation along a run -/

theorem Served.of_idle {m : ℕ} (h : Served C k m w) (hsent : w'.sentBy k = w.sentBy k)
    (hclient : w'.clients k = w.clients k) : Served C k m w' :=
  ⟨by rw [hclient]; exact h.next, by rw [hsent]; exact h.packets, h.inTime⟩

/-- The client serves the next server of its rotation. -/
theorem Served.succ (hn : 0 < C.numNodes) {m value : ℕ} (h : Served C k m w)
    (hstop : sendTime C m < C.clientStopTime)
    (hsent : w'.sentBy k =
      w.sentBy k ++ [(w.clients k).requestPacket C k (sendTime C m) value])
    (hclient : (w'.clients k).lastServerId = (w.clients k).nextServerId C) :
    Served C k (m + 1) w' := by
  constructor
  · calc (w'.clients k).nextServerId C
        = ((w'.clients k).lastServerId + 1) % 2 ^ 32 % C.numNodes := rfl
      _ = (rotation C k m + 1) % 2 ^ 32 % C.numNodes := by rw [hclient, h.next]
      _ = rotation C k (m + 1) := rotation_succ hn k m
  · rw [hsent, List.map_append, h.packets, List.range_succ, List.map_append, List.map_singleton,
      List.map_singleton, Client.requestPacket, h.next]
  · intro j hj
    rcases Nat.lt_succ_iff_lt_or_eq.1 hj with hlt | rfl
    · exact h.inTime j hlt
    · exact hstop

theorem init_clientCalls (k : ℕ) :
    (World.init C).clientCalls k =
      if k < C.numClients then [⟨C.clientStartTime, .clientStart k⟩] else [] := by
  have happ : ∀ a : App, (a.initEvents C).filter (fun e => e.action.client? == some k) =
      if a = .client k then [⟨C.clientStartTime, .clientStart k⟩] else [] := by
    intro a
    cases a with
    | client k' =>
        by_cases hk : k' = k <;> simp [App.initEvents, Callback.client?, hk]
    | server i =>
        by_cases hz : C.stopTime = 0 <;> simp [App.initEvents, Callback.client?, hz]
  calc (World.init C).clientCalls k
      = (World.init C).events.filter (fun e => e.action.client? == some k) := rfl
    _ = _ := init_filter (fun a _ => happ a)
    _ = _ := by simp only [client_mem_initOrder]

theorem rotation_init (k : ℕ) : Rotation C k (World.init C) := by
  have hserved : Served C k 0 (World.init C) := by
    refine ⟨?_, rfl, fun _ h => absurd h (Nat.not_lt_zero _)⟩
    rw [rotation, Nat.add_zero]
    rfl
  have hcalls := init_clientCalls (C := C) k
  by_cases hk : k < C.numClients
  · rw [if_pos hk] at hcalls
    refine .calling 0 (.clientStart k) hk ?_ hserved
    rw [hcalls, sendTime, Nat.zero_mul, Nat.add_zero]
  · rw [if_neg hk] at hcalls
    exact .silent 0 hcalls hserved (.inl ⟨not_lt.1 hk, rfl⟩)

theorem Rotation.length_le_one (h : Rotation C k w) : (w.clientCalls k).length ≤ 1 := by
  cases h with
  | calling m action _ hcalls _ =>
      rw [hcalls]
      exact le_rfl
  | silent m hcalls _ _ =>
      rw [hcalls]
      exact Nat.zero_le _

theorem rotation_spec (hn : 0 < C.numNodes) (hr : Reachable C G w) (k : ℕ) : Rotation C k w := by
  refine Transition.Reachable.invariant (P := Rotation C k) (rotation_init k) ?_ hr
  intro w c w' _ hw _ hstep
  rcases step_spec hstep with ⟨e, rest, hs⟩
  by_cases hcl : e.action.client? = some k
  · -- The only call of the client has its turn.
    rcases hs.client_turn hcl hw.length_le_one with ⟨hcalls, hturn⟩
    cases hw with
    | silent m hnone _ _ =>
        cases hnone.symm.trans hcalls
    | calling m action hk hone hserved =>
        obtain rfl : e = ⟨sendTime C m, action⟩ := (List.singleton_inj.1 (hone.symm.trans hcalls)).symm
        rcases hturn with ⟨hstop, hnone, hsent, hclient⟩ | ⟨hstop, hnext, hsent, hclient⟩
        · exact .silent m hnone (hserved.of_idle hsent hclient) (.inr hstop)
        · refine .calling (m + 1) (.sendRequest k) hk ?_ (hserved.succ hn hstop hsent hclient)
          rw [hnext, sendTime_succ]
  · -- Another event: the call stays pending.
    rcases hs.client_idle hcl with ⟨hcalls, hsent, hclient⟩
    cases hw with
    | silent m hnone hserved hlast =>
        rw [hnone] at hcalls
        exact .silent m hcalls.nil_eq.symm (hserved.of_idle hsent hclient) hlast
    | calling m action hk hone hserved =>
        rw [hone] at hcalls
        exact .calling m action hk hcalls.symm.eq_singleton (hserved.of_idle hsent hclient)

/-- Request number `j` of a client, its target and its time. -/
theorem sentBy_getElem? (hn : 0 < C.numNodes) (hr : Reachable C G w) {k j : ℕ} {packet : Packet}
    (hp : (w.sentBy k)[j]? = some packet) :
    packet.dst = rotation C k j ∧ packet.sentAt = sendTime C j ∧ sendTime C j < C.clientStopTime := by
  have hserved : ∃ m, Served C k m w := by
    cases rotation_spec hn hr k with
    | calling m _ _ _ h =>
        exact ⟨m, h⟩
    | silent m _ h _ =>
        exact ⟨m, h⟩
  rcases hserved with ⟨m, hserved⟩
  have hpair := congrArg (fun l => l[j]?) hserved.packets
  simp only [List.getElem?_map, hp, Option.map_some] at hpair
  have hj : j < m := by
    by_contra hge
    rw [List.getElem?_eq_none (by simpa using hge)] at hpair
    cases hpair
  rw [List.getElem?_range hj] at hpair
  have hpair := Option.some.inj hpair
  exact ⟨congrArg Prod.fst hpair, congrArg Prod.snd hpair, hserved.inTime j hj⟩

end Rotation

end SyncPaxos
