import SyncPaxos.Safety.Intake
import SyncPaxos.Safety.RoundTrip

/-!
# Ids — when the ids of proposals are unique

`CreateProposalFromRequest` takes the id of a proposal from the timestamp of the request, as it
comes out of the request's frame.  Nothing else goes into it, so two requests that are sent at the
same time, or at times that a `double` does not tell apart, get the same id.  `Cluster.IdsApart`
says that this does not happen to requests that are kept.
-/

namespace SyncPaxos

open DiscreteEvent Transition

/-- Of the requests that are sent to servers that keep them, no two have the same id. -/
def Cluster.IdsApart (C : Cluster) : Prop :=
  ∀ k k' j j', k < C.numClients → k' < C.numClients →
    sendTime C j < C.clientStopTime → sendTime C j' < C.clientStopTime →
    C.Keeps (rotation C k j) → C.Keeps (rotation C k' j') →
    readTime (sendTime C j) = readTime (sendTime C j') → k = k' ∧ j = j'

/-- The ids of the proposals that server `i` has queued, in order: of those it has proposed since and
of those that wait. -/
def World.proposalIds (w : World) (i : ℕ) : List ℕ :=
  (w.traces i).proposed.map PaxosFrame.proposalId ++
    (w.servers i).waitingProposals.map Proposal.proposalId

/-- Request number `j` of client `k`, which server `i` has queued as its proposal number `m`. -/
structure World.QueuedFrom (w : World) (k j i m : ℕ) (r : RequestFrame) : Prop where
  sent : ∃ t, (w.sentBy k)[j]? = some ⟨.client k, i, .request r, t⟩
  queued : (w.traces i).queued[m]? = some r

/-- Two requests that have been queued, at one server or at two, are proposals with different ids.
`received` says so of the requests as their frames give them back. -/
structure World.UniqueIds (w : World) : Prop where
  queued : ∀ k k' j j' i i' m m' r r', w.QueuedFrom k j i m r → w.QueuedFrom k' j' i' m' r' →
    (k, j) ≠ (k', j') → (w.proposalIds i)[m]? ≠ (w.proposalIds i')[m']?
  received : ∀ k k' j j' i i' m m' r r', w.QueuedFrom k j i m r → w.QueuedFrom k' j' i' m' r' →
    (k, j) ≠ (k', j') → ∀ g g', r.restored = some g → r'.restored = some g' → ∀ now now',
      (Server.proposalOfRequest i now g).proposalId ≠
        (Server.proposalOfRequest i' now' g').proposalId

variable {C : Cluster} {G : World → Choice → Prop} {w w' : World} {c : Choice} {i k j m : ℕ}
  {r : RequestFrame}

/-! ## The age of a request -/

/-- A packet carries the time of the step that sent it. -/
theorem emitted_sentAt {e x : Event} {packet : Packet} (hx : x ∈ emitted C c w e)
    (hp : x.action.sentPacket? = some packet) : packet.sentAt = e.ts := by
  rcases mem_emitted_sent hx hp with ⟨i, task, line, -, -, hsend⟩ | ⟨k, -, rfl⟩
  · rcases mem_sendsOf hsend with ⟨f, dst, rfl⟩
    obtain rfl := Option.some.inj hp
    rfl
  · rfl

theorem sentAt_le_now (hr : Reachable C G w) : ∀ packet ∈ w.sent, packet.sentAt ≤ w.now := by
  refine Transition.Reachable.invariant (P := fun w => ∀ packet ∈ w.sent, packet.sentAt ≤ w.now)
    ?_ ?_ hr
  · intro packet hp
    cases hp
  · intro w c w' hr hold _ hstep packet hp
    rcases step_spec hstep with ⟨e, rest, hs⟩
    rw [hs.sent] at hp
    rcases List.mem_append.1 hp with hp | hp
    · exact (hold packet hp).trans (step_now_le hr hstep)
    · rcases List.mem_filterMap.1 hp with ⟨x, hx, hsome⟩
      rw [emitted_sentAt hx hsome, hs.now]

/-- A request is not queued before it is ten nanoseconds old. -/
theorem creation_age (hr : Reachable C G w) : ∀ e ∈ w.events, ∀ i r,
    e.action = .server i (.createProposalFromRequest r) → r.timestamp + 10 ≤ e.ts := by
  refine event_invariant (Q := fun _ => True)
    (P := fun _ e => ∀ i r, e.action = .server i (.createProposalFromRequest r) →
      r.timestamp + 10 ≤ e.ts) (fun _ _ _ _ _ _ => trivial) ?_ (fun _ _ _ _ _ _ h => h) ?_ hr
    trivial
  · intro e he i r haction
    rcases mem_init_events he with ⟨k, -, rfl⟩ | ⟨i, -, rfl⟩ | ⟨i, -, rfl⟩ <;> cases haction
  · intro w c w' e rest hr _ _ _ _ _ hs x hx i r haction
    have hcreate : (x.action.atServer i Task.creating?).isSome := by
      simp [haction, Callback.atServer, Task.creating?]
    rw [emitted_creating_ts hx hcreate]
    -- No call of a server schedules a creation; a request that arrives does, ten nanoseconds later.
    rcases mem_emitted_server hx haction with ⟨task, -, hnew⟩ | ⟨packet, hop, hact, -, harr⟩
    · rcases Server.mem_newTasks C i e.ts hnew with ⟨t, ht, hcases⟩
      rw [haction] at ht
      cases ht
      rcases hcases with h | h | h | h | h | ⟨f, h⟩ <;> cases h
    · rcases mem_arrivalEvents harr with ⟨r', hpay, -, -, heq⟩ | ⟨f, task, -, -, hrecv, heq⟩
      · have hr' : r = r' := by
          rw [heq] at haction
          cases haction
          rfl
        have hj := (sound hr).events e (mem_of_pop hs.pop)
        rw [hact] at hj
        have hstamp : packet.sentAt = r'.timestamp := by
          have hboth := hj.2
          rw [hpay] at hboth
          exact hboth.2
        have hold := sentAt_le_now hr packet hj.1
        have hnow := now_le_of_mem_events hr e (mem_of_pop hs.pop)
        rw [hr', ← hstamp]
        exact Nat.add_le_add_right (hold.trans hnow) 10
      · rw [heq] at haction
        cases haction
        cases hrecv

theorem queued_age (hr : Reachable C G w) (i : ℕ) :
    ∀ r ∈ (w.traces i).queued, r.timestamp + 10 ≤ w.now := by
  refine Transition.Reachable.invariant
    (P := fun w => ∀ r ∈ (w.traces i).queued, r.timestamp + 10 ≤ w.now) ?_ ?_ hr
  · intro r hq
    cases hq
  · intro w c w' hr hold _ hstep r hq
    rcases step_spec hstep with ⟨e, rest, hs⟩
    rw [hs.traces, Trace.queued, List.filterMap_append] at hq
    rcases List.mem_append.1 hq with hq | hq
    · exact (hold r hq).trans (step_now_le hr hstep)
    · have hmem := (newLines_queued C w e i).subset hq
      have hcreate : e.action.atServer i Task.creating? = some r := by simpa using hmem
      rcases eq_server_of_atServer (by rw [hcreate]; rfl) with ⟨task, haction, htask⟩
      have hage := creation_age hr e (mem_of_pop hs.pop) i r
      rw [hs.now]
      apply hage
      rw [haction] at hcreate ⊢
      cases task <;> simp [Callback.atServer, Task.creating?] at hcreate
      rw [hcreate]

/-! ## Ids -/

/-- The proposals of a server have the ids that `CreateProposalFromRequest` gave them, one for each
request queued. -/
theorem proposalIds_eq (hr : Reachable C G w) (i : ℕ) (now : Time) : w.proposalIds i =
    (w.traces i).queued.map (fun r => (Server.proposalOfRequest i now r).proposalId) := by
  have hids := congrArg (List.map Prod.fst) (ledger hr i).queue
  rw [List.map_append, List.map_map, List.map_map, List.map_map] at hids
  exact hids

/-- The id that a request gets when it comes out of its frame. -/
theorem proposalId_of_restored {r g : RequestFrame} (h : r.restored = some g) (i : ℕ) (now : Time) :
    (Server.proposalOfRequest i now g).proposalId = readTime r.timestamp := by
  simp only [RequestFrame.restored, Option.bind_eq_bind, Option.bind_eq_some_iff] at h
  rcases h with ⟨t, ht, hg⟩
  rw [Time.fromDouble, Option.ite_none_right_eq_some] at ht
  rcases ht with ⟨-, ht⟩
  obtain rfl := Option.some.inj ht
  obtain rfl := Option.some.inj hg
  rfl

theorem World.QueuedFrom.spec (hn : 0 < C.numNodes) (hr : Reachable C G w)
    (h : w.QueuedFrom k j i m r) :
    k < C.numClients ∧ sendTime C j < C.clientStopTime ∧ C.Keeps (rotation C k j) ∧
      r.timestamp = sendTime C j := by
  rcases h.sent with ⟨t, ht⟩
  rcases sentBy_getElem? hn hr ht with ⟨hdst, hsentAt, hstop⟩
  have hmem := (List.mem_filter.1 (List.mem_of_getElem? ht)).1
  rcases (sent_justified hr _ hmem).2 with ⟨⟨k', hk', hsrc⟩, hstamp⟩
  obtain rfl : k = k' := App.client.inj hsrc
  refine ⟨hk', hstop, ?_, hstamp.symm.trans hsentAt⟩
  intro ha
  rw [← hdst]
  by_contra hfollower
  -- A follower queues nothing.
  have hqueued := h.queued
  rw [queued_follower hr ha hfollower] at hqueued
  simp at hqueued

/-- With a send interval of zero the clock stops at the first request, and nothing is queued. -/
theorem no_queue_of_interval_zero (hn : 0 < C.numNodes) (hzero : C.sendInterval = 0)
    (hr : Reachable C G w) : ¬ w.QueuedFrom k j i m r := by
  intro h
  rcases h.spec hn hr with ⟨-, hstop, -, hstamp⟩
  have hfirst : ∀ m, sendTime C m = C.clientStartTime := by
    intro m
    rw [sendTime, hzero, Nat.mul_zero, Nat.add_zero]
  rw [hfirst] at hstop hstamp
  have hage := queued_age hr i r (List.mem_of_getElem? h.queued)
  rw [hstamp] at hage
  rcases h.sent with ⟨t, ht⟩
  cases rotation_spec hn hr k with
  | calling served action _ hcalls _ =>
      -- The next request is due at the start, so the clock has not moved.
      have hmem : (⟨sendTime C served, action⟩ : Event) ∈ w.clientCalls k := by simp [hcalls]
      have hnow := now_le_of_mem_events hr _ (List.mem_filter.1 hmem).1
      rw [hfirst] at hnow
      have hle : w.now ≤ C.clientStartTime := hnow
      lia
  | silent served _ hserved hlast =>
      rcases hlast with ⟨-, rfl⟩ | hlast
      · have hnil : w.sentBy k = [] := List.map_eq_nil_iff.1 hserved.packets
        rw [hnil] at ht
        cases ht
      · rw [hfirst] at hlast
        exact absurd hstop (not_lt.2 hlast)

/-- A time that a `double` can count is read as it is. -/
theorem readTime_of_lt {t : Time} (h : t < 2 ^ 53) : readTime t = t :=
  (Rounding.roundNearest_eq_self_iff (by decide)).2 (Rounding.representable_of_lt h)

/-- While a `double` can count the nanoseconds, ids are kept apart exactly if in no round of their
rotations two clients are at servers that keep requests. -/
theorem idsApart_iff (hpos : 0 < C.sendInterval) (hstop : C.clientStopTime ≤ 2 ^ 53) :
    C.IdsApart ↔ ∀ k k' j, k < C.numClients → k' < C.numClients →
      sendTime C j < C.clientStopTime → C.Keeps (rotation C k j) → C.Keeps (rotation C k' j) →
      k = k' := by
  constructor
  · intro h k k' j hk hk' hj hkeeps hkeeps'
    exact (h k k' j j hk hk' hj hj hkeeps hkeeps' rfl).1
  · intro h k k' j j' hk hk' hj hj' hkeeps hkeeps' hread
    rw [readTime_of_lt (hj.trans_le hstop), readTime_of_lt (hj'.trans_le hstop)] at hread
    obtain rfl : j = j' := sendTime_injective hpos hread
    exact ⟨h k k' j hk hk' hj hkeeps hkeeps', rfl⟩

/-- Ids are unique if the requests that are kept are sent at times that their frames keep apart. -/
theorem unique_ids (hn : 0 < C.numNodes) (happart : C.sendInterval = 0 ∨ C.IdsApart)
    (hr : Reachable C anyNetwork w) : w.UniqueIds := by
  have htimes : ∀ k k' j j' i i' m m' r r', w.QueuedFrom k j i m r → w.QueuedFrom k' j' i' m' r' →
      (k, j) ≠ (k', j') → readTime r.timestamp ≠ readTime r'.timestamp := by
    intro k k' j j' i i' m m' r r' h h' hne htime
    rcases happart with hzero | happart
    · exact no_queue_of_interval_zero hn hzero hr h
    · rcases h.spec hn hr with ⟨hk, hstop, hkeeps, hstamp⟩
      rcases h'.spec hn hr with ⟨hk', hstop', hkeeps', hstamp'⟩
      rw [hstamp, hstamp'] at htime
      rcases happart k k' j j' hk hk' hstop hstop' hkeeps hkeeps' htime with ⟨rfl, rfl⟩
      exact hne rfl
  refine ⟨?_, ?_⟩
  · intro k k' j j' i i' m m' r r' h h' hne hid
    -- The id of a proposal is the timestamp of its request.
    have hat : (w.proposalIds i)[m]? = some r.timestamp := by
      rw [proposalIds_eq hr i 0, List.getElem?_map, h.queued]
      rfl
    have hat' : (w.proposalIds i')[m']? = some r'.timestamp := by
      rw [proposalIds_eq hr i' 0, List.getElem?_map, h'.queued]
      rfl
    rw [hat, hat'] at hid
    exact htimes k k' j j' i i' m m' r r' h h' hne (congrArg readTime (Option.some.inj hid))
  · intro k k' j j' i i' m m' r r' h h' hne g g' hg hg' now now' hid
    rw [proposalId_of_restored hg, proposalId_of_restored hg'] at hid
    exact htimes k k' j j' i i' m m' r r' h h' hne hid

/-- Two servers and one client, which has both of them queue a request. -/
theorem unique_ids_two_servers :
    ∃ w, Reachable (.oneClient 2 (by decide) false 0 10 70 9 5 0) anyNetwork w ∧
      w.QueuedFrom 0 0 0 0 ⟨2, 0⟩ ∧ w.QueuedFrom 0 1 1 0 ⟨7, 0⟩ ∧
      w.proposalIds 0 = [2] ∧ w.proposalIds 1 = [7] ∧ w.UniqueIds := by
  have hrun := exists_reachable_of_runInputs
    (S := program (.oneClient 2 (by decide) false 0 10 70 9 5 0)) (G := anyNetwork)
    (List.replicate 18 ({} : Choice))
    (fun w => ((w.sentBy 0)[0]? = some ⟨.client 0, 0, .request ⟨2, 0⟩, 2⟩ ∧
        (w.traces 0).queued[0]? = some ⟨2, 0⟩) ∧
      ((w.sentBy 0)[1]? = some ⟨.client 0, 1, .request ⟨7, 0⟩, 7⟩ ∧
        (w.traces 1).queued[0]? = some ⟨7, 0⟩) ∧
      w.proposalIds 0 = [2] ∧ w.proposalIds 1 = [7]) (by decide +kernel)
  rcases hrun with ⟨w, hr, htest⟩
  rcases of_decide_eq_true htest with ⟨⟨hsent, hqueued⟩, ⟨hsent', hqueued'⟩, hids, hids'⟩
  have happart : (Cluster.oneClient 2 (by decide) false 0 10 70 9 5 0).IdsApart := by
    apply (idsApart_iff (by decide) (by decide)).2
    intro k k' _ hk hk' _ _ _
    exact (Nat.lt_one_iff.1 hk).trans (Nat.lt_one_iff.1 hk').symm
  exact ⟨w, hr, ⟨⟨2, hsent⟩, hqueued⟩, ⟨⟨7, hsent'⟩, hqueued'⟩, hids, hids',
    unique_ids (by decide) (.inr happart) hr⟩

/-- Two clients and two servers in synchronous mode. -/
def Cluster.twoClients : Cluster where
  numNodes := 2
  numNodes_lt := by decide
  numClients := 2
  async := false
  clockSyncError := 0
  boundedMessageDelay := 10
  startTime := 1
  stopTime := 70
  clientStartTime := 2
  clientStopTime := 4
  sendInterval := 5
  lastServerId := fun _ => 1
  initOrder := [.client 0, .client 1, .server 0, .server 1]
  initOrder_perm := List.Perm.refl _

/-- Both clients send their first request at once, and server 0 queues two proposals with one id. -/
theorem two_clients_share_id :
    ∃ w, Reachable .twoClients (synchronous .twoClients) w ∧
      w.QueuedFrom 0 0 0 0 ⟨2, 5⟩ ∧ w.QueuedFrom 1 0 0 1 ⟨2, 6⟩ ∧
      (w.servers 0).waitingProposals.map Proposal.proposalId = [2, 2] ∧ ¬ w.UniqueIds := by
  have hrun := exists_reachable_of_runInputs
    (S := program .twoClients) (G := synchronous .twoClients)
    (List.replicate 9 ({} : Choice) ++ [{ value := 5 }, { value := 6 }] ++
      List.replicate 7 ({} : Choice))
    (fun w => ((w.sentBy 0)[0]? = some ⟨.client 0, 0, .request ⟨2, 5⟩, 2⟩ ∧
        (w.traces 0).queued[0]? = some ⟨2, 5⟩) ∧
      ((w.sentBy 1)[0]? = some ⟨.client 1, 0, .request ⟨2, 6⟩, 2⟩ ∧
        (w.traces 0).queued[1]? = some ⟨2, 6⟩) ∧
      (w.servers 0).waitingProposals.map Proposal.proposalId = [2, 2] ∧
      (w.proposalIds 0)[0]? = (w.proposalIds 0)[1]?) (by decide +kernel)
  rcases hrun with ⟨w, hr, htest⟩
  rcases of_decide_eq_true htest with ⟨⟨hsent, hqueued⟩, ⟨hsent', hqueued'⟩, hwaiting, hsame⟩
  have hfirst : w.QueuedFrom 0 0 0 0 ⟨2, 5⟩ := ⟨⟨2, hsent⟩, hqueued⟩
  have hsecond : w.QueuedFrom 1 0 0 1 ⟨2, 6⟩ := ⟨⟨2, hsent'⟩, hqueued'⟩
  refine ⟨w, hr, hfirst, hsecond, hwaiting, ?_⟩
  intro h
  exact h.queued 0 1 0 0 0 0 0 1 _ _ hfirst hsecond (by decide) hsame

end SyncPaxos
