import SyncPaxos.Library.Loops
import SyncPaxos.Run.Rotation
import SyncPaxos.Safety.Discipline
import SyncPaxos.Timing.Slots

/-!
# Firings — how the loops of a run follow each other

The loops of the program are the rotation of a client, the slots of a server and the poll of the
leader.  `firings_isChain` follows one of them along a run: at most one of its calls is pending, and
each call is scheduled in its place after the one that ran last.
-/

namespace SyncPaxos

open DiscreteEvent Transition

/-- The event that a step runs. -/
def executed (w : World) (_ : Choice) : List Event := (pop w.events).toList.map Prod.fst

/-- The calls of client `k`. -/
def Callback.isClient (k : ℕ) (action : Callback) : Bool := action.client? == some k

/-- The slots of server `i`. -/
def Callback.isSlot (i : ℕ) (action : Callback) : Bool := action.isCall i Task.isSlot

def Task.isPoll : Task → Bool
  | .doAsyncPropose => true
  | _ => false

/-- The polls of server `i`. -/
def Callback.isPoll (i : ℕ) (action : Callback) : Bool := action.isCall i Task.isPoll

@[simp] theorem isSlot_server {i j : ℕ} {task : Task} :
    Callback.isSlot i (.server j task) = true ↔ j = i ∧ task = .doSyncPropose := by
  cases task <;> simp [Callback.isSlot, Callback.isCall, Task.isSlot]

@[simp] theorem isPoll_server {i j : ℕ} {task : Task} :
    Callback.isPoll i (.server j task) = true ↔ j = i ∧ task = .doAsyncPropose := by
  cases task <;> simp [Callback.isPoll, Callback.isCall, Task.isPoll]

section Firings

variable {C : Cluster} {G : World → Choice → Prop} {w w' : World} {c : Choice} {e : Event}
  {rest l : List Event} {g : Callback → Bool} {R : Time → Time → Prop}

theorem StepSpec.executed (hs : StepSpec C c w w' e rest) : executed w c = [e] := by
  simp [SyncPaxos.executed, hs.pop]

/-- What has run is not later than now. -/
theorem firings_le_now (h : Observed (program C) G executed w l) :
    ∀ t ∈ firings g l, t ≤ w.now := by
  induction h with
  | init =>
      intro t ht
      cases ht
  | @step w w' c l hobs _ hstep ih =>
      intro t ht
      rcases step_spec hstep with ⟨e, rest, hs⟩
      rw [hs.executed, firings_append] at ht
      rcases List.mem_append.1 ht with ht | ht
      · exact (ih t ht).trans (step_now_le hobs.reachable hstep)
      · rcases mem_firings.1 ht with ⟨x, hx, -, rfl⟩
        obtain rfl : x = e := List.mem_singleton.1 hx
        exact hs.now.ge

/-- If the calls of a loop that are pending are always before `B`, so are all that run. -/
theorem firings_lt {B : Time}
    (hpending : ∀ w, Reachable C G w → ∀ e ∈ w.events, g e.action = true → e.ts < B)
    (h : Observed (program C) G executed w l) : ∀ t ∈ firings g (l ++ w.events), t < B := by
  have hran : ∀ t ∈ firings g l, t < B := by
    induction h with
    | init =>
        intro t ht
        cases ht
    | @step w w' c l hobs _ hstep ih =>
        intro t ht
        rcases step_spec hstep with ⟨e, rest, hs⟩
        rw [hs.executed, firings_append] at ht
        rcases List.mem_append.1 ht with ht | ht
        · exact ih t ht
        · rcases mem_firings.1 ht with ⟨x, hx, hgx, rfl⟩
          obtain rfl : x = e := List.mem_singleton.1 hx
          exact hpending w hobs.reachable x (mem_of_pop hs.pop) hgx
  intro t ht
  rw [firings_append] at ht
  rcases List.mem_append.1 ht with ht | ht
  · exact hran t ht
  · rcases mem_firings.1 ht with ⟨x, hx, hgx, rfl⟩
    exact hpending w h.reachable x hx hgx

/-- Each firing of a loop follows the one before it, and so does the call that is pending. -/
theorem firings_isChain
    (hsingle : ∀ w, Reachable C G w → (firings g w.events).length ≤ 1)
    (hemit : ∀ w c w' e rest l, Observed (program C) G executed w l → StepSpec C c w w' e rest →
      ∀ x ∈ emitted C c w e, g x.action = true →
        ∀ t ∈ (firings g (l ++ [e])).getLast?, R t x.ts)
    (h : Observed (program C) G executed w l) : (firings g (l ++ w.events)).IsChain R := by
  induction h with
  | init =>
      exact isChain_of_length_le_one (hsingle _ .init)
  | @step w w' c l hobs hg hstep ih =>
      rcases step_spec hstep with ⟨e, rest, hs⟩
      have hone := hsingle w hobs.reachable
      have hone' := hsingle w' (.step hobs.reachable hg hstep)
      rw [hs.events] at hone'
      rw [hs.executed, hs.events]
      exact firings_loop hs.pop hone hone' (hemit w c w' e rest l hobs hs) ih

end Firings

/-! ## The loops of the program -/

section Loops

variable {C : Cluster} {G : World → Choice → Prop} {w w' : World} {c : Choice} {e : Event}
  {rest l : List Event} {i k : ℕ}

/-- A client sends its next request one send interval after this one. -/
theorem client_isChain (hn : 0 < C.numNodes)
    (hpos : k < C.numClients → C.clientStartTime < C.clientStopTime → 0 < C.sendInterval)
    (h : Observed (program C) G executed w l) :
    (firings (Callback.isClient k) (l ++ w.events)).IsChain
      (fun t t' => t < C.clientStopTime ∧ t' = t + C.sendInterval ∧ t < t') := by
  refine firings_isChain ?_ ?_ h
  · intro w hr
    calc (firings (Callback.isClient k) w.events).length = (w.clientCalls k).length :=
          List.length_map _
      _ ≤ 1 := (rotation_spec hn hr k).length_le_one
  · intro w c w' e rest l hobs hs x hx hgx t ht
    have hcl : e.action.client? = some k := by
      by_contra hne
      exact (emitted_other_client hne hx).1 (beq_iff_eq.1 hgx)
    have hge : Callback.isClient k e.action = true := beq_iff_eq.2 hcl
    rw [firings_getLast? hge] at ht
    obtain rfl : e.ts = t := Option.some.inj ht
    have hrotation := rotation_spec hn hobs.reachable k
    have hmem : x ∈ w'.clientCalls k := by
      rw [World.clientCalls, hs.events]
      exact List.mem_filter.2 ⟨List.mem_append_right _ hx, hgx⟩
    -- The call that ran either sends nothing and ends the rotation or schedules the next one.
    rcases hs.client_turn hcl hrotation.length_le_one with
      ⟨hcalls, ⟨-, hnone, -⟩ | ⟨hstop, hnext, -⟩⟩
    · rw [hnone] at hmem
      cases hmem
    · rw [hnext] at hmem
      obtain rfl := List.mem_singleton.1 hmem
      cases hrotation with
      | silent m hnone _ _ =>
          cases hnone.symm.trans hcalls
      | calling m action hk hone _ =>
          obtain rfl := List.singleton_inj.1 (hone.symm.trans hcalls)
          have hstart : C.clientStartTime ≤ sendTime C m := Nat.le_add_right _ _
          exact ⟨hstop, rfl, Nat.lt_add_of_pos_right (hpos hk (hstart.trans_lt hstop))⟩

/-! ### The slots -/

theorem own_isSlot : Own Task.isSlot := by
  intro task h
  cases task <;> simp at h <;> rfl

theorem callsIn_length_mono {g g' : Task → Bool} (h : ∀ task, g task = true → g' task = true)
    (i : ℕ) (es : List Event) : (callsIn i g es).length ≤ (callsIn i g' es).length := by
  apply List.Sublist.length_le
  apply List.monotone_filter_right
  intro x hx
  rcases x with ⟨ts, action⟩
  cases action with
  | server j task =>
      have hboth : j = i ∧ g task = true := by simpa [Callback.isCall] using hx
      simpa [Callback.isCall, hboth.1] using h task hboth.2
  | _ =>
      cases hx

theorem Phase.length_le_one {calls : List Event} {s : Server} (h : Phase C calls s) :
    calls.length ≤ 1 := by
  cases h with
  | before ts task _ hc =>
      exact hc ▸ le_rfl
  | polling ts hc =>
      exact hc ▸ le_rfl
  | waiting p hc =>
      exact hc ▸ Nat.zero_le _
  | ended hc =>
      exact hc ▸ Nat.zero_le _

theorem SlotLoop.length_le_one (h : SlotLoop C i w) : (w.calls i Task.isSlotLoop).length ≤ 1 := by
  cases h with
  | boot hc _ _ =>
      rw [hc]
      exact le_rfl
  | thread hc _ _ _ =>
      rw [hc]
      exact le_rfl
  | slots k hc _ _ =>
      rw [hc]
      exact le_rfl
  | ended k hc _ _ =>
      rw [hc]
      exact Nat.zero_le _

/-- At most one slot of a server is pending. -/
theorem slots_length_le_one (hr : Reachable C G w) (i : ℕ) :
    (w.calls i Task.isSlot).length ≤ 1 := by
  by_contra hmany
  have hpos : 0 < (w.calls i Task.isSlot).length := Nat.zero_lt_of_lt (not_le.1 hmany)
  rcases List.exists_mem_of_length_pos hpos with ⟨x, hx⟩
  rcases mem_callsIn.1 hx with ⟨hmem, task, haction, htask⟩
  obtain rfl : task = .doSyncPropose := by
    cases task <;> first | rfl | cases htask
  rcases x with ⟨ts, action⟩
  obtain rfl : action = .server i .doSyncPropose := haction
  -- There is a slot only in synchronous mode, where the whole loop has one call.
  have hsync : C.async = false := ofMode hr _ hmem
  have hi : i < C.numNodes := ((booted hr).due _ hmem).1
  apply hmany
  calc (w.calls i Task.isSlot).length ≤ (w.calls i Task.isSlotLoop).length :=
        callsIn_length_mono (fun task h => by cases task <;> first | rfl | cases h) i w.events
    _ ≤ 1 := (slotLoop hsync hi hr).length_le_one

/-- When the propose loop starts, no slot has run. -/
theorem no_slot_of_thread (hr : Reachable C G w) (hsync : C.async = false) {now : Time}
    (he : (⟨now, .server i .startProposerThread⟩ : Event) ∈ w.events) :
    (w.traces i).syncCalls = [] := by
  have hcall : (⟨now, .server i .startProposerThread⟩ : Event) ∈ w.calls i Task.isSlotLoop :=
    mem_callsIn.2 ⟨he, _, rfl, rfl⟩
  cases slotLoop hsync ((booted hr).due _ he).1 hr with
  | boot _ _ hcalls =>
      exact hcalls
  | thread _ _ _ hcalls =>
      exact hcalls
  | slots k hc _ _ =>
      rw [hc] at hcall
      cases List.mem_singleton.1 hcall
  | ended k hc _ _ =>
      rw [hc] at hcall
      cases hcall

/-- A slot that is pending repeats itself every `n` slots. -/
theorem period_of_slot (hr : Reachable C G w) {now : Time}
    (he : (⟨now, .server i .doSyncPropose⟩ : Event) ∈ w.events) :
    (w.servers i).proposePeriod = C.slot * C.numNodes := by
  have hcall : (⟨now, .server i .doSyncPropose⟩ : Event) ∈ w.calls i Task.isSlotLoop :=
    mem_callsIn.2 ⟨he, _, rfl, rfl⟩
  cases slotLoop (ofMode hr _ he) ((booted hr).due _ he).1 hr with
  | boot hc _ _ =>
      rw [hc] at hcall
      cases List.mem_singleton.1 hcall
  | thread _ hperiod _ _ =>
      exact hperiod
  | slots k _ hperiod _ =>
      exact hperiod
  | ended k hc _ _ =>
      rw [hc] at hcall
      cases hcall

/-- The slots that have run are those on the record. -/
theorem firings_isSlot (h : Observed (program C) G executed w l) (i : ℕ) :
    firings (Callback.isSlot i) l = (w.traces i).syncCalls := by
  induction h with
  | init =>
      rfl
  | @step w w' c l hobs _ hstep ih =>
      rcases step_spec hstep with ⟨e, rest, hs⟩
      have hnew : firings (Callback.isSlot i) [e] = (newLines C w e i).syncCalls := by
        rcases e with ⟨now, action⟩
        cases action with
        | server j task =>
            by_cases hij : j = i
            · subst hij
              simp only [newLines, if_pos, newRecords_syncCalls]
              cases task <;> simp [firings, Callback.isSlot, Callback.isCall, Task.isSlot]
            · simp [newLines, hij, firings, Callback.isSlot, Callback.isCall, Trace.syncCalls]
        | _ =>
            rfl
      calc firings (Callback.isSlot i) (l ++ executed w c)
          = firings (Callback.isSlot i) l ++ firings (Callback.isSlot i) [e] := by
            rw [hs.executed, firings_append]
        _ = (w.traces i).syncCalls ++ (newLines C w e i).syncCalls := by rw [ih, hnew]
        _ = (w'.traces i).syncCalls := by
            rw [hs.traces i, Trace.syncCalls, Trace.syncCalls, Trace.syncCalls,
              List.filterMap_append]

/-- The next slot of a server comes `n` slots after this one. -/
theorem slot_isChain
    (hpos : C.async = false → C.startTime < C.stopTime → 0 < C.slot)
    (h : Observed (program C) G executed w l) :
    (firings (Callback.isSlot i) (l ++ w.events)).IsChain
      (fun t t' => t < C.stopTime ∧ t' = t + C.slot * C.numNodes ∧ t < t') := by
  refine firings_isChain ?_ ?_ h
  · intro w hr
    calc (firings (Callback.isSlot i) w.events).length = (w.calls i Task.isSlot).length :=
          List.length_map _
      _ ≤ 1 := slots_length_le_one hr i
  · intro w c w' e rest l hobs hs x hx hgx t ht
    have hr := hobs.reachable
    rcases mem_emitted_call own_isSlot hx hgx with ⟨task, he, hnew⟩
    rcases e with ⟨now, action⟩
    obtain rfl : action = .server i task := he
    have hmem := mem_of_pop hs.pop
    cases Server.schedules_of_mem_newTasks C i now hnew with
    | boot htask =>
        rcases htask with rfl | rfl | rfl <;> simp at hgx
    | firstSlot hsync =>
        -- No slot has run before the first one.
        have hnone := no_slot_of_thread hr hsync hmem
        rw [firings_append, firings_isSlot hobs, hnone, firings_cons_of_neg (by simp)] at ht
        cases ht
    | nextSlot hstop =>
        rw [firings_getLast? (by simp)] at ht
        obtain rfl : now = t := Option.some.inj ht
        have hsync : C.async = false := ofMode hr _ hmem
        have hdue := (booted hr).due _ hmem
        have hi : i < C.numNodes := hdue.1
        have hstart : C.startTime ≤ now := hdue.2
        have hperiod := period_of_slot hr hmem
        have hslot := hpos hsync (hstart.trans_lt hstop)
        refine ⟨hstop, ?_, ?_⟩
        · rw [hperiod]
        · rw [hperiod]
          exact Nat.lt_add_of_pos_right (Nat.mul_pos hslot (Nat.zero_lt_of_lt hi))
    | poll =>
        simp at hgx
    | answer =>
        simp at hgx

/-! ### The polls -/

theorem own_isPoll : Own Task.isPoll := by
  intro task h
  cases task <;> simp at h <;> rfl

/-- Only the leader polls. -/
theorem leader_of_poll (hr : Reachable C G w) :
    ∀ e ∈ w.events, ∀ i, e.action.isPoll i = true → i = Cluster.leader := by
  refine event_invariant (Q := fun _ => True)
    (P := fun _ e => ∀ i, e.action.isPoll i = true → i = Cluster.leader)
    (fun _ _ _ _ _ _ => trivial) ?_ (fun _ _ _ _ _ _ h => h) ?_ hr trivial
  · intro e he i hpoll
    rcases mem_init_events he with ⟨k, -, rfl⟩ | ⟨j, -, rfl⟩ | ⟨j, -, rfl⟩
    · cases hpoll
    · simp at hpoll
    · simp at hpoll
  · intro w c w' e rest hr _ _ hold _ _ hs x hx i hpoll
    rcases mem_emitted_call own_isPoll hx hpoll with ⟨task, he, hnew⟩
    cases Server.schedules_of_mem_newTasks C i e.ts hnew with
    | boot htask =>
        rcases htask with rfl | rfl | rfl <;> simp at hpoll
    | firstSlot =>
        simp at hpoll
    | nextSlot =>
        simp at hpoll
    | poll hcause =>
        rcases hcause with ⟨-, -, hi⟩ | rfl | ⟨f, -, hack⟩
        · exact hi
        · exact hold e (mem_of_pop hs.pop) i (by simp [he])
        · -- A follower has nothing that a DECISION_ACK could complete.
          by_contra hi
          have hnone := (follower_idle hr (Server.acksOn_async hack) hi).2.2 f.proposalId
          simp [Server.acksOn_ignored (.inr hnone)] at hack
    | answer =>
        simp at hpoll

/-- At most one poll is pending. -/
theorem polls_length_le_one (hr : Reachable C G w) (i : ℕ) :
    (w.calls i Task.isPoll).length ≤ 1 := by
  by_contra hmany
  have hpos : 0 < (w.calls i Task.isPoll).length := Nat.zero_lt_of_lt (not_le.1 hmany)
  rcases List.exists_mem_of_length_pos hpos with ⟨x, hx⟩
  rcases mem_callsIn.1 hx with ⟨hmem, task, haction, htask⟩
  obtain rfl : task = .doAsyncPropose := by
    cases task <;> first | rfl | cases htask
  rcases x with ⟨ts, action⟩
  obtain rfl : action = .server i .doAsyncPropose := haction
  have ha : C.async = true := ofMode hr _ hmem
  have hi : i < C.numNodes := ((booted hr).due _ hmem).1
  obtain rfl : i = Cluster.leader :=
    leader_of_poll hr _ hmem i (by simp)
  apply hmany
  calc (w.calls Cluster.leader Task.isPoll).length
      ≤ (w.calls Cluster.leader Task.isPollLoop).length :=
        callsIn_length_mono (fun task h => by cases task <;> first | rfl | cases h) _ w.events
    _ ≤ 1 := (phase ha hi hr).length_le_one

/-- The next poll comes at least a microsecond after this one. -/
theorem poll_isChain (h : Observed (program C) G executed w l) :
    (firings (Callback.isPoll i) (l ++ w.events)).IsChain
      (fun t t' => t < C.stopTime ∧ t + 1000 ≤ t') := by
  refine firings_isChain ?_ ?_ h
  · intro w hr
    calc (firings (Callback.isPoll i) w.events).length = (w.calls i Task.isPoll).length :=
          List.length_map _
      _ ≤ 1 := polls_length_le_one hr i
  · intro w c w' e rest l hobs hs x hx hgx t ht
    rcases mem_emitted_call own_isPoll hx hgx with ⟨task, he, hnew⟩
    -- The poll may be scheduled by another call than the last poll, but not before it.
    have hran : t ≤ e.ts := by
      have hmem := List.mem_of_mem_getLast? ht
      rw [firings_append] at hmem
      rcases List.mem_append.1 hmem with hmem | hmem
      · calc t ≤ w.now := firings_le_now hobs t hmem
          _ ≤ e.ts := now_le_of_mem_events hobs.reachable e (mem_of_pop hs.pop)
      · rcases mem_firings.1 hmem with ⟨y, hy, -, rfl⟩
        obtain rfl : y = e := List.mem_singleton.1 hy
        exact le_rfl
    cases Server.schedules_of_mem_newTasks C i e.ts hnew with
    | boot htask =>
        rcases htask with rfl | rfl | rfl <;> simp at hgx
    | firstSlot =>
        simp at hgx
    | nextSlot =>
        simp at hgx
    | poll _ hstop _ =>
        exact ⟨hran.trans_lt hstop, Nat.add_le_add_right hran 1000⟩
    | answer =>
        simp at hgx

end Loops

end SyncPaxos
