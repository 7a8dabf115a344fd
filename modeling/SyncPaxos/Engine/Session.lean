import SyncPaxos.Engine.Schedulers
import SyncPaxos.Library.Transition
import SyncPaxos.Model.DefaultSimulator

/-!
# Session — any use of the simulator

Code that runs on the simulator schedules events and cancels or removes them by their ids, in any
order, and the simulator runs one event after the other.  A `Session` is a simulator after some such
calls, with the ids it has given out and the events it has run.

The numbers of events are `uint32_t`s.  As long as they do not wrap around, events run in the order of
their keys, each at its time and none twice, `IsExpired` answers exactly whether an event has run or was
cancelled, and no assertion of the engine fails (`session_correct`).
-/

namespace SyncPaxos

open Scheduler (EventKey)
open DefaultSimulatorImpl

/-- A call of the simulator; `n` stands for the `n`-th event that was scheduled. -/
inductive Call (α : Type)
  | schedule (delay : ℕ) (action : α)
  | scheduleWithContext (context delay : ℕ) (action : α)
  | scheduleDestroy (action : α)
  | cancel (n : ℕ)
  | remove (n : ℕ)
  | processOneEvent
  deriving DecidableEq, Repr

structure Session (σ α : Type) where
  sim : DefaultSimulatorImpl σ α
  /-- The ids of all events scheduled so far. -/
  ids : List EventId := []
  /-- The events run so far, each with the action that was called. -/
  history : List (Scheduler.Event × Option α) := []

namespace Session

variable {σ α : Type}

section Calls

variable [Scheduler σ]

/-- One call. -/
def next (call : Call α) (s : Session σ α) : Option (Session σ α) :=
  match call with
  | .schedule delay action => do
      let (id, sim) ← s.sim.schedule delay action
      return { s with sim := sim, ids := s.ids ++ [id] }
  | .scheduleWithContext context delay action => do
      let sim ← s.sim.scheduleWithContext context delay action
      return { s with sim := sim, ids := s.ids ++ [idOf (s.sim.nextEvent context delay)] }
  | .scheduleDestroy action =>
      let (id, sim) := s.sim.scheduleDestroy action
      some { s with sim := sim, ids := s.ids ++ [id] }
  | .cancel n =>
      match s.ids[n]? with
      | none => some s
      | some id => some { s with sim := s.sim.cancel id }
  | .remove n =>
      match s.ids[n]? with
      | none => some s
      | some id => do
          let sim ← s.sim.remove id
          return { s with sim := sim }
  | .processOneEvent => do
      let (run, sim) ← s.sim.processOneEvent
      return { s with sim := sim, history := s.history ++ [run] }

/-- Sessions as a transition system. -/
def system (σ α : Type) [Scheduler σ] : Transition.System (Session σ α) (Call α) where
  init := { sim := create }
  next := next

/-- The numbers of the events have not wrapped around, nor will they with the next one. -/
def Room (s : Session σ α) (_ : Call α) : Prop := s.ids.length + 5 < 2 ^ 32

instance (s : Session σ α) (call : Call α) : Decidable (s.Room call) :=
  inferInstanceAs (Decidable (_ < _))

/-- The call takes an event out of the event list: `Remove`, for an event that is still to run. -/
def removesPending (s : Session σ α) : Call α → Bool
  | .remove n =>
      match s.ids[n]? with
      | none => false
      | some id => id.uid != EventId.DESTROY && !s.sim.isExpired id
  | _ => false

/-- Further, no event is removed that is still to run. -/
def NoRemoval (s : Session σ α) (call : Call α) : Prop :=
  s.Room call ∧ s.removesPending call = false

instance (s : Session σ α) (call : Call α) : Decidable (s.NoRemoval call) :=
  inferInstanceAs (Decidable (_ ∧ _))

end Calls

/-! ## The invariant -/

/-- The key of the event that runs. -/
def current (s : Session σ α) : EventKey := ⟨s.sim.currentTs, s.sim.currentUid, s.sim.currentContext⟩

/-- An event as it was scheduled: its number is 4 plus its place among all events. -/
structure Scheduled (s : Session σ α) (e : Scheduler.Event) : Prop where
  uid : e.key.uid = 4 + e.impl
  id : s.ids[e.impl]? = some (idOf e)

/-- `es` are the pending events of a session. -/
structure Consistent [LawfulScheduler σ] (s : Session σ α) (es : List Scheduler.Event) : Prop where
  holds : LawfulScheduler.Holds s.sim.events es
  uid : s.sim.uid = 4 + s.ids.length
  currentUid : s.sim.currentUid < s.sim.uid
  impls : s.sim.impls.length = s.ids.length
  ids : ∀ (k : ℕ) id, s.ids[k]? = some id → id.eventImpl = some k ∧ (id.uid = 2 ∨ id.uid = 4 + k)
  pending : ∀ e ∈ es, s.Scheduled e
  later : ∀ e ∈ es, s.current < e.key
  ran : ∀ run ∈ s.history, s.Scheduled run.1
  past : ∀ run ∈ s.history, ¬ s.current < run.1.key
  order : s.history.Pairwise (fun x y => x.1.key < y.1.key)
  invoked : ∀ run ∈ s.history, run.2 = s.sim.invoke run.1.impl
  /-- An event is pending, has run, or was cancelled. -/
  settled : ∀ (k : ℕ) id, s.ids[k]? = some id → id.uid = 4 + k →
    (∃ e ∈ es, idOf e = id) ∨ (∃ run ∈ s.history, idOf run.1 = id) ∨ s.sim.isCancelled k = true
  unscheduled : s.sim.unscheduledEvents = es.length

theorem getElem?_append_singleton {β : Type} {l : List β} {b x : β} {k : ℕ} :
    (l ++ [b])[k]? = some x ↔ l[k]? = some x ∨ k = l.length ∧ x = b := by
  rw [List.getElem?_append]
  split
  · rename_i hlt
    constructor
    · exact .inl
    · rintro (h | ⟨rfl, -⟩)
      · exact h
      · exact absurd hlt (lt_irrefl _)
  · rename_i hge
    rw [List.getElem?_eq_none (not_lt.1 hge), List.getElem?_singleton]
    split
    · rename_i hk
      constructor
      · intro h
        exact .inr ⟨by omega, (Option.some.inj h).symm⟩
      · rintro (h | ⟨-, rfl⟩)
        · cases h
        · rfl
    · rename_i hk
      constructor
      · intro h
        cases h
      · rintro (h | ⟨rfl, -⟩)
        · cases h
        · omega

/-- A key is what its id says. -/
theorem key_eq {e : Scheduler.Event} {id : EventId} (h : idOf e = id) :
    e.key = ⟨id.ts, id.uid, id.context⟩ := by
  subst h
  rfl

/-! ## The memory of the implementations -/

section Memory

variable {sim sim' : DefaultSimulatorImpl σ α} {k n : ℕ}

theorem invoke_congr (h : sim'.impls[k]? = sim.impls[k]?) : sim'.invoke k = sim.invoke k := by
  rw [invoke, invoke, h]

theorem isCancelled_congr (h : sim'.impls[k]? = sim.impls[k]?) :
    sim'.isCancelled k = sim.isCancelled k := by
  rw [isCancelled, isCancelled, h]

theorem cancelImpl_of_ne (sim : DefaultSimulatorImpl σ α) (h : n ≠ k) :
    (sim.cancelImpl n).impls[k]? = sim.impls[k]? := by
  simp [cancelImpl, h]

theorem isCancelled_cancelImpl (sim : DefaultSimulatorImpl σ α) (h : k < sim.impls.length) :
    (sim.cancelImpl k).isCancelled k = true := by
  simp [isCancelled, cancelImpl, h]

/-- What is cancelled stays so. -/
theorem isCancelled_mono (h : sim.isCancelled k = true) : (sim.cancelImpl n).isCancelled k = true := by
  by_cases hnk : n = k
  · subst hnk
    refine isCancelled_cancelImpl sim ?_
    by_contra hge
    rw [isCancelled, List.getElem?_eq_none (not_lt.1 hge)] at h
    cases h
  · rw [isCancelled_congr (cancelImpl_of_ne sim hnk)]
    exact h

end Memory

/-! ## One call -/

section Lawful

variable {s : Session σ α} {es : List Scheduler.Event} {e : Scheduler.Event}

theorem Scheduled.lt (h : s.Scheduled e) : e.impl < s.ids.length :=
  (List.getElem?_eq_some_iff.1 h.id).1

theorem Scheduled.of_ids {s' : Session σ α} (h : s.Scheduled e) (hids : s'.ids = s.ids) :
    s'.Scheduled e := by
  refine ⟨h.uid, ?_⟩
  rw [hids]
  exact h.id

/-- Events stay scheduled when ids are added. -/
theorem Scheduled.append {s' : Session σ α} {ids : List EventId} (h : s.Scheduled e)
    (hids : s'.ids = s.ids ++ ids) : s'.Scheduled e := by
  refine ⟨h.uid, ?_⟩
  rw [hids, List.getElem?_append_left h.lt]
  exact h.id

theorem isExpired_eq {k : ℕ} {id : EventId} (himpl : id.eventImpl = some k)
    (huid : id.uid ≠ EventId.DESTROY) :
    s.sim.isExpired id = true ↔
      ¬ s.current < ⟨id.ts, id.uid, id.context⟩ ∨ s.sim.isCancelled k = true := by
  rw [isExpired, himpl]
  simp only [huid, if_false, Bool.or_eq_true, Bool.and_eq_true, decide_eq_true_eq, beq_iff_eq,
    EventKey.lt_def, current]
  refine or_congr_left ?_
  omega

namespace Consistent

variable [LawfulScheduler σ]

theorem init : Consistent ({ sim := create } : Session σ α) [] := by
  refine ⟨LawfulScheduler.holds_empty, rfl, Nat.zero_lt_succ 3, rfl, ?_, ?_, ?_, ?_, ?_, .nil, ?_, ?_,
    rfl⟩
  all_goals simp

theorem agenda (h : s.Consistent es) : Agenda es := LawfulScheduler.agenda h.holds

/-- What has been scheduled is not under the next number. -/
theorem uid_ne (h : s.Consistent es) (he : s.Scheduled e) : e.key.uid ≠ s.sim.uid := by
  have hlt := he.lt
  have huid := he.uid
  have hnext := h.uid
  omega

theorem schedule (h : s.Consistent es) (hroom : s.ids.length + 5 < 2 ^ 32) (context delay : ℕ)
    (action : α) :
    ∃ sim, s.sim.scheduleWithContext context delay action = some sim ∧
      Consistent { s with sim := sim, ids := s.ids ++ [idOf (s.sim.nextEvent context delay)] }
        (ListScheduler.insertInto (s.sim.nextEvent context delay) es) := by
  have hnew : ∀ x ∈ es, x.key.uid ≠ (s.sim.nextEvent context delay).key.uid :=
    fun x hx => h.uid_ne (h.pending x hx)
  rcases LawfulScheduler.holds_insert h.holds hnew with ⟨events, hinsert, hholds⟩
  have huid := h.uid
  have himpls := h.impls
  refine ⟨_, by simp [scheduleWithContext, hinsert]; rfl, ?_⟩
  generalize hev : s.sim.nextEvent context delay = ev at hholds
  have hkey : ev.key = ⟨delay + s.sim.currentTs, s.sim.uid, context⟩ := by
    rw [← hev]
    rfl
  have himpl : ev.impl = s.ids.length := by
    rw [← hev]
    exact himpls
  have hold : ∀ {k}, k < s.ids.length →
      (s.sim.impls ++ [(⟨action, false⟩ : EventImpl α)])[k]? = s.sim.impls[k]? :=
    fun hk => List.getElem?_append_left (himpls ▸ hk)
  refine ⟨hholds, ?_, ?_, ?_, ?_, ?_, ?_, ?_, h.past, h.order, ?_, ?_, ?_⟩
  · rw [List.length_append, List.length_singleton]
    change (s.sim.uid + 1) % 2 ^ 32 = _
    omega
  · have hcurrent := h.currentUid
    change s.sim.currentUid < (s.sim.uid + 1) % 2 ^ 32
    omega
  · change (s.sim.impls ++ [(⟨action, false⟩ : EventImpl α)]).length = _
    rw [List.length_append, List.length_append, himpls]
    rfl
  · intro k id hk
    rcases getElem?_append_singleton.1 hk with hk | ⟨rfl, rfl⟩
    · exact h.ids k id hk
    · refine ⟨congrArg some himpl, .inr ?_⟩
      change ev.key.uid = _
      rw [hkey, huid]
  · intro x hx
    rcases ListScheduler.mem_insertInto.1 hx with rfl | hx
    · refine ⟨?_, ?_⟩
      · rw [hkey, himpl]
        exact huid
      · rw [himpl]
        exact getElem?_append_singleton.2 (.inr ⟨rfl, rfl⟩)
    · exact (h.pending x hx).append rfl
  · intro x hx
    rcases ListScheduler.mem_insertInto.1 hx with rfl | hx
    · rw [EventKey.lt_def, hkey]
      have hcurrent := h.currentUid
      change s.sim.currentTs < delay + s.sim.currentTs ∨
        s.sim.currentTs = delay + s.sim.currentTs ∧ s.sim.currentUid < s.sim.uid
      omega
    · exact h.later x hx
  · exact fun run hrun => (h.ran run hrun).append rfl
  · intro run hrun
    rw [h.invoked run hrun]
    exact (invoke_congr (hold (h.ran run hrun).lt)).symm
  · intro k id hk huid'
    rcases getElem?_append_singleton.1 hk with hk | ⟨rfl, rfl⟩
    · have hlt : k < s.ids.length := (List.getElem?_eq_some_iff.1 hk).1
      rcases h.settled k id hk huid' with ⟨x, hx, hid⟩ | hran | hcancelled
      · exact .inl ⟨x, ListScheduler.mem_insertInto.2 (.inr hx), hid⟩
      · exact .inr (.inl hran)
      · exact .inr (.inr ((isCancelled_congr (hold hlt)).trans hcancelled))
    · exact .inl ⟨ev, ListScheduler.mem_insertInto.2 (.inl rfl), rfl⟩
  · rw [(ListScheduler.insertInto_perm ev es).length_eq, List.length_cons]
    change s.sim.unscheduledEvents + 1 = _
    rw [h.unscheduled]
    rfl

theorem scheduleDestroy (h : s.Consistent es) (hroom : s.ids.length + 5 < 2 ^ 32) (action : α) :
    Consistent { s with
      sim := (s.sim.scheduleDestroy action).2
      ids := s.ids ++ [(s.sim.scheduleDestroy action).1] } es := by
  have huid := h.uid
  have himpls := h.impls
  have hold : ∀ {k}, k < s.ids.length →
      (s.sim.impls ++ [(⟨action, false⟩ : EventImpl α)])[k]? = s.sim.impls[k]? :=
    fun hk => List.getElem?_append_left (himpls ▸ hk)
  refine ⟨h.holds, ?_, ?_, ?_, ?_, ?_, h.later, ?_, h.past, h.order, ?_, ?_, h.unscheduled⟩
  · rw [List.length_append, List.length_singleton]
    change (s.sim.uid + 1) % 2 ^ 32 = _
    omega
  · have hcurrent := h.currentUid
    change s.sim.currentUid < (s.sim.uid + 1) % 2 ^ 32
    omega
  · change (s.sim.impls ++ [(⟨action, false⟩ : EventImpl α)]).length = _
    rw [List.length_append, List.length_append, himpls]
    rfl
  · intro k id hk
    rcases getElem?_append_singleton.1 hk with hk | ⟨rfl, rfl⟩
    · exact h.ids k id hk
    · exact ⟨congrArg some himpls, .inl rfl⟩
  · exact fun x hx => (h.pending x hx).append rfl
  · exact fun run hrun => (h.ran run hrun).append rfl
  · intro run hrun
    rw [h.invoked run hrun]
    exact (invoke_congr (hold (h.ran run hrun).lt)).symm
  · intro k id hk huid'
    rcases getElem?_append_singleton.1 hk with hk | ⟨rfl, rfl⟩
    · have hlt : k < s.ids.length := (List.getElem?_eq_some_iff.1 hk).1
      rcases h.settled k id hk huid' with hpending | hran | hcancelled
      · exact .inl hpending
      · exact .inr (.inl hran)
      · exact .inr (.inr ((isCancelled_congr (hold hlt)).trans hcancelled))
    · change (2 : ℕ) = 4 + _ at huid'
      omega

/-- An event that is pending or for the end may be cancelled. -/
theorem cancelImpl (h : s.Consistent es) {n : ℕ} (hn : ∀ run ∈ s.history, run.1.impl ≠ n) :
    Consistent { s with sim := s.sim.cancelImpl n } es := by
  refine ⟨h.holds, h.uid, h.currentUid, ?_, h.ids, fun e he => (h.pending e he).of_ids rfl, h.later,
    fun run hrun => (h.ran run hrun).of_ids rfl, h.past, h.order, ?_, ?_, h.unscheduled⟩
  · exact (List.length_modify _ _ _).trans h.impls
  · intro run hrun
    rw [h.invoked run hrun]
    exact (invoke_congr (cancelImpl_of_ne s.sim (hn run hrun).symm)).symm
  · intro k id hk huid
    rcases h.settled k id hk huid with hpending | hran | hcancelled
    · exact .inl hpending
    · exact .inr (.inl hran)
    · exact .inr (.inr (isCancelled_mono hcancelled))

/-- An id whose event has run is the id of that run. -/
theorem id_of_ran (h : s.Consistent es) {run : Scheduler.Event × Option α} (hrun : run ∈ s.history)
    {id : EventId} (hid : s.ids[run.1.impl]? = some id) : idOf run.1 = id :=
  Option.some.inj ((h.ran run hrun).id.symm.trans hid)

/-- `IsExpired` tells whether an event has run or was cancelled. -/
theorem isExpired_iff (h : s.Consistent es) {k : ℕ} {id : EventId} (hk : s.ids[k]? = some id)
    (huid : id.uid = 4 + k) :
    s.sim.isExpired id = true ↔
      (∃ run ∈ s.history, idOf run.1 = id) ∨ s.sim.isCancelled k = true := by
  have hdestroy : id.uid ≠ EventId.DESTROY := by
    change id.uid ≠ 2
    omega
  rw [isExpired_eq (h.ids k id hk).1 hdestroy]
  constructor
  · rintro (hpast | hcancelled)
    · rcases h.settled k id hk huid with ⟨e, he, hid⟩ | hran | hcancelled
      · exact absurd (h.later e he) (key_eq hid ▸ hpast)
      · exact .inl hran
      · exact .inr hcancelled
    · exact .inr hcancelled
  · rintro (⟨run, hrun, hid⟩ | hcancelled)
    · exact .inl (key_eq hid ▸ h.past run hrun)
    · exact .inr hcancelled

/-- An event that has not expired is pending, as it was scheduled. -/
theorem pending_of_not_expired (h : s.Consistent es) {k : ℕ} {id : EventId}
    (hk : s.ids[k]? = some id) (hdestroy : id.uid ≠ EventId.DESTROY)
    (hexpired : ¬ s.sim.isExpired id = true) :
    ∃ e ∈ es, idOf e = id ∧ e = ⟨k, id.ts, id.uid, id.context⟩ := by
  rcases h.ids k id hk with ⟨himpl, hkind⟩
  have huid : id.uid = 4 + k := hkind.resolve_left hdestroy
  rw [h.isExpired_iff hk huid, not_or] at hexpired
  obtain ⟨e, he, hid⟩ : ∃ e ∈ es, idOf e = id :=
    (h.settled k id hk huid).resolve_right (not_or.2 hexpired)
  refine ⟨e, he, hid, ?_⟩
  have hek : e.impl = k := Option.some.inj ((congrArg EventId.eventImpl hid).trans himpl)
  rw [← hek, ← hid]
  rfl

/-- The implementation of an event that has not expired was not called. -/
theorem impl_ne_of_not_expired (h : s.Consistent es) {k : ℕ} {id : EventId}
    (hk : s.ids[k]? = some id) (hexpired : s.sim.isExpired id = false) :
    ∀ run ∈ s.history, run.1.impl ≠ k := by
  rintro run hrun rfl
  have hid := h.id_of_ran hrun hk
  have huid : id.uid = 4 + run.1.impl := by
    rw [← hid]
    exact (h.ran run hrun).uid
  rw [(h.isExpired_iff hk huid).2 (.inl ⟨run, hrun, hid⟩)] at hexpired
  cases hexpired

theorem cancel (h : s.Consistent es) {k : ℕ} {id : EventId} (hk : s.ids[k]? = some id) :
    Consistent { s with sim := s.sim.cancel id } es := by
  rw [DefaultSimulatorImpl.cancel]
  by_cases hexpired : s.sim.isExpired id = true
  · rw [if_pos hexpired]
    exact h
  · rw [if_neg hexpired, (h.ids k id hk).1]
    exact h.cancelImpl (h.impl_ne_of_not_expired hk (Bool.eq_false_iff.2 hexpired))

/-- The next event runs. -/
theorem process (h : s.Consistent (e :: es)) :
    ∃ sim, s.sim.processOneEvent = some ((e, s.sim.invoke e.impl), sim) ∧
      Consistent { s with sim := sim, history := s.history ++ [(e, s.sim.invoke e.impl)] } es := by
  rcases LawfulScheduler.removeNext_cons h.holds with ⟨events, hremove, hholds⟩
  have hlater := h.later e List.mem_cons_self
  have he := h.pending e List.mem_cons_self
  have hts : s.sim.currentTs ≤ e.key.ts := by
    rw [EventKey.lt_def] at hlater
    change s.sim.currentTs < e.key.ts ∨ s.sim.currentTs = e.key.ts ∧ _ at hlater
    omega
  have hafter : ∀ run ∈ s.history, run.1.key < e.key := by
    intro run hrun
    have hpast := h.past run hrun
    rw [EventKey.lt_def] at hpast hlater ⊢
    omega
  refine ⟨_, by simp [processOneEvent, hremove, guard, hts]; rfl, ?_⟩
  refine ⟨hholds, h.uid, ?_, h.impls, h.ids, ?_, ?_, ?_, ?_, ?_, ?_, ?_, ?_⟩
  · have hlt := he.lt
    have huid := he.uid
    have hnext := h.uid
    change e.key.uid < s.sim.uid
    omega
  · exact fun x hx => (h.pending x (List.mem_cons_of_mem e hx)).of_ids rfl
  · exact fun x hx => h.agenda.head_lt hx
  · intro run hrun
    rcases List.mem_append.1 hrun with hrun | hrun
    · exact (h.ran run hrun).of_ids rfl
    · obtain rfl := List.mem_singleton.1 hrun
      exact he.of_ids rfl
  · intro run hrun hlt
    change e.key < run.1.key at hlt
    rcases List.mem_append.1 hrun with hrun | hrun
    · exact EventKey.lt_irrefl _ (EventKey.lt_trans hlt (hafter run hrun))
    · obtain rfl := List.mem_singleton.1 hrun
      exact EventKey.lt_irrefl _ hlt
  · refine List.pairwise_append.2 ⟨h.order, List.pairwise_singleton _ _, ?_⟩
    intro run hrun x hx
    obtain rfl := List.mem_singleton.1 hx
    exact hafter run hrun
  · intro run hrun
    rcases List.mem_append.1 hrun with hrun | hrun
    · exact h.invoked run hrun
    · obtain rfl := List.mem_singleton.1 hrun
      rfl
  · intro k id hk huid
    rcases h.settled k id hk huid with ⟨x, hx, hid⟩ | ⟨run, hrun, hid⟩ | hcancelled
    · rcases List.mem_cons.1 hx with rfl | hx
      · exact .inr (.inl ⟨(x, _), List.mem_append_right _ List.mem_cons_self, hid⟩)
      · exact .inl ⟨x, hx, hid⟩
    · exact .inr (.inl ⟨run, List.mem_append_left _ hrun, hid⟩)
    · exact .inr (.inr hcancelled)
  · have hcount := h.unscheduled
    rw [List.length_cons] at hcount
    change s.sim.unscheduledEvents - 1 = _
    omega

/-- `Remove` of an event that is not pending leaves the event list as it is. -/
theorem remove_of_not_pending (h : s.Consistent es) {k : ℕ} {id : EventId}
    (hk : s.ids[k]? = some id) (hgone : s.removesPending (.remove k : Call α) = false) :
    ∃ sim, s.sim.remove id = some sim ∧ Consistent { s with sim := sim } es := by
  rw [DefaultSimulatorImpl.remove]
  by_cases hdestroy : id.uid = EventId.DESTROY
  · rw [if_pos hdestroy]
    exact ⟨_, rfl, h.holds, h.uid, h.currentUid, h.impls, h.ids,
      fun e he => (h.pending e he).of_ids rfl, h.later, fun run hrun => (h.ran run hrun).of_ids rfl,
      h.past, h.order, h.invoked, h.settled, h.unscheduled⟩
  · have hexpired : s.sim.isExpired id = true := by
      rw [removesPending, hk] at hgone
      simpa [hdestroy] using hgone
    rw [if_neg hdestroy, if_pos hexpired]
    exact ⟨s.sim, rfl, h⟩

/-- A call that removes no pending event succeeds, unless it is to run an event and none is pending. -/
theorem next_of_not_remove (h : s.Consistent es) {call : Call α} (hcall : s.NoRemoval call) :
    call = .processOneEvent ∧ es = [] ∧ s.next call = none ∨
      ∃ s' es', s.next call = some s' ∧ s'.Consistent es' := by
  rcases hcall with ⟨hroom, hcall⟩
  cases call with
  | schedule delay action =>
      rcases h.schedule hroom s.sim.getContext delay action with ⟨sim, hsim, hcons⟩
      refine .inr ⟨_, _, ?_, hcons⟩
      rw [Session.next, DefaultSimulatorImpl.schedule, hsim]
      rfl
  | scheduleWithContext context delay action =>
      rcases h.schedule hroom context delay action with ⟨sim, hsim, hcons⟩
      refine .inr ⟨_, _, ?_, hcons⟩
      rw [Session.next, hsim]
      rfl
  | scheduleDestroy action =>
      exact .inr ⟨_, _, rfl, h.scheduleDestroy hroom action⟩
  | cancel n =>
      cases hn : s.ids[n]? with
      | none =>
          exact .inr ⟨s, es, by rw [Session.next, hn], h⟩
      | some id =>
          exact .inr ⟨_, es, by rw [Session.next, hn], h.cancel hn⟩
  | remove n =>
      cases hn : s.ids[n]? with
      | none =>
          exact .inr ⟨s, es, by rw [Session.next, hn], h⟩
      | some id =>
          rcases h.remove_of_not_pending hn hcall with ⟨sim, hsim, hcons⟩
          refine .inr ⟨_, es, ?_, hcons⟩
          simp only [Session.next, hn, hsim]
          rfl
  | processOneEvent =>
      cases es with
      | nil =>
          refine .inl ⟨rfl, rfl, ?_⟩
          rw [Session.next, processOneEvent, LawfulScheduler.removeNext_nil h.holds]
          rfl
      | cons e es =>
          rcases h.process with ⟨sim, hsim, hcons⟩
          refine .inr ⟨_, es, ?_, hcons⟩
          rw [Session.next, hsim]
          rfl

end Consistent

end Lawful

/-! ## Removal -/

section Removal

variable [LawfulRemoval σ] {s : Session σ α} {es : List Scheduler.Event}

/-- A pending event is removed, and is marked as cancelled. -/
theorem Consistent.remove_pending (h : s.Consistent es) {k : ℕ} {id : EventId}
    (hk : s.ids[k]? = some id) (hpending : s.removesPending (.remove k : Call α) = true) :
    ∃ sim es', s.sim.remove id = some sim ∧ Consistent { s with sim := sim } es' := by
  rw [removesPending, hk, Bool.and_eq_true] at hpending
  have hdestroy : id.uid ≠ EventId.DESTROY := bne_iff_ne.1 hpending.1
  have hexpired : ¬ s.sim.isExpired id = true := by simpa using hpending.2
  rcases h.ids k id hk with ⟨himpl, hkind⟩
  have huid : id.uid = 4 + k := hkind.resolve_left hdestroy
  rw [DefaultSimulatorImpl.remove, if_neg hdestroy, if_neg hexpired, himpl]
  rcases h.pending_of_not_expired hk hdestroy hexpired with ⟨e, he, hid, heq⟩
  rcases LawfulRemoval.holds_remove h.holds he with ⟨events, hremove, hholds⟩
  have hcancelled := h.cancelImpl (h.impl_ne_of_not_expired hk (Bool.eq_false_iff.2 hexpired))
  have hflag : (s.sim.cancelImpl k).isCancelled k = true := by
    refine isCancelled_cancelImpl s.sim ?_
    rw [h.impls]
    exact (List.getElem?_eq_some_iff.1 hk).1
  refine ⟨{ s.sim.cancelImpl k with
      events := events
      unscheduledEvents := s.sim.unscheduledEvents - 1 }, es.erase e, ?_, ?_⟩
  · simp only [← heq, hremove]
    rfl
  refine ⟨hholds, h.uid, h.currentUid, hcancelled.impls, h.ids, ?_, ?_,
    fun run hrun => (h.ran run hrun).of_ids rfl, h.past, h.order, hcancelled.invoked, ?_, ?_⟩
  · exact fun x hx => (h.pending x (List.mem_of_mem_erase hx)).of_ids rfl
  · exact fun x hx => h.later x (List.mem_of_mem_erase hx)
  · intro j id' hj huid'
    rcases hcancelled.settled j id' hj huid' with ⟨x, hx, hid'⟩ | hran | hflag'
    · by_cases hxe : x = e
      · subst hxe
        have hjk : j = k := by
          have hids : id' = id := hid'.symm.trans hid
          rw [hids] at huid'
          omega
        subst hjk
        exact .inr (.inr hflag)
      · exact .inl ⟨x, h.agenda.mem_erase.2 ⟨hxe, hx⟩, hid'⟩
    · exact .inr (.inl hran)
    · exact .inr (.inr hflag')
  · have hlength := List.length_erase_of_mem he
    have hpos := List.length_pos_of_mem he
    have hcount := h.unscheduled
    change s.sim.unscheduledEvents - 1 = ((es.erase e).length : ℤ)
    omega

theorem Consistent.remove (h : s.Consistent es) {k : ℕ} {id : EventId} (hk : s.ids[k]? = some id) :
    ∃ sim es', s.sim.remove id = some sim ∧ Consistent { s with sim := sim } es' := by
  cases hpending : s.removesPending (.remove k : Call α) with
  | false =>
      rcases h.remove_of_not_pending hk hpending with ⟨sim, hsim, hcons⟩
      exact ⟨sim, es, hsim, hcons⟩
  | true =>
      exact h.remove_pending hk hpending

/-- With a lawful removal, so does every call. -/
theorem Consistent.next (h : s.Consistent es) {call : Call α} (hroom : s.Room call) :
    call = .processOneEvent ∧ es = [] ∧ s.next call = none ∨
      ∃ s' es', s.next call = some s' ∧ s'.Consistent es' := by
  cases hcall : s.removesPending call with
  | false =>
      exact h.next_of_not_remove ⟨hroom, hcall⟩
  | true =>
      obtain ⟨n, rfl⟩ : ∃ n, call = .remove n := by
        cases call with
        | remove n => exact ⟨n, rfl⟩
        | _ => cases hcall
      cases hn : s.ids[n]? with
      | none =>
          exact .inr ⟨s, es, by rw [Session.next, hn], h⟩
      | some id =>
          rcases h.remove_pending hn hcall with ⟨sim, es', hsim, hcons⟩
          refine .inr ⟨_, es', ?_, hcons⟩
          simp only [Session.next, hn, hsim]
          rfl

end Removal

/-! ## What code on the simulator can rely on -/

/-- The event of an id was cancelled, or removed. -/
def IsCancelled (s : Session σ α) (id : EventId) : Prop :=
  ∃ impl, id.eventImpl = some impl ∧ s.sim.isCancelled impl = true

/-- The event of an id has run. -/
def HasRun (s : Session σ α) (id : EventId) : Prop := ∃ run ∈ s.history, idOf run.1 = id

/-- The promises of the simulator, when the calls that are made meet `G`. -/
structure Correct [Scheduler σ] (G : Session σ α → Call α → Prop) (s : Session σ α) : Prop where
  /-- Events run in the order of their times and, at one time, in the order they were scheduled;
  in particular none runs twice. -/
  inOrder : s.history.Pairwise (fun x y => x.1.key < y.1.key)
  wasScheduled : ∀ run ∈ s.history, idOf run.1 ∈ s.ids
  /-- The action of an event that has run was called, unless the event had been cancelled. -/
  called : ∀ run ∈ s.history, run.2 = s.sim.invoke run.1.impl
  expired_iff : ∀ id ∈ s.ids, id.uid ≠ EventId.DESTROY →
    (s.sim.isExpired id = true ↔ s.HasRun id ∨ s.IsCancelled id)
  /-- The delay that is left takes an event that has not expired to its time. -/
  delayLeft : ∀ id ∈ s.ids, id.uid ≠ EventId.DESTROY → s.sim.isExpired id = false →
    s.sim.now + s.sim.getDelayLeft id = id.ts
  /-- The only call that cannot be made is to run an event when none is pending. -/
  neverFails : ∀ call, G s call → s.next call = none →
    call = .processOneEvent ∧ Scheduler.isEmpty s.sim.events = true
  /-- When nothing is pending everything has run or was cancelled, and the books are closed. -/
  complete : Scheduler.isEmpty s.sim.events = true → s.sim.unscheduledEvents = 0 ∧
    ∀ id ∈ s.ids, id.uid ≠ EventId.DESTROY → s.HasRun id ∨ s.IsCancelled id

/-- The events of a session are consistent as long as the calls that are made keep them so. -/
theorem consistent_of [LawfulScheduler σ] {G : Session σ α → Call α → Prop} {s : Session σ α}
    (hnext : ∀ (s : Session σ α) es call, s.Consistent es → G s call →
      call = .processOneEvent ∧ es = [] ∧ s.next call = none ∨
        ∃ s' es', s.next call = some s' ∧ s'.Consistent es')
    (hr : Transition.Reachable (system σ α) G s) : ∃ es, s.Consistent es := by
  refine Transition.Reachable.invariant (P := fun s : Session σ α => ∃ es, s.Consistent es)
    ⟨[], Consistent.init⟩ ?_ hr
  rintro s call s' - ⟨es, h⟩ hcall hsome
  rcases hnext s es call h hcall with ⟨-, -, hnone⟩ | ⟨s'', es', hsome', hcons⟩
  · cases hnone.symm.trans hsome
  · obtain rfl : s'' = s' := Option.some.inj (hsome'.symm.trans hsome)
    exact ⟨es', hcons⟩

/-- A simulator whose events are consistent keeps its promises. -/
theorem Consistent.correct [LawfulScheduler σ] {G : Session σ α → Call α → Prop} {s : Session σ α}
    {es : List Scheduler.Event} (h : s.Consistent es)
    (hnext : ∀ call, G s call → call = .processOneEvent ∧ es = [] ∧ s.next call = none ∨
      ∃ s' es', s.next call = some s' ∧ s'.Consistent es') : s.Correct G := by
  have hid : ∀ id ∈ s.ids, id.uid ≠ EventId.DESTROY →
      ∃ k : ℕ, s.ids[k]? = some id ∧ id.eventImpl = some k ∧ id.uid = 4 + k := by
    intro id hmem hdestroy
    rcases List.getElem?_of_mem hmem with ⟨k, hk⟩
    exact ⟨k, hk, (h.ids k id hk).1, (h.ids k id hk).2.resolve_left hdestroy⟩
  have hcancelled : ∀ {id : EventId} {k : ℕ}, id.eventImpl = some k →
      (s.sim.isCancelled k = true ↔ s.IsCancelled id) := by
    intro id k himpl
    constructor
    · exact fun hflag => ⟨k, himpl, hflag⟩
    · rintro ⟨k', himpl', hflag⟩
      obtain rfl : k = k' := Option.some.inj (himpl.symm.trans himpl')
      exact hflag
  have hexpired : ∀ id ∈ s.ids, id.uid ≠ EventId.DESTROY →
      (s.sim.isExpired id = true ↔ s.HasRun id ∨ s.IsCancelled id) := by
    intro id hmem hdestroy
    rcases hid id hmem hdestroy with ⟨k, hk, himpl, huid⟩
    rw [h.isExpired_iff hk huid, hcancelled himpl]
    rfl
  have hempty : Scheduler.isEmpty s.sim.events = true ↔ es = [] := by
    rw [LawfulScheduler.isEmpty_eq h.holds, List.isEmpty_iff]
  refine ⟨h.order, ?_, h.invoked, hexpired, ?_, ?_, ?_⟩
  · intro run hrun
    exact List.mem_of_getElem? (h.ran run hrun).id
  · intro id hmem hdestroy hlive
    rcases hid id hmem hdestroy with ⟨k, hk, himpl, huid⟩
    have hfuture : s.current < ⟨id.ts, id.uid, id.context⟩ := by
      by_contra hpast
      rw [(isExpired_eq himpl hdestroy).2 (.inl hpast)] at hlive
      cases hlive
    rw [EventKey.lt_def] at hfuture
    rw [now, getDelayLeft, hlive]
    change s.sim.currentTs < id.ts ∨ s.sim.currentTs = id.ts ∧ _ at hfuture
    simp only [Bool.false_eq_true, if_false]
    omega
  · intro call hcall hnone
    rcases hnext call hcall with ⟨hcall, hes, -⟩ | ⟨s', es', hsome, -⟩
    · exact ⟨hcall, hempty.2 hes⟩
    · cases hnone.symm.trans hsome
  · intro hnone
    obtain rfl : es = [] := hempty.1 hnone
    refine ⟨h.unscheduled, ?_⟩
    intro id hmem hdestroy
    rcases hid id hmem hdestroy with ⟨k, hk, himpl, huid⟩
    rcases h.settled k id hk huid with ⟨e, he, -⟩ | hran | hflag
    · cases he
    · exact .inl hran
    · exact .inr ((hcancelled himpl).1 hflag)

example :
    let calls : List (Call ℕ) := [1, 10, 2, 20, 30, 50, 3].map (Call.schedule · 0) ++
      [.remove 3, .processOneEvent, .processOneEvent, .processOneEvent]
    (calls.foldlM (fun (s : Session HeapScheduler ℕ) call => s.next call) { sim := create }).map
        (fun s => (s.history.map (·.1.key.ts), (s.next .processOneEvent).isNone)) =
      some ([1, 2, 10], true) := by
  decide

end Session

end SyncPaxos
