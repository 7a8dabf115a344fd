import SyncPaxos.Engine.Calendar
import SyncPaxos.Engine.Session

/-!
# CalendarSession — the simulator never writes into the past

A calendar is a sorted list only as long as nothing is inserted before the last event that was removed,
so it is no lawful scheduler.  The simulator schedules nothing before the present, and the present is
not before the last event that ran.  So a session over a calendar goes as the session over a list does
(`Follows.next`), and the simulator keeps its promises with a calendar too.
-/

namespace SyncPaxos.Session

open Scheduler (EventKey)
open DefaultSimulatorImpl

variable {α : Type} {σ τ : Type}

/-- A session with another event list. -/
def withEvents (s : Session σ α) (events : τ) : Session τ α :=
  { s with sim := { s.sim with events := events } }

/-- A session over a calendar, seen as a session over the list of its events. -/
structure Follows (s : Session CalendarScheduler α) (es : List Scheduler.Event) : Prop where
  holds : CalendarScheduler.Holds s.sim.events es
  lastPrio : s.sim.events.lastPrio ≤ s.sim.currentTs
  list : (s.withEvents (ListScheduler.mk es)).Consistent es

namespace Follows

variable {s : Session CalendarScheduler α} {es : List Scheduler.Event} {e : Scheduler.Event}

theorem init : Follows ({ sim := create } : Session CalendarScheduler α) [] :=
  ⟨CalendarScheduler.create_holds, Nat.le_refl 0, Consistent.init⟩

theorem schedule (h : s.Follows es) (hroom : s.ids.length + 5 < 2 ^ 32) (context delay : ℕ)
    (action : α) :
    ∃ sim es', s.sim.scheduleWithContext context delay action = some sim ∧
      (s.withEvents (ListScheduler.mk es)).sim.scheduleWithContext context delay action =
        some { sim with events := ListScheduler.mk es' } ∧
      Follows { s with sim := sim, ids := s.ids ++ [idOf (s.sim.nextEvent context delay)] } es' := by
  have hnew : ∀ x ∈ es, x.key.uid ≠ (s.sim.nextEvent context delay).key.uid :=
    fun x hx => h.list.uid_ne (h.list.pending x hx)
  -- The new event is not before the present, which is not before the last removal.
  have hprio : s.sim.events.lastPrio ≤ (s.sim.nextEvent context delay).key.ts :=
    h.lastPrio.trans (Nat.le_add_left _ _)
  rcases CalendarScheduler.insert_spec h.holds hnew hprio with ⟨events, hinsert, hholds, hsame⟩
  rcases h.list.schedule hroom context delay action with ⟨sim, hsim, hcons⟩
  obtain rfl := Option.some.inj hsim
  refine ⟨{ s.sim with
      events := events
      uid := (s.sim.uid + 1) % 2 ^ 32
      unscheduledEvents := s.sim.unscheduledEvents + 1
      impls := s.sim.impls ++ [{ action := action }] }, _, ?_, rfl, hholds, ?_, hcons⟩
  · rw [scheduleWithContext]
    change (s.sim.events.insert _).bind _ = _
    rw [hinsert]
    rfl
  · change events.lastPrio ≤ s.sim.currentTs
    rw [hsame]
    exact h.lastPrio

/-- An event is cancelled in the memory, whatever list it is in. -/
theorem cancel_withEvents (sim : DefaultSimulatorImpl σ α) (events : τ) (id : EventId) :
    ({ sim with events := events } : DefaultSimulatorImpl τ α).cancel id =
      { sim.cancel id with events := events } := by
  have hexpired : ({ sim with events := events } : DefaultSimulatorImpl τ α).isExpired id =
    sim.isExpired id := rfl
  rw [DefaultSimulatorImpl.cancel, DefaultSimulatorImpl.cancel, hexpired]
  by_cases h : sim.isExpired id = true
  · rw [if_pos h, if_pos h]
  · rw [if_neg h, if_neg h]
    cases id.eventImpl <;> rfl

theorem events_cancel (sim : DefaultSimulatorImpl σ α) (id : EventId) :
    (sim.cancel id).events = sim.events ∧ (sim.cancel id).currentTs = sim.currentTs := by
  rw [DefaultSimulatorImpl.cancel]
  split
  · exact ⟨rfl, rfl⟩
  · cases id.eventImpl <;> exact ⟨rfl, rfl⟩

theorem cancel (h : s.Follows es) {k : ℕ} {id : EventId} (hk : s.ids[k]? = some id) :
    Follows { s with sim := s.sim.cancel id } es := by
  rcases events_cancel s.sim id with ⟨hevents, hts⟩
  have hcons := h.list.cancel hk
  refine ⟨?_, ?_, ?_⟩
  · change CalendarScheduler.Holds (s.sim.cancel id).events es
    rw [hevents]
    exact h.holds
  · change (s.sim.cancel id).events.lastPrio ≤ (s.sim.cancel id).currentTs
    rw [hevents, hts]
    exact h.lastPrio
  · rw [withEvents] at hcons ⊢
    rw [cancel_withEvents] at hcons
    exact hcons

theorem remove (h : s.Follows es) {k : ℕ} {id : EventId} (hk : s.ids[k]? = some id) :
    ∃ sim es', s.sim.remove id = some sim ∧ Follows { s with sim := sim } es' := by
  rcases h.list.remove hk with ⟨sim, es', hsim, hcons⟩
  rw [DefaultSimulatorImpl.remove] at hsim ⊢
  by_cases hdestroy : id.uid = EventId.DESTROY
  · rw [if_pos hdestroy] at hsim ⊢
    obtain rfl := Option.some.inj hsim
    obtain rfl : es = es' := hcons.holds.2
    exact ⟨_, es, rfl, h.holds, h.lastPrio, hcons⟩
  · rw [if_neg hdestroy] at hsim ⊢
    by_cases hexpired : s.sim.isExpired id = true
    · rw [if_pos hexpired]
      exact ⟨s.sim, es, rfl, h⟩
    · -- The id names a pending event, so the calendar has it in its bucket.
      rcases h.list.pending_of_not_expired hk hdestroy hexpired with ⟨e, he, -, heq⟩
      rcases CalendarScheduler.remove_spec h.holds he with ⟨events, hremove, hholds, hsame⟩
      have himpl := (h.list.ids k id hk).1
      have hlist : Scheduler.remove e (ListScheduler.mk es) = some ⟨es.erase e⟩ :=
        congrArg (Option.map ListScheduler.mk) (ListScheduler.removeFrom_eq h.holds.agenda he)
      have hnot : ¬ (s.withEvents (ListScheduler.mk es)).sim.isExpired id = true := hexpired
      rw [if_neg hexpired, himpl]
      rw [if_neg hnot, himpl] at hsim
      subst heq
      simp only [withEvents, hlist] at hsim
      obtain rfl := Option.some.inj hsim
      obtain rfl : es.erase _ = es' := hcons.holds.2
      refine ⟨{ s.sim.cancelImpl k with
        events := events
        unscheduledEvents := s.sim.unscheduledEvents - 1 }, _, ?_, hholds, ?_, hcons⟩
      · change (s.sim.events.remove _).bind _ = _
        rw [hremove]
        rfl
      · change events.lastPrio ≤ s.sim.currentTs
        rw [hsame]
        exact h.lastPrio

theorem process (h : s.Follows (e :: es)) :
    ∃ sim, s.sim.processOneEvent = some ((e, s.sim.invoke e.impl), sim) ∧
      (s.withEvents (ListScheduler.mk (e :: es))).sim.processOneEvent =
        some ((e, s.sim.invoke e.impl), { sim with events := ListScheduler.mk es }) ∧
      Follows { s with sim := sim, history := s.history ++ [(e, s.sim.invoke e.impl)] } es := by
  rcases CalendarScheduler.removeNext_spec h.holds with ⟨events, hremove, hholds, hprio⟩
  rcases h.list.process with ⟨sim, hsim, hcons⟩
  have hlistRun := hsim
  have hts : s.sim.currentTs ≤ e.key.ts := by
    have hlater := h.list.later e List.mem_cons_self
    rw [EventKey.lt_def] at hlater
    change s.sim.currentTs < e.key.ts ∨ s.sim.currentTs = e.key.ts ∧ _ at hlater
    omega
  have hlist : Scheduler.removeNext (ListScheduler.mk (e :: es)) = some (e, ⟨es⟩) := rfl
  have hcalendar : Scheduler.removeNext s.sim.events = some (e, events) := hremove
  simp only [processOneEvent, withEvents, hlist, Option.bind_eq_bind, Option.bind_some, guard,
    ge_iff_le, if_pos hts, Option.pure_def] at hsim
  have hsame := (Prod.mk.inj (Option.some.inj hsim)).2
  subst hsame
  refine ⟨{ s.sim with
      events := events
      unscheduledEvents := s.sim.unscheduledEvents - 1
      eventCount := s.sim.eventCount + 1
      currentTs := e.key.ts
      currentContext := e.key.context
      currentUid := e.key.uid }, ?_, hlistRun, hholds, Nat.le_of_eq hprio, hcons⟩
  simp only [processOneEvent, hcalendar, Option.bind_eq_bind, Option.bind_some, guard, ge_iff_le,
    if_pos hts, Option.pure_def]

/-- `PeekNext` shows the event that `ProcessOneEvent` runs. -/
theorem peekNext (h : s.Follows es) : s.sim.events.peekNext = es.head? := by
  cases es with
  | nil =>
      have hempty : s.sim.events.qSize = 0 := h.holds.qSize
      rw [CalendarScheduler.peekNext, if_pos hempty]
      rfl
  | cons e es =>
      exact CalendarScheduler.peekNext_spec h.holds.files h.holds.openAt h.holds.agenda
        h.holds.qSize_ne_zero

/-- Every call goes as it does over the list. -/
theorem next (h : s.Follows es) {call : Call α} (hroom : s.Room call) :
    call = .processOneEvent ∧ es = [] ∧ s.next call = none ∨
      ∃ s' es', s.next call = some s' ∧ s'.Follows es' := by
  cases call with
  | schedule delay action =>
      rcases h.schedule hroom s.sim.getContext delay action with ⟨sim, es', hsim, -, hfollows⟩
      refine .inr ⟨_, es', ?_, hfollows⟩
      rw [Session.next, DefaultSimulatorImpl.schedule, hsim]
      rfl
  | scheduleWithContext context delay action =>
      rcases h.schedule hroom context delay action with ⟨sim, es', hsim, -, hfollows⟩
      refine .inr ⟨_, es', ?_, hfollows⟩
      rw [Session.next, hsim]
      rfl
  | scheduleDestroy action =>
      exact .inr ⟨_, es, rfl, h.holds, h.lastPrio, h.list.scheduleDestroy hroom action⟩
  | cancel n =>
      cases hn : s.ids[n]? with
      | none =>
          exact .inr ⟨s, es, by rw [Session.next, hn], h⟩
      | some id =>
          exact .inr ⟨_, es, by rw [Session.next, hn], h.cancel hn⟩
  | remove n =>
      cases hn : s.ids[n]? with
      | none =>
          exact .inr ⟨s, es, by rw [Session.next, hn], h⟩
      | some id =>
          rcases h.remove hn with ⟨sim, es', hsim, hfollows⟩
          refine .inr ⟨_, es', ?_, hfollows⟩
          simp only [Session.next, hn, hsim]
          rfl
  | processOneEvent =>
      cases es with
      | nil =>
          have hnone : Scheduler.removeNext s.sim.events = none :=
            CalendarScheduler.removeNext_nil h.holds
          refine .inl ⟨rfl, rfl, ?_⟩
          rw [Session.next, processOneEvent, hnone]
          rfl
      | cons e es =>
          rcases h.process with ⟨sim, hsim, -, hfollows⟩
          refine .inr ⟨_, es, ?_, hfollows⟩
          rw [Session.next, hsim]
          rfl

end Follows

end SyncPaxos.Session
