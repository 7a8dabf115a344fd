import Mathlib.Algebra.Group.Nat.Defs
import Mathlib.Data.Int.Notation
import SyncPaxos.Model.Scheduler

/-!
# DefaultSimulator — the engine that runs the events (default-simulator-impl, event-id, event-impl)

The engine is run by one thread, so the queue for events of other threads stays empty and is left out,
as is the counting of references.  An operation is `none` where an assertion of the source fails.

`impls` is the memory that holds the implementations of events; a new one is put at the end.
-/

namespace SyncPaxos

/-- `EventImpl`: what `Notify` does, and `m_cancel`. -/
structure EventImpl (α : Type) where
  action : α
  cancel : Bool := false
  deriving DecidableEq, Repr

structure EventId where
  eventImpl : Option ℕ := none
  ts : ℕ := 0
  context : ℕ := 0
  uid : ℕ := 0
  deriving DecidableEq, Repr

namespace EventId

abbrev INVALID : ℕ := 0
abbrev DESTROY : ℕ := 2
abbrev VALID : ℕ := 4

end EventId

structure DefaultSimulatorImpl (σ α : Type) where
  events : σ
  destroyEvents : List EventId := []
  stop : Bool := false
  uid : ℕ := EventId.VALID
  currentUid : ℕ := EventId.INVALID
  currentTs : ℕ := 0
  /-- `Simulator::NO_CONTEXT` at first. -/
  currentContext : ℕ := 2 ^ 32 - 1
  eventCount : ℕ := 0
  unscheduledEvents : ℤ := 0
  impls : List (EventImpl α) := []

namespace DefaultSimulatorImpl

variable {σ α : Type} [Scheduler σ]

/-- The constructor and the first `SetScheduler`. -/
def create : DefaultSimulatorImpl σ α := { events := Scheduler.empty }

def now (s : DefaultSimulatorImpl σ α) : ℕ := s.currentTs

def getContext (s : DefaultSimulatorImpl σ α) : ℕ := s.currentContext

/-! ## Scheduling -/

/-- The event that is inserted for the next call. -/
def nextEvent (s : DefaultSimulatorImpl σ α) (context delay : ℕ) : Scheduler.Event where
  impl := s.impls.length
  key := { ts := delay + s.currentTs, uid := s.uid, context := context }

/-- `ScheduleWithContext`. -/
def scheduleWithContext (context delay : ℕ) (action : α) (s : DefaultSimulatorImpl σ α) :
    Option (DefaultSimulatorImpl σ α) := do
  let events ← Scheduler.insert (s.nextEvent context delay) s.events
  return { s with
    events := events
    uid := (s.uid + 1) % 2 ^ 32
    unscheduledEvents := s.unscheduledEvents + 1
    impls := s.impls ++ [{ action := action }] }

/-- The `EventId` of an event. -/
def idOf (ev : Scheduler.Event) : EventId where
  eventImpl := some ev.impl
  ts := ev.key.ts
  context := ev.key.context
  uid := ev.key.uid

def schedule (delay : ℕ) (action : α) (s : DefaultSimulatorImpl σ α) :
    Option (EventId × DefaultSimulatorImpl σ α) := do
  let s' ← s.scheduleWithContext s.getContext delay action
  return (idOf (s.nextEvent s.getContext delay), s')

def scheduleNow (action : α) (s : DefaultSimulatorImpl σ α) :
    Option (EventId × DefaultSimulatorImpl σ α) :=
  s.schedule 0 action

def scheduleDestroy (action : α) (s : DefaultSimulatorImpl σ α) :
    EventId × DefaultSimulatorImpl σ α :=
  let id : EventId :=
    { eventImpl := some s.impls.length
      ts := s.currentTs
      context := 2 ^ 32 - 1
      uid := EventId.DESTROY }
  (id,
    { s with
      destroyEvents := s.destroyEvents ++ [id]
      uid := (s.uid + 1) % 2 ^ 32
      impls := s.impls ++ [{ action := action }] })

/-! ## Events by their ids -/

/-- `EventImpl::IsCancelled` of the implementation at an address. -/
def isCancelled (s : DefaultSimulatorImpl σ α) (impl : ℕ) : Bool :=
  match s.impls[impl]? with
  | none => false
  | some ev => ev.cancel

/-- `EventImpl::Cancel` of the implementation at an address. -/
def cancelImpl (s : DefaultSimulatorImpl σ α) (impl : ℕ) : DefaultSimulatorImpl σ α :=
  { s with impls := s.impls.modify impl fun ev => { ev with cancel := true } }

def isExpired (id : EventId) (s : DefaultSimulatorImpl σ α) : Bool :=
  match id.eventImpl with
  | none => true
  | some impl =>
      if id.uid = EventId.DESTROY then
        s.isCancelled impl || !s.destroyEvents.contains id
      else
        id.ts < s.currentTs || (id.ts == s.currentTs && id.uid ≤ s.currentUid) || s.isCancelled impl

def getDelayLeft (id : EventId) (s : DefaultSimulatorImpl σ α) : ℕ :=
  if s.isExpired id then 0 else id.ts - s.currentTs

def cancel (id : EventId) (s : DefaultSimulatorImpl σ α) : DefaultSimulatorImpl σ α :=
  if s.isExpired id then
    s
  else
    match id.eventImpl with
    | none => s
    | some impl => s.cancelImpl impl

def remove (id : EventId) (s : DefaultSimulatorImpl σ α) : Option (DefaultSimulatorImpl σ α) :=
  if id.uid = EventId.DESTROY then
    some { s with destroyEvents := s.destroyEvents.erase id }
  else if s.isExpired id then
    some s
  else
    match id.eventImpl with
    | none => some s
    | some impl => do
        let events ← Scheduler.remove ⟨impl, id.ts, id.uid, id.context⟩ s.events
        return { s.cancelImpl impl with
          events := events
          unscheduledEvents := s.unscheduledEvents - 1 }

/-! ## Running -/

def isFinished (s : DefaultSimulatorImpl σ α) : Bool := Scheduler.isEmpty s.events || s.stop

/-- `EventImpl::Invoke` of the implementation at an address: the action, unless it is cancelled. -/
def invoke (s : DefaultSimulatorImpl σ α) (impl : ℕ) : Option α :=
  match s.impls[impl]? with
  | none => none
  | some ev => if ev.cancel then none else some ev.action

/-- `ProcessOneEvent` up to the call of `Invoke`, with the action that is called. -/
def processOneEvent (s : DefaultSimulatorImpl σ α) :
    Option ((Scheduler.Event × Option α) × DefaultSimulatorImpl σ α) := do
  let (next, events) ← Scheduler.removeNext s.events
  guard (next.key.ts ≥ s.currentTs)
  return ((next, s.invoke next.impl),
    { s with
      events := events
      unscheduledEvents := s.unscheduledEvents - 1
      eventCount := s.eventCount + 1
      currentTs := next.key.ts
      currentContext := next.key.context
      currentUid := next.key.uid })

/-- The loop of `SetScheduler`: the events go from one list to the other. -/
def moveEvents {τ : Type} [Scheduler τ] : ℕ → σ → τ → Option τ
  | 0, _, scheduler => some scheduler
  | rounds + 1, events, scheduler =>
      if Scheduler.isEmpty events then
        some scheduler
      else do
        let (next, events) ← Scheduler.removeNext events
        let scheduler ← Scheduler.insert next scheduler
        moveEvents rounds events scheduler

/-- `SetScheduler`; no more events are pending than were ever scheduled. -/
def setScheduler (τ : Type) [Scheduler τ] (s : DefaultSimulatorImpl σ α) :
    Option (DefaultSimulatorImpl τ α) := do
  let events ← moveEvents s.impls.length s.events (Scheduler.empty : τ)
  return { s with events := events }

end DefaultSimulatorImpl

end SyncPaxos
