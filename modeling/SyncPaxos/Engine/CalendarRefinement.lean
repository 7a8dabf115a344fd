import SyncPaxos.Engine.CalendarSession
import SyncPaxos.Engine.Refinement

/-!
# CalendarRefinement — the program on a calendar is the program

A machine with a calendar makes every turn that a machine with a sorted list makes, and no other, as
long as the numbers of events last.  The machine with the list is the program (`machine_refines`).
-/

namespace SyncPaxos.Machine

open DefaultSimulatorImpl

variable {context : Callback → ℕ} {C : Cluster} {c : Choice}
  {sim : DefaultSimulatorImpl CalendarScheduler Callback}
  {list : DefaultSimulatorImpl ListScheduler Callback}
  {m m' : Machine CalendarScheduler} {l l' : Machine ListScheduler}

/-- A simulator with a calendar, and the one that has its events in a list. -/
def Tracks (sim : DefaultSimulatorImpl CalendarScheduler Callback)
    (list : DefaultSimulatorImpl ListScheduler Callback) : Prop :=
  ∃ (s : Session CalendarScheduler Callback) (es : List Scheduler.Event),
    s.sim = sim ∧ s.Follows es ∧ list = { sim with events := ListScheduler.mk es }

/-- Two machines that differ in their event lists only. -/
structure Along (m : Machine CalendarScheduler) (l : Machine ListScheduler) : Prop where
  sim : Tracks m.sim l.sim
  world : m.world = l.world

theorem Room.of_le {σ : Type} {x y : Machine σ} (h : y.Room)
    (hle : x.sim.impls.length ≤ y.sim.impls.length) : x.Room :=
  Nat.lt_of_le_of_lt (Nat.add_le_add_right hle 4) h

theorem Tracks.impls (h : Tracks sim list) : list.impls = sim.impls := by
  rcases h with ⟨s, es, -, -, rfl⟩
  rfl

variable (context) in
theorem Tracks.scheduleAll (es : List Event) (h : Tracks sim list)
    (hroom : sim.impls.length + es.length + 4 < 2 ^ 32) :
    ∃ sim' list', Machine.scheduleAll context es sim = some sim' ∧
      Machine.scheduleAll context es list = some list' ∧ Tracks sim' list' := by
  induction es generalizing sim list with
  | nil =>
      exact ⟨sim, list, rfl, rfl, h⟩
  | cons e es ih =>
      rcases h with ⟨s, pending, rfl, hfollows, rfl⟩
      have himpls : s.sim.impls.length = s.ids.length := hfollows.list.impls
      rw [List.length_cons] at hroom
      rcases hfollows.schedule (by omega) (context e.action) (e.ts - s.sim.now) e.action with
        ⟨sim, es', hsim, hlist, hnext⟩
      have hlength : sim.impls.length = s.ids.length + 1 := by
        have hgrown := hnext.list.impls
        change sim.impls.length = (s.ids ++ [_]).length at hgrown
        rwa [List.length_append, List.length_singleton] at hgrown
      rcases ih ⟨_, es', rfl, hnext, rfl⟩ (by
          rw [hlength]
          omega) with ⟨sim', list', hall, hall', htracks⟩
      refine ⟨sim', list', ?_, ?_, htracks⟩
      · rw [Machine.scheduleAll, hsim]
        exact hall
      · exact (congrArg (Option.bind · (Machine.scheduleAll context es)) hlist).trans hall'

variable (context) in
/-- In a turn of both, the same is scheduled and the same world is left. -/
theorem Along.step_eq (h : Along m l) :
    m.step context C c = none ∧ l.step context C c = none ∨
      ∃ sim list out world, Tracks sim list ∧
        m.step context C c = (Machine.scheduleAll context out sim).map (fun sim => ⟨sim, world⟩) ∧
        l.step context C c =
          (Machine.scheduleAll context out list).map (fun list => ⟨list, world⟩) := by
  rcases h with ⟨⟨s, es, hsim, hfollows, hlist⟩, hworld⟩
  rw [Machine.step, Machine.step, ← hworld, hlist, ← hsim]
  by_cases haborted : m.world.aborted = true
  · rw [if_pos haborted, if_pos haborted]
    exact .inl ⟨rfl, rfl⟩
  · rw [if_neg haborted, if_neg haborted]
    cases es with
    | nil =>
        have hnone : Scheduler.removeNext s.sim.events = none :=
          CalendarScheduler.removeNext_nil hfollows.holds
        refine .inl ⟨?_, rfl⟩
        rw [processOneEvent, hnone]
        rfl
    | cons e es =>
        rcases hfollows.process with ⟨sim, hprocess, hprocess', hnext⟩
        have htracks : Tracks sim { sim with events := ListScheduler.mk es } :=
          ⟨_, es, rfl, hnext, rfl⟩
        change processOneEvent { s.sim with events := ListScheduler.mk (e :: es) } = _ at hprocess'
        rw [hprocess, hprocess']
        cases s.sim.invoke e.impl with
        | none =>
            exact .inr ⟨sim, _, [], m.world, htracks, rfl, rfl⟩
        | some action =>
            refine .inr ⟨sim, _, (call C c sim.now m.world action).2,
              (call C c sim.now m.world action).1, htracks, ?_, ?_⟩
            · exact Option.map_eq_bind.symm
            · exact Option.map_eq_bind.symm

/-- A turn of one of them is a turn of both. -/
theorem Along.step (h : Along m l)
    (hroom : (∃ m', m.step context C c = some m' ∧ m'.Room) ∨
      ∃ l', l.step context C c = some l' ∧ l'.Room) :
    ∃ m' l', m.step context C c = some m' ∧ l.step context C c = some l' ∧ Along m' l' := by
  rcases h.step_eq context (C := C) (c := c) with
    ⟨hm, hl⟩ | ⟨sim, list, out, world, htracks, hm, hl⟩
  · rcases hroom with ⟨m', hm', -⟩ | ⟨l', hl', -⟩
    · cases hm.symm.trans hm'
    · cases hl.symm.trans hl'
  · have hlength : sim.impls.length + out.length + 4 < 2 ^ 32 := by
      rcases hroom with ⟨m', hm', hroom⟩ | ⟨l', hl', hroom⟩
      · obtain ⟨sim', hall, rfl⟩ := Option.map_eq_some_iff.1 (hm.symm.trans hm')
        have hroom : sim'.impls.length + 4 < 2 ^ 32 := hroom
        rwa [scheduleAll_length hall] at hroom
      · obtain ⟨list', hall, rfl⟩ := Option.map_eq_some_iff.1 (hl.symm.trans hl')
        have hroom : list'.impls.length + 4 < 2 ^ 32 := hroom
        rwa [scheduleAll_length hall, htracks.impls] at hroom
    rcases htracks.scheduleAll context out hlength with ⟨sim', list', hall, hall', htracks'⟩
    exact ⟨⟨sim', world⟩, ⟨list', world⟩, by rw [hm, hall]; rfl, by rw [hl, hall']; rfl, htracks', rfl⟩

/-- So is a run. -/
theorem Along.run {cs : List Choice} (h : Along m l)
    (hroom : (∃ m', m.run context C cs = some m' ∧ m'.Room) ∨
      ∃ l', l.run context C cs = some l' ∧ l'.Room) :
    ∃ m' l', m.run context C cs = some m' ∧ l.run context C cs = some l' ∧ Along m' l' := by
  induction cs generalizing m l with
  | nil =>
      exact ⟨m, l, rfl, rfl, h⟩
  | cons c cs ih =>
      rw [run_cons, run_cons] at hroom ⊢
      -- There was room for the first turn if there is room at the end.
      have hstep : ∃ m' l', m.step context C c = some m' ∧ l.step context C c = some l' ∧
          Along m' l' := by
        rcases hroom with ⟨m', hrun, hroom⟩ | ⟨l', hrun, hroom⟩
        · obtain ⟨m₁, hstep, hrun⟩ := Option.bind_eq_some_iff.1 hrun
          exact h.step (.inl ⟨m₁, hstep, hroom.of_le (impls_length_le_of_run hrun)⟩)
        · obtain ⟨l₁, hstep, hrun⟩ := Option.bind_eq_some_iff.1 hrun
          exact h.step (.inr ⟨l₁, hstep, hroom.of_le (impls_length_le_of_run hrun)⟩)
      rcases hstep with ⟨m₁, l₁, hm, hl, h₁⟩
      rw [hm, hl] at hroom ⊢
      exact ih h₁ hroom

/-- A machine with a calendar is at a state of the program if one with a list is. -/
def IsAt (m : Machine CalendarScheduler) (w : World) : Prop :=
  ∃ l : Machine ListScheduler, Along m l ∧ l.Simulates w

variable (context) in
theorem init_along (hroom : (World.init C).events.length + 4 < 2 ^ 32) :
    ∃ (m : Machine CalendarScheduler) (l : Machine ListScheduler), init context C = some m ∧
      init context C = some l ∧ Along m l ∧ l.Simulates (World.init C) := by
  have hcreate : Tracks create create := ⟨{ sim := create }, [], rfl, Session.Follows.init, rfl⟩
  rcases hcreate.scheduleAll context (World.init C).events
    (by simpa [create] using hroom) with ⟨sim, list, hall, hall', htracks⟩
  rcases init_simulates (σ := ListScheduler) (C := C) context hroom with ⟨l, hinit, hsimulates⟩
  have hl : init context C = some (⟨list, { World.init C with events := [] }⟩ :
      Machine ListScheduler) := by
    rw [init, hall']
    rfl
  obtain rfl := Option.some.inj (hinit.symm.trans hl)
  refine ⟨⟨sim, { World.init C with events := [] }⟩, _, ?_, hinit, ⟨htracks, rfl⟩, hsimulates⟩
  rw [init, hall]
  rfl

end SyncPaxos.Machine
