import SyncPaxos.Engine.Session
import SyncPaxos.Model.Machine
import SyncPaxos.Run.Rules

/-!
# Refinement — the program on the engine is the program

The model of the program takes, from the list of pending events in the order in which they were
scheduled, the first one of least time.  The engine numbers events as they are scheduled and takes the
least key from an event list.  `Simulates` relates the two, and one turn of one is one turn of the
other, whatever lawful scheduler keeps the events.
-/

namespace SyncPaxos

open Scheduler (EventKey)
open DefaultSimulatorImpl
open DiscreteEvent (pop pop_of_split)

/-! ## Callbacks and the queue -/

/-- A callback adds to the queue and does not look at it. -/
theorem exec_events (C : Cluster) (c : Choice) (w : World) (es : List Event) (action : Callback) :
    { w with events := es }.exec C c action =
      let w' := { w with events := [] }.exec C c action
      { w' with events := es ++ w'.events } := by
  cases action with
  | server i task =>
      simp [World.exec, World.commit, World.schedule]
  | clientStart k =>
      simp [World.exec, World.sendRequest, World.schedule]
  | sendRequest k =>
      simp [World.exec, World.sendRequest, World.schedule]
  | transit packet hop =>
      cases hfate : c.fate with
      | arrive =>
          cases hp : packet.payload with
          | request frame =>
              by_cases hl : (w.servers packet.dst).listenerSocket = true
              · simp [World.exec, World.transit, World.arrive, World.schedule, hfate, hp, hl]
              · simp [World.exec, World.transit, World.arrive, hfate, hp, hl]
          | paxos frame =>
              by_cases hl : (w.servers packet.dst).recvSocket = true
              · cases hm : Server.receiveMessage packet.dst w.now frame with
                | none =>
                    simp [World.exec, World.transit, World.arrive, hfate, hp, hl, hm]
                | some e =>
                    simp [World.exec, World.transit, World.arrive, World.schedule, hfate, hp, hl, hm]
              · simp [World.exec, World.transit, World.arrive, hfate, hp, hl]
      | forward d =>
          simp [World.exec, World.transit, World.schedule, hfate]
      | duplicate d₁ d₂ =>
          simp [World.exec, World.transit, World.schedule, hfate]
      | lose =>
          simp [World.exec, World.transit, hfate]

section Callback

variable {C : Cluster} {c : Choice} {w : World} {e : Event} {rest : List Event}

/-- A turn of the program is a call, and the queue grows by what the call schedules. -/
theorem step_eq_call (halive : w.aborted = false) (hpop : pop w.events = some (e, rest)) :
    World.step C c w = some
      (let out := Machine.call C c e.ts { w with events := [] } e.action
       { out.1 with events := rest ++ out.2 }) := by
  rw [World.step, if_neg (by simp [halive]), hpop]
  refine congrArg some ?_
  exact exec_events C c { w with now := e.ts } rest e.action

/-- Nothing is scheduled for the past. -/
theorem le_of_mem_call (halive : w.aborted = false) (hpop : pop w.events = some (e, rest)) :
    ∀ x ∈ (Machine.call C c e.ts { w with events := [] } e.action).2, e.ts ≤ x.ts := by
  intro x hx
  rcases step_spec (step_eq_call (c := c) (C := C) halive hpop) with ⟨e', rest', hs⟩
  obtain ⟨rfl, rfl⟩ : e = e' ∧ rest = rest' := by simpa using hpop.symm.trans hs.pop
  have hevents := List.append_cancel_left hs.events
  rw [hevents] at hx
  exact emitted_ts hx

end Callback

/-! ## The relation -/

/-- The event of the program that a pending event of the engine stands for, unless it is
cancelled. -/
def standsFor {σ : Type} (sim : DefaultSimulatorImpl σ Callback) (e : Scheduler.Event) :
    Option Event :=
  (sim.invoke e.impl).map fun action => ⟨e.key.ts, action⟩

theorem standsFor_eq_some {σ : Type} {sim : DefaultSimulatorImpl σ Callback} {e : Scheduler.Event}
    {x : Event} : standsFor sim e = some x ↔ e.key.ts = x.ts ∧ sim.invoke e.impl = some x.action := by
  rw [standsFor, Option.map_eq_some_iff]
  constructor
  · rintro ⟨action, hinvoke, rfl⟩
    exact ⟨rfl, hinvoke⟩
  · rintro ⟨hts, hinvoke⟩
    exact ⟨x.action, hinvoke, by rw [hts]⟩

/-- The machine is at the state `w` of the program: the events of the engine, in the order in which
they were scheduled, are the events of `w`. -/
structure Machine.Simulates {σ : Type} [LawfulScheduler σ] (m : Machine σ) (w : World) : Prop where
  queue : ∃ (s : Session σ Callback) (es q : List Scheduler.Event), s.sim = m.sim ∧
    s.Consistent es ∧ q.Perm es ∧ q.Pairwise (fun x y => x.impl < y.impl) ∧
    q.map (standsFor m.sim) = w.events.map some
  now : m.sim.currentTs = w.now
  world : m.world = { w with events := [] }

/-- Few enough events have been scheduled for their numbers. -/
def Machine.Room {σ : Type} (m : Machine σ) : Prop := m.sim.impls.length + 4 < 2 ^ 32

namespace Machine

section Memory

variable {σ : Type} [Scheduler σ] {context : Callback → ℕ} {C : Cluster} {c : Choice}
  {m m' : Machine σ} {es : List Event}

theorem run_cons {cs : List Choice} :
    m.run context C (c :: cs) = (m.step context C c).bind (run context C cs) := rfl

/-- Scheduling grows the memory of the implementations by one entry for each event. -/
theorem scheduleAll_length {sim sim' : DefaultSimulatorImpl σ Callback}
    (h : scheduleAll context es sim = some sim') :
    sim'.impls.length = sim.impls.length + es.length := by
  induction es generalizing sim with
  | nil =>
      obtain rfl : sim = sim' := Option.some.inj h
      rfl
  | cons e es ih =>
      rw [scheduleAll] at h
      obtain ⟨sim₁, h₁, h⟩ := Option.bind_eq_some_iff.1 h
      obtain ⟨events, -, hsim₁⟩ := Option.bind_eq_some_iff.1 h₁
      have hlength : sim₁.impls.length = sim.impls.length + 1 := by
        rw [← Option.some.inj hsim₁, List.length_append, List.length_singleton]
      rw [ih h, hlength, List.length_cons]
      omega

/-- The memory of the implementations only grows. -/
theorem impls_length_le_of_step (hmstep : m.step context C c = some m') :
    m.sim.impls.length ≤ m'.sim.impls.length := by
  rw [Machine.step] at hmstep
  obtain ⟨-, hmstep⟩ := Option.ite_none_left_eq_some.1 hmstep
  obtain ⟨⟨⟨ev, action⟩, sim⟩, hprocess, hmstep⟩ := Option.bind_eq_some_iff.1 hmstep
  have himpls : sim.impls = m.sim.impls := by
    obtain ⟨_, -, hbind⟩ := Option.bind_eq_some_iff.1 hprocess
    obtain ⟨-, -, heq⟩ := Option.bind_eq_some_iff.1 hbind
    rw [← (Prod.mk.inj (Option.some.inj heq)).2]
  cases action with
  | none =>
      rw [← Option.some.inj hmstep]
      exact (congrArg List.length himpls).ge
  | some action =>
      obtain ⟨sim', hall, heq⟩ := Option.bind_eq_some_iff.1 hmstep
      rw [← Option.some.inj heq]
      change m.sim.impls.length ≤ sim'.impls.length
      rw [scheduleAll_length hall, himpls]
      exact Nat.le_add_right _ _

theorem impls_length_le_of_run {cs : List Choice} (hmrun : m.run context C cs = some m') :
    m.sim.impls.length ≤ m'.sim.impls.length := by
  induction cs generalizing m with
  | nil =>
      obtain rfl : m = m' := Option.some.inj hmrun
      exact le_rfl
  | cons c cs ih =>
      obtain ⟨m₁, hmstep, hmrun⟩ := Option.bind_eq_some_iff.1 hmrun
      exact (impls_length_le_of_step hmstep).trans (ih hmrun)

theorem init_length (hinit : init context C = some m) :
    m.sim.impls.length = (World.init C).events.length := by
  obtain ⟨sim, hall, heq⟩ := Option.bind_eq_some_iff.1 hinit
  rw [← Option.some.inj heq]
  exact (scheduleAll_length hall).trans (Nat.zero_add _)

end Memory

variable {σ : Type} [LawfulScheduler σ] {context : Callback → ℕ} {C : Cluster} {c : Choice}
  {m m' : Machine σ} {w : World} {es : List Event}

/-! ## Scheduling -/

variable (context) in
/-- Events that are scheduled go to the end of the queue. -/
theorem Simulates.scheduleAll (h : m.Simulates w) (hts : ∀ e ∈ es, w.now ≤ e.ts)
    (hroom : m.sim.impls.length + es.length + 4 < 2 ^ 32) :
    ∃ sim, Machine.scheduleAll context es m.sim = some sim ∧
      Simulates ⟨sim, m.world⟩ { w with events := w.events ++ es } := by
  induction es generalizing m w with
  | nil =>
      refine ⟨m.sim, rfl, ?_⟩
      rw [List.append_nil]
      exact h
  | cons e es ih =>
      rcases h.queue with ⟨s, pending, q, hsim, hcons, hperm, hq, hqueue⟩
      have himpls := hcons.impls
      rw [hsim] at himpls
      rw [List.length_cons] at hroom
      rcases hcons.schedule (by omega) (context e.action) (e.ts - m.sim.now) e.action with
        ⟨sim, hschedule, hcons'⟩
      rw [hsim] at hschedule hcons'
      generalize hev : m.sim.nextEvent (context e.action) (e.ts - m.sim.now) = ev at hcons'
      have himpl : ev.impl = s.ids.length := by
        rw [← hev, ← himpls]
        rfl
      have hsim' : sim.impls = m.sim.impls ++ [⟨e.action, false⟩] ∧ sim.currentTs = m.sim.currentTs := by
        obtain ⟨events, -, heq⟩ := Option.bind_eq_some_iff.1 hschedule
        rw [← Option.some.inj heq]
        exact ⟨rfl, rfl⟩
      have hold : ∀ x ∈ q, x.impl < s.ids.length :=
        fun x hx => (hcons.pending x (hperm.mem_iff.1 hx)).lt
      have hnext : Simulates ⟨sim, m.world⟩ { w with events := w.events ++ [e] } := by
        refine ⟨⟨_, _, q ++ [ev], rfl, hcons', ?_, ?_, ?_⟩, hsim'.2.trans h.now, h.world⟩
        · refine List.Perm.trans ?_ (ListScheduler.insertInto_perm ev pending).symm
          exact List.perm_append_comm.trans (hperm.cons ev)
        · refine List.pairwise_append.2 ⟨hq, List.pairwise_singleton _ _, ?_⟩
          intro x hx y hy
          obtain rfl := List.mem_singleton.1 hy
          rw [himpl]
          exact hold x hx
        · rw [List.map_append, List.map_append, ← hqueue]
          refine congrArg₂ _ (List.map_congr_left ?_) (congrArg (fun x => [x]) ?_)
          · intro x hx
            rw [standsFor, standsFor, Session.invoke_congr]
            rw [hsim'.1, List.getElem?_append_left (himpls ▸ hold x hx)]
          · refine standsFor_eq_some.2 ⟨?_, ?_⟩
            · rw [← hev]
              change e.ts - m.sim.currentTs + m.sim.currentTs = e.ts
              rw [h.now]
              exact Nat.sub_add_cancel (hts e List.mem_cons_self)
            · rw [invoke, hsim'.1, himpl, ← himpls, List.getElem?_concat_length]
              rfl
      have hlength : sim.impls.length = m.sim.impls.length + 1 := by
        rw [hsim'.1, List.length_append, List.length_singleton]
      rcases ih hnext (fun x hx => hts x (List.mem_cons_of_mem e hx)) (by
          change sim.impls.length + es.length + 4 < 2 ^ 32
          omega) with ⟨sim'', hall, hsimulates⟩
      refine ⟨sim'', ?_, ?_⟩
      · rw [Machine.scheduleAll, hschedule]
        exact hall
      · rw [List.append_assoc] at hsimulates
        exact hsimulates

/-! ## One turn -/

/-- The engine takes the event that the program takes. -/
theorem Simulates.process (h : m.Simulates w) {e : Event} {rest : List Event}
    (hpop : pop w.events = some (e, rest)) :
    ∃ ev sim, m.sim.processOneEvent = some ((ev, some e.action), sim) ∧
      sim.impls = m.sim.impls ∧
      Simulates ⟨sim, { w with now := e.ts, events := [] }⟩ { w with now := e.ts, events := rest } := by
  rcases h.queue with ⟨s, es, q, hsim, hcons, hperm, hq, hqueue⟩
  cases es with
  | nil =>
      obtain rfl : q = [] := hperm.eq_nil
      have hnil : w.events = [] := List.map_eq_nil_iff.1 hqueue.symm
      rw [hnil] at hpop
      cases hpop
  | cons ev es =>
      rcases hcons.process with ⟨sim, hprocess, hcons'⟩
      rw [hsim] at hprocess
      -- the least key is the first event of least time
      obtain ⟨q₁, q₂, rfl⟩ := List.append_of_mem (hperm.mem_iff.2 (List.mem_cons_self (a := ev)))
      have hrest : (q₁ ++ q₂).Perm es :=
        (List.perm_cons ev).1 (List.perm_middle.symm.trans hperm)
      rcases List.pairwise_append.1 hq with ⟨hq₁, hq₂, hbefore⟩
      rcases List.pairwise_cons.1 hq₂ with ⟨hafter, hq₂⟩
      rw [List.map_append, List.map_cons] at hqueue
      rcases List.map_eq_append_iff.1 hqueue.symm with ⟨l₁, l, hevents, hl₁, hl⟩
      rcases List.map_eq_cons_iff.1 hl with ⟨x, l₂, rfl, hx, hl₂⟩
      have hx := standsFor_eq_some.1 hx.symm
      have hstands : ∀ {q' : List Scheduler.Event} {l : List Event},
          l.map some = q'.map (standsFor m.sim) → ∀ z ∈ l, ∃ y ∈ q', y.key.ts = z.ts := by
        intro q' l heq z hz
        have hmem : some z ∈ q'.map (standsFor m.sim) := heq ▸ List.mem_map_of_mem hz
        rcases List.mem_map.1 hmem with ⟨y, hy, hyz⟩
        exact ⟨y, hy, (standsFor_eq_some.1 hyz).1⟩
      have hkey : ∀ y ∈ es, ev.key < y.key := fun y hy => hcons.agenda.head_lt hy
      have hev := hcons.pending ev List.mem_cons_self
      have hpop' : pop w.events = some (x, l₁ ++ l₂) := by
        rw [hevents]
        refine pop_of_split ?_ ?_
        · intro z hz
          rcases hstands hl₁ z hz with ⟨y, hy, hyz⟩
          have hyes : y ∈ es := hrest.mem_iff.1 (List.mem_append_left q₂ hy)
          have hlt := hkey y hyes
          have hypending := hcons.pending y (List.mem_cons_of_mem ev hyes)
          have himpl := hbefore y hy ev List.mem_cons_self
          rw [EventKey.lt_def, hx.1, hyz, hev.uid, hypending.uid] at hlt
          exact hlt.resolve_right (by omega)
        · intro z hz
          rcases hstands hl₂ z hz with ⟨y, hy, hyz⟩
          have hlt := hkey y (hrest.mem_iff.1 (List.mem_append_right q₁ hy))
          rw [EventKey.lt_def, hx.1, hyz] at hlt
          exact hlt.elim le_of_lt (fun h => h.1.le)
      obtain ⟨rfl, rfl⟩ : x = e ∧ l₁ ++ l₂ = rest := by simpa using hpop'.symm.trans hpop
      rw [hx.2] at hprocess
      have hsim' : sim.impls = m.sim.impls ∧ sim.currentTs = ev.key.ts := by
        obtain ⟨⟨next, events⟩, -, hbind⟩ := Option.bind_eq_some_iff.1 hprocess
        obtain ⟨-, -, heq⟩ := Option.bind_eq_some_iff.1 hbind
        obtain ⟨⟨rfl, -⟩, rfl⟩ := Prod.mk.inj (Option.some.inj heq) |>.imp_left Prod.mk.inj
        exact ⟨rfl, rfl⟩
      refine ⟨ev, sim, hprocess, hsim'.1, ⟨_, es, q₁ ++ q₂, rfl, hcons', hrest, ?_, ?_⟩, ?_, rfl⟩
      · refine List.pairwise_append.2 ⟨hq₁, hq₂, ?_⟩
        intro y hy z hz
        exact hbefore y hy z (List.mem_cons_of_mem ev hz)
      · have hsame : standsFor sim = standsFor m.sim := by
          funext y
          have hinvoke : sim.invoke y.impl = m.sim.invoke y.impl :=
            Session.invoke_congr (congrArg (fun impls => impls[y.impl]?) hsim'.1)
          rw [standsFor, standsFor, hinvoke]
        rw [hsame, List.map_append, List.map_append, hl₁, hl₂]
      · exact hsim'.2.trans hx.1

/-- Only the events and the time of a world matter to the engine. -/
theorem Simulates.of_world {sim : DefaultSimulatorImpl σ Callback} {x z : World}
    (h : Simulates ⟨sim, x⟩ w) (hnow : z.now = w.now) (hevents : z.events = w.events) :
    Simulates ⟨sim, { z with events := [] }⟩ z := by
  refine ⟨?_, h.now.trans hnow.symm, rfl⟩
  rw [hevents]
  exact h.queue

variable (context) in
/-- The machine starts where the program starts. -/
theorem init_simulates (hroom : (World.init C).events.length + 4 < 2 ^ 32) :
    ∃ m : Machine σ, init context C = some m ∧ m.Simulates (World.init C) := by
  have hempty : Simulates (⟨create, { World.init C with events := [] }⟩ : Machine σ)
      { World.init C with events := [] } :=
    ⟨⟨{ sim := create }, [], [], rfl, Session.Consistent.init, .nil, .nil, rfl⟩, rfl, rfl⟩
  rcases hempty.scheduleAll context
    (show ∀ e ∈ (World.init C).events, _ from fun _ _ => Nat.zero_le _)
    (by simpa [create] using hroom) with ⟨sim, hall, hsimulates⟩
  refine ⟨_, ?_, hsimulates⟩
  rw [init, hall]
  rfl

/-- The machine stops with the program. -/
theorem Simulates.step_none (h : m.Simulates w) (hstep : World.step C c w = none) :
    m.step context C c = none := by
  have haborted : m.world.aborted = w.aborted := by rw [h.world]
  rw [Machine.step]
  by_cases halive : w.aborted = true
  · rw [if_pos (haborted.trans halive)]
  · rw [if_neg (by rwa [haborted])]
    rw [Bool.not_eq_true] at halive
    cases hpop : pop w.events with
    | none =>
        rcases h.queue with ⟨s, es, q, hsim, hcons, hperm, hq, hqueue⟩
        have hnil : w.events = [] := DiscreteEvent.pop_eq_none.1 hpop
        rw [hnil] at hqueue
        obtain rfl : q = [] := List.map_eq_nil_iff.1 hqueue
        obtain rfl : es = [] := hperm.symm.eq_nil
        have hholds := hcons.holds
        rw [hsim] at hholds
        rw [processOneEvent, LawfulScheduler.removeNext_nil hholds]
        rfl
    | some next =>
        rw [step_eq_call halive hpop] at hstep
        cases hstep

variable (context) in
/-- What a turn of the machine is when the program makes one: the engine takes the next event, and what
its callback schedules is scheduled. -/
theorem Simulates.step_eq (h : m.Simulates w) {w' : World} (hstep : World.step C c w = some w') :
    ∃ sim rest out, w'.events = rest ++ out ∧ w.events.length = rest.length + 1 ∧
      sim.impls = m.sim.impls ∧ (∀ e ∈ out, w'.now ≤ e.ts) ∧
      Simulates ⟨sim, { w' with events := [] }⟩ { w' with events := rest } ∧
      m.step context C c = (Machine.scheduleAll context out sim).map
        (fun sim' => ⟨sim', { w' with events := [] }⟩) := by
  have haborted : m.world.aborted = w.aborted := by rw [h.world]
  rcases step_spec hstep with ⟨e, rest, hs⟩
  have hpop := hs.pop
  have halive : w.aborted = false := by
    cases hdead : w.aborted with
    | false =>
        rfl
    | true =>
        rw [World.step, if_pos hdead] at hstep
        cases hstep
  have hcall := Option.some.inj ((step_eq_call (c := c) halive hpop).symm.trans hstep)
  have hts := le_of_mem_call (C := C) (c := c) halive hpop
  rcases h.process hpop with ⟨ev, sim, hprocess, himpls, hnext⟩
  generalize hout : Machine.call C c e.ts { w with events := [] } e.action = out at hcall hts
  have hworld : out.1 = { w' with events := [] } := by
    rw [← hcall, ← hout]
    rfl
  refine ⟨sim, rest, out.2, by rw [← hcall], ?_, himpls, ?_, ?_, ?_⟩
  · rw [(DiscreteEvent.pop_perm hpop).length_eq, List.length_cons]
  · rw [hs.now]
    exact hts
  · exact hnext.of_world (z := { w' with events := rest }) hs.now rfl
  · have hmworld : m.world = { w with events := [] } := h.world
    have hnow : sim.now = e.ts := hnext.now
    rw [Machine.step, if_neg (by rw [haborted, halive]; exact Bool.false_ne_true), hprocess]
    change (do
      let sim' ← Machine.scheduleAll context (Machine.call C c sim.now m.world e.action).2 sim
      return (⟨sim', (Machine.call C c sim.now m.world e.action).1⟩ : Machine σ)) = _
    rw [hnow, hmworld, hout, ← hworld]
    exact bind_pure_comp _ _

/-- When both make a turn, both have scheduled as many events. -/
theorem Simulates.step_length (h : m.Simulates w) {w' : World} (hstep : World.step C c w = some w')
    (hmstep : m.step context C c = some m') :
    m'.sim.impls.length + w.events.length = m.sim.impls.length + w'.events.length + 1 := by
  rcases h.step_eq context hstep with
    ⟨sim, rest, out, hevents, hlength, himpls, -, -, heq⟩
  rw [heq] at hmstep
  obtain ⟨sim', hall, rfl⟩ := Option.map_eq_some_iff.1 hmstep
  have hgrown := scheduleAll_length hall
  change sim'.impls.length + w.events.length = _
  rw [hgrown, himpls, hevents, hlength, List.length_append]
  omega

variable (context) in
/-- One turn of the program is one turn of the machine. -/
theorem Simulates.step (h : m.Simulates w) {w' : World} (hstep : World.step C c w = some w')
    (hroom : m.sim.impls.length + w'.events.length + 5 < 2 ^ 32 + w.events.length) :
    ∃ m', m.step context C c = some m' ∧ m'.Simulates w' := by
  rcases h.step_eq context hstep with
    ⟨sim, rest, out, hevents, hlength, himpls, hts, hafter, heq⟩
  rw [hevents, List.length_append] at hroom
  have hroom' : sim.impls.length + out.length + 4 < 2 ^ 32 := by
    rw [himpls]
    omega
  rcases hafter.scheduleAll context hts hroom' with ⟨sim', hall, hsimulates⟩
  refine ⟨⟨sim', { w' with events := [] }⟩, by rw [heq, hall]; rfl, ?_⟩
  have heq : { w' with events := rest ++ out } = w' := by rw [← hevents]
  rw [← heq]
  exact hsimulates

/-! ## Runs -/

/-- Each turn takes one event from the queue. -/
theorem length_le_of_run {cs : List Choice} {w' : World} (hrun : w.run C cs = some w') :
    w.events.length ≤ w'.events.length + cs.length := by
  induction cs generalizing w with
  | nil =>
      obtain rfl : w = w' := Option.some.inj hrun
      exact le_rfl
  | cons c cs ih =>
      obtain ⟨w₁, hstep, hrun⟩ := Option.bind_eq_some_iff.1 hrun
      have hle := ih hrun
      rcases step_spec hstep with ⟨e, rest, hs⟩
      have hpop := (DiscreteEvent.pop_perm hs.pop).length_eq
      have hevents := congrArg List.length hs.events
      rw [List.length_append] at hevents
      rw [List.length_cons] at hpop ⊢
      omega

variable (context) in
/-- A run of the program is a run of the machine. -/
theorem Simulates.run {cs : List Choice} (h : m.Simulates w) {w' : World}
    (hrun : w.run C cs = some w')
    (hroom : m.sim.impls.length + w'.events.length + cs.length + 4 < 2 ^ 32 + w.events.length) :
    ∃ m', m.run context C cs = some m' ∧ m'.Simulates w' ∧
      m'.sim.impls.length + w.events.length = m.sim.impls.length + w'.events.length + cs.length := by
  induction cs generalizing m w with
  | nil =>
      obtain rfl : w = w' := Option.some.inj hrun
      exact ⟨m, rfl, h, rfl⟩
  | cons c cs ih =>
      obtain ⟨w₁, hstep, hrun⟩ := Option.bind_eq_some_iff.1 hrun
      have hle := length_le_of_run hrun
      rw [List.length_cons] at hroom
      rcases h.step context hstep (by omega) with ⟨m₁, hmstep, h₁⟩
      have hlength := h.step_length hstep hmstep
      rcases ih h₁ hrun (by omega) with ⟨m', hmrun, h', hlength'⟩
      refine ⟨m', ?_, h', ?_⟩
      · rw [run_cons, hmstep]
        exact hmrun
      · rw [List.length_cons]
        omega

/-- A run of the machine in which the numbers of the events last is a run of the program. -/
theorem Simulates.of_run {cs : List Choice} (h : m.Simulates w)
    (hmrun : m.run context C cs = some m') (hroom : m'.Room) :
    ∃ w', w.run C cs = some w' ∧ m'.Simulates w' := by
  induction cs generalizing m w with
  | nil =>
      obtain rfl : m = m' := Option.some.inj hmrun
      exact ⟨w, rfl, h⟩
  | cons c cs ih =>
      obtain ⟨m₁, hmstep, hmrun⟩ := Option.bind_eq_some_iff.1 hmrun
      cases hstep : World.step C c w with
      | none =>
          cases (h.step_none hstep).symm.trans hmstep
      | some w₁ =>
          have hlength := h.step_length hstep hmstep
          have hle := impls_length_le_of_run hmrun
          have hroom₁ : m'.sim.impls.length + 4 < 2 ^ 32 := hroom
          rcases h.step context hstep (by omega) with ⟨m₂, hmstep', h₁⟩
          obtain rfl : m₂ = m₁ := Option.some.inj (hmstep'.symm.trans hmstep)
          rcases ih h₁ hmrun with ⟨w', hrun, h'⟩
          refine ⟨w', ?_, h'⟩
          change (World.step C c w).bind (World.run C cs) = _
          rw [hstep]
          exact hrun

variable (σ context C)

section SetScheduler

variable {σ τ : Type} [LawfulScheduler σ] [LawfulScheduler τ]

/-- The loop of `SetScheduler` carries the events over in their order. -/
theorem holds_moveEvents {rounds : ℕ} {events : σ} {scheduler : τ} {es fs : List Scheduler.Event}
    (hes : LawfulScheduler.Holds events es) (hfs : LawfulScheduler.Holds scheduler fs)
    (hall : Agenda (fs ++ es)) (hrounds : es.length ≤ rounds) :
    ∃ scheduler', moveEvents rounds events scheduler = some scheduler' ∧
      LawfulScheduler.Holds scheduler' (fs ++ es) := by
  induction rounds generalizing events scheduler es fs with
  | zero =>
      obtain rfl : es = [] := List.length_eq_zero_iff.1 (Nat.le_zero.1 hrounds)
      exact ⟨scheduler, rfl, by rwa [List.append_nil]⟩
  | succ rounds ih =>
      rw [moveEvents, LawfulScheduler.isEmpty_eq hes]
      cases es with
      | nil =>
          exact ⟨scheduler, rfl, by rwa [List.append_nil]⟩
      | cons e es =>
          have hlt : ∀ x ∈ fs, x.key < e.key := fun x hx =>
            (List.pairwise_append.1 hall.sorted).2.2 x hx e List.mem_cons_self
          have huid : ∀ x ∈ fs, x.key.uid ≠ e.key.uid := by
            have huids := hall.uids
            rw [List.map_append] at huids
            intro x hx heq
            exact List.disjoint_of_nodup_append huids (List.mem_map_of_mem hx)
              (heq ▸ List.mem_map_of_mem List.mem_cons_self)
          rcases LawfulScheduler.removeNext_cons hes with ⟨events', hremove, hes'⟩
          rcases LawfulScheduler.holds_insert hfs huid with ⟨scheduler₁, hinsert, hfs'⟩
          rw [ListScheduler.insertInto_last hlt] at hfs'
          rw [List.append_cons] at hall ⊢
          rcases ih hes' hfs' hall (Nat.le_of_succ_le_succ hrounds) with ⟨scheduler', hmove, hholds⟩
          refine ⟨scheduler', ?_, hholds⟩
          rw [List.isEmpty_cons, if_neg Bool.false_ne_true, hremove]
          change (Scheduler.insert e scheduler).bind (moveEvents rounds events') = _
          rw [hinsert]
          exact hmove

/-- No more events are pending than were ever scheduled. -/
theorem pending_length_le {s : Session σ Callback} {es : List Scheduler.Event}
    (h : s.Consistent es) : es.length ≤ s.sim.impls.length := by
  have hnodup : (es.map (fun e => e.impl)).Nodup := by
    refine List.Nodup.map_on ?_ h.agenda.nodup
    intro x hx y hy heq
    refine h.agenda.eq_of_uid hx hy ?_
    rw [(h.pending x hx).uid, (h.pending y hy).uid, heq]
  have hsub : es.map (fun e => e.impl) ⊆ List.range s.sim.impls.length := by
    intro k hk
    rcases List.mem_map.1 hk with ⟨e, he, rfl⟩
    rw [List.mem_range, h.impls]
    exact (h.pending e he).lt
  have hle := (hnodup.subperm hsub).length_le
  rwa [List.length_map, List.length_range] at hle

/-- `SetScheduler` changes nothing that the program can see. -/
theorem Simulates.setScheduler {m : Machine σ} {w : World} (h : m.Simulates w) :
    ∃ m' : Machine τ, m.setScheduler τ = some m' ∧ m'.Simulates w ∧
      m'.sim.impls = m.sim.impls := by
  rcases h.queue with ⟨s, es, q, hsim, hcons, hperm, hq, hqueue⟩
  rcases holds_moveEvents (τ := τ) hcons.holds LawfulScheduler.holds_empty hcons.agenda
    (pending_length_le hcons) with ⟨events, hmove, hholds⟩
  rw [List.nil_append] at hholds
  rw [hsim] at hmove
  refine ⟨⟨{ m.sim with events := events }, m.world⟩, ?_, ⟨?_, h.now, h.world⟩, rfl⟩
  · rw [Machine.setScheduler, DefaultSimulatorImpl.setScheduler, hmove]
    rfl
  · refine ⟨{ s with sim := { s.sim with events := events } }, es, q, by rw [hsim], ?_, hperm, hq,
      hqueue⟩
    exact ⟨hholds, hcons.uid, hcons.currentUid, hcons.impls, hcons.ids,
      fun e he => ⟨(hcons.pending e he).uid, (hcons.pending e he).id⟩, hcons.later,
      fun run hrun => ⟨(hcons.ran run hrun).uid, (hcons.ran run hrun).id⟩, hcons.past, hcons.order,
      hcons.invoked, hcons.settled, hcons.unscheduled⟩

/-- A run in whose middle the scheduler is replaced is the run of the program. -/
theorem setScheduler_transparent (context : Callback → ℕ) {C : Cluster} {cs cs' : List Choice}
    {w : World} (hrun : (World.init C).run C (cs ++ cs') = some w)
    (hroom : w.events.length + (cs ++ cs').length + 4 < 2 ^ 32) :
    ∃ (m₀ m : Machine σ) (m' : Machine τ), init context C = some m₀ ∧
      m₀.run context C (cs ++ cs') = some m ∧
      ((m₀.run context C cs).bind (Machine.setScheduler τ)).bind (Machine.run context C cs') =
        some m' ∧
      m.Simulates w ∧ m'.Simulates w := by
  have hle := length_le_of_run hrun
  rcases init_simulates (σ := σ) (C := C) context (by omega) with ⟨m₀, hinit, h₀⟩
  have hlength := init_length hinit
  rcases h₀.run context hrun (by omega) with ⟨m, hmrun, h, -⟩
  obtain ⟨w₁, hrun₁, hrun₂⟩ : ∃ w₁, (World.init C).run C cs = some w₁ ∧ w₁.run C cs' = some w :=
    Option.bind_eq_some_iff.1 (List.foldlM_append.symm.trans hrun)
  have hle₁ := length_le_of_run hrun₁
  have hle₂ := length_le_of_run hrun₂
  rw [List.length_append] at hle hroom
  rcases h₀.run context hrun₁ (by omega) with ⟨m₁, hmrun₁, h₁, hlength₁⟩
  rcases h₁.setScheduler (τ := τ) with ⟨m₂, hset, h₂, himpls⟩
  rw [← himpls] at hlength₁
  rcases h₂.run context hrun₂ (by omega) with ⟨m', hmrun₂, h', -⟩
  refine ⟨m₀, m, m', hinit, hmrun, ?_, h, h'⟩
  rw [hmrun₁, Option.bind_some, hset]
  exact hmrun₂

/-- Two servers agree on a request while the map of their events is replaced by a heap. -/
theorem setScheduler_two_servers :
    ∃ (m₀ m : Machine MapScheduler) (m' : Machine HeapScheduler),
      init (fun _ => 0) (.oneClient 2 (by decide) false 0 10 70 4 5 0) = some m₀ ∧
      ((m₀.run (fun _ => 0) (.oneClient 2 (by decide) false 0 10 70 4 5 0)
          (List.replicate 14 {})).bind (Machine.setScheduler HeapScheduler)).bind
        (Machine.run (fun _ => 0) (.oneClient 2 (by decide) false 0 10 70 4 5 0)
          (List.replicate 15 {})) = some m' ∧
      m'.world = m.world ∧ m'.world.now = 71 ∧
      (m'.world.servers 0).decisionLog.map Proposal.proposalId = [2] := by
  have hrun : ((World.init (.oneClient 2 (by decide) false 0 10 70 4 5 0)).run
      (.oneClient 2 (by decide) false 0 10 70 4 5 0)
      (List.replicate 14 ({} : Choice) ++ List.replicate 15 ({} : Choice))).any (fun w => w.now = 71 ∧
        w.events.length < 100 ∧ (w.servers 0).decisionLog.map Proposal.proposalId = [2]) = true := by
    decide +kernel
  rcases (Option.any_eq_true _ _).1 hrun with ⟨w, hw, htest⟩
  rcases of_decide_eq_true htest with ⟨hnow, hevents, hlog⟩
  rcases setScheduler_transparent (σ := MapScheduler) (τ := HeapScheduler) (fun _ => 0) hw
    (by rw [List.length_append, List.length_replicate, List.length_replicate]; omega) with
    ⟨m₀, m, m', hinit, -, hrun', h, h'⟩
  refine ⟨m₀, m, m', hinit, hrun', h'.world.trans h.world.symm, ?_, ?_⟩
  · rw [h'.world]
    exact hnow
  · rw [h'.world]
    exact hlog

end SetScheduler

end Machine

end SyncPaxos
