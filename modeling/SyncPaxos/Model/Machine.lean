import SyncPaxos.Model.DefaultSimulator
import SyncPaxos.Model.Simulator

/-!
# Machine — the program on the engine

`World.step` takes the next event from a list.  Here the events are those of the engine: a callback is
called by `ProcessOneEvent`, and what it schedules goes through `ScheduleWithContext` one by one.

`context` gives the node in whose context an event is to run.
-/

namespace SyncPaxos

/-- The program and the engine it runs on; the list of events of `world` is not used. -/
structure Machine (σ : Type) where
  sim : DefaultSimulatorImpl σ Callback
  world : World

namespace Machine

variable {σ : Type} [Scheduler σ] (context : Callback → ℕ) (C : Cluster)

/-- What a callback does: the world it leaves and the events it schedules. -/
def call (c : Choice) (now : Time) (w : World) (action : Callback) : World × List Event :=
  let w := { w with now := now, events := [] }.exec C c action
  ({ w with events := [] }, w.events)

/-- Schedule events, in order. -/
def scheduleAll : List Event → DefaultSimulatorImpl σ Callback →
    Option (DefaultSimulatorImpl σ Callback)
  | [], sim => some sim
  | e :: es, sim => do
      let sim ← sim.scheduleWithContext (context e.action) (e.ts - sim.now) e.action
      scheduleAll es sim

/-- The machine when `Simulator::Run` is called. -/
def init : Option (Machine σ) := do
  let sim ← scheduleAll context (World.init C).events .create
  return ⟨sim, { World.init C with events := [] }⟩

/-- One turn of `Simulator::Run`. -/
def step (c : Choice) (m : Machine σ) : Option (Machine σ) :=
  if m.world.aborted then
    none
  else do
    let ((_, action), sim) ← m.sim.processOneEvent
    match action with
    | none => return { m with sim := sim }
    | some action =>
        let out := call C c sim.now m.world action
        let sim ← scheduleAll context out.2 sim
        return ⟨sim, out.1⟩

/-- The turns of `Simulator::Run` in which the environment decides as in a list. -/
def run (cs : List Choice) (m : Machine σ) : Option (Machine σ) :=
  cs.foldlM (fun m c => m.step context C c) m

/-- `SetScheduler` in the middle of a run. -/
def setScheduler (τ : Type) [Scheduler τ] (m : Machine σ) : Option (Machine τ) := do
  let sim ← m.sim.setScheduler τ
  return ⟨sim, m.world⟩

end Machine

/-- The turns of the program in which the environment decides as in a list. -/
def World.run (C : Cluster) (cs : List Choice) (w : World) : Option World :=
  cs.foldlM (fun w c => World.step C c w) w

end SyncPaxos
