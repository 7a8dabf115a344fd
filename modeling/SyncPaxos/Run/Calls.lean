import SyncPaxos.Run.Handling

/-!
# Calls — the loops of a server

The starts of a server and its two propose loops are driven by calls that the server schedules for
itself, never by a frame that arrives.  `World.calls` lists such calls, and the lemmas say how a
step changes this list:

* `StepSpec.calls_run`: a call of the server takes itself off the list and puts its own on;
* `StepSpec.calls_quiet`: any other event leaves the list as it is.
-/

namespace SyncPaxos

open DiscreteEvent

/-- The call of server `i` that `g` selects. -/
def Callback.isCall (i : ℕ) (g : Task → Bool) : Callback → Bool
  | .server j task => j == i && g task
  | _ => false

def callsIn (i : ℕ) (g : Task → Bool) (es : List Event) : List Event :=
  es.filter (fun e => e.action.isCall i g)

/-- The pending calls of server `i` that `g` selects. -/
def World.calls (w : World) (i : ℕ) (g : Task → Bool) : List Event := callsIn i g w.events

/-- The pending events that will call `task` of server `i`. -/
def World.timers (w : World) (i : ℕ) (task : Task) : List Event :=
  w.events.filter (fun e => e.action = .server i task)

/-- `g` selects no call that an arrival schedules. -/
def Own (g : Task → Bool) : Prop :=
  ∀ task, task.received?.isSome ∨ task.creating?.isSome → g task = false

section Calls

variable {i : ℕ} {g : Task → Bool} {es es' : List Event}

@[simp] theorem callsIn_nil : callsIn i g [] = [] := rfl

@[simp] theorem callsIn_append : callsIn i g (es ++ es') = callsIn i g es ++ callsIn i g es' := by
  simp [callsIn]

@[simp] theorem callsIn_server (ts : Time) (task : Task) (es : List Event) :
    callsIn i g (⟨ts, .server i task⟩ :: es) =
      if g task then ⟨ts, .server i task⟩ :: callsIn i g es else callsIn i g es := by
  cases hg : g task <;> simp [callsIn, Callback.isCall, hg]

theorem mem_callsIn {e : Event} : e ∈ callsIn i g es ↔
    e ∈ es ∧ ∃ task, e.action = .server i task ∧ g task = true := by
  rcases e with ⟨ts, action⟩
  unfold callsIn
  rw [List.mem_filter]
  refine and_congr_right ?_
  intro _
  cases action with
  | server j task =>
      simp [Callback.isCall]
  | _ =>
      simp [Callback.isCall]

theorem timers_eq (w : World) (i : ℕ) (task : Task) (h : g task = true) :
    w.timers i task = (w.calls i g).filter (fun e => e.action = .server i task) := by
  rw [World.calls, callsIn, List.filter_filter]
  refine List.filter_congr ?_
  intro e _
  by_cases he : e.action = .server i task
  · simp [he, Callback.isCall, h]
  · simp [he]

theorem callsIn_eq_nil (h : ∀ e ∈ es, e.action.isCall i g = false) : callsIn i g es = [] := by
  refine List.filter_eq_nil_iff.2 ?_
  intro e he
  simp [h e he]

variable {C : Cluster} {c : Choice} {w w' : World} {e : Event} {rest : List Event}

theorem calls_pop (h : pop w.events = some (e, rest)) :
    (w.calls i g).Perm (callsIn i g [e] ++ callsIn i g rest) := by
  have hperm := (pop_perm h).filter (fun e => e.action.isCall i g)
  rw [← List.singleton_append, List.filter_append] at hperm
  exact hperm

/-- A call is scheduled by a call of the same server. -/
theorem mem_emitted_call (hown : Own g) {x : Event} (hx : x ∈ emitted C c w e)
    (hcall : x.action.isCall i g = true) :
    ∃ task, e.action = .server i task ∧ x ∈ Server.newTasks C i e.ts task (w.servers i) := by
  rcases x with ⟨ts, action⟩
  cases action with
  | server j task =>
      have hboth : j = i ∧ g task = true := by simpa [Callback.isCall] using hcall
      rcases hboth with ⟨rfl, hg⟩
      rcases mem_emitted_server hx rfl with ⟨task', he, hnew⟩ | ⟨packet, hop, -, -, harr⟩
      · exact ⟨task', he, hnew⟩
      · -- An arrival schedules no call of this kind.
        rcases mem_arrivalEvents harr with ⟨r, -, -, -, heq⟩ | ⟨f, t, -, -, hrecv, heq⟩
        · cases heq
          rw [hown (.createProposalFromRequest r) (.inr rfl)] at hg
          cases hg
        · cases heq
          rw [hown task (.inl (by rw [hrecv]; rfl))] at hg
          cases hg
  | _ =>
      cases hcall

/-- A call of the server takes itself off the list and puts its own calls on. -/
theorem StepSpec.calls_run {now : Time} {task : Task}
    (hs : StepSpec C c w w' ⟨now, .server i task⟩ rest) :
    ∃ l, (w.calls i g).Perm (callsIn i g [⟨now, .server i task⟩] ++ l) ∧
      w'.calls i g = l ++ callsIn i g (Server.newTasks C i now task (w.servers i)) := by
  refine ⟨callsIn i g rest, calls_pop hs.pop, ?_⟩
  -- Packets are no calls.
  have hsends : callsIn i g ((Server.newRecords C i now task (w.servers i)).flatMap
      (sendsOf C i now)) = [] := by
    refine callsIn_eq_nil ?_
    intro x hx
    rcases List.mem_flatMap.1 hx with ⟨r, -, hr⟩
    rcases mem_sendsOf hr with ⟨f, dst, rfl⟩
    rfl
  rw [World.calls, hs.events, callsIn_append]
  simp only [emitted]
  rw [Server.run_events, callsIn_append, hsends, List.nil_append]

/-- Any other event leaves the list as it is. -/
theorem StepSpec.calls_quiet (hs : StepSpec C c w w' e rest) (hown : Own g)
    (hquiet : ∀ task, e.action ≠ .server i task) : (w.calls i g).Perm (w'.calls i g) := by
  have hpopped : callsIn i g [e] = [] := by
    refine callsIn_eq_nil ?_
    intro x hx
    obtain rfl : x = e := List.mem_singleton.1 hx
    rcases x with ⟨ts, action⟩
    cases action with
    | server j task =>
        have hj : j ≠ i := fun h => hquiet task (by rw [h])
        simp [Callback.isCall, hj]
    | _ =>
        rfl
  have hnew : callsIn i g (emitted C c w e) = [] := by
    refine callsIn_eq_nil ?_
    intro x hx
    refine Bool.eq_false_iff.2 ?_
    intro hcall
    rcases mem_emitted_call hown hx hcall with ⟨task, he, -⟩
    exact hquiet task he
  have hperm := calls_pop (i := i) (g := g) hs.pop
  rw [hpopped, List.nil_append] at hperm
  rw [World.calls, World.calls, hs.events, callsIn_append, hnew, List.append_nil]
  exact hperm

/-! ## Initial calls -/

/-- A selection of initial calls of one server of the cluster. -/
theorem init_calls (hg : g .stopApplication = false) :
    (World.init C).calls i g =
      if g .startApplication ∧ i < C.numNodes then
        [⟨C.startTime, .server i .startApplication⟩]
      else
        [] := by
  have happ : ∀ a : App, (a.initEvents C).filter (fun e => e.action.isCall i g) =
      if a = .server i then
        if g .startApplication then [⟨C.startTime, .server i .startApplication⟩] else []
      else
        [] := by
    intro a
    cases a with
    | client k =>
        rfl
    | server j =>
        by_cases hij : j = i <;> by_cases hz : C.stopTime = 0 <;> cases hs : g .startApplication <;>
          simp [App.initEvents, Callback.isCall, hij, hz, hs, hg]
  calc (World.init C).calls i g
      = (World.init C).events.filter (fun e => e.action.isCall i g) := rfl
    _ = _ := init_filter (fun a _ => happ a)
    _ = _ := by
      rw [ite_and]
      cases g .startApplication <;> simp

end Calls

/-! ## One loop for each mode -/

/-- The slots belong to synchronous mode and the polls to asynchronous mode. -/
def OfMode (C : Cluster) (e : Event) : Prop :=
  match e.action with
  | .server _ .doSyncPropose => C.async = false
  | .server _ .doAsyncPropose => C.async = true
  | _ => True

theorem ofMode {C : Cluster} {G : World → Choice → Prop} {w : World} (hr : Reachable C G w) :
    ∀ e ∈ w.events, OfMode C e := by
  refine event_invariant (Q := fun _ => True) (P := fun _ e => OfMode C e)
    (fun _ _ _ _ _ _ => trivial) ?_ (fun _ _ _ _ _ _ h => h) ?_ hr trivial
  · intro e he
    rcases mem_init_events he with ⟨k, -, rfl⟩ | ⟨i, -, rfl⟩ | ⟨i, -, rfl⟩ <;> trivial
  · intro w c w' e rest _ _ _ hold _ _ hs x hx
    rcases x with ⟨ts, action⟩
    have hmode := hold e (mem_of_pop hs.pop)
    cases action with
    | server i t =>
        rcases mem_emitted_server hx rfl with ⟨task, he, hnew⟩ | ⟨packet, hop, -, -, harr⟩
        · rw [OfMode, he] at hmode
          -- The first call of a loop checks the mode, and the later ones inherit it.
          cases Server.schedules_of_mem_newTasks C i e.ts hnew with
          | boot ht =>
              rcases ht with rfl | rfl | rfl <;> trivial
          | firstSlot ha =>
              exact ha
          | nextSlot =>
              exact hmode
          | poll hcause =>
              rcases hcause with ⟨-, ha, -⟩ | rfl | ⟨f, -, hack⟩
              · exact ha
              · exact hmode
              · exact Server.acksOn_async hack
          | answer =>
              trivial
        · rcases mem_arrivalEvents harr with ⟨r, -, -, -, heq⟩ | ⟨f, task, -, -, hrecv, heq⟩
          · cases heq
            trivial
          · cases heq
            cases t <;> simp at hrecv <;> trivial
    | _ =>
        trivial

end SyncPaxos
