import SyncPaxos.Run.Requests

/-!
# Turn — invariants of one server, change by change

`Turn` collects what is known of the world when a member function runs: it was scheduled for a
reason, and the world it leaves is reachable.  `change_invariant` is the rule that later modules
use: to show that a property of one server always holds, show that each change keeps it.
-/

namespace SyncPaxos

open DiscreteEvent

/-- The step from `w₀` to `w` ran `task` of server `i` at the time `now`. -/
structure Turn (C : Cluster) (G : World → Choice → Prop) (Q : World → Prop) (w₀ : World)
    (c : Choice) (w : World) (i : ℕ) (now : Time) (task : Task) : Prop where
  before : Reachable C G w₀
  guard : G w₀ c
  step : World.step C c w₀ = some w
  spec : ∃ rest, StepSpec C c w₀ w ⟨now, .server i task⟩ rest
  holds : Q w

section Turn

variable {C : Cluster} {G : World → Choice → Prop} {Q : World → Prop} {w₀ w : World} {c : Choice}
  {i : ℕ} {now : Time} {task : Task}

theorem Turn.reach (h : Turn C G Q w₀ c w i now task) : Reachable C G w :=
  .step h.before h.guard h.step

theorem Turn.pending (h : Turn C G Q w₀ c w i now task) :
    (⟨now, .server i task⟩ : Event) ∈ w₀.events := by
  rcases h.spec with ⟨rest, hs⟩
  exact mem_of_pop hs.pop

theorem Turn.now_eq (h : Turn C G Q w₀ c w i now task) : w.now = now := by
  rcases h.spec with ⟨rest, hs⟩
  exact hs.now

theorem Turn.lt (h : Turn C G Q w₀ c w i now task) : i < C.numNodes :=
  ((booted h.before).due _ h.pending).lt

/-- Why the call was pending. -/
theorem Turn.scheduled (h : Turn C G Q w₀ c w i now task) :
    Justified C w₀.traces w₀.sent (.server i task) :=
  (sound h.before).events _ h.pending

theorem Turn.justified (h : Turn C G Q w₀ c w i now task) :
    Justified C w.traces w.sent (.server i task) :=
  h.scheduled.mono (step_trace_grows h.step) (step_sent_grows h.step).subset

/-- A server that has proposed runs at a positive time. -/
theorem Turn.pos (h : Turn C G Q w₀ c w i now task) {j : ℕ} (hp : (w.traces j).proposed ≠ []) :
    0 < now := by
  have hqueued : (w.traces j).queued ≠ [] := by
    intro hnil
    have hqueue := (ledger h.reach j).queue
    rw [World.traces] at hp hnil
    rw [hnil] at hqueue
    simp at hqueue
    exact hp (by simpa using hqueue.1)
  have hlate := (booted h.reach).queued j hqueued
  rw [h.now_eq] at hlate
  lia

/-- A call writes one line about the frame it handles: when it comes to write it, nothing has been
added to the lines of this kind. -/
theorem Turn.line_once (h : Turn C G Q w₀ c w i now task) {p : Record → Option PaxosFrame}
    (hp : ∀ r, ¬ r.IsLine → p r = none) {tr : Trace} {r : Record} (hr : (p r).isSome)
    (hpre₀ : w₀.traces i <+: tr) (hpre : tr ++ [r] <+: w.traces i) :
    tr.filterMap p = (w₀.traces i).filterMap p := by
  rcases h.spec with ⟨rest, hs⟩
  have hline : ((w.traces i).filterMap p).length ≤ ((w₀.traces i).filterMap p).length + 1 := by
    rw [hs.traces_server, Server.run_trace, List.filterMap_append, newRecords_filterMap hp,
      List.length_append, World.traces]
    cases (task.line? i now).bind p <;> simp
  have hle := (hpre.filterMap p).length_le
  rcases Option.isSome_iff_exists.1 hr with ⟨f, hf⟩
  rw [List.filterMap_append, List.length_append, List.filterMap_cons, hf] at hle
  have hold := hpre₀.filterMap p
  refine (hold.eq_of_length_le ?_).symm
  simp at hle
  omega

end Turn

/-- A property of one server holds in every reachable state if every change keeps it.  `Q` is a
property that no step establishes anew. -/
theorem change_invariant {C : Cluster} {G : World → Choice → Prop} {Q : World → Prop}
    {P : ℕ → Server → Prop} (hQ : ∀ w c w', Reachable C G w → World.step C c w = some w' → Q w' → Q w)
    (hinit : ∀ i, P i {})
    (hchange : ∀ w₀ c w i now task s s', Turn C G Q w₀ c w i now task →
      w₀.traces i <+: s.trace → s'.trace <+: w.traces i → Ledger i s → P i s →
      Server.Change C i now task s s' → P i s')
    {w : World} (hr : Reachable C G w) (hq : Q w) : ∀ i, P i (w.servers i) := by
  refine server_invariant hQ hinit ?_ hr hq
  intro w₀ c w i task now rest hr₀ _ hg hstep hq hs hP
  have hturn : Turn C G Q w₀ c w i now task := ⟨hr₀, hg, hstep, ⟨rest, hs⟩, hq⟩
  have hfinal : (Server.run C i now task (w₀.servers i)).server.trace = w.traces i :=
    hs.traces_server.symm
  have hchain : Server.Changes C i now task (w₀.servers i)
      (Server.run C i now task (w₀.servers i)).server := Server.run_changes task (w₀.servers i)
  -- Along the chain: what has been done so far is kept, what is to come only adds lines.
  have hkey : ∀ s, Server.Changes C i now task (w₀.servers i) s → s.trace <+: w.traces i →
      Ledger i s ∧ P i s := by
    intro s hc
    induction hc with
    | refl =>
        intro _
        exact ⟨ledger hr₀ i, hP⟩
    | tail hc hstep ih =>
        intro hpre
        have hold := ih (hstep.trace_grows.trans hpre)
        exact ⟨hold.1.change hstep,
          hchange w₀ c w i now task _ _ hturn (Server.Changes.trace_grows hc) hpre hold.1 hold.2 hstep⟩
  exact (hkey _ hchain (hfinal ▸ List.prefix_rfl)).2

/-! ## Before the servers stop -/

/-- The decided queue of a server that has not stopped is all it has decided. -/
structure Unstopped (s : Server) : Prop where
  queue : s.decidedProposalQueue = s.trace.decided
  log : s.decisionLog = []

theorem unstopped {C : Cluster} {G : World → Choice → Prop} {w : World} (hr : Reachable C G w)
    (hnow : w.now < C.stopTime) (i : ℕ) : Unstopped (w.servers i) := by
  refine change_invariant (Q := fun w => w.now < C.stopTime) (P := fun _ s => Unstopped s)
    ?_ (fun _ => ⟨rfl, rfl⟩) ?_ hr hnow i
  · intro w c w' hr hstep hlt
    exact (step_now_le hr hstep).trans_lt hlt
  · intro w₀ c w i now task s s' hturn hpre₀ hpre hled hs hc
    rcases hs with ⟨hqueue, hlog⟩
    cases hc with
    | flags =>
        exact ⟨hqueue, hlog⟩
    | @note _ _ r hr =>
        cases r <;> simp [Record.IsNote] at hr <;>
          exact ⟨by simpa [Server.record, List.filterMap_cons] using hqueue, hlog⟩
    | stop =>
        have hdue := (booted hturn.before).due _ hturn.pending
        have hlt := hturn.holds
        rw [hturn.now_eq] at hlt
        exact absurd hdue.2 (Nat.ne_of_lt hlt)
    | _ =>
        refine ⟨?_, hlog⟩
        simp [Server.record, Server.enqueue, Server.propose, Server.storeAccepted,
          Server.putProposal, Server.pushDecided, Server.eraseProposal, List.filterMap_cons,
          hqueue]

end SyncPaxos
