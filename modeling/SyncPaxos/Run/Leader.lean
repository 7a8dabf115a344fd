import SyncPaxos.Run.Turn

/-!
# Leader — in asynchronous mode only the leader keeps requests

`ReceiveRequest` of another server drops what it receives, so a follower never has anything to
propose: its queue, its `m_proposals` and its record of PROPOSALs stay empty.
-/

namespace SyncPaxos

open DiscreteEvent

variable {C : Cluster} {G : World → Choice → Prop} {w : World} {c : Choice} {i : ℕ}

/-- No request waits to be queued at a follower. -/
theorem emitted_creating_follower (ha : C.async = true) (hi : i ≠ Cluster.leader) (c : Choice)
    (w : World) (e : Event) :
    (emitted C c w e).filterMap (fun x => x.action.atServer i Task.creating?) = [] := by
  rw [emitted_creating_eq]
  apply if_neg
  rintro ⟨-, hkeeps⟩
  exact hkeeps ⟨ha, hi⟩

theorem queued_follower (hr : Reachable C G w) (ha : C.async = true) (hi : i ≠ Cluster.leader) :
    (w.traces i).queued = [] := by
  have hboth : (w.traces i).queued = [] ∧ w.pending i Task.creating? = [] := by
    refine Transition.Reachable.invariant
      (P := fun w => (w.traces i).queued = [] ∧ w.pending i Task.creating? = []) ?_ ?_ hr
    · exact ⟨rfl, init_pending rfl rfl i⟩
    · intro w c w' _ hw _ hstep
      rcases step_spec hstep with ⟨e, rest, hs⟩
      have hold := List.filterMap_eq_nil_iff.1 hw.2
      constructor
      · have hsub := newLines_queued C w e i
        rw [hold e (mem_of_pop hs.pop)] at hsub
        calc (w'.traces i).queued = (w.traces i).queued ++ (newLines C w e i).queued := by
              rw [hs.traces, Trace.queued, List.filterMap_append]
          _ = [] := by rw [hw.1, List.sublist_nil.1 hsub]; rfl
      · rw [World.pending, hs.events, List.filterMap_append, emitted_creating_follower ha hi,
          List.append_nil]
        refine List.filterMap_eq_nil_iff.2 ?_
        intro x hx
        exact hold x (mem_rest_of_pop hs.pop hx)
  exact hboth.1

/-- A follower has nothing to propose and has proposed nothing. -/
theorem follower_idle (hr : Reachable C G w) (ha : C.async = true) (hi : i ≠ Cluster.leader) :
    (w.servers i).waitingProposals = [] ∧ (w.traces i).proposed = [] ∧
      ∀ x, (w.servers i).proposals.lookup x = none := by
  have hqueue := (ledger hr i).queue
  have hnone := queued_follower hr ha hi
  rw [World.traces] at hnone
  rw [hnone, List.map_nil, List.append_eq_nil_iff, List.map_eq_nil_iff, List.map_eq_nil_iff] at hqueue
  refine ⟨hqueue.2, hqueue.1, ?_⟩
  intro x
  refine Option.not_isSome_iff_eq_none.1 ?_
  intro hsome
  rcases Option.isSome_iff_exists.1 hsome with ⟨p, hp⟩
  rcases ((ledger hr i).outstanding x p hp).origin with ⟨f, hf, -⟩
  rw [hqueue.1] at hf
  cases hf

/-- In asynchronous mode every proposal is the leader's. -/
theorem eq_leader_of_proposed (hr : Reachable C G w) (ha : C.async = true) {f : PaxosFrame}
    (hf : f ∈ (w.traces i).proposed) : i = Cluster.leader := by
  by_contra hi
  rw [(follower_idle hr ha hi).2.1] at hf
  cases hf

end SyncPaxos
