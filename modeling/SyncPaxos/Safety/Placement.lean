import SyncPaxos.Safety.Intake
import SyncPaxos.Safety.Majority
import SyncPaxos.Safety.Progress
import SyncPaxos.Timing.Slots

/-!
# Placement — a request and the server that proposes it

A request that a server queues is proposed when the propose loop of the server comes round to it.
`World.InTime` says of one step that it leaves no request behind: the loop is to go on when a request
is queued, and when it ends at the stop no request waits.

* `waiting_of_ended` is the invariant: where the loop is not to go on, nothing waits.
* `placed_iff` settles which requests of a client become a proposal of a server that proposes it.
* `never_proposed` is the converse: a step that is not in time leaves a request for good.
-/

namespace SyncPaxos

open DiscreteEvent Counting Transition

/-- The call takes up the propose loop of the server. -/
def Server.takesUp (C : Cluster) (now : Time) (s : Server) : Task → Bool
  | .doSyncPropose | .doAsyncPropose => true
  | .startProposerThread => C.async
  | .doReceivedDecisionAckMessage f => (s.acksOn C now f).isSome
  | _ => false

namespace World

/-- The propose loop of server `i` is to go on: a call of it is pending or, in asynchronous mode, the
server holds a proposal whose decision takes it up again. -/
def Proposing (C : Cluster) (w : World) (i : ℕ) : Prop :=
  if C.async then
    w.calls i Task.isPollLoop ≠ [] ∨ (w.servers i).outstanding ≠ []
  else
    w.calls i Task.isSlotLoop ≠ []

/-- The call of `task` of server `i` leaves no request behind. -/
structure LeavesNone (C : Cluster) (w : World) (i : ℕ) (now : Time) (task : Task) : Prop where
  /-- A request is queued where the loop is to go on. -/
  live : task.creating?.isSome → w.Proposing C i
  /-- A server on its own holds its first proposal for good, so it takes no second one. -/
  alone : task.creating?.isSome → C.async = true → C.numNodes < 2 →
    (w.servers i).waitingProposals = [] ∧ (w.servers i).outstanding = []
  /-- A call of the loop at or after the stop finds nothing to propose. -/
  late : C.stopTime ≤ now → (w.servers i).takesUp C now task = true →
    (w.servers i).waitingProposals = []

/-- The next step leaves no request behind. -/
def InTime (C : Cluster) (w : World) : Prop :=
  match pop w.events with
  | some (⟨now, .server i task⟩, _) => w.LeavesNone C i now task
  | _ => True

end World

instance (C : Cluster) (w : World) (i : ℕ) : Decidable (w.Proposing C i) := by
  unfold World.Proposing
  infer_instance

instance (C : Cluster) (w : World) (i : ℕ) (now : Time) (task : Task) :
    Decidable (w.LeavesNone C i now task) :=
  decidable_of_iff
    ((task.creating?.isSome → w.Proposing C i) ∧
      (task.creating?.isSome → C.async = true → C.numNodes < 2 →
        (w.servers i).waitingProposals = [] ∧ (w.servers i).outstanding = []) ∧
      (C.stopTime ≤ now → (w.servers i).takesUp C now task = true →
        (w.servers i).waitingProposals = []))
    ⟨fun h => ⟨h.1, h.2.1, h.2.2⟩, fun h => ⟨h.live, h.alone, h.late⟩⟩

instance (C : Cluster) (w : World) : Decidable (w.InTime C) :=
  match h : pop w.events with
  | some (⟨now, .server i task⟩, _) =>
      decidable_of_iff (w.LeavesNone C i now task) (by simp [World.InTime, h])
  | some (⟨_, .transit _ _⟩, _) => isTrue (by simp [World.InTime, h])
  | some (⟨_, .clientStart _⟩, _) => isTrue (by simp [World.InTime, h])
  | some (⟨_, .sendRequest _⟩, _) => isTrue (by simp [World.InTime, h])
  | none => isTrue (by simp [World.InTime, h])

/-- Requests reach their servers, in asynchronous mode no Paxos frame is lost, and every step leaves
no request behind. -/
def inTime (C : Cluster) (w : World) (c : Choice) : Prop :=
  delivering w c ∧ (C.async = true → noPaxosLoss w c) ∧ w.InTime C

instance (C : Cluster) (w : World) (c : Choice) : Decidable (inTime C w c) :=
  inferInstanceAs (Decidable (delivering w c ∧ (C.async = true → noPaxosLoss w c) ∧ w.InTime C))

namespace World

/-- However the run goes on under `G`, when it is over server `i` has broadcast a PROPOSAL for each
time it has queued request `r`. -/
def WillPropose (C : Cluster) (G : World → Choice → Prop) (w : World) (i : ℕ) (r : RequestFrame) :
    Prop :=
  i < C.numNodes ∧
    ∀ w', Reaches (program C) G w w' → w'.events = [] →
      (w.traces i).queued.count r ≤ ((w'.traces i).proposed.map PaxosFrame.key).count r.key

/-- Request `r` to server `i` has become a proposal there as often as it was sent, the server will
propose it, and no other server has it from this client call. -/
structure Placed (C : Cluster) (G : World → Choice → Prop) (w : World) (i : ℕ) (r : RequestFrame) :
    Prop where
  once : (w.traces i).queued.count r = w.sent.countP (Packet.asks i r)
  elsewhere : ∀ j, j ≠ i → (w.traces j).queued.count r ≤ w.sent.countP (Packet.asks j r)
  proposes : w.WillPropose C G i r

end World

variable {C : Cluster} {G : World → Choice → Prop} {w w' : World} {c : Choice} {i : ℕ}
  {r : RequestFrame} {now : Time} {task : Task} {rest : List Event}

/-! ## One call -/

theorem leavesNone_of_pop (hpop : pop w.events = some (⟨now, .server i task⟩, rest))
    (hg : w.InTime C) : w.LeavesNone C i now task := by
  unfold World.InTime at hg
  rw [hpop] at hg
  exact hg

/-- Only a creation adds to the waiting queue. -/
theorem run_waiting_suffix (h : task.creating? = none) (s : Server) :
    (Server.run C i now task s).server.waitingProposals <:+ s.waitingProposals := by
  have hchain : Server.Changes C i now task s (Server.run C i now task s).server :=
    Server.run_changes task s
  generalize (Server.run C i now task s).server = s' at hchain ⊢
  induction hchain with
  | refl =>
      exact List.suffix_rfl
  | tail _ hchange ih =>
      refine List.IsSuffix.trans ?_ ih
      cases hchange with
      | queue =>
          cases h
      | @propose _ s p rest hw =>
          rw [hw]
          exact List.suffix_cons p rest
      | _ =>
          exact List.suffix_rfl

/-- A line that comes too late is of a call that takes up the loop. -/
theorem takesUp_of_late {s : Server} {line : Record}
    (hline : line ∈ Server.newRecords C i now task s) (hlate : line.IsLate C) :
    C.stopTime ≤ now ∧ s.takesUp C now task = true := by
  refine ⟨hlate.le (newRecords_at line hline), ?_⟩
  cases task with
  | startProposerThread =>
      simp only [Server.newRecords] at hline
      rcases List.mem_cons.1 hline with rfl | hline
      · cases hlate
      · split at hline
        · rename_i hlead
          exact hlead.1
        · cases hline
  | doSyncPropose =>
      rfl
  | doAsyncPropose =>
      rfl
  | createProposalFromRequest r =>
      simp only [Server.newRecords] at hline
      split at hline
      · cases hline
      · obtain rfl := List.mem_singleton.1 hline
        cases hlate
  | doReceivedAcceptMessage f =>
      simp only [Server.newRecords] at hline
      rcases List.mem_cons.1 hline with rfl | hline
      · cases hlate
      · split at hline
        · cases hline
        · cases ha : C.async <;> simp [ha] at hline
          · rcases hline with rfl | rfl <;> cases hlate
          · subst hline
            cases hlate
  | doReceivedDecisionAckMessage f =>
      simp only [Server.newRecords] at hline
      rcases List.mem_cons.1 hline with rfl | hline
      · cases hlate
      · split at hline
        · cases hline
        · rename_i p hack
          exact Option.isSome_of_mem hack
  | doReceivedDecisionMessage f =>
      rcases List.mem_pair.1 hline with rfl | rfl <;> cases hlate
  | doReceivedProposalMessage f =>
      obtain rfl := List.mem_singleton.1 hline
      cases hlate
  | sendAcceptMessage f =>
      obtain rfl := List.mem_singleton.1 hline
      cases hlate
  | _ =>
      cases hline

/-- A creation leaves the loop as it is. -/
theorem proposing_of_creating (hs : StepSpec C c w w' ⟨now, .server i task⟩ rest)
    (hcreate : task.creating?.isSome) (h : w.Proposing C i) : w'.Proposing C i := by
  cases task with
  | createProposalFromRequest r =>
      have hcalls : ∀ g : Task → Bool, g (.createProposalFromRequest r) = false →
          w.calls i g ≠ [] → w'.calls i g ≠ [] := by
        intro g hg hne hnil
        rcases hs.calls_run (g := g) with ⟨l, hperm, heq⟩
        rw [heq] at hnil
        simp [hg, (List.append_eq_nil_iff.1 hnil).1] at hperm
        exact hne hperm
      have hkeep : (w'.servers i).outstanding = (w.servers i).outstanding := by
        have hserver : w'.servers i =
            (Server.run C i now (.createProposalFromRequest r) (w.servers i)).server := by
          simp [hs.servers, serversAfter]
        rw [hserver]
        rcases Server.createProposalFromRequest_cases i now r (w.servers i) with
          ⟨-, heq⟩ | ⟨-, heq⟩ <;>
          simp [Server.run, heq, Server.outstanding, Server.record]
      unfold World.Proposing at h ⊢
      split
      · rename_i ha
        rw [if_pos ha] at h
        rcases h with h | h
        · exact .inl (hcalls _ rfl h)
        · exact .inr (hkeep ▸ h)
      · rename_i ha
        rw [if_neg ha] at h
        exact hcalls _ rfl h
  | _ =>
      cases hcreate

/-- A step that runs no call of the server leaves its loop as it is. -/
theorem proposing_of_quiet {e : Event} (hs : StepSpec C c w w' e rest)
    (hquiet : ∀ task, e.action ≠ .server i task) (hserver : w'.servers i = w.servers i)
    (h : w.Proposing C i) : w'.Proposing C i := by
  have hcalls : ∀ g : Task → Bool, Own g → w.calls i g ≠ [] → w'.calls i g ≠ [] := by
    intro g hown hne hnil
    have hperm := hs.calls_quiet hown hquiet
    rw [hnil] at hperm
    exact hne hperm.eq_nil
  unfold World.Proposing at h ⊢
  split
  · rename_i ha
    rw [if_pos ha] at h
    rw [hserver]
    exact h.imp_left (hcalls _ own_isPollLoop)
  · rename_i ha
    rw [if_neg ha] at h
    exact hcalls _ own_isSlotLoop h

/-- The leader's loop, in asynchronous mode. -/
theorem late_of_ended_async (ha : C.async = true) (hr : Reachable C G w) (hr' : Reachable C G w')
    (hi : Cluster.leader < C.numNodes)
    (hs : StepSpec C c w w' ⟨now, .server Cluster.leader task⟩ rest)
    (hbefore : w.calls Cluster.leader Task.isPollLoop ≠ [] ∨
      (w.servers Cluster.leader).outstanding ≠ [])
    (hcalls' : w'.calls Cluster.leader Task.isPollLoop = [])
    (hheld : ¬ (w'.servers Cluster.leader).outstanding ≠ []) :
    C.stopTime ≤ now ∧ (w.servers Cluster.leader).takesUp C now task = true := by
  have htrace := hs.traces_server
  rw [Server.run_trace] at htrace
  -- The leader is in its last phase, and it was not before.
  have hlate' : (w'.servers Cluster.leader).Late C := by
    cases phase ha hi hr' with
    | before ts task _ hcalls =>
        rw [hcalls'] at hcalls
        cases hcalls
    | polling ts hcalls =>
        rw [hcalls'] at hcalls
        cases hcalls
    | waiting p _ hhand =>
        exact absurd (by simp [hhand.entries]) hheld
    | ended _ _ hlate =>
        exact hlate
  have hearly : ¬ (w.servers Cluster.leader).Late C := by
    cases phase ha hi hr with
    | before _ _ _ _ _ hearly =>
        exact hearly
    | polling _ _ _ hearly =>
        exact hearly
    | waiting _ _ _ hearly =>
        exact hearly
    | ended hcalls hhand =>
        exact (hbefore.elim (· hcalls) (· hhand.entries)).elim
  rcases hlate' with ⟨line, hline, hislate⟩
  have hmem : line ∈ w'.traces Cluster.leader := hline
  rw [htrace] at hmem
  rcases List.mem_append.1 hmem with hold | hnew
  · exact absurd ⟨line, hold, hislate⟩ hearly
  · exact takesUp_of_late hnew hislate

/-- The loop of slots, in synchronous mode. -/
theorem late_of_ended_sync (hsync : C.async = false) (hr : Reachable C G w)
    (hr' : Reachable C G w') (hi : i < C.numNodes) (hs : StepSpec C c w w' ⟨now, .server i task⟩ rest)
    (hbefore : w.calls i Task.isSlotLoop ≠ []) (hcalls' : w'.calls i Task.isSlotLoop = []) :
    C.stopTime ≤ now ∧ (w.servers i).takesUp C now task = true := by
  have htrace := hs.traces_server
  rw [Server.run_trace] at htrace
  have hlate : ∃ t ∈ (w'.traces i).syncCalls, C.stopTime ≤ t := by
    cases slotLoop hsync hi hr' with
    | boot hcalls =>
        rw [hcalls'] at hcalls
        cases hcalls
    | thread hcalls =>
        rw [hcalls'] at hcalls
        cases hcalls
    | slots k hcalls =>
        rw [hcalls'] at hcalls
        cases hcalls
    | ended _ _ _ _ hlate =>
        exact hlate
  have hearly : ∀ t ∈ (w.traces i).syncCalls, t < C.stopTime := by
    cases slotLoop hsync hi hr with
    | boot _ _ hcalls =>
        simp [hcalls]
    | thread _ _ _ hcalls =>
        simp [hcalls]
    | slots _ _ _ _ hearly =>
        exact hearly
    | ended _ hcalls =>
        exact absurd hcalls hbefore
  rcases hlate with ⟨t, ht, hstop⟩
  rw [htrace, Trace.syncCalls, List.filterMap_append, ← Trace.syncCalls, ← Trace.syncCalls,
    newRecords_syncCalls] at ht
  rcases List.mem_append.1 ht with hold | hnew
  · exact absurd (hearly t hold) (not_lt.2 hstop)
  · split at hnew
    · rename_i htask
      subst htask
      obtain rfl := List.mem_singleton.1 hnew
      exact ⟨hstop, rfl⟩
    · cases hnew

/-- The call after which the loop is not to go on takes it up at or after the stop. -/
theorem late_of_ended (hr : Reachable C G w) (hr' : Reachable C G w') (hi : i < C.numNodes)
    (hkeeps : C.Keeps i) (hs : StepSpec C c w w' ⟨now, .server i task⟩ rest)
    (hbefore : w.Proposing C i) (hafter : ¬ w'.Proposing C i) :
    C.stopTime ≤ now ∧ (w.servers i).takesUp C now task = true := by
  unfold World.Proposing at hbefore hafter
  by_cases ha : C.async = true
  · obtain rfl : i = Cluster.leader := hkeeps ha
    rw [if_pos ha] at hbefore hafter
    rcases not_or.1 hafter with ⟨hcalls', hheld⟩
    exact late_of_ended_async ha hr hr' hi hs hbefore (not_not.1 hcalls') hheld
  · rw [if_neg ha] at hbefore hafter
    exact late_of_ended_sync (by simpa using ha) hr hr' hi hs hbefore (not_not.1 hafter)

/-! ## Along a run -/

/-- Where the loop is not to go on, nothing waits. -/
theorem waiting_of_ended (hG : ∀ w c, G w c → w.InTime C) (hr : Reachable C G w)
    (hi : i < C.numNodes) (hkeeps : C.Keeps i) :
    ¬ w.Proposing C i → (w.servers i).waitingProposals = [] := by
  refine Transition.Reachable.invariant
    (P := fun w => ¬ w.Proposing C i → (w.servers i).waitingProposals = []) (fun _ => rfl) ?_ hr
  intro w c w' hr hw hg hstep hafter
  have hr' : Reachable C G w' := .step hr hg hstep
  rcases step_spec hstep with ⟨⟨now, action⟩, rest, hs⟩
  have hquiet : (∀ task, action ≠ .server i task) → w'.servers i = w.servers i →
      (w'.servers i).waitingProposals = [] := by
    intro hne hserver
    rw [hserver]
    exact hw (fun hbefore => hafter (proposing_of_quiet hs hne hserver hbefore))
  cases action with
  | server j task =>
      by_cases hij : j = i
      · subst hij
        have hleaves := leavesNone_of_pop hs.pop (hG w c hg)
        have hcreate : task.creating? = none := by
          refine Option.not_isSome_iff_eq_none.1 ?_
          intro hcreate
          exact hafter (proposing_of_creating hs hcreate (hleaves.live hcreate))
        have hnil : (w.servers j).waitingProposals = [] := by
          by_cases hbefore : w.Proposing C j
          · rcases late_of_ended hr hr' hi hkeeps hs hbefore hafter with ⟨hstop, htakes⟩
            exact hleaves.late hstop htakes
          · exact hw hbefore
        have hsuffix : (Server.run C j now task (w.servers j)).server.waitingProposals <:+
            (w.servers j).waitingProposals := run_waiting_suffix hcreate _
        rw [hnil, List.suffix_nil] at hsuffix
        simpa [hs.servers, serversAfter] using hsuffix
      · refine hquiet (fun task => by simp [hij]) ?_
        simp [hs.servers, serversAfter, Function.update_of_ne (Ne.symm hij)]
  | clientStart k =>
      exact hquiet (fun _ => by simp) (by simp [hs.servers, serversAfter])
  | sendRequest k =>
      exact hquiet (fun _ => by simp) (by simp [hs.servers, serversAfter])
  | transit packet hop =>
      exact hquiet (fun _ => by simp) (by simp [hs.servers, serversAfter])

theorem queued_length (hr : Reachable C G w) (i : ℕ) :
    (w.traces i).proposed.length + (w.servers i).waitingProposals.length =
      (w.traces i).queued.length := by
  have hqueue := congrArg List.length (ledger hr i).queue
  simpa [World.traces] using hqueue

/-- What is held has been proposed. -/
theorem proposed_of_outstanding (hr : Reachable C G w) (hheld : (w.servers i).outstanding ≠ []) :
    0 < (w.traces i).proposed.length := by
  rcases List.exists_mem_of_ne_nil _ hheld with ⟨p, hp⟩
  rcases AList.mem_values.1 hp with ⟨y, hl⟩
  rcases ((ledger hr i).outstanding y p hl).origin with ⟨f, hf, -⟩
  exact List.length_pos_of_mem hf

/-- What a server on its own has proposed it holds. -/
theorem outstanding_of_alone (halone : C.numNodes < 2) (hr : Reachable C G w)
    (hp : (w.traces i).proposed ≠ []) : (w.servers i).outstanding ≠ [] := by
  rcases held_of_alone halone hr i hp with ⟨x, p, hl, -, -⟩
  exact List.ne_nil_of_mem (AList.mem_values.2 ⟨x, hl⟩)

/-- A server on its own takes one request. -/
theorem queued_alone (hG : ∀ w c, G w c → w.InTime C) (ha : C.async = true)
    (halone : C.numNodes < 2) (hr : Reachable C G w) (i : ℕ) : (w.traces i).queued.length ≤ 1 := by
  refine Transition.Reachable.invariant (P := fun w => (w.traces i).queued.length ≤ 1) (Nat.zero_le 1)
    ?_ hr
  intro w c w' hr hw hg hstep
  rcases step_spec hstep with ⟨e, rest, hs⟩
  have hqueued : (w'.traces i).queued = (w.traces i).queued ++ (newLines C w e i).queued := by
    rw [hs.traces, Trace.queued, List.filterMap_append]
  have hsub := (newLines_queued C w e i).length_le
  rw [hqueued, List.length_append]
  cases hcreate : e.action.atServer i Task.creating? with
  | none =>
      rw [hcreate] at hsub
      exact (Nat.add_le_add hw hsub).trans_eq rfl
  | some r =>
      rw [hcreate] at hsub
      rcases e with ⟨now, action⟩
      rcases eq_server_of_atServer (Option.isSome_of_mem hcreate) with ⟨task, rfl, htask⟩
      have hleaves := leavesNone_of_pop hs.pop (hG w c hg)
      -- The server has queued nothing: nothing waits, and it would hold what it has proposed.
      rcases hleaves.alone htask ha halone with ⟨hwaiting, hheld⟩
      have hproposed : (w.traces i).proposed = [] := by
        by_contra hne
        exact outstanding_of_alone halone hr hne hheld
      have hlength := queued_length hr i
      rw [hproposed, hwaiting] at hlength
      simp only [List.length_nil, Option.toList_some, List.length_singleton] at hlength hsub
      omega

/-- When a run is over, nothing waits. -/
theorem waiting_at_end (hr : Reachable C (inTime C) w) (hi : i < C.numNodes) (hkeeps : C.Keeps i)
    (hend : w.events = []) : (w.servers i).waitingProposals = [] := by
  have hG : ∀ w c, inTime C w c → w.InTime C := fun _ _ h => h.2.2
  have hcalls : ∀ g, w.calls i g = [] := by
    intro g
    rw [World.calls, hend, callsIn_nil]
  by_cases hprop : w.Proposing C i
  · unfold World.Proposing at hprop
    by_cases ha : C.async = true
    · rw [if_pos ha] at hprop
      have hheld := hprop.resolve_left (not_not.2 (hcalls _))
      obtain rfl : i = Cluster.leader := hkeeps ha
      by_cases hn : 2 ≤ C.numNodes
      · -- The votes for the proposal have not been lost, so one is under way.
        have hloss : ∀ w c, inTime C w c → lossLeavesMajority C w c := by
          intro w c hg
          refine onTransit_mono ?_ (hg.2.1 ha)
          intro w packet now fate hrule hlost p _ hin
          rw [hrule (isRequest_of_inRound hin)] at hlost
          cases hlost
        rcases List.exists_mem_of_ne_nil _ hheld with ⟨p, hp⟩
        rcases AList.mem_values.1 hp with ⟨y, hl⟩
        have hsupport := supported ha hn hloss hr y p hl
        rcases advances_of_support hn hr hl hsupport with ⟨e, he, -⟩
        rw [hend] at he
        cases he
      · have hone := queued_alone hG ha (not_le.1 hn) hr Cluster.leader
        have hlength := queued_length hr Cluster.leader
        have hpos := proposed_of_outstanding hr hheld
        exact List.eq_nil_of_length_eq_zero (by omega)
    · rw [if_neg ha] at hprop
      exact absurd (hcalls _) hprop
  · exact waiting_of_ended hG hr hi hkeeps hprop

/-- A server that keeps requests proposes what it has queued. -/
theorem willPropose (hr : Reachable C (inTime C) w) (hi : i < C.numNodes) (hkeeps : C.Keeps i) :
    w.WillPropose C (inTime C) i r := by
  refine ⟨hi, ?_⟩
  intro w' hreaches hend
  have hr' : Reachable C (inTime C) w' := hr.trans hreaches
  have hgrows : w.traces i <+: w'.traces i := by
    refine hreaches.invariant hr (P := fun w' => w.traces i <+: w'.traces i) List.prefix_rfl ?_
    intro w₁ c w₂ _ hpre _ hstep
    exact hpre.trans (step_trace_grows hstep i)
  have hqueue := (ledger hr' i).queue
  rw [waiting_at_end hr' hi hkeeps hend, List.map_nil, List.append_nil] at hqueue
  calc (w.traces i).queued.count r ≤ (w'.traces i).queued.count r :=
        (hgrows.filterMap _).sublist.count_le r
    _ ≤ ((w'.traces i).queued.map RequestFrame.key).count r.key :=
        List.count_le_count_map
    _ = ((w'.traces i).proposed.map PaxosFrame.key).count r.key :=
        congrArg (List.count r.key) hqueue.symm

/-! ## The requests of a client -/

theorem newLines_proposed_lt {e : Event} {f : PaxosFrame} (hf : f ∈ (newLines C w e i).proposed) :
    e.ts < C.stopTime := by
  rcases e with ⟨now, action⟩
  cases action with
  | server j task =>
      simp only [newLines] at hf
      split at hf
      · exact (newRecords_proposed hf).1
      · cases hf
  | _ =>
      cases hf

/-- At or after the stop nothing is proposed. -/
theorem StepSpec.proposed_stopped {e : Event} (hs : StepSpec C c w w' e rest)
    (hstop : C.stopTime ≤ e.ts) (i : ℕ) : (w'.traces i).proposed = (w.traces i).proposed := by
  have hnone : (newLines C w e i).proposed = [] := by
    refine List.eq_nil_iff_forall_not_mem.2 ?_
    intro f hf
    exact absurd (newLines_proposed_lt hf) (not_lt.2 hstop)
  rw [hs.traces, Trace.proposed, List.filterMap_append, ← Trace.proposed, ← Trace.proposed, hnone,
    List.append_nil]

theorem proposed_of_stopped (hr : Reachable C G w) (hstop : C.stopTime ≤ w.now)
    (h : Reaches (program C) G w w') (i : ℕ) : (w'.traces i).proposed = (w.traces i).proposed := by
  have hboth : C.stopTime ≤ w'.now ∧ (w'.traces i).proposed = (w.traces i).proposed := by
    refine h.invariant hr
      (P := fun w' => C.stopTime ≤ w'.now ∧ (w'.traces i).proposed = (w.traces i).proposed)
      ⟨hstop, rfl⟩ ?_
    intro w₁ c w₂ hr₁ hw _ hstep
    have hnow := hw.1.trans (step_now_le hr₁ hstep)
    rcases step_spec hstep with ⟨e, rest, hs⟩
    exact ⟨hnow, (hs.proposed_stopped (hs.now ▸ hnow) i).trans hw.2⟩
  exact hboth.2

/-- A loop that is not to go on has been stopped. -/
theorem stopped_of_ended (hr : Reachable C G w) (hi : i < C.numNodes) (hkeeps : C.Keeps i)
    (h : ¬ w.Proposing C i) : C.stopTime ≤ w.now := by
  unfold World.Proposing at h
  by_cases ha : C.async = true
  · obtain rfl : i = Cluster.leader := hkeeps ha
    rw [if_pos ha] at h
    rcases not_or.1 h with ⟨hcalls, hheld⟩
    cases phase ha hi hr with
    | before ts task _ hc =>
        exact absurd (by simp [hc]) hcalls
    | polling ts hc =>
        exact absurd (by simp [hc]) hcalls
    | waiting p _ hhand =>
        exact absurd (by simp [hhand.entries]) hheld
    | ended _ _ hlate =>
        rcases hlate with ⟨line, hline, hislate⟩
        rcases traces_at hr Cluster.leader line hline with ⟨t, ht, hat⟩
        exact (hislate.le hat).trans ht
  · rw [if_neg ha] at h
    have hnone := not_not.1 h
    cases slotLoop (by simpa using ha) hi hr with
    | boot hc =>
        rw [hc] at hnone
        cases hnone
    | thread hc =>
        rw [hc] at hnone
        cases hnone
    | slots k hc =>
        rw [hc] at hnone
        cases hnone
    | ended _ _ _ hnow =>
        exact hnow

/-- A server on its own proposes once. -/
theorem proposed_alone (ha : C.async = true) (halone : C.numNodes < 2) (hr : Reachable C G w)
    (hi : i < C.numNodes) : (w.traces i).proposed.length ≤ 1 := by
  obtain rfl : i = Cluster.leader := by
    change i = 0
    omega
  have hnone : (w.servers Cluster.leader).trace.decided = [] := decided_of_alone halone hr _
  have hline : ∀ held, Hand Cluster.leader (w.servers Cluster.leader) held →
      (w.traces Cluster.leader).proposed.length = held.length := by
    intro held hhand
    have hlength := congrArg List.length hhand.line
    simpa [World.traces, hnone, ownDecided] using hlength
  cases phase ha hi hr with
  | before _ _ _ _ hhand =>
      exact (hline _ hhand).trans_le (Nat.zero_le 1)
  | polling _ _ hhand =>
      exact (hline _ hhand).trans_le (Nat.zero_le 1)
  | waiting _ _ hhand =>
      exact (hline _ hhand).le
  | ended _ hhand =>
      exact (hline _ hhand).trans_le (Nat.zero_le 1)

/-- After a creation the queue holds at least what it held, and something. -/
theorem waiting_of_creating (hs : StepSpec C c w w' ⟨now, .server i task⟩ rest)
    (hcreate : task.creating?.isSome) :
    (w'.servers i).waitingProposals.length = (w.servers i).waitingProposals.length + 1 ∨
      1000 < (w'.servers i).waitingProposals.length := by
  cases task with
  | createProposalFromRequest r =>
      have hserver : w'.servers i =
          (Server.run C i now (.createProposalFromRequest r) (w.servers i)).server := by
        simp [hs.servers, serversAfter]
      rw [hserver]
      rcases Server.createProposalFromRequest_cases i now r (w.servers i) with
        ⟨hfull, heq⟩ | ⟨-, heq⟩
      · right
        simpa [Server.run, heq] using hfull
      · left
        simp [Server.run, heq, Server.record]
  | _ =>
      cases hcreate

/-- However the run goes on, server `i` has queued a request that it has not proposed. -/
def World.LeavesBehind (C : Cluster) (G : World → Choice → Prop) (w : World) (i : ℕ) : Prop :=
  ∀ w', Reaches (program C) G w w' → (w'.traces i).proposed.length < (w'.traces i).queued.length

theorem queued_grows (hr : Reachable C G w) (h : Reaches (program C) G w w') (i : ℕ) :
    (w.traces i).queued.length ≤ (w'.traces i).queued.length := by
  refine h.invariant hr (P := fun w' => (w.traces i).queued.length ≤ (w'.traces i).queued.length)
    le_rfl ?_
  intro w₁ c w₂ _ hle _ hstep
  exact hle.trans ((step_trace_grows hstep i).filterMap _).length_le

/-- What waits when the servers have stopped is left. -/
theorem leavesBehind_of_stopped (hr : Reachable C G w) (hstop : C.stopTime ≤ w.now)
    (hne : (w.servers i).waitingProposals ≠ []) : w.LeavesBehind C G i := by
  intro w' h
  rw [proposed_of_stopped hr hstop h i]
  have hlength := queued_length hr i
  have hpos := List.length_pos_of_ne_nil hne
  have hle := queued_grows hr h i
  omega

/-- The second request of a server on its own is left. -/
theorem leavesBehind_of_alone (ha : C.async = true) (halone : C.numNodes < 2) (hr : Reachable C G w)
    (hi : i < C.numNodes) (htwo : 2 ≤ (w.traces i).queued.length) : w.LeavesBehind C G i := by
  intro w' h
  have hone := proposed_alone ha halone (hr.trans h) hi
  have hle := queued_grows hr h i
  omega

/-- A step that is not in time leaves a request that is queued and never proposed. -/
theorem never_proposed (hr : Reachable C G w) (hg : G w c) (hstep : World.step C c w = some w')
    (hbad : ¬ w.InTime C) : ∃ i, w'.LeavesBehind C G i := by
  have hr' : Reachable C G w' := .step hr hg hstep
  rcases step_spec hstep with ⟨⟨now, action⟩, rest, hs⟩
  unfold World.InTime at hbad
  rw [hs.pop] at hbad
  cases action with
  | server i task =>
      refine ⟨i, ?_⟩
      have hlt : i < C.numNodes := ((booted hr).due _ (mem_of_pop hs.pop)).lt
      have hlength := queued_length hr i
      have hlength' := queued_length hr' i
      by_cases hlate : C.stopTime ≤ now → (w.servers i).takesUp C now task = true →
          (w.servers i).waitingProposals = []
      · -- A request is queued.
        have hcreate : task.creating?.isSome := by
          by_contra hno
          exact hbad ⟨fun h => absurd h hno, fun h => absurd h hno, hlate⟩
        have hwaiting := waiting_of_creating hs hcreate
        have hne : (w'.servers i).waitingProposals ≠ [] := by
          intro hnil
          rw [hnil, List.length_nil] at hwaiting
          omega
        have hkeeps : C.Keeps i := by
          intro ha
          by_contra hfollower
          exact hne (follower_idle hr' ha hfollower).1
        by_cases hlive : w.Proposing C i
        · -- The server is on its own, and it has a request already.
          have halone : C.async = true ∧ C.numNodes < 2 ∧
              ¬ ((w.servers i).waitingProposals = [] ∧ (w.servers i).outstanding = []) := by
            by_contra hno
            refine hbad ⟨fun _ => hlive, ?_, hlate⟩
            intro _ ha hfew
            by_contra hnone
            exact hno ⟨ha, hfew, hnone⟩
          rcases halone with ⟨ha, hfew, hsome⟩
          refine leavesBehind_of_alone ha hfew hr' hlt ?_
          have hpre : (w.traces i).proposed.length ≤ (w'.traces i).proposed.length :=
            ((step_trace_grows hstep i).filterMap _).length_le
          have hpos : 0 < (w.servers i).waitingProposals.length + (w.traces i).proposed.length := by
            by_contra hzero
            refine hsome ⟨List.eq_nil_of_length_eq_zero (by omega), ?_⟩
            by_contra hheld
            have hproposed := proposed_of_outstanding hr hheld
            omega
          omega
        · -- The loop is over, so the servers have stopped.
          have hstop := (stopped_of_ended hr hlt hkeeps hlive).trans (step_now_le hr hstep)
          exact leavesBehind_of_stopped hr' hstop hne
      · -- A call of the loop comes too late for what waits.
        rcases Classical.not_imp.1 hlate with ⟨hstop, hrest⟩
        rcases Classical.not_imp.1 hrest with ⟨-, hne⟩
        refine leavesBehind_of_stopped hr' (hs.now ▸ hstop) ?_
        have hpos := List.length_pos_of_ne_nil hne
        have hpre : (w.traces i).queued.length ≤ (w'.traces i).queued.length :=
          ((step_trace_grows hstep i).filterMap _).length_le
        refine List.ne_nil_of_length_pos ?_
        rw [hs.proposed_stopped hstop i] at hlength'
        omega
  | _ =>
      exact absurd trivial hbad

end SyncPaxos
