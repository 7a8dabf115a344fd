import SyncPaxos.Safety.Accounts
import SyncPaxos.Safety.Quorum

/-!
# Copies — what a second copy of a frame does

`m_numAck` is meant to be the number of servers that accept a proposal, but it counts frames: the
acceptor id of an ACCEPT is read and not used, and a decided proposal is pushed without looking for
it in the decided queue.  So a second copy of a frame is harmless exactly when it is `Spent`:

* a PROPOSAL always is;
* an ACCEPT, and in asynchronous mode a DECISION_ACK, is once its id has left `m_proposals`;
* a DECISION never is.

A copied PROPOSAL is answered by a second ACCEPT, a different frame.  What a run has to avoid for
the contract to hold is therefore a second vote and a second DECISION for an id (`onlyFirst`).
-/

namespace SyncPaxos

open DiscreteEvent Transition

/-! ## One frame handled again -/

/-- A call that changes no vote count and no decided log, and that sends no DECISION. -/
structure Harmless (s : Server) (out : Outcome) : Prop where
  votes : ∀ x, (out.server.proposals.lookup x).map (fun p => (p.numAck, p.numDecisionAck)) =
    (s.proposals.lookup x).map (fun p => (p.numAck, p.numDecisionAck))
  decided : out.server.decidedLog = s.decidedLog
  silent : ∀ e ∈ out.events, ∀ packet f, e.action.sentPacket? = some packet →
    packet.paxos? = some f → f.isDecision = false

/-- Nothing is left that a copy of the frame could be counted for. -/
def Spent (C : Cluster) (f : PaxosFrame) (s : Server) : Prop :=
  f.messageType = PaxosFrame.PROPOSAL ∨
    f.messageType = PaxosFrame.ACCEPT ∧ s.proposals.lookup f.proposalId = none ∨
    f.messageType = PaxosFrame.DECISION_ACK ∧
      (C.async = false ∨ s.proposals.lookup f.proposalId = none)

section Again

variable {C : Cluster} {i : ℕ} {now : Time} {s : Server} {f : PaxosFrame}

theorem harmless_of_record {out : Outcome} {r : Record} (hserver : out.server = s.record r)
    (hevents : out.events = []) : Harmless s out := by
  refine ⟨?_, ?_, ?_⟩
  · intro x
    rw [hserver]
    rfl
  · rw [hserver]
    rfl
  · intro e he
    rw [hevents] at he
    cases he

theorem harmless_proposal : Harmless s (s.doReceivedProposalMessage i now f) := by
  refine ⟨fun _ => rfl, rfl, ?_⟩
  intro e he packet g hp
  rcases List.mem_singleton.1 he with rfl
  cases hp

/-- An ACCEPT is counted as long as there is an entry. -/
theorem harmless_accept_iff (hown : f.proposerId = i) :
    Harmless s (s.doReceivedAcceptMessage C i now f) ↔
      s.proposals.lookup f.proposalId = none := by
  constructor
  · intro h
    refine Option.not_isSome_iff_eq_none.1 ?_
    intro hsome
    rcases Option.isSome_iff_exists.1 hsome with ⟨found, hl⟩
    have hvotes := h.votes f.proposalId
    rcases Server.doReceivedAcceptMessage_cases C i now f s with
      ⟨hig, -⟩ | ⟨found', -, hl', ⟨-, heq⟩ | ⟨-, -, -, heq⟩ | ⟨-, -, -, heq⟩⟩
    · rcases hig with hig | hig
      · exact hig hown
      · cases hig.symm.trans hl
    all_goals
      obtain rfl : found' = found := Option.some.inj (hl'.symm.trans hl)
      rw [heq] at hvotes
    · have hcount : (found'.numAck + 1) % 2 ^ 32 = found'.numAck := by
        simpa [Server.putProposal, hl, Proposal.incrementNumAck] using hvotes
      omega
    · have hcount : (found'.numAck + 1) % 2 ^ 32 = found'.numAck := by
        simpa [Server.putProposal, hl, Proposal.incrementNumAck] using
          congrArg (Option.map Prod.fst) hvotes
      omega
    · simp [Server.eraseProposal, hl] at hvotes
  · intro hnone
    rcases Server.doReceivedAcceptMessage_cases C i now f s with
      ⟨-, heq⟩ | ⟨found, -, hl, -⟩
    · exact harmless_of_record (by rw [heq]) (by rw [heq])
    · cases hnone.symm.trans hl

/-- A DECISION is always pushed. -/
theorem not_harmless_decision : ¬ Harmless s (s.doReceivedDecisionMessage C i now f) := by
  intro h
  have hlen := congrArg List.length h.decided
  simp [Server.doReceivedDecisionMessage, Server.decidedLog, Server.pushDecided,
    Server.record] at hlen

theorem doAsyncPropose_decidedLog (C : Cluster) (i : ℕ) (now : Time) (s : Server) :
    (s.doAsyncPropose C i now).server.decidedLog = s.decidedLog := by
  rcases Server.doAsyncPropose_cases C i now s with ⟨-, h⟩ | ⟨-, -, h⟩ | ⟨-, p, rest, -, h⟩ <;>
    simp [h, Server.decidedLog, Server.record, Server.putProposal]

/-- A DECISION_ACK is counted in asynchronous mode as long as there is an entry. -/
theorem harmless_decisionAck_iff :
    Harmless s (s.doReceivedDecisionAckMessage C i now f) ↔
      C.async = false ∨ s.proposals.lookup f.proposalId = none := by
  constructor
  · intro h
    by_contra hcount
    rcases not_or.1 hcount with ⟨hasync, hentry⟩
    rcases Server.doReceivedDecisionAckMessage_cases C i now f s with
      ⟨hig, -⟩ | ⟨found, -, hl, ⟨-, heq⟩ | ⟨-, -, heq⟩⟩
    · exact hcount hig
    · have hvotes := h.votes f.proposalId
      rw [heq] at hvotes
      have hsame : (found.numDecisionAck + 1) % 2 ^ 32 = found.numDecisionAck := by
        simpa [Server.putProposal, hl, Proposal.incrementNumDecisionAck] using
          congrArg (Option.map Prod.snd) hvotes
      omega
    · -- The entry is pushed, whatever the leader does next.
      have hlen := congrArg List.length h.decided
      rw [heq, doAsyncPropose_decidedLog] at hlen
      simp [Server.decidedLog, Server.pushDecided, Server.record, Server.eraseProposal] at hlen
  · intro hspent
    rcases Server.doReceivedDecisionAckMessage_cases C i now f s with
      ⟨-, heq⟩ | ⟨found, ha, hl, -⟩
    · exact harmless_of_record (by rw [heq]) (by rw [heq])
    · rcases hspent with hsync | hnone
      · cases hsync.symm.trans ha
      · cases hnone.symm.trans hl

/-- The handler of a frame that a server has handled before. -/
theorem harmless_iff_spent {G : World → Choice → Prop} {w : World} (hr : Reachable C G w)
    {task : Task} (hf : f ∈ (w.traces i).filterMap Record.handled?)
    (htask : Server.receiveMessage i now f = some ⟨now, .server i task⟩) :
    Harmless (w.servers i) (Server.run C i now task (w.servers i)) ↔ Spent C f (w.servers i) := by
  rcases List.mem_filterMap.1 hf with ⟨r, hrec, hframe⟩
  have hok := (sound hr).records i r hrec
  cases r with
  | handledProposal g =>
      obtain rfl : g = f := Option.some.inj hframe
      have htype : g.messageType = PaxosFrame.PROPOSAL := (hok : ProposalAt C w.traces i g).type
      rw [Server.receiveMessage_proposal htype] at htask
      cases htask
      exact iff_of_true harmless_proposal (.inl htype)
  | handledAccept g =>
      obtain rfl : g = f := Option.some.inj hframe
      have hat : AcceptAt w.traces i g := hok
      have htype := hat.type
      rw [Server.receiveMessage_accept htype] at htask
      cases htask
      refine (harmless_accept_iff hat.eq.symm).trans ?_
      simp [Spent, htype, PaxosFrame.PROPOSAL, PaxosFrame.ACCEPT,
        PaxosFrame.DECISION_ACK]
  | handledDecision g =>
      obtain rfl : g = f := Option.some.inj hframe
      have htype : g.messageType = PaxosFrame.DECISION := (hok : DecisionAt C w.traces i g).type
      rw [Server.receiveMessage_decision htype] at htask
      cases htask
      refine iff_of_false not_harmless_decision ?_
      simp [Spent, htype, PaxosFrame.PROPOSAL, PaxosFrame.ACCEPT, PaxosFrame.DECISION,
        PaxosFrame.DECISION_ACK]
  | handledDecisionAck g =>
      obtain rfl : g = f := Option.some.inj hframe
      have htype : g.messageType = PaxosFrame.DECISION_ACK :=
        (hok : DecisionAckAt w.traces i g).type
      rw [Server.receiveMessage_decisionAck htype] at htask
      cases htask
      refine harmless_decisionAck_iff.trans ?_
      simp [Spent, htype, PaxosFrame.PROPOSAL, PaxosFrame.ACCEPT,
        PaxosFrame.DECISION_ACK]
  | _ =>
      cases hframe

end Again

/-! ## Runs without second votes and second DECISIONs -/

/-- What a call of server `i` brings is new: a request that no server has queued, a vote of a
server that has not voted for the id, or one that comes after the DECISION, and a DECISION for an
id that the server has handled no DECISION for. -/
def World.First (C : Cluster) (w : World) (i : ℕ) : Task → Prop
  | .createProposalFromRequest r =>
      ∀ j < C.numNodes, ∀ q ∈ (w.traces j).queued, q.timestamp ≠ r.timestamp
  | .doReceivedAcceptMessage f =>
      f.acceptorId ∈ (w.traces i).acceptors f.proposalId →
        f.proposalId ∈ (w.traces i).decisions.map PaxosFrame.proposalId
  | .doReceivedDecisionMessage f =>
      f.proposalId ∉ (w.traces i).handledDecisions.map PaxosFrame.proposalId
  | _ => True

instance (C : Cluster) (w : World) (i : ℕ) (task : Task) : Decidable (w.First C i task) :=
  match task with
  | .createProposalFromRequest r =>
      inferInstanceAs
        (Decidable (∀ j < C.numNodes, ∀ q ∈ (w.traces j).queued, q.timestamp ≠ r.timestamp))
  | .doReceivedAcceptMessage f =>
      inferInstanceAs (Decidable (f.acceptorId ∈ (w.traces i).acceptors f.proposalId →
        f.proposalId ∈ (w.traces i).decisions.map PaxosFrame.proposalId))
  | .doReceivedDecisionMessage f =>
      inferInstanceAs
        (Decidable (f.proposalId ∉ (w.traces i).handledDecisions.map PaxosFrame.proposalId))
  | .startApplication | .stopApplication | .startListenerThread | .startProposerThread
  | .startAcceptorThread | .doSyncPropose | .doAsyncPropose | .doReceivedProposalMessage _
  | .sendAcceptMessage _ | .doReceivedDecisionAckMessage _ => isTrue trivial

/-- Frames may be delayed, reordered, lost and duplicated, but every call brings something new. -/
def onlyFirst (C : Cluster) (w : World) (_ : Choice) : Prop :=
  match pop w.events with
  | some (⟨_, .server i task⟩, _) => w.First C i task
  | _ => True

instance (C : Cluster) (w : World) (c : Choice) : Decidable (onlyFirst C w c) :=
  match h : pop w.events with
  | some (⟨_, .server i task⟩, _) => decidable_of_iff (w.First C i task) (by simp [onlyFirst, h])
  | some (⟨_, .clientStart _⟩, _) => isTrue (by simp [onlyFirst, h])
  | some (⟨_, .sendRequest _⟩, _) => isTrue (by simp [onlyFirst, h])
  | some (⟨_, .transit _ _⟩, _) => isTrue (by simp [onlyFirst, h])
  | none => isTrue (by simp [onlyFirst, h])

theorem onlyFirst_of_pop {C : Cluster} {w : World} {c : Choice} {now : Time} {i : ℕ} {task : Task}
    {rest : List Event} (h : onlyFirst C w c)
    (hpop : pop w.events = some (⟨now, .server i task⟩, rest)) : w.First C i task := by
  simpa [onlyFirst, hpop] using h

/-- What a record says when every call brought something new. -/
structure Singles (C : Cluster) (tr : Trace) : Prop where
  undecided : ∀ x, x ∉ tr.decisions.map PaxosFrame.proposalId → (tr.acceptors x).Nodup
  majority : ∀ d ∈ tr.decisions, C.numNodes < 2 * ((tr.acceptors d.proposalId).toFinset.card + 1)
  learned : (tr.handledDecisions.map PaxosFrame.proposalId).Nodup

namespace Singles

variable {C : Cluster} {tr tr' : Trace} {f : PaxosFrame}

theorem init (C : Cluster) : Singles C [] := by
  refine ⟨fun _ _ => List.nodup_nil, ?_, List.nodup_nil⟩
  intro d hd
  cases hd

theorem of_eq (h : Singles C tr) (hacc : tr'.handledAccepts = tr.handledAccepts)
    (hdec : tr'.decisions = tr.decisions) (hlearn : tr'.handledDecisions = tr.handledDecisions) :
    Singles C tr' := by
  have hvotes : ∀ x, tr'.acceptors x = tr.acceptors x := by
    intro x
    rw [Trace.acceptors, hacc, Trace.acceptors]
  refine ⟨?_, ?_, ?_⟩
  · intro x hx
    rw [hdec] at hx
    rw [hvotes]
    exact h.undecided x hx
  · intro d hd
    rw [hdec] at hd
    rw [hvotes]
    exact h.majority d hd
  · rw [hlearn]
    exact h.learned

/-- A server votes for the first time, or too late to be of consequence. -/
theorem vote (h : Singles C tr)
    (hfirst : f.acceptorId ∈ tr.acceptors f.proposalId →
      f.proposalId ∈ tr.decisions.map PaxosFrame.proposalId) :
    Singles C (tr ++ [.handledAccept f]) := by
  have hdec : Trace.decisions (tr ++ [.handledAccept f]) = tr.decisions := by
    simp
  have hother : ∀ x, x ≠ f.proposalId →
      Trace.acceptors (tr ++ [.handledAccept f]) x = tr.acceptors x :=
    fun x hx => Trace.acceptors_of_other (by simpa using hx.symm)
  refine ⟨?_, ?_, ?_⟩
  · intro x hx
    rw [hdec] at hx
    have hold := h.undecided x hx
    by_cases hxf : x = f.proposalId
    · subst hxf
      rw [Trace.acceptors_append, ← List.concat_eq_append]
      exact hold.concat (fun hmem => hx (hfirst hmem))
    · rw [hother x hxf]
      exact hold
  · intro d hd
    rw [hdec] at hd
    have hold := h.majority d hd
    by_cases hdf : d.proposalId = f.proposalId
    · rw [hdf] at hold ⊢
      have hsub : (tr.acceptors f.proposalId).toFinset ⊆
          (Trace.acceptors (tr ++ [.handledAccept f]) f.proposalId).toFinset := by
        rw [Trace.acceptors_append, List.toFinset_append]
        exact Finset.subset_union_left
      have hcard := Finset.card_le_card hsub
      omega
    · rw [hother _ hdf]
      exact hold
  · simpa [List.filterMap_cons] using h.learned

/-- A DECISION is broadcast. -/
theorem announce (h : Singles C tr) {d : PaxosFrame} (hnodup : (tr.acceptors d.proposalId).Nodup)
    (hhalf : C.numNodes / 2 < 1 + (tr.acceptors d.proposalId).length) :
    Singles C (tr ++ [.decision d]) := by
  have hvotes : ∀ x, Trace.acceptors (tr ++ [.decision d]) x = tr.acceptors x :=
    fun x => Trace.acceptors_of_other (by simp)
  have hdec : Trace.decisions (tr ++ [.decision d]) = tr.decisions ++ [d] := by
    simp
  refine ⟨?_, ?_, ?_⟩
  · intro x hx
    rw [hvotes]
    refine h.undecided x ?_
    intro hmem
    exact hx (by rw [hdec, List.map_append]; exact List.mem_append_left _ hmem)
  · intro d' hd'
    rw [hdec] at hd'
    rw [hvotes]
    rcases List.mem_append.1 hd' with hd' | hd'
    · exact h.majority d' hd'
    · obtain rfl : d' = d := List.mem_singleton.1 hd'
      rw [List.toFinset_card_of_nodup hnodup]
      omega
  · simpa [List.filterMap_cons] using h.learned

/-- A DECISION is handled. -/
theorem learn (h : Singles C tr)
    (hfirst : f.proposalId ∉ tr.handledDecisions.map PaxosFrame.proposalId) :
    Singles C (tr ++ [.handledDecision f]) := by
  have hlearn : Trace.handledDecisions (tr ++ [.handledDecision f]) =
      tr.handledDecisions ++ [f] := by
    simp
  have hdec : Trace.decisions (tr ++ [.handledDecision f]) = tr.decisions := by
    simp [List.filterMap_cons]
  have hvotes : ∀ x, Trace.acceptors (tr ++ [.handledDecision f]) x = tr.acceptors x :=
    fun x => Trace.acceptors_of_other (by simp)
  refine ⟨?_, ?_, ?_⟩
  · intro x hx
    rw [hdec] at hx
    rw [hvotes]
    exact h.undecided x hx
  · intro d hd
    rw [hdec] at hd
    rw [hvotes]
    exact h.majority d hd
  · rw [hlearn, List.map_append, List.map_singleton, ← List.concat_eq_append]
    exact h.learned.concat hfirst

end Singles

section Runs

variable {C : Cluster} {G : World → Choice → Prop} {w w' : World} {c : Choice}

/-- Every request queued was new. -/
theorem queuedDistinct_of_onlyFirst (hG : ∀ w c, G w c → onlyFirst C w c)
    (hr : Reachable C G w) : w.QueuedDistinct := by
  refine Transition.Reachable.invariant (P := World.QueuedDistinct) ?_ ?_ hr
  · refine ⟨fun _ => List.nodup_nil, ?_⟩
    intro i j r hr
    cases hr
  · intro w c w' hr hw hg hstep
    rcases step_spec hstep with ⟨e, rest, hs⟩
    have hsplit : ∀ i, (w'.traces i).queued = (w.traces i).queued ++ (newLines C w e i).queued := by
      intro i
      rw [hs.traces, Trace.queued, List.filterMap_append]
    -- A new line comes from a call that brought a new request.
    have hcall : ∀ i, ∀ r ∈ (newLines C w e i).queued,
        (newLines C w e i).queued = [r] ∧ e.action = .server i (.createProposalFromRequest r) := by
      intro i r hmem
      have hsub := newLines_queued C w e i
      have hsome := Option.mem_toList.1 (hsub.subset hmem)
      constructor
      · rw [hsome] at hsub
        rcases List.sublist_singleton.1 hsub with hnil | heq
        · rw [hnil] at hmem
          cases hmem
        · exact heq
      · rcases eq_server_of_atServer (Option.isSome_iff_exists.2 ⟨r, hsome⟩) with ⟨t, ht, hcreate⟩
        rw [ht]
        cases t <;> simp at hcreate
        rw [ht] at hsome
        simpa [Callback.atServer] using hsome
    have hnew : ∀ i, ∀ r ∈ (newLines C w e i).queued, ∀ j, ∀ q ∈ (w.traces j).queued,
        q.timestamp ≠ r.timestamp := by
      intro i r hmem j q hq
      rcases e with ⟨now, action⟩
      obtain rfl : action = .server i (.createProposalFromRequest r) := (hcall i r hmem).2
      have hj : j < C.numNodes := by
        rcases List.mem_filterMap.1 hq with ⟨l, hl, -⟩
        exact lt_of_mem_trace hr hl
      exact onlyFirst_of_pop (hG w c hg) hs.pop j hj q hq
    constructor
    · intro i
      rw [hsplit, List.map_append]
      refine List.nodup_append.2 ⟨hw.nodup i, ?_, ?_⟩
      · cases hl : (newLines C w e i).queued with
        | nil =>
            exact List.nodup_nil
        | cons r l =>
            have hsingle := (hcall i r (by rw [hl]; exact List.mem_cons_self)).1
            rw [← hl, hsingle]
            exact List.nodup_singleton _
      · rintro a ha b hb rfl
        rcases List.mem_map.1 ha with ⟨q, hq, rfl⟩
        rcases List.mem_map.1 hb with ⟨r, hr', hrq⟩
        exact hnew i r hr' i q hq hrq.symm
    · intro i j r hri r' hrj ht
      rw [hsplit] at hri hrj
      rcases List.mem_append.1 hri with hri | hri
      · rcases List.mem_append.1 hrj with hrj | hrj
        · exact hw.unique i j r hri r' hrj ht
        · exact absurd ht (hnew j r' hrj i r hri)
      · rcases List.mem_append.1 hrj with hrj | hrj
        · exact absurd ht.symm (hnew i r hri j r' hrj)
        · -- One call serves one server.
          have hi := (hcall i r hri).2
          rw [(hcall j r' hrj).2] at hi
          cases hi
          rfl

/-- A vote and a DECISION are first ones for the state in which they are counted. -/
theorem singles (hG : ∀ w c, G w c → onlyFirst C w c) (hr : Reachable C G w) (i : ℕ) :
    Singles C (w.traces i) := by
  have hd : w.QueuedDistinct := queuedDistinct_of_onlyFirst hG hr
  refine (change_invariant (Q := World.QueuedDistinct)
    (P := fun i s => (Announced i s ∧ Counters C i s) ∧ Singles C s.trace)
    (fun _ _ _ _ => QueuedDistinct.of_step)
    (fun i => ⟨⟨Announced.init i, Counters.init C i⟩, Singles.init C⟩) ?_ hr hd i).2
  intro w₀ c w i now task s s' hturn hpre₀ hpre hled hs hc
  rcases hs with ⟨⟨hann, hcount⟩, hs⟩
  have hcount' := hcount.change hturn hpre₀ hpre hled hann hc
  refine ⟨⟨hann.change hturn hpre₀ hpre hled hc, hcount'⟩, ?_⟩
  have hfirst : w₀.First C i task := by
    rcases hturn.spec with ⟨rest, hspec⟩
    exact onlyFirst_of_pop (hG w₀ c hturn.guard) hspec.pop
  -- What was handled before this call is what was handled before this vote.
  have hvote : ∀ f, task = .doReceivedAcceptMessage f →
      s.trace ++ [.handledAccept f] <+: w.traces i → Singles C (s.trace ++ [.handledAccept f]) := by
    rintro f rfl hgrow
    refine hs.vote ?_
    intro hmem
    have hsame := hturn.line_once (p := Record.handledAccept?)
      (fun r hr => by cases r <;> simp [Record.IsLine] at hr ⊢) rfl hpre₀ hgrow
    rw [Trace.acceptors, Trace.handledAccepts, hsame] at hmem
    exact ((hpre₀.filterMap Record.decision?).map PaxosFrame.proposalId).subset (hfirst hmem)
  -- The vote that completes a majority is followed by the DECISION.
  have hmajority : ∀ f found, task = .doReceivedAcceptMessage f →
      s.proposals.lookup f.proposalId = some found → found.Elected C →
      (s.trace ++ [.handledAccept f]) ++ [.decision (decisionFrame now f)] <+: w.traces i →
      Counters C i (((s.record (.handledAccept f)).record
        (.decision (decisionFrame now f))).putProposal f.proposalId (found.elect now)) →
      Singles C ((s.trace ++ [.handledAccept f]) ++ [.decision (decisionFrame now f)]) := by
    intro f found htask hl hel hgrow hcount'
    have hvoted := hvote f htask ((List.prefix_append _ _).trans hgrow)
    have hopen : f.proposalId ∉
        (Trace.decisions (s.trace ++ [.handledAccept f])).map PaxosFrame.proposalId := by
      simpa using hann.undecided _ _ hl hel.2
    have hhalf := hcount'.decision (decisionFrame now f) (by simp [Server.record, Server.putProposal])
    refine hvoted.announce (hvoted.undecided _ hopen) ?_
    simpa [Server.record, Server.putProposal, Trace.acceptors, List.filterMap_cons] using hhalf
  cases hc with
  | @ignoreVote _ f =>
      exact hvote f rfl hpre
  | @vote _ f =>
      exact hvote f rfl hpre
  | @elect _ f found _ hl hel =>
      exact hmajority f found rfl hl hel hpre hcount'
  | @decide _ f found _ hl hel =>
      have hbefore := hcount.elected now hann (hturn.accept_proposed hpre₀).2 hl hel
      have hgrow : (s.trace ++ [.handledAccept f]) ++ [.decision (decisionFrame now f)] <+:
          w.traces i := (List.prefix_append _ _).trans hpre
      refine (hmajority f found rfl hl hel hgrow hbefore).of_eq ?_ ?_ ?_ <;>
        simp [Server.record, Server.pushDecided, Server.eraseProposal, List.filterMap_cons]
  | @learn _ f =>
      have hgrow : s.trace ++ [.handledDecision f] <+: w.traces i :=
        (List.prefix_append _ _).trans hpre
      have hsame := hturn.line_once (p := Record.handledDecision?)
        (fun r hr => by cases r <;> simp [Record.IsLine] at hr ⊢) rfl hpre₀ hgrow
      have hlearn := hs.learn (f := f) (by rw [Trace.handledDecisions, hsame]; exact hfirst)
      refine hlearn.of_eq ?_ ?_ ?_ <;>
        simp [Server.record, Server.pushDecided, List.filterMap_cons]
  | @note _ _ r hr =>
      cases r <;> simp [Record.IsNote] at hr <;>
        exact hs.of_eq (by simp [Server.record]) (by simp [Server.record])
          (by simp [Server.record])
  | _ =>
      refine hs.of_eq ?_ ?_ ?_ <;>
        simp [Server.record, Server.enqueue, Server.propose, Server.storeAccepted,
          Server.putProposal, Server.pushDecided, Server.eraseProposal, Server.stopApplication,
          List.filterMap_cons]

/-- Copies are harmless: one by one, and for what they lead to. -/
structure World.CopiesHarmless (C : Cluster) (w : World) : Prop where
  harmless : ∀ i f now task, f ∈ (w.traces i).filterMap Record.handled? →
    Server.receiveMessage i now f = some ⟨now, .server i task⟩ →
    Harmless (w.servers i) (Server.run C i now task (w.servers i))
  decision : ∀ i, ∀ d ∈ (w.traces i).decisions, w.HasQuorum C i d
  once : ∀ i, ((w.servers i).decidedLog.map Proposal.proposalId).Nodup

/-- In every reachable state a second copy of a frame is harmless exactly when it is spent; and in
every run in which no call brings a vote or a DECISION for the second time, a DECISION has a
majority of servers behind it and no id is decided twice by a server. -/
theorem copies_harmless_when (C : Cluster) (w : World) :
    (Reachable C anyNetwork w → ∀ i f now task, f ∈ (w.traces i).filterMap Record.handled? →
      Server.receiveMessage i now f = some ⟨now, .server i task⟩ →
      (Harmless (w.servers i) (Server.run C i now task (w.servers i)) ↔
        Spent C f (w.servers i))) ∧
    (Reachable C (onlyFirst C) w →
      (∀ i, ∀ d ∈ (w.traces i).decisions, w.HasQuorum C i d) ∧
        ∀ i, ((w.servers i).decidedLog.map Proposal.proposalId).Nodup) := by
  constructor
  · intro hr i f now task hf htask
    exact harmless_iff_spent hr hf htask
  · intro hr
    have hd : w.QueuedDistinct := queuedDistinct_of_onlyFirst (fun _ _ h => h) hr
    have hsingles := singles (fun _ _ h => h) hr
    constructor
    · intro i d hdec
      refine hasQuorum_of_majority hr hd hdec ⟨?_, ?_, (hsingles i).majority d hdec⟩
      · intro hmem
        exact (acceptor_ne hr (List.mem_toFinset.1 hmem)).1 rfl
      · intro a ha
        exact (acceptor_ne hr (List.mem_toFinset.1 ha)).2
    · intro i
      exact decided_nodup hr hd (hsingles i).learned

end Runs

/-- The PROPOSAL for server 1 is copied; its second ACCEPT finds the proposal decided. -/
theorem copies_harmless_two_servers :
    ∃ w, Reachable (.oneClient 2 (by decide) false 0 10 200 3 5 0)
        (onlyFirst (.oneClient 2 (by decide) false 0 10 200 3 5 0)) w ∧
      ((w.traces 0).acceptors 2).length = 2 ∧ (w.traces 0).decisions ≠ [] ∧
      (∀ i, ∀ d ∈ (w.traces i).decisions,
        w.HasQuorum (.oneClient 2 (by decide) false 0 10 200 3 5 0) i d) ∧
      ∀ i, ((w.servers i).decidedLog.map Proposal.proposalId).Nodup := by
  have hrun := exists_reachable_of_runInputs
    (S := program (.oneClient 2 (by decide) false 0 10 200 3 5 0))
    (G := onlyFirst (.oneClient 2 (by decide) false 0 10 200 3 5 0))
    (List.replicate 15 ({} : Choice) ++ [{ fate := .duplicate 0 3 }] ++
      List.replicate 20 ({} : Choice))
    (fun w => ((w.traces 0).acceptors 2).length = 2 ∧ (w.traces 0).decisions ≠ [])
    (by decide +kernel)
  rcases hrun with ⟨w, hr, htest⟩
  rcases of_decide_eq_true htest with ⟨hvotes, hdec⟩
  exact ⟨w, hr, hvotes, hdec,
    (copies_harmless_when (.oneClient 2 (by decide) false 0 10 200 3 5 0) w).2 hr⟩

/-- Of five servers only server 1 receives the PROPOSAL.  Its ACCEPT is copied, which completes a
majority, and then the DECISION is copied, which is pushed twice. -/
theorem copies_do_harm :
    ∃ w, Reachable (.oneClient 5 (by decide) false 0 10 200 3 5 0) noRequestCopies w ∧
      w.DistinctTimestamps ∧
      (∃ d ∈ (w.traces 0).decisions,
        ¬ w.HasQuorum (.oneClient 5 (by decide) false 0 10 200 3 5 0) 0 d) ∧
      ¬ ((w.servers 1).decidedLog.map Proposal.proposalId).Nodup ∧
      ¬ w.CopiesHarmless (.oneClient 5 (by decide) false 0 10 200 3 5 0) := by
  have hrun := exists_reachable_of_runInputs
    (S := program (.oneClient 5 (by decide) false 0 10 200 3 5 0)) (G := noRequestCopies)
    (List.replicate 31 ({} : Choice) ++ List.replicate 3 { fate := .lose } ++
      List.replicate 3 ({} : Choice) ++ [{ fate := .duplicate 0 0 }] ++
      List.replicate 4 ({} : Choice) ++ [{ fate := .duplicate 0 0 }] ++
      List.replicate 3 { fate := .lose } ++ List.replicate 6 ({} : Choice))
    (fun w => (w.traces 0).decisions.map PaxosFrame.proposalId = [2] ∧
      (∀ a : ℕ, a < 5 → a ≠ 1 → ((w.servers a).acceptedProposals.lookup 2).isNone) ∧
      ¬ ((w.servers 1).decidedLog.map Proposal.proposalId).Nodup) (by decide +kernel)
  rcases hrun with ⟨w, hr, htest⟩
  rcases of_decide_eq_true htest with ⟨hids, hnone, htwice⟩
  rcases List.mem_map.1 (hids ▸ List.mem_singleton_self 2) with ⟨d, hd, hid⟩
  refine ⟨w, hr, distinctTimestamps rfl (by decide) hr, ⟨d, hd, ?_⟩, htwice, ?_⟩
  · rintro ⟨S, hmaj, hall⟩
    have hsub : S ⊆ {1} := by
      intro a ha
      rcases hall a ha with ⟨p, hp, -⟩
      rw [hid] at hp
      by_contra hne
      have hone : a ≠ 1 := fun h => hne (Finset.mem_singleton.2 h)
      have hnil := Option.isNone_iff_eq_none.1 (hnone a (hmaj.lt a ha) hone)
      cases hnil.symm.trans hp
    have hcard := Finset.card_le_card hsub
    have hhalf : 5 < 2 * (S.card + 1) := hmaj.half
    simp at hcard
    omega
  · intro h
    exact htwice (h.once 1)

end SyncPaxos
