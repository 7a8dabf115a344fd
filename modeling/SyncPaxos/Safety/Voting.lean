import SyncPaxos.Safety.Accounts
import SyncPaxos.Safety.Quorum

/-!
# Voting — from frames that have been delivered to a decision

An entry of `m_proposals` has never counted a majority (`entries`).  So once all votes for a
proposal are in, its proposer has decided it, and once all DECISIONs are in, everybody has.  Which
frames have been delivered is a question for the network; here it is an assumption, `World.Clear`,
about one proposal and two servers.
-/

namespace SyncPaxos

open DiscreteEvent Transition Counting

/-! ## Entries without a majority -/

/-- An entry of `m_proposals` waits for a majority of votes or, once announced, of acks. -/
structure Waits (C : Cluster) (p : Proposal) : Prop where
  votes : p.decisionTime = 0 → p.numAck ≤ C.numNodes / 2
  sync : C.async = false → p.decisionTime = 0
  acks : p.decisionTime ≠ 0 → p.numDecisionAck ≤ C.numNodes / 2

section Entries

variable {C : Cluster} {G : World → Choice → Prop} {w : World}

theorem entries (hn : 2 ≤ C.numNodes) (hr : Reachable C G w) (i : ℕ) :
    ∀ x p, (w.servers i).proposals.lookup x = some p → Waits C p := by
  refine change_invariant (Q := fun _ => True)
    (P := fun _ s => ∀ x p, s.proposals.lookup x = some p → Waits C p)
    (fun _ _ _ _ _ _ => trivial) ?_ ?_ hr trivial i
  · intro _ x p hl
    simp at hl
  · intro w₀ c w i now task s s' hturn _ hpre hled hs hc
    have hpre' : s.trace <+: w.traces i := hc.trace_grows.trans hpre
    have hhalf : 1 ≤ C.numNodes / 2 := by omega
    cases hc with
    | @propose _ _ p rest hw =>
        have hzero : p.decisionTime = 0 := (hled.waiting p (by simp [hw])).1
        refine AList.forall_lookup_insert (P := fun _ => Waits C) ⟨?_, ?_, ?_⟩ hs
        · intro _
          exact hhalf
        · intro _
          exact hzero
        · intro hnz
          exact absurd hzero hnz
    | @vote _ f found _ hl hno =>
        have hfound := hs _ _ hl
        refine AList.forall_lookup_insert (P := fun _ => Waits C) ⟨?_, hfound.sync, hfound.acks⟩ hs
        intro hz
        by_contra hgt
        exact hno ⟨not_le.1 hgt, hz⟩
    | @elect _ f found _ hl hel ha =>
        -- The clock is past zero once anything has been proposed.
        have hpos : 0 < now := by
          rcases (hled.outstanding _ _ hl).origin with ⟨g, hg, -⟩
          exact hturn.pos (List.ne_nil_of_mem (mem_filterMap_mono hpre' hg))
        refine AList.forall_lookup_insert (P := fun _ => Waits C) ⟨?_, ?_, ?_⟩ hs
        · intro hz
          exact absurd hz (Nat.pos_iff_ne_zero.1 hpos)
        · intro hsync
          cases hsync.symm.trans ha
        · intro _
          exact hhalf
    | decide =>
        exact AList.forall_lookup_erase (P := fun _ => Waits C) hs
    | @ack _ f found _ hl hno =>
        have hfound := hs _ _ hl
        have hack := (hled.outstanding _ _ hl).ackTime
        refine AList.forall_lookup_insert (P := fun _ => Waits C) ⟨hfound.votes, hfound.sync, ?_⟩ hs
        intro _
        by_contra hgt
        exact hno ⟨not_le.1 hgt, hack⟩
    | confirm =>
        exact AList.forall_lookup_erase (P := fun _ => Waits C) hs
    | _ =>
        exact hs

end Entries

/-! ## One other server -/

section Other

variable {C : Cluster} {G : World → Choice → Prop} {w : World} {i a x : ℕ}

/-- The PROPOSAL has reached server `a`, the answer is on no way any more: `a` has voted. -/
theorem mem_voters_of_clear (hGa : ∀ w c, G w c → noLossTo a w c)
    (hGi : ∀ w c, G w c → noLossTo i w c) (hr : Reachable C G w)
    (hout : w.Clear a (PaxosFrame.proposalTest i x))
    (hanswer : (w.pending a Task.answering).countP (PaxosFrame.isFor i x) = 0)
    (hback : w.Clear i (PaxosFrame.acceptTest a x)) {f : PaxosFrame}
    (hf : f ∈ (w.traces i).proposed) (hid : f.proposalId = x) (hlt : a < C.numNodes)
    (hne : a ≠ i) : a ∈ w.voters i x := by
  have hsent : 0 < (w.traces i).proposed.countP (fun g => g.proposalId == x) :=
    List.countP_pos_iff.2 ⟨f, hf, by simp [hid]⟩
  have hhandled := proposals_ge hGa hr hout hne hlt
  have hanswers := answers_countP (a := a) (i := i) (x := x) hr
  have hcounted := accepts_ge hGi hr hback
  have hpos : 0 < (w.traces i).handledAccepts.countP (PaxosFrame.isVote a x) := by
    omega
  rw [← count_acceptors] at hpos
  exact List.mem_toFinset.2 (List.count_pos_iff.1 hpos)

/-- The DECISION has reached server `a`. -/
theorem learned_of_clear (hGa : ∀ w c, G w c → noLossTo a w c) (hr : Reachable C G w)
    (hout : w.Clear a (PaxosFrame.decisionTest i x)) {d : PaxosFrame}
    (hd : d ∈ (w.traces i).decisions) (hid : d.proposalId = x) (hlt : a < C.numNodes)
    (hne : a ≠ i) : 0 < (w.traces a).handledDecisions.countP (PaxosFrame.isFor i x) := by
  have hsent : 0 < (w.traces i).decisions.countP (fun g => g.proposalId == x) :=
    List.countP_pos_iff.2 ⟨d, hd, by simp [hid]⟩
  have hhandled := decisions_ge hGa hr hout hne hlt
  omega

/-- What server `a` has learned it has decided. -/
theorem mem_decided_of_learned (hr : Reachable C G w) (hd : w.QueuedDistinct) {d : PaxosFrame}
    (hdec : d ∈ (w.traces i).decisions)
    (hlearned : 0 < (w.traces a).handledDecisions.countP (PaxosFrame.isFor i d.proposalId)) :
    learnedProposal d ∈ (w.traces a).decided := by
  rcases List.countP_pos_iff.1 hlearned with ⟨d', hd', hfor⟩
  have hfor' : d'.proposerId = i ∧ d'.proposalId = d.proposalId := by
    simpa [PaxosFrame.isFor] using hfor
  have hat := (sound hr).handledDecision hd'
  obtain rfl : d' = d := (decision_unique hr hd hat.mem hdec hfor'.2).2
  have hmap : learnedProposal d' ∈ (w.traces a).handledDecisions.map learnedProposal :=
    List.mem_map_of_mem hd'
  rw [World.traces, ← (kept hr a).learned] at hmap
  exact (List.mem_filter.1 hmap).1

end Other

/-! ## All other servers -/

section All

variable {C : Cluster} {G : World → Choice → Prop} {w : World} {F : Finset ℕ} {i x : ℕ}

/-- All live servers together are a majority. -/
theorem half_lt_of_live {S : Finset ℕ} (hF : 2 * F.card < C.numNodes) (hlt : i < C.numNodes)
    (hi : i ∉ F) (hS : ∀ a < C.numNodes, a ∉ F → a ≠ i → a ∈ S) :
    C.numNodes / 2 < 1 + S.card := by
  have hsub : (Finset.range C.numNodes \ F).erase i ⊆ S := by
    intro a ha
    have ha' : a ≠ i ∧ a < C.numNodes ∧ a ∉ F := by simpa using ha
    exact hS a ha'.2.1 ha'.2.2 ha'.1
  have hcard := Finset.card_le_card hsub
  have hmem : i ∈ Finset.range C.numNodes \ F := by
    simpa using ⟨hlt, hi⟩
  have hdiff := Finset.le_card_sdiff F (Finset.range C.numNodes)
  rw [Finset.card_erase_of_mem hmem] at hcard
  rw [Finset.card_range] at hdiff
  omega

/-- No proposal is outstanding that a majority has voted for. -/
theorem decisionTime_of_voters (hG : NoCopies G w) (hn : 2 ≤ C.numNodes) (hr : Reachable C G w)
    (hd : w.QueuedDistinct) {p : Proposal} (hl : (w.servers i).proposals.lookup x = some p)
    (hvotes : C.numNodes / 2 < 1 + (w.voters i x).card) : p.decisionTime ≠ 0 := by
  intro hzero
  have hcount := (numAck_eq_card hG hr hd hl).1
  have hfew := (entries hn hr i x p hl).votes hzero
  omega

/-- What a server proposed and does not hold any more it has decided. -/
theorem own_decided (hr : Reachable C G w) (hd : w.QueuedDistinct) {f : PaxosFrame}
    (hf : f ∈ (w.traces i).proposed) (hnone : (w.servers i).proposals.lookup f.proposalId = none) :
    ∃ q ∈ (w.traces i).decided, q.key = f.key ∧ q.nodeId = i := by
  have hmem := (accounts hr hd i).mem_iff.1 (List.mem_map_of_mem hf)
  rcases List.mem_append.1 hmem with hmem | hmem
  · rcases List.mem_map.1 hmem with ⟨q, hq, hkey⟩
    have hq' : q ∈ (w.traces i).decided ∧ q.nodeId = i := by
      simpa [ownDecided, World.traces] using hq
    exact ⟨q, hq'.1, hkey, hq'.2⟩
  · rcases List.mem_map.1 hmem with ⟨q, hq, hkey⟩
    rcases AList.mem_values.1 hq with ⟨y, hy⟩
    have hid : y = f.proposalId :=
      ((ledger hr i).outstanding y q hy).id.symm.trans (congrArg Prod.fst hkey)
    rw [hid, hnone] at hy
    cases hy

/-- In synchronous mode a proposer has decided what it has announced. -/
theorem mem_ownDecided_sync (hr : Reachable C G w) (hd : w.QueuedDistinct) (hn : 2 ≤ C.numNodes)
    (hsync : C.async = false) {key : ℕ × ℕ} :
    key ∈ (ownDecided i (w.traces i).decided).map Proposal.key ↔
      key ∈ (w.traces i).decisions.map PaxosFrame.key := by
  constructor
  · intro hkey
    rcases List.mem_map.1 hkey with ⟨q, hq, rfl⟩
    have hq' : q ∈ (w.traces i).decided ∧ q.nodeId = i := by
      simpa [ownDecided] using hq
    rcases decided_by_decision hr hd hq'.1 with ⟨d, hdec, hdkey, -⟩
    rw [hq'.2] at hdec
    exact List.mem_map.2 ⟨d, hdec, hdkey⟩
  · intro hkey
    rcases List.mem_map.1 hkey with ⟨d, hdec, rfl⟩
    rcases (sound hr).decision_origin hdec with ⟨-, -, g, hg, hid, hval, -⟩
    have hnone : (w.servers i).proposals.lookup g.proposalId = none := by
      cases hl : (w.servers i).proposals.lookup g.proposalId with
      | none =>
          rfl
      | some p =>
          -- An entry would have a decision time, but in this mode none has.
          have hzero := (entries hn hr i _ p hl).sync hsync
          have hno := (announced hr hd i).undecided _ p hl hzero
          exact absurd (List.mem_map.2 ⟨d, hdec, hid⟩) hno
    rcases own_decided hr hd hg hnone with ⟨q, hq, hqkey, hnode⟩
    have hown : q ∈ ownDecided i (w.traces i).decided := by
      simpa [ownDecided] using And.intro hq hnode
    exact List.mem_map.2 ⟨q, hown, hqkey.trans (Prod.ext hid.symm hval.symm)⟩

end All

end SyncPaxos
