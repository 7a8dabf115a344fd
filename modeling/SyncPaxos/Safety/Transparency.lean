import SyncPaxos.Run.Stamps
import SyncPaxos.Safety.Frames
import SyncPaxos.Safety.Ids
import SyncPaxos.Safety.RoundTrip

/-!
# Transparency — the codec does not show while a double can count the time

The model hands frames over as values.  A buffer would round a time with more than 53 significant
bits, but no frame carries a time that is later than now (`inRange_of_frameAt`): up to `2 ^ 53`
nanoseconds whatever a run sends arrives as it was sent.
-/

namespace SyncPaxos

open DiscreteEvent Rounding Transition

/-- The fields of a frame that a run of the cluster has made by the time `now`. -/
structure PaxosFrame.InRange (C : Cluster) (now : Time) (f : PaxosFrame) : Prop where
  proposerId : f.proposerId < C.numNodes
  acceptorId : f.acceptorId < C.numNodes
  proposalId : f.proposalId ≤ now
  value : IsU32 f.value
  proposeTime : f.proposeTime ≤ now
  acceptTime : f.acceptTime ≤ now
  decisionTime : f.decisionTime ≤ now

/-- The values that the clients have drawn are 32-bit numbers. -/
def World.SmallValues (w : World) : Prop := ∀ r ∈ w.requests, IsU32 r.value

section InRange

variable {C : Cluster} {G : World → Choice → Prop} {w : World} {i : ℕ} {f : PaxosFrame}

/-- A request that has been queued is one that a client sent before. -/
theorem queued_inRange (hr : Reachable C G w) (hvalues : w.SmallValues) {r : RequestFrame}
    (hq : r ∈ (w.traces i).queued) : r.timestamp ≤ w.now ∧ IsU32 r.value := by
  constructor
  · exact (Nat.le_add_right _ _).trans (queued_age hr i r hq)
  · have hok : RecordOk C w.traces w.sent i (.queued r) :=
      (sound hr).records i _ (Trace.mem_queued.1 hq)
    rcases hok with ⟨k, -, hsent⟩
    exact hvalues r (List.mem_filterMap.2 ⟨_, hsent, rfl⟩)

/-- A PROPOSAL carries the id and the value of a request, and one time. -/
theorem proposed_inRange (hr : Reachable C G w) (hvalues : w.SmallValues)
    (hf : f ∈ (w.traces i).proposed) : f.InRange C w.now := by
  have hi : i < C.numNodes := lt_of_mem_proposed hr hf
  have hkey : f.key ∈ (w.traces i).queued.map RequestFrame.key := by
    rw [World.traces, ← (ledger hr i).queue]
    exact List.mem_append_left _ (List.mem_map_of_mem hf)
  rcases List.mem_map.1 hkey with ⟨r, hq, heq⟩
  rcases queued_inRange hr hvalues hq with ⟨htimestamp, hvalue⟩
  have hid : r.timestamp = f.proposalId := congrArg Prod.fst heq
  have hval : r.value = f.value := congrArg Prod.snd heq
  rcases traces_line hr i _ (Trace.mem_proposed.1 hf) with ⟨t, ht, hline⟩
  cases hline with
  | proposed p =>
      exact ⟨hi, Nat.zero_lt_of_lt hi, hid ▸ htimestamp, hval ▸ hvalue, ht, Nat.zero_le _,
        Nat.zero_le _⟩
  | timeless hat =>
      have hzero : f.proposeTime = 0 := (hat 0).2
      cases hzero.symm.trans (hat 1).2

theorem handledProposal_inRange (hr : Reachable C G w) (hvalues : w.SmallValues)
    (hf : f ∈ (w.traces i).handledProposals) : f.InRange C w.now :=
  proposed_inRange hr hvalues ((sound hr).handledProposal hf).mem

/-- An ACCEPT adds its sender and the time to the PROPOSAL. -/
theorem acceptSent_inRange (hr : Reachable C G w) (hvalues : w.SmallValues)
    (hf : f ∈ (w.traces i).acceptsSent) : f.InRange C w.now := by
  have hline : .acceptSent f ∈ w.traces i := Trace.mem_acceptsSent.1 hf
  have hi : i < C.numNodes := lt_of_mem_trace hr hline
  rcases (sound hr).acceptSent hf with ⟨g, hg, t, rfl⟩
  have hrange := handledProposal_inRange hr hvalues hg
  rcases traces_at hr i _ hline with ⟨t', ht', hat⟩
  obtain rfl : t = t' := Option.some.inj hat
  exact ⟨hrange.proposerId, hi, hrange.proposalId, hrange.value, hrange.proposeTime, ht',
    hrange.decisionTime⟩

/-- A DECISION adds the time to the ACCEPT. -/
theorem decision_inRange (hr : Reachable C G w) (hvalues : w.SmallValues)
    (hf : f ∈ (w.traces i).decisions) : f.InRange C w.now := by
  have hline : .decision f ∈ w.traces i := Trace.mem_decisions.1 hf
  have hok : RecordOk C w.traces w.sent i (.decision f) := (sound hr).records i _ hline
  rcases hok with ⟨g, hg, -, t, rfl⟩
  have hat : AcceptAt w.traces i g := (sound hr).records i _ (Trace.mem_handledAccepts.1 hg)
  have hrange := acceptSent_inRange hr hvalues hat.mem
  rcases traces_at hr i _ hline with ⟨t', ht', hdated⟩
  obtain rfl : t = t' := hdated.2
  exact ⟨hrange.proposerId, hrange.acceptorId, hrange.proposalId, hrange.value,
    hrange.proposeTime, hrange.acceptTime, ht'⟩

/-- No frame in flight carries a time that is later than now. -/
theorem inRange_of_frameAt (hr : Reachable C G w) (hvalues : w.SmallValues) {src : App}
    (hf : FrameAt C w.traces i f src) : f.InRange C w.now := by
  cases hf with
  | proposal hp =>
      exact proposed_inRange hr hvalues hp.mem
  | accept ha =>
      exact acceptSent_inRange hr hvalues ha.mem
  | decision hd =>
      exact decision_inRange hr hvalues hd.mem
  | decisionAck hk =>
      rcases hk.from_ with ⟨d, hd, heq, -⟩
      have hacker : f.proposerId < C.numNodes :=
        lt_of_mem_trace hr (Trace.mem_handledDecisions.1 hd)
      have hrange := decision_inRange hr hvalues ((sound hr).handledDecision hd).mem
      rw [heq]
      -- The acker takes the place of the proposer, and the later fields are cleared.
      exact ⟨hacker, Nat.zero_lt_of_lt hacker, hrange.proposalId, hrange.value,
        hrange.proposeTime, Nat.zero_le _, Nat.zero_le _⟩

end InRange

/-! ## Frames on the way -/

section Transparency

variable {C : Cluster} {G : World → Choice → Prop} {w : World}

theorem PaxosFrame.InRange.fits {now : Time} {f : PaxosFrame} (h : f.InRange C now)
    (hknown : f.Known) (hnow : now < 2 ^ 53) : f.Fits := by
  have htime : ∀ t : Time, t ≤ now → IsTime t := fun _ ht => (ht.trans_lt hnow).trans (by decide)
  refine ⟨?_, h.proposerId.trans C.numNodes_lt, ?_, h.value, htime _ h.proposeTime,
    h.acceptorId.trans C.numNodes_lt, htime _ h.acceptTime, htime _ h.decisionTime⟩
  · rcases hknown with htype | htype | htype | htype <;> rw [htype] <;> decide
  · exact (htime _ h.proposalId).trans (by decide)

/-- Up to `2 ^ 53` nanoseconds, whatever has been sent crosses a buffer unchanged. -/
theorem sent_round_trips (hr : Reachable C G w) (hvalues : w.SmallValues)
    (hnow : w.now < 2 ^ 53) : ∀ packet ∈ w.sent,
    (∀ r, packet.request? = some r → r.RoundTrips) ∧
      ∀ f, packet.paxos? = some f → f.RoundTrips := by
  have hexact : ∀ t : Time, t ≤ w.now → ExactTime t := fun _ ht =>
    representable_of_lt (ht.trans_lt hnow)
  intro packet hp
  have hsent := sentAt_le_now hr packet hp
  have hj := (sent_justified hr packet hp).2
  rcases packet with ⟨src, dst, payload, sentAt⟩
  cases payload with
  | request r =>
      refine ⟨?_, fun _ h => nomatch h⟩
      intro r' hr'
      obtain rfl : r = r' := Option.some.inj hr'
      have hstamp : r.timestamp ≤ w.now := hj.2 ▸ hsent
      have hfits : r.Fits := by
        refine ⟨(hstamp.trans_lt hnow).trans (by decide), hvalues r ?_⟩
        exact List.mem_filterMap.2 ⟨_, hp, rfl⟩
      exact (RequestFrame.roundTrips_iff hfits).2 (hexact _ hstamp)
  | paxos f =>
      refine ⟨(fun _ h => nomatch h), ?_⟩
      intro f' hf'
      obtain rfl : f = f' := Option.some.inj hf'
      have hrange := inRange_of_frameAt hr hvalues hj
      have hfits := hrange.fits (FrameAt.known hj) hnow
      exact (PaxosFrame.roundTrips_iff hfits).2
        ⟨hexact _ hrange.proposeTime, hexact _ hrange.acceptTime, hexact _ hrange.decisionTime⟩

/-- A run in which a request has been sent, proposed and decided. -/
theorem sent_round_trips_three_servers :
    ∃ w, Reachable (.oneClient 3 (by decide) false 0 10 200 3 5 0) anyNetwork w ∧
      (w.sent.filterMap Packet.paxos?).any PaxosFrame.isDecision = true ∧
      ∀ packet ∈ w.sent, (∀ r, packet.request? = some r → r.RoundTrips) ∧
        ∀ f, packet.paxos? = some f → f.RoundTrips := by
  have hrun := exists_reachable_of_runInputs
    (S := program (.oneClient 3 (by decide) false 0 10 200 3 5 0)) (G := anyNetwork)
    (List.replicate 30 ({} : Choice))
    (fun w => (w.sent.filterMap Packet.paxos?).any PaxosFrame.isDecision = true ∧
      (w.requests.all fun r => r.value < 2 ^ 32) = true ∧ w.now < 2 ^ 53) (by decide +kernel)
  rcases hrun with ⟨w, hr, htest⟩
  rcases of_decide_eq_true htest with ⟨hdecision, hvalues, hnow⟩
  have hsmall : w.SmallValues := by
    intro r hrequest
    exact of_decide_eq_true (List.all_eq_true.1 hvalues r hrequest)
  exact ⟨w, hr, hdecision, sent_round_trips hr hsmall hnow⟩

end Transparency

end SyncPaxos
