import SyncPaxos.Run.Rounds

/-!
# Fifo — channels that keep the order

Over channels that keep the order the stages of a frame's way keep it too, so lists can be compared
where `Rounds` compares numbers.  For a server `i` and another server `j`, the PROPOSALs, ACCEPTs
and DECISIONs that `j` has handled from `i` are the first ones that `i` sent to `j`
(`handled_isPrefix`), and the ACCEPTs that `j` has sent to `i` answer the first PROPOSALs of `i`
(`votes_isPrefix`).
-/

namespace SyncPaxos

open DiscreteEvent

variable {C : Cluster} {w w' : World} {c : Choice} {i j : ℕ}

/-! ## On a channel -/

theorem channel_of_sameChannel {packet other : Packet} {f : PaxosFrame}
    (hf : packet.channel? i j = some f) :
    other.channel? i j = if packet.sameChannel other then other.paxos? else none := by
  have hpacket : packet.src = .server i ∧ packet.dst = j := by
    by_cases hsrc : packet.src = .server i <;> by_cases hdst : packet.dst = j <;>
      simp [Packet.channel?, Packet.paxosTo?, hsrc, hdst] at hf ⊢
  rcases hpacket with ⟨hsrc, hdst⟩
  by_cases hs : other.src = .server i <;> by_cases hd : other.dst = j <;>
    simp [Packet.channel?, Packet.paxosTo?, Packet.sameChannel, hsrc, hdst, hs, hd]

/-- The frames on the channel of a packet. -/
theorem filterMap_sameChannel {packet : Packet} {f : PaxosFrame}
    (hf : packet.channel? i j = some f) (l : List Packet) :
    (l.filter packet.sameChannel).filterMap (Packet.channel? i j) =
      l.filterMap (Packet.channel? i j) := by
  rw [List.filterMap_filter]
  refine List.filterMap_congr ?_
  intro other _
  rw [channel_of_sameChannel hf]
  split <;> rfl

/-- What has arrived on a channel is what was sent first. -/
theorem arrivedOn_isPrefix (hr : Reachable C fifo w) (i j : ℕ) :
    w.arrivedOn i j <+: w.sentOn i j := by
  refine Transition.Reachable.invariant (P := fun w => w.arrivedOn i j <+: w.sentOn i j) ?_ ?_ hr
  · exact List.nil_prefix
  · intro w c w' _ hle hg hstep
    rcases step_spec hstep with ⟨e, rest, hs⟩
    have hsent : w.sentOn i j <+: w'.sentOn i j := (step_sent_grows hstep).filterMap _
    have harrived : w'.arrivedOn i j =
        w.arrivedOn i j ++ (taken c e).filterMap (Packet.channel? i j) := by
      rw [World.arrivedOn, hs.arrived, List.filterMap_append, World.arrivedOn]
    -- A step that takes nothing off this channel can only send more on it.
    have hquiet : (taken c e).filterMap (Packet.channel? i j) = [] →
        w'.arrivedOn i j <+: w'.sentOn i j := by
      intro hnil
      rw [harrived, hnil, List.append_nil]
      exact hle.trans hsent
    rcases e with ⟨now, action⟩
    cases action with
    | transit packet hop =>
        have hrule := onTransit_of_pop hs.pop hg
        cases hfate : c.fate with
        | arrive =>
            cases hf : packet.channel? i j with
            | none =>
                exact hquiet (by simp [taken, hfate, hf])
            | some f =>
                have hpaxos : packet.isRequest = false := by
                  rcases packet with ⟨src, dst, payload, sentAt⟩
                  cases payload with
                  | request r =>
                      simp [Packet.channel?, Packet.paxosTo?, Packet.paxos?] at hf
                  | paxos g =>
                      rfl
                -- The network lets a frame arrive only in its turn on the channel.
                have horder := (hrule.2 hpaxos hfate).filterMap (Packet.channel? i j)
                rw [List.filterMap_append, filterMap_sameChannel hf, filterMap_sameChannel hf]
                  at horder
                have htaken : (taken c ⟨now, .transit packet hop⟩) = [packet] := by
                  simp [taken, hfate]
                rw [harrived, htaken]
                exact horder.trans hsent
        | _ =>
            exact hquiet (by simp [taken, hfate])
    | _ =>
        exact hquiet rfl

/-! ## At the receiver -/

/-- A frame that arrived for server `j` came on the channel of its sender. -/
theorem paxosTo_filter_sender (hr : Reachable C fifo w) (i j : ℕ) :
    (w.arrived.filterMap (Packet.paxosTo? j)).filter (fun f => f.sender == i) =
      w.arrivedOn i j := by
  rw [List.filter_filterMap]
  refine List.filterMap_congr ?_
  intro packet hp
  have hmem := arrived_subset_sent hr hp
  cases hf : packet.paxosTo? j with
  | none =>
      simp [Packet.channel?, hf]
  | some f =>
      have hpaxos : packet.paxos? = some f := by
        unfold Packet.paxosTo? at hf
        split at hf
        · exact hf
        · cases hf
      have hsrc := sent_src hr hmem hpaxos
      by_cases hi : f.sender = i <;> simp [Packet.channel?, hf, hsrc, hi, Option.filter]

/-- The frames of one type that server `j` has handled from server `i` are the first ones sent. -/
theorem handled_isPrefix (hr : Reachable C fifo w) (i j : ℕ) (kind : PaxosFrame → Bool) :
    (((w.traces j).filterMap Record.handled?).filter kind).filter (fun f => f.sender == i) <+:
      (w.sentOn i j).filter kind := by
  have hhandled : (w.traces j).filterMap Record.handled? <+:
      w.arrived.filterMap (Packet.paxosTo? j) := ⟨_, receipts hr j⟩
  have hfrom := hhandled.filter (fun f => f.sender == i)
  rw [paxosTo_filter_sender hr] at hfrom
  rw [List.filter_comm]
  exact (hfrom.trans (arrivedOn_isPrefix hr i j)).filter kind

/-- A frame that is no ACCEPT names its sender in its proposer field. -/
theorem filter_sender {l : List PaxosFrame} {K : ℕ} (hK : K ≠ PaxosFrame.ACCEPT)
    (hl : ∀ f ∈ l, f.messageType = K) (i : ℕ) :
    l.filter (fun f => f.sender == i) = l.filter (fun f => f.proposerId == i) := by
  refine List.filter_congr ?_
  intro f hf
  rw [sender_of_not_accept hK (by simpa using hl f hf)]

/-- Frames that are broadcast: what server `j` has handled of them from `i` comes first. -/
theorem broadcast_isPrefix (hr : Reachable C fifo w) {K : ℕ} (hK : K ≠ PaxosFrame.ACCEPT)
    {handled sent : List PaxosFrame}
    (hhandled : ((w.traces j).filterMap Record.handled?).filter (fun f => f.messageType == K) =
      handled)
    (hsent : j ≠ i → j < C.numNodes →
      (w.sentOn i j).filter (fun f => f.messageType == K) = sent)
    (hat : ∀ f ∈ handled, f.messageType = K ∧ j ≠ f.proposerId ∧ j < C.numNodes) :
    handled.filter (fun f => f.proposerId == i) <+: sent := by
  by_cases hij : j ≠ i ∧ j < C.numNodes
  · have hfrom := handled_isPrefix hr i j (fun f => f.messageType == K)
    rw [hhandled, hsent hij.1 hij.2, filter_sender hK (fun f hf => (hat f hf).1)] at hfrom
    exact hfrom
  · -- A server sends no broadcast to itself, and a server outside the cluster gets none.
    have hnil : handled.filter (fun f => f.proposerId == i) = [] := by
      refine List.filter_eq_nil_iff.2 ?_
      intro f hf hi
      have hown : f.proposerId = i := by simpa using hi
      exact hij ⟨fun hji => (hat f hf).2.1 (hji.trans hown.symm), (hat f hf).2.2⟩
    rw [hnil]
    exact List.nil_prefix

theorem handledProposals_isPrefix (hr : Reachable C fifo w) (i j : ℕ) :
    (w.traces j).handledProposals.filter (fun f => f.proposerId == i) <+:
      (w.traces i).proposed := by
  apply broadcast_isPrefix hr (by decide) (handled_proposals hr j) (sentOn_proposals hr)
  intro f hf
  have hat := (sound hr).handledProposal hf
  exact ⟨hat.type, hat.ne, hat.lt⟩

theorem handledDecisions_isPrefix (hr : Reachable C fifo w) (i j : ℕ) :
    (w.traces j).handledDecisions.filter (fun f => f.proposerId == i) <+:
      (w.traces i).decisions := by
  apply broadcast_isPrefix hr (by decide) (handled_decisions hr j) (sentOn_decisions hr)
  intro f hf
  have hat := (sound hr).handledDecision hf
  exact ⟨hat.type, hat.ne, hat.lt⟩

/-! ## The way back -/

/-- The ACCEPTs that a server has sent answer the first PROPOSALs it has handled. -/
theorem acceptsSent_isPrefix {G : World → Choice → Prop} (hr : Reachable C G w) (i j : ℕ) :
    ((w.traces j).acceptsSent.filter (fun f => f.proposerId == i)).map PaxosFrame.proposalId <+:
      ((w.traces j).handledProposals.filter (fun f => f.proposerId == i)).map
        PaxosFrame.proposalId := by
  have hbody : ∀ l : List PaxosFrame, (l.filter (fun f => f.proposerId == i)).map
      PaxosFrame.proposalId =
        ((l.map PaxosFrame.body).filter (fun f => f.proposerId == i)).map
          PaxosFrame.proposalId := by
    intro l
    rw [List.filter_map, List.map_map]
    rfl
  have hanswered : (w.traces j).acceptsSent.map PaxosFrame.body =
      (w.traces j).filterMap Record.answered := List.map_filterMap
  have hpre : (w.traces j).acceptsSent.map PaxosFrame.body <+:
      (w.traces j).handledProposals.map PaxosFrame.body := by
    rw [hanswered]
    exact ⟨_, answers hr j⟩
  rw [hbody, hbody (w.traces j).handledProposals]
  exact (hpre.filter _).map _

theorem handledAccepts_isPrefix (hr : Reachable C fifo w) (i j : ℕ) :
    (w.traces i).handledAccepts.filter (fun f => f.acceptorId == j) <+:
      (w.traces j).acceptsSent.filter (fun f => f.proposerId == i) := by
  have hfrom := handled_isPrefix hr j i PaxosFrame.isAccept
  have hsender : (w.traces i).handledAccepts.filter (fun f => f.sender == j) =
      (w.traces i).handledAccepts.filter (fun f => f.acceptorId == j) := by
    refine List.filter_congr ?_
    intro f hf
    have hyes : f.isAccept = true := by
      simp [PaxosFrame.isAccept, ((sound hr).handledAccept hf).1.type]
    rw [PaxosFrame.sender, if_pos hyes]
  rw [handled_accepts hr, sentOn_accepts hr, hsender] at hfrom
  exact hfrom

/-- The ACCEPTs that a proposer has handled from one server are for its first PROPOSALs. -/
theorem votes_isPrefix (hr : Reachable C fifo w) (i j : ℕ) :
    ((w.traces i).handledAccepts.filter (fun f => f.acceptorId == j)).map
        PaxosFrame.proposalId <+: (w.traces i).proposed.map PaxosFrame.proposalId := by
  apply ((handledAccepts_isPrefix hr i j).map PaxosFrame.proposalId).trans
  apply (acceptsSent_isPrefix hr i j).trans
  exact (handledProposals_isPrefix hr i j).map PaxosFrame.proposalId

end SyncPaxos
