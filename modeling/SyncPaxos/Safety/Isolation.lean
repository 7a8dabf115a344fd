import SyncPaxos.Library.Unwinding
import SyncPaxos.Run.Calls
import SyncPaxos.Run.Leader

/-!
# Isolation — proposals do not interfere

In synchronous mode nothing that happens to the frames of one proposal is seen anywhere else.  An
observer who ignores the proposal `x` sees, of each server, what it holds under other ids, what it
has proposed and what waits (`Server.view`), and of the simulator the events that are not about `x`
(`World.view`).  A step about `x` changes nothing of this, and any other step changes it in a way
that depends on nothing else: so two runs whose networks treat only the frames of `x` differently
look the same at every time.
-/

namespace SyncPaxos

open DiscreteEvent Transition

/-! ## What is about a proposal -/

/-- The packet carries a frame of the proposal `x`. -/
def Packet.isAbout (x : ℕ) (packet : Packet) : Bool :=
  packet.paxos?.any (fun f => f.proposalId == x)

def Callback.isAbout (x : ℕ) : Callback → Bool
  | .server _ task => task.frame?.any (fun f => f.proposalId == x)
  | .transit packet _ => packet.isAbout x
  | _ => false

/-- The pending events that are not about `x`. -/
def others (x : ℕ) (es : List Event) : List Event := es.filter (fun e => !e.action.isAbout x)

/-! ## What is seen -/

/-- What is seen of a server by one who ignores a proposal. -/
@[ext]
structure ServerView where
  proposePeriod : Time
  recvSocket : Bool
  listenerSocket : Bool
  proposals : ℕ → Option Proposal
  waitingProposals : List Proposal
  decidedProposalQueue : List Proposal
  proposed : List PaxosFrame

@[ext]
structure WorldView where
  events : List Event
  servers : ℕ → ServerView
  clients : ℕ → Client

def Server.view (x : ℕ) (s : Server) : ServerView where
  proposePeriod := s.proposePeriod
  recvSocket := s.recvSocket
  listenerSocket := s.listenerSocket
  proposals := fun y => if y = x then none else s.proposals.lookup y
  waitingProposals := s.waitingProposals
  decidedProposalQueue := s.decidedProposalQueue.filter (fun p => p.proposalId ≠ x)
  proposed := s.trace.proposed

def World.view (x : ℕ) (w : World) : WorldView where
  events := others x w.events
  servers := fun i => (w.servers i).view x
  clients := w.clients

section Server

variable {C : Cluster} {i x y : ℕ} {now : Time} {s t : Server} {task : Task}

/-! ## Views of one server -/

theorem lookup_of_view (h : s.view x = t.view x) (hy : y ≠ x) :
    s.proposals.lookup y = t.proposals.lookup y := by
  have hlookup := congrFun (congrArg ServerView.proposals h) y
  simpa [Server.view, hy] using hlookup

theorem waiting_of_view (h : s.view x = t.view x) : s.waitingProposals = t.waitingProposals :=
  congrArg ServerView.waitingProposals h

/-- The same lines more. -/
theorem proposed_append {tr tr' : Trace} (h : tr.proposed = tr'.proposed) (l : Trace) :
    Trace.proposed (tr ++ l) = Trace.proposed (tr' ++ l) := by
  rw [Trace.proposed, Trace.proposed, List.filterMap_append, List.filterMap_append]
  exact congrArg (· ++ _) h

/-- A line that proposes nothing is not seen. -/
theorem view_record (s : Server) {r : Record} (hr : r.proposed? = none) :
    (s.record r).view x = s.view x := by
  have hproposed : (s.record r).trace.proposed = s.trace.proposed := by
    rw [Server.record, Trace.proposed, List.filterMap_append, List.filterMap_cons, hr]
    exact List.append_nil _
  exact ServerView.ext rfl rfl rfl rfl rfl rfl hproposed

/-- What is seen of the entries, one by one. -/
theorem view_congr (h : s.view x = t.view x) {m m' : ProposalMap}
    (hm : ∀ z, z ≠ x → m.lookup z = m'.lookup z) :
    ({ s with proposals := m } : Server).view x = ({ t with proposals := m' } : Server).view x := by
  have hproposals : (fun z => if z = x then none else m.lookup z) =
      fun z => if z = x then none else m'.lookup z := by
    funext z
    by_cases hz : z = x
    · rw [if_pos hz, if_pos hz]
    · rw [if_neg hz, if_neg hz, hm z hz]
  rcases ServerView.mk.inj h with ⟨hperiod, hrecv, hlistener, -, hwaiting, hdecided, hproposed⟩
  exact ServerView.ext hperiod hrecv hlistener hproposals hwaiting hdecided hproposed

theorem view_putProposal (h : s.view x = t.view x) (p : Proposal) :
    (s.putProposal y p).view x = (t.putProposal y p).view x := by
  apply view_congr h
  intro z hz
  by_cases hzy : z = y
  · rw [hzy, AList.lookup_insert, AList.lookup_insert]
  · rw [AList.lookup_insert_ne hzy, AList.lookup_insert_ne hzy, lookup_of_view h hz]

/-- The entry of `x` is not seen. -/
theorem view_putProposal_self (s : Server) (p : Proposal) :
    (s.putProposal x p).view x = s.view x := by
  apply view_congr (s := s) (t := s) rfl
  intro z hz
  rw [AList.lookup_insert_ne hz]

theorem view_eraseProposal (h : s.view x = t.view x) :
    (s.eraseProposal y).view x = (t.eraseProposal y).view x := by
  apply view_congr h
  intro z hz
  by_cases hzy : z = y
  · rw [hzy, AList.lookup_erase, AList.lookup_erase]
  · rw [AList.lookup_erase_ne hzy, AList.lookup_erase_ne hzy, lookup_of_view h hz]

theorem view_eraseProposal_self (s : Server) : (s.eraseProposal x).view x = s.view x := by
  apply view_congr (s := s) (t := s) rfl
  intro z hz
  rw [AList.lookup_erase_ne hz]

theorem view_pushDecided (h : s.view x = t.view x) (p : Proposal) :
    (s.pushDecided p).view x = (t.pushDecided p).view x := by
  rcases ServerView.mk.inj h with
    ⟨hperiod, hrecv, hlistener, hentries, hwaiting, hdecided, hproposed⟩
  refine ServerView.ext hperiod hrecv hlistener hentries hwaiting ?_ (proposed_append hproposed _)
  change (s.decidedProposalQueue ++ [p]).filter _ = (t.decidedProposalQueue ++ [p]).filter _
  rw [List.filter_append, List.filter_append, hdecided]

theorem view_pushDecided_self (s : Server) {p : Proposal} (hp : p.proposalId = x) :
    (s.pushDecided p).view x = s.view x := by
  refine ServerView.ext rfl rfl rfl rfl rfl ?_ ?_
  · change (s.decidedProposalQueue ++ [p]).filter _ = s.decidedProposalQueue.filter _
    simp [hp]
  · change (s.trace ++ [Record.decided p]).filterMap _ = s.trace.filterMap _
    simp [List.filterMap_cons]

/-! ## What a call shows -/

/-- The two outcomes look the same. -/
def Outcome.SameView (x : ℕ) (out out' : Outcome) : Prop :=
  out.server.view x = out'.server.view x ∧ out.events = out'.events

theorem view_record_congr (h : s.view x = t.view x) {r : Record} (hr : r.proposed? = none) :
    (s.record r).view x = (t.record r).view x := by
  rw [view_record s hr, view_record t hr, h]

theorem doPropose_view (now : Time) (h : s.view x = t.view x) :
    Outcome.SameView x (s.doPropose C i now).2 (t.doPropose C i now).2 := by
  have hwaiting := waiting_of_view h
  cases hw : t.waitingProposals with
  | nil =>
      simp only [Server.doPropose, hwaiting, hw]
      exact ⟨h, rfl⟩
  | cons p rest =>
      have hput := view_putProposal (y := p.proposalId) h (p.propose i now)
      rcases ServerView.mk.inj hput with
        ⟨hperiod, hrecv, hlistener, hentries, -, hdecided, hproposed⟩
      simp only [Server.doPropose, hwaiting, hw]
      exact ⟨ServerView.ext hperiod hrecv hlistener hentries rfl hdecided
        (proposed_append hproposed _), rfl⟩

theorem doSyncPropose_view (h : s.view x = t.view x) :
    Outcome.SameView x (s.doSyncPropose C i now) (t.doSyncPropose C i now) := by
  have hrec := view_record_congr h (r := .syncPropose now) rfl
  have hpropose := doPropose_view (C := C) (i := i) now hrec
  have hperiod : s.proposePeriod = t.proposePeriod := congrArg ServerView.proposePeriod h
  rcases Server.doSyncPropose_cases C i now s with ⟨hlate, hs⟩ | ⟨hnow, hs⟩ <;>
    rcases Server.doSyncPropose_cases C i now t with ⟨hlate', ht⟩ | ⟨hnow', ht⟩
  · rw [hs, ht]
    exact ⟨hrec, rfl⟩
  · -- Both calls compare the same time with the stop time.
    exact absurd hlate (not_le.2 hnow')
  · exact absurd hlate' (not_le.2 hnow)
  · rw [hs, ht, hperiod]
    exact ⟨hpropose.1, congrArg (· ++ _) hpropose.2⟩

theorem doAsyncPropose_view (h : s.view x = t.view x) :
    Outcome.SameView x (s.doAsyncPropose C i now) (t.doAsyncPropose C i now) := by
  have hrec := view_record_congr h (r := .asyncPropose now) rfl
  have hpropose := doPropose_view (C := C) (i := i) now hrec
  have hwaiting := waiting_of_view hrec
  simp only [Server.doAsyncPropose, hwaiting]
  split
  · exact ⟨hrec, rfl⟩
  · split
    · exact hpropose
    · exact ⟨hrec, rfl⟩

theorem doReceivedAcceptMessage_view (h : s.view x = t.view x) {f : PaxosFrame}
    (hf : f.proposalId ≠ x) :
    Outcome.SameView x (s.doReceivedAcceptMessage C i now f)
      (t.doReceivedAcceptMessage C i now f) := by
  have hrec := view_record_congr h (r := .handledAccept f) rfl
  have hlookup := lookup_of_view hrec hf
  have hdec := view_record_congr hrec (r := .decision (decisionFrame now f)) rfl
  -- Both calls find the same entry, and take the same branch.
  simp only [Server.doReceivedAcceptMessage, hlookup]
  split
  · exact ⟨hrec, rfl⟩
  · split
    · exact ⟨hrec, rfl⟩
    · split
      · split
        · exact ⟨view_putProposal hdec _, rfl⟩
        · exact ⟨view_eraseProposal (view_pushDecided hdec _), rfl⟩
      · exact ⟨view_putProposal hrec _, rfl⟩

theorem doReceivedDecisionAckMessage_view (h : s.view x = t.view x) {f : PaxosFrame}
    (hf : f.proposalId ≠ x) :
    Outcome.SameView x (s.doReceivedDecisionAckMessage C i now f)
      (t.doReceivedDecisionAckMessage C i now f) := by
  have hrec := view_record_congr h (r := .handledDecisionAck f) rfl
  have hlookup := lookup_of_view hrec hf
  -- Here too the entry is the same.
  simp only [Server.doReceivedDecisionAckMessage, hlookup]
  split
  · split
    · exact ⟨hrec, rfl⟩
    · split
      · exact doAsyncPropose_view (view_eraseProposal (view_pushDecided hrec _))
      · exact ⟨view_putProposal hrec _, rfl⟩
  · exact ⟨hrec, rfl⟩

/-- What a call that is not about `x` shows depends on what was seen. -/
theorem run_view (now : Time) (h : s.view x = t.view x)
    (htask : (Callback.server i task).isAbout x = false) :
    Outcome.SameView x (Server.run C i now task s) (Server.run C i now task t) := by
  rcases ServerView.mk.inj h with
    ⟨hperiod, hrecv, hlistener, hentries, hwaiting, hdecided, hproposed⟩
  have hframe : ∀ f, task.frame? = some f → f.proposalId ≠ x := by
    intro f hf hx
    simp [Callback.isAbout, hf, hx] at htask
  cases task with
  | startApplication =>
      exact ⟨ServerView.ext rfl rfl hlistener hentries hwaiting hdecided hproposed, rfl⟩
  | stopApplication =>
      exact ⟨ServerView.ext hperiod hrecv hlistener hentries hwaiting rfl hproposed, rfl⟩
  | startListenerThread =>
      exact ⟨ServerView.ext hperiod hrecv rfl hentries hwaiting hdecided hproposed, rfl⟩
  | startProposerThread =>
      have hrec := view_record_congr h (r := .proposerStarted) rfl
      simp only [Server.run, Server.startProposerThread]
      split
      · split
        · exact doAsyncPropose_view hrec
        · exact ⟨hrec, rfl⟩
      · exact ⟨hrec, rfl⟩
  | startAcceptorThread =>
      exact ⟨h, rfl⟩
  | createProposalFromRequest r =>
      have hqueue : s.waitingProposals = t.waitingProposals := hwaiting
      simp only [Server.run, Server.createProposalFromRequest, hqueue]
      split
      · exact ⟨h, rfl⟩
      · exact ⟨ServerView.ext hperiod hrecv hlistener hentries rfl hdecided
          (proposed_append hproposed _), rfl⟩
  | doSyncPropose =>
      exact doSyncPropose_view h
  | doAsyncPropose =>
      exact doAsyncPropose_view h
  | doReceivedProposalMessage f =>
      exact ⟨view_record_congr h (r := .handledProposal f) rfl, rfl⟩
  | sendAcceptMessage f =>
      exact ⟨view_record_congr h (r := .acceptSent (acceptFrame i now f)) rfl, rfl⟩
  | doReceivedAcceptMessage f =>
      exact doReceivedAcceptMessage_view h (hframe f rfl)
  | doReceivedDecisionMessage f =>
      have hrec := view_record_congr h (r := .handledDecision f) rfl
      exact ⟨view_pushDecided hrec _, rfl⟩
  | doReceivedDecisionAckMessage f =>
      exact doReceivedDecisionAckMessage_view h (hframe f rfl)

/-! ## Calls that are not seen -/

theorem others_eq_nil {es : List Event} (h : ∀ e ∈ es, e.action.isAbout x = true) :
    others x es = [] := by
  refine List.filter_eq_nil_iff.2 ?_
  intro e he
  simp [h e he]

theorem isAbout_broadcast {f : PaxosFrame} (hf : f.proposalId = x) {e : Event}
    (he : e ∈ broadcast C i now f) : e.action.isAbout x = true := by
  rcases List.mem_map.1 he with ⟨dst, -, rfl⟩
  simp [sendTo, Callback.isAbout, Packet.isAbout, Packet.paxos?, hf]

/-- In synchronous mode a call that is about `x` shows nothing. -/
theorem run_unseen (now : Time) (hsync : C.async = false) (hled : Ledger i s)
    (htask : (Callback.server i task).isAbout x = true) :
    (Server.run C i now task s).server.view x = s.view x ∧
      others x (Server.run C i now task s).events = [] := by
  have hframe : ∃ f, task.frame? = some f ∧ f.proposalId = x := by
    simpa [Callback.isAbout, Option.any_eq_true] using htask
  rcases hframe with ⟨f, hf, rfl⟩
  cases task with
  | doReceivedProposalMessage g =>
      cases hf
      refine ⟨view_record s (r := .handledProposal f) rfl, others_eq_nil ?_⟩
      intro e he
      rcases List.mem_singleton.1 he with rfl
      simp [Callback.isAbout, Task.frame?]
  | sendAcceptMessage g =>
      cases hf
      refine ⟨view_record s (r := .acceptSent (acceptFrame i now f)) rfl, others_eq_nil ?_⟩
      intro e he
      rcases List.mem_singleton.1 he with rfl
      simp [sendTo, Callback.isAbout, Packet.isAbout, Packet.paxos?, acceptFrame]
  | doReceivedAcceptMessage g =>
      cases hf
      have hrec := view_record (x := f.proposalId) s (r := .handledAccept f) rfl
      simp only [Server.run]
      rcases Server.doReceivedAcceptMessage_cases C i now f s with
        ⟨-, heq⟩ | ⟨found, -, hl, ⟨-, heq⟩ | ⟨-, -, ha, -⟩ | ⟨-, -, -, heq⟩⟩
      · rw [heq]
        exact ⟨hrec, rfl⟩
      · rw [heq]
        exact ⟨(view_putProposal_self _ _).trans hrec, rfl⟩
      · rw [hsync] at ha
        cases ha
      · -- The entry that is decided carries the id it is stored under.
        have hid : (found.elect now).proposalId = f.proposalId := (hled.outstanding _ _ hl).id
        rw [heq]
        refine ⟨?_, others_eq_nil ?_⟩
        · apply (view_eraseProposal_self _).trans
          apply (view_pushDecided_self _ (p := found.elect now) hid).trans
          exact (view_record _ rfl).trans hrec
        · intro e he
          exact isAbout_broadcast (f := decisionFrame now f) rfl he
  | doReceivedDecisionMessage g =>
      cases hf
      refine ⟨?_, ?_⟩
      · exact (view_pushDecided_self _ rfl).trans (view_record s rfl)
      · simp [Server.run, Server.doReceivedDecisionMessage, hsync, others]
  | doReceivedDecisionAckMessage g =>
      cases hf
      -- In synchronous mode a DECISION_ACK is only put on record.
      simp only [Server.run, Server.doReceivedDecisionAckMessage, hsync]
      exact ⟨view_record s rfl, rfl⟩
  | _ =>
      cases hf

end Server

/-! ## What a step shows -/

section Step

variable {C : Cluster} {G : World → Choice → Prop} {w v w' v' : World} {c : Choice} {x : ℕ}

/-- The next event is not about `x`. -/
def World.Low (x : ℕ) (w : World) : Prop :=
  ∀ e rest, pop w.events = some (e, rest) → e.action.isAbout x = false

theorem world_view_ext (hevents : others x w.events = others x v.events)
    (hservers : ∀ i, (w.servers i).view x = (v.servers i).view x) (hclients : w.clients = v.clients) :
    w.view x = v.view x :=
  WorldView.ext hevents (funext hservers) hclients

theorem isAbout_arrival {now : Time} {packet : Packet} (hp : packet.isAbout x = true) {e : Event}
    (he : e ∈ arrivalEvents C w now packet) : e.action.isAbout x = true := by
  rcases mem_arrivalEvents he with ⟨r, hr, -, -, rfl⟩ | ⟨f, task, hf, -, hrecv, rfl⟩
  · simp [Packet.isAbout, Packet.paxos?, hr] at hp
  · have hid : f.proposalId = x := by
      simpa [Packet.isAbout, Packet.paxos?, hf] using hp
    have hframe : task.frame? = some f := by
      cases task <;> simp [Task.frame?] at hrecv ⊢ <;> exact hrecv
    simp [Callback.isAbout, hframe, hid]

theorem arrivalEvents_view (h : w.view x = v.view x) (now : Time) (packet : Packet) :
    arrivalEvents C w now packet = arrivalEvents C v now packet := by
  have hserver : (w.servers packet.dst).view x = (v.servers packet.dst).view x :=
    congrFun (congrArg WorldView.servers h) packet.dst
  have hrecv : (w.servers packet.dst).recvSocket = (v.servers packet.dst).recvSocket :=
    congrArg ServerView.recvSocket hserver
  have hlistener : (w.servers packet.dst).listenerSocket = (v.servers packet.dst).listenerSocket :=
    congrArg ServerView.listenerSocket hserver
  simp only [arrivalEvents, hrecv, hlistener]

/-- A step about `x` is not seen. -/
theorem step_unseen (hsync : C.async = false) (hr : Reachable C G w) (hlow : ¬ w.Low x)
    (hstep : World.step C c w = some w') : w'.view x = w.view x := by
  rcases step_spec hstep with ⟨e, rest, hs⟩
  have habout : e.action.isAbout x = true := by
    by_contra hno
    refine hlow ?_
    intro e' rest' hpop
    rw [hs.pop] at hpop
    cases hpop
    simpa using hno
  have hrest : others x rest = others x w.events :=
    pop_filter_of_not hs.pop (by simp [habout])
  have hevents : others x (emitted C c w e) = [] → others x w'.events = others x w.events := by
    intro hnil
    rw [hs.events, others, List.filter_append]
    rw [others] at hnil hrest
    rw [hnil, hrest, List.append_nil, others]
  rcases e with ⟨now, action⟩
  cases action with
  | server i task =>
      rcases run_unseen now hsync (ledger hr i) habout with ⟨hview, hnil⟩
      have hservers : ∀ j, (w'.servers j).view x = (w.servers j).view x := by
        intro j
        by_cases hj : j = i
        · subst hj
          simpa [hs.servers, serversAfter] using hview
        · simp [hs.servers, serversAfter, Function.update_of_ne hj]
      exact world_view_ext (hevents hnil) hservers hs.clients
  | transit packet hop =>
      have hservers : ∀ j, (w'.servers j).view x = (w.servers j).view x := by
        intro j
        rw [hs.servers, serversAfter]
      refine world_view_ext (hevents (others_eq_nil ?_)) hservers hs.clients
      intro e he
      -- What the network makes of a packet, and what its arrival schedules, is about `x` as well.
      simp only [emitted] at he
      split at he
      · exact isAbout_arrival habout he
      · rcases List.mem_singleton.1 he with rfl
        exact habout
      · simp only [List.mem_cons, List.not_mem_nil, or_false] at he
        rcases he with rfl | rfl <;> exact habout
      · cases he
  | clientStart k =>
      cases habout
  | sendRequest k =>
      cases habout

/-- The next event of two states that look the same. -/
theorem pop_of_view (hw : w.Low x) (hv : v.Low x) (h : w.view x = v.view x) {e e' : Event}
    {rest rest' : List Event} (hpop : pop w.events = some (e, rest))
    (hpop' : pop v.events = some (e', rest')) : e = e' ∧ others x rest = others x rest' := by
  have hothers : others x w.events = others x v.events := congrArg WorldView.events h
  have hseen := pop_of_filter (p := fun e => !e.action.isAbout x) hpop (by simp [hw e rest hpop])
  have hseen' := pop_of_filter (p := fun e => !e.action.isAbout x) hpop'
    (by simp [hv e' rest' hpop'])
  have hsome := hseen.symm.trans ((congrArg pop hothers).trans hseen')
  exact Prod.mk.inj (Option.some.inj hsome)

/-- What any other step shows depends on what was seen. -/
theorem step_view (hw : w.Low x) (hv : v.Low x) (h : w.view x = v.view x)
    (hstep : World.step C c w = some w') (hstep' : World.step C c v = some v') :
    w'.view x = v'.view x := by
  rcases step_spec hstep with ⟨e, rest, hs⟩
  rcases step_spec hstep' with ⟨e', rest', hs'⟩
  have hlow := hw e rest hs.pop
  have hclients : w.clients = v.clients := congrArg WorldView.clients h
  have hserver : ∀ i, (w.servers i).view x = (v.servers i).view x :=
    fun i => congrFun (congrArg WorldView.servers h) i
  -- The same event runs in both states.
  obtain ⟨rfl, hrest⟩ := pop_of_view hw hv h hs.pop hs'.pop
  have hevents : emitted C c w e = emitted C c v e → others x w'.events = others x v'.events := by
    intro hem
    rw [others, others] at hrest
    rw [hs.events, hs'.events, others, others, List.filter_append, List.filter_append, hrest, hem]
  have hquiet : serversAfter C w e = w.servers → serversAfter C v e = v.servers →
      ∀ i, (w'.servers i).view x = (v'.servers i).view x := by
    intro hsame hsame' i
    rw [hs.servers, hs'.servers, hsame, hsame']
    exact hserver i
  rcases e with ⟨now, action⟩
  cases action with
  | server i task =>
      rcases run_view (C := C) (i := i) now (hserver i) hlow with ⟨hview, hem⟩
      refine world_view_ext (hevents hem) ?_ (hs.clients.trans (hclients.trans hs'.clients.symm))
      intro j
      by_cases hj : j = i
      · subst hj
        simpa [hs.servers, hs'.servers, serversAfter] using hview
      · simpa [hs.servers, hs'.servers, serversAfter, Function.update_of_ne hj] using hserver j
  | clientStart k =>
      refine world_view_ext (hevents ?_) (hquiet rfl rfl) ?_
      · simp only [emitted, hclients]
      · rw [hs.clients, hs'.clients]
        simp only [clientsAfter, hclients]
  | sendRequest k =>
      refine world_view_ext (hevents ?_) (hquiet rfl rfl) ?_
      · simp only [emitted, hclients]
      · rw [hs.clients, hs'.clients]
        simp only [clientsAfter, hclients]
  | transit packet hop =>
      refine world_view_ext (hevents ?_) (hquiet rfl rfl) ?_
      · simp only [emitted, arrivalEvents_view h]
      · exact hs.clients.trans (hclients.trans hs'.clients.symm)

end Step

/-! ## Two runs -/

section Runs

variable {C : Cluster} {w v : World} {x : ℕ} {env env' : Environment}

theorem unwinding (hsync : C.async = false) (x : ℕ) :
    Unwinding (program C) (World.Low x) (World.view x) := by
  constructor
  · intro w c w' hr hlow hstep
    exact step_unseen hsync hr hlow hstep
  · intro w v c w' v' _ _ hw hv hview hstep hstep'
    exact step_view hw hv hview hstep hstep'

/-- The environments differ at most in what they do with the frames of `x`. -/
structure Environment.SameBut (x : ℕ) (env env' : Environment) : Prop where
  value : env.value = env'.value
  fate : ∀ packet, packet.isAbout x = false → env.fate packet = env'.fate packet

theorem choice_eq (h : env.SameBut x env') {e : Event} (he : e.action.isAbout x = false) :
    env.choice e = env'.choice e := by
  rcases e with ⟨now, action⟩
  cases action with
  | server i task =>
      rfl
  | clientStart k =>
      simp only [Environment.choice, h.value]
  | sendRequest k =>
      simp only [Environment.choice, h.value]
  | transit packet hop =>
      simp only [Environment.choice, h.fate packet he]

theorem eq_choice_of_follows {e : Event} {rest : List Event} {c : Choice} (h : follows env w c)
    (hpop : pop w.events = some (e, rest)) : c = env.choice e := by
  simpa [follows, hpop] using h

theorem alike (h : env.SameBut x env') :
    Alike (program C) (World.Low x) (World.view x) (follows env) (follows env') := by
  intro w v c d w' v' hw hv hview hc hd hstep hstep'
  rcases step_spec hstep with ⟨e, rest, hs⟩
  rcases step_spec hstep' with ⟨e', rest', hs'⟩
  rcases pop_of_view hw hv hview hs.pop hs'.pop with ⟨rfl, -⟩
  rw [eq_choice_of_follows hc hs.pop, eq_choice_of_follows hd hs'.pop]
  exact choice_eq h (hw e rest hs.pop)

/-- The state at the time `T`: all that is due by then has run. -/
structure World.At (T : Time) (w : World) : Prop where
  le : w.now ≤ T
  lt : ∀ e ∈ w.events, T < e.ts

theorem settled_of_at {T : Time} (h : w.At T) :
    Unwinding.Settled (program C) (World.Low x) (World.view x) World.now T w := by
  constructor
  · exact h.le
  · intro v c v' hv hview hstep
    rcases step_spec hstep with ⟨e, rest, hs⟩
    -- The next event is seen, so it is pending in the other state too, where it is not due yet.
    have hseen : e ∈ others x v.events := by
      have hlow := hv e rest hs.pop
      exact List.mem_filter.2 ⟨mem_of_pop hs.pop, by simp [hlow]⟩
    have hothers : others x v.events = others x w.events := congrArg WorldView.events hview
    rw [hothers] at hseen
    rw [hs.now]
    exact h.lt e (List.mem_filter.1 hseen).1

/-- Every server has proposed the same proposals at the same times, and has decided the same
proposals but for `x`. -/
structure World.SameBut (x : ℕ) (w v : World) : Prop where
  proposed : ∀ i, (w.traces i).proposed = (v.traces i).proposed
  decided : ∀ i, (w.servers i).decidedProposalQueue.filter (fun p => p.proposalId ≠ x) =
    (v.servers i).decidedProposalQueue.filter (fun p => p.proposalId ≠ x)

/-- Two runs whose networks differ only in what they do with the frames of one proposal. -/
theorem isolation (hsync : C.async = false) (henv : env.SameBut x env')
    (hw : Reachable C (follows env) w) (hv : Reachable C (follows env') v) {T : Time}
    (hwT : w.At T) (hvT : v.At T) : w.SameBut x v := by
  have hview : w.view x = v.view x := by
    apply (unwinding hsync x).view_eq_at (alike henv) _ hw hv (settled_of_at hwT)
      (settled_of_at hvT)
    intro w c w' hr hstep
    exact step_now_le hr hstep
  have hserver : ∀ i, (w.servers i).view x = (v.servers i).view x :=
    fun i => congrFun (congrArg WorldView.servers hview) i
  constructor
  · intro i
    exact congrArg ServerView.proposed (hserver i)
  · intro i
    exact congrArg ServerView.decidedProposalQueue (hserver i)

/-- Everything arrives at once, or the frames of `x` are lost. -/
def lossy (x : ℕ) (loss : Bool) : Environment where
  value := fun _ _ => 0
  fate := fun packet _ => if loss && packet.isAbout x then .lose else .arrive

theorem lossy_sameBut (x : ℕ) : (lossy x false).SameBut x (lossy x true) := by
  constructor
  · rfl
  · intro packet hp
    funext hop
    simp [lossy, hp]

/-- Proposal 2 is decided in one of the two runs and lost in the other. -/
theorem isolation_two_servers :
    ∃ w v, Reachable (.oneClient 2 (by decide) false 0 5 200 9 3 0) (follows (lossy 2 false)) w ∧
      Reachable (.oneClient 2 (by decide) false 0 5 200 9 3 0) (follows (lossy 2 true)) v ∧
      (w.servers 1).decidedProposalQueue.map Proposal.proposalId = [5, 2, 8] ∧
      (v.servers 1).decidedProposalQueue.map Proposal.proposalId = [5, 8] ∧
      w.SameBut 2 v := by
  have hrun := exists_reachable_of_runInputs
    (S := program (.oneClient 2 (by decide) false 0 5 200 9 3 0)) (G := follows (lossy 2 false))
    (List.replicate 48 ({} : Choice))
    (fun w => (w.servers 1).decidedProposalQueue.map Proposal.proposalId = [5, 2, 8] ∧
      w.now ≤ 45 ∧ ∀ e ∈ w.events, 45 < e.ts) (by decide +kernel)
  have hrun' := exists_reachable_of_runInputs
    (S := program (.oneClient 2 (by decide) false 0 5 200 9 3 0)) (G := follows (lossy 2 true))
    (List.replicate 25 ({} : Choice) ++ [{ fate := .lose }] ++ List.replicate 16 ({} : Choice))
    (fun w => (w.servers 1).decidedProposalQueue.map Proposal.proposalId = [5, 8] ∧
      w.now ≤ 45 ∧ ∀ e ∈ w.events, 45 < e.ts) (by decide +kernel)
  rcases hrun with ⟨w, hw, htest⟩
  rcases hrun' with ⟨v, hv, htest'⟩
  rcases of_decide_eq_true htest with ⟨hdecided, hnow, hlater⟩
  rcases of_decide_eq_true htest' with ⟨hdecided', hnow', hlater'⟩
  exact ⟨w, v, hw, hv, hdecided, hdecided',
    isolation rfl (lossy_sameBut 2) hw hv ⟨hnow, hlater⟩ ⟨hnow', hlater'⟩⟩

end Runs

end SyncPaxos
