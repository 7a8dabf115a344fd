import SyncPaxos.Library.Counting
import SyncPaxos.Model.Topology
import SyncPaxos.Sockets.Steps

/-!
# Delivery — which socket a datagram is for

`Lookup` fills four lists.  For end points without a peer they are two lists: the end points bound to
the destination, of which there is one at most, and those bound to a wildcard (`lookup_cases`).  So a
socket that alone has a port gets what is sent there, whatever the other sockets do
(`receives_until`).
-/

namespace SyncPaxos.Sockets

open Ipv4EndPointDemux

variable {s s' : Node} {p : Datagram} {i j : EndPoint}

/-- Bound to the address and port that the datagram is sent to. -/
def Exact (p : Datagram) (i : EndPoint) : Bool :=
  i.2.rxEnabled && i.2.localPort == p.dport && i.2.localAddr == p.daddr

/-- Bound to its port, and to any address or to the network of the interface. -/
def WildCard (p : Datagram) (i : EndPoint) : Bool :=
  i.2.rxEnabled && i.2.localPort == p.dport && (!(i.2.localAddr == p.daddr) &&
    (i.2.localAddr == getAny || p.incomingInterface.isSubnetAny i.2.localAddr p.daddr))

/-- The datagram names no sender. -/
def Anonymous (p : Datagram) : Bool := getAny == p.saddr && 0 == p.sport

/-! ## The loop -/

/-- A round, for an end point without peer and device. -/
theorem consider_eq (hpeer : i.2.peerAddr = getAny) (hport : i.2.peerPort = 0)
    (hdevice : i.2.boundNetDevice = none) (r : Retvals) : consider p r i =
      { retval1 := r.retval1 ++ if WildCard p i then [i] else []
        retval2 := r.retval2 ++ if Exact p i then [i] else []
        retval3 := r.retval3 ++ if WildCard p i && Anonymous p then [i] else []
        retval4 := r.retval4 ++ if Exact p i && Anonymous p then [i] else [] } := by
  by_cases hrx : i.2.rxEnabled = true
  · by_cases hdport : i.2.localPort = p.dport
    · by_cases hexact : i.2.localAddr = p.daddr
      · simp [consider, WildCard, Exact, Anonymous, hpeer, hport, hdevice, hrx, hdport, hexact]
      · by_cases hwild : i.2.localAddr = getAny ∨
            p.incomingInterface.isSubnetAny i.2.localAddr p.daddr = true
        · have hkept : ¬ (i.2.localAddr ≠ getAny ∧
              p.incomingInterface.isSubnetAny i.2.localAddr p.daddr = false) := by
            rintro ⟨hany, hsubnet⟩
            rw [hsubnet] at hwild
            exact hany (hwild.resolve_right (by decide))
          simp [consider, WildCard, Exact, Anonymous, hpeer, hport, hdevice, hrx, hdport, hexact,
            hwild, hkept]
        · simp [consider, WildCard, Exact, hrx, hdport, hexact, hwild, hdevice]
    · simp [consider, WildCard, Exact, hrx, hdport]
  · simp [consider, WildCard, Exact, hrx]

/-- The loop, for such end points. -/
theorem foldl_consider {l : List EndPoint}
    (hl : ∀ i ∈ l, i.2.peerAddr = getAny ∧ i.2.peerPort = 0 ∧ i.2.boundNetDevice = none)
    (r : Retvals) : l.foldl (consider p) r =
      { retval1 := r.retval1 ++ l.filter (WildCard p)
        retval2 := r.retval2 ++ l.filter (Exact p)
        retval3 := r.retval3 ++ if Anonymous p then l.filter (WildCard p) else []
        retval4 := r.retval4 ++ if Anonymous p then l.filter (Exact p) else [] } := by
  induction l generalizing r with
  | nil =>
      simp
  | cons i l ih =>
      rcases hl i List.mem_cons_self with ⟨hpeer, hport, hdevice⟩
      rw [List.foldl_cons, ih (fun j hj => hl j (List.mem_cons_of_mem _ hj)),
        consider_eq hpeer hport hdevice]
      cases hw : WildCard p i <;> cases he : Exact p i <;> cases Anonymous p <;>
        simp [hw, he]

/-- The end points bound to the destination come first, then those bound to a wildcard. -/
theorem lookup_eq (hs : s.demux.Sound) : s.demux.lookup p =
    let found := if (s.demux.endPoints.filter (Exact p)).isEmpty then
      s.demux.endPoints.filter (WildCard p) else s.demux.endPoints.filter (Exact p)
    if found.length > 1 then none else some found := by
  simp only [lookup, foldl_consider hs.plain, List.nil_append]
  cases Anonymous p with
  | true =>
      cases hexact : s.demux.endPoints.filter (Exact p) <;>
        cases hwild : s.demux.endPoints.filter (WildCard p) <;> simp
  | false =>
      cases hexact : s.demux.endPoints.filter (Exact p) <;> simp

/-! ## What is found -/

theorem eq_of_key (hs : s.demux.Sound) (hi : i ∈ s.demux.endPoints) (hj : j ∈ s.demux.endPoints)
    (hkey : i.key = j.key) : i = j :=
  List.inj_on_of_nodup_map hs.locals hi hj hkey

theorem key_of_exact (h : Exact p i = true) : i.key = (p.daddr, p.dport) := by
  simp only [Exact, Bool.and_eq_true, beq_iff_eq] at h
  exact Prod.ext h.2 h.1.2

theorem nodup_endPoints (hs : s.demux.Sound) : s.demux.endPoints.Nodup :=
  List.Nodup.of_map _ hs.locals

/-- The end point bound to the destination, if there is one. -/
theorem lookup_exact (hs : s.demux.Sound) (hi : i ∈ s.demux.endPoints) (h : Exact p i = true) :
    s.demux.lookup p = some [i] := by
  have hfilter : s.demux.endPoints.filter (Exact p) = [i] := by
    refine Counting.filter_eq_singleton (nodup_endPoints hs) hi h ?_
    intro j hj hexact
    exact eq_of_key hs hj hi ((key_of_exact hexact).trans (key_of_exact h).symm)
  rw [lookup_eq hs, hfilter]
  rfl

theorem lookup_wildCard (hs : s.demux.Sound) (h : ∀ i ∈ s.demux.endPoints, Exact p i = false) :
    s.demux.lookup p = if (s.demux.endPoints.filter (WildCard p)).length > 1 then none
      else some (s.demux.endPoints.filter (WildCard p)) := by
  have hnone : s.demux.endPoints.filter (Exact p) = [] := Counting.filter_eq_nil h
  rw [lookup_eq hs, hnone]
  rfl

/-- In every state that is reached without binding a socket to a device: the end point bound to the
destination gets the datagram.  If there is none, an end point bound to a wildcard gets it that is the
only one, and `Lookup` aborts exactly when there are two of them. -/
theorem lookup_cases (hr : Transition.Reachable system noDevices s) (p : Datagram) :
    (∀ i ∈ s.demux.endPoints, Exact p i = true → s.demux.lookup p = some [i]) ∧
      ((∀ i ∈ s.demux.endPoints, Exact p i = false) →
        (∀ i ∈ s.demux.endPoints, WildCard p i = true →
          (∀ j ∈ s.demux.endPoints, WildCard p j = true → j = i) → s.demux.lookup p = some [i]) ∧
        ((∀ i ∈ s.demux.endPoints, WildCard p i = false) → s.demux.lookup p = some []) ∧
        (s.demux.lookup p = none ↔ ∃ i ∈ s.demux.endPoints, ∃ j ∈ s.demux.endPoints,
          i ≠ j ∧ WildCard p i = true ∧ WildCard p j = true)) := by
  have hs := (sound hr).demux
  refine ⟨fun i hi h => lookup_exact hs hi h, fun hexact => ?_⟩
  have hwild := lookup_wildCard hs hexact
  refine ⟨?_, ?_, ?_⟩
  · intro i hi h hone
    rw [hwild, Counting.filter_eq_singleton (nodup_endPoints hs) hi h hone]
    rfl
  · intro h
    rw [hwild, Counting.filter_eq_nil h]
    rfl
  · rw [hwild]
    constructor
    · intro habort
      have hlong : 1 < (s.demux.endPoints.filter (WildCard p)).length := by
        by_contra hshort
        rw [if_neg hshort] at habort
        cases habort
      -- Two members of a list without repetition.
      have hnodup := (nodup_endPoints hs).filter (WildCard p)
      have hi := List.mem_filter.1 (List.getElem_mem (Nat.zero_lt_of_lt hlong))
      have hj := List.mem_filter.1 (List.getElem_mem hlong)
      refine ⟨_, hi.1, _, hj.1, ?_, hi.2, hj.2⟩
      intro heq
      exact absurd ((hnodup.getElem_inj_iff).1 heq) Nat.zero_ne_one
    · rintro ⟨i, hi, j, hj, hne, hwi, hwj⟩
      rw [if_pos]
      by_contra hshort
      have hix := List.mem_filter.2 ⟨hi, hwi⟩
      have hjx := List.mem_filter.2 ⟨hj, hwj⟩
      rcases List.length_eq_one_iff.1 (Nat.le_antisymm (Nat.le_of_not_lt hshort)
        (List.length_pos_of_mem hix)) with ⟨x, hx⟩
      rw [hx, List.mem_singleton] at hix hjx
      exact hne (hix.trans hjx.symm)

/-- A socket bound to any address and one bound to the network 10.1.1.0 at the same port: a datagram to
10.1.1.2 makes `Lookup` abort. -/
theorem lookup_cases_two_wildCards :
    ∃ s, Transition.Reachable system noDevices s ∧
      s.demux.lookup ⟨Ipv4Address.ofOctets 10 1 1 2, 9000, Ipv4Address.ofOctets 10 1 1 1, 49153,
        ⟨0, [(Ipv4Address.ofOctets 10 1 1 2, Ipv4Address.ofOctets 255 255 255 0)]⟩⟩ = none := by
  let p : Datagram := ⟨Ipv4Address.ofOctets 10 1 1 2, 9000, Ipv4Address.ofOctets 10 1 1 1, 49153,
    ⟨0, [(Ipv4Address.ofOctets 10 1 1 2, Ipv4Address.ofOctets 255 255 255 0)]⟩⟩
  let i : EndPoint := (0, { localAddr := getAny, localPort := 9000 })
  let j : EndPoint := (1, { localAddr := Ipv4Address.ofOctets 10 1 1 0, localPort := 9000 })
  rcases Transition.exists_reachable_of_runInputs (S := system) (G := noDevices)
    [.createSocket, .createSocket, .bindTo 0 getAny 9000,
      .bindTo 1 (Ipv4Address.ofOctets 10 1 1 0) 9000]
    (fun s => decide (s.demux.endPoints = [i, j])) (by decide +kernel) with ⟨s, hr, hs⟩
  have hlist := of_decide_eq_true hs
  refine ⟨s, hr, (((lookup_cases hr p).2 ?_).2.2).2 ?_⟩
  · rw [hlist]
    decide
  · rw [hlist]
    exact ⟨i, by simp, j, by simp, by decide, by decide, by decide⟩

/-! ## A socket with a port of its own -/

/-- The calls of others: nobody else asks for the port. -/
def others (k port : ℕ) (s : Node) (c : Call) : Prop :=
  noDevices s c ∧ c.socket? ≠ some k ∧ ∀ j a, c ≠ .bindTo j a port

instance (port : ℕ) (c : Call) : Decidable (∀ j a, c ≠ .bindTo j a port) :=
  match c with
  | .bindTo _ _ n => decidable_of_iff (n ≠ port) (by simp)
  | .createSocket | .bind _ | .sendTo _ | .bindToNetDevice _ _ | .shutdownSend _ | .shutdownRecv _
  | .close _ => isTrue (by simp)

instance (k port : ℕ) (s : Node) (c : Call) : Decidable (others k port s c) :=
  inferInstanceAs (Decidable (_ ∧ _ ∧ _))

/-- Socket `k` has the end point `i`, which is the only one at its port. -/
structure Owns (k : ℕ) (i : EndPoint) (s : Node) : Prop where
  socket : ∃ socket, s.sockets[k]? = some socket ∧ socket.endPoint = some i.1
  mem : i ∈ s.demux.endPoints
  only : ∀ j ∈ s.demux.endPoints, j.2.localPort = i.2.localPort → j = i

variable {c : Call} {k : ℕ}

/-- The calls of others leave the socket and its end point alone. -/
theorem Owns.of_effect (h : Owns k i s) (hs : s.Sound) (hc : c.socket? ≠ some k)
    (hport : ∀ j a, c ≠ .bindTo j a i.2.localPort) (he : Effect c s s') : Owns k i s' := by
  rcases h.socket with ⟨socket, hk, hend⟩
  have hkept : ∀ (j : ℕ) (a : UdpSocketImpl), c.socket? = some j →
      (s.sockets.set j a)[k]? = some socket := by
    intro j a hj
    have hne : j ≠ k := by
      rintro rfl
      exact hc hj
    rw [List.getElem?_set_ne hne, hk]
  -- What the call is made on has another end point.
  have hother : ∀ (j q : ℕ) (a : UdpSocketImpl), c.socket? = some j → s.sockets[j]? = some a →
      a.endPoint = some q → i.1 ≠ q := by
    rintro j q a hj ha hq rfl
    have heq := hs.apart j k i.1 a socket ha hq hk hend
    rw [heq] at hj
    exact hc hj
  cases he with
  | same =>
      exact h
  | created =>
      have hlt : k < s.sockets.length := (List.getElem?_eq_some_iff.1 hk).1
      exact ⟨⟨socket, by rw [List.getElem?_append_left hlt, hk], hend⟩, h.mem, h.only⟩
  | noted hj =>
      exact ⟨⟨socket, hkept _ _ hj, hend⟩, h.mem, h.only⟩
  | opened hj ha hdevice hnew heph hfree =>
      refine ⟨⟨socket, hkept _ _ hj, hend⟩, List.mem_append_left _ h.mem, ?_⟩
      intro j hmem hsame
      -- A free port is not this one, and a port that is asked for is not this one either.
      rcases List.mem_append.1 hmem with hmem | hmem
      · exact h.only j hmem hsame
      · obtain rfl := List.mem_singleton.1 hmem
        rcases hfree with hfree | ⟨rfl, -⟩
        · exact absurd hsame.symm (hfree i h.mem)
        · exact absurd (congrArg (Call.bindTo _ _) hsame) (hport _ _)
  | changed hj ha hdevice hold hnew hf =>
      have hne := hother _ _ _ hj ha hold
      refine ⟨⟨socket, hkept _ _ hj, hend⟩, ?_, ?_⟩
      · exact List.mem_map.2 ⟨i, h.mem, by rw [if_neg hne]⟩
      · intro j hmem hsame
        rcases List.mem_map.1 hmem with ⟨j, hj', rfl⟩
        split at hsame
        · rename_i hq
          rw [hf j.2 (hs.demux.plain j hj').2.2] at hsame
          obtain rfl := h.only j hj' hsame
          exact absurd hq hne
        · rename_i hq
          rw [if_neg hq]
          exact h.only j hj' hsame
  | closed hj ha hdevice hold hnew =>
      have hne := hother _ _ _ hj ha hold
      refine ⟨⟨socket, hkept _ _ hj, hend⟩, ?_, ?_⟩
      · exact (List.mem_eraseP_of_neg (by simpa using hne)).2 h.mem
      · exact fun j hmem hsame => h.only j (List.mem_of_mem_eraseP hmem) hsame

theorem Owns.of_reaches (hr : Transition.Reachable system noDevices s) (h : Owns k i s)
    (hreach : Transition.Reaches system (others k i.2.localPort) s s') :
    Transition.Reachable system noDevices s' ∧ Owns k i s' := by
  induction hreach with
  | refl =>
      exact ⟨hr, h⟩
  | step _ hg hnext ih =>
      rcases ih with ⟨hr₁, h₁⟩
      have heffect := next_effect (sound hr₁) hg.1 hnext
      exact ⟨.step hr₁ hg.1 hnext, h₁.of_effect (sound hr₁) hg.2.1 hg.2.2 heffect⟩

/-- It gets all datagrams to its port for as long as it is not touched, whatever the other sockets do
meanwhile: bind, send from ephemeral ports, shut down, close. -/
theorem receives_until (hr : Transition.Reachable system noDevices s) (h : Owns k i s)
    (hrx : i.2.rxEnabled = true) (hany : i.2.localAddr = getAny)
    (hreach : Transition.Reaches system (others k i.2.localPort) s s')
    (hp : p.dport = i.2.localPort) : s'.demux.lookup p = some [i] := by
  rcases h.of_reaches hr hreach with ⟨hr', h'⟩
  have hs := (sound hr').demux
  -- A datagram to 0.0.0.0 makes the same end point an exact match.
  by_cases hdaddr : p.daddr = getAny
  · refine lookup_exact hs h'.mem ?_
    simp [Exact, hrx, hany, hp, hdaddr]
  · have hothers : ∀ j ∈ s'.demux.endPoints, j.2.localPort = p.dport → j = i :=
      fun j hj hport => h'.only j hj (hport.trans hp)
    have hexact : ∀ j ∈ s'.demux.endPoints, Exact p j = false := by
      intro j hj
      by_contra hexact
      have hkey := key_of_exact (Bool.not_eq_false _ ▸ hexact)
      have heq := hothers j hj (Prod.mk.inj hkey).2
      subst heq
      exact hdaddr ((Prod.mk.inj hkey).1.symm.trans hany)
    have hwild : WildCard p i = true := by
      simp [WildCard, hrx, hany, hp, Ne.symm hdaddr]
    refine ((lookup_cases hr' p).2 hexact).1 i h'.mem hwild ?_
    intro j hj hwildj
    simp only [WildCard, Bool.and_eq_true, beq_iff_eq] at hwildj
    exact hothers j hj hwildj.1.2

/-- A server: once its first socket has the Paxos port, it binds the second to the port for requests
and sends from the third. -/
theorem receives_until_server :
    ∃ s s', Transition.Reachable system noDevices s ∧
      Transition.Reaches system (others 0 PAXOS_PORT) s s' ∧ s'.demux.endPoints.length = 3 ∧
      s'.demux.lookup ⟨Ipv4Address.ofOctets 20 0 0 2, PAXOS_PORT, Ipv4Address.ofOctets 20 1 0 2, 49153,
        ⟨0, []⟩⟩ = some [(0, { localAddr := getAny, localPort := PAXOS_PORT })] := by
  let i : EndPoint := (0, { localAddr := getAny, localPort := PAXOS_PORT })
  rcases Transition.exists_reachable_of_runInputs (S := system) (G := noDevices)
    [.createSocket, .bindTo 0 getAny PAXOS_PORT, .createSocket, .createSocket]
    (fun s => decide (s.demux.endPoints = [i] ∧ s.sockets = [{ endPoint := some 0 }, {}, {}] ∧
      ((Transition.runInputs system (others 0 PAXOS_PORT)
        [.bindTo 1 getAny SERVER_PORT, .sendTo 2] s).map
          fun s' => s'.demux.endPoints.length) = some 3)) (by decide +kernel) with ⟨s, hr, hs⟩
  rcases of_decide_eq_true hs with ⟨hlist, hsockets, hrun⟩
  rcases Option.map_eq_some_iff.1 hrun with ⟨s', hrun, hlength⟩
  have howns : Owns 0 i s :=
    ⟨⟨{ endPoint := some 0 }, by rw [hsockets]; rfl, rfl⟩, by simp [hlist], by simp [hlist]⟩
  have hreach := Transition.reaches_of_runInputs hrun
  exact ⟨s, s', hr, hreach, hlength, receives_until hr howns rfl rfl hreach rfl⟩

end SyncPaxos.Sockets
