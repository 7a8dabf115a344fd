import SyncPaxos.Sockets.Ports

/-!
# Steps — what the calls of the applications do to the end points

As long as no socket is bound to a device, a call opens an end point, changes one, takes one away or
leaves them alone (`next_effect`).  From there no two end points of a node ever have the same local
address and port (`Sound`).
-/

namespace SyncPaxos.Sockets

open Ipv4EndPointDemux

/-- The applications do not bind sockets to devices. -/
def noDevices (_ : Node) : Call → Prop
  | .bindToNetDevice _ netdevice => netdevice = none
  | _ => True

instance (s : Node) : (c : Call) → Decidable (noDevices s c)
  | .bindToNetDevice _ netdevice => inferInstanceAs (Decidable (netdevice = none))
  | .createSocket | .bind _ | .bindTo _ _ _ | .sendTo _ | .shutdownSend _ | .shutdownRecv _
  | .close _ => isTrue trivial

/-- The socket that a call is made on. -/
def Call.socket? : Call → Option ℕ
  | .createSocket => none
  | .bind k | .bindTo k _ _ | .sendTo k | .bindToNetDevice k _ | .shutdownSend k
  | .shutdownRecv k | .close k => some k

/-- The local address and port of an end point. -/
def EndPoint.key (i : EndPoint) : Ipv4Address × ℕ := (i.2.localAddr, i.2.localPort)

/-- The end points of a node without devices. -/
structure Ipv4EndPointDemux.Sound (s : Ipv4EndPointDemux) : Prop where
  ephemeral : IsEphemeral s.ephemeral
  fresh : ∀ i ∈ s.endPoints, i.1 < s.next
  plain : ∀ i ∈ s.endPoints,
    i.2.peerAddr = getAny ∧ i.2.peerPort = 0 ∧ i.2.boundNetDevice = none
  locals : (s.endPoints.map EndPoint.key).Nodup

structure Node.Sound (s : Node) : Prop where
  demux : s.demux.Sound
  devices : ∀ socket ∈ s.sockets, socket.boundNetDevice = none
  owned : ∀ socket ∈ s.sockets, ∀ p, socket.endPoint = some p → p < s.demux.next
  /-- No two sockets share an end point. -/
  apart : ∀ (j k p : ℕ) (a b : UdpSocketImpl), s.sockets[j]? = some a → a.endPoint = some p →
    s.sockets[k]? = some b → b.endPoint = some p → j = k

/-- A change that keeps everything but whether an end point receives. -/
def Keeps (f : Ipv4EndPoint → Ipv4EndPoint) : Prop :=
  ∀ e, e.boundNetDevice = none → f e = { e with rxEnabled := (f e).rxEnabled }

/-- The effects of calls. -/
inductive Effect (c : Call) (s : Node) : Node → Prop
  | same : Effect c s s
  | created : Effect c s { s with sockets := s.sockets ++ [{}] }
  /-- Only the socket changes. -/
  | noted {k : ℕ} {socket socket' : UdpSocketImpl} (hc : c.socket? = some k)
      (hk : s.sockets[k]? = some socket) (hdevice : socket'.boundNetDevice = none)
      (hend : ∀ p, socket'.endPoint = some p → socket.endPoint = some p) :
      Effect c s (s.setSocket k socket')
  /-- It gets a new end point, at an ephemeral port that was free or at the port of the call. -/
  | opened {k ephemeral port : ℕ} {a : Ipv4Address} {socket socket' : UdpSocketImpl}
      (hc : c.socket? = some k) (hk : s.sockets[k]? = some socket)
      (hdevice : socket'.boundNetDevice = none)
      (hend : socket'.endPoint = some s.demux.next) (heph : IsEphemeral ephemeral)
      (hport : (∀ i ∈ s.demux.endPoints, i.2.localPort ≠ port) ∨
        c = .bindTo k a port ∧ ∀ i ∈ s.demux.endPoints, i.key ≠ (a, port)) :
      Effect c s ({ s with demux := ({ s.demux with ephemeral := ephemeral }.add
        { localAddr := a, localPort := port }).2 }.setSocket k socket')
  /-- Its end point changes. -/
  | changed {k p : ℕ} {socket socket' : UdpSocketImpl} {f : Ipv4EndPoint → Ipv4EndPoint}
      (hc : c.socket? = some k) (hk : s.sockets[k]? = some socket)
      (hdevice : socket'.boundNetDevice = none) (hold : socket.endPoint = some p)
      (hend : socket'.endPoint = socket.endPoint) (hf : Keeps f) :
      Effect c s ({ s with demux := s.demux.modify p f }.setSocket k socket')
  /-- Its end point is taken away. -/
  | closed {k p : ℕ} {socket socket' : UdpSocketImpl} (hc : c.socket? = some k)
      (hk : s.sockets[k]? = some socket) (hdevice : socket'.boundNetDevice = none)
      (hold : socket.endPoint = some p) (hend : socket'.endPoint = none) :
      Effect c s ({ s with demux := s.demux.deAllocate p }.setSocket k socket')

variable {s s' : Node} {c : Call} {k : ℕ}

/-! ## Binding -/

theorem bound_eq {socket : UdpSocketImpl} (hdevice : socket.boundNetDevice = none) (p : ℕ)
    (d : Ipv4EndPointDemux) : s.bound k socket p d = (0, { s with demux := d }.setSocket k
      { socket with endPoint := some p, shutdownRecv := false, shutdownSend := false }) := by
  simp [Node.bound, hdevice]

/-- What an allocation of an ephemeral port makes of the socket. -/
theorem effect_of_allocated {socket : UdpSocketImpl} {a : Ipv4Address} {port : ℕ}
    (hc : c.socket? = some k) (hk : s.sockets[k]? = some socket)
    (hdevice : socket.boundNetDevice = none) (hport : IsEphemeral port)
    (hfree : s.demux.lookupPortLocal port = false) :
    Effect c s (s.bound k socket s.demux.next ({ s.demux with ephemeral := port }.add
      { localAddr := a, localPort := port }).2).2 := by
  rw [bound_eq hdevice]
  exact .opened hc hk hdevice rfl hport (.inl (lookupPortLocal_eq_false.1 hfree))

theorem bind_effect (hs : s.Sound) (hc : c.socket? = some k) {ret : ℤ}
    (h : s.bind k = some (ret, s')) : Effect c s s' := by
  rcases Option.bind_eq_some_iff.1 h with ⟨socket, hk, hbind⟩
  have hdevice := hs.devices socket (List.mem_of_getElem? hk)
  rcases allocateAddress_cases hs.demux.ephemeral getAny with
    ⟨hfull, -⟩ | ⟨port, hport, ⟨-, -, hfree, -⟩, hopen⟩
  · simp only [allocate, hfull] at hbind
    rcases Option.bind_eq_some_iff.1 hbind with ⟨-, -, hbind⟩
    obtain rfl := congrArg Prod.snd (Option.some.inj hbind)
    exact .noted hc hk hdevice (fun p hp => by cases hp)
  · simp only [allocate, hopen, add] at hbind
    obtain rfl := congrArg Prod.snd (Option.some.inj hbind)
    exact effect_of_allocated hc hk hdevice hport hfree

theorem lookupLocal_eq_true (hs : s.demux.Sound) {a : Ipv4Address} {port : ℕ} :
    s.demux.lookupLocal none a port = true ↔ ∃ i ∈ s.demux.endPoints, i.key = (a, port) := by
  simp only [lookupLocal, List.any_eq_true, Bool.and_eq_true, beq_iff_eq, EndPoint.key,
    Prod.mk.injEq]
  constructor
  · rintro ⟨i, hi, ⟨hport, haddr⟩, -⟩
    exact ⟨i, hi, haddr, hport⟩
  · rintro ⟨i, hi, haddr, hport⟩
    exact ⟨i, hi, ⟨hport, haddr⟩, (hs.plain i hi).2.2⟩

/-- A call for a port gets it unless there is an end point with this address and port. -/
theorem allocateLocal_cases (hs : s.demux.Sound) (a : Ipv4Address) (port : ℕ) :
    (s.demux.allocateLocal none a port = (none, s.demux) ∧
      ∃ i ∈ s.demux.endPoints, i.key = (a, port)) ∨
    (s.demux.allocateLocal none a port = s.demux.add { localAddr := a, localPort := port } ∧
      ∀ i ∈ s.demux.endPoints, i.key ≠ (a, port)) := by
  cases hused : s.demux.lookupLocal none a port with
  | true =>
      exact .inl ⟨by simp [allocateLocal, hused], (lookupLocal_eq_true hs).1 hused⟩
  | false =>
      refine .inr ⟨by simp [allocateLocal, hused], ?_⟩
      intro i hi hkey
      have hfound := (lookupLocal_eq_true hs).2 ⟨i, hi, hkey⟩
      rw [hused] at hfound
      cases hfound

theorem allocateFor_zero (d : Ipv4EndPointDemux) (a : Ipv4Address) :
    d.allocateFor none a 0 = d.allocateAddress a := by
  by_cases ha : a = getAny <;> simp [allocateFor, ha, allocate]

theorem allocateFor_of_ne {port : ℕ} (d : Ipv4EndPointDemux) (a : Ipv4Address) (h : port ≠ 0) :
    d.allocateFor none a port = d.allocateLocal none a port := by
  by_cases ha : a = getAny <;> simp [allocateFor, ha, h, allocatePort]

theorem bindTo_effect (hs : s.Sound) {a : Ipv4Address} {port : ℕ} {ret : ℤ}
    (h : s.bindTo k a port = some (ret, s')) : Effect (.bindTo k a port) s s' := by
  rcases Option.bind_eq_some_iff.1 h with ⟨socket, hk, hbind⟩
  have hdevice := hs.devices socket (List.mem_of_getElem? hk)
  rcases Option.bind_eq_some_iff.1 hbind with ⟨-, -, hbind⟩
  rw [hdevice] at hbind
  by_cases hport : port = 0
  · subst hport
    rw [allocateFor_zero] at hbind
    rcases allocateAddress_cases hs.demux.ephemeral a with
      ⟨hfull, -⟩ | ⟨free, hfree, ⟨-, -, hunused, -⟩, hopen⟩
    · rw [hfull] at hbind
      obtain rfl := congrArg Prod.snd (Option.some.inj hbind)
      exact .same
    · simp only [hopen, add] at hbind
      obtain rfl := congrArg Prod.snd (Option.some.inj hbind)
      exact effect_of_allocated rfl hk hdevice hfree hunused
  · rw [allocateFor_of_ne _ _ hport] at hbind
    rcases allocateLocal_cases hs.demux a port with ⟨hused, -⟩ | ⟨hopen, hfree⟩
    · rw [hused] at hbind
      obtain rfl := congrArg Prod.snd (Option.some.inj hbind)
      exact .same
    · simp only [hopen, add] at hbind
      obtain rfl := congrArg Prod.snd (Option.some.inj hbind)
      rw [bound_eq hdevice]
      exact .opened rfl hk hdevice rfl hs.demux.ephemeral (.inr ⟨rfl, hfree⟩)

/-! ## All calls -/

theorem sendTo_effect (hs : s.Sound) (hc : c.socket? = some k) {ret : ℤ}
    (h : s.sendTo k = some (ret, s')) : Effect c s s' := by
  rcases Option.bind_eq_some_iff.1 h with ⟨⟨r, s₁⟩, hfirst, hsend⟩
  -- Whether it is bound or not, what follows only looks at the socket.
  have hafter : s₁ = s' := by
    by_cases hr : r = -1
    · simp only [hr, if_true] at hsend
      exact congrArg Prod.snd (Option.some.inj hsend)
    · simp only [hr, if_false] at hsend
      rcases Option.bind_eq_some_iff.1 hsend with ⟨socket', -, hsend⟩
      exact congrArg Prod.snd (Option.some.inj hsend)
  subst hafter
  rcases Option.bind_eq_some_iff.1 hfirst with ⟨socket, hk, hbind⟩
  by_cases hend : socket.endPoint = none
  · rw [if_pos hend] at hbind
    exact bind_effect hs hc hbind
  · rw [if_neg hend] at hbind
    obtain rfl := congrArg Prod.snd (Option.some.inj hbind)
    exact .same

theorem close_effect (hs : s.Sound) (hc : c.socket? = some k) {ret : ℤ}
    (h : s.close k = some (ret, s')) : Effect c s s' := by
  rcases Option.bind_eq_some_iff.1 h with ⟨socket, hk, hclose⟩
  have hdevice := hs.devices socket (List.mem_of_getElem? hk)
  cases hshut : socket.shutdownRecv && socket.shutdownSend with
  | true =>
      simp only [hshut, if_true] at hclose
      obtain rfl := congrArg Prod.snd (Option.some.inj hclose)
      exact .same
  | false =>
      simp only [hshut] at hclose
      obtain rfl := congrArg Prod.snd (Option.some.inj hclose)
      cases hend : socket.endPoint with
      | none =>
          exact .noted hc hk hdevice (fun p hp => by cases hp)
      | some p =>
          exact .closed hc hk hdevice hend rfl

theorem shutdownRecv_effect (hs : s.Sound) (hc : c.socket? = some k)
    (h : s.shutdownRecv k = some s') : Effect c s s' := by
  rcases Option.bind_eq_some_iff.1 h with ⟨socket, hk, hshut⟩
  have hdevice := hs.devices socket (List.mem_of_getElem? hk)
  obtain rfl := Option.some.inj hshut
  cases hend : socket.endPoint with
  | none =>
      exact .noted hc hk hdevice (fun p hp => by cases hp)
  | some p =>
      exact .changed hc hk hdevice hend hend.symm (fun _ _ => rfl)

theorem bindToNetDevice_effect (hc : c.socket? = some k)
    (h : s.bindToNetDevice k none = some s') : Effect c s s' := by
  rcases Option.bind_eq_some_iff.1 h with ⟨socket, hk, hbind⟩
  obtain rfl := Option.some.inj hbind
  cases hend : socket.endPoint with
  | none =>
      exact .noted hc hk rfl (fun p hp => by cases hp)
  | some p =>
      refine .changed hc hk rfl hend hend.symm ?_
      intro e he
      rw [← he]

/-- The effect of a call. -/
theorem next_effect (hs : s.Sound) (hc : noDevices s c) (h : Node.next c s = some s') :
    Effect c s s' := by
  cases c with
  | createSocket =>
      obtain rfl := Option.some.inj h
      exact .created
  | bind k =>
      rcases Option.map_eq_some_iff.1 h with ⟨⟨ret, s₁⟩, hbind, rfl⟩
      exact bind_effect hs rfl hbind
  | bindTo k a port =>
      rcases Option.map_eq_some_iff.1 h with ⟨⟨ret, s₁⟩, hbind, rfl⟩
      exact bindTo_effect hs hbind
  | sendTo k =>
      rcases Option.map_eq_some_iff.1 h with ⟨⟨ret, s₁⟩, hsend, rfl⟩
      exact sendTo_effect hs rfl hsend
  | bindToNetDevice k netdevice =>
      obtain rfl : netdevice = none := hc
      exact bindToNetDevice_effect rfl h
  | shutdownSend k =>
      rcases Option.bind_eq_some_iff.1 h with ⟨socket, hk, hshut⟩
      obtain rfl := Option.some.inj hshut
      exact .noted rfl hk (hs.devices socket (List.mem_of_getElem? hk)) (fun p hp => hp)
  | shutdownRecv k =>
      exact shutdownRecv_effect hs rfl h
  | close k =>
      rcases Option.map_eq_some_iff.1 h with ⟨⟨ret, s₁⟩, hclose, rfl⟩
      exact close_effect hs rfl hclose

/-! ## What every call keeps -/

theorem Ipv4EndPointDemux.Sound.add {d : Ipv4EndPointDemux} (hd : d.Sound) {a ephemeral port : ℕ}
    (heph : IsEphemeral ephemeral) (hfree : ∀ i ∈ d.endPoints, i.key ≠ (a, port)) :
    ({ d with ephemeral := ephemeral }.add { localAddr := a, localPort := port }).2.Sound := by
  refine ⟨heph, ?_, ?_, ?_⟩
  · intro i hi
    rcases List.mem_append.1 hi with hi | hi
    · exact Nat.lt_succ_of_lt (hd.fresh i hi)
    · obtain rfl := List.mem_singleton.1 hi
      exact Nat.lt_succ_self _
  · intro i hi
    rcases List.mem_append.1 hi with hi | hi
    · exact hd.plain i hi
    · obtain rfl := List.mem_singleton.1 hi
      exact ⟨rfl, rfl, rfl⟩
  · simp only [Ipv4EndPointDemux.add, List.map_append, List.map_singleton]
    refine List.Nodup.append hd.locals (List.nodup_singleton _) ?_
    intro key hkey hnew
    rcases List.mem_map.1 hkey with ⟨i, hi, rfl⟩
    exact hfree i hi (List.mem_singleton.1 hnew)

/-- What a change makes of the list. -/
theorem mem_modify {d : Ipv4EndPointDemux} (hd : d.Sound) {p : ℕ} {f : Ipv4EndPoint → Ipv4EndPoint}
    (hf : Keeps f) {i : EndPoint} (hi : i ∈ (d.modify p f).endPoints) :
    ∃ j ∈ d.endPoints, i.1 = j.1 ∧ ∃ enabled, i.2 = { j.2 with rxEnabled := enabled } ∧
      (j.1 ≠ p → enabled = j.2.rxEnabled) := by
  rcases List.mem_map.1 hi with ⟨j, hj, rfl⟩
  by_cases hp : j.1 = p
  · exact ⟨j, hj, by simp [hp], (f j.2).rxEnabled, by simpa [hp] using hf j.2 (hd.plain j hj).2.2,
      fun hne => absurd hp hne⟩
  · exact ⟨j, hj, by simp [hp], j.2.rxEnabled, by simp [hp], fun _ => rfl⟩

theorem Ipv4EndPointDemux.Sound.modify {d : Ipv4EndPointDemux} (hd : d.Sound) (p : ℕ)
    {f : Ipv4EndPoint → Ipv4EndPoint} (hf : Keeps f) : (d.modify p f).Sound := by
  refine ⟨hd.ephemeral, ?_, ?_, ?_⟩
  · intro i hi
    rcases mem_modify hd hf hi with ⟨j, hj, hptr, -⟩
    rw [hptr]
    exact hd.fresh j hj
  · intro i hi
    rcases mem_modify hd hf hi with ⟨j, hj, -, enabled, he, -⟩
    rw [he]
    exact hd.plain j hj
  · have hkeys : (d.modify p f).endPoints.map EndPoint.key = d.endPoints.map EndPoint.key := by
      rw [Ipv4EndPointDemux.modify, List.map_map]
      refine List.map_congr_left ?_
      intro i hi
      by_cases hp : i.1 = p
      · have he := hf i.2 (hd.plain i hi).2.2
        simp only [Function.comp, hp, if_true, EndPoint.key]
        rw [he]
      · simp [hp]
    rw [hkeys]
    exact hd.locals

theorem Ipv4EndPointDemux.Sound.deAllocate {d : Ipv4EndPointDemux} (hd : d.Sound) (p : ℕ) :
    (d.deAllocate p).Sound :=
  ⟨hd.ephemeral, fun i hi => hd.fresh i (List.mem_of_mem_eraseP hi),
    fun i hi => hd.plain i (List.mem_of_mem_eraseP hi),
    hd.locals.sublist (List.eraseP_sublist.map _)⟩

/-- A socket may keep its end point or get the new one. -/
theorem Node.Sound.set (hs : s.Sound) {socket socket' : UdpSocketImpl} {d : Ipv4EndPointDemux}
    (hk : s.sockets[k]? = some socket) (hd : d.Sound) (hnext : s.demux.next ≤ d.next)
    (hdevice : socket'.boundNetDevice = none)
    (hend : ∀ p, socket'.endPoint = some p →
      socket.endPoint = some p ∨ p = s.demux.next ∧ p < d.next) :
    ({ s with demux := d }.setSocket k socket').Sound := by
  have hold : ∀ (j : ℕ) (a : UdpSocketImpl) (p : ℕ), s.sockets[j]? = some a → a.endPoint = some p → p < s.demux.next :=
    fun j a p hj hp => hs.owned a (List.mem_of_getElem? hj) p hp
  -- No other socket has an end point that this one has now.
  have hother : ∀ (j : ℕ) (a : UdpSocketImpl) (p : ℕ), j ≠ k → s.sockets[j]? = some a →
      a.endPoint = some p → socket'.endPoint = some p → False := by
    intro j a p hne hj hp hp'
    rcases hend p hp' with hsame | ⟨rfl, -⟩
    · exact hne (hs.apart j k p a socket hj hp hk hsame)
    · exact absurd (hold j a _ hj hp) (Nat.lt_irrefl _)
  refine ⟨hd, ?_, ?_, ?_⟩
  · intro a ha
    rcases List.mem_or_eq_of_mem_set ha with ha | rfl
    · exact hs.devices a ha
    · exact hdevice
  · intro a ha p hp
    rcases List.mem_or_eq_of_mem_set ha with ha | rfl
    · exact (hs.owned a ha p hp).trans_le hnext
    · rcases hend p hp with hsame | ⟨-, hlt⟩
      · exact (hold k socket p hk hsame).trans_le hnext
      · exact hlt
  · intro i j p a b hi hp hj hp'
    simp only [Node.setSocket, List.getElem?_set] at hi hj
    -- Either of the two may be the socket that has changed.
    split at hi
    · split at hj
      · omega
      · obtain rfl : socket' = a := by simpa using (Option.ite_none_right_eq_some.1 hi).2
        exact (hother j b p (by omega) hj hp' hp).elim
    · split at hj
      · obtain rfl : socket' = b := by simpa using (Option.ite_none_right_eq_some.1 hj).2
        exact (hother i a p (by omega) hi hp hp').elim
      · exact hs.apart i j p a b hi hp hj hp'

theorem Node.Sound.of_effect (hs : s.Sound) (h : Effect c s s') : s'.Sound := by
  cases h with
  | same =>
      exact hs
  | created =>
      -- The new socket has no end point.
      have hsplit : ∀ (j : ℕ) (a : UdpSocketImpl) (p : ℕ), (s.sockets ++ [({} : UdpSocketImpl)])[j]? = some a →
          a.endPoint = some p → s.sockets[j]? = some a := by
        intro j a p hj hp
        rcases Nat.lt_or_ge j s.sockets.length with hlt | hge
        · rwa [List.getElem?_append_left hlt] at hj
        · rw [List.getElem?_append_right hge] at hj
          obtain rfl := List.mem_singleton.1 (List.mem_of_getElem? hj)
          cases hp
      refine ⟨hs.demux, ?_, ?_, ?_⟩
      · intro a ha
        rcases List.mem_append.1 ha with ha | ha
        · exact hs.devices a ha
        · obtain rfl := List.mem_singleton.1 ha
          rfl
      · intro a ha p hp
        rcases List.mem_append.1 ha with ha | ha
        · exact hs.owned a ha p hp
        · obtain rfl := List.mem_singleton.1 ha
          cases hp
      · intro i j p a b hi hp hj hp'
        exact hs.apart i j p a b (hsplit i a p hi hp) hp (hsplit j b p hj hp') hp'
  | noted _ hk hdevice hend =>
      exact hs.set hk hs.demux le_rfl hdevice (fun p hp => .inl (hend p hp))
  | opened _ hk hdevice hend heph hport =>
      refine hs.set hk (hs.demux.add heph ?_) (Nat.le_succ _) hdevice ?_
      · rcases hport with hport | ⟨-, hport⟩
        · intro i hi hkey
          exact hport i hi (Prod.mk.inj hkey).2
        · exact hport
      · intro p hp
        obtain rfl := Option.some.inj (hend.symm.trans hp)
        exact .inr ⟨rfl, Nat.lt_succ_self _⟩
  | changed _ hk hdevice hold hend hf =>
      exact hs.set hk (hs.demux.modify _ hf) le_rfl hdevice (fun p hp => .inl (hend ▸ hp))
  | closed _ hk hdevice hold hend =>
      refine hs.set hk (hs.demux.deAllocate _) le_rfl hdevice ?_
      intro p hp
      rw [hend] at hp
      cases hp

theorem Node.Sound.init : system.init.Sound where
  demux := ⟨⟨by decide, by decide⟩, by simp [system], by simp [system], by simp [system]⟩
  devices := by simp [system]
  owned := by simp [system]
  apart := by simp [system]

theorem sound (hr : Transition.Reachable system noDevices s) : s.Sound := by
  refine hr.invariant Node.Sound.init ?_
  intro s₁ c s₂ _ hs hc h
  exact hs.of_effect (next_effect hs hc h)

/-! ## Ephemeral ports -/

/-- In every reachable state `Bind()` fails exactly when all 16384 ephemeral ports are in use.  Otherwise
the socket gets the first port that is free after the one that was given out last. -/
theorem bind_cases (hr : Transition.Reachable system noDevices s) {socket : UdpSocketImpl}
    (hk : s.sockets[k]? = some socket) :
    (s.bind k = some (-1, s.setSocket k { socket with endPoint := none }) ∧
      ∀ port, IsEphemeral port → s.demux.lookupPortLocal port = true) ∨
    ∃ port s', IsEphemeral port ∧ s.demux.IsNextFree s.demux.ephemeral port ∧
      s.bind k = some (0, s') ∧ s'.demux.ephemeral = port ∧
      s'.demux.endPoints =
        s.demux.endPoints ++ [(s.demux.next, { localAddr := getAny, localPort := port })] ∧
      s'.sockets = s.sockets.set k
        { socket with endPoint := some s.demux.next, shutdownRecv := false, shutdownSend := false } := by
  have hs := sound hr
  have hdevice := hs.devices socket (List.mem_of_getElem? hk)
  rcases allocateAddress_cases hs.demux.ephemeral getAny with
    ⟨hfull, hbusy⟩ | ⟨port, hport, hfree, hopen⟩
  · refine .inl ⟨?_, hbusy⟩
    simp [Node.bind, hk, allocate, hfull, hdevice]
  · let s' : Node := { s with demux := ({ s.demux with ephemeral := port }.add
      { localAddr := getAny, localPort := port }).2 }.setSocket k
        { socket with endPoint := some s.demux.next, shutdownRecv := false, shutdownSend := false }
    refine .inr ⟨port, s', hport, hfree, ?_, rfl, rfl, rfl⟩
    simp only [Node.bind, hk, allocate, hopen, Ipv4EndPointDemux.add, Option.bind_eq_bind,
      Option.bind_some, bound_eq hdevice]
    rfl

/-- The first socket of a node that sends is given port 49153. -/
theorem bind_cases_first_port :
    ∃ s s', Transition.Reachable system noDevices s ∧ s.bind 0 = some (0, s') ∧
      s'.demux.endPoints = [(0, { localAddr := getAny, localPort := 49153 })] := by
  rcases Transition.exists_reachable_of_runInputs (S := system) (G := noDevices) [.createSocket]
    (fun s => decide (s.sockets = [{}] ∧ s.demux.endPoints = [] ∧ s.demux.next = 0 ∧
      s.demux.ephemeral = 49152)) (by decide) with ⟨s, hr, hs⟩
  rcases of_decide_eq_true hs with ⟨hsockets, hnone, hnext, heph⟩
  have hk : s.sockets[0]? = some ({} : UdpSocketImpl) := by
    rw [hsockets]
    rfl
  rcases bind_cases hr hk with ⟨-, hbusy⟩ | ⟨port, s', -, ⟨n, hport, -, hskipped⟩, hbind, -, hend, -⟩
  · have hused := hbusy 50000 ⟨by decide, by decide⟩
    simp [lookupPortLocal, hnone] at hused
  · -- No port is in use, so none is skipped.
    have hzero : n = 0 := by
      by_contra hpos
      have hused := hskipped 0 (Nat.pos_of_ne_zero hpos)
      simp [lookupPortLocal, hnone] at hused
    subst hzero
    rw [heph] at hport
    obtain rfl : port = 49153 := hport
    refine ⟨s, s', hr, hbind, ?_⟩
    rw [hend, hnone, hnext]
    rfl

end SyncPaxos.Sockets
