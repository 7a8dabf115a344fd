import Mathlib.Algebra.GroupWithZero.Nat
import Mathlib.Algebra.Order.Group.Nat

/-!
# UdpReceive — the receive queue of a socket (udp-socket-impl, socket)

`ForwardUp` puts a datagram into the queue if the receive buffer has room for it, and calls the handler
that `SetRecvCallback` has installed.  Handlers are as `ReceiveMessage` and `ReceiveRequest`: they call
`RecvFrom` until it returns nothing.  Datagrams are opaque: only their size matters.

`accepted` and `handled` record what was put into the queue and what `RecvFrom` has returned.
-/

namespace SyncPaxos.UdpReceive

variable {α : Type}

structure Socket (α : Type) where
  deliveryQueue : List α := []
  /-- A `uint32_t`. -/
  rxAvailable : ℕ := 0
  shutdownRecv : Bool := false
  /-- `m_receivedData` is not null. -/
  receivedData : Bool := false
  accepted : List α := []
  handled : List α := []

namespace Socket

variable (getSize : α → ℕ) (rcvBufSize : ℕ)

def recvFrom (maxSize : ℕ) (s : Socket α) : Option α × Socket α :=
  match s.deliveryQueue with
  | [] => (none, s)
  | p :: rest =>
      if getSize p ≤ maxSize then
        (some p, { s with
          deliveryQueue := rest
          rxAvailable := (s.rxAvailable + 2 ^ 32 - getSize p) % 2 ^ 32
          handled := s.handled ++ [p] })
      else
        (none, s)

/-- The loop of a handler, by the rounds that are left; `RecvFrom(Address&)` takes any size. -/
def readAll : ℕ → Socket α → Socket α
  | 0, s => s
  | rounds + 1, s =>
      match s.recvFrom getSize (2 ^ 32 - 1) with
      | (some _, s) => readAll rounds s
      | (none, s) => s

/-- Once more than there are datagrams. -/
def notifyDataRecv (s : Socket α) : Socket α :=
  if s.receivedData then s.readAll getSize (s.deliveryQueue.length + 1) else s

def forwardUp (p : α) (s : Socket α) : Socket α :=
  if s.shutdownRecv then
    s
  else if (s.rxAvailable + getSize p) % 2 ^ 32 ≤ rcvBufSize then
    { s with
      deliveryQueue := s.deliveryQueue ++ [p]
      rxAvailable := (s.rxAvailable + getSize p) % 2 ^ 32
      accepted := s.accepted ++ [p] }.notifyDataRecv getSize
  else
    s

end Socket

/-- What happens to a socket. -/
inductive Input (α : Type)
  | setRecvCallback
  | forwardUp (p : α)
  | recvFrom (maxSize : ℕ)
  | shutdownRecv
  | finishBind
  deriving DecidableEq, Repr

def next (getSize : α → ℕ) (rcvBufSize : ℕ) : Input α → Socket α → Socket α
  | .setRecvCallback, s => { s with receivedData := true }
  | .forwardUp p, s => s.forwardUp getSize rcvBufSize p
  | .recvFrom maxSize, s => (s.recvFrom getSize maxSize).2
  | .shutdownRecv, s => { s with shutdownRecv := true }
  | .finishBind, s => { s with shutdownRecv := false }

def run (getSize : α → ℕ) (rcvBufSize : ℕ) (inputs : List (Input α)) (s : Socket α) : Socket α :=
  inputs.foldl (fun s input => next getSize rcvBufSize input s) s

end SyncPaxos.UdpReceive
