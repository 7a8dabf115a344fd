import Mathlib.Algebra.BigOperators.Group.List.Basic
import Mathlib.Tactic.Common
import SyncPaxos.Model.UdpReceive

/-!
# Receiving — every datagram is handled once, and when it arrives

The counter of a receive queue is the size of what waits in it, so the unsigned arithmetic never wraps
around (`queue_correct`).  A handler leaves nothing in the queue; from then on it sees every datagram
alone, when it arrives (`handled_on_arrival`).
-/

namespace SyncPaxos.UdpReceive

variable {α : Type} {getSize : α → ℕ} {rcvBufSize : ℕ} {s : Socket α}

/-- What holds of a receive queue. -/
structure Sound (getSize : α → ℕ) (rcvBufSize : ℕ) (s : Socket α) : Prop where
  /-- First come, first served, and each of them once. -/
  accepted : s.accepted = s.handled ++ s.deliveryQueue
  available : s.rxAvailable = (s.deliveryQueue.map getSize).sum
  room : s.rxAvailable ≤ rcvBufSize

/-- What a datagram that is taken leaves. -/
theorem Sound.taken (h : Sound getSize rcvBufSize s) {p : α} {rest : List α}
    (hqueue : s.deliveryQueue = p :: rest) : Sound getSize rcvBufSize { s with
      deliveryQueue := rest
      rxAvailable := (rest.map getSize).sum
      handled := s.handled ++ [p] } := by
  refine ⟨?_, rfl, ?_⟩
  · rw [h.accepted, hqueue, List.append_assoc]
    rfl
  · have hle := h.room
    rw [h.available, hqueue, List.map_cons, List.sum_cons] at hle
    exact (Nat.le_add_left _ _).trans hle

section Steps

variable (hfits : ∀ p, rcvBufSize + getSize p < 2 ^ 32)
include hfits

/-- Taking the first datagram. -/
theorem recvFrom_cons (h : Sound getSize rcvBufSize s) {p : α} {rest : List α}
    (hqueue : s.deliveryQueue = p :: rest) {maxSize : ℕ} (hle : getSize p ≤ maxSize) :
    s.recvFrom getSize maxSize = (some p, { s with
      deliveryQueue := rest
      rxAvailable := (rest.map getSize).sum
      handled := s.handled ++ [p] }) := by
  have hsum : s.rxAvailable = getSize p + (rest.map getSize).sum := by
    rw [h.available, hqueue, List.map_cons, List.sum_cons]
  have hlt := hfits p
  have hroom := h.room
  -- The counter is at least what is taken from it.
  have hcount : (s.rxAvailable + 2 ^ 32 - getSize p) % 2 ^ 32 = (rest.map getSize).sum := by
    omega
  simp only [Socket.recvFrom, hqueue, if_pos hle, hcount]

theorem Sound.recvFrom (h : Sound getSize rcvBufSize s) (maxSize : ℕ) :
    Sound getSize rcvBufSize (s.recvFrom getSize maxSize).2 := by
  cases hqueue : s.deliveryQueue with
  | nil =>
      simpa only [Socket.recvFrom, hqueue] using h
  | cons p rest =>
      by_cases hle : getSize p ≤ maxSize
      · rw [recvFrom_cons hfits h hqueue hle]
        exact h.taken hqueue
      · simpa only [Socket.recvFrom, hqueue, if_neg hle] using h

/-- The loop of a handler ends, with nothing left. -/
theorem readAll_eq (h : Sound getSize rcvBufSize s) : s.readAll getSize (s.deliveryQueue.length + 1) =
    { s with deliveryQueue := [], rxAvailable := 0, handled := s.handled ++ s.deliveryQueue } := by
  generalize hqueue : s.deliveryQueue = queue
  induction queue generalizing s with
  | nil =>
      have hzero : s.rxAvailable = 0 := by
        rw [h.available, hqueue]
        rfl
      simp only [Socket.readAll, Socket.recvFrom, hqueue, List.append_nil]
      rw [← hzero, ← hqueue]
  | cons p rest ih =>
      have hle : getSize p ≤ 2 ^ 32 - 1 := by
        have hlt := hfits p
        omega
      rw [List.length_cons, Socket.readAll, recvFrom_cons hfits h hqueue hle]
      simp only
      rw [ih (h.taken hqueue) rfl, List.append_assoc]
      rfl

/-- What an arrival does: nothing, or the datagram is queued, and handled with what waits if there is
a handler. -/
theorem forwardUp_cases (h : Sound getSize rcvBufSize s) (p : α) :
    (s.shutdownRecv = true ∨ rcvBufSize < (s.deliveryQueue.map getSize).sum + getSize p) ∧
      s.forwardUp getSize rcvBufSize p = s ∨
    (s.shutdownRecv = false ∧ (s.deliveryQueue.map getSize).sum + getSize p ≤ rcvBufSize) ∧
      s.forwardUp getSize rcvBufSize p =
        if s.receivedData then
          { s with
            deliveryQueue := []
            rxAvailable := 0
            accepted := s.accepted ++ [p]
            handled := s.handled ++ (s.deliveryQueue ++ [p]) }
        else
          { s with
            deliveryQueue := s.deliveryQueue ++ [p]
            rxAvailable := (s.deliveryQueue.map getSize).sum + getSize p
            accepted := s.accepted ++ [p] } := by
  have hlt := hfits p
  have hroom := h.room
  have hwrap : (s.rxAvailable + getSize p) % 2 ^ 32 = s.rxAvailable + getSize p := by
    apply Nat.mod_eq_of_lt
    omega
  rw [Socket.forwardUp, hwrap, ← h.available]
  by_cases hshut : s.shutdownRecv = true
  · exact .inl ⟨.inl hshut, if_pos hshut⟩
  · rw [if_neg hshut]
    by_cases hle : s.rxAvailable + getSize p ≤ rcvBufSize
    · refine .inr ⟨⟨Bool.eq_false_iff.2 hshut, hle⟩, ?_⟩
      have hqueued : Sound getSize rcvBufSize { s with
          deliveryQueue := s.deliveryQueue ++ [p]
          rxAvailable := s.rxAvailable + getSize p
          accepted := s.accepted ++ [p] } := by
        refine ⟨?_, ?_, hle⟩
        · simp only [h.accepted, List.append_assoc]
        · simp only [h.available, List.map_append, List.sum_append, List.map_singleton,
            List.sum_singleton]
      rw [if_pos hle, Socket.notifyDataRecv]
      by_cases hdata : s.receivedData = true
      · rw [if_pos hdata, if_pos hdata]
        exact readAll_eq hfits hqueued
      · rw [if_neg hdata, if_neg hdata]
    · exact .inl ⟨.inr (Nat.lt_of_not_le hle), if_neg hle⟩

theorem Sound.next (h : Sound getSize rcvBufSize s) (input : Input α) :
    Sound getSize rcvBufSize (next getSize rcvBufSize input s) := by
  cases input with
  | forwardUp p =>
      change Sound getSize rcvBufSize (s.forwardUp getSize rcvBufSize p)
      rcases forwardUp_cases hfits h p with ⟨-, heq⟩ | ⟨⟨-, hle⟩, heq⟩
      · rw [heq]
        exact h
      · rw [heq]
        split
        · exact ⟨by simp [h.accepted], rfl, Nat.zero_le _⟩
        · exact ⟨by simp [h.accepted], by simp, hle⟩
  | recvFrom maxSize =>
      exact h.recvFrom hfits maxSize
  | _ =>
      exact ⟨h.accepted, h.available, h.room⟩

theorem Sound.run (h : Sound getSize rcvBufSize s) (inputs : List (Input α)) :
    Sound getSize rcvBufSize (run getSize rcvBufSize inputs s) := by
  induction inputs generalizing s with
  | nil =>
      exact h
  | cons input inputs ih =>
      exact ih (h.next hfits input)

end Steps

/-- In every run, whatever arrives and is read: what was queued has been read or waits, each datagram
once and in order; the counter is the size of what waits, and the buffer is never exceeded. -/
theorem queue_correct (hfits : ∀ p, rcvBufSize + getSize p < 2 ^ 32) (inputs : List (Input α)) :
    Sound getSize rcvBufSize (run getSize rcvBufSize inputs {}) :=
  Sound.run hfits ⟨rfl, rfl, Nat.zero_le _⟩ inputs

/-- Datagrams of less than 1000 bytes in a buffer of the default size. -/
theorem fits_default (p : Fin 1000) : 131072 + (p : ℕ) < 2 ^ 32 := by
  have hlt := p.isLt
  omega

/-- The first of two datagrams is read. -/
theorem queue_correct_two_datagrams :
    (run Fin.val 131072 [.forwardUp (600 : Fin 1000), .forwardUp 500, .recvFrom 700] {}).deliveryQueue =
        [500] ∧
      Sound Fin.val 131072
        (run Fin.val 131072 [.forwardUp (600 : Fin 1000), .forwardUp 500, .recvFrom 700] {}) :=
  ⟨by decide, queue_correct fits_default _⟩

/-! ## With a handler -/

/-- The datagrams that arrive while the socket is not shut down. -/
def arriving : Bool → List (Input α) → List α
  | _, [] => []
  | false, .forwardUp p :: inputs => p :: arriving false inputs
  | _, .shutdownRecv :: inputs => arriving true inputs
  | _, .finishBind :: inputs => arriving false inputs
  | shutdown, _ :: inputs => arriving shutdown inputs

/-- A datagram that is larger than the whole buffer is dropped even if nothing waits. -/
abbrev fitsBuffer (getSize : α → ℕ) (rcvBufSize : ℕ) (p : α) : Bool := getSize p ≤ rcvBufSize

/-- What a step adds to them. -/
theorem next_of_empty (hfits : ∀ p, rcvBufSize + getSize p < 2 ^ 32)
    (h : Sound getSize rcvBufSize s) (hdata : s.receivedData = true) (hempty : s.deliveryQueue = []) (input : Input α)
    (inputs : List (Input α)) :
    (next getSize rcvBufSize input s).receivedData = true ∧
      (next getSize rcvBufSize input s).deliveryQueue = [] ∧
      (next getSize rcvBufSize input s).handled ++
          (arriving (next getSize rcvBufSize input s).shutdownRecv inputs).filter
            (fitsBuffer getSize rcvBufSize) =
        s.handled ++ (arriving s.shutdownRecv (input :: inputs)).filter
          (fitsBuffer getSize rcvBufSize) := by
  cases input with
  | forwardUp p =>
      have hnext : next getSize rcvBufSize (.forwardUp p) s = s.forwardUp getSize rcvBufSize p := rfl
      rw [hnext]
      rcases forwardUp_cases hfits h p with ⟨hdropped, heq⟩ | ⟨⟨hopen, hfree⟩, heq⟩
      · -- An empty queue has room, unless the datagram is larger than all of it.
        rw [heq]
        refine ⟨hdata, hempty, ?_⟩
        cases hshut : s.shutdownRecv with
        | true =>
            rfl
        | false =>
            have hlarge : rcvBufSize < getSize p := by
              rcases hdropped with hshut' | hfull
              · cases hshut.symm.trans hshut'
              · rw [hempty] at hfull
                exact hfull.trans_eq (Nat.zero_add _)
            have hno : ¬ getSize p ≤ rcvBufSize := Nat.not_le_of_lt hlarge
            simp [arriving, hno]
      · rw [if_pos hdata] at heq
        rw [heq]
        have hfit : getSize p ≤ rcvBufSize := by
          rw [hempty] at hfree
          exact (Nat.zero_add _).symm.trans_le hfree
        refine ⟨hdata, rfl, ?_⟩
        simp [arriving, hempty, hopen, hfit]
  | recvFrom maxSize =>
      have hsame : next getSize rcvBufSize (.recvFrom maxSize) s = s := by
        simp only [next, Socket.recvFrom, hempty]
      rw [hsame]
      refine ⟨hdata, hempty, ?_⟩
      cases s.shutdownRecv <;> rfl
  | setRecvCallback =>
      refine ⟨rfl, hempty, ?_⟩
      cases hshut : s.shutdownRecv <;> simp [next, arriving, hshut]
  | shutdownRecv =>
      refine ⟨hdata, hempty, ?_⟩
      cases s.shutdownRecv <;> rfl
  | finishBind =>
      refine ⟨hdata, hempty, ?_⟩
      cases s.shutdownRecv <;> rfl

/-- Once a handler is installed and nothing waits, in every run: every datagram that arrives while the
socket is not shut down and that is no larger than the buffer is handled, at once and in order, and
nothing else is. -/
theorem handled_on_arrival (hfits : ∀ p, rcvBufSize + getSize p < 2 ^ 32) (before inputs : List (Input α))
    (hdata : (run getSize rcvBufSize before {}).receivedData = true)
    (hempty : (run getSize rcvBufSize before {}).deliveryQueue = []) :
    (run getSize rcvBufSize (before ++ inputs) {}).deliveryQueue = [] ∧
      (run getSize rcvBufSize (before ++ inputs) {}).handled =
        (run getSize rcvBufSize before {}).handled ++
          (arriving (run getSize rcvBufSize before {}).shutdownRecv inputs).filter
            (fitsBuffer getSize rcvBufSize) := by
  have hs : Sound getSize rcvBufSize (run getSize rcvBufSize before {}) :=
    queue_correct hfits before
  have happend : run getSize rcvBufSize (before ++ inputs) {} =
      run getSize rcvBufSize inputs (run getSize rcvBufSize before {}) :=
    List.foldl_append
  rw [happend]
  clear happend
  generalize run getSize rcvBufSize before {} = s at hs hdata hempty
  induction inputs generalizing s with
  | nil =>
      exact ⟨hempty, (List.append_nil _).symm⟩
  | cons input inputs ih =>
      rcases next_of_empty hfits hs hdata hempty input inputs with ⟨hdata', hempty', hhandled⟩
      rcases ih _ (hs.next hfits input) hdata' hempty' with ⟨hnone, hall⟩
      exact ⟨hnone, hall.trans hhandled⟩

/-- A datagram that arrives between the shutdown and the next `Bind` is lost. -/
theorem handled_on_arrival_three_datagrams :
    (run Fin.val 131072 ([.setRecvCallback] ++ [.forwardUp (600 : Fin 1000), .shutdownRecv,
      .forwardUp 500, .finishBind, .forwardUp 7]) {}).handled = [600, 7] := by
  have hall := (handled_on_arrival fits_default [.setRecvCallback]
    [.forwardUp (600 : Fin 1000), .shutdownRecv, .forwardUp 500, .finishBind, .forwardUp 7]
    rfl rfl).2
  rw [hall]
  decide

end SyncPaxos.UdpReceive
