import Mathlib.Algebra.Order.Group.Nat
import Mathlib.Data.List.Nodup
import Mathlib.Data.List.Infix
import Mathlib.Logic.Function.Iterate
import Mathlib.Tactic.Common
import SyncPaxos.Model.Sockets

/-!
# Ports — which ports the demultiplexer gives out

The search for an ephemeral port goes around the 16384 ports of the range once, from the one that was
given out last.  It fails exactly when all of them are in use (`findPort_spec`).
-/

namespace SyncPaxos.Sockets.Ipv4EndPointDemux

variable {s : Ipv4EndPointDemux}

/-- An ephemeral port. -/
def IsEphemeral (port : ℕ) : Prop := portFirst ≤ port ∧ port ≤ portLast

theorem nextPort_eq {port : ℕ} (h : IsEphemeral port) :
    nextPort port = portFirst + (port - portFirst + 1) % (portLast - portFirst + 1) := by
  simp only [IsEphemeral, portFirst, portLast] at h
  simp only [nextPort, portFirst, portLast]
  by_cases hlast : port = 65535
  · subst hlast
    decide
  · rw [if_neg (by omega)]
    omega

theorem isEphemeral_nextPort {port : ℕ} (h : IsEphemeral port) : IsEphemeral (nextPort port) := by
  have hlt : (port - portFirst + 1) % (portLast - portFirst + 1) < portLast - portFirst + 1 :=
    Nat.mod_lt _ (by decide)
  rw [nextPort_eq h]
  simp only [IsEphemeral, portFirst, portLast] at hlt ⊢
  omega

theorem isEphemeral_iterate {port : ℕ} (h : IsEphemeral port) (k : ℕ) :
    IsEphemeral (nextPort^[k] port) := by
  induction k generalizing port with
  | zero =>
      exact h
  | succ k ih =>
      exact ih (isEphemeral_nextPort h)

theorem iterate_nextPort {port : ℕ} (h : IsEphemeral port) (k : ℕ) :
    nextPort^[k] port = portFirst + (port - portFirst + k) % (portLast - portFirst + 1) := by
  induction k with
  | zero =>
      simp only [IsEphemeral, portFirst, portLast] at h ⊢
      simp only [Function.iterate_zero, id_eq]
      omega
  | succ k ih =>
      rw [Function.iterate_succ_apply', nextPort_eq (isEphemeral_iterate h k), ih,
        Nat.add_sub_cancel_left, Nat.mod_add_mod, Nat.add_assoc]

/-- Once around the range every port is met. -/
theorem exists_iterate {port target : ℕ} (h : IsEphemeral port) (ht : IsEphemeral target) :
    ∃ k < portLast - portFirst + 1, nextPort^[k + 1] port = target := by
  simp only [IsEphemeral, portFirst, portLast] at h ht
  -- The distance that is left, less the round that comes first.
  refine ⟨(target + 16384 - port + 16383) % 16384, Nat.mod_lt _ (by decide), ?_⟩
  rw [iterate_nextPort h]
  simp only [portFirst, portLast]
  omega

/-- The search gives the first port that is free, if one of the next `count` ports is. -/
theorem findPort_spec {port : ℕ} (h : IsEphemeral port) (count : ℕ) :
    (s.findPort count port = 0 ∧ ∀ k < count, s.lookupPortLocal (nextPort^[k + 1] port) = true) ∨
      ∃ k < count, s.findPort count port = nextPort^[k + 1] port ∧
        s.lookupPortLocal (nextPort^[k + 1] port) = false ∧
        ∀ j < k, s.lookupPortLocal (nextPort^[j + 1] port) = true := by
  -- The ports that are met from the next one on are those of this search but the first.
  induction count generalizing port with
  | zero =>
      exact .inl ⟨rfl, fun k hk => absurd hk (Nat.not_lt_zero k)⟩
  | succ count ih =>
      rw [findPort]
      cases hused : s.lookupPortLocal (nextPort port) with
      | false =>
          exact .inr ⟨0, Nat.succ_pos count, rfl, hused, fun j hj => absurd hj (Nat.not_lt_zero j)⟩
      | true =>
          have hall : ∀ k, (∀ j < k, s.lookupPortLocal (nextPort^[j + 1] (nextPort port)) = true) →
              ∀ j < k + 1, s.lookupPortLocal (nextPort^[j + 1] port) = true := by
            intro k hk j hj
            cases j with
            | zero => exact hused
            | succ j => exact hk j (Nat.lt_of_succ_lt_succ hj)
          rcases ih (isEphemeral_nextPort h) with ⟨hzero, hbusy⟩ | ⟨k, hk, hfind, hfree, hbusy⟩
          · exact .inl ⟨hzero, hall count hbusy⟩
          · exact .inr ⟨k + 1, Nat.succ_lt_succ hk, hfind, hfree, hall k hbusy⟩

theorem lookupPortLocal_eq_false {port : ℕ} :
    s.lookupPortLocal port = false ↔ ∀ i ∈ s.endPoints, i.2.localPort ≠ port := by
  simp [lookupPortLocal]

/-- The next free port, counted from `port`. -/
def IsNextFree (s : Ipv4EndPointDemux) (port free : ℕ) : Prop :=
  ∃ k, free = nextPort^[k + 1] port ∧ s.lookupPortLocal free = false ∧
    ∀ j < k, s.lookupPortLocal (nextPort^[j + 1] port) = true

/-- Either all ephemeral ports are in use, or the next one that is not is given out. -/
theorem allocateAddress_cases (h : IsEphemeral s.ephemeral) (a : Ipv4Address) :
    (s.allocateAddress a = (none, s) ∧ ∀ port, IsEphemeral port → s.lookupPortLocal port = true) ∨
      ∃ port, IsEphemeral port ∧ s.IsNextFree s.ephemeral port ∧
        s.allocateAddress a =
          { s with ephemeral := port }.add { localAddr := a, localPort := port } := by
  rcases findPort_spec (s := s) h (portLast - portFirst + 1) with
    ⟨hzero, hbusy⟩ | ⟨k, -, hfind, hfree, hbusy⟩
  · refine .inl ⟨?_, ?_⟩
    · simp [allocateAddress, allocateEphemeralPort, hzero]
    · intro port hport
      rcases exists_iterate h hport with ⟨k, hk, rfl⟩
      exact hbusy k hk
  · have hport := isEphemeral_iterate h (k + 1)
    have hpos : nextPort^[k + 1] s.ephemeral ≠ 0 := by
      have hle : portFirst ≤ nextPort^[k + 1] s.ephemeral := hport.1
      have hfirst : 0 < portFirst := by decide
      omega
    refine .inr ⟨_, hport, ⟨k, rfl, hfree, hbusy⟩, ?_⟩
    simp only [allocateAddress, allocateEphemeralPort, hfind, if_neg hpos]

end SyncPaxos.Sockets.Ipv4EndPointDemux
