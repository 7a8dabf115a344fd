import Mathlib.Data.List.Basic
import Mathlib.Order.Lattice
import Mathlib.Algebra.Order.Group.Nat
import Mathlib.Tactic.Common

/-!
# SingleServer — a server that takes its customers in the order in which they come

A customer is a pair of a time of arrival and a job.  It starts when it has come and its predecessor has
left the server free, so all times of a run follow from the arrivals.
-/

namespace SingleServer

universe u

variable {α : Type u} {occupies : α → ℕ} {free : ℕ} {l l' : List (ℕ × α)} {x : ℕ × α}

/-- The times at which the jobs start, if the server is free from `free` on. -/
def starts (occupies : α → ℕ) : ℕ → List (ℕ × α) → List (ℕ × α)
  | _, [] => []
  | free, (t, p) :: l => (max free t, p) :: starts occupies (max free t + occupies p) l

/-- When the server is free after all of its customers. -/
def freeAfter (occupies : α → ℕ) : ℕ → List (ℕ × α) → ℕ
  | free, [] => free
  | free, (t, p) :: l => freeAfter occupies (max free t + occupies p) l

theorem starts_append :
    starts occupies free (l ++ l') =
      starts occupies free l ++ starts occupies (freeAfter occupies free l) l' := by
  induction l generalizing free with
  | nil => rfl
  | cons x l ih =>
      rw [List.cons_append, starts, ih]
      rfl

theorem freeAfter_append :
    freeAfter occupies free (l ++ l') = freeAfter occupies (freeAfter occupies free l) l' := by
  induction l generalizing free with
  | nil => rfl
  | cons x l ih =>
      rw [List.cons_append, freeAfter, ih]
      rfl

/-- The jobs start in the order in which they came, each of them once. -/
theorem map_snd_starts (l : List (ℕ × α)) (free : ℕ) :
    (starts occupies free l).map Prod.snd = l.map Prod.snd := by
  induction l generalizing free with
  | nil => rfl
  | cons x l ih =>
      rw [starts, List.map_cons, ih]
      rfl

theorem le_of_mem_starts (hx : x ∈ starts occupies free l) : free ≤ x.1 := by
  induction l generalizing free with
  | nil => cases hx
  | cons y l ih =>
      rw [starts] at hx
      rcases List.mem_cons.1 hx with rfl | hx
      · exact le_max_left _ _
      · have hle := ih hx
        omega

/-- A job does not start before its predecessors have left the server. -/
theorem starts_pairwise (l : List (ℕ × α)) (free : ℕ) :
    (starts occupies free l).Pairwise fun x y => x.1 + occupies x.2 ≤ y.1 := by
  induction l generalizing free with
  | nil => exact .nil
  | cons x l ih =>
      rw [starts]
      exact List.pairwise_cons.2 ⟨fun y hy => le_of_mem_starts hy, ih _⟩

/-- A job does not start before it has come. -/
theorem forall₂_starts (l : List (ℕ × α)) (free : ℕ) :
    List.Forall₂ (fun x y => x.1 ≤ y.1 ∧ x.2 = y.2) l (starts occupies free l) := by
  induction l generalizing free with
  | nil => exact .nil
  | cons x l ih => exact .cons ⟨le_max_right _ _, rfl⟩ (ih _)

/-! ## How long a customer waits -/

variable {T n : ℕ}

/-- Customers that have come before the server is free leave one after the other. -/
theorem freeAfter_le_add_mul (hpast : ∀ x ∈ l, x.1 ≤ free) (hT : ∀ x ∈ l, occupies x.2 ≤ T) :
    freeAfter occupies free l ≤ free + l.length * T := by
  induction l generalizing free with
  | nil => simp [freeAfter]
  | cons x l ih =>
      have hx := hpast x (List.mem_cons_self ..)
      have hTx := hT x (List.mem_cons_self ..)
      have hpast' : ∀ y ∈ l, y.1 ≤ max free x.1 + occupies x.2 := by
        intro y hy
        have hy' := hpast y (List.mem_cons_of_mem _ hy)
        omega
      have hle := ih hpast' (fun y hy => hT y (List.mem_cons_of_mem _ hy))
      rw [freeAfter, List.length_cons, Nat.succ_mul]
      omega

/-- When all jobs have started, the server is free after one more. -/
theorem freeAfter_le_of_started (hfree : free ≤ n + T)
    (hstarted : ∀ x ∈ starts occupies free l, x.1 ≤ n) (hT : ∀ x ∈ l, occupies x.2 ≤ T) :
    freeAfter occupies free l ≤ n + T := by
  induction l generalizing free with
  | nil => exact hfree
  | cons x l ih =>
      rw [starts] at hstarted
      have hx := hstarted _ (List.mem_cons_self ..)
      have hTx := hT x (List.mem_cons_self ..)
      refine ih (by omega) (fun y hy => hstarted y (List.mem_cons_of_mem _ hy)) ?_
      exact fun y hy => hT y (List.mem_cons_of_mem _ hy)

end SingleServer
