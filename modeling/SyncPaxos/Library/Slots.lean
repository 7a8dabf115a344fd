import Mathlib.Data.List.ReduceOption
import Mathlib.Data.List.Perm.Basic
import Mathlib.Tactic.Common

/-!
# Slots — a list of places, some of which are empty

What is in the other slots does not depend on what is done with one of them.
-/

namespace Slots

universe u

variable {α : Type u} {slots : List (Option α)} {i j : ℕ} {x y : α}

/-- What is in the `i`-th slot. -/
def get (slots : List (Option α)) (i : ℕ) : Option α := slots[i]?.join

theorem get_eq_some : get slots i = some x ↔ slots[i]? = some (some x) := by
  rw [get, Option.join_eq_some_iff]

theorem mem_of_get (h : get slots i = some x) : x ∈ slots.reduceOption :=
  List.reduceOption_mem_iff.2 (List.mem_of_getElem? (get_eq_some.1 h))

/-- Putting back what is there. -/
theorem set_of_get (h : get slots i = some x) : slots.set i (some x) = slots := by
  rcases List.getElem?_eq_some_iff.1 (get_eq_some.1 h) with ⟨hi, hx⟩
  rw [← hx]
  exact List.set_getElem_self hi

/-- One slot and the others. -/
theorem exists_perm_of_get (h : get slots i = some x) :
    ∃ rest, slots.reduceOption.Perm (x :: rest) ∧
      (∀ y, (slots.set i (some y)).reduceOption.Perm (y :: rest)) ∧
      (slots.set i none).reduceOption.Perm rest ∧
      ∀ j y, j ≠ i → get slots j = some y → y ∈ rest := by
  rw [get_eq_some] at h
  induction slots generalizing i with
  | nil => cases h
  | cons slot slots ih =>
      cases i with
      | zero =>
          cases h
          refine ⟨slots.reduceOption, ?_, ?_, ?_, ?_⟩
          · rw [List.reduceOption_cons_of_some]
          · intro y
            rw [List.set_cons_zero, List.reduceOption_cons_of_some]
          · rw [List.set_cons_zero, List.reduceOption_cons_of_none]
          · intro j y hj hget
            cases j with
            | zero => exact absurd rfl hj
            | succ j => exact mem_of_get (i := j) hget
      | succ i =>
          rcases ih h with ⟨rest, hperm, hset, hnone, hother⟩
          cases slot with
          | none =>
              refine ⟨rest, hperm, hset, hnone, ?_⟩
              intro j y hj hget
              cases j with
              | zero => cases hget
              | succ j => exact hother j y (fun he => hj (congrArg _ he)) hget
          | some z =>
              refine ⟨z :: rest, ?_, ?_, ?_, ?_⟩
              · exact (hperm.cons z).trans (.swap _ _ _)
              · exact fun y => ((hset y).cons z).trans (.swap _ _ _)
              · exact hnone.cons z
              · intro j y hj hget
                cases j with
                | zero =>
                    cases hget
                    exact List.mem_cons_self
                | succ j =>
                    exact List.mem_cons_of_mem _ (hother j y (fun he => hj (congrArg _ he)) hget)

end Slots
