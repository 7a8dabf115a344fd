import Mathlib.Data.List.Range
import Mathlib.Tactic.Common

/-!
# Window — stretches of an array

`window a i n` lists the `n` entries of the array `a` from `i` on, and `write a i bs` puts a list there.
A window is what was written to it, and no other window notices.
-/

namespace Window

universe u

variable {α : Type u} {a b : ℕ → α} {i j k m n : ℕ} {bs : List α}

def window (a : ℕ → α) (i n : ℕ) : List α := (List.range n).map fun k => a (i + k)

def write (a : ℕ → α) (i : ℕ) (bs : List α) : ℕ → α :=
  fun k => if i ≤ k then bs[k - i]?.getD (a k) else a k

@[simp] theorem length_window (a : ℕ → α) (i n : ℕ) : (window a i n).length = n := by
  simp [window]

@[simp] theorem window_zero (a : ℕ → α) (i : ℕ) : window a i 0 = [] := rfl

theorem getElem?_window : (window a i n)[k]? = if k < n then some (a (i + k)) else none := by
  by_cases hk : k < n
  · simp [window, hk]
  · simp [window, hk]

/-- A window is one after another. -/
theorem window_add (a : ℕ → α) (i m n : ℕ) :
    window a i (m + n) = window a i m ++ window a (i + m) n := by
  simp only [window, List.range_add, List.map_append, List.map_map]
  refine congrArg _ (List.map_congr_left ?_)
  intro k _
  rw [Function.comp_apply, Nat.add_assoc]

theorem window_congr (h : ∀ k, i ≤ k → k < i + n → a k = b k) : window a i n = window b i n := by
  refine List.map_congr_left ?_
  intro k hk
  have hlt := List.mem_range.1 hk
  exact h (i + k) (by omega) (by omega)

theorem take_window (a : ℕ → α) (i n k : ℕ) : (window a i n).take k = window a i (min k n) := by
  by_cases hk : k ≤ n
  · obtain ⟨m, rfl⟩ := Nat.exists_eq_add_of_le hk
    rw [window_add, List.take_left' (length_window a i k), Nat.min_eq_left hk]
  · rw [List.take_of_length_le (by rw [length_window]; omega), Nat.min_eq_right (by omega)]

/-! ## Writing -/

/-- What was written is there. -/
theorem window_write (a : ℕ → α) (i : ℕ) (bs : List α) : window (write a i bs) i bs.length = bs := by
  refine List.ext_getElem? ?_
  intro k
  rw [getElem?_window]
  by_cases hk : k < bs.length
  · rw [if_pos hk, write, if_pos (Nat.le_add_right i k), Nat.add_sub_cancel_left,
      List.getElem?_eq_getElem hk]
    rfl
  · rw [if_neg hk, List.getElem?_eq_none (not_lt.1 hk)]

/-- Nothing else has changed. -/
theorem write_of_outside (h : k < i ∨ i + bs.length ≤ k) : write a i bs k = a k := by
  rw [write]
  split
  · rw [List.getElem?_eq_none (by omega)]
    rfl
  · rfl

@[simp] theorem write_nil (a : ℕ → α) (i : ℕ) : write a i [] = a := by
  funext k
  simp [write]

/-- Writing one after the other. -/
theorem write_cons (a : ℕ → α) (i : ℕ) (x : α) (bs : List α) :
    write (write a i [x]) (i + 1) bs = write a i (x :: bs) := by
  funext k
  rcases lt_trichotomy k i with hk | rfl | hk
  · rw [write_of_outside (by omega), write_of_outside (by omega), write_of_outside (by omega)]
  · rw [write_of_outside (by omega), write, write, if_pos le_rfl, if_pos le_rfl, Nat.sub_self]
    rfl
  · have hindex : k - i = k - (i + 1) + 1 := by omega
    rw [write, if_pos (by omega), write_of_outside (by simp; omega), write, if_pos hk.le, hindex,
      List.getElem?_cons_succ]

end Window
