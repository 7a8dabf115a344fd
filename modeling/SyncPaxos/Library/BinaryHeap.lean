import Mathlib.Logic.Equiv.Basic
import Mathlib.Order.Lattice
import Mathlib.Tactic.Common

/-!
# BinaryHeap — heaps in an array counted from one

The parent of index `i` is `i / 2`, the children are `2 * i` and `2 * i + 1`.  A heap is repaired by
exchanges along one path.  `Rising a n k` says that entry `k` may be too small for its place, and
`Sinking a n k` that it may be too large; each has a rule for one exchange and a rule for the end.
-/

namespace BinaryHeap

universe u

variable {κ : Type u} {a : ℕ → κ} {n k c : ℕ}

/-- The array with two entries exchanged. -/
def exch {α : Type u} (a : ℕ → α) (i j : ℕ) : ℕ → α := fun x => a (Equiv.swap i j x)

theorem exch_left {α : Type u} (a : ℕ → α) (i j : ℕ) : exch a i j i = a j := by
  rw [exch, Equiv.swap_apply_left]

theorem exch_right {α : Type u} (a : ℕ → α) (i j : ℕ) : exch a i j j = a i := by
  rw [exch, Equiv.swap_apply_right]

theorem exch_of_ne {α : Type u} (a : ℕ → α) {i j x : ℕ} (hi : x ≠ i) (hj : x ≠ j) :
    exch a i j x = a x := by
  rw [exch, Equiv.swap_apply_of_ne_of_ne hi hj]

variable [LinearOrder κ]

/-- No entry is smaller than its parent. -/
def Ordered (a : ℕ → κ) (n : ℕ) : Prop := ∀ i, 2 ≤ i → i ≤ n → a (i / 2) ≤ a i

/-- The root of a heap is its least entry. -/
theorem Ordered.root_le (h : Ordered a n) : ∀ i, 1 ≤ i → i ≤ n → a 1 ≤ a i := by
  intro i
  induction i using Nat.strongRecOn with
  | ind i ih =>
      intro hpos hle
      by_cases hroot : i = 1
      · rw [hroot]
      · have hparent : a 1 ≤ a (i / 2) := ih (i / 2) (by omega) (by omega) (by omega)
        exact hparent.trans (h i (by omega) hle)

theorem Ordered.mono {m : ℕ} (h : Ordered a n) (hm : m ≤ n) : Ordered a m :=
  fun i hi him => h i hi (by omega)

/-! ## An entry that is too small -/

/-- A heap but for entry `k`, which may be smaller than its parent. -/
structure Rising (a : ℕ → κ) (n k : ℕ) : Prop where
  others : ∀ i, 2 ≤ i → i ≤ n → i ≠ k → a (i / 2) ≤ a i
  /-- The children of `k` are not smaller than its parent. -/
  grand : ∀ i, 2 ≤ i → i ≤ n → i / 2 = k → 2 ≤ k → a (k / 2) ≤ a i

namespace Rising

/-- A new last entry. -/
theorem push (h : Ordered a (n - 1)) : Rising a n n := by
  refine ⟨?_, ?_⟩
  · intro i hi hin hne
    exact h i hi (by omega)
  · intro i hi hin hparent
    omega

theorem ordered (h : Rising a n k) (hstop : 2 ≤ k → k ≤ n → a (k / 2) ≤ a k) : Ordered a n := by
  intro i hi hin
  by_cases hik : i = k
  · subst hik
    exact hstop hi hin
  · exact h.others i hi hin hik

/-- The entry changes places with its parent. -/
theorem exch (h : Rising a n k) (hk : 2 ≤ k) (hkn : k ≤ n) (hlt : a k < a (k / 2)) :
    Rising (exch a k (k / 2)) n (k / 2) := by
  have hparent : 2 ≤ k / 2 → a (k / 2 / 2) ≤ a (k / 2) := by
    intro hp
    exact h.others (k / 2) hp (by omega) (by omega)
  refine ⟨?_, ?_⟩
  · intro i hi hin hne
    by_cases hik : i = k
    · subst hik
      rw [exch_left, exch_right]
      exact hlt.le
    · rw [exch_of_ne a hik hne]
      by_cases hchild : i / 2 = k
      · rw [hchild, exch_left]
        exact h.grand i hi hin hchild hk
      · by_cases hsibling : i / 2 = k / 2
        · rw [hsibling, exch_right]
          have hle := h.others i hi hin hik
          rw [hsibling] at hle
          exact hlt.le.trans hle
        · rw [exch_of_ne a hchild hsibling]
          exact h.others i hi hin hik
  · intro i hi hin hchild hp
    rw [exch_of_ne a (show k / 2 / 2 ≠ k by omega) (show k / 2 / 2 ≠ k / 2 by omega)]
    by_cases hik : i = k
    · subst hik
      rw [exch_left]
      exact hparent hp
    · rw [exch_of_ne a hik (by omega)]
      have hle := h.others i hi hin hik
      rw [hchild] at hle
      exact (hparent hp).trans hle

end Rising

/-! ## An entry that is too large -/

/-- A heap but for entry `k`, which may be larger than its children. -/
structure Sinking (a : ℕ → κ) (n k : ℕ) : Prop where
  others : ∀ i, 2 ≤ i → i ≤ n → i / 2 ≠ k → a (i / 2) ≤ a i
  /-- The children of `k` are not smaller than its parent. -/
  grand : ∀ i, 2 ≤ i → i ≤ n → i / 2 = k → 2 ≤ k → a (k / 2) ≤ a i

namespace Sinking

/-- The root is replaced. -/
theorem root {b : ℕ → κ} (h : Ordered a n) (hsame : ∀ i, 2 ≤ i → i ≤ n → b i = a i) :
    Sinking b n 1 := by
  refine ⟨?_, ?_⟩
  · intro i hi hin hne
    rw [hsame i hi hin, hsame (i / 2) (by omega) (by omega)]
    exact h i hi hin
  · intro i hi hin hchild hk
    omega

theorem ordered (h : Sinking a n k) (hstop : ∀ i, 2 ≤ i → i ≤ n → i / 2 = k → a k ≤ a i) :
    Ordered a n := by
  intro i hi hin
  by_cases hchild : i / 2 = k
  · rw [hchild]
    exact hstop i hi hin hchild
  · exact h.others i hi hin hchild

/-- The entry changes places with its smaller child. -/
theorem exch (h : Sinking a n k) (hk : 1 ≤ k) (hc : c / 2 = k) (hcn : c ≤ n)
    (hmin : ∀ i, 2 ≤ i → i ≤ n → i / 2 = k → a c ≤ a i) (hle : a c ≤ a k) :
    Sinking (exch a k c) n c := by
  refine ⟨?_, ?_⟩
  · intro i hi hin hne
    by_cases hik : i = k
    · subst hik
      rw [exch_left, exch_of_ne a (show i / 2 ≠ i by omega) hne]
      exact h.grand c (by omega) hcn hc hi
    · by_cases hic : i = c
      · subst hic
        rw [exch_right, hc, exch_left]
        exact hle
      · rw [exch_of_ne a hik hic]
        by_cases hchild : i / 2 = k
        · rw [hchild, exch_left]
          exact hmin i hi hin hchild
        · rw [exch_of_ne a hchild hne]
          exact h.others i hi hin hchild
  · intro i hi hin hchild hc2
    rw [hc, exch_left, exch_of_ne a (show i ≠ k by omega) (show i ≠ c by omega)]
    have hbelow := h.others i hi hin (by omega)
    rw [hchild] at hbelow
    exact hbelow

end Sinking

end BinaryHeap
