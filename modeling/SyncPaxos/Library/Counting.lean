import Mathlib.Algebra.BigOperators.Group.Finset.Sigma
import Mathlib.Algebra.BigOperators.Ring.Finset
import Mathlib.Data.List.Count
import Mathlib.Data.List.Perm.Subperm
import Mathlib.Data.Finset.Card
import Mathlib.Tactic.Common

/-!
# Counting — multiplicities in lists, and majorities

`List.countP` through `filterMap`, over disjoint classes, and the facts that turn a list without
repetition into a set of voters or of sources.  Numbers that keep a distance are counted by the range
they lie in, and what has a key below `n` is counted key by key.
-/

namespace Counting

variable {α β : Type}

theorem countP_filterMap_any (f : α → Option β) (p : β → Bool) (l : List α) :
    (l.filterMap f).countP p = l.countP (fun a => (f a).any p) := by
  rw [List.countP_filterMap]
  refine List.countP_congr ?_
  intro a _
  cases f a <;> simp

/-- Two classes without a common element are counted apart. -/
theorem countP_add_le_of_disjoint {p q r : α → Bool} (hp : ∀ a, p a = true → r a = true)
    (hq : ∀ a, q a = true → r a = true) (hpq : ∀ a, p a = true → q a = false) (l : List α) :
    l.countP p + l.countP q ≤ l.countP r := by
  induction l with
  | nil =>
      simp
  | cons a l ih =>
      have hpa := hp a
      have hqa := hq a
      have hpqa := hpq a
      simp only [List.countP_cons]
      revert hpa hqa hpqa
      cases p a <;> cases q a <;> cases r a <;> simp <;> omega

/-- Of a list without repetition one entry contributes. -/
theorem flatMap_eq_of_nodup [DecidableEq α] {l : List α} {f : α → List β} {a : α} {bs : List β}
    (hnodup : l.Nodup) (h : ∀ b ∈ l, f b = if b = a then bs else []) :
    l.flatMap f = if a ∈ l then bs else [] := by
  induction l with
  | nil =>
      rfl
  | cons b l ih =>
      rcases List.nodup_cons.1 hnodup with ⟨hnotin, hnodup⟩
      rw [List.flatMap_cons, ih hnodup (fun c hc => h c (List.mem_cons_of_mem _ hc)),
        h b List.mem_cons_self]
      by_cases hb : b = a
      · subst hb
        simp [hnotin]
      · simp [hb, Ne.symm hb]

/-- It is what a filter leaves that nothing else passes. -/
theorem filter_eq_singleton {l : List α} {q : α → Bool} {a : α} (hnodup : l.Nodup) (ha : a ∈ l)
    (hq : q a = true) (hone : ∀ b ∈ l, q b = true → b = a) : l.filter q = [a] := by
  have hperm : (l.filter q).Perm [a] := by
    refine (List.perm_ext_iff_of_nodup (hnodup.filter q) (List.nodup_singleton a)).2 ?_
    intro b
    rw [List.mem_filter, List.mem_singleton]
    constructor
    · rintro ⟨hb, hqb⟩
      exact hone b hb hqb
    · rintro rfl
      exact ⟨ha, hq⟩
  exact List.perm_singleton.1 hperm

theorem filter_eq_nil {l : List α} {q : α → Bool} (h : ∀ a ∈ l, q a = false) :
    l.filter q = [] := by
  refine List.filter_eq_nil_iff.2 ?_
  intro a ha
  rw [h a ha]
  exact Bool.false_ne_true

/-- A list of voters below `n`, none of them `i` and none twice, has fewer than `n` entries. -/
theorem length_lt_of_nodup {l : List ℕ} {n i : ℕ} (hnodup : l.Nodup) (hlt : ∀ a ∈ l, a < n)
    (hne : i ∉ l) (hi : i < n) : l.length < n := by
  have hsub : insert i l.toFinset ⊆ Finset.range n := by
    intro a ha
    rcases Finset.mem_insert.1 ha with rfl | ha
    · exact Finset.mem_range.2 hi
    · exact Finset.mem_range.2 (hlt a (List.mem_toFinset.1 ha))
  have hcard := Finset.card_le_card hsub
  rw [Finset.card_insert_of_notMem (by simpa using hne), List.toFinset_card_of_nodup hnodup,
    Finset.card_range] at hcard
  omega

/-- Numbers of a range that are apart from each other are few. -/
theorem length_le_of_apart {l : List ℕ} {g lo hi : ℕ} (hg : 0 < g)
    (hrange : ∀ a ∈ l, lo ≤ a ∧ a < hi)
    (hapart : l.Pairwise (fun a b => a + g ≤ b ∨ b + g ≤ a)) :
    l.length ≤ (hi - 1 - lo) / g + 1 := by
  have hstep : ∀ {a b : ℕ}, lo ≤ a → a + g ≤ b → (a - lo) / g < (b - lo) / g := by
    intro a b ha hab
    have hle : (a - lo + g) / g ≤ (b - lo) / g := Nat.div_le_div_right (by omega)
    rw [Nat.add_div_right _ hg] at hle
    exact hle
  -- The quotients are different numbers of a smaller range.
  have hnodup : (l.map (fun a => (a - lo) / g)).Nodup := by
    refine List.pairwise_map.2 (List.Pairwise.imp_of_mem ?_ hapart)
    rintro a b ha hb (hab | hab)
    · exact (hstep (hrange a ha).1 hab).ne
    · exact (hstep (hrange b hb).1 hab).ne'
  have hsub : l.map (fun a => (a - lo) / g) ⊆ List.range ((hi - 1 - lo) / g + 1) := by
    intro k hk
    rcases List.mem_map.1 hk with ⟨a, ha, rfl⟩
    have hlt := (hrange a ha).2
    exact List.mem_range.2 (Nat.lt_succ_of_le (Nat.div_le_div_right (by omega)))
  have hle := (hnodup.subperm hsub).length_le
  rwa [List.length_map, List.length_range] at hle

/-! ## Sums over keys -/

/-- A class whose members have a key below `n` is counted key by key. -/
theorem countP_eq_sum (key : α → ℕ) {p : α → Bool} {n : ℕ} {l : List α}
    (h : ∀ a ∈ l, p a = true → key a < n) :
    l.countP p = ∑ k ∈ Finset.range n, l.countP (fun a => p a && key a == k) := by
  induction l with
  | nil =>
      simp
  | cons a l ih =>
      have hrest := ih (fun b hb => h b (List.mem_cons_of_mem _ hb))
      have hone : (if p a = true then 1 else 0) =
          ∑ k ∈ Finset.range n, if (p a && key a == k) = true then 1 else 0 := by
        cases hp : p a with
        | false =>
            simp
        | true =>
            have hlt := h a List.mem_cons_self hp
            simp [hlt]
      simp only [List.countP_cons, Finset.sum_add_distrib]
      rw [← hrest, ← hone]

/-- When everybody hears from everybody else, each number is added `n - 1` times. -/
theorem sum_others (n : ℕ) (g : ℕ → ℕ) :
    ∑ a ∈ Finset.range n, ∑ i ∈ (Finset.range n).erase a, g i =
      (n - 1) * ∑ i ∈ Finset.range n, g i := by
  have hflip : ∀ a i, a ∈ Finset.range n ∧ i ∈ (Finset.range n).erase a ↔
      a ∈ (Finset.range n).erase i ∧ i ∈ Finset.range n := by
    intro a i
    simp only [Finset.mem_erase]
    tauto
  rw [Finset.sum_comm' hflip, Finset.mul_sum]
  refine Finset.sum_congr rfl ?_
  intro i hi
  rw [Finset.sum_const, Finset.card_erase_of_mem hi, Finset.card_range, nsmul_eq_mul, Nat.cast_id]

end Counting
