import Mathlib.Data.List.Infix
import Mathlib.Data.List.Nodup
import Mathlib.Data.List.Perm.Subperm
import Mathlib.Data.List.Sort
import SyncPaxos.Library.Transition

/-!
# Closed — when a list is an initial segment of another

The elements of `m` come in an order, and `l` collects some of them, one at a time.  If `l` always
contains, with an element, everything that stands before it in `m`, then `l` lists the elements in
the order of `m` and leaves none out (`Transition.Reachable.isPrefix_of_closed`).

Two increasing lists need no common list to be compared with: they agree as far as each has only
elements of the other (`List.eq_of_pairwise_lt`).
-/

universe u v w

namespace List

variable {α : Type u} {l l₁ l₂ m m' : List α} {y : α}

/-- With an element, `l` contains everything that stands before it in `m`. -/
def ClosedIn (m l : List α) : Prop :=
  ∀ l₁ y l₂, m = l₁ ++ y :: l₂ → y ∈ l → l₁ ⊆ l

/-- An initial segment without `y` ends before `y`. -/
theorem IsPrefix.isPrefix_of_notMem (h : l <+: l₁ ++ y :: l₂) (hy : y ∉ l) : l <+: l₁ := by
  rcases prefix_or_prefix_of_prefix h (prefix_append l₁ (y :: l₂)) with hle | hle
  · exact hle
  · rcases hle with ⟨t, rfl⟩
    have ht : t <+: y :: l₂ := (prefix_append_right_inj l₁).1 h
    cases t with
    | nil =>
        rw [append_nil]
    | cons a t =>
        obtain rfl : a = y := (cons_prefix_cons.1 ht).1
        exact absurd (mem_append_right l₁ mem_cons_self) hy

theorem closedIn_of_isPrefix (hm : m.Nodup) (h : l <+: m) : ClosedIn m l := by
  intro l₁ y l₂ heq hy
  subst heq
  rcases prefix_or_prefix_of_prefix h (prefix_append l₁ (y :: l₂)) with hle | hle
  · exact absurd rfl ((nodup_append.1 hm).2.2 y (hle.subset hy) y mem_cons_self)
  · exact hle.subset

/-- The next element of a closed list is the next one of `m`. -/
theorem isPrefix_concat (hm : m.Nodup) (h : l <+: m) (hy : y ∈ m) (hnew : y ∉ l)
    (hclosed : ClosedIn m (l ++ [y])) : l ++ [y] <+: m := by
  rcases append_of_mem hy with ⟨l₁, l₂, rfl⟩
  have hle : l <+: l₁ := h.isPrefix_of_notMem hnew
  have hnodup : l₁.Nodup := (nodup_append.1 hm).1
  have hsub : l₁ ⊆ l := by
    intro a ha
    rcases mem_append.1 (hclosed l₁ y l₂ rfl (by simp) ha) with hal | hay
    · exact hal
    · obtain rfl : a = y := mem_singleton.1 hay
      exact absurd rfl ((nodup_append.1 hm).2.2 a ha a mem_cons_self)
  obtain rfl : l = l₁ := hle.eq_of_length_le (hnodup.subperm hsub).length_le
  exact ⟨l₂, by simp⟩

/-- Sorting by a key finds the one order in which the keys increase. -/
theorem insertionSort_eq_of_perm {β : Type v} [LinearOrder β] {f : α → β} (hperm : l ~ m)
    (hm : (m.map f).Pairwise (· < ·)) : l.insertionSort (fun a b => f a ≤ f b) = m := by
  have hlt : m.Pairwise (fun a b => f a < f b) := pairwise_map.1 hm
  have hinj : ∀ a b, a ∈ m → b ∈ m → f a = f b → a = b := by
    intro a b ha hb heq
    exact inj_on_of_nodup_map (hm.imp (fun hab => ne_of_lt hab)) ha hb heq
  have htotal : Std.Total (fun a b : α => f a ≤ f b) := ⟨fun a b => le_total (f a) (f b)⟩
  have htrans : IsTrans α (fun a b => f a ≤ f b) := ⟨fun _ _ _ hab hbc => hab.trans hbc⟩
  have hsorted := (perm_insertionSort (fun a b => f a ≤ f b) l).trans hperm
  apply hsorted.eq_of_pairwise _ (pairwise_insertionSort _ l) (hlt.imp le_of_lt)
  intro a b ha hb hab hba
  exact hinj a b (hsorted.subset ha) hb (le_antisymm hab hba)

/-- Two initial segments of one list agree at every position they share. -/
theorem IsPrefix.getElem?_eq (h₁ : l₁ <+: m) (h₂ : l₂ <+: m) {k : ℕ} {a b : α}
    (ha : l₁[k]? = some a) (hb : l₂[k]? = some b) : a = b := by
  rcases h₁ with ⟨t₁, rfl⟩
  rcases h₂ with ⟨t₂, heq⟩
  have hk₁ : k < l₁.length := (getElem?_eq_some_iff.1 ha).1
  have hk₂ : k < l₂.length := (getElem?_eq_some_iff.1 hb).1
  have hget : (l₂ ++ t₂)[k]? = (l₁ ++ t₁)[k]? := by rw [heq]
  rw [getElem?_append_left hk₁, getElem?_append_left hk₂, ha, hb] at hget
  exact (Option.some.inj hget).symm

/-! ## Increasing lists -/

/-- The least elements of two increasing lists, if each list has both. -/
theorem head_eq_of_pairwise_lt {β : Type v} [LinearOrder β] {l m : List β} {x y : β}
    (hl : (x :: l).Pairwise (· < ·)) (hm : (y :: m).Pairwise (· < ·)) (hx : x ∈ y :: m)
    (hy : y ∈ x :: l) : x = y := by
  apply le_antisymm
  · rcases mem_cons.1 hy with rfl | hmem
    · exact le_rfl
    · exact (rel_of_pairwise_cons hl hmem).le
  · rcases mem_cons.1 hx with rfl | hmem
    · exact le_rfl
    · exact (rel_of_pairwise_cons hm hmem).le

/-- Two increasing lists agree at a position up to which each has only elements of the other. -/
theorem eq_of_pairwise_lt {β : Type v} [LinearOrder β] {l m : List β} {k : ℕ} {a b : β}
    (hl : l.Pairwise (· < ·)) (hm : m.Pairwise (· < ·)) (hlm : l.take (k + 1) ⊆ m)
    (hml : m.take (k + 1) ⊆ l) (ha : l[k]? = some a) (hb : m[k]? = some b) : a = b := by
  induction k generalizing l m with
  | zero =>
      match l, m with
      | x :: l, y :: m =>
          obtain rfl : x = a := Option.some.inj ha
          obtain rfl : y = b := Option.some.inj hb
          exact head_eq_of_pairwise_lt hl hm (hlm (by simp)) (hml (by simp))
  | succ k ih =>
      match l, m with
      | x :: l, y :: m =>
          have hhead : x = y := head_eq_of_pairwise_lt hl hm (hlm (by simp)) (hml (by simp))
          subst hhead
          -- An element of a tail is not the common head.
          have htail : ∀ l' m' : List β, (x :: l').Pairwise (· < ·) → l'.take (k + 1) ⊆ x :: m' →
              l'.take (k + 1) ⊆ m' := by
            intro l' m' hl' hsub z hz
            rcases mem_cons.1 (hsub hz) with rfl | hmem
            · exact absurd (rel_of_pairwise_cons hl' (mem_of_mem_take hz)) (lt_irrefl _)
            · exact hmem
          apply ih hl.of_cons hm.of_cons _ _ ha hb
          · exact htail l m hl (fun z hz => hlm (mem_cons_of_mem x hz))
          · exact htail m l hm (fun z hz => hml (mem_cons_of_mem x hz))

end List

namespace Transition

variable {σ : Type u} {ι : Type v} {α : Type w} {S : System σ ι} {G : σ → ι → Prop} {Q : σ → Prop}
  {l m : σ → List α} {s : σ}

/-- What a run collects one element at a time, and never before what stands before it, it collects
in order. -/
theorem Reachable.isPrefix_of_closed
    (hQ : ∀ s c s', Reachable S G s → S.next c s = some s' → Q s' → Q s)
    (hinit : l S.init = [])
    (hone : ∀ s c s', Reachable S G s → S.next c s = some s' →
      ∃ t, t.length ≤ 1 ∧ l s' = l s ++ t)
    (hgrow : ∀ s c s', Reachable S G s → S.next c s = some s' → m s <+: m s')
    (hm : ∀ s, Reachable S G s → Q s → (m s).Nodup)
    (hl : ∀ s, Reachable S G s → Q s → (l s).Nodup ∧ l s ⊆ m s)
    (hclosed : ∀ s, Reachable S G s → Q s → (m s).ClosedIn (l s))
    (hr : Reachable S G s) (hq : Q s) : l s <+: m s := by
  refine hr.invariant_of (P := fun s => l s <+: m s) hQ ?_ ?_ hq
  · rw [hinit]
    exact List.nil_prefix
  · intro s c s' hr hq hq' hle hg hs
    have hr' : Reachable S G s' := .step hr hg hs
    have hle' : l s <+: m s' := hle.trans (hgrow s c s' hr hs)
    rcases hone s c s' hr hs with ⟨t, hlen, heq⟩
    match t, hlen, heq with
    | [], _, heq =>
        rw [heq, List.append_nil]
        exact hle'
    | [y], _, heq =>
        rcases hl s' hr' hq' with ⟨hnodup, hsub⟩
        have hcl := hclosed s' hr' hq'
        rw [heq] at hnodup hsub hcl ⊢
        have hnew : y ∉ l s := by
          intro hy
          exact (List.nodup_append.1 hnodup).2.2 y hy y (by simp) rfl
        exact List.isPrefix_concat (hm s' hr' hq') hle' (hsub (by simp)) hnew hcl

end Transition
