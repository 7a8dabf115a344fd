import Mathlib.Data.List.Chain
import SyncPaxos.Library.EventQueue

/-!
# Loops — classes of events of which one is pending

A callback that schedules itself again is a loop: of the class of its calls at most one is pending.
`firings` are the times of the events of a class.  `firings_loop` is the step rule of a loop: if
the call that an event schedules comes in its place after the call that ran last, then the calls
that have run, followed by the one that is pending, stay a chain.
-/

namespace DiscreteEvent

universe u

variable {α : Type u} {g : α → Bool} {q rest new past : List (Scheduled α)} {e : Scheduled α}
  {R : ℕ → ℕ → Prop}

/-- The times of the events that `g` selects. -/
def firings (g : α → Bool) (es : List (Scheduled α)) : List ℕ :=
  (es.filter (fun e => g e.action)).map Scheduled.ts

@[simp] theorem firings_nil : firings g [] = [] := rfl

@[simp] theorem firings_append (es es' : List (Scheduled α)) :
    firings g (es ++ es') = firings g es ++ firings g es' := by
  simp [firings]

theorem firings_cons_of_pos (h : g e.action = true) (es : List (Scheduled α)) :
    firings g (e :: es) = e.ts :: firings g es := by
  simp [firings, h]

theorem firings_cons_of_neg (h : ¬ g e.action = true) (es : List (Scheduled α)) :
    firings g (e :: es) = firings g es := by
  simp [firings, h]

theorem mem_firings {t : ℕ} {es : List (Scheduled α)} :
    t ∈ firings g es ↔ ∃ x ∈ es, g x.action = true ∧ x.ts = t := by
  simp [firings, and_assoc]

theorem firings_perm {es es' : List (Scheduled α)} (h : es.Perm es') :
    (firings g es).Perm (firings g es') :=
  (h.filter _).map _

theorem firings_getLast? (h : g e.action = true) (past : List (Scheduled α)) :
    (firings g (past ++ [e])).getLast? = some e.ts := by
  rw [firings_append, firings_cons_of_pos h, firings_nil, List.getLast?_concat]

/-- A list of at most one element is its only permutation. -/
theorem perm_eq_of_length_le_one {β : Type u} {l l' : List β} (h : l.Perm l')
    (hl : l.length ≤ 1) : l = l' := by
  match l, hl with
  | [], _ => exact h.nil_eq
  | [a], _ => exact h.symm.eq_singleton.symm

theorem isChain_of_length_le_one {l : List ℕ} (h : l.length ≤ 1) : l.IsChain R := by
  match l, h with
  | [], _ => exact .nil
  | [a], _ => exact .singleton a

/-- One event runs: `past` has run before it, and `new` is what it schedules. -/
theorem firings_loop (hpop : pop q = some (e, rest)) (hone : (firings g q).length ≤ 1)
    (hone' : (firings g (rest ++ new)).length ≤ 1)
    (hnew : ∀ x ∈ new, g x.action = true →
      ∀ t ∈ (firings g (past ++ [e])).getLast?, R t x.ts)
    (h : (firings g (past ++ q)).IsChain R) :
    (firings g (past ++ [e] ++ (rest ++ new))).IsChain R := by
  have hlink : ∀ t ∈ (firings g (past ++ [e])).getLast?, ∀ t' ∈ (firings g new).head?, R t t' := by
    intro t ht t' ht'
    rcases mem_firings.1 (List.mem_of_mem_head? ht') with ⟨x, hx, hgx, rfl⟩
    exact hnew x hx hgx t ht
  have hpopped := firings_perm (g := g) (pop_perm hpop)
  rw [firings_append, List.length_append] at hone'
  rw [firings_append] at h
  rw [firings_append, firings_append rest]
  by_cases hge : g e.action = true
  · -- The call that ran was the only one pending.
    rw [firings_cons_of_pos hge] at hpopped
    have hcalls := perm_eq_of_length_le_one hpopped hone
    have hrest : firings g rest = [] := by
      rw [hcalls, List.length_cons] at hone
      exact List.length_eq_zero_iff.1 (by omega)
    have hran : firings g (past ++ [e]) = firings g past ++ firings g q := by
      rw [firings_append, firings_cons_of_pos hge, firings_nil, hcalls, hrest]
    rw [hran] at hlink ⊢
    rw [hrest, List.nil_append]
    exact List.isChain_append.2 ⟨h, isChain_of_length_le_one (by omega), hlink⟩
  · have hran : firings g (past ++ [e]) = firings g past := by
      rw [firings_append, firings_cons_of_neg hge, firings_nil, List.append_nil]
    rw [firings_cons_of_neg hge] at hpopped
    have hcalls := perm_eq_of_length_le_one hpopped hone
    rw [hran] at hlink ⊢
    by_cases hnone : firings g new = []
    · rw [hnone, List.append_nil, ← hcalls]
      exact h
    · -- The loop starts anew: nothing of it was pending.
      have hpos := List.length_pos_iff.2 hnone
      have hrest : firings g rest = [] := List.length_eq_zero_iff.1 (by omega)
      rw [hrest, List.nil_append]
      exact List.isChain_append.2
        ⟨(List.isChain_append.1 h).1, isChain_of_length_le_one (by omega), hlink⟩

end DiscreteEvent
