import Mathlib.Data.List.Perm.Basic
import Mathlib.Data.List.Count
import Mathlib.Algebra.Order.Group.Nat
import Mathlib.Tactic.Common

/-!
# EventQueue — a discrete-event queue with stable selection

A simulator keeps the pending events in the order in which they were scheduled and always runs
the one with the least time stamp, ties being broken by that order.  `pop` is this selection.

Two facts carry most later arguments:

* `pop_split` says exactly what `pop` returns;
* `pop_filter_head` says that a class of events whose time stamps never decrease is served
  first-in first-out, whatever other events stand between.

A class all of whose events are scheduled with one delay is such a class; `Pipeline` is the
invariant that says so, with a rule for each change of the queue.
-/

namespace DiscreteEvent

universe u

/-- An action scheduled for the time `ts`. -/
structure Scheduled (α : Type u) where
  ts : ℕ
  action : α
  deriving DecidableEq, Repr

variable {α : Type u}

/-- The first event of least time stamp, and the events that stay pending. -/
def pop : List (Scheduled α) → Option (Scheduled α × List (Scheduled α))
  | [] => none
  | e :: es =>
      match pop es with
      | none => some (e, [])
      | some (m, rest) => if e.ts ≤ m.ts then some (e, es) else some (m, e :: rest)

theorem pop_eq_none {q : List (Scheduled α)} : pop q = none ↔ q = [] := by
  cases q with
  | nil =>
      simp [pop]
  | cons e es =>
      simp only [pop, reduceCtorEq, iff_false]
      split
      · simp
      · split <;> simp

/-- What `pop` selects: everything before it is strictly later, nothing after it is earlier. -/
theorem pop_split {q rest : List (Scheduled α)} {e : Scheduled α} (h : pop q = some (e, rest)) :
    ∃ l₁ l₂, q = l₁ ++ e :: l₂ ∧ rest = l₁ ++ l₂ ∧
      (∀ x ∈ l₁, e.ts < x.ts) ∧ (∀ x ∈ l₂, e.ts ≤ x.ts) := by
  induction q generalizing e rest with
  | nil =>
      simp [pop] at h
  | cons a es ih =>
      simp only [pop] at h
      split at h
      · rename_i hnone
        obtain ⟨rfl, rfl⟩ : a = e ∧ [] = rest := by simpa using h
        have hes : es = [] := pop_eq_none.1 hnone
        exact ⟨[], [], by simp [hes], by simp, by simp, by simp⟩
      · rename_i m r hsome
        obtain ⟨l₁, l₂, hq, hr, h₁, h₂⟩ := ih hsome
        split at h
        · rename_i hle
          obtain ⟨rfl, rfl⟩ : a = e ∧ es = rest := by simpa using h
          refine ⟨[], es, by simp, by simp, by simp, ?_⟩
          intro x hx
          have hmx : m.ts ≤ x.ts := by
            rw [hq] at hx
            rcases List.mem_append.1 hx with hx | hx
            · exact (h₁ x hx).le
            · rcases List.mem_cons.1 hx with rfl | hx
              · exact le_rfl
              · exact h₂ x hx
          exact hle.trans hmx
        · rename_i hlt
          obtain ⟨rfl, rfl⟩ : m = e ∧ a :: r = rest := by simpa using h
          refine ⟨a :: l₁, l₂, by simp [hq], by simp [hr], ?_, h₂⟩
          intro x hx
          rcases List.mem_cons.1 hx with rfl | hx
          · exact not_le.1 hlt
          · exact h₁ x hx

/-- An event that is earlier than all before it and not later than any after it is selected. -/
theorem pop_of_split {l₁ l₂ : List (Scheduled α)} {e : Scheduled α} (h₁ : ∀ x ∈ l₁, e.ts < x.ts)
    (h₂ : ∀ x ∈ l₂, e.ts ≤ x.ts) : pop (l₁ ++ e :: l₂) = some (e, l₁ ++ l₂) := by
  induction l₁ with
  | nil =>
      rw [List.nil_append, List.nil_append, pop]
      cases hpop : pop l₂ with
      | none =>
          simp [pop_eq_none.1 hpop]
      | some mr =>
          obtain ⟨l, r, hl, -, -, -⟩ := pop_split hpop
          have hle : e.ts ≤ mr.1.ts := h₂ mr.1 (by simp [hl])
          simp [hle]
  | cons a l₁ ih =>
      have hlt : ¬ a.ts ≤ e.ts := not_le.2 (h₁ a List.mem_cons_self)
      have hrest := ih (fun x hx => h₁ x (List.mem_cons_of_mem a hx))
      rw [List.cons_append, pop, hrest]
      simp [hlt]

theorem pop_perm {q rest : List (Scheduled α)} {e : Scheduled α} (h : pop q = some (e, rest)) :
    q.Perm (e :: rest) := by
  obtain ⟨l₁, l₂, rfl, rfl, -, -⟩ := pop_split h
  exact List.perm_middle

theorem mem_of_pop {q rest : List (Scheduled α)} {e : Scheduled α}
    (h : pop q = some (e, rest)) : e ∈ q :=
  (pop_perm h).mem_iff.2 (by simp)

theorem mem_rest_of_pop {q rest : List (Scheduled α)} {e x : Scheduled α}
    (h : pop q = some (e, rest)) (hx : x ∈ rest) : x ∈ q :=
  (pop_perm h).mem_iff.2 (by simp [hx])

theorem pop_le {q rest : List (Scheduled α)} {e x : Scheduled α}
    (h : pop q = some (e, rest)) (hx : x ∈ q) : e.ts ≤ x.ts := by
  obtain ⟨l₁, l₂, rfl, -, h₁, h₂⟩ := pop_split h
  rcases List.mem_append.1 hx with hx | hx
  · exact (h₁ x hx).le
  · rcases List.mem_cons.1 hx with rfl | hx
    · exact le_rfl
    · exact h₂ x hx

theorem pop_countP {q rest : List (Scheduled α)} {e : Scheduled α} (p : Scheduled α → Bool)
    (h : pop q = some (e, rest)) : q.countP p = rest.countP p + if p e then 1 else 0 := by
  rw [(pop_perm h).countP_eq p, List.countP_cons]

/-! ## Classes of events -/

/-- Popping an event outside a class leaves the class as it is. -/
theorem pop_filter_of_not {q rest : List (Scheduled α)} {e : Scheduled α} {p : Scheduled α → Bool}
    (h : pop q = some (e, rest)) (hp : p e = false) : rest.filter p = q.filter p := by
  obtain ⟨l₁, l₂, rfl, rfl, -, -⟩ := pop_split h
  simp [hp]

/-- A class whose time stamps do not decrease is served first-in first-out. -/
theorem pop_filter_head {q rest : List (Scheduled α)} {e : Scheduled α} {p : Scheduled α → Bool}
    (h : pop q = some (e, rest)) (hp : p e = true)
    (hsorted : (q.filter p).Pairwise (fun a b => a.ts ≤ b.ts)) :
    q.filter p = e :: rest.filter p := by
  obtain ⟨l₁, l₂, rfl, rfl, h₁, -⟩ := pop_split h
  have hnil : l₁.filter p = [] := by
    refine List.filter_eq_nil_iff.2 ?_
    intro x hx hpx
    have hmem : x ∈ l₁.filter p := List.mem_filter.2 ⟨hx, hpx⟩
    simp only [List.filter_append, List.filter_cons, hp, if_true] at hsorted
    have hle : x.ts ≤ e.ts := (List.pairwise_append.1 hsorted).2.2 x hmem e (by simp)
    exact absurd (h₁ x hx) (by omega)
  simp [hp, hnil]

/-- Selecting from a class alone gives the same event as selecting from the whole queue, when
the latter is in the class. -/
theorem pop_of_filter {q rest : List (Scheduled α)} {e : Scheduled α} {p : Scheduled α → Bool}
    (h : pop q = some (e, rest)) (hp : p e = true) :
    pop (q.filter p) = some (e, rest.filter p) := by
  induction q generalizing e rest with
  | nil =>
      simp [pop] at h
  | cons a es ih =>
      simp only [pop] at h
      split at h
      · rename_i hnone
        obtain ⟨rfl, rfl⟩ : a = e ∧ [] = rest := by simpa using h
        simp [pop_eq_none.1 hnone, hp, pop]
      · rename_i m r hsome
        split at h
        · rename_i hle
          obtain ⟨rfl, rfl⟩ : a = e ∧ es = rest := by simpa using h
          rw [List.filter_cons_of_pos hp, pop]
          cases hpop : pop (es.filter p) with
          | none =>
              simp [pop_eq_none.1 hpop]
          | some mr =>
              have hm : mr.1 ∈ es := List.mem_of_mem_filter (mem_of_pop hpop)
              have hle' : a.ts ≤ mr.1.ts := hle.trans (pop_le hsome hm)
              simp [hle']
        · rename_i hlt
          obtain ⟨rfl, rfl⟩ : m = e ∧ a :: r = rest := by simpa using h
          have hrec := ih hsome hp
          by_cases ha : p a = true
          · simp [ha, pop, hrec, hlt]
          · simp [ha, hrec]

/-- Events that a function selects, in an order in which their time stamps never decrease. -/
theorem filterMap_pop_of_sorted {β : Type u} {f : Scheduled α → Option β} {key : β → ℕ}
    {q rest : List (Scheduled α)} {e : Scheduled α} (hkey : ∀ e b, f e = some b → key b = e.ts)
    (hsorted : (q.filterMap f).Pairwise (fun a b => key a ≤ key b)) (hpop : pop q = some (e, rest)) :
    q.filterMap f = (f e).toList ++ rest.filterMap f := by
  cases hf : f e with
  | none =>
      rcases pop_split hpop with ⟨l₁, l₂, rfl, rfl, -, -⟩
      simp [hf]
  | some b =>
      have hfilter : ∀ l : List (Scheduled α),
          l.filterMap f = (l.filter (fun e => (f e).isSome)).filterMap f := by
        intro l
        rw [List.filterMap_filter]
        refine List.filterMap_congr ?_
        intro x _
        cases f x <;> simp
      have hstamps : (q.filter (fun e => (f e).isSome)).Pairwise (fun a b => a.ts ≤ b.ts) := by
        rw [List.pairwise_filter]
        refine (List.pairwise_filterMap.1 hsorted).imp ?_
        intro x y hxy hx hy
        rcases Option.isSome_iff_exists.1 hx with ⟨u, hu⟩
        rcases Option.isSome_iff_exists.1 hy with ⟨v, hv⟩
        rw [← hkey x u hu, ← hkey y v hv]
        exact hxy u hu v hv
      have hhead := pop_filter_head hpop (show (f e).isSome = true by simp [hf]) hstamps
      rw [hfilter q, hhead, List.filterMap_cons, hf, ← hfilter rest]
      rfl

/-! ## Classes with one delay -/

variable {β : Type u} {cls : α → Option β} {d now : ℕ} {q rest es : List (Scheduled α)}
  {e : Scheduled α}

/-- The events of the class `cls` were scheduled with the delay `d`, by the time `now`. -/
structure Pipeline (cls : α → Option β) (d now : ℕ) (q : List (Scheduled α)) : Prop where
  sorted : (q.filter (fun e => (cls e.action).isSome)).Pairwise (fun a b => a.ts ≤ b.ts)
  bound : ∀ e ∈ q, (cls e.action).isSome → e.ts ≤ now + d

namespace Pipeline

theorem of_forall_none (h : ∀ e ∈ q, cls e.action = none) : Pipeline cls d now q := by
  constructor
  · have hnil : q.filter (fun e => (cls e.action).isSome) = [] := by
      refine List.filter_eq_nil_iff.2 ?_
      intro e he
      simp [h e he]
    simp [hnil]
  · intro e he hsome
    simp [h e he] at hsome

theorem pop (h : Pipeline cls d now q) (hpop : pop q = some (e, rest)) (hnow : now ≤ e.ts) :
    Pipeline cls d e.ts rest := by
  rcases pop_split hpop with ⟨l₁, l₂, rfl, rfl, -, -⟩
  have hsub : (l₁ ++ l₂).Sublist (l₁ ++ e :: l₂) :=
    (List.Sublist.refl l₁).append (List.sublist_cons_self e l₂)
  constructor
  · exact h.sorted.sublist (hsub.filter _)
  · intro x hx hsome
    have hle := h.bound x (hsub.subset hx) hsome
    omega

/-- New events of the class are due last, since all of them wait equally long. -/
theorem schedule (h : Pipeline cls d now q)
    (hes : ∀ e ∈ es, (cls e.action).isSome → e.ts = now + d) : Pipeline cls d now (q ++ es) := by
  constructor
  · rw [List.filter_append]
    refine List.pairwise_append.2 ⟨h.sorted, ?_, ?_⟩
    · refine List.pairwise_of_forall_mem_list ?_
      intro a ha b hb
      have ha' := List.mem_filter.1 ha
      have hb' := List.mem_filter.1 hb
      have hat := hes a ha'.1 ha'.2
      have hbt := hes b hb'.1 hb'.2
      omega
    · intro a ha b hb
      have ha' := List.mem_filter.1 ha
      have hb' := List.mem_filter.1 hb
      have hat := h.bound a ha'.1 ha'.2
      have hbt := hes b hb'.1 hb'.2
      omega
  · intro e he hsome
    rcases List.mem_append.1 he with he | he
    · exact h.bound e he hsome
    · exact (hes e he hsome).le

/-- The event of the class that is popped is the one scheduled first. -/
theorem filterMap_of_pop {b : β} (h : Pipeline cls d now q) (hpop : DiscreteEvent.pop q = some (e, rest))
    (hb : cls e.action = some b) :
    q.filterMap (fun e => cls e.action) = b :: rest.filterMap (fun e => cls e.action) := by
  have hp : (cls e.action).isSome = true := by simp [hb]
  have hhead := pop_filter_head hpop hp h.sorted
  have hfilter : ∀ l : List (Scheduled α),
      l.filterMap (fun e => cls e.action) =
        (l.filter (fun e => (cls e.action).isSome)).filterMap (fun e => cls e.action) := by
    intro l
    rw [List.filterMap_filter]
    refine List.filterMap_congr ?_
    intro x _
    cases cls x.action <;> simp
  rw [hfilter q, hhead, List.filterMap_cons, hb, ← hfilter rest]

/-- Popping another event leaves the class as it is. -/
theorem filterMap_of_pop_none (hpop : DiscreteEvent.pop q = some (e, rest))
    (hb : cls e.action = none) :
    rest.filterMap (fun e => cls e.action) = q.filterMap (fun e => cls e.action) := by
  rcases pop_split hpop with ⟨l₁, l₂, rfl, rfl, -, -⟩
  simp [hb]

/-- The event that is popped was the first of its class, if it is of the class. -/
theorem filterMap_pop (h : Pipeline cls d now q) (hpop : DiscreteEvent.pop q = some (e, rest)) :
    q.filterMap (fun e => cls e.action) =
      (cls e.action).toList ++ rest.filterMap (fun e => cls e.action) := by
  cases hcls : cls e.action with
  | none =>
      exact (filterMap_of_pop_none hpop hcls).symm
  | some b =>
      exact h.filterMap_of_pop hpop hcls

end Pipeline

end DiscreteEvent
