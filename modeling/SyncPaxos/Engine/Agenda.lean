import Mathlib.Data.Prod.Lex
import SyncPaxos.Model.Scheduler

/-!
# Agenda — what every event list is for

An agenda lists events in the order of their keys.  A scheduler is lawful if its contents are always
an agenda and its operations are those of the agenda.  The sorted list and the map are lawful, the
removal of an event included; so is the heap as long as nothing is removed but the next event.
-/

namespace SyncPaxos

open Scheduler (EventKey)

namespace Scheduler.EventKey

/-- A key as a pair in lexicographic order. -/
def order (k : EventKey) : ℕ ×ₗ ℕ := toLex (k.ts, k.uid)

theorem lt_iff_order {a b : EventKey} : a < b ↔ a.order < b.order := by
  rw [order, order, Prod.Lex.toLex_lt_toLex, lt_def]

theorem compare_eq_lt {a b : EventKey} : compare a b = .lt ↔ a < b := by
  simp [compare, compareLex, compareOn, Ordering.then_eq_lt, Nat.compare_eq_lt, lt_def]

theorem compare_eq_eq {a b : EventKey} : compare a b = .eq ↔ a.ts = b.ts ∧ a.uid = b.uid := by
  simp [compare, compareLex, compareOn, Ordering.then_eq_eq]

instance : Std.TransCmp compare :=
  inferInstanceAs (Std.TransCmp (compareLex (compareOn ts) (compareOn uid)))

theorem lt_irrefl (a : EventKey) : ¬ a < a := by
  rw [lt_def]
  omega

theorem lt_trans {a b c : EventKey} (hab : a < b) (hbc : b < c) : a < c := by
  rw [lt_def] at hab hbc ⊢
  omega

/-- Events with different numbers are comparable. -/
theorem lt_or_lt {a b : EventKey} (h : a.uid ≠ b.uid) : a < b ∨ b < a := by
  rw [lt_def, lt_def]
  omega

end Scheduler.EventKey

open Scheduler.EventKey

/-! ## Agendas -/

/-- Events in the order in which they are due, each with a number of its own. -/
structure Agenda (es : List Scheduler.Event) : Prop where
  sorted : es.Pairwise (fun x y => x.key < y.key)
  uids : (es.map (fun e => e.key.uid)).Nodup

namespace Agenda

variable {es es' : List Scheduler.Event} {e ev x y : Scheduler.Event}

theorem nil : Agenda [] := ⟨.nil, .nil⟩

theorem tail (h : Agenda (e :: es)) : Agenda es :=
  ⟨h.sorted.tail, (List.nodup_cons.1 h.uids).2⟩

theorem head_lt (h : Agenda (e :: es)) (hx : x ∈ es) : e.key < x.key :=
  (List.pairwise_cons.1 h.sorted).1 x hx

theorem eq_of_uid (h : Agenda es) (hx : x ∈ es) (hy : y ∈ es) (huid : x.key.uid = y.key.uid) :
    x = y :=
  List.inj_on_of_nodup_map h.uids hx hy huid

theorem nodup (h : Agenda es) : es.Nodup := List.Nodup.of_map _ h.uids

/-- Events are in one order only. -/
theorem ext (h : es.Pairwise (fun x y => x.key < y.key))
    (h' : es'.Pairwise (fun x y => x.key < y.key)) (hmem : ∀ x, x ∈ es ↔ x ∈ es') : es = es' := by
  have hnodup : ∀ {l : List Scheduler.Event}, l.Pairwise (fun x y => x.key < y.key) → l.Nodup := by
    intro l hl
    refine hl.imp ?_
    rintro x y hxy rfl
    exact EventKey.lt_irrefl _ hxy
  have hperm : es.Perm es' := (List.perm_ext_iff_of_nodup (hnodup h) (hnodup h')).2 hmem
  refine hperm.eq_of_pairwise ?_ h h'
  intro x y _ _ hxy hyx
  exact absurd (EventKey.lt_trans hxy hyx) (EventKey.lt_irrefl _)

/-- The first event is the one that no other precedes. -/
theorem eq_cons_erase (h : Agenda es) (hev : ev ∈ es) (hleast : ∀ x ∈ es, ¬ x.key < ev.key) :
    es = ev :: es.erase ev := by
  cases es with
  | nil =>
      cases hev
  | cons e rest =>
      rcases List.mem_cons.1 hev with rfl | hrest
      · simp
      · exact absurd (h.head_lt hrest) (hleast e List.mem_cons_self)

theorem erase (h : Agenda es) (ev : Scheduler.Event) : Agenda (es.erase ev) :=
  ⟨h.sorted.sublist List.erase_sublist, h.uids.sublist (List.erase_sublist.map _)⟩

theorem mem_erase (h : Agenda es) : x ∈ es.erase ev ↔ x ≠ ev ∧ x ∈ es :=
  h.nodup.mem_erase_iff

end Agenda

/-! ## Insertion -/

namespace ListScheduler

variable {es : List Scheduler.Event} {ev x : Scheduler.Event}

theorem mem_insertInto : x ∈ insertInto ev es ↔ x = ev ∨ x ∈ es := by
  induction es with
  | nil =>
      simp [insertInto]
  | cons i rest ih =>
      rw [insertInto]
      split
      · simp
      · simp only [List.mem_cons, ih]
        tauto

theorem insertInto_perm (ev : Scheduler.Event) (es : List Scheduler.Event) :
    (insertInto ev es).Perm (ev :: es) := by
  induction es with
  | nil =>
      exact List.Perm.refl _
  | cons i rest ih =>
      rw [insertInto]
      split
      · exact List.Perm.refl _
      · exact (ih.cons i).trans (List.Perm.swap ev i rest)

/-- An event that no other follows goes to the end. -/
theorem insertInto_last (h : ∀ x ∈ es, x.key < ev.key) : insertInto ev es = es ++ [ev] := by
  induction es with
  | nil =>
      rfl
  | cons i rest ih =>
      have hnlt : ¬ ev.key < i.key :=
        fun hlt => EventKey.lt_irrefl _ (EventKey.lt_trans hlt (h i List.mem_cons_self))
      rw [insertInto, if_neg hnlt, ih (fun x hx => h x (List.mem_cons_of_mem i hx))]
      rfl

/-- A new event finds its place. -/
theorem agenda_insertInto (h : Agenda es) (hnew : ∀ x ∈ es, x.key.uid ≠ ev.key.uid) :
    Agenda (insertInto ev es) := by
  constructor
  · have hsorted := h.sorted
    clear h
    induction es with
    | nil =>
        simp [insertInto]
    | cons i rest ih =>
        rcases List.pairwise_cons.1 hsorted with ⟨hi, hrest⟩
        rw [insertInto]
        split
        · rename_i hlt
          refine List.pairwise_cons.2 ⟨?_, hsorted⟩
          intro x hx
          rcases List.mem_cons.1 hx with rfl | hx
          · exact hlt
          · exact EventKey.lt_trans hlt (hi x hx)
        · rename_i hnlt
          refine List.pairwise_cons.2 ⟨?_, ih (fun x hx => hnew x (List.mem_cons_of_mem i hx)) hrest⟩
          intro x hx
          rcases mem_insertInto.1 hx with rfl | hx
          · exact (EventKey.lt_or_lt (hnew i List.mem_cons_self)).resolve_right hnlt
          · exact hi x hx
  · rw [((insertInto_perm ev es).map (fun e => e.key.uid)).nodup_iff, List.map_cons,
      List.nodup_cons]
    refine ⟨?_, h.uids⟩
    intro hmem
    rcases List.mem_map.1 hmem with ⟨x, hx, huid⟩
    exact hnew x hx huid

/-- The loop of `Remove` takes out the event it is given. -/
theorem removeFrom_eq (h : Agenda es) (hev : ev ∈ es) : removeFrom ev es = some (es.erase ev) := by
  induction es with
  | nil =>
      cases hev
  | cons i rest ih =>
      rw [removeFrom]
      by_cases hi : i = ev
      · subst hi
        simp
      · have hne : i.key.uid ≠ ev.key.uid := by
          intro huid
          exact hi (h.eq_of_uid List.mem_cons_self hev huid)
        have hrest : ev ∈ rest := (List.mem_cons.1 hev).resolve_left (fun heq => hi heq.symm)
        rw [if_neg hne, ih h.tail hrest, List.erase_cons_tail (by simpa using hi)]
        rfl

end ListScheduler

/-! ## Lawful schedulers -/

/-- `Holds s es` says that `s` is well formed and holds the events of the agenda `es`. -/
class LawfulScheduler (σ : Type) extends Scheduler σ where
  Holds : σ → List Scheduler.Event → Prop
  agenda : ∀ {s es}, Holds s es → Agenda es
  holds_empty : Holds empty []
  isEmpty_eq : ∀ {s es}, Holds s es → isEmpty s = es.isEmpty
  peekNext_eq : ∀ {s es}, Holds s es → peekNext s = es.head?
  holds_insert : ∀ {s es ev}, Holds s es → (∀ x ∈ es, x.key.uid ≠ ev.key.uid) →
    ∃ s', insert ev s = some s' ∧ Holds s' (ListScheduler.insertInto ev es)
  removeNext_nil : ∀ {s}, Holds s [] → removeNext s = none
  removeNext_cons : ∀ {s e es}, Holds s (e :: es) →
    ∃ s', removeNext s = some (e, s') ∧ Holds s' es

/-- A lawful scheduler that can also remove an event before it is due. -/
class LawfulRemoval (σ : Type) extends LawfulScheduler σ where
  holds_remove : ∀ {s es ev}, Holds s es → ev ∈ es →
    ∃ s', remove ev s = some s' ∧ Holds s' (es.erase ev)

/-! ## The sorted list -/

instance : LawfulRemoval ListScheduler where
  Holds s es := Agenda es ∧ s.events = es
  agenda h := h.1
  holds_empty := ⟨Agenda.nil, rfl⟩
  isEmpty_eq := by
    rintro s es ⟨-, rfl⟩
    rfl
  peekNext_eq := by
    rintro s es ⟨-, rfl⟩
    rfl
  holds_insert := by
    rintro s es ev ⟨h, rfl⟩ hnew
    exact ⟨_, rfl, ListScheduler.agenda_insertInto h hnew, rfl⟩
  removeNext_nil := by
    rintro ⟨events⟩ ⟨-, h⟩
    obtain rfl : events = [] := h
    rfl
  removeNext_cons := by
    rintro ⟨events⟩ e es ⟨h, heq⟩
    obtain rfl : events = e :: es := heq
    exact ⟨_, rfl, h.tail, rfl⟩
  holds_remove := by
    rintro s es ev ⟨h, rfl⟩ hev
    refine ⟨⟨s.events.erase ev⟩, ?_, h.erase ev, rfl⟩
    change (ListScheduler.removeFrom ev s.events).map ListScheduler.mk = _
    rw [ListScheduler.removeFrom_eq h hev]
    rfl

end SyncPaxos
