import SyncPaxos.Engine.Agenda

/-!
# Schedulers — the map and the heap are lawful

The map keeps its entries in the order of the keys, so its contents are an agenda as they stand.  The
heap only keeps the first event in its place.  The loops of `BottomUp` and `TopDown` rearrange the
array (`Rearranges`) and restore the order of the heap.
-/

namespace SyncPaxos

open Scheduler (EventKey)
open Scheduler.EventKey

/-! ## The map -/

namespace MapScheduler

variable {s : MapScheduler} {es : List Scheduler.Event} {ev : Scheduler.Event}

/-- The entries of the map as events. -/
def contents (s : MapScheduler) : List Scheduler.Event :=
  s.list.toList.map fun i => ⟨i.2, i.1⟩

theorem mem_contents : ev ∈ s.contents ↔
    s.list.getKey? ev.key = some ev.key ∧ s.list[ev.key]? = some ev.impl := by
  rw [← Std.TreeMap.mem_toList_iff_getKey?_eq_some_and_getElem?_eq_some, contents, List.mem_map]
  constructor
  · rintro ⟨i, hi, rfl⟩
    exact hi
  · intro hi
    exact ⟨_, hi, rfl⟩

theorem contents_sorted (s : MapScheduler) :
    s.contents.Pairwise (fun x y => x.key < y.key) := by
  refine List.pairwise_map.2 ?_
  refine Std.TreeMap.ordered_keys_toList.imp ?_
  intro x y hxy
  exact compare_eq_lt.1 hxy

theorem begin_eq (s : MapScheduler) : s.begin = s.contents.head? := by
  rw [begin, contents, List.head?_map]

theorem contents_erase (h : Agenda s.contents) (hev : ev ∈ s.contents) :
    (MapScheduler.mk (s.list.erase ev.key)).contents = s.contents.erase ev := by
  refine Agenda.ext (contents_sorted _) (h.erase ev).sorted ?_
  intro x
  rw [h.mem_erase, mem_contents, mem_contents, Std.TreeMap.getKey?_erase,
    Std.TreeMap.getElem?_erase]
  by_cases hx : EventKey.compare ev.key x.key = .eq
  · simp only [hx, if_true]
    constructor
    · rintro ⟨hnone, -⟩
      cases hnone
    · rintro ⟨hne, hmem⟩
      exact absurd (h.eq_of_uid (mem_contents.2 hmem) hev (compare_eq_eq.1 hx).2.symm) hne
  · simp only [hx, if_false, iff_and_self]
    rintro - rfl
    exact hx (compare_eq_eq.2 ⟨rfl, rfl⟩)

theorem contents_insert (h : Agenda s.contents) (hnew : ∀ x ∈ s.contents, x.key.uid ≠ ev.key.uid) :
    s.list.contains ev.key = false ∧
      (MapScheduler.mk (s.list.insert ev.key ev.impl)).contents =
        ListScheduler.insertInto ev s.contents := by
  have hkey : ∀ x ∈ s.contents, EventKey.compare ev.key x.key ≠ .eq := by
    intro x hx heq
    exact hnew x hx (compare_eq_eq.1 heq).2.symm
  constructor
  · refine Bool.eq_false_iff.2 ?_
    intro hcontains
    have hmem : ev.key ∈ s.list := Std.TreeMap.mem_iff_contains.2 hcontains
    have hlookup := Std.TreeMap.getElem?_eq_some_getElem hmem
    rcases Std.TreeMap.getElem?_eq_some_iff_exists_compare_eq_eq_and_mem_toList.1 hlookup with
      ⟨k, hk, hentry⟩
    exact hkey ⟨_, k⟩ (List.mem_map.2 ⟨_, hentry, rfl⟩) hk
  · refine Agenda.ext (contents_sorted _) (ListScheduler.agenda_insertInto h hnew).sorted ?_
    intro x
    rw [ListScheduler.mem_insertInto, mem_contents, mem_contents, Std.TreeMap.getKey?_insert,
      Std.TreeMap.getElem?_insert]
    by_cases hx : EventKey.compare ev.key x.key = .eq
    · simp only [hx, if_true, Option.some.injEq]
      constructor
      · rintro ⟨hkeys, himpl⟩
        rcases x with ⟨impl, key⟩
        rcases ev with ⟨impl', key'⟩
        obtain rfl : key' = key := hkeys
        obtain rfl : impl' = impl := himpl
        exact .inl rfl
      · rintro (rfl | hmem)
        · exact ⟨rfl, rfl⟩
        · exact absurd hx (hkey x (mem_contents.2 hmem))
    · simp only [hx, if_false]
      constructor
      · exact .inr
      · rintro (rfl | hmem)
        · exact absurd (compare_eq_eq.2 ⟨rfl, rfl⟩) hx
        · exact hmem

end MapScheduler

instance : LawfulRemoval MapScheduler where
  Holds s es := Agenda es ∧ s.contents = es
  agenda h := h.1
  holds_empty := ⟨Agenda.nil, rfl⟩
  isEmpty_eq := by
    rintro s es ⟨-, rfl⟩
    change s.list.isEmpty = s.contents.isEmpty
    rw [MapScheduler.contents, List.isEmpty_map, Std.TreeMap.isEmpty_toList]
  peekNext_eq := by
    rintro s es ⟨-, rfl⟩
    exact s.begin_eq
  holds_insert := by
    rintro s es ev ⟨h, rfl⟩ hnew
    rcases MapScheduler.contents_insert h hnew with ⟨hfresh, hcontents⟩
    refine ⟨⟨s.list.insert ev.key ev.impl⟩, ?_, ListScheduler.agenda_insertInto h hnew, hcontents⟩
    change (if s.list.contains ev.key then none else _) = _
    rw [hfresh]
    rfl
  removeNext_nil := by
    rintro s ⟨-, h⟩
    change s.begin.map _ = none
    rw [s.begin_eq, h]
    rfl
  removeNext_cons := by
    rintro s e es ⟨h, heq⟩
    refine ⟨⟨s.list.erase e.key⟩, ?_, h.tail, ?_⟩
    · change s.begin.map _ = _
      rw [s.begin_eq, heq]
      rfl
    · rw [MapScheduler.contents_erase (heq ▸ h) (heq ▸ List.mem_cons_self), heq]
      simp
  holds_remove := by
    rintro s es ev ⟨h, rfl⟩ hev
    refine ⟨⟨s.list.erase ev.key⟩, ?_, h.erase ev, MapScheduler.contents_erase h hev⟩
    change (match s.list[ev.key]? with
      | none => none
      | some impl => if impl = ev.impl then some _ else none) = _
    rw [(MapScheduler.mem_contents.1 hev).2]
    simp

/-! ## The heap -/

namespace HeapScheduler

variable {h h' h'' : HeapScheduler} {a b i : ℕ}

/-- The keys of the array. -/
def entry (h : HeapScheduler) (i : ℕ) : ℕ ×ₗ ℕ := (h.heap i).key.order

theorem isLessStrictly_iff : h.isLessStrictly a b = true ↔ h.entry a < h.entry b := by
  rw [isLessStrictly, decide_eq_true_iff, lt_iff_order]
  rfl

/-- The events of `h'` are those of `h`, each in one place. -/
structure Rearranges (h h' : HeapScheduler) : Prop where
  size : h'.size = h.size
  moved : ∃ f : Equiv.Perm ℕ, (∀ i, 1 ≤ i ∧ i ≤ h.last ↔ 1 ≤ f i ∧ f i ≤ h.last) ∧
    ∀ i, h'.heap i = h.heap (f i)

namespace Rearranges

theorem last (hr : Rearranges h h') : h'.last = h.last := by
  rw [HeapScheduler.last, HeapScheduler.last, hr.size]

theorem refl (h : HeapScheduler) : Rearranges h h :=
  ⟨rfl, Equiv.refl ℕ, fun _ => Iff.rfl, fun _ => rfl⟩

theorem trans (hr : Rearranges h h') (hr' : Rearranges h' h'') : Rearranges h h'' := by
  rcases hr.moved with ⟨f, hf, hheap⟩
  rcases hr'.moved with ⟨g, hg, hheap'⟩
  refine ⟨hr'.size.trans hr.size, g.trans f, ?_, ?_⟩
  · intro i
    rw [hr.last] at hg
    exact (hg i).trans (hf (g i))
  · intro i
    rw [hheap', hheap, Equiv.trans_apply]

theorem exch (ha : 1 ≤ a ∧ a ≤ h.last) (hb : 1 ≤ b ∧ b ≤ h.last) : Rearranges h (h.exch a b) := by
  refine ⟨rfl, Equiv.swap a b, ?_, fun _ => rfl⟩
  intro i
  rw [Equiv.swap_apply_def]
  split
  · rename_i hi
    rw [hi]
    exact iff_of_true ha hb
  · split
    · rename_i hi
      rw [hi]
      exact iff_of_true hb ha
    · exact Iff.rfl

end Rearranges

/-- The indices in use. -/
def InUse (h : HeapScheduler) (i : ℕ) : Prop := 1 ≤ i ∧ i ≤ h.last

/-- The array is a heap that holds the events `es`, each in one place. -/
structure Stores (h : HeapScheduler) (es : List Scheduler.Event) : Prop where
  pos : 1 ≤ h.size
  mem : ∀ ev, ev ∈ es ↔ ∃ i, h.InUse i ∧ h.heap i = ev
  place : ∀ i j, h.InUse i → h.InUse j → h.heap i = h.heap j → i = j

theorem Stores.rearrange {es : List Scheduler.Event} (hs : h.Stores es) (hr : Rearranges h h') :
    h'.Stores es := by
  rcases hr.moved with ⟨f, hf, hheap⟩
  have huse : ∀ i, h'.InUse i ↔ h.InUse (f i) := by
    intro i
    rw [InUse, hr.last]
    exact hf i
  refine ⟨hr.size ▸ hs.pos, ?_, ?_⟩
  · intro ev
    rw [hs.mem]
    constructor
    · rintro ⟨i, hi, rfl⟩
      refine ⟨f.symm i, (huse _).2 ?_, ?_⟩
      · rw [Equiv.apply_symm_apply]
        exact hi
      · rw [hheap, Equiv.apply_symm_apply]
    · rintro ⟨i, hi, rfl⟩
      exact ⟨f i, (huse i).1 hi, (hheap i).symm⟩
  · intro i j hi hj hij
    rw [hheap, hheap] at hij
    exact f.injective (hs.place _ _ ((huse i).1 hi) ((huse j).1 hj) hij)

/-! ### The loops -/

/-- `BottomUp` takes a new entry to its place. -/
theorem bottomUp_ordered (rounds index : ℕ) (h : HeapScheduler) (hrounds : index ≤ rounds)
    (hindex : h.InUse index) (hrising : BinaryHeap.Rising h.entry h.last index) :
    Rearranges h (bottomUp rounds index h) ∧
      BinaryHeap.Ordered (bottomUp rounds index h).entry h.last := by
  rcases hindex with ⟨hpos, hlast⟩
  induction rounds generalizing index h with
  | zero =>
      omega
  | succ rounds ih =>
      rw [bottomUp]
      split
      · rename_i hloop
        rw [Bool.and_eq_true, isLessStrictly_iff] at hloop
        have hroot : index ≠ 1 := by
          intro hindex
          simp [isRoot, root, hindex] at hloop
        have hparent : 1 ≤ parent index ∧ parent index ≤ h.last := by
          rw [parent]
          omega
        have hrounds' : parent index ≤ rounds := by
          rw [parent]
          omega
        have hexch := Rearranges.exch ⟨hpos, hlast⟩ hparent
        have hrising' := hrising.exch (by omega) hlast hloop.2
        rcases ih (parent index) (h.exch index (parent index)) hrounds' hrising' hparent.1
          hparent.2 with ⟨hmoved, hordered⟩
        exact ⟨hexch.trans hmoved, hordered⟩
      · rename_i hstop
        refine ⟨Rearranges.refl h, hrising.ordered ?_⟩
        intro hindex _
        rw [Bool.and_eq_true, isLessStrictly_iff] at hstop
        have hroot : (!isRoot index) = true := by
          have hne : index ≠ 1 := by omega
          simp [isRoot, root, hne]
        exact not_lt.1 (fun hlt => hstop ⟨hroot, hlt⟩)

/-- The smaller child is not larger than the other one. -/
theorem smallest_le (h : HeapScheduler) (a b : ℕ) :
    h.entry (h.smallest a b) ≤ h.entry a ∧ h.entry (h.smallest a b) ≤ h.entry b := by
  rw [smallest]
  split
  · rename_i hlt
    exact ⟨le_rfl, (isLessStrictly_iff.1 hlt).le⟩
  · rename_i hnlt
    rw [isLessStrictly_iff] at hnlt
    exact ⟨not_lt.1 hnlt, le_rfl⟩

theorem smallest_eq (h : HeapScheduler) (a b : ℕ) : h.smallest a b = a ∨ h.smallest a b = b := by
  rw [smallest]
  split
  · exact .inl rfl
  · exact .inr rfl

/-- `TopDown` takes a replaced entry to its place. -/
theorem topDown_ordered (rounds index : ℕ) (h : HeapScheduler) (hrounds : h.size ≤ index + rounds)
    (hpos : 1 ≤ index) (hsize : 1 ≤ h.size)
    (hsinking : BinaryHeap.Sinking h.entry h.last index) :
    Rearranges h (topDown rounds index h) ∧
      BinaryHeap.Ordered (topDown rounds index h).entry h.last := by
  induction rounds generalizing index h with
  | zero =>
      refine ⟨Rearranges.refl h, hsinking.ordered ?_⟩
      intro i hi hle hparent
      rw [last] at hle
      omega
  | succ rounds ih =>
      have hlast : h.last = h.size - 1 := rfl
      have hle := smallest_le h (leftChild index) (rightChild index)
      have heq := smallest_eq h (leftChild index) (rightChild index)
      have hmin : ¬ h.isBottom (rightChild index) → ∀ i, 2 ≤ i → i ≤ h.last → i / 2 = index →
          h.entry (h.smallest (leftChild index) (rightChild index)) ≤ h.entry i := by
        intro _ i _ _ hparent
        obtain rfl | rfl : i = leftChild index ∨ i = rightChild index := by
          rw [leftChild, rightChild]
          omega
        · exact hle.1
        · exact hle.2
      have hmin' : h.isBottom (rightChild index) → ∀ i, 2 ≤ i → i ≤ h.last → i / 2 = index →
          h.entry (leftChild index) ≤ h.entry i := by
        intro hright i _ hile hparent
        rw [isBottom, decide_eq_true_iff, rightChild] at hright
        obtain rfl : i = leftChild index := by
          rw [leftChild]
          omega
        exact le_rfl
      have hstop : ∀ {x}, h.entry index < h.entry x →
          (∀ i, 2 ≤ i → i ≤ h.last → i / 2 = index → h.entry x ≤ h.entry i) →
          BinaryHeap.Ordered h.entry h.last := by
        intro x hlt hx
        refine hsinking.ordered ?_
        intro i hi hile hparent
        exact hlt.le.trans (hx i hi hile hparent)
      have hleaf : h.isBottom (leftChild index) → BinaryHeap.Ordered h.entry h.last := by
        intro hleft
        refine hsinking.ordered ?_
        intro i hi hile hparent
        rw [isBottom, decide_eq_true_iff, leftChild] at hleft
        omega
      rw [topDown]
      split
      · rename_i hright
        rw [Bool.not_eq_true'] at hright
        have hmin := hmin (by simp [hright])
        rw [isBottom, decide_eq_false_iff_not, rightChild] at hright
        dsimp only
        split
        · rename_i hlt
          exact ⟨Rearranges.refl h, hstop (isLessStrictly_iff.1 hlt) hmin⟩
        · rename_i hnlt
          rw [isLessStrictly_iff] at hnlt
          generalize h.smallest (leftChild index) (rightChild index) = tmp at hmin heq hnlt
          rw [leftChild, rightChild] at heq
          have htmp : tmp / 2 = index ∧ tmp ≤ h.last := by omega
          have hexch : Rearranges h (h.exch index tmp) := by
            refine Rearranges.exch ?_ ?_ <;> omega
          have hsinking' := hsinking.exch hpos htmp.1 htmp.2 hmin (not_lt.1 hnlt)
          have hrounds' : (h.exch index tmp).size ≤ tmp + rounds := by
            rw [hexch.size]
            omega
          rcases ih tmp (h.exch index tmp) hrounds' (by omega) hsize hsinking' with
            ⟨hmoved, hordered⟩
          exact ⟨hexch.trans hmoved, hordered⟩
      · rename_i hright
        have hright : h.isBottom (rightChild index) = true := by simpa using hright
        have hmin := hmin' hright
        split
        · rename_i hbottom
          refine ⟨Rearranges.refl h, hleaf ?_⟩
          simp only [isBottom, leftChild, ge_iff_le, decide_eq_true_iff] at hbottom ⊢
          omega
        · split
          · rename_i hleft
            exact ⟨Rearranges.refl h, hleaf hleft⟩
          · rename_i hleft
            split
            · rename_i hlt
              exact ⟨Rearranges.refl h, hstop (isLessStrictly_iff.1 hlt) hmin⟩
            · rename_i hnlt
              rw [isLessStrictly_iff] at hnlt
              rw [isBottom, decide_eq_true_iff, rightChild] at hright
              rw [isBottom, decide_eq_true_iff] at hleft
              rw [leftChild] at hleft hmin hnlt ⊢
              have hchild : index * 2 / 2 = index := by omega
              have hsinking' := hsinking.exch hpos hchild (by omega) hmin (not_lt.1 hnlt)
              refine ⟨?_, hsinking'.ordered ?_⟩
              · refine Rearranges.exch ?_ ?_ <;> omega
              · -- the place of the last exchange has no children
                intro i hi hile hparent
                omega

/-! ### The operations -/

variable {es : List Scheduler.Event} {ev : Scheduler.Event}

theorem Stores.nil_iff (hs : h.Stores es) : es = [] ↔ h.size = 1 := by
  have hpos := hs.pos
  constructor
  · rintro rfl
    by_contra hne
    have huse : h.InUse 1 := by
      rw [InUse, last]
      omega
    exact absurd ((hs.mem _).2 ⟨1, huse, rfl⟩) List.not_mem_nil
  · intro hsize
    refine List.eq_nil_iff_forall_not_mem.2 ?_
    intro ev hev
    rcases (hs.mem ev).1 hev with ⟨i, hi, -⟩
    rw [InUse, last] at hi
    omega

theorem pushBack_last (h : HeapScheduler) (ev : Scheduler.Event) : (h.pushBack ev).last = h.size :=
  rfl

theorem pushBack_heap_size (h : HeapScheduler) (ev : Scheduler.Event) :
    (h.pushBack ev).heap h.size = ev := by
  simp [pushBack]

theorem pushBack_heap_of_ne {i : ℕ} (h : HeapScheduler) (ev : Scheduler.Event) (hi : i ≠ h.size) :
    (h.pushBack ev).heap i = h.heap i := by
  simp [pushBack, hi]

theorem Stores.pushBack (hs : h.Stores es) (hnew : ev ∉ es) :
    (h.pushBack ev).Stores (ListScheduler.insertInto ev es) := by
  have hpos := hs.pos
  have hnewest := pushBack_heap_size h ev
  have hold := fun (i : ℕ) (hi : i ≠ h.size) => pushBack_heap_of_ne h ev hi
  have huse : ∀ i, (h.pushBack ev).InUse i ↔ i = h.size ∨ i ≠ h.size ∧ h.InUse i := by
    intro i
    rw [InUse, InUse, pushBack_last, last]
    omega
  refine ⟨Nat.le_add_left 1 h.size, ?_, ?_⟩
  · intro x
    rw [ListScheduler.mem_insertInto, hs.mem]
    constructor
    · rintro (rfl | ⟨i, hi, rfl⟩)
      · exact ⟨h.size, (huse _).2 (.inl rfl), hnewest⟩
      · have hne : i ≠ h.size := by
          have hle := hi.2
          rw [last] at hle
          omega
        exact ⟨i, (huse i).2 (.inr ⟨hne, hi⟩), hold i hne⟩
    · rintro ⟨i, hi, rfl⟩
      rcases (huse i).1 hi with rfl | ⟨hne, hi⟩
      · exact .inl hnewest
      · exact .inr ⟨i, hi, (hold i hne).symm⟩
  · intro i j hi hj hij
    have hfresh : ∀ k, h.InUse k → h.heap k ≠ ev := by
      rintro k hk rfl
      exact hnew ((hs.mem _).2 ⟨k, hk, rfl⟩)
    rcases (huse i).1 hi with rfl | ⟨hnei, hi⟩
    · rcases (huse j).1 hj with rfl | ⟨hnej, hj⟩
      · rfl
      · rw [hnewest, hold j hnej] at hij
        exact absurd hij.symm (hfresh j hj)
    · rcases (huse j).1 hj with rfl | ⟨hnej, hj⟩
      · rw [hnewest, hold i hnei] at hij
        exact absurd hij (hfresh i hi)
      · rw [hold i hnei, hold j hnej] at hij
        exact hs.place i j hi hj hij

theorem Stores.popBack (hs : h.Stores es) (hes : Agenda es) (hpos : 1 ≤ h.last) :
    h.popBack.Stores (es.erase (h.heap h.last)) := by
  have hlast : h.popBack.last = h.last - 1 := rfl
  have huse : ∀ i, h.popBack.InUse i ↔ i ≠ h.last ∧ h.InUse i := by
    intro i
    rw [InUse, InUse, hlast]
    omega
  refine ⟨?_, ?_, ?_⟩
  · exact hpos
  · intro x
    rw [hes.mem_erase, hs.mem]
    constructor
    · rintro ⟨hne, i, hi, rfl⟩
      exact ⟨i, (huse i).2 ⟨fun heq => hne (heq ▸ rfl), hi⟩, rfl⟩
    · rintro ⟨i, hi, rfl⟩
      rcases (huse i).1 hi with ⟨hne, hi⟩
      refine ⟨?_, i, hi, rfl⟩
      intro heq
      exact hne (hs.place i h.last hi ⟨hpos, le_rfl⟩ heq)
  · intro i j hi hj hij
    exact hs.place i j ((huse i).1 hi).2 ((huse j).1 hj).2 hij

/-- The root is the first event of the agenda. -/
theorem root_eq (hes : Agenda es) (hs : h.Stores es) (hordered : BinaryHeap.Ordered h.entry h.last)
    (hpos : 1 ≤ h.last) : es = h.heap root :: es.erase (h.heap root) := by
  have hroot : h.InUse root := ⟨le_rfl, hpos⟩
  refine hes.eq_cons_erase ((hs.mem _).2 ⟨root, hroot, rfl⟩) ?_
  intro x hx
  rcases (hs.mem x).1 hx with ⟨i, hi, rfl⟩
  rw [lt_iff_order, not_lt]
  exact hordered.root_le i hi.1 hi.2

theorem holds_insert (hs : h.Stores es)
    (hordered : BinaryHeap.Ordered h.entry h.last) (hnew : ∀ x ∈ es, x.key.uid ≠ ev.key.uid) :
    (bottomUp (h.pushBack ev).size (h.pushBack ev).last (h.pushBack ev)).Stores
        (ListScheduler.insertInto ev es) ∧
      BinaryHeap.Ordered
        (bottomUp (h.pushBack ev).size (h.pushBack ev).last (h.pushBack ev)).entry
        (bottomUp (h.pushBack ev).size (h.pushBack ev).last (h.pushBack ev)).last := by
  have hpos := hs.pos
  have hfresh : ev ∉ es := fun hev => hnew ev hev rfl
  have hbelow : BinaryHeap.Ordered (h.pushBack ev).entry ((h.pushBack ev).last - 1) := by
    have hold : ∀ i, i ≠ h.size → (h.pushBack ev).entry i = h.entry i := by
      intro i hi
      rw [entry, entry, pushBack_heap_of_ne h ev hi]
    intro i hi hile
    rw [pushBack_last] at hile
    rw [hold i (by omega), hold (i / 2) (by omega)]
    exact hordered i hi hile
  have huse : (h.pushBack ev).InUse (h.pushBack ev).last := ⟨hpos, le_rfl⟩
  have hrounds : (h.pushBack ev).last ≤ (h.pushBack ev).size := Nat.sub_le _ _
  rcases bottomUp_ordered _ _ _ hrounds huse (BinaryHeap.Rising.push hbelow) with ⟨hmoved, hheap⟩
  refine ⟨(hs.pushBack hfresh).rearrange hmoved, ?_⟩
  rw [hmoved.last]
  exact hheap

theorem holds_removeNext (hes : Agenda es) (hs : h.Stores es)
    (hordered : BinaryHeap.Ordered h.entry h.last) (hpos : 1 ≤ h.last) :
    let left := (h.exch root h.last).popBack
    (topDown left.size root left).Stores (es.erase (h.heap root)) ∧
      BinaryHeap.Ordered (topDown left.size root left).entry (topDown left.size root left).last := by
  intro left
  have hexch : Rearranges h (h.exch root h.last) :=
    Rearranges.exch ⟨le_rfl, hpos⟩ ⟨hpos, le_rfl⟩
  have hstores : left.Stores (es.erase (h.heap root)) := by
    have hpop := (hs.rearrange hexch).popBack hes (hexch.last ▸ hpos)
    have hlast : (h.exch root h.last).heap (h.exch root h.last).last = h.heap root :=
      BinaryHeap.exch_right h.heap root h.last
    rw [hlast] at hpop
    exact hpop
  have hlast : left.last = h.last - 1 := rfl
  have hsinking : BinaryHeap.Sinking left.entry left.last root := by
    refine BinaryHeap.Sinking.root (hordered.mono (Nat.sub_le h.last 1)) ?_
    intro i hi hile
    exact BinaryHeap.exch_of_ne h.entry (show i ≠ 1 by omega) (show i ≠ h.last by omega)
  rcases topDown_ordered left.size root left (Nat.le_add_left _ _) le_rfl hstores.pos hsinking with
    ⟨hmoved, hheap⟩
  refine ⟨hstores.rearrange hmoved, ?_⟩
  rw [hmoved.last]
  exact hheap

end HeapScheduler

instance : LawfulScheduler HeapScheduler where
  Holds h es := Agenda es ∧ h.Stores es ∧ BinaryHeap.Ordered h.entry h.last
  agenda h := h.1
  holds_empty := by
    refine ⟨Agenda.nil, ⟨le_rfl, ?_, ?_⟩, ?_⟩
    · intro ev
      simp only [List.not_mem_nil, false_iff]
      rintro ⟨i, hi, -⟩
      exact absurd (hi.1.trans hi.2) (by decide)
    · intro i j hi
      exact absurd (hi.1.trans hi.2) (by decide)
    · intro i hi hile
      exact absurd (hi.trans hile) (by decide)
  isEmpty_eq := by
    rintro h es ⟨-, hs, -⟩
    change decide (h.size = 1) = es.isEmpty
    rw [Bool.eq_iff_iff, decide_eq_true_iff, List.isEmpty_iff, hs.nil_iff]
  peekNext_eq := by
    rintro h es ⟨hes, hs, hordered⟩
    change (if h.size = 1 then none else some (h.heap HeapScheduler.root)) = es.head?
    by_cases hsize : h.size = 1
    · rw [if_pos hsize, hs.nil_iff.2 hsize]
      rfl
    · have hpos : 1 ≤ h.last := by
        have hpos := hs.pos
        rw [HeapScheduler.last]
        omega
      rw [if_neg hsize, HeapScheduler.root_eq hes hs hordered hpos]
      rfl
  holds_insert := by
    rintro h es ev ⟨hes, hs, hordered⟩ hnew
    exact ⟨_, rfl, ListScheduler.agenda_insertInto hes hnew,
      HeapScheduler.holds_insert hs hordered hnew⟩
  removeNext_nil := by
    rintro h ⟨-, hs, -⟩
    exact if_pos (hs.nil_iff.1 rfl)
  removeNext_cons := by
    rintro h e es ⟨hes, hs, hordered⟩
    have hsize : h.size ≠ 1 := by
      intro hsize
      cases hs.nil_iff.2 hsize
    have hpos : 1 ≤ h.last := by
      have hpos := hs.pos
      rw [HeapScheduler.last]
      omega
    have hroot := HeapScheduler.root_eq hes hs hordered hpos
    have hnext : h.heap HeapScheduler.root = e := (List.cons.inj hroot).1.symm
    have hrest : (e :: es).erase (h.heap HeapScheduler.root) = es := by
      rw [hnext]
      simp
    have hleft := HeapScheduler.holds_removeNext hes hs hordered hpos
    rw [hrest] at hleft
    refine ⟨_, ?_, hes.tail, hleft⟩
    rw [← hnext]
    exact if_neg hsize

end SyncPaxos
