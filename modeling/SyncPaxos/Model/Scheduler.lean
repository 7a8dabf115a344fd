import Mathlib.Data.List.Sort
import Mathlib.Data.List.Nodup
import Mathlib.Tactic.Common
import SyncPaxos.Library.BinaryHeap

/-!
# Scheduler — the event lists of the simulator (scheduler, list-, map- and heap-scheduler)

An event of a list is a pointer to what it does and a key.  Keys are compared by time stamp and then
by the number the simulator gave the event; the context is not compared.

`Scheduler` is the interface.  An operation is `none` where an assertion of the source fails, and
where the source reads from an empty container.
-/

namespace SyncPaxos

namespace Scheduler

/-- `Scheduler::EventKey`; `uid` and `context` are `uint32_t`s. -/
structure EventKey where
  ts : ℕ
  uid : ℕ
  context : ℕ
  deriving DecidableEq, Repr

namespace EventKey

instance : LT EventKey := ⟨fun a b => a.ts < b.ts ∨ a.ts = b.ts ∧ a.uid < b.uid⟩

theorem lt_def {a b : EventKey} : a < b ↔ a.ts < b.ts ∨ a.ts = b.ts ∧ a.uid < b.uid := Iff.rfl

instance (a b : EventKey) : Decidable (a < b) := decidable_of_iff _ lt_def.symm

/-- The comparison that `std::map` makes with `operator<`. -/
def compare : EventKey → EventKey → Ordering := compareLex (compareOn ts) (compareOn uid)

end EventKey

/-- `Scheduler::Event`; `impl` is an address. -/
structure Event where
  impl : ℕ
  key : EventKey
  deriving DecidableEq, Repr

end Scheduler

open Scheduler (EventKey)

/-- The interface of an event list. -/
class Scheduler (σ : Type) where
  empty : σ
  insert : Scheduler.Event → σ → Option σ
  isEmpty : σ → Bool
  peekNext : σ → Option Scheduler.Event
  removeNext : σ → Option (Scheduler.Event × σ)
  remove : Scheduler.Event → σ → Option σ

/-! ## A sorted list -/

structure ListScheduler where
  events : List Scheduler.Event := []

namespace ListScheduler

/-- The loop of `Insert`. -/
def insertInto (ev : Scheduler.Event) : List Scheduler.Event → List Scheduler.Event
  | [] => [ev]
  | i :: rest => if ev.key < i.key then ev :: i :: rest else i :: insertInto ev rest

/-- The loop of `Remove`. -/
def removeFrom (ev : Scheduler.Event) : List Scheduler.Event → Option (List Scheduler.Event)
  | [] => none
  | i :: rest =>
      if i.key.uid = ev.key.uid then
        if ev.impl = i.impl then some rest else none
      else
        (removeFrom ev rest).map (i :: ·)

instance : Scheduler ListScheduler where
  empty := {}
  insert ev s := some ⟨insertInto ev s.events⟩
  isEmpty s := s.events.isEmpty
  peekNext s := s.events.head?
  removeNext s :=
    match s.events with
    | [] => none
    | next :: rest => some (next, ⟨rest⟩)
  remove ev s := (removeFrom ev s.events).map ListScheduler.mk

end ListScheduler

/-! ## A map from keys -/

/-- `list` is the `std::map` from keys to implementations. -/
structure MapScheduler where
  list : Std.TreeMap EventKey ℕ EventKey.compare := ∅

namespace MapScheduler

/-- `m_list.begin()`, the entry that is first in the order of the keys. -/
def begin (s : MapScheduler) : Option Scheduler.Event :=
  s.list.toList.head?.map fun i => ⟨i.2, i.1⟩

instance : Scheduler MapScheduler where
  empty := {}
  insert ev s :=
    -- `std::map::insert` does nothing if there is an equivalent key, which is asserted not to be
    if s.list.contains ev.key then none else some ⟨s.list.insert ev.key ev.impl⟩
  isEmpty s := s.list.isEmpty
  peekNext s := s.begin
  removeNext s := s.begin.map fun ev => (ev, ⟨s.list.erase ev.key⟩)
  remove ev s :=
    match s.list[ev.key]? with
    | none => none
    | some impl => if impl = ev.impl then some ⟨s.list.erase ev.key⟩ else none

end MapScheduler

/-! ## A heap -/

/-- `heap i` is `m_heap[i]` for `i < size`; entry 0 is a dummy. -/
structure HeapScheduler where
  size : ℕ := 1
  heap : ℕ → Scheduler.Event := fun _ => ⟨0, 0, 0, 0⟩

namespace HeapScheduler

def parent (id : ℕ) : ℕ := id / 2
def leftChild (id : ℕ) : ℕ := id * 2
def rightChild (id : ℕ) : ℕ := id * 2 + 1
def root : ℕ := 1
def isRoot (id : ℕ) : Bool := id = root

variable (h : HeapScheduler)

def last : ℕ := h.size - 1
def isBottom (id : ℕ) : Bool := id ≥ h.size
def isLessStrictly (a b : ℕ) : Bool := (h.heap a).key < (h.heap b).key
def smallest (a b : ℕ) : ℕ := if h.isLessStrictly a b then a else b

def exch (a b : ℕ) : HeapScheduler := { h with heap := BinaryHeap.exch h.heap a b }

def pushBack (ev : Scheduler.Event) : HeapScheduler where
  size := h.size + 1
  heap := Function.update h.heap h.size ev

def popBack : HeapScheduler := { h with size := h.size - 1 }

/-- The loop of `BottomUp`, which halves the index in each round. -/
def bottomUp : ℕ → ℕ → HeapScheduler → HeapScheduler
  | 0, _, h => h
  | rounds + 1, index, h =>
      if !isRoot index && h.isLessStrictly index (parent index) then
        bottomUp rounds (parent index) (h.exch index (parent index))
      else
        h

/-- `TopDown`, whose loop at least doubles the index in each round. -/
def topDown : ℕ → ℕ → HeapScheduler → HeapScheduler
  | 0, _, h => h
  | rounds + 1, index, h =>
      if !h.isBottom (rightChild index) then
        let tmp := h.smallest (leftChild index) (rightChild index)
        if h.isLessStrictly index tmp then
          h
        else
          topDown rounds tmp (h.exch index tmp)
      else if h.isBottom index then
        h
      else if h.isBottom (leftChild index) then
        h
      else if h.isLessStrictly index (leftChild index) then
        h
      else
        h.exch index (leftChild index)

/-- The index of the event that `Remove` looks for. -/
def find (ev : Scheduler.Event) : Option ℕ :=
  (List.range' 1 h.last).find? fun i => ev.key.uid = (h.heap i).key.uid

instance : Scheduler HeapScheduler where
  empty := {}
  insert ev h :=
    let h := h.pushBack ev
    some (bottomUp h.size h.last h)
  isEmpty h := h.size = 1
  peekNext h := if h.size = 1 then none else some (h.heap root)
  removeNext h :=
    if h.size = 1 then
      none
    else
      let next := h.heap root
      let h := (h.exch root h.last).popBack
      some (next, topDown h.size root h)
  remove ev h :=
    match h.find ev with
    | none => none
    | some i =>
        if (h.heap i).impl = ev.impl then
          let h := (h.exch i h.last).popBack
          some (topDown h.size i h)
        else
          none

end HeapScheduler

end SyncPaxos
