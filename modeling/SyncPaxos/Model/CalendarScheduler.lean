import Mathlib.Algebra.GroupWithZero.Nat
import Mathlib.Logic.Function.Basic
import SyncPaxos.Model.Scheduler

/-!
# CalendarScheduler — an event list of days and years (calendar-scheduler)

Time is cut into days of `width`, and day `d` goes into bucket `d % nBuckets`.  A removal starts at the
day of the last one and looks for an event of the day, then of the next day, for a year; if the year has
none, the least first event of a bucket is taken.  The number of buckets follows the number of events,
and the width of a day their distances.

An operation is `none` where an assertion of the source fails.  Time stamps are natural numbers, far
from the end of their `uint64_t`; the order of buckets is that of `SetReverse(false)`, the default.
-/

namespace SyncPaxos

structure CalendarScheduler where
  buckets : ℕ → List Scheduler.Event
  nBuckets : ℕ
  width : ℕ
  lastBucket : ℕ
  bucketTop : ℕ
  lastPrio : ℕ
  qSize : ℕ

namespace CalendarScheduler

open Scheduler (EventKey)

variable (s : CalendarScheduler)

def hash (ts : ℕ) : ℕ := ts / s.width % s.nBuckets

/-- `Init`; the number of events is kept by its callers. -/
def init (nBuckets width startPrio qSize : ℕ) : CalendarScheduler where
  buckets := fun _ => []
  nBuckets := nBuckets
  width := width
  lastBucket := startPrio / width % nBuckets
  bucketTop := (startPrio / width + 1) * width
  lastPrio := startPrio
  qSize := qSize

/-- The constructor. -/
def create : CalendarScheduler := init 2 1 0 0

def setBucket (i : ℕ) (bucket : List Scheduler.Event) : CalendarScheduler :=
  { s with buckets := Function.update s.buckets i bucket }

/-- The loop is that of `ListScheduler::Insert`. -/
def doInsert (ev : Scheduler.Event) : CalendarScheduler :=
  s.setBucket (s.hash ev.key.ts) (ListScheduler.insertInto ev (s.buckets (s.hash ev.key.ts)))

/-! ## Removing the next event -/

/-- The loop of `DoRemoveNext` and `PeekNext`, by the rounds that are left: the bucket, the top and the
event where it returns, or `minKey` and `minBucket` where it ends. -/
def scan : ℕ → ℕ → ℕ → Option (EventKey × ℕ) → (ℕ × ℕ × Scheduler.Event) ⊕ Option (EventKey × ℕ)
  | 0, _, _, min => .inr min
  | rounds + 1, i, bucketTop, min =>
      match s.buckets i with
      | [] => scan rounds ((i + 1) % s.nBuckets) (bucketTop + s.width) min
      | next :: _ =>
          if next.key.ts < bucketTop then
            .inl (i, bucketTop, next)
          else
            let min := if min.all (fun m => next.key < m.1) then some (next.key, i) else min
            scan rounds ((i + 1) % s.nBuckets) (bucketTop + s.width) min

def doRemoveNext : Option (Scheduler.Event × CalendarScheduler) :=
  if s.qSize = 0 then
    none
  else
    match s.scan s.nBuckets s.lastBucket s.bucketTop none with
    | .inl (i, bucketTop, next) =>
        some (next, { s.setBucket i (s.buckets i).tail with
          lastBucket := i
          lastPrio := next.key.ts
          bucketTop := bucketTop })
    | .inr none => none
    | .inr (some (minKey, minBucket)) =>
        match s.buckets minBucket with
        | [] => none
        | next :: rest =>
            some (next, { s.setBucket minBucket rest with
              lastPrio := minKey.ts
              lastBucket := s.hash minKey.ts
              bucketTop := (minKey.ts / s.width + 1) * s.width })

def peekNext : Option Scheduler.Event :=
  if s.qSize = 0 then
    none
  else
    match s.scan s.nBuckets s.lastBucket s.bucketTop none with
    | .inl (_, _, next) => some next
    | .inr none => none
    | .inr (some (_, minBucket)) => (s.buckets minBucket).head?

/-! ## Resizing -/

/-- Gather requested events. -/
def gather : ℕ → CalendarScheduler → Option (List Scheduler.Event × CalendarScheduler)
  | 0, s => some ([], s)
  | n + 1, s => do
      let (ev, s) ← s.doRemoveNext
      let (samples, s) ← gather n s
      return (ev :: samples, s)

/-- The distances of neighbours. -/
def separations (samples : List Scheduler.Event) : List ℕ :=
  List.zipWith (fun cur next => next.key.ts - cur.key.ts) samples samples.tail

/-- The inter-time average over samples, of which larger ones are left out. -/
def newWidth (nSamples : ℕ) (samples : List Scheduler.Event) : ℕ :=
  let twiceAvg := (separations samples).sum / (nSamples - 1) * 2
  max (((separations samples).filter (· ≤ twiceAvg)).sum * 3) 1

/-- How many events `CalculateNewWidth` takes as samples. -/
def nSamples : ℕ := min (if s.qSize ≤ 5 then s.qSize else 5 + s.qSize / 10) 25

def calculateNewWidth : Option (ℕ × CalendarScheduler) :=
  if s.qSize < 2 then
    some (1, s)
  else do
    let (samples, taken) ← gather s.nSamples s
    -- put them back, and restore state
    let back := samples.foldl (fun t ev => t.doInsert ev) taken
    return (newWidth s.nSamples samples, { back with
      lastBucket := s.lastBucket
      bucketTop := s.bucketTop
      lastPrio := s.lastPrio })

def doResize (newSize newWidth : ℕ) : CalendarScheduler :=
  ((List.range s.nBuckets).flatMap s.buckets).foldl (fun t ev => t.doInsert ev)
    (init newSize newWidth s.lastPrio s.qSize)

def resize (newSize : ℕ) : Option CalendarScheduler := do
  let (width, s) ← s.calculateNewWidth
  return s.doResize newSize width

def resizeUp : Option CalendarScheduler :=
  if s.qSize > s.nBuckets * 2 ∧ s.nBuckets < 32768 then s.resize (s.nBuckets * 2) else some s

def resizeDown : Option CalendarScheduler :=
  if s.qSize < s.nBuckets / 2 then s.resize (s.nBuckets / 2) else some s

/-! ## The event list -/

def insert (ev : Scheduler.Event) : Option CalendarScheduler :=
  { s.doInsert ev with qSize := s.qSize + 1 }.resizeUp

def isEmpty : Bool := s.qSize = 0

def removeNext : Option (Scheduler.Event × CalendarScheduler) := do
  let (ev, s) ← s.doRemoveNext
  let s ← { s with qSize := s.qSize - 1 }.resizeDown
  return (ev, s)

/-- The loop is that of `ListScheduler::Remove`. -/
def remove (ev : Scheduler.Event) : Option CalendarScheduler := do
  let bucket ← ListScheduler.removeFrom ev (s.buckets (s.hash ev.key.ts))
  { s.setBucket (s.hash ev.key.ts) bucket with qSize := s.qSize - 1 }.resizeDown

instance : Scheduler CalendarScheduler where
  empty := create
  insert ev s := s.insert ev
  isEmpty := isEmpty
  peekNext := peekNext
  removeNext := removeNext
  remove ev s := s.remove ev

end CalendarScheduler

end SyncPaxos
