import Mathlib.Algebra.Group.Nat.Defs
import Mathlib.Logic.Function.Basic
import SyncPaxos.Library.Window

/-!
# PacketBuffer — buffers that share their bytes (buffer, packet)

A `Buffer` is a view of a block of bytes, with an area in the middle that is not stored because all its
bytes are zero; offsets behind it count it.  Copies share a block, which counts them, and a block that
nobody uses goes to a free list.  The dirty area of a block is the stretch that some buffer may use.

An operation is `none` where an assertion of the source fails, and where it would use a block that has
been given back or read or write outside of one.  `garbage` is what fresh memory holds.  Sizes, offsets and
counts are `uint32_t`s: their sums and differences wrap.
-/

namespace SyncPaxos.Packets

open Window

/-- A `uint32_t`. -/
def u32 (n : ℕ) : ℕ := n % 2 ^ 32

/-- The difference of two `uint32_t`s. -/
def minus (i j : ℕ) : ℕ := u32 (i + 2 ^ 32 - j)

/-- `Buffer::Data`. -/
structure Data where
  count : ℕ
  size : ℕ
  dirtyStart : ℕ
  dirtyEnd : ℕ
  bytes : ℕ → UInt8

/-- `n` bytes that are stored one after the other, within the block. -/
def Data.load (data : Data) (i n : ℕ) : Option (List UInt8) := do
  guard (i + n ≤ data.size)
  return window data.bytes i n

/-- A byte that is stored, within the block. -/
def Data.loadU8 (data : Data) (i : ℕ) : Option UInt8 := do
  guard (i < data.size)
  return data.bytes i

structure Buffer where
  /-- The address of the block. -/
  data : ℕ
  maxZeroAreaStart : ℕ
  zeroAreaStart : ℕ
  zeroAreaEnd : ℕ
  start : ℕ
  end_ : ℕ
  deriving DecidableEq, Repr

/-- The blocks in use or in the free list, and the static members of `Buffer`. -/
structure Memory where
  blocks : ℕ → Option Data := fun _ => none
  /-- Where the next block is allocated. -/
  next : ℕ := 0
  /-- The back of the list comes first. -/
  freeList : List ℕ := []
  maxSize : ℕ := 0
  recommendedStart : ℕ := 0

namespace Memory

variable (garbage : ℕ → ℕ → UInt8)

def put (m : Memory) (address : ℕ) (data : Data) : Memory :=
  { m with blocks := Function.update m.blocks address (some data) }

/-! ## Blocks -/

/-- `Allocate`; the request is enlarged by `ALLOC_OVER_PROVISION`.  A block and its `Data`, which takes
20 bytes with the first of the block, are allocated in one. -/
def allocate (reqSize : ℕ) (m : Memory) : Option (ℕ × Memory) := do
  let reqSize := u32 ((if reqSize = 0 then 1 else reqSize) + 100)
  guard (u32 (minus reqSize 1 + 20) ≥ reqSize)
  let data : Data :=
    { count := 1
      size := reqSize
      dirtyStart := 0
      dirtyEnd := 0
      bytes := garbage m.next }
  return (m.next, { m.put m.next data with next := m.next + 1 })

def deallocate (address : ℕ) (m : Memory) : Option Memory := do
  let data ← m.blocks address
  guard (data.count = 0)
  return { m with blocks := Function.update m.blocks address none }

def recycle (address : ℕ) (m : Memory) : Option Memory := do
  let data ← m.blocks address
  guard (data.count = 0)
  let m := { m with maxSize := max m.maxSize data.size }
  if data.size < m.maxSize ∨ m.freeList.length > 1000 then
    m.deallocate address
  else
    return { m with freeList := address :: m.freeList }

/-- The loop of `Create` through the free list, and the allocation after it. -/
def createFrom (dataSize : ℕ) : List ℕ → Memory → Option (ℕ × Memory)
  | [], m => allocate garbage dataSize { m with freeList := [] }
  | address :: freeList, m => do
      let data ← m.blocks address
      if data.size ≥ dataSize then
        return (address, { m.put address { data with count := 1 } with freeList := freeList })
      else
        let m ← m.deallocate address
        createFrom dataSize freeList m

def create (dataSize : ℕ) (m : Memory) : Option (ℕ × Memory) :=
  createFrom garbage dataSize m.freeList m

/-- `m_count++`. -/
def retain (address : ℕ) (m : Memory) : Option Memory := do
  let data ← m.blocks address
  return m.put address { data with count := u32 (data.count + 1) }

/-- `m_count--`, and `Recycle` if nobody is left. -/
def release (address : ℕ) (m : Memory) : Option Memory := do
  let data ← m.blocks address
  let count := minus data.count 1
  let m := m.put address { data with count := count }
  if count = 0 then m.recycle address else return m

end Memory

namespace Buffer

variable (garbage : ℕ → ℕ → UInt8)

/-- `m_zeroAreaEnd - m_zeroAreaStart`. -/
def zeroSize (b : Buffer) : ℕ := minus b.zeroAreaEnd b.zeroAreaStart

def getSize (b : Buffer) : ℕ := minus b.end_ b.start

def getInternalSize (b : Buffer) : ℕ :=
  minus (u32 (minus b.zeroAreaStart b.start + b.end_)) b.zeroAreaEnd

def getInternalEnd (b : Buffer) : ℕ := minus b.end_ b.zeroSize

/-- `CheckInternalState`, which is not compiled in. -/
def checkInternalState (b : Buffer) (data : Data) : Bool :=
  let offsetsOk :=
    b.start ≤ b.zeroAreaStart && b.zeroAreaStart ≤ b.zeroAreaEnd && b.zeroAreaEnd ≤ b.end_
  let dirtyOk := b.start ≥ data.dirtyStart && b.end_ ≤ data.dirtyEnd
  let internalSizeOk :=
    minus b.end_ b.zeroSize ≤ data.size && b.start ≤ data.size && b.zeroAreaStart ≤ data.size
  data.count > 0 && offsetsOk && dirtyOk && internalSizeOk

def noteZeroAreaStart (b : Buffer) : Buffer :=
  { b with maxZeroAreaStart := max b.maxZeroAreaStart b.zeroAreaStart }

/-! ## Life of a buffer -/

/-- `Initialize`, which the constructors call. -/
def initializeZero (zeroSize : ℕ) (m : Memory) : Option (Buffer × Memory) := do
  let (address, m) ← m.create garbage 0
  let data ← m.blocks address
  let start := min data.size m.recommendedStart
  let b : Buffer :=
    { data := address
      maxZeroAreaStart := start
      zeroAreaStart := start
      zeroAreaEnd := u32 (start + zeroSize)
      start := start
      end_ := u32 (start + zeroSize) }
  return (b, m.put address { data with dirtyStart := b.start, dirtyEnd := b.end_ })

/-- The copy constructor. -/
def copy (o : Buffer) (m : Memory) : Option (Buffer × Memory) := do
  let m ← m.retain o.data
  return ({ o with maxZeroAreaStart := o.zeroAreaStart }, m)

/-- `operator=`. -/
def assign (b o : Buffer) (m : Memory) : Option (Buffer × Memory) := do
  let m ←
    if b.data ≠ o.data then do
      let m ← m.release b.data
      m.retain o.data
    else
      pure m
  return (o, { m with recommendedStart := max m.recommendedStart b.maxZeroAreaStart })

/-- The destructor. -/
def destroy (b : Buffer) (m : Memory) : Option Memory :=
  { m with recommendedStart := max m.recommendedStart b.maxZeroAreaStart }.release b.data

/-! ## Both ends -/

/-- The stored bytes go to `offset` of a new block. -/
def moveTo (newSize offset : ℕ) (b : Buffer) (m : Memory) : Option (ℕ × Memory) := do
  let (address, m) ← m.create garbage newSize
  let newData ← m.blocks address
  let data ← m.blocks b.data
  let stored ← data.load b.start b.getInternalSize
  guard (offset + b.getInternalSize ≤ newData.size)
  let copied := write newData.bytes offset stored
  let m ← (m.put address { newData with bytes := copied }).release b.data
  return (address, m)

def addAtStart (start : ℕ) (b : Buffer) (m : Memory) : Option (Buffer × Memory) := do
  let data ← m.blocks b.data
  let isDirty := data.count > 1 ∧ b.start > data.dirtyStart
  if b.start ≥ start ∧ ¬ isDirty then
    guard (data.count = 1 ∨ b.start = data.dirtyStart)
    let b := { b with start := b.start - start }
    return (b.noteZeroAreaStart, m.put b.data { data with dirtyStart := b.start })
  else
    let (address, m) ← b.moveTo garbage (u32 (b.getInternalSize + start)) start m
    let data ← m.blocks address
    let delta := minus start b.start
    let b :=
      { b with
        data := address
        start := minus (u32 (b.start + delta)) start
        zeroAreaStart := u32 (b.zeroAreaStart + delta)
        zeroAreaEnd := u32 (b.zeroAreaEnd + delta)
        end_ := u32 (b.end_ + delta) }
    return (b.noteZeroAreaStart, m.put address { data with dirtyStart := b.start, dirtyEnd := b.end_ })

def addAtEnd (end_ : ℕ) (b : Buffer) (m : Memory) : Option (Buffer × Memory) := do
  let data ← m.blocks b.data
  let isDirty := data.count > 1 ∧ b.end_ < data.dirtyEnd
  if u32 (b.getInternalEnd + end_) ≤ data.size ∧ ¬ isDirty then
    guard (data.count = 1 ∨ b.end_ = data.dirtyEnd)
    let b := { b with end_ := u32 (b.end_ + end_) }
    return (b.noteZeroAreaStart, m.put b.data { data with dirtyEnd := b.end_ })
  else
    let (address, m) ← b.moveTo garbage (u32 (b.getInternalSize + end_)) 0 m
    let data ← m.blocks address
    let delta := minus 0 b.start
    let b :=
      { b with
        data := address
        start := u32 (b.start + delta)
        zeroAreaStart := u32 (b.zeroAreaStart + delta)
        zeroAreaEnd := u32 (b.zeroAreaEnd + delta)
        end_ := u32 (u32 (b.end_ + delta) + end_) }
    return (b.noteZeroAreaStart, m.put address { data with dirtyStart := b.start, dirtyEnd := b.end_ })

def removeAtStart (start : ℕ) (b : Buffer) : Option Buffer := do
  let newStart := u32 (b.start + start)
  let b ←
    if newStart ≤ b.zeroAreaStart then
      pure { b with start := newStart }
    else if newStart ≤ b.zeroAreaEnd then
      let delta := minus newStart b.zeroAreaStart
      pure
        { b with
          start := b.zeroAreaStart
          zeroAreaEnd := minus b.zeroAreaEnd delta
          end_ := minus b.end_ delta }
    else if newStart ≤ b.end_ then do
      -- The assertion compares with `start`, not with `newStart`.
      guard (b.end_ ≥ start)
      pure
        { b with
          start := minus newStart b.zeroSize
          end_ := minus b.end_ b.zeroSize
          zeroAreaStart := minus newStart b.zeroSize
          zeroAreaEnd := minus newStart b.zeroSize }
    else
      let end_ := minus b.end_ b.zeroSize
      pure
        { b with
          end_ := end_
          start := end_
          zeroAreaEnd := end_
          zeroAreaStart := end_ }
  return b.noteZeroAreaStart

def removeAtEnd (end_ : ℕ) (b : Buffer) : Buffer :=
  let newEnd := minus b.end_ (min end_ (minus b.end_ b.start))
  let b :=
    if newEnd > b.zeroAreaEnd then
      { b with end_ := newEnd }
    else if newEnd > b.zeroAreaStart then
      { b with
        end_ := newEnd
        zeroAreaEnd := newEnd }
    else if newEnd > b.start then
      { b with
        end_ := newEnd
        zeroAreaEnd := newEnd
        zeroAreaStart := newEnd }
    else
      { b with
        end_ := b.start
        zeroAreaEnd := b.start
        zeroAreaStart := b.start }
  b.noteZeroAreaStart

/-! ## Iterators -/

/-- Where the byte at `current` is stored. -/
def offset (b : Buffer) (current : ℕ) : ℕ :=
  if current < b.zeroAreaStart then current else minus current b.zeroSize

/-- `Iterator::Check`. -/
def check (b : Buffer) (i : ℕ) : Bool :=
  i ≥ b.start && !(i ≥ b.zeroAreaStart && i < b.zeroAreaEnd) && i ≤ b.end_

/-- `Iterator::CheckNoZero`. -/
def checkNoZero (b : Buffer) (start end_ : ℕ) : Bool :=
  !(start < b.start || end_ > b.end_ ||
    (end_ > b.zeroAreaStart && start < b.zeroAreaEnd && b.zeroAreaEnd != b.zeroAreaStart &&
      start != end_))

/-- Bytes stored one after the other, within the block. -/
def store (b : Buffer) (dest : ℕ) (bs : List UInt8) (m : Memory) : Option Memory := do
  let data ← m.blocks b.data
  guard (dest + bs.length ≤ data.size)
  return m.put b.data { data with bytes := write data.bytes dest bs }

/-- Each of the bytes is written by `WriteU8(data)`. -/
def writeU8 (b : Buffer) : ℕ → List UInt8 → Memory → Option Memory
  | _, [], m => some m
  | current, byte :: bs, m => do
      guard (b.check current)
      let m ← b.store (b.offset current) [byte] m
      b.writeU8 (u32 (current + 1)) bs m

/-- `WriteU8(data, len)`. -/
def writeU8Len (b : Buffer) (current : ℕ) (byte : UInt8) (len : ℕ) (m : Memory) : Option Memory := do
  guard (b.checkNoZero current (u32 (current + len)))
  let dest := if current ≤ b.zeroAreaStart then current else minus current b.zeroSize
  b.store dest (List.replicate len byte) m

/-- `Write(buffer, size)`; it checks the size where the other writes check the end. -/
def writeArray (b : Buffer) (current : ℕ) (bs : List UInt8) (m : Memory) : Option Memory := do
  guard (b.checkNoZero current bs.length)
  let dest := if current ≤ b.zeroAreaStart then current else minus current b.zeroSize
  b.store dest bs m

/-- `PeekU8`. -/
def peekU8 (b : Buffer) (current : ℕ) (m : Memory) : Option UInt8 := do
  guard (current ≥ b.start ∧ current < b.end_)
  let data ← m.blocks b.data
  if current < b.zeroAreaStart then
    data.loadU8 current
  else if current < b.zeroAreaEnd then
    return 0
  else
    data.loadU8 (minus current b.zeroSize)

/-- `Read`: `ReadU8` gives one byte after the other. -/
def read (b : Buffer) : ℕ → ℕ → Memory → Option (List UInt8)
  | _, 0, _ => some []
  | current, size + 1, m => do
      let byte ← b.peekU8 current m
      let bs ← b.read (u32 (current + 1)) size m
      return byte :: bs

/-- `CopyData`, at most `size` bytes. -/
def copyData (b : Buffer) (size : ℕ) (m : Memory) : Option (List UInt8) := do
  let data ← m.blocks b.data
  let dataStart := min (minus b.zeroAreaStart b.start) size
  let zeros := min b.zeroSize (size - dataStart)
  let dataEnd := min (minus b.end_ b.zeroAreaEnd) (size - dataStart - zeros)
  let front ← data.load b.start dataStart
  let back ← data.load b.zeroAreaStart dataEnd
  return front ++ List.replicate zeros 0 ++ back

/-! ## Whole buffers -/

def createFragment (start length : ℕ) (b : Buffer) (m : Memory) : Option (Buffer × Memory) := do
  let (tmp, m) ← b.copy m
  let tmp ← tmp.removeAtStart start
  return (tmp.removeAtEnd (minus b.getSize (u32 (start + length))), m)

def createFullCopy (b : Buffer) (m : Memory) : Option (Buffer × Memory) := do
  if b.zeroSize ≠ 0 then
    let (tmp, m) ← initializeZero garbage 0 m
    let (tmp, m) ← tmp.addAtStart garbage b.zeroSize m
    let m ← tmp.writeU8Len tmp.start 0 b.zeroSize m
    let dataStart := minus b.zeroAreaStart b.start
    let (tmp, m) ← tmp.addAtStart garbage dataStart m
    let data ← m.blocks b.data
    let front ← data.load b.start dataStart
    let m ← tmp.writeArray tmp.start front m
    let dataEnd := minus b.end_ b.zeroAreaEnd
    let (tmp, m) ← tmp.addAtEnd garbage dataEnd m
    guard (tmp.end_ ≥ dataEnd)
    let data ← m.blocks b.data
    let back ← data.load b.zeroAreaStart dataEnd
    let m ← tmp.writeArray (tmp.end_ - dataEnd) back m
    return (tmp, m)
  else
    b.copy m

def transformIntoRealBuffer (b : Buffer) (m : Memory) : Option (Buffer × Memory) := do
  let (tmp, m) ← b.createFullCopy garbage m
  let (b, m) ← b.assign tmp m
  let m ← tmp.destroy m
  return (b, m)

/-- `PeekData`, and the bytes that are read through its pointer. -/
def peekData (b : Buffer) (m : Memory) : Option (Buffer × Memory × List UInt8) := do
  let (b, m) ← b.transformIntoRealBuffer garbage m
  let data ← m.blocks b.data
  let bs ← data.load b.start b.getSize
  return (b, m, bs)

/-! ## The buffer of a packet (`Packet`) -/

/-- `Packet(buffer, size)`. -/
def ofArray (bs : List UInt8) (m : Memory) : Option (Buffer × Memory) := do
  let (b, m) ← initializeZero garbage 0 m
  let (b, m) ← b.addAtStart garbage bs.length m
  let m ← b.writeArray b.start bs m
  return (b, m)

/-- `AddHeader`, with the bytes that the header writes. -/
def addHeader (bs : List UInt8) (b : Buffer) (m : Memory) : Option (Buffer × Memory) := do
  let (b, m) ← b.addAtStart garbage bs.length m
  let m ← b.writeU8 b.start bs m
  return (b, m)

/-- `RemoveHeader`, of a header that reads `size` bytes. -/
def removeHeader (size : ℕ) (b : Buffer) (m : Memory) : Option (Buffer × List UInt8) := do
  let bs ← b.read b.start size m
  let b ← b.removeAtStart size
  return (b, bs)

/-- `AddTrailer`; the trailer goes back by its size and writes its bytes. -/
def addTrailer (bs : List UInt8) (b : Buffer) (m : Memory) : Option (Buffer × Memory) := do
  let (b, m) ← b.addAtEnd garbage bs.length m
  guard (b.end_ ≥ bs.length)
  let m ← b.writeU8 (b.end_ - bs.length) bs m
  return (b, m)

/-- `RemoveTrailer`, of a trailer that goes back by `size` and reads as many bytes. -/
def removeTrailer (size : ℕ) (b : Buffer) (m : Memory) : Option (Buffer × List UInt8) := do
  guard (b.end_ ≥ size)
  let bs ← b.read (b.end_ - size) size m
  return (b.removeAtEnd size, bs)

/-- `CreateFragment`; the new packet has a copy of the fragment. -/
def fragment (start length : ℕ) (b : Buffer) (m : Memory) : Option (Buffer × Memory) := do
  let (tmp, m) ← b.createFragment start length m
  -- By now the fragment has been cut.
  guard (b.getSize ≥ u32 (start + length))
  let (c, m) ← tmp.copy m
  let m ← tmp.destroy m
  return (c, m)

end Buffer

end SyncPaxos.Packets
