import SyncPaxos.Library.Slots
import SyncPaxos.Model.PacketBuffer

/-!
# PacketPool — programs that use packets (packet)

A program holds packets, which may share the blocks of their buffers, and does one operation after the
other with them.  A new packet takes the next slot; the slot of a destroyed one stays empty.  Tags, the
metadata and nix-vectors are left out: nothing that is modelled reads them.
-/

namespace SyncPaxos.Packets

structure Pool where
  memory : Memory := {}
  packets : List (Option Buffer) := []

/-- What a program may do with its packets, which it names by their slots. -/
inductive Op where
  | create (size : ℕ)
  | ofArray (bs : List UInt8)
  | copy (i : ℕ)
  | assign (i j : ℕ)
  | destroy (i : ℕ)
  | addHeader (i : ℕ) (bs : List UInt8)
  | removeHeader (i size : ℕ)
  | addTrailer (i : ℕ) (bs : List UInt8)
  | removeTrailer (i size : ℕ)
  | removeAtStart (i size : ℕ)
  | removeAtEnd (i size : ℕ)
  | createFragment (i start length : ℕ)
  | copyData (i size : ℕ)
  | peekData (i : ℕ)
  deriving DecidableEq, Repr

namespace Pool

variable (garbage : ℕ → ℕ → UInt8)

def add (p : Pool) (b : Buffer) (m : Memory) : Pool := ⟨m, p.packets ++ [some b]⟩

def set (p : Pool) (i : ℕ) (b : Option Buffer) (m : Memory) : Pool := ⟨m, p.packets.set i b⟩

/-- An operation, with the bytes that it reads. -/
def apply : Op → Pool → Option (Pool × List UInt8)
  | .create size, p => do
      let (b, m) ← Buffer.initializeZero garbage size p.memory
      return (p.add b m, [])
  | .ofArray bs, p => do
      let (b, m) ← Buffer.ofArray garbage bs p.memory
      return (p.add b m, [])
  | .copy i, p => do
      let b ← Slots.get p.packets i
      let (c, m) ← b.copy p.memory
      return (p.add c m, [])
  | .assign i j, p => do
      let b ← Slots.get p.packets i
      let o ← Slots.get p.packets j
      if i = j then
        return (p, [])
      else
        let (c, m) ← b.assign o p.memory
        return (p.set i (some c) m, [])
  | .destroy i, p => do
      let b ← Slots.get p.packets i
      let m ← b.destroy p.memory
      return (p.set i none m, [])
  | .addHeader i bs, p => do
      let b ← Slots.get p.packets i
      let (c, m) ← b.addHeader garbage bs p.memory
      return (p.set i (some c) m, [])
  | .removeHeader i size, p => do
      let b ← Slots.get p.packets i
      let (c, bs) ← b.removeHeader size p.memory
      return (p.set i (some c) p.memory, bs)
  | .addTrailer i bs, p => do
      let b ← Slots.get p.packets i
      let (c, m) ← b.addTrailer garbage bs p.memory
      return (p.set i (some c) m, [])
  | .removeTrailer i size, p => do
      let b ← Slots.get p.packets i
      let (c, bs) ← b.removeTrailer size p.memory
      return (p.set i (some c) p.memory, bs)
  | .removeAtStart i size, p => do
      let b ← Slots.get p.packets i
      let c ← b.removeAtStart size
      return (p.set i (some c) p.memory, [])
  | .removeAtEnd i size, p => do
      let b ← Slots.get p.packets i
      return (p.set i (some (b.removeAtEnd size)) p.memory, [])
  | .createFragment i start length, p => do
      let b ← Slots.get p.packets i
      let (c, m) ← b.fragment start length p.memory
      return (p.add c m, [])
  | .copyData i size, p => do
      let b ← Slots.get p.packets i
      let bs ← b.copyData size p.memory
      return (p, bs)
  | .peekData i, p => do
      let b ← Slots.get p.packets i
      let (c, m, bs) ← b.peekData garbage p.memory
      return (p.set i (some c) m, bs)

/-- A program, and what its operations read. -/
def run : List Op → Pool → Option (Pool × List (List UInt8))
  | [], p => some (p, [])
  | op :: ops, p => do
      let (p, bs) ← p.apply garbage op
      let (p, outputs) ← p.run ops
      return (p, bs :: outputs)

end Pool

end SyncPaxos.Packets
