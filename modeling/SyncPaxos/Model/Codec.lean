import SyncPaxos.Library.Bytes
import SyncPaxos.Library.Rounding
import SyncPaxos.Model.Frame

/-!
# Codec — how a frame crosses a buffer (paxos-frame)

A time goes out as its count of nanoseconds in eight bytes.  It comes back through text: the
count is printed, `ns` is appended, and the constructor of `ns3::Time` reads the digits into a
`double`, which has 53 significant bits.

A read is `none` where the source leaves the buffer or converts a `double` that no `int64_t`
holds.
-/

namespace SyncPaxos

open Bytes

/-! ## The buffer -/

def writeU32 (n : ℕ) : Buffer := write 4 n
def writeU64 (n : ℕ) : Buffer := write 8 n
def readU32 : Reader ℕ := read 4
def readU64 : Reader ℕ := read 8

/-! ## Times as text -/

/-- The value of a `double` as a count of nanoseconds, a signed 64-bit number. -/
def Time.fromDouble (r : ℕ) : Option Time := if r < 2 ^ 63 then some r else none

/-- The count of nanoseconds that comes back for a count that was printed. -/
def readTime (t : Time) : Time := Rounding.roundNearest 53 t

/-- `Time::Time(const std::string&)` on a text whose number is a row of digits, for the unit that
the frames use. -/
def Time.ofString (s : String) : Option Time :=
  let number := s.toList.takeWhile (fun c => c ∈ "+-0123456789.eE".toList)
  let trailer := s.toList.dropWhile (fun c => c ∈ "+-0123456789.eE".toList)
  if trailer = "ns".toList then
    Time.fromDouble (readTime (Nat.ofDigitChars 10 number 0))
  else
    none

namespace RequestFrame

def getSerializedSize : ℕ := 8 + 4

def serialize (f : RequestFrame) : Buffer :=
  writeU64 f.timestamp ++ writeU32 f.value

/-- `Deserialize`, with the size it returns. -/
def deserialize : Reader (RequestFrame × ℕ) := do
  let timestamp ← readU64
  let timestamp ← Time.ofString (toString timestamp ++ "ns")
  let value ← readU32
  return ({ timestamp, value }, getSerializedSize)

end RequestFrame

namespace PaxosFrame

def getSerializedSize : ℕ := 4 + 4 + 8 + 4 + 8 + 4 + 8 + 8

def serialize (f : PaxosFrame) : Buffer :=
  writeU32 f.messageType ++ writeU32 f.proposerId ++ writeU64 f.proposalId ++ writeU32 f.value ++
    writeU64 f.proposeTime ++ writeU32 f.acceptorId ++ writeU64 f.acceptTime ++
    writeU64 f.decisionTime

/-- `Deserialize`, with the size it returns. -/
def deserialize : Reader (PaxosFrame × ℕ) := do
  let messageType ← readU32
  let proposerId ← readU32
  let proposalId ← readU64
  let value ← readU32
  let proposeTime ← readU64
  let proposeTime ← Time.ofString (toString proposeTime ++ "ns")
  let acceptorId ← readU32
  let acceptTime ← readU64
  let acceptTime ← Time.ofString (toString acceptTime ++ "ns")
  let decisionTime ← readU64
  let decisionTime ← Time.ofString (toString decisionTime ++ "ns")
  return ({ messageType, proposerId, proposalId, value, proposeTime, acceptorId, acceptTime,
            decisionTime }, getSerializedSize)

end PaxosFrame

end SyncPaxos
