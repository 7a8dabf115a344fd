import Mathlib.Tactic.IntervalCases
import SyncPaxos.Model.Codec

/-!
# RoundTrip — what a frame is after its way through a buffer

The bytes of a frame are read in the order in which they were written, so every field but the
times comes back as it went (`run_deserialize`).  A time comes back rounded to the 53 bits of a
`double`: it is restored exactly if it has no more significant bits than that.
-/

namespace SyncPaxos

open Bytes Rounding

/-- A value of a `uint32_t`. -/
abbrev IsU32 (n : ℕ) : Prop := n < 2 ^ 32

/-- A value of a `uint64_t`. -/
abbrev IsU64 (n : ℕ) : Prop := n < 2 ^ 64

/-- A time that is not negative: a value of an `int64_t`. -/
abbrev IsTime (t : Time) : Prop := t < 2 ^ 63

/-- The frame holds what its fields can hold. -/
structure RequestFrame.Fits (f : RequestFrame) : Prop where
  timestamp : IsTime f.timestamp
  value : IsU32 f.value

/-- The frame holds what its fields can hold. -/
structure PaxosFrame.Fits (f : PaxosFrame) : Prop where
  messageType : IsU32 f.messageType
  proposerId : IsU32 f.proposerId
  proposalId : IsU64 f.proposalId
  value : IsU32 f.value
  proposeTime : IsTime f.proposeTime
  acceptorId : IsU32 f.acceptorId
  acceptTime : IsTime f.acceptTime
  decisionTime : IsTime f.decisionTime

/-- The time has a significand of 53 bits. -/
abbrev ExactTime (t : Time) : Prop := Representable 53 t

/-! ## Times -/

/-- The digits that are printed are among the characters that a number is read from. -/
theorem mem_numeric_of_isDigit {c : Char} (h : c.isDigit = true) :
    c ∈ "+-0123456789.eE".toList := by
  have hrange : 48 ≤ c.toNat ∧ c.toNat ≤ 57 := by
    simpa [Char.isDigit, UInt32.le_iff_toNat_le] using h
  rw [← Char.ofNat_toNat c]
  generalize c.toNat = n at hrange
  rcases hrange with ⟨hlo, hhi⟩
  interval_cases n <;> decide

/-- The text of a time is its digits up to the unit. -/
theorem numeric_toString (t : ℕ) :
    (toString t ++ "ns").toList.takeWhile (fun c => c ∈ "+-0123456789.eE".toList) =
        Nat.toDigits 10 t ∧
      (toString t ++ "ns").toList.dropWhile (fun c => c ∈ "+-0123456789.eE".toList) =
        "ns".toList := by
  have hlist : (toString t ++ "ns").toList = Nat.toDigits 10 t ++ "ns".toList := by
    rw [String.toList_append, Nat.toString_eq_repr, Nat.toList_repr]
  have hdigits : ∀ c ∈ Nat.toDigits 10 t,
      decide (c ∈ "+-0123456789.eE".toList) = true := by
    intro c hc
    have hdigit := Nat.isDigit_of_mem_toDigits (by decide) (by decide) hc
    exact decide_eq_true (mem_numeric_of_isDigit hdigit)
  constructor
  · rw [hlist, List.takeWhile_append_of_pos hdigits]
    exact List.append_nil _
  · rw [hlist, List.dropWhile_append_of_pos hdigits]
    rfl

/-- Printed and read again, a time is what its `double` is. -/
theorem ofString_toString (t : ℕ) :
    Time.ofString (toString t ++ "ns") = Time.fromDouble (readTime t) := by
  rcases numeric_toString t with ⟨hnumber, htrailer⟩
  unfold Time.ofString
  simp only [hnumber, htrailer, if_true]
  rw [Nat.ofDigitChars_ten_toDigits]

/-- A time comes back as it went exactly if it has a significand of 53 bits. -/
theorem fromDouble_readTime_iff {t : Time} (h : IsTime t) :
    Time.fromDouble (readTime t) = some t ↔ ExactTime t := by
  have hiff : readTime t = t ↔ ExactTime t := roundNearest_eq_self_iff (by decide)
  rw [← hiff]
  unfold Time.fromDouble
  constructor
  · intro hread
    split at hread
    · exact Option.some.inj hread
    · cases hread
  · intro hself
    rw [hself, if_pos h]

/-! ## Frames -/

/-- The frame with the times that come back. -/
def RequestFrame.restored (f : RequestFrame) : Option RequestFrame := do
  let timestamp ← Time.fromDouble (readTime f.timestamp)
  return { f with timestamp }

/-- The frame with the times that come back. -/
def PaxosFrame.restored (f : PaxosFrame) : Option PaxosFrame := do
  let proposeTime ← Time.fromDouble (readTime f.proposeTime)
  let acceptTime ← Time.fromDouble (readTime f.acceptTime)
  let decisionTime ← Time.fromDouble (readTime f.decisionTime)
  return { f with proposeTime, acceptTime, decisionTime }

theorem RequestFrame.length_serialize (f : RequestFrame) :
    f.serialize.length = RequestFrame.getSerializedSize := by
  simp [RequestFrame.serialize, writeU32, writeU64, RequestFrame.getSerializedSize]

theorem PaxosFrame.length_serialize (f : PaxosFrame) :
    f.serialize.length = PaxosFrame.getSerializedSize := by
  simp [PaxosFrame.serialize, writeU32, writeU64, PaxosFrame.getSerializedSize]

theorem run_readU32 {α : Type} {n : ℕ} (h : IsU32 n) (f : ℕ → Reader α) (rest : Buffer) :
    (readU32 >>= f).run (writeU32 n ++ rest) = (f n).run rest :=
  run_bind_read (k := 4) h f rest

theorem run_readU64 {α : Type} {n : ℕ} (h : IsU64 n) (f : ℕ → Reader α) (rest : Buffer) :
    (readU64 >>= f).run (writeU64 n ++ rest) = (f n).run rest :=
  run_bind_read (k := 8) h f rest

theorem IsTime.isU64 {t : Time} (h : IsTime t) : IsU64 t :=
  h.trans (by decide)

theorem RequestFrame.run_deserialize {f : RequestFrame} (h : f.Fits) (rest : Buffer) :
    RequestFrame.deserialize.run (f.serialize ++ rest) =
      f.restored.map (fun g => ((g, RequestFrame.getSerializedSize), rest)) := by
  unfold RequestFrame.deserialize RequestFrame.serialize RequestFrame.restored
  rw [List.append_assoc, run_readU64 h.timestamp.isU64, run_bind_lift, ofString_toString]
  cases Time.fromDouble (readTime f.timestamp) with
  | none =>
      rfl
  | some timestamp =>
      exact run_readU32 h.value _ rest

theorem PaxosFrame.run_deserialize {f : PaxosFrame} (h : f.Fits) (rest : Buffer) :
    PaxosFrame.deserialize.run (f.serialize ++ rest) =
      f.restored.map (fun g => ((g, PaxosFrame.getSerializedSize), rest)) := by
  unfold PaxosFrame.deserialize PaxosFrame.serialize PaxosFrame.restored
  simp only [List.append_assoc]
  rw [run_readU32 h.messageType, run_readU32 h.proposerId, run_readU64 h.proposalId,
    run_readU32 h.value, run_readU64 h.proposeTime.isU64, run_bind_lift, ofString_toString]
  cases Time.fromDouble (readTime f.proposeTime) with
  | none =>
      rfl
  | some proposeTime =>
      simp only [Option.bind_some]
      rw [run_readU32 h.acceptorId, run_readU64 h.acceptTime.isU64, run_bind_lift,
        ofString_toString]
      cases Time.fromDouble (readTime f.acceptTime) with
      | none =>
          rfl
      | some acceptTime =>
          simp only [Option.bind_some]
          rw [run_readU64 h.decisionTime.isU64, run_bind_lift, ofString_toString]
          cases Time.fromDouble (readTime f.decisionTime) <;> rfl

theorem RequestFrame.restored_iff {f : RequestFrame} (h : f.Fits) :
    f.restored = some f ↔ ExactTime f.timestamp := by
  rw [← fromDouble_readTime_iff h.timestamp]
  rcases f with ⟨t, v⟩
  simp [RequestFrame.restored, Option.bind_eq_some_iff]

theorem PaxosFrame.restored_iff {f : PaxosFrame} (h : f.Fits) :
    f.restored = some f ↔
      ExactTime f.proposeTime ∧ ExactTime f.acceptTime ∧ ExactTime f.decisionTime := by
  rw [← fromDouble_readTime_iff h.proposeTime, ← fromDouble_readTime_iff h.acceptTime,
    ← fromDouble_readTime_iff h.decisionTime]
  rcases f with ⟨m, pid, id, v, p, aid, a, d⟩
  simp [PaxosFrame.restored, Option.bind_eq_some_iff]

/-! ## The round trip -/

/-- The bytes of a frame are as many as is announced, and with any bytes behind them they are read
as the frame: no more of them, no fewer, and every field as it was. -/
structure RoundTrip {α : Type} (serialize : α → Buffer) (size : ℕ) (deserialize : Reader (α × ℕ))
    (f : α) : Prop where
  length : (serialize f).length = size
  restores : ∀ rest, deserialize.run (serialize f ++ rest) = some ((f, size), rest)

theorem roundTrip_iff {α : Type} {serialize : α → Buffer} {size : ℕ} {deserialize : Reader (α × ℕ)}
    {f : α} {restored : Option α} (hlength : (serialize f).length = size)
    (hrun : ∀ rest, deserialize.run (serialize f ++ rest) =
      restored.map (fun g => ((g, size), rest))) :
    RoundTrip serialize size deserialize f ↔ restored = some f := by
  constructor
  · -- No bytes behind the frame are enough to read it back.
    intro h
    have hread := (hrun []).symm.trans (h.restores [])
    rcases Option.map_eq_some_iff.1 hread with ⟨g, hg, hpair⟩
    rw [hg]
    exact congrArg (fun x => some x.1.1) hpair
  · intro hself
    refine ⟨hlength, ?_⟩
    intro rest
    rw [hrun, hself]
    rfl

/-- The frame crosses a buffer unchanged. -/
abbrev RequestFrame.RoundTrips (f : RequestFrame) : Prop :=
  RoundTrip RequestFrame.serialize RequestFrame.getSerializedSize RequestFrame.deserialize f

/-- The frame crosses a buffer unchanged. -/
abbrev PaxosFrame.RoundTrips (f : PaxosFrame) : Prop :=
  RoundTrip PaxosFrame.serialize PaxosFrame.getSerializedSize PaxosFrame.deserialize f

theorem RequestFrame.roundTrips_iff {f : RequestFrame} (h : f.Fits) :
    f.RoundTrips ↔ ExactTime f.timestamp :=
  (roundTrip_iff f.length_serialize (RequestFrame.run_deserialize h)).trans
    (RequestFrame.restored_iff h)

theorem PaxosFrame.roundTrips_iff {f : PaxosFrame} (h : f.Fits) :
    f.RoundTrips ↔
      ExactTime f.proposeTime ∧ ExactTime f.acceptTime ∧ ExactTime f.decisionTime :=
  (roundTrip_iff f.length_serialize (PaxosFrame.run_deserialize h)).trans
    (PaxosFrame.restored_iff h)

/-- A frame crosses a buffer unchanged exactly if its times have significands of 53 bits. -/
theorem round_trips_iff (r : RequestFrame) (f : PaxosFrame) (hr : r.Fits) (hf : f.Fits) :
    (r.RoundTrips ↔ ExactTime r.timestamp) ∧
      (f.RoundTrips ↔
        ExactTime f.proposeTime ∧ ExactTime f.acceptTime ∧ ExactTime f.decisionTime) :=
  ⟨RequestFrame.roundTrips_iff hr, PaxosFrame.roundTrips_iff hf⟩

/-- A PROPOSAL of the second day of a run crosses unchanged. -/
theorem round_trips_second_day :
    let request : RequestFrame := { timestamp := 10 ^ 14 + 1, value := 7 }
    let proposal : PaxosFrame :=
      { messageType := PaxosFrame.PROPOSAL, proposalId := 10 ^ 14 + 1, value := 7,
        proposeTime := 10 ^ 14 + 17 }
    request.RoundTrips ∧ proposal.RoundTrips := by
  intro request proposal
  have hrequest : request.Fits := ⟨by decide, by decide⟩
  have hproposal : proposal.Fits :=
    ⟨by decide, by decide, by decide, by decide, by decide, by decide, by decide, by decide⟩
  have hexact : ∀ t : Time, t < 2 ^ 53 → ExactTime t := fun _ => representable_of_lt
  rcases round_trips_iff request proposal hrequest hproposal with ⟨hsmall, hlarge⟩
  exact ⟨hsmall.2 (hexact _ (by decide)),
    hlarge.2 ⟨hexact _ (by decide), hexact _ (by decide), hexact _ (by decide)⟩⟩

/-- The first nanosecond that a `double` cannot count is read as the one before it. -/
theorem timestamp_is_rounded :
    let f : RequestFrame := { timestamp := 2 ^ 53 + 1, value := 7 }
    f.Fits ∧
      RequestFrame.deserialize.run (f.serialize ++ []) =
        some (({ timestamp := 2 ^ 53, value := 7 }, 12), []) ∧
      ¬ f.RoundTrips := by
  intro f
  have hfits : f.Fits := ⟨by decide, by decide⟩
  have hread : RequestFrame.deserialize.run (f.serialize ++ []) =
      some (({ timestamp := 2 ^ 53, value := 7 }, 12), []) := by
    rw [RequestFrame.run_deserialize hfits]
    decide
  refine ⟨hfits, hread, ?_⟩
  intro h
  have hpair := Option.some.inj (hread.symm.trans (h.restores []))
  have htimes : (2 ^ 53 : ℕ) = 2 ^ 53 + 1 := congrArg (fun x => x.1.1.timestamp) hpair
  exact absurd htimes (by decide)

end SyncPaxos
