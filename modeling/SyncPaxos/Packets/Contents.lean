import Mathlib.Data.Option.Basic
import SyncPaxos.Model.PacketBuffer
import Mathlib.Tactic.Common

/-!
# Contents — the bytes that a buffer stands for

The `k`-th byte of a buffer is the one at `start + k`: stored before the zero area, zero inside of it and
stored further down behind it.  For a buffer whose offsets are in order and not too large, no sum and no
difference of the source wraps.
-/

namespace SyncPaxos.Packets

open Window

variable {b : Buffer} {bytes bytes' : ℕ → UInt8} {m : Memory} {d : Data} {i j k n : ℕ}

theorem u32_eq (h : n < 2 ^ 32) : u32 n = n := Nat.mod_eq_of_lt h

theorem minus_eq (h : j ≤ i) (hi : i < 2 ^ 32) : minus i j = i - j := by
  rw [minus, u32]
  omega

theorem Data.load_eq (h : i + n ≤ d.size) : d.load i n = some (window d.bytes i n) := by
  rw [Data.load, guard, if_pos h]
  rfl

theorem Data.loadU8_eq (h : i < d.size) : d.loadU8 i = some (d.bytes i) := by
  rw [Data.loadU8, guard, if_pos h]
  rfl

/-! ## Offsets -/

/-- The offsets of a buffer are in order. -/
structure Ordered (b : Buffer) : Prop where
  start_le : b.start ≤ b.zeroAreaStart
  zero_le : b.zeroAreaStart ≤ b.zeroAreaEnd
  end_le : b.zeroAreaEnd ≤ b.end_

/-- They are so small that another packet's size may be added to each of them. -/
structure Small (b : Buffer) : Prop extends Ordered b where
  end_lt : b.end_ < 3 * 2 ^ 30

namespace Buffer

/-- How many bytes a buffer shows. -/
def size (b : Buffer) : ℕ := b.end_ - b.start

/-- How many of them are stored. -/
def storedSize (b : Buffer) : ℕ := b.zeroAreaStart - b.start + (b.end_ - b.zeroAreaEnd)

/-- Where the stored bytes end. -/
def storedEnd (b : Buffer) : ℕ := b.end_ - (b.zeroAreaEnd - b.zeroAreaStart)

end Buffer

theorem Ordered.start_le_storedEnd (h : Ordered b) : b.start ≤ b.storedEnd := by
  rcases h with ⟨hstart, hzero, hend⟩
  rw [Buffer.storedEnd]
  omega

namespace Small

theorem zeroSize_eq (h : Small b) : b.zeroSize = b.zeroAreaEnd - b.zeroAreaStart := by
  rcases h with ⟨⟨hstart, hzero, hend⟩, hlt⟩
  exact minus_eq hzero (by omega)

theorem getSize_eq (h : Small b) : b.getSize = b.size := by
  rcases h with ⟨⟨hstart, hzero, hend⟩, hlt⟩
  exact minus_eq (by omega) (by omega)

theorem getInternalSize_eq (h : Small b) : b.getInternalSize = b.storedSize := by
  rcases h with ⟨⟨hstart, hzero, hend⟩, hlt⟩
  rw [Buffer.getInternalSize, Buffer.storedSize, minus_eq hstart (by omega), minus, u32, u32]
  omega

theorem getInternalEnd_eq (h : Small b) : b.getInternalEnd = b.storedEnd := by
  rw [Buffer.getInternalEnd, h.zeroSize_eq]
  rcases h with ⟨⟨hstart, hzero, hend⟩, hlt⟩
  exact minus_eq (by omega) (by omega)

end Small

namespace Buffer

/-! ## Bytes -/

def contents (b : Buffer) (bytes : ℕ → UInt8) : List UInt8 :=
  window bytes b.start (b.zeroAreaStart - b.start) ++
    List.replicate (b.zeroAreaEnd - b.zeroAreaStart) 0 ++
    window bytes b.zeroAreaStart (b.end_ - b.zeroAreaEnd)

/-- The byte at `current`. -/
def byteAt (b : Buffer) (bytes : ℕ → UInt8) (current : ℕ) : UInt8 :=
  if current < b.zeroAreaStart then bytes current
  else if current < b.zeroAreaEnd then 0
  else bytes (current - (b.zeroAreaEnd - b.zeroAreaStart))

theorem length_contents (h : Ordered b) (bytes : ℕ → UInt8) :
    (b.contents bytes).length = b.size := by
  rcases h with ⟨hstart, hzero, hend⟩
  simp only [contents, size, List.length_append, length_window, List.length_replicate]
  omega

theorem getElem?_contents (h : Ordered b) (bytes : ℕ → UInt8) (k : ℕ) :
    (b.contents bytes)[k]? = if k < b.size then some (b.byteAt bytes (b.start + k)) else none := by
  rcases h with ⟨hstart, hzero, hend⟩
  have hsize : b.size = b.end_ - b.start := rfl
  simp only [contents, byteAt, List.getElem?_append, List.length_append, length_window,
    List.length_replicate, getElem?_window, List.getElem?_replicate]
  by_cases hfront : b.start + k < b.zeroAreaStart
  · rw [if_pos (by omega), if_pos (by omega), if_pos (by omega), if_pos (by omega), if_pos (by omega)]
  · rw [if_neg hfront]
    by_cases hmiddle : b.start + k < b.zeroAreaEnd
    · rw [if_pos (by omega), if_neg (by omega), if_pos (by omega), if_pos (by omega),
        if_pos (by omega)]
    · rw [if_neg (by omega), if_neg hmiddle]
      have hoffset : b.zeroAreaStart +
          (k - (b.zeroAreaStart - b.start + (b.zeroAreaEnd - b.zeroAreaStart))) =
            b.start + k - (b.zeroAreaEnd - b.zeroAreaStart) := by omega
      rw [hoffset]
      by_cases hback : k < b.size
      · rw [if_pos hback, if_pos (by omega)]
      · rw [if_neg hback, if_neg (by omega)]

/-- Only the stored bytes matter. -/
theorem contents_congr (h : Ordered b)
    (hk : ∀ k, b.start ≤ k → k < b.storedEnd → bytes k = bytes' k) :
    b.contents bytes = b.contents bytes' := by
  rcases h with ⟨hstart, hzero, hend⟩
  rw [storedEnd] at hk
  rw [contents, contents]
  refine congrArg₂ _ (congrArg₂ _ (window_congr ?_) rfl) (window_congr ?_)
  · intro k hk' hlt
    exact hk k hk' (by omega)
  · intro k hk' hlt
    exact hk k (by omega) (by omega)

/-! ## Both ends -/

/-- `b'` shows `n` stored bytes in front of what `b` shows. -/
theorem contents_addAtStart {b' : Buffer} (h : Ordered b) (hstart : b'.start + n = b.start)
    (hzero : b'.zeroAreaStart = b.zeroAreaStart) (hzero' : b'.zeroAreaEnd = b.zeroAreaEnd)
    (hend : b'.end_ = b.end_) :
    b'.contents bytes = window bytes b'.start n ++ b.contents bytes := by
  have hsplit := window_add bytes b'.start n (b.zeroAreaStart - b.start)
  have hlength : n + (b.zeroAreaStart - b.start) = b.zeroAreaStart - b'.start := by
    have hle := h.start_le
    omega
  rw [hlength, hstart] at hsplit
  rw [contents, contents, hzero, hzero', hend, hsplit, List.append_assoc, List.append_assoc,
    List.append_assoc]

theorem contents_addAtEnd {b' : Buffer} (h : Ordered b) (hstart : b'.start = b.start)
    (hzero : b'.zeroAreaStart = b.zeroAreaStart) (hzero' : b'.zeroAreaEnd = b.zeroAreaEnd)
    (hend : b'.end_ = b.end_ + n) :
    b'.contents bytes = b.contents bytes ++ window bytes b.storedEnd n := by
  have hsplit := window_add bytes b.zeroAreaStart (b.end_ - b.zeroAreaEnd) n
  have hlength : b.end_ - b.zeroAreaEnd + n = b.end_ + n - b.zeroAreaEnd := by
    have hle := h.end_le
    omega
  have hlast : b.zeroAreaStart + (b.end_ - b.zeroAreaEnd) = b.storedEnd := by
    rcases h with ⟨hstart, hzero, hend⟩
    rw [storedEnd]
    omega
  rw [hlength, hlast] at hsplit
  rw [contents, contents, hstart, hzero, hzero', hend, hsplit, List.append_assoc,
    List.append_assoc, List.append_assoc]

/-- The same bytes, stored from `offset` on. -/
def moved (offset : ℕ) (b : Buffer) : Buffer :=
  { b with
    start := offset
    zeroAreaStart := b.zeroAreaStart + offset - b.start
    zeroAreaEnd := b.zeroAreaEnd + offset - b.start
    end_ := b.end_ + offset - b.start }

theorem ordered_moved (h : Ordered b) (offset : ℕ) : Ordered (b.moved offset) := by
  rcases h with ⟨hstart, hzero, hend⟩
  refine ⟨?_, ?_, ?_⟩ <;> simp only [moved] <;> omega

theorem storedEnd_moved (h : Ordered b) (offset : ℕ) :
    (b.moved offset).storedEnd = offset + b.storedSize := by
  rcases h with ⟨hstart, hzero, hend⟩
  simp only [moved, storedEnd, storedSize]
  omega

theorem contents_moved {offset : ℕ} (h : Ordered b)
    (hbytes : window bytes' offset b.storedSize = window bytes b.start b.storedSize) :
    (b.moved offset).contents bytes' = b.contents bytes := by
  rcases h with ⟨hstart, hzero, hend⟩
  rw [storedSize, window_add, window_add] at hbytes
  rcases List.append_inj hbytes (by rw [length_window, length_window]) with ⟨hfront, hback⟩
  have hoffset : offset + (b.zeroAreaStart - b.start) = b.zeroAreaStart + offset - b.start := by omega
  have hzeros : b.zeroAreaEnd + offset - b.start - (b.zeroAreaStart + offset - b.start) =
      b.zeroAreaEnd - b.zeroAreaStart := by omega
  have hlength : b.zeroAreaStart + offset - b.start - offset = b.zeroAreaStart - b.start := by omega
  have hlength' : b.end_ + offset - b.start - (b.zeroAreaEnd + offset - b.start) =
      b.end_ - b.zeroAreaEnd := by omega
  rw [hoffset, Nat.add_sub_cancel' hstart] at hback
  simp only [moved, contents, hzeros, hlength, hlength', hfront, hback]

/-! ## Less of a buffer -/

/-- Two offsets that show the same byte. -/
theorem byteAt_congr {b' : Buffer} {i j : ℕ}
    (h : (i < b'.zeroAreaStart ∧ j < b.zeroAreaStart ∧ i = j) ∨
      (b'.zeroAreaStart ≤ i ∧ i < b'.zeroAreaEnd ∧ b.zeroAreaStart ≤ j ∧ j < b.zeroAreaEnd) ∨
      (b'.zeroAreaStart ≤ i ∧ b'.zeroAreaEnd ≤ i ∧ b.zeroAreaStart ≤ j ∧ b.zeroAreaEnd ≤ j ∧
        i - (b'.zeroAreaEnd - b'.zeroAreaStart) = j - (b.zeroAreaEnd - b.zeroAreaStart))) :
    b'.byteAt bytes i = b.byteAt bytes j := by
  rcases h with ⟨hi, hj, heq⟩ | ⟨hi, hi', hj, hj'⟩ | ⟨hi, hi', hj, hj', heq⟩
  · rw [byteAt, byteAt, if_pos hi, if_pos hj, heq]
  · rw [byteAt, byteAt, if_neg (not_lt.2 hi), if_neg (not_lt.2 hj), if_pos hi', if_pos hj']
  · rw [byteAt, byteAt, if_neg (not_lt.2 hi), if_neg (not_lt.2 hj), if_neg (not_lt.2 hi'),
      if_neg (not_lt.2 hj'), heq]

/-- `b'` shows what `b` shows from the `n`-th byte on, of the bytes that are stored for `b`. -/
structure Narrowed (n : ℕ) (b b' : Buffer) : Prop extends Ordered b' where
  data_eq : b'.data = b.data
  start_ge : b.start ≤ b'.start
  end_le_end : b'.end_ ≤ b.end_
  storedEnd_le : b'.storedEnd ≤ b.storedEnd
  storedEnd_eq : b'.end_ = b.end_ → b'.storedEnd = b.storedEnd
  byteAt_eq : ∀ bytes k, k < b'.size →
    b'.byteAt bytes (b'.start + k) = b.byteAt bytes (b.start + (n + k))

theorem removeAtStart_narrowed (h : Small b) (hn : n ≤ 2 ^ 30) :
    ∃ b', b.removeAtStart n = some b' ∧ Narrowed n b b' ∧ b'.size = b.size - n := by
  have hzeroSize := h.zeroSize_eq
  rcases h with ⟨⟨hstart, hzero, hend⟩, hlt⟩
  have hsum : u32 (b.start + n) = b.start + n := u32_eq (by omega)
  simp only [removeAtStart, hsum, hzeroSize, guard, Option.pure_def, Option.bind_eq_bind]
  -- One case for each place where the new start falls; the assertion holds in the third.
  split_ifs
  any_goals omega
  all_goals
    refine ⟨_, rfl, ⟨⟨?_, ?_, ?_⟩, rfl, ?_, ?_, ?_, fun heq => ?_, fun bytes k hk => byteAt_congr ?_⟩,
      ?_⟩ <;>
      simp (disch := omega) only [noteZeroAreaStart, storedEnd, size, minus_eq] at * <;> omega

theorem removeAtEnd_narrowed (h : Small b) (n : ℕ) :
    Narrowed 0 b (b.removeAtEnd n) ∧ (b.removeAtEnd n).size = b.size - n := by
  rcases h with ⟨⟨hstart, hzero, hend⟩, hlt⟩
  simp (disch := omega) only [removeAtEnd, minus_eq]
  -- One case for each place where the new end falls.
  split_ifs <;>
    refine ⟨⟨⟨?_, ?_, ?_⟩, rfl, ?_, ?_, ?_, fun heq => ?_, fun bytes k hk => byteAt_congr ?_⟩, ?_⟩ <;>
    simp only [noteZeroAreaStart, storedEnd, size] at * <;> omega

theorem Narrowed.contents_drop {b' : Buffer} (h : Ordered b) (hn : Narrowed n b b')
    (hsize : b'.size = b.size - n) : b'.contents bytes = (b.contents bytes).drop n := by
  refine List.ext_getElem? ?_
  intro k
  rw [List.getElem?_drop, getElem?_contents h, getElem?_contents hn.toOrdered]
  by_cases hk : k < b'.size
  · rw [if_pos hk, if_pos (by omega), hn.byteAt_eq bytes k hk]
  · rw [if_neg hk, if_neg (by omega)]

theorem Narrowed.contents_take {b' : Buffer} (h : Ordered b) (hn : Narrowed 0 b b')
    (hsize : b'.size = b.size - n) : b'.contents bytes = (b.contents bytes).take (b.size - n) := by
  refine List.ext_getElem? ?_
  intro k
  rw [List.getElem?_take, getElem?_contents h, getElem?_contents hn.toOrdered, hsize]
  by_cases hk : k < b.size - n
  · rw [if_pos hk, if_pos hk, if_pos (by omega), hn.byteAt_eq bytes k (by omega), Nat.zero_add]
  · rw [if_neg hk, if_neg hk]

/-! ## Reading -/

theorem peekU8_eq (h : Small b) (hroom : b.storedEnd ≤ d.size) (hd : m.blocks b.data = some d)
    (hstart : b.start ≤ k) (hend : k < b.end_) : b.peekU8 k m = some (b.byteAt d.bytes k) := by
  have hzeroSize := h.zeroSize_eq
  rcases h with ⟨⟨hstart', hzero, hend'⟩, hlt⟩
  rw [storedEnd] at hroom
  simp only [peekU8, byteAt, guard, hd, hzeroSize, if_pos (And.intro hstart hend),
    Option.bind_eq_bind, Option.bind_some, Option.pure_def]
  split
  · exact Data.loadU8_eq (by omega)
  · split
    · rfl
    · rw [minus_eq (by omega) (by omega), Data.loadU8_eq (by omega)]

theorem read_eq (h : Small b) (hroom : b.storedEnd ≤ d.size) (hd : m.blocks b.data = some d) (n : ℕ) :
    ∀ k, k + n ≤ b.size →
      b.read (b.start + k) n m = some (((b.contents d.bytes).drop k).take n) := by
  induction n with
  | zero =>
      intro k _
      rw [List.take_zero]
      rfl
  | succ n ih =>
      intro k hk
      have hsize : b.size = b.end_ - b.start := rfl
      have hlt := h.end_lt
      have hget := getElem?_contents h.toOrdered d.bytes k
      rw [if_pos (by omega)] at hget
      rw [read, peekU8_eq h hroom hd (Nat.le_add_right ..) (by omega), u32_eq (by omega),
        Nat.add_assoc, ih (k + 1) (by omega)]
      rcases List.getElem?_eq_some_iff.1 hget with ⟨hlt, hbyte⟩
      rw [List.drop_eq_getElem_cons hlt, List.take_succ_cons, hbyte]
      rfl

/-- Reading beyond the end fails. -/
theorem read_eq_none (h : Small b) (n : ℕ) :
    ∀ k, k < b.start ∨ b.end_ < k + (n + 1) → b.read k (n + 1) m = none := by
  have hpeek : ∀ k, k < b.start ∨ b.end_ ≤ k → b.peekU8 k m = none := by
    intro k hk
    simp only [peekU8, guard, if_neg (show ¬ (k ≥ b.start ∧ k < b.end_) by omega)]
    rfl
  induction n with
  | zero =>
      intro k hk
      rw [read, hpeek k (by omega)]
      rfl
  | succ n ih =>
      intro k hk
      rw [read]
      by_cases hb : k < b.start ∨ b.end_ ≤ k
      · rw [hpeek k hb]
        rfl
      · have hlt := h.end_lt
        rw [u32_eq (by omega), ih (k + 1) (by omega)]
        cases b.peekU8 k m <;> rfl

theorem copyData_eq (h : Small b) (hroom : b.storedEnd ≤ d.size) (hd : m.blocks b.data = some d)
    (n : ℕ) : b.copyData n m = some ((b.contents d.bytes).take n) := by
  have hzeroSize := h.zeroSize_eq
  rcases h with ⟨⟨hstart, hzero, hend⟩, hlt⟩
  rw [storedEnd] at hroom
  have hfront := Data.load_eq (show b.start + min (b.zeroAreaStart - b.start) n ≤ d.size by omega)
  have hback : ∀ k, d.load b.zeroAreaStart (min (b.end_ - b.zeroAreaEnd) k) = some _ :=
    fun k => Data.load_eq (by omega)
  simp only [copyData, hd, hzeroSize, minus_eq hstart (show _ < 2 ^ 32 by omega),
    minus_eq hend (show _ < 2 ^ 32 by omega), hfront, hback, contents, Option.bind_eq_bind,
    Option.bind_some, Option.pure_def, List.take_append, take_window, List.take_replicate,
    List.length_append, length_window, List.length_replicate]
  refine congrArg some (congrArg₂ _ (congrArg₂ _ ?_ ?_) ?_)
  · rw [Nat.min_comm]
  · congr 1
    omega
  · congr 1
    omega

end Buffer

end SyncPaxos.Packets
