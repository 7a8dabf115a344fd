import SyncPaxos.Packets.Growing
import Mathlib.Tactic.Common

/-!
# Writing — headers, trailers and arrays

However bytes are written into the room at one end of a buffer, they become its first or its last bytes
and no other buffer notices.
-/

namespace SyncPaxos.Packets

open Window

variable {m : Memory} {l : List Buffer} {b : Buffer} {d : Data} {old junk bs : List UInt8} {n : ℕ}

namespace Memory

theorem put_self {a : ℕ} (h : m.blocks a = some d) : m.put a d = m := by
  rw [Memory.put, ← h, Function.update_eq_self]

theorem put_put (m : Memory) (a : ℕ) (d d' : Data) : (m.put a d).put a d' = m.put a d' := by
  simp only [Memory.put, Function.update_idem]

end Memory

namespace Buffer

/-! ## The writes of an iterator -/

theorem store_eq {dest : ℕ} (hd : m.blocks b.data = some d) (hroom : dest + bs.length ≤ d.size) :
    b.store dest bs m = some (m.put b.data { d with bytes := write d.bytes dest bs }) := by
  simp only [store, hd, guard, if_pos hroom, Option.bind_eq_bind, Option.bind_some, Option.pure_def]

/-- Bytes that are written where they are stored next to each other. -/
theorem writeU8_eq {current dest : ℕ} (hd : m.blocks b.data = some d)
    (hroom : dest + bs.length ≤ d.size) (hlt : current + bs.length < 2 ^ 32)
    (hcheck : ∀ j, j < bs.length → b.check (current + j) = true ∧ b.offset (current + j) = dest + j) :
    b.writeU8 current bs m = some (m.put b.data { d with bytes := write d.bytes dest bs }) := by
  induction bs generalizing current dest m d with
  | nil =>
      rw [write_nil, Memory.put_self hd]
      rfl
  | cons byte bs ih =>
      rw [List.length_cons] at hroom hlt
      rcases hcheck 0 (Nat.succ_pos _) with ⟨hfirst, hoffset⟩
      simp only [Nat.add_zero] at hfirst hoffset
      have hd' := m.put_blocks_self b.data { d with bytes := write d.bytes dest [byte] }
      have hrest : ∀ j, j < bs.length → b.check (current + 1 + j) = true ∧
          b.offset (current + 1 + j) = dest + 1 + j := by
        intro j hj
        rcases hcheck (j + 1) (Nat.succ_lt_succ hj) with ⟨h, h'⟩
        rw [Nat.add_assoc, Nat.add_comm 1 j, h']
        exact ⟨h, by omega⟩
      rw [writeU8, hoffset, store_eq hd (by simp; omega), u32_eq (by omega)]
      simp only [guard, hfirst, if_true, Option.bind_eq_bind, Option.bind_some, Option.pure_def]
      rw [ih hd' (show dest + 1 + bs.length ≤ d.size by omega) (by omega) hrest, Memory.put_put,
        write_cons]

section
variable (hs : Sound b d) (hd : m.blocks b.data = some d)
include hs hd

theorem writeArray_front (bs : List UInt8) (hroom : b.start + bs.length ≤ b.zeroAreaStart) :
    b.writeArray b.start bs m =
      some (m.put b.data { d with bytes := write d.bytes b.start bs }) := by
  rcases hs with ⟨⟨hstart, hzero, hend⟩, -, -, hsize⟩
  rw [storedEnd] at hsize
  have hcheck : b.checkNoZero b.start bs.length = true := by
    simp only [checkNoZero, Bool.not_eq_true', Bool.or_eq_false_iff, Bool.and_eq_false_iff,
      decide_eq_false_iff_not]
    omega
  simp only [writeArray, hcheck, guard, if_true, if_pos hstart, Option.bind_eq_bind, Option.bind_some,
    Option.pure_def]
  exact store_eq hd (by omega)

variable (hb : Small b)
include hb

theorem writeU8_front (hroom : b.start + bs.length ≤ b.zeroAreaStart) :
    b.writeU8 b.start bs m =
      some (m.put b.data { d with bytes := write d.bytes b.start bs }) := by
  have hlt := hb.end_lt
  rcases hs with ⟨⟨hstart, hzero, hend⟩, -, -, hsize⟩
  rw [storedEnd] at hsize
  refine writeU8_eq hd (by omega) (by omega) fun j hj => ?_
  simp only [check, offset, ge_iff_le, Bool.and_eq_true, Bool.not_eq_true', decide_eq_true_eq,
    Bool.and_eq_false_iff, decide_eq_false_iff_not]
  rw [if_pos (by omega)]
  omega

theorem writeU8_back (hroom : b.zeroAreaEnd + bs.length ≤ b.end_) :
    b.writeU8 (b.end_ - bs.length) bs m =
      some (m.put b.data
        { d with bytes := write d.bytes (b.storedEnd - bs.length) bs }) := by
  have hlt := hb.end_lt
  rcases hs with ⟨⟨hstart, hzero, hend⟩, -, -, hsize⟩
  rw [storedEnd] at hsize ⊢
  refine writeU8_eq hd (by omega) (by omega) fun j hj => ?_
  simp only [check, offset, hb.zeroSize_eq, ge_iff_le, Bool.and_eq_true, Bool.not_eq_true',
    decide_eq_true_eq, Bool.and_eq_false_iff, decide_eq_false_iff_not]
  rw [if_neg (by omega), minus_eq (by omega) (by omega)]
  omega

theorem writeU8Len_front {byte : UInt8} (hroom : b.start + n ≤ b.zeroAreaStart) :
    b.writeU8Len b.start byte n m =
      some (m.put b.data { d with bytes := write d.bytes b.start (List.replicate n byte) }) := by
  rcases hs with ⟨⟨hstart, hzero, hend⟩, -, -, hsize⟩
  rw [storedEnd] at hsize
  have hlt := hb.end_lt
  have hcheck : b.checkNoZero b.start (u32 (b.start + n)) = true := by
    rw [u32_eq (by omega)]
    simp only [checkNoZero, Bool.not_eq_true', Bool.or_eq_false_iff, Bool.and_eq_false_iff,
      decide_eq_false_iff_not]
    omega
  simp only [writeU8Len, hcheck, guard, if_true, if_pos hstart, Option.bind_eq_bind, Option.bind_some,
    Option.pure_def]
  exact store_eq hd (by rw [List.length_replicate]; omega)

theorem writeArray_back (bs : List UInt8) (hroom : b.zeroAreaEnd + bs.length ≤ b.end_) :
    b.writeArray (b.end_ - bs.length) bs m =
      some (m.put b.data
        { d with bytes := write d.bytes (b.storedEnd - bs.length) bs }) := by
  rcases hs with ⟨⟨hstart, hzero, hend⟩, -, -, hsize⟩
  rw [storedEnd] at hsize
  have hcheck : b.checkNoZero (b.end_ - bs.length) bs.length = true := by
    simp only [checkNoZero, Bool.not_eq_true', Bool.or_eq_false_iff, Bool.and_eq_false_iff,
      decide_eq_false_iff_not]
    omega
  have hlt := hb.end_lt
  have hdest : (if b.end_ - bs.length ≤ b.zeroAreaStart then b.end_ - bs.length
      else minus (b.end_ - bs.length) b.zeroSize) = b.storedEnd - bs.length := by
    rw [hb.zeroSize_eq, minus_eq (by omega) (by omega), storedEnd]
    split <;> omega
  simp only [writeArray, hcheck, guard, if_true, hdest, Option.bind_eq_bind, Option.bind_some,
    Option.pure_def]
  refine store_eq hd ?_
  rw [storedEnd]
  omega

end

end Buffer

/-- After an operation, `b` shows `bytes` and the buffers in `l` show what they showed. -/
structure Holds (m : Memory) (l : List Buffer) (bytes : List UInt8) (b : Buffer) (m' : Memory) :
    Prop where
  live : Live m' (b :: l)
  keeps : Keeps l m m'
  contents : m'.contents b = some bytes

namespace Live

theorem write (h : Live m (b :: l)) (bs : List UInt8) (dest : ℕ) (hd : m.blocks b.data = some d)
    (hapart : ∀ c ∈ l, c.data = b.data → c.storedEnd ≤ dest ∨ dest + bs.length ≤ c.start) :
    Live (m.put b.data { d with bytes := Window.write d.bytes dest bs }) (b :: l) ∧
      Keeps l m (m.put b.data { d with bytes := Window.write d.bytes dest bs }) := by
  refine ⟨h.setBytes hd (h.count_pos List.mem_cons_self hd).ne' _, .put hd fun c hc hdata => ?_⟩
  refine Buffer.contents_congr (h.ordered (List.mem_cons_of_mem _ hc)) ?_
  intro k hk hk'
  have hcase := hapart c hc hdata
  exact write_of_outside (by omega)

/-- The room in front is filled. -/
theorem writeFront (h : Live m (b :: l)) (hd : m.blocks b.data = some d)
    (hold : m.contents b = some (junk ++ old)) (hlength : junk.length = bs.length)
    (hr : FrontRoom bs.length l b) :
    Holds m l (bs ++ old) b
      (m.put b.data { d with bytes := Window.write d.bytes b.start bs }) := by
  have hw := h.write bs b.start hd fun c hc hdata => .inr (hr.apart c hc hdata)
  refine ⟨hw.1, hw.2, ?_⟩
  have hordered := h.ordered List.mem_cons_self
  have hrest : Ordered { b with start := b.start + bs.length } :=
    ⟨hr.stored, hordered.zero_le, hordered.end_le⟩
  have hsplit : ∀ bytes, b.contents bytes =
      window bytes b.start bs.length ++ { b with start := b.start + bs.length }.contents bytes :=
    fun _ => Buffer.contents_addAtStart hrest rfl rfl rfl rfl
  rw [Memory.contents_of_block hd, hsplit] at hold
  rcases List.append_inj (Option.some.inj hold) (by rw [length_window, hlength]) with ⟨-, hrest'⟩
  rw [Memory.contents_put rfl, hsplit, window_write, ← hrest']
  refine congrArg some (congrArg _ (Buffer.contents_congr hrest ?_))
  intro k hk _
  exact write_of_outside (.inr hk)

/-- The room behind is filled. -/
theorem writeBack (h : Live m (b :: l)) (hd : m.blocks b.data = some d)
    (hold : m.contents b = some (old ++ junk)) (hlength : junk.length = bs.length)
    (hr : BackRoom bs.length l b) :
    Holds m l (old ++ bs) b (m.put b.data
      { d with bytes := Window.write d.bytes (b.storedEnd - bs.length) bs }) := by
  have hw := h.write bs (b.storedEnd - bs.length) hd fun c hc hdata => .inl
    (by have hle := hr.apart c hc hdata; omega)
  refine ⟨hw.1, hw.2, ?_⟩
  have hordered := h.ordered List.mem_cons_self
  have hstored := hr.stored
  have hrest : Ordered { b with end_ := b.end_ - bs.length } :=
    ⟨hordered.start_le, hordered.zero_le, by simp only; omega⟩
  have hinternal : { b with end_ := b.end_ - bs.length }.storedEnd =
      b.storedEnd - bs.length := by
    simp only [Buffer.storedEnd]
    omega
  have hsplit : ∀ bytes, b.contents bytes = { b with end_ := b.end_ - bs.length }.contents bytes ++
      window bytes (b.storedEnd - bs.length) bs.length := by
    intro bytes
    rw [← hinternal]
    have hend : b.end_ = b.end_ - bs.length + bs.length := by omega
    exact Buffer.contents_addAtEnd hrest rfl rfl rfl hend
  rw [Memory.contents_of_block hd, hsplit] at hold
  rcases List.append_inj' (Option.some.inj hold) (by rw [length_window, hlength]) with ⟨hrest', -⟩
  rw [Memory.contents_put rfl, hsplit, window_write, ← hrest']
  refine congrArg some (congrArg (· ++ bs) (Buffer.contents_congr hrest ?_))
  intro k _ hk
  exact write_of_outside (.inl (hinternal ▸ hk))

/-- Room in front, and whatever is written there. -/
theorem fillFront (garbage : ℕ → ℕ → UInt8) (h : Live m (b :: l)) (hfew : l.length < 2 ^ 31)
    (hold : m.contents b = some old) (hlength : old.length + n ≤ 2 ^ 30) :
    ∃ b' m' d, b.addAtStart garbage n m = some (b', m') ∧ m'.blocks b'.data = some d ∧
      Live m' (b' :: l) ∧ Small b' ∧ Keeps l m m' ∧ b'.start + n ≤ b'.zeroAreaStart ∧
      b'.zeroAreaEnd - b'.zeroAreaStart = b.zeroAreaEnd - b.zeroAreaStart ∧
      ∀ bs, bs.length = n →
        Holds m l (bs ++ old) b'
          (m'.put b'.data { d with bytes := Window.write d.bytes b'.start bs }) := by
  rcases h.addAtStart garbage hfew hold hlength with ⟨b', m', hadd, hgrown⟩
  rcases hgrown.contents with ⟨junk, hjunk, hcontents⟩
  rcases hgrown.live.block b' List.mem_cons_self with ⟨d, hd⟩
  have hsmall := hgrown.live.small List.mem_cons_self hcontents (by rw [List.length_append]; omega)
  refine ⟨b', m', d, hadd, hd, hgrown.live, hsmall, hgrown.keeps, hgrown.room.stored, hgrown.zeros, ?_⟩
  rintro bs rfl
  rcases hgrown.live.writeFront hd hcontents hjunk hgrown.room with ⟨hlive', hkeeps', hcontents'⟩
  exact ⟨hlive', hgrown.keeps.trans hkeeps', hcontents'⟩

/-- Room behind, and whatever is written there. -/
theorem fillBack (garbage : ℕ → ℕ → UInt8) (h : Live m (b :: l)) (hfew : l.length < 2 ^ 31)
    (hold : m.contents b = some old) (hlength : old.length + n ≤ 2 ^ 30) :
    ∃ b' m' d, b.addAtEnd garbage n m = some (b', m') ∧ m'.blocks b'.data = some d ∧
      Live m' (b' :: l) ∧ Small b' ∧ Keeps l m m' ∧ b'.zeroAreaEnd + n ≤ b'.end_ ∧
      b'.zeroAreaEnd - b'.zeroAreaStart = b.zeroAreaEnd - b.zeroAreaStart ∧
      ∀ bs, bs.length = n →
        Holds m l (old ++ bs) b' (m'.put b'.data
          { d with bytes := Window.write d.bytes (b'.storedEnd - bs.length) bs }) := by
  rcases h.addAtEnd garbage hfew hold hlength with ⟨b', m', hadd, hgrown⟩
  rcases hgrown.contents with ⟨junk, hjunk, hcontents⟩
  rcases hgrown.live.block b' List.mem_cons_self with ⟨d, hd⟩
  have hsmall := hgrown.live.small List.mem_cons_self hcontents (by rw [List.length_append]; omega)
  refine ⟨b', m', d, hadd, hd, hgrown.live, hsmall, hgrown.keeps, hgrown.room.stored, hgrown.zeros, ?_⟩
  rintro bs rfl
  rcases hgrown.live.writeBack hd hcontents hjunk hgrown.room with ⟨hlive', hkeeps', hcontents'⟩
  exact ⟨hlive', hgrown.keeps.trans hkeeps', hcontents'⟩

end Live

end SyncPaxos.Packets
