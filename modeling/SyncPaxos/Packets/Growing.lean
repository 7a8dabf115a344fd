import SyncPaxos.Packets.Blocks
import Mathlib.Tactic.Common

/-!
# Growing — room at the ends of a buffer

A buffer that grows in place takes bytes that no other buffer of its block shows; one that cannot do so
moves to a block of its own.  The bytes that are then written into the new space belong to it alone.
-/

namespace SyncPaxos.Packets

open Window

variable {m : Memory} {l : List Buffer} {b : Buffer} {d : Data} {old : List UInt8} {n : ℕ}

/-! ## Room -/

/-- The first `n` bytes of `b` are stored, and no other buffer shows them. -/
structure FrontRoom (n : ℕ) (l : List Buffer) (b : Buffer) : Prop where
  stored : b.start + n ≤ b.zeroAreaStart
  apart : ∀ c ∈ l, c.data = b.data → b.start + n ≤ c.start

/-- The last `n` bytes of `b` are stored, and no other buffer shows them. -/
structure BackRoom (n : ℕ) (l : List Buffer) (b : Buffer) : Prop where
  stored : b.zeroAreaEnd + n ≤ b.end_
  apart : ∀ c ∈ l, c.data = b.data → c.storedEnd + n ≤ b.storedEnd

/-- After an operation, `b'` shows `n` bytes in front of `old`, which `b` showed, and nothing else has
changed. -/
structure GrownFront (n : ℕ) (m : Memory) (l : List Buffer) (old : List UInt8) (b b' : Buffer)
    (m' : Memory) : Prop where
  live : Live m' (b' :: l)
  keeps : Keeps l m m'
  contents : ∃ junk, junk.length = n ∧ m'.contents b' = some (junk ++ old)
  room : FrontRoom n l b'
  zeros : b'.zeroAreaEnd - b'.zeroAreaStart = b.zeroAreaEnd - b.zeroAreaStart

/-- The same behind `old`. -/
structure GrownBack (n : ℕ) (m : Memory) (l : List Buffer) (old : List UInt8) (b b' : Buffer)
    (m' : Memory) : Prop where
  live : Live m' (b' :: l)
  keeps : Keeps l m m'
  contents : ∃ junk, junk.length = n ∧ m'.contents b' = some (old ++ junk)
  room : BackRoom n l b'
  zeros : b'.zeroAreaEnd - b'.zeroAreaStart = b.zeroAreaEnd - b.zeroAreaStart

/-- Where an offset is after a move. -/
theorem Small.shift_eq (h : Small b) (hn : n ≤ 2 ^ 30) {i : ℕ} (hstart : b.start ≤ i)
    (hend : i ≤ b.end_) : u32 (i + minus n b.start) = i + n - b.start := by
  have hlt := h.end_lt
  rw [u32, minus, u32]
  omega

namespace Live

theorem ordered (h : Live m l) (hb : b ∈ l) : Ordered b := by
  rcases h.block b hb with ⟨d, hd⟩
  exact (h.sound hb hd).toOrdered

/-- A buffer has bytes, as many as its size. -/
theorem contents (h : Live m l) (hb : b ∈ l) :
    ∃ old, m.contents b = some old ∧ old.length = b.size := by
  rcases h.block b hb with ⟨d, hd⟩
  exact ⟨_, Memory.contents_of_block hd, b.length_contents (h.ordered hb) d.bytes⟩

/-- Not more than these bytes are stored. -/
theorem storedSize_le (h : Live m l) (hb : b ∈ l) (hold : m.contents b = some old) :
    b.storedSize ≤ old.length := by
  rcases h.contents hb with ⟨old', hold', hsize⟩
  cases hold.symm.trans hold'
  rcases h.ordered hb with ⟨hstart, hzero, hend⟩
  rw [hsize, Buffer.storedSize, Buffer.size]
  omega

/-! ## Growing -/

/-- The stored bytes of a buffer get a block of their own. -/
theorem moveTo (garbage : ℕ → ℕ → UInt8) {size : ℕ} (h : Live m (b :: l)) (hfew : l.length < 2 ^ 31)
    (hb : Small b) (offset : ℕ) (hn : offset + b.storedSize ≤ size) (hsize : size ≤ 2 ^ 30) :
    ∃ a d m' bytes, b.moveTo garbage size offset m = some (a, m') ∧ m'.blocks a = some d ∧
      d.count = 1 ∧ size ≤ d.size ∧ Live m' (blank a d :: l) ∧ Keeps l m m' ∧
      m.contents b = some (b.contents bytes) ∧
      window d.bytes offset b.storedSize = window bytes b.start b.storedSize := by
  rcases h.create garbage hsize with ⟨a, d, m₁, hcreate, hd, hcount, hroom, hlive, hkeeps⟩
  have hne := hlive.ne_of_count hd hcount
  rcases hlive.block b (by simp) with ⟨e, he⟩
  have hsound := hlive.sound (by simp) he
  have hinternal : b.start + b.storedSize ≤ e.size := by
    rcases hsound with ⟨⟨hstart, hzero, hend⟩, -, -, hle⟩
    rw [Buffer.storedEnd] at hle
    rw [Buffer.storedSize]
    omega
  -- The bytes are copied, and the old block is left.
  have hlive' := hlive.setBytes hd (by omega)
    (write d.bytes offset (window e.bytes b.start b.storedSize))
  have hkeeps' : Keeps (b :: l) m₁ (m₁.put a { d with
      bytes := write d.bytes offset (window e.bytes b.start b.storedSize) }) :=
    .put hd fun c hc hca => absurd hca (hne c hc)
  rcases (hlive'.perm (.swap _ _ _)).release (by rw [List.length_cons]; omega) with
    ⟨m', hrelease, hlive'', hkeeps'', hblocks⟩
  have hself := (hblocks a (hne b List.mem_cons_self).symm).trans (m₁.put_blocks_self a _)
  refine ⟨a, _, m', e.bytes, ?_, hself, hcount, hroom, hlive'', ?_, ?_, ?_⟩
  · simp only [Buffer.moveTo, hcreate, hd, he, hb.getInternalSize_eq, guard, Option.bind_eq_bind,
      Option.bind_some, Data.load_eq hinternal, if_pos (hn.trans hroom), hrelease, Option.pure_def]
  · exact ((hkeeps.trans hkeeps').mono (List.subset_cons_self b l)).trans
      (hkeeps''.mono (List.subset_cons_self _ l))
  · exact (hkeeps b List.mem_cons_self).symm.trans (Memory.contents_of_block he)
  · have hlength := length_window e.bytes b.start b.storedSize
    have hwrite := window_write d.bytes offset (window e.bytes b.start b.storedSize)
    rwa [hlength] at hwrite

section InPlace

variable (h : Live m (b :: l)) (hd : m.blocks b.data = some d)
include h hd

/-- The bytes in front are unused. -/
theorem grownFront_inPlace (hn : n ≤ b.start) (hfree : d.count = 1 ∨ b.start = d.dirtyStart) :
    GrownFront n m l (b.contents d.bytes) b { b with start := b.start - n }.noteZeroAreaStart
      (m.put b.data { d with dirtyStart := b.start - n }) := by
  have hshared := h.shared _ d hd
  rw [users_cons_self] at hshared
  have hordered := h.ordered List.mem_cons_self
  have hstart := hordered.start_le
  refine ⟨h.update hd rfl rfl (hshared.addAtStart hn hfree), .put hd fun _ _ _ => rfl,
    ⟨window d.bytes (b.start - n) n, length_window .., ?_⟩, ⟨?_, ?_⟩, rfl⟩
  · exact (Memory.contents_put rfl).trans
      (congrArg some (Buffer.contents_addAtStart hordered (Nat.sub_add_cancel hn) rfl rfl rfl))
  · show b.start - n + n ≤ b.zeroAreaStart
    omega
  · intro c hc hdata
    have hle := hshared.start_le hfree c (mem_users.2 ⟨hc, hdata⟩)
    show b.start - n + n ≤ c.start
    omega

/-- The bytes behind are unused. -/
theorem grownBack_inPlace (hroom : b.storedEnd + n ≤ d.size)
    (hfree : d.count = 1 ∨ b.end_ = d.dirtyEnd) :
    GrownBack n m l (b.contents d.bytes) b { b with end_ := b.end_ + n }.noteZeroAreaStart
      (m.put b.data { d with dirtyEnd := b.end_ + n }) := by
  have hshared := h.shared _ d hd
  rw [users_cons_self] at hshared
  have hordered := h.ordered List.mem_cons_self
  have hzero := hordered.zero_le
  have hend := hordered.end_le
  refine ⟨h.update hd rfl rfl (hshared.addAtEnd hroom hfree), .put hd fun _ _ _ => rfl,
    ⟨window d.bytes b.storedEnd n, length_window .., ?_⟩, ⟨?_, ?_⟩, rfl⟩
  · exact (Memory.contents_put rfl).trans
      (congrArg some (Buffer.contents_addAtEnd hordered rfl rfl rfl rfl))
  · show b.zeroAreaEnd + n ≤ b.end_ + n
    omega
  · intro c hc hdata
    have hle := (hshared.storedEnd_le hfree c (mem_users.2 ⟨hc, hdata⟩)).2
    rw [Buffer.storedEnd] at hle
    show _ ≤ b.end_ + n - (b.zeroAreaEnd - b.zeroAreaStart)
    rw [Buffer.storedEnd] at hle ⊢
    omega

end InPlace

section Moved

variable {a : ℕ} {bytes : ℕ → UInt8} (hordered : Ordered b) (h : Live m (blank a d :: l))
  (hd : m.blocks a = some d) (hcount : d.count = 1)
include hordered h hd hcount

/-- The stored bytes have been moved to `n`. -/
theorem grownFront_moved (hsize : b.storedSize + n ≤ d.size)
    (hwindow : window d.bytes n b.storedSize = window bytes b.start b.storedSize) :
    GrownFront n m l (b.contents bytes) b
      { b with
        data := a
        start := 0
        zeroAreaStart := b.zeroAreaStart + n - b.start
        zeroAreaEnd := b.zeroAreaEnd + n - b.start
        end_ := b.end_ + n - b.start }.noteZeroAreaStart
      (m.put a { d with dirtyStart := 0, dirtyEnd := b.end_ + n - b.start }) := by
  rcases hordered with ⟨hstart, hzero, hend⟩
  have hsound : Sound
      { b with
        data := a
        start := 0
        zeroAreaStart := b.zeroAreaStart + n - b.start
        zeroAreaEnd := b.zeroAreaEnd + n - b.start
        end_ := b.end_ + n - b.start }.noteZeroAreaStart
      { d with dirtyStart := 0, dirtyEnd := b.end_ + n - b.start } := by
    rw [Buffer.storedSize] at hsize
    refine ⟨⟨Nat.zero_le _, ?_, ?_⟩, le_rfl, le_rfl, ?_⟩ <;>
      simp only [Buffer.noteZeroAreaStart, Buffer.storedEnd] <;> omega
  rcases h.settle hd hcount hsound hcount rfl rfl with ⟨hlive, hkeeps, hcontents⟩
  refine ⟨hlive, hkeeps, ⟨window d.bytes 0 n, length_window .., ?_⟩, ⟨?_, ?_⟩, ?_⟩
  · refine hcontents.trans (congrArg some ?_)
    rw [← Buffer.contents_moved ⟨hstart, hzero, hend⟩ hwindow]
    exact Buffer.contents_addAtStart (Buffer.ordered_moved ⟨hstart, hzero, hend⟩ n) (Nat.zero_add n)
      rfl rfl rfl
  · show 0 + n ≤ b.zeroAreaStart + n - b.start
    omega
  · exact fun c hc hdata => absurd hdata (h.ne_of_count hd hcount c hc)
  · show b.zeroAreaEnd + n - b.start - (b.zeroAreaStart + n - b.start) = _
    omega

/-- The stored bytes have been moved to the beginning. -/
theorem grownBack_moved (hsize : b.storedSize + n ≤ d.size)
    (hwindow : window d.bytes 0 b.storedSize = window bytes b.start b.storedSize) :
    GrownBack n m l (b.contents bytes) b
      { b with
        data := a
        start := 0
        zeroAreaStart := b.zeroAreaStart - b.start
        zeroAreaEnd := b.zeroAreaEnd - b.start
        end_ := b.end_ - b.start + n }.noteZeroAreaStart
      (m.put a { d with dirtyStart := 0, dirtyEnd := b.end_ - b.start + n }) := by
  have hinternal : (b.moved 0).storedEnd = b.storedSize :=
    (Buffer.storedEnd_moved hordered 0).trans (Nat.zero_add _)
  have hmoved := Buffer.ordered_moved hordered 0
  have hold := Buffer.contents_moved hordered hwindow
  rcases hordered with ⟨hstart, hzero, hend⟩
  have hsound : Sound
      { b with
        data := a
        start := 0
        zeroAreaStart := b.zeroAreaStart - b.start
        zeroAreaEnd := b.zeroAreaEnd - b.start
        end_ := b.end_ - b.start + n }.noteZeroAreaStart
      { d with dirtyStart := 0, dirtyEnd := b.end_ - b.start + n } := by
    rw [Buffer.storedSize] at hsize
    refine ⟨⟨Nat.zero_le _, ?_, ?_⟩, le_rfl, le_rfl, ?_⟩ <;>
      simp only [Buffer.noteZeroAreaStart, Buffer.storedEnd] <;> omega
  rcases h.settle hd hcount hsound hcount rfl rfl with ⟨hlive, hkeeps, hcontents⟩
  refine ⟨hlive, hkeeps, ⟨window d.bytes b.storedSize n, length_window .., ?_⟩, ⟨?_, ?_⟩, ?_⟩
  · refine hcontents.trans (congrArg some ?_)
    rw [← hold, ← hinternal]
    exact Buffer.contents_addAtEnd hmoved rfl rfl rfl rfl
  · show b.zeroAreaEnd - b.start + n ≤ b.end_ - b.start + n
    omega
  · exact fun c hc hdata => absurd hdata (h.ne_of_count hd hcount c hc)
  · show b.zeroAreaEnd - b.start - (b.zeroAreaStart - b.start) = _
    omega

end Moved

section Add

variable (garbage : ℕ → ℕ → UInt8) (h : Live m (b :: l)) (hfew : l.length < 2 ^ 31)
  (hold : m.contents b = some old) (hlength : old.length + n ≤ 2 ^ 30)
include h hfew hold hlength

theorem addAtStart : ∃ b' m', b.addAtStart garbage n m = some (b', m') ∧
    GrownFront n m l old b b' m' := by
  have hb := h.small List.mem_cons_self hold (by omega)
  have hsmall := h.storedSize_le List.mem_cons_self hold
  rcases h.block b List.mem_cons_self with ⟨d, hd⟩
  simp only [Buffer.addAtStart, hd, Option.bind_eq_bind, Option.bind_some, Option.pure_def]
  split
  · case isTrue hplace =>
      have hfree : d.count = 1 ∨ b.start = d.dirtyStart := by
        have hpos := h.count_pos List.mem_cons_self hd
        have hdirty := (h.sound List.mem_cons_self hd).dirtyStart_le
        omega
      rw [guard, if_pos hfree]
      rw [Memory.contents_of_block hd] at hold
      cases hold
      exact ⟨_, _, rfl, h.grownFront_inPlace hd hplace.1 hfree⟩
  · rcases h.moveTo garbage hfew hb n (Nat.add_comm n b.storedSize).le (by omega) with
      ⟨a, e, m₁, bytes, hmove, he, hcount, hsize, hlive, hkeeps, hold', hwindow⟩
    cases hold.symm.trans hold'
    have hgrown := hlive.grownFront_moved hb.toOrdered he hcount hsize hwindow
    -- What the offsets are when the difference is added to them.
    have hdelta : ∀ {i}, b.start ≤ i → i ≤ b.end_ → u32 (i + minus n b.start) = i + n - b.start :=
      hb.shift_eq (by omega)
    rcases hb.toOrdered with ⟨hstart, hzero, hend⟩
    rw [hb.getInternalSize_eq, u32_eq (by omega), hmove, Option.bind_some, he, Option.bind_some,
      hdelta le_rfl (by omega), hdelta hstart (by omega), hdelta (by omega) hend,
      hdelta (by omega) le_rfl, Nat.add_sub_cancel_left, minus_eq le_rfl (by omega), Nat.sub_self]
    exact ⟨_, _, rfl, { hgrown with keeps := hkeeps.trans hgrown.keeps }⟩

theorem addAtEnd : ∃ b' m', b.addAtEnd garbage n m = some (b', m') ∧
    GrownBack n m l old b b' m' := by
  have hb := h.small List.mem_cons_self hold (by omega)
  have hsmall := h.storedSize_le List.mem_cons_self hold
  have hlt := hb.end_lt
  have hstored : b.storedEnd ≤ b.end_ := Nat.sub_le _ _
  rcases h.block b List.mem_cons_self with ⟨d, hd⟩
  simp only [Buffer.addAtEnd, hd, hb.getInternalEnd_eq, u32_eq (show b.storedEnd + n < 2 ^ 32 by omega),
    u32_eq (show b.end_ + n < 2 ^ 32 by omega), Option.bind_eq_bind, Option.bind_some, Option.pure_def]
  split
  · case isTrue hplace =>
      have hfree : d.count = 1 ∨ b.end_ = d.dirtyEnd := by
        have hpos := h.count_pos List.mem_cons_self hd
        have hdirty := (h.sound List.mem_cons_self hd).le_dirtyEnd
        omega
      rw [guard, if_pos hfree]
      rw [Memory.contents_of_block hd] at hold
      cases hold
      exact ⟨_, _, rfl, h.grownBack_inPlace hd hplace.1 hfree⟩
  · rcases h.moveTo garbage hfew hb 0 (show 0 + b.storedSize ≤ b.storedSize + n by omega)
      (by omega) with ⟨a, e, m₁, bytes, hmove, he, hcount, hsize, hlive, hkeeps, hold', hwindow⟩
    cases hold.symm.trans hold'
    have hgrown := hlive.grownBack_moved hb.toOrdered he hcount hsize hwindow
    have hdelta : ∀ {i}, b.start ≤ i → i ≤ b.end_ → u32 (i + minus 0 b.start) = i - b.start :=
      hb.shift_eq (Nat.zero_le _)
    rcases hb.toOrdered with ⟨hstart, hzero, hend⟩
    rw [hb.getInternalSize_eq, u32_eq (by omega), hmove, Option.bind_some, he, Option.bind_some,
      hdelta le_rfl (by omega), hdelta hstart (by omega), hdelta (by omega) hend,
      hdelta (by omega) le_rfl, Nat.sub_self, u32_eq (by omega)]
    exact ⟨_, _, rfl, { hgrown with keeps := hkeeps.trans hgrown.keeps }⟩

end Add

end Live

end SyncPaxos.Packets
