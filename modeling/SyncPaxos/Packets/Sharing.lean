import SyncPaxos.Packets.Contents
import Mathlib.Data.List.Perm.Basic
import Mathlib.Tactic.Common

/-!
# Sharing — which buffers may share a block

`Live m l` says that `l` are the buffers that exist: a block, which is not too large, counts its users
among them, they stay inside of its dirty area, and a block without users is in the free list, once.
The user whose end is the end of the dirty area stores the last bytes of the block, which is why it may
append in place.
-/

namespace SyncPaxos.Packets

variable {m m' : Memory} {l l' : List Buffer} {b b' : Buffer} {d d' : Data} {a n : ℕ}

/-! ## What buffers keep -/

/-- The bytes of a buffer. -/
def Memory.contents (m : Memory) (b : Buffer) : Option (List UInt8) :=
  (m.blocks b.data).map fun d => b.contents d.bytes

/-- The buffers in `l` have the bytes that they had. -/
def Keeps (l : List Buffer) (m m' : Memory) : Prop := ∀ c ∈ l, m'.contents c = m.contents c

theorem Memory.put_blocks_self (m : Memory) (a : ℕ) (d : Data) : (m.put a d).blocks a = some d :=
  Function.update_self ..

theorem Memory.put_blocks_of_ne {x : ℕ} (m : Memory) (d : Data) (h : x ≠ a) :
    (m.put a d).blocks x = m.blocks x :=
  Function.update_of_ne h ..

theorem Memory.contents_of_block (h : m.blocks b.data = some d) :
    m.contents b = some (b.contents d.bytes) := by
  rw [Memory.contents, h]
  rfl

theorem Memory.contents_put (h : b.data = a) :
    (m.put a d).contents b = some (b.contents d.bytes) :=
  contents_of_block ((congrArg _ h).trans (m.put_blocks_self a d))

theorem Keeps.trans {m'' : Memory} (h : Keeps l m m') (h' : Keeps l m' m'') : Keeps l m m'' :=
  fun c hc => (h' c hc).trans (h c hc)

theorem Keeps.mono (h : Keeps l m m') (hl : l' ⊆ l) : Keeps l' m m' := fun c hc => h c (hl hc)

theorem Keeps.block {old : List UInt8} (h : Keeps l m m') (hb : b ∈ l)
    (hold : m.contents b = some old) : ∃ d, m'.blocks b.data = some d ∧ b.contents d.bytes = old := by
  have hcontents := (h b hb).trans hold
  rw [Memory.contents, Option.map_eq_some_iff] at hcontents
  exact hcontents

theorem Keeps.of_blocks (h : ∀ c ∈ l, m'.blocks c.data = m.blocks c.data) : Keeps l m m' := by
  intro c hc
  rw [Memory.contents, h c hc, ← Memory.contents]

/-! ## One block -/

/-- A buffer stays inside of the dirty area of its block. -/
structure Sound (b : Buffer) (d : Data) : Prop extends Ordered b where
  dirtyStart_le : d.dirtyStart ≤ b.start
  le_dirtyEnd : b.end_ ≤ d.dirtyEnd
  storedEnd_le : b.storedEnd ≤ d.size

/-- `us` may share the block `d`. -/
structure Shared (d : Data) (us : List Buffer) : Prop where
  count_eq : d.count = us.length
  sound : ∀ b ∈ us, Sound b d
  last : ∀ b ∈ us, b.end_ = d.dirtyEnd → ∀ c ∈ us, c.storedEnd ≤ b.storedEnd
  dirtyStart_le_end : d.dirtyStart ≤ d.dirtyEnd
  dirtyStart_le_size : d.dirtyStart ≤ d.size

namespace Sound

/-- A buffer that does not show too much of a block. -/
theorem small (h : Sound b d) (hd : d.size < 2 ^ 31) (hb : b.size ≤ 2 ^ 30) : Small b := by
  have hle := h.start_le_storedEnd.trans h.storedEnd_le
  refine ⟨h.toOrdered, ?_⟩
  rw [Buffer.size] at hb
  omega

/-- What a buffer stores lies inside of its block. -/
theorem load_front (h : Sound b d) : d.load b.start (b.zeroAreaStart - b.start) =
    some (Window.window d.bytes b.start (b.zeroAreaStart - b.start)) := by
  rcases h with ⟨⟨hstart, hzero, hend⟩, -, -, hsize⟩
  rw [Buffer.storedEnd] at hsize
  exact Data.load_eq (by omega)

theorem load_back (h : Sound b d) : d.load b.zeroAreaStart (b.end_ - b.zeroAreaEnd) =
    some (Window.window d.bytes b.zeroAreaStart (b.end_ - b.zeroAreaEnd)) := by
  rcases h with ⟨⟨hstart, hzero, hend⟩, -, -, hsize⟩
  rw [Buffer.storedEnd] at hsize
  exact Data.load_eq (by omega)

theorem checkInternalState (h : Sound b d) (hb : Small b) (hcount : d.count ≠ 0) :
    b.checkInternalState d = true := by
  have hinternal : minus b.end_ b.zeroSize = b.storedEnd := hb.getInternalEnd_eq
  have hstored := h.start_le_storedEnd
  rcases h with ⟨⟨hstart, hzero, hend⟩, hdirty, hdirty', hsize⟩
  have hroom : b.zeroAreaStart ≤ d.size := by
    rw [Buffer.storedEnd] at hsize
    omega
  simp only [Buffer.checkInternalState, hinternal, Bool.and_eq_true, decide_eq_true_eq]
  omega

end Sound

/-- A buffer at the beginning of the dirty area, without bytes. -/
def blank (a : ℕ) (d : Data) : Buffer where
  data := a
  maxZeroAreaStart := d.dirtyStart
  zeroAreaStart := d.dirtyStart
  zeroAreaEnd := d.dirtyStart
  start := d.dirtyStart
  end_ := d.dirtyStart

namespace Shared

/-- The first user. -/
theorem blank (a : ℕ) (hcount : d.count = 1) (hend : d.dirtyStart ≤ d.dirtyEnd)
    (hsize : d.dirtyStart ≤ d.size) : Shared d [blank a d] where
  count_eq := hcount
  sound b hb := by
    cases List.mem_singleton.1 hb
    exact ⟨⟨le_rfl, le_rfl, le_rfl⟩, le_rfl, hend, (Nat.sub_le _ _).trans hsize⟩
  last b hb _ c hc := by
    cases List.mem_singleton.1 hb
    cases List.mem_singleton.1 hc
    exact le_rfl
  dirtyStart_le_end := hend
  dirtyStart_le_size := hsize

theorem perm {us us' : List Buffer} (h : Shared d us) (hp : us.Perm us') : Shared d us' where
  count_eq := h.count_eq.trans hp.length_eq
  sound b hb := h.sound b (hp.mem_iff.2 hb)
  last b hb hend c hc := h.last b (hp.mem_iff.2 hb) hend c (hp.mem_iff.2 hc)
  dirtyStart_le_end := h.dirtyStart_le_end
  dirtyStart_le_size := h.dirtyStart_le_size

variable {us : List Buffer}

/-- One user less; the block keeps its dirty area. -/
theorem release (h : Shared d (b :: us)) : Shared { d with count := d.count - 1 } us where
  count_eq := by
    have hcount := h.count_eq
    rw [List.length_cons] at hcount
    show d.count - 1 = us.length
    omega
  sound c hc := by
    rcases h.sound c (List.mem_cons_of_mem _ hc) with ⟨⟨h₁, h₂, h₃⟩, h₄, h₅, h₆⟩
    exact ⟨⟨h₁, h₂, h₃⟩, h₄, h₅, h₆⟩
  last c hc hend e he := h.last c (List.mem_cons_of_mem _ hc) hend e (List.mem_cons_of_mem _ he)
  dirtyStart_le_end := h.dirtyStart_le_end
  dirtyStart_le_size := h.dirtyStart_le_size

/-- One user more, which sees what another one sees. -/
theorem retain (h : Shared d (b :: us)) (b' : Buffer) (hstart : b'.start = b.start)
    (hzero : b'.zeroAreaStart = b.zeroAreaStart) (hzero' : b'.zeroAreaEnd = b.zeroAreaEnd)
    (hend : b'.end_ = b.end_) : Shared { d with count := d.count + 1 } (b' :: b :: us) where
  count_eq := by
    have hcount := h.count_eq
    rw [List.length_cons] at hcount ⊢
    show d.count + 1 = _
    rw [hcount, List.length_cons]
  sound c hc := by
    rcases List.mem_cons.1 hc with rfl | hc
    · rcases h.sound b List.mem_cons_self with ⟨⟨h₁, h₂, h₃⟩, h₄, h₅, h₆⟩
      rw [Buffer.storedEnd] at h₆
      refine ⟨⟨?_, ?_, ?_⟩, ?_, ?_, ?_⟩
      · omega
      · omega
      · omega
      · exact h₄.trans_eq hstart.symm
      · exact hend.trans_le h₅
      · rw [Buffer.storedEnd, hend, hzero, hzero']
        exact h₆
    · rcases h.sound c hc with ⟨⟨h₁, h₂, h₃⟩, h₄, h₅, h₆⟩
      exact ⟨⟨h₁, h₂, h₃⟩, h₄, h₅, h₆⟩
  last c hc hce e he := by
    have hsame : b'.storedEnd = b.storedEnd := by
      rw [Buffer.storedEnd, Buffer.storedEnd, hend, hzero, hzero']
    have hlast : ∀ x ∈ b :: us, x.end_ = d.dirtyEnd → e.storedEnd ≤ x.storedEnd := by
      intro x hx hxe
      rcases List.mem_cons.1 he with rfl | he
      · exact hsame.trans_le (h.last x hx hxe b List.mem_cons_self)
      · exact h.last x hx hxe e he
    rcases List.mem_cons.1 hc with rfl | hc
    · exact (hlast b List.mem_cons_self (hend.symm.trans hce)).trans_eq hsame.symm
    · exact hlast c hc hce
  dirtyStart_le_end := h.dirtyStart_le_end
  dirtyStart_le_size := h.dirtyStart_le_size

/-- Bytes do not matter. -/
theorem setBytes (h : Shared d us) (bytes : ℕ → UInt8) : Shared { d with bytes := bytes } us where
  count_eq := h.count_eq
  sound c hc := by
    rcases h.sound c hc with ⟨⟨h₁, h₂, h₃⟩, h₄, h₅, h₆⟩
    exact ⟨⟨h₁, h₂, h₃⟩, h₄, h₅, h₆⟩
  last := h.last
  dirtyStart_le_end := h.dirtyStart_le_end
  dirtyStart_le_size := h.dirtyStart_le_size

/-- The only user of a block, or the one that shows its first bytes. -/
theorem start_le (h : Shared d (b :: us)) (hfree : d.count = 1 ∨ b.start = d.dirtyStart) :
    ∀ c ∈ us, b.start ≤ c.start := by
  intro c hc
  rcases hfree with hone | hfirst
  · have hcount := h.count_eq
    rw [hone, List.length_cons] at hcount
    have hpos := List.length_pos_of_mem hc
    omega
  · exact hfirst.trans_le (h.sound c (List.mem_cons_of_mem _ hc)).dirtyStart_le

/-- The only user of a block, or the one that shows its last bytes. -/
theorem storedEnd_le (h : Shared d (b :: us)) (hfree : d.count = 1 ∨ b.end_ = d.dirtyEnd) :
    ∀ c ∈ us, c.end_ ≤ b.end_ ∧ c.storedEnd ≤ b.storedEnd := by
  intro c hc
  rcases hfree with hone | hlast
  · have hcount := h.count_eq
    rw [hone, List.length_cons] at hcount
    have hpos := List.length_pos_of_mem hc
    omega
  · have hmem := List.mem_cons_of_mem b hc
    exact ⟨(h.sound c hmem).le_dirtyEnd.trans_eq hlast.symm, h.last b List.mem_cons_self hlast c hmem⟩

theorem addAtStart (h : Shared d (b :: us)) (hn : n ≤ b.start)
    (hfree : d.count = 1 ∨ b.start = d.dirtyStart) :
    Shared { d with dirtyStart := b.start - n }
      ({ b with start := b.start - n }.noteZeroAreaStart :: us) where
  count_eq := h.count_eq
  sound c hc := by
    rcases List.mem_cons.1 hc with rfl | hc
    · rcases h.sound b List.mem_cons_self with ⟨⟨h₁, h₂, h₃⟩, h₄, h₅, h₆⟩
      exact ⟨⟨(Nat.sub_le _ _).trans h₁, h₂, h₃⟩, le_rfl, h₅, h₆⟩
    · rcases h.sound c (List.mem_cons_of_mem _ hc) with ⟨⟨h₁, h₂, h₃⟩, h₄, h₅, h₆⟩
      exact ⟨⟨h₁, h₂, h₃⟩, (Nat.sub_le _ _).trans (h.start_le hfree c hc), h₅, h₆⟩
  last c hc hce e he := by
    -- The ends are where they were.
    have hold : ∀ x ∈ { b with start := b.start - n }.noteZeroAreaStart :: us,
        ∃ y ∈ b :: us, y.end_ = x.end_ ∧ y.storedEnd = x.storedEnd := by
      intro x hx
      rcases List.mem_cons.1 hx with rfl | hx
      · exact ⟨b, List.mem_cons_self, rfl, rfl⟩
      · exact ⟨x, List.mem_cons_of_mem _ hx, rfl, rfl⟩
    rcases hold c hc with ⟨c', hc', hcend, hcinternal⟩
    rcases hold e he with ⟨e', he', -, heinternal⟩
    rw [← hcinternal, ← heinternal]
    exact h.last c' hc' (hcend.trans hce) e' he'
  dirtyStart_le_end := by
    rcases h.sound b List.mem_cons_self with ⟨⟨h₁, h₂, h₃⟩, h₄, h₅, h₆⟩
    show b.start - n ≤ d.dirtyEnd
    omega
  dirtyStart_le_size := by
    have hs := h.sound b List.mem_cons_self
    exact (Nat.sub_le _ _).trans (hs.start_le_storedEnd.trans hs.storedEnd_le)

theorem addAtEnd (h : Shared d (b :: us)) (hroom : b.storedEnd + n ≤ d.size)
    (hfree : d.count = 1 ∨ b.end_ = d.dirtyEnd) :
    Shared { d with dirtyEnd := b.end_ + n }
      ({ b with end_ := b.end_ + n }.noteZeroAreaStart :: us) := by
  rcases h.sound b List.mem_cons_self with ⟨⟨h₁, h₂, h₃⟩, h₄, h₅, h₆⟩
  have hinternal : { b with end_ := b.end_ + n }.noteZeroAreaStart.storedEnd =
      b.storedEnd + n := by
    show b.end_ + n - (b.zeroAreaEnd - b.zeroAreaStart) = _
    rw [Buffer.storedEnd]
    omega
  refine ⟨h.count_eq, ?_, ?_, ?_, h.dirtyStart_le_size⟩
  · intro c hc
    rcases List.mem_cons.1 hc with rfl | hc
    · exact ⟨⟨h₁, h₂, h₃.trans (Nat.le_add_right _ _)⟩, h₄, le_rfl, hinternal.trans_le hroom⟩
    · have hle := (h.storedEnd_le hfree c hc).1
      rcases h.sound c (List.mem_cons_of_mem _ hc) with ⟨⟨h₁, h₂, h₃⟩, h₄, h₅, h₆⟩
      exact ⟨⟨h₁, h₂, h₃⟩, h₄, hle.trans (Nat.le_add_right _ _), h₆⟩
  · intro c hc hce e he
    have he' : e.storedEnd ≤ b.storedEnd + n := by
      rcases List.mem_cons.1 he with rfl | he
      · exact hinternal.le
      · exact (h.storedEnd_le hfree e he).2.trans (Nat.le_add_right _ _)
    rcases List.mem_cons.1 hc with rfl | hmem
    · exact he'.trans_eq hinternal.symm
    · -- Another one reaches as far only if nothing was added.
      have hle := (h.storedEnd_le hfree c hmem).1
      have hce' : c.end_ = b.end_ + n := hce
      have hn : n = 0 := by omega
      subst hn
      rcases hfree with hone | hlast
      · have hcount := h.count_eq
        rw [hone, List.length_cons] at hcount
        have hpos := List.length_pos_of_mem hmem
        omega
      · have hb := h.last c (List.mem_cons_of_mem _ hmem) (hce'.trans hlast) b List.mem_cons_self
        exact he'.trans hb
  · show d.dirtyStart ≤ b.end_ + n
    omega

/-- A user that sees less, and no more of the block's end. -/
theorem shrink (h : Shared d (b :: us)) (hs : Sound b' d) (hend : b'.end_ ≤ b.end_)
    (hinternal : b'.storedEnd ≤ b.storedEnd)
    (hsame : b'.end_ = b.end_ → b'.storedEnd = b.storedEnd) : Shared d (b' :: us) where
  count_eq := h.count_eq
  sound c hc := by
    rcases List.mem_cons.1 hc with rfl | hc
    · exact hs
    · exact h.sound c (List.mem_cons_of_mem _ hc)
  last c hc hce e he := by
    have hold : ∀ x ∈ b :: us, x.end_ = d.dirtyEnd → e.storedEnd ≤ x.storedEnd := by
      intro x hx hxe
      rcases List.mem_cons.1 he with rfl | he
      · exact hinternal.trans (h.last x hx hxe b List.mem_cons_self)
      · exact h.last x hx hxe e (List.mem_cons_of_mem _ he)
    rcases List.mem_cons.1 hc with rfl | hc
    · have hle := (h.sound b List.mem_cons_self).le_dirtyEnd
      have hbe : b.end_ = d.dirtyEnd := by omega
      rw [hsame (hce.trans hbe.symm)]
      exact hold b List.mem_cons_self hbe
    · exact hold c (List.mem_cons_of_mem _ hc) hce
  dirtyStart_le_end := h.dirtyStart_le_end
  dirtyStart_le_size := h.dirtyStart_le_size

end Shared

/-! ## The memory -/

/-- The buffers that use a block. -/
def users (l : List Buffer) (a : ℕ) : List Buffer := l.filter (·.data = a)

structure Live (m : Memory) (l : List Buffer) : Prop where
  block : ∀ b ∈ l, ∃ d, m.blocks b.data = some d
  shared : ∀ a d, m.blocks a = some d → Shared d (users l a)
  free : ∀ a, a ∈ m.freeList ↔ ∃ d, m.blocks a = some d ∧ d.count = 0
  free_nodup : m.freeList.Nodup
  free_length : m.freeList.length ≤ 1001
  fresh : ∀ a, m.next ≤ a → m.blocks a = none
  size_lt : ∀ a d, m.blocks a = some d → d.size < 2 ^ 31

@[simp] theorem users_cons_self : users (b :: l) b.data = b :: users l b.data := by
  simp [users]

theorem users_cons_of_eq (h : b.data = a) : users (b :: l) a = b :: users l a := by
  simp [users, h]

theorem users_cons_of_ne (h : b.data ≠ a) : users (b :: l) a = users l a := by
  simp [users, h]

theorem users_blank (h : users l a = []) : users (blank a d :: l) a = [blank a d] :=
  (users_cons_of_eq rfl).trans (congrArg _ h)

theorem mem_users : b ∈ users l a ↔ b ∈ l ∧ b.data = a := by
  simp [users]

namespace Live

theorem perm (h : Live m l) (hp : l.Perm l') : Live m l' :=
  { h with
    block := fun b hb => h.block b (hp.mem_iff.2 hb)
    shared := fun a d hd => (h.shared a d hd).perm (hp.filter _) }

/-- Nothing but the static members has changed. -/
theorem setRecommended (h : Live m l) (recommendedStart : ℕ) :
    Live { m with recommendedStart := recommendedStart } l :=
  ⟨h.block, h.shared, h.free, h.free_nodup, h.free_length, h.fresh, h.size_lt⟩

theorem sound (h : Live m l) (hb : b ∈ l) (hd : m.blocks b.data = some d) : Sound b d :=
  (h.shared _ d hd).sound b (mem_users.2 ⟨hb, rfl⟩)

theorem count_pos (h : Live m l) (hb : b ∈ l) (hd : m.blocks b.data = some d) : 0 < d.count := by
  rw [(h.shared _ d hd).count_eq]
  exact List.length_pos_of_mem (mem_users.2 ⟨hb, rfl⟩)

theorem count_le (h : Live m l) (hd : m.blocks a = some d) : d.count ≤ l.length :=
  (h.shared a d hd).count_eq.trans_le (List.length_filter_le ..)

/-- A buffer that does not show too much. -/
theorem small {old : List UInt8} (h : Live m l) (hb : b ∈ l) (hold : m.contents b = some old)
    (hlength : old.length ≤ 2 ^ 30) : Small b := by
  rcases h.block b hb with ⟨d, hd⟩
  have hs := h.sound hb hd
  rw [Memory.contents_of_block hd] at hold
  cases hold
  rw [Buffer.length_contents hs.toOrdered] at hlength
  exact hs.small (h.size_lt _ d hd) hlength

/-- The only user of a block. -/
theorem ne_of_count (h : Live m (b :: l)) (hd : m.blocks b.data = some d) (hcount : d.count = 1) :
    ∀ c ∈ l, c.data ≠ b.data := by
  intro c hc hdata
  have hlength := (h.shared _ d hd).count_eq
  rw [users_cons_self, List.length_cons] at hlength
  have hpos := List.length_pos_of_mem (mem_users.2 ⟨hc, hdata⟩)
  omega

/-- Everything is as before, except at `a`. -/
theorem change (h : Live m l) (a : ℕ) (hblocks : ∀ x, x ≠ a → m'.blocks x = m.blocks x)
    (husers : ∀ x, x ≠ a → users l' x = users l x)
    (hshared : ∀ d, m'.blocks a = some d → Shared d (users l' a))
    (hnone : m'.blocks a = none → users l' a = [])
    (hfree : ∀ x, x ≠ a → (x ∈ m'.freeList ↔ x ∈ m.freeList))
    (hself : a ∈ m'.freeList ↔ ∃ d, m'.blocks a = some d ∧ d.count = 0)
    (hnodup : m'.freeList.Nodup) (hlength : m'.freeList.length ≤ 1001)
    (hnext : ∀ x, m'.next ≤ x → m.next ≤ x ∧ x ≠ a)
    (hsize : ∀ d, m'.blocks a = some d → d.size < 2 ^ 31) : Live m' l' where
  block c hc := by
    have hmem : c ∈ users l' c.data := mem_users.2 ⟨hc, rfl⟩
    by_cases hca : c.data = a
    · cases hd : m'.blocks a with
      | none =>
          rw [hca, hnone hd] at hmem
          cases hmem
      | some d => exact ⟨d, (congrArg _ hca).trans hd⟩
    · rw [husers _ hca] at hmem
      rw [hblocks _ hca]
      exact h.block c (mem_users.1 hmem).1
  shared x d hd := by
    by_cases hxa : x = a
    · subst hxa
      exact hshared d hd
    · rw [husers x hxa]
      exact h.shared x d ((hblocks x hxa).symm.trans hd)
  free x := by
    by_cases hxa : x = a
    · subst hxa
      exact hself
    · rw [hfree x hxa, hblocks x hxa]
      exact h.free x
  free_nodup := hnodup
  free_length := hlength
  fresh x hx := (hblocks x (hnext x hx).2).trans (h.fresh x (hnext x hx).1)
  size_lt x d hd := by
    by_cases hxa : x = a
    · subst hxa
      exact hsize d hd
    · exact h.size_lt x d ((hblocks x hxa).symm.trans hd)

theorem lt_next (h : Live m l) (hd : m.blocks a = some d) : ∀ x, m.next ≤ x → m.next ≤ x ∧ x ≠ a := by
  refine fun x hx => ⟨hx, ?_⟩
  rintro rfl
  rw [h.fresh x hx] at hd
  cases hd

theorem not_free (h : Live m l) (hd : m.blocks a = some d) (hcount : d.count ≠ 0) :
    a ∉ m.freeList := by
  intro hmem
  rcases (h.free a).1 hmem with ⟨e, he, hzero⟩
  rw [hd] at he
  cases he
  exact hcount hzero

/-- A block in use is replaced, together with its users. -/
theorem put (h : Live m l) (hd : m.blocks a = some d) (hcount : d.count ≠ 0) (hcount' : d'.count ≠ 0)
    (hsize : d'.size = d.size) (hs : Shared d' (users l' a))
    (hl : ∀ x, x ≠ a → users l' x = users l x) : Live (m.put a d') l' := by
  have hself := m.put_blocks_self a d'
  refine h.change a (fun x hx => m.put_blocks_of_ne d' hx) hl ?_ ?_ (fun _ _ => Iff.rfl) ?_
    h.free_nodup h.free_length (h.lt_next hd) ?_
  · intro e he
    cases hself.symm.trans he
    exact hs
  · intro hnone
    cases hself.symm.trans hnone
  · refine iff_of_false (h.not_free hd hcount) ?_
    rintro ⟨e, he, hzero⟩
    cases hself.symm.trans he
    exact hcount' hzero
  · intro e he
    cases hself.symm.trans he
    exact hsize.trans_lt (h.size_lt a d hd)

theorem setBytes (h : Live m l) (hd : m.blocks a = some d) (hcount : d.count ≠ 0)
    (bytes : ℕ → UInt8) : Live (m.put a { d with bytes := bytes }) l :=
  h.put hd hcount hcount rfl ((h.shared a d hd).setBytes bytes) fun _ _ => rfl

/-- One user of a block is replaced, with the block. -/
theorem update (h : Live m (b :: l)) (hd : m.blocks b.data = some d) (hdata : b'.data = b.data)
    (hsize : d'.size = d.size) (hs : Shared d' (b' :: users l b.data)) :
    Live (m.put b.data d') (b' :: l) := by
  refine h.put hd (h.count_pos List.mem_cons_self hd).ne' ?_ hsize ?_ ?_
  · rw [hs.count_eq]
    exact Nat.succ_ne_zero _
  · rw [users_cons_of_eq hdata]
    exact hs
  · intro x hx
    rw [users_cons_of_ne hx.symm, users_cons_of_ne (hdata.trans_ne hx.symm)]

end Live

/-- The other users of a block that is replaced. -/
theorem Keeps.put (hd : m.blocks a = some d)
    (h : ∀ c ∈ l, c.data = a → c.contents d'.bytes = c.contents d.bytes) :
    Keeps l m (m.put a d') := by
  intro c hc
  by_cases hca : c.data = a
  · rw [Memory.contents_put hca,
      Memory.contents_of_block ((congrArg _ hca).trans hd), h c hc hca]
  · rw [Memory.contents, Memory.put_blocks_of_ne m d' hca, ← Memory.contents]

end SyncPaxos.Packets
