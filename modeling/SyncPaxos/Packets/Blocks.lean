import SyncPaxos.Packets.Sharing
import Mathlib.Tactic.Common

/-!
# Blocks — the life of a block

A user more, a user less, a new block with one user: each leaves the bytes of the other buffers
alone.  A block whose last user goes is given back or kept, and a kept one that is large enough is
used again.
-/

namespace SyncPaxos.Packets

variable {m : Memory} {l : List Buffer} {b b' : Buffer} {d : Data} {a : ℕ}

namespace Memory

theorem deallocate_eq (hd : m.blocks a = some d) (hcount : d.count = 0) :
    m.deallocate a = some { m with blocks := Function.update m.blocks a none } := by
  simp [Memory.deallocate, hd, hcount, guard]

theorem release_eq (hd : m.blocks a = some d) :
    m.release a =
      if minus d.count 1 = 0 then (m.put a { d with count := minus d.count 1 }).recycle a
      else some (m.put a { d with count := minus d.count 1 }) := by
  rw [Memory.release, hd, Option.bind_eq_bind, Option.bind_some]
  simp only [Option.pure_def]

/-- A block without users is given back or kept for later. -/
theorem recycle_cases (hd : m.blocks a = some d) (hcount : d.count = 0) :
    ∃ m', m.recycle a = some m' ∧ m'.next = m.next ∧
      ((m'.blocks = Function.update m.blocks a none ∧ m'.freeList = m.freeList) ∨
        (m'.blocks = m.blocks ∧ m'.freeList = a :: m.freeList ∧ m.freeList.length ≤ 1000)) := by
  simp only [Memory.recycle, Memory.deallocate, hd, hcount, guard, if_true, Option.bind_eq_bind,
    Option.bind_some, Option.pure_def]
  split
  · exact ⟨_, rfl, rfl, .inl ⟨rfl, rfl⟩⟩
  · case isFalse hif =>
      exact ⟨_, rfl, rfl, .inr ⟨rfl, rfl, not_lt.1 (not_or.1 hif).2⟩⟩

end Memory

namespace Live

/-- The last user of a block goes. -/
theorem recycle (h : Live m (b :: l)) (hd : m.blocks b.data = some d) (hcount : d.count = 1) :
    ∃ m', (m.put b.data { d with count := 0 }).recycle b.data = some m' ∧ Live m' l ∧
      ∀ x, x ≠ b.data → m'.blocks x = m.blocks x := by
  have hself := m.put_blocks_self b.data { d with count := 0 }
  have hempty : users l b.data = [] :=
    List.filter_eq_nil_iff.2 (by simpa using h.ne_of_count hd hcount)
  have hl : ∀ x, x ≠ b.data → users l x = users (b :: l) x :=
    fun x hx => (users_cons_of_ne hx.symm).symm
  have hnot := h.not_free hd (by omega)
  rcases Memory.recycle_cases hself rfl with
    ⟨m', hrecycle, hnext, ⟨hblocks, hfree⟩ | ⟨hblocks, hfree, hlength⟩⟩
  · have hnone : m'.blocks b.data = none := by
      rw [hblocks]
      exact Function.update_self ..
    have hne : ∀ x, x ≠ b.data → m'.blocks x = m.blocks x := by
      intro x hx
      rw [hblocks, Function.update_of_ne hx]
      exact m.put_blocks_of_ne _ hx
    refine ⟨m', hrecycle, h.change b.data hne hl ?_ (fun _ => hempty) ?_ ?_ ?_ ?_ ?_ ?_, hne⟩
    · intro e he
      rw [hnone] at he
      cases he
    · intro x _
      rw [hfree]
      exact Iff.rfl
    · rw [hfree]
      refine iff_of_false hnot ?_
      rintro ⟨e, he, -⟩
      rw [hnone] at he
      cases he
    · exact hfree ▸ h.free_nodup
    · exact hfree ▸ h.free_length
    · exact hnext ▸ h.lt_next hd
    · intro e he
      rw [hnone] at he
      cases he
  · have hsome : m'.blocks b.data = some { d with count := 0 } := by
      rw [hblocks, hself]
    have hne : ∀ x, x ≠ b.data → m'.blocks x = m.blocks x := by
      intro x hx
      rw [hblocks]
      exact m.put_blocks_of_ne _ hx
    refine ⟨m', hrecycle, h.change b.data hne hl ?_ (fun _ => hempty) ?_ ?_ ?_ ?_ ?_ ?_, hne⟩
    · intro e he
      cases hsome.symm.trans he
      have hs := h.shared _ d hd
      rw [users_cons_self, hempty] at hs
      have hrelease := hs.release
      rw [hcount] at hrelease
      exact hempty ▸ hrelease
    · intro x hx
      rw [hfree, List.mem_cons, or_iff_right hx]
      exact Iff.rfl
    · rw [hfree]
      exact iff_of_true List.mem_cons_self ⟨_, hsome, rfl⟩
    · rw [hfree]
      exact List.nodup_cons.2 ⟨hnot, h.free_nodup⟩
    · rw [hfree, List.length_cons]
      exact Nat.succ_le_succ hlength
    · exact hnext ▸ h.lt_next hd
    · intro e he
      cases hsome.symm.trans he
      exact h.size_lt _ d hd

/-- A user goes, and the bytes of the others stay. -/
theorem release (h : Live m (b :: l)) (hfew : l.length + 1 < 2 ^ 32) :
    ∃ m', m.release b.data = some m' ∧ Live m' l ∧ Keeps l m m' ∧
      ∀ x, x ≠ b.data → m'.blocks x = m.blocks x := by
  rcases h.block b List.mem_cons_self with ⟨d, hd⟩
  have hpos := h.count_pos List.mem_cons_self hd
  have hs := (h.shared _ d hd)
  rw [users_cons_self] at hs
  have hle : d.count ≤ l.length + 1 := h.count_le hd
  have hminus : minus d.count 1 = d.count - 1 := minus_eq hpos (by omega)
  rw [Memory.release_eq hd, hminus]
  by_cases hlast : d.count = 1
  · rw [hlast]
    rcases h.recycle hd hlast with ⟨m', hrecycle, hlive, hne⟩
    exact ⟨m', hrecycle, hlive, .of_blocks fun c hc => hne _ (h.ne_of_count hd hlast c hc), hne⟩
  · rw [if_neg (by omega)]
    refine ⟨_, rfl, h.put hd hpos.ne' (show d.count - 1 ≠ 0 by omega) rfl hs.release ?_,
      .put hd fun _ _ _ => rfl, fun x hx => m.put_blocks_of_ne _ hx⟩
    exact fun x hx => (users_cons_of_ne hx.symm).symm

/-- A block gets one user more. -/
theorem retain (h : Live m (b :: l)) (hfew : l.length + 2 < 2 ^ 32) (b' : Buffer)
    (hdata : b'.data = b.data) (hstart : b'.start = b.start)
    (hzero : b'.zeroAreaStart = b.zeroAreaStart) (hzero' : b'.zeroAreaEnd = b.zeroAreaEnd)
    (hend : b'.end_ = b.end_) :
    ∃ m', m.retain b.data = some m' ∧ Live m' (b' :: b :: l) ∧ Keeps (b :: l) m m' ∧
      m'.contents b' = m.contents b := by
  rcases h.block b List.mem_cons_self with ⟨d, hd⟩
  have hs := h.shared _ d hd
  rw [users_cons_self] at hs
  have hle : d.count ≤ l.length + 1 := h.count_le hd
  have hsum : u32 (d.count + 1) = d.count + 1 := u32_eq (by omega)
  refine ⟨m.put b.data { d with count := d.count + 1 }, by simp [Memory.retain, hd, hsum], ?_,
    .put hd fun _ _ _ => rfl, ?_⟩
  · refine h.put hd (h.count_pos List.mem_cons_self hd).ne' (Nat.succ_ne_zero _) rfl ?_ ?_
    · rw [users_cons_of_eq hdata, users_cons_self]
      exact hs.retain b' hstart hzero hzero' hend
    · intro x hx
      exact users_cons_of_ne (hdata.trans_ne hx.symm)
  · rw [Memory.contents_put hdata, Memory.contents_of_block hd, Buffer.contents, Buffer.contents,
      hstart, hzero, hzero', hend]

theorem users_eq_nil (h : Live m l) (ha : m.blocks a = none) : users l a = [] := by
  refine List.filter_eq_nil_iff.2 ?_
  intro c hc hdata
  rcases h.block c hc with ⟨d, hd⟩
  rw [of_decide_eq_true hdata, ha] at hd
  cases hd

/-- A free block is given back. -/
theorem deallocate {rest : List ℕ} (h : Live { m with freeList := a :: rest } l) :
    Live { m with freeList := rest, blocks := Function.update m.blocks a none } l ∧
      Keeps l m { m with freeList := rest, blocks := Function.update m.blocks a none } := by
  rcases (h.free a).1 List.mem_cons_self with ⟨d, hd, hcount⟩
  have hempty : users l a = [] :=
    List.eq_nil_of_length_eq_zero ((h.shared a d hd).count_eq.symm.trans hcount)
  have hnodup := List.nodup_cons.1 h.free_nodup
  have hne : ∀ x, x ≠ a → Function.update m.blocks a none x = m.blocks x :=
    fun x hx => Function.update_of_ne hx ..
  have hself : Function.update m.blocks a none a = none := Function.update_self ..
  refine ⟨h.change a hne (fun _ _ => rfl) ?_ (fun _ => hempty) ?_ ?_ hnodup.2 ?_ (h.lt_next hd) ?_, ?_⟩
  · intro e he
    cases hself.symm.trans he
  · intro x hx
    exact (List.mem_cons.trans (or_iff_right hx)).symm
  · refine iff_of_false hnodup.1 ?_
    rintro ⟨e, he, -⟩
    cases hself.symm.trans he
  · exact (Nat.le_succ _).trans h.free_length
  · intro e he
    cases hself.symm.trans he
  · refine .of_blocks fun c hc => hne _ ?_
    intro hdata
    have hmem : c ∈ users l a := mem_users.2 ⟨hc, hdata⟩
    rw [hempty] at hmem
    cases hmem

/-- A free block is used again. -/
theorem reuse {rest : List ℕ} (h : Live { m with freeList := a :: rest } l)
    (hd : m.blocks a = some d) :
    Live { m.put a { d with count := 1 } with freeList := rest } (blank a d :: l) ∧
      Keeps l m { m.put a { d with count := 1 } with freeList := rest } := by
  rcases (h.free a).1 List.mem_cons_self with ⟨d', hd', hcount⟩
  cases hd.symm.trans hd'
  have hs := h.shared a d hd
  have hempty : users l a = [] := List.eq_nil_of_length_eq_zero (hs.count_eq.symm.trans hcount)
  have hnodup := List.nodup_cons.1 h.free_nodup
  have hself := m.put_blocks_self a { d with count := 1 }
  refine ⟨h.change a (fun x hx => m.put_blocks_of_ne _ hx) ?_ ?_ ?_ ?_ ?_ hnodup.2 ?_
    (h.lt_next hd) ?_, ?_⟩
  · exact fun x hx => users_cons_of_ne hx.symm
  · intro e he
    cases hself.symm.trans he
    rw [users_blank hempty]
    exact .blank a rfl hs.dirtyStart_le_end hs.dirtyStart_le_size
  · intro hnone
    cases hself.symm.trans hnone
  · intro x hx
    exact (List.mem_cons.trans (or_iff_right hx)).symm
  · refine iff_of_false hnodup.1 ?_
    rintro ⟨e, he, hzero⟩
    cases hself.symm.trans he
    exact absurd hzero Nat.one_ne_zero
  · exact (Nat.le_succ _).trans h.free_length
  · intro e he
    cases hself.symm.trans he
    exact h.size_lt a d hd
  · exact .put hd fun _ _ _ => rfl

/-- A new block. -/
theorem allocate (garbage : ℕ → ℕ → UInt8) (h : Live m l) {n : ℕ} (hn : n ≤ 2 ^ 30) :
    ∃ d m', m.allocate garbage n = some (m.next, m') ∧ m'.blocks m.next = some d ∧ d.count = 1 ∧
      n ≤ d.size ∧ Live m' (blank m.next d :: l) ∧ Keeps l m m' := by
  -- The size of the block, which is given a name before it is compared with `2 ^ 32`.
  obtain ⟨size, hsize⟩ : ∃ size, (if n = 0 then 1 else n) + 100 = size := ⟨_, rfl⟩
  have hlt : n ≤ size ∧ 0 < size ∧ size < 2 ^ 31 := by
    rw [← hsize]
    split <;> omega
  have hallocate : m.allocate garbage n = some (m.next,
      { m.put m.next ⟨1, size, 0, 0, garbage m.next⟩ with next := m.next + 1 }) := by
    simp only [Memory.allocate, hsize, guard, u32_eq (show size < 2 ^ 32 by omega)]
    rw [if_pos (by rw [minus_eq (by omega) (by omega), u32_eq (by omega)]; omega)]
    rfl
  have hself := m.put_blocks_self m.next ⟨1, size, 0, 0, garbage m.next⟩
  have hnone := h.fresh m.next le_rfl
  have hempty := h.users_eq_nil hnone
  have hnot : m.next ∉ m.freeList := by
    intro hmem
    rcases (h.free _).1 hmem with ⟨e, he, -⟩
    cases hnone.symm.trans he
  refine ⟨_, _, hallocate, hself, rfl, hlt.1, h.change m.next ?_ ?_ ?_ ?_ (fun _ _ => Iff.rfl) ?_
    h.free_nodup h.free_length ?_ ?_, ?_⟩
  · exact fun x hx => m.put_blocks_of_ne _ hx
  · exact fun x hx => users_cons_of_ne (Ne.symm hx)
  · intro e he
    cases hself.symm.trans he
    rw [users_blank hempty]
    exact .blank m.next rfl le_rfl (Nat.zero_le _)
  · intro hnone'
    cases hself.symm.trans hnone'
  · refine iff_of_false hnot ?_
    rintro ⟨e, he, hzero⟩
    cases hself.symm.trans he
    exact absurd hzero Nat.one_ne_zero
  · intro x hx
    have hlt : m.next + 1 ≤ x := hx
    exact ⟨by omega, by omega⟩
  · intro e he
    cases hself.symm.trans he
    exact hlt.2.2
  · refine .of_blocks fun c hc => m.put_blocks_of_ne _ ?_
    intro hdata
    have hmem : c ∈ users l m.next := mem_users.2 ⟨hc, hdata⟩
    rw [hempty] at hmem
    cases hmem

/-- Small free blocks are given back, until one is large enough or none is left. -/
theorem createFrom (garbage : ℕ → ℕ → UInt8) {n : ℕ} (hn : n ≤ 2 ^ 30) :
    ∀ (freeList : List ℕ) (m : Memory), Live { m with freeList := freeList } l →
    ∃ a d m', m.createFrom garbage n freeList = some (a, m') ∧ m'.blocks a = some d ∧
      d.count = 1 ∧ n ≤ d.size ∧ Live m' (blank a d :: l) ∧ Keeps l m m' := by
  intro freeList
  induction freeList with
  | nil =>
      intro m h
      rcases h.allocate garbage hn with ⟨d, m', hallocate, hd, hcount, hsize, hlive, hkeeps⟩
      exact ⟨_, d, m', hallocate, hd, hcount, hsize, hlive, hkeeps⟩
  | cons address rest ih =>
      intro m h
      rcases (h.free address).1 List.mem_cons_self with ⟨d, hd, hcount⟩
      have hblock : m.blocks address = some d := hd
      simp only [Memory.createFrom, hblock, Option.bind_eq_bind, Option.bind_some, Option.pure_def]
      split
      · case isTrue hsize =>
          rcases h.reuse hblock with ⟨hlive, hkeeps⟩
          exact ⟨_, _, _, rfl, m.put_blocks_self .., rfl, hsize, hlive, hkeeps⟩
      · rw [Memory.deallocate_eq hblock hcount, Option.bind_some]
        rcases h.deallocate with ⟨hlive, hkeeps⟩
        rcases ih { m with blocks := Function.update m.blocks address none } hlive with
          ⟨a, d', m', hcreate, hd', hcount', hsize, hlive', hkeeps'⟩
        exact ⟨a, d', m', hcreate, hd', hcount', hsize, hlive', hkeeps.trans hkeeps'⟩

theorem create (garbage : ℕ → ℕ → UInt8) (h : Live m l) {n : ℕ} (hn : n ≤ 2 ^ 30) :
    ∃ a d m', m.create garbage n = some (a, m') ∧ m'.blocks a = some d ∧ d.count = 1 ∧
      n ≤ d.size ∧ Live m' (blank a d :: l) ∧ Keeps l m m' :=
  createFrom garbage hn m.freeList m h

/-- The only user of a block takes its place. -/
theorem settle {d' : Data} (h : Live m (blank a d :: l)) (hd : m.blocks a = some d)
    (hcount : d.count = 1) (hs : Sound b' d') (hcount' : d'.count = 1) (hsize : d'.size = d.size)
    (hdata : b'.data = a) :
    Live (m.put a d') (b' :: l) ∧ Keeps l m (m.put a d') ∧
      (m.put a d').contents b' = some (b'.contents d'.bytes) := by
  have hne : ∀ c ∈ l, c.data ≠ a := h.ne_of_count hd hcount
  have hempty : users l a = [] := List.filter_eq_nil_iff.2 (by simpa using hne)
  refine ⟨h.update hd hdata hsize ?_, .put hd fun c hc hca => absurd hca (hne c hc), ?_⟩
  · rw [show (blank a d).data = a from rfl, hempty]
    refine ⟨hcount', ?_, ?_, ?_, ?_⟩
    · intro c hc
      cases List.mem_singleton.1 hc
      exact hs
    · intro c hc _ e he
      cases List.mem_singleton.1 hc
      cases List.mem_singleton.1 he
      exact le_rfl
    · have hend := hs.start_le.trans (hs.zero_le.trans hs.end_le)
      exact hs.dirtyStart_le.trans (hend.trans hs.le_dirtyEnd)
    · exact hs.dirtyStart_le.trans (hs.start_le_storedEnd.trans hs.storedEnd_le)
  · exact Memory.contents_put hdata

end Live

end SyncPaxos.Packets
