import SyncPaxos.Packets.Writing
import Mathlib.Tactic.Common

/-!
# Operations — what an operation does to a buffer, and to no other

Each operation succeeds on the buffers that exist, gives the bytes that its name promises and leaves the
bytes of every other buffer alone, as long as no buffer gets more than `2 ^ 30` bytes and there are not
too many of them.
-/

namespace SyncPaxos.Packets

open Window

variable {m m' : Memory} {l : List Buffer} {b b' o : Buffer} {d : Data} {old bs : List UInt8} {n : ℕ}

namespace Live

/-! ## Life of a buffer -/

theorem initializeZero (garbage : ℕ → ℕ → UInt8) (h : Live m l) (hn : n ≤ 2 ^ 30) :
    ∃ b m', Buffer.initializeZero garbage n m = some (b, m') ∧
      Holds m l (List.replicate n 0) b m' ∧ b.zeroAreaStart = b.start ∧ b.zeroAreaEnd = b.start + n := by
  rcases h.create garbage (Nat.zero_le _) with ⟨a, d, m₁, hcreate, hd, hcount, -, hlive, hkeeps⟩
  have hlt := hlive.size_lt a d hd
  have hsum : u32 (min d.size m₁.recommendedStart + n) = min d.size m₁.recommendedStart + n :=
    u32_eq (by omega)
  have hsound : Sound
      { data := a
        maxZeroAreaStart := min d.size m₁.recommendedStart
        zeroAreaStart := min d.size m₁.recommendedStart
        zeroAreaEnd := min d.size m₁.recommendedStart + n
        start := min d.size m₁.recommendedStart
        end_ := min d.size m₁.recommendedStart + n }
      { d with
        dirtyStart := min d.size m₁.recommendedStart
        dirtyEnd := min d.size m₁.recommendedStart + n } := by
    refine ⟨⟨le_rfl, Nat.le_add_right _ _, le_rfl⟩, le_rfl, le_rfl, ?_⟩
    simp only [Buffer.storedEnd]
    omega
  rcases hlive.settle hd hcount hsound hcount rfl rfl with ⟨hlive', hkeeps', hcontents⟩
  simp only [Buffer.initializeZero, hcreate, hd, hsum, Option.bind_eq_bind, Option.bind_some,
    Option.pure_def]
  refine ⟨_, _, rfl, ⟨hlive', hkeeps.trans hkeeps', hcontents.trans (congrArg some ?_)⟩, rfl, rfl⟩
  simp only [Buffer.contents, Nat.sub_self, Nat.add_sub_cancel_left, Window.window_zero,
    List.nil_append, List.append_nil]

theorem copy (h : Live m l) (hfew : l.length + 1 < 2 ^ 32) (hb : b ∈ l)
    (hold : m.contents b = some old) :
    ∃ b' m', b.copy m = some (b', m') ∧ Holds m l old b' m' ∧ b'.start = b.start ∧
      b'.zeroAreaStart = b.zeroAreaStart ∧ b'.zeroAreaEnd = b.zeroAreaEnd ∧ b'.end_ = b.end_ := by
  have hperm := List.perm_cons_erase hb
  have hlength := hperm.length_eq
  rw [List.length_cons] at hlength
  rcases (h.perm hperm).retain (by omega) { b with maxZeroAreaStart := b.zeroAreaStart } rfl rfl rfl
    rfl rfl with ⟨m', hretain, hlive, hkeeps, hcontents⟩
  refine ⟨_, m', by simp only [Buffer.copy, hretain, Option.bind_eq_bind, Option.bind_some,
    Option.pure_def], ⟨hlive.perm (hperm.symm.cons _), ?_, hcontents.trans hold⟩, rfl, rfl, rfl, rfl⟩
  exact fun c hc => hkeeps c (hperm.mem_iff.1 hc)

theorem destroy (h : Live m (b :: l)) (hfew : l.length + 1 < 2 ^ 32) :
    ∃ m', b.destroy m = some m' ∧ Live m' l ∧ Keeps l m m' := by
  rcases (h.setRecommended (max m.recommendedStart b.maxZeroAreaStart)).release hfew with
    ⟨m', hrelease, hlive, hkeeps, -⟩
  exact ⟨m', hrelease, hlive, hkeeps⟩

/-- Assignment gives the bytes of another buffer, which may share the block or not. -/
theorem assign (h : Live m (b :: l)) (hfew : l.length + 1 < 2 ^ 32) (ho : o ∈ l)
    (hold : m.contents o = some old) :
    ∃ m', b.assign o m = some (o, m') ∧ Holds m l old o m' := by
  have hperm := List.perm_cons_erase ho
  have hlength := hperm.length_eq
  rw [List.length_cons] at hlength
  have hlive := h.perm (hperm.cons b)
  by_cases hdata : b.data = o.data
  · rcases h.block b List.mem_cons_self with ⟨d, hd⟩
    have hs := hlive.shared _ d hd
    rw [users_cons_self, users_cons_of_eq hdata.symm] at hs
    have hcount : d.count - 1 + 1 = d.count := Nat.sub_add_cancel (h.count_pos List.mem_cons_self hd)
    have hs' := hs.release.retain o rfl rfl rfl rfl
    simp only [hcount] at hs'
    rw [← users_cons_of_eq hdata.symm] at hs'
    have hlive' := hlive.update hd hdata.symm rfl hs'
    rw [Memory.put_self hd] at hlive'
    refine ⟨{ m with recommendedStart := max m.recommendedStart b.maxZeroAreaStart }, ?_,
      ⟨?_, fun _ _ => rfl, hold⟩⟩
    · simp only [Buffer.assign, hdata, ne_eq, not_true, if_false, Option.bind_eq_bind,
        Option.bind_some, Option.pure_def]
    · exact (hlive'.perm (hperm.symm.cons o)).setRecommended _
  · rcases hlive.release (by rw [List.length_cons]; omega) with ⟨m₁, hrelease, hlive₁, hkeeps₁, -⟩
    rcases hlive₁.retain (by omega) o rfl rfl rfl rfl rfl with
      ⟨m₂, hretain, hlive₂, hkeeps₂, hcontents⟩
    refine ⟨{ m₂ with recommendedStart := max m₂.recommendedStart b.maxZeroAreaStart }, ?_,
      ⟨?_, ?_, ?_⟩⟩
    · simp only [Buffer.assign, ne_eq, hdata, not_false_eq_true, if_true, hrelease, hretain,
        Option.bind_eq_bind, Option.bind_some, Option.pure_def]
    · exact (hlive₂.perm (hperm.symm.cons o)).setRecommended _
    · exact fun c hc => (hkeeps₁.trans hkeeps₂) c (hperm.mem_iff.1 hc)
    · exact hcontents.trans ((hkeeps₁ o List.mem_cons_self).trans hold)

/-! ## Less of a buffer -/

theorem narrow (h : Live m (b :: l)) (hn : Buffer.Narrowed n b b') : Live m (b' :: l) := by
  rcases h.block b List.mem_cons_self with ⟨d, hd⟩
  have hs := h.shared _ d hd
  have hsound := h.sound List.mem_cons_self hd
  rw [users_cons_self] at hs
  have hlive := h.update hd hn.data_eq rfl (hs.shrink ⟨hn.toOrdered, hsound.dirtyStart_le.trans hn.start_ge,
    hn.end_le_end.trans hsound.le_dirtyEnd, hn.storedEnd_le.trans hsound.storedEnd_le⟩
    hn.end_le_end hn.storedEnd_le hn.storedEnd_eq)
  rwa [Memory.put_self hd] at hlive

theorem removeAtStart (h : Live m (b :: l)) (hold : m.contents b = some old)
    (hlength : old.length ≤ 2 ^ 30) (hn : n ≤ 2 ^ 30) :
    ∃ b', b.removeAtStart n = some b' ∧ Holds m l (old.drop n) b' m := by
  have hordered := h.ordered List.mem_cons_self
  rcases Buffer.removeAtStart_narrowed (h.small List.mem_cons_self hold hlength) hn with
    ⟨b', hremove, hnarrowed, hsize⟩
  rcases h.block b List.mem_cons_self with ⟨d, hd⟩
  rw [Memory.contents_of_block hd] at hold
  cases hold
  refine ⟨b', hremove, h.narrow hnarrowed, fun _ _ => rfl, ?_⟩
  rw [Memory.contents_of_block ((congrArg _ hnarrowed.data_eq).trans hd),
    hnarrowed.contents_drop hordered hsize]

theorem removeAtEnd (h : Live m (b :: l)) (hold : m.contents b = some old)
    (hlength : old.length ≤ 2 ^ 30) (n : ℕ) :
    Holds m l (old.take (old.length - n)) (b.removeAtEnd n) m := by
  have hordered := h.ordered List.mem_cons_self
  rcases Buffer.removeAtEnd_narrowed (h.small List.mem_cons_self hold hlength) n with
    ⟨hnarrowed, hsize⟩
  rcases h.block b List.mem_cons_self with ⟨d, hd⟩
  rw [Memory.contents_of_block hd] at hold
  cases hold
  refine ⟨h.narrow hnarrowed, fun _ _ => rfl, ?_⟩
  rw [Memory.contents_of_block ((congrArg _ hnarrowed.data_eq).trans hd),
    hnarrowed.contents_take hordered hsize, Buffer.length_contents hordered]

/-! ## More of a buffer -/

theorem addHeader (garbage : ℕ → ℕ → UInt8) (h : Live m (b :: l)) (hfew : l.length < 2 ^ 31)
    (hold : m.contents b = some old) (hlength : old.length + bs.length ≤ 2 ^ 30) :
    ∃ b' m', b.addHeader garbage bs m = some (b', m') ∧ Holds m l (bs ++ old) b' m' := by
  rcases h.fillFront garbage hfew hold hlength with
    ⟨b', m', d, hadd, hd, hlive, hb, -, hroom, -, hfill⟩
  have hs := hlive.sound List.mem_cons_self hd
  refine ⟨b', _, ?_, hfill bs rfl⟩
  simp only [Buffer.addHeader, hadd, Buffer.writeU8_front hs hd hb hroom, Option.bind_eq_bind,
    Option.bind_some, Option.pure_def]

theorem addTrailer (garbage : ℕ → ℕ → UInt8) (h : Live m (b :: l)) (hfew : l.length < 2 ^ 31)
    (hold : m.contents b = some old) (hlength : old.length + bs.length ≤ 2 ^ 30) :
    ∃ b' m', b.addTrailer garbage bs m = some (b', m') ∧ Holds m l (old ++ bs) b' m' := by
  rcases h.fillBack garbage hfew hold hlength with
    ⟨b', m', d, hadd, hd, hlive, hb, -, hroom, -, hfill⟩
  have hs := hlive.sound List.mem_cons_self hd
  refine ⟨b', _, ?_, hfill bs rfl⟩
  simp only [Buffer.addTrailer, hadd, guard, if_pos ((Nat.le_add_left _ _).trans hroom),
    Buffer.writeU8_back hs hd hb hroom, Option.bind_eq_bind, Option.bind_some, Option.pure_def]

theorem ofArray (garbage : ℕ → ℕ → UInt8) (h : Live m l) (hfew : l.length < 2 ^ 31)
    (hlength : bs.length ≤ 2 ^ 30) :
    ∃ b m', Buffer.ofArray garbage bs m = some (b, m') ∧ Holds m l bs b m' := by
  rcases h.initializeZero garbage (Nat.zero_le _) with ⟨b, m₁, hinit, hb, -⟩
  rcases hb.live.fillFront garbage hfew hb.contents ((Nat.zero_add _).trans_le hlength) with
    ⟨b', m', d, hadd, hd, hlive, -, -, hroom, -, hfill⟩
  have hs := hlive.sound List.mem_cons_self hd
  have hholds := hfill bs rfl
  refine ⟨b', _, ?_, ⟨hholds.live, hb.keeps.trans hholds.keeps, ?_⟩⟩
  · simp only [Buffer.ofArray, hinit, hadd, Buffer.writeArray_front hs hd bs hroom,
      Option.bind_eq_bind, Option.bind_some, Option.pure_def]
  · rw [hholds.contents, List.replicate_zero, List.append_nil]

/-- A copy whose bytes are all stored. -/
theorem createFullCopy (garbage : ℕ → ℕ → UInt8) (h : Live m l) (hfew : l.length < 2 ^ 31)
    (hb : b ∈ l) (hold : m.contents b = some old) (hlength : old.length ≤ 2 ^ 30) :
    ∃ b' m', b.createFullCopy garbage m = some (b', m') ∧ Holds m l old b' m' ∧
      b'.zeroAreaStart = b'.zeroAreaEnd := by
  have hordered := h.ordered hb
  have hsmall := h.small hb hold hlength
  have hlt := hsmall.end_lt
  have hzeroSize := hsmall.zeroSize_eq
  rcases h.contents hb with ⟨old', hold', hsize⟩
  cases hold.symm.trans hold'
  rw [Buffer.size] at hsize
  rcases hordered with ⟨hstart, hzero, hend⟩
  have hdataStart : minus b.zeroAreaStart b.start = b.zeroAreaStart - b.start :=
    minus_eq hstart (by omega)
  have hdataEnd : minus b.end_ b.zeroAreaEnd = b.end_ - b.zeroAreaEnd := minus_eq hend (by omega)
  by_cases hzeros : b.zeroAreaEnd - b.zeroAreaStart ≠ 0
  · rcases h.initializeZero garbage (Nat.zero_le _) with ⟨t₀, m₁, hinit, h₁, hz₀, hz₀'⟩
    -- The zeros,
    rcases h₁.live.fillFront garbage (n := b.zeroAreaEnd - b.zeroAreaStart) hfew h₁.contents
      (by rw [List.length_replicate]; omega) with
      ⟨t₁, m₂, d₂, hadd₁, hd₂, hlive₂, hb₂, -, hroom₂, hwidth₁, hfill₁⟩
    have hs₂ := hlive₂.sound List.mem_cons_self hd₂
    have h₃ := hfill₁ (List.replicate (b.zeroAreaEnd - b.zeroAreaStart) 0) List.length_replicate
    rw [List.replicate_zero, List.append_nil] at h₃
    -- what is stored in front of them
    rcases h₃.live.fillFront garbage (n := b.zeroAreaStart - b.start) hfew h₃.contents
      (by rw [List.length_replicate]; omega) with
      ⟨t₂, m₄, d₄, hadd₂, hd₄, hlive₄, hb₄, hkeeps₄, hroom₄, hwidth₂, hfill₂⟩
    have hs₄ := hlive₄.sound List.mem_cons_self hd₄
    rcases ((h₁.keeps.trans h₃.keeps).trans hkeeps₄).block hb hold with ⟨e₄, he₄, hold₄⟩
    have h₅ := hfill₂ (window e₄.bytes b.start (b.zeroAreaStart - b.start)) (length_window ..)
    -- and what is stored behind.
    rcases h₅.live.fillBack garbage (n := b.end_ - b.zeroAreaEnd) hfew h₅.contents
      (by rw [List.length_append, length_window, List.length_replicate]; omega) with
      ⟨t₃, m₆, d₆, hadd₃, hd₆, hlive₆, hb₆, hkeeps₆, hroom₆, hwidth₃, hfill₃⟩
    have hs₆ := hlive₆.sound List.mem_cons_self hd₆
    rcases (((h₁.keeps.trans h₃.keeps).trans h₅.keeps).trans hkeeps₆).block hb hold with
      ⟨e₆, he₆, hold₆⟩
    have h₇ := hfill₃ (window e₆.bytes b.zeroAreaStart (b.end_ - b.zeroAreaEnd)) (length_window ..)
    have hload₄ := (hlive₄.sound (List.mem_cons_of_mem _ hb) he₄).load_front
    have hload₆ := (hlive₆.sound (List.mem_cons_of_mem _ hb) he₆).load_back
    have hwrite₄ := Buffer.writeArray_front hs₄ hd₄
      (window e₄.bytes b.start (b.zeroAreaStart - b.start)) (by rwa [length_window])
    have hwrite₆ := Buffer.writeArray_back hs₆ hd₆ hb₆
      (window e₆.bytes b.zeroAreaStart (b.end_ - b.zeroAreaEnd)) (by rwa [length_window])
    refine ⟨t₃, _, ?_, ⟨h₇.live, ((h₁.keeps.trans h₃.keeps).trans h₅.keeps).trans h₇.keeps, ?_⟩, ?_⟩
    · rw [length_window] at hwrite₆
      simp only [Buffer.createFullCopy, hzeroSize, hdataStart, hdataEnd, if_pos hzeros, hinit, hadd₁,
        Buffer.writeU8Len_front hs₂ hd₂ hb₂ hroom₂, hadd₂, he₄, hload₄, hwrite₄, hadd₃, he₆, hload₆,
        hwrite₆, guard,
        if_pos (show t₃.end_ ≥ b.end_ - b.zeroAreaEnd from (Nat.le_add_left _ _).trans hroom₆),
        Option.bind_eq_bind, Option.bind_some, Option.pure_def, length_window]
    · have hsame := hold₄.trans hold₆.symm
      rw [Buffer.contents, Buffer.contents] at hsame
      rcases List.append_inj' hsame (by rw [length_window, length_window]) with ⟨-, hback⟩
      rw [h₇.contents, ← hold₄, Buffer.contents, hback]
    · have hordered' := h₇.live.ordered List.mem_cons_self
      have hle := hordered'.zero_le
      omega
  · rcases h.copy (by omega) hb hold with ⟨b', m', hcopy, hholds, -, hstart, hend, -⟩
    refine ⟨b', m', ?_, hholds, by omega⟩
    rw [Buffer.createFullCopy, hzeroSize, if_neg hzeros, hcopy]

theorem transformIntoRealBuffer (garbage : ℕ → ℕ → UInt8) (h : Live m (b :: l))
    (hfew : l.length + 1 < 2 ^ 31) (hold : m.contents b = some old) (hlength : old.length ≤ 2 ^ 30) :
    ∃ b' m', b.transformIntoRealBuffer garbage m = some (b', m') ∧ Holds m l old b' m' ∧
      b'.zeroAreaStart = b'.zeroAreaEnd := by
  rcases h.createFullCopy garbage hfew List.mem_cons_self hold hlength with
    ⟨tmp, m₁, hcopy, h₁, hreal⟩
  have hfew' : (tmp :: l).length + 1 < 2 ^ 32 := by
    rw [List.length_cons]
    omega
  rcases (h₁.live.perm (.swap _ _ _)).assign hfew' List.mem_cons_self h₁.contents with
    ⟨m₂, hassign, h₂⟩
  rcases h₂.live.destroy hfew' with ⟨m₃, hdestroy, hlive₃, hkeeps₃⟩
  refine ⟨tmp, m₃, ?_, ⟨hlive₃, ?_, ?_⟩, hreal⟩
  · simp only [Buffer.transformIntoRealBuffer, hcopy, hassign, hdestroy, Option.bind_eq_bind,
      Option.bind_some, Option.pure_def]
  · exact ((h₁.keeps.mono (List.subset_cons_self _ _)).trans
      (h₂.keeps.mono (List.subset_cons_self _ _))).trans (hkeeps₃.mono (List.subset_cons_self _ _))
  · exact (hkeeps₃ tmp List.mem_cons_self).trans h₂.contents

/-- The bytes of a real buffer are next to each other. -/
theorem peekData (garbage : ℕ → ℕ → UInt8) (h : Live m (b :: l)) (hfew : l.length + 1 < 2 ^ 31)
    (hold : m.contents b = some old) (hlength : old.length ≤ 2 ^ 30) :
    ∃ b' m', b.peekData garbage m = some (b', m', old) ∧ Holds m l old b' m' := by
  rcases h.transformIntoRealBuffer garbage hfew hold hlength with
    ⟨b', m', htransform, hholds, hreal⟩
  have hgetSize := (hholds.live.small List.mem_cons_self hholds.contents hlength).getSize_eq
  rcases hholds.live.block b' List.mem_cons_self with ⟨d, hd⟩
  have hroom := (hholds.live.sound List.mem_cons_self hd).storedEnd_le
  have hordered := hholds.live.ordered List.mem_cons_self
  have hsize : b'.size = b'.zeroAreaStart - b'.start + (b'.end_ - b'.zeroAreaEnd) := by
    rcases hordered with ⟨hstart, hzero, hend⟩
    rw [Buffer.size]
    omega
  have hbytes : window d.bytes b'.start b'.size = old := by
    have hcontents := hholds.contents
    rw [Memory.contents_of_block hd, Buffer.contents, ← hreal, Nat.sub_self, List.replicate_zero,
      List.append_nil] at hcontents
    rw [hsize, window_add, Nat.add_sub_cancel' hordered.start_le, ← hreal]
    exact Option.some.inj hcontents
  refine ⟨b', m', ?_, hholds⟩
  have hle : b'.start + b'.size ≤ d.size := by
    rw [Buffer.storedEnd, hreal, Nat.sub_self] at hroom
    rcases hordered with ⟨hstart, hzero, hend⟩
    rw [Buffer.size]
    omega
  simp only [Buffer.peekData, htransform, hd, hgetSize, Data.load_eq hle, hbytes,
    Option.bind_eq_bind, Option.bind_some, Option.pure_def]

/-! ## Fragments -/

theorem createFragment {start length : ℕ} (h : Live m l) (hfew : l.length + 1 < 2 ^ 32) (hb : b ∈ l)
    (hold : m.contents b = some old) (hlength : old.length ≤ 2 ^ 30)
    (hle : start + length ≤ old.length) :
    ∃ b' m', b.createFragment start length m = some (b', m') ∧
      Holds m l ((old.drop start).take length) b' m' := by
  have hgetSize := (h.small hb hold hlength).getSize_eq
  rcases h.contents hb with ⟨old', hold', hsize⟩
  cases hold.symm.trans hold'
  rcases h.copy hfew hb hold with ⟨t, m₁, hcopy, h₁, -⟩
  rcases h₁.live.removeAtStart h₁.contents hlength (show start ≤ 2 ^ 30 by omega) with
    ⟨t', hremove, h₂⟩
  have h₃ := h₂.live.removeAtEnd h₂.contents (by rw [List.length_drop]; omega)
    (b.size - (start + length))
  have hkept : (old.drop start).length - (b.size - (start + length)) = length := by
    rw [List.length_drop]
    omega
  rw [hkept] at h₃
  refine ⟨_, m₁, ?_, ⟨h₃.live, h₁.keeps, h₃.contents⟩⟩
  simp only [Buffer.createFragment, hcopy, hremove, hgetSize,
    u32_eq (show start + length < 2 ^ 32 by omega),
    minus_eq (show start + length ≤ b.size by omega) (show b.size < 2 ^ 32 by omega),
    Option.bind_eq_bind, Option.bind_some, Option.pure_def]

theorem fragment {start length : ℕ} (h : Live m l) (hfew : l.length + 2 < 2 ^ 32) (hb : b ∈ l)
    (hold : m.contents b = some old) (hlength : old.length ≤ 2 ^ 30)
    (hle : start + length ≤ old.length) :
    ∃ b' m', b.fragment start length m = some (b', m') ∧
      Holds m l ((old.drop start).take length) b' m' := by
  have hgetSize := (h.small hb hold hlength).getSize_eq
  rcases h.contents hb with ⟨old', hold', hsize⟩
  cases hold.symm.trans hold'
  have hguard : b.getSize ≥ u32 (start + length) := by
    rw [hgetSize, u32_eq (by omega)]
    omega
  rcases h.createFragment (by omega) hb hold hlength hle with ⟨t, m₁, hcreate, h₁⟩
  rcases h₁.live.copy (by rwa [List.length_cons]) List.mem_cons_self h₁.contents with
    ⟨c, m₂, hcopy, h₂, -⟩
  rcases (h₂.live.perm (.swap _ _ _)).destroy (by rwa [List.length_cons]) with
    ⟨m₃, hdestroy, hlive₃, hkeeps₃⟩
  refine ⟨c, m₃, ?_, ⟨hlive₃, ?_, (hkeeps₃ c List.mem_cons_self).trans h₂.contents⟩⟩
  · simp only [Buffer.fragment, hcreate, guard, if_pos hguard, hcopy, hdestroy,
      Option.bind_eq_bind, Option.bind_some, Option.pure_def]
  · exact (h₁.keeps.trans (h₂.keeps.mono (List.subset_cons_self _ _))).trans
      (hkeeps₃.mono (List.subset_cons_self _ _))

/-! ## Reading -/

theorem removeHeader (h : Live m (b :: l)) (hold : m.contents b = some old)
    (hlength : old.length ≤ 2 ^ 30) (hn : n ≤ old.length) :
    ∃ b', b.removeHeader n m = some (b', old.take n) ∧ Holds m l (old.drop n) b' m := by
  have hsmall := h.small List.mem_cons_self hold hlength
  rcases h.removeAtStart hold hlength (hn.trans hlength) with ⟨b', hremove, hholds⟩
  refine ⟨b', ?_, hholds⟩
  rcases h.block b List.mem_cons_self with ⟨d, hd⟩
  have hroom := (h.sound List.mem_cons_self hd).storedEnd_le
  rw [Memory.contents_of_block hd] at hold
  cases hold
  rw [Buffer.length_contents hsmall.toOrdered] at hn
  have hread := Buffer.read_eq hsmall hroom hd n 0 (by omega)
  rw [Nat.add_zero, List.drop_zero] at hread
  simp only [Buffer.removeHeader, hread, hremove, Option.bind_eq_bind, Option.bind_some,
    Option.pure_def]

theorem removeTrailer (h : Live m (b :: l)) (hold : m.contents b = some old)
    (hlength : old.length ≤ 2 ^ 30) (hn : n ≤ old.length) :
    b.removeTrailer n m = some (b.removeAtEnd n, old.drop (old.length - n)) := by
  have hsmall := h.small List.mem_cons_self hold hlength
  rcases h.block b List.mem_cons_self with ⟨d, hd⟩
  have hroom := (h.sound List.mem_cons_self hd).storedEnd_le
  rw [Memory.contents_of_block hd] at hold
  cases hold
  have hcontents := Buffer.length_contents hsmall.toOrdered d.bytes
  have hsize : b.size = b.end_ - b.start := rfl
  have hread := Buffer.read_eq hsmall hroom hd n (b.size - n) (by omega)
  have hcurrent : b.start + (b.size - n) = b.end_ - n := by
    rcases hsmall.toOrdered with ⟨hstart, hzero, hend⟩
    omega
  rw [hcurrent, List.take_of_length_le (by rw [List.length_drop]; omega), ← hcontents] at hread
  simp only [Buffer.removeTrailer, guard, if_pos (show b.end_ ≥ n by omega), hread,
    Option.bind_eq_bind, Option.bind_some, Option.pure_def]

theorem copyData (h : Live m l) (hb : b ∈ l) (hold : m.contents b = some old)
    (hlength : old.length ≤ 2 ^ 30) (n : ℕ) : b.copyData n m = some (old.take n) := by
  have hsmall := h.small hb hold hlength
  rcases h.block b hb with ⟨d, hd⟩
  have hroom := (h.sound hb hd).storedEnd_le
  rw [Memory.contents_of_block hd] at hold
  cases hold
  exact Buffer.copyData_eq hsmall hroom hd n

end Live

/-! ## What fails -/

namespace Buffer

theorem removeHeader_eq_none (h : Small b) (hn : b.size < n) : b.removeHeader n m = none := by
  cases n with
  | zero => exact absurd hn (Nat.not_lt_zero _)
  | succ n =>
      have hsize : b.size = b.end_ - b.start := rfl
      rw [Buffer.removeHeader, read_eq_none h n b.start (by omega)]
      rfl

theorem removeTrailer_eq_none (h : Small b) (hn : b.size < n) : b.removeTrailer n m = none := by
  rw [Buffer.removeTrailer]
  by_cases hle : b.end_ ≥ n
  · cases n with
    | zero => exact absurd hn (Nat.not_lt_zero _)
    | succ n =>
        have hsize : b.size = b.end_ - b.start := rfl
        rw [guard, if_pos hle, read_eq_none h n _ (.inl (by omega))]
        rfl
  · rw [guard, if_neg hle]
    rfl

end Buffer

theorem Live.fragment_eq_none {start length : ℕ} (h : Live m l) (hfew : l.length + 1 < 2 ^ 32)
    (hb : b ∈ l) (hold : m.contents b = some old) (hlength : old.length ≤ 2 ^ 30)
    (hstart : start ≤ 2 ^ 30) (hlt' : length ≤ 2 ^ 30) (hlt : old.length < start + length) :
    b.fragment start length m = none := by
  have hgetSize := (h.small hb hold hlength).getSize_eq
  rcases h.contents hb with ⟨old', hold', hsize⟩
  cases hold.symm.trans hold'
  rcases h.copy hfew hb hold with ⟨t, m₁, hcopy, h₁, -⟩
  rcases h₁.live.removeAtStart h₁.contents hlength hstart with ⟨t', hremove, -⟩
  have hnot : ¬ b.getSize ≥ u32 (start + length) := by
    rw [hgetSize, u32_eq (by omega)]
    omega
  simp only [Buffer.fragment, Buffer.createFragment, hcopy, hremove, guard, if_neg hnot,
    Option.bind_eq_bind, Option.bind_some, Option.pure_def]
  rfl

end SyncPaxos.Packets
