import SyncPaxos.Model.PacketPool
import SyncPaxos.Packets.Operations
import Mathlib.Tactic.Common

/-!
# Refinement — packets are independent strings of bytes

A program cannot tell packets that share blocks from strings that it owns: it reads the same bytes and
fails at the same operations, whatever fresh memory holds.  Along the way, the blocks count their users.

The offsets of a large packet wrap, and with them what it shows.  `Strings.Bounded` is about the strings
alone: it says that no program that meets it makes an offset wrap.
-/

namespace SyncPaxos.Packets

variable {p : Pool} {l : List Buffer} {b b' : Buffer} {bs old : List UInt8} {i j : ℕ} {m' : Memory}

/-! ## Strings -/

/-- The packets of a program, as strings. -/
abbrev Strings := List (Option (List UInt8))

namespace Strings

def apply : Op → Strings → Option (Strings × List UInt8)
  | .create size, s => some (s ++ [some (List.replicate size 0)], [])
  | .ofArray bs, s => some (s ++ [some bs], [])
  | .copy i, s => do
      let x ← Slots.get s i
      return (s ++ [some x], [])
  | .assign i j, s => do
      let _ ← Slots.get s i
      let y ← Slots.get s j
      return (s.set i (some y), [])
  | .destroy i, s => do
      let _ ← Slots.get s i
      return (s.set i none, [])
  | .addHeader i bs, s => do
      let x ← Slots.get s i
      return (s.set i (some (bs ++ x)), [])
  | .removeHeader i size, s => do
      let x ← Slots.get s i
      guard (size ≤ x.length)
      return (s.set i (some (x.drop size)), x.take size)
  | .addTrailer i bs, s => do
      let x ← Slots.get s i
      return (s.set i (some (x ++ bs)), [])
  | .removeTrailer i size, s => do
      let x ← Slots.get s i
      guard (size ≤ x.length)
      return (s.set i (some (x.take (x.length - size))), x.drop (x.length - size))
  | .removeAtStart i size, s => do
      let x ← Slots.get s i
      return (s.set i (some (x.drop size)), [])
  | .removeAtEnd i size, s => do
      let x ← Slots.get s i
      return (s.set i (some (x.take (x.length - size))), [])
  | .createFragment i start length, s => do
      let x ← Slots.get s i
      guard (start + length ≤ x.length)
      return (s ++ [some ((x.drop start).take length)], [])
  | .copyData i size, s => do
      let x ← Slots.get s i
      return (s, x.take size)
  | .peekData i, s => do
      let x ← Slots.get s i
      return (s, x)

def run : List Op → Strings → Option (Strings × List (List UInt8))
  | [], s => some (s, [])
  | op :: ops, s => do
      let (s, bs) ← apply op s
      let (s, outputs) ← run ops s
      return (s, bs :: outputs)

/-- The packets that exist are not too long and not too many. -/
def Fits (s : Strings) : Prop :=
  (∀ x ∈ s.reduceOption, x.length ≤ 2 ^ 30) ∧ s.reduceOption.length ≤ 2 ^ 30

instance (s : Strings) : Decidable s.Fits := inferInstanceAs (Decidable (_ ∧ _))

theorem Fits.length_le {s : Strings} {x : List UInt8} (h : Fits s) (hx : Slots.get s i = some x) :
    x.length ≤ 2 ^ 30 :=
  h.1 x (Slots.mem_of_get hx)

theorem Fits.append_le {s : Strings} {x : List UInt8} (h : Fits (s ++ [some x])) :
    x.length ≤ 2 ^ 30 :=
  h.1 x (List.reduceOption_mem_iff.2 (List.mem_append_right _ List.mem_cons_self))

theorem Fits.set_le {s : Strings} {x y : List UInt8} (h : Fits (s.set i (some y)))
    (hx : Slots.get s i = some x) : y.length ≤ 2 ^ 30 := by
  refine h.1 y (List.reduceOption_mem_iff.2 ?_)
  exact List.mem_set (List.getElem?_eq_some_iff.1 (Slots.get_eq_some.1 hx)).1 _

end Strings

/-- What is removed in front or cut out is named by offsets that are not too large. -/
def Op.Fits : Op → Prop
  | .removeAtStart _ size => size ≤ 2 ^ 30
  | .createFragment _ start length => start ≤ 2 ^ 30 ∧ length ≤ 2 ^ 30
  | _ => True

instance : DecidablePred Op.Fits := fun op => by
  cases op <;> unfold Op.Fits <;> infer_instance

namespace Strings

/-- Everything fits, from a state on and through a whole program. -/
def Bounded : List Op → Strings → Prop
  | [], s => s.Fits
  | op :: ops, s => s.Fits ∧ op.Fits ∧ ∀ r ∈ apply op s, Bounded ops r.1

instance decidableBounded : ∀ ops s, Decidable (Bounded ops s)
  | [], s => inferInstanceAs (Decidable s.Fits)
  | op :: ops, s =>
      have : ∀ r : Strings × List UInt8, Decidable (Bounded ops r.1) :=
        fun r => decidableBounded ops r.1
      inferInstanceAs (Decidable (s.Fits ∧ op.Fits ∧ ∀ r ∈ apply op s, Bounded ops r.1))

variable {s : Strings} {ops ops' : List Op}

theorem Bounded.fits (h : Bounded ops s) : Fits s := by
  cases ops with
  | nil => exact h
  | cons op ops => exact h.1

/-- The rest of a program is bounded. -/
theorem Bounded.append (h : Bounded (ops ++ ops') s) :
    Bounded ops s ∧ ∀ r ∈ run ops s, Bounded ops' r.1 := by
  induction ops generalizing s with
  | nil =>
      refine ⟨h.fits, ?_⟩
      rintro r hr
      cases hr
      exact h
  | cons op ops ih =>
      rcases h with ⟨hs, hop, hrest⟩
      refine ⟨⟨hs, hop, fun r hr => (ih (hrest r hr)).1⟩, ?_⟩
      intro r hr
      rcases Option.bind_eq_some_iff.1 hr with ⟨⟨s₁, bs⟩, happly, hr⟩
      rcases Option.bind_eq_some_iff.1 hr with ⟨⟨s₂, outputs⟩, hrun, hr⟩
      cases hr
      exact (ih (hrest _ happly)).2 (s₂, outputs) hrun

end Strings

/-! ## Pools -/

namespace Pool

def contents (p : Pool) : Strings := p.packets.map fun o => o.bind p.memory.contents

/-- The packets of the program are the buffers that exist. -/
def Valid (p : Pool) : Prop := Live p.memory p.packets.reduceOption

theorem get_contents (p : Pool) (i : ℕ) :
    Slots.get p.contents i = (Slots.get p.packets i).bind p.memory.contents := by
  rw [Slots.get, Slots.get, contents, List.getElem?_map]
  cases p.packets[i]? <;> rfl

/-- A new packet. -/
theorem add_holds (hb : Holds p.memory p.packets.reduceOption bs b m') :
    (p.add b m').Valid ∧ (p.add b m').contents = p.contents ++ [some bs] := by
  refine ⟨hb.live.perm ?_, ?_⟩
  · show List.Perm _ (p.packets ++ [some b]).reduceOption
    rw [List.reduceOption_append]
    exact (List.perm_append_singleton b _).symm
  · show (p.packets ++ [some b]).map _ = _
    rw [List.map_append]
    refine congrArg₂ _ (List.map_congr_left fun o ho => ?_) (congrArg (fun x => [x]) hb.contents)
    cases o with
    | none => rfl
    | some c => exact hb.keeps c (List.reduceOption_mem_iff.2 ho)

namespace Valid

theorem empty : Valid {} where
  block _ hb := by cases hb
  shared _ _ hd := by cases hd
  free a := by
    refine iff_of_false List.not_mem_nil ?_
    rintro ⟨d, hd, -⟩
    cases hd
  free_nodup := .nil
  free_length := Nat.zero_le _
  fresh _ _ := rfl
  size_lt _ _ hd := by cases hd

/-- A packet has bytes. -/
theorem get_some (h : p.Valid) (hb : Slots.get p.packets i = some b) :
    ∃ old, p.memory.contents b = some old ∧ Slots.get p.contents i = some old ∧
      b ∈ p.packets.reduceOption := by
  have hmem := Slots.mem_of_get hb
  rcases h.contents hmem with ⟨old, hold, -⟩
  exact ⟨old, hold, by rw [get_contents, hb, Option.bind_some, hold], hmem⟩

theorem length_eq (h : p.Valid) (hmem : b ∈ p.packets.reduceOption)
    (hold : p.memory.contents b = some old) : old.length = b.size := by
  rcases h.contents hmem with ⟨old', hold', hsize⟩
  cases hold.symm.trans hold'
  exact hsize

/-- There are as many packets as strings. -/
theorem length_reduceOption (h : p.Valid) :
    p.packets.reduceOption.length = p.contents.reduceOption.length := by
  have hsome : ∀ o ∈ p.packets, (o.bind p.memory.contents).isSome = o.isSome := by
    intro o ho
    cases o with
    | none => rfl
    | some b =>
        rcases h.contents (List.reduceOption_mem_iff.2 ho) with ⟨old, hold, -⟩
        rw [Option.bind_some, hold]
        rfl
  rw [List.reduceOption_length_eq, List.reduceOption_length_eq, Pool.contents, List.filter_map,
    List.length_map]
  exact congrArg List.length (List.filter_congr fun o ho => (hsome o ho).symm)

/-- The bytes of a packet fit. -/
theorem length_contents_le (h : p.Valid) (hfits : p.contents.Fits)
    (hmem : b ∈ p.packets.reduceOption) :
    ∃ old, p.memory.contents b = some old ∧ old.length ≤ 2 ^ 30 := by
  rcases h.contents hmem with ⟨old, hold, -⟩
  refine ⟨old, hold, hfits.1 old (List.reduceOption_mem_iff.2 ?_)⟩
  exact List.mem_map.2 ⟨some b, List.reduceOption_mem_iff.1 hmem, hold⟩

theorem length_le (h : p.Valid) (hfits : p.contents.Fits) : p.packets.reduceOption.length ≤ 2 ^ 30 :=
  h.length_reduceOption.trans_le hfits.2

/-- One packet and the others. -/
structure Slot (p : Pool) (i : ℕ) (b : Buffer) (l : List Buffer) : Prop where
  live : Live p.memory (b :: l)
  length_eq : p.packets.reduceOption.length = l.length + 1
  mem : ∀ j c, j ≠ i → Slots.get p.packets j = some c → c ∈ l
  set : ∀ bs b' m', Holds p.memory l bs b' m' →
    (p.set i (some b') m').Valid ∧ (p.set i (some b') m').contents = p.contents.set i (some bs)
  destroy : ∀ m', Live m' l → Keeps l p.memory m' →
    (p.set i none m').Valid ∧ (p.set i none m').contents = p.contents.set i none

theorem slot (h : p.Valid) (hb : Slots.get p.packets i = some b) : ∃ l, Slot p i b l := by
  rcases Slots.exists_perm_of_get hb with ⟨l, hperm, hset, hnone, hmem⟩
  have hcontents : ∀ (o : Option Buffer) m', Keeps l p.memory m' →
      (p.set i o m').contents = p.contents.set i (o.bind m'.contents) := by
    intro o m' hk
    refine List.ext_getElem? ?_
    intro j
    rw [Pool.contents, Pool.contents, Pool.set, List.getElem?_map]
    by_cases hj : j = i
    · subst hj
      rw [List.getElem?_set_self', List.getElem?_set_self', List.getElem?_map]
      cases p.packets[j]? <;> rfl
    · rw [List.getElem?_set_ne (Ne.symm hj), List.getElem?_set_ne (Ne.symm hj), List.getElem?_map]
      cases hslot : p.packets[j]? with
      | none => rfl
      | some c =>
          cases c with
          | none => rfl
          | some c => exact congrArg some (hk c (hmem j c hj (Slots.get_eq_some.2 hslot)))
  refine ⟨l, h.perm hperm, hperm.length_eq, hmem, ?_, ?_⟩
  · intro bs b' m' hholds
    refine ⟨hholds.live.perm (hset b').symm, ?_⟩
    rw [hcontents _ _ hholds.keeps]
    exact congrArg _ hholds.contents
  · intro m' hlive hkeeps
    exact ⟨hlive.perm hnone.symm, hcontents none m' hkeeps⟩

/-! ## One operation -/

/-- Both fail, or both read the same bytes and leave the same strings. -/
structure Matches (r : Option (Pool × List UInt8)) (r' : Option (Strings × List UInt8)) : Prop where
  map_eq : (r.map fun x => (x.1.contents, x.2)) = r'
  valid : ∀ x, r = some x → x.1.Valid

theorem Matches.failed : Matches none none := ⟨rfl, fun _ h => by cases h⟩

theorem Matches.done {q : Pool} {s : Strings} (h : q.Valid ∧ q.contents = s) (bs : List UInt8) :
    Matches (some (q, bs)) (some (s, bs)) := by
  refine ⟨congrArg (fun s => some (s, bs)) h.2, ?_⟩
  rintro x hx
  cases hx
  exact h.1

/-- An operation with the packet in slot `i`. -/
theorem bind_get {f : Buffer → Option (Pool × List UInt8)}
    {g : List UInt8 → Option (Strings × List UInt8)} (h : p.Valid) (i : ℕ)
    (hfg : ∀ b old, Slots.get p.packets i = some b → Slots.get p.contents i = some old →
      p.memory.contents b = some old → b ∈ p.packets.reduceOption → Matches (f b) (g old)) :
    Matches (Slots.get p.packets i >>= f) (Slots.get p.contents i >>= g) := by
  cases hb : Slots.get p.packets i with
  | none =>
      rw [get_contents, hb]
      exact .failed
  | some b =>
      rcases h.get_some hb with ⟨old, hold, hget, hmem⟩
      rw [hget]
      exact hfg b old hb hget hold hmem

theorem apply_matches (garbage : ℕ → ℕ → UInt8) (h : p.Valid) (hfits : p.contents.Fits) {op : Op}
    (hop : op.Fits) (hnext : ∀ r ∈ Strings.apply op p.contents, r.1.Fits) :
    Matches (p.apply garbage op) (Strings.apply op p.contents) := by
  have hfew := h.length_le hfits
  cases op with
  | create size =>
      have hsize := (hnext _ rfl).append_le
      rw [List.length_replicate] at hsize
      rcases h.initializeZero garbage hsize with ⟨b, m', hinit, hholds, -⟩
      simp only [Pool.apply, hinit, Option.bind_eq_bind, Option.bind_some, Option.pure_def]
      exact .done (add_holds hholds) []
  | ofArray bs =>
      rcases Live.ofArray garbage h (by omega) (hnext _ rfl).append_le with ⟨b, m', hinit, hholds⟩
      simp only [Pool.apply, hinit, Option.bind_eq_bind, Option.bind_some, Option.pure_def]
      exact .done (add_holds hholds) []
  | copy i =>
      refine h.bind_get i fun b old hb _ hold hmem => ?_
      rcases Live.copy h (by omega) hmem hold with ⟨c, m', hcopy, hholds, -⟩
      simp only [hcopy, Option.bind_eq_bind, Option.bind_some, Option.pure_def]
      exact .done (add_holds hholds) []
  | assign i j =>
      refine h.bind_get i fun b old hb hget hold hmem => ?_
      refine h.bind_get j fun o old' ho hget' hold' hmem' => ?_
      split
      · case isTrue hij =>
          -- Assignment to itself does nothing.
          subst hij
          cases hget.symm.trans hget'
          exact .done ⟨h, (Slots.set_of_get hget).symm⟩ []
      · case isFalse hij =>
          rcases h.slot hb with ⟨l, hs⟩
          have hlength := hs.length_eq
          rcases hs.live.assign (by omega) (hs.mem j o (Ne.symm hij) ho) hold' with
            ⟨m', hassign, hholds⟩
          simp only [hassign, Option.bind_eq_bind, Option.bind_some, Option.pure_def]
          exact .done (hs.set _ _ _ hholds) []
  | destroy i =>
      refine h.bind_get i fun b old hb _ _ _ => ?_
      rcases h.slot hb with ⟨l, hs⟩
      have hlength := hs.length_eq
      rcases hs.live.destroy (by omega) with ⟨m', hdestroy, hlive, hkeeps⟩
      simp only [hdestroy, Option.bind_eq_bind, Option.bind_some, Option.pure_def]
      exact .done (hs.destroy _ hlive hkeeps) []
  | addHeader i bs =>
      refine h.bind_get i fun b old hb hget hold _ => ?_
      rcases h.slot hb with ⟨l, hs⟩
      have hlength := hs.length_eq
      -- The header fits because the string with it does.
      have hsize := (hnext (_, _) (by rw [Strings.apply, hget]; rfl)).set_le hget
      rw [List.length_append, Nat.add_comm] at hsize
      rcases hs.live.addHeader garbage (by omega) hold hsize with ⟨c, m', hadd, hholds⟩
      simp only [hadd, Option.bind_eq_bind, Option.bind_some, Option.pure_def]
      exact .done (hs.set _ _ _ hholds) []
  | removeHeader i size =>
      refine h.bind_get i fun b old hb hget hold hmem => ?_
      rcases h.slot hb with ⟨l, hs⟩
      have hle := hfits.length_le hget
      by_cases hsize : size ≤ old.length
      · rcases hs.live.removeHeader hold hle hsize with ⟨c, hremove, hholds⟩
        rw [hremove, guard, if_pos hsize]
        exact .done (hs.set _ _ _ hholds) _
      · -- The header is read before it is removed, and reading stops at the end of the packet.
        have hlt := (h.length_eq hmem hold).symm.trans_lt (not_le.1 hsize)
        rw [Buffer.removeHeader_eq_none (Live.small h hmem hold hle) hlt, guard, if_neg hsize]
        exact .failed
  | addTrailer i bs =>
      refine h.bind_get i fun b old hb hget hold _ => ?_
      rcases h.slot hb with ⟨l, hs⟩
      have hlength := hs.length_eq
      have hsize := (hnext (_, _) (by rw [Strings.apply, hget]; rfl)).set_le hget
      rw [List.length_append] at hsize
      rcases hs.live.addTrailer garbage (by omega) hold hsize with ⟨c, m', hadd, hholds⟩
      simp only [hadd, Option.bind_eq_bind, Option.bind_some, Option.pure_def]
      exact .done (hs.set _ _ _ hholds) []
  | removeTrailer i size =>
      refine h.bind_get i fun b old hb hget hold hmem => ?_
      rcases h.slot hb with ⟨l, hs⟩
      have hle := hfits.length_le hget
      by_cases hsize : size ≤ old.length
      · rw [hs.live.removeTrailer hold hle hsize, guard, if_pos hsize]
        exact .done (hs.set _ _ _ (hs.live.removeAtEnd hold hle size)) _
      · have hlt := (h.length_eq hmem hold).symm.trans_lt (not_le.1 hsize)
        rw [Buffer.removeTrailer_eq_none (Live.small h hmem hold hle) hlt, guard, if_neg hsize]
        exact .failed
  | removeAtStart i size =>
      refine h.bind_get i fun b old hb hget hold _ => ?_
      rcases h.slot hb with ⟨l, hs⟩
      rcases hs.live.removeAtStart hold (hfits.length_le hget) hop with ⟨c, hremove, hholds⟩
      simp only [hremove, Option.bind_eq_bind, Option.bind_some, Option.pure_def]
      exact .done (hs.set _ _ _ hholds) []
  | removeAtEnd i size =>
      refine h.bind_get i fun b old hb hget hold _ => ?_
      rcases h.slot hb with ⟨l, hs⟩
      exact .done (hs.set _ _ _ (hs.live.removeAtEnd hold (hfits.length_le hget) size)) []
  | createFragment i start length =>
      refine h.bind_get i fun b old hb hget hold hmem => ?_
      have hsize := hfits.length_le hget
      by_cases hle : start + length ≤ old.length
      · rcases Live.fragment h (by omega) hmem hold hsize hle with ⟨c, m', hfragment, hholds⟩
        rw [hfragment, guard, if_pos hle]
        exact .done (add_holds hholds) []
      · -- The fragment has been cut when its size is checked.
        rw [Live.fragment_eq_none h (by omega) hmem hold hsize hop.1 hop.2 (not_le.1 hle), guard,
          if_neg hle]
        exact .failed
  | copyData i size =>
      refine h.bind_get i fun b old hb hget hold hmem => ?_
      rw [Live.copyData h hmem hold (hfits.length_le hget)]
      exact .done ⟨h, rfl⟩ _
  | peekData i =>
      refine h.bind_get i fun b old hb hget hold _ => ?_
      rcases h.slot hb with ⟨l, hs⟩
      have hlength := hs.length_eq
      rcases hs.live.peekData garbage (by omega) hold (hfits.length_le hget) with
        ⟨c, m', hpeek, hholds⟩
      simp only [hpeek, Option.bind_eq_bind, Option.bind_some, Option.pure_def]
      rcases hs.set _ _ _ hholds with ⟨hvalid, hcontents⟩
      exact .done ⟨hvalid, hcontents.trans (Slots.set_of_get hget)⟩ old

end Valid

end Pool

/-! ## Whole programs -/

theorem run_matches (garbage : ℕ → ℕ → UInt8) (ops : List Op) : ∀ {p : Pool}, p.Valid →
    Strings.Bounded ops p.contents →
    (p.run garbage ops).map (fun r => (r.1.contents, r.2)) = Strings.run ops p.contents ∧
      ∀ r, p.run garbage ops = some r → r.1.Valid := by
  induction ops with
  | nil =>
      intro p h _
      refine ⟨rfl, ?_⟩
      rintro r hr
      cases hr
      exact h
  | cons op ops ih =>
      rintro p h ⟨hfits, hfit, hrest⟩
      -- The operation fits, and so does what it leaves, from which the rest starts.
      have hop := h.apply_matches garbage hfits hfit fun r hr => (hrest r hr).fits
      cases happly : p.apply garbage op with
      | none =>
          have hspec := hop.map_eq
          rw [happly] at hspec
          simp only [Pool.run, Strings.run, happly, ← hspec, Option.map_none, Option.bind_eq_bind,
            Option.bind_none]
          exact ⟨trivial, fun _ hr => by cases hr⟩
      | some x =>
          have hspec := hop.map_eq
          rw [happly] at hspec
          rcases ih (hop.valid x happly) (hrest _ hspec.symm) with ⟨hrest, hvalid⟩
          simp only [Pool.run, Strings.run, happly, ← hspec, Option.map_some, Option.bind_eq_bind,
            Option.bind_some, ← hrest]
          cases hrun : x.1.run garbage ops with
          | none => exact ⟨rfl, fun _ hr => by cases hr⟩
          | some r =>
              refine ⟨rfl, ?_⟩
              rintro r' hr'
              cases hr'
              exact hvalid r hrun

/-- A bounded program leaves packets that fit. -/
theorem run_fits {garbage : ℕ → ℕ → UInt8} {ops ops' : List Op} {p' : Pool}
    {outputs : List (List UInt8)} (h : p.Valid) (hops : Strings.Bounded (ops ++ ops') p.contents)
    (hrun : p.run garbage ops = some (p', outputs)) : Strings.Bounded ops' p'.contents := by
  have hspec := (run_matches garbage ops h hops.append.1).1
  rw [hrun] at hspec
  exact hops.append.2 _ hspec.symm

/-- Whatever a bounded program does with its packets, and whatever fresh memory holds, it reads the bytes
that it would read from strings of its own, fails where it would fail and leaves the same bytes. -/
theorem packets_refine_strings (garbage : ℕ → ℕ → UInt8) {ops : List Op}
    (hops : Strings.Bounded ops []) :
    (Pool.run garbage ops {}).map (fun r => (r.1.contents, r.2)) = Strings.run ops [] :=
  (run_matches garbage ops Pool.Valid.empty hops).1

/-- A header is added to one of two copies, and more is removed from the other than it has. -/
theorem packets_refine_strings_copy :
    (Pool.run (fun _ _ => 7) [.ofArray [1, 2, 3], .copy 0, .addHeader 0 [9], .removeAtStart 1 5] {}).map
      (fun r => (r.1.contents, r.2)) = some ([some [9, 1, 2, 3], some []], [[], [], [], []]) :=
  packets_refine_strings _ (by decide)

/-- Beyond that, offsets wrap: removing `2 ^ 32 - 1` bytes puts back the one that was removed. -/
example : (Pool.run (fun _ _ => 7) [.ofArray [1, 2, 3], .removeAtStart 0 1,
    .removeAtStart 0 (2 ^ 32 - 1)] {}).map (fun r => r.1.contents) = some [some [1, 2, 3]] := by
  decide

/-- In every state of every bounded program, the internal state of each packet is consistent, each block counts
its users and the blocks without users are in the free list, once each and at most 1001 of them. -/
theorem blocks_accounted {garbage : ℕ → ℕ → UInt8} {ops : List Op} {outputs : List (List UInt8)}
    (hops : Strings.Bounded ops []) (h : Pool.run garbage ops {} = some (p, outputs)) :
    (∀ b ∈ p.packets.reduceOption,
      ∃ d, p.memory.blocks b.data = some d ∧ b.checkInternalState d = true) ∧
    (∀ a d, p.memory.blocks a = some d →
      d.count = p.packets.reduceOption.countP (·.data = a) ∧ (d.count = 0 ↔ a ∈ p.memory.freeList)) ∧
    (∀ a ∈ p.memory.freeList, ∃ d, p.memory.blocks a = some d) ∧
    p.memory.freeList.Nodup ∧ p.memory.freeList.length ≤ 1001 := by
  have hvalid : p.Valid := (run_matches garbage ops Pool.Valid.empty hops).2 _ h
  have hlive : Live p.memory p.packets.reduceOption := hvalid
  have hfits : p.contents.Fits :=
    run_fits Pool.Valid.empty (show Strings.Bounded (ops ++ []) [] by rwa [List.append_nil]) h
  refine ⟨?_, ?_, ?_, hlive.free_nodup, hlive.free_length⟩
  · intro b hb
    rcases hlive.block b hb with ⟨d, hd⟩
    rcases hvalid.length_contents_le hfits hb with ⟨old, hold, hlength⟩
    exact ⟨d, hd, (hlive.sound hb hd).checkInternalState (hlive.small hb hold hlength)
      (hlive.count_pos hb hd).ne'⟩
  · intro a d hd
    refine ⟨?_, ?_⟩
    · rw [(hlive.shared a d hd).count_eq, users, List.countP_eq_length_filter]
    · rw [hlive.free a]
      refine ⟨fun hcount => ⟨d, hd, hcount⟩, ?_⟩
      rintro ⟨e, he, hcount⟩
      cases hd.symm.trans he
      exact hcount
  · intro a ha
    rcases (hlive.free a).1 ha with ⟨d, hd, -⟩
    exact ⟨d, hd⟩

/-- Two packets share a block until one of them grows, and the block of the other is kept. -/
theorem blocks_accounted_shared :
    ∃ p outputs, Pool.run (fun _ _ => 7) [.ofArray [1, 2], .copy 0, .addHeader 1 [3], .addHeader 0 [4],
        .copy 0, .removeAtStart 2 2, .addTrailer 2 [5], .copyData 1 9, .destroy 1] {} =
        some (p, outputs) ∧
      p.contents = [some [4, 1, 2], none, some [2, 5]] ∧
      ∀ a d, p.memory.blocks a = some d → (d.count = 0 ↔ a ∈ p.memory.freeList) := by
  have hrun : ((Pool.run (fun _ _ => 7) [.ofArray [1, 2], .copy 0, .addHeader 1 [3],
      .addHeader 0 [4], .copy 0, .removeAtStart 2 2, .addTrailer 2 [5], .copyData 1 9, .destroy 1]
      {}).map fun r => (r.1.contents, r.2)) =
      some ([some [4, 1, 2], none, some [2, 5]], [[], [], [], [], [], [], [], [3, 1, 2], []]) := by
    decide
  rcases Option.map_eq_some_iff.1 hrun with ⟨⟨p, outputs⟩, hrun, heq⟩
  exact ⟨p, outputs, hrun, (Prod.ext_iff.1 heq).1,
    fun a d hd => ((blocks_accounted (by decide) hrun).2.1 a d hd).2⟩

/-! ## Isolation -/

namespace Op

/-- What an operation does to the bytes in slot `i`. -/
def act (i : ℕ) : Op → List UInt8 → List UInt8
  | .addHeader j bs, x => if j = i then bs ++ x else x
  | .removeHeader j size, x => if j = i then x.drop size else x
  | .addTrailer j bs, x => if j = i then x ++ bs else x
  | .removeTrailer j size, x => if j = i then x.take (x.length - size) else x
  | .removeAtStart j size, x => if j = i then x.drop size else x
  | .removeAtEnd j size, x => if j = i then x.take (x.length - size) else x
  | _, x => x

/-- The operation puts another packet into slot `i`, or none. -/
def Replaces (i : ℕ) : Op → Prop
  | .assign j _ => j = i
  | .destroy j => j = i
  | _ => False

instance (i : ℕ) : DecidablePred (Replaces i) := fun op => by
  cases op <;> unfold Replaces <;> infer_instance

end Op

namespace Strings

variable {s s' : Strings} {x : List UInt8}

theorem get_append (h : Slots.get s i = some x) (t : Strings) : Slots.get (s ++ t) i = some x := by
  rw [Slots.get_eq_some] at h ⊢
  rw [List.getElem?_append_left (List.getElem?_eq_some_iff.1 h).1, h]

/-- The bytes in slot `i`, after something was put into slot `j`. -/
theorem get_set (h : Slots.get s i = some x) (j : ℕ) (y : List UInt8) :
    Slots.get (s.set j (some y)) i = some (if j = i then y else x) := by
  rw [Slots.get_eq_some] at h ⊢
  by_cases hj : j = i
  · subst hj
    rw [if_pos rfl, List.getElem?_set_self (List.getElem?_eq_some_iff.1 h).1]
  · rw [if_neg hj, List.getElem?_set_ne hj, h]

theorem apply_get {op : Op} (hx : Slots.get s i = some x) (hop : ¬ op.Replaces i)
    (h : apply op s = some (s', bs)) : Slots.get s' i = some (op.act i x) := by
  -- The bytes that the operation changes are those of slot `i` if it is the slot of the operation.
  have hown : ∀ {j y}, Slots.get s j = some y → j = i → y = x := by
    rintro j y hy rfl
    exact Option.some.inj (hy.symm.trans hx)
  have hset : ∀ {j y z} (f : List UInt8 → List UInt8), Slots.get s j = some y → z = f y →
      Slots.get (s.set j (some z)) i = some (if j = i then f x else x) := by
    rintro j y z f hy rfl
    rw [get_set hx]
    split
    · case isTrue hj => rw [hown hy hj]
    · rfl
  cases op with
  | create size =>
      cases h
      exact get_append hx _
  | ofArray bs =>
      cases h
      exact get_append hx _
  | copy j =>
      rcases Option.bind_eq_some_iff.1 h with ⟨y, -, h⟩
      cases h
      exact get_append hx _
  | assign j k =>
      rcases Option.bind_eq_some_iff.1 h with ⟨y, -, h⟩
      rcases Option.bind_eq_some_iff.1 h with ⟨z, -, h⟩
      cases h
      rw [get_set hx, if_neg (show ¬ j = i from hop)]
      rfl
  | destroy j =>
      rcases Option.bind_eq_some_iff.1 h with ⟨y, -, h⟩
      cases h
      rw [Slots.get_eq_some] at hx ⊢
      rw [List.getElem?_set_ne hop]
      exact hx
  | addHeader j bs =>
      rcases Option.bind_eq_some_iff.1 h with ⟨y, hy, h⟩
      cases h
      exact hset (bs ++ ·) hy rfl
  | removeHeader j size =>
      rcases Option.bind_eq_some_iff.1 h with ⟨y, hy, h⟩
      rcases Option.bind_eq_some_iff.1 h with ⟨-, -, h⟩
      cases h
      exact hset (·.drop size) hy rfl
  | addTrailer j bs =>
      rcases Option.bind_eq_some_iff.1 h with ⟨y, hy, h⟩
      cases h
      exact hset (· ++ bs) hy rfl
  | removeTrailer j size =>
      rcases Option.bind_eq_some_iff.1 h with ⟨y, hy, h⟩
      rcases Option.bind_eq_some_iff.1 h with ⟨-, -, h⟩
      cases h
      exact hset (fun y => y.take (y.length - size)) hy rfl
  | removeAtStart j size =>
      rcases Option.bind_eq_some_iff.1 h with ⟨y, hy, h⟩
      cases h
      exact hset (·.drop size) hy rfl
  | removeAtEnd j size =>
      rcases Option.bind_eq_some_iff.1 h with ⟨y, hy, h⟩
      cases h
      exact hset (fun y => y.take (y.length - size)) hy rfl
  | createFragment j start length =>
      rcases Option.bind_eq_some_iff.1 h with ⟨y, -, h⟩
      rcases Option.bind_eq_some_iff.1 h with ⟨-, -, h⟩
      cases h
      exact get_append hx _
  | copyData j size =>
      rcases Option.bind_eq_some_iff.1 h with ⟨y, -, h⟩
      cases h
      exact hx
  | peekData j =>
      rcases Option.bind_eq_some_iff.1 h with ⟨y, -, h⟩
      cases h
      exact hx

theorem run_get {ops : List Op} {outputs : List (List UInt8)} (hx : Slots.get s i = some x)
    (hops : ∀ op ∈ ops, ¬ op.Replaces i) (h : run ops s = some (s', outputs)) :
    Slots.get s' i = some (ops.foldl (fun x op => op.act i x) x) := by
  induction ops generalizing s x outputs with
  | nil =>
      cases h
      exact hx
  | cons op ops ih =>
      rcases Option.bind_eq_some_iff.1 h with ⟨⟨s₁, bs⟩, happly, h⟩
      rcases Option.bind_eq_some_iff.1 h with ⟨⟨s₂, outputs'⟩, hrun, h⟩
      cases h
      exact ih (apply_get hx (hops op List.mem_cons_self) happly)
        (fun op' hop' => hops op' (List.mem_cons_of_mem _ hop')) hrun

end Strings

/-- From any state of any bounded program on, the bytes of a packet are what its own operations make of
them, whatever is done in between with the packets that share its block. -/
theorem own_bytes {garbage : ℕ → ℕ → UInt8} {before ops : List Op} {p' : Pool} {x : List UInt8}
    {outputs outputs' : List (List UInt8)} (hbounded : Strings.Bounded (before ++ ops) [])
    (h : Pool.run garbage before {} = some (p, outputs))
    (h' : Pool.run garbage ops p = some (p', outputs')) (hx : Slots.get p.contents i = some x)
    (hops : ∀ op ∈ ops, ¬ op.Replaces i) :
    Slots.get p'.contents i = some (ops.foldl (fun x op => op.act i x) x) := by
  have hvalid : p.Valid := (run_matches _ before Pool.Valid.empty hbounded.append.1).2 _ h
  have hrun := (run_matches garbage ops hvalid (run_fits Pool.Valid.empty hbounded h)).1
  rw [h', Option.map_some] at hrun
  exact Strings.run_get hx hops hrun.symm

/-- The operations with packet 0 are invisible to packet 1, which is a copy of it. -/
theorem own_bytes_copy :
    ∃ p outputs p' outputs',
      Pool.run (fun _ _ => 7) [.ofArray [1, 2], .copy 0] {} = some (p, outputs) ∧
      Pool.run (fun _ _ => 7)
        [.addHeader 0 [9], .addHeader 1 [8], .removeHeader 0 2, .addTrailer 1 [7], .destroy 0] p =
        some (p', outputs') ∧
      Slots.get p'.contents 1 = some [8, 1, 2, 7] := by
  let before : List Op := [.ofArray [1, 2], .copy 0]
  let ops : List Op :=
    [.addHeader 0 [9], .addHeader 1 [8], .removeHeader 0 2, .addTrailer 1 [7], .destroy 0]
  have hrun : ((Pool.run (fun _ _ => 7) before {}).map fun r => (r.1.contents, r.2)) =
      some ([some [1, 2], some [1, 2]], [[], []]) := by decide
  rcases Option.map_eq_some_iff.1 hrun with ⟨⟨p, outputs⟩, hrun, heq⟩
  have hcontents : p.contents = [some [1, 2], some [1, 2]] := (Prod.ext_iff.1 heq).1
  have hbounded : Strings.Bounded (before ++ ops) [] := by decide
  have hvalid : p.Valid := (run_matches _ before Pool.Valid.empty hbounded.append.1).2 _ hrun
  have hrest : ((Pool.run (fun _ _ => 7) ops p).map fun r => (r.1.contents, r.2)) =
      some ([none, some [8, 1, 2, 7]], [[], [], [9, 1], [], []]) := by
    rw [(run_matches _ ops hvalid (run_fits Pool.Valid.empty hbounded hrun)).1, hcontents]
    decide
  rcases Option.map_eq_some_iff.1 hrest with ⟨⟨p', outputs'⟩, hrest, -⟩
  refine ⟨p, outputs, p', outputs', hrun, hrest, ?_⟩
  exact own_bytes hbounded hrun hrest (x := [1, 2]) (by rw [hcontents]; rfl) (by decide)

end SyncPaxos.Packets
