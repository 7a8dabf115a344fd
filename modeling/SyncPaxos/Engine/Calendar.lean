import Mathlib.Tactic.Ring
import SyncPaxos.Engine.Agenda
import SyncPaxos.Model.CalendarScheduler

/-!
# Calendar — the calendar is an agenda as long as nobody writes into the past

Every event is in the bucket of its day, and no day before that of the last removal has one.  So the
first bucket whose first event is due by the end of the day has the next event (`scan_spec`), and
resizing only moves events.  An event may not be inserted before the last one that was removed.
-/

namespace SyncPaxos.CalendarScheduler

open Scheduler (EventKey)

variable {s t : CalendarScheduler} {es : List Scheduler.Event} {e ev x : Scheduler.Event}

/-- Every event is in the bucket of its day. -/
structure Files (s : CalendarScheduler) (es : List Scheduler.Event) : Prop where
  nBuckets : 0 < s.nBuckets
  width : 0 < s.width
  mem : ∀ e, e ∈ s.buckets (s.hash e.key.ts) ↔ e ∈ es
  home : ∀ i < s.nBuckets, ∀ e ∈ s.buckets i, s.hash e.key.ts = i
  agenda : ∀ i < s.nBuckets, Agenda (s.buckets i)

/-- The calendar is open at the day of the last removal, and no event is before that. -/
structure OpenAt (s : CalendarScheduler) (es : List Scheduler.Event) : Prop where
  lastBucket : s.lastBucket = s.lastPrio / s.width % s.nBuckets
  bucketTop : s.bucketTop = (s.lastPrio / s.width + 1) * s.width
  notBefore : ∀ e ∈ es, s.lastPrio ≤ e.key.ts

theorem Files.hash_lt (h : Files s es) (ts : ℕ) : s.hash ts < s.nBuckets := Nat.mod_lt _ h.nBuckets

theorem Files.mem_of_bucket (h : Files s es) {i : ℕ} (hi : i < s.nBuckets) (he : e ∈ s.buckets i) :
    e ∈ es := by
  refine (h.mem e).1 ?_
  rw [h.home i hi e he]
  exact he

/-! ## The scan -/

/-- The least first event of the buckets of a set, as the loop has it. -/
def Least (s : CalendarScheduler) (V : ℕ → Prop) : Option (EventKey × ℕ) → Prop
  | none => ∀ i, V i → s.buckets i = []
  | some (key, b) => V b ∧ (∃ next rest, s.buckets b = next :: rest ∧ next.key = key) ∧
      ∀ i, V i → ∀ x ∈ s.buckets i, ¬ x.key < key

/-- What the loop returns. -/
def Scanned (s : CalendarScheduler) (es : List Scheduler.Event) (V : ℕ → Prop) :
    (ℕ × ℕ × Scheduler.Event) ⊕ Option (EventKey × ℕ) → Prop
  | .inl (i, top, next) => (∃ rest, s.buckets i = next :: rest) ∧ i = s.hash next.key.ts ∧
      top = (next.key.ts / s.width + 1) * s.width ∧ next ∈ es ∧ ∀ x ∈ es, ¬ x.key < next.key
  | .inr m => Least s V m

theorem key_le {bucket : List Scheduler.Event} (h : Agenda (e :: bucket)) (hx : x ∈ e :: bucket) :
    ¬ x.key < e.key := by
  rcases List.mem_cons.1 hx with rfl | hx
  · exact EventKey.lt_irrefl _
  · intro hlt
    exact EventKey.lt_irrefl _ (EventKey.lt_trans hlt (h.head_lt hx))

theorem ts_le {a b : EventKey} (h : ¬ b < a) : a.ts ≤ b.ts := by
  rw [EventKey.lt_def] at h
  omega

/-- One bucket more. -/
theorem Least.empty {V : ℕ → Prop} {m : Option (EventKey × ℕ)} {b : ℕ} (h : Least s V m)
    (hb : s.buckets b = []) : Least s (fun i => V i ∨ i = b) m := by
  cases m with
  | none =>
      rintro i (hi | rfl)
      · exact h i hi
      · exact hb
  | some m =>
      refine ⟨.inl h.1, h.2.1, ?_⟩
      rintro i (hi | rfl) x hx
      · exact h.2.2 i hi x hx
      · rw [hb] at hx
        cases hx

theorem Least.cons {V : ℕ → Prop} {m : Option (EventKey × ℕ)} {b : ℕ} {rest : List Scheduler.Event}
    (h : Least s V m) (hb : s.buckets b = e :: rest) (hagenda : Agenda (e :: rest)) :
    Least s (fun i => V i ∨ i = b)
      (if m.all (fun m => e.key < m.1) then some (e.key, b) else m) := by
  have hself : ∀ x ∈ s.buckets b, ¬ x.key < e.key := by
    intro x hx
    rw [hb] at hx
    exact key_le hagenda hx
  cases m with
  | none =>
      simp only [Option.all_none, if_true]
      refine ⟨.inr rfl, ⟨e, rest, hb, rfl⟩, ?_⟩
      rintro i (hi | rfl) x hx
      · rw [h i hi] at hx
        cases hx
      · exact hself x hx
  | some m =>
      rcases m with ⟨key, b'⟩
      rcases h with ⟨hV, hfirst, hleast⟩
      simp only [Option.all_some, decide_eq_true_eq]
      by_cases hlt : e.key < key
      · -- All that `key` precedes, `e` precedes too.
        rw [if_pos hlt]
        refine ⟨.inr rfl, ⟨e, rest, hb, rfl⟩, ?_⟩
        rintro i (hi | rfl) x hx
        · exact fun hxe => hleast i hi x hx (EventKey.lt_trans hxe hlt)
        · exact hself x hx
      · rw [if_neg hlt]
        refine ⟨.inl hV, hfirst, ?_⟩
        rintro i (hi | rfl) x hx
        · exact hleast i hi x hx
        · -- What is not before `e` is not before what `e` is not before.
          have hx' := hself x hx
          rw [EventKey.lt_def] at hlt hx' ⊢
          omega

theorem Least.congr {V W : ℕ → Prop} {m : Option (EventKey × ℕ)} (h : Least s V m)
    (hVW : ∀ i, V i ↔ W i) : Least s W m := by
  obtain rfl : V = W := funext fun i => propext (hVW i)
  exact h

/-- The scan from day `d` on, when no day before has an event. -/
theorem scan_spec (hf : Files s es) (rounds d : ℕ) {V : ℕ → Prop} {m : Option (EventKey × ℕ)}
    (hday : ∀ e ∈ es, d ≤ e.key.ts / s.width) (hm : Least s V m) :
    Scanned s es (fun i => V i ∨ ∃ k < rounds, i = (d + k) % s.nBuckets)
      (s.scan rounds (d % s.nBuckets) ((d + 1) * s.width) m) := by
  induction rounds generalizing d V m with
  | zero =>
      exact hm.congr (by simp)
  | succ rounds ih =>
      have hlt : d % s.nBuckets < s.nBuckets := Nat.mod_lt _ hf.nBuckets
      have hnext : (d % s.nBuckets + 1) % s.nBuckets = (d + 1) % s.nBuckets := Nat.mod_add_mod _ _ _
      have htop : (d + 1) * s.width + s.width = (d + 1 + 1) * s.width := by
        ring
      have hvisited : ∀ i, ((V i ∨ i = d % s.nBuckets) ∨
          ∃ k < rounds, i = (d + 1 + k) % s.nBuckets) ↔
            (V i ∨ ∃ k < rounds + 1, i = (d + k) % s.nBuckets) := by
        intro i
        constructor
        · rintro ((hV | rfl) | ⟨k, hk, rfl⟩)
          · exact .inl hV
          · exact .inr ⟨0, Nat.succ_pos _, rfl⟩
          · exact .inr ⟨k + 1, Nat.succ_lt_succ hk, by rw [Nat.add_assoc, Nat.add_comm 1]⟩
        · rintro (hV | ⟨k, hk, rfl⟩)
          · exact .inl (.inl hV)
          · cases k with
            | zero => exact .inl (.inr rfl)
            | succ k =>
                exact .inr ⟨k, Nat.lt_of_succ_lt_succ hk, by rw [Nat.add_assoc, Nat.add_comm 1]⟩
      -- An event of day `d` would be in this bucket.
      have hlater : (∀ x ∈ s.buckets (d % s.nBuckets), (d + 1) * s.width ≤ x.key.ts) →
          ∀ x ∈ es, d + 1 ≤ x.key.ts / s.width := by
        intro hall x hx
        rcases Nat.eq_or_lt_of_le (hday x hx) with heq | hgt
        · have hmem := (hf.mem x).2 hx
          rw [hash, ← heq] at hmem
          rw [Nat.le_div_iff_mul_le hf.width]
          exact hall x hmem
        · exact hgt
      have hgo : ∀ m', Least s (fun i => V i ∨ i = d % s.nBuckets) m' →
          (∀ x ∈ s.buckets (d % s.nBuckets), (d + 1) * s.width ≤ x.key.ts) →
          Scanned s es (fun i => V i ∨ ∃ k < rounds + 1, i = (d + k) % s.nBuckets)
            (s.scan rounds ((d % s.nBuckets + 1) % s.nBuckets)
              ((d + 1) * s.width + s.width) m') := by
        intro m' hm' hall
        have hrest := ih (d + 1) (hlater hall) hm'
        have hsets : (fun i => (V i ∨ i = d % s.nBuckets) ∨
            ∃ k < rounds, i = (d + 1 + k) % s.nBuckets) =
              fun i => V i ∨ ∃ k < rounds + 1, i = (d + k) % s.nBuckets :=
          funext fun i => propext (hvisited i)
        rw [hnext, htop, ← hsets]
        exact hrest
      rw [scan]
      cases hbucket : s.buckets (d % s.nBuckets) with
      | nil =>
          exact hgo m (hm.empty hbucket) (by simp [hbucket])
      | cons next rest =>
          have hagenda : Agenda (next :: rest) := hbucket ▸ hf.agenda _ hlt
          have hmem : next ∈ s.buckets (d % s.nBuckets) := by
            rw [hbucket]
            exact List.mem_cons_self
          have hes := hf.mem_of_bucket hlt hmem
          by_cases hdue : next.key.ts < (d + 1) * s.width
          · simp only [if_pos hdue]
            have hsame : next.key.ts / s.width = d :=
              Nat.le_antisymm (Nat.le_of_lt_succ ((Nat.div_lt_iff_lt_mul hf.width).2 hdue))
                (hday next hes)
            refine ⟨⟨rest, hbucket⟩, (hf.home _ hlt next hmem).symm, by rw [hsame], hes, ?_⟩
            intro x hx
            rcases Nat.eq_or_lt_of_le (hday x hx) with heq | hgt
            · have hxmem := (hf.mem x).2 hx
              rw [hash, ← heq, hbucket] at hxmem
              exact key_le hagenda hxmem
            · have hxts := (Nat.le_div_iff_mul_le hf.width).1 hgt
              rw [EventKey.lt_def]
              have hge : (d + 1) * s.width ≤ x.key.ts := hxts
              omega
          · simp only [if_neg hdue]
            refine hgo _ (hm.cons hbucket hagenda) ?_
            intro x hx
            rw [hbucket] at hx
            exact (Nat.le_of_not_lt hdue).trans (ts_le (key_le hagenda hx))

/-- A year has every bucket. -/
theorem exists_day (d : ℕ) {n i : ℕ} (hi : i < n) : ∃ k < n, i = (d + k) % n := by
  refine ⟨(i + (n - d % n)) % n, Nat.mod_lt _ (Nat.zero_lt_of_lt hi), ?_⟩
  have hlt : d % n < n := Nat.mod_lt _ (Nat.zero_lt_of_lt hi)
  have hsum : d + (i + (n - d % n)) = i + n * (d / n + 1) := by
    have hd := Nat.div_add_mod d n
    have hmul : n * (d / n + 1) = n * (d / n) + n := by
      ring
    omega
  rw [Nat.add_mod_mod, hsum, Nat.add_mul_mod_self_left, Nat.mod_eq_of_lt hi]

theorem scan_start (hf : Files s es) (ho : OpenAt s es) :
    Scanned s es (fun i => ∃ k < s.nBuckets, i = (s.lastPrio / s.width + k) % s.nBuckets)
      (s.scan s.nBuckets s.lastBucket s.bucketTop none) := by
  have hday : ∀ e ∈ es, s.lastPrio / s.width ≤ e.key.ts / s.width :=
    fun e he => Nat.div_le_div_right (ho.notBefore e he)
  have hnone : Least s (fun _ => False) none := fun i hi => hi.elim
  have hscan := scan_spec hf s.nBuckets (s.lastPrio / s.width) hday hnone
  rw [ho.lastBucket, ho.bucketTop]
  simpa only [false_or] using hscan

/-! ## Buckets -/

/-- A new event. -/
theorem Files.doInsert (h : Files s es) (hnew : ∀ x ∈ es, x.key.uid ≠ ev.key.uid) :
    Files (s.doInsert ev) (ev :: es) := by
  have hlt := h.hash_lt ev.key.ts
  have hfresh : ∀ x ∈ s.buckets (s.hash ev.key.ts), x.key.uid ≠ ev.key.uid :=
    fun x hx => hnew x (h.mem_of_bucket hlt hx)
  refine ⟨h.nBuckets, h.width, ?_, ?_, ?_⟩
  · intro e
    change e ∈ Function.update s.buckets _ _ (s.hash e.key.ts) ↔ _
    -- Other days may share the bucket.
    by_cases hsame : s.hash e.key.ts = s.hash ev.key.ts
    · rw [hsame, Function.update_self, ListScheduler.mem_insertInto, List.mem_cons, ← hsame, h.mem e]
    · rw [Function.update_of_ne hsame, h.mem e, List.mem_cons]
      refine ⟨.inr, fun he => he.resolve_left ?_⟩
      rintro rfl
      exact hsame rfl
  · intro i hi e he
    change e ∈ Function.update s.buckets _ _ i at he
    by_cases hsame : i = s.hash ev.key.ts
    · subst hsame
      rw [Function.update_self, ListScheduler.mem_insertInto] at he
      rcases he with rfl | he
      · rfl
      · exact h.home _ hi e he
    · rw [Function.update_of_ne hsame] at he
      exact h.home i hi e he
  · intro i hi
    change Agenda (Function.update s.buckets _ _ i)
    by_cases hsame : i = s.hash ev.key.ts
    · subst hsame
      rw [Function.update_self]
      exact ListScheduler.agenda_insertInto (h.agenda _ hi) hfresh
    · rw [Function.update_of_ne hsame]
      exact h.agenda i hi

/-- An event that is taken out of its bucket. -/
theorem Files.erase (h : Files s es) (hes : Agenda es) (ev : Scheduler.Event) :
    Files (s.setBucket (s.hash ev.key.ts) ((s.buckets (s.hash ev.key.ts)).erase ev))
      (es.erase ev) := by
  have hlt := h.hash_lt ev.key.ts
  refine ⟨h.nBuckets, h.width, ?_, ?_, ?_⟩
  · intro e
    change e ∈ Function.update s.buckets _ _ (s.hash e.key.ts) ↔ _
    by_cases hsame : s.hash e.key.ts = s.hash ev.key.ts
    · rw [hsame, Function.update_self, (h.agenda _ hlt).mem_erase, hes.mem_erase, ← hsame, h.mem e]
    · rw [Function.update_of_ne hsame, h.mem e, hes.mem_erase]
      refine ⟨fun he => ⟨?_, he⟩, And.right⟩
      rintro rfl
      exact hsame rfl
  · intro i hi e he
    change e ∈ Function.update s.buckets _ _ i at he
    by_cases hsame : i = s.hash ev.key.ts
    · subst hsame
      rw [Function.update_self] at he
      exact h.home _ hi e (List.mem_of_mem_erase he)
    · rw [Function.update_of_ne hsame] at he
      exact h.home i hi e he
  · intro i hi
    change Agenda (Function.update s.buckets _ _ i)
    by_cases hsame : i = s.hash ev.key.ts
    · subst hsame
      rw [Function.update_self]
      exact (h.agenda _ hi).erase ev
    · rw [Function.update_of_ne hsame]
      exact h.agenda i hi

theorem Files.congr {es' : List Scheduler.Event} (h : Files s es) (hmem : ∀ x, x ∈ es ↔ x ∈ es') :
    Files s es' :=
  ⟨h.nBuckets, h.width, fun e => (h.mem e).trans (hmem e), h.home, h.agenda⟩

/-- Only the buckets count. -/
theorem Files.of_eq (h : Files s es) (hbuckets : t.buckets = s.buckets)
    (hn : t.nBuckets = s.nBuckets) (hwidth : t.width = s.width) : Files t es := by
  have hhash : ∀ ts, t.hash ts = s.hash ts := by
    intro ts
    rw [hash, hash, hn, hwidth]
  refine ⟨hn ▸ h.nBuckets, hwidth ▸ h.width, ?_, ?_, ?_⟩
  · intro e
    rw [hhash, hbuckets]
    exact h.mem e
  · intro i hi e he
    rw [hhash]
    exact h.home i (hn ▸ hi) e (hbuckets ▸ he)
  · intro i hi
    rw [hbuckets]
    exact h.agenda i (hn ▸ hi)

/-! ## The next event -/

/-- What is the same after a removal. -/
structure SameShape (s t : CalendarScheduler) : Prop where
  nBuckets : t.nBuckets = s.nBuckets
  width : t.width = s.width
  qSize : t.qSize = s.qSize

/-- The head of its bucket is taken out as any event is. -/
theorem setBucket_tail {i : ℕ} {rest : List Scheduler.Event} (hbucket : s.buckets i = e :: rest)
    (hi : i = s.hash e.key.ts) :
    s.setBucket i rest =
      s.setBucket (s.hash e.key.ts) ((s.buckets (s.hash e.key.ts)).erase e) := by
  subst hi
  rw [hbucket, List.erase_cons_head]

theorem doRemoveNext_spec (hf : Files s (e :: es)) (ho : OpenAt s (e :: es))
    (ha : Agenda (e :: es)) (hne : s.qSize ≠ 0) :
    ∃ t, s.doRemoveNext = some (e, t) ∧ Files t es ∧ OpenAt t es ∧ SameShape s t ∧ t.lastPrio = e.key.ts := by
  have hscan := scan_start hf ho
  have hafter : ∀ x ∈ es, e.key.ts ≤ x.key.ts := by
    intro x hx
    have hlt := ha.head_lt hx
    rw [EventKey.lt_def] at hlt
    omega
  -- The least event is the first of the agenda.
  have hfirst : ∀ next ∈ e :: es, (∀ x ∈ e :: es, ¬ x.key < next.key) → next = e := by
    intro next hnext hleast
    have hcons := ha.eq_cons_erase hnext hleast
    exact (List.cons.inj hcons).1.symm
  have herase := hf.erase ha e
  rw [List.erase_cons_head] at herase
  rw [doRemoveNext, if_neg hne]
  rcases hresult : s.scan s.nBuckets s.lastBucket s.bucketTop none with ⟨i, top, next⟩ | m
  · rw [hresult] at hscan
    rcases hscan with ⟨⟨rest, hbucket⟩, hi, htop, hnext, hleast⟩
    obtain rfl := hfirst next hnext hleast
    refine ⟨_, rfl, ?_, ⟨hi, htop, hafter⟩, ⟨rfl, rfl, rfl⟩, rfl⟩
    rw [hbucket, List.tail_cons]
    have hbuckets := congrArg CalendarScheduler.buckets (setBucket_tail hbucket hi)
    exact herase.of_eq hbuckets rfl rfl
  · rw [hresult] at hscan
    cases m with
    | none =>
        -- All buckets are empty, and there is an event.
        have hmem := (hf.mem e).2 List.mem_cons_self
        have hempty := hscan (s.hash e.key.ts) (exists_day _ (hf.hash_lt _))
        rw [hempty] at hmem
        cases hmem
    | some m =>
        rcases m with ⟨key, b⟩
        rcases hscan with ⟨⟨k, -, hb⟩, ⟨next, rest, hbucket, rfl⟩, hleast⟩
        have hlt : b < s.nBuckets := hb ▸ Nat.mod_lt _ hf.nBuckets
        have hmem : next ∈ s.buckets b := by
          rw [hbucket]
          exact List.mem_cons_self
        have hnext := hf.mem_of_bucket hlt hmem
        have hall : ∀ x ∈ e :: es, ¬ x.key < next.key := fun x hx =>
          hleast _ (exists_day _ (hf.hash_lt _)) x ((hf.mem x).2 hx)
        obtain rfl := hfirst next hnext hall
        simp only [hbucket]
        have hbuckets := congrArg CalendarScheduler.buckets
          (setBucket_tail hbucket (hf.home b hlt next hmem).symm)
        exact ⟨_, rfl, herase.of_eq hbuckets rfl rfl, ⟨rfl, rfl, hafter⟩, ⟨rfl, rfl, rfl⟩, rfl⟩

theorem peekNext_spec (hf : Files s (e :: es)) (ho : OpenAt s (e :: es)) (ha : Agenda (e :: es))
    (hne : s.qSize ≠ 0) : s.peekNext = some e := by
  rcases doRemoveNext_spec hf ho ha hne with ⟨t, hremove, -⟩
  -- Both loops are the same.
  rw [doRemoveNext, if_neg hne] at hremove
  rw [peekNext, if_neg hne]
  rcases hresult : s.scan s.nBuckets s.lastBucket s.bucketTop none with ⟨i, top, next⟩ | m
  · rw [hresult] at hremove
    exact congrArg some (Prod.mk.inj (Option.some.inj hremove)).1
  · rw [hresult] at hremove
    cases m with
    | none =>
        cases hremove
    | some m =>
        cases hbucket : s.buckets m.2 with
        | nil =>
            simp only [hbucket] at hremove
            cases hremove
        | cons next rest =>
            simp only [hbucket] at hremove
            simp only [hbucket, List.head?_cons]
            exact congrArg some (Prod.mk.inj (Option.some.inj hremove)).1

/-! ## Resizing -/

/-- Insertion in a row. -/
theorem Files.foldl_doInsert (samples : List Scheduler.Event) (h : Files s es)
    (hnodup : ((samples ++ es).map (fun e => e.key.uid)).Nodup) :
    Files (samples.foldl (fun t ev => t.doInsert ev) s) (samples ++ es) := by
  induction samples generalizing s es with
  | nil =>
      exact h
  | cons ev samples ih =>
      rw [List.cons_append, List.map_cons, List.nodup_cons] at hnodup
      have hnew : ∀ x ∈ es, x.key.uid ≠ ev.key.uid := by
        intro x hx huid
        exact hnodup.1 (List.mem_map.2 ⟨x, List.mem_append_right _ hx, huid⟩)
      have hperm : (samples ++ ev :: es).Perm (ev :: (samples ++ es)) := List.perm_middle
      have hrest := ih (h.doInsert hnew) (by
        rw [(hperm.map _).nodup_iff, List.map_cons, List.nodup_cons]
        exact hnodup)
      exact hrest.congr fun x => hperm.mem_iff

theorem foldl_doInsert_shape (samples : List Scheduler.Event) (s : CalendarScheduler) :
    SameShape s (samples.foldl (fun t ev => t.doInsert ev) s) ∧
      (samples.foldl (fun t ev => t.doInsert ev) s).lastPrio = s.lastPrio ∧
      (samples.foldl (fun t ev => t.doInsert ev) s).lastBucket = s.lastBucket ∧
      (samples.foldl (fun t ev => t.doInsert ev) s).bucketTop = s.bucketTop := by
  induction samples generalizing s with
  | nil =>
      exact ⟨⟨rfl, rfl, rfl⟩, rfl, rfl, rfl⟩
  | cons ev samples ih =>
      rcases ih (s.doInsert ev) with ⟨⟨hn, hwidth, hsize⟩, hprio, hbucket, htop⟩
      exact ⟨⟨hn, hwidth, hsize⟩, hprio, hbucket, htop⟩

/-- The samples are the first events. -/
theorem gather_spec {n : ℕ} (hf : Files s es) (ho : OpenAt s es) (ha : Agenda es)
    (hne : s.qSize ≠ 0) (hn : n ≤ es.length) : ∃ t, gather n s = some (es.take n, t) ∧ Files t (es.drop n) ∧
      SameShape s t := by
  -- Each removal leaves the calendar open at the event that it took, so the next one may follow.
  induction n generalizing s es with
  | zero =>
      exact ⟨s, rfl, hf, ⟨rfl, rfl, rfl⟩⟩
  | succ n ih =>
      cases es with
      | nil =>
          exact absurd hn (Nat.not_succ_le_zero n)
      | cons e es =>
          rcases doRemoveNext_spec hf ho ha hne with ⟨t, hremove, hft, hot, hshape, -⟩
          rcases ih hft hot ha.tail (hshape.qSize ▸ hne) (Nat.le_of_succ_le_succ hn) with ⟨t', hgather, hft', hshape'⟩
          refine ⟨t', ?_, hft', ?_⟩
          · rw [gather, hremove, Option.bind_eq_bind, Option.bind_some]
            simp only [hgather]
            rfl
          · exact ⟨hshape'.nBuckets.trans hshape.nBuckets, hshape'.width.trans hshape.width,
              hshape'.qSize.trans hshape.qSize⟩

/-- What holds of a calendar between operations. -/
structure Holds (s : CalendarScheduler) (es : List Scheduler.Event) : Prop where
  agenda : Agenda es
  files : Files s es
  openAt : OpenAt s es
  qSize : s.qSize = es.length

theorem Holds.qSize_ne_zero (h : Holds s (e :: es)) : s.qSize ≠ 0 := by
  rw [h.qSize]
  exact Nat.succ_ne_zero _

/-- The samples are put back. -/
theorem calculateNewWidth_spec (h : Holds s es) :
    ∃ width t, s.calculateNewWidth = some (width, t) ∧ 0 < width ∧ Holds t es ∧
      t.lastPrio = s.lastPrio ∧ SameShape s t := by
  rw [calculateNewWidth]
  by_cases hsmall : s.qSize < 2
  · rw [if_pos hsmall]
    exact ⟨1, s, rfl, Nat.one_pos, h, rfl, ⟨rfl, rfl, rfl⟩⟩
  · rw [if_neg hsmall]
    have hle : s.nSamples ≤ es.length := by
      rw [nSamples, ← h.qSize]
      split <;> omega
    have hne : s.qSize ≠ 0 := by
      omega
    rcases gather_spec h.files h.openAt h.agenda hne hle with ⟨taken, hgather, hft, hshape⟩
    rcases foldl_doInsert_shape (es.take s.nSamples) taken with ⟨hback, -, -, -⟩
    have hfiles := hft.foldl_doInsert (es.take s.nSamples) (by
      rw [List.take_append_drop]
      exact h.agenda.uids)
    rw [List.take_append_drop] at hfiles
    have hn := hback.nBuckets.trans hshape.nBuckets
    have hwidth := hback.width.trans hshape.width
    have hsize := hback.qSize.trans hshape.qSize
    rw [hgather, Option.bind_eq_bind, Option.bind_some]
    refine ⟨_, _, rfl, Nat.lt_of_lt_of_le Nat.one_pos (Nat.le_max_right _ _),
      ⟨h.agenda, hfiles.of_eq rfl rfl rfl, ⟨?_, ?_, h.openAt.notBefore⟩, hsize.trans h.qSize⟩,
      rfl, ⟨hn, hwidth, hsize⟩⟩
    · -- The day that was saved is the right one again, for the samples are back.
      change s.lastBucket = s.lastPrio / _ % _
      rw [hwidth, hn]
      exact h.openAt.lastBucket
    · change s.bucketTop = (s.lastPrio / _ + 1) * _
      rw [hwidth]
      exact h.openAt.bucketTop

/-- Every event is in one bucket. -/
theorem Holds.uids_flatMap (h : Holds s es) :
    (((List.range s.nBuckets).flatMap s.buckets).map (fun e => e.key.uid)).Nodup := by
  have hmem : ∀ x ∈ (List.range s.nBuckets).flatMap s.buckets, x ∈ es := by
    intro x hx
    rcases List.mem_flatMap.1 hx with ⟨i, hi, hx⟩
    exact h.files.mem_of_bucket (List.mem_range.1 hi) hx
  refine List.Nodup.map_on (fun x hx y hy => h.agenda.eq_of_uid (hmem x hx) (hmem y hy)) ?_
  rw [List.nodup_flatMap]
  refine ⟨fun i hi => (h.files.agenda i (List.mem_range.1 hi)).nodup, ?_⟩
  refine List.nodup_range.imp_of_mem ?_
  intro i j hi hj hne x hxi hxj
  apply hne
  rw [← h.files.home i (List.mem_range.1 hi) x hxi, h.files.home j (List.mem_range.1 hj) x hxj]

/-- All events move to the new buckets. -/
theorem doResize_spec (h : Holds s es) {newSize newWidth : ℕ} (hsize : 0 < newSize)
    (hwidth : 0 < newWidth) : Holds (s.doResize newSize newWidth) es ∧
      (s.doResize newSize newWidth).lastPrio = s.lastPrio := by
  have hmem : ∀ x, x ∈ (List.range s.nBuckets).flatMap s.buckets ++ [] ↔ x ∈ es := by
    intro x
    rw [List.append_nil, List.mem_flatMap]
    constructor
    · rintro ⟨i, hi, hx⟩
      exact h.files.mem_of_bucket (List.mem_range.1 hi) hx
    · intro hx
      exact ⟨_, List.mem_range.2 (h.files.hash_lt _), (h.files.mem x).2 hx⟩
  have hinit : Files (init newSize newWidth s.lastPrio s.qSize) [] :=
    ⟨hsize, hwidth, fun _ => Iff.rfl, fun _ _ _ he => absurd he List.not_mem_nil,
      fun _ _ => Agenda.nil⟩
  have hfiles := hinit.foldl_doInsert ((List.range s.nBuckets).flatMap s.buckets) (by
    rw [List.append_nil]
    exact h.uids_flatMap)
  rcases foldl_doInsert_shape ((List.range s.nBuckets).flatMap s.buckets)
    (init newSize newWidth s.lastPrio s.qSize) with ⟨⟨hn, hw, hq⟩, hprio, hbucket, htop⟩
  -- `Init` opens the new calendar where the old one was, in days of the new width.
  refine ⟨⟨h.agenda, hfiles.congr hmem, ⟨?_, ?_, ?_⟩, hq.trans h.qSize⟩, hprio⟩
  · rw [doResize, hbucket, hprio, hn, hw]
    rfl
  · rw [doResize, htop, hprio, hw]
    rfl
  · rw [doResize, hprio]
    exact h.openAt.notBefore

theorem resize_spec (h : Holds s es) {newSize : ℕ} (hsize : 0 < newSize) :
    ∃ t, s.resize newSize = some t ∧ Holds t es ∧ t.lastPrio = s.lastPrio := by
  rcases calculateNewWidth_spec h with ⟨width, t, hwidth, hpos, ht, hprio, -⟩
  rcases doResize_spec ht hsize hpos with ⟨hholds, hprio'⟩
  refine ⟨_, ?_, hholds, hprio'.trans hprio⟩
  rw [resize, hwidth]
  rfl

theorem resizeUp_spec (h : Holds s es) :
    ∃ t, s.resizeUp = some t ∧ Holds t es ∧ t.lastPrio = s.lastPrio := by
  rw [resizeUp]
  split
  · exact resize_spec h (Nat.mul_pos h.files.nBuckets Nat.two_pos)
  · exact ⟨s, rfl, h, rfl⟩

theorem resizeDown_spec (h : Holds s es) :
    ∃ t, s.resizeDown = some t ∧ Holds t es ∧ t.lastPrio = s.lastPrio := by
  rw [resizeDown]
  split
  · rename_i hfew
    exact resize_spec h (Nat.zero_lt_of_lt hfew)
  · exact ⟨s, rfl, h, rfl⟩

/-! ## Operations -/

theorem create_holds : Holds create [] :=
  ⟨Agenda.nil, ⟨Nat.two_pos, Nat.one_pos, fun _ => Iff.rfl,
    fun _ _ _ he => absurd he List.not_mem_nil, fun _ _ => Agenda.nil⟩,
    ⟨rfl, rfl, fun _ he => absurd he List.not_mem_nil⟩, rfl⟩

theorem insert_spec (h : Holds s es) (hnew : ∀ x ∈ es, x.key.uid ≠ ev.key.uid)
    (hprio : s.lastPrio ≤ ev.key.ts) : ∃ t, s.insert ev = some t ∧
      Holds t (ListScheduler.insertInto ev es) ∧ t.lastPrio = s.lastPrio := by
  have hmem : ∀ x, x ∈ ev :: es ↔ x ∈ ListScheduler.insertInto ev es := by
    intro x
    rw [ListScheduler.mem_insertInto, List.mem_cons]
  have hfiles := (h.files.doInsert hnew).congr hmem
  have hholds : Holds { s.doInsert ev with qSize := s.qSize + 1 }
      (ListScheduler.insertInto ev es) := by
    refine ⟨ListScheduler.agenda_insertInto h.agenda hnew, hfiles.of_eq rfl rfl rfl,
      ⟨h.openAt.lastBucket, h.openAt.bucketTop, ?_⟩, ?_⟩
    · intro x hx
      rcases ListScheduler.mem_insertInto.1 hx with rfl | hx
      · exact hprio
      · exact h.openAt.notBefore x hx
    · rw [(ListScheduler.insertInto_perm ev es).length_eq]
      exact congrArg (· + 1) h.qSize
  exact resizeUp_spec hholds

/-! After a removal at 10 the calendar is open at bucket 0, where it finds the event at 4 before it
comes to that at 3. -/

example :
    (do
      let s ← create.insert ⟨0, ⟨10, 4, 0⟩⟩
      let s ← s.insert ⟨1, ⟨12, 5, 0⟩⟩
      let (_, s) ← s.removeNext
      let s ← s.insert ⟨2, ⟨3, 6, 0⟩⟩
      let s ← s.insert ⟨3, ⟨4, 7, 0⟩⟩
      s.peekNext).map Scheduler.Event.key = some ⟨4, 7, 0⟩ := by
  decide

theorem removeNext_spec (h : Holds s (e :: es)) :
    ∃ t, s.removeNext = some (e, t) ∧ Holds t es ∧ t.lastPrio = e.key.ts := by
  rcases doRemoveNext_spec h.files h.openAt h.agenda h.qSize_ne_zero with
    ⟨taken, hremove, hfiles, hopen, hshape, hprio⟩
  have hsize : taken.qSize - 1 = es.length := by
    rw [hshape.qSize, h.qSize]
    rfl
  have hholds : Holds { taken with qSize := taken.qSize - 1 } es :=
    ⟨h.agenda.tail, hfiles.of_eq rfl rfl rfl, ⟨hopen.lastBucket, hopen.bucketTop, hopen.notBefore⟩,
      hsize⟩
  rcases resizeDown_spec hholds with ⟨t, hdown, ht, hsame⟩
  refine ⟨t, ?_, ht, hsame.trans hprio⟩
  simp only [removeNext, hremove, hdown, Option.bind_eq_bind, Option.pure_def,
    Option.bind_some]

theorem remove_spec (h : Holds s es) (hev : ev ∈ es) :
    ∃ t, s.remove ev = some t ∧ Holds t (es.erase ev) ∧ t.lastPrio = s.lastPrio := by
  have hbucket := ListScheduler.removeFrom_eq (h.files.agenda _ (h.files.hash_lt ev.key.ts))
    ((h.files.mem ev).2 hev)
  have hholds : Holds { s.setBucket (s.hash ev.key.ts) ((s.buckets (s.hash ev.key.ts)).erase ev) with
      qSize := s.qSize - 1 } (es.erase ev) := by
    refine ⟨h.agenda.erase ev, (h.files.erase h.agenda ev).of_eq rfl rfl rfl,
      ⟨h.openAt.lastBucket, h.openAt.bucketTop, ?_⟩, ?_⟩
    · exact fun x hx => h.openAt.notBefore x (List.mem_of_mem_erase hx)
    · rw [List.length_erase_of_mem hev]
      exact congrArg (· - 1) h.qSize
  rcases resizeDown_spec hholds with ⟨t, hdown, ht, hsame⟩
  refine ⟨t, ?_, ht, hsame⟩
  rw [remove, hbucket]
  exact hdown

theorem isEmpty_spec (h : Holds s es) : s.isEmpty = es.isEmpty := by
  rw [isEmpty, h.qSize]
  cases es <;> simp

theorem removeNext_nil (h : Holds s []) : s.removeNext = none := by
  have hempty : s.qSize = 0 := h.qSize
  rw [removeNext, doRemoveNext, if_pos hempty]
  rfl

end SyncPaxos.CalendarScheduler
