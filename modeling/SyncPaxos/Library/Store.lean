import Mathlib.Data.List.AList
import Mathlib.Tactic.Common

/-!
# Store — the values of a keyed store

What inserting under a key and erasing a key does to the values of a finite map, counted with
multiplicity and without regard to the order of the entries.
-/

namespace AList

universe u v

/-- The values of the entries. -/
def values {α : Type u} {β : Type v} (m : AList (fun _ : α => β)) : List β :=
  m.entries.map Sigma.snd

variable {α : Type u} {β : Type v} [DecidableEq α] {m : AList (fun _ : α => β)} {x : α} {b c : β}

theorem mem_values : b ∈ m.values ↔ ∃ x, m.lookup x = some b := by
  constructor
  · intro hb
    rcases List.mem_map.1 hb with ⟨⟨x, b'⟩, hmem, rfl⟩
    exact ⟨x, mem_lookup_iff.2 hmem⟩
  · rintro ⟨x, hx⟩
    exact List.mem_map.2 ⟨⟨x, b⟩, mem_lookup_iff.1 hx, rfl⟩

theorem eq_empty_of_lookup (h : ∀ x, m.lookup x = none) : m = ∅ := by
  refine AList.ext ?_
  refine List.eq_nil_iff_forall_not_mem.2 ?_
  rintro ⟨x, b⟩ hmem
  cases (h x).symm.trans (mem_lookup_iff.2 hmem)

/-- What is found after an insertion is the new value, or was there before under another key. -/
theorem lookup_insert_cases {y : α} (h : (m.insert x b).lookup y = some c) :
    y = x ∧ c = b ∨ y ≠ x ∧ m.lookup y = some c := by
  by_cases hyx : y = x
  · subst hyx
    rw [lookup_insert] at h
    exact .inl ⟨rfl, (Option.some.inj h).symm⟩
  · rw [lookup_insert_ne hyx] at h
    exact .inr ⟨hyx, h⟩

/-- What is found after an erasure was there before under another key. -/
theorem lookup_erase_cases {y : α} (h : (m.erase x).lookup y = some c) :
    y ≠ x ∧ m.lookup y = some c := by
  by_cases hyx : y = x
  · subst hyx
    rw [lookup_erase] at h
    cases h
  · rw [lookup_erase_ne hyx] at h
    exact ⟨hyx, h⟩

/-- What holds of the new value and of the entries that were there holds of all entries. -/
theorem forall_lookup_insert {P : α → β → Prop} (hb : P x b)
    (hm : ∀ y c, m.lookup y = some c → P y c) :
    ∀ y c, (m.insert x b).lookup y = some c → P y c := by
  intro y c h
  rcases lookup_insert_cases h with ⟨rfl, rfl⟩ | ⟨-, hold⟩
  · exact hb
  · exact hm y c hold

theorem forall_lookup_erase {P : α → β → Prop} (hm : ∀ y c, m.lookup y = some c → P y c) :
    ∀ y c, (m.erase x).lookup y = some c → P y c :=
  fun y c h => hm y c (lookup_erase_cases h).2

/-- Erasing an entry before it is replaced makes no difference. -/
theorem lookup_insert_erase (y : α) :
    ((m.erase x).insert x b).lookup y = (m.insert x b).lookup y := by
  by_cases hyx : y = x
  · subst hyx
    rw [lookup_insert, lookup_insert]
  · rw [lookup_insert_ne hyx, lookup_erase_ne hyx, lookup_insert_ne hyx]

/-- Erasing a key takes its value away. -/
theorem values_erase_perm (h : m.lookup x = some b) : m.values.Perm (b :: (m.erase x).values) := by
  have hkey : x ∈ m.entries.keys := by
    have hmem : x ∈ m := lookup_isSome.1 (by simp [h])
    exact hmem
  rcases List.exists_of_kerase hkey with ⟨b', l₁, l₂, -, hm, herase⟩
  have hb : b' = b := by
    have hmem : (⟨x, b'⟩ : Sigma (fun _ : α => β)) ∈ m.entries := by simp [hm]
    have hl : m.lookup x = some b' := mem_lookup_iff.2 hmem
    exact Option.some.inj (hl.symm.trans h)
  have hrest : (m.erase x).values = l₁.map Sigma.snd ++ l₂.map Sigma.snd := by
    calc (m.erase x).values = (List.kerase x m.entries).map Sigma.snd := rfl
      _ = l₁.map Sigma.snd ++ l₂.map Sigma.snd := by rw [herase, List.map_append]
  rw [hrest, values, hm, List.map_append, List.map_cons, hb]
  exact List.perm_middle

theorem lookup_eq_none_of_values (h : m.values = []) (x : α) : m.lookup x = none := by
  refine Option.eq_none_iff_forall_not_mem.2 ?_
  intro b hb
  have hmem : b ∈ m.values := mem_values.2 ⟨x, hb⟩
  rw [h] at hmem
  cases hmem

/-- Erasing the only key leaves nothing. -/
theorem values_erase_singleton (h : m.values = [c]) (hx : m.lookup x = some b) :
    c = b ∧ (m.erase x).values = [] := by
  have hperm := values_erase_perm hx
  rw [h] at hperm
  have hlist := hperm.symm.eq_singleton
  simp only [List.cons.injEq] at hlist
  exact ⟨hlist.1.symm, hlist.2⟩

/-- Inserting under a new key adds a value. -/
theorem values_insert_of_lookup_none (h : m.lookup x = none) :
    (m.insert x c).values = c :: m.values := by
  rw [values, entries_insert_of_notMem (lookup_eq_none.1 h), List.map_cons, values]

end AList
