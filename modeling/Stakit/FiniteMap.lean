import Mathlib.Data.List.AList

set_option autoImplicit false

namespace Stakit.FiniteMap
open List

abbrev Map (κ ν : Type) := AList (fun _ : κ => ν)

variable {κ ν : Type} [DecidableEq κ]

variable (p : κ → ν → Bool) (m : Map κ ν) (a : κ) (v : ν)

theorem lookup_insert_ite (b : κ) (v : ν) :
    (m.insert a v).lookup b = if b = a then some v else m.lookup b := by
  by_cases h : b = a
  · subst h
    simp
  · simp [h]

theorem lookup_erase_ite (b : κ) : (m.erase a).lookup b = if b = a then none else m.lookup b := by
  by_cases h : b = a
  · subst h
    simp
  · simp [h]

theorem mem_iff_lookup : a ∈ m ↔ ∃ v, m.lookup a = some v := by
  rw [← AList.lookup_isSome, Option.isSome_iff_exists]

theorem mem_entries_iff : (⟨a, v⟩ : Σ _ : κ, ν) ∈ m.entries ↔ m.lookup a = some v :=
  (AList.mem_lookup_iff (s := m)).symm

theorem mem_keys_of_lookup (h : m.lookup a = some v) : a ∈ m.keys :=
  AList.mem_keys.mpr ((mem_iff_lookup m a).mpr ⟨v, h⟩)

def count (p : κ → ν → Bool) (m : Map κ ν) : ℕ := m.entries.countP (fun e => p e.1 e.2)

theorem erase_of_lookup_none (h : m.lookup a = none) : m.erase a = m := by
  apply AList.ext
  exact kerase_of_notMem_keys (dlookup_eq_none.mp h)

theorem count_eq_erase (h : m.lookup a = some v) :
    count p m = count p (m.erase a) + if p a v then 1 else 0 := by
  have hmem : a ∈ m.entries.keys := dlookup_isSome.mp (by
    change (m.lookup a).isSome
    simp [h])
  obtain ⟨w, front, back, _, hall, herase⟩ := exists_of_kerase hmem
  have hw : w = v := by
    have hin : (⟨a, w⟩ : Σ _ : κ, ν) ∈ m.entries := by simp [hall]
    rw [mem_entries_iff, h] at hin
    exact (Option.some.inj hin).symm
  subst hw
  change m.entries.countP _ = (m.entries.kerase a).countP _ + _
  rw [herase, hall]
  simp only [countP_append, countP_cons]
  omega

theorem count_insert : count p (m.insert a v) = count p (m.erase a) + if p a v then 1 else 0 := by
  change (m.insert a v).entries.countP _ = (m.entries.kerase a).countP _ + _
  rw [AList.entries_insert, countP_cons]

theorem count_insert_new (h : m.lookup a = none) :
    count p (m.insert a v) = count p m + if p a v then 1 else 0 := by
  rw [count_insert, erase_of_lookup_none m a h]

theorem count_pos_iff : 0 < count p m ↔ ∃ a v, m.lookup a = some v ∧ p a v = true := by
  unfold count
  rw [countP_pos_iff]
  constructor
  · rintro ⟨⟨a, v⟩, hin, hp⟩
    exact ⟨a, v, (mem_entries_iff m a v).mp hin, hp⟩
  · rintro ⟨a, v, hlook, hp⟩
    exact ⟨⟨a, v⟩, (mem_entries_iff m a v).mpr hlook, hp⟩

theorem count_le (m' : Map κ ν)
    (h : ∀ a, (m.lookup a).any (p a) = true → (m'.lookup a).any (p a) = true) :
    count p m ≤ count p m' := by
  have hkeys : ∀ (m : Map κ ν) (a : κ),
      a ∈ (m.entries.filter (fun e => p e.1 e.2)).map Sigma.fst ↔ (m.lookup a).any (p a) = true := by
    intro m a
    rw [mem_map, Option.any_eq_true]
    constructor
    · rintro ⟨⟨b, v⟩, hin, rfl⟩
      obtain ⟨hin, hp⟩ := mem_filter.mp hin
      exact ⟨v, (mem_entries_iff m b v).mp hin, hp⟩
    · rintro ⟨v, hlook, hp⟩
      exact ⟨⟨a, v⟩, mem_filter.mpr ⟨(mem_entries_iff m a v).mpr hlook, hp⟩, rfl⟩
  have hnodup : ((m.entries.filter (fun e => p e.1 e.2)).map Sigma.fst).Nodup :=
    List.Nodup.sublist (filter_sublist.map Sigma.fst) m.nodupKeys
  have hsub := subperm_of_subset hnodup
    fun a hin => (hkeys m' a).mpr (h a ((hkeys m a).mp hin))
  have hlen := hsub.length_le
  rw [length_map, length_map] at hlen
  unfold count
  rw [countP_eq_length_filter, countP_eq_length_filter]
  exact hlen

theorem count_congr (m' : Map κ ν) (h : ∀ a, (m.lookup a).any (p a) = (m'.lookup a).any (p a)) :
    count p m = count p m' :=
  le_antisymm (count_le p m m' fun a ha => (h a).symm.trans ha)
    (count_le p m' m fun a ha => (h a).trans ha)

end Stakit.FiniteMap
