import Mathlib.Data.List.Nodup

set_option autoImplicit false

namespace Stakit.KeyedLists
open List

variable {α κ : Type} [DecidableEq κ]

variable (key : α → κ) (items : List α) (k : κ)

theorem find_some (item : α) (h : items.find? (fun i => key i = k) = some item) :
    item ∈ items ∧ key item = k := by
  refine ⟨mem_of_find?_eq_some h, ?_⟩
  have found := List.find?_some h
  exact of_decide_eq_true found

theorem find_none : items.find? (fun i => key i = k) = none ↔ k ∉ items.map key := by
  rw [List.find?_eq_none, mem_map]
  constructor
  · rintro h ⟨item, hmem, hkey⟩
    exact h item hmem (decide_eq_true hkey)
  · intro h item hmem hkey
    exact h ⟨item, hmem, of_decide_eq_true hkey⟩

theorem find_isSome : (items.find? fun i => key i = k).isSome ↔ k ∈ items.map key := by
  rw [Option.isSome_iff_ne_none, ne_eq, find_none, not_not]

omit [DecidableEq κ] in
theorem mem_map_filter (p : κ → Bool) (k : κ) :
    k ∈ (items.filter fun i => p (key i)).map key ↔ k ∈ items.map key ∧ p k = true := by
  simp only [mem_map, mem_filter]
  constructor
  · rintro ⟨item, ⟨hmem, hp⟩, rfl⟩
    exact ⟨⟨item, hmem, rfl⟩, hp⟩
  · rintro ⟨⟨item, hmem, rfl⟩, hp⟩
    exact ⟨item, ⟨hmem, hp⟩, rfl⟩

theorem find_self (h : (items.map key).Nodup) {item : α} (hmem : item ∈ items) :
    items.find? (fun i => key i = key item) = some item := by
  cases hfind : items.find? (fun i => key i = key item) with
  | none => exact absurd (mem_map_of_mem hmem) ((find_none key items (key item)).mp hfind)
  | some found =>
    obtain ⟨hfound, hkey⟩ := find_some key items (key item) found hfind
    rw [inj_on_of_nodup_map h hfound hmem hkey]

theorem find_eq_some_iff (h : (items.map key).Nodup) (k : κ) (item : α) :
    items.find? (fun i => key i = k) = some item ↔ item ∈ items ∧ key item = k := by
  refine ⟨find_some key items k item, ?_⟩
  rintro ⟨hmem, rfl⟩
  exact find_self key items h hmem

theorem find_filter (nodup : (items.map key).Nodup) (p : α → Bool) (k : κ) :
    (items.filter p).find? (fun i => key i = k) = (items.find? fun i => key i = k).filter p := by
  cases hfind : items.find? fun i => key i = k with
  | none =>
    rw [Option.filter_none, find_none]
    intro hmem
    obtain ⟨item, hitem, heq⟩ := mem_map.mp hmem
    exact (find_none key items k).mp hfind
      (mem_map.mpr ⟨item, (mem_filter.mp hitem).1, heq⟩)
  | some item =>
    obtain ⟨hmem, hkey⟩ := find_some key items k item hfind
    have hsub : ((items.filter p).map key).Nodup := nodup.sublist (filter_sublist.map key)
    by_cases hp : p item = true
    · rw [Option.filter_some, if_pos hp, find_eq_some_iff key _ hsub]
      exact ⟨mem_filter.mpr ⟨hmem, hp⟩, hkey⟩
    · rw [Option.filter_some, if_neg hp, find_none]
      intro hin
      obtain ⟨other, hother, heq⟩ := mem_map.mp hin
      obtain ⟨hitem, hkeep⟩ := mem_filter.mp hother
      rw [inj_on_of_nodup_map nodup hitem hmem (heq.trans hkey.symm)] at hkeep
      exact hp hkeep

theorem find_elim_none {β : Type} (key : α → κ) (items : List α) (k : κ) (found : Option β) :
    (items.find? fun i => key i = k).elim found (fun _ => none) =
      if k ∈ items.map key then none else found := by
  cases hfind : items.find? fun i => key i = k with
  | none => rw [if_neg ((find_none key items k).mp hfind)]; rfl
  | some item =>
    obtain ⟨hmem, hkey⟩ := find_some key items k item hfind
    rw [if_pos (mem_map.mpr ⟨item, hmem, hkey⟩)]
    rfl

section
variable [DecidableEq α] (key : α → κ) (old new : List α)

def unmatched (items others : List α) : List α :=
  items.filter fun item => others.find? (fun other => key other = key item) ≠ some item

theorem unmatched_nodup {items : List α} (others : List α) (h : (items.map key).Nodup) :
    ((unmatched key items others).map key).Nodup :=
  h.sublist (filter_sublist.map key)

theorem find_replaced (oldKeys : (old.map key).Nodup) (newKeys : (new.map key).Nodup) (k : κ) :
    ((unmatched key new old).find? fun item => key item = k).or
        (if k ∈ (unmatched key old new).map key then none else old.find? fun item => key item = k) =
      new.find? fun item => key item = k := by
  rw [← find_elim_none, unmatched, unmatched, find_filter key new newKeys,
    find_filter key old oldKeys]
  cases hnew : new.find? fun item => key item = k with
  | none =>
    cases hold : old.find? fun item => key item = k with
    | none => rfl
    | some item =>
      obtain ⟨_, hkey⟩ := find_some key old k item hold
      simp [Option.filter, hkey, hnew]
  | some item =>
    obtain ⟨_, hkey⟩ := find_some key new k item hnew
    by_cases hsame : old.find? (fun other => key other = k) = some item
    · simp [Option.filter, hkey, hnew, hsame]
    · simp [Option.filter, hkey, hsame]

end

theorem foldl_update {β : Type} {key : α → κ} (value : α → β → β) {items : List α}
    (h : (items.map key).Nodup) (f : κ → β) (k : κ) :
    items.foldl (fun g a => Function.update g (key a) (value a (g (key a)))) f k =
      (items.find? fun a => key a = k).elim (f k) fun a => value a (f k) := by
  induction items generalizing f with
  | nil => rfl
  | cons item rest ih =>
    obtain ⟨hout, hrest⟩ := nodup_cons.mp h
    rw [foldl_cons, ih hrest, List.find?_cons]
    by_cases hk : key item = k
    · have hnone : rest.find? (fun a => key a = k) = none :=
        (find_none key rest k).mpr (hk ▸ hout)
      rw [hnone, hk]
      simp
    · simp only [hk, decide_false]
      rw [Function.update_of_ne (Ne.symm hk)]

end Stakit.KeyedLists
