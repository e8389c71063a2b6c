import Mathlib.Data.List.Dedup
import Mathlib.Data.List.Induction
import Mathlib.Order.Lattice

set_option autoImplicit false

namespace Stakit.EntryMaps
open List

variable {κ ν μ : Type} [LinearOrder κ]

abbrev Entries (κ ν : Type) := List (κ × ν)

def insertSorted (entries : Entries κ ν) (key : κ) (value : ν) : Entries κ ν :=
  match entries with
  | [] => [(key, value)]
  | entry :: rest =>
    if key < entry.1 then (key, value) :: entry :: rest
    else if key = entry.1 then (key, value) :: rest
    else entry :: insertSorted rest key value

def insertInPlace (entries : Entries κ ν) (key : κ) (value : ν) : Entries κ ν :=
  match entries with
  | [] => [(key, value)]
  | entry :: rest =>
    if key = entry.1 then (key, value) :: rest else entry :: insertInPlace rest key value

def sortedMap (entries : Entries κ ν) : Entries κ ν :=
  entries.foldl (fun found entry => insertSorted found entry.1 entry.2) []

def indexMap (entries : Entries κ ν) : Entries κ ν :=
  entries.foldl (fun found entry => insertInPlace found entry.1 entry.2) []

def last (entries : Entries κ ν) (key : κ) : Option ν := entries.reverse.lookup key

variable (entry : κ × ν) (entries : Entries κ ν) (f : κ → ν → μ) (key : κ) (value : ν) (other : κ)

theorem lookup_cons_ite :
    (entry :: entries).lookup key = if key = entry.1 then some entry.2 else entries.lookup key := by
  obtain ⟨first, value⟩ := entry
  rw [lookup_cons]
  by_cases h : key = first
  · rw [if_pos h, beq_iff_eq.mpr h]
  · rw [if_neg h, beq_eq_false_iff_ne.mpr h]

theorem lookup_replaced (rest : Entries κ ν) {key : κ} (value : ν) (other : κ)
    (heq : key = entry.1) : ((key, value) :: rest).lookup other =
      if other = key then some value else (entry :: rest).lookup other := by
  rw [lookup_cons_ite, lookup_cons_ite, ← heq]
  by_cases hother : other = key
  · rw [if_pos hother, if_pos hother]
  · rw [if_neg hother, if_neg hother, if_neg hother]

theorem lookup_insertSorted : (insertSorted entries key value).lookup other =
      if other = key then some value else entries.lookup other := by
  induction entries with
  | nil => exact lookup_cons_ite _ _ _
  | cons entry rest ih =>
    unfold insertSorted
    by_cases hlt : key < entry.1
    · rw [if_pos hlt]
      exact lookup_cons_ite _ _ _
    · rw [if_neg hlt]
      by_cases heq : key = entry.1
      · rw [if_pos heq]
        exact lookup_replaced entry rest value other heq
      · rw [if_neg heq, lookup_cons_ite, lookup_cons_ite, ih]
        by_cases hother : other = key
        · rw [if_pos hother, if_pos hother, if_neg (hother ▸ heq)]
        · rw [if_neg hother, if_neg hother]

theorem lookup_insertInPlace : (insertInPlace entries key value).lookup other =
      if other = key then some value else entries.lookup other := by
  induction entries with
  | nil => exact lookup_cons_ite _ _ _
  | cons entry rest ih =>
    unfold insertInPlace
    by_cases heq : key = entry.1
    · rw [if_pos heq]
      exact lookup_replaced entry rest value other heq
    · rw [if_neg heq, lookup_cons_ite, lookup_cons_ite, ih]
      by_cases hother : other = key
      · rw [if_pos hother, if_pos hother, if_neg (hother ▸ heq)]
      · rw [if_neg hother, if_neg hother]

theorem last_append (more : Entries κ ν) (key : κ) :
    last (entries ++ more) key = (last more key).or (last entries key) := by
  unfold last
  rw [reverse_append, lookup_append]

theorem last_cons : last (entry :: entries) key =
      (last entries key).or (if key = entry.1 then some entry.2 else none) := by
  have hsingle : last [entry] key = if key = entry.1 then some entry.2 else none :=
    lookup_cons_ite entry [] key
  rw [← hsingle]
  exact last_append [entry] entries key

theorem last_forall₂ {κ' ν' : Type} [LinearOrder κ'] {r : ν → ν' → Prop} {entries : Entries κ ν}
    {entries' : Entries κ' ν'} {key : κ} {key' : κ'}
    (h : List.Forall₂ (fun a b => (key = a.1 ↔ key' = b.1) ∧ r a.2 b.2) entries entries') :
    Option.Rel r (last entries key) (last entries' key') := by
  induction h with
  | nil => exact .none
  | @cons a b as bs hhead _ ih =>
    rw [last_cons, last_cons]
    generalize last as key = found at ih ⊢
    generalize last bs key' = found' at ih ⊢
    cases ih with
    | some hrel => exact .some hrel
    | none =>
      simp only [Option.none_or, hhead.1]
      split_ifs
      · exact .some hhead.2
      · exact .none

theorem lookup_foldl {insert : Entries κ ν → κ → ν → Entries κ ν}
    (hinsert : ∀ found key value other, (insert found key value).lookup other =
      if other = key then some value else found.lookup other)
    (entries found : Entries κ ν) (key : κ) :
    (entries.foldl (fun found entry => insert found entry.1 entry.2) found).lookup key =
      (last entries key).or (found.lookup key) := by
  induction entries generalizing found with
  | nil => rfl
  | cons entry entries ih =>
    rw [foldl_cons, ih, hinsert, last_cons, Option.or_assoc]
    congr 1
    split_ifs
    · rfl
    · rfl

theorem lookup_sortedMap : (sortedMap entries).lookup key = last entries key := by
  unfold sortedMap
  rw [lookup_foldl lookup_insertSorted]
  exact Option.or_none

theorem lookup_indexMap : (indexMap entries).lookup key = last entries key := by
  unfold indexMap
  rw [lookup_foldl lookup_insertInPlace]
  exact Option.or_none

def Sorted (entries : Entries κ ν) : Prop := entries.Pairwise fun a b => a.1 < b.1

theorem mem_insertSorted {entry : κ × ν} (h : entry ∈ insertSorted entries key value) :
    entry.1 = key ∨ entry ∈ entries := by
  induction entries with
  | nil => exact .inl (by rw [mem_singleton.mp h])
  | cons first rest ih =>
    unfold insertSorted at h
    split_ifs at h
    · rcases mem_cons.mp h with rfl | h
      · exact .inl rfl
      · exact .inr h
    · rcases mem_cons.mp h with rfl | h
      · exact .inl rfl
      · exact .inr (mem_cons_of_mem _ h)
    · rcases mem_cons.mp h with rfl | h
      · exact .inr mem_cons_self
      · exact (ih h).imp_right (mem_cons_of_mem _)

theorem sorted_insertSorted (h : Sorted entries) : Sorted (insertSorted entries key value) := by
  induction entries with
  | nil => exact pairwise_singleton _ _
  | cons first rest ih =>
    have hfirst := (pairwise_cons.mp h).1
    have hrest := (pairwise_cons.mp h).2
    unfold insertSorted
    split_ifs with hlt heq
    · refine pairwise_cons.mpr ⟨fun entry hentry => ?_, h⟩
      rcases mem_cons.mp hentry with rfl | hentry
      · exact hlt
      · exact hlt.trans (hfirst entry hentry)
    · refine pairwise_cons.mpr ⟨fun entry hentry => ?_, hrest⟩
      rw [heq]
      exact hfirst entry hentry
    · refine pairwise_cons.mpr ⟨fun entry hentry => ?_, ih hrest⟩
      rcases mem_insertSorted rest key value hentry with hkey | hentry
      · rw [hkey]
        exact lt_of_le_of_ne (not_lt.mp hlt) (Ne.symm heq)
      · exact hfirst entry hentry

theorem sorted_sortedMap : Sorted (sortedMap entries) := by
  unfold sortedMap
  refine List.foldlRecOn entries _ List.Pairwise.nil ?_
  exact fun found hfound entry _ => sorted_insertSorted found entry.1 entry.2 hfound

theorem lookup_none_of_below (h : ∀ entry ∈ entries, key < entry.1) :
    entries.lookup key = none := by
  induction entries with
  | nil => rfl
  | cons entry rest ih =>
    rw [lookup_cons_ite, if_neg (h entry mem_cons_self).ne]
    exact ih fun other hother => h other (mem_cons_of_mem _ hother)

theorem lookup_head (rest : Entries κ ν) : (entry :: rest).lookup entry.1 = some entry.2 := by
  rw [lookup_cons_ite, if_pos rfl]

theorem sorted_ext (entries' : Entries κ ν) (h : Sorted entries) (h' : Sorted entries')
    (hlookup : ∀ key, entries.lookup key = entries'.lookup key) : entries = entries' := by
  induction entries generalizing entries' with
  | nil =>
    cases entries' with
    | nil => rfl
    | cons entry rest =>
      have hhead := hlookup entry.1
      rw [lookup_head] at hhead
      cases hhead
  | cons entry rest ih =>
    cases entries' with
    | nil =>
      have hhead := hlookup entry.1
      rw [lookup_head] at hhead
      cases hhead
    | cons entry' rest' =>
      obtain ⟨hbelow, hrest⟩ := pairwise_cons.mp h
      obtain ⟨hbelow', hrest'⟩ := pairwise_cons.mp h'
      have hkey : entry.1 = entry'.1 := by
        rcases lt_trichotomy entry.1 entry'.1 with hlt | heq | hgt
        · have hnone := hlookup entry.1
          rw [lookup_head, lookup_none_of_below (entry' :: rest')] at hnone
          · cases hnone
          · intro other hother
            rcases mem_cons.mp hother with rfl | hother
            · exact hlt
            · exact hlt.trans (hbelow' other hother)
        · exact heq
        · have hnone := hlookup entry'.1
          rw [lookup_head, lookup_none_of_below (entry :: rest)] at hnone
          · cases hnone
          · intro other hother
            rcases mem_cons.mp hother with rfl | hother
            · exact hgt
            · exact hgt.trans (hbelow other hother)
      have hvalue : entry.2 = entry'.2 := by
        have hhead := hlookup entry.1
        rw [lookup_head, hkey, lookup_head] at hhead
        exact Option.some.inj hhead
      have htail : rest = rest' := by
        refine ih rest' hrest hrest' fun key => ?_
        by_cases hhead : key = entry.1
        · rw [hhead, lookup_none_of_below rest _ hbelow, hkey, lookup_none_of_below rest' _ hbelow']
        · have hboth := hlookup key
          rw [lookup_cons_ite, if_neg hhead, lookup_cons_ite, if_neg (hkey ▸ hhead)] at hboth
          exact hboth
      rw [htail, Prod.ext hkey hvalue]

theorem keys_insertInPlace : (insertInPlace entries key value).map Prod.fst =
      if key ∈ entries.map Prod.fst then entries.map Prod.fst
      else entries.map Prod.fst ++ [key] := by
  induction entries with
  | nil => rfl
  | cons entry rest ih =>
    unfold insertInPlace
    by_cases heq : key = entry.1
    · simp [heq]
    · rw [if_neg heq, map_cons, ih, map_cons]
      by_cases hin : key ∈ rest.map Prod.fst
      · rw [if_pos hin, if_pos (mem_cons_of_mem _ hin)]
      · rw [if_neg hin, if_neg (by simpa [heq] using hin), cons_append]

theorem nodup_insertInPlace (h : (entries.map Prod.fst).Nodup) :
    ((insertInPlace entries key value).map Prod.fst).Nodup := by
  rw [keys_insertInPlace]
  split_ifs with hin
  · exact h
  · refine List.Nodup.append h (nodup_singleton _) ?_
    rw [disjoint_singleton]
    exact hin

theorem nodup_indexMap : ((indexMap entries).map Prod.fst).Nodup := by
  unfold indexMap
  refine List.foldlRecOn (motive := fun found : Entries κ ν => (found.map Prod.fst).Nodup) entries _
    nodup_nil ?_
  intro found hfound entry _
  exact nodup_insertInPlace found entry.1 entry.2 hfound

theorem mem_keys_indexMap : key ∈ (indexMap entries).map Prod.fst ↔ key ∈ entries.map Prod.fst := by
  induction entries using List.reverseRecOn with
  | nil => rfl
  | append_singleton entries entry ih =>
    unfold indexMap at ih ⊢
    rw [foldl_concat, keys_insertInPlace, map_append, mem_append, ← ih]
    split_ifs with hin
    · refine ⟨.inl, fun h => h.elim id fun hkey => ?_⟩
      rw [mem_singleton.mp hkey]
      exact hin
    · exact mem_append

theorem length_indexMap :
    (indexMap entries).length = entries.length ↔ (entries.map Prod.fst).Nodup := by
  have hperm : ((indexMap entries).map Prod.fst).Perm (entries.map Prod.fst).dedup := by
    refine (perm_ext_iff_of_nodup (nodup_indexMap entries) (nodup_dedup _)).mpr ?_
    intro key
    rw [mem_keys_indexMap, mem_dedup]
  have hlength : (entries.map Prod.fst).length = entries.length := length_map Prod.fst
  rw [← length_map Prod.fst, hperm.length_eq, ← hlength]
  constructor
  · intro h
    exact dedup_eq_self.mp ((dedup_sublist _).eq_of_length h)
  · intro h
    rw [dedup_eq_self.mpr h]

theorem nodup_sortedMap : ((sortedMap entries).map Prod.fst).Nodup := by
  rw [nodup_iff_pairwise_ne, pairwise_map]
  exact (sorted_sortedMap entries).imp fun h => h.ne

theorem lookup_none_of_not_mem (h : key ∉ entries.map Prod.fst) : entries.lookup key = none := by
  induction entries with
  | nil => rfl
  | cons entry rest ih =>
    rw [map_cons, mem_cons, not_or] at h
    rw [lookup_cons_ite, if_neg h.1, ih h.2]

theorem lookup_of_nodup (h : (entries.map Prod.fst).Nodup) {key : κ} {value : ν}
    (hmem : (key, value) ∈ entries) : entries.lookup key = some value := by
  induction entries with
  | nil => exact absurd hmem not_mem_nil
  | cons entry rest ih =>
    rw [map_cons, nodup_cons] at h
    rw [lookup_cons_ite]
    rcases mem_cons.mp hmem with rfl | hrest
    · exact if_pos rfl
    · have hkey : key ≠ entry.1 := by
        rintro rfl
        exact h.1 (mem_map.mpr ⟨_, hrest, rfl⟩)
      rw [if_neg hkey, ih h.2 hrest]

theorem last_of_nodup (h : (entries.map Prod.fst).Nodup) (key : κ) :
    last entries key = entries.lookup key := by
  induction entries with
  | nil => rfl
  | cons entry rest ih =>
    rw [map_cons, nodup_cons] at h
    rw [last_cons, ih h.2, lookup_cons_ite]
    split_ifs with hkey
    · rw [hkey, lookup_none_of_not_mem rest entry.1 h.1]
      rfl
    · exact Option.or_none

theorem last_map : last (entries.map fun entry => (entry.1, f entry.1 entry.2)) key =
      (last entries key).map (f key) := by
  induction entries with
  | nil => rfl
  | cons entry rest ih =>
    rw [map_cons, last_cons, last_cons, ih]
    cases hlast : last rest key with
    | some value => rfl
    | none =>
      split_ifs with hkey
      · rw [hkey]
        rfl
      · rfl

theorem sortedMap_ext (entries' : Entries κ ν) (h : ∀ key, last entries key = last entries' key) :
    sortedMap entries = sortedMap entries' := by
  refine sorted_ext _ _ (sorted_sortedMap entries) (sorted_sortedMap entries') fun key => ?_
  rw [lookup_sortedMap, lookup_sortedMap, h key]

theorem last_sortedMap : last (sortedMap entries) key = last entries key := by
  rw [last_of_nodup _ (nodup_sortedMap entries), lookup_sortedMap]

theorem last_indexMap : last (indexMap entries) key = last entries key := by
  rw [last_of_nodup _ (nodup_indexMap entries), lookup_indexMap]

theorem sortedMap_map_sortedMap :
    sortedMap ((sortedMap entries).map fun entry => (entry.1, f entry.1 entry.2)) =
      sortedMap (entries.map fun entry => (entry.1, f entry.1 entry.2)) := by
  refine sortedMap_ext _ _ fun key => ?_
  rw [last_map, last_map, last_sortedMap]

theorem sortedMap_map_indexMap :
    sortedMap ((indexMap entries).map fun entry => (entry.1, f entry.1 entry.2)) =
      sortedMap (entries.map fun entry => (entry.1, f entry.1 entry.2)) := by
  refine sortedMap_ext _ _ fun key => ?_
  rw [last_map, last_map, last_indexMap]

theorem insertSorted_map {κ' : Type} [LinearOrder κ'] {f : κ → κ'} (hf : StrictMono f) (g : ν → μ) :
    insertSorted (entries.map fun entry => (f entry.1, g entry.2)) (f key) (g value) =
      (insertSorted entries key value).map fun entry => (f entry.1, g entry.2) := by
  induction entries with
  | nil => rfl
  | cons entry rest ih =>
    rw [map_cons, insertSorted, insertSorted, ih]
    simp only [hf.lt_iff_lt, hf.injective.eq_iff]
    split_ifs <;> rfl

theorem sortedMap_map {κ' : Type} [LinearOrder κ'] {f : κ → κ'} (hf : StrictMono f) (g : ν → μ) :
    sortedMap (entries.map fun entry => (f entry.1, g entry.2)) =
      (sortedMap entries).map fun entry => (f entry.1, g entry.2) := by
  induction entries using List.reverseRecOn with
  | nil => rfl
  | append_singleton entries entry ih =>
    unfold sortedMap at ih ⊢
    rw [map_append, map_singleton, foldl_concat, foldl_concat, ih]
    exact insertSorted_map _ entry.1 entry.2 hf g

theorem perm_insertSorted (h : key ∉ entries.map Prod.fst) :
    (insertSorted entries key value).Perm ((key, value) :: entries) := by
  induction entries with
  | nil => exact List.Perm.refl _
  | cons entry rest ih =>
    rw [map_cons, mem_cons, not_or] at h
    unfold insertSorted
    split_ifs with hlt heq
    · exact List.Perm.refl _
    · exact absurd heq h.1
    · exact ((ih h.2).cons entry).trans (List.Perm.swap _ _ _)

theorem perm_sortedMap (h : (entries.map Prod.fst).Nodup) : (sortedMap entries).Perm entries := by
  induction entries using List.reverseRecOn with
  | nil => exact List.Perm.refl _
  | append_singleton entries entry ih =>
    rw [map_append, nodup_append] at h
    have hentries := ih h.1
    have hnew : entry.1 ∉ (sortedMap entries).map Prod.fst := by
      intro hin
      exact h.2.2 entry.1 ((hentries.map Prod.fst).mem_iff.mp hin) entry.1 mem_cons_self rfl
    have hsnoc : sortedMap (entries ++ [entry]) = insertSorted (sortedMap entries) entry.1 entry.2 := by
      unfold sortedMap
      rw [foldl_append]
      rfl
    rw [hsnoc]
    exact ((perm_insertSorted _ entry.1 entry.2 hnew).trans (hentries.cons entry)).trans
      (perm_append_singleton entry entries).symm

theorem key_mem_sortedMap {entries : Entries κ ν} {key : κ} (h : key ∈ entries.map Prod.fst) :
    key ∈ (sortedMap entries).map Prod.fst := by
  by_contra hnot
  have hlookup : (sortedMap entries).lookup key = none := by
    refine lookup_eq_none_iff.mpr fun found hfound => bne_iff_ne.mpr ?_
    rintro rfl
    exact hnot (mem_map_of_mem hfound)
  rw [lookup_sortedMap] at hlookup
  obtain ⟨entry, hentry, rfl⟩ := mem_map.mp h
  exact bne_iff_ne.mp (lookup_eq_none_iff.mp hlookup entry (mem_reverse.mpr hentry)) rfl

theorem sortedMap_ne_nil : sortedMap (entry :: entries) ≠ [] := by
  intro hnil
  have hkey : entry.1 ∈ (entry :: entries).map Prod.fst := mem_cons_self
  have hmem := key_mem_sortedMap hkey
  rw [hnil] at hmem
  cases hmem

theorem lookup_of_mem {entries : Entries κ ν} (h : Sorted entries)
    {entry : κ × ν} (hentry : entry ∈ entries) : entries.lookup entry.1 = some entry.2 := by
  induction entries with
  | nil => cases hentry
  | cons first rest ih =>
    obtain ⟨hbelow, hrest⟩ := pairwise_cons.mp h
    rw [lookup_cons_ite]
    obtain rfl | hlater := mem_cons.mp hentry
    · exact if_pos rfl
    · rw [if_neg (hbelow entry hlater).ne']
      exact ih hrest hlater

theorem mem_of_lookup {entries : Entries κ ν} {key : κ} {value : ν}
    (h : entries.lookup key = some value) : (key, value) ∈ entries := by
  obtain ⟨front, back, rfl, -⟩ := lookup_eq_some_iff.mp h
  exact mem_append_right _ mem_cons_self

theorem lookup_iff {entries : Entries κ ν} (h : Sorted entries)
    (key : κ) (value : ν) : entries.lookup key = some value ↔ (key, value) ∈ entries :=
  ⟨mem_of_lookup, lookup_of_mem h⟩

theorem sorted_ext_mem {entries entries' : Entries κ ν}
    (h : Sorted entries) (h' : Sorted entries') (hmem : ∀ entry, entry ∈ entries ↔ entry ∈ entries') :
    entries = entries' := by
  refine sorted_ext entries entries' h h' fun key => Option.ext fun value => ?_
  rw [lookup_iff h, lookup_iff h', hmem]

theorem sorted_map {entries : Entries κ ν} (h : Sorted entries)
    (f : κ → ν → μ) : Sorted (entries.map fun entry => (entry.1, f entry.1 entry.2)) :=
  pairwise_map.mpr h

end Stakit.EntryMaps
