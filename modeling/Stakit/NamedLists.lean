import Mathlib.Data.List.Nodup

set_option autoImplicit false

namespace Stakit.NamedLists
open List

variable {κ ι ν : Type} [DecidableEq ι] (norm : κ → ι)

def values (entries : List (κ × ν)) (name : ι) : List ν :=
  (entries.filter fun entry => decide (norm entry.1 = name)).map Prod.snd

def overlay : List (κ × ν) → κ × ν → List (κ × ν)
  | [], entry => [entry]
  | first :: rest, entry =>
    if norm first.1 = norm entry.1 then (first.1, entry.2) :: rest
    else first :: overlay rest entry

def overlayAll (entries more : List (κ × ν)) : List (κ × ν) := more.foldl (overlay norm) entries

def insert (entries : List (κ × ν)) (entry : κ × ν) : List (κ × ν) :=
  entries.filter (fun other => decide (norm other.1 ≠ norm entry.1)) ++ [entry]

def insertAll (entries more : List (κ × ν)) : List (κ × ν) := more.foldl (insert norm) entries

variable (entries more : List (κ × ν)) (name : ι)

@[simp] theorem values_nil : values norm ([] : List (κ × ν)) name = [] := rfl

theorem values_cons (first : κ × ν) (rest : List (κ × ν)) (name : ι) :
    values norm (first :: rest) name =
      if norm first.1 = name then first.2 :: values norm rest name else values norm rest name := by
  unfold values
  rw [filter_cons]
  by_cases h : norm first.1 = name <;> simp [h]

theorem values_append :
    values norm (entries ++ more) name = values norm entries name ++ values norm more name := by
  simp [values]

theorem mem_values (value : ν) :
    value ∈ values norm entries name ↔ ∃ entry ∈ entries, norm entry.1 = name ∧ entry.2 = value := by
  simp only [values, mem_map, mem_filter, decide_eq_true_eq, and_assoc]

theorem values_overlay (entry : κ × ν) (name : ι) : values norm (overlay norm entries entry) name =
      if norm entry.1 = name then entry.2 :: (values norm entries name).tail
      else values norm entries name := by
  induction entries with
  | nil => simp [overlay, values_cons]
  | cons first rest ih =>
    by_cases hsame : norm first.1 = norm entry.1
    · rw [overlay, if_pos hsame, values_cons, values_cons, hsame]
      split <;> rfl
    · simp only [overlay, if_neg hsame, values_cons, ih]
      by_cases hfirst : norm first.1 = name
      · have hentry : norm entry.1 ≠ name := fun h => hsame (hfirst.trans h.symm)
        rw [if_pos hfirst, if_neg hentry, if_neg hentry, if_pos hfirst]
      · rw [if_neg hfirst, if_neg hfirst]

theorem values_overlayAll : values norm (overlayAll norm entries more) name =
      (values norm more name).getLast?.elim (values norm entries name)
        fun value => value :: (values norm entries name).tail := by
  induction more generalizing entries with
  | nil => rfl
  | cons entry more ih =>
    change values norm (overlayAll norm (overlay norm entries entry) more) name = _
    rw [ih, values_overlay, values_cons]
    by_cases hname : norm entry.1 = name
    · simp only [if_pos hname, List.getLast?_cons]
      cases (values norm more name).getLast? <;> rfl
    · rw [if_neg hname, if_neg hname]

theorem values_insert (entry : κ × ν) (name : ι) : values norm (insert norm entries entry) name =
      if norm entry.1 = name then [entry.2] else values norm entries name := by
  unfold insert
  rw [values_append, values_cons, values_nil]
  unfold values
  rw [filter_filter]
  by_cases hname : norm entry.1 = name
  · rw [if_pos hname, if_pos hname, filter_eq_nil_iff.mpr]
    · rfl
    · intro other _ hboth
      simp only [Bool.and_eq_true, decide_eq_true_eq] at hboth
      exact hboth.2 (hboth.1.trans hname.symm)
  · rw [if_neg hname, if_neg hname, append_nil]
    congr 1
    refine filter_congr fun other _ => ?_
    by_cases hother : norm other.1 = name
    · simp [hother, Ne.symm hname]
    · simp [hother]

theorem values_insertAll : values norm (insertAll norm entries more) name =
      (values norm more name).getLast?.elim (values norm entries name) fun value => [value] := by
  induction more generalizing entries with
  | nil => rfl
  | cons entry more ih =>
    change values norm (insertAll norm (insert norm entries entry) more) name = _
    rw [ih, values_insert, values_cons]
    by_cases hname : norm entry.1 = name
    · simp only [if_pos hname, List.getLast?_cons]
      cases (values norm more name).getLast? <;> rfl
    · rw [if_neg hname, if_neg hname]

theorem values_filter (named : ι → Bool) (good : ν → Bool) (name : ι) :
    values norm (entries.filter fun entry => named (norm entry.1) && good entry.2) name =
      if named name then (values norm entries name).filter good else [] := by
  induction entries with
  | nil => simp
  | cons entry entries ih =>
    rw [values_cons, filter_cons]
    by_cases hname : norm entry.1 = name
    · cases hnamed : named name <;> cases hgood : good entry.2 <;>
        simp [hname, hnamed, hgood, values_cons, ih]
    · rw [if_neg hname, ← ih]
      split
      · rw [values_cons, if_neg hname]
      · rfl

theorem values_without (except name : ι) :
    values norm (entries.filter fun entry => decide (norm entry.1 ≠ except)) name =
      if name = except then [] else values norm entries name := by
  have hfilter := values_filter norm entries (fun other => decide (other ≠ except)) (fun _ => true) name
  simp only [Bool.and_true] at hfilter
  rw [hfilter, filter_true]
  by_cases h : name = except <;> simp [h]

section
variable [DecidableEq κ]

variable (entries more : List (κ × ν)) (entry : κ × ν) (key : κ)

theorem values_spelled (spelling : κ)
    (hone : ∀ entry ∈ entries, norm entry.1 = norm spelling → entry.1 = spelling) :
    values norm entries (norm spelling) = values id entries spelling := by
  unfold values
  congr 1
  refine filter_congr fun entry hmem => ?_
  by_cases h : entry.1 = spelling
  · simp [h]
  · have hnorm : norm entry.1 ≠ norm spelling := fun hsame => h (hone entry hmem hsame)
    simp [h, hnorm]

theorem overlay_keys : (overlay id entries entry).map Prod.fst =
      if entry.1 ∈ entries.map Prod.fst then entries.map Prod.fst
      else entries.map Prod.fst ++ [entry.1] := by
  induction entries with
  | nil => simp [overlay]
  | cons first rest ih =>
    by_cases hsame : first.1 = entry.1
    · simp [overlay, hsame]
    · have hne : entry.1 ≠ first.1 := fun h => hsame h.symm
      simp only [overlay, id_eq, if_neg hsame, map_cons, ih, mem_cons, hne, false_or]
      split <;> simp

theorem mem_overlay_keys : key ∈ (overlay id entries entry).map Prod.fst ↔
      key ∈ entries.map Prod.fst ∨ key = entry.1 := by
  rw [overlay_keys]
  split
  · next hmem => exact ⟨.inl, fun h => h.elim id fun heq => heq ▸ hmem⟩
  · simp

theorem overlay_distinct (h : (entries.map Prod.fst).Nodup) :
    ((overlay id entries entry).map Prod.fst).Nodup := by
  rw [overlay_keys]
  split
  · exact h
  · next hnew => exact nodup_append.mpr ⟨h, nodup_singleton _, fun a ha b hb hab =>
      hnew (by rw [mem_singleton] at hb; rw [← hb, ← hab]; exact ha)⟩

theorem mem_overlayAll_keys : key ∈ (overlayAll id entries more).map Prod.fst ↔
      key ∈ entries.map Prod.fst ∨ key ∈ more.map Prod.fst := by
  induction more generalizing entries with
  | nil => simp [overlayAll]
  | cons entry more ih =>
    change key ∈ (overlayAll id (overlay id entries entry) more).map Prod.fst ↔ _
    rw [ih, mem_overlay_keys, map_cons, mem_cons, or_assoc]

theorem overlayAll_distinct (h : (entries.map Prod.fst).Nodup) :
    ((overlayAll id entries more).map Prod.fst).Nodup := by
  induction more generalizing entries with
  | nil => exact h
  | cons entry more ih => exact ih _ (overlay_distinct entries entry h)

theorem values_overlay_other {name : ι} (h : norm entry.1 ≠ name) :
    values norm (overlay id entries entry) name = values norm entries name := by
  induction entries with
  | nil => rw [overlay, values_cons, if_neg h]
  | cons first rest ih =>
    by_cases hsame : first.1 = entry.1
    · have hfirst : norm first.1 ≠ name := by rwa [hsame]
      simp only [overlay, id_eq, if_pos hsame, values_cons, if_neg hfirst]
    · simp only [overlay, id_eq, if_neg hsame, values_cons, ih]

theorem values_overlayAll_other {name : ι} (h : values norm more name = []) :
    values norm (overlayAll id entries more) name = values norm entries name := by
  induction more generalizing entries with
  | nil => rfl
  | cons entry more ih =>
    rw [values_cons] at h
    have hentry : norm entry.1 ≠ name := fun hname => by
      rw [if_pos hname] at h
      cases h
    rw [if_neg hentry] at h
    change values norm (overlayAll id (overlay id entries entry) more) name = _
    rw [ih _ h, values_overlay_other norm entries entry hentry]

theorem values_distinct (h : (entries.map Prod.fst).Nodup) :
    (values id entries key).length ≤ 1 := by
  induction entries with
  | nil => simp
  | cons first rest ih =>
    rw [map_cons, nodup_cons] at h
    rw [values_cons, id_eq]
    split
    · next hfirst =>
      have hnone : values id rest key = [] := by
        rw [eq_nil_iff_forall_not_mem]
        intro value hvalue
        obtain ⟨entry, hentry, hkey, -⟩ := (mem_values id rest key value).mp hvalue
        refine h.1 (mem_map.mpr ⟨entry, hentry, ?_⟩)
        exact hkey.trans hfirst.symm
      rw [hnone]
      exact Nat.le_refl 1
    · exact ih h.2

end

end Stakit.NamedLists
