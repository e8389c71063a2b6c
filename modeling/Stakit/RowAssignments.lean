import Mathlib.Data.List.Induction
import Mathlib.Data.List.Nodup

set_option autoImplicit false

namespace Stakit.RowAssignments
open List
open Function (update_self update_of_ne update)

abbrev Assignment (K V : Type) : Type := K × ((K → V) → V)

variable {K V : Type}

theorem notMem_after {before after : List (Assignment K V)} {a : Assignment K V}
    (hdistinct : ((before ++ a :: after).map Prod.fst).Nodup) : a.1 ∉ after.map Prod.fst := by
  rw [map_append, map_cons] at hdistinct
  exact (nodup_cons.mp hdistinct.of_append_right).1

theorem pairwise_iff_before {α : Type} (R : α → α → Prop) (items : List α) :
    items.Pairwise R ↔ ∀ before item after, items = before ++ item :: after →
      ∀ earlier ∈ before, R earlier item := by
  constructor
  · intro h before item after hsplit earlier hearlier
    rw [hsplit, pairwise_append] at h
    exact h.2.2 earlier hearlier item mem_cons_self
  · intro h
    induction items using List.reverseRecOn with
    | nil => exact List.Pairwise.nil
    | append_singleton rest last ih =>
      refine pairwise_append.mpr ⟨ih fun before item after hsplit => ?_,
        pairwise_singleton R last, fun earlier hearlier item hitem => ?_⟩
      · refine h before item (after ++ [last]) ?_
        rw [hsplit, append_assoc, cons_append]
      · rw [mem_singleton.mp hitem]
        exact h rest last [] rfl earlier hearlier

variable [DecidableEq K]

/-- The expressions are all read on `seen`. -/
def assignAll (assignments : List (Assignment K V)) (seen row : K → V) : K → V :=
  assignments.foldl (fun row a => update row a.1 (a.2 seen)) row

def assignEach (assignments : List (Assignment K V)) (row : K → V) : K → V :=
  assignments.foldl (fun row a => update row a.1 (a.2 row)) row

variable (first : List (Assignment K V)) (a : Assignment K V)
  (assignments : List (Assignment K V)) (seen row : K → V)

theorem assignAll_append (rest : List (Assignment K V)) (seen row : K → V) :
    assignAll (first ++ rest) seen row = assignAll rest seen (assignAll first seen row) :=
  foldl_append

theorem assignEach_append (rest : List (Assignment K V)) (row : K → V) :
    assignEach (first ++ rest) row = assignEach rest (assignEach first row) :=
  foldl_append

theorem assignAll_snoc : assignAll (first ++ [a]) seen row =
      update (assignAll first seen row) a.1 (a.2 seen) :=
  assignAll_append first [a] seen row

theorem assignEach_snoc : assignEach (first ++ [a]) row =
      update (assignEach first row) a.1 (a.2 (assignEach first row)) :=
  assignEach_append first [a] row

theorem assignAll_other (key : K) (hkey : key ∉ assignments.map Prod.fst) :
    assignAll assignments seen row key = row key := by
  induction assignments generalizing row with
  | nil => rfl
  | cons a rest ih =>
    rw [map_cons, mem_cons, not_or] at hkey
    have hrest := ih (update row a.1 (a.2 seen)) hkey.2
    rw [update_of_ne hkey.1] at hrest
    exact hrest

theorem assignEach_other {key : K} (hkey : key ∉ assignments.map Prod.fst) :
    assignEach assignments row key = row key := by
  induction assignments generalizing row with
  | nil => rfl
  | cons a rest ih =>
    rw [map_cons, mem_cons, not_or] at hkey
    have hrest := ih (update row a.1 (a.2 row)) hkey.2
    rw [update_of_ne hkey.1] at hrest
    exact hrest

theorem assignAll_at {before after : List (Assignment K V)} {a : Assignment K V}
    (seen row : K → V) (hdistinct : ((before ++ a :: after).map Prod.fst).Nodup) :
    assignAll (before ++ a :: after) seen row a.1 = a.2 seen := by
  have hafter := assignAll_other after seen
    (update (assignAll before seen row) a.1 (a.2 seen)) a.1
    (notMem_after hdistinct)
  rw [update_self] at hafter
  rw [assignAll_append]
  exact hafter

theorem assignEach_at {before after : List (Assignment K V)} {a : Assignment K V} (row : K → V)
    (hdistinct : ((before ++ a :: after).map Prod.fst).Nodup) :
    assignEach (before ++ a :: after) row a.1 = a.2 (assignEach before row) := by
  have hafter := assignEach_other after
    (update (assignEach before row) a.1 (a.2 (assignEach before row)))
    (notMem_after hdistinct)
  rw [update_self] at hafter
  rw [assignEach_append]
  exact hafter

def Undisturbed (assignments : List (Assignment K V)) (row : K → V) : Prop :=
  ∀ before a after, assignments = before ++ a :: after → a.2 (assignAll before row row) = a.2 row

theorem assignEach_eq (h : Undisturbed assignments row) :
    assignEach assignments row = assignAll assignments row row := by
  induction assignments using List.reverseRecOn with
  | nil => rfl
  | append_singleton before a ih =>
    have hbefore : Undisturbed before row := by
      intro first b rest hsplit
      refine h first b (rest ++ [a]) ?_
      rw [hsplit, append_assoc, cons_append]
    have hlast := h before a [] rfl
    rw [assignEach_snoc, assignAll_snoc, ih hbefore, hlast]

theorem assignEach_eq_iff (hdistinct : (assignments.map Prod.fst).Nodup) :
    assignEach assignments row = assignAll assignments row row ↔ Undisturbed assignments row := by
  refine ⟨fun hsame => ?_, assignEach_eq assignments row⟩
  have heach (before after : List (Assignment K V)) (a : Assignment K V)
      (hsplit : assignments = before ++ a :: after) : a.2 (assignEach before row) = a.2 row := by
    rw [hsplit] at hsame hdistinct
    rw [← assignEach_at row hdistinct, hsame]
    exact assignAll_at row row hdistinct
  have hprefix (before after : List (Assignment K V)) (hsplit : assignments = before ++ after) :
      assignEach before row = assignAll before row row := by
    induction before using List.reverseRecOn generalizing after with
    | nil => rfl
    | append_singleton before a ih =>
      rw [append_assoc, singleton_append] at hsplit
      have hvalue := heach before after a hsplit
      rw [assignEach_snoc, assignAll_snoc, hvalue, ih (a :: after) hsplit]
  intro before a after hsplit
  rw [← hprefix before (a :: after) hsplit]
  exact heach before after a hsplit

end Stakit.RowAssignments
