import Mathlib.Data.List.Nodup
import Mathlib.Data.List.Perm.Basic

set_option autoImplicit false

namespace Stakit.GreedyOrders
open List

variable {α : Type}

def Before (items : List α) (first second : α) : Prop := [first, second].Sublist items

structure GreedyOrder (needs : α → α → Prop) (items order : List α) : Prop where
  perm : order.Perm items
  met : ∀ front item back, order = front ++ item :: back →
    ∀ other ∈ items, needs item other → other ∈ front
  earliest : ∀ front item back, order = front ++ item :: back →
    ∀ other ∈ back, Before items other item → ∃ need ∈ items, needs other need ∧ need ∉ front

theorem before_total {items : List α} {first second : α} (hne : first ≠ second)
    (hfirst : first ∈ items) (hsecond : second ∈ items) :
    Before items first second ∨ Before items second first := by
  induction items with
  | nil => cases hfirst
  | cons item rest ih =>
    rcases mem_cons.mp hfirst with rfl | hin
    · have hrest : second ∈ rest := (mem_cons.mp hsecond).resolve_left hne.symm
      exact .inl ((singleton_sublist.mpr hrest).cons_cons first)
    · rcases mem_cons.mp hsecond with rfl | hrest
      · exact .inr ((singleton_sublist.mpr hin).cons_cons second)
      · exact (ih hin hrest).imp (fun h => h.cons item) fun h => h.cons item

theorem Before.mem_front (front back : List α) (item other : α)
    (nodup : (front ++ item :: back).Nodup) (h : Before (front ++ item :: back) other item) :
    other ∈ front := by
  induction front with
  | nil =>
    have hout : item ∉ back := (nodup_cons.mp nodup).1
    cases h with
    | cons _ hback => exact absurd (hback.subset (mem_cons_of_mem other mem_cons_self)) hout
    | cons_cons _ hback => exact absurd (hback.subset mem_cons_self) hout
  | cons first front ih =>
    cases h with
    | cons _ hrest => exact mem_cons_of_mem first (ih (nodup_cons.mp nodup).2 hrest)
    | cons_cons _ _ => exact mem_cons_self

theorem Before.erase [DecidableEq α] (items : List α) (item first second : α)
    (hfirst : first ≠ item) (hsecond : second ≠ item) (h : Before items first second) :
    Before (items.erase item) first second := by
  have herase : [first, second].erase item = [first, second] := by
    apply erase_of_not_mem
    intro hmem
    rcases mem_cons.mp hmem with heq | hmem
    · exact hfirst heq.symm
    · exact hsecond (mem_singleton.mp hmem).symm
  have hsub := List.Sublist.erase item h
  rw [herase] at hsub
  exact hsub

section
variable (needs : α → α → Prop) (items left right : List α)
  (hleft : GreedyOrder needs items left) (hright : GreedyOrder needs items right)
include hleft hright

theorem not_passed {front : List α} {item other : α} {leftBack rightBack : List α}
    (hl : left = front ++ item :: leftBack) (hr : right = front ++ other :: rightBack)
    (hmem : item ∈ rightBack) : ¬Before items item other := by
  intro hbefore
  obtain ⟨need, hneed, hneeds, hout⟩ :=
    hright.earliest front other rightBack hr item hmem hbefore
  exact hout (hleft.met front item leftBack hl need hneed hneeds)

theorem backs_eq (front leftBack rightBack : List α) (hl : left = front ++ leftBack)
    (hr : right = front ++ rightBack) : leftBack = rightBack := by
  have hperm : leftBack.Perm rightBack := by
    have hwhole : (front ++ leftBack).Perm (front ++ rightBack) :=
      hl ▸ hr ▸ hleft.perm.trans hright.perm.symm
    exact (perm_append_left_iff front).mp hwhole
  induction leftBack generalizing front rightBack with
  | nil => exact (nil_perm.mp hperm).symm
  | cons item leftBack ih =>
    cases rightBack with
    | nil => exact absurd (perm_nil.mp hperm) (cons_ne_nil item leftBack)
    | cons other rightBack =>
      have hitems : ∀ found ∈ leftBack, found ∈ items := fun found hfound =>
        hleft.perm.subset (hl ▸ mem_append_right front (mem_cons_of_mem item hfound))
      by_cases heq : item = other
      · subst heq
        rw [ih (front ++ [item]) rightBack (by rw [hl, append_assoc]; rfl)
          (by rw [hr, append_assoc]; rfl) (List.Perm.cons_inv hperm)]
      · have hitem : item ∈ rightBack :=
          (mem_cons.mp (hperm.subset mem_cons_self)).resolve_left heq
        have hother : other ∈ leftBack :=
          (mem_cons.mp (hperm.symm.subset mem_cons_self)).resolve_left (Ne.symm heq)
        have hmem : item ∈ items :=
          hleft.perm.subset (hl ▸ mem_append_right front mem_cons_self)
        exfalso
        rcases before_total heq hmem (hitems other hother) with hlt | hgt
        · exact not_passed needs items left right hleft hright hl hr hitem hlt
        · exact not_passed needs items right left hright hleft hr hl hother hgt

theorem GreedyOrder.unique : left = right :=
  backs_eq needs items left right hleft hright [] left right rfl rfl

end

def Takes [DecidableEq α] (needs : α → α → Prop) (items : List α) : List α → List α → List α → Prop
  | _, left, [] => left = []
  | front, left, item :: rest =>
    item ∈ left ∧ (∀ other ∈ items, needs item other → other ∈ front) ∧
      (∀ other, Before left other item → ∃ need ∈ items, needs other need ∧ need ∉ front) ∧
      Takes needs items (front ++ [item]) (left.erase item) rest

section
variable [DecidableEq α] (needs : α → α → Prop) (items : List α)

theorem Takes.perm (front left rest : List α) (h : Takes needs items front left rest) :
    rest.Perm left := by
  induction rest generalizing front left with
  | nil => rw [show left = [] from h]
  | cons item rest ih =>
    obtain ⟨hmem, _, _, hrest⟩ := h
    exact ((ih _ _ hrest).cons item).trans (perm_cons_erase hmem).symm

theorem Takes.cut (front left rest : List α) (nodup : left.Nodup)
    (h : Takes needs items front left rest) (taken back : List α) (item : α)
    (split : rest = taken ++ item :: back) :
    (∀ other ∈ items, needs item other → other ∈ front ++ taken) ∧
      ∀ other ∈ back, Before left other item →
        ∃ need ∈ items, needs other need ∧ need ∉ front ++ taken := by
  induction rest generalizing front left taken with
  | nil => cases taken <;> cases split
  | cons first rest ih =>
    have hperm := Takes.perm needs items front left (first :: rest) h
    obtain ⟨hmem, hmet, hearliest, hrest⟩ := h
    cases taken with
    | nil =>
      obtain ⟨rfl, rfl⟩ := List.cons.inj split
      rw [append_nil]
      exact ⟨hmet, fun other _ hbefore => hearliest other hbefore⟩
    | cons second taken =>
      obtain ⟨rfl, rfl⟩ := List.cons.inj split
      have hcut := ih _ _ (nodup.erase first) hrest taken rfl
      rw [append_assoc, singleton_append] at hcut
      refine ⟨hcut.1, fun other hother hbefore => hcut.2 other hother ?_⟩
      have hout : first ∉ taken ++ item :: back :=
        (nodup_cons.mp (hperm.nodup_iff.mpr nodup)).1
      refine Before.erase left first other item ?_ ?_ hbefore
      · rintro rfl
        exact hout (mem_append_right taken (mem_cons_of_mem item hother))
      · rintro rfl
        exact hout (mem_append_right taken mem_cons_self)

theorem Takes.greedy {order : List α} (nodup : items.Nodup)
    (h : Takes needs items [] items order) : GreedyOrder needs items order where
  perm := Takes.perm needs items [] items order h
  met := fun front item back split =>
    (Takes.cut needs items [] items order nodup h front back item split).1
  earliest := fun front item back split =>
    (Takes.cut needs items [] items order nodup h front back item split).2

end

end Stakit.GreedyOrders
