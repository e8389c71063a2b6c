import Stakit.OrmPrecedence

set_option autoImplicit false

namespace Stakit.Orm
open SqlGrammar List

def BoundAt (binds : List Value) (bound : ℕ) (given : List Value) : Prop :=
  ∃ front back, binds = front ++ (given.map Value.payload ++ back) ∧ front.length = bound

theorem BoundAt.first {binds given : List Value} {bound : ℕ} {value : Value}
    (h : BoundAt binds bound (value :: given)) : binds[bound]? = some value.payload := by
  obtain ⟨front, back, rfl, rfl⟩ := h
  rw [List.getElem?_append_right (Nat.le_refl _), Nat.sub_self]
  rfl

theorem BoundAt.rest {binds given : List Value} {bound : ℕ} {value : Value}
    (h : BoundAt binds bound (value :: given)) : BoundAt binds (bound + 1) given := by
  obtain ⟨front, back, rfl, rfl⟩ := h
  refine ⟨front ++ [value.payload], back, ?_, ?_⟩
  · rw [append_assoc]
    rfl
  · rw [length_append, length_singleton]

theorem BoundAt.split {binds first given : List Value} {bound : ℕ}
    (h : BoundAt binds bound (first ++ given)) :
    BoundAt binds bound first ∧ BoundAt binds (bound + first.length) given := by
  obtain ⟨front, back, rfl, rfl⟩ := h
  refine ⟨⟨front, given.map Value.payload ++ back, ?_, rfl⟩,
    ⟨front ++ first.map Value.payload, back, ?_, ?_⟩⟩
  · rw [map_append, append_assoc]
  · rw [map_append, append_assoc, append_assoc]
  · rw [length_append, length_map]

theorem values_listed (first : Option String) (items : List Value) :
    values (listed first (fun item => [.bind item]) items) = items := by
  induction items generalizing first with
  | nil => rfl
  | cons item items ih =>
    rw [listed, values_append, values_append, ih]
    cases first <;> rfl

def commas : List (List Token) → List Token
  | [] => []
  | first :: rest => first ++ rest.flatMap (.infixed .comma :: ·)

section
variable {α : Type} (d : Dialect) (slots : α → List Slot)

/-- The tokens of the items of a list, the first of them after `bound` values. -/
def itemTokens (bound : ℕ) : List α → List (List Token)
  | [] => []
  | item :: rest =>
    slotTokens d bound (slots item) :: itemTokens (bound + (values (slots item)).length) rest

theorem slotTokens_more (bound : ℕ) (items : List α) :
    slotTokens d bound (listed (some ", ") slots items) =
      (itemTokens d slots bound items).flatMap (.infixed .comma :: ·) := by
  induction items generalizing bound with
  | nil => rfl
  | cons item rest ih =>
    have hcomma : lexText ", " = [.infixed .comma] := rfl
    rw [listed, itemTokens, flatMap_cons, ← ih, append_assoc, Option.elim,
      cons_append, nil_append, slotTokens_text, slotTokens_append, hcomma]
    rfl

theorem slotTokens_listed (bound : ℕ) (items : List α) :
    slotTokens d bound (listed none slots items) = commas (itemTokens d slots bound items) := by
  cases items with
  | nil => rfl
  | cons item rest =>
    rw [listed, Option.elim, nil_append, slotTokens_append, slotTokens_more]
    rfl

theorem values_listed_eq (first : Option String) (items : List α) :
    values (listed first slots items) = items.flatMap fun item => values (slots item) := by
  induction items generalizing first with
  | nil => rfl
  | cons item rest ih =>
    rw [listed, values_append, values_append, ih, flatMap_cons]
    cases first <;> rfl

end

end Stakit.Orm
