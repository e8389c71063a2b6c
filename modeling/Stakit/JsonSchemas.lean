import Stakit.ExceptLoops
import Stakit.SerdeValue

set_option autoImplicit false

namespace Stakit.JsonSchema
open ExceptLoops SerdeJson

abbrev Json := Value ℚ

inductive Keyword
  | type (name : String)
  | properties (props : List (String × List Keyword))
  | required (names : List String)
  | items (schema : List Keyword)
  | prefixItems (schemas : List (List Keyword))
  | minItems (n : ℕ)
  | maxItems (n : ℕ)
  | minLength (n : ℕ)
  | maxLength (n : ℕ)
  | minimum (bound : ℚ)
  | maximum (bound : ℚ)
  | const (text : String)
  | enum (texts : List String)
  | additionalProperties (schema : List Keyword)
  | oneOf (schemas : List (List Keyword))
  | not (schema : List Keyword)
  | note (name text : String)

abbrev Schema := List Keyword

def Keyword.key : Keyword → String
  | .type _ => "type"
  | .properties _ => "properties"
  | .required _ => "required"
  | .items _ => "items"
  | .prefixItems _ => "prefixItems"
  | .minItems _ => "minItems"
  | .maxItems _ => "maxItems"
  | .minLength _ => "minLength"
  | .maxLength _ => "maxLength"
  | .minimum _ => "minimum"
  | .maximum _ => "maximum"
  | .const _ => "const"
  | .enum _ => "enum"
  | .additionalProperties _ => "additionalProperties"
  | .oneOf _ => "oneOf"
  | .not _ => "not"
  | .note name _ => name

/-- A later keyword of the same key replaces an earlier one. -/
def insert (keyword : Keyword) (schema : Schema) : Schema :=
  schema.filter (fun other => other.key ≠ keyword.key) ++ [keyword]

def typeOf (schema : Schema) : Option String :=
  schema.findSome? fun keyword =>
    match keyword with
    | .type name => some name
    | _ => none

def HasType : String → Json → Prop
  | "null", .null | "boolean", .bool _ | "string", .string _ | "array", .array _
  | "object", .object _ | "number", .number _ => True
  | "integer", .number q => q.den = 1
  | _, _ => False

mutual

def Keyword.Holds : Keyword → Json → Prop
  | .type name, json => HasType name json
  | .properties props, json => ∀ fields, json = .object fields → propertiesHold props fields
  | .required names, json =>
    ∀ fields, json = .object fields → ∀ name ∈ names, name ∈ fields.map Prod.fst
  | .items schema, json => ∀ items, json = .array items → ∀ item ∈ items, Satisfies schema item
  | .prefixItems schemas, json => ∀ items, json = .array items → prefixHolds schemas items
  | .minItems n, json => ∀ items, json = .array items → n ≤ items.length
  | .maxItems n, json => ∀ items, json = .array items → items.length ≤ n
  | .minLength n, json => ∀ text, json = .string text → n ≤ text.toList.length
  | .maxLength n, json => ∀ text, json = .string text → text.toList.length ≤ n
  | .minimum bound, json => ∀ q, json = .number q → bound ≤ q
  | .maximum bound, json => ∀ q, json = .number q → q ≤ bound
  | .const text, json => json = .string text
  | .enum texts, json => ∃ text ∈ texts, json = .string text
  | .additionalProperties schema, json =>
    ∀ fields, json = .object fields → ∀ field ∈ fields, Satisfies schema field.2
  | .oneOf schemas, json => exactlyOne schemas json
  | .not schema, json => ¬Satisfies schema json
  | .note _ _, _ => True

def Satisfies : List Keyword → Json → Prop
  | [], _ => True
  | keyword :: schema, json => keyword.Holds json ∧ Satisfies schema json

def propertiesHold : List (String × List Keyword) → List (String × Json) → Prop
  | [], _ => True
  | (name, schema) :: props, fields =>
    (∀ value, fields.lookup name = some value → Satisfies schema value) ∧ propertiesHold props fields

def prefixHolds : List (List Keyword) → List Json → Prop
  | schema :: schemas, item :: items => Satisfies schema item ∧ prefixHolds schemas items
  | _, _ => True

def exactlyOne : List (List Keyword) → Json → Prop
  | [], _ => False
  | schema :: schemas, json =>
    (Satisfies schema json ∧ noneOf schemas json) ∨ (¬Satisfies schema json ∧ exactlyOne schemas json)

def noneOf : List (List Keyword) → Json → Prop
  | [], _ => True
  | schema :: schemas, json => ¬Satisfies schema json ∧ noneOf schemas json

end

theorem satisfies_iff (schema : Schema) (json : Json) :
    Satisfies schema json ↔ ∀ keyword ∈ schema, keyword.Holds json := by
  induction schema with
  | nil => exact iff_of_true (by rw [Satisfies]; trivial) nofun
  | cons keyword schema ih => rw [Satisfies, ih, List.forall_mem_cons]

theorem satisfies_insert {schema : Schema} {json : Json} {keyword : Keyword}
    (h : Satisfies schema json) (hkeyword : keyword.Holds json) :
    Satisfies (insert keyword schema) json := by
  rw [satisfies_iff] at h ⊢
  intro other hother
  obtain hold | hnew := List.mem_append.mp hother
  · exact h other (List.mem_filter.mp hold).1
  · rwa [List.mem_singleton.mp hnew]

theorem propertiesHold_iff (props : List (String × Schema)) (fields : List (String × Json)) :
    propertiesHold props fields ↔
      ∀ prop ∈ props, ∀ value, fields.lookup prop.1 = some value → Satisfies prop.2 value := by
  induction props with
  | nil => exact iff_of_true (by rw [propertiesHold]; trivial) nofun
  | cons prop props ih =>
    obtain ⟨name, schema⟩ := prop
    rw [propertiesHold, ih, List.forall_mem_cons]

theorem prefixHolds_of {schemas : List Schema} {items : List Json}
    (h : List.Forall₂ Satisfies schemas items) : prefixHolds schemas items := by
  induction h with
  | nil =>
    rw [prefixHolds]
    · trivial
    · exact nofun
  | cons hitem _ ih =>
    rw [prefixHolds]
    exact ⟨hitem, ih⟩

theorem noneOf_iff (schemas : List Schema) (json : Json) :
    noneOf schemas json ↔ ∀ schema ∈ schemas, ¬Satisfies schema json := by
  induction schemas with
  | nil => exact iff_of_true (by rw [noneOf]; trivial) nofun
  | cons schema schemas ih => rw [noneOf, ih, List.forall_mem_cons]

theorem exactlyOne_of {α κ : Type} {MadeOf : α → Schema → Prop} {key : α → κ} {items : List α}
    {schemas : List Schema} (hschemas : List.Forall₂ MadeOf items schemas)
    (hnodup : (items.map key).Nodup) {item : α} (hitem : item ∈ items) {json : Json}
    (hown : ∀ schema, MadeOf item schema → Satisfies schema json)
    (hother : ∀ other schema, key other ≠ key item → MadeOf other schema → ¬Satisfies schema json) :
    exactlyOne schemas json := by
  induction hschemas with
  | nil => cases hitem
  | @cons first schema items schemas hfirst hrest ih =>
    rw [List.map_cons] at hnodup
    obtain ⟨hnew, hnodup⟩ := List.nodup_cons.mp hnodup
    rw [exactlyOne]
    obtain rfl | hlater := List.mem_cons.mp hitem
    · refine Or.inl ⟨hown schema hfirst, (noneOf_iff _ _).mpr fun later hin => ?_⟩
      obtain ⟨other, hin, hmade⟩ := exists_input items schemas hrest hin
      refine hother other later (fun heq => hnew ?_) hmade
      rw [← heq]
      exact List.mem_map_of_mem hin
    · refine Or.inr ⟨hother first schema (fun heq => hnew ?_) hfirst, ih hnodup hlater⟩
      rw [heq]
      exact List.mem_map_of_mem hlater

end Stakit.JsonSchema
