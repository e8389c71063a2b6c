import Stakit.JsonSchemas
import Stakit.TsWire

set_option autoImplicit false

namespace Stakit.TsTypes
open JsonSchema

def Scalar.schemaType : Scalar → String
  | .unit => "null"
  | .f32 | .f64 => "number"
  | .bool => "boolean"
  | .char | .str | .string => "string"
  | _ => "integer"

def tupleSchema (items : List Schema) : Schema :=
  [.type "array", .prefixItems items, .minItems items.length, .maxItems items.length]

section
variable (item : String → Option Schema)

mutual

/-- `schema()` of a type, given that of the derived ones. -/
def schemaWith : Ty → Option Schema
  | .scalar scalar => some [.type scalar.schemaType]
  | .param _ => some []
  | .pointer _ inner | .option inner => schemaWith inner
  | .sequence _ item => (schemaWith item).map fun schema => [.type "array", .items schema]
  | .mapping _ _ value =>
    (schemaWith value).map fun schema => [.type "object", .additionalProperties schema]
  | .tuple items => (schemasWith items).map tupleSchema
  | .model name _ => item name

def schemasWith : List Ty → Option (List Schema)
  | [] => some []
  | ty :: types => (schemaWith ty).bind fun schema =>
    (schemasWith types).map fun schemas => schema :: schemas

end

def lengthKeyword (schema : Schema) (items length : ℕ → Keyword) (n : ℕ) : Keyword :=
  if typeOf schema = some "array" then items n else length n

def insertSome (keyword : Option Keyword) (schema : Schema) : Schema :=
  match keyword with
  | none => schema
  | some keyword => JsonSchema.insert keyword schema

def applyRule (schema : Schema) : Rule → Schema
  | .length min max =>
    let low := insertSome (min.map (lengthKeyword schema .minItems .minLength)) schema
    insertSome (max.map (lengthKeyword low .maxItems .maxLength)) low
  | .range min max =>
    insertSome (max.map fun bound => .maximum bound.json)
      (insertSome (min.map fun bound => .minimum bound.json) schema)
  | .pattern regex => JsonSchema.insert (.note "pattern" regex) schema
  | .email => JsonSchema.insert (.note "format" "email") schema
  | .url => JsonSchema.insert (.note "format" "uri") schema
  | _ => schema

def Field.baseType (field : Field) : Ty := (optionInner field.ty).getD field.ty

def Field.isOptional (field : Field) : Bool := (optionInner field.ty).isSome

def Field.schema (field : Field) (base : Schema) : Schema :=
  insertSome (field.description.map fun text => .note "description" text)
    (field.rules.foldl applyRule base)

section
variable (camel : Bool)

def objectSchema (fields : List Field) (bases : List Schema) : Schema :=
  let required := (fields.filter fun field => !field.isOptional).map fun field =>
    wireName camel field.label
  .type "object" ::
    .properties (List.zipWith (fun field base => (wireName camel field.label, field.schema base))
      fields bases) ::
    if required = [] then [] else [.required required]

def structSchema : Body → Option Schema
  | .named fields => (schemasWith item (fields.map Field.baseType)).map (objectSchema camel fields)
  | .tuple fields => (schemasWith item (fields.map Field.baseType)).map tupleSchema
  | .unit => some [.type "null"]

def taggedSchema (name : String) (inner : Schema) : Schema :=
  [.type "object", .properties [(name, inner)], .required [name]]

def variantSchema (name : String) : Body → Option Schema
  | .unit => some [.type "string", .const name]
  | .tuple [field] => (schemaWith item field.baseType).map (taggedSchema name)
  | body => (structSchema item camel body).map (taggedSchema name)

def variantSchemas (names : Variant → String) : List Variant → Option (List Schema)
  | [] => some []
  | variant :: variants => (variantSchema item camel (names variant) variant.body).bind fun schema =>
    (variantSchemas names variants).map fun schemas => schema :: schemas

def isUnit : Body → Bool
  | .unit => true
  | _ => false

def enumSchema (names : Variant → String) (variants : List Variant) : Option Schema :=
  if variants = [] then some [.not []]
  else if variants.all fun variant => isUnit variant.body then
    some [.type "string", .enum (variants.map names)]
  else (variantSchemas item camel names variants).map fun schemas => [.oneOf schemas]

def irSchema (unicode : Unicode) : Ir → Option Schema
  | .struct body => structSchema item camel body
  | .enum variants _ renameAll => enumSchema item camel (Variant.wire unicode renameAll) variants

end

end

namespace Source
variable (source : Source)

/-- The item that a type is derived for. -/
def plainIr (name : String) : Ir := source.ir ⟨name, []⟩

def itemSchema : ℕ → String → Option Schema
  | 0, _ => none
  | fuel + 1, name => irSchema (itemSchema fuel) source.camel source.unicode (source.plainIr name)

def schema (fuel : ℕ) (ty : Ty) : Option Schema := schemaWith (source.itemSchema fuel) ty

end Source

inductive Floating
  | finite (q : ℚ)
  | infinite (negative : Bool)
  | nan

inductive Val
  | unit
  | bool (flag : Bool)
  | int (z : ℤ)
  | float (x : Floating)
  | char (c : Char)
  | string (text : String)
  | none
  | some (value : Val)
  | items (values : List Val)
  | entries (entries : List (String × Val))
  | struct (values : List Val)
  | variant (index : ℕ) (values : List Val)

def Floating.below : Floating → ℚ → Bool
  | .finite q, bound => q < bound
  | .infinite negative, _ => negative
  | .nan, _ => false

def Floating.above : Floating → ℚ → Bool
  | .finite q, bound => bound < q
  | .infinite negative, _ => !negative
  | .nan, _ => false

def lengthOk (min max : Option ℕ) (text : String) : Bool :=
  !min.any (text.toList.length < ·) && !max.any (text.toList.length > ·)

def rangeOk (min max : Option Bound) : Val → Bool
  | .int z => !min.any ((z : ℚ) < ·.typed) && !max.any ((z : ℚ) > ·.typed)
  | .float x => !min.any (x.below ·.typed) && !max.any (x.above ·.typed)
  | _ => true

/-- `checks` is what the rules do that say nothing of lengths, ranges or nested values. -/
def Rule.passes (checks : Rule → Val → Bool) (dive : Val → Bool) : Rule → Val → Bool
  | .length min max, .string text => lengthOk min max text
  | .range min max, value => rangeOk min max value
  | .dive, value => dive value
  | rule, value => checks rule value

def Field.passes (checks : Rule → Val → Bool) (validate : Ty → Val → Bool) (field : Field)
    (value : Val) : Bool :=
  field.skip || field.rules.all fun rule => rule.passes checks (validate field.ty) value

def Body.allFields : Body → List Field
  | .unit => []
  | .named fields | .tuple fields => fields

def Body.passes (checks : Rule → Val → Bool) (validate : Ty → Val → Bool) (body : Body)
    (values : List Val) : Bool :=
  (body.allFields.zip values).all fun pair => pair.1.passes checks validate pair.2

namespace Source
variable (source : Source)

/-- Whether `validate()` is `Ok`, as far as `depth` levels of a value. -/
def validate (checks : Rule → Val → Bool) : ℕ → Ty → Val → Bool
  | 0, _, _ => true
  | depth + 1, .pointer _ pointee, value => validate checks depth pointee value
  | depth + 1, .option inner, .some value => validate checks depth inner value
  | depth + 1, .sequence _ item, .items values => values.all (validate checks depth item)
  | depth + 1, .mapping _ _ item, .entries entries =>
    entries.all fun entry => validate checks depth item entry.2
  | depth + 1, .tuple types, .items values =>
    (types.zip values).all fun pair => validate checks depth pair.1 pair.2
  | depth + 1, .model name _, value =>
    match source.plainIr name, value with
    | .struct body, .struct values => body.passes checks (validate checks depth) values
    | .enum variants _ _, .variant index values =>
      match variants[index]? with
      | none => true
      | some variant => variant.body.passes checks (validate checks depth) values
    | _, _ => true
  | _ + 1, _, _ => true

end Source

def Floating.json : Floating → Json
  | .finite q => .number q
  | _ => .null

def Scalar.Encodes : Scalar → Val → Json → Prop
  | .unit, value, json => value = .unit ∧ json = .null
  | .bool, value, json => ∃ flag, value = .bool flag ∧ json = .bool flag
  | .char, value, json => ∃ c, value = .char c ∧ json = .string (String.singleton c)
  | .str, value, json | .string, value, json => ∃ text, value = .string text ∧ json = .string text
  | .f32, value, json | .f64, value, json => ∃ x, value = .float x ∧ json = x.json
  | _, value, json => ∃ z : ℤ, value = .int z ∧ json = .number z

section
variable (camel : Bool) (encodes : Ty → Val → Json → Prop)

/-- A named field that is `None` is left out. -/
def EncodesFields : List Field → List Val → List (String × Json) → Prop
  | [], values, entries => values = [] ∧ entries = []
  | field :: fields, values, entries => ∃ value rest, values = value :: rest ∧
      ((field.isOptional = true ∧ value = .none ∧ EncodesFields fields rest entries) ∨
        (¬(field.isOptional = true ∧ value = .none) ∧ ∃ json others,
          entries = (serdeField camel field.label, json) :: others ∧ encodes field.ty value json ∧
          EncodesFields fields rest others))

def EncodesItems (types : List Ty) (values : List Val) (json : Json) : Prop :=
  ∃ pairs : List (Val × Json), values = pairs.map Prod.fst ∧ json = .array (pairs.map Prod.snd) ∧
    List.Forall₂ (fun ty pair => encodes ty pair.1 pair.2) types pairs

def EncodesBody : Body → List Val → Json → Prop
  | .unit, values, json => values = [] ∧ json = .null
  | .named fields, values, json =>
    ∃ entries, json = .object entries ∧ EncodesFields camel encodes fields values entries
  | .tuple [field], values, json => ∃ value, values = [value] ∧ encodes field.ty value json
  | .tuple fields, values, json => EncodesItems encodes (fields.map Field.ty) values json

def EncodesExternal (name : String) : Body → List Val → Json → Prop
  | .unit, values, json => values = [] ∧ json = .string name
  | body, values, json =>
    ∃ payload, EncodesBody camel encodes body values payload ∧ json = .object [(name, payload)]

def EncodesInternal (tag name : String) : Body → List Val → Json → Prop
  | .unit, values, json => values = [] ∧ json = .object [(tag, .string name)]
  | .named fields, values, json => ∃ entries, json = .object ((tag, .string name) :: entries) ∧
      EncodesFields camel encodes fields values entries
  | .tuple [field], values, json => ∃ value entries, values = [value] ∧
      json = .object ((tag, .string name) :: entries) ∧ encodes field.ty value (.object entries)
  | .tuple _, _, _ => False

end

namespace Source
variable (source : Source)

/-- serde writes a value of a type, no deeper than `depth`, as a JSON value. -/
def Encodes : ℕ → Ty → Val → Json → Prop
  | 0, _, _, _ => False
  | _ + 1, .scalar scalar, value, json => scalar.Encodes value json
  | _ + 1, .param _, _, _ => False
  | depth + 1, .pointer _ pointee, value, json => Encodes depth pointee value json
  | depth + 1, .option inner, value, json =>
    (value = .none ∧ json = .null) ∨ ∃ held, value = .some held ∧ Encodes depth inner held json
  | depth + 1, .sequence _ item, value, json => ∃ pairs : List (Val × Json),
      value = .items (pairs.map Prod.fst) ∧ json = .array (pairs.map Prod.snd) ∧
      ∀ pair ∈ pairs, Encodes depth item pair.1 pair.2
  | depth + 1, .mapping _ _ item, value, json => ∃ triples : List (String × Val × Json),
      value = .entries (triples.map fun triple => (triple.1, triple.2.1)) ∧
      json = .object (triples.map fun triple => (triple.1, triple.2.2)) ∧
      ∀ triple ∈ triples, Encodes depth item triple.2.1 triple.2.2
  | depth + 1, .tuple types, value, json => ∃ values, value = .items values ∧
      EncodesItems (fun ty value json => Encodes depth ty value json) types values json
  | depth + 1, .model name _, value, json =>
    match source.plainIr name with
    | .struct body => ∃ values, value = .struct values ∧
        EncodesBody source.camel (fun ty value json => Encodes depth ty value json) body values json
    | .enum variants tag renameAll => ∃ index variant values, variants[index]? = some variant ∧
        value = .variant index values ∧
        let name := variant.serdeName source.unicode renameAll
        match tag with
        | none => EncodesExternal source.camel (fun ty value json => Encodes depth ty value json)
            name variant.body values json
        | some tag => EncodesInternal source.camel
            (fun ty value json => Encodes depth ty value json) tag name variant.body values json

end Source

end Stakit.TsTypes
