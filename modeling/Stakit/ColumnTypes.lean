import Stakit.CompositeText

set_option autoImplicit false

namespace Stakit.ColumnTypes
open ColumnValues CompositeText
open Orm (ValueKind)

mutual

inductive FieldType where
  | i16
  | i32
  | i64
  | f32
  | f64
  | bool
  | text
  | bytes
  | uuid
  | timestamptz
  | naiveDateTime
  | date
  | naiveTime
  | json
  | option (inner : FieldType)
  | vec (element : FieldType)
  | composite (name : String) (fields : FieldTypes)

/-- The types of a composite's fields; it has at least one. -/
inductive FieldTypes where
  | last (field : FieldType)
  | more (field : FieldType) (rest : FieldTypes)

end

/-- `FromValue::KIND` -/
def FieldType.kind : FieldType → ValueKind
  | i16 => .i16
  | i32 => .i32
  | i64 => .i64
  | f32 => .f32
  | f64 => .f64
  | bool => .bool
  | text => .text
  | bytes => .bytes
  | uuid => .uuid
  | timestamptz => .timestamptz
  | naiveDateTime => .naiveDateTime
  | date => .date
  | naiveTime => .naiveTime
  | json => .json
  | option inner => inner.kind
  | vec element => .array element.kind
  | composite _ _ => .text

def FieldTypes.count : FieldTypes → ℕ
  | last _ => 1
  | more _ rest => rest.count + 1

section
variable (L : Libraries)

mutual

@[reducible] def FieldType.Carrier : FieldType → Type
  | .i16 => Int16
  | .i32 => Int32
  | .i64 => Int64
  | .f32 => UInt32
  | .f64 => UInt64
  | .bool => Bool
  | .text => String
  | .bytes => List UInt8
  | .uuid => L.Uuid
  | .timestamptz => L.Instant
  | .naiveDateTime => L.DateTime
  | .date => L.Date
  | .naiveTime => L.Time
  | .json => SerdeJson.Value L.Number
  | .option inner => Option inner.Carrier
  | .vec element => List element.Carrier
  | .composite _ fields => fields.Carrier

@[reducible] def FieldTypes.Carrier : FieldTypes → Type
  | .last field => field.Carrier
  | .more field rest => field.Carrier × rest.Carrier

end

end

variable {L : Libraries}

mutual

def FieldType.toValue : (type : FieldType) → type.Carrier L → Value L
  | .i16, n => .i16 n
  | .i32, n => .i32 n
  | .i64, n => .i64 n
  | .f32, bits => .f32 bits
  | .f64, bits => .f64 bits
  | .bool, b => .bool b
  | .text, s => .text s
  | .bytes, bytes => .bytes bytes
  | .uuid, u => .uuid u
  | .timestamptz, t => .timestamptz t
  | .naiveDateTime, t => .naiveDateTime t
  | .date, d => .date d
  | .naiveTime, t => .naiveTime t
  | .json, j => .json j
  | .option inner, none => .null inner.kind
  | .option inner, some v => inner.toValue v
  | .vec element, items => .array element.kind (items.map element.toValue)
  | .composite _ fields, v => .text (encode (fields.toValues v))

def FieldTypes.toValues : (types : FieldTypes) → types.Carrier L → List (Value L)
  | .last field, v => [field.toValue v]
  | .more field rest, v => field.toValue v.1 :: rest.toValues v.2

end

def badField (what : String) : Error L := .decode s!"composite field: {what}"

def orElseError {α β : Type} (error : Error L) (make : α → β) : Option α → Except (Error L) β
  | some a => .ok (make a)
  | none => .error error

def fieldValue (L : Libraries) (field : Option String) (kind : ValueKind) :
    Except (Error L) (Value L) :=
  match field with
  | none => .ok (.null kind)
  | some text =>
    match kind with
    | .bool => .ok (.bool (text ∈ ["t", "true", "T", "1"]))
    | .i16 => orElseError (badField "bad i16") .i16 (parseI16 text)
    | .i32 => orElseError (badField "bad i32") .i32 (parseI32 text)
    | .i64 => orElseError (badField "bad i64") .i64 (parseI64 text)
    | .f32 => orElseError (badField "bad f32") .f32 (L.f32.parse text)
    | .f64 => orElseError (badField "bad f64") .f64 (L.f64.parse text)
    | .uuid => orElseError (badField "bad uuid") .uuid (L.uuid.parse text)
    | .json => orElseError (badField "bad json") .json (L.document.parse text)
    | _ => .ok (.text text)

def compositeText (name : String) : Value L → Except (Error L) String
  | .text s => .ok s
  | .cast _ (.text s) => .ok s
  | .cast _ other => .error (.mismatch s!"composite text for {name}" other)
  | other => .error (.mismatch s!"composite text for {name}" other)

mutual

def FieldType.fromValue : (type : FieldType) → Value L → Except (Error L) (type.Carrier L)
  | .i16, value => match value with
    | .i16 n => .ok n
    | other => .error (.mismatch "i16" other)
  | .i32, value => match value with
    | .i32 n => .ok n
    | other => .error (.mismatch "i32" other)
  | .i64, value => match value with
    | .i64 n => .ok n
    | other => .error (.mismatch "i64" other)
  | .f32, value => match value with
    | .f32 bits => .ok bits
    | other => .error (.mismatch "f32" other)
  | .f64, value => match value with
    | .f64 bits => .ok bits
    | other => .error (.mismatch "f64" other)
  | .bool, value => match value with
    | .bool b => .ok b
    | other => .error (.mismatch "bool" other)
  | .text, value => match value with
    | .text s => .ok s
    | other => .error (.mismatch "text" other)
  | .bytes, value => match value with
    | .bytes bytes => .ok bytes
    | other => .error (.mismatch "bytes" other)
  | .uuid, value => match value with
    | .uuid u => .ok u
    | other => .error (.mismatch "uuid" other)
  | .timestamptz, value => match value with
    | .timestamptz t => .ok t
    | other => .error (.mismatch "timestamptz" other)
  | .naiveDateTime, value => match value with
    | .naiveDateTime t => .ok t
    | other => .error (.mismatch "timestamp" other)
  | .date, value => match value with
    | .date d => .ok d
    | other => .error (.mismatch "date" other)
  | .naiveTime, value => match value with
    | .naiveTime t => .ok t
    | other => .error (.mismatch "time" other)
  | .json, value => match value with
    | .json j => .ok j
    | other => .error (.mismatch "json" other)
  | .option inner, value => match value with
    | .null _ => .ok none
    | other => some <$> inner.fromValue other
  | .vec element, value => match value with
    | .array _ items => items.mapM element.fromValue
    | .null _ => .ok []
    | other => .error (.mismatch "array" other)
  | .composite name fields, value => do
    let text ← compositeText name value
    fields.fromFields (← parse L text fields.count)

/-- The fields of a literal, each by its own type. -/
def FieldTypes.fromFields : (types : FieldTypes) → List (Option String) →
    Except (Error L) (types.Carrier L)
  | .last _, [] => .error (.decode "composite: missing field")
  | .last field, text :: _ => fieldValue L text field.kind >>= field.fromValue
  | .more _ _, [] => .error (.decode "composite: missing field")
  | .more field rest, text :: texts => do
    let first ← fieldValue L text field.kind >>= field.fromValue
    return (first, ← rest.fromFields texts)

end

end Stakit.ColumnTypes
