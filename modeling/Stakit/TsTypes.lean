import Mathlib.Algebra.Order.Ring.Rat

set_option autoImplicit false

namespace Stakit.TsTypes

inductive Scalar
  | unit | i8 | i16 | i32 | i64 | i128 | isize | u8 | u16 | u32 | u64 | u128 | usize
  | f32 | f64 | bool | char | str | string
deriving DecidableEq

def Scalar.tsName : Scalar → String
  | .unit => "null"
  | .bool => "boolean"
  | .char | .str | .string => "string"
  | _ => "number"

inductive Pointer
  | shared | mutable | box | cow
deriving DecidableEq

inductive Sequence
  | vec | slice | btreeSet | hashSet | array (length : ℕ)
deriving DecidableEq

inductive Mapping
  | hashMap | hashbrownMap | indexMap | btreeMap
deriving DecidableEq

/-- `param` is a type parameter of the item around it; `model` is an item, with the arguments
for its parameters. -/
inductive Ty
  | scalar (scalar : Scalar)
  | param (index : ℕ)
  | pointer (kind : Pointer) (pointee : Ty)
  | option (inner : Ty)
  | sequence (kind : Sequence) (item : Ty)
  | mapping (kind : Mapping) (key value : Ty)
  | tuple (items : List Ty)
  | model (name : String) (args : List Ty)

/-- One item with its type arguments. -/
structure Instance where
  name : String
  args : List Ty

mutual

/-- A field's type in one instance of its item. -/
def Ty.subst (args : List Ty) : Ty → Ty
  | .scalar scalar => .scalar scalar
  | .param index => args.getD index (.scalar .unit)
  | .pointer kind pointee => .pointer kind (pointee.subst args)
  | .option inner => .option (inner.subst args)
  | .sequence kind item => .sequence kind (item.subst args)
  | .mapping kind key value => .mapping kind (key.subst args) (value.subst args)
  | .tuple items => .tuple (substAll args items)
  | .model name inner => .model name (substAll args inner)

def substAll (args : List Ty) : List Ty → List Ty
  | [] => []
  | item :: items => item.subst args :: substAll args items

end

/-- What Unicode decides outside ASCII. -/
structure Unicode where
  alphanumeric : Char → Bool
  uppercase : Char → Bool

def Unicode.isAlphanumeric (unicode : Unicode) (c : Char) : Bool :=
  if c.toNat < 128 then c.isAlphanum else unicode.alphanumeric c

def Unicode.isUppercase (unicode : Unicode) (c : Char) : Bool :=
  if c.toNat < 128 then c.isUpper else unicode.uppercase c

def Unicode.letters (unicode : Unicode) (text : String) : List Char :=
  text.toList.filter unicode.isAlphanumeric

section
variable (unicode : Unicode)

mutual

def tsRef : Ty → String
  | .scalar scalar => scalar.tsName
  | .param _ => ""
  | .pointer _ pointee => tsRef pointee
  | .option inner => tsRef inner ++ " | null"
  | .sequence _ item => "Array<" ++ tsRef item ++ ">"
  | .mapping _ key value => "Record<" ++ tsRef key ++ ", " ++ tsRef value ++ ">"
  | .tuple items => "[" ++ ", ".intercalate (tsRefs items) ++ "]"
  | .model name args => name ++ String.ofList (gluedRefs args)

def tsRefs : List Ty → List String
  | [] => []
  | item :: items => tsRef item :: tsRefs items

/-- What is appended to the name of a generic item. -/
def gluedRefs : List Ty → List Char
  | [] => []
  | arg :: args => unicode.letters (tsRef arg) ++ gluedRefs args

end

def Instance.tsRef (it : Instance) : String := TsTypes.tsRef unicode (.model it.name it.args)

end

/-- A bound, as it is in the field's own type and as `json!` reads it. -/
structure Bound where
  typed : ℚ
  json : ℚ
deriving DecidableEq

inductive Rule
  | email
  | url
  | ascii
  | alphanumeric
  | dive
  | length (min max : Option ℕ)
  | range (min max : Option Bound)
  | contains (needle : String)
  | startsWith (text : String)
  | endsWith (text : String)
  | pattern (regex : String)
  | custom (function : String)
deriving DecidableEq

structure Field where
  label : String
  ty : Ty
  rules : List Rule
  skip : Bool
  description : Option String

def Field.plain (label : String) (ty : Ty) : Field := ⟨label, ty, [], false, none⟩

inductive Body
  | unit
  | named (fields : List Field)
  | tuple (fields : List Field)

/-- The rules of `rename_all` that the derive knows; it refuses others. -/
inductive RenameRule
  | lower | upper | pascal | camel | snake | screamingSnake | kebab | screamingKebab
deriving DecidableEq

def RenameRule.of : String → Option RenameRule
  | "lowercase" => some .lower
  | "UPPERCASE" => some .upper
  | "PascalCase" => some .pascal
  | "camelCase" => some .camel
  | "snake_case" => some .snake
  | "SCREAMING_SNAKE_CASE" => some .screamingSnake
  | "kebab-case" => some .kebab
  | "SCREAMING-KEBAB-CASE" => some .screamingKebab
  | _ => none

def snakeChars (unicode : Unicode) (ident : List Char) : List Char :=
  ident.zipIdx.flatMap fun (c, index) =>
    if index > 0 ∧ unicode.isUppercase c then ['_', c.toLower] else [c.toLower]

def dashed (chars : List Char) : List Char := chars.map fun c => if c = '_' then '-' else c

def lowerFirst : List Char → List Char
  | [] => []
  | first :: rest => first.toLower :: rest

def renameVariant (unicode : Unicode) (rule : RenameRule) (ident : String) : String :=
  let chars := ident.toList
  String.ofList <| match rule with
    | .lower => chars.map Char.toLower
    | .upper => chars.map Char.toUpper
    | .pascal => chars
    | .camel => lowerFirst chars
    | .snake => snakeChars unicode chars
    | .screamingSnake => (snakeChars unicode chars).map Char.toUpper
    | .kebab => dashed (snakeChars unicode chars)
    | .screamingKebab => dashed ((snakeChars unicode chars).map Char.toUpper)

structure Variant where
  ident : String
  rename : Option String
  body : Body

inductive Ir
  | struct (body : Body)
  | enum (variants : List Variant) (tag : Option String) (renameAll : Option RenameRule)

def wireOf (unicode : Unicode) (renameAll : Option RenameRule) (rename : Option String)
    (ident : String) : String :=
  match rename, renameAll with
  | some rename, _ => rename
  | none, some rule => renameVariant unicode rule ident
  | none, none => ident

def Variant.wire (unicode : Unicode) (renameAll : Option RenameRule) (variant : Variant) : String :=
  wireOf unicode renameAll variant.rename variant.ident

def Body.types : Body → List Ty
  | .unit => []
  | .named fields | .tuple fields => fields.map Field.ty

def fieldTypes : Ir → List Ty
  | .struct body => body.types
  | .enum variants _ _ => variants.flatMap fun variant => variant.body.types

def Body.fields : Body → List Field
  | .named fields => fields
  | _ => []

def Ir.bodies : Ir → List Body
  | .struct body => [body]
  | .enum variants _ _ => variants.map Variant.body

/-- As it is written, not through an alias or a parameter. -/
def optionInner : Ty → Option Ty
  | .option inner => some inner
  | _ => none

/-- What follows an underscore is capitalized, then the first character is not. -/
def camelWords : Bool → List Char → List Char
  | _, [] => []
  | capitalize, c :: rest =>
    if c = '_' then camelWords true rest
    else (if capitalize then c.toUpper else c) :: camelWords false rest

def wireName (camel : Bool) (label : String) : String :=
  if camel then
    String.ofList (lowerFirst (camelWords true label.toList))
  else label

section
variable (unicode : Unicode) (camel : Bool) (args : List Ty)

def fieldRef (ty : Ty) : String := tsRef unicode (ty.subst args)

def Field.entry (field : Field) : String :=
  wireName camel field.label ++ (if (optionInner field.ty).isSome then "?: " else ": ") ++
    fieldRef unicode args field.ty

def tupleRefs (types : List Ty) : String :=
  "[" ++ ", ".intercalate (types.map (fieldRef unicode args)) ++ "]"

def structDecl (name : String) : Body → String
  | .named fields =>
    "export interface " ++ name ++ " \x7b\n" ++
      String.join (fields.map fun field => "  " ++ field.entry unicode camel args ++ ";\n") ++ "\x7d"
  | .tuple fields =>
    "export type " ++ name ++ " = " ++ tupleRefs unicode args (fields.map Field.ty) ++ ";"
  | .unit => "export type " ++ name ++ " = null;"

def tagEntry (tag wire : String) : String := tag ++ ": \"" ++ wire ++ "\""

def variantPart (tag : Option String) (wire : String) (body : Body) : String :=
  let entry := tag.map fun tag => tagEntry tag wire
  match body with
  | .unit =>
    match entry with
    | none => "\"" ++ wire ++ "\""
    | some entry => "\x7b " ++ entry ++ " \x7d"
  | .named fields =>
    "\x7b " ++ "; ".intercalate
      (entry.toList ++ fields.map fun field => field.entry unicode camel args) ++ " \x7d"
  | .tuple [field] => fieldRef unicode args field.ty
  | .tuple fields => tupleRefs unicode args (fields.map Field.ty)

def enumDecl (name : String) (variants : List Variant) (tag : Option String)
    (renameAll : Option RenameRule) : String :=
  if variants = [] then "export type " ++ name ++ " = never;"
  else "export type " ++ name ++ " = " ++ " | ".intercalate (variants.map fun variant =>
      variantPart unicode camel args tag (variant.wire unicode renameAll) variant.body) ++ ";"

def declExpr (name : String) : Ir → String
  | .struct body => structDecl unicode camel args name body
  | .enum variants tag renameAll => enumDecl unicode camel args name variants tag renameAll

end

end Stakit.TsTypes
