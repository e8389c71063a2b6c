import Stakit.SerdeValue

set_option autoImplicit false

namespace Stakit.TypeScript
open SerdeJson

/-- A property has a name as it is written, whether it may be left out, and a type. -/
inductive TsType
  | name (text : String)
  | literal (text : String)
  | array (item : TsType)
  | record (key value : TsType)
  | tuple (items : List TsType)
  | object (props : List (String × Bool × TsType))
  | union (members : List TsType)

abbrev TsProp := String × Bool × TsType

mutual

def TsType.render : TsType → String
  | .name text => text
  | .literal text => "\"" ++ text ++ "\""
  | .array item => "Array<" ++ item.render ++ ">"
  | .record key value => "Record<" ++ key.render ++ ", " ++ value.render ++ ">"
  | .tuple items => "[" ++ ", ".intercalate (renderAll items) ++ "]"
  | .object props => "\x7b " ++ "; ".intercalate (renderProps props) ++ " \x7d"
  | .union members => " | ".intercalate (renderAll members)

def renderAll : List TsType → List String
  | [] => []
  | type :: types => type.render :: renderAll types

def renderProps : List (String × Bool × TsType) → List String
  | [] => []
  | (name, optional, type) :: props =>
    (name ++ (if optional then "?: " else ": ") ++ type.render) :: renderProps props

end

theorem renderAll_eq (types : List TsType) : renderAll types = types.map TsType.render := by
  induction types with
  | nil => rfl
  | cons type types ih => rw [renderAll, List.map_cons, ih]

theorem renderProps_append (props more : List TsProp) :
    renderProps (props ++ more) = renderProps props ++ renderProps more := by
  induction props with
  | nil => rfl
  | cons prop props ih => rw [List.cons_append, renderProps, renderProps, ih, List.cons_append]

inductive TsDecl
  | interface (props : List TsProp)
  | alias (type : TsType)

def TsDecl.type : TsDecl → TsType
  | .interface props => .object props
  | .alias type => type

def TsDecl.render (name : String) : TsDecl → String
  | .interface props =>
    "export interface " ++ name ++ " \x7b\n" ++
      String.join ((renderProps props).map fun entry => "  " ++ entry ++ ";\n") ++ "\x7d"
  | .alias type => "export type " ++ name ++ " = " ++ type.render ++ ";"

def keywords : List String := ["number", "string", "boolean", "null", "never"]

/-- Letters are those of ASCII and what `letter` says beyond. -/
def isNameChar (letter : Char → Bool) (c : Char) : Bool :=
  c = '_' || c = '$' || if c.toNat < 128 then c.isAlphanum else letter c

/-- A property name that stands for itself: an identifier, or a short index. -/
def isPropertyName (letter : Char → Bool) (text : String) : Bool :=
  match text.toList with
  | [] => false
  | first :: rest =>
    (first :: rest).all (isNameChar letter) && !first.isDigit ||
      (first :: rest).all Char.isDigit && (first ≠ '0' || rest.isEmpty) && rest.length < 15

/-- A text that stands for itself between double quotes. -/
def isPlainText (text : String) : Bool :=
  text.toList.all fun c => c ≠ '"' && c ≠ '\\' && c ≠ '\n' && c ≠ '\r'

section
variable {N : Type} (letter : Char → Bool) (declares : String → TsType → Prop)

/-- `declares` relates a name to the type it is declared as. -/
inductive Inhabits : TsType → Value N → Prop
  | number (n : N) : Inhabits (.name "number") (.number n)
  | string (text : String) : Inhabits (.name "string") (.string text)
  | boolean (flag : Bool) : Inhabits (.name "boolean") (.bool flag)
  | null : Inhabits (.name "null") .null
  | literal {text : String} (h : isPlainText text = true) : Inhabits (.literal text) (.string text)
  | declared {text : String} {type : TsType} {value : Value N} (hname : text ∉ keywords)
      (hdeclared : declares text type) (h : Inhabits type value) : Inhabits (.name text) value
  | array {type : TsType} {items : List (Value N)} (hfree : ∀ type, ¬declares "Array" type)
      (h : ∀ item ∈ items, Inhabits type item) : Inhabits (.array type) (.array items)
  | record {key type : TsType} {fields : List (String × Value N)}
      (hfree : ∀ type, ¬declares "Record" type)
      (hkey : key = .name "string" ∨ key = .name "number")
      (h : ∀ field ∈ fields, Inhabits type field.2) : Inhabits (.record key type) (.object fields)
  | tuple {types : List TsType} {items : List (Value N)} (hlength : types.length = items.length)
      (h : ∀ pair ∈ types.zip items, Inhabits pair.1 pair.2) : Inhabits (.tuple types) (.array items)
  | object {props : List (String × Bool × TsType)} {fields : List (String × Value N)}
      (hnames : ∀ prop ∈ props, isPropertyName letter prop.1 = true)
      (hpresent : ∀ prop ∈ props, prop.2.1 = false → prop.1 ∈ fields.map Prod.fst)
      (h : ∀ prop ∈ props, ∀ value, (prop.1, value) ∈ fields → Inhabits prop.2.2 value) :
      Inhabits (.object props) (.object fields)
  | union {members : List TsType} {type : TsType} {value : Value N} (hmember : type ∈ members)
      (h : Inhabits type value) : Inhabits (.union members) value

variable {letter declares}

theorem Inhabits.of_string {name text : String}
    (h : Inhabits letter declares (.name name) (.string text : Value N)) :
    name = "string" ∨ ∃ type, declares name type ∧ Inhabits letter declares type (.string text : Value N) := by
  cases h with
  | string text => exact Or.inl rfl
  | declared hname hdeclared h => exact Or.inr ⟨_, hdeclared, h⟩

end

end Stakit.TypeScript
