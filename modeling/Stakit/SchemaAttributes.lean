import Stakit.SchemaModel

set_option autoImplicit false

namespace Stakit.SchemaAttributes
open SchemaModel

/-- A type: the last segment of its path with its arguments, `none` for an argument that
is no type. -/
inductive Ty where
  | path (ident : String) (arguments : List (Option Ty))
  | other

/-- One item of an attribute's list: its path, then nothing, `= "text"`, `= a::path`,
`= (idents)`, a nested list, or something no reader takes. -/
inductive Meta where
  | flag (key : List String)
  | text (key : List String) (value : String)
  | path (key value : List String)
  | tuple (key items : List String)
  | list (key : List String) (items : List Meta)
  | other (key : List String)

def Meta.key : Meta → List String
  | .flag key | .text key _ | .path key _ | .tuple key _ | .list key _ | .other key => key

def Meta.isIdent (m : Meta) (name : String) : Bool := m.key = [name]

/-- `content` is `none` for an attribute without a list. -/
structure Attribute where
  name : String
  content : Option (List Meta)

structure Field where
  ident : String
  ty : Ty
  attrs : List Attribute

inductive Data where
  | named (fields : List Field)
  | unnamed
  | noStruct

structure DeriveInput where
  ident : String
  attrs : List Attribute
  data : Data

/-- A key that takes no value. -/
def bare : Meta → Except String Unit
  | .flag _ => .ok ()
  | _ => .error "expected `,`"

def litStr : Meta → Except String String
  | .text _ value => .ok value
  | .flag _ | .list _ _ => .error "expected `=`"
  | _ => .error "expected string literal"

def nested : Meta → Except String (List Meta)
  | .list _ items => .ok items
  | _ => .error "expected parentheses"

def requireIdent (m : Meta) : Except String String :=
  match m.key with
  | [name] => .ok name
  | _ => .error "expected this path to be an identifier"

section
variable {σ : Type}

def readAttrs (name : String) (step : σ → Meta → Except String σ) :
    σ → List Attribute → Except String σ
  | state, [] => .ok state
  | state, attr :: attrs =>
    if attr.name = name then
      match attr.content with
      | none => .error "expected attribute arguments in parentheses"
      | some items => do
        let state ← items.foldlM step state
        readAttrs name step state attrs
    else readAttrs name step state attrs

end

def metasOf (name : String) (attrs : List Attribute) : List Meta :=
  (attrs.filter fun attr => attr.name = name).flatMap fun attr => attr.content.getD []

theorem readAttrs_metas {σ : Type} (name : String) (step : σ → Meta → Except String σ)
    (state result : σ) (attrs : List Attribute)
    (h : readAttrs name step state attrs = .ok result) :
    (metasOf name attrs).foldlM step state = .ok result := by
  induction attrs generalizing state with
  | nil => exact h
  | cons attr attrs ih =>
    rw [readAttrs] at h
    by_cases hname : attr.name = name
    · rw [if_pos hname] at h
      cases hcontent : attr.content with
      | none =>
        rw [hcontent] at h
        cases h
      | some items =>
        simp only [hcontent] at h
        obtain ⟨middle, hitems, hrest⟩ := (ExceptLoops.bind_eq_ok _ _ _).mp h
        have hmetas : metasOf name (attr :: attrs) = items ++ metasOf name attrs := by
          simp [metasOf, hname, hcontent]
        rw [hmetas, List.foldlM_append, hitems]
        exact ih middle hrest
    · rw [if_neg hname] at h
      have hmetas : metasOf name (attr :: attrs) = metasOf name attrs := by
        simp [metasOf, hname]
      rw [hmetas]
      exact ih state h

def unwrapGeneric (ty : Ty) (wrapper : String) : Option Ty :=
  match ty with
  | .path ident arguments => if ident = wrapper then arguments.findSome? id else none
  | .other => none

def isRelation (ty : Ty) : Bool := (unwrapGeneric ty "Rel").isSome

def lastIdent : Ty → Option String
  | .path ident _ => some ident
  | .other => none

def sqlTypeNames : List (String × String) :=
  [("i16", "smallint"), ("i32", "int"), ("i64", "bigint"), ("f32", "real"),
    ("f64", "double precision"), ("bool", "boolean"), ("String", "text"), ("str", "text"),
    ("Uuid", "uuid"), ("DateTime", "timestamptz"), ("NaiveDateTime", "timestamp"),
    ("NaiveDate", "date"), ("NaiveTime", "time"), ("Value", "jsonb")]

def sqlType (ty : Ty) : Option String :=
  match unwrapGeneric ty "Vec" with
  | some inner => if lastIdent inner = some "u8" then some "bytea" else none
  | none => (lastIdent ty).bind fun ident => sqlTypeNames.lookup ident

def isWhitespace (c : Char) : Bool :=
  (9 ≤ c.toNat && c.toNat ≤ 13) || (0x2000 ≤ c.toNat && c.toNat ≤ 0x200A) ||
    [0x20, 0x85, 0xA0, 0x1680, 0x2028, 0x2029, 0x202F, 0x205F, 0x3000].contains c.toNat

def trim (text : List Char) : List Char :=
  ((text.dropWhile isWhitespace).reverse.dropWhile isWhitespace).reverse

/-- What stands before and after the first dot. -/
def splitOnce (text : List Char) : List Char × Option (List Char) :=
  match text.dropWhile (· ≠ '.') with
  | [] => (text, none)
  | _ :: rest => (text.takeWhile (· ≠ '.'), some rest)

def splitTableColumn (reference : String) : Except String (String × String) :=
  match splitOnce reference.toList with
  | (table, some column) =>
    if trim table ≠ [] ∧ trim column ≠ [] ∧ '.' ∉ trim column then
      .ok (String.ofList (trim table), String.ofList (trim column))
    else .error "references string must be \"table.column\""
  | (_, none) => .error "references string must be \"table.column\""

def splitRoles (raw : String) : List String :=
  (((raw.toList.splitOn ',').map trim).filter (· ≠ [])).map String.ofList

structure TableHead where
  name : Option String
  rls : Bool
  forceRls : Bool

def noHead : TableHead := ⟨none, false, false⟩

section
variable {σ : Type}

/-- A key of `#[table(...)]`; the ones that are not the head's go to `other`. -/
def tableStep (other : σ → Meta → Except String σ) (state : TableHead × σ) (m : Meta) :
    Except String (TableHead × σ) :=
  if m.isIdent "name" then do
    let value ← litStr m
    .ok ({ state.1 with name := some value }, state.2)
  else if m.isIdent "rls" then do
    bare m
    .ok ({ state.1 with rls := true }, state.2)
  else if m.isIdent "force_rls" then do
    bare m
    .ok ({ state.1 with forceRls := true }, state.2)
  else do
    let found ← other state.2 m
    .ok (state.1, found)

def parseTableAttrs (attrs : List Attribute) (other : σ → Meta → Except String σ) (start : σ) :
    Except String (TableHead × σ) :=
  readAttrs "table" (tableStep other) (noHead, start) attrs

end

def policyCommands : List PolicyCommand := [.all, .select, .insert, .update, .delete]

def commandOf (m : Meta) : Option PolicyCommand :=
  policyCommands.find? fun command => m.isIdent command.asSql

def privileges : List Privilege := [.all, .select, .insert, .update, .delete]

def Privilege.flag : Privilege → String
  | .all => "all"
  | privilege => privilege.asSql

def privilegeOf (m : Meta) : Option Privilege :=
  privileges.find? fun privilege => m.isIdent (Privilege.flag privilege)

structure PolicyRead where
  command : Option PolicyCommand
  roles : List String
  toPresent : Bool
  usingClause : Option String
  checkClause : Option String

def policyStep (state : PolicyRead) (inner : Meta) : Except String PolicyRead :=
  if inner.isIdent "to" then do
    let value ← litStr inner
    .ok { state with toPresent := true, roles := splitRoles value }
  else if inner.isIdent "using" then do
    let value ← litStr inner
    .ok { state with usingClause := some value }
  else if inner.isIdent "check" then do
    let value ← litStr inner
    .ok { state with checkClause := some value }
  else
    match commandOf inner with
    | some command => do
      reject state.command.isSome
        "policy has more than one command (all/select/insert/update/delete)"
      bare inner
      .ok { state with command := some command }
    | none => .error "unknown policy entry attribute (expected a command, to, using, check)"

def parsePolicyEntry (entry : Meta) : Except String Policy := do
  let name ← requireIdent entry
  let items ← nested entry
  let read ← items.foldlM policyStep ⟨none, [], false, none, none⟩
  reject (read.toPresent && read.roles.isEmpty)
    ("policy `" ++ name ++ "`: `to` was specified but lists no roles (omit `to` for PUBLIC)")
  checkPolicyClauses name (read.command.getD .all) read.usingClause read.checkClause
  .ok ⟨name, read.command.getD .all, read.roles, read.usingClause, read.checkClause⟩

def grantStep (found : List Privilege) (inner : Meta) : Except String (List Privilege) :=
  match privilegeOf inner with
  | none => .error "expected a privilege (select/insert/update/delete/all)"
  | some privilege => do
    bare inner
    .ok (if privilege ∈ found then found else found ++ [privilege])

def parseGrantEntry (entry : Meta) : Except String Grant := do
  let role ← requireIdent entry
  let items ← nested entry
  let found ← items.foldlM grantStep []
  reject found.isEmpty ("grant role `" ++ role ++
    "` needs at least one privilege (select/insert/update/delete/all)")
  .ok ⟨role, found⟩

/-- What the keys of a column say; `ρ` is what a reference is read into. -/
structure ColumnRead (ρ : Type) where
  name : String
  pk : Bool
  unique : Bool
  index : Bool
  indexMethod : Option String
  opclass : Option String
  nullable : Bool
  default : Option String
  generated : Option String
  explicitType : Option String
  references : Option ρ
  onDelete : Option String

def indexValue (m : Meta) : Except String (Option String) :=
  match m with
  | .flag _ => .ok none
  | .list _ _ => .error "expected `,`"
  | _ => do
    let method ← litStr m
    .ok (some method)

section
variable {ρ : Type}

/-- A key of `#[column(...)]`, the same in the macro and in the CLI. -/
def columnStep (readReference : Meta → Except String ρ) (state : ColumnRead ρ) (m : Meta) :
    Except String (ColumnRead ρ) :=
  if m.isIdent "pk" then do
    bare m
    .ok { state with pk := true }
  else if m.isIdent "unique" then do
    bare m
    .ok { state with unique := true }
  else if m.isIdent "index" then do
    let method ← indexValue m
    .ok { state with index := true, indexMethod := method.or state.indexMethod }
  else if m.isIdent "index_method" then do
    let value ← litStr m
    .ok { state with indexMethod := some value }
  else if m.isIdent "opclass" then do
    let value ← litStr m
    .ok { state with opclass := some value }
  else if m.isIdent "nullable" then do
    bare m
    .ok { state with nullable := true }
  else if m.isIdent "name" then do
    let value ← litStr m
    .ok { state with name := value }
  else if m.isIdent "default" then do
    let value ← litStr m
    .ok { state with default := some value }
  else if m.isIdent "generated" then do
    let value ← litStr m
    .ok { state with generated := some value }
  else if m.isIdent "sql_type" then do
    let value ← litStr m
    .ok { state with explicitType := some value }
  else if m.isIdent "references" then do
    let found ← readReference m
    .ok { state with references := some found }
  else if m.isIdent "on_delete" then do
    let value ← litStr m
    .ok { state with onDelete := some value }
  else .error "unknown #[column(...)] attribute"

def freshColumn (field : Field) : ColumnRead ρ :=
  ⟨field.ident, false, false, false, none, none, (unwrapGeneric field.ty "Option").isSome, none,
    none, none, none, none⟩

def columnType (field : Field) (read : ColumnRead ρ) : Option String :=
  read.explicitType.or (sqlType ((unwrapGeneric field.ty "Option").getD field.ty))

end

end Stakit.SchemaAttributes
