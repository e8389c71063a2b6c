import Mathlib.Data.List.Sort
import Mathlib.Data.String.Basic
import Stakit.SchemaAttributes

set_option autoImplicit false

namespace Stakit.SchemaParser
open SchemaModel SchemaAttributes

/-- The list of a `derive` up to the first item that is more than a path. -/
def namesDerive (name : String) : List Meta → Bool
  | [] => false
  | m :: rest =>
    m.isIdent name || match m with
      | .flag _ => namesDerive name rest
      | _ => false

def derives (attrs : List Attribute) (name : String) : Bool :=
  attrs.any fun attr => attr.name = "derive" && attr.content.any (namesDerive name)

structure Collected where
  policies : List Policy
  grants : List Grant
  indexes : List Index

def mergeGrant (new : Grant) : List Grant → List Grant
  | [] => [new]
  | grant :: rest =>
    if grant.role = new.role then
      ⟨grant.role, new.privileges.foldl
        (fun found privilege => if privilege ∈ found then found else found ++ [privilege])
        grant.privileges⟩ :: rest
    else grant :: mergeGrant new rest

def checkedGrant (entry : Meta) : Except String Grant := do
  let grant ← parseGrantEntry entry
  validateIdentifier grant.role
  .ok grant

def checkedPolicy (entry : Meta) : Except String Policy := do
  let policy ← parsePolicyEntry entry
  validateIdentifier policy.name
  checkAll validateIdentifier policy.roles
  .ok policy

structure IndexRead where
  name : Option String
  columns : List String
  method : Option String
  predicate : Option String

/-- `= (a, b, …)` -/
def identsOf : Meta → Except String (List String)
  | .tuple _ items => .ok items
  | .flag _ | .list _ _ => .error "expected `=`"
  | _ => .error "expected parentheses"

def indexStep (state : IndexRead) (entry : Meta) : Except String IndexRead :=
  if entry.isIdent "method" then do
    let value ← litStr entry
    .ok { state with method := some value }
  else if entry.isIdent "predicate" then do
    let value ← litStr entry
    .ok { state with predicate := some value }
  else do
    reject state.name.isSome "index(...) takes one `name = (columns)` entry"
    match entry.key with
    | [name] => do
      let columns ← identsOf entry
      .ok { state with name := some name, columns := columns }
    | _ => .error "index name must be a bare identifier"

def parseIndexEntry (unique : Bool) (m : Meta) : Except String Index := do
  let items ← nested m
  let read ← items.foldlM indexStep ⟨none, [], none, none⟩
  match read.name with
  | none => .error "index(...) needs a `name = (columns)`"
  | some name => do
    validateIndex ⟨name, read.columns, unique, read.method, read.predicate⟩
    .ok ⟨name, read.columns, unique, read.method, read.predicate⟩

def metaStep (found : Collected) (m : Meta) : Except String Collected :=
  if m.isIdent "grant" then do
    let entries ← nested m
    let grants ← entries.foldlM (fun grants entry => do
      let grant ← checkedGrant entry
      .ok (mergeGrant grant grants)) found.grants
    .ok { found with grants := grants }
  else if m.isIdent "policy" then do
    let entries ← nested m
    let policies ← entries.mapM checkedPolicy
    .ok { found with policies := found.policies ++ policies }
  else if m.isIdent "index" then do
    let index ← parseIndexEntry false m
    .ok { found with indexes := found.indexes ++ [index] }
  else if m.isIdent "unique_index" then do
    let index ← parseIndexEntry true m
    .ok { found with indexes := found.indexes ++ [index] }
  else .error "unknown #[table(...)] attribute"

structure TableMeta where
  name : String
  rls : Bool
  forceRls : Bool
  policies : List Policy
  grants : List Grant
  indexes : List Index

def sortByName {α : Type} (name : α → String) (items : List α) : List α :=
  items.insertionSort fun a b => name a ≤ name b

def twin : List Index → Option String
  | first :: second :: rest =>
    if first.name = second.name then some first.name else twin (second :: rest)
  | _ => none

def tableMeta (input : DeriveInput) : Except String TableMeta := do
  let (head, found) ← parseTableAttrs input.attrs metaStep ⟨[], [], []⟩
  match head.name with
  | none => .error (input.ident ++ ": missing #[table(name = \"...\")]")
  | some name => do
    validateIdentifier name
    reject (head.forceRls && !head.rls) (name ++ ": force_rls requires rls on the same table")
    reject (!found.policies.isEmpty && !head.rls) (name ++
      ": policy(...) requires RLS — add `rls` to #[table(name = \"...\", rls, …)]")
    let indexes := sortByName Index.name found.indexes
    match twin indexes with
    | some index => .error (name ++ ": duplicate index name `" ++ index ++ "`")
    | none => .ok ⟨name, head.rls, head.forceRls, sortByName Policy.name found.policies,
        sortByName Grant.role found.grants, indexes⟩

/-- The names of the tables read so far by the identifiers of their structs, the last one
first. -/
abbrev TableOfIdent := List (String × String)

/-- The type and the field a path names. -/
def pathParts (segments : List String) : String × String :=
  (segments.reverse[1]?.getD "", segments.getLast?.getD "")

def referenceParts (tableOfIdent : TableOfIdent) : Meta → Except String (String × String)
  | .text _ value => splitTableColumn value
  | .path _ segments =>
    let (root, column) := pathParts segments
    .ok ((tableOfIdent.lookup root).getD root, column)
  | .flag _ | .list _ _ => .error "expected `=`"
  | _ => .error "expected identifier"

def parseReference (tableOfIdent : TableOfIdent) (m : Meta) : Except String ForeignKey := do
  let (table, column) ← referenceParts tableOfIdent m
  validateIdentifier table
  validateIdentifier column
  .ok ⟨table, column, "no action"⟩

def checkAction (read : ColumnRead ForeignKey) : Except String Unit :=
  match read.onDelete with
  | some action => mapError (fun message => read.name ++ ": " ++ message)
      (validateOnDelete action read.references.isSome read.nullable)
  | none => .ok ()

def checkColumn (read : ColumnRead ForeignKey) : Except String Unit := do
  let named := fun message => read.name ++ ": " ++ message
  validateIdentifier read.name
  checkAction read
  reject (!read.index && (read.indexMethod.isSome || read.opclass.isSome))
    (named "index_method/opclass require #[column(index)] on the same column")
  reject (read.indexMethod.any fun method => !isSqlIdentifier method false)
    (named "index_method must be a bare SQL identifier")
  reject (read.opclass.any fun opclass => !isSqlIdentifier opclass true)
    (named "opclass must be a (optionally schema-qualified) SQL identifier")
  reject (read.generated.isSome && read.default.isSome)
    (named "a #[column(generated = ...)] column cannot also have a default")

def parseColumn (tableOfIdent : TableOfIdent) (field : Field) : Except String Column := do
  let read ← readAttrs "column" (columnStep (parseReference tableOfIdent)) (freshColumn field)
    field.attrs
  checkColumn read
  match columnType field read with
  | none => .error (read.name ++ ": unknown SQL type; add #[column(sql_type = \"...\")]")
  | some sqlType => .ok ⟨read.name, sqlType, read.nullable, read.pk, read.unique, read.index,
      read.indexMethod, read.opclass, read.generated, read.default,
      read.references.map fun fk => { fk with onDelete := read.onDelete.getD fk.onDelete }⟩

def columnFields (fields : List Field) : List Field :=
  fields.filter fun field => !isRelation field.ty

def parseTable (tableOfIdent : TableOfIdent) (input : DeriveInput) : Except String Table :=
  match input.data with
  | .noStruct => .error (input.ident ++ ": not a struct")
  | .unnamed => .error (input.ident ++ ": needs named fields")
  | .named fields => do
    let columns ← (columnFields fields).mapM (parseColumn tableOfIdent)
    let found ← tableMeta input
    checkAll (fun index => checkAll (fun column =>
      reject (!columns.any fun c => c.name = column) (found.name ++ ": index `" ++ index.name ++
        "` references unknown column `" ++ column ++ "`")) index.columns) found.indexes
    .ok ⟨found.name, columns, found.rls, found.forceRls, found.policies, found.grants,
      found.indexes⟩

structure RoleRead where
  name : Option String
  login : Bool
  createdb : Bool
  createrole : Bool
  bypassrls : Bool

def roleStep (state : RoleRead) (m : Meta) : Except String RoleRead :=
  if m.isIdent "name" then do
    let value ← litStr m
    .ok { state with name := some value }
  else if m.isIdent "login" then do
    bare m
    .ok { state with login := true }
  else if m.isIdent "createdb" then do
    bare m
    .ok { state with createdb := true }
  else if m.isIdent "createrole" then do
    bare m
    .ok { state with createrole := true }
  else if m.isIdent "bypassrls" then do
    bare m
    .ok { state with bypassrls := true }
  else .error "unknown #[role(...)] attribute"

def parseRole (input : DeriveInput) : Except String Role := do
  let read ← readAttrs "role" roleStep ⟨none, false, false, false, false⟩ input.attrs
  match read.name with
  | none => .error (input.ident ++ ": missing #[role(name = \"...\")]")
  | some name => do
    validateIdentifier name
    .ok ⟨name, read.login, read.createdb, read.createrole, read.bypassrls⟩

def tableInputs (inputs : List DeriveInput) : List DeriveInput :=
  inputs.filter fun input => derives input.attrs "Table"

def roleInputs (inputs : List DeriveInput) : List DeriveInput :=
  inputs.filter fun input => derives input.attrs "Role"

def nameTables (tables : List DeriveInput) : Except String TableOfIdent :=
  tables.foldlM (fun names input => do
    let found ← tableMeta input
    .ok ((input.ident, found.name) :: names)) []

def buildSchema (inputs : List DeriveInput) : Except String Schema := do
  let tableOfIdent ← nameTables (tableInputs inputs)
  let tables ← (tableInputs inputs).mapM (parseTable tableOfIdent)
  let roles ← (roleInputs inputs).mapM parseRole
  .ok ⟨sortByName Table.name tables, sortByName Role.name roles⟩

end Stakit.SchemaParser
