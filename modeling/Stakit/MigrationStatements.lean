import Stakit.SchemaDiff

set_option autoImplicit false

namespace Stakit.MigrationStatements
open SchemaModel SchemaDiff
open Function (update)

structure ColumnDdl where
  name : String
  sqlType : String
  notNull : Bool
  unique : Bool
  generated : Option String
  default : Option String
  references : Option ForeignKey
  deriving DecidableEq, Repr

def columnDdl (column : Column) : ColumnDdl where
  name := column.name
  sqlType := column.sqlType
  notNull := !column.nullable
  unique := column.unique
  generated := column.generated
  default := if column.generated.isSome then none else column.default
  references := column.references

inductive Statement where
  | createTable (name : String) (columns : List ColumnDdl) (primaryKey : List String)
  | dropTable (name : String)
  | addColumn (table : String) (column : ColumnDdl)
  | dropColumn (table column : String)
  | alterColumnType (table column sqlType : String)
  | alterColumnNull (table column : String) (nullable : Bool)
  | renameColumn (table old new : String)
  | createColumnIndex (name table column : String) (method opclass : Option String)
  | createTableIndex (table : String) (index : Index)
  | dropIndex (name : String)
  | createRole (role : Role)
  | dropRole (name : String)
  | alterRole (role : Role)
  | setRls (table : String) (enabled : Bool)
  | forceRls (table : String) (forced : Bool)
  | grant (table role : String) (privileges : List Privilege)
  | revoke (table role : String) (privileges : List Privilege)
  | createPolicy (table : String) (policy : Policy)
  | dropPolicy (table name : String)
  deriving DecidableEq, Repr

def indexName (table column : String) : String := "idx_" ++ table ++ "_" ++ column

def createIndexSql (table : String) (column : Column) : Statement :=
  .createColumnIndex (indexName table column.name) table column.name column.indexMethod
    column.opclass

def createTableSql (table : Table) : Statement :=
  .createTable table.name (table.columns.map columnDdl)
    ((table.columns.filter Column.pk).map Column.name)

def alterTypeSql (table : String) (column : Column) : List Statement :=
  [.alterColumnType table column.name column.sqlType,
    .alterColumnNull table column.name column.nullable]

def grantSql (table role : String) (privileges : List Privilege) : Statement :=
  .grant table role (canonicalPrivileges privileges)

def revokeSql (table role : String) (privileges : List Privilege) : Statement :=
  .revoke table role (canonicalPrivileges privileges)

def createObjectSql (table : Table) : List Statement :=
  createTableSql table :: ((table.columns.filter Column.index).map (createIndexSql table.name) ++
      table.indexes.map (Statement.createTableIndex table.name) ++
      table.grants.map (fun grant => grantSql table.name grant.role grant.privileges) ++
      (if table.rls then [Statement.setRls table.name true] else []) ++
      (if table.forceRls then [Statement.forceRls table.name true] else []) ++
      table.policies.map (Statement.createPolicy table.name))

def addColumnSql (table : String) (column : Column) : List Statement :=
  .addColumn table (columnDdl column) :: if column.index then [createIndexSql table column] else []

def up : Change → List Statement
  | .createTable table => createObjectSql table
  | .dropTable table => [.dropTable table.name]
  | .addColumn table column => addColumnSql table column
  | .dropColumn table column => [.dropColumn table column.name]
  | .alterType table _ new => alterTypeSql table new
  | .renameColumn table old new _ _ => [.renameColumn table old new]
  | .createRole role => [.createRole role]
  | .dropRole role => [.dropRole role.name]
  | .alterRole _ new => [.alterRole new]
  | .setRls table enabled => [.setRls table enabled]
  | .setForceRls table forced => [.forceRls table forced]
  | .grant table role privileges => [grantSql table role privileges]
  | .revoke table role privileges => [revokeSql table role privileges]
  | .createPolicy table policy => [.createPolicy table policy]
  | .dropPolicy table policy => [.dropPolicy table policy.name]
  | .createIndex table index => [.createTableIndex table index]
  | .dropIndex _ index => [.dropIndex index.name]

def upSql (changes : List Change) : List Statement := changes.flatMap up

structure ColumnIndex where
  name : String
  method : Option String
  opclass : Option String
  deriving DecidableEq, Repr

structure ColumnState where
  sqlType : String
  nullable : Bool
  pk : Bool
  unique : Bool
  generated : Option String
  default : Option String
  references : Option ForeignKey
  index : Option ColumnIndex
  deriving DecidableEq, Repr

/-- What a privilege gives; `all` gives also what has no privilege of its own here. -/
inductive Access where
  | select | insert | update | delete | rest
  deriving DecidableEq, Repr

def accesses : Privilege → List Access
  | .all => [.select, .insert, .update, .delete, .rest]
  | .select => [.select]
  | .insert => [.insert]
  | .update => [.update]
  | .delete => [.delete]

def given (privileges : List Privilege) (access : Access) : Bool :=
  privileges.any fun privilege => access ∈ accesses privilege

@[ext]
structure TableState where
  rls : Bool
  forceRls : Bool
  columns : String → Option ColumnState
  indexes : String → Option Index
  grants : String → Access → Bool
  policies : String → Option Policy

@[ext]
structure Catalog where
  tables : String → Option TableState
  roles : String → Option Role

/-- The column a clause list creates. -/
def ColumnDdl.state (ddl : ColumnDdl) (pk : Bool) : ColumnState where
  sqlType := ddl.sqlType
  nullable := !ddl.notNull
  pk := pk
  unique := ddl.unique
  generated := ddl.generated
  default := ddl.default
  references := ddl.references
  index := none

namespace TableState

def setColumn (state : TableState) (name : String) (column : Option ColumnState) : TableState :=
  { state with columns := update state.columns name column }

def updateColumn (state : TableState) (name : String) (f : ColumnState → ColumnState) :
    TableState :=
  state.setColumn name ((state.columns name).map f)

/-- A column keeps everything but its name. -/
def moveColumn (state : TableState) (old new : String) : TableState :=
  (state.setColumn old none).setColumn new (state.columns old)

def unindex (state : TableState) (name : String) : TableState :=
  { state with
    columns := fun column => (state.columns column).map fun found =>
      { found with index := found.index.filter fun index => index.name ≠ name }
    indexes := update state.indexes name none }

end TableState

def createdTable (columns : List ColumnDdl) (primaryKey : List String) : TableState where
  rls := false
  forceRls := false
  columns := fun name =>
    (columns.find? fun ddl => ddl.name = name).map fun ddl => ddl.state (name ∈ primaryKey)
  indexes := fun _ => none
  grants := fun _ _ => false
  policies := fun _ => none

section
variable (target : String) (table : String) (f : TableState → TableState)

def onlyAt (state : Option TableState) : Option TableState :=
  if table = target then state.map f else state

end

/-- What a statement does to the table of a name: exactly what its text names. -/
def Statement.onTable (target : String) (state : Option TableState) : Statement → Option TableState
  | .createTable name columns primaryKey =>
    if name = target then some (createdTable columns primaryKey) else state
  | .dropTable name => if name = target then none else state
  | .addColumn table column =>
    onlyAt target table (fun found => found.setColumn column.name (some (column.state false))) state
  | .dropColumn table column => onlyAt target table (fun found => found.setColumn column none) state
  | .alterColumnType table column sqlType =>
    onlyAt target table
      (fun found => found.updateColumn column fun old => { old with sqlType := sqlType }) state
  | .alterColumnNull table column nullable =>
    onlyAt target table
      (fun found => found.updateColumn column fun old => { old with nullable := nullable }) state
  | .renameColumn table old new => onlyAt target table (fun found => found.moveColumn old new) state
  | .createColumnIndex name table column method opclass =>
    onlyAt target table (fun found => found.updateColumn column fun old =>
      { old with index := some ⟨name, method, opclass⟩ }) state
  | .createTableIndex table index =>
    onlyAt target table (fun found =>
      { found with indexes := update found.indexes index.name (some index) }) state
  | .dropIndex name => state.map fun found => found.unindex name
  | .setRls table enabled => onlyAt target table (fun found => { found with rls := enabled }) state
  | .forceRls table forced =>
    onlyAt target table (fun found => { found with forceRls := forced }) state
  | .grant table role privileges =>
    onlyAt target table (fun found => { found with
      grants := update found.grants role fun access =>
        found.grants role access || given privileges access }) state
  | .revoke table role privileges =>
    onlyAt target table (fun found => { found with
      grants := update found.grants role fun access =>
        found.grants role access && !given privileges access }) state
  | .createPolicy table policy =>
    onlyAt target table (fun found => { found with
      policies := update found.policies policy.name (some policy) }) state
  | .dropPolicy table name =>
    onlyAt target table (fun found => { found with
      policies := update found.policies name none }) state
  | .createRole _ | .dropRole _ | .alterRole _ => state

/-- A role that is there stays as it is when it is created again. -/
def Statement.onRole (target : String) (state : Option Role) : Statement → Option Role
  | .createRole role => if role.name = target then state.or (some role) else state
  | .dropRole name => if name = target then none else state
  | .alterRole role => if role.name = target then state.map fun _ => role else state
  | _ => state

def Statement.apply (statement : Statement) (catalog : Catalog) : Catalog where
  tables := fun name => statement.onTable name (catalog.tables name)
  roles := fun name => statement.onRole name (catalog.roles name)

def applyAll (statements : List Statement) (catalog : Catalog) : Catalog :=
  statements.foldl (fun found statement => statement.apply found) catalog

def columnState (table : String) (column : Column) : ColumnState where
  sqlType := column.sqlType
  nullable := column.nullable
  pk := column.pk
  unique := column.unique
  generated := column.generated
  default := column.default
  references := column.references
  index := if column.index then
    some ⟨indexName table column.name, column.indexMethod, column.opclass⟩ else none

def tableState (table : Table) : TableState where
  rls := table.rls
  forceRls := table.forceRls
  columns := fun name => (table.column name).map (columnState table.name)
  indexes := table.index
  grants := fun role access => (table.grant role).any fun grant => given grant.privileges access
  policies := table.policy

def catalogOf (schema : Schema) : Catalog where
  tables := fun name => (schema.table name).map tableState
  roles := schema.role

end Stakit.MigrationStatements
