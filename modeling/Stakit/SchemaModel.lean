import Mathlib.Tactic.SplitIfs
import Stakit.ExceptLoops

set_option autoImplicit false

namespace Stakit.SchemaModel
open ExceptLoops

structure ForeignKey where
  table : String
  column : String
  onDelete : String
  deriving DecidableEq, Repr

structure Column where
  name : String
  sqlType : String
  nullable : Bool
  pk : Bool
  unique : Bool
  index : Bool
  indexMethod : Option String
  opclass : Option String
  generated : Option String
  default : Option String
  references : Option ForeignKey
  deriving DecidableEq, Repr

def Column.typeDiffers (column other : Column) : Bool :=
  column.sqlType ≠ other.sqlType || column.nullable ≠ other.nullable

inductive PolicyCommand where
  | all | select | insert | update | delete
  deriving DecidableEq, Repr

def PolicyCommand.asSql : PolicyCommand → String
  | .all => "all"
  | .select => "select"
  | .insert => "insert"
  | .update => "update"
  | .delete => "delete"

inductive Privilege where
  | all | select | insert | update | delete
  deriving DecidableEq, Repr

def Privilege.asSql : Privilege → String
  | .all => "all privileges"
  | .select => "select"
  | .insert => "insert"
  | .update => "update"
  | .delete => "delete"

structure Policy where
  name : String
  command : PolicyCommand
  roles : List String
  usingClause : Option String
  checkClause : Option String
  deriving DecidableEq, Repr

structure Grant where
  role : String
  privileges : List Privilege
  deriving DecidableEq, Repr

structure Index where
  name : String
  columns : List String
  unique : Bool
  method : Option String
  predicate : Option String
  deriving DecidableEq, Repr

structure Role where
  name : String
  login : Bool
  createdb : Bool
  createrole : Bool
  bypassrls : Bool
  deriving DecidableEq, Repr

structure Table where
  name : String
  columns : List Column
  rls : Bool
  forceRls : Bool
  policies : List Policy
  grants : List Grant
  indexes : List Index
  deriving DecidableEq, Repr

structure Schema where
  tables : List Table
  roles : List Role
  deriving DecidableEq, Repr

def Table.column (table : Table) (name : String) : Option Column :=
  table.columns.find? fun column => column.name = name

def Table.policy (table : Table) (name : String) : Option Policy :=
  table.policies.find? fun policy => policy.name = name

def Table.grant (table : Table) (role : String) : Option Grant :=
  table.grants.find? fun grant => grant.role = role

def Table.index (table : Table) (name : String) : Option Index :=
  table.indexes.find? fun index => index.name = name

def Schema.table (schema : Schema) (name : String) : Option Table :=
  schema.tables.find? fun table => table.name = name

def Schema.role (schema : Schema) (name : String) : Option Role :=
  schema.roles.find? fun role => role.name = name

def isPart : List Char → Bool
  | [] => false
  | first :: rest => (first.isAlpha || first = '_') && rest.all fun c => c.isAlphanum || c = '_'

def isSqlIdentifier (value : String) (allowQualified : Bool) : Bool :=
  let parts := value.toList.splitOn '.'
  if 1 < parts.length && !allowQualified then false else parts.all isPart

def validateIdentifier (name : String) : Except String Unit :=
  if name = "" then .error "identifier is empty"
  else if '\x00' ∈ name.toList then .error ("identifier `" ++ name ++ "` contains a NUL byte")
  else if 63 < name.utf8ByteSize then
    .error ("identifier `" ++ name ++ "` exceeds Postgres NAMEDATALEN (63 bytes)")
  else .ok ()

def onDeleteActions : List String := ["cascade", "restrict", "set null", "no action"]

def validateOnDelete (action : String) (hasReferences nullable : Bool) : Except String Unit :=
  if !hasReferences then .error "on_delete requires references"
  else if action ∉ onDeleteActions then
    .error "on_delete must be one of: cascade, restrict, set null, no action"
  else if action = "set null" && !nullable then
    .error "on_delete = \"set null\" requires a nullable (Option<_>) column"
  else .ok ()

/-- `Result::map_err` -/
def mapError {α : Type} (f : String → String) : Except String α → Except String α
  | .ok value => .ok value
  | .error message => .error (f message)

def reject (broken : Bool) (message : String) : Except String Unit :=
  if broken then .error message else .ok ()

/-- A loop that stops at the first error. -/
def checkAll {α : Type} (check : α → Except String Unit) : List α → Except String Unit
  | [] => .ok ()
  | item :: rest => do
    check item
    checkAll check rest

def validateIndex (index : Index) : Except String Unit := do
  let named := fun message => "index `" ++ index.name ++ "`: " ++ message
  mapError named (validateIdentifier index.name)
  reject (index.columns = []) (named "needs at least one column")
  checkAll (fun column => mapError named (validateIdentifier column)) index.columns
  reject (index.method.any fun method => !isSqlIdentifier method false)
    (named "method must be a bare SQL identifier")
  reject (index.predicate = some "") (named "predicate must not be empty")

def checkClauses (named : String → String) (keyword : String) (usingClause checkClause : Option String) :
    PolicyCommand → Except String Unit
  | .select | .delete => do
    reject checkClause.isSome (named ("a " ++ keyword ++
      " policy cannot have check = \"...\" (no WITH CHECK on " ++ keyword ++ ")"))
    reject usingClause.isNone (named ("a " ++ keyword ++ " policy needs using = \"...\""))
  | .insert => do
    reject usingClause.isSome (named
      "an insert policy cannot have using = \"...\" (INSERT only checks new rows)")
    reject checkClause.isNone (named "an insert policy needs check = \"...\"")
  | .all | .update =>
    reject (usingClause.isNone && checkClause.isNone) (named ("a " ++ keyword ++
      " policy needs at least one of using = \"...\" / check = \"...\""))

def checkPolicyClauses (name : String) (command : PolicyCommand)
    (usingClause checkClause : Option String) : Except String Unit := do
  let named := fun message => "policy `" ++ name ++ "`: " ++ message
  checkClauses named command.asSql usingClause checkClause command
  reject (usingClause = some "" || checkClause = some "")
    (named "using/check expression must not be empty")

def validateColumn (column : Column) : Except String Unit := do
  validateIdentifier column.name
  reject (column.indexMethod.any fun method => !isSqlIdentifier method false)
    ("column `" ++ column.name ++ "`: index_method must be a bare SQL identifier")
  reject (column.opclass.any fun opclass => !isSqlIdentifier opclass true)
    ("column `" ++ column.name ++ "`: opclass must be a (schema-qualified) SQL identifier")

def validatePolicy (policy : Policy) : Except String Unit := do
  validateIdentifier policy.name
  checkAll validateIdentifier policy.roles
  checkPolicyClauses policy.name policy.command policy.usingClause policy.checkClause

def validateTable (table : Table) : Except String Unit := do
  validateIdentifier table.name
  checkAll validateColumn table.columns
  checkAll validateIndex table.indexes
  checkAll (fun grant => validateIdentifier grant.role) table.grants
  checkAll validatePolicy table.policies

def validateSchema (schema : Schema) : Except String Unit := do
  checkAll (fun role => validateIdentifier role.name) schema.roles
  checkAll validateTable schema.tables

theorem mapError_eq_ok {α : Type} (f : String → String) (result : Except String α) (a : α) :
    mapError f result = .ok a ↔ result = .ok a := by
  cases result <;> simp [mapError]

theorem reject_eq_ok (broken : Bool) (message : String) :
    reject broken message = .ok () ↔ broken = false := by
  cases broken <;> simp [reject]

theorem checkAll_eq_ok {α : Type} (check : α → Except String Unit) (items : List α) :
    checkAll check items = .ok () ↔ ∀ item ∈ items, check item = .ok () := by
  induction items with
  | nil => simp [checkAll]
  | cons item rest ih =>
    rw [checkAll, then_eq_ok, ih]
    simp

def IsIdentifier (name : String) : Prop :=
  name ≠ "" ∧ '\x00' ∉ name.toList ∧ name.utf8ByteSize ≤ 63

instance (name : String) : Decidable (IsIdentifier name) := inferInstanceAs (Decidable (_ ∧ _ ∧ _))

theorem validateIdentifier_eq_ok (name : String) :
    validateIdentifier name = .ok () ↔ IsIdentifier name := by
  unfold validateIdentifier IsIdentifier
  split_ifs with hempty hnul hlong
  · simp [hempty]
  · simp [hnul]
  · simp [Nat.not_le.mpr hlong]
  · simp [hempty, hnul, Nat.not_lt.mp hlong]

structure ForeignKeyRules (nullable : Bool) (fk : ForeignKey) : Prop where
  table : IsIdentifier fk.table
  column : IsIdentifier fk.column
  action : fk.onDelete ∈ onDeleteActions
  nullable : fk.onDelete = "set null" → nullable = true

structure ColumnRules (column : Column) : Prop where
  name : IsIdentifier column.name
  references : ∀ fk, column.references = some fk → ForeignKeyRules column.nullable fk
  method : ∀ method, column.indexMethod = some method → isSqlIdentifier method false = true
  opclass : ∀ opclass, column.opclass = some opclass → isSqlIdentifier opclass true = true
  indexed : column.index = false → column.indexMethod = none ∧ column.opclass = none
  computed : column.generated = none ∨ column.default = none

structure IndexRules (index : Index) : Prop where
  name : IsIdentifier index.name
  nonempty : index.columns ≠ []
  columns : ∀ column ∈ index.columns, IsIdentifier column
  method : ∀ method, index.method = some method → isSqlIdentifier method false = true
  predicate : index.predicate ≠ some ""

def HasClauses (policy : Policy) : Prop :=
  policy.usingClause ≠ some "" ∧ policy.checkClause ≠ some "" ∧ match policy.command with
    | .select | .delete => policy.checkClause = none ∧ policy.usingClause ≠ none
    | .insert => policy.usingClause = none ∧ policy.checkClause ≠ none
    | .all | .update => policy.usingClause ≠ none ∨ policy.checkClause ≠ none

structure PolicyRules (policy : Policy) : Prop where
  name : IsIdentifier policy.name
  roles : ∀ role ∈ policy.roles, IsIdentifier role
  clauses : HasClauses policy

structure TableRules (table : Table) : Prop where
  name : IsIdentifier table.name
  columns : ∀ column ∈ table.columns, ColumnRules column
  indexes : ∀ index ∈ table.indexes, IndexRules index
  indexed : ∀ index ∈ table.indexes, ∀ name ∈ index.columns, table.column name ≠ none
  grants : ∀ grant ∈ table.grants, IsIdentifier grant.role
  policies : ∀ policy ∈ table.policies, PolicyRules policy
  secured : table.policies ≠ [] → table.rls = true
  forced : table.forceRls = true → table.rls = true

/-- Every rule the parser of the source enforces on texts that reach generated DDL. -/
structure SchemaRules (schema : Schema) : Prop where
  roles : ∀ role ∈ schema.roles, IsIdentifier role.name
  tables : ∀ table ∈ schema.tables, TableRules table

/-- The rules of a column that `validate_schema` does not repeat. -/
structure ColumnUnrepeated (column : Column) : Prop where
  references : ∀ fk, column.references = some fk → ForeignKeyRules column.nullable fk
  indexed : column.index = false → column.indexMethod = none ∧ column.opclass = none
  computed : column.generated = none ∨ column.default = none

/-- The rules of a table that `validate_schema` does not repeat. -/
structure TableUnrepeated (table : Table) : Prop where
  columns : ∀ column ∈ table.columns, ColumnUnrepeated column
  indexed : ∀ index ∈ table.indexes, ∀ name ∈ index.columns, table.column name ≠ none
  secured : table.policies ≠ [] → table.rls = true
  forced : table.forceRls = true → table.rls = true

theorem any_eq_false {α : Type} (found : Option α) (p : α → Bool) :
    (found.any fun value => !p value) = false ↔ ∀ value, found = some value → p value = true := by
  cases found <;> simp

theorem validateIndex_eq_ok (index : Index) : validateIndex index = .ok () ↔ IndexRules index := by
  unfold validateIndex
  simp only [then_eq_ok, mapError_eq_ok, reject_eq_ok, checkAll_eq_ok, validateIdentifier_eq_ok,
    any_eq_false, decide_eq_false_iff_not]
  constructor
  · rintro ⟨hname, hnonempty, hcolumns, hmethod, hpredicate⟩
    exact ⟨hname, hnonempty, hcolumns, hmethod, hpredicate⟩
  · intro h
    exact ⟨h.name, h.nonempty, h.columns, h.method, h.predicate⟩

theorem checkPolicyClauses_eq_ok (policy : Policy) :
    checkPolicyClauses policy.name policy.command policy.usingClause policy.checkClause = .ok () ↔
      HasClauses policy := by
  unfold checkPolicyClauses HasClauses
  rw [then_eq_ok, reject_eq_ok, Bool.or_eq_false_iff, decide_eq_false_iff_not,
    decide_eq_false_iff_not]
  have hclauses : checkClauses (fun message => "policy `" ++ policy.name ++ "`: " ++ message)
      policy.command.asSql policy.usingClause policy.checkClause policy.command = .ok () ↔
      match policy.command with
      | .select | .delete => policy.checkClause = none ∧ policy.usingClause ≠ none
      | .insert => policy.usingClause = none ∧ policy.checkClause ≠ none
      | .all | .update => policy.usingClause ≠ none ∨ policy.checkClause ≠ none := by
    cases policy.command <;> cases policy.usingClause <;> cases policy.checkClause <;>
      simp [checkClauses, then_eq_ok, reject_eq_ok]
  rw [hclauses]
  exact ⟨fun ⟨h, hu, hc⟩ => ⟨hu, hc, h⟩, fun ⟨hu, hc, h⟩ => ⟨h, hu, hc⟩⟩

theorem validatePolicy_eq_ok (policy : Policy) :
    validatePolicy policy = .ok () ↔ PolicyRules policy := by
  unfold validatePolicy
  rw [then_eq_ok, then_eq_ok, checkAll_eq_ok, checkPolicyClauses_eq_ok, validateIdentifier_eq_ok]
  simp only [validateIdentifier_eq_ok]
  exact ⟨fun ⟨hname, hroles, hclauses⟩ => ⟨hname, hroles, hclauses⟩,
    fun h => ⟨h.name, h.roles, h.clauses⟩⟩

theorem columnRules_iff {column : Column} (h : validateColumn column = .ok ()) :
    ColumnRules column ↔ ColumnUnrepeated column := by
  unfold validateColumn at h
  rw [then_eq_ok, then_eq_ok, reject_eq_ok, reject_eq_ok, any_eq_false, any_eq_false,
    validateIdentifier_eq_ok] at h
  obtain ⟨hname, hmethod, hopclass⟩ := h
  constructor
  · intro hrules
    exact ⟨hrules.references, hrules.indexed, hrules.computed⟩
  · intro hrest
    exact ⟨hname, hrest.references, hmethod, hopclass, hrest.indexed, hrest.computed⟩

theorem tableRules_iff {table : Table} (h : validateTable table = .ok ()) :
    TableRules table ↔ TableUnrepeated table := by
  unfold validateTable at h
  simp only [then_eq_ok, checkAll_eq_ok, validateIdentifier_eq_ok, validateIndex_eq_ok,
    validatePolicy_eq_ok] at h
  obtain ⟨hname, hcolumns, hindexes, hgrants, hpolicies⟩ := h
  constructor
  · intro hrules
    refine ⟨fun column hin => ?_, hrules.indexed, hrules.secured, hrules.forced⟩
    exact (columnRules_iff (hcolumns column hin)).mp (hrules.columns column hin)
  · intro hrest
    refine ⟨hname, fun column hin => ?_, hindexes, hrest.indexed, hgrants, hpolicies,
      hrest.secured, hrest.forced⟩
    exact (columnRules_iff (hcolumns column hin)).mpr (hrest.columns column hin)

/-- What `validate_schema` passes obeys every rule of the source exactly when it obeys
those that are not repeated there. -/
theorem schema_rules_iff (schema : Schema) (h : validateSchema schema = .ok ()) :
    SchemaRules schema ↔ ∀ table ∈ schema.tables, TableUnrepeated table := by
  unfold validateSchema at h
  simp only [then_eq_ok, checkAll_eq_ok, validateIdentifier_eq_ok] at h
  obtain ⟨hroles, htables⟩ := h
  constructor
  · intro hrules table hin
    exact (tableRules_iff (htables table hin)).mp (hrules.tables table hin)
  · intro hrest
    refine ⟨hroles, fun table hin => ?_⟩
    exact (tableRules_iff (htables table hin)).mpr (hrest table hin)

def plainColumn (name sqlType : String) : Column :=
  ⟨name, sqlType, false, false, false, false, none, none, none, none, none⟩

def postsWith (fk : ForeignKey) : Schema :=
  ⟨[⟨"posts", [plainColumn "id" "uuid", { plainColumn "author" "uuid" with references := some fk }],
    false, false, [], [], []⟩], []⟩

def cascading : ForeignKey := ⟨"users", "id", "cascade"⟩

/-- The action of a snapshot that was edited. -/
def smuggling : ForeignKey := ⟨"users", "id", "cascade); drop table \"users\"; --"⟩

theorem schema_rules_cascading : validateSchema (postsWith cascading) = .ok () ∧
    SchemaRules (postsWith cascading) := by
  have hvalid : validateSchema (postsWith cascading) = .ok () := by rfl
  refine ⟨hvalid, (schema_rules_iff _ hvalid).mpr ?_⟩
  simp only [postsWith, List.forall_mem_singleton]
  refine ⟨?_, List.forall_mem_nil _, fun h => absurd rfl h, nofun⟩
  simp only [List.forall_mem_cons]
  refine ⟨⟨nofun, fun _ => ⟨rfl, rfl⟩, .inl rfl⟩,
    ⟨fun fk h => ?_, fun _ => ⟨rfl, rfl⟩, .inl rfl⟩, List.forall_mem_nil _⟩
  cases h
  exact ⟨by decide, by decide, by decide, fun h => absurd h (by decide)⟩

/-- `validate_schema` passes an action that is none of the four, and it reaches the DDL
as it is. -/
theorem smuggled_action_passes : validateSchema (postsWith smuggling) = .ok () ∧
    ¬ SchemaRules (postsWith smuggling) := by
  refine ⟨by rfl, fun h => ?_⟩
  have htable := h.tables _ List.mem_cons_self
  have hcolumn := htable.columns _ (List.mem_cons_of_mem _ List.mem_cons_self)
  have haction := (hcolumn.references smuggling rfl).action
  revert haction
  decide

end Stakit.SchemaModel
