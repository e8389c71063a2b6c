import Mathlib.Data.List.Perm.Basic
import Stakit.KeyedLists
import Stakit.SchemaAttributes

set_option autoImplicit false

namespace Stakit.SchemaDiff
open SchemaModel List

inductive Change where
  | createTable (table : Table)
  | dropTable (table : Table)
  | addColumn (table : String) (column : Column)
  | dropColumn (table : String) (column : Column)
  | alterType (table : String) (old new : Column)
  | renameColumn (table old new : String) (newDef oldDef : Column)
  | createRole (role : Role)
  | dropRole (role : Role)
  | alterRole (old new : Role)
  | setRls (table : String) (enabled : Bool)
  | setForceRls (table : String) (forced : Bool)
  | grant (table role : String) (privileges : List Privilege)
  | revoke (table role : String) (privileges : List Privilege)
  | createPolicy (table : String) (policy : Policy)
  | dropPolicy (table : String) (policy : Policy)
  | createIndex (table : String) (index : Index)
  | dropIndex (table : String) (index : Index)
  deriving DecidableEq, Repr

structure Resolver (σ : Type) where
  renameTarget : σ → String → Column → List Column → σ × Option String

def dependsOnUnplaced (inSet placed : List String) (table : Table) : Bool :=
  table.columns.any fun column => column.references.any fun fk =>
    fk.table ≠ table.name && fk.table ∈ inSet && fk.table ∉ placed

/-- The first table whose keys are placed, or the first one; as many rounds as tables. -/
def placeTables (inSet : List String) : ℕ → List String → List Table → List Table
  | 0, _, _ => []
  | rounds + 1, placed, remaining =>
    match (remaining.find? fun table => !dependsOnUnplaced inSet placed table).or
        remaining.head? with
    | none => []
    | some table =>
      table :: placeTables inSet rounds (placed ++ [table.name]) (remaining.erase table)

def topoSortCreates (tables : List Table) : List Table :=
  placeTables (tables.map Table.name) tables.length [] tables

/-- A column that is new to its table, and the removed one it is renamed from. -/
structure Move where
  column : Column
  source : Option Column
  deriving DecidableEq, Repr

structure KeptTable where
  old : Table
  new : Table
  moves : List Move
  dropped : List Column

section
variable {σ : Type}

def askRename (resolver : Resolver σ) (table : String) (state : σ) (column : Column)
    (removed : List Column) : σ × Option Column :=
  if removed = [] then (state, none)
  else
    let answer := resolver.renameTarget state table column removed
    (answer.1, answer.2.bind fun name => removed.find? fun c => c.name = name)

def withoutSource (removed : List Column) : Option Column → List Column
  | some source => removed.erase source
  | none => removed

def resolveMoves (resolver : Resolver σ) (table : String) :
    σ → List Column → List Column → σ × List Move × List Column
  | state, [], removed => (state, [], removed)
  | state, column :: added, removed =>
    let asked := askRename resolver table state column removed
    let rest := resolveMoves resolver table asked.1 added (withoutSource removed asked.2)
    (rest.1, ⟨column, asked.2⟩ :: rest.2.1, rest.2.2)

def removedColumns (old new : Table) : List Column :=
  old.columns.filter fun column => (new.column column.name).isNone

def addedColumns (old new : Table) : List Column :=
  new.columns.filter fun column => (old.column column.name).isNone

def keepTable (resolver : Resolver σ) (state : σ) (old new : Table) : σ × KeptTable :=
  let resolved := resolveMoves resolver new.name state (addedColumns old new)
    (removedColumns old new)
  (resolved.1, ⟨old, new, resolved.2.1, resolved.2.2⟩)

def keptTables (resolver : Resolver σ) (old : Schema) : σ → List Table → List KeptTable
  | _, [] => []
  | state, new :: rest =>
    match old.table new.name with
    | none => keptTables resolver old state rest
    | some previous =>
      let kept := keepTable resolver state previous new
      kept.2 :: keptTables resolver old kept.1 rest

end

def alterChanges (old new : Table) : List Change :=
  new.columns.filterMap fun column => (old.column column.name).bind fun previous =>
    if column.typeDiffers previous then some (.alterType new.name previous column) else none

def renameKeepType (old : Column) (name : String) : Column := { old with name := name }

def moveChanges (table : String) (move : Move) : List Change :=
  match move.source with
  | none => [.addColumn table move.column]
  | some old =>
    .renameColumn table old.name move.column.name move.column old ::
      if old.typeDiffers move.column then
        [.alterType table (renameKeepType old move.column.name) move.column]
      else []

def diffTable (kept : KeptTable) : List Change :=
  alterChanges kept.old kept.new ++ kept.moves.flatMap (moveChanges kept.new.name) ++
    kept.dropped.map (Change.dropColumn kept.new.name)

/-- `all` stands for the rest; a list without it is sorted and deduplicated. -/
def canonicalPrivileges (privileges : List Privilege) : List Privilege :=
  if .all ∈ privileges then [.all] else SchemaAttributes.privileges.filter (· ∈ privileges)

def grantChanges (old : Table) (table : String) (grant : Grant) : List Change :=
  match old.grant grant.role with
  | none => [.grant table grant.role (canonicalPrivileges grant.privileges)]
  | some previous =>
    if canonicalPrivileges previous.privileges ≠ canonicalPrivileges grant.privileges then
      [.revoke table grant.role (canonicalPrivileges previous.privileges),
        .grant table grant.role (canonicalPrivileges grant.privileges)]
    else []

def diffGrants (old new : Table) : List Change :=
  new.grants.flatMap (grantChanges old new.name) ++
    (old.grants.filter fun grant => (new.grant grant.role).isNone).map fun grant =>
      Change.revoke new.name grant.role (canonicalPrivileges grant.privileges)

def diffPolicies (old new : Table) : List Change :=
  (old.policies.filter fun policy => new.policy policy.name ≠ some policy).map
      (Change.dropPolicy new.name) ++
    (new.policies.filter fun policy => old.policy policy.name ≠ some policy).map
      (Change.createPolicy new.name)

def diffTableRls (old new : Table) : List Change :=
  (if old.rls ≠ new.rls then [Change.setRls new.name new.rls] else []) ++
    (if old.forceRls ≠ new.forceRls then [Change.setForceRls new.name new.forceRls] else []) ++
    diffGrants old new ++ diffPolicies old new

def unmatchedIndexes (table other : Table) : List Index :=
  table.indexes.filter fun index => other.index index.name ≠ some index

def diffTableIndexes (old new : Table) : List Change :=
  (unmatchedIndexes old new).map (Change.dropIndex new.name) ++
    (unmatchedIndexes new old).map (Change.createIndex new.name)

def roleChanges (old : Schema) (role : Role) : List Change :=
  match old.role role.name with
  | none => [.createRole role]
  | some previous => if previous ≠ role then [.alterRole previous role] else []

def unmatchedTables (schema other : Schema) : List Table :=
  schema.tables.filter fun table => (other.table table.name).isNone

def keptChanges (kept : KeptTable) : List Change :=
  diffTable kept ++ diffTableRls kept.old kept.new ++ diffTableIndexes kept.old kept.new

def diff {σ : Type} (resolver : Resolver σ) (state : σ) (old new : Schema) : List Change :=
  new.roles.flatMap (roleChanges old) ++
    (topoSortCreates (unmatchedTables old new)).reverse.map Change.dropTable ++
    (topoSortCreates (unmatchedTables new old)).map Change.createTable ++
    (keptTables resolver old state new.tables).flatMap keptChanges ++
    (old.roles.filter fun role => (new.role role.name).isNone).map Change.dropRole

structure KeptTable.Valid (kept : KeptTable) : Prop where
  moves : kept.moves.map Move.column = addedColumns kept.old kept.new
  sources : (kept.moves.filterMap Move.source ++ kept.dropped).Perm
    (removedColumns kept.old kept.new)

section
variable {σ : Type} (resolver : Resolver σ)

theorem askRename_mem {table : String} {state : σ} {column : Column} {removed : List Column}
    {source : Column} (h : (askRename resolver table state column removed).2 = some source) :
    source ∈ removed := by
  unfold askRename at h
  split at h
  · cases h
  · obtain ⟨name, _, hfind⟩ := Option.bind_eq_some_iff.mp h
    exact mem_of_find?_eq_some hfind

theorem resolveMoves_columns (table : String) (state : σ) (added removed : List Column) :
    (resolveMoves resolver table state added removed).2.1.map Move.column = added := by
  induction added generalizing state removed with
  | nil => rfl
  | cons column added ih =>
    rw [resolveMoves, map_cons, ih]

theorem resolveMoves_sources (table : String) (state : σ) (added removed : List Column) :
    ((resolveMoves resolver table state added removed).2.1.filterMap Move.source ++
      (resolveMoves resolver table state added removed).2.2).Perm removed := by
  induction added generalizing state removed with
  | nil => exact List.Perm.refl _
  | cons column added ih =>
    rw [resolveMoves]
    cases hasked : (askRename resolver table state column removed).2 with
    | none =>
      simp only [filterMap_cons]
      exact ih _ removed
    | some source =>
      simp only [filterMap_cons, cons_append]
      have hmem := askRename_mem resolver hasked
      exact ((ih _ (removed.erase source)).cons source).trans (perm_cons_erase hmem).symm

theorem keepTable_valid (state : σ) (old new : Table) : (keepTable resolver state old new).2.Valid :=
  ⟨resolveMoves_columns resolver new.name state _ _, resolveMoves_sources resolver new.name state _ _⟩

theorem keptTables_mem (old : Schema) (state : σ) (tables : List Table) (kept : KeptTable)
    (h : kept ∈ keptTables resolver old state tables) :
    kept.Valid ∧ old.table kept.new.name = some kept.old := by
  induction tables generalizing state with
  | nil => cases h
  | cons table rest ih =>
    rw [keptTables] at h
    split at h
    · exact ih state h
    · rename_i previous hprevious
      rcases mem_cons.mp h with rfl | htail
      · exact ⟨keepTable_valid resolver state previous table, hprevious⟩
      · exact ih _ htail

theorem keptTables_new (old : Schema) (state : σ) (tables : List Table) :
    (keptTables resolver old state tables).map KeptTable.new =
      tables.filter fun table => (old.table table.name).isSome := by
  induction tables generalizing state with
  | nil => rfl
  | cons table rest ih =>
    rw [keptTables]
    cases hold : old.table table.name with
    | none => simp [hold, ih]
    | some previous =>
      simp only [hold, map_cons, ih, filter_cons, Option.isSome_some, if_true]
      rfl

end

theorem placeTables_perm (inSet placed : List String) (rounds : ℕ) (tables : List Table)
    (h : tables.length = rounds) : (placeTables inSet rounds placed tables).Perm tables := by
  induction rounds generalizing placed tables with
  | zero => rw [length_eq_zero_iff.mp h]; exact List.Perm.nil
  | succ rounds ih =>
    rw [placeTables]
    split
    · rename_i hnone
      rw [Option.or_eq_none_iff] at hnone
      rw [List.head?_eq_none_iff.mp hnone.2] at h
      cases h
    · rename_i table hsome
      have hmem : table ∈ tables := by
        rcases Option.or_eq_some_iff.mp hsome with hfound | ⟨_, hhead⟩
        · exact mem_of_find?_eq_some hfound
        · exact mem_of_head? hhead
      have hlength : (tables.erase table).length = rounds := by
        rw [length_erase_of_mem hmem, h]
        rfl
      exact ((ih _ _ hlength).cons table).trans (perm_cons_erase hmem).symm

theorem topoSortCreates_perm (tables : List Table) : (topoSortCreates tables).Perm tables :=
  placeTables_perm _ _ _ _ rfl

structure DistinctNames (schema : Schema) : Prop where
  tables : (schema.tables.map Table.name).Nodup
  roles : (schema.roles.map Role.name).Nodup
  columns : ∀ table ∈ schema.tables, (table.columns.map Column.name).Nodup
  policies : ∀ table ∈ schema.tables, (table.policies.map Policy.name).Nodup
  grants : ∀ table ∈ schema.tables, (table.grants.map Grant.role).Nodup
  indexes : (schema.tables.flatMap fun table => table.indexes.map Index.name).Nodup

theorem DistinctNames.tableIndexes {schema : Schema} (h : DistinctNames schema) {table : Table}
    (hmem : table ∈ schema.tables) : (table.indexes.map Index.name).Nodup :=
  (nodup_flatMap.mp h.indexes).1 table hmem

section
variable {schema : Schema} (names : DistinctNames schema)
include names

variable {σ : Type} (resolver : Resolver σ) (state : σ) {table : Table}

theorem table_self (hmem : table ∈ schema.tables) : schema.table table.name = some table :=
  KeyedLists.find_self Table.name schema.tables names.tables hmem

theorem role_self {role : Role} (hmem : role ∈ schema.roles) : schema.role role.name = some role :=
  KeyedLists.find_self Role.name schema.roles names.roles hmem

theorem column_self (hmem : table ∈ schema.tables) {column : Column}
    (hcolumn : column ∈ table.columns) : table.column column.name = some column :=
  KeyedLists.find_self Column.name table.columns (names.columns table hmem) hcolumn

theorem policy_self (hmem : table ∈ schema.tables) {policy : Policy}
    (hpolicy : policy ∈ table.policies) : table.policy policy.name = some policy :=
  KeyedLists.find_self Policy.name table.policies (names.policies table hmem) hpolicy

theorem grant_self (hmem : table ∈ schema.tables) {grant : Grant} (hgrant : grant ∈ table.grants) :
    table.grant grant.role = some grant :=
  KeyedLists.find_self Grant.role table.grants (names.grants table hmem) hgrant

theorem index_self (hmem : table ∈ schema.tables) {index : Index} (hindex : index ∈ table.indexes) :
    table.index index.name = some index :=
  KeyedLists.find_self Index.name table.indexes (names.tableIndexes hmem) hindex

theorem diffTableRls_self (hmem : table ∈ schema.tables) : diffTableRls table table = [] := by
  have hgrants : diffGrants table table = [] := by
    simp only [diffGrants, append_eq_nil_iff, flatMap_eq_nil_iff, map_eq_nil_iff, filter_eq_nil_iff]
    refine ⟨fun grant hgrant => ?_, fun grant hgrant => ?_⟩
    · simp [grantChanges, grant_self names hmem hgrant]
    · simp [grant_self names hmem hgrant]
  have hpolicies : diffPolicies table table = [] := by
    simp only [diffPolicies, append_eq_nil_iff, map_eq_nil_iff, filter_eq_nil_iff]
    refine ⟨fun policy hpolicy => ?_, fun policy hpolicy => ?_⟩ <;>
      simp [policy_self names hmem hpolicy]
  simp [diffTableRls, hgrants, hpolicies]

theorem unmatchedIndexes_self (hmem : table ∈ schema.tables) :
    unmatchedIndexes table table = [] := by
  rw [unmatchedIndexes, filter_eq_nil_iff]
  intro index hindex
  simp [index_self names hmem hindex]

theorem addedColumns_self (hmem : table ∈ schema.tables) : addedColumns table table = [] := by
  rw [addedColumns, filter_eq_nil_iff]
  intro column hcolumn
  simp [column_self names hmem hcolumn]

theorem alterChanges_self (hmem : table ∈ schema.tables) : alterChanges table table = [] := by
  rw [alterChanges, filterMap_eq_nil_iff]
  intro column hcolumn
  simp [column_self names hmem hcolumn, Column.typeDiffers]

theorem keptChanges_self (hmem : table ∈ schema.tables) :
    keptChanges (keepTable resolver state table table).2 = [] := by
  have hadded := addedColumns_self names hmem
  have hremoved : removedColumns table table = [] := hadded
  simp [keptChanges, keepTable, diffTable, diffTableIndexes, hadded, hremoved, resolveMoves,
    alterChanges_self names hmem, diffTableRls_self names hmem,
    unmatchedIndexes_self names hmem]

theorem keptTables_self (tables : List Table) (hsub : ∀ table ∈ tables, table ∈ schema.tables) :
    (keptTables resolver schema state tables).flatMap keptChanges = [] := by
  induction tables generalizing state with
  | nil => rfl
  | cons table rest ih =>
    have hmem := hsub table mem_cons_self
    simp only [keptTables, table_self names hmem, flatMap_cons]
    rw [keptChanges_self names resolver state hmem,
      ih _ fun other hother => hsub other (mem_cons_of_mem table hother)]
    rfl

theorem unmatchedTables_self : unmatchedTables schema schema = [] := by
  rw [unmatchedTables, filter_eq_nil_iff]
  intro table hmem
  simp [table_self names hmem]

theorem diff_self : diff resolver state schema schema = [] := by
  have hroles : schema.roles.flatMap (roleChanges schema) = [] := by
    rw [flatMap_eq_nil_iff]
    intro role hmem
    simp [roleChanges, role_self names hmem]
  have hdropped : (schema.roles.filter fun role => (schema.role role.name).isNone) = [] := by
    rw [filter_eq_nil_iff]
    intro role hmem
    simp [role_self names hmem]
  have hkept := keptTables_self names resolver state schema.tables fun _ h => h
  simp [diff, hroles, hdropped, hkept, unmatchedTables_self names, topoSortCreates, placeTables]

end

end Stakit.SchemaDiff
