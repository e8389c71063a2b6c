import Stakit.MigrationStatements

set_option autoImplicit false

namespace Stakit.MigrationRuns
open SchemaModel SchemaDiff MigrationStatements List
open Function (update_of_ne update)

def runTable (target : String) (statements : List Statement) (state : Option TableState) :
    Option TableState :=
  statements.foldl (fun found statement => statement.onTable target found) state

def runRole (target : String) (statements : List Statement) (state : Option Role) : Option Role :=
  statements.foldl (fun found statement => statement.onRole target found) state

variable (target : String) (statements : List Statement)

theorem applyAll_tables (catalog : Catalog) (target : String) :
    (applyAll statements catalog).tables target =
      runTable target statements (catalog.tables target) := by
  induction statements generalizing catalog with
  | nil => rfl
  | cons statement rest ih => exact ih (statement.apply catalog)

theorem applyAll_roles (catalog : Catalog) (target : String) :
    (applyAll statements catalog).roles target =
      runRole target statements (catalog.roles target) := by
  induction statements generalizing catalog with
  | nil => rfl
  | cons statement rest ih => exact ih (statement.apply catalog)

theorem runTable_append (first second : List Statement) (state : Option TableState) :
    runTable target (first ++ second) state = runTable target second (runTable target first state) :=
  foldl_append

def tableName : Statement → Option String
  | .createTable table _ _ | .dropTable table | .addColumn table _ | .dropColumn table _
  | .alterColumnType table _ _ | .alterColumnNull table _ _ | .renameColumn table _ _
  | .createColumnIndex _ table _ _ _ | .createTableIndex table _ | .setRls table _
  | .forceRls table _ | .grant table _ _ | .revoke table _ _ | .createPolicy table _
  | .dropPolicy table _ => some table
  | .dropIndex _ | .createRole _ | .dropRole _ | .alterRole _ => none

def droppedIndex : Statement → Option String
  | .dropIndex name => some name
  | _ => none

def unindexColumn (names : List String) (found : ColumnState) : ColumnState :=
  { found with index := found.index.filter fun index => index.name ∉ names }

def unindexAll (names : List String) (state : TableState) : TableState :=
  { state with
    columns := fun column => (state.columns column).map (unindexColumn names)
    indexes := fun name => if name ∈ names then none else state.indexes name }

structure Absent (names : List String) (state : TableState) : Prop where
  columns : ∀ column found index, state.columns column = some found →
    found.index = some index → index.name ∉ names
  indexes : ∀ name ∈ names, state.indexes name = none

theorem unindexAll_absent {names : List String} {state : TableState} (h : Absent names state) :
    unindexAll names state = state := by
  refine TableState.ext rfl rfl ?_ ?_ rfl rfl
  · funext column
    cases hcolumn : state.columns column with
    | none => simp [unindexAll, hcolumn]
    | some found =>
      obtain ⟨sqlType, nullable, pk, unique, generated, default, references, index⟩ := found
      cases index with
      | none => simp [unindexAll, unindexColumn, hcolumn]
      | some index =>
        simp [unindexAll, unindexColumn, hcolumn, h.columns column _ index hcolumn rfl]
  · funext name
    by_cases hname : name ∈ names
    · simp [unindexAll, hname, h.indexes name hname]
    · simp [unindexAll, hname]

theorem unindexAll_nil (state : TableState) : unindexAll [] state = state :=
  unindexAll_absent ⟨fun _ _ _ _ _ => not_mem_nil, nofun⟩

theorem unindexAll_cons (name : String) (names : List String) (state : TableState) :
    unindexAll names (state.unindex name) = unindexAll (name :: names) state := by
  refine TableState.ext rfl rfl ?_ ?_ rfl rfl
  · funext column
    cases hcolumn : state.columns column with
    | none => simp [unindexAll, TableState.unindex, hcolumn]
    | some found =>
      simp only [unindexAll, unindexColumn, TableState.unindex, hcolumn, Option.map_some]
      congr 2
      cases found.index with
      | none => rfl
      | some index =>
        by_cases heq : index.name = name <;> by_cases hin : index.name ∈ names <;>
          simp [Option.filter, heq, hin]
  · funext other
    by_cases heq : other = name
    · simp [unindexAll, TableState.unindex, heq]
    · simp [unindexAll, TableState.unindex, heq]

theorem onTable_other {statement : Statement} (hname : tableName statement ≠ some target)
    (hdrop : droppedIndex statement = none) (state : Option TableState) :
    statement.onTable target state = state := by
  cases statement
  case dropIndex name => cases hdrop
  case createRole | dropRole | alterRole => rfl
  all_goals exact if_neg fun heq => hname (congrArg some heq)

theorem runTable_others (h : ∀ statement ∈ statements, tableName statement ≠ some target)
    (state : Option TableState) :
    runTable target statements state =
      state.map (unindexAll (statements.filterMap droppedIndex)) := by
  induction statements generalizing state with
  | nil =>
    have hid : unindexAll [] = id := funext unindexAll_nil
    simp [runTable, hid]
  | cons statement rest ih =>
    have hrest : ∀ other ∈ rest, tableName other ≠ some target :=
      fun other hother => h other (mem_cons_of_mem statement hother)
    change runTable target rest (statement.onTable target state) = _
    rw [ih hrest, filterMap_cons]
    cases hdrop : droppedIndex statement with
    | none => rw [onTable_other target (h statement mem_cons_self) hdrop]
    | some name =>
      have heq : statement = .dropIndex name := by
        cases statement <;> simp_all [droppedIndex]
      rw [heq, Statement.onTable, Option.map_map]
      congr 1
      funext found
      exact unindexAll_cons name _ found

structure Part (β : Type) where
  get : TableState → String → β
  set : TableState → (String → β) → TableState
  get_set : ∀ state f, get (set state f) = f
  set_set : ∀ state f g, set (set state f) g = set state g
  set_get : ∀ state, set state (get state) = state

def columnsPart : Part (Option ColumnState) where
  get := TableState.columns
  set := fun state f => { state with columns := f }
  get_set := fun _ _ => rfl
  set_set := fun _ _ _ => rfl
  set_get := fun _ => rfl

def indexesPart : Part (Option Index) where
  get := TableState.indexes
  set := fun state f => { state with indexes := f }
  get_set := fun _ _ => rfl
  set_set := fun _ _ _ => rfl
  set_get := fun _ => rfl

def grantsPart : Part (Access → Bool) where
  get := TableState.grants
  set := fun state f => { state with grants := f }
  get_set := fun _ _ => rfl
  set_set := fun _ _ _ => rfl
  set_get := fun _ => rfl

def policiesPart : Part (Option Policy) where
  get := TableState.policies
  set := fun state f => { state with policies := f }
  get_set := fun _ _ => rfl
  set_set := fun _ _ _ => rfl
  set_get := fun _ => rfl

section
variable {α β : Type} (part : Part β) (target : String) (statements : α → List Statement)
  {key : α → String} (value : α → β → β)

variable (key) in
def Updates (item : α) : Prop :=
  ∀ state, runTable target (statements item) (some state) = some (part.set state
    (update (part.get state) (key item) (value item (part.get state (key item)))))

theorem runTable_foldl {items : List α}
    (h : ∀ item ∈ items, Updates part target statements key value item) (state : TableState) :
    runTable target (items.flatMap statements) (some state) = some (part.set state
      (items.foldl (fun g item => update g (key item) (value item (g (key item))))
        (part.get state))) := by
  induction items generalizing state with
  | nil => rw [foldl_nil, part.set_get]; rfl
  | cons item rest ih =>
    rw [flatMap_cons, runTable_append, h item mem_cons_self,
      ih fun other hother => h other (mem_cons_of_mem item hother), part.set_set, part.get_set,
      foldl_cons]

theorem runTable_updates {items : List α} (nodup : (items.map key).Nodup)
    (h : ∀ item ∈ items, Updates part target statements key value item) (state : TableState) :
    runTable target (items.flatMap statements) (some state) = some (part.set state fun name =>
      (items.find? fun item => key item = name).elim (part.get state name) fun item =>
        value item (part.get state name)) := by
  rw [runTable_foldl part target statements value h]
  congr 2
  funext name
  exact KeyedLists.foldl_update value nodup (part.get state) name

end

theorem given_canonical (privileges : List Privilege) :
    given (canonicalPrivileges privileges) = given privileges := by
  funext access
  by_cases hall : Privilege.all ∈ privileges
  · have hgiven : given privileges access = true := by
      refine any_eq_true.mpr ⟨.all, hall, ?_⟩
      cases access <;> rfl
    rw [canonicalPrivileges, if_pos hall, hgiven]
    cases access <;> rfl
  · rw [canonicalPrivileges, if_neg hall]
    have hmem : ∀ privilege, privilege ∈ SchemaAttributes.privileges.filter (· ∈ privileges) ↔
        privilege ∈ privileges := by
      intro privilege
      cases privilege <;> simp [SchemaAttributes.privileges]
    rw [Bool.eq_iff_iff]
    simp only [given, any_eq_true, hmem]

/-- A column as its clauses and its index make it. -/
def builtColumn (table : String) (column : Column) : ColumnState :=
  { columnState table column with
    default := if column.generated.isSome then none else column.default }

def builtTable (table : Table) : TableState :=
  { tableState table with
    columns := fun name => (table.column name).map (builtColumn table.name) }

theorem createdTable_columns {table : Table} (nodup : (table.columns.map Column.name).Nodup)
    (name : String) :
    (createdTable (table.columns.map columnDdl)
      ((table.columns.filter Column.pk).map Column.name)).columns name =
      (table.column name).map fun column => (columnDdl column).state column.pk := by
  have hfind : (table.columns.map columnDdl).find? (fun ddl => ddl.name = name) =
      (table.column name).map columnDdl := by
    rw [List.find?_map]
    rfl
  simp only [createdTable]
  rw [hfind, Option.map_map]
  cases hcolumn : table.column name with
  | none => rfl
  | some column =>
    obtain ⟨hmem, hname⟩ := KeyedLists.find_some Column.name table.columns name column hcolumn
    have hpk : name ∈ (table.columns.filter Column.pk).map Column.name ↔ column.pk = true := by
      rw [mem_map]
      constructor
      · rintro ⟨other, hother, heq⟩
        obtain ⟨hin, hkey⟩ := mem_filter.mp hother
        rwa [← inj_on_of_nodup_map nodup hin hmem (heq.trans hname.symm)]
      · intro h
        exact ⟨column, mem_filter.mpr ⟨hmem, h⟩, hname⟩
    simp [hpk]

theorem run_columnIndexes {table : Table} (nodup : (table.columns.map Column.name).Nodup)
    (state : TableState)
    (h : state.columns = fun name =>
      (table.column name).map fun column => (columnDdl column).state column.pk) :
    runTable table.name ((table.columns.filter Column.index).map (createIndexSql table.name))
      (some state) = some { state with
        columns := fun name => (table.column name).map (builtColumn table.name) } := by
  rw [map_eq_flatMap, runTable_updates columnsPart table.name
    (fun column => [createIndexSql table.name column])
    (fun column found => found.map fun old => { old with
      index := some ⟨indexName table.name column.name, column.indexMethod, column.opclass⟩ })
        (nodup.sublist (filter_sublist.map Column.name))
    (fun column _ state => by simp [runTable, createIndexSql, Statement.onTable, onlyAt,
      TableState.updateColumn, TableState.setColumn, columnsPart])]
  refine congrArg some (TableState.ext rfl rfl ?_ rfl rfl rfl)
  funext name
  simp only [columnsPart]
  rw [KeyedLists.find_filter Column.name table.columns nodup, h]
  change ((table.column name).filter Column.index).elim _ _ = _
  cases hcolumn : table.column name with
  | none => simp [hcolumn]
  | some column =>
    by_cases hindex : column.index = true <;>
      simp [hindex, hcolumn, Option.filter, builtColumn, columnState, columnDdl, ColumnDdl.state]

variable (table : String) (move : Move) (moves : List Move) (column : Column)

theorem run_tableIndexes {indexes : List Index} (nodup : (indexes.map Index.name).Nodup)
    (state : TableState) :
    runTable table (indexes.map (Statement.createTableIndex table)) (some state) =
      some { state with indexes := fun name =>
        (indexes.find? fun index => index.name = name).or (state.indexes name) } := by
  rw [map_eq_flatMap, runTable_updates indexesPart table
    (fun index => [Statement.createTableIndex table index]) (fun index _ => some index) nodup
      (fun index _ state => by simp [runTable, Statement.onTable, onlyAt, indexesPart])]
  refine congrArg some (TableState.ext rfl rfl rfl ?_ rfl rfl)
  funext name
  simp only [indexesPart]
  cases indexes.find? fun index => index.name = name <;> rfl

theorem run_policies {policies : List Policy} (nodup : (policies.map Policy.name).Nodup)
    (state : TableState) :
    runTable table (policies.map (Statement.createPolicy table)) (some state) =
      some { state with policies := fun name =>
        (policies.find? fun policy => policy.name = name).or (state.policies name) } := by
  rw [map_eq_flatMap, runTable_updates policiesPart table
    (fun policy => [Statement.createPolicy table policy]) (fun policy _ => some policy) nodup
      (fun policy _ state => by simp [runTable, Statement.onTable, onlyAt, policiesPart])]
  refine congrArg some (TableState.ext rfl rfl rfl rfl rfl ?_)
  funext name
  simp only [policiesPart]
  cases policies.find? fun policy => policy.name = name <;> rfl

theorem run_createGrants {table : Table} (nodup : (table.grants.map Grant.role).Nodup)
    (state : TableState) (h : state.grants = fun _ _ => false) :
    runTable table.name
      (table.grants.map fun grant => grantSql table.name grant.role grant.privileges) (some state) =
      some { state with grants := (tableState table).grants } := by
  rw [map_eq_flatMap, runTable_updates grantsPart table.name
    (fun grant => [grantSql table.name grant.role grant.privileges])
    (fun grant found access => found access || given grant.privileges access) nodup
      (fun grant _ state => by
      simp [runTable, grantSql, Statement.onTable, onlyAt, grantsPart, given_canonical])]
  refine congrArg some (TableState.ext rfl rfl rfl rfl ?_ rfl)
  funext role
  simp only [grantsPart, h, tableState]
  change (table.grant role).elim _ _ = _
  cases table.grant role with
  | none => rfl
  | some grant =>
    funext access
    simp

theorem runTable_createObject {table : Table}
    (columns : (table.columns.map Column.name).Nodup)
    (indexes : (table.indexes.map Index.name).Nodup)
    (grants : (table.grants.map Grant.role).Nodup)
    (policies : (table.policies.map Policy.name).Nodup) (state : Option TableState) :
    runTable table.name (createObjectSql table) state = some (builtTable table) := by
  have hcreate : runTable table.name [createTableSql table] state =
      some (createdTable (table.columns.map columnDdl)
        ((table.columns.filter Column.pk).map Column.name)) := by
    simp [runTable, createTableSql, Statement.onTable]
  have hcolumns := funext (createdTable_columns columns)
  rw [createObjectSql, ← singleton_append]
  simp only [runTable_append]
  rw [hcreate, run_columnIndexes columns _ hcolumns, run_tableIndexes table.name indexes,
    run_createGrants grants _ rfl]
  have hrls : ∀ found : TableState, found.rls = false →
      runTable table.name (if table.rls then [Statement.setRls table.name true] else [])
        (some found) = some { found with rls := table.rls } := by
    intro found hfound
    cases table.rls
    · exact congrArg some (by rw [← hfound])
    · simp [runTable, Statement.onTable, onlyAt]
  have hforce : ∀ found : TableState, found.forceRls = false →
      runTable table.name (if table.forceRls then [Statement.forceRls table.name true] else [])
        (some found) = some { found with forceRls := table.forceRls } := by
    intro found hfound
    cases table.forceRls
    · exact congrArg some (by rw [← hfound])
    · simp [runTable, Statement.onTable, onlyAt]
  rw [hrls _ rfl, hforce _ rfl, run_policies table.name policies]
  refine congrArg some (TableState.ext rfl rfl rfl ?_ rfl ?_)
  · funext name
    exact Option.or_none
  · funext name
    exact Option.or_none

def retype (column : Column) (found : ColumnState) : ColumnState :=
  { found with sqlType := column.sqlType, nullable := column.nullable }

def Typed (column : Column) (found : ColumnState) : Prop :=
  found.sqlType = column.sqlType ∧ found.nullable = column.nullable

theorem typeDiffers_false (other : Column) (h : column.typeDiffers other = false) :
    column.sqlType = other.sqlType ∧ column.nullable = other.nullable := by
  simpa [Column.typeDiffers] using h

theorem retype_self (other : Column) (found : ColumnState) (typed : Typed other found)
    (hsame : column.sqlType = other.sqlType ∧ column.nullable = other.nullable) :
    retype column found = found := by
  rw [retype, hsame.1, hsame.2, ← typed.1, ← typed.2]

theorem runTable_alterType (state : TableState) :
    runTable table (alterTypeSql table column) (some state) = some { state with
      columns := update state.columns column.name
        ((state.columns column.name).map (retype column)) } := by
  simp only [runTable, alterTypeSql, foldl_cons, foldl_nil, Statement.onTable, onlyAt,
    if_true, Option.map_some, TableState.updateColumn, TableState.setColumn,
    Function.update_self, Function.update_idem, Option.map_map]
  rfl

def alterStatements (old new : Table) (column : Column) : List Statement :=
  if (old.column column.name).any column.typeDiffers then alterTypeSql new.name column else []

theorem upSql_alterChanges (old new : Table) :
    upSql (alterChanges old new) = new.columns.flatMap (alterStatements old new) := by
  rw [upSql, alterChanges, filterMap_eq_flatMap_toList, flatMap_assoc]
  congr 1
  funext column
  unfold alterStatements
  cases old.column column.name with
  | none => rfl
  | some previous => cases hdiffers : column.typeDiffers previous <;> simp [hdiffers, up]

/-- The columns once those of both tables have their new types. -/
def alteredColumns (old new : Table) (name : String) : Option ColumnState :=
  (old.column name).map fun previous =>
    (new.column name).elim (columnState new.name previous) fun column =>
      retype column (columnState new.name previous)

theorem runTable_alters {old new : Table} (nodup : (new.columns.map Column.name).Nodup)
    {state : TableState}
    (h : state.columns = fun name => (old.column name).map (columnState new.name)) :
    runTable new.name (upSql (alterChanges old new)) (some state) =
      some { state with columns := alteredColumns old new } := by
  rw [upSql_alterChanges, runTable_updates columnsPart new.name (alterStatements old new)
    (fun column found => if (old.column column.name).any column.typeDiffers then
      found.map (retype column) else found) nodup]
  · refine congrArg some (TableState.ext rfl rfl ?_ rfl rfl rfl)
    funext name
    simp only [columnsPart, h, alteredColumns]
    change (new.column name).elim _ _ = _
    cases hnew : new.column name with
    | none => rfl
    | some column =>
      obtain ⟨_, hname⟩ := KeyedLists.find_some Column.name new.columns name column hnew
      cases hold : old.column name with
      | none => simp
      | some previous =>
        cases hdiffers : column.typeDiffers previous with
        | true => simp [hold, hname, hdiffers]
        | false =>
          have hself := retype_self column previous (columnState new.name previous) ⟨rfl, rfl⟩
            (typeDiffers_false column previous hdiffers)
          simp [hold, hname, hdiffers, hself]
  · intro column _ state
    by_cases hdiffers : (old.column column.name).any column.typeDiffers = true
    · simp only [alterStatements, hdiffers, if_true]
      exact runTable_alterType new.name column state
    · simp only [alterStatements, hdiffers, Bool.false_eq_true, if_false, columnsPart,
        Function.update_eq_self]
      rfl

def addedColumn (table : String) (column : Column) : ColumnState :=
  { builtColumn table column with pk := false }

def movedColumns (table : String) (moves : List Move) (columns : String → Option ColumnState)
    (name : String) : Option ColumnState :=
  match moves.find? fun move => move.column.name = name with
  | some move =>
    match move.source with
    | some source => (columns source.name).map (retype move.column)
    | none => some (addedColumn table move.column)
  | none =>
    if name ∈ (moves.filterMap Move.source).map Column.name then none else columns name

theorem movedColumns_add (columns : String → Option ColumnState) :
    movedColumns table [⟨column, none⟩] columns =
      update columns column.name (some (addedColumn table column)) := by
  funext name
  by_cases h : column.name = name
  · simp [movedColumns, h]
  · rw [update_of_ne (Ne.symm h)]
    simp [movedColumns, h]

theorem movedColumns_rename (source : Column) (columns : String → Option ColumnState) :
    movedColumns table [⟨column, some source⟩] columns =
      update (update columns source.name none) column.name
        ((columns source.name).map (retype column)) := by
  funext name
  by_cases h : column.name = name
  · simp [movedColumns, h]
  · rw [update_of_ne (Ne.symm h)]
    by_cases hsource : name = source.name
    · subst hsource
      simp [movedColumns, h]
    · rw [update_of_ne hsource]
      simp [movedColumns, h, hsource]

theorem runTable_move {state : TableState}
    (typed : ∀ source, move.source = some source → ∀ found, state.columns source.name =
      some found → Typed source found) :
    runTable table (upSql (moveChanges table move)) (some state) =
      some { state with columns := movedColumns table [move] state.columns } := by
  obtain ⟨column, source⟩ := move
  cases source with
  | none =>
    rw [movedColumns_add]
    by_cases hindex : column.index = true
    · simp [upSql, moveChanges, up, addColumnSql, hindex, runTable, Statement.onTable, onlyAt,
        createIndexSql, TableState.updateColumn, TableState.setColumn, addedColumn, builtColumn,
        columnState, columnDdl, ColumnDdl.state]
    · simp [upSql, moveChanges, up, addColumnSql, hindex, runTable, Statement.onTable, onlyAt,
        TableState.setColumn, addedColumn, builtColumn, columnState, columnDdl, ColumnDdl.state]
  | some source =>
    have hrename : runTable table [Statement.renameColumn table source.name column.name]
        (some state) = some { state with
          columns := update (update state.columns source.name none) column.name
            (state.columns source.name) } := by
      simp [runTable, Statement.onTable, onlyAt, TableState.moveColumn, TableState.setColumn]
    rw [movedColumns_rename]
    cases hdiffers : source.typeDiffers column with
    | true =>
      have hup : upSql (moveChanges table ⟨column, some source⟩) =
          [Statement.renameColumn table source.name column.name] ++ alterTypeSql table column := by
        simp [upSql, moveChanges, hdiffers, up]
      rw [hup, runTable_append, hrename, runTable_alterType]
      simp
    | false =>
      have hup : upSql (moveChanges table ⟨column, some source⟩) =
          [Statement.renameColumn table source.name column.name] := by
        simp [upSql, moveChanges, hdiffers, up]
      have hsame : (state.columns source.name).map (retype column) = state.columns source.name := by
        cases hfound : state.columns source.name with
        | none => rfl
        | some found =>
          obtain ⟨htype, hnull⟩ := typeDiffers_false source column hdiffers
          rw [Option.map_some, retype_self column source found (typed source rfl found hfound)
            ⟨htype.symm, hnull.symm⟩]
      rw [hup, hrename, hsame]

structure Apart (moves : List Move) : Prop where
  names : (moves.map fun move => move.column.name).Nodup
  sources : ((moves.filterMap Move.source).map Column.name).Nodup
  disjoint : ∀ move ∈ moves, move.column.name ∉ (moves.filterMap Move.source).map Column.name

theorem Apart.sublist (first moves : List Move) (hsub : first.Sublist moves) (h : Apart moves) :
    Apart first := by
  have hsources := hsub.filterMap Move.source
  refine ⟨h.names.sublist (hsub.map _), h.sources.sublist (hsources.map _), ?_⟩
  intro other hother hin
  exact h.disjoint other (hsub.subset hother) ((hsources.map _).subset hin)

theorem Apart.tail (h : Apart (move :: moves)) : Apart moves :=
  h.sublist moves _ (sublist_cons_self move moves)

theorem movedColumns_none (name : String) (hname : name ∉ moves.map fun move => move.column.name)
    (hsource : name ∉ (moves.filterMap Move.source).map Column.name)
    (columns : String → Option ColumnState) :
    movedColumns table moves columns name = columns name := by
  have hfind : moves.find? (fun move => move.column.name = name) = none :=
    (KeyedLists.find_none (fun move : Move => move.column.name) moves name).mpr hname
  rw [movedColumns, hfind]
  exact if_neg hsource

theorem movedColumns_source (apart : Apart (move :: moves))
    (columns : String → Option ColumnState) {source : Column}
    (hmem : source ∈ moves.filterMap Move.source) :
    movedColumns table [move] columns source.name = columns source.name := by
  refine movedColumns_none table [move] source.name ?_ ?_ columns
  · intro h
    have heq : source.name = move.column.name := mem_singleton.mp h
    refine apart.disjoint move mem_cons_self ?_
    rw [← heq]
    exact (((sublist_cons_self move moves).filterMap _).map _).subset
      (mem_map_of_mem hmem)
  · intro h
    obtain ⟨first, hfirst, heq⟩ := mem_map.mp h
    obtain ⟨own, hown, hsource⟩ := mem_filterMap.mp hfirst
    rw [mem_singleton.mp hown] at hsource
    have hnodup := apart.sources
    rw [filterMap_cons, hsource, map_cons, nodup_cons] at hnodup
    exact hnodup.1 (heq ▸ mem_map_of_mem hmem)

theorem movedColumns_cons (apart : Apart (move :: moves)) (columns : String → Option ColumnState) :
    movedColumns table moves (movedColumns table [move] columns) =
      movedColumns table (move :: moves) columns := by
  obtain ⟨hnew, _⟩ := nodup_cons.mp apart.names
  funext name
  by_cases hfirst : move.column.name = name
  · have hout : name ∉ (moves.filterMap Move.source).map Column.name := by
      intro hin
      refine apart.disjoint move mem_cons_self ?_
      rw [hfirst]
      exact (((sublist_cons_self move moves).filterMap _).map _).subset hin
    rw [movedColumns_none table moves name (hfirst ▸ hnew) hout]
    simp [movedColumns, hfirst]
  · conv_rhs => rw [movedColumns]
    rw [List.find?_cons]
    simp only [hfirst, decide_false]
    conv_lhs => rw [movedColumns]
    cases hfind : moves.find? fun other => other.column.name = name with
    | some other =>
      obtain ⟨hother, _⟩ := KeyedLists.find_some (fun m : Move => m.column.name) moves name other hfind
      cases hsource : other.source with
      | none => simp [hsource]
      | some source =>
        simp only [hsource]
        rw [movedColumns_source table move moves apart columns
          (mem_filterMap.mpr ⟨other, hother, hsource⟩)]
    | none =>
      dsimp only
      cases hsource : move.source with
      | none =>
        rw [filterMap_cons_none hsource]
        simp [hsource, movedColumns, hfirst]
      | some source =>
        by_cases hin : name ∈ (moves.filterMap Move.source).map Column.name
        · have hin' : name ∈ ((move :: moves).filterMap Move.source).map Column.name :=
            (((sublist_cons_self move moves).filterMap _).map _).subset hin
          rw [if_pos hin, if_pos hin']
        · rw [if_neg hin]
          simp [movedColumns, hfirst, hsource, hin]

theorem runTable_moves (apart : Apart moves) (state : TableState)
    (typed : ∀ source ∈ moves.filterMap Move.source, ∀ found, state.columns source.name =
      some found → Typed source found) :
    runTable table (upSql (moves.flatMap (moveChanges table))) (some state) =
      some { state with columns := movedColumns table moves state.columns } := by
  induction moves generalizing state with
  | nil =>
    refine congrArg some (TableState.ext rfl rfl ?_ rfl rfl rfl)
    funext name
    exact (movedColumns_none table [] name not_mem_nil not_mem_nil state.columns).symm
  | cons move moves ih =>
    have hhead : ∀ source, move.source = some source → ∀ found,
        state.columns source.name = some found → Typed source found :=
      fun source hsource => typed source
        (mem_filterMap.mpr ⟨move, mem_cons_self, hsource⟩)
    rw [upSql, flatMap_cons, flatMap_append, runTable_append]
    change runTable table (upSql _) (runTable table (upSql (moveChanges table move)) _) = _
    rw [runTable_move table move hhead, ih (apart.tail move moves)]
    · rw [movedColumns_cons table move moves apart]
    · intro source hsource found hfound
      refine typed source (((sublist_cons_self move moves).filterMap _).subset hsource) found ?_
      rwa [← movedColumns_source table move moves apart state.columns hsource]

theorem runTable_drops {columns : List Column} (nodup : (columns.map Column.name).Nodup)
    (state : TableState) :
    runTable table (upSql (columns.map (Change.dropColumn table))) (some state) =
      some { state with columns := fun name =>
        if name ∈ columns.map Column.name then none else state.columns name } := by
  have hup : upSql (columns.map (Change.dropColumn table)) =
      columns.flatMap fun column => [Statement.dropColumn table column.name] := by
    rw [upSql, flatMap_map]
    rfl
  rw [hup, runTable_updates columnsPart table (fun column =>
    [Statement.dropColumn table column.name]) (fun _ _ => none) nodup (fun column _ state => by
      simp [runTable, Statement.onTable, onlyAt, TableState.setColumn, columnsPart])]
  refine congrArg some (TableState.ext rfl rfl ?_ rfl rfl rfl)
  funext name
  exact KeyedLists.find_elim_none Column.name columns name (state.columns name)

end Stakit.MigrationRuns
