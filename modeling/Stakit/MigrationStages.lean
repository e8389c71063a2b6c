import Stakit.MigrationOrder
import Stakit.MigrationTarget

set_option autoImplicit false

namespace Stakit.MigrationStages
open SchemaModel SchemaDiff MigrationStatements MigrationRuns MigrationTables MigrationTarget List
open PostgresRules MigrationOrder

def Targeted (schema : Schema) : Prop :=
  ∀ table ∈ schema.tables, ∀ column ∈ table.columns, ∀ fk, column.references = some fk →
    ∃ target, schema.table fk.table = some target ∧ target.column fk.column ≠ none

structure WellFormed (schema : Schema) : Prop where
  names : DistinctNames schema
  indexes : DistinctIndexes schema
  keys : Targeted schema
  acyclic : Acyclic schema.tables

def Uses (catalog : Catalog) (table name : String) : Prop :=
  ∃ state, catalog.tables table = some state ∧ UsesIndex state name

theorem columnIndexName_tableState {table : Table}
    (nodup : (table.columns.map Column.name).Nodup) (name : String) :
    (∃ target, columnIndexName (tableState table) target = some name) ↔
      ∃ column ∈ table.columns, column.index = true ∧ indexName table.name column.name = name := by
  constructor
  · rintro ⟨target, h⟩
    obtain ⟨index, hindex, rfl⟩ := Option.map_eq_some_iff.mp h
    obtain ⟨found, hfound, hindex⟩ := Option.bind_eq_some_iff.mp hindex
    obtain ⟨column, hcolumn, rfl⟩ := Option.map_eq_some_iff.mp hfound
    obtain ⟨hmem, _⟩ := KeyedLists.find_some Column.name table.columns target column hcolumn
    cases hflag : column.index with
    | false => simp [columnState, hflag] at hindex
    | true =>
      simp only [columnState, hflag, if_true, Option.some.injEq] at hindex
      exact ⟨column, hmem, hflag, by rw [← hindex]⟩
  · rintro ⟨column, hmem, hflag, rfl⟩
    have hself : table.column column.name = some column :=
      KeyedLists.find_self Column.name table.columns nodup hmem
    exact ⟨column.name, by simp [columnIndexName, tableState, hself, columnState, hflag]⟩

theorem index_ne_none (table : Table) (name : String) :
    table.index name ≠ none ↔ ∃ index ∈ table.indexes, index.name = name := by
  rw [Table.index, ne_eq, KeyedLists.find_none Index.name, not_not, mem_map]

theorem usesIndex_tableState {table : Table} (nodup : (table.columns.map Column.name).Nodup)
    (name : String) : UsesIndex (tableState table) name ↔ name ∈ indexNames table := by
  rw [usesIndex_iff, mem_indexNames, or_comm, columnIndexName_tableState nodup]
  exact or_congr Iff.rfl (index_ne_none table name)

/-- A table of the new schema, with the index names it keeps from the old one. -/
structure Entry where
  table : Table
  lingering : List String

/-- A settled table has its new columns, and no indexes but its new and lingering ones. -/
structure Settled (catalog : Catalog) (entry : Entry) : Prop where
  there : catalog.tables entry.table.name ≠ none
  columns : ∀ column, HasColumn catalog entry.table.name column ↔ entry.table.column column ≠ none
  lingers : ∀ name ∈ entry.lingering, Uses catalog entry.table.name name
  uses : ∀ name, Uses catalog entry.table.name name →
    name ∈ entry.lingering ∨ name ∈ indexNames entry.table

/-- The tables between two stages. -/
structure At (entries : List Entry) (kepts : List KeptTable) (catalog : Catalog) : Prop where
  settled : ∀ entry ∈ entries, Settled catalog entry
  pending : ∀ kept ∈ kepts, Looks catalog kept.new.name (tableState kept.old)
  only : ∀ name, catalog.tables name ≠ none →
    (∃ entry ∈ entries, entry.table.name = name) ∨ ∃ kept ∈ kepts, kept.new.name = name
  apart : ∀ entry ∈ entries, ∀ name, Uses catalog entry.table.name name →
    ∀ kept ∈ kepts, name ∉ indexNames kept.old

section
variable (entries : List Entry) (kepts : List KeptTable) (catalog : Catalog)
  (stage : At entries kepts catalog)
  (oldColumns : ∀ kept ∈ kepts, (kept.old.columns.map Column.name).Nodup)
include stage oldColumns

theorem At.used (name : String) (hnew : ∀ entry ∈ entries, name ∉ indexNames entry.table) :
    IndexUsed catalog name ↔
      (∃ entry ∈ entries, name ∈ entry.lingering) ∨ ∃ kept ∈ kepts, name ∈ indexNames kept.old := by
  have hpending : ∀ kept ∈ kepts, Uses catalog kept.new.name name ↔ name ∈ indexNames kept.old := by
    intro kept hkept
    rw [← usesIndex_tableState (oldColumns kept hkept)]
    exact (stage.pending kept hkept).usesIndex name
  constructor
  · rintro ⟨table, state, hstate, huses⟩
    have hused : Uses catalog table name := ⟨state, hstate, huses⟩
    rcases stage.only table (by rw [hstate]; exact nofun) with
      ⟨entry, hentry, rfl⟩ | ⟨kept, hkept, rfl⟩
    · exact .inl ⟨entry, hentry, ((stage.settled entry hentry).uses name hused).resolve_right
        (hnew entry hentry)⟩
    · exact .inr ⟨kept, hkept, (hpending kept hkept).mp hused⟩
  · rintro (⟨entry, hentry, hname⟩ | ⟨kept, hkept, hname⟩)
    · exact ⟨_, (stage.settled entry hentry).lingers name hname⟩
    · exact ⟨_, (hpending kept hkept).mpr hname⟩

end

variable (names : List String) (catalog : Catalog) (table : String)

theorem executeAll_dropIndexes (target : String) :
    (executeAll (names.map Statement.dropIndex) catalog).tables target =
      (catalog.tables target).map (unindexAll names) := by
  induction names generalizing catalog with
  | nil =>
    have hid : unindexAll [] = id := funext unindexAll_nil
    rw [hid, Option.map_id_fun]
    rfl
  | cons name rest ih =>
    change (executeAll (rest.map _) (execute (.dropIndex name) catalog)).tables target = _
    rw [ih, execute_dropIndex, Option.map_map]
    congr 1
    funext state
    exact unindexAll_cons name rest state

theorem usesIndex_unindexAll (state : TableState) (name : String) :
    UsesIndex (unindexAll names state) name ↔ UsesIndex state name ∧ name ∉ names := by
  induction names generalizing state with
  | nil => simp [unindexAll_nil]
  | cons first rest ih =>
    rw [← unindexAll_cons, ih, usesIndex_unindex, mem_cons, not_or, and_assoc]

theorem uses_dropIndexes (name : String) :
    Uses (executeAll (names.map Statement.dropIndex) catalog) table name ↔
      Uses catalog table name ∧ name ∉ names := by
  simp only [Uses, executeAll_dropIndexes, Option.map_eq_some_iff]
  constructor
  · rintro ⟨_, ⟨state, hstate, rfl⟩, huses⟩
    obtain ⟨huses, hout⟩ := (usesIndex_unindexAll names state name).mp huses
    exact ⟨⟨state, hstate, huses⟩, hout⟩
  · rintro ⟨⟨state, hstate, huses⟩, hout⟩
    exact ⟨_, ⟨state, hstate, rfl⟩, (usesIndex_unindexAll names state name).mpr ⟨huses, hout⟩⟩

theorem hasColumn_dropIndexes (column : String) :
    HasColumn (executeAll (names.map Statement.dropIndex) catalog) table column ↔
      HasColumn catalog table column := by
  simp only [HasColumn, executeAll_dropIndexes]
  cases catalog.tables table with
  | none => simp
  | some state => simp [unindexAll]

theorem looks_dropIndexes {state : TableState} (looks : Looks catalog table state)
    (h : ∀ name ∈ names, ¬UsesIndex state name) :
    Looks (executeAll (names.map Statement.dropIndex) catalog) table state := by
  obtain ⟨found, hfound, hcore, hindexes⟩ := looks.found
  have habsent : Absent names found := by
    have hfree : ∀ name ∈ names, ¬UsesIndex found name := by
      intro name hname huses
      exact h name hname ((looks.usesIndex name).mp ⟨found, hfound, huses⟩)
    refine ⟨fun column cell index hcell hindex hin => ?_, fun name hname => ?_⟩
    · exact hfree _ hin (.inr ⟨column, cell, index, hcell, hindex, rfl⟩)
    · by_contra hne
      exact hfree name hname (.inl hne)
  refine ⟨found, ?_, hcore, hindexes⟩
  rw [executeAll_dropIndexes, hfound, Option.map_some, unindexAll_absent habsent]

section
variable (table : String) (indexes : List Index)

theorem tableIndexes_there (catalog : Catalog) (hthere : catalog.tables table ≠ none)
    (target : String) :
    (executeAll (indexes.map (Statement.createTableIndex table)) catalog).tables target = none ↔
      catalog.tables target = none := by
  induction indexes generalizing catalog with
  | nil => rfl
  | cons index rest ih =>
    change (executeAll (rest.map _) (execute (.createTableIndex table index) catalog)).tables
      target = none ↔ _
    have hnone : ∀ name, (execute (.createTableIndex table index) catalog).tables name = none ↔
        catalog.tables name = none := by
      intro name
      simp only [execute, Statement.onTable, onlyAt]
      split_ifs <;> simp
    rw [ih _ fun h => hthere ((hnone table).mp h), hnone]

theorem uses_tableIndexes (catalog : Catalog) (hthere : catalog.tables table ≠ none)
    (target name : String) :
    Uses (executeAll (indexes.map (Statement.createTableIndex table)) catalog) target name ↔
      Uses catalog target name ∨ target = table ∧ name ∈ indexes.map Index.name := by
  induction indexes generalizing catalog with
  | nil => exact (or_iff_left fun h => not_mem_nil h.2).symm
  | cons index rest ih =>
    obtain ⟨state, hstate⟩ := Option.ne_none_iff_exists'.mp hthere
    have adds := addsIndex_table catalog table state hstate index
    obtain ⟨_, found, hsame, hfound, _, huses⟩ := adds.own
    rw [hstate] at hsame
    cases hsame
    change Uses (executeAll (rest.map _) (execute (.createTableIndex table index) catalog)) target
      name ↔ _
    rw [ih _ (by rw [hfound]; exact nofun), map_cons, mem_cons]
    by_cases heq : target = table
    · have hown : Uses (execute (.createTableIndex table index) catalog) target name ↔
          Uses catalog target name ∨ name = index.name := by
        rw [heq]
        simp only [Uses, hfound, hstate, Option.some.injEq, exists_eq_left', huses]
      rw [hown]
      tauto
    · have hother : Uses (execute (.createTableIndex table index) catalog) target name ↔
          Uses catalog target name := by
        simp only [Uses, adds.others target heq]
      rw [hother]
      tauto

theorem hasColumn_tableIndexes (catalog : Catalog) (hthere : catalog.tables table ≠ none)
    (target column : String) :
    HasColumn (executeAll (indexes.map (Statement.createTableIndex table)) catalog) target column ↔
      HasColumn catalog target column := by
  induction indexes generalizing catalog with
  | nil => rfl
  | cons index rest ih =>
    obtain ⟨state, hstate⟩ := Option.ne_none_iff_exists'.mp hthere
    have adds := addsIndex_table catalog table state hstate index
    obtain ⟨_, found, _, hfound, _⟩ := adds.own
    change HasColumn (executeAll (rest.map _) (execute (.createTableIndex table index) catalog))
      target column ↔ _
    rw [ih _ (by rw [hfound]; exact nofun), adds.hasColumn]

end

/-- A statement that does no more than its text names. -/
def Plain (statement : Statement) : Prop :=
  ∀ target state, ripple target state statement = state

theorem executeAll_plain {statements : List Statement}
    (h : ∀ statement ∈ statements, Plain statement) (catalog : Catalog) :
    executeAll statements catalog = applyAll statements catalog := by
  induction statements generalizing catalog with
  | nil => rfl
  | cons statement rest ih =>
    have hsame : execute statement catalog = statement.apply catalog := by
      refine Catalog.ext ?_ rfl
      funext name
      have hid : (fun state => ripple name state statement) = id :=
        funext fun state => h statement mem_cons_self name state
      simp only [execute, hid, Option.map_id_fun, id]
      rfl
    change executeAll rest (execute statement catalog) = applyAll rest (statement.apply catalog)
    rw [hsame, ih fun other hother => h other (mem_cons_of_mem statement hother)]

theorem plain_createObject (table : Table) :
    ∀ statement ∈ createObjectSql table, Plain statement := by
  intro statement hmem
  simp only [createObjectSql, mem_cons, mem_append, mem_map] at hmem
  rcases hmem with rfl | (((((⟨_, _, rfl⟩ | ⟨_, _, rfl⟩) | ⟨_, _, rfl⟩) | hmem) | hmem) |
    ⟨_, _, rfl⟩)
  · exact fun _ _ => rfl
  · exact fun _ _ => rfl
  · exact fun _ _ => rfl
  · exact fun _ _ => rfl
  · split at hmem
    · rw [mem_singleton.mp hmem]
      exact fun _ _ => rfl
    · cases hmem
  · split at hmem
    · rw [mem_singleton.mp hmem]
      exact fun _ _ => rfl
    · cases hmem
  · exact fun _ _ => rfl

def Catalog.withTable (catalog : Catalog) (name : String) (state : TableState) : Catalog :=
  { catalog with tables := Function.update catalog.tables name (some state) }

section
variable (catalog : Catalog) (table : String) (state : TableState)

theorem withTable_hasColumn (target column : String) :
    HasColumn (Catalog.withTable catalog table state) target column ↔
      if target = table then state.columns column ≠ none else HasColumn catalog target column := by
  by_cases h : target = table
  · simp [HasColumn, Catalog.withTable, h]
  · simp [HasColumn, Catalog.withTable, h]

theorem withTable_uses (target name : String) :
    Uses (Catalog.withTable catalog table state) target name ↔
      if target = table then UsesIndex state name else Uses catalog target name := by
  by_cases h : target = table
  · simp [Uses, Catalog.withTable, h]
  · simp [Uses, Catalog.withTable, h]

theorem withTable_indexUsed (habsent : catalog.tables table = none) (name : String) :
    IndexUsed (Catalog.withTable catalog table state) name ↔
      IndexUsed catalog name ∨ UsesIndex state name := by
  change (∃ target, Uses _ target name) ↔ (∃ target, Uses catalog target name) ∨ _
  simp only [withTable_uses]
  constructor
  · rintro ⟨target, h⟩
    split_ifs at h
    · exact .inr h
    · exact .inl ⟨target, h⟩
  · rintro (⟨target, h⟩ | h)
    · refine ⟨target, ?_⟩
      rw [if_neg]
      · exact h
      · rintro rfl
        obtain ⟨found, hfound, _⟩ := h
        rw [habsent] at hfound
        cases hfound
    · exact ⟨table, by rwa [if_pos rfl]⟩

end

theorem executeAll_own (table : String) (statements : List Statement)
    (plain : ∀ statement ∈ statements, Plain statement)
    (about : ∀ statement ∈ statements, About table statement) (catalog : Catalog)
    (state : TableState) (h : runTable table statements (catalog.tables table) = some state) :
    executeAll statements catalog = Catalog.withTable catalog table state := by
  rw [executeAll_plain plain]
  refine Catalog.ext ?_ ?_
  · funext target
    rw [applyAll_tables]
    by_cases heq : target = table
    · rw [heq, h]
      simp [Catalog.withTable]
    · rw [runTable_silent target (silent_of_about target table about (Ne.symm heq))]
      simp [Catalog.withTable, heq]
  · funext target
    rw [applyAll_roles]
    refine runRole_other target statements (fun statement hmem => .inl ?_) _
    rw [(about statement hmem).1]
    exact nofun

section
variable (table : Table) (columns : (table.columns.map Column.name).Nodup)
  (indexes : (indexNames table).Nodup)

include columns in
theorem executeAll_createObject (tableIndexes : (table.indexes.map Index.name).Nodup)
    (grants : (table.grants.map Grant.role).Nodup)
    (policies : (table.policies.map Policy.name).Nodup) (catalog : Catalog) :
    executeAll (createObjectSql table) catalog =
      Catalog.withTable catalog table.name (builtTable table) :=
  executeAll_own table.name _ (plain_createObject table) (about_createObject table) catalog _
    (runTable_createObject columns tableIndexes grants policies _)

theorem columnIndexName_built (target : String) :
    columnIndexName (builtTable table) target = columnIndexName (tableState table) target := by
  simp only [columnIndexName, builtTable, tableState, Option.bind_map]
  rfl

include columns in
theorem usesIndex_built (name : String) :
    UsesIndex (builtTable table) name ↔ name ∈ indexNames table := by
  rw [← usesIndex_tableState columns, usesIndex_iff, usesIndex_iff]
  simp only [columnIndexName_built]
  rfl

/-- What follows the indexes of a table that is created. -/
def securitySql : List Statement :=
  table.grants.map (fun grant => grantSql table.name grant.role grant.privileges) ++
    (if table.rls then [Statement.setRls table.name true] else []) ++
    (if table.forceRls then [Statement.forceRls table.name true] else []) ++
    table.policies.map (Statement.createPolicy table.name)

def columnIndexSql : List Statement :=
  (table.columns.filter Column.index).map (createIndexSql table.name)

theorem createObjectSql_eq : createObjectSql table =
    [createTableSql table] ++ columnIndexSql table ++
      table.indexes.map (Statement.createTableIndex table.name) ++ securitySql table := by
  simp [createObjectSql, columnIndexSql, securitySql]

theorem ready_securitySql : ∀ statement ∈ securitySql table, ∀ found, Ready statement found := by
  intro statement hmem
  simp only [securitySql, mem_append, mem_map] at hmem
  rcases hmem with ((⟨_, _, rfl⟩ | hmem) | hmem) | ⟨_, _, rfl⟩
  · exact fun _ => trivial
  · split at hmem
    · rw [mem_singleton.mp hmem]
      exact fun _ => trivial
    · cases hmem
  · split at hmem
    · rw [mem_singleton.mp hmem]
      exact fun _ => trivial
    · cases hmem
  · exact fun _ => trivial

def bareTable : TableState :=
  createdTable (table.columns.map columnDdl) ((table.columns.filter Column.pk).map Column.name)

def indexedTable : TableState :=
  { bareTable table with columns := (builtTable table).columns }

theorem execute_bare (catalog : Catalog) : executeAll [createTableSql table] catalog =
    Catalog.withTable catalog table.name (bareTable table) := by
  refine executeAll_own table.name _ ?_ (about_single _ ⟨rfl, rfl⟩) catalog _ ?_
  · intro statement hmem
    rw [mem_singleton.mp hmem]
    exact fun _ _ => rfl
  · simp [runTable, createTableSql, Statement.onTable, bareTable]

include columns in
theorem execute_indexed (catalog : Catalog) :
    executeAll ([createTableSql table] ++ columnIndexSql table) catalog =
      Catalog.withTable catalog table.name (indexedTable table) := by
  have hmem : ∀ statement ∈ [createTableSql table] ++ columnIndexSql table,
      statement ∈ createObjectSql table := by
    intro statement hmem
    rw [createObjectSql_eq]
    exact mem_append_left _ (mem_append_left _ hmem)
  refine executeAll_own table.name _
    (fun statement hin => plain_createObject table statement (hmem statement hin))
    (fun statement hin => about_createObject table statement (hmem statement hin)) catalog _ ?_
  have hcreate : runTable table.name [createTableSql table] (catalog.tables table.name) =
      some (bareTable table) := by
    simp [runTable, createTableSql, Statement.onTable, bareTable]
  rw [runTable_append, hcreate]
  exact run_columnIndexes columns (bareTable table) (funext (createdTable_columns columns))

include columns in
theorem usesIndex_bare (name : String) : ¬UsesIndex (bareTable table) name := by
  intro h
  rcases (usesIndex_iff _ _).mp h with h | ⟨target, h⟩
  · exact h rfl
  · have hnone : columnIndexName (bareTable table) target = none := by
      rw [columnIndexName, bareTable, createdTable_columns columns]
      cases table.column target <;> rfl
    rw [hnone] at h
    cases h

include columns indexes in
theorem usesIndex_indexed {index : Index} (hindex : index ∈ table.indexes) :
    ¬UsesIndex (indexedTable table) index.name := by
  intro h
  rcases (usesIndex_iff _ _).mp h with h | ⟨target, h⟩
  · exact h rfl
  · change columnIndexName (builtTable table) target = _ at h
    rw [columnIndexName_built] at h
    obtain ⟨column, hmem, hflag, hname⟩ :=
      (columnIndexName_tableState columns index.name).mp ⟨target, h⟩
    exact (nodup_append.mp indexes).2.2 _
      (mem_map.mpr ⟨column, mem_filter.mpr ⟨hmem, hflag⟩, hname⟩) _
      (mem_map_of_mem hindex) rfl

include columns indexes in
theorem applies_createObject {catalog : Catalog} (habsent : catalog.tables table.name = none) :
    Applies (createObjectSql table) catalog ↔ Ready (createTableSql table) catalog ∧
        (∀ index ∈ table.indexes, ∀ column ∈ index.columns, table.column column ≠ none) ∧
        ∀ name ∈ indexNames table, ¬IndexUsed catalog name := by
  have hcells : ∃ state,
      (Catalog.withTable catalog table.name (bareTable table)).tables table.name = some state ∧
      ∀ column ∈ table.columns.filter Column.index,
        ∃ cell, state.columns column.name = some cell ∧ cell.index = none := by
    refine ⟨bareTable table, by simp [Catalog.withTable], fun column hcolumn => ?_⟩
    have hself : table.column column.name = some column :=
      KeyedLists.find_self Column.name table.columns columns (mem_filter.mp hcolumn).1
    refine ⟨(columnDdl column).state column.pk, ?_, rfl⟩
    rw [bareTable, createdTable_columns columns, hself]
    rfl
  have hindexes : (∀ index ∈ table.indexes,
      (∀ column ∈ index.columns, (indexedTable table).columns column ≠ none) ∧
        ¬(IndexUsed catalog index.name ∨ UsesIndex (indexedTable table) index.name)) ↔
      (∀ index ∈ table.indexes, ∀ column ∈ index.columns, table.column column ≠ none) ∧
        ∀ index ∈ table.indexes, ¬IndexUsed catalog index.name := by
    rw [← forall₂_and]
    refine forall₂_congr fun index hindex => ?_
    rw [or_iff_left (usesIndex_indexed table columns indexes hindex)]
    simp [indexedTable, builtTable]
  have hnames : (∀ name ∈ indexNames table, ¬IndexUsed catalog name) ↔
      (∀ column ∈ table.columns.filter Column.index,
        ¬IndexUsed catalog (indexName table.name column.name)) ∧
        ∀ index ∈ table.indexes, ¬IndexUsed catalog index.name := by
    simp only [indexNames, forall_mem_append, forall_mem_map]
  have happend := GuardedRuns.applies_append Ready execute
  rw [createObjectSql_eq, Applies, happend, happend, happend,
    and_iff_left (GuardedRuns.applies_of_free Ready execute _ (ready_securitySql table) _), hnames]
  change ((Applies [createTableSql table] catalog ∧ Applies _ (executeAll _ catalog)) ∧
    Applies _ (executeAll _ catalog)) ↔ _
  rw [execute_bare, execute_indexed table columns, columnIndexSql,
    applies_columnIndexes table.name (columns.sublist (filter_sublist.map Column.name))
      hcells,
    applies_tableIndexes table.name _ (nodup_append.mp indexes).2.1 _
      ⟨indexedTable table, by simp [Catalog.withTable]⟩]
  simp only [withTable_indexUsed catalog table.name _ habsent, withTable_hasColumn, if_true,
    usesIndex_bare table columns, or_false, hindexes]
  change ((Ready (createTableSql table) catalog ∧ True) ∧ _) ∧ _ ↔ _
  tauto

end

structure Setting (old new : Schema) (kepts : List KeptTable) : Prop where
  oldFormed : WellFormed old
  newFormed : WellFormed new
  comes : ∀ kept ∈ kepts, Comes old new kept
  names : (kepts.map fun kept => kept.new.name).Nodup
  found : ∀ kept ∈ kepts, old.table kept.new.name = some kept.old
  covers : ∀ table ∈ new.tables, old.table table.name ≠ none → ∃ kept ∈ kepts, kept.new = table

theorem setting_keptTables {σ : Type} (resolver : Resolver σ) (state : σ) {old new : Schema}
    (hold : WellFormed old) (hnew : WellFormed new) :
    Setting old new (keptTables resolver old state new.tables) where
  oldFormed := hold
  newFormed := hnew
  comes := keptTables_comes resolver state old new
  names := keptTables_names resolver state old new hnew.names
  found := fun kept hmem => (keptTables_mem resolver old state new.tables kept hmem).2
  covers := by
    intro table hmem hfound
    have hin : table ∈ (keptTables resolver old state new.tables).map KeptTable.new := by
      rw [keptTables_new, mem_filter]
      exact ⟨hmem, Option.isSome_iff_ne_none.mpr hfound⟩
    obtain ⟨kept, hkept, rfl⟩ := mem_map.mp hin
    exact ⟨kept, hkept, rfl⟩

theorem Settled.transfer {before : Catalog} (after : Catalog) {entry : Entry}
    (settled : Settled before entry)
    (hthere : after.tables entry.table.name ≠ none)
    (hcolumns : ∀ column, HasColumn after entry.table.name column ↔
      HasColumn before entry.table.name column)
    (huses : ∀ name, Uses after entry.table.name name ↔ Uses before entry.table.name name) :
    Settled after entry where
  there := hthere
  columns := fun column => (hcolumns column).trans (settled.columns column)
  lingers := fun name hname => (huses name).mpr (settled.lingers name hname)
  uses := fun name h => settled.uses name ((huses name).mp h)

structure Creatable (kepts : List KeptTable) (table : Table) : Prop where
  keys : ∀ column ∈ table.columns, ∀ fk, column.references = some fk →
    ∀ kept ∈ kepts, kept.new.name = fk.table → kept.old.column fk.column ≠ none
  columns : ∀ index ∈ table.indexes, ∀ column ∈ index.columns, table.column column ≠ none
  names : ∀ name ∈ indexNames table, ∀ kept ∈ kepts, name ∉ indexNames kept.old

theorem Ordered.placed (inSet placed : List String) (before after : List Table) (table : Table)
    (h : Ordered inSet placed (before ++ table :: after)) :
    dependsOnUnplaced inSet (placed ++ before.map Table.name) table = false := by
  induction before generalizing placed with
  | nil =>
    rw [map_nil, append_nil]
    exact h.1
  | cons first rest ih =>
    have hrest := ih (placed ++ [first.name]) h.2
    rwa [append_assoc, singleton_append] at hrest

theorem mem_created (old new : Schema) (table : Table) :
    table ∈ topoSortCreates (unmatchedTables new old) ↔
      table ∈ new.tables ∧ old.table table.name = none := by
  rw [(topoSortCreates_perm _).mem_iff]
  simp [unmatchedTables]

section
variable {old new : Schema} {kepts : List KeptTable} (setting : Setting old new kepts)
include setting

theorem created_names : ((topoSortCreates (unmatchedTables new old)).map Table.name).Nodup := by
  rw [((topoSortCreates_perm _).map Table.name).nodup_iff]
  exact setting.newFormed.names.tables.sublist (filter_sublist.map Table.name)

theorem new_indexNames {table other : Table} (htable : table ∈ new.tables)
    (hother : other ∈ new.tables) (hne : table.name ≠ other.name) {name : String}
    (h : name ∈ indexNames table) : name ∉ indexNames other :=
  indexNames_disjoint new setting.newFormed.indexes htable hother
    (fun heq => hne (congrArg Table.name heq)) h

theorem created_not_kept {table : Table} (hold : old.table table.name = none) (kept : KeptTable)
    (hkept : kept ∈ kepts) : kept.new.name ≠ table.name := by
  intro heq
  have hfound := setting.found kept hkept
  rw [heq, hold] at hfound
  cases hfound

theorem created_or_kept {table : Table} (hmem : table ∈ new.tables) :
    table ∈ topoSortCreates (unmatchedTables new old) ∨ ∃ kept ∈ kepts, kept.new = table := by
  cases hold : old.table table.name with
  | none => exact .inl ((mem_created old new table).mpr ⟨hmem, hold⟩)
  | some previous =>
    exact .inr (setting.covers table hmem (by rw [hold]; exact nofun))

omit setting in
theorem split_mem {before after : List Table} {table : Table}
    (split : topoSortCreates (unmatchedTables new old) = before ++ table :: after) :
    table ∈ new.tables ∧ old.table table.name = none := by
  rw [← mem_created, split]
  exact mem_append_right before mem_cons_self

section
variable (before after : List Table) (table : Table)
  (split : topoSortCreates (unmatchedTables new old) = before ++ table :: after)
  (catalog : Catalog) (stage : At (before.map fun found => ⟨found, []⟩) kepts catalog)
include split stage

theorem created_absent : catalog.tables table.name = none := by
  have hold := (split_mem split).2
  by_contra hthere
  rcases stage.only table.name hthere with ⟨entry, hentry, hname⟩ | ⟨kept, hkept, hname⟩
  · obtain ⟨first, hfirst, rfl⟩ := mem_map.mp hentry
    have hnodup := created_names setting
    rw [split, map_append] at hnodup
    exact (nodup_append.mp hnodup).2.2 _ (mem_map_of_mem hfirst) _
      (mem_map_of_mem mem_cons_self) hname
  · exact created_not_kept setting hold kept hkept hname

theorem created_target {column : Column} (hcolumn : column ∈ table.columns) {fk : ForeignKey}
    (hfk : column.references = some fk) :
    HasColumn (Catalog.withTable catalog table.name (bareTable table)) fk.table fk.column ↔
      ∀ kept ∈ kepts, kept.new.name = fk.table → kept.old.column fk.column ≠ none := by
  obtain ⟨htable, hold⟩ := split_mem split
  obtain ⟨target, htarget, hthere⟩ := setting.newFormed.keys table htable column hcolumn fk hfk
  obtain ⟨htargetMem, hname⟩ := KeyedLists.find_some Table.name new.tables fk.table target htarget
  rw [withTable_hasColumn]
  by_cases hself : fk.table = table.name
  · have hsame : target = table := by
      rw [hself, table_self setting.newFormed.names htable] at htarget
      exact (Option.some.inj htarget).symm
    rw [if_pos hself, bareTable,
      createdTable_columns (setting.newFormed.names.columns table htable), ← hsame]
    refine iff_of_true (by simpa using hthere) fun kept hkept heq => ?_
    exact absurd (heq.trans hself) (created_not_kept setting hold kept hkept)
  · rw [if_neg hself]
    rcases created_or_kept setting htargetMem with hcreated | ⟨kept, hkept, rfl⟩
    · have hplaced := Ordered.placed _ [] before after table
        (split ▸ topoSort_ordered old setting.newFormed.acyclic)
      have hbefore : fk.table ∈ before.map Table.name := by
        by_contra hout
        have hdepends : dependsOnUnplaced ((unmatchedTables new old).map Table.name)
            ([] ++ before.map Table.name) table = true := by
          refine (dependsOnUnplaced_iff _ _ table).mpr ⟨column, hcolumn, fk, hfk, hself, ?_, hout⟩
          rw [← hname]
          exact mem_map_of_mem ((topoSortCreates_perm _).mem_iff.mp hcreated)
        rw [hplaced] at hdepends
        cases hdepends
      obtain ⟨found, hfound, heq⟩ := mem_map.mp hbefore
      have hsame : found = target := by
        have hfoundMem : found ∈ topoSortCreates (unmatchedTables new old) := by
          rw [split]
          exact mem_append_left _ hfound
        have hself := table_self setting.newFormed.names
          ((mem_created old new found).mp hfoundMem).1
        rw [heq, htarget] at hself
        exact (Option.some.inj hself).symm
      have hsettled := stage.settled ⟨found, []⟩ (mem_map_of_mem hfound)
      rw [← heq, hsettled.columns, hsame]
      refine iff_of_true hthere fun kept hkept hkeptName => ?_
      exact absurd hkeptName (created_not_kept setting
        ((mem_created old new target).mp hcreated).2 kept hkept)
    · have hlooks := stage.pending kept hkept
      rw [← hname, hlooks.hasColumn]
      simp only [tableState, ne_eq, Option.map_eq_none_iff]
      constructor
      · intro h other hother heq
        rw [← inj_on_of_nodup_map setting.names hkept hother heq.symm]
        exact h
      · intro h
        exact h kept hkept rfl

theorem applies_created : Applies (createObjectSql table) catalog ↔ Creatable kepts table := by
  obtain ⟨htable, _⟩ := split_mem split
  have hcolumns := setting.newFormed.names.columns table htable
  have habsent := created_absent setting before after table split catalog stage
  have hkeys : Ready (createTableSql table) catalog ↔ ∀ column ∈ table.columns, ∀ fk,
      column.references = some fk →
        ∀ kept ∈ kepts, kept.new.name = fk.table → kept.old.column fk.column ≠ none := by
    change KeysMet (createTableSql table) catalog (table.columns.map columnDdl) ↔ _
    have hexecute : execute (createTableSql table) catalog = _ := execute_bare table catalog
    simp only [KeysMet, forall_mem_map, hexecute]
    refine forall₂_congr fun column hcolumn => forall₂_congr fun fk hfk => ?_
    exact created_target setting before after table split catalog stage hcolumn hfk
  have hfree : ∀ name ∈ indexNames table,
      IndexUsed catalog name ↔ ∃ kept ∈ kepts, name ∈ indexNames kept.old := by
    intro name hname
    rw [stage.used _ _ _ (fun kept hkept =>
      setting.oldFormed.names.columns _ (setting.comes kept hkept).old_mem)]
    · simp
    · intro entry hentry
      obtain ⟨found, hfound, rfl⟩ := mem_map.mp hentry
      have hfoundMem : found ∈ topoSortCreates (unmatchedTables new old) := by
        rw [split]
        exact mem_append_left _ hfound
      refine new_indexNames setting htable
        ((mem_created old new found).mp hfoundMem).1 (fun heq => ?_) hname
      refine (stage.settled ⟨found, []⟩ hentry).there ?_
      change catalog.tables found.name = none
      rw [← heq, habsent]
  rw [applies_createObject table hcolumns
    ((nodup_flatMap.mp setting.newFormed.indexes).1 table htable) habsent, hkeys]
  constructor
  · rintro ⟨keys, columns, names⟩
    refine ⟨keys, columns, fun name hname kept hkept hin => ?_⟩
    exact names name hname ((hfree name hname).mpr ⟨kept, hkept, hin⟩)
  · intro h
    refine ⟨h.keys, h.columns, fun name hname hused => ?_⟩
    obtain ⟨kept, hkept, hin⟩ := (hfree name hname).mp hused
    exact h.names name hname kept hkept hin

theorem created_at (creatable : Creatable kepts table) :
    At ((before ++ [table]).map fun found => ⟨found, []⟩) kepts
      (executeAll (createObjectSql table) catalog) := by
  obtain ⟨htable, hold⟩ := split_mem split
  have names := setting.newFormed.names
  have hcolumns := names.columns table htable
  have habsent := created_absent setting before after table split catalog stage
  rw [executeAll_createObject table hcolumns (names.tableIndexes htable)
    (names.grants _ htable) (names.policies _ htable)]
  have hother : ∀ name, catalog.tables name ≠ none → name ≠ table.name := by
    rintro name hthere rfl
    exact hthere habsent
  have hsettled : ∀ entry ∈ before.map (fun found : Table => (⟨found, []⟩ : Entry)),
      entry.table.name ≠ table.name := fun entry hentry =>
    hother _ (stage.settled entry hentry).there
  have hown : ∀ name, Uses (Catalog.withTable catalog table.name (builtTable table)) table.name name ↔
      name ∈ indexNames table := by
    intro name
    rw [withTable_uses, if_pos rfl, usesIndex_built table hcolumns]
  rw [map_append, map_singleton]
  refine ⟨?_, ?_, ?_, ?_⟩
  · intro entry hentry
    rcases mem_append.mp hentry with hentry | hentry
    · have hne := hsettled entry hentry
      refine (stage.settled entry hentry).transfer _ ?_ (fun column => ?_) fun name => ?_
      · simp only [Catalog.withTable, Function.update_of_ne hne]
        exact (stage.settled entry hentry).there
      · rw [withTable_hasColumn, if_neg hne]
      · rw [withTable_uses, if_neg hne]
    · rw [mem_singleton.mp hentry]
      refine ⟨by simp [Catalog.withTable], fun column => ?_, nofun, fun name h =>
        .inr ((hown name).mp h)⟩
      rw [withTable_hasColumn, if_pos rfl]
      simp [builtTable]
  · intro kept hkept
    have hne := created_not_kept setting hold kept hkept
    obtain ⟨found, hfound, hlooks⟩ := (stage.pending kept hkept).found
    exact ⟨found, by simpa [Catalog.withTable, hne] using hfound, hlooks⟩
  · intro name hthere
    by_cases heq : name = table.name
    · exact .inl ⟨⟨table, []⟩, mem_append_right _ mem_cons_self, heq.symm⟩
    · simp only [Catalog.withTable, Function.update_of_ne heq] at hthere
      refine (stage.only name hthere).imp_left ?_
      rintro ⟨entry, hentry, rfl⟩
      exact ⟨entry, mem_append_left _ hentry, rfl⟩
  · intro entry hentry name huses kept hkept
    rcases mem_append.mp hentry with hentry | hentry
    · rw [withTable_uses, if_neg (hsettled entry hentry)] at huses
      exact stage.apart entry hentry name huses kept hkept
    · rw [mem_singleton.mp hentry] at huses
      exact creatable.names name ((hown name).mp huses) kept hkept

end

theorem created_step (before : List Table) (table : Table) (after : List Table) (catalog : Catalog)
    (h : topoSortCreates (unmatchedTables new old) = before ++ table :: after ∧
      At (before.map fun found => ⟨found, []⟩) kepts catalog) :
    (Applies (createObjectSql table) catalog ↔ Creatable kepts table) ∧ (Creatable kepts table →
        topoSortCreates (unmatchedTables new old) = (before ++ [table]) ++ after ∧
        At ((before ++ [table]).map fun found => ⟨found, []⟩) kepts
          (executeAll (createObjectSql table) catalog)) := by
  obtain ⟨split, stage⟩ := h
  refine ⟨applies_created setting before after table split catalog stage,
    fun creatable => ⟨?_, created_at setting before after table split catalog stage creatable⟩⟩
  rw [split, append_assoc, singleton_append]

theorem applies_creates {catalog : Catalog} (stage : At [] kepts catalog) :
    Applies ((topoSortCreates (unmatchedTables new old)).flatMap createObjectSql) catalog ↔
      ∀ table ∈ new.tables, old.table table.name = none → Creatable kepts table := by
  rw [Applies, GuardedRuns.applies_loop Ready execute createObjectSql
    (fun before after found => topoSortCreates (unmatchedTables new old) = before ++ after ∧
      At (before.map fun found => ⟨found, []⟩) kepts found)
    (fun _ table _ => Creatable kepts table) (created_step setting) []
    (topoSortCreates (unmatchedTables new old)) catalog ⟨rfl, stage⟩]
  constructor
  · intro h table hmem hold
    obtain ⟨before, after, split⟩ :=
      append_of_mem ((mem_created old new table).mpr ⟨hmem, hold⟩)
    exact h before table after split
  · intro h before table after split
    obtain ⟨htable, hold⟩ := split_mem split
    exact h table htable hold

theorem creates_at {catalog : Catalog} (stage : At [] kepts catalog)
    (creatable : ∀ table ∈ new.tables, old.table table.name = none → Creatable kepts table) :
    At ((topoSortCreates (unmatchedTables new old)).map fun found => ⟨found, []⟩) kepts
      (executeAll ((topoSortCreates (unmatchedTables new old)).flatMap createObjectSql) catalog) := by
  refine (GuardedRuns.loop_at Ready execute createObjectSql
    (fun before after found => topoSortCreates (unmatchedTables new old) = before ++ after ∧
      At (before.map fun found => ⟨found, []⟩) kepts found)
    (fun _ table _ => Creatable kepts table) (created_step setting) [] _ catalog
    ⟨rfl, stage⟩ fun before table after split => ?_).2
  obtain ⟨htable, hold⟩ := split_mem split
  exact creatable table htable hold

end

end Stakit.MigrationStages
