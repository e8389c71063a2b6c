import Stakit.GuardedRuns
import Stakit.MigrationTables

set_option autoImplicit false

namespace Stakit.PostgresRules
open SchemaModel SchemaDiff MigrationStatements MigrationRuns MigrationTables List

def renamedTo (old new name : String) : String := if name = old then new else name

def retarget (table old new : String) (fk : ForeignKey) : ForeignKey :=
  if fk.table = table then { fk with column := renamedTo old new fk.column } else fk

def retargetColumn (table old new : String) (found : ColumnState) : ColumnState :=
  { found with references := found.references.map (retarget table old new) }

/-- What a statement does to the table of a name besides what it names. -/
def ripple (target : String) (state : TableState) : Statement → TableState
  | .dropColumn table column =>
    { state with
      indexes := fun name => if table = target then
        (state.indexes name).filter fun index => column ∉ index.columns else state.indexes name }
  | .renameColumn table old new =>
    { state with
      columns := fun name => (state.columns name).map (retargetColumn table old new)
      indexes := fun name => if table = target then
        (state.indexes name).map fun index =>
          { index with columns := index.columns.map (renamedTo old new) } else state.indexes name }
  | _ => state

def execute (statement : Statement) (catalog : Catalog) : Catalog where
  tables := fun name =>
    (statement.onTable name (catalog.tables name)).map fun state => ripple name state statement
  roles := fun name => statement.onRole name (catalog.roles name)

def HasColumn (catalog : Catalog) (table column : String) : Prop :=
  ∃ state, catalog.tables table = some state ∧ state.columns column ≠ none

def UsesIndex (state : TableState) (name : String) : Prop :=
  state.indexes name ≠ none ∨
    ∃ column found index, state.columns column = some found ∧ found.index = some index ∧
      index.name = name

def IndexUsed (catalog : Catalog) (name : String) : Prop :=
  ∃ table state, catalog.tables table = some state ∧ UsesIndex state name

def KeysMet (statement : Statement) (catalog : Catalog) (columns : List ColumnDdl) : Prop :=
  ∀ ddl ∈ columns, ∀ fk, ddl.references = some fk →
    HasColumn (execute statement catalog) fk.table fk.column

def Ready (statement : Statement) (catalog : Catalog) : Prop :=
  match statement with
  | .createTable _ columns _ => KeysMet statement catalog columns
  | .addColumn _ column => KeysMet statement catalog [column]
  | .dropTable name => ∀ table state, catalog.tables table = some state → table ≠ name →
      ∀ column found fk, state.columns column = some found → found.references = some fk →
        fk.table ≠ name
  | .createColumnIndex name table column _ _ =>
    HasColumn catalog table column ∧ ¬IndexUsed catalog name
  | .createTableIndex table index =>
    (∀ column ∈ index.columns, HasColumn catalog table column) ∧ ¬IndexUsed catalog index.name
  | .dropIndex name => IndexUsed catalog name
  | .dropRole name => ∀ table state, catalog.tables table = some state →
      (∀ access, state.grants name access = false) ∧
        ∀ policy found, state.policies policy = some found → name ∉ found.roles
  | _ => True

abbrev executeAll (statements : List Statement) (catalog : Catalog) : Catalog :=
  GuardedRuns.run execute statements catalog

abbrev Applies (statements : List Statement) (catalog : Catalog) : Prop :=
  GuardedRuns.Applies Ready execute statements catalog

def unkeyed (found : ColumnState) : ColumnState := { found with references := none }

def core (state : TableState) : TableState :=
  { state with
    columns := fun name => (state.columns name).map unkeyed
    indexes := fun _ => none }

variable (target : String) (state : TableState) (name : String) (statement : Statement)
  (catalog : Catalog)

theorem core_ripple : core (ripple target state statement) = core state := by
  cases statement
  case renameColumn table old new =>
    refine TableState.ext rfl rfl ?_ rfl rfl rfl
    funext name
    simp only [core, ripple, Option.map_map]
    rfl
  all_goals rfl

/-- A change of a table that foreign keys and indexes have no part in. -/
def CoreStep (f : TableState → TableState) : Prop := ∀ state, core (f (core state)) = core (f state)

theorem core_core : core (core state) = core state := by
  refine TableState.ext rfl rfl ?_ rfl rfl rfl
  funext name
  simp only [core, Option.map_map]
  rfl

theorem coreStep_setColumn (column : Option ColumnState) :
    CoreStep fun state => state.setColumn name column := by
  intro state
  refine TableState.ext rfl rfl ?_ rfl rfl rfl
  funext other
  by_cases h : other = name
  · subst h
    simp [core, TableState.setColumn]
  · simp only [core, TableState.setColumn, Function.update_of_ne h, Option.map_map]
    rfl

theorem coreStep_updateColumn (f : ColumnState → ColumnState)
    (h : ∀ found, unkeyed (f (unkeyed found)) = unkeyed (f found)) :
    CoreStep fun state => state.updateColumn name f := by
  intro state
  refine TableState.ext rfl rfl ?_ rfl rfl rfl
  funext other
  by_cases heq : other = name
  · subst heq
    simp only [core, TableState.updateColumn, TableState.setColumn, Function.update_self,
      Option.map_map]
    cases state.columns other with
    | none => rfl
    | some found => exact congrArg some (h found)
  · simp only [core, TableState.updateColumn, TableState.setColumn, Function.update_of_ne heq,
      Option.map_map]
    rfl

theorem coreStep_moveColumn (old new : String) : CoreStep fun state => state.moveColumn old new := by
  intro state
  refine TableState.ext rfl rfl ?_ rfl rfl rfl
  funext other
  by_cases hnew : other = new
  · subst hnew
    simp only [core, TableState.moveColumn, TableState.setColumn, Function.update_self,
      Option.map_map]
    rfl
  · by_cases hold : other = old
    · subst hold
      simp [core, TableState.moveColumn, TableState.setColumn, Function.update_of_ne hnew]
    · simp only [core, TableState.moveColumn, TableState.setColumn, Function.update_of_ne hnew,
        Function.update_of_ne hold, Option.map_map]
      rfl

theorem coreStep_unindex : CoreStep fun state => state.unindex name := by
  intro state
  refine TableState.ext rfl rfl ?_ rfl rfl rfl
  funext other
  simp only [core, TableState.unindex, Option.map_map]
  rfl

theorem onlyAt_core (table : String) (f : TableState → TableState) (h : CoreStep f)
    (state : Option TableState) :
    (onlyAt target table f (state.map core)).map core = (onlyAt target table f state).map core := by
  unfold onlyAt
  split_ifs
  · cases state with
    | none => rfl
    | some found => exact congrArg some (h found)
  · cases state with
    | none => rfl
    | some found => exact congrArg some (core_core found)

theorem coreStep_of_rfl (f : TableState → TableState)
    (h : ∀ state, f (core state) = core (f state)) : CoreStep f := by
  intro state
  rw [h, core_core]

theorem onTable_core (state : Option TableState) :
    (statement.onTable target (state.map core)).map core =
      (statement.onTable target state).map core := by
  have hid : (state.map core).map core = state.map core := by
    rw [Option.map_map]
    congr 1
    funext found
    exact core_core found
  cases statement with
  | createTable name columns primaryKey | dropTable name =>
    simp only [Statement.onTable]
    split_ifs
    · rfl
    · exact hid
  | addColumn table column | dropColumn table column =>
    exact onlyAt_core _ _ _ (coreStep_setColumn _ _) state
  | alterColumnType table column sqlType | alterColumnNull table column nullable =>
    exact onlyAt_core _ _ _ (coreStep_updateColumn _ _ fun _ => rfl) state
  | renameColumn table old new => exact onlyAt_core _ _ _ (coreStep_moveColumn _ _) state
  | createColumnIndex name table column method opclass =>
    exact onlyAt_core _ _ _ (coreStep_updateColumn _ _ fun _ => rfl) state
  | createTableIndex table index =>
    refine onlyAt_core _ _ _ (fun found => ?_) state
    exact core_core found
  | dropIndex name =>
    cases state with
    | none => rfl
    | some found => exact congrArg some (coreStep_unindex name found)
  | setRls table enabled | forceRls table forced | grant table role privileges
  | revoke table role privileges | createPolicy table policy | dropPolicy table name =>
    refine onlyAt_core _ _ _ ?_ state
    exact coreStep_of_rfl _ fun _ => rfl
  | createRole role | dropRole name | alterRole role => exact hid

theorem execute_core {state : Option TableState}
    (h : (catalog.tables target).map core = state.map core) :
    ((execute statement catalog).tables target).map core =
      (statement.onTable target state).map core := by
  have hripple : (core ∘ fun found => ripple target found statement) = core := by
    funext found
    exact core_ripple target found statement
  simp only [execute, Option.map_map, hripple]
  rw [← onTable_core target statement (catalog.tables target), h, onTable_core]

theorem executeAll_core (statements : List Statement) (catalog : Catalog)
    (state : Option TableState) (h : (catalog.tables target).map core = state.map core) :
    ((executeAll statements catalog).tables target).map core =
      (runTable target statements state).map core := by
  induction statements generalizing catalog state with
  | nil => exact h
  | cons statement rest ih =>
    exact ih (execute statement catalog) (statement.onTable target state)
      (execute_core target statement catalog h)

/-- The table of a name is there and has everything of a state but the foreign keys. -/
structure Looks (catalog : Catalog) (table : String) (state : TableState) : Prop where
  intro ::
  found : ∃ found, catalog.tables table = some found ∧ core found = core state ∧
    found.indexes = state.indexes

theorem looks_self (table : String) (state : TableState) (h : catalog.tables table = some state) :
    Looks catalog table state :=
  ⟨state, h, rfl, rfl⟩

theorem core_columns {found state : TableState} (h : core found = core state) (name : String) :
    found.columns name = none ↔ state.columns name = none := by
  have hname := congrFun (congrArg TableState.columns h) name
  simp only [core] at hname
  rw [← Option.map_eq_none_iff (f := unkeyed), hname, Option.map_eq_none_iff]

theorem core_index {found state : TableState} (h : core found = core state) (name : String) :
    (found.columns name).bind ColumnState.index = (state.columns name).bind ColumnState.index := by
  have hname := congrArg (fun column => Option.bind column ColumnState.index)
    (congrFun (congrArg TableState.columns h) name)
  simpa [core, Option.bind_map, Function.comp_def, unkeyed] using hname

def columnIndexName (state : TableState) (column : String) : Option String :=
  ((state.columns column).bind ColumnState.index).map ColumnIndex.name

theorem usesIndex_iff : UsesIndex state name ↔
    state.indexes name ≠ none ∨ ∃ column, columnIndexName state column = some name := by
  refine or_congr Iff.rfl (exists_congr fun column => ?_)
  constructor
  · rintro ⟨found, index, hfound, hindex, rfl⟩
    simp [columnIndexName, hfound, hindex]
  · intro h
    obtain ⟨index, hindex, rfl⟩ := Option.map_eq_some_iff.mp h
    obtain ⟨found, hfound, hindex⟩ := Option.bind_eq_some_iff.mp hindex
    exact ⟨found, index, hfound, hindex, rfl⟩

section
variable {catalog : Catalog} {table : String} {state : TableState} (looks : Looks catalog table state)
include looks

theorem Looks.hasColumn (column : String) :
    HasColumn catalog table column ↔ state.columns column ≠ none := by
  obtain ⟨found, hfound, hcore, _⟩ := looks.found
  rw [ne_eq, ← core_columns hcore]
  constructor
  · rintro ⟨other, hother, hcolumn⟩
    rw [hfound] at hother
    cases hother
    exact hcolumn
  · intro hcolumn
    exact ⟨found, hfound, hcolumn⟩

theorem Looks.usesIndex (name : String) :
    (∃ found, catalog.tables table = some found ∧ UsesIndex found name) ↔ UsesIndex state name := by
  obtain ⟨found, hfound, hcore, hindexes⟩ := looks.found
  have hsame : UsesIndex found name ↔ UsesIndex state name := by
    rw [usesIndex_iff, usesIndex_iff, hindexes]
    refine or_congr Iff.rfl (exists_congr fun column => ?_)
    rw [columnIndexName, columnIndexName, core_index hcore]
  rw [← hsame]
  constructor
  · rintro ⟨other, hother, huses⟩
    rw [hfound] at hother
    cases hother
    exact huses
  · intro huses
    exact ⟨found, hfound, huses⟩

end

/-- Two catalogs agree on a table up to its foreign keys. -/
def Alike (before after : Catalog) (table : String) : Prop :=
  (after.tables table).map core = (before.tables table).map core ∧
    (after.tables table).map TableState.indexes = (before.tables table).map TableState.indexes

theorem Alike.looks {before after : Catalog} {table : String} (h : Alike before after table)
    {state : TableState} (looks : Looks before table state) : Looks after table state := by
  obtain ⟨found, hfound, hcore, hindexes⟩ := looks.found
  obtain ⟨hsame, hsame'⟩ := h
  rw [hfound] at hsame hsame'
  obtain ⟨other, hother, hother'⟩ := Option.map_eq_some_iff.mp hsame
  rw [hother] at hsame'
  exact ⟨other, hother, hother'.trans hcore, (Option.some.inj hsame').trans hindexes⟩

theorem Alike.trans (first second third : Catalog) (table : String) (h : Alike first second table)
    (h' : Alike second third table) : Alike first third table :=
  ⟨h'.1.trans h.1, h'.2.trans h.2⟩

variable (target : String) (catalog : Catalog) (table : String) (state : TableState)
  (name : String)

theorem ripple_indexes {statement : Statement} (hname : tableName statement ≠ some target)
    (state : TableState) : (ripple target state statement).indexes = state.indexes := by
  cases statement
  case dropColumn table column =>
    funext name
    exact if_neg fun heq => hname (congrArg some heq)
  case renameColumn table old new =>
    funext name
    exact if_neg fun heq => hname (congrArg some heq)
  all_goals rfl

theorem alike_execute {statement : Statement} (catalog : Catalog)
    (hname : tableName statement ≠ some target) (hdrop : droppedIndex statement = none) :
    Alike catalog (execute statement catalog) target := by
  have htable : (execute statement catalog).tables target =
      (catalog.tables target).map fun state => ripple target state statement := by
    simp only [execute]
    rw [onTable_other target hname hdrop]
  refine ⟨?_, ?_⟩
  · rw [htable, Option.map_map]
    congr 1
    funext state
    exact core_ripple target state statement
  · rw [htable, Option.map_map]
    congr 1
    funext state
    exact ripple_indexes target hname state

theorem alike_executeAll {statements : List Statement} (catalog : Catalog)
    (h : Silent target statements) : Alike catalog (executeAll statements catalog) target := by
  induction statements generalizing catalog with
  | nil => exact ⟨rfl, rfl⟩
  | cons statement rest ih =>
    obtain ⟨hname, hdrop⟩ := h statement mem_cons_self
    exact Alike.trans _ _ _ target (alike_execute target catalog hname hdrop)
      (ih (execute statement catalog) fun other hother => h other (mem_cons_of_mem statement hother))

structure AddsIndex (before after : Catalog) (table name : String) : Prop where
  others : ∀ other, other ≠ table → after.tables other = before.tables other
  own : ∃ state found, before.tables table = some state ∧ after.tables table = some found ∧
    (∀ column, found.columns column = none ↔ state.columns column = none) ∧
    ∀ other, UsesIndex found other ↔ UsesIndex state other ∨ other = name

theorem AddsIndex.used (before after : Catalog) (table name : String)
    (h : AddsIndex before after table name) (other : String) :
    IndexUsed after other ↔ IndexUsed before other ∨ other = name := by
  obtain ⟨state, found, hstate, hfound, _, huses⟩ := h.own
  constructor
  · rintro ⟨target, seen, hseen, hused⟩
    by_cases heq : target = table
    · subst heq
      rw [hfound] at hseen
      cases hseen
      exact ((huses other).mp hused).imp_left fun hused => ⟨target, state, hstate, hused⟩
    · rw [h.others target heq] at hseen
      exact .inl ⟨target, seen, hseen, hused⟩
  · rintro (⟨target, seen, hseen, hused⟩ | rfl)
    · by_cases heq : target = table
      · subst heq
        rw [hstate] at hseen
        cases hseen
        exact ⟨target, found, hfound, (huses other).mpr (.inl hused)⟩
      · exact ⟨target, seen, (h.others target heq).trans hseen, hused⟩
    · exact ⟨table, found, hfound, (huses other).mpr (.inr rfl)⟩

theorem AddsIndex.hasColumn (before after : Catalog) (table name : String)
    (h : AddsIndex before after table name) (target column : String) :
    HasColumn after target column ↔ HasColumn before target column := by
  obtain ⟨state, found, hstate, hfound, hcolumns, _⟩ := h.own
  by_cases heq : target = table
  · subst heq
    simp only [HasColumn, hstate, hfound, Option.some.injEq, exists_eq_left', ne_eq,
      hcolumns column]
  · simp only [HasColumn, h.others target heq]

theorem addsIndex_table (hstate : catalog.tables table = some state) (index : Index) :
    AddsIndex catalog (execute (.createTableIndex table index) catalog) table index.name := by
  refine ⟨fun other hne => ?_, state, { state with
    indexes := Function.update state.indexes index.name (some index) }, hstate, ?_,
    fun column => Iff.rfl, fun other => ?_⟩
  · simp [execute, Statement.onTable, onlyAt, ripple, Ne.symm hne]
  · simp [execute, Statement.onTable, onlyAt, ripple, hstate]
  · by_cases heq : other = index.name
    · simp [UsesIndex, heq]
    · simp [UsesIndex, heq]

theorem addsIndex_column (hstate : catalog.tables table = some state) (name : String)
    {column : String}
    (method opclass : Option String) {cell : ColumnState}
    (hcell : state.columns column = some cell) (hfree : cell.index = none) :
    AddsIndex catalog (execute (.createColumnIndex name table column method opclass) catalog) table
      name := by
  refine ⟨fun other hne => ?_, state, state.updateColumn column fun old =>
    { old with index := some ⟨name, method, opclass⟩ }, hstate, ?_, fun other => ?_, fun other => ?_⟩
  · simp [execute, Statement.onTable, onlyAt, ripple, Ne.symm hne]
  · simp [execute, Statement.onTable, onlyAt, ripple, hstate]
  · by_cases heq : other = column
    · simp [TableState.updateColumn, TableState.setColumn, heq]
    · simp [TableState.updateColumn, TableState.setColumn, heq]
  · have hname : ∀ target, columnIndexName (state.updateColumn column fun old =>
        { old with index := some ⟨name, method, opclass⟩ }) target =
          if target = column then some name else columnIndexName state target := by
      intro target
      by_cases heq : target = column
      · simp [columnIndexName, TableState.updateColumn, TableState.setColumn, heq, hcell]
      · simp [columnIndexName, TableState.updateColumn, TableState.setColumn, heq]
    have hnone : columnIndexName state column = none := by
      simp [columnIndexName, hcell, hfree]
    rw [usesIndex_iff, usesIndex_iff, or_assoc]
    refine or_congr Iff.rfl ?_
    simp only [hname]
    constructor
    · rintro ⟨target, h⟩
      split_ifs at h with heq
      · exact .inr (Option.some.inj h).symm
      · exact .inl ⟨target, h⟩
    · rintro (⟨target, h⟩ | rfl)
      · refine ⟨target, ?_⟩
        rw [if_neg]
        · exact h
        · rintro rfl
          rw [hnone] at h
          cases h
      · exact ⟨column, if_pos rfl⟩

theorem usesIndex_unindex (other : String) :
    UsesIndex (state.unindex name) other ↔ UsesIndex state other ∧ other ≠ name := by
  have hname : ∀ column, columnIndexName (state.unindex name) column =
      (columnIndexName state column).filter fun found => found ≠ name := by
    intro column
    cases hcolumn : state.columns column with
    | none => simp [columnIndexName, TableState.unindex, hcolumn]
    | some found =>
      cases hindex : found.index with
      | none => simp [columnIndexName, TableState.unindex, hcolumn, hindex]
      | some index =>
        by_cases heq : index.name = name <;>
          simp [columnIndexName, TableState.unindex, hcolumn, hindex, heq, Option.filter]
  rw [usesIndex_iff, usesIndex_iff]
  simp only [hname, Option.filter_eq_some_iff]
  by_cases heq : other = name
  · simp [TableState.unindex, heq]
  · simp [TableState.unindex, heq]

theorem execute_dropIndex (target : String) : (execute (.dropIndex name) catalog).tables target =
      (catalog.tables target).map fun state => state.unindex name := by
  simp only [execute, Statement.onTable, Option.map_map]
  rfl

theorem indexUsed_dropIndex (other : String) :
    IndexUsed (execute (.dropIndex name) catalog) other ↔ IndexUsed catalog other ∧ other ≠ name := by
  simp only [IndexUsed, execute_dropIndex, Option.map_eq_some_iff]
  constructor
  · rintro ⟨table, _, ⟨state, hstate, rfl⟩, hused⟩
    obtain ⟨hused, hne⟩ := (usesIndex_unindex state name other).mp hused
    exact ⟨⟨table, state, hstate, hused⟩, hne⟩
  · rintro ⟨⟨table, state, hstate, hused⟩, hne⟩
    exact ⟨table, _, ⟨state, hstate, rfl⟩, (usesIndex_unindex state name other).mpr ⟨hused, hne⟩⟩

theorem applies_dropIndexes {names : List String} (nodup : names.Nodup) (catalog : Catalog) :
    Applies (names.map Statement.dropIndex) catalog ↔ ∀ name ∈ names, IndexUsed catalog name := by
  induction names generalizing catalog with
  | nil => simp [Applies, GuardedRuns.Applies]
  | cons name rest ih =>
    obtain ⟨hout, hrest⟩ := nodup_cons.mp nodup
    rw [map_cons, Applies, GuardedRuns.Applies]
    change IndexUsed catalog name ∧ Applies _ _ ↔ _
    rw [ih hrest, forall_mem_cons]
    refine and_congr Iff.rfl (forall₂_congr fun other hother => ?_)
    rw [indexUsed_dropIndex]
    exact and_iff_left fun heq => hout (heq ▸ hother)

theorem applies_tableIndexes (indexes : List Index) (nodup : (indexes.map Index.name).Nodup)
    (catalog : Catalog) (htable : ∃ state, catalog.tables table = some state) :
    Applies (indexes.map (Statement.createTableIndex table)) catalog ↔
      ∀ index ∈ indexes, (∀ column ∈ index.columns, HasColumn catalog table column) ∧
        ¬IndexUsed catalog index.name := by
  induction indexes generalizing catalog with
  | nil => simp [Applies, GuardedRuns.Applies]
  | cons index rest ih =>
    obtain ⟨hout, hrest⟩ := nodup_cons.mp nodup
    obtain ⟨state, hstate⟩ := htable
    have adds := addsIndex_table catalog table state hstate index
    obtain ⟨_, found, _, hfound, _⟩ := adds.own
    rw [map_cons, Applies, GuardedRuns.Applies]
    change Ready (.createTableIndex table index) catalog ∧ Applies _ _ ↔ _
    rw [ih hrest _ ⟨found, hfound⟩, forall_mem_cons]
    refine and_congr Iff.rfl (forall₂_congr fun other hother => ?_)
    simp only [AddsIndex.hasColumn _ _ _ _ adds, AddsIndex.used _ _ _ _ adds]
    have hne : other.name ≠ index.name :=
      fun heq => hout (heq ▸ mem_map_of_mem hother)
    simp [hne]

theorem indexName_injective : Function.Injective (indexName table) := by
  intro a b h
  have hlist := congrArg String.toList h
  simp only [indexName, String.toList_append] at hlist
  exact String.toList_inj.mp (append_cancel_left hlist)

theorem applies_columnIndexes {columns : List Column} (nodup : (columns.map Column.name).Nodup)
    {catalog : Catalog}
    (htable : ∃ state, catalog.tables table = some state ∧ ∀ column ∈ columns, ∃ cell,
      state.columns column.name = some cell ∧ cell.index = none) :
    Applies (columns.map (createIndexSql table)) catalog ↔
      ∀ column ∈ columns, ¬IndexUsed catalog (indexName table column.name) := by
  induction columns generalizing catalog with
  | nil => simp [Applies, GuardedRuns.Applies]
  | cons column rest ih =>
    obtain ⟨hout, hrest⟩ := nodup_cons.mp nodup
    obtain ⟨state, hstate, hcells⟩ := htable
    obtain ⟨cell, hcell, hfree⟩ := hcells column mem_cons_self
    have adds := addsIndex_column catalog table state hstate (indexName table column.name)
      column.indexMethod column.opclass hcell hfree
    have hhas : HasColumn catalog table column.name :=
      ⟨state, hstate, by rw [hcell]; exact fun h => (by cases h)⟩
    rw [map_cons, Applies, GuardedRuns.Applies]
    change (HasColumn catalog table column.name ∧ ¬IndexUsed catalog _) ∧ Applies _ _ ↔ _
    rw [ih hrest, forall_mem_cons]
    · refine and_congr (and_iff_right hhas) (forall₂_congr fun other hother => ?_)
      have hne : indexName table other.name ≠ indexName table column.name :=
        fun heq => hout (indexName_injective table heq ▸ mem_map_of_mem hother)
      rw [createIndexSql, AddsIndex.used _ _ _ _ adds]
      simp [hne]
    · refine ⟨state.updateColumn column.name fun old =>
        { old with index := some ⟨indexName table column.name, column.indexMethod, column.opclass⟩ },
        ?_, ?_⟩
      · simp [createIndexSql, execute, Statement.onTable, onlyAt, ripple, hstate]
      · intro other hother
        obtain ⟨found, hfound, hnone⟩ := hcells other (mem_cons_of_mem column hother)
        have hne : other.name ≠ column.name :=
          fun heq => hout (heq ▸ mem_map_of_mem hother)
        exact ⟨found, by simpa [TableState.updateColumn, TableState.setColumn, hne] using hfound,
          hnone⟩

end Stakit.PostgresRules
