import Mathlib.Data.List.Pairwise
import Stakit.MigrationTables

set_option autoImplicit false

namespace Stakit.MigrationTarget
open SchemaModel SchemaDiff MigrationStatements MigrationRuns MigrationTables List
open Option (bind_some map_some)

def indexClause (column : Column) : Option (Option String × Option String) :=
  if column.index then some (column.indexMethod, column.opclass) else none

/-- The attributes that `diff` does not compare. -/
structure SameRest (old new : Column) : Prop where
  pk : old.pk = new.pk
  unique : old.unique = new.unique
  index : indexClause old = indexClause new
  generated : old.generated = new.generated
  default : old.default = new.default
  references : old.references = new.references

def Buildable (column : Column) : Prop := column.generated = none ∨ column.default = none

instance (column : Column) : Decidable (Buildable column) := inferInstanceAs (Decidable (_ ∨ _))

def unnamedColumn (found : ColumnState) : ColumnState :=
  { found with index := found.index.map fun index => { index with name := "" } }

def unnamed (state : TableState) : TableState :=
  { state with columns := fun name => (state.columns name).map unnamedColumn }

theorem unnamedColumn_ext (a b : ColumnState) : unnamedColumn a = unnamedColumn b ↔
    a.sqlType = b.sqlType ∧ a.nullable = b.nullable ∧ a.pk = b.pk ∧ a.unique = b.unique ∧
      a.generated = b.generated ∧ a.default = b.default ∧ a.references = b.references ∧
      a.index.map (fun index => (index.method, index.opclass)) =
        b.index.map fun index => (index.method, index.opclass) := by
  have hindex : (a.index.map fun index : ColumnIndex => { index with name := "" }) =
      (b.index.map fun index : ColumnIndex => { index with name := "" }) ↔
        a.index.map (fun index => (index.method, index.opclass)) =
          b.index.map fun index => (index.method, index.opclass) := by
    cases a.index <;> cases b.index <;> simp
  rw [← hindex]
  simp [unnamedColumn]

variable (old : Schema) (target table : String) (column : Column) (names : List String)

theorem columnState_index :
    (columnState table column).index.map (fun index => (index.method, index.opclass)) =
      indexClause column := by
  cases h : column.index <;> simp [columnState, indexClause, h]

theorem unindex_index : (unindexColumn names (columnState table column)).index.map
        (fun index => (index.method, index.opclass)) = indexClause column ↔
      (column.index = true → indexName table column.name ∉ names) := by
  cases h : column.index with
  | false => simp [unindexColumn, columnState, indexClause, h]
  | true =>
    by_cases hin : indexName table column.name ∈ names <;>
      simp [unindexColumn, columnState, indexClause, h, hin, Option.filter]

theorem stayed_iff {old : Column} (new : Column) {names : List String}
    (h : old.index = true → indexName table old.name ∉ names) :
    unnamedColumn (unindexColumn names (retype new (columnState table old))) =
      unnamedColumn (columnState table new) ↔ SameRest old new := by
  have hindex := (unindex_index table old names).mpr h
  rw [unnamedColumn_ext, columnState_index]
  change _ ∧ _ ∧ _ ∧ _ ∧ _ ∧ _ ∧ _ ∧ (unindexColumn names (columnState table old)).index.map _ = _ ↔ _
  rw [hindex]
  constructor
  · rintro ⟨_, _, hpk, hunique, hgenerated, hdefault, hreferences, hclause⟩
    exact ⟨hpk, hunique, hclause, hgenerated, hdefault, hreferences⟩
  · intro h
    exact ⟨rfl, rfl, h.pk, h.unique, h.generated, h.default, h.references, h.index⟩

theorem default_iff : (if column.generated.isSome then none else column.default) = column.default ↔
      Buildable column := by
  unfold Buildable
  cases hgenerated : column.generated with
  | none => simp
  | some expression => simp [eq_comm]

theorem built_iff : unnamedColumn (unindexColumn names (builtColumn table column)) =
      unnamedColumn (columnState table column) ↔
        Buildable column ∧ (column.index = true → indexName table column.name ∉ names) := by
  rw [unnamedColumn_ext, columnState_index, ← unindex_index, ← default_iff]
  constructor
  · rintro ⟨_, _, _, _, _, hdefault, _, hclause⟩
    exact ⟨hdefault, hclause⟩
  · rintro ⟨hdefault, hclause⟩
    exact ⟨rfl, rfl, rfl, rfl, rfl, hdefault, rfl, hclause⟩

theorem added_iff : unnamedColumn (unindexColumn names (addedColumn table column)) =
      unnamedColumn (columnState table column) ↔ column.pk = false ∧
        Buildable column ∧ (column.index = true → indexName table column.name ∉ names) := by
  rw [unnamedColumn_ext, columnState_index, ← unindex_index, ← default_iff]
  constructor
  · rintro ⟨_, _, hpk, _, _, hdefault, _, hclause⟩
    exact ⟨hpk.symm, hdefault, hclause⟩
  · rintro ⟨hpk, hdefault, hclause⟩
    exact ⟨rfl, rfl, hpk.symm, rfl, rfl, hdefault, rfl, hclause⟩

theorem unindexColumn_append (first second : List String) (found : ColumnState) :
    unindexColumn second (unindexColumn first found) = unindexColumn (first ++ second) found := by
  cases hindex : found.index with
  | none => simp [unindexColumn, hindex]
  | some index =>
    by_cases h : index.name ∈ first <;> by_cases h' : index.name ∈ second <;>
      simp [unindexColumn, hindex, Option.filter, h, h']

theorem unnamed_iff (table : Table) (names : List String)
    (columns : String → Option ColumnState) :
    unnamed (unindexAll names { tableState table with columns := columns }) =
        unnamed (tableState table) ↔
      (∀ name, ((columns name).map (unindexColumn names)).map unnamedColumn =
        ((table.column name).map (columnState table.name)).map unnamedColumn) ∧
      ∀ index ∈ table.indexes, index.name ∉ names := by
  have hindexes : (fun name => if name ∈ names then none else table.index name) = table.index ↔
      ∀ index ∈ table.indexes, index.name ∉ names := by
    constructor
    · intro h index hindex hin
      have hnone := congrFun h index.name
      rw [if_pos hin] at hnone
      exact (KeyedLists.find_none Index.name table.indexes index.name).mp hnone.symm
        (mem_map_of_mem hindex)
    · intro h
      funext name
      by_cases hin : name ∈ names
      · rw [if_pos hin]
        refine ((KeyedLists.find_none Index.name table.indexes name).mpr ?_).symm
        intro hmem
        obtain ⟨index, hindex, rfl⟩ := mem_map.mp hmem
        exact h index hindex hin
      · rw [if_neg hin]
  rw [← hindexes, TableState.ext_iff]
  constructor
  · rintro ⟨_, _, hcolumns, hrest, _, _⟩
    exact ⟨fun name => congrFun hcolumns name, hrest⟩
  · rintro ⟨hcolumns, hrest⟩
    exact ⟨rfl, rfl, funext hcolumns, hrest, rfl, rfl⟩

def indexNames (table : Table) : List String :=
  (table.columns.filter Column.index).map (fun column => indexName table.name column.name) ++
    table.indexes.map Index.name

theorem mem_indexNames (table : Table) (name : String) : name ∈ indexNames table ↔
    (∃ column ∈ table.columns, column.index = true ∧ indexName table.name column.name = name) ∨
      ∃ index ∈ table.indexes, index.name = name := by
  simp [indexNames, and_assoc]

theorem created_iff {table : Table} (nodup : (table.columns.map Column.name).Nodup)
    (names : List String) :
    unnamed (unindexAll names (builtTable table)) = unnamed (tableState table) ↔
      (∀ column ∈ table.columns, Buildable column) ∧ ∀ name ∈ indexNames table, name ∉ names := by
  rw [builtTable, unnamed_iff]
  constructor
  · rintro ⟨hcolumns, hindexes⟩
    have hbuilt : ∀ column ∈ table.columns, Buildable column ∧
        (column.index = true → indexName table.name column.name ∉ names) := by
      intro column hmem
      have hname := hcolumns column.name
      have hself : table.column column.name = some column :=
        KeyedLists.find_self Column.name table.columns nodup hmem
      rw [hself] at hname
      exact (built_iff table.name column names).mp (Option.some.inj hname)
    refine ⟨fun column hmem => (hbuilt column hmem).1, fun name hname => ?_⟩
    rcases (mem_indexNames table name).mp hname with ⟨column, hmem, hindex, rfl⟩ | ⟨index, hmem, rfl⟩
    · exact (hbuilt column hmem).2 hindex
    · exact hindexes index hmem
  · rintro ⟨hbuildable, hnames⟩
    refine ⟨fun name => ?_, fun index hmem =>
      hnames _ ((mem_indexNames table _).mpr (.inr ⟨index, hmem, rfl⟩))⟩
    cases hcolumn : table.column name with
    | none => rfl
    | some column =>
      obtain ⟨hmem, _⟩ := KeyedLists.find_some Column.name table.columns name column hcolumn
      refine congrArg some ((built_iff table.name column names).mpr ⟨hbuildable column hmem, ?_⟩)
      exact fun hindex => hnames _ ((mem_indexNames table _).mpr (.inl ⟨column, hmem, hindex, rfl⟩))

structure Follows (kept : KeptTable) (later : List String) : Prop where
  stays : ∀ column ∈ kept.new.columns, ∀ previous,
    kept.old.column column.name = some previous → SameRest previous column
  renamed : ∀ move ∈ kept.moves, ∀ source, move.source = some source → SameRest source move.column
  added : ∀ move ∈ kept.moves, move.source = none → move.column.pk = false ∧ Buildable move.column
  columnIndexes : ∀ move ∈ kept.moves, move.source = none → move.column.index = true →
    indexName kept.new.name move.column.name ∉ gone kept.old kept.new ++ later
  indexes : ∀ index ∈ kept.new.indexes, index.name ∉ later

theorem kept_iff {kept : KeptTable} (valid : kept.Valid)
    (oldNames : (kept.old.columns.map Column.name).Nodup)
    (newNames : (kept.new.columns.map Column.name).Nodup) (later : List String)
    (safe : ∀ column ∈ kept.old.columns, column.index = true →
      indexName kept.new.name column.name ∉ gone kept.old kept.new ++ later) :
    unnamed (unindexAll later (keptState kept)) = unnamed (tableState kept.new) ↔
      Follows kept later := by
  have apart := moves_apart valid oldNames newNames
  have hmoved : ∀ move ∈ kept.moves, kept.new.column move.column.name = some move.column ∧
      kept.old.column move.column.name = none ∧
      kept.moves.find? (fun other => other.column.name = move.column.name) = some move := by
    intro move hmove
    obtain ⟨hmem, hnone⟩ := (mem_addedColumns _ _ _).mp
      ((mem_moves valid move.column).mp ⟨move, hmove, rfl⟩)
    exact ⟨KeyedLists.find_self Column.name _ newNames hmem, hnone,
      KeyedLists.find_self (fun move : Move => move.column.name) _ apart.names hmove⟩
  have hsource : ∀ move ∈ kept.moves, ∀ source, move.source = some source →
      source ∈ kept.old.columns := by
    intro move hmove source heq
    exact ((mem_removedColumns _ _ _).mp ((mem_sources valid source).mp
      (.inl (mem_filterMap.mpr ⟨move, hmove, heq⟩)))).1
  rw [keptState, unnamed_iff]
  simp only [Option.map_map]
  constructor
  · rintro ⟨hcolumns, hindexes⟩
    have hadded : ∀ move ∈ kept.moves, move.source = none → move.column.pk = false ∧
        Buildable move.column ∧ (move.column.index = true →
          indexName kept.new.name move.column.name ∉ gone kept.old kept.new ++ later) := by
      intro move hmove hnone
      obtain ⟨hnew, hold, hfind⟩ := hmoved move hmove
      have hname := hcolumns move.column.name
      simp only [settledColumns, hnew, hold, hfind, map_some, bind_some, hnone,
        Function.comp_apply, Option.some.injEq, unindexColumn_append] at hname
      exact (added_iff kept.new.name move.column _).mp hname
    refine ⟨?_, ?_, fun move hmove hnone => ⟨(hadded move hmove hnone).1, (hadded move hmove hnone).2.1⟩,
      fun move hmove hnone => (hadded move hmove hnone).2.2, hindexes⟩
    · intro column hmem previous hold
      have hname := hcolumns column.name
      have hself : kept.new.column column.name = some column :=
        KeyedLists.find_self Column.name _ newNames hmem
      obtain ⟨hprevious, _⟩ := KeyedLists.find_some Column.name _ _ previous hold
      simp only [settledColumns, hself, hold, map_some, Function.comp_apply,
        Option.some.injEq, unindexColumn_append] at hname
      exact (stayed_iff kept.new.name column (safe previous hprevious)).mp hname
    · intro move hmove source heq
      obtain ⟨hnew, hold, hfind⟩ := hmoved move hmove
      have hname := hcolumns move.column.name
      simp only [settledColumns, hnew, hold, hfind, map_some, bind_some, heq,
        Function.comp_apply, Option.some.injEq, unindexColumn_append] at hname
      exact (stayed_iff kept.new.name move.column
        (safe source (hsource move hmove source heq))).mp hname
  · intro follows
    refine ⟨fun name => ?_, follows.indexes⟩
    cases hnew : kept.new.column name with
    | none => simp [settledColumns, hnew]
    | some column =>
      obtain ⟨hmem, rfl⟩ := KeyedLists.find_some Column.name _ _ column hnew
      simp only [settledColumns, hnew, map_some, Function.comp_apply, Option.some.injEq,
        unindexColumn_append]
      cases hold : kept.old.column column.name with
      | some previous =>
        obtain ⟨hprevious, _⟩ := KeyedLists.find_some Column.name _ _ previous hold
        exact (stayed_iff kept.new.name column (safe previous hprevious)).mpr
          (follows.stays column hmem previous hold)
      | none =>
        obtain ⟨move, hmove, rfl⟩ := (mem_moves valid column).mpr
          ((mem_addedColumns _ _ _).mpr ⟨hmem, hold⟩)
        rw [(hmoved move hmove).2.2, bind_some]
        cases heq : move.source with
        | none =>
          obtain ⟨hpk, hbuildable⟩ := follows.added move hmove heq
          exact (added_iff kept.new.name move.column _).mpr
            ⟨hpk, hbuildable, follows.columnIndexes move hmove heq⟩
        | some source =>
          exact (stayed_iff kept.new.name move.column
            (safe source (hsource move hmove source heq))).mpr (follows.renamed move hmove source heq)

theorem onRole_other {statement : Statement}
    (h : tableName statement ≠ none ∨ droppedIndex statement ≠ none) (state : Option Role) :
    statement.onRole target state = state := by
  cases statement
  case createRole | dropRole | alterRole => exact absurd rfl (h.elim id id)
  all_goals rfl

theorem runRole_other (statements : List Statement)
    (h : ∀ statement ∈ statements, tableName statement ≠ none ∨ droppedIndex statement ≠ none)
    (state : Option Role) : runRole target statements state = state := by
  induction statements generalizing state with
  | nil => rfl
  | cons statement rest ih =>
    change runRole target rest (statement.onRole target state) = state
    rw [onRole_other target (h statement mem_cons_self)]
    exact ih (fun other hother => h other (mem_cons_of_mem statement hother)) state

theorem runRole_append (first second : List Statement) (state : Option Role) :
    runRole target (first ++ second) state = runRole target second (runRole target first state) :=
  foldl_append

def roleAfter (old : Schema) (role : Role) (found : Option Role) : Option Role :=
  match old.role role.name with
  | none => found.or (some role)
  | some previous => if previous ≠ role then found.map fun _ => role else found

theorem runRole_roleChanges (role : Role) (found : Option Role) :
    runRole target (upSql (roleChanges old role)) found =
      if role.name = target then roleAfter old role found else found := by
  unfold roleChanges roleAfter
  cases old.role role.name with
  | none => simp [upSql, up, runRole, Statement.onRole]
  | some previous =>
    dsimp only
    split_ifs <;> simp_all [upSql, up, runRole, Statement.onRole]

theorem runRole_roles {roles : List Role} (nodup : (roles.map Role.name).Nodup)
    (found : Option Role) :
    runRole target (upSql (roles.flatMap (roleChanges old))) found =
      (roles.find? fun role => role.name = target).elim found fun role =>
        roleAfter old role found := by
  induction roles generalizing found with
  | nil => rfl
  | cons role rest ih =>
    obtain ⟨hout, hrest⟩ := nodup_cons.mp nodup
    rw [flatMap_cons, upSql, flatMap_append, runRole_append]
    change runRole target (upSql _) (runRole target (upSql (roleChanges old role)) found) = _
    rw [ih hrest, runRole_roleChanges, List.find?_cons]
    by_cases heq : role.name = target
    · have hnone : rest.find? (fun role => role.name = target) = none :=
        (KeyedLists.find_none Role.name rest target).mpr (heq ▸ hout)
      simp [heq, hnone]
    · simp [heq]

theorem runRole_dropRoles (roles : List Role) (found : Option Role) :
    runRole target (upSql (roles.map Change.dropRole)) found =
      if target ∈ roles.map Role.name then none else found := by
  induction roles generalizing found with
  | nil => rfl
  | cons role rest ih =>
    change runRole target (upSql (rest.map _)) ((Statement.dropRole role.name).onRole target found) = _
    rw [ih, Statement.onRole, map_cons]
    by_cases hin : target ∈ rest.map Role.name
    · rw [if_pos hin, if_pos (mem_cons_of_mem _ hin)]
    · rw [if_neg hin]
      by_cases heq : role.name = target
      · rw [if_pos heq, if_pos]
        rw [heq]
        exact mem_cons_self
      · rw [if_neg heq, if_neg]
        intro hmem
        rcases mem_cons.mp hmem with h | h
        · exact heq h.symm
        · exact hin h

theorem roles_reached {σ : Type} (resolver : Resolver σ) (state : σ) (old : Schema) {new : Schema}
    (newNames : DistinctNames new) (target : String) :
    runRole target (upSql (diff resolver state old new)) (old.role target) = new.role target := by
  have hdrops : ∀ statement ∈ (topoSortCreates (unmatchedTables old new)).reverse.map
      (fun table => Statement.dropTable table.name),
      tableName statement ≠ none ∨ droppedIndex statement ≠ none := by
    intro statement hmem
    obtain ⟨table, _, rfl⟩ := mem_map.mp hmem
    exact .inl nofun
  have hcreates : ∀ statement ∈
      (topoSortCreates (unmatchedTables new old)).flatMap createObjectSql,
      tableName statement ≠ none ∨ droppedIndex statement ≠ none := by
    intro statement hmem
    obtain ⟨table, _, hin⟩ := mem_flatMap.mp hmem
    rw [(about_createObject table statement hin).1]
    exact .inl nofun
  have hkepts : ∀ statement ∈ upSql ((keptTables resolver old state new.tables).flatMap keptChanges),
      tableName statement ≠ none ∨ droppedIndex statement ≠ none := by
    intro statement hmem
    rw [upSql, flatMap_assoc] at hmem
    obtain ⟨kept, _, hin⟩ := mem_flatMap.mp hmem
    exact keptChanges_tables kept statement hin
  have hgone : target ∈ (old.roles.filter fun role => (new.role role.name).isNone).map Role.name ↔
      (old.role target).isSome ∧ new.role target = none := by
    rw [KeyedLists.mem_map_filter Role.name old.roles (fun name => (new.role name).isNone),
      ← KeyedLists.find_isSome Role.name, Option.isNone_iff_eq_none]
    rfl
  rw [upSql_diff]
  simp only [runRole_append]
  rw [runRole_roles old target newNames.roles, runRole_other target _ hdrops,
    runRole_other target _ hcreates, runRole_other target _ hkepts, runRole_dropRoles]
  simp only [hgone]
  change (if _ then none else (new.role target).elim _ _) = _
  cases hnew : new.role target with
  | none => cases old.role target <;> simp
  | some role =>
    obtain ⟨_, hname⟩ := KeyedLists.find_some Role.name new.roles target role hnew
    rw [if_neg fun h => (by cases h.2)]
    simp only [Option.elim_some, roleAfter, hname]
    cases old.role target with
    | none => rfl
    | some previous =>
      dsimp only
      split_ifs with hne
      · rfl
      · rw [not_not.mp hne]

/-- A catalog is that of a schema, up to the names of the columns' own indexes. -/
structure Reaches (catalog : Catalog) (schema : Schema) : Prop where
  tables : ∀ name, (catalog.tables name).map unnamed = ((catalogOf schema).tables name).map unnamed
  roles : ∀ name, catalog.roles name = (catalogOf schema).roles name

def DistinctIndexes (schema : Schema) : Prop := (schema.tables.flatMap indexNames).Nodup

/-- The columns that have an index of their own, each with its table. -/
def indexed (schema : Schema) : List (Table × Column) :=
  schema.tables.flatMap fun table => (table.columns.filter Column.index).map (Prod.mk table)

theorem indexed_nodup {schema : Schema} (names : DistinctNames schema) :
    (indexed schema).Nodup := by
  refine nodup_flatMap.mpr ⟨fun table htable => ?_, ?_⟩
  · exact (((names.columns table htable).of_map _).filter _).map (fun _ _ heq => (Prod.mk.inj heq).2)
  · refine (names.tables.of_map _).imp ?_
    intro table other hne entry hentry hother
    obtain ⟨column, -, rfl⟩ := mem_map.mp hentry
    obtain ⟨column', -, heq⟩ := mem_map.mp hother
    exact hne (congrArg Prod.fst heq).symm

/-- With distinct names of all the rest, listed indexes included, what is left to ask of a schema
is that no two columns share the name of their index, and no listed index has that of a column. -/
theorem distinctIndexes_iff {schema : Schema} (names : DistinctNames schema) :
    DistinctIndexes schema ↔ (∀ entry ∈ indexed schema, ∀ other ∈ indexed schema,
        indexName entry.1.name entry.2.name = indexName other.1.name other.2.name → entry = other) ∧
      ∀ entry ∈ indexed schema, ∀ table ∈ schema.tables, ∀ index ∈ table.indexes,
        indexName entry.1.name entry.2.name ≠ index.name := by
  have hconventional : (schema.tables.flatMap fun table =>
      (table.columns.filter Column.index).map fun column => indexName table.name column.name) =
      (indexed schema).map fun entry => indexName entry.1.name entry.2.name := by
    rw [indexed, map_flatMap]
    exact flatMap_congr fun table _ => by rw [map_map]; rfl
  have hperm := flatMap_append_perm schema.tables
    (fun table => (table.columns.filter Column.index).map fun column =>
      indexName table.name column.name) (fun table => table.indexes.map Index.name)
  change (schema.tables.flatMap fun table => _ ++ _).Nodup ↔ _
  rw [← hperm.nodup_iff, nodup_append, hconventional, nodup_map_iff_inj_on (indexed_nodup names)]
  constructor
  · rintro ⟨hcolumns, -, hlisted⟩
    refine ⟨hcolumns, fun entry hentry table htable index hindex => ?_⟩
    exact hlisted _ (mem_map_of_mem hentry) _
      (mem_flatMap.mpr ⟨table, htable, mem_map_of_mem hindex⟩)
  · rintro ⟨hcolumns, hlisted⟩
    refine ⟨hcolumns, names.indexes, fun name hname other hother => ?_⟩
    obtain ⟨entry, hentry, rfl⟩ := mem_map.mp hname
    obtain ⟨table, htable, hin⟩ := mem_flatMap.mp hother
    obtain ⟨index, hindex, rfl⟩ := mem_map.mp hin
    exact hlisted entry hentry table htable index hindex

/-- The changes of a diff are all there is between two schemas. -/
structure Tracked (old new : Schema) (kepts : List KeptTable) : Prop where
  created : ∀ table ∈ new.tables, old.table table.name = none →
    ∀ column ∈ table.columns, Buildable column
  createdIndexes : ∀ table ∈ new.tables, old.table table.name = none →
    ∀ name ∈ indexNames table, name ∉ goneAll kepts
  follows : ∀ before kept after, kepts = before ++ kept :: after → Follows kept (goneAll after)

theorem gone_indexNames (old new : Table) (name : String) (h : name ∈ gone old new) :
    name ∈ indexNames old := by
  obtain ⟨index, hindex, rfl⟩ := mem_map.mp h
  exact (mem_indexNames old _).mpr (.inr ⟨index, (mem_filter.mp hindex).1, rfl⟩)

section
variable (old : Schema) (indexes : DistinctIndexes old)
include indexes

theorem indexNames_disjoint {table other : Table} (htable : table ∈ old.tables)
    (hother : other ∈ old.tables) (hne : table ≠ other) {name : String}
    (h : name ∈ indexNames table) : name ∉ indexNames other := by
  have hpairs := (nodup_flatMap.mp indexes).2
  have hsymm : Std.Symm (Function.onFun List.Disjoint indexNames) :=
    ⟨fun _ _ hdisjoint name ha hb => hdisjoint hb ha⟩
  exact fun hin => hpairs.forall htable hother hne h hin

theorem columnIndex_stays {table : Table} (htable : table ∈ old.tables) {column : Column}
    (hcolumn : column ∈ table.columns) (hindex : column.index = true) {other : Table} (new : Table)
    (hother : other ∈ old.tables) : indexName table.name column.name ∉ gone other new := by
  have hmem : indexName table.name column.name ∈ indexNames table :=
    (mem_indexNames table _).mpr (.inl ⟨column, hcolumn, hindex, rfl⟩)
  intro hgone
  by_cases heq : table = other
  · subst heq
    have hnodup := (nodup_flatMap.mp indexes).1 table htable
    obtain ⟨index, hin, hname⟩ := mem_map.mp hgone
    refine (nodup_append.mp hnodup).2.2 _ (mem_map.mpr
      ⟨column, mem_filter.mpr ⟨hcolumn, hindex⟩, rfl⟩) _
      (mem_map_of_mem (mem_filter.mp hin).1) hname.symm
  · exact indexNames_disjoint old indexes htable hother heq hmem
      (gone_indexNames other new _ hgone)

end

section
variable {σ : Type} (resolver : Resolver σ) (state : σ) (old new : Schema)
  (oldNames : DistinctNames old) (newNames : DistinctNames new) (indexes : DistinctIndexes old)
include oldNames newNames

theorem created_reached {table : Table} (hmem : table ∈ new.tables)
    (hold : old.table table.name = none) :
    runTable table.name (upSql (diff resolver state old new)) ((catalogOf old).tables table.name) =
      some (unindexAll (goneAll (keptTables resolver old state new.tables)) (builtTable table)) := by
  have hout : table.name ∉
      (keptTables resolver old state new.tables).map fun kept => kept.new.name := by
    rw [mem_keptNames, hold]
    exact fun h => (by cases h.1)
  rw [runTable_diff resolver state old new oldNames newNames, hold,
    table_self newNames hmem, runTable_kepts hout]
  rfl

include indexes in
theorem kept_reached {before after : List KeptTable} {kept : KeptTable}
    (h : keptTables resolver old state new.tables = before ++ kept :: after) :
    runTable kept.new.name (upSql (diff resolver state old new))
        ((catalogOf old).tables kept.new.name) =
      some (unindexAll (goneAll after) (keptState kept)) := by
  have hmem : kept ∈ keptTables resolver old state new.tables := by
    rw [h]
    exact mem_append_right before mem_cons_self
  have comes := keptTables_comes resolver state old new kept hmem
  have hold := (keptTables_mem resolver old state new.tables kept hmem).2
  have hnodup := keptTables_names resolver state old new newNames
  rw [h, map_append, map_cons] at hnodup
  obtain ⟨_, hcons, hdisjoint⟩ := nodup_append.mp hnodup
  have hbefore : kept.new.name ∉ before.map fun kept => kept.new.name :=
    fun hin => hdisjoint _ hin _ mem_cons_self rfl
  have hafter := (nodup_cons.mp hcons).1
  have habsent : Absent (goneAll before) (tableState kept.old) := by
    have hother : ∀ other ∈ before, kept.old ≠ other.old ∧ other.old ∈ old.tables := by
      intro other hin
      have hother := keptTables_comes resolver state old new other (by
        rw [h]
        exact mem_append_left _ hin)
      refine ⟨fun heq => hbefore (mem_map.mpr ⟨other, hin, ?_⟩), hother.old_mem⟩
      rw [← hother.name, ← heq, comes.name]
    refine ⟨?_, ?_⟩
    · intro name found index hfound hindex hin
      obtain ⟨column, hcolumn, rfl⟩ := Option.map_eq_some_iff.mp hfound
      obtain ⟨hcolumnMem, _⟩ := KeyedLists.find_some Column.name _ name column hcolumn
      obtain ⟨other, hbefore, hgone⟩ := mem_flatMap.mp hin
      have hflag : column.index = true := by
        by_contra hflag
        simp [columnState, hflag] at hindex
      simp only [columnState, hflag, if_true, Option.some.injEq] at hindex
      rw [← hindex] at hgone
      exact columnIndex_stays old indexes comes.old_mem hcolumnMem hflag
        other.new (hother other hbefore).2 hgone
    · intro name hin
      obtain ⟨other, hbefore, hgone⟩ := mem_flatMap.mp hin
      refine (KeyedLists.find_none Index.name kept.old.indexes name).mpr fun hname => ?_
      obtain ⟨index, hindex, rfl⟩ := mem_map.mp hname
      exact indexNames_disjoint old indexes comes.old_mem
        (hother other hbefore).2 (hother other hbefore).1
          ((mem_indexNames _ _).mpr (.inr ⟨index, hindex, rfl⟩))
        (gone_indexNames _ _ _ hgone)
  rw [runTable_diff resolver state old new oldNames newNames, hold,
    table_self newNames comes.new_mem, h, flatMap_append, flatMap_cons, upSql,
    flatMap_append, flatMap_append, runTable_append, runTable_append]
  change runTable _ (upSql (after.flatMap _)) (runTable _ (upSql (keptChanges kept))
    (runTable _ (upSql (before.flatMap _)) (some (tableState kept.old)))) = _
  rw [runTable_kepts hbefore, map_some, unindexAll_absent habsent,
    runTable_keptChanges oldNames newNames comes, runTable_kepts hafter]
  rfl

include indexes in
theorem migration_reaches_iff :
    Reaches (applyAll (upSql (diff resolver state old new)) (catalogOf old)) new ↔
      Tracked old new (keptTables resolver old state new.tables) := by
  have hcreated : ∀ table ∈ new.tables, old.table table.name = none →
      (((applyAll (upSql (diff resolver state old new)) (catalogOf old)).tables table.name).map
        unnamed = ((catalogOf new).tables table.name).map unnamed ↔
        (∀ column ∈ table.columns, Buildable column) ∧ ∀ name ∈ indexNames table,
          name ∉ goneAll (keptTables resolver old state new.tables)) := by
    intro table hmem hold
    rw [applyAll_tables, created_reached resolver state old new oldNames newNames hmem hold]
    simp only [catalogOf, table_self newNames hmem, map_some, Option.some.injEq]
    exact created_iff (newNames.columns table hmem) _
  have hkept : ∀ before kept after,
      keptTables resolver old state new.tables = before ++ kept :: after →
      (((applyAll (upSql (diff resolver state old new)) (catalogOf old)).tables kept.new.name).map
        unnamed = ((catalogOf new).tables kept.new.name).map unnamed ↔
          Follows kept (goneAll after)) := by
    intro before kept after h
    have comes := keptTables_comes resolver state old new kept (by
      rw [h]
      exact mem_append_right before mem_cons_self)
    rw [applyAll_tables, kept_reached resolver state old new oldNames newNames indexes h]
    simp only [catalogOf, table_self newNames comes.new_mem, map_some, Option.some.injEq]
    refine kept_iff comes.valid (oldNames.columns _ comes.old_mem)
      (newNames.columns _ comes.new_mem) _ fun column hcolumn hindex hin => ?_
    rw [← comes.name] at hin
    rcases mem_append.mp hin with hin | hin
    · exact columnIndex_stays old indexes comes.old_mem hcolumn hindex
        kept.new comes.old_mem hin
    · obtain ⟨other, hother, hgone⟩ := mem_flatMap.mp hin
      have hcomes := keptTables_comes resolver state old new other (by
        rw [h]
        exact mem_append_right before (mem_cons_of_mem kept hother))
      exact columnIndex_stays old indexes comes.old_mem hcolumn hindex
        other.new hcomes.old_mem hgone
  constructor
  · intro reaches
    exact ⟨fun table hmem hold => ((hcreated table hmem hold).mp (reaches.tables _)).1,
      fun table hmem hold => ((hcreated table hmem hold).mp (reaches.tables _)).2,
      fun before kept after h => (hkept before kept after h).mp (reaches.tables _)⟩
  · intro tracked
    refine ⟨fun name => ?_, fun name => ?_⟩
    · cases hnew : new.table name with
      | none =>
        have hout : name ∉ (keptTables resolver old state new.tables).map fun kept =>
            kept.new.name := by
          rw [mem_keptNames, hnew]
          exact fun h => (by cases h.2)
        rw [applyAll_tables, runTable_diff resolver state old new oldNames newNames, hnew,
          runTable_kepts hout]
        simp only [catalogOf, hnew]
        cases old.table name <;> rfl
      | some table =>
        obtain ⟨hmem, rfl⟩ := KeyedLists.find_some Table.name new.tables name table hnew
        cases hold : old.table table.name with
        | none =>
          exact (hcreated table hmem hold).mpr
            ⟨tracked.created table hmem hold, tracked.createdIndexes table hmem hold⟩
        | some previous =>
          have hin := (mem_keptNames resolver state old new table.name).mpr
            ⟨by rw [hold]; rfl, by rw [hnew]; rfl⟩
          obtain ⟨kept, hkeptMem, hname⟩ := mem_map.mp hin
          obtain ⟨before, after, h⟩ := append_of_mem hkeptMem
          rw [← hname]
          exact (hkept before kept after h).mpr (tracked.follows before kept after h)
    · rw [applyAll_roles]
      exact roles_reached resolver state old newNames name

end

/-- Nobody renames a column. -/
def never : Resolver Unit := ⟨fun state _ _ _ => (state, none)⟩

def textColumn (name : String) (unique index : Bool) : Column :=
  ⟨name, "text", false, false, unique, index, none, none, none, none, none⟩

def plainTable (name : String) (columns : List Column) : Table :=
  ⟨name, columns, false, false, [], [], []⟩

def oneColumn (name : String) (unique : Bool) : Schema :=
  ⟨[plainTable "users" [textColumn name unique false]], []⟩

def twoTables : Schema :=
  ⟨[plainTable "posts" [textColumn "title" false true],
    plainTable "users" [textColumn "name" true false, textColumn "email" false true]], []⟩

theorem distinct_oneColumn (name : String) (unique : Bool) :
    DistinctNames (oneColumn name unique) ∧ DistinctIndexes (oneColumn name unique) := by
  refine ⟨⟨by simp [oneColumn], nodup_nil, ?_, ?_, ?_, by simp [oneColumn, plainTable]⟩,
    by simp [DistinctIndexes, oneColumn, plainTable, indexNames, textColumn]⟩ <;>
    simp [oneColumn, plainTable]

theorem migration_reaches_two_tables :
    Reaches (applyAll (upSql (diff never () (oneColumn "name" true) twoTables))
      (catalogOf (oneColumn "name" true))) twoTables := by
  have hnames : DistinctNames twoTables :=
    ⟨by decide, by decide, by decide, by decide, by decide, by decide⟩
  obtain ⟨hold, hindexes⟩ := distinct_oneColumn "name" true
  refine (migration_reaches_iff never () _ _ hold hnames hindexes).mpr
    ⟨by decide, by decide, ?_⟩
  intro before kept after h
  have hkepts : keptTables never (oneColumn "name" true) () twoTables.tables =
      [⟨plainTable "users" [textColumn "name" true false],
        plainTable "users" [textColumn "name" true false, textColumn "email" false true],
        [⟨textColumn "email" false true, none⟩], []⟩] := by rfl
  rw [hkepts] at h
  obtain ⟨rfl, rfl, rfl⟩ : before = [] ∧ _ = kept ∧ [] = after := by
    cases before with
    | nil => exact ⟨rfl, List.cons.inj h⟩
    | cons first rest => simp at h
  refine ⟨?_, ?_, by decide, by decide, by decide⟩
  · intro column hcolumn previous hprevious
    rcases mem_cons.mp hcolumn with rfl | hcolumn
    · cases hprevious
      exact ⟨rfl, rfl, rfl, rfl, rfl, rfl⟩
    · rw [mem_singleton.mp hcolumn] at hprevious
      cases hprevious
  · intro move hmove source hsource
    rw [mem_singleton.mp hmove] at hsource
    cases hsource

theorem unique_goes_unseen :
    (DistinctNames (oneColumn "name" false) ∧ DistinctIndexes (oneColumn "name" false)) ∧
      (DistinctNames (oneColumn "name" true) ∧ DistinctIndexes (oneColumn "name" true)) ∧
      diff never () (oneColumn "name" false) (oneColumn "name" true) = [] ∧
      ¬Reaches (applyAll (upSql (diff never () (oneColumn "name" false) (oneColumn "name" true)))
        (catalogOf (oneColumn "name" false))) (oneColumn "name" true) := by
  refine ⟨distinct_oneColumn "name" false, distinct_oneColumn "name" true, by decide,
    fun reaches => ?_⟩
  have hcolumn := congrArg
    (fun found => (found.bind fun state => state.columns "name").map ColumnState.unique)
    (reaches.tables "users")
  exact absurd hcolumn (by decide)

end Stakit.MigrationTarget
