import Stakit.MigrationStages

set_option autoImplicit false

namespace Stakit.MigrationKept
open SchemaModel SchemaDiff MigrationStatements MigrationRuns MigrationTables MigrationTarget List
open PostgresRules MigrationOrder MigrationStages

/-- What a statement does to the indexes that a table of a name has of its own. -/
def indexEffect (target : String) (found : Option (String → Option Index)) :
    Statement → Option (String → Option Index)
  | .createTable name _ _ => if name = target then some fun _ => none else found
  | .dropTable name => if name = target then none else found
  | .dropColumn table column =>
    if table = target then found.map fun indexes name =>
      (indexes name).filter fun index => column ∉ index.columns else found
  | .renameColumn table old new =>
    if table = target then found.map fun indexes name => (indexes name).map fun index =>
      { index with columns := index.columns.map (renamedTo old new) } else found
  | .createTableIndex table index =>
    if table = target then found.map fun indexes =>
      Function.update indexes index.name (some index) else found
  | .dropIndex name => found.map fun indexes => Function.update indexes name none
  | _ => found

def indexesOf (catalog : Catalog) (target : String) : Option (String → Option Index) :=
  (catalog.tables target).map TableState.indexes

def runIndexes (target : String) (statements : List Statement)
    (found : Option (String → Option Index)) : Option (String → Option Index) :=
  statements.foldl (indexEffect target) found

variable (old new : Table) (target table : String) (statements : List Statement)
  (catalog : Catalog) (move : Move) (moves : List Move) (name : String)
  (indexes : String → Option Index)

theorem execute_indexes (statement : Statement) (catalog : Catalog) :
    indexesOf (execute statement catalog) target =
      indexEffect target (indexesOf catalog target) statement := by
  unfold indexesOf
  simp only [execute]
  cases statement <;> cases hstate : catalog.tables target <;>
    simp only [Statement.onTable, onlyAt, indexEffect, Option.map_none, Option.map_some, ite_self] <;>
    (try split_ifs) <;> simp_all [ripple, TableState.setColumn, TableState.moveColumn,
      TableState.updateColumn, TableState.unindex, createdTable]

theorem executeAll_indexes : indexesOf (executeAll statements catalog) target =
      runIndexes target statements (indexesOf catalog target) := by
  induction statements generalizing catalog with
  | nil => rfl
  | cons statement rest ih =>
    change indexesOf (executeAll rest (execute statement catalog)) target =
      runIndexes target rest (indexEffect target (indexesOf catalog target) statement)
    rw [ih, execute_indexes]

theorem runIndexes_append (first second : List Statement) (found : Option (String → Option Index)) :
    runIndexes target (first ++ second) found =
      runIndexes target second (runIndexes target first found) :=
  foldl_append

theorem looks_executeAll (state after : TableState) (indexes : String → Option Index)
    (looks : Looks catalog table state)
    (hrun : runTable table statements (some state) = some after)
    (hindexes : runIndexes table statements (some state.indexes) = some indexes) :
    Looks (executeAll statements catalog) table { after with indexes := indexes } := by
  obtain ⟨found, hfound, hcore, hsame⟩ := looks.found
  have hcores := executeAll_core table statements catalog (some state) (by
    rw [hfound]
    exact congrArg some hcore)
  rw [hrun] at hcores
  obtain ⟨last, hlast, hlastCore⟩ := Option.map_eq_some_iff.mp hcores
  have hlists := executeAll_indexes table statements catalog
  simp only [indexesOf, hfound, hlast, Option.map_some, hsame, hindexes] at hlists
  exact ⟨last, hlast, hlastCore, Option.some.inj hlists⟩

structure Mild (statement : Statement) : Prop where
  indexes : ∀ target found, indexEffect target found statement = found
  ready : ∀ catalog, Ready statement catalog

theorem runIndexes_mild (h : ∀ statement ∈ statements, Mild statement)
    (found : Option (String → Option Index)) : runIndexes target statements found = found := by
  induction statements generalizing found with
  | nil => rfl
  | cons statement rest ih =>
    change runIndexes target rest (indexEffect target found statement) = found
    rw [(h statement mem_cons_self).indexes]
    exact ih (fun other hother => h other (mem_cons_of_mem statement hother)) found

theorem applies_mild (h : ∀ statement ∈ statements, Mild statement) (catalog : Catalog) :
    Applies statements catalog :=
  GuardedRuns.applies_of_free Ready execute statements
    (fun statement hmem => (h statement hmem).ready) catalog

theorem mild_alterType (column : Column) :
    ∀ statement ∈ alterTypeSql table column, Mild statement := by
  intro statement hmem
  simp only [alterTypeSql, mem_cons, not_mem_nil, or_false] at hmem
  rcases hmem with rfl | rfl
  · exact ⟨fun _ _ => rfl, fun _ => trivial⟩
  · exact ⟨fun _ _ => rfl, fun _ => trivial⟩

theorem mild_alterChanges : ∀ statement ∈ upSql (alterChanges old new), Mild statement := by
  intro statement hmem
  rw [upSql_alterChanges] at hmem
  obtain ⟨column, _, hin⟩ := mem_flatMap.mp hmem
  unfold alterStatements at hin
  split at hin
  · exact mild_alterType new.name column statement hin
  · cases hin

theorem mild_diffTableRls : ∀ statement ∈ upSql (diffTableRls old new), Mild statement := by
  intro statement hmem
  obtain ⟨change, hchange, hstatement⟩ := mem_flatMap.mp hmem
  simp only [diffTableRls, diffGrants, diffPolicies, mem_append, mem_flatMap, mem_map] at hchange
  rcases hchange with ((hchange | hchange) | ⟨grant, _, hchange⟩ | ⟨_, _, rfl⟩) |
    ⟨_, _, rfl⟩ | ⟨_, _, rfl⟩
  · split_ifs at hchange
    · rw [mem_singleton.mp hchange] at hstatement
      rw [mem_singleton.mp hstatement]
      exact ⟨fun _ _ => rfl, fun _ => trivial⟩
    · cases hchange
  · split_ifs at hchange
    · rw [mem_singleton.mp hchange] at hstatement
      rw [mem_singleton.mp hstatement]
      exact ⟨fun _ _ => rfl, fun _ => trivial⟩
    · cases hchange
  · unfold grantChanges at hchange
    split at hchange
    · rw [mem_singleton.mp hchange] at hstatement
      rw [mem_singleton.mp hstatement]
      exact ⟨fun _ _ => rfl, fun _ => trivial⟩
    · split_ifs at hchange
      · rcases mem_pair.mp hchange with rfl | rfl
        · rw [mem_singleton.mp hstatement]
          exact ⟨fun _ _ => rfl, fun _ => trivial⟩
        · rw [mem_singleton.mp hstatement]
          exact ⟨fun _ _ => rfl, fun _ => trivial⟩
      · cases hchange
  all_goals
    rw [mem_singleton.mp hstatement]
    exact ⟨fun _ _ => rfl, fun _ => trivial⟩

def followed (moves : List Move) (name : String) : String :=
  moves.foldl (fun found move => move.source.elim found fun source =>
    renamedTo source.name move.column.name found) name

def followedIndex (moves : List Move) (index : Index) : Index :=
  { index with columns := index.columns.map (followed moves) }

theorem followed_cons : followed (move :: moves) name = followed moves (followed [move] name) := rfl

theorem followedIndex_cons (index : Index) :
    followedIndex (move :: moves) index = followedIndex moves (followedIndex [move] index) := by
  simp only [followedIndex, map_map]
  rfl

theorem runIndexes_move : runIndexes table (upSql (moveChanges table move)) (some indexes) =
      some fun name => (indexes name).map (followedIndex [move]) := by
  obtain ⟨column, source⟩ := move
  cases source with
  | none =>
    have hid : followedIndex [⟨column, none⟩] = id := by
      funext index
      exact congrArg (fun columns => { index with columns := columns }) (map_id' _)
    have hmild : runIndexes table (upSql (moveChanges table ⟨column, none⟩)) (some indexes) =
        some indexes := by
      by_cases hindex : column.index = true <;>
        simp [upSql, moveChanges, up, addColumnSql, hindex, runIndexes, indexEffect, createIndexSql]
    simp [hmild, hid]
  | some source =>
    have hup : upSql (moveChanges table ⟨column, some source⟩) =
        [Statement.renameColumn table source.name column.name] ++
          if source.typeDiffers column then alterTypeSql table column else [] := by
      cases hdiffers : source.typeDiffers column <;> simp [upSql, moveChanges, up, hdiffers]
    rw [hup, runIndexes_append, runIndexes_mild]
    · simp only [runIndexes, foldl_cons, foldl_nil, indexEffect, if_true, Option.map_some]
      rfl
    · intro statement hmem
      split_ifs at hmem
      · exact mild_alterType table column statement hmem
      · cases hmem

theorem runIndexes_moves :
    runIndexes table (upSql (moves.flatMap (moveChanges table))) (some indexes) =
      some fun name => (indexes name).map (followedIndex moves) := by
  induction moves generalizing indexes with
  | nil =>
    have hid : followedIndex [] = id := by
      funext index
      exact congrArg (fun columns => { index with columns := columns }) (map_id' _)
    simp [upSql, runIndexes, hid]
  | cons move moves ih =>
    rw [upSql, flatMap_cons, flatMap_append, runIndexes_append]
    change runIndexes table (upSql _) (runIndexes table (upSql (moveChanges table move)) _) = _
    rw [runIndexes_move, ih]
    refine congrArg some (funext fun name => ?_)
    rw [Option.map_map]
    congr 1
    funext index
    exact (followedIndex_cons move moves index).symm

theorem runIndexes_drops (columns : List Column) (indexes : String → Option Index) :
    runIndexes table (upSql (columns.map (Change.dropColumn table))) (some indexes) =
      some fun name => (indexes name).filter fun index =>
        ∀ column ∈ columns, column.name ∉ index.columns := by
  induction columns generalizing indexes with
  | nil =>
    refine congrArg some (funext fun name => ?_)
    cases hname : indexes name <;> simp [Option.filter]
  | cons column rest ih =>
    change runIndexes table (upSql (rest.map _)) (indexEffect table (some indexes)
      (.dropColumn table column.name)) = _
    rw [indexEffect, if_pos rfl, Option.map_some, ih]
    refine congrArg some (funext fun name => ?_)
    cases indexes name with
    | none => rfl
    | some index =>
      by_cases hin : column.name ∈ index.columns <;> simp [Option.filter, hin]

theorem followed_eq_iff (found : String) (hname : ∀ move ∈ moves, move.column.name ≠ name)
    (hsource : ∀ move ∈ moves, ∀ source, move.source = some source → source.name ≠ name) :
    followed moves found = name ↔ found = name := by
  induction moves generalizing found with
  | nil => rfl
  | cons move moves ih =>
    rw [followed_cons, ih _ (fun other hother => hname other (mem_cons_of_mem move hother))
      fun other hother => hsource other (mem_cons_of_mem move hother)]
    cases hmove : move.source with
    | none => simp [followed, hmove]
    | some source =>
      have hfirst := hname move mem_cons_self
      have hsecond := hsource move mem_cons_self source hmove
      by_cases heq : found = source.name
      · simp [followed, hmove, renamedTo, heq, hfirst, hsecond]
      · simp [followed, hmove, renamedTo, heq]

theorem followed_other (h : name ∉ (moves.filterMap Move.source).map Column.name) :
    followed moves name = name := by
  induction moves with
  | nil => rfl
  | cons move moves ih =>
    have hrest : name ∉ (moves.filterMap Move.source).map Column.name := fun hin =>
      h ((((sublist_cons_self move moves).filterMap _).map _).subset hin)
    rw [followed_cons]
    cases hmove : move.source with
    | none =>
      simp only [followed, foldl_cons, foldl_nil, hmove, Option.elim_none]
      exact ih hrest
    | some source =>
      have hne : name ≠ source.name := by
        rintro rfl
        refine h (mem_map_of_mem (mem_filterMap.mpr ⟨move, mem_cons_self, hmove⟩))
      simp only [followed, foldl_cons, foldl_nil, hmove, Option.elim_some, renamedTo, if_neg hne]
      exact ih hrest

theorem followed_source (apart : Apart moves) {move : Move} (hmove : move ∈ moves)
    {source : Column} (hsource : move.source = some source) :
    followed moves source.name = move.column.name := by
  induction moves with
  | nil => cases hmove
  | cons first rest ih =>
    rw [followed_cons]
    rcases mem_cons.mp hmove with rfl | hmove
    · have hstep : followed [move] source.name = move.column.name := by
        simp [followed, hsource, renamedTo]
      rw [hstep]
      refine followed_other rest _ fun hin => apart.disjoint move mem_cons_self ?_
      exact (((sublist_cons_self move rest).filterMap _).map _).subset hin
    · have hstep : followed [first] source.name = source.name := by
        refine followed_other [first] _ fun hin => ?_
        obtain ⟨other, hother, heq⟩ := mem_map.mp hin
        obtain ⟨own, hown, hfirst⟩ := mem_filterMap.mp hother
        rw [mem_singleton.mp hown] at hfirst
        have hnodup := apart.sources
        rw [filterMap_cons, hfirst, map_cons, nodup_cons] at hnodup
        refine hnodup.1 (heq ▸ mem_map_of_mem ?_)
        exact mem_filterMap.mpr ⟨move, hmove, hsource⟩
      rw [hstep]
      exact ih (apart.tail first rest) hmove

theorem followed_cases (apart : Apart moves) (name : String) :
    (∃ move ∈ moves, ∃ source, move.source = some source ∧ source.name = name ∧
      followed moves name = move.column.name) ∨
      name ∉ (moves.filterMap Move.source).map Column.name ∧ followed moves name = name := by
  by_cases hin : name ∈ (moves.filterMap Move.source).map Column.name
  · obtain ⟨source, hmem, rfl⟩ := mem_map.mp hin
    obtain ⟨move, hmove, hsource⟩ := mem_filterMap.mp hmem
    exact .inl ⟨move, hmove, source, hsource, rfl, followed_source moves apart hmove hsource⟩
  · exact .inr ⟨hin, followed_other moves name hin⟩

theorem altered_indexName (nodup : (old.columns.map Column.name).Nodup) (target name : String) :
    ((alteredColumns old new target).bind ColumnState.index).map ColumnIndex.name = some name ↔
      ∃ column ∈ old.columns, column.name = target ∧ column.index = true ∧
        indexName new.name column.name = name := by
  have hindex : ((alteredColumns old new target).bind ColumnState.index) =
      (old.column target).bind fun column => (columnState new.name column).index := by
    rw [alteredColumns, Option.bind_map]
    congr 1
    funext column
    cases hnew : new.column target <;> rfl
  rw [hindex]
  constructor
  · intro h
    obtain ⟨index, hindex, rfl⟩ := Option.map_eq_some_iff.mp h
    obtain ⟨column, hcolumn, hindex⟩ := Option.bind_eq_some_iff.mp hindex
    obtain ⟨hmem, hname⟩ := KeyedLists.find_some Column.name old.columns target column hcolumn
    cases hflag : column.index with
    | false => simp [columnState, hflag] at hindex
    | true =>
      simp only [columnState, hflag, if_true, Option.some.injEq] at hindex
      exact ⟨column, hmem, hname, hflag, by rw [← hindex]⟩
  · rintro ⟨column, hmem, rfl, hflag, rfl⟩
    have hself : old.column column.name = some column :=
      KeyedLists.find_self Column.name old.columns nodup hmem
    simp [hself, columnState, hflag]

def movingState (kept : KeptTable) (moves : List Move) : TableState :=
  { tableState kept.old with
    columns := movedColumns kept.new.name moves (alteredColumns kept.old kept.new)
    indexes := fun name => (kept.old.index name).map (followedIndex moves) }

section
variable {old new : Schema} (oldNames : DistinctNames old) (newNames : DistinctNames new)
  (kept : KeptTable) (comes : Comes old new kept)
include oldNames newNames comes

theorem kept_apart : Apart kept.moves :=
  moves_apart comes.valid (oldNames.columns _ comes.old_mem) (newNames.columns _ comes.new_mem)

omit oldNames in
theorem move_new {move : Move} (hmove : move ∈ kept.moves) :
    kept.new.column move.column.name = some move.column ∧
      kept.old.column move.column.name = none := by
  obtain ⟨hmem, hnone⟩ := (mem_addedColumns _ _ _).mp
    ((mem_moves comes.valid move.column).mp ⟨move, hmove, rfl⟩)
  exact ⟨column_self newNames comes.new_mem hmem, hnone⟩

omit newNames in
theorem source_old {source : Column} (hsource : source ∈ kept.moves.filterMap Move.source) :
    kept.old.column source.name = some source ∧ kept.new.column source.name = none := by
  obtain ⟨hmem, hnone⟩ := (mem_removedColumns _ _ _).mp
    ((mem_sources comes.valid source).mp (.inl hsource))
  exact ⟨column_self oldNames comes.old_mem hmem, hnone⟩

omit newNames in
theorem dropped_old {column : Column} (hcolumn : column ∈ kept.dropped) :
    kept.old.column column.name = some column ∧ kept.new.column column.name = none := by
  obtain ⟨hmem, hnone⟩ := (mem_removedColumns _ _ _).mp
    ((mem_sources comes.valid column).mp (.inr hcolumn))
  exact ⟨column_self oldNames comes.old_mem hmem, hnone⟩

theorem looks_moving {first rest : List Move} (split : kept.moves = first ++ rest)
    {catalog : Catalog} (looks : Looks catalog kept.new.name (tableState kept.old)) :
    Looks (executeAll (upSql (alterChanges kept.old kept.new) ++
      upSql (first.flatMap (moveChanges kept.new.name))) catalog) kept.new.name
        (movingState kept first) := by
  have hsub : first.Sublist kept.moves := by
    rw [split]
    exact sublist_append_left first rest
  have hcolumns : (tableState kept.old).columns = fun name =>
      (kept.old.column name).map (columnState kept.new.name) := by
    rw [← comes.name]
    rfl
  refine looks_executeAll kept.new.name _ catalog (tableState kept.old)
    { tableState kept.old with
      columns := movedColumns kept.new.name first (alteredColumns kept.old kept.new) }
    _ looks ?_ ?_
  · rw [runTable_append, runTable_alters (newNames.columns _ comes.new_mem) hcolumns,
      runTable_moves kept.new.name first ((kept_apart oldNames newNames kept comes).sublist
        first _ hsub)]
    intro source hsource
    exact altered_typed comes.valid (oldNames.columns _ comes.old_mem) source
      ((hsub.filterMap _).subset hsource)
  · rw [runIndexes_append, runIndexes_mild _ _ (mild_alterChanges kept.old kept.new),
      runIndexes_moves]
    rfl

section
variable (first rest : List Move) (split : kept.moves = first ++ rest)
include split

omit newNames in
theorem moving_column (name : String) (hnew : kept.new.column name ≠ none) :
    (movingState kept first).columns name ≠ none ↔
      kept.old.column name ≠ none ∨ name ∈ first.map fun move => move.column.name := by
  have hsub : first.Sublist kept.moves := by
    rw [split]
    exact sublist_append_left first rest
  have hsource : name ∉ (first.filterMap Move.source).map Column.name := by
    intro hin
    obtain ⟨source, hsource, rfl⟩ := mem_map.mp hin
    exact hnew (source_old oldNames kept comes ((hsub.filterMap _).subset hsource)).2
  change movedColumns kept.new.name first (alteredColumns kept.old kept.new) name ≠ none ↔ _
  by_cases hname : name ∈ first.map fun move => move.column.name
  · refine iff_of_true ?_ (.inr hname)
    obtain ⟨move, hfind⟩ := Option.ne_none_iff_exists'.mp fun hnone =>
      (KeyedLists.find_none (fun move : Move => move.column.name) first name).mp hnone hname
    obtain ⟨hmove, _⟩ := KeyedLists.find_some (fun move : Move => move.column.name) first name move
      hfind
    rw [movedColumns, hfind]
    cases hmoved : move.source with
    | none =>
      dsimp only
      rw [hmoved]
      exact fun h => (by cases h)
    | some source =>
      dsimp only
      rw [hmoved]
      have hold := (source_old oldNames kept comes
        (mem_filterMap.mpr ⟨move, hsub.subset hmove, hmoved⟩)).1
      simp [alteredColumns, hold]
  · rw [movedColumns_none _ _ _ hname hsource]
    simp [alteredColumns, hname]

theorem moving_indexName (target name : String) :
    columnIndexName (movingState kept first) target = some name ↔
      (∃ column ∈ kept.old.columns, column.index = true ∧
        indexName kept.new.name column.name = name ∧ followed first column.name = target) ∨
      ∃ move ∈ first, move.source = none ∧ move.column.index = true ∧
        indexName kept.new.name move.column.name = name ∧ move.column.name = target := by
  have hsub : first.Sublist kept.moves := by
    rw [split]
    exact sublist_append_left first rest
  have apart := (kept_apart oldNames newNames kept comes).sublist first _ hsub
  have hnodup := oldNames.columns _ comes.old_mem
  have hold : ∀ move ∈ first, ∀ column ∈ kept.old.columns, column.name ≠ move.column.name := by
    intro move hmove column hcolumn heq
    have hnone := (move_new newNames kept comes (hsub.subset hmove)).2
    rw [← heq, column_self oldNames comes.old_mem hcolumn] at hnone
    cases hnone
  have hsame : ∀ move ∈ first, ∀ other ∈ first, move.column.name = other.column.name →
      move = other := fun move hmove other hother heq =>
    inj_on_of_nodup_map apart.names hmove hother heq
  change ((movedColumns kept.new.name first (alteredColumns kept.old kept.new) target).bind
    ColumnState.index).map ColumnIndex.name = some name ↔ _
  rw [movedColumns]
  cases hfind : first.find? fun move => move.column.name = target with
  | some move =>
    obtain ⟨hmove, rfl⟩ := KeyedLists.find_some (fun move : Move => move.column.name) first target
      move hfind
    have hfollowed : ∀ column ∈ kept.old.columns, followed first column.name = move.column.name ↔
        ∃ source, move.source = some source ∧ source.name = column.name := by
      intro column hcolumn
      constructor
      · intro h
        rcases followed_cases first apart column.name with ⟨other, hother, source, hsource, hname, heq⟩ |
          ⟨_, heq⟩
        · rw [hsame move hmove other hother (h.symm.trans heq)]
          exact ⟨source, hsource, hname⟩
        · exact absurd (heq.symm.trans h) (hold move hmove column hcolumn)
      · rintro ⟨source, hsource, hname⟩
        rw [← hname]
        exact followed_source first apart hmove hsource
    dsimp only
    cases hmoved : move.source with
    | none =>
      constructor
      · intro h
        refine .inr ⟨move, hmove, hmoved, ?_⟩
        cases hflag : move.column.index with
        | false => simp [addedColumn, builtColumn, columnState, hflag] at h
        | true =>
          simp only [addedColumn, builtColumn, columnState, hflag, if_true, Option.bind_some,
            Option.map_some, Option.some.injEq] at h
          exact ⟨rfl, h, rfl⟩
      · rintro (⟨column, hcolumn, _, _, hfollow⟩ | ⟨other, hother, _, hflag, hname, heq⟩)
        · obtain ⟨source, hsource, _⟩ := (hfollowed column hcolumn).mp hfollow
          rw [hmoved] at hsource
          cases hsource
        · rw [hsame other hother move hmove heq] at hflag hname
          simp [addedColumn, builtColumn, columnState, hflag, hname]
    | some source =>
      have hretype : ((alteredColumns kept.old kept.new source.name).map
          (retype move.column)).bind ColumnState.index =
            (alteredColumns kept.old kept.new source.name).bind ColumnState.index := by
        rw [Option.bind_map]
        rfl
      dsimp only
      rw [hretype, altered_indexName kept.old kept.new hnodup]
      constructor
      · rintro ⟨column, hcolumn, hname, hflag, hindex⟩
        exact .inl ⟨column, hcolumn, hflag, hindex,
          (hfollowed column hcolumn).mpr ⟨source, hmoved, hname.symm⟩⟩
      · rintro (⟨column, hcolumn, hflag, hindex, hfollow⟩ | ⟨other, hother, hnone, _, _, heq⟩)
        · obtain ⟨found, hfound, hname⟩ := (hfollowed column hcolumn).mp hfollow
          rw [hmoved] at hfound
          cases hfound
          exact ⟨column, hcolumn, hname.symm, hflag, hindex⟩
        · rw [hsame other hother move hmove heq, hmoved] at hnone
          cases hnone
  | none =>
    have hout := (KeyedLists.find_none (fun move : Move => move.column.name) first target).mp hfind
    have hfollowed : ∀ column ∈ kept.old.columns, followed first column.name = target ↔
        column.name = target ∧ target ∉ (first.filterMap Move.source).map Column.name := by
      intro column hcolumn
      constructor
      · intro h
        rcases followed_cases first apart column.name with ⟨other, hother, _, _, _, heq⟩ | ⟨hnot, heq⟩
        · exact absurd (mem_map.mpr ⟨other, hother, heq.symm.trans h⟩) hout
        · have hname := heq.symm.trans h
          exact ⟨hname, hname ▸ hnot⟩
      · rintro ⟨hname, hnot⟩
        rw [hname]
        exact followed_other first target hnot
    have hadded : ¬∃ move ∈ first, move.source = none ∧ move.column.index = true ∧
        indexName kept.new.name move.column.name = name ∧ move.column.name = target := by
      rintro ⟨move, hmove, _, _, _, heq⟩
      exact hout (mem_map.mpr ⟨move, hmove, heq⟩)
    rw [or_iff_left hadded]
    by_cases hin : target ∈ (first.filterMap Move.source).map Column.name
    · simp only [if_pos hin, Option.bind_none, Option.map_none]
      refine iff_of_false (fun h => (by cases h)) ?_
      rintro ⟨column, hcolumn, _, _, hfollow⟩
      exact ((hfollowed column hcolumn).mp hfollow).2 hin
    · simp only [if_neg hin]
      rw [altered_indexName kept.old kept.new hnodup]
      refine exists_congr fun column => and_congr_right fun hcolumn => ?_
      rw [hfollowed column hcolumn, and_iff_left hin]
      tauto

theorem moving_uses (name : String) : UsesIndex (movingState kept first) name ↔
    name ∈ indexNames kept.old ∨ ∃ move ∈ first, move.source = none ∧ move.column.index = true ∧
      indexName kept.new.name move.column.name = name := by
  have hindexes : (movingState kept first).indexes name ≠ none ↔
      ∃ index ∈ kept.old.indexes, index.name = name := by
    rw [← index_ne_none]
    simp [movingState]
  rw [usesIndex_iff, mem_indexNames, hindexes, comes.name]
  simp only [moving_indexName oldNames newNames kept comes first rest split, exists_or]
  constructor
  · rintro (h | ⟨_, column, hcolumn, hflag, hname, _⟩ | ⟨_, move, hmove, hnone, hflag, hname, _⟩)
    · exact .inl (.inr h)
    · exact .inl (.inl ⟨column, hcolumn, hflag, hname⟩)
    · exact .inr ⟨move, hmove, hnone, hflag, hname⟩
  · rintro ((⟨column, hcolumn, hflag, hname⟩ | h) | ⟨move, hmove, hnone, hflag, hname⟩)
    · exact .inr (.inl ⟨_, column, hcolumn, hflag, hname, rfl⟩)
    · exact .inl h
    · exact .inr (.inr ⟨_, move, hmove, hnone, hflag, hname, rfl⟩)

end

omit oldNames newNames comes in
def lingering : List String :=
  (kept.old.columns.filter fun column => column.index && column ∉ kept.dropped).map
    fun column => indexName kept.new.name column.name

omit oldNames newNames comes in
def settledState : TableState :=
  { tableState kept.new with
    columns := settledColumns kept
    indexes := fun name => ((kept.old.index name).map (followedIndex kept.moves)).filter
      fun index => ∀ column ∈ kept.dropped, column.name ∉ index.columns }

theorem looks_settled {catalog : Catalog}
    (looks : Looks catalog kept.new.name (tableState kept.old)) :
    Looks (executeAll (upSql (diffTable kept) ++ upSql (diffTableRls kept.old kept.new)) catalog)
      kept.new.name (settledState kept) := by
  have hcolumns : (tableState kept.old).columns = fun name =>
      (kept.old.column name).map (columnState kept.new.name) := by
    rw [← comes.name]
    rfl
  have hup : upSql (diffTable kept) = upSql (alterChanges kept.old kept.new) ++
      upSql (kept.moves.flatMap (moveChanges kept.new.name)) ++
      upSql (kept.dropped.map (Change.dropColumn kept.new.name)) := by
    simp only [upSql, diffTable, flatMap_append]
  have hrls := runTable_diffTableRls kept.old kept.new (oldNames.grants _ comes.old_mem)
    (newNames.grants _ comes.new_mem) (oldNames.policies _ comes.old_mem)
    (newNames.policies _ comes.new_mem)
    { tableState kept.old with columns := settledColumns kept } rfl rfl rfl rfl
  refine looks_executeAll kept.new.name _ catalog (tableState kept.old)
    ⟨kept.new.rls, kept.new.forceRls, settledColumns kept, kept.old.index,
      (tableState kept.new).grants, kept.new.policy⟩ _ looks ?_ ?_
  · rw [runTable_append, runTable_diffTable comes.valid (oldNames.columns _ comes.old_mem)
      (newNames.columns _ comes.new_mem) hcolumns]
    exact hrls
  · rw [runIndexes_append, hup, runIndexes_append, runIndexes_append,
      runIndexes_mild _ _ (mild_alterChanges kept.old kept.new), runIndexes_moves, runIndexes_drops,
      runIndexes_mild _ _ (mild_diffTableRls kept.old kept.new)]
    rfl

omit oldNames newNames comes in
theorem settled_column (name : String) :
    (settledState kept).columns name ≠ none ↔ kept.new.column name ≠ none := by
  change settledColumns kept name ≠ none ↔ _
  simp [settledColumns]

theorem followed_dropped (column : Column) (hcolumn : column ∈ kept.dropped) (name : String) :
    followed kept.moves name = column.name ↔ name = column.name := by
  obtain ⟨_, hnone⟩ := dropped_old oldNames kept comes hcolumn
  refine followed_eq_iff kept.moves column.name name (fun move hmove heq => ?_) ?_
  · have hnew := (move_new newNames kept comes hmove).1
    rw [heq, hnone] at hnew
    cases hnew
  · intro move hmove source hsource heq
    have hnodup := removedNames_nodup comes.valid (oldNames.columns _ comes.old_mem)
    rw [map_append] at hnodup
    exact (nodup_append.mp hnodup).2.2 _ (mem_map_of_mem (mem_filterMap.mpr
      ⟨move, hmove, hsource⟩)) _ (mem_map_of_mem hcolumn) heq

theorem settled_index (name : String) : (settledState kept).indexes name ≠ none ↔
    ∃ index, kept.old.index name = some index ∧
      ∀ column ∈ kept.dropped, column.name ∉ index.columns := by
  have hlists : ∀ index : Index, (∀ column ∈ kept.dropped,
      column.name ∉ (followedIndex kept.moves index).columns) ↔
        ∀ column ∈ kept.dropped, column.name ∉ index.columns := by
    intro index
    refine forall₂_congr fun column hcolumn => not_congr ?_
    simp only [followedIndex, mem_map,
      followed_dropped oldNames newNames kept comes column hcolumn, exists_eq_right]
  simp only [settledState]
  cases hold : kept.old.index name with
  | none => simp
  | some index =>
    rw [Option.map_some, Option.filter_some]
    simp only [decide_eq_true_eq, hlists, ne_eq, ite_eq_right_iff, reduceCtorEq, imp_false, not_not,
      Option.some.injEq, exists_eq_left']

theorem settled_indexName (target name : String) :
    columnIndexName (settledState kept) target = some name ↔
      (∃ column ∈ kept.old.columns, column ∉ kept.dropped ∧ column.index = true ∧
        indexName kept.new.name column.name = name ∧ followed kept.moves column.name = target) ∨
      ∃ move ∈ kept.moves, move.source = none ∧ move.column.index = true ∧
        indexName kept.new.name move.column.name = name ∧ move.column.name = target := by
  have hdrop : columnIndexName (settledState kept) target =
      if target ∈ kept.dropped.map Column.name then none
        else columnIndexName (movingState kept kept.moves) target := by
    change ((settledColumns kept target).bind ColumnState.index).map ColumnIndex.name = _
    rw [← settledColumns_eq comes.valid (oldNames.columns _ comes.old_mem)
      (newNames.columns _ comes.new_mem)]
    split_ifs <;> rfl
  have hfollowed := followed_dropped oldNames newNames kept comes
  have hself : ∀ column ∈ kept.old.columns, column.name ∈ kept.dropped.map Column.name ↔
      column ∈ kept.dropped := by
    intro column hcolumn
    refine ⟨fun hin => ?_, mem_map_of_mem⟩
    obtain ⟨other, hother, heq⟩ := mem_map.mp hin
    have hsame := (dropped_old oldNames kept comes hother).1
    rw [heq, column_self oldNames comes.old_mem hcolumn] at hsame
    rw [Option.some.inj hsame]
    exact hother
  have hmoves := moving_indexName oldNames newNames kept comes kept.moves []
    (append_nil _).symm target name
  rw [hdrop]
  by_cases hin : target ∈ kept.dropped.map Column.name
  · rw [if_pos hin]
    refine iff_of_false nofun ?_
    obtain ⟨other, hother, rfl⟩ := mem_map.mp hin
    rintro (⟨column, hcolumn, hkeep, _, _, hfollow⟩ | ⟨move, hmove, _, _, _, heq⟩)
    · rw [hfollowed other hother] at hfollow
      exact hkeep ((hself column hcolumn).mp (hfollow ▸ hin))
    · have hnew := (move_new newNames kept comes hmove).1
      rw [heq, (dropped_old oldNames kept comes hother).2] at hnew
      cases hnew
  · rw [if_neg hin, hmoves]
    refine or_congr_left (exists_congr fun column => and_congr_right fun hcolumn => ?_)
    constructor
    · rintro ⟨hflag, hname, hfollow⟩
      refine ⟨fun hdropped => hin ?_, hflag, hname, hfollow⟩
      rw [← hfollow, (hfollowed column hdropped column.name).mpr rfl]
      exact mem_map_of_mem hdropped
    · rintro ⟨_, hrest⟩
      exact hrest

theorem settled_uses (name : String) : UsesIndex (settledState kept) name ↔ name ∈ lingering kept ∨
      (∃ move ∈ kept.moves, move.source = none ∧ move.column.index = true ∧
        indexName kept.new.name move.column.name = name) ∨
      ∃ index, kept.old.index name = some index ∧
        ∀ column ∈ kept.dropped, column.name ∉ index.columns := by
  rw [usesIndex_iff, settled_index oldNames newNames kept comes]
  simp only [settled_indexName oldNames newNames kept comes, exists_or, lingering,
    mem_map, mem_filter, Bool.and_eq_true, decide_eq_true_eq]
  constructor
  · rintro (h | ⟨_, column, hcolumn, hkeep, hflag, hname, _⟩ | ⟨_, move, hmove, hnone, hflag, hname, _⟩)
    · exact .inr (.inr h)
    · exact .inl ⟨column, ⟨hcolumn, hflag, hkeep⟩, hname⟩
    · exact .inr (.inl ⟨move, hmove, hnone, hflag, hname⟩)
  · rintro (⟨column, ⟨hcolumn, hflag, hkeep⟩, hname⟩ | ⟨move, hmove, hnone, hflag, hname⟩ | h)
    · exact .inr (.inl ⟨_, column, hcolumn, hkeep, hflag, hname, rfl⟩)
    · exact .inr (.inr ⟨_, move, hmove, hnone, hflag, hname, rfl⟩)
    · exact .inl h

end

end Stakit.MigrationKept
