import Stakit.MigrationRuns

set_option autoImplicit false

namespace Stakit.MigrationTables
open SchemaModel SchemaDiff MigrationStatements MigrationRuns List

structure Comes (old new : Schema) (kept : KeptTable) : Prop where
  valid : kept.Valid
  name : kept.old.name = kept.new.name
  old_mem : kept.old ∈ old.tables
  new_mem : kept.new ∈ new.tables

def settledColumns (kept : KeptTable) (name : String) : Option ColumnState :=
  (kept.new.column name).map fun column =>
    match kept.old.column name with
    | some previous => retype column (columnState kept.new.name previous)
    | none =>
      match (kept.moves.find? fun move => move.column.name = name).bind Move.source with
      | some source => retype column (columnState kept.new.name source)
      | none => addedColumn kept.new.name column

theorem mem_addedColumns (old new : Table) (column : Column) :
    column ∈ addedColumns old new ↔ column ∈ new.columns ∧ old.column column.name = none := by
  simp [addedColumns]

theorem mem_removedColumns (old new : Table) (column : Column) :
    column ∈ removedColumns old new ↔ column ∈ old.columns ∧ new.column column.name = none := by
  simp [removedColumns]

section
variable {kept : KeptTable} (valid : kept.Valid)
  (oldNames : (kept.old.columns.map Column.name).Nodup)
  (newNames : (kept.new.columns.map Column.name).Nodup)
include valid

theorem mem_moves (column : Column) :
    (∃ move ∈ kept.moves, move.column = column) ↔ column ∈ addedColumns kept.old kept.new := by
  rw [← valid.moves, mem_map]

theorem mem_sources (column : Column) :
    column ∈ kept.moves.filterMap Move.source ∨ column ∈ kept.dropped ↔
      column ∈ removedColumns kept.old kept.new := by
  rw [← valid.sources.mem_iff, mem_append]

include oldNames in
theorem removedNames_nodup :
    ((kept.moves.filterMap Move.source ++ kept.dropped).map Column.name).Nodup := by
  rw [(valid.sources.map Column.name).nodup_iff]
  exact oldNames.sublist (filter_sublist.map Column.name)

include newNames in
theorem moveNames_nodup : (kept.moves.map fun move => move.column.name).Nodup := by
  have hnames : (kept.moves.map fun move => move.column.name) =
      (addedColumns kept.old kept.new).map Column.name := by
    rw [← valid.moves, map_map]
    rfl
  rw [hnames]
  exact newNames.sublist (filter_sublist.map Column.name)

include oldNames newNames in
theorem moves_apart : Apart kept.moves := by
  refine ⟨moveNames_nodup valid newNames, ?_, ?_⟩
  · have hall := removedNames_nodup valid oldNames
    rw [map_append] at hall
    exact (nodup_append.mp hall).1
  · intro move hmove hin
    obtain ⟨source, hsource, heq⟩ := mem_map.mp hin
    have hadded := (mem_moves valid move.column).mp ⟨move, hmove, rfl⟩
    have hremoved := (mem_sources valid source).mp (.inl hsource)
    have hnone := ((mem_removedColumns _ _ _).mp hremoved).2
    refine (KeyedLists.find_none Column.name kept.new.columns source.name).mp hnone ?_
    exact mem_map.mpr ⟨move.column, ((mem_addedColumns _ _ _).mp hadded).1, heq.symm⟩

include oldNames newNames in
theorem settledColumns_eq (name : String) : (if name ∈ kept.dropped.map Column.name then none
      else movedColumns kept.new.name kept.moves (alteredColumns kept.old kept.new) name) =
      settledColumns kept name := by
  have apart := moves_apart valid oldNames newNames
  have hremoved : ∀ column, column.name = name →
      (column ∈ kept.moves.filterMap Move.source ∨ column ∈ kept.dropped) →
        kept.new.column name = none := by
    intro column hname hmem
    have h := (mem_removedColumns _ _ _).mp ((mem_sources valid column).mp hmem)
    exact hname ▸ h.2
  have hadded : ∀ move ∈ kept.moves, move.column.name = name →
      kept.new.column name = some move.column ∧ kept.old.column name = none := by
    intro move hmove hname
    obtain ⟨hmem, hnone⟩ := (mem_addedColumns _ _ _).mp
      ((mem_moves valid move.column).mp ⟨move, hmove, rfl⟩)
    exact ⟨(KeyedLists.find_eq_some_iff Column.name _ newNames name move.column).mpr ⟨hmem, hname⟩,
      hname ▸ hnone⟩
  cases hnew : kept.new.column name with
  | none =>
    have hout : name ∉ kept.moves.map fun move => move.column.name := by
      intro h
      obtain ⟨move, hmove, hname⟩ := mem_map.mp h
      rw [(hadded move hmove hname).1] at hnew
      cases hnew
    have hfind : kept.moves.find? (fun move => move.column.name = name) = none :=
      (KeyedLists.find_none (fun move : Move => move.column.name) _ name).mpr hout
    rw [settledColumns, hnew, Option.map_none, movedColumns, hfind]
    cases hold : kept.old.column name with
    | none => simp [alteredColumns, hold]
    | some previous =>
      obtain ⟨hmem, hname⟩ := KeyedLists.find_some Column.name kept.old.columns name previous hold
      have hgone := (mem_sources valid previous).mpr
        ((mem_removedColumns _ _ _).mpr ⟨hmem, hname ▸ hnew⟩)
      rcases hgone with hsource | hdropped
      · have hin : name ∈ (kept.moves.filterMap Move.source).map Column.name :=
          mem_map.mpr ⟨previous, hsource, hname⟩
        simp only [if_pos hin, ite_self]
      · rw [if_pos (mem_map.mpr ⟨previous, hdropped, hname⟩)]
  | some column =>
    have hkeep : name ∉ kept.dropped.map Column.name := by
      intro h
      obtain ⟨dropped, hdropped, hname⟩ := mem_map.mp h
      rw [hremoved dropped hname (.inr hdropped)] at hnew
      cases hnew
    have hsource : name ∉ (kept.moves.filterMap Move.source).map Column.name := by
      intro h
      obtain ⟨source, hsource, hname⟩ := mem_map.mp h
      rw [hremoved source hname (.inl hsource)] at hnew
      cases hnew
    rw [if_neg hkeep, settledColumns, hnew, Option.map_some]
    cases hold : kept.old.column name with
    | some previous =>
      have hout : name ∉ kept.moves.map fun move => move.column.name := by
        intro h
        obtain ⟨move, hmove, hname⟩ := mem_map.mp h
        rw [(hadded move hmove hname).2] at hold
        cases hold
      rw [movedColumns_none _ _ _ hout hsource]
      simp [alteredColumns, hold, hnew]
    | none =>
      obtain ⟨hmem, hname⟩ := KeyedLists.find_some Column.name kept.new.columns name column hnew
      obtain ⟨move, hmove, hcolumn⟩ := (mem_moves valid column).mpr
        ((mem_addedColumns _ _ _).mpr ⟨hmem, hname ▸ hold⟩)
      have hfind : kept.moves.find? (fun move => move.column.name = name) = some move :=
        (KeyedLists.find_eq_some_iff (fun move : Move => move.column.name) _ apart.names name
          move).mpr ⟨hmove, hcolumn ▸ hname⟩
      simp only [movedColumns, hfind, Option.bind_some]
      cases hmoved : move.source with
      | none => simp [hcolumn]
      | some source =>
        have hremoved := (mem_removedColumns _ _ _).mp ((mem_sources valid source).mp
          (.inl (mem_filterMap.mpr ⟨move, hmove, hmoved⟩)))
        have hself := KeyedLists.find_self Column.name kept.old.columns oldNames hremoved.1
        change kept.old.column source.name = some source at hself
        simp [alteredColumns, hself, hremoved.2, hcolumn]

include oldNames in
theorem altered_typed (source : Column) (hsource : source ∈ kept.moves.filterMap Move.source)
    (found : ColumnState) (hfound : alteredColumns kept.old kept.new source.name = some found) :
    Typed source found := by
  obtain ⟨hmem, hnone⟩ := (mem_removedColumns _ _ _).mp
    ((mem_sources valid source).mp (.inl hsource))
  have hself := KeyedLists.find_self Column.name kept.old.columns oldNames hmem
  change kept.old.column source.name = some source at hself
  simp only [alteredColumns, hself, hnone, Option.map_some, Option.elim_none] at hfound
  cases hfound
  exact ⟨rfl, rfl⟩

include oldNames newNames in
theorem runTable_diffTable {state : TableState}
    (h : state.columns = fun name => (kept.old.column name).map (columnState kept.new.name)) :
    runTable kept.new.name (upSql (diffTable kept)) (some state) =
      some { state with columns := settledColumns kept } := by
  have apart := moves_apart valid oldNames newNames
  have hdropped : (kept.dropped.map Column.name).Nodup := by
    have hall := removedNames_nodup valid oldNames
    rw [map_append] at hall
    exact (nodup_append.mp hall).2.1
  have hup : upSql (diffTable kept) = upSql (alterChanges kept.old kept.new) ++
      upSql (kept.moves.flatMap (moveChanges kept.new.name)) ++
      upSql (kept.dropped.map (Change.dropColumn kept.new.name)) := by
    simp only [upSql, diffTable, flatMap_append]
  rw [hup, runTable_append, runTable_append, runTable_alters newNames h,
    runTable_moves _ _ apart, runTable_drops _ hdropped]
  · refine congrArg some (TableState.ext rfl rfl ?_ rfl rfl rfl)
    funext name
    exact settledColumns_eq valid oldNames newNames name
  · exact altered_typed valid oldNames

end

section
variable (old new : Table)

theorem runTable_grantChanges (grants : (new.grants.map Grant.role).Nodup) {state : TableState}
    (h : state.grants = (tableState old).grants) :
    runTable new.name (upSql (new.grants.flatMap (grantChanges old new.name))) (some state) =
      some { state with
        grants := fun role =>
          (new.grant role).elim ((tableState old).grants role) fun grant =>
            given grant.privileges } := by
  rw [upSql, flatMap_assoc, runTable_updates grantsPart new.name
    (fun grant => (grantChanges old new.name grant).flatMap up)
    (fun grant found => (old.grant grant.role).elim
      (fun access => found access || given grant.privileges access) fun previous =>
        if canonicalPrivileges previous.privileges ≠ canonicalPrivileges grant.privileges then
          fun access => (found access && !given previous.privileges access) ||
            given grant.privileges access
        else found) grants]
  · refine congrArg some (TableState.ext rfl rfl rfl rfl ?_ rfl)
    funext role
    simp only [grantsPart, h]
    change (new.grant role).elim _ _ = _
    cases hnew : new.grant role with
    | none => rfl
    | some grant =>
      obtain ⟨_, hrole⟩ := KeyedLists.find_some Grant.role new.grants role grant hnew
      simp only [Option.elim_some, hrole]
      cases hold : old.grant role with
      | none =>
        funext access
        simp [tableState, hold]
      | some previous =>
        rw [Option.elim_some]
        split_ifs with hsame
        · funext access
          simp [tableState, hold]
        · have heq := congrArg given (not_not.mp hsame)
          rw [given_canonical, given_canonical] at heq
          funext access
          simp [tableState, hold, heq]
  · intro grant _ state
    simp only [grantChanges]
    cases hold : old.grant grant.role with
    | none =>
      simp [runTable, up, grantSql, Statement.onTable, onlyAt, grantsPart, given_canonical]
    | some previous =>
      simp only [Option.elim_some]
      split_ifs with hsame
      · simp [runTable, up, grantSql, revokeSql, Statement.onTable, onlyAt, grantsPart,
          given_canonical]
      · simp [runTable, grantsPart]

theorem runTable_diffGrants (oldGrants : (old.grants.map Grant.role).Nodup)
    (grants : (new.grants.map Grant.role).Nodup) (state : TableState)
    (h : state.grants = (tableState old).grants) :
    runTable new.name (upSql (diffGrants old new)) (some state) =
      some { state with grants := (tableState new).grants } := by
  have hup : upSql (diffGrants old new) = upSql (new.grants.flatMap (grantChanges old new.name)) ++
        (old.grants.filter fun grant => (new.grant grant.role).isNone).flatMap fun grant =>
          [Statement.revoke new.name grant.role
            (canonicalPrivileges (canonicalPrivileges grant.privileges))] := by
    simp only [upSql, diffGrants, flatMap_append, flatMap_map]
    rfl
  rw [hup, runTable_append, runTable_grantChanges old new grants h,
    runTable_updates grantsPart new.name
      (fun grant => [Statement.revoke new.name grant.role
        (canonicalPrivileges (canonicalPrivileges grant.privileges))])
      (fun grant found access => found access && !given grant.privileges access)
      (oldGrants.sublist (filter_sublist.map Grant.role)) (fun grant _ state => by
        simp [runTable, Statement.onTable, onlyAt, grantsPart, given_canonical])]
  refine congrArg some (TableState.ext rfl rfl rfl rfl ?_ rfl)
  funext role
  simp only [grantsPart]
  rw [KeyedLists.find_filter Grant.role old.grants oldGrants]
  change ((old.grant role).filter _).elim _ _ = _
  cases hnew : new.grant role with
  | some grant =>
    have hkeep : (old.grant role).filter (fun grant => (new.grant grant.role).isNone) = none := by
      cases hold : old.grant role with
      | none => rfl
      | some previous =>
        obtain ⟨_, hrole⟩ := KeyedLists.find_some Grant.role old.grants role previous hold
        simp [Option.filter, hrole, hnew]
    rw [hkeep]
    funext access
    simp [tableState, hnew]
  | none =>
    cases hold : old.grant role with
    | none =>
      funext access
      simp [tableState, hold, hnew]
    | some previous =>
      obtain ⟨_, hrole⟩ := KeyedLists.find_some Grant.role old.grants role previous hold
      funext access
      simp [Option.filter, tableState, hold, hrole, hnew]

theorem runTable_diffPolicies (oldPolicies : (old.policies.map Policy.name).Nodup)
    (policies : (new.policies.map Policy.name).Nodup) {state : TableState}
    (h : state.policies = old.policy) :
    runTable new.name (upSql (diffPolicies old new)) (some state) =
      some { state with policies := new.policy } := by
  have hup : upSql (diffPolicies old new) =
      ((KeyedLists.unmatched Policy.name old.policies new.policies).flatMap fun policy =>
          [Statement.dropPolicy new.name policy.name]) ++
        (KeyedLists.unmatched Policy.name new.policies old.policies).map
          (Statement.createPolicy new.name) := by
    rw [map_eq_flatMap]
    simp only [upSql, diffPolicies, flatMap_append, flatMap_map]
    rfl
  rw [hup, runTable_append, runTable_updates policiesPart new.name
      (fun policy => [Statement.dropPolicy new.name policy.name]) (fun _ _ => none)
      (KeyedLists.unmatched_nodup _ _ oldPolicies) (fun policy _ state => by
        simp [runTable, Statement.onTable, onlyAt, policiesPart]),
    run_policies _ (KeyedLists.unmatched_nodup _ _ policies)]
  refine congrArg some (TableState.ext rfl rfl rfl rfl rfl ?_)
  funext name
  simp only [policiesPart, h]
  rw [KeyedLists.find_elim_none Policy.name]
  exact KeyedLists.find_replaced Policy.name old.policies new.policies oldPolicies policies name

theorem runTable_diffTableRls (oldGrants : (old.grants.map Grant.role).Nodup)
    (grants : (new.grants.map Grant.role).Nodup)
    (oldPolicies : (old.policies.map Policy.name).Nodup)
    (policies : (new.policies.map Policy.name).Nodup) (state : TableState)
    (hrls : state.rls = old.rls) (hforce : state.forceRls = old.forceRls)
    (hgrants : state.grants = (tableState old).grants) (hpolicies : state.policies = old.policy) :
    runTable new.name (upSql (diffTableRls old new)) (some state) =
      some ⟨new.rls, new.forceRls, state.columns, state.indexes, (tableState new).grants,
        new.policy⟩ := by
  have hup : upSql (diffTableRls old new) =
      (if old.rls ≠ new.rls then [Statement.setRls new.name new.rls] else []) ++
        (if old.forceRls ≠ new.forceRls then [Statement.forceRls new.name new.forceRls] else []) ++
        upSql (diffGrants old new) ++ upSql (diffPolicies old new) := by
    simp only [upSql, diffTableRls, flatMap_append]
    congr 3 <;> split_ifs <;> rfl
  have hset : runTable new.name
      (if old.rls ≠ new.rls then [Statement.setRls new.name new.rls] else []) (some state) =
        some { state with rls := new.rls } := by
    split_ifs with hsame
    · simp [runTable, Statement.onTable, onlyAt]
    · exact congrArg some (by rw [← not_not.mp hsame, ← hrls])
  have hset' : ∀ found : TableState, found.forceRls = old.forceRls → runTable new.name
        (if old.forceRls ≠ new.forceRls then [Statement.forceRls new.name new.forceRls] else [])
        (some found) = some { found with forceRls := new.forceRls } := by
    intro found hfound
    split_ifs with hsame
    · simp [runTable, Statement.onTable, onlyAt]
    · exact congrArg some (by rw [← not_not.mp hsame, ← hfound])
  rw [hup, runTable_append, runTable_append, runTable_append, hset,
    hset' { state with rls := new.rls } hforce,
    runTable_diffGrants old new oldGrants grants
      { state with rls := new.rls, forceRls := new.forceRls } hgrants]
  exact runTable_diffPolicies old new oldPolicies policies hpolicies

def gone (old new : Table) : List String := (unmatchedIndexes old new).map Index.name

theorem runTable_diffTableIndexes (oldIndexes : (old.indexes.map Index.name).Nodup)
    (indexes : (new.indexes.map Index.name).Nodup) (state : TableState)
    (h : state.indexes = old.index) :
    runTable new.name (upSql (diffTableIndexes old new)) (some state) = some { state with
        columns := fun name => (state.columns name).map (unindexColumn (gone old new))
        indexes := new.index } := by
  have hup : upSql (diffTableIndexes old new) = (gone old new).map Statement.dropIndex ++
        (KeyedLists.unmatched Index.name new.indexes old.indexes).map
          (Statement.createTableIndex new.name) := by
    rw [gone, map_map, map_eq_flatMap, map_eq_flatMap]
    simp only [upSql, diffTableIndexes, flatMap_append, flatMap_map]
    rfl
  have hnames : ((gone old new).map Statement.dropIndex).filterMap droppedIndex = gone old new := by
    rw [filterMap_map]
    exact filterMap_some
  have hdrop := runTable_others new.name ((gone old new).map Statement.dropIndex) (by
    intro statement hmem
    obtain ⟨name, _, rfl⟩ := mem_map.mp hmem
    exact fun heq => (by cases heq)) (some state)
  rw [hnames, Option.map_some] at hdrop
  rw [hup, runTable_append, hdrop, run_tableIndexes _ (KeyedLists.unmatched_nodup _ _ indexes)]
  refine congrArg some (TableState.ext rfl rfl rfl ?_ rfl rfl)
  funext name
  simp only [unindexAll, h]
  exact KeyedLists.find_replaced Index.name old.indexes new.indexes oldIndexes indexes name

end

def keptState (kept : KeptTable) : TableState :=
  { tableState kept.new with
    columns := fun name => (settledColumns kept name).map (unindexColumn (gone kept.old kept.new)) }

theorem runTable_keptChanges {old new : Schema} (oldNames : DistinctNames old)
    (newNames : DistinctNames new) {kept : KeptTable} (comes : Comes old new kept) :
    runTable kept.new.name (upSql (keptChanges kept)) (some (tableState kept.old)) =
      some (keptState kept) := by
  have hcolumns : (tableState kept.old).columns = fun name =>
      (kept.old.column name).map (columnState kept.new.name) := by
    rw [← comes.name]
    rfl
  have hup : upSql (keptChanges kept) = upSql (diffTable kept) ++
      upSql (diffTableRls kept.old kept.new) ++ upSql (diffTableIndexes kept.old kept.new) := by
    simp only [upSql, keptChanges, flatMap_append]
  have hrls := runTable_diffTableRls kept.old kept.new (oldNames.grants _ comes.old_mem)
    (newNames.grants _ comes.new_mem) (oldNames.policies _ comes.old_mem)
    (newNames.policies _ comes.new_mem)
    { tableState kept.old with columns := settledColumns kept } rfl rfl rfl rfl
  rw [hup, runTable_append, runTable_append, runTable_diffTable comes.valid
      (oldNames.columns _ comes.old_mem) (newNames.columns _ comes.new_mem) hcolumns, hrls]
  exact runTable_diffTableIndexes kept.old kept.new (oldNames.tableIndexes comes.old_mem)
    (newNames.tableIndexes comes.new_mem)
    ⟨kept.new.rls, kept.new.forceRls, settledColumns kept, kept.old.index,
      (tableState kept.new).grants, kept.new.policy⟩ rfl

def About (table : String) (statement : Statement) : Prop :=
  tableName statement = some table ∧ droppedIndex statement = none

theorem about_createObject (table : Table) :
    ∀ statement ∈ createObjectSql table, About table.name statement := by
  intro statement hmem
  simp only [createObjectSql, mem_cons, mem_append, mem_map] at hmem
  rcases hmem with rfl | (((((⟨_, _, rfl⟩ | ⟨_, _, rfl⟩) | ⟨_, _, rfl⟩) | hmem) | hmem) |
    ⟨_, _, rfl⟩)
  · exact ⟨rfl, rfl⟩
  · exact ⟨rfl, rfl⟩
  · exact ⟨rfl, rfl⟩
  · exact ⟨rfl, rfl⟩
  · split at hmem
    · rw [mem_singleton.mp hmem]
      exact ⟨rfl, rfl⟩
    · cases hmem
  · split at hmem
    · rw [mem_singleton.mp hmem]
      exact ⟨rfl, rfl⟩
    · cases hmem
  · exact ⟨rfl, rfl⟩

variable (target table : String)

theorem about_alterType (column : Column) :
    ∀ statement ∈ alterTypeSql table column, About table statement := by
  intro statement hmem
  simp only [alterTypeSql, mem_cons, not_mem_nil, or_false] at hmem
  rcases hmem with rfl | rfl <;> exact ⟨rfl, rfl⟩

theorem about_addColumn (column : Column) :
    ∀ statement ∈ addColumnSql table column, About table statement := by
  intro statement hmem
  rcases mem_cons.mp hmem with rfl | hmem
  · exact ⟨rfl, rfl⟩
  · split at hmem
    · rw [mem_singleton.mp hmem]
      exact ⟨rfl, rfl⟩
    · cases hmem

def AllAbout (table : String) (changes : List Change) : Prop :=
  ∀ statement ∈ upSql changes, About table statement

theorem allAbout_append (first second : List Change) (hfirst : AllAbout table first)
    (hsecond : AllAbout table second) : AllAbout table (first ++ second) := by
  intro statement hmem
  rw [upSql, flatMap_append] at hmem
  rcases mem_append.mp hmem with h | h
  · exact hfirst statement h
  · exact hsecond statement h

theorem allAbout_flatMap {α : Type} (table : String) (items : List α) (changes : α → List Change)
    (h : ∀ item ∈ items, AllAbout table (changes item)) : AllAbout table (items.flatMap changes) := by
  intro statement hmem
  obtain ⟨change, hchange, hstatement⟩ := mem_flatMap.mp hmem
  obtain ⟨item, hitem, hin⟩ := mem_flatMap.mp hchange
  exact h item hitem statement (mem_flatMap.mpr ⟨change, hin, hstatement⟩)

theorem allAbout_map {α : Type} (table : String) (items : List α) (change : α → Change)
    (h : ∀ item ∈ items, ∀ statement ∈ up (change item), About table statement) :
    AllAbout table (items.map change) := by
  intro statement hmem
  obtain ⟨found, hfound, hstatement⟩ := mem_flatMap.mp hmem
  obtain ⟨item, hitem, rfl⟩ := mem_map.mp hfound
  exact h item hitem statement hstatement

theorem about_single {statement : Statement} (h : About table statement) :
    ∀ found ∈ [statement], About table found := by
  intro found hmem
  rw [mem_singleton.mp hmem]
  exact h

theorem allAbout_diffTable (kept : KeptTable) : AllAbout kept.new.name (diffTable kept) := by
  refine allAbout_append _ _ _ (allAbout_append _ _ _ ?_ ?_) ?_
  · intro statement hmem
    rw [upSql_alterChanges] at hmem
    obtain ⟨column, _, hin⟩ := mem_flatMap.mp hmem
    unfold alterStatements at hin
    split at hin
    · exact about_alterType _ column statement hin
    · cases hin
  · refine allAbout_flatMap _ _ _ fun move _ => ?_
    obtain ⟨column, source⟩ := move
    cases source with
    | none => exact allAbout_map _ [column] (Change.addColumn kept.new.name) fun item _ =>
        about_addColumn _ item
    | some source =>
      have hrename := allAbout_map kept.new.name [source]
        (fun old => Change.renameColumn kept.new.name old.name column.name column old)
        fun _ _ => about_single _ ⟨rfl, rfl⟩
      rw [moveChanges]
      dsimp only
      split_ifs with hdiffers
      · exact allAbout_append _ _ _ hrename (allAbout_map _ [column]
          (Change.alterType kept.new.name (renameKeepType source column.name)) fun item _ =>
            about_alterType _ item)
      · exact hrename
  · exact allAbout_map _ _ _ fun _ _ => about_single _ ⟨rfl, rfl⟩

theorem allAbout_diffTableRls (old new : Table) : AllAbout new.name (diffTableRls old new) := by
  have hflag : ∀ (differ : Prop) [Decidable differ] (change : Change),
      (∀ statement ∈ up change, About new.name statement) →
        AllAbout new.name (if differ then [change] else []) := by
    intro differ _ change h
    split_ifs
    · exact allAbout_map _ [change] id fun item hitem => by
        rw [mem_singleton.mp hitem]
        exact h
    · exact nofun
  refine allAbout_append _ _ _ (allAbout_append _ _ _ (allAbout_append _ _ _ ?_ ?_) ?_) ?_
  · exact hflag _ _ (about_single _ ⟨rfl, rfl⟩)
  · exact hflag _ _ (about_single _ ⟨rfl, rfl⟩)
  · refine allAbout_append _ _ _ (allAbout_flatMap _ _ _ fun grant _ => ?_)
      (allAbout_map _ _ _ fun _ _ => about_single _ ⟨rfl, rfl⟩)
    unfold grantChanges
    split
    · exact allAbout_map _ [grant] (fun grant => Change.grant new.name grant.role
        (canonicalPrivileges grant.privileges)) fun _ _ => about_single _ ⟨rfl, rfl⟩
    · rename_i previous _
      split_ifs
      · exact allAbout_append _ [_] [_]
          (allAbout_map _ [previous] (fun previous => Change.revoke new.name grant.role
            (canonicalPrivileges previous.privileges)) fun _ _ => about_single _ ⟨rfl, rfl⟩)
          (allAbout_map _ [grant] (fun grant => Change.grant new.name grant.role
            (canonicalPrivileges grant.privileges)) fun _ _ => about_single _ ⟨rfl, rfl⟩)
      · exact nofun
  · exact allAbout_append _ _ _ (allAbout_map _ _ _ fun _ _ => about_single _ ⟨rfl, rfl⟩)
      (allAbout_map _ _ _ fun _ _ => about_single _ ⟨rfl, rfl⟩)

def Silent (target : String) (statements : List Statement) : Prop :=
  ∀ statement ∈ statements, tableName statement ≠ some target ∧ droppedIndex statement = none

theorem runTable_silent {statements : List Statement} (h : Silent target statements)
    (state : Option TableState) : runTable target statements state = state := by
  induction statements generalizing state with
  | nil => rfl
  | cons statement rest ih =>
    obtain ⟨hname, hdrop⟩ := h statement mem_cons_self
    change runTable target rest (statement.onTable target state) = state
    rw [onTable_other target hname hdrop]
    exact ih (fun other hother => h other (mem_cons_of_mem statement hother)) state

theorem silent_of_about {statements : List Statement}
    (h : ∀ statement ∈ statements, About table statement) (hne : table ≠ target) :
    Silent target statements := by
  intro statement hmem
  obtain ⟨hname, hdrop⟩ := h statement hmem
  exact ⟨fun heq => hne (Option.some.inj (hname.symm.trans heq)), hdrop⟩

theorem silent_roles (roles : List Role) (change : Role → List Change)
    (h : ∀ role, ∀ found ∈ change role, (∃ old new, found = .alterRole old new) ∨
      (∃ other, found = .createRole other) ∨ ∃ other, found = .dropRole other) :
    Silent target (upSql (roles.flatMap change)) := by
  intro statement hmem
  obtain ⟨found, hfound, hstatement⟩ := mem_flatMap.mp hmem
  obtain ⟨role, _, hin⟩ := mem_flatMap.mp hfound
  rcases h role found hin with ⟨_, _, rfl⟩ | ⟨_, rfl⟩ | ⟨_, rfl⟩ <;>
  · rw [mem_singleton.mp hstatement]
    exact ⟨nofun, rfl⟩

section
variable (kept : KeptTable)

theorem upSql_keptChanges : upSql (keptChanges kept) =
    upSql (diffTable kept) ++ upSql (diffTableRls kept.old kept.new) ++
      ((gone kept.old kept.new).map Statement.dropIndex ++
        (unmatchedIndexes kept.new kept.old).map (Statement.createTableIndex kept.new.name)) := by
  rw [gone, map_map, map_eq_flatMap, map_eq_flatMap]
  simp only [upSql, keptChanges, diffTableIndexes, flatMap_append, flatMap_map]
  rfl

theorem keptChanges_others (target : String) (hne : kept.new.name ≠ target) :
    ∀ statement ∈ upSql (keptChanges kept), tableName statement ≠ some target := by
  intro statement hmem
  rw [upSql_keptChanges] at hmem
  rcases mem_append.mp hmem with hmem | hmem
  · rcases mem_append.mp hmem with hmem | hmem
    · exact (silent_of_about target _ (allAbout_diffTable kept) hne statement hmem).1
    · exact (silent_of_about target _ (allAbout_diffTableRls kept.old kept.new) hne statement
        hmem).1
  · rcases mem_append.mp hmem with hmem | hmem
    · obtain ⟨name, _, rfl⟩ := mem_map.mp hmem
      exact nofun
    · obtain ⟨index, _, rfl⟩ := mem_map.mp hmem
      exact fun heq => hne (Option.some.inj heq)

theorem droppedIndex_about {table : String} {statements : List Statement}
    (h : ∀ statement ∈ statements, About table statement) :
    statements.filterMap droppedIndex = [] :=
  filterMap_eq_nil_iff.mpr fun statement hmem => (h statement hmem).2

theorem keptChanges_dropped :
    (upSql (keptChanges kept)).filterMap droppedIndex = gone kept.old kept.new := by
  rw [upSql_keptChanges]
  simp only [filterMap_append]
  rw [droppedIndex_about (allAbout_diffTable kept),
    droppedIndex_about (allAbout_diffTableRls kept.old kept.new), filterMap_map,
    filterMap_map]
  have hnames : (gone kept.old kept.new).filterMap (droppedIndex ∘ Statement.dropIndex) =
      gone kept.old kept.new := filterMap_some
  have hnone : (unmatchedIndexes kept.new kept.old).filterMap
      (droppedIndex ∘ Statement.createTableIndex kept.new.name) = [] :=
    filterMap_eq_nil_iff.mpr fun _ _ => rfl
  rw [hnames, hnone]
  simp

end

theorem keptChanges_tables (kept : KeptTable) : ∀ statement ∈ upSql (keptChanges kept),
    tableName statement ≠ none ∨ droppedIndex statement ≠ none := by
  intro statement hmem
  rw [upSql_keptChanges] at hmem
  rcases mem_append.mp hmem with hmem | hmem
  · rcases mem_append.mp hmem with hmem | hmem
    · exact .inl fun h => (by cases (allAbout_diffTable kept statement hmem).1.symm.trans h)
    · exact .inl fun h =>
        (by cases (allAbout_diffTableRls kept.old kept.new statement hmem).1.symm.trans h)
  · rcases mem_append.mp hmem with hmem | hmem
    · obtain ⟨name, _, rfl⟩ := mem_map.mp hmem
      exact .inr nofun
    · obtain ⟨index, _, rfl⟩ := mem_map.mp hmem
      exact .inl nofun

/-- The index names that the tables of a list drop. -/
def goneAll (kepts : List KeptTable) : List String :=
  kepts.flatMap fun kept => gone kept.old kept.new

theorem runTable_kepts {kepts : List KeptTable} {target : String}
    (hne : target ∉ kepts.map fun kept => kept.new.name) (state : Option TableState) :
    runTable target (upSql (kepts.flatMap keptChanges)) state =
      state.map (unindexAll (goneAll kepts)) := by
  have hdropped : (upSql (kepts.flatMap keptChanges)).filterMap droppedIndex = goneAll kepts := by
    rw [upSql, flatMap_assoc, goneAll, filterMap_flatMap]
    congr 1
    funext kept
    exact keptChanges_dropped kept
  rw [← hdropped]
  refine runTable_others target _ ?_ state
  intro statement hmem
  rw [upSql, flatMap_assoc] at hmem
  obtain ⟨kept, hkept, hin⟩ := mem_flatMap.mp hmem
  exact keptChanges_others kept target (fun heq => hne (mem_map.mpr ⟨kept, hkept, heq⟩))
    statement hin

section
variable {σ : Type} (resolver : Resolver σ) (state : σ) (old new : Schema)

theorem keptTables_comes (kept : KeptTable)
    (h : kept ∈ keptTables resolver old state new.tables) : Comes old new kept := by
  obtain ⟨valid, hold⟩ := keptTables_mem resolver old state new.tables kept h
  obtain ⟨hmem, hname⟩ := KeyedLists.find_some Table.name old.tables _ _ hold
  refine ⟨valid, hname, hmem, ?_⟩
  have hnew : kept.new ∈ (keptTables resolver old state new.tables).map KeptTable.new :=
    mem_map_of_mem h
  rw [keptTables_new] at hnew
  exact (mem_filter.mp hnew).1

theorem keptTables_names (newNames : DistinctNames new) :
    ((keptTables resolver old state new.tables).map fun kept => kept.new.name).Nodup := by
  have hnames : ((keptTables resolver old state new.tables).map fun kept => kept.new.name) =
      ((keptTables resolver old state new.tables).map KeptTable.new).map Table.name := by
    rw [map_map]
    rfl
  rw [hnames, keptTables_new]
  exact newNames.tables.sublist (filter_sublist.map Table.name)

theorem mem_keptNames (target : String) :
    (target ∈ (keptTables resolver old state new.tables).map fun kept => kept.new.name) ↔
      (old.table target).isSome ∧ (new.table target).isSome := by
  have hnames : ((keptTables resolver old state new.tables).map fun kept => kept.new.name) =
      ((keptTables resolver old state new.tables).map KeptTable.new).map Table.name := by
    rw [map_map]
    rfl
  rw [hnames, keptTables_new,
    KeyedLists.mem_map_filter Table.name new.tables (fun name => (old.table name).isSome),
    ← KeyedLists.find_isSome Table.name, and_comm]
  rfl

theorem upSql_diff : upSql (diff resolver state old new) =
    upSql (new.roles.flatMap (roleChanges old)) ++
      (topoSortCreates (unmatchedTables old new)).reverse.map
        (fun table => Statement.dropTable table.name) ++
      (topoSortCreates (unmatchedTables new old)).flatMap createObjectSql ++
      upSql ((keptTables resolver old state new.tables).flatMap keptChanges) ++
      upSql ((old.roles.filter fun role => (new.role role.name).isNone).map Change.dropRole) := by
  rw [map_eq_flatMap (f := fun table : Table => Statement.dropTable table.name)]
  simp only [upSql, diff, flatMap_append, flatMap_map]
  rfl

end

theorem runTable_dropTables (target : String) (tables : List Table) (state : Option TableState) :
    runTable target (tables.map fun table => Statement.dropTable table.name) state =
      if target ∈ tables.map Table.name then none else state := by
  induction tables generalizing state with
  | nil => rfl
  | cons table rest ih =>
    change runTable target (rest.map _) ((Statement.dropTable table.name).onTable target state) = _
    rw [ih, Statement.onTable, map_cons]
    by_cases hin : target ∈ rest.map Table.name
    · rw [if_pos hin, if_pos (mem_cons_of_mem _ hin)]
    · rw [if_neg hin]
      by_cases heq : table.name = target
      · rw [if_pos heq, if_pos]
        rw [heq]
        exact mem_cons_self
      · rw [if_neg heq, if_neg]
        intro hmem
        rcases mem_cons.mp hmem with h | h
        · exact heq h.symm
        · exact hin h

theorem runTable_createTables {new : Schema} (names : DistinctNames new) (target : String)
    {tables : List Table} (nodup : (tables.map Table.name).Nodup)
    (hsub : ∀ table ∈ tables, table ∈ new.tables) (state : Option TableState) :
    runTable target (tables.flatMap createObjectSql) state =
      (tables.find? fun table => table.name = target).elim state fun table =>
        some (builtTable table) := by
  induction tables generalizing state with
  | nil => rfl
  | cons table rest ih =>
    obtain ⟨hout, hrest⟩ := nodup_cons.mp nodup
    have hmem := hsub table mem_cons_self
    rw [flatMap_cons, runTable_append, ih hrest fun other hother =>
      hsub other (mem_cons_of_mem table hother), List.find?_cons]
    by_cases heq : table.name = target
    · have hnone : rest.find? (fun table => table.name = target) = none :=
        (KeyedLists.find_none Table.name rest target).mpr (heq ▸ hout)
      rw [hnone, ← heq, runTable_createObject (names.columns _ hmem)
        (names.tableIndexes hmem) (names.grants _ hmem) (names.policies _ hmem)]
      simp
    · rw [runTable_silent target (silent_of_about target _ (about_createObject table) heq)]
      simp [heq]

theorem find_topoSort {schema : Schema} (other : Schema) (names : DistinctNames schema)
    (target : String) :
    (topoSortCreates (unmatchedTables schema other)).find? (fun table => table.name = target) =
      (schema.table target).filter fun _ => (other.table target).isNone := by
  have hperm := topoSortCreates_perm (unmatchedTables schema other)
  have hnodup : ((topoSortCreates (unmatchedTables schema other)).map Table.name).Nodup := by
    rw [(hperm.map Table.name).nodup_iff]
    exact names.tables.sublist (filter_sublist.map Table.name)
  have hmem : ∀ table, table ∈ topoSortCreates (unmatchedTables schema other) ↔
      table ∈ schema.tables ∧ other.table table.name = none := by
    intro table
    rw [hperm.mem_iff]
    simp [unmatchedTables]
  ext table
  rw [KeyedLists.find_eq_some_iff Table.name _ hnodup, hmem, Option.filter_eq_some_iff]
  constructor
  · rintro ⟨⟨hin, hnone⟩, rfl⟩
    exact ⟨table_self names hin, by rw [hnone]; rfl⟩
  · rintro ⟨hfind, hnone⟩
    obtain ⟨hin, rfl⟩ := KeyedLists.find_some Table.name schema.tables target table hfind
    exact ⟨⟨hin, Option.isNone_iff_eq_none.mp hnone⟩, rfl⟩

section
variable {σ : Type} (resolver : Resolver σ) (state : σ) (old new : Schema)
  (oldNames : DistinctNames old) (newNames : DistinctNames new)
include oldNames newNames

/-- Before the tables of both schemas are changed, the dropped ones are gone and the
created ones are there. -/
theorem runTable_diff (target : String) :
    runTable target (upSql (diff resolver state old new)) ((catalogOf old).tables target) =
      runTable target (upSql ((keptTables resolver old state new.tables).flatMap keptChanges))
        (match old.table target, new.table target with
        | none, created => created.map builtTable
        | some _, none => none
        | some previous, some _ => some (tableState previous)) := by
  have hroles : Silent target (upSql (new.roles.flatMap (roleChanges old))) := by
    refine silent_roles target new.roles _ fun role found hfound => ?_
    unfold roleChanges at hfound
    split at hfound
    · exact .inr (.inl ⟨role, mem_singleton.mp hfound⟩)
    · split at hfound
      · exact .inl ⟨_, _, mem_singleton.mp hfound⟩
      · cases hfound
  have hdropped : Silent target (upSql ((old.roles.filter fun role =>
      (new.role role.name).isNone).map Change.dropRole)) := by
    rw [map_eq_flatMap]
    refine silent_roles target _ _ fun role found hfound => ?_
    exact .inr (.inr ⟨role, mem_singleton.mp hfound⟩)
  have hcreates : ((topoSortCreates (unmatchedTables new old)).map Table.name).Nodup := by
    rw [((topoSortCreates_perm _).map Table.name).nodup_iff]
    exact newNames.tables.sublist (filter_sublist.map Table.name)
  have hsub : ∀ table ∈ topoSortCreates (unmatchedTables new old), table ∈ new.tables := by
    intro table hmem
    exact (mem_filter.mp ((topoSortCreates_perm _).mem_iff.mp hmem)).1
  have hgone : target ∈ (topoSortCreates (unmatchedTables old new)).reverse.map Table.name ↔
      (old.table target).isSome ∧ new.table target = none := by
    rw [map_reverse, mem_reverse, ← not_iff_not,
      ← KeyedLists.find_none Table.name, find_topoSort new oldNames]
    cases old.table target <;> cases new.table target <;> simp [Option.filter]
  rw [upSql_diff]
  simp only [runTable_append]
  rw [runTable_silent target hdropped, runTable_silent target hroles, runTable_dropTables,
    runTable_createTables newNames target hcreates hsub, find_topoSort old newNames]
  congr 1
  simp only [catalogOf, hgone]
  cases old.table target <;> cases new.table target <;> simp [Option.filter]

end

end Stakit.MigrationTables
