import Stakit.MigrationKept

set_option autoImplicit false

namespace Stakit.MigrationApplies
open SchemaModel SchemaDiff MigrationStatements MigrationRuns MigrationTables MigrationTarget List
open PostgresRules MigrationOrder MigrationStages MigrationKept

section
variable {before : Catalog} (after : Catalog) (table : String) (alike : Alike before after table)
include alike

theorem alike_there : after.tables table = none ↔ before.tables table = none := by
  have hsame := alike.1
  rw [← Option.map_eq_none_iff (f := core), hsame, Option.map_eq_none_iff]

theorem alike_hasColumn (column : String) :
    HasColumn after table column ↔ HasColumn before table column := by
  cases hstate : before.tables table with
  | none =>
    have hnone := (alike_there after table alike).mpr hstate
    simp [HasColumn, hstate, hnone]
  | some state =>
    have looks := looks_self before table state hstate
    rw [looks.hasColumn, (alike.looks looks).hasColumn]

theorem alike_uses (name : String) : Uses after table name ↔ Uses before table name := by
  cases hstate : before.tables table with
  | none =>
    have hnone := (alike_there after table alike).mpr hstate
    simp [Uses, hstate, hnone]
  | some state =>
    have looks := looks_self before table state hstate
    exact ((alike.looks looks).usesIndex name).trans
      (looks.usesIndex name).symm

end

theorem alike_about {table target : String} (hne : target ≠ table) (statements : List Statement)
    (about : ∀ statement ∈ statements, About table statement) (catalog : Catalog) :
    Alike catalog (executeAll statements catalog) target :=
  alike_executeAll target catalog (silent_of_about target table about hne.symm)

/-- A column is added where the target of its key is there and the name of its index is
free. -/
structure MoveReady (before : List KeptTable) (kept : KeptTable) (after : List KeptTable)
    (first : List Move) (move : Move) : Prop where
  others : ∀ fk, move.column.references = some fk → ∀ other ∈ after, other.new.name = fk.table →
    other.old.column fk.column ≠ none
  own : ∀ fk, move.column.references = some fk → fk.table = kept.new.name →
    kept.old.column fk.column ≠ none ∨
      fk.column ∈ (first ++ [move]).map fun move => move.column.name
  lingers : move.column.index = true → ∀ other ∈ before,
    indexName kept.new.name move.column.name ∉ lingering other
  pending : move.column.index = true → ∀ other ∈ kept :: after,
    indexName kept.new.name move.column.name ∉ indexNames other.old

structure KeptReady (before : List KeptTable) (kept : KeptTable) (after : List KeptTable) :
    Prop where
  moves : ∀ first move rest, kept.moves = first ++ move :: rest → move.source = none →
    MoveReady before kept after first move
  drops : ∀ index ∈ unmatchedIndexes kept.old kept.new, ∀ column ∈ kept.dropped,
    column.name ∉ index.columns
  columns : ∀ index ∈ unmatchedIndexes kept.new kept.old, ∀ column ∈ index.columns,
    kept.new.column column ≠ none
  lingers : ∀ index ∈ unmatchedIndexes kept.new kept.old, ∀ other ∈ before ++ [kept],
    index.name ∉ lingering other
  pending : ∀ index ∈ unmatchedIndexes kept.new kept.old, ∀ other ∈ after,
    index.name ∉ indexNames other.old

def bare (table : Table) : Entry := ⟨table, []⟩

def keptEntry (kept : KeptTable) : Entry := ⟨kept.new, lingering kept⟩

def settledEntries (old new : Schema) (before : List KeptTable) : List Entry :=
  (topoSortCreates (unmatchedTables new old)).map bare ++ before.map keptEntry

theorem mem_lingers (old new : Schema) (before : List KeptTable) (name : String) :
    (∃ entry ∈ settledEntries old new before, name ∈ entry.lingering) ↔
      ∃ other ∈ before, name ∈ lingering other := by
  simp only [settledEntries, mem_append, mem_map]
  constructor
  · rintro ⟨_, ⟨table, _, rfl⟩ | ⟨other, hother, rfl⟩, hname⟩
    · cases hname
    · exact ⟨other, hother, hname⟩
  · rintro ⟨other, hother, hname⟩
    exact ⟨_, .inr ⟨other, hother, rfl⟩, hname⟩

section
variable {old new : Schema} {kepts : List KeptTable} (setting : Setting old new kepts)
  {before : List KeptTable} (kept : KeptTable) {after : List KeptTable}
  (split : kepts = before ++ kept :: after)
include setting split

theorem split_comes : Comes old new kept ∧ (∀ other ∈ before, Comes old new other) ∧
    ∀ other ∈ after, Comes old new other := by
  refine ⟨setting.comes kept ?_, fun other hother => setting.comes other ?_,
    fun other hother => setting.comes other ?_⟩
  · rw [split]
    exact mem_append_right before mem_cons_self
  · rw [split]
    exact mem_append_left _ hother
  · rw [split]
    exact mem_append_right before (mem_cons_of_mem kept hother)

theorem split_names : (∀ other ∈ before, other.new.name ≠ kept.new.name) ∧
    ∀ other ∈ after, other.new.name ≠ kept.new.name := by
  have hnodup := setting.names
  rw [split, map_append, map_cons] at hnodup
  obtain ⟨_, hcons, hdisjoint⟩ := nodup_append.mp hnodup
  refine ⟨fun other hother heq => ?_, fun other hother heq => ?_⟩
  · exact hdisjoint _ (mem_map_of_mem hother) _ mem_cons_self heq
  · exact (nodup_cons.mp hcons).1 (heq ▸ mem_map_of_mem hother)

theorem entry_table (entry : Entry) (hentry : entry ∈ settledEntries old new before) :
    entry.table ∈ new.tables ∧ entry.table.name ≠ kept.new.name := by
  obtain ⟨_, hbefore, _⟩ := split_comes setting kept split
  rcases mem_append.mp hentry with hentry | hentry
  · obtain ⟨table, htable, rfl⟩ := mem_map.mp hentry
    obtain ⟨hmem, hold⟩ := (mem_created old new table).mp htable
    refine ⟨hmem, (created_not_kept setting hold kept ?_).symm⟩
    rw [split]
    exact mem_append_right before mem_cons_self
  · obtain ⟨other, hother, rfl⟩ := mem_map.mp hentry
    exact ⟨(hbefore other hother).new_mem, (split_names setting kept split).1 other hother⟩

theorem old_indexNames {other : KeptTable} (hother : other ∈ after) {name : String}
    (h : name ∈ indexNames kept.old) : name ∉ indexNames other.old := by
  obtain ⟨comes, _, hafter⟩ := split_comes setting kept split
  refine indexNames_disjoint old setting.oldFormed.indexes comes.old_mem
    (hafter other hother).old_mem (fun heq => ?_) h
  have hname := congrArg Table.name heq
  rw [comes.name, (hafter other hother).name] at hname
  exact (split_names setting kept split).2 other hother hname.symm

section
variable (catalog : Catalog) (stage : At (settledEntries old new before) (kept :: after) catalog)
  (found : Catalog) (others : ∀ target, target ≠ kept.new.name → Alike catalog found target)
include stage others

theorem used_around {name : String} (hnew : name ∈ indexNames kept.new) :
    IndexUsed found name ↔ (∃ other ∈ before, name ∈ lingering other) ∨
      Uses found kept.new.name name ∨ ∃ other ∈ after, name ∈ indexNames other.old := by
  obtain ⟨comes, _, hafter⟩ := split_comes setting kept split
  obtain ⟨_, hafterNames⟩ := split_names setting kept split
  have hentry := entry_table setting kept split
  have hpending : ∀ other ∈ after, Uses found other.new.name name ↔ name ∈ indexNames other.old := by
    intro other hother
    rw [alike_uses found _ (others _ (hafterNames other hother)), ← usesIndex_tableState
        (setting.oldFormed.names.columns _ (hafter other hother).old_mem)]
    exact (stage.pending other (mem_cons_of_mem kept hother)).usesIndex name
  rw [← mem_lingers old new before]
  constructor
  · rintro ⟨target, state, hstate, huses⟩
    have hused : Uses found target name := ⟨state, hstate, huses⟩
    by_cases heq : target = kept.new.name
    · exact .inr (.inl (heq ▸ hused))
    have hthere : catalog.tables target ≠ none := by
      intro hnone
      rw [← alike_there found target (others target heq), hstate] at hnone
      cases hnone
    rcases stage.only target hthere with ⟨entry, hmem, rfl⟩ | ⟨other, hother, rfl⟩
    · rw [alike_uses found _ (others _ heq)] at hused
      refine .inl ⟨entry, hmem, ((stage.settled entry hmem).uses name hused).resolve_right ?_⟩
      exact new_indexNames setting comes.new_mem
        (hentry entry hmem).1 (hentry entry hmem).2.symm hnew
    · rcases mem_cons.mp hother with rfl | hother
      · exact absurd rfl heq
      · exact .inr (.inr ⟨other, hother, (hpending other hother).mp hused⟩)
  · rintro (⟨entry, hmem, hname⟩ | hused | ⟨other, hother, hname⟩)
    · refine ⟨entry.table.name, ?_⟩
      exact (alike_uses found _ (others _ (hentry entry hmem).2) name).mpr
        ((stage.settled entry hmem).lingers name hname)
    · exact ⟨_, hused⟩
    · exact ⟨_, (hpending other hother).mpr hname⟩

theorem hasColumn_around {target : Table} (htarget : target ∈ new.tables)
    (hne : target.name ≠ kept.new.name) {column : String} (hcolumn : target.column column ≠ none) :
    HasColumn found target.name column ↔
      ∀ other ∈ after, other.new.name = target.name → other.old.column column ≠ none := by
  obtain ⟨_, hbefore, hafter⟩ := split_comes setting kept split
  have hdistinct : ∀ other ∈ kepts, ∀ another ∈ kepts, other.new.name = another.new.name →
      other = another := fun other hother another hanother heq =>
    inj_on_of_nodup_map setting.names hother hanother heq
  have hafterMem : ∀ other ∈ after, other ∈ kepts := by
    intro other hother
    rw [split]
    exact mem_append_right before (mem_cons_of_mem kept hother)
  rw [alike_hasColumn found _ (others _ hne)]
  rcases created_or_kept setting htarget with hcreated | ⟨other, hother, rfl⟩
  · have hsettled := stage.settled (bare target)
      (mem_append_left _ (mem_map_of_mem hcreated))
    refine iff_of_true ((hsettled.columns column).mpr hcolumn) fun other hother heq => ?_
    exact absurd heq (created_not_kept setting
      ((mem_created old new target).mp hcreated).2 other (hafterMem other hother))
  · have hin := hother
    rw [split] at hin
    rcases mem_append.mp hin with hin | hin
    · have hsettled := stage.settled (keptEntry other)
        (mem_append_right _ (mem_map_of_mem hin))
      refine iff_of_true ((hsettled.columns column).mpr hcolumn) fun another hanother heq => ?_
      have hsame := hdistinct another (hafterMem another hanother) other hother heq
      have hnodup := setting.names
      rw [split, map_append, map_cons] at hnodup
      refine absurd rfl ((nodup_append.mp hnodup).2.2 _ (mem_map_of_mem hin) _
        (mem_cons_of_mem _ (hsame ▸ mem_map_of_mem hanother)))
    · rcases mem_cons.mp hin with rfl | hin
      · exact absurd rfl hne
      · rw [(stage.pending other (mem_cons_of_mem kept hin)).hasColumn]
        have hthere : (tableState other.old).columns column ≠ none ↔
            other.old.column column ≠ none := by
          simp [tableState]
        rw [hthere]
        constructor
        · intro h another hanother heq
          rwa [hdistinct another (hafterMem another hanother) other hother heq]
        · intro h
          exact h other hin rfl

end

def movingSql (first : List Move) : List Statement :=
  upSql (alterChanges kept.old kept.new) ++ upSql (first.flatMap (moveChanges kept.new.name))

omit setting split in
theorem about_movingSql {first rest : List Move} (hmoves : kept.moves = first ++ rest) :
    ∀ statement ∈ movingSql kept first, About kept.new.name statement := by
  intro statement hmem
  refine allAbout_diffTable kept statement ?_
  simp only [movingSql, diffTable, hmoves, upSql, flatMap_append, mem_append] at hmem ⊢
  tauto

section
variable (catalog : Catalog) (stage : At (settledEntries old new before) (kept :: after) catalog)
  (first : List Move) (move : Move) (rest : List Move) (hmoves : kept.moves = first ++ move :: rest)
include stage hmoves

theorem applies_added (hnone : move.source = none) :
    Applies (upSql (moveChanges kept.new.name move)) (executeAll (movingSql kept first) catalog) ↔
      MoveReady before kept after first move := by
  obtain ⟨comes, _, _⟩ := split_comes setting kept split
  have oldNames := setting.oldFormed.names
  have newNames := setting.newFormed.names
  have hmove : move ∈ kept.moves := by
    rw [hmoves]
    exact mem_append_right first mem_cons_self
  obtain ⟨hself, hfresh⟩ := move_new newNames kept comes hmove
  obtain ⟨hcolumnMem, _⟩ := KeyedLists.find_some Column.name _ _ _ hself
  have looks := looks_moving oldNames newNames kept comes hmoves
    (stage.pending kept mem_cons_self)
  let moving := executeAll (movingSql kept first) catalog
  let added := execute (.addColumn kept.new.name (columnDdl move.column)) moving
  let addedState := (movingState kept first).setColumn move.column.name
    (some ((columnDdl move.column).state false))
  have haddedLooks : Looks added kept.new.name addedState := by
    refine looks_executeAll kept.new.name [.addColumn kept.new.name (columnDdl move.column)] moving
      (movingState kept first) addedState _ looks ?_ rfl
    simp [runTable, Statement.onTable, onlyAt, addedState, columnDdl]
  have hothers : ∀ target, target ≠ kept.new.name → Alike catalog added target := by
    intro target hne
    have habout : ∀ statement ∈ movingSql kept first ++
        [.addColumn kept.new.name (columnDdl move.column)], About kept.new.name statement := by
      intro statement hmem
      rcases mem_append.mp hmem with hmem | hmem
      · exact about_movingSql kept hmoves statement hmem
      · rw [mem_singleton.mp hmem]
        exact ⟨rfl, rfl⟩
    have hrun : added = executeAll (movingSql kept first ++
        [.addColumn kept.new.name (columnDdl move.column)]) catalog := by
      rw [executeAll, GuardedRuns.run_append]
      rfl
    rw [hrun]
    exact alike_about hne _ habout catalog
  have hgone : (movingState kept first).columns move.column.name = none := by
    by_contra hthere
    rcases (moving_column oldNames kept comes first (move :: rest) hmoves move.column.name
      (by rw [hself]; exact fun h => (by cases h))).mp hthere with hold | hin
    · exact hold hfresh
    · have hnodup := (kept_apart oldNames newNames kept comes).names
      rw [hmoves, map_append, map_cons] at hnodup
      exact (nodup_append.mp hnodup).2.2 _ hin _ mem_cons_self rfl
  have hkeys : Ready (.addColumn kept.new.name (columnDdl move.column)) moving ↔
      ∀ fk, move.column.references = some fk →
        (∀ other ∈ after, other.new.name = fk.table → other.old.column fk.column ≠ none) ∧
        (fk.table = kept.new.name → kept.old.column fk.column ≠ none ∨
          fk.column ∈ (first ++ [move]).map fun move => move.column.name) := by
    change (∀ ddl ∈ [columnDdl move.column], ∀ fk, ddl.references = some fk →
      HasColumn added fk.table fk.column) ↔ _
    rw [forall_mem_singleton]
    refine forall₂_congr fun fk hfk => ?_
    obtain ⟨target, htarget, hthere⟩ :=
      setting.newFormed.keys kept.new comes.new_mem move.column hcolumnMem fk hfk
    obtain ⟨htargetMem, hname⟩ := KeyedLists.find_some Table.name new.tables fk.table target htarget
    by_cases hown : fk.table = kept.new.name
    · have hsame : target = kept.new := by
        rw [hown, table_self newNames comes.new_mem] at htarget
        exact (Option.some.inj htarget).symm
      have hafter : ∀ other ∈ after, other.new.name = fk.table → other.old.column fk.column ≠ none :=
        fun other hother heq => absurd (heq.trans hown)
          ((split_names setting kept split).2 other hother)
      rw [hown, haddedLooks.hasColumn, and_iff_right (hown ▸ hafter), forall_prop_of_true rfl]
      simp only [addedState, TableState.setColumn]
      by_cases heq : fk.column = move.column.name
      · rw [heq]
        simp
      · rw [Function.update_of_ne heq, moving_column oldNames kept comes first (move :: rest)
          hmoves _ (hsame ▸ hthere)]
        simp [heq]
    · rw [← hname, hasColumn_around setting kept split catalog stage added
        hothers htargetMem (by rw [hname]; exact hown) hthere]
      exact (and_iff_left fun h => absurd (hname.symm.trans h) hown).symm
  have huses : Uses added kept.new.name (indexName kept.new.name move.column.name) ↔
      indexName kept.new.name move.column.name ∈ indexNames kept.old := by
    have hlooks : Uses added kept.new.name (indexName kept.new.name move.column.name) ↔
        UsesIndex addedState (indexName kept.new.name move.column.name) := haddedLooks.usesIndex _
    have hmoving := moving_uses oldNames newNames kept comes first (move :: rest) hmoves
      (indexName kept.new.name move.column.name)
    have hearlier : ¬∃ other ∈ first, other.source = none ∧ other.column.index = true ∧
        indexName kept.new.name other.column.name = indexName kept.new.name move.column.name := by
      rintro ⟨other, hother, _, _, heq⟩
      have hnodup := (kept_apart oldNames newNames kept comes).names
      rw [hmoves, map_append, map_cons] at hnodup
      exact (nodup_append.mp hnodup).2.2 _ (mem_map_of_mem hother) _ mem_cons_self
        (indexName_injective _ heq)
    rw [or_iff_left hearlier] at hmoving
    rw [hlooks, ← hmoving, usesIndex_iff, usesIndex_iff]
    refine or_congr Iff.rfl (exists_congr fun target => ?_)
    by_cases heq : target = move.column.name
    · simp [columnIndexName, addedState, TableState.setColumn, heq, hgone, columnDdl, ColumnDdl.state]
    · simp [columnIndexName, addedState, TableState.setColumn, heq]
  have hindex : move.column.index = true → (Ready (createIndexSql kept.new.name move.column) added ↔
        (∀ other ∈ before, indexName kept.new.name move.column.name ∉ lingering other) ∧
        ∀ other ∈ kept :: after, indexName kept.new.name move.column.name ∉ indexNames other.old) := by
    intro hflag
    change HasColumn added kept.new.name move.column.name ∧ ¬IndexUsed added _ ↔ _
    rw [haddedLooks.hasColumn, used_around setting kept split catalog stage
      added hothers ((mem_indexNames kept.new _).mpr (.inl ⟨move.column, hcolumnMem, hflag, rfl⟩)),
      huses, and_iff_right (by simp [addedState, TableState.setColumn])]
    simp only [not_or, forall_mem_cons, not_exists, not_and]
  have hup : upSql (moveChanges kept.new.name move) = .addColumn kept.new.name (columnDdl move.column) ::
      if move.column.index then [createIndexSql kept.new.name move.column] else [] := by
    simp [upSql, moveChanges, hnone, up, addColumnSql]
  rw [hup, Applies, GuardedRuns.Applies]
  change Ready _ moving ∧ Applies _ added ↔ _
  rw [hkeys]
  cases hflag : move.column.index with
  | false =>
    simp only [Bool.false_eq_true, if_false]
    constructor
    · rintro ⟨keys, _⟩
      exact ⟨fun fk hfk => (keys fk hfk).1, fun fk hfk => (keys fk hfk).2,
        fun h => (by rw [hflag] at h; cases h), fun h => (by rw [hflag] at h; cases h)⟩
    · intro ready
      exact ⟨fun fk hfk => ⟨ready.others fk hfk, ready.own fk hfk⟩, trivial⟩
  | true =>
    simp only [if_true]
    change _ ∧ Ready _ added ∧ True ↔ _
    rw [and_true, hindex hflag]
    constructor
    · rintro ⟨keys, lingers, pending⟩
      exact ⟨fun fk hfk => (keys fk hfk).1, fun fk hfk => (keys fk hfk).2, fun _ => lingers,
        fun _ => pending⟩
    · intro ready
      exact ⟨fun fk hfk => ⟨ready.others fk hfk, ready.own fk hfk⟩, ready.lingers hflag,
        ready.pending hflag⟩

end

omit setting split in
theorem mild_renamed (table : String) {move : Move} (hsource : move.source ≠ none)
    (catalog : Catalog) : Applies (upSql (moveChanges table move)) catalog := by
  obtain ⟨source, hsome⟩ := Option.ne_none_iff_exists'.mp hsource
  refine GuardedRuns.applies_of_free Ready execute _ (fun statement hmem => ?_) catalog
  rw [moveChanges, hsome] at hmem
  dsimp only at hmem
  split_ifs at hmem
  · simp only [upSql, flatMap_cons, flatMap_nil, up, append_nil, singleton_append, mem_cons] at hmem
    rcases hmem with rfl | hmem
    · exact fun _ => trivial
    · exact (mild_alterType table move.column statement hmem).ready
  · rw [mem_singleton.mp hmem]
    exact fun _ => trivial

section
variable {catalog : Catalog} (stage : At (settledEntries old new before) (kept :: after) catalog)
include stage

theorem applies_diffTable : Applies (upSql (diffTable kept)) catalog ↔
    ∀ first move rest, kept.moves = first ++ move :: rest → move.source = none →
      MoveReady before kept after first move := by
  have hup : upSql (diffTable kept) = upSql (alterChanges kept.old kept.new) ++
      kept.moves.flatMap (fun move => upSql (moveChanges kept.new.name move)) ++
      upSql (kept.dropped.map (Change.dropColumn kept.new.name)) := by
    simp only [upSql, diffTable, flatMap_append, flatMap_assoc]
  have hdrops : ∀ statement ∈ upSql (kept.dropped.map (Change.dropColumn kept.new.name)),
      ∀ found, Ready statement found := by
    intro statement hmem
    obtain ⟨change, hchange, hstatement⟩ := mem_flatMap.mp hmem
    obtain ⟨column, _, rfl⟩ := mem_map.mp hchange
    rw [mem_singleton.mp hstatement]
    exact fun _ => trivial
  rw [hup, Applies, GuardedRuns.applies_append, GuardedRuns.applies_append,
    and_iff_left (GuardedRuns.applies_of_free Ready execute _ hdrops _),
    and_iff_right (applies_mild _ (mild_alterChanges kept.old kept.new) catalog),
    GuardedRuns.applies_rounds]
  refine forall₃_congr fun first move rest => ?_
  refine forall_congr' fun hmoves => ?_
  have hrun : GuardedRuns.run execute
      (first.flatMap fun move => upSql (moveChanges kept.new.name move))
      (GuardedRuns.run execute (upSql (alterChanges kept.old kept.new)) catalog) =
        executeAll (movingSql kept first) catalog := by
    have hflat : upSql (first.flatMap (moveChanges kept.new.name)) =
        first.flatMap fun move => upSql (moveChanges kept.new.name move) := by
      rw [upSql, flatMap_assoc]
      rfl
    rw [movingSql, executeAll, GuardedRuns.run_append, hflat]
  change Applies _ (GuardedRuns.run execute _ _) ↔ _
  rw [nil_append, hrun]
  by_cases hnone : move.source = none
  · rw [applies_added setting kept split catalog stage first move rest
      hmoves hnone, forall_prop_of_true hnone]
  · exact iff_of_true (mild_renamed kept.new.name hnone _) fun h => absurd h hnone

omit setting split stage in
def securedSql : List Statement :=
  upSql (diffTable kept) ++ upSql (diffTableRls kept.old kept.new)

omit setting split stage in
theorem about_securedSql : ∀ statement ∈ securedSql kept, About kept.new.name statement := by
  intro statement hmem
  rcases mem_append.mp hmem with hmem | hmem
  · exact allAbout_diffTable kept statement hmem
  · exact allAbout_diffTableRls kept.old kept.new statement hmem

variable (catalog) in
omit setting split stage in
theorem alike_secured {target : String} (hne : target ≠ kept.new.name) :
    Alike catalog (executeAll (securedSql kept) catalog) target :=
  alike_about hne _ (about_securedSql kept) catalog

theorem secured_looks :
    Looks (executeAll (securedSql kept) catalog) kept.new.name (settledState kept) :=
  looks_settled setting.oldFormed.names setting.newFormed.names kept
    (split_comes setting kept split).1
    (stage.pending kept mem_cons_self)

theorem secured_uses (name : String) :
    Uses (executeAll (securedSql kept) catalog) kept.new.name name ↔ name ∈ lingering kept ∨
        (∃ move ∈ kept.moves, move.source = none ∧ move.column.index = true ∧
          indexName kept.new.name move.column.name = name) ∨
        ∃ index, kept.old.index name = some index ∧
          ∀ column ∈ kept.dropped, column.name ∉ index.columns :=
  ((secured_looks setting kept split stage).usesIndex name).trans
    (settled_uses setting.oldFormed.names setting.newFormed.names kept
      (split_comes setting kept split).1 name)

omit stage in
theorem lingering_old {name : String} (h : name ∈ lingering kept) :
    name ∈ indexNames kept.old ∧ name ∉ kept.old.indexes.map Index.name := by
  have comes := (split_comes setting kept split).1
  obtain ⟨column, hcolumn, rfl⟩ := mem_map.mp h
  obtain ⟨hmem, hflags⟩ := mem_filter.mp hcolumn
  have hflag : column.index = true := (Bool.and_eq_true_iff.mp hflags).1
  rw [← comes.name]
  refine ⟨(mem_indexNames kept.old _).mpr (.inl ⟨column, hmem, hflag, rfl⟩), fun hin => ?_⟩
  have hnodup := (nodup_flatMap.mp setting.oldFormed.indexes).1 kept.old comes.old_mem
  exact (nodup_append.mp hnodup).2.2 _ (mem_map.mpr
    ⟨column, mem_filter.mpr ⟨hmem, hflag⟩, rfl⟩) _ hin rfl

theorem index_used (moves : ∀ first move rest, kept.moves = first ++ move :: rest →
      move.source = none → MoveReady before kept after first move)
    {index : Index} (hindex : index ∈ kept.old.indexes) :
    IndexUsed (executeAll (securedSql kept) catalog) index.name ↔
      ∀ column ∈ kept.dropped, column.name ∉ index.columns := by
  have comes := (split_comes setting kept split).1
  have hself := index_self setting.oldFormed.names comes.old_mem hindex
  have hnamed : index.name ∈ indexNames kept.old :=
    (mem_indexNames kept.old _).mpr (.inr ⟨index, hindex, rfl⟩)
  have hentry := entry_table setting kept split
  have hown : Uses (executeAll (securedSql kept) catalog) kept.new.name index.name ↔
      ∀ column ∈ kept.dropped, column.name ∉ index.columns := by
    rw [secured_uses setting kept split stage]
    constructor
    · rintro (h | ⟨move, hmove, hnone, hflag, heq⟩ | ⟨found, hfound, h⟩)
      · exact absurd (mem_map_of_mem hindex)
          (lingering_old setting kept split h).2
      · obtain ⟨first, rest, hmoves⟩ := append_of_mem hmove
        refine absurd hnamed ?_
        rw [← heq]
        exact (moves first move rest hmoves hnone).pending hflag kept mem_cons_self
      · rw [hself] at hfound
        cases hfound
        exact h
    · intro h
      exact .inr (.inr ⟨index, hself, h⟩)
  rw [← hown]
  refine ⟨?_, fun h => ⟨_, h⟩⟩
  rintro ⟨target, state, hstate, huses⟩
  have hused : Uses (executeAll (securedSql kept) catalog) target index.name := ⟨state, hstate, huses⟩
  by_cases heq : target = kept.new.name
  · exact heq ▸ hused
  exfalso
  have hthere : catalog.tables target ≠ none := by
    intro hnone
    rw [← alike_there _ target (alike_secured kept catalog heq), hstate] at hnone
    cases hnone
  rw [alike_uses _ target (alike_secured kept catalog heq)] at hused
  rcases stage.only target hthere with ⟨entry, hmem, rfl⟩ | ⟨other, hother, rfl⟩
  · exact stage.apart entry hmem _ hused kept mem_cons_self hnamed
  · rcases mem_cons.mp hother with rfl | hother
    · exact heq rfl
    · refine old_indexNames setting kept split hother hnamed ?_
      rw [← usesIndex_tableState (setting.oldFormed.names.columns _
        ((split_comes setting kept split).2.2 other hother).old_mem)]
      exact ((stage.pending other (mem_cons_of_mem kept hother)).usesIndex _).mp hused

variable (catalog) in
def cleared : Catalog :=
  executeAll ((gone kept.old kept.new).map Statement.dropIndex)
    (executeAll (securedSql kept) catalog)

omit setting split stage in
theorem upSql_kept : upSql (keptChanges kept) = securedSql kept ++
    ((gone kept.old kept.new).map Statement.dropIndex ++
      (unmatchedIndexes kept.new kept.old).map (Statement.createTableIndex kept.new.name)) := by
  rw [upSql_keptChanges, securedSql]

theorem cleared_there : (cleared kept catalog).tables kept.new.name ≠ none := by
  obtain ⟨found, hfound, _⟩ :=
    (secured_looks setting kept split stage).found
  rw [cleared, executeAll_dropIndexes, hfound]
  exact nofun

theorem cleared_used (index : Index) (hindex : index ∈ unmatchedIndexes kept.new kept.old) :
    IndexUsed (cleared kept catalog) index.name ↔
      (∃ other ∈ before ++ [kept], index.name ∈ lingering other) ∨
        ∃ other ∈ after, index.name ∈ indexNames other.old := by
  have comes := (split_comes setting kept split).1
  obtain ⟨hmem, hdiffers⟩ := mem_filter.mp hindex
  have hnamed : index.name ∈ indexNames kept.new :=
    (mem_indexNames kept.new _).mpr (.inr ⟨index, hmem, rfl⟩)
  have hself := index_self setting.newFormed.names comes.new_mem hmem
  have hgone : ∀ name ∈ gone kept.old kept.new, name ∈ indexNames kept.old :=
    fun name => gone_indexNames kept.old kept.new name
  have hused : IndexUsed (cleared kept catalog) index.name ↔
      IndexUsed (executeAll (securedSql kept) catalog) index.name ∧
        index.name ∉ gone kept.old kept.new := by
    change (∃ target, Uses _ target _) ↔ (∃ target, Uses _ target _) ∧ _
    simp only [cleared, uses_dropIndexes, exists_and_right]
  have hown : Uses (executeAll (securedSql kept) catalog) kept.new.name index.name ∧
      index.name ∉ gone kept.old kept.new ↔ index.name ∈ lingering kept := by
    rw [secured_uses setting kept split stage]
    constructor
    · rintro ⟨h | ⟨move, hmove, _, hflag, heq⟩ | ⟨found, hfound, _⟩, hout⟩
      · exact h
      · have hcolumn := (move_new setting.newFormed.names kept comes hmove).1
        obtain ⟨hcolumnMem, _⟩ := KeyedLists.find_some Column.name _ _ _ hcolumn
        have hnodup := (nodup_flatMap.mp setting.newFormed.indexes).1 kept.new comes.new_mem
        exact absurd heq ((nodup_append.mp hnodup).2.2 _ (mem_map.mpr
          ⟨move.column, mem_filter.mpr ⟨hcolumnMem, hflag⟩, rfl⟩) _ (mem_map_of_mem hmem))
      · obtain ⟨hfoundMem, hname⟩ := KeyedLists.find_some Index.name _ _ _ hfound
        by_cases hsame : found = index
        · rw [hsame] at hfound
          exact absurd hfound (of_decide_eq_true hdiffers)
        · refine absurd (mem_map.mpr ⟨found, mem_filter.mpr ⟨hfoundMem, ?_⟩, hname⟩) hout
          rw [hname, hself]
          exact decide_eq_true fun heq => hsame (Option.some.inj heq).symm
    · intro h
      refine ⟨.inl h, fun hin => ?_⟩
      obtain ⟨found, hfound, hname⟩ := mem_map.mp hin
      exact (lingering_old setting kept split h).2
        (mem_map.mpr ⟨found, (mem_filter.mp hfound).1, hname⟩)
  have hentries : ∀ other ∈ before, index.name ∈ lingering other →
      index.name ∉ gone kept.old kept.new := by
    intro other hother hname hin
    have hentry : keptEntry other ∈ settledEntries old new before :=
      mem_append_right _ (mem_map_of_mem hother)
    exact stage.apart _ hentry _ ((stage.settled _ hentry).lingers _ hname) kept mem_cons_self
      (hgone _ hin)
  have hpending : ∀ other ∈ after, index.name ∈ indexNames other.old →
      index.name ∉ gone kept.old kept.new := fun other hother hname hin =>
    old_indexNames setting kept split hother (hgone _ hin) hname
  rw [hused, used_around setting kept split catalog stage _
    (fun target hne => alike_secured kept catalog hne) hnamed]
  have hlast : (∃ other ∈ before ++ [kept], index.name ∈ lingering other) ↔
      (∃ other ∈ before, index.name ∈ lingering other) ∨ index.name ∈ lingering kept := by
    simp only [mem_append, mem_singleton, or_and_right, exists_or, exists_eq_left]
  rw [hlast, ← hown]
  constructor
  · rintro ⟨h | h | h, hout⟩
    · exact .inl (.inl h)
    · exact .inl (.inr ⟨h, hout⟩)
    · exact .inr h
  · rintro ((⟨other, hother, hname⟩ | ⟨h, hout⟩) | ⟨other, hother, hname⟩)
    · exact ⟨.inl ⟨other, hother, hname⟩, hentries other hother hname⟩
    · exact ⟨.inr (.inl h), hout⟩
    · exact ⟨.inr (.inr ⟨other, hother, hname⟩), hpending other hother hname⟩

theorem applies_kept :
    Applies (upSql (keptChanges kept)) catalog ↔ KeptReady before kept after := by
  have comes := (split_comes setting kept split).1
  have hgoneNodup : (gone kept.old kept.new).Nodup :=
    KeyedLists.unmatched_nodup Index.name kept.new.indexes
      (setting.oldFormed.names.tableIndexes comes.old_mem)
  have hnewNodup : ((unmatchedIndexes kept.new kept.old).map Index.name).Nodup :=
    KeyedLists.unmatched_nodup Index.name kept.old.indexes
      (setting.newFormed.names.tableIndexes comes.new_mem)
  have happend := GuardedRuns.applies_append Ready execute
  have hmild := applies_mild _ (mild_diffTableRls kept.old kept.new)
  have hsecured : Applies (securedSql kept) catalog ↔ Applies (upSql (diffTable kept)) catalog := by
    rw [securedSql, Applies, happend]
    exact and_iff_left (hmild _)
  have hthere : ∃ state, (cleared kept catalog).tables kept.new.name = some state :=
    Option.ne_none_iff_exists'.mp
      (cleared_there setting kept split stage)
  rw [upSql_kept, Applies, happend, happend]
  change Applies _ catalog ∧ Applies _ (executeAll (securedSql kept) catalog) ∧
    Applies _ (cleared kept catalog) ↔ _
  rw [hsecured, applies_diffTable setting kept split stage,
    applies_dropIndexes hgoneNodup, applies_tableIndexes kept.new.name _ hnewNodup _ hthere]
  have hdrops : (∀ first move rest, kept.moves = first ++ move :: rest → move.source = none →
      MoveReady before kept after first move) →
      ((∀ name ∈ gone kept.old kept.new, IndexUsed (executeAll (securedSql kept) catalog) name) ↔
      ∀ index ∈ unmatchedIndexes kept.old kept.new, ∀ column ∈ kept.dropped,
        column.name ∉ index.columns) := by
    intro moves
    rw [gone, forall_mem_map]
    refine forall₂_congr fun index hindex => ?_
    exact index_used setting kept split stage moves
      (mem_filter.mp hindex).1
  have hcolumns : ∀ column, HasColumn (cleared kept catalog) kept.new.name column ↔
      kept.new.column column ≠ none := by
    intro column
    rw [cleared, hasColumn_dropIndexes, (secured_looks setting kept split stage).hasColumn,
      settled_column]
  have hfree := cleared_used setting kept split stage
  constructor
  · rintro ⟨moves, drops, creates⟩
    refine ⟨moves, (hdrops moves).mp drops, fun index hindex column hcolumn =>
      (hcolumns column).mp ((creates index hindex).1 column hcolumn), ?_, ?_⟩
    · intro index hindex other hother hname
      exact (creates index hindex).2 ((hfree index hindex).mpr (.inl ⟨other, hother, hname⟩))
    · intro index hindex other hother hname
      exact (creates index hindex).2 ((hfree index hindex).mpr (.inr ⟨other, hother, hname⟩))
  · intro ready
    refine ⟨ready.moves, (hdrops ready.moves).mpr ready.drops, fun index hindex => ⟨?_, ?_⟩⟩
    · intro column hcolumn
      exact (hcolumns column).mpr (ready.columns index hindex column hcolumn)
    · intro hused
      rcases (hfree index hindex).mp hused with ⟨other, hother, hname⟩ | ⟨other, hother, hname⟩
      · exact ready.lingers index hindex other hother hname
      · exact ready.pending index hindex other hother hname

theorem kept_at (ready : KeptReady before kept after) :
    At (settledEntries old new (before ++ [kept])) after
      (executeAll (upSql (keptChanges kept)) catalog) := by
  obtain ⟨comes, _, hafter⟩ := split_comes setting kept split
  obtain ⟨_, hafterNames⟩ := split_names setting kept split
  have hentry := entry_table setting kept split
  have hthere := cleared_there setting kept split stage
  have hgone : ∀ name ∈ gone kept.old kept.new, name ∈ indexNames kept.old :=
    fun name => gone_indexNames kept.old kept.new name
  have hrun : executeAll (upSql (keptChanges kept)) catalog =
      executeAll ((unmatchedIndexes kept.new kept.old).map (Statement.createTableIndex kept.new.name))
        (cleared kept catalog) := by
    rw [upSql_kept, executeAll, GuardedRuns.run_append, GuardedRuns.run_append]
    rfl
  have hentries : settledEntries old new (before ++ [kept]) =
      settledEntries old new before ++ [keptEntry kept] := by
    rw [settledEntries, map_append, ← append_assoc]
    rfl
  have hpresent : ∀ target, (executeAll (upSql (keptChanges kept)) catalog).tables target = none ↔
      (executeAll (securedSql kept) catalog).tables target = none := by
    intro target
    rw [hrun, tableIndexes_there _ _ _ hthere, cleared, executeAll_dropIndexes,
      Option.map_eq_none_iff]
  have hcolumns : ∀ target column,
      HasColumn (executeAll (upSql (keptChanges kept)) catalog) target column ↔
        HasColumn (executeAll (securedSql kept) catalog) target column := by
    intro target column
    rw [hrun, hasColumn_tableIndexes _ _ _ hthere, cleared, hasColumn_dropIndexes]
  have huses : ∀ target name, Uses (executeAll (upSql (keptChanges kept)) catalog) target name ↔
      (Uses (executeAll (securedSql kept) catalog) target name ∧ name ∉ gone kept.old kept.new) ∨
        target = kept.new.name ∧ name ∈ (unmatchedIndexes kept.new kept.old).map Index.name := by
    intro target name
    rw [hrun, uses_tableIndexes _ _ _ hthere, cleared, uses_dropIndexes]
  have hown : ∀ name, Uses (executeAll (upSql (keptChanges kept)) catalog) kept.new.name name →
      name ∈ lingering kept ∨ name ∈ indexNames kept.new ∧
        ∀ other ∈ after, name ∉ indexNames other.old := by
    intro name h
    rcases (huses _ name).mp h with ⟨hused, hout⟩ | ⟨_, hcreated⟩
    · rw [secured_uses setting kept split stage] at hused
      rcases hused with h | ⟨move, hmove, hnone, hflag, rfl⟩ | ⟨index, hindex, _⟩
      · exact .inl h
      · obtain ⟨first, rest, hmoves⟩ := append_of_mem hmove
        have hcolumn := (move_new setting.newFormed.names kept comes hmove).1
        obtain ⟨hmem, _⟩ := KeyedLists.find_some Column.name _ _ _ hcolumn
        refine .inr ⟨(mem_indexNames kept.new _).mpr (.inl ⟨move.column, hmem, hflag, rfl⟩), ?_⟩
        exact fun other hother => (ready.moves first move rest hmoves hnone).pending hflag other
          (mem_cons_of_mem kept hother)
      · obtain ⟨hmem, hname⟩ := KeyedLists.find_some Index.name _ _ _ hindex
        have hsame : kept.new.index name = some index := by
          by_contra hne
          exact hout (mem_map.mpr
            ⟨index, mem_filter.mpr ⟨hmem, decide_eq_true (hname ▸ hne)⟩, hname⟩)
        obtain ⟨hnewMem, _⟩ := KeyedLists.find_some Index.name _ _ _ hsame
        refine .inr ⟨(mem_indexNames kept.new _).mpr (.inr ⟨index, hnewMem, hname⟩), ?_⟩
        exact fun other hother => old_indexNames setting kept split
          hother ((mem_indexNames kept.old _).mpr (.inr ⟨index, hmem, hname⟩))
    · obtain ⟨index, hindex, rfl⟩ := mem_map.mp hcreated
      exact .inr ⟨(mem_indexNames kept.new _).mpr
        (.inr ⟨index, (mem_filter.mp hindex).1, rfl⟩), ready.pending index hindex⟩
  have hother : ∀ target, target ≠ kept.new.name → ∀ name,
      (Uses catalog target name → name ∉ gone kept.old kept.new) →
      (Uses (executeAll (upSql (keptChanges kept)) catalog) target name ↔
        Uses catalog target name) := by
    intro target hne name hout
    rw [huses, alike_uses _ target (alike_secured kept catalog hne)]
    constructor
    · rintro (h | h)
      · exact h.1
      · exact absurd h.1 hne
    · intro h
      exact .inl ⟨h, hout h⟩
  have hsettledOut : ∀ entry ∈ settledEntries old new before, ∀ name,
      Uses catalog entry.table.name name → name ∉ gone kept.old kept.new :=
    fun entry hmem name huse hin =>
      stage.apart entry hmem name huse kept mem_cons_self (hgone name hin)
  rw [hentries]
  refine ⟨?_, ?_, ?_, ?_⟩
  · intro entry hmem
    rcases mem_append.mp hmem with hmem | hmem
    · have hne := (hentry entry hmem).2
      have alike := alike_secured kept catalog hne
      refine (stage.settled entry hmem).transfer _ ?_ (fun column => ?_) fun name => ?_
      · rw [ne_eq, hpresent, alike_there _ _ alike]
        exact (stage.settled entry hmem).there
      · rw [hcolumns, alike_hasColumn _ _ alike]
      · exact hother _ hne name (hsettledOut entry hmem name)
    · rw [mem_singleton.mp hmem]
      have looks := secured_looks setting kept split stage
      obtain ⟨found, hfound, _⟩ := looks.found
      refine ⟨?_, fun column => ?_, fun name hname => ?_, fun name h => (hown name h).imp_right And.left⟩
      · change (executeAll _ catalog).tables kept.new.name ≠ none
        rw [ne_eq, hpresent, hfound]
        exact nofun
      · change HasColumn _ kept.new.name column ↔ _
        rw [hcolumns, looks.hasColumn, settled_column]
        rfl
      · refine (huses _ name).mpr (.inl ⟨?_, fun hin => ?_⟩)
        · exact (secured_uses setting kept split stage name).mpr
            (.inl hname)
        · obtain ⟨index, hindex, heq⟩ := mem_map.mp hin
          exact (lingering_old setting kept split hname).2
            (mem_map.mpr ⟨index, (mem_filter.mp hindex).1, heq⟩)
  · intro other hmem
    have hne := hafterNames other hmem
    have hlooks := (alike_secured kept catalog hne).looks
      (stage.pending other (mem_cons_of_mem kept hmem))
    have hclear := looks_dropIndexes (gone kept.old kept.new) _ _ hlooks (fun name hin huse => by
      rw [usesIndex_tableState
        (setting.oldFormed.names.columns _ (hafter other hmem).old_mem)] at huse
      exact old_indexNames setting kept split hmem
        (hgone name hin) huse)
    rw [hrun]
    refine (alike_about hne _ ?_ (cleared kept catalog)).looks
      hclear
    intro statement hstatement
    obtain ⟨index, _, rfl⟩ := mem_map.mp hstatement
    exact ⟨rfl, rfl⟩
  · intro target hpresence
    rw [ne_eq, hpresent] at hpresence
    by_cases heq : target = kept.new.name
    · exact .inl ⟨keptEntry kept, mem_append_right _ mem_cons_self, heq.symm⟩
    · rw [alike_there _ target (alike_secured kept catalog heq)] at hpresence
      rcases stage.only target hpresence with ⟨entry, hmem, rfl⟩ | ⟨other, hmem, rfl⟩
      · exact .inl ⟨entry, mem_append_left _ hmem, rfl⟩
      · rcases mem_cons.mp hmem with rfl | hmem
        · exact absurd rfl heq
        · exact .inr ⟨other, hmem, rfl⟩
  · intro entry hmem name huse other hotherMem
    rcases mem_append.mp hmem with hmem | hmem
    · have hne := (hentry entry hmem).2
      rw [hother _ hne name (hsettledOut entry hmem name)] at huse
      exact stage.apart entry hmem name huse other (mem_cons_of_mem kept hotherMem)
    · rw [mem_singleton.mp hmem] at huse
      rcases hown name huse with h | h
      · exact old_indexNames setting kept split hotherMem
          (lingering_old setting kept split h).1
      · exact h.2 other hotherMem

end

end

end Stakit.MigrationApplies
