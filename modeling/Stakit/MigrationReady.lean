import Stakit.MigrationApplies

set_option autoImplicit false

namespace Stakit.MigrationReady
open SchemaModel SchemaDiff MigrationStatements MigrationRuns MigrationTables MigrationTarget List
open PostgresRules MigrationOrder MigrationStages MigrationKept MigrationApplies

section
variable (old new : Schema) (kepts : List KeptTable) (setting : Setting old new kepts)
include setting

theorem kept_step (before : List KeptTable) (kept : KeptTable) (after : List KeptTable)
    (catalog : Catalog) (h : kepts = before ++ kept :: after ∧
      At (settledEntries old new before) (kept :: after) catalog) :
    (Applies (upSql (keptChanges kept)) catalog ↔ KeptReady before kept after) ∧
      (KeptReady before kept after → kepts = (before ++ [kept]) ++ after ∧
        At (settledEntries old new (before ++ [kept])) after
          (executeAll (upSql (keptChanges kept)) catalog)) := by
  obtain ⟨split, stage⟩ := h
  refine ⟨applies_kept setting kept split stage,
    fun ready => ⟨?_, kept_at setting kept split stage ready⟩⟩
  rw [split, append_assoc, singleton_append]

theorem applies_kepts (catalog : Catalog) (stage : At (settledEntries old new []) kepts catalog) :
    Applies (upSql (kepts.flatMap keptChanges)) catalog ↔
      ∀ before kept after, kepts = before ++ kept :: after → KeptReady before kept after := by
  have hflat : upSql (kepts.flatMap keptChanges) =
      kepts.flatMap fun kept => upSql (keptChanges kept) := by
    rw [upSql, flatMap_assoc]
    rfl
  rw [hflat, Applies, GuardedRuns.applies_loop Ready execute (fun kept => upSql (keptChanges kept))
    (fun before after found => kepts = before ++ after ∧ At (settledEntries old new before) after found)
    KeptReady (kept_step old new kepts setting) [] kepts catalog ⟨rfl, stage⟩]
  rfl

end

section
variable (old new : Schema) (kepts : List KeptTable) (setting : Setting old new kepts)

def droppedNames : List String :=
  (topoSortCreates (unmatchedTables old new)).reverse.map Table.name

theorem mem_droppedNames (name : String) :
    name ∈ droppedNames old new ↔ old.table name ≠ none ∧ new.table name = none := by
  rw [droppedNames, map_reverse, mem_reverse,
    ((topoSortCreates_perm _).map Table.name).mem_iff, unmatchedTables,
    KeyedLists.mem_map_filter Table.name old.tables (fun name => (new.table name).isNone),
    ← KeyedLists.find_isSome Table.name, Option.isSome_iff_ne_none, Option.isNone_iff_eq_none]
  rfl

include setting

theorem refersTo_old {catalog : Catalog} (hcatalog : catalog.tables = (catalogOf old).tables)
    (name target : String) : RefersTo catalog name target ↔
      ∃ table ∈ old.tables, table.name = name ∧ ∃ column ∈ table.columns, ∃ fk,
        column.references = some fk ∧ fk.table = target := by
  unfold RefersTo
  rw [hcatalog]
  constructor
  · rintro ⟨state, column, found, fk, hstate, hcolumn, hfk, htarget⟩
    obtain ⟨table, htable, rfl⟩ := Option.map_eq_some_iff.mp hstate
    obtain ⟨hmem, hname⟩ := KeyedLists.find_some Table.name _ _ _ htable
    obtain ⟨cell, hcell, rfl⟩ := Option.map_eq_some_iff.mp hcolumn
    obtain ⟨hcellMem, _⟩ := KeyedLists.find_some Column.name _ _ _ hcell
    exact ⟨table, hmem, hname, cell, hcellMem, fk, hfk, htarget⟩
  · rintro ⟨table, hmem, rfl, column, hcolumn, fk, hfk, htarget⟩
    have names := setting.oldFormed.names
    refine ⟨tableState table, column.name, columnState table.name column, fk, ?_, ?_, hfk, htarget⟩
    · simp [catalogOf, table_self names hmem]
    · simp [tableState, column_self names hmem hcolumn]

theorem dropped_apart {catalog : Catalog} (hcatalog : catalog.tables = (catalogOf old).tables) :
    (droppedNames old new).Pairwise fun first later => ¬RefersTo catalog later first := by
  have names := setting.oldFormed.names
  have hnodup : ((topoSortCreates (unmatchedTables old new)).map Table.name).Nodup := by
    rw [((topoSortCreates_perm _).map Table.name).nodup_iff]
    exact names.tables.sublist (filter_sublist.map Table.name)
  have hordered := Ordered.later _ [] _ (topoSort_ordered new setting.oldFormed.acyclic)
    (by rwa [nil_append])
    (fun table hmem => mem_map_of_mem ((topoSortCreates_perm _).mem_iff.mp hmem))
  rw [droppedNames, pairwise_map, pairwise_reverse]
  refine hordered.imp_of_mem fun {earlier later} hearlier _ h hrefers => ?_
  obtain ⟨table, hmem, hname, column, hcolumn, fk, hfk, htarget⟩ :=
    (refersTo_old old new kepts setting hcatalog _ _).mp hrefers
  have hearlierMem : earlier ∈ old.tables :=
    (mem_filter.mp ((topoSortCreates_perm _).mem_iff.mp hearlier)).1
  rw [inj_on_of_nodup_map names.tables hmem hearlierMem hname] at hcolumn
  exact h column hcolumn fk hfk htarget

theorem applies_drops {catalog : Catalog} (hcatalog : catalog.tables = (catalogOf old).tables) :
    Applies ((droppedNames old new).map Statement.dropTable) catalog ↔
      ∀ kept ∈ kepts, ∀ column ∈ kept.old.columns, ∀ fk, column.references = some fk →
        new.table fk.table ≠ none := by
  have hwithout : without [] catalog = catalog := by
    refine Catalog.ext ?_ rfl
    funext name
    simp [without]
  have happlies := applies_dropTables catalog []
    (dropped_apart old new kepts setting hcatalog)
  rw [hwithout] at happlies
  rw [happlies]
  constructor
  · intro h kept hkept column hcolumn fk hfk hnone
    have comes := setting.comes kept hkept
    obtain ⟨target, htarget, _⟩ :=
      setting.oldFormed.keys kept.old comes.old_mem column hcolumn fk hfk
    refine h fk.table ((mem_droppedNames old new _).mpr
      ⟨by rw [htarget]; exact fun h => (by cases h), hnone⟩) kept.old.name not_mem_nil ?_
      ((refersTo_old old new kepts setting hcatalog _ _).mpr
        ⟨kept.old, comes.old_mem, rfl, column, hcolumn, fk, hfk, rfl⟩)
    intro hin
    have hnew := table_self setting.newFormed.names comes.new_mem
    rw [← comes.name, ((mem_droppedNames old new _).mp hin).2] at hnew
    cases hnew
  · intro h name hname table _ hout hrefers
    obtain ⟨found, hmem, rfl, column, hcolumn, fk, hfk, rfl⟩ :=
      (refersTo_old old new kepts setting hcatalog _ _).mp hrefers
    have hself := table_self setting.oldFormed.names hmem
    have hnew : new.table found.name ≠ none := fun hnone =>
      hout ((mem_droppedNames old new _).mpr
        ⟨by rw [hself]; exact fun h => (by cases h), hnone⟩)
    obtain ⟨target, htarget⟩ := Option.ne_none_iff_exists'.mp hnew
    obtain ⟨htargetMem, htargetName⟩ := KeyedLists.find_some Table.name _ _ _ htarget
    obtain ⟨kept, hkept, heq⟩ := setting.covers target htargetMem (by
      rw [htargetName, hself]
      exact fun h => (by cases h))
    have hfound := setting.found kept hkept
    rw [heq, htargetName, hself] at hfound
    refine h kept hkept column ?_ fk hfk ((mem_droppedNames old new _).mp hname).2
    rwa [← Option.some.inj hfound]

omit setting in
theorem executeAll_dropTables (names : List String) (gone : List String) (catalog : Catalog) :
    executeAll (names.map Statement.dropTable) (without gone catalog) =
      without (gone ++ names) catalog := by
  induction names generalizing gone with
  | nil => rw [append_nil]; rfl
  | cons name rest ih =>
    change executeAll (rest.map _) (execute (.dropTable name) (without gone catalog)) = _
    rw [execute_dropTable, ih, append_assoc, singleton_append]

theorem drops_at {catalog : Catalog} (hcatalog : catalog.tables = (catalogOf old).tables) :
    At [] kepts (executeAll ((droppedNames old new).map Statement.dropTable) catalog) := by
  have hwithout : without [] catalog = catalog := by
    refine Catalog.ext ?_ rfl
    funext name
    simp [without]
  have hrun := executeAll_dropTables (droppedNames old new) [] catalog
  rw [hwithout, nil_append] at hrun
  have htables : ∀ name, (executeAll ((droppedNames old new).map Statement.dropTable)
      catalog).tables name =
        if name ∈ droppedNames old new then none else (old.table name).map tableState := by
    intro name
    rw [hrun, without, hcatalog]
    rfl
  refine ⟨fun _ h => (by cases h), fun kept hkept => ?_, fun name hthere => ?_,
    fun _ h => (by cases h)⟩
  · have comes := setting.comes kept hkept
    refine looks_self _ _ _ ?_
    rw [htables, if_neg, setting.found kept hkept]
    · rfl
    · intro hin
      have hnew := table_self setting.newFormed.names comes.new_mem
      rw [((mem_droppedNames old new _).mp hin).2] at hnew
      cases hnew
  · refine .inr ?_
    rw [htables] at hthere
    split_ifs at hthere with hin
    · exact absurd rfl hthere
    · have hold : old.table name ≠ none := fun hnone => hthere (by rw [hnone]; rfl)
      have hnew : new.table name ≠ none := fun hnone =>
        hin ((mem_droppedNames old new name).mpr ⟨hold, hnone⟩)
      obtain ⟨table, htable⟩ := Option.ne_none_iff_exists'.mp hnew
      obtain ⟨hmem, rfl⟩ := KeyedLists.find_some Table.name _ _ _ htable
      obtain ⟨kept, hkept, rfl⟩ := setting.covers table hmem hold
      exact ⟨kept, hkept, rfl⟩

end

def Unnamed (schema : Schema) (role : String) : Prop :=
  ∀ table ∈ schema.tables, (∀ grant ∈ table.grants, grant.role = role → grant.privileges = []) ∧
    ∀ policy ∈ table.policies, role ∉ policy.roles

theorem given_none (privileges : List Privilege) :
    (∀ access, given privileges access = false) ↔ privileges = [] := by
  constructor
  · intro h
    cases privileges with
    | nil => rfl
    | cons privilege rest =>
      exfalso
      have hsome : ∃ access, access ∈ accesses privilege := by
        cases privilege
        · exact ⟨.select, by decide⟩
        · exact ⟨.select, by decide⟩
        · exact ⟨.insert, by decide⟩
        · exact ⟨.update, by decide⟩
        · exact ⟨.delete, by decide⟩
      obtain ⟨access, hmem⟩ := hsome
      have hfalse := h access
      simp [given, hmem] at hfalse
  · rintro rfl access
    rfl

def Secured (schema : Schema) (catalog : Catalog) : Prop :=
  ∀ name, (catalog.tables name).map (fun state => (state.grants, state.policies)) =
    (schema.table name).map fun table => ((tableState table).grants, table.policy)

theorem ready_dropRole {schema : Schema} (names : DistinctNames schema) {catalog : Catalog}
    (secured : Secured schema catalog) (role : String) :
    Ready (.dropRole role) catalog ↔ Unnamed schema role := by
  have hgrants : ∀ table ∈ schema.tables, (∀ access, (tableState table).grants role access = false) ↔
      ∀ grant ∈ table.grants, grant.role = role → grant.privileges = [] := by
    intro table hmem
    constructor
    · rintro h grant hgrant rfl
      refine (given_none _).mp fun access => ?_
      have haccess := h access
      simpa [tableState, grant_self names hmem hgrant] using haccess
    · intro h access
      cases hfind : table.grant role with
      | none => simp [tableState, hfind]
      | some grant =>
        obtain ⟨hgrant, hrole⟩ := KeyedLists.find_some Grant.role _ _ _ hfind
        simp [tableState, hfind, h grant hgrant hrole, given]
  have hpolicies : ∀ table ∈ schema.tables,
      (∀ policy found, table.policy policy = some found → role ∉ found.roles) ↔
        ∀ policy ∈ table.policies, role ∉ policy.roles := by
    intro table hmem
    constructor
    · intro h policy hpolicy
      exact h policy.name policy (policy_self names hmem hpolicy)
    · intro h name found hfound
      exact h found (KeyedLists.find_some Policy.name _ _ _ hfound).1
  constructor
  · intro h table hmem
    have hsame := secured table.name
    rw [table_self names hmem] at hsame
    obtain ⟨state, hstate, heq⟩ := Option.map_eq_some_iff.mp hsame
    obtain ⟨hstateGrants, hstatePolicies⟩ := Prod.mk.inj heq
    obtain ⟨hnone, hout⟩ := h table.name state hstate
    rw [hstateGrants] at hnone
    rw [hstatePolicies] at hout
    exact ⟨(hgrants table hmem).mp hnone, (hpolicies table hmem).mp hout⟩
  · intro h name state hstate
    have hsame := secured name
    rw [hstate] at hsame
    obtain ⟨table, htable, heq⟩ := Option.map_eq_some_iff.mp hsame.symm
    obtain ⟨hstateGrants, hstatePolicies⟩ := Prod.mk.inj heq
    obtain ⟨hmem, _⟩ := KeyedLists.find_some Table.name _ _ _ htable
    rw [← hstateGrants, ← hstatePolicies]
    exact ⟨(hgrants table hmem).mpr (h table hmem).1, (hpolicies table hmem).mpr (h table hmem).2⟩

theorem tables_dropRole (catalog : Catalog) (role : String) :
    (execute (.dropRole role) catalog).tables = catalog.tables := by
  funext name
  simp only [execute, Statement.onTable]
  cases catalog.tables name <;> rfl

theorem applies_dropRoles {schema : Schema} (names : DistinctNames schema) (roles : List Role)
    {catalog : Catalog} (secured : Secured schema catalog) :
    Applies (upSql (roles.map Change.dropRole)) catalog ↔
      ∀ role ∈ roles, Unnamed schema role.name := by
  induction roles generalizing catalog with
  | nil => exact iff_of_true trivial nofun
  | cons role rest ih =>
    change Ready (.dropRole role.name) catalog ∧
      Applies (upSql (rest.map _)) (execute (.dropRole role.name) catalog) ↔ _
    rw [ready_dropRole names secured, ih, forall_mem_cons]
    intro name
    rw [tables_dropRole]
    exact secured name

section
variable {σ : Type} (resolver : Resolver σ) (state : σ) (old new : Schema)
  (hold : WellFormed old) (hnew : WellFormed new)
include hold hnew

theorem secured_reached : Secured new
    (executeAll (upSql (diff resolver state old new)) (catalogOf old)) := by
  have setting := setting_keptTables resolver state hold hnew
  intro name
  have hcore := executeAll_core name (upSql (diff resolver state old new)) (catalogOf old)
    ((catalogOf old).tables name) rfl
  have hpair : ∀ found : Option TableState,
      found.map (fun state => (state.grants, state.policies)) =
        (found.map core).map fun state => (state.grants, state.policies) := by
    intro found
    rw [Option.map_map]
    rfl
  rw [hpair, hcore, ← hpair]
  cases hnewTable : new.table name with
  | none =>
    have hout : name ∉ (keptTables resolver old state new.tables).map fun kept => kept.new.name := by
      rw [mem_keptNames, hnewTable]
      exact fun h => (by cases h.2)
    rw [runTable_diff resolver state old new hold.names hnew.names, hnewTable, runTable_kepts hout]
    cases old.table name <;> rfl
  | some table =>
    obtain ⟨hmem, rfl⟩ := KeyedLists.find_some Table.name _ _ _ hnewTable
    cases holdTable : old.table table.name with
    | none =>
      rw [created_reached resolver state old new hold.names hnew.names hmem holdTable]
      rfl
    | some previous =>
      obtain ⟨kept, hkept, rfl⟩ := setting.covers table hmem (by
        rw [holdTable]
        exact nofun)
      obtain ⟨before, after, split⟩ := append_of_mem hkept
      rw [kept_reached resolver state old new hold.names hnew.names hold.indexes split]
      rfl

end

/-- No change crosses a dependency that the order of the changes does not keep. -/
structure UpReady (old new : Schema) (kepts : List KeptTable) : Prop where
  staying : ∀ kept ∈ kepts, ∀ column ∈ kept.old.columns, ∀ fk, column.references = some fk →
    new.table fk.table ≠ none
  created : ∀ table ∈ new.tables, old.table table.name = none → Creatable kepts table
  kept : ∀ before kept after, kepts = before ++ kept :: after → KeptReady before kept after
  roles : ∀ role ∈ old.roles, new.role role.name = none → Unnamed new role.name

theorem roleChanges_free (old : Schema) (roles : List Role) :
    ∀ statement ∈ upSql (roles.flatMap (roleChanges old)), (∀ catalog, Ready statement catalog) ∧
        ∀ catalog, (execute statement catalog).tables = catalog.tables := by
  intro statement hmem
  have htables : ∀ statement : Statement, (∀ target state, statement.onTable target state = state) →
      Plain statement → ∀ catalog, (execute statement catalog).tables = catalog.tables := by
    intro statement hsame plain catalog
    funext name
    have hid : (fun state => ripple name state statement) = id := funext fun state => plain name state
    simp only [execute, hsame, hid, Option.map_id_fun, id]
  obtain ⟨change, hchange, hstatement⟩ := mem_flatMap.mp hmem
  obtain ⟨role, _, hin⟩ := mem_flatMap.mp hchange
  unfold roleChanges at hin
  split at hin
  · rw [mem_singleton.mp hin] at hstatement
    rw [mem_singleton.mp hstatement]
    exact ⟨fun _ => trivial, htables _ (fun _ _ => rfl) fun _ _ => rfl⟩
  · split_ifs at hin
    · rw [mem_singleton.mp hin] at hstatement
      rw [mem_singleton.mp hstatement]
      exact ⟨fun _ => trivial, htables _ (fun _ _ => rfl) fun _ _ => rfl⟩
    · cases hin

theorem migration_applies_iff {σ : Type} (resolver : Resolver σ) (state : σ) (old new : Schema)
    (hold : WellFormed old) (hnew : WellFormed new) :
    Applies (upSql (diff resolver state old new)) (catalogOf old) ↔
      UpReady old new (keptTables resolver old state new.tables) := by
  have setting := setting_keptTables resolver state hold hnew
  let kepts := keptTables resolver old state new.tables
  let roleSql := upSql (new.roles.flatMap (roleChanges old))
  let dropSql := (droppedNames old new).map Statement.dropTable
  let createSql := (topoSortCreates (unmatchedTables new old)).flatMap createObjectSql
  let keptSql := upSql (kepts.flatMap keptChanges)
  let dropRoleSql := upSql ((old.roles.filter fun role => (new.role role.name).isNone).map
    Change.dropRole)
  have hsplit : upSql (diff resolver state old new) =
      roleSql ++ (dropSql ++ (createSql ++ (keptSql ++ dropRoleSql))) := by
    rw [upSql_diff]
    simp only [roleSql, dropSql, createSql, keptSql, dropRoleSql, kepts, droppedNames, map_map,
      append_assoc]
    rfl
  let first := executeAll roleSql (catalogOf old)
  let second := executeAll dropSql first
  let third := executeAll createSql second
  let fourth := executeAll keptSql third
  have hfirst : first.tables = (catalogOf old).tables :=
    GuardedRuns.run_invariant execute (fun found => found.tables = (catalogOf old).tables) _
      (fun statement hmem found hfound =>
        ((roleChanges_free old new.roles statement hmem).2 found).trans hfound) _ rfl
  have hroles : Applies roleSql (catalogOf old) :=
    GuardedRuns.applies_of_free Ready execute roleSql
      (fun statement hmem => (roleChanges_free old new.roles statement hmem).1) _
  have hlast : (executeAll dropRoleSql fourth).tables = fourth.tables := by
    refine GuardedRuns.run_invariant execute (fun found => found.tables = fourth.tables) _
      (fun statement hmem found hfound => ?_) _ rfl
    obtain ⟨change, hchange, hstatement⟩ := mem_flatMap.mp hmem
    obtain ⟨role, _, rfl⟩ := mem_map.mp hchange
    rw [mem_singleton.mp hstatement, tables_dropRole]
    exact hfound
  have hsecured : Secured new fourth := by
    have hend := secured_reached resolver state old new hold hnew
    intro name
    rw [← hlast, ← hend name, hsplit]
    simp only [executeAll, GuardedRuns.run_append]
    rfl
  have happlies : Applies (upSql (diff resolver state old new)) (catalogOf old) ↔
      Applies dropSql first ∧ Applies createSql second ∧ Applies keptSql third ∧
        Applies dropRoleSql fourth := by
    rw [hsplit, Applies]
    simp only [GuardedRuns.applies_append]
    exact and_iff_right hroles
  have hdropStage : At [] kepts second := drops_at old new kepts setting hfirst
  have hcreates := applies_creates setting hdropStage
  have hcreateStage := creates_at setting hdropStage
  have hkepts : (∀ table ∈ new.tables, old.table table.name = none → Creatable kepts table) →
      (Applies keptSql third ↔ ∀ before kept after, kepts = before ++ kept :: after →
        KeptReady before kept after) := by
    intro creatable
    refine applies_kepts old new kepts setting third ?_
    have hentries : settledEntries old new [] =
        (topoSortCreates (unmatchedTables new old)).map fun found => ⟨found, []⟩ := by
      rw [settledEntries, map_nil, append_nil]
      rfl
    rw [hentries]
    exact hcreateStage creatable
  have hdropRoles : Applies dropRoleSql fourth ↔
      ∀ role ∈ old.roles, new.role role.name = none → Unnamed new role.name := by
    refine (applies_dropRoles hnew.names _ hsecured).trans ?_
    simp only [mem_filter, Option.isNone_iff_eq_none, and_imp]
  rw [happlies, applies_drops old new kepts setting hfirst, hcreates, hdropRoles]
  constructor
  · rintro ⟨staying, created, kept, roles⟩
    exact ⟨staying, created, (hkepts created).mp kept, roles⟩
  · intro ready
    exact ⟨ready.staying, ready.created, (hkepts ready.created).mpr ready.kept, ready.roles⟩

theorem acyclic_of_no_keys (tables : List Table)
    (h : ∀ table ∈ tables, ∀ column ∈ table.columns, column.references = none) : Acyclic tables := by
  have hnone : ∀ name other, ¬Refers tables name other := by
    rintro name other ⟨_, table, htable, _, column, hcolumn, fk, hfk, _⟩
    rw [h table htable column hcolumn] at hfk
    cases hfk
  intro name hcycle
  obtain ⟨other, hstep, _⟩ := Relation.TransGen.head'_iff.mp hcycle
  exact hnone name other hstep

theorem targeted_of_no_keys (schema : Schema)
    (h : ∀ table ∈ schema.tables, ∀ column ∈ table.columns, column.references = none) :
    Targeted schema := by
  intro table htable column hcolumn fk hfk
  rw [h table htable column hcolumn] at hfk
  cases hfk

theorem formed_oneColumn : WellFormed (oneColumn "name" true) where
  names := (distinct_oneColumn "name" true).1
  indexes := (distinct_oneColumn "name" true).2
  keys := targeted_of_no_keys _ (by decide)
  acyclic := acyclic_of_no_keys _ (by decide)

theorem formed_twoTables : WellFormed twoTables where
  names := ⟨by decide, by decide, by decide, by decide, by decide, by decide⟩
  indexes := by unfold DistinctIndexes; decide
  keys := targeted_of_no_keys _ (by decide)
  acyclic := acyclic_of_no_keys _ (by decide)

theorem ready_twoTables : UpReady (oneColumn "name" true) twoTables
    (keptTables never (oneColumn "name" true) () twoTables.tables) := by
  have hkepts : keptTables never (oneColumn "name" true) () twoTables.tables =
      [⟨plainTable "users" [textColumn "name" true false],
        plainTable "users" [textColumn "name" true false, textColumn "email" false true],
        [⟨textColumn "email" false true, none⟩], []⟩] := by rfl
  rw [hkepts]
  refine ⟨by simp [plainTable, textColumn], ?_, ?_, fun _ h => (by cases h)⟩
  · intro table htable hold
    refine ⟨?_, ?_, ?_⟩
    · intro column hcolumn fk hfk
      have hnone : ∀ table ∈ twoTables.tables, ∀ column ∈ table.columns,
          column.references = none := by decide
      rw [hnone table htable column hcolumn] at hfk
      cases hfk
    · have hnone : ∀ table ∈ twoTables.tables, table.indexes = [] := by decide
      rw [hnone table htable]
      exact fun _ h => (by cases h)
    · revert table
      decide
  · intro before kept after split
    obtain ⟨rfl, rfl, rfl⟩ : before = [] ∧ _ = kept ∧ [] = after := by
      cases before with
      | nil => exact ⟨rfl, List.cons.inj split⟩
      | cons first rest => simp at split
    refine ⟨?_, by decide, by decide, by decide, by decide⟩
    intro first move rest hmoves _
    obtain ⟨rfl, rfl, rfl⟩ : first = [] ∧ _ = move ∧ [] = rest := by
      cases first with
      | nil => exact ⟨rfl, List.cons.inj hmoves⟩
      | cons head tail => simp at hmoves
    exact ⟨fun fk hfk => (by cases hfk), fun fk hfk => (by cases hfk), fun _ => (by decide),
      fun _ => (by decide)⟩

theorem migration_applies_two_tables :
    Applies (upSql (diff never () (oneColumn "name" true) twoTables))
      (catalogOf (oneColumn "name" true)) :=
  (migration_applies_iff never () _ _ formed_oneColumn formed_twoTables).mpr ready_twoTables

def authored : Column :=
  { textColumn "author" false false with references := some ⟨"users", "id", "cascade"⟩ }

def usersAndPosts : Schema :=
  ⟨[plainTable "users" [textColumn "id" true false],
    plainTable "posts" [textColumn "title" false false, authored]], []⟩

def postsOnly : Schema := ⟨[plainTable "posts" [textColumn "title" false false]], []⟩

theorem formed_usersAndPosts : WellFormed usersAndPosts where
  names := ⟨by decide, by decide, by decide, by decide, by decide, by decide⟩
  indexes := by unfold DistinctIndexes; decide
  keys := by
    intro table htable column hcolumn fk hfk
    have hkey : ∀ table ∈ usersAndPosts.tables, ∀ column ∈ table.columns,
        column.references.all (fun fk => fk = ⟨"users", "id", "cascade"⟩) = true := by decide
    have hsame := hkey table htable column hcolumn
    rw [hfk, Option.all_some, decide_eq_true_eq] at hsame
    rw [hsame]
    exact ⟨plainTable "users" [textColumn "id" true false], by decide, by decide⟩
  acyclic := acyclic_of_one_way _ "posts" "users" (by decide) (by decide)

theorem formed_postsOnly : WellFormed postsOnly where
  names := ⟨by decide, by decide, by decide, by decide, by decide, by decide⟩
  indexes := by unfold DistinctIndexes; decide
  keys := targeted_of_no_keys _ (by decide)
  acyclic := acyclic_of_no_keys _ (by decide)

/-- The table is dropped before the column of another one that points to it. -/
theorem table_dropped_before_key : (WellFormed usersAndPosts ∧ WellFormed postsOnly) ∧
      diff never () usersAndPosts postsOnly =
        [.dropTable (plainTable "users" [textColumn "id" true false]),
          .dropColumn "posts" authored] ∧
      ¬Applies (upSql (diff never () usersAndPosts postsOnly)) (catalogOf usersAndPosts) := by
  have hdiff : diff never () usersAndPosts postsOnly =
      [.dropTable (plainTable "users" [textColumn "id" true false]),
        .dropColumn "posts" authored] := by decide
  refine ⟨⟨formed_usersAndPosts, formed_postsOnly⟩, hdiff, ?_⟩
  rw [hdiff]
  rintro ⟨ready, _⟩
  exact ready "posts" _ rfl (by decide) "author" _ ⟨"users", "id", "cascade"⟩ rfl rfl rfl

end Stakit.MigrationReady
