import Mathlib.Data.Set.Finite.List
import Stakit.PostgresRules

set_option autoImplicit false

namespace Stakit.MigrationOrder
open SchemaModel SchemaDiff MigrationStatements MigrationRuns MigrationTables PostgresRules List

def Refers (tables : List Table) (name other : String) : Prop :=
  name ≠ other ∧ ∃ table ∈ tables, table.name = name ∧
    ∃ column ∈ table.columns, ∃ fk, column.references = some fk ∧ fk.table = other

def Acyclic (tables : List Table) : Prop := ∀ name, ¬Relation.TransGen (Refers tables) name name

variable (names : List String) (catalog : Catalog) (tables : List Table)

theorem acyclic_of_one_way (source target : String) (hne : source ≠ target)
    (h : ∀ table ∈ tables, ∀ column ∈ table.columns, column.references.all
      (fun fk => table.name = source ∧ fk.table = target) = true) :
    Acyclic tables := by
  have hstep : ∀ name other, Refers tables name other → name = source ∧ other = target := by
    rintro name other ⟨_, table, htable, rfl, column, hcolumn, fk, hfk, rfl⟩
    have hsame := h table htable column hcolumn
    rw [hfk, Option.all_some, decide_eq_true_eq] at hsame
    exact hsame
  intro name hcycle
  have hends : ∀ other, Relation.TransGen (Refers tables) name other →
      name = source ∧ other = target := by
    intro other h
    induction h with
    | single h => exact hstep _ _ h
    | tail _ h ih => exact ⟨ih.1, (hstep _ _ h).2⟩
  obtain ⟨hfirst, hsecond⟩ := hends name hcycle
  exact hne (hfirst.symm.trans hsecond)

theorem exists_last {α : Type} {R : α → α → Prop} (acyclic : ∀ a, ¬Relation.TransGen R a a)
    {items : List α} (hne : items ≠ []) : ∃ a ∈ items, ∀ b ∈ items, ¬R a b := by
  obtain ⟨first, hfirst⟩ := exists_mem_of_ne_nil items hne
  let S := { a // a ∈ items }
  let after : S → S → Prop := fun a b => Relation.TransGen R b.1 a.1
  have htrans : IsTrans S after := ⟨fun _ _ _ hab hbc => hbc.trans hab⟩
  have hirrefl : Std.Irrefl after := ⟨fun a => acyclic a.1⟩
  have hfinite : Finite S := (finite_toSet items).to_subtype
  have hwf : WellFounded after := Finite.wellFounded_of_trans_of_irrefl after
  obtain ⟨last, _, hlast⟩ := hwf.has_min Set.univ ⟨⟨first, hfirst⟩, trivial⟩
  exact ⟨last.1, last.2, fun b hb hR => hlast ⟨b, hb⟩ trivial (Relation.TransGen.single hR)⟩

theorem dependsOnUnplaced_iff (inSet placed : List String) (table : Table) :
    dependsOnUnplaced inSet placed table = true ↔
      ∃ column ∈ table.columns, ∃ fk, column.references = some fk ∧ fk.table ≠ table.name ∧
        fk.table ∈ inSet ∧ fk.table ∉ placed := by
  simp only [dependsOnUnplaced, any_eq_true, Option.any_eq_true, Bool.and_eq_true,
    decide_eq_true_eq, and_assoc]

theorem exists_ready (acyclic : Acyclic tables) {inSet placed : List String}
    {remaining : List Table} (hne : remaining ≠ []) (hsub : ∀ table ∈ remaining, table ∈ tables)
    (hset : ∀ name ∈ inSet, name ∈ placed ∨ name ∈ remaining.map Table.name) :
    ∃ table ∈ remaining, dependsOnUnplaced inSet placed table = false := by
  have hnames : remaining.map Table.name ≠ [] := fun h => hne (map_eq_nil_iff.mp h)
  obtain ⟨name, hname, hlast⟩ := exists_last acyclic hnames
  obtain ⟨last, hmem, rfl⟩ := mem_map.mp hname
  refine ⟨last, hmem, Bool.eq_false_iff.mpr fun hdepends => ?_⟩
  obtain ⟨column, hcolumn, fk, hfk, hother, hin, hout⟩ :=
    (dependsOnUnplaced_iff inSet placed last).mp hdepends
  rcases hset fk.table hin with hplaced | hremaining
  · exact hout hplaced
  · exact hlast fk.table hremaining ⟨hother.symm, last, hsub last hmem, rfl, column, hcolumn, fk,
      hfk, rfl⟩

theorem taken_ready (acyclic : Acyclic tables) (inSet placed : List String)
    (remaining : List Table) (hsub : ∀ table ∈ remaining, table ∈ tables)
    (hset : ∀ name ∈ inSet, name ∈ placed ∨ name ∈ remaining.map Table.name) (table : Table)
    (h : (remaining.find? fun table => !dependsOnUnplaced inSet placed table).or remaining.head? =
      some table) :
    remaining.find? (fun table => !dependsOnUnplaced inSet placed table) = some table := by
  rcases Option.or_eq_some_iff.mp h with hfound | ⟨hnone, hhead⟩
  · exact hfound
  · exfalso
    have hne : remaining ≠ [] := ne_nil_of_mem (mem_of_head? hhead)
    obtain ⟨ready, hmem, hready⟩ := exists_ready tables acyclic hne hsub hset
    have hdepends := List.find?_eq_none.mp hnone ready hmem
    rw [hready] at hdepends
    exact hdepends rfl

theorem placed_or_left {inSet placed : List String} {remaining : List Table} (table : Table)
    (hset : ∀ name ∈ inSet, name ∈ placed ∨ name ∈ remaining.map Table.name) :
    ∀ name ∈ inSet, name ∈ placed ++ [table.name] ∨
      name ∈ (remaining.erase table).map Table.name := by
  intro name hname
  rcases hset name hname with hplaced | hremaining
  · exact .inl (mem_append_left _ hplaced)
  · obtain ⟨other, hother, rfl⟩ := mem_map.mp hremaining
    by_cases heq : other = table
    · exact .inl (mem_append_right _ (mem_singleton.mpr (by rw [heq])))
    · exact .inr (mem_map_of_mem ((mem_erase_of_ne heq).mpr hother))

def Ordered (inSet : List String) : List String → List Table → Prop
  | _, [] => True
  | placed, table :: rest =>
    dependsOnUnplaced inSet placed table = false ∧ Ordered inSet (placed ++ [table.name]) rest

theorem placeTables_ordered (acyclic : Acyclic tables) (inSet : List String) (rounds : ℕ)
    (placed : List String) (remaining : List Table) (hsub : ∀ table ∈ remaining, table ∈ tables)
    (hset : ∀ name ∈ inSet, name ∈ placed ∨ name ∈ remaining.map Table.name) :
    Ordered inSet placed (placeTables inSet rounds placed remaining) := by
  induction rounds generalizing placed remaining with
  | zero => trivial
  | succ rounds ih =>
    rw [placeTables]
    split
    · trivial
    · rename_i table hsome
      have hfound := taken_ready tables acyclic inSet placed remaining hsub hset table hsome
      have hfree := List.find?_some hfound
      refine ⟨by simpa using hfree,
        ih _ _ (fun other hother => hsub other (mem_of_mem_erase hother)) ?_⟩
      exact placed_or_left table hset

theorem topoSort_ordered {schema : Schema} (other : Schema) (acyclic : Acyclic schema.tables) :
    Ordered ((unmatchedTables schema other).map Table.name) []
      (topoSortCreates (unmatchedTables schema other)) :=
  placeTables_ordered schema.tables acyclic _ _ [] _
    (fun _ hmem => (mem_filter.mp hmem).1) fun _ hname => .inr hname

theorem Ordered.later (inSet : List String) (placed : List String) (tables : List Table)
    (h : Ordered inSet placed tables) (nodup : (placed ++ tables.map Table.name).Nodup)
    (hset : ∀ table ∈ tables, table.name ∈ inSet) :
    tables.Pairwise fun earlier later => ∀ column ∈ earlier.columns, ∀ fk,
      column.references = some fk → fk.table ≠ later.name := by
  induction tables generalizing placed with
  | nil => exact List.Pairwise.nil
  | cons table rest ih =>
    obtain ⟨hfree, hrest⟩ := h
    have hassoc : placed ++ (table :: rest).map Table.name =
        placed ++ [table.name] ++ rest.map Table.name := by simp
    have hnodup : (placed ++ [table.name] ++ rest.map Table.name).Nodup := hassoc ▸ nodup
    refine pairwise_cons.mpr ⟨?_, ih _ hrest hnodup fun other hother =>
      hset other (mem_cons_of_mem table hother)⟩
    intro later hlater column hcolumn fk hfk heq
    have hout : later.name ∉ placed ++ [table.name] := fun hin =>
      (nodup_append.mp hnodup).2.2 _ hin _ (mem_map_of_mem hlater) rfl
    have hdepends : dependsOnUnplaced inSet placed table = true := by
      refine (dependsOnUnplaced_iff inSet placed table).mpr ⟨column, hcolumn, fk, hfk, ?_, ?_, ?_⟩
      · rw [heq]
        exact fun h => hout (mem_append_right _ (mem_singleton.mpr h))
      · rw [heq]
        exact hset later (mem_cons_of_mem table hlater)
      · rw [heq]
        exact fun h => hout (mem_append_left _ h)
    rw [hfree] at hdepends
    cases hdepends

def RefersTo (catalog : Catalog) (table target : String) : Prop :=
  ∃ state column found fk, catalog.tables table = some state ∧
    state.columns column = some found ∧ found.references = some fk ∧ fk.table = target

theorem ready_dropTable (name : String) :
    Ready (.dropTable name) catalog ↔ ∀ table, table ≠ name → ¬RefersTo catalog table name := by
  constructor
  · rintro h table hne ⟨state, column, found, fk, htable, hcolumn, hfk, heq⟩
    exact h table state htable hne column found fk hcolumn hfk heq
  · intro h table state htable hne column found fk hcolumn hfk heq
    exact h table hne ⟨state, column, found, fk, htable, hcolumn, hfk, heq⟩

def without (names : List String) (catalog : Catalog) : Catalog :=
  { catalog with tables := fun name => if name ∈ names then none else catalog.tables name }

theorem refersTo_without (table target : String) : RefersTo (without names catalog) table target ↔
      table ∉ names ∧ RefersTo catalog table target := by
  unfold RefersTo without
  by_cases h : table ∈ names <;> simp [h]

theorem execute_dropTable (name : String) :
    execute (.dropTable name) (without names catalog) = without (names ++ [name]) catalog := by
  refine Catalog.ext ?_ rfl
  funext target
  by_cases h : name = target
  · simp [execute, Statement.onTable, without, h]
  · by_cases hin : target ∈ names <;>
      simp [execute, Statement.onTable, without, ripple, h, hin, eq_comm]

theorem applies_dropTables {names : List String} (gone : List String)
    (apart : names.Pairwise fun first later => ¬RefersTo catalog later first) :
    Applies (names.map Statement.dropTable) (without gone catalog) ↔
      ∀ name ∈ names, ∀ table, table ∉ gone → table ∉ names → ¬RefersTo catalog table name := by
  induction names generalizing gone with
  | nil => simp [Applies, GuardedRuns.Applies]
  | cons name rest ih =>
    obtain ⟨hfirst, hrest⟩ := pairwise_cons.mp apart
    rw [map_cons, Applies, GuardedRuns.Applies, ready_dropTable, execute_dropTable]
    change _ ∧ Applies _ _ ↔ _
    rw [ih (gone ++ [name]) hrest]
    constructor
    · rintro ⟨hname, hothers⟩ other hother table hgone hout
      rcases mem_cons.mp hother with rfl | hother
      · have hne : table ≠ other := fun heq => hout (heq ▸ mem_cons_self)
        exact fun hrefers => hname table hne ((refersTo_without _ _ _ _).mpr ⟨hgone, hrefers⟩)
      · refine hothers other hother table ?_ fun hin => hout (mem_cons_of_mem name hin)
        intro hin
        rcases mem_append.mp hin with hin | hin
        · exact hgone hin
        · exact hout (mem_singleton.mp hin ▸ mem_cons_self)
    · intro h
      refine ⟨fun table hne hrefers => ?_, fun other hother table hgone hout => ?_⟩
      · obtain ⟨hgone, hrefers⟩ := (refersTo_without _ _ _ _).mp hrefers
        by_cases hin : table ∈ rest
        · exact hfirst table hin hrefers
        · refine h name mem_cons_self table hgone ?_ hrefers
          exact fun hmem => (mem_cons.mp hmem).elim hne hin
      · refine h other (mem_cons_of_mem name hother) table
          (fun hin => hgone (mem_append_left _ hin)) ?_
        intro hmem
        rcases mem_cons.mp hmem with rfl | hmem
        · exact hgone (mem_append_right _ (mem_singleton.mpr rfl))
        · exact hout hmem

end Stakit.MigrationOrder
