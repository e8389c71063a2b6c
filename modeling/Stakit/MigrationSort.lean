import Stakit.GreedyOrders
import Stakit.MigrationOrder
import Stakit.MigrationTarget

set_option autoImplicit false

namespace Stakit.MigrationSort
open SchemaModel SchemaDiff MigrationOrder MigrationTarget GreedyOrders List

/-- One table has a foreign key to another. -/
def References (table other : Table) : Prop :=
  table.name ≠ other.name ∧
    ∃ column ∈ table.columns, ∃ fk, column.references = some fk ∧ fk.table = other.name

def droppedTable : Change → Option Table
  | .dropTable table => some table
  | _ => none

/-- Neither a table of its own nor a switch of row-level security. -/
def isPart : Change → Bool
  | .createTable _ | .dropTable _ | .setRls _ _ | .setForceRls _ _ => false
  | _ => true

theorem placeTables_rounds (inSet placed : List String) (rounds more : ℕ) (tables : List Table)
    (h : tables.length ≤ rounds) :
    placeTables inSet (rounds + more) placed tables = placeTables inSet rounds placed tables := by
  induction rounds generalizing placed tables with
  | zero =>
    rw [length_eq_zero_iff.mp (Nat.le_zero.mp h)]
    cases more <;> rfl
  | succ rounds ih =>
    rw [Nat.succ_add, placeTables, placeTables]
    split
    · rfl
    · rename_i table hsome
      have hmem : table ∈ tables := by
        rcases Option.or_eq_some_iff.mp hsome with hfound | ⟨_, hhead⟩
        · exact mem_of_find?_eq_some hfound
        · exact mem_of_head? hhead
      have hlength : (tables.erase table).length ≤ rounds := by
        rw [length_erase_of_mem hmem]
        omega
      rw [ih _ _ hlength]

section
variable (tables : List Table) (distinct : (tables.map Table.name).Nodup)
include distinct

theorem mem_of_name {front : List Table} (hfront : ∀ table ∈ front, table ∈ tables)
    {other : Table} (hother : other ∈ tables) (h : other.name ∈ front.map Table.name) :
    other ∈ front := by
  obtain ⟨found, hfound, hname⟩ := mem_map.mp h
  exact inj_on_of_nodup_map distinct (hfront found hfound) hother hname ▸ hfound

theorem ready_iff (front : List Table) (hfront : ∀ table ∈ front, table ∈ tables)
    (table : Table) :
    dependsOnUnplaced (tables.map Table.name) (front.map Table.name) table = false ↔
      ∀ other ∈ tables, References table other → other ∈ front := by
  rw [Bool.eq_false_iff, ne_eq, dependsOnUnplaced_iff]
  constructor
  · rintro h other hother ⟨hne, column, hcolumn, fk, hfk, hname⟩
    by_contra hout
    refine h ⟨column, hcolumn, fk, hfk, ?_, ?_, ?_⟩
    · exact fun heq => hne (heq.symm.trans hname)
    · exact hname ▸ mem_map_of_mem hother
    · exact fun hin => hout (mem_of_name tables distinct hfront hother (hname ▸ hin))
  · rintro h ⟨column, hcolumn, fk, hfk, hne, hin, hout⟩
    obtain ⟨other, hother, hname⟩ := mem_map.mp hin
    have hmem := h other hother
      ⟨fun heq => hne (hname.symm.trans heq.symm), column, hcolumn, fk, hfk, hname.symm⟩
    exact hout (hname ▸ mem_map_of_mem hmem)

variable (acyclic : Acyclic tables)
include acyclic

theorem placeTables_takes (rounds : ℕ) (front remaining : List Table)
    (hperm : (front ++ remaining).Perm tables) (hrounds : remaining.length = rounds) :
    Takes References tables front remaining
      (placeTables (tables.map Table.name) rounds (front.map Table.name) remaining) := by
  induction rounds generalizing front remaining with
  | zero => exact length_eq_zero_iff.mp hrounds
  | succ rounds ih =>
    have hfront : ∀ table ∈ front, table ∈ tables := fun table hmem =>
      hperm.subset (mem_append_left remaining hmem)
    have hsub : ∀ table ∈ remaining, table ∈ tables := fun table hmem =>
      hperm.subset (mem_append_right front hmem)
    have hset : ∀ name ∈ tables.map Table.name, name ∈ front.map Table.name ∨
        name ∈ remaining.map Table.name := by
      intro name hname
      rw [← mem_append, ← map_append]
      exact ((hperm.map Table.name).mem_iff).mpr hname
    have hnodup : remaining.Nodup :=
      (nodup_append.mp (hperm.nodup_iff.mpr (List.Nodup.of_map _ distinct))).2.1
    rw [placeTables]
    split
    · rename_i hnone
      rw [List.head?_eq_none_iff.mp (Option.or_eq_none_iff.mp hnone).2] at hrounds
      cases hrounds
    · rename_i table hsome
      have hfound := taken_ready tables acyclic _ _ remaining hsub hset table hsome
      obtain ⟨hready, before, after, hsplit, hbefore⟩ :=
        List.find?_eq_some_iff_append.mp hfound
      have hmem := mem_of_find?_eq_some hfound
      refine ⟨hmem, (ready_iff tables distinct front hfront table).mp (by simpa using hready),
        ?_, ?_⟩
      · intro other hother
        have hin : other ∈ before :=
          Before.mem_front before after table other (hsplit ▸ hnodup) (hsplit ▸ hother)
        have hdepends : dependsOnUnplaced (tables.map Table.name) (front.map Table.name) other ≠
            false := by simpa using hbefore other hin
        rw [ne_eq, ready_iff tables distinct front hfront] at hdepends
        push Not at hdepends
        exact hdepends
      · have hrest : (front ++ [table] ++ remaining.erase table).Perm tables := by
          rw [append_assoc]
          exact ((perm_cons_erase hmem).symm.append_left front).trans hperm
        have hlength : (remaining.erase table).length = rounds := by
          rw [length_erase_of_mem hmem, hrounds]
          rfl
        have htakes := ih (front ++ [table]) (remaining.erase table) hrest hlength
        rw [map_append] at htakes
        exact htakes

theorem topoSortCreates_greedy : GreedyOrder References tables (topoSortCreates tables) :=
  Takes.greedy References tables (List.Nodup.of_map _ distinct)
    (placeTables_takes tables distinct acyclic tables.length [] tables (List.Perm.refl tables) rfl)

end

theorem filterMap_flatMap_none {α β : Type} (read : Change → Option β) (items : List α)
    (changes : α → List Change)
    (h : ∀ item ∈ items, ∀ change ∈ changes item, read change = none) :
    (items.flatMap changes).filterMap read = [] := by
  rw [filterMap_eq_nil_iff]
  intro change hchange
  obtain ⟨item, hitem, hmem⟩ := mem_flatMap.mp hchange
  exact h item hitem change hmem

theorem droppedTable_part {change : Change} (h : isPart change = true) :
    droppedTable change = none := by
  cases change <;> first | rfl | cases h

theorem roleChanges_part {old : Schema} {role : Role} {change : Change}
    (h : change ∈ roleChanges old role) : isPart change = true := by
  rw [roleChanges] at h
  split at h
  · rw [mem_singleton.mp h]
    rfl
  · split at h
    · rw [mem_singleton.mp h]
      rfl
    · cases h

theorem diffTable_part {kept : KeptTable} {change : Change} (h : change ∈ diffTable kept) :
    isPart change = true := by
  simp only [diffTable, mem_append, mem_flatMap, mem_map] at h
  rcases h with (h | ⟨move, _, h⟩) | ⟨column, _, rfl⟩
  · obtain ⟨column, _, hchange⟩ := mem_filterMap.mp h
    obtain ⟨previous, _, hif⟩ := Option.bind_eq_some_iff.mp hchange
    split at hif
    · rw [← Option.some.inj hif]
      rfl
    · cases hif
  · rw [moveChanges] at h
    split at h
    · rw [mem_singleton.mp h]
      rfl
    · rcases mem_cons.mp h with rfl | h
      · rfl
      · split at h
        · rw [mem_singleton.mp h]
          rfl
        · cases h
  · rfl

theorem diffGrants_part {old new : Table} {change : Change} (h : change ∈ diffGrants old new) :
    isPart change = true := by
  rcases mem_append.mp h with h | h
  · obtain ⟨grant, _, hchange⟩ := mem_flatMap.mp h
    rw [grantChanges] at hchange
    split at hchange
    · rw [mem_singleton.mp hchange]
      rfl
    · split at hchange
      · rcases mem_pair.mp hchange with rfl | rfl <;> rfl
      · cases hchange
  · obtain ⟨grant, _, rfl⟩ := mem_map.mp h
    rfl

theorem diffTableRls_drop {old new : Table} {change : Change}
    (h : change ∈ diffTableRls old new) : droppedTable change = none := by
  rcases mem_append.mp h with h | hpolicy
  · rcases mem_append.mp h with h | hgrant
    · rcases mem_append.mp h with hrls | hforce
      · split at hrls
        · rw [mem_singleton.mp hrls]
          rfl
        · cases hrls
      · split at hforce
        · rw [mem_singleton.mp hforce]
          rfl
        · cases hforce
    · exact droppedTable_part (diffGrants_part hgrant)
  · rcases mem_append.mp hpolicy with h | h
    · obtain ⟨policy, _, rfl⟩ := mem_map.mp h
      rfl
    · obtain ⟨policy, _, rfl⟩ := mem_map.mp h
      rfl

theorem keptChanges_drop {kept : KeptTable} {change : Change} (h : change ∈ keptChanges kept) :
    droppedTable change = none := by
  rcases mem_append.mp h with h | hindex
  · rcases mem_append.mp h with htable | hrls
    · exact droppedTable_part (diffTable_part htable)
    · exact diffTableRls_drop hrls
  · rcases mem_append.mp hindex with h | h
    · obtain ⟨index, _, rfl⟩ := mem_map.mp h
      rfl
    · obtain ⟨index, _, rfl⟩ := mem_map.mp h
      rfl

theorem filterMap_map_none {α β : Type} (read : Change → Option β) (items : List α)
    (change : α → Change) (h : ∀ item, read (change item) = none) :
    (items.map change).filterMap read = [] := by
  rw [filterMap_eq_nil_iff]
  intro found hfound
  obtain ⟨item, _, rfl⟩ := mem_map.mp hfound
  exact h item

theorem diff_dropped {σ : Type} (resolver : Resolver σ) (state : σ) (old new : Schema) :
    (diff resolver state old new).filterMap droppedTable =
      (topoSortCreates (unmatchedTables old new)).reverse := by
  have hdrops : ∀ tables : List Table,
      (tables.map Change.dropTable).filterMap droppedTable = tables := by
    intro tables
    rw [filterMap_map]
    exact filterMap_some
  have hroles := filterMap_flatMap_none droppedTable new.roles (roleChanges old)
    fun role _ change h => droppedTable_part (roleChanges_part h)
  have hkept := filterMap_flatMap_none droppedTable (keptTables resolver old state new.tables)
    keptChanges fun kept _ change h => keptChanges_drop h
  rw [diff, filterMap_append, filterMap_append, filterMap_append,
    filterMap_append, hroles, hkept, hdrops,
    filterMap_map_none _ _ Change.createTable fun _ => rfl,
    filterMap_map_none _ _ Change.dropRole fun _ => rfl]
  simp only [nil_append, append_nil]

theorem sorted_later {tables : List Table} (distinct : (tables.map Table.name).Nodup)
    (acyclic : Acyclic tables) :
    (topoSortCreates tables).Pairwise fun earlier later => ¬References earlier later := by
  have hgreedy := topoSortCreates_greedy tables distinct acyclic
  have hnodup := hgreedy.perm.nodup_iff.mpr (List.Nodup.of_map _ distinct)
  rw [pairwise_iff_forall_sublist]
  intro earlier later hsub hrefers
  obtain ⟨front, back, hsplit⟩ := append_of_mem (hsub.subset mem_cons_self)
  have hlater := hgreedy.perm.subset (hsub.subset (mem_cons_of_mem earlier mem_cons_self))
  have hin := hgreedy.met front earlier back hsplit later hlater hrefers
  obtain ⟨before, between, rfl⟩ := append_of_mem hin
  rw [hsplit] at hsub hnodup
  rw [append_assoc, cons_append] at hsub hnodup
  have hbefore : earlier ∈ before := Before.mem_front before _ later earlier hnodup hsub
  exact (nodup_append.mp hnodup).2.2 _ hbefore _ (mem_cons_of_mem later
    (mem_append_right between mem_cons_self)) rfl

/-- For tables of distinct names and any foreign keys the loop ends after a round for each
table and returns every table once. Without cycles it returns the one greedy order, and
tables that `diff` drops stand before those that they refer to. -/
theorem topoSortCreates_sorts {σ : Type} (resolver : Resolver σ) (state : σ)
    (tables : List Table) (distinct : (tables.map Table.name).Nodup) :
    (∀ more, placeTables (tables.map Table.name) (tables.length + more) [] tables =
      topoSortCreates tables) ∧
    (topoSortCreates tables).Perm tables ∧
    (Acyclic tables → GreedyOrder References tables (topoSortCreates tables) ∧
      (∀ order, GreedyOrder References tables order → order = topoSortCreates tables) ∧
      ∀ old new : Schema, unmatchedTables old new = tables →
        ((diff resolver state old new).filterMap droppedTable).Perm tables ∧
        ((diff resolver state old new).filterMap droppedTable).Pairwise
          fun earlier later => ¬References later earlier) := by
  refine ⟨fun more => placeTables_rounds _ [] tables.length more tables (Nat.le_refl _),
    topoSortCreates_perm tables, fun acyclic => ?_⟩
  have hgreedy := topoSortCreates_greedy tables distinct acyclic
  refine ⟨hgreedy, fun order h => GreedyOrder.unique _ _ _ _ h hgreedy, ?_⟩
  rintro old new rfl
  rw [diff_dropped]
  exact ⟨(reverse_perm _).trans (topoSortCreates_perm _),
    pairwise_reverse.mpr (sorted_later distinct acyclic)⟩

def invites : Table :=
  plainTable "account_invites" [{ textColumn "account_id" false false with
    references := some ⟨"accounts", "id", "cascade"⟩ }]

def accounts : Table := plainTable "accounts" [textColumn "id" true false]

theorem topoSortCreates_sorts_accounts : topoSortCreates [invites, accounts] = [accounts, invites] ∧
    ((diff never () ⟨[invites, accounts], []⟩ ⟨[], []⟩).filterMap droppedTable).Pairwise
      fun earlier later => ¬References later earlier := by
  have hsorts := topoSortCreates_sorts never () [invites, accounts] (by decide)
  have acyclic : Acyclic [invites, accounts] :=
    acyclic_of_one_way _ "account_invites" "accounts" (by decide) (by decide)
  exact ⟨by decide, ((hsorts.2.2 acyclic).2.2 ⟨[invites, accounts], []⟩ ⟨[], []⟩ (by decide)).2⟩

end Stakit.MigrationSort
