import Stakit.MigrationSort

set_option autoImplicit false

namespace Stakit.MigrationWarnings
open SchemaModel SchemaDiff MigrationSort List

def wideningWarning : Change → Option String
  | .setRls table false => some (s!"disables row-level security on \"{table}\" — every row " ++
      "becomes visible to anyone with table access")
  | .setForceRls table false => some (s!"un-forces row-level security on \"{table}\" — the " ++
      "table owner now bypasses all policies")
  | _ => none

def wideningWarnings (changes : List Change) : List String := changes.filterMap wideningWarning

/-- What is to be said of a table that is kept: the two ways in which it gives up security. -/
def widened (old new : Table) : List String :=
  (if old.rls ∧ ¬new.rls then
    [s!"disables row-level security on \"{new.name}\" — every row " ++
      "becomes visible to anyone with table access"]
  else []) ++
  if old.forceRls ∧ ¬new.forceRls then
    [s!"un-forces row-level security on \"{new.name}\" — the " ++
      "table owner now bypasses all policies"]
  else []

theorem wideningWarning_part {change : Change} (h : isPart change = true) :
    wideningWarning change = none := by
  cases change <;> first | rfl | cases h

theorem keptChanges_widened (kept : KeptTable) :
    wideningWarnings (keptChanges kept) = widened kept.old kept.new := by
  have htable : (diffTable kept).filterMap wideningWarning = [] :=
    filterMap_eq_nil_iff.mpr fun change h => wideningWarning_part (diffTable_part h)
  have hgrants : (diffGrants kept.old kept.new).filterMap wideningWarning = [] :=
    filterMap_eq_nil_iff.mpr fun change h => wideningWarning_part (diffGrants_part h)
  unfold wideningWarnings keptChanges diffTableRls diffPolicies diffTableIndexes widened
  simp only [filterMap_append, htable, hgrants, nil_append, append_nil,
    filterMap_map_none wideningWarning _ (Change.dropPolicy _) fun _ => rfl,
    filterMap_map_none wideningWarning _ (Change.createPolicy _) fun _ => rfl,
    filterMap_map_none wideningWarning _ (Change.dropIndex _) fun _ => rfl,
    filterMap_map_none wideningWarning _ (Change.createIndex _) fun _ => rfl]
  cases kept.old.rls <;> cases kept.new.rls <;> cases kept.old.forceRls <;>
    cases kept.new.forceRls <;> rfl

variable {σ : Type} (resolver : Resolver σ) (state : σ)

theorem keptTables_widened (old : Schema) (tables : List Table) :
    ((keptTables resolver old state tables).flatMap fun kept => widened kept.old kept.new) =
      tables.flatMap fun table => (old.table table.name).elim [] (widened · table) := by
  induction tables generalizing state with
  | nil => rfl
  | cons table rest ih =>
    rw [keptTables, flatMap_cons]
    cases old.table table.name with
    | none => exact ih state
    | some previous =>
      dsimp only
      rw [flatMap_cons, ih]
      rfl

/-- A migration warns of each kept table that gives up row-level security, and of nothing
else, whatever is answered about renames. -/
theorem wideningWarnings_diff (old new : Schema) : wideningWarnings (diff resolver state old new) =
      new.tables.flatMap fun table => (old.table table.name).elim [] (widened · table) := by
  have hroles := filterMap_flatMap_none wideningWarning new.roles (roleChanges old)
    fun role _ change h => wideningWarning_part (roleChanges_part h)
  rw [← keptTables_widened resolver state, wideningWarnings, diff]
  simp only [filterMap_append, hroles, nil_append, append_nil,
    filterMap_map_none wideningWarning _ Change.dropTable fun _ => rfl,
    filterMap_map_none wideningWarning _ Change.createTable fun _ => rfl,
    filterMap_map_none wideningWarning _ Change.dropRole fun _ => rfl, filterMap_flatMap]
  exact flatMap_congr fun kept _ => keptChanges_widened kept

end Stakit.MigrationWarnings
