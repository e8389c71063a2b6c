import Stakit.FiniteMap
import Stakit.OrmConditions

set_option autoImplicit false

namespace Stakit.Orm
open FiniteMap BooleanSyntax List

section
variable {ε P C K : Type} [DecidableEq K]

structure KeyColumn (K : Type) where
  table : String
  name : String
  kind : ValueKind
  toValue : K → Value

def KeyColumn.anyOf (column : KeyColumn K) (keys : List K) : Predicate :=
  Orm.anyOf column.table column.name column.kind (keys.map column.toValue)

/-- `find::<C>().filter(…).all()` -/
abbrev Query (ε C : Type) : Type := Predicate → Except ε (List C)

def groupByKey (childKey : C → K) (children : List C) : Map K (List C) :=
  children.foldl (fun grouped child => grouped.insert (childKey child)
    ((grouped.lookup (childKey child)).getD [] ++ [child])) ∅

def takeGroups (parentKey : P → K) : Map K (List C) → List P → List (P × List C)
  | _, [] => []
  | grouped, parent :: parents =>
    (parent, (grouped.lookup (parentKey parent)).getD []) ::
      takeGroups parentKey (grouped.erase (parentKey parent)) parents

def loadHasMany (all : Query ε C) (parents : List P) (childFk : KeyColumn K) (parentKey : P → K)
    (childKey : C → K) : Except ε (List (P × List C)) :=
  if parents.isEmpty then .ok []
  else do
    let children ← all (childFk.anyOf (parents.map parentKey))
    return takeGroups parentKey (groupByKey childKey children) parents

def collectByKey (parentKey : P → K) (parents : List P) : Map K P :=
  parents.foldl (fun byKey parent => byKey.insert (parentKey parent) parent) ∅

def loadBelongsTo (all : Query ε P) (children : List C) (childKey : C → K)
    (parentPk : KeyColumn K) (parentKey : P → K) : Except ε (List (C × Option P)) :=
  if children.isEmpty then .ok []
  else do
    let parents ← all (parentPk.anyOf (children.map childKey))
    return children.map fun child =>
      (child, (collectByKey parentKey parents).lookup (childKey child))

end

/-- The rows of a table in the order a query returns them, with a key column: what is read as a
row's key is bound as the row's own cell, and a value equals itself. -/
structure KeyedRows (C K V : Type) (column : KeyColumn K) (key : C → K) where
  rows : List C
  cell : C → String → String → Option V
  bound : Value → Option V
  same : V → V → Bool
  bound_null : ∀ kind, bound (.null kind) = none
  stored : ∀ row ∈ rows, cell row column.table column.name = bound (column.toValue (key row)).payload
  same_refl : ∀ v, same v v = true

section
variable {ε P C K V : Type} {column : KeyColumn K} {key : C → K}

namespace KeyedRows

def cells (table : KeyedRows C K V column key) (row : C) : Cells V :=
  ⟨table.cell row, table.bound, table.same, table.bound_null⟩

/-- The rows that the condition is true of, once its values are bound. -/
def query (table : KeyedRows C K V column key) : Query ε C :=
  fun predicate => .ok (table.rows.filter fun row => (table.cells row).selects predicate = some true)

def boundKey (table : KeyedRows C K V column key) (k : K) : Option V :=
  table.bound (column.toValue k).payload

/-- The row has this key, and the key is no null. -/
def Linked (table : KeyedRows C K V column key) (k : K) (row : C) : Prop :=
  key row = k ∧ (table.boundKey k).isSome

instance [DecidableEq K] (table : KeyedRows C K V column key) (k : K) (row : C) : Decidable (table.Linked k row) :=
  inferInstanceAs (Decidable (_ ∧ _))

end KeyedRows

theorem among_eq_true (cells : Cells V) (x : Option V) (items : List (Option V)) :
    cells.among x items = some true ↔ ∃ item ∈ items, cells.equals x item = some true := by
  induction items with
  | nil => exact ⟨nofun, fun ⟨_, h, _⟩ => absurd h not_mem_nil⟩
  | cons item items ih => rw [Cells.among, either_eq_true, ih, exists_mem_cons_iff]

namespace KeyedRows
variable (table : KeyedRows C K V column key)

theorem selects_own {row : C} (hrow : row ∈ table.rows) {keys : List K} (hkey : key row ∈ keys)
    (hsome : (table.boundKey (key row)).isSome) :
    (table.cells row).selects (column.anyOf keys) = some true := by
  obtain ⟨v, hv⟩ := Option.isSome_iff_exists.mp hsome
  have hcell : table.cell row column.table column.name = some v :=
    (table.stored row hrow).trans hv
  refine (among_eq_true _ _ _).mpr ⟨some v, ?_, ?_⟩
  · rw [map_map]
    exact mem_map.mpr ⟨key row, hkey, hv⟩
  · change (table.cells row).equals (table.cell row column.table column.name) (some v) = _
    rw [hcell]
    exact congrArg some (table.same_refl v)

theorem selects_some {row : C} (hrow : row ∈ table.rows) {keys : List K}
    (h : (table.cells row).selects (column.anyOf keys) = some true) :
    (table.boundKey (key row)).isSome := by
  obtain ⟨item, _, hequal⟩ := (among_eq_true _ _ _).mp h
  change (table.cells row).equals (table.cell row column.table column.name) item = _ at hequal
  rw [table.stored row hrow] at hequal
  unfold boundKey
  cases hbound : table.bound (column.toValue (key row)).payload with
  | some v => rfl
  | none =>
    rw [hbound] at hequal
    cases hequal

variable [DecidableEq K]

theorem fetched_linked (keys : List K) (k : K) (hk : k ∈ keys) :
    (table.rows.filter fun row => (table.cells row).selects (column.anyOf keys) = some true).filter
      (fun row => key row = k) = table.rows.filter fun row => table.Linked k row := by
  rw [filter_filter]
  refine filter_congr fun row hrow => ?_
  rw [← Bool.decide_and, decide_eq_decide]
  constructor
  · rintro ⟨rfl, hselects⟩
    exact ⟨rfl, table.selects_some hrow hselects⟩
  · rintro ⟨rfl, hsome⟩
    exact ⟨rfl, table.selects_own hrow hk hsome⟩

end KeyedRows

variable [DecidableEq K]

theorem lookup_groupByKey (childKey : C → K) (children : List C) (k : K) :
    ((groupByKey childKey children).lookup k).getD [] =
      children.filter fun child => childKey child = k := by
  have hgroups (grouped : Map K (List C)) : ((children.foldl (fun grouped child =>
      grouped.insert (childKey child) ((grouped.lookup (childKey child)).getD [] ++ [child]))
      grouped).lookup k).getD [] =
        (grouped.lookup k).getD [] ++ children.filter fun child => childKey child = k := by
    induction children generalizing grouped with
    | nil => exact (append_nil _).symm
    | cons child children ih =>
      rw [foldl_cons, ih, lookup_insert_ite, filter_cons]
      by_cases hk : k = childKey child
      · subst hk
        rw [if_pos rfl, if_pos (decide_eq_true rfl), Option.getD_some, append_assoc]
        rfl
      · rw [if_neg hk, if_neg fun h => hk (of_decide_eq_true h).symm]
  exact hgroups ∅

theorem takeGroups_eq_iff (parentKey : P → K) (group : K → List C) (grouped : Map K (List C))
    (parents : List P) :
    takeGroups parentKey grouped parents = parents.map (fun p => (p, group (parentKey p))) ↔
      (∀ p ∈ parents, (grouped.lookup (parentKey p)).getD [] = group (parentKey p)) ∧
      parents.Pairwise fun p q => parentKey p = parentKey q → group (parentKey p) = [] := by
  induction parents generalizing grouped with
  | nil => exact iff_of_true rfl ⟨nofun, .nil⟩
  | cons p parents ih =>
    rw [takeGroups, map_cons, List.cons.injEq, Prod.mk.injEq, ih, forall_mem_cons, pairwise_cons]
    simp only [lookup_erase_ite]
    constructor
    · rintro ⟨⟨_, hp⟩, hrest, hpairs⟩
      refine ⟨⟨hp, fun q hq => ?_⟩, fun q hq hkey => ?_, hpairs⟩
      · by_cases hkey : parentKey q = parentKey p
        · rw [hkey, hp]
        · rw [← hrest q hq, if_neg hkey]
      · have hempty := hrest q hq
        rw [if_pos hkey.symm] at hempty
        rw [hkey, ← hempty]
        rfl
    · rintro ⟨⟨hp, hrest⟩, hfirst, hpairs⟩
      refine ⟨⟨trivial, hp⟩, fun q hq => ?_, hpairs⟩
      by_cases hkey : parentKey q = parentKey p
      · rw [if_pos hkey, hkey, hfirst q hq hkey.symm]
        rfl
      · rw [if_neg hkey]
        exact hrest q hq

theorem lookup_collectByKey (parentKey : P → K) (parents : List P) (k : K) :
    (∀ p, (collectByKey parentKey parents).lookup k = some p → p ∈ parents ∧ parentKey p = k) ∧
    ((collectByKey parentKey parents).lookup k = none → ∀ p ∈ parents, parentKey p ≠ k) := by
  have hcollect (byKey : Map K P) :
      let collected := parents.foldl (fun byKey p => byKey.insert (parentKey p) p) byKey
      (∀ p, collected.lookup k = some p →
        (p ∈ parents ∧ parentKey p = k) ∨ byKey.lookup k = some p) ∧
      (collected.lookup k = none → byKey.lookup k = none ∧ ∀ p ∈ parents, parentKey p ≠ k) := by
    induction parents generalizing byKey with
    | nil => exact ⟨fun p h => .inr h, fun h => ⟨h, nofun⟩⟩
    | cons first parents ih =>
      obtain ⟨hsome, hnone⟩ := ih (byKey.insert (parentKey first) first)
      refine ⟨fun p h => ?_, fun h => ?_⟩
      · rcases hsome p h with ⟨hp, hkey⟩ | hlookup
        · exact .inl ⟨mem_cons_of_mem _ hp, hkey⟩
        · rw [lookup_insert_ite] at hlookup
          split at hlookup
          · next hkey =>
            cases hlookup
            exact .inl ⟨mem_cons_self, hkey.symm⟩
          · exact .inr hlookup
      · obtain ⟨hlookup, hrest⟩ := hnone h
        rw [lookup_insert_ite] at hlookup
        split at hlookup
        · cases hlookup
        · next hkey => exact ⟨hlookup, forall_mem_cons.mpr ⟨Ne.symm hkey, hrest⟩⟩
  obtain ⟨hsome, hnone⟩ := hcollect ∅
  exact ⟨fun p h => (hsome p h).resolve_right nofun, fun h => (hnone h).2⟩

/-- Every parent in order, with the rows of its key in the order of the query. -/
def HasManyExact (table : KeyedRows C K V column key) (parents : List P) (parentKey : P → K)
    (result : Except ε (List (P × List C))) : Prop :=
  result = .ok (parents.map fun parent =>
    (parent, table.rows.filter fun row => table.Linked (parentKey parent) row))

/-- Every child in order, with a row of its key or, where there is none, without. -/
def BelongsToExact (table : KeyedRows C K V column key) (children : List P) (childKey : P → K)
    (result : Except ε (List (P × Option C))) : Prop :=
  ∃ found : P → Option C, result = .ok (children.map fun child => (child, found child)) ∧
    ∀ child ∈ children,
      (∀ row, found child = some row → row ∈ table.rows ∧ table.Linked (childKey child) row) ∧
      (found child = none → ∀ row ∈ table.rows, ¬table.Linked (childKey child) row)

theorem loadHasMany_exact_iff (table : KeyedRows C K V column key) (parents : List P)
    (parentKey : P → K) :
    HasManyExact table parents parentKey
        (loadHasMany (ε := ε) table.query parents column parentKey key) ↔
      parents.Pairwise fun p q => parentKey p = parentKey q →
        ∀ row ∈ table.rows, ¬table.Linked (parentKey p) row := by
  have hgroups : ∀ p ∈ parents, ((groupByKey key (table.rows.filter fun row =>
      (table.cells row).selects (column.anyOf (parents.map parentKey)) = some true)).lookup
        (parentKey p)).getD [] = table.rows.filter fun row => table.Linked (parentKey p) row := by
    intro p hp
    rw [lookup_groupByKey]
    exact table.fetched_linked _ _ (mem_map_of_mem hp)
  unfold HasManyExact loadHasMany
  split
  · next hempty =>
    obtain rfl := isEmpty_iff.mp hempty
    exact iff_of_true rfl .nil
  · change Except.ok (takeGroups parentKey (groupByKey key (table.rows.filter fun row =>
      (table.cells row).selects (column.anyOf (parents.map parentKey)) = some true)) parents) = _ ↔ _
    rw [Except.ok.injEq]
    refine (takeGroups_eq_iff parentKey (fun k => table.rows.filter fun row => table.Linked k row)
      _ parents).trans ((and_iff_right hgroups).trans ?_)
    simp only [filter_eq_nil_iff, decide_eq_true_eq]

theorem loadBelongsTo_exact (table : KeyedRows C K V column key) (children : List P)
    (childKey : P → K) :
    BelongsToExact table children childKey
      (loadBelongsTo (ε := ε) table.query children childKey column key) := by
  unfold loadBelongsTo
  split
  · next hempty =>
    obtain rfl := isEmpty_iff.mp hempty
    exact ⟨fun _ => none, rfl, nofun⟩
  · refine ⟨_, rfl, fun child hchild => ?_⟩
    have hfetched := table.fetched_linked (children.map childKey) (childKey child)
      (mem_map_of_mem hchild)
    have hmem (row : C) : row ∈ table.rows ∧ table.Linked (childKey child) row ↔
        row ∈ (table.rows.filter fun row =>
          (table.cells row).selects (column.anyOf (children.map childKey)) = some true) ∧
          key row = childKey child := by
      have hlinked : row ∈ table.rows ∧ table.Linked (childKey child) row ↔
          row ∈ table.rows.filter fun row => table.Linked (childKey child) row := by
        rw [mem_filter, decide_eq_true_eq]
      rw [hlinked, ← hfetched, mem_filter (p := fun row => decide (key row = childKey child)),
        decide_eq_true_eq]
    obtain ⟨hsome, hnone⟩ := lookup_collectByKey key (table.rows.filter fun row =>
      (table.cells row).selects (column.anyOf (children.map childKey)) = some true)
      (childKey child)
    refine ⟨fun row hrow => (hmem row).mpr (hsome row hrow), fun hlookup row hrow hlinked => ?_⟩
    obtain ⟨hin, hkey⟩ := (hmem row).mp ⟨hrow, hlinked⟩
    exact hnone hlookup row hin hkey

/-- The query of a driver that cannot bind every condition: Postgres takes the keys as one array
and refuses a null in it. -/
def KeyedRows.queryBound (table : KeyedRows C K V column key) (refused : Predicate → Option ε) :
    Query ε C :=
  fun predicate => (refused predicate).elim (table.query predicate) .error

theorem loadHasMany_queryBound (table : KeyedRows C K V column key)
    (refused : Predicate → Option ε) {parents : List P} (parentKey : P → K) (hne : parents ≠ []) :
    loadHasMany (table.queryBound refused) parents column parentKey key =
      (refused (column.anyOf (parents.map parentKey))).elim
        (loadHasMany table.query parents column parentKey key) .error := by
  have hsome : parents.isEmpty = false := isEmpty_eq_false_iff.mpr hne
  unfold loadHasMany KeyedRows.queryBound
  rw [hsome]
  cases refused (column.anyOf (parents.map parentKey)) <;> rfl

theorem loadBelongsTo_queryBound (table : KeyedRows C K V column key)
    (refused : Predicate → Option ε) {children : List P} (childKey : P → K) (hne : children ≠ []) :
    loadBelongsTo (table.queryBound refused) children childKey column key =
      (refused (column.anyOf (children.map childKey))).elim
        (loadBelongsTo table.query children childKey column key) .error := by
  have hsome : children.isEmpty = false := isEmpty_eq_false_iff.mpr hne
  unfold loadBelongsTo KeyedRows.queryBound
  rw [hsome]
  cases refused (column.anyOf (children.map childKey)) <;> rfl

end

/-- Both directions of a relation are loaded exactly when no two parents have one key that some
row belongs to. -/
theorem eager_loading_iff {ε P C K V P' C' K' V' : Type} [DecidableEq K] [DecidableEq K']
    {column : KeyColumn K} {key : C → K} (childTable : KeyedRows C K V column key)
    (parents : List P) (parentKey : P → K)
    {pkColumn : KeyColumn K'} {pk : P' → K'} (parentTable : KeyedRows P' K' V' pkColumn pk)
    (children : List C') (childKey : C' → K') :
    HasManyExact childTable parents parentKey
        (loadHasMany (ε := ε) childTable.query parents column parentKey key) ∧
      BelongsToExact parentTable children childKey
        (loadBelongsTo (ε := ε) parentTable.query children childKey pkColumn pk) ↔
    parents.Pairwise fun p q => parentKey p = parentKey q →
      ∀ row ∈ childTable.rows, ¬childTable.Linked (parentKey p) row := by
  rw [loadHasMany_exact_iff]
  exact and_iff_left (loadBelongsTo_exact parentTable children childKey)

def authorColumn : KeyColumn ℤ := ⟨"books", "author_id", .i64, .i64⟩

def bookRows : KeyedRows ℕ ℤ ℤ authorColumn (fun _ => 1) where
  rows := [7]
  cell _ _ _ := some 1
  bound
    | .i64 n => some n
    | _ => none
  same a b := a = b
  bound_null _ := rfl
  stored _ _ := rfl
  same_refl _ := decide_eq_true rfl

/-- Two editions name author 1: only the first is given the book. -/
theorem shared_key_loses_group :
    loadHasMany (ε := Error) bookRows.query [10, 11] authorColumn (fun _ : ℕ => 1) (fun _ => 1) =
      .ok [(10, [7]), (11, [])] ∧
    ¬(HasManyExact bookRows [10, 11] (fun _ : ℕ => 1)
        (loadHasMany (ε := Error) bookRows.query [10, 11] authorColumn (fun _ => 1) fun _ => 1) ∧
      BelongsToExact bookRows [10] (fun _ : ℕ => 1)
        (loadBelongsTo (ε := Error) bookRows.query [10] (fun _ => 1) authorColumn fun _ => 1)) := by
  have hloaded : loadHasMany (ε := Error) bookRows.query [10, 11] authorColumn (fun _ : ℕ => 1)
      (fun _ => 1) = .ok [(10, [7]), (11, [])] := rfl
  refine ⟨hloaded, fun h => ?_⟩
  have hexact := h.1
  rw [HasManyExact, hloaded] at hexact
  have hgroups := congrArg (List.map Prod.snd) (Except.ok.inj hexact)
  exact absurd hgroups (by decide)

end Stakit.Orm
