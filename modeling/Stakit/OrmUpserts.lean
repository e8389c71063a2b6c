import Stakit.OrmMutations
import Stakit.OrmPrecedence
import Stakit.RowAssignments

set_option autoImplicit false

namespace Stakit.Orm
open RowAssignments List

/-- What a database makes of the parts of an expression, over any values and any kind of truth. -/
structure Meaning (V B : Type) where
  bound : Value → V
  now : Option ℤ → V
  arith : ArithOp → V → V → V
  coalesce : V → V → V
  choose : B → V → V → V
  compare : CompareOp → V → V → B
  isNull : V → B
  anyOf : V → Value → B
  matchQuery : V → String → Option String → Bool → B
  like : V → Value → B
  spatial : String → V → Value → Option UInt64 → B
  both : B → B → B
  either : B → B → B
  negate : B → B
  fragment : String → List V → (String → V) → B
  holds : B → Bool

section Expressions

-- The stored columns, each with its table, that a raw fragment names.
variable (names : String → List (String × String))

mutual

def Operand.reads : Operand → List (String × String)
  | .column table name => [(table, name)]
  | .value _ => []
  | .excluded _ => []
  | .case condition thenValue elseValue =>
    condition.reads ++ (thenValue.reads ++ elseValue.reads)
  | .databaseNow _ => []
  | .arith lhs _ rhs => lhs.reads ++ rhs.reads

def Predicate.reads : Predicate → List (String × String)
  | .binary table name _ rhs => (table, name) :: rhs.reads
  | .isNull table name => [(table, name)]
  | .anyOf table name _ => [(table, name)]
  | .and left right => left.reads ++ right.reads
  | .or left right => left.reads ++ right.reads
  | .not inner => inner.reads
  | .matchQuery table name _ _ _ => [(table, name)]
  | .like table name _ => [(table, name)]
  | .spatial _ table name _ _ => [(table, name)]
  | .raw fragment => names fragment

end

variable {V B : Type} (m : Meaning V B)

mutual

/-- The value of an operand: `column` gives the stored columns, `incoming` the row on its way in. -/
def Operand.meaning (column : String × String → V) (incoming : String → V) : Operand → V
  | .column table name => column (table, name)
  | .value value => m.bound value
  | .excluded name => incoming name
  | .case condition thenValue elseValue =>
    m.choose (condition.meaning column incoming) (thenValue.meaning column incoming)
      (elseValue.meaning column incoming)
  | .databaseNow seconds => m.now seconds
  | .arith lhs op rhs => m.arith op (lhs.meaning column incoming) (rhs.meaning column incoming)

def Predicate.meaning (column : String × String → V) (incoming : String → V) : Predicate → B
  | .binary table name op rhs => m.compare op (column (table, name)) (rhs.meaning column incoming)
  | .isNull table name => m.isNull (column (table, name))
  | .anyOf table name values => m.anyOf (column (table, name)) values
  | .and left right => m.both (left.meaning column incoming) (right.meaning column incoming)
  | .or left right => m.either (left.meaning column incoming) (right.meaning column incoming)
  | .not inner => m.negate (inner.meaning column incoming)
  | .matchQuery table name query config stored =>
    m.matchQuery (column (table, name)) query config stored
  | .like table name pattern => m.like (column (table, name)) pattern
  | .spatial func table name geom distance =>
    m.spatial func (column (table, name)) geom distance
  | .raw fragment => m.fragment fragment ((names fragment).map column) incoming

end

mutual

theorem Operand.meaning_congr (column column' : String × String → V) (incoming : String → V)
    (operand : Operand) (h : ∀ r ∈ operand.reads names, column r = column' r) :
    operand.meaning names m column incoming = operand.meaning names m column' incoming := by
  cases operand with
  | column table name => exact h _ (mem_singleton_self _)
  | case condition thenValue elseValue =>
    rw [Operand.reads, forall_mem_append, forall_mem_append] at h
    rw [Operand.meaning, Operand.meaning, Predicate.meaning_congr _ _ _ condition h.1,
      Operand.meaning_congr _ _ _ thenValue h.2.1, Operand.meaning_congr _ _ _ elseValue h.2.2]
  | arith lhs op rhs =>
    rw [Operand.reads, forall_mem_append] at h
    rw [Operand.meaning, Operand.meaning, Operand.meaning_congr _ _ _ lhs h.1,
      Operand.meaning_congr _ _ _ rhs h.2]
  | _ => rfl

theorem Predicate.meaning_congr (column column' : String × String → V) (incoming : String → V)
    (predicate : Predicate) (h : ∀ r ∈ predicate.reads names, column r = column' r) :
    predicate.meaning names m column incoming = predicate.meaning names m column' incoming := by
  cases predicate with
  | binary table name op rhs =>
    rw [Predicate.reads, forall_mem_cons] at h
    rw [Predicate.meaning, Predicate.meaning, h.1, Operand.meaning_congr _ _ _ rhs h.2]
  | and left right | or left right =>
    rw [Predicate.reads, forall_mem_append] at h
    rw [Predicate.meaning, Predicate.meaning, Predicate.meaning_congr _ _ _ left h.1,
      Predicate.meaning_congr _ _ _ right h.2]
  | not inner =>
    rw [Predicate.meaning, Predicate.meaning, Predicate.meaning_congr _ _ _ inner h]
  | raw fragment =>
    have hcolumns : (names fragment).map column = (names fragment).map column' :=
      map_congr_left h
    rw [Predicate.meaning, Predicate.meaning, hcolumns]
  | _ =>
    have hcolumn := h _ (mem_singleton_self _)
    rw [Predicate.meaning, Predicate.meaning, hcolumn]

end

end Expressions

inductive Term where
  | stored (name : String)
  | incoming (name : String)
  | node (parts : List Term)

def freely : Meaning Term Term where
  bound _ := .node []
  now _ := .node []
  arith _ first second := .node [first, second]
  coalesce first second := .node [first, second]
  choose condition first second := .node [condition, first, second]
  compare _ first second := .node [first, second]
  isNull value := .node [value]
  anyOf value _ := .node [value]
  matchQuery value _ _ _ := .node [value]
  like value _ := .node [value]
  spatial _ value _ _ := .node [value]
  both first second := .node [first, second]
  either first second := .node [first, second]
  negate inner := .node [inner]
  fragment _ parts _ := .node parts
  holds _ := true

section Freely

variable (names : String → List (String × String))

mutual

theorem Operand.freely_inj (column column' : String × String → Term) (incoming : String → Term)
    (operand : Operand) (h : operand.meaning names freely column incoming =
      operand.meaning names freely column' incoming) :
    ∀ r ∈ operand.reads names, column r = column' r := by
  cases operand with
  | column table name => exact forall_mem_singleton.mpr h
  | case condition thenValue elseValue =>
    rw [Operand.meaning, Operand.meaning, freely, Term.node.injEq, List.cons.injEq,
      List.cons.injEq, List.cons.injEq] at h
    rw [Operand.reads, forall_mem_append, forall_mem_append]
    exact ⟨Predicate.freely_inj _ _ _ condition h.1, Operand.freely_inj _ _ _ thenValue h.2.1,
      Operand.freely_inj _ _ _ elseValue h.2.2.1⟩
  | arith lhs op rhs =>
    rw [Operand.meaning, Operand.meaning, freely, Term.node.injEq, List.cons.injEq,
      List.cons.injEq] at h
    rw [Operand.reads, forall_mem_append]
    exact ⟨Operand.freely_inj _ _ _ lhs h.1, Operand.freely_inj _ _ _ rhs h.2.1⟩
  | _ => exact nofun

theorem Predicate.freely_inj (column column' : String × String → Term) (incoming : String → Term)
    (predicate : Predicate) (h : predicate.meaning names freely column incoming =
      predicate.meaning names freely column' incoming) :
    ∀ r ∈ predicate.reads names, column r = column' r := by
  cases predicate with
  | binary table name op rhs =>
    rw [Predicate.meaning, Predicate.meaning, freely, Term.node.injEq, List.cons.injEq,
      List.cons.injEq] at h
    rw [Predicate.reads, forall_mem_cons]
    exact ⟨h.1, Operand.freely_inj _ _ _ rhs h.2.1⟩
  | and left right | or left right =>
    rw [Predicate.meaning, Predicate.meaning, freely, Term.node.injEq, List.cons.injEq,
      List.cons.injEq] at h
    rw [Predicate.reads, forall_mem_append]
    exact ⟨Predicate.freely_inj _ _ _ left h.1, Predicate.freely_inj _ _ _ right h.2.1⟩
  | not inner =>
    rw [Predicate.meaning, Predicate.meaning, freely, Term.node.injEq, List.cons.injEq] at h
    exact Predicate.freely_inj _ _ _ inner h.1
  | raw fragment =>
    rw [Predicate.meaning, Predicate.meaning, freely, Term.node.injEq] at h
    exact map_inj_left.mp h
  | _ =>
    rw [Predicate.meaning, Predicate.meaning, freely, Term.node.injEq, List.cons.injEq] at h
    exact forall_mem_singleton.mpr h.1

end

end Freely

/-- A row on its way in meets a stored one.  `outer` gives the columns of other tables. -/
structure Clash (V B : Type) where
  meaning : Meaning V B
  outer : String × String → V
  stored : String → V
  incoming : String → V

section Rows

variable (names : String → List (String × String)) (table : String)

/-- The columns an expression can read when the row of `table` is `row`. -/
def Clash.column {V B : Type} (clash : Clash V B) (row : String → V) (r : String × String) : V :=
  if r.1 = table then row r.2 else clash.outer r

def ColumnUpdate.reads (update : ColumnUpdate) : List (String × String) :=
  match update.mode with
  | .excluded => []
  | .expression expression => expression.reads names
  | .coalesceExisting => [(table, update.column)]
  | .addExcluded => [(table, update.column)]

/-- The assignment gives the column the value it has. -/
def ColumnUpdate.keeps (update : ColumnUpdate) : Bool :=
  match update.mode with
  | .expression (.column owner name) => owner = table && name = update.column
  | _ => false

/-- The value assigned: the stored column reads `row`, as the backend's evaluation has it. -/
def ColumnUpdate.meaning {V B : Type} (clash : Clash V B) (update : ColumnUpdate)
    (row : String → V) : V :=
  match update.mode with
  | .excluded => clash.incoming update.column
  | .expression expression =>
    expression.meaning names clash.meaning (clash.column table row) clash.incoming
  | .coalesceExisting =>
    clash.meaning.coalesce (clash.incoming update.column)
      (clash.column table row (table, update.column))
  | .addExcluded =>
    clash.meaning.arith .add (clash.column table row (table, update.column))
      (clash.incoming update.column)

def assignments {V B : Type} (clash : Clash V B) (updates : List ColumnUpdate) :
    List (Assignment String V) :=
  updates.map fun update => (update.column, update.meaning names table clash)

def Conflict.admits {V B : Type} (clash : Clash V B) (conflict : Conflict) : Bool :=
  conflict.predicate.elim true fun predicate => clash.meaning.holds
    (predicate.meaning names clash.meaning (clash.column table clash.stored) clash.incoming)

/-- `on conflict … do`: no column list is no update, and a guard is asked of the stored row. -/
def Conflict.atOnce {V B : Type} (columns : List String) (clash : Clash V B)
    (conflict : Conflict) : String → V :=
  let updates := conflict.resolved columns
  if !updates.isEmpty && conflict.admits names table clash then
    assignAll (assignments names table clash updates) clash.stored clash.stored
  else clash.stored

/-- The row that the conflict clause leaves, where the backend takes the clause.  Postgres refuses
to assign a column twice; MySQL assigns a key column to itself where there is nothing to do. -/
def Conflict.rowLeft {V B : Type} (b : Backend) (columns : List String) (clash : Clash V B)
    (conflict : Conflict) : Option (String → V) :=
  let updates := conflict.resolved columns
  match b with
  | .postgres =>
    if (updates.map ColumnUpdate.column).Nodup then
      some (conflict.atOnce names table columns clash)
    else none
  | .sqlite => some (conflict.atOnce names table columns clash)
  | .turso => some (conflict.atOnce names table columns clash)
  | .mysql =>
    if updates.isEmpty then
      (conflict.keyColumn columns).map fun column =>
        Function.update clash.stored column (clash.stored column)
    else some (assignEach (assignments names table clash updates) clash.stored)

/-- Every backend leaves the row that MySQL leaves. -/
def Conflict.SameRows (columns : List String) (conflict : Conflict) : Prop :=
  ∀ (V B : Type) (clash : Clash V B) (b : Backend), conflict.rowLeft names table b columns clash =
      conflict.rowLeft names table .mysql columns clash

/-- No column is assigned twice, and none is read after an assignment that changes it. -/
def Conflict.settled (columns : List String) (conflict : Conflict) : Prop :=
  ((conflict.resolved columns).map ColumnUpdate.column).Nodup ∧
    (conflict.resolved columns).Pairwise fun earlier later =>
      earlier.keeps table = true ∨ (table, earlier.column) ∉ later.reads names table

variable {V B : Type} (columns : List String) (conflict : Conflict) (clash : Clash V B)
  (update : ColumnUpdate) (updates : List ColumnUpdate)

theorem assignments_keys :
    (assignments names table clash updates).map Prod.fst = updates.map ColumnUpdate.column := by
  rw [assignments, map_map]
  rfl

theorem ColumnUpdate.meaning_congr {V B : Type} (clash : Clash V B) (update : ColumnUpdate)
    (row row' : String → V)
    (h : ∀ r ∈ update.reads names table, clash.column table row r = clash.column table row' r) :
    update.meaning names table clash row = update.meaning names table clash row' := by
  obtain ⟨column, mode⟩ := update
  cases mode with
  | excluded => rfl
  | expression expression => exact Operand.meaning_congr names clash.meaning _ _ _ expression h
  | coalesceExisting =>
    exact congrArg (clash.meaning.coalesce _) (h _ (mem_singleton_self _))
  | addExcluded =>
    exact congrArg (clash.meaning.arith .add · _) (h _ (mem_singleton_self _))

theorem ColumnUpdate.meaning_keeps (row : String → V) (h : update.keeps table = true) :
    update.meaning names table clash row = row update.column := by
  obtain ⟨column, mode⟩ := update
  cases mode with
  | expression expression =>
    cases expression with
    | column owner name =>
      rw [ColumnUpdate.keeps, Bool.and_eq_true, decide_eq_true_eq, decide_eq_true_eq] at h
      obtain ⟨howner, hname⟩ := h
      have hcolumn : clash.column table row (owner, name) = row name := if_pos howner
      rw [← hname]
      exact hcolumn
    | _ => cases h
  | _ => cases h

/-- A clash of rows in which every column is its own value. -/
def freeClash : Clash Term Term where
  meaning := freely
  outer _ := .node []
  stored := .stored
  incoming := .incoming

theorem ColumnUpdate.free_keeps
    (h : update.meaning names table freeClash freeClash.stored = .stored update.column) :
    update.keeps table = true := by
  obtain ⟨column, mode⟩ := update
  cases mode with
  | excluded | coalesceExisting | addExcluded => cases h
  | expression expression =>
    cases expression with
    | column owner name =>
      have hcolumn : freeClash.column table freeClash.stored (owner, name) = .stored column := h
      rw [ColumnUpdate.keeps, Bool.and_eq_true, decide_eq_true_eq, decide_eq_true_eq]
      by_cases howner : owner = table
      · rw [Clash.column, if_pos howner] at hcolumn
        exact ⟨howner, Term.stored.inj hcolumn⟩
      · rw [Clash.column, if_neg howner] at hcolumn
        cases hcolumn
    | _ => cases h

theorem ColumnUpdate.free_inj {row row' : String → Term}
    (h : update.meaning names table freeClash row = update.meaning names table freeClash row') :
    ∀ r ∈ update.reads names table,
      freeClash.column table row r = freeClash.column table row' r := by
  obtain ⟨column, mode⟩ := update
  cases mode with
  | excluded => exact nofun
  | expression expression => exact Operand.freely_inj names _ _ _ expression h
  | coalesceExisting =>
    have hparts := (List.cons.inj (List.cons.inj (Term.node.inj h)).2).1
    exact forall_mem_singleton.mpr hparts
  | addExcluded =>
    have hparts := (List.cons.inj (Term.node.inj h)).1
    exact forall_mem_singleton.mpr hparts

theorem settled_undisturbed (hdistinct : (updates.map ColumnUpdate.column).Nodup)
    (h : updates.Pairwise fun earlier later => earlier.keeps table = true ∨
      (table, earlier.column) ∉ later.reads names table) :
    Undisturbed (assignments names table clash updates) clash.stored := by
  rw [pairwise_iff_before] at h
  intro before a after hsplit
  obtain ⟨first, rest, hupdates, hbefore, hrest⟩ := map_eq_append_iff.mp hsplit
  obtain ⟨update, later, hlater, rfl, -⟩ := map_eq_cons_iff.mp hrest
  subst hlater hbefore
  refine ColumnUpdate.meaning_congr names table clash update _ _ fun r hr => ?_
  unfold Clash.column
  split
  · next howner =>
    by_cases hkey : r.2 ∈ first.map ColumnUpdate.column
    · obtain ⟨earlier, hearlier, hcolumn⟩ := mem_map.mp hkey
      have hkeeps : earlier.keeps table = true := by
        rcases h first update later hupdates earlier hearlier with hkeeps | hunread
        · exact hkeeps
        · have hread : (table, earlier.column) = r := Prod.ext howner.symm hcolumn
          rw [hread] at hunread
          exact absurd hr hunread
      obtain ⟨front, back, hfirst⟩ := append_of_mem hearlier
      have hfront : (((assignments names table clash front) ++
          (earlier.column, earlier.meaning names table clash) ::
            assignments names table clash back).map Prod.fst).Nodup := by
        rw [hupdates, map_append] at hdistinct
        have hpart := hdistinct.of_append_left
        rw [hfirst, map_append, map_cons] at hpart
        rw [map_append, map_cons, assignments_keys, assignments_keys]
        exact hpart
      have hvalue := assignAll_at clash.stored clash.stored hfront
      have hlist : first.map (fun update => (update.column, update.meaning names table clash)) =
          assignments names table clash front ++
            (earlier.column, earlier.meaning names table clash) ::
              assignments names table clash back := by
        rw [hfirst, map_append, map_cons]
        rfl
      rw [hlist, ← hcolumn, hvalue]
      exact earlier.meaning_keeps names table clash clash.stored hkeeps
    · refine assignAll_other _ _ _ _ ?_
      have hkeys := assignments_keys names table clash first
      unfold assignments at hkeys
      rw [hkeys]
      exact hkey
  · rfl

theorem undisturbed_settled (hdistinct : (updates.map ColumnUpdate.column).Nodup)
    (h : Undisturbed (assignments names table freeClash updates) freeClash.stored) :
    updates.Pairwise fun earlier later =>
      earlier.keeps table = true ∨ (table, earlier.column) ∉ later.reads names table := by
  rw [pairwise_iff_before]
  intro before update after hsplit earlier hearlier
  by_cases hread : (table, earlier.column) ∈ update.reads names table
  · left
    have happend (first rest : List ColumnUpdate) :
        assignments names table freeClash (first ++ rest) =
          assignments names table freeClash first ++ assignments names table freeClash rest :=
      map_append
    have hsame := h (assignments names table freeClash before)
      (update.column, update.meaning names table freeClash)
      (assignments names table freeClash after) (by rw [hsplit, happend]; rfl)
    have hcolumn := update.free_inj names table hsame _ hread
    unfold Clash.column at hcolumn
    rw [if_pos rfl, if_pos rfl] at hcolumn
    obtain ⟨front, back, hfront⟩ := append_of_mem hearlier
    rw [hsplit, map_append] at hdistinct
    have hpart := hdistinct.of_append_left
    rw [hfront, ← assignments_keys names table freeClash, happend] at hpart
    have hvalue := assignAll_at freeClash.stored freeClash.stored
      hpart
    rw [hfront, happend] at hcolumn
    exact earlier.free_keeps names table (hvalue.symm.trans hcolumn)
  · exact Or.inr hread

theorem keyColumn_ne_none (htargets : conflict.targets ≠ []) :
    ∃ column, conflict.keyColumn columns = some column := by
  unfold Conflict.keyColumn
  cases htarget : conflict.targets with
  | nil => exact absurd htarget htargets
  | cons target rest => exact ⟨target, rfl⟩

theorem rowLeft_nothing (b : Backend) (htargets : conflict.targets ≠ [])
    (hnothing : conflict.resolved columns = []) :
    conflict.rowLeft names table b columns clash = some clash.stored := by
  obtain ⟨column, hcolumn⟩ := keyColumn_ne_none columns conflict htargets
  have hatOnce : conflict.atOnce names table columns clash = clash.stored := by
    rw [Conflict.atOnce, hnothing]
    rfl
  cases b with
  | mysql =>
    have hself : Function.update clash.stored column (clash.stored column) = clash.stored :=
      Function.update_eq_self _ _
    unfold Conflict.rowLeft
    rw [hnothing, hcolumn]
    exact congrArg some hself
  | postgres =>
    unfold Conflict.rowLeft
    rw [hnothing, hatOnce]
    rfl
  | sqlite | turso => exact congrArg some hatOnce

theorem sameRows_iff (htargets : conflict.targets ≠ [])
    (hguard : conflict.resolved columns ≠ [] → conflict.predicate = none) :
    conflict.SameRows names table columns ↔ conflict.settled names table columns := by
  by_cases hnothing : conflict.resolved columns = []
  · refine iff_of_true (fun V B clash b => ?_) ?_
    · rw [rowLeft_nothing names table columns conflict clash b htargets hnothing,
        rowLeft_nothing names table columns conflict clash .mysql htargets hnothing]
    · rw [Conflict.settled, hnothing]
      exact ⟨nodup_nil, List.Pairwise.nil⟩
  have hempty : (conflict.resolved columns).isEmpty = false := by
    rw [isEmpty_eq_false_iff]
    exact hnothing
  have hatOnce {V B : Type} (clash : Clash V B) : conflict.atOnce names table columns clash =
      assignAll (assignments names table clash (conflict.resolved columns)) clash.stored
        clash.stored := by
    rw [Conflict.atOnce, hempty, Conflict.admits, hguard hnothing]
    rfl
  have hmysql {V B : Type} (clash : Clash V B) : conflict.rowLeft names table .mysql columns clash =
        some (assignEach (assignments names table clash (conflict.resolved columns))
          clash.stored) := by
    have hupdates : ¬(conflict.resolved columns).isEmpty = true := by
      rw [hempty]
      exact Bool.false_ne_true
    exact if_neg hupdates
  constructor
  · intro hsame
    have hpostgres := hsame Term Term freeClash .postgres
    rw [hmysql] at hpostgres
    unfold Conflict.rowLeft at hpostgres
    dsimp only at hpostgres
    by_cases hdistinct : ((conflict.resolved columns).map ColumnUpdate.column).Nodup
    · rw [if_pos hdistinct, hatOnce, Option.some.injEq] at hpostgres
      have hkeys := assignments_keys names table freeClash (conflict.resolved columns)
      exact ⟨hdistinct, undisturbed_settled names table _ hdistinct
        ((assignEach_eq_iff _ _ (by rw [hkeys]; exact hdistinct)).mp hpostgres.symm)⟩
    · rw [if_neg hdistinct] at hpostgres
      cases hpostgres
  · rintro ⟨hdistinct, hpairwise⟩ V B clash b
    have hundisturbed := settled_undisturbed names table clash _ hdistinct hpairwise
    have heach := assignEach_eq _ _ hundisturbed
    have hstandard : some (conflict.atOnce names table columns clash) =
        conflict.rowLeft names table .mysql columns clash := by
      rw [hmysql, hatOnce, heach]
    cases b with
    | mysql => rfl
    | postgres =>
      have hpostgres : conflict.rowLeft names table .postgres columns clash =
          some (conflict.atOnce names table columns clash) := if_pos hdistinct
      rw [hpostgres]
      exact hstandard
    | sqlite | turso => exact hstandard

end Rows

def ConflictAction.chosen (targets columns : List String) : ConflictAction → List String
  | .nothing => []
  | .updateAll => columns.filter (· ∉ targets)
  | .updateAllExcept skip => columns.filter fun column => column ∉ targets ∧ column ∉ skip
  | .updateColumns updates => updates.map ColumnUpdate.column

/-- An update's clause writes one `column = …` for each chosen column, in order. -/
def Conflict.AssignsChosen (table : String) (columns : List String) (conflict : Conflict) : Prop :=
  (conflict.resolved columns).map ColumnUpdate.column =
      conflict.action.chosen conflict.targets columns ∧
    (conflict.resolved columns ≠ [] → ∀ b : Backend, ∃ before after,
      conflict.slots b.dialect table columns = before ++
        listed none (ColumnUpdate.slots b.dialect table b.isMysql) (conflict.resolved columns) ++
          after)

/-- The guard of an update is written into the statement, or the statement is refused. -/
def Insert.Guarded (i : Insert) (conflict : Conflict) : Prop :=
  ∀ predicate, conflict.predicate = some predicate → conflict.resolved i.columnNames ≠ [] →
    ∀ (b : Backend) (returning : Option Projection), if b.isMysql then
        (∀ slot ∈ i.slots b.dialect returning, slot.check = .ok ()) →
          ∃ feature, i.intoSql b.dialect returning = .error (.unsupported feature)
      else ∃ before after, i.slots b.dialect returning =
        before ++ (.text " where " :: predicate.slots b.dialect) ++ after

theorem resolved_columns (columns : List String) (conflict : Conflict) :
    (conflict.resolved columns).map ColumnUpdate.column =
      conflict.action.chosen conflict.targets columns := by
  have hcolumn (chosen : List String) :
      (chosen.map fun column => (⟨column, .excluded⟩ : ColumnUpdate)).map ColumnUpdate.column =
        chosen := by
    rw [map_map]
    exact map_id chosen
  unfold Conflict.resolved ConflictAction.chosen
  cases conflict.action with
  | nothing => rfl
  | updateAll | updateAllExcept skip => exact hcolumn _
  | updateColumns updates => rfl

theorem Conflict.slots_update {d : Dialect} (table : String) {columns : List String}
    (conflict : Conflict) (hd : d.upsertOnDuplicateKey = false)
    (hresolved : conflict.resolved columns ≠ []) :
    conflict.slots d table columns = ([.text " on conflict ("] ++
      listed none (fun target => [.ident target]) conflict.targets ++ [.text ")"] ++
        [.text " do update set "]) ++
      listed none (ColumnUpdate.slots d table false) (conflict.resolved columns) ++
        someSlots " where " (Predicate.slots d) conflict.predicate := by
  have hempty : ¬(conflict.resolved columns).isEmpty = true := by
    rw [List.isEmpty_iff]
    exact hresolved
  unfold Conflict.slots
  rw [hd]
  dsimp only
  rw [if_neg Bool.false_ne_true, if_neg hempty]
  simp only [List.append_assoc, List.cons_append, List.nil_append]

theorem assigns_chosen (table : String) (columns : List String) (conflict : Conflict) :
    conflict.AssignsChosen table columns := by
  refine ⟨resolved_columns columns conflict, fun hresolved b => ?_⟩
  have hempty : ¬(conflict.resolved columns).isEmpty = true := by
    rw [List.isEmpty_iff]
    exact hresolved
  have hstandard (d : Dialect) (hd : d.upsertOnDuplicateKey = false) : ∃ before after,
      conflict.slots d table columns = before ++
        listed none (ColumnUpdate.slots d table false) (conflict.resolved columns) ++ after :=
    ⟨_, _, conflict.slots_update table hd hresolved⟩
  cases b with
  | mysql =>
    refine ⟨(if !(conflict.resolved columns).isEmpty && conflict.predicate.isSome then
      [.needs guardFeature] else []) ++ [.text " on duplicate key update "], [], ?_⟩
    have hd : Backend.mysql.dialect.upsertOnDuplicateKey = true := rfl
    unfold Conflict.slots Conflict.duplicateKeySlots
    dsimp only
    rw [if_pos hd, if_neg hempty, List.append_nil]
    rfl
  | postgres | sqlite | turso => exact hstandard _ rfl

theorem lacking_needs (d : Dialect) {slots : List Slot} {feature : String}
    (h : .needs feature ∈ slots) : ∃ lacked, lacking d slots = some lacked := by
  induction slots with
  | nil => exact absurd h not_mem_nil
  | cons slot rest ih =>
    rw [lacking]
    cases hslot : slot.lacks d with
    | some lacked => exact ⟨lacked, rfl⟩
    | none =>
      rcases mem_cons.mp h with hhere | hrest
      · rw [← hhere] at hslot
        cases hslot
      · exact ih hrest

theorem intoSql_lacking {d : Dialect} {returning : Option Projection} {i : Insert}
    {feature : String} (hchecks : ∀ slot ∈ i.slots d returning, slot.check = .ok ())
    (h : lacking d (i.slots d returning) = some feature) :
    i.intoSql d returning = .error (.unsupported feature) := by
  have hrender := (emit_eq_ok d (i.slots d returning) SqlWriter.new _).mpr ⟨hchecks, rfl⟩
  rw [← Insert.render_eq] at hrender
  rw [Insert.intoSql, hrender, h]
  rfl

theorem intoSql_checks {d : Dialect} {returning : Option Projection} {i : Insert} {w : SqlWriter}
    (h : i.intoSql d returning = .ok w) : ∀ slot ∈ i.slots d returning, slot.check = .ok () := by
  rw [Insert.intoSql, ExceptLoops.bind_eq_ok] at h
  obtain ⟨written, hrender, -⟩ := h
  rw [Insert.render_eq, emit_eq_ok] at hrender
  exact hrender.1

theorem guard_kept {i : Insert} {conflict : Conflict} (hconflict : i.conflict = some conflict) :
    i.Guarded conflict := by
  intro predicate hpredicate hresolved b returning
  have hslots (d : Dialect) : i.slots d returning = i.headSlots ++
      (listed none (InsertRow.slots i.optionalIncluded) i.rows ++
        (conflict.slots d i.type.table i.columnNames ++
          someSlots " returning " (Projection.slots d) returning)) := by
    rw [Insert.slots, hconflict]
    rfl
  have hstandard (d : Dialect) (hd : d.upsertOnDuplicateKey = false) : ∃ before after,
      i.slots d returning = before ++ (.text " where " :: predicate.slots d) ++ after := by
    have hclause := conflict.slots_update i.type.table hd hresolved
    rw [hpredicate] at hclause
    rw [hslots, hclause]
    refine ⟨i.headSlots ++ (listed none (InsertRow.slots i.optionalIncluded) i.rows ++
      ([.text " on conflict ("] ++ listed none (fun target => [.ident target]) conflict.targets ++
        [.text ")"] ++ [.text " do update set "] ++
        listed none (ColumnUpdate.slots d i.type.table false)
          (conflict.resolved i.columnNames))),
      someSlots " returning " (Projection.slots d) returning, ?_⟩
    have hwhere : someSlots " where " (Predicate.slots d) (some predicate) =
        .text " where " :: predicate.slots d := rfl
    rw [hwhere]
    simp only [append_assoc]
  cases b with
  | mysql =>
    have hmysql : Backend.mysql.dialect.upsertOnDuplicateKey = true := rfl
    intro hchecks
    have hneeds : .needs guardFeature ∈ i.slots Backend.mysql.dialect returning := by
      have hflag : (!(conflict.resolved i.columnNames).isEmpty && conflict.predicate.isSome) =
          true := by
        rw [hpredicate]
        simp [hresolved]
      have hclause : .needs guardFeature ∈
          conflict.slots Backend.mysql.dialect i.type.table i.columnNames := by
        unfold Conflict.slots Conflict.duplicateKeySlots
        rw [if_pos hmysql]
        dsimp only
        rw [if_pos hflag, append_assoc]
        exact mem_append_left _ (mem_singleton_self _)
      rw [hslots]
      exact mem_append_right _ (mem_append_right _ (mem_append_left _ hclause))
    obtain ⟨feature, hfeature⟩ := lacking_needs _ hneeds
    exact ⟨feature, intoSql_lacking hchecks hfeature⟩
  | postgres | sqlite | turso => exact hstandard _ rfl

/-- Where MySQL takes the statement, every backend leaves the same row, the chosen columns are
assigned and an update's guard is kept, exactly when no column is assigned twice and none is read
after an assignment that changes it. -/
theorem upserts_agree_iff (names : String → List (String × String)) (i : Insert)
    (conflict : Conflict) (hconflict : i.conflict = some conflict)
    (htargets : conflict.targets ≠ []) :
    (((∃ w, i.intoSql mysqlDialect none = .ok w) →
        conflict.SameRows names i.type.table i.columnNames) ∧
      conflict.AssignsChosen i.type.table i.columnNames ∧ i.Guarded conflict) ↔
    ((∃ w, i.intoSql mysqlDialect none = .ok w) →
      conflict.settled names i.type.table i.columnNames) := by
  have hguarded := guard_kept hconflict
  have hrows (hwritten : ∃ w, i.intoSql mysqlDialect none = .ok w) :
      conflict.SameRows names i.type.table i.columnNames ↔
        conflict.settled names i.type.table i.columnNames := by
    obtain ⟨w, hw⟩ := hwritten
    refine sameRows_iff names _ _ conflict htargets fun hresolved => ?_
    cases hpredicate : conflict.predicate with
    | none => rfl
    | some predicate =>
      have hchecks := intoSql_checks hw
      obtain ⟨feature, hrefused⟩ := hguarded predicate hpredicate hresolved .mysql none hchecks
      have hboth : i.intoSql mysqlDialect none = .error (.unsupported feature) := hrefused
      rw [hw] at hboth
      cases hboth
  constructor
  · intro h hwritten
    exact (hrows hwritten).mp (h.1 hwritten)
  · intro h
    exact ⟨fun hwritten => (hrows hwritten).mpr (h hwritten),
      assigns_chosen i.type.table i.columnNames conflict, hguarded⟩

/-- A batch of counters: the incoming row is added to, or replaces, the stored one. -/
def counters (action : ConflictAction) : Insert where
  type := ⟨"counters", ["id", "hits", "last"], []⟩
  rows := [⟨[.i64 1, .i64 5, .i64 9], []⟩]
  conflict := some ⟨["id"], action, none⟩

def addedHits : ConflictAction := .updateColumns [⟨"hits", .addExcluded⟩, ⟨"last", .excluded⟩]

theorem upserts_agree_counters : ∃ w, (counters addedHits).intoSql mysqlDialect none = .ok w ∧
      Conflict.SameRows (fun _ => []) "counters" (counters addedHits).columnNames
        ⟨["id"], addedHits, none⟩ := by
  have hsettled : Conflict.settled (fun _ => []) "counters" (counters addedHits).columnNames
      ⟨["id"], addedHits, none⟩ := by
    unfold Conflict.settled
    decide
  exact ⟨_, rfl, ((upserts_agree_iff (fun _ => []) (counters addedHits) ⟨["id"], addedHits, none⟩
    rfl (cons_ne_nil _ _)).mpr fun _ => hsettled).1 ⟨_, rfl⟩⟩

def keptHits : ConflictAction :=
  .updateColumns [⟨"hits", .excluded⟩, ⟨"last", .expression (.column "counters" "hits")⟩]

/-- Postgres keeps the stored hits, MySQL the incoming ones it has just assigned. -/
theorem assigned_column_read_back : ∃ w, (counters keptHits).intoSql mysqlDialect none = .ok w ∧
      (Conflict.rowLeft (fun _ => []) "counters" .postgres (counters keptHits).columnNames freeClash
        ⟨["id"], keptHits, none⟩).map (fun row => row "last") = some (.stored "hits") ∧
      (Conflict.rowLeft (fun _ => []) "counters" .mysql (counters keptHits).columnNames freeClash
        ⟨["id"], keptHits, none⟩).map (fun row => row "last") = some (.incoming "hits") :=
  ⟨_, rfl, rfl, rfl⟩

end Stakit.Orm
