import Stakit.OrmLists
import Stakit.OrmPlaceholders

set_option autoImplicit false

namespace Stakit.Orm
open SqlGrammar List

/-- A column as its field's attributes give it. -/
structure ColumnModel where
  field : String
  name : String
  kind : ValueKind
  writeCast : Option String
  hasDefault : Bool
  generated : Bool

/-- A table's row type, with the columns of its fields in order. -/
structure RowType where
  table : String
  columns : List ColumnModel

namespace RowType

/-- A generated column is computed by the database and left out of the companion. -/
def stored (type : RowType) : List ColumnModel := type.columns.filter (!·.generated)

def required (type : RowType) : List ColumnModel := type.stored.filter (!·.hasDefault)

def optional (type : RowType) : List ColumnModel := type.stored.filter (·.hasDefault)

def insertable (type : RowType) : Insertable :=
  ⟨type.table, type.required.map (·.name), type.optional.map (·.name)⟩

end RowType

/-- A value of the insert companion: every field without a default holds one. -/
structure NewRow (type : RowType) where
  held : ColumnModel → Option Value
  complete : ∀ column ∈ type.required, (held column).isSome

namespace NewRow
variable {type : RowType}

/-- `boxed_bind` of a field; an unset one is a null of its kind. -/
def boxedBind (row : NewRow type) (column : ColumnModel) : Value :=
  withCast ((row.held column).getD (.null column.kind)) column.writeCast

def optionalPresent (row : NewRow type) : List Bool :=
  type.optional.map fun column => (row.held column).isSome

def insertRow (row : NewRow type) : InsertRow where
  required := type.required.map row.boxedBind
  optional := row.optionalPresent.zip (type.optional.map row.boxedBind)

end NewRow

structure NewRows (type : RowType) where
  rows : List (NewRow type)
  conflict : Option Conflict

namespace NewRows
variable {type : RowType}

def insert (batch : NewRows type) : Insert :=
  ⟨type.insertable, batch.rows.map NewRow.insertRow, batch.conflict⟩

/-- The union of what the rows supply, without the shortcut for a type that has no defaults. -/
def scanned (batch : NewRows type) : List Bool :=
  batch.rows.foldl (fun included row => orInto included row.optionalPresent)
    (type.optional.map fun _ => false)

def supplied (batch : NewRows type) : List ColumnModel :=
  type.optional.filter fun column => batch.rows.any fun row => (row.held column).isSome

def written (batch : NewRows type) : List ColumnModel := type.required ++ batch.supplied

end NewRows

section
variable {α : Type}

theorem orInto_map (columns : List α) (first second : α → Bool) :
    orInto (columns.map first) (columns.map second) =
      columns.map fun column => first column || second column := by
  induction columns with
  | nil => rfl
  | cons column columns ih =>
    rw [map_cons, map_cons, map_cons, orInto, ih]

theorem kept_entries {β γ : Type} (columns : List α) (f : α → β) (keep : α → Bool) (g : β → γ) :
    (((columns.map f).zip (columns.map keep)).filter Prod.snd).map (fun entry => g entry.1) =
      (columns.filter keep).map fun column => g (f column) := by
  induction columns with
  | nil => rfl
  | cons column columns ih =>
    rw [map_cons, map_cons, zip_cons_cons, filter_cons, filter_cons]
    dsimp only
    cases keep column with
    | true => exact congrArg (g (f column) :: ·) ih
    | false => exact ih

end

namespace NewRows
variable {type : RowType} (batch : NewRows type)

theorem foldl_orInto (rows : List (NewRow type)) (included : ColumnModel → Bool) :
    rows.foldl (fun included row => orInto included row.optionalPresent)
        (type.optional.map included) =
      type.optional.map fun column =>
        included column || rows.any fun row => (row.held column).isSome := by
  induction rows generalizing included with
  | nil =>
    rw [foldl_nil]
    exact map_congr_left fun column _ => (Bool.or_false _).symm
  | cons row rows ih =>
    rw [foldl_cons, NewRow.optionalPresent, orInto_map, ih]
    apply map_congr_left
    intro column _
    rw [any_cons, Bool.or_assoc]

theorem scanned_eq : batch.scanned =
    type.optional.map fun column => batch.rows.any fun row => (row.held column).isSome := by
  rw [scanned, foldl_orInto]
  rfl

theorem optionalIncluded_eq : batch.insert.optionalIncluded = batch.scanned := by
  have hpresent (row : NewRow type) : row.insertRow.optional.map Prod.fst = row.optionalPresent := by
    apply map_fst_zip
    rw [NewRow.optionalPresent, length_map, length_map]
  have hstart : (type.insertable.optional.map fun _ => false) =
      type.optional.map fun _ => false := map_map
  unfold Insert.optionalIncluded
  split
  · next hempty =>
    have hnone : type.optional = [] := map_eq_nil_iff.mp (isEmpty_iff.mp hempty)
    rw [scanned_eq, hnone]
    rfl
  · rw [scanned, insert, foldl_map, hstart]
    simp only [hpresent]

theorem columnNames_eq : batch.insert.columnNames = batch.written.map (·.name) := by
  have hsupplied := kept_entries type.optional (·.name)
    (fun column => batch.rows.any fun row => (row.held column).isSome) id
  rw [Insert.columnNames, optionalIncluded_eq, scanned_eq, written, map_append, supplied]
  exact congrArg (_ ++ ·) hsupplied

theorem bound_eq (row : NewRow type) :
    row.insertRow.bound batch.insert.optionalIncluded = batch.written.map row.boxedBind := by
  have hsupplied := kept_entries type.optional
    (fun column => ((row.held column).isSome, row.boxedBind column))
    (fun column => batch.rows.any fun row => (row.held column).isSome) Prod.snd
  have hpairs : row.insertRow.optional = type.optional.map fun column =>
      ((row.held column).isSome, row.boxedBind column) := zip_map'
  rw [InsertRow.bound, optionalIncluded_eq, scanned_eq, hpairs, written, map_append, supplied]
  exact congrArg (_ ++ ·) hsupplied

end NewRows

section
variable {α : Type} (d : Dialect) (slots : α → List Slot)

theorem itemTokens_related {holds : List Token → α → Prop} (binds : List Value) (bound : ℕ)
    (items : List α)
    (hbinds : BoundAt binds bound (items.flatMap fun item => values (slots item)))
    (hitem : ∀ item ∈ items, ∀ bound, BoundAt binds bound (values (slots item)) →
      holds (slotTokens d bound (slots item)) item) :
    List.Forall₂ holds (itemTokens d slots bound items) items := by
  induction items generalizing bound with
  | nil => exact .nil
  | cons item rest ih =>
    rw [flatMap_cons] at hbinds
    refine .cons (hitem item mem_cons_self bound hbinds.split.1) ?_
    exact ih _ hbinds.split.2 fun item hmem => hitem item (mem_cons_of_mem _ hmem)

theorem itemTokens_idents (bound : ℕ) (names : List String) :
    itemTokens d (fun name => [.ident name]) bound names = names.map fun name => [.ident name] := by
  induction names generalizing bound with
  | nil => rfl
  | cons name names ih =>
    rw [itemTokens, ih]
    rfl

end

def places (ts : List Token) : List ℕ :=
  ts.filterMap fun
    | .placeholder position => some position
    | _ => none

theorem places_value (b : Backend) (position : ℕ) (value : Value) :
    places (tokens (value.pieces b.dialect position)) = [position] := by
  cases value with
  | cast type inner => cases b <;> rfl
  | geo wkt srid => cases b <;> cases srid <;> rfl
  | vector components => cases b <;> rfl
  | _ => rfl

def BoundEntry (b : Backend) (binds : List Value) (item : List Token) (value : Value) : Prop :=
  ∃ position, places item = [position + 1] ∧ binds[position]? = some value.payload ∧
    Parses item (value.tree b (position + 1))

theorem boundEntry_bind (b : Backend) {binds : List Value} {bound : ℕ} {value : Value}
    (h : BoundAt binds bound [value]) :
    BoundEntry b binds (slotTokens b.dialect bound [.bind value]) value := by
  rw [slotTokens_bind, slotTokens_nil, append_nil]
  exact ⟨bound, places_value b (bound + 1) value, h.first, (leads_value b (bound + 1) value).parses⟩

/-- Only MySQL's grammar has an empty column list and an empty tuple. -/
def Backend.Listable {α : Type} (b : Backend) (items : List α) : Prop :=
  items ≠ [] ∨ b = .mysql

def TupleOf (b : Backend) (binds : List Value) (tuple : List Token) (given : List Value) : Prop :=
  ∃ items, tuple = .lpar :: commas items ++ [.rpar] ∧ b.Listable items ∧
    List.Forall₂ (BoundEntry b binds) items given

/-- The insert of a batch: its columns are the required ones and the supplied ones, each once;
the shortcut finds what the scan finds; and its text is an insert of the backend's grammar with a
tuple for every row. -/
structure Aligned {type : RowType} (b : Backend) (returning : Option Projection)
    (batch : NewRows type) (w : SqlWriter) : Prop where
  listed : batch.insert.columnNames = batch.written.map (·.name)
  distinct : batch.insert.columnNames.Nodup
  shortcut : batch.insert.optionalIncluded = batch.scanned
  columns : b.Listable batch.insert.columnNames
  text : ∃ tuples rest, tokens w.pieces = .word "insert" :: .word "into" :: .ident type.table ::
      .lpar :: commas (batch.insert.columnNames.map fun name => [.ident name]) ++
      (.rpar :: .word "values" :: commas tuples ++ rest) ∧
    (batch.conflict = none → returning = none → rest = []) ∧
    List.Forall₂ (fun tuple (row : NewRow type) =>
      TupleOf b w.binds tuple (batch.written.map row.boxedBind)) tuples batch.rows

namespace NewRows
variable {type : RowType} (batch : NewRows type)

def rowSlots (row : NewRow type) : List Slot :=
  row.insertRow.slots batch.insert.optionalIncluded

/-- What follows the tuples. -/
def tailSlots (d : Dialect) (returning : Option Projection) : List Slot :=
  givenSlots (Conflict.slots d type.table batch.insert.columnNames) batch.conflict ++
    someSlots " returning " (Projection.slots d) returning

end NewRows

section
variable {type : RowType} (b : Backend) (batch : NewRows type)

theorem tupleOf_row {binds : List Value} {bound : ℕ} {row : NewRow type}
    (hlist : b.Listable batch.written)
    (h : BoundAt binds bound (values (row.insertRow.slots batch.insert.optionalIncluded))) :
    TupleOf b binds
      (slotTokens b.dialect bound (row.insertRow.slots batch.insert.optionalIncluded))
      (batch.written.map row.boxedBind) := by
  have hvalues : values (row.insertRow.slots batch.insert.optionalIncluded) =
      batch.written.map row.boxedBind := by
    rw [InsertRow.slots, values_append, batch.bound_eq row]
    exact (append_nil _).trans (values_listed none _)
  rw [hvalues] at h
  have hitems : List.Forall₂ (BoundEntry b binds)
      (itemTokens b.dialect (fun value => [.bind value]) bound (batch.written.map row.boxedBind))
      (batch.written.map row.boxedBind) := by
    refine itemTokens_related b.dialect _ binds bound _ ?_ ?_
    · rwa [← values_listed_eq _ none, values_listed]
    · exact fun value _ bound hbound => boundEntry_bind b hbound
  refine ⟨_, ?_, ?_, hitems⟩
  · rw [InsertRow.slots, batch.bound_eq row, cons_append, slotTokens_text,
      slotTokens_append, slotTokens_listed]
    rfl
  · refine hlist.imp_left fun hwritten hnone => hwritten ?_
    have hlength := hitems.length_eq
    rw [hnone, length_map, length_nil] at hlength
    exact eq_nil_of_length_eq_zero hlength.symm

theorem NewRows.slots_eq (d : Dialect) (returning : Option Projection) :
    batch.insert.slots d returning = batch.insert.headSlots ++
      (listed none batch.rowSlots batch.rows ++ batch.tailSlots d returning) := by
  have hrows (first : Option String) (rows : List (NewRow type)) :
      listed first (InsertRow.slots batch.insert.optionalIncluded) (rows.map NewRow.insertRow) =
        listed first batch.rowSlots rows := by
    induction rows generalizing first with
    | nil => rfl
    | cons row rows ih =>
      rw [map_cons, listed, listed, ih]
      rfl
  exact congrArg (fun rows => batch.insert.headSlots ++ (rows ++ _)) (hrows none batch.rows)

theorem head_tokens (i : Insert) : slotTokens b.dialect 0 i.headSlots =
    .word "insert" :: .word "into" :: .ident i.type.table :: .lpar ::
      commas (i.columnNames.map fun name => [.ident name]) ++ [.rpar, .word "values"] := by
  rw [Insert.headSlots, slotTokens_append, slotTokens_append, slotTokens_listed, itemTokens_idents]
  rfl

theorem values_head (i : Insert) : values i.headSlots = [] := by
  rw [Insert.headSlots, values_append, values_append, values_listed_eq]
  exact (append_nil _).trans (flatMap_eq_nil_iff.mpr fun _ _ => rfl)

theorem slotTokens_insert (returning : Option Projection) :
    slotTokens b.dialect 0 (batch.insert.slots b.dialect returning) =
      .word "insert" :: .word "into" :: .ident type.table :: .lpar ::
        commas (batch.insert.columnNames.map fun name => [.ident name]) ++
        (.rpar :: .word "values" :: slotTokens b.dialect 0 (listed none batch.rowSlots batch.rows) ++
          slotTokens b.dialect (values (listed none batch.rowSlots batch.rows)).length
            (batch.tailSlots b.dialect returning)) := by
  rw [batch.slots_eq, slotTokens_append, head_tokens, values_head, length_nil,
    slotTokens_append, Nat.zero_add, Nat.zero_add, append_assoc]
  rfl

theorem insert_text (returning : Option Projection) (hlist : b.Listable batch.written) :
    ∃ tuples rest, slotTokens b.dialect 0 (batch.insert.slots b.dialect returning) =
        .word "insert" :: .word "into" :: .ident type.table ::
        .lpar :: commas (batch.insert.columnNames.map fun name => [.ident name]) ++
        (.rpar :: .word "values" :: commas tuples ++ rest) ∧
      (batch.conflict = none → returning = none → rest = []) ∧
      List.Forall₂ (fun tuple (row : NewRow type) =>
        TupleOf b ((values (batch.insert.slots b.dialect returning)).map Value.payload) tuple
          (batch.written.map row.boxedBind)) tuples batch.rows := by
  have hbinds : BoundAt ((values (batch.insert.slots b.dialect returning)).map Value.payload) 0
      (batch.rows.flatMap fun row => values (batch.rowSlots row)) := by
    refine ⟨[], (values (batch.tailSlots b.dialect returning)).map Value.payload, ?_, rfl⟩
    rw [batch.slots_eq, values_append, values_head, values_append, values_listed_eq,
      nil_append, nil_append, map_append]
  refine ⟨itemTokens b.dialect batch.rowSlots 0 batch.rows, slotTokens b.dialect
    (values (listed none batch.rowSlots batch.rows)).length
    (batch.tailSlots b.dialect returning), ?_, ?_, ?_⟩
  · rw [slotTokens_insert, slotTokens_listed]
  · intro hconflict hreturning
    rw [NewRows.tailSlots, hconflict, hreturning]
    rfl
  · exact itemTokens_related b.dialect batch.rowSlots _ 0 batch.rows hbinds
      fun row _ bound hbound => tupleOf_row b batch hlist hbound

/-- A written insert is aligned with its rows exactly when there is a column to write, or the
backend is MySQL, and no two of the written columns have one name. -/
theorem insert_aligned_iff (returning : Option Projection) (w : SqlWriter)
    (h : batch.insert.render b.dialect returning SqlWriter.new = .ok w) :
    Aligned b returning batch w ↔
      (batch.written ≠ [] ∨ b = .mysql) ∧ (batch.written.map (·.name)).Nodup := by
  have hnames := batch.columnNames_eq
  constructor
  · intro haligned
    refine ⟨haligned.columns.imp_left fun hsome hnone => hsome ?_, hnames ▸ haligned.distinct⟩
    rw [hnames, hnone]
    rfl
  · rintro ⟨hlist, hnodup⟩
    rw [Insert.render_eq, emit_eq_ok] at h
    obtain ⟨_, rfl⟩ := h
    refine ⟨hnames, hnames ▸ hnodup, batch.optionalIncluded_eq, ?_, ?_⟩
    · refine hlist.imp_left fun hsome hnone => hsome ?_
      rw [hnames] at hnone
      exact map_eq_nil_iff.mp hnone
    · exact insert_text b batch returning hlist

end

/-- A type whose only stored column has a default. -/
def ticketType : RowType := ⟨"tickets", [⟨"id", "id", .i64, none, true, false⟩]⟩

def blankTicket : NewRow ticketType := ⟨fun _ => none, by decide⟩

def blankTickets : NewRows ticketType := ⟨[blankTicket], none⟩

def taskType : RowType := ⟨"tasks", [⟨"id", "id", .i64, none, true, false⟩,
  ⟨"title", "title", .text, none, false, false⟩, ⟨"state", "state", .text, none, true, false⟩]⟩

def numberedTask : NewRow taskType where
  held column :=
    if column.name = "title" then some (.text "write")
    else if column.name = "id" then some (.i64 7)
    else none
  complete := by decide

def openTask : NewRow taskType where
  held column :=
    if column.name = "title" then some (.text "send")
    else if column.name = "state" then some (.text "open")
    else none
  complete := by decide

def mixedTasks : NewRows taskType := ⟨[numberedTask, openTask], none⟩

theorem insert_aligned_mixedTasks : ∃ w,
    mixedTasks.insert.render postgresDialect none SqlWriter.new = .ok w ∧
      Aligned .postgres none mixedTasks w :=
  ⟨_, rfl, (insert_aligned_iff .postgres mixedTasks none _ rfl).mpr
    ⟨.inl (cons_ne_nil _ _), by decide⟩⟩

/-- `insert into "tickets" () values ()` -/
theorem blankTickets_without_columns : ∃ w,
    blankTickets.insert.render postgresDialect none SqlWriter.new = .ok w ∧
      w.sql postgresDialect = "insert into \"tickets\" () values ()" ∧
      ¬Aligned .postgres none blankTickets w := by
  refine ⟨_, rfl, by decide +kernel, fun h => ?_⟩
  obtain hsome | hmysql := h.columns
  · exact hsome rfl
  · cases hmysql

end Stakit.Orm
