import Stakit.OrmMutations

set_option autoImplicit false

namespace Stakit.Orm
open List

inductive Statement where
  | select (s : Select)
  | count (s : Select)
  | existence (s : Select)
  | insert (i : Insert) (returning : Option Projection)
  | upsert (u : Upsert) (returning : Option Projection)
  | update (u : Update)
  | delete (u : Delete)

def Statement.render (d : Dialect) : Statement → Except Error SqlWriter
  | select s => s.intoSql d
  | count s => s.count d
  | existence s => s.exists d
  | insert i returning => i.intoSql d returning
  | upsert u returning => u.intoInsert.intoSql d returning
  | update u => u.intoSql d
  | delete u => u.intoSql d

def Statement.slots (d : Dialect) : Statement → List Slot
  | select s => s.slots d
  | count s => .text "select count(*) from (" :: s.unordered.slots d ++ [.text ") as __count"]
  | existence s => .text "select exists(" :: s.unordered.slots d ++ [.text ")"]
  | insert i returning => i.slots d returning
  | upsert u returning => u.intoInsert.slots d returning
  | update u => u.slots d
  | delete u => u.slots d

def Statement.given (d : Dialect) (s : Statement) : List Value := values (s.slots d)

def Statement.hasSets : Statement → Bool
  | update u => !u.sets.isEmpty
  | _ => true

section Rendering

variable (d : Dialect)

theorem finish_eq_ok (w next : SqlWriter) :
    w.finish = .ok next ↔ w.unsupported = none ∧ next = w := by
  unfold SqlWriter.finish
  cases hw : w.unsupported with
  | none => simp [eq_comm]
  | some feature => simp

theorem emitted_eq_ok (slots : List Slot) (w : SqlWriter) :
    (emit d slots SqlWriter.new >>= SqlWriter.finish) = .ok w ↔
      (∀ slot ∈ slots, slot.check = .ok ()) ∧ lacking d slots = none ∧
        w = ⟨layout d 0 slots, (values slots).map Value.payload, none⟩ := by
  rw [ExceptLoops.bind_eq_ok]
  constructor
  · rintro ⟨next, hnext, hfinish⟩
    obtain ⟨hcheck, rfl⟩ := (emit_eq_ok d slots _ _).mp hnext
    obtain ⟨hnone, rfl⟩ := (finish_eq_ok _ _).mp hfinish
    refine ⟨hcheck, hnone, ?_⟩
    exact congrArg (SqlWriter.mk _ _) hnone
  · rintro ⟨hcheck, hnone, rfl⟩
    refine ⟨_, (emit_eq_ok d slots _ _).mpr ⟨hcheck, rfl⟩, (finish_eq_ok _ _).mpr ⟨hnone, ?_⟩⟩
    exact congrArg (SqlWriter.mk _ _) hnone.symm

theorem wrapped_eq_ok (before after : String) (s : Select) (w : SqlWriter) :
    s.wrappedScalar d before after = .ok w ↔
      (emit d (.text before :: s.unordered.slots d ++ [.text after]) SqlWriter.new >>=
        SqlWriter.finish) = .ok w := by
  have hlayout : layout d 0 (.text before :: s.unordered.slots d ++ [.text after]) =
      .text before :: layout d 0 (s.unordered.slots d) ++ [.text after] :=
    congrArg (Piece.text before :: ·) (layout_append d _ _ _)
  have hvalues : values (.text before :: s.unordered.slots d ++ [.text after]) =
      values (s.unordered.slots d) :=
    (values_append (.text before :: s.unordered.slots d) [.text after]).trans
      (append_nil _)
  have hlacking : lacking d (.text before :: s.unordered.slots d ++ [.text after]) =
      lacking d (s.unordered.slots d) := by
    have happend (slots : List Slot) : lacking d (slots ++ [.text after]) = lacking d slots := by
      induction slots with
      | nil => rfl
      | cons slot rest ih => rw [cons_append, lacking, lacking, ih]
    exact happend (.text before :: s.unordered.slots d)
  rw [emitted_eq_ok, hlayout, hvalues, hlacking, Select.wrappedScalar, Select.intoSql,
    Select.assemble_eq, ExceptLoops.bind_eq_ok]
  constructor
  · rintro ⟨next, hnext, hw⟩
    obtain ⟨hcheck, hnone, rfl⟩ := (emitted_eq_ok d _ _).mp hnext
    cases hw
    refine ⟨?_, hnone, rfl⟩
    intro slot hslot
    rw [cons_append, mem_cons, mem_append, mem_singleton] at hslot
    rcases hslot with rfl | hslot | rfl
    · rfl
    · exact hcheck slot hslot
    · rfl
  · rintro ⟨hcheck, hnone, rfl⟩
    refine ⟨_, (emitted_eq_ok d _ _).mpr ⟨fun slot hslot => hcheck slot ?_, hnone, rfl⟩, rfl⟩
    exact mem_cons_of_mem _ (mem_append_left _ hslot)

theorem Statement.render_eq_ok (s : Statement) (w : SqlWriter) :
    s.render d = .ok w ↔ s.hasSets = true ∧
      (emit d (s.slots d) SqlWriter.new >>= SqlWriter.finish) = .ok w := by
  cases s with
  | select s =>
    rw [Statement.render, Select.intoSql, Select.assemble_eq]
    exact ⟨fun h => ⟨rfl, h⟩, fun h => h.2⟩
  | count s | existence s => exact (wrapped_eq_ok d _ _ s w).trans ⟨fun h => ⟨rfl, h⟩, fun h => h.2⟩
  | insert i returning | upsert u returning =>
    rw [Statement.render, Insert.intoSql, Insert.render_eq]
    exact ⟨fun h => ⟨rfl, h⟩, fun h => h.2⟩
  | update u =>
    rw [Statement.render, Update.intoSql, Statement.hasSets]
    split
    · next h => simp [h]
    · next h =>
      rw [Update.assemble_eq]
      simp [h, Statement.slots]
  | delete u =>
    rw [Statement.render, Delete.intoSql, Delete.assemble_eq]
    exact ⟨fun h => ⟨rfl, h⟩, fun h => h.2⟩

end Rendering

mutual

def Projection.blank : Projection → Projection
  | .column table name readCast => .column table name readCast
  | .count => .count
  | .agg func table name isWidened out => .agg func table name isWidened out
  | .sqlExpr fragment => .sqlExpr fragment
  | .tsRank rank => .tsRank { rank with query := "" }
  | .all table columns => .all table columns
  | .distance table name _ metric => .distance table name [] metric
  | .geoDistance table name geom => .geoDistance table name geom.blank
  | .tuple items => .tuple (Projection.blankAll items)

def Projection.blankAll : List Projection → List Projection
  | [] => []
  | item :: rest => item.blank :: Projection.blankAll rest

end

def Select.blank (s : Select) : Select where
  projection := s.projection.blank
  fromTable := s.fromTable
  joins := s.joins.map fun join => { join with on := join.on.blank }
  filter := s.filter.map Predicate.blank
  group := s.group
  having := s.having.map Predicate.blank
  order := s.order
  nearest := s.nearest.map fun nearest => { nearest with query := [] }
  nearestGeo := s.nearestGeo.map fun geo => { geo with geom := geo.geom.blank }
  rankOrder := s.rankOrder.map fun rank => { rank with query := "" }
  limit := s.limit.map fun _ => 0
  offset := s.offset.map fun _ => 0

def InsertRow.blank (row : InsertRow) : InsertRow where
  required := row.required.map Value.blank
  optional := row.optional.map fun entry => (entry.1, entry.2.blank)

def UpdateMode.blank : UpdateMode → UpdateMode
  | expression operand => expression operand.blank
  | mode => mode

def ColumnUpdate.blank (update : ColumnUpdate) : ColumnUpdate :=
  { update with mode := update.mode.blank }

def ConflictAction.blank : ConflictAction → ConflictAction
  | updateColumns updates => updateColumns (updates.map ColumnUpdate.blank)
  | action => action

def Conflict.blank (conflict : Conflict) : Conflict :=
  { conflict with
    action := conflict.action.blank, predicate := conflict.predicate.map Predicate.blank }

def Insert.blank (i : Insert) : Insert :=
  { i with rows := i.rows.map InsertRow.blank, conflict := i.conflict.map Conflict.blank }

def Upsert.blank (u : Upsert) : Upsert :=
  { u with
    insert := u.insert.blank, updates := u.updates.map ColumnUpdate.blank,
    predicate := u.predicate.map Predicate.blank }

def Update.blank (u : Update) : Update :=
  { u with
    sets := u.sets.map fun assignment => (assignment.1, assignment.2.blank),
    filter := u.filter.map Predicate.blank }

def Delete.blank (u : Delete) : Delete := { u with filter := u.filter.map Predicate.blank }

def Statement.blank : Statement → Statement
  | select s => select s.blank
  | count s => count s.blank
  | existence s => existence s.blank
  | insert i returning => insert i.blank (returning.map Projection.blank)
  | upsert u returning => upsert u.blank (returning.map Projection.blank)
  | update u => update u.blank
  | delete u => delete u.blank

section Blanking

variable (d : Dialect)

variable (table name : String) {α : Type} (slots : α → List Slot) (blank : α → α)

theorem columnSlots_blank (cast : Option String) :
    (columnSlots d table name cast).map Slot.blank = columnSlots d table name cast := by
  unfold columnSlots readCastSlots
  cases cast with
  | none => rfl
  | some cast =>
    dsimp only
    split <;> rfl

theorem aggSlots_blank (func table name : String) (isWidened : Bool) (out : ValueKind) :
    (aggSlots d func table name isWidened out).map Slot.blank =
      aggSlots d func table name isWidened out := by
  unfold aggSlots readCastSlots
  cases isWidened with
  | false => rfl
  | true =>
    cases numericCast out with
    | none => rfl
    | some cast =>
      dsimp only
      rw [if_pos rfl]
      split <;> rfl

theorem distanceSlots_blank (query : List UInt32) (metric : Distance) :
    (distanceSlots d table name query metric).map Slot.blank =
      distanceSlots d table name [] metric := by
  unfold distanceSlots
  cases d.vectorDistance metric <;> rfl

theorem spatialNeed_blank : (spatialNeed d).map Slot.blank = spatialNeed d := by
  unfold spatialNeed
  split <;> rfl

theorem someSlots_blank (before : String) (slots : α → List Slot) (blank : α → α)
    (h : ∀ item, (slots item).map Slot.blank = slots (blank item)) (given : Option α) :
    (someSlots before slots given).map Slot.blank = someSlots before slots (given.map blank) := by
  cases given with
  | none => rfl
  | some item => exact congrArg (Slot.text before :: ·) (h item)

theorem givenSlots_blank (h : ∀ item, (slots item).map Slot.blank = slots (blank item))
    (given : Option α) :
    (givenSlots slots given).map Slot.blank = givenSlots slots (given.map blank) := by
  cases given with
  | none => rfl
  | some item => exact h item

theorem flatMap_blank (h : ∀ item, (slots item).map Slot.blank = slots (blank item))
    (items : List α) : (items.flatMap slots).map Slot.blank = (items.map blank).flatMap slots := by
  rw [map_flatMap, flatMap_map]
  exact congrArg items.flatMap (funext h)

mutual

theorem Projection.slots_blank (projection : Projection) :
    (projection.slots d).map Slot.blank = projection.blank.slots d := by
  cases projection with
  | column table name readCast => exact columnSlots_blank d table name readCast
  | count => rfl
  | agg func table name isWidened out => exact aggSlots_blank d func table name isWidened out
  | sqlExpr fragment => rfl
  | tsRank rank => exact tsRankSlots_blank d _ _ _ _ _
  | all table columns =>
    refine (listed_blank _ id (fun column => columnSlots_blank d _ _ _) none columns).trans ?_
    rw [map_id]
    rfl
  | distance table name query metric => exact distanceSlots_blank d table name query metric
  | geoDistance table name geom =>
    simp only [Projection.slots, Projection.blank, geoDistanceSlots, map_append, spatialNeed_blank]
    rfl
  | tuple items => exact Projection.tupleSlots_blank none items

theorem Projection.tupleSlots_blank (first : Option String) (items : List Projection) :
    (Projection.tupleSlots d first items).map Slot.blank =
      Projection.tupleSlots d first (Projection.blankAll items) := by
  cases items with
  | nil => rfl
  | cons item rest =>
    rw [Projection.tupleSlots, map_append, map_append, Projection.slots_blank item,
      Projection.tupleSlots_blank _ rest, Projection.blankAll, Projection.tupleSlots]
    cases first <;> rfl

end

theorem Join.slots_blank (join : Join) :
    (join.slots d).map Slot.blank = Join.slots d { join with on := join.on.blank } := by
  rw [Join.slots, map_append, Predicate.slots_blank]
  rfl

theorem NearestOrder.slots_blank (started : Bool) (nearest : NearestOrder) :
    (nearest.slots d started).map Slot.blank =
      NearestOrder.slots d started { nearest with query := [] } := by
  rw [NearestOrder.slots, map_append, map_append, distanceSlots_blank]
  rfl

theorem NearestGeo.slots_blank (started : Bool) (geo : NearestGeo) :
    (geo.slots d started).map Slot.blank =
      NearestGeo.slots d started { geo with geom := geo.geom.blank } := by
  simp only [NearestGeo.slots, map_append, spatialNeed_blank]
  rfl

theorem TsRank.orderSlots_blank (started : Bool) (rank : TsRank) :
    (rank.orderSlots d started).map Slot.blank =
      TsRank.orderSlots d started { rank with query := "" } := by
  rw [TsRank.orderSlots, map_append, map_append, TsRank.slots, tsRankSlots_blank]
  rfl

theorem Select.slots_blank (s : Select) : (s.slots d).map Slot.blank = s.blank.slots d := by
  have hgroup : (listed (some " group by ") GroupTerm.slots s.group).map Slot.blank =
      listed (some " group by ") GroupTerm.slots s.group := by
    refine (listed_blank _ id (fun term => ?_) _ _).trans (by rw [map_id])
    cases term <;> rfl
  have horder : (listed (some " order by ") Order.slots s.order).map Slot.blank =
      listed (some " order by ") Order.slots s.order :=
    (listed_blank _ id (fun order => rfl) _ _).trans (by rw [map_id])
  have hcount (before : String) (given : Option ℤ) := someSlots_blank before
    (fun value => [.bind (.i64 value)]) (fun _ => 0) (fun _ => rfl) given
  have hfilter (before : String) := someSlots_blank before _ _ (Predicate.slots_blank d)
  rw [Select.slots, Select.slots, map_flatten]
  refine congrArg List.flatten ?_
  unfold Select.clauses Select.blank
  simp only [map_cons, map_nil, Projection.slots_blank, hgroup, horder, hcount, hfilter,
    flatMap_blank _ _ (Join.slots_blank d), Option.isSome_map,
    givenSlots_blank _ _ (NearestOrder.slots_blank d _),
    givenSlots_blank _ _ (NearestGeo.slots_blank d _),
    givenSlots_blank _ _ (TsRank.orderSlots_blank d _), Slot.blank]

theorem incomingSlots_blank (mysql : Bool) (column : String) :
    (incomingSlots mysql column).map Slot.blank = incomingSlots mysql column := by
  cases mysql <;> rfl

theorem storedSlots_blank (mysql : Bool) (table column : String) :
    (storedSlots mysql table column).map Slot.blank = storedSlots mysql table column := by
  cases mysql <;> rfl

theorem ColumnUpdate.slots_blank (table : String) (mysql : Bool) (update : ColumnUpdate) :
    (update.slots d table mysql).map Slot.blank = update.blank.slots d table mysql := by
  obtain ⟨column, mode⟩ := update
  rw [ColumnUpdate.slots, map_append]
  refine congrArg ([Slot.ident column, .text " = "] ++ ·) ?_
  cases mode with
  | excluded => exact incomingSlots_blank mysql column
  | expression operand => exact operand.slots_blank d
  | coalesceExisting | addExcluded =>
    simp only [UpdateMode.slots, ColumnUpdate.blank, UpdateMode.blank, map_append,
      map_cons, incomingSlots_blank, storedSlots_blank]
    rfl

theorem resolved_blank (conflict : Conflict) (columns : List String) :
    conflict.blank.resolved columns = (conflict.resolved columns).map ColumnUpdate.blank := by
  obtain ⟨targets, action, predicate⟩ := conflict
  cases action with
  | nothing => rfl
  | updateAll | updateAllExcept skip =>
    simp only [Conflict.resolved, Conflict.blank, ConflictAction.blank, map_map]
    rfl
  | updateColumns updates => rfl

theorem Conflict.slots_blank (table : String) (columns : List String) (conflict : Conflict) :
    (conflict.slots d table columns).map Slot.blank = conflict.blank.slots d table columns := by
  have hempty : (conflict.blank.resolved columns).isEmpty =
      (conflict.resolved columns).isEmpty := by
    rw [resolved_blank, isEmpty_map]
  have hidents (first : Option String) (names : List String) :
      (listed first (fun name => [.ident name]) names).map Slot.blank =
        listed first (fun name => [.ident name]) names :=
    (listed_blank _ id (fun _ => rfl) _ _).trans (by rw [map_id])
  have hupdates (mysql : Bool) :
      (listed none (ColumnUpdate.slots d table mysql) (conflict.resolved columns)).map
        Slot.blank = listed none (ColumnUpdate.slots d table mysql)
          (conflict.blank.resolved columns) := by
    rw [resolved_blank]
    exact listed_blank _ _ (ColumnUpdate.slots_blank d table mysql) _ _
  have hguard : conflict.blank.predicate.isSome = conflict.predicate.isSome := Option.isSome_map
  have hself : (givenSlots (fun column => [.ident column, .text " = ", .ident column])
      (conflict.keyColumn columns)).map Slot.blank =
        givenSlots (fun column => [.ident column, .text " = ", .ident column])
          (conflict.blank.keyColumn columns) := by
    have hkey : conflict.blank.keyColumn columns = conflict.keyColumn columns := rfl
    rw [hkey]
    cases conflict.keyColumn columns <;> rfl
  unfold Conflict.slots Conflict.duplicateKeySlots
  simp only [hempty, hguard]
  split
  · rw [map_append, map_append]
    split <;> split <;> simp only [hself, hupdates] <;> rfl
  · rw [map_append, map_append, map_append, hidents]
    split
    · rfl
    · simp only [map_append, map_cons, hupdates, someSlots_blank _ _ _ (Predicate.slots_blank d)]
      rfl

theorem bound_blank (included : List Bool) (row : InsertRow) :
    row.blank.bound included = (row.bound included).map Value.blank := by
  rw [InsertRow.bound, InsertRow.bound, InsertRow.blank, map_append]
  refine congrArg (row.required.map Value.blank ++ ·) ?_
  induction row.optional generalizing included with
  | nil => rfl
  | cons entry rest ih =>
    cases included with
    | nil => rfl
    | cons slot included =>
      cases slot with
      | true => exact congrArg (entry.2.blank :: ·) (ih included)
      | false => exact ih included

theorem optionalIncluded_blank (i : Insert) : i.blank.optionalIncluded = i.optionalIncluded := by
  unfold Insert.optionalIncluded Insert.blank
  simp only [foldl_map, InsertRow.blank, map_map]
  rfl

theorem columnNames_blank (i : Insert) : i.blank.columnNames = i.columnNames := by
  rw [Insert.columnNames, optionalIncluded_blank]
  rfl

theorem InsertRow.slots_blank (included : List Bool) (row : InsertRow) :
    (row.slots included).map Slot.blank = row.blank.slots included := by
  rw [InsertRow.slots, map_append, map_cons, InsertRow.slots, bound_blank,
    listed_blank (fun value => [.bind value]) Value.blank fun _ => rfl]
  rfl

theorem Insert.slots_blank (returning : Option Projection) (i : Insert) :
    (i.slots d returning).map Slot.blank = i.blank.slots d (returning.map Projection.blank) := by
  have hhead : i.headSlots.map Slot.blank = i.blank.headSlots := by
    rw [Insert.headSlots, Insert.headSlots, columnNames_blank, map_append, map_append,
      listed_blank (fun column => [.ident column]) id (fun _ => rfl), map_id]
    rfl
  rw [Insert.slots, Insert.slots, map_append, map_append, map_append, hhead,
    listed_blank _ _ (InsertRow.slots_blank i.optionalIncluded),
    givenSlots_blank _ _ (Conflict.slots_blank d i.type.table i.columnNames),
    someSlots_blank _ _ _ (Projection.slots_blank d), optionalIncluded_blank, columnNames_blank]
  rfl

theorem intoInsert_blank (u : Upsert) : u.blank.intoInsert = u.intoInsert.blank := by
  unfold Upsert.intoInsert Upsert.blank Insert.blank
  cases hu : u.updates with
  | nil | cons update rest => rfl

theorem Update.slots_blank (u : Update) : (u.slots d).map Slot.blank = u.blank.slots d := by
  have hset (assignment : String × Operand) : (setSlots d assignment).map Slot.blank =
      setSlots d (assignment.1, assignment.2.blank) := by
    rw [setSlots, map_append, Operand.slots_blank]
    rfl
  rw [Update.slots, map_append, map_append, listed_blank _ _ hset,
    someSlots_blank _ _ _ (Predicate.slots_blank d)]
  rfl

theorem Delete.slots_blank (u : Delete) : (u.slots d).map Slot.blank = u.blank.slots d := by
  rw [Delete.slots, map_append, someSlots_blank _ _ _ (Predicate.slots_blank d)]
  rfl

theorem Statement.slots_blank (s : Statement) : (s.slots d).map Slot.blank = s.blank.slots d := by
  cases s with
  | select s => exact s.slots_blank d
  | count s | existence s =>
    rw [Statement.slots, map_append, map_cons, Select.slots_blank]
    rfl
  | insert i returning => exact i.slots_blank d returning
  | upsert u returning =>
    rw [Statement.slots, Insert.slots_blank, ← intoInsert_blank]
    rfl
  | update u | delete u => exact u.slots_blank d

theorem hasSets_blank (s : Statement) : s.blank.hasSets = s.hasSets := by
  cases s with
  | update u => exact congrArg (!·) (isEmpty_map ..)
  | _ => rfl

end Blanking

/-- What sending a statement by position needs: the placeholders are numbered in text order,
each spelled with its number where the backend numbers them; the text is that of the builder's
places, the k-th placeholder at the k-th of them; the buffer holds the values given there,
without a cast; and the text is the same for all values of the same shape. -/
structure Matched (d : Dialect) (s : Statement) (w : SqlWriter) : Prop where
  numbered : placeholders w.pieces = List.range' 1 w.binds.length
  spelled : ∀ position, (Piece.placeholder position).sql d =
    d.placeholderPrefix.toString ++ if d.numberedPlaceholders then toString position else ""
  placed : w.pieces = layout d 0 (s.slots d)
  bound : w.binds = (s.given d).map Value.payload
  unwrapped : ∀ value ∈ w.binds, value.isCast = false
  blind : ∀ other : Statement, other.blank = s.blank →
    ∃ next, other.render d = .ok next ∧ next.sql d = w.sql d

def Value.castOfCast : Value → Bool
  | cast _ (cast _ _) => true
  | _ => false

theorem payload_isCast (value : Value) : value.payload.isCast = value.castOfCast := by
  cases value with
  | cast type inner => cases inner <;> rfl
  | _ => rfl

theorem spelled_placeholder (d : Dialect) (position : ℕ) : (Piece.placeholder position).sql d =
    d.placeholderPrefix.toString ++ if d.numberedPlaceholders then toString position else "" := by
  rw [Piece.sql, placeholderText, itoa_eq]

theorem render_blind {d : Dialect} {s other : Statement} {w : SqlWriter}
    (h : s.render d = .ok w) (hother : other.blank = s.blank) :
    ∃ next, other.render d = .ok next ∧ next.sql d = w.sql d := by
  rw [Statement.render_eq_ok, emitted_eq_ok] at h
  obtain ⟨hsets, hcheck, hnone, rfl⟩ := h
  have hslots : (other.slots d).map Slot.blank = (s.slots d).map Slot.blank := by
    rw [Statement.slots_blank, hother, Statement.slots_blank]
  have hlayout : layout d 0 (other.slots d) = layout d 0 (s.slots d) := by
    rw [← layout_blank d (other.slots d), hslots, layout_blank]
  refine ⟨_, (Statement.render_eq_ok d other _).mpr ⟨?_, (emitted_eq_ok d _ _).mpr
    ⟨?_, ?_, rfl⟩⟩, congrArg (fun pieces : List Piece => String.join (pieces.map (Piece.sql d))) hlayout⟩
  · rw [← hasSets_blank, hother, hasSets_blank, hsets]
  · intro slot hslot
    have hmem : slot.blank ∈ (s.slots d).map Slot.blank := hslots ▸ mem_map_of_mem hslot
    obtain ⟨own, hown, hblank⟩ := mem_map.mp hmem
    rw [← check_blank, ← hblank, check_blank]
    exact hcheck own hown
  · rw [← lacking_blank, hslots, lacking_blank, hnone]

/-- A rendered statement's placeholders and binds agree exactly when no value it was given is a
cast of a cast. -/
theorem placeholders_match_iff (d : Dialect) (s : Statement) (w : SqlWriter)
    (h : s.render d = .ok w) :
    Matched d s w ↔ ∀ value ∈ s.given d, value.castOfCast = false := by
  have hrendered := h
  rw [Statement.render_eq_ok, emitted_eq_ok] at hrendered
  obtain ⟨_, _, _, rfl⟩ := hrendered
  constructor
  · intro hmatched value hvalue
    rw [← payload_isCast]
    exact hmatched.unwrapped _ (mem_map_of_mem hvalue)
  · intro hplain
    refine ⟨?_, spelled_placeholder d, rfl, rfl, ?_, fun other hother =>
      render_blind h hother⟩
    · rw [placeholders_layout, length_map]
    · intro value hvalue
      obtain ⟨given, hgiven, rfl⟩ := mem_map.mp hvalue
      rw [payload_isCast]
      exact hplain given hgiven

/-- An insert of a row with a cast composite, a tagged geometry and an embedding. -/
def placeInsert : Statement :=
  .insert ⟨⟨"places", ["address", "spot", "embedding"], []⟩,
    [⟨[.cast "address_type" (.text "(1,A)"), .geo "POINT(1 2)" (some 4326), .vector [0, 1]], []⟩],
    some ⟨["address"], .updateAll, some (.isNull "places" "spot")⟩⟩ none

theorem placeholders_match_placeInsert : ∃ w, placeInsert.render postgresDialect = .ok w ∧
    Matched postgresDialect placeInsert w :=
  ⟨_, rfl, (placeholders_match_iff postgresDialect placeInsert _ rfl).mpr (by decide)⟩

/-- A value that asks for a cast itself, of a type that is bound with one. -/
def castTwice : Statement :=
  .insert ⟨⟨"places", ["address"], []⟩,
    [⟨[withCast (.cast "text" (.text "(1,A)")) (some "address_type")], []⟩], none⟩ none

theorem cast_reaches_driver : ∃ w, castTwice.render postgresDialect = .ok w ∧
    w.binds = [.cast "text" (.text "(1,A)")] ∧ ¬Matched postgresDialect castTwice w := by
  refine ⟨_, rfl, rfl, fun h => ?_⟩
  have hcast := h.unwrapped _ (mem_singleton.mpr rfl)
  cases hcast

end Stakit.Orm
