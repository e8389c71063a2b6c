import Stakit.OrmExpressions

set_option autoImplicit false

namespace Stakit.Orm
open List

def numericCast : ValueKind → Option String
  | .i16 => some "smallint"
  | .i32 => some "integer"
  | .i64 => some "bigint"
  | .f32 => some "real"
  | .f64 => some "double precision"
  | _ => none

structure TsRank where
  table : String
  name : String
  query : String
  config : Option String
  stored : Bool

inductive Projection where
  | column (table name : String) (readCast : Option String)
  | count
  | agg (func table name : String) (isWidened : Bool) (out : ValueKind)
  | sqlExpr (fragment : String)
  | tsRank (rank : TsRank)
  | all (table : String) (columns : List (String × Option String))
  | distance (table name : String) (query : List UInt32) (metric : Distance)
  | geoDistance (table name : String) (geom : Value)
  | tuple (items : List Projection)

def pushReadCast (d : Dialect) (cast : Option String) (w : SqlWriter) : SqlWriter :=
  match cast with
  | some cast => if d.supportsCast then (w.push "::").pushName cast else w
  | none => w

def writeColumn (d : Dialect) (table name : String) (cast : Option String) (w : SqlWriter) :
    Except Error SqlWriter := do
  let w ← w.pushQualified table name
  return pushReadCast d cast w

def writeAgg (d : Dialect) (func table name : String) (isWidened : Bool) (out : ValueKind)
    (w : SqlWriter) : Except Error SqlWriter := do
  let w ← ((w.pushName func).push "(").pushQualified table name
  let w := w.push ")"
  return if isWidened then pushReadCast d (numericCast out) w else w

def writeDistance (d : Dialect) (table name : String) (query : List UInt32) (metric : Distance)
    (w : SqlWriter) : Except Error SqlWriter :=
  match d.vectorDistance metric with
  | .operator op => do
    let w ← w.pushQualified table name
    return (w.push op).pushBind d (.vector query)
  | .function function => do
    let w ← ((w.push function).push "(").pushQualified table name
    return ((w.push ", ").pushBind d (.vector query)).push ")"

def writeGeoDistance (d : Dialect) (table name : String) (geom : Value) (w : SqlWriter) :
    Except Error SqlWriter := do
  let w := if d.supportsSpatial then w else w.markUnsupported "PostGIS"
  let w ← (w.push "st_distance(").pushQualified table name
  return ((w.push ", ").pushBind d geom).push ")"

def TsRank.write (d : Dialect) (rank : TsRank) : Writes :=
  writeTsRank d rank.table rank.name rank.query rank.config rank.stored

mutual

def Projection.writeColumns (d : Dialect) : Projection → Writes
  | .column table name readCast, w => writeColumn d table name readCast w
  | .count, w => .ok (w.push "count(*)")
  | .agg func table name isWidened out, w => writeAgg d func table name isWidened out w
  | .sqlExpr fragment, w => .ok (w.pushRaw fragment)
  | .tsRank rank, w => rank.write d w
  | .all table columns, w =>
    writeAll none (fun column => writeColumn d table column.1 column.2) columns w
  | .distance table name query metric, w => writeDistance d table name query metric w
  | .geoDistance table name geom, w => writeGeoDistance d table name geom w
  | .tuple items, w => Projection.writeTuple d none items w

/-- The members of a tuple or a derived row, separated by commas. -/
def Projection.writeTuple (d : Dialect) (first : Option String) : List Projection → Writes
  | [], w => .ok w
  | item :: rest, w => do
    let w ← item.writeColumns d (first.elim w w.push)
    Projection.writeTuple d (some ", ") rest w

end

inductive JoinKind where
  | inner
  | left
  | right

def JoinKind.keyword : JoinKind → String
  | inner => "inner join"
  | left => "left join"
  | right => "right join"

structure Join where
  kind : JoinKind
  table : String
  on : Predicate

structure NearestOrder where
  table : String
  name : String
  query : List UInt32
  metric : Distance

structure NearestGeo where
  table : String
  name : String
  geom : Value

inductive GroupTerm where
  | column (table name : String)
  | sql (fragment : String)

inductive Direction where
  | asc
  | desc

structure Order where
  table : String
  column : String
  direction : Direction

structure Select where
  projection : Projection
  fromTable : String
  joins : List Join
  filter : Option Predicate
  group : List GroupTerm
  having : Option Predicate
  order : List Order
  nearest : Option NearestOrder
  nearestGeo : Option NearestGeo
  rankOrder : Option TsRank
  limit : Option ℤ
  offset : Option ℤ

def Select.new (projection : Projection) : Select :=
  ⟨projection, "", [], none, [], none, [], none, none, none, none, none⟩

/-- What a repeated filter leaves: the conjunction of the old one and the new one. -/
def andFilter (existing : Option Predicate) (predicate : Predicate) : Option Predicate :=
  some (match existing with
    | some existing => .and existing predicate
    | none => predicate)

def Select.addFilter (s : Select) (predicate : Predicate) : Select :=
  { s with filter := andFilter s.filter predicate }

def writeSome {α : Type} (before : String) (write : α → Writes) : Option α → Writes
  | some item, w => write item (w.push before)
  | none, w => .ok w

def writeEach {α : Type} (write : α → Writes) : List α → Writes
  | [], w => .ok w
  | item :: rest, w => do
    let w ← write item w
    writeEach write rest w

def Join.write (d : Dialect) (join : Join) : Writes := fun w => do
  let w ← (((w.push " ").push join.kind.keyword).push " ").pushIdent join.table
  join.on.write d (w.push " on ")

def GroupTerm.write : GroupTerm → Writes
  | .column table name, w => w.pushQualified table name
  | .sql fragment, w => .ok (w.pushRaw fragment)

def Direction.text : Direction → String
  | asc => " asc"
  | desc => " desc"

def Order.write (order : Order) : Writes := fun w => do
  let w ← w.pushQualified order.table order.column
  return w.push order.direction.text

/-- What opens a further term of the ordering. -/
def orderBefore (started : Bool) : String := if started then ", " else " order by "

def NearestOrder.write (d : Dialect) (started : Bool) (nearest : NearestOrder) : Writes :=
  fun w => do
    let w ← writeDistance d nearest.table nearest.name nearest.query nearest.metric
      (w.push (orderBefore started))
    return w.push " asc"

def NearestGeo.write (d : Dialect) (started : Bool) (geo : NearestGeo) : Writes := fun w => do
  let w := if d.supportsSpatial then w else w.markUnsupported "PostGIS"
  let w ← (w.push (orderBefore started)).pushQualified geo.table geo.name
  return ((w.push " <-> ").pushBind d geo.geom).push " asc"

def TsRank.writeOrder (d : Dialect) (started : Bool) (rank : TsRank) : Writes := fun w => do
  let w ← rank.write d (w.push (orderBefore started))
  return w.push " desc"

def writeGiven {α : Type} (write : α → Writes) : Option α → Writes
  | some item, w => write item w
  | none, w => .ok w

def Select.assemble (d : Dialect) (s : Select) : Writes := fun w => do
  let w ← s.projection.writeColumns d (w.push "select ")
  let w ← (w.push " from ").pushIdent s.fromTable
  let w ← writeEach (Join.write d) s.joins w
  let w ← writeSome " where " (Predicate.write d) s.filter w
  let w ← writeAll (some " group by ") GroupTerm.write s.group w
  let w ← writeSome " having " (Predicate.write d) s.having w
  let w ← writeAll (some " order by ") Order.write s.order w
  let started := !s.order.isEmpty
  let w ← writeGiven (NearestOrder.write d started) s.nearest w
  let started := started || s.nearest.isSome
  let w ← writeGiven (NearestGeo.write d started) s.nearestGeo w
  let started := started || s.nearestGeo.isSome
  let w ← writeGiven (TsRank.writeOrder d started) s.rankOrder w
  let w ← writeSome " limit " (fun limit => writeBind d (.i64 limit)) s.limit w
  writeSome " offset " (fun offset => writeBind d (.i64 offset)) s.offset w

def Select.intoSql (d : Dialect) (s : Select) : Except Error SqlWriter := do
  let w ← s.assemble d SqlWriter.new
  w.finish

/-- The builder a scalar wrapping renders: no paging and no ordering. -/
def Select.unordered (s : Select) : Select :=
  { s with
    limit := none, offset := none, order := [], nearest := none, nearestGeo := none,
    rankOrder := none }

/-- The text around the whole of a rendered query. -/
def SqlWriter.wrapped (before after : String) (w : SqlWriter) : SqlWriter :=
  { w with pieces := .text before :: w.pieces ++ [.text after] }

def Select.wrappedScalar (d : Dialect) (before after : String) (s : Select) :
    Except Error SqlWriter := do
  let w ← s.unordered.intoSql d
  return w.wrapped before after

def Select.count (d : Dialect) (s : Select) : Except Error SqlWriter :=
  s.wrappedScalar d "select count(*) from (" ") as __count"

def Select.exists (d : Dialect) (s : Select) : Except Error SqlWriter :=
  s.wrappedScalar d "select exists(" ")"

def readCastSlots (d : Dialect) (cast : Option String) : List Slot :=
  match cast with
  | some cast => if d.supportsCast then [.text "::", .name cast] else []
  | none => []

def columnSlots (d : Dialect) (table name : String) (cast : Option String) : List Slot :=
  qualified table name ++ readCastSlots d cast

def aggSlots (d : Dialect) (func table name : String) (isWidened : Bool) (out : ValueKind) :
    List Slot :=
  [.name func, .text "("] ++ qualified table name ++ [.text ")"] ++
    if isWidened then readCastSlots d (numericCast out) else []

def distanceSlots (d : Dialect) (table name : String) (query : List UInt32)
    (metric : Distance) : List Slot :=
  match d.vectorDistance metric with
  | .operator op => qualified table name ++ [.text op, .bind (.vector query)]
  | .function function =>
    [.text function, .text "("] ++ qualified table name ++
      [.text ", ", .bind (.vector query), .text ")"]

def spatialNeed (d : Dialect) : List Slot :=
  if d.supportsSpatial then [] else [.needs "PostGIS"]

def geoDistanceSlots (d : Dialect) (table name : String) (geom : Value) : List Slot :=
  spatialNeed d ++ [.text "st_distance("] ++ qualified table name ++
    [.text ", ", .bind geom, .text ")"]

def TsRank.slots (d : Dialect) (rank : TsRank) : List Slot :=
  tsRankSlots d rank.table rank.name rank.query rank.config rank.stored

mutual

def Projection.slots (d : Dialect) : Projection → List Slot
  | .column table name readCast => columnSlots d table name readCast
  | .count => [.text "count(*)"]
  | .agg func table name isWidened out => aggSlots d func table name isWidened out
  | .sqlExpr fragment => [.raw fragment]
  | .tsRank rank => rank.slots d
  | .all table columns => listed none (fun column => columnSlots d table column.1 column.2) columns
  | .distance table name query metric => distanceSlots d table name query metric
  | .geoDistance table name geom => geoDistanceSlots d table name geom
  | .tuple items => Projection.tupleSlots d none items

def Projection.tupleSlots (d : Dialect) (first : Option String) : List Projection → List Slot
  | [] => []
  | item :: rest =>
    first.elim [] (fun text => [.text text]) ++ item.slots d ++
      Projection.tupleSlots d (some ", ") rest

end

def someSlots {α : Type} (before : String) (slots : α → List Slot) : Option α → List Slot
  | some item => .text before :: slots item
  | none => []

def givenSlots {α : Type} (slots : α → List Slot) (given : Option α) : List Slot :=
  given.elim [] slots

def Join.slots (d : Dialect) (join : Join) : List Slot :=
  [.text " ", .text join.kind.keyword, .text " ", .ident join.table, .text " on "] ++
    join.on.slots d

def GroupTerm.slots : GroupTerm → List Slot
  | .column table name => qualified table name
  | .sql fragment => [.raw fragment]

def Order.slots (order : Order) : List Slot :=
  qualified order.table order.column ++ [.text order.direction.text]

def NearestOrder.slots (d : Dialect) (started : Bool) (nearest : NearestOrder) : List Slot :=
  [.text (orderBefore started)] ++
    distanceSlots d nearest.table nearest.name nearest.query nearest.metric ++ [.text " asc"]

def NearestGeo.slots (d : Dialect) (started : Bool) (geo : NearestGeo) : List Slot :=
  spatialNeed d ++ [.text (orderBefore started)] ++ qualified geo.table geo.name ++
    [.text " <-> ", .bind geo.geom, .text " asc"]

def TsRank.orderSlots (d : Dialect) (started : Bool) (rank : TsRank) : List Slot :=
  [.text (orderBefore started)] ++ rank.slots d ++ [.text " desc"]

def Select.clauses (d : Dialect) (s : Select) : List (List Slot) :=
  let started := !s.order.isEmpty
  let startedNearest := started || s.nearest.isSome
  let startedGeo := startedNearest || s.nearestGeo.isSome
  [.text "select " :: s.projection.slots d, [.text " from ", .ident s.fromTable],
    s.joins.flatMap (Join.slots d),
    someSlots " where " (Predicate.slots d) s.filter,
    listed (some " group by ") GroupTerm.slots s.group,
    someSlots " having " (Predicate.slots d) s.having,
    listed (some " order by ") Order.slots s.order,
    givenSlots (NearestOrder.slots d started) s.nearest,
    givenSlots (NearestGeo.slots d startedNearest) s.nearestGeo,
    givenSlots (TsRank.orderSlots d startedGeo) s.rankOrder,
    someSlots " limit " (fun limit => [.bind (.i64 limit)]) s.limit,
    someSlots " offset " (fun offset => [.bind (.i64 offset)]) s.offset]

def Select.slots (d : Dialect) (s : Select) : List Slot := (s.clauses d).flatten

section Writing

variable (d : Dialect)

theorem pushReadCast_eq (cast : Option String) (w : SqlWriter) :
    emit d (readCastSlots d cast) w = .ok (pushReadCast d cast w) := by
  unfold readCastSlots pushReadCast
  cases cast with
  | none => rfl
  | some cast =>
    dsimp only
    split <;> rfl

theorem writeColumn_eq (table name : String) (cast : Option String) (w : SqlWriter) :
    writeColumn d table name cast w = emit d (columnSlots d table name cast) w := by
  rw [writeColumn, columnSlots, emit_qualified]
  exact bind_congr fun w => (pushReadCast_eq d cast w).symm

theorem writeAgg_eq (func table name : String) (isWidened : Bool) (out : ValueKind)
    (w : SqlWriter) : writeAgg d func table name isWidened out w =
      emit d (aggSlots d func table name isWidened out) w := by
  rw [writeAgg, aggSlots]
  simp only [append_assoc, cons_append, nil_append]
  rw [emit_name, emit_text, emit_qualified]
  refine bind_congr fun w => ?_
  rw [emit_text]
  cases isWidened with
  | false => rfl
  | true => exact (pushReadCast_eq d _ _).symm

theorem writeDistance_eq (table name : String) (query : List UInt32) (metric : Distance)
    (w : SqlWriter) : writeDistance d table name query metric w =
      emit d (distanceSlots d table name query metric) w := by
  unfold writeDistance distanceSlots
  cases d.vectorDistance metric with
  | operator op =>
    dsimp only
    rw [emit_qualified]
    rfl
  | function function =>
    dsimp only
    rw [append_assoc, cons_append, emit_text, cons_append, emit_text, nil_append, emit_qualified]
    rfl

theorem writeGeoDistance_eq (table name : String) (geom : Value) (w : SqlWriter) :
    writeGeoDistance d table name geom w = emit d (geoDistanceSlots d table name geom) w := by
  unfold writeGeoDistance geoDistanceSlots spatialNeed
  split <;> simp only [cons_append, nil_append, emit_needs, emit_text, emit_qualified] <;> rfl

mutual

theorem Projection.writeColumns_eq (projection : Projection) (w : SqlWriter) :
    projection.writeColumns d w = emit d (projection.slots d) w := by
  cases projection with
  | column table name readCast => exact writeColumn_eq d table name readCast w
  | count => rfl
  | agg func table name isWidened out => exact writeAgg_eq d func table name isWidened out w
  | sqlExpr fragment => rfl
  | tsRank rank => exact writeTsRank_eq d _ _ _ _ _ w
  | all table columns =>
    exact writeAll_eq d _ _ (fun column => writeColumn_eq d table column.1 column.2) none columns w
  | distance table name query metric => exact writeDistance_eq d table name query metric w
  | geoDistance table name geom => exact writeGeoDistance_eq d table name geom w
  | tuple items => exact Projection.writeTuple_eq none items w

theorem Projection.writeTuple_eq (first : Option String) (items : List Projection)
    (w : SqlWriter) : Projection.writeTuple d first items w =
      emit d (Projection.tupleSlots d first items) w := by
  cases items with
  | nil => rfl
  | cons item rest =>
    rw [Projection.writeTuple, Projection.tupleSlots, append_assoc]
    cases first with
    | none =>
      rw [Option.elim, Option.elim, nil_append, emit_append, Projection.writeColumns_eq item]
      exact bind_congr fun w => Projection.writeTuple_eq _ rest w
    | some text =>
      rw [Option.elim, Option.elim, cons_append, emit_text, nil_append, emit_append,
        Projection.writeColumns_eq item]
      exact bind_congr fun w => Projection.writeTuple_eq _ rest w

end

variable {α : Type} (write : α → Writes) (slots : α → List Slot) (started : Bool)

theorem writeSome_eq (before : String) (write : α → Writes) (slots : α → List Slot)
    (h : ∀ item w, write item w = emit d (slots item) w) (given : Option α) (w : SqlWriter) :
    writeSome before write given w = emit d (someSlots before slots given) w := by
  cases given with
  | none => rfl
  | some item => exact h item _

theorem writeGiven_eq (h : ∀ item w, write item w = emit d (slots item) w) (given : Option α)
    (w : SqlWriter) : writeGiven write given w = emit d (givenSlots slots given) w := by
  cases given with
  | none => rfl
  | some item => exact h item w

theorem writeEach_eq (h : ∀ item w, write item w = emit d (slots item) w) (items : List α)
    (w : SqlWriter) : writeEach write items w = emit d (items.flatMap slots) w := by
  induction items generalizing w with
  | nil => rfl
  | cons item rest ih =>
    rw [writeEach, flatMap_cons, emit_append, h]
    exact bind_congr ih

theorem Join.write_eq (join : Join) (w : SqlWriter) : join.write d w = emit d (join.slots d) w := by
  rw [Join.write, Join.slots]
  simp only [cons_append, nil_append, emit_text, emit_ident]
  refine bind_congr fun w => ?_
  rw [emit_text, Predicate.write_eq]

theorem GroupTerm.write_eq (term : GroupTerm) (w : SqlWriter) :
    term.write w = emit d term.slots w := by
  cases term with
  | column table name => exact Operand.write_eq d (.column table name) w
  | sql fragment => rfl

theorem Order.write_eq (order : Order) (w : SqlWriter) : order.write w = emit d order.slots w := by
  rw [Order.write, Order.slots, emit_qualified]
  rfl

theorem NearestOrder.write_eq (nearest : NearestOrder) (w : SqlWriter) :
    nearest.write d started w = emit d (nearest.slots d started) w := by
  rw [NearestOrder.write, NearestOrder.slots, append_assoc, cons_append, emit_text,
    nil_append, emit_append, writeDistance_eq]
  rfl

theorem NearestGeo.write_eq (geo : NearestGeo) (w : SqlWriter) :
    geo.write d started w = emit d (geo.slots d started) w := by
  rw [NearestGeo.write, NearestGeo.slots, spatialNeed]
  split <;> simp only [cons_append, nil_append, emit_needs, emit_text, emit_qualified] <;> rfl

theorem TsRank.writeOrder_eq (rank : TsRank) (w : SqlWriter) :
    rank.writeOrder d started w = emit d (rank.orderSlots d started) w := by
  rw [TsRank.writeOrder, TsRank.orderSlots, append_assoc, cons_append, emit_text,
    nil_append, emit_append, TsRank.write, writeTsRank_eq]
  rfl

theorem then_eq (write next : Writes) (slots rest : List Slot)
    (hwrite : ∀ w, write w = emit d slots w) (hnext : ∀ w, next w = emit d rest w)
    (w : SqlWriter) : (write w >>= next) = emit d (slots ++ rest) w := by
  rw [emit_append, hwrite]
  exact bind_congr hnext

theorem Select.assemble_eq (s : Select) (w : SqlWriter) :
    s.assemble d w = emit d (s.slots d) w := by
  have hfilter (before : String) := writeSome_eq d before _ _ (Predicate.write_eq d)
  have hcount (before : String) := writeSome_eq d before
    (fun value => writeBind d (.i64 value)) (fun value => [.bind (.i64 value)]) fun _ _ => rfl
  rw [Select.slots, Select.clauses, flatten_cons]
  refine then_eq d (fun w => s.projection.writeColumns d (w.push "select ")) _
    (.text "select " :: s.projection.slots d) _ (fun w => s.projection.writeColumns_eq d _) ?_ w
  intro w
  rw [flatten_cons]
  refine then_eq d (fun w => (w.push " from ").pushIdent s.fromTable) _
    [.text " from ", .ident s.fromTable] _ (fun w => (bind_pure _).symm) ?_ w
  intro w
  rw [flatten_cons]
  refine then_eq d _ _ _ _ (writeEach_eq d _ _ (Join.write_eq d) s.joins) ?_ w
  intro w
  rw [flatten_cons]
  refine then_eq d _ _ _ _ (hfilter " where " s.filter) ?_ w
  intro w
  rw [flatten_cons]
  refine then_eq d _ _ _ _ (writeAll_eq d _ _ (GroupTerm.write_eq d) _ s.group) ?_ w
  intro w
  rw [flatten_cons]
  refine then_eq d _ _ _ _ (hfilter " having " s.having) ?_ w
  intro w
  rw [flatten_cons]
  refine then_eq d _ _ _ _ (writeAll_eq d _ _ (Order.write_eq d) _ s.order) ?_ w
  intro w
  rw [flatten_cons]
  refine then_eq d _ _ _ _ (writeGiven_eq d _ _ (NearestOrder.write_eq d _) s.nearest) ?_ w
  intro w
  rw [flatten_cons]
  refine then_eq d _ _ _ _ (writeGiven_eq d _ _ (NearestGeo.write_eq d _) s.nearestGeo) ?_ w
  intro w
  rw [flatten_cons]
  refine then_eq d _ _ _ _ (writeGiven_eq d _ _ (TsRank.writeOrder_eq d _) s.rankOrder) ?_ w
  intro w
  rw [flatten_cons, flatten_singleton]
  exact then_eq d _ _ _ _ (hcount " limit " s.limit) (hcount " offset " s.offset) w

end Writing

end Stakit.Orm
