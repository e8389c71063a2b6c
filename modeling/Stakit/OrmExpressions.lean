import Stakit.SqlTemplates

set_option autoImplicit false

namespace Stakit.Orm
open List

/-- The comparisons the builders make. -/
inductive CompareOp where
  | eq
  | ne
  | gt
  | lt
  | gte
  | lte
  | like

def CompareOp.text : CompareOp → String
  | eq => " = "
  | ne => " <> "
  | gt => " > "
  | lt => " < "
  | gte => " >= "
  | lte => " <= "
  | like => " like "

inductive ArithOp where
  | add
  | sub

def ArithOp.text : ArithOp → String
  | add => " + "
  | sub => " - "

mutual

inductive Operand where
  | column (table name : String)
  | value (value : Value)
  | excluded (name : String)
  | case (condition : Predicate) (thenValue elseValue : Operand)
  | databaseNow (seconds : Option ℤ)
  | arith (lhs : Operand) (op : ArithOp) (rhs : Operand)

inductive Predicate where
  | binary (table name : String) (op : CompareOp) (rhs : Operand)
  | isNull (table name : String)
  | anyOf (table name : String) (values : Value)
  | and (left right : Predicate)
  | or (left right : Predicate)
  | not (inner : Predicate)
  | matchQuery (table name query : String) (config : Option String) (stored : Bool)
  | like (table name : String) (pattern : Value)
  | spatial (func table name : String) (geom : Value) (distance : Option UInt64)
  | raw (fragment : String)

end

abbrev Writes := SqlWriter → Except Error SqlWriter

/-- Write a list, `first` before its first item and a comma before every other. -/
def writeAll {α : Type} (first : Option String) (write : α → Writes) : List α → Writes
  | [], w => .ok w
  | item :: rest, w => do
    let w ← write item (first.elim w w.push)
    writeAll (some ", ") write rest w

def writeBind (d : Dialect) (value : Value) : Writes := fun w => .ok (w.pushBind d value)

def writeTsvector (table name config : String) (stored : Bool) (w : SqlWriter) :
    Except Error SqlWriter :=
  if stored then w.pushQualified table name
  else do
    let w ← (((w.push "to_tsvector('").pushName config).push "', ").pushQualified table name
    return w.push ")"

def writeMatch (d : Dialect) (table name query : String) (config : Option String) (stored : Bool)
    (w : SqlWriter) : Except Error SqlWriter :=
  match d.fullText with
  | .fts5Match => do
    let w ← w.pushQualified table name
    return (w.push " match ").pushBind d (.text query)
  | .tsQuery standard => do
    let config := config.getD standard
    let w ← writeTsvector table name config stored w
    let w := ((w.push " @@ plainto_tsquery('").pushName config).push "', "
    return (w.pushBind d (.text query)).push ")"

/-- The relevance score, flagged where full text is not Postgres's. -/
def writeTsRank (d : Dialect) (table name query : String) (config : Option String)
    (stored : Bool) (w : SqlWriter) : Except Error SqlWriter :=
  match d.fullText with
  | .fts5Match => do
    let w := w.markUnsupported "ts_rank (Postgres full-text only)"
    let w ← (w.push "ts_rank(").pushQualified table name
    return ((w.push ", ").pushBind d (.text query)).push ")"
  | .tsQuery standard => do
    let config := config.getD standard
    let w ← writeTsvector table name config stored (w.push "ts_rank(")
    let w := ((w.push ", plainto_tsquery('").pushName config).push "', "
    return (w.pushBind d (.text query)).push "))"

def writeLike (d : Dialect) (table name : String) (pattern : Value) (w : SqlWriter) :
    Except Error SqlWriter := do
  let w ← w.pushQualified table name
  return ((w.push " like ").pushBind d pattern).push " escape '\\'"

def writeSpatial (d : Dialect) (func table name : String) (geom : Value)
    (distance : Option UInt64) (w : SqlWriter) : Except Error SqlWriter := do
  let w := if d.supportsSpatial then w else w.markUnsupported "PostGIS"
  let w ← ((w.pushName func).push "(").pushQualified table name
  let w := (w.push ", ").pushBind d geom
  let w := distance.elim w fun distance => (w.push ", ").pushBind d (.f64 distance)
  return w.push ")"

/-- One array bind, or one bind an element; an empty list is the condition that never holds. -/
def writeAnyOf (d : Dialect) (table name : String) (values : Value) (w : SqlWriter) :
    Except Error SqlWriter :=
  if d.supportsAnyArray then do
    let w ← w.pushQualified table name
    return ((w.push " = any(").pushBind d values).push ")"
  else
    match values with
    | .array _ [] => .ok (w.push "1 = 0")
    | .array _ items => do
      let w ← w.pushQualified table name
      let w ← writeAll none (writeBind d) items (w.push " in (")
      return w.push ")"
    | values => do
      let w ← w.pushQualified table name
      return ((w.push " in (").pushBind d values).push ")"

def combine (left : Writes) (op : String) (right : Writes) (w : SqlWriter) :
    Except Error SqlWriter := do
  let w ← left (w.push "(")
  let w ← right (w.push op)
  return w.push ")"

mutual

def Operand.write (d : Dialect) : Operand → Writes
  | .column table name, w => w.pushQualified table name
  | .excluded name, w =>
    if d.upsertOnDuplicateKey then do
      let w ← (w.push "values(").pushIdent name
      return w.push ")"
    else (w.push "excluded.").pushIdent name
  | .case condition thenValue elseValue, w => do
    let w ← condition.write d (w.push "case when ")
    let w ← thenValue.write d (w.push " then ")
    let w ← elseValue.write d (w.push " else ")
    return w.push " end"
  | .databaseNow seconds, w =>
    let w := if d.name ≠ "postgres" then
      w.markUnsupported "database timestamp expressions (Postgres only)" else w
    let w := w.push "now()"
    match seconds with
    | some seconds =>
      .ok (((w.push " - (").pushBind d (.i64 seconds)).push "::bigint * interval '1 second')")
    | none => .ok w
  | .value value, w => .ok (w.pushBind d value)
  | .arith lhs op rhs, w => do
    let w ← lhs.write d (w.push "(")
    let w ← rhs.write d (w.push op.text)
    return w.push ")"

def Predicate.write (d : Dialect) : Predicate → Writes
  | .binary table name op rhs, w => do
    let w ← w.pushQualified table name
    rhs.write d (w.push op.text)
  | .isNull table name, w => do
    let w ← w.pushQualified table name
    return w.push " is null"
  | .anyOf table name values, w => writeAnyOf d table name values w
  | .and left right, w => combine (left.write d) " and " (right.write d) w
  | .or left right, w => combine (left.write d) " or " (right.write d) w
  | .not inner, w => do
    let w ← inner.write d (w.push "not (")
    return w.push ")"
  | .matchQuery table name query config stored, w => writeMatch d table name query config stored w
  | .like table name pattern, w => writeLike d table name pattern w
  | .spatial func table name geom distance, w => writeSpatial d func table name geom distance w
  | .raw fragment, w => .ok (w.pushRaw fragment)

end

def qualified (table name : String) : List Slot := [.ident table, .text ".", .ident name]

def listed {α : Type} (first : Option String) (slots : α → List Slot) : List α → List Slot
  | [] => []
  | item :: rest =>
    first.elim [] (fun text => [.text text]) ++ slots item ++ listed (some ", ") slots rest

def tsvectorSlots (table name config : String) (stored : Bool) : List Slot :=
  if stored then qualified table name
  else [.text "to_tsvector('", .name config, .text "', "] ++ qualified table name ++ [.text ")"]

def matchSlots (d : Dialect) (table name query : String) (config : Option String)
    (stored : Bool) : List Slot :=
  match d.fullText with
  | .fts5Match => qualified table name ++ [.text " match ", .bind (.text query)]
  | .tsQuery standard =>
    tsvectorSlots table name (config.getD standard) stored ++
      [.text " @@ plainto_tsquery('", .name (config.getD standard), .text "', ",
        .bind (.text query), .text ")"]

def tsRankSlots (d : Dialect) (table name query : String) (config : Option String)
    (stored : Bool) : List Slot :=
  match d.fullText with
  | .fts5Match =>
    [.needs "ts_rank (Postgres full-text only)", .text "ts_rank("] ++ qualified table name ++
      [.text ", ", .bind (.text query), .text ")"]
  | .tsQuery standard =>
    [.text "ts_rank("] ++ tsvectorSlots table name (config.getD standard) stored ++
      [.text ", plainto_tsquery('", .name (config.getD standard), .text "', ",
        .bind (.text query), .text "))"]

def likeSlots (table name : String) (pattern : Value) : List Slot :=
  qualified table name ++ [.text " like ", .bind pattern, .text " escape '\\'"]

def spatialSlots (d : Dialect) (func table name : String) (geom : Value)
    (distance : Option UInt64) : List Slot :=
  (if d.supportsSpatial then [] else [.needs "PostGIS"]) ++ [.name func, .text "("] ++
    qualified table name ++ [.text ", ", .bind geom] ++
    distance.elim [] (fun distance => [.text ", ", .bind (.f64 distance)]) ++ [.text ")"]

def anyOfSlots (d : Dialect) (table name : String) (values : Value) : List Slot :=
  if d.supportsAnyArray then
    qualified table name ++ [.text " = any(", .bind values, .text ")"]
  else
    match values with
    | .array _ [] => [.text "1 = 0"]
    | .array _ items =>
      qualified table name ++ [.text " in ("] ++ listed none (fun item => [.bind item]) items ++
        [.text ")"]
    | values => qualified table name ++ [.text " in (", .bind values, .text ")"]

mutual

def Operand.slots (d : Dialect) : Operand → List Slot
  | .column table name => qualified table name
  | .excluded name =>
    if d.upsertOnDuplicateKey then [.text "values(", .ident name, .text ")"]
    else [.text "excluded.", .ident name]
  | .case condition thenValue elseValue =>
    [.text "case when "] ++ condition.slots d ++ [.text " then "] ++ thenValue.slots d ++
      [.text " else "] ++ elseValue.slots d ++ [.text " end"]
  | .databaseNow seconds =>
    (if d.name ≠ "postgres" then [.needs "database timestamp expressions (Postgres only)"]
      else []) ++ [.text "now()"] ++
    match seconds with
    | some seconds =>
      [.text " - (", .bind (.i64 seconds), .text "::bigint * interval '1 second')"]
    | none => []
  | .value value => [.bind value]
  | .arith lhs op rhs => [.text "("] ++ lhs.slots d ++ [.text op.text] ++ rhs.slots d ++ [.text ")"]

def Predicate.slots (d : Dialect) : Predicate → List Slot
  | .binary table name op rhs => qualified table name ++ [.text op.text] ++ rhs.slots d
  | .isNull table name => qualified table name ++ [.text " is null"]
  | .anyOf table name values => anyOfSlots d table name values
  | .and left right =>
    [.text "("] ++ left.slots d ++ [.text " and "] ++ right.slots d ++ [.text ")"]
  | .or left right =>
    [.text "("] ++ left.slots d ++ [.text " or "] ++ right.slots d ++ [.text ")"]
  | .not inner => [.text "not ("] ++ inner.slots d ++ [.text ")"]
  | .matchQuery table name query config stored => matchSlots d table name query config stored
  | .like table name pattern => likeSlots table name pattern
  | .spatial func table name geom distance => spatialSlots d func table name geom distance
  | .raw fragment => [.raw fragment]

end

section Writing

variable (d : Dialect)

theorem emit_text (fixed : String) (rest : List Slot) (w : SqlWriter) :
    emit d (.text fixed :: rest) w = emit d rest (w.push fixed) := rfl

theorem emit_name (given : String) (rest : List Slot) (w : SqlWriter) :
    emit d (.name given :: rest) w = emit d rest (w.pushName given) := rfl

theorem emit_needs (feature : String) (rest : List Slot) (w : SqlWriter) :
    emit d (.needs feature :: rest) w = emit d rest (w.markUnsupported feature) := rfl

theorem emit_ident (given : String) (rest : List Slot) (w : SqlWriter) :
    emit d (.ident given :: rest) w = w.pushIdent given >>= emit d rest := rfl

variable (table name : String)

theorem emit_qualified (rest : List Slot) (w : SqlWriter) :
    emit d (qualified table name ++ rest) w = w.pushQualified table name >>= emit d rest := by
  rw [emit_append, qualified, emit_ident]
  refine congrArg (· >>= emit d rest) (bind_congr fun w => ?_)
  rw [emit_text, emit_ident]
  exact bind_pure _

theorem writeAll_eq {α : Type} (write : α → Writes) (slots : α → List Slot)
    (h : ∀ item w, write item w = emit d (slots item) w) (first : Option String)
    (items : List α) (w : SqlWriter) :
    writeAll first write items w = emit d (listed first slots items) w := by
  induction items generalizing first w with
  | nil => rfl
  | cons item rest ih =>
    rw [writeAll, listed, append_assoc]
    cases first with
    | none =>
      rw [Option.elim, Option.elim, nil_append, emit_append, h]
      exact bind_congr fun w => ih _ w
    | some text =>
      rw [Option.elim, Option.elim, cons_append, emit_text, nil_append, emit_append, h]
      exact bind_congr fun w => ih _ w

theorem writeTsvector_eq (config : String) (stored : Bool) (w : SqlWriter) :
    writeTsvector table name config stored w =
      emit d (tsvectorSlots table name config stored) w := by
  rw [writeTsvector, tsvectorSlots]
  split
  · rw [← append_nil (qualified table name), emit_qualified]
    exact (bind_pure _).symm
  · rw [append_assoc, cons_append, emit_text, cons_append, emit_name,
      cons_append, emit_text, nil_append, emit_qualified]
    rfl

theorem writeMatch_eq (query : String) (config : Option String) (stored : Bool) (w : SqlWriter) :
    writeMatch d table name query config stored w =
      emit d (matchSlots d table name query config stored) w := by
  rw [writeMatch, matchSlots]
  cases d.fullText with
  | fts5Match =>
    rw [emit_qualified]
    rfl
  | tsQuery standard =>
    dsimp only
    rw [emit_append, writeTsvector_eq d]
    rfl

theorem writeTsRank_eq (query : String) (config : Option String) (stored : Bool) (w : SqlWriter) :
    writeTsRank d table name query config stored w =
      emit d (tsRankSlots d table name query config stored) w := by
  rw [writeTsRank, tsRankSlots]
  cases d.fullText with
  | fts5Match =>
    dsimp only
    rw [append_assoc, cons_append, emit_needs, cons_append, emit_text, nil_append, emit_qualified]
    rfl
  | tsQuery standard =>
    dsimp only
    rw [append_assoc, cons_append, emit_text, nil_append, emit_append, writeTsvector_eq d]
    rfl

theorem writeLike_eq (pattern : Value) (w : SqlWriter) :
    writeLike d table name pattern w = emit d (likeSlots table name pattern) w := by
  rw [writeLike, likeSlots, emit_qualified]
  rfl

theorem writeSpatial_eq (func table name : String) (geom : Value) (distance : Option UInt64)
    (w : SqlWriter) : writeSpatial d func table name geom distance w =
      emit d (spatialSlots d func table name geom distance) w := by
  rw [writeSpatial, spatialSlots]
  split <;> cases distance <;>
    simp only [Option.elim, append_assoc, cons_append, nil_append, emit_needs,
      emit_name, emit_text, emit_qualified] <;> rfl

theorem writeAnyOf_eq (values : Value) (w : SqlWriter) :
    writeAnyOf d table name values w = emit d (anyOfSlots d table name values) w := by
  unfold writeAnyOf anyOfSlots
  split
  · rw [emit_qualified]
    rfl
  · cases values with
    | array kind items =>
      cases items with
      | nil => rfl
      | cons item rest =>
        dsimp only
        rw [append_assoc, append_assoc, emit_qualified]
        refine bind_congr fun w => ?_
        rw [cons_append, emit_text, nil_append, emit_append,
          writeAll_eq d (writeBind d) (fun item => [.bind item]) fun _ _ => rfl]
        rfl
    | _ =>
      dsimp only
      rw [emit_qualified]
      rfl

theorem combine_eq {left right : Writes} {first second : List Slot} (op : String)
    (hleft : ∀ w, left w = emit d first w) (hright : ∀ w, right w = emit d second w)
    (w : SqlWriter) : combine left op right w =
      emit d ([.text "("] ++ first ++ [.text op] ++ second ++ [.text ")"]) w := by
  rw [combine, append_assoc, append_assoc, append_assoc, cons_append,
    emit_text, nil_append, emit_append, hleft]
  refine bind_congr fun w => ?_
  rw [cons_append, emit_text, nil_append, emit_append, hright]
  rfl

mutual

theorem Operand.write_eq (operand : Operand) (w : SqlWriter) :
    operand.write d w = emit d (operand.slots d) w := by
  cases operand with
  | column table name =>
    rw [Operand.write, Operand.slots, ← append_nil (qualified table name), emit_qualified]
    exact (bind_pure _).symm
  | excluded name =>
    rw [Operand.write, Operand.slots]
    split
    · rfl
    · exact (bind_pure _).symm
  | case condition thenValue elseValue =>
    rw [Operand.write, Operand.slots]
    simp only [append_assoc, cons_append, nil_append]
    rw [emit_text, emit_append, Predicate.write_eq condition]
    refine bind_congr fun w => ?_
    rw [emit_text, emit_append, Operand.write_eq thenValue]
    refine bind_congr fun w => ?_
    rw [emit_text, emit_append, Operand.write_eq elseValue]
    rfl
  | databaseNow seconds =>
    cases seconds <;> rw [Operand.write, Operand.slots] <;> split <;> rfl
  | value value => rfl
  | arith lhs op rhs =>
    rw [Operand.write, Operand.slots]
    exact combine_eq d op.text (Operand.write_eq lhs)
      (Operand.write_eq rhs) w

theorem Predicate.write_eq (predicate : Predicate) (w : SqlWriter) :
    predicate.write d w = emit d (predicate.slots d) w := by
  cases predicate with
  | binary table name op rhs =>
    rw [Predicate.write, Predicate.slots, append_assoc, emit_qualified]
    refine bind_congr fun w => ?_
    rw [cons_append, emit_text, nil_append, Operand.write_eq rhs]
  | isNull table name =>
    rw [Predicate.write, Predicate.slots, emit_qualified]
    rfl
  | anyOf table name values => exact writeAnyOf_eq d table name values w
  | and left right =>
    exact combine_eq d " and " (Predicate.write_eq left)
      (Predicate.write_eq right) w
  | or left right =>
    exact combine_eq d " or " (Predicate.write_eq left)
      (Predicate.write_eq right) w
  | not inner =>
    rw [Predicate.write, Predicate.slots, append_assoc, cons_append, emit_text,
      nil_append, emit_append, Predicate.write_eq inner]
    rfl
  | matchQuery table name query config stored => exact writeMatch_eq d table name query config stored w
  | like table name pattern => exact writeLike_eq d table name pattern w
  | spatial func table name geom distance => exact writeSpatial_eq d func table name geom distance w
  | raw fragment => rfl

end

end Writing

mutual

def Operand.blank : Operand → Operand
  | .column table name => .column table name
  | .value value => .value value.blank
  | .excluded name => .excluded name
  | .case condition thenValue elseValue => .case condition.blank thenValue.blank elseValue.blank
  | .databaseNow seconds => .databaseNow (seconds.map fun _ => 0)
  | .arith lhs op rhs => .arith lhs.blank op rhs.blank

def Predicate.blank : Predicate → Predicate
  | .binary table name op rhs => .binary table name op rhs.blank
  | .isNull table name => .isNull table name
  | .anyOf table name values => .anyOf table name values.blank
  | .and left right => .and left.blank right.blank
  | .or left right => .or left.blank right.blank
  | .not inner => .not inner.blank
  | .matchQuery table name _ config stored => .matchQuery table name "" config stored
  | .like table name pattern => .like table name pattern.blank
  | .spatial func table name geom distance =>
    .spatial func table name geom.blank (distance.map fun _ => 0)
  | .raw fragment => .raw fragment

end

section Blanking

variable (d : Dialect)

theorem listed_blank {α : Type} (slots : α → List Slot) (blank : α → α)
    (h : ∀ item, (slots item).map Slot.blank = slots (blank item)) (first : Option String)
    (items : List α) :
    (listed first slots items).map Slot.blank = listed first slots (items.map blank) := by
  induction items generalizing first with
  | nil => rfl
  | cons item rest ih =>
    rw [listed, map_append, map_append, h, ih, map_cons, listed]
    cases first <;> rfl

variable (table name : String)

theorem tsvectorSlots_blank (config : String) (stored : Bool) :
    (tsvectorSlots table name config stored).map Slot.blank =
      tsvectorSlots table name config stored := by
  cases stored <;> rfl

theorem matchSlots_blank (query : String) (config : Option String) (stored : Bool) :
    (matchSlots d table name query config stored).map Slot.blank =
      matchSlots d table name "" config stored := by
  unfold matchSlots
  cases d.fullText with
  | fts5Match => rfl
  | tsQuery standard =>
    dsimp only
    rw [map_append, tsvectorSlots_blank]
    rfl

theorem tsRankSlots_blank (query : String) (config : Option String) (stored : Bool) :
    (tsRankSlots d table name query config stored).map Slot.blank =
      tsRankSlots d table name "" config stored := by
  unfold tsRankSlots
  cases d.fullText with
  | fts5Match => rfl
  | tsQuery standard =>
    dsimp only
    rw [map_append, map_append, tsvectorSlots_blank]
    rfl

theorem spatialSlots_blank (func table name : String) (geom : Value) (distance : Option UInt64) :
    (spatialSlots d func table name geom distance).map Slot.blank =
      spatialSlots d func table name geom.blank (distance.map fun _ => 0) := by
  unfold spatialSlots
  split <;> cases distance <;> rfl

theorem anyOfSlots_blank (values : Value) :
    (anyOfSlots d table name values).map Slot.blank = anyOfSlots d table name values.blank := by
  unfold anyOfSlots
  split
  · rfl
  · cases values with
    | array kind items =>
      cases items with
      | nil => rfl
      | cons item rest =>
        rw [Value.blank, Value.blankAll_eq, map_cons]
        dsimp only
        rw [map_append, map_append, map_append,
          listed_blank (fun item => [.bind item]) Value.blank fun _ => rfl, map_cons]
        rfl
    | _ => rfl

mutual

theorem Operand.slots_blank (operand : Operand) :
    (operand.slots d).map Slot.blank = operand.blank.slots d := by
  cases operand with
  | column table name => rfl
  | excluded name =>
    rw [Operand.slots, Operand.blank, Operand.slots]
    split <;> rfl
  | case condition thenValue elseValue =>
    simp only [Operand.slots, Operand.blank, map_append, Predicate.slots_blank condition,
      Operand.slots_blank thenValue, Operand.slots_blank elseValue]
    rfl
  | databaseNow seconds =>
    cases seconds <;> simp only [Operand.slots, Operand.blank] <;> split <;> rfl
  | value value => rfl
  | arith lhs op rhs =>
    simp only [Operand.slots, Operand.blank, map_append, Operand.slots_blank lhs,
      Operand.slots_blank rhs]
    rfl

theorem Predicate.slots_blank (predicate : Predicate) :
    (predicate.slots d).map Slot.blank = predicate.blank.slots d := by
  cases predicate with
  | binary table name op rhs =>
    simp only [Predicate.slots, Predicate.blank, map_append, Operand.slots_blank rhs]
    rfl
  | isNull table name => rfl
  | anyOf table name values => exact anyOfSlots_blank d table name values
  | and left right | or left right =>
    simp only [Predicate.slots, Predicate.blank, map_append, Predicate.slots_blank left,
      Predicate.slots_blank right]
    rfl
  | not inner =>
    simp only [Predicate.slots, Predicate.blank, map_append, Predicate.slots_blank inner]
    rfl
  | matchQuery table name query config stored =>
    exact matchSlots_blank d table name query config stored
  | like table name pattern => rfl
  | spatial func table name geom distance => exact spatialSlots_blank d func table name geom distance
  | raw fragment => rfl

end

end Blanking

end Stakit.Orm
