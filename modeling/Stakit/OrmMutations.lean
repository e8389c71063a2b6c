import Stakit.OrmSelects

set_option autoImplicit false

namespace Stakit.Orm
open List

/-- What the row type fixes: its table and its required and defaulted columns. -/
structure Insertable where
  table : String
  required : List String
  optional : List String

/-- What a field is bound as: its own value, under the cast its type is written with. -/
def withCast (value : Value) (cast : Option String) : Value :=
  match cast with
  | some cast => .cast cast value
  | none => value

structure InsertRow where
  required : List Value
  optional : List (Bool × Value)

inductive UpdateMode where
  | excluded
  | expression (operand : Operand)
  | coalesceExisting
  | addExcluded

structure ColumnUpdate where
  column : String
  mode : UpdateMode

inductive ConflictAction where
  | nothing
  | updateAll
  | updateAllExcept (columns : List String)
  | updateColumns (updates : List ColumnUpdate)

structure Conflict where
  targets : List String
  action : ConflictAction
  predicate : Option Predicate

structure Insert where
  type : Insertable
  rows : List InsertRow
  conflict : Option Conflict

structure Upsert where
  insert : Insert
  targets : List String
  updates : List ColumnUpdate
  predicate : Option Predicate

structure Update where
  table : String
  sets : List (String × Operand)
  filter : Option Predicate

structure Delete where
  table : String
  filter : Option Predicate

def Update.addFilter (u : Update) (predicate : Predicate) : Update :=
  { u with filter := andFilter u.filter predicate }

def Delete.addFilter (u : Delete) (predicate : Predicate) : Delete :=
  { u with filter := andFilter u.filter predicate }

namespace Upsert

def whereConflict (u : Upsert) (predicate : Predicate) : Upsert :=
  { u with predicate := andFilter u.predicate predicate }

def intoInsert (u : Upsert) : Insert :=
  { u.insert with conflict := some ⟨u.targets,
      if u.updates.isEmpty then .nothing else .updateColumns u.updates, u.predicate⟩ }

end Upsert

def orInto : List Bool → List Bool → List Bool
  | slot :: slots, present :: rest => (slot || present) :: orInto slots rest
  | slots, _ => slots

namespace Insert

/-- The defaulted columns that some row supplies. -/
def optionalIncluded (i : Insert) : List Bool :=
  if i.type.optional.isEmpty then []
  else i.rows.foldl (fun included row => orInto included (row.optional.map Prod.fst))
    (i.type.optional.map fun _ => false)

def columnNames (i : Insert) : List String :=
  i.type.required ++ ((i.type.optional.zip i.optionalIncluded).filter Prod.snd).map Prod.fst

end Insert

def InsertRow.bound (included : List Bool) (row : InsertRow) : List Value :=
  row.required ++ ((row.optional.zip included).filter Prod.snd).map fun entry => entry.1.2

def pushIncoming (mysql : Bool) (column : String) (w : SqlWriter) : Except Error SqlWriter :=
  if mysql then do
    let w ← (w.push "values(").pushIdent column
    return w.push ")"
  else (w.push "excluded.").pushIdent column

def pushStored (mysql : Bool) (table column : String) (w : SqlWriter) : Except Error SqlWriter :=
  if mysql then w.pushIdent column else w.pushQualified table column

/-- One `col = …` of a conflict update. -/
def writeUpdate (d : Dialect) (table : String) (mysql : Bool) (update : ColumnUpdate) : Writes :=
  fun w => do
    let w ← w.pushIdent update.column
    let w := w.push " = "
    match update.mode with
    | .excluded => pushIncoming mysql update.column w
    | .expression expression => expression.write d w
    | .coalesceExisting => do
      let w ← pushIncoming mysql update.column (w.push "coalesce(")
      let w ← pushStored mysql table update.column (w.push ", ")
      return w.push ")"
    | .addExcluded => do
      let w ← pushStored mysql table update.column w
      pushIncoming mysql update.column (w.push " + ")

/-- The action as a list of column updates; empty when the row is left alone. -/
def Conflict.resolved (conflict : Conflict) (columns : List String) : List ColumnUpdate :=
  match conflict.action with
  | .nothing => []
  | .updateAll =>
    (columns.filter fun column => column ∉ conflict.targets).map fun column => ⟨column, .excluded⟩
  | .updateAllExcept skip =>
    (columns.filter fun column => column ∉ conflict.targets ∧ column ∉ skip).map
      fun column => ⟨column, .excluded⟩
  | .updateColumns updates => updates

/-- The key column MySQL assigns to itself where nothing is to be done. -/
def Conflict.keyColumn (conflict : Conflict) (columns : List String) : Option String :=
  conflict.targets.head?.or columns.head?

def guardFeature : String := "guarded conflict update (unsupported by MySQL)"

def writeSelfAssign (column : String) (w : SqlWriter) : Except Error SqlWriter := do
  let w ← w.pushIdent column
  (w.push " = ").pushIdent column

def writeDuplicateKey (d : Dialect) (conflict : Conflict) (table : String)
    (columns : List String) : Writes := fun w =>
  let resolved := conflict.resolved columns
  let w := if !resolved.isEmpty && conflict.predicate.isSome then w.markUnsupported guardFeature
    else w
  let w := w.push " on duplicate key update "
  if resolved.isEmpty then writeGiven writeSelfAssign (conflict.keyColumn columns) w
  else writeAll none (writeUpdate d table true) resolved w

def writeConflict (d : Dialect) (conflict : Conflict) (table : String)
    (columns : List String) : Writes := fun w =>
  if d.upsertOnDuplicateKey then writeDuplicateKey d conflict table columns w
  else do
    let resolved := conflict.resolved columns
    let w := w.push " on conflict ("
    let w ← writeAll none (fun target w => w.pushIdent target) conflict.targets w
    let w := w.push ")"
    if resolved.isEmpty then return w.push " do nothing"
    let w ← writeAll none (writeUpdate d table false) resolved (w.push " do update set ")
    writeSome " where " (Predicate.write d) conflict.predicate w

namespace Insert

def writeHead (i : Insert) : Writes := fun w => do
  let w ← (w.push "insert into ").pushIdent i.type.table
  let w ← writeAll none (fun column w => w.pushIdent column) i.columnNames (w.push " (")
  return w.push ") values "

def writeRow (d : Dialect) (included : List Bool) (row : InsertRow) : Writes := fun w => do
  let w ← writeAll none (writeBind d) (row.bound included) (w.push "(")
  return w.push ")"

def render (d : Dialect) (returning : Option Projection) (i : Insert) : Writes := fun w => do
  let w ← i.writeHead w
  let w ← writeAll none (writeRow d i.optionalIncluded) i.rows w
  let w ← writeGiven (fun conflict => writeConflict d conflict i.type.table i.columnNames)
    i.conflict w
  writeSome " returning " (Projection.writeColumns d) returning w

def intoSql (d : Dialect) (returning : Option Projection) (i : Insert) :
    Except Error SqlWriter := do
  let w ← i.render d returning SqlWriter.new
  w.finish

end Insert

def writeSet (d : Dialect) (assignment : String × Operand) : Writes := fun w => do
  let w ← w.pushIdent assignment.1
  assignment.2.write d (w.push " = ")

def Update.assemble (d : Dialect) (u : Update) : Writes := fun w => do
  let w ← (w.push "update ").pushIdent u.table
  let w ← writeAll none (writeSet d) u.sets (w.push " set ")
  writeSome " where " (Predicate.write d) u.filter w

def Update.intoSql (d : Dialect) (u : Update) : Except Error SqlWriter :=
  if u.sets.isEmpty then .error .notFound
  else do
    let w ← u.assemble d SqlWriter.new
    w.finish

def Delete.assemble (d : Dialect) (u : Delete) : Writes := fun w => do
  let w ← (w.push "delete from ").pushIdent u.table
  writeSome " where " (Predicate.write d) u.filter w

def Delete.intoSql (d : Dialect) (u : Delete) : Except Error SqlWriter := do
  let w ← u.assemble d SqlWriter.new
  w.finish

def incomingSlots (mysql : Bool) (column : String) : List Slot :=
  if mysql then [.text "values(", .ident column, .text ")"] else [.text "excluded.", .ident column]

def storedSlots (mysql : Bool) (table column : String) : List Slot :=
  if mysql then [.ident column] else qualified table column

def UpdateMode.slots (d : Dialect) (table : String) (mysql : Bool) (column : String) :
    UpdateMode → List Slot
  | excluded => incomingSlots mysql column
  | expression operand => operand.slots d
  | coalesceExisting =>
    .text "coalesce(" :: incomingSlots mysql column ++
      (.text ", " :: storedSlots mysql table column ++ [.text ")"])
  | addExcluded => storedSlots mysql table column ++ (.text " + " :: incomingSlots mysql column)

def ColumnUpdate.slots (d : Dialect) (table : String) (mysql : Bool) (update : ColumnUpdate) :
    List Slot :=
  [.ident update.column, .text " = "] ++ update.mode.slots d table mysql update.column

def Conflict.duplicateKeySlots (d : Dialect) (table : String) (columns : List String)
    (conflict : Conflict) : List Slot :=
  let resolved := conflict.resolved columns
  (if !resolved.isEmpty && conflict.predicate.isSome then [.needs guardFeature] else []) ++
    [.text " on duplicate key update "] ++
    if resolved.isEmpty then
      givenSlots (fun column => [.ident column, .text " = ", .ident column])
        (conflict.keyColumn columns)
    else listed none (ColumnUpdate.slots d table true) resolved

def Conflict.slots (d : Dialect) (table : String) (columns : List String) (conflict : Conflict) :
    List Slot :=
  if d.upsertOnDuplicateKey then conflict.duplicateKeySlots d table columns
  else
    let resolved := conflict.resolved columns
    [.text " on conflict ("] ++ listed none (fun target => [.ident target]) conflict.targets ++
      [.text ")"] ++
      if resolved.isEmpty then [.text " do nothing"]
      else
        .text " do update set " :: listed none (ColumnUpdate.slots d table false) resolved ++
          someSlots " where " (Predicate.slots d) conflict.predicate

def Insert.headSlots (i : Insert) : List Slot :=
  [.text "insert into ", .ident i.type.table, .text " ("] ++
    listed none (fun column => [.ident column]) i.columnNames ++ [.text ") values "]

def InsertRow.slots (included : List Bool) (row : InsertRow) : List Slot :=
  .text "(" :: listed none (fun value => [.bind value]) (row.bound included) ++ [.text ")"]

def Insert.slots (d : Dialect) (returning : Option Projection) (i : Insert) : List Slot :=
  i.headSlots ++ (listed none (InsertRow.slots i.optionalIncluded) i.rows ++
    (givenSlots (Conflict.slots d i.type.table i.columnNames) i.conflict ++
      someSlots " returning " (Projection.slots d) returning))

def setSlots (d : Dialect) (assignment : String × Operand) : List Slot :=
  [.ident assignment.1, .text " = "] ++ assignment.2.slots d

def Update.slots (d : Dialect) (u : Update) : List Slot :=
  [.text "update ", .ident u.table, .text " set "] ++ (listed none (setSlots d) u.sets ++
    someSlots " where " (Predicate.slots d) u.filter)

def Delete.slots (d : Dialect) (u : Delete) : List Slot :=
  [.text "delete from ", .ident u.table] ++ someSlots " where " (Predicate.slots d) u.filter

section Writing

variable (d : Dialect)

variable (mysql : Bool) (table column : String) (w : SqlWriter)

theorem pushIncoming_eq : pushIncoming mysql column w = emit d (incomingSlots mysql column) w := by
  cases mysql with
  | true => rfl
  | false => exact (bind_pure _).symm

theorem pushStored_eq :
    pushStored mysql table column w = emit d (storedSlots mysql table column) w := by
  cases mysql with
  | true => exact (bind_pure _).symm
  | false => exact Operand.write_eq d (.column table column) w

theorem writeUpdate_eq (mysql : Bool) (update : ColumnUpdate) (w : SqlWriter) :
    writeUpdate d table mysql update w = emit d (update.slots d table mysql) w := by
  obtain ⟨column, mode⟩ := update
  rw [writeUpdate, ColumnUpdate.slots, cons_append, emit_ident, cons_append]
  refine bind_congr fun w => ?_
  rw [emit_text, nil_append]
  cases mode with
  | excluded => exact pushIncoming_eq d mysql column _
  | expression operand => exact operand.write_eq d _
  | coalesceExisting =>
    rw [UpdateMode.slots, cons_append, emit_text]
    refine then_eq d (pushIncoming mysql column) _ _ _ (pushIncoming_eq d mysql column) ?_ _
    intro w
    rw [cons_append, emit_text]
    refine then_eq d (pushStored mysql table column) _ _ _ (pushStored_eq d mysql table column)
      ?_ _
    exact fun w => rfl
  | addExcluded =>
    refine then_eq d (pushStored mysql table column) _ _ _ (pushStored_eq d mysql table column)
      ?_ _
    intro w
    rw [emit_text]
    exact pushIncoming_eq d mysql column _

theorem writeSelfAssign_eq :
    writeSelfAssign column w = emit d [.ident column, .text " = ", .ident column] w := by
  rw [writeSelfAssign, emit_ident]
  exact bind_congr fun w => (bind_pure _).symm

theorem pushIdents_eq (first : Option String) (names : List String) (w : SqlWriter) :
    writeAll first (fun name w => w.pushIdent name) names w =
      emit d (listed first (fun name => [.ident name]) names) w :=
  writeAll_eq d _ _ (fun _ _ => (bind_pure _).symm) first names w

theorem writeDuplicateKey_eq (conflict : Conflict) (table : String) (columns : List String)
    (w : SqlWriter) : writeDuplicateKey d conflict table columns w =
      emit d (conflict.duplicateKeySlots d table columns) w := by
  have hrest (w : SqlWriter) : (if (conflict.resolved columns).isEmpty then
        writeGiven writeSelfAssign (conflict.keyColumn columns) (w.push " on duplicate key update ")
      else writeAll none (writeUpdate d table true) (conflict.resolved columns)
        (w.push " on duplicate key update ")) =
      emit d ([.text " on duplicate key update "] ++ if (conflict.resolved columns).isEmpty then
          givenSlots (fun column => [.ident column, .text " = ", .ident column])
            (conflict.keyColumn columns)
        else listed none (ColumnUpdate.slots d table true) (conflict.resolved columns)) w := by
    rw [cons_append, emit_text, nil_append]
    split
    · exact writeGiven_eq d _ _ (writeSelfAssign_eq d) _ _
    · exact writeAll_eq d _ _ (writeUpdate_eq d table true) _ _ _
  unfold writeDuplicateKey Conflict.duplicateKeySlots
  dsimp only
  rw [append_assoc]
  by_cases hneed : (!(conflict.resolved columns).isEmpty && conflict.predicate.isSome) = true
  · rw [if_pos hneed, if_pos hneed]
    exact hrest _
  · rw [if_neg hneed, if_neg hneed]
    exact hrest _

theorem writeConflict_eq (conflict : Conflict) (table : String) (columns : List String)
    (w : SqlWriter) : writeConflict d conflict table columns w =
      emit d (conflict.slots d table columns) w := by
  unfold writeConflict Conflict.slots
  split
  · exact writeDuplicateKey_eq d conflict table columns w
  · dsimp only
    rw [append_assoc, append_assoc, cons_append, emit_text, nil_append]
    refine then_eq d _ _ _ _ (pushIdents_eq d none conflict.targets) ?_ _
    intro w
    rw [cons_append, emit_text, nil_append]
    split
    · rfl
    · rw [cons_append, emit_text]
      exact then_eq d _ _ _ _ (writeAll_eq d _ _ (writeUpdate_eq d table false) none _)
        (writeSome_eq d _ _ _ (Predicate.write_eq d) _) _

theorem Insert.writeHead_eq (i : Insert) (w : SqlWriter) :
    i.writeHead w = emit d i.headSlots w := by
  rw [Insert.writeHead, Insert.headSlots]
  simp only [cons_append, nil_append]
  rw [emit_text, emit_ident]
  refine bind_congr fun w => ?_
  rw [emit_text]
  refine then_eq d _ _ _ _ (pushIdents_eq d none i.columnNames) ?_ _
  exact fun w => rfl

theorem Insert.writeRow_eq (included : List Bool) (row : InsertRow) (w : SqlWriter) :
    Insert.writeRow d included row w = emit d (row.slots included) w := by
  rw [Insert.writeRow, InsertRow.slots, cons_append, emit_text]
  refine then_eq d _ _ _ _
    (writeAll_eq d (writeBind d) (fun value => [.bind value]) (fun _ _ => rfl) none _) ?_ _
  exact fun w => rfl

theorem Insert.render_eq (returning : Option Projection) (i : Insert) (w : SqlWriter) :
    i.render d returning w = emit d (i.slots d returning) w := by
  rw [Insert.render, Insert.slots]
  refine then_eq d _ _ _ _ (i.writeHead_eq d) ?_ w
  intro w
  refine then_eq d _ _ _ _ (writeAll_eq d _ _ (Insert.writeRow_eq d _) none i.rows) ?_ w
  intro w
  exact then_eq d _ _ _ _
    (writeGiven_eq d _ _ (fun conflict => writeConflict_eq d conflict _ _) i.conflict)
    (writeSome_eq d _ _ _ (Projection.writeColumns_eq d) returning) w

theorem writeSet_eq (assignment : String × Operand) (w : SqlWriter) :
    writeSet d assignment w = emit d (setSlots d assignment) w := by
  rw [writeSet, setSlots, cons_append, emit_ident]
  refine bind_congr fun w => ?_
  rw [cons_append, emit_text, nil_append, Operand.write_eq]

theorem Update.assemble_eq (u : Update) (w : SqlWriter) :
    u.assemble d w = emit d (u.slots d) w := by
  rw [Update.assemble, Update.slots]
  simp only [cons_append, nil_append]
  rw [emit_text, emit_ident]
  refine bind_congr fun w => ?_
  rw [emit_text]
  exact then_eq d _ _ _ _ (writeAll_eq d _ _ (writeSet_eq d) none u.sets)
    (writeSome_eq d _ _ _ (Predicate.write_eq d) u.filter) _

theorem Delete.assemble_eq (u : Delete) (w : SqlWriter) :
    u.assemble d w = emit d (u.slots d) w := by
  rw [Delete.assemble, Delete.slots]
  simp only [cons_append, nil_append]
  rw [emit_text, emit_ident]
  exact bind_congr (writeSome_eq d _ _ _ (Predicate.write_eq d) u.filter)

end Writing

end Stakit.Orm
