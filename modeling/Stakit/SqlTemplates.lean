import Stakit.SqlWriter

set_option autoImplicit false

namespace Stakit.Orm
open List

/-- What stands at one place of a statement. -/
inductive Slot where
  | text (fixed : String)
  | name (given : String)
  | raw (given : String)
  | ident (given : String)
  | bind (value : Value)
  | needs (feature : String)

namespace Value

def payload : Value → Value
  | cast _ inner => inner
  | value => value

def isCast : Value → Bool
  | cast _ _ => true
  | _ => false

def lacks (d : Dialect) : Value → Option String
  | cast type _ => if d.supportsCast then none else some type
  | _ => none

mutual

/-- The value without its content: its kind, a null's kind, an array's length, a cast's name
and a geometry's SRID stay. -/
def blank : Value → Value
  | null kind => null kind
  | i16 _ => i16 0
  | i32 _ => i32 0
  | i64 _ => i64 0
  | f32 _ => f32 0
  | f64 _ => f64 0
  | bool _ => bool false
  | text _ => text ""
  | bytes _ => bytes []
  | uuid _ => uuid []
  | timestamptz _ => timestamptz 0
  | naiveDateTime _ => naiveDateTime 0
  | date _ => date 0
  | naiveTime _ => naiveTime 0
  | json _ => json ""
  | vector _ => vector []
  | geo _ srid => geo "" srid
  | array kind items => array kind (blankAll items)
  | cast name inner => cast name inner.blank

def blankAll : List Value → List Value
  | [] => []
  | item :: rest => item.blank :: blankAll rest

end

theorem blankAll_eq (items : List Value) : blankAll items = items.map blank := by
  induction items with
  | nil => rfl
  | cons item rest ih => rw [blankAll, ih, map_cons]

/-- What is written for the value when it is the bind at `position`. -/
def pieces (d : Dialect) (position : ℕ) : Value → List Piece
  | cast type _ =>
    if d.supportsCast then [.placeholder position, .text "::", .name type]
    else [.placeholder position]
  | geo _ srid =>
    let setSrid := srid.filter fun _ => d.geoBind.1 ≠ "" || d.geoBind.2 ≠ ""
    (if setSrid.isSome then [.text "ST_SetSRID("] else []) ++
      [.text d.geoBind.1, .placeholder position, .text d.geoBind.2] ++
      (match setSrid with
        | some srid => [.text ", ", .number srid, .text ")"]
        | none => [])
  | vector _ => [.text d.vectorBind.1, .placeholder position, .text d.vectorBind.2]
  | _ => [.text "", .placeholder position, .text ""]

theorem pieces_blank (d : Dialect) (position : ℕ) (value : Value) :
    value.blank.pieces d position = value.pieces d position := by
  cases value <;> rfl

theorem lacks_blank (d : Dialect) (value : Value) : value.blank.lacks d = value.lacks d := by
  cases value <;> rfl

theorem pushBind_eq (d : Dialect) (value : Value) (w : SqlWriter) :
    w.pushBind d value = ⟨w.pieces ++ value.pieces d (w.binds.length + 1),
      w.binds ++ [value.payload], w.unsupported.or (value.lacks d)⟩ := by
  have hlength (bound : Value) : (w.binds ++ [bound]).length = w.binds.length + 1 :=
    length_append
  cases value with
  | cast type inner =>
    simp only [SqlWriter.pushBind, pieces, lacks, payload]
    split <;> simp [SqlWriter.queue, SqlWriter.pushPlaceholder, SqlWriter.push,
      SqlWriter.pushName, SqlWriter.markUnsupported]
  | geo wkt srid =>
    simp only [SqlWriter.pushBind, SqlWriter.pushGeoBind, pieces, lacks, payload]
    cases srid.filter fun _ => d.geoBind.1 ≠ "" || d.geoBind.2 ≠ "" <;>
      simp [SqlWriter.queue, SqlWriter.pushPlaceholder, SqlWriter.push, SqlWriter.pushNumber]
  | _ =>
    simp [SqlWriter.pushBind, pieces, lacks, payload, isVector, SqlWriter.queue,
      SqlWriter.pushPlaceholder, SqlWriter.push]

end Value

namespace Slot

/-- Write what stands at one place. -/
def emit (d : Dialect) (w : SqlWriter) : Slot → Except Error SqlWriter
  | text fixed => .ok (w.push fixed)
  | name given => .ok (w.pushName given)
  | raw given => .ok (w.pushRaw given)
  | ident given => w.pushIdent given
  | bind value => .ok (w.pushBind d value)
  | needs feature => .ok (w.markUnsupported feature)

def blank : Slot → Slot
  | bind value => bind value.blank
  | slot => slot

def value? : Slot → Option Value
  | bind value => some value
  | _ => none

def lacks (d : Dialect) : Slot → Option String
  | bind value => value.lacks d
  | needs feature => some feature
  | _ => none

def check : Slot → Except Error Unit
  | ident given => validate given
  | _ => .ok ()

/-- The pieces one place is written as, after `bound` values. -/
def pieces (d : Dialect) (bound : ℕ) : Slot → List Piece
  | text fixed => [.text fixed]
  | name given => [.name given]
  | raw given => [.raw given]
  | ident given => [.ident given]
  | bind value => value.pieces d (bound + 1)
  | needs _ => []

end Slot

def emit (d : Dialect) (slots : List Slot) (w : SqlWriter) : Except Error SqlWriter :=
  slots.foldlM (Slot.emit d) w

/-- The values given at a template's places, in order. -/
def values (slots : List Slot) : List Value :=
  slots.filterMap Slot.value?

/-- The text of a template after `bound` values: the k-th value stands at its k-th place. -/
def layout (d : Dialect) (bound : ℕ) : List Slot → List Piece
  | [] => []
  | slot :: rest => slot.pieces d bound ++ layout d (bound + slot.value?.toList.length) rest

def lacking (d : Dialect) : List Slot → Option String
  | [] => none
  | slot :: rest => (slot.lacks d).or (lacking d rest)

variable (d : Dialect) (slot : Slot) (first rest slots : List Slot) (bound : ℕ) (w : SqlWriter)

theorem emit_nil : emit d [] w = .ok w := rfl

theorem emit_cons : emit d (slot :: rest) w = slot.emit d w >>= emit d rest := rfl

theorem emit_append : emit d (first ++ rest) w = emit d first w >>= emit d rest :=
  foldlM_append

theorem values_append : values (first ++ rest) = values first ++ values rest :=
  filterMap_append

theorem layout_append : layout d bound (first ++ rest) =
      layout d bound first ++ layout d (bound + (values first).length) rest := by
  induction first generalizing bound with
  | nil => rfl
  | cons slot first ih =>
    rw [cons_append, layout, layout, ih, append_assoc]
    cases slot with
    | bind value =>
      have hnext : bound + 1 + (values first).length =
          bound + (values (.bind value :: first)).length := by
        have hcons : values (.bind value :: first) = value :: values first := rfl
        rw [hcons, length_cons]
        omega
      exact congrArg (fun next => _ ++ (_ ++ layout d next rest)) hnext
    | _ => rfl

theorem slot_emit_eq :
    slot.emit d w = slot.check >>= fun _ => .ok ⟨w.pieces ++ slot.pieces d w.binds.length,
      w.binds ++ slot.value?.toList.map Value.payload, w.unsupported.or (slot.lacks d)⟩ := by
  cases slot with
  | ident name =>
    simp only [Slot.emit, Slot.check, SqlWriter.pushIdent, Slot.pieces, Slot.value?, Slot.lacks,
      Option.toList_none, map_nil, append_nil, Option.or_none]
    rfl
  | bind value => exact congrArg Except.ok (Value.pushBind_eq d value w)
  | needs feature =>
    simp [Slot.emit, Slot.check, SqlWriter.markUnsupported, Slot.pieces, Slot.value?, Slot.lacks,
      bind, Except.bind]
  | _ =>
    simp [Slot.emit, Slot.check, SqlWriter.push, SqlWriter.pushName, SqlWriter.pushRaw,
      Slot.pieces, Slot.value?, Slot.lacks, bind, Except.bind]

theorem emit_eq_ok (next : SqlWriter) :
    emit d slots w = .ok next ↔ (∀ slot ∈ slots, slot.check = .ok ()) ∧
      next = ⟨w.pieces ++ layout d w.binds.length slots,
        w.binds ++ (values slots).map Value.payload, w.unsupported.or (lacking d slots)⟩ := by
  induction slots generalizing w with
  | nil =>
    rw [emit_nil, Except.ok.injEq, eq_comm]
    simp [layout, values, lacking]
  | cons slot rest ih =>
    rw [emit_cons, slot_emit_eq, bind_assoc, ExceptLoops.then_eq_ok, forall_mem_cons, and_assoc]
    refine and_congr_right fun _ => ?_
    refine (ih _).trans (and_congr_right fun _ => ?_)
    have hvalues : slot.value?.toList.map Value.payload ++ (values rest).map Value.payload =
        (values (slot :: rest)).map Value.payload := by
      rw [← map_append]
      cases slot <;> rfl
    rw [layout, lacking, append_assoc, append_assoc, Option.or_assoc, hvalues,
      length_append, length_map]

theorem check_blank : slot.blank.check = slot.check := by
  cases slot <;> rfl

theorem layout_blank : layout d bound (slots.map Slot.blank) = layout d bound slots := by
  induction slots generalizing bound with
  | nil => rfl
  | cons slot rest ih =>
    rw [map_cons, layout, layout, ih]
    cases slot with
    | bind value => exact congrArg (· ++ _) (value.pieces_blank d (bound + 1))
    | _ => rfl

theorem lacking_blank : lacking d (slots.map Slot.blank) = lacking d slots := by
  induction slots with
  | nil => rfl
  | cons slot rest ih =>
    rw [map_cons, lacking, lacking, ih]
    cases slot with
    | bind value => exact congrArg (Option.or · _) (value.lacks_blank d)
    | _ => rfl

def placeholders (pieces : List Piece) : List ℕ :=
  pieces.filterMap fun
    | .placeholder position => some position
    | _ => none

theorem placeholders_value (position : ℕ) (value : Value) :
    placeholders (value.pieces d position) = [position] := by
  cases value with
  | cast name inner =>
    simp only [Value.pieces]
    split <;> rfl
  | geo wkt srid =>
    simp only [Value.pieces]
    cases srid.filter fun _ => d.geoBind.1 ≠ "" || d.geoBind.2 ≠ "" <;> rfl
  | _ => rfl

theorem placeholders_layout :
    placeholders (layout d bound slots) = List.range' (bound + 1) (values slots).length := by
  induction slots generalizing bound with
  | nil => rfl
  | cons slot rest ih =>
    have happend (first rest : List Piece) :
        placeholders (first ++ rest) = placeholders first ++ placeholders rest :=
      filterMap_append
    rw [layout, happend, ih]
    cases slot with
    | bind value =>
      rw [Slot.pieces, placeholders_value]
      rfl
    | _ => rfl

end Stakit.Orm
