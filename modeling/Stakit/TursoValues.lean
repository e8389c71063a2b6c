import Stakit.JsonArrays

set_option autoImplicit false

namespace Stakit.TursoValues
open ColumnValues ColumnTypes JsonArrays
open Orm (ValueKind)

variable {L : Libraries}

inductive Cell where
  | null
  | integer (value : Int64)
  | real (bits : UInt64)
  | text (value : String)
  | blob (value : List UInt8)

/-- `[1,2,3]` -/
def toLiteral (L : Libraries) (components : List UInt32) : String :=
  String.ofList ('[' :: CompositeText.joined (components.map fun bits => (L.f32.text bits).toList)
    ++ [']'])

def bracketed : List Char → Option (List Char)
  | '[' :: rest => if rest.getLast? = some ']' then some rest.dropLast else none
  | _ => none

def parseLiteral (L : Libraries) (text : String) : Except (Error L) (List UInt32) :=
  match bracketed (SchemaAttributes.trim text.toList) with
  | none => .error (.decode s!"invalid vector literal: {repr text}")
  | some inner =>
    if SchemaAttributes.trim inner = [] then .ok []
    else (inner.splitOn ',').mapM fun part =>
      orElseError .source id (L.f32.parse (String.ofList (SchemaAttributes.trim part)))

def chunks : List UInt8 → List UInt32
  | a :: b :: c :: d :: rest =>
    (a.toUInt32 ||| b.toUInt32 <<< 8 ||| c.toUInt32 <<< 16 ||| d.toUInt32 <<< 24) :: chunks rest
  | _ => []

/-- A little-endian `vector32` blob. -/
def decodeF32Blob (L : Libraries) (bytes : List UInt8) : Except (Error L) (List UInt32) :=
  if bytes.length % 4 ≠ 0 then
    .error (.decode s!"vector blob length {bytes.length} is not a multiple of 4")
  else .ok (chunks bytes)

def toLibsql : Value L → Cell
  | .null _ => .null
  | .i16 n => .integer n.toInt64
  | .i32 n => .integer n.toInt64
  | .i64 n => .integer n
  | .f32 bits => .real (L.widen bits)
  | .f64 bits => .real bits
  | .bool b => .integer (if b then 1 else 0)
  | .text s => .text s
  | .bytes bytes => .blob bytes
  | .uuid u => .text (L.uuid.text u)
  | .timestamptz t => .text (L.rfc3339.text t)
  | .naiveDateTime t => .text (L.spaced.text t)
  | .date d => .text (L.date.text d)
  | .naiveTime t => .text (L.time.text t)
  | .json document => .text (L.document.text document)
  | .vector components => .text (toLiteral L components)
  | .geo wkt _ => .text wkt
  | .array _ items => .text (arrayToJsonText items)
  | .cast _ inner => toLibsql inner

def typeError (expected : String) : Error L := .decode s!"expected {expected} from libSQL cell"

def asInt (L : Libraries) : Cell → Except (Error L) Int64
  | .integer n => .ok n
  | _ => .error (typeError "integer")

def asReal (L : Libraries) : Cell → Except (Error L) UInt64
  | .real bits => .ok bits
  | .integer n => .ok (L.realOf n)
  | _ => .error (typeError "real")

def asText (L : Libraries) : Cell → Except (Error L) String
  | .text text => .ok text
  | _ => .error (typeError "text")

def asBlob (L : Libraries) : Cell → Except (Error L) (List UInt8)
  | .blob bytes => .ok bytes
  | _ => .error (typeError "blob")

def outOfRange (n : Int64) (target : String) : Error L :=
  .decode s!"integer {n} out of range for {target}"

/-- Checked narrowing of an integer cell. -/
def narrow {α : Type} (tryFrom : Int64 → Option α) (n : Int64) (target : String) :
    Except (Error L) α :=
  orElseError (outOfRange n target) id (tryFrom n)

def parseInstant (L : Libraries) (text : String) : Option L.Instant :=
  (L.rfc3339.parse text).or ((L.spaced.parse text).map L.utc)

def cellToValue (L : Libraries) (cell : Cell) (kind : ValueKind) : Except (Error L) (Value L) :=
  match cell with
  | .null => .ok (.null kind)
  | cell =>
    match kind with
    | .i16 => return .i16 (← narrow toI16 (← asInt L cell) "i16")
    | .i32 => return .i32 (← narrow toI32 (← asInt L cell) "i32")
    | .i64 => return .i64 (← asInt L cell)
    | .f32 => return .f32 (L.narrow (← asReal L cell))
    | .f64 => return .f64 (← asReal L cell)
    | .bool => return .bool ((← asInt L cell) ≠ 0)
    | .text => return .text (← asText L cell)
    | .bytes => return .bytes (← asBlob L cell)
    | .uuid => do orElseError .source .uuid (L.uuid.parse (← asText L cell))
    | .timestamptz => do orElseError .source .timestamptz (parseInstant L (← asText L cell))
    | .naiveDateTime => do orElseError .source .naiveDateTime (L.spaced.parse (← asText L cell))
    | .date => do orElseError .source .date (L.date.parse (← asText L cell))
    | .naiveTime => do orElseError .source .naiveTime (L.time.parse (← asText L cell))
    | .json => do orElseError .source .json (L.document.parse (← asText L cell))
    | .vector =>
      match cell with
      | .blob bytes => return .vector (← decodeF32Blob L bytes)
      | .text text => return .vector (← parseLiteral L text)
      | _ => .error (typeError "vector (blob or text)")
    | .geo => return .geo (← asText L cell) none
    | .array element => do jsonTextToArray (← asText L cell) element

/-- The kind a value is read as: floats, vectors, arrays and casts are not in question. -/
def kindOf : Value L → Option ValueKind
  | .null kind => some kind
  | .i16 _ => some .i16
  | .i32 _ => some .i32
  | .i64 _ => some .i64
  | .bool _ => some .bool
  | .text _ => some .text
  | .bytes _ => some .bytes
  | .uuid _ => some .uuid
  | .timestamptz _ => some .timestamptz
  | .naiveDateTime _ => some .naiveDateTime
  | .date _ => some .date
  | .naiveTime _ => some .naiveTime
  | .json _ => some .json
  | .geo _ _ => some .geo
  | .f32 _ | .f64 _ | .vector _ | .array _ _ | .cast _ _ => none

/-- The value without a geometry's SRID. -/
def bare : Value L → Value L
  | .geo wkt _ => .geo wkt none
  | value => value

/-- What chrono and uuid give back. An instant's text is read for years of four digits, and is
never taken for a date and time. -/
structure Readable (L : Libraries) (year : L.Instant → ℤ) : Prop where
  uuid : L.uuid.Inverse
  rfc3339 : ∀ t, L.rfc3339.parse (L.rfc3339.text t) =
    if 0 ≤ year t ∧ year t ≤ 9999 then some t else none
  apart : ∀ t, L.spaced.parse (L.rfc3339.text t) = none
  spaced : L.spaced.Inverse
  date : L.date.Inverse
  time : L.time.Inverse

section
variable {year : L.Instant → ℤ} (hlaw : Readable L year)
include hlaw

theorem parseInstant_text (t : L.Instant) : parseInstant L (L.rfc3339.text t) =
    if 0 ≤ year t ∧ year t ≤ 9999 then some t else none := by
  rw [parseInstant, hlaw.rfc3339, hlaw.apart, Option.map_none, Option.or_none]

theorem instant_read_iff (t : L.Instant) :
    cellToValue L (toLibsql (.timestamptz t)) .timestamptz = .ok (.timestamptz t) ↔
      0 ≤ year t ∧ year t ≤ 9999 := by
  change orElseError .source Value.timestamptz (parseInstant L (L.rfc3339.text t)) = _ ↔ _
  rw [parseInstant_text hlaw]
  by_cases hyear : 0 ≤ year t ∧ year t ≤ 9999
  · rw [if_pos hyear]
    exact iff_of_true rfl hyear
  · rw [if_neg hyear]
    exact iff_of_false nofun hyear

theorem read_written {value : Value L} {kind : ValueKind} (hkind : kindOf value = some kind)
    (hyear : ∀ t, value = .timestamptz t → 0 ≤ year t ∧ year t ≤ 9999)
    (hjson : ∀ document, value = .json document →
      L.document.parse (L.document.text document) = some document) :
    cellToValue L (toLibsql value) kind = .ok (bare value) := by
  have hparsed {α : Type} (make : α → Value L) (found : Option α) (a : α) (h : found = some a) :
      orElseError (L := L) .source make found = .ok (make a) := by
    rw [h]
    rfl
  cases value with
  | null _ => cases hkind; rfl
  | i16 n =>
    cases hkind
    change (narrow (L := L) toI16 n.toInt64 "i16" >>= fun n => .ok (Value.i16 n)) = _
    rw [narrow, toI16_toInt64]
    rfl
  | i32 n =>
    cases hkind
    change (narrow (L := L) toI32 n.toInt64 "i32" >>= fun n => .ok (Value.i32 n)) = _
    rw [narrow, toI32_toInt64]
    rfl
  | i64 n => cases hkind; rfl
  | bool b =>
    cases hkind
    cases b <;> rfl
  | text s | bytes bytes => cases hkind; rfl
  | uuid u =>
    cases hkind
    exact hparsed Value.uuid _ u (hlaw.uuid u)
  | timestamptz t =>
    cases hkind
    exact (instant_read_iff hlaw t).mpr (hyear t rfl)
  | naiveDateTime t =>
    cases hkind
    exact hparsed Value.naiveDateTime _ t (hlaw.spaced t)
  | date d =>
    cases hkind
    exact hparsed Value.date _ d (hlaw.date d)
  | naiveTime t =>
    cases hkind
    exact hparsed Value.naiveTime _ t (hlaw.time t)
  | json document =>
    cases hkind
    exact hparsed Value.json _ document (hjson document rfl)
  | geo wkt srid => cases hkind; rfl
  | _ => cases hkind

end

theorem narrow_rejects {α : Type} {tryFrom : Int64 → Option α} {n : Int64} (target : String)
    (h : tryFrom n = none) : narrow (L := L) tryFrom n target = .error (outOfRange n target) := by
  rw [narrow, h]
  rfl

theorem i16_rejected (n : Int64) (h : n.toInt < -2 ^ 15 ∨ 2 ^ 15 ≤ n.toInt) :
    cellToValue L (.integer n) .i16 = .error (outOfRange n "i16") := by
  have hnone : toI16 n = none := if_neg (by omega)
  change (narrow (L := L) toI16 n "i16" >>= fun n => .ok (Value.i16 n)) = _
  rw [narrow_rejects _ hnone]
  rfl

theorem i32_rejected (n : Int64) (h : n.toInt < -2 ^ 31 ∨ 2 ^ 31 ≤ n.toInt) :
    cellToValue L (.integer n) .i32 = .error (outOfRange n "i32") := by
  have hnone : toI32 n = none := if_neg (by omega)
  change (narrow (L := L) toI32 n "i32" >>= fun n => .ok (Value.i32 n)) = _
  rw [narrow_rejects _ hnone]
  rfl

/-- A value is read again as itself, a geometry as its bare WKT; an integer cell that does not fit
the kind it is read as is an error. -/
theorem cell_round_trip {year : L.Instant → ℤ} (hlaw : Readable L year) (value : Value L)
    (kind : ValueKind) (hkind : kindOf value = some kind)
    (hyear : ∀ t, value = .timestamptz t → 0 ≤ year t ∧ year t ≤ 9999)
    (hjson : ∀ document, value = .json document →
      L.document.parse (L.document.text document) = some document) :
    cellToValue L (toLibsql value) kind = .ok (bare value) ∧
    (∀ n : Int64, n.toInt < -2 ^ 15 ∨ 2 ^ 15 ≤ n.toInt →
      cellToValue L (.integer n) .i16 = .error (outOfRange n "i16")) ∧
    ∀ n : Int64, n.toInt < -2 ^ 31 ∨ 2 ^ 31 ≤ n.toInt →
      cellToValue L (.integer n) .i32 = .error (outOfRange n "i32") :=
  ⟨read_written hlaw hkind hyear hjson, i16_rejected, i32_rejected⟩

def yearOf (seconds : ℤ) : ℤ := 1970 + seconds / 31556952

def secondsForm : TextForm ℤ where
  text n := String.ofList (if n = 0 then epochInstant else 'Z' :: (decimal n).toList)
  parse text := (match text.toList with
    | 'Z' :: digits => readInt digits
    | other => if other = epochInstant then some 0 else none).filter
      fun n => 0 ≤ yearOf n ∧ yearOf n ≤ 9999

def secondsLibraries : Libraries := countLibraries secondsForm

theorem readInt_letter (text : List Char) : readInt ('Z' :: text) = none := by
  have hletter : ('Z' :: text).any (!·.isDigit) = true := rfl
  have hsplit : splitSign ('Z' :: text) = (false, 'Z' :: text) := rfl
  unfold readInt
  rw [hsplit]
  exact if_pos (Or.inr hletter)

theorem secondsLibraries_readable : Readable secondsLibraries yearOf where
  uuid := epochForm_inverse nilUuid (by decide +kernel)
  rfc3339 := by
    intro (n : ℤ)
    have hfilter : (some n).filter (fun n => decide (0 ≤ yearOf n ∧ yearOf n ≤ 9999)) =
        if 0 ≤ yearOf n ∧ yearOf n ≤ 9999 then some n else none := by
      rw [Option.filter_some]
      simp only [decide_eq_true_eq]
    refine Eq.trans ?_ hfilter
    dsimp only [secondsLibraries, countLibraries, secondsForm]
    rw [String.toList_ofList]
    by_cases hn : n = 0
    · rw [if_pos hn, hn]
      rfl
    · rw [if_neg hn]
      change Option.filter _ (readInt (decimal n).toList) = _
      rw [readInt_decimal]
  apart := by
    intro (n : ℤ)
    dsimp only [secondsLibraries, countLibraries, secondsForm, epochForm]
    rw [String.toList_ofList]
    by_cases hn : n = 0
    · rw [if_pos hn]
      decide +kernel
    · rw [if_neg hn, if_neg (by intro h; cases h), readInt_letter]
  spaced := epochForm_inverse epochDateTime (by decide +kernel)
  date := epochForm_inverse epochDate (by decide +kernel)
  time := epochForm_inverse midnight (by decide +kernel)

/-- 1970-01-01T00:00:00Z -/
def epochValue : Value secondsLibraries := .timestamptz (0 : ℤ)

theorem cell_round_trip_epoch : Readable secondsLibraries yearOf ∧
    cellToValue secondsLibraries (toLibsql epochValue) .timestamptz = .ok epochValue := by
  refine ⟨secondsLibraries_readable, ?_⟩
  refine (cell_round_trip secondsLibraries_readable epochValue .timestamptz rfl ?_ nofun).1
  rintro t ⟨⟩
  decide

/-- A point is kept as its WKT alone. -/
theorem srid_dropped : Readable secondsLibraries yearOf ∧
    kindOf (.geo "POINT(1 2)" (some 4326) : Value secondsLibraries) = some .geo ∧
    cellToValue secondsLibraries (toLibsql (.geo "POINT(1 2)" (some 4326) : Value secondsLibraries))
      .geo = .ok (.geo "POINT(1 2)" none) ∧
    cellToValue secondsLibraries (toLibsql (.geo "POINT(1 2)" (some 4326) : Value secondsLibraries))
      .geo ≠ .ok (.geo "POINT(1 2)" (some 4326)) :=
  ⟨secondsLibraries_readable, rfl, rfl, nofun⟩

end Stakit.TursoValues
