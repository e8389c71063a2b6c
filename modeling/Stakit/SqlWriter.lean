import Mathlib.Data.Nat.Digits.Defs
import Stakit.ExceptLoops

set_option autoImplicit false

namespace Stakit.Orm

inductive ValueKind where
  | i16
  | i32
  | i64
  | f32
  | f64
  | bool
  | text
  | bytes
  | uuid
  | timestamptz
  | naiveDateTime
  | date
  | naiveTime
  | json
  | vector
  | geo
  | array (element : ValueKind)

/-- A backend-neutral value.  Floats are their bits and times are counts, since no statement
looks into them. -/
inductive Value where
  | null (kind : ValueKind)
  | i16 (value : ℤ)
  | i32 (value : ℤ)
  | i64 (value : ℤ)
  | f32 (bits : UInt32)
  | f64 (bits : UInt64)
  | bool (value : Bool)
  | text (value : String)
  | bytes (value : List UInt8)
  | uuid (value : List UInt8)
  | timestamptz (nanos : ℤ)
  | naiveDateTime (nanos : ℤ)
  | date (days : ℤ)
  | naiveTime (nanos : ℕ)
  | json (document : String)
  | vector (components : List UInt32)
  | geo (wkt : String) (srid : Option ℤ)
  | array (kind : ValueKind) (items : List Value)
  | cast (cast : String) (inner : Value)

def Value.isVector : Value → Bool
  | vector _ => true
  | _ => false

inductive Distance where
  | l2
  | cosine
  | innerProduct

inductive DistanceSql where
  | operator (op : String)
  | function (name : String)

inductive FullText where
  | fts5Match
  | tsQuery (config : String)

structure Dialect where
  name : String
  placeholderPrefix : Char
  numberedPlaceholders : Bool
  supportsAnyArray : Bool
  quoteChar : Char
  supportsReturning : Bool
  upsertOnDuplicateKey : Bool
  vectorBind : String × String
  vectorDistance : Distance → DistanceSql
  geoBind : String × String
  fullText : FullText
  supportsCast : Bool
  supportsSpatial : Bool

def postgresDialect : Dialect where
  name := "postgres"
  placeholderPrefix := '$'
  numberedPlaceholders := true
  supportsAnyArray := true
  quoteChar := '"'
  supportsReturning := true
  upsertOnDuplicateKey := false
  vectorBind := ("", "::vector")
  vectorDistance
    | .l2 => .operator " <-> "
    | .cosine => .operator " <=> "
    | .innerProduct => .operator " <#> "
  geoBind := ("", "::geometry")
  fullText := .tsQuery "english"
  supportsCast := true
  supportsSpatial := true

def sqliteDialect : Dialect where
  name := "sqlite"
  placeholderPrefix := '?'
  numberedPlaceholders := true
  supportsAnyArray := false
  quoteChar := '"'
  supportsReturning := true
  upsertOnDuplicateKey := false
  vectorBind := ("", "")
  vectorDistance
    | .l2 | .innerProduct => .function "vec_distance_l2"
    | .cosine => .function "vec_distance_cosine"
  geoBind := ("", "")
  fullText := .fts5Match
  supportsCast := false
  supportsSpatial := false

def mysqlDialect : Dialect :=
  { sqliteDialect with
    name := "mysql"
    numberedPlaceholders := false
    quoteChar := '`'
    supportsReturning := false
    upsertOnDuplicateKey := true }

def tursoDialect : Dialect :=
  { sqliteDialect with
    name := "turso"
    vectorBind := ("vector32(", ")")
    vectorDistance := fun
      | .l2 => .function "vector_distance_l2"
      | .cosine => .function "vector_distance_cos"
      | .innerProduct => .function "vector_distance_dot" }

inductive IdentError where
  | empty
  | containsNul
  | tooLong (length : ℕ)

inductive Error where
  | ident (error : IdentError)
  | notFound
  | unsupported (feature : String)

def maxIdentLen : ℕ := 63

def validate (name : String) : Except Error Unit :=
  if name = "" then .error (.ident .empty)
  else if Char.ofNat 0 ∈ name.toList then .error (.ident .containsNul)
  else if maxIdentLen < name.utf8ByteSize then .error (.ident (.tooLong name.utf8ByteSize))
  else .ok ()

def quoted (quote : Char) (name : String) : String :=
  String.ofList (quote :: (name.toList.flatMap fun ch => if ch = quote then [quote, ch] else [ch])
    ++ [quote])

/-- The digits of `remaining` in front of those already written. -/
def itoaFrom (remaining : ℕ) (buffer : List Char) : List Char :=
  if h : remaining = 0 then buffer
  else itoaFrom (remaining / 10) (Nat.digitChar (remaining % 10) :: buffer)
  termination_by remaining
  decreasing_by omega

def itoa (value : ℕ) : String :=
  if value = 0 then "0" else String.ofList (itoaFrom value [])

inductive Piece where
  | text (fixed : String)
  | name (given : String)
  | raw (given : String)
  | number (value : ℤ)
  | ident (given : String)
  | placeholder (position : ℕ)

def placeholderText (d : Dialect) (position : ℕ) : String :=
  d.placeholderPrefix.toString ++ if d.numberedPlaceholders then itoa position else ""

def Piece.sql (d : Dialect) : Piece → String
  | text fixed => fixed
  | name given => given
  | raw given => given
  | number value => toString value
  | ident given => quoted d.quoteChar given
  | placeholder position => placeholderText d position

structure SqlWriter where
  pieces : List Piece
  binds : List Value
  unsupported : Option String

def SqlWriter.new : SqlWriter := ⟨[], [], none⟩

def SqlWriter.sql (d : Dialect) (w : SqlWriter) : String :=
  String.join (w.pieces.map (Piece.sql d))

namespace SqlWriter

/-- The first marker wins. -/
def markUnsupported (feature : String) (w : SqlWriter) : SqlWriter :=
  { w with unsupported := w.unsupported.or (some feature) }

def push (text : String) (w : SqlWriter) : SqlWriter :=
  { w with pieces := w.pieces ++ [.text text] }

def pushName (verbatim : String) (w : SqlWriter) : SqlWriter :=
  { w with pieces := w.pieces ++ [.name verbatim] }

def pushRaw (fragment : String) (w : SqlWriter) : SqlWriter :=
  { w with pieces := w.pieces ++ [.raw fragment] }

def pushNumber (value : ℤ) (w : SqlWriter) : SqlWriter :=
  { w with pieces := w.pieces ++ [.number value] }

def pushIdent (name : String) (w : SqlWriter) : Except Error SqlWriter := do
  validate name
  return { w with pieces := w.pieces ++ [.ident name] }

def pushQualified (table column : String) (w : SqlWriter) : Except Error SqlWriter := do
  let w ← w.pushIdent table
  (w.push ".").pushIdent column

def pushPlaceholder (position : ℕ) (w : SqlWriter) : SqlWriter :=
  { w with pieces := w.pieces ++ [.placeholder position] }

def queue (value : Value) (w : SqlWriter) : SqlWriter :=
  { w with binds := w.binds ++ [value] }

/-- A geometry's placeholder, in `ST_SetSRID` only where the backend casts to geometry. -/
def pushGeoBind (d : Dialect) (value : Value) (srid : Option ℤ) (w : SqlWriter) : SqlWriter :=
  let pre := d.geoBind.1
  let suf := d.geoBind.2
  let setSrid := srid.filter fun _ => pre ≠ "" || suf ≠ ""
  let w := w.queue value
  let position := w.binds.length
  let w := if setSrid.isSome then w.push "ST_SetSRID(" else w
  let w := ((w.push pre).pushPlaceholder position).push suf
  match setSrid with
  | some srid => ((w.push ", ").pushNumber srid).push ")"
  | none => w

/-- Queue a bind value and write its placeholder, with the cast or the wrapping it needs. -/
def pushBind (d : Dialect) (value : Value) (w : SqlWriter) : SqlWriter :=
  match value with
  | .cast cast inner =>
    if d.supportsCast then
      let w := w.queue inner
      ((w.pushPlaceholder w.binds.length).push "::").pushName cast
    else
      let w := (w.markUnsupported cast).queue inner
      w.pushPlaceholder w.binds.length
  | .geo wkt srid => w.pushGeoBind d (.geo wkt srid) srid
  | value =>
    let wrap := if value.isVector then d.vectorBind else ("", "")
    let w := w.queue value
    ((w.push wrap.1).pushPlaceholder w.binds.length).push wrap.2

/-- The statement, unless a clause needed what the backend lacks. -/
def finish (w : SqlWriter) : Except Error SqlWriter :=
  match w.unsupported with
  | some feature => .error (.unsupported feature)
  | none => .ok w

end SqlWriter

theorem itoaFrom_eq {n : ℕ} (hn : n ≠ 0) (buffer : List Char) :
    itoaFrom n buffer = Nat.toDigits 10 n ++ buffer := by
  induction n using Nat.strongRecOn generalizing buffer with
  | ind n ih =>
    rw [itoaFrom, dif_neg hn]
    by_cases hlt : n < 10
    · rw [itoaFrom, dif_pos (by omega), Nat.mod_eq_of_lt hlt, Nat.toDigits_of_lt_base hlt]
      rfl
    · rw [ih (n / 10) (by omega) (by omega), Nat.toDigits_of_base_le (n := n) (by decide) (by omega),
        List.append_assoc]
      rfl

theorem itoa_eq (n : ℕ) : itoa n = toString n := by
  rw [itoa]
  split
  · next h =>
    rw [h]
    rfl
  · next h =>
    rw [itoaFrom_eq h, List.append_nil]
    rfl

end Stakit.Orm
