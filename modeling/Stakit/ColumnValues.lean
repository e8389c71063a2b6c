import Stakit.PostgresEnvelope
import Stakit.SerdeText
import Stakit.SqlWriter

set_option autoImplicit false

namespace Stakit.ColumnValues
open Orm (ValueKind)

/-- How a library writes and reads the values of one of its types. -/
structure TextForm (α : Type) where
  text : α → String
  parse : String → Option α

def TextForm.Inverse {α : Type} (form : TextForm α) : Prop :=
  ∀ a, form.parse (form.text a) = some a

/-- What is used of chrono, uuid, serde_json and the float formats. -/
structure Libraries where
  Number : Type
  document : TextForm (SerdeJson.Value Number)
  ofInt : ℤ → Number
  asI64 : Number → Option Int64
  ofF64 : UInt64 → Option Number
  asF64 : Number → Option UInt64
  f32 : TextForm UInt32
  f64 : TextForm UInt64
  widen : UInt32 → UInt64
  narrow : UInt64 → UInt32
  realOf : Int64 → UInt64
  Uuid : Type
  uuid : TextForm Uuid
  Instant : Type
  rfc3339 : TextForm Instant
  DateTime : Type
  /-- `Display` and `FromStr` -/
  dateTime : TextForm DateTime
  /-- `%Y-%m-%d %H:%M:%S%.f` -/
  spaced : TextForm DateTime
  utc : DateTime → Instant
  Date : Type
  date : TextForm Date
  Time : Type
  time : TextForm Time

/-- `Value`, floats as their bits. -/
inductive Value (L : Libraries) where
  | null (kind : ValueKind)
  | i16 (value : Int16)
  | i32 (value : Int32)
  | i64 (value : Int64)
  | f32 (bits : UInt32)
  | f64 (bits : UInt64)
  | bool (value : Bool)
  | text (value : String)
  | bytes (value : List UInt8)
  | uuid (value : L.Uuid)
  | timestamptz (value : L.Instant)
  | naiveDateTime (value : L.DateTime)
  | date (value : L.Date)
  | naiveTime (value : L.Time)
  | json (document : SerdeJson.Value L.Number)
  | vector (components : List UInt32)
  | geo (wkt : String) (srid : Option Int32)
  | array (kind : ValueKind) (items : List (Value L))
  | cast (cast : String) (inner : Value L)

/-- Errors of decoding; `source` is one that a library returns. -/
inductive Error (L : Libraries) where
  | mismatch (expected : String) (got : Value L)
  | decode (message : String)
  | source

/-- An integer in decimal, as `Display` writes it. -/
def decimal (n : ℤ) : String := toString n

def splitSign : List Char → Bool × List Char
  | '-' :: digits => (true, digits)
  | '+' :: digits => (false, digits)
  | digits => (false, digits)

/-- `FromStr` of an integer, of any size. -/
def readInt (text : List Char) : Option ℤ :=
  let (negative, digits) := splitSign text
  if digits = [] ∨ digits.any (!·.isDigit) then none
  else
    let magnitude : ℤ := Nat.ofDigitChars 10 digits 0
    some (if negative then -magnitude else magnitude)

/-- `FromStr` of the integers from `least` to `most`. -/
def parseInt (least most : ℤ) (text : String) : Option ℤ :=
  (readInt text.toList).filter fun n => least ≤ n ∧ n ≤ most

theorem toList_decimal (n : ℤ) : (decimal n).toList =
    if 0 ≤ n then Nat.toDigits 10 n.natAbs else '-' :: Nat.toDigits 10 n.natAbs := by
  cases n with
  | ofNat n => exact Nat.toList_repr
  | negSucc n =>
    have htext : decimal (.negSucc n) = "-" ++ (n + 1).repr := rfl
    rw [htext, String.toList_append, Nat.toList_repr]
    rfl

theorem splitSign_toDigits (n : ℕ) :
    splitSign (Nat.toDigits 10 n) = (false, Nat.toDigits 10 n) := by
  unfold splitSign
  split
  · next digits heq =>
    exact absurd (JsonText.toDigits_isDigit n '-' (heq ▸ List.mem_cons_self)) (by decide)
  · next digits heq =>
    exact absurd (JsonText.toDigits_isDigit n '+' (heq ▸ List.mem_cons_self)) (by decide)
  · rfl

theorem splitSign_decimal (n : ℤ) :
    splitSign (decimal n).toList = (decide (n < 0), Nat.toDigits 10 n.natAbs) := by
  rw [toList_decimal]
  by_cases hsign : 0 ≤ n
  · rw [if_pos hsign, splitSign_toDigits, decide_eq_false (by omega)]
  · rw [if_neg hsign, splitSign, decide_eq_true (by omega)]

theorem readInt_decimal (n : ℤ) : readInt (decimal n).toList = some n := by
  have hdigits : ¬(Nat.toDigits 10 n.natAbs = [] ∨
      (Nat.toDigits 10 n.natAbs).any (!·.isDigit) = true) := by
    rintro (hnil | hany)
    · exact Nat.toDigits_ne_nil hnil
    · obtain ⟨c, hc, hnot⟩ := List.any_eq_true.mp hany
      rw [JsonText.toDigits_isDigit _ c hc] at hnot
      cases hnot
  unfold readInt
  simp only [splitSign_decimal, if_neg hdigits, Nat.ofDigitChars_ten_toDigits, Option.some.injEq]
  split
  · next h => have := of_decide_eq_true h; omega
  · next h => have := of_decide_eq_false (Bool.eq_false_iff.mpr h); omega

theorem parseInt_decimal (least most n : ℤ) (hleast : least ≤ n) (hmost : n ≤ most) :
    parseInt least most (decimal n) = some n := by
  rw [parseInt, readInt_decimal]
  exact if_pos (decide_eq_true ⟨hleast, hmost⟩)

def parseI16 (text : String) : Option Int16 := (parseInt (-2 ^ 15) (2 ^ 15 - 1) text).map Int16.ofInt

def parseI32 (text : String) : Option Int32 := (parseInt (-2 ^ 31) (2 ^ 31 - 1) text).map Int32.ofInt

def parseI64 (text : String) : Option Int64 := (parseInt (-2 ^ 63) (2 ^ 63 - 1) text).map Int64.ofInt

theorem parseI16_decimal (n : Int16) : parseI16 (decimal n.toInt) = some n := by
  have hleast := n.le_toInt
  have hmost := n.toInt_lt
  rw [parseI16, parseInt_decimal _ _ _ (by omega) (by omega), Option.map_some, Int16.ofInt_toInt]

theorem parseI32_decimal (n : Int32) : parseI32 (decimal n.toInt) = some n := by
  have hleast := n.le_toInt
  have hmost := n.toInt_lt
  rw [parseI32, parseInt_decimal _ _ _ (by omega) (by omega), Option.map_some, Int32.ofInt_toInt]

theorem parseI64_decimal (n : Int64) : parseI64 (decimal n.toInt) = some n := by
  have hleast := n.le_toInt
  have hmost := n.toInt_lt
  rw [parseI64, parseInt_decimal _ _ _ (by omega) (by omega), Option.map_some, Int64.ofInt_toInt]

/-- `i16::try_from` -/
def toI16 (n : Int64) : Option Int16 :=
  if -2 ^ 15 ≤ n.toInt ∧ n.toInt < 2 ^ 15 then some (.ofInt n.toInt) else none

/-- `i32::try_from` -/
def toI32 (n : Int64) : Option Int32 :=
  if -2 ^ 31 ≤ n.toInt ∧ n.toInt < 2 ^ 31 then some (.ofInt n.toInt) else none

theorem toI16_toInt64 (n : Int16) : toI16 n.toInt64 = some n := by
  have hn : n.toInt64.toInt = n.toInt := n.toInt_toInt64
  rw [toI16, hn, if_pos ⟨n.le_toInt, n.toInt_lt⟩, Int16.ofInt_toInt]

theorem toI32_toInt64 (n : Int32) : toI32 n.toInt64 = some n := by
  have hn : n.toInt64.toInt = n.toInt := n.toInt_toInt64
  rw [toI32, hn, if_pos ⟨n.le_toInt, n.toInt_lt⟩, Int32.ofInt_toInt]

theorem word_minus (n : ℕ) : JsonText.word ('-' :: Nat.toDigits 10 n) =
    some (.number ('-' :: Nat.toDigits 10 n)) := by
  have hall : ('-' :: Nat.toDigits 10 n).all JsonText.wordChar = true := by
    refine List.all_eq_true.mpr fun c hc => ?_
    rcases List.mem_cons.mp hc with rfl | hc
    · decide
    · exact JsonText.isDigit_wordChar c (JsonText.toDigits_isDigit n c hc)
  have hnumber : JsonText.isNumber ('-' :: Nat.toDigits 10 n) = true := by
    have hplain := JsonText.isNumber_toDigits n
    have hhead : (Nat.toDigits 10 n).head? ≠ some '-' := by
      intro hhead
      exact absurd (JsonText.toDigits_isDigit n '-' (List.mem_of_head? hhead)) (by decide)
    unfold JsonText.isNumber at hplain ⊢
    rwa [if_neg hhead] at hplain
  have hletter : ∀ (first : Char) (name : List Char), first ≠ '-' →
      '-' :: Nat.toDigits 10 n ≠ first :: name :=
    fun first name hfirst heq => hfirst (List.cons.inj heq).1.symm
  have htrue : '-' :: Nat.toDigits 10 n ≠ "true".toList := hletter 't' "rue".toList (by decide)
  have hfalse : '-' :: Nat.toDigits 10 n ≠ "false".toList := hletter 'f' "alse".toList (by decide)
  have hnull : '-' :: Nat.toDigits 10 n ≠ "null".toList := hletter 'n' "ull".toList (by decide)
  unfold JsonText.word JsonText.scalar
  rw [if_pos hall, if_neg htrue, if_neg hfalse, if_neg hnull, if_pos hnumber]

def integers : SerdeJson.Printer ℤ := ⟨PostgresBroker.escapeJson, fun n => (decimal n).toList⟩

theorem integers_lawful : integers.Lawful where
  escape := PostgresBroker.escapeJson_reads
  token n := by
    change JsonText.word (decimal n).toList = some (.number (decimal n).toList)
    rw [toList_decimal]
    split
    · exact JsonText.word_toDigits _
    · exact word_minus _

theorem integers_read (document : SerdeJson.Value ℤ) (hproper : SerdeJson.Proper document)
    (hdepth : SerdeJson.depth document ≤ SerdeJson.maxDepth)
    (hrawless : SerdeJson.rawless document = true) :
    SerdeJson.fromText readInt (String.ofList (SerdeJson.textOf integers document)).toList =
      some document := by
  obtain ⟨hlegible, hunwraps, hreread⟩ :=
    (SerdeJson.roundTrips_iff integers readInt document hproper).mp
      ⟨hrawless, fun n _ => readInt_decimal n⟩
  rw [String.toList_ofList]
  exact (SerdeJson.fromText_textOf_iff integers readInt integers_lawful document document).mpr
    ⟨⟨hdepth, hlegible, hunwraps⟩, hreread.symm⟩

/-- A count whose zero has a text of its own. -/
def epochForm (epoch : List Char) : TextForm ℤ where
  text n := String.ofList (if n = 0 then epoch else (decimal n).toList)
  parse text := if text.toList = epoch then some 0 else readInt text.toList

theorem epochForm_inverse (epoch : List Char) (hepoch : readInt epoch = none) :
    (epochForm epoch).Inverse := by
  intro n
  have hother : (decimal n).toList ≠ epoch := by
    intro heq
    rw [← heq, readInt_decimal] at hepoch
    cases hepoch
  dsimp only [epochForm]
  rw [String.toList_ofList]
  by_cases hn : n = 0
  · rw [if_pos hn, if_pos rfl, hn]
  · rw [if_neg hn, if_neg hother, readInt_decimal]

def nilUuid : List Char :=
  List.replicate 8 '0' ++ '-' :: List.replicate 4 '0' ++ '-' :: List.replicate 4 '0' ++
    '-' :: List.replicate 4 '0' ++ '-' :: List.replicate 12 '0'

def epochDate : List Char := ['1', '9', '7', '0', '-', '0', '1', '-', '0', '1']

def midnight : List Char := ['0', '0', ':', '0', '0', ':', '0', '0']

def epochInstant : List Char := epochDate ++ 'T' :: midnight ++ ['+', '0', '0', ':', '0', '0']

def epochDateTime : List Char := epochDate ++ ' ' :: midnight

/-- Times as counts from 1970, identifiers as counts from the nil one, integers alone as
numbers. -/
def countLibraries (rfc3339 : TextForm ℤ) : Libraries where
  Number := ℤ
  document := ⟨fun value => String.ofList (SerdeJson.textOf integers value),
    fun text => SerdeJson.fromText readInt text.toList⟩
  ofInt n := n
  asI64 n := if -2 ^ 63 ≤ n ∧ n < 2 ^ 63 then some (.ofInt n) else none
  ofF64 _ := none
  asF64 _ := none
  f32 := ⟨fun bits => decimal bits.toNat, fun _ => none⟩
  f64 := ⟨fun bits => decimal bits.toNat, fun _ => none⟩
  widen _ := 0
  narrow _ := 0
  realOf _ := 0
  Uuid := ℤ
  uuid := epochForm nilUuid
  Instant := ℤ
  rfc3339 := rfc3339
  DateTime := ℤ
  dateTime := ⟨(epochForm epochDateTime).text, fun _ => none⟩
  spaced := epochForm epochDateTime
  utc n := n
  Date := ℤ
  date := epochForm epochDate
  Time := ℤ
  time := epochForm midnight

end Stakit.ColumnValues
