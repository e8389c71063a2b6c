import Stakit.ColumnTypes

set_option autoImplicit false

namespace Stakit.CompositeTypes
open ColumnValues CompositeText ColumnTypes List
open Orm (ValueKind)

variable {L : Libraries}

def fieldText : Value L → Option String
  | .null _ => none
  | .bool b => some (if b then "t" else "f")
  | .i16 n => some (decimal n.toInt)
  | .i32 n => some (decimal n.toInt)
  | .i64 n => some (decimal n.toInt)
  | .f32 bits => some (L.f32.text bits)
  | .f64 bits => some (L.f64.text bits)
  | .uuid u => some (L.uuid.text u)
  | .text s => some s
  | other => some (scalarText other)

def Plain (text : String) : Prop := text.toList ≠ [] ∧ text.toList.any needsQuote = false

/-- The texts that are written as they are need no quotes, and identifiers are read again. -/
structure Faithful (L : Libraries) : Prop where
  uuidPlain : ∀ u, Plain (L.uuid.text u)
  f32Plain : ∀ bits, Plain (L.f32.text bits)
  f64Plain : ∀ bits, Plain (L.f64.text bits)
  uuid : L.uuid.Inverse

theorem needsQuote_digit {c : Char} (hc : c.isDigit = true) : needsQuote c = false := by
  have hrange : 48 ≤ c.toNat ∧ c.toNat ≤ 57 := by
    rw [Char.isDigit, Bool.and_eq_true_iff, decide_eq_true_iff, decide_eq_true_iff] at hc
    exact hc
  have hspace : SchemaAttributes.isWhitespace c = false := by
    have hne : ∀ n ∈ [0x20, 0x85, 0xA0, 0x1680, 0x2028, 0x2029, 0x202F, 0x205F, 0x3000],
        c.toNat ≠ n := by
      intro n hn
      simp only [mem_cons, not_mem_nil, or_false] at hn
      omega
    unfold SchemaAttributes.isWhitespace
    rw [Bool.or_eq_false_iff, Bool.or_eq_false_iff]
    refine ⟨⟨?_, ?_⟩, ?_⟩
    · rw [Bool.and_eq_false_iff, decide_eq_false_iff_not, decide_eq_false_iff_not]
      omega
    · rw [Bool.and_eq_false_iff, decide_eq_false_iff_not, decide_eq_false_iff_not]
      omega
    · rw [contains_eq_mem, decide_eq_false_iff_not]
      exact fun hmem => hne _ hmem rfl
  have hspecial : c ∉ [',', '(', ')', '"', '\\'] := by
    intro hmem
    have hnot : [',', '(', ')', '"', '\\'].any Char.isDigit = false := by decide
    exact any_eq_false.mp hnot c hmem hc
  rw [needsQuote, hspace, decide_eq_false hspecial]
  rfl

theorem plain_decimal (n : ℤ) : Plain (decimal n) := by
  have hdigits : (Nat.toDigits 10 n.natAbs).any needsQuote = false := by
    refine any_eq_false.mpr fun c hc => ?_
    rw [needsQuote_digit (JsonText.toDigits_isDigit _ c hc)]
    decide
  unfold Plain
  rw [toList_decimal]
  split
  · exact ⟨Nat.toDigits_ne_nil, hdigits⟩
  · refine ⟨cons_ne_nil _ _, ?_⟩
    rw [any_cons, hdigits]
    decide

theorem written_plain {text : String} (h : Plain text) : text.toList = written (some text) := by
  obtain ⟨hsome, hplain⟩ := h
  change _ = encodeText text.toList
  unfold encodeText
  rw [if_neg]
  rintro (hnil | hany)
  · exact hsome hnil
  · rw [hplain] at hany
    cases hany

theorem encodeField_eq (hlaw : Faithful L) (value : Value L) :
    encodeField value = written (fieldText value) := by
  cases value with
  | null kind => rfl
  | bool b => cases b <;> rfl
  | i16 n | i32 n | i64 n => exact written_plain (plain_decimal _)
  | f32 bits => exact written_plain (hlaw.f32Plain bits)
  | f64 bits => exact written_plain (hlaw.f64Plain bits)
  | uuid u => exact written_plain (hlaw.uuidPlain u)
  | _ => rfl

theorem toValues_length {types : FieldTypes} (v : types.Carrier L) :
    ∃ first rest, types.toValues v = first :: rest ∧ rest.length + 1 = types.count := by
  cases types with
  | last field => exact ⟨_, [], rfl, rfl⟩
  | more field rest =>
    obtain ⟨first, others, hvalues, hlength⟩ := toValues_length v.2
    refine ⟨_, _, rfl, ?_⟩
    rw [hvalues, length_cons, hlength]
    rfl

theorem parse_toValues (hlaw : Faithful L) (types : FieldTypes) (v : types.Carrier L) :
    parse L (encode (types.toValues v)) types.count = .ok ((types.toValues v).map fieldText) := by
  obtain ⟨first, rest, hvalues, hlength⟩ := toValues_length v
  have hwritten : (types.toValues v).map encodeField =
      (fieldText first :: rest.map fieldText).map written := by
    rw [hvalues, ← map_cons (f := fieldText), map_map]
    exact map_congr_left fun value _ => encodeField_eq hlaw value
  have hparse := parse_written _ _ _ hwritten
  rw [length_map, hlength] at hparse
  rw [hparse, hvalues, map_cons]

theorem fromValue_toValue (hlaw : Faithful L) (name : String) (fields : FieldTypes)
    (v : fields.Carrier L) :
    (FieldType.composite name fields).fromValue ((FieldType.composite name fields).toValue v) =
      fields.fromFields ((fields.toValues v).map fieldText) := by
  change (parse L (encode (fields.toValues v)) fields.count >>= fields.fromFields) = _
  rw [parse_toValues hlaw]
  rfl

def Missing : (type : FieldType) → type.Carrier L → Prop
  | .option _, none => True
  | .option inner, some v => Missing inner v
  | _, _ => False

mutual

/-- The values of a field that a composite gives back: no time, date, bytes or array, no missing
value inside an option that holds it, and floats and documents that are read from their own
texts. -/
def Survives : (type : FieldType) → type.Carrier L → Prop
  | .f32, bits => L.f32.parse (L.f32.text bits) = some bits
  | .f64, bits => L.f64.parse (L.f64.text bits) = some bits
  | .json, document => L.document.parse (L.document.text document) = some document
  | .bytes, _ => False
  | .timestamptz, _ => False
  | .naiveDateTime, _ => False
  | .date, _ => False
  | .naiveTime, _ => False
  | .vec _, _ => False
  | .option _, none => True
  | .option inner, some v => ¬Missing inner v ∧ Survives inner v
  | .composite _ fields, v => AllSurvive fields v
  | _, _ => True

def AllSurvive : (types : FieldTypes) → types.Carrier L → Prop
  | .last field, v => Survives field v
  | .more field rest, v => Survives field v.1 ∧ AllSurvive rest v.2

end

theorem fieldText_toValue (type : FieldType) (v : type.Carrier L) :
    fieldText (type.toValue v) = none ↔ Missing type v := by
  cases type with
  | option inner =>
    cases v with
    | none => exact ⟨fun _ => trivial, fun _ => rfl⟩
    | some v => exact fieldText_toValue inner v
  | _ => exact ⟨nofun, nofun⟩

theorem orElseError_ne_null {α : Type} {error : Error L} {make : α → Value L} {found : Option α}
    {kind : ValueKind} (hmake : ∀ a, make a ≠ .null kind) :
    orElseError error make found ≠ .ok (.null kind) := by
  cases found with
  | none => exact nofun
  | some a => exact fun h => hmake a (Except.ok.inj h)

theorem fieldValue_some (text : String) (kind other : ValueKind) :
    fieldValue L (some text) kind ≠ .ok (.null other) := by
  cases kind with
  | i16 | i32 | i64 | f32 | f64 | uuid | json => exact orElseError_ne_null nofun
  | _ => exact nofun

theorem fromValue_option (inner : FieldType) (value : Value L) (h : ∀ kind, value ≠ .null kind) :
    (FieldType.option inner).fromValue value = some <$> inner.fromValue value := by
  cases value with
  | null kind => exact absurd rfl (h kind)
  | _ => rfl

/-- What is made of a field of a literal. -/
def reread (type : FieldType) (text : Option String) : Except (Error L) (type.Carrier L) :=
  fieldValue L text type.kind >>= type.fromValue

theorem reread_option (inner : FieldType) (text : String) (v : inner.Carrier L) :
    reread (.option inner) (some text) = .ok (some v) ↔ reread inner (some text) = .ok v := by
  unfold reread
  change (fieldValue L (some text) inner.kind >>= (FieldType.option inner).fromValue) = _ ↔ _
  cases hvalue : fieldValue L (some text) inner.kind with
  | error error => exact ⟨nofun, nofun⟩
  | ok value =>
    have hnot (kind : ValueKind) : value ≠ .null kind := by
      rintro rfl
      exact fieldValue_some text inner.kind kind hvalue
    change (FieldType.option inner).fromValue value = _ ↔ inner.fromValue value = _
    rw [fromValue_option inner value hnot]
    cases inner.fromValue value with
    | error error => exact ⟨nofun, nofun⟩
    | ok made =>
      exact ⟨fun h => congrArg Except.ok (Option.some.inj (Except.ok.inj h)),
        fun h => congrArg (fun made => Except.ok (some made)) (Except.ok.inj h)⟩

theorem reread_parsed {α : Type} (error : Error L) (make : α → Value L)
    (take : Value L → Except (Error L) α) (htake : ∀ a, take (make a) = .ok a)
    (found : Option α) (b : α) :
    (orElseError error make found >>= take) = .ok b ↔ found = some b := by
  cases found with
  | none => exact ⟨nofun, nofun⟩
  | some a =>
    change take (make a) = _ ↔ _
    rw [htake]
    exact ⟨fun h => congrArg some (Except.ok.inj h), fun h => congrArg Except.ok (Option.some.inj h)⟩

mutual

theorem reread_toValue (hlaw : Faithful L) {type : FieldType} (v : type.Carrier L) :
    reread type (fieldText (type.toValue v)) = .ok v ↔ Survives type v := by
  cases type with
  | i16 =>
    refine (reread_parsed _ Value.i16 (FieldType.fromValue .i16) (fun _ => rfl) _ v).trans ?_
    rw [parseI16_decimal]
    exact iff_of_true rfl trivial
  | i32 =>
    refine (reread_parsed _ Value.i32 (FieldType.fromValue .i32) (fun _ => rfl) _ v).trans ?_
    rw [parseI32_decimal]
    exact iff_of_true rfl trivial
  | i64 =>
    refine (reread_parsed _ Value.i64 (FieldType.fromValue .i64) (fun _ => rfl) _ v).trans ?_
    rw [parseI64_decimal]
    exact iff_of_true rfl trivial
  | f32 =>
    exact reread_parsed _ Value.f32 (FieldType.fromValue .f32) (fun _ => rfl) _ v
  | f64 =>
    exact reread_parsed _ Value.f64 (FieldType.fromValue .f64) (fun _ => rfl) _ v
  | bool =>
    refine iff_of_true ?_ trivial
    cases v <;> rfl
  | text => exact iff_of_true rfl trivial
  | uuid =>
    refine (reread_parsed _ Value.uuid (FieldType.fromValue .uuid) (fun _ => rfl) _ v).trans ?_
    exact iff_of_true (hlaw.uuid v) trivial
  | json =>
    exact reread_parsed _ Value.json (FieldType.fromValue .json) (fun _ => rfl) _ v
  | bytes | timestamptz | naiveDateTime | date | naiveTime | vec element =>
    exact iff_of_false nofun not_false
  | option inner =>
    cases v with
    | none => exact iff_of_true rfl trivial
    | some v =>
      change _ ↔ ¬Missing inner v ∧ Survives inner v
      rw [← fieldText_toValue, ← reread_toValue hlaw v]
      change reread (.option inner) (fieldText (inner.toValue v)) = _ ↔ _
      cases htext : fieldText (inner.toValue v) with
      | none => exact iff_of_false nofun fun h => h.1 rfl
      | some text => exact (reread_option inner text v).trans ⟨fun h => ⟨nofun, h⟩, And.right⟩
  | composite name fields =>
    change (FieldType.composite name fields).fromValue
      ((FieldType.composite name fields).toValue v) = _ ↔ _
    rw [fromValue_toValue hlaw]
    exact fromFields_toValues hlaw v

theorem fromFields_toValues (hlaw : Faithful L) {types : FieldTypes} (v : types.Carrier L) :
    types.fromFields ((types.toValues v).map fieldText) = .ok v ↔ AllSurvive types v := by
  cases types with
  | last field => exact reread_toValue hlaw v
  | more field rest =>
    obtain ⟨first, others⟩ := v
    change _ ↔ Survives field first ∧ AllSurvive rest others
    rw [← reread_toValue hlaw first, ← fromFields_toValues hlaw others]
    change ((reread field (fieldText (field.toValue first)) >>= fun first => do
      return (first, ← rest.fromFields ((rest.toValues others).map fieldText))) = _) ↔ _
    cases reread field (fieldText (field.toValue first)) with
    | error error => exact iff_of_false nofun fun h => nomatch h.1
    | ok made =>
      cases rest.fromFields ((rest.toValues others).map fieldText) with
      | error error => exact iff_of_false nofun fun h => nomatch h.2
      | ok more =>
        change Except.ok (made, more) = .ok (first, others) ↔ _
        rw [Except.ok.injEq, Prod.mk.injEq, Except.ok.injEq, Except.ok.injEq]

end

/-- A struct is made of its own literal again exactly when each of its fields survives. -/
theorem composite_round_trip_iff (hlaw : Faithful L) (name : String) (fields : FieldTypes)
    (v : fields.Carrier L) :
    (FieldType.composite name fields).fromValue ((FieldType.composite name fields).toValue v) =
      .ok v ↔ AllSurvive fields v := by
  rw [fromValue_toValue hlaw]
  exact fromFields_toValues hlaw v

def epochLibraries : Libraries := countLibraries (epochForm epochInstant)

theorem epochLibraries_faithful : Faithful epochLibraries where
  uuidPlain := by
    intro (n : ℤ)
    change Plain (String.ofList (if n = 0 then nilUuid else (decimal n).toList))
    rw [Plain, String.toList_ofList]
    split
    · exact ⟨by decide, by decide +kernel⟩
    · exact plain_decimal n
  f32Plain _ := plain_decimal _
  f64Plain _ := plain_decimal _
  uuid := epochForm_inverse nilUuid (by decide +kernel)

/-- A street, a number, a missing note and a position. -/
def addressFields : FieldTypes :=
  .more .text (.more .i32 (.more (.option .text)
    (.last (.composite "position" (.more .uuid (.last (.option .bool)))))))

def address : addressFields.Carrier epochLibraries :=
  ("Main St, \"4\"", 12, none, (0 : ℤ), some true)

theorem composite_round_trip_address : Faithful epochLibraries ∧
    (FieldType.composite "address" addressFields).fromValue
      ((FieldType.composite "address" addressFields).toValue address) = .ok address :=
  ⟨epochLibraries_faithful,
    (composite_round_trip_iff epochLibraries_faithful "address" addressFields address).mpr
      ⟨trivial, trivial, trivial, trivial, nofun, trivial⟩⟩

def eventFields : FieldTypes := .last .timestamptz

def event : eventFields.Carrier epochLibraries := (0 : ℤ)

/-- A composite with an instant is not read: its text reaches a type that takes instants. -/
theorem composite_instant_rejected : Faithful epochLibraries ∧
    (FieldType.composite "event" eventFields).fromValue
      ((FieldType.composite "event" eventFields).toValue event) =
        .error (.mismatch "timestamptz" (.text (epochLibraries.rfc3339.text event))) ∧
    (FieldType.composite "event" eventFields).fromValue
      ((FieldType.composite "event" eventFields).toValue event) ≠ .ok event := by
  have hread : (FieldType.composite "event" eventFields).fromValue
      ((FieldType.composite "event" eventFields).toValue event) =
        .error (.mismatch "timestamptz" (.text (epochLibraries.rfc3339.text event))) := by
    rw [fromValue_toValue epochLibraries_faithful]
    rfl
  refine ⟨epochLibraries_faithful, hread, ?_⟩
  rw [hread]
  exact nofun

end Stakit.CompositeTypes
