import Stakit.CompositeTypes

set_option autoImplicit false

namespace Stakit.JsonArrays
open ColumnValues ColumnTypes CompositeTypes ExceptLoops
open Orm (ValueKind)

variable {L : Libraries}

abbrev Document (L : Libraries) : Type := SerdeJson.Value L.Number

def scalarToJson : Value L → Document L
  | .i16 n => .number (L.ofInt n.toInt)
  | .i32 n => .number (L.ofInt n.toInt)
  | .i64 n => .number (L.ofInt n.toInt)
  | .f32 bits => (L.ofF64 (L.widen bits)).elim .null .number
  | .f64 bits => (L.ofF64 bits).elim .null .number
  | .bool b => .bool b
  | .text s => .string s
  | .uuid u => .string (L.uuid.text u)
  | .timestamptz t => .string (L.rfc3339.text t)
  | .naiveDateTime t => .string (L.dateTime.text t)
  | .date d => .string (L.date.text d)
  | .naiveTime t => .string (L.time.text t)
  | .json document => document
  | .null _ | .bytes _ | .vector _ | .geo _ _ | .array _ _ | .cast _ _ => .null

def asI64 : Document L → Option Int64
  | .number n => L.asI64 n
  | _ => none

def asF64 : Document L → Option UInt64
  | .number n => L.asF64 n
  | _ => none

def asBool : Document L → Option Bool
  | .bool b => some b
  | _ => none

def asStr : Document L → Option String
  | .string text => some text
  | _ => none

def isNull : Document L → Bool
  | .null => true
  | _ => false

def badElement (what : String) : Error L := .decode s!"array element: expected {what}"

def parseNaive (L : Libraries) (text : String) : Option L.DateTime :=
  (L.dateTime.parse text).or (L.spaced.parse text)

def jsonToScalar (json : Document L) (kind : ValueKind) : Except (Error L) (Value L) :=
  if isNull json then .ok (.null kind)
  else
    match kind with
    | .i16 => orElseError (badElement "i16") .i16 ((asI64 json).bind toI16)
    | .i32 => orElseError (badElement "i32") .i32 ((asI64 json).bind toI32)
    | .i64 => orElseError (badElement "i64") .i64 (asI64 json)
    | .f32 => orElseError (badElement "f32") (fun bits => .f32 (L.narrow bits)) (asF64 json)
    | .f64 => orElseError (badElement "f64") .f64 (asF64 json)
    | .bool => orElseError (badElement "bool") .bool (asBool json)
    | .uuid => orElseError (badElement "uuid") .uuid ((asStr json).bind L.uuid.parse)
    | .timestamptz =>
      orElseError (badElement "timestamptz") .timestamptz ((asStr json).bind L.rfc3339.parse)
    | .naiveDateTime =>
      orElseError (badElement "timestamp") .naiveDateTime ((asStr json).bind (parseNaive L))
    | .date => orElseError (badElement "date") .date ((asStr json).bind L.date.parse)
    | .naiveTime => orElseError (badElement "time") .naiveTime ((asStr json).bind L.time.parse)
    | _ => .ok (.text ((asStr json).getD (L.document.text json)))

def arrayToJsonText (items : List (Value L)) : String :=
  L.document.text (.array (items.map scalarToJson))

def jsonTextToArray (text : String) (element : ValueKind) : Except (Error L) (Value L) :=
  match L.document.parse text with
  | none => .error .source
  | some (.array items) => do
    let values ← items.mapM fun item => jsonToScalar item element
    return .array element values
  | some _ => .error (.decode "expected a JSON array")

/-- A vector stored and read. -/
def restored (element : FieldType) (v : List (element.Carrier L)) :
    Except (Error L) (List (element.Carrier L)) :=
  jsonTextToArray (arrayToJsonText (v.map element.toValue)) element.kind >>=
    (FieldType.vec element).fromValue

/-- The elements of an array that holds neither documents nor floats. -/
inductive Flat : Document L → Prop
  | null : Flat .null
  | bool (b : Bool) : Flat (.bool b)
  | string (text : String) : Flat (.string text)
  | integer (n : Int64) : Flat (.number (L.ofInt n.toInt))

/-- What the libraries give back: an array of such elements, a number that was an integer, and a
text that stands for an identifier, a time or a date. -/
structure Inverses (L : Libraries) : Prop where
  array : ∀ items : List (Document L), (∀ item ∈ items, Flat item) →
    L.document.parse (L.document.text (.array items)) = some (.array items)
  integer : ∀ n : Int64, L.asI64 (L.ofInt n.toInt) = some n
  uuid : L.uuid.Inverse
  rfc3339 : L.rfc3339.Inverse
  naive : ∀ t, parseNaive L (L.dateTime.text t) = some t
  date : L.date.Inverse
  time : L.time.Inverse

/-- The element types in question: neither floats nor composites. -/
def Exact : FieldType → Prop
  | .f32 => False
  | .f64 => False
  | .composite _ _ => False
  | .option inner => Exact inner
  | .vec element => Exact element
  | _ => True

/-- The value is stored as a JSON null. -/
def Vanishes : (type : FieldType) → type.Carrier L → Prop
  | .bytes, _ => True
  | .vec _, _ => True
  | .option _, none => True
  | .option inner, some v => Vanishes inner v
  | _, _ => False

/-- The elements that come back: no bytes or document, of the vectors the empty one, and an option
whose value is not stored as a null. -/
def Kept : (type : FieldType) → type.Carrier L → Prop
  | .bytes, _ => False
  | .json, _ => False
  | .vec _, items => items = []
  | .option _, none => True
  | .option inner, some v => ¬Vanishes inner v ∧ Kept inner v
  | _, _ => True

/-- What an element is made of. -/
def reread (type : FieldType) (json : Document L) : Except (Error L) (type.Carrier L) :=
  jsonToScalar json type.kind >>= type.fromValue

theorem asI64_ofInt (hlaw : Inverses L) {n : ℤ} {m : Int64} (h : m.toInt = n) :
    asI64 (.number (L.ofInt n) : Document L) = some m := by
  rw [← h]
  exact hlaw.integer m

theorem jsonToScalar_ne_null {json : Document L} (hjson : isNull json = false)
    (kind other : ValueKind) : jsonToScalar json kind ≠ .ok (.null other) := by
  unfold jsonToScalar
  rw [hjson, if_neg (by decide)]
  cases kind with
  | i16 | i32 | i64 | f32 | f64 | bool | uuid | timestamptz | naiveDateTime | date | naiveTime =>
    exact orElseError_ne_null nofun
  | _ => exact nofun

theorem reread_null (type : FieldType) {json : Document L} (hjson : isNull json = true) :
    reread type json = type.fromValue (.null type.kind) := by
  unfold reread jsonToScalar
  rw [if_pos hjson]
  rfl

theorem reread_option (inner : FieldType) (json : Document L) (hjson : isNull json = false) :
    reread (.option inner) json = some <$> reread inner json := by
  unfold reread
  change (jsonToScalar json inner.kind >>= (FieldType.option inner).fromValue) = _
  cases hvalue : jsonToScalar json inner.kind with
  | error error => rfl
  | ok value =>
    refine fromValue_option inner value fun kind hnull => ?_
    exact jsonToScalar_ne_null hjson inner.kind kind (hnull ▸ hvalue)

theorem vanishes_of_null (type : FieldType) (v : type.Carrier L) (hkept : Kept type v)
    (hnull : isNull (scalarToJson (type.toValue v)) = true) (hexact : Exact type) :
    Vanishes type v := by
  cases type with
  | bytes | vec element => trivial
  | json => exact hkept.elim
  | f32 | f64 | composite name fields => exact hexact.elim
  | option inner =>
    cases v with
    | none => trivial
    | some v => exact vanishes_of_null inner v hkept.2 hnull hexact
  | _ => cases hnull

theorem reread_kept (hlaw : Inverses L) (type : FieldType) (hexact : Exact type)
    (v : type.Carrier L) (hkept : Kept type v) :
    reread type (scalarToJson (type.toValue v)) = .ok v := by
  have hparsed {α : Type} (error : Error L) (make : α → Value L)
      (take : Value L → Except (Error L) α) (htake : ∀ a, take (make a) = .ok a)
      (found : Option α) (b : α) (h : found = some b) :
      (orElseError error make found >>= take) = .ok b :=
    (reread_parsed error make take htake found b).mpr h
  cases type with
  | i16 =>
    refine hparsed _ Value.i16 (FieldType.fromValue .i16) (fun _ => rfl) _ v ?_
    exact (congrArg (·.bind toI16) (asI64_ofInt hlaw v.toInt_toInt64)).trans
      (toI16_toInt64 v)
  | i32 =>
    refine hparsed _ Value.i32 (FieldType.fromValue .i32) (fun _ => rfl) _ v ?_
    exact (congrArg (·.bind toI32) (asI64_ofInt hlaw v.toInt_toInt64)).trans
      (toI32_toInt64 v)
  | i64 => exact hparsed _ Value.i64 (FieldType.fromValue .i64) (fun _ => rfl) _ v (hlaw.integer v)
  | bool | text => rfl
  | uuid => exact hparsed _ Value.uuid (FieldType.fromValue .uuid) (fun _ => rfl) _ v (hlaw.uuid v)
  | timestamptz =>
    exact hparsed _ Value.timestamptz (FieldType.fromValue .timestamptz) (fun _ => rfl) _ v
      (hlaw.rfc3339 v)
  | naiveDateTime =>
    exact hparsed _ Value.naiveDateTime (FieldType.fromValue .naiveDateTime) (fun _ => rfl) _ v
      (hlaw.naive v)
  | date => exact hparsed _ Value.date (FieldType.fromValue .date) (fun _ => rfl) _ v (hlaw.date v)
  | naiveTime =>
    exact hparsed _ Value.naiveTime (FieldType.fromValue .naiveTime) (fun _ => rfl) _ v (hlaw.time v)
  | bytes | json => exact hkept.elim
  | f32 | f64 | composite name fields => exact hexact.elim
  | vec element =>
    obtain rfl : v = [] := hkept
    rfl
  | option inner =>
    cases v with
    | none => rfl
    | some v =>
      obtain ⟨hthere, hkept⟩ := hkept
      have hjson : isNull (scalarToJson (inner.toValue v)) = false := by
        refine Bool.eq_false_iff.mpr fun hnull => hthere ?_
        exact vanishes_of_null inner v hkept hnull hexact
      change reread (.option inner) (scalarToJson (inner.toValue v)) = _
      rw [reread_option inner _ hjson, reread_kept hlaw inner hexact v hkept]
      rfl

theorem null_of_vanishes (type : FieldType) (hexact : Exact type) (json : Document L)
    (v : type.Carrier L) (hread : reread type json = .ok v) (hvanishes : Vanishes type v) :
    isNull json = true := by
  by_contra hjson
  have hsome : isNull json = false := Bool.eq_false_iff.mpr hjson
  cases type with
  | bytes | vec element =>
    unfold reread jsonToScalar at hread
    rw [hsome] at hread
    cases hread
  | option inner =>
    rw [reread_option inner json hsome] at hread
    cases hinner : reread inner json with
    | error error =>
      rw [hinner] at hread
      cases hread
    | ok w =>
      rw [hinner] at hread
      cases hread
      exact hjson (null_of_vanishes inner hexact json w hinner hvanishes)
  | _ => exact hvanishes.elim

theorem kept_of_reread (type : FieldType) (hexact : Exact type) (json : Document L)
    (v : type.Carrier L) (hread : reread type json = .ok v) : Kept type v := by
  cases hjson : isNull json with
  | true =>
    rw [reread_null type hjson] at hread
    cases type with
    | option inner =>
      cases hread
      trivial
    | vec element =>
      cases hread
      rfl
    | bytes | json => cases hread
    | f32 | f64 | composite name fields => exact hexact.elim
    | _ => trivial
  | false =>
    cases type with
    | option inner =>
      rw [reread_option inner json hjson] at hread
      cases hinner : reread inner json with
      | error error =>
        rw [hinner] at hread
        cases hread
      | ok w =>
        rw [hinner] at hread
        cases hread
        refine ⟨fun hvanishes => ?_, kept_of_reread inner hexact json w hinner⟩
        rw [null_of_vanishes inner hexact json w hinner hvanishes] at hjson
        cases hjson
    | bytes | json | vec element =>
      unfold reread jsonToScalar at hread
      rw [hjson] at hread
      cases hread
    | f32 | f64 | composite name fields => exact hexact.elim
    | _ => trivial

theorem flat_kept (type : FieldType) (hexact : Exact type) (v : type.Carrier L)
    (hkept : Kept type v) : Flat (scalarToJson (type.toValue v)) := by
  cases type with
  | json => exact hkept.elim
  | f32 | f64 | composite name fields => exact hexact.elim
  | option inner =>
    cases v with
    | none => exact .null
    | some v => exact flat_kept inner hexact v hkept.2
  | i16 | i32 =>
    exact (congrArg (fun n => Flat (.number (L.ofInt n))) v.toInt_toInt64).mp (.integer v.toInt64)
  | i64 => exact .integer v
  | bool => exact .bool v
  | bytes | vec => exact .null
  | _ => exact .string _

theorem parse_kept (hlaw : Inverses L) {element : FieldType} (hexact : Exact element)
    {v : List (element.Carrier L)} (hkept : ∀ item ∈ v, Kept element item) :
    L.document.parse (arrayToJsonText (v.map element.toValue)) =
      some (.array ((v.map element.toValue).map scalarToJson)) := by
  refine hlaw.array _ ?_
  rw [List.map_map]
  exact List.forall_mem_map.mpr fun item hitem => flat_kept element hexact item (hkept item hitem)

theorem restored_eq_ok (element : FieldType) (v out : List (element.Carrier L)) :
    restored element v = .ok out ↔
      ∃ items, L.document.parse (arrayToJsonText (v.map element.toValue)) = some (.array items) ∧
        List.Forall₂ (fun json item => reread element json = .ok item) items out := by
  unfold restored jsonTextToArray
  cases hparse : L.document.parse (arrayToJsonText (v.map element.toValue)) with
  | none =>
    refine iff_of_false nofun ?_
    rintro ⟨items, hitems, _⟩
    cases hitems
  | some document =>
    cases document with
    | array items =>
      dsimp only
      rw [bind_assoc]
      refine (mapM_mapM_eq_ok _ element.fromValue items out).trans ⟨fun h => ⟨items, rfl, h⟩, ?_⟩
      rintro ⟨_, ⟨⟩, h⟩
      exact h
    | _ =>
      refine iff_of_false nofun ?_
      rintro ⟨items, hitems, _⟩
      cases hitems

/-- A vector is restored from its JSON text exactly when each of its elements comes back. -/
theorem array_restored_iff (hlaw : Inverses L) (element : FieldType) (hexact : Exact element)
    (v : List (element.Carrier L)) :
    restored element v = .ok v ↔ ∀ item ∈ v, Kept element item := by
  rw [restored_eq_ok]
  constructor
  · rintro ⟨items, _, hread⟩ item hitem
    obtain ⟨json, _, hjson⟩ := exists_input _ _ hread hitem
    exact kept_of_reread element hexact json item hjson
  · intro hkept
    refine ⟨_, parse_kept hlaw hexact hkept, ?_⟩
    rw [List.map_map, List.forall₂_map_left_iff, List.forall₂_same]
    exact fun item hitem => reread_kept hlaw element hexact item (hkept item hitem)

theorem Flat.leaf {item : Document L} (h : Flat item) :
    SerdeJson.Proper item ∧ SerdeJson.depth item = 0 ∧ SerdeJson.rawless item = true := by
  cases h with
  | null | bool | string | integer => exact ⟨trivial, rfl, rfl⟩

theorem flat_items {items : List (Document L)} (h : ∀ item ∈ items, Flat item) :
    SerdeJson.ProperItems items ∧ SerdeJson.depths items = 0 ∧
      SerdeJson.rawlessItems items = true := by
  induction items with
  | nil => exact ⟨trivial, rfl, rfl⟩
  | cons item items ih =>
    obtain ⟨hitem, hitems⟩ := List.forall_mem_cons.mp h
    obtain ⟨hproper, hdepth, hrawless⟩ := hitem.leaf
    obtain ⟨hpropers, hdepths, hrawlesses⟩ := ih hitems
    refine ⟨⟨hproper, hpropers⟩, ?_, Bool.and_eq_true_iff.mpr ⟨hrawless, hrawlesses⟩⟩
    rw [SerdeJson.depths, hdepth, hdepths]
    rfl

theorem epochLibraries_inverses : Inverses epochLibraries where
  array items h := by
    obtain ⟨hproper, hdepth, hrawless⟩ := flat_items h
    have hwithin : SerdeJson.depth (.array items) ≤ SerdeJson.maxDepth := by
      change SerdeJson.depths items + 1 ≤ SerdeJson.maxDepth
      rw [hdepth]
      decide
    exact integers_read (.array items) hproper hwithin hrawless
  integer n := by
    have hleast := n.le_toInt
    have hmost := n.toInt_lt
    change (if -2 ^ 63 ≤ n.toInt ∧ n.toInt < 2 ^ 63 then some (Int64.ofInt n.toInt) else none) = _
    rw [if_pos ⟨hleast, hmost⟩, Int64.ofInt_toInt]
  uuid := epochForm_inverse nilUuid (by decide +kernel)
  rfc3339 := epochForm_inverse epochInstant (by decide +kernel)
  naive := epochForm_inverse epochDateTime (by decide +kernel)
  date := epochForm_inverse epochDate (by decide +kernel)
  time := epochForm_inverse midnight (by decide +kernel)

theorem array_restored_numbers : Inverses epochLibraries ∧ Exact (.option .i32) ∧
    restored (L := epochLibraries) (.option .i32) [some (-7), none, some 2] =
      .ok [some (-7), none, some 2] := by
  refine ⟨epochLibraries_inverses, trivial, ?_⟩
  refine (array_restored_iff epochLibraries_inverses (.option .i32) trivial _).mpr ?_
  simp only [List.forall_mem_cons, List.not_mem_nil, false_imp_iff, implies_true, and_true]
  exact ⟨⟨not_false, trivial⟩, trivial, not_false, trivial⟩

/-- Bytes are stored as nulls: an option gives back none for them, and without one they are not
read at all. -/
theorem bytes_not_restored : Inverses epochLibraries ∧
    restored (L := epochLibraries) (.option .bytes) [some [1, 2]] = .ok [none] ∧
    restored (L := epochLibraries) .bytes [[1, 2]] ≠ .ok [[1, 2]] := by
  refine ⟨epochLibraries_inverses, ?_, fun h => ?_⟩
  · refine (restored_eq_ok _ _ _).mpr ⟨[.null], ?_, .cons rfl .nil⟩
    exact epochLibraries_inverses.array [.null] (List.forall_mem_singleton.mpr .null)
  · have hkept := (array_restored_iff epochLibraries_inverses .bytes trivial _).mp h
    exact hkept [1, 2] List.mem_cons_self

end Stakit.JsonArrays
