import Mathlib.Data.List.Perm.Subperm
import Mathlib.Data.String.Basic
import Stakit.DottedPaths
import Stakit.EntryMaps
import Stakit.TsTypes

set_option autoImplicit false

namespace Stakit.ModelValidation

open TsTypes DottedPaths EntryMaps List

/-- A value of a model type: `model` has the fields of a struct or of the variant that is there,
`sequence` the items of a vector, an array or a set in their order. -/
inductive Val (α : Type)
  | scalar (value : α)
  | pointer (inner : Val α)
  | absent
  | present (inner : Val α)
  | sequence (items : List (Val α))
  | tuple (items : List (Val α))
  | mapping (entries : List (String × Val α))
  | model (fields : List (Field × Val α))

structure ValidationError where
  path : List Char
  code : String
  message : String
deriving DecidableEq

def ValidationError.atField (error : ValidationError) (name : String) : ValidationError :=
  { error with
    path := if error.path = [] then name.toList
      else if error.path.head? = some '[' then name.toList ++ error.path
      else name.toList ++ '.' :: error.path }

def prefixBracket (segment rest : List Char) : List Char :=
  if rest = [] then '[' :: segment ++ [']']
  else if rest.head? = some '[' then '[' :: segment ++ ']' :: rest
  else '[' :: segment ++ ']' :: '.' :: rest

def ValidationError.atIndex (error : ValidationError) (index : ℕ) : ValidationError :=
  { error with path := prefixBracket (Nat.toDigits 10 index) error.path }

def ValidationError.atKey (error : ValidationError) (key : String) : ValidationError :=
  { error with path := prefixBracket key.toList error.path }

abbrev ValidationErrors := List ValidationError

def intoResult (errors : ValidationErrors) : Except ValidationErrors Unit :=
  if errors = [] then .ok () else .error errors

def childErrors : Except ValidationErrors Unit → ValidationErrors
  | .ok _ => []
  | .error child => child

def fieldErrors (errors : ValidationErrors) : Entries String (List String) :=
  errors.foldl (fun map error =>
    let path := String.ofList error.path
    insertInPlace map path ((map.lookup path).getD [] ++ [error.message])) []

def validated (field : Field) : Bool := !field.skip && !field.rules.isEmpty

section
variable {α : Type} (check : Rule → Val α → Option ValidationError) (camel : Bool)

/-- What one rule of a field adds; `nested` are the errors of the value itself. -/
def ruleErrors (field : Field) (value : Val α) (nested : ValidationErrors) (rule : Rule) :
    ValidationErrors :=
  let label := wireName camel field.label
  match rule with
  | .dive => nested.map (·.atField label)
  | rule => ((check rule value).map (·.atField label)).toList

mutual

def Val.validate : Val α → Except ValidationErrors Unit
  | .scalar _ | .absent => .ok ()
  | .pointer inner | .present inner => inner.validate
  | .sequence items | .tuple items => intoResult (validateIndexed 0 items)
  | .mapping entries => intoResult (validateKeyed entries)
  | .model fields => intoResult (validateFields fields)

def validateIndexed (index : ℕ) : List (Val α) → ValidationErrors
  | [] => []
  | item :: rest =>
    (childErrors item.validate).map (·.atIndex index) ++ validateIndexed (index + 1) rest

def validateKeyed : List (String × Val α) → ValidationErrors
  | [] => []
  | (key, value) :: rest =>
    (childErrors value.validate).map (·.atKey key) ++ validateKeyed rest

def validateFields : List (Field × Val α) → ValidationErrors
  | [] => []
  | (field, value) :: rest =>
    (if validated field then
      field.rules.flatMap (ruleErrors check camel field value (childErrors value.validate))
    else []) ++ validateFields rest

end

/-- The field at a position that is validated, with what it holds. -/
inductive Reaches : Val α → List Segment → Field → Val α → Prop
  | pointer {inner value : Val α} {position : List Segment} {field : Field}
      (h : Reaches inner position field value) : Reaches (.pointer inner) position field value
  | present {inner value : Val α} {position : List Segment} {field : Field}
      (h : Reaches inner position field value) : Reaches (.present inner) position field value
  | sequence {items : List (Val α)} {item value : Val α} {position : List Segment} {field : Field}
      (index : ℕ) (hitem : items[index]? = some item) (h : Reaches item position field value) :
      Reaches (.sequence items) (.index index :: position) field value
  | tuple {items : List (Val α)} {item value : Val α} {position : List Segment} {field : Field}
      (index : ℕ) (hitem : items[index]? = some item) (h : Reaches item position field value) :
      Reaches (.tuple items) (.index index :: position) field value
  | mapping {entries : List (String × Val α)} {entry : String × Val α} {value : Val α}
      {position : List Segment} {field : Field} (hentry : entry ∈ entries)
      (h : Reaches entry.2 position field value) :
      Reaches (.mapping entries) (.key entry.1.toList :: position) field value
  | field {fields : List (Field × Val α)} {entry : Field × Val α} (hentry : entry ∈ fields)
      (hvalidated : validated entry.1 = true) :
      Reaches (.model fields) [.name (wireName camel entry.1.label).toList] entry.1 entry.2
  | dive {fields : List (Field × Val α)} {entry : Field × Val α} {value : Val α}
      {position : List Segment} {field : Field} (hentry : entry ∈ fields)
      (hvalidated : validated entry.1 = true) (hdive : .dive ∈ entry.1.rules)
      (h : Reaches entry.2 position field value) :
      Reaches (.model fields) (.name (wireName camel entry.1.label).toList :: position) field value

/-- A rule of a field that does not hold, and what its check says. -/
structure Violation where
  position : List Segment
  rule : ℕ
  error : ValidationError
deriving DecidableEq

def Violation.under (segment : Segment) (violation : Violation) : Violation :=
  { violation with position := segment :: violation.position }

def Violation.report (violation : Violation) : ValidationError :=
  { violation.error with
    path := violation.position.foldr Segment.before violation.error.path }

def Violated (value : Val α) (violation : Violation) : Prop :=
  ∃ field held rule, Reaches camel value violation.position field held ∧
    field.rules[violation.rule]? = some rule ∧ rule ≠ .dive ∧
    check rule held = some violation.error

/-- Validation is exact, and a path is the path of one position. -/
def Located (value : Val α) : Prop :=
  ∃ violations : List Violation,
    (violations.map fun violation => (violation.position, violation.rule)).Nodup ∧
    (∀ violation, violation ∈ violations ↔ Violated check camel value violation) ∧
    value.validate check camel = intoResult (violations.map Violation.report) ∧
    (∀ violation ∈ violations, ∀ other ∈ violations,
      violation.report.path = other.report.path → violation.position = other.position) ∧
    ∀ entry ∈ fieldErrors (violations.map Violation.report), ∃ position,
      entry.2 = (violations.filter fun violation => violation.position = position).map
        fun violation => violation.error.message

/-- Values as the derive and the maps make them. -/
inductive Formed : Val α → Prop
  | scalar (value : α) : Formed (.scalar value)
  | absent : Formed .absent
  | pointer {inner : Val α} (h : Formed inner) : Formed (.pointer inner)
  | present {inner : Val α} (h : Formed inner) : Formed (.present inner)
  | sequence {items : List (Val α)} (h : ∀ item ∈ items, Formed item) : Formed (.sequence items)
  | tuple {items : List (Val α)} (h : ∀ item ∈ items, Formed item) : Formed (.tuple items)
  | mapping {entries : List (String × Val α)} (hkeys : (entries.map Prod.fst).Nodup)
      (h : ∀ entry ∈ entries, Formed entry.2) : Formed (.mapping entries)
  | model {fields : List (Field × Val α)}
      (hdistinct : (fields.map fun entry => wireName camel entry.1.label).Nodup)
      (hname : ∀ entry ∈ fields, Plain (wireName camel entry.1.label).toList)
      (h : ∀ entry ∈ fields, Formed entry.2) : Formed (.model fields)

/-- Something is violated below a field that is marked `dive` more than once. -/
inductive Doubled : Val α → Prop
  | pointer {inner : Val α} (h : Doubled inner) : Doubled (.pointer inner)
  | present {inner : Val α} (h : Doubled inner) : Doubled (.present inner)
  | sequence {items : List (Val α)} {item : Val α} (hitem : item ∈ items) (h : Doubled item) :
      Doubled (.sequence items)
  | tuple {items : List (Val α)} {item : Val α} (hitem : item ∈ items) (h : Doubled item) :
      Doubled (.tuple items)
  | mapping {entries : List (String × Val α)} {entry : String × Val α} (hentry : entry ∈ entries)
      (h : Doubled entry.2) : Doubled (.mapping entries)
  | dive {fields : List (Field × Val α)} {entry : Field × Val α} (hentry : entry ∈ fields)
      (hvalidated : validated entry.1 = true) (hdive : .dive ∈ entry.1.rules)
      (h : Doubled entry.2) : Doubled (.model fields)
  | marked {fields : List (Field × Val α)} {entry : Field × Val α} {violation : Violation}
      (hentry : entry ∈ fields) (hvalidated : validated entry.1 = true)
      (hmarked : 2 ≤ entry.1.rules.count .dive)
      (h : Violated check camel entry.2 violation) : Doubled (.model fields)

def ruleViolations (field : Field) (value : Val α) (nested : List Violation)
    (rule : Rule × ℕ) : List Violation :=
  let segment := Segment.name (wireName camel field.label).toList
  match rule with
  | (.dive, _) => nested.map (Violation.under segment)
  | (rule, index) => ((check rule value).map fun error => ⟨[segment], index, error⟩).toList

mutual

def Val.violations : Val α → List Violation
  | .scalar _ | .absent => []
  | .pointer inner | .present inner => inner.violations
  | .sequence items | .tuple items => violationsIndexed 0 items
  | .mapping entries => violationsKeyed entries
  | .model fields => violationsFields fields

def violationsIndexed (index : ℕ) : List (Val α) → List Violation
  | [] => []
  | item :: rest =>
    item.violations.map (Violation.under (.index index)) ++ violationsIndexed (index + 1) rest

def violationsKeyed : List (String × Val α) → List Violation
  | [] => []
  | (key, value) :: rest =>
    value.violations.map (Violation.under (.key key.toList)) ++ violationsKeyed rest

def violationsFields : List (Field × Val α) → List Violation
  | [] => []
  | (field, value) :: rest =>
    (if validated field then
      field.rules.zipIdx.flatMap (ruleViolations check camel field value value.violations)
    else []) ++ violationsFields rest

end

variable (segment : Segment) (violations : List Violation) (violation : Violation)
  (items : List (Val α)) (field : Field) {value : Val α} (errors : ValidationErrors)
  (error : ValidationError)

theorem childErrors_intoResult : childErrors (intoResult errors) = errors := by
  unfold intoResult
  split_ifs with hempty
  · exact hempty.symm
  · rfl

theorem joined_eq {path : List Char} (hne : path ≠ []) :
    joined path = if path.head? = some '[' then path else '.' :: path := by
  rcases joined_cases path with ⟨-, rfl⟩ | ⟨more, hjoined, rfl⟩ | ⟨more, hjoined, rfl⟩
  · exact absurd rfl hne
  · rw [hjoined, if_neg]
    intro hhead
    cases path with
    | nil => exact hne rfl
    | cons c rest =>
      obtain rfl := Option.some.inj hhead
      cases hjoined
  · rw [hjoined]
    exact (if_pos rfl).symm

theorem atField_path (name : String) :
    (error.atField name).path = (Segment.name name.toList).before error.path := by
  unfold ValidationError.atField Segment.before
  dsimp only
  split_ifs with hempty hhead
  · rw [hempty]
    exact (append_nil _).symm
  · rw [joined_eq hempty, if_pos hhead]
  · rw [joined_eq hempty, if_neg hhead]

theorem prefixBracket_eq (inside rest : List Char) :
    prefixBracket inside rest = bracketed inside rest := by
  unfold prefixBracket bracketed
  split_ifs with hempty hhead
  · rw [hempty]
    rfl
  · rw [joined_eq hempty, if_pos hhead]
  · rw [joined_eq hempty, if_neg hhead]

theorem report_atField (name : String) :
    (violation.under (.name name.toList)).report = violation.report.atField name := by
  have hpath := atField_path violation.report name
  unfold ValidationError.atField at hpath ⊢
  rw [ValidationError.mk.injEq]
  exact ⟨hpath.symm, rfl, rfl⟩

theorem report_atIndex (index : ℕ) :
    (violation.under (.index index)).report = violation.report.atIndex index := by
  unfold ValidationError.atIndex
  rw [prefixBracket_eq]
  rfl

theorem report_atKey (key : String) :
    (violation.under (.key key.toList)).report = violation.report.atKey key := by
  unfold ValidationError.atKey
  rw [prefixBracket_eq]
  rfl

theorem map_report_under (step : ValidationError → ValidationError)
    (hstep : ∀ violation : Violation, (violation.under segment).report = step violation.report)
    (violations : List Violation) :
    (violations.map (Violation.under segment)).map Violation.report =
      (violations.map Violation.report).map step := by
  rw [map_map, map_map]
  exact map_congr_left fun violation _ => hstep violation

theorem validateIndexed_eq
    (h : ∀ item ∈ items, childErrors (item.validate check camel) =
      (item.violations check camel).map Violation.report)
    (index : ℕ) :
    validateIndexed check camel index items =
      (violationsIndexed check camel index items).map Violation.report := by
  induction items generalizing index with
  | nil => rfl
  | cons item rest ih =>
    rw [validateIndexed, violationsIndexed, map_append,
      map_report_under _ (·.atIndex index) fun violation => report_atIndex violation index,
      h item mem_cons_self, ih fun other hother => h other (mem_cons_of_mem _ hother)]

theorem validateKeyed_eq (entries : List (String × Val α))
    (h : ∀ entry ∈ entries, childErrors (entry.2.validate check camel) =
      (entry.2.violations check camel).map Violation.report) :
    validateKeyed check camel entries =
      (violationsKeyed check camel entries).map Violation.report := by
  induction entries with
  | nil => rfl
  | cons entry rest ih =>
    rw [validateKeyed, violationsKeyed, map_append,
      map_report_under _ (·.atKey entry.1) fun violation => report_atKey violation entry.1,
      h entry mem_cons_self, ih fun other hother => h other (mem_cons_of_mem _ hother)]

theorem ruleViolations_plain (value : Val α) (nested : List Violation) {rule : Rule} (index : ℕ)
    (h : rule ≠ .dive) :
    ruleViolations check camel field value nested (rule, index) =
      ((check rule value).map fun error =>
        ⟨[.name (wireName camel field.label).toList], index, error⟩).toList := by
  cases rule <;> first | rfl | exact absurd rfl h

theorem ruleErrors_eq (value : Val α) (nested : List Violation) (rule : Rule) (index : ℕ) :
    ruleErrors check camel field value (nested.map Violation.report) rule =
      (ruleViolations check camel field value nested (rule, index)).map Violation.report := by
  by_cases hdive : rule = .dive
  · rw [hdive]
    exact (map_report_under _ _ (fun violation => report_atField violation _) nested).symm
  · have herrors : ruleErrors check camel field value (nested.map Violation.report) rule =
        ((check rule value).map (·.atField (wireName camel field.label))).toList := by
      cases rule <;> first | rfl | exact absurd rfl hdive
    rw [herrors, ruleViolations_plain check camel field value nested index hdive]
    cases check rule value with
    | none => rfl
    | some error =>
      exact congrArg (· :: [])
        (report_atField ⟨[], index, error⟩ (wireName camel field.label)).symm

theorem rules_eq (value : Val α) (nested : List Violation) (rules : List Rule) (start : ℕ) :
    rules.flatMap (ruleErrors check camel field value (nested.map Violation.report)) =
      ((rules.zipIdx start).flatMap (ruleViolations check camel field value nested)).map
        Violation.report := by
  induction rules generalizing start with
  | nil => rfl
  | cons rule rest ih =>
    rw [zipIdx_cons, flatMap_cons, flatMap_cons, map_append, ih (start + 1), ruleErrors_eq]

theorem validateFields_eq (fields : List (Field × Val α))
    (h : ∀ entry ∈ fields, childErrors (entry.2.validate check camel) =
      (entry.2.violations check camel).map Violation.report) :
    validateFields check camel fields =
      (violationsFields check camel fields).map Violation.report := by
  induction fields with
  | nil => rfl
  | cons entry rest ih =>
    rw [validateFields, violationsFields, map_append,
      ih fun other hother => h other (mem_cons_of_mem _ hother), h entry mem_cons_self]
    split_ifs
    · rw [rules_eq]
    · rfl

theorem validate_eq (h : Formed camel value) : value.validate check camel =
      intoResult ((value.violations check camel).map Violation.report) := by
  induction h with
  | scalar | absent => rfl
  | pointer h ih | present h ih => exact ih
  | sequence h ih | tuple h ih =>
    refine congrArg intoResult (validateIndexed_eq check camel _ (fun item hitem => ?_) 0)
    rw [ih item hitem, childErrors_intoResult]
  | mapping hkeys h ih =>
    refine congrArg intoResult (validateKeyed_eq check camel _ fun entry hentry => ?_)
    rw [ih entry hentry, childErrors_intoResult]
  | model hdistinct hname h ih =>
    refine congrArg intoResult (validateFields_eq check camel _ fun entry hentry => ?_)
    rw [ih entry hentry, childErrors_intoResult]

theorem violationsIndexed_eq (start : ℕ) :
    violationsIndexed check camel start items = (items.zipIdx start).flatMap fun entry =>
      (entry.1.violations check camel).map (Violation.under (.index entry.2)) := by
  induction items generalizing start with
  | nil => rfl
  | cons item rest ih => rw [violationsIndexed, zipIdx_cons, flatMap_cons, ih]

theorem violationsKeyed_eq (entries : List (String × Val α)) :
    violationsKeyed check camel entries = entries.flatMap fun entry =>
      (entry.2.violations check camel).map (Violation.under (.key entry.1.toList)) := by
  induction entries with
  | nil => rfl
  | cons entry rest ih => rw [violationsKeyed, flatMap_cons, ih]

def entryViolations (entry : Field × Val α) : List Violation :=
  if validated entry.1 then
    entry.1.rules.zipIdx.flatMap
      (ruleViolations check camel entry.1 entry.2 (entry.2.violations check camel))
  else []

theorem violationsFields_eq (fields : List (Field × Val α)) :
    violationsFields check camel fields = fields.flatMap (entryViolations check camel) := by
  induction fields with
  | nil => rfl
  | cons entry rest ih =>
    rw [violationsFields, flatMap_cons, ih]
    rfl

theorem mem_ruleViolations (value : Val α) (nested : List Violation) (rule : Rule) (index : ℕ)
    (violation : Violation) :
    violation ∈ ruleViolations check camel field value nested (rule, index) ↔
      (rule = .dive ∧ ∃ inner ∈ nested,
        violation = inner.under (.name (wireName camel field.label).toList)) ∨
      (rule ≠ .dive ∧ ∃ error, check rule value = some error ∧
        violation = ⟨[.name (wireName camel field.label).toList], index, error⟩) := by
  by_cases hdive : rule = .dive
  · rw [hdive]
    refine Iff.trans mem_map ((or_iff_left fun h => h.1 rfl).trans ?_).symm
    refine (and_iff_right rfl).trans (exists_congr fun inner => and_congr_right fun _ => eq_comm)
  · rw [ruleViolations_plain check camel field value nested index hdive,
      Option.mem_toList, Option.map_eq_some_iff]
    refine Iff.trans ?_ (or_iff_right fun h => hdive h.1).symm
    refine Iff.trans (exists_congr fun error => and_congr_right fun _ => eq_comm)
      (and_iff_right hdive).symm

theorem mem_entryViolations (entry : Field × Val α) (violation : Violation) :
    violation ∈ entryViolations check camel entry ↔ validated entry.1 = true ∧
      ((.dive ∈ entry.1.rules ∧ ∃ inner ∈ entry.2.violations check camel,
        violation = inner.under (.name (wireName camel entry.1.label).toList)) ∨
      ∃ rule index error, entry.1.rules[index]? = some rule ∧ rule ≠ .dive ∧
        check rule entry.2 = some error ∧
        violation = ⟨[.name (wireName camel entry.1.label).toList], index, error⟩) := by
  unfold entryViolations
  split_ifs with hvalidated
  · rw [and_iff_right hvalidated, mem_flatMap]
    constructor
    · rintro ⟨⟨rule, index⟩, hrule, hviolation⟩
      have hindex := mk_mem_zipIdx_iff_getElem?.mp hrule
      rcases (mem_ruleViolations check camel _ _ _ _ _ _).mp hviolation with
        ⟨rfl, hnested⟩ | ⟨hdive, error, herror, rfl⟩
      · exact .inl ⟨mem_of_getElem? hindex, hnested⟩
      · exact .inr ⟨rule, index, error, hindex, hdive, herror, rfl⟩
    · rintro (⟨hdive, hnested⟩ | ⟨rule, index, error, hindex, hdive, herror, rfl⟩)
      · obtain ⟨index, hindex⟩ := List.getElem?_of_mem hdive
        exact ⟨(.dive, index), mk_mem_zipIdx_iff_getElem?.mpr hindex,
          (mem_ruleViolations check camel _ _ _ _ _ _).mpr (.inl ⟨rfl, hnested⟩)⟩
      · exact ⟨(rule, index), mk_mem_zipIdx_iff_getElem?.mpr hindex,
          (mem_ruleViolations check camel _ _ _ _ _ _).mpr (.inr ⟨hdive, error, herror, rfl⟩)⟩
  · exact iff_of_false not_mem_nil fun h => hvalidated h.1

theorem violated_under {inner : Val α} {segment : Segment}
    (h : ∀ {position field held}, Reaches camel inner position field held →
      Reaches camel value (segment :: position) field held)
    {violation : Violation} (hviolated : Violated check camel inner violation) :
    Violated check camel value (violation.under segment) := by
  obtain ⟨field, held, rule, hreaches, hrest⟩ := hviolated
  exact ⟨field, held, rule, h hreaches, hrest⟩

theorem mem_violationsIndexed
    (h : ∀ item ∈ items, ∀ inner, inner ∈ item.violations check camel ↔
      Violated check camel item inner)
    (violation : Violation) :
    violation ∈ violationsIndexed check camel 0 items ↔ ∃ index item inner,
      items[index]? = some item ∧ Violated check camel item inner ∧
        violation = inner.under (.index index) := by
  rw [violationsIndexed_eq, mem_flatMap]
  constructor
  · rintro ⟨⟨item, index⟩, hitem, hviolation⟩
    obtain ⟨inner, hinner, rfl⟩ := mem_map.mp hviolation
    have hindex := mk_mem_zipIdx_iff_getElem?.mp hitem
    exact ⟨index, item, inner, hindex, (h item (mem_of_getElem? hindex) inner).mp hinner, rfl⟩
  · rintro ⟨index, item, inner, hitem, hinner, rfl⟩
    exact ⟨(item, index), mk_mem_zipIdx_iff_getElem?.mpr hitem, mem_map.mpr
      ⟨inner, (h item (mem_of_getElem? hitem) inner).mpr hinner, rfl⟩⟩

theorem mem_violations (h : Formed camel value) (violation : Violation) :
    violation ∈ value.violations check camel ↔ Violated check camel value violation := by
  induction h generalizing violation with
  | scalar value | absent => exact iff_of_false not_mem_nil fun ⟨_, _, _, h, _⟩ => nomatch h
  | pointer h ih =>
    refine (ih violation).trans ⟨?_, ?_⟩
    · rintro ⟨field, held, rule, hreaches, hrest⟩
      exact ⟨field, held, rule, .pointer hreaches, hrest⟩
    · rintro ⟨field, held, rule, hreaches, hrest⟩
      cases hreaches with
      | pointer hreaches => exact ⟨field, held, rule, hreaches, hrest⟩
  | present h ih =>
    refine (ih violation).trans ⟨?_, ?_⟩
    · rintro ⟨field, held, rule, hreaches, hrest⟩
      exact ⟨field, held, rule, .present hreaches, hrest⟩
    · rintro ⟨field, held, rule, hreaches, hrest⟩
      cases hreaches with
      | present hreaches => exact ⟨field, held, rule, hreaches, hrest⟩
  | sequence h ih =>
    refine (mem_violationsIndexed check camel _ ih violation).trans ⟨?_, ?_⟩
    · rintro ⟨index, item, inner, hitem, hinner, rfl⟩
      exact violated_under check camel (.sequence index hitem) hinner
    · obtain ⟨position, rule, error⟩ := violation
      rintro ⟨field, held, found, hreaches, hrest⟩
      cases hreaches with
      | sequence index hitem hreaches =>
        exact ⟨index, _, ⟨_, rule, error⟩, hitem, ⟨field, held, found, hreaches, hrest⟩, rfl⟩
  | tuple h ih =>
    refine (mem_violationsIndexed check camel _ ih violation).trans ⟨?_, ?_⟩
    · rintro ⟨index, item, inner, hitem, hinner, rfl⟩
      exact violated_under check camel (.tuple index hitem) hinner
    · obtain ⟨position, rule, error⟩ := violation
      rintro ⟨field, held, found, hreaches, hrest⟩
      cases hreaches with
      | tuple index hitem hreaches =>
        exact ⟨index, _, ⟨_, rule, error⟩, hitem, ⟨field, held, found, hreaches, hrest⟩, rfl⟩
  | mapping hkeys h ih =>
    rw [Val.violations, violationsKeyed_eq, mem_flatMap]
    constructor
    · rintro ⟨entry, hentry, hviolation⟩
      obtain ⟨inner, hinner, rfl⟩ := mem_map.mp hviolation
      exact violated_under check camel (.mapping hentry) ((ih entry hentry inner).mp hinner)
    · obtain ⟨position, rule, error⟩ := violation
      rintro ⟨field, held, found, hreaches, hrest⟩
      cases hreaches with
      | @mapping _ entry _ position _ hentry hreaches =>
        refine ⟨entry, hentry, mem_map.mpr ⟨⟨position, rule, error⟩, ?_, rfl⟩⟩
        exact (ih entry hentry _).mpr ⟨field, held, found, hreaches, hrest⟩
  | model hdistinct hname h ih =>
    rw [Val.violations, violationsFields_eq, mem_flatMap]
    constructor
    · rintro ⟨entry, hentry, hviolation⟩
      obtain ⟨hvalidated, ⟨hdive, inner, hinner, rfl⟩ |
        ⟨rule, index, error, hindex, hdive, herror, rfl⟩⟩ :=
          (mem_entryViolations check camel entry violation).mp hviolation
      · exact violated_under check camel (.dive hentry hvalidated hdive)
          ((ih entry hentry inner).mp hinner)
      · exact ⟨entry.1, entry.2, rule, .field hentry hvalidated, hindex, hdive, herror⟩
    · obtain ⟨position, rule, error⟩ := violation
      rintro ⟨field, held, found, hreaches, hrule, hdive, herror⟩
      cases hreaches with
      | @field _ entry hentry hvalidated =>
        exact ⟨entry, hentry, (mem_entryViolations check camel entry _).mpr
          ⟨hvalidated, .inr ⟨found, rule, error, hrule, hdive, herror, rfl⟩⟩⟩
      | @dive _ entry _ position _ hentry hvalidated hmarked hreaches =>
        refine ⟨entry, hentry, (mem_entryViolations check camel entry _).mpr
          ⟨hvalidated, .inl ⟨hmarked, ⟨position, rule, error⟩, ?_, rfl⟩⟩⟩
        exact (ih entry hentry _).mpr ⟨field, held, found, hreaches, hrule, hdive, herror⟩

def Violation.place (violation : Violation) : List Segment × ℕ :=
  (violation.position, violation.rule)

theorem places_under : (violations.map (Violation.under segment)).map Violation.place =
      (violations.map Violation.place).map fun place => (segment :: place.1, place.2) := by
  rw [map_map, map_map]
  rfl

theorem nodup_under (h : (violations.map Violation.place).Nodup) :
    ((violations.map (Violation.under segment)).map Violation.place).Nodup := by
  rw [places_under]
  refine h.map fun place other hsame => ?_
  obtain ⟨hposition, hrule⟩ := Prod.mk.inj hsame
  exact Prod.ext (List.cons.inj hposition).2 hrule

theorem nodup_branches {β : Type} (items : List β) (segment : β → Segment)
    (f : β → List Violation) (hdistinct : (items.map segment).Nodup)
    (hhead : ∀ item ∈ items, ∀ violation ∈ f item, violation.position.head? = some (segment item))
    (hnodup : ∀ item ∈ items, ((f item).map Violation.place).Nodup) :
    ((items.flatMap f).map Violation.place).Nodup := by
  induction items with
  | nil => exact nodup_nil
  | cons item rest ih =>
    obtain ⟨hnew, hrest⟩ := nodup_cons.mp hdistinct
    rw [flatMap_cons, map_append]
    refine List.Nodup.append (hnodup item mem_cons_self)
      (ih hrest (fun other hother => hhead other (mem_cons_of_mem _ hother))
        fun other hother => hnodup other (mem_cons_of_mem _ hother)) ?_
    intro place hplace hother
    obtain ⟨violation, hviolation, rfl⟩ := mem_map.mp hplace
    obtain ⟨later, hlater, hsame⟩ := mem_map.mp hother
    obtain ⟨other, hmem, hlater⟩ := mem_flatMap.mp hlater
    have hfirst := hhead item mem_cons_self violation hviolation
    have hsecond := hhead other (mem_cons_of_mem _ hmem) later hlater
    have hposition : later.position = violation.position := congrArg Prod.fst hsame
    rw [hposition, hfirst] at hsecond
    exact hnew (mem_map.mpr ⟨other, hmem, (Option.some.inj hsecond).symm⟩)

theorem head_under (h : violation ∈ violations.map (Violation.under segment)) :
    violation.position.head? = some segment := by
  obtain ⟨inner, -, rfl⟩ := mem_map.mp h
  rfl

theorem head_entryViolations (entry : Field × Val α) (violation : Violation)
    (h : violation ∈ entryViolations check camel entry) :
    violation.position.head? = some (.name (wireName camel entry.1.label).toList) := by
  obtain ⟨-, ⟨-, inner, -, rfl⟩ | ⟨rule, index, error, -, -, -, rfl⟩⟩ :=
    (mem_entryViolations check camel entry violation).mp h
  · rfl
  · rfl

theorem Reaches.position_ne_nil {held : Val α} {position : List Segment} {field : Field}
    (h : Reaches camel value position field held) : position ≠ [] := by
  induction h with
  | pointer h ih | present h ih => exact ih
  | sequence | tuple | mapping | field | dive => exact cons_ne_nil _ _

theorem nodup_ruleViolations (value : Val α) (nested : List Violation) (rule : Rule) (index : ℕ)
    (h : rule = .dive → (nested.map Violation.place).Nodup) :
    ((ruleViolations check camel field value nested (rule, index)).map Violation.place).Nodup := by
  by_cases hdive : rule = .dive
  · have hnested := h hdive
    rw [hdive]
    exact nodup_under _ nested hnested
  · rw [ruleViolations_plain check camel field value nested index hdive]
    cases check rule value with
    | none => exact nodup_nil
    | some error => exact nodup_singleton _

theorem nodup_rules (value : Val α) (nested : List Violation)
    (hne : ∀ violation ∈ nested, violation.position ≠ []) (rules : List Rule)
    (h : .dive ∈ rules → (nested.map Violation.place).Nodup)
    (honce : 2 ≤ rules.count .dive → nested = []) (start : ℕ) :
    (((rules.zipIdx start).flatMap (ruleViolations check camel field value nested)).map
      Violation.place).Nodup := by
  induction rules generalizing start with
  | nil => exact nodup_nil
  | cons rule rest ih =>
    have hrest : 2 ≤ rest.count .dive → nested = [] := fun hcount =>
      honce (hcount.trans count_le_count_cons)
    rw [zipIdx_cons, flatMap_cons, map_append]
    refine List.Nodup.append
      (nodup_ruleViolations check camel field value nested rule start fun hdive =>
        h (hdive ▸ mem_cons_self))
      (ih (fun hdive => h (mem_cons_of_mem _ hdive)) hrest (start + 1)) ?_
    intro place hplace hother
    obtain ⟨violation, hviolation, rfl⟩ := mem_map.mp hplace
    obtain ⟨later, hlater, hsame⟩ := mem_map.mp hother
    obtain ⟨⟨other, index⟩, hmem, hlater⟩ := mem_flatMap.mp hlater
    obtain ⟨hposition, hrule⟩ := Prod.mk.inj hsame
    have hindex := le_snd_of_mem_zipIdx hmem
    rcases (mem_ruleViolations check camel field value nested _ _ violation).mp hviolation with
      ⟨rfl, inner, hinner, rfl⟩ | ⟨-, error, -, rfl⟩
    · rcases (mem_ruleViolations check camel field value nested _ _ later).mp hlater with
        ⟨rfl, -⟩ | ⟨-, error, -, rfl⟩
      · have hpos : 0 < rest.count .dive :=
          count_pos_iff.mpr (fst_mem_of_mem_zipIdx hmem)
        rw [honce (by rw [count_cons_self]; omega)] at hinner
        exact not_mem_nil hinner
      · exact hne inner hinner (List.cons.inj hposition).2.symm
    · rcases (mem_ruleViolations check camel field value nested _ _ later).mp hlater with
        ⟨-, inner, hinner, rfl⟩ | ⟨-, error', -, rfl⟩
      · exact hne inner hinner (List.cons.inj hposition).2
      · have hstart : index = start := hrule
        omega

theorem not_nodup_rules (value : Val α) (nested : List Violation) (hnested : nested ≠ [])
    {rules : List Rule} (hmarked : 2 ≤ rules.count .dive) (start : ℕ) :
    ¬ (((rules.zipIdx start).flatMap (ruleViolations check camel field value nested)).map
      Violation.place).Nodup := by
  induction rules generalizing start with
  | nil => exact absurd hmarked (by decide)
  | cons rule rest ih =>
    rw [zipIdx_cons, flatMap_cons, map_append]
    intro hnodup
    by_cases hdive : rule = .dive
    · rw [hdive, count_cons_self] at hmarked
      obtain ⟨inner, hinner⟩ := exists_mem_of_ne_nil _ hnested
      obtain ⟨index, hindex⟩ := List.getElem?_of_mem
        (count_pos_iff.mp (by omega : 0 < rest.count .dive))
      have hreport (index : ℕ) : inner.under (.name (wireName camel field.label).toList) ∈
          ruleViolations check camel field value nested (.dive, index) :=
        mem_map_of_mem hinner
      have hlater : (Rule.dive, start + 1 + index) ∈ rest.zipIdx (start + 1) := by
        rw [mem_zipIdx_iff_le_and_getElem?_sub]
        exact ⟨Nat.le_add_right _ _, by rwa [Nat.add_sub_cancel_left]⟩
      rw [hdive] at hnodup
      exact (disjoint_of_nodup_append hnodup) (mem_map_of_mem (hreport start))
        (mem_map_of_mem (mem_flatMap.mpr ⟨_, hlater, hreport _⟩))
    · rw [count_cons_of_ne (Ne.symm (Ne.symm hdive))] at hmarked
      exact ih hmarked (start + 1) (List.Nodup.of_append_right hnodup)

theorem nodup_items
    (h : ∀ item ∈ items, ((item.violations check camel).map Violation.place).Nodup) :
    ((violationsIndexed check camel 0 items).map Violation.place).Nodup := by
  rw [violationsIndexed_eq]
  refine nodup_branches items.zipIdx (fun entry => Segment.index entry.2) _ ?_
    (fun entry _ violation hviolation => head_under _ _ violation hviolation)
    fun entry hentry => nodup_under _ _ (h entry.1 (fst_mem_of_mem_zipIdx hentry))
  have hsegments : items.zipIdx.map (fun entry => Segment.index entry.2) =
      (items.zipIdx.map Prod.snd).map Segment.index := by
    rw [map_map]
    rfl
  rw [hsegments, zipIdx_map_snd]
  have hindices : (List.range' 0 items.length).Nodup := nodup_range'
  exact hindices.map fun n m h => Segment.index.inj h

theorem nodup_violations (h : Formed camel value) (honce : ¬ Doubled check camel value) :
    ((value.violations check camel).map Violation.place).Nodup := by
  induction h with
  | scalar | absent => exact nodup_nil
  | pointer h ih => exact ih fun hdoubled => honce (.pointer hdoubled)
  | present h ih => exact ih fun hdoubled => honce (.present hdoubled)
  | sequence h ih =>
    exact nodup_items check camel _ fun item hitem => ih item hitem fun hdoubled =>
      honce (.sequence hitem hdoubled)
  | tuple h ih =>
    exact nodup_items check camel _ fun item hitem => ih item hitem fun hdoubled =>
      honce (.tuple hitem hdoubled)
  | @mapping entries hkeys h ih =>
    rw [Val.violations, violationsKeyed_eq]
    refine nodup_branches _ (fun entry => Segment.key entry.1.toList) _ ?_
      (fun entry _ violation hviolation => head_under _ _ violation hviolation)
      fun entry hentry => nodup_under _ _
        (ih entry hentry fun hdoubled => honce (.mapping hentry hdoubled))
    have hsegments : entries.map (fun entry => Segment.key entry.1.toList) =
        (entries.map Prod.fst).map fun key => Segment.key key.toList := by
      rw [map_map]
      rfl
    rw [hsegments]
    exact hkeys.map fun key other h => String.toList_inj.mp (Segment.key.inj h)
  | @model fields hdistinct hname h ih =>
    rw [Val.violations, violationsFields_eq]
    refine nodup_branches fields
      (fun entry => Segment.name (wireName camel entry.1.label).toList)
      (entryViolations check camel) ?_
      (fun entry _ => head_entryViolations check camel entry) fun entry hentry => ?_
    · have hsegments : fields.map (fun entry => Segment.name (wireName camel entry.1.label).toList)
          = (fields.map fun entry => wireName camel entry.1.label).map fun name =>
            Segment.name name.toList := by
        rw [map_map]
        rfl
      rw [hsegments]
      exact hdistinct.map fun name other h => String.toList_inj.mp (Segment.name.inj h)
    · have hmem := mem_violations check camel (h entry hentry)
      unfold entryViolations
      split_ifs with hvalidated
      · refine nodup_rules check camel entry.1 entry.2 _ ?_ _ (fun hdive =>
          ih entry hentry fun hdoubled => honce (.dive hentry hvalidated hdive hdoubled)) ?_ 0
        · intro violation hviolation
          obtain ⟨_, _, _, hreaches, -⟩ := (hmem violation).mp hviolation
          exact hreaches.position_ne_nil camel
        · intro hmarked
          refine eq_nil_iff_forall_not_mem.mpr fun violation hviolation => ?_
          exact honce (.marked hentry hvalidated hmarked ((hmem violation).mp hviolation))
      · exact nodup_nil

theorem nodup_branch {β : Type} (items : List β) (f : β → List Violation) (item : β)
    (hitem : item ∈ items) (h : ((items.flatMap f).map Violation.place).Nodup) :
    ((f item).map Violation.place).Nodup := by
  rw [map_flatMap] at h
  exact (nodup_flatMap.mp h).1 item hitem

theorem nodup_of_under
    (h : ((violations.map (Violation.under segment)).map Violation.place).Nodup) :
    (violations.map Violation.place).Nodup := by
  rw [places_under] at h
  exact h.of_map

theorem nodup_item {item : Val α} (hitem : item ∈ items)
    (h : ((violationsIndexed check camel 0 items).map Violation.place).Nodup) :
    ((item.violations check camel).map Violation.place).Nodup := by
  rw [violationsIndexed_eq] at h
  obtain ⟨index, hindex⟩ := List.getElem?_of_mem hitem
  exact nodup_of_under _ _ (nodup_branch _ _ (item, index)
    (mk_mem_zipIdx_iff_getElem?.mpr hindex) h)

theorem not_nodup_violations (hformed : Formed camel value) (h : Doubled check camel value) :
    ¬ ((value.violations check camel).map Violation.place).Nodup := by
  induction h with
  | pointer h ih =>
    cases hformed with
    | pointer hformed => exact ih hformed
  | present h ih =>
    cases hformed with
    | present hformed => exact ih hformed
  | sequence hitem h ih =>
    cases hformed with
    | sequence hformed =>
      exact fun hnodup => ih (hformed _ hitem) (nodup_item check camel _ hitem hnodup)
  | tuple hitem h ih =>
    cases hformed with
    | tuple hformed =>
      exact fun hnodup => ih (hformed _ hitem) (nodup_item check camel _ hitem hnodup)
  | mapping hentry h ih =>
    cases hformed with
    | mapping hkeys hformed =>
      intro hnodup
      rw [Val.violations, violationsKeyed_eq] at hnodup
      have hbranch := nodup_branch _ _ _ hentry hnodup
      exact ih (hformed _ hentry) (nodup_of_under _ _ hbranch)
  | dive hentry hvalidated hdive h ih =>
    cases hformed with
    | model hdistinct hname hformed =>
      intro hnodup
      rw [Val.violations, violationsFields_eq] at hnodup
      have hrules := nodup_branch _ _ _ hentry hnodup
      rw [entryViolations, if_pos hvalidated] at hrules
      obtain ⟨index, hindex⟩ := List.getElem?_of_mem hdive
      have hbranch := nodup_branch _ _ (Rule.dive, index)
        (mk_mem_zipIdx_iff_getElem?.mpr hindex) hrules
      exact ih (hformed _ hentry) (nodup_of_under _ _ hbranch)
  | marked hentry hvalidated hmarked h =>
    cases hformed with
    | model hdistinct hname hformed =>
      intro hnodup
      rw [Val.violations, violationsFields_eq] at hnodup
      have hrules := nodup_branch _ _ _ hentry hnodup
      rw [entryViolations, if_pos hvalidated] at hrules
      refine not_nodup_rules check camel _ _ _ ?_ hmarked 0 hrules
      exact ne_nil_of_mem ((mem_violations check camel (hformed _ hentry) _).mpr h)

theorem aligned (h : Formed camel value) {position other : List Segment} {field field' : Field}
    {held held' : Val α} (hposition : Reaches camel value position field held)
    (hother : Reaches camel value other field' held') : Aligned position other := by
  induction h generalizing position other with
  | scalar | absent => cases hposition
  | pointer h ih =>
    cases hposition with
    | pointer hposition =>
      cases hother with
      | pointer hother => exact ih hposition hother
  | present h ih =>
    cases hposition with
    | present hposition =>
      cases hother with
      | present hother => exact ih hposition hother
  | sequence h ih =>
    cases hposition with
    | sequence index hitem hposition =>
      cases hother with
      | sequence index' hitem' hother =>
        rintro rfl
        obtain rfl := Option.some.inj (hitem.symm.trans hitem')
        exact ih _ (mem_of_getElem? hitem) hposition hother
  | tuple h ih =>
    cases hposition with
    | tuple index hitem hposition =>
      cases hother with
      | tuple index' hitem' hother =>
        rintro rfl
        obtain rfl := Option.some.inj (hitem.symm.trans hitem')
        exact ih _ (mem_of_getElem? hitem) hposition hother
  | mapping hkeys h ih =>
    cases hposition with
    | mapping hentry hposition =>
      cases hother with
      | mapping hentry' hother =>
        intro hkey
        obtain rfl := inj_on_of_nodup_map hkeys hentry hentry' (String.toList_inj.mp hkey)
        exact ih _ hentry hposition hother
  | model hdistinct hname h ih =>
    have hsame {entry other : Field × Val α} (hentry : entry ∈ _) (hother : other ∈ _)
        (hwire : (wireName camel entry.1.label).toList = (wireName camel other.1.label).toList) :
        entry = other :=
      inj_on_of_nodup_map hdistinct hentry hother (String.toList_inj.mp hwire)
    cases hposition with
    | field hentry =>
      cases hother with
      | field hentry' | dive hentry' => exact ⟨hname _ hentry, hname _ hentry', fun _ => trivial⟩
    | dive hentry _ _ hposition =>
      cases hother with
      | field hentry' =>
        refine ⟨hname _ hentry, hname _ hentry', fun _ => ?_⟩
        exact aligned_nil _
      | dive hentry' _ _ hother =>
        refine ⟨hname _ hentry, hname _ hentry', fun hwire => ?_⟩
        obtain rfl := hsame hentry hentry' hwire
        exact ih _ hentry hposition hother

def messages (errors : ValidationErrors) (path : String) : List String :=
  (errors.filter fun error => String.ofList error.path = path).map ValidationError.message

theorem fieldErrors_snoc : fieldErrors (errors ++ [error]) =
      insertInPlace (fieldErrors errors) (String.ofList error.path)
        (((fieldErrors errors).lookup (String.ofList error.path)).getD [] ++ [error.message]) :=
  foldl_concat _ _ _ _

theorem messages_snoc (path : String) : messages (errors ++ [error]) path =
      if String.ofList error.path = path then messages errors path ++ [error.message]
      else messages errors path := by
  unfold messages
  rw [filter_append, map_append]
  split_ifs with hpath
  · rw [filter_singleton, decide_eq_true hpath]
    rfl
  · rw [filter_singleton, decide_eq_false hpath]
    exact append_nil _

theorem lookup_fieldErrors (path : String) : (fieldErrors errors).lookup path =
      if messages errors path = [] then none else some (messages errors path) := by
  induction errors using List.reverseRecOn with
  | nil => rfl
  | append_singleton errors error ih =>
    rw [fieldErrors_snoc, lookup_insertInPlace, messages_snoc]
    by_cases hpath : String.ofList error.path = path
    · rw [if_pos hpath.symm, if_pos hpath, hpath, ih,
        if_neg (append_ne_nil_of_right_ne_nil _ (cons_ne_nil _ _))]
      split_ifs with hempty
      · rw [hempty]
        rfl
      · rfl
    · rw [if_neg (Ne.symm hpath), if_neg hpath, ih]

theorem nodup_fieldErrors : ((fieldErrors errors).map Prod.fst).Nodup := by
  induction errors using List.reverseRecOn with
  | nil => exact nodup_nil
  | append_singleton errors error ih =>
    rw [fieldErrors_snoc]
    exact nodup_insertInPlace _ _ _ ih

theorem mem_fieldErrors {entry : String × List String} (h : entry ∈ fieldErrors errors) :
    ∃ error ∈ errors, entry.2 = (errors.filter fun other => other.path = error.path).map
      ValidationError.message := by
  have hlookup := lookup_of_nodup _ (nodup_fieldErrors errors) h
  rw [lookup_fieldErrors] at hlookup
  split_ifs at hlookup with hempty
  obtain ⟨message, hmessage⟩ := exists_mem_of_ne_nil _ hempty
  obtain ⟨error, herror, -⟩ := mem_map.mp hmessage
  obtain ⟨hmem, hpath⟩ := mem_filter.mp herror
  have hsame : errors.filter (fun other => String.ofList other.path = entry.1) =
      errors.filter fun other => other.path = error.path := by
    refine filter_congr fun other _ => decide_eq_decide.mpr ?_
    rw [← of_decide_eq_true hpath, String.ofList_inj]
  refine ⟨error, hmem, (Option.some.inj hlookup).symm.trans ?_⟩
  rw [messages, hsame]

theorem report_path (h : violation.error.path = []) :
    violation.report.path = written violation.position := by
  unfold Violation.report written
  dsimp only
  rw [h]

theorem violation_path {violation : Violation}
    (hcheck : ∀ rule held error, check rule held = some error → error.path = [])
    (h : Violated check camel value violation) : violation.error.path = [] := by
  obtain ⟨_, _, _, -, -, -, herror⟩ := h
  exact hcheck _ _ _ herror

theorem intoResult_inj {errors other : ValidationErrors} (h : intoResult errors = intoResult other) :
    errors = other := by
  rw [← childErrors_intoResult errors, h, childErrors_intoResult]

theorem written_apart (hformed : Formed camel value)
    (hapart : ∀ violation other, Violated check camel value violation →
      Violated check camel value other → ¬ Confused violation.position other.position)
    {violation other : Violation} (hfirst : Violated check camel value violation)
    (hsecond : Violated check camel value other)
    (h : written violation.position = written other.position) :
    violation.position = other.position := by
  obtain ⟨_, _, _, hreaches, -⟩ := id hfirst
  obtain ⟨_, _, _, hreaches', -⟩ := id hsecond
  rcases confused_of_written _ _ (aligned camel hformed hreaches hreaches') h with
    hsame | hconfused | hconfused
  · exact hsame
  · exact absurd hconfused (hapart violation other hfirst hsecond)
  · exact absurd hconfused (hapart other violation hsecond hfirst)

theorem nodup_places {violations other : List Violation}
    (h : (violations.map Violation.place).Nodup) (hlength : violations.length = other.length)
    (hmem : ∀ violation, violation ∈ violations ↔ violation ∈ other) :
    (other.map Violation.place).Nodup := by
  have hsubperm := subperm_of_subset (List.Nodup.of_map _ h) fun violation =>
    (hmem violation).mp
  exact ((hsubperm.perm_of_length_le hlength.ge).map _).nodup_iff.mp h

theorem located_iff (hformed : Formed camel value)
    (hcheck : ∀ rule held error, check rule held = some error → error.path = []) :
    Located check camel value ↔ ¬ Doubled check camel value ∧
      ∀ violation other, Violated check camel value violation →
        Violated check camel value other → ¬ Confused violation.position other.position := by
  have hviolated := mem_violations check camel hformed
  have hpath {violation : Violation} (h : Violated check camel value violation) :
      violation.report.path = written violation.position :=
    report_path violation (violation_path check camel hcheck h)
  constructor
  · rintro ⟨violations, hnodup, hmem, hvalidate, hinj, -⟩
    constructor
    · intro hdoubled
      have hreports := intoResult_inj (hvalidate.symm.trans (validate_eq check camel hformed))
      have hlength := congrArg List.length hreports
      rw [length_map, length_map] at hlength
      exact not_nodup_violations check camel hformed hdoubled (nodup_places hnodup hlength
        fun violation => (hmem violation).trans (hviolated violation).symm)
    · intro violation other hfirst hsecond hconfused
      refine hconfused.ne (hinj violation ((hmem violation).mpr hfirst) other
        ((hmem other).mpr hsecond) ?_)
      rw [hpath hfirst, hpath hsecond, hconfused.written_eq]
  · rintro ⟨honce, hapart⟩
    have hinj : ∀ violation ∈ value.violations check camel, ∀ other ∈ value.violations check camel,
          violation.report.path = other.report.path → violation.position = other.position := by
      intro violation hviolation other hother hsame
      have hfirst := (hviolated violation).mp hviolation
      have hsecond := (hviolated other).mp hother
      rw [hpath hfirst, hpath hsecond] at hsame
      exact written_apart check camel hformed hapart hfirst hsecond hsame
    refine ⟨value.violations check camel, nodup_violations check camel hformed honce, hviolated,
      validate_eq check camel hformed, hinj, ?_⟩
    intro entry hentry
    obtain ⟨error, herror, hmessages⟩ := mem_fieldErrors _ hentry
    obtain ⟨found, hfound, rfl⟩ := mem_map.mp herror
    refine ⟨found.position, hmessages.trans ?_⟩
    rw [filter_map, map_map]
    have hsame : (value.violations check camel).filter
        ((fun other : ValidationError => decide (other.path = found.report.path)) ∘
          Violation.report) =
        (value.violations check camel).filter fun other => other.position = found.position := by
      refine filter_congr fun other hother => decide_eq_decide.mpr ?_
      refine ⟨hinj other hother found hfound, fun hposition => ?_⟩
      rw [hpath ((hviolated other).mp hother), hpath ((hviolated found).mp hfound), hposition]
    rw [hsame]
    rfl

end

def length (value : String) (min max : Option ℕ) : Option ValidationError :=
  match min.filter (value.length < ·) with
  | some min => some ⟨[], "length", "must be at least " ++ toString min ++ " character(s)"⟩
  | none => (max.filter (· < value.length)).map fun max =>
      ⟨[], "length", "must be at most " ++ toString max ++ " character(s)"⟩

def lengthCheck : Rule → Val String → Option ValidationError
  | .length min max, .scalar text => length text min max
  | _, _ => none

theorem length_path {value : String} {min max : Option ℕ} {error : ValidationError}
    (h : length value min max = some error) : error.path = [] := by
  unfold length at h
  split at h
  · rw [← Option.some.inj h]
  · obtain ⟨_, -, rfl⟩ := Option.map_eq_some_iff.mp h
    rfl

theorem lengthCheck_path (rule : Rule) (held : Val String) (error : ValidationError)
    (h : lengthCheck rule held = some error) : error.path = [] := by
  unfold lengthCheck at h
  split at h
  · exact length_path h
  · cases h

def named (label : String) (rules : List Rule) (value : Val String) : Field × Val String :=
  (⟨label, .scalar .string, rules, false, none⟩, value)

def item (text : String) : Val String :=
  .model [named "f" [.length (some 1) none] (.scalar text)]

def row (items : List (Val String)) (text : String) : Val String :=
  .model [named "v" [.dive] (.sequence items), named "f" [.length (some 1) none] (.scalar text)]

theorem plain_v : Plain "v".toList := ⟨by decide, by decide⟩

theorem plain_f : Plain "f".toList := ⟨by decide, by decide⟩

theorem item_formed (text : String) : Formed false (item text) :=
  .model (nodup_singleton _) (forall_mem_singleton.mpr plain_f)
    (forall_mem_singleton.mpr (.scalar text))

theorem row_formed (items : List (Val String)) (text : String)
    (h : ∀ item ∈ items, Formed false item) : Formed false (row items text) := by
  have hlabels : ["v", "f"].Nodup := by decide
  exact .model hlabels
    (forall_mem_cons.mpr ⟨plain_v, forall_mem_singleton.mpr plain_f⟩)
    (forall_mem_cons.mpr ⟨.sequence h, forall_mem_singleton.mpr (.scalar text)⟩)

def rows (key key' : String) : Val String :=
  .mapping [(key, row [item ""] "x"), (key', row [] "")]

theorem rows_formed (key key' : String) (h : key ≠ key') : Formed false (rows key key') :=
  .mapping (nodup_cons.mpr ⟨fun hmem => h (mem_singleton.mp hmem), nodup_singleton _⟩)
    (forall_mem_cons.mpr ⟨row_formed _ _ (forall_mem_singleton.mpr (item_formed "")),
      forall_mem_singleton.mpr (row_formed _ _ nofun)⟩)

theorem located_rows : Located lengthCheck false (rows "home" "work") := by
  have hformed := rows_formed "home" "work" (by decide)
  refine (located_iff lengthCheck false hformed lengthCheck_path).mpr ⟨?_, ?_⟩
  · intro hdoubled
    exact not_nodup_violations _ _ hformed hdoubled (by decide)
  · intro violation other hfirst hsecond hconfused
    have hwritten : ∀ violation ∈ (rows "home" "work").violations lengthCheck false,
        ∀ other ∈ (rows "home" "work").violations lengthCheck false,
          written violation.position = written other.position →
            violation.position = other.position := by decide
    exact hconfused.ne (hwritten violation ((mem_violations _ _ hformed violation).mpr hfirst) other
      ((mem_violations _ _ hformed other).mpr hsecond) hconfused.written_eq)

/-- A key that spells what comes below another one. -/
theorem merged_rows : ¬ Located lengthCheck false (rows "a" "a].v[0") := by
  have hformed := rows_formed "a" "a].v[0" (by decide)
  rintro ⟨violations, -, hmem, -, hinj, -⟩
  have hviolation (violation : Violation)
      (h : violation ∈ (rows "a" "a].v[0").violations lengthCheck false) : violation ∈ violations :=
    (hmem violation).mpr ((mem_violations _ _ hformed violation).mp h)
  have hsame := hinj
    ⟨[.key "a".toList, .name "v".toList, .index 0, .name "f".toList], 0,
      ⟨[], "length", "must be at least 1 character(s)"⟩⟩ (hviolation _ (by decide))
    ⟨[.key "a].v[0".toList, .name "f".toList], 0,
      ⟨[], "length", "must be at least 1 character(s)"⟩⟩ (hviolation _ (by decide)) (by decide)
  exact absurd hsame (by decide)

end Stakit.ModelValidation
