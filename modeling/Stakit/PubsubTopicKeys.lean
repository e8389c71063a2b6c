import Mathlib.Data.List.Induction
import Stakit.PubsubTopic

set_option autoImplicit false

namespace Stakit.PubsubTopic
open RouterError List

inductive Scalar where
  | string (text : String)
  | number (number : NumberText)
  | bool (flag : Bool)

def Scalar.value : Scalar → Value
  | .string text => .string text
  | .number digits => .number digits
  | .bool flag => .bool flag

/-- A struct key: its fields in declaration order, no name twice. -/
structure Fields where
  entries : List (String × Scalar)
  distinct : (entries.map Prod.fst).Nodup

inductive Key where
  | fields (fields : Fields)
  | scalar (scalar : Scalar)

def fieldValues (entries : List (String × Scalar)) : List (String × Value) :=
  entries.map fun entry => (entry.1, entry.2.value)

def Key.value : Key → Value
  | .fields struct => .object (fieldValues struct.entries)
  | .scalar bare => bare.value

def scalarText : Scalar → List Char
  | .string text => pushEscaped text
  | .number number => '#' :: number.text.toList
  | .bool flag => '#' :: (if flag then "true" else "false").toList

def fieldsText : List (String × Scalar) → List Char
  | [] => []
  | (field, scalar) :: rest =>
    ':' :: (pushEscaped field ++ '=' :: (scalarText scalar ++ fieldsText rest))

def keyText : Key → List Char
  | .fields fields => fieldsText fields.entries
  | .scalar scalar => ':' :: scalarText scalar

variable (text : String) (entries : List (String × Scalar)) (scalar : Scalar)

theorem pushScalar_value : pushScalar scalar.value = .ok (scalarText scalar) := by
  cases scalar <;> rfl

theorem pushFields_values : pushFields (fieldValues entries) = .ok (fieldsText entries) := by
  induction entries with
  | nil => rfl
  | cons entry rest ih =>
    change pushFields ((entry.1, entry.2.value) :: fieldValues rest) = _
    rw [pushFields, pushScalar_value, ih]
    rfl

theorem indexMap_snoc (fields : List (String × Value)) (field : String × Value) :
    indexMap (fields ++ [field]) = if (indexMap fields).any (fun old => old.1 = field.1) then
        (indexMap fields).map (fun old => if old.1 = field.1 then field else old)
      else indexMap fields ++ [field] := by
  unfold indexMap
  rw [foldl_append]
  rfl

theorem indexMap_of_nodup {fields : List (String × Value)}
    (hnodup : (fields.map Prod.fst).Nodup) : indexMap fields = fields := by
  induction fields using List.reverseRecOn with
  | nil => rfl
  | append_singleton fields field ih =>
    rw [map_append, nodup_append] at hnodup
    obtain ⟨hfields, _, hdisjoint⟩ := hnodup
    have hfresh : ¬ (fields.any (fun old => old.1 = field.1)) = true := by
      rw [any_eq_true]
      rintro ⟨old, hold, hname⟩
      have hin : old.1 ∈ fields.map Prod.fst := mem_map_of_mem hold
      exact hdisjoint old.1 hin field.1 (by simp) (by simpa using hname)
    rw [indexMap_snoc, ih hfields, if_neg hfresh]

theorem pushKey_value (key : Key) : pushKey key.value = .ok (keyText key) := by
  cases key with
  | fields fields =>
    have hnodup : ((fieldValues fields.entries).map Prod.fst).Nodup := by
      unfold fieldValues
      rw [map_map]
      exact fields.distinct
    change pushFields (indexMap (fieldValues fields.entries)) = _
    rw [indexMap_of_nodup hnodup, pushFields_values]
    rfl
  | scalar scalar =>
    have hscalar := pushScalar_value scalar
    cases scalar <;>
      · simp only [Key.value, Scalar.value, pushKey] at hscalar ⊢
        rw [hscalar]
        rfl

theorem escapeChar_no_separator (character : Char) {separator : Char}
    (hseparator : separator = ':' ∨ separator = '=' ∨ separator = '#') :
    separator ∉ escapeChar character := by
  unfold escapeChar
  split_ifs with h1 h2 h3 h4
  · rcases hseparator with rfl | rfl | rfl <;> decide
  · rcases hseparator with rfl | rfl | rfl <;> decide
  · rcases hseparator with rfl | rfl | rfl <;> decide
  · rcases hseparator with rfl | rfl | rfl <;> decide
  · rw [mem_singleton]
    rintro rfl
    rcases hseparator with h | h | h
    · exact h2 h
    · exact h3 h
    · exact h4 h

theorem pushEscaped_no_separator (separator : Char)
    (hseparator : separator = ':' ∨ separator = '=' ∨ separator = '#') :
    separator ∉ pushEscaped text := by
  unfold pushEscaped
  rw [mem_flatMap]
  rintro ⟨character, _, h⟩
  exact escapeChar_no_separator character hseparator h

theorem pushEscaped_no_equals : '=' ∉ pushEscaped text :=
  pushEscaped_no_separator text '=' (.inr (.inl rfl))

theorem number_avoids (number : NumberText) (character : Char)
    (hchar : numberChar character = false) : character ∉ number.text.toList := by
  intro hin
  have h := number.chars character hin
  rw [hchar] at h
  exact absurd h (by decide)

theorem scalarText_no_colon : ':' ∉ scalarText scalar := by
  cases scalar with
  | string text => exact pushEscaped_no_colon text
  | number number =>
    have h := number_avoids number ':' (by decide)
    simpa [scalarText] using h
  | bool flag => cases flag <;> decide

theorem scalarText_no_equals : '=' ∉ scalarText scalar := by
  cases scalar with
  | string text => exact pushEscaped_no_equals text
  | number number =>
    have h := number_avoids number '=' (by decide)
    simpa [scalarText] using h
  | bool flag => cases flag <;> decide

theorem pushEscaped_ne_tagged (rest : List Char) : pushEscaped text ≠ '#' :: rest := by
  intro h
  exact pushEscaped_no_separator text '#' (.inr (.inr rfl)) (h ▸ mem_cons_self)

theorem boolText_ne_number (flag : Bool) (number : NumberText) :
    (if flag then "true" else "false").toList ≠ number.text.toList := by
  intro h
  cases flag with
  | false => exact number_avoids number 'f' (by decide) (h ▸ by decide)
  | true => exact number_avoids number 't' (by decide) (h ▸ by decide)

theorem scalarText_inj (scalar' : Scalar) (h : scalarText scalar = scalarText scalar') :
    scalar = scalar' := by
  cases scalar with
  | string text =>
    cases scalar' with
    | string text' => rw [pushEscaped_inj text text' h]
    | number number' | bool flag' => exact absurd h (pushEscaped_ne_tagged text _)
  | number number =>
    cases scalar' with
    | string text' => exact absurd h.symm (pushEscaped_ne_tagged text' _)
    | number number' =>
      have htext : number.text = number'.text := String.toList_inj.mp (List.cons.inj h).2
      obtain ⟨text, _⟩ := number
      obtain ⟨text', _⟩ := number'
      cases htext
      rfl
    | bool flag' => exact absurd (List.cons.inj h).2.symm (boolText_ne_number flag' number)
  | bool flag =>
    cases scalar' with
    | string text' => exact absurd h.symm (pushEscaped_ne_tagged text' _)
    | number number' => exact absurd (List.cons.inj h).2 (boolText_ne_number flag number')
    | bool flag' =>
      cases flag <;> cases flag'
      · rfl
      · exact absurd h (by decide)
      · exact absurd h (by decide)
      · rfl

theorem fieldsText_head : fieldsText entries = [] ∨ ∃ rest, fieldsText entries = ':' :: rest := by
  cases entries with
  | nil => exact .inl rfl
  | cons entry rest => exact .inr ⟨_, rfl⟩

theorem scalar_split (scalar' : Scalar) (entries entries' : List (String × Scalar))
    (h : scalarText scalar ++ fieldsText entries = scalarText scalar' ++ fieldsText entries') :
    scalarText scalar = scalarText scalar' ∧ fieldsText entries = fieldsText entries' := by
  have hscalar : scalarText scalar = scalarText scalar' := by
    rw [← takeWhile_piece ':' _ _ (scalarText_no_colon scalar) (fieldsText_head entries), h]
    exact takeWhile_piece ':' _ _ (scalarText_no_colon scalar') (fieldsText_head entries')
  rw [hscalar] at h
  exact ⟨hscalar, append_cancel_left h⟩

theorem fieldsText_inj (entries' : List (String × Scalar))
    (h : fieldsText entries = fieldsText entries') : entries = entries' := by
  induction entries generalizing entries' with
  | nil =>
    cases entries' with
    | nil => rfl
    | cons entry' rest' => exact absurd h (cons_ne_nil _ _).symm
  | cons entry rest ih =>
    cases entries' with
    | nil => exact absurd h (cons_ne_nil _ _)
    | cons entry' rest' =>
      obtain ⟨field, scalar⟩ := entry
      obtain ⟨field', scalar'⟩ := entry'
      simp only [fieldsText, List.cons.injEq, true_and] at h
      have hname : pushEscaped field = pushEscaped field' := by
        rw [← takeWhile_piece '=' _ _ (pushEscaped_no_equals field) (.inr ⟨_, rfl⟩), h]
        exact takeWhile_piece '=' _ _ (pushEscaped_no_equals field') (.inr ⟨_, rfl⟩)
      rw [hname] at h
      have htail := (List.cons.inj (append_cancel_left h)).2
      obtain ⟨hscalar, hrest⟩ := scalar_split scalar scalar' rest rest' htail
      rw [pushEscaped_inj field field' hname, scalarText_inj scalar scalar' hscalar, ih rest' hrest]

theorem fieldsText_ne_scalar : fieldsText entries ≠ ':' :: scalarText scalar := by
  intro h
  cases entries with
  | nil => exact absurd h (cons_ne_nil _ _).symm
  | cons entry rest =>
    obtain ⟨field, value⟩ := entry
    simp only [fieldsText, List.cons.injEq, true_and] at h
    exact scalarText_no_equals scalar (h ▸ by simp)

theorem keyText_inj {key key' : Key} (h : keyText key = keyText key') : key = key' := by
  cases key with
  | fields fields =>
    cases key' with
    | fields fields' =>
      have hentries := fieldsText_inj _ _ h
      obtain ⟨entries, _⟩ := fields
      obtain ⟨entries', _⟩ := fields'
      cases hentries
      rfl
    | scalar scalar' => exact absurd h (fieldsText_ne_scalar _ scalar')
  | scalar scalar =>
    cases key' with
    | fields fields' => exact absurd h.symm (fieldsText_ne_scalar _ scalar)
    | scalar scalar' => rw [scalarText_inj scalar scalar' (List.cons.inj h).2]

theorem topicOf_key_inj {name : String} {key key' : Key} {topic : Topic}
    (h : topicOf name key.value = .ok topic) (h' : topicOf name key'.value = .ok topic) :
    key = key' := by
  obtain ⟨text, htext, hlist⟩ := topicOf_toList h
  obtain ⟨text', htext', hlist'⟩ := topicOf_toList h'
  rw [pushKey_value, Except.ok.injEq] at htext htext'
  subst htext htext'
  exact keyText_inj (append_cancel_left (hlist.symm.trans hlist'))

section
variable (reader : KeyReader)

/-- The same scalar, but for two numbers that are read as one. -/
def Scalar.Alike : Scalar → Scalar → Prop
  | .number digits, .number digits' => reader.number digits = reader.number digits'
  | scalar, scalar' => scalar = scalar'

def Key.Alike : Key → Key → Prop
  | .fields struct, .fields struct' =>
    List.Forall₂ (fun entry entry' => entry.1 = entry'.1 ∧ Scalar.Alike reader entry.2 entry'.2)
      struct.entries struct'.entries
  | .scalar bare, .scalar bare' => Scalar.Alike reader bare bare'
  | _, _ => False

variable {reader} {scalar scalar' : Scalar} {entries entries' : List (String × Scalar)}
  {key key' : Key} {value : Value} {values : List (String × Value)}

theorem readNumber_ok {number : NumberText} (h : readValue reader (.number number) = .ok value) :
    ∃ read, reader.number number = .ok read ∧ value = .number read := by
  cases hread : reader.number number with
  | error error => rw [readValue, hread] at h; cases h
  | ok read =>
    rw [readValue, hread] at h
    exact ⟨read, rfl, (Except.ok.inj h).symm⟩

theorem readValue_scalar (h : readValue reader scalar.value = .ok value) :
    ∃ read : Scalar, value = read.value := by
  cases scalar with
  | string text => exact ⟨.string text, (Except.ok.inj h).symm⟩
  | bool flag => exact ⟨.bool flag, (Except.ok.inj h).symm⟩
  | number number =>
    obtain ⟨read, -, rfl⟩ := readNumber_ok h
    exact ⟨.number read, rfl⟩

theorem alike_of_read (h : readValue reader scalar.value = .ok value)
    (h' : readValue reader scalar'.value = .ok value) : Scalar.Alike reader scalar scalar' := by
  cases scalar with
  | string text =>
    cases h
    cases scalar' with
    | string text' => exact congrArg Scalar.string (Value.string.inj (Except.ok.inj h')).symm
    | number number' => obtain ⟨read', -, heq⟩ := readNumber_ok h'; cases heq
    | bool flag' => cases h'
  | bool flag =>
    cases h
    cases scalar' with
    | string text' => cases h'
    | number number' => obtain ⟨read', -, heq⟩ := readNumber_ok h'; cases heq
    | bool flag' => exact congrArg Scalar.bool (Value.bool.inj (Except.ok.inj h')).symm
  | number number =>
    obtain ⟨read, hread, rfl⟩ := readNumber_ok h
    cases scalar' with
    | string text' => cases h'
    | number number' =>
      obtain ⟨read', hread', heq⟩ := readNumber_ok h'
      cases heq
      exact hread.trans hread'.symm
    | bool flag' => cases h'

theorem readValue_alike (h : Scalar.Alike reader scalar scalar') :
    readValue reader scalar.value = readValue reader scalar'.value := by
  cases scalar <;> cases scalar'
  case number.number number number' =>
    exact congrArg (Except.map Value.number) h
  all_goals exact congrArg (fun scalar : Scalar => readValue reader scalar.value) h

theorem readFields_cons {entry : String × Scalar}
    (h : readFields reader (fieldValues (entry :: entries)) = .ok values) :
    ∃ read rest, readValue reader entry.2.value = .ok read ∧
      readFields reader (fieldValues entries) = .ok rest ∧ values = (entry.1, read) :: rest := by
  change readFields reader ((entry.1, entry.2.value) :: fieldValues entries) = _ at h
  rw [readFields] at h
  cases hread : readValue reader entry.2.value with
  | error error => rw [hread] at h; cases h
  | ok read =>
    cases hrest : readFields reader (fieldValues entries) with
    | error error => rw [hread, hrest] at h; cases h
    | ok rest =>
      rw [hread, hrest] at h
      exact ⟨read, rest, rfl, rfl, (Except.ok.inj h).symm⟩

theorem readFields_values (h : readFields reader (fieldValues entries) = .ok values) :
    ∃ read, values = fieldValues read ∧ read.map Prod.fst = entries.map Prod.fst := by
  induction entries generalizing values with
  | nil => exact ⟨[], (Except.ok.inj h).symm, rfl⟩
  | cons entry entries ih =>
    obtain ⟨value, rest, hvalue, hrest, rfl⟩ := readFields_cons h
    obtain ⟨read, rfl⟩ := readValue_scalar hvalue
    obtain ⟨reads, rfl, hnames⟩ := ih hrest
    exact ⟨(entry.1, read) :: reads, rfl, congrArg (entry.1 :: ·) hnames⟩

theorem fields_alike_of_read (h : readFields reader (fieldValues entries) = .ok values)
    (h' : readFields reader (fieldValues entries') = .ok values) :
    List.Forall₂ (fun entry entry' => entry.1 = entry'.1 ∧
      Scalar.Alike reader entry.2 entry'.2) entries entries' := by
  induction entries generalizing entries' values with
  | nil =>
    cases Except.ok.inj h
    cases entries' with
    | nil => exact .nil
    | cons entry' entries' =>
      obtain ⟨_, _, -, -, heq⟩ := readFields_cons h'
      cases heq
  | cons entry entries ih =>
    obtain ⟨value, rest, hvalue, hrest, rfl⟩ := readFields_cons h
    cases entries' with
    | nil => cases h'
    | cons entry' entries' =>
      obtain ⟨value', rest', hvalue', hrest', heq⟩ := readFields_cons h'
      obtain ⟨⟨hname, rfl⟩, rfl⟩ : (entry.1 = entry'.1 ∧ value = value') ∧ rest = rest' := by
        simpa using heq
      exact .cons ⟨hname, alike_of_read hvalue hvalue'⟩ (ih hrest hrest')

theorem readFields_alike (h : List.Forall₂ (fun entry entry' => entry.1 = entry'.1 ∧
    Scalar.Alike reader entry.2 entry'.2) entries entries') :
    readFields reader (fieldValues entries) = readFields reader (fieldValues entries') := by
  induction h with
  | nil => rfl
  | cons hentry _ ih =>
    change readFields reader ((_, Scalar.value _) :: fieldValues _) =
      readFields reader ((_, Scalar.value _) :: fieldValues _)
    rw [readFields, readFields, hentry.1, readValue_alike hentry.2, ih]

theorem readKey_fields (fields : Fields)
    (h : readKey reader (Key.fields fields).value = .ok value) :
    ∃ values, readFields reader (fieldValues fields.entries) = .ok values ∧
      value = .object values := by
  cases hread : readFields reader (fieldValues fields.entries) with
  | error error => rw [Key.value, readKey, hread] at h; cases h
  | ok values =>
    rw [Key.value, readKey, hread] at h
    exact ⟨values, rfl, (Except.ok.inj h).symm⟩

theorem readKey_scalar (scalar : Scalar) :
    readKey reader (Key.scalar scalar).value = readValue reader scalar.value := by
  cases scalar <;> rfl

theorem readKey_value (h : readKey reader key.value = .ok value) :
    ∃ read : Key, value = read.value := by
  cases key with
  | fields fields =>
    obtain ⟨values, hvalues, rfl⟩ := readKey_fields fields h
    obtain ⟨read, rfl, hnames⟩ := readFields_values hvalues
    exact ⟨.fields ⟨read, hnames ▸ fields.distinct⟩, rfl⟩
  | scalar scalar =>
    rw [readKey_scalar] at h
    obtain ⟨read, rfl⟩ := readValue_scalar h
    exact ⟨.scalar read, rfl⟩

theorem key_alike_of_read (h : readKey reader key.value = .ok value)
    (h' : readKey reader key'.value = .ok value) : Key.Alike reader key key' := by
  have hmixed : ∀ (fields : Fields) (scalar : Scalar),
      readKey reader (Key.fields fields).value = .ok value →
        readKey reader (Key.scalar scalar).value ≠ .ok value := by
    intro fields scalar hfields hscalar
    obtain ⟨values, -, rfl⟩ := readKey_fields fields hfields
    rw [readKey_scalar] at hscalar
    obtain ⟨read, hread⟩ := readValue_scalar hscalar
    cases read <;> cases hread
  cases key with
  | fields fields =>
    cases key' with
    | fields fields' =>
      obtain ⟨values, hvalues, rfl⟩ := readKey_fields fields h
      obtain ⟨values', hvalues', heq⟩ := readKey_fields fields' h'
      cases heq
      exact fields_alike_of_read hvalues hvalues'
    | scalar scalar' => exact absurd h' (hmixed fields scalar' h)
  | scalar scalar =>
    cases key' with
    | fields fields' => exact absurd h (hmixed fields' scalar h')
    | scalar scalar' =>
      rw [readKey_scalar] at h h'
      exact alike_of_read h h'

theorem readKey_alike (h : Key.Alike reader key key') :
    readKey reader key.value = readKey reader key'.value := by
  cases key with
  | fields fields =>
    cases key' with
    | fields fields' => exact congrArg (Except.map Value.object) (readFields_alike h)
    | scalar scalar' => exact h.elim
  | scalar scalar =>
    cases key' with
    | fields fields' => exact h.elim
    | scalar scalar' =>
      rw [readKey_scalar, readKey_scalar]
      exact readValue_alike h

theorem encodeTopic_read {name : String} {topic : Topic}
    (h : encodeTopic reader name key.value = .ok topic) :
    ∃ read : Key, readKey reader key.value = .ok read.value ∧
      topicOf name read.value = .ok topic := by
  cases hread : readKey reader key.value with
  | error error => rw [encodeTopic, hread] at h; cases h
  | ok value =>
    obtain ⟨read, rfl⟩ := readKey_value hread
    rw [encodeTopic, hread] at h
    exact ⟨read, rfl, h⟩

end

/-- Two channels never share a topic, two keys of one channel share theirs only where
they differ in numbers that are read as one, and only the reserved names reach the
built-in topics. -/
theorem encodeTopic_injective_iff (reader : KeyReader) :
    (∀ (name name' : String) (key key' : Key) (topic topic' : Topic),
      encodeTopic reader name key.value = .ok topic →
      encodeTopic reader name' key'.value = .ok topic' →
        ((topic = topic' → name = name' ∧ key = key') ↔
          (name = name' → Key.Alike reader key key' → key = key'))) ∧
    ∀ (name : String) (key : Key) (topic : Topic), name ∉ reservedNames →
      encodeTopic reader name key.value = .ok topic →
        ∀ user id, userTopic user ≠ .ok topic ∧ deviceTopic user id ≠ .ok topic := by
  constructor
  · intro name name' key key' topic topic' h h'
    constructor
    · rintro hsame rfl halike
      have htopics : topic = topic' := by
        rw [encodeTopic, readKey_alike halike] at h
        exact Except.ok.inj (h.symm.trans h')
      exact (hsame htopics).2
    · rintro hkeys rfl
      obtain ⟨read, hread, htopic⟩ := encodeTopic_read h
      obtain ⟨read', hread', htopic'⟩ := encodeTopic_read h'
      obtain rfl := topicOf_name_inj htopic htopic'
      obtain rfl := topicOf_key_inj htopic htopic'
      exact ⟨rfl, hkeys rfl (key_alike_of_read hread hread')⟩
  · intro name key topic hname h user id
    obtain ⟨read, -, htopic⟩ := encodeTopic_read h
    have hchannels : ∀ other ∈ [name], other ∉ reservedNames := by
      intro other hother
      rw [mem_singleton] at hother
      rwa [hother]
    exact ⟨channel_topic_ne_userTopic ⟨[name], hchannels⟩ mem_cons_self htopic,
      channel_topic_ne_deviceTopic ⟨[name], hchannels⟩ mem_cons_self htopic⟩

def rounded : NumberText := ⟨"1.8446744073709552e19", all_eq_true.mp (by decide)⟩

/-- Whole numbers up to `u64::MAX` are kept; past it a number is read as an `f64`, here
the two next ones. -/
def doubles : KeyReader where
  number number :=
    if number.text = "18446744073709551616" ∨ number.text = "18446744073709551617" then .ok rounded
    else .ok number
  array items := .ok items
  object fields := .ok (.object fields)

def numberKey (text : String) (chars : text.toList.all numberChar = true) : Key :=
  .fields ⟨[("id", .number ⟨text, all_eq_true.mp chars⟩)], by simp⟩

theorem encodeTopic_injective_iff_ids : (("room:id=7" = "room:id=#7" → "room" = "room" ∧
        Key.fields ⟨[("id", .string "7")], by simp⟩ = numberKey "7" (by decide)) ↔
      ("room" = "room" → Key.Alike doubles (.fields ⟨[("id", .string "7")], by simp⟩)
        (numberKey "7" (by decide)) →
          Key.fields ⟨[("id", .string "7")], by simp⟩ = numberKey "7" (by decide))) ∧
    ∀ user id, userTopic user ≠ .ok "room:id=#7" ∧ deviceTopic user id ≠ .ok "room:id=#7" := by
  have htext : encodeTopic doubles "room"
      (Key.fields ⟨[("id", .string "7")], by simp⟩).value = .ok "room:id=7" := by decide
  have hnumber : encodeTopic doubles "room" (numberKey "7" (by decide)).value =
      .ok "room:id=#7" := by decide
  exact ⟨(encodeTopic_injective_iff doubles).1 _ _ _ _ _ _ htext hnumber,
    (encodeTopic_injective_iff doubles).2 _ _ _ (by decide) hnumber⟩

/-- The ids `2^64` and `2^64 + 1` share a topic. -/
theorem encodeTopic_merges_ids : ¬ ∀ (name name' : String) (key key' : Key) (topic : Topic),
    encodeTopic doubles name key.value = .ok topic →
      encodeTopic doubles name' key'.value = .ok topic → name = name' ∧ key = key' := by
  intro h
  have hfirst : encodeTopic doubles "room"
      (numberKey "18446744073709551616" (by decide)).value =
        .ok "room:id=#1.8446744073709552e19" := by decide
  have hsecond : encodeTopic doubles "room"
      (numberKey "18446744073709551617" (by decide)).value =
        .ok "room:id=#1.8446744073709552e19" := by decide
  have hkeys := (h _ _ _ _ _ hfirst hsecond).2
  injection hkeys with hfields
  injection hfields with hentries
  simp at hentries

end Stakit.PubsubTopic
