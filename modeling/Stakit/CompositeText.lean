import Stakit.ColumnValues
import Stakit.SchemaAttributes

set_option autoImplicit false

namespace Stakit.CompositeText
open ColumnValues List
open Orm (ValueKind)

variable {L : Libraries}

def scalarText : Value L → String
  | .timestamptz t => L.rfc3339.text t
  | .naiveDateTime t => L.dateTime.text t
  | .date d => L.date.text d
  | .naiveTime t => L.time.text t
  | .json j => L.document.text j
  | _ => ""

def needsQuote (c : Char) : Bool :=
  c ∈ [',', '(', ')', '"', '\\'] || SchemaAttributes.isWhitespace c

def doubled (c : Char) : List Char := if c = '"' ∨ c = '\\' then [c, c] else [c]

def encodeText (text : List Char) : List Char :=
  if text = [] ∨ text.any needsQuote then '"' :: text.flatMap doubled ++ ['"'] else text

def encodeField : Value L → List Char
  | .null _ => []
  | .bool b => if b then ['t'] else ['f']
  | .i16 n => (decimal n.toInt).toList
  | .i32 n => (decimal n.toInt).toList
  | .i64 n => (decimal n.toInt).toList
  | .f32 n => (L.f32.text n).toList
  | .f64 n => (L.f64.text n).toList
  | .uuid u => (L.uuid.text u).toList
  | .text s => encodeText s.toList
  | other => encodeText (scalarText other).toList

/-- The texts of the fields, between commas. -/
def joined : List (List Char) → List Char
  | [] => []
  | first :: rest => first ++ rest.flatMap (',' :: ·)

def encode (fields : List (Value L)) : String :=
  String.ofList ('(' :: joined (fields.map encodeField) ++ [')'])

def finishField (buffer : List Char) (wasQuoted : Bool) : Option String :=
  if !wasQuoted && buffer.isEmpty then none else some (String.ofList buffer)

/-- The loop over the characters inside the parentheses. -/
def scan (inQuote wasQuoted : Bool) (buffer : List Char) : List Char → List (Option String)
  | [] => [finishField buffer wasQuoted]
  | c :: rest =>
    if c = '\\' then
      match rest with
      | next :: rest => scan inQuote wasQuoted (buffer ++ [next]) rest
      | [] => [finishField buffer wasQuoted]
    else if inQuote then
      if c = '"' then
        match rest with
        | '"' :: rest => scan true wasQuoted (buffer ++ ['"']) rest
        | rest => scan false wasQuoted buffer rest
      else scan true wasQuoted (buffer ++ [c]) rest
    else if c = ',' then finishField buffer wasQuoted :: scan false false [] rest
    else if c = '"' then scan true true buffer rest
    else scan false wasQuoted (buffer ++ [c]) rest

/-- What stands between the parentheses. -/
def inside : List Char → Option (List Char)
  | '(' :: rest => if rest.getLast? = some ')' then some rest.dropLast else none
  | _ => none

def parse (L : Libraries) (text : String) (expected : ℕ) :
    Except (Error L) (List (Option String)) :=
  match inside text.toList with
  | none => .error (.decode "composite: missing surrounding parentheses")
  | some inner =>
    let fields := scan false false [] inner
    if fields.length ≠ expected then
      .error (.decode s!"composite: expected {expected} fields, got {fields.length}")
    else .ok fields

section
variable (inQuote wasQuoted : Bool) (buffer rest : List Char)

theorem scan_nil : scan inQuote wasQuoted buffer [] = [finishField buffer wasQuoted] := rfl

theorem scan_cons (c : Char) : scan inQuote wasQuoted buffer (c :: rest) =
    if c = '\\' then
      match rest with
      | next :: rest => scan inQuote wasQuoted (buffer ++ [next]) rest
      | [] => [finishField buffer wasQuoted]
    else if inQuote then
      if c = '"' then
        match rest with
        | '"' :: rest => scan true wasQuoted (buffer ++ ['"']) rest
        | rest => scan false wasQuoted buffer rest
      else scan true wasQuoted (buffer ++ [c]) rest
    else if c = ',' then finishField buffer wasQuoted :: scan false false [] rest
    else if c = '"' then scan true true buffer rest
    else scan false wasQuoted (buffer ++ [c]) rest := by
  rw [scan.eq_def]

theorem scan_escaped (next : Char) : scan inQuote wasQuoted buffer ('\\' :: next :: rest) =
    scan inQuote wasQuoted (buffer ++ [next]) rest := by
  rw [scan_cons, if_pos rfl]

theorem scan_doubled : scan true wasQuoted buffer ('"' :: '"' :: rest) =
    scan true wasQuoted (buffer ++ ['"']) rest := rfl

theorem scan_inner {c : Char} (hslash : c ≠ '\\') (hquote : c ≠ '"') :
    scan true wasQuoted buffer (c :: rest) = scan true wasQuoted (buffer ++ [c]) rest := by
  rw [scan_cons]
  simp only [if_neg hslash, if_neg hquote, if_true]

theorem scan_comma : scan false wasQuoted buffer (',' :: rest) =
    finishField buffer wasQuoted :: scan false false [] rest := by
  rw [scan_cons]
  rfl

theorem scan_open : scan false wasQuoted buffer ('"' :: rest) = scan true true buffer rest := by
  rw [scan_cons]
  rfl

theorem scan_outer {c : Char} (hslash : c ≠ '\\') (hcomma : c ≠ ',') (hquote : c ≠ '"') :
    scan false wasQuoted buffer (c :: rest) = scan false wasQuoted (buffer ++ [c]) rest := by
  rw [scan_cons]
  simp only [if_neg hslash, if_neg hcomma, if_neg hquote, Bool.false_eq_true, if_false]

def Ends (rest : List Char) : Prop := ∀ c tail, rest = c :: tail → c = ','

theorem scan_close (hrest : Ends rest) :
    scan true wasQuoted buffer ('"' :: rest) = scan false wasQuoted buffer rest := by
  cases rest with
  | nil => rfl
  | cons c tail =>
    cases hrest c tail rfl
    rfl

end

/-- The characters of a field: none for a missing value, else its text. -/
def written (field : Option String) : List Char := field.elim [] fun text => encodeText text.toList

theorem scan_quoted (text : List Char) (buffer : List Char) {rest : List Char} (hrest : Ends rest) :
    scan true true buffer (text.flatMap doubled ++ '"' :: rest) =
      scan false true (buffer ++ text) rest := by
  induction text generalizing buffer with
  | nil => rw [flatMap_nil, nil_append, append_nil, scan_close _ _ _ hrest]
  | cons c text ih =>
    have hstep (rest : List Char) : scan true true buffer (doubled c ++ rest) =
        scan true true (buffer ++ [c]) rest := by
      unfold doubled
      by_cases hc : c = '"' ∨ c = '\\'
      · rw [if_pos hc]
        rcases hc with rfl | rfl
        · exact scan_doubled true buffer rest
        · exact scan_escaped true true buffer rest '\\'
      · rw [if_neg hc, singleton_append]
        obtain ⟨hquote, hslash⟩ := not_or.mp hc
        exact scan_inner true buffer rest hslash hquote
    rw [flatMap_cons, append_assoc, hstep, ih, append_assoc]
    rfl

theorem scan_plain (wasQuoted : Bool) {text : List Char} (htext : text.any needsQuote = false)
    (buffer rest : List Char) :
    scan false wasQuoted buffer (text ++ rest) = scan false wasQuoted (buffer ++ text) rest := by
  induction text generalizing buffer with
  | nil => rw [nil_append, append_nil]
  | cons c text ih =>
    obtain ⟨hc, htext⟩ := Bool.or_eq_false_iff.mp htext
    have hne (d : Char) (hd : needsQuote d = true) : c ≠ d := by
      rintro rfl
      rw [hd] at hc
      cases hc
    rw [cons_append, scan_outer wasQuoted buffer _ (hne '\\' (by decide))
      (hne ',' (by decide)) (hne '"' (by decide)), ih htext, append_assoc]
    rfl

theorem finishField_some (text : String) (wasQuoted : Bool) (h : wasQuoted = true ∨ text ≠ "") :
    finishField text.toList wasQuoted = some text := by
  unfold finishField
  have hnot : ¬(!wasQuoted && text.toList.isEmpty) = true := by
    rw [Bool.and_eq_true_iff, List.isEmpty_iff]
    rintro ⟨hplain, hempty⟩
    rcases h with hquoted | htext
    · rw [hquoted] at hplain
      cases hplain
    · exact htext (String.toList_eq_nil_iff.mp hempty)
  rw [if_neg hnot, String.ofList_toList]

theorem scan_written (field : Option String) (rest : List Char) (hrest : Ends rest) :
    ∃ wasQuoted buffer, finishField buffer wasQuoted = field ∧
      scan false false [] (written field ++ rest) = scan false wasQuoted buffer rest := by
  cases field with
  | none => exact ⟨false, [], rfl, rfl⟩
  | some text =>
    change ∃ wasQuoted buffer, _ ∧ scan false false [] (encodeText text.toList ++ rest) = _
    unfold encodeText
    by_cases hquote : text.toList = [] ∨ text.toList.any needsQuote = true
    · refine ⟨true, text.toList, finishField_some text true (.inl rfl), ?_⟩
      rw [if_pos hquote, cons_append, cons_append, scan_open, append_assoc]
      exact scan_quoted text.toList [] hrest
    · obtain ⟨hsome, hplain⟩ := not_or.mp hquote
      refine ⟨false, text.toList, finishField_some text false (.inr ?_), ?_⟩
      · rintro rfl
        exact hsome rfl
      · rw [if_neg hquote]
        exact scan_plain false (Bool.eq_false_iff.mpr hplain) [] rest

variable (kind : ValueKind) (first : Option String) (rest : List (Option String))

theorem scan_joined :
    scan false false [] (joined ((first :: rest).map written)) = first :: rest := by
  induction rest generalizing first with
  | nil =>
    obtain ⟨wasQuoted, buffer, hfield, hscan⟩ := scan_written first [] nofun
    change scan false false [] (written first ++ []) = _
    rw [hscan, scan_nil, hfield]
  | cons second rest ih =>
    have hends : Ends (',' :: joined ((second :: rest).map written)) := by
      rintro c tail ⟨⟩
      rfl
    obtain ⟨wasQuoted, buffer, hfield, hscan⟩ := scan_written first _ hends
    change scan false false [] (written first ++ ',' :: joined ((second :: rest).map written)) = _
    rw [hscan, scan_comma, hfield, ih]

theorem inside_parens (inner : List Char) : inside ('(' :: inner ++ [')']) = some inner := by
  rw [cons_append, inside, if_pos List.getLast?_concat, dropLast_concat]

theorem parse_written (values : List (Value L))
    (h : values.map encodeField = (first :: rest).map written) :
    parse L (encode values) (rest.length + 1) = .ok (first :: rest) := by
  unfold parse encode
  rw [String.toList_ofList, inside_parens, h]
  dsimp only
  rw [scan_joined]
  exact if_neg fun hlength => hlength rfl

theorem scan_ne_nil (inQuote wasQuoted : Bool) (buffer text : List Char) :
    scan inQuote wasQuoted buffer text ≠ [] := by
  fun_induction scan inQuote wasQuoted buffer text <;> first | assumption | exact cons_ne_nil _ _

/-- A missing value or a text, as the derive hands it to the encoder. -/
def fieldOf (L : Libraries) (kind : ValueKind) : Option String → Value L
  | none => .null kind
  | some text => .text text

theorem encodeField_fieldOf (field : Option String) :
    encodeField (fieldOf L kind field) = written field := by
  cases field <;> rfl

theorem parse_encode : parse L (encode ((first :: rest).map (fieldOf L kind))) (rest.length + 1) =
      .ok (first :: rest) := by
  refine parse_written first rest _ ?_
  rw [map_map]
  exact map_congr_left fun field _ => encodeField_fieldOf kind field

theorem parse_length {text : String} {n : ℕ} {fields : List (Option String)}
    (h : parse L text n = .ok fields) : fields ≠ [] ∧ fields.length = n := by
  unfold parse at h
  split at h
  · cases h
  · dsimp only at h
    split_ifs at h with hlength
    cases h
    exact ⟨scan_ne_nil _ _ _ _, not_not.mp hlength⟩

/-- Fields written as a literal are read back, a missing one and an empty one told apart; and
whatever literal is read, its fields written again are read as the same. -/
theorem literal_round_trip (L : Libraries) (kind : ValueKind) :
    (∀ (first : Option String) (rest : List (Option String)),
      parse L (encode ((first :: rest).map (fieldOf L kind))) (rest.length + 1) =
        .ok (first :: rest)) ∧
    ∀ text n, (∃ error, parse L text n = .error error) ∨ ∃ fields, parse L text n = .ok fields ∧
      fields.length = n ∧ parse L (encode (fields.map (fieldOf L kind))) n = .ok fields := by
  refine ⟨parse_encode kind, fun text n => ?_⟩
  cases hparse : parse L text n with
  | error error => exact .inl ⟨error, rfl⟩
  | ok fields =>
    obtain ⟨hsome, rfl⟩ := parse_length hparse
    obtain ⟨first, rest, rfl⟩ := exists_cons_of_ne_nil hsome
    exact .inr ⟨_, rfl, rfl, parse_encode kind first rest⟩

end Stakit.CompositeText
