import Mathlib.Data.List.DropRight
import Mathlib.Tactic.IntervalCases

set_option autoImplicit false

namespace Stakit.JsonText
open List

inductive Json where
  | null
  | bool (flag : Bool)
  | number (text : List Char)
  | string (points : List ℕ)
  | array (items : List Json)
  | object (fields : List (List ℕ × Json))

mutual

def same : Json → Json → Bool
  | .null, .null => true
  | .bool flag, .bool flag' => flag = flag'
  | .number text, .number text' => text = text'
  | .string points, .string points' => points = points'
  | .array items, .array items' => sameItems items items'
  | .object fields, .object fields' => sameFields fields fields'
  | _, _ => false

def sameItems : List Json → List Json → Bool
  | [], [] => true
  | item :: items, item' :: items' => same item item' && sameItems items items'
  | _, _ => false

def sameFields : List (List ℕ × Json) → List (List ℕ × Json) → Bool
  | [], [] => true
  | (name, value) :: fields, (name', value') :: fields' =>
    name = name' && same value value' && sameFields fields fields'
  | _, _ => false

end

mutual

theorem same_iff (a b : Json) : same a b = true ↔ a = b := by
  cases a with
  | null | bool flag | number text | string points => cases b <;> simp [same]
  | array items => cases b <;> simp [same, sameItems_iff items]
  | object fields => cases b <;> simp [same, sameFields_iff fields]

theorem sameItems_iff (items items' : List Json) : sameItems items items' = true ↔ items = items' := by
  cases items with
  | nil => cases items' <;> simp [sameItems]
  | cons item items => cases items' <;> simp [sameItems, same_iff item, sameItems_iff items]

theorem sameFields_iff (fields fields' : List (List ℕ × Json)) :
    sameFields fields fields' = true ↔ fields = fields' := by
  cases fields with
  | nil => cases fields' <;> simp [sameFields]
  | cons field fields =>
    cases fields' with
    | nil => simp [sameFields]
    | cons field' fields' =>
      obtain ⟨name, value⟩ := field
      obtain ⟨name', value'⟩ := field'
      simp [sameFields, same_iff value, sameFields_iff fields, and_assoc]

end

instance : DecidableEq Json := fun a b => decidable_of_iff _ (same_iff a b)

def isSpace (c : Char) : Bool := c = ' ' || c = '\t' || c = '\n' || c = '\r'

def skipSpace (text : List Char) : List Char := text.dropWhile isSpace

def trim (text : List Char) : List Char := (skipSpace text).rdropWhile isSpace

def points (text : String) : List ℕ := text.toList.map Char.toNat

def hexValue (c : Char) : Option ℕ :=
  if '0' ≤ c ∧ c ≤ '9' then some (c.toNat - '0'.toNat)
  else if 'a' ≤ c ∧ c ≤ 'f' then some (c.toNat - 'a'.toNat + 10)
  else if 'A' ≤ c ∧ c ≤ 'F' then some (c.toNat - 'A'.toNat + 10)
  else none

def hexUnit (a b c d : Char) : Option ℕ :=
  (hexValue a).bind fun a => (hexValue b).bind fun b => (hexValue c).bind fun c =>
    (hexValue d).map fun d => 4096 * a + 256 * b + 16 * c + d

def simpleEscape (c : Char) : Option ℕ :=
  if c = '"' then some 34
  else if c = '\\' then some 92
  else if c = '/' then some 47
  else if c = 'b' then some 8
  else if c = 'f' then some 12
  else if c = 'n' then some 10
  else if c = 'r' then some 13
  else if c = 't' then some 9
  else none

def push (unit : ℕ) (read : List ℕ × List Char) : List ℕ × List Char := (unit :: read.1, read.2)

/-- The units of a string whose opening quote is read, and what follows it. -/
def literal : List Char → Option (List ℕ × List Char)
  | [] => none
  | c :: rest =>
    if c = '"' then some ([], rest)
    else if c = '\\' then
      match rest with
      | [] => none
      | e :: rest =>
        if e = 'u' then
          match rest with
          | a :: b :: c :: d :: rest =>
            (hexUnit a b c d).bind fun unit => (literal rest).map (push unit)
          | _ => none
        else (simpleEscape e).bind fun unit => (literal rest).map (push unit)
    else if c.toNat < 32 then none
    else (literal rest).map (push c.toNat)

def isHigh (unit : ℕ) : Bool := 0xD800 ≤ unit && unit < 0xDC00
def isLow (unit : ℕ) : Bool := 0xDC00 ≤ unit && unit < 0xE000

def join : List ℕ → List ℕ
  | [] => []
  | [unit] => [unit]
  | high :: low :: rest =>
    if isHigh high && isLow low then
      (0x10000 + 0x400 * (high - 0xD800) + (low - 0xDC00)) :: join rest
    else high :: join (low :: rest)

def isExponent : List Char → Bool
  | [] => true
  | e :: rest =>
    let digits := if rest.head? = some '+' || rest.head? = some '-' then rest.tail else rest
    (e = 'e' || e = 'E') && digits ≠ [] && digits.all Char.isDigit

def isFraction : List Char → Bool
  | '.' :: first :: rest => first.isDigit && isExponent (rest.dropWhile Char.isDigit)
  | rest => isExponent rest

def isNumber (token : List Char) : Bool :=
  match (if token.head? = some '-' then token.tail else token) with
  | [] => false
  | first :: rest =>
    if first = '0' then isFraction rest
    else first.isDigit && isFraction (rest.dropWhile Char.isDigit)

def wordChar (c : Char) : Bool := c.isAlphanum || c = '+' || c = '-' || c = '.'

/-- `true`, `false`, `null` or a number. -/
def scalar (token : List Char) : Option Json :=
  if token = "true".toList then some (.bool true)
  else if token = "false".toList then some (.bool false)
  else if token = "null".toList then some .null
  else if isNumber token then some (.number token)
  else none

def word (token : List Char) : Option Json := if token.all wordChar then scalar token else none

def skipWord (text : List Char) : Option (List Char) :=
  (scalar (text.takeWhile wordChar)).map fun _ => text.dropWhile wordChar

/-- One member of an object: its key as written and as read, its value as written. -/
structure Member where
  key : List Char
  name : List ℕ
  raw : List Char
  deriving DecidableEq, Repr

/-- What `text` has before `rest`, its end. -/
def before (text rest : List Char) : List Char := text.take (text.length - rest.length)

/-- After an opening bracket: the closing one, or a first part. -/
def opened {α : Type} (close : Char) (text : List Char)
    (parts : List Char → Option (List α × List Char)) : Option (List α × List Char) :=
  match skipSpace text with
  | [] => none
  | c :: rest => if c = close then some ([], rest) else parts (c :: rest)

/-- After a part: the closing bracket, or a comma and the next part. -/
def further {α : Type} (close : Char) (part : α) (text : List Char)
    (parts : List Char → Option (List α × List Char)) : Option (List α × List Char) :=
  match skipSpace text with
  | [] => none
  | c :: rest =>
    if c = close then some ([part], rest)
    else if c = ',' then (parts (skipSpace rest)).map fun read => (part :: read.1, read.2)
    else none

/-- A key, read up to its closing quote, and the start of its value. -/
def keyed (text : List Char) : Option (List Char × List ℕ × List Char) :=
  match text with
  | [] => none
  | quote :: rest =>
    if quote = '"' then
      (literal rest).bind fun read =>
        match skipSpace read.2 with
        | [] => none
        | colon :: value =>
          if colon = ':' then
            some ((before rest read.2).dropLast, join read.1, skipSpace value)
          else none
    else none

mutual

/-- Skips one value; `fuel` bounds the nesting and the number of parts. -/
def skipValue : ℕ → List Char → Option (List Char)
  | 0, _ => none
  | _ + 1, [] => none
  | fuel + 1, c :: rest =>
    if c = '"' then (literal rest).map Prod.snd
    else if c = '[' then (opened ']' rest (elements fuel)).map Prod.snd
    else if c = '{' then (opened '}' rest (members fuel)).map Prod.snd
    else skipWord (c :: rest)

def elements : ℕ → List Char → Option (List (List Char) × List Char)
  | 0, _ => none
  | fuel + 1, text =>
    (skipValue fuel text).bind fun rest => further ']' (before text rest) rest (elements fuel)

def members : ℕ → List Char → Option (List Member × List Char)
  | 0, _ => none
  | fuel + 1, text =>
    (keyed text).bind fun head =>
    (skipValue fuel head.2.2).bind fun rest =>
      further '}' ⟨head.1, head.2.1, before head.2.2 rest⟩ rest (members fuel)

end

def arrayParts (raw : List Char) : Option (List (List Char)) :=
  match raw with
  | [] => none
  | c :: rest =>
    if c = '[' then
      match opened ']' rest (elements rest.length) with
      | some (raws, []) => some raws
      | _ => none
    else none

def objectParts (raw : List Char) : Option (List Member) :=
  match raw with
  | [] => none
  | c :: rest =>
    if c = '{' then
      match opened '}' rest (members rest.length) with
      | some (found, []) => some found
      | _ => none
    else none

def stringPoints (raw : List Char) : Option (List ℕ) :=
  match raw with
  | [] => none
  | c :: rest =>
    if c = '"' then
      match literal rest with
      | some (units, []) => some (join units)
      | _ => none
    else none

/-- The value of a text without space around it. -/
def decode : ℕ → List Char → Option Json
  | 0, _ => none
  | _ + 1, [] => none
  | fuel + 1, c :: rest =>
    if c = '"' then (stringPoints (c :: rest)).map .string
    else if c = '[' then
      (arrayParts (c :: rest)).bind fun raws => (raws.mapM (decode fuel)).map .array
    else if c = '{' then
      (objectParts (c :: rest)).bind fun found =>
        (found.mapM fun m => (decode fuel m.raw).map fun value => (m.name, value)).map .object
    else word (c :: rest)

def parse (text : List Char) : Option Json := decode (trim text).length (trim text)

variable (c : Char) {text : List Char} (more : List Char) (units : List ℕ) (rest : List Char)

theorem literal_quote : literal ('"' :: rest) = some ([], rest) := by
  rw [literal.eq_def]
  rfl

theorem literal_hex (a b c d : Char) (rest : List Char) :
    literal ('\\' :: 'u' :: a :: b :: c :: d :: rest) =
      (hexUnit a b c d).bind fun unit => (literal rest).map (push unit) := rfl

theorem literal_escape {e : Char} (rest : List Char) (he : e ≠ 'u') : literal ('\\' :: e :: rest) =
      (simpleEscape e).bind fun unit => (literal rest).map (push unit) := by
  rw [literal.eq_def]
  simp [he]

theorem literal_simple (e : Char) (unit : ℕ) (rest : List Char) (he : e ≠ 'u')
    (hunit : simpleEscape e = some unit) :
    literal ('\\' :: e :: rest) = (literal rest).map (push unit) := by
  rw [literal_escape rest he, hunit]
  rfl

theorem literal_plain (hquote : c ≠ '"') (hslash : c ≠ '\\') (hc : ¬ c.toNat < 32) :
    literal (c :: rest) = (literal rest).map (push c.toNat) := by
  rw [literal.eq_def]
  simp [hquote, hslash, hc]

theorem push_eq_some (read : Option (List ℕ × List Char)) (unit : ℕ) (units : List ℕ)
    (rest : List Char) (h : read.map (push unit) = some (units, rest)) :
    ∃ tail, units = unit :: tail ∧ read = some (tail, rest) := by
  obtain ⟨⟨tail, left⟩, hread, hpush⟩ := Option.map_eq_some_iff.mp h
  cases hpush
  exact ⟨tail, rfl, hread⟩

@[elab_as_elim]
theorem literal_induction {text rest : List Char} {units : List ℕ}
    {motive : List Char → List ℕ → Prop} (quote : motive ('"' :: rest) [])
    (hex : ∀ a b c d tail unit units, hexUnit a b c d = some unit → motive tail units →
      motive ('\\' :: 'u' :: a :: b :: c :: d :: tail) (unit :: units))
    (escape : ∀ e tail unit units, e ≠ 'u' → simpleEscape e = some unit → motive tail units →
      motive ('\\' :: e :: tail) (unit :: units))
    (plain : ∀ c tail units, c ≠ '"' → c ≠ '\\' → ¬c.toNat < 32 → motive tail units →
      motive (c :: tail) (c.toNat :: units))
    (h : literal text = some (units, rest)) : motive text units := by
  fun_induction literal text generalizing units with
  | case1 => cases h
  | case2 tail =>
    cases h
    exact quote
  | case3 => cases h
  | case4 a b c d tail hquote ih =>
    obtain ⟨unit, hunit, hmap⟩ := Option.bind_eq_some_iff.mp h
    obtain ⟨units, rfl, hread⟩ := push_eq_some _ _ _ _ hmap
    exact hex a b c d tail unit units hunit (ih hread)
  | case5 => cases h
  | case6 e tail he hquote ih =>
    obtain ⟨unit, hunit, hmap⟩ := Option.bind_eq_some_iff.mp h
    obtain ⟨units, rfl, hread⟩ := push_eq_some _ _ _ _ hmap
    exact escape e tail unit units he hunit (ih hread)
  | case7 => cases h
  | case8 c tail hquote hslash hc ih =>
    obtain ⟨units, rfl, hread⟩ := push_eq_some _ _ _ _ h
    exact plain c tail units hquote hslash hc (ih hread)

theorem literal_append (h : literal text = some (units, rest)) :
    literal (text ++ more) = some (units, rest ++ more) := by
  refine literal_induction (literal_quote _) ?_ ?_ ?_ h
  · intro a b c d tail unit units hunit ih
    simp only [cons_append, literal_hex, hunit, ih]
    rfl
  · intro e tail unit units he hunit ih
    simp only [cons_append, literal_escape _ he, hunit, ih]
    rfl
  · intro c tail units hquote hslash hc ih
    simp only [cons_append, literal_plain c _ hquote hslash hc, ih]
    rfl

theorem literal_length (h : literal text = some (units, rest)) : rest.length < text.length := by
  refine literal_induction (Nat.lt_succ_self _) ?_ ?_ ?_ h
  all_goals
    intros
    simp only [length_cons]
    omega

theorem skipSpace_append {c : Char} (h : skipSpace text = c :: rest) :
    skipSpace (text ++ more) = c :: (rest ++ more) := by
  unfold skipSpace at h ⊢
  rw [dropWhile_append, h]
  rfl

theorem skipSpace_length {c : Char} (h : skipSpace text = c :: rest) :
    rest.length < text.length := by
  have hle : (skipSpace text).length ≤ text.length := (dropWhile_sublist _).length_le
  rw [h, length_cons] at hle
  omega

variable (text) in
theorem skipSpace_le : (skipSpace text).length ≤ text.length :=
  (dropWhile_sublist _).length_le

theorem before_append (more : List Char) (h : rest.length ≤ text.length) :
    before (text ++ more) (rest ++ more) = before text rest := by
  unfold before
  rw [length_append, length_append, Nat.add_sub_add_right, take_append_of_le_length]
  omega

def Bounded (text : List Char) : Prop := ∀ c rest, text = c :: rest → wordChar c = false

theorem skipWord_stable (h : skipWord text = some rest) : rest.length < text.length ∧
      ∀ more, (rest = [] → Bounded more) → skipWord (text ++ more) = some (rest ++ more) := by
  unfold skipWord at h
  obtain ⟨value, hvalue, hrest⟩ := Option.map_eq_some_iff.mp h
  have hne : text.takeWhile wordChar ≠ [] := by
    intro hnil
    rw [hnil] at hvalue
    cases hvalue
  have hsplit : text.takeWhile wordChar ++ rest = text := by
    rw [← hrest]
    exact takeWhile_append_dropWhile
  constructor
  · have hlen := congrArg List.length hsplit
    rw [length_append] at hlen
    have hpos := length_pos_iff.mpr hne
    omega
  · intro more hmore
    have hstop : Bounded (rest ++ more) := by
      intro c tail hcons
      cases hrest' : rest with
      | nil =>
        rw [hrest', nil_append] at hcons
        exact hmore hrest' c tail hcons
      | cons d rest' =>
        rw [hrest', cons_append, List.cons.injEq] at hcons
        have hhead := head_dropWhile_not wordChar (l := text) (by rw [hrest, hrest']; simp)
        simp only [hrest, hrest', head_cons] at hhead
        rw [← hcons.1]
        simpa using hhead
    have hall : ∀ c ∈ text.takeWhile wordChar, wordChar c = true := fun c hc =>
      mem_takeWhile_imp hc
    have htake : (text ++ more).takeWhile wordChar = text.takeWhile wordChar ∧
        (text ++ more).dropWhile wordChar = rest ++ more := by
      have htext : text ++ more = text.takeWhile wordChar ++ (rest ++ more) := by
        rw [← append_assoc, hsplit]
      rw [htext, takeWhile_append_of_pos hall, dropWhile_append_of_pos hall]
      cases hcons : rest ++ more with
      | nil => simp
      | cons c tail =>
        have hc := hstop c tail hcons
        simp [hc]
    unfold skipWord
    rw [htake.1, htake.2, hvalue]
    rfl

/-- What one reader finds in a text, the other finds in it with more behind. -/
def Stable {α : Type} (parts parts' : List Char → Option (List α × List Char)) (fuel : ℕ) : Prop :=
  ∀ text found rest, parts text = some (found, rest) →
    rest.length < text.length ∧ ∀ more, text.length ≤ fuel + rest.length →
      parts' (text ++ more) = some (found, rest ++ more)

section
variable {α : Type} {close : Char} {parts : List Char → Option (List α × List Char)}
  {text rest : List Char} {found : List α}

theorem opened_cases (h : opened close text parts = some (found, rest)) :
    ∃ c tail, skipSpace text = c :: tail ∧ (c = close ∧ found = [] ∧ rest = tail ∨
      c ≠ close ∧ parts (c :: tail) = some (found, rest)) := by
  unfold opened at h
  split at h
  · cases h
  · next c tail hskip =>
    refine ⟨c, tail, hskip, ?_⟩
    split_ifs at h with hclose
    · cases h
      exact .inl ⟨hclose, rfl, rfl⟩
    · exact .inr ⟨hclose, h⟩

theorem further_cases {part : α} (h : further close part text parts = some (found, rest)) :
    ∃ c tail, skipSpace text = c :: tail ∧ (c = close ∧ found = [part] ∧ rest = tail ∨
      c ≠ close ∧ c = ',' ∧ ∃ others, parts (skipSpace tail) = some (others, rest) ∧
        found = part :: others) := by
  unfold further at h
  split at h
  · cases h
  · next c tail hskip =>
    refine ⟨c, tail, hskip, ?_⟩
    split_ifs at h with hclose hcomma
    · cases h
      exact .inl ⟨hclose, rfl, rfl⟩
    · obtain ⟨⟨others, rest'⟩, hread, heq⟩ := Option.map_eq_some_iff.mp h
      cases heq
      exact .inr ⟨hclose, hcomma, others, hread, rfl⟩

end

theorem keyed_cases {text key value : List Char} {name : List ℕ}
    (h : keyed text = some (key, name, value)) :
    ∃ tail units rest start, text = '"' :: tail ∧ literal tail = some (units, rest) ∧
      skipSpace rest = ':' :: start ∧ key = (before tail rest).dropLast ∧ name = join units ∧
      value = skipSpace start := by
  unfold keyed at h
  split at h
  · cases h
  · next quote tail =>
    split_ifs at h with hquote
    obtain ⟨⟨units, rest⟩, hread, hafter⟩ := Option.bind_eq_some_iff.mp h
    dsimp only at hafter
    split at hafter
    · cases hafter
    · next colon start hskip =>
      split_ifs at hafter with hcolon
      cases hafter
      exact ⟨tail, units, rest, start, by rw [hquote], hread, by rw [hskip, hcolon], rfl, rfl, rfl⟩

section
variable {α : Type} {parts parts' : List Char → Option (List α × List Char)} {fuel : ℕ}

theorem opened_stable (hparts : Stable parts parts' fuel) (close : Char) :
    Stable (fun text => opened close text parts) (fun text => opened close text parts') fuel := by
  intro text found rest h
  obtain ⟨c, tail, hskip, ⟨hclose, rfl, rfl⟩ | ⟨hclose, hread⟩⟩ := opened_cases h
  · refine ⟨skipSpace_length rest hskip, fun more _ => ?_⟩
    unfold opened
    dsimp only
    rw [skipSpace_append more _ hskip]
    simp [hclose]
  · have hlen := skipSpace_length tail hskip
    obtain ⟨hless, hmore⟩ := hparts _ _ _ hread
    simp only [length_cons] at hless hmore
    refine ⟨by omega, fun more hfuel => ?_⟩
    unfold opened
    dsimp only
    rw [skipSpace_append more _ hskip]
    have hread := hmore more (by omega)
    simp only [if_neg hclose]
    exact hread

theorem further_stable (hparts : Stable parts parts' fuel) (close : Char) (part : α) :
    Stable (fun text => further close part text parts)
      (fun text => further close part text parts') fuel := by
  intro text found rest h
  obtain ⟨c, tail, hskip, ⟨hclose, rfl, rfl⟩ | ⟨hclose, hcomma, others, hread, rfl⟩⟩ :=
    further_cases h
  · refine ⟨skipSpace_length rest hskip, fun more _ => ?_⟩
    unfold further
    dsimp only
    rw [skipSpace_append more _ hskip]
    simp [hclose]
  · have hlen := skipSpace_length tail hskip
    have hle := skipSpace_le tail
    obtain ⟨hless, hmore⟩ := hparts _ _ _ hread
    refine ⟨by omega, fun more hfuel => ?_⟩
    have hspace : skipSpace (tail ++ more) = skipSpace tail ++ more := by
      cases hnext : skipSpace tail with
      | nil => rw [hnext] at hless; simp at hless
      | cons d after => rw [skipSpace_append more after hnext, cons_append]
    unfold further
    dsimp only
    rw [skipSpace_append more _ hskip]
    simp only [if_neg hclose, if_pos hcomma, hspace, hmore more (by omega)]
    rfl

end

theorem keyed_stable {text key value : List Char} {name : List ℕ}
    (h : keyed text = some (key, name, value)) :
    value.length < text.length ∧ (value ≠ [] → ∀ more,
      keyed (text ++ more) = some (key, name, value ++ more)) := by
  obtain ⟨tail, units, rest, start, rfl, hread, hskip, rfl, rfl, rfl⟩ := keyed_cases h
  have hrest := literal_length units rest hread
  have hstart := skipSpace_length start hskip
  have hvalue := skipSpace_le start
  refine ⟨by simp only [length_cons]; omega, fun hne more => ?_⟩
  have hspace : skipSpace (start ++ more) = skipSpace start ++ more := by
    cases hnext : skipSpace start with
    | nil => exact absurd hnext hne
    | cons d after => rw [skipSpace_append more after hnext, cons_append]
  unfold keyed
  simp only [cons_append, if_true, literal_append more units rest hread,
    Option.bind_some, skipSpace_append more start hskip, if_true, hspace,
    before_append rest more hrest.le]

def ValueStable (fuel : ℕ) : Prop :=
  ∀ text rest, skipValue fuel text = some rest →
    rest.length < text.length ∧ ∀ fuel' more, text.length ≤ fuel' + rest.length →
      (rest = [] → Bounded more) → skipValue fuel' (text ++ more) = some (rest ++ more)

theorem skipValue_stable_step {fuel : ℕ}
    (helements : ∀ fuel', Stable (elements fuel) (elements fuel') fuel')
    (hmembers : ∀ fuel', Stable (members fuel) (members fuel') fuel') : ValueStable (fuel + 1) := by
  intro text rest h
  cases text with
  | nil => cases h
  | cons c tail =>
    unfold skipValue at h
    split_ifs at h with hquote hbracket hbrace
    · obtain ⟨⟨units, rest'⟩, hread, heq⟩ := Option.map_eq_some_iff.mp h
      obtain rfl : rest = rest' := heq.symm
      have hlen := literal_length units rest hread
      refine ⟨by simp only [length_cons]; omega, fun fuel' more hfuel _ => ?_⟩
      obtain ⟨fuel', rfl⟩ : ∃ k, fuel' = k + 1 := ⟨fuel' - 1, by
        simp only [length_cons] at hfuel; omega⟩
      rw [cons_append]
      unfold skipValue
      rw [if_pos hquote, literal_append more units rest hread]
      rfl
    · obtain ⟨⟨found, rest'⟩, hread, heq⟩ := Option.map_eq_some_iff.mp h
      obtain rfl : rest = rest' := heq.symm
      have hlen := (opened_stable (helements 0) ']' tail found rest hread).1
      refine ⟨by simp only [length_cons]; omega, fun fuel' more hfuel _ => ?_⟩
      obtain ⟨fuel', rfl⟩ : ∃ k, fuel' = k + 1 := ⟨fuel' - 1, by
        simp only [length_cons] at hfuel; omega⟩
      have hmore := (opened_stable (helements fuel') ']' tail found rest hread).2 more
        (by simp only [length_cons] at hfuel; omega)
      rw [cons_append]
      unfold skipValue
      dsimp only at hmore
      rw [if_neg hquote, if_pos hbracket, hmore]
      rfl
    · obtain ⟨⟨found, rest'⟩, hread, heq⟩ := Option.map_eq_some_iff.mp h
      obtain rfl : rest = rest' := heq.symm
      have hlen := (opened_stable (hmembers 0) '}' tail found rest hread).1
      refine ⟨by simp only [length_cons]; omega, fun fuel' more hfuel _ => ?_⟩
      obtain ⟨fuel', rfl⟩ : ∃ k, fuel' = k + 1 := ⟨fuel' - 1, by
        simp only [length_cons] at hfuel; omega⟩
      have hmore := (opened_stable (hmembers fuel') '}' tail found rest hread).2 more
        (by simp only [length_cons] at hfuel; omega)
      rw [cons_append]
      unfold skipValue
      dsimp only at hmore
      rw [if_neg hquote, if_neg hbracket, if_pos hbrace, hmore]
      rfl
    · obtain ⟨hlen, hmore⟩ := skipWord_stable rest h
      refine ⟨hlen, fun fuel' more hfuel hbounded => ?_⟩
      obtain ⟨fuel', rfl⟩ : ∃ k, fuel' = k + 1 := ⟨fuel' - 1, by omega⟩
      have hread := hmore more hbounded
      rw [cons_append] at hread ⊢
      unfold skipValue
      rw [if_neg hquote, if_neg hbracket, if_neg hbrace, hread]

theorem elements_stable_step {fuel : ℕ} (fuel' : ℕ) (hvalue : ValueStable fuel)
    (helements : ∀ fuel', Stable (elements fuel) (elements fuel') fuel') :
    Stable (elements (fuel + 1)) (elements fuel') fuel' := by
  intro text found rest h
  rw [elements] at h
  obtain ⟨after, hskip, hfurther⟩ := Option.bind_eq_some_iff.mp h
  obtain ⟨hless, hmore⟩ := hvalue text after hskip
  have hlen := (further_stable (helements 0) ']' _ after found rest hfurther).1
  refine ⟨by omega, fun more hfuel => ?_⟩
  obtain ⟨fuel', rfl⟩ : ∃ k, fuel' = k + 1 := ⟨fuel' - 1, by omega⟩
  have hne : after ≠ [] := by
    rintro rfl
    simp at hlen
  rw [elements, hmore fuel' more (by omega) (fun hnil => absurd hnil hne), Option.bind_some,
    before_append after more hless.le]
  exact (further_stable (helements fuel') ']' _ after found rest hfurther).2 more (by omega)

theorem members_stable_step {fuel : ℕ} (fuel' : ℕ) (hvalue : ValueStable fuel)
    (hmembers : ∀ fuel', Stable (members fuel) (members fuel') fuel') :
    Stable (members (fuel + 1)) (members fuel') fuel' := by
  intro text found rest h
  rw [members] at h
  obtain ⟨⟨key, name, value⟩, hkeyed, h⟩ := Option.bind_eq_some_iff.mp h
  obtain ⟨after, hskip, hfurther⟩ := Option.bind_eq_some_iff.mp h
  dsimp only at hskip hfurther
  obtain ⟨hkey, hkeymore⟩ := keyed_stable hkeyed
  obtain ⟨hless, hmore⟩ := hvalue value after hskip
  have hlen := (further_stable (hmembers 0) '}' _ after found rest hfurther).1
  refine ⟨by omega, fun more hfuel => ?_⟩
  obtain ⟨fuel', rfl⟩ : ∃ k, fuel' = k + 1 := ⟨fuel' - 1, by omega⟩
  have hne : after ≠ [] := by
    rintro rfl
    simp at hlen
  have hvaluene : value ≠ [] := by
    rintro rfl
    simp at hless
  rw [members, hkeymore hvaluene more, Option.bind_some]
  dsimp only
  rw [hmore fuel' more (by omega) (fun hnil => absurd hnil hne), Option.bind_some,
    before_append after more hless.le]
  exact (further_stable (hmembers fuel') '}' _ after found rest hfurther).2 more (by omega)

theorem skip_stable (fuel : ℕ) : ValueStable fuel ∧
    (∀ fuel', Stable (elements fuel) (elements fuel') fuel') ∧
    ∀ fuel', Stable (members fuel) (members fuel') fuel' := by
  induction fuel with
  | zero =>
    refine ⟨?_, ?_, ?_⟩
    · intro text rest h
      cases h
    · intro fuel' text found rest h
      cases h
    · intro fuel' text found rest h
      cases h
  | succ fuel ih =>
    obtain ⟨hvalue, helements, hmembers⟩ := ih
    exact ⟨skipValue_stable_step helements hmembers,
      fun fuel' => elements_stable_step fuel' hvalue helements,
      fun fuel' => members_stable_step fuel' hvalue hmembers⟩

end Stakit.JsonText
