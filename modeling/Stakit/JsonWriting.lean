import Stakit.JsonText

set_option autoImplicit false

namespace Stakit.JsonText
open List
open Option (map_eq_some_iff bind_eq_some_iff bind_some)

/-- A JSON value without space around it. -/
def IsRaw (raw : List Char) : Prop := skipValue raw.length raw = some []

theorem IsRaw.skip {raw : List Char} (hraw : IsRaw raw) (more : List Char) (hmore : Bounded more)
    (fuel : ℕ) (hfuel : raw.length ≤ fuel) : skipValue fuel (raw ++ more) = some more := by
  have hstable := ((skip_stable raw.length).1 raw [] hraw).2 fuel more hfuel (fun _ => hmore)
  rwa [nil_append] at hstable

theorem wordChar_not_space {c : Char} (hc : isSpace c = true) : wordChar c = false := by
  unfold isSpace at hc
  simp only [Bool.or_eq_true, decide_eq_true_eq] at hc
  rcases hc with ((rfl | rfl) | rfl) | rfl <;> decide

theorem IsRaw.head {raw : List Char} (hraw : IsRaw raw) :
    ∃ c rest, raw = c :: rest ∧ isSpace c = false := by
  cases raw with
  | nil => cases hraw
  | cons c rest =>
    refine ⟨c, rest, rfl, ?_⟩
    by_contra hspace
    rw [Bool.not_eq_false] at hspace
    have hword := wordChar_not_space hspace
    have hquote : c ≠ '"' := by rintro rfl; cases hspace
    have hbracket : c ≠ '[' := by rintro rfl; cases hspace
    have hbrace : c ≠ '{' := by rintro rfl; cases hspace
    unfold IsRaw at hraw
    rw [length_cons, skipValue, if_neg hquote, if_neg hbracket, if_neg hbrace, skipWord,
      takeWhile_cons_of_neg (by simp [hword])] at hraw
    cases hraw

theorem skipSpace_of_head (c : Char) (rest : List Char) (hc : isSpace c = false) :
    skipSpace (c :: rest) = c :: rest := by
  unfold skipSpace
  rw [dropWhile_cons_of_neg (by simp [hc])]

theorem skipSpace_spaces {spaces : List Char} (hspaces : ∀ c ∈ spaces, isSpace c = true)
    (rest : List Char) : skipSpace (spaces ++ rest) = skipSpace rest := by
  unfold skipSpace
  exact dropWhile_append_of_pos hspaces

theorem trim_split (text : List Char) : ∃ front back, text = front ++ (trim text ++ back) ∧
    (∀ c ∈ front, isSpace c = true) ∧ ∀ c ∈ back, isSpace c = true := by
  refine ⟨text.takeWhile isSpace, (skipSpace text).rtakeWhile isSpace, ?_, ?_, ?_⟩
  · unfold trim
    rw [rdropWhile_append_rtakeWhile]
    exact takeWhile_append_dropWhile.symm
  · exact fun c hc => mem_takeWhile_imp hc
  · exact fun c hc => mem_rtakeWhile_imp hc

theorem bounded_of_space (spaces more : List Char) (hspaces : ∀ c ∈ spaces, isSpace c = true)
    (hmore : Bounded more) : Bounded (spaces ++ more) := by
  cases spaces with
  | nil => exact hmore
  | cons d rest =>
    intro c tail hcons
    rw [cons_append, List.cons.injEq] at hcons
    rw [← hcons.1]
    exact wordChar_not_space (hspaces d mem_cons_self)

section
variable (escape : Char → List Char)

theorem literal_escaped (text : List Char)
    (hescape : ∀ c ∈ text, ∀ rest, literal (escape c ++ rest) = (literal rest).map (push c.toNat))
    (rest : List Char) :
    literal (text.flatMap escape ++ '"' :: rest) = some (text.map Char.toNat, rest) := by
  induction text with
  | nil => exact literal_quote rest
  | cons c text ih =>
    rw [flatMap_cons, append_assoc, hescape c mem_cons_self,
      ih fun d hd => hescape d (mem_cons_of_mem _ hd)]
    rfl

def quoted (text : List Char) : List Char := '"' :: (text.flatMap escape ++ ['"'])

end

variable (n : ℕ) (c : Char) (text rest : List Char) (texts : List (List Char))
  (entries : List (List Char × List Char))

theorem not_surrogate : isHigh c.toNat = false := by
  have hvalid := c.valid
  unfold isHigh
  simp only [Bool.and_eq_false_iff, decide_eq_false_iff_not]
  simp only [UInt32.isValidChar, Nat.isValidChar] at hvalid
  unfold Char.toNat
  omega

theorem join_chars : join (text.map Char.toNat) = text.map Char.toNat := by
  induction text with
  | nil => rfl
  | cons c text ih =>
    cases text with
    | nil => rfl
    | cons d text =>
      rw [map_cons, map_cons, join, not_surrogate, Bool.false_and, if_neg (by decide)]
      exact congrArg (List.cons _) ih

theorem stringPoints_quoted {escape : Char → List Char} {text : List Char}
    (hescape : ∀ c ∈ text, ∀ rest, literal (escape c ++ rest) = (literal rest).map (push c.toNat)) :
    stringPoints (quoted escape text) = some (text.map Char.toNat) := by
  unfold stringPoints quoted
  dsimp only
  rw [if_pos rfl, literal_escaped escape text hescape []]
  exact congrArg some (join_chars text)

theorem isRaw_quoted (escape : Char → List Char) (text : List Char)
    (hescape : ∀ c ∈ text, ∀ rest, literal (escape c ++ rest) = (literal rest).map (push c.toNat)) :
    IsRaw (quoted escape text) := by
  unfold IsRaw quoted
  rw [length_cons, skipValue, if_pos rfl, literal_escaped escape text hescape []]
  rfl

theorem hexUnit_control (hn : n < 32) :
    hexUnit '0' '0' (Nat.digitChar (n / 16)) (Nat.digitChar (n % 16)) = some n := by
  interval_cases n <;> rfl

theorem isRaw_word {token : List Char} {value : Json} (hword : word token = some value)
    (hhead : ∀ c rest, token = c :: rest → c ≠ '"' ∧ c ≠ '[' ∧ c ≠ '{') : IsRaw token := by
  unfold word at hword
  split_ifs at hword with hall
  rw [all_eq_true] at hall
  cases token with
  | nil => cases hword
  | cons c rest =>
    obtain ⟨hquote, hbracket, hbrace⟩ := hhead c rest rfl
    unfold IsRaw
    rw [length_cons, skipValue, if_neg hquote, if_neg hbracket, if_neg hbrace, skipWord,
      takeWhile_eq_self_iff.mpr hall, dropWhile_eq_nil_iff.mpr hall, hword]
    rfl

theorem toDigits_head (hn : 0 < n) :
    ∃ first rest, Nat.toDigits 10 n = first :: rest ∧ first ≠ '0' := by
  induction n using Nat.strongRecOn with
  | ind n ih =>
    by_cases hsmall : n < 10
    · refine ⟨n.digitChar, [], Nat.toDigits_of_lt_base hsmall, ?_⟩
      interval_cases n <;> decide
    · obtain ⟨first, rest, hdigits, hfirst⟩ := ih (n / 10) (by omega) (by omega)
      refine ⟨first, rest ++ [(n % 10).digitChar], ?_, hfirst⟩
      rw [Nat.toDigits_of_base_le (by decide) (by omega), hdigits]
      rfl

theorem toDigits_isDigit (hc : c ∈ Nat.toDigits 10 n) : c.isDigit = true :=
  Nat.isDigit_of_mem_toDigits (by decide) (by decide) hc

theorem isNumber_toDigits : isNumber (Nat.toDigits 10 n) = true := by
  rcases Nat.eq_zero_or_pos n with rfl | hn
  · rw [Nat.toDigits_zero]
    decide
  · obtain ⟨first, rest, hdigits, hfirst⟩ := toDigits_head n hn
    have hall := toDigits_isDigit n
    rw [hdigits] at hall ⊢
    have hdigit := hall first mem_cons_self
    have hminus : first ≠ '-' := by
      rintro rfl
      exact absurd hdigit (by decide)
    have hrest : rest.dropWhile Char.isDigit = [] :=
      dropWhile_eq_nil_iff.mpr fun c hc => hall c (mem_cons_of_mem _ hc)
    unfold isNumber
    simp only [List.head?_cons, Option.some.injEq, if_neg hminus, if_neg hfirst, hdigit, hrest]
    decide

theorem isDigit_wordChar (hc : c.isDigit = true) : wordChar c = true := by
  unfold wordChar Char.isAlphanum
  rw [hc]
  simp

theorem word_toDigits : word (Nat.toDigits 10 n) = some (.number (Nat.toDigits 10 n)) := by
  have hdigit := toDigits_isDigit n
  have hall : (Nat.toDigits 10 n).all wordChar = true :=
    all_eq_true.mpr fun c hc => isDigit_wordChar c (hdigit c hc)
  have hletter : ∀ (first : Char) (name : List Char), first.isDigit = false →
      Nat.toDigits 10 n ≠ first :: name := by
    intro first name hfirst heq
    have hbad := hdigit first (heq ▸ mem_cons_self)
    rw [hfirst] at hbad
    cases hbad
  have htrue : Nat.toDigits 10 n ≠ "true".toList := hletter 't' "rue".toList (by decide)
  have hfalse : Nat.toDigits 10 n ≠ "false".toList := hletter 'f' "alse".toList (by decide)
  have hnull : Nat.toDigits 10 n ≠ "null".toList := hletter 'n' "ull".toList (by decide)
  unfold word scalar
  rw [if_pos hall, if_neg htrue, if_neg hfalse, if_neg hnull, if_pos (isNumber_toDigits n)]

theorem isRaw_toDigits : IsRaw (Nat.toDigits 10 n) := by
  refine isRaw_word (word_toDigits n) fun c rest hcons => ?_
  have hdigit := toDigits_isDigit n c (hcons ▸ mem_cons_self)
  refine ⟨?_, ?_, ?_⟩
  · rintro rfl; exact absurd hdigit (by decide)
  · rintro rfl; exact absurd hdigit (by decide)
  · rintro rfl; exact absurd hdigit (by decide)

/-- A key with nothing to escape. -/
def Plain (key : List Char) : Prop := ∀ c ∈ key, c ≠ '"' ∧ c ≠ '\\' ∧ ¬ c.toNat < 32

instance (key : List Char) : Decidable (Plain key) :=
  List.decidableBAll _ key

theorem literal_key {key : List Char} (rest : List Char) (hplain : Plain key) :
    literal (key ++ '"' :: rest) = some (key.map Char.toNat, rest) := by
  have hread := literal_escaped (fun c => [c]) key
    (fun c hc rest => literal_plain c rest (hplain c hc).1 (hplain c hc).2.1 (hplain c hc).2.2) rest
  rwa [flatMap_singleton'] at hread

def writeMembers : List (List Char × List Char) → List Char
  | [] => []
  | [(key, text)] => '"' :: (key ++ '"' :: ':' :: text)
  | (key, text) :: member :: rest =>
    '"' :: (key ++ '"' :: ':' :: (text ++ ',' :: writeMembers (member :: rest)))

/-- The text of an object with these keys and these texts as values. -/
def writeObject (entries : List (List Char × List Char)) : List Char :=
  '{' :: (writeMembers entries ++ ['}'])

def written (entry : List Char × List Char) : Member :=
  ⟨entry.1, entry.1.map Char.toNat, trim entry.2⟩

/-- The key needs no escape and the text is one JSON value, space around it allowed. -/
def Writable (entry : List Char × List Char) : Prop := Plain entry.1 ∧ IsRaw (trim entry.2)

theorem before_self : before (text ++ rest) rest = text := by
  unfold before
  rw [length_append, Nat.add_sub_cancel, take_left']
  rfl

def Names (key name : List Char) : Prop :=
  ∀ rest, literal (key ++ '"' :: rest) = some (name.map Char.toNat, rest)

theorem Plain.names {key : List Char} (hplain : Plain key) : Names key key :=
  fun rest => literal_key rest hplain

theorem keyed_member (key name text more : List Char) (hname : Names key name)
    (hraw : IsRaw (trim text)) :
    ∃ back, (∀ c ∈ back, isSpace c = true) ∧ (trim text).length + back.length ≤ text.length ∧
      keyed ('"' :: (key ++ '"' :: ':' :: (text ++ more))) =
        some (key, name.map Char.toNat, trim text ++ (back ++ more)) := by
  obtain ⟨front, back, hsplit, hfront, hback⟩ := trim_split text
  obtain ⟨c, rest, hcons, hc⟩ := hraw.head
  have hlen := congrArg List.length hsplit
  rw [length_append, length_append] at hlen
  refine ⟨back, hback, by omega, ?_⟩
  have hvalue : skipSpace (text ++ more) = trim text ++ (back ++ more) := by
    rw [hsplit, append_assoc, skipSpace_spaces hfront, ← hsplit, hcons, append_assoc,
      cons_append, skipSpace_of_head c _ hc]
  unfold keyed
  dsimp only
  rw [if_pos rfl, hname, bind_some]
  dsimp only
  rw [skipSpace_of_head ':' _ (by decide)]
  dsimp only
  rw [if_pos rfl, join_chars, hvalue, append_cons, before_self, dropLast_concat]

theorem further_close {α : Type} (close : Char) (part : α) (back rest : List Char)
    (hback : ∀ c ∈ back, isSpace c = true) (hclose : isSpace close = false)
    (parts : List Char → Option (List α × List Char)) :
    further close part (back ++ close :: rest) parts = some ([part], rest) := by
  unfold further
  rw [skipSpace_spaces hback, skipSpace_of_head close rest hclose]
  dsimp only
  rw [if_pos rfl]

theorem further_comma {α : Type} (close : Char) (part : α) (back rest : List Char) (c : Char)
    (hback : ∀ c ∈ back, isSpace c = true) (hclose : close ≠ ',') (hc : isSpace c = false)
    (parts : List Char → Option (List α × List Char)) :
    further close part (back ++ ',' :: c :: rest) parts =
      (parts (c :: rest)).map fun read => (part :: read.1, read.2) := by
  unfold further
  rw [skipSpace_spaces hback, skipSpace_of_head ',' _ (by decide)]
  dsimp only
  rw [if_neg (Ne.symm hclose), if_pos rfl, skipSpace_of_head c rest hc]

/-- A member to write: its key as written, the name that reads as, and its text. -/
abbrev Named := List Char × List Char × List Char

def Named.entry (named : Named) : List Char × List Char := (named.1, named.2.2)

def Named.member (named : Named) : Member :=
  ⟨named.1, named.2.1.map Char.toNat, trim named.2.2⟩

def Named.Fits (named : Named) : Prop := Names named.1 named.2.1 ∧ IsRaw (trim named.2.2)

theorem writeMembers_head (entry : List Char × List Char) (entries : List (List Char × List Char))
    (more : List Char) : ∃ tail, writeMembers (entry :: entries) ++ more = '"' :: tail := by
  cases entries with
  | nil | cons next entries => exact ⟨_, rfl⟩

theorem members_named (entries : List Named) (hne : entries ≠ [])
    (hall : ∀ named ∈ entries, named.Fits) (more : List Char) (fuel : ℕ)
    (hfuel : (writeMembers (entries.map Named.entry)).length < fuel) :
    members fuel (writeMembers (entries.map Named.entry) ++ '}' :: more) =
      some (entries.map Named.member, more) := by
  induction entries generalizing fuel with
  | nil => exact absurd rfl hne
  | cons named entries ih =>
    obtain ⟨key, name, text⟩ := named
    obtain ⟨hname, hraw⟩ := hall _ mem_cons_self
    obtain ⟨fuel, rfl⟩ : ∃ k, fuel = k + 1 := ⟨fuel - 1, by omega⟩
    cases entries with
    | nil =>
      obtain ⟨back, hback, hlen, hkeyed⟩ := keyed_member key name text ('}' :: more) hname hraw
      have hbounded : Bounded (back ++ '}' :: more) :=
        bounded_of_space back _ hback (fun c rest hcons => by cases hcons; decide)
      have hroom : (trim text).length ≤ fuel := by
        simp only [map_cons, map_nil, Named.entry, writeMembers, length_cons,
          length_append] at hfuel
        omega
      rw [members]
      simp only [map_cons, map_nil, Named.entry, writeMembers, cons_append,
        append_assoc, hkeyed, bind_some, hraw.skip _ hbounded fuel hroom, before_self]
      exact further_close '}' _ back more hback (by decide) _
    | cons next entries =>
      obtain ⟨tail, htail⟩ := writeMembers_head next.entry (entries.map Named.entry) ('}' :: more)
      obtain ⟨back, hback, hlen, hkeyed⟩ :=
        keyed_member key name text (',' :: '"' :: tail) hname hraw
      have hbounded : Bounded (back ++ ',' :: '"' :: tail) :=
        bounded_of_space back _ hback (fun c rest hcons => by cases hcons; decide)
      have hroom : (trim text).length ≤ fuel ∧
          (writeMembers ((next :: entries).map Named.entry)).length < fuel := by
        simp only [map_cons, writeMembers, Named.entry, length_cons, length_append] at hfuel ⊢
        omega
      have hrest := ih (by simp) (fun entry hentry => hall entry (mem_cons_of_mem _ hentry))
        fuel hroom.2
      rw [map_cons, htail] at hrest
      rw [members]
      simp only [map_cons, writeMembers, Named.entry, cons_append, append_assoc]
      simp only [Named.entry] at htail
      simp only [htail, hkeyed, bind_some, hraw.skip _ hbounded fuel hroom.1, before_self]
      rw [further_comma '}' _ back tail '"' hback (by decide) (by decide), hrest]
      rfl

theorem objectParts_named (entries : List Named) (hall : ∀ named ∈ entries, named.Fits) :
    objectParts (writeObject (entries.map Named.entry)) = some (entries.map Named.member) := by
  cases entries with
  | nil => rfl
  | cons named entries =>
    obtain ⟨tail, htail⟩ := writeMembers_head named.entry (entries.map Named.entry) ['}']
    have hread := members_named (named :: entries) (by simp) hall []
      (writeMembers ((named :: entries).map Named.entry) ++ ['}']).length
      (by rw [length_append, length_singleton]; omega)
    unfold objectParts writeObject
    dsimp only
    rw [if_pos rfl]
    unfold opened
    rw [map_cons] at hread ⊢
    rw [htail] at hread ⊢
    rw [skipSpace_of_head '"' tail (by decide)]
    dsimp only
    rw [if_neg (by decide), hread]

/-- Entries whose keys are written as they are. -/
def plainly (entry : List Char × List Char) : Named := (entry.1, entry.1, entry.2)

theorem plainly_entry : (entries.map plainly).map Named.entry = entries := by
  rw [map_map]
  exact map_id entries

theorem plainly_fits (hall : ∀ entry ∈ entries, Writable entry) :
    ∀ named ∈ entries.map plainly, named.Fits := by
  intro named hnamed
  obtain ⟨entry, hentry, rfl⟩ := mem_map.mp hnamed
  exact ⟨(hall entry hentry).1.names, (hall entry hentry).2⟩

theorem objectParts_write (hall : ∀ entry ∈ entries, Writable entry) :
    objectParts (writeObject entries) = some (entries.map written) := by
  have hparts := objectParts_named (entries.map plainly) (plainly_fits entries hall)
  rw [plainly_entry, map_map] at hparts
  exact hparts

def writeElements : List (List Char) → List Char
  | [] => []
  | [text] => text
  | text :: next :: rest => text ++ ',' :: writeElements (next :: rest)

def writeArray (texts : List (List Char)) : List Char := '[' :: (writeElements texts ++ [']'])

theorem writeElements_head (more : List Char) (hraw : IsRaw text) :
    ∃ c tail, writeElements (text :: texts) ++ more = c :: tail ∧ isSpace c = false ∧ c ≠ ']' := by
  obtain ⟨c, rest, hcons, hc⟩ := hraw.head
  have hclose : c ≠ ']' := by
    rintro rfl
    unfold IsRaw at hraw
    rw [hcons, length_cons, skipValue, if_neg (by decide), if_neg (by decide),
      if_neg (by decide)] at hraw
    cases hraw
  cases texts with
  | nil => exact ⟨c, rest ++ more, by rw [writeElements, hcons, cons_append], hc, hclose⟩
  | cons next texts =>
    refine ⟨c, rest ++ ',' :: writeElements (next :: texts) ++ more, ?_, hc, hclose⟩
    rw [writeElements, hcons, cons_append, cons_append]

theorem elements_write (hne : texts ≠ []) (hall : ∀ text ∈ texts, IsRaw text) (more : List Char)
    (fuel : ℕ) (hfuel : (writeElements texts).length < fuel) :
    elements fuel (writeElements texts ++ ']' :: more) = some (texts, more) := by
  induction texts generalizing fuel with
  | nil => exact absurd rfl hne
  | cons text texts ih =>
    have hraw := hall text mem_cons_self
    obtain ⟨fuel, rfl⟩ : ∃ k, fuel = k + 1 := ⟨fuel - 1, by omega⟩
    cases texts with
    | nil =>
      have hbounded : Bounded (']' :: more) := fun c rest hcons => by cases hcons; decide
      rw [writeElements] at hfuel ⊢
      rw [elements, hraw.skip _ hbounded fuel (by omega), bind_some, before_self]
      exact further_close ']' text [] more (by simp) (by decide) _
    | cons next texts =>
      obtain ⟨c, tail, htail, hc, _⟩ := writeElements_head next texts (']' :: more)
        (hall next (mem_cons_of_mem _ mem_cons_self))
      have hbounded : Bounded (',' :: c :: tail) := fun c rest hcons => by cases hcons; decide
      rw [writeElements, length_append, length_cons] at hfuel
      have hrest := ih (by simp) (fun part hpart => hall part (mem_cons_of_mem _ hpart)) fuel
        (by omega)
      rw [htail] at hrest
      rw [writeElements, append_assoc, cons_append, htail, elements,
        hraw.skip _ hbounded fuel (by omega), bind_some, before_self]
      rw [show ',' :: c :: tail = [] ++ ',' :: c :: tail from rfl,
        further_comma ']' text [] tail c (by simp) (by decide) hc, hrest]
      rfl

theorem arrayParts_write (hall : ∀ text ∈ texts, IsRaw text) :
    arrayParts (writeArray texts) = some texts := by
  cases texts with
  | nil => rfl
  | cons text texts =>
    obtain ⟨c, tail, htail, hc, hclose⟩ := writeElements_head text texts [']']
      (hall text mem_cons_self)
    have hread := elements_write (text :: texts) (by simp) hall []
      (writeElements (text :: texts) ++ [']']).length
      (by rw [length_append, length_singleton]; omega)
    unfold arrayParts writeArray
    dsimp only
    rw [if_pos rfl]
    unfold opened
    rw [htail] at hread ⊢
    rw [skipSpace_of_head c tail hc]
    dsimp only
    rw [if_neg hclose, hread]

theorem literal_end (units : List ℕ) (rest : List Char) (h : literal text = some (units, rest)) :
    ∃ front, text = front ++ '"' :: rest := by
  refine literal_induction ⟨[], rfl⟩ ?_ ?_ ?_ h
  · rintro a b c d tail unit units hunit ⟨front, rfl⟩
    exact ⟨'\\' :: 'u' :: a :: b :: c :: d :: front, rfl⟩
  · rintro e tail unit units he hunit ⟨front, rfl⟩
    exact ⟨'\\' :: e :: front, rfl⟩
  · rintro c tail units hquote hslash hc ⟨front, rfl⟩
    exact ⟨c :: front, rfl⟩

theorem skipSpace_suffix (h : skipSpace text = rest) : ∃ front, text = front ++ rest := by
  rw [← h]
  exact ⟨text.takeWhile isSpace, takeWhile_append_dropWhile.symm⟩

/-- What is read ends with the closing bracket. -/
def EndsWith {α : Type} (close : Char) (parts : List Char → Option (List α × List Char)) : Prop :=
  ∀ text found rest, parts text = some (found, rest) → ∃ front, text = front ++ close :: rest

section
variable {α : Type} {close : Char} {parts : List Char → Option (List α × List Char)}

theorem opened_endsWith (hparts : EndsWith close parts) :
    EndsWith close fun text => opened close text parts := by
  intro text found rest h
  obtain ⟨c, tail, hskip, hcases⟩ := opened_cases h
  obtain ⟨space, rfl⟩ := skipSpace_suffix text _ hskip
  obtain ⟨rfl, _, rfl⟩ | ⟨_, hread⟩ := hcases
  · exact ⟨space, rfl⟩
  · obtain ⟨front, hfront⟩ := hparts _ _ _ hread
    exact ⟨space ++ front, by rw [hfront, append_assoc]⟩

theorem further_endsWith (hparts : EndsWith close parts) (part : α) :
    EndsWith close fun text => further close part text parts := by
  intro text found rest h
  obtain ⟨c, tail, hskip, hcases⟩ := further_cases h
  obtain ⟨space, rfl⟩ := skipSpace_suffix text _ hskip
  obtain ⟨rfl, _, rfl⟩ | ⟨_, _, others, hread, _⟩ := hcases
  · exact ⟨space, rfl⟩
  · obtain ⟨front, hfront⟩ := hparts _ _ _ hread
    obtain ⟨space', hspace'⟩ := skipSpace_suffix tail _ rfl
    refine ⟨space ++ c :: (space' ++ front), ?_⟩
    rw [hspace', hfront]
    simp

end

theorem keyed_suffix {text key value : List Char} {name : List ℕ}
    (h : keyed text = some (key, name, value)) : ∃ front, text = front ++ value := by
  obtain ⟨tail, units, rest, start, rfl, hread, hskip, rfl, rfl, rfl⟩ := keyed_cases h
  obtain ⟨front, rfl⟩ := literal_end tail units rest hread
  obtain ⟨space, rfl⟩ := skipSpace_suffix rest _ hskip
  obtain ⟨space', hspace'⟩ := skipSpace_suffix start _ rfl
  refine ⟨'"' :: (front ++ '"' :: (space ++ ':' :: space')), ?_⟩
  nth_rewrite 1 [hspace']
  simp

def ValueEnds (fuel : ℕ) : Prop :=
  ∀ text rest, skipValue fuel text = some rest →
    ∃ front last, text = front ++ last :: rest ∧ isSpace last = false

theorem skipWord_end {text rest : List Char} (h : skipWord text = some rest) :
    ∃ front last, text = front ++ last :: rest ∧ isSpace last = false := by
  unfold skipWord at h
  obtain ⟨value, hvalue, rfl⟩ := Option.map_eq_some_iff.mp h
  obtain hnil | ⟨front, last, hlast⟩ := eq_nil_or_concat (text.takeWhile wordChar)
  · rw [hnil] at hvalue
    cases hvalue
  · rw [concat_eq_append] at hlast
    refine ⟨front, last, ?_, ?_⟩
    · rw [append_cons, ← hlast]
      exact takeWhile_append_dropWhile.symm
    · have hword : wordChar last = true := mem_takeWhile_imp (p := wordChar) (l := text)
        (by rw [hlast]; simp)
      cases hspace : isSpace last with
      | false => rfl
      | true => rw [wordChar_not_space hspace] at hword; cases hword

theorem skip_ends (fuel : ℕ) :
    ValueEnds fuel ∧ EndsWith ']' (elements fuel) ∧ EndsWith '}' (members fuel) := by
  induction fuel with
  | zero =>
    refine ⟨?_, ?_, ?_⟩
    · intro text rest h
      cases h
    · intro text found rest h
      cases h
    · intro text found rest h
      cases h
  | succ fuel ih =>
    obtain ⟨hvalue, helements, hmembers⟩ := ih
    refine ⟨?_, ?_, ?_⟩
    · intro text rest h
      cases text with
      | nil => cases h
      | cons c tail =>
        unfold skipValue at h
        split_ifs at h with hquote hbracket hbrace
        · obtain ⟨⟨units, rest'⟩, hread, rfl⟩ := Option.map_eq_some_iff.mp h
          obtain ⟨front, rfl⟩ := literal_end tail units rest' hread
          exact ⟨c :: front, '"', rfl, by decide⟩
        · obtain ⟨⟨found, rest'⟩, hread, rfl⟩ := Option.map_eq_some_iff.mp h
          obtain ⟨front, rfl⟩ := opened_endsWith helements tail found rest' hread
          exact ⟨c :: front, ']', rfl, by decide⟩
        · obtain ⟨⟨found, rest'⟩, hread, rfl⟩ := Option.map_eq_some_iff.mp h
          obtain ⟨front, rfl⟩ := opened_endsWith hmembers tail found rest' hread
          exact ⟨c :: front, '}', rfl, by decide⟩
        · exact skipWord_end h
    · intro text found rest h
      rw [elements] at h
      obtain ⟨after, hskip, hfurther⟩ := Option.bind_eq_some_iff.mp h
      obtain ⟨front, last, rfl, _⟩ := hvalue text after hskip
      obtain ⟨front', rfl⟩ := further_endsWith helements _ after found rest hfurther
      exact ⟨front ++ last :: front', by simp⟩
    · intro text found rest h
      rw [members] at h
      obtain ⟨⟨key, name, value⟩, hkeyed, h⟩ := Option.bind_eq_some_iff.mp h
      obtain ⟨after, hskip, hfurther⟩ := Option.bind_eq_some_iff.mp h
      dsimp only at hskip hfurther
      obtain ⟨head, rfl⟩ := keyed_suffix hkeyed
      obtain ⟨front, last, rfl, _⟩ := hvalue value after hskip
      obtain ⟨front', rfl⟩ := further_endsWith hmembers _ after found rest hfurther
      exact ⟨head ++ (front ++ last :: front'), by simp⟩

theorem IsRaw.trim {raw : List Char} (hraw : IsRaw raw) : JsonText.trim raw = raw := by
  obtain ⟨c, rest, hcons, hc⟩ := hraw.head
  obtain ⟨front, last, hend, hlast⟩ := (skip_ends raw.length).1 raw [] hraw
  unfold JsonText.trim
  rw [hcons, skipSpace_of_head c rest hc, ← hcons, hend,
    rdropWhile_concat_neg _ _ _ (by simp [hlast])]

theorem stringPoints_isRaw {raw : List Char} {points : List ℕ}
    (h : stringPoints raw = some points) : IsRaw raw := by
  cases raw with
  | nil => cases h
  | cons c rest =>
    unfold stringPoints at h
    dsimp only at h
    split_ifs at h with hquote
    unfold IsRaw
    rw [length_cons, skipValue, if_pos hquote]
    split at h
    · next units hread => rw [hread]; rfl
    · cases h

theorem arrayParts_isRaw {raw : List Char} {raws : List (List Char)}
    (h : arrayParts raw = some raws) : IsRaw raw := by
  cases raw with
  | nil => cases h
  | cons c rest =>
    unfold arrayParts at h
    dsimp only at h
    split_ifs at h with hbracket
    unfold IsRaw
    rw [length_cons, skipValue, if_neg (by rw [hbracket]; decide), if_pos hbracket]
    split at h
    · next found hopened => rw [hopened]; rfl
    · cases h

theorem objectParts_isRaw {raw : List Char} {found : List Member}
    (h : objectParts raw = some found) : IsRaw raw := by
  cases raw with
  | nil => cases h
  | cons c rest =>
    unfold objectParts at h
    dsimp only at h
    split_ifs at h with hbrace
    unfold IsRaw
    rw [length_cons, skipValue, if_neg (by rw [hbrace]; decide),
      if_neg (by rw [hbrace]; decide), if_pos hbrace]
    split at h
    · next found hopened => rw [hopened]; rfl
    · cases h

theorem isRaw_writeObject (entries : List (List Char × List Char))
    (hall : ∀ entry ∈ entries, Writable entry) : IsRaw (writeObject entries) :=
  objectParts_isRaw (objectParts_write entries hall)

theorem decode_isRaw {fuel : ℕ} {raw : List Char} {value : Json}
    (h : decode fuel raw = some value) :
    IsRaw raw := by
  cases fuel with
  | zero => cases h
  | succ fuel =>
    cases raw with
    | nil => cases h
    | cons c rest =>
      unfold decode at h
      split_ifs at h with hquote hbracket hbrace
      · obtain ⟨points, hpoints, _⟩ := Option.map_eq_some_iff.mp h
        exact stringPoints_isRaw hpoints
      · obtain ⟨raws, hparts, _⟩ := Option.bind_eq_some_iff.mp h
        exact arrayParts_isRaw hparts
      · obtain ⟨found, hparts, _⟩ := Option.bind_eq_some_iff.mp h
        exact objectParts_isRaw hparts
      · refine isRaw_word h fun d tail hcons => ?_
        cases hcons
        exact ⟨hquote, hbracket, hbrace⟩

def Within {α : Type} (size : α → ℕ) (parts : List Char → Option (List α × List Char)) : Prop :=
  ∀ text found rest, parts text = some (found, rest) → ∀ part ∈ found, size part ≤ text.length

section
variable {α : Type} {size : α → ℕ} {close : Char}
  {parts : List Char → Option (List α × List Char)}

theorem opened_within (hparts : Within size parts) :
    Within size fun text => opened close text parts := by
  intro text found rest h part hpart
  obtain ⟨c, tail, hskip, ⟨_, rfl, _⟩ | ⟨_, hread⟩⟩ := opened_cases h
  · cases hpart
  · have hlen := skipSpace_le text
    rw [hskip] at hlen
    exact (hparts _ _ _ hread part hpart).trans hlen

theorem further_within (hparts : Within size parts) {first : α} {text : List Char} {found : List α}
    {rest : List Char} (h : further close first text parts = some (found, rest)) :
    ∀ part ∈ found, part = first ∨ size part ≤ text.length := by
  intro part hpart
  obtain ⟨c, tail, hskip, ⟨_, rfl, _⟩ | ⟨_, _, others, hread, rfl⟩⟩ := further_cases h
  · exact .inl (mem_singleton.mp hpart)
  · rcases mem_cons.mp hpart with rfl | hpart
    · exact .inl rfl
    · have hlen := skipSpace_length tail hskip
      have hsize := hparts _ _ _ hread part hpart
      have hspace := skipSpace_le tail
      exact .inr (by omega)

end

theorem before_length (text rest : List Char) : (before text rest).length ≤ text.length := by
  unfold before
  rw [length_take]
  omega

theorem elements_within (fuel : ℕ) : Within List.length (elements fuel) := by
  induction fuel with
  | zero => intro text found rest h; cases h
  | succ fuel ih =>
    intro text found rest h part hpart
    rw [elements] at h
    obtain ⟨after, hskip, hfurther⟩ := Option.bind_eq_some_iff.mp h
    have hless := ((skip_stable fuel).1 text after hskip).1
    rcases further_within ih hfurther part hpart with rfl | hsize
    · exact before_length text after
    · omega

theorem members_within (fuel : ℕ) : Within (fun m => m.raw.length) (members fuel) := by
  induction fuel with
  | zero => intro text found rest h; cases h
  | succ fuel ih =>
    intro text found rest h part hpart
    rw [members] at h
    obtain ⟨⟨key, name, value⟩, hkeyed, h⟩ := Option.bind_eq_some_iff.mp h
    obtain ⟨after, hskip, hfurther⟩ := Option.bind_eq_some_iff.mp h
    dsimp only at hskip hfurther
    have hvalue := (keyed_stable hkeyed).1
    have hless := ((skip_stable fuel).1 value after hskip).1
    rcases further_within ih hfurther part hpart with rfl | hsize
    · have hbefore := before_length value after
      dsimp only
      omega
    · dsimp only at hsize ⊢
      omega

theorem arrayParts_within (c : Char) (rest : List Char) (raws : List (List Char))
    (h : arrayParts (c :: rest) = some raws) : ∀ raw ∈ raws, raw.length ≤ rest.length := by
  unfold arrayParts at h
  dsimp only at h
  split_ifs at h
  split at h
  · next found hopened =>
    cases h
    exact opened_within (elements_within _) rest _ _ hopened
  · cases h

theorem objectParts_within (c : Char) (rest : List Char) (found : List Member)
    (h : objectParts (c :: rest) = some found) : ∀ m ∈ found, m.raw.length ≤ rest.length := by
  unfold objectParts at h
  dsimp only at h
  split_ifs at h
  split at h
  · next found hopened =>
    cases h
    exact opened_within (members_within _) rest _ _ hopened
  · cases h

theorem mapM_of_forall {α β : Type} (f g : α → Option β) (xs : List α) (ys : List β)
    (hfg : ∀ x ∈ xs, ∀ y, f x = some y → g x = some y) (h : xs.mapM f = some ys) :
    xs.mapM g = some ys := by
  induction xs generalizing ys with
  | nil => exact h
  | cons x xs ih =>
    rw [mapM_cons] at h
    obtain ⟨y, hy, h⟩ := Option.bind_eq_some_iff.mp h
    obtain ⟨ys', hys, h⟩ := Option.bind_eq_some_iff.mp h
    rw [mapM_cons, hfg x mem_cons_self y hy, ih ys' (fun x hx => hfg x (mem_cons_of_mem _ hx)) hys]
    exact h

theorem decode_fuel (fuel fuel' : ℕ) (raw : List Char) (value : Json)
    (h : decode fuel raw = some value) (hfuel : raw.length ≤ fuel') :
    decode fuel' raw = some value := by
  induction fuel generalizing fuel' raw value with
  | zero => cases h
  | succ fuel ih =>
    cases raw with
    | nil => cases h
    | cons c rest =>
      obtain ⟨fuel', rfl⟩ : ∃ k, fuel' = k + 1 := ⟨fuel' - 1, by
        simp only [length_cons] at hfuel; omega⟩
      have hroom : rest.length ≤ fuel' := by
        simp only [length_cons] at hfuel
        omega
      unfold decode at h ⊢
      split_ifs at h ⊢ with hquote hbracket hbrace
      · exact h
      · obtain ⟨raws, hparts, h⟩ := Option.bind_eq_some_iff.mp h
        obtain ⟨items, hitems, rfl⟩ := Option.map_eq_some_iff.mp h
        have hwithin := arrayParts_within c rest raws hparts
        rw [hparts, bind_some, mapM_of_forall (decode fuel) (decode fuel') raws items
          (fun part hpart y hy => ih fuel' part y hy ((hwithin part hpart).trans hroom)) hitems]
        rfl
      · obtain ⟨found, hparts, h⟩ := Option.bind_eq_some_iff.mp h
        obtain ⟨fields, hfields, rfl⟩ := Option.map_eq_some_iff.mp h
        have hwithin := objectParts_within c rest found hparts
        have hsame := mapM_of_forall _
          (fun m : Member => (decode fuel' m.raw).map fun value => (m.name, value)) found fields
          (fun m hm y hy => by
            obtain ⟨value, hvalue, rfl⟩ := Option.map_eq_some_iff.mp hy
            rw [ih fuel' m.raw value hvalue ((hwithin m hm).trans hroom)]
            rfl) hfields
        rw [hparts, bind_some, hsame]
        rfl
      · exact h

theorem parse_of_decode (fuel : ℕ) (raw : List Char) (value : Json)
    (h : decode fuel raw = some value) : parse raw = some value := by
  unfold parse
  rw [(decode_isRaw h).trim]
  exact decode_fuel fuel raw.length raw value h le_rfl

theorem parse_quoted (escape : Char → List Char) (text : List Char)
    (hescape : ∀ c ∈ text, ∀ rest, literal (escape c ++ rest) = (literal rest).map (push c.toNat)) :
    parse (quoted escape text) = some (.string (text.map Char.toNat)) := by
  have hpoints := stringPoints_quoted hescape
  refine parse_of_decode 1 _ _ ?_
  unfold quoted at hpoints ⊢
  rw [decode, if_pos rfl, hpoints]
  rfl

theorem parse_toDigits (n : ℕ) :
    parse (Nat.toDigits 10 n) = some (.number (Nat.toDigits 10 n)) := by
  have hword := word_toDigits n
  have hdigit := toDigits_isDigit n
  refine parse_of_decode 1 _ _ ?_
  cases hdigits : Nat.toDigits 10 n with
  | nil => exact absurd hdigits Nat.toDigits_ne_nil
  | cons c rest =>
    rw [hdigits] at hword hdigit
    have hc := hdigit c mem_cons_self
    have hquote : c ≠ '"' := by rintro rfl; exact absurd hc (by decide)
    have hbracket : c ≠ '[' := by rintro rfl; exact absurd hc (by decide)
    have hbrace : c ≠ '{' := by rintro rfl; exact absurd hc (by decide)
    rw [decode, if_neg hquote, if_neg hbracket, if_neg hbrace, hword]

theorem parse_named (fields : List (Named × Json))
    (hall : ∀ field ∈ fields, Names field.1.1 field.1.2.1 ∧ parse field.1.2.2 = some field.2) :
    parse (writeObject (fields.map fun field => field.1.entry)) =
      some (.object (fields.map fun field => (field.1.2.1.map Char.toNat, field.2))) := by
  have hfits : ∀ named ∈ fields.map Prod.fst, Named.Fits named := by
    intro named hnamed
    obtain ⟨field, hfield, rfl⟩ := mem_map.mp hnamed
    exact ⟨(hall field hfield).1, decode_isRaw (hall field hfield).2⟩
  have hparts := objectParts_named (fields.map Prod.fst) hfits
  rw [map_map, map_map] at hparts
  set text := writeObject (fields.map fun field => field.1.entry) with htext
  have hfields : ∀ fuel, (∀ field ∈ fields, (trim field.1.2.2).length ≤ fuel) →
      (fields.map (Named.member ∘ Prod.fst)).mapM
        (fun m => (decode fuel m.raw).map fun value => (m.name, value)) =
      some (fields.map fun field => (field.1.2.1.map Char.toNat, field.2)) := by
    intro fuel hfuel
    clear hparts hfits htext
    clear_value text
    induction fields with
    | nil => rfl
    | cons field fields ih =>
      have hdecode := decode_fuel _ fuel _ _ (hall field mem_cons_self).2
        (hfuel field mem_cons_self)
      simp only [map_cons, mapM_cons, Function.comp_apply, Named.member, hdecode]
      rw [ih (fun f hf => hall f (mem_cons_of_mem _ hf))
        (fun f hf => hfuel f (mem_cons_of_mem _ hf))]
      rfl
  refine parse_of_decode text.length text _ ?_
  have hcons : text = '{' :: (writeMembers (fields.map fun field => field.1.entry) ++ ['}']) :=
    htext
  change objectParts text = _ at hparts
  have hwithin := objectParts_within '{' _ _ (hcons ▸ hparts)
  rw [hcons] at hparts ⊢
  rw [length_cons, decode, if_neg (by decide), if_neg (by decide), if_pos rfl, hparts,
    bind_some, hfields]
  · rfl
  · intro field hfield
    exact hwithin _ (mem_map_of_mem hfield)

theorem parse_writeArray {items : List (List Char × Json)}
    (hall : ∀ item ∈ items, IsRaw item.1 ∧ parse item.1 = some item.2) :
    parse (writeArray (items.map Prod.fst)) = some (.array (items.map Prod.snd)) := by
  have hparts := arrayParts_write (items.map Prod.fst) fun text htext => by
    obtain ⟨item, hitem, rfl⟩ := mem_map.mp htext
    exact (hall item hitem).1
  have hitems : ∀ fuel, (∀ item ∈ items, item.1.length ≤ fuel) →
      (items.map Prod.fst).mapM (decode fuel) = some (items.map Prod.snd) := by
    intro fuel hfuel
    clear hparts
    induction items with
    | nil => rfl
    | cons item items ih =>
      have hdecode := (hall item mem_cons_self).2
      unfold parse at hdecode
      rw [(hall item mem_cons_self).1.trim] at hdecode
      rw [map_cons, mapM_cons, decode_fuel _ fuel _ _ hdecode (hfuel item mem_cons_self),
        ih (fun next hnext => hall next (mem_cons_of_mem _ hnext))
          (fun next hnext => hfuel next (mem_cons_of_mem _ hnext))]
      rfl
  refine parse_of_decode (writeArray (items.map Prod.fst)).length _ _ ?_
  unfold writeArray at hparts ⊢
  have hwithin := arrayParts_within '[' _ _ hparts
  rw [length_cons, decode, if_neg (by decide), if_pos rfl, hparts, bind_some, hitems]
  · rfl
  · intro item hitem
    exact hwithin item.1 (mem_map_of_mem hitem)

theorem parse_writeObject (fields : List (List Char × List Char × Json))
    (hall : ∀ field ∈ fields, Plain field.1 ∧ parse field.2.1 = some field.2.2) :
    parse (writeObject (fields.map fun field => (field.1, field.2.1))) =
      some (.object (fields.map fun field => (field.1.map Char.toNat, field.2.2))) := by
  have hread := parse_named
    (fields.map fun field => (plainly (field.1, field.2.1), field.2.2)) ?_
  · rw [map_map, map_map] at hread
    exact hread
  · intro named hnamed
    obtain ⟨field, hfield, rfl⟩ := mem_map.mp hnamed
    exact ⟨(hall field hfield).1.names, (hall field hfield).2⟩

end Stakit.JsonText
