import Mathlib.Data.List.Basic
import Mathlib.Data.List.TakeDrop
import Mathlib.Data.List.TakeWhile
import Stakit.RouterError

set_option autoImplicit false

namespace Stakit.PubsubTopic
open RouterError List

abbrev Topic := String

def numberChar (character : Char) : Bool :=
  character.isDigit || character ∈ ['-', '+', '.', 'e', 'E']

/-- A JSON number as `serde_json` writes it. -/
structure NumberText where
  text : String
  chars : ∀ character ∈ text.toList, numberChar character = true

inductive Value where
  | null
  | bool (flag : Bool)
  | number (number : NumberText)
  | string (text : String)
  | array (items : List Value)
  | object (fields : List (String × Value))

def maxTopicBytes : ℕ := 256

def escapeChar (character : Char) : List Char :=
  if character = '%' then ['%', '2', '5']
  else if character = ':' then ['%', '3', 'A']
  else if character = '=' then ['%', '3', 'D']
  else if character = '#' then ['%', '2', '3']
  else [character]

def pushEscaped (text : String) : List Char := text.toList.flatMap escapeChar

def notScalar : Error := badRequest "channel key fields must be strings, numbers or booleans"

def pushScalar : Value → Except Error (List Char)
  | .string text => .ok (pushEscaped text)
  | .number number => .ok ('#' :: number.text.toList)
  | .bool flag => .ok ('#' :: (if flag then "true" else "false").toList)
  | .null | .array _ | .object _ => .error notScalar

/-- An `IndexMap` read from JSON: a repeated field keeps its first place and its
last value. -/
def indexMap (fields : List (String × Value)) : List (String × Value) :=
  fields.foldl (fun seen field =>
    if seen.any (fun old => old.1 = field.1) then
      seen.map (fun old => if old.1 = field.1 then field else old)
    else seen ++ [field]) []

def pushFields : List (String × Value) → Except Error (List Char)
  | [] => .ok []
  | (field, value) :: rest =>
    match pushScalar value with
    | .error error => .error error
    | .ok scalar =>
      match pushFields rest with
      | .error error => .error error
      | .ok tail => .ok (':' :: (pushEscaped field ++ '=' :: (scalar ++ tail)))

def pushKey : Value → Except Error (List Char)
  | .object fields => pushFields (indexMap fields)
  | value =>
    match pushScalar value with
    | .error error => .error error
    | .ok scalar => .ok (':' :: scalar)

def topicOf (name : String) (key : Value) : Except Error Topic :=
  match pushKey key with
  | .error error => .error error
  | .ok text =>
    let topic := String.ofList (pushEscaped name ++ text)
    if maxTopicBytes < topic.utf8ByteSize then .error (badRequest "channel key too long")
    else .ok topic

/-- `serde_json::from_str` on the text of a key: strings, booleans and `null` come back
as they were written, a number as the number it was read as. -/
structure KeyReader where
  number : NumberText → Except Error NumberText
  array : List Value → Except Error (List Value)
  object : List (String × Value) → Except Error Value

section
variable (reader : KeyReader)

def readValue : Value → Except Error Value
  | .null => .ok .null
  | .bool flag => .ok (.bool flag)
  | .number number => (reader.number number).map .number
  | .string text => .ok (.string text)
  | .array items => (reader.array items).map .array
  | .object fields => reader.object fields

def readFields : List (String × Value) → Except Error (List (String × Value))
  | [] => .ok []
  | (field, value) :: rest =>
    match readValue reader value with
    | .error error => .error error
    | .ok read => (readFields rest).map ((field, read) :: ·)

def readKey : Value → Except Error Value
  | .object fields => (readFields reader fields).map .object
  | value => readValue reader value

def encodeTopic (name : String) (key : Value) : Except Error Topic :=
  (readKey reader key).bind (topicOf name)

end

def userName : String := "user"
def deviceName : String := "device"
def reservedNames : List String := [userName, deviceName]

/-- `UserChannel { id }.topic()`; its key is read back as it is. -/
def userTopic (id : String) : Except Error Topic :=
  topicOf userName (.object [("id", .string id)])

def deviceTopic (user id : String) : Except Error Topic :=
  topicOf deviceName (.object [("user", .string user), ("id", .string id)])

theorem encodeTopic_userTopic (reader : KeyReader) (id : String) :
    encodeTopic reader userName (.object [("id", .string id)]) = userTopic id := rfl

theorem encodeTopic_deviceTopic (reader : KeyReader) (user id : String) :
    encodeTopic reader deviceName (.object [("user", .string user), ("id", .string id)]) =
      deviceTopic user id := rfl

/-- The channels clients may subscribe to. `Builder::channel` panics on a
reserved name, so no built router holds one. -/
structure Channels where
  names : List String
  unreserved : ∀ name ∈ names, name ∉ reservedNames

theorem escapeChar_no_colon (character : Char) : ':' ∉ escapeChar character := by
  unfold escapeChar
  split_ifs with h1 h2 h3 h4
  · decide
  · decide
  · decide
  · decide
  · simpa using fun h => h2 h.symm

theorem pushEscaped_no_colon (text : String) : ':' ∉ pushEscaped text := by
  unfold pushEscaped
  rw [mem_flatMap]
  rintro ⟨character, _, h⟩
  exact escapeChar_no_colon character h

theorem escapeChar_append_inj (a b : Char) (x y : List Char)
    (h : escapeChar a ++ x = escapeChar b ++ y) : a = b ∧ x = y := by
  unfold escapeChar at h
  split_ifs at h <;>
    simp only [cons_append, nil_append, List.cons.injEq] at h <;> grind

theorem flatMap_escape_inj (xs ys : List Char)
    (h : xs.flatMap escapeChar = ys.flatMap escapeChar) : xs = ys := by
  have hne : ∀ c : Char, escapeChar c ≠ [] := by
    intro c
    unfold escapeChar
    split_ifs <;> simp
  induction xs generalizing ys with
  | nil =>
    cases ys with
    | nil => rfl
    | cons b ys =>
      simp only [flatMap_nil, flatMap_cons] at h
      exact absurd (append_eq_nil_iff.mp h.symm).1 (hne b)
  | cons a xs ih =>
    cases ys with
    | nil =>
      simp only [flatMap_nil, flatMap_cons] at h
      exact absurd (append_eq_nil_iff.mp h).1 (hne a)
    | cons b ys =>
      simp only [flatMap_cons] at h
      obtain ⟨rfl, htail⟩ := escapeChar_append_inj a b _ _ h
      rw [ih ys htail]

theorem pushEscaped_inj (s t : String) (h : pushEscaped s = pushEscaped t) : s = t :=
  String.toList_inj.mp (flatMap_escape_inj _ _ h)

theorem pushKey_head {key : Value} {text : List Char} (h : pushKey key = .ok text) :
    text = [] ∨ ∃ rest, text = ':' :: rest := by
  have hscalar : ∀ value : Value, (match pushScalar value with
      | .error error => .error error
      | .ok scalar => .ok (':' :: scalar) : Except Error (List Char)) = .ok text →
      text = [] ∨ ∃ rest, text = ':' :: rest := by
    intro value hv
    cases hs : pushScalar value with
    | error e => simp [hs] at hv
    | ok scalar =>
      simp only [hs, Except.ok.injEq] at hv
      exact .inr ⟨scalar, hv.symm⟩
  cases key with
  | object fields =>
    simp only [pushKey] at h
    cases hfields : indexMap fields with
    | nil =>
      simp only [hfields, pushFields, Except.ok.injEq] at h
      exact .inl h.symm
    | cons field rest =>
      obtain ⟨name, value⟩ := field
      simp only [hfields, pushFields] at h
      cases hs : pushScalar value with
      | error e => simp [hs] at h
      | ok scalar =>
        cases ht : pushFields rest with
        | error e => simp [hs, ht] at h
        | ok tail =>
          simp only [hs, ht, Except.ok.injEq] at h
          exact .inr ⟨_, h.symm⟩
  | null => exact hscalar .null h
  | bool flag => exact hscalar (.bool flag) h
  | number number => exact hscalar (.number number) h
  | string text' => exact hscalar (.string text') h
  | array items => exact hscalar (.array items) h

theorem topicOf_toList {name : String} {key : Value} {topic : Topic}
    (h : topicOf name key = .ok topic) :
    ∃ text, pushKey key = .ok text ∧ topic.toList = pushEscaped name ++ text := by
  unfold topicOf at h
  cases hk : pushKey key with
  | error e => simp [hk] at h
  | ok text =>
    simp only [hk] at h
    split_ifs at h
    simp only [Except.ok.injEq] at h
    exact ⟨text, rfl, by rw [← h]; exact String.toList_ofList⟩

theorem takeWhile_piece (separator : Char) (piece rest : List Char) (hfree : separator ∉ piece)
    (hrest : rest = [] ∨ ∃ tail, rest = separator :: tail) :
    (piece ++ rest).takeWhile (fun c => c ≠ separator) = piece := by
  have hpiece : ∀ c ∈ piece, decide (c ≠ separator) = true := by
    intro c hc
    simp only [ne_eq, decide_eq_true_eq]
    rintro rfl
    exact hfree hc
  rw [takeWhile_append_of_pos hpiece]
  rcases hrest with rfl | ⟨tail, rfl⟩
  · simp
  · simp

theorem topicOf_name {name : String} {key : Value} {topic : Topic}
    (h : topicOf name key = .ok topic) :
    topic.toList.takeWhile (fun c => c ≠ ':') = pushEscaped name := by
  obtain ⟨text, hkey, hlist⟩ := topicOf_toList h
  rw [hlist]
  exact takeWhile_piece ':' _ _ (pushEscaped_no_colon name) (pushKey_head hkey)

theorem topicOf_name_inj {name name' : String} {key key' : Value} {topic : Topic}
    (h : topicOf name key = .ok topic) (h' : topicOf name' key' = .ok topic) :
    name = name' :=
  pushEscaped_inj _ _ ((topicOf_name h).symm.trans (topicOf_name h'))

theorem userTopic_ne_deviceTopic {user user' id : String} {topic : Topic}
    (h : userTopic user = .ok topic) : deviceTopic user' id ≠ .ok topic := by
  intro h'
  exact absurd (topicOf_name_inj h h') (by decide)

theorem deviceTopic_toList {user id : String} {topic : Topic} (h : deviceTopic user id = .ok topic) :
    topic.toList = "device:user=".toList ++
      (pushEscaped user ++ ':' :: ("id=".toList ++ pushEscaped id)) := by
  obtain ⟨text, hkey, hlist⟩ := topicOf_toList h
  have htext : pushKey (.object [("user", .string user), ("id", .string id)]) =
      .ok (":user=".toList ++ (pushEscaped user ++ ':' :: ("id=".toList ++
        (pushEscaped id ++ [])))) := rfl
  rw [htext, Except.ok.injEq] at hkey
  rw [hlist, ← hkey, append_nil]
  rfl

theorem deviceTopic_inj {user user' id id' : String} {topic : Topic}
    (h : deviceTopic user id = .ok topic) (h' : deviceTopic user' id' = .ok topic) :
    user = user' ∧ id = id' := by
  have heq := (deviceTopic_toList h).symm.trans (deviceTopic_toList h')
  have hcolon : ':' ∉ "id=".toList ++ pushEscaped id := by
    rw [mem_append]
    rintro (hin | hin)
    · exact absurd hin (by decide)
    · exact pushEscaped_no_colon id hin
  obtain ⟨huser, _, hid⟩ := (append_cons_inj_of_notMem (pushEscaped_no_colon user) hcolon).mp
    (append_cancel_left heq)
  exact ⟨pushEscaped_inj _ _ huser, pushEscaped_inj _ _ (append_cancel_left hid)⟩

theorem channel_topic_ne_userTopic (channels : Channels) {name user : String} {key : Value}
    {topic : Topic} (hname : name ∈ channels.names) (h : topicOf name key = .ok topic) :
    userTopic user ≠ .ok topic := by
  intro h'
  have heq : name = userName := topicOf_name_inj h h'
  exact channels.unreserved name hname (by simp [heq, reservedNames])

theorem channel_topic_ne_deviceTopic (channels : Channels) {name user id : String} {key : Value}
    {topic : Topic} (hname : name ∈ channels.names) (h : topicOf name key = .ok topic) :
    deviceTopic user id ≠ .ok topic := by
  intro h'
  have heq : name = deviceName := topicOf_name_inj h h'
  exact channels.unreserved name hname (by simp [heq, reservedNames])

end Stakit.PubsubTopic
