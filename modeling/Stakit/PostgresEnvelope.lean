import Stakit.PostgresWire
import Stakit.SerdeJson

set_option autoImplicit false

namespace Stakit.PostgresBroker
open JsonText (IsRaw skipValue quoted writeObject writeMembers Writable Plain literal push trim)
open SerdeJson RouterError
open List (append_assoc append_cancel_left append_nil cons_append flatMap_singleton'
  forall_mem_cons length_cons map_cons map_nil mem_cons mem_cons_of_mem mem_cons_self mem_flatMap
  mem_singleton nil_append not_mem_nil tail_eq_of_cons_eq takeWhile_append_of_pos
  takeWhile_cons_of_neg)

/-- JSON values with their writer and their reader. -/
structure ValueCodec where
  Value : Type
  null : Value
  text : Value → String
  read : List Char → Option Value

/-- What is written is one JSON value and reads back. -/
structure ValueCodec.Lawful (values : ValueCodec) : Prop where
  raw : ∀ value, IsRaw (values.text value).toList
  read : ∀ value, values.read (values.text value).toList = some value

def ValueCodec.json (values : ValueCodec) : Json where
  Value := values.Value
  null := values.null
  valid text := skipValue text.toList.length text.toList = some []
  text := values.text

def u16Max : ℕ := 2 ^ 16 - 1

def readFailure (raw : List Char) : Option Failure :=
  match structParts ["code", "message"] raw with
  | some [some code, some message] =>
    (readUnsigned u16Max code).bind fun code =>
    (readString message).map fun message => ⟨code, message⟩
  | _ => none

section
variable (values : ValueCodec)

/-- `&RawValue`: the text as it stands. -/
def readRaw (raw : List Char) : Option (RawValue values.json) :=
  if h : values.json.valid (String.ofList raw) = true then some ⟨String.ofList raw, h⟩ else none

def readPublish (raw : List Char) : Option (Body values.json) :=
  match structParts ["topic", "p"] raw with
  | some [some topic, some p] =>
    (readString topic).bind fun topic => (readRaw values p).map fun p => .publish topic p
  | _ => none

def readCall (raw : List Char) : Option (Body values.json) :=
  match structParts ["id", "topic", "p"] raw with
  | some [some id, some topic, some p] =>
    (readUnsigned u64Max id).bind fun id => (readString topic).bind fun topic =>
    (readRaw values p).map fun p => .call id topic p
  | _ => none

/-- A missing `Option` field is none. -/
def readReply (raw : List Char) : Option (Body values.json) :=
  match structParts ["to", "id", "ok", "err"] raw with
  | some [some dest, some id, ok, err] =>
    (readUnsigned u64Max dest).bind fun dest => (readUnsigned u64Max id).bind fun id =>
    (ok.elim (some none) (readOption values.read)).bind fun ok =>
    (err.elim (some none) (readOption readFailure)).map fun err => .reply dest id ok err
  | _ => none

/-- `from_str::<Body>`: an object with the variant's name as its only key. -/
def parseBody (text : String) : Option (Body values.json) :=
  match readFields text.toList with
  | some [(variant, raw)] =>
    if variant = "p" then readPublish values raw
    else if variant = "c" then readCall values raw
    else if variant = "r" then readReply values raw
    else none
  | _ => none

end

def parseOuter (text : String) : Option Outer :=
  match structParts ["o", "n", "t", "m", "b"] text.toList with
  | some [some o, some n, some t, some m, some b] =>
    (readUnsigned u64Max o).bind fun o => (readUnsigned u64Max n).bind fun n =>
    (readUnsigned u64Max t).bind fun t => (readString m).map fun m => ⟨o, n, t, m, String.ofList b⟩
  | _ => none

/-- serde's derived readers, over any reader of values and any MAC. -/
def serde (values : ValueCodec) (hmac : List UInt8 → String → Vector UInt8 32) :
    Codec values.json := ⟨parseBody values, parseOuter, hmac⟩

/-- The integers of a body fit their types. -/
def Sized {json : Json} : Body json → Prop
  | .publish _ _ => True
  | .call id _ _ => id ≤ u64Max
  | .reply dest id _ err => dest ≤ u64Max ∧ id ≤ u64Max ∧ ∀ failure ∈ err, failure.code ≤ u16Max

/-- A body as it is read back: the `null` of a reply is no value. -/
def received {json : Json} : Body json → Body json
  | .reply dest id ok err =>
    .reply dest id (ok.bind fun value => if json.text value = "null" then none else some value) err
  | body => body

section
variable (values : ValueCodec)

def readBack : Option values.json.Value → Option (Option values.json.Value)
  | none => some none
  | some value =>
    if values.json.text value = "null" then some none
    else (values.read (values.json.text value).toList).map some

def heard : Body values.json → Option (Body values.json)
  | .reply dest id ok err => (readBack values ok).map fun ok => .reply dest id ok err
  | body => some body

end

theorem heard_lawful {values : ValueCodec} (hlaw : values.Lawful) (body : Body values.json) :
    heard values body = some (received body) := by
  cases body with
  | publish topic p | call id topic p => rfl
  | reply dest id ok err =>
    cases ok with
    | none => rfl
    | some value =>
      have hread : values.read (values.text value).toList = some value := hlaw.read value
      have hback : readBack values (some value) =
          some (if values.json.text value = "null" then none else some value) := by
        change (if values.text value = "null" then some none
          else (values.read (values.text value).toList).map some) =
          some (if values.text value = "null" then none else some value)
        rw [hread]
        split <;> rfl
      change (readBack values (some value)).map _ = _
      rw [hback]
      rfl

theorem escapeJson_reads (character : Char) (rest : List Char) :
    literal (escapeJson character ++ rest) = (literal rest).map (push character.toNat) := by
  unfold escapeJson
  split_ifs with hquote hslash hback htab hnewline hfeed hreturn hcontrol
  · rw [hquote]
    exact JsonText.literal_simple '"' _ rest (by decide) rfl
  · rw [hslash]
    exact JsonText.literal_simple '\\' _ rest (by decide) rfl
  · rw [hback]
    exact JsonText.literal_simple 'b' _ rest (by decide) rfl
  · rw [htab]
    exact JsonText.literal_simple 't' _ rest (by decide) rfl
  · rw [hnewline]
    exact JsonText.literal_simple 'n' _ rest (by decide) rfl
  · rw [hfeed]
    exact JsonText.literal_simple 'f' _ rest (by decide) rfl
  · rw [hreturn]
    exact JsonText.literal_simple 'r' _ rest (by decide) rfl
  · simp only [cons_append, nil_append, JsonText.literal_hex, JsonText.hexUnit_control _ hcontrol]
    rfl
  · exact JsonText.literal_plain character rest hquote hslash hcontrol

theorem quote_toList (text : String) : (quote text).toList = quoted escapeJson text.toList := by
  unfold quote quoted
  simp only [String.toList_append, String.reduceToList, String.toList_ofList, cons_append,
    nil_append]

theorem toString_toList (n : ℕ) : (toString n).toList = Nat.toDigits 10 n := Nat.toList_repr

theorem isRaw_quote (text : String) : IsRaw (quote text).toList := by
  rw [quote_toList]
  exact JsonText.isRaw_quoted _ _ fun c _ rest => escapeJson_reads c rest

theorem readString_quote (text : String) : readString (quote text).toList = some text := by
  rw [quote_toList, readString_quoted _ _ fun c _ rest => escapeJson_reads c rest,
    String.ofList_toList]

theorem isRaw_toString (n : ℕ) : IsRaw (toString n).toList := by
  rw [toString_toList]
  exact JsonText.isRaw_toDigits n

theorem readUnsigned_toString {largest n : ℕ} (hn : n ≤ largest) :
    readUnsigned largest (toString n).toList = some n := by
  rw [toString_toList]
  exact readUnsigned_toDigits hn

theorem envelope_toList (outer : Outer) : (envelope outer).toList = writeObject
    [("o".toList, (toString outer.o).toList), ("n".toList, (toString outer.n).toList),
      ("t".toList, (toString outer.t).toList), ("m".toList, '"' :: (outer.m.toList ++ ['"'])),
      ("b".toList, outer.b.toList)] := by
  unfold envelope writeObject
  rw [writeMembers, writeMembers, writeMembers, writeMembers, writeMembers]
  simp only [String.toList_append, String.reduceToList, cons_append, nil_append, append_assoc]

theorem failureText_toList (failure : Failure) : (failureText failure).toList = writeObject
    [("code".toList, (toString failure.code).toList),
      ("message".toList, (quote failure.message).toList)] := by
  unfold failureText writeObject
  rw [writeMembers, writeMembers]
  simp only [String.toList_append, String.reduceToList, cons_append, nil_append, append_assoc]

section
variable {json : Json}

def publishEntries (topic : String) (p : RawValue json) : List (List Char × List Char) :=
  [("topic".toList, (quote topic).toList), ("p".toList, p.text.toList)]

def callEntries (id : ℕ) (topic : String) (p : RawValue json) : List (List Char × List Char) :=
  [("id".toList, (toString id).toList), ("topic".toList, (quote topic).toList),
    ("p".toList, p.text.toList)]

def replyEntries (dest id : ℕ) (ok : Option json.Value) (err : Option Failure) :
    List (List Char × List Char) :=
  [("to".toList, (toString dest).toList), ("id".toList, (toString id).toList),
    ("ok".toList, ((ok.map json.text).getD "null").toList),
    ("err".toList, ((err.map failureText).getD "null").toList)]

theorem publishText_toList (topic : String) (p : RawValue json) :
    (bodyText (.publish topic p)).toList =
      writeObject [("p".toList, writeObject (publishEntries topic p))] := by
  unfold bodyText publishEntries writeObject
  rw [writeMembers, writeMembers, writeMembers]
  simp only [String.toList_append, String.reduceToList, cons_append, nil_append, append_assoc]

theorem callText_toList (id : ℕ) (topic : String) (p : RawValue json) :
    (bodyText (.call id topic p)).toList =
      writeObject [("c".toList, writeObject (callEntries id topic p))] := by
  unfold bodyText callEntries writeObject
  rw [writeMembers, writeMembers, writeMembers, writeMembers]
  simp only [String.toList_append, String.reduceToList, cons_append, nil_append, append_assoc]

theorem replyText_toList (dest id : ℕ) (ok : Option json.Value) (err : Option Failure) :
    (bodyText (.reply dest id ok err)).toList =
      writeObject [("r".toList, writeObject (replyEntries dest id ok err))] := by
  unfold bodyText replyEntries writeObject
  rw [writeMembers, writeMembers, writeMembers, writeMembers, writeMembers]
  simp only [String.toList_append, String.reduceToList, cons_append, nil_append, append_assoc]

end

theorem isRaw_null : IsRaw "null".toList := by
  unfold IsRaw
  decide +kernel

theorem isRaw_failureText (failure : Failure) : IsRaw (failureText failure).toList := by
  rw [failureText_toList]
  refine isRaw_written _ ?_
  simp only [forall_mem_cons, not_mem_nil, false_implies, implies_true, and_true]
  have hcode : Plain "code".toList := by decide
  have hmessage : Plain "message".toList := by decide
  exact ⟨⟨hcode, isRaw_toString _⟩, hmessage, isRaw_quote _⟩

theorem readFailure_text {failure : Failure} (hcode : failure.code ≤ u16Max) :
    readFailure (failureText failure).toList = some failure := by
  have hparts : structParts ["code", "message"] (failureText failure).toList =
      some [some (toString failure.code).toList, some (quote failure.message).toList] := by
    rw [failureText_toList, structParts_written _ _]
    · simp only [map_cons, map_nil, String.ofList_toList]
      rfl
    · simp only [forall_mem_cons, not_mem_nil, false_implies, implies_true, and_true]
      have hcode : Plain "code".toList := by decide
      have hmessage : Plain "message".toList := by decide
      exact ⟨⟨hcode, isRaw_toString _⟩, hmessage, isRaw_quote _⟩
  unfold readFailure
  rw [hparts]
  dsimp only
  rw [readUnsigned_toString hcode, readString_quote]
  rfl

section
variable {values : ValueCodec}

variable (topic : String) (p : RawValue values.json)

theorem rawValue_isRaw : IsRaw p.text.toList := by
  have hvalid := p.valid
  change decide (skipValue p.text.toList.length p.text.toList = some []) = true at hvalid
  unfold IsRaw
  exact of_decide_eq_true hvalid

theorem readRaw_text : readRaw values p.text.toList = some p := by
  have hvalid : values.json.valid (String.ofList p.text.toList) = true := by
    rw [String.ofList_toList]
    exact p.valid
  unfold readRaw
  rw [dif_pos hvalid]
  obtain ⟨text, _⟩ := p
  simp only [String.ofList_toList]

theorem publishEntries_raw : ∀ entry ∈ publishEntries topic p, Plain entry.1 ∧ IsRaw entry.2 := by
  unfold publishEntries
  simp only [forall_mem_cons, not_mem_nil, false_implies, implies_true, and_true]
  have htopic : Plain "topic".toList := by decide
  have hp : Plain "p".toList := by decide
  exact ⟨⟨htopic, isRaw_quote _⟩, hp, rawValue_isRaw p⟩

theorem callEntries_raw (id : ℕ) (topic : String) (p : RawValue values.json) :
    ∀ entry ∈ callEntries id topic p, Plain entry.1 ∧ IsRaw entry.2 := by
  unfold callEntries
  simp only [forall_mem_cons, not_mem_nil, false_implies, implies_true, and_true]
  have hid : Plain "id".toList := by decide
  have htopic : Plain "topic".toList := by decide
  have hp : Plain "p".toList := by decide
  exact ⟨⟨hid, isRaw_toString _⟩, ⟨htopic, isRaw_quote _⟩, hp, rawValue_isRaw p⟩

theorem replyEntries_raw (hraw : ∀ value, IsRaw (values.text value).toList) (dest id : ℕ)
    (ok : Option values.json.Value) (err : Option Failure) :
    ∀ entry ∈ replyEntries dest id ok err, Plain entry.1 ∧ IsRaw entry.2 := by
  have hok : IsRaw ((ok.map values.json.text).getD "null").toList := by
    cases ok with
    | none => exact isRaw_null
    | some value => exact hraw value
  have herr : IsRaw ((err.map failureText).getD "null").toList := by
    cases err with
    | none => exact isRaw_null
    | some failure => exact isRaw_failureText failure
  unfold replyEntries
  simp only [forall_mem_cons, not_mem_nil, false_implies, implies_true, and_true]
  have hto : Plain "to".toList := by decide
  have hid : Plain "id".toList := by decide
  have hokKey : Plain "ok".toList := by decide
  have herrKey : Plain "err".toList := by decide
  exact ⟨⟨hto, isRaw_toString _⟩, ⟨hid, isRaw_toString _⟩, ⟨hokKey, hok⟩, herrKey, herr⟩

theorem bodyText_toList (hraw : ∀ value, IsRaw (values.text value).toList)
    (body : Body values.json) :
    ∃ variant entries, (bodyText body).toList = writeObject [(variant, writeObject entries)] ∧
      Plain variant ∧ ∀ entry ∈ entries, Plain entry.1 ∧ IsRaw entry.2 := by
  cases body with
  | publish topic p =>
    exact ⟨_, _, publishText_toList topic p, by decide, publishEntries_raw topic p⟩
  | call id topic p =>
    exact ⟨_, _, callText_toList id topic p, by decide, callEntries_raw id topic p⟩
  | reply dest id ok err =>
    exact ⟨_, _, replyText_toList dest id ok err, by decide, replyEntries_raw hraw dest id ok err⟩

theorem variant_raw {variant : List Char} {entries : List (List Char × List Char)}
    (hvariant : Plain variant)
    (hall : ∀ entry ∈ entries, Plain entry.1 ∧ IsRaw entry.2) :
    ∀ entry ∈ [(variant, writeObject entries)], Plain entry.1 ∧ IsRaw entry.2 := by
  intro entry hentry
  rw [mem_singleton.mp hentry]
  exact ⟨hvariant, isRaw_written entries hall⟩

theorem isRaw_bodyText (hraw : ∀ value, IsRaw (values.text value).toList)
    (body : Body values.json) :
    IsRaw (bodyText body).toList := by
  obtain ⟨variant, entries, htext, hvariant, hall⟩ := bodyText_toList hraw body
  rw [htext]
  exact isRaw_written _ (variant_raw hvariant hall)

theorem readFields_variant (variant : List Char) {entries : List (List Char × List Char)}
    (hvariant : Plain variant)
    (hall : ∀ entry ∈ entries, Plain entry.1 ∧ IsRaw entry.2) :
    readFields (writeObject [(variant, writeObject entries)]) =
      some [(String.ofList variant, writeObject entries)] :=
  readFields_written _ (variant_raw hvariant hall)

theorem readPublish_entries :
    readPublish values (writeObject (publishEntries topic p)) = some (.publish topic p) := by
  have hparts : structParts ["topic", "p"] (writeObject (publishEntries topic p)) =
      some [some (quote topic).toList, some p.text.toList] := by
    rw [structParts_written _ _ (publishEntries_raw topic p)]
    unfold publishEntries
    simp only [map_cons, map_nil, String.ofList_toList]
    rfl
  unfold readPublish
  rw [hparts]
  dsimp only
  rw [readString_quote, readRaw_text]
  rfl

theorem readCall_entries {id : ℕ} (topic : String) (p : RawValue values.json) (hid : id ≤ u64Max) :
    readCall values (writeObject (callEntries id topic p)) = some (.call id topic p) := by
  have hparts : structParts ["id", "topic", "p"] (writeObject (callEntries id topic p)) =
      some [some (toString id).toList, some (quote topic).toList, some p.text.toList] := by
    rw [structParts_written _ _ (callEntries_raw id topic p)]
    unfold callEntries
    simp only [map_cons, map_nil, String.ofList_toList]
    rfl
  unfold readCall
  rw [hparts]
  dsimp only
  rw [readUnsigned_toString hid, readString_quote, readRaw_text]
  rfl

theorem readOption_ok (ok : Option values.json.Value) :
    readOption values.read ((ok.map values.json.text).getD "null").toList = readBack values ok := by
  cases ok with
  | none => exact if_pos rfl
  | some value =>
    change readOption values.read (values.json.text value).toList =
      if values.json.text value = "null" then some none
      else (values.read (values.json.text value).toList).map some
    unfold readOption
    by_cases hnull : values.json.text value = "null"
    · rw [if_pos hnull, if_pos (by rw [hnull])]
    · have hlist : (values.json.text value).toList ≠ "null".toList :=
        fun h => hnull (String.toList_inj.mp h)
      rw [if_neg hnull, if_neg hlist]

theorem readOption_err {err : Option Failure} (hcode : ∀ failure ∈ err, failure.code ≤ u16Max) :
    readOption readFailure ((err.map failureText).getD "null").toList = some err := by
  cases err with
  | none => rfl
  | some failure =>
    have hne : (failureText failure).toList ≠ "null".toList := by
      rw [failureText_toList]
      intro h
      exact absurd (congrArg List.head? h) (by simp [writeObject])
    change readOption readFailure (failureText failure).toList = _
    unfold readOption
    rw [if_neg hne, readFailure_text (hcode failure rfl)]
    rfl

theorem readReply_entries (hraw : ∀ value, IsRaw (values.text value).toList) {dest id : ℕ}
    (ok : Option values.json.Value) {err : Option Failure} (hdest : dest ≤ u64Max)
      (hid : id ≤ u64Max)
    (hcode : ∀ failure ∈ err, failure.code ≤ u16Max) :
    readReply values (writeObject (replyEntries dest id ok err)) =
      heard values (.reply dest id ok err) := by
  have hparts : structParts ["to", "id", "ok", "err"] (writeObject (replyEntries dest id ok err)) =
      some [some (toString dest).toList, some (toString id).toList,
        some ((ok.map values.json.text).getD "null").toList,
        some ((err.map failureText).getD "null").toList] := by
    rw [structParts_written _ _ (replyEntries_raw hraw dest id ok err)]
    unfold replyEntries
    simp only [map_cons, map_nil, String.ofList_toList]
    rfl
  unfold readReply
  rw [hparts]
  dsimp only
  rw [readUnsigned_toString hdest, readUnsigned_toString hid]
  simp only [Option.bind_some, Option.elim_some, readOption_ok, readOption_err hcode,
    Option.map_some, heard]
  cases readBack values ok <;> rfl

theorem parseBody_bodyText (hraw : ∀ value, IsRaw (values.text value).toList)
    {body : Body values.json} (hsized : Sized body) :
    parseBody values (bodyText body) = heard values body := by
  cases body with
  | publish topic p =>
    have hfields : readFields (bodyText (.publish topic p)).toList =
        some [("p", writeObject (publishEntries topic p))] := by
      rw [publishText_toList, readFields_variant _ (by decide)
        (publishEntries_raw topic p), String.ofList_toList]
    unfold parseBody
    rw [hfields]
    dsimp only
    rw [if_pos rfl]
    exact readPublish_entries topic p
  | call id topic p =>
    have hfields : readFields (bodyText (.call id topic p)).toList =
        some [("c", writeObject (callEntries id topic p))] := by
      rw [callText_toList, readFields_variant _ (by decide)
        (callEntries_raw id topic p), String.ofList_toList]
    unfold parseBody
    rw [hfields]
    dsimp only
    rw [if_neg (by decide), if_pos rfl]
    exact readCall_entries topic p hsized
  | reply dest id ok err =>
    have hfields : readFields (bodyText (.reply dest id ok err)).toList =
        some [("r", writeObject (replyEntries dest id ok err))] := by
      rw [replyText_toList, readFields_variant _ (by decide)
        (replyEntries_raw hraw dest id ok err), String.ofList_toList]
    unfold parseBody
    rw [hfields]
    dsimp only
    rw [if_neg (by decide), if_neg (by decide), if_pos rfl]
    exact readReply_entries hraw ok hsized.1 hsized.2.1 hsized.2.2

end

theorem hex_plain (tag : List UInt8) : Plain (hex tag).toList := by
  have hdigit : ∀ n < 16, (Nat.digitChar n) ≠ '"' ∧ (Nat.digitChar n) ≠ '\\' ∧
      ¬ (Nat.digitChar n).toNat < 32 := by
    intro n hn
    interval_cases n <;> decide
  intro c hc
  unfold hex at hc
  rw [String.toList_ofList, mem_flatMap] at hc
  obtain ⟨byte, _, hbyte⟩ := hc
  have hlt : byte.toNat < 256 := byte.toNat_lt
  unfold hexByte at hbyte
  rw [mem_cons, mem_singleton] at hbyte
  rcases hbyte with rfl | rfl
  · exact hdigit _ (by omega)
  · exact hdigit _ (Nat.mod_lt _ (by decide))

theorem quoted_plain (text : List Char) : '"' :: (text ++ ['"']) = quoted (fun c => [c]) text := by
  unfold quoted
  rw [flatMap_singleton']

theorem parseOuter_envelope {origin counter time : ℕ} (tag : List UInt8) {body : String}
    (horigin : origin ≤ u64Max) (hcounter : counter ≤ u64Max) (htime : time ≤ u64Max)
    (hbody : IsRaw body.toList) :
    parseOuter (envelope ⟨origin, counter, time, hex tag, body⟩) =
      some ⟨origin, counter, time, hex tag, body⟩ := by
  have hescape : ∀ c ∈ (hex tag).toList, ∀ rest, literal ([c] ++ rest) =
      (literal rest).map (push c.toNat) := fun c hc rest =>
    JsonText.literal_plain c rest (hex_plain tag c hc).1 (hex_plain tag c hc).2.1
      (hex_plain tag c hc).2.2
  have hmac : IsRaw ('"' :: ((hex tag).toList ++ ['"'])) := by
    rw [quoted_plain]
    exact JsonText.isRaw_quoted _ _ hescape
  have hread : readString ('"' :: ((hex tag).toList ++ ['"'])) = some (hex tag) := by
    rw [quoted_plain, readString_quoted _ _ hescape, String.ofList_toList]
  have hparts : structParts ["o", "n", "t", "m", "b"]
      (envelope ⟨origin, counter, time, hex tag, body⟩).toList =
      some [some (toString origin).toList, some (toString counter).toList,
        some (toString time).toList, some ('"' :: ((hex tag).toList ++ ['"'])),
        some body.toList] := by
    rw [envelope_toList, structParts_written _ _]
    · simp only [map_cons, map_nil, String.ofList_toList]
      rfl
    · simp only [forall_mem_cons, not_mem_nil, false_implies, implies_true, and_true]
      have ho : Plain "o".toList := by decide
      have hn : Plain "n".toList := by decide
      have ht : Plain "t".toList := by decide
      have hm : Plain "m".toList := by decide
      have hb : Plain "b".toList := by decide
      exact ⟨⟨ho, isRaw_toString _⟩, ⟨hn, isRaw_toString _⟩, ⟨ht, isRaw_toString _⟩, ⟨hm, hmac⟩,
        hb, hbody⟩
  unfold parseOuter
  rw [hparts]
  dsimp only
  rw [readUnsigned_toString horigin, readUnsigned_toString hcounter,
    readUnsigned_toString htime, hread]
  simp only [Option.bind_some, Option.map_some, String.ofList_toList]

def macInput (origin counter time : ℕ) (body : String) : String :=
  toString origin ++ "." ++ toString counter ++ "." ++ toString time ++ "." ++ body

theorem toDigits_dot_inj {a b : ℕ} {rest rest' : List Char}
    (h : Nat.toDigits 10 a ++ '.' :: rest = Nat.toDigits 10 b ++ '.' :: rest') :
    a = b ∧ rest = rest' := by
  have hdigit : ∀ n : ℕ, ∀ c ∈ Nat.toDigits 10 n, c.isDigit = true := JsonText.toDigits_isDigit
  have htake : ∀ (n : ℕ) (rest : List Char),
      (Nat.toDigits 10 n ++ '.' :: rest).takeWhile Char.isDigit = Nat.toDigits 10 n := by
    intro n rest
    rw [takeWhile_append_of_pos (hdigit n), takeWhile_cons_of_neg (by decide), append_nil]
  have hdigits : Nat.toDigits 10 a = Nat.toDigits 10 b := by
    rw [← htake a rest, h, htake b rest']
  have hvalue := congrArg (fun digits => Nat.ofDigitChars 10 digits 0) hdigits
  simp only [Nat.ofDigitChars_ten_toDigits] at hvalue
  rw [hdigits] at h
  exact ⟨hvalue, tail_eq_of_cons_eq (append_cancel_left h)⟩

theorem macInput_inj {o n t o' n' t' : ℕ} {b b' : String}
    (h : macInput o n t b = macInput o' n' t' b') : o = o' ∧ n = n' ∧ t = t' ∧ b = b' := by
  have hlist := congrArg String.toList h
  unfold macInput at hlist
  simp only [String.toList_append, toString_toList, String.reduceToList, append_assoc,
    cons_append, nil_append] at hlist
  obtain ⟨ho, hlist⟩ := toDigits_dot_inj hlist
  obtain ⟨hn, hlist⟩ := toDigits_dot_inj hlist
  obtain ⟨ht, hlist⟩ := toDigits_dot_inj hlist
  exact ⟨ho, hn, ht, String.toList_inj.mp hlist⟩

theorem utf8Len_digits {digits : List Char} (hall : ∀ c ∈ digits, c.isDigit = true) :
    String.utf8Len digits = digits.length := by
  induction digits with
  | nil => rfl
  | cons c digits ih =>
    have hdigit := hall c mem_cons_self
    have hsize : c.utf8Size = 1 := by
      simp only [Char.isDigit, Bool.and_eq_true, decide_eq_true_eq] at hdigit
      have hle : c.val ≤ 127 := UInt32.le_trans hdigit.2 (by decide)
      exact Char.utf8Size_eq_one_iff.mpr hle
    rw [String.utf8Len_cons, hsize, length_cons, ih fun d hd => hall d (mem_cons_of_mem c hd)]

theorem toString_utf8ByteSize {n : ℕ} (hn : n ≤ u64Max) : (toString n).utf8ByteSize ≤ 20 := by
  have hlt : n < 10 ^ 20 := Nat.lt_of_le_of_lt hn (by decide)
  rw [← String.utf8Len_toList, toString_toList, utf8Len_digits (JsonText.toDigits_isDigit n)]
  exact (Nat.length_toDigits_le_iff (by decide) (by decide)).mpr hlt

theorem envelope_utf8ByteSize {origin counter time : ℕ} {tag : List UInt8} (body : String)
    (horigin : origin ≤ u64Max) (hcounter : counter ≤ u64Max) (htime : time ≤ u64Max)
    (htag : tag.length = 32) :
    (envelope ⟨origin, counter, time, hex tag, body⟩).utf8ByteSize ≤
      envelopeOverhead + body.utf8ByteSize := by
  have ho := toString_utf8ByteSize horigin
  have hn := toString_utf8ByteSize hcounter
  have ht := toString_utf8ByteSize htime
  have hm : (hex tag).utf8ByteSize = 64 := by rw [hex_utf8ByteSize, htag]
  have hoverhead : envelopeOverhead = 28 + 60 + 64 := by decide
  have hopen : "\x7b\"o\":".utf8ByteSize = 5 := by decide
  have hsecond : ",\"n\":".utf8ByteSize = 5 := by decide
  have hthird : ",\"t\":".utf8ByteSize = 5 := by decide
  have hfourth : ",\"m\":\"".utf8ByteSize = 6 := by decide
  have hfifth : "\",\"b\":".utf8ByteSize = 6 := by decide
  have hclose : "\x7d".utf8ByteSize = 1 := by decide
  unfold envelope
  simp only [String.utf8ByteSize_append]
  omega

theorem checkLen_ok {len : ℕ} (h : checkLen len = .ok ()) : len ≤ maxNotifyBytes := by
  unfold checkLen at h
  split at h
  · cases h
  · exact Nat.le_of_not_lt ‹_›

section
variable (values : ValueCodec) (hmac : List UInt8 → String → Vector UInt8 32)

theorem sealText_utf8ByteSize {key : Key} {origin counter time : ℕ} {body : Body values.json}
    {text : String} (horigin : origin ≤ u64Max) (hcounter : counter ≤ u64Max)
    (htime : time ≤ u64Max)
    (hseal : sealText (serde values hmac) key origin counter time body = .ok text) :
    text.utf8ByteSize ≤ maxNotifyBytes := by
  have htext := sealText_ok _ hseal
  have hlen : checkLen (envelopeOverhead + (bodyText body).utf8ByteSize) = .ok () := by
    unfold sealText at hseal
    split at hseal
    · cases hseal
    · assumption
  rw [htext]
  exact Nat.le_trans (envelope_utf8ByteSize _ horigin hcounter htime
    (mac_length _ key origin counter time _)) (checkLen_ok hlen)

theorem sealText_opens (hraw : ∀ value, IsRaw (values.text value).toList)
    (key : Key) (origin counter time now : ℕ)
    (body : Body values.json) (text : String) (horigin : origin ≤ u64Max)
    (hcounter : counter ≤ u64Max) (htime : time ≤ u64Max) (hsized : Sized body)
    (hseal : sealText (serde values hmac) key origin counter time body = .ok text)
    (hskew : absDiff now time ≤ maxSkewMs) :
    openText (serde values hmac) key text now =
      (heard values body).map fun body => ⟨origin, counter, body⟩ := by
  have htext := sealText_ok _ hseal
  have hparse := parseOuter_envelope
    (mac (serde values hmac) key origin counter time (bodyText body)) horigin
    hcounter htime (isRaw_bodyText hraw body)
  have hdecode := decodeHex_hex (mac_length (serde values hmac) key origin counter time
    (bodyText body))
  have houter : (serde values hmac).outer = parseOuter := rfl
  have hbody : (serde values hmac).body = parseBody values := rfl
  unfold openText
  rw [houter, hbody, htext, hparse, Option.bind_some]
  dsimp only
  rw [hdecode, Option.bind_some, if_neg (not_not.mpr rfl), if_neg (Nat.not_lt.mpr hskew),
    parseBody_bodyText hraw hsized]

theorem openText_some {key : Key} {text : String} {now : ℕ} {opened : Opened values.json}
    (hopen : openText (serde values hmac) key text now = some opened) :
    ∃ outer, parseOuter text = some outer ∧ opened.origin = outer.o ∧ opened.counter = outer.n ∧
      parseBody values outer.b = some opened.body ∧ absDiff now outer.t ≤ maxSkewMs ∧
      decodeHex outer.m =
        some (hmac key.secret (macInput outer.o outer.n outer.t outer.b)).toList := by
  unfold openText at hopen
  obtain ⟨outer, houter, hopen⟩ := Option.bind_eq_some_iff.mp hopen
  obtain ⟨tag, htag, hopen⟩ := Option.bind_eq_some_iff.mp hopen
  split_ifs at hopen with hmac hskew
  obtain ⟨body, hbody, rfl⟩ := Option.map_eq_some_iff.mp hopen
  refine ⟨outer, houter, rfl, rfl, hbody, Nat.le_of_not_lt hskew, ?_⟩
  rw [htag, ← not_not.mp hmac]
  rfl

theorem outer_eq_sealed {inputs : Set String} {key : Key} {outer : Outer}
    {origin counter time : ℕ} {body : Body values.json}
    (hinj : Set.InjOn (hmac key.secret) inputs)
    (hsealed : macInput origin counter time (bodyText body) ∈ inputs)
    (houter : macInput outer.o outer.n outer.t outer.b ∈ inputs)
    (htag : decodeHex outer.m =
      some (hmac key.secret (macInput outer.o outer.n outer.t outer.b)).toList)
    (hsame : decodeHex outer.m =
      some (mac (serde values hmac) key origin counter time (bodyText body))) :
    outer.o = origin ∧ outer.n = counter ∧ outer.t = time ∧ outer.b = bodyText body := by
  have hlists : (hmac key.secret (macInput outer.o outer.n outer.t outer.b)).toList =
      (hmac key.secret (macInput origin counter time (bodyText body))).toList :=
    Option.some.inj (htag.symm.trans hsame)
  have hinput := hinj houter hsealed (Vector.toList_inj.mp hlists)
  exact macInput_inj hinput

theorem sealed_envelopes_open (hlaw : values.Lawful) (key : Key) :
    (∀ origin counter time : ℕ, ∀ (body : Body values.json) (text : String),
      origin ≤ u64Max → counter ≤ u64Max → time ≤ u64Max → Sized body →
      sealText (serde values hmac) key origin counter time body = .ok text →
        text.utf8ByteSize ≤ 7999 ∧ ∀ now, absDiff now time ≤ 30000 →
          openText (serde values hmac) key text now = some ⟨origin, counter, received body⟩) ∧
    ∀ (text : String) (now : ℕ) (opened : Opened values.json),
      openText (serde values hmac) key text now = some opened →
      ∃ outer, parseOuter text = some outer ∧ opened.origin = outer.o ∧
        opened.counter = outer.n ∧ parseBody values outer.b = some opened.body ∧
        absDiff now outer.t ≤ 30000 ∧
        decodeHex outer.m =
          some (hmac key.secret (macInput outer.o outer.n outer.t outer.b)).toList ∧
        (∀ (o n t : ℕ) (b : String), macInput o n t b = macInput outer.o outer.n outer.t outer.b →
          o = outer.o ∧ n = outer.n ∧ t = outer.t ∧ b = outer.b) ∧
        ∀ (inputs : Set String) (origin counter time : ℕ) (body : Body values.json),
          Set.InjOn (hmac key.secret) inputs →
          macInput origin counter time (bodyText body) ∈ inputs →
          macInput outer.o outer.n outer.t outer.b ∈ inputs →
          decodeHex outer.m =
            some (mac (serde values hmac) key origin counter time (bodyText body)) →
          outer.o = origin ∧ outer.n = counter ∧ outer.t = time ∧ outer.b = bodyText body := by
  constructor
  · intro origin counter time body text horigin hcounter htime hsized hseal
    refine ⟨sealText_utf8ByteSize values hmac horigin hcounter htime hseal, fun now hskew => ?_⟩
    rw [sealText_opens values hmac hlaw.raw key origin counter time now body text horigin hcounter
      htime hsized hseal hskew, heard_lawful hlaw]
    rfl
  · intro text now opened hopen
    obtain ⟨outer, houter, horigin, hcounter, hbody, hskew, htag⟩ :=
      openText_some values hmac hopen
    refine ⟨outer, houter, horigin, hcounter, hbody, hskew, htag, ?_, ?_⟩
    · intro o n t b h
      exact macInput_inj h
    · intro inputs origin counter time body hinj hsealed hinput hsame
      exact outer_eq_sealed values hmac hinj hsealed
        hinput htag hsame

end

def literalText : Option Bool → String
  | none => "null"
  | some false => "false"
  | some true => "true"

def readLiteral (raw : List Char) : Option (Option Bool) :=
  if raw = "null".toList then some none
  else if raw = "false".toList then some (some false)
  else if raw = "true".toList then some (some true)
  else none

def literals : ValueCodec := ⟨Option Bool, none, literalText, readLiteral⟩

theorem literals_lawful : literals.Lawful where
  raw value := by
    unfold IsRaw
    match value with
    | none | some false | some true => decide +kernel
  read value := by
    match value with
    | none | some false | some true => rfl

def busKey : Key := ⟨List.replicate 32 7, by decide⟩

def literalReply (value : Option Bool) : Body literals.json := .reply 2 5 (some value) none

theorem literalReply_seals (hmac : List UInt8 → String → Vector UInt8 32) (value : Option Bool) :
    sealText (serde literals hmac) busKey 1 0 0 (literalReply value) = .ok (envelope ⟨1, 0, 0,
      hex (mac (serde literals hmac) busKey 1 0 0 (bodyText (literalReply value))),
      bodyText (literalReply value)⟩) := by
  have hlen : checkLen (envelopeOverhead + (bodyText (literalReply value)).utf8ByteSize) =
      .ok () := by
    match value with
    | none | some false | some true => rfl
  unfold sealText
  rw [hlen]

theorem sealed_envelopes_open_true : literals.Lawful ∧
    ∀ hmac : List UInt8 → String → Vector UInt8 32, ∃ text,
      sealText (serde literals hmac) busKey 1 0 0 (literalReply (some true)) = .ok text ∧
      openText (serde literals hmac) busKey text 7 = some ⟨1, 0, literalReply (some true)⟩ := by
  refine ⟨literals_lawful, fun hmac => ⟨_, literalReply_seals hmac (some true), ?_⟩⟩
  exact ((sealed_envelopes_open literals hmac literals_lawful busKey).1 1 0 0
    (literalReply (some true)) _ (by decide) (by decide) (by decide)
    ⟨by decide, by decide, nofun⟩ (literalReply_seals hmac (some true))).2 7
    (by decide)

/-- A reply whose value is `null` opens as a reply without a value. -/
theorem null_reply_opens_empty : literals.Lawful ∧
    ∀ hmac : List UInt8 → String → Vector UInt8 32, ∃ text,
      sealText (serde literals hmac) busKey 1 0 0 (literalReply none) = .ok text ∧
      openText (serde literals hmac) busKey text 0 = some ⟨1, 0, .reply 2 5 none none⟩ ∧
      openText (serde literals hmac) busKey text 0 ≠ some ⟨1, 0, literalReply none⟩ := by
  refine ⟨literals_lawful, fun hmac => ⟨_, literalReply_seals hmac none, ?_⟩⟩
  have hopen := sealText_opens literals hmac literals_lawful.raw busKey 1 0 0 0 (literalReply none) _
    (by decide) (by decide) (by decide) ⟨by decide, by decide, nofun⟩
    (literalReply_seals hmac none) (by decide)
  have hheard : heard literals (literalReply none) = some (.reply 2 5 none none) := rfl
  rw [hheard, Option.map_some] at hopen
  refine ⟨hopen, ?_⟩
  rw [hopen]
  intro heq
  cases heq

end Stakit.PostgresBroker
