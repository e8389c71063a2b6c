import Stakit.EventBodies
import Stakit.ProviderStreams
import Stakit.TextParts

set_option autoImplicit false

namespace Stakit.McpHttp
open SerdeJson ProviderStreams EventBodies TextParts List

section
variable {N : Type} (serde : Serde N)

inductive AgentError where
  | mcp (message : String)
  deriving DecidableEq

def idOf (message : Value N) : Option ℕ := serde.countMember message "id"

def dataValue (line : List Char) : Option (List Char) :=
  (stripPrefix "data:".toList line).map fun rest => (stripPrefix [' '] rest).getD rest

def parse (data : List (List Char)) : Option (Value N) :=
  (serde.fromStr (String.ofList (joinLines data))).toOption

/-- The first message with the id; events without data and texts that are not JSON are passed
over. -/
def findAnswer (id : ℕ) : List (List Char) → Option (Value N)
  | [] => none
  | event :: events =>
    let data := (lines event).filterMap dataValue
    if data = [] then findAnswer id events
    else
      match parse serde data with
      | none => findAnswer id events
      | some message =>
        if idOf serde message = some id then some message else findAnswer id events

def fromEventStream (body : ByteArray) (id : ℕ) : Except AgentError (Value N) :=
  match String.fromUTF8? body with
  | none => .error (.mcp "response is not UTF-8")
  | some text =>
    match findAnswer serde id (splitBlank (unifyEnds text.toList)) with
    | some message => .ok message
    | none => .error (.mcp "the stream ended without an answer")

def resultOf (message : Value N) : Except AgentError (Value N) :=
  match get message "error" with
  | some error =>
    let text := ((get error "message").bind asStr).getD "the server returned an error"
    .error (.mcp (String.ofList (text.toList.take 200)))
  | none =>
    match get message "result" with
    | some result => .ok result
    | none => .error (.mcp "the answer has no result")

def fromSlice (body : ByteArray) : Option (Value N) :=
  (String.fromUTF8? body).bind fun text => (serde.fromStr text).toOption

def fromJson (body : ByteArray) (id : ℕ) : Except AgentError (Value N) :=
  match fromSlice serde body with
  | none => .error (.mcp "the answer is not JSON")
  | some message =>
    if idOf serde message = some id then .ok message
    else .error (.mcp "the answer is for another request")

def isStream (contentType : Option String) : Bool :=
  contentType.any fun kind => "text/event-stream".toList.isPrefixOf (kind.toList.map Char.toLower)

def answer (contentType : Option String) (body : ByteArray) (id : ℕ) :
    Except AgentError (Value N) := do
  let message ← if isStream contentType then fromEventStream serde body id
    else fromJson serde body id
  resultOf message

def fieldValue (line : Line) : Option Line :=
  if line = "data".toList then some [] else dataValue line

/-- The messages of the events that a body is written with. -/
def messagesOf (content : List (Line × Ending)) (tail : Line) : List (Value N) :=
  (fieldsOf fieldValue (groups (content.map Prod.fst ++ [tail]))).filterMap (parse serde)

def bodyOf (content : List (Line × Ending)) (tail : Line) : ByteArray :=
  (String.ofList (written content tail)).toUTF8

/-- Empty lines mean nothing in a JSON text, and an empty text is none. -/
structure Decoding : Prop where
  blank : ∀ data, parse serde data = parse serde (data.filter (· ≠ []))
  empty : parse serde [] = none

structure IsResponse (id : ℕ) (message : Value N) : Prop where
  object : isObject message = true
  noMethod : get message "method" = none
  outcome : (get message "result").isSome ∨ (get message "error").isSome
  id : idOf serde message = some id

/-- A notification or a request. -/
structure IsCall (message : Value N) : Prop where
  method : (get message "method").isSome
  noResult : get message "result" = none
  noError : get message "error" = none

def Beside (id : ℕ) (message : Value N) : Prop :=
  IsCall message ∨ idOf serde message ≠ some id

/-- The one response is found and read as where it comes alone, and where there is none the outcome
is an error. -/
def FindsAnswer (content : List (Line × Ending)) (tail : Line) (id : ℕ) : Prop :=
  (∀ before response after, messagesOf serde content tail = before ++ response :: after →
    IsResponse serde id response → (∀ message ∈ before ++ after, Beside serde id message) →
      fromEventStream serde (bodyOf content tail) id = .ok response ∧
      ∀ contentType plainType body, isStream contentType = true → isStream plainType = false →
        fromSlice serde body = some response →
          answer serde contentType (bodyOf content tail) id = resultOf response ∧
          answer serde plainType body id = resultOf response) ∧
  ((∀ message ∈ messagesOf serde content tail, Beside serde id message) →
    ∀ contentType, isStream contentType = true →
      ∃ error, answer serde contentType (bodyOf content tail) id = .error error)

/-- No request of the server with the id comes before the response to it. -/
def Unhindered (content : List (Line × Ending)) (tail : Line) (id : ℕ) : Prop :=
  ∀ before response after, messagesOf serde content tail = before ++ response :: after →
    IsResponse serde id response → (∀ message ∈ before ++ after, Beside serde id message) →
      ∀ message ∈ before, idOf serde message ≠ some id

variable {serde}

theorem findAnswer_eq (id : ℕ) (events : List (List Char)) : findAnswer serde id events =
    ((fieldsOf dataValue (events.map lines)).filterMap (parse serde)).find?
      fun message => idOf serde message = some id := by
  induction events with
  | nil => rfl
  | cons event events ih =>
    rw [map_cons, fieldsOf_cons, findAnswer]
    by_cases hdata : (lines event).filterMap dataValue = []
    · rw [if_pos hdata, if_pos hdata]
      exact ih
    · rw [if_neg hdata, if_neg hdata]
      cases hparse : parse serde ((lines event).filterMap dataValue) with
      | none =>
        rw [filterMap_cons_none hparse]
        exact ih
      | some message =>
        rw [filterMap_cons_some hparse, List.find?_cons]
        by_cases hid : idOf serde message = some id
        · simp only [hid, if_true, decide_true]
        · simp only [hid, if_false, decide_false]
          exact ih

theorem filter_values (event : List Line) :
    (event.filterMap fieldValue).filter (· ≠ []) = (event.filterMap dataValue).filter (· ≠ []) := by
  induction event with
  | nil => rfl
  | cons line event ih =>
    by_cases hline : line = "data".toList
    · have hbare : fieldValue line = some [] := if_pos hline
      have hnone : dataValue line = none := by
        rw [hline]
        decide
      rw [filterMap_cons_some hbare, filterMap_cons_none hnone, filter_cons_of_neg (by simp), ih]
    · have hsame : fieldValue line = dataValue line := if_neg hline
      rw [filterMap_cons, filterMap_cons, hsame]
      cases dataValue line with
      | none => exact ih
      | some rest =>
        dsimp only
        rw [filter_cons, filter_cons, ih]

theorem filterMap_fieldsOf (hdecode : Decoding serde) (value : Line → Option Line)
    (events : List (List Line)) : (fieldsOf value events).filterMap (parse serde) =
      events.filterMap fun event => parse serde (event.filterMap value) := by
  induction events with
  | nil => rfl
  | cons event events ih =>
    rw [fieldsOf_cons]
    by_cases hfields : event.filterMap value = []
    · rw [if_pos hfields, filterMap_cons_none (by rw [hfields, hdecode.empty]), ih]
    · rw [if_neg hfields, filterMap_cons, filterMap_cons, ih]

theorem messages_read (hdecode : Decoding serde) {content : List (Line × Ending)} {tail : Line}
    (hcontent : ∀ line ∈ content, Plain line.1) (htail : Plain tail) :
    (fieldsOf dataValue ((splitBlank (unifyEnds (written content tail))).map lines)).filterMap
      (parse serde) = messagesOf serde content tail := by
  unfold messagesOf
  rw [fieldsOf_written dataValue rfl hcontent htail, filterMap_fieldsOf hdecode,
    filterMap_fieldsOf hdecode]
  congr 1
  funext event
  rw [hdecode.blank (event.filterMap dataValue), hdecode.blank (event.filterMap fieldValue),
    filter_values]

theorem fromUTF8_bodyOf (content : List (Line × Ending)) (tail : Line) :
    String.fromUTF8? (bodyOf content tail) = some (String.ofList (written content tail)) := by
  unfold bodyOf
  rw [String.toUTF8_eq_toByteArray]
  exact dif_pos (String.isValidUTF8 _)

theorem fromEventStream_eq (hdecode : Decoding serde) (content : List (Line × Ending))
    (tail : Line) (id : ℕ) (hcontent : ∀ line ∈ content, Plain line.1) (htail : Plain tail) :
    fromEventStream serde (bodyOf content tail) id =
      match (messagesOf serde content tail).find? fun message => idOf serde message = some id with
      | some message => .ok message
      | none => .error (.mcp "the stream ended without an answer") := by
  unfold fromEventStream
  rw [fromUTF8_bodyOf]
  dsimp only
  rw [String.toList_ofList, findAnswer_eq, messages_read hdecode hcontent htail]

theorem find_of_unhindered {before : List (Value N)} (after : List (Value N)) {response : Value N}
    {id : ℕ}
    (hresponse : IsResponse serde id response)
    (hbefore : ∀ message ∈ before, idOf serde message ≠ some id) :
    (before ++ response :: after).find? (fun message => idOf serde message = some id) =
      some response := by
  have hnone : before.find? (fun message => idOf serde message = some id) = none := by
    rw [List.find?_eq_none]
    intro message hmessage hid
    exact hbefore message hmessage (of_decide_eq_true hid)
  rw [List.find?_append, hnone, Option.none_or, List.find?_cons]
  simp only [hresponse.id, decide_true]

theorem resultOf_call {message : Value N} (h : IsCall message) :
    resultOf message = .error (.mcp "the answer has no result") := by
  unfold resultOf
  rw [h.noError, h.noResult]

theorem answer_stream {contentType : Option String} (body : ByteArray) (id : ℕ)
    (h : isStream contentType = true) :
    answer serde contentType body id = fromEventStream serde body id >>= resultOf := by
  unfold answer
  rw [if_pos h]

theorem answer_json {contentType : Option String} {body : ByteArray} {id : ℕ} {response : Value N}
    (h : isStream contentType = false) (hbody : fromSlice serde body = some response)
    (hresponse : IsResponse serde id response) :
    answer serde contentType body id = resultOf response := by
  have hjson : fromJson serde body id = .ok response := by
    unfold fromJson
    rw [hbody]
    exact if_pos hresponse.id
  unfold answer
  rw [if_neg (by rw [h]; exact Bool.noConfusion), hjson]
  rfl

end

def pingText : List Char := "\x7b\"id\":1,\"method\":\"ping\"\x7d".toList

def pingCall : Value ℕ := .object [("id", .number 1), ("method", .string "ping")]

def noteText : List Char := "\x7b\"method\":\"notifications/progress\"\x7d".toList

def noteCall : Value ℕ := .object [("method", .string "notifications/progress")]

def doneText : List Char := "\x7b\"id\":1,\"result\":true\x7d".toList

def doneResponse : Value ℕ := .object [("id", .number 1), ("result", .bool true)]

/-- The texts of three messages, line feeds apart, are all the JSON there is. -/
def tableSerde : Serde ℕ where
  fromStr text :=
    let bare := text.toList.filter (· ≠ '\n')
    if bare = pingText then .ok pingCall
    else if bare = noteText then .ok noteCall
    else if bare = doneText then .ok doneResponse
    else .error "expected value"
  json := .string
  toText _ := ""
  ofString := .string
  asStr := asStr
  debug text := text
  fromSlice _ := .error (1, 1)
  u64 := some

theorem filter_joinLines (data : List Line) :
    (joinLines data).filter (· ≠ '\n') = (data.flatMap fun line => line.filter (· ≠ '\n')) := by
  induction data with
  | nil => rfl
  | cons line rest ih =>
    cases rest with
    | nil =>
      rw [flatMap_cons, flatMap_nil, append_nil]
      rfl
    | cons next rest =>
      rw [joinLines_cons _ _ (cons_ne_nil _ _), filter_append, flatMap_cons, ← ih,
        filter_cons_of_neg (by simp)]

theorem flatMap_filter (data : List Line) :
    ((data.filter (· ≠ [])).flatMap fun line => line.filter (· ≠ '\n')) =
      data.flatMap fun line => line.filter (· ≠ '\n') := by
  induction data with
  | nil => rfl
  | cons line rest ih =>
    by_cases hline : line = []
    · rw [filter_cons_of_neg (by simpa using hline), ih, flatMap_cons, hline]
      rfl
    · rw [filter_cons_of_pos (by simpa using hline), flatMap_cons, flatMap_cons, ih]

theorem tableSerde_decoding : Decoding tableSerde where
  blank data := by
    have hbare : (joinLines data).filter (· ≠ '\n') =
        (joinLines (data.filter (· ≠ []))).filter (· ≠ '\n') := by
      rw [filter_joinLines, filter_joinLines, flatMap_filter]
    unfold parse tableSerde
    dsimp only
    rw [String.toList_ofList, String.toList_ofList, hbare]
  empty := by
    unfold parse tableSerde
    dsimp only
    rw [String.toList_ofList]
    rfl

def dataLine (text : List Char) : Line := "data: ".toList ++ text

/-- A comment, an event with a notification and one with the response. -/
def notedContent : List (Line × Ending) :=
  [(": open".toList, .lf), ("event: message".toList, .lf), (dataLine noteText, .crlf), ([], .crlf),
    (dataLine doneText, .lf), ([], .lf)]

def hinderedContent : List (Line × Ending) :=
  [(dataLine pingText, .lf), ([], .lf), (dataLine doneText, .lf), ([], .lf)]

theorem parse_table (text : List Char) : parse tableSerde [text] =
    if text.filter (· ≠ '\n') = pingText then some pingCall
    else if text.filter (· ≠ '\n') = noteText then some noteCall
    else if text.filter (· ≠ '\n') = doneText then some doneResponse
    else none := by
  unfold parse tableSerde
  dsimp only [joinLines]
  rw [String.toList_ofList]
  split_ifs <;> rfl

theorem parse_note : parse tableSerde [noteText] = some noteCall := by
  rw [parse_table]
  rfl

theorem parse_ping : parse tableSerde [pingText] = some pingCall := by
  rw [parse_table]
  rfl

theorem parse_done : parse tableSerde [doneText] = some doneResponse := by
  rw [parse_table]
  rfl

theorem messages_noted : messagesOf tableSerde notedContent [] = [noteCall, doneResponse] := by
  have hfields : fieldsOf fieldValue (groups (notedContent.map Prod.fst ++ [[]])) =
      [[noteText], [doneText]] := by rfl
  unfold messagesOf
  rw [hfields, filterMap_cons_some parse_note, filterMap_cons_some parse_done]
  rfl

theorem messages_hindered :
    messagesOf tableSerde hinderedContent [] = [pingCall, doneResponse] := by
  have hfields : fieldsOf fieldValue (groups (hinderedContent.map Prod.fst ++ [[]])) =
      [[pingText], [doneText]] := by rfl
  unfold messagesOf
  rw [hfields, filterMap_cons_some parse_ping, filterMap_cons_some parse_done]
  rfl

theorem doneResponse_is : IsResponse tableSerde 1 doneResponse where
  object := rfl
  noMethod := rfl
  outcome := .inl rfl
  id := rfl

end Stakit.McpHttp
