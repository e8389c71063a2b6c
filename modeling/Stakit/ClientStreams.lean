import Stakit.SerdeValue

set_option autoImplicit false

namespace Stakit.ClientStreams
open JsonText SerdeJson EntryMaps

inductive Ending where
  | clean
  | application
  | failure
  deriving DecidableEq, Repr

/-- What one line means to a client. -/
inductive Line (α : Type) where
  | item (data : α)
  | last (ending : Ending)
  | skip

/-- What a client made of a body; `passed` counts the lines before the one that ended it. -/
structure Outcome (α : Type) where
  items : List α
  ending : Ending
  passed : ℕ
  deriving DecidableEq

/-- A body that runs out before its last frame is a failure. -/
def follow {α : Type} : List (Line α) → Outcome α
  | [] => ⟨[], .failure, 0⟩
  | .item data :: rest =>
    ⟨data :: (follow rest).items, (follow rest).ending, (follow rest).passed + 1⟩
  | .last ending :: _ => ⟨[], ending, 0⟩
  | .skip :: rest => ⟨(follow rest).items, (follow rest).ending, (follow rest).passed + 1⟩

def lines (body : List Char) : List (List Char) := body.splitOn '\n'

abbrev Fields := List (List ℕ × Json)

/-- The values of a member, in the order they stand. -/
def values (fields : Fields) (name : String) : List Json :=
  (fields.filter fun field => field.1 = points name).map Prod.snd

/-- Of a repeated member the last is left. -/
def property (fields : Fields) (name : String) : Option Json := last fields (points name)

def maxFrameBytes : ℕ := 16 * 1024 * 1024

def onceIn (fields : Fields) (name : String) : Option (Option Json) :=
  match values fields name with
  | [] => some none
  | [value] => some (some value)
  | _ => none

def asString : Json → Option String
  | .string points => stringOf points
  | _ => none

def asStrings : Json → Option (List String)
  | .array items => items.mapM asString
  | _ => none

def asCode : Json → Option ℕ
  | .number token => readUnsigned 65535 token
  | _ => none

/-- `Option<Box<IndexMap<String, Vec<String>>>>` -/
def asFields : Json → Option (Option (Entries String (List String)))
  | .null => some none
  | .object fields =>
    (fields.mapM fun field => (stringOf field.1).bind fun name =>
      (asStrings field.2).map fun messages => (name, messages)).map fun entries =>
        some (indexMap entries)
  | _ => none

section
variable {N : Type} (number : List Char → Option N)

/-- `Content`: what serde holds a value as before it knows what to make of it. -/
def buffers : ℕ → Json → Bool
  | _, .number token => (number token).isSome
  | _, .string points => (stringOf points).isSome
  | 0, .array _ => false
  | 0, .object _ => false
  | room + 1, .array items => items.all (buffers room)
  | room + 1, .object fields =>
    fields.all fun field => (stringOf field.1).isSome && buffers room field.2
  | _, _ => true

def asData : Json → Option (Option (Value N))
  | .null => some none
  | data => (ofTree number maxDepth data).map some

structure ErrorBody (N : Type) where
  code : ℕ
  kind : String
  message : String
  fields : Option (Entries String (List String))
  data : Option (Value N)

def errorBody (code kind message fields data : Option Json) : Option (ErrorBody N) :=
  (code.bind asCode).bind fun code =>
  (kind.elim (some "error") asString).bind fun kind =>
  (message.bind asString).bind fun message =>
  (fields.elim (some none) asFields).bind fun fields =>
  (data.elim (some none) (asData number)).map fun data =>
    ⟨code, kind, message, fields, data⟩

def readErrorBody : Json → Option (ErrorBody N)
  | .object fields =>
    (onceIn fields "code").bind fun code => (onceIn fields "type").bind fun kind =>
    (onceIn fields "message").bind fun message => (onceIn fields "fields").bind fun messages =>
    (onceIn fields "data").bind fun data => errorBody number code kind message messages data
  | .array items =>
    if items.length ≤ 5 then
      errorBody number items[0]? items[1]? items[2]? items[3]? items[4]?
    else none
  | _ => none

inductive WireFrame (N : Type) where
  | next (data : Value N)
  | error (error : ErrorBody N)
  | finish

/-- The variant of a tag, from the one field it may have; `end` has none. -/
def readVariant (tag : List ℕ) (data error : Option Json) : Option (WireFrame N) :=
  if tag = points "next" then (data.bind (ofTree number maxDepth)).map .next
  else if tag = points "error" then (error.bind (readErrorBody number)).map .error
  else if tag = points "end" then some .finish
  else none

/-- An internally tagged enum: an object with one `type`, or an array that starts with it. -/
def frameOf : Json → Option (WireFrame N)
  | .object fields =>
    match values fields "type" with
    | [.string tag] =>
      readVariant number tag ((onceIn fields "data").bind id) ((onceIn fields "error").bind id)
    | _ => none
  | .array [.string tag] => if tag = points "end" then some .finish else none
  | .array [.string tag, field] =>
    if tag = points "end" then none else readVariant number tag (some field) (some field)
  | _ => none

def readFrame (line : List Char) : Option (WireFrame N) :=
  (parse line).bind fun tree => if buffers number maxDepth tree then frameOf number tree else none

def undecodable {α : Type} : Option (Value N) → Line α
  | some (.object fields) =>
    match fields.lookup "type" with
    | some (.string tag) => if tag = "next" then .last .failure else .skip
    | _ => .skip
  | _ => .skip

def parseLine (line : List Char) : Line (Value N) :=
  if line = [] then .skip
  else
    match readFrame number line with
    | some (.next data) => .item data
    | some (.error _) => .last .application
    | some .finish => .last .clean
    | none => undecodable (fromText number line)

/-- The buffer may hold no more than this, with the newline. -/
def bufferedLine (line : List Char) : Line (Value N) :=
  if maxFrameBytes < String.utf8Len line + 1 then .last .failure else parseLine number line

def rustStream (body : List Char) : Outcome (Value N) := follow ((lines body).map (bufferedLine number))

end

def bom : Char := '\uFEFF'

/-- What `String.prototype.trim` takes off. -/
def whiteSpace : List Char :=
  ['\t', '\n', '\x0b', '\x0c', '\r', ' ', '\u00a0', '\u1680', '\u2000', '\u2001', '\u2002',
    '\u2003', '\u2004', '\u2005', '\u2006', '\u2007', '\u2008', '\u2009', '\u200a', '\u2028',
    '\u2029', '\u202f', '\u205f', '\u3000', bom]

def blank (line : List Char) : Bool := line.all fun c => c ∈ whiteSpace

/-- A `TextDecoder` takes a byte order mark off the start. -/
def decodeText (body : List Char) : List Char :=
  match body with
  | [] => []
  | c :: rest => if c = bom then rest else c :: rest

def isText : Json → Bool
  | .string _ => true
  | _ => false

def isTexts : Json → Bool
  | .array items => items.all isText
  | _ => false

def everyTexts : Json → Bool
  | .object fields => fields.all fun field => (last fields field.1).any isTexts
  | _ => false

/-- A value of JavaScript; a string may hold a lone surrogate. -/
inductive JsValue (N : Type) where
  | null
  | bool (flag : Bool)
  | number (n : N)
  | string (points : List ℕ)
  | array (items : List (JsValue N))
  | object (fields : List (List ℕ × JsValue N))

section
variable {N : Type} (double : List Char → N)

mutual

/-- `JSON.parse`; the properties of an object are listed by name. -/
def jsValue : Json → JsValue N
  | .null => .null
  | .bool flag => .bool flag
  | .number token => .number (double token)
  | .string points => .string points
  | .array items => .array (jsItems items)
  | .object fields => .object (sortedMap (jsFields fields))

def jsItems : List Json → List (JsValue N)
  | [] => []
  | item :: items => jsValue item :: jsItems items

def jsFields : Fields → Entries (List ℕ) (JsValue N)
  | [] => []
  | (name, value) :: fields => (name, jsValue value) :: jsFields fields

end

variable (isInteger : N → Bool)

def isCode : Json → Bool
  | .number token => isInteger (double token)
  | _ => false

def isErrorBody : Json → Bool
  | .object fields =>
    (property fields "code").any (isCode double isInteger) &&
    (property fields "message").any isText &&
    (property fields "type").all isText &&
    (property fields "fields").all everyTexts
  | _ => false

def isWireFrame (fields : Fields) (kind : List ℕ) : Bool :=
  if kind = [] then false
  else if kind = points "next" then
    (property fields "data").isSome && (property fields "error").isNone
  else if kind = points "error" then
    (property fields "error").any (isErrorBody double isInteger) && (property fields "data").isNone
  else if kind = points "end" then
    (property fields "data").isNone && (property fields "error").isNone
  else true

/-- What `doStream` does with a frame. -/
def frameLine (fields : Fields) (kind : List ℕ) : Line (JsValue N) :=
  if kind = points "next" then .item (jsValue double ((property fields "data").getD .null))
  else if kind = points "error" then .last .application
  else if kind = points "end" then .last .clean
  else .skip

/-- What the TypeScript client makes of an object. -/
def tsFrame (fields : Fields) : Line (JsValue N) :=
  match property fields "type" with
  | some (.string kind) =>
    if isWireFrame double isInteger fields kind then frameLine double fields kind
    else .last .failure
  | _ => .last .failure

def parseFrame (line : List Char) : Line (JsValue N) :=
  if blank line then .skip
  else
    match parse line with
    | some (.object fields) => tsFrame double isInteger fields
    | _ => .last .failure

def tsStream (body : List Char) : Outcome (JsValue N) :=
  follow ((lines (decodeText body)).map (parseFrame double isInteger))

end

end Stakit.ClientStreams
