import Stakit.ClientStreams
import Stakit.RouterRequests
import Stakit.SerdeText

set_option autoImplicit false

namespace Stakit.RouterTransports
open JsonText SerdeJson EntryMaps
open RouterRequests (Serde Error Reply errorValue intoValue fieldsValue)

/-- What is left open of the wire: how numbers are written and read as `u64`. -/
structure Wire (serde : Serde) where
  printer : Printer serde.Number
  asU64 : serde.Number → Option ℕ

def u64Max : ℕ := 18446744073709551615

/-- Unsigned integers are written in decimal and read as themselves. -/
structure Wire.Lawful {serde : Serde} (wire : Wire serde) : Prop where
  printer : wire.printer.Lawful
  token : ∀ n ≤ u64Max, wire.printer.token (serde.ofNat n) = Nat.toDigits 10 n
  number : ∀ n ≤ u64Max, serde.number (Nat.toDigits 10 n) = some (serde.ofNat n)
  asU64 : ∀ n ≤ u64Max, wire.asU64 (serde.ofNat n) = some n

section
variable {serde : Serde}

/-- A field of a derived struct; `none` when `skip_serializing_if` holds. -/
structure Field (serde : Serde) where
  key : String
  value : Option (Value serde.Number)

def serializeStruct (fields : List (Field serde)) : Entries String (Value serde.Number) :=
  fields.filterMap fun field => field.value.map fun value => (field.key, value)

/-- The fields of an `IndexMap`, in its order. -/
def messageEntries (fields : List (String × List String)) : Entries String (Value serde.Number) :=
  fields.map fun field => (field.1, .array (field.2.map .string))

def isDefaultKind (kind : String) : Bool := kind = "error"

/-- The derived fields of an `ErrorBody`; `object` makes a map of its own entries. -/
def errorStruct (object : Entries String (Value serde.Number) → Value serde.Number)
    (error : Error serde) : List (Field serde) :=
  [⟨"code", some (.number (serde.ofNat error.code))⟩,
    ⟨"type", if isDefaultKind error.kind then none else some (.string error.kind)⟩,
    ⟨"message", some (.string error.message)⟩,
    ⟨"fields", error.fields.map fun fields => object (messageEntries fields)⟩,
    ⟨"data", error.data⟩]

/-- A map as `serde_json::to_value` makes it. -/
def toMap (entries : Entries String (Value serde.Number)) : Value serde.Number :=
  .object (sortedMap entries)

/-- `serde_json::to_value` of an `ErrorBody` -/
def errorToValue (error : Error serde) : Value serde.Number :=
  toMap (serializeStruct (errorStruct toMap error))

/-- `serde_json::to_value` of a `Reply`, an enum tagged with `status`. -/
def replyToValue : Reply serde → Value serde.Number
  | .ok data => toMap (serializeStruct [⟨"status", some (.string "ok")⟩, ⟨"data", some data⟩])
  | .error error =>
    toMap (serializeStruct [⟨"status", some (.string "error")⟩, ⟨"error", some (errorToValue error)⟩])

/-- The answer of `on_request` to one call. -/
def responseValue (action : String) (reply : Reply serde) : Value serde.Number :=
  .object [(action, intoValue reply)]

def resultFrame (id : ℕ) : Reply serde → Value serde.Number
  | .ok data => toMap [("kind", .string "result"), ("id", .number (serde.ofNat id)),
      ("status", .string "ok"), ("data", data)]
  | .error error => toMap [("kind", .string "result"), ("id", .number (serde.ofNat id)),
      ("status", .string "error"), ("error", errorToValue error)]

/-- `Frame::Next` and `Frame::Error`, tagged with `type`; what is written keeps the order. -/
def streamFrame (index : ℕ) (action : String) : Reply serde → Value serde.Number
  | .ok data => .object (serializeStruct [⟨"type", some (.string "next")⟩,
      ⟨"index", some (.number (serde.ofNat index))⟩, ⟨"action", some (.string action)⟩,
      ⟨"data", some data⟩])
  | .error error => .object (serializeStruct [⟨"type", some (.string "error")⟩,
      ⟨"index", some (.number (serde.ofNat index))⟩, ⟨"action", some (.string action)⟩,
      ⟨"error", some (.object (serializeStruct (errorStruct .object error)))⟩])

variable (wire : Wire serde)

def responseText (action : String) (reply : Reply serde) : List Char :=
  textOf wire.printer (responseValue action reply)

def resultText (id : ℕ) (reply : Reply serde) : List Char :=
  textOf wire.printer (resultFrame id reply)

def streamText (index : ℕ) (action : String) (reply : Reply serde) : List Char :=
  textOf wire.printer (streamFrame index action reply)

structure ErrorBody (serde : Serde) where
  code : ℕ
  kind : String
  message : String
  fields : Option (Entries String (List String))
  data : Option (Value serde.Number)

inductive ActionResult (serde : Serde) where
  | ok (data : Value serde.Number)
  | error (error : ErrorBody serde)

def get (value : Value serde.Number) (key : String) : Option (Value serde.Number) :=
  match value with
  | .object fields => fields.lookup key
  | _ => none

def asStr : Value serde.Number → Option String
  | .string text => some text
  | _ => none

def asStrings : Value serde.Number → Option (List String)
  | .array items => items.mapM asStr
  | _ => none

def asCode : Value serde.Number → Option ℕ
  | .number n => (wire.asU64 n).bind fun code => if code ≤ 65535 then some code else none
  | _ => none

/-- `Option<Box<IndexMap<String, Vec<String>>>>` -/
def asFields : Value serde.Number → Option (Option (Entries String (List String)))
  | .null => some none
  | .object fields =>
    (fields.mapM fun field => (asStrings field.2).map fun messages => (field.1, messages)).map
      fun entries => some (indexMap entries)
  | _ => none

def asData : Value serde.Number → Option (Option (Value serde.Number))
  | .null => some none
  | data => (fromValue serde.number data).map some

def errorBody (code kind message fields data : Option (Value serde.Number)) :
    Option (ErrorBody serde) :=
  (code.bind (asCode wire)).bind fun code =>
  (kind.elim (some "error") asStr).bind fun kind =>
  (message.bind asStr).bind fun message =>
  (fields.elim (some none) asFields).bind fun fields =>
  (data.elim (some none) asData).map fun data =>
    ⟨code, kind, message, fields, data⟩

/-- `from_value::<ErrorBody>`; a struct may also come as the array of its fields. -/
def readErrorBody : Value serde.Number → Option (ErrorBody serde)
  | .object fields => errorBody wire (fields.lookup "code") (fields.lookup "type")
      (fields.lookup "message") (fields.lookup "fields") (fields.lookup "data")
  | .array items =>
    if items.length ≤ 5 then errorBody wire items[0]? items[1]? items[2]? items[3]? items[4]?
    else none
  | _ => none

def readVariant (status : String) (data error : Option (Value serde.Number)) :
    Option (ActionResult serde) :=
  if status = "ok" then (data.bind (fromValue serde.number)).map .ok
  else if status = "error" then (error.bind (readErrorBody wire)).map .error
  else none

def readEnvelope : Value serde.Number → Option (ActionResult serde)
  | .object fields => ((fields.lookup "status").bind asStr).bind fun status =>
      readVariant wire status (fields.lookup "data") (fields.lookup "error")
  | .array [.string status, field] => readVariant wire status (some field) (some field)
  | _ => none

/-- `Client::fetch` of the body of a response. -/
def fetch (action : String) (text : List Char) : Option (ActionResult serde) :=
  (fromText serde.number text).bind fun response => (get response action).bind (readEnvelope wire)

inductive ServerFrame (serde : Serde) where
  | result (id : ℕ) (result : ActionResult serde)
  | finish (id : ℕ)
  | clientCall (id : ℕ) (action : String) (data : Value serde.Number)
  | publish (topic name : String) (seq epoch : ℕ) (params : Value serde.Number)
  | reset (topic : String) (epoch seq : ℕ)
  | unsubscribed (topic : String)
  | ping

def textField (value : Value serde.Number) (name : String) : String :=
  ((get value name).bind asStr).getD ""

def numberField (value : Value serde.Number) (name : String) : ℕ :=
  ((get value name).bind fun field =>
    match field with
    | .number n => wire.asU64 n
    | _ => none).getD 0

def missingBody : ErrorBody serde := ⟨500, "internal", "missing error body", none, none⟩

def frameResult (value : Value serde.Number) : Option (ActionResult serde) :=
  if (get value "status").bind asStr = some "error" then
    match get value "error" with
    | some body => (readErrorBody wire body).map .error
    | none => some (.error missingBody)
  else some (.ok ((get value "data").getD .null))

/-- `parse_frame` of a value; `none` is a failed read. -/
def frameOf (value : Value serde.Number) : Option (ServerFrame serde) :=
  match (get value "kind").bind asStr with
  | some "ping" => some .ping
  | some "publish" => some (.publish (textField value "topic") (textField value "name")
      (numberField wire value "seq") (numberField wire value "epoch")
      ((get value "params").getD .null))
  | some "reset" => some (.reset (textField value "topic") (numberField wire value "epoch")
      (numberField wire value "seq"))
  | some "unsubscribed" => some (.unsubscribed (textField value "topic"))
  | some "result" => (frameResult wire value).map (.result (numberField wire value "id"))
  | some "end" => some (.finish (numberField wire value "id"))
  | some "client_call" => some (.clientCall (numberField wire value "id") (textField value "name")
      ((get value "params").getD .null))
  | _ => none

def parseFrame (text : List Char) : Option (ServerFrame serde) :=
  (fromText serde.number text).bind (frameOf wire)

def lineBody (body : ClientStreams.ErrorBody serde.Number) : ErrorBody serde :=
  ⟨body.code, body.kind, body.message, body.fields, body.data⟩

def lineResult : ClientStreams.WireFrame serde.Number → Option (ActionResult serde)
  | .next data => some (.ok data)
  | .error body => some (.error (lineBody body))
  | .finish => none

/-- `parse_line::<Value>` of a line with an item or an error. -/
def parseLine (line : List Char) : Option (ActionResult serde) :=
  (ClientStreams.readFrame serde.number line).bind lineResult

end
end Stakit.RouterTransports
