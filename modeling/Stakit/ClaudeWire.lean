import Stakit.ProviderStreams

set_option autoImplicit false

namespace Stakit.Claude
open AgentMessages SerdeJson ProviderStreams

section
variable {N : Type}

inductive EventKind
  | messageStart
  | contentBlockStart
  | contentBlockDelta
  | contentBlockStop
  | messageDelta
  | messageStop
  | error
  | other
deriving DecidableEq

def EventKind.of : String → EventKind
  | "message_start" => .messageStart
  | "content_block_start" => .contentBlockStart
  | "content_block_delta" => .contentBlockDelta
  | "content_block_stop" => .contentBlockStop
  | "message_delta" => .messageDelta
  | "message_stop" => .messageStop
  | "error" => .error
  | _ => .other

def mapUsage (serde : Serde N) (usage : Value N) : Usage where
  inputTokens := serde.wireCount usage "input_tokens"
  outputTokens := serde.wireCount usage "output_tokens"
  cacheCreateTokens := serde.wireCount usage "cache_creation_input_tokens"
  cacheCreate1hTokens :=
    (((get usage "cache_creation").bind fun creation =>
      get creation "ephemeral_1h_input_tokens").bind serde.asU64).getD 0
  cacheReadTokens := serde.wireCount usage "cache_read_input_tokens"
  reasoningTokens :=
    (((get usage "output_tokens_details").bind fun details =>
      get details "thinking_tokens").bind serde.asU64).getD 0

def totalInput (usage : Usage) : ℕ :=
  saturatingAdd (saturatingAdd usage.inputTokens usage.cacheCreateTokens) usage.cacheReadTokens

def validateTotals (usage : Usage) : Except ProviderError Unit :=
  refuse (usage.cacheCreate1hTokens > usage.cacheCreateTokens ∨
      usage.reasoningTokens > usage.outputTokens ∨
      usage.inputTokens + usage.cacheCreateTokens + usage.cacheReadTokens > 2 ^ 64 - 1)
    (.decode "Claude usage contains inconsistent token totals")

def invalidCount : ProviderError := .decode "Claude usage contains an invalid token count"

/-- A cache counter may be `null`. -/
def validateCounter (serde : Serde N) (usage : Value N) (field : String) :
    Except ProviderError Unit :=
  match get usage field with
  | none => .ok ()
  | some value =>
    if isNull value ∧ field ≠ "input_tokens" ∧ field ≠ "output_tokens" then .ok ()
    else if (serde.asU64 value).isSome then .ok ()
    else .error invalidCount

def validateDetail (serde : Serde N) (details : Value N) (field : String) :
    Except ProviderError Unit :=
  match get details field with
  | none => .ok ()
  | some value => if (serde.asU64 value).isSome then .ok () else .error invalidCount

def validateGroup (serde : Serde N) (usage : Value N) (group : String) (fields : List String) :
    Except ProviderError Unit :=
  match get usage group with
  | none => .ok ()
  | some details =>
    if isNull details then .ok ()
    else if isObject details then fields.forM (validateDetail serde details)
    else .error (.decode "Claude usage details must be an object")

def validateCacheWrites (serde : Serde N) (usage : Value N) : Except ProviderError Unit :=
  match serde.countMember usage "cache_creation_input_tokens" with
  | none => .ok ()
  | some total =>
    let fiveMinute := (((get usage "cache_creation").bind fun creation =>
      get creation "ephemeral_5m_input_tokens").bind serde.asU64).getD 0
    refuse (fiveMinute + (mapUsage serde usage).cacheCreate1hTokens > min total (2 ^ 64 - 1))
      (.decode "Claude cache usage exceeds total cache writes")

def validateUsage (serde : Serde N) (usage : Value N) : Except ProviderError Unit := do
  refuse (isObject usage = false) (.decode "Claude usage must be an object")
  ["input_tokens", "output_tokens", "cache_creation_input_tokens",
    "cache_read_input_tokens"].forM (validateCounter serde usage)
  validateGroup serde usage "cache_creation"
    ["ephemeral_5m_input_tokens", "ephemeral_1h_input_tokens"]
  validateGroup serde usage "output_tokens_details" ["thinking_tokens"]
  let mapped := mapUsage serde usage
  refuse ((get usage "output_tokens").isSome ∧ mapped.reasoningTokens > mapped.outputTokens)
    (.decode "Claude reasoning usage exceeds output tokens")
  validateCacheWrites serde usage

def mapStopReason (reason : String) (stopSequence : Option String) : StopReason :=
  match reason with
  | "end_turn" => .endTurn
  | "max_tokens" => .maxTokens
  | "stop_sequence" => .stopSequence (stopSequence.getD "")
  | "tool_use" => .toolUse
  | "refusal" => .refusal
  | "pause_turn" => .pause
  | other => .other other

def requireObject (value : Value N) (field : String) : Except ProviderError (Value N) :=
  match (get value field).filter isObject with
  | some inner => .ok inner
  | none => .error (.decode s!"Claude streaming event requires {field} object")

def requireText (value : Value N) (field : String) : Except ProviderError String :=
  match textMember value field with
  | some text => .ok text
  | none => .error (.decode s!"Claude streaming event requires {field} string")

def requireIndex (serde : Serde N) (event : Value N) : Except ProviderError ℕ :=
  match serde.countMember event "index" with
  | some index => .ok index
  | none => .error (.decode "Claude streaming event requires a nonnegative block index")

def validateStart (serde : Serde N) (event : Value N) : Except ProviderError Unit := do
  let message ← requireObject event "message"
  let tokens ← requireObject message "usage"
  validateUsage serde tokens
  refuse ((serde.countMember tokens "input_tokens").isNone ∨
      (serde.countMember tokens "output_tokens").isNone)
    (.decode "Claude message_start requires input and output usage")

def requireNonempty (text : String) : Except ProviderError Unit :=
  refuse (text = "") (.decode "Claude tool block requires nonempty id and name")

def validateBlockStart (serde : Serde N) (event : Value N) : Except ProviderError Unit := do
  let _ ← requireIndex serde event
  let block ← requireObject event "content_block"
  match ← requireText block "type" with
  | "tool_use" =>
    requireNonempty (← requireText block "id")
    requireNonempty (← requireText block "name")
    let _ ← requireObject block "input"
  | "text" => let _ ← requireText block "text"
  | "thinking" => let _ ← requireText block "thinking"
  | _ => pure ()

def deltaField : String → Option String
  | "text_delta" => some "text"
  | "thinking_delta" => some "thinking"
  | "signature_delta" => some "signature"
  | "input_json_delta" => some "partial_json"
  | _ => none

def validateBlockDelta (serde : Serde N) (event : Value N) : Except ProviderError Unit := do
  let _ ← requireIndex serde event
  let delta ← requireObject event "delta"
  match deltaField (← requireText delta "type") with
  | some field => let _ ← requireText delta field
  | none => pure ()

def validStopField (delta : Value N) (field : String) : Except ProviderError Unit :=
  match get delta field with
  | none | some .null | some (.string _) => .ok ()
  | some _ => .error (.decode "Claude message_delta contains an invalid stop field")

def validateDelta (serde : Serde N) (event : Value N) : Except ProviderError Unit := do
  let delta ← requireObject event "delta"
  let tokens ← requireObject event "usage"
  validateUsage serde tokens
  refuse (serde.countMember tokens "output_tokens").isNone
    (.decode "Claude message_delta requires output usage")
  ["stop_reason", "stop_sequence"].forM (validStopField delta)

def validateError (event : Value N) : Except ProviderError Unit := do
  let error ← requireObject event "error"
  let _ ← requireText error "type"
  let _ ← requireText error "message"

def validateKind (serde : Serde N) (event : Value N) : EventKind → Except ProviderError Unit
  | .messageStart => validateStart serde event
  | .contentBlockStart => validateBlockStart serde event
  | .contentBlockDelta => validateBlockDelta serde event
  | .contentBlockStop => do let _ ← requireIndex serde event
  | .messageDelta => validateDelta serde event
  | .error => validateError event
  | .messageStop | .other => .ok ()

def validate (serde : Serde N) (event : Value N) : Except ProviderError EventKind := do
  let kind := EventKind.of (← requireText event "type")
  validateKind serde event kind
  pure kind

def errorStatus : String → ℕ
  | "invalid_request_error" => 400
  | "authentication_error" => 401
  | "permission_error" => 403
  | "not_found_error" => 404
  | "request_too_large" => 413
  | "rate_limit_error" => 429
  | "overloaded_error" => 529
  | _ => 500

def streamError (event : Value N) : ProviderError :=
  let error := get event "error"
  let kind := (error.bind (textMember · "type")).getD "api_error"
  .api (errorStatus kind) kind
    ((error.bind (textMember · "message")).getD "Claude streaming request failed")

def decodeFrame (serde : Serde N) (frame : Frame) : Except ProviderError (Value N) :=
  match serde.fromSlice frame.data with
  | .error (line, column) =>
    .error (.decode s!"invalid Claude SSE JSON at line {line} column {column}")
  | .ok value =>
    match frame.event with
    | none => .ok value
    | some name =>
      if textMember value "type" = some name then .ok value
      else .error (.decode "Claude SSE event name does not match its data type")

end

end Stakit.Claude
