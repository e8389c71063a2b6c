import Stakit.ProviderStreams

set_option autoImplicit false

namespace Stakit.OpenAi
open AgentMessages SerdeJson ProviderStreams EntryMaps

section
variable {N : Type}

def mapFinishReason : String → StopReason
  | "stop" => .endTurn
  | "length" => .maxTokens
  | "tool_calls" | "function_call" => .toolUse
  | "content_filter" => .refusal
  | other => .other other

/-- Prompt tokens are counted with the cached ones; the usage keeps them apart. -/
def mapUsage (serde : Serde N) (usage : Value N) : Usage :=
  let details := member usage "prompt_tokens_details"
  let cacheReadTokens := (serde.asU64 (member details "cached_tokens")).getD 0
  let cacheCreateTokens := (serde.asU64 (member details "cache_write_tokens")).getD 0
  { inputTokens := serde.wireCount usage "prompt_tokens" - cacheReadTokens - cacheCreateTokens
    outputTokens := serde.wireCount usage "completion_tokens"
    cacheCreateTokens := cacheCreateTokens
    cacheCreate1hTokens := 0
    cacheReadTokens := cacheReadTokens
    reasoningTokens :=
      (((get usage "completion_tokens_details").bind fun details =>
        get details "reasoning_tokens").bind serde.asU64).getD 0 }

def apiError (serde : Serde N) (status : ℕ) (body : String) : ProviderError :=
  let parsed := (serde.fromStr body).toOption
  let text := fun key => parsed.bind fun value => asStr (member (member value "error") key)
  let kind := (text "type").getD "api_error"
  .api status kind ((text "message").getD s!"provider error: {status} {kind}")

def setMember (value : Value N) (key : String) (inner : Value N) : Value N :=
  match value with
  | .object fields => .object (insertSorted fields key inner)
  | other => other

def removeMember (value : Value N) (key : String) : Value N :=
  match value with
  | .object fields => .object (fields.filter fun field => field.1 ≠ key)
  | other => other

def counters : List String := ["prompt_tokens", "completion_tokens"]

def mergeCounter (serde : Serde N) (current update : Value N) (key : String) :
    Except ProviderError (Value N) :=
  match (get update key).filter fun value => !isNull value with
  | none => .ok current
  | some value =>
    match serde.asU64 value with
    | none => .error (.decode "invalid OpenAI usage counter")
    | some observed => do
      refuse (key ∈ counters ∧ (serde.countMember current key).any fun previous =>
          observed < previous)
        (.decode "OpenAI cumulative token usage decreased")
      return setMember current key value

def mergeTotal (serde : Serde N) (current update : Value N) : Except ProviderError (Value N) :=
  match get update "total_tokens" with
  | none => .ok current
  | some total =>
    if (serde.asU64 total).isNone then .error (.decode "invalid OpenAI total usage counter")
    else .ok (setMember current "total_tokens" total)

def mergeGroup (serde : Serde N) (update current : Value N) (group : String) (keys : List String) :
    Except ProviderError (Value N) :=
  match (get update group).filter fun value => !isNull value with
  | none => .ok current
  | some detail => do
    refuse (isObject detail = false) (.decode "invalid OpenAI usage details")
    let merged ← keys.foldlM (fun inner key => mergeCounter serde inner detail key)
      ((get current group).getD (.object []))
    return setMember current group merged

def detail (serde : Serde N) (value : Value N) (group field : String) : ℕ :=
  (((get value group).bind fun details => get details field).bind serde.asU64).getD 0

def validateSubsets (serde : Serde N) (value : Value N) : Except ProviderError Unit :=
  let cache := detail serde value "prompt_tokens_details" "cached_tokens" +
    detail serde value "prompt_tokens_details" "cache_write_tokens"
  refuse (((serde.countMember value "prompt_tokens").any fun total =>
      cache > min total (2 ^ 64 - 1)) ∨
    (serde.countMember value "completion_tokens").any fun total =>
      detail serde value "completion_tokens_details" "reasoning_tokens" > total)
    (.decode "OpenAI usage contains inconsistent token totals")

def validateReportedTotal (serde : Serde N) (value : Value N) : Except ProviderError Unit :=
  match serde.countMember value "total_tokens", serde.countMember value "prompt_tokens",
    serde.countMember value "completion_tokens" with
  | some total, some prompt, some output =>
    refuse (prompt + output > 2 ^ 64 - 1 ∨ prompt + output ≠ total)
      (.decode "OpenAI total usage does not match prompt and completion tokens")
  | _, _, _ => .ok ()

/-- A total that was checked before describes an earlier snapshot. -/
def withoutTotal (serde : Serde N) (current update : Value N) : Value N :=
  if counters.all (fun key => (serde.countMember current key).isSome) ∧
      counters.any (fun key => (serde.countMember update key).isSome) ∧
      (get update "total_tokens").isNone then
    removeMember current "total_tokens"
  else current

def mergeUsage (serde : Serde N) (current update : Value N) : Except ProviderError (Value N) := do
  refuse (isObject update = false) (.decode "invalid OpenAI usage")
  let current := withoutTotal serde (if isNull current then .object [] else current) update
  let current ← mergeCounter serde current update "prompt_tokens"
  let current ← mergeCounter serde current update "completion_tokens"
  let current ← mergeTotal serde current update
  let current ← mergeGroup serde update current "prompt_tokens_details"
    ["cached_tokens", "cache_write_tokens"]
  let current ← mergeGroup serde update current "completion_tokens_details"
    ["reasoning_tokens", "audio_tokens"]
  validateSubsets serde current
  validateReportedTotal serde current
  return current

def requireComplete (serde : Serde N) (value : Value N) : Except ProviderError Unit := do
  refuse (counters.any fun field => (serde.countMember value field).isNone)
    (.decode "OpenAI response requires prompt and completion usage")
  validateSubsets serde value
  validateReportedTotal serde value

structure ToolBuf where
  id : String
  name : String
  args : String
deriving DecidableEq

def ToolBuf.empty : ToolBuf := ⟨"", "", ""⟩

structure Accum (N : Type) where
  usage : Usage
  rawUsage : Value N
  hasFinalOutputUsage : Bool
  toolBytes : ℕ
  tools : Entries ℕ ToolBuf
  stop : Option StopReason
  refused : Bool

def Accum.new : Accum N := ⟨.zero, .null, false, 0, [], none, false⟩

abbrev Events (N : Type) := List (StreamEvent (Value N))

def requiredText (value : Value N) : Except ProviderError String :=
  match (asStr value).filter fun text => text ≠ "" with
  | some text => .ok text
  | none => .error (.decode "missing OpenAI tool identity")

def requireArray (value : Value N) (message : String) : Except ProviderError (List (Value N)) :=
  match asArray value with
  | some items => .ok items
  | none => .error (.decode message)

def requireObject (value : Value N) (message : String) : Except ProviderError (Value N) :=
  if isObject value then .ok value else .error (.decode message)

def requireString (value : Value N) (message : String) : Except ProviderError String :=
  match asStr value with
  | some text => .ok text
  | none => .error (.decode message)

/-- A member that is there and not `null`. -/
def present (value : Value N) (key : String) : Option (Value N) :=
  (get value key).filter fun inner => !isNull inner

def fragment (function : Value N) (field : String) : Except ProviderError String :=
  match get function field with
  | none => .ok ""
  | some value => requireString value "invalid OpenAI tool fragment"

def toolIndex (serde : Serde N) (call : Value N) : Except ProviderError ℕ :=
  match serde.asU64 (member call "index") with
  | some index => .ok index
  | none => .error (.decode "missing OpenAI tool index")

def optionalId (call : Value N) : Except ProviderError (Option String) :=
  match get call "id" with
  | none => .ok none
  | some value => (requiredText value).map some

def requireFunction (call : Value N) : Except ProviderError Unit :=
  refuse ((get call "type").any fun kind => asStr kind ≠ some "function")
    (.decode "unsupported OpenAI tool kind")

def ToolBuf.bytes (buf : ToolBuf) : ℕ :=
  buf.id.utf8ByteSize + buf.name.utf8ByteSize + buf.args.utf8ByteSize

def Accum.tool (serde : Serde N) (accum : Accum N) (call : Value N) :
    Except ProviderError (Accum N) := do
  let index ← toolIndex serde call
  refuse ((accum.tools.lookup index).isNone ∧ accum.tools.length ≥ maxStreamOpenBlocks)
    (.decode "too many OpenAI tool calls")
  let buf := (accum.tools.lookup index).getD .empty
  let id ← optionalId call
  refuse (id.any fun id => buf.id ≠ "" ∧ buf.id ≠ id) (.decode "conflicting OpenAI tool ID")
  requireFunction call
  let function ← requireObject (member call "function") "missing OpenAI tool function"
  let name ← fragment function "name"
  let arguments ← fragment function "arguments"
  let next : ToolBuf := ⟨id.getD buf.id, buf.name ++ name, buf.args ++ arguments⟩
  let responseBytes := accum.toolBytes - buf.bytes + next.bytes
  refuse (next.bytes > maxStreamBlockBytes ∨ responseBytes > maxStreamResponseBytes)
    (.decode "OpenAI retained tool content exceeded its byte limit")
  return { accum with toolBytes := responseBytes, tools := insertSorted accum.tools index next }

def Accum.snapshot (serde : Serde N) (accum : Accum N) (event : Value N) :
    Except ProviderError (Accum N × Events N) :=
  match present event "usage" with
  | none => .ok (accum, [])
  | some usage => do
    let _ ← requireObject usage "invalid OpenAI stream usage"
    let rawUsage ← mergeUsage serde accum.rawUsage usage
    let mapped := mapUsage serde rawUsage
    return ({ accum with
        rawUsage := rawUsage
        usage := mapped
        hasFinalOutputUsage := accum.hasFinalOutputUsage ||
          (accum.stop.isSome && (serde.countMember usage "completion_tokens").isSome) },
      [.usage mapped])

def deltaText (delta : Value N) (field : String) : Except ProviderError (Events N) :=
  match present delta field with
  | none => .ok []
  | some value => do
    let text ← requireString value "invalid OpenAI stream text"
    return if text = "" then [] else [.textDelta text]

def Accum.calls (serde : Serde N) (accum : Accum N) (delta : Value N) :
    Except ProviderError (Accum N) :=
  match present delta "tool_calls" with
  | none => .ok accum
  | some calls => do
    let calls ← requireArray calls "invalid OpenAI tool delta"
    calls.foldlM (Accum.tool serde) accum

def Accum.finishReason (serde : Serde N) (accum : Accum N) (event choice : Value N) :
    Except ProviderError (Accum N) :=
  match present choice "finish_reason" with
  | none => .ok accum
  | some reason =>
    match (asStr reason).filter fun text => text ≠ "" with
    | none => .error (.decode "invalid OpenAI finish_reason")
    | some reason =>
      .ok { accum with
        stop := some (mapFinishReason reason)
        hasFinalOutputUsage := accum.hasFinalOutputUsage ||
          (((get event "usage").bind fun usage => get usage "completion_tokens").bind
            serde.asU64).isSome }

def Accum.choice (serde : Serde N) (accum : Accum N) (event choice : Value N) :
    Except ProviderError (Accum N × Events N) := do
  refuse accum.stop.isSome (.decode "OpenAI choice after finish_reason")
  refuse ((get choice "index").any fun index => serde.asU64 index ≠ some 0)
    (.decode "invalid OpenAI choice index")
  let delta ← requireObject (member choice "delta") "invalid OpenAI stream delta"
  let content ← deltaText delta "content"
  let refusal ← deltaText delta "refusal"
  let accum ← Accum.calls serde
    { accum with refused := accum.refused || !refusal.isEmpty } delta
  let accum ← accum.finishReason serde event choice
  return (accum, content ++ refusal)

def Accum.push (serde : Serde N) (accum : Accum N) (event : Value N) :
    Except ProviderError (Accum N × Events N) := do
  refuse (get event "error").isSome (apiError serde 500 (serde.toText event))
  let choices ← requireArray (member event "choices") "missing OpenAI stream choices"
  refuse (choices.length > 1) (.decode "multiple OpenAI stream choices are unsupported")
  let (accum, usage) ← accum.snapshot serde event
  match choices with
  | [] =>
    refuse ((get event "usage").all isNull)
      (.decode "empty OpenAI stream choice without usage")
    return (accum, usage)
  | choice :: _ =>
    let (accum, events) ← accum.choice serde event choice
    return (accum, usage ++ events)

/-- The calls at the indices from `expected` on, with the ids seen before them. -/
def releaseTools : ℕ → List String → Entries ℕ ToolBuf → Except ProviderError (Events N)
  | _, _, [] => .ok []
  | expected, ids, (index, buf) :: rest => do
    refuse (expected ≠ index) (.decode "OpenAI tool indices are incomplete")
    refuse (buf.id = "" ∨ buf.name = "" ∨ buf.id ∈ ids)
      (.decode "missing or duplicate OpenAI tool identity")
    let calls ← releaseTools (expected + 1) (buf.id :: ids) rest
    return .toolCall buf.id buf.name buf.args :: calls

def Accum.release (accum : Accum N) (stop : StopReason) : Except ProviderError (Events N) :=
  match stop with
  | .toolUse => do
    refuse (accum.tools = []) (.decode "OpenAI tool termination without calls")
    releaseTools 0 [] accum.tools
  | .endTurn => do
    refuse (accum.tools ≠ []) (.decode "OpenAI tool calls without tool termination")
    return []
  | _ => .ok []

def requireStop (stop : Option StopReason) : Except ProviderError StopReason :=
  match stop with
  | some reason => .ok reason
  | none => .error (.decode "OpenAI DONE before finish_reason")

def Accum.finish (serde : Serde N) (accum : Accum N) : Except ProviderError (Events N) := do
  requireComplete serde accum.rawUsage
  refuse (accum.hasFinalOutputUsage = false)
    (.decode "OpenAI stream requires final completion usage")
  let reason ← requireStop accum.stop
  let stop := if accum.refused then .refusal else reason
  let calls ← accum.release stop
  return calls ++ [.finish stop accum.usage]

structure Decoder (N : Type) where
  framer : Framer
  started : Bool
  accum : Accum N

def Decoder.new : Decoder N := ⟨.new, false, .new⟩

def decodeData (serde : Serde N) (frame : Frame) : Except ProviderError (Value N) :=
  match serde.fromSlice frame.data with
  | .ok value => .ok value
  | .error _ => .error (.decode "invalid OpenAI SSE JSON")

/-- The first chunk opens the stream. -/
def Decoder.event (serde : Serde N) (decoder : Decoder N) (event : Value N) :
    Except ProviderError (Decoder N × Events N) := do
  let (accum, events) ← decoder.accum.push serde event
  return ({ decoder with accum := accum, started := true },
    if decoder.started then events else .start .zero :: events)

def Decoder.accept (serde : Serde N) (decoder : Decoder N) (part : List UInt8) :
    Except ProviderError (Decoder N × Events N) := do
  let read ← decoder.framer.accept part
  match read with
  | (framer, none) => return ({ decoder with framer := framer }, [])
  | (framer, some frame) =>
    if frame.data = "[DONE]" then
      return ({ decoder with framer := framer }, ← decoder.accum.finish serde)
    else Decoder.event serde { decoder with framer := framer } (← decodeData serde frame)

def decode (serde : Serde N) (bytes : List (Except String (List UInt8))) : List (Item (Value N)) :=
  drive (Decoder.accept serde) "OpenAI stream ended before [DONE]" .new bytes

end

end Stakit.OpenAi
