import Stakit.ClaudeWire
import Stakit.FiniteMap

set_option autoImplicit false

namespace Stakit.Claude
open AgentMessages SerdeJson ProviderStreams FiniteMap

section
variable {N : Type}

inductive Block (N : Type)
  | text (text : String)
  | thinking (text : String) (signature : Option String)
  | redacted (data : String)
  | tool (id name : String) (initial : Option (Value N)) (json : Option String)

def blockText (value : Value N) (field : String) : Except ProviderError String :=
  match textMember value field with
  | some text => .ok text
  | none => .error (.decode s!"Claude block requires {field} string")

def limitExceeded : ProviderError := .decode "Claude response content exceeded its byte limit"

def reserve (current removed added total : ℕ) : Except ProviderError ℕ :=
  let block := saturatingAdd (current - removed) added
  let response := saturatingAdd (total - removed) added
  (refuse (block > maxStreamBlockBytes ∨ response > maxStreamResponseBytes) limitExceeded).map
    fun _ => response

def toolInput (serde : Serde N) (initial : Option (Value N)) (json : Option String) :
    Except ProviderError (Value N × String) :=
  match json with
  | some arguments =>
    match serde.fromStr arguments with
    | .ok input => .ok (input, arguments)
    | .error _ => .error (.decode "Claude tool arguments are not valid JSON")
  | none =>
    match initial with
    | some input => .ok (input, serde.toText input)
    | none => .error (.decode "Claude tool input is missing")

def startSignature (block : Value N) : Except ProviderError (Option String) :=
  match get block "signature" with
  | none => .ok none
  | some (.string signature) => .ok (some signature)
  | some _ => .error (.decode "Claude thinking signature must be a string")

def startInput (block : Value N) : Except ProviderError (Value N) :=
  match (get block "input").filter isObject with
  | some input => .ok input
  | none => .error (.decode "Claude tool block requires input object")

def Block.start (block : Value N) : Except ProviderError (Option (Block N)) := do
  let kind ← blockText block "type"
  match kind with
  | "text" => return some (.text (← blockText block "text"))
  | "thinking" => return some (.thinking (← blockText block "thinking") (← startSignature block))
  | "redacted_thinking" => return some (.redacted (← blockText block "data"))
  | "tool_use" =>
    return some (.tool (← blockText block "id") (← blockText block "name")
      (some (← startInput block)) none)
  | _ => return none

def Block.bytes (serde : Serde N) : Block N → ℕ
  | .text buffer | .redacted buffer => buffer.utf8ByteSize
  | .thinking buffer signature =>
    saturatingAdd buffer.utf8ByteSize (signature.elim 0 String.utf8ByteSize)
  | .tool id name initial json =>
    saturatingAdd (saturatingAdd id.utf8ByteSize name.utf8ByteSize)
      (json.elim (initial.elim 0 fun input => (serde.toText input).utf8ByteSize)
        String.utf8ByteSize)

def Block.initialEvents : Block N → List (StreamEvent (Value N))
  | .text buffer => if buffer = "" then [] else [.textDelta buffer]
  | .thinking buffer signature =>
    (if buffer = "" then [] else [.reasoningDelta buffer]) ++ match signature with
      | none => []
      | some signature => if signature = "" then [] else [.signatureDelta signature]
  | .redacted _ | .tool _ _ _ _ => []

def replacedBytes (serde : Serde N) (initial : Option (Value N)) (json : Option String) :
    Except ProviderError ℕ :=
  match json, initial with
  | some _, _ | none, none => .ok 0
  | none, some input =>
    match input with
    | .object [] => .ok (serde.toText input).utf8ByteSize
    | _ => .error (.decode "Claude tool input conflicts with streamed arguments")

def Block.delta (serde : Serde N) (block : Block N) (delta : Value N) (total : ℕ) :
    Except ProviderError (Block N × ℕ × List (StreamEvent (Value N))) := do
  let current := block.bytes serde
  let kind ← blockText delta "type"
  match block, kind with
  | .text buffer, "text_delta" =>
    let part ← blockText delta "text"
    let total ← reserve current 0 part.utf8ByteSize total
    return (.text (buffer ++ part), total, [.textDelta part])
  | .thinking buffer signature, "thinking_delta" =>
    let part ← blockText delta "thinking"
    let total ← reserve current 0 part.utf8ByteSize total
    return (.thinking (buffer ++ part) signature, total, [.reasoningDelta part])
  | .thinking buffer signature, "signature_delta" =>
    let part ← blockText delta "signature"
    let total ← reserve current 0 part.utf8ByteSize total
    return (.thinking buffer (some (signature.getD "" ++ part)), total, [.signatureDelta part])
  | .tool id name initial json, "input_json_delta" =>
    let part ← blockText delta "partial_json"
    match part with
    | "" => return (.tool id name initial json, total, [])
    | part =>
      let removed ← replacedBytes serde initial json
      let total ← reserve current removed part.utf8ByteSize total
      return (.tool id name none (some (json.getD "" ++ part)), total, [])
  | block, _ => return (block, total, [])

def Block.finish (serde : Serde N) :
    Block N → Except ProviderError (AssistantContent (Value N) × Option (StreamEvent (Value N)))
  | .text buffer => .ok (.text buffer, none)
  | .thinking buffer signature => .ok (.thinking (.visible buffer signature), none)
  | .redacted data => .ok (.thinking (.redacted data), none)
  | .tool id name initial json => do
    let (input, arguments) ← toolInput serde initial json
    return (.toolUse id name input, some (.toolCall id name arguments))

structure Accum (N : Type) where
  usage : Usage
  hasInputUsage : Bool
  hasFinalOutputUsage : Bool
  blocks : Map ℕ (Option (Block N))
  seen : List ℕ
  responseBytes : ℕ
  stop : Option StopReason

def Accum.new : Accum N := ⟨.zero, false, false, ∅, [], 0, none⟩

def Accum.hasOpenBlocks (accum : Accum N) : Bool := !accum.blocks.keys.isEmpty

abbrev Events (N : Type) := List (StreamEvent (Value N))

def blockIndex (serde : Serde N) (event : Value N) (message : String) : Except ProviderError ℕ :=
  match serde.countMember event "index" with
  | some index => .ok index
  | none => .error (.decode message)

def requireMember (event : Value N) (field message : String) : Except ProviderError (Value N) :=
  match get event field with
  | some value => .ok value
  | none => .error (.decode message)

def Accum.start (serde : Serde N) (accum : Accum N) (event : Value N) :
    Except ProviderError (Accum N × Events N) := do
  let index ← blockIndex serde event "Claude block index missing"
  refuse (index ∈ accum.seen ∨ accum.seen.length ≥ maxStreamResponseBlocks ∨
      accum.blocks.keys.length ≥ maxStreamOpenBlocks)
    (.decode "duplicate or excessive Claude response blocks")
  let block ← Block.start (← requireMember event "content_block" "Claude content_block missing")
  let size := block.elim 0 (Block.bytes serde)
  refuse (size > maxStreamBlockBytes ∨
    saturatingAdd accum.responseBytes size > maxStreamResponseBytes) limitExceeded
  return ({ accum with
      seen := index :: accum.seen
      responseBytes := accum.responseBytes + size
      blocks := accum.blocks.insert index block },
    block.elim [] Block.initialEvents)

def Accum.delta (serde : Serde N) (accum : Accum N) (event : Value N) :
    Except ProviderError (Accum N × Events N) := do
  let index ← blockIndex serde event "Claude block delta index missing"
  match accum.blocks.lookup index with
  | some (some block) =>
    let delta ← requireMember event "delta" "Claude block delta missing"
    let (block, total, events) ← block.delta serde delta accum.responseBytes
    return ({ accum with
        responseBytes := total
        blocks := accum.blocks.insert index (some block) }, events)
  | _ => return (accum, [])

def Accum.finish (serde : Serde N) (accum : Accum N) (event : Value N) :
    Except ProviderError (Accum N × Events N) := do
  let index ← blockIndex serde event "Claude block stop index missing"
  let removed := { accum with blocks := accum.blocks.erase index }
  match accum.blocks.lookup index with
  | some (some block) =>
    let (content, call) ← block.finish serde
    let after := assistantContentBytes serde.toHost content
    let response := saturatingAdd (accum.responseBytes - block.bytes serde) after
    refuse (after > maxStreamBlockBytes ∨ response > maxStreamResponseBytes) limitExceeded
    return ({ removed with responseBytes := response }, .assistantBlock index content :: call.toList)
  | _ => return (removed, [])

/-- The counters that a `message_delta` reports replace the ones so far. -/
def nextUsage (serde : Serde N) (current : Usage) (usage : Value N) (outputTokens : ℕ) : Usage :=
  let delta := mapUsage serde usage
  { inputTokens := if (get usage "input_tokens").isSome then delta.inputTokens
      else current.inputTokens
    outputTokens := outputTokens
    cacheCreateTokens :=
      if (serde.countMember usage "cache_creation_input_tokens").isSome then delta.cacheCreateTokens
      else current.cacheCreateTokens
    cacheCreate1hTokens :=
      if ((get usage "cache_creation").bind
          fun creation => get creation "ephemeral_1h_input_tokens").isSome then
        delta.cacheCreate1hTokens
      else current.cacheCreate1hTokens
    cacheReadTokens :=
      if (serde.countMember usage "cache_read_input_tokens").isSome then delta.cacheReadTokens
      else current.cacheReadTokens
    reasoningTokens :=
      if ((get usage "output_tokens_details").bind
          fun details => get details "thinking_tokens").isSome then
        delta.reasoningTokens
      else current.reasoningTokens }

/-- The stop reason that a `message_delta` sets, if it sets one. -/
def stopOf (event : Value N) : Option StopReason :=
  (get event "delta").bind fun delta =>
    (textMember delta "stop_reason").map fun reason =>
      mapStopReason reason (textMember delta "stop_sequence")

def requireOutput (serde : Serde N) (usage : Value N) : Except ProviderError ℕ :=
  match serde.countMember usage "output_tokens" with
  | some outputTokens => .ok outputTokens
  | none => .error (.decode "Claude message_delta requires output usage")

def Accum.messageDelta (serde : Serde N) (accum : Accum N) (event : Value N) :
    Except ProviderError (Accum N × Events N) := do
  refuse accum.hasOpenBlocks (.decode "Claude message_delta before blocks completed")
  let usage ← requireMember event "usage" "Claude message_delta requires output usage"
  validateUsage serde usage
  let outputTokens ← requireOutput serde usage
  refuse (outputTokens < accum.usage.outputTokens)
    (.decode "Claude cumulative output usage decreased")
  let next := nextUsage serde accum.usage usage outputTokens
  validateTotals next
  refuse (totalInput next < totalInput accum.usage)
    (.decode "Claude cumulative input usage decreased")
  return ({ accum with
      usage := next
      hasFinalOutputUsage := true
      stop := (stopOf event).or accum.stop }, [.usage next])

def Accum.messageStart (serde : Serde N) (accum : Accum N) (event : Value N) :
    Except ProviderError (Accum N × Events N) := do
  match (get event "message").bind fun message => get message "usage" with
  | none => return (accum, [.start accum.usage])
  | some usage =>
    validateUsage serde usage
    let mapped := mapUsage serde usage
    validateTotals mapped
    return ({ accum with
        hasInputUsage := (serde.countMember usage "input_tokens").isSome
        usage := mapped }, [.start mapped])

def Accum.messageStop (accum : Accum N) : Except ProviderError (Accum N × Events N) :=
  if !accum.hasInputUsage ∨ !accum.hasFinalOutputUsage then
    .error (.decode "Claude stream requires initial input and final output usage")
  else if accum.hasOpenBlocks then
    .error (.decode "Claude message_stop with incomplete blocks")
  else
    match accum.stop with
    | none => .error (.decode "Claude message_stop without a stop reason")
    | some stop => .ok (accum, [.finish stop accum.usage])

def isContent : EventKind → Bool
  | .contentBlockStart | .contentBlockDelta | .contentBlockStop => true
  | _ => false

def Accum.push (serde : Serde N) (accum : Accum N) (event : Value N) (kind : EventKind) :
    Except ProviderError (Accum N × Events N) :=
  if accum.stop.isSome ∧ isContent kind then
    .error (.decode "Claude content followed terminal usage")
  else
    match kind with
    | .messageStart => accum.messageStart serde event
    | .contentBlockStart => accum.start serde event
    | .contentBlockDelta => accum.delta serde event
    | .contentBlockStop => accum.finish serde event
    | .messageDelta => accum.messageDelta serde event
    | .messageStop => accum.messageStop
    | .error | .other => .ok (accum, [])

inductive BlockKind
  | text
  | thinking
  | tool
  | other
deriving DecidableEq

def BlockKind.of : Option String → BlockKind
  | some "text" => .text
  | some "thinking" => .thinking
  | some "tool_use" => .tool
  | _ => .other

def deltaKind : Option String → Option BlockKind
  | some "text_delta" => some .text
  | some "thinking_delta" | some "signature_delta" => some .thinking
  | some "input_json_delta" => some .tool
  | _ => none

structure Decoder (N : Type) where
  framer : Framer
  accum : Accum N
  blocks : Map ℕ BlockKind
  started : Bool

def Decoder.new : Decoder N := ⟨.new, .new, ∅, false⟩

def Decoder.track (serde : Serde N) (decoder : Decoder N) (event : Value N) :
    EventKind → Except ProviderError (Map ℕ BlockKind)
  | .contentBlockStart => do
    let index ← requireIndex serde event
    refuse ((decoder.blocks.lookup index).isSome ∨ decoder.blocks.keys.length ≥ maxStreamOpenBlocks)
      (.decode "duplicate or excessive Claude content blocks")
    return decoder.blocks.insert index
      (.of ((get event "content_block").bind (textMember · "type")))
  | .contentBlockDelta => do
    let index ← requireIndex serde event
    match decoder.blocks.lookup index with
    | none => throw (.decode "Claude delta for an unopened block")
    | some block =>
      match deltaKind ((get event "delta").bind (textMember · "type")) with
      | none => return decoder.blocks
      | some expected =>
        refuse (expected ≠ block) (.decode "Claude delta does not match its content block")
        return decoder.blocks
  | .contentBlockStop => do
    let index ← requireIndex serde event
    refuse (decoder.blocks.lookup index).isNone (.decode "Claude stop for an unopened block")
    return decoder.blocks.erase index
  | .messageStop =>
    if !decoder.blocks.keys.isEmpty ∨ decoder.accum.hasOpenBlocks ∨ decoder.accum.stop.isNone then
      .error (.decode "Claude message_stop before blocks and stop reason completed")
    else .ok decoder.blocks
  | _ => .ok decoder.blocks

def Decoder.admit (serde : Serde N) (decoder : Decoder N) (event : Value N) (kind : EventKind) :
    Except ProviderError (Decoder N × Events N) := do
  let blocks ← decoder.track serde event kind
  let (accum, events) ← decoder.accum.push serde event kind
  return ({ decoder with accum := accum, blocks := blocks, started := true }, events)

def Decoder.event (serde : Serde N) (decoder : Decoder N) (event : Value N) :
    Except ProviderError (Decoder N × Events N) := do
  let kind ← validate serde event
  match kind with
  | .error => throw (streamError event)
  | .other => return (decoder, [])
  | .messageStart =>
    refuse decoder.started (.decode "duplicate Claude message_start")
    decoder.admit serde event .messageStart
  | kind =>
    refuse (decoder.started = false) (.decode "Claude event before message_start")
    decoder.admit serde event kind

def Decoder.accept (serde : Serde N) (decoder : Decoder N) (part : List UInt8) :
    Except ProviderError (Decoder N × Events N) := do
  let read ← decoder.framer.accept part
  match read with
  | (framer, none) => return ({ decoder with framer := framer }, [])
  | (framer, some frame) =>
    Decoder.event serde { decoder with framer := framer } (← decodeFrame serde frame)

def decode (serde : Serde N) (bytes : List (Except String (List UInt8))) : List (Item (Value N)) :=
  drive (Decoder.accept serde) "Claude stream ended before message_stop" .new bytes

end

end Stakit.Claude
