import Mathlib.Algebra.Ring.Nat
import Stakit.EntryMaps

set_option autoImplicit false

namespace Stakit.AgentMessages
open EntryMaps

/-- What `serde_json` and string formatting compute: `json` is the value of a literal, given
by its text, and `debug` the text of a string under `{:?}`. -/
structure Host (J : Type) where
  fromStr : String → Except String J
  json : String → J
  toText : J → String
  ofString : String → J
  asStr : J → Option String
  debug : String → String

inductive Thinking
  | visible (text : String) (signature : Option String)
  | redacted (data : String)
deriving DecidableEq

inductive AssistantContent (J : Type)
  | text (text : String)
  | toolUse (id name : String) (input : J)
  | thinking (thinking : Thinking)
deriving DecidableEq

inductive Image
  | url (url : String)
  | fileId (fileId : String)
  | base64 (mediaType : String) (data : List UInt8)
deriving DecidableEq

inductive Document
  | url (url : String)
  | fileId (fileId : String)
  | base64 (mediaType : String) (data : List UInt8)
deriving DecidableEq

inductive ToolResultPart
  | text (text : String)
  | image (image : Image)
deriving DecidableEq

inductive UserContent
  | text (text : String)
  | image (image : Image)
  | document (document : Document)
  | toolResult (id : String) (content : List ToolResultPart) (isError : Bool)
deriving DecidableEq

inductive Message (J : Type)
  | user (content : List UserContent)
  | assistant (content : List (AssistantContent J))
deriving DecidableEq

structure SystemPrompt where
  text : String
  cache : Bool
deriving DecidableEq

structure ToolDef (J : Type) where
  name : String
  description : String
  parameters : J
  strict : Bool
  cache : Bool
deriving DecidableEq

inductive StopReason
  | endTurn
  | maxTokens
  | stopSequence (sequence : String)
  | toolUse
  | refusal
  | pause
  | other (value : String)
deriving DecidableEq

structure Usage where
  inputTokens : ℕ
  outputTokens : ℕ
  cacheCreateTokens : ℕ
  cacheCreate1hTokens : ℕ
  cacheReadTokens : ℕ
  reasoningTokens : ℕ
deriving DecidableEq

def Usage.zero : Usage := ⟨0, 0, 0, 0, 0, 0⟩

/-- Addition of `u64` or `usize` counters. -/
def saturatingAdd (a b : ℕ) : ℕ := min (a + b) (2 ^ 64 - 1)

def Usage.merge (usage other : Usage) : Usage where
  inputTokens := saturatingAdd usage.inputTokens other.inputTokens
  outputTokens := saturatingAdd usage.outputTokens other.outputTokens
  cacheCreateTokens := saturatingAdd usage.cacheCreateTokens other.cacheCreateTokens
  cacheCreate1hTokens := saturatingAdd usage.cacheCreate1hTokens other.cacheCreate1hTokens
  cacheReadTokens := saturatingAdd usage.cacheReadTokens other.cacheReadTokens
  reasoningTokens := saturatingAdd usage.reasoningTokens other.reasoningTokens

inductive StreamEvent (J : Type)
  | start (usage : Usage)
  | usage (usage : Usage)
  | textDelta (text : String)
  | reasoningDelta (text : String)
  | signatureDelta (text : String)
  | assistantBlock (index : ℕ) (content : AssistantContent J)
  | toolCall (id name arguments : String)
  | finish (stop : StopReason) (usage : Usage)

def reported {J : Type} : StreamEvent J → Option Usage
  | .start usage | .usage usage | .finish _ usage => some usage
  | _ => none

def maxStreamBlockBytes : ℕ := 1024 * 1024
def maxStreamResponseBytes : ℕ := 8 * 1024 * 1024
def maxStreamResponseBlocks : ℕ := 1024

section
variable {J : Type}

def isSigned : AssistantContent J → Bool
  | .thinking (.visible _ (some _)) | .thinking (.redacted _) => true
  | _ => false

def hasSignedHistory (messages : List (Message J)) : Bool :=
  messages.any fun message =>
    match message with
    | .assistant blocks => blocks.any isSigned
    | .user _ => false

def assistantContentBytes (host : Host J) : AssistantContent J → ℕ
  | .text text => text.utf8ByteSize
  | .thinking (.visible text signature) =>
    saturatingAdd text.utf8ByteSize (signature.elim 0 String.utf8ByteSize)
  | .thinking (.redacted data) => data.utf8ByteSize
  | .toolUse id name input =>
    saturatingAdd (saturatingAdd id.utf8ByteSize name.utf8ByteSize)
      (host.toText input).utf8ByteSize

structure ParsedCall (J : Type) where
  id : String
  name : String
  args : J
  parseError : Option String

def ParsedCall.parse (host : Host J) (id name arguments : String) : ParsedCall J :=
  match host.fromStr arguments with
  | .ok args => ⟨id, name, args, none⟩
  | .error e => ⟨id, name, host.json "{}", some s!"malformed tool arguments: {e}"⟩

structure StepAccum (J : Type) where
  text : String
  reasoning : String
  sawSignature : Bool
  toolCalls : List (ParsedCall J)
  stepUsage : Usage
  stop : Option StopReason
  completeBlocks : Entries ℕ (AssistantContent J)
  completeBytes : ℕ
  deltaBytes : ℕ
  protocolError : Option String

def StepAccum.empty : StepAccum J := ⟨"", "", false, [], .zero, none, [], 0, 0, none⟩

inductive Delta (J : Type)
  | message (text : String)
  | reasoning (text : String)
  | toolCall (id name : String) (args : J)

def StreamEvent.deltaBytes : StreamEvent J → ℕ
  | .textDelta text | .reasoningDelta text | .signatureDelta text => text.utf8ByteSize
  | .toolCall id name arguments =>
    saturatingAdd (saturatingAdd id.utf8ByteSize name.utf8ByteSize) arguments.utf8ByteSize
  | _ => 0

def StepAccum.applyBlock (host : Host J) (acc : StepAccum J) (index : ℕ)
    (content : AssistantContent J) : StepAccum J :=
  let bytes := assistantContentBytes host content
  let acc := { acc with completeBytes := saturatingAdd acc.completeBytes bytes }
  if bytes > maxStreamBlockBytes ∨ acc.completeBytes > maxStreamResponseBytes ∨
      acc.completeBlocks.length ≥ maxStreamResponseBlocks ∨
      index ∈ acc.completeBlocks.map Prod.fst then
    { acc with
      protocolError := some "provider returned duplicate or oversized assistant blocks" }
  else { acc with completeBlocks := insertSorted acc.completeBlocks index content }

def StepAccum.applyCall (host : Host J) (acc : StepAccum J) (id name arguments : String) :
    StepAccum J × Option (Delta J) :=
  if acc.toolCalls.length ≥ maxStreamResponseBlocks then
    ({ acc with protocolError := some "provider returned too many tool calls" }, none)
  else
    let call := ParsedCall.parse host id name arguments
    ({ acc with toolCalls := acc.toolCalls ++ [call] }, some (.toolCall id name call.args))

def StepAccum.apply (host : Host J) (acc : StepAccum J) (event : StreamEvent J) :
    StepAccum J × Option (Delta J) :=
  let acc := { acc with deltaBytes := saturatingAdd acc.deltaBytes event.deltaBytes }
  if event.deltaBytes > maxStreamBlockBytes ∨ acc.deltaBytes > maxStreamResponseBytes then
    ({ acc with protocolError := some "provider response exceeded its content limit" }, none)
  else
    match event with
    | .start usage | .usage usage => ({ acc with stepUsage := usage }, none)
    | .textDelta text => ({ acc with text := acc.text ++ text }, some (.message text))
    | .reasoningDelta text =>
      ({ acc with reasoning := acc.reasoning ++ text }, some (.reasoning text))
    | .signatureDelta _ => ({ acc with sawSignature := true }, none)
    | .assistantBlock index content => (acc.applyBlock host index content, none)
    | .toolCall id name arguments => acc.applyCall host id name arguments
    | .finish stop usage => ({ acc with stop := some stop, stepUsage := usage }, none)

def StepAccum.blocks (acc : StepAccum J) : List (AssistantContent J) :=
  acc.completeBlocks.map Prod.snd

def blockText (blocks : List (AssistantContent J)) : String :=
  blocks.foldl (fun text block =>
    match block with
    | .text value => text ++ value
    | _ => text) ""

def blockReasoning (blocks : List (AssistantContent J)) : String :=
  blocks.foldl (fun reasoning block =>
    match block with
    | .thinking (.visible text _) => reasoning ++ text
    | _ => reasoning) ""

def StepAccum.captureCompleteText (acc : StepAccum J) : StepAccum J :=
  { acc with
    text := if acc.text = "" then blockText acc.blocks else acc.text
    reasoning := if acc.reasoning = "" then blockReasoning acc.blocks else acc.reasoning }

/-- The tool calls in the order of their complete blocks, each block taking its call out of
the ones that are left. -/
def orderCalls [DecidableEq J] : List (AssistantContent J) → List (ParsedCall J) →
    List (ParsedCall J) → Except String (List (ParsedCall J) × List (ParsedCall J))
  | [], calls, ordered => .ok (calls, ordered)
  | .toolUse id name input :: rest, calls, ordered =>
    if ordered.any fun call => call.id = id then
      .error "provider returned duplicate tool call ids"
    else
      let matching := fun call : ParsedCall J =>
        decide (call.id = id ∧ call.name = name ∧ call.args = input ∧ call.parseError = none)
      match calls.find? matching with
      | none => .error "complete assistant tool block does not match its tool call"
      | some call => orderCalls rest (calls.eraseP matching) (ordered ++ [call])
  | _ :: rest, calls, ordered => orderCalls rest calls ordered

def StepAccum.validateBlocks [DecidableEq J] (acc : StepAccum J) : Except String (StepAccum J) :=
  match acc.protocolError with
  | some error => .error error
  | none =>
    if acc.sawSignature ∧ ¬acc.blocks.any isSigned then
      .error "signed provider output requires complete assistant blocks"
    else if acc.completeBlocks = [] then .ok acc
    else if acc.completeBlocks.map Prod.fst ≠ List.range acc.completeBlocks.length then
      .error "provider returned incomplete assistant block indices"
    else
      match orderCalls acc.blocks acc.toolCalls [] with
      | .error error => .error error
      | .ok (_ :: _, _) => .error "provider omitted complete assistant tool blocks"
      | .ok ([], ordered) => .ok { acc with toolCalls := ordered }

def bytesPerToken : ℕ := 4

def estimatedTokens (bytes : ℕ) : ℕ := (bytes + bytesPerToken - 1) / bytesPerToken

def StepAccum.partialUsage (acc : StepAccum J) : Usage :=
  let streamed := saturatingAdd acc.text.utf8ByteSize acc.reasoning.utf8ByteSize
  { acc.stepUsage with
    outputTokens := max acc.stepUsage.outputTokens (estimatedTokens streamed) }

/-- A completed response must explicitly authorize its queued tools. -/
def terminalFailure (stop : StopReason) (hasTools : Bool) : Option String :=
  match stop, hasTools with
  | .toolUse, true => none
  | .endTurn, false | .stopSequence _, false => none
  | .refusal, _ => some "provider refused the request"
  | .maxTokens, _ => some "provider reached its output limit"
  | .pause, _ => some "provider paused the turn"
  | .other _, _ => some "provider returned an unsupported stop reason"
  | .toolUse, false => some "provider requested tools without any tool calls"
  | .endTurn, true | .stopSequence _, true =>
    some "provider stopped without authorizing its tool calls"

end

end Stakit.AgentMessages
