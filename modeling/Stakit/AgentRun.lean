import Stakit.AgentMessages
import Stakit.TransitionRuns

set_option autoImplicit false

/-!
# The agent loop

A run of an agent as a machine that moves from one point of the loop body to the next.
At an await or a yield it waits for an input: the answer of a hook, a provider, a tool
or a skill loader, or the consumer's next poll. Elsewhere it waits for `resume`. The
token may be cancelled at any point. The trace records what the run lets out.
-/
namespace Stakit.AgentRun
open AgentMessages EntryMaps

structure Skill where
  id : String
  name : String
  description : String
deriving DecidableEq

structure ChatRequest (J : Type) where
  model : String
  system : Option SystemPrompt
  messages : List (Message J)
  tools : List (ToolDef J)
  maxTokens : ℕ
  cacheKey : Option String
deriving DecidableEq

/-- Signed history attests to this request context and its unchanged prefix. -/
structure ReplayBinding (J : Type) where
  model : String
  system : Option SystemPrompt
  tools : List (ToolDef J)
  messages : List (Message J)
deriving DecidableEq

structure Agent (M J : Type) where
  providers : List String
  currentModel : String
  tools : List (ToolDef J)
  skills : List Skill
  skillManifest : Option String
  hasLoader : Bool
  middleware : List M
  system : Option String
  messages : List (Message J)
  replayBinding : Option (ReplayBinding J)
  cacheKey : Option String
  maxRetries : ℕ
  usage : Usage
  maxTokens : ℕ
  cancelled : Bool

inductive Flow
  | next
  | stop (message : String)
deriving DecidableEq

inductive Approval
  | allow
  | deny (message : String)
  | stop (message : Option String)
deriving DecidableEq

inductive Finish
  | endTurn
  | limit (steps : ℕ)
  | stopped (message : Option String)
  | cancelled
deriving DecidableEq

structure Outcome where
  text : String
  usage : Usage
  steps : ℕ
  finish : Finish
deriving DecidableEq

inductive ToolOutcome (J : Type)
  | ok (value : J)
  | denied (message : String)
  | error (message : String)
deriving DecidableEq

inductive AgentEvent (J : Type)
  | stepStart (index : ℕ)
  | reasoningDelta (text : String)
  | messageDelta (text : String)
  | toolCall (id name : String) (args : J)
  | toolResult (id name : String) (result : ToolOutcome J)
  | stepEnd (index : ℕ) (text : String) (reasoning : Option String) (usage : Usage)
  | done (outcome : Outcome)
deriving DecidableEq

structure PendingToolCall (J : Type) where
  id : String
  name : String
  args : J
deriving DecidableEq

/-- A tool call with its approval, and what each middleware answered for it. -/
structure ToolPlan (J : Type) where
  id : String
  name : String
  args : J
  approval : Approval
  denied : Option String
  parseError : Option String
  answers : List Approval

structure ToolCallRecord (J : Type) where
  id : String
  name : String
  args : J
  approval : Approval
  result : ToolOutcome J

structure Step (J : Type) where
  index : ℕ
  reasoning : Option String
  text : String
  toolCalls : List (ToolCallRecord J)
  stop : StopReason

/-- A response that reached its terminal event: every event received for it, and whether
the token was cancelled by then. -/
structure Response (J : Type) where
  request : ChatRequest J
  received : List (StreamEvent J)
  cancelled : Bool
  text : Option String
  reasoning : Option String
  blocks : List (AssistantContent J)
  calls : List (ParsedCall J)
  usage : Usage
  stop : StopReason
  failure : Option String

inductive Hook
  | onStart
  | onStep
  | onStepDone
  | onFinish
deriving DecidableEq

inductive Entry (J : Type)
  | event (event : AgentEvent J)
  | hook (hook : Hook) (middleware : ℕ)
  | request (request : ChatRequest J)
  | asked (step middleware : ℕ) (call : PendingToolCall J)
  | invoked (step : ℕ) (response : Response J) (before : List (ToolPlan J)) (plan : ToolPlan J)

/-- Why the stream of a response was left. -/
inductive Cut
  | none
  | cancelled
  | error (error : String)

/-- Where a run stands, with the local variables that are live there. -/
inductive Point (J : Type)
  | created
  | skills
  | listSkills
  | skillsDone
  | constants
  | starting (k : ℕ)
  | onStart (k : ℕ)
  | bindLoaded
  | loopHead
  | stepping (k : ℕ)
  | onStep (k : ℕ)
  | stepStart
  | acquiring (request : ChatRequest J) (attempt : ℕ)
  | backoff (request : ChatRequest J) (attempt : ℕ)
  | attempting (request : ChatRequest J) (attempt : ℕ)
  | folding (request : ChatRequest J) (received : List (StreamEvent J)) (acc : StepAccum J)
      (event : StreamEvent J)
  | delta (request : ChatRequest J) (received : List (StreamEvent J)) (acc : StepAccum J)
  | folded (request : ChatRequest J) (received : List (StreamEvent J)) (acc : StepAccum J)
  | drain (request : ChatRequest J) (received : List (StreamEvent J)) (acc : StepAccum J)
  | drained (request : ChatRequest J) (received : List (StreamEvent J)) (acc : StepAccum J)
      (cut : Cut)
  | respond (response : Response J)
  | approving (response : Response J) (plans : List (ToolPlan J)) (calls : List (ParsedCall J))
  | asking (response : Response J) (plans : List (ToolPlan J)) (call : ParsedCall J)
      (calls : List (ParsedCall J)) (k : ℕ) (decision : Approval) (answers : List Approval)
  | onToolApprove (response : Response J) (plans : List (ToolPlan J)) (call : ParsedCall J)
      (calls : List (ParsedCall J)) (k : ℕ) (decision : Approval) (answers : List Approval)
  | dispatch (response : Response J) (plans : List (ToolPlan J))
      (outcomes : List (Option (ToolOutcome J))) (toolStop : Option (Option String))
  | results (response : Response J) (records : List (ToolCallRecord J))
      (toolStop : Option (Option String)) (left : List (AgentEvent J))
  | stepEnd (response : Response J) (records : List (ToolCallRecord J))
      (toolStop : Option (Option String))
  | finishingStep (response : Response J) (records : List (ToolCallRecord J))
      (toolStop : Option (Option String)) (k : ℕ)
  | onStepDone (response : Response J) (records : List (ToolCallRecord J))
      (toolStop : Option (Option String)) (k : ℕ)
  | finishing (finish : Finish) (k : ℕ)
  | onFinish (finish : Finish) (k : ℕ)
  | done
  | returned

structure HookReply (J : Type) where
  messages : List (Message J)
  model : String
  system : Option String
  flow : Except String Flow

inductive Input (J : Type)
  | cancel
  | resume
  | listed (skills : Except String (List Skill))
  | hook (reply : HookReply J)
  | accepts (cache : Except String Unit) (maxOutputTokens : Option ℕ)
  | slept
  | first (event : StreamEvent J)
  | timedOut
  | failed (error : String) (retryable : Bool)
  | empty
  | next (event : StreamEvent J)
  | ended
  | streamFailed (error : String)
  | approval (answer : Except String Approval)
  | startTool
  | toolDone (position : ℕ) (result : Except String J)

structure Run (M J : Type) where
  agent : Agent M J
  mw : List M
  started : ℕ
  totalSteps : ℕ
  finalText : String
  keepPartialText : Bool
  runTools : List (ToolDef J)
  runCacheKey : Option String
  lastStep : Option (Step J)
  point : Point J
  trace : List (Entry J)

def defaultMaxSteps : ℕ := 16
def maxConcurrentTools : ℕ := 8
def cancelledToolResult : String := "tool call cancelled: run stopped"

section
variable {M J : Type}

def ReplayBinding.fromRequest (request : ChatRequest J) : ReplayBinding J :=
  ⟨request.model, request.system, request.tools, request.messages⟩

def ReplayBinding.accepts [DecidableEq J] (binding : ReplayBinding J) (request : ChatRequest J) :
    Bool :=
  binding.model = request.model && binding.system = request.system &&
    binding.tools = request.tools && binding.messages.isPrefixOf request.messages

def ChatRequest.fitTo (request : ChatRequest J) (maxOutputTokens : Option ℕ) : ChatRequest J :=
  { request with maxTokens := maxOutputTokens.elim request.maxTokens (min request.maxTokens) }

def renderSkillManifest (skills : List Skill) : String :=
  skills.foldl (fun text skill => text ++ s!"- {skill.name} ({skill.id}): {skill.description}\n")
    ("## Available skills\nUse `load_skill(id)` to load a skill's full instructions, or " ++
      "`search_skills(query)` to find one.\n")

def skillToolDefs (host : Host J) : List (ToolDef J) :=
  [{ name := "load_skill"
     description := "Load a skill's full instructions by id (from the available-skills list)."
     parameters := host.json ("\x7b\"type\":\"object\",\"properties\":\x7b\"id\":\x7b\"type\":" ++
       "\"string\",\"description\":\"Skill id\"\x7d\x7d,\"required\":[\"id\"]\x7d")
     strict := false
     cache := false },
   { name := "search_skills"
     description :=
       "Search available skills by keyword; returns matching ids, names and descriptions."
     parameters := host.json ("\x7b\"type\":\"object\",\"properties\":\x7b\"query\":\x7b" ++
       "\"type\":\"string\"\x7d\x7d,\"required\":[\"query\"]\x7d")
     strict := false
     cache := false }]

def Agent.buildSystem (agent : Agent M J) : Option SystemPrompt :=
  (match agent.system, agent.skillManifest with
    | some base, none => some base
    | some base, some manifest => some s!"{base}\n\n{manifest}"
    | none, some manifest => some manifest
    | none, none => none).map fun text => ⟨text, false⟩

def Agent.buildRequest (agent : Agent M J) (tools : List (ToolDef J)) (cacheKey : Option String) :
    ChatRequest J where
  model := agent.currentModel
  system := agent.buildSystem
  messages := agent.messages
  tools := tools
  maxTokens := agent.maxTokens
  cacheKey := cacheKey

def Agent.recordUsage (agent : Agent M J) (usage : Usage) : Agent M J :=
  { agent with usage := agent.usage.merge usage }

def messageBytes (host : Host J) : Message J → ℕ
  | .user blocks => (blocks.map fun block =>
      match block with
      | .text text => text.utf8ByteSize
      | .toolResult _ content _ => (content.map fun part =>
          match part with
          | .text text => text.utf8ByteSize
          | .image _ => 0).sum
      | .image _ | .document _ => 0).sum
  | .assistant blocks => (blocks.map fun block =>
      match block with
      | .text text | .thinking (.visible text _) => text.utf8ByteSize
      | .toolUse _ name input => name.utf8ByteSize + (host.toText input).utf8ByteSize
      | .thinking (.redacted data) => data.utf8ByteSize).sum

def estimatedPromptTokens (host : Host J) (request : ChatRequest J) : ℕ :=
  let system := request.system.elim 0 fun system => system.text.utf8ByteSize
  let history := (request.messages.map (messageBytes host)).sum
  let tools := (request.tools.map fun tool =>
    tool.name.utf8ByteSize + tool.description.utf8ByteSize +
      (host.toText tool.parameters).utf8ByteSize).sum
  estimatedTokens (system + history + tools)

def Run.goto (r : Run M J) (point : Point J) : Run M J := { r with point := point }

def Run.emit (r : Run M J) (event : AgentEvent J) : Run M J :=
  { r with trace := r.trace ++ [.event event] }

def Run.call (r : Run M J) (hook : Hook) (k : ℕ) : Run M J :=
  { r with trace := r.trace ++ [.hook hook k] }

def Run.stop (r : Run M J) (message : String) : Run M J :=
  r.goto (.finishing (.stopped (some message)) 0)

/-- What a hook does through its `AgentCx`. -/
def Run.edit (r : Run M J) (reply : HookReply J) : Run M J :=
  { r with agent :=
      { r.agent with
        messages := reply.messages
        currentModel := reply.model
        system := reply.system } }

def create (r : Run M J) : Run M J :=
  { r with
    agent := { r.agent with middleware := [] }
    mw := r.agent.middleware
    started := 0
    totalSteps := 0
    finalText := ""
    keepPartialText := false
    lastStep := none
    point := .skills }

def skills (r : Run M J) : Run M J :=
  if r.agent.skills = [] ∧ r.agent.hasLoader then r.goto .listSkills else r.goto .constants

def listSkills (r : Run M J) : Except String (List Skill) → Run M J
  | .ok found => { r with agent := { r.agent with skills := found }, point := .constants }
  | .error e =>
    (r.emit (.done
      { text := ""
        usage := r.agent.usage
        steps := r.totalSteps
        finish := .stopped (some s!"skill loader error: {e}") })).goto .skillsDone

def giveBack (r : Run M J) : Run M J :=
  { r with agent := { r.agent with middleware := r.mw }, mw := [], point := .returned }

def constants (host : Host J) (r : Run M J) : Run M J :=
  let active := r.agent.skills ≠ []
  { r with
    agent :=
      { r.agent with
        skillManifest :=
          if active ∧ r.agent.skillManifest = none then some (renderSkillManifest r.agent.skills)
          else r.agent.skillManifest }
    runTools := r.agent.tools ++ if active then skillToolDefs host else []
    runCacheKey := r.agent.cacheKey
    point := .starting 0 }

def starting (r : Run M J) (k : ℕ) : Run M J :=
  if k < r.mw.length then
    ({ r with started := r.started + 1 }.call .onStart k).goto (.onStart k)
  else r.goto .bindLoaded

def onStart (r : Run M J) (k : ℕ) (reply : HookReply J) : Run M J :=
  let r := r.edit reply
  match reply.flow with
  | .ok .next => r.goto (.starting (k + 1))
  | .ok (.stop message) => { r.stop message with finalText := message }
  | .error e => r.stop s!"on_start error: {e}"

def bindLoaded (r : Run M J) : Run M J :=
  let binding :=
    if r.agent.replayBinding = none ∧ hasSignedHistory r.agent.messages then
      some (ReplayBinding.fromRequest (r.agent.buildRequest r.runTools r.runCacheKey))
    else r.agent.replayBinding
  { r with agent := { r.agent with replayBinding := binding }, point := .loopHead }

def loopHead (r : Run M J) : Run M J :=
  if r.agent.cancelled then r.goto (.finishing .cancelled 0) else r.goto (.stepping 0)

def stepping (r : Run M J) (k : ℕ) : Run M J :=
  if k < r.mw.length then (r.call .onStep k).goto (.onStep k)
  else (r.emit (.stepStart r.totalSteps)).goto .stepStart

def onStep (r : Run M J) (k : ℕ) (reply : HookReply J) : Run M J :=
  let r := r.edit reply
  match reply.flow with
  | .ok .next => r.goto (.stepping (k + 1))
  | .ok (.stop message) => { r.stop message with finalText := message }
  | .error e => { r.stop s!"on_step error: {e}" with finalText := s!"on_step error: {e}" }

def signedContextChanged : String :=
  "signed assistant context was changed; original model, system, tools and message prefix " ++
    "are required"

def stepStart [DecidableEq J] (host : Host J) (r : Run M J) (cache : Except String Unit)
    (maxOutputTokens : Option ℕ) : Run M J :=
  let request := r.agent.buildRequest r.runTools r.runCacheKey
  if r.agent.currentModel ∉ r.agent.providers then
    r.stop s!"context error: no provider registered for model {host.debug r.agent.currentModel}"
  else
    match cache with
    | .error e => r.stop s!"provider error: {e}"
    | .ok () =>
      if r.agent.replayBinding.any fun binding => !binding.accepts request then
        { r.stop signedContextChanged with keepPartialText := true }
      else r.goto (.acquiring (request.fitTo maxOutputTokens) 0)

def cancelRequest (r : Run M J) (promptTokens : ℕ) : Run M J :=
  { r with
    agent := r.agent.recordUsage { Usage.zero with inputTokens := promptTokens }
    point := .finishing .cancelled 0 }

def sendRequest (r : Run M J) (request : ChatRequest J) (attempt : ℕ) : Run M J :=
  { r with trace := r.trace ++ [.request request], point := .attempting request attempt }

def acquiring (r : Run M J) (request : ChatRequest J) (attempt : ℕ) : Run M J :=
  if r.agent.cancelled then cancelRequest r 0
  else if attempt = 0 then sendRequest r request attempt
  else r.goto (.backoff request attempt)

def backoff (r : Run M J) (request : ChatRequest J) (attempt : ℕ) : Run M J :=
  if r.agent.cancelled then cancelRequest r 0 else sendRequest r request attempt

/-- A failed attempt is followed by another one until `max_retries + 1` of them are made. -/
def retry (r : Run M J) (request : ChatRequest J) (attempt : ℕ) (error : String) : Run M J :=
  if attempt < r.agent.maxRetries then r.goto (.acquiring request (attempt + 1))
  else r.stop s!"provider error: {error}"

def attempting (host : Host J) (r : Run M J) (request : ChatRequest J) (attempt : ℕ)
    (input : Input J) : Run M J :=
  if r.agent.cancelled then cancelRequest r (estimatedPromptTokens host request)
  else
    match input with
    | .first event => r.goto (.folding request [] .empty event)
    | .timedOut => retry r request attempt "transport error: provider call timed out"
    | .failed error true => retry r request attempt error
    | .failed error false => r.stop s!"provider error: {error}"
    | .empty =>
      r.stop "provider error: transport error: provider stream ended before its terminal event"
    | _ => r

def Delta.event : Delta J → AgentEvent J
  | .message text => .messageDelta text
  | .reasoning text => .reasoningDelta text
  | .toolCall id name args => .toolCall id name args

def folding (host : Host J) (r : Run M J) (request : ChatRequest J)
    (received : List (StreamEvent J)) (acc : StepAccum J) (event : StreamEvent J) : Run M J :=
  let (acc, delta) := acc.apply host event
  match delta with
  | some delta => (r.emit (Delta.event delta)).goto (.delta request (received ++ [event]) acc)
  | none => r.goto (.folded request (received ++ [event]) acc)

def folded (r : Run M J) (request : ChatRequest J) (received : List (StreamEvent J))
    (acc : StepAccum J) : Run M J :=
  if acc.stop.isSome ∨ acc.protocolError.isSome then r.goto (.drained request received acc .none)
  else r.goto (.drain request received acc)

def drain (r : Run M J) (request : ChatRequest J) (received : List (StreamEvent J))
    (acc : StepAccum J) (input : Input J) : Run M J :=
  if r.agent.cancelled then r.goto (.drained request received acc .cancelled)
  else
    match input with
    | .next event => r.goto (.folding request received acc event)
    | .ended => r.goto (.drained request received acc .none)
    | .streamFailed e => r.goto (.drained request received acc (.error e))
    | _ => r

def recordPartial (r : Run M J) (acc : StepAccum J) : Run M J :=
  let agent := r.agent.recordUsage acc.partialUsage
  if acc.text = "" then { r with agent := agent }
  else
    { r with
      agent := { agent with messages := agent.messages ++ [.assistant [.text acc.text]] }
      finalText := acc.text }

def interrupt (r : Run M J) (acc : StepAccum J) (message : String) : Run M J :=
  { (recordPartial r acc).stop message with keepPartialText := true }

def nonempty (text : String) : Option String := if text = "" then none else some text

def assembleBlocks (acc : StepAccum J) (text reasoning : Option String) :
    List (AssistantContent J) :=
  if acc.completeBlocks = [] then
    (reasoning.map fun text => AssistantContent.thinking (.visible text none)).toList ++
      (text.map AssistantContent.text).toList ++
        acc.toolCalls.map fun call => .toolUse call.id call.name call.args
  else acc.blocks

/-- A failed response keeps its text only. -/
def StepAccum.withhold (acc : StepAccum J) : StepAccum J :=
  { acc with toolCalls := [], reasoning := "", sawSignature := false, completeBlocks := [] }

def StepAccum.keep (acc : StepAccum J) : Option String → StepAccum J
  | some _ => StepAccum.withhold acc
  | none => acc

def responseOf (request : ChatRequest J) (received : List (StreamEvent J)) (cancelled : Bool)
    (acc : StepAccum J) (stop : StopReason) : Response J :=
  let failure := terminalFailure stop (!acc.toolCalls.isEmpty)
  let acc := StepAccum.keep acc failure
  let text := nonempty (if acc.completeBlocks = [] then acc.text else blockText acc.blocks)
  let reasoning :=
    nonempty (if acc.completeBlocks = [] then acc.reasoning else blockReasoning acc.blocks)
  { request := request
    received := received
    cancelled := cancelled
    text := text
    reasoning := reasoning
    blocks := assembleBlocks acc text reasoning
    calls := acc.toolCalls
    usage := acc.stepUsage
    stop := stop
    failure := failure }

def drained [DecidableEq J] (r : Run M J) (request : ChatRequest J)
    (received : List (StreamEvent J)) (acc : StepAccum J) (cut : Cut) : Run M J :=
  let acc := acc.captureCompleteText
  match cut with
  | .cancelled => (recordPartial r acc).goto (.finishing .cancelled 0)
  | .error e => interrupt r acc s!"provider error: {e}"
  | .none =>
    match acc.validateBlocks with
    | .error message => interrupt r acc message
    | .ok valid =>
      match valid.stop with
      | none => interrupt r valid "provider stream ended before its terminal event"
      | some stop =>
        r.goto (.respond (responseOf request received r.agent.cancelled valid stop))

def respond (r : Run M J) (response : Response J) : Run M J :=
  let messages := if response.blocks = [] then r.agent.messages
    else r.agent.messages ++ [.assistant response.blocks]
  let binding := if response.blocks.any isSigned then
      some { ReplayBinding.fromRequest response.request with messages := messages }
    else r.agent.replayBinding
  { r with
    agent :=
      { r.agent with messages := messages, replayBinding := binding }.recordUsage response.usage
    finalText := response.text.getD r.finalText
    point := .approving response [] response.calls }

def approving (r : Run M J) (response : Response J) (plans : List (ToolPlan J)) :
    List (ParsedCall J) → Run M J
  | [] => r.goto (.dispatch response plans [] none)
  | call :: calls => r.goto (.asking response plans call calls 0 .allow [])

def ToolPlan.ofCall (call : ParsedCall J) (decision : Approval) (answers : List Approval) :
    ToolPlan J where
  id := call.id
  name := call.name
  args := call.args
  approval := decision
  denied :=
    match decision with
    | .deny message => some message
    | _ => none
  parseError := call.parseError
  answers := answers

def asking (r : Run M J) (response : Response J) (plans : List (ToolPlan J)) (call : ParsedCall J)
    (calls : List (ParsedCall J)) (k : ℕ) (decision : Approval) (answers : List Approval) :
    Run M J :=
  if k < r.mw.length then
    { r with
      trace := r.trace ++ [.asked r.totalSteps k ⟨call.id, call.name, call.args⟩]
      point := .onToolApprove response plans call calls k decision answers }
  else r.goto (.approving response (plans ++ [ToolPlan.ofCall call decision answers]) calls)

/-- A denial upgrades an allowance only; a stop or an error ends the approvals. -/
def onToolApprove (r : Run M J) (response : Response J) (plans : List (ToolPlan J))
    (call : ParsedCall J) (calls : List (ParsedCall J)) (k : ℕ) (decision : Approval)
    (answers : List Approval) : Except String Approval → Run M J
  | .ok .allow => r.goto (.asking response plans call calls (k + 1) decision (answers ++ [.allow]))
  | .ok (.deny message) =>
    let upgraded := if decision = .allow then .deny message else decision
    r.goto (.asking response plans call calls (k + 1) upgraded (answers ++ [.deny message]))
  | .ok (.stop message) => r.goto (.dispatch response plans [] (some message))
  | .error e => r.goto (.dispatch response plans [] (some (some s!"on_tool_approve error: {e}")))

def ToolPlan.resolved (agent : Agent M J) (plan : ToolPlan J) : Option (ToolOutcome J) :=
  match plan.denied, plan.parseError with
  | some message, _ => some (.denied message)
  | none, some message => some (.error message)
  | none, none =>
    if plan.name = "search_skills" ∨ plan.name = "load_skill" ∨
        plan.name ∈ agent.tools.map ToolDef.name then none
    else some (.error s!"unknown tool: {plan.name}")

/-- At most `maxConcurrentTools` plans are started beyond the ones whose outcomes have all
come. -/
def mayStart (outcomes : List (Option (ToolOutcome J))) : Bool :=
  outcomes.length < (outcomes.takeWhile Option.isSome).length + maxConcurrentTools

def startTool (r : Run M J) (response : Response J) (plans : List (ToolPlan J))
    (outcomes : List (Option (ToolOutcome J))) (toolStop : Option (Option String)) : Run M J :=
  match plans[outcomes.length]? with
  | none => r
  | some plan =>
    if mayStart outcomes then
      match plan.resolved r.agent with
      | some outcome => r.goto (.dispatch response plans (outcomes ++ [some outcome]) toolStop)
      | none =>
        { r with
          trace := r.trace ++ [.invoked r.totalSteps response (plans.take outcomes.length) plan]
          point := .dispatch response plans (outcomes ++ [none]) toolStop }
    else r

def ToolOutcome.ofResult : Except String J → ToolOutcome J
  | .ok value => .ok value
  | .error message => .error message

def toolDone (r : Run M J) (response : Response J) (plans : List (ToolPlan J))
    (outcomes : List (Option (ToolOutcome J))) (toolStop : Option (Option String))
    (position : ℕ) (result : Except String J) : Run M J :=
  match outcomes[position]? with
  | some none =>
    r.goto (.dispatch response plans (outcomes.set position (some (.ofResult result))) toolStop)
  | _ => r

def recordOf (plan : ToolPlan J) (outcome : ToolOutcome J) : ToolCallRecord J :=
  ⟨plan.id, plan.name, plan.args, plan.approval, outcome⟩

def cancelledIds (response : Response J) (records : List (ToolCallRecord J))
    (toolStop : Option (Option String)) : List String :=
  if toolStop.isSome then
    (response.calls.map ParsedCall.id).filter fun id => !records.any fun record => record.id = id
  else []

def resultEvents (response : Response J) (records : List (ToolCallRecord J))
    (toolStop : Option (Option String)) : List (AgentEvent J) :=
  (records.map fun record => .toolResult record.id record.name record.result) ++
    (cancelledIds response records toolStop).map fun id =>
      .toolResult id "" (.error cancelledToolResult)

def valueToText (host : Host J) (value : J) : String := (host.asStr value).getD (host.toText value)

def resultContent (host : Host J) (record : ToolCallRecord J) : UserContent :=
  let (payload, isError) :=
    match record.result with
    | .ok value => (value, false)
    | .denied message => (host.ofString message, true)
    | .error message => (host.ofString message, true)
  .toolResult record.id [.text (valueToText host payload)] isError

def resultContents (host : Host J) (response : Response J) (records : List (ToolCallRecord J))
    (toolStop : Option (Option String)) : List UserContent :=
  records.map (resultContent host) ++ (cancelledIds response records toolStop).map fun id =>
      .toolResult id [.text cancelledToolResult] true

def dispatch (r : Run M J) (response : Response J) (plans : List (ToolPlan J))
    (outcomes : List (Option (ToolOutcome J))) (toolStop : Option (Option String)) :
    Input J → Run M J
  | .startTool => startTool r response plans outcomes toolStop
  | .toolDone position result => toolDone r response plans outcomes toolStop position result
  | .resume =>
    if outcomes.length = plans.length ∧ outcomes.all Option.isSome then
      let records := (plans.zip outcomes.reduceOption).map fun pair => recordOf pair.1 pair.2
      r.goto (.results response records toolStop (resultEvents response records toolStop))
    else r
  | _ => r

def results (host : Host J) (r : Run M J) (response : Response J)
    (records : List (ToolCallRecord J)) (toolStop : Option (Option String)) :
    List (AgentEvent J) → Run M J
  | event :: left => (r.emit event).goto (.results response records toolStop left)
  | [] =>
    let contents := resultContents host response records toolStop
    let messages := if contents = [] then r.agent.messages
      else r.agent.messages ++ [.user contents]
    ({ r with agent := { r.agent with messages := messages }, totalSteps := r.totalSteps + 1 }.emit
      (.stepEnd r.totalSteps (response.text.getD "") response.reasoning response.usage)).goto
        (.stepEnd response records toolStop)

def stepEnd (r : Run M J) (response : Response J) (records : List (ToolCallRecord J))
    (toolStop : Option (Option String)) : Run M J :=
  { r with
    lastStep := some
      { index := r.totalSteps - 1
        reasoning := response.reasoning
        text := response.text.getD ""
        toolCalls := records
        stop := response.stop }
    point := .finishingStep response records toolStop 0 }

def decideStep (r : Run M J) (response : Response J) (records : List (ToolCallRecord J))
    (toolStop : Option (Option String)) : Run M J :=
  match toolStop with
  | some message =>
    { r with finalText := message.getD r.finalText, point := .finishing (.stopped message) 0 }
  | none =>
    match response.failure with
    | some message => { r.stop message with keepPartialText := true }
    | none =>
      if records = [] then r.goto (.finishing .endTurn 0)
      else if r.totalSteps ≥ defaultMaxSteps then r.goto (.finishing (.limit defaultMaxSteps) 0)
      else r.goto .loopHead

def finishingStep (r : Run M J) (response : Response J) (records : List (ToolCallRecord J))
    (toolStop : Option (Option String)) (k : ℕ) : Run M J :=
  if k < r.mw.length then
    (r.call .onStepDone k).goto (.onStepDone response records toolStop k)
  else decideStep r response records toolStop

def onStepDone (r : Run M J) (response : Response J) (records : List (ToolCallRecord J))
    (toolStop : Option (Option String)) (k : ℕ) (reply : HookReply J) : Run M J :=
  let r := r.edit reply
  match reply.flow with
  | .ok .next => r.goto (.finishingStep response records toolStop (k + 1))
  | .ok (.stop message) => { r.stop message with finalText := message }
  | .error e =>
    { r.stop s!"on_step_done error: {e}" with finalText := s!"on_step_done error: {e}" }

def outcomeText (r : Run M J) (finish : Finish) : String :=
  if r.keepPartialText ∧ r.finalText ≠ "" then r.finalText
  else
    match finish with
    | .stopped message => message.getD r.finalText
    | _ => r.finalText

/-- `on_finish` for every middleware whose `on_start` ran; then the middleware goes back. -/
def finishing (r : Run M J) (finish : Finish) (k : ℕ) : Run M J :=
  if k < min r.started r.mw.length then (r.call .onFinish k).goto (.onFinish finish k)
  else
    ({ r with agent := { r.agent with middleware := r.mw }, mw := [] }.emit (.done
      { text := outcomeText r finish
        usage := r.agent.usage
        steps := r.totalSteps
        finish := finish })).goto .done

def advance [DecidableEq J] (host : Host J) (r : Run M J) (input : Input J) : Run M J :=
  match r.point, input with
  | .created, .resume => create r
  | .skills, .resume => skills r
  | .listSkills, .listed found => listSkills r found
  | .skillsDone, .resume => giveBack r
  | .constants, .resume => constants host r
  | .starting k, .resume => starting r k
  | .onStart k, .hook reply => onStart r k reply
  | .bindLoaded, .resume => bindLoaded r
  | .loopHead, .resume => loopHead r
  | .stepping k, .resume => stepping r k
  | .onStep k, .hook reply => onStep r k reply
  | .stepStart, .accepts cache maxOutputTokens => stepStart host r cache maxOutputTokens
  | .acquiring request attempt, .resume => acquiring r request attempt
  | .backoff request attempt, .slept => backoff r request attempt
  | .attempting request attempt, input => attempting host r request attempt input
  | .folding request received acc event, .resume => folding host r request received acc event
  | .delta request received acc, .resume => r.goto (.folded request received acc)
  | .folded request received acc, .resume => folded r request received acc
  | .drain request received acc, input => drain r request received acc input
  | .drained request received acc cut, .resume => drained r request received acc cut
  | .respond response, .resume => respond r response
  | .approving response plans calls, .resume => approving r response plans calls
  | .asking response plans call calls k decision answers, .resume =>
    asking r response plans call calls k decision answers
  | .onToolApprove response plans call calls k decision answers, .approval answer =>
    onToolApprove r response plans call calls k decision answers answer
  | .dispatch response plans outcomes toolStop, input =>
    dispatch r response plans outcomes toolStop input
  | .results response records toolStop left, .resume =>
    results host r response records toolStop left
  | .stepEnd response records toolStop, .resume => stepEnd r response records toolStop
  | .finishingStep response records toolStop k, .resume =>
    finishingStep r response records toolStop k
  | .onStepDone response records toolStop k, .hook reply =>
    onStepDone r response records toolStop k reply
  | .finishing finish k, .resume => finishing r finish k
  | .onFinish finish k, .hook _ => r.goto (.finishing finish (k + 1))
  | .done, .resume => r.goto .returned
  | _, _ => r

/-- The token is shared with other tasks, so a run may be cancelled anywhere. -/
def step [DecidableEq J] (host : Host J) (r : Run M J) : Input J → Run M J
  | .cancel => { r with agent := { r.agent with cancelled := true } }
  | input => advance host r input

def Run.of (agent : Agent M J) : Run M J where
  agent := agent
  mw := []
  started := 0
  totalSteps := 0
  finalText := ""
  keepPartialText := false
  runTools := []
  runCacheKey := none
  lastStep := none
  point := .created
  trace := []

end

end Stakit.AgentRun
