import Mathlib.Data.List.Sort
import Stakit.ClaudeReplay

set_option autoImplicit false

namespace Stakit.Claude
open AgentMessages SerdeJson ProviderStreams EntryMaps List
open Option (elim_some)

inductive CacheTtl
  | fiveMin | thirtyMin | oneHour
deriving DecidableEq

inductive CacheTarget
  | tools
  | system
  | lastUserMessage
  | messageIndex (index : ℕ)
deriving DecidableEq

inductive CacheStrategy
  | off
  | auto
  | breakpoints (ttl : CacheTtl) (points : List CacheTarget)
deriving DecidableEq

inductive ToolChoice
  | auto
  | any
  | required
  | none
  | tool (name : String)

inductive ThinkingConfig
  | off
  | adaptive
  | budget (tokens : ℕ)

/-- How a model is told not to think. -/
inductive ThinkingOff
  | omit
  | disabled
  | betweenTools

/-- `temperature` is the number that is written. -/
structure ChatRequest (N : Type) where
  system : Option SystemPrompt
  messages : List (Message (Value N))
  tools : List (ToolDef (Value N))
  toolChoice : ToolChoice
  maxTokens : ℕ
  temperature : Option (Value N)
  stopSequences : List String
  thinking : ThinkingConfig
  cache : CacheStrategy
  parallelToolCalls : Option Bool
  extra : Entries String (Value N)

section
variable {N : Type}

def maxBreakpoints : ℕ := 4

def lastUserMessage : List (Message (Value N)) → Option ℕ
  | [] => none
  | message :: rest =>
    match lastUserMessage rest, message with
    | some index, _ => some (index + 1)
    | none, .user _ => some 0
    | none, .assistant _ => none

structure CachePlan where
  cacheLastTool : Bool
  cacheSystem : Bool
  messageBreakpoints : List ℕ

def dedupSorted : List ℕ → List ℕ
  | first :: second :: rest =>
    if first = second then dedupSorted (second :: rest) else first :: dedupSorted (second :: rest)
  | rest => rest

def targetIndex (req : ChatRequest N) : CacheTarget → Option ℕ
  | .messageIndex index => if index < req.messages.length then some index else none
  | .lastUserMessage => lastUserMessage req.messages
  | _ => none

def CachePlan.auto (req : ChatRequest N) : CachePlan where
  cacheLastTool := !req.tools.isEmpty
  cacheSystem := req.system.isSome
  messageBreakpoints := (lastUserMessage req.messages).toList

def CachePlan.explicit (req : ChatRequest N) (points : List CacheTarget) : CachePlan where
  cacheLastTool := !req.tools.isEmpty && points.contains .tools
  cacheSystem := req.system.isSome && points.contains .system
  messageBreakpoints :=
    (dedupSorted ((points.filterMap (targetIndex req)).insertionSort (· ≤ ·))).take maxBreakpoints

def CachePlan.resolve (req : ChatRequest N) : CachePlan :=
  match req.cache with
  | .off => ⟨false, false, []⟩
  | .auto => .auto req
  | .breakpoints _ points => .explicit req points

def ttlOf : CacheStrategy → Option CacheTtl
  | .off => none
  | .auto => some .fiveMin
  | .breakpoints ttl _ => some ttl

def cacheControl : CacheTtl → Value N
  | .fiveMin => .object [("type", .string "ephemeral")]
  | .oneHour => .object [("type", .string "ephemeral"), ("ttl", .string "1h")]
  | .thirtyMin => .object [("type", .string "ephemeral"), ("ttl", .string "30m")]

/-- The lifetime of a breakpoint that is wanted and for which there is a slot. -/
def granted (ttl : Option CacheTtl) (wanted : Bool) (budget : ℕ) : Option CacheTtl :=
  if wanted ∧ budget ≠ 0 then ttl else none

def spend (slot : Option CacheTtl) (budget : ℕ) : ℕ := if slot.isSome then budget - 1 else budget

def mark (slot : Option CacheTtl) (fields : Entries String (Value N)) : Value N :=
  .object (slot.elim fields fun ttl => insertInPlace fields "cache_control" (cacheControl ttl))

def mapSpending {α β : Type} (f : α → ℕ → β × ℕ) : List α → ℕ → List β × ℕ
  | [], budget => ([], budget)
  | item :: rest, budget =>
    let (mapped, left) := f item budget
    let (others, left) := mapSpending f rest left
    (mapped :: others, left)

def mapSystem (system : SystemPrompt) (cache : Bool) (ttl : Option CacheTtl) (budget : ℕ) :
    Value N × ℕ :=
  let slot := granted ttl (cache || system.cache) budget
  match slot with
  | some ttl =>
    (.array [.object [("type", .string "text"), ("text", .string system.text),
      ("cache_control", cacheControl ttl)]], spend slot budget)
  | none => (.string system.text, spend slot budget)

def mapTool (cacheLast : Bool) (last : ℕ) (ttl : Option CacheTtl) (tool : ToolDef (Value N) × ℕ)
    (budget : ℕ) : Value N × ℕ :=
  let slot := granted ttl (tool.1.cache || (cacheLast && tool.2 == last)) budget
  (mark slot ([("name", .string tool.1.name), ("description", .string tool.1.description),
      ("input_schema", tool.1.parameters)] ++
    if tool.1.strict then [("strict", .bool true)] else []), spend slot budget)

def mapTools (tools : List (ToolDef (Value N))) (cacheLast : Bool) (ttl : Option CacheTtl)
    (budget : ℕ) : List (Value N) × ℕ :=
  mapSpending (mapTool cacheLast (tools.length - 1) ttl) tools.zipIdx budget

def mapToolChoice (choice : ToolChoice) (parallel : Option Bool) : Value N :=
  let flag := if parallel = some false then [("disable_parallel_tool_use", .bool true)] else []
  match choice with
  | .auto => .object (("type", .string "auto") :: flag)
  | .any | .required => .object (("type", .string "any") :: flag)
  | .none => .object [("type", .string "none")]
  | .tool name => .object (("type", .string "tool") :: ("name", .string name) :: flag)

def markLast (ttl : Option CacheTtl) (blocks : List (Value N)) (budget : ℕ) : List (Value N) × ℕ :=
  match blocks.getLast? with
  | some (.object fields) =>
    let slot := granted ttl true budget
    (blocks.dropLast ++ [mark slot fields], spend slot budget)
  | _ => (blocks, budget)

def markLastBlock (message : Value N) (ttl : Option CacheTtl) (budget : ℕ) : Value N × ℕ :=
  match message, (get message "content").bind asArray with
  | .object fields, some blocks =>
    let (blocks, left) := markLast ttl blocks budget
    (.object (insertInPlace fields "content" (.array blocks)), left)
  | _, _ => (message, budget)

section
variable (base64 : List UInt8 → String)

def mapTarget (targets : List ℕ) (ttl : Option CacheTtl) (message : Message (Value N) × ℕ)
    (budget : ℕ) : Value N × ℕ :=
  if targets.contains message.2 then markLastBlock (mapMessage base64 message.1) ttl budget
  else (mapMessage base64 message.1, budget)

def mapMessages (messages : List (Message (Value N))) (targets : List ℕ) (ttl : Option CacheTtl)
    (budget : ℕ) : List (Value N) × ℕ :=
  mapSpending (mapTarget base64 targets ttl) messages.zipIdx budget

def effortRequiresThinking (extra : Entries String (Value N)) : Bool :=
  match ((extra.lookup "output_config").bind fun config => textMember config "effort") with
  | some "xhigh" | some "max" => true
  | _ => false

variable (number : ℕ → N)

def thinkingField (thinking : ThinkingConfig) (off : ThinkingOff)
    (extra : Entries String (Value N)) : Option (Value N) :=
  match thinking with
  | .adaptive => some (.object [("type", .string "adaptive")])
  | .budget tokens =>
    some (.object [("type", .string "enabled"), ("budget_tokens", .number (number tokens))])
  | .off =>
    if effortRequiresThinking extra then none
    else
      match off with
      | .omit => none
      | .disabled => some (.object [("type", .string "disabled")])
      | .betweenTools => some (.object [("type", .string "between_tools")])

variable (thinkingOff : String → ThinkingOff) (model : String) (req : ChatRequest N)
  (stream : Bool)

def prefixFields : Entries String (Value N) :=
  let plan := CachePlan.resolve req
  let ttl := ttlOf req.cache
  let (tools, budget) := mapTools req.tools plan.cacheLastTool ttl maxBreakpoints
  let (system, budget) := req.system.elim ([], budget) fun system =>
    let (mapped, left) := mapSystem system plan.cacheSystem ttl budget
    ([("system", mapped)], left)
  let (messages, _) := mapMessages base64 req.messages plan.messageBreakpoints ttl budget
  (if req.tools = [] then [] else
    [("tools", .array tools),
      ("tool_choice", mapToolChoice req.toolChoice req.parallelToolCalls)]) ++
    system ++ [("messages", .array messages)]

def bodyBeforeExtras : Entries String (Value N) :=
  [("model", .string model), ("max_tokens", .number (number req.maxTokens)),
    ("stream", .bool stream)] ++ prefixFields base64 req ++
  (req.temperature.map fun temperature => ("temperature", temperature)).toList ++
  (if req.stopSequences = [] then []
    else [("stop_sequences", .array (req.stopSequences.map .string))]) ++
  ((thinkingField number req.thinking (thinkingOff model) req.extra).map
    fun thinking => ("thinking", thinking)).toList

def buildBody : Value N :=
  .object (req.extra.foldl (fun body entry => insertInPlace body entry.1 entry.2)
    (bodyBeforeExtras base64 number thinkingOff model req stream))

end

inductive Place
  | tool (index : ℕ)
  | system
  | block (message index : ℕ)
deriving DecidableEq

abbrev Markers (N : Type) := List (Place × Value N)

def markerAt (value : Value N) (place : Place) : Markers N :=
  ((get value "cache_control").map fun control => (place, control)).toList

def blockMarkers (message : ℕ) (content : List (Value N)) : Markers N :=
  content.zipIdx.flatMap fun (block, index) => markerAt block (.block message index)

def messageMarkers (value : Value N) (message : ℕ) : Markers N :=
  blockMarkers message ((asArray (member value "content")).getD [])

def markers (body : Value N) : Markers N :=
  (((asArray (member body "tools")).getD []).zipIdx.flatMap fun (tool, index) =>
    markerAt tool (.tool index)) ++
  (((asArray (member body "system")).getD []).flatMap fun block => markerAt block .system) ++
  ((asArray (member body "messages")).getD []).zipIdx.flatMap fun (message, index) =>
    messageMarkers message index

def wantsTools (cache : CacheStrategy) : Bool :=
  match cache with
  | .off => false
  | .auto => true
  | .breakpoints _ points => points.contains .tools

def wantsSystem (cache : CacheStrategy) : Bool :=
  match cache with
  | .off => false
  | .auto => true
  | .breakpoints _ points => points.contains .system

/-- Whether a strategy asks for a message. -/
def selected (req : ChatRequest N) (index : ℕ) : Bool :=
  match req.cache with
  | .off => false
  | .auto => lastUserMessage req.messages = some index
  | .breakpoints _ points => points.any fun target =>
    match target with
    | .messageIndex other => other = index
    | .lastUserMessage => lastUserMessage req.messages = some index
    | _ => false

def blockCount : Message (Value N) → ℕ
  | .user parts => parts.length
  | .assistant parts => parts.length

/-- The places a breakpoint is asked for, in the order of the prefix, with the messages of
`chosen`. -/
def eligible (req : ChatRequest N) (chosen : ℕ → Bool) : List Place :=
  ((req.tools.zipIdx.filter fun (tool, index) =>
    tool.cache || (wantsTools req.cache && index == req.tools.length - 1)).map
      fun (_, index) => .tool index) ++
  (req.system.elim [] fun system =>
    if wantsSystem req.cache || system.cache then [.system] else []) ++
  (req.messages.zipIdx.filter fun (message, index) =>
    chosen index && blockCount message != 0).map
      fun (message, index) => .block index (blockCount message - 1)

def selectedMessages (req : ChatRequest N) : List ℕ :=
  (List.range req.messages.length).filter (selected req)

/-- Breakpoints on the first places that there are slots for, with the requested lifetime. -/
def share (ttl : Option CacheTtl) (places : List Place) (budget : ℕ) : Markers N :=
  ttl.elim [] fun ttl => (places.take budget).map fun place => (place, cacheControl ttl)

def remaining (ttl : Option CacheTtl) (places : List Place) (budget : ℕ) : ℕ :=
  ttl.elim budget fun _ => budget - places.length

variable (ttl : Option CacheTtl) (base64 : List UInt8 → String) (req : ChatRequest N) (budget : ℕ)
  (fields : Entries String (Value N))

theorem share_append (places more : List Place) (budget : ℕ) :
    (share ttl (places ++ more) budget : Markers N) =
      share ttl places budget ++ share ttl more (remaining ttl places budget) := by
  cases ttl with
  | none => rfl
  | some ttl =>
    unfold share remaining
    rw [elim_some, elim_some, elim_some, elim_some, take_append,
      map_append]

theorem remaining_append (places more : List Place) (budget : ℕ) :
    remaining ttl (places ++ more) budget = remaining ttl more (remaining ttl places budget) := by
  cases ttl with
  | none => rfl
  | some ttl =>
    unfold remaining
    rw [elim_some, elim_some, elim_some, length_append, Nat.sub_sub]

theorem granted_unwanted : granted ttl false budget = none :=
  if_neg fun h => Bool.false_ne_true h.1

theorem granted_full (wanted : Bool) : granted ttl wanted 0 = none :=
  if_neg fun h => h.2 rfl

theorem granted_wanted : granted ttl true (budget + 1) = ttl :=
  if_pos ⟨rfl, Nat.succ_ne_zero budget⟩

theorem share_none : (share ttl [] budget : Markers N) = [] := by
  cases ttl with
  | none => rfl
  | some ttl =>
    unfold share
    rw [take_nil]
    rfl

theorem remaining_none : remaining ttl [] budget = budget := by
  cases ttl <;> rfl

theorem share_one (place : Place) (wanted : Bool) (budget : ℕ) :
    (share ttl (if wanted then [place] else []) budget : Markers N) =
        ((granted ttl wanted budget).map fun ttl => (place, cacheControl ttl)).toList ∧
      remaining ttl (if wanted then [place] else []) budget =
        spend (granted ttl wanted budget) budget := by
  cases wanted with
  | false =>
    rw [if_neg Bool.false_ne_true, share_none, remaining_none, granted_unwanted]
    exact ⟨rfl, rfl⟩
  | true =>
    rw [if_pos rfl]
    cases budget with
    | zero =>
      rw [granted_full]
      cases ttl <;> exact ⟨rfl, rfl⟩
    | succ budget =>
      rw [granted_wanted]
      cases ttl with
      | none => exact ⟨rfl, rfl⟩
      | some ttl =>
        refine ⟨?_, rfl⟩
        unfold share
        rw [elim_some, take_succ_cons, take_nil]
        rfl

theorem mapSpending_share {α : Type} (ttl : Option CacheTtl)
    (f : α × ℕ → ℕ → Value N × ℕ) (wanted : α × ℕ → Bool) (place : α × ℕ → Place)
    (read : Value N → ℕ → Markers N)
    (hspent : ∀ item budget, (f item budget).2 = spend (granted ttl (wanted item) budget) budget)
    (hread : ∀ item budget, read (f item budget).1 item.2 =
      ((granted ttl (wanted item) budget).map fun ttl => (place item, cacheControl ttl)).toList)
    (items : List α) (start budget : ℕ) :
    ((mapSpending f (items.zipIdx start) budget).1.zipIdx start).flatMap
        (fun entry => read entry.1 entry.2) =
        share ttl (((items.zipIdx start).filter wanted).map place) budget ∧
      (mapSpending f (items.zipIdx start) budget).2 =
        remaining ttl (((items.zipIdx start).filter wanted).map place) budget := by
  induction items generalizing start budget with
  | nil => exact ⟨(share_none ttl budget).symm, (remaining_none ttl budget).symm⟩
  | cons item rest ih =>
    have hcons : (((item, start) :: rest.zipIdx (start + 1)).filter wanted).map place =
        (if wanted (item, start) then [place (item, start)] else []) ++
          ((rest.zipIdx (start + 1)).filter wanted).map place := by
      rw [filter_cons]
      split_ifs <;> rfl
    obtain ⟨hshare, hone⟩ := share_one (N := N) ttl (place (item, start)) (wanted (item, start)) budget
    rw [zipIdx_cons, hcons, share_append, remaining_append, hshare, hone, ← hspent, ← hread]
    obtain ⟨hmarkers, hleft⟩ := ih (start + 1) (f (item, start) budget).2
    rw [← hmarkers, ← hleft]
    exact ⟨rfl, rfl⟩

theorem get_mark (slot : Option CacheTtl) {fields : Entries String (Value N)}
    (h : fields.lookup "cache_control" = none) :
    get (mark slot fields) "cache_control" = slot.map cacheControl := by
  cases slot with
  | none => exact h
  | some ttl => exact (lookup_insertInPlace fields _ _ _).trans (if_pos rfl)

theorem markerAt_mark (slot : Option CacheTtl) (fields : Entries String (Value N)) (place : Place)
    (h : fields.lookup "cache_control" = none) :
    markerAt (mark slot fields) place = (slot.map fun ttl => (place, cacheControl ttl)).toList := by
  rw [markerAt, get_mark slot h, Option.map_map]
  rfl

theorem mapTools_share (tools : List (ToolDef (Value N))) (cacheLast : Bool)
    (ttl : Option CacheTtl) (budget : ℕ) :
    (mapTools tools cacheLast ttl budget).1.zipIdx.flatMap
        (fun entry => markerAt entry.1 (.tool entry.2)) =
        share ttl ((tools.zipIdx.filter fun entry =>
          entry.1.cache || (cacheLast && entry.2 == tools.length - 1)).map
            fun entry => .tool entry.2) budget ∧
      (mapTools tools cacheLast ttl budget).2 = remaining ttl ((tools.zipIdx.filter fun entry =>
          entry.1.cache || (cacheLast && entry.2 == tools.length - 1)).map
            fun entry => .tool entry.2) budget := by
  refine mapSpending_share ttl _ _ _ (fun value index => markerAt value (.tool index))
    (fun _ _ => rfl) (fun tool left => ?_) tools 0 budget
  refine markerAt_mark _ _ _ ?_
  split_ifs <;> rfl

theorem mapSystem_share (system : SystemPrompt) (cache : Bool) (ttl : Option CacheTtl)
    (budget : ℕ) :
    ((asArray (mapSystem (N := N) system cache ttl budget).1).getD []).flatMap
        (fun block => markerAt block .system) =
        share ttl (if cache || system.cache then [.system] else []) budget ∧
      (mapSystem (N := N) system cache ttl budget).2 =
        remaining ttl (if cache || system.cache then [.system] else []) budget := by
  rw [(share_one ttl .system _ budget).1, (share_one (N := N) ttl .system _ budget).2]
  unfold mapSystem
  cases granted ttl (cache || system.cache) budget with
  | none | some ttl => exact ⟨rfl, rfl⟩

/-- A block that carries no breakpoint of its own. -/
def Plain (block : Value N) : Prop :=
  ∃ fields, block = .object fields ∧ fields.lookup "cache_control" = none

theorem plain_intro (h : fields.lookup "cache_control" = none) :
    Plain (.object fields) := ⟨fields, rfl, h⟩

theorem mapAssistantBlock_plain (block : AssistantContent (Value N)) :
    Plain (mapAssistantBlock block) := by
  cases block with
  | text | toolUse => exact plain_intro _ rfl
  | thinking thinking =>
    cases thinking with
    | visible text signature => cases signature <;> exact plain_intro _ rfl
    | redacted data => exact plain_intro _ rfl

theorem length_filterMap_split {α β : Type} (items : List α) (first second : α → Option β)
    (h : ∀ item, (first item).isSome = !(second item).isSome) :
    (items.filterMap first ++ items.filterMap second).length = items.length := by
  induction items with
  | nil => rfl
  | cons item rest ih =>
    rw [length_append] at ih ⊢
    have hitem := h item
    cases hfirst : first item with
    | none =>
      cases hsecond : second item with
      | none => rw [hfirst, hsecond] at hitem; cases hitem
      | some b =>
        rw [filterMap_cons_none hfirst, filterMap_cons_some hsecond, length_cons, length_cons, ← ih]
        rfl
    | some b =>
      cases hsecond : second item with
      | none =>
        rw [filterMap_cons_some hfirst, filterMap_cons_none hsecond, length_cons, length_cons, ← ih]
        omega
      | some c => rw [hfirst, hsecond] at hitem; cases hitem

theorem mapMessage_blocks (message : Message (Value N)) : ∃ role blocks, mapMessage base64 message =
        .object [("role", role), ("content", .array blocks)] ∧
      blocks.length = blockCount message ∧ ∀ block ∈ blocks, Plain block := by
  cases message with
  | assistant parts =>
    refine ⟨_, _, rfl, length_map _, fun block hblock => ?_⟩
    obtain ⟨part, -, rfl⟩ := mem_map.mp hblock
    exact mapAssistantBlock_plain part
  | user parts =>
    refine ⟨_, _, rfl, length_filterMap_split parts _ _ fun part => ?_, fun block hblock => ?_⟩
    · cases part <;> rfl
    · rcases mem_append.mp hblock with hblock | hblock
      · obtain ⟨part, -, hpart⟩ := mem_filterMap.mp hblock
        cases part with
        | toolResult id content isError =>
          cases hpart
          exact plain_intro _ rfl
        | _ => cases hpart
      · obtain ⟨part, -, hpart⟩ := mem_filterMap.mp hblock
        cases part with
        | toolResult id content isError => cases hpart
        | _ =>
          cases hpart
          exact plain_intro _ rfl

theorem blockMarkers_plain (message start : ℕ) (blocks : List (Value N))
    (h : ∀ block ∈ blocks, Plain block) :
    (blocks.zipIdx start).flatMap (fun entry => markerAt entry.1 (.block message entry.2)) = [] := by
  refine flatMap_eq_nil_iff.mpr fun entry hentry => ?_
  obtain ⟨fields, hfields, hlookup⟩ := h entry.1 (fst_mem_of_mem_zipIdx hentry)
  rw [markerAt, hfields]
  change ((fields.lookup "cache_control").map _).toList = []
  rw [hlookup]
  rfl

theorem markLast_markers (message : ℕ) (ttl : Option CacheTtl) {blocks : List (Value N)}
    (budget : ℕ) (h : ∀ block ∈ blocks, Plain block) :
    blockMarkers message (markLast ttl blocks budget).1 =
        ((granted ttl (blocks.length != 0) budget).map fun ttl =>
          (Place.block message (blocks.length - 1), cacheControl ttl)).toList ∧
      (markLast ttl blocks budget).2 = spend (granted ttl (blocks.length != 0) budget) budget := by
  unfold markLast
  obtain rfl | ⟨init, last, rfl⟩ := eq_nil_or_concat blocks
  · change blockMarkers message [] = ((granted ttl false budget).map _).toList ∧
      budget = spend (granted ttl false budget) budget
    rw [granted_unwanted]
    exact ⟨rfl, rfl⟩
  · rw [concat_eq_append] at h ⊢
    obtain ⟨fields, rfl, hlookup⟩ := h last (mem_append_right _ mem_cons_self)
    have hwanted : ((init ++ [Value.object fields]).length != 0) = true := by
      rw [length_append]
      exact bne_iff_ne.mpr (Nat.succ_ne_zero _)
    rw [hwanted, List.getLast?_concat, dropLast_concat, length_append,
      length_singleton, Nat.add_sub_cancel]
    refine ⟨?_, rfl⟩
    unfold blockMarkers
    rw [zipIdx_append, flatMap_append, blockMarkers_plain message 0 init fun block hblock =>
        h block (mem_append_left _ hblock)]
    change markerAt (mark (granted ttl true budget) fields) (.block message (0 + init.length)) ++ [] = _
    rw [append_nil, markerAt_mark _ _ _ hlookup, Nat.zero_add]

theorem mapTarget_markers (targets : List ℕ) (ttl : Option CacheTtl)
    (message : Message (Value N) × ℕ) (budget : ℕ) :
    messageMarkers (mapTarget base64 targets ttl message budget).1 message.2 =
        ((granted ttl (targets.contains message.2 && blockCount message.1 != 0) budget).map
          fun ttl => (Place.block message.2 (blockCount message.1 - 1), cacheControl ttl)).toList ∧
      (mapTarget base64 targets ttl message budget).2 =
        spend (granted ttl (targets.contains message.2 && blockCount message.1 != 0) budget)
          budget := by
  obtain ⟨role, blocks, hmapped, hcount, hplain⟩ := mapMessage_blocks base64 message.1
  unfold mapTarget
  rw [hmapped, ← hcount]
  cases targets.contains message.2 with
  | false =>
    rw [if_neg Bool.false_ne_true, Bool.false_and, granted_unwanted]
    exact ⟨blockMarkers_plain message.2 0 blocks hplain, rfl⟩
  | true =>
    obtain ⟨hmarkers, hspent⟩ := markLast_markers message.2 ttl budget hplain
    rw [if_pos rfl, Bool.true_and, ← hmarkers, ← hspent]
    exact ⟨rfl, rfl⟩

theorem mapMessages_share (messages : List (Message (Value N))) (targets : List ℕ)
    (ttl : Option CacheTtl) (budget : ℕ) :
    (mapMessages base64 messages targets ttl budget).1.zipIdx.flatMap
        (fun entry => messageMarkers entry.1 entry.2) =
      share ttl ((messages.zipIdx.filter fun entry =>
        targets.contains entry.2 && blockCount entry.1 != 0).map
          fun entry => .block entry.2 (blockCount entry.1 - 1)) budget :=
  (mapSpending_share ttl _ _ _ messageMarkers
    (fun message left => (mapTarget_markers base64 targets ttl message left).2)
    (fun message left => (mapTarget_markers base64 targets ttl message left).1)
    messages 0 budget).1

theorem lastUserMessage_lt {messages : List (Message (Value N))} {index : ℕ}
    (h : lastUserMessage messages = some index) : index < messages.length := by
  induction messages generalizing index with
  | nil => cases h
  | cons message rest ih =>
    unfold lastUserMessage at h
    rw [length_cons]
    split at h
    · rename_i later hlater
      cases h
      exact Nat.succ_lt_succ (ih hlater)
    · cases h
      exact Nat.succ_pos _
    · cases h

theorem mem_dedupSorted (indices : List ℕ) (index : ℕ) :
    index ∈ dedupSorted indices ↔ index ∈ indices := by
  fun_induction dedupSorted indices with
  | case1 first rest ih =>
    refine ih.trans ⟨mem_cons_of_mem first, fun h => ?_⟩
    exact (mem_cons.mp h).elim (fun heq => heq ▸ mem_cons_self) id
  | case2 first second rest hne ih => rw [mem_cons, ih, mem_cons (a := index) (b := first)]
  | case3 => exact Iff.rfl

theorem sorted_dedupSorted {indices : List ℕ} (h : indices.Pairwise (· ≤ ·)) :
    (dedupSorted indices).Pairwise (· < ·) := by
  fun_induction dedupSorted indices with
  | case1 first rest ih => exact ih (pairwise_cons.mp h).2
  | case2 first second rest hne ih =>
    obtain ⟨hfirst, hrest⟩ := pairwise_cons.mp h
    refine pairwise_cons.mpr ⟨fun index hindex => ?_, ih hrest⟩
    rw [mem_dedupSorted] at hindex
    have hsecond := hfirst second mem_cons_self
    rcases mem_cons.mp hindex with rfl | hlater
    · exact lt_of_le_of_ne hsecond hne
    · exact lt_of_lt_of_le (lt_of_le_of_ne hsecond hne) ((pairwise_cons.mp hrest).1 index hlater)
  | case3 indices hshort =>
    match indices, hshort with
    | [], _ => exact List.Pairwise.nil
    | [index], _ => exact pairwise_singleton _ _
    | first :: second :: rest, hshort => exact absurd rfl (hshort first second rest)

theorem mem_selectedMessages (index : ℕ) :
    index ∈ selectedMessages req ↔ index < req.messages.length ∧ selected req index = true := by
  rw [selectedMessages, mem_filter, mem_range]

theorem sorted_selectedMessages : (selectedMessages req).Pairwise (· < ·) :=
  List.Pairwise.filter _ (pairwise_lt_range)

theorem mem_targets {ttl : CacheTtl} {points : List CacheTarget}
    (hcache : req.cache = .breakpoints ttl points) (index : ℕ) :
    index ∈ points.filterMap (targetIndex req) ↔ index ∈ selectedMessages req := by
  rw [mem_selectedMessages, selected, hcache, mem_filterMap]
  dsimp only
  rw [any_eq_true]
  constructor
  · rintro ⟨target, htarget, hindex⟩
    cases target with
    | messageIndex other =>
      rw [targetIndex] at hindex
      split_ifs at hindex with hlt
      cases hindex
      exact ⟨hlt, _, htarget, decide_eq_true rfl⟩
    | lastUserMessage =>
      exact ⟨lastUserMessage_lt hindex, _, htarget, decide_eq_true hindex⟩
    | _ => cases hindex
  · rintro ⟨hlt, target, htarget, hindex⟩
    refine ⟨target, htarget, ?_⟩
    cases target with
    | messageIndex other =>
      rw [← of_decide_eq_true hindex] at hlt
      rw [targetIndex, if_pos hlt, of_decide_eq_true hindex]
    | lastUserMessage => exact of_decide_eq_true hindex
    | _ => cases hindex

theorem resolve_messages :
    (CachePlan.resolve req).messageBreakpoints = (selectedMessages req).take maxBreakpoints := by
  unfold CachePlan.resolve
  cases hcache : req.cache with
  | off =>
    have hnone : selectedMessages req = [] := by
      refine filter_eq_nil_iff.mpr fun index _ => ?_
      rw [selected, hcache]
      exact Bool.false_ne_true
    rw [hnone]
    rfl
  | auto =>
    have hall : selectedMessages req = (lastUserMessage req.messages).toList := by
      refine List.Pairwise.eq_of_mem_iff (sorted_selectedMessages req) ?_ fun index => ?_
      · cases lastUserMessage req.messages with
        | none => exact List.Pairwise.nil
        | some index => exact pairwise_singleton _ _
      · rw [mem_selectedMessages, selected, hcache, Option.mem_toList]
        refine ⟨fun h => of_decide_eq_true h.2, fun h => ⟨lastUserMessage_lt h, decide_eq_true h⟩⟩
    change (lastUserMessage req.messages).toList = _
    rw [hall]
    cases lastUserMessage req.messages <;> rfl
  | breakpoints ttl points =>
    refine congrArg (List.take maxBreakpoints) ?_
    refine List.Pairwise.eq_of_mem_iff (sorted_dedupSorted (pairwise_insertionSort _ _))
      (sorted_selectedMessages req) fun index => ?_
    rw [mem_dedupSorted, mem_insertionSort, mem_targets req hcache]

theorem resolve_tools :
    (CachePlan.resolve req).cacheLastTool = (!req.tools.isEmpty && wantsTools req.cache) := by
  unfold CachePlan.resolve wantsTools
  cases req.cache with
  | off => exact (Bool.and_false _).symm
  | auto => exact (Bool.and_true _).symm
  | breakpoints ttl points => rfl

theorem resolve_system :
    (CachePlan.resolve req).cacheSystem = (req.system.isSome && wantsSystem req.cache) := by
  unfold CachePlan.resolve wantsSystem
  cases req.cache with
  | off => exact (Bool.and_false _).symm
  | auto => exact (Bool.and_true _).symm
  | breakpoints ttl points => rfl

def part (fields : Entries String (Value N)) (key : String) : List (Value N) :=
  (asArray (member (.object fields) key)).getD []

theorem part_eq (key : String) : part fields key = ((fields.lookup key).bind asArray).getD [] := by
  change (asArray ((fields.lookup key).getD .null)).getD [] = _
  cases fields.lookup key <;> rfl

theorem part_body (number : ℕ → N) (thinkingOff : String → ThinkingOff) (model : String)
    (req : ChatRequest N) (stream : Bool) (key : String)
    (hkey : key = "tools" ∨ key = "system" ∨ key = "messages") :
    part (bodyBeforeExtras base64 number thinkingOff model req stream) key =
      part (prefixFields base64 req) key := by
  have htail : ((req.temperature.map fun temperature => ("temperature", temperature)).toList ++
      (if req.stopSequences = [] then []
        else [("stop_sequences", (.array (req.stopSequences.map .string) : Value N))]) ++
      ((thinkingField number req.thinking (thinkingOff model) req.extra).map
        fun thinking => ("thinking", thinking)).toList).lookup key = none := by
    rw [lookup_append, lookup_append]
    rcases hkey with rfl | rfl | rfl <;>
      cases req.temperature <;> cases thinkingField number req.thinking (thinkingOff model) req.extra <;>
      split_ifs <;> rfl
  have hhead : List.lookup key [("model", (.string model : Value N)),
      ("max_tokens", .number (number req.maxTokens)), ("stream", .bool stream)] = none := by
    rcases hkey with rfl | rfl | rfl <;> rfl
  rw [part_eq, part_eq, bodyBeforeExtras, append_assoc, append_assoc,
    ← append_assoc (Option.toList _), lookup_append, lookup_append, hhead, htail,
    Option.none_or, Option.or_none]

/-- The system prompt and the slots left after it. -/
def systemPart (req : ChatRequest N) (budget : ℕ) : List (Value N) × ℕ :=
  req.system.elim ([], budget) fun system =>
    ((asArray (mapSystem system (CachePlan.resolve req).cacheSystem (ttlOf req.cache) budget).1).getD [],
      (mapSystem (N := N) system (CachePlan.resolve req).cacheSystem (ttlOf req.cache) budget).2)

theorem part_prefix : part (prefixFields base64 req) "tools" =
        (mapTools req.tools (CachePlan.resolve req).cacheLastTool (ttlOf req.cache)
          maxBreakpoints).1 ∧
      part (prefixFields base64 req) "system" =
        (systemPart req (mapTools req.tools (CachePlan.resolve req).cacheLastTool
          (ttlOf req.cache) maxBreakpoints).2).1 ∧
      part (prefixFields base64 req) "messages" =
        (mapMessages base64 req.messages (CachePlan.resolve req).messageBreakpoints
          (ttlOf req.cache) (systemPart req (mapTools req.tools
            (CachePlan.resolve req).cacheLastTool (ttlOf req.cache) maxBreakpoints).2).2).1 := by
  simp only [part_eq]
  unfold prefixFields systemPart
  dsimp only
  by_cases htools : req.tools = []
  · rw [if_pos htools, htools]
    cases req.system with
    | none | some system => exact ⟨rfl, rfl, rfl⟩
  · rw [if_neg htools]
    cases req.system with
    | none | some system => exact ⟨rfl, rfl, rfl⟩

theorem systemPart_share : (systemPart req budget).1.flatMap (fun block => markerAt block .system) =
        share (ttlOf req.cache) (req.system.elim [] fun system =>
          if wantsSystem req.cache || system.cache then [.system] else []) budget ∧
      (systemPart req budget).2 = remaining (ttlOf req.cache) (req.system.elim [] fun system =>
          if wantsSystem req.cache || system.cache then [.system] else []) budget := by
  have hresolve := resolve_system req
  unfold systemPart
  cases hsystem : req.system with
  | none => exact ⟨(share_none _ _).symm, (remaining_none _ _).symm⟩
  | some system =>
    rw [hsystem, Option.isSome_some, Bool.true_and] at hresolve
    rw [hresolve]
    exact mapSystem_share system (wantsSystem req.cache) (ttlOf req.cache) budget

theorem last_tool : (req.tools.zipIdx.filter fun entry => entry.1.cache ||
      ((CachePlan.resolve req).cacheLastTool && entry.2 == req.tools.length - 1)) =
    req.tools.zipIdx.filter fun entry => entry.1.cache ||
      (wantsTools req.cache && entry.2 == req.tools.length - 1) := by
  refine filter_congr fun entry hentry => ?_
  have htools : req.tools.isEmpty = false := by
    cases hempty : req.tools with
    | nil =>
      rw [hempty] at hentry
      cases hentry
    | cons tool rest => rfl
  rw [resolve_tools, htools, Bool.not_false, Bool.true_and]

/-- The breakpoints of a body are on the first places that are asked for, the messages among them
being the first ones that are. -/
theorem prefix_markers
    (hfields : ∀ key, key = "tools" ∨ key = "system" ∨ key = "messages" → part fields key =
      part (prefixFields base64 req) key) :
    markers (.object fields) = share (ttlOf req.cache)
      (eligible req fun index => ((selectedMessages req).take maxBreakpoints).contains index)
      maxBreakpoints := by
  obtain ⟨htools, hsystem, hmessages⟩ := part_prefix base64 req
  have hmarkers : markers (.object fields) =
      (part fields "tools").zipIdx.flatMap (fun entry => markerAt entry.1 (.tool entry.2)) ++
      (part fields "system").flatMap (fun block => markerAt block .system) ++
      (part fields "messages").zipIdx.flatMap (fun entry => messageMarkers entry.1 entry.2) := rfl
  obtain ⟨hfirst, hleft⟩ := mapTools_share req.tools (CachePlan.resolve req).cacheLastTool
    (ttlOf req.cache) maxBreakpoints
  obtain ⟨hsecond, hrest⟩ := systemPart_share req (mapTools req.tools
    (CachePlan.resolve req).cacheLastTool (ttlOf req.cache) maxBreakpoints).2
  rw [hmarkers, hfields "tools" (.inl rfl), hfields "system" (.inr (.inl rfl)),
    hfields "messages" (.inr (.inr rfl)), htools, hsystem, hmessages, hfirst, hsecond,
    mapMessages_share, hrest, hleft, last_tool, resolve_messages, eligible, share_append,
    share_append, remaining_append]

end

def emptyFirst : ChatRequest Unit where
  system := none
  messages := [.user [], .user [.text "a"], .user [.text "b"], .user [.text "c"], .user [.text "d"]]
  tools := []
  toolChoice := .auto
  maxTokens := 1024
  temperature := none
  stopSequences := []
  thinking := .off
  cache := .breakpoints .fiveMin [.messageIndex 0, .messageIndex 1, .messageIndex 2,
    .messageIndex 3, .messageIndex 4]
  parallelToolCalls := none
  extra := []

end Stakit.Claude
