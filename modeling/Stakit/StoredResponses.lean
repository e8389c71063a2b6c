import Stakit.ClaudeReplay
import Stakit.StreamFinality

set_option autoImplicit false

namespace Stakit.Claude
open AgentMessages AgentRun SerdeJson ProviderStreams EntryMaps ExceptLoops TransitionRuns List

section
variable {N : Type}

/-- What the events let out say of the blocks that were received. -/
structure Answered (serde : Serde N) (wire : List (Value N)) (events : Events N) : Prop where
  complete : ∀ index start, last (starts serde wire) index = some start →
    grown start [] = none ∨ ∃ content, .assistantBlock index content ∈ events
  echoed : ∀ index content, .assistantBlock index content ∈ events →
    ∃ start, last (starts serde wire) index = some start ∧
      receivedBlock serde start (deltas serde wire index) = some (mapAssistantBlock content)
  silent : (∀ index start, last (starts serde wire) index = some start → grown start [] = none) →
    ∀ event ∈ events, isBlockEvent event = false

theorem known_grown {start : Value N} (h : isKnownBlock start = true) : grown start [] ≠ none := by
  unfold isKnownBlock at h
  unfold grown
  split at h
  · exact Option.some_ne_none _
  · exact Option.some_ne_none _
  · exact Option.some_ne_none _
  · exact Option.some_ne_none _
  · cases h

theorem Echoed.answered {serde : Serde N} {wire : List (Value N)} {decoder next : Decoder N}
    {events more after : Events N} {event : Value N} {stop : StopReason} {usage : Usage}
    (h : Echoed serde wire decoder events) (hstop : kindOf event = .messageStop)
    (hevent : decoder.event serde event = .ok (next, more ++ .finish stop usage :: after)) :
    Answered serde (wire ++ [event]) events := by
  have hstarts : starts serde (wire ++ [event]) = starts serde wire :=
    starts_snoc_other (by rw [hstop]; decide)
  have hdeltas : ∀ index, deltas serde (wire ++ [event]) index = deltas serde wire index :=
    fun index => deltas_snoc_other (Or.inl (by rw [hstop]; decide))
  obtain ⟨hkind, -, -⟩ | ⟨blocks, accum, -, -, -, -, htrack, -, -⟩ := event_takes hevent
  · rw [hstop] at hkind
    cases hkind
  · rw [hstop] at htrack
    unfold Decoder.track at htrack
    dsimp only at htrack
    split_ifs at htrack with hopen
    rw [not_or, not_or] at hopen
    have hempty : decoder.blocks.keys = [] := by simpa using hopen.1
    have hclosed : ∀ index, decoder.accum.blocks.lookup index = none := by
      intro index
      have hnone : decoder.blocks.lookup index = none := by
        refine AList.lookup_eq_none.mpr fun hmem => ?_
        have hkey := AList.mem_keys.mp hmem
        rw [hempty] at hkey
        cases hkey
      have halike := h.alike index
      rw [hnone] at halike
      exact Option.not_isSome_iff_eq_none.mp (by rw [← halike]; exact Bool.false_ne_true)
    refine ⟨fun index start hstart => ?_, fun index content hcontent => ?_, fun hnone => ?_⟩
    · rw [hstarts] at hstart
      exact h.closed index start hstart (hclosed index)
    · rw [hstarts, hdeltas]
      exact (h.echoed index content hcontent).2
    · rw [hstarts] at hnone
      exact h.silent hnone

theorem sent_inj {events more : Events N} (h : sent events = sent more) : events = more :=
  map_injective_iff.mpr (fun _ _ heq => Except.ok.inj heq) h

theorem decode_answered {serde : Serde N} {bytes : List (Except String (List UInt8))}
    {events : Events N} (h : decode serde bytes = sent events) :
    ∃ parts rest wire stopping before stop usage, segments bytes = parts ++ rest ∧
      Carries serde parts (wire ++ [stopping]) ∧ kindOf stopping = .messageStop ∧
      events = before ++ [.finish stop usage] ∧ Answered serde (wire ++ [stopping]) before := by
  obtain hfails | hends := drive_outcome (Decoder.accept serde) "Claude stream ended before message_stop"
    .new bytes
  · obtain ⟨quiet, error, -, hitems⟩ := hfails
    have hmem : (Except.error error : Item (Value N)) ∈ sent events := by
      rw [← h]
      change _ ∈ drive _ _ _ _
      rw [hitems]
      exact mem_append_right _ mem_cons_self
    obtain ⟨event, -, hevent⟩ := mem_map.mp hmem
    cases hevent
  · obtain ⟨before, last, rest, decoder, next, quiet, more, stop, usage, after, hparts, haccepted,
      hlast, -, hitems⟩ := hends.accepted
    obtain ⟨frames, wire, hframes, hwire, hfed⟩ := accepted_fed haccepted
    obtain ⟨framer, frame, haccept, ⟨-, -, hnone⟩ | ⟨data, event, rfl, hdata, hevent⟩⟩ :=
      accept_cases hlast
    · exact absurd hnone (by simp)
    · have hfed := hfed.reframe framer
      obtain ⟨hstop, rfl, -⟩ := hfed.steady.final hevent
      refine ⟨before ++ [last], rest, wire, event, quiet, stop, usage, ?_, ?_, hstop, ?_,
        hfed.echoed.answered hstop hevent⟩
      · rw [hparts, append_assoc]
        rfl
      · exact ⟨framer, frames ++ [data], readFrames_snoc hframes haccept, mapM_snoc hwire hdata⟩
      · refine sent_inj ?_
        rw [← h]
        refine Eq.trans hitems ?_
        rw [append_nil, sent_append]
        rfl

theorem sorted_accumulate {J : Type} (host : Host J) (received : List (StreamEvent J)) :
    Sorted (accumulate host received).completeBlocks := by
  induction received using List.reverseRecOn with
  | nil => exact List.Pairwise.nil
  | append_singleton received event ih =>
    rw [accumulate_snoc]
    unfold StepAccum.apply
    dsimp only
    split_ifs
    · exact ih
    · cases event with
      | assistantBlock index content =>
        dsimp only
        unfold StepAccum.applyBlock
        dsimp only
        split_ifs
        · exact ih
        · exact sorted_insertSorted _ _ _ ih
      | toolCall id name arguments =>
        dsimp only
        unfold StepAccum.applyCall
        split_ifs
        · exact ih
        · exact ih
      | _ => exact ih

theorem accumulate_silent (host : Host (Value N)) (events : Events N)
    (h : ∀ event ∈ events, isBlockEvent event = false) :
    (accumulate host events).text = "" ∧ (accumulate host events).reasoning = "" ∧
      (accumulate host events).toolCalls = [] := by
  induction events using List.reverseRecOn with
  | nil => exact ⟨rfl, rfl, rfl⟩
  | append_singleton events event ih =>
    have hearlier := ih fun other hother => h other (mem_append_left _ hother)
    have hevent := h event (mem_append_right _ mem_cons_self)
    rw [accumulate_snoc]
    unfold StepAccum.apply
    dsimp only
    split_ifs
    · exact hearlier
    · cases event with
      | start | usage | finish => exact hearlier
      | _ => cases hevent

theorem receivedBlock_known {serde : Serde N} {start block : Value N} {deltas : List (Value N)}
    (h : receivedBlock serde start deltas = some block) : isKnownBlock start = true := by
  unfold receivedBlock at h
  unfold isKnownBlock
  split at h
  · rfl
  · rfl
  · rfl
  · rfl
  · cases h

theorem accumulated_received {serde : Serde N} {wire : List (Value N)} {events received : Events N}
    (h : Answered serde wire events) (hsame : ∀ index content, .assistantBlock index content ∈ received ↔
      .assistantBlock index content ∈ events)
    (herror : (accumulate serde.toHost received).protocolError = none) :
    (accumulate serde.toHost received).blocks.map (fun block => some (mapAssistantBlock block)) =
      receivedBlocks serde wire := by
  have hsent := accumulated_blocks serde.toHost received herror
  have hstarts := sorted_sortedMap (starts serde wire)
  have hlast : ∀ index start, (index, start) ∈ sortedMap (starts serde wire) ↔
      last (starts serde wire) index = some start := by
    intro index start
    rw [← lookup_iff hstarts, lookup_sortedMap]
  have hentries : (accumulate serde.toHost received).completeBlocks.map
      (fun entry => (entry.1, some (mapAssistantBlock entry.2))) =
      ((sortedMap (starts serde wire)).filter fun entry => isKnownBlock entry.2).map
        (fun entry => (entry.1, receivedBlock serde entry.2 (deltas serde wire entry.1))) := by
    refine sorted_ext_mem
      (sorted_map (sorted_accumulate _ received) fun _ content => some (mapAssistantBlock content))
      (sorted_map (hstarts.filter _) fun index start =>
        receivedBlock serde start (deltas serde wire index)) fun entry => ?_
    rw [mem_map, mem_map]
    constructor
    · rintro ⟨⟨index, content⟩, hmem, rfl⟩
      obtain ⟨start, hstart, hreceived⟩ :=
        h.echoed index content ((hsame index content).mp ((hsent index content).mp hmem))
      refine ⟨(index, start), mem_filter.mpr ⟨(hlast index start).mpr hstart,
        receivedBlock_known hreceived⟩, ?_⟩
      rw [hreceived]
    · rintro ⟨⟨index, start⟩, hmem, rfl⟩
      obtain ⟨hmem, hknown⟩ := mem_filter.mp hmem
      have hstart := (hlast index start).mp hmem
      obtain ⟨content, hcontent⟩ := (h.complete index start hstart).resolve_left (known_grown hknown)
      obtain ⟨found, hfound, hreceived⟩ := h.echoed index content hcontent
      rw [hstart] at hfound
      cases hfound
      refine ⟨(index, content), (hsent index content).mpr ((hsame index content).mpr hcontent), ?_⟩
      rw [hreceived]
  unfold receivedBlocks StepAccum.blocks
  have hvalues := congrArg (List.map Prod.snd) hentries
  rw [map_map, map_map] at hvalues
  rw [map_map]
  exact hvalues

/-- A response that is not withheld holds its complete blocks, and nothing else if all it was let
know of is in them. -/
theorem grounded_blocks [DecidableEq (Value N)] {host : Host (Value N)} {response : Response (Value N)}
    (h : Grounded host response) (hfailure : response.failure = none)
    (hsilent : (accumulate host response.received).completeBlocks = [] →
      (accumulate host response.received).text = "" ∧
        (accumulate host response.received).reasoning = "" ∧
          (accumulate host response.received).toolCalls = []) :
    response.blocks = (accumulate host response.received).blocks := by
  obtain ⟨valid, hvalid, -, hresponse⟩ := h.valid
  obtain ⟨-, hperm, ⟨calls, hsame⟩, -⟩ := validateBlocks_ok hvalid
  have hkept : terminalFailure response.stop (!valid.toolCalls.isEmpty) = none := by
    rw [← hfailure, hresponse]
    rfl
  have hblocks : response.blocks = assembleBlocks valid
      (nonempty (if valid.completeBlocks = [] then valid.text
        else AgentMessages.blockText valid.blocks))
      (nonempty (if valid.completeBlocks = [] then valid.reasoning
        else blockReasoning valid.blocks)) := by
    rw [hresponse]
    unfold responseOf
    rw [hkept]
    rfl
  have hcomplete : valid.completeBlocks = (accumulate host response.received).completeBlocks := by
    rw [hsame]
    rfl
  rw [hblocks]
  unfold assembleBlocks
  by_cases hempty : (accumulate host response.received).completeBlocks = []
  · obtain ⟨htext, hreasoning, hcalls⟩ := hsilent hempty
    have hnone : valid.toolCalls = [] := by
      have hperm' : (accumulate host response.received).toolCalls.Perm valid.toolCalls := hperm
      rw [hcalls] at hperm'
      exact hperm'.nil_eq.symm
    have htext' : valid.text = "" := by
      rw [hsame]
      change (if (accumulate host response.received).text = "" then _ else _) = ""
      rw [if_pos htext, StepAccum.blocks, hempty]
      rfl
    have hreasoning' : valid.reasoning = "" := by
      rw [hsame]
      change (if (accumulate host response.received).reasoning = "" then _ else _) = ""
      rw [if_pos hreasoning, StepAccum.blocks, hempty]
      rfl
    rw [hcomplete, if_pos hempty, if_pos hempty, if_pos hempty, htext', hreasoning', hnone,
      StepAccum.blocks, hempty]
    rfl
  · rw [hcomplete, if_neg hempty]
    rw [StepAccum.blocks, StepAccum.blocks, hcomplete]

/-- The message that is stored for a response that ends with an authorized stop maps to the blocks
that were received, and each of its blocks is read from the wire as it was. -/
theorem replay_exact {M : Type} [DecidableEq (Value N)] (serde : Serde N)
    (base64 : List UInt8 → String) (agent : Agent M (Value N)) (inputs : List (Input (Value N)))
    (response : Response (Value N)) (bytes : List (Except String (List UInt8)))
    (hpoint : (run (step serde.toHost) (Run.of agent) inputs).point = .respond response)
    (hdecode : decode serde bytes = sent response.received) (hfailure : response.failure = none) :
    (∃ parts rest wire stopping, segments bytes = parts ++ rest ∧
      Carries serde parts (wire ++ [stopping]) ∧ kindOf stopping = .messageStop ∧
      ∃ blocks content, (run (step serde.toHost) (Run.of agent) (inputs ++ [.resume])).agent.messages =
          (run (step serde.toHost) (Run.of agent) inputs).agent.messages ++
            (if blocks = [] then [] else [.assistant blocks]) ∧
        mapMessage base64 (.assistant blocks) =
          .object [("role", .string "assistant"), ("content", .array content)] ∧
        receivedBlocks serde wire = content.map some) ∧
      ∀ block : AssistantContent (Value N), parseAssistantBlock (mapAssistantBlock block) = some block := by
  refine ⟨?_, parse_mapAssistantBlock⟩
  obtain ⟨parts, rest, wire, stopping, before, stop, usage, hparts, hcarries, hstop, hevents,
    hanswered⟩ := decode_answered hdecode
  refine ⟨parts, rest, wire, stopping, hparts, hcarries, hstop, ?_⟩
  have hchecked := (run_checked serde.toHost agent inputs).1
  unfold Run.Checked at hchecked
  rw [hpoint] at hchecked
  have hgrounded : Grounded serde.toHost response := hchecked
  obtain ⟨valid, hvalid, -⟩ := hgrounded.valid
  have herror : (accumulate serde.toHost response.received).protocolError = none :=
    (validateBlocks_ok hvalid).1
  have hsame : ∀ index content, .assistantBlock index content ∈ response.received ↔
      .assistantBlock index content ∈ before := by
    intro index content
    rw [hevents, mem_append, mem_singleton]
    exact or_iff_left nofun
  have hstarts : starts serde (wire ++ [stopping]) = starts serde wire :=
    starts_snoc_other (by rw [hstop]; decide)
  have hreceived := accumulated_received hanswered hsame herror
  have hblocks : response.blocks = (accumulate serde.toHost response.received).blocks := by
    refine grounded_blocks hgrounded hfailure fun hempty => ?_
    refine accumulate_silent serde.toHost response.received fun event hevent => ?_
    rw [hevents] at hevent
    obtain hevent | hevent := mem_append.mp hevent
    · refine hanswered.silent ?_ event hevent
      intro index start hstart
      refine (hanswered.complete index start hstart).resolve_right fun ⟨content, hcontent⟩ => ?_
      have hentry := (accumulated_blocks serde.toHost response.received herror index content).mpr
        ((hsame index content).mpr hcontent)
      rw [hempty] at hentry
      cases hentry
    · rw [mem_singleton.mp hevent]
      rfl
  have hwire : receivedBlocks serde (wire ++ [stopping]) = receivedBlocks serde wire := by
    unfold receivedBlocks
    rw [hstarts]
    refine map_congr_left fun entry _ => ?_
    rw [deltas_snoc_other (Or.inl (by rw [hstop]; decide))]
  refine ⟨response.blocks, response.blocks.map mapAssistantBlock, ?_, rfl, ?_⟩
  · have hstep : run (step serde.toHost) (Run.of agent) (inputs ++ [.resume]) =
        respond (run (step serde.toHost) (Run.of agent) inputs) response := by
      rw [run_append]
      change advance serde.toHost (run (step serde.toHost) (Run.of agent) inputs) .resume = _
      unfold advance
      rw [hpoint]
    rw [hstep]
    change (if response.blocks = [] then _ else _) = _
    split_ifs
    · exact (append_nil _).symm
    · rfl
  · rw [← hwire, ← hreceived, ← hblocks, map_map]
    rfl

end

deriving instance DecidableEq for StreamEvent

def claudeAgent : Agent Unit (Value ℕ) where
  providers := ["claude"]
  currentModel := "claude"
  tools := []
  skills := []
  skillManifest := none
  hasLoader := false
  middleware := []
  system := none
  messages := []
  replayBinding := none
  cacheKey := none
  maxRetries := 0
  usage := .zero
  maxTokens := 1024
  cancelled := false

/-- A run up to its first request, and the events of the response. -/
def feed : List (StreamEvent (Value ℕ)) → List (Input (Value ℕ))
  | [] => []
  | first :: rest =>
    List.replicate 7 .resume ++ [.accepts (.ok ()) none, .resume, .first first] ++
      List.replicate 3 .resume ++ rest.flatMap fun event => .next event :: List.replicate 3 .resume

def redactedBody (index : String) : List (Except String (List UInt8)) :=
  chunks ["\x7b\"type\":\"message_start\",\"message\":\x7b\"usage\":" ++
      "\x7b\"input_tokens\":1,\"output_tokens\":0\x7d\x7d\x7d",
    "\x7b\"type\":\"content_block_start\",\"index\":" ++ index ++ ",\"content_block\":" ++
      "\x7b\"type\":\"redacted_thinking\",\"data\":\"x\"\x7d\x7d",
    "\x7b\"type\":\"content_block_stop\",\"index\":" ++ index ++ "\x7d",
    "\x7b\"type\":\"message_delta\",\"delta\":\x7b\"stop_reason\":\"end_turn\"\x7d," ++
      "\"usage\":\x7b\"output_tokens\":1\x7d\x7d",
    "\x7b\"type\":\"message_stop\"\x7d"]

def redactedWire (index : ℕ) : List (Value ℕ) :=
  [startValue, .object [("content_block", .object [("data", .string "x"),
      ("type", .string "redacted_thinking")]), ("index", .number index),
      ("type", .string "content_block_start")],
    .object [("index", .number index), ("type", .string "content_block_stop")],
    deltaValue, stopValue]

theorem redactedBody_one : ∃ events, redactedBody "1" = chunks events ∧
    List.Forall₂ EventText events (redactedWire 1) := by
  refine ⟨_, rfl, .cons start_spells (.cons ?_ (.cons ?_ (.cons delta_spells
    (.cons stop_spells .nil))))⟩
  · exact ⟨_, append_ofList (append_ofList (append_ofList rfl rfl) rfl) rfl, by decide +kernel,
      by decide +kernel⟩
  · exact ⟨_, append_ofList (append_ofList rfl rfl) rfl, by decide +kernel, by decide +kernel⟩

def redactedEvents (index : ℕ) : List (StreamEvent (Value ℕ)) :=
  [.start ⟨1, 0, 0, 0, 0, 0⟩, .assistantBlock index (.thinking (.redacted "x")),
    .usage ⟨1, 1, 0, 0, 0, 0⟩, .finish .endTurn ⟨1, 1, 0, 0, 0, 0⟩]

def pendingResponse : Point (Value ℕ) → Option (Response (Value ℕ))
  | .respond response => some response
  | _ => none

def blockEvent (kind index rest : String) : String :=
  "\x7b\"type\":\"content_block_" ++ kind ++ "\",\"index\":" ++ index ++ rest ++ "\x7d"

theorem block_spells {kind index rest : String} {first second third : List Char} {value : Value ℕ}
    (hkind : kind = .ofList first) (hindex : index = .ofList second) (hrest : rest = .ofList third)
    (hline : lineEvent ("\x7b\"type\":\"content_block_".toList ++ first ++
      "\",\"index\":".toList ++ second ++ third ++ "\x7d".toList) = true)
    (hread : fromText digits ("\x7b\"type\":\"content_block_".toList ++ first ++
      "\",\"index\":".toList ++ second ++ third ++ "\x7d".toList) = some value) :
    EventText (blockEvent kind index rest) value :=
  ⟨_, append_ofList (append_ofList (append_ofList (append_ofList (append_ofList
    String.ofList_toList.symm hkind) String.ofList_toList.symm) hindex) hrest)
    String.ofList_toList.symm, hline, hread⟩

def blockValue (kind : String) (index : ℕ) (part : List (String × Value ℕ)) : Value ℕ :=
  .object (part ++ [("index", .number index), ("type", .string ("content_block_" ++ kind))])

def fragmentValue (index : ℕ) (kind key text : String) : Value ℕ :=
  blockValue "delta" index [("delta", .object [(key, .string text), ("type", .string kind)])]

def interleavedBody : List (Except String (List UInt8)) :=
  chunks ["\x7b\"type\":\"message_start\",\"message\":\x7b\"usage\":" ++
      "\x7b\"input_tokens\":1,\"output_tokens\":0\x7d\x7d\x7d",
    blockEvent "start" "0" ",\"content_block\":\x7b\"type\":\"text\",\"text\":\"\"\x7d",
    blockEvent "start" "1" (",\"content_block\":\x7b\"type\":\"tool_use\",\"id\":\"t1\"," ++
      "\"name\":\"find\",\"input\":\x7b\x7d\x7d"),
    blockEvent "delta" "0" ",\"delta\":\x7b\"type\":\"text_delta\",\"text\":\"Look\"\x7d",
    blockEvent "delta" "1"
      ",\"delta\":\x7b\"type\":\"input_json_delta\",\"partial_json\":\"[\"\x7d",
    blockEvent "delta" "0" ",\"delta\":\x7b\"type\":\"text_delta\",\"text\":\"ing\"\x7d",
    blockEvent "delta" "1"
      ",\"delta\":\x7b\"type\":\"input_json_delta\",\"partial_json\":\"7]\"\x7d",
    blockEvent "stop" "1" "", blockEvent "stop" "0" "",
    "\x7b\"type\":\"message_delta\",\"delta\":\x7b\"stop_reason\":\"tool_use\"\x7d," ++
      "\"usage\":\x7b\"output_tokens\":1\x7d\x7d",
    "\x7b\"type\":\"message_stop\"\x7d"]

def interleavedWire : List (Value ℕ) :=
  [startValue, blockValue "start" 0 [("content_block", .object [("text", .string ""),
      ("type", .string "text")])],
    blockValue "start" 1 [("content_block", .object [("id", .string "t1"), ("input", .object []),
      ("name", .string "find"), ("type", .string "tool_use")])],
    fragmentValue 0 "text_delta" "text" "Look",
    fragmentValue 1 "input_json_delta" "partial_json" "[",
    fragmentValue 0 "text_delta" "text" "ing",
    fragmentValue 1 "input_json_delta" "partial_json" "7]",
    blockValue "stop" 1 [], blockValue "stop" 0 [],
    .object [("delta", .object [("stop_reason", .string "tool_use")]),
      ("type", .string "message_delta"), ("usage", .object [("output_tokens", .number 1)])],
    stopValue]

theorem interleavedBody_spells : ∃ events, interleavedBody = chunks events ∧
    List.Forall₂ EventText events interleavedWire := by
  refine ⟨_, rfl, .cons start_spells (.cons ?_ (.cons ?_ (.cons ?_ (.cons ?_ (.cons ?_ (.cons ?_
    (.cons ?_ (.cons ?_ (.cons ?_ (.cons stop_spells .nil))))))))))⟩
  · exact block_spells rfl rfl rfl (by decide +kernel) (by decide +kernel)
  · exact block_spells rfl rfl (append_ofList rfl rfl) (by decide +kernel) (by decide +kernel)
  iterate 6 exact block_spells rfl rfl rfl (by decide +kernel) (by decide +kernel)
  · exact ⟨_, append_ofList rfl rfl, by decide +kernel, by decide +kernel⟩

def interleavedEvents : List (StreamEvent (Value ℕ)) :=
  [.start ⟨1, 0, 0, 0, 0, 0⟩, .textDelta "Look", .textDelta "ing",
    .assistantBlock 1 (.toolUse "t1" "find" (.array [.number 7])), .toolCall "t1" "find" "[7]",
    .assistantBlock 0 (.text "Looking"), .usage ⟨1, 1, 0, 0, 0, 0⟩,
    .finish .toolUse ⟨1, 1, 0, 0, 0, 0⟩]

theorem replay_exact_interleaved :
    ∃ parts rest wire stopping, segments interleavedBody = parts ++ rest ∧
      Carries decimal parts (wire ++ [stopping]) ∧ kindOf stopping = .messageStop ∧
      ∃ blocks content, (run (step decimal.toHost) (Run.of claudeAgent)
            (feed interleavedEvents ++ [.resume])).agent.messages =
          (run (step decimal.toHost) (Run.of claudeAgent) (feed interleavedEvents)).agent.messages ++
            (if blocks = [] then [] else [.assistant blocks]) ∧
        mapMessage (fun _ => "") (.assistant blocks) =
          .object [("role", .string "assistant"), ("content", .array content)] ∧
        receivedBlocks decimal wire = content.map some := by
  have hrun : (pendingResponse
      (run (step decimal.toHost) (Run.of claudeAgent) (feed interleavedEvents)).point).any
        (fun response => decide (response.failure = none) &&
          decide (response.received = interleavedEvents)) = true := by
    decide +kernel
  obtain ⟨response, hresponse, hheld⟩ := (Option.any_eq_true _ _).mp hrun
  obtain ⟨hfailure, hreceived⟩ := Bool.and_eq_true_iff.mp hheld
  have hpoint : (run (step decimal.toHost) (Run.of claudeAgent) (feed interleavedEvents)).point =
      .respond response := by
    unfold pendingResponse at hresponse
    split at hresponse
    · rename_i found hfound
      cases hresponse
      exact hfound
    · cases hresponse
  refine (replay_exact decimal (fun _ => "") claudeAgent (feed interleavedEvents) response
    interleavedBody hpoint ?_ (of_decide_eq_true hfailure)).1
  obtain ⟨events, hbody, hspells⟩ := interleavedBody_spells
  rw [of_decide_eq_true hreceived, hbody, decode_spelled hspells]
  decide +kernel

/-- The response completes with a block of a known type, and nothing is stored. -/
theorem gap_not_replayed : decode decimal (redactedBody "1") = sent (redactedEvents 1) ∧
    terminalFailure .endTurn false = none ∧
      (∃ wire, Carries decimal (segments (redactedBody "1")) wire ∧
        (starts decimal wire).all (fun entry => isKnownBlock entry.2) = true ∧
        receivedBlocks decimal wire = [some (mapAssistantBlock (.thinking (.redacted "x")))]) ∧
      (run (step decimal.toHost) (Run.of claudeAgent)
        (feed (redactedEvents 1) ++ List.replicate 4 .resume)).agent.messages = [] := by
  obtain ⟨events, hbody, hspells⟩ := redactedBody_one
  rw [hbody]
  refine ⟨?_, rfl, ⟨redactedWire 1, carries_spelled hspells, by decide +kernel,
    by decide +kernel⟩, by decide +kernel⟩
  rw [decode_spelled hspells]
  decide +kernel

end Stakit.Claude
