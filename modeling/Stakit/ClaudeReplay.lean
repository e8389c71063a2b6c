import Stakit.AgentAuthorization
import Stakit.ClaudeFinality

set_option autoImplicit false

namespace Stakit.Claude
open AgentMessages SerdeJson ProviderStreams FiniteMap EntryMaps ExceptLoops List

section
variable {N : Type}

def mapAssistantBlock : AssistantContent (Value N) → Value N
  | .text text => .object [("type", .string "text"), ("text", .string text)]
  | .toolUse id name input =>
    .object [("type", .string "tool_use"), ("id", .string id), ("name", .string name),
      ("input", input)]
  | .thinking (.visible text signature) =>
    .object ([("type", .string "thinking"), ("thinking", .string text)] ++
      (signature.map fun signature => ("signature", .string signature)).toList)
  | .thinking (.redacted data) =>
    .object [("type", .string "redacted_thinking"), ("data", .string data)]

section
variable (base64 : List UInt8 → String)

def mapImage : Image → Value N
  | .url url => .object [("type", .string "url"), ("url", .string url)]
  | .base64 mediaType data =>
    .object [("type", .string "base64"), ("media_type", .string mediaType),
      ("data", .string (base64 data))]
  | .fileId fileId => .object [("type", .string "file"), ("file_id", .string fileId)]

def mapDocument : Document → Value N
  | .url url => .object [("type", .string "url"), ("url", .string url)]
  | .base64 mediaType data =>
    .object [("type", .string "base64"), ("media_type", .string mediaType),
      ("data", .string (base64 data))]
  | .fileId fileId => .object [("type", .string "file"), ("file_id", .string fileId)]

def mapToolResultPart : ToolResultPart → Value N
  | .text text => .object [("type", .string "text"), ("text", .string text)]
  | .image image => .object [("type", .string "image"), ("source", mapImage base64 image)]

def mapMessage : Message (Value N) → Value N
  | .user parts =>
    let results := parts.filterMap fun part =>
      match part with
      | .toolResult id content isError => some (.object [("type", .string "tool_result"),
          ("tool_use_id", .string id), ("is_error", .bool isError),
          ("content", .array (content.map (mapToolResultPart base64)))])
      | _ => none
    let others := parts.filterMap fun part =>
      match part with
      | .text text => some (.object [("type", .string "text"), ("text", .string text)])
      | .image image =>
        some (.object [("type", .string "image"), ("source", mapImage base64 image)])
      | .document document =>
        some (.object [("type", .string "document"), ("source", mapDocument base64 document)])
      | .toolResult _ _ _ => none
    .object [("role", .string "user"), ("content", .array (results ++ others))]
  | .assistant parts =>
    .object [("role", .string "assistant"), ("content", .array (parts.map mapAssistantBlock))]

end

def parseAssistantBlock (block : Value N) : Option (AssistantContent (Value N)) := do
  match ← textMember block "type" with
  | "text" => return .text (← textMember block "text")
  | "tool_use" =>
    return .toolUse (← textMember block "id") (← textMember block "name")
      ((get block "input").getD (.object []))
  | "thinking" =>
    return .thinking
      (.visible ((textMember block "thinking").getD "") (textMember block "signature"))
  | "redacted_thinking" => return .thinking (.redacted ((textMember block "data").getD ""))
  | _ => none

theorem parse_mapAssistantBlock (block : AssistantContent (Value N)) :
    parseAssistantBlock (mapAssistantBlock block) = some block := by
  cases block with
  | text text | toolUse id name input => rfl
  | thinking thinking =>
    cases thinking with
    | visible text signature => cases signature <;> rfl
    | redacted data => rfl

def startOf (serde : Serde N) (event : Value N) : Option (ℕ × Value N) :=
  if kindOf event = .contentBlockStart then
    (serde.countMember event "index").bind fun index =>
      (get event "content_block").map fun block => (index, block)
  else none

def deltaOf (serde : Serde N) (index : ℕ) (event : Value N) : Option (Value N) :=
  if kindOf event = .contentBlockDelta ∧ serde.countMember event "index" = some index then
    get event "delta"
  else none

/-- The content blocks that were opened, by their indices. -/
def starts (serde : Serde N) (wire : List (Value N)) : Entries ℕ (Value N) :=
  wire.filterMap (startOf serde)

/-- The deltas of one block, in the order they came. -/
def deltas (serde : Serde N) (wire : List (Value N)) (index : ℕ) : List (Value N) :=
  wire.filterMap (deltaOf serde index)

def fragment (kind field : String) (delta : Value N) : Option String :=
  if textMember delta "type" = some kind then textMember delta field else none

def joined (kind field : String) (deltas : List (Value N)) : String :=
  (deltas.filterMap (fragment kind field)).foldl (· ++ ·) ""

def field (start : Value N) (name : String) : String := (textMember start name).getD ""

def receivedSignature (start : Value N) (deltas : List (Value N)) : Option String :=
  let signature := textMember start "signature"
  if deltas.filterMap (fragment "signature_delta" "signature") = [] then signature
  else some (signature.getD "" ++ joined "signature_delta" "signature" deltas)

/-- The input that a tool came with, or what its fragments are the text of. -/
def receivedInput (serde : Serde N) (start : Value N) (deltas : List (Value N)) :
    Option (Value N) :=
  let arguments := joined "input_json_delta" "partial_json" deltas
  if arguments = "" then get start "input" else (serde.fromStr arguments).toOption

/-- A received content block as a whole; nothing for blocks of unknown types. -/
def receivedBlock (serde : Serde N) (start : Value N) (deltas : List (Value N)) :
    Option (Value N) :=
  match textMember start "type" with
  | some "text" => some (.object [("type", .string "text"),
      ("text", .string (field start "text" ++ joined "text_delta" "text" deltas))])
  | some "thinking" => some (.object ([("type", .string "thinking"),
      ("thinking", .string (field start "thinking" ++ joined "thinking_delta" "thinking" deltas))] ++
      ((receivedSignature start deltas).map fun signature =>
        ("signature", .string signature)).toList))
  | some "redacted_thinking" => some (.object [("type", .string "redacted_thinking"),
      ("data", .string (field start "data"))])
  | some "tool_use" => (receivedInput serde start deltas).map fun input =>
      .object [("type", .string "tool_use"), ("id", .string (field start "id")),
        ("name", .string (field start "name")), ("input", input)]
  | _ => none

def isKnownBlock (start : Value N) : Bool :=
  match textMember start "type" with
  | some "text" | some "thinking" | some "redacted_thinking" | some "tool_use" => true
  | _ => false

/-- The received content blocks of known types, in the order of their indices. -/
def receivedBlocks (serde : Serde N) (wire : List (Value N)) : List (Option (Value N)) :=
  ((sortedMap (starts serde wire)).filter fun entry => isKnownBlock entry.2).map fun entry =>
    receivedBlock serde entry.2 (deltas serde wire entry.1)

def grown (start : Value N) (deltas : List (Value N)) : Option (Block N) :=
  match textMember start "type" with
  | some "text" => some (.text (field start "text" ++ joined "text_delta" "text" deltas))
  | some "thinking" => some (.thinking
      (field start "thinking" ++ joined "thinking_delta" "thinking" deltas)
      (receivedSignature start deltas))
  | some "redacted_thinking" => some (.redacted (field start "data"))
  | some "tool_use" =>
    let arguments := joined "input_json_delta" "partial_json" deltas
    some (.tool (field start "id") (field start "name")
      (if arguments = "" then get start "input" else none)
      (if arguments = "" then none else some arguments))
  | _ => none

theorem joined_snoc (kind field : String) (deltas : List (Value N)) (delta : Value N) :
    joined kind field (deltas ++ [delta]) =
      joined kind field deltas ++ (fragment kind field delta).getD "" := by
  unfold joined
  rw [filterMap_append, foldl_append]
  cases hfragment : fragment kind field delta with
  | none =>
    rw [filterMap_cons_none hfragment]
    exact String.append_empty.symm
  | some text =>
    rw [filterMap_cons_some hfragment]
    rfl

variable {kind : String} {value : Value N} {serde : Serde N} {wire : List (Value N)}
  {decoder : Decoder N} {events more : Events N}

theorem blockText_ok {field text : String} (h : blockText value field = .ok text) :
    textMember value field = some text := by
  unfold blockText at h
  split at h
  · rename_i found hfound
    cases h
    exact hfound
  · cases h

theorem field_of_blockText {name text : String} (h : blockText value name = .ok text) :
    field value name = text := by
  rw [field, blockText_ok h]
  rfl

theorem startSignature_ok {block : Value N} {signature : Option String}
    (h : startSignature block = .ok signature) : textMember block "signature" = signature := by
  unfold startSignature at h
  unfold textMember
  split at h
  · rename_i hnone
    cases h
    rw [hnone]
    rfl
  · rename_i text htext
    cases h
    rw [htext]
    rfl
  · cases h

theorem startInput_ok {block input : Value N} (h : startInput block = .ok input) :
    get block "input" = some input := by
  unfold startInput at h
  split at h
  · rename_i found hfound
    cases h
    exact (Option.filter_eq_some_iff.mp hfound).1
  · cases h

theorem start_grown {block : Option (Block N)} (h : Block.start value = .ok block) :
    grown value [] = block := by
  unfold Block.start at h
  obtain ⟨kind, hkind, h⟩ := (bind_eq_ok _ _ _).mp h
  unfold grown
  rw [blockText_ok hkind]
  split at h
  · obtain ⟨text, htext, h⟩ := (bind_eq_ok _ _ _).mp h
    cases h
    dsimp only
    rw [field_of_blockText htext]
    exact congrArg (fun text => some (Block.text text)) String.append_empty
  · obtain ⟨text, htext, h⟩ := (bind_eq_ok _ _ _).mp h
    obtain ⟨signature, hsignature, h⟩ := (bind_eq_ok _ _ _).mp h
    cases h
    dsimp only
    rw [field_of_blockText htext, ← startSignature_ok hsignature]
    exact congrArg (fun text => some (Block.thinking text _)) String.append_empty
  · obtain ⟨data, hdata, h⟩ := (bind_eq_ok _ _ _).mp h
    cases h
    dsimp only
    rw [field_of_blockText hdata]
    rfl
  · obtain ⟨id, hid, h⟩ := (bind_eq_ok _ _ _).mp h
    obtain ⟨name, hname, h⟩ := (bind_eq_ok _ _ _).mp h
    obtain ⟨input, hinput, h⟩ := (bind_eq_ok _ _ _).mp h
    cases h
    dsimp only
    rw [field_of_blockText hid, field_of_blockText hname, startInput_ok hinput]
    rfl
  · rename_i htext hthinking hredacted htool
    cases h
    split
    · rename_i heq
      exact absurd (Option.some.inj heq) htext
    · rename_i heq
      exact absurd (Option.some.inj heq) hthinking
    · rename_i heq
      exact absurd (Option.some.inj heq) hredacted
    · rename_i heq
      exact absurd (Option.some.inj heq) htool
    · rfl

def Untouched (delta : Value N) : Block N → Prop
  | .text _ => fragment "text_delta" "text" delta = none
  | .thinking _ _ => fragment "thinking_delta" "thinking" delta = none ∧
      fragment "signature_delta" "signature" delta = none
  | .redacted _ => True
  | .tool _ _ _ _ => (fragment "input_json_delta" "partial_json" delta).getD "" = ""

/-- What an accepted delta does to a block. -/
inductive Extends (delta : Value N) : Block N → Block N → Events N → Prop
  | text (buffer part : String) (hpart : fragment "text_delta" "text" delta = some part) :
      Extends delta (.text buffer) (.text (buffer ++ part)) [.textDelta part]
  | thinking (buffer part : String) (signature : Option String)
      (hpart : fragment "thinking_delta" "thinking" delta = some part)
      (hnone : fragment "signature_delta" "signature" delta = none) :
      Extends delta (.thinking buffer signature) (.thinking (buffer ++ part) signature)
        [.reasoningDelta part]
  | signature (buffer part : String) (signature : Option String)
      (hpart : fragment "signature_delta" "signature" delta = some part)
      (hnone : fragment "thinking_delta" "thinking" delta = none) :
      Extends delta (.thinking buffer signature)
        (.thinking buffer (some (signature.getD "" ++ part))) [.signatureDelta part]
  | input (id name part : String) (initial : Option (Value N)) (json : Option String)
      (hpart : fragment "input_json_delta" "partial_json" delta = some part) (hne : part ≠ "") :
      Extends delta (.tool id name initial json)
        (.tool id name none (some (json.getD "" ++ part))) []
  | same (block : Block N) (hnone : Untouched delta block) : Extends delta block block []

theorem fragment_some {field text : String} {delta : Value N}
    (hkind : textMember delta "type" = some kind) (htext : textMember delta field = some text) :
    fragment kind field delta = some text := by
  rw [fragment, if_pos hkind, htext]

theorem fragment_none {other field : String} {delta : Value N}
    (hkind : textMember delta "type" = some kind) (hne : kind ≠ other) :
    fragment other field delta = none := by
  rw [fragment, hkind, if_neg fun h => hne (Option.some.inj h)]

theorem delta_extends {block next : Block N} {delta : Value N} {size total : ℕ} {more : Events N}
    (h : block.delta serde delta size = .ok (next, total, more)) :
    Extends delta block next more := by
  unfold Block.delta at h
  obtain ⟨kind, hkind, h⟩ := (bind_eq_ok _ _ _).mp h
  have hkind := blockText_ok hkind
  split at h
  · obtain ⟨part, hpart, h⟩ := (bind_eq_ok _ _ _).mp h
    obtain ⟨left, hleft, h⟩ := (bind_eq_ok _ _ _).mp h
    cases h
    exact .text _ _ (fragment_some hkind (blockText_ok hpart))
  · obtain ⟨part, hpart, h⟩ := (bind_eq_ok _ _ _).mp h
    obtain ⟨left, hleft, h⟩ := (bind_eq_ok _ _ _).mp h
    cases h
    exact .thinking _ _ _ (fragment_some hkind (blockText_ok hpart)) (fragment_none hkind (by decide))
  · obtain ⟨part, hpart, h⟩ := (bind_eq_ok _ _ _).mp h
    obtain ⟨left, hleft, h⟩ := (bind_eq_ok _ _ _).mp h
    cases h
    exact .signature _ _ _ (fragment_some hkind (blockText_ok hpart))
      (fragment_none hkind (by decide))
  · obtain ⟨part, hpart, h⟩ := (bind_eq_ok _ _ _).mp h
    have hfragment := fragment_some hkind (blockText_ok hpart)
    split at h
    · cases h
      exact .same _ (by rw [Untouched, hfragment]; rfl)
    · rename_i hne
      obtain ⟨removed, hremoved, h⟩ := (bind_eq_ok _ _ _).mp h
      obtain ⟨left, hleft, h⟩ := (bind_eq_ok _ _ _).mp h
      cases h
      exact .input _ _ _ _ _ hfragment hne
  · rename_i htext hthinking hsignature hinput
    cases h
    refine .same _ ?_
    cases block with
    | text buffer => exact fragment_none hkind (htext buffer rfl)
    | thinking buffer signature =>
      exact ⟨fragment_none hkind (hthinking buffer signature rfl),
        fragment_none hkind (hsignature buffer signature rfl)⟩
    | redacted data => trivial
    | tool id name initial json =>
      rw [Untouched, fragment_none hkind (hinput id name initial json rfl)]
      rfl

theorem receivedSignature_snoc_some {start delta : Value N} {deltas : List (Value N)} {part : String}
    (h : fragment "signature_delta" "signature" delta = some part) :
    receivedSignature start (deltas ++ [delta]) =
      some ((receivedSignature start deltas).getD "" ++ part) := by
  unfold receivedSignature
  dsimp only
  rw [joined_snoc, h, filterMap_append, filterMap_cons_some h, if_neg (by simp)]
  split_ifs with hnone
  · rw [joined, hnone]
    rfl
  · exact congrArg some (String.append_assoc ..).symm

theorem receivedSignature_snoc_none {start delta : Value N} {deltas : List (Value N)}
    (h : fragment "signature_delta" "signature" delta = none) :
    receivedSignature start (deltas ++ [delta]) = receivedSignature start deltas := by
  unfold receivedSignature joined
  rw [filterMap_append, filterMap_cons_none h, filterMap_nil, append_nil]

theorem joined_snoc_none {field : String} {deltas : List (Value N)} {delta : Value N}
    (h : fragment kind field delta = none) :
    joined kind field (deltas ++ [delta]) = joined kind field deltas := by
  rw [joined_snoc, h]
  exact String.append_empty

theorem append_ne_empty {before part : String} (h : part ≠ "") : before ++ part ≠ "" := by
  intro hempty
  have hlist := congrArg String.toList hempty
  rw [String.toList_append] at hlist
  exact h (String.toList_injective (append_eq_nil_iff.mp hlist).2)

theorem delta_grown {start delta : Value N} {deltas : List (Value N)} {block next : Block N}
    {more : Events N} (hgrown : grown start deltas = some block)
    (h : Extends delta block next more) : grown start (deltas ++ [delta]) = some next := by
  unfold grown at hgrown ⊢
  split at hgrown
  · rename_i htype
    cases hgrown
    cases h with
    | text _ part hpart =>
      rw [joined_snoc, hpart, String.append_assoc]
      rfl
    | same _ hnone => rw [joined_snoc_none hnone]
  · rename_i htype
    cases hgrown
    cases h with
    | thinking _ part _ hpart hnone =>
      rw [joined_snoc, hpart, receivedSignature_snoc_none hnone, String.append_assoc]
      rfl
    | signature _ part _ hpart hnone =>
      rw [joined_snoc_none hnone, receivedSignature_snoc_some hpart]
    | same _ hnone => rw [joined_snoc_none hnone.1, receivedSignature_snoc_none hnone.2]
  · cases hgrown
    cases h
    rfl
  · cases hgrown
    dsimp only
    cases h with
    | input _ _ part _ _ hpart hne =>
      rw [joined_snoc, hpart, Option.getD_some, if_neg (append_ne_empty hne),
        if_neg (append_ne_empty hne)]
      split_ifs with hempty
      · rw [hempty]
        rfl
      · rfl
    | same _ hnone =>
      rw [joined_snoc, hnone, String.append_empty]
  · cases hgrown

theorem unknown_grown {start : Value N} {deltas : List (Value N)} (h : grown start deltas = none)
    (more : List (Value N)) : grown start more = none := by
  unfold grown at h ⊢
  split at h
  · cases h
  · cases h
  · cases h
  · cases h
  · rfl

theorem finish_received {start : Value N} {deltas : List (Value N)} {block : Block N}
    {content : AssistantContent (Value N)} {call : Option (StreamEvent (Value N))}
    (hgrown : grown start deltas = some block) (h : block.finish serde = .ok (content, call)) :
    receivedBlock serde start deltas = some (mapAssistantBlock content) := by
  unfold grown at hgrown
  unfold receivedBlock
  split at hgrown
  · cases hgrown
    cases h
    rfl
  · cases hgrown
    cases h
    rfl
  · cases hgrown
    cases h
    rfl
  · cases hgrown
    obtain ⟨⟨input, arguments⟩, hinput, h⟩ := (bind_eq_ok _ _ _).mp h
    cases h
    have hreceived : receivedInput serde start deltas = some input := by
      unfold receivedInput
      unfold toolInput at hinput
      dsimp only
      split_ifs at hinput with hempty
      · rw [if_pos hempty]
        dsimp only at hinput
        split at hinput
        · rename_i found hfound
          cases hinput
          exact hfound
        · cases hinput
      · rw [if_neg hempty]
        dsimp only at hinput
        split at hinput
        · rename_i found hfound
          cases hinput
          rw [hfound]
          rfl
        · cases hinput
    rw [hreceived]
    rfl
  · cases hgrown

def isBlockEvent : StreamEvent (Value N) → Bool
  | .start _ | .usage _ | .finish _ _ => false
  | _ => true

def isBlock : StreamEvent (Value N) → Bool
  | .assistantBlock _ _ => true
  | _ => false

theorem filterMap_snoc {α β : Type} (f : α → Option β) (items : List α) (item : α) :
    (items ++ [item]).filterMap f = items.filterMap f ++ (f item).toList := by
  rw [filterMap_append]
  cases hitem : f item with
  | none => rw [filterMap_cons_none hitem]; rfl
  | some result => rw [filterMap_cons_some hitem]; rfl

theorem starts_snoc_other {event : Value N} (h : kindOf event ≠ .contentBlockStart) :
    starts serde (wire ++ [event]) = starts serde wire := by
  rw [starts, filterMap_snoc, startOf, if_neg h]
  exact append_nil _

theorem deltas_snoc_other {event : Value N} {index : ℕ}
    (h : kindOf event ≠ .contentBlockDelta ∨ serde.countMember event "index" ≠ some index) :
    deltas serde (wire ++ [event]) index = deltas serde wire index := by
  rw [deltas, filterMap_snoc, deltaOf, if_neg fun hboth =>
    h.elim (fun hkind => hkind hboth.1) fun hindex => hindex hboth.2]
  exact append_nil _

theorem starts_snoc {event block : Value N} {index : ℕ}
    (hkind : kindOf event = .contentBlockStart)
    (hindex : serde.countMember event "index" = some index)
    (hblock : get event "content_block" = some block) :
    starts serde (wire ++ [event]) = starts serde wire ++ [(index, block)] := by
  rw [starts, filterMap_snoc, startOf, if_pos hkind, hindex, hblock]
  rfl

theorem deltas_snoc {event : Value N} {index : ℕ} (hkind : kindOf event = .contentBlockDelta)
    (hindex : serde.countMember event "index" = some index) :
    deltas serde (wire ++ [event]) index = deltas serde wire index ++ (get event "delta").toList := by
  rw [deltas, filterMap_snoc, deltaOf, if_pos ⟨hkind, hindex⟩]
  rfl

/-- What the events on the wire say of the open and closed blocks of a decoder. -/
structure Echoed (serde : Serde N) (wire : List (Value N)) (decoder : Decoder N)
    (events : Events N) : Prop where
  alike : ∀ index, (decoder.blocks.lookup index).isSome = (decoder.accum.blocks.lookup index).isSome
  seen : ∀ index, index ∈ decoder.accum.seen ↔ last (starts serde wire) index ≠ none
  unopened : ∀ index, last (starts serde wire) index = none →
    decoder.accum.blocks.lookup index = none ∧ deltas serde wire index = []
  opened : ∀ index block, decoder.accum.blocks.lookup index = some block →
    ∀ start, last (starts serde wire) index = some start →
      grown start (deltas serde wire index) = block
  closed : ∀ index start, last (starts serde wire) index = some start →
    decoder.accum.blocks.lookup index = none →
      grown start [] = none ∨ ∃ content, .assistantBlock index content ∈ events
  echoed : ∀ index content, .assistantBlock index content ∈ events →
    decoder.accum.blocks.lookup index = none ∧ ∃ start, last (starts serde wire) index = some start ∧
      receivedBlock serde start (deltas serde wire index) = some (mapAssistantBlock content)
  silent : (∀ index start, last (starts serde wire) index = some start → grown start [] = none) →
    ∀ event ∈ events, isBlockEvent event = false

theorem Echoed.new (serde : Serde N) : Echoed serde [] .new [] where
  alike _ := rfl
  seen _ := iff_of_false not_mem_nil fun h => h rfl
  unopened _ _ := ⟨rfl, rfl⟩
  opened _ _ h := by cases h
  closed _ _ h := by cases h
  echoed _ _ h := absurd h not_mem_nil
  silent _ _ h := absurd h not_mem_nil

theorem Echoed.quiet {next : Decoder N} {events more : Events N} {event : Value N}
    (h : Echoed serde wire decoder events) (hkind : isContent (kindOf event) = false)
    (hblocks : next.blocks = decoder.blocks) (hopen : next.accum.blocks = decoder.accum.blocks)
    (hseen : next.accum.seen = decoder.accum.seen)
    (hmore : ∀ event ∈ more, isBlockEvent event = false) :
    Echoed serde (wire ++ [event]) next (events ++ more) := by
  have hstarts : starts serde (wire ++ [event]) = starts serde wire :=
    starts_snoc_other fun heq => by rw [heq] at hkind; cases hkind
  have hdeltas : ∀ index, deltas serde (wire ++ [event]) index = deltas serde wire index :=
    fun index => deltas_snoc_other (Or.inl fun heq => by rw [heq] at hkind; cases hkind)
  have hmem : ∀ index content, .assistantBlock index content ∈ events ++ more →
      .assistantBlock index content ∈ events := by
    intro index content hmem
    refine (mem_append.mp hmem).resolve_right fun hnew => ?_
    cases hmore _ hnew
  refine ⟨?_, ?_, ?_, ?_, ?_, ?_, ?_⟩
  · rw [hblocks, hopen]
    exact h.alike
  · rw [hseen, hstarts]
    exact h.seen
  · intro index hindex
    rw [hopen, hdeltas]
    rw [hstarts] at hindex
    exact h.unopened index hindex
  · intro index block hblock start hstart
    rw [hopen] at hblock
    rw [hstarts] at hstart
    rw [hdeltas]
    exact h.opened index block hblock start hstart
  · intro index start hstart hblock
    rw [hopen] at hblock
    rw [hstarts] at hstart
    exact (h.closed index start hstart hblock).imp_right fun ⟨content, hcontent⟩ =>
      ⟨content, mem_append_left _ hcontent⟩
  · intro index content hcontent
    rw [hopen, hstarts, hdeltas]
    exact h.echoed index content (hmem index content hcontent)
  · intro hnone other hother
    rw [hstarts] at hnone
    exact (mem_append.mp hother).elim (h.silent hnone other) (hmore other)

theorem blockIndex_ok {event : Value N} {message : String} {index : ℕ}
    (h : blockIndex serde event message = .ok index) :
    serde.countMember event "index" = some index := by
  unfold blockIndex at h
  split at h
  · rename_i found hfound
    cases h
    exact hfound
  · cases h

theorem requireMember_ok {event value : Value N} {field message : String}
    (h : requireMember event field message = .ok value) : get event field = some value := by
  unfold requireMember at h
  split at h
  · rename_i found hfound
    cases h
    exact hfound
  · cases h

theorem initialEvents_no_block (block : Block N) :
    ∀ event ∈ block.initialEvents, isBlock event = false := by
  intro event hevent
  unfold Block.initialEvents at hevent
  cases block with
  | text buffer =>
    dsimp only at hevent
    split_ifs at hevent
    · cases hevent
    · rw [mem_singleton.mp hevent]
      rfl
  | thinking buffer signature =>
    dsimp only at hevent
    obtain hevent | hevent := mem_append.mp hevent
    · split_ifs at hevent
      · cases hevent
      · rw [mem_singleton.mp hevent]
        rfl
    · cases signature with
      | none => cases hevent
      | some signature =>
        dsimp only at hevent
        split_ifs at hevent
        · cases hevent
        · rw [mem_singleton.mp hevent]
          rfl
  | _ => cases hevent

theorem Echoed.start {serde : Serde N} {wire : List (Value N)} {decoder : Decoder N}
    {events more : Events N} {event : Value N} {blocks : Map ℕ BlockKind} {accum : Accum N}
    (h : Echoed serde wire decoder events) (hkind : kindOf event = .contentBlockStart)
    (htrack : decoder.track serde event .contentBlockStart = .ok blocks)
    (hpush : decoder.accum.start serde event = .ok (accum, more)) :
    Echoed serde (wire ++ [event]) { decoder with accum := accum, blocks := blocks, started := true }
      (events ++ more) := by
  unfold Accum.start at hpush
  obtain ⟨index, hindex, hpush⟩ := (bind_eq_ok _ _ _).mp hpush
  obtain ⟨hnew, hpush⟩ := (then_eq_ok _ _ _).mp hpush
  obtain ⟨value, hvalue, hpush⟩ := (bind_eq_ok _ _ _).mp hpush
  obtain ⟨block, hblock, hpush⟩ := (bind_eq_ok _ _ _).mp hpush
  obtain ⟨-, hpush⟩ := (then_eq_ok _ _ _).mp hpush
  cases hpush
  have hindex := blockIndex_ok hindex
  obtain ⟨other, hother, htrack⟩ := (bind_eq_ok _ _ _).mp htrack
  obtain ⟨-, htrack⟩ := (then_eq_ok _ _ _).mp htrack
  cases htrack
  obtain rfl : index = other := by
    have hother := requireIndex_ok hother
    rw [hindex] at hother
    exact Option.some.inj hother
  have hunseen : last (starts serde wire) index = none :=
    not_not.mp fun hseen => (refuse_eq_ok _ _ _).mp hnew (Or.inl ((h.seen index).mpr hseen))
  have hlast : ∀ other, last (starts serde (wire ++ [event])) other =
      if other = index then some value else last (starts serde wire) other := by
    intro other
    rw [starts_snoc hkind hindex (requireMember_ok hvalue), last_append, last_cons]
    split_ifs <;> rfl
  have hdeltas : ∀ other, deltas serde (wire ++ [event]) other = deltas serde wire other :=
    fun other => deltas_snoc_other (Or.inl (by rw [hkind]; decide))
  have hblocks : ∀ event ∈ block.elim [] Block.initialEvents, isBlock event = false := by
    cases block with
    | none => exact nofun
    | some block => exact initialEvents_no_block block
  refine ⟨fun other => ?_, fun other => ?_, fun other hnone => ?_, fun other found hfound start hstart => ?_,
    fun other start hstart hnone => ?_, fun other content hcontent => ?_, fun hnone => ?_⟩
  · rw [lookup_insert_ite, lookup_insert_ite]
    split_ifs
    · rfl
    · exact h.alike other
  · rw [hlast, mem_cons, h.seen other]
    split_ifs with heq
    · exact iff_of_true (Or.inl heq) (Option.some_ne_none _)
    · exact or_iff_right heq
  · rw [hlast] at hnone
    split_ifs at hnone with heq
    rw [lookup_insert_ite, if_neg heq, hdeltas]
    exact h.unopened other hnone
  · rw [lookup_insert_ite] at hfound
    rw [hlast] at hstart
    rw [hdeltas]
    split_ifs at hfound hstart with heq
    · cases hfound
      cases hstart
      rw [heq, (h.unopened index hunseen).2]
      exact start_grown hblock
    · exact h.opened other found hfound start hstart
  · rw [lookup_insert_ite] at hnone
    rw [hlast] at hstart
    split_ifs at hnone hstart with heq
    exact (h.closed other start hstart hnone).imp_right fun ⟨content, hcontent⟩ =>
      ⟨content, mem_append_left _ hcontent⟩
  · obtain hcontent | hcontent := mem_append.mp hcontent
    · obtain ⟨hclosed, start, hstart, hreceived⟩ := h.echoed other content hcontent
      have hne : other ≠ index := by
        rintro rfl
        rw [hunseen] at hstart
        cases hstart
      refine ⟨?_, start, ?_, ?_⟩
      · rw [lookup_insert_ite, if_neg hne]
        exact hclosed
      · rw [hlast, if_neg hne]
        exact hstart
      · rw [hdeltas]
        exact hreceived
    · cases hblocks _ hcontent
  · have hunknown : block = none := by
      have hgrown := hnone index value ((hlast index).trans (if_pos rfl))
      rwa [start_grown hblock] at hgrown
    rw [hunknown, Option.elim_none, append_nil]
    refine h.silent fun other start hstart => hnone other start ?_
    rw [hlast, if_neg, hstart]
    rintro rfl
    rw [hunseen] at hstart
    cases hstart

theorem Echoed.opened_start (h : Echoed serde wire decoder events) {index : ℕ}
    {block : Option (Block N)} (hblock : decoder.accum.blocks.lookup index = some block) :
    ∃ start, last (starts serde wire) index = some start ∧
      grown start (deltas serde wire index) = block := by
  cases hstart : last (starts serde wire) index with
  | none =>
    rw [(h.unopened index hstart).1] at hblock
    cases hblock
  | some start => exact ⟨start, rfl, h.opened index block hblock start hstart⟩

theorem Echoed.delta {event : Value N} {index : ℕ} {before after : Option (Block N)}
    {next : Decoder N} (h : Echoed serde wire decoder events)
    (hkind : kindOf event = .contentBlockDelta)
    (hindex : serde.countMember event "index" = some index)
    (hbefore : decoder.accum.blocks.lookup index = some before)
    (hafter : ∀ start deltas, grown start deltas = before →
      grown start (deltas ++ (get event "delta").toList) = after)
    (hblocks : next.blocks = decoder.blocks) (hseen : next.accum.seen = decoder.accum.seen)
    (hopen : ∀ other, next.accum.blocks.lookup other = if other =
      index then some after else decoder.accum.blocks.lookup other)
    (hmore : ∀ event ∈ more, isBlock event = false) (hunknown : before = none → more = []) :
    Echoed serde (wire ++ [event]) next (events ++ more) := by
  have hstarts : starts serde (wire ++ [event]) = starts serde wire :=
    starts_snoc_other (by rw [hkind]; decide)
  have hdeltas : ∀ other, other ≠ index →
      deltas serde (wire ++ [event]) other = deltas serde wire other := by
    intro other hne
    refine deltas_snoc_other (Or.inr fun heq => hne ?_)
    rw [hindex] at heq
    exact (Option.some.inj heq).symm
  obtain ⟨start, hstart, hgrown⟩ := h.opened_start hbefore
  refine ⟨fun other => ?_, ?_, fun other hnone => ?_, fun other found hfound own hown => ?_,
    fun other own hown hnone => ?_, fun other content hcontent => ?_, fun hnone => ?_⟩
  · rw [hblocks, hopen]
    split_ifs with heq
    · rw [heq, h.alike, hbefore]
      rfl
    · exact h.alike other
  · rw [hseen, hstarts]
    exact h.seen
  · rw [hstarts] at hnone
    have hne : other ≠ index := by
      rintro rfl
      rw [hstart] at hnone
      cases hnone
    rw [hopen, if_neg hne, hdeltas other hne]
    exact h.unopened other hnone
  · rw [hopen] at hfound
    rw [hstarts] at hown
    split_ifs at hfound with heq
    · cases hfound
      rw [heq] at hown ⊢
      rw [hstart] at hown
      cases hown
      rw [deltas_snoc hkind hindex]
      exact hafter start _ hgrown
    · rw [hdeltas other heq]
      exact h.opened other found hfound own hown
  · rw [hopen] at hnone
    rw [hstarts] at hown
    split_ifs at hnone with heq
    exact (h.closed other own hown hnone).imp_right fun ⟨content, hcontent⟩ =>
      ⟨content, mem_append_left _ hcontent⟩
  · obtain hcontent | hcontent := mem_append.mp hcontent
    · obtain ⟨hclosed, own, hown, hreceived⟩ := h.echoed other content hcontent
      have hne : other ≠ index := by
        rintro rfl
        rw [hbefore] at hclosed
        cases hclosed
      rw [hopen, if_neg hne, hstarts, hdeltas other hne]
      exact ⟨hclosed, own, hown, hreceived⟩
    · cases hmore _ hcontent
  · rw [hstarts] at hnone
    rw [unknown_grown (hnone index start hstart) _] at hgrown
    rw [hunknown hgrown.symm, append_nil]
    exact h.silent hnone

/-- A block that closes lets out what was received, if its type is known. -/
theorem Echoed.finish {event : Value N} {index : ℕ} {block : Option (Block N)} {next : Decoder N}
    (h : Echoed serde wire decoder events) (hkind : kindOf event = .contentBlockStop)
    (hblock : decoder.accum.blocks.lookup index = some block)
    (hblocks : next.blocks = decoder.blocks.erase index)
    (hopen : next.accum.blocks = decoder.accum.blocks.erase index)
    (hseen : next.accum.seen = decoder.accum.seen)
    (hmore : (block = none ∧ more = []) ∨ ∃ held content call, block = some held ∧
      held.finish serde = .ok (content, call) ∧ more = .assistantBlock index content ::
    call.toList) :
    Echoed serde (wire ++ [event]) next (events ++ more) := by
  have hstarts : starts serde (wire ++ [event]) = starts serde wire :=
    starts_snoc_other (by rw [hkind]; decide)
  have hdeltas : ∀ other, deltas serde (wire ++ [event]) other = deltas serde wire other :=
    fun other => deltas_snoc_other (Or.inl (by rw [hkind]; decide))
  have hlookup : ∀ other, next.accum.blocks.lookup other =
      if other = index then none else decoder.accum.blocks.lookup other := by
    intro other
    rw [hopen, lookup_erase_ite]
  obtain ⟨start, hstart, hgrown⟩ := h.opened_start hblock
  refine ⟨fun other => ?_, ?_, fun other hnone => ?_, fun other found hfound own hown => ?_,
    fun other own hown hnone => ?_, fun other content hcontent => ?_, fun hnone => ?_⟩
  · rw [hblocks, hlookup, lookup_erase_ite]
    split_ifs
    · rfl
    · exact h.alike other
  · rw [hseen, hstarts]
    exact h.seen
  · rw [hstarts] at hnone
    obtain ⟨hclosed, hempty⟩ := h.unopened other hnone
    rw [hlookup, hdeltas, hclosed]
    exact ⟨ite_self _, hempty⟩
  · rw [hlookup] at hfound
    rw [hstarts] at hown
    rw [hdeltas]
    split_ifs at hfound
    exact h.opened other found hfound own hown
  · rw [hstarts] at hown
    by_cases heq : other = index
    · rw [heq, hstart] at hown
      cases hown
      obtain ⟨rfl, -⟩ | ⟨held, content, call, -, -, rfl⟩ := hmore
      · exact Or.inl (unknown_grown hgrown [])
      · rw [heq]
        exact Or.inr ⟨content, mem_append_right _ mem_cons_self⟩
    · rw [hlookup, if_neg heq] at hnone
      exact (h.closed other own hown hnone).imp_right fun ⟨content, hcontent⟩ =>
        ⟨content, mem_append_left _ hcontent⟩
  · rw [hstarts, hdeltas]
    obtain hcontent | hcontent := mem_append.mp hcontent
    · obtain ⟨hclosed, own, hown, hreceived⟩ := h.echoed other content hcontent
      rw [hlookup, hclosed]
      exact ⟨ite_self _, own, hown, hreceived⟩
    · obtain ⟨-, rfl⟩ | ⟨held, finished, call, rfl, hfinish, rfl⟩ := hmore
      · cases hcontent
      · obtain heq | hcall := mem_cons.mp hcontent
        · cases heq
          rw [hlookup, if_pos rfl]
          exact ⟨rfl, start, hstart, finish_received hgrown hfinish⟩
        · cases held with
          | tool id name initial json =>
            obtain ⟨⟨input, arguments⟩, hinput, hfinish⟩ := (bind_eq_ok _ _ _).mp hfinish
            cases hfinish
            cases mem_singleton.mp hcall
          | _ =>
            cases hfinish
            cases hcall
  · rw [hstarts] at hnone
    rw [unknown_grown (hnone index start hstart) _] at hgrown
    obtain ⟨-, rfl⟩ | ⟨held, content, call, hheld, -⟩ := hmore
    · rw [append_nil]
      exact h.silent hnone
    · rw [← hgrown] at hheld
      cases hheld

theorem extends_no_block {delta : Value N} {block next : Block N} {more : Events N}
    (h : Extends delta block next more) : ∀ event ∈ more, isBlock event = false := by
  intro event hevent
  cases h with
  | text | thinking | signature =>
    rw [mem_singleton.mp hevent]
    rfl
  | input | same => cases hevent

theorem push_plain {accum next : Accum N} {event : Value N} {kind : EventKind} {more : Events N}
    (h : accum.push serde event kind = .ok (next, more)) (hkind : isContent kind = false) :
    next.blocks = accum.blocks ∧ next.seen = accum.seen ∧
      next.responseBytes = accum.responseBytes ∧ ∀ event ∈ more, isBlockEvent event = false := by
  unfold Accum.push at h
  rw [if_neg fun hboth => by rw [hkind] at hboth; cases hboth.2] at h
  have hsingle : ∀ {event : StreamEvent (Value N)}, isBlockEvent event = false →
      ∀ other ∈ [event], isBlockEvent other = false := by
    intro event hevent other hother
    rwa [mem_singleton.mp hother]
  cases kind with
  | messageStart =>
    dsimp only at h
    unfold Accum.messageStart at h
    split at h
    · cases h
      exact ⟨rfl, rfl, rfl, hsingle rfl⟩
    · obtain ⟨-, h⟩ := (then_eq_ok _ _ _).mp h
      obtain ⟨-, h⟩ := (then_eq_ok _ _ _).mp h
      cases h
      exact ⟨rfl, rfl, rfl, hsingle rfl⟩
  | messageDelta =>
    dsimp only at h
    unfold Accum.messageDelta at h
    obtain ⟨-, h⟩ := (then_eq_ok _ _ _).mp h
    obtain ⟨usage, husage, h⟩ := (bind_eq_ok _ _ _).mp h
    obtain ⟨-, h⟩ := (then_eq_ok _ _ _).mp h
    obtain ⟨output, houtput, h⟩ := (bind_eq_ok _ _ _).mp h
    obtain ⟨-, h⟩ := (then_eq_ok _ _ _).mp h
    obtain ⟨-, h⟩ := (then_eq_ok _ _ _).mp h
    obtain ⟨-, h⟩ := (then_eq_ok _ _ _).mp h
    cases h
    exact ⟨rfl, rfl, rfl, hsingle rfl⟩
  | messageStop =>
    dsimp only at h
    unfold Accum.messageStop at h
    split_ifs at h
    split at h
    · cases h
    · cases h
      exact ⟨rfl, rfl, rfl, hsingle rfl⟩
  | error | other =>
    cases h
    exact ⟨rfl, rfl, rfl, nofun⟩
  | _ => cases hkind

theorem track_plain {event : Value N} {kind : EventKind} {blocks : Map ℕ BlockKind}
    (h : decoder.track serde event kind = .ok blocks) (hkind : isContent kind = false) :
    blocks = decoder.blocks := by
  unfold Decoder.track at h
  cases kind with
  | messageStop =>
    dsimp only at h
    split_ifs at h
    cases h
    rfl
  | contentBlockStart | contentBlockDelta | contentBlockStop => cases hkind
  | _ =>
    cases h
    rfl

theorem Echoed.delta_event {event : Value N} {blocks : Map ℕ BlockKind} {accum : Accum N}
    (h : Echoed serde wire decoder events) (hkind : kindOf event = .contentBlockDelta)
    (htrack : decoder.track serde event .contentBlockDelta = .ok blocks)
    (hpush : decoder.accum.delta serde event = .ok (accum, more)) :
    Echoed serde (wire ++ [event]) { decoder with accum := accum, blocks := blocks, started := true }
      (events ++ more) := by
  obtain ⟨index, hindex, htrack⟩ := (bind_eq_ok _ _ _).mp htrack
  have hindex := requireIndex_ok hindex
  have hopen : (decoder.blocks.lookup index).isSome = true ∧ blocks = decoder.blocks := by
    split at htrack
    · cases htrack
    · rename_i kind hfound
      rw [hfound]
      refine ⟨rfl, ?_⟩
      split at htrack
      · cases htrack
        rfl
      · obtain ⟨-, htrack⟩ := (then_eq_ok _ _ _).mp htrack
        cases htrack
        rfl
  obtain ⟨hopen, rfl⟩ := hopen
  rw [h.alike] at hopen
  obtain ⟨before, hbefore⟩ := Option.isSome_iff_exists.mp hopen
  unfold Accum.delta at hpush
  obtain ⟨other, hother, hpush⟩ := (bind_eq_ok _ _ _).mp hpush
  obtain rfl : index = other := by
    have hother := blockIndex_ok hother
    rw [hindex] at hother
    exact Option.some.inj hother
  rw [hbefore] at hpush
  cases before with
  | none =>
    cases hpush
    refine h.delta hkind hindex hbefore (fun start deltas hgrown => unknown_grown hgrown _) rfl rfl
      (fun other => ?_) nofun fun _ => rfl
    split_ifs with heq
    · rw [heq]
      exact hbefore
    · rfl
  | some block =>
    dsimp only at hpush
    obtain ⟨delta, hdelta, hpush⟩ := (bind_eq_ok _ _ _).mp hpush
    obtain ⟨⟨next, total, parts⟩, hnext, hpush⟩ := (bind_eq_ok _ _ _).mp hpush
    cases hpush
    have hextends := delta_extends hnext
    refine h.delta hkind hindex hbefore (fun start deltas hgrown => ?_) rfl rfl
      (fun other => lookup_insert_ite _ _ _ _) (extends_no_block hextends) nofun
    rw [requireMember_ok hdelta]
    exact delta_grown hgrown hextends

theorem Echoed.finish_event {event : Value N} {blocks : Map ℕ BlockKind} {accum : Accum N}
    (h : Echoed serde wire decoder events) (hkind : kindOf event = .contentBlockStop)
    (htrack : decoder.track serde event .contentBlockStop = .ok blocks)
    (hpush : decoder.accum.finish serde event = .ok (accum, more)) :
    Echoed serde (wire ++ [event]) { decoder with accum := accum, blocks := blocks, started := true }
      (events ++ more) := by
  obtain ⟨index, hindex, htrack⟩ := (bind_eq_ok _ _ _).mp htrack
  have hindex := requireIndex_ok hindex
  obtain ⟨hopen, htrack⟩ := (then_eq_ok _ _ _).mp htrack
  cases htrack
  have hopen : (decoder.blocks.lookup index).isSome = true :=
    Option.ne_none_iff_isSome.mp fun hnone =>
      (refuse_eq_ok _ _ _).mp hopen (Option.isNone_iff_eq_none.mpr hnone)
  rw [h.alike] at hopen
  obtain ⟨block, hblock⟩ := Option.isSome_iff_exists.mp hopen
  unfold Accum.finish at hpush
  obtain ⟨other, hother, hpush⟩ := (bind_eq_ok _ _ _).mp hpush
  obtain rfl : index = other := by
    have hother := blockIndex_ok hother
    rw [hindex] at hother
    exact Option.some.inj hother
  rw [hblock] at hpush
  cases block with
  | none =>
    cases hpush
    exact h.finish hkind hblock rfl rfl rfl (Or.inl ⟨rfl, rfl⟩)
  | some held =>
    dsimp only at hpush
    obtain ⟨⟨content, call⟩, hfinish, hpush⟩ := (bind_eq_ok _ _ _).mp hpush
    obtain ⟨-, hpush⟩ := (then_eq_ok _ _ _).mp hpush
    cases hpush
    exact h.finish hkind hblock rfl rfl rfl (Or.inr ⟨held, content, call, rfl, hfinish, rfl⟩)

theorem Echoed.event {serde : Serde N} {wire : List (Value N)} {decoder next : Decoder N}
    {events more : Events N} {event : Value N} (h : Echoed serde wire decoder events)
    (hevent : decoder.event serde event = .ok (next, more)) :
    Echoed serde (wire ++ [event]) next (events ++ more) := by
  obtain ⟨hkind, rfl, rfl⟩ | ⟨blocks, accum, hknown, herror, hstart, -, htrack, hpush, rfl⟩ :=
    event_takes hevent
  · exact h.quiet (by rw [hkind]; rfl) rfl rfl rfl nofun
  · by_cases hcontent : isContent (kindOf event) = true
    · unfold Accum.push at hpush
      split_ifs at hpush
      cases hkind : kindOf event with
      | contentBlockStart =>
        rw [hkind] at htrack hpush
        exact h.start hkind htrack hpush
      | contentBlockDelta =>
        rw [hkind] at htrack hpush
        exact h.delta_event hkind htrack hpush
      | contentBlockStop =>
        rw [hkind] at htrack hpush
        exact h.finish_event hkind htrack hpush
      | _ =>
        rw [hkind] at hcontent
        cases hcontent
    · have hplain := Bool.eq_false_of_not_eq_true hcontent
      obtain ⟨hblocks, hseen, -, hmore⟩ := push_plain hpush hplain
      exact h.quiet hplain (track_plain htrack hplain) hblocks hseen hmore

theorem Echoed.reframe (framer : Framer) (h : Echoed serde wire decoder events) :
    Echoed serde wire { decoder with framer := framer } events :=
  ⟨h.alike, h.seen, h.unopened, h.opened, h.closed, h.echoed, h.silent⟩

theorem Fed.echoed (h : Fed serde wire decoder events) : Echoed serde wire decoder events := by
  induction h with
  | new => exact .new serde
  | reframe framer h ih => exact ih.reframe framer
  | event h hevent ih => exact ih.event hevent

end

end Stakit.Claude
