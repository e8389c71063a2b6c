import Stakit.ClaudeFinality
import Stakit.EventFraming
import Stakit.OpenAiFinality

set_option autoImplicit false

namespace Stakit.ProviderStreams
open AgentMessages SerdeJson EntryMaps ExceptLoops

section
variable {N : Type}

/-- A stream fails once, or it ends with one terminal event, which is final. -/
theorem end_certifies_finality (serde : Serde N) (bytes : List (Except String (List UInt8))) :
    (Fails (Claude.decode serde bytes) ∨ ∃ parts rest wire events stop usage,
      segments bytes = parts ++ rest ∧ Claude.Carries serde parts wire ∧
      Claude.decode serde bytes = sent events ++ [.ok (.finish stop usage)] ∧
      (∀ event ∈ events, isEnd event = false) ∧ Claude.Final serde wire events usage) ∧
    (Fails (OpenAi.decode serde bytes) ∨ ∃ parts rest wire events stop usage,
      segments bytes = parts ++ rest ∧ OpenAi.Carries serde parts wire ∧
      OpenAi.decode serde bytes = sent events ++ [.ok (.finish stop usage)] ∧
      (∀ event ∈ events, isEnd event = false) ∧ OpenAi.Final serde wire events stop usage) :=
  ⟨Claude.decode_final serde bytes, OpenAi.decode_final serde bytes⟩

end

def digits (token : List Char) : Option ℕ :=
  if token.all Char.isDigit then some (Nat.ofDigitChars 10 token 0) else none

def readText (text : String) : Except (ℕ × ℕ) (Value ℕ) :=
  match fromText digits text.toList with
  | some value => .ok value
  | none => .error (1, 1)

/-- What the bodies of examples need of `serde_json`. -/
def decimal : Serde ℕ where
  fromStr text := (readText text).mapError fun _ => "expected value"
  json := .string
  toText _ := ""
  ofString := .string
  asStr := asStr
  debug text := text
  fromSlice := readText
  u64 := some

def chunks (events : List String) : List (Except String (List UInt8)) :=
  events.map fun event => .ok ("data: " ++ event ++ "\n\n").toUTF8.toList

def pingedBody : List (Except String (List UInt8)) :=
  chunks ["\x7b\"type\":\"ping\"\x7d",
    "\x7b\"type\":\"message_start\",\"message\":\x7b\"usage\":" ++
      "\x7b\"input_tokens\":1,\"output_tokens\":0\x7d\x7d\x7d",
    "\x7b\"type\":\"message_delta\",\"delta\":\x7b\"stop_reason\":\"end_turn\"\x7d," ++
      "\"usage\":\x7b\"output_tokens\":1\x7d\x7d",
    "\x7b\"type\":\"message_stop\"\x7d"]

def EventText (event : String) (value : Value ℕ) : Prop :=
  ∃ text, event = String.ofList text ∧ lineEvent text = true ∧ fromText digits text = some value

theorem append_ofList {front back : String} {first last : List Char}
    (hfront : front = String.ofList first) (hback : back = String.ofList last) :
    front ++ back = String.ofList (first ++ last) := by
  rw [hfront, hback, String.ofList_append]

theorem EventText.parts {event : String} {value : Value ℕ} (h : EventText event value) :
    ∃ first, splitInclusive ("data: " ++ event ++ "\n\n").toUTF8.toList = [first, [newline]] ∧
      Framer.new.accept first = .ok (⟨[], event, none⟩, none) ∧
      Framer.accept ⟨[], event, none⟩ [newline] = .ok (.new, some ⟨none, event⟩) ∧
      Claude.decodeFrame decimal ⟨none, event⟩ = .ok value := by
  obtain ⟨text, rfl, hline, hvalue⟩ := h
  obtain ⟨hplain, hfits⟩ := Bool.and_eq_true_iff.mp hline
  obtain ⟨hplain, hsome⟩ := Bool.and_eq_true_iff.mp hplain
  refine ⟨_, splitInclusive_event text hline,
    accept_dataLine text hplain (of_decide_eq_true hfits), accept_emptyLine text ?_, ?_⟩
  · intro hempty
    rw [hempty] at hsome
    exact absurd hsome (by decide)
  · have hread : decimal.fromSlice (String.ofList text) = .ok value := by
      change readText (String.ofList text) = .ok value
      rw [readText, String.toList_ofList, hvalue]
    unfold Claude.decodeFrame
    dsimp only
    rw [hread]

theorem carries_spelled {events : List String} {wire : List (Value ℕ)}
    (h : List.Forall₂ EventText events wire) :
    Claude.Carries decimal (segments (chunks events)) wire := by
  have hall : ∀ frames, (segments (chunks events)).foldlM readPart (.new, frames) =
        .ok (.new, frames ++ events.map (Frame.mk none)) := by
    induction h with
    | nil => exact fun frames => by rw [List.map_nil, List.append_nil]; rfl
    | @cons event value events wire hevent hevents ih =>
      intro frames
      obtain ⟨first, hparts, hfirst, hlast, _⟩ := hevent.parts
      have hsegments : segments (chunks (event :: events)) =
          first :: [newline] :: segments (chunks events) := by
        rw [chunks, List.map_cons, segments, hparts]
        rfl
      have hone : readPart (.new, frames) first = .ok (⟨[], event, none⟩, frames) := by
        rw [readPart, hfirst]
        exact congrArg (fun frames => Except.ok (_, frames)) (List.append_nil _)
      have htwo : readPart (⟨[], event, none⟩, frames) [newline] =
          .ok (.new, frames ++ [⟨none, event⟩]) := by
        rw [readPart, hlast]
        rfl
      rw [hsegments, List.foldlM_cons, hone]
      change ([newline] :: segments (chunks events)).foldlM readPart _ = _
      rw [List.foldlM_cons, htwo]
      change (segments (chunks events)).foldlM readPart _ = _
      rw [ih, List.append_assoc]
      rfl
  refine ⟨.new, _, hall [], ?_⟩
  rw [mapM_eq_ok, List.nil_append, List.forall₂_map_left_iff]
  exact h.imp fun event value hevent => hevent.parts.choose_spec.2.2.2

theorem decode_spelled {events : List String} {wire : List (Value ℕ)}
    (h : List.Forall₂ EventText events wire) :
    Claude.decode decimal (chunks events) =
      driveEvents (Claude.Decoder.event decimal) "Claude stream ended before message_stop" .new
        wire := by
  have hall : ∀ decoder : Claude.Decoder ℕ, decoder.framer = .new →
      drive (Claude.Decoder.accept decimal) "Claude stream ended before message_stop" decoder
          (chunks events) =
        driveEvents (Claude.Decoder.event decimal) "Claude stream ended before message_stop"
          decoder wire := by
    induction h with
    | nil => exact fun _ _ => rfl
    | @cons event value events wire hevent hevents ih =>
      intro decoder hnew
      obtain ⟨first, hparts, hfirst, hlast, hvalue⟩ := hevent.parts
      have hone : decoder.accept decimal first =
          .ok ({ decoder with framer := ⟨[], event, none⟩ }, []) := by
        rw [Claude.Decoder.accept, hnew, hfirst]
        rfl
      have htwo : Claude.Decoder.accept decimal { decoder with framer := ⟨[], event, none⟩ }
          [newline] = Claude.Decoder.event decimal decoder value := by
        rw [Claude.Decoder.accept]
        dsimp only
        rw [hlast]
        change (Claude.decodeFrame decimal ⟨none, event⟩ >>=
          Claude.Decoder.event decimal { decoder with framer := .new }) = _
        rw [hvalue, ← hnew]
        rfl
      rw [chunks, List.map_cons, drive_event _ _ hparts hone, htwo, driveEvents]
      cases hnext : Claude.Decoder.event decimal decoder value with
      | error error => rfl
      | ok result =>
        obtain ⟨next, more⟩ := result
        have hframer : next.framer = .new := by
          rw [(Claude.event_takes hnext).framer, hnew]
        dsimp only
        rw [← ih next hframer]
        rfl
  exact hall .new rfl

def startValue : Value ℕ :=
  .object [("message", .object [("usage", .object [("input_tokens", .number 1),
    ("output_tokens", .number 0)])]), ("type", .string "message_start")]

def deltaValue : Value ℕ :=
  .object [("delta", .object [("stop_reason", .string "end_turn")]),
    ("type", .string "message_delta"), ("usage", .object [("output_tokens", .number 1)])]

def stopValue : Value ℕ := .object [("type", .string "message_stop")]

theorem start_spells : EventText ("\x7b\"type\":\"message_start\",\"message\":\x7b\"usage\":" ++
    "\x7b\"input_tokens\":1,\"output_tokens\":0\x7d\x7d\x7d") startValue :=
  ⟨_, append_ofList rfl rfl, by decide +kernel, by decide +kernel⟩

example : Claude.kindOf startValue = .messageStart := by decide +kernel

theorem delta_spells : EventText
    ("\x7b\"type\":\"message_delta\",\"delta\":\x7b\"stop_reason\":\"end_turn\"\x7d," ++
      "\"usage\":\x7b\"output_tokens\":1\x7d\x7d") deltaValue :=
  ⟨_, append_ofList rfl rfl, by decide +kernel, by decide +kernel⟩

theorem stop_spells : EventText "\x7b\"type\":\"message_stop\"\x7d" stopValue :=
  ⟨_, rfl, by decide +kernel, by decide +kernel⟩

def pingedWire : List (Value ℕ) :=
  [.object [("type", .string "ping")], startValue, deltaValue, stopValue]

theorem pingedBody_spells : ∃ events, pingedBody = chunks events ∧
    List.Forall₂ EventText events pingedWire :=
  ⟨_, rfl, .cons ⟨_, rfl, by decide +kernel, by decide +kernel⟩
    (.cons start_spells (.cons delta_spells (.cons stop_spells .nil)))⟩

/-- The first event of a stream that ends need not be a `message_start`. -/
theorem ping_before_message_start :
    (Claude.decode decimal pingedBody).any (fun item => item.toOption.any isEnd) = true ∧
      ∃ wire, Claude.Carries decimal (segments pingedBody) wire ∧
        wire.head?.map Claude.kindOf = some .other := by
  obtain ⟨events, hbody, hspells⟩ := pingedBody_spells
  rw [hbody]
  refine ⟨?_, pingedWire, carries_spelled hspells, by decide +kernel⟩
  rw [decode_spelled hspells]
  decide +kernel

end Stakit.ProviderStreams
