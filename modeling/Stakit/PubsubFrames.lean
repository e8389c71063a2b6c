import Stakit.PubsubHubOperations
import Stakit.SerdeJson

set_option autoImplicit false

namespace Stakit.PubsubFrames
open JsonText SerdeJson PubsubTopic PubsubHub List

/-- `push_json_str` for one character; `{:04x}` of a number below 32. -/
def pushJsonChar (character : Char) : List Char :=
  if character = '"' then ['\\', '"']
  else if character = '\\' then ['\\', '\\']
  else if character = '\n' then ['\\', 'n']
  else if character = '\r' then ['\\', 'r']
  else if character = '\t' then ['\\', 't']
  else if character.toNat < 32 then
    ['\\', 'u', '0', '0', Nat.digitChar (character.toNat / 16),
      Nat.digitChar (character.toNat % 16)]
  else [character]

def pushJsonStr (text : String) : List Char :=
  ['"'] ++ text.toList.flatMap pushJsonChar ++ ['"']

def closeKindStr : CloseKind → String
  | .superseded => "superseded"
  | .revoked => "revoked"

def publishPayload (name : String) (params : List Char) : List Char :=
  "\x7b\"name\":".toList ++ pushJsonStr name ++ ",\"params\":".toList ++ params ++ ['}']

def kickPayload (user : String) : List Char :=
  "\x7b\"kick\":".toList ++ pushJsonStr user ++ ['}']

def closePayload (kind : CloseKind) : List Char :=
  "\x7b\"close\":\"".toList ++ (closeKindStr kind).toList ++ "\"\x7d".toList

def publishFrame (topic name : String) (params : List Char) (epoch seq : ℕ) : List Char :=
  "\x7b\"kind\":\"publish\",\"topic\":".toList ++ pushJsonStr topic ++ ",\"name\":".toList ++
    pushJsonStr name ++ ",\"seq\":".toList ++ Nat.toDigits 10 seq ++ ",\"epoch\":".toList ++
    Nat.toDigits 10 epoch ++ ",\"params\":".toList ++ params ++ ['}']

def resetFrame (topic : String) (epoch : ℕ) : List Char :=
  "\x7b\"kind\":\"reset\",\"topic\":".toList ++ pushJsonStr topic ++ ",\"epoch\":".toList ++
    Nat.toDigits 10 epoch ++ ",\"seq\":0\x7d".toList

def unsubscribedFrame (topic reason : String) : List Char :=
  "\x7b\"kind\":\"unsubscribed\",\"topic\":".toList ++ pushJsonStr topic ++ ",\"reason\":".toList ++
    pushJsonStr reason ++ ['}']

def closeKindOf (text : String) : Option CloseKind :=
  if text = "superseded" then some .superseded
  else if text = "revoked" then some .revoked
  else none

/-- A unit variant is its name, or an object from its name to `null`. -/
def readCloseKind (raw : List Char) : Option CloseKind :=
  match readString raw with
  | some text => closeKindOf text
  | none =>
    match readFields raw with
    | some [(text, value)] => if value = "null".toList then closeKindOf text else none
    | _ => none

/-- `some_raw` keeps a `null`, an `Option` reads it as absent. -/
def incomingOf (name params kick close : Option (List Char)) : Option Incoming :=
  (name.elim (some none) (readOption readString)).bind fun name =>
  (kick.elim (some none) (readOption readString)).bind fun kick =>
  (close.elim (some none) (readOption readCloseKind)).map fun close =>
    ⟨name, params.map String.ofList, kick, close⟩

/-- `from_slice::<Incoming>`: the struct is an object, or an array of its fields in order. -/
def readIncoming (payload : List Char) : Option Incoming :=
  match readFields payload, arrayParts (trim payload) with
  | some fields, _ =>
    (once fields "name").bind fun name => (once fields "params").bind fun params =>
    (once fields "kick").bind fun kick => (once fields "close").bind fun close =>
      incomingOf name params kick close
  | none, some raws =>
    if raws.length ≤ 4 then incomingOf raws[0]? raws[1]? raws[2]? raws[3]? else none
  | none, none => none

theorem pushJsonChar_reads (character : Char) (rest : List Char) :
    literal (pushJsonChar character ++ rest) = (literal rest).map (push character.toNat) := by
  unfold pushJsonChar
  split_ifs with hquote hslash hnewline hreturn htab hcontrol
  · rw [hquote]
    exact literal_simple '"' _ rest (by decide) rfl
  · rw [hslash]
    exact literal_simple '\\' _ rest (by decide) rfl
  · rw [hnewline]
    exact literal_simple 'n' _ rest (by decide) rfl
  · rw [hreturn]
    exact literal_simple 'r' _ rest (by decide) rfl
  · rw [htab]
    exact literal_simple 't' _ rest (by decide) rfl
  · simp only [cons_append, nil_append, literal_hex, hexUnit_control _ hcontrol]
    rfl
  · exact literal_plain character rest hquote hslash hcontrol

variable (h : Hub) (kind : CloseKind) (text topic name user reason : String) (params : List Char)
  (epoch seq : ℕ)

theorem pushJsonStr_eq : pushJsonStr text = quoted pushJsonChar text.toList := by
  unfold pushJsonStr quoted
  simp

theorem isRaw_pushJsonStr : IsRaw (pushJsonStr text) := by
  rw [pushJsonStr_eq]
  exact isRaw_quoted _ _ fun c _ rest => pushJsonChar_reads c rest

theorem readString_pushJsonStr : readString (pushJsonStr text) = some text := by
  rw [pushJsonStr_eq, readString_quoted _ _ fun c _ rest => pushJsonChar_reads c rest,
    String.ofList_toList]

example : pushJsonStr "a\n" = "\"a\\n\"".toList := by decide +kernel

theorem publishPayload_eq : publishPayload name params =
    writeObject [("name".toList, pushJsonStr name), ("params".toList, params)] := by
  unfold publishPayload writeObject
  rw [writeMembers, writeMembers]
  simp only [String.reduceToList, cons_append, nil_append, append_assoc]

theorem kickPayload_eq : kickPayload user = writeObject [("kick".toList, pushJsonStr user)] := by
  unfold kickPayload writeObject
  rw [writeMembers]
  simp only [String.reduceToList, cons_append, nil_append]

theorem closePayload_eq :
    closePayload kind = writeObject [("close".toList, pushJsonStr (closeKindStr kind))] := by
  cases kind <;> rfl

theorem publishFrame_eq : publishFrame topic name params epoch seq = writeObject
      [("kind".toList, pushJsonStr "publish"), ("topic".toList, pushJsonStr topic),
        ("name".toList, pushJsonStr name), ("seq".toList, Nat.toDigits 10 seq),
        ("epoch".toList, Nat.toDigits 10 epoch), ("params".toList, params)] := by
  have hkind : pushJsonStr "publish" = "\"publish\"".toList := by rfl
  unfold publishFrame writeObject
  rw [writeMembers, writeMembers, writeMembers, writeMembers, writeMembers, writeMembers]
  simp only [hkind, String.reduceToList, cons_append, nil_append, append_assoc]

theorem resetFrame_eq : resetFrame topic epoch = writeObject
      [("kind".toList, pushJsonStr "reset"), ("topic".toList, pushJsonStr topic),
        ("epoch".toList, Nat.toDigits 10 epoch), ("seq".toList, Nat.toDigits 10 0)] := by
  have hkind : pushJsonStr "reset" = "\"reset\"".toList := by rfl
  unfold resetFrame writeObject
  rw [writeMembers, writeMembers, writeMembers, writeMembers, Nat.toDigits_zero]
  simp only [hkind, String.reduceToList, cons_append, nil_append, append_assoc]

theorem unsubscribedFrame_eq : unsubscribedFrame topic reason = writeObject
      [("kind".toList, pushJsonStr "unsubscribed"), ("topic".toList, pushJsonStr topic),
        ("reason".toList, pushJsonStr reason)] := by
  have hkind : pushJsonStr "unsubscribed" = "\"unsubscribed\"".toList := by rfl
  unfold unsubscribedFrame writeObject
  rw [writeMembers, writeMembers, writeMembers]
  simp only [hkind, String.reduceToList, cons_append, nil_append, append_assoc]

theorem parse_pushJsonStr : parse (pushJsonStr text) = some (.string (points text)) := by
  rw [pushJsonStr_eq]
  exact parse_quoted _ _ fun c _ rest => pushJsonChar_reads c rest

theorem publishFrame_parses {value : Json} (hparams : parse params = some value) :
    parse (publishFrame topic name params epoch seq) = some (.object
      [(points "kind", .string (points "publish")), (points "topic", .string (points topic)),
        (points "name", .string (points name)), (points "seq", .number (Nat.toDigits 10 seq)),
        (points "epoch", .number (Nat.toDigits 10 epoch)), (points "params", value)]) := by
  rw [publishFrame_eq]
  refine parse_writeObject
    [("kind".toList, pushJsonStr "publish", .string (points "publish")),
      ("topic".toList, pushJsonStr topic, .string (points topic)),
      ("name".toList, pushJsonStr name, .string (points name)),
      ("seq".toList, Nat.toDigits 10 seq, .number (Nat.toDigits 10 seq)),
      ("epoch".toList, Nat.toDigits 10 epoch, .number (Nat.toDigits 10 epoch)),
      ("params".toList, params, value)] ?_
  simp only [forall_mem_cons, not_mem_nil, false_implies, implies_true, and_true]
  exact ⟨⟨by decide, parse_pushJsonStr _⟩, ⟨by decide, parse_pushJsonStr _⟩,
    ⟨by decide, parse_pushJsonStr _⟩, ⟨by decide, parse_toDigits _⟩, ⟨by decide, parse_toDigits _⟩,
    ⟨by decide, hparams⟩⟩

theorem resetFrame_parses : parse (resetFrame topic epoch) = some (.object
      [(points "kind", .string (points "reset")), (points "topic", .string (points topic)),
        (points "epoch", .number (Nat.toDigits 10 epoch)),
        (points "seq", .number (Nat.toDigits 10 0))]) := by
  rw [resetFrame_eq]
  refine parse_writeObject
    [("kind".toList, pushJsonStr "reset", .string (points "reset")),
      ("topic".toList, pushJsonStr topic, .string (points topic)),
      ("epoch".toList, Nat.toDigits 10 epoch, .number (Nat.toDigits 10 epoch)),
      ("seq".toList, Nat.toDigits 10 0, .number (Nat.toDigits 10 0))] ?_
  simp only [forall_mem_cons, not_mem_nil, false_implies, implies_true, and_true]
  exact ⟨⟨by decide, parse_pushJsonStr _⟩, ⟨by decide, parse_pushJsonStr _⟩,
    ⟨by decide, parse_toDigits _⟩, ⟨by decide, parse_toDigits _⟩⟩

theorem unsubscribedFrame_parses : parse (unsubscribedFrame topic reason) = some (.object
      [(points "kind", .string (points "unsubscribed")), (points "topic", .string (points topic)),
        (points "reason", .string (points reason))]) := by
  rw [unsubscribedFrame_eq]
  refine parse_writeObject
    [("kind".toList, pushJsonStr "unsubscribed", .string (points "unsubscribed")),
      ("topic".toList, pushJsonStr topic, .string (points topic)),
      ("reason".toList, pushJsonStr reason, .string (points reason))] ?_
  simp only [forall_mem_cons, not_mem_nil, false_implies, implies_true, and_true]
  exact ⟨⟨by decide, parse_pushJsonStr _⟩, ⟨by decide, parse_pushJsonStr _⟩,
    ⟨by decide, parse_pushJsonStr _⟩⟩

theorem writable_pushJsonStr (key : List Char) (hkey : Plain key) (text : String) :
    Writable (key, pushJsonStr text) := by
  refine ⟨hkey, ?_⟩
  rw [(isRaw_pushJsonStr text).trim]
  exact isRaw_pushJsonStr text

theorem pushJsonStr_ne_null : pushJsonStr text ≠ "null".toList := by
  intro h
  have hhead := congrArg List.head? h
  exact absurd hhead (by simp [pushJsonStr])

theorem readOption_pushJsonStr : readOption readString (pushJsonStr text) = some (some text) := by
  unfold readOption
  rw [if_neg (pushJsonStr_ne_null text), readString_pushJsonStr]
  rfl

theorem readIncoming_publishPayload (hparams : IsRaw (trim params)) :
    readIncoming (publishPayload name params) =
      some (PubsubHub.publishPayload name (String.ofList (trim params))) := by
  have hfields : readFields (publishPayload name params) =
      some [("name", pushJsonStr name), ("params", trim params)] := by
    rw [publishPayload_eq, readFields_writeObject _]
    · simp only [map_cons, map_nil, String.ofList_toList, (isRaw_pushJsonStr name).trim]
    · simp only [forall_mem_cons, not_mem_nil, false_implies, implies_true, and_true]
      have hkey : Plain "params".toList := by decide
      exact ⟨writable_pushJsonStr _ (by decide) name, hkey, hparams⟩
  have hname := readOption_pushJsonStr name
  unfold readIncoming
  rw [hfields]
  simp [once, incomingOf, hname, PubsubHub.publishPayload]

theorem readIncoming_kickPayload :
    readIncoming (kickPayload user) = some (PubsubHub.kickPayload user) := by
  have hfields : readFields (kickPayload user) = some [("kick", pushJsonStr user)] := by
    rw [kickPayload_eq, readFields_writeObject _]
    · simp only [map_cons, map_nil, String.ofList_toList, (isRaw_pushJsonStr user).trim]
    · simp only [forall_mem_cons, not_mem_nil, false_implies, implies_true, and_true]
      exact writable_pushJsonStr _ (by decide) user
  have hkick := readOption_pushJsonStr user
  unfold readIncoming
  rw [hfields]
  simp [once, incomingOf, hkick, PubsubHub.kickPayload]

theorem readIncoming_closePayload :
    readIncoming (closePayload kind) = some (PubsubHub.closePayload kind) := by
  have hfields : readFields (closePayload kind) = some [("close", pushJsonStr (closeKindStr kind))] := by
    rw [closePayload_eq, readFields_writeObject _]
    · simp only [map_cons, map_nil, String.ofList_toList,
        (isRaw_pushJsonStr (closeKindStr kind)).trim]
    · simp only [forall_mem_cons, not_mem_nil, false_implies, implies_true, and_true]
      exact writable_pushJsonStr _ (by decide) _
  have hclose : readOption readCloseKind (pushJsonStr (closeKindStr kind)) = some (some kind) := by
    unfold readOption readCloseKind
    rw [if_neg (pushJsonStr_ne_null _), readString_pushJsonStr]
    cases kind <;> rfl
  unfold readIncoming
  rw [hfields]
  simp [once, incomingOf, hclose, PubsubHub.closePayload]

theorem deliver_publish {topic : Topic} (name params : String) (htopic : hasTopic h topic = true) :
    deliver h topic (some (PubsubHub.publishPayload name params)) = fanOut h topic name params := by
  unfold deliver
  rw [if_pos htopic]
  rfl

theorem deliver_kick {topic : Topic} (user : String) (htopic : hasTopic h topic = true) :
    deliver h topic (some (PubsubHub.kickPayload user)) = kickLocal h topic user := by
  unfold deliver
  rw [if_pos htopic]
  rfl

theorem deliver_close (topic : Topic) (kind : CloseKind) (htopic : hasTopic h topic = true) :
    deliver h topic (some (PubsubHub.closePayload kind)) = closeTopic h topic kind := by
  unfold deliver
  rw [if_pos htopic]
  rfl

/-- Frames parse to the fields they were written from, payloads read back as what
was sent, the params without the space around them, and `deliver` acts on that. -/
theorem frames_and_payloads_read_back (kind : CloseKind) (params : List Char) (value : Json)
    (hparams : parse params = some value) :
    parse (publishFrame topic name params epoch seq) = some (.object
      [(points "kind", .string (points "publish")), (points "topic", .string (points topic)),
        (points "name", .string (points name)), (points "seq", .number (Nat.toDigits 10 seq)),
        (points "epoch", .number (Nat.toDigits 10 epoch)), (points "params", value)]) ∧
    parse (resetFrame topic epoch) = some (.object
      [(points "kind", .string (points "reset")), (points "topic", .string (points topic)),
        (points "epoch", .number (Nat.toDigits 10 epoch)),
        (points "seq", .number (Nat.toDigits 10 0))]) ∧
    parse (unsubscribedFrame topic reason) = some (.object
      [(points "kind", .string (points "unsubscribed")), (points "topic", .string (points topic)),
        (points "reason", .string (points reason))]) ∧
    readIncoming (publishPayload name params) =
      some (PubsubHub.publishPayload name (String.ofList (trim params))) ∧
    readIncoming (kickPayload user) = some (PubsubHub.kickPayload user) ∧
    readIncoming (closePayload kind) = some (PubsubHub.closePayload kind) ∧
    ∀ h : Hub, hasTopic h topic = true →
      deliver h topic (readIncoming (publishPayload name params)) =
        fanOut h topic name (String.ofList (trim params)) ∧
      deliver h topic (readIncoming (kickPayload user)) = kickLocal h topic user ∧
      deliver h topic (readIncoming (closePayload kind)) = closeTopic h topic kind := by
  have hpublish := readIncoming_publishPayload name params (decode_isRaw hparams)
  refine ⟨publishFrame_parses topic name params epoch seq hparams,
    resetFrame_parses topic epoch, unsubscribedFrame_parses topic reason, hpublish,
    readIncoming_kickPayload user, readIncoming_closePayload kind, fun h htopic => ⟨?_, ?_, ?_⟩⟩
  · rw [hpublish, deliver_publish h name _ htopic]
  · rw [readIncoming_kickPayload, deliver_kick h user htopic]
  · rw [readIncoming_closePayload, deliver_close h topic kind htopic]

theorem frames_and_payloads_read_back_array : (parse "[1]".toList).isSome = true ∧
    readIncoming (publishPayload "a\n" "[1]".toList) =
      some (PubsubHub.publishPayload "a\n" "[1]") := by
  have hsome : (parse "[1]".toList).isSome = true := by decide +kernel
  obtain ⟨value, hvalue⟩ := Option.isSome_iff_exists.mp hsome
  refine ⟨hsome, ?_⟩
  exact (frames_and_payloads_read_back "room:7" "a\n" "u" "reset" 3 4 .revoked "[1]".toList value
    hvalue).2.2.2.1

/-- The space before the params is not kept. -/
theorem padded_params_trimmed :
    ¬ ∀ (name : String) (params : List Char) (value : Json), parse params = some value →
      readIncoming (publishPayload name params) =
        some (PubsubHub.publishPayload name (String.ofList params)) := by
  intro hall
  have hsome : (parse " 1".toList).isSome = true := by decide +kernel
  obtain ⟨value, hvalue⟩ := Option.isSome_iff_exists.mp hsome
  have hverbatim := hall "x" " 1".toList value hvalue
  have htrimmed := readIncoming_publishPayload "x" " 1".toList (decode_isRaw hvalue)
  rw [htrimmed] at hverbatim
  exact absurd hverbatim (by decide +kernel)

end Stakit.PubsubFrames
