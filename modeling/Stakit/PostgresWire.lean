import Mathlib.Data.String.Basic
import Mathlib.Tactic.IntervalCases
import Stakit.RouterError

set_option autoImplicit false

namespace Stakit.PostgresBroker
open RouterError

def u64Max : ℕ := 2 ^ 64 - 1

def maxNotifyBytes : ℕ := 7999

def maxSkewMs : ℕ := 30000

/-- The longest envelope minus its body: field names, three `u64`s and the MAC. -/
def envelopeOverhead : ℕ :=
  "\x7b\"o\":,\"n\":,\"t\":,\"m\":\"\",\"b\":\x7d".utf8ByteSize + 3 * 20 + 64

/-- JSON values as serde writes them, and the texts it reads as JSON. -/
structure Json where
  Value : Type
  null : Value
  valid : String → Bool
  text : Value → String

structure RawValue (json : Json) where
  text : String
  valid : json.valid text = true

structure Failure where
  code : ℕ
  message : String
  deriving DecidableEq, Repr

/-- The signed part of a message. -/
inductive Body (json : Json) where
  | publish (topic : String) (p : RawValue json)
  | call (id : ℕ) (topic : String) (p : RawValue json)
  | reply (dest id : ℕ) (ok : Option json.Value) (err : Option Failure)

structure Outer where
  o : ℕ
  n : ℕ
  t : ℕ
  m : String
  b : String
  deriving DecidableEq, Repr

/-- A verified envelope. -/
structure Opened (json : Json) where
  origin : ℕ
  counter : ℕ
  body : Body json

/-- The bus secret, at least 32 bytes. -/
structure Key where
  secret : List UInt8
  long : 32 ≤ secret.length

def Key.new (secret : List UInt8) : Except Error Key :=
  if h : secret.length < 32 then .error internal else .ok ⟨secret, Nat.le_of_not_lt h⟩

structure Codec (json : Json) where
  body : String → Option (Body json)
  outer : String → Option Outer
  hmac : List UInt8 → String → Vector UInt8 32

def escapeJson (character : Char) : List Char :=
  if character = '"' then ['\\', '"']
  else if character = '\\' then ['\\', '\\']
  else if character = '\x08' then ['\\', 'b']
  else if character = '\t' then ['\\', 't']
  else if character = '\n' then ['\\', 'n']
  else if character = '\x0c' then ['\\', 'f']
  else if character = '\r' then ['\\', 'r']
  else if character.toNat < 32 then
    ['\\', 'u', '0', '0', Nat.digitChar (character.toNat / 16),
      Nat.digitChar (character.toNat % 16)]
  else [character]

def quote (text : String) : String :=
  "\"" ++ String.ofList (text.toList.flatMap escapeJson) ++ "\""

def failureText (failure : Failure) : String :=
  "\x7b\"code\":" ++ toString failure.code ++ ",\"message\":" ++ quote failure.message ++ "\x7d"

def bodyText {json : Json} : Body json → String
  | .publish topic p =>
    "\x7b\"p\":\x7b\"topic\":" ++ quote topic ++ ",\"p\":" ++ p.text ++ "\x7d\x7d"
  | .call id topic p =>
    "\x7b\"c\":\x7b\"id\":" ++ toString id ++ ",\"topic\":" ++ quote topic ++ ",\"p\":" ++
      p.text ++ "\x7d\x7d"
  | .reply dest id ok err =>
    "\x7b\"r\":\x7b\"to\":" ++ toString dest ++ ",\"id\":" ++ toString id ++ ",\"ok\":" ++
      (ok.map json.text).getD "null" ++ ",\"err\":" ++ (err.map failureText).getD "null" ++
      "\x7d\x7d"

def hexByte (byte : UInt8) : List Char :=
  [Nat.digitChar (byte.toNat / 16), Nat.digitChar (byte.toNat % 16)]

def hex (tag : List UInt8) : String := String.ofList (tag.flatMap hexByte)

def envelope (outer : Outer) : String :=
  "\x7b\"o\":" ++ toString outer.o ++ ",\"n\":" ++ toString outer.n ++ ",\"t\":" ++
    toString outer.t ++ ",\"m\":\"" ++ outer.m ++ "\",\"b\":" ++ outer.b ++ "\x7d"

def checkLen (len : ℕ) : Except Error Unit :=
  if maxNotifyBytes < len then
    .error (coded 413 "payload_too_large"
      ("pub/sub payload exceeds the Postgres NOTIFY limit (8000 bytes); " ++
        "publish ids and fetch the data instead"))
  else .ok ()

section
variable {json : Json} (codec : Codec json)

def mac (key : Key) (origin counter time : ℕ) (body : String) : List UInt8 :=
  (codec.hmac key.secret
    (toString origin ++ "." ++ toString counter ++ "." ++ toString time ++ "." ++ body)).toList

def sealText (key : Key) (origin counter time : ℕ) (body : Body json) : Except Error String :=
  match checkLen (envelopeOverhead + (bodyText body).utf8ByteSize) with
  | .error error => .error error
  | .ok () => .ok (envelope ⟨origin, counter, time,
      hex (mac codec key origin counter time (bodyText body)), bodyText body⟩)

def hexDigit (character : Char) : Option ℕ :=
  if '0' ≤ character ∧ character ≤ '9' then some (character.toNat - '0'.toNat)
  else if 'a' ≤ character ∧ character ≤ 'f' then some (character.toNat - 'a'.toNat + 10)
  else if 'A' ≤ character ∧ character ≤ 'F' then some (character.toNat - 'A'.toNat + 10)
  else none

/-- `u8::from_str_radix` of two characters; a leading plus is a sign. -/
def fromStrRadix (first second : Char) : Option UInt8 :=
  if first = '+' then (hexDigit second).map UInt8.ofNat
  else (hexDigit first).bind fun high =>
    (hexDigit second).map fun low => UInt8.ofNat (16 * high + low)

def decodePairs : List Char → Option (List UInt8)
  | [] => some []
  | [_] => none
  | first :: second :: rest =>
    (fromStrRadix first second).bind fun byte => (decodePairs rest).map (byte :: ·)

/-- A character of several bytes makes some pair unreadable, here as in the source. -/
def decodeHex (text : String) : Option (List UInt8) :=
  if text.utf8ByteSize ≠ 64 then none else decodePairs text.toList

def absDiff (a b : ℕ) : ℕ := if a < b then b - a else a - b

def openText (key : Key) (text : String) (now : ℕ) : Option (Opened json) :=
  (codec.outer text).bind fun outer =>
  (decodeHex outer.m).bind fun tag =>
    if mac codec key outer.o outer.n outer.t outer.b ≠ tag then none
    else if maxSkewMs < absDiff now outer.t then none
    else (codec.body outer.b).map fun body => ⟨outer.o, outer.n, body⟩

/-- serde reads back what it wrote. -/
structure Codec.Lawful : Prop where
  body : ∀ body : Body json, (codec.body (bodyText body)).isSome = true
  outer : ∀ (origin counter time : ℕ) (tag : List UInt8) (body : Body json),
    origin ≤ u64Max → counter ≤ u64Max → time ≤ u64Max →
    codec.outer (envelope ⟨origin, counter, time, hex tag, bodyText body⟩) =
      some ⟨origin, counter, time, hex tag, bodyText body⟩

end

theorem hexDigit_digitChar {n : ℕ} (hn : n < 16) : hexDigit (Nat.digitChar n) = some n := by
  interval_cases n <;> rfl

theorem digitChar_plain (n : ℕ) (hn : n < 16) :
    Nat.digitChar n ≠ '+' ∧ (Nat.digitChar n).utf8Size = 1 := by
  interval_cases n <;> decide

theorem fromStrRadix_hexByte (byte : UInt8) :
    fromStrRadix (Nat.digitChar (byte.toNat / 16)) (Nat.digitChar (byte.toNat % 16)) =
      some byte := by
  have hbyte : byte.toNat < 256 := byte.toNat_lt
  have hhigh : byte.toNat / 16 < 16 := by omega
  have hlow : byte.toNat % 16 < 16 := Nat.mod_lt _ (by decide)
  have hsum : 16 * (byte.toNat / 16) + byte.toNat % 16 = byte.toNat := Nat.div_add_mod _ _
  unfold fromStrRadix
  rw [if_neg (digitChar_plain _ hhigh).1, hexDigit_digitChar hhigh, hexDigit_digitChar hlow]
  change some (UInt8.ofNat (16 * (byte.toNat / 16) + byte.toNat % 16)) = _
  rw [hsum, UInt8.ofNat_toNat]

theorem decodePairs_hex (tag : List UInt8) : decodePairs (tag.flatMap hexByte) = some tag := by
  induction tag with
  | nil => rfl
  | cons byte tag ih =>
    change decodePairs (Nat.digitChar (byte.toNat / 16) :: Nat.digitChar (byte.toNat % 16) ::
      tag.flatMap hexByte) = _
    rw [decodePairs, fromStrRadix_hexByte, ih]
    rfl

theorem hex_utf8ByteSize (tag : List UInt8) : (hex tag).utf8ByteSize = 2 * tag.length := by
  unfold hex
  rw [String.utf8ByteSize_ofList]
  induction tag with
  | nil => rfl
  | cons byte tag ih =>
    have hbyte : byte.toNat < 256 := byte.toNat_lt
    have hhigh := (digitChar_plain (byte.toNat / 16) (by omega)).2
    have hlow := (digitChar_plain (byte.toNat % 16) (Nat.mod_lt _ (by decide))).2
    change String.utf8Len (Nat.digitChar (byte.toNat / 16) :: Nat.digitChar (byte.toNat % 16) ::
      tag.flatMap hexByte) = _
    rw [String.utf8Len_cons, String.utf8Len_cons, ih, hhigh, hlow, List.length_cons]
    omega

theorem decodeHex_hex {tag : List UInt8} (htag : tag.length = 32) :
    decodeHex (hex tag) = some tag := by
  have hsize : (hex tag).utf8ByteSize = 64 := by rw [hex_utf8ByteSize, htag]
  unfold decodeHex
  rw [if_neg (not_not.mpr hsize), hex, String.toList_ofList, decodePairs_hex]

section
variable {json : Json} (codec : Codec json)

theorem mac_length (key : Key) (origin counter time : ℕ) (body : String) :
    (mac codec key origin counter time body).length = 32 := by
  unfold mac
  exact Vector.length_toList

theorem sealText_ok {key : Key} {origin counter time : ℕ} {body : Body json} {text : String}
    (hseal : sealText codec key origin counter time body = .ok text) :
    text = envelope ⟨origin, counter, time,
      hex (mac codec key origin counter time (bodyText body)), bodyText body⟩ := by
  unfold sealText at hseal
  split at hseal
  · cases hseal
  · cases hseal
    rfl

theorem openText_envelope (hlaw : codec.Lawful) (key : Key) {origin counter time now : ℕ}
    (body : Body json) (horigin : origin ≤ u64Max) (hcounter : counter ≤ u64Max)
    (htime : time ≤ u64Max) (hskew : absDiff now time ≤ maxSkewMs) :
    ∃ read, openText codec key (envelope ⟨origin, counter, time,
      hex (mac codec key origin counter time (bodyText body)), bodyText body⟩) now =
        some ⟨origin, counter, read⟩ := by
  obtain ⟨read, hread⟩ := Option.isSome_iff_exists.mp (hlaw.body body)
  have hdecode := decodeHex_hex (mac_length codec key origin counter time (bodyText body))
  refine ⟨read, ?_⟩
  unfold openText
  rw [hlaw.outer origin counter time _ body horigin hcounter htime, Option.bind_some, hdecode,
    Option.bind_some, if_neg (not_not.mpr rfl), if_neg (Nat.not_lt.mpr hskew), hread]
  rfl

end

end Stakit.PostgresBroker
