import Mathlib.Data.List.Basic

set_option autoImplicit false

namespace Stakit.TextDecoding

structure Utf8 where
  codePoint : ℕ
  needed : ℕ
  lower : ℕ
  upper : ℕ
  deriving DecidableEq, Repr

def Utf8.fresh : Utf8 := ⟨0, 0, 0x80, 0xBF⟩

def replacement : ℕ := 0xFFFD

def bom : ℕ := 0xFEFF

/-- The first byte of a code point. -/
def lead (byte : ℕ) : Utf8 × List ℕ :=
  if byte ≤ 0x7F then (.fresh, [byte])
  else if 0xC2 ≤ byte ∧ byte ≤ 0xDF then (⟨byte % 0x20, 1, 0x80, 0xBF⟩, [])
  else if 0xE0 ≤ byte ∧ byte ≤ 0xEF then
    (⟨byte % 0x10, 2, if byte = 0xE0 then 0xA0 else 0x80, if byte = 0xED then 0x9F else 0xBF⟩, [])
  else if 0xF0 ≤ byte ∧ byte ≤ 0xF4 then
    (⟨byte % 0x08, 3, if byte = 0xF0 then 0x90 else 0x80, if byte = 0xF4 then 0x8F else 0xBF⟩, [])
  else (.fresh, [replacement])

def handle (state : Utf8) (byte : ℕ) : Utf8 × List ℕ :=
  if state.needed = 0 then lead byte
  else if state.lower ≤ byte ∧ byte ≤ state.upper then
    let codePoint := state.codePoint * 0x40 + byte % 0x40
    if state.needed = 1 then (.fresh, [codePoint])
    else (⟨codePoint, state.needed - 1, 0x80, 0xBF⟩, [])
  else ((lead byte).1, replacement :: (lead byte).2)

def points (state : Utf8) : List UInt8 → Utf8 × List ℕ
  | [] => (state, [])
  | byte :: bytes =>
    let first := handle state byte.toNat
    let rest := points first.1 bytes
    (rest.1, first.2 ++ rest.2)

def units (point : ℕ) : List ℕ :=
  if point < 0x10000 then [point]
  else [0xD800 + (point - 0x10000) / 0x400, 0xDC00 + (point - 0x10000) % 0x400]

structure TextDecoder where
  utf8 : Utf8
  bomSeen : Bool

def TextDecoder.new : TextDecoder := ⟨.fresh, false⟩

/-- A byte order mark that comes first is left out. -/
def serialize (bomSeen : Bool) : List ℕ → Bool × List ℕ
  | [] => (bomSeen, [])
  | point :: rest =>
    (true, (if !bomSeen && point == bom then [] else units point) ++ rest.flatMap units)

/-- `decode(bytes, { stream: true })` -/
def TextDecoder.decode (decoder : TextDecoder) (bytes : List UInt8) : TextDecoder × List ℕ :=
  let read := points decoder.utf8 bytes
  let text := serialize decoder.bomSeen read.2
  (⟨read.1, text.1⟩, text.2)

/-- `decode()`: a code point under way is replaced. -/
def TextDecoder.flush (decoder : TextDecoder) : List ℕ :=
  (serialize decoder.bomSeen (if decoder.utf8.needed = 0 then [] else [replacement])).2

theorem points_append (state : Utf8) (bytes more : List UInt8) : points state (bytes ++ more) =
      ((points (points state bytes).1 more).1,
        (points state bytes).2 ++ (points (points state bytes).1 more).2) := by
  induction bytes generalizing state with
  | nil => rfl
  | cons byte bytes ih =>
    rw [List.cons_append, points, ih, points]
    dsimp only
    rw [List.append_assoc]

theorem serialize_append (bomSeen : Bool) (read more : List ℕ) : serialize bomSeen (read ++ more) =
      ((serialize (serialize bomSeen read).1 more).1,
        (serialize bomSeen read).2 ++ (serialize (serialize bomSeen read).1 more).2) := by
  cases read with
  | nil => rfl
  | cons point read =>
    cases more with
    | nil =>
      rw [List.append_nil]
      exact Prod.ext rfl (List.append_nil _).symm
    | cons first more =>
      have happend : (read ++ first :: more).flatMap units =
          read.flatMap units ++ (units first ++ more.flatMap units) := by
        rw [List.flatMap_append, List.flatMap_cons]
      refine Prod.ext rfl ((congrArg (_ ++ ·) happend).trans ?_)
      exact (List.append_assoc _ _ _).symm

theorem decode_append (decoder : TextDecoder) (bytes more : List UInt8) :
    decoder.decode (bytes ++ more) = (((decoder.decode bytes).1.decode more).1,
        (decoder.decode bytes).2 ++ ((decoder.decode bytes).1.decode more).2) := by
  unfold TextDecoder.decode
  dsimp only
  rw [points_append, serialize_append]

example : (TextDecoder.new.decode [0xEF, 0xBB, 0xBF, 0xC3, 0xA9, 0xE2, 0x28]).2 =
    [0xE9, replacement, 0x28] := by decide

example : (TextDecoder.new.decode [0xF0, 0x9F, 0x99, 0x82]).2 = [0xD83D, 0xDE42] := by decide

end Stakit.TextDecoding
