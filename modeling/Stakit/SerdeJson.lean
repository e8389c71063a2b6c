import Stakit.JsonWriting

set_option autoImplicit false

namespace Stakit.SerdeJson
open JsonText

/-- No string holds a surrogate. -/
def charOf (point : ℕ) : Option Char :=
  if point.isValidChar then some (Char.ofNat point) else none

def stringOf (points : List ℕ) : Option String := (points.mapM charOf).map String.ofList

def readString (raw : List Char) : Option String := (stringPoints raw).bind stringOf

/-- The largest value of an integer type bounds what it reads. -/
def readUnsigned (largest : ℕ) (raw : List Char) : Option ℕ :=
  if raw.all Char.isDigit && isNumber raw && Nat.ofDigitChars 10 raw 0 ≤ largest then
    some (Nat.ofDigitChars 10 raw 0)
  else none

/-- `null` reads as nothing. -/
def readOption {α : Type} (read : List Char → Option α) (raw : List Char) : Option (Option α) :=
  if raw = "null".toList then some none else (read raw).map some

abbrev Fields := List (String × List Char)

def readKeys (found : List Member) : Option Fields :=
  found.mapM fun m => (stringOf m.name).map fun name => (name, m.raw)

/-- A field that stands there twice is an error. -/
def once (fields : Fields) (name : String) : Option (Option (List Char)) :=
  match fields.filter (fun field => field.1 = name) with
  | [] => some none
  | [field] => some (some field.2)
  | _ => none

def readFields (text : List Char) : Option Fields := (objectParts (trim text)).bind readKeys

def structParts (names : List String) (text : List Char) : Option (List (Option (List Char))) :=
  match readFields text with
  | some fields => names.mapM (once fields)
  | none =>
    (arrayParts (trim text)).bind fun raws =>
      if raws.length = names.length then some (raws.map some) else none

theorem charOf_toNat (c : Char) : charOf c.toNat = some c := by
  have hvalid : c.toNat.isValidChar := c.valid
  unfold charOf
  rw [if_pos hvalid, Char.ofNat_toNat]

theorem stringOf_chars (text : List Char) :
    stringOf (text.map Char.toNat) = some (String.ofList text) := by
  have hchars : (text.map Char.toNat).mapM charOf = some text := by
    induction text with
    | nil => rfl
    | cons c text ih =>
      rw [List.map_cons, List.mapM_cons, charOf_toNat, ih]
      rfl
  unfold stringOf
  rw [hchars]
  rfl

theorem stringOf_points (text : String) : stringOf (points text) = some text := by
  unfold points
  rw [stringOf_chars, String.ofList_toList]

theorem charOf_eq_some {point : ℕ} {c : Char} (h : charOf point = some c) : point = c.toNat := by
  unfold charOf at h
  split_ifs at h with hvalid
  cases h
  unfold Char.ofNat
  rw [dif_pos hvalid]
  rfl

theorem stringOf_eq_some {ps : List ℕ} {text : String} (h : stringOf ps = some text) :
    ps = points text := by
  obtain ⟨chars, hchars, rfl⟩ := Option.map_eq_some_iff.mp h
  unfold points
  rw [String.toList_ofList]
  clear h
  induction ps generalizing chars with
  | nil =>
    cases hchars
    rfl
  | cons point ps ih =>
    rw [List.mapM_cons] at hchars
    obtain ⟨c, hc, hchars⟩ := Option.bind_eq_some_iff.mp hchars
    obtain ⟨rest, hrest, hchars⟩ := Option.bind_eq_some_iff.mp hchars
    cases hchars
    rw [charOf_eq_some hc, ih rest hrest, List.map_cons]

theorem readString_quoted (escape : Char → List Char) (text : List Char)
    (hescape : ∀ c ∈ text, ∀ rest, literal (escape c ++ rest) = (literal rest).map (push c.toNat)) :
    readString (quoted escape text) = some (String.ofList text) := by
  unfold readString
  rw [stringPoints_quoted hescape, Option.bind_some, stringOf_chars]

theorem readUnsigned_toDigits {largest n : ℕ} (hn : n ≤ largest) :
    readUnsigned largest (Nat.toDigits 10 n) = some n := by
  have hdigits : (Nat.toDigits 10 n).all Char.isDigit = true :=
    List.all_eq_true.mpr (toDigits_isDigit n)
  unfold readUnsigned
  rw [Nat.ofDigitChars_ten_toDigits, hdigits, isNumber_toDigits]
  simp [hn]

variable (entries : List (List Char × List Char))

theorem readKeys_written : readKeys (entries.map written) =
      some (entries.map fun entry => (String.ofList entry.1, trim entry.2)) := by
  unfold readKeys
  induction entries with
  | nil => rfl
  | cons entry entries ih =>
    rw [List.map_cons, List.mapM_cons, ih]
    simp only [written, stringOf_chars]
    rfl

theorem readFields_writeObject (hall : ∀ entry ∈ entries, Writable entry) :
    readFields (writeObject entries) =
      some (entries.map fun entry => (String.ofList entry.1, trim entry.2)) := by
  unfold readFields
  rw [(isRaw_writeObject entries hall).trim, objectParts_write entries hall,
    Option.bind_some, readKeys_written]

theorem readFields_written (hall : ∀ entry ∈ entries, Plain entry.1 ∧ IsRaw entry.2) :
    readFields (writeObject entries) =
      some (entries.map fun entry => (String.ofList entry.1, entry.2)) := by
  have hwritable : ∀ entry ∈ entries, Writable entry := by
    intro entry hentry
    obtain ⟨hplain, hraw⟩ := hall entry hentry
    exact ⟨hplain, by rw [hraw.trim]; exact hraw⟩
  rw [readFields_writeObject entries hwritable]
  congr 1
  refine List.map_congr_left fun entry hentry => ?_
  rw [(hall entry hentry).2.trim]

theorem structParts_written (names : List String) (entries : List (List Char × List Char))
    (hall : ∀ entry ∈ entries, Plain entry.1 ∧ IsRaw entry.2) :
    structParts names (writeObject entries) =
      names.mapM (once (entries.map fun entry => (String.ofList entry.1, entry.2))) := by
  unfold structParts
  rw [readFields_written entries hall]

theorem isRaw_written (hall : ∀ entry ∈ entries, Plain entry.1 ∧ IsRaw entry.2) :
    IsRaw (writeObject entries) := by
  refine isRaw_writeObject entries fun entry hentry => ?_
  obtain ⟨hplain, hraw⟩ := hall entry hentry
  exact ⟨hplain, by rw [hraw.trim]; exact hraw⟩

end Stakit.SerdeJson
