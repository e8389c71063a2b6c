import Stakit.QuotedText
import Stakit.SqlWriter

set_option autoImplicit false

namespace Stakit.Orm
open QuotedText

/-- The loop over the characters of a name. -/
def pushDoubled (quote : Char) : List Char → List Char → List Char
  | out, [] => out
  | out, ch :: rest => pushDoubled quote ((if ch = quote then out ++ [quote] else out) ++ [ch]) rest

/-- `write_quoted_with`: the result, and the buffer afterwards. -/
def writeQuotedWith (out : List Char) (name : String) (quote : Char) :
    Except Error Unit × List Char :=
  match validate name with
  | .error error => (.error error, out)
  | .ok () =>
    let opened := out ++ [quote]
    let named := if quote ∈ name.toList then pushDoubled quote opened name.toList
      else opened ++ name.toList
    (.ok (), named ++ [quote])

def lexIdentifier (quote : Char) (text : List Char) : Option (String × List Char) :=
  (read quote text).map fun found => (String.ofList found.1, found.2)

variable (quote : Char) (out : List Char) (name : String)

theorem pushDoubled_eq (text : List Char) :
    pushDoubled quote out text = out ++ double quote text := by
  induction text generalizing out with
  | nil => exact (List.append_nil out).symm
  | cons ch rest ih =>
    rw [pushDoubled, ih]
    by_cases hch : ch = quote
    · simp [double, hch]
    · simp [double, hch]

theorem quoted_toList : (quoted quote name).toList = quote :: double quote name.toList ++ [quote] :=
  String.toList_ofList

/-- Both ways through the name append its quoted text. -/
theorem writeQuotedWith_valid (h : validate name = .ok ()) :
    writeQuotedWith out name quote = (.ok (), out ++ (quoted quote name).toList) := by
  unfold writeQuotedWith
  rw [h, quoted_toList]
  by_cases hquote : quote ∈ name.toList
  · simp [hquote, pushDoubled_eq]
  · simp [hquote, double_of_not_mem]

theorem writeQuotedWith_refused {error : Error} (h : validate name = .error error) :
    writeQuotedWith out name quote = (.error error, out) := by
  unfold writeQuotedWith
  rw [h]

/-- A builder that pushes an identifier writes it to the end of its text. -/
theorem pushIdent_writes (d : Dialect) (w : SqlWriter) :
    writeQuotedWith (w.sql d).toList name d.quoteChar = match w.pushIdent name with
      | .ok after => (.ok (), (after.sql d).toList)
      | .error error => (.error error, (w.sql d).toList) := by
  cases hvalid : validate name with
  | error error =>
    rw [writeQuotedWith_refused _ _ _ hvalid, SqlWriter.pushIdent, hvalid]
    rfl
  | ok valid =>
    rw [writeQuotedWith_valid _ _ _ hvalid, SqlWriter.pushIdent, hvalid]
    simp [SqlWriter.sql, Piece.sql, String.join_append]

theorem lexIdentifier_quoted (rest : List Char) (h : rest.head? ≠ some quote) :
    lexIdentifier quote ((quoted quote name).toList ++ rest) = some (name, rest) := by
  rw [lexIdentifier, quoted_toList, read_double quote name.toList rest h]
  simp

theorem writeQuotedWith_text {text : List Char}
    (h : writeQuotedWith out name quote = (.ok (), text)) :
    text = out ++ (quoted quote name).toList := by
  cases hvalid : validate name with
  | error error =>
    rw [writeQuotedWith_refused quote out name hvalid] at h
    cases h
  | ok valid =>
    rw [writeQuotedWith_valid quote out name hvalid] at h
    exact (Prod.mk.inj h).2.symm

theorem quoted_injective : Function.Injective (quoted quote) := by
  intro first second h
  have hfirst := lexIdentifier_quoted quote first [] (by simp)
  rw [h, lexIdentifier_quoted quote second [] (by simp)] at hfirst
  simpa using hfirst.symm

/-- Whatever the quote character, the buffer and the name, the write is refused and the buffer
is as it was, or one token is appended that reads as the name, whatever text follows that does
not begin with the quote; two names are never written alike, and where no character of a
name is the quote, the loop writes what the copy of the whole name does. -/
theorem identifiers_closed : ((∃ error, writeQuotedWith out name quote = (.error error, out)) ∨
      ∃ token, writeQuotedWith out name quote = (.ok (), out ++ token) ∧
        ∀ rest : List Char, rest.head? ≠ some quote →
          lexIdentifier quote (token ++ rest) = some (name, rest)) ∧
    (∀ other text, writeQuotedWith out name quote = (.ok (), text) →
      writeQuotedWith out other quote = (.ok (), text) → name = other) ∧
    (quote ∉ name.toList → pushDoubled quote out name.toList = out ++ name.toList) := by
  refine ⟨?_, fun other text hname hother => ?_, fun h => ?_⟩
  · cases hvalid : validate name with
    | error error => exact .inl ⟨error, writeQuotedWith_refused quote out name hvalid⟩
    | ok valid =>
      exact .inr ⟨_, writeQuotedWith_valid quote out name hvalid, lexIdentifier_quoted quote name⟩
  · have hsame := writeQuotedWith_text quote out name hname
    rw [writeQuotedWith_text quote out other hother] at hsame
    exact quoted_injective quote (String.toList_inj.mp (List.append_cancel_left hsame).symm)
  · rw [pushDoubled_eq, double_of_not_mem quote name.toList h]

/-- A name with the quote inside it and at its end, and one without. -/
theorem ticked_closed :
    (∃ token, writeQuotedWith ['x'] "ta\x60b\x60" '\x60' = (.ok (), 'x' :: token) ∧
      lexIdentifier '\x60' (token ++ ['.']) = some ("ta\x60b\x60", ['.'])) ∧
    pushDoubled '\x60' [] "users".toList = "users".toList := by
  obtain ⟨hwrite, _⟩ := identifiers_closed '\x60' ['x'] "ta\x60b\x60"
  obtain ⟨_, _, hcopy⟩ := identifiers_closed '\x60' [] "users"
  refine ⟨?_, hcopy (by decide)⟩
  rcases hwrite with ⟨error, h⟩ | ⟨token, htoken, hread⟩
  · rw [writeQuotedWith_valid '\x60' ['x'] "ta\x60b\x60" rfl] at h
    cases h
  · exact ⟨token, htoken, hread ['.'] (by decide)⟩

end Stakit.Orm
