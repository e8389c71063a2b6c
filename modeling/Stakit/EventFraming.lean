import Stakit.ProviderStreams

set_option autoImplicit false

namespace Stakit.ProviderStreams
open AgentMessages List

/-- A character that a line holds as one byte. -/
def plain (c : Char) : Bool := decide (c.val < 128) && c ≠ '\n' && c ≠ '\r'

theorem byteArray_toList (bytes : ByteArray) : bytes.toList = bytes.data.toList := by
  have hloop : ∀ i read, ByteArray.toList.loop bytes i read =
      read.reverse ++ bytes.data.toList.drop i := by
    intro i read
    fun_induction ByteArray.toList.loop bytes i read with
    | case1 i read h ih =>
      have hlength : i < bytes.data.toList.length := h
      have hget : bytes.get! i = bytes.data.toList[i] := getElem!_pos bytes.data i h
      rw [ih, reverse_cons, append_assoc, drop_eq_getElem_cons hlength, hget]
      rfl
    | case2 i read h =>
      have hlength : bytes.data.toList.length ≤ i := Nat.le_of_not_lt h
      rw [drop_eq_nil_of_le hlength, append_nil]
  exact hloop 0 []

variable (text event : List Char)

theorem toUTF8_ascii (h : ∀ c ∈ text, c.val < 128) :
    (String.ofList text).toUTF8.toList = text.map fun c => c.val.toUInt8 := by
  rw [byteArray_toList, String.toUTF8_eq_toByteArray, String.toByteArray_ofList]
  induction text with
  | nil => rfl
  | cons c text ih =>
    obtain ⟨hc, htext⟩ := forall_mem_cons.mp h
    have hsize : c.utf8Size = 1 := Char.utf8Size_eq_one_iff.mpr (Nat.le_of_lt_succ hc)
    rw [utf8Encode_cons, ByteArray.toList_data_append, ih htext, utf8Encode_singleton,
      toList_data_toByteArray, String.utf8EncodeChar_eq_singleton hsize]
    rfl

theorem ascii_of_plain {text : List Char} (h : text.all plain = true) :
    ∀ c ∈ text, c.val < 128 := by
  intro c hc
  have hplain := all_eq_true.mp h c hc
  exact of_decide_eq_true (Bool.and_eq_true_iff.mp (Bool.and_eq_true_iff.mp hplain).1).1

theorem fromUTF8_toUTF8 (text : String) :
    String.fromUTF8? ⟨text.toUTF8.toList.toArray⟩ = some text := by
  have hbytes : (⟨text.toUTF8.toList.toArray⟩ : ByteArray) = text.toByteArray := by
    rw [byteArray_toList, String.toUTF8_eq_toByteArray, Array.toArray_toList]
  rw [hbytes]
  exact dif_pos text.isValidUTF8

theorem splitInclusive_line {front : List UInt8} (rest : List UInt8) (h : newline ∉ front) :
    splitInclusive (front ++ newline :: rest) = (front ++ [newline]) :: splitInclusive rest := by
  induction front with
  | nil => rw [nil_append, splitInclusive, if_pos rfl, nil_append]
  | cons byte front ih =>
    have hbyte : byte ≠ newline := fun heq => h (heq ▸ mem_cons_self)
    rw [cons_append, splitInclusive, if_neg hbyte, ih fun hmem => h (mem_cons_of_mem _ hmem)]
    rfl

theorem newline_not_plain (h : text.all plain = true) :
    newline ∉ text.map fun c => c.val.toUInt8 := by
  intro hmem
  obtain ⟨c, hc, heq⟩ := mem_map.mp hmem
  have hplain := all_eq_true.mp h c hc
  unfold plain at hplain
  simp only [Bool.and_eq_true, decide_eq_true_eq] at hplain
  obtain ⟨⟨hsmall, hline⟩, _⟩ := hplain
  apply hline
  have hval : c.val = 10 := by
    have hnat := congrArg UInt8.toNat heq
    have hlt : c.val.toNat < 128 := hsmall
    rw [UInt32.toNat_toUInt8, Nat.mod_eq_of_lt (by omega)] at hnat
    exact UInt32.toNat_inj.mp hnat
  exact Char.ext hval

def dataLine (event : List Char) : List Char := 'd' :: 'a' :: 't' :: 'a' :: ':' :: ' ' :: event

theorem dataLine_plain (h : event.all plain = true) : (dataLine event).all plain = true := by
  simp only [dataLine, all_cons, h, Bool.and_true]
  decide

theorem stripReturn_plain {line : List Char} (h : line.all plain = true) :
    stripReturn line = line := by
  unfold stripReturn
  refine if_neg fun hlast => ?_
  have hreturn := all_eq_true.mp h _ (mem_of_getLast? hlast)
  exact absurd hreturn (by decide)

theorem splitField_dataLine : splitField (dataLine event) = (['d', 'a', 't', 'a'], event) := by
  have hsplit : dataLine event = ['d', 'a', 't', 'a'] ++ ':' :: ' ' :: event := rfl
  have hname : ∀ c ∈ ['d', 'a', 't', 'a'], decide (c ≠ ':') = true :=
    all_eq_true.mp (by decide)
  have hcolon : ¬decide (':' ≠ ':') = true := by decide
  have hdrop : (dataLine event).dropWhile (· ≠ ':') = ':' :: ' ' :: event := by
    rw [hsplit, dropWhile_append_of_pos hname]
    exact dropWhile_cons_of_neg hcolon
  have htake : (dataLine event).takeWhile (· ≠ ':') = ['d', 'a', 't', 'a'] := by
    rw [hsplit, takeWhile_append_of_pos hname]
    exact congrArg _ (takeWhile_cons_of_neg hcolon)
  unfold splitField
  rw [hdrop, htake]
  rfl

theorem utf8ByteSize_plain (h : text.all plain = true) :
    (String.ofList text).utf8ByteSize = text.length := by
  have hbytes := congrArg List.length (toUTF8_ascii text (ascii_of_plain h))
  rw [byteArray_toList, length_map, Array.length_toList] at hbytes
  exact hbytes

theorem endLine_dataLine (line : List UInt8) (h : event.all plain = true)
    (hfits : event.length ≤ maxFrameBytes) :
    Framer.endLine ⟨line, "", none⟩ (dataLine event) =
      .ok (⟨[], String.ofList event, none⟩, none) := by
  have hsize : ("" : String).utf8ByteSize + ("" : String).utf8ByteSize +
      (String.ofList event).utf8ByteSize ≤ maxFrameBytes := by
    rw [utf8ByteSize_plain event h, String.utf8ByteSize_empty]
    omega
  unfold Framer.endLine
  have hline : dataLine event ≠ [] := cons_ne_nil _ _
  rw [if_neg hline, splitField_dataLine]
  dsimp only
  rw [if_neg (by decide), if_pos (by decide), if_pos rfl, if_neg (Nat.not_lt.mpr hsize),
    String.empty_append, String.empty_append]

theorem accept_complete (framer : Framer) (bytes : List UInt8) (text : String)
    (hfits : framer.line.length + bytes.length ≤ maxFrameBytes)
    (hread : String.fromUTF8? ⟨(framer.line ++ bytes).toArray⟩ = some text) :
    framer.accept (bytes ++ [newline]) =
      Framer.endLine { framer with line := framer.line ++ bytes } (stripReturn text.toList) := by
  have hstrip : stripNewline (bytes ++ [newline]) = (bytes, true) := by
    unfold stripNewline
    rw [List.getLast?_concat, if_pos rfl, dropLast_concat]
  unfold Framer.accept
  rw [hstrip]
  dsimp only
  rw [if_neg (Nat.not_lt.mpr hfits), if_pos rfl, hread]

theorem accept_dataLine (h : event.all plain = true) (hfits : event.length + 6 ≤ maxFrameBytes) :
    Framer.new.accept (((dataLine event).map fun c => c.val.toUInt8) ++ [newline]) =
      .ok (⟨[], String.ofList event, none⟩, none) := by
  have hline := dataLine_plain event h
  have hread : String.fromUTF8? ⟨((dataLine event).map fun c => c.val.toUInt8).toArray⟩ =
      some (String.ofList (dataLine event)) := by
    rw [← toUTF8_ascii _ (ascii_of_plain hline), fromUTF8_toUTF8]
  have hlength : Framer.new.line.length +
      ((dataLine event).map fun c => c.val.toUInt8).length ≤ maxFrameBytes := by
    rw [length_map, show Framer.new.line.length = 0 from rfl, Nat.zero_add]
    exact hfits
  rw [accept_complete _ _ _ hlength hread, String.toList_ofList, stripReturn_plain hline]
  exact endLine_dataLine event _ h (by omega)

theorem accept_emptyLine (hevent : event ≠ []) :
    Framer.accept ⟨[], String.ofList event, none⟩ [newline] =
      .ok (.new, some ⟨none, String.ofList event⟩) := by
  have hdata : String.ofList event ≠ "" := by
    rw [Ne, String.ofList_eq_empty_iff]
    exact hevent
  have hread := fromUTF8_toUTF8 (String.ofList [])
  rw [toUTF8_ascii [] nofun] at hread
  have haccept := accept_complete ⟨[], String.ofList event, none⟩ [] _ (Nat.zero_le _) hread
  rw [String.toList_ofList] at haccept
  rw [show [newline] = [] ++ [newline] from rfl, haccept, show stripReturn [] = [] from rfl,
    Framer.endLine, if_pos rfl, if_neg hdata]

def lineEvent (event : List Char) : Bool :=
  event.all plain && !event.isEmpty && decide (event.length + 6 ≤ maxFrameBytes)

theorem splitInclusive_event (h : lineEvent event = true) :
    splitInclusive ("data: " ++ String.ofList event ++ "\n\n").toUTF8.toList =
      [((dataLine event).map fun c => c.val.toUInt8) ++ [newline], [newline]] := by
  obtain ⟨hplain, _⟩ := Bool.and_eq_true_iff.mp (Bool.and_eq_true_iff.mp h).1
  have hline := dataLine_plain event hplain
  have htext : "data: " ++ String.ofList event ++ "\n\n" =
      String.ofList (dataLine event ++ ['\n', '\n']) := by
    rw [show dataLine event = ['d', 'a', 't', 'a', ':', ' '] ++ event from rfl,
      String.ofList_append, String.ofList_append]
  have hascii : ∀ c ∈ dataLine event ++ ['\n', '\n'], c.val < 128 := by
    intro c hc
    have hends : ∀ c ∈ ['\n', '\n'], c.val < 128 := fun c hc =>
      of_decide_eq_true (all_eq_true (p := fun c : Char => decide (c.val < 128)).mp
        (by decide) c hc)
    exact (mem_append.mp hc).elim (ascii_of_plain hline c) (hends c)
  have hbytes : (dataLine event ++ ['\n', '\n']).map (fun c => c.val.toUInt8) =
      (dataLine event).map (fun c => c.val.toUInt8) ++ newline :: ([] ++ newline :: []) := by
    rw [map_append]
    rfl
  rw [htext, toUTF8_ascii _ hascii, hbytes, splitInclusive_line _ (newline_not_plain _ hline),
    splitInclusive_line [] not_mem_nil]
  rfl

section
variable {J δ V : Type}

/-- What a decoder of whole events makes of them. -/
def driveEvents (accept : δ → V → Except ProviderError (δ × List (StreamEvent J))) (eof : String) :
    δ → List V → List (Item J)
  | _, [] => [.error (.transport eof)]
  | state, event :: events =>
    match accept state event with
    | .error error => [.error error]
    | .ok (next, more) =>
      if more.any isEnd then
        sent (more.takeWhile (!isEnd ·) ++ (more.dropWhile (!isEnd ·)).head?.toList)
      else sent more ++ driveEvents accept eof next events

/-- A chunk of a data line and an empty line, of which the first yields nothing. -/
theorem drive_event {accept : δ → List UInt8 → Except ProviderError (δ × List (StreamEvent J))}
    (eof : String) {state open_ : δ} {first last : List UInt8} {chunk : List UInt8}
    (chunks : List (Except String (List UInt8))) (hparts : splitInclusive chunk = [first, last])
    (hfirst : accept state first = .ok (open_, [])) :
    drive accept eof state (.ok chunk :: chunks) = match accept open_ last with
      | .error error => [.error error]
      | .ok (next, more) =>
        if more.any isEnd then
          sent (more.takeWhile (!isEnd ·) ++ (more.dropWhile (!isEnd ·)).head?.toList)
        else sent more ++ drive accept eof next chunks := by
  rw [drive, hparts, driveParts, hfirst]
  dsimp only
  rw [if_neg (by simp), driveParts]
  cases hlast : accept open_ last with
  | error error => rfl
  | ok result =>
    obtain ⟨next, more⟩ := result
    dsimp only
    have hnone : sent ([] : List (StreamEvent J)) = [] := rfl
    by_cases hend : more.any isEnd = true
    · rw [if_pos hend, if_pos hend, hnone, nil_append]
    · rw [if_neg hend, if_neg hend, driveParts, hnone, nil_append, append_nil]

end

end Stakit.ProviderStreams
