import Stakit.BufferedLines
import Stakit.ClientStreamOutcomes
import Stakit.TextDecoding

set_option autoImplicit false

namespace Stakit.ClientChunks
open BufferedLines TextDecoding List
open ClientStreams (maxFrameBytes)

def newline : UInt8 := 10

def newlineUnit : ℕ := 10

section
variable {T E : Type} (parseLine : List UInt8 → Line T E) (interrupted : E) (breaks : Bool)

/-- The loop of `stream_with`; `breaks` says that the body fails after its last chunk. -/
def streamLoop : List (List UInt8) → List UInt8 → Outcome T E
  | chunk :: rest, buf =>
    if maxFrameBytes < (buf ++ chunk).length then ⟨[], some interrupted⟩
    else takeLines newline parseLine (buf ++ chunk) 0 fun buf => streamLoop rest buf
  | [], buf =>
    if breaks then ⟨[], some interrupted⟩
    else if maxFrameBytes < (buf ++ [newline]).length then ⟨[], some interrupted⟩
    else takeLines newline parseLine (buf ++ [newline]) 0 fun _ => ⟨[], some interrupted⟩

def streamWith (chunks : List (List UInt8)) : Outcome T E :=
  streamLoop parseLine interrupted breaks chunks []

/-- What the loop still takes for a line after the last chunk. -/
def lastLine : List UInt8 := if breaks then [] else [newline]

/-- Until the stream has ended no chunk takes the buffer over the cap; or the lines from
the one begun on are of no consequence. -/
def Fitting : List (List UInt8) → List UInt8 → Prop
  | [], _ => True
  | chunk :: rest, held =>
    if held.length + chunk.length ≤ maxFrameBytes then
      (∃ line ∈ complete newline held chunk, (parseLine line).ends = true) ∨
        Fitting rest (left newline held chunk)
    else Discarded parseLine maxFrameBytes interrupted
      (complete newline held (chunk ++ rest.flatten ++ lastLine breaks))

end

section
variable {T E : Type} (parseFrame : List ℕ → Line T E) (interrupted broke : E) (breaks : Bool)

def readLoop : List (List UInt8) → TextDecoder → List ℕ → ℕ → Outcome T E
  | chunk :: rest, decoder, buffer, searchOffset =>
    takeLines newlineUnit parseFrame (buffer ++ (decoder.decode chunk).2) searchOffset fun buffer =>
      readLoop rest (decoder.decode chunk).1 buffer buffer.length
  | [], decoder, buffer, searchOffset =>
    if breaks then ⟨[], some broke⟩
    else takeLines newlineUnit parseFrame (buffer ++ (decoder.flush ++ [newlineUnit])) searchOffset
      fun _ => ⟨[], some interrupted⟩

def doStream (chunks : List (List UInt8)) : Outcome T E :=
  readLoop parseFrame interrupted broke breaks chunks .new [] 0

end

def bytewise (body : List UInt8) : List (List UInt8) := body.map fun byte => [byte]

section
variable {T E : Type} (parseLine : List UInt8 → Line T E) (interrupted : E) (breaks : Bool)

theorem newline_not_nil : newline ∉ ([] : List UInt8) := not_mem_nil

theorem streamLoop_chunk (chunk : List UInt8) (rest : List (List UInt8)) (held : List UInt8)
    (hheld : newline ∉ held) :
    streamLoop parseLine interrupted breaks (chunk :: rest) held =
      if maxFrameBytes < held.length + chunk.length then ⟨[], some interrupted⟩
      else feed newline parseLine held
        (fun held => streamLoop parseLine interrupted breaks rest held) chunk := by
  rw [streamLoop, length_append,
    takeLines_feed newline parseLine held chunk 0 _ hheld (Nat.zero_le _)]

theorem streamLoop_last (held : List UInt8) (hheld : newline ∉ held) :
    streamLoop parseLine interrupted breaks [] held =
      capFeed newline parseLine maxFrameBytes interrupted held
        (fun _ => ⟨[], some interrupted⟩) (lastLine breaks) := by
  unfold streamLoop lastLine
  cases breaks with
  | true => rfl
  | false =>
    rw [takeLines_feed newline parseLine held [newline] 0 _ hheld (Nat.zero_le _),
      length_append, length_singleton]
    by_cases hcap : maxFrameBytes < held.length + 1
    · rw [if_pos hcap]
      exact (if_pos hcap).symm
    · rw [if_neg hcap]
      exact (capFeed_fits newline parseLine maxFrameBytes interrupted held _ [newline]
        (Nat.not_lt.mp hcap)).symm

theorem streamLoop_bytewise (body held : List UInt8) (hheld : newline ∉ held) :
    streamLoop parseLine interrupted breaks (bytewise body) held =
      capFeed newline parseLine maxFrameBytes interrupted held
        (fun _ => ⟨[], some interrupted⟩) (body ++ lastLine breaks) := by
  induction body generalizing held with
  | nil => exact streamLoop_last parseLine interrupted breaks held hheld
  | cons byte body ih =>
    have hstep := streamLoop_chunk parseLine interrupted breaks [byte] (bytewise body) held hheld
    rw [show bytewise (byte :: body) = [byte] :: bytewise body from rfl, hstep, cons_append]
    unfold capFeed
    rw [length_singleton]
    split_ifs with hcap hbyte
    · rfl
    · rw [feed, if_pos hbyte]
      exact congrArg _ (ih [] newline_not_nil)
    · rw [feed, if_neg hbyte]
      refine ih (held ++ [byte]) fun hin => ?_
      rcases mem_append.mp hin with hin | hin
      · exact hheld hin
      · exact hbyte (mem_singleton.mp hin).symm

theorem streamLoop_fitting (chunks : List (List UInt8)) (held : List UInt8)
    (hheld : newline ∉ held) :
    streamLoop parseLine interrupted breaks chunks held =
        capFeed newline parseLine maxFrameBytes interrupted held
          (fun _ => ⟨[], some interrupted⟩) (chunks.flatten ++ lastLine breaks) ↔
      Fitting parseLine interrupted breaks chunks held := by
  induction chunks generalizing held with
  | nil => exact iff_of_true (streamLoop_last parseLine interrupted breaks held hheld) trivial
  | cons chunk rest ih =>
    rw [streamLoop_chunk parseLine interrupted breaks chunk rest held hheld, flatten_cons]
    unfold Fitting
    by_cases hcap : held.length + chunk.length ≤ maxFrameBytes
    · rw [if_neg (Nat.not_lt.mpr hcap), if_pos hcap, append_assoc, capFeed_append,
        capFeed_fits newline parseLine maxFrameBytes interrupted held _ chunk hcap, feed_eq_iff,
        ih _ (left_not_mem newline held chunk hheld)]
    · rw [if_pos (Nat.not_le.mp hcap), if_neg hcap, eq_comm, capFeed_cut_iff]

end

section
variable {T E : Type} (parseFrame : List ℕ → Line T E) (interrupted broke : E) (breaks : Bool)

/-- What a body that has come to its end leaves to be read. -/
def lastText (decoder : TextDecoder) : List ℕ :=
  if breaks then [] else decoder.flush ++ [newlineUnit]

def closing : Outcome T E := ⟨[], some (if breaks then broke else interrupted)⟩

theorem readLoop_text (chunks : List (List UInt8)) (decoder : TextDecoder) (buffer : List ℕ)
    (searchOffset : ℕ) (hbuffer : newlineUnit ∉ buffer) (hoffset : searchOffset ≤ buffer.length) :
    readLoop parseFrame interrupted broke breaks chunks decoder buffer searchOffset =
      feed newlineUnit parseFrame buffer (fun _ => closing interrupted broke breaks)
        ((decoder.decode chunks.flatten).2 ++
          lastText breaks (decoder.decode chunks.flatten).1) := by
  induction chunks generalizing decoder buffer searchOffset with
  | nil =>
    have hdecode : decoder.decode [] = (decoder, []) := rfl
    rw [flatten_nil, hdecode, nil_append]
    unfold readLoop closing lastText
    cases breaks with
    | true => rfl
    | false => exact takeLines_feed newlineUnit parseFrame buffer _ _ _ hbuffer hoffset
  | cons chunk rest ih =>
    rw [flatten_cons, decode_append, append_assoc, feed_append]
    unfold readLoop
    rw [takeLines_feed newlineUnit parseFrame buffer _ _ _ hbuffer hoffset]
    refine feed_congr newlineUnit parseFrame buffer _ _ _ ?_
    exact ih _ _ _ (left_not_mem newlineUnit buffer _ hbuffer) (Nat.le_refl _)

theorem doStream_chunks (chunks chunks' : List (List UInt8))
    (h : chunks.flatten = chunks'.flatten) :
    doStream parseFrame interrupted broke breaks chunks =
      doStream parseFrame interrupted broke breaks chunks' := by
  unfold doStream
  rw [readLoop_text parseFrame interrupted broke breaks chunks _ _ _ not_mem_nil (Nat.zero_le _),
    readLoop_text parseFrame interrupted broke breaks chunks' _ _ _ not_mem_nil
      (Nat.zero_le _), h]

end

theorem bytewise_flatten (body : List UInt8) : (bytewise body).flatten = body := by
  induction body with
  | nil => rfl
  | cons byte body ih => exact congrArg (List.cons byte) ih

section
variable {T E T' E' : Type} (parseLine : List UInt8 → Line T E) (interrupted : E)
  (parseFrame : List ℕ → Line T' E') (interrupted' broke : E') (breaks : Bool)

/-- Both clients make of a body in chunks what they make of it byte by byte. -/
structure Chunkless (chunks : List (List UInt8)) : Prop where
  rust : streamWith parseLine interrupted breaks chunks =
    streamWith parseLine interrupted breaks (bytewise chunks.flatten)
  ts : doStream parseFrame interrupted' broke breaks chunks =
    doStream parseFrame interrupted' broke breaks (bytewise chunks.flatten)

theorem chunks_disregarded_iff (chunks : List (List UInt8)) :
    Chunkless parseLine interrupted parseFrame interrupted' broke breaks chunks ↔
      Fitting parseLine interrupted breaks chunks [] := by
  rw [← streamLoop_fitting parseLine interrupted breaks chunks [] newline_not_nil,
    ← streamLoop_bytewise parseLine interrupted breaks chunks.flatten [] newline_not_nil]
  exact ⟨fun h => h.rust, fun h => ⟨h, doStream_chunks parseFrame interrupted' broke breaks _ _
    (bytewise_flatten chunks.flatten).symm⟩⟩

end

def asLine {α : Type} : ClientStreams.Line α → Line α ClientStreams.Ending
  | .item data => .item data
  | .last .clean => .finish
  | .last ending => .last ending
  | .skip => .skip

def asciiLine (line : List UInt8) : Line (SerdeJson.Value ℕ) ClientStreams.Ending :=
  asLine (ClientStreams.parseLine ClientStreams.decimal
    (line.map fun byte => Char.ofNat byte.toNat))

def asciiFrame (line : List ℕ) : Line (ClientStreams.JsValue ℕ) ClientStreams.Ending :=
  asLine (ClientStreams.parseFrame ClientStreams.asDouble ClientStreams.whole (line.map Char.ofNat))

def endFrame : List UInt8 :=
  "\x7b\"type\":\"end\"\x7d\n".toList.map fun c => UInt8.ofNat c.toNat

def blankBody : List UInt8 := List.replicate maxFrameBytes newline ++ endFrame

theorem complete_blank (n : ℕ) (text : List UInt8) :
    complete newline [] (List.replicate n newline ++ text) =
      List.replicate n [] ++ complete newline [] text := by
  induction n with
  | zero => rfl
  | succ n ih =>
    rw [replicate_succ, replicate_succ, cons_append, cons_append, complete, if_pos rfl, ih]

theorem capFeed_blank {T E : Type} (parse : List UInt8 → Line T E) {cap : ℕ} (error : E)
    (next : List UInt8 → Outcome T E) (hcap : 0 < cap) (hblank : parse [] = .skip) (n : ℕ)
    (text : List UInt8) :
    capFeed newline parse cap error [] next (List.replicate n newline ++ text) =
      capFeed newline parse cap error [] next text := by
  induction n with
  | zero => rfl
  | succ n ih =>
    have hfits : ¬ cap < ([] : List UInt8).length + 1 := Nat.not_lt.mpr hcap
    rw [replicate_succ, cons_append, capFeed, if_neg hfits, if_pos rfl, hblank]
    exact ih

theorem cap_pos : 0 < maxFrameBytes := by
  unfold maxFrameBytes
  exact Nat.succ_pos _

theorem endFrame_finishes :
    capFeed newline asciiLine maxFrameBytes .failure [] (fun _ => ⟨[], some .failure⟩)
      (endFrame ++ lastLine false) = ⟨[], none⟩ := by
  decide +kernel

theorem endFrame_short : ∀ line ∈ complete newline [] endFrame, line.length ≤ 14 := by
  decide +kernel

theorem blankBody_length : maxFrameBytes < blankBody.length := by
  unfold blankBody
  rw [length_append, length_replicate]
  exact Nat.lt_add_of_pos_right (by decide)

/-- Every line is short, and the whole is over the cap. -/
theorem blankBody_cut_off : (∀ line ∈ complete newline [] blankBody, line.length ≤ 14) ∧
    streamWith asciiLine .failure false [blankBody] = ⟨[], some .failure⟩ ∧
    streamWith asciiLine .failure false (bytewise blankBody) = ⟨[], none⟩ ∧
    ¬ Chunkless asciiLine .failure asciiFrame .failure .failure false [blankBody] := by
  have hwhole : streamWith asciiLine .failure false [blankBody] = ⟨[], some .failure⟩ := by
    unfold streamWith
    rw [streamLoop_chunk asciiLine .failure false blankBody [] [] newline_not_nil]
    rw [length_nil, Nat.zero_add, if_pos blankBody_length]
  have hbytes : streamWith asciiLine .failure false (bytewise blankBody) = ⟨[], none⟩ := by
    unfold streamWith
    rw [streamLoop_bytewise asciiLine .failure false blankBody [] newline_not_nil]
    unfold blankBody
    rw [append_assoc, capFeed_blank asciiLine .failure _ cap_pos (by decide)]
    exact endFrame_finishes
  refine ⟨fun line hline => ?_, hwhole, hbytes, fun h => ?_⟩
  · unfold blankBody at hline
    rw [complete_blank] at hline
    rcases mem_append.mp hline with hline | hline
    · rw [(mem_replicate.mp hline).2]
      exact Nat.zero_le _
    · exact endFrame_short line hline
  · have hrust := h.rust
    rw [flatten_singleton, hwhole, hbytes] at hrust
    cases hrust

end Stakit.ClientChunks
