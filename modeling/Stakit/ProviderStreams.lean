import Stakit.AgentMessages
import Stakit.SerdeValue

set_option autoImplicit false

namespace Stakit.ProviderStreams
open AgentMessages SerdeJson EntryMaps List

/-- What is left open of `serde_json`: beside `Host`, how the data of a frame is read, with
line and column of an error, and when a number is a `u64`. -/
structure Serde (N : Type) extends Host (Value N) where
  fromSlice : String → Except (ℕ × ℕ) (Value N)
  u64 : N → Option ℕ

inductive ProviderError
  | transport (message : String)
  | decode (err : String)
  | api (status : ℕ) (kind message : String)
deriving DecidableEq

def refuse (condition : Prop) [Decidable condition] (error : ProviderError) :
    Except ProviderError Unit :=
  if condition then .error error else .ok ()

theorem refuse_eq_ok (condition : Prop) [Decidable condition] (error : ProviderError) (u : Unit) :
    refuse condition error = .ok u ↔ ¬condition := by
  unfold refuse
  split_ifs with h
  · exact iff_of_false nofun (not_not.mpr h)
  · exact iff_of_true rfl h

section
variable {N : Type}

def get (value : Value N) (key : String) : Option (Value N) :=
  match value with
  | .object fields => fields.lookup key
  | _ => none

/-- Indexing by a name: `null` when there is no such member. -/
def member (value : Value N) (key : String) : Value N := (get value key).getD .null

def asStr : Value N → Option String
  | .string text => some text
  | _ => none

def asArray : Value N → Option (List (Value N))
  | .array items => some items
  | _ => none

def isObject : Value N → Bool
  | .object _ => true
  | _ => false

def isNull : Value N → Bool
  | .null => true
  | _ => false

def Serde.asU64 (serde : Serde N) : Value N → Option ℕ
  | .number n => serde.u64 n
  | _ => none

def textMember (value : Value N) (key : String) : Option String := (get value key).bind asStr

def Serde.countMember (serde : Serde N) (value : Value N) (key : String) : Option ℕ :=
  (get value key).bind serde.asU64

/-- The unsigned counter `key` of a wire usage object, `0` when absent. -/
def Serde.wireCount (serde : Serde N) (usage : Value N) (key : String) : ℕ :=
  (serde.countMember usage key).getD 0

end

def maxFrameBytes : ℕ := 1024 * 1024
def maxStreamOpenBlocks : ℕ := 64

structure Frame where
  event : Option String
  data : String
deriving DecidableEq

/-- The data of complete lines is text. -/
structure Framer where
  line : List UInt8
  data : String
  event : Option String

def Framer.new : Framer := ⟨[], "", none⟩

def newline : UInt8 := 10

/-- `strip_suffix`: the bytes before a final newline, and whether there is one. -/
def stripNewline (part : List UInt8) : List UInt8 × Bool :=
  if part.getLast? = some newline then (part.dropLast, true) else (part, false)

def stripReturn (line : List Char) : List Char :=
  if line.getLast? = some '\r' then line.dropLast else line

/-- `split_once(':')`, with an optional space after the colon. -/
def splitField (line : List Char) : List Char × List Char :=
  match line.dropWhile (· ≠ ':') with
  | ':' :: ' ' :: value => (line.takeWhile (· ≠ ':'), value)
  | ':' :: value => (line.takeWhile (· ≠ ':'), value)
  | _ => (line, [])

def Framer.endLine (framer : Framer) (line : List Char) :
    Except ProviderError (Framer × Option Frame) :=
  if line = [] then
    if framer.data = "" then .ok (.new, none)
    else .ok (.new, some ⟨framer.event, framer.data⟩)
  else
    let (field, text) := splitField line
    let value := String.ofList text
    if field = "event".toList then .ok ({ framer with line := [], event := some value }, none)
    else if field = "data".toList then
      let separator := if framer.data = "" then "" else "\n"
      if framer.data.utf8ByteSize + separator.utf8ByteSize + value.utf8ByteSize > maxFrameBytes then
        .error (.decode "SSE event exceeded its byte limit")
      else .ok ({ framer with line := [], data := framer.data ++ separator ++ value }, none)
    else .ok ({ framer with line := [] }, none)

def Framer.accept (framer : Framer) (part : List UInt8) :
    Except ProviderError (Framer × Option Frame) :=
  let (bytes, complete) := stripNewline part
  if framer.line.length + bytes.length > maxFrameBytes then
    .error (.decode "SSE line exceeded its byte limit")
  else
    let framer := { framer with line := framer.line ++ bytes }
    if complete then
      match String.fromUTF8? ⟨framer.line.toArray⟩ with
      | none => .error (.decode "SSE line is not valid UTF-8")
      | some line => framer.endLine (stripReturn line.toList)
    else .ok (framer, none)

def splitInclusive : List UInt8 → List (List UInt8)
  | [] => []
  | byte :: rest =>
    if byte = newline then [byte] :: splitInclusive rest
    else
      match splitInclusive rest with
      | [] => [[byte]]
      | part :: parts => (byte :: part) :: parts

/-- The frames of line segments, with what is left of an open one. -/
def readPart (state : Framer × List Frame) (part : List UInt8) :
    Except ProviderError (Framer × List Frame) := do
  let (framer, frame) ← state.1.accept part
  return (framer, state.2 ++ frame.toList)

def readFrames (parts : List (List UInt8)) : Except ProviderError (Framer × List Frame) :=
  parts.foldlM readPart (.new, [])

theorem readFrames_snoc {parts : List (List UInt8)} {framer next : Framer} {frames : List Frame}
    {part : List UInt8} {frame : Option Frame} (h : readFrames parts = .ok (framer, frames))
    (hpart : framer.accept part = .ok (next, frame)) :
    readFrames (parts ++ [part]) = .ok (next, frames ++ frame.toList) := by
  unfold readFrames at h ⊢
  rw [foldlM_append, h]
  change (readPart (framer, frames) part >>= pure) = _
  unfold readPart
  rw [hpart]
  rfl

section
variable {J δ : Type}

def isEnd : StreamEvent J → Bool
  | .finish _ _ => true
  | _ => false

abbrev Item (J : Type) := Except ProviderError (StreamEvent J)

def sent (events : List (StreamEvent J)) : List (Item J) := events.map .ok

theorem sent_append (events more : List (StreamEvent J)) :
    sent (events ++ more) = sent events ++ sent more := map_append

def driveParts (accept : δ → List UInt8 → Except ProviderError (δ × List (StreamEvent J))) :
    δ → List (List UInt8) → List (Item J) × Option δ
  | state, [] => ([], some state)
  | state, part :: parts =>
    match accept state part with
    | .error error => ([.error error], none)
    | .ok (next, events) =>
      if events.any isEnd then
        (sent (events.takeWhile (!isEnd ·) ++ (events.dropWhile (!isEnd ·)).head?.toList), none)
      else
        let (items, left) := driveParts accept next parts
        (sent events ++ items, left)

def drive (accept : δ → List UInt8 → Except ProviderError (δ × List (StreamEvent J)))
    (eof : String) : δ → List (Except String (List UInt8)) → List (Item J)
  | _, [] => [.error (.transport eof)]
  | _, .error message :: _ => [.error (.transport message)]
  | state, .ok chunk :: chunks =>
    match driveParts accept state (splitInclusive chunk) with
    | (items, none) => items
    | (items, some next) => items ++ drive accept eof next chunks

/-- The line segments of a body, up to a transport error. -/
def segments : List (Except String (List UInt8)) → List (List UInt8)
  | [] | .error _ :: _ => []
  | .ok chunk :: chunks => splitInclusive chunk ++ segments chunks

/-- Segments that a decoder has accepted without its terminal event. -/
inductive Accepted (accept : δ → List UInt8 → Except ProviderError (δ × List (StreamEvent J)))
    (start : δ) : List (List UInt8) → δ → List (StreamEvent J) → Prop
  | nil : Accepted accept start [] start []
  | snoc {parts : List (List UInt8)} {state next : δ} {events more : List (StreamEvent J)}
      {part : List UInt8} (h : Accepted accept start parts state events)
      (hpart : accept state part = .ok (next, more)) (hmore : ∀ event ∈ more, isEnd event = false) :
      Accepted accept start (parts ++ [part]) next (events ++ more)

/-- A stream is one error after events that are not terminal. -/
def Fails (items : List (Item J)) : Prop :=
  ∃ events error, (∀ event ∈ events, isEnd event = false) ∧ items = sent events ++ [.error error]

structure Ends (accept : δ → List UInt8 → Except ProviderError (δ × List (StreamEvent J)))
    (start : δ) (parts : List (List UInt8)) (items : List (Item J)) : Prop where
  accepted : ∃ before last rest state next events more stop usage after,
    parts = before ++ last :: rest ∧ Accepted accept start before state events ∧
    accept state last = .ok (next, more ++ .finish stop usage :: after) ∧
    (∀ event ∈ events ++ more, isEnd event = false) ∧
    items = sent (events ++ more) ++ [.ok (.finish stop usage)]

theorem Accepted.quiet {accept : δ → List UInt8 → Except ProviderError (δ × List (StreamEvent J))}
    {start state : δ} {parts : List (List UInt8)} {events : List (StreamEvent J)}
    (h : Accepted accept start parts state events) : ∀ event ∈ events, isEnd event = false := by
  induction h with
  | nil => exact nofun
  | snoc h hpart hmore ih =>
    intro event hevent
    exact (mem_append.mp hevent).elim (ih event) (hmore event)

theorem split_at_end (events : List (StreamEvent J)) (h : events.any isEnd = true) :
    ∃ before stop usage after, events = before ++ .finish stop usage :: after ∧
      (∀ event ∈ before, isEnd event = false) ∧
      events.takeWhile (!isEnd ·) ++ (events.dropWhile (!isEnd ·)).head?.toList =
        before ++ [.finish stop usage] := by
  induction events with
  | nil => cases h
  | cons event events ih =>
    by_cases hend : isEnd event = true
    · cases event with
      | finish stop usage =>
        exact ⟨[], stop, usage, events, rfl, nofun, rfl⟩
      | _ => cases hend
    · have hnot : isEnd event = false := Bool.eq_false_of_not_eq_true hend
      rw [any_cons, hnot, Bool.false_or] at h
      obtain ⟨before, stop, usage, after, hsplit, hbefore, htaken⟩ := ih h
      refine ⟨event :: before, stop, usage, after, by rw [hsplit, cons_append],
        forall_mem_cons.mpr ⟨hnot, hbefore⟩, ?_⟩
      have hkeeps : (!isEnd event) = true := by rw [hnot]; rfl
      rw [takeWhile_cons_of_pos (p := (!isEnd ·)) hkeeps,
        dropWhile_cons_of_pos (p := (!isEnd ·)) hkeeps, cons_append, htaken,
        cons_append]

theorem driveParts_outcome
    (accept : δ → List UInt8 → Except ProviderError (δ × List (StreamEvent J))) (start : δ)
    (before parts rest : List (List UInt8)) (state : δ) (events : List (StreamEvent J))
    (h : Accepted accept start before state events) :
    (∃ next more, driveParts accept state parts = (sent more, some next) ∧
        Accepted accept start (before ++ parts) next (events ++ more)) ∨
      ∃ items, driveParts accept state parts = (items, none) ∧ (Fails (sent events ++ items) ∨
          Ends accept start (before ++ (parts ++ rest)) (sent events ++ items)) := by
  induction parts generalizing before state events with
  | nil => exact Or.inl ⟨state, [], rfl, by rwa [append_nil, append_nil]⟩
  | cons part parts ih =>
    cases hpart : accept state part with
    | error error =>
      refine Or.inr ⟨[.error error], ?_, Or.inl ⟨events, error, h.quiet, rfl⟩⟩
      rw [driveParts, hpart]
    | ok result =>
      obtain ⟨next, more⟩ := result
      by_cases hend : more.any isEnd = true
      · obtain ⟨first, stop, usage, after, rfl, hfirst, htaken⟩ := split_at_end more hend
        have hdrive : driveParts accept state (part :: parts) =
            (sent (first ++ [.finish stop usage]), none) := by
          rw [driveParts, hpart]
          dsimp only
          rw [if_pos hend, htaken]
        refine Or.inr ⟨_, hdrive, Or.inr ⟨before, part, parts ++ rest, state, next, events, first,
          stop, usage, after, by rw [cons_append], h, hpart, ?_, ?_⟩⟩
        · intro event hevent
          exact (mem_append.mp hevent).elim (h.quiet event) (hfirst event)
        · rw [sent_append, sent_append, append_assoc]
          rfl
      · have hquiet : ∀ event ∈ more, isEnd event = false := by
          intro event hevent
          exact Bool.eq_false_of_not_eq_true fun htrue =>
            hend (any_eq_true.mpr ⟨event, hevent, htrue⟩)
        have hdrive : driveParts accept state (part :: parts) =
            (sent more ++ (driveParts accept next parts).1, (driveParts accept next parts).2) := by
          rw [driveParts, hpart]
          dsimp only
          rw [if_neg hend]
        have hnext := h.snoc hpart hquiet
        obtain ⟨last, later, hlater, haccepted⟩ | ⟨items, hitems, hended⟩ :=
          ih (before ++ [part]) next (events ++ more) hnext
        · refine Or.inl ⟨last, more ++ later, ?_, ?_⟩
          · rw [hdrive, hlater, sent_append]
          · rwa [append_assoc, append_assoc] at haccepted
        · refine Or.inr ⟨sent more ++ items, by rw [hdrive, hitems], ?_⟩
          rwa [append_assoc, sent_append, append_assoc] at hended

theorem drive_outcome
    (accept : δ → List UInt8 → Except ProviderError (δ × List (StreamEvent J))) (eof : String)
    (start : δ) (chunks : List (Except String (List UInt8))) :
    Fails (drive accept eof start chunks) ∨
      Ends accept start (segments chunks) (drive accept eof start chunks) := by
  have hall : ∀ before state events, Accepted accept start before state events →
      Fails (sent events ++ drive accept eof state chunks) ∨
        Ends accept start (before ++ segments chunks)
          (sent events ++ drive accept eof state chunks) := by
    induction chunks with
    | nil => exact fun before state events h => Or.inl ⟨events, _, h.quiet, rfl⟩
    | cons chunk chunks ih =>
      intro before state events h
      cases chunk with
      | error message => exact Or.inl ⟨events, _, h.quiet, rfl⟩
      | ok chunk =>
        obtain ⟨next, more, hmore, haccepted⟩ | ⟨items, hitems, hended⟩ :=
          driveParts_outcome accept start before (splitInclusive chunk) (segments chunks) state
            events h
        · have hrest := ih _ next _ haccepted
          rw [sent_append, append_assoc, append_assoc] at hrest
          rw [drive, hmore]
          exact hrest
        · rw [drive, hitems]
          exact hended
  exact hall [] start [] .nil

end

end Stakit.ProviderStreams
