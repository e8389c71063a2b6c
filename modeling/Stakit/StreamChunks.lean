import Stakit.ClaudeFinality
import Stakit.OpenAiFinality

set_option autoImplicit false

namespace Stakit.ProviderStreams

open AgentMessages ExceptLoops List

section
variable {J δ : Type}

/-- A byte in front of more of its line may come on its own. -/
def Piecewise (accept : δ → List UInt8 → Except ProviderError (δ × List (StreamEvent J))) : Prop :=
  ∀ state byte part, byte ≠ newline → part ≠ [] →
    (∃ error, accept state [byte] = .error error ∧ accept state (byte :: part) = .error error) ∨
      ∃ next, accept state [byte] = .ok (next, []) ∧ accept state (byte :: part) = accept next part

variable {accept : δ → List UInt8 → Except ProviderError (δ × List (StreamEvent J))}

def singles (bytes : List UInt8) : List (List UInt8) := bytes.map fun byte => [byte]

theorem splitInclusive_ne_nil {bytes part : List UInt8} (h : part ∈ splitInclusive bytes) :
    part ≠ [] := by
  induction bytes with
  | nil => cases h
  | cons byte rest ih =>
    unfold splitInclusive at h
    split at h
    · rcases mem_cons.mp h with rfl | h
      · exact cons_ne_nil _ _
      · exact ih h
    · split at h
      · rw [mem_singleton.mp h]
        exact cons_ne_nil _ _
      · rename_i first parts hsplit
        rw [hsplit] at ih
        rcases mem_cons.mp h with rfl | h
        · exact cons_ne_nil _ _
        · exact ih (mem_cons_of_mem _ h)

theorem driveParts_ok {state next : δ} {part : List UInt8} (parts : List (List UInt8))
    (h : accept state part = .ok (next, [])) :
    driveParts accept state (part :: parts) = driveParts accept next parts := by
  rw [driveParts, h]
  rfl

theorem driveParts_same {state other : δ} {part last : List UInt8} (parts : List (List UInt8))
    (h : accept state part = accept other last) :
    driveParts accept state (part :: parts) = driveParts accept other (last :: parts) := by
  simp only [driveParts, h]

theorem driveParts_cons_congr {state : δ} {part : List UInt8} {parts others : List (List UInt8)}
    (h : ∀ next, driveParts accept next parts = driveParts accept next others) :
    driveParts accept state (part :: parts) = driveParts accept state (part :: others) := by
  rw [driveParts, driveParts]
  cases accept state part with
  | error error => rfl
  | ok result =>
    obtain ⟨next, events⟩ := result
    dsimp only
    rw [h]

theorem driveParts_singles (hpiecewise : Piecewise accept) (state : δ) (bytes : List UInt8) :
    driveParts accept state (splitInclusive bytes) = driveParts accept state (singles bytes) := by
  induction bytes generalizing state with
  | nil => rfl
  | cons byte rest ih =>
    have hsingles : singles (byte :: rest) = [byte] :: singles rest := rfl
    have hrest : driveParts accept state ([byte] :: splitInclusive rest) =
        driveParts accept state ([byte] :: singles rest) := driveParts_cons_congr ih
    rw [hsingles, ← hrest, splitInclusive]
    split_ifs with hbyte
    · rfl
    · cases hsplit : splitInclusive rest with
      | nil => rfl
      | cons part parts =>
        have hpart := splitInclusive_ne_nil (hsplit ▸ mem_cons_self)
        obtain ⟨error, hsingle, hwhole⟩ | ⟨next, hsingle, hwhole⟩ :=
          hpiecewise state byte part hbyte hpart
        · simp only [driveParts, hsingle, hwhole]
        · rw [driveParts_ok _ hsingle]
          exact driveParts_same parts hwhole

theorem drive_singles (eof : String) (state : δ) (bytes : List UInt8)
    (rest : List (Except String (List UInt8))) :
    drive accept eof state ((singles bytes).map .ok ++ rest) =
      match driveParts accept state (singles bytes) with
      | (items, none) => items
      | (items, some next) => items ++ drive accept eof next rest := by
  induction bytes generalizing state with
  | nil => rfl
  | cons byte bytes ih =>
    have hsplit : splitInclusive [byte] = [[byte]] := by
      unfold splitInclusive
      split_ifs <;> rfl
    change drive accept eof state (.ok [byte] :: ((singles bytes).map .ok ++ rest)) = _
    rw [drive, hsplit]
    change _ = match driveParts accept state ([byte] :: singles bytes) with
      | (items, none) => items
      | (items, some next) => items ++ drive accept eof next rest
    rw [driveParts, driveParts]
    cases accept state [byte] with
    | error error => rfl
    | ok result =>
      obtain ⟨next, events⟩ := result
      dsimp only
      split_ifs with hend
      · rfl
      · rw [driveParts]
        dsimp only
        rw [append_nil, ih]
        obtain ⟨items, _ | last⟩ := driveParts accept next (singles bytes)
        · rfl
        · exact (append_assoc _ _ _).symm

theorem drive_chunks (hpiecewise : Piecewise accept) (eof : String) (state : δ)
    (chunks : List (List UInt8)) (rest : List (Except String (List UInt8))) :
    drive accept eof state (chunks.map .ok ++ rest) =
      drive accept eof state ((singles chunks.flatten).map .ok ++ rest) := by
  induction chunks generalizing state with
  | nil => rfl
  | cons chunk chunks ih =>
    have hsingles : singles (chunk :: chunks).flatten = singles chunk ++ singles chunks.flatten := by
      rw [flatten_cons]
      exact map_append
    rw [hsingles, map_append, append_assoc, drive_singles, map_cons, cons_append,
      drive, driveParts_singles hpiecewise]
    obtain ⟨items, _ | next⟩ := driveParts accept state (singles chunk)
    · rfl
    · exact congrArg (items ++ ·) (ih next)

end

theorem stripNewline_cons (byte : UInt8) {part : List UInt8} (hpart : part ≠ []) :
    stripNewline (byte :: part) = (byte :: (stripNewline part).1, (stripNewline part).2) := by
  unfold stripNewline
  rw [List.getLast?_cons_of_ne_nil hpart, dropLast_cons_of_ne_nil hpart]
  split_ifs <;> rfl

theorem stripNewline_single {byte : UInt8} (hbyte : byte ≠ newline) :
    stripNewline [byte] = ([byte], false) := by
  unfold stripNewline
  rw [List.getLast?_singleton, if_neg fun h => hbyte (Option.some.inj h)]

theorem framer_piecewise (framer : Framer) {byte : UInt8} {part : List UInt8}
    (hbyte : byte ≠ newline) (hpart : part ≠ []) :
    (∃ error, framer.accept [byte] = .error error ∧ framer.accept (byte :: part) = .error error) ∨
      ∃ next, framer.accept [byte] = .ok (next, none) ∧
        framer.accept (byte :: part) = next.accept part := by
  by_cases hlimit : framer.line.length + 1 > maxFrameBytes
  · refine .inl ⟨.decode "SSE line exceeded its byte limit", ?_, ?_⟩
    · unfold Framer.accept
      rw [stripNewline_single hbyte]
      exact if_pos hlimit
    · unfold Framer.accept
      rw [stripNewline_cons byte hpart]
      refine if_pos ?_
      rw [length_cons]
      omega
  · refine .inr ⟨{ framer with line := framer.line ++ [byte] }, ?_, ?_⟩
    · unfold Framer.accept
      rw [stripNewline_single hbyte]
      exact if_neg hlimit
    · unfold Framer.accept
      rw [stripNewline_cons byte hpart]
      dsimp only
      rw [length_append, length_cons, length_singleton, append_assoc,
        singleton_append, Nat.add_assoc, Nat.add_comm 1]

/-- What is retained of an open line and of an open event. -/
structure Framer.Bounded (framer : Framer) : Prop where
  line : framer.line.length ≤ maxFrameBytes
  data : framer.data.utf8ByteSize ≤ maxFrameBytes

theorem bounded_new : Framer.new.Bounded := ⟨Nat.zero_le _, Nat.zero_le _⟩

theorem Framer.Bounded.endLine {framer next : Framer} {line : List Char} {frame : Option Frame}
    (h : framer.Bounded) (hline : framer.endLine line = .ok (next, frame)) : next.Bounded := by
  unfold Framer.endLine at hline
  dsimp only at hline
  split_ifs at hline with hempty hdata hevent hfield hblank hlimit hlimit
  · cases hline
    exact bounded_new
  · cases hline
    exact bounded_new
  · cases hline
    exact ⟨Nat.zero_le _, h.data⟩
  · cases hline
    refine ⟨Nat.zero_le _, ?_⟩
    rw [not_lt] at hlimit
    simp only [String.utf8ByteSize_append]
    exact hlimit
  · cases hline
    refine ⟨Nat.zero_le _, ?_⟩
    rw [not_lt] at hlimit
    simp only [String.utf8ByteSize_append]
    exact hlimit
  · cases hline
    exact ⟨Nat.zero_le _, h.data⟩

theorem Framer.Bounded.accept {framer next : Framer} {part : List UInt8} {frame : Option Frame}
    (h : framer.Bounded) (hpart : framer.accept part = .ok (next, frame)) : next.Bounded := by
  unfold Framer.accept at hpart
  obtain ⟨bytes, complete⟩ := stripNewline part
  dsimp only at hpart
  split_ifs at hpart with hlimit hcomplete
  · split at hpart
    · cases hpart
    · refine Framer.Bounded.endLine ?_ hpart
      refine ⟨?_, h.data⟩
      rw [length_append]
      exact not_lt.mp hlimit
  · cases hpart
    refine ⟨?_, h.data⟩
    rw [length_append]
    exact not_lt.mp hlimit

/-- What is left in a framer by a segment, also by one that it refuses. -/
def Framer.held (framer : Framer) (part : List UInt8) : Framer :=
  match framer.accept part with
  | .ok (next, _) => next
  | .error _ =>
    if framer.line.length + (stripNewline part).1.length > maxFrameBytes then framer
    else { framer with line := framer.line ++ (stripNewline part).1 }

theorem Framer.Bounded.held {framer : Framer} (h : framer.Bounded) (part : List UInt8) :
    (framer.held part).Bounded := by
  unfold Framer.held
  split
  · rename_i next frame hpart
    exact h.accept hpart
  · split_ifs with hlimit
    · exact h
    · refine ⟨?_, h.data⟩
      rw [length_append]
      exact not_lt.mp hlimit

theorem readFrames_bounded {parts : List (List UInt8)} {framer : Framer} {frames : List Frame}
    (h : readFrames parts = .ok (framer, frames)) : framer.Bounded := by
  refine foldlM_invariant readPart (fun state => state.1.Bounded) (fun state part next hpart hs => ?_)
    parts (.new, []) (framer, frames) h bounded_new
  obtain ⟨⟨read, frame⟩, hread, hpart⟩ := (bind_eq_ok _ _ _).mp hpart
  cases hpart
  exact hs.accept hread

end Stakit.ProviderStreams

namespace Stakit.Claude
open AgentMessages ProviderStreams ExceptLoops

theorem accept_piecewise {N : Type} (serde : Serde N) : Piecewise (Decoder.accept serde) := by
  intro decoder byte part hbyte hpart
  obtain ⟨error, hsingle, hwhole⟩ | ⟨next, hsingle, hwhole⟩ :=
    framer_piecewise decoder.framer hbyte hpart
  · refine .inl ⟨error, ?_, ?_⟩
    · rw [Decoder.accept, hsingle]
      rfl
    · rw [Decoder.accept, hwhole]
      rfl
  · refine .inr ⟨{ decoder with framer := next }, ?_, ?_⟩
    · rw [Decoder.accept, hsingle]
      rfl
    · rw [Decoder.accept, hwhole]
      rfl

end Stakit.Claude

namespace Stakit.OpenAi
open AgentMessages ProviderStreams ExceptLoops

theorem accept_piecewise {N : Type} (serde : Serde N) : Piecewise (Decoder.accept serde) := by
  intro decoder byte part hbyte hpart
  obtain ⟨error, hsingle, hwhole⟩ | ⟨next, hsingle, hwhole⟩ :=
    framer_piecewise decoder.framer hbyte hpart
  · refine .inl ⟨error, ?_, ?_⟩
    · rw [Decoder.accept, hsingle]
      rfl
    · rw [Decoder.accept, hwhole]
      rfl
  · refine .inr ⟨{ decoder with framer := next }, ?_, ?_⟩
    · rw [Decoder.accept, hsingle]
      rfl
    · rw [Decoder.accept, hwhole]
      rfl

end Stakit.OpenAi

namespace Stakit.ProviderStreams

/-- Chunks make no difference to what either decoder yields, up to a transport error if there is
one, and its framer keeps at most one bounded line and one bounded event. -/
theorem decode_chunks {N : Type} (serde : Serde N) :
    (∀ (chunks : List (List UInt8)) (rest : List (Except String (List UInt8))),
      Claude.decode serde (chunks.map .ok ++ rest) =
          Claude.decode serde ((singles chunks.flatten).map .ok ++ rest) ∧
        OpenAi.decode serde (chunks.map .ok ++ rest) =
          OpenAi.decode serde ((singles chunks.flatten).map .ok ++ rest)) ∧
    (∀ parts decoder events, Accepted (Claude.Decoder.accept serde) .new parts decoder events →
      decoder.framer.Bounded ∧ ∀ part, (decoder.framer.held part).Bounded) ∧
    ∀ parts decoder events, Accepted (OpenAi.Decoder.accept serde) .new parts decoder events →
      decoder.framer.Bounded ∧ ∀ part, (decoder.framer.held part).Bounded := by
  refine ⟨fun chunks rest => ⟨?_, ?_⟩, fun parts decoder events haccepted => ?_,
    fun parts decoder events haccepted => ?_⟩
  · exact drive_chunks (Claude.accept_piecewise serde) _ _ chunks rest
  · exact drive_chunks (OpenAi.accept_piecewise serde) _ _ chunks rest
  · obtain ⟨frames, wire, hread, -, -⟩ := Claude.accepted_fed haccepted
    exact ⟨readFrames_bounded hread, (readFrames_bounded hread).held⟩
  · obtain ⟨frames, wire, hread, -, -, -⟩ := OpenAi.accepted_fed haccepted
    exact ⟨readFrames_bounded hread, (readFrames_bounded hread).held⟩

end Stakit.ProviderStreams
