import Stakit.AgentAuthorization

set_option autoImplicit false

namespace Stakit.AgentRun
open AgentMessages EntryMaps TransitionRuns List

section
variable {M J : Type}

def lastReported (received : List (StreamEvent J)) : Usage :=
  ((received.filterMap reported).getLast?).getD .zero

def endUsage (received : List (StreamEvent J)) : Option Usage :=
  match received.getLast? with
  | some (.finish _ usage) => some usage
  | _ => none

def textBytes : StreamEvent J → ℕ
  | .textDelta text => text.utf8ByteSize
  | _ => 0

def reasoningBytes : StreamEvent J → ℕ
  | .reasoningDelta text => text.utf8ByteSize
  | _ => 0

def contentTextBytes : AssistantContent J → ℕ
  | .text text => text.utf8ByteSize
  | _ => 0

def contentReasoningBytes : AssistantContent J → ℕ
  | .thinking (.visible text _) => text.utf8ByteSize
  | _ => 0

def ofBlock (bytes : AssistantContent J → ℕ) : StreamEvent J → ℕ
  | .assistantBlock _ content => bytes content
  | _ => 0

def total (bytes : StreamEvent J → ℕ) (events : List (StreamEvent J)) : ℕ :=
  (events.map bytes).sum

def orElse (deltas blocks : ℕ) : ℕ := if deltas = 0 then blocks else deltas

def streamedBytes (events : List (StreamEvent J)) : ℕ :=
  saturatingAdd (orElse (total textBytes events) (total (ofBlock contentTextBytes) events))
    (orElse (total reasoningBytes events) (total (ofBlock contentReasoningBytes) events))

/-- The events that the agent took: it refuses one that breaks the limits of a response, and
that one is the last. -/
def taken (host : Host J) (received : List (StreamEvent J)) : List (StreamEvent J) :=
  if (accumulate host received).protocolError = none then received else received.dropLast

/-- An accumulator holds what the events say. -/
structure Tally (acc : StepAccum J) (events : List (StreamEvent J)) : Prop where
  usage : acc.stepUsage = lastReported events
  text : acc.text.utf8ByteSize = total textBytes events
  reasoning : acc.reasoning.utf8ByteSize = total reasoningBytes events
  blockText : (blockText acc.blocks).utf8ByteSize = total (ofBlock contentTextBytes) events
  blockReasoning :
    (blockReasoning acc.blocks).utf8ByteSize = total (ofBlock contentReasoningBytes) events

theorem total_snoc (bytes : StreamEvent J → ℕ) (events : List (StreamEvent J))
    (event : StreamEvent J) : total bytes (events ++ [event]) = total bytes events + bytes event := by
  unfold total
  rw [map_append, sum_append]
  rfl

theorem lastReported_snoc (events : List (StreamEvent J)) (event : StreamEvent J) :
    lastReported (events ++ [event]) = (reported event).getD (lastReported events) := by
  unfold lastReported
  rw [filterMap_append]
  cases hreported : reported event with
  | none => rw [filterMap_cons_none hreported, filterMap_nil, append_nil]; rfl
  | some usage =>
    rw [filterMap_cons_some hreported, filterMap_nil, List.getLast?_concat]
    rfl

variable (acc : StepAccum J) (blocks : List (AssistantContent J)) (text : String)

theorem textSize_foldl : (blocks.foldl (fun text block =>
      match block with
      | .text value => text ++ value
      | _ => text) text).utf8ByteSize =
      text.utf8ByteSize + (blocks.map contentTextBytes).sum := by
  induction blocks generalizing text with
  | nil => rfl
  | cons block blocks ih =>
    rw [foldl_cons, ih, map_cons, sum_cons, ← Nat.add_assoc]
    cases block with
    | text value => rw [String.utf8ByteSize_append]; rfl
    | _ => rfl

theorem reasoningSize_foldl : (blocks.foldl (fun reasoning block =>
      match block with
      | .thinking (.visible text _) => reasoning ++ text
      | _ => reasoning) text).utf8ByteSize =
      text.utf8ByteSize + (blocks.map contentReasoningBytes).sum := by
  induction blocks generalizing text with
  | nil => rfl
  | cons block blocks ih =>
    rw [foldl_cons, ih, map_cons, sum_cons, ← Nat.add_assoc]
    cases block with
    | thinking thinking =>
      cases thinking with
      | visible value signature => rw [String.utf8ByteSize_append]; rfl
      | redacted data => rfl
    | _ => rfl

theorem blockText_size : (blockText blocks).utf8ByteSize = (blocks.map contentTextBytes).sum :=
  (textSize_foldl blocks "").trans (Nat.zero_add _)

theorem blockReasoning_size :
    (blockReasoning blocks).utf8ByteSize = (blocks.map contentReasoningBytes).sum :=
  (reasoningSize_foldl blocks "").trans (Nat.zero_add _)

theorem sum_insertSorted (bytes : AssistantContent J → ℕ)
    {entries : Entries ℕ (AssistantContent J)} {index : ℕ} (content : AssistantContent J)
    (h : index ∉ entries.map Prod.fst) :
    ((insertSorted entries index content).map fun entry => bytes entry.2).sum =
      (entries.map fun entry => bytes entry.2).sum + bytes content := by
  rw [((perm_insertSorted entries index content h).map fun entry => bytes entry.2).sum_nat,
    map_cons, sum_cons, Nat.add_comm]

theorem Tally.same {acc next : StepAccum J} {events : List (StreamEvent J)} (h : Tally acc events)
    (husage : next.stepUsage = acc.stepUsage) (htext : next.text = acc.text)
    (hreasoning : next.reasoning = acc.reasoning)
    (hblocks : next.completeBlocks = acc.completeBlocks) : Tally next events := by
  have hsame : next.blocks = acc.blocks := congrArg (List.map Prod.snd) hblocks
  refine ⟨husage.trans h.usage, ?_, ?_, ?_, ?_⟩
  · rw [htext, h.text]
  · rw [hreasoning, h.reasoning]
  · rw [hsame, h.blockText]
  · rw [hsame, h.blockReasoning]

def StepAccum.sumBlocks (acc : StepAccum J) (bytes : AssistantContent J → ℕ) : ℕ :=
  (acc.completeBlocks.map fun entry => bytes entry.2).sum

theorem blockText_sum :
    (blockText acc.blocks).utf8ByteSize = StepAccum.sumBlocks acc contentTextBytes := by
  rw [blockText_size, StepAccum.blocks, map_map]
  rfl

theorem blockReasoning_sum :
    (blockReasoning acc.blocks).utf8ByteSize = StepAccum.sumBlocks acc contentReasoningBytes := by
  rw [blockReasoning_size, StepAccum.blocks, map_map]
  rfl

theorem Tally.snoc {acc next : StepAccum J} {events : List (StreamEvent J)}
    {event : StreamEvent J} (h : Tally acc events)
    (husage : next.stepUsage = (reported event).getD acc.stepUsage)
    (htext : next.text.utf8ByteSize = acc.text.utf8ByteSize + textBytes event)
    (hreasoning : next.reasoning.utf8ByteSize = acc.reasoning.utf8ByteSize + reasoningBytes event)
    (hblocks : ∀ bytes, StepAccum.sumBlocks next bytes =
      StepAccum.sumBlocks acc bytes + ofBlock bytes event) : Tally next (events ++ [event]) where
  usage := by rw [lastReported_snoc, husage, h.usage]
  text := by rw [total_snoc, htext, h.text]
  reasoning := by rw [total_snoc, hreasoning, h.reasoning]
  blockText := by rw [total_snoc, blockText_sum, hblocks, ← blockText_sum, h.blockText]
  blockReasoning := by
    rw [total_snoc, blockReasoning_sum, hblocks, ← blockReasoning_sum, h.blockReasoning]

theorem tally_empty : Tally (StepAccum.empty : StepAccum J) [] := ⟨rfl, rfl, rfl, rfl, rfl⟩

/-- What one event does to a tally: it counts, or it is refused and reports no usage. -/
theorem apply_tally (host : Host J) {acc : StepAccum J} {events : List (StreamEvent J)}
    (event : StreamEvent J) (herror : acc.protocolError = none)
    (hbounded : acc.deltaBytes ≤ maxStreamResponseBytes) (h : Tally acc events) :
    ((acc.apply host event).1.protocolError = none ∧
        Tally (acc.apply host event).1 (events ++ [event]) ∧
        (acc.apply host event).1.deltaBytes ≤ maxStreamResponseBytes) ∨
      ((acc.apply host event).1.protocolError ≠ none ∧ reported event = none ∧
        Tally (acc.apply host event).1 events) := by
  unfold StepAccum.apply
  dsimp only
  split_ifs with hover
  · refine Or.inr ⟨Option.some_ne_none _, ?_, h.same rfl rfl rfl rfl⟩
    have hfree : event.deltaBytes ≠ 0 := by
      intro hzero
      rw [hzero] at hover
      have hsum : saturatingAdd acc.deltaBytes 0 ≤ acc.deltaBytes := Nat.min_le_left _ _
      exact hover.elim (fun hblock => absurd hblock (Nat.not_lt_zero _))
        fun hall => absurd (hsum.trans hbounded) (not_le.mpr hall)
    cases event with
    | start usage | usage usage | finish stop usage => exact absurd rfl hfree
    | _ => rfl
  · have hfits := not_lt.mp (not_or.mp hover).2
    cases event with
    | start usage | usage usage =>
      exact Or.inl ⟨herror, h.snoc rfl rfl rfl fun bytes => rfl, hfits⟩
    | textDelta text =>
      exact Or.inl ⟨herror, h.snoc rfl (String.utf8ByteSize_append ..) rfl fun bytes => rfl, hfits⟩
    | reasoningDelta text =>
      exact Or.inl ⟨herror, h.snoc rfl rfl (String.utf8ByteSize_append ..) fun bytes => rfl, hfits⟩
    | signatureDelta text | finish stop usage =>
      exact Or.inl ⟨herror, h.snoc rfl rfl rfl fun bytes => rfl, hfits⟩
    | assistantBlock index content =>
      dsimp only
      unfold StepAccum.applyBlock
      dsimp only
      split_ifs with hrefused
      · exact Or.inr ⟨Option.some_ne_none _, rfl, h.same rfl rfl rfl rfl⟩
      · rw [not_or, not_or, not_or] at hrefused
        refine Or.inl ⟨herror, h.snoc rfl rfl rfl fun bytes => ?_, hfits⟩
        exact sum_insertSorted bytes content hrefused.2.2.2
    | toolCall id name arguments =>
      dsimp only
      unfold StepAccum.applyCall
      split_ifs
      · exact Or.inr ⟨Option.some_ne_none _, rfl, h.same rfl rfl rfl rfl⟩
      · exact Or.inl ⟨herror, h.snoc rfl rfl rfl fun bytes => rfl, hfits⟩

theorem Clear.tally {host : Host J} {received : List (StreamEvent J)} (h : Clear host received) :
    Tally (accumulate host received) received ∧
      (accumulate host received).deltaBytes ≤ maxStreamResponseBytes := by
  induction received using List.reverseRecOn with
  | nil => exact ⟨tally_empty, Nat.zero_le _⟩
  | append_singleton received event ih =>
    obtain ⟨htally, hbounded⟩ := ih h.init
    have herror := h.error
    rw [accumulate_snoc] at herror ⊢
    obtain ⟨-, hnext⟩ | ⟨hrefused, -⟩ :=
      apply_tally host event h.init.error hbounded htally
    · exact hnext
    · exact absurd herror hrefused

def Heard (host : Host J) (received : List (StreamEvent J)) : Prop :=
  ∃ before event, received = before ++ [event] ∧ Clear host before

theorem Heard.tally {host : Host J} {received : List (StreamEvent J)} (h : Heard host received) :
    Tally (accumulate host received) (taken host received) ∧
      lastReported (taken host received) = lastReported received := by
  obtain ⟨before, event, rfl, hclear⟩ := h
  obtain ⟨htally, hbounded⟩ := hclear.tally
  unfold taken
  rw [accumulate_snoc, dropLast_concat]
  obtain ⟨hnone, hnext, -⟩ | ⟨hrefused, hsilent, hnext⟩ :=
    apply_tally host event hclear.error hbounded htally
  · rw [if_pos hnone]
    exact ⟨hnext, rfl⟩
  · rw [if_neg hrefused, lastReported_snoc, hsilent]
    exact ⟨hnext, rfl⟩

/-- What a run owes for: a request that was cancelled in flight, or a response with the events
that came for it. -/
inductive Billed (J : Type)
  | unanswered (request : ChatRequest J)
  | response (request : ChatRequest J) (received : List (StreamEvent J))

def reportsInput (usage : Usage) : Bool :=
  usage.inputTokens ≠ 0 || usage.cacheCreateTokens ≠ 0 || usage.cacheReadTokens ≠ 0

def promptUsage (host : Host J) (request : ChatRequest J) : Usage :=
  { Usage.zero with inputTokens := estimatedPromptTokens host request }

/-- The response passes the checks on its blocks. -/
def accepted [DecidableEq J] (host : Host J) (received : List (StreamEvent J)) : Bool :=
  (accumulate host received).captureCompleteText.validateBlocks.isOk

def completion [DecidableEq J] (host : Host J) (received : List (StreamEvent J)) : Option Usage :=
  if accepted host received then endUsage received else none

def interruption (host : Host J) (received : List (StreamEvent J)) : Usage :=
  { lastReported received with
    outputTokens := max (lastReported received).outputTokens
      (estimatedTokens (streamedBytes (taken host received))) }

/-- An interrupted response that has reported no input is charged its estimated prompt. -/
def charge [DecidableEq J] (host : Host J) : Billed J → Usage
  | .unanswered request => promptUsage host request
  | .response request received =>
    match completion host received with
    | some usage => usage
    | none =>
      if reportsInput (lastReported received) then interruption host received
      else
        { interruption host received with inputTokens := estimatedPromptTokens host request }

/-- A response that was interrupted had reported its input. -/
def Billed.Covered [DecidableEq J] (host : Host J) : Billed J → Prop
  | .unanswered _ => True
  | .response request received =>
    (completion host received).isSome ∨ reportsInput (lastReported received) ∨
      estimatedPromptTokens host request = 0

def recorded [DecidableEq J] (host : Host J) : Billed J → Usage
  | .unanswered request => promptUsage host request
  | .response _ received => (completion host received).getD (interruption host received)

theorem recorded_eq_charge_iff [DecidableEq J] (host : Host J) (billed : Billed J) :
    recorded host billed = charge host billed ↔ billed.Covered host := by
  cases billed with
  | unanswered request => exact iff_of_true rfl trivial
  | response request received =>
    dsimp only [recorded, charge, Billed.Covered]
    cases completion host received with
    | some usage => exact iff_of_true rfl (Or.inl rfl)
    | none =>
      dsimp only [Option.getD_none, Option.isSome_none]
      by_cases hreports : reportsInput (lastReported received) = true
      · rw [if_pos hreports]
        exact iff_of_true rfl (Or.inr (Or.inl hreports))
      · have hinput : (interruption host received).inputTokens = 0 := by
          unfold reportsInput at hreports
          simp only [Bool.or_eq_true, decide_eq_true_eq, not_or, not_not] at hreports
          exact hreports.1.1
        rw [if_neg hreports]
        constructor
        · intro heq
          have htokens := congrArg Usage.inputTokens heq
          rw [hinput] at htokens
          exact Or.inr (Or.inr htokens.symm)
        · rintro (hnever | hnever | hzero)
          · cases hnever
          · exact absurd hnever hreports
          · rw [hzero, ← hinput]

theorem endUsage_snoc (before : List (StreamEvent J)) (event : StreamEvent J) :
    endUsage (before ++ [event]) = match event with
      | .finish _ usage => some usage
      | _ => none := by
  unfold endUsage
  rw [List.getLast?_concat]
  cases event <;> rfl

theorem validateBlocks_keeps [DecidableEq J] {acc valid : StepAccum J}
    (h : acc.validateBlocks = .ok valid) :
    valid.stop = acc.stop ∧ valid.stepUsage = acc.stepUsage ∧ valid.text = acc.text ∧
      valid.reasoning = acc.reasoning := by
  obtain ⟨-, -, ⟨calls, rfl⟩, -⟩ := validateBlocks_ok h
  exact ⟨rfl, rfl, rfl, rfl⟩

theorem Heard.stop_iff {host : Host J} {received : List (StreamEvent J)}
    (h : Heard host received) :
    (accumulate host received).stop.isSome ↔ (endUsage received).isSome := by
  obtain ⟨before, event, rfl, hclear⟩ := h
  have happlied := apply_applied host (accumulate host before) event
  obtain ⟨htally, hbounded⟩ := hclear.tally
  rw [accumulate_snoc, endUsage_snoc]
  constructor
  · intro hstop
    obtain ⟨stop, hstop⟩ := Option.isSome_iff_exists.mp hstop
    obtain hold | ⟨usage, rfl⟩ := happlied.stop stop hstop
    · rw [hclear.stop] at hold
      cases hold
    · rfl
  · intro hend
    cases event with
    | finish stop usage =>
      obtain ⟨hnone, -⟩ | ⟨-, hsilent, -⟩ :=
        apply_tally host (.finish stop usage) hclear.error hbounded htally
      · unfold StepAccum.apply at hnone ⊢
        dsimp only at hnone ⊢
        split_ifs at hnone ⊢
        rfl
      · cases hsilent
    | _ => cases hend

theorem endUsage_last {received : List (StreamEvent J)} {usage : Usage}
    (h : endUsage received = some usage) : lastReported received = usage := by
  induction received using List.reverseRecOn with
  | nil => cases h
  | append_singleton before event =>
    rw [endUsage_snoc] at h
    rw [lastReported_snoc]
    cases event with
    | finish stop final => exact Option.some.inj h
    | _ => cases h

theorem size_orElse (blocks : String) : (if text = "" then blocks else text).utf8ByteSize =
      orElse text.utf8ByteSize blocks.utf8ByteSize := by
  unfold orElse
  by_cases hempty : text = ""
  · rw [if_pos hempty, if_pos (String.utf8ByteSize_eq_zero_iff.mpr hempty)]
  · rw [if_neg hempty, if_neg (hempty ∘ String.utf8ByteSize_eq_zero_iff.mp)]

theorem Heard.partialUsage {host : Host J} {received : List (StreamEvent J)}
    (h : Heard host received) :
    (accumulate host received).captureCompleteText.partialUsage = interruption host received := by
  obtain ⟨htally, hlast⟩ := h.tally
  have htext := size_orElse (accumulate host received).text
    (blockText (accumulate host received).blocks)
  have hreasoning := size_orElse (accumulate host received).reasoning
    (blockReasoning (accumulate host received).blocks)
  rw [htally.text, htally.blockText] at htext
  rw [htally.reasoning, htally.blockReasoning] at hreasoning
  unfold StepAccum.partialUsage StepAccum.captureCompleteText interruption streamedBytes
  dsimp only
  rw [htext, hreasoning, htally.usage, hlast]

theorem partialUsage_valid [DecidableEq J] {acc valid : StepAccum J}
    (h : acc.validateBlocks = .ok valid) : valid.partialUsage = acc.partialUsage := by
  obtain ⟨-, husage, htext, hreasoning⟩ := validateBlocks_keeps h
  unfold StepAccum.partialUsage
  rw [husage, htext, hreasoning]

theorem completion_none [DecidableEq J] {host : Host J} {received : List (StreamEvent J)}
    (h : Heard host received)
    (hopen : accepted host received = false ∨ (accumulate host received).stop = none) :
    completion host received = none := by
  unfold completion
  split_ifs with haccepted
  · obtain hrefused | hstop := hopen
    · rw [hrefused] at haccepted
      cases haccepted
    · have hiff := h.stop_iff
      rw [hstop] at hiff
      exact Option.not_isSome_iff_eq_none.mp (mt hiff.mpr (by decide))
  · rfl

theorem responseOf_usage (request : ChatRequest J) (received : List (StreamEvent J))
    (cancelled : Bool) (acc : StepAccum J) (stop : StopReason) :
    (responseOf request received cancelled acc stop).usage = acc.stepUsage := by
  change (StepAccum.keep acc _).stepUsage = _
  cases terminalFailure stop (!acc.toolCalls.isEmpty) <;> rfl

theorem Grounded.usage [DecidableEq J] {host : Host J} {response : Response J}
    (h : Grounded host response) :
    response.usage = recorded host (.response response.request response.received) := by
  obtain ⟨valid, hvalid, hstop, hresponse⟩ := h.valid
  have hheard : Heard host response.received := h.events
  obtain ⟨htally, hlast⟩ := hheard.tally
  obtain ⟨hkept, husage, -⟩ := validateBlocks_keeps hvalid
  have hsome : (accumulate host response.received).stop = some response.stop :=
    hkept.symm.trans hstop
  obtain ⟨usage, hend⟩ := Option.isSome_iff_exists.mp
    (hheard.stop_iff.mp (by rw [hsome]; rfl))
  have haccepted : accepted host response.received = true := by
    unfold accepted
    rw [hvalid]
    rfl
  have hcompletion : completion host response.received = some usage := by
    unfold completion
    rw [if_pos haccepted, hend]
  have hrecorded : recorded host (.response response.request response.received) = usage := by
    change (completion host response.received).getD _ = usage
    rw [hcompletion]
    rfl
  have hfinal : response.usage = valid.stepUsage :=
    (congrArg Response.usage hresponse).trans (responseOf_usage _ _ _ _ _)
  rw [hrecorded, hfinal, husage]
  exact htally.usage.trans (hlast.trans (endUsage_last hend))

/-- The counters are `u64` values. -/
structure Fits (usage : Usage) : Prop where
  input : usage.inputTokens ≤ 2 ^ 64 - 1
  output : usage.outputTokens ≤ 2 ^ 64 - 1
  cacheCreate : usage.cacheCreateTokens ≤ 2 ^ 64 - 1
  cacheCreate1h : usage.cacheCreate1hTokens ≤ 2 ^ 64 - 1
  cacheRead : usage.cacheReadTokens ≤ 2 ^ 64 - 1
  reasoning : usage.reasoningTokens ≤ 2 ^ 64 - 1

theorem fits_merge (usage other : Usage) : Fits (usage.merge other) :=
  ⟨min_le_right _ _, min_le_right _ _, min_le_right _ _, min_le_right _ _, min_le_right _ _,
    min_le_right _ _⟩

theorem Fits.merge_zero {usage : Usage} (h : Fits usage) : usage.merge .zero = usage := by
  have hsame : ∀ count, count ≤ 2 ^ 64 - 1 → saturatingAdd count 0 = count :=
    fun count hcount => min_eq_left hcount
  unfold Usage.merge
  dsimp only [Usage.zero]
  rw [hsame _ h.input, hsame _ h.output, hsame _ h.cacheCreate, hsame _ h.cacheCreate1h,
    hsame _ h.cacheRead, hsame _ h.reasoning]

def hearNext (billed : List (Billed J)) (event : StreamEvent J) : List (Billed J) :=
  match billed.getLast? with
  | some (.response request received) =>
    billed.dropLast ++ [.response request (received ++ [event])]
  | _ => billed

/-- What the provider's answers and a cancellation add to the bill: the first event opens a
response, and the next ones belong to it. -/
def bill (r : Run M J) (billed : List (Billed J)) : Input J → List (Billed J)
  | .cancel => billed
  | input =>
    match r.point with
    | .attempting request _ =>
      if r.agent.cancelled then billed ++ [.unanswered request]
      else
        match input with
        | .first event => billed ++ [.response request [event]]
        | _ => billed
    | .drain _ _ _ =>
      if r.agent.cancelled then billed
      else
        match input with
        | .next event => hearNext billed event
        | _ => billed
    | _ => billed

structure Metered (M J : Type) where
  run : Run M J
  billed : List (Billed J)

def meter [DecidableEq J] (host : Host J) (metered : Metered M J) (input : Input J) :
    Metered M J where
  run := step host metered.run input
  billed := bill metered.run metered.billed input

def Metered.of (agent : Agent M J) : Metered M J := ⟨Run.of agent, []⟩

theorem meter_run [DecidableEq J] (host : Host J) (metered : Metered M J)
    (inputs : List (Input J)) :
    (run (meter host) metered inputs).run = run (step host) metered.run inputs := by
  induction inputs generalizing metered with
  | nil => rfl
  | cons input inputs ih => exact ih (meter host metered input)

def Point.unsettled : Point J → Option (ChatRequest J × List (StreamEvent J))
  | .folding request received _ event => some (request, received ++ [event])
  | .delta request received _ | .folded request received _ | .drain request received _
  | .drained request received _ _ => some (request, received)
  | .respond response => some (response.request, response.received)
  | _ => none

/-- What a run has been billed for, without a response that is not recorded yet. -/
def Metered.settled (metered : Metered M J) : List (Billed J) :=
  if metered.run.point.unsettled.isSome then metered.billed.dropLast else metered.billed

def Point.hears : Point J → Bool
  | .attempting _ _ | .drain _ _ _ => true
  | _ => false

theorem bill_quiet {r : Run M J} (h : r.point.hears = false) (billed : List (Billed J))
    (input : Input J) : bill r billed input = billed := by
  cases hpoint : r.point with
  | attempting request attempt | drain request received acc =>
    rw [hpoint] at h
    cases h
  | _ =>
    unfold bill
    rw [hpoint]
    cases input <;> rfl

/-- What one step does to the usage, the bill and the response that is not recorded yet. -/
inductive Accounts [DecidableEq J] (host : Host J) (r next : Run M J) (input : Input J) : Prop
  | quiet (hbill : ∀ billed, bill r billed input = billed)
      (husage : next.agent.usage = r.agent.usage)
      (hopen : next.point.unsettled = r.point.unsettled)
  | unanswered (request : ChatRequest J)
      (hbill : ∀ billed, bill r billed input = billed ++ [.unanswered request])
      (husage : next.agent.usage = r.agent.usage.merge (promptUsage host request))
      (hopen : r.point.unsettled = none) (hnext : next.point.unsettled = none)
  | first (request : ChatRequest J) (event : StreamEvent J)
      (hbill : ∀ billed, bill r billed input = billed ++ [.response request [event]])
      (husage : next.agent.usage = r.agent.usage) (hopen : r.point.unsettled = none)
      (hnext : next.point.unsettled = some (request, [event]))
  | next (request : ChatRequest J) (received : List (StreamEvent J)) (event : StreamEvent J)
      (hbill : ∀ billed, bill r billed input = hearNext billed event)
      (husage : next.agent.usage = r.agent.usage)
      (hopen : r.point.unsettled = some (request, received))
      (hnext : next.point.unsettled = some (request, received ++ [event]))
  | settled (request : ChatRequest J) (received : List (StreamEvent J))
      (hbill : ∀ billed, bill r billed input = billed)
      (husage : next.agent.usage = r.agent.usage.merge (recorded host (.response request received)))
      (hopen : r.point.unsettled = some (request, received)) (hnext : next.point.unsettled = none)

theorem Accounts.stays [DecidableEq J] {host : Host J} {r next : Run M J} {input : Input J}
    (hhears : r.point.hears = false) (husage : next.agent.usage = r.agent.usage)
    (hopen : next.point.unsettled = r.point.unsettled) : Accounts host r next input :=
  .quiet (fun billed => bill_quiet hhears billed input) husage hopen

/-- A response whose stream was left early has no terminal event. -/
def Run.LeftOpen (r : Run M J) : Prop :=
  match r.point with
  | .drained _ _ _ .none => True
  | .drained _ _ acc _ => acc.stop = none
  | _ => True

theorem CutShort.recorded [DecidableEq J] {host : Host J} {r : Run M J} {request : ChatRequest J}
    {received : List (StreamEvent J)} {acc part : StepAccum J} {cut : Cut} {finish : Finish}
    {keep : Bool} (hcut : CutShort r acc.captureCompleteText cut part finish keep)
    (hfollowed : Followed host received acc)
    (hopen : Run.LeftOpen { r with point := .drained request received acc cut }) :
    part.partialUsage = recorded host (.response request received) := by
  obtain ⟨rfl, hheard⟩ := hfollowed
  replace hheard : Heard host received := hheard
  have hnone : completion host received = none := by
    cases hcut with
    | cancelled | error => exact completion_none hheard (Or.inr hopen)
    | rejected hvalid =>
      refine completion_none hheard (Or.inl ?_)
      unfold accepted
      rw [hvalid]
      rfl
    | truncated hvalid hstop =>
      exact completion_none hheard (Or.inr ((validateBlocks_keeps hvalid).1.symm.trans hstop))
  have husage : part.partialUsage =
      (accumulate host received).captureCompleteText.partialUsage := by
    cases hcut with
    | truncated hvalid => exact partialUsage_valid hvalid
    | _ => rfl
  rw [husage, hheard.partialUsage]
  change _ = (completion host received).getD (interruption host received)
  rw [hnone]
  rfl

theorem attempting_accounts [DecidableEq J] (host : Host J) {r : Run M J}
    {request : ChatRequest J} {attempt : ℕ} {input : Input J} (hinput : input ≠ .cancel)
    (hpoint : r.point = .attempting request attempt) :
    Accounts host r (attempting host r request attempt input) input ∧
      (attempting host r request attempt input).LeftOpen := by
  have hunsettled : r.point.unsettled = none := by rw [hpoint]; rfl
  unfold attempting
  split_ifs with hcancelled
  · refine ⟨.unanswered request (fun billed => ?_) rfl hunsettled rfl, trivial⟩
    unfold bill
    rw [hpoint]
    cases input with
    | cancel => exact absurd rfl hinput
    | _ => exact if_pos hcancelled
  · have hbill : ∀ billed, (∀ event, input ≠ .first event) → bill r billed input = billed := by
      intro billed hfirst
      unfold bill
      rw [hpoint]
      cases input with
      | cancel => rfl
      | first event => exact absurd rfl (hfirst event)
      | _ => exact if_neg hcancelled
    cases input with
    | cancel => exact absurd rfl hinput
    | first event =>
      refine ⟨.first request event (fun billed => ?_) rfl hunsettled rfl, trivial⟩
      unfold bill
      rw [hpoint]
      exact if_neg hcancelled
    | timedOut =>
      dsimp only [retry]
      split_ifs <;>
        exact ⟨.quiet (fun billed => hbill billed fun _ => by simp) rfl hunsettled.symm, trivial⟩
    | failed error retryable =>
      cases retryable with
      | true =>
        dsimp only [retry]
        split_ifs <;>
          exact ⟨.quiet (fun billed => hbill billed fun _ => by simp) rfl hunsettled.symm, trivial⟩
      | false =>
        exact ⟨.quiet (fun billed => hbill billed fun _ => by simp) rfl hunsettled.symm, trivial⟩
    | empty =>
      exact ⟨.quiet (fun billed => hbill billed fun _ => by simp) rfl hunsettled.symm, trivial⟩
    | _ =>
      refine ⟨.quiet (fun billed => hbill billed fun _ => by simp) rfl rfl, ?_⟩
      unfold Run.LeftOpen
      rw [hpoint]
      trivial

theorem drain_accounts [DecidableEq J] (host : Host J) {r : Run M J} {request : ChatRequest J}
    {received : List (StreamEvent J)} {acc : StepAccum J} {input : Input J}
    (hinput : input ≠ .cancel) (hpoint : r.point = .drain request received acc)
    (hstop : acc.stop = none) :
    Accounts host r (drain r request received acc input) input ∧
      (drain r request received acc input).LeftOpen := by
  have hunsettled : r.point.unsettled = some (request, received) := by rw [hpoint]; rfl
  have hbill : ∀ billed, (r.agent.cancelled = true ∨ ∀ event, input ≠ .next event) →
      bill r billed input = billed := by
    intro billed hquiet
    unfold bill
    rw [hpoint]
    by_cases hcancelled : r.agent.cancelled = true
    · cases input <;> first | rfl | exact if_pos hcancelled
    · have hnext := hquiet.resolve_left hcancelled
      cases input with
      | cancel => rfl
      | next event => exact absurd rfl (hnext event)
      | _ => exact if_neg hcancelled
  unfold drain
  split_ifs with hcancelled
  · exact ⟨.quiet (fun billed => hbill billed (Or.inl hcancelled)) rfl hunsettled.symm, hstop⟩
  · cases input with
    | next event =>
      refine ⟨.next request received event (fun billed => ?_) rfl hunsettled rfl, trivial⟩
      unfold bill
      rw [hpoint]
      exact if_neg hcancelled
    | ended =>
      exact ⟨.quiet (fun billed => hbill billed (Or.inr fun _ => by simp)) rfl hunsettled.symm,
        trivial⟩
    | streamFailed e =>
      exact ⟨.quiet (fun billed => hbill billed (Or.inr fun _ => by simp)) rfl hunsettled.symm,
        hstop⟩
    | cancel => exact absurd rfl hinput
    | _ =>
      refine ⟨.quiet (fun billed => hbill billed (Or.inr fun _ => by simp)) rfl rfl, ?_⟩
      unfold Run.LeftOpen
      rw [hpoint]
      trivial

theorem cancelRequest_usage {r : Run M J} (h : Fits r.agent.usage) :
    (cancelRequest r 0).agent.usage = r.agent.usage := h.merge_zero

theorem advance_accounts [DecidableEq J] {host : Host J} {width : ℕ} {r : Run M J}
    {input : Input J} (hinput : input ≠ .cancel) (hchecked : r.Checked host width)
    (hopen : r.LeftOpen) (hfits : Fits r.agent.usage) :
    Accounts host r (advance host r input) input ∧ (advance host r input).LeftOpen := by
  by_cases hhears : r.point.hears = true
  · unfold Run.Checked at hchecked
    cases hpoint : r.point with
    | attempting request attempt =>
      have hadvance : advance host r input = attempting host r request attempt input := by
        unfold advance
        rw [hpoint]
      rw [hadvance]
      exact attempting_accounts host hinput hpoint
    | drain request received acc =>
      rw [hpoint] at hchecked
      have hadvance : advance host r input = drain r request received acc input := by
        unfold advance
        rw [hpoint]
      rw [hadvance]
      refine drain_accounts host hinput hpoint ?_
      rw [hchecked.1.acc]
      exact hchecked.2.stop
    | _ =>
      rw [hpoint] at hhears
      cases hhears
  · replace hhears : r.point.hears = false := Bool.eq_false_of_not_eq_true hhears
    have hat : ∀ point, r.point = point → Run.Checked host width { r with point := point } :=
      fun _ hpoint => hpoint ▸ hchecked
    have hleft : ∀ point, r.point = point → Run.LeftOpen { r with point := point } :=
      fun _ hpoint => hpoint ▸ hopen
    have hmoved : ∀ {next : Run M J}, next.agent.usage = r.agent.usage →
        next.point.unsettled = r.point.unsettled → next.LeftOpen →
        Accounts host r next input ∧ next.LeftOpen :=
      fun husage hnext hleft => ⟨.stays hhears husage hnext, hleft⟩
    have hstep : Stepped host r input (advance host r input) := advance_stepped hinput
    generalize advance host r input = next at hstep ⊢
    cases hstep with
    | cancels => exact absurd rfl hinput
    | stays => exact hmoved rfl rfl hopen
    | drops _ hpoint | gaveUp _ hpoint =>
      exact hmoved (cancelRequest_usage hfits) (by rw [hpoint]; rfl) trivial
    | interrupts | responds | retries | exhausts | fails | empty | cuts | receives | ends
    | breaksOff =>
      rw [‹r.point = _›] at hhears
      cases hhears
    | cutsOff hcut _ _ hpoint =>
      exact ⟨.settled _ _ (fun billed => bill_quiet hhears billed _)
        (congrArg r.agent.usage.merge (hcut.recorded (hat _ hpoint) (hleft _ hpoint)))
        (by rw [hpoint]; rfl) rfl, trivial⟩
    | records hpoint =>
      refine ⟨.settled _ _ (fun billed => bill_quiet hhears billed _) ?_ (by rw [hpoint]; rfl) rfl,
        trivial⟩
      rw [← Grounded.usage (hat _ hpoint)]
      rfl
    | _ => exact hmoved rfl (by rw [‹r.point = _›]; rfl) trivial

structure Metered.Balanced [DecidableEq J] (host : Host J) (usage : Usage)
    (metered : Metered M J) : Prop where
  billed : metered.billed = metered.settled ++
    (metered.run.point.unsettled.map fun left => Billed.response left.1 left.2).toList
  usage : metered.run.agent.usage = (metered.settled.map (recorded host)).foldl Usage.merge usage

theorem settled_none {metered : Metered M J} (h : metered.run.point.unsettled = none) :
    metered.settled = metered.billed := by
  unfold Metered.settled
  rw [h]
  rfl

theorem settled_some {metered : Metered M J} {left : ChatRequest J × List (StreamEvent J)}
    (h : metered.run.point.unsettled = some left) :
    metered.settled = metered.billed.dropLast := by
  unfold Metered.settled
  rw [h]
  rfl

theorem Metered.Balanced.last {usage : Usage} [DecidableEq J] {host : Host J}
    {metered : Metered M J} (h : metered.Balanced host usage)
    {request : ChatRequest J} {received : List (StreamEvent J)}
    (hopen : metered.run.point.unsettled = some (request, received)) :
    metered.billed = metered.settled ++ [.response request received] := by
  have hbilled := h.billed
  rwa [hopen] at hbilled

theorem Accounts.balanced [DecidableEq J] {host : Host J} {usage : Usage}
    {metered next : Metered M J} {input : Input J}
    (haccounts : Accounts host metered.run next.run input)
    (hnext : next.billed = bill metered.run metered.billed input)
    (h : metered.Balanced host usage) : next.Balanced host usage := by
  have hunsettled : metered.run.point.unsettled = none → metered.settled = metered.billed :=
    settled_none
  obtain ⟨hbill, husage, hopen⟩ | ⟨request, hbill, husage, hopen, hclosed⟩ |
    ⟨request, event, hbill, husage, hopen, hheard⟩ |
    ⟨request, received, event, hbill, husage, hopen, hheard⟩ |
    ⟨request, received, hbill, husage, hopen, hclosed⟩ := haccounts
  all_goals rw [hbill] at hnext
  · have hsettled : next.settled = metered.settled := by
      unfold Metered.settled
      rw [hopen, hnext]
    exact ⟨by rw [hsettled, hopen, hnext, ← h.billed], by rw [hsettled, husage, h.usage]⟩
  · have hsettled : next.settled = metered.settled ++ [.unanswered request] := by
      rw [settled_none hclosed, hnext, hunsettled hopen]
    refine ⟨?_, ?_⟩
    · rw [← settled_none hclosed, hclosed]
      exact (append_nil _).symm
    · rw [hsettled, husage, h.usage, map_append, foldl_append]
      rfl
  · have hsettled : next.settled = metered.settled := by
      rw [settled_some hheard, hnext, dropLast_concat, hunsettled hopen]
    refine ⟨?_, by rw [hsettled, husage, h.usage]⟩
    rw [hsettled, hheard, hnext, hunsettled hopen]
    rfl
  · have hbilled := h.last hopen
    have hmore : hearNext metered.billed event =
        metered.settled ++ [.response request (received ++ [event])] := by
      unfold hearNext
      rw [hbilled, List.getLast?_concat, dropLast_concat]
    have hsettled : next.settled = metered.settled := by
      rw [settled_some hheard, hnext, hmore, dropLast_concat]
    refine ⟨?_, by rw [hsettled, husage, h.usage]⟩
    rw [hsettled, hheard, hnext, hmore]
    rfl
  · have hsettled : next.settled = metered.settled ++ [.response request received] := by
      rw [settled_none hclosed, hnext, h.last hopen]
    refine ⟨?_, ?_⟩
    · rw [← settled_none hclosed, hclosed]
      exact (append_nil _).symm
    · rw [hsettled, husage, h.usage, map_append, foldl_append]
      rfl

theorem Accounts.fits [DecidableEq J] {host : Host J} {r next : Run M J} {input : Input J}
    (haccounts : Accounts host r next input) (h : Fits r.agent.usage) : Fits next.agent.usage := by
  cases haccounts with
  | quiet hbill husage | first request event hbill husage
  | next request received event hbill husage => rwa [husage]
  | unanswered request hbill husage | settled request received hbill husage =>
    rw [husage]
    exact fits_merge _ _

theorem run_balanced [DecidableEq J] (host : Host J) {agent : Agent M J} (hfits : Fits agent.usage)
    (inputs : List (Input J)) :
    (run (meter host) (Metered.of agent) inputs).Balanced host agent.usage := by
  have hall : ∀ metered : Metered M J, metered = run (meter host) (Metered.of agent) inputs →
      metered.Balanced host agent.usage ∧ metered.run.LeftOpen ∧ Fits metered.run.agent.usage := by
    induction inputs using List.reverseRecOn with
    | nil =>
      rintro _ rfl
      exact ⟨⟨rfl, rfl⟩, trivial, hfits⟩
    | append_singleton inputs input ih =>
      rintro _ rfl
      obtain ⟨hbalanced, hopen, hcounters⟩ := ih _ rfl
      have hchecked := (run_checked host agent inputs).1
      rw [← show (run (meter host) (Metered.of agent) inputs).run = run (step host) (Run.of agent)
        inputs from meter_run host (Metered.of agent) inputs] at hchecked
      rw [run_append, run_cons, run_nil]
      have hstep : Accounts host (run (meter host) (Metered.of agent) inputs).run
          (step host (run (meter host) (Metered.of agent) inputs).run input) input ∧
          (step host (run (meter host) (Metered.of agent) inputs).run input).LeftOpen := by
        by_cases hinput : input = .cancel
        · subst hinput
          exact ⟨.quiet (fun _ => rfl) rfl rfl, hopen⟩
        · have hadvance : step host (run (meter host) (Metered.of agent) inputs).run input =
              advance host (run (meter host) (Metered.of agent) inputs).run input := by
            unfold step
            cases input with
            | cancel => exact absurd rfl hinput
            | _ => rfl
          rw [hadvance]
          exact advance_accounts hinput hchecked hopen hcounters
      exact ⟨hstep.1.balanced rfl hbalanced, hstep.2, hstep.1.fits hcounters⟩
  exact (hall _ rfl).1

end

def untilStopped (first : Usage) : List (Input Unit) :=
  [.resume, .resume, .resume, .resume, proceed, .resume, .resume, .resume, .resume, proceed,
    .resume, .accepts (.ok ()) none, .resume, .first (.start first), .resume, .resume,
    .next (.textDelta "Removing everything"), .resume, .resume, .resume, .cancel, .resume, .resume,
    .resume, proceed, .resume, .resume]

end Stakit.AgentRun
