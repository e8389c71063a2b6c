import Stakit.AgentBatches

set_option autoImplicit false

namespace Stakit.AgentRun
open AgentMessages TransitionRuns List

section
variable {M J : Type}

def resultId : UserContent → Option String
  | .toolResult id _ _ => some id
  | _ => none

def resultIds (contents : List UserContent) : List String := contents.filterMap resultId

def toolUseIds (blocks : List (AssistantContent J)) : List String := (toolUses blocks).map Prod.fst

def answers : List (Message J) → List String
  | .user contents :: _ => resultIds contents
  | _ => []

/-- Every tool use is answered in the message that follows. -/
def Answered : List (Message J) → Prop
  | [] => True
  | .user _ :: rest => Answered rest
  | .assistant blocks :: rest => (∀ id ∈ toolUseIds blocks, id ∈ answers rest) ∧ Answered rest

theorem answers_append (first : List (Message J)) {second : List (Message J)}
    (h : answers second = []) :
    answers (first ++ second) = answers first := by
  cases first with
  | nil => exact h
  | cons message rest => cases message <;> rfl

theorem answered_append (first : List (Message J)) {second : List (Message J)}
    (h : answers second = []) :
    Answered (first ++ second) ↔ Answered first ∧ Answered second := by
  induction first with
  | nil => exact (and_iff_right trivial).symm
  | cons message rest ih =>
    cases message with
    | user contents => exact ih
    | assistant blocks =>
      rw [cons_append, Answered, Answered, answers_append rest h, ih, and_assoc]

structure Complete (turns : List (Message J)) : Prop where
  answered : Answered turns
  opens : answers turns = []

theorem complete_nil : Complete ([] : List (Message J)) := ⟨trivial, rfl⟩

theorem Complete.append {first second : List (Message J)} (hfirst : Complete first)
    (hsecond : Complete second) : Complete (first ++ second) where
  answered := (answered_append first hsecond.opens).mpr
    ⟨hfirst.answered, hsecond.answered⟩
  opens := by rw [answers_append first hsecond.opens, hfirst.opens]

theorem complete_text (text : String) : Complete [(.assistant [.text text] : Message J)] :=
  ⟨⟨nofun, trivial⟩, rfl⟩

def Response.turn (response : Response J) : List (Message J) :=
  if response.blocks = [] then [] else [.assistant response.blocks]

theorem Response.Sound.useIds {response : Response J} (h : response.Sound) :
    toolUseIds response.blocks = response.calls.map ParsedCall.id := by
  unfold toolUseIds
  rw [h.uses, map_map]
  rfl

variable (host : Host J) (r : Run M J) (acc : StepAccum J) (response : Response J)
  (records : List (ToolCallRecord J)) (toolStop : Option (Option String))

theorem Response.turn_opens : answers response.turn = [] := by
  unfold Response.turn
  split_ifs <;> rfl

theorem Response.turn_answered_iff {response : Response J} (h : response.Sound) :
    Answered response.turn ↔ response.calls = [] := by
  have hids := h.useIds
  unfold Response.turn
  split_ifs with hempty
  · rw [hempty] at hids
    exact iff_of_true trivial (map_eq_nil_iff.mp hids.symm)
  · change (∀ id ∈ toolUseIds response.blocks, id ∈ []) ∧ True ↔ _
    rw [and_true, hids, ← map_eq_nil_iff (f := ParsedCall.id), eq_nil_iff_forall_not_mem]
    exact forall_congr' fun id => imp_congr_right fun _ => by simp

theorem resultIds_contents : resultIds (resultContents host response records toolStop) =
      records.map ToolCallRecord.id ++ cancelledIds response records toolStop := by
  unfold resultIds resultContents
  rw [filterMap_append]
  congr 1
  · rw [filterMap_map]
    refine filterMap_eq_map_iff_forall_eq_some.mpr fun record _ => ?_
    change resultId (resultContent host record) = some record.id
    unfold resultContent
    cases record.result <;> rfl
  · rw [filterMap_map]
    exact (filterMap_eq_map_iff_forall_eq_some.mpr fun id _ => rfl).trans (map_id' _)

theorem Recorded.covers {response : Response J} {records : List (ToolCallRecord J)}
    {toolStop : Option (Option String)} (h : Recorded response records toolStop) (id : String)
    (hid : id ∈ response.calls.map ParsedCall.id) :
    id ∈ records.map ToolCallRecord.id ++ cancelledIds response records toolStop := by
  cases hstop : toolStop with
  | none =>
    rw [h.all hstop]
    exact mem_append_left _ hid
  | some message =>
    by_cases hrecorded : id ∈ records.map ToolCallRecord.id
    · exact mem_append_left _ hrecorded
    · refine mem_append_right _ (mem_filter.mpr ⟨hid, ?_⟩)
      rw [Bool.not_eq_true', any_eq_false]
      intro record hrecord heq
      exact hrecorded (mem_map.mpr ⟨record, hrecord, of_decide_eq_true heq⟩)

theorem Recorded.nothing {response : Response J} {records : List (ToolCallRecord J)}
    {toolStop : Option (Option String)} (h : Recorded response records toolStop)
    (hcalls : response.calls = []) : records = [] ∧ cancelledIds response records toolStop = [] := by
  have hids := h.ids
  rw [hcalls] at hids
  refine ⟨map_eq_nil_iff.mp (prefix_nil.mp hids), ?_⟩
  unfold cancelledIds
  rw [hcalls]
  split_ifs <;> rfl

def resultTurn (host : Host J) (response : Response J) (records : List (ToolCallRecord J))
    (toolStop : Option (Option String)) : List (Message J) :=
  if resultContents host response records toolStop = [] then []
  else [.user (resultContents host response records toolStop)]

theorem Recorded.complete {response : Response J} {records : List (ToolCallRecord J)}
    {toolStop : Option (Option String)} (h : Recorded response records toolStop)
    (host : Host J) : Complete (response.turn ++ resultTurn host response records toolStop) := by
  have hids := resultIds_contents host response records toolStop
  have huses := h.sound.useIds
  by_cases hcalls : response.calls = []
  · obtain ⟨hrecords, hcancelled⟩ := h.nothing hcalls
    have hnone : resultTurn host response records toolStop = [] := by
      unfold resultTurn resultContents
      rw [hcancelled, hrecords]
      rfl
    rw [hnone, append_nil]
    exact ⟨(Response.turn_answered_iff h.sound).mpr hcalls, response.turn_opens⟩
  · have hblocks : response.blocks ≠ [] := by
      intro hempty
      rw [hempty] at huses
      exact hcalls (map_eq_nil_iff.mp huses.symm)
    have hcovers : ∀ id ∈ toolUseIds response.blocks,
        id ∈ resultIds (resultContents host response records toolStop) := by
      intro id hid
      rw [hids]
      rw [huses] at hid
      exact h.covers id hid
    have hcontents : resultContents host response records toolStop ≠ [] := by
      intro hempty
      rw [hempty, huses] at hcovers
      obtain ⟨call, rest, heq⟩ := exists_cons_of_ne_nil hcalls
      exact not_mem_nil (hcovers call.id (by rw [heq]; exact mem_cons_self))
    unfold Response.turn resultTurn
    rw [if_neg hblocks, if_neg hcontents]
    exact ⟨⟨hcovers, trivial⟩, rfl⟩

def Point.AtRest : Point J → Prop
  | .created | .done | .returned => True
  | _ => False

def Run.Held (middleware : List M) (r : Run M J) : Prop :=
  match r.point with
  | .created | .done | .returned => r.agent.middleware = middleware
  | _ => r.agent.middleware = [] ∧ r.mw = middleware

theorem Stepped.held [DecidableEq J] {host : Host J} {middleware : List M} {r next : Run M J}
    {input : Input J} (hstep : Stepped host r input next) (h : r.Held middleware) :
    next.Held middleware := by
  have hat : ∀ point, r.point = point → Run.Held middleware { r with point := point } :=
    fun _ hpoint => hpoint ▸ h
  cases hstep with
  | cancels | stays => exact h
  | creates hpoint => exact ⟨rfl, hat _ hpoint⟩
  | givesBack hpoint | finishes _ hpoint => exact (hat _ hpoint).2
  | _ => exact (hat _ ‹r.point = _› :)

theorem run_held [DecidableEq J] (host : Host J) (agent : Agent M J) (inputs : List (Input J)) :
    (run (step host) (Run.of agent) inputs).Held agent.middleware :=
  run_invariant (step host) (Run.Held agent.middleware) (fun _ _ h => step_stepped.held h) _ inputs
    rfl

theorem Run.Held.middleware_iff {middleware : List M} {r : Run M J} (h : r.Held middleware) :
    r.agent.middleware = middleware ↔ middleware = [] ∨ r.point.AtRest := by
  unfold Run.Held at h
  cases hpoint : r.point with
  | created | done | returned =>
    rw [hpoint] at h
    exact iff_of_true h (Or.inr trivial)
  | _ =>
    rw [hpoint] at h
    rw [h.1, eq_comm]
    exact (or_iff_left not_false).symm

def Point.Unanswered : Point J → Prop
  | .approving response _ _ | .asking response _ _ _ _ _ _ | .onToolApprove response _ _ _ _ _ _
  | .dispatch response _ _ _ | .results response _ _ _ => response.calls ≠ []
  | _ => False

def Point.turn : Point J → List (Message J)
  | .approving response _ _ | .asking response _ _ _ _ _ _ | .onToolApprove response _ _ _ _ _ _
  | .dispatch response _ _ _ | .results response _ _ _ => response.turn
  | _ => []

def Run.edits (r : Run M J) (input : Input J) : Bool :=
  match r.point, input with
  | .onStart _, .hook _ | .onStep _, .hook _ | .onStepDone _ _ _ _, .hook _ => true
  | _, _ => false

/-- The run beside the conversation as it was found or as the last hook left it. -/
def settle [DecidableEq J] (host : Host J) (state : Run M J × List (Message J))
    (input : Input J) : Run M J × List (Message J) :=
  let next := step host state.1 input
  (next, if state.1.edits input then next.agent.messages else state.2)

def Settled (state : Run M J × List (Message J)) : Prop :=
  ∃ turns, state.1.agent.messages = state.2 ++ turns ++ state.1.point.turn ∧ Complete turns

theorem Point.turn_opens (point : Point J) : answers point.turn = [] := by
  cases point with
  | approving response | asking response | onToolApprove response | dispatch response
  | results response => exact response.turn_opens
  | _ => rfl

theorem Point.Batch.turn_answered {point : Point J} (h : point.Batch) :
    Answered point.turn ↔ ¬point.Unanswered := by
  cases point with
  | approving response | asking response | onToolApprove response =>
    exact (Response.turn_answered_iff h.1).trans not_not.symm
  | dispatch response | results response =>
    exact (Response.turn_answered_iff h.sound).trans not_not.symm
  | _ => exact iff_of_true trivial not_false

theorem Settled.answered_iff {state : Run M J × List (Message J)} (h : Settled state)
    (hbatch : state.1.point.Batch) :
    Answered state.1.agent.messages ↔ ¬state.1.point.Unanswered ∧ Answered state.2 := by
  obtain ⟨turns, hmessages, hturns⟩ := h
  have hopens := state.1.point.turn_opens
  have hall : answers (turns ++ state.1.point.turn) = [] := by
    rw [answers_append turns hopens, hturns.opens]
  rw [hmessages, append_assoc, answered_append _ hall, answered_append _ hopens,
    hbatch.turn_answered, and_iff_right hturns.answered, and_comm]

/-- What one step that is not an edit does to the conversation. -/
inductive Turned (host : Host J) (r next : Run M J) : Prop
  | same (hmessages : next.agent.messages = r.agent.messages)
      (hturn : next.point.turn = r.point.turn)
  | text (text : String) (htext : text ≠ "")
      (hmessages : next.agent.messages = r.agent.messages ++ [.assistant [.text text]])
      (hturn : r.point.turn = []) (hnext : next.point.turn = [])
  | respond (response : Response J) (hpoint : r.point = .respond response)
      (hmessages : next.agent.messages = r.agent.messages ++ response.turn)
      (hnext : next.point.turn = response.turn)
  | results (response : Response J) (records : List (ToolCallRecord J))
      (toolStop : Option (Option String)) (left : List (AgentEvent J))
      (hpoint : r.point = .results response records toolStop left)
      (hmessages : next.agent.messages =
        r.agent.messages ++ resultTurn host response records toolStop)
      (hnext : next.point.turn = [])

theorem recordPartial_messages : (recordPartial r acc).agent.messages = r.agent.messages ∨
      acc.text ≠ "" ∧
        (recordPartial r acc).agent.messages = r.agent.messages ++ [.assistant [.text acc.text]] := by
  unfold recordPartial
  dsimp only
  split_ifs with htext
  · exact Or.inl rfl
  · exact Or.inr ⟨htext, rfl⟩

theorem respond_turned (hpoint : r.point = .respond response) :
    Turned host r (respond r response) := by
  refine .respond response hpoint ?_ rfl
  change (if response.blocks = [] then r.agent.messages
    else r.agent.messages ++ [.assistant response.blocks]) = r.agent.messages ++ response.turn
  unfold Response.turn
  split_ifs
  · exact (append_nil _).symm
  · rfl

theorem results_turned {left : List (AgentEvent J)}
    (hpoint : r.point = .results response records toolStop left) :
    Turned host r (results host r response records toolStop left) := by
  cases left with
  | cons event left => exact .same rfl (by rw [hpoint]; rfl)
  | nil =>
    refine .results response records toolStop [] hpoint ?_ rfl
    change (if resultContents host response records toolStop = [] then r.agent.messages
      else r.agent.messages ++ [.user (resultContents host response records toolStop)]) =
        r.agent.messages ++ resultTurn host response records toolStop
    unfold resultTurn
    split_ifs
    · exact (append_nil _).symm
    · rfl

theorem Stepped.turned [DecidableEq J] {host : Host J} {r next : Run M J} {input : Input J}
    (hstep : Stepped host r input next) (hedits : r.edits input = false) : Turned host r next := by
  cases hstep with
  | cancels | stays => exact .same rfl rfl
  | startNext _ hpoint | startStops _ hpoint | startFails _ hpoint | stepNext _ hpoint
  | stepStops _ hpoint | stepFails _ hpoint | stepDoneNext _ hpoint | stepDoneStops _ hpoint
  | stepDoneFails _ hpoint =>
    unfold Run.edits at hedits
    rw [hpoint] at hedits
    cases hedits
  | cutsOff _ hmessages _ hpoint =>
    have hturn : r.point.turn = [] := by rw [hpoint]; rfl
    obtain hsame | ⟨htext, hpushed⟩ := recordPartial_messages r _
    · exact .same (hmessages.trans hsame) hturn.symm
    · exact .text _ htext (hmessages.trans hpushed) hturn rfl
  | records hpoint => exact respond_turned host r _ hpoint
  | reports hpoint | endsStep hpoint => exact results_turned host r _ _ _ hpoint
  | _ => exact .same rfl (by rw [‹r.point = _›]; rfl)

theorem Settled.turned {host : Host J} {r next : Run M J} {base : List (Message J)}
    (h : Settled (r, base)) (hbatch : r.point.Batch) (hturned : Turned host r next) :
    Settled (next, base) := by
  obtain ⟨turns, heq, hturns⟩ := h
  dsimp only at heq
  cases hturned with
  | same hmessages hturn =>
    refine ⟨turns, ?_, hturns⟩
    dsimp only
    rw [hmessages, hturn, heq]
  | text text htext hmessages hturn hnext =>
    refine ⟨turns ++ [.assistant [.text text]], ?_, hturns.append (complete_text text)⟩
    dsimp only
    rw [hmessages, hnext, heq, hturn]
    simp
  | respond response hpoint hmessages hnext =>
    refine ⟨turns, ?_, hturns⟩
    dsimp only
    rw [hmessages, hnext, heq, hpoint]
    simp [Point.turn]
  | results response records toolStop left hpoint hmessages hnext =>
    rw [hpoint] at hbatch
    refine ⟨turns ++ (response.turn ++ resultTurn host response records toolStop), ?_,
      hturns.append (hbatch.complete host)⟩
    dsimp only
    rw [hmessages, hnext, heq, hpoint]
    simp [Point.turn]

theorem advance_edited [DecidableEq J] (host : Host J) {r : Run M J} {input : Input J}
    (hedits : r.edits input = true) : ∃ reply, input = .hook reply ∧
      (advance host r input).agent.messages = reply.messages ∧ r.point.turn = [] ∧
        (advance host r input).point.turn = [] := by
  obtain ⟨agent, mw, started, totalSteps, finalText, keepPartialText, runTools, runCacheKey,
    lastStep, point, trace⟩ := r
  cases point with
  | onStart k =>
    cases input with
    | hook reply =>
      refine ⟨reply, rfl, ?_, rfl, ?_⟩ <;> dsimp only [advance, onStart] <;> split <;> rfl
    | _ => cases hedits
  | onStep k =>
    cases input with
    | hook reply =>
      refine ⟨reply, rfl, ?_, rfl, ?_⟩ <;> dsimp only [advance, onStep] <;> split <;> rfl
    | _ => cases hedits
  | onStepDone response records toolStop k =>
    cases input with
    | hook reply =>
      refine ⟨reply, rfl, ?_, rfl, ?_⟩ <;> dsimp only [advance, onStepDone] <;> split <;> rfl
    | _ => cases hedits
  | _ => cases hedits

theorem settle_settled [DecidableEq J] (host : Host J) {state : Run M J × List (Message J)}
    (input : Input J) (hbatch : state.1.point.Batch) (h : Settled state) :
    Settled (settle host state input) := by
  obtain ⟨r, base⟩ := state
  unfold settle
  cases hedits : r.edits input with
  | true =>
    unfold step
    split
    · cases hpoint : r.point <;> simp [Run.edits, hpoint] at hedits
    · obtain ⟨-, -, -, -, hturn⟩ := advance_edited host hedits
      refine ⟨[], ?_, complete_nil⟩
      rw [append_nil]
      change _ = _ ++ (advance host r input).point.turn
      rw [hturn, append_nil]
      rfl
  | false => exact h.turned hbatch (step_stepped.turned hedits)

/-- The conversation as the run found it or as the last hook that could edit it left it. -/
def settled [DecidableEq J] (host : Host J) (agent : Agent M J) (inputs : List (Input J)) :
    List (Message J) :=
  (run (settle host) (Run.of agent, agent.messages) inputs).2

theorem settle_run [DecidableEq J] (host : Host J) (state : Run M J × List (Message J))
    (inputs : List (Input J)) :
    (run (settle host) state inputs).1 = run (step host) state.1 inputs := by
  induction inputs generalizing state with
  | nil => rfl
  | cons input inputs ih => exact ih (settle host state input)

theorem run_batch [DecidableEq J] (host : Host J) (agent : Agent M J) (inputs : List (Input J)) :
    (run (step host) (Run.of agent) inputs).point.Batch :=
  run_invariant (step host) (fun r => r.point.Batch) (fun _ _ h => step_stepped.batch h)
    (Run.of agent) inputs trivial

/-- The agent has the middleware and an answered conversation. -/
def Usable (middleware : List M) (agent : Agent M J) : Prop :=
  agent.middleware = middleware ∧ Answered agent.messages

/-- Wherever a run is dropped, the agent is usable exactly if the run is at rest or there
is no middleware, the results of the response are pushed, and the conversation was
answered when it was last in other hands. -/
theorem dropped_usable_iff [DecidableEq J] (host : Host J) (agent : Agent M J)
    (inputs : List (Input J)) :
    Usable agent.middleware (run (step host) (Run.of agent) inputs).agent ↔
      (agent.middleware = [] ∨ (run (step host) (Run.of agent) inputs).point.AtRest) ∧
        ¬(run (step host) (Run.of agent) inputs).point.Unanswered ∧
          Answered (settled host agent inputs) := by
  have hsettled : (run (settle host) (Run.of agent, agent.messages) inputs).1.point.Batch ∧
      Settled (run (settle host) (Run.of agent, agent.messages) inputs) := by
    refine run_invariant (settle host) (fun state => state.1.point.Batch ∧ Settled state)
      (fun state input h => ⟨step_stepped.batch h.1,
        settle_settled host input h.1 h.2⟩) _ inputs ⟨trivial, [], ?_, complete_nil⟩
    exact (append_nil _).trans (append_nil _) |>.symm
  have hanswered := hsettled.2.answered_iff hsettled.1
  rw [settle_run] at hanswered
  unfold Usable
  rw [(run_held host agent inputs).middleware_iff, hanswered]
  rfl

end

def plainHost : Host Unit where
  fromStr _ := .ok ()
  json _ := ()
  toText _ := "null"
  ofString _ := ()
  asStr _ := none
  debug text := text

def guardedAgent : Agent Unit Unit where
  providers := ["m"]
  currentModel := "m"
  tools := [⟨"delete", "Deletes a file.", (), false, false⟩]
  skills := []
  skillManifest := none
  hasLoader := false
  middleware := [()]
  system := none
  messages := [.user [.text "clean up"]]
  replayBinding := none
  cacheKey := none
  maxRetries := 2
  usage := .zero
  maxTokens := 4096
  cancelled := false

def proceed : Input Unit := .hook ⟨[.user [.text "clean up"]], "m", none, .ok .next⟩

def untilApproval : List (Input Unit) :=
  [.resume, .resume, .resume, .resume, proceed, .resume, .resume, .resume, .resume, proceed,
    .resume, .accepts (.ok ()) none, .resume, .first (.toolCall "1" "delete" "null"), .resume,
    .resume, .resume, .next (.finish .toolUse .zero), .resume, .resume, .resume, .resume, .resume,
    .resume]

/-- The middleware that was to approve the call is gone, and the call is in the
conversation without a result. -/
theorem dropped_at_approval : ¬Usable guardedAgent.middleware
        (run (step plainHost) (Run.of guardedAgent) untilApproval).agent ∧
      (run (step plainHost) (Run.of guardedAgent) untilApproval).agent.middleware = [] ∧
      (run (step plainHost) (Run.of guardedAgent) untilApproval).agent.messages =
        [.user [.text "clean up"], .assistant [.toolUse "1" "delete" ()]] :=
  ⟨fun h => absurd h.1 (by decide +kernel), by decide +kernel, by decide +kernel⟩

end Stakit.AgentRun
