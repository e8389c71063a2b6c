import Stakit.AgentAuthorization

set_option autoImplicit false

namespace Stakit.AgentRun
open AgentMessages TransitionRuns List

section
variable {M J : Type}

def callId : StreamEvent J → Option String
  | .toolCall id _ _ => some id
  | _ => none

def callIds (received : List (StreamEvent J)) : List String := received.filterMap callId

/-- What the provider has sent while the run waits for its next event. -/
def Point.received : Point J → List (StreamEvent J)
  | .drain _ received _ => received
  | _ => []

/-- A hook leaves the conversation as it was, and a provider does not repeat the id of a
call of the same response. -/
def Orderly (r : Run M J) : Input J → Prop
  | .hook reply => reply.messages = r.agent.messages
  | .next event => ∀ id ∈ callId event, id ∉ callIds r.point.received
  | _ => True

instance decidableOrderly [DecidableEq J] (r : Run M J) :
    ∀ input, Decidable (Orderly r input)
  | .hook reply => inferInstanceAs (Decidable (reply.messages = r.agent.messages))
  | .next event =>
    inferInstanceAs (Decidable (∀ id ∈ callId event, id ∉ callIds r.point.received))
  | .cancel | .resume | .listed _ | .accepts _ _ | .slept | .first _ | .timedOut | .failed _ _
  | .empty | .ended | .streamFailed _ | .approval _ | .startTool | .toolDone _ _ => .isTrue trivial

theorem callIds_snoc (received : List (StreamEvent J)) (event : StreamEvent J) :
    callIds (received ++ [event]) = callIds received ++ (callId event).toList := by
  unfold callIds
  rw [filterMap_append]
  cases hid : callId event with
  | none =>
    rw [filterMap_cons_none hid]
    rfl
  | some id =>
    rw [filterMap_cons_some hid]
    rfl

theorem accumulated_ids (host : Host J) (received : List (StreamEvent J)) :
    ((accumulate host received).toolCalls.map ParsedCall.id).Sublist (callIds received) := by
  induction received using List.reverseRecOn with
  | nil => exact List.Sublist.refl _
  | append_singleton received event ih =>
    rw [accumulate_snoc, callIds_snoc]
    obtain hsame | ⟨id, name, arguments, rfl, hmore⟩ := (apply_applied host _ event).calls
    · rw [hsame]
      exact ih.trans (sublist_append_left _ _)
    · rw [hmore, map_append, map_singleton, (parse_names host id name arguments).1]
      exact ih.append (List.Sublist.refl _)

def Run.Distinct (r : Run M J) : Prop :=
  ∀ request received, r.point.stream = some (request, received) → (callIds received).Nodup

theorem Run.Distinct.step [DecidableEq J] {host : Host J} {r : Run M J} {input : Input J}
    (h : r.Distinct) (horderly : Orderly r input) : (step host r input).Distinct := by
  intro request received hstream
  obtain hsame | ⟨event, rfl⟩ | ⟨before, event, acc, rfl, rfl, hpoint, -⟩ :=
    step_stepped.streams request received hstream
  · exact h request received hsame
  · rw [← nil_append [event], callIds_snoc]
    cases callId event <;> simp [callIds]
  · have hbefore := h request before (by rw [hpoint]; rfl)
    have hfresh : ∀ id ∈ callId event, id ∉ callIds before := by
      change ∀ id ∈ callId event, id ∉ callIds r.point.received at horderly
      rw [hpoint] at horderly
      exact horderly
    rw [callIds_snoc]
    cases hid : callId event with
    | none =>
      rw [Option.toList_none, append_nil]
      exact hbefore
    | some id =>
      exact hbefore.append (nodup_singleton id)
        (disjoint_singleton.mpr (hfresh id hid))

theorem Grounded.distinct [DecidableEq J] {host : Host J} {response : Response J}
    (h : Grounded host response) (hids : (callIds response.received).Nodup) :
    (response.calls.map ParsedCall.id).Nodup := by
  obtain ⟨valid, hvalid, -, hresponse⟩ := h.valid
  obtain ⟨-, hperm, -⟩ := validateBlocks_ok hvalid
  obtain hnone | ⟨_, hcalls⟩ := Response.calls_cases hresponse
  · rw [hnone]
    exact nodup_nil
  · rw [hcalls]
    exact (hperm.map ParsedCall.id).nodup_iff.mp ((accumulated_ids host _).nodup hids)

/-- Every turn with tool uses is followed by the results of exactly these, each once. -/
def Paired : List (Message J) → Prop
  | [] => True
  | .user _ :: rest => Paired rest
  | .assistant blocks :: rest =>
    (toolUseIds blocks ≠ [] → ∃ contents more, rest = .user contents :: more ∧
      resultIds contents = toolUseIds blocks ∧ (resultIds contents).Nodup) ∧ Paired rest

def Substantial : Message J → Prop
  | .user contents => contents ≠ []
  | .assistant blocks => blocks ≠ []

theorem paired_append {first second : List (Message J)} (hfirst : Paired first)
    (hsecond : Paired second) : Paired (first ++ second) := by
  induction first with
  | nil => exact hsecond
  | cons message rest ih =>
    cases message with
    | user contents => exact ih hfirst
    | assistant blocks =>
      refine ⟨fun hne => ?_, ih hfirst.2⟩
      obtain ⟨contents, more, rfl, hids⟩ := hfirst.1 hne
      exact ⟨contents, more ++ second, rfl, hids⟩

theorem Response.turn_substantial (response : Response J) :
    ∀ message ∈ response.turn, Substantial message := by
  unfold Response.turn
  split_ifs with hempty
  · exact nofun
  · intro message hmessage
    obtain rfl := mem_singleton.mp hmessage
    exact hempty

theorem resultTurn_substantial (host : Host J) (response : Response J)
    (records : List (ToolCallRecord J)) (toolStop : Option (Option String)) :
    ∀ message ∈ resultTurn host response records toolStop, Substantial message := by
  unfold resultTurn
  split_ifs with hempty
  · exact nofun
  · intro message hmessage
    obtain rfl := mem_singleton.mp hmessage
    exact hempty

theorem Recorded.ids_eq {response : Response J} {records : List (ToolCallRecord J)}
    {toolStop : Option (Option String)} (h : Recorded response records toolStop)
    (hdistinct : (response.calls.map ParsedCall.id).Nodup) :
    records.map ToolCallRecord.id ++ cancelledIds response records toolStop =
      response.calls.map ParsedCall.id := by
  unfold cancelledIds
  cases hstop : toolStop with
  | none =>
    rw [h.all hstop]
    exact append_nil _
  | some message =>
    obtain ⟨rest, hrest⟩ := h.ids
    rw [← hrest] at hdistinct ⊢
    obtain ⟨-, -, hdisjoint⟩ := nodup_append.mp hdistinct
    have hrecorded : ∀ id, (records.any fun record => record.id = id) = true ↔
        id ∈ records.map ToolCallRecord.id := by
      intro id
      simp [any_eq_true, mem_map]
    rw [if_pos Option.isSome_some, filter_append]
    have hfirst : (records.map ToolCallRecord.id).filter
        (fun id => !records.any fun record => record.id = id) = [] := by
      refine filter_eq_nil_iff.mpr fun id hid => ?_
      rw [(hrecorded id).mpr hid]
      exact Bool.false_ne_true
    have hlast : rest.filter (fun id => !records.any fun record => record.id = id) = rest := by
      refine filter_eq_self.mpr fun id hid => ?_
      rw [Bool.not_eq_true', Bool.eq_false_iff]
      exact fun hany => hdisjoint id ((hrecorded id).mp hany) id hid rfl
    rw [hfirst, hlast, nil_append]

theorem Recorded.paired {response : Response J} {records : List (ToolCallRecord J)}
    {toolStop : Option (Option String)} (h : Recorded response records toolStop) (host : Host J)
    (hdistinct : (response.calls.map ParsedCall.id).Nodup) :
    Paired (response.turn ++ resultTurn host response records toolStop) := by
  have hids := resultIds_contents host response records toolStop
  rw [h.ids_eq hdistinct, ← h.sound.useIds] at hids
  have hresults : Paired (resultTurn host response records toolStop) := by
    unfold resultTurn
    split_ifs <;> trivial
  unfold Response.turn
  split_ifs
  · exact hresults
  · refine ⟨fun hne => ?_, hresults⟩
    unfold resultTurn
    split_ifs with hempty
    · rw [hempty] at hids
      exact absurd hids.symm hne
    · refine ⟨_, [], rfl, hids, ?_⟩
      rw [hids, h.sound.useIds]
      exact hdistinct

def Run.Paired (base : List (Message J)) (r : Run M J) : Prop :=
  ∃ appended, r.agent.messages = base ++ appended ++ r.point.turn ∧
    AgentRun.Paired appended ∧ ∀ message ∈ appended ++ r.point.turn, Substantial message

theorem Run.Paired.push {base : List (Message J)} {r next : Run M J} (h : r.Paired base)
    (more : List (Message J)) (hpaired : AgentRun.Paired (r.point.turn ++ more))
    (hmore : ∀ message ∈ more, Substantial message)
    (hmessages : next.agent.messages = r.agent.messages ++ more)
    (hnext : next.point.turn = []) : next.Paired base := by
  obtain ⟨appended, heq, happended, hsubstantial⟩ := h
  refine ⟨appended ++ (r.point.turn ++ more), ?_, paired_append happended hpaired,
    fun message hmessage => ?_⟩
  · rw [hmessages, heq, hnext]
    simp
  · rw [hnext, append_nil, ← append_assoc] at hmessage
    exact (mem_append.mp hmessage).elim (hsubstantial message) (hmore message)

theorem Run.Paired.turned {base : List (Message J)} {host : Host J} {r next : Run M J}
    (h : r.Paired base) (hbatch : r.point.Batch)
    (hdistinct : ∀ response records toolStop left,
      r.point = .results response records toolStop left → (response.calls.map ParsedCall.id).Nodup)
    (hturned : Turned host r next) : next.Paired base := by
  cases hturned with
  | same hmessages hturn =>
    unfold Run.Paired
    rw [hmessages, hturn]
    exact h
  | text text htext hmessages hturn hnext =>
    refine h.push [.assistant [.text text]] ?_ (fun message hmessage => ?_) hmessages hnext
    · rw [hturn]
      exact ⟨fun hne => absurd rfl hne, trivial⟩
    · obtain rfl := mem_singleton.mp hmessage
      exact cons_ne_nil _ _
  | respond response hpoint hmessages hnext =>
    obtain ⟨appended, heq, happended, hsubstantial⟩ := h
    have hturn : r.point.turn = [] := by rw [hpoint]; rfl
    rw [hturn, append_nil] at heq hsubstantial
    refine ⟨appended, ?_, happended, fun message hmessage => ?_⟩
    · rw [hmessages, heq, hnext]
    · rw [hnext] at hmessage
      exact (mem_append.mp hmessage).elim (hsubstantial message)
        (response.turn_substantial message)
  | results response records toolStop left hpoint hmessages hnext =>
    have hcalls := hdistinct response records toolStop left hpoint
    rw [hpoint] at hbatch
    refine h.push _ ?_ (resultTurn_substantial host response records toolStop) hmessages hnext
    rw [hpoint]
    exact hbatch.paired host hcalls

theorem step_paired [DecidableEq J] (host : Host J) {base : List (Message J)} {r : Run M J}
    {input : Input J} (h : r.Paired base) (hbatch : r.point.Batch)
    (hdistinct : ∀ response records toolStop left,
      r.point = .results response records toolStop left → (response.calls.map ParsedCall.id).Nodup)
    (horderly : Orderly r input) : (step host r input).Paired base := by
  cases hedits : r.edits input with
  | false => exact h.turned hbatch hdistinct (step_stepped.turned hedits)
  | true =>
    unfold step
    split
    · exact h
    · obtain ⟨reply, rfl, hmessages, hturn, hnext⟩ := advance_edited host hedits
      unfold Run.Paired
      rw [hmessages, horderly, hnext, ← hturn]
      exact h

def textTurn (text : Option String) : List (Message J) :=
  text.toList.map fun text => .assistant [.text text]

/-- An interrupted response leaves its text, and so does a response that failed. -/
structure Run.TextOnly (host : Host J) [DecidableEq J] (r : Run M J) : Prop where
  interrupted : ∀ request received acc cut, r.point = .drained request received acc cut →
    (∀ response, (step host r .resume).point ≠ .respond response) →
      (step host r .resume).agent.messages =
        r.agent.messages ++ textTurn (nonempty acc.captureCompleteText.text)
  failed : ∀ response, r.point = .respond response → response.failure ≠ none →
    (step host r .resume).agent.messages = r.agent.messages ++ textTurn response.text
  results : ∀ response records toolStop left,
    r.point = .results response records toolStop left → response.failure ≠ none →
      (step host r .resume).agent.messages = r.agent.messages

theorem recordPartial_text (r : Run M J) (acc : StepAccum J) :
    (recordPartial r acc).agent.messages = r.agent.messages ++ textTurn (nonempty acc.text) := by
  unfold recordPartial nonempty
  dsimp only
  split_ifs
  · exact (append_nil _).symm
  · rfl

theorem drained_text [DecidableEq J] {r : Run M J} {request : ChatRequest J}
    {received : List (StreamEvent J)} {acc : StepAccum J} {cut : Cut}
    (h : ∀ response, (drained r request received acc cut).point ≠ .respond response) :
    (drained r request received acc cut).agent.messages =
      r.agent.messages ++ textTurn (nonempty acc.captureCompleteText.text) := by
  unfold drained interrupt at h ⊢
  cases cut with
  | cancelled | error e => exact recordPartial_text r _
  | none =>
    dsimp only at h ⊢
    cases hvalid : acc.captureCompleteText.validateBlocks with
    | error message => exact recordPartial_text r _
    | ok valid =>
      rw [hvalid] at h
      obtain ⟨-, -, ⟨calls, rfl⟩, -⟩ := validateBlocks_ok hvalid
      dsimp only at h ⊢
      cases hstop : acc.captureCompleteText.stop with
      | none => exact recordPartial_text r _
      | some stop =>
        rw [hstop] at h
        exact absurd rfl (h _)

theorem Point.Batch.textOnly [DecidableEq J] {r : Run M J} (host : Host J)
    (h : r.point.Batch) : r.TextOnly host where
  interrupted request received acc cut hpoint hother := by
    change ∀ response, (advance host r .resume).point ≠ .respond response at hother
    change (advance host r .resume).agent.messages = _
    unfold advance at hother ⊢
    rw [hpoint] at hother ⊢
    exact drained_text hother
  failed response hpoint hfailure := by
    rw [hpoint] at h
    change (advance host r .resume).agent.messages = _
    unfold advance
    rw [hpoint]
    change (if response.blocks = [] then r.agent.messages
      else r.agent.messages ++ [.assistant response.blocks]) = _
    rw [(h.withheld hfailure).2]
    cases response.text with
    | none => exact (append_nil _).symm
    | some text => rfl
  results response records toolStop left hpoint hfailure := by
    rw [hpoint] at h
    obtain ⟨hrecords, hcancelled⟩ := h.nothing (h.sound.withheld hfailure).1
    change (advance host r .resume).agent.messages = _
    unfold advance
    rw [hpoint]
    cases left with
    | cons event left => rfl
    | nil =>
      refine if_pos ?_
      unfold resultContents
      rw [hcancelled, hrecords]
      rfl

/-- A hook that is called when no turn is pending, or the end of the run. -/
def Point.AtHook : Point J → Prop
  | .onStart _ | .onStep _ | .onStepDone _ _ _ _ | .onFinish _ _ | .skillsDone | .done
  | .returned => True
  | _ => False

theorem Point.AtHook.turn {point : Point J} (h : point.AtHook) : point.turn = [] := by
  cases point with
  | approving | asking | onToolApprove | dispatch | results => exact h.elim
  | _ => rfl

/-- What a run keeps when no hook edits and no response repeats an id. -/
structure Run.Consistent (host : Host J) [DecidableEq J] (agent : Agent M J) (r : Run M J) :
    Prop where
  held : r.Held agent.middleware
  batch : r.point.Batch
  checked : r.Checked host agent.middleware.length
  distinct : r.Distinct
  paired : r.Paired agent.messages

theorem Run.Consistent.step [DecidableEq J] {host : Host J} {agent : Agent M J} {r : Run M J}
    (h : r.Consistent host agent) (input : Input J) (horderly : Orderly r input) :
    (AgentRun.step host r input).Consistent host agent := by
  have hdistinct : ∀ response records toolStop left,
      r.point = .results response records toolStop left →
        (response.calls.map ParsedCall.id).Nodup := by
    intro response records toolStop left hpoint
    have hchecked := h.checked
    unfold Run.Checked at hchecked
    rw [hpoint] at hchecked
    exact hchecked.distinct (h.distinct response.request response.received (by rw [hpoint]; rfl))
  exact ⟨step_stepped.held h.held, step_stepped.batch h.batch,
    step_stepped.checked h.held h.checked, h.distinct.step horderly,
    step_paired host h.paired h.batch hdistinct horderly⟩

/-- Along a run whose hooks leave the conversation as it is and whose responses do not
repeat the id of a call, what the run has appended is paired and has no empty message; the
only turn that may lack its results is the pending one, and none is pending at a hook
other than `on_tool_approve` or at the end. A response that is interrupted or fails adds
its text only. -/
theorem conversation_paired [DecidableEq J] (host : Host J) (agent : Agent M J)
    (inputs : List (Input J)) (h : Meets (step host) Orderly (Run.of agent) inputs) :
    (∃ appended, (run (step host) (Run.of agent) inputs).agent.messages =
        agent.messages ++ appended ++ (run (step host) (Run.of agent) inputs).point.turn ∧
      Paired appended ∧
      ∀ message ∈ appended ++ (run (step host) (Run.of agent) inputs).point.turn,
        Substantial message) ∧
      ((run (step host) (Run.of agent) inputs).point.AtHook →
        (run (step host) (Run.of agent) inputs).point.turn = []) ∧
      (run (step host) (Run.of agent) inputs).TextOnly host := by
  have hconsistent : (run (step host) (Run.of agent) inputs).Consistent host agent := by
    refine guarded_run_invariant (step host) Orderly (Run.Consistent host agent)
      (fun r input hr hinput => hr.step input hinput) _ inputs ⟨rfl, trivial, trivial, ?_, ?_⟩ h
    · exact nofun
    · exact ⟨[], by simp [Run.of, Point.turn], trivial, nofun⟩
  exact ⟨hconsistent.paired, fun hhook => hhook.turn, hconsistent.batch.textOnly host⟩

end

def answered : Input Unit :=
  .hook ⟨[.user [.text "clean up"], .assistant [.toolUse "1" "delete" ()],
    .user [.toolResult "1" [.text "null"] false]], "m", none, .ok .next⟩

def afterApproval : List (Input Unit) :=
  [.approval (.ok .allow), .resume, .resume, .startTool, .toolDone 0 (.ok ()), .resume, .resume,
    .resume, .resume, .resume, answered, .resume, .cancel, .resume, .resume, answered, .resume]

theorem conversation_paired_after_tool :
    (run (step plainHost) (Run.of guardedAgent) (untilApproval ++ afterApproval)).agent.messages =
        [.user [.text "clean up"], .assistant [.toolUse "1" "delete" ()],
          .user [.toolResult "1" [.text "null"] false]] ∧
      ∃ appended, (run (step plainHost) (Run.of guardedAgent)
          (untilApproval ++ afterApproval)).agent.messages =
        guardedAgent.messages ++ appended ++ (run (step plainHost) (Run.of guardedAgent)
          (untilApproval ++ afterApproval)).point.turn ∧ Paired appended := by
  have hmeets : Meets (step plainHost) Orderly (Run.of guardedAgent)
      (untilApproval ++ afterApproval) := by
    decide +kernel
  obtain ⟨appended, hmessages, hpaired, -⟩ :=
    (conversation_paired plainHost guardedAgent _ hmeets).1
  exact ⟨by decide +kernel, appended, hmessages, hpaired⟩

/-- While a hook approves the call, its turn has no results; the run then goes on to its
end. -/
theorem unpaired_at_approval :
    Meets (step plainHost) Orderly (Run.of guardedAgent) (untilApproval ++ afterApproval) ∧
      (∃ outcome before, (run (step plainHost) (Run.of guardedAgent)
        (untilApproval ++ afterApproval)).trace = before ++ [.event (.done outcome)]) ∧
      (∃ response plans call calls k decision answers,
        (run (step plainHost) (Run.of guardedAgent) untilApproval).point =
          .onToolApprove response plans call calls k decision answers) ∧
      (run (step plainHost) (Run.of guardedAgent) untilApproval).agent.messages =
        guardedAgent.messages ++ [.assistant [.toolUse "1" "delete" ()]] ∧
      ¬Paired [(.assistant [.toolUse "1" "delete" ()] : Message Unit)] := by
  refine ⟨by decide +kernel, ⟨_, _, rfl⟩, ⟨_, _, _, _, _, _, _, rfl⟩, by decide +kernel,
    fun hpaired => ?_⟩
  obtain ⟨contents, more, heq, -⟩ := hpaired.1 (by decide)
  cases heq

end Stakit.AgentRun
