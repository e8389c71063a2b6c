import Stakit.AgentRun

set_option autoImplicit false

namespace Stakit.AgentRun
open AgentMessages

section
variable {M J : Type}

/-- A failure that is tried again while there are retries left. -/
inductive Retried : Input J → String → Prop
  | timedOut : Retried .timedOut "transport error: provider call timed out"
  | failed (error : String) : Retried (.failed error true) error

/-- A response that is cut off: what of it is recorded, and how the run finishes. -/
inductive CutShort [DecidableEq J] (r : Run M J) (acc : StepAccum J) :
    Cut → StepAccum J → Finish → Bool → Prop
  | cancelled : CutShort r acc .cancelled acc .cancelled r.keepPartialText
  | error (e : String) :
      CutShort r acc (.error e) acc (.stopped (some s!"provider error: {e}")) true
  | rejected {message : String} (hvalid : acc.validateBlocks = .error message) :
      CutShort r acc .none acc (.stopped (some message)) true
  | truncated {valid : StepAccum J} (hvalid : acc.validateBlocks = .ok valid)
      (hstop : valid.stop = none) : CutShort r acc .none valid
        (.stopped (some "provider stream ended before its terminal event")) true

inductive Stepped [DecidableEq J] (host : Host J) (r : Run M J) : Input J → Run M J → Prop
  | cancels : Stepped host r .cancel { r with agent := { r.agent with cancelled := true } }
  | stays {input} : Stepped host r input r
  | creates (hpoint : r.point = .created) : Stepped host r .resume (create r)
  | lists (hskills : r.agent.skills = [] ∧ r.agent.hasLoader) (hpoint : r.point = .skills) :
      Stepped host r .resume (r.goto .listSkills)
  | lacks (hskills : ¬(r.agent.skills = [] ∧ r.agent.hasLoader)) (hpoint : r.point = .skills) :
      Stepped host r .resume (r.goto .constants)
  | listed {found} (hpoint : r.point = .listSkills) :
      Stepped host r (.listed (.ok found)) (listSkills r (.ok found))
  | unlisted {e} (hpoint : r.point = .listSkills) :
      Stepped host r (.listed (.error e)) (listSkills r (.error e))
  | givesBack (hpoint : r.point = .skillsDone) : Stepped host r .resume (giveBack r)
  | fixes (hpoint : r.point = .constants) : Stepped host r .resume (constants host r)
  | callsStart {k} (hk : k < r.mw.length) (hpoint : r.point = .starting k) :
      Stepped host r .resume (({ r with started := r.started + 1 }.call .onStart k).goto (.onStart k))
  | started {k} (hk : ¬k < r.mw.length) (hpoint : r.point = .starting k) :
      Stepped host r .resume (r.goto .bindLoaded)
  | startNext {k reply} (hflow : reply.flow = .ok .next) (hpoint : r.point = .onStart k) :
      Stepped host r (.hook reply) ((r.edit reply).goto (.starting (k + 1)))
  | startStops {k reply message} (hflow : reply.flow = .ok (.stop message))
      (hpoint : r.point = .onStart k) :
      Stepped host r (.hook reply) { (r.edit reply).stop message with finalText := message }
  | startFails {k reply e} (hflow : reply.flow = .error e) (hpoint : r.point = .onStart k) :
      Stepped host r (.hook reply) ((r.edit reply).stop s!"on_start error: {e}")
  | binds (hpoint : r.point = .bindLoaded) : Stepped host r .resume (bindLoaded r)
  | breaks (hcancelled : r.agent.cancelled = true) (hpoint : r.point = .loopHead) :
      Stepped host r .resume (r.goto (.finishing .cancelled 0))
  | enters (hcancelled : ¬r.agent.cancelled = true) (hpoint : r.point = .loopHead) :
      Stepped host r .resume (r.goto (.stepping 0))
  | callsStep {k} (hk : k < r.mw.length) (hpoint : r.point = .stepping k) :
      Stepped host r .resume ((r.call .onStep k).goto (.onStep k))
  | announces {k} (hk : ¬k < r.mw.length) (hpoint : r.point = .stepping k) :
      Stepped host r .resume ((r.emit (.stepStart r.totalSteps)).goto .stepStart)
  | stepNext {k reply} (hflow : reply.flow = .ok .next) (hpoint : r.point = .onStep k) :
      Stepped host r (.hook reply) ((r.edit reply).goto (.stepping (k + 1)))
  | stepStops {k reply message} (hflow : reply.flow = .ok (.stop message))
      (hpoint : r.point = .onStep k) :
      Stepped host r (.hook reply) { (r.edit reply).stop message with finalText := message }
  | stepFails {k reply e} (hflow : reply.flow = .error e) (hpoint : r.point = .onStep k) :
      Stepped host r (.hook reply) { (r.edit reply).stop s!"on_step error: {e}" with
        finalText := s!"on_step error: {e}" }
  | unregistered {cache limit} (hmodel : r.agent.currentModel ∉ r.agent.providers)
      (hpoint : r.point = .stepStart) : Stepped host r (.accepts cache limit)
        (r.stop s!"context error: no provider registered for model {host.debug r.agent.currentModel}")
  | uncached {e limit} (hmodel : r.agent.currentModel ∈ r.agent.providers)
      (hpoint : r.point = .stepStart) :
      Stepped host r (.accepts (.error e) limit) (r.stop s!"provider error: {e}")
  | refuses {limit} (hmodel : r.agent.currentModel ∈ r.agent.providers)
      (hbinding : (r.agent.replayBinding.any fun binding =>
        !binding.accepts (r.agent.buildRequest r.runTools r.runCacheKey)) = true)
      (hpoint : r.point = .stepStart) : Stepped host r (.accepts (.ok ()) limit)
        { r.stop signedContextChanged with keepPartialText := true }
  | builds {limit} (hmodel : r.agent.currentModel ∈ r.agent.providers)
      (hbinding : ¬(r.agent.replayBinding.any fun binding =>
        !binding.accepts (r.agent.buildRequest r.runTools r.runCacheKey)) = true)
      (hpoint : r.point = .stepStart) : Stepped host r (.accepts (.ok ()) limit)
        (r.goto (.acquiring ((r.agent.buildRequest r.runTools r.runCacheKey).fitTo limit) 0))
  | drops {request attempt} (hcancelled : r.agent.cancelled = true)
      (hpoint : r.point = .acquiring request attempt) : Stepped host r .resume (cancelRequest r 0)
  | sends {request} (hcancelled : ¬r.agent.cancelled = true)
      (hpoint : r.point = .acquiring request 0) : Stepped host r .resume (sendRequest r request 0)
  | waits {request attempt} (hcancelled : ¬r.agent.cancelled = true) (hattempt : attempt ≠ 0)
      (hpoint : r.point = .acquiring request attempt) :
      Stepped host r .resume (r.goto (.backoff request attempt))
  | gaveUp {request attempt} (hcancelled : r.agent.cancelled = true)
      (hpoint : r.point = .backoff request attempt) : Stepped host r .slept (cancelRequest r 0)
  | resends {request attempt} (hcancelled : ¬r.agent.cancelled = true)
      (hpoint : r.point = .backoff request attempt) :
      Stepped host r .slept (sendRequest r request attempt)
  | interrupts {request attempt input} (hinput : input ≠ .cancel)
      (hcancelled : r.agent.cancelled = true)
      (hpoint : r.point = .attempting request attempt) :
      Stepped host r input (cancelRequest r (estimatedPromptTokens host request))
  | responds {request attempt event} (hcancelled : ¬r.agent.cancelled = true)
      (hpoint : r.point = .attempting request attempt) :
      Stepped host r (.first event) (r.goto (.folding request [] .empty event))
  | retries {request attempt input error} (hcancelled : ¬r.agent.cancelled = true)
      (hretried : Retried input error) (hattempt : attempt < r.agent.maxRetries)
      (hpoint : r.point = .attempting request attempt) :
      Stepped host r input (r.goto (.acquiring request (attempt + 1)))
  | exhausts {request attempt input error} (hcancelled : ¬r.agent.cancelled = true)
      (hretried : Retried input error) (hattempt : ¬attempt < r.agent.maxRetries)
      (hpoint : r.point = .attempting request attempt) :
      Stepped host r input (r.stop s!"provider error: {error}")
  | fails {request attempt error} (hcancelled : ¬r.agent.cancelled = true)
      (hpoint : r.point = .attempting request attempt) :
      Stepped host r (.failed error false) (r.stop s!"provider error: {error}")
  | empty {request attempt} (hcancelled : ¬r.agent.cancelled = true)
      (hpoint : r.point = .attempting request attempt) : Stepped host r .empty
        (r.stop "provider error: transport error: provider stream ended before its terminal event")
  | emits {request received acc event delta} (hdelta : (acc.apply host event).2 = some delta)
      (hpoint : r.point = .folding request received acc event) :
      Stepped host r .resume ((r.emit (Delta.event delta)).goto
        (.delta request (received ++ [event]) (acc.apply host event).1))
  | folds {request received acc event} (hdelta : (acc.apply host event).2 = none)
      (hpoint : r.point = .folding request received acc event) : Stepped host r .resume
        (r.goto (.folded request (received ++ [event]) (acc.apply host event).1))
  | yielded {request received acc} (hpoint : r.point = .delta request received acc) :
      Stepped host r .resume (r.goto (.folded request received acc))
  | closes {request received acc} (hover : acc.stop.isSome ∨ acc.protocolError.isSome)
      (hpoint : r.point = .folded request received acc) :
      Stepped host r .resume (r.goto (.drained request received acc .none))
  | polls {request received acc} (hover : ¬(acc.stop.isSome ∨ acc.protocolError.isSome))
      (hpoint : r.point = .folded request received acc) :
      Stepped host r .resume (r.goto (.drain request received acc))
  | cuts {request received acc input} (hinput : input ≠ .cancel)
      (hcancelled : r.agent.cancelled = true)
      (hpoint : r.point = .drain request received acc) :
      Stepped host r input (r.goto (.drained request received acc .cancelled))
  | receives {request received acc event} (hcancelled : ¬r.agent.cancelled = true)
      (hpoint : r.point = .drain request received acc) :
      Stepped host r (.next event) (r.goto (.folding request received acc event))
  | ends {request received acc} (hcancelled : ¬r.agent.cancelled = true)
      (hpoint : r.point = .drain request received acc) :
      Stepped host r .ended (r.goto (.drained request received acc .none))
  | breaksOff {request received acc e} (hcancelled : ¬r.agent.cancelled = true)
      (hpoint : r.point = .drain request received acc) :
      Stepped host r (.streamFailed e) (r.goto (.drained request received acc (.error e)))
  | cutsOff {request received acc cut part finish keep messages text}
      (hcut : CutShort r acc.captureCompleteText cut part finish keep)
      (hmessages : messages = (recordPartial r part).agent.messages)
      (htext : text = (recordPartial r part).finalText)
      (hpoint : r.point = .drained request received acc cut) : Stepped host r .resume { r with
        agent := { r.agent.recordUsage part.partialUsage with messages := messages }
        finalText := text
        keepPartialText := keep
        point := .finishing finish 0 }
  | completes {request received acc valid stop}
      (hvalid : acc.captureCompleteText.validateBlocks = .ok valid) (hstop : valid.stop = some stop)
      (hpoint : r.point = .drained request received acc .none) : Stepped host r .resume
        (r.goto (.respond (responseOf request received r.agent.cancelled valid stop)))
  | records {response} (hpoint : r.point = .respond response) :
      Stepped host r .resume (respond r response)
  | approved {response plans} (hpoint : r.point = .approving response plans []) :
      Stepped host r .resume (r.goto (.dispatch response plans [] none))
  | considers {response plans call calls}
      (hpoint : r.point = .approving response plans (call :: calls)) :
      Stepped host r .resume (r.goto (.asking response plans call calls 0 .allow []))
  | asks {response plans call calls k decision answers} (hk : k < r.mw.length)
      (hpoint : r.point = .asking response plans call calls k decision answers) :
      Stepped host r .resume { r with
        trace := r.trace ++ [.asked r.totalSteps k ⟨call.id, call.name, call.args⟩]
        point := .onToolApprove response plans call calls k decision answers }
  | plans {response plans call calls k decision answers} (hk : ¬k < r.mw.length)
      (hpoint : r.point = .asking response plans call calls k decision answers) :
      Stepped host r .resume
        (r.goto (.approving response (plans ++ [ToolPlan.ofCall call decision answers]) calls))
  | allows {response plans call calls k decision answers}
      (hpoint : r.point = .onToolApprove response plans call calls k decision answers) :
      Stepped host r (.approval (.ok .allow))
        (r.goto (.asking response plans call calls (k + 1) decision (answers ++ [.allow])))
  | denies {response plans call calls k decision answers message}
      (hpoint : r.point = .onToolApprove response plans call calls k decision answers) :
      Stepped host r (.approval (.ok (.deny message)))
        (r.goto (.asking response plans call calls (k + 1)
          (if decision = .allow then .deny message else decision) (answers ++ [.deny message])))
  | stopsCalls {response plans call calls k decision answers message}
      (hpoint : r.point = .onToolApprove response plans call calls k decision answers) :
      Stepped host r (.approval (.ok (.stop message)))
        (r.goto (.dispatch response plans [] (some message)))
  | approvalFails {response plans call calls k decision answers e}
      (hpoint : r.point = .onToolApprove response plans call calls k decision answers) :
      Stepped host r (.approval (.error e))
        (r.goto (.dispatch response plans [] (some (some s!"on_tool_approve error: {e}"))))
  | resolves {response plans outcomes toolStop plan outcome}
      (hplan : plans[outcomes.length]? = some plan) (hmay : mayStart outcomes = true)
      (hresolved : plan.resolved r.agent = some outcome)
      (hpoint : r.point = .dispatch response plans outcomes toolStop) :
      Stepped host r .startTool
        (r.goto (.dispatch response plans (outcomes ++ [some outcome]) toolStop))
  | invokes {response plans outcomes toolStop plan} (hplan : plans[outcomes.length]? = some plan)
      (hmay : mayStart outcomes = true) (hresolved : plan.resolved r.agent = none)
      (hpoint : r.point = .dispatch response plans outcomes toolStop) :
      Stepped host r .startTool { r with
        trace := r.trace ++ [.invoked r.totalSteps response (plans.take outcomes.length) plan]
        point := .dispatch response plans (outcomes ++ [none]) toolStop }
  | toolDone {response plans outcomes toolStop position result}
      (houtcome : outcomes[position]? = some none)
      (hpoint : r.point = .dispatch response plans outcomes toolStop) :
      Stepped host r (.toolDone position result) (r.goto
        (.dispatch response plans (outcomes.set position (some (.ofResult result))) toolStop))
  | collects {response plans outcomes toolStop calls}
      (hall : outcomes.length = plans.length ∧ outcomes.all Option.isSome)
      (hcalls : calls = (plans.zip outcomes.reduceOption).map fun pair => recordOf pair.1 pair.2)
      (hpoint : r.point = .dispatch response plans outcomes toolStop) : Stepped host r .resume
        (r.goto (.results response calls toolStop (resultEvents response calls toolStop)))
  | reports {response records toolStop event left}
      (hpoint : r.point = .results response records toolStop (event :: left)) :
      Stepped host r .resume ((r.emit event).goto (.results response records toolStop left))
  | endsStep {response records toolStop} (hpoint : r.point = .results response records toolStop []) :
      Stepped host r .resume (results host r response records toolStop [])
  | keeps {response records toolStop} (hpoint : r.point = .stepEnd response records toolStop) :
      Stepped host r .resume (stepEnd r response records toolStop)
  | callsStepDone {response records toolStop k} (hk : k < r.mw.length)
      (hpoint : r.point = .finishingStep response records toolStop k) : Stepped host r .resume
        ((r.call .onStepDone k).goto (.onStepDone response records toolStop k))
  | stepStopped {response records message k} (hk : ¬k < r.mw.length)
      (hpoint : r.point = .finishingStep response records (some message) k) :
      Stepped host r .resume { r with
        finalText := message.getD r.finalText, point := .finishing (.stopped message) 0 }
  | stepFailed {response records message k} (hk : ¬k < r.mw.length)
      (hfailure : response.failure = some message)
      (hpoint : r.point = .finishingStep response records none k) :
      Stepped host r .resume { r.stop message with keepPartialText := true }
  | turnEnds {response k} (hk : ¬k < r.mw.length) (hfailure : response.failure = none)
      (hpoint : r.point = .finishingStep response [] none k) :
      Stepped host r .resume (r.goto (.finishing .endTurn 0))
  | limits {response records k} (hk : ¬k < r.mw.length) (hfailure : response.failure = none)
      (hrecords : records ≠ []) (hsteps : r.totalSteps ≥ defaultMaxSteps)
      (hpoint : r.point = .finishingStep response records none k) :
      Stepped host r .resume (r.goto (.finishing (.limit defaultMaxSteps) 0))
  | loops {response records k} (hk : ¬k < r.mw.length) (hfailure : response.failure = none)
      (hrecords : records ≠ []) (hsteps : ¬r.totalSteps ≥ defaultMaxSteps)
      (hpoint : r.point = .finishingStep response records none k) :
      Stepped host r .resume (r.goto .loopHead)
  | stepDoneNext {response records toolStop k reply} (hflow : reply.flow = .ok .next)
      (hpoint : r.point = .onStepDone response records toolStop k) : Stepped host r (.hook reply)
        ((r.edit reply).goto (.finishingStep response records toolStop (k + 1)))
  | stepDoneStops {response records toolStop k reply message}
      (hflow : reply.flow = .ok (.stop message))
      (hpoint : r.point = .onStepDone response records toolStop k) :
      Stepped host r (.hook reply) { (r.edit reply).stop message with finalText := message }
  | stepDoneFails {response records toolStop k reply e} (hflow : reply.flow = .error e)
      (hpoint : r.point = .onStepDone response records toolStop k) :
      Stepped host r (.hook reply) { (r.edit reply).stop s!"on_step_done error: {e}" with
        finalText := s!"on_step_done error: {e}" }
  | callsFinish {finish k} (hk : k < min r.started r.mw.length)
      (hpoint : r.point = .finishing finish k) :
      Stepped host r .resume ((r.call .onFinish k).goto (.onFinish finish k))
  | finishes {finish k} (hk : ¬k < min r.started r.mw.length)
      (hpoint : r.point = .finishing finish k) : Stepped host r .resume
        (({ r with agent := { r.agent with middleware := r.mw }, mw := [] }.emit (.done
          { text := outcomeText r finish
            usage := r.agent.usage
            steps := r.totalSteps
            finish := finish })).goto .done)
  | finishNext {finish k reply} (hpoint : r.point = .onFinish finish k) :
      Stepped host r (.hook reply) (r.goto (.finishing finish (k + 1)))
  | returns (hpoint : r.point = .done) : Stepped host r .resume (r.goto .returned)

variable [DecidableEq J] {host : Host J} {r : Run M J} {input : Input J}

theorem retry_stepped {request : ChatRequest J} {attempt : ℕ} {error : String}
    (hcancelled : ¬r.agent.cancelled = true) (hretried : Retried input error)
    (hpoint : r.point = .attempting request attempt) :
    Stepped host r input (retry r request attempt error) := by
  unfold retry
  split_ifs with hattempt
  · exact .retries hcancelled hretried hattempt hpoint
  · exact .exhausts hcancelled hretried hattempt hpoint

theorem attempting_stepped {request : ChatRequest J} {attempt : ℕ} (hinput : input ≠ .cancel)
    (hpoint : r.point = .attempting request attempt) :
    Stepped host r input (attempting host r request attempt input) := by
  unfold attempting
  split_ifs with hcancelled
  · exact .interrupts hinput hcancelled hpoint
  · split
    · exact .responds hcancelled hpoint
    · exact retry_stepped hcancelled .timedOut hpoint
    · exact retry_stepped hcancelled (.failed _) hpoint
    · exact .fails hcancelled hpoint
    · exact .empty hcancelled hpoint
    · exact .stays

theorem stepStart_stepped (cache : Except String Unit) (limit : Option ℕ)
    (hpoint : r.point = .stepStart) :
    Stepped host r (.accepts cache limit) (stepStart host r cache limit) := by
  unfold stepStart
  dsimp only
  by_cases hmodel : r.agent.currentModel ∈ r.agent.providers
  · rw [if_neg (not_not.mpr hmodel)]
    cases cache with
    | error e => exact .uncached hmodel hpoint
    | ok =>
      dsimp only
      split_ifs with hbinding
      · exact .refuses hmodel hbinding hpoint
      · exact .builds hmodel hbinding hpoint
  · rw [if_pos hmodel]
    exact .unregistered hmodel hpoint

omit [DecidableEq J] in
theorem recordPartial_eq (r : Run M J) (acc : StepAccum J) : recordPartial r acc = { r with
    agent := { r.agent.recordUsage acc.partialUsage with
      messages := (recordPartial r acc).agent.messages }
    finalText := (recordPartial r acc).finalText } := by
  unfold recordPartial
  dsimp only
  split_ifs <;> rfl

theorem drained_stepped {request : ChatRequest J} {received : List (StreamEvent J)}
    {acc : StepAccum J} {cut : Cut} (hpoint : r.point = .drained request received acc cut) :
    Stepped host r .resume (drained r request received acc cut) := by
  unfold drained interrupt
  dsimp only
  cases cut with
  | cancelled =>
    rw [recordPartial_eq]
    exact .cutsOff .cancelled rfl rfl hpoint
  | error e =>
    dsimp only
    rw [recordPartial_eq]
    exact .cutsOff (.error e) rfl rfl hpoint
  | none =>
    cases hvalid : acc.captureCompleteText.validateBlocks with
    | error message =>
      dsimp only
      rw [recordPartial_eq]
      exact .cutsOff (.rejected hvalid) rfl rfl hpoint
    | ok valid =>
      dsimp only
      cases hstop : valid.stop with
      | none =>
        dsimp only
        rw [recordPartial_eq]
        exact .cutsOff (.truncated hvalid hstop) rfl rfl hpoint
      | some stop => exact .completes hvalid hstop hpoint

theorem dispatch_stepped {response : Response J} {plans : List (ToolPlan J)}
    {outcomes : List (Option (ToolOutcome J))} {toolStop : Option (Option String)}
    (hpoint : r.point = .dispatch response plans outcomes toolStop) :
    Stepped host r input (dispatch r response plans outcomes toolStop input) := by
  unfold dispatch
  split
  · unfold startTool
    split
    · exact .stays
    · rename_i plan hplan
      split_ifs with hmay
      · split
        · rename_i hresolved
          exact .resolves hplan hmay hresolved hpoint
        · rename_i hresolved
          exact .invokes hplan hmay hresolved hpoint
      · exact .stays
  · unfold toolDone
    split
    · rename_i houtcome
      exact .toolDone houtcome hpoint
    · exact .stays
  · split_ifs with hall
    · exact .collects hall rfl hpoint
    · exact .stays
  · exact .stays

theorem finishingStep_stepped {response : Response J} {records : List (ToolCallRecord J)}
    {toolStop : Option (Option String)} {k : ℕ}
    (hpoint : r.point = .finishingStep response records toolStop k) :
    Stepped host r .resume (finishingStep r response records toolStop k) := by
  unfold finishingStep
  split_ifs with hk
  · exact .callsStepDone hk hpoint
  · unfold decideStep
    cases toolStop with
    | some message => exact .stepStopped hk hpoint
    | none =>
      dsimp only
      cases hfailure : response.failure with
      | some message => exact .stepFailed hk hfailure hpoint
      | none =>
        dsimp only
        split_ifs with hrecords hsteps
        · subst hrecords
          exact .turnEnds hk hfailure hpoint
        · exact .limits hk hfailure hrecords hsteps hpoint
        · exact .loops hk hfailure hrecords hsteps hpoint

theorem advance_stepped (hinput : input ≠ .cancel) :
    Stepped host r input (advance host r input) := by
  unfold advance
  split
  all_goals rename_i hpoint
  · exact .creates hpoint
  · unfold skills
    split_ifs with hskills
    · exact .lists hskills hpoint
    · exact .lacks hskills hpoint
  · rename_i found
    cases found with
    | ok found => exact .listed hpoint
    | error e => exact .unlisted hpoint
  · exact .givesBack hpoint
  · exact .fixes hpoint
  · unfold starting
    split_ifs with hk
    · exact .callsStart hk hpoint
    · exact .started hk hpoint
  · unfold onStart
    dsimp only
    split
    · exact .startNext ‹_› hpoint
    · exact .startStops ‹_› hpoint
    · exact .startFails ‹_› hpoint
  · exact .binds hpoint
  · unfold loopHead
    split_ifs with hcancelled
    · exact .breaks hcancelled hpoint
    · exact .enters hcancelled hpoint
  · unfold stepping
    split_ifs with hk
    · exact .callsStep hk hpoint
    · exact .announces hk hpoint
  · unfold onStep
    dsimp only
    split
    · exact .stepNext ‹_› hpoint
    · exact .stepStops ‹_› hpoint
    · exact .stepFails ‹_› hpoint
  · exact stepStart_stepped _ _ hpoint
  · unfold acquiring
    split_ifs with hcancelled hattempt
    · exact .drops hcancelled hpoint
    · subst hattempt
      exact .sends hcancelled hpoint
    · exact .waits hcancelled hattempt hpoint
  · unfold backoff
    split_ifs with hcancelled
    · exact .gaveUp hcancelled hpoint
    · exact .resends hcancelled hpoint
  · exact attempting_stepped hinput hpoint
  · unfold folding
    dsimp only
    split
    · exact .emits ‹_› hpoint
    · exact .folds ‹_› hpoint
  · exact .yielded hpoint
  · unfold folded
    split_ifs with hover
    · exact .closes hover hpoint
    · exact .polls hover hpoint
  · unfold drain
    split_ifs with hcancelled
    · exact .cuts hinput hcancelled hpoint
    · split
      · exact .receives hcancelled hpoint
      · exact .ends hcancelled hpoint
      · exact .breaksOff hcancelled hpoint
      · exact .stays
  · exact drained_stepped hpoint
  · exact .records hpoint
  · unfold approving
    split
    · exact .approved hpoint
    · exact .considers hpoint
  · unfold asking
    split_ifs with hk
    · exact .asks hk hpoint
    · exact .plans hk hpoint
  · unfold onToolApprove
    split
    · exact .allows hpoint
    · exact .denies hpoint
    · exact .stopsCalls hpoint
    · exact .approvalFails hpoint
  · exact dispatch_stepped hpoint
  · unfold results
    split
    · exact .reports hpoint
    · exact .endsStep hpoint
  · exact .keeps hpoint
  · exact finishingStep_stepped hpoint
  · unfold onStepDone
    dsimp only
    split
    · exact .stepDoneNext ‹_› hpoint
    · exact .stepDoneStops ‹_› hpoint
    · exact .stepDoneFails ‹_› hpoint
  · unfold finishing
    split_ifs with hk
    · exact .callsFinish hk hpoint
    · exact .finishes hk hpoint
  · exact .finishNext hpoint
  · exact .returns hpoint
  · exact .stays

theorem step_stepped : Stepped host r input (step host r input) := by
  unfold step
  split
  · exact .cancels
  · rename_i hinput
    exact advance_stepped hinput

end

end Stakit.AgentRun
