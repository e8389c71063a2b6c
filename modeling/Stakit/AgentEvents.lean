import Stakit.AgentDrop

set_option autoImplicit false

namespace Stakit.AgentRun
open AgentMessages TransitionRuns List

section
variable {M J : Type}

def Entry.toEvent : Entry J → Option (AgentEvent J)
  | .event emitted => some emitted
  | _ => none

def events (trace : List (Entry J)) : List (AgentEvent J) := trace.filterMap Entry.toEvent

def Entry.toCall (hook : Hook) : Entry J → Option ℕ
  | .hook other k => if other = hook then some k else none
  | _ => none

def calls (hook : Hook) (trace : List (Entry J)) : List ℕ := trace.filterMap (Entry.toCall hook)

def IsText : AgentEvent J → Prop
  | .reasoningDelta _ | .messageDelta _ => True
  | _ => False

def IsDelta : AgentEvent J → Prop
  | .reasoningDelta _ | .messageDelta _ | .toolCall _ _ _ => True
  | _ => False

def IsResult : AgentEvent J → Prop
  | .toolResult _ _ _ => True
  | _ => False

def isStepEnd : AgentEvent J → Bool
  | .stepEnd _ _ _ _ => true
  | _ => false

def Callless (events : List (AgentEvent J)) : Prop :=
  ∀ id name args, .toolCall id name args ∉ events

def CompleteStep (index : ℕ) (step : List (AgentEvent J)) : Prop :=
  ∃ deltas results text reasoning usage,
    step = .stepStart index :: (deltas ++ (results ++ [.stepEnd index text reasoning usage])) ∧
      (∀ event ∈ deltas, IsDelta event) ∧ ∀ event ∈ results, IsResult event

inductive Steps : ℕ → List (AgentEvent J) → Prop
  | nil : Steps 0 []
  | snoc (n : ℕ) (steps step : List (AgentEvent J)) (hsteps : Steps n steps)
      (hstep : CompleteStep n step) : Steps (n + 1) (steps ++ step)

/-- A step that was left before its end, or nothing. -/
def Unfinished (allowed : AgentEvent J → Prop) (index : ℕ) (rest : List (AgentEvent J)) : Prop :=
  rest = [] ∨ ∃ deltas, rest = .stepStart index :: deltas ∧ ∀ event ∈ deltas, allowed event

/-- Complete steps, at most one unfinished step, and the outcome. -/
def Protocol (allowed : AgentEvent J → Prop) (events : List (AgentEvent J)) (outcome : Outcome) :
    Prop :=
  ∃ steps rest, events = steps ++ rest ++ [.done outcome] ∧ Steps outcome.steps steps ∧
    Unfinished allowed outcome.steps rest

def LastCallless (n : ℕ) (events : List (AgentEvent J)) : Prop :=
  ∃ k steps step, n = k + 1 ∧ events = steps ++ step ∧ Steps k steps ∧ CompleteStep k step ∧
    Callless step

/-- The last response ended its turn without tool calls. -/
def EndedTurn (lastStep : Option (Step J)) : Prop :=
  ∃ step, lastStep = some step ∧ step.toolCalls = [] ∧
    (step.stop = .endTurn ∨ ∃ sequence, step.stop = .stopSequence sequence)

theorem events_event (trace : List (Entry J)) (event : AgentEvent J) :
    events (trace ++ [.event event]) = events trace ++ [event] :=
  filterMap_append ..

theorem events_hook (trace : List (Entry J)) (hook : Hook) (k : ℕ) :
    events (trace ++ [.hook hook k]) = events trace :=
  (filterMap_append ..).trans (append_nil _)

theorem events_request (trace : List (Entry J)) (request : ChatRequest J) :
    events (trace ++ [.request request]) = events trace :=
  (filterMap_append ..).trans (append_nil _)

theorem events_asked (trace : List (Entry J)) (step k : ℕ) (call : PendingToolCall J) :
    events (trace ++ [.asked step k call]) = events trace :=
  (filterMap_append ..).trans (append_nil _)

theorem events_invoked (trace : List (Entry J)) (step : ℕ) (response : Response J)
    (before : List (ToolPlan J)) (plan : ToolPlan J) :
    events (trace ++ [.invoked step response before plan]) = events trace :=
  (filterMap_append ..).trans (append_nil _)

theorem calls_hook (hook : Hook) (trace : List (Entry J)) (k : ℕ) :
    calls hook (trace ++ [.hook hook k]) = calls hook trace ++ [k] := by
  have hcall : Entry.toCall hook (.hook hook k : Entry J) = some k := if_pos rfl
  unfold calls
  rw [filterMap_append, filterMap_cons_some hcall]
  rfl

theorem calls_other (hook other : Hook) (h : other ≠ hook) (trace : List (Entry J)) (k : ℕ) :
    calls hook (trace ++ [.hook other k]) = calls hook trace := by
  have hcall : Entry.toCall hook (.hook other k : Entry J) = none := if_neg h
  unfold calls
  rw [filterMap_append, filterMap_cons_none hcall]
  exact append_nil _

theorem calls_event (hook : Hook) (trace : List (Entry J)) (event : AgentEvent J) :
    calls hook (trace ++ [.event event]) = calls hook trace :=
  (filterMap_append ..).trans (append_nil _)

theorem calls_request (hook : Hook) (trace : List (Entry J)) (request : ChatRequest J) :
    calls hook (trace ++ [.request request]) = calls hook trace :=
  (filterMap_append ..).trans (append_nil _)

theorem calls_asked (hook : Hook) (trace : List (Entry J)) (step k : ℕ)
    (call : PendingToolCall J) :
    calls hook (trace ++ [.asked step k call]) = calls hook trace :=
  (filterMap_append ..).trans (append_nil _)

theorem calls_invoked (hook : Hook) (trace : List (Entry J)) (step : ℕ) (response : Response J)
    (before : List (ToolPlan J)) (plan : ToolPlan J) :
    calls hook (trace ++ [.invoked step response before plan]) = calls hook trace :=
  (filterMap_append ..).trans (append_nil _)

theorem CompleteStep.count {index : ℕ} {step : List (AgentEvent J)} (h : CompleteStep index step) :
    step.countP isStepEnd = 1 := by
  obtain ⟨deltas, results, text, reasoning, usage, rfl, hdeltas, hresults⟩ := h
  have hnone : ∀ events : List (AgentEvent J), (∀ event ∈ events, IsDelta event ∨ IsResult event) →
      events.countP isStepEnd = 0 := by
    intro events hall
    refine countP_eq_zero.mpr fun event hevent => ?_
    cases event with
    | stepEnd => exact ((hall _ hevent).elim id id).elim
    | _ => exact Bool.false_ne_true
  rw [countP_cons_of_neg Bool.false_ne_true, countP_append, countP_append,
    hnone deltas fun event hevent => Or.inl (hdeltas event hevent),
    hnone results fun event hevent => Or.inr (hresults event hevent)]
  rfl

theorem Steps.count {n : ℕ} {steps : List (AgentEvent J)} (h : Steps n steps) :
    steps.countP isStepEnd = n := by
  induction h with
  | nil => rfl
  | snoc n steps step hsteps hstep ih => rw [countP_append, ih, hstep.count]

theorem Unfinished.count {n : ℕ} {rest : List (AgentEvent J)} (h : Unfinished IsDelta n rest) :
    rest.countP isStepEnd = 0 := by
  obtain rfl | ⟨deltas, rfl, hdeltas⟩ := h
  · rfl
  · rw [countP_cons_of_neg Bool.false_ne_true]
    refine countP_eq_zero.mpr fun event hevent => ?_
    cases event with
    | stepEnd => exact (hdeltas _ hevent).elim
    | _ => exact Bool.false_ne_true

theorem Protocol.count {events : List (AgentEvent J)} {outcome : Outcome}
    (h : Protocol IsDelta events outcome) : events.countP isStepEnd = outcome.steps := by
  obtain ⟨steps, rest, rfl, hsteps, hrest⟩ := h
  rw [countP_append, countP_append, hsteps.count, hrest.count]
  rfl

/-- The steps before the current one are complete, and the current one has begun. -/
structure Opened (trace : List (Entry J)) (n : ℕ) (tail : List (AgentEvent J)) : Prop where
  events : ∃ steps, events trace = steps ++ .stepStart n :: tail ∧ Steps n steps
  bounded : n < defaultMaxSteps

/-- The current step as far as its response goes. -/
def Streaming (trace : List (Entry J)) (n : ℕ) (quiet : Prop) : Prop :=
  ∃ deltas, Opened trace n deltas ∧ (∀ event ∈ deltas, IsDelta event) ∧ (quiet → Callless deltas)

def Resulting (trace : List (Entry J)) (n : ℕ) (left : List (AgentEvent J)) (quiet : Prop) : Prop :=
  ∃ deltas results, Opened trace n (deltas ++ results) ∧ (∀ event ∈ deltas, IsDelta event) ∧
    (∀ event ∈ results ++ left, IsResult event) ∧ (quiet → Callless deltas)

structure Ended (trace : List (Entry J)) (n : ℕ) (quiet : Prop) : Prop where
  steps : Steps n (events trace)
  bounded : n ≤ defaultMaxSteps
  last : quiet → LastCallless n (events trace)

structure Left (trace : List (Entry J)) (n : ℕ) (lastStep : Option (Step J)) (finish : Finish) :
    Prop where
  events : ∃ steps rest, events trace = steps ++ rest ∧ Steps n steps ∧ Unfinished IsDelta n rest
  bounded : n ≤ defaultMaxSteps
  last : finish = .endTurn → LastCallless n (AgentRun.events trace) ∧ EndedTurn lastStep

def Response.EndsTurn (response : Response J) : Prop :=
  response.calls = [] ∧ response.failure = none

def IsLast (lastStep : Option (Step J)) (response : Response J)
    (records : List (ToolCallRecord J)) : Prop :=
  ∃ step, lastStep = some step ∧ step.toolCalls = records ∧ step.stop = response.stop

def Run.Emitted (r : Run M J) : Prop :=
  match r.point with
  | .created => r.trace = []
  | .skills | .listSkills | .constants | .starting _ | .onStart _ | .bindLoaded | .loopHead
  | .stepping _ | .onStep _ => Steps r.totalSteps (events r.trace) ∧ r.totalSteps < defaultMaxSteps
  | .stepStart | .acquiring _ _ | .backoff _ _ | .attempting _ _ => Opened r.trace r.totalSteps []
  | .folding _ _ acc _ | .delta _ _ acc | .folded _ _ acc | .drain _ _ acc
  | .drained _ _ acc _ => Streaming r.trace r.totalSteps (acc.toolCalls = [])
  | .respond response | .approving response _ _ | .asking response _ _ _ _ _ _
  | .onToolApprove response _ _ _ _ _ _ | .dispatch response _ _ _ =>
    Streaming r.trace r.totalSteps response.EndsTurn
  | .results response _ _ left => Resulting r.trace r.totalSteps left response.EndsTurn
  | .stepEnd response _ _ => Ended r.trace r.totalSteps response.EndsTurn
  | .finishingStep response records _ _ | .onStepDone response records _ _ =>
    Ended r.trace r.totalSteps response.EndsTurn ∧ IsLast r.lastStep response records
  | .finishing finish _ | .onFinish finish _ => Left r.trace r.totalSteps r.lastStep finish
  | .skillsDone | .done | .returned => ∃ before outcome,
    r.trace = before ++ [.event (.done outcome)] ∧ outcome.steps = r.totalSteps ∧
      Left before r.totalSteps r.lastStep outcome.finish

theorem steps_left {trace : List (Entry J)} {n : ℕ} (h : Steps n (events trace))
    (hbounded : n < defaultMaxSteps) (lastStep : Option (Step J)) (finish : Finish)
    (hfinish : finish ≠ .endTurn) : Left trace n lastStep finish :=
  ⟨⟨events trace, [], (append_nil _).symm, h, Or.inl rfl⟩, hbounded.le, fun heq =>
    absurd heq hfinish⟩

theorem Opened.left {trace : List (Entry J)} {n : ℕ} {deltas : List (AgentEvent J)}
    (h : Opened trace n deltas) (hdeltas : ∀ event ∈ deltas, IsDelta event)
    (lastStep : Option (Step J)) (finish : Finish) (hfinish : finish ≠ .endTurn) :
    Left trace n lastStep finish := by
  obtain ⟨steps, hevents, hsteps⟩ := h.events
  exact ⟨⟨steps, _, hevents, hsteps, Or.inr ⟨deltas, rfl, hdeltas⟩⟩, h.bounded.le, fun heq =>
    absurd heq hfinish⟩

theorem Opened.emit {trace : List (Entry J)} {n : ℕ} {tail : List (AgentEvent J)}
    (h : Opened trace n tail) (event : AgentEvent J) :
    Opened (trace ++ [.event event]) n (tail ++ [event]) := by
  obtain ⟨steps, hevents, hsteps⟩ := h.events
  refine ⟨⟨steps, ?_, hsteps⟩, h.bounded⟩
  rw [events_event, hevents, append_assoc, cons_append]

theorem Opened.same {trace other : List (Entry J)} {n : ℕ} {tail : List (AgentEvent J)}
    (h : Opened trace n tail) (hevents : AgentRun.events other = AgentRun.events trace) :
    Opened other n tail :=
  ⟨by rw [hevents]; exact h.events, h.bounded⟩

theorem Streaming.same {trace other : List (Entry J)} {n : ℕ} {quiet : Prop}
    (h : Streaming trace n quiet) (hevents : events other = events trace) :
    Streaming other n quiet := by
  obtain ⟨deltas, hopened, hrest⟩ := h
  exact ⟨deltas, hopened.same hevents, hrest⟩

theorem Streaming.mono {trace : List (Entry J)} {n : ℕ} {quiet other : Prop}
    (h : Streaming trace n quiet) (himp : other → quiet) : Streaming trace n other := by
  obtain ⟨deltas, hopened, hdeltas, hquiet⟩ := h
  exact ⟨deltas, hopened, hdeltas, fun hother => hquiet (himp hother)⟩

theorem Streaming.left {trace : List (Entry J)} {n : ℕ} {quiet : Prop}
    (h : Streaming trace n quiet) (lastStep : Option (Step J)) (finish : Finish)
    (hfinish : finish ≠ .endTurn) : Left trace n lastStep finish := by
  obtain ⟨deltas, hopened, hdeltas, -⟩ := h
  exact hopened.left hdeltas lastStep finish hfinish

theorem Ended.same {trace other : List (Entry J)} {n : ℕ} {quiet : Prop} (h : Ended trace n quiet)
    (hevents : events other = events trace) : Ended other n quiet :=
  ⟨by rw [hevents]; exact h.steps, h.bounded, by rw [hevents]; exact h.last⟩

theorem Ended.left {trace : List (Entry J)} {n : ℕ} {quiet : Prop} (h : Ended trace n quiet)
    (lastStep : Option (Step J)) (finish : Finish)
    (hfinish : finish = .endTurn → quiet ∧ EndedTurn lastStep) : Left trace n lastStep finish :=
  ⟨⟨events trace, [], (append_nil _).symm, h.steps, Or.inl rfl⟩, h.bounded, fun heq =>
    ⟨h.last (hfinish heq).1, (hfinish heq).2⟩⟩

theorem Left.same {trace other : List (Entry J)} {n : ℕ} {lastStep : Option (Step J)}
    {finish : Finish} (h : Left trace n lastStep finish)
    (hevents : AgentRun.events other = AgentRun.events trace) : Left other n lastStep finish :=
  ⟨by rw [hevents]; exact h.events, h.bounded, by rw [hevents]; exact h.last⟩

theorem apply_callless (host : Host J) (acc : StepAccum J) (event : StreamEvent J)
    (h : (acc.apply host event).1.toolCalls = []) :
    acc.toolCalls = [] ∧
      ∀ id name args, (acc.apply host event).2 ≠ some (.toolCall id name args) := by
  unfold StepAccum.apply at h ⊢
  dsimp only at h ⊢
  split_ifs at h ⊢
  · exact ⟨h, nofun⟩
  · cases event with
    | assistantBlock index content =>
      unfold StepAccum.applyBlock at h
      dsimp only at h
      split_ifs at h <;> exact ⟨h, nofun⟩
    | toolCall id name arguments =>
      unfold StepAccum.applyCall at h ⊢
      dsimp only at h ⊢
      split_ifs at h ⊢
      · exact ⟨h, nofun⟩
      · exact absurd h (append_ne_nil_of_right_ne_nil _ (cons_ne_nil _ _))
    | _ => exact ⟨h, nofun⟩

theorem Opened.unstarted {trace : List (Entry J)} {n : ℕ} (h : Opened trace n [])
    (lastStep : Option (Step J)) (finish : Finish) (hfinish : finish ≠ .endTurn) :
    Left trace n lastStep finish :=
  h.left nofun lastStep finish hfinish

theorem isDelta_event (delta : Delta J) : IsDelta (Delta.event delta) := by
  cases delta <;> trivial

theorem Streaming.emit {host : Host J} {trace : List (Entry J)} {n : ℕ} {acc : StepAccum J}
    {event : StreamEvent J} {delta : Delta J} (h : Streaming trace n (acc.toolCalls = []))
    (hdelta : (acc.apply host event).2 = some delta) :
    Streaming (trace ++ [.event (Delta.event delta)]) n
      ((acc.apply host event).1.toolCalls = []) := by
  obtain ⟨deltas, hopened, hdeltas, hquiet⟩ := h
  refine ⟨deltas ++ [Delta.event delta], hopened.emit _, fun event hevent => ?_,
    fun hempty id name args hmem => ?_⟩
  · obtain hevent | hevent := mem_append.mp hevent
    · exact hdeltas event hevent
    · obtain rfl := mem_singleton.mp hevent
      exact isDelta_event delta
  · obtain ⟨hbefore, hother⟩ := apply_callless host acc event hempty
    obtain hmem | hmem := mem_append.mp hmem
    · exact hquiet hbefore id name args hmem
    · cases delta with
      | toolCall => exact hother _ _ _ hdelta
      | _ => cases mem_singleton.mp hmem

theorem responseOf_endsTurn [DecidableEq J] (request : ChatRequest J)
    (received : List (StreamEvent J)) (cancelled : Bool) {acc valid : StepAccum J}
    (stop : StopReason) (hvalid : acc.captureCompleteText.validateBlocks = .ok valid)
    (h : (responseOf request received cancelled valid stop).EndsTurn) : acc.toolCalls = [] := by
  obtain ⟨hcalls, hfailure⟩ := h
  have hperm := (validateBlocks_ok hvalid).2.1
  unfold responseOf at hcalls hfailure
  dsimp only at hcalls hfailure
  rw [hfailure] at hcalls
  change valid.toolCalls = [] at hcalls
  rw [hcalls] at hperm
  exact hperm.eq_nil

theorem Streaming.results {trace : List (Entry J)} {n : ℕ} {quiet : Prop}
    (h : Streaming trace n quiet) (response : Response J) (records : List (ToolCallRecord J))
    (toolStop : Option (Option String)) :
    Resulting trace n (resultEvents response records toolStop) quiet := by
  obtain ⟨deltas, hopened, hdeltas, hquiet⟩ := h
  refine ⟨deltas, [], ?_, hdeltas, fun event hevent => ?_, hquiet⟩
  · rw [append_nil]
    exact hopened
  · rw [nil_append] at hevent
    obtain hevent | hevent := mem_append.mp hevent
    · obtain ⟨record, -, rfl⟩ := mem_map.mp hevent
      trivial
    · obtain ⟨id, -, rfl⟩ := mem_map.mp hevent
      trivial

theorem results_emitted (host : Host J) {r : Run M J} {response : Response J}
    (records : List (ToolCallRecord J)) (toolStop : Option (Option String))
    {left : List (AgentEvent J)}
    (h : Resulting r.trace r.totalSteps left response.EndsTurn) :
    (results host r response records toolStop left).Emitted := by
  obtain ⟨deltas, results, hopened, hdeltas, hresults, hquiet⟩ := h
  cases left with
  | cons event left =>
    refine ⟨deltas, results ++ [event], ?_, hdeltas, ?_, hquiet⟩
    · rw [← append_assoc]
      exact hopened.emit event
    · rw [append_assoc]
      exact hresults
  | nil =>
    rw [append_nil] at hresults
    obtain ⟨steps, hevents, hsteps⟩ := hopened.events
    have hstep : CompleteStep r.totalSteps (.stepStart r.totalSteps :: (deltas ++ (results ++
        [.stepEnd r.totalSteps (response.text.getD "") response.reasoning response.usage]))) :=
      ⟨deltas, results, _, _, _, rfl, hdeltas, hresults⟩
    have htrace : ∀ event : AgentEvent J, events (r.trace ++ [.event event]) =
        steps ++ .stepStart r.totalSteps :: (deltas ++ (results ++ [event])) := by
      intro event
      rw [events_event, hevents]
      simp
    refine ⟨?_, hopened.bounded, fun hends => ⟨r.totalSteps, steps, _, rfl, htrace _, hsteps,
      hstep, fun id name args hmem => ?_⟩⟩
    · change Steps (r.totalSteps + 1) (events (r.trace ++ [.event _]))
      rw [htrace]
      exact .snoc _ _ _ hsteps hstep
    · simp only [mem_cons, mem_append, reduceCtorEq, not_mem_nil, false_or, or_false] at hmem
      obtain hmem | hmem := hmem
      · exact hquiet hends id name args hmem
      · exact hresults _ hmem

theorem endedTurn_of_batch {response : Response J} {lastStep : Option (Step J)}
    (hbatch : Recorded response [] none) (hfailure : response.failure = none)
    (hlast : IsLast lastStep response []) : response.EndsTurn ∧ EndedTurn lastStep := by
  obtain ⟨step, hstep, hcalls, hreason⟩ := hlast
  have hempty : response.calls = [] := map_eq_nil_iff.mp (hbatch.all rfl).symm
  refine ⟨⟨hempty, hfailure⟩, step, hstep, hcalls, ?_⟩
  have hauthorized := hbatch.sound.authorized hfailure
  unfold Response.hasTools at hauthorized
  rw [hempty] at hauthorized
  rw [hreason]
  cases hresponse : response.stop with
  | endTurn => exact Or.inl rfl
  | stopSequence sequence => exact Or.inr ⟨sequence, rfl⟩
  | _ =>
    rw [hresponse] at hauthorized
    cases hauthorized

theorem Stepped.emitted [DecidableEq J] {host : Host J} {r next : Run M J} {input : Input J}
    (hstep : Stepped host r input next) (hbatch : r.point.Batch) (h : r.Emitted) :
    next.Emitted := by
  have hat : ∀ point, r.point = point → Run.Emitted { r with point := point } :=
    fun _ hpoint => hpoint ▸ h
  have hhook : ∀ hook k, Steps r.totalSteps (events r.trace) →
      Steps r.totalSteps (events (r.trace ++ [.hook hook k])) := by
    intro hook k hsteps
    rwa [events_hook]
  cases hstep with
  | cancels | stays => exact h
  | creates hpoint =>
    have htrace : r.trace = [] := hat _ hpoint
    refine ⟨?_, Nat.zero_lt_succ _⟩
    change Steps 0 (events r.trace)
    rw [htrace]
    exact .nil
  | unlisted hpoint =>
    exact ⟨r.trace, _, rfl, rfl, steps_left (hat _ hpoint).1 (hat _ hpoint).2 _ _ (by simp)⟩
  | callsStart _ hpoint | callsStep _ hpoint =>
    exact ⟨hhook _ _ (hat _ hpoint).1, (hat _ hpoint).2⟩
  | startStops _ hpoint | startFails _ hpoint | breaks _ hpoint | stepStops _ hpoint
  | stepFails _ hpoint => exact steps_left (hat _ hpoint).1 (hat _ hpoint).2 _ _ (by simp)
  | announces _ hpoint =>
    exact ⟨⟨events r.trace, events_event _ _, (hat _ hpoint).1⟩, (hat _ hpoint).2⟩
  | unregistered _ hpoint | uncached _ hpoint | refuses _ _ hpoint | drops _ hpoint
  | gaveUp _ hpoint | interrupts _ _ hpoint | exhausts _ _ _ hpoint | fails _ hpoint
  | empty _ hpoint => exact Opened.unstarted (hat _ hpoint) _ _ (by simp)
  | sends _ hpoint | resends _ hpoint => exact Opened.same (hat _ hpoint) (events_request ..)
  | responds _ hpoint =>
    exact ⟨[], hat _ hpoint, nofun, fun _ _ _ _ => not_mem_nil⟩
  | emits hdelta hpoint => exact Streaming.emit (hat _ hpoint) hdelta
  | folds _ hpoint =>
    exact Streaming.mono (hat _ hpoint) fun hempty => (apply_callless host _ _ hempty).1
  | cutsOff hcut _ _ hpoint =>
    exact Streaming.left (hat _ hpoint) _ _ (by cases hcut <;> exact Finish.noConfusion)
  | completes hvalid _ hpoint =>
    exact Streaming.mono (hat _ hpoint) (responseOf_endsTurn _ _ _ _ hvalid)
  | asks _ hpoint => exact Streaming.same (hat _ hpoint) (events_asked ..)
  | invokes _ _ _ hpoint => exact Streaming.same (hat _ hpoint) (events_invoked ..)
  | collects _ _ hpoint => exact Streaming.results (hat _ hpoint) _ _ _
  | reports hpoint | endsStep hpoint => exact results_emitted host _ _ (hat _ hpoint)
  | keeps hpoint => exact ⟨hat _ hpoint, _, rfl, rfl, rfl⟩
  | callsStepDone _ hpoint => exact ⟨(hat _ hpoint).1.same (events_hook ..), (hat _ hpoint).2⟩
  | stepStopped _ hpoint | stepFailed _ _ hpoint | limits _ _ _ _ hpoint
  | stepDoneStops _ hpoint | stepDoneFails _ hpoint =>
    exact (hat _ hpoint).1.left _ _ nofun
  | turnEnds _ hfailure hpoint =>
    rw [hpoint] at hbatch
    exact (hat _ hpoint).1.left _ _ fun _ => endedTurn_of_batch hbatch hfailure (hat _ hpoint).2
  | loops _ _ _ hsteps hpoint => exact ⟨(hat _ hpoint).1.steps, Nat.lt_of_not_le hsteps⟩
  | callsFinish _ hpoint => exact Left.same (hat _ hpoint) (events_hook ..)
  | finishes _ hpoint => exact ⟨r.trace, _, rfl, rfl, hat _ hpoint⟩
  | _ => exact (hat _ ‹r.point = _› :)

structure Called (trace : List (Entry J)) (started finished : ℕ) : Prop where
  start : calls .onStart trace = List.range started
  finish : calls .onFinish trace = List.range finished

theorem Called.same {trace : List (Entry J)} {started finished : ℕ}
    (h : Called trace started finished) (entry : Entry J)
    (hentry : ∀ hook, calls hook (trace ++ [entry]) = calls hook trace) :
    Called (trace ++ [entry]) started finished :=
  ⟨(hentry _).trans h.start, (hentry _).trans h.finish⟩

/-- No middleware is finished before the run is. -/
def Run.Unfinished (r : Run M J) : Prop :=
  Called r.trace r.started 0 ∧ r.started ≤ r.mw.length

def Run.Hooked (r : Run M J) : Prop :=
  match r.point with
  | .created => r.trace = []
  | .starting k => r.Unfinished ∧ r.started = k
  | .onStart k => r.Unfinished ∧ r.started = k + 1
  | .finishing _ k => Called r.trace r.started k ∧ r.started ≤ r.mw.length ∧ k ≤ r.started
  | .onFinish _ k => Called r.trace r.started (k + 1) ∧ r.started ≤ r.mw.length ∧ k < r.started
  | .skills | .listSkills | .constants => r.Unfinished ∧ r.started = 0
  | .skillsDone | .done | .returned => Called r.trace r.started r.started
  | _ => r.Unfinished

theorem Run.Unfinished.same {r next : Run M J} (h : r.Unfinished) (hmw : next.mw = r.mw)
    (hstarted : next.started = r.started)
    (htrace : ∀ hook, calls hook next.trace = calls hook r.trace) : next.Unfinished := by
  unfold Run.Unfinished
  rw [hstarted, hmw]
  exact ⟨⟨(htrace _).trans h.1.start, (htrace _).trans h.1.finish⟩, h.2⟩

theorem Run.Unfinished.call {r : Run M J} (h : r.Unfinished) (hook : Hook) (k : ℕ)
    (hstart : hook ≠ .onStart) (hfinish : hook ≠ .onFinish) :
    Called (r.trace ++ [.hook hook k]) r.started 0 where
  start := by
    rw [calls_other _ _ hstart]
    exact h.1.start
  finish := by
    rw [calls_other _ _ hfinish]
    exact h.1.finish

theorem Run.Unfinished.stop {r : Run M J} (h : r.Unfinished) :
    Called r.trace r.started 0 ∧ r.started ≤ r.mw.length ∧ 0 ≤ r.started :=
  ⟨h.1, h.2, Nat.zero_le _⟩

theorem Stepped.hooked [DecidableEq J] {host : Host J} {r next : Run M J} {input : Input J}
    (hstep : Stepped host r input next) (h : r.Hooked) : next.Hooked := by
  have hat : ∀ point, r.point = point → Run.Hooked { r with point := point } :=
    fun _ hpoint => hpoint ▸ h
  have hsame : ∀ {next : Run M J}, r.Unfinished → next.mw = r.mw → next.started = r.started →
      (∀ hook, calls hook next.trace = calls hook r.trace) → next.Unfinished :=
    fun h => h.same
  cases hstep with
  | cancels | stays => exact h
  | creates hpoint =>
    have htrace : r.trace = [] := hat _ hpoint
    refine ⟨⟨?_, Nat.zero_le _⟩, rfl⟩
    change Called r.trace 0 0
    rw [htrace]
    exact ⟨rfl, rfl⟩
  | lists _ hpoint | lacks _ hpoint | listed hpoint | fixes hpoint | startNext _ hpoint =>
    exact ⟨hsame (hat _ hpoint).1 rfl rfl fun _ => rfl, (hat _ hpoint).2⟩
  | unlisted hpoint =>
    obtain ⟨⟨hcalled, -⟩, hzero⟩ := hat _ hpoint
    change Called (r.trace ++ [_]) r.started r.started
    change r.started = 0 at hzero
    rw [hzero] at hcalled ⊢
    exact hcalled.same _ fun _ => calls_event ..
  | callsStart hk hpoint =>
    obtain ⟨⟨⟨hstart, hfinish⟩, -⟩, rfl⟩ : r.Unfinished ∧ r.started = _ := hat _ hpoint
    refine ⟨⟨⟨?_, ?_⟩, hk⟩, rfl⟩
    · change calls .onStart (r.trace ++ [.hook .onStart _]) = List.range (r.started + 1)
      rw [calls_hook, hstart, range_succ]
    · change calls .onFinish (r.trace ++ [.hook .onStart _]) = []
      rw [calls_other _ _ (by decide)]
      exact hfinish
  | started _ hpoint => exact hsame (hat _ hpoint).1 rfl rfl fun _ => rfl
  | startStops _ hpoint | startFails _ hpoint => exact (hat _ hpoint).1.stop
  | breaks _ hpoint | stepStops _ hpoint | stepFails _ hpoint | unregistered _ hpoint
  | uncached _ hpoint | refuses _ _ hpoint | drops _ hpoint | gaveUp _ hpoint
  | interrupts _ _ hpoint | exhausts _ _ _ hpoint | fails _ hpoint | empty _ hpoint
  | stepStopped _ hpoint | stepFailed _ _ hpoint | turnEnds _ _ hpoint | limits _ _ _ _ hpoint
  | stepDoneStops _ hpoint | stepDoneFails _ hpoint | cutsOff _ _ _ hpoint =>
    exact Run.Unfinished.stop (hat _ hpoint)
  | callsStep _ hpoint | callsStepDone _ hpoint =>
    exact ⟨Run.Unfinished.call (hat _ hpoint) _ _ (by decide) (by decide), (hat _ hpoint).2⟩
  | announces _ hpoint | emits _ hpoint | reports hpoint | endsStep hpoint =>
    exact hsame (hat _ hpoint) rfl rfl fun _ => calls_event ..
  | sends _ hpoint | resends _ hpoint =>
    exact hsame (hat _ hpoint) rfl rfl fun _ => calls_request ..
  | asks _ hpoint => exact hsame (hat _ hpoint) rfl rfl fun _ => calls_asked ..
  | invokes _ _ _ hpoint => exact hsame (hat _ hpoint) rfl rfl fun _ => calls_invoked ..
  | callsFinish hk hpoint =>
    obtain ⟨⟨hstart, hfinish⟩, hbounded, -⟩ := hat _ hpoint
    refine ⟨⟨?_, ?_⟩, hbounded, lt_of_lt_of_le hk (min_le_left _ _)⟩
    · change calls .onStart (r.trace ++ [.hook .onFinish _]) = _
      rw [calls_other _ _ (by decide)]
      exact hstart
    · change calls .onFinish (r.trace ++ [.hook .onFinish _]) = _
      rw [calls_hook, hfinish, range_succ]
  | finishes hk hpoint =>
    obtain ⟨hcalled, hbounded, hle⟩ :
        Called r.trace r.started _ ∧ r.started ≤ r.mw.length ∧ _ ≤ r.started := hat _ hpoint
    rw [min_eq_left hbounded] at hk
    obtain rfl := hle.antisymm (Nat.le_of_not_lt hk)
    exact hcalled.same _ fun _ => calls_event ..
  | givesBack hpoint | finishNext hpoint | returns hpoint => exact (hat _ hpoint :)
  | _ =>
    have hhere := hat _ ‹r.point = _›
    exact hsame hhere rfl rfl fun _ => rfl

/-- A run that is polled to its end lets out complete steps from index 0, at most one step
that is left after deltas and tool calls, and one outcome, the last event. The outcome
counts the steps that ended, at most 16; before it `on_finish` has been called once for
each middleware whose `on_start` was called; and it is the end of a turn only if the last
response ended its turn and has no tool call. -/
theorem event_protocol [DecidableEq J] (host : Host J) (agent : Agent M J)
    (inputs : List (Input J))
    (hreturned : (run (step host) (Run.of agent) inputs).point = .returned) :
    ∃ before outcome,
      (run (step host) (Run.of agent) inputs).trace = before ++ [.event (.done outcome)] ∧
        Protocol IsDelta (events (run (step host) (Run.of agent) inputs).trace) outcome ∧
        (events (run (step host) (Run.of agent) inputs).trace).countP isStepEnd = outcome.steps ∧
        outcome.steps ≤ 16 ∧
        (∃ started, calls .onStart before = List.range started ∧
          calls .onFinish before = List.range started) ∧
        (outcome.finish = .endTurn → LastCallless outcome.steps (events before) ∧
          EndedTurn (run (step host) (Run.of agent) inputs).lastStep) := by
  have hall : ∀ r : Run M J, r = run (step host) (Run.of agent) inputs →
      r.point.Batch ∧ r.Emitted ∧ r.Hooked := by
    rintro r rfl
    refine run_invariant (step host) (fun r => r.point.Batch ∧ r.Emitted ∧ r.Hooked)
      (fun _ _ h => ⟨step_stepped.batch h.1, step_stepped.emitted h.1 h.2.1,
        step_stepped.hooked h.2.2⟩) _ inputs ⟨trivial, rfl, rfl⟩
  generalize run (step host) (Run.of agent) inputs = r at *
  obtain ⟨-, hemitted, hhooked⟩ := hall r rfl
  unfold Run.Emitted at hemitted
  unfold Run.Hooked at hhooked
  rw [hreturned] at hemitted hhooked
  obtain ⟨before, outcome, htrace, hsteps, hleft⟩ := hemitted
  obtain ⟨steps, rest, hevents, hcomplete, hrest⟩ := hleft.events
  have hprotocol : Protocol IsDelta (events r.trace) outcome := by
    rw [htrace, events_event, hevents]
    rw [← hsteps] at hcomplete hrest
    exact ⟨steps, rest, rfl, hcomplete, hrest⟩
  have hcalls : ∀ hook, calls hook r.trace = calls hook before := by
    intro hook
    rw [htrace, calls_event]
  refine ⟨before, outcome, htrace, hprotocol, hprotocol.count, ?_, ⟨r.started, ?_, ?_⟩, ?_⟩
  · rw [hsteps]
    exact hleft.bounded
  · rw [← hcalls]
    exact hhooked.start
  · rw [← hcalls]
    exact hhooked.finish
  · rw [hsteps]
    exact hleft.last

end

def untilReturned : List (Input Unit) :=
  [.resume, .resume, .resume, .resume, proceed, .resume, .resume, .resume, .resume, proceed,
    .resume, .accepts (.ok ()) none, .resume, .first (.toolCall "1" "delete" "null"), .resume,
    .resume, .resume, .ended, .resume, .resume, proceed, .resume, .resume]

theorem event_protocol_interrupted :
    (run (step plainHost) (Run.of guardedAgent) untilReturned).point = .returned ∧ ∃ before outcome,
        (run (step plainHost) (Run.of guardedAgent) untilReturned).trace =
          before ++ [.event (.done outcome)] ∧
        Protocol IsDelta (events (run (step plainHost) (Run.of guardedAgent) untilReturned).trace)
          outcome := by
  have hreturned : (run (step plainHost) (Run.of guardedAgent) untilReturned).point = .returned :=
    rfl
  obtain ⟨before, outcome, htrace, hprotocol, -⟩ :=
    event_protocol plainHost guardedAgent untilReturned hreturned
  exact ⟨hreturned, before, outcome, htrace, hprotocol⟩

/-- The unfinished step has a tool call beside its deltas. -/
theorem unfinished_step_calls :
    (run (step plainHost) (Run.of guardedAgent) untilReturned).point = .returned ∧
      ¬∃ outcome, Protocol IsText
        (events (run (step plainHost) (Run.of guardedAgent) untilReturned).trace) outcome := by
  refine ⟨rfl, fun ⟨outcome, steps, rest, hevents, hsteps, hrest⟩ => ?_⟩
  have hcall : .toolCall "1" "delete" () ∈
      events (run (step plainHost) (Run.of guardedAgent) untilReturned).trace := by
    decide +kernel
  have hcount : (events (run (step plainHost) (Run.of guardedAgent) untilReturned).trace).countP
      isStepEnd = 0 := by
    decide +kernel
  rw [hevents] at hcall hcount
  rw [countP_append, countP_append, hsteps.count] at hcount
  have hzero : outcome.steps = 0 := by omega
  rw [hzero] at hsteps
  cases hsteps
  obtain hcall | hcall := mem_append.mp hcall
  · rw [nil_append] at hcall
    obtain rfl | ⟨deltas, rfl, hdeltas⟩ := hrest
    · cases hcall
    · obtain heq | hcall := mem_cons.mp hcall
      · cases heq
      · exact hdeltas _ hcall
  · cases mem_singleton.mp hcall

end Stakit.AgentRun
