import Stakit.AgentBudget
import Stakit.AgentDrop

set_option autoImplicit false

namespace Stakit.AgentRun
open AgentMessages TransitionRuns List

section
variable {M J : Type} [DecidableEq J]

/-- One run after the other: `none` drops the current run and starts the next. -/
def sessionStep (host : Host J) (r : Run M J) : Option (Input J) → Run M J
  | some input => step host r input
  | none => { Run.of r.agent with trace := r.trace }

omit [DecidableEq J] in
/-- The request has the binding's context, and its messages start with the bound prefix. -/
structure Bound (binding : ReplayBinding J) (request : ChatRequest J) : Prop where
  model : request.model = binding.model
  system : request.system = binding.system
  tools : request.tools = binding.tools
  messages : binding.messages <+: request.messages

variable (host : Host J) (r : Run M J) (input : Input J) (actions : List (Option (Input J)))
  (binding : ReplayBinding J) (response : Response J)

theorem accepts_iff (request : ChatRequest J) :
    binding.accepts request = true ↔ Bound binding request := by
  unfold ReplayBinding.accepts
  rw [Bool.and_eq_true, Bool.and_eq_true, Bool.and_eq_true, decide_eq_true_eq,
    decide_eq_true_eq, decide_eq_true_eq, isPrefixOf_iff_prefix]
  constructor
  · rintro ⟨⟨⟨hmodel, hsystem⟩, htools⟩, hmessages⟩
    exact ⟨hmodel.symm, hsystem.symm, htools.symm, hmessages⟩
  · rintro ⟨hmodel, hsystem, htools, hmessages⟩
    exact ⟨⟨⟨hmodel.symm, hsystem.symm⟩, htools.symm⟩, hmessages⟩

/-- The same context with a longer prefix. -/
structure Extends (binding next : ReplayBinding J) : Prop where
  model : next.model = binding.model
  system : next.system = binding.system
  tools : next.tools = binding.tools
  messages : binding.messages <+: next.messages

omit [DecidableEq J] in
theorem Extends.refl : Extends binding binding :=
  ⟨rfl, rfl, rfl, prefix_refl _⟩

omit [DecidableEq J] in
theorem Extends.trans {first second third : ReplayBinding J} (h : Extends first second)
    (h' : Extends second third) : Extends first third :=
  ⟨h'.model.trans h.model, h'.system.trans h.system, h'.tools.trans h.tools,
    h.messages.trans h'.messages⟩

omit [DecidableEq J] in
theorem Extends.bound {first second : ReplayBinding J} {request : ChatRequest J}
    (h : Extends first second) (h' : Bound second request) : Bound first request :=
  ⟨h'.model.trans h.model, h'.system.trans h.system, h'.tools.trans h.tools,
    h.messages.trans h'.messages⟩

structure Run.Suits (r : Run M J) (request : ChatRequest J) : Prop where
  messages : request.messages = r.agent.messages
  bound : ∀ binding ∈ r.agent.replayBinding, Bound binding request

def Point.handed : Point J → Option (ChatRequest J)
  | .attempting request _ | .folding request _ _ _ | .delta request _ _ | .folded request _ _
  | .drain request _ _ | .drained request _ _ _ => some request
  | .respond response => some response.request
  | _ => none

def Point.request : Point J → Option (ChatRequest J)
  | .acquiring request _ | .backoff request _ => some request
  | point => point.handed

structure Run.InFlight (r : Run M J) : Prop where
  suits : ∀ request ∈ r.point.request, r.Suits request
  handed : ∀ request ∈ r.point.handed, .request request ∈ r.trace

def Follows (r next : Run M J) : Prop :=
  ∃ more, next.trace = r.trace ++ more ∧
    ∀ binding ∈ r.agent.replayBinding, ∃ other ∈ next.agent.replayBinding,
      Extends binding other ∧ ∀ request, .request request ∈ more → Bound binding request

omit [DecidableEq J] in
theorem Follows.refl (r : Run M J) : Follows r r :=
  ⟨[], (append_nil _).symm, fun binding h =>
    ⟨binding, h, .refl binding, nofun⟩⟩

omit [DecidableEq J] in
theorem Follows.trans {r s t : Run M J} (h : Follows r s) (h' : Follows s t) : Follows r t := by
  obtain ⟨more, htrace, hbinding⟩ := h
  obtain ⟨later, htrace', hbinding'⟩ := h'
  refine ⟨more ++ later, by rw [htrace', htrace, append_assoc], fun binding hin => ?_⟩
  obtain ⟨other, hother, hextends, hrequests⟩ := hbinding binding hin
  obtain ⟨last, hlast, hextends', hrequests'⟩ := hbinding' other hother
  refine ⟨last, hlast, hextends.trans hextends', fun request hmem => ?_⟩
  rcases mem_append.mp hmem with hmem | hmem
  · exact hrequests request hmem
  · exact hextends.bound (hrequests' request hmem)

omit [DecidableEq J] in
theorem Follows.quiet {r next : Run M J}
    (hbinding : next.agent.replayBinding = r.agent.replayBinding)
    (htrace : next.trace = r.trace ∨ ∃ entry, next.trace = r.trace ++ [entry] ∧
      ∀ request, entry ≠ .request request) : Follows r next := by
  obtain htrace | ⟨entry, htrace, hentry⟩ := htrace
  · refine ⟨[], by rw [htrace, append_nil], fun binding h => ⟨binding, hbinding ▸ h, .refl _,
      nofun⟩⟩
  · refine ⟨[entry], htrace, fun binding h => ⟨binding, hbinding ▸ h, .refl _, fun request hmem => ?_⟩⟩
    exact absurd (mem_singleton.mp hmem).symm (hentry request)

omit [DecidableEq J] in
theorem inFlight_idle {r : Run M J} (h : r.point.request = none) (h' : r.point.handed = none) :
    r.InFlight :=
  ⟨fun _ hmem => (by rw [h] at hmem; cases hmem), fun _ hmem => (by rw [h'] at hmem; cases hmem)⟩

omit [DecidableEq J] in
theorem Run.InFlight.carry {r next : Run M J} (h : r.InFlight)
    (hmessages : next.agent.messages = r.agent.messages)
    (hbinding : next.agent.replayBinding = r.agent.replayBinding)
    (htrace : r.trace <+: next.trace)
    (hrequest : ∀ request ∈ next.point.request, request ∈ r.point.request)
    (hhanded : ∀ request ∈ next.point.handed,
      request ∈ r.point.handed ∨ .request request ∈ next.trace) : next.InFlight where
  suits := fun request hmem => by
    have hsuits := h.suits request (hrequest request hmem)
    exact ⟨hsuits.messages.trans hmessages.symm, fun binding hin =>
      hsuits.bound binding (hbinding ▸ hin)⟩
  handed := fun request hmem =>
    (hhanded request hmem).elim (fun hold => htrace.subset (h.handed request hold)) id

omit [DecidableEq J] in
theorem sendRequest_inFlight {request : ChatRequest J} (attempt : ℕ) (h : r.Suits request) :
    (sendRequest r request attempt).InFlight where
  suits := fun other hmem => by
    cases hmem
    exact ⟨h.messages, h.bound⟩
  handed := fun other hmem => by
    cases hmem
    exact mem_append_right _ (mem_singleton.mpr rfl)

theorem Stepped.inFlight {host : Host J} {r next : Run M J} {input : Input J}
    (hstep : Stepped host r input next) (h : r.InFlight) : next.InFlight := by
  have hcarry : ∀ {next : Run M J}, next.agent.messages = r.agent.messages →
      next.agent.replayBinding = r.agent.replayBinding → r.trace <+: next.trace →
      next.point.request = r.point.request → next.point.handed = r.point.handed →
      next.InFlight := fun hmessages hbinding htrace hrequest hhanded =>
    h.carry hmessages hbinding htrace (fun _ hmem => hrequest ▸ hmem)
      (fun _ hmem => Or.inl (hhanded ▸ hmem))
  cases hstep with
  | stays => exact h
  | cancels => exact hcarry rfl rfl (prefix_refl _) rfl rfl
  | builds _ haccepted =>
    refine ⟨fun request hmem => ?_, nofun⟩
    cases hmem
    refine ⟨rfl, fun binding hin => ?_⟩
    have haccepts : binding.accepts (r.agent.buildRequest r.runTools r.runCacheKey) = true := by
      rw [Option.mem_def] at hin
      change r.agent.replayBinding = some binding at hin
      rw [hin, Option.any_some, Bool.not_eq_true, Bool.not_eq_false'] at haccepted
      exact haccepted
    have hbound := (accepts_iff _ _).mp haccepts
    exact ⟨hbound.model, hbound.system, hbound.tools, hbound.messages⟩
  | sends _ hpoint | resends _ hpoint =>
    exact sendRequest_inFlight r _ (h.suits _ (by rw [hpoint]; rfl))
  | retries _ _ _ hpoint =>
    refine h.carry rfl rfl (prefix_refl _) (fun _ hmem => ?_) nofun
    rw [hpoint]
    exact hmem
  | emits _ hpoint =>
    exact hcarry rfl rfl (prefix_append _ _) (by rw [hpoint]; rfl) (by rw [hpoint]; rfl)
  | waits | responds | folds | yielded | closes | polls | cuts | receives | ends | breaksOff
  | completes =>
    have hpoint := ‹r.point = _›
    exact hcarry rfl rfl (prefix_refl _) (by rw [hpoint]; rfl) (by rw [hpoint]; rfl)
  | _ => exact inFlight_idle rfl rfl

theorem sessionStep_inFlight (action : Option (Input J)) (h : r.InFlight) :
    (sessionStep host r action).InFlight := by
  cases action with
  | none => exact inFlight_idle rfl rfl
  | some input => exact step_stepped.inFlight h

omit [DecidableEq J] in
theorem sendRequest_follows {request : ChatRequest J} (attempt : ℕ) (h : r.Suits request) :
    Follows r (sendRequest r request attempt) := by
  refine ⟨[.request request], rfl, fun binding hin => ⟨binding, hin, .refl _, fun other hmem => ?_⟩⟩
  cases mem_singleton.mp hmem
  exact h.bound binding hin

omit [DecidableEq J] in
theorem respond_follows (hpoint : r.point = .respond response) (h : r.InFlight) :
    Follows r (respond r response) := by
  have hsuits := h.suits response.request (by rw [hpoint]; rfl)
  refine ⟨[], (append_nil _).symm, fun binding hin => ?_⟩
  have hbound := hsuits.bound binding hin
  have hmore : r.agent.messages <+: (respond r response).agent.messages := by
    change r.agent.messages <+: (if response.blocks = [] then r.agent.messages
      else r.agent.messages ++ [.assistant response.blocks])
    split_ifs
    · exact prefix_refl _
    · exact prefix_append _ _
  cases hsigned : response.blocks.any isSigned with
  | true =>
    refine ⟨{ ReplayBinding.fromRequest response.request with
      messages := (respond r response).agent.messages }, ?_, ?_, nofun⟩
    · exact if_pos hsigned
    · exact ⟨hbound.model, hbound.system, hbound.tools,
        hbound.messages.trans (hsuits.messages ▸ hmore)⟩
  | false =>
    refine ⟨binding, ?_, .refl _, nofun⟩
    have hkept : (respond r response).agent.replayBinding = r.agent.replayBinding :=
      if_neg (by rw [hsigned]; exact Bool.false_ne_true)
    rw [hkept]
    exact hin

omit [DecidableEq J] in
theorem bindLoaded_follows : Follows r (bindLoaded r) := by
  refine ⟨[], (append_nil _).symm, fun binding hin => ⟨binding, ?_, .refl _, nofun⟩⟩
  have hsome : ¬(r.agent.replayBinding = none ∧ hasSignedHistory r.agent.messages = true) :=
    fun h => by rw [h.1] at hin; cases hin
  have hkept : (bindLoaded r).agent.replayBinding = r.agent.replayBinding := if_neg hsome
  rw [hkept]
  exact hin

theorem Stepped.follows {host : Host J} {r next : Run M J} {input : Input J}
    (hstep : Stepped host r input next) (h : r.InFlight) : Follows r next := by
  cases hstep with
  | binds => exact bindLoaded_follows r
  | sends _ hpoint | resends _ hpoint =>
    exact sendRequest_follows r _ (h.suits _ (by rw [hpoint]; rfl))
  | records hpoint => exact respond_follows r _ hpoint h
  | unlisted | callsStart | callsStep | announces | emits | asks | invokes | reports | endsStep
  | callsStepDone | callsFinish | finishes =>
    exact .quiet rfl (Or.inr ⟨_, rfl, nofun⟩)
  | _ => exact .quiet rfl (Or.inl rfl)

theorem sessionStep_follows (action : Option (Input J)) (h : r.InFlight) :
    Follows r (sessionStep host r action) := by
  cases action with
  | none => exact .quiet rfl (Or.inl rfl)
  | some input => exact step_stepped.follows h

theorem session_inFlight (h : r.InFlight) : (run (sessionStep host) r actions).InFlight :=
  run_invariant (sessionStep host) Run.InFlight
    (fun r action h => sessionStep_inFlight host r action h) r actions h

theorem session_follows (h : r.InFlight) : Follows r (run (sessionStep host) r actions) := by
  induction actions generalizing r with
  | nil => exact .refl r
  | cons action actions ih =>
    exact (sessionStep_follows host r action h).trans
      (ih _ (sessionStep_inFlight host r action h))

/-- A request that does not suit the binding stops the run instead of being sent. -/
theorem stepStart_refuses (hbinding : binding ∈ r.agent.replayBinding)
    (h : ¬Bound binding (r.agent.buildRequest r.runTools r.runCacheKey))
    (cache : Except String Unit) (maxOutputTokens : Option ℕ) :
    ∃ message, (stepStart host r cache maxOutputTokens).point =
        .finishing (.stopped (some message)) 0 ∧
      (stepStart host r cache maxOutputTokens).trace = r.trace := by
  have hrefused : (r.agent.replayBinding.any fun binding =>
      !binding.accepts (r.agent.buildRequest r.runTools r.runCacheKey)) = true := by
    rw [Option.mem_def] at hbinding
    rw [hbinding, Option.any_some, Bool.not_eq_true', Bool.eq_false_iff]
    exact fun haccepts => h ((accepts_iff _ _).mp haccepts)
  unfold stepStart
  dsimp only
  split_ifs
  · cases cache with
    | error e | ok _ => exact ⟨_, rfl, rfl⟩
  · exact ⟨_, rfl, rfl⟩

def session (host : Host J) (agent : Agent M J) (actions : List (Option (Input J))) : Run M J :=
  run (sessionStep host) (Run.of agent) actions

def Run.request (r : Run M J) : ChatRequest J := r.agent.buildRequest r.runTools r.runCacheKey

omit [DecidableEq J] in
theorem requests_append (trace more : List (Entry J)) :
    requests (trace ++ more) = requests trace ++ requests more :=
  filterMap_append ..

omit [DecidableEq J] in
theorem mem_requests (trace : List (Entry J)) (request : ChatRequest J) :
    request ∈ requests trace ↔ .request request ∈ trace := by
  unfold requests
  rw [mem_filterMap]
  constructor
  · rintro ⟨entry, hentry, hrequest⟩
    cases entry <;> cases hrequest
    exact hentry
  · exact fun hentry => ⟨_, hentry, rfl⟩

/-- The messages begin with the bound ones, and no signed history follows these. -/
def ReplayBinding.covers (binding : ReplayBinding J) (messages : List (Message J)) : Bool :=
  binding.messages.isPrefixOf messages && !hasSignedHistory (messages.drop binding.messages.length)

/-- What signed history asks of the requests to come, where it enters the conversation: a
completed response, the context of the request that produced it and the conversation up to
itself; history that the `on_start` hooks leave, the binding that covers it, or else the
context and the messages it was first loaded with. -/
def Run.owes (r : Run M J) : Option (ReplayBinding J) :=
  match r.point with
  | .respond response =>
    if response.blocks.any isSigned then
      some { ReplayBinding.fromRequest response.request with
        messages := (respond r response).agent.messages }
    else none
  | .bindLoaded =>
    if hasSignedHistory r.agent.messages then
      some ((r.agent.replayBinding.filter fun binding => binding.covers r.agent.messages).getD
        (ReplayBinding.fromRequest r.request))
    else none
  | _ => none

/-- The `on_start` hooks do not leave signed history outside a binding that is in force. -/
def Run.loadsCovered (r : Run M J) : Bool :=
  match r.point with
  | .bindLoaded =>
    !hasSignedHistory r.agent.messages ||
      r.agent.replayBinding.all fun binding => binding.covers r.agent.messages
  | _ => true

/-- Every request handed on from here suits what is owed, and a run whose request does not
stops instead. -/
structure Kept (host : Host J) (r : Run M J) (owed : ReplayBinding J)
    (later : List (Option (Input J))) : Prop where
  handed : ∃ more, requests (run (sessionStep host) r later).trace = requests r.trace ++ more ∧
    ∀ request ∈ more, Bound owed request
  stops : (run (sessionStep host) r later).point = .stepStart →
    ¬Bound owed (run (sessionStep host) r later).request → ∀ cache maxOutputTokens, ∃ message,
        (run (sessionStep host) r (later ++ [some (.accepts cache maxOutputTokens)])).point =
            .finishing (.stopped (some message)) 0 ∧
          (run (sessionStep host) r (later ++ [some (.accepts cache maxOutputTokens)])).trace =
            (run (sessionStep host) r later).trace

variable {r} {owed : ReplayBinding J}

omit [DecidableEq J] in
theorem if_some_eq {P : Prop} [Decidable P] {owed found : ReplayBinding J}
    (h : (if P then some found else none) = some owed) : P ∧ found = owed := by
  split_ifs at h with hp
  exact ⟨hp, Option.some.inj h⟩

theorem owes_cases (howed : owed ∈ r.owes) :
    (∃ response, r.point = .respond response ∧ response.blocks.any isSigned = true ∧
      { ReplayBinding.fromRequest response.request with
        messages := (respond r response).agent.messages } = owed) ∨
    (r.point = .bindLoaded ∧ hasSignedHistory r.agent.messages = true ∧
      (r.agent.replayBinding.filter fun binding => binding.covers r.agent.messages).getD
        (ReplayBinding.fromRequest r.request) = owed) := by
  unfold Run.owes at howed
  cases hpoint : r.point
  case respond response =>
    rw [hpoint] at howed
    exact .inl ⟨response, rfl, if_some_eq howed⟩
  case bindLoaded =>
    rw [hpoint] at howed
    exact .inr ⟨rfl, if_some_eq howed⟩
  all_goals
    rw [hpoint] at howed
    cases howed

theorem advance_respond (hpoint : r.point = .respond response) :
    advance host r .resume = respond r response := by
  unfold advance
  rw [hpoint]

theorem advance_bindLoaded (hpoint : r.point = .bindLoaded) :
    advance host r .resume = bindLoaded r := by
  unfold advance
  rw [hpoint]

/-- What is owed is bound by the step that takes the signed history in. -/
theorem owes_bound (h : r.loadsCovered = true) (howed : owed ∈ r.owes) :
    owed ∈ (advance host r .resume).agent.replayBinding ∧
      (advance host r .resume).trace = r.trace := by
  obtain ⟨response, hpoint, hsigned, rfl⟩ | ⟨hpoint, hsigned, rfl⟩ := owes_cases howed
  · rw [advance_respond host response hpoint]
    exact ⟨if_pos hsigned, rfl⟩
  · rw [advance_bindLoaded host hpoint]
    refine ⟨?_, rfl⟩
    unfold Run.loadsCovered at h
    rw [hpoint, hsigned] at h
    cases hbinding : r.agent.replayBinding with
    | none => exact if_pos ⟨hbinding, hsigned⟩
    | some binding =>
      rw [hbinding] at h
      have hcovers : binding.covers r.agent.messages = true := h
      have hkept : (bindLoaded r).agent.replayBinding = r.agent.replayBinding :=
        if_neg fun hboth => by rw [hbinding] at hboth; cases hboth.1
      rw [hkept, hbinding, Option.filter_some, if_pos hcovers]
      rfl

theorem advance_stepStart (hpoint : r.point = .stepStart) (cache : Except String Unit)
    (maxOutputTokens : Option ℕ) :
    advance host r (.accepts cache maxOutputTokens) = stepStart host r cache maxOutputTokens := by
  unfold advance
  rw [hpoint]

theorem kept_of_owes (hflight : r.InFlight) (h : r.loadsCovered = true) (howed : owed ∈ r.owes)
    (later : List (Option (Input J))) : Kept host r owed (some .resume :: later) := by
  obtain ⟨hbound, hquiet⟩ := owes_bound host h howed
  have hnext := sessionStep_inFlight host r (some .resume) hflight
  obtain ⟨more, htrace, hfollows⟩ := session_follows host _ later hnext
  obtain ⟨binding, hbinding, hextends, hrequests⟩ := hfollows owed hbound
  constructor
  · refine ⟨requests more, ?_, fun request hmem =>
      hrequests request ((mem_requests more request).mp hmem)⟩
    rw [run_cons, htrace, requests_append]
    exact congrArg (fun trace => requests trace ++ requests more) hquiet
  · intro hpoint hunbound cache maxOutputTokens
    have hstep : run (sessionStep host) r
        (some .resume :: later ++ [some (.accepts cache maxOutputTokens)]) =
        stepStart host (run (sessionStep host) r (some .resume :: later)) cache
          maxOutputTokens := by
      rw [run_append]
      exact advance_stepStart host hpoint cache maxOutputTokens
    rw [hstep]
    exact stepStart_refuses host _ binding hbinding (fun hboth => hunbound (hextends.bound hboth))
      cache maxOutputTokens

variable (r)

/-- Over a sequence of runs whose `on_start` hooks leave no signed history outside the
binding in force: signed history keeps its context and its prefix from where it enters the
conversation, and the request that produced a response was handed to a provider. -/
theorem signed_history_kept_of_session (agent : Agent M J) (actions : List (Option (Input J)))
    (hloads : Meets (sessionStep host) (fun r _ => r.loadsCovered = true) (Run.of agent) actions)
    (before later : List (Option (Input J))) (hsplit : actions = before ++ some .resume :: later) :
    (∀ response, (session host agent before).point = .respond response →
      response.request ∈ requests (session host agent before).trace) ∧
    ∀ owed ∈ (session host agent before).owes,
      Kept host (session host agent before) owed (some .resume :: later) := by
  have hflight : (session host agent before).InFlight :=
    session_inFlight host (Run.of agent) before (inFlight_idle rfl rfl)
  subst hsplit
  have hcovered := ((meets_append ..).mp hloads).2.1
  refine ⟨fun response hpoint => ?_, fun owed howed => kept_of_owes host hflight hcovered howed later⟩
  exact (mem_requests _ _).mpr (hflight.handed response.request (by rw [hpoint]; rfl))

end

def signedTurn (text signature : String) : Message Unit :=
  .assistant [.thinking (.visible text (some signature))]

def loaded : List (Message Unit) := [.user [.text "hi"], signedTurn "first" "s1"]

def signedAgent : Agent Unit Unit := { guardedAgent with messages := loaded }

def leaves (messages : List (Message Unit)) (flow : Flow) : Option (Input Unit) :=
  some (.hook ⟨messages, "m", none, .ok flow⟩)

/-- From the start of a run to the end of its `on_start` hook. -/
def starts (messages : List (Message Unit)) : List (Option (Input Unit)) :=
  [some .resume, some .resume, some .resume, some .resume, leaves messages .next, some .resume]

/-- From the end of the `on_start` hook to the request. -/
def sends (messages : List (Message Unit)) : List (Option (Input Unit)) :=
  [some .resume, some .resume, leaves messages .next, some .resume,
    some (.accepts (.ok ()) none), some .resume]

def turn (text : String) : Message Unit := .user [.text text]

def handedOn (messages : List (Message Unit)) : ChatRequest Unit where
  model := "m"
  system := none
  messages := messages
  tools := guardedAgent.tools
  maxTokens := 4096
  cacheKey := none

theorem signed_history_kept_of_turn : Kept plainHost (session plainHost signedAgent (starts loaded))
      (ReplayBinding.fromRequest (handedOn loaded)) (some .resume :: sends (loaded ++ [turn "go on"])) ∧
    requests (session plainHost signedAgent
      (starts loaded ++ some .resume :: sends (loaded ++ [turn "go on"]))).trace =
        [handedOn (loaded ++ [turn "go on"])] := by
  refine ⟨(signed_history_kept_of_session plainHost signedAgent _ (by decide +kernel)
    (starts loaded) (sends (loaded ++ [turn "go on"])) rfl).2 _ (by decide +kernel), ?_⟩
  decide +kernel

/-- A run binds the history it was given and stops; the next one loads a further signed turn,
and a later hook rewrites it. -/
def loadsTwice : List (Option (Input Unit)) :=
  starts loaded ++ [some .resume, some .resume, some .resume, leaves loaded (.stop "later"),
    some .resume, leaves loaded .next, some .resume, some .resume, none] ++
    starts (loaded ++ [signedTurn "second" "s2"])

theorem loaded_history_rewritten :
    ¬∀ (agent : Agent Unit Unit) (before later : List (Option (Input Unit))),
      ∀ owed ∈ (session plainHost agent before).owes,
        Kept plainHost (session plainHost agent before) owed (some .resume :: later) := by
  intro h
  have howes : ReplayBinding.fromRequest (handedOn (loaded ++ [signedTurn "second" "s2"])) ∈
      (session plainHost signedAgent loadsTwice).owes := by decide +kernel
  obtain ⟨⟨more, hmore, hbound⟩, -⟩ :=
    h signedAgent loadsTwice (sends (loaded ++ [turn "second"])) _ howes
  have hhanded : requests (run (sessionStep plainHost) (session plainHost signedAgent loadsTwice)
      (some .resume :: sends (loaded ++ [turn "second"]))).trace =
        requests (session plainHost signedAgent loadsTwice).trace ++
          [handedOn (loaded ++ [turn "second"])] := by
    decide +kernel
  obtain rfl := append_cancel_left (hmore.symm.trans hhanded)
  exact absurd (hbound _ mem_cons_self).messages (by decide)

end Stakit.AgentRun
