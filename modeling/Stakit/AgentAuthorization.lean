import Mathlib.Data.Prod.Lex
import Stakit.AgentDrop

set_option autoImplicit false

namespace Stakit.AgentRun
open AgentMessages EntryMaps TransitionRuns List

section
variable {M J : Type}

def accumulate (host : Host J) (received : List (StreamEvent J)) : StepAccum J :=
  received.foldl (fun acc event => (acc.apply host event).1) .empty

variable {r : Run M J} (host : Host J) (id name : String) (acc : StepAccum J)
  (received : List (StreamEvent J)) (event : StreamEvent J)

theorem accumulate_snoc :
    accumulate host (received ++ [event]) = ((accumulate host received).apply host event).1 :=
  foldl_append ..

/-- Neither a terminal event nor a protocol error has come. -/
structure Clear (host : Host J) (received : List (StreamEvent J)) : Prop where
  stop : (accumulate host received).stop = none
  error : (accumulate host received).protocolError = none

/-- What one event does to the terminal reason, the error, the calls and the blocks. -/
structure Applied (host : Host J) (acc next : StepAccum J) (event : StreamEvent J) : Prop where
  stop : ∀ stop, next.stop = some stop → acc.stop = some stop ∨ ∃ usage, event = .finish stop usage
  stays : acc.stop.isSome = true → next.stop.isSome = true
  error : next.protocolError = none → acc.protocolError = none
  calls : next.toolCalls = acc.toolCalls ∨ ∃ id name arguments,
    event = .toolCall id name arguments ∧
      next.toolCalls = acc.toolCalls ++ [ParsedCall.parse host id name arguments]
  blocks : ∀ entry ∈ next.completeBlocks,
    entry ∈ acc.completeBlocks ∨ event = .assistantBlock entry.1 entry.2
  kept : ∀ entry ∈ acc.completeBlocks, entry ∈ next.completeBlocks
  block : next.protocolError = none → ∀ index content, event = .assistantBlock index content →
    (index, content) ∈ next.completeBlocks

theorem applied_same (next : StepAccum J) (event : StreamEvent J) (hstop : next.stop = acc.stop)
    (hcalls : next.toolCalls = acc.toolCalls) (hblocks : next.completeBlocks = acc.completeBlocks)
    (herror : next.protocolError = none → acc.protocolError = none)
    (hblock : next.protocolError = none → ∀ index content, event ≠ .assistantBlock index content) :
    Applied host acc next event where
  stop stop h := Or.inl (hstop ▸ h)
  stays h := by rwa [hstop]
  error := herror
  calls := Or.inl hcalls
  blocks entry h := Or.inl (hblocks ▸ h)
  kept entry h := by rwa [hblocks]
  block h index content heq := absurd heq (hblock h index content)

theorem applyBlock_applied (index : ℕ) (content : AssistantContent J) :
    Applied host acc (acc.applyBlock host index content) (.assistantBlock index content) := by
  unfold StepAccum.applyBlock
  dsimp only
  split_ifs with hrejected
  · exact applied_same _ _ _ _ rfl rfl rfl nofun nofun
  · rw [not_or, not_or, not_or] at hrejected
    have hperm := perm_insertSorted acc.completeBlocks index content hrejected.2.2.2
    refine ⟨fun stop h => Or.inl h, id, id, Or.inl rfl, fun entry h => ?_,
      fun entry h => hperm.mem_iff.mpr (mem_cons_of_mem _ h), fun _ other value heq => ?_⟩
    · obtain rfl | h := mem_cons.mp (hperm.mem_iff.mp h)
      · exact Or.inr rfl
      · exact Or.inl h
    · cases heq
      exact hperm.mem_iff.mpr mem_cons_self

theorem apply_applied : Applied host acc (acc.apply host event).1 event := by
  have hcounted : ∀ next, Applied host
      { acc with deltaBytes := saturatingAdd acc.deltaBytes event.deltaBytes } next event →
      Applied host acc next event :=
    fun next h => ⟨h.stop, h.stays, h.error, h.calls, h.blocks, h.kept, h.block⟩
  unfold StepAccum.apply
  dsimp only
  split_ifs
  · exact applied_same _ _ _ _ rfl rfl rfl nofun nofun
  · refine hcounted _ ?_
    cases event with
    | assistantBlock index content => exact applyBlock_applied host _ index content
    | toolCall id name arguments =>
      dsimp only
      unfold StepAccum.applyCall
      split_ifs
      · exact applied_same _ _ _ _ rfl rfl rfl nofun nofun
      · exact ⟨fun stop h => Or.inl h, fun h => h, fun h => h,
          Or.inr ⟨id, name, arguments, rfl, rfl⟩, fun entry h => Or.inl h, fun entry h => h,
          nofun⟩
    | finish stop usage =>
      refine ⟨fun other h => Or.inr ⟨usage, ?_⟩, fun _ => rfl, fun h => h, Or.inl rfl,
        fun entry h => Or.inl h, fun entry h => h, nofun⟩
      cases h
      rfl
    | _ => exact applied_same _ _ _ _ rfl rfl rfl (fun h => h) nofun

theorem Clear.init {host : Host J} {received : List (StreamEvent J)} {event : StreamEvent J}
    (h : Clear host (received ++ [event])) : Clear host received := by
  have happlied := apply_applied host (accumulate host received) event
  have hstop := h.stop
  have herror := h.error
  rw [accumulate_snoc] at hstop herror
  refine ⟨?_, happlied.error herror⟩
  cases hold : (accumulate host received).stop with
  | none => rfl
  | some stop =>
    have hstays := happlied.stays (by rw [hold]; rfl)
    rw [hstop] at hstays
    cases hstays

theorem Clear.prefix {host : Host J} {received first : List (StreamEvent J)}
    (h : Clear host received) (hfirst : first <+: received) : Clear host first := by
  obtain ⟨rest, rfl⟩ := hfirst
  induction rest using List.reverseRecOn with
  | nil => rwa [append_nil] at h
  | append_singleton rest event ih =>
    rw [← append_assoc] at h
    exact ih h.init

theorem accumulated_calls {call : ParsedCall J} (h : call ∈ (accumulate host received).toolCalls) :
    ∃ id name arguments,
      .toolCall id name arguments ∈ received ∧ call = ParsedCall.parse host id name arguments := by
  induction received using List.reverseRecOn with
  | nil => cases h
  | append_singleton received event ih =>
    have hearlier : call ∈ (accumulate host received).toolCalls → ∃ id name arguments,
        .toolCall id name arguments ∈ received ++ [event] ∧
          call = ParsedCall.parse host id name arguments := by
      intro hmem
      obtain ⟨id, name, arguments, hsent, hcall⟩ := ih hmem
      exact ⟨id, name, arguments, mem_append_left _ hsent, hcall⟩
    rw [accumulate_snoc] at h
    obtain hsame | ⟨id, name, arguments, rfl, hmore⟩ := (apply_applied host _ event).calls
    · exact hearlier (hsame ▸ h)
    · rw [hmore] at h
      obtain h | h := mem_append.mp h
      · exact hearlier h
      · exact ⟨id, name, arguments, mem_append_right _ mem_cons_self, mem_singleton.mp h⟩

theorem accumulated_blocks (h : (accumulate host received).protocolError = none) (index : ℕ)
    (content : AssistantContent J) :
    (index, content) ∈ (accumulate host received).completeBlocks ↔
      .assistantBlock index content ∈ received := by
  induction received using List.reverseRecOn with
  | nil => exact iff_of_false not_mem_nil not_mem_nil
  | append_singleton received event ih =>
    rw [accumulate_snoc] at h ⊢
    have happlied := apply_applied host (accumulate host received) event
    have hiff := ih (happlied.error h)
    rw [mem_append, mem_singleton, ← hiff]
    constructor
    · intro hmem
      exact (happlied.blocks _ hmem).imp_right Eq.symm
    · rintro (hmem | heq)
      · exact happlied.kept _ hmem
      · exact happlied.block h index content heq.symm

structure Grounded (host : Host J) [DecidableEq J] (response : Response J) : Prop where
  valid : ∃ valid, (accumulate host response.received).captureCompleteText.validateBlocks =
      .ok valid ∧ valid.stop = some response.stop ∧
    response = responseOf response.request response.received response.cancelled valid response.stop
  events : ∃ before event, response.received = before ++ [event] ∧ Clear host before

/-- What a response with tool calls has shown. -/
structure Granted (host : Host J) [DecidableEq J] (response : Response J) (id name : String)
    (args : J) : Prop where
  terminal : ∃ usage before, response.received = before ++ [.finish .toolUse usage] ∧
    ∀ first, first <+: before → Clear host first
  valid : ∃ valid, (accumulate host response.received).captureCompleteText.validateBlocks =
    .ok valid
  parsed : ∃ arguments, .toolCall id name arguments ∈ response.received ∧
    host.fromStr arguments = .ok args
  block : (∃ index content, .assistantBlock index content ∈ response.received) →
    ∃ index, .assistantBlock index (.toolUse id name args) ∈ response.received

theorem parse_ok {arguments : String}
    (h : (ParsedCall.parse host id name arguments).parseError = none) :
    host.fromStr arguments = .ok (ParsedCall.parse host id name arguments).args := by
  unfold ParsedCall.parse at h ⊢
  cases hparsed : host.fromStr arguments with
  | ok args => rfl
  | error e =>
    rw [hparsed] at h
    cases h

theorem parse_names (arguments : String) : (ParsedCall.parse host id name arguments).id = id ∧
      (ParsedCall.parse host id name arguments).name = name := by
  unfold ParsedCall.parse
  split <;> exact ⟨rfl, rfl⟩

theorem mem_toolUses (blocks : List (AssistantContent J)) (id name : String) (input : J) :
    (id, name, input) ∈ toolUses blocks ↔ .toolUse id name input ∈ blocks := by
  unfold toolUses
  rw [mem_filterMap]
  constructor
  · rintro ⟨block, hblock, huse⟩
    cases block with
    | toolUse =>
      cases huse
      exact hblock
    | _ => cases huse
  · exact fun h => ⟨_, h, rfl⟩

theorem terminalFailure_tools {stop : StopReason} (h : terminalFailure stop true = none) :
    stop = .toolUse := by
  cases stop with
  | toolUse => rfl
  | _ => cases h

theorem Response.calls_cases {response : Response J} {request : ChatRequest J}
    {received : List (StreamEvent J)} {cancelled : Bool} {acc : StepAccum J} {stop : StopReason}
    (h : response = responseOf request received cancelled acc stop) :
    response.calls = [] ∨
      terminalFailure stop (!acc.toolCalls.isEmpty) = none ∧ response.calls = acc.toolCalls := by
  have hcalls : response.calls =
      (StepAccum.keep acc (terminalFailure stop (!acc.toolCalls.isEmpty))).toolCalls :=
    congrArg Response.calls h
  cases hfailure : terminalFailure stop (!acc.toolCalls.isEmpty) with
  | some message =>
    rw [hfailure] at hcalls
    exact .inl hcalls
  | none =>
    rw [hfailure] at hcalls
    exact .inr ⟨rfl, hcalls⟩

theorem Grounded.granted [DecidableEq J] {host : Host J} {response : Response J}
    (h : Grounded host response) (call : ParsedCall J) (hcall : call ∈ response.calls)
    (hparsed : call.parseError = none) : Granted host response call.id call.name call.args := by
  obtain ⟨valid, hvalid, hstop, hresponse⟩ := h.valid
  obtain ⟨before, event, hreceived, hclear⟩ := h.events
  obtain ⟨herror, hperm, ⟨calls, hsame⟩, hblocks⟩ := validateBlocks_ok hvalid
  obtain hnone | ⟨hfailure, hcalls⟩ := Response.calls_cases hresponse
  · rw [hnone] at hcall
    cases hcall
  rw [hcalls] at hcall
  have hstopped : response.stop = .toolUse := by
    rw [isEmpty_eq_false_iff.mpr (ne_nil_of_mem hcall)] at hfailure
    exact terminalFailure_tools hfailure
  have hqueued := accumulated_calls host response.received (hperm.mem_iff.mpr hcall)
  obtain ⟨id, name, arguments, hmem, rfl⟩ := hqueued
  rw [(parse_names host id name arguments).1, (parse_names host id name arguments).2]
  refine ⟨?_, ⟨valid, hvalid⟩, ⟨arguments, hmem, parse_ok host id name hparsed⟩, ?_⟩
  · have hlast : (accumulate host response.received).stop = some .toolUse := by
      rw [hsame, hstopped] at hstop
      exact hstop
    rw [hreceived, accumulate_snoc] at hlast
    obtain hearlier | ⟨usage, rfl⟩ := (apply_applied host _ event).stop _ hlast
    · rw [hclear.stop] at hearlier
      cases hearlier
    · exact ⟨usage, before, hreceived, fun first hfirst => hclear.prefix hfirst⟩
  · rintro ⟨index, content, hsent⟩
    have hsents := accumulated_blocks host response.received herror
    obtain ⟨hempty, -⟩ | ⟨-, huses, -⟩ := hblocks
    · have hentry := (hsents index content).mpr hsent
      change (accumulate host response.received).completeBlocks = [] at hempty
      rw [hempty] at hentry
      cases hentry
    · have huse := mem_map_of_mem (f := callUse) hcall
      rw [huses] at huse
      unfold callUse at huse
      rw [(parse_names host id name arguments).1, (parse_names host id name arguments).2] at huse
      obtain ⟨⟨position, block⟩, hentry, hblock⟩ :=
        mem_map.mp ((mem_toolUses _ _ _ _).mp huse)
      dsimp only at hblock
      rw [hblock] at hentry
      exact ⟨position, (hsents position _).mp hentry⟩

def Weighed (decision : Approval) (answers : List Approval) : Prop :=
  (decision = .allow ∧ ∀ answer ∈ answers, answer = .allow) ∨
    ((∃ message, decision = .deny message) ∧
      ∀ answer ∈ answers, answer = .allow ∨ ∃ message, answer = .deny message)

structure ToolPlan.Answered (width : ℕ) (plan : ToolPlan J) : Prop where
  all : plan.answers.length = width
  passed : ∀ answer ∈ plan.answers, answer = .allow ∨ ∃ message, answer = .deny message
  allowed : plan.denied = none → ∀ answer ∈ plan.answers, answer = .allow

/-- Each of the first middlewares was asked about the call. -/
def Asked (trace : List (Entry J)) (step count : ℕ) (id name : String) (args : J) : Prop :=
  ∀ k < count, .asked step k ⟨id, name, args⟩ ∈ trace

theorem Asked.append {trace : List (Entry J)} {step count : ℕ} {id name : String} {args : J}
    (h : Asked trace step count id name args) (more : List (Entry J)) :
    Asked (trace ++ more) step count id name args :=
  fun k hk => mem_append_left _ (h k hk)

theorem Asked.next {trace : List (Entry J)} {step count : ℕ} {id name : String} {args : J}
    (h : Asked trace step count id name args) :
    Asked (trace ++ [.asked step count ⟨id, name, args⟩]) step (count + 1) id name args := by
  intro k hk
  obtain hk | rfl := Nat.lt_succ_iff_lt_or_eq.mp hk
  · exact mem_append_left _ (h k hk)
  · exact mem_append_right _ mem_cons_self

theorem Weighed.answered {decision : Approval} {answers : List Approval}
    (h : Weighed decision answers) (call : ParsedCall J) :
    (ToolPlan.ofCall call decision answers).Answered answers.length where
  all := rfl
  passed := by
    obtain ⟨-, hall⟩ | ⟨-, hall⟩ := h
    · exact fun answer hanswer => Or.inl (hall answer hanswer)
    · exact hall
  allowed hdenied := by
    obtain ⟨-, hall⟩ | ⟨⟨message, rfl⟩, -⟩ := h
    · exact hall
    · cases hdenied

theorem Weighed.allow {decision : Approval} {answers : List Approval}
    (h : Weighed decision answers) : Weighed decision (answers ++ [.allow]) := by
  obtain ⟨rfl, hall⟩ | ⟨hdenied, hall⟩ := h
  · refine Or.inl ⟨rfl, fun answer hanswer => ?_⟩
    exact (mem_append.mp hanswer).elim (hall answer) mem_singleton.mp
  · refine Or.inr ⟨hdenied, fun answer hanswer => ?_⟩
    exact (mem_append.mp hanswer).elim (hall answer) fun h => Or.inl (mem_singleton.mp h)

theorem Weighed.deny {decision : Approval} {answers : List Approval}
    (h : Weighed decision answers) (message : String) :
    Weighed (if decision = .allow then .deny message else decision)
      (answers ++ [.deny message]) := by
  have hdenied : ∀ answer ∈ [Approval.deny message],
      answer = .allow ∨ ∃ message, answer = .deny message :=
    fun answer hanswer => Or.inr ⟨message, mem_singleton.mp hanswer⟩
  obtain ⟨rfl, hall⟩ | ⟨⟨other, rfl⟩, hall⟩ := h
  · refine Or.inr ⟨⟨message, rfl⟩, fun answer hanswer => ?_⟩
    exact (mem_append.mp hanswer).elim (fun h => Or.inl (hall answer h)) (hdenied answer)
  · refine Or.inr ⟨⟨other, rfl⟩, fun answer hanswer => ?_⟩
    exact (mem_append.mp hanswer).elim (hall answer) (hdenied answer)

structure Followed (host : Host J) (received : List (StreamEvent J)) (acc : StepAccum J) :
    Prop where
  acc : acc = accumulate host received
  last : ∃ before event, received = before ++ [event] ∧ Clear host before

def Sifted (trace : List (Entry J)) (step width : ℕ) (plans : List (ToolPlan J)) : Prop :=
  ∀ plan ∈ plans, plan.Answered width ∧ Asked trace step width plan.id plan.name plan.args

/-- Where a run with so many middlewares stands. -/
def Run.Checked (host : Host J) [DecidableEq J] (width : ℕ) (r : Run M J) : Prop :=
  match r.point with
  | .folding _ received acc _ => acc = accumulate host received ∧ Clear host received
  | .delta _ received acc | .folded _ received acc | .drained _ received acc _ =>
    Followed host received acc
  | .drain _ received acc => Followed host received acc ∧ Clear host received
  | .respond response => Grounded host response
  | .approving response plans _ =>
    Grounded host response ∧ Sifted r.trace r.totalSteps width plans
  | .asking response plans call _ k decision answers =>
    Grounded host response ∧ Sifted r.trace r.totalSteps width plans ∧ answers.length = k ∧
      Weighed decision answers ∧ Asked r.trace r.totalSteps k call.id call.name call.args ∧
      k ≤ width
  | .onToolApprove response plans call _ k decision answers =>
    Grounded host response ∧ Sifted r.trace r.totalSteps width plans ∧ answers.length = k ∧
      Weighed decision answers ∧ Asked r.trace r.totalSteps (k + 1) call.id call.name call.args ∧
      k < width
  | .dispatch response plans _ _ =>
    Grounded host response ∧ Sifted r.trace r.totalSteps width plans
  | .results response _ _ _ => Grounded host response
  | _ => True

theorem Sifted.append {trace : List (Entry J)} {step width : ℕ} {plans : List (ToolPlan J)}
    (h : Sifted trace step width plans) (more : List (Entry J)) :
    Sifted (trace ++ more) step width plans :=
  fun plan hplan => ⟨(h plan hplan).1, (h plan hplan).2.append more⟩

theorem Clear.followed {host : Host J} {received : List (StreamEvent J)} {acc : StepAccum J}
    (h : acc = accumulate host received ∧ Clear host received) (event : StreamEvent J) :
    Followed host (received ++ [event]) (acc.apply host event).1 := by
  refine ⟨?_, received, event, rfl, h.2⟩
  rw [accumulate_snoc, h.1]

theorem length_snoc_of_eq {answers : List Approval} {k : ℕ} (h : answers.length = k)
    (answer : Approval) : (answers ++ [answer]).length = k + 1 := by
  rw [length_append, h]
  rfl

theorem Stepped.checked [DecidableEq J] {host : Host J} {middleware : List M} {r next : Run M J}
    {input : Input J} (hstep : Stepped host r input next) (hheld : r.Held middleware)
    (h : r.Checked host middleware.length) : next.Checked host middleware.length := by
  have hat : ∀ point, r.point = point →
      Run.Checked host middleware.length { r with point := point } := fun _ hpoint => hpoint ▸ h
  have hmw : ∀ point, r.point = point → Run.Held middleware { r with point := point } :=
    fun _ hpoint => hpoint ▸ hheld
  cases hstep with
  | cancels | stays => exact h
  | responds => exact ⟨rfl, rfl, rfl⟩
  | emits _ hpoint | folds _ hpoint => exact Clear.followed (hat _ hpoint) _
  | polls hover hpoint =>
    have hfollowed : Followed host _ _ := hat _ hpoint
    rw [not_or, Option.not_isSome_iff_eq_none, Option.not_isSome_iff_eq_none,
      hfollowed.acc] at hover
    exact ⟨hfollowed, hover.1, hover.2⟩
  | cuts _ _ hpoint | ends _ hpoint | breaksOff _ hpoint => exact (hat _ hpoint).1
  | receives _ hpoint => exact ⟨(hat _ hpoint).1.acc, (hat _ hpoint).2⟩
  | completes hvalid hstop hpoint =>
    obtain ⟨rfl, hlast⟩ := hat _ hpoint
    exact ⟨⟨_, hvalid, hstop, rfl⟩, hlast⟩
  | records hpoint => exact ⟨hat _ hpoint, nofun⟩
  | considers hpoint =>
    obtain ⟨hgrounded, hsifted⟩ := hat _ hpoint
    exact ⟨hgrounded, hsifted, rfl, Or.inl ⟨rfl, nofun⟩,
      fun k hk => absurd hk (Nat.not_lt_zero k), Nat.zero_le _⟩
  | asks hk hpoint =>
    obtain ⟨hgrounded, hsifted, hlength, hweighed, hasked, -⟩ := hat _ hpoint
    rw [(hmw _ hpoint).2] at hk
    exact ⟨hgrounded, hsifted.append _, hlength, hweighed, hasked.next, hk⟩
  | plans hk hpoint =>
    obtain ⟨hgrounded, hsifted, hlength, hweighed, hasked, hle⟩ := hat _ hpoint
    rw [(hmw _ hpoint).2] at hk
    obtain rfl := hle.antisymm (Nat.le_of_not_lt hk)
    refine ⟨hgrounded, fun plan hplan => ?_⟩
    obtain hplan | hplan := mem_append.mp hplan
    · exact hsifted plan hplan
    · obtain rfl := mem_singleton.mp hplan
      refine ⟨?_, hasked⟩
      rw [← hlength]
      exact hweighed.answered _
  | allows hpoint =>
    obtain ⟨hgrounded, hsifted, hlength, hweighed, hasked, hk⟩ := hat _ hpoint
    exact ⟨hgrounded, hsifted, length_snoc_of_eq hlength _, hweighed.allow, hasked, hk⟩
  | denies hpoint =>
    obtain ⟨hgrounded, hsifted, hlength, hweighed, hasked, hk⟩ := hat _ hpoint
    exact ⟨hgrounded, hsifted, length_snoc_of_eq hlength _, hweighed.deny _, hasked, hk⟩
  | stopsCalls hpoint | approvalFails hpoint => exact ⟨(hat _ hpoint).1, (hat _ hpoint).2.1⟩
  | invokes _ _ _ hpoint => exact ⟨(hat _ hpoint).1, (hat _ hpoint).2.append _⟩
  | collects _ _ hpoint => exact (hat _ hpoint).1
  | yielded hpoint | closes _ hpoint | approved hpoint | resolves _ _ _ hpoint | toolDone _ hpoint
  | reports hpoint => exact (hat _ hpoint :)
  | _ => trivial

/-- Neither a question about a call nor its invocation. -/
def Entry.Quiet : Entry J → Prop
  | .asked _ _ _ | .invoked _ _ _ _ => False
  | _ => True

/-- What one step adds to the trace, with where it leads. -/
inductive Adds (r next : Run M J) : Entry J → Prop
  | quiet (entry : Entry J) (hentry : entry.Quiet) : Adds r next entry
  | asks (response : Response J) (plans : List (ToolPlan J)) (call : ParsedCall J)
      (calls : List (ParsedCall J)) (k : ℕ) (decision : Approval) (answers : List Approval)
      (hpoint : r.point = .asking response plans call calls k decision answers) :
      Adds r next (.asked r.totalSteps k ⟨call.id, call.name, call.args⟩)
  | invokes (response : Response J) (plans : List (ToolPlan J))
      (outcomes : List (Option (ToolOutcome J))) (toolStop : Option (Option String))
      (plan : ToolPlan J) (hpoint : r.point = .dispatch response plans outcomes toolStop)
      (hplan : plans[outcomes.length]? = some plan) (hresolved : plan.resolved r.agent = none)
      (hnext : next.point = .dispatch response plans (outcomes ++ [none]) toolStop)
      (hsteps : next.totalSteps = r.totalSteps) :
      Adds r next (.invoked r.totalSteps response (plans.take outcomes.length) plan)

def Grows (r next : Run M J) : Prop :=
  next.trace = r.trace ∨ ∃ entry, next.trace = r.trace ++ [entry] ∧ Adds r next entry

theorem grows_same {next : Run M J} (h : next.trace = r.trace) : Grows r next := Or.inl h

theorem grows_quiet {next : Run M J} (entry : Entry J) (h : next.trace = r.trace ++ [entry])
    (hentry : entry.Quiet) : Grows r next :=
  Or.inr ⟨entry, h, .quiet entry hentry⟩

theorem Stepped.grows [DecidableEq J] {host : Host J} {r next : Run M J} {input : Input J}
    (hstep : Stepped host r input next) : Grows r next := by
  cases hstep with
  | asks _ hpoint => exact Or.inr ⟨_, rfl, .asks _ _ _ _ _ _ _ hpoint⟩
  | invokes hplan _ hresolved hpoint =>
    exact Or.inr ⟨_, rfl, .invokes _ _ _ _ _ hpoint hplan hresolved rfl rfl⟩
  | unlisted | callsStart | callsStep | announces | sends | resends | emits | reports | endsStep
  | callsStepDone | callsFinish | finishes => exact grows_quiet _ rfl trivial
  | _ => exact grows_same rfl

/-- The place of a question or an invocation in the order of the run. -/
def Entry.key : Entry J → Option (ℕ ×ₗ ℕ)
  | .asked step _ _ => some (toLex (step, 0))
  | .invoked step _ before _ => some (toLex (step, before.length + 1))
  | _ => none

def Run.bound (r : Run M J) : ℕ ×ₗ ℕ :=
  match r.point with
  | .created => toLex (0, 0)
  | .dispatch _ _ outcomes _ => toLex (r.totalSteps, outcomes.length)
  | .results _ _ _ _ => toLex (r.totalSteps + 1, 0)
  | _ => toLex (r.totalSteps, 0)

theorem lex_le_of_fst_lt {a b : ℕ × ℕ} (h : a.1 < b.1) : toLex a ≤ toLex b :=
  Prod.Lex.toLex_le_toLex.mpr (Or.inl h)

theorem lex_le_of_snd_le (a b : ℕ × ℕ) (hfst : a.1 = b.1) (hsnd : a.2 ≤ b.2) : toLex a ≤ toLex b :=
  Prod.Lex.toLex_le_toLex.mpr (Or.inr ⟨hfst, hsnd⟩)

theorem Stepped.bound [DecidableEq J] {host : Host J} {r next : Run M J} {input : Input J}
    (hstep : Stepped host r input next) : r.bound ≤ next.bound := by
  have hbound : ∀ point, r.point = point → r.bound = Run.bound { r with point := point } := by
    rintro point rfl
    rfl
  have hmore : ∀ (outcomes : List (Option (ToolOutcome J))) (outcome : Option (ToolOutcome J)),
      toLex (r.totalSteps, outcomes.length) ≤
        toLex (r.totalSteps, (outcomes ++ [outcome]).length) := by
    intro outcomes outcome
    refine lex_le_of_snd_le _ _ rfl ?_
    rw [length_append]
    exact Nat.le_add_right _ _
  cases hstep with
  | cancels | stays => exact le_rfl
  | resolves _ _ _ hpoint | invokes _ _ _ hpoint => exact (hbound _ hpoint).trans_le (hmore _ _)
  | toolDone _ hpoint =>
    exact (hbound _ hpoint).trans_le (lex_le_of_snd_le _ _ rfl length_set.ge)
  | collects _ _ hpoint =>
    exact (hbound _ hpoint).trans_le (lex_le_of_fst_lt (Nat.lt_succ_self _))
  | _ =>
    have hhere := hbound _ ‹r.point = _›
    exact hhere.le

/-- An invocation comes strictly after everything before it, a question not before it. -/
def Precedes (first second : Entry J) : Prop :=
  ∀ key ∈ first.key, ∀ other ∈ second.key, key ≤ other ∧ ((ofLex other).2 = 0 ∨ key < other)

structure Run.Ordered (r : Run M J) : Prop where
  pairs : r.trace.Pairwise Precedes
  bound : ∀ entry ∈ r.trace, ∀ key ∈ entry.key, key ≤ r.bound

theorem Entry.Quiet.key {entry : Entry J} (h : entry.Quiet) : entry.key = none := by
  cases entry with
  | asked | invoked => exact h.elim
  | _ => rfl

theorem Run.Ordered.add {next : Run M J} (h : r.Ordered) (hbound : r.bound ≤ next.bound)
    (entry : Entry J) (htrace : next.trace = r.trace ++ [entry])
    (hentry : ∀ key ∈ entry.key, key ≤ next.bound ∧ ∀ other ≤ r.bound, other ≤ key ∧
      ((ofLex key).2 = 0 ∨ other < key)) :
    next.Ordered := by
  constructor
  · rw [htrace, pairwise_append]
    refine ⟨h.pairs, pairwise_singleton _ _, fun first hfirst second hsecond => ?_⟩
    obtain rfl := mem_singleton.mp hsecond
    exact fun other hother key hkey => (hentry key hkey).2 other (h.bound first hfirst other hother)
  · intro other hother key hkey
    rw [htrace] at hother
    obtain hother | hother := mem_append.mp hother
    · exact (h.bound other hother key hkey).trans hbound
    · obtain rfl := mem_singleton.mp hother
      exact (hentry key hkey).1

theorem Run.Ordered.grows {next : Run M J} (h : r.Ordered) (hgrows : Grows r next)
    (hbound : r.bound ≤ next.bound) : next.Ordered := by
  obtain hsame | ⟨entry, htrace, hadds⟩ := hgrows
  · exact ⟨hsame ▸ h.pairs, fun entry hentry key hkey =>
      (h.bound entry (hsame ▸ hentry) key hkey).trans hbound⟩
  · refine h.add hbound entry htrace fun key hkey => ?_
    cases hadds with
    | quiet _ hentry =>
      rw [hentry.key] at hkey
      cases hkey
    | asks response plans call calls k decision answers hpoint =>
      have hhere : r.bound = toLex (r.totalSteps, 0) := by
        unfold Run.bound
        rw [hpoint]
      cases hkey
      exact ⟨hhere ▸ hbound, fun other hother => ⟨hhere ▸ hother, Or.inl rfl⟩⟩
    | invokes response plans outcomes toolStop plan hpoint hplan hresolved hnext hsteps =>
      have hhere : r.bound = toLex (r.totalSteps, outcomes.length) := by
        unfold Run.bound
        rw [hpoint]
      have hthere : next.bound = toLex (r.totalSteps, outcomes.length + 1) := by
        unfold Run.bound
        rw [hnext, hsteps]
        dsimp only
        rw [length_append, length_singleton]
      obtain ⟨hlt, -⟩ := List.getElem?_eq_some_iff.mp hplan
      unfold Entry.key at hkey
      dsimp only at hkey
      rw [length_take_of_le hlt.le] at hkey
      cases hkey
      refine ⟨hthere.ge, fun other hother => ?_⟩
      have hless : other < toLex (r.totalSteps, outcomes.length + 1) := by
        rw [hhere] at hother
        exact hother.trans_lt (Prod.Lex.toLex_lt_toLex.mpr (Or.inr ⟨rfl, Nat.lt_succ_self _⟩))
      exact ⟨hless.le, Or.inr hless⟩

def Point.stream : Point J → Option (ChatRequest J × List (StreamEvent J))
  | .folding request received _ event => some (request, received ++ [event])
  | .delta request received _ | .folded request received _ | .drain request received _
  | .drained request received _ _ => some (request, received)
  | .respond response | .approving response _ _ | .asking response _ _ _ _ _ _
  | .onToolApprove response _ _ _ _ _ _ | .dispatch response _ _ _ | .results response _ _ _ =>
    some (response.request, response.received)
  | _ => none

def Streams (r : Run M J) (input : Input J) (next : Point J) : Prop :=
  ∀ request received, next.stream = some (request, received) →
    r.point.stream = some (request, received) ∨ (∃ event, received = [event]) ∨
      ∃ before event acc, received = before ++ [event] ∧ input = .next event ∧
        r.point = .drain request before acc ∧ r.agent.cancelled = false

theorem streams_none {input : Input J} {next : Point J} (h : next.stream = none) :
    Streams r input next := by
  intro request received hsome
  rw [h] at hsome
  cases hsome

theorem streams_same {input : Input J} {next : Point J} (h : next.stream = r.point.stream) :
    Streams r input next :=
  fun _ _ hsome => Or.inl (h ▸ hsome)

theorem streams_first {input : Input J} {request : ChatRequest J} {acc : StepAccum J}
    (event : StreamEvent J) : Streams r input (.folding request [] acc event) := by
  intro other received hsome
  cases hsome
  exact Or.inr (Or.inl ⟨event, rfl⟩)

theorem Stepped.streams [DecidableEq J] {host : Host J} {r next : Run M J} {input : Input J}
    (hstep : Stepped host r input next) : Streams r input next.point := by
  cases hstep with
  | cancels | stays => exact streams_same rfl
  | responds => exact streams_first _
  | receives hcancelled hpoint =>
    intro other events hsome
    cases hsome
    exact Or.inr (Or.inr ⟨_, _, _, rfl, rfl, hpoint, Bool.eq_false_of_not_eq_true hcancelled⟩)
  | _ => first | exact streams_none rfl | exact streams_same (by rw [‹r.point = _›]; rfl)

def Sent (host : Host J) [DecidableEq J] (agent : Agent M J) (inputs : List (Input J))
    (request : ChatRequest J) (before : List (StreamEvent J)) (event : StreamEvent J) : Prop :=
  ∃ first rest acc, inputs = first ++ .next event :: rest ∧
    (run (step host) (Run.of agent) first).point = .drain request before acc ∧
    (run (step host) (Run.of agent) first).agent.cancelled = false

theorem Sent.append [DecidableEq J] {host : Host J} {agent : Agent M J} {inputs : List (Input J)}
    {request : ChatRequest J} {before : List (StreamEvent J)} {event : StreamEvent J}
    (h : Sent host agent inputs request before event) (more : List (Input J)) :
    Sent host agent (inputs ++ more) request before event := by
  obtain ⟨first, rest, acc, rfl, hpoint, hcancelled⟩ := h
  exact ⟨first, rest ++ more, acc, by simp, hpoint, hcancelled⟩

theorem run_sent [DecidableEq J] (host : Host J) (agent : Agent M J) (inputs : List (Input J))
    (request : ChatRequest J) (before : List (StreamEvent J)) (event : StreamEvent J)
    (hbefore : before ≠ [])
    (h : (run (step host) (Run.of agent) inputs).point.stream =
      some (request, before ++ [event])) : Sent host agent inputs request before event := by
  induction inputs using List.reverseRecOn with
  | nil => cases h
  | append_singleton inputs input ih =>
    rw [run_append] at h
    obtain hsame | ⟨other, hother⟩ | ⟨others, other, acc, heq, rfl, hpoint, hcancelled⟩ :=
      step_stepped.streams _ _ h
    · exact (ih hsame).append _
    · exact absurd (append_eq_singleton_iff.mp hother) (by simp [hbefore])
    · obtain ⟨rfl, hlast⟩ := append_inj' heq rfl
      cases hlast
      exact ⟨inputs, [], acc, rfl, hpoint, hcancelled⟩

/-- What has happened by the time a tool is invoked for a plan. -/
structure Authorized (host : Host J) [DecidableEq J] (agent : Agent M J)
    (inputs : List (Input J)) (earlier : List (Entry J)) (step : ℕ) (response : Response J)
    (before : List (ToolPlan J)) (plan : ToolPlan J) : Prop where
  granted : Granted host response plan.id plan.name plan.args
  sent : ∃ events event, response.received = events ++ [event] ∧
    Sent host agent inputs response.request events event
  queued : before.map ToolPlan.toCall ++ [plan.toCall] <+: response.calls
  asked : Asked earlier step agent.middleware.length plan.id plan.name plan.args
  allowed : plan.answers = List.replicate agent.middleware.length .allow
  passed : ∀ other ∈ before, other.answers.length = agent.middleware.length ∧
    ∀ answer ∈ other.answers, answer = .allow ∨ ∃ message, answer = .deny message

theorem Authorized.append [DecidableEq J] {host : Host J} {agent : Agent M J}
    {inputs : List (Input J)} {earlier : List (Entry J)} {step : ℕ} {response : Response J}
    {before : List (ToolPlan J)} {plan : ToolPlan J}
    (h : Authorized host agent inputs earlier step response before plan) (more : List (Input J)) :
    Authorized host agent (inputs ++ more) earlier step response before plan := by
  obtain ⟨events, event, hreceived, hsent⟩ := h.sent
  exact { h with sent := ⟨events, event, hreceived, hsent.append more⟩ }

theorem resolved_none {agent : Agent M J} {plan : ToolPlan J} (h : plan.resolved agent = none) :
    plan.denied = none ∧ plan.parseError = none := by
  unfold ToolPlan.resolved at h
  cases hdenied : plan.denied with
  | some message =>
    rw [hdenied] at h
    cases h
  | none =>
    cases hparse : plan.parseError with
    | some message =>
      rw [hdenied, hparse] at h
      cases h
    | none => exact ⟨rfl, rfl⟩

theorem run_checked [DecidableEq J] (host : Host J) (agent : Agent M J) (inputs : List (Input J)) :
    (run (step host) (Run.of agent) inputs).Checked host agent.middleware.length ∧
      (run (step host) (Run.of agent) inputs).Ordered := by
  have hall : (run (step host) (Run.of agent) inputs).Held agent.middleware ∧
      (run (step host) (Run.of agent) inputs).Checked host agent.middleware.length ∧
      (run (step host) (Run.of agent) inputs).Ordered := by
    refine run_invariant (step host) (fun r => r.Held agent.middleware ∧
      r.Checked host agent.middleware.length ∧ r.Ordered) (fun r input h => ?_) _ inputs
      ⟨rfl, trivial, .nil, fun _ hentry => absurd hentry not_mem_nil⟩
    exact ⟨step_stepped.held h.1, step_stepped.checked h.1 h.2.1,
      h.2.2.grows step_stepped.grows step_stepped.bound⟩
  exact hall.2

theorem dispatched_authorized [DecidableEq J] {host : Host J} {agent : Agent M J}
    {inputs : List (Input J)} {response : Response J} {plans : List (ToolPlan J)}
    {outcomes : List (Option (ToolOutcome J))} {toolStop : Option (Option String)}
    {plan : ToolPlan J}
    (hpoint : (run (step host) (Run.of agent) inputs).point =
      .dispatch response plans outcomes toolStop)
    (hplan : plans[outcomes.length]? = some plan)
    (hresolved : plan.resolved (run (step host) (Run.of agent) inputs).agent = none) :
    Authorized host agent inputs (run (step host) (Run.of agent) inputs).trace
      (run (step host) (Run.of agent) inputs).totalSteps response (plans.take outcomes.length)
      plan := by
  have hbatch := run_batch host agent inputs
  have hchecked := (run_checked host agent inputs).1
  have hstream := run_sent host agent inputs response.request
  unfold Run.Checked at hchecked
  rw [hpoint] at hbatch hchecked hstream
  obtain ⟨hgrounded, hsifted⟩ := hchecked
  obtain ⟨hdenied, hparsed⟩ := resolved_none hresolved
  obtain ⟨hlt, hget⟩ := List.getElem?_eq_some_iff.mp hplan
  have hmem : plan ∈ plans := mem_of_getElem? hplan
  have hcall : plan.toCall ∈ response.calls :=
    hbatch.calls.subset (mem_map_of_mem hmem)
  have hgranted := hgrounded.granted plan.toCall hcall hparsed
  obtain ⟨hanswered, hasked⟩ := hsifted plan hmem
  refine ⟨hgranted, ?_, ?_, hasked, ?_, fun other hother => ?_⟩
  · obtain ⟨usage, before, hreceived, -⟩ := hgranted.terminal
    refine ⟨before, _, hreceived, hstream before _ ?_ (by rw [← hreceived]; rfl)⟩
    rintro rfl
    obtain ⟨arguments, hcalled, -⟩ := hgranted.parsed
    rw [hreceived] at hcalled
    cases mem_singleton.mp hcalled
  · refine List.IsPrefix.trans ?_ hbatch.calls
    rw [← map_singleton, ← map_append]
    refine List.IsPrefix.map _ ?_
    rw [← hget, take_append_getElem]
    exact take_prefix _ _
  · exact eq_replicate_iff.mpr ⟨hanswered.all, hanswered.allowed hdenied⟩
  · obtain ⟨hother, -⟩ := hsifted other (mem_of_mem_take hother)
    exact ⟨hother.all, hother.passed⟩

theorem prefix_authorized [DecidableEq J] (host : Host J) (agent : Agent M J)
    (inputs : List (Input J)) (earlier : List (Entry J)) (index : ℕ) (response : Response J)
    (before : List (ToolPlan J)) (plan : ToolPlan J)
    (h : earlier ++ [.invoked index response before plan] <+:
      (run (step host) (Run.of agent) inputs).trace) :
    Authorized host agent inputs earlier index response before plan := by
  induction inputs using List.reverseRecOn with
  | nil => exact absurd (prefix_nil.mp h) (by simp)
  | append_singleton inputs input ih =>
    rw [run_append] at h
    have hstep : Stepped host _ input (step host (run (step host) (Run.of agent) inputs) input) :=
      step_stepped
    obtain hsame | ⟨entry, htrace, hadds⟩ := hstep.grows
    · refine (ih ?_).append _
      rw [← hsame]
      exact h
    · change _ <+: (step host _ input).trace at h
      rw [htrace] at h
      obtain heq | h := prefix_concat_iff.mp h
      · obtain ⟨rfl, hentry⟩ := append_inj' heq rfl
        cases hentry
        cases hadds with
        | quiet _ hquiet => exact hquiet.elim
        | invokes _ plans outcomes toolStop _ hpoint hplan hresolved =>
          exact (dispatched_authorized hpoint hplan hresolved).append _
      · exact (ih h).append _

/-- A tool is invoked only for a call of a response whose last event, sent before any
cancellation and after no protocol error, is the end of a tool-use turn, whose blocks are
valid, whose arguments parsed, and which every middleware allowed when it was asked about
this call, none having stopped at an earlier one. After an invocation no call of the step
is asked about, and the same call is not invoked again. -/
theorem invoked_authorized [DecidableEq J] (host : Host J) (agent : Agent M J)
    (inputs : List (Input J)) (earlier later : List (Entry J)) (index : ℕ)
    (response : Response J) (before : List (ToolPlan J)) (plan : ToolPlan J)
    (h : (run (step host) (Run.of agent) inputs).trace =
      earlier ++ .invoked index response before plan :: later) :
    Authorized host agent inputs earlier index response before plan ∧
      (∀ k call, .asked index k call ∉ later) ∧
      ∀ other others again, .invoked index other others again ∈ later →
        others.length ≠ before.length := by
  have hordered := (run_checked host agent inputs).2.pairs
  rw [h, pairwise_append, pairwise_cons] at hordered
  have hlater := hordered.2.1.1
  refine ⟨prefix_authorized host agent inputs earlier index response before plan ?_,
    fun k call hasked => ?_, fun other others again hinvoked heq => ?_⟩
  · rw [h]
    exact ⟨later, append_assoc ..⟩
  · have hle := (hlater _ hasked _ rfl _ rfl).1
    obtain hlt | ⟨-, hzero⟩ := Prod.Lex.toLex_le_toLex.mp hle
    · exact lt_irrefl _ hlt
    · exact Nat.not_succ_le_zero _ hzero
  · obtain ⟨-, hzero | hlt⟩ := hlater _ hinvoked _ rfl _ rfl
    · cases hzero
    · rw [heq] at hlt
      exact lt_irrefl _ hlt

/-- The agent that a run leaves where its inputs end, there or dropped there. -/
def afterRun [DecidableEq J] (host : Host J) (agent : Agent M J) (inputs : List (Input J)) :
    Agent M J :=
  (run (step host) (Run.of agent) inputs).agent

def AtRest [DecidableEq J] (host : Host J) (agent : Agent M J) (inputs : List (Input J)) : Prop :=
  (run (step host) (Run.of agent) inputs).point.AtRest

theorem afterRun_middleware [DecidableEq J] (host : Host J) (agent : Agent M J)
    (inputs : List (Input J)) :
    (AtRest host agent inputs → (afterRun host agent inputs).middleware = agent.middleware) ∧
      (¬AtRest host agent inputs → (afterRun host agent inputs).middleware = []) := by
  have hheld := run_held host agent inputs
  refine ⟨fun hrest => hheld.middleware_iff.mpr (.inr hrest), fun hbusy => ?_⟩
  unfold AtRest at hbusy
  unfold Run.Held at hheld
  cases hpoint : (run (step host) (Run.of agent) inputs).point
  case created | done | returned =>
    rw [hpoint] at hbusy
    exact absurd trivial hbusy
  all_goals
    rw [hpoint] at hheld
    exact hheld.1

/-- Over a sequence of runs the middleware stays if each of them came to rest, and one that was
dropped elsewhere leaves none. -/
theorem runs_middleware [DecidableEq J] (host : Host J) (agent : Agent M J)
    (runs : List (List (Input J))) :
    (Meets (afterRun host) (AtRest host) agent runs →
        (run (afterRun host) agent runs).middleware = agent.middleware) ∧
      (¬Meets (afterRun host) (AtRest host) agent runs →
        (run (afterRun host) agent runs).middleware = []) := by
  induction runs generalizing agent with
  | nil => exact ⟨fun _ => rfl, fun h => absurd trivial h⟩
  | cons inputs runs ih =>
    obtain ⟨hkept, hlost⟩ := ih (afterRun host agent inputs)
    obtain ⟨hrest, hbusy⟩ := afterRun_middleware host agent inputs
    constructor
    · rintro ⟨hfirst, hmeets⟩
      exact (hkept hmeets).trans (hrest hfirst)
    · intro hmeets
      by_cases hlater : Meets (afterRun host) (AtRest host) (afterRun host agent inputs) runs
      · exact (hkept hlater).trans (hbusy fun hfirst => hmeets ⟨hfirst, hlater⟩)
      · exact hlost hlater

/-- In a run after others a tool is invoked only with the leave of the middleware it starts with:
that of the first run if all came to rest, and otherwise none. -/
theorem runs_authorized [DecidableEq J] (host : Host J) (agent : Agent M J)
    (runs : List (List (Input J))) (inputs : List (Input J)) (earlier later : List (Entry J))
    (index : ℕ) (response : Response J) (before : List (ToolPlan J)) (plan : ToolPlan J)
    (h : (run (step host) (Run.of (run (afterRun host) agent runs)) inputs).trace =
      earlier ++ .invoked index response before plan :: later) :
    Authorized host (run (afterRun host) agent runs) inputs earlier index response before plan ∧
      (Meets (afterRun host) (AtRest host) agent runs →
        (run (afterRun host) agent runs).middleware = agent.middleware) ∧
      (¬Meets (afterRun host) (AtRest host) agent runs →
        (run (afterRun host) agent runs).middleware = []) := by
  refine ⟨prefix_authorized host _ inputs earlier index response before plan ?_,
    runs_middleware host agent runs⟩
  rw [h]
  exact ⟨later, append_assoc ..⟩

end

def untilInvoked : List (Input Unit) :=
  untilApproval ++ [.approval (.ok .allow), .resume, .resume, .startTool]

theorem approved_call_invoked : ∃ earlier response before plan,
    (run (step plainHost) (Run.of guardedAgent) untilInvoked).trace =
        earlier ++ [.invoked 0 response before plan] ∧
      Authorized plainHost guardedAgent untilInvoked earlier 0 response before plan := by
  have htrace : (run (step plainHost) (Run.of guardedAgent) untilInvoked).trace =
      (run (step plainHost) (Run.of guardedAgent) untilApproval).trace ++ [.invoked 0 _ [] _] := rfl
  exact ⟨_, _, _, _, htrace, (invoked_authorized plainHost guardedAgent untilInvoked _ [] 0 _ _ _
    htrace).1⟩

end Stakit.AgentRun
