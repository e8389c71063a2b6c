import Mathlib.Data.List.ReduceOption
import Stakit.AgentSteps

set_option autoImplicit false

namespace Stakit.AgentRun
open AgentMessages EntryMaps List

section
variable {M J : Type}

def toolUse : AssistantContent J → Option (String × String × J)
  | .toolUse id name input => some (id, name, input)
  | _ => none

def toolUses (blocks : List (AssistantContent J)) : List (String × String × J) :=
  blocks.filterMap toolUse

def callUse (call : ParsedCall J) : String × String × J := (call.id, call.name, call.args)

theorem toolUses_calls (calls : List (ParsedCall J)) :
    toolUses (calls.map fun call => .toolUse call.id call.name call.args) = calls.map callUse := by
  induction calls with
  | nil => rfl
  | cons call rest ih =>
    change callUse call :: toolUses (rest.map _) = _
    rw [ih]
    rfl

theorem toolUses_append (first second : List (AssistantContent J)) :
    toolUses (first ++ second) = toolUses first ++ toolUses second :=
  filterMap_append ..

theorem find?_perm_eraseP {α : Type} (p : α → Bool) (items : List α) (item : α)
    (h : items.find? p = some item) : items.Perm (item :: items.eraseP p) := by
  obtain ⟨hitem, before, after, rfl, hbefore⟩ := List.find?_eq_some_iff_append.mp h
  have hskipped : ∀ other ∈ before, ¬p other = true := by
    intro other hother
    simpa using hbefore other hother
  rw [eraseP_append_right _ hskipped, eraseP_cons_of_pos hitem]
  exact perm_middle

theorem orderCalls_ok [DecidableEq J] (blocks : List (AssistantContent J))
    (calls ordered left found : List (ParsedCall J))
    (h : orderCalls blocks calls ordered = .ok (left, found)) :
    ∃ taken, found = ordered ++ taken ∧ taken.map callUse = toolUses blocks ∧
      calls.Perm (taken ++ left) ∧ (∀ call ∈ taken, call.parseError = none) ∧
      ((ordered.map ParsedCall.id).Nodup → (found.map ParsedCall.id).Nodup) := by
  induction blocks generalizing calls ordered with
  | nil =>
    cases h
    exact ⟨[], (append_nil _).symm, rfl, .refl _, nofun, id⟩
  | cons block rest ih =>
    cases block with
    | text text | thinking thinking => exact ih calls ordered h
    | toolUse id name input =>
      unfold orderCalls at h
      split_ifs at h with hduplicate
      dsimp only at h
      cases hfind : calls.find? (fun call : ParsedCall J =>
          decide (call.id = id ∧ call.name = name ∧ call.args = input ∧ call.parseError = none)) with
      | none =>
        rw [hfind] at h
        cases h
      | some call =>
        rw [hfind] at h
        obtain ⟨taken, rfl, huses, hperm, hparsed, hnodup⟩ := ih _ _ h
        have hmatch := List.find?_some hfind
        rw [decide_eq_true_eq] at hmatch
        obtain ⟨rfl, rfl, rfl, hcall⟩ := hmatch
        refine ⟨call :: taken, append_assoc .., ?_, ?_, ?_, fun hordered => ?_⟩
        · rw [map_cons, huses]
          rfl
        · exact (find?_perm_eraseP _ calls call hfind).trans (hperm.cons call)
        · rw [forall_mem_cons]
          exact ⟨hcall, hparsed⟩
        · refine hnodup ?_
          rw [map_append, nodup_append]
          refine ⟨hordered, nodup_singleton _, fun other hother own hown heq => ?_⟩
          obtain rfl := heq.trans (mem_singleton.mp hown)
          obtain ⟨taken, htaken, hid⟩ := mem_map.mp hother
          exact hduplicate (any_eq_true.mpr ⟨taken, htaken, decide_eq_true hid⟩)

theorem validateBlocks_ok [DecidableEq J] {acc valid : StepAccum J}
    (h : acc.validateBlocks = .ok valid) :
    acc.protocolError = none ∧ acc.toolCalls.Perm valid.toolCalls ∧
      (∃ calls, valid = { acc with toolCalls := calls }) ∧
      (acc.completeBlocks = [] ∧ valid = acc ∨
        acc.completeBlocks ≠ [] ∧ valid.toolCalls.map callUse = toolUses acc.blocks ∧
          (∀ call ∈ valid.toolCalls, call.parseError = none) ∧
          (valid.toolCalls.map ParsedCall.id).Nodup) := by
  unfold StepAccum.validateBlocks at h
  cases herror : acc.protocolError with
  | some error =>
    rw [herror] at h
    cases h
  | none =>
    rw [herror] at h
    dsimp only at h
    split_ifs at h with hsigned hempty hindices
    · cases h
      refine ⟨rfl, .refl _, ⟨acc.toolCalls, ?_⟩, Or.inl ⟨hempty, rfl⟩⟩
      rw [← herror]
    · cases horder : orderCalls acc.blocks acc.toolCalls [] with
      | error error =>
        rw [horder] at h
        cases h
      | ok parts =>
        obtain ⟨left, found⟩ := parts
        rw [horder] at h
        cases left with
        | cons call rest => cases h
        | nil =>
          cases h
          obtain ⟨taken, rfl, huses, hperm, hparsed, hnodup⟩ := orderCalls_ok _ _ _ _ _ horder
          rw [append_nil] at hperm
          refine ⟨rfl, hperm, ⟨found, ?_⟩, Or.inr ⟨hempty, huses, hparsed, hnodup nodup_nil⟩⟩
          rw [← herror]

def Response.hasTools (response : Response J) : Bool := !response.calls.isEmpty

structure Response.Sound (response : Response J) : Prop where
  uses : toolUses response.blocks = response.calls.map callUse
  authorized : response.failure = none → terminalFailure response.stop response.hasTools = none
  withheld : response.failure ≠ none → response.calls = [] ∧
    response.blocks = response.text.toList.map .text

theorem toolUses_assembled (acc : StepAccum J) (text reasoning : Option String)
    (h : acc.completeBlocks = []) :
    toolUses (assembleBlocks acc text reasoning) = acc.toolCalls.map callUse := by
  unfold assembleBlocks
  rw [if_pos h, toolUses_append, toolUses_append, toolUses_calls]
  cases text <;> cases reasoning <;> rfl

theorem responseOf_sound [DecidableEq J] (request : ChatRequest J)
    (received : List (StreamEvent J)) (cancelled : Bool) {acc valid : StepAccum J}
    (stop : StopReason) (h : acc.validateBlocks = .ok valid) :
    (responseOf request received cancelled valid stop).Sound := by
  obtain ⟨-, -, ⟨calls, hvalid⟩, hblocks⟩ := validateBlocks_ok h
  unfold responseOf
  cases hfailure : terminalFailure stop (!valid.toolCalls.isEmpty) with
  | some message =>
    refine ⟨toolUses_assembled (StepAccum.withhold valid) _ _ rfl, nofun, fun _ => ⟨rfl, ?_⟩⟩
    change (Option.map AssistantContent.text (nonempty valid.text)).toList ++ [] =
      (nonempty valid.text).toList.map .text
    cases nonempty valid.text <;> rfl
  | none =>
    refine ⟨?_, fun _ => hfailure, fun hsome => absurd rfl hsome⟩
    change toolUses (assembleBlocks valid _ _) = valid.toolCalls.map callUse
    obtain ⟨hempty, rfl⟩ | ⟨hne, huses, -⟩ := hblocks
    · exact toolUses_assembled _ _ _ hempty
    · unfold assembleBlocks
      subst hvalid
      rw [if_neg hne]
      exact huses.symm

def ToolPlan.toCall (plan : ToolPlan J) : ParsedCall J :=
  ⟨plan.id, plan.name, plan.args, plan.parseError⟩

/-- The records are those of an initial part of the calls, of all of them if nothing
stopped the batch. -/
structure Recorded (response : Response J) (records : List (ToolCallRecord J))
    (toolStop : Option (Option String)) : Prop where
  sound : response.Sound
  ids : records.map ToolCallRecord.id <+: response.calls.map ParsedCall.id
  all : toolStop = none → records.map ToolCallRecord.id = response.calls.map ParsedCall.id

structure Planned (response : Response J) (plans : List (ToolPlan J))
    (outcomes : List (Option (ToolOutcome J))) (toolStop : Option (Option String)) : Prop where
  sound : response.Sound
  calls : plans.map ToolPlan.toCall <+: response.calls
  all : toolStop = none → plans.map ToolPlan.toCall = response.calls
  started : outcomes.length ≤ plans.length

def Point.Batch : Point J → Prop
  | .respond response => response.Sound
  | .approving response plans calls =>
    response.Sound ∧ response.calls = plans.map ToolPlan.toCall ++ calls
  | .asking response plans call calls _ _ _ | .onToolApprove response plans call calls _ _ _ =>
    response.Sound ∧ response.calls = plans.map ToolPlan.toCall ++ call :: calls
  | .dispatch response plans outcomes toolStop => Planned response plans outcomes toolStop
  | .results response records toolStop _ | .stepEnd response records toolStop
  | .finishingStep response records toolStop _ | .onStepDone response records toolStop _ =>
    Recorded response records toolStop
  | _ => True

variable (r : Run M J) (response : Response J) (plans : List (ToolPlan J))

theorem records_ids {outcomes : List (Option (ToolOutcome J))}
    (hlength : outcomes.length = plans.length) (hall : outcomes.all Option.isSome = true) :
    ((plans.zip outcomes.reduceOption).map fun pair => recordOf pair.1 pair.2).map
      ToolCallRecord.id = (plans.map ToolPlan.toCall).map ParsedCall.id := by
  have hreduced : outcomes.reduceOption.length = plans.length := by
    rw [← hlength]
    exact reduceOption_length_eq_iff.mpr (all_eq_true.mp hall)
  rw [map_map, map_map]
  change (plans.zip outcomes.reduceOption).map (ToolPlan.id ∘ Prod.fst) = plans.map ToolPlan.id
  rw [← map_map, map_fst_zip hreduced.ge]

theorem Planned.recorded {response : Response J} {plans : List (ToolPlan J)}
    {outcomes : List (Option (ToolOutcome J))} {toolStop : Option (Option String)}
    (h : Planned response plans outcomes toolStop)
    (hlength : outcomes.length = plans.length) (hall : outcomes.all Option.isSome = true) :
    Recorded response ((plans.zip outcomes.reduceOption).map fun pair => recordOf pair.1 pair.2)
      toolStop where
  sound := h.sound
  ids := by
    rw [records_ids plans hlength hall]
    exact h.calls.map _
  all := fun hnone => by rw [records_ids plans hlength hall, h.all hnone]

theorem Planned.grow {response : Response J} {plans : List (ToolPlan J)} {plan : ToolPlan J}
    {outcomes : List (Option (ToolOutcome J))} {toolStop : Option (Option String)}
    (h : Planned response plans outcomes toolStop) (hplan : plans[outcomes.length]? = some plan)
    (outcome : Option (ToolOutcome J)) :
    Planned response plans (outcomes ++ [outcome]) toolStop := by
  obtain ⟨hlt, -⟩ := List.getElem?_eq_some_iff.mp hplan
  refine ⟨h.sound, h.calls, h.all, ?_⟩
  rwa [length_append]

theorem planned_stopped {response : Response J} {plans : List (ToolPlan J)} {call : ParsedCall J}
    {calls : List (ParsedCall J)} (message : Option String)
    (h : response.Sound ∧ response.calls = plans.map ToolPlan.toCall ++ call :: calls) :
    Planned response plans [] (some message) := by
  refine ⟨h.1, ?_, nofun, Nat.zero_le _⟩
  rw [h.2]
  exact prefix_append _ _

theorem Stepped.batch [DecidableEq J] {host : Host J} {r next : Run M J} {input : Input J}
    (hstep : Stepped host r input next) (h : r.point.Batch) : next.point.Batch := by
  have hat : ∀ point, r.point = point → point.Batch := fun _ hpoint => hpoint ▸ h
  cases hstep with
  | cancels | stays => exact h
  | completes hvalid => exact responseOf_sound _ _ _ _ hvalid
  | records hpoint => exact ⟨hat _ hpoint, rfl⟩
  | approved hpoint =>
    obtain ⟨hsound, hcalls⟩ := hat _ hpoint
    rw [append_nil] at hcalls
    exact ⟨hsound, hcalls ▸ prefix_refl _, fun _ => hcalls.symm, Nat.zero_le _⟩
  | plans hk hpoint =>
    obtain ⟨hsound, hcalls⟩ := hat _ hpoint
    refine ⟨hsound, ?_⟩
    rw [hcalls, map_append, append_assoc]
    rfl
  | stopsCalls hpoint | approvalFails hpoint => exact planned_stopped _ (hat _ hpoint)
  | resolves hplan _ _ hpoint | invokes hplan _ _ hpoint =>
    exact Planned.grow (hat _ hpoint) hplan _
  | toolDone houtcome hpoint =>
    obtain ⟨hsound, hcalls, hall, hstarted⟩ := hat _ hpoint
    refine ⟨hsound, hcalls, hall, ?_⟩
    rw [length_set]
    exact hstarted
  | collects hall hcalls hpoint => exact hcalls ▸ Planned.recorded (hat _ hpoint) hall.1 hall.2
  | considers hpoint | asks _ hpoint | allows hpoint | denies hpoint | reports hpoint
  | endsStep hpoint | keeps hpoint | callsStepDone _ hpoint | stepDoneNext _ hpoint =>
    exact (hat _ hpoint :)
  | _ => trivial

end

end Stakit.AgentRun
