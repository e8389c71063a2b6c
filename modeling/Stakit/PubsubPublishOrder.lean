import Stakit.PubsubHubTrace

set_option autoImplicit false

namespace Stakit.PubsubOrder
open FiniteMap PubsubTopic RouterError PubsubHub TransitionRuns List
open Function (update_self update_of_ne update)

/-- How far a call of `Hub::publish` has come. A delivered one waits to be handed off. -/
inductive Stage where
  | idle
  | called
  | validated
  | delivered (position : Option Cursor)
  | handedOff
  | failed (error : Error)

structure Call where
  topic : Topic
  name : String
  params : String
  stage : Stage

def noCall : Call := ⟨"", "", "", .idle⟩

structure Publish where
  call : ℕ
  topic : Topic
  name : String
  params : String
  position : Option Cursor
  deriving DecidableEq

/-- Node `a`, node `b` and the broker between them. `numbered` lists the publishes
`a` gave a position, `handed` those the broker took and `fannedOut` those `b` fanned
out, each in the order it happened; no step reads them. -/
structure Bus where
  a : Hub
  b : Hub
  calls : ℕ → Call
  queue : List Publish
  numbered : List Publish
  handed : List Publish
  fannedOut : List Publish

def start (a b : Hub) : Bus := ⟨a, b, fun _ => noCall, [], [], [], []⟩

inductive Act where
  | call (task : ℕ) (topic : Topic) (name params : String)
  | validate (task : ℕ)
  | fanOut (task : ℕ)
  | handOff (task : ℕ)
  | refuse (task : ℕ) (error : Error)
  | deliver
  | onA (sec : Section)
  | onB (sec : Section)

def setStage (s : Bus) (task : ℕ) (stage : Stage) : Bus :=
  { s with calls := update s.calls task { s.calls task with stage := stage } }

def nextPosition (h : Hub) (topic : Topic) : Option Cursor := (cursorOf h topic).map advance

def publishOf (s : Bus) (task : ℕ) (position : Option Cursor) : Publish :=
  ⟨task, (s.calls task).topic, (s.calls task).name, (s.calls task).params, position⟩

def fanOutCall (s : Bus) (task : ℕ) : Bus :=
  let call := s.calls task
  let position := nextPosition s.a call.topic
  { setStage s task (.delivered position) with
    a := PubsubHub.fanOut s.a call.topic call.name call.params
    numbered := if position.isSome then s.numbered ++ [publishOf s task position] else s.numbered }

def handOffCall (s : Bus) (task : ℕ) (position : Option Cursor) : Bus :=
  let publish := publishOf s task position
  { setStage s task .handedOff with
    a := PubsubHub.handOff s.a publish.topic (publishPayload publish.name publish.params)
    queue := s.queue ++ [publish]
    handed := s.handed ++ [publish] }

def deliverNext (s : Bus) : Bus :=
  match s.queue with
  | [] => s
  | publish :: rest =>
    { s with
      b := PubsubHub.deliver s.b publish.topic (some (publishPayload publish.name publish.params))
      queue := rest
      fannedOut := if hasTopic s.b publish.topic then s.fannedOut ++ [publish] else s.fannedOut }

section
variable (validate : Topic → Incoming → Except Error Unit)

def step (s : Bus) : Act → Bus
  | .call task topic name params =>
    match (s.calls task).stage with
    | .idle => { s with calls := update s.calls task ⟨topic, name, params, .called⟩ }
    | _ => s
  | .validate task =>
    match (s.calls task).stage with
    | .called =>
      match validate (s.calls task).topic
          (publishPayload (s.calls task).name (s.calls task).params) with
      | .error error => setStage s task (.failed error)
      | .ok () => setStage s task .validated
    | _ => s
  | .fanOut task =>
    match (s.calls task).stage with
    | .validated => fanOutCall s task
    | _ => s
  | .handOff task =>
    match (s.calls task).stage with
    | .delivered position => handOffCall s task position
    | _ => s
  | .refuse task error =>
    match (s.calls task).stage with
    | .delivered _ => setStage s task (.failed error)
    | _ => s
  | .deliver => deliverNext s
  | .onA sec => { s with a := PubsubHub.step s.a sec }
  | .onB sec => { s with b := PubsubHub.step s.b sec }

end

def onTopic (topic : Topic) (publishes : List Publish) : List Publish :=
  publishes.filter fun publish => publish.topic = topic && publish.position.isSome

/-- What `b` fanned out of a topic, it fanned out in the order `a` numbered it. -/
def InSeqOrder (s : Bus) : Prop :=
  ∀ topic, (onTopic topic s.fannedOut).Sublist (onTopic topic s.numbered)

def isDelivered : Stage → Bool
  | .delivered _ => true
  | _ => false

/-- The call took its number and is not handed off yet. -/
def Waiting (s : Bus) (task : ℕ) : Prop := isDelivered (s.calls task).stage = true

instance (s : Bus) (task : ℕ) : Decidable (Waiting s task) := inferInstanceAs (Decidable (_ = _))

/-- A publish is handed off when those of its topic numbered before it are not
waiting any more. -/
def InTurn (s : Bus) : Act → Prop
  | .handOff task =>
    ∀ earlier ∈ s.numbered.takeWhile (fun publish => publish.call ≠ task),
      earlier.topic = (s.calls task).topic → ¬ Waiting s earlier.call
  | _ => True

instance (s : Bus) : (act : Act) → Decidable (InTurn s act)
  | .handOff task => inferInstanceAs (Decidable
      (∀ earlier ∈ s.numbered.takeWhile (fun publish => publish.call ≠ task),
        earlier.topic = (s.calls task).topic → ¬ Waiting s earlier.call))
  | .call .. | .validate _ | .fanOut _ | .refuse .. | .deliver | .onA _ | .onB _ => .isTrue trivial

variable (s : Bus) (task : ℕ)

theorem waiting_iff : Waiting s task ↔ ∃ position, (s.calls task).stage = .delivered position := by
  unfold Waiting
  cases (s.calls task).stage <;> simp [isDelivered]

def early : Stage → Bool
  | .idle | .called | .validated => true
  | _ => false

/-- A waiting publish is in its place in `numbered`, and nothing numbered after it
on its topic has been handed off. -/
structure Ordered (s : Bus) : Prop where
  distinct : (s.numbered.map Publish.call).Nodup
  started : ∀ publish ∈ s.numbered, early (s.calls publish.call).stage = false
  waiting : ∀ task position, (s.calls task).stage = .delivered (some position) →
    publishOf s task (some position) ∈ s.numbered
  gone : ∀ publish ∈ s.handed, (s.calls publish.call).stage = .handedOff
  turn : ∀ before publish after, s.numbered = before ++ publish :: after →
    Waiting s publish.call → ∀ later ∈ after, later.topic = publish.topic → later ∉ s.handed
  order : ∀ topic, (onTopic topic s.handed).Sublist (onTopic topic s.numbered)
  queue : (s.fannedOut ++ s.queue).Sublist s.handed

theorem Ordered.inSeqOrder {s : Bus} (hs : Ordered s) : InSeqOrder s := by
  intro topic
  have hfanned : s.fannedOut.Sublist s.handed := (sublist_append_left _ _).trans hs.queue
  exact (hfanned.filter _).trans (hs.order topic)

theorem start_ordered (a b : Hub) : Ordered (start a b) where
  distinct := nodup_nil
  started publish hin := absurd hin not_mem_nil
  waiting task position hstage := by cases hstage
  gone publish hin := absurd hin not_mem_nil
  turn before publish after hsplit := by
    have hlen := congrArg List.length hsplit
    simp [start] at hlen
  order topic := List.Sublist.refl _
  queue := List.Sublist.refl _

theorem setCall_ordered (call : Call) (hs : Ordered s) (hold : (s.calls task).stage ≠ .handedOff)
    (hnew : ∀ position, call.stage ≠ .delivered position)
    (hearly : early call.stage = true → early (s.calls task).stage = true) :
    Ordered { s with calls := update s.calls task call } := by
  have hwaiting : ∀ other, Waiting { s with calls := update s.calls task call } other →
      other ≠ task ∧ Waiting s other := by
    intro other hwait
    obtain ⟨position, hstage⟩ := (waiting_iff _ other).mp hwait
    have hother : other ≠ task := by
      rintro rfl
      simp only [update_self] at hstage
      exact hnew position hstage
    simp only [update_of_ne hother] at hstage
    exact ⟨hother, (waiting_iff s other).mpr ⟨position, hstage⟩⟩
  refine ⟨hs.distinct, ?_, ?_, ?_, ?_, hs.order, hs.queue⟩
  · intro publish hin
    have hbefore := hs.started publish hin
    by_cases htask : publish.call = task
    · dsimp only
      rw [htask, update_self]
      rw [htask] at hbefore
      cases hcall : early call.stage with
      | false => rfl
      | true => rw [hearly hcall] at hbefore; cases hbefore
    · dsimp only
      rw [update_of_ne htask]
      exact hbefore
  · intro other position hstage
    have hother := (hwaiting other ((waiting_iff _ other).mpr ⟨_, hstage⟩)).1
    simp only [update_of_ne hother] at hstage
    have hin := hs.waiting other position hstage
    simpa only [publishOf, update_of_ne hother] using hin
  · intro publish hin
    have hbefore := hs.gone publish hin
    have htask : publish.call ≠ task := by
      rintro rfl
      exact hold hbefore
    dsimp only
    rw [update_of_ne htask]
    exact hbefore
  · intro before publish after hsplit hwait
    exact hs.turn before publish after hsplit (hwaiting _ hwait).2

theorem fanOutCall_calls {other : ℕ} (h : other ≠ task) :
    (fanOutCall s task).calls other = s.calls other :=
  update_of_ne h _ _

theorem fanOutCall_stage : ((fanOutCall s task).calls task).stage =
    .delivered (nextPosition s.a (s.calls task).topic) := by
  simp only [fanOutCall, setStage, update_self]

theorem fanOutCall_numbered : (fanOutCall s task).numbered = s.numbered ∨
    (fanOutCall s task).numbered =
      s.numbered ++ [publishOf s task (nextPosition s.a (s.calls task).topic)] := by
  unfold fanOutCall
  dsimp only
  split_ifs
  · exact .inr rfl
  · exact .inl rfl

section
variable {s : Bus} {task : ℕ} (hs : Ordered s) (hstage : (s.calls task).stage = .validated)
include hs hstage

theorem Ordered.not_numbered {publish : Publish} (hin : publish ∈ s.numbered) :
    publish.call ≠ task := by
  intro htask
  have hearly := hs.started publish hin
  rw [htask, hstage] at hearly
  cases hearly

theorem Ordered.not_handed {publish : Publish} (hin : publish ∈ s.handed) :
    publish.call ≠ task := by
  intro htask
  have hbefore := hs.gone publish hin
  rw [htask, hstage] at hbefore
  cases hbefore

theorem fanOutCall_distinct : ((fanOutCall s task).numbered.map Publish.call).Nodup := by
  rcases fanOutCall_numbered s task with hsame | hmore
  · rw [hsame]
    exact hs.distinct
  · rw [hmore, map_append, nodup_append]
    refine ⟨hs.distinct, nodup_singleton _, ?_⟩
    rintro other hother fresh hin rfl
    obtain ⟨publish, hpub, rfl⟩ := mem_map.mp hother
    rw [map_singleton, mem_singleton] at hin
    exact hs.not_numbered hstage hpub hin

theorem fanOutCall_turn {before : List Publish} {publish : Publish} {after : List Publish}
    (hsplit : (fanOutCall s task).numbered = before ++ publish :: after)
    (hwait : Waiting (fanOutCall s task) publish.call) {later : Publish} (hlater : later ∈ after)
    (htopic : later.topic = publish.topic) : later ∉ s.handed := by
  intro hhanded
  have hwaited : publish ∈ s.numbered → Waiting s publish.call := by
    intro hin
    unfold Waiting at hwait ⊢
    rw [fanOutCall_calls s task (hs.not_numbered hstage hin)] at hwait
    exact hwait
  rcases fanOutCall_numbered s task with hsame | hmore
  · rw [hsame] at hsplit
    exact hs.turn before publish after hsplit (hwaited (hsplit ▸ by simp)) later hlater htopic
      hhanded
  · rw [hmore] at hsplit
    obtain ⟨_, rfl, rfl⟩ | ⟨rest, rfl, hbefore⟩ :=
      EpochStreams.split_snoc hsplit
    · cases hlater
    · have hin : later ∈ rest := by
        rw [mem_append, mem_singleton] at hlater
        rcases hlater with hlater | rfl
        · exact hlater
        · exact absurd rfl (hs.not_handed hstage hhanded)
      exact hs.turn before publish rest hbefore (hwaited (hbefore ▸ by simp)) later hin htopic
        hhanded

end

variable (s : Bus) (task : ℕ)

theorem fanOutCall_started (hs : Ordered s) (publish : Publish)
    (hin : publish ∈ (fanOutCall s task).numbered) :
    early ((fanOutCall s task).calls publish.call).stage = false := by
  by_cases htask : publish.call = task
  · rw [htask, fanOutCall_stage]
    rfl
  · have hbefore : publish ∈ s.numbered := by
      rcases fanOutCall_numbered s task with hsame | hmore
      · rwa [hsame] at hin
      · rw [hmore, mem_append, mem_singleton] at hin
        rcases hin with hin | rfl
        · exact hin
        · exact absurd rfl htask
    rw [fanOutCall_calls s task htask]
    exact hs.started publish hbefore

theorem fanOutCall_grows : s.numbered.Sublist (fanOutCall s task).numbered := by
  rcases fanOutCall_numbered s task with hsame | hmore
  · rw [hsame]
  · rw [hmore]
    exact sublist_append_left _ _

theorem fanOutCall_waiting (hs : Ordered s) (other : ℕ) (position : Cursor)
    (hother : ((fanOutCall s task).calls other).stage = .delivered (some position)) :
    publishOf (fanOutCall s task) other (some position) ∈ (fanOutCall s task).numbered := by
  by_cases htask : other = task
  · have hpublish : publishOf (fanOutCall s task) task (some position) =
        publishOf s task (some position) := by
      simp only [publishOf, fanOutCall, setStage, update_self]
    rw [htask, fanOutCall_stage, Stage.delivered.injEq] at hother
    rw [htask, hpublish]
    unfold fanOutCall
    dsimp only
    rw [hother, if_pos Option.isSome_some]
    exact mem_append_right _ mem_cons_self
  · rw [fanOutCall_calls s task htask] at hother
    have hsame : publishOf (fanOutCall s task) other (some position) =
        publishOf s other (some position) := by
      unfold publishOf
      rw [fanOutCall_calls s task htask]
    rw [hsame]
    exact (fanOutCall_grows s task).subset (hs.waiting other position hother)

theorem fanOutCall_ordered (hs : Ordered s) (hstage : (s.calls task).stage = .validated) :
    Ordered (fanOutCall s task) where
  distinct := fanOutCall_distinct hs hstage
  started := fanOutCall_started s task hs
  waiting := fanOutCall_waiting s task hs
  gone publish hin := by
    rw [fanOutCall_calls s task (hs.not_handed hstage hin)]
    exact hs.gone publish hin
  turn before publish after hsplit hwait later hlater htopic :=
    fanOutCall_turn hs hstage hsplit hwait hlater htopic
  order topic := (hs.order topic).trans ((fanOutCall_grows s task).filter _)
  queue := hs.queue

theorem sublist_front {α : Type} {xs front back : List α} (h : xs.Sublist (front ++ back))
    (havoid : ∀ x ∈ xs, x ∉ back) : xs.Sublist front := by
  obtain ⟨left, right, rfl, hleft, hright⟩ := sublist_append_iff.mp h
  have hnil : right = [] := by
    cases right with
    | nil => rfl
    | cons x rest =>
      exact absurd (hright.subset mem_cons_self) (havoid x (by simp))
  rw [hnil, append_nil]
  exact hleft

theorem handOffCall_order {position : Option Cursor} (hs : Ordered s)
    (hstage : (s.calls task).stage = .delivered position) (topic : Topic) :
    (onTopic topic (s.handed ++ [publishOf s task position])).Sublist
      (onTopic topic s.numbered) := by
  unfold onTopic
  rw [filter_append]
  by_cases hkeep : ((publishOf s task position).topic = topic &&
      (publishOf s task position).position.isSome) = true
  · rw [Bool.and_eq_true, decide_eq_true_eq] at hkeep
    obtain ⟨htopic, hsome⟩ := hkeep
    obtain ⟨cursor, rfl⟩ := Option.isSome_iff_exists.mp hsome
    obtain ⟨before, after, hsplit⟩ := append_of_mem (hs.waiting task cursor hstage)
    have hhanded : (s.handed.filter fun publish =>
        publish.topic = topic && publish.position.isSome).Sublist
        (before.filter fun publish => publish.topic = topic && publish.position.isSome) := by
      have horder := hs.order topic
      unfold onTopic at horder
      rw [hsplit, filter_append] at horder
      refine sublist_front horder fun publish hin hback => ?_
      obtain ⟨hin, hon⟩ := mem_filter.mp hin
      rw [Bool.and_eq_true, decide_eq_true_eq] at hon
      have hafter : publish ∈ publishOf s task (some cursor) :: after :=
        (mem_filter.mp hback).1
      rcases mem_cons.mp hafter with rfl | hafter
      · have hgone := hs.gone _ hin
        change (s.calls task).stage = _ at hgone
        rw [hstage] at hgone
        cases hgone
      · exact hs.turn before _ after hsplit ((waiting_iff s task).mpr ⟨_, hstage⟩) publish hafter
          (hon.1.trans htopic.symm) hin
    rw [hsplit, filter_append, filter_cons_of_pos (by simp [htopic, hsome]),
      filter_cons_of_pos (by simp [htopic, hsome]), filter_nil]
    exact hhanded.append (List.Sublist.cons_cons _ (nil_sublist _))
  · rw [filter_cons_of_neg (by simpa using hkeep), filter_nil, append_nil]
    exact hs.order topic

theorem earlier_mem {numbered before middle rest : List Publish} {publish later : Publish}
    {task : ℕ}
    (hdistinct : (numbered.map Publish.call).Nodup)
    (hsplit : numbered = before ++ publish :: (middle ++ later :: rest)) (hcall : later.call = task) :
    publish ∈ numbered.takeWhile (fun other => other.call ≠ task) := by
  have hlong : numbered = (before ++ publish :: middle) ++ later :: rest := by
    rw [append_assoc]
    exact hsplit
  rw [hlong, map_append, map_cons, nodup_append] at hdistinct
  have hbefore : ∀ other ∈ before ++ publish :: middle, decide (other.call ≠ task) = true := by
    intro other hother
    rw [decide_eq_true_eq, ← hcall]
    exact hdistinct.2.2 other.call (mem_map_of_mem hother) later.call mem_cons_self
  rw [hlong, takeWhile_append_of_pos hbefore]
  simp

theorem handOffCall_ordered {position : Option Cursor} (hs : Ordered s)
    (hstage : (s.calls task).stage = .delivered position) (hturn : InTurn s (.handOff task)) :
    Ordered (handOffCall s task position) := by
  have hcalls : ∀ other, other ≠ task → (handOffCall s task position).calls other = s.calls other :=
    fun other hother => update_of_ne hother _ _
  have hself : ((handOffCall s task position).calls task).stage = .handedOff := by
    simp only [handOffCall, setStage, update_self]
  have hwaiting : ∀ other, Waiting (handOffCall s task position) other →
      other ≠ task ∧ Waiting s other := by
    intro other hwait
    unfold Waiting at hwait
    have hother : other ≠ task := by
      rintro rfl
      rw [hself] at hwait
      cases hwait
    rw [hcalls other hother] at hwait
    exact ⟨hother, hwait⟩
  refine ⟨hs.distinct, ?_, ?_, ?_, ?_, ?_, ?_⟩
  · intro publish hin
    by_cases htask : publish.call = task
    · rw [htask, hself]
      rfl
    · rw [hcalls _ htask]
      exact hs.started publish hin
  · intro other cursor hother
    have hne := (hwaiting other ((waiting_iff _ other).mpr ⟨_, hother⟩)).1
    rw [hcalls other hne] at hother
    have hsame : publishOf (handOffCall s task position) other (some cursor) =
        publishOf s other (some cursor) := by
      unfold publishOf
      rw [hcalls other hne]
    rw [hsame]
    exact hs.waiting other cursor hother
  · intro publish hin
    rcases mem_append.mp hin with hin | hin
    · by_cases htask : publish.call = task
      · rw [htask]
        exact hself
      · rw [hcalls _ htask]
        exact hs.gone publish hin
    · rw [mem_singleton.mp hin]
      exact hself
  · intro before publish after hsplit hwait later hlater htopic hhanded
    obtain ⟨hne, hwait⟩ := hwaiting _ hwait
    rcases mem_append.mp hhanded with hhanded | hhanded
    · exact hs.turn before publish after hsplit hwait later hlater htopic hhanded
    · obtain ⟨middle, rest, rfl⟩ := append_of_mem hlater
      have hcall : later.call = task := by rw [mem_singleton.mp hhanded]; rfl
      refine hturn publish ?_ ?_ hwait
      · exact earlier_mem hs.distinct hsplit hcall
      · rw [← htopic, mem_singleton.mp hhanded]
        rfl
  · exact fun topic => handOffCall_order s task hs hstage topic
  · change (s.fannedOut ++ (s.queue ++ [publishOf s task position])).Sublist
      (s.handed ++ [publishOf s task position])
    rw [← append_assoc]
    exact hs.queue.append (List.Sublist.refl _)

theorem deliverNext_ordered (hs : Ordered s) : Ordered (deliverNext s) := by
  unfold deliverNext
  cases hqueue : s.queue with
  | nil => exact hs
  | cons publish rest =>
    refine ⟨hs.distinct, hs.started, hs.waiting, hs.gone, hs.turn, hs.order, ?_⟩
    have hsub := hs.queue
    rw [hqueue] at hsub
    dsimp only
    split_ifs
    · rw [append_assoc]
      exact hsub
    · exact ((List.Sublist.refl s.fannedOut).append (sublist_cons_self publish rest)).trans hsub

section
variable (validate : Topic → Incoming → Except Error Unit)

theorem step_ordered (s : Bus) (act : Act) (hs : Ordered s) (hturn : InTurn s act) :
    Ordered (step validate s act) := by
  cases act with
  | call task topic name params =>
    simp only [step]
    split
    · next hstage =>
      refine setCall_ordered s task _ hs ?_ ?_ ?_
      · rw [hstage]; simp
      · simp
      · rw [hstage]; intro _; rfl
    · exact hs
  | validate task =>
    simp only [step]
    split
    · next hstage =>
      split
      · refine setCall_ordered s task _ hs ?_ ?_ ?_
        · rw [hstage]; simp
        · simp
        · rw [hstage]; intro _; rfl
      · refine setCall_ordered s task _ hs ?_ ?_ ?_
        · rw [hstage]; simp
        · simp
        · rw [hstage]; intro _; rfl
    · exact hs
  | fanOut task =>
    simp only [step]
    split
    · next hstage => exact fanOutCall_ordered s task hs hstage
    · exact hs
  | handOff task =>
    simp only [step]
    split
    · next position hstage => exact handOffCall_ordered s task hs hstage hturn
    · exact hs
  | refuse task error =>
    simp only [step]
    split
    · next position hstage =>
      refine setCall_ordered s task _ hs ?_ ?_ ?_
      · rw [hstage]; simp
      · simp
      · simp [early]
    · exact hs
  | deliver => exact deliverNext_ordered s hs
  | onA sec | onB sec =>
    exact ⟨hs.distinct, hs.started, hs.waiting, hs.gone, hs.turn, hs.order, hs.queue⟩

def Publish.event (publish : Publish) : Option Event :=
  publish.position.map fun position =>
    EpochStreams.Event.published publish.topic (publish.name, publish.params) position

/-- `numbered` is the order in which the hub took the sequence numbers. -/
def Traced (s : Bus) : Prop := (s.numbered.filterMap Publish.event).Sublist s.a.trace

theorem step_trace (h : Hub) (sec : Section) : h.trace.Sublist (PubsubHub.step h sec).trace :=
  (step_moves h sec).trace_extends.sublist

theorem fanOut_trace (h : Hub) (topic : Topic) (name params : String) :
    (PubsubHub.step h (.fanOut topic name params)).trace.Sublist
      (PubsubHub.fanOut h topic name params).trace := by
  obtain ⟨sections, _, hrun⟩ := fanOut_quietRun h topic name params
  rw [hrun]
  exact run_relates PubsubHub.step (fun h h' => h.trace.Sublist h'.trace)
    (fun _ => List.Sublist.refl _) (fun _ _ _ first second => first.trans second) step_trace _ _

theorem fanOutLocked_trace {h : Hub} {topic : Topic} (name params : String) {position : Cursor}
    (hposition : nextPosition h topic = some position) :
    (PubsubHub.step h (.fanOut topic name params)).trace =
      h.trace ++ [.published topic (name, params) position] := by
  unfold nextPosition cursorOf at hposition
  simp only [PubsubHub.step, fanOutLocked]
  cases hstate : h.index.lookup topic with
  | none => simp [hstate] at hposition
  | some state =>
    simp only [hstate, Option.map_some, Option.some.injEq] at hposition
    rw [← hposition]

theorem step_traced (s : Bus) (act : Act) (hs : Traced s) : Traced (step validate s act) := by
  cases act with
  | call task topic name params =>
    simp only [step]
    split
    · exact hs
    · exact hs
  | validate task =>
    simp only [step]
    split
    · split
      · exact hs
      · exact hs
    · exact hs
  | fanOut task =>
    simp only [step]
    split
    · unfold Traced fanOutCall
      dsimp only
      cases hposition : nextPosition s.a (s.calls task).topic with
      | none =>
        rw [if_neg (by simp)]
        exact hs.trans ((step_trace s.a (.fanOut _ _ _)).trans (fanOut_trace s.a _ _ _))
      | some position =>
        rw [if_pos Option.isSome_some, filterMap_append]
        refine List.Sublist.trans ?_ (fanOut_trace s.a _ _ _)
        rw [fanOutLocked_trace _ _ hposition]
        exact hs.append (by simp [publishOf, Publish.event])
    · exact hs
  | handOff task | refuse task error =>
    simp only [step]
    split
    · exact hs
    · exact hs
  | deliver =>
    simp only [step, deliverNext]
    split
    · exact hs
    · exact hs
  | onA sec => exact hs.trans (step_trace s.a sec)
  | onB sec => exact hs

/-- The other node fans a topic's publishes out in the order of their sequence
numbers in every run that hands them off in turn. -/
theorem fannedOut_inSeqOrder (a b : Hub) (acts : List Act)
    (hturn : Meets (step validate) InTurn (start a b) acts) :
    InSeqOrder (run (step validate) (start a b) acts) ∧
      Traced (run (step validate) (start a b) acts) := by
  constructor
  · exact (guarded_run_invariant (step validate) InTurn Ordered (step_ordered validate)
      (start a b) acts (start_ordered a b) hturn).inSeqOrder
  · exact run_invariant (step validate) Traced (step_traced validate) (start a b) acts
      (nil_sublist _)

end

/-- A node where connection 1 subscribed to the topic. -/
def room : Hub :=
  run PubsubHub.step (newHub (fun _ => 0) 0) [.register 8, .subscribe 1 "room:7" auto]

def unlimited : Topic → Incoming → Except Error Unit := fun _ _ => .ok ()

/-- Two calls up to the point where both wait for their hand-off. -/
def racing : List Act :=
  [.call 0 "room:7" "a" "1", .call 1 "room:7" "b" "2", .validate 0, .validate 1, .fanOut 0, .fanOut 1]

theorem fannedOut_inSeqOrder_racing : InSeqOrder (run (step unlimited) (start room room)
      (racing ++ [.handOff 0, .handOff 1, .deliver, .deliver])) ∧
    Traced (run (step unlimited) (start room room)
      (racing ++ [.handOff 0, .handOff 1, .deliver, .deliver])) := by
  exact fannedOut_inSeqOrder unlimited room room _ (by decide)

theorem racing_overtaken :
    ¬ ∀ (validate : Topic → Incoming → Except Error Unit) (a b : Hub) (acts : List Act),
      InSeqOrder (run (step validate) (start a b) acts) := by
  intro hall
  have horder := hall unlimited room room
    (racing ++ [.handOff 1, .handOff 0, .deliver, .deliver]) "room:7"
  revert horder
  decide

end Stakit.PubsubOrder
