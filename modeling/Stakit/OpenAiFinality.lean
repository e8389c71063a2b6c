import Stakit.ExceptLoops
import Stakit.OpenAiDecoder

set_option autoImplicit false

namespace Stakit.OpenAi
open AgentMessages SerdeJson ProviderStreams EntryMaps ExceptLoops List

section
variable {N : Type}

def choicesOf (event : Value N) : List (Value N) := (asArray (member event "choices")).getD []

def reasonOf (event : Value N) : Option String :=
  (choicesOf event).head?.bind fun choice =>
    (present choice "finish_reason").bind fun reason =>
      (asStr reason).filter fun text => text ≠ ""

/-- A counter of the usage snapshot of a chunk. -/
def counted (serde : Serde N) (key : String) (event : Value N) : Option ℕ :=
  (present event "usage").bind fun usage => serde.countMember usage key

def lastCounted (serde : Serde N) (key : String) (wire : List (Value N)) : Option ℕ :=
  (wire.filterMap (counted serde key)).getLast?

def callsIn (event : Value N) : List (Value N) :=
  ((choicesOf event).head?.bind fun choice =>
    (present (member choice "delta") "tool_calls").bind asArray).getD []

def toolIndices (serde : Serde N) (wire : List (Value N)) : List ℕ :=
  wire.flatMap fun event => (callsIn event).filterMap fun call => serde.asU64 (member call "index")

def callIdOf : StreamEvent (Value N) → Option String
  | .toolCall id _ _ => some id
  | _ => none

def Finished (serde : Serde N) (wire : List (Value N)) : Prop :=
  ∃ before event after, wire = before ++ event :: after ∧ (reasonOf event).isSome ∧
    (∀ later ∈ after, choicesOf later = []) ∧
    ∃ last ∈ event :: after, (counted serde "completion_tokens" last).isSome

def Released (serde : Serde N) (wire : List (Value N)) (events : Events N) (stop : StopReason) :
    Prop :=
  events.filterMap callIdOf ≠ [] → stop = .toolUse ∧ (events.filterMap callIdOf).Nodup ∧
    ∀ index, index ∈ toolIndices serde wire ↔ index < (events.filterMap callIdOf).length

/-- What the terminal event certifies of the chunks and of the events let out. -/
structure Final (serde : Serde N) (wire : List (Value N)) (events : Events N) (stop : StopReason)
    (usage : Usage) : Prop where
  finished : Finished serde wire
  prompt : lastCounted serde "prompt_tokens" wire =
    some (usage.inputTokens + usage.cacheCreateTokens + usage.cacheReadTokens)
  released : Released serde wire events stop

variable (value inner : Value N) (key other : String) {serde : Serde N} {decoder : Decoder N}
  {keys : List String} {wire : List (Value N)} {current update : Value N} {accum : Accum N}
  {events : Events N} {next : Accum N} {event : Value N} {more : Events N}

theorem get_setMember (h : isObject value = true) :
    get (setMember value key inner) other = if other = key then some inner else get value other := by
  cases value with
  | object fields => exact lookup_insertSorted fields key inner other
  | _ => cases h

theorem isObject_setMember (h : isObject value = true) :
    isObject (setMember value key inner) = true := by
  cases value with
  | object fields => rfl
  | _ => cases h

theorem lookup_filter (fields : Entries String (Value N)) (key other : String) :
    (fields.filter fun field => field.1 ≠ key).lookup other =
      if other = key then none else fields.lookup other := by
  induction fields with
  | nil => split_ifs <;> rfl
  | cons field fields ih =>
    obtain ⟨name, value⟩ := field
    by_cases hname : name = key
    · rw [filter_cons_of_neg (by simp [hname]), ih, lookup_cons_ite, hname]
      split_ifs <;> rfl
    · rw [filter_cons_of_pos (by simp [hname]), lookup_cons_ite, lookup_cons_ite, ih]
      by_cases hother : other = name
      · rw [if_pos hother, if_pos hother, if_neg (by rw [hother]; exact hname)]
      · rw [if_neg hother, if_neg hother]

theorem get_removeMember :
    get (removeMember value key) other = if other = key then none else get value other := by
  cases value with
  | object fields => exact lookup_filter fields key other
  | _ => split_ifs <;> rfl

theorem isObject_removeMember : isObject (removeMember value key) = isObject value := by
  cases value <;> rfl

structure Merged (serde : Serde N) (current update next : Value N) : Prop where
  object : isObject next = true
  counters : ∀ key ∈ counters, serde.countMember next key =
    (serde.countMember update key).or (serde.countMember current key)

structure Keeps (keys : List String) (current next : Value N) : Prop where
  object : isObject current = true → isObject next = true
  same : ∀ key ∉ keys, get next key = get current key

theorem Keeps.refl (keys : List String) (current : Value N) : Keeps keys current current :=
  ⟨id, fun _ _ => rfl⟩

theorem Keeps.trans {more : List String} {first second third : Value N}
    (h : Keeps keys first second) (h' : Keeps more second third) :
    Keeps (keys ++ more) first third where
  object := h'.object ∘ h.object
  same key hkey := by
    rw [mem_append, not_or] at hkey
    rw [h'.same key hkey.2, h.same key hkey.1]

theorem keeps_setMember : Keeps [key] value (setMember value key inner) where
  object := isObject_setMember value inner key
  same other hother := by
    cases value with
    | object fields =>
      rw [get_setMember _ _ _ _ rfl, if_neg (by simpa using hother)]
    | _ => rfl

theorem mergeCounter_keeps {next : Value N} {key : String}
    (h : mergeCounter serde current update key = .ok next) : Keeps [key] current next := by
  unfold mergeCounter at h
  split at h
  · cases h
    exact .refl _ _
  · split at h
    · cases h
    · obtain ⟨-, h⟩ := (then_eq_ok _ _ _).mp h
      cases h
      exact keeps_setMember ..

theorem mergeCounter_counts {next : Value N} {key : String}
    (h : mergeCounter serde current update key = .ok next) (hobject : isObject current = true) :
    serde.countMember next key =
      (serde.countMember update key).or (serde.countMember current key) := by
  unfold mergeCounter at h
  split at h
  · rename_i hnone
    cases h
    have habsent : serde.countMember update key = none := by
      unfold Serde.countMember
      cases hupdate : get update key with
      | none => rfl
      | some value =>
        rw [hupdate, Option.filter_some] at hnone
        cases value with
        | null => rfl
        | _ => cases hnone
    rw [habsent, Option.none_or]
  · rename_i value hsome
    have hupdate : get update key = some value := by
      cases hget : get update key with
      | none =>
        rw [hget] at hsome
        cases hsome
      | some other =>
        rw [hget, Option.filter_some] at hsome
        split_ifs at hsome
        rw [Option.some.inj hsome]
    split at h
    · cases h
    · rename_i observed hcount
      obtain ⟨-, h⟩ := (then_eq_ok _ _ _).mp h
      cases h
      unfold Serde.countMember
      rw [get_setMember _ _ _ _ hobject, if_pos rfl, hupdate, Option.bind_some, hcount]
      rfl

theorem mergeTotal_keeps {next : Value N} (h : mergeTotal serde current update = .ok next) :
    Keeps ["total_tokens"] current next := by
  unfold mergeTotal at h
  split at h
  · cases h
    exact .refl _ _
  · split_ifs at h
    cases h
    exact keeps_setMember ..

theorem mergeGroup_keeps {next : Value N} {group : String} {keys : List String}
    (h : mergeGroup serde update current group keys = .ok next) : Keeps [group] current next := by
  unfold mergeGroup at h
  split at h
  · cases h
    exact .refl _ _
  · obtain ⟨-, h⟩ := (then_eq_ok _ _ _).mp h
    obtain ⟨merged, -, h⟩ := (bind_eq_ok _ _ _).mp h
    cases h
    exact keeps_setMember ..

theorem withoutTotal_keeps (serde : Serde N) (current update : Value N) :
    Keeps ["total_tokens"] current (withoutTotal serde current update) := by
  unfold withoutTotal
  split_ifs
  · refine ⟨fun h => by rw [isObject_removeMember, h], fun key hkey => ?_⟩
    rw [get_removeMember, if_neg (by simpa using hkey)]
  · exact .refl _ _

theorem Keeps.count {next : Value N} (h : Keeps keys current next) {key : String}
    (hkey : key ∉ keys) : serde.countMember next key = serde.countMember current key := by
  unfold Serde.countMember
  rw [h.same key hkey]

theorem mergeUsage_merged {next : Value N}
    (hcurrent : isNull current = true ∨ isObject current = true)
    (h : mergeUsage serde current update = .ok next) :
    Merged serde current update next ∧ validateSubsets serde next = .ok () := by
  unfold mergeUsage at h
  obtain ⟨-, h⟩ := (then_eq_ok _ _ _).mp h
  obtain ⟨first, hfirst, h⟩ := (bind_eq_ok _ _ _).mp h
  obtain ⟨second, hsecond, h⟩ := (bind_eq_ok _ _ _).mp h
  obtain ⟨third, hthird, h⟩ := (bind_eq_ok _ _ _).mp h
  obtain ⟨fourth, hfourth, h⟩ := (bind_eq_ok _ _ _).mp h
  obtain ⟨fifth, hfifth, h⟩ := (bind_eq_ok _ _ _).mp h
  obtain ⟨hsubsets, h⟩ := (then_eq_ok _ _ _).mp h
  obtain ⟨-, h⟩ := (then_eq_ok _ _ _).mp h
  cases h
  have hopened : isObject (if isNull current then .object [] else current) = true ∧
      ∀ key, get (if isNull current then .object [] else current) key = get current key := by
    cases current with
    | null | object fields => exact ⟨rfl, fun _ => rfl⟩
    | _ => exact absurd hcurrent (by simp [isNull, isObject])
  have hstart := withoutTotal_keeps serde (if isNull current then .object [] else current) update
  have hrest := ((mergeTotal_keeps hthird).trans (mergeGroup_keeps hfourth)).trans
    (mergeGroup_keeps hfifth)
  have hobject := hstart.object hopened.1
  have hobject' := (mergeCounter_keeps hfirst).object hobject
  refine ⟨⟨hrest.object ((mergeCounter_keeps hsecond).object hobject'), ?_⟩, hsubsets⟩
  have hcount : ∀ key ∉ ["total_tokens"],
      serde.countMember (withoutTotal serde (if isNull current then .object [] else current) update)
        key = serde.countMember current key := by
    intro key hkey
    rw [hstart.count hkey]
    unfold Serde.countMember
    rw [hopened.2]
  intro key hkey
  obtain rfl | rfl : key = "prompt_tokens" ∨ key = "completion_tokens" := by
    simpa [counters] using hkey
  · rw [hrest.count (by decide), (mergeCounter_keeps hsecond).count (by decide),
      mergeCounter_counts hfirst hobject, hcount _ (by decide)]
  · rw [hrest.count (by decide), mergeCounter_counts hsecond hobject',
      (mergeCounter_keeps hfirst).count (by decide), hcount _ (by decide)]

theorem counted_eq (serde : Serde N) (key : String) (event : Value N) : counted serde key event =
      ((get event "usage").bind fun usage => get usage key).bind serde.asU64 := by
  unfold counted present
  cases get event "usage" with
  | none => rfl
  | some usage =>
    cases usage with
    | null | _ => rfl

theorem lastCounted_snoc (serde : Serde N) (key : String) (wire : List (Value N))
    (event : Value N) : lastCounted serde key (wire ++ [event]) =
      (counted serde key event).or (lastCounted serde key wire) := by
  unfold lastCounted
  rw [filterMap_append]
  cases hcount : counted serde key event with
  | none => rw [filterMap_cons_none hcount, filterMap_nil, append_nil]; rfl
  | some count =>
    rw [filterMap_cons_some hcount, filterMap_nil, List.getLast?_concat]
    rfl

/-- Events that let out neither a call nor the end. -/
def Plain (events : Events N) : Prop :=
  ∀ event ∈ events, callIdOf event = none ∧ isEnd event = false

theorem plain_nil : Plain ([] : Events N) := nofun

theorem Plain.append (h : Plain events) (h' : Plain more) : Plain (events ++ more) :=
  fun event hevent => (mem_append.mp hevent).elim (h event) (h' event)

theorem plain_single {event : StreamEvent (Value N)} (h : callIdOf event = none)
    (h' : isEnd event = false) : Plain [event] := by
  intro other hother
  rw [mem_singleton.mp hother]
  exact ⟨h, h'⟩

/-- What a snapshot does to the accumulator. -/
structure Snapped (serde : Serde N) (accum next : Accum N) (event : Value N) : Prop where
  shape : isNull next.rawUsage = true ∨ isObject next.rawUsage = true
  usage : next.usage = mapUsage serde next.rawUsage
  counts : ∀ key ∈ counters, serde.countMember next.rawUsage key =
    (counted serde key event).or (serde.countMember accum.rawUsage key)
  final : next.hasFinalOutputUsage = (accum.hasFinalOutputUsage ||
    (accum.stop.isSome && (counted serde "completion_tokens" event).isSome))
  tools : next.tools = accum.tools
  stop : next.stop = accum.stop

theorem snapshot_snapped (h : accum.snapshot serde event = .ok (next, more))
    (hshape : isNull accum.rawUsage = true ∨ isObject accum.rawUsage = true)
    (husage : accum.usage = mapUsage serde accum.rawUsage) :
    Snapped serde accum next event ∧ Plain more := by
  unfold Accum.snapshot at h
  split at h
  · rename_i hnone
    cases h
    refine ⟨⟨hshape, husage, fun key _ => ?_, ?_, rfl, rfl⟩, plain_nil⟩
    · unfold counted
      rw [hnone]
      rfl
    · unfold counted
      rw [hnone, Option.bind_none, Option.isSome_none, Bool.and_false, Bool.or_false]
  · rename_i usage hsome
    obtain ⟨-, -, h⟩ := (bind_eq_ok _ _ _).mp h
    obtain ⟨raw, hraw, h⟩ := (bind_eq_ok _ _ _).mp h
    cases h
    obtain ⟨hmerged, -⟩ := mergeUsage_merged hshape hraw
    refine ⟨⟨Or.inr hmerged.object, rfl, fun key hkey => ?_, ?_, rfl, rfl⟩, plain_single rfl rfl⟩
    · unfold counted
      rw [hsome]
      exact hmerged.counters key hkey
    · unfold counted
      rw [hsome]
      rfl

theorem mem_keys_insertSorted {ν : Type} (entries : Entries ℕ ν) (key : ℕ) (value : ν)
    (other : ℕ) : other ∈ (insertSorted entries key value).map Prod.fst ↔
      other = key ∨ other ∈ entries.map Prod.fst := by
  induction entries with
  | nil => exact mem_cons
  | cons entry entries ih =>
    unfold insertSorted
    split_ifs with hlt heq
    · exact mem_cons
    · rw [map_cons, map_cons, mem_cons, mem_cons, heq, ← or_assoc, or_self]
    · rw [map_cons, map_cons, mem_cons, mem_cons, ih, or_left_comm]

/-- What fragments of tool calls leave as it is. -/
structure SameChoice (accum next : Accum N) : Prop where
  usage : next.usage = accum.usage
  rawUsage : next.rawUsage = accum.rawUsage
  final : next.hasFinalOutputUsage = accum.hasFinalOutputUsage
  stop : next.stop = accum.stop
  refused : next.refused = accum.refused

theorem tool_ok {call : Value N} (h : accum.tool serde call = .ok next) : SameChoice accum next ∧
      ∃ index buf, serde.asU64 (member call "index") = some index ∧
        next.tools = insertSorted accum.tools index buf := by
  unfold Accum.tool at h
  obtain ⟨index, hindex, h⟩ := (bind_eq_ok _ _ _).mp h
  obtain ⟨-, h⟩ := (then_eq_ok _ _ _).mp h
  obtain ⟨id, -, h⟩ := (bind_eq_ok _ _ _).mp h
  obtain ⟨-, h⟩ := (then_eq_ok _ _ _).mp h
  obtain ⟨-, h⟩ := (then_eq_ok _ _ _).mp h
  obtain ⟨function, -, h⟩ := (bind_eq_ok _ _ _).mp h
  obtain ⟨name, -, h⟩ := (bind_eq_ok _ _ _).mp h
  obtain ⟨arguments, -, h⟩ := (bind_eq_ok _ _ _).mp h
  obtain ⟨-, h⟩ := (then_eq_ok _ _ _).mp h
  cases h
  refine ⟨⟨rfl, rfl, rfl, rfl, rfl⟩, index, _, ?_, rfl⟩
  unfold toolIndex at hindex
  split at hindex
  · rename_i found hfound
    cases hindex
    exact hfound
  · cases hindex

theorem tools_ok {calls : List (Value N)} (h : calls.foldlM (Accum.tool serde) accum = .ok next) :
    SameChoice accum next ∧
      ∀ index, index ∈ next.tools.map Prod.fst ↔ index ∈ accum.tools.map Prod.fst ∨
        index ∈ calls.filterMap fun call => serde.asU64 (member call "index") := by
  induction calls generalizing accum with
  | nil =>
    cases h
    exact ⟨⟨rfl, rfl, rfl, rfl, rfl⟩, fun index => (or_iff_left not_mem_nil).symm⟩
  | cons call calls ih =>
    rw [foldlM_cons] at h
    obtain ⟨middle, hcall, h⟩ := (bind_eq_ok _ _ _).mp h
    obtain ⟨hsame, own, buf, hown, htools⟩ := tool_ok hcall
    obtain ⟨hrest, hindices⟩ := ih h
    refine ⟨⟨hrest.usage.trans hsame.usage, hrest.rawUsage.trans hsame.rawUsage,
      hrest.final.trans hsame.final, hrest.stop.trans hsame.stop,
      hrest.refused.trans hsame.refused⟩, fun index => ?_⟩
    have hcalls : (call :: calls).filterMap (fun call => serde.asU64 (member call "index")) =
        own :: calls.filterMap fun call => serde.asU64 (member call "index") :=
      filterMap_cons_some (f := fun call => serde.asU64 (member call "index")) hown
    rw [hindices, htools, mem_keys_insertSorted, hcalls, mem_cons, or_assoc, or_left_comm]

/-- What a choice does to the accumulator. -/
structure Chosen (serde : Serde N) (accum next : Accum N) (event : Value N) : Prop where
  opened : accum.stop = none
  usage : next.usage = accum.usage
  rawUsage : next.rawUsage = accum.rawUsage
  stop : next.stop.isSome ↔ (reasonOf event).isSome
  final : next.hasFinalOutputUsage = (accum.hasFinalOutputUsage ||
    ((reasonOf event).isSome && (counted serde "completion_tokens" event).isSome))
  tools : ∀ index, index ∈ next.tools.map Prod.fst ↔ index ∈ accum.tools.map Prod.fst ∨
    index ∈ (callsIn event).filterMap fun call => serde.asU64 (member call "index")

theorem deltaText_plain {delta : Value N} {field : String} {events : Events N}
    (h : deltaText delta field = .ok events) : Plain events := by
  unfold deltaText at h
  split at h
  · cases h
    exact plain_nil
  · obtain ⟨text, -, h⟩ := (bind_eq_ok _ _ _).mp h
    cases h
    split_ifs
    · exact plain_nil
    · exact plain_single rfl rfl

theorem calls_ok {delta : Value N} (h : accum.calls serde delta = .ok next) :
    SameChoice accum next ∧
      ∀ index, index ∈ next.tools.map Prod.fst ↔ index ∈ accum.tools.map Prod.fst ∨
        index ∈ (((present delta "tool_calls").bind asArray).getD []).filterMap fun call =>
          serde.asU64 (member call "index") := by
  unfold Accum.calls at h
  split at h
  · rename_i hnone
    cases h
    rw [hnone]
    exact ⟨⟨rfl, rfl, rfl, rfl, rfl⟩, fun index => (or_iff_left not_mem_nil).symm⟩
  · rename_i value hsome
    obtain ⟨calls, hcalls, h⟩ := (bind_eq_ok _ _ _).mp h
    rw [hsome, Option.bind_some]
    have harray : asArray value = some calls := by
      unfold requireArray at hcalls
      split at hcalls
      · rename_i items hitems
        cases hcalls
        exact hitems
      · cases hcalls
    rw [harray]
    exact tools_ok h

theorem choice_chosen {choice : Value N} {rest : List (Value N)} {more : Events N}
    (hchoices : choicesOf event = choice :: rest)
    (h : accum.choice serde event choice = .ok (next, more)) :
    Chosen serde accum next event ∧ Plain more := by
  unfold Accum.choice at h
  obtain ⟨hopen, h⟩ := (then_eq_ok _ _ _).mp h
  obtain ⟨-, h⟩ := (then_eq_ok _ _ _).mp h
  obtain ⟨delta, hdelta, h⟩ := (bind_eq_ok _ _ _).mp h
  obtain ⟨content, hcontent, h⟩ := (bind_eq_ok _ _ _).mp h
  obtain ⟨refusal, hrefusal, h⟩ := (bind_eq_ok _ _ _).mp h
  obtain ⟨called, hcalled, h⟩ := (bind_eq_ok _ _ _).mp h
  obtain ⟨finished, hfinished, h⟩ := (bind_eq_ok _ _ _).mp h
  cases h
  have hnone : accum.stop = none :=
    Option.not_isSome_iff_eq_none.mp ((refuse_eq_ok _ _ _).mp hopen)
  have hmember : member choice "delta" = delta := by
    unfold requireObject at hdelta
    split_ifs at hdelta
    exact Except.ok.inj hdelta
  obtain ⟨hsame, htools⟩ := calls_ok hcalled
  have hin : callsIn event = ((present delta "tool_calls").bind asArray).getD [] := by
    unfold callsIn
    rw [hchoices, List.head?_cons, Option.bind_some, hmember]
  have hreason : reasonOf event = (present choice "finish_reason").bind fun reason =>
      (asStr reason).filter fun text => text ≠ "" := by
    unfold reasonOf
    rw [hchoices, List.head?_cons, Option.bind_some]
  rw [← hin] at htools
  refine ⟨?_, (deltaText_plain hcontent).append (deltaText_plain hrefusal)⟩
  unfold Accum.finishReason at hfinished
  split at hfinished
  · rename_i habsent
    cases hfinished
    rw [habsent, Option.bind_none] at hreason
    refine ⟨hnone, hsame.usage, hsame.rawUsage, ?_, ?_, htools⟩
    · rw [hreason, hsame.stop, hnone]
      exact iff_of_false Bool.false_ne_true Bool.false_ne_true
    · rw [hreason, hsame.final, Option.isSome_none, Bool.false_and, Bool.or_false]
  · rename_i reason hpresent
    rw [hpresent, Option.bind_some] at hreason
    split at hfinished
    · cases hfinished
    · rename_i text htext
      cases hfinished
      rw [htext] at hreason
      refine ⟨hnone, hsame.usage, hsame.rawUsage, ?_, ?_, htools⟩
      · rw [hreason]
        exact iff_of_true rfl rfl
      · rw [hreason, hsame.final, counted_eq]
        rfl

/-- What a chunk does to the accumulator. -/
inductive Pushed (serde : Serde N) (accum next : Accum N) (event : Value N) : Prop
  | usage (hchoices : choicesOf event = []) (hsnapped : Snapped serde accum next event)
  | choice (snapped : Accum N) (hsnapped : Snapped serde accum snapped event)
      (hchosen : Chosen serde snapped next event)

theorem push_pushed (h : accum.push serde event = .ok (next, more))
    (hshape : isNull accum.rawUsage = true ∨ isObject accum.rawUsage = true)
    (husage : accum.usage = mapUsage serde accum.rawUsage) :
    Pushed serde accum next event ∧ Plain more := by
  unfold Accum.push at h
  obtain ⟨-, h⟩ := (then_eq_ok _ _ _).mp h
  obtain ⟨choices, hchoices, h⟩ := (bind_eq_ok _ _ _).mp h
  obtain ⟨-, h⟩ := (then_eq_ok _ _ _).mp h
  obtain ⟨⟨snapped, usage⟩, hsnapshot, h⟩ := (bind_eq_ok _ _ _).mp h
  obtain ⟨hsnapped, hplain⟩ := snapshot_snapped hsnapshot hshape husage
  have hof : choicesOf event = choices := by
    unfold requireArray at hchoices
    unfold choicesOf
    split at hchoices
    · rename_i items hitems
      cases hchoices
      rw [hitems]
      rfl
    · cases hchoices
  cases choices with
  | nil =>
    obtain ⟨-, h⟩ := (then_eq_ok _ _ _).mp h
    cases h
    exact ⟨.usage hof hsnapped, hplain⟩
  | cons choice rest =>
    obtain ⟨⟨chosen, events⟩, hchoice, h⟩ := (bind_eq_ok _ _ _).mp h
    cases h
    obtain ⟨hchosen, htexts⟩ := choice_chosen hof hchoice
    exact ⟨.choice snapped hsnapped hchosen, hplain.append htexts⟩

/-- What holds between the chunks on the wire and an accumulator that has taken them. -/
structure Steady (serde : Serde N) (wire : List (Value N)) (accum : Accum N) : Prop where
  shape : isNull accum.rawUsage = true ∨ isObject accum.rawUsage = true
  usage : accum.usage = mapUsage serde accum.rawUsage
  counts : ∀ key ∈ counters, serde.countMember accum.rawUsage key = lastCounted serde key wire
  running : accum.stop = none → accum.hasFinalOutputUsage = false
  finished : accum.stop.isSome → ∃ before event after, wire = before ++ event :: after ∧
    (reasonOf event).isSome ∧ (∀ later ∈ after, choicesOf later = []) ∧
    (accum.hasFinalOutputUsage = true →
      ∃ last ∈ event :: after, (counted serde "completion_tokens" last).isSome)
  tools : ∀ index, index ∈ accum.tools.map Prod.fst ↔ index ∈ toolIndices serde wire

theorem Steady.new (serde : Serde N) : Steady serde [] .new where
  shape := Or.inl rfl
  usage := rfl
  counts _ _ := rfl
  running _ := rfl
  finished h := by cases h
  tools _ := iff_of_false not_mem_nil not_mem_nil

theorem toolIndices_snoc (serde : Serde N) (wire : List (Value N)) (event : Value N) :
    toolIndices serde (wire ++ [event]) = toolIndices serde wire ++
      (callsIn event).filterMap fun call => serde.asU64 (member call "index") := by
  unfold toolIndices
  rw [flatMap_append, flatMap_singleton]

theorem Steady.push (h : Steady serde wire accum) (hpushed : Pushed serde accum next event) :
    Steady serde (wire ++ [event]) next := by
  have hcounts : ∀ snapped : Accum N, Snapped serde accum snapped event →
      ∀ key ∈ counters, serde.countMember snapped.rawUsage key =
        lastCounted serde key (wire ++ [event]) := by
    intro snapped hsnapped key hkey
    rw [lastCounted_snoc, hsnapped.counts key hkey, h.counts key hkey]
  cases hpushed with
  | usage hchoices hsnapped =>
    have hcalls : callsIn event = [] := by
      unfold callsIn
      rw [hchoices]
      rfl
    refine ⟨hsnapped.shape, hsnapped.usage, hcounts next hsnapped, fun hstop => ?_, fun hstop => ?_,
      fun index => ?_⟩
    · rw [hsnapped.stop] at hstop
      rw [hsnapped.final, h.running hstop, hstop]
      rfl
    · rw [hsnapped.stop] at hstop
      obtain ⟨before, last, after, rfl, hreason, hafter, hcount⟩ := h.finished hstop
      refine ⟨before, last, after ++ [event], by rw [append_assoc, cons_append], hreason, ?_, ?_⟩
      · intro later hlater
        obtain hlater | hlater := mem_append.mp hlater
        · exact hafter later hlater
        · rw [mem_singleton.mp hlater, hchoices]
      · rw [hsnapped.final, hstop, Bool.true_and, Bool.or_eq_true]
        rintro (hold | hnew)
        · obtain ⟨found, hfound, hisSome⟩ := hcount hold
          refine ⟨found, ?_, hisSome⟩
          rw [← cons_append]
          exact mem_append_left _ hfound
        · refine ⟨event, ?_, hnew⟩
          rw [← cons_append]
          exact mem_append_right _ mem_cons_self
    · rw [hsnapped.tools, toolIndices_snoc, hcalls, filterMap_nil, append_nil]
      exact h.tools index
  | choice snapped hsnapped hchosen =>
    have hopen : accum.stop = none := hsnapped.stop ▸ hchosen.opened
    have hnotFinal : snapped.hasFinalOutputUsage = false := by
      rw [hsnapped.final, h.running hopen, hopen]
      rfl
    have hfinal := hchosen.final
    rw [hnotFinal, Bool.false_or] at hfinal
    refine ⟨hchosen.rawUsage ▸ hsnapped.shape, ?_, ?_, fun hstop => ?_, fun hstop => ?_,
      fun index => ?_⟩
    · rw [hchosen.usage, hsnapped.usage, hchosen.rawUsage]
    · rw [hchosen.rawUsage]
      exact hcounts snapped hsnapped
    · have hreason : (reasonOf event).isSome = false := by
        refine Bool.eq_false_of_not_eq_true fun hreason => ?_
        have hsome := hchosen.stop.mpr hreason
        rw [hstop] at hsome
        cases hsome
      rw [hfinal, hreason, Bool.false_and]
    · refine ⟨wire, event, [], rfl, hchosen.stop.mp hstop, nofun, fun hcount => ?_⟩
      rw [hfinal, Bool.and_eq_true] at hcount
      exact ⟨event, mem_cons_self, hcount.2⟩
    · rw [hchosen.tools, hsnapped.tools, h.tools, toolIndices_snoc, mem_append]

theorem releaseTools_ok {expected : ℕ} {ids : List String} {tools : Entries ℕ ToolBuf}
    {calls : Events N} (h : releaseTools expected ids tools = .ok calls) :
    (∀ call ∈ calls, isEnd call = false) ∧ (calls.filterMap callIdOf).length = tools.length ∧
      (calls.filterMap callIdOf).Nodup ∧ (∀ id ∈ calls.filterMap callIdOf, id ∉ ids) ∧
      ∀ index, index ∈ tools.map Prod.fst ↔ expected ≤ index ∧ index < expected + tools.length := by
  induction tools generalizing expected ids calls with
  | nil =>
    cases h
    refine ⟨nofun, rfl, nodup_nil, nofun, fun index => iff_of_false not_mem_nil ?_⟩
    rintro ⟨hlow, hhigh⟩
    exact absurd (hlow.trans_lt hhigh) (lt_irrefl _)
  | cons tool tools ih =>
    obtain ⟨index, buf⟩ := tool
    unfold releaseTools at h
    obtain ⟨hindex, h⟩ := (then_eq_ok _ _ _).mp h
    obtain ⟨hbuf, h⟩ := (then_eq_ok _ _ _).mp h
    obtain ⟨rest, hrest, h⟩ := (bind_eq_ok _ _ _).mp h
    cases h
    obtain ⟨hquiet, hlength, hnodup, hfresh, hkeys⟩ := ih hrest
    have hown : expected = index := not_not.mp ((refuse_eq_ok _ _ _).mp hindex)
    have hnew := (refuse_eq_ok _ _ _).mp hbuf
    rw [not_or, not_or] at hnew
    have hids : ((.toolCall buf.id buf.name buf.args : StreamEvent (Value N)) :: rest).filterMap
        callIdOf = buf.id :: rest.filterMap callIdOf := rfl
    rw [hids]
    refine ⟨forall_mem_cons.mpr ⟨rfl, hquiet⟩, congrArg (· + 1) hlength,
      nodup_cons.mpr ⟨fun hmem => hfresh _ hmem mem_cons_self, hnodup⟩, ?_, fun other => ?_⟩
    · refine forall_mem_cons.mpr ⟨hnew.2.2, fun id hid hmem => ?_⟩
      exact hfresh id hid (mem_cons_of_mem _ hmem)
    · rw [map_cons, mem_cons, hkeys, length_cons, ← hown]
      omega

theorem prompt_total {raw : Value N} (h : requireComplete serde raw = .ok ()) :
    serde.countMember raw "prompt_tokens" = some ((mapUsage serde raw).inputTokens +
      (mapUsage serde raw).cacheCreateTokens + (mapUsage serde raw).cacheReadTokens) := by
  unfold requireComplete at h
  obtain ⟨hcounters, h⟩ := (then_eq_ok _ _ _).mp h
  obtain ⟨hsubsets, -⟩ := (then_eq_ok _ _ _).mp h
  have hknown : (serde.countMember raw "prompt_tokens").isSome := by
    have hany := (refuse_eq_ok _ _ _).mp hcounters
    cases hprompt : serde.countMember raw "prompt_tokens" with
    | some count => rfl
    | none =>
      refine absurd (any_eq_true.mpr ⟨"prompt_tokens", mem_cons_self, ?_⟩) hany
      rw [hprompt]
      rfl
  obtain ⟨prompt, hprompt⟩ := Option.isSome_iff_exists.mp hknown
  have hwithin := (refuse_eq_ok _ _ _).mp hsubsets
  rw [not_or, hprompt] at hwithin
  have hcache : detail serde raw "prompt_tokens_details" "cached_tokens" +
      detail serde raw "prompt_tokens_details" "cache_write_tokens" ≤ prompt := by
    have hle := hwithin.1
    rw [Option.any_some, decide_eq_true_eq, gt_iff_lt, not_lt] at hle
    exact hle.trans (min_le_left _ _)
  have hdetail : ∀ key, (serde.asU64 (member (member raw "prompt_tokens_details") key)).getD 0 =
      detail serde raw "prompt_tokens_details" key := by
    intro key
    unfold detail member
    cases get raw "prompt_tokens_details" with
    | none => rfl
    | some details =>
      rw [Option.getD_some, Option.bind_some]
      cases get details key <;> rfl
  have hmapped : (mapUsage serde raw).inputTokens =
      prompt - detail serde raw "prompt_tokens_details" "cached_tokens" -
        detail serde raw "prompt_tokens_details" "cache_write_tokens" := by
    unfold mapUsage Serde.wireCount
    dsimp only
    rw [hprompt, hdetail, hdetail]
    rfl
  have hwrite : (mapUsage serde raw).cacheCreateTokens =
      detail serde raw "prompt_tokens_details" "cache_write_tokens" := hdetail _
  have hread : (mapUsage serde raw).cacheReadTokens =
      detail serde raw "prompt_tokens_details" "cached_tokens" := hdetail _
  rw [hprompt, hmapped, hwrite, hread]
  congr 1
  omega

theorem Steady.final {last : Events N} (h : Steady serde wire accum) (hplain : Plain events)
    (hfinish : accum.finish serde = .ok last) :
    ∃ calls stop, last = calls ++ [.finish stop accum.usage] ∧
      (∀ event ∈ calls, isEnd event = false) ∧
      Final serde wire (events ++ calls) stop accum.usage := by
  unfold Accum.finish at hfinish
  obtain ⟨hcomplete, hfinish⟩ := (then_eq_ok _ _ _).mp hfinish
  obtain ⟨hcounted, hfinish⟩ := (then_eq_ok _ _ _).mp hfinish
  obtain ⟨reason, hreason, hfinish⟩ := (bind_eq_ok _ _ _).mp hfinish
  obtain ⟨calls, hcalls, hfinish⟩ := (bind_eq_ok _ _ _).mp hfinish
  cases hfinish
  have hstopped : accum.stop.isSome := by
    unfold requireStop at hreason
    split at hreason
    · rename_i found hfound
      rw [hfound]
      rfl
    · cases hreason
  obtain ⟨before, event, after, hwire, hgiven, hafter, hcount⟩ := h.finished hstopped
  have hfinished : Finished serde wire := ⟨before, event, after, hwire, hgiven, hafter,
    hcount (Bool.eq_true_of_not_eq_false ((refuse_eq_ok _ _ _).mp hcounted))⟩
  have hprompt : lastCounted serde "prompt_tokens" wire = some (accum.usage.inputTokens +
      accum.usage.cacheCreateTokens + accum.usage.cacheReadTokens) := by
    rw [← h.counts "prompt_tokens" mem_cons_self, h.usage]
    exact prompt_total hcomplete
  have hsilent : events.filterMap callIdOf = [] :=
    filterMap_eq_nil_iff.mpr fun event hevent => (hplain event hevent).1
  refine ⟨calls, _, rfl, ?_⟩
  unfold Accum.release at hcalls
  split at hcalls
  · rename_i htool
    obtain ⟨-, hcalls⟩ := (then_eq_ok _ _ _).mp hcalls
    obtain ⟨hquiet, hlength, hnodup, -, hkeys⟩ := releaseTools_ok hcalls
    refine ⟨hquiet, hfinished, hprompt, fun _ => ⟨htool, ?_, fun index => ?_⟩⟩
    · rwa [filterMap_append, hsilent, nil_append]
    · rw [filterMap_append, hsilent, nil_append, hlength, ← h.tools, hkeys, Nat.zero_add,
        and_iff_right (Nat.zero_le _)]
  · obtain ⟨-, hcalls⟩ := (then_eq_ok _ _ _).mp hcalls
    cases hcalls
    refine ⟨nofun, hfinished, hprompt, fun hsome => ?_⟩
    rw [append_nil] at hsome
    exact absurd hsilent hsome
  · cases hcalls
    refine ⟨nofun, hfinished, hprompt, fun hsome => ?_⟩
    rw [append_nil] at hsome
    exact absurd hsilent hsome

/-- The chunks in the first line segments of a body, and then the data that ends it. -/
def Carries (serde : Serde N) (parts : List (List UInt8)) (wire : List (Value N)) : Prop :=
  ∃ framer frames done, readFrames parts = .ok (framer, frames ++ [done]) ∧
    done.data = "[DONE]" ∧ frames.mapM (decodeData serde) = .ok wire

/-- The chunks that a decoder has accepted, with what it has let out. -/
structure Fed (serde : Serde N) (parts : List (List UInt8)) (decoder : Decoder N)
    (events : Events N) (frames : List Frame) (wire : List (Value N)) : Prop where
  read : readFrames parts = .ok (decoder.framer, frames)
  decoded : frames.mapM (decodeData serde) = .ok wire
  steady : Steady serde wire decoder.accum
  plain : Plain events

theorem event_pushed {next : Decoder N} {event : Value N} {wire : List (Value N)}
    {more : Events N} (h : decoder.event serde event = .ok (next, more))
    (hsteady : Steady serde wire decoder.accum) :
    next.framer = decoder.framer ∧ Pushed serde decoder.accum next.accum event ∧ Plain more := by
  unfold Decoder.event at h
  obtain ⟨⟨accum, events⟩, hpush, h⟩ := (bind_eq_ok _ _ _).mp h
  cases h
  obtain ⟨hpushed, hplain⟩ := push_pushed hpush hsteady.shape hsteady.usage
  refine ⟨rfl, hpushed, ?_⟩
  split_ifs
  · exact hplain
  · exact Plain.append (plain_single rfl rfl) hplain

theorem accept_cases {next : Decoder N} {part : List UInt8} {more : Events N}
    (h : decoder.accept serde part = .ok (next, more)) :
    ∃ framer frame, decoder.framer.accept part = .ok (framer, frame) ∧
      ((frame = none ∧ next = { decoder with framer := framer } ∧ more = []) ∨
        (∃ done, frame = some done ∧ done.data = "[DONE]" ∧ decoder.accum.finish serde = .ok more) ∨
        ∃ data event, frame = some data ∧ decodeData serde data = .ok event ∧
          Decoder.event serde { decoder with framer := framer } event = .ok (next, more)) := by
  unfold Decoder.accept at h
  obtain ⟨⟨framer, frame⟩, hframe, h⟩ := (bind_eq_ok _ _ _).mp h
  refine ⟨framer, frame, hframe, ?_⟩
  cases frame with
  | none =>
    cases h
    exact Or.inl ⟨rfl, rfl, rfl⟩
  | some data =>
    dsimp only at h
    split_ifs at h with hdone
    · obtain ⟨events, hevents, h⟩ := (bind_eq_ok _ _ _).mp h
      cases h
      exact Or.inr (Or.inl ⟨data, rfl, hdone, hevents⟩)
    · obtain ⟨event, hevent, h⟩ := (bind_eq_ok _ _ _).mp h
      exact Or.inr (Or.inr ⟨data, event, rfl, hevent, h⟩)

theorem accepted_fed {parts : List (List UInt8)} {decoder : Decoder N} {events : Events N}
    (h : Accepted (Decoder.accept serde) .new parts decoder events) :
    ∃ frames wire, Fed serde parts decoder events frames wire := by
  induction h with
  | nil => exact ⟨[], [], rfl, rfl, .new serde, plain_nil⟩
  | snoc h hpart hmore ih =>
    obtain ⟨frames, wire, hframes, hwire, hsteady, hplain⟩ := ih
    obtain ⟨framer, frame, haccept, ⟨rfl, rfl, rfl⟩ | ⟨done, rfl, -, hfinish⟩ |
      ⟨data, event, rfl, hdata, hevent⟩⟩ := accept_cases hpart
    · refine ⟨frames, wire, ?_, hwire, hsteady, hplain.append plain_nil⟩
      have hread := readFrames_snoc hframes haccept
      rwa [Option.toList_none, append_nil] at hread
    · obtain ⟨calls, stop, hmore', -⟩ := hsteady.final hplain hfinish
      have hend := hmore (.finish stop _)
        (by rw [hmore']; exact mem_append_right _ mem_cons_self)
      cases hend
    · obtain ⟨hframer, hpushed, hnew⟩ := event_pushed hevent hsteady
      refine ⟨frames ++ [data], wire ++ [event], ?_, mapM_snoc hwire hdata, hsteady.push hpushed,
        hplain.append hnew⟩
      rw [hframer]
      exact readFrames_snoc hframes haccept

theorem decode_final (serde : Serde N) (bytes : List (Except String (List UInt8))) :
    Fails (decode serde bytes) ∨ ∃ parts rest wire events stop usage,
      segments bytes = parts ++ rest ∧ Carries serde parts wire ∧
      decode serde bytes = sent events ++ [.ok (.finish stop usage)] ∧
      (∀ event ∈ events, isEnd event = false) ∧ Final serde wire events stop usage := by
  refine (drive_outcome (Decoder.accept serde) _ .new bytes).imp_right fun hends => ?_
  obtain ⟨before, last, rest, decoder, next, events, more, stop, usage, after, hparts, haccepted,
    hlast, hquiet, hitems⟩ := hends.accepted
  obtain ⟨frames, wire, hframes, hwire, hsteady, hplain⟩ := accepted_fed haccepted
  obtain ⟨framer, frame, haccept, ⟨-, -, hnone⟩ | ⟨done, rfl, hdone, hfinish⟩ |
    ⟨data, event, rfl, hdata, hevent⟩⟩ := accept_cases hlast
  · exact absurd hnone (by simp)
  · obtain ⟨calls, reason, hsplit, hcalls, hfinal⟩ := hsteady.final hplain hfinish
    obtain ⟨rfl, hrest⟩ : more = calls ∧ StreamEvent.finish stop usage :: after =
        [.finish reason decoder.accum.usage] := by
      refine append_inj' hsplit ?_
      have hempty : after = [] := by
        obtain rfl | ⟨init, final, rfl⟩ := eq_nil_or_concat after
        · rfl
        · rw [concat_eq_append, ← cons_append, ← append_assoc] at hsplit
          obtain ⟨hinit, -⟩ := append_inj' hsplit rfl
          have hnever := hcalls (.finish stop usage)
            (by rw [← hinit]; exact mem_append_right _ mem_cons_self)
          cases hnever
      rw [hempty]
      rfl
    cases hrest
    refine ⟨before ++ [last], rest, wire, events ++ more, stop, decoder.accum.usage, ?_, ?_, hitems,
      hquiet, hfinal⟩
    · rw [hparts, append_assoc]
      rfl
    · exact ⟨framer, frames, done, readFrames_snoc hframes haccept, hdone, hwire⟩
  · obtain ⟨-, -, hnew⟩ := event_pushed hevent hsteady
    have hnever := (hnew (.finish stop usage) (mem_append_right _ mem_cons_self)).2
    cases hnever

end

end Stakit.OpenAi
