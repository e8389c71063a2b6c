import Stakit.ClaudeBlocks
import Stakit.ExceptLoops

set_option autoImplicit false

namespace Stakit.Claude
open AgentMessages SerdeJson ProviderStreams FiniteMap ExceptLoops List

section
variable {N : Type}

def kindOf (event : Value N) : EventKind := EventKind.of ((textMember event "type").getD "")

def isKnown (event : Value N) : Bool := kindOf event ≠ .other

def startUsage (event : Value N) : Option (Value N) :=
  (get event "message").bind fun message => get message "usage"

/-- A `message_start` comes before all other known events, and once, with its input usage. -/
def StartsOnce (serde : Serde N) (wire : List (Value N)) : Prop :=
  ∃ first rest, wire.filter isKnown = first :: rest ∧ kindOf first = .messageStart ∧
    (∀ event ∈ rest, kindOf event ≠ .messageStart) ∧
    ((startUsage first).bind fun usage => serde.countMember usage "input_tokens").isSome

def Stops (serde : Serde N) (event stop : Value N) : Prop :=
  kindOf stop = .contentBlockStop ∧ serde.countMember stop "index" = serde.countMember event "index"

/-- Every block that was opened is closed by a later event. -/
def Closed (serde : Serde N) (wire : List (Value N)) : Prop :=
  ∀ before event after, wire = before ++ event :: after → kindOf event = .contentBlockStart →
    ∃ stop ∈ after, Stops serde event stop

def setsStop (event : Value N) : Bool := kindOf event = .messageDelta && (stopOf event).isSome

/-- No content comes after an event that sets the stop reason. -/
def Settled (wire : List (Value N)) : Prop :=
  ∀ before event after, wire = before ++ event :: after → setsStop event = true →
    ∀ later ∈ after, isContent (kindOf later) = false

/-- The output was counted by a `message_delta` after the last content. -/
def Counted (serde : Serde N) (wire : List (Value N)) (output : ℕ) : Prop :=
  ∃ before event after, wire = before ++ event :: after ∧ kindOf event = .messageDelta ∧
    ((get event "usage").bind (serde.countMember · "output_tokens")) = some output ∧
    ∀ later ∈ after, isContent (kindOf later) = false

def Grows (usage next : Usage) : Prop :=
  totalInput usage ≤ totalInput next ∧ usage.outputTokens ≤ next.outputTokens

/-- The usages that are let out, the terminal one with them, never go down. -/
def Cumulative (events : Events N) (last : Usage) : Prop :=
  (events.filterMap reported ++ [last]).Pairwise Grows

/-- What the terminal event certifies of the events on the wire and of those let out. -/
structure Final (serde : Serde N) (wire : List (Value N)) (events : Events N) (usage : Usage) :
    Prop where
  starts : StartsOnce serde wire
  closed : Closed serde wire
  stopped : ∃ event ∈ wire, setsStop event = true
  settled : Settled wire
  counted : Counted serde wire usage.outputTokens
  cumulative : Cumulative events usage

/-- What an accepted event does. -/
inductive Takes (serde : Serde N) (decoder next : Decoder N) (event : Value N)
    (more : Events N) : Prop
  | other (hkind : kindOf event = .other) (hnext : next = decoder) (hmore : more = [])
  | known (blocks : Map ℕ BlockKind) (accum : Accum N) (hkind : kindOf event ≠ .other)
      (herror : kindOf event ≠ .error)
      (hstart : kindOf event = .messageStart ↔ decoder.started = false)
      (hvalid : validateKind serde event (kindOf event) = .ok ())
      (htrack : decoder.track serde event (kindOf event) = .ok blocks)
      (hpush : decoder.accum.push serde event (kindOf event) = .ok (accum, more))
      (hnext : next = { decoder with accum := accum, blocks := blocks, started := true })

variable {α : Type} {serde : Serde N} {wire : List (Value N)} {decoder : Decoder N}
  {events : Events N} {accum next : Accum N}

theorem validate_ok {event : Value N} {kind : EventKind} (h : validate serde event = .ok kind) :
    kind = kindOf event ∧ validateKind serde event (kindOf event) = .ok () := by
  unfold validate at h
  obtain ⟨text, htext, h⟩ := (bind_eq_ok _ _ _).mp h
  obtain ⟨hvalid, hkind⟩ := (then_eq_ok _ _ _).mp h
  have hof : kindOf event = EventKind.of text := by
    unfold requireText at htext
    unfold kindOf
    split at htext
    · rename_i found hfound
      cases htext
      rw [hfound]
      rfl
    · cases htext
  rw [hof]
  exact ⟨((pure_eq_ok _ _).mp hkind).symm, hvalid⟩

theorem admit_ok {next : Decoder N} {event : Value N} {kind : EventKind} {more : Events N}
    (h : decoder.admit serde event kind = .ok (next, more)) :
    ∃ blocks accum, decoder.track serde event kind = .ok blocks ∧
      decoder.accum.push serde event kind = .ok (accum, more) ∧
      next = { decoder with accum := accum, blocks := blocks, started := true } := by
  unfold Decoder.admit at h
  obtain ⟨blocks, hblocks, h⟩ := (bind_eq_ok _ _ _).mp h
  obtain ⟨⟨accum, events⟩, hpush, h⟩ := (bind_eq_ok _ _ _).mp h
  cases (pure_eq_ok _ _).mp h
  exact ⟨blocks, accum, hblocks, hpush, rfl⟩

theorem event_takes {next : Decoder N} {event : Value N} {more : Events N}
    (h : decoder.event serde event = .ok (next, more)) : Takes serde decoder next event more := by
  unfold Decoder.event at h
  obtain ⟨kind, hkind, h⟩ := (bind_eq_ok _ _ _).mp h
  obtain ⟨rfl, hvalid⟩ := validate_ok hkind
  have hknown : ∀ start : Bool, (kindOf event = .messageStart ↔ start = true) →
      kindOf event ≠ .other → kindOf event ≠ .error → decoder.started = !start →
      decoder.admit serde event (kindOf event) = .ok (next, more) →
      Takes serde decoder next event more := by
    intro start hstart hother herror hstarted hadmit
    obtain ⟨blocks, accum, htrack, hpush, hnext⟩ := admit_ok hadmit
    refine .known blocks accum hother herror ?_ hvalid htrack hpush hnext
    rw [hstart, hstarted]
    cases start <;> decide
  cases hof : kindOf event with
  | error =>
    rw [hof] at h
    cases h
  | other =>
    rw [hof] at h
    cases h
    exact .other hof rfl rfl
  | messageStart =>
    rw [hof] at h
    dsimp only at h
    obtain ⟨hstarted, hadmit⟩ := (then_eq_ok _ _ _).mp h
    refine hknown true (iff_of_true hof rfl) (by rw [hof]; decide) (by rw [hof]; decide)
      (Bool.eq_false_of_not_eq_true ((refuse_eq_ok _ _ _).mp hstarted)) ?_
    rw [hof]
    exact hadmit
  | _ =>
    rw [hof] at h
    dsimp only at h
    obtain ⟨hstarted, hadmit⟩ := (then_eq_ok _ _ _).mp h
    refine hknown false (iff_of_false (by rw [hof]; decide) (by decide)) (by rw [hof]; decide)
      (by rw [hof]; decide)
      (Bool.eq_true_of_not_eq_false ((refuse_eq_ok _ _ _).mp hstarted)) ?_
    rw [hof]
    exact hadmit

def Silent (events : Events N) : Prop := ∀ event ∈ events, reported event = none

theorem silent_nil : Silent ([] : Events N) := nofun

theorem silent_single {event : StreamEvent (Value N)} (h : reported event = none) :
    Silent [event] := by
  intro other hother
  rw [mem_singleton.mp hother]
  exact h

theorem Silent.reported {events : Events N} (h : Silent events) : events.filterMap reported = [] :=
  filterMap_eq_nil_iff.mpr h

theorem initialEvents_silent (block : Block N) : Silent block.initialEvents := by
  unfold Block.initialEvents
  cases block with
  | text buffer =>
    dsimp only
    split_ifs
    · exact silent_nil
    · exact silent_single rfl
  | thinking buffer signature =>
    intro event hevent
    dsimp only at hevent
    split_ifs at hevent <;> cases signature <;> grind [ProviderStreams.isEnd, AgentMessages.reported]
  | _ => exact silent_nil

theorem delta_silent {block next : Block N} {delta : Value N} {size total : ℕ} {more : Events N}
    (h : block.delta serde delta size = .ok (next, total, more)) : Silent more := by
  unfold Block.delta at h
  obtain ⟨kind, hkind, h⟩ := (bind_eq_ok _ _ _).mp h
  split at h
  iterate 3
    · obtain ⟨part, hpart, h⟩ := (bind_eq_ok _ _ _).mp h
      obtain ⟨left, hleft, h⟩ := (bind_eq_ok _ _ _).mp h
      cases h
      exact silent_single rfl
  · obtain ⟨part, hpart, h⟩ := (bind_eq_ok _ _ _).mp h
    split at h
    · cases h
      exact silent_nil
    · obtain ⟨removed, hremoved, h⟩ := (bind_eq_ok _ _ _).mp h
      obtain ⟨left, hleft, h⟩ := (bind_eq_ok _ _ _).mp h
      cases h
      exact silent_nil
  · cases h
    exact silent_nil

theorem finish_silent {block : Block N} {content : AssistantContent (Value N)}
    {call : Option (StreamEvent (Value N))} (h : block.finish serde = .ok (content, call)) :
    Silent call.toList := by
  cases block with
  | tool id name initial json =>
    obtain ⟨⟨input, arguments⟩, hinput, h⟩ := (bind_eq_ok _ _ _).mp h
    cases h
    exact silent_single rfl
  | _ =>
    cases h
    exact silent_nil

/-- The counters and the stop reason of an accumulator. -/
structure SameTotals (accum next : Accum N) : Prop where
  usage : next.usage = accum.usage
  input : next.hasInputUsage = accum.hasInputUsage
  stop : next.stop = accum.stop

/-- What an accepted event of a known kind does to the totals. -/
inductive Pushed (serde : Serde N) (accum next : Accum N) (event : Value N) (more : Events N) :
    Prop
  | content (hkind : isContent (kindOf event) = true) (hopen : accum.stop = none)
      (hsame : SameTotals accum next) (hmore : Silent more)
  | start (usage : Usage) (hkind : kindOf event = .messageStart)
      (hnext : next.stop = accum.stop) (husage : next.usage = usage)
      (hinput : next.hasInputUsage = true → accum.hasInputUsage = true ∨
        ((startUsage event).bind fun usage => serde.countMember usage "input_tokens").isSome)
      (hmore : more = [.start usage])
  | progress (usage : Usage) (hkind : kindOf event = .messageDelta)
      (hnext : next.stop = (stopOf event).or accum.stop) (husage : next.usage = usage)
      (hinput : next.hasInputUsage = accum.hasInputUsage)
      (hcount : ((get event "usage").bind (serde.countMember · "output_tokens")) =
        some usage.outputTokens)
      (hgrows : Grows accum.usage usage) (hmore : more = [.usage usage])
  | stop (stop : StopReason) (hkind : kindOf event = .messageStop) (hnext : next = accum)
      (hstop : accum.stop = some stop) (hinput : accum.hasInputUsage = true)
      (hmore : more = [.finish stop accum.usage])

theorem start_same {event : Value N} {more : Events N}
    (h : accum.start serde event = .ok (next, more)) : SameTotals accum next ∧ Silent more := by
  unfold Accum.start at h
  obtain ⟨index, hindex, h⟩ := (bind_eq_ok _ _ _).mp h
  obtain ⟨-, h⟩ := (then_eq_ok _ _ _).mp h
  obtain ⟨value, hvalue, h⟩ := (bind_eq_ok _ _ _).mp h
  obtain ⟨block, hblock, h⟩ := (bind_eq_ok _ _ _).mp h
  obtain ⟨-, h⟩ := (then_eq_ok _ _ _).mp h
  cases h
  refine ⟨⟨rfl, rfl, rfl⟩, ?_⟩
  cases block with
  | none => exact silent_nil
  | some block => exact initialEvents_silent block

theorem delta_same {event : Value N} {more : Events N}
    (h : accum.delta serde event = .ok (next, more)) : SameTotals accum next ∧ Silent more := by
  unfold Accum.delta at h
  obtain ⟨index, hindex, h⟩ := (bind_eq_ok _ _ _).mp h
  split at h
  · obtain ⟨delta, hdelta, h⟩ := (bind_eq_ok _ _ _).mp h
    obtain ⟨⟨block, total, events⟩, hblock, h⟩ := (bind_eq_ok _ _ _).mp h
    cases h
    exact ⟨⟨rfl, rfl, rfl⟩, delta_silent hblock⟩
  · cases h
    exact ⟨⟨rfl, rfl, rfl⟩, silent_nil⟩

theorem finish_same {event : Value N} {more : Events N}
    (h : accum.finish serde event = .ok (next, more)) : SameTotals accum next ∧ Silent more := by
  unfold Accum.finish at h
  obtain ⟨index, hindex, h⟩ := (bind_eq_ok _ _ _).mp h
  dsimp only at h
  split at h
  · obtain ⟨⟨content, call⟩, hblock, h⟩ := (bind_eq_ok _ _ _).mp h
    obtain ⟨-, h⟩ := (then_eq_ok _ _ _).mp h
    cases h
    refine ⟨⟨rfl, rfl, rfl⟩, fun event hevent => ?_⟩
    obtain rfl | hevent := mem_cons.mp hevent
    · rfl
    · exact finish_silent hblock event hevent
  · cases h
    exact ⟨⟨rfl, rfl, rfl⟩, silent_nil⟩

theorem messageDelta_pushed {event : Value N} {more : Events N}
    (hkind : kindOf event = .messageDelta) (h : accum.messageDelta serde event = .ok (next, more)) :
    Pushed serde accum next event more := by
  unfold Accum.messageDelta at h
  obtain ⟨-, h⟩ := (then_eq_ok _ _ _).mp h
  obtain ⟨usage, husage, h⟩ := (bind_eq_ok _ _ _).mp h
  obtain ⟨-, h⟩ := (then_eq_ok _ _ _).mp h
  obtain ⟨output, houtput, h⟩ := (bind_eq_ok _ _ _).mp h
  obtain ⟨hdecreased, h⟩ := (then_eq_ok _ _ _).mp h
  obtain ⟨-, h⟩ := (then_eq_ok _ _ _).mp h
  obtain ⟨hinput, h⟩ := (then_eq_ok _ _ _).mp h
  cases h
  have hmember : get event "usage" = some usage := by
    unfold requireMember at husage
    split at husage
    · rename_i value hvalue
      cases husage
      exact hvalue
    · cases husage
  have hcount : serde.countMember usage "output_tokens" = some output := by
    unfold requireOutput at houtput
    split at houtput
    · rename_i count hcount
      cases houtput
      exact hcount
    · cases houtput
  refine .progress _ hkind rfl rfl rfl ?_ ⟨not_lt.mp ((refuse_eq_ok _ _ _).mp hinput),
    not_lt.mp ((refuse_eq_ok _ _ _).mp hdecreased)⟩ rfl
  rw [hmember]
  exact hcount

theorem messageStart_pushed {event : Value N} {more : Events N}
    (hkind : kindOf event = .messageStart) (h : accum.messageStart serde event = .ok (next, more)) :
    Pushed serde accum next event more := by
  unfold Accum.messageStart at h
  split at h
  · cases h
    exact .start _ hkind rfl rfl Or.inl rfl
  · rename_i usage husage
    obtain ⟨-, h⟩ := (then_eq_ok _ _ _).mp h
    obtain ⟨-, h⟩ := (then_eq_ok _ _ _).mp h
    cases h
    refine .start _ hkind rfl rfl (fun hinput => Or.inr ?_) rfl
    unfold startUsage
    rw [husage]
    exact hinput

theorem messageStop_pushed {event : Value N} {more : Events N}
    (hkind : kindOf event = .messageStop) (h : accum.messageStop = .ok (next, more)) :
    Pushed serde accum next event more := by
  unfold Accum.messageStop at h
  split_ifs at h with hmissing
  rw [not_or] at hmissing
  split at h
  · cases h
  · rename_i stop hstop
    cases h
    exact .stop stop hkind rfl hstop (by simpa using hmissing.1) rfl

theorem push_pushed {event : Value N} {more : Events N}
    (h : accum.push serde event (kindOf event) = .ok (next, more))
    (hknown : kindOf event ≠ .other) (herror : kindOf event ≠ .error) :
    Pushed serde accum next event more := by
  unfold Accum.push at h
  split_ifs at h with hguard
  have hopen : isContent (kindOf event) = true → accum.stop = none := fun hcontent =>
    Option.not_isSome_iff_eq_none.mp fun hstop => hguard ⟨hstop, hcontent⟩
  cases hkind : kindOf event with
  | error => exact absurd hkind herror
  | other => exact absurd hkind hknown
  | messageStart =>
    rw [hkind] at h
    exact messageStart_pushed hkind h
  | messageDelta =>
    rw [hkind] at h
    exact messageDelta_pushed hkind h
  | messageStop =>
    rw [hkind] at h
    exact messageStop_pushed hkind h
  | contentBlockStart =>
    rw [hkind] at h hopen
    obtain ⟨hsame, hsilent⟩ := start_same h
    exact .content (by rw [hkind]; rfl) (hopen rfl) hsame hsilent
  | contentBlockDelta =>
    rw [hkind] at h hopen
    obtain ⟨hsame, hsilent⟩ := delta_same h
    exact .content (by rw [hkind]; rfl) (hopen rfl) hsame hsilent
  | contentBlockStop =>
    rw [hkind] at h hopen
    obtain ⟨hsame, hsilent⟩ := finish_same h
    exact .content (by rw [hkind]; rfl) (hopen rfl) hsame hsilent

inductive Fed (serde : Serde N) : List (Value N) → Decoder N → Events N → Prop
  | new : Fed serde [] .new []
  | reframe {wire : List (Value N)} {decoder : Decoder N} {events : Events N} (framer : Framer)
      (h : Fed serde wire decoder events) : Fed serde wire { decoder with framer := framer } events
  | event {wire : List (Value N)} {decoder next : Decoder N} {events more : Events N}
      {event : Value N} (h : Fed serde wire decoder events)
      (hevent : decoder.event serde event = .ok (next, more)) :
      Fed serde (wire ++ [event]) next (events ++ more)

theorem snoc_split {items before after : List α} {last item : α}
    (h : items ++ [last] = before ++ item :: after) :
    (item = last ∧ after = []) ∨ ∃ rest, after = rest ++ [last] ∧ items = before ++ item :: rest := by
  obtain rfl | ⟨rest, other, rfl⟩ := eq_nil_or_concat after
  · obtain ⟨-, hlast⟩ := append_inj' h rfl
    exact Or.inl ⟨(singleton_inj.mp hlast).symm, rfl⟩
  · rw [concat_eq_append, ← cons_append, ← append_assoc] at h
    obtain ⟨hitems, hlast⟩ := append_inj' h rfl
    rw [singleton_inj.mp hlast, concat_eq_append]
    exact Or.inr ⟨rest, rfl, hitems⟩

theorem exists_snoc (items : List α) (last : α) (p : α → Prop) :
    (∃ item ∈ items ++ [last], p item) ↔ (∃ item ∈ items, p item) ∨ p last := by
  simp only [mem_append, mem_singleton, or_and_right, exists_or, exists_eq_left]

/-- What holds between the events on the wire and a decoder that has accepted them. -/
structure Steady (serde : Serde N) (wire : List (Value N)) (decoder : Decoder N)
    (events : Events N) : Prop where
  waits : decoder.started = false → wire.filter isKnown = [] ∧ events = [] ∧ decoder.accum = .new
  starts : decoder.started = true → ∃ first rest, wire.filter isKnown = first :: rest ∧
    kindOf first = .messageStart ∧ (∀ event ∈ rest, kindOf event ≠ .messageStart) ∧
    (decoder.accum.hasInputUsage = true →
      ((startUsage first).bind fun usage => serde.countMember usage "input_tokens").isSome)
  pending : ∀ before event after, wire = before ++ event :: after →
    kindOf event = .contentBlockStart → (∃ stop ∈ after, Stops serde event stop) ∨
      ∃ index, serde.countMember event "index" = some index ∧ index ∈ decoder.blocks.keys
  stopped : decoder.accum.stop.isSome ↔ ∃ event ∈ wire, setsStop event = true
  settled : Settled wire
  counted : decoder.accum.stop.isSome → Counted serde wire decoder.accum.usage.outputTokens
  cumulative : (events.filterMap reported).Pairwise Grows ∧
    ∀ usage ∈ events.filterMap reported, Grows usage decoder.accum.usage

theorem Steady.new (serde : Serde N) : Steady serde [] .new [] where
  waits _ := ⟨rfl, rfl, rfl⟩
  starts h := by cases h
  pending before event after h := by cases before <;> cases h
  stopped := iff_of_false Bool.false_ne_true fun ⟨_, h, _⟩ => not_mem_nil h
  settled before event after h := by cases before <;> cases h
  counted h := by cases h
  cumulative := ⟨.nil, nofun⟩

theorem Steady.reframe (framer : Framer) (h : Steady serde wire decoder events) :
    Steady serde wire { decoder with framer := framer } events :=
  ⟨h.waits, h.starts, h.pending, h.stopped, h.settled, h.counted, h.cumulative⟩

theorem requireIndex_ok {event : Value N} {index : ℕ} (h : requireIndex serde event = .ok index) :
    serde.countMember event "index" = some index := by
  unfold requireIndex at h
  split at h
  · rename_i found hfound
    cases h
    exact hfound
  · cases h

theorem track_pending {event : Value N} {kind : EventKind} {blocks : Map ℕ BlockKind}
    (h : decoder.track serde event kind = .ok blocks) :
    (kind = .contentBlockStart → ∃ index, serde.countMember event "index" = some index ∧
      index ∈ blocks.keys) ∧
    ∀ index ∈ decoder.blocks.keys, index ∈ blocks.keys ∨
      (kind = .contentBlockStop ∧ serde.countMember event "index" = some index) := by
  unfold Decoder.track at h
  cases kind with
  | contentBlockStart =>
    obtain ⟨index, hindex, h⟩ := (bind_eq_ok _ _ _).mp h
    obtain ⟨-, h⟩ := (then_eq_ok _ _ _).mp h
    cases h
    refine ⟨fun _ => ⟨index, requireIndex_ok hindex, AList.mem_insert _ |>.mpr (Or.inl rfl)⟩,
      fun other hother => Or.inl (AList.mem_insert _ |>.mpr (Or.inr hother))⟩
  | contentBlockDelta =>
    refine ⟨nofun, fun index hindex => Or.inl ?_⟩
    obtain ⟨own, hown, h⟩ := (bind_eq_ok _ _ _).mp h
    split at h
    · cases h
    · split at h
      · cases h
        exact hindex
      · obtain ⟨-, h⟩ := (then_eq_ok _ _ _).mp h
        cases h
        exact hindex
  | contentBlockStop =>
    refine ⟨nofun, fun index hindex => ?_⟩
    obtain ⟨own, hown, h⟩ := (bind_eq_ok _ _ _).mp h
    obtain ⟨-, h⟩ := (then_eq_ok _ _ _).mp h
    cases h
    by_cases heq : index = own
    · exact Or.inr ⟨rfl, heq ▸ requireIndex_ok hown⟩
    · exact Or.inl (AList.mem_erase.mpr ⟨heq, hindex⟩)
  | messageStop =>
    refine ⟨nofun, fun index hindex => Or.inl ?_⟩
    dsimp only at h
    split_ifs at h
    cases h
    exact hindex
  | _ =>
    cases h
    exact ⟨nofun, fun index hindex => Or.inl hindex⟩

theorem setsStop_iff (event : Value N) :
    setsStop event = true ↔ kindOf event = .messageDelta ∧ (stopOf event).isSome := by
  unfold setsStop
  rw [Bool.and_eq_true, decide_eq_true_eq]

theorem Pushed.stops {event : Value N} {more : Events N} (h : Pushed serde accum next event more) :
    next.stop.isSome ↔ accum.stop.isSome ∨ setsStop event = true := by
  have hsame : kindOf event ≠ .messageDelta → next.stop = accum.stop →
      (next.stop.isSome ↔ accum.stop.isSome ∨ setsStop event = true) := by
    intro hkind hstop
    rw [hstop, setsStop_iff]
    exact (or_iff_left fun hsets => hkind hsets.1).symm
  cases h with
  | content hkind hopen hunchanged hmore =>
    refine hsame (fun hdelta => ?_) hunchanged.stop
    rw [hdelta] at hkind
    cases hkind
  | start usage hkind hnext =>
    exact hsame (by rw [hkind]; decide) hnext
  | progress usage hkind hnext =>
    rw [hnext, setsStop_iff, and_iff_right hkind, Option.isSome_or, Bool.or_eq_true, or_comm]
  | stop stop hkind hnext =>
    exact hsame (by rw [hkind]; decide) (by rw [hnext])

theorem Pushed.input {serde : Serde N} {accum next : Accum N} {event : Value N} {more : Events N}
    (h : Pushed serde accum next event more) (hkind : kindOf event ≠ .messageStart) :
    next.hasInputUsage = accum.hasInputUsage := by
  cases h with
  | content _ _ hsame => exact hsame.input
  | start usage hstart => exact absurd hstart hkind
  | progress usage _ _ _ hinput => exact hinput
  | stop stop _ hnext => rw [hnext]

theorem Counted.snoc {event : Value N} {output : ℕ} (h : Counted serde wire output)
    (hevent : isContent (kindOf event) = false) : Counted serde (wire ++ [event]) output := by
  obtain ⟨before, found, after, rfl, hkind, hcount, hafter⟩ := h
  refine ⟨before, found, after ++ [event], by rw [append_assoc, cons_append], hkind, hcount, ?_⟩
  intro later hlater
  obtain hlater | hlater := mem_append.mp hlater
  · exact hafter later hlater
  · rw [mem_singleton.mp hlater]
    exact hevent

theorem Steady.other {serde : Serde N} {wire : List (Value N)} {decoder : Decoder N}
    {events : Events N} {event : Value N} (h : Steady serde wire decoder events)
    (hkind : kindOf event = .other) : Steady serde (wire ++ [event]) decoder events := by
  have hfilter : (wire ++ [event]).filter isKnown = wire.filter isKnown := by
    rw [filter_append, filter_cons_of_neg (by simp [isKnown, hkind]), filter_nil, append_nil]
  have hsets : setsStop event = false := by
    unfold setsStop
    rw [hkind]
    rfl
  refine ⟨by rw [hfilter]; exact h.waits, by rw [hfilter]; exact h.starts, ?_, ?_, ?_,
    fun hstop => (h.counted hstop).snoc (by rw [hkind]; rfl), h.cumulative⟩
  · intro before other after hsplit hstart
    obtain ⟨rfl, -⟩ | ⟨rest, rfl, hwire⟩ := snoc_split hsplit
    · rw [hkind] at hstart
      cases hstart
    · exact (h.pending before other rest hwire hstart).imp_left
        fun ⟨stop, hstop, hstops⟩ => ⟨stop, mem_append_left _ hstop, hstops⟩
  · rw [h.stopped, exists_snoc]
    exact (or_iff_left (by rw [hsets]; exact Bool.false_ne_true)).symm
  · intro before other after hsplit hstop later hlater
    obtain ⟨rfl, rfl⟩ | ⟨rest, rfl, hwire⟩ := snoc_split hsplit
    · cases hlater
    · obtain hlater | hlater := mem_append.mp hlater
      · exact h.settled before other rest hwire hstop later hlater
      · rw [mem_singleton.mp hlater, hkind]
        rfl

theorem Steady.known {more : Events N} {event : Value N} {blocks : Map ℕ BlockKind}
    {accum : Accum N} (h : Steady serde wire decoder events) (hknown : kindOf event ≠ .other)
    (hstart : kindOf event = .messageStart ↔ decoder.started = false)
    (htrack : decoder.track serde event (kindOf event) = .ok blocks)
    (hpushed : Pushed serde decoder.accum accum event more) :
    Steady serde (wire ++ [event])
      { decoder with accum := accum, blocks := blocks, started := true } (events ++ more) := by
  have hfilter : (wire ++ [event]).filter isKnown = wire.filter isKnown ++ [event] := by
    rw [filter_append, filter_cons_of_pos (by simpa [isKnown] using hknown), filter_nil]
  obtain ⟨hopens, hkeeps⟩ := track_pending htrack
  refine ⟨nofun, fun _ => ?_, ?_, ?_, ?_, fun hstop => ?_, ?_⟩
  · rw [hfilter]
    by_cases hfirst : kindOf event = .messageStart
    · obtain ⟨hnone, -, hnew⟩ := h.waits (hstart.mp hfirst)
      refine ⟨event, [], by rw [hnone, nil_append], hfirst, nofun, fun hinput => ?_⟩
      cases hpushed with
      | start usage _ _ _ hseen =>
        obtain hold | hseen := hseen hinput
        · rw [hnew] at hold
          cases hold
        · exact hseen
      | content hkind | progress usage hkind | stop stop hkind =>
        rw [hfirst] at hkind
        cases hkind
    · have hstarted : decoder.started = true :=
        Bool.eq_true_of_not_eq_false fun hwaits => hfirst (hstart.mpr hwaits)
      obtain ⟨first, rest, hwire, hkind, hrest, hinput⟩ := h.starts hstarted
      refine ⟨first, rest ++ [event], by rw [hwire, cons_append], hkind, ?_, ?_⟩
      · intro other hother
        obtain hother | hother := mem_append.mp hother
        · exact hrest other hother
        · rwa [mem_singleton.mp hother]
      · rw [← hpushed.input hfirst] at hinput
        exact hinput
  · intro before other after hsplit hopen
    obtain ⟨rfl, rfl⟩ | ⟨rest, rfl, hwire⟩ := snoc_split hsplit
    · exact Or.inr (hopens hopen)
    · obtain ⟨stop, hstop, hstops⟩ | ⟨index, hindex, hmem⟩ := h.pending before other rest hwire hopen
      · exact Or.inl ⟨stop, mem_append_left _ hstop, hstops⟩
      · obtain hmem | ⟨hkind, hsame⟩ := hkeeps index hmem
        · exact Or.inr ⟨index, hindex, hmem⟩
        · exact Or.inl ⟨event, mem_append_right _ mem_cons_self, hkind, hsame.trans hindex.symm⟩
  · rw [exists_snoc, ← h.stopped]
    exact hpushed.stops
  · intro before other after hsplit hsets later hlater
    obtain ⟨rfl, rfl⟩ | ⟨rest, rfl, hwire⟩ := snoc_split hsplit
    · cases hlater
    · obtain hlater | hlater := mem_append.mp hlater
      · exact h.settled before other rest hwire hsets later hlater
      · rw [mem_singleton.mp hlater]
        refine Bool.eq_false_of_not_eq_true fun hcontent => ?_
        have hstopped : decoder.accum.stop.isSome := h.stopped.mpr
          ⟨other, by rw [hwire]; exact mem_append_right _ mem_cons_self, hsets⟩
        cases hpushed with
        | content _ hopen =>
          rw [hopen] at hstopped
          cases hstopped
        | start usage hkind | progress usage hkind | stop stop hkind =>
          rw [hkind] at hcontent
          cases hcontent
  · cases hpushed with
    | content hkind hopen hsame =>
      rw [hsame.stop, hopen] at hstop
      cases hstop
    | start usage hkind hnext =>
      obtain ⟨-, -, hnew⟩ := h.waits (hstart.mp hkind)
      rw [hnext, hnew] at hstop
      cases hstop
    | progress usage hkind hnext husage hinput hcount =>
      refine ⟨wire, event, [], rfl, hkind, ?_, nofun⟩
      rw [hcount, husage]
    | stop stop hkind hnext hold =>
      subst hnext
      exact (h.counted (by rw [hold]; rfl)).snoc (by rw [hkind]; rfl)
  · obtain ⟨hpairs, hlast⟩ := h.cumulative
    have hrefl : ∀ usage, Grows usage usage := fun _ => ⟨le_rfl, le_rfl⟩
    have hadds : ∀ usage next, more.filterMap reported = [usage] → accum.usage = usage →
        (∀ old ∈ events.filterMap reported, Grows old usage) → next = accum →
        (((events ++ more).filterMap reported).Pairwise Grows ∧
          ∀ old ∈ (events ++ more).filterMap reported, Grows old next.usage) := by
      rintro usage _ hmore husage hold rfl
      rw [filterMap_append, hmore, pairwise_append]
      refine ⟨⟨hpairs, pairwise_singleton _ _, fun old holds new hnew => ?_⟩, ?_⟩
      · rw [mem_singleton.mp hnew]
        exact hold old holds
      · intro old holds
        rw [husage]
        obtain holds | holds := mem_append.mp holds
        · exact hold old holds
        · rw [mem_singleton.mp holds]
          exact hrefl usage
    cases hpushed with
    | content _ _ hsame hsilent =>
      rw [filterMap_append, hsilent.reported, append_nil, hsame.usage]
      exact h.cumulative
    | start usage hkind _ husage _ hmore =>
      obtain ⟨-, hnone, -⟩ := h.waits (hstart.mp hkind)
      refine hadds usage accum (by rw [hmore]; rfl) husage (fun old holds => ?_) rfl
      rw [hnone] at holds
      cases holds
    | progress usage hkind _ husage _ _ hgrows hmore =>
      refine hadds usage accum (by rw [hmore]; rfl) husage (fun old holds => ?_) rfl
      exact ⟨(hlast old holds).1.trans hgrows.1, (hlast old holds).2.trans hgrows.2⟩
    | stop stop hkind hnext _ _ hmore =>
      refine hadds decoder.accum.usage accum (by rw [hmore]; rfl) (by rw [hnext]) hlast rfl

theorem Steady.event {serde : Serde N} {wire : List (Value N)} {decoder next : Decoder N}
    {events more : Events N} {event : Value N} (h : Steady serde wire decoder events)
    (hevent : decoder.event serde event = .ok (next, more)) :
    Steady serde (wire ++ [event]) next (events ++ more) := by
  obtain ⟨hkind, rfl, rfl⟩ | ⟨blocks, accum, hkind, herror, hstart, -, htrack, hpush, rfl⟩ :=
    event_takes hevent
  · rw [append_nil]
    exact h.other hkind
  · exact h.known hkind hstart htrack (push_pushed hpush hkind herror)

theorem Fed.steady (h : Fed serde wire decoder events) : Steady serde wire decoder events := by
  induction h with
  | new => exact .new serde
  | reframe framer h ih => exact ih.reframe framer
  | event h hevent ih => exact ih.event hevent

theorem Steady.final {next : Decoder N} {events more after : Events N} {event : Value N}
    {stop : StopReason} {usage : Usage} (h : Steady serde wire decoder events)
    (hevent : decoder.event serde event = .ok (next, more ++ .finish stop usage :: after)) :
    kindOf event = .messageStop ∧ more = [] ∧ Final serde (wire ++ [event]) events usage := by
  have hnext := h.event hevent
  obtain ⟨-, -, hmore⟩ | ⟨blocks, accum, hkind, herror, hstart, -, htrack, hpush, rfl⟩ :=
    event_takes hevent
  · exact absurd hmore (by simp)
  · have hmem : StreamEvent.finish stop usage ∈ more ++ .finish stop usage :: after :=
      mem_append_right _ mem_cons_self
    cases push_pushed hpush hkind herror with
    | content _ _ _ hsilent => cases hsilent _ hmem
    | start other _ _ _ _ hmore | progress other _ _ _ _ _ _ hmore =>
      rw [hmore] at hmem
      cases mem_singleton.mp hmem
    | stop reason hstop hsame hreason hinput hmore =>
      subst hsame
      obtain ⟨rfl, hfinish, -⟩ : more = [] ∧ StreamEvent.finish stop usage = _ ∧ after = [] := by
        cases more with
        | nil =>
          obtain ⟨hhead, htail⟩ := List.cons.inj hmore
          exact ⟨rfl, hhead, htail⟩
        | cons head rest => exact absurd (List.cons.inj hmore).2 (by simp)
      cases hfinish
      rw [hstop] at htrack
      unfold Decoder.track at htrack
      dsimp only at htrack
      split_ifs at htrack with hopen
      rw [not_or, not_or] at hopen
      cases htrack
      have hempty : decoder.blocks.keys = [] := by simpa using hopen.1
      obtain ⟨first, rest, hfirst, hfirstKind, hrest, hseen⟩ := hnext.starts rfl
      refine ⟨hstop, rfl, ⟨first, rest, hfirst, hfirstKind, hrest, hseen hinput⟩, ?_, ?_,
        hnext.settled, hnext.counted (by rw [hreason]; rfl), ?_⟩
      · intro before other later hsplit hkindStart
        refine (hnext.pending before other later hsplit hkindStart).resolve_right ?_
        rintro ⟨index, -, hindex⟩
        rw [hempty] at hindex
        cases hindex
      · exact hnext.stopped.mp (by rw [hreason]; rfl)
      · unfold Cumulative
        rw [pairwise_append]
        refine ⟨h.cumulative.1, pairwise_singleton _ _, fun old hold new hnew => ?_⟩
        rw [mem_singleton.mp hnew]
        exact h.cumulative.2 old hold

/-- The events in the first line segments of a body. -/
def Carries (serde : Serde N) (parts : List (List UInt8)) (wire : List (Value N)) : Prop :=
  ∃ framer frames, readFrames parts = .ok (framer, frames) ∧
    frames.mapM (decodeFrame serde) = .ok wire

theorem Takes.framer {serde : Serde N} {decoder next : Decoder N} {event : Value N}
    {more : Events N} (h : Takes serde decoder next event more) : next.framer = decoder.framer := by
  cases h with
  | other _ hnext | known _ _ _ _ _ _ _ _ hnext => rw [hnext]

theorem accept_cases {next : Decoder N} {part : List UInt8} {more : Events N}
    (h : decoder.accept serde part = .ok (next, more)) :
    ∃ framer frame, decoder.framer.accept part = .ok (framer, frame) ∧
      ((frame = none ∧ next = { decoder with framer := framer } ∧ more = []) ∨
        ∃ data event, frame = some data ∧ decodeFrame serde data = .ok event ∧
          Decoder.event serde { decoder with framer := framer } event = .ok (next, more)) := by
  unfold Decoder.accept at h
  obtain ⟨⟨framer, frame⟩, hframe, h⟩ := (bind_eq_ok _ _ _).mp h
  refine ⟨framer, frame, hframe, ?_⟩
  cases frame with
  | none =>
    cases h
    exact Or.inl ⟨rfl, rfl, rfl⟩
  | some data =>
    obtain ⟨event, hevent, h⟩ := (bind_eq_ok _ _ _).mp h
    exact Or.inr ⟨data, event, rfl, hevent, h⟩

theorem accepted_fed {parts : List (List UInt8)} {decoder : Decoder N} {events : Events N}
    (h : Accepted (Decoder.accept serde) .new parts decoder events) :
    ∃ frames wire, readFrames parts = .ok (decoder.framer, frames) ∧
      frames.mapM (decodeFrame serde) = .ok wire ∧ Fed serde wire decoder events := by
  induction h with
  | nil => exact ⟨[], [], rfl, rfl, .new⟩
  | snoc h hpart hmore ih =>
    obtain ⟨frames, wire, hframes, hwire, hfed⟩ := ih
    obtain ⟨framer, frame, haccept, ⟨rfl, rfl, rfl⟩ | ⟨data, event, rfl, hdata, hevent⟩⟩ :=
      accept_cases hpart
    · refine ⟨frames, wire, ?_, hwire, ?_⟩
      · have hread := readFrames_snoc hframes haccept
        rwa [Option.toList_none, append_nil] at hread
      · rw [append_nil]
        exact hfed.reframe framer
    · have hframer := (event_takes hevent).framer
      refine ⟨frames ++ [data], wire ++ [event], ?_, mapM_snoc hwire hdata,
        (hfed.reframe framer).event hevent⟩
      rw [hframer]
      exact readFrames_snoc hframes haccept

theorem decode_final (serde : Serde N) (bytes : List (Except String (List UInt8))) :
    Fails (decode serde bytes) ∨ ∃ parts rest wire events stop usage,
      segments bytes = parts ++ rest ∧ Carries serde parts wire ∧
      decode serde bytes = sent events ++ [.ok (.finish stop usage)] ∧
      (∀ event ∈ events, isEnd event = false) ∧ Final serde wire events usage := by
  refine (drive_outcome (Decoder.accept serde) _ .new bytes).imp_right fun hends => ?_
  obtain ⟨before, last, rest, decoder, next, events, more, stop, usage, after, hparts, haccepted,
    hlast, hquiet, hitems⟩ := hends.accepted
  obtain ⟨frames, wire, hframes, hwire, hfed⟩ := accepted_fed haccepted
  obtain ⟨framer, frame, haccept, ⟨-, -, hnone⟩ | ⟨data, event, rfl, hdata, hevent⟩⟩ :=
    accept_cases hlast
  · exact absurd hnone (by simp)
  · obtain ⟨-, rfl, hfinal⟩ := (hfed.reframe framer).steady.final hevent
    rw [append_nil] at hquiet hitems
    refine ⟨before ++ [last], rest, wire ++ [event], events, stop, usage, ?_, ?_, hitems, hquiet,
      hfinal⟩
    · rw [hparts, append_assoc]
      rfl
    · exact ⟨framer, frames ++ [data], readFrames_snoc hframes haccept, mapM_snoc hwire hdata⟩

end

end Stakit.Claude
