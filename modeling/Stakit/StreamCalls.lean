import Stakit.RouterGuardReplies
import Stakit.RouterPanics

set_option autoImplicit false

namespace Stakit.StreamCalls
open SerdeJson TransitionRuns MergedStreams RouterPanics RouterError List
open RouterRequests (Serde parseArray parseElement)
open RouterGuards (streamEntries)

section
variable {serde : Serde} (router : Router (Value serde.Number) (Value serde.Number))
  (payload : Value serde.Number)

def streamed (schedule : List ℕ) : Merge (Frame (Value serde.Number)) :=
  onStream router (streamEntries payload) schedule

/-- The frames a request yields, in order. -/
def yields (schedule : List ℕ) : List (Frame (Value serde.Number)) :=
  (streamed router payload schedule).yielded.map Prod.snd

def callAlone (i : ℕ) : Value serde.Number :=
  match payload with
  | .array items => .array items[i]?.toList
  | .object entries => .object entries[i]?.toList
  | other => other

def MalformedAt (i : ℕ) : Prop :=
  ∃ items element, payload = .array items ∧ items[i]? = some element ∧
    ∀ name params, element ≠ .array [.string name, params]

end

section
variable {V P : Type}

def ofCall (i : ℕ) (frames : List (Frame V)) : List (Frame V) :=
  frames.filter fun frame => frame.index = i

/-- A frame without the place of its call. -/
def told (frame : Frame V) : String × Event V := (frame.action, frame.event)

def PollsSettled (action : StreamAction V) : List (Code (Except action.Fault action.Item)) → Prop
  | [] => action.afterCall ≠ .panics
  | poll :: rest => Returned poll fun item => Calls (convert action item) fun result =>
    Passed result fun _ => PollsSettled action rest

/-- No panic leaves the stream before its first error, after which it is not polled. -/
def Settled (action : StreamAction V) : Prop :=
  Calls action.beforeCall fun _ =>
  Returned action.before fun guard => Passed guard fun _ =>
  Calls action.decode fun decoded => Passed decoded fun input =>
  Calls (action.validate input) fun checked => Passed checked fun _ =>
  Calls (action.run input) fun polls => PollsSettled action polls

def EntrySettled (router : Router V P) (entry : String × P) : Prop :=
  ∀ stream, router.streams entry.1 = some stream → Settled (stream entry.2)

/-- What is answered to a name nothing is registered under. -/
def unknown (router : Router V P) (name : String) : Error :=
  router.onError (notFound name)

/-- Nothing is registered under the name, or it refuses the call in the same words. -/
def Unanswerable (router : Router V P) (entry : String × P) : Prop :=
  ∀ stream, router.streams entry.1 = some stream →
    ∃ error rest, (stream entry.2).dispatch.items = .error error :: rest ∧
      router.onError error = unknown router entry.1

end

section
variable {serde : Serde} (router : Router (Value serde.Number) (Value serde.Number))
  (payload : Value serde.Number)

/-- What a complete run yields of a call. -/
structure Kept (i : ℕ) (entry : String × Value serde.Number) (schedule : List ℕ) : Prop where
  alone : ∀ schedule', Complete (streamed router (callAlone payload i) schedule') →
    (ofCall i (yields router payload schedule)).map told =
      (yields router (callAlone payload i) schedule').map told
  ended : Answered (fun frame => frame.event.terminal) (ofCall i (yields router payload schedule))
  named : ∀ frame ∈ ofCall i (yields router payload schedule), frame.action = entry.1
  refused : router.streams entry.1 = none ∨ MalformedAt payload i →
    ofCall i (yields router payload schedule) = [⟨i, entry.1, .error (unknown router entry.1)⟩]

/-- Whatever the order in which the streams are polled, the calls do not interfere. -/
structure Apart : Prop where
  indexed : ∀ schedule, ∀ frame ∈ yields router payload schedule,
    frame.index < (streamEntries payload).length
  kept : ∀ i entry, (streamEntries payload)[i]? = some entry → ∀ schedule,
    Complete (streamed router payload schedule) → Kept router payload i entry schedule

/-- Every call settles, and no element that is not a call is dispatched as one. -/
def Separable : Prop :=
  ∀ i entry, (streamEntries payload)[i]? = some entry →
    EntrySettled router entry ∧ (MalformedAt payload i → Unanswerable router entry)

end

section
variable {V P : Type} (router : Router V P)

variable (entries : List (String × P)) (i : ℕ) (entry : String × P)

theorem actionStream_frame {frame : Frame V} (h : frame ∈ (actionStream router i entry).frames) :
    frame.index = i ∧ frame.action = entry.1 := by
  unfold actionStream at h
  split at h
  · rw [mem_singleton.mp h]
    exact ⟨rfl, rfl⟩
  · obtain ⟨event, -, rfl⟩ := mem_map.mp h
    exact ⟨rfl, rfl⟩

theorem actionStream_told (j : ℕ) (entry : String × P) :
    (actionStream router i entry).frames.map told =
      (actionStream router j entry).frames.map told := by
  unfold actionStream
  split
  · rfl
  · rw [map_map, map_map]
    rfl

theorem substreams_frame {frame : Frame V} (h : frame ∈ (substreams router entries i).frames) :
    frame.index = i ∧ i < entries.length := by
  unfold substreams at h
  cases hentry : entries[i]? with
  | none =>
    rw [hentry] at h
    cases h
  | some entry =>
    rw [hentry] at h
    obtain ⟨hi, -⟩ := List.getElem?_eq_some_iff.mp hentry
    exact ⟨(actionStream_frame router i entry h).1, hi⟩

theorem substreams_entry (h : entries[i]? = some entry) :
    substreams router entries i = actionStream router i entry := by
  unfold substreams
  rw [h]

theorem substreams_beyond (h : entries.length ≤ i) : (substreams router entries i).frames = [] := by
  unfold substreams
  rw [List.getElem?_eq_none h]

theorem ofCall_yielded (schedule : List ℕ) (i : ℕ) :
    ofCall i ((onStream router entries schedule).yielded.map Prod.snd) =
      fromSub (onStream router entries schedule).yielded i := by
  unfold ofCall fromSub
  rw [filter_map]
  refine congrArg (List.map Prod.snd) (filter_congr fun entry hentry => ?_)
  have hframe := mem_yielded _ schedule hentry
  have hindex := (substreams_frame router entries entry.1 hframe).1
  exact decide_eq_decide.mpr (by rw [hindex])

theorem pollItems_settled (onError : Error → Error) (action : StreamAction V)
    (polls : List (Code (Except action.Fault action.Item))) :
    (events onError (pollItems action polls).fate (pollItems action polls).items).escapes = false ↔
      PollsSettled action polls := by
  have hescaped : ¬ (events onError .escaped ([] : List (Except Error V))).escapes = false :=
    nofun
  induction polls with
  | nil =>
    exact teardown_good (fun yielded => (events onError yielded.fate yielded.items).escapes = false)
      hescaped rfl rfl action
  | cons poll rest ih =>
    refine caught_good (fun yielded =>
      (events onError yielded.fate yielded.items).escapes = false) _ _ rfl poll fun item => ?_
    refine call_good (fun yielded => (events onError yielded.fate yielded.items).escapes = false)
      _ _ hescaped (convert action item) fun result => ?_
    cases result with
    | error error => exact ⟨nofun, fun _ => rfl⟩
    | ok value =>
      refine ih.trans ⟨fun h other _ => h, fun h => h value rfl⟩

theorem streamEvents_settled (stream : StreamAction V) :
    (streamEvents router stream).escapes = false ↔ Settled stream :=
  dispatch_good (fun yielded => (events router.onError yielded.fate yielded.items).escapes = false)
    nofun rfl (fun _ => rfl)
    (pollItems_settled router.onError stream)

theorem actionStream_settled :
    (actionStream router i entry).escapes = false ↔ EntrySettled router entry := by
  unfold actionStream EntrySettled
  cases hstream : router.streams entry.1 with
  | none => exact ⟨nofun, fun _ => rfl⟩
  | some stream =>
    refine (streamEvents_settled router (stream entry.2)).trans ⟨fun h other heq => ?_,
      fun h => h stream rfl⟩
    cases heq
    exact h

theorem quiet_substreams (h : ∀ entry ∈ entries, EntrySettled router entry) (i : ℕ) :
    (substreams router entries i).escapes = false := by
  unfold substreams
  split
  · next entry hentry =>
    exact (actionStream_settled router i entry).mpr (h entry (mem_of_getElem? hentry))
  · rfl

theorem ofCall_complete {schedule : List ℕ} (h : ∀ entry ∈ entries, EntrySettled router entry)
    (hcomplete : Complete (onStream router entries schedule)) (i : ℕ) (entry : String × P)
    (hentry : entries[i]? = some entry) :
    ofCall i ((onStream router entries schedule).yielded.map Prod.snd) =
      (actionStream router i entry).frames := by
  rw [ofCall_yielded, ← substreams_entry router entries i entry hentry]
  exact (complete_frames _ schedule (quiet_substreams router entries h) hcomplete).2 i

theorem unanswerable_frames (h : Unanswerable router entry) :
    (actionStream router i entry).frames = [⟨i, entry.1, .error (unknown router entry.1)⟩] := by
  unfold actionStream
  cases hstream : router.streams entry.1 with
  | none => rfl
  | some stream =>
    obtain ⟨error, rest, hitems, herror⟩ := h stream hstream
    dsimp only
    unfold streamEvents
    rw [hitems]
    unfold events
    rw [herror]
    rfl

theorem unanswerable_of_frames
    (h : (actionStream router i entry).frames = [⟨i, entry.1, .error (unknown router entry.1)⟩]) :
    Unanswerable router entry := by
  intro stream hstream
  unfold actionStream at h
  rw [hstream] at h
  dsimp only at h
  unfold streamEvents at h
  cases hitems : (stream entry.2).dispatch.items with
  | nil =>
    rw [hitems] at h
    unfold events at h
    split_ifs at h
    · cases h
    · cases h
  | cons item rest =>
    rw [hitems] at h
    cases item with
    | ok data => cases h
    | error error =>
      unfold events at h
      injection h with hframe
      injection hframe with _ _ hevent
      injection hevent with herror
      exact ⟨error, rest, rfl, herror⟩

theorem actionStream_answered_iff :
    Answered (fun frame => frame.event.terminal) (actionStream router i entry).frames ↔
      (actionStream router i entry).escapes = false := by
  unfold actionStream
  split
  · exact iff_of_true (answered_single _ _ rfl) rfl
  · next stream hstream =>
    refine Iff.trans ⟨fun h => ?_, fun h => ?_⟩ (events_answered_iff router.onError
      (stream entry.2).dispatch.fate (stream entry.2).dispatch.items)
    · have hevents := h.map _ Event.terminal Frame.event (fun _ => rfl)
      rw [map_map] at hevents
      exact (congrArg (Answered Event.terminal) (map_id _)).mp hevents
    · exact h.map _ (fun frame : Frame V => frame.event.terminal)
        (fun event => ⟨i, entry.1, event⟩) fun _ => rfl

end

section
variable {serde : Serde} (router : Router (Value serde.Number) (Value serde.Number))
  (payload : Value serde.Number)

theorem streamEntries_alone (i : ℕ) :
    streamEntries (callAlone payload i) = (streamEntries payload)[i]?.toList := by
  unfold callAlone
  cases payload with
  | array items =>
    unfold streamEntries parseArray
    dsimp only
    rw [List.getElem?_map]
    cases items[i]? with
    | none | some element => rfl
  | object entries | null | bool b | number n | string text => rfl

theorem yields_indexed (schedule : List ℕ) (frame : Frame (Value serde.Number))
    (h : frame ∈ yields router payload schedule) :
    frame.index < (streamEntries payload).length := by
  obtain ⟨entry, hentry, rfl⟩ := mem_map.mp h
  have hframe := substreams_frame router (streamEntries payload) entry.1
    (mem_yielded _ schedule hentry)
  rw [hframe.1]
  exact hframe.2

theorem yields_alone {i : ℕ} {entry : String × Value serde.Number} {schedule : List ℕ}
    (hentry : (streamEntries payload)[i]? = some entry) (hsettled : EntrySettled router entry)
    (hcomplete : Complete (streamed router (callAlone payload i) schedule)) :
    yields router (callAlone payload i) schedule = (actionStream router 0 entry).frames := by
  have hentries : streamEntries (callAlone payload i) = [entry] := by
    rw [streamEntries_alone, hentry]
    rfl
  have hown : ofCall 0 (yields router (callAlone payload i) schedule) =
      yields router (callAlone payload i) schedule := by
    refine filter_eq_self.mpr fun frame hframe => decide_eq_true ?_
    have hindex := yields_indexed router _ schedule frame hframe
    rw [hentries] at hindex
    exact Nat.lt_one_iff.mp hindex
  rw [← hown]
  refine ofCall_complete router _ ?_ hcomplete 0 entry (by rw [hentries]; rfl)
  intro other hother
  rw [hentries] at hother
  rw [mem_singleton.mp hother]
  exact hsettled

theorem separable_settled (h : Separable router payload) :
    ∀ entry ∈ streamEntries payload, EntrySettled router entry := by
  intro entry hentry
  obtain ⟨i, hi⟩ := mem_iff_getElem?.mp hentry
  exact (h i entry hi).1

theorem apart_of_separable (h : Separable router payload) : Apart router payload := by
  refine ⟨yields_indexed router payload, fun i entry hentry schedule hcomplete => ?_⟩
  obtain ⟨hsettled, hmalformed⟩ := h i entry hentry
  have hframes : ofCall i (yields router payload schedule) = (actionStream router i entry).frames :=
    ofCall_complete router _ (separable_settled router payload h) hcomplete i entry hentry
  refine ⟨fun schedule' halone => ?_, ?_, fun frame hframe => ?_, fun hrefused => ?_⟩
  · rw [hframes, yields_alone router payload hentry hsettled halone]
    exact actionStream_told router i 0 entry
  · rw [hframes]
    exact (actionStream_answered_iff router i entry).mpr
      ((actionStream_settled router i entry).mpr hsettled)
  · rw [hframes] at hframe
    exact (actionStream_frame router i entry hframe).2
  · rw [hframes]
    refine unanswerable_frames router i entry ?_
    rcases hrefused with hstream | hmal
    · intro stream hsome
      rw [hstream] at hsome
      cases hsome
    · exact hmalformed hmal

theorem settled_of_apart (h : Apart router payload) {i : ℕ}
    {entry : String × Value serde.Number} (hentry : (streamEntries payload)[i]? = some entry) :
    EntrySettled router entry := by
  rw [← actionStream_settled router i entry]
  cases hescapes : (actionStream router i entry).escapes with
  | false => rfl
  | true =>
    have hsub := substreams_entry router _ i entry hentry
    obtain ⟨schedule, hdown, hframes⟩ :=
      exists_down (substreams router (streamEntries payload)) i (by rw [hsub]; exact hescapes)
    have hended := (h.kept i entry hentry schedule (.inl hdown)).ended
    have hown : ofCall i (yields router payload schedule) =
        (actionStream router i entry).frames := by
      rw [← hsub]
      exact (ofCall_yielded router _ schedule i).trans hframes
    rw [hown, actionStream_answered_iff, hescapes] at hended
    cases hended

theorem separable_of_apart (h : Apart router payload) : Separable router payload := by
  have hsettled : ∀ entry ∈ streamEntries payload, EntrySettled router entry := by
    intro entry hentry
    obtain ⟨i, hi⟩ := mem_iff_getElem?.mp hentry
    exact settled_of_apart router payload h hi
  obtain ⟨schedule, hcomplete⟩ := exists_complete _
    (substreams_beyond router _) (quiet_substreams router _ hsettled)
  intro i entry hentry
  refine ⟨settled_of_apart router payload h hentry, fun hmalformed => ?_⟩
  have hrefused := (h.kept i entry hentry schedule hcomplete).refused (.inr hmalformed)
  have hframes : ofCall i (yields router payload schedule) = (actionStream router i entry).frames :=
    ofCall_complete router _ hsettled hcomplete i entry hentry
  rw [hframes] at hrefused
  exact unanswerable_of_frames router i entry hrefused

theorem calls_apart_iff : Apart router payload ↔ Separable router payload :=
  ⟨separable_of_apart router payload, apart_of_separable router payload⟩

end

def tickStream : StreamAction (Value RouterRequests.naturals.Number) where
  Input := Unit
  Item := Unit
  Fault := Error
  beforeCall := .returns ()
  before := .returns (.ok ())
  decode := .returns (.ok ())
  validate _ := .returns (.ok ())
  run _ := .returns [.returns (.ok ())]
  into error := .returns error
  encode _ := .returns (.ok .null)
  afterCall := .returns ()
  after := .returns ()

def crashStream : StreamAction (Value RouterRequests.naturals.Number) :=
  { tickStream with encode := fun _ => .panics }

def tickRouter :
    Router (Value RouterRequests.naturals.Number) (Value RouterRequests.naturals.Number) where
  actions _ := none
  streams name :=
    if name = "tick" then some fun _ => tickStream
    else if name = "crash" then some fun _ => crashStream
    else none
  onError error := error

def mixedPayload : Value RouterRequests.naturals.Number :=
  .array [.array [.string "crash", .null], .array [.string "tick", .null]]

/-- An element that is a name without a value. -/
def unpairedPayload : Value RouterRequests.naturals.Number := .array [.array [.string "tick"]]

theorem mixed_taken_down : (streamed tickRouter mixedPayload [0]).down = true ∧
    (yields tickRouter mixedPayload [0]).length = 0 ∧
    (yields tickRouter (callAlone mixedPayload 1) [0, 0]).length = 2 ∧
    (yields tickRouter unpairedPayload [0, 0]).length = 2 ∧
    ¬ Apart tickRouter mixedPayload ∧ ¬ Apart tickRouter unpairedPayload := by
  refine ⟨by decide, by decide, by decide, by decide, fun h => ?_, fun h => ?_⟩
  · have hkept := h.kept 1 ("tick", .null) rfl [0] (.inl (by decide))
    obtain ⟨items, last, hframes, -, -⟩ := hkept.ended
    have hlength : (ofCall 1 (yields tickRouter mixedPayload [0])).length = 0 := by decide
    rw [hframes, length_append] at hlength
    cases hlength
  · have hcomplete : Complete (streamed tickRouter unpairedPayload [0, 0]) := by
      refine .inr fun i => ?_
      cases i with
      | zero => decide
      | succ i => exact ⟨rfl, rfl⟩
    have hkept := h.kept 0 ("tick", .null) rfl [0, 0] hcomplete
    have hrefused := hkept.refused (.inr ⟨_, _, rfl, rfl, fun name params heq => by cases heq⟩)
    have hlength : (ofCall 0 (yields tickRouter unpairedPayload [0, 0])).length = 2 := by decide
    rw [hrefused] at hlength
    cases hlength

end Stakit.StreamCalls
