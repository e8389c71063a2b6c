import Stakit.MergedStreams
import Stakit.RouterError

set_option autoImplicit false

namespace Stakit.RouterPanics
open RouterError TransitionRuns MergedStreams List

/-- What running a piece of user code comes to. -/
inductive Code (α : Type) where
  | returns (value : α)
  | panics

instance : Monad Code where
  pure := .returns
  bind code next :=
    match code with
    | .returns value => next value
    | .panics => .panics

def notFound (action : String) : Error :=
  coded 404 "not_found" ("unknown action `" ++ action ++ "`")

/-- One call of a unary action; a hook is its call and its future together. -/
structure Action (V : Type) where
  Input : Type
  Output : Type
  Fault : Type
  before : ExceptT Error Code Unit
  decode : ExceptT Error Code Input
  validate : Input → ExceptT Error Code Unit
  run : Input → Code (Except Fault Output)
  into : Fault → Code Error
  after : Code Unit
  encode : Output → ExceptT Error Code V

variable {V P : Type}

/-- Errors of `run` are converted before `after` runs. -/
def Action.finish (action : Action V) (result : Except action.Fault action.Output) :
    ExceptT Error Code V :=
  match result with
  | .error fault => do
    let error ← ExceptT.lift (action.into fault)
    ExceptT.lift action.after
    throw error
  | .ok output => do
    ExceptT.lift action.after
    action.encode output

def runUnary (action : Action V) : ExceptT Error Code V := do
  action.before
  let input ← action.decode
  action.validate input
  let result ← ExceptT.lift (action.run input)
  action.finish result

/-- `run_unary`, inside `catch_unwind`. -/
def Action.dispatch (action : Action V) : Except Error V :=
  match (runUnary action).run with
  | .returns result => result
  | .panics => .error internal

/-- One call of a streaming action: the calls that make a future or the stream, apart
from the futures and the polls. -/
structure StreamAction (V : Type) where
  Input : Type
  Item : Type
  Fault : Type
  beforeCall : Code Unit
  before : Code (Except Error Unit)
  decode : Code (Except Error Input)
  validate : Input → Code (Except Error Unit)
  run : Input → Code (List (Code (Except Fault Item)))
  into : Fault → Code Error
  encode : Item → Code (Except Error V)
  afterCall : Code Unit
  after : Code Unit

inductive Fate where
  | ended
  | caught
  | escaped
  deriving DecidableEq, Repr

structure Yielded (V : Type) where
  items : List (Except Error V)
  fate : Fate

section
variable {α : Type}

/-- User code outside any catch. -/
def call (code : Code α) (next : α → Yielded V) : Yielded V :=
  match code with
  | .panics => ⟨[], .escaped⟩
  | .returns value => next value

/-- User code inside `catch_unwind`. -/
def caught (code : Code α) (next : α → Yielded V) : Yielded V :=
  match code with
  | .panics => ⟨[.error internal], .caught⟩
  | .returns value => next value

def refuse (result : Except Error α) (next : α → Yielded V) : Yielded V :=
  match result with
  | .error error => ⟨[.error error], .ended⟩
  | .ok value => next value

end

def convert (action : StreamAction V) (item : Except action.Fault action.Item) :
    Code (Except Error V) :=
  match item with
  | .error fault => do return .error (← action.into fault)
  | .ok item => action.encode item

def teardown (action : StreamAction V) : Yielded V :=
  call action.afterCall fun _ => caught action.after fun _ => ⟨[], .ended⟩

def pollItems (action : StreamAction V) : List (Code (Except action.Fault action.Item)) → Yielded V
  | [] => teardown action
  | poll :: rest =>
    caught poll fun item => call (convert action item) fun result =>
      ⟨result :: (pollItems action rest).items, (pollItems action rest).fate⟩

def StreamAction.dispatch (action : StreamAction V) : Yielded V :=
  call action.beforeCall fun _ =>
  caught action.before fun guard => refuse guard fun _ =>
  call action.decode fun decoded => refuse decoded fun input =>
  call (action.validate input) fun checked => refuse checked fun _ =>
  call (action.run input) fun polls => pollItems action polls

structure Router (V P : Type) where
  actions : String → Option (P → Action V)
  streams : String → Option (P → StreamAction V)
  onError : Error → Error

inductive Event (V : Type) where
  | next (data : V)
  | error (error : Error)
  | finish

def Event.terminal : Event V → Bool
  | .next _ => false
  | _ => true

structure Frame (V : Type) where
  index : ℕ
  action : String
  event : Event V

def events (onError : Error → Error) (fate : Fate) : List (Except Error V) → Substream (Event V)
  | [] => if fate = .escaped then ⟨[], true⟩ else ⟨[.finish], false⟩
  | .ok data :: rest => ⟨.next data :: (events onError fate rest).frames,
      (events onError fate rest).escapes⟩
  | .error error :: _ => ⟨[.error (onError error)], false⟩

def streamEvents (router : Router V P) (stream : StreamAction V) : Substream (Event V) :=
  events router.onError stream.dispatch.fate stream.dispatch.items

def actionStream (router : Router V P) (index : ℕ) (entry : String × P) : Substream (Frame V) :=
  match router.streams entry.1 with
  | none => ⟨[⟨index, entry.1, .error (router.onError (notFound entry.1))⟩], false⟩
  | some stream =>
    let sub := streamEvents router (stream entry.2)
    ⟨sub.frames.map fun event => ⟨index, entry.1, event⟩, sub.escapes⟩

/-- The substreams `on_stream` merges, one for each entry of the payload. -/
def substreams (router : Router V P) (entries : List (String × P)) (i : ℕ) : Substream (Frame V) :=
  match entries[i]? with
  | some entry => actionStream router i entry
  | none => ⟨[], false⟩

def onStream (router : Router V P) (entries : List (String × P)) (schedule : List ℕ) :
    Merge (Frame V) :=
  run poll (start (substreams router entries)) schedule

/-- A frame of a duplex session: an item of a stream, a `result` without `more`, or `end`. -/
inductive Queued (V : Type) where
  | item (id : ℕ) (data : V)
  | result (id : ℕ) (result : Except Error V)
  | finish (id : ℕ)

def Queued.terminal : Queued V → Bool
  | .item _ _ => false
  | _ => true

def Queued.id : Queued V → ℕ
  | .item id _ => id
  | .result id _ => id
  | .finish id => id

def queue (id : ℕ) : Event V → Queued V
  | .next data => .item id data
  | .error error => .result id (.error error)
  | .finish => .finish id

def tooMany : Error := applicationError 429 "too many in-flight requests"

/-- What `spawn_call` queues for a call; `permit` says whether a task slot is free. -/
def spawnCall (router : Router V P) (permit : Bool) (id : ℕ) (entry : String × P) :
    List (Queued V) :=
  if permit then
    match router.actions entry.1 with
    | some action => [.result id ((action entry.2).dispatch.mapError router.onError)]
    | none =>
      match router.streams entry.1 with
      | some stream => (streamEvents router (stream entry.2)).frames.map (queue id)
      | none => [.result id (.error (router.onError (notFound entry.1)))]
  else [.result id (.error (router.onError tooMany))]

/-- One terminal frame, and nothing after it. -/
def Answered {F : Type} (terminal : F → Bool) (frames : List F) : Prop :=
  ∃ items last, frames = items ++ [last] ∧ terminal last = true ∧
    ∀ frame ∈ items, terminal frame = false

def UnaryAnswered (action : Action V) : Prop :=
  (runUnary action).run = .panics → action.dispatch = .error internal

/-- The stream ends, with an error as its last item if something panicked. -/
def StreamAnswered (yielded : Yielded V) : Prop :=
  yielded.fate ≠ .escaped ∧
    (yielded.fate = .caught → ∃ front, yielded.items = front ++ [.error internal])

section
variable {α : Type}

/-- The code does not panic, and what it returns meets `next`. -/
def Calls (code : Code α) (next : α → Prop) : Prop :=
  code ≠ .panics ∧ ∀ value, code = .returns value → next value

def Returned (code : Code α) (next : α → Prop) : Prop :=
  ∀ value, code = .returns value → next value

def Passed (result : Except Error α) (next : α → Prop) : Prop :=
  ∀ value, result = .ok value → next value

end

def PollsContained (action : StreamAction V) : List (Code (Except action.Fault action.Item)) → Prop
  | [] => action.afterCall ≠ .panics
  | poll :: rest => Returned poll fun item =>
    convert action item ≠ .panics ∧ PollsContained action rest

/-- No panic is reached in making the guard's future, decoding, validating, making the
stream, converting or encoding an item, or making the future of `after`. -/
def Contained (action : StreamAction V) : Prop :=
  Calls action.beforeCall fun _ =>
  Returned action.before fun guard => Passed guard fun _ =>
  Calls action.decode fun decoded => Passed decoded fun input =>
  Calls (action.validate input) fun checked => Passed checked fun _ =>
  Calls (action.run input) fun polls => PollsContained action polls

theorem unaryAnswered (action : Action V) : UnaryAnswered action := by
  intro h
  unfold Action.dispatch
  rw [h]

def CaughtLast (yielded : Yielded V) : Prop :=
  yielded.fate = .caught → ∃ front, yielded.items = front ++ [.error internal]

section
variable {α : Type} (good : Yielded V → Prop) (next : α → Yielded V) (contained : α → Prop)

theorem call_good (hescaped : ¬ good ⟨[], .escaped⟩) (code : Code α)
    (h : ∀ value, good (next value) ↔ contained value) :
    good (call code next) ↔ Calls code contained := by
  cases code with
  | panics => exact ⟨fun hgood => absurd hgood hescaped, fun hcalls => absurd rfl hcalls.1⟩
  | returns value =>
    refine (h value).trans ⟨fun hvalue => ⟨nofun, fun other heq => ?_⟩,
      fun hcalls => hcalls.2 value rfl⟩
    cases heq
    exact hvalue

theorem caught_good (hcaught : good ⟨[.error internal], .caught⟩) (code : Code α)
    (h : ∀ value, good (next value) ↔ contained value) :
    good (caught code next) ↔ Returned code contained := by
  cases code with
  | panics => exact ⟨nofun, fun _ => hcaught⟩
  | returns value =>
    refine (h value).trans ⟨fun hvalue other heq => ?_, fun hreturned => hreturned value rfl⟩
    cases heq
    exact hvalue

theorem refuse_good (hrefused : ∀ error, good ⟨[.error error], .ended⟩) (result : Except Error α)
    (h : ∀ value, good (next value) ↔ contained value) :
    good (refuse result next) ↔ Passed result contained := by
  cases result with
  | error error => exact ⟨nofun, fun _ => hrefused error⟩
  | ok value =>
    refine (h value).trans ⟨fun hvalue other heq => ?_, fun hpassed => hpassed value rfl⟩
    cases heq
    exact hvalue

end

section
variable {α : Type} {next : α → Yielded V}

theorem call_caughtLast (code : Code α) (h : ∀ value, CaughtLast (next value)) :
    CaughtLast (call code next) := by
  cases code with
  | panics => exact nofun
  | returns value => exact h value

theorem caught_caughtLast (code : Code α) (h : ∀ value, CaughtLast (next value)) :
    CaughtLast (caught code next) := by
  cases code with
  | panics => exact fun _ => ⟨[], rfl⟩
  | returns value => exact h value

theorem refuse_caughtLast (result : Except Error α) (h : ∀ value, CaughtLast (next value)) :
    CaughtLast (refuse result next) := by
  cases result with
  | error error => exact nofun
  | ok value => exact h value

end

theorem teardown_good (good : Yielded V → Prop) (hescaped : ¬ good ⟨[], .escaped⟩)
    (hcaught : good ⟨[.error internal], .caught⟩) (hended : good ⟨[], .ended⟩)
    (action : StreamAction V) : good (teardown action) ↔ action.afterCall ≠ .panics := by
  refine (call_good good _ _ hescaped action.afterCall fun _ =>
    caught_good good _ _ hcaught action.after fun _ => iff_of_true hended trivial).trans ?_
  exact ⟨fun hcalls => hcalls.1, fun hcall => ⟨hcall, fun _ _ _ _ => trivial⟩⟩

variable (id : ℕ) (onError : Error → Error) (fate : Fate) (items : List (Except Error V))
  (router : Router V P) (action : StreamAction V)

theorem teardown_caughtLast : CaughtLast (teardown action) :=
  call_caughtLast _ fun _ => caught_caughtLast _ nofun

theorem pollItems_fate (polls : List (Code (Except action.Fault action.Item))) :
    (pollItems action polls).fate ≠ .escaped ↔ PollsContained action polls := by
  induction polls with
  | nil =>
    exact teardown_good (fun yielded => yielded.fate ≠ .escaped) (fun h => h rfl)
      nofun nofun action
  | cons poll rest ih =>
    refine caught_good (fun yielded => yielded.fate ≠ .escaped) _ _ nofun poll
      fun item => ?_
    refine (call_good (fun yielded => yielded.fate ≠ .escaped) (fun result =>
      (⟨result :: (pollItems action rest).items, (pollItems action rest).fate⟩ : Yielded V))
      (fun _ => PollsContained action rest) (fun h => h rfl) (convert action item)
      fun _ => ih).trans ?_
    cases hitem : convert action item with
    | panics => exact ⟨fun hcalls => absurd rfl hcalls.1, fun h => absurd rfl h.1⟩
    | returns result =>
      exact ⟨fun hcalls => ⟨hcalls.1, hcalls.2 result rfl⟩, fun h => ⟨h.1, fun _ _ => h.2⟩⟩

theorem pollItems_caughtLast (polls : List (Code (Except action.Fault action.Item))) :
    CaughtLast (pollItems action polls) := by
  induction polls with
  | nil => exact teardown_caughtLast action
  | cons poll rest ih =>
    refine caught_caughtLast poll fun item => call_caughtLast _ fun result hcaught => ?_
    obtain ⟨front, hfront⟩ := ih hcaught
    exact ⟨result :: front, congrArg (List.cons result) hfront⟩

theorem dispatch_good (good : Yielded V → Prop) (hescaped : ¬ good ⟨[], .escaped⟩)
    (hcaught : good ⟨[.error internal], .caught⟩) (hrefused : ∀ error, good ⟨[.error error], .ended⟩)
    {action : StreamAction V} {contained : List (Code (Except action.Fault action.Item)) → Prop}
    (hpolls : ∀ polls, good (pollItems action polls) ↔ contained polls) :
    good action.dispatch ↔ Calls action.beforeCall fun _ =>
      Returned action.before fun guard => Passed guard fun _ =>
      Calls action.decode fun decoded => Passed decoded fun input =>
      Calls (action.validate input) fun checked => Passed checked fun _ =>
      Calls (action.run input) contained :=
  call_good good _ _ hescaped _ fun _ =>
    caught_good good _ _ hcaught _ fun guard => refuse_good good _ _ hrefused guard fun _ =>
    call_good good _ _ hescaped _ fun decoded => refuse_good good _ _ hrefused decoded fun _ =>
    call_good good _ _ hescaped _ fun checked => refuse_good good _ _ hrefused checked fun _ =>
    call_good good _ _ hescaped _ hpolls

theorem dispatch_fate : action.dispatch.fate ≠ .escaped ↔ Contained action :=
  dispatch_good (fun yielded => yielded.fate ≠ .escaped) (fun h => h rfl) nofun
    nofun (pollItems_fate action)

theorem dispatch_caughtLast : CaughtLast action.dispatch :=
  call_caughtLast _ fun _ => caught_caughtLast _ fun guard => refuse_caughtLast guard fun _ =>
    call_caughtLast _ fun decoded => refuse_caughtLast decoded fun _ =>
    call_caughtLast _ fun checked => refuse_caughtLast checked fun _ =>
    call_caughtLast _ fun polls => pollItems_caughtLast action polls

theorem streamAnswered_iff : StreamAnswered action.dispatch ↔ Contained action := by
  rw [← dispatch_fate]
  exact ⟨fun h => h.1, fun h => ⟨h, dispatch_caughtLast action⟩⟩

theorem answered_single {F : Type} (terminal : F → Bool) (frame : F)
    (h : terminal frame = true) : Answered terminal [frame] :=
  ⟨[], frame, rfl, h, nofun⟩

theorem events_answered_iff : Answered Event.terminal (events onError fate items).frames ↔
      (events onError fate items).escapes = false := by
  induction items with
  | nil =>
    unfold events
    split_ifs
    · refine iff_of_false ?_ nofun
      rintro ⟨front, last, hframes, -, -⟩
      exact append_ne_nil_of_right_ne_nil front (cons_ne_nil last []) hframes.symm
    · exact iff_of_true (answered_single _ _ rfl) rfl
  | cons item rest ih =>
    cases item with
    | error error => exact iff_of_true (answered_single _ _ rfl) rfl
    | ok data =>
      refine Iff.trans ⟨?_, ?_⟩ ih
      · rintro ⟨front, last, hframes, hlast, hfront⟩
        cases front with
        | nil =>
          injection hframes with hhead
          rw [← hhead] at hlast
          cases hlast
        | cons first front =>
          injection hframes with _ hframes
          exact ⟨front, last, hframes, hlast, fun event hin =>
            hfront event (mem_cons_of_mem _ hin)⟩
      · rintro ⟨front, last, hframes, hlast, hfront⟩
        refine ⟨.next data :: front, last, congrArg (List.cons _) hframes, hlast, ?_⟩
        intro event hin
        rcases mem_cons.mp hin with rfl | hin
        · rfl
        · exact hfront event hin

theorem events_quiet (hfate : fate ≠ .escaped) : (events onError fate items).escapes = false := by
  induction items with
  | nil =>
    unfold events
    rw [if_neg hfate]
  | cons item rest ih =>
    cases item with
    | error error => rfl
    | ok data => exact ih

theorem events_answered (hfate : fate ≠ .escaped) :
    Answered Event.terminal (events onError fate items).frames ∧
      (events onError fate items).escapes = false :=
  ⟨(events_answered_iff onError fate items).mpr (events_quiet onError fate items hfate),
    events_quiet onError fate items hfate⟩

theorem Answered.map {F G : Type} (terminal : F → Bool) (terminal' : G → Bool) (f : F → G)
    (hf : ∀ frame, terminal' (f frame) = terminal frame) (frames : List F)
    (h : Answered terminal frames) : Answered terminal' (frames.map f) := by
  obtain ⟨items, last, rfl, hlast, hitems⟩ := h
  refine ⟨items.map f, f last, by rw [map_append]; rfl, by rw [hf, hlast], ?_⟩
  intro frame hin
  obtain ⟨original, horiginal, rfl⟩ := mem_map.mp hin
  rw [hf, hitems original horiginal]

theorem queue_terminal (event : Event V) : (queue id event).terminal = event.terminal := by
  cases event with
  | next data | error error | finish => rfl

theorem queue_id (event : Event V) : (queue id event).id = id := by
  cases event with
  | next data | error error | finish => rfl

/-- Every stream action of that name, with these parameters, contains its panics. -/
def EntryContained (router : Router V P) (entry : String × P) : Prop :=
  ∀ stream, router.streams entry.1 = some stream → Contained (stream entry.2)

theorem spawnCall_answered (permit : Bool) (id : ℕ) {entry : String × P}
    (h : EntryContained router entry) :
    Answered Queued.terminal (spawnCall router permit id entry) ∧
      ∀ frame ∈ spawnCall router permit id entry, frame.id = id := by
  unfold spawnCall
  split_ifs
  · split
    · exact ⟨answered_single _ _ rfl, fun frame hin => by rw [mem_singleton.mp hin]; rfl⟩
    · split
      · next stream hstream =>
        have hfate := (dispatch_fate (stream entry.2)).mpr (h stream hstream)
        refine ⟨(events_answered router.onError _ _ hfate).1.map _ _ (queue id)
          (queue_terminal id) _, fun frame hin => ?_⟩
        obtain ⟨event, _, rfl⟩ := mem_map.mp hin
        exact queue_id id event
      · exact ⟨answered_single _ _ rfl, fun frame hin => by rw [mem_singleton.mp hin]; rfl⟩
  · exact ⟨answered_single _ _ rfl, fun frame hin => by rw [mem_singleton.mp hin]; rfl⟩

theorem actionStream_answered (index : ℕ) {entry : String × P} (h : EntryContained router entry) :
    Answered (fun frame => frame.event.terminal) (actionStream router index entry).frames ∧
      (actionStream router index entry).escapes = false := by
  unfold actionStream
  split
  · exact ⟨answered_single _ _ rfl, rfl⟩
  · next stream hstream =>
    have hfate := (dispatch_fate (stream entry.2)).mpr (h stream hstream)
    have hevents := events_answered router.onError _ (stream entry.2).dispatch.items hfate
    exact ⟨Answered.map _ (fun frame : Frame V => frame.event.terminal)
      (fun event => ⟨index, entry.1, event⟩) (fun _ => rfl) _ hevents.1, hevents.2⟩

/-- Each call of a batch has its one terminal frame once the merged stream is done. -/
def BatchAnswered (router : Router V P) (entries : List (String × P)) : Prop :=
  ∀ schedule, Complete (onStream router entries schedule) →
    (onStream router entries schedule).down = false ∧ ∀ i < entries.length,
      Answered (fun frame => frame.event.terminal)
        (fromSub (onStream router entries schedule).yielded i)

theorem batchAnswered {entries : List (String × P)}
    (h : ∀ entry ∈ entries, EntryContained router entry) : BatchAnswered router entries := by
  intro schedule hcomplete
  have hescapes : ∀ i, (substreams router entries i).escapes = false := by
    intro i
    unfold substreams
    split
    · next entry hentry =>
      exact (actionStream_answered router i (h entry (mem_of_getElem? hentry))).2
    · rfl
  obtain ⟨hdown, hframes⟩ := complete_frames _ schedule hescapes hcomplete
  refine ⟨hdown, fun i hi => ?_⟩
  have hsub := hframes i
  unfold onStream
  rw [hsub]
  unfold substreams
  rw [List.getElem?_eq_getElem hi]
  exact (actionStream_answered router i (h _ (getElem_mem hi))).1

/-- The dispatches of an entry's action end, and a duplex call of it queues one terminal
frame. -/
def CallAnswered (router : Router V P) (entry : String × P) : Prop :=
  (∀ action, router.actions entry.1 = some action → UnaryAnswered (action entry.2)) ∧
  (∀ stream, router.streams entry.1 = some stream → StreamAnswered (stream entry.2).dispatch) ∧
  ∀ permit id, Answered Queued.terminal (spawnCall router permit id entry) ∧
    ∀ frame ∈ spawnCall router permit id entry, frame.id = id

theorem calls_answered_iff (entries : List (String × P)) :
    ((∀ entry ∈ entries, CallAnswered router entry) ∧ BatchAnswered router entries) ↔
      ∀ entry ∈ entries, EntryContained router entry := by
  constructor
  · rintro ⟨hcalls, _⟩ entry hentry stream hstream
    exact (streamAnswered_iff _).mp ((hcalls entry hentry).2.1 stream hstream)
  · intro h
    refine ⟨fun entry hentry => ⟨fun action _ => unaryAnswered _, fun stream hstream => ?_,
      fun permit id => spawnCall_answered router permit id (h entry hentry)⟩,
      batchAnswered router h⟩
    exact (streamAnswered_iff _).mpr (h entry hentry stream hstream)

def brittleStream : StreamAction Unit where
  Input := Unit
  Item := Unit
  Fault := Error
  beforeCall := .returns ()
  before := .returns (.ok ())
  decode := .returns (.ok ())
  validate _ := .returns (.ok ())
  run _ := .returns [.returns (.ok ())]
  into error := .returns error
  encode _ := .panics
  afterCall := .returns ()
  after := .returns ()

def unreadableStream : StreamAction Unit := { brittleStream with decode := .panics }

def brittleRouter : Router Unit Unit where
  actions _ := none
  streams name :=
    if name = "feed" then some fun _ => brittleStream
    else if name = "search" then some fun _ => unreadableStream
    else none
  onError error := error

/-- Neither call is ever answered: no frame is queued, and the merged stream goes down. -/
theorem brittle_unanswered :
    ¬ StreamAnswered brittleStream.dispatch ∧ ¬ StreamAnswered unreadableStream.dispatch ∧
    (spawnCall brittleRouter true 7 ("feed", ())).length = 0 ∧
    (spawnCall brittleRouter true 8 ("search", ())).length = 0 ∧
    (onStream brittleRouter [("feed", ())] [0]).down = true ∧
    (onStream brittleRouter [("feed", ())] [0]).yielded.length = 0 :=
  ⟨fun h => h.1 rfl, fun h => h.1 rfl, by decide, by decide, by decide, by decide⟩

end Stakit.RouterPanics
