import Stakit.RouterGuards

set_option autoImplicit false

namespace Stakit.RouterGuards
open SerdeJson EntryMaps MergedStreams TransitionRuns List
open RouterRequests (Serde Error intoValue onRequest onRequestBorrowed readMap readPairs
  dispatchOneBorrowed collect parseArray asStr)

/-- What a hook can see of a call; `client` is there on a duplex session. -/
structure Cx (R K : Type) where
  req : R
  client : Option K

structure Router (serde : Serde) (R K : Type) where
  actions : String → Option (Action serde (Cx R K) (Value serde.Number))
  borrowActions : String → Option (Action serde (Cx R K) (List Char))
  streams : String → Option (StreamAction serde (Cx R K))
  onError : Error serde → Error serde

section
variable {serde : Serde} {R K : Type}

def Router.replies (router : Router serde R K) : RouterRequests.Router serde R where
  actions name := (router.actions name).map fun action req params =>
    action.dispatch ⟨req, none⟩ params
  borrowActions name := (router.borrowActions name).map fun action req params =>
    action.dispatch ⟨req, none⟩ params
  onError := router.onError

inductive Event (serde : Serde) where
  | next (data : Value serde.Number)
  | error (error : Error serde)
  | finish

structure Frame (serde : Serde) where
  index : ℕ
  action : String
  event : Event serde

def events (onError : Error serde → Error serde) (escaped : Bool) :
    List (Except (Error serde) (Value serde.Number)) → Substream (Event serde)
  | [] => if escaped then ⟨[], true⟩ else ⟨[.finish], false⟩
  | .ok data :: rest =>
    ⟨.next data :: (events onError escaped rest).frames, (events onError escaped rest).escapes⟩
  | .error error :: _ => ⟨[.error (onError error)], false⟩

def streamEvents (router : Router serde R K) (stream : StreamAction serde (Cx R K)) (cx : Cx R K)
    (params : Value serde.Number) : Substream (Event serde) :=
  events router.onError (stream.dispatch cx params).escaped (stream.dispatch cx params).items

def actionStream (router : Router serde R K) (req : R) (index : ℕ)
    (entry : String × Value serde.Number) : Substream (Frame serde) :=
  match router.streams entry.1 with
  | none =>
    ⟨[⟨index, entry.1, .error (router.onError (RouterRequests.notFound entry.1))⟩], false⟩
  | some stream =>
    let sub := streamEvents router stream ⟨req, none⟩ entry.2
    ⟨sub.frames.map fun event => ⟨index, entry.1, event⟩, sub.escapes⟩

def streamEntries : Value serde.Number → List (String × Value serde.Number)
  | .array items => parseArray items
  | .object entries => entries
  | _ => []

def substreams (router : Router serde R K) (req : R)
    (entries : List (String × Value serde.Number)) (i : ℕ) : Substream (Frame serde) :=
  match entries[i]? with
  | some entry => actionStream router req i entry
  | none => ⟨[], false⟩

def onStream (router : Router serde R K) (req : R) (payload : Value serde.Number)
    (schedule : List ℕ) : Merge (Frame serde) :=
  run poll (start (substreams router req (streamEntries payload))) schedule

/-- A frame of a session: an item of a stream, a `result` without `more`, or `end`. -/
inductive Queued (serde : Serde) where
  | item (id : ℕ) (data : Value serde.Number)
  | result (id : ℕ) (result : Except (Error serde) (Value serde.Number))
  | finish (id : ℕ)

def queue (id : ℕ) : Event serde → Queued serde
  | .next data => .item id data
  | .error error => .result id (.error error)
  | .finish => .finish id

def get (frame : Value serde.Number) (key : String) : Option (Value serde.Number) :=
  match frame with
  | .object fields => fields.lookup key
  | _ => none

def callName (frame : Value serde.Number) : String := ((get frame "action").bind asStr).getD ""

def callParams (frame : Value serde.Number) : Value serde.Number := (get frame "params").getD .null

def tooMany : Error serde := ⟨⟨429, "error", "too many in-flight requests"⟩, none, none, none⟩

/-- What `spawn_call` queues; `permit` says whether a task slot is free. -/
def spawnCall (router : Router serde R K) (cx : Cx R K) (permit : Bool) (id : ℕ)
    (frame : Value serde.Number) : List (Queued serde) :=
  if permit then
    match router.actions (callName frame) with
    | some action =>
      [.result id ((action.dispatch cx (callParams frame)).mapError router.onError)]
    | none =>
      match router.streams (callName frame) with
      | some stream => (streamEvents router stream cx (callParams frame)).frames.map (queue id)
      | none => [.result id (.error (router.onError (RouterRequests.notFound (callName frame))))]
  else [.result id (.error (router.onError tooMany))]

inductive Form where
  | object
  | array

/-- The calls `on_request_borrowed` reads out of a body of each form. -/
def callsOf : Form → List Char → Option (List (String × List Char))
  | .object, body => readMap body
  | .array, body => if (readMap body).isSome then none else readPairs body

def borrowedPieces (router : Router serde R K) (req : R) (name : String) (params : List Char) :
    List Piece :=
  match router.borrowActions name with
  | some action => (runUnary action ⟨req, none⟩ params).pieces
  | none =>
    match router.actions name with
    | some action =>
      match fromText serde.number params with
      | some value => (runUnary action ⟨req, none⟩ value).pieces
      | none => []
    | none => []

/-- The guards in front of what `on_request_borrowed` finds under a name. -/
def borrowedStack (router : Router serde R K) (name : String) : Option (Stack serde (Cx R K)) :=
  match router.borrowActions name with
  | some action => some action.hooks
  | none => (router.actions name).map Action.hooks

/-- The decoder, the validator, the body and the `after` hooks did not run. -/
def OnlyGuards (pieces : List Piece) : Prop := ∀ p ∈ pieces, ∃ level, p = .before level

/-- Two calls of an owned action that is refused, anywhere in a payload. -/
def RequestsAlike (router : Router serde R K) (req : R) (name : String) : Prop :=
  ∀ action, router.actions name = some action → Rejects action.hooks ⟨req, none⟩ →
    ∀ params params' : Value serde.Number,
    (∀ front back, onRequest router.replies req (.object (front ++ (name, params) :: back)) =
      onRequest router.replies req (.object (front ++ (name, params') :: back))) ∧
    (∀ front back,
      onRequest router.replies req (.array (front ++ .array [.string name, params] :: back)) =
      onRequest router.replies req (.array (front ++ .array [.string name, params'] :: back))) ∧
    OnlyGuards (runUnary action ⟨req, none⟩ params).pieces

/-- Two bodies that differ in the parameters of one call. -/
def BorrowedAlike (router : Router serde R K) (req : R) (name : String) (params params' : List Char)
    (body body' : List Char) : Prop :=
  ∀ stack, borrowedStack router name = some stack → Rejects stack ⟨req, none⟩ →
    onRequestBorrowed router.replies req body = onRequestBorrowed router.replies req body' ∧
    OnlyGuards (borrowedPieces router req name params) ∧
    OnlyGuards (borrowedPieces router req name params')

def StreamsAlike (router : Router serde R K) (req : R) (name : String) : Prop :=
  ∀ stream, router.streams name = some stream → Rejects stream.hooks ⟨req, none⟩ →
    ∀ params params' : Value serde.Number,
    (∀ front back schedule, onStream router req (.object (front ++ (name, params) :: back)) schedule =
      onStream router req (.object (front ++ (name, params') :: back)) schedule) ∧
    (∀ front back schedule,
      onStream router req (.array (front ++ .array [.string name, params] :: back)) schedule =
      onStream router req (.array (front ++ .array [.string name, params'] :: back)) schedule) ∧
    OnlyGuards (stream.dispatch ⟨req, none⟩ params).pieces

/-- Two `call` frames of one id that name the same action. -/
def CallsAlike (router : Router serde R K) (cx : Cx R K) (name : String) : Prop :=
  ∀ permit id (frame frame' : Value serde.Number), callName frame = name → callName frame' = name →
    (∀ action, router.actions name = some action → Rejects action.hooks cx →
      spawnCall router cx permit id frame = spawnCall router cx permit id frame' ∧
      OnlyGuards (runUnary action cx (callParams frame)).pieces) ∧
    (router.actions name = none → ∀ stream, router.streams name = some stream →
      Rejects stream.hooks cx →
      spawnCall router cx permit id frame = spawnCall router cx permit id frame' ∧
      OnlyGuards (stream.dispatch cx (callParams frame)).pieces)

/-- The body of an action runs only for an input that its guards and its validator let in. -/
def BodiesAdmitted (router : Router serde R K) (name : String) : Prop :=
  (∀ action, router.actions name = some action → ∀ cx params,
    .body ∈ (runUnary action cx params).pieces →
    Admitted action.hooks action.decode action.validate cx params) ∧
  (∀ action, router.borrowActions name = some action → ∀ cx params,
    .body ∈ (runUnary action cx params).pieces →
    Admitted action.hooks action.decode action.validate cx params) ∧
  (∀ stream, router.streams name = some stream → ∀ cx params,
    .body ∈ (stream.dispatch cx params).pieces →
    Admitted stream.hooks stream.decode stream.validate cx params)

def shown (router : Router serde R K) (error : Error serde) : Value serde.Number :=
  intoValue (.error (router.onError error))

/-- The text reads as a value, or its failure is shown as the guard's. -/
def Veiled (router : Router serde R K) (error : Error serde) (params : List Char) : Prop :=
  (fromText serde.number params).isSome = true ∨
    shown router (RouterRequests.decodeError params) = shown router error

/-- Parameters an owned action is called with through a body tell nothing apart: both
texts are veiled, or neither is and their failures are shown alike. -/
def Covered (router : Router serde R K) (req : R) (name : String) (params params' : List Char) :
    Prop :=
  router.borrowActions name = none → ∀ action, router.actions name = some action →
    Rejects action.hooks ⟨req, none⟩ → ∀ error, refusal action.hooks ⟨req, none⟩ = some error →
    (Veiled router error params ∧ Veiled router error params') ∨
    (¬ Veiled router error params ∧ ¬ Veiled router error params' ∧
      shown router (RouterRequests.decodeError params) =
        shown router (RouterRequests.decodeError params'))

variable (body : List Char) (router : Router serde R K) (error : Error serde) (req : R)
  (name : String)

theorem replies_actions :
    router.replies.actions name = (router.actions name).map fun action req params =>
      action.dispatch ⟨req, none⟩ params := rfl

theorem replies_borrowActions :
    router.replies.borrowActions name = (router.borrowActions name).map fun action req params =>
      action.dispatch ⟨req, none⟩ params := rfl

theorem dispatchOne_refused {action : Action serde (Cx R K) (Value serde.Number)}
    (params : Value serde.Number) {error : Error serde}
    (haction : router.actions name = some action)
    (hrefusal : refusal action.hooks ⟨req, none⟩ = some error) :
    RouterRequests.dispatchOne router.replies req name params = .error (router.onError error) := by
  unfold RouterRequests.dispatchOne
  rw [replies_actions, haction]
  dsimp only [Option.map_some]
  rw [(dispatch_refused action ⟨req, none⟩ params error hrefusal).2]
  rfl

theorem onlyGuards_refused {C P : Type} {action : Action serde C P} {cx : C} (params : P)
    {error : Error serde} (hrefusal : refusal action.hooks cx = some error) :
    OnlyGuards (runUnary action cx params).pieces := by
  rw [(dispatch_refused action cx params error hrefusal).1]
  exact before_pieces action.hooks cx

theorem onlyGuards_stream {C : Type} {stream : StreamAction serde C} {cx : C}
    (params : Value serde.Number) {error : Error serde}
    (hrefusal : refusal stream.hooks cx = some error) :
    OnlyGuards (stream.dispatch cx params).pieces := by
  rw [stream_refused stream cx params error hrefusal]
  exact before_pieces stream.hooks cx

theorem parseArray_slot (front back : List (Value serde.Number)) (name : String)
    (params : Value serde.Number) :
    parseArray (front ++ .array [.string name, params] :: back) =
      parseArray front ++ (name, params) :: parseArray back := by
  unfold parseArray
  rw [map_append, map_cons]
  rfl

theorem runAll_slot {router : RouterRequests.Router serde R} {req : R}
    (front back : List (String × Value serde.Number)) {name : String}
    {params params' : Value serde.Number}
    (hsame : RouterRequests.dispatchOne router req name params =
      RouterRequests.dispatchOne router req name params') :
    RouterRequests.runAll router req (front ++ (name, params) :: back) =
      RouterRequests.runAll router req (front ++ (name, params') :: back) := by
  unfold RouterRequests.runAll
  rw [map_append, map_append, map_cons, map_cons, hsame]

theorem requestsAlike : RequestsAlike router req name := by
  intro action haction hrejects params params'
  obtain ⟨error, hrefusal⟩ := refusal_of_rejects action.hooks _ hrejects
  have hsame : RouterRequests.dispatchOne router.replies req name params =
      RouterRequests.dispatchOne router.replies req name params' := by
    rw [dispatchOne_refused router req name params haction hrefusal,
      dispatchOne_refused router req name params' haction hrefusal]
  refine ⟨fun front back => ?_, fun front back => ?_, ?_⟩
  · rw [RouterRequests.onRequest_object, RouterRequests.onRequest_object,
      runAll_slot front back hsame]
  · change Value.array ((RouterRequests.runAll router.replies req (parseArray _)).map _) =
      Value.array ((RouterRequests.runAll router.replies req (parseArray _)).map _)
    rw [parseArray_slot, parseArray_slot, runAll_slot _ _ hsame]
  · exact onlyGuards_refused params hrefusal

theorem actionStream_refused (index : ℕ) {stream : StreamAction serde (Cx R K)}
    (params : Value serde.Number) {error : Error serde}
    (hstream : router.streams name = some stream)
    (hrefusal : refusal stream.hooks ⟨req, none⟩ = some error) :
    actionStream router req index (name, params) =
      ⟨[⟨index, name, .error (router.onError error)⟩], false⟩ := by
  unfold actionStream streamEvents
  dsimp only
  rw [hstream]
  dsimp only
  rw [stream_refused stream ⟨req, none⟩ params error hrefusal]
  rfl

theorem substreams_congr (front back : List (String × Value serde.Number))
    {entry entry' : String × Value serde.Number}
    (h : ∀ index, actionStream router req index entry = actionStream router req index entry') :
    substreams router req (front ++ entry :: back) =
      substreams router req (front ++ entry' :: back) := by
  funext i
  unfold substreams
  rcases Nat.lt_trichotomy i front.length with hlt | heq | hgt
  · rw [List.getElem?_append_left hlt, List.getElem?_append_left hlt]
  · rw [heq, List.getElem?_append_right (Nat.le_refl _), List.getElem?_append_right (Nat.le_refl _),
      Nat.sub_self]
    exact h front.length
  · obtain ⟨more, rfl⟩ := Nat.exists_eq_add_of_lt hgt
    rw [List.getElem?_append_right (by omega), List.getElem?_append_right (by omega),
      show front.length + more + 1 - front.length = more + 1 by omega]
    rfl

theorem streamsAlike : StreamsAlike router req name := by
  intro stream hstream hrejects params params'
  obtain ⟨error, hrefusal⟩ := refusal_of_rejects stream.hooks _ hrejects
  have hsame : ∀ index, actionStream router req index (name, params) =
      actionStream router req index (name, params') := by
    intro index
    rw [actionStream_refused router req name index params hstream hrefusal,
      actionStream_refused router req name index params' hstream hrefusal]
  refine ⟨fun front back schedule => ?_, fun front back schedule => ?_, ?_⟩
  · unfold onStream streamEntries
    rw [substreams_congr router req front back hsame]
  · unfold onStream streamEntries
    dsimp only
    rw [parseArray_slot, parseArray_slot, substreams_congr router req _ _ hsame]
  · exact onlyGuards_stream params hrefusal

theorem callsAlike (cx : Cx R K) (name : String) : CallsAlike router cx name := by
  intro permit id frame frame' hname hname'
  refine ⟨fun action haction hrejects => ?_, fun hnone stream hstream hrejects => ?_⟩
  · obtain ⟨error, hrefusal⟩ := refusal_of_rejects action.hooks cx hrejects
    refine ⟨?_, onlyGuards_refused _ hrefusal⟩
    unfold spawnCall
    rw [hname, hname', haction]
    dsimp only
    rw [(dispatch_refused action cx (callParams frame) error hrefusal).2,
      (dispatch_refused action cx (callParams frame') error hrefusal).2]
  · obtain ⟨error, hrefusal⟩ := refusal_of_rejects stream.hooks cx hrejects
    refine ⟨?_, onlyGuards_stream _ hrefusal⟩
    unfold spawnCall streamEvents
    rw [hname, hname', hnone, hstream]
    dsimp only
    rw [stream_refused stream cx (callParams frame) error hrefusal,
      stream_refused stream cx (callParams frame') error hrefusal]

theorem bodiesAdmitted : BodiesAdmitted router name :=
  ⟨fun action _ => body_admitted action, fun action _ => body_admitted action,
    fun stream _ => stream_body_admitted stream⟩

theorem readMap_nodup {calls : List (String × List Char)} (h : readMap body = some calls) :
    (calls.map Prod.fst).Nodup := by
  unfold readMap at h
  obtain ⟨found, _, h⟩ := Option.bind_eq_some_iff.mp h
  obtain ⟨raws, _, rfl⟩ := Option.map_eq_some_iff.mp h
  exact nodup_indexMap raws

theorem collect_slot (front back : List (String × RouterRequests.Reply serde)) (name : String)
    (reply reply' : RouterRequests.Reply serde)
    (hnames : ((front ++ (name, reply) :: back).map Prod.fst).Nodup) :
    collect (front ++ (name, reply) :: back) = collect (front ++ (name, reply') :: back) ↔
      intoValue reply = intoValue reply' := by
  unfold collect
  rw [map_append, map_append, map_cons, map_cons]
  refine ⟨fun h => ?_, fun h => by rw [h]⟩
  rw [map_append, map_cons] at hnames
  have hback : name ∉ back.map Prod.fst :=
    (nodup_cons.mp (List.Nodup.of_append_right hnames)).1
  have hlast : ∀ value : Value serde.Number,
      last (front.map (fun reply => (reply.1, intoValue reply.2)) ++
        (name, value) :: back.map (fun reply => (reply.1, intoValue reply.2))) name = some value := by
    intro value
    have hnone : last (back.map fun reply => (reply.1, intoValue reply.2)) name = none := by
      unfold last
      refine lookup_none_of_not_mem _ _ ?_
      rw [map_reverse, mem_reverse, map_map]
      exact hback
    rw [last_append, last_cons, hnone, if_pos rfl]
    rfl
  have hlookup := congrArg (fun fields => List.lookup name fields) (Value.object.inj h)
  dsimp only at hlookup
  rw [lookup_sortedMap, lookup_sortedMap, hlast, hlast] at hlookup
  exact Option.some.inj hlookup

theorem callsOf_array {calls : List (String × List Char)} (h : callsOf .array body = some calls) :
    readMap body = none ∧ readPairs body = some calls := by
  unfold callsOf at h
  dsimp only at h
  split_ifs at h with hmap
  exact ⟨Option.not_isSome_iff_eq_none.mp hmap, h⟩

/-- Two bodies that differ in one call are answered alike if that call is. -/
theorem borrowed_slot (router : RouterRequests.Router serde R) (req : R) {form : Form}
    {body body' : List Char} {front back : List (String × List Char)} {name : String}
    {params params' : List Char} (hbody : callsOf form body =
      some (front ++ (name, params) :: back))
    (hbody' : callsOf form body' = some (front ++ (name, params') :: back)) :
    onRequestBorrowed router req body = onRequestBorrowed router req body' ↔
      intoValue (dispatchOneBorrowed router req name params) =
        intoValue (dispatchOneBorrowed router req name params') := by
  unfold onRequestBorrowed
  cases form with
  | object =>
    have hread : readMap body = _ := hbody
    have hread' : readMap body' = _ := hbody'
    rw [hread, hread']
    dsimp only
    rw [map_append, map_append, map_cons, map_cons]
    refine collect_slot _ _ name _ _ ?_
    have hnames := readMap_nodup body hread
    rw [map_append, map_cons] at hnames ⊢
    rw [map_map, map_map]
    exact hnames
  | array =>
    obtain ⟨hmap, hpairs⟩ := callsOf_array body hbody
    obtain ⟨hmap', hpairs'⟩ := callsOf_array body' hbody'
    rw [hmap, hmap']
    dsimp only
    rw [hpairs, hpairs']
    dsimp only
    rw [map_append, map_append, map_cons, map_cons, Value.array.injEq,
      append_cancel_left_eq, List.cons.injEq]
    exact and_iff_left rfl

/-- What an owned action that refuses is answered with through a body. -/
theorem fallback_shown (action : Action serde (Cx R K) (Value serde.Number)) (params : List Char)
    (error : Error serde) (hborrow : router.borrowActions name = none)
    (haction : router.actions name = some action)
    (hrefusal : refusal action.hooks ⟨req, none⟩ = some error) :
    intoValue (dispatchOneBorrowed router.replies req name params) =
      if (fromText serde.number params).isSome then shown router error
      else shown router (RouterRequests.decodeError params) := by
  unfold dispatchOneBorrowed
  rw [replies_borrowActions, replies_actions, hborrow, haction]
  dsimp only [Option.map_none, Option.map_some]
  cases fromText serde.number params with
  | none => rfl
  | some value =>
    dsimp only
    rw [(dispatch_refused action ⟨req, none⟩ value error hrefusal).2]
    rfl

theorem veiled_iff (params : List Char) :
    Veiled router error params ↔ (if (fromText serde.number params).isSome then shown router error
      else shown router (RouterRequests.decodeError params)) = shown router error := by
  unfold Veiled
  split_ifs with hread
  · exact ⟨fun _ => rfl, fun _ => .inl hread⟩
  · exact ⟨fun h => h.resolve_left hread, .inr⟩

/-- The two texts are answered alike exactly when they are covered. -/
theorem fallback_alike_iff (params params' : List Char) :
    (if (fromText serde.number params).isSome then shown router error
      else shown router (RouterRequests.decodeError params)) =
    (if (fromText serde.number params').isSome then shown router error
      else shown router (RouterRequests.decodeError params')) ↔
    (Veiled router error params ∧ Veiled router error params') ∨
    (¬ Veiled router error params ∧ ¬ Veiled router error params' ∧
      shown router (RouterRequests.decodeError params) =
        shown router (RouterRequests.decodeError params')) := by
  have hunread : ∀ text, ¬ Veiled router error text →
      ¬ (fromText serde.number text).isSome = true := fun text h hread => h (.inl hread)
  by_cases hveiled : Veiled router error params
  · rw [(veiled_iff router error params).mp hveiled]
    refine ⟨fun h => .inl ⟨hveiled, (veiled_iff router error params').mpr h.symm⟩, ?_⟩
    rintro (⟨_, hveiled'⟩ | ⟨hnot, _⟩)
    · exact ((veiled_iff router error params').mp hveiled').symm
    · exact absurd hveiled hnot
  · rw [if_neg (hunread params hveiled)]
    by_cases hveiled' : Veiled router error params'
    · rw [(veiled_iff router error params').mp hveiled']
      refine ⟨fun h => absurd (.inr h) hveiled, ?_⟩
      rintro (⟨hin, _⟩ | ⟨_, hnot, _⟩)
      · exact absurd hin hveiled
      · exact absurd hveiled' hnot
    · rw [if_neg (hunread params' hveiled')]
      refine ⟨fun h => .inr ⟨hveiled, hveiled', h⟩, ?_⟩
      rintro (⟨hin, _⟩ | ⟨_, _, h⟩)
      · exact absurd hin hveiled
      · exact h

theorem borrowed_onlyGuards (params : List Char) {stack : Stack serde (Cx R K)}
    (hstack : borrowedStack router name = some stack) (hrejects : Rejects stack ⟨req, none⟩) :
    OnlyGuards (borrowedPieces router req name params) := by
  obtain ⟨error, hrefusal⟩ := refusal_of_rejects stack _ hrejects
  unfold borrowedStack at hstack
  unfold borrowedPieces
  cases hborrow : router.borrowActions name with
  | some action =>
    rw [hborrow] at hstack
    cases hstack
    exact onlyGuards_refused params hrefusal
  | none =>
    rw [hborrow] at hstack
    obtain ⟨action, haction, rfl⟩ := Option.map_eq_some_iff.mp hstack
    rw [haction]
    dsimp only
    cases fromText serde.number params with
    | none => exact nofun
    | some value => exact onlyGuards_refused value hrefusal

theorem borrowedAlike_iff {form : Form} {body body' : List Char}
    {front back : List (String × List Char)} {name : String} {params params' : List Char}
    (hbody : callsOf form body = some (front ++ (name, params) :: back))
    (hbody' : callsOf form body' = some (front ++ (name, params') :: back)) :
    BorrowedAlike router req name params params' body body' ↔
      Covered router req name params params' := by
  have hslot := borrowed_slot router.replies req
    hbody hbody'
  constructor
  · intro halike hborrow action haction hrejects error hrefusal
    have hstack : borrowedStack router name = some action.hooks := by
      unfold borrowedStack
      rw [hborrow, haction]
      rfl
    have hsame := hslot.mp (halike action.hooks hstack hrejects).1
    rw [fallback_shown router req name action params error hborrow haction hrefusal,
      fallback_shown router req name action params' error hborrow haction hrefusal] at hsame
    exact (fallback_alike_iff router error params params').mp hsame
  · intro hcovered stack hstack hrejects
    refine ⟨hslot.mpr ?_, borrowed_onlyGuards router req name params hstack hrejects,
      borrowed_onlyGuards router req name params' hstack hrejects⟩
    obtain ⟨error, hrefusal⟩ := refusal_of_rejects stack _ hrejects
    unfold borrowedStack at hstack
    cases hborrow : router.borrowActions name with
    | some action =>
      rw [hborrow] at hstack
      cases hstack
      unfold dispatchOneBorrowed
      rw [replies_borrowActions, hborrow]
      dsimp only [Option.map_some]
      rw [(dispatch_refused action ⟨req, none⟩ params error hrefusal).2,
        (dispatch_refused action ⟨req, none⟩ params' error hrefusal).2]
    | none =>
      rw [hborrow] at hstack
      obtain ⟨action, haction, rfl⟩ := Option.map_eq_some_iff.mp hstack
      rw [fallback_shown router req name action params error hborrow haction hrefusal,
        fallback_shown router req name action params' error hborrow haction hrefusal]
      exact (fallback_alike_iff router error params params').mpr
        (hcovered hborrow action haction hrejects error hrefusal)

theorem guards_leak_nothing_iff (client : K) (name : String) (form : Form)
    (body body' : List Char) (front back : List (String × List Char)) (params params' : List Char)
    (hbody : callsOf form body = some (front ++ (name, params) :: back))
    (hbody' : callsOf form body' = some (front ++ (name, params') :: back)) :
    (RequestsAlike router req name ∧ BorrowedAlike router req name params params' body body' ∧
      StreamsAlike router req name ∧ CallsAlike router ⟨req, some client⟩ name ∧
      BodiesAdmitted router name) ↔ Covered router req name params params' := by
  rw [← borrowedAlike_iff router req hbody hbody']
  refine ⟨fun h => h.2.1, fun h => ?_⟩
  exact ⟨requestsAlike router req name, h, streamsAlike router req name,
    callsAlike router ⟨req, some client⟩ name, bodiesAdmitted router name⟩

end

def adminOnly : Error RouterRequests.naturals :=
  ⟨⟨403, "error", "admin only"⟩, none, none, none⟩

/-- An action that echoes its parameters, inside a middleware that lets no one in. -/
def adminAction : Action RouterRequests.naturals (Cx Unit Unit) (Value ℕ) where
  Input := Value ℕ
  Output := Value ℕ
  Fault := Error RouterRequests.naturals
  hooks := .guarded (.action ⟨fun _ => .returns (.ok ()), fun _ => .returns ()⟩)
    ⟨fun _ => .returns (.error adminOnly), fun _ => .returns ()⟩
  decode params := .returns (.ok params)
  validate _ := .returns (.ok ())
  run _ params := .returns (.ok params)
  into error := .returns error
  encode output := .returns (.ok output)

def adminRouter : Router RouterRequests.naturals Unit Unit where
  actions name := if name = "admin" then some adminAction else none
  borrowActions _ := none
  streams _ := none
  onError error := error

def surrogateText : List Char := "\"\\ud800\"".toList

def surrogateBody : List Char := "\x7b\"admin\":\"\\ud800\"\x7d".toList

def nullBody : List Char := "\x7b\"admin\":null\x7d".toList

def trueBody : List Char := "\x7b\"admin\":true\x7d".toList

theorem admin_rejects (client : Option Unit) : Rejects adminAction.hooks ⟨(), client⟩ :=
  ⟨_, mem_cons_of_mem _ mem_cons_self, adminOnly, rfl⟩

theorem guards_leak_nothing_trueBody : callsOf .object nullBody = some [("admin", "null".toList)] ∧
    callsOf .object trueBody = some [("admin", "true".toList)] ∧
    Rejects adminAction.hooks ⟨(), none⟩ ∧
    RequestsAlike adminRouter () "admin" ∧
    BorrowedAlike adminRouter () "admin" "null".toList "true".toList nullBody trueBody ∧
    StreamsAlike adminRouter () "admin" ∧ CallsAlike adminRouter ⟨(), some ()⟩ "admin" ∧
    BodiesAdmitted adminRouter "admin" := by
  have hnull : callsOf .object nullBody = some [("admin", "null".toList)] := by decide +kernel
  have htrue : callsOf .object trueBody = some [("admin", "true".toList)] := by decide +kernel
  refine ⟨hnull, htrue, admin_rejects none, ?_⟩
  refine (guards_leak_nothing_iff adminRouter () () "admin" .object nullBody trueBody [] []
    "null".toList "true".toList hnull htrue).mpr ?_
  intro _ action _ _ error _
  exact .inl ⟨.inl (by decide +kernel), .inl (by decide +kernel)⟩

def errorCode (reply : Value RouterRequests.naturals.Number) : Option ℕ :=
  match (get reply "error").bind fun error => get error "code" with
  | some (.number code) => some code
  | _ => none

theorem admin_answer (body params : List Char) (hbody : readMap body = some [("admin", params)]) :
    onRequestBorrowed adminRouter.replies () body = .object [("admin",
      if (fromText RouterRequests.naturals.number params).isSome then shown adminRouter adminOnly
      else shown adminRouter (RouterRequests.decodeError params))] := by
  unfold onRequestBorrowed
  rw [hbody]
  change Value.object [("admin", intoValue _)] = _
  rw [fallback_shown adminRouter () "admin" adminAction params adminOnly rfl rfl rfl]

/-- A caller the guard refuses learns that a lone surrogate was not read. -/
theorem surrogate_seen_past_guard :
    adminRouter.actions "admin" = some adminAction ∧ Rejects adminAction.hooks ⟨(), none⟩ ∧
    callsOf .object nullBody = some [("admin", "null".toList)] ∧
    callsOf .object surrogateBody = some [("admin", surrogateText)] ∧
    onRequestBorrowed adminRouter.replies () nullBody =
      .object [("admin", intoValue (.error adminOnly))] ∧
    onRequestBorrowed adminRouter.replies () surrogateBody =
      .object [("admin", intoValue (.error (RouterRequests.decodeError surrogateText)))] ∧
    ¬ BorrowedAlike adminRouter () "admin" "null".toList surrogateText nullBody surrogateBody := by
  have hnull : callsOf .object nullBody = some [("admin", "null".toList)] := by decide +kernel
  have hsurrogate : callsOf .object surrogateBody = some [("admin", surrogateText)] := by
    decide +kernel
  have hanswer := admin_answer nullBody "null".toList hnull
  have hanswer' := admin_answer surrogateBody surrogateText hsurrogate
  rw [if_pos (by decide +kernel)] at hanswer
  rw [if_neg (by decide +kernel)] at hanswer'
  refine ⟨rfl, admin_rejects none, hnull, hsurrogate, hanswer, hanswer', fun halike => ?_⟩
  have hsame := (halike adminAction.hooks rfl (admin_rejects none)).1
  rw [hanswer, hanswer', Value.object.injEq, List.cons.injEq, Prod.mk.injEq] at hsame
  have hcode := congrArg errorCode hsame.1.2
  revert hcode
  decide +kernel

end Stakit.RouterGuards
