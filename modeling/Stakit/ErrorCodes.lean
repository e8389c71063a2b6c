import Stakit.RouterGuardReplies
import Stakit.TransportRoundTrips

set_option autoImplicit false

namespace Stakit.ErrorCodes
open SerdeJson EntryMaps MergedStreams TransitionRuns List
open RouterRequests (Serde Error errorValue dispatchOne dispatchOneBorrowed notFound)
open RouterGuards
open RouterTransports (Field serializeStruct errorStruct errorToValue toMap messageEntries)

/-- `char::is_uppercase` and `char::is_lowercase`. -/
structure Letters where
  isUppercase : Char → Bool
  isLowercase : Char → Bool

structure Attrs where
  status : ℕ
  code : Option String
  message : Option String

/-- A variant of an enum, or a whole struct. -/
structure Variant where
  ident : String
  attrs : Attrs

section
variable (letters : Letters)

/-- Whether an underscore stands before a character, by the ones around it. -/
def breaksBefore (previous : Option Char) (c : Char) (next : Option Char) : Bool :=
  match previous with
  | none => false
  | some previous =>
    letters.isUppercase c && (letters.isLowercase previous ||
      (letters.isUppercase previous && next.any letters.isLowercase))

def snakeFrom : Option Char → List Char → List Char
  | _, [] => []
  | previous, c :: rest =>
    (if breaksBefore letters previous c rest.head? then ['_'] else []) ++
      c.toLower :: snakeFrom (some c) rest

def snakeCase (ident : String) : String := String.ofList (snakeFrom letters none ident.toList)

def codeString (variant : Variant) : String :=
  variant.attrs.code.getD (snakeCase letters variant.ident)

def errorCodes (variants : List Variant) : List String := variants.map (codeString letters)

variable {serde : Serde}

/-- `From<E: ResponseError>`; a server error keeps its text to itself. -/
def fromResponseError (variant : Variant) (display : Outcome String) : Outcome (Error serde) :=
  match decide (500 ≤ variant.attrs.status), variant.attrs.message, display with
  | true, _, .returns text =>
    .returns ⟨⟨variant.attrs.status, codeString letters variant, "internal server error"⟩,
      none, none, some text⟩
  | false, some message, _ =>
    .returns ⟨⟨variant.attrs.status, codeString letters variant, message⟩, none, none, none⟩
  | false, none, .returns text =>
    .returns ⟨⟨variant.attrs.status, codeString letters variant, text⟩, none, none, none⟩
  | _, _, .panics message => .panics message

def Derives {φ : Type} (variants : List Variant) (into : φ → Outcome (Error serde)) : Prop :=
  ∃ (variant : φ → Variant) (display : φ → Outcome String), (∀ fault, variant fault ∈ variants) ∧
      ∀ fault, into fault = fromResponseError letters (variant fault) (display fault)

theorem fromResponseError_kind {variant : Variant} {display : Outcome String} {error : Error serde}
    (h : fromResponseError letters variant display = .returns error) :
    error.kind = codeString letters variant := by
  unfold fromResponseError at h
  split at h
  all_goals
    cases h
    try rfl

theorem Derives.kind {φ : Type} {variants : List Variant} {into : φ → Outcome (Error serde)}
    (hderives : Derives letters variants into) (fault : φ) (error : Error serde)
    (h : into fault = .returns error) : error.kind ∈ errorCodes letters variants := by
  obtain ⟨variant, display, hin, hinto⟩ := hderives
  rw [hinto] at h
  rw [fromResponseError_kind letters h]
  exact mem_map_of_mem (hin fault)

end

def builtinErrorCodes : List String :=
  ["error", "bad_request", "not_found", "validation", "internal"]

def routerKinds : List String := ["bad_request", "not_found", "validation", "internal"]

/-- The error types the registered actions were declared with. -/
structure Signatures where
  actions : List (String × List Variant)
  borrowActions : List (String × List Variant)
  streams : List (String × List Variant)

/-- The members of `ErrorCode`. -/
def errorUnion (letters : Letters) (signatures : Signatures) : List String :=
  builtinErrorCodes ++
    (signatures.actions ++ signatures.borrowActions ++ signatures.streams).flatMap fun entry =>
      errorCodes letters entry.2

section
variable {serde : Serde} {R K : Type}

/-- Every action's error type derives `ResponseError`. -/
structure Typed (letters : Letters) (signatures : Signatures) (router : Router serde R K) :
    Prop where
  actions : ∀ name action, router.actions name = some action →
    ∃ variants, (name, variants) ∈ signatures.actions ∧ Derives letters variants action.into
  borrowActions : ∀ name action, router.borrowActions name = some action →
    ∃ variants, (name, variants) ∈ signatures.borrowActions ∧ Derives letters variants action.into
  streams : ∀ name stream, router.streams name = some stream →
    ∃ variants, (name, variants) ∈ signatures.streams ∧ Derives letters variants stream.into

/-- The values a TypeScript `Record<string, string[]>` admits. -/
def IsMessages (value : Value serde.Number) : Prop :=
  ∃ entries, value = .object entries ∧ ∀ key found, entries.lookup key = some found →
      ∃ texts : List String, found = .array (texts.map .string)

/-- The values the generated interface `ResponseError` admits. -/
structure Inhabits (codes : List String) (value : Value serde.Number) : Prop where
  code : ∃ number, get value "code" = some (.number number)
  type : ∃ kind ∈ codes, get value "type" = some (.string kind)
  message : ∃ text, get value "message" = some (.string text)
  fields : ∀ fields, get value "fields" = some fields → IsMessages fields

def Narrows (codes : List String) (kind : String) : Prop := kind ≠ "error" ∧ kind ∈ codes

instance (codes : List String) (kind : String) : Decidable (Narrows codes kind) :=
  inferInstanceAs (Decidable (_ ∧ _))

theorem narrows_builtin (letters : Letters) (signatures : Signatures) (kind : String)
    (hin : kind ∈ routerKinds) :
    Narrows (errorUnion letters signatures) kind := by
  refine ⟨?_, mem_append_left _ (mem_cons_of_mem _ hin)⟩
  rintro rfl
  exact absurd hin (by decide)

theorem mem_errorUnion {φ : Type} {letters : Letters} (signatures : Signatures)
    (entries : List (String × List Variant)) {name : String} {into : φ → Outcome (Error serde)}
    (hentries : entries ⊆ signatures.actions ++ signatures.borrowActions ++ signatures.streams)
    (hderives : ∃ variants, (name, variants) ∈ entries ∧ Derives letters variants into)
    (fault : φ) (error : Error serde) (hinto : into fault = .returns error) :
    error.kind ∈ errorUnion letters signatures := by
  obtain ⟨variants, hin, hderives⟩ := hderives
  refine mem_append_right _ (mem_flatMap.mpr ⟨(name, variants), hentries hin, ?_⟩)
  exact hderives.kind letters fault error hinto

theorem Typed.action {letters : Letters} {signatures : Signatures} {router : Router serde R K}
    (htyped : Typed letters signatures router) (name : String)
    (action : Action serde (Cx R K) (Value serde.Number))
    (haction : router.actions name = some action) :
    ∀ fault error, action.into fault = .returns error → error.kind ∈ errorUnion letters signatures :=
  mem_errorUnion signatures _
    (fun _ hin => mem_append_left _ (mem_append_left _ hin))
    (htyped.actions name action haction)

theorem Typed.borrowAction {letters : Letters} {signatures : Signatures}
    {router : Router serde R K} (htyped : Typed letters signatures router) {name : String}
    {action : Action serde (Cx R K) (List Char)}
    (haction : router.borrowActions name = some action) :
    ∀ fault error, action.into fault = .returns error → error.kind ∈ errorUnion letters signatures :=
  mem_errorUnion signatures _
    (fun _ hin => mem_append_left _ (mem_append_right _ hin))
    (htyped.borrowActions name action haction)

theorem Typed.stream {letters : Letters} {signatures : Signatures} {router : Router serde R K}
    (htyped : Typed letters signatures router) (name : String)
    (stream : StreamAction serde (Cx R K)) (hstream : router.streams name = some stream) :
    ∀ fault error, stream.into fault = .returns error → error.kind ∈ errorUnion letters signatures :=
  mem_errorUnion signatures _
    (fun _ hin => mem_append_right _ hin) (htyped.streams name stream hstream)

/-- An error object, by how a map is written: sorted by `to_value`, in its own order by
the text of a stream. -/
def errorObject (object : Entries String (Value serde.Number) → Value serde.Number)
    (error : Error serde) : Value serde.Number :=
  object (serializeStruct (errorStruct object error))

structure Faithful (object : Entries String (Value serde.Number) → Value serde.Number) :
    Prop where
  get : ∀ entries, (entries.map Prod.fst).Nodup →
    ∀ key, get (object entries) key = entries.lookup key
  messages : ∀ fields, IsMessages (object (messageEntries fields))

theorem mem_messages (fields : List (String × List String)) (key : String)
    (found : Value serde.Number) (hin : (key, found) ∈ messageEntries fields) :
    ∃ texts : List String, found = .array (texts.map .string) := by
  obtain ⟨field, _, hfield⟩ := mem_map.mp hin
  cases hfield
  exact ⟨field.2, rfl⟩

theorem faithful_object : Faithful (.object : Entries String (Value serde.Number) → _) where
  get _ _ _ := rfl
  messages fields :=
    ⟨_, rfl, fun key found h => mem_messages fields key found (mem_of_lookup h)⟩

theorem faithful_toMap : Faithful (toMap : Entries String (Value serde.Number) → _) where
  get entries hnodup key := by
    change (sortedMap entries).lookup key = _
    rw [lookup_sortedMap, last_of_nodup entries hnodup]
  messages fields := by
    refine ⟨_, rfl, fun key found h => mem_messages fields key found ?_⟩
    rw [lookup_sortedMap] at h
    exact mem_reverse.mp (mem_of_lookup h)

theorem inhabits_iff (codes : List String)
    {object : Entries String (Value serde.Number) → Value serde.Number}
    (hobject : Faithful object) (error : Error serde) :
    Inhabits codes (errorObject object error) ↔ Narrows codes error.kind := by
  have hkeys := RouterTransports.errorStruct_keys object error
  have hnodup := RouterTransports.serializeStruct_nodup hkeys
  have hget : ∀ field ∈ errorStruct object error,
      get (errorObject object error) field.key = field.value := by
    intro field hfield
    unfold errorObject
    rw [hobject.get _ hnodup, ← last_of_nodup _ hnodup]
    exact RouterTransports.last_serializeStruct hkeys hfield
  simp only [errorStruct, forall_mem_cons] at hget
  obtain ⟨hcode, htype, hmessage, hfields, _⟩ := hget
  by_cases hkind : error.kind = "error"
  · rw [RouterTransports.isDefaultKind, hkind] at htype
    refine iff_of_false (fun h => ?_) fun h => h.1 hkind
    obtain ⟨kind, _, hsent⟩ := h.type
    rw [htype] at hsent
    cases hsent
  · rw [RouterTransports.isDefaultKind, decide_eq_false hkind] at htype
    constructor
    · intro h
      obtain ⟨kind, hin, hsent⟩ := h.type
      rw [htype] at hsent
      cases hsent
      exact ⟨hkind, hin⟩
    · intro h
      refine ⟨⟨_, hcode⟩, ⟨error.kind, h.2, htype⟩, ⟨_, hmessage⟩, fun fields hsent => ?_⟩
      rw [hfields] at hsent
      obtain ⟨found, _, rfl⟩ := Option.map_eq_some_iff.mp hsent
      exact hobject.messages found

theorem inhabits_errorValue (codes : List String) (error : Error serde) :
    Inhabits codes (errorValue error) ↔ Narrows codes error.kind := by
  rw [RouterTransports.errorValue_eq]
  exact inhabits_iff codes faithful_toMap error

variable {C P : Type}

def BodyFails (action : Action serde C P) (cx : C) (params : P) (error : Error serde) : Prop :=
  ∃ input fault, (action.hooks.before cx).outcome = .returns (.ok ()) ∧
    action.decode params = .returns (.ok input) ∧ action.validate input = .returns (.ok ()) ∧
    action.run cx input = .returns (.error fault) ∧ action.into fault = .returns error ∧
    (action.hooks.after cx).outcome = .returns ()

/-- The user code of a call says nothing a client cannot narrow on: a guard refuses with
a kind the union has, and no error of the body has the default code. -/
structure Plain (codes : List String) (action : Action serde C P) (cx : C) (params : P) :
    Prop where
  guard : ∀ error, (action.hooks.before cx).outcome = .returns (.error error) →
    Narrows codes error.kind
  body : ∀ error, BodyFails action cx params error → error.kind ≠ "error"

/-- What a run inside `catch_unwind` answers. -/
def settled {α : Type} (ran : Ran (Except (Error serde) α)) : Except (Error serde) α :=
  match ran.outcome with
  | .returns result => result
  | .panics message => .error (panicked message)

theorem internal_router (detail : String) :
    (internalError detail : Error serde).kind ∈ routerKinds := by
  change "internal" ∈ routerKinds
  decide

variable {α : Type} (action : Action serde C P) (stream : StreamAction serde C) (cx : C)
  (params : Value serde.Number) (polls : List (Outcome (Except stream.Fault stream.Item)))
  (error : Error serde)

theorem settled_follow {β : Type} (first : Ran α) (next : α → Ran (Except (Error serde) β))
    (error : Error serde) : settled (follow first next) = .error error ↔
      (∃ message, first.outcome = .panics message ∧ error = panicked message) ∨
      ∃ value, first.outcome = .returns value ∧ settled (next value) = .error error := by
  unfold settled follow
  cases first.outcome with
  | panics message =>
    constructor
    · intro h
      cases h
      exact .inl ⟨message, rfl, rfl⟩
    · rintro (⟨other, hother, rfl⟩ | ⟨value, hvalue, _⟩)
      · cases hother
        rfl
      · cases hvalue
  | returns value =>
    constructor
    · exact fun h => .inr ⟨value, rfl, h⟩
    · rintro (⟨message, hmessage, _⟩ | ⟨other, hother, h⟩)
      · cases hmessage
      · cases hother
        exact h

theorem settled_check {β : Type} (first : Ran (Except (Error serde) α))
    (next : α → Ran (Except (Error serde) β)) (error : Error serde) :
    settled (check first next) = .error error ↔ settled first = .error error ∨
      ∃ value, first.outcome = .returns (.ok value) ∧ settled (next value) = .error error := by
  unfold check
  rw [settled_follow]
  unfold settled
  cases first.outcome with
  | panics message =>
    constructor
    · rintro (⟨other, hother, rfl⟩ | ⟨result, hresult, _⟩)
      · cases hother
        exact .inl rfl
      · cases hresult
    · rintro (h | ⟨value, hvalue, _⟩)
      · cases h
        exact .inl ⟨message, rfl, rfl⟩
      · cases hvalue
  | returns result =>
    cases result with
    | error other =>
      constructor
      · rintro (⟨message, hmessage, _⟩ | ⟨result, hresult, h⟩)
        · cases hmessage
        · cases hresult
          cases h
          exact .inl rfl
      · rintro (h | ⟨value, hvalue, _⟩)
        · cases h
          exact .inr ⟨_, rfl, rfl⟩
        · cases hvalue
    | ok value =>
      constructor
      · rintro (⟨message, hmessage, _⟩ | ⟨result, hresult, h⟩)
        · cases hmessage
        · cases hresult
          exact .inr ⟨value, rfl, h⟩
      · rintro (h | ⟨other, hother, h⟩)
        · cases h
        · cases hother
          exact .inr ⟨_, rfl, h⟩

theorem settled_mapError {ε : Type} {pieces : List Piece} (f : ε → Error serde)
    (hf : ∀ e, (f e).kind ∈ routerKinds) {outcome : Outcome (Except ε α)} {error : Error serde}
    (h : settled ⟨pieces, outcome.mapError f⟩ = .error error) : error.kind ∈ routerKinds := by
  cases outcome with
  | panics message =>
    cases h
    change "internal" ∈ routerKinds
    decide
  | returns result =>
    cases result with
    | ok value => cases h
    | error e =>
      cases h
      exact hf e

theorem dispatch_guard (params : P) {error : Error serde}
    (h : (action.hooks.before cx).outcome = .returns (.error error)) :
    action.dispatch cx params = .error error :=
  (dispatch_refused action cx params error (by unfold refusal; rw [h])).2

theorem dispatch_eq (params : P) :
    action.dispatch cx params = settled (runUnary action cx params) := by
  unfold Action.dispatch settled
  cases (runUnary action cx params).outcome <;> rfl

theorem settled_converted {φ α : Type} (into : φ → Outcome (Error serde)) (result : Except φ α)
    (next : Except (Error serde) α → Ran (Except (Error serde) (Value serde.Number)))
    (error : Error serde) :
    settled (follow (converted into result) next) = .error error ↔
      (∃ fault message, result = .error fault ∧ into fault = .panics message ∧
        error = panicked message) ∨
      (∃ fault found, result = .error fault ∧ into fault = .returns found ∧
        settled (next (.error found)) = .error error) ∨
      ∃ value, result = .ok value ∧ settled (next (.ok value)) = .error error := by
  rw [settled_follow]
  cases result with
  | ok value => simp [converted]
  | error fault =>
    unfold converted
    cases hinto : into fault <;> simp [hinto]

theorem dispatch_error {params : P} {error : Error serde}
    (h : action.dispatch cx params = .error error) :
    (action.hooks.before cx).outcome = .returns (.error error) ∨
      BodyFails action cx params error ∨ error.kind ∈ routerKinds := by
  rw [dispatch_eq] at h
  unfold runUnary at h
  rcases (settled_check _ _ _).mp h with h | ⟨_, hbefore, h⟩
  · unfold settled at h
    split at h
    next result hresult =>
      rw [h] at hresult
      exact .inl hresult
    next message hmessage =>
      cases h
      exact .inr (.inr (internal_router _))
  refine .inr ?_
  rcases (settled_check _ _ _).mp h with h | ⟨input, hdecode, h⟩
  · exact .inr (settled_mapError decodeError (fun _ => by simp [routerKinds, decodeError]) h)
  have hinput := mapError_ok hdecode
  rcases (settled_check _ _ _).mp h with h | ⟨_, hvalidate, h⟩
  · exact .inr (settled_mapError validationError
      (fun _ => by simp [routerKinds, validationError]) h)
  have hvalid := mapError_ok hvalidate
  rcases (settled_follow _ _ _).mp h with ⟨message, _, rfl⟩ | ⟨result, hrun, h⟩
  · exact .inr (internal_router _)
  rcases (settled_converted _ _ _ _).mp h with
    ⟨_, message, _, _, rfl⟩ | ⟨fault, found, rfl, hinto, hfailed⟩ | ⟨output, rfl, hworked⟩
  · exact .inr (internal_router _)
  · rcases (settled_follow _ _ _).mp hfailed with ⟨message, _, rfl⟩ | ⟨_, hafter, hfound⟩
    · exact .inr (internal_router _)
    · cases hfound
      exact .inl ⟨input, fault, hbefore, hinput, hvalid, hrun, hinto, hafter⟩
  · rcases (settled_follow _ _ _).mp hworked with ⟨message, _, rfl⟩ | ⟨_, _, hencode⟩
    · exact .inr (internal_router _)
    · rcases (settled_check _ _ _).mp hencode with hnone | ⟨value, _, hvalue⟩
      · cases hnone
      · exact .inr (settled_mapError encodeError (fun _ => internal_router _) hvalue)

theorem dispatch_body {params : P} {error : Error serde} (h : BodyFails action cx params error) :
    action.dispatch cx params = .error error := by
  obtain ⟨input, fault, hbefore, hdecode, hvalidate, hrun, hinto, hafter⟩ := h
  rw [dispatch_eq]
  unfold runUnary
  refine (settled_check _ _ _).mpr (.inr ⟨(), hbefore, ?_⟩)
  refine (settled_check _ _ _).mpr (.inr ⟨input, ?_, ?_⟩)
  · rw [hdecode]
    rfl
  refine (settled_check _ _ _).mpr (.inr ⟨(), ?_, ?_⟩)
  · rw [hvalidate]
    rfl
  refine (settled_follow _ _ _).mpr (.inr ⟨.error fault, hrun, ?_⟩)
  refine (settled_converted _ _ _ _).mpr (.inr (.inl ⟨fault, error, rfl, hinto, ?_⟩))
  refine (settled_follow _ _ _).mpr (.inr ⟨(), hafter, ?_⟩)
  exact (settled_check _ _ _).mpr (.inl rfl)

/-- A call answers with an error a client can narrow on exactly when its user code is plain. -/
theorem dispatch_narrows_iff {letters : Letters} {signatures : Signatures}
    {action : Action serde C P} (cx : C) (params : P)
    (hcodes : ∀ fault error, action.into fault = .returns error →
      error.kind ∈ errorUnion letters signatures) :
    (∀ error, action.dispatch cx params = .error error →
        Narrows (errorUnion letters signatures) error.kind) ↔
      Plain (errorUnion letters signatures) action cx params := by
  constructor
  · intro h
    refine ⟨fun error hguard => h error (dispatch_guard action cx params hguard), ?_⟩
    exact fun error hbody => (h error (dispatch_body action cx hbody)).1
  · intro hplain error herror
    rcases dispatch_error action cx herror with hguard | hbody | hkind
    · exact hplain.guard error hguard
    · refine ⟨hplain.body error hbody, ?_⟩
      obtain ⟨_, fault, _, _, _, _, hinto, _⟩ := hbody
      exact hcodes fault error hinto
    · exact narrows_builtin letters signatures error.kind hkind

def EndsWith (items : List (Except (Error serde) (Value serde.Number))) (error : Error serde) :
    Prop :=
  ∃ (front : List (Value serde.Number)) (back : List (Except (Error serde) (Value serde.Number))),
    items = front.map .ok ++ .error error :: back

def PollFails (stream : StreamAction serde C)
    (polls : List (Outcome (Except stream.Fault stream.Item))) (error : Error serde) : Prop :=
  ∃ (front : List stream.Item) (fault : stream.Fault)
      (back : List (Outcome (Except stream.Fault stream.Item))),
    polls = front.map (fun item => .returns (.ok item)) ++ .returns (.error fault) :: back ∧
    (∀ item ∈ front, ∃ data, stream.encode item = .returns (.ok data)) ∧
    stream.into fault = .returns error

def StreamFails (stream : StreamAction serde C) (cx : C) (params : Value serde.Number)
    (error : Error serde) : Prop :=
  ∃ input polls, (stream.hooks.before cx).outcome = .returns (.ok ()) ∧
    stream.decode params = .returns (.ok input) ∧ stream.validate input = .returns (.ok ()) ∧
    stream.run cx input = .returns polls ∧ PollFails stream polls error

structure PlainStream (codes : List String) (stream : StreamAction serde C) (cx : C)
    (params : Value serde.Number) : Prop where
  guard : ∀ error, (stream.hooks.before cx).outcome = .returns (.error error) →
    Narrows codes error.kind
  body : ∀ error, StreamFails stream cx params error → error.kind ≠ "error"

theorem endsWith_cons_ok (data : Value serde.Number)
    (items : List (Except (Error serde) (Value serde.Number))) (error : Error serde) :
    EndsWith (.ok data :: items) error ↔ EndsWith items error := by
  constructor
  · rintro ⟨front, back, h⟩
    cases front with
    | nil => cases h
    | cons first front =>
      rw [map_cons, cons_append, List.cons.injEq] at h
      exact ⟨front, back, h.2⟩
  · rintro ⟨front, back, rfl⟩
    exact ⟨data :: front, back, rfl⟩

theorem endsWith_cons_error (first : Error serde)
    (items : List (Except (Error serde) (Value serde.Number))) (error : Error serde) :
    EndsWith (.error first :: items) error ↔ first = error := by
  constructor
  · rintro ⟨front, back, h⟩
    cases front with
    | nil =>
      rw [map_nil, nil_append, List.cons.injEq, Except.error.injEq] at h
      exact h.1
    | cons first front => cases h
  · rintro rfl
    exact ⟨[], items, rfl⟩

theorem not_endsWith_nil :
    ¬ EndsWith ([] : List (Except (Error serde) (Value serde.Number))) error := by
  rintro ⟨front, back, h⟩
  simp at h

theorem mem_events (onError : Error serde → Error serde) (escaped : Bool)
    (items : List (Except (Error serde) (Value serde.Number))) (error : Error serde) :
    .error error ∈ (events onError escaped items).frames ↔
      ∃ found, EndsWith items found ∧ error = onError found := by
  induction items with
  | nil =>
    have hnone : (Event.error error : Event serde) ∉ (events onError escaped []).frames := by
      unfold events
      cases escaped <;> simp
    refine iff_of_false hnone ?_
    rintro ⟨found, h, _⟩
    exact not_endsWith_nil found h
  | cons item items ih =>
    cases item with
    | ok data =>
      simp only [events, mem_cons, reduceCtorEq, false_or, ih, endsWith_cons_ok]
    | error first =>
      simp only [events, mem_singleton, Event.error.injEq, endsWith_cons_error]
      constructor
      · exact fun h => ⟨first, rfl, h⟩
      · rintro ⟨_, rfl, h⟩
        exact h

theorem pollFails_cons_ok (item : stream.Item)
    (polls : List (Outcome (Except stream.Fault stream.Item))) (error : Error serde) :
    PollFails stream (.returns (.ok item) :: polls) error ↔
      (∃ data, stream.encode item = .returns (.ok data)) ∧ PollFails stream polls error := by
  constructor
  · rintro ⟨front, fault, back, h, hencode, hinto⟩
    cases front with
    | nil => cases h
    | cons first front =>
      rw [map_cons, cons_append, List.cons.injEq] at h
      obtain ⟨hfirst, hrest⟩ := h
      cases hfirst
      exact ⟨hencode item mem_cons_self, front, fault, back, hrest,
        fun other hother => hencode other (mem_cons_of_mem _ hother), hinto⟩
  · rintro ⟨hdata, front, fault, back, rfl, hencode, hinto⟩
    refine ⟨item :: front, fault, back, rfl, ?_, hinto⟩
    intro other hother
    rcases mem_cons.mp hother with rfl | hother
    · exact hdata
    · exact hencode other hother

theorem pollFails_cons_error (fault : stream.Fault)
    (polls : List (Outcome (Except stream.Fault stream.Item))) (error : Error serde) :
    PollFails stream (.returns (.error fault) :: polls) error ↔
      stream.into fault = .returns error := by
  constructor
  · rintro ⟨front, other, back, h, _, hinto⟩
    cases front with
    | nil =>
      cases h
      exact hinto
    | cons first front => cases h
  · exact fun h => ⟨[], fault, polls, rfl, forall_mem_nil _, h⟩

theorem pollItems_error (h : EndsWith (pollItems stream cx polls).items error) :
    PollFails stream polls error ∨ error.kind ∈ routerKinds := by
  induction polls with
  | nil =>
    unfold pollItems caught at h
    cases hafter : (stream.hooks.after cx).outcome with
    | returns value =>
      rw [hafter] at h
      exact absurd h (not_endsWith_nil error)
    | panics message =>
      rw [hafter] at h
      rw [← (endsWith_cons_error _ _ _).mp h]
      exact .inr (internal_router _)
  | cons poll polls ih =>
    unfold pollItems caught outside at h
    cases poll with
    | panics message =>
      rw [← (endsWith_cons_error _ _ _).mp h]
      exact .inr (internal_router _)
    | returns item =>
      cases item with
      | error fault =>
        rw [pollFails_cons_error]
        cases hinto : stream.into fault with
        | panics message =>
          simp only [converted, hinto, follow] at h
          exact absurd h (not_endsWith_nil error)
        | returns found =>
          simp only [converted, hinto, follow, check] at h
          rw [(endsWith_cons_error _ _ _).mp h]
          exact .inl rfl
      | ok value =>
        rw [pollFails_cons_ok]
        cases hencode : stream.encode value with
        | panics message =>
          simp only [converted, follow, check, hencode, Outcome.mapError] at h
          exact absurd h (not_endsWith_nil error)
        | returns result =>
          cases result with
          | error message =>
            simp only [converted, follow, check, hencode, Outcome.mapError, Except.mapError] at h
            rw [← (endsWith_cons_error _ _ _).mp h]
            exact .inr (internal_router _)
          | ok data =>
            simp only [converted, follow, check, hencode, Outcome.mapError, Except.mapError] at h
            rw [endsWith_cons_ok] at h
            exact (ih h).imp_left fun hfails => ⟨⟨data, rfl⟩, hfails⟩

theorem pollItems_fails (h : PollFails stream polls error) :
    EndsWith (pollItems stream cx polls).items error := by
  induction polls with
  | nil =>
    obtain ⟨front, fault, back, h, _⟩ := h
    simp at h
  | cons poll polls ih =>
    unfold pollItems caught outside
    cases poll with
    | panics message =>
      obtain ⟨front, fault, back, h, _⟩ := h
      cases front <;> cases h
    | returns item =>
      cases item with
      | error fault =>
        have hinto := (pollFails_cons_error stream fault polls error).mp h
        simp only [converted, hinto, follow, check]
        exact (endsWith_cons_error _ _ _).mpr rfl
      | ok value =>
        obtain ⟨⟨data, hencode⟩, hfails⟩ := (pollFails_cons_ok stream value polls error).mp h
        simp only [converted, follow, check, hencode, Outcome.mapError, Except.mapError]
        exact (endsWith_cons_ok _ _ _).mpr (ih hfails)

theorem stream_error (h : EndsWith (stream.dispatch cx params).items error) :
    (stream.hooks.before cx).outcome = .returns (.error error) ∨
      StreamFails stream cx params error ∨ error.kind ∈ routerKinds := by
  unfold StreamAction.dispatch caught at h
  cases hbefore : (stream.hooks.before cx).outcome with
  | panics message =>
    rw [hbefore] at h
    rw [← (endsWith_cons_error _ _ _).mp h]
    exact .inr (.inr (internal_router _))
  | returns guard =>
    rw [hbefore] at h
    cases guard with
    | error refused =>
      rw [(endsWith_cons_error _ _ _).mp h]
      exact .inl rfl
    | ok _ =>
      refine .inr ?_
      simp only [refuse, outside, piece] at h
      cases hdecode : stream.decode params with
      | panics message =>
        simp only [hdecode, Outcome.mapError] at h
        exact absurd h (not_endsWith_nil error)
      | returns decoded =>
        cases decoded with
        | error message =>
          simp only [hdecode, Outcome.mapError, Except.mapError] at h
          rw [← (endsWith_cons_error _ _ _).mp h]
          exact .inr (by simp [routerKinds, decodeError])
        | ok input =>
          simp only [hdecode, Outcome.mapError, Except.mapError] at h
          cases hvalidate : stream.validate input with
          | panics message =>
            simp only [hvalidate] at h
            exact absurd h (not_endsWith_nil error)
          | returns checked =>
            cases checked with
            | error errors =>
              simp only [hvalidate] at h
              rw [← (endsWith_cons_error _ _ _).mp h]
              exact .inr (by simp [routerKinds, validationError])
            | ok _ =>
              simp only [hvalidate] at h
              cases hrun : stream.run cx input with
              | panics message =>
                simp only [hrun] at h
                exact absurd h (not_endsWith_nil error)
              | returns polls =>
                simp only [hrun] at h
                exact (pollItems_error stream cx polls error h).imp_left fun hfails =>
                  ⟨input, polls, hbefore, hdecode, hvalidate, hrun, hfails⟩

theorem stream_guard (h : (stream.hooks.before cx).outcome = .returns (.error error)) :
    EndsWith (stream.dispatch cx params).items error := by
  rw [stream_refused stream cx params error (by unfold refusal; rw [h])]
  exact (endsWith_cons_error _ _ _).mpr rfl

theorem stream_body (h : StreamFails stream cx params error) :
    EndsWith (stream.dispatch cx params).items error := by
  obtain ⟨input, polls, hbefore, hdecode, hvalidate, hrun, hfails⟩ := h
  unfold StreamAction.dispatch
  simp only [caught, refuse, outside, piece, hbefore, hdecode, hvalidate, hrun, Outcome.mapError,
    Except.mapError]
  exact pollItems_fails stream cx polls error hfails

/-- A stream ends with an error a client can narrow on exactly when its user code is plain. -/
theorem stream_narrows_iff {letters : Letters} {signatures : Signatures}
    {stream : StreamAction serde C} (cx : C) (params : Value serde.Number)
    (hcodes : ∀ fault error, stream.into fault = .returns error →
      error.kind ∈ errorUnion letters signatures) :
    (∀ error, EndsWith (stream.dispatch cx params).items error →
        Narrows (errorUnion letters signatures) error.kind) ↔
      PlainStream (errorUnion letters signatures) stream cx params := by
  constructor
  · intro h
    refine ⟨fun error hguard => h error (stream_guard stream cx params error hguard), ?_⟩
    exact fun error hbody => (h error (stream_body stream cx params error hbody)).1
  · intro hplain error herror
    rcases stream_error stream cx params error herror with hguard | hbody | hkind
    · exact hplain.guard error hguard
    · refine ⟨hplain.body error hbody, ?_⟩
      obtain ⟨_, _, _, _, _, _, _, fault, _, _, _, hinto⟩ := hbody
      exact hcodes fault error hinto
    · exact narrows_builtin letters signatures error.kind hkind

end

end Stakit.ErrorCodes
