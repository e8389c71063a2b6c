import Stakit.MergedStreams
import Stakit.RouterRequests

set_option autoImplicit false

namespace Stakit.RouterGuards
open SerdeJson EntryMaps MergedStreams TransitionRuns
open RouterRequests (Serde Error)

/-- What running a piece of user code comes to. -/
inductive Outcome (α : Type) where
  | returns (value : α)
  | panics (message : String)

/-- The user code of a call; hooks are counted from the action outwards. -/
inductive Piece where
  | before (level : ℕ)
  | decode
  | validate
  | body
  | after (level : ℕ)
  deriving DecidableEq

structure Ran (α : Type) where
  pieces : List Piece
  outcome : Outcome α

section
variable {α β ε : Type}

def piece (p : Piece) (outcome : Outcome α) : Ran α := ⟨[p], outcome⟩

def follow (first : Ran α) (next : α → Ran β) : Ran β :=
  match first.outcome with
  | .panics message => ⟨first.pieces, .panics message⟩
  | .returns value => ⟨first.pieces ++ (next value).pieces, (next value).outcome⟩

/-- The `?` operator. -/
def check (first : Ran (Except ε α)) (next : α → Ran (Except ε β)) : Ran (Except ε β) :=
  follow first fun result =>
    match result with
    | .error error => ⟨[], .returns (.error error)⟩
    | .ok value => next value

def Outcome.mapError (f : ε → β) : Outcome (Except ε α) → Outcome (Except β α)
  | .returns result => .returns (result.mapError f)
  | .panics message => .panics message

end

section
variable {serde : Serde}

def decodeError (message : String) : Error serde :=
  ⟨⟨400, "bad_request", "invalid parameters: " ++ message⟩, none, none, none⟩

/-- The messages of a path in the order they came. -/
def validationFields (errors : List (String × String)) : List (String × List String) :=
  errors.foldl (fun fields error =>
    insertInPlace fields error.1 ((fields.lookup error.1).getD [] ++ [error.2])) []

def validationError (errors : List (String × String)) : Error serde :=
  ⟨⟨422, "validation", "validation failed"⟩, some (validationFields errors), none, none⟩

def internalError (detail : String) : Error serde :=
  ⟨⟨500, "internal", "internal server error"⟩, none, none, some detail⟩

def encodeError (message : String) : Error serde :=
  internalError ("failed to serialize result: " ++ message)

def panicked (message : String) : Error serde := internalError ("action panicked: " ++ message)

end

structure Hooks (serde : Serde) (C : Type) where
  before : C → Outcome (Except (Error serde) Unit)
  after : C → Outcome Unit

inductive Stack (serde : Serde) (C : Type) where
  | action (own : Hooks serde C)
  | guarded (inner : Stack serde C) (mw : Hooks serde C)

section
variable {serde : Serde} {C P : Type}

def Stack.height : Stack serde C → ℕ
  | .action _ => 0
  | .guarded inner _ => inner.height + 1

def Stack.hooks : Stack serde C → List (Hooks serde C)
  | .action own => [own]
  | .guarded inner mw => inner.hooks ++ [mw]

def Stack.before : Stack serde C → C → Ran (Except (Error serde) Unit)
  | .action own, cx => piece (.before 0) (own.before cx)
  | .guarded inner mw, cx =>
    check (inner.before cx) fun _ => piece (.before (inner.height + 1)) (mw.before cx)

def Stack.after : Stack serde C → C → Ran Unit
  | .action own, cx => piece (.after 0) (own.after cx)
  | .guarded inner mw, cx =>
    follow (piece (.after (inner.height + 1)) (mw.after cx)) fun _ => inner.after cx

/-- An owned action takes a value, a borrow action the text of one. -/
structure Action (serde : Serde) (C P : Type) where
  Input : Type
  Output : Type
  Fault : Type
  hooks : Stack serde C
  decode : P → Outcome (Except String Input)
  validate : Input → Outcome (Except (List (String × String)) Unit)
  run : C → Input → Outcome (Except Fault Output)
  into : Fault → Outcome (Error serde)
  encode : Output → Outcome (Except String (Value serde.Number))

/-- `map_err(Into::into)` -/
def converted {ρ φ : Type} (into : φ → Outcome (Error serde)) :
    Except φ ρ → Ran (Except (Error serde) ρ)
  | .ok value => ⟨[], .returns (.ok value)⟩
  | .error fault =>
    match into fault with
    | .returns error => ⟨[], .returns (.error error)⟩
    | .panics message => ⟨[], .panics message⟩

def runUnary (action : Action serde C P) (cx : C) (params : P) :
    Ran (Except (Error serde) (Value serde.Number)) :=
  check (action.hooks.before cx) fun _ =>
  check (piece .decode ((action.decode params).mapError decodeError)) fun input =>
  check (piece .validate ((action.validate input).mapError validationError)) fun _ =>
  follow (piece .body (action.run cx input)) fun result =>
  follow (converted action.into result) fun result =>
  follow (action.hooks.after cx) fun _ =>
  check ⟨[], .returns result⟩ fun output =>
    ⟨[], (action.encode output).mapError encodeError⟩

/-- `run_unary`, inside `catch_unwind`. -/
def Action.dispatch (action : Action serde C P) (cx : C) (params : P) :
    Except (Error serde) (Value serde.Number) :=
  match (runUnary action cx params).outcome with
  | .returns result => result
  | .panics message => .error (panicked message)

/-- The stream of a call is the list of what its polls come to. -/
structure StreamAction (serde : Serde) (C : Type) where
  Input : Type
  Item : Type
  Fault : Type
  hooks : Stack serde C
  decode : Value serde.Number → Outcome (Except String Input)
  validate : Input → Outcome (Except (List (String × String)) Unit)
  run : C → Input → Outcome (List (Outcome (Except Fault Item)))
  into : Fault → Outcome (Error serde)
  encode : Item → Outcome (Except String (Value serde.Number))

/-- What a stream yields, and whether a panic leaves it. -/
structure Played (serde : Serde) where
  pieces : List Piece
  items : List (Except (Error serde) (Value serde.Number))
  escaped : Bool

def outside {α : Type} (first : Ran α) (next : α → Played serde) : Played serde :=
  match first.outcome with
  | .panics _ => ⟨first.pieces, [], true⟩
  | .returns value => { next value with pieces := first.pieces ++ (next value).pieces }

/-- A panic inside `catch_unwind`. -/
def caught {α : Type} (first : Ran α) (next : α → Played serde) : Played serde :=
  match first.outcome with
  | .panics message => ⟨first.pieces, [.error (panicked message)], false⟩
  | .returns value => { next value with pieces := first.pieces ++ (next value).pieces }

def refuse {α : Type} (result : Except (Error serde) α) (next : α → Played serde) : Played serde :=
  match result with
  | .error error => ⟨[], [.error error], false⟩
  | .ok value => next value

def pollItems (action : StreamAction serde C) (cx : C) :
    List (Outcome (Except action.Fault action.Item)) → Played serde
  | [] => caught (action.hooks.after cx) fun _ => ⟨[], [], false⟩
  | poll :: rest =>
    caught ⟨[], poll⟩ fun item =>
    outside (follow (converted action.into item) fun item => check ⟨[], .returns item⟩ fun value =>
      ⟨[], (action.encode value).mapError encodeError⟩) fun result =>
    { pollItems action cx rest with items := result :: (pollItems action cx rest).items }

def StreamAction.dispatch (action : StreamAction serde C) (cx : C)
    (params : Value serde.Number) : Played serde :=
  caught (action.hooks.before cx) fun guard => refuse guard fun _ =>
  outside (piece .decode ((action.decode params).mapError decodeError)) fun decoded =>
  refuse decoded fun input =>
  outside (piece .validate ((action.validate input).mapError validationError)) fun checked =>
  refuse checked fun _ =>
  outside (piece .body (action.run cx input)) fun polls => pollItems action cx polls

section
variable {α β ε : Type} (p : Piece)

theorem mem_beside {first : Ran α} {pieces : List Piece} {next : α → List Piece}
    (hpanics : ∀ message, first.outcome = .panics message → pieces = first.pieces)
    (hreturns : ∀ value, first.outcome = .returns value → pieces = first.pieces ++ next value) :
    p ∈ pieces ↔ p ∈ first.pieces ∨ ∃ value, first.outcome = .returns value ∧ p ∈ next value := by
  cases houtcome : first.outcome with
  | panics message =>
    rw [hpanics message houtcome]
    refine ⟨.inl, fun h => h.resolve_right ?_⟩
    rintro ⟨value, hvalue, _⟩
    cases hvalue
  | returns value =>
    rw [hreturns value houtcome]
    refine List.mem_append.trans (or_congr_right ⟨fun h => ⟨value, rfl, h⟩, ?_⟩)
    rintro ⟨other, hother, h⟩
    cases hother
    exact h

theorem mem_follow (first : Ran α) (next : α → Ran β) : p ∈ (follow first next).pieces ↔
    p ∈ first.pieces ∨ ∃ value, first.outcome = .returns value ∧ p ∈ (next value).pieces := by
  unfold follow
  refine mem_beside p ?_ ?_ <;> intro found hfound <;> rw [hfound]

theorem mem_check (first : Ran (Except ε α)) (next : α → Ran (Except ε β)) :
    p ∈ (check first next).pieces ↔
      p ∈ first.pieces ∨ ∃ value, first.outcome = .returns (.ok value) ∧ p ∈ (next value).pieces := by
  refine (mem_follow p first _).trans (or_congr_right ⟨?_, ?_⟩)
  · rintro ⟨result, hresult, h⟩
    cases result with
    | error error => exact absurd h List.not_mem_nil
    | ok value => exact ⟨value, hresult, h⟩
  · rintro ⟨value, hvalue, h⟩
    exact ⟨.ok value, hvalue, h⟩

theorem mem_outside (first : Ran α) (next : α → Played serde) : p ∈ (outside first next).pieces ↔
      p ∈ first.pieces ∨ ∃ value, first.outcome = .returns value ∧ p ∈ (next value).pieces := by
  unfold outside
  refine mem_beside p ?_ ?_ <;> intro found hfound <;> rw [hfound]

theorem mem_caught (first : Ran α) (next : α → Played serde) : p ∈ (caught first next).pieces ↔
      p ∈ first.pieces ∨ ∃ value, first.outcome = .returns value ∧ p ∈ (next value).pieces := by
  unfold caught
  refine mem_beside p ?_ ?_ <;> intro found hfound <;> rw [hfound]

theorem mem_refuse (result : Except (Error serde) α) (next : α → Played serde) :
    p ∈ (refuse result next).pieces ↔ ∃ value, result = .ok value ∧ p ∈ (next value).pieces := by
  cases result with
  | error error =>
    refine ⟨nofun, ?_⟩
    rintro ⟨value, hvalue, _⟩
    cases hvalue
  | ok value =>
    refine ⟨fun h => ⟨value, rfl, h⟩, ?_⟩
    rintro ⟨other, hother, h⟩
    cases hother
    exact h

theorem mapError_ok {f : ε → β} {outcome : Outcome (Except ε α)} {value : α}
    (h : outcome.mapError f = .returns (.ok value)) : outcome = .returns (.ok value) := by
  cases outcome with
  | panics message => cases h
  | returns result =>
    cases result with
    | error error => cases h
    | ok other =>
      cases h
      rfl

end

/-- Some `before` hook returns an error. -/
def Rejects (stack : Stack serde C) (cx : C) : Prop :=
  ∃ hook ∈ stack.hooks, ∃ error, hook.before cx = .returns (.error error)

/-- The error a guard that does not pass is answered with. -/
def refusal (stack : Stack serde C) (cx : C) : Option (Error serde) :=
  match (stack.before cx).outcome with
  | .returns (.ok _) => none
  | .returns (.error error) => some error
  | .panics message => some (panicked message)

variable (stack : Stack serde C) (cx : C)

theorem before_pieces : ∀ p ∈ (stack.before cx).pieces, ∃ level, p = .before level := by
  intro p
  induction stack with
  | action own => exact fun h => ⟨0, List.mem_singleton.mp h⟩
  | guarded inner mw ih =>
    intro h
    rcases (mem_check p _ _).mp h with h | ⟨_, _, h⟩
    · exact ih h
    · exact ⟨inner.height + 1, List.mem_singleton.mp h⟩

theorem before_passed (h : (stack.before cx).outcome = .returns (.ok ())) :
    ∀ hook ∈ stack.hooks, hook.before cx = .returns (.ok ()) := by
  induction stack with
  | action own =>
    intro hook hin
    rw [List.mem_singleton.mp hin]
    exact h
  | guarded inner mw ih =>
    intro hook hin
    unfold Stack.before check follow at h
    cases hinner : (inner.before cx).outcome with
    | panics message =>
      rw [hinner] at h
      cases h
    | returns result =>
      rw [hinner] at h
      cases result with
      | error error => cases h
      | ok _ =>
        rcases List.mem_append.mp hin with hin | hin
        · exact ih hinner hook hin
        · rw [List.mem_singleton.mp hin]
          exact h

theorem refusal_of_rejects (h : Rejects stack cx) : ∃ error, refusal stack cx = some error := by
  obtain ⟨hook, hin, error, hhook⟩ := h
  unfold refusal
  cases hbefore : (stack.before cx).outcome with
  | panics message => exact ⟨_, rfl⟩
  | returns result =>
    cases result with
    | error error => exact ⟨_, rfl⟩
    | ok _ =>
      have hpassed := before_passed stack cx hbefore hook hin
      rw [hhook] at hpassed
      cases hpassed

theorem dispatch_refused (action : Action serde C P) (cx : C) (params : P) (error : Error serde)
    (h : refusal action.hooks cx = some error) :
    (runUnary action cx params).pieces = (action.hooks.before cx).pieces ∧
      action.dispatch cx params = .error error := by
  unfold refusal at h
  unfold Action.dispatch runUnary check follow
  cases hbefore : (action.hooks.before cx).outcome with
  | panics message =>
    rw [hbefore] at h
    cases h
    exact ⟨rfl, rfl⟩
  | returns result =>
    rw [hbefore] at h
    cases result with
    | ok _ => cases h
    | error other =>
      cases h
      exact ⟨List.append_nil _, rfl⟩

theorem stream_refused (action : StreamAction serde C) (cx : C) (params : Value serde.Number)
    (error : Error serde) (h : refusal action.hooks cx = some error) :
    action.dispatch cx params = ⟨(action.hooks.before cx).pieces, [.error error], false⟩ := by
  unfold refusal at h
  unfold StreamAction.dispatch caught
  cases hbefore : (action.hooks.before cx).outcome with
  | panics message =>
    rw [hbefore] at h
    cases h
    rfl
  | returns result =>
    rw [hbefore] at h
    cases result with
    | ok _ => cases h
    | error other =>
      cases h
      exact congrArg (fun pieces => (⟨pieces, [.error error], false⟩ : Played serde))
        (List.append_nil _)

/-- Every guard passed, and the parameters decoded to an input that validated. -/
def Admitted {Q I : Type} (stack : Stack serde C) (decode : Q → Outcome (Except String I))
    (validate : I → Outcome (Except (List (String × String)) Unit)) (cx : C) (params : Q) : Prop :=
  (∀ hook ∈ stack.hooks, hook.before cx = .returns (.ok ())) ∧
    ∃ input, decode params = .returns (.ok input) ∧ validate input = .returns (.ok ())

theorem body_not_before : Piece.body ∉ (stack.before cx).pieces := by
  intro h
  obtain ⟨level, hlevel⟩ := before_pieces stack cx _ h
  cases hlevel

theorem body_not_piece {α : Type} (p : Piece) (outcome : Outcome α) (hp : p ≠ .body) :
    Piece.body ∉ (piece p outcome).pieces :=
  fun h => hp (List.mem_singleton.mp h).symm

theorem body_admitted (action : Action serde C P) (cx : C) (params : P)
    (h : Piece.body ∈ (runUnary action cx params).pieces) :
    Admitted action.hooks action.decode action.validate cx params := by
  obtain ⟨⟨⟩, hbefore, h⟩ := ((mem_check _ _ _).mp h).resolve_left (body_not_before _ _)
  obtain ⟨input, hdecode, h⟩ :=
    ((mem_check _ _ _).mp h).resolve_left (body_not_piece _ _ (by decide))
  obtain ⟨⟨⟩, hvalidate, _⟩ :=
    ((mem_check _ _ _).mp h).resolve_left (body_not_piece _ _ (by decide))
  exact ⟨before_passed _ _ hbefore, input, mapError_ok hdecode, mapError_ok hvalidate⟩

theorem stream_body_admitted (action : StreamAction serde C) (cx : C)
    (params : Value serde.Number) (h : Piece.body ∈ (action.dispatch cx params).pieces) :
    Admitted action.hooks action.decode action.validate cx params := by
  obtain ⟨guard, hbefore, h⟩ := ((mem_caught _ _ _).mp h).resolve_left (body_not_before _ _)
  obtain ⟨⟨⟩, rfl, h⟩ := (mem_refuse _ _ _).mp h
  obtain ⟨decoded, hdecode, h⟩ :=
    ((mem_outside _ _ _).mp h).resolve_left (body_not_piece _ _ (by decide))
  obtain ⟨input, rfl, h⟩ := (mem_refuse _ _ _).mp h
  obtain ⟨checked, hvalidate, h⟩ :=
    ((mem_outside _ _ _).mp h).resolve_left (body_not_piece _ _ (by decide))
  obtain ⟨⟨⟩, rfl, _⟩ := (mem_refuse _ _ _).mp h
  exact ⟨before_passed _ _ hbefore, input, mapError_ok hdecode, mapError_ok hvalidate⟩

end
end Stakit.RouterGuards
