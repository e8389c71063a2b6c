import Stakit.RouterError
import Stakit.SerdeValue

set_option autoImplicit false

namespace Stakit.RouterRequests
open SerdeJson EntryMaps List
open JsonText (Member objectParts arrayParts trim)

/-- What is left open of serde: numbers, and its message for a text it cannot read. -/
structure Serde where
  Number : Type
  number : List Char → Option Number
  ofNat : ℕ → Number
  message : List Char → String

/-- The body of an error reply; `detail` stays on the server. -/
structure Error (serde : Serde) extends RouterError.Error where
  fields : Option (List (String × List String))
  data : Option (Value serde.Number)
  detail : Option String

structure Router (serde : Serde) (R : Type) where
  actions : String → Option (R → Value serde.Number → Except (Error serde) (Value serde.Number))
  borrowActions : String → Option (R → List Char → Except (Error serde) (Value serde.Number))
  onError : Error serde → Error serde

inductive Reply (serde : Serde) where
  | ok (data : Value serde.Number)
  | error (error : Error serde)

section
variable {serde : Serde} {R : Type}

def notFound (action : String) : Error serde :=
  ⟨⟨404, "not_found", "unknown action `" ++ action ++ "`"⟩, none, none, none⟩

def decodeError (text : List Char) : Error serde :=
  ⟨⟨400, "bad_request", "invalid parameters: " ++ serde.message text⟩, none, none, none⟩

def fieldsValue (fields : List (String × List String)) : Value serde.Number :=
  .object (sortedMap (fields.map fun field => (field.1, .array (field.2.map .string))))

/-- `ErrorBody::into_value` -/
def errorValue (error : Error serde) : Value serde.Number :=
  .object (sortedMap ([("code", .number (serde.ofNat error.code))] ++
    (if error.kind = "error" then [] else [("type", .string error.kind)]) ++
    [("message", .string error.message)] ++
    (error.fields.map fun fields => ("fields", fieldsValue fields)).toList ++
    (error.data.map fun data => ("data", data)).toList))

def intoValue : Reply serde → Value serde.Number
  | .ok data => .object (sortedMap [("status", .string "ok"), ("data", data)])
  | .error error => .object (sortedMap [("status", .string "error"), ("error", errorValue error)])

def answer (router : Router serde R) : Except (Error serde) (Value serde.Number) → Reply serde
  | .ok data => .ok data
  | .error error => .error (router.onError error)

def dispatchOne (router : Router serde R) (req : R) (action : String)
    (params : Value serde.Number) : Reply serde :=
  match router.actions action with
  | none => .error (router.onError (notFound action))
  | some handler => answer router (handler req params)

def runAll (router : Router serde R) (req : R) (entries : List (String × Value serde.Number)) :
    List (String × Reply serde) :=
  entries.map fun entry => (entry.1, dispatchOne router req entry.1 entry.2)

def asStr : Value serde.Number → Option String
  | .string text => some text
  | _ => none

def parseElement : Value serde.Number → String × Value serde.Number
  | .array pair => ((pair.head?.bind asStr).getD "", pair.tail.head?.getD .null)
  | _ => ("", .null)

def parseArray (items : List (Value serde.Number)) : List (String × Value serde.Number) :=
  items.map parseElement

def collect (replies : List (String × Reply serde)) : Value serde.Number :=
  .object (sortedMap (replies.map fun reply => (reply.1, intoValue reply.2)))

def onRequest (router : Router serde R) (req : R) (payload : Value serde.Number) :
    Value serde.Number :=
  match payload with
  | .object [] => .object []
  | .object [(action, params)] =>
    .object (insertSorted [] action (intoValue (dispatchOne router req action params)))
  | .object entries => collect (runAll router req entries)
  | .array items =>
    .array ((runAll router req (parseArray items)).map fun reply => intoValue reply.2)
  | _ => .object []

/-- A `&str` cannot hold what an escape stands for. -/
def borrowStr (raw : List Char) : Option String := if '\\' ∈ raw then none else readString raw

def borrowKey (m : Member) : Option (String × List Char) :=
  if '\\' ∈ m.key then none else (stringOf m.name).map fun name => (name, m.raw)

/-- `from_slice::<IndexMap<&str, &RawValue>>` -/
def readMap (body : List Char) : Option (Entries String (List Char)) :=
  (objectParts (trim body)).bind fun found => (found.mapM borrowKey).map indexMap

def readPair (raw : List Char) : Option (String × List Char) :=
  match arrayParts raw with
  | some [name, params] => (borrowStr name).map fun name => (name, params)
  | _ => none

/-- `from_slice::<Vec<(&str, &RawValue)>>` -/
def readPairs (body : List Char) : Option (List (String × List Char)) :=
  (arrayParts (trim body)).bind fun raws => raws.mapM readPair

def dispatchOneBorrowed (router : Router serde R) (req : R) (action : String)
    (params : List Char) : Reply serde :=
  match router.borrowActions action with
  | some handler => answer router (handler req params)
  | none =>
    match router.actions action with
    | some handler =>
      match fromText serde.number params with
      | some value => answer router (handler req value)
      | none => .error (router.onError (decodeError params))
    | none => .error (router.onError (notFound action))

def onRequestBorrowed (router : Router serde R) (req : R) (body : List Char) : Value serde.Number :=
  match readMap body with
  | some map =>
    collect (map.map fun entry => (entry.1, dispatchOneBorrowed router req entry.1 entry.2))
  | none =>
    match readPairs body with
    | some items =>
      .array (items.map fun item => intoValue (dispatchOneBorrowed router req item.1 item.2))
    | none => .object []

/-- The names of the calls are written without escapes, and each element of an array
is a pair of a name and parameters. -/
def Borrowable (body : List Char) : Prop :=
  (∃ found, objectParts (trim body) = some found ∧ ∀ m ∈ found, '\\' ∉ m.key) ∨
  ∃ raws, arrayParts (trim body) = some raws ∧ ∀ raw ∈ raws, ∃ name params,
    arrayParts raw = some [name, params] ∧ (readString name).isSome = true ∧ '\\' ∉ name

def isBatch (body : List Char) : Bool :=
  (objectParts (trim body)).isSome || (arrayParts (trim body)).isSome

/-- As a `Value`, the body is read from the text under its first key. -/
def standsForText (body : List Char) : Bool := (objectParts (trim body)).any wraps

/-- What is answered with anything but the empty object. -/
def isCalls : Value serde.Number → Bool
  | .array _ => true
  | .object (_ :: _) => true
  | _ => false

variable (router : Router serde R) (req : R) (body : List Char)

theorem onRequest_object (entries : List (String × Value serde.Number)) :
    onRequest router req (.object entries) = collect (runAll router req entries) := by
  match entries with
  | [] | [(action, params)] | first :: second :: rest => rfl

theorem dispatchOneBorrowed_owned (action : String) {params : List Char}
    {value : Value serde.Number} (hborrow : ∀ name, router.borrowActions name = none)
    (hvalue : fromText serde.number params = some value) :
    dispatchOneBorrowed router req action params = dispatchOne router req action value := by
  unfold dispatchOneBorrowed dispatchOne
  rw [hborrow]
  dsimp only
  cases router.actions action with
  | none => rfl
  | some handler =>
    dsimp only
    rw [hvalue]

theorem collect_indexMap (entries : Entries String (List Char)) :
    collect ((indexMap entries).map fun entry =>
      (entry.1, dispatchOneBorrowed router req entry.1 entry.2)) =
    .object (sortedMap (entries.map fun entry =>
      (entry.1, intoValue (dispatchOneBorrowed router req entry.1 entry.2)))) := by
  unfold collect
  rw [map_map]
  exact congrArg Value.object (sortedMap_map_indexMap entries fun action params =>
    intoValue (dispatchOneBorrowed router req action params))

theorem collect_sortedMap (entries : Entries String (Value serde.Number)) :
    collect (runAll router req (sortedMap entries)) =
    .object (sortedMap (entries.map fun entry =>
      (entry.1, intoValue (dispatchOne router req entry.1 entry.2)))) := by
  unfold collect runAll
  rw [map_map]
  exact congrArg Value.object (sortedMap_map_sortedMap entries fun action params =>
    intoValue (dispatchOne router req action params))

theorem borrowKey_some {m : Member} {name : String} (hkey : '\\' ∉ m.key)
    (hname : stringOf m.name = some name) : borrowKey m = some (name, m.raw) := by
  unfold borrowKey
  rw [if_neg hkey, hname]
  rfl

theorem borrowed_object {found : List Member} {entries : Entries String (Value serde.Number)}
    (hborrow : ∀ name, router.borrowActions name = none)
    (hfound : objectParts (trim body) = some found)
    (hentries : found.mapM (fun m => (stringOf m.name).bind fun name =>
      (fromText serde.number m.raw).map fun value => (name, value)) = some entries)
    (hkeys : ∀ m ∈ found, '\\' ∉ m.key) :
    onRequestBorrowed router req body = onRequest router req (.object (sortedMap entries)) := by
  have hread : ∀ m ∈ found, ∃ name value, stringOf m.name = some name ∧
      fromText serde.number m.raw = some value := by
    intro m hm
    obtain ⟨entry, hentry⟩ := mapM_mem _ found entries hentries m hm
    obtain ⟨name, hname, hentry⟩ := Option.bind_eq_some_iff.mp hentry
    obtain ⟨value, hvalue, _⟩ := Option.map_eq_some_iff.mp hentry
    exact ⟨name, value, hname, hvalue⟩
  obtain ⟨raws, hraws⟩ := mapM_some borrowKey found fun m hm => by
    obtain ⟨name, _, hname, _⟩ := hread m hm
    exact ⟨_, borrowKey_some (hkeys m hm) hname⟩
  have hmap : readMap body = some (indexMap raws) := by
    unfold readMap
    rw [hfound, Option.bind_some, hraws]
    rfl
  have hsame : (raws.map fun entry =>
      (entry.1, intoValue (dispatchOneBorrowed router req entry.1 entry.2))) =
      entries.map fun entry => (entry.1, intoValue (dispatchOne router req entry.1 entry.2)) := by
    refine map_eq_of_mapM _ _ _ _ found raws entries hraws hentries ?_
    intro m hm raw entry hraw hentry
    obtain ⟨name, value, hname, hvalue⟩ := hread m hm
    rw [borrowKey_some (hkeys m hm) hname] at hraw
    rw [hname, Option.bind_some, hvalue] at hentry
    cases hraw
    cases hentry
    dsimp only
    rw [dispatchOneBorrowed_owned router req name hborrow hvalue]
  unfold onRequestBorrowed
  rw [hmap, onRequest_object]
  dsimp only
  rw [collect_indexMap, collect_sortedMap, hsame]

theorem readPair_some {raw name params : List Char} {text : String}
    (hparts : arrayParts raw = some [name, params]) (hname : readString name = some text)
    (hplain : '\\' ∉ name) : readPair raw = some (text, params) := by
  unfold readPair borrowStr
  rw [hparts]
  dsimp only
  rw [if_neg hplain, hname]
  rfl

theorem parseElement_pair {raw name params : List Char} {text : String}
    {item : Value serde.Number} (hparts : arrayParts raw = some [name, params])
    (hname : readString name = some text) (hitem : fromText serde.number raw = some item) :
    ∃ value, fromText serde.number params = some value ∧ parseElement item = (text, value) := by
  obtain ⟨items, rfl, hitems⟩ := fromText_arrayParts serde.number raw _ hparts hitem
  rw [mapM_cons, fromText_string serde.number name hname] at hitems
  obtain ⟨first, hfirst, hitems⟩ := Option.bind_eq_some_iff.mp hitems
  obtain ⟨rest, hrest, heq⟩ := Option.bind_eq_some_iff.mp hitems
  cases hfirst
  rw [mapM_cons] at hrest
  obtain ⟨value, hvalue, hrest⟩ := Option.bind_eq_some_iff.mp hrest
  cases hrest
  cases heq
  exact ⟨value, hvalue, rfl⟩

theorem borrowed_array {raws : List (List Char)} {items : List (Value serde.Number)}
    (hborrow : ∀ name, router.borrowActions name = none)
    (hraws : arrayParts (trim body) = some raws)
    (hitems : raws.mapM (fromText serde.number) = some items)
    (hpairs : ∀ raw ∈ raws, ∃ name params, arrayParts raw = some [name, params] ∧
      (readString name).isSome = true ∧ '\\' ∉ name) :
    onRequestBorrowed router req body = onRequest router req (.array items) := by
  have hread : ∀ raw ∈ raws, ∃ name params text, arrayParts raw = some [name, params] ∧
      readString name = some text ∧ readPair raw = some (text, params) := by
    intro raw hraw
    obtain ⟨name, params, hparts, hname, hplain⟩ := hpairs raw hraw
    obtain ⟨text, htext⟩ := Option.isSome_iff_exists.mp hname
    exact ⟨name, params, text, hparts, htext, readPair_some hparts htext hplain⟩
  obtain ⟨pairs, hpairs⟩ := mapM_some readPair raws fun raw hraw => by
    obtain ⟨_, params, text, _, _, hpair⟩ := hread raw hraw
    exact ⟨_, hpair⟩
  have hmap : readMap body = none := by
    unfold readMap
    rw [objectParts_of_arrayParts _ raws hraws]
    rfl
  have hreads : readPairs body = some pairs := by
    unfold readPairs
    rw [hraws, Option.bind_some, hpairs]
  have hsame : (pairs.map fun item => intoValue (dispatchOneBorrowed router req item.1 item.2)) =
      items.map fun item => intoValue (dispatchOne router req (parseElement item).1
        (parseElement item).2) := by
    refine map_eq_of_mapM _ _ _ _ raws pairs items hpairs hitems ?_
    intro raw hraw pair item hpair hitem
    obtain ⟨name, params, text, hparts, hname, hread⟩ := hread raw hraw
    obtain ⟨value, hvalue, helement⟩ :=
      parseElement_pair hparts hname hitem
    rw [hread] at hpair
    cases hpair
    dsimp only
    rw [helement, dispatchOneBorrowed_owned router req text hborrow hvalue]
  unfold onRequestBorrowed onRequest runAll parseArray
  rw [hmap]
  dsimp only
  rw [hreads]
  dsimp only
  rw [hsame, map_map, map_map]
  rfl

theorem not_borrowed (h : ¬ Borrowable body) : onRequestBorrowed router req body = .object [] := by
  have hmap : readMap body = none := by
    unfold readMap
    rw [Option.bind_eq_none_iff]
    intro found hfound
    cases hkeys : found.mapM borrowKey with
    | none => rfl
    | some raws =>
      refine absurd (.inl ⟨found, hfound, fun m hm hslash => ?_⟩) h
      obtain ⟨entry, hentry⟩ := mapM_mem _ found raws hkeys m hm
      unfold borrowKey at hentry
      rw [if_pos hslash] at hentry
      cases hentry
  have hpairs : readPairs body = none := by
    unfold readPairs
    rw [Option.bind_eq_none_iff]
    intro raws hraws
    cases hreads : raws.mapM readPair with
    | none => rfl
    | some pairs =>
      refine absurd (.inr ⟨raws, hraws, fun raw hraw => ?_⟩) h
      obtain ⟨pair, hpair⟩ := mapM_mem _ raws pairs hreads raw hraw
      unfold readPair borrowStr at hpair
      split at hpair
      · next name params hparts =>
        obtain ⟨text, htext, _⟩ := Option.map_eq_some_iff.mp hpair
        split_ifs at htext with hslash
        exact ⟨name, params, hparts, by rw [htext]; rfl, hslash⟩
      · cases hpair
  unfold onRequestBorrowed
  rw [hmap]
  dsimp only
  rw [hpairs]

theorem onRequest_empty_iff (payload : Value serde.Number) :
    onRequest router req payload = .object [] ↔ isCalls payload = false := by
  match payload with
  | .null | .bool _ | .number _ | .string _ | .object [] => exact iff_of_true rfl rfl
  | .array items => exact iff_of_false nofun nofun
  | .object (entry :: entries) =>
    refine iff_of_false (fun heq => ?_) nofun
    rw [onRequest_object] at heq
    exact sortedMap_ne_nil _ _ (Value.object.inj heq)

theorem payload_cases {payload : Value serde.Number}
    (hparse : fromText serde.number body = some payload) (hbatch : isBatch body = true)
    (hplain : standsForText body = false) :
    (∃ found entries, objectParts (trim body) = some found ∧
      found.mapM (fun m => (stringOf m.name).bind fun name =>
        (fromText serde.number m.raw).map fun value => (name, value)) = some entries ∧
      payload = .object (sortedMap entries)) ∨
    ∃ raws items, arrayParts (trim body) = some raws ∧
      raws.mapM (fromText serde.number) = some items ∧ payload = .array items := by
  cases hfound : objectParts (trim body) with
  | some found =>
    have hwraps : wraps found = false := by
      unfold standsForText at hplain
      rwa [hfound] at hplain
    obtain ⟨entries, hentries, rfl⟩ := fromText_object serde.number hfound hwraps hparse
    exact .inl ⟨found, entries, rfl, hentries, rfl⟩
  | none =>
    unfold isBatch at hbatch
    rw [hfound] at hbatch
    obtain ⟨raws, hraws⟩ := Option.isSome_iff_exists.mp hbatch
    obtain ⟨items, rfl, hitems⟩ := fromText_array serde.number raws hraws hparse
    exact .inr ⟨raws, items, hraws, hitems, rfl⟩

theorem borrowed_ne_owned {payload : Value serde.Number}
    (hparse : fromText serde.number body = some payload) (hbatch : isBatch body = true)
    (hplain : standsForText body = false) (hnot : ¬ Borrowable body) :
    onRequestBorrowed router req body ≠ onRequest router req payload := by
  rw [not_borrowed router req body hnot]
  intro hsame
  have hempty := (onRequest_empty_iff router req payload).mp hsame.symm
  obtain ⟨found, entries, hfound, hentries, rfl⟩ | ⟨raws, items, _, _, rfl⟩ :=
    payload_cases body hparse hbatch hplain
  · cases found with
    | nil => exact hnot (.inl ⟨[], hfound, nofun⟩)
    | cons m found =>
      rw [mapM_cons] at hentries
      obtain ⟨entry, _, hentries⟩ := Option.bind_eq_some_iff.mp hentries
      obtain ⟨rest, _, hentries⟩ := Option.bind_eq_some_iff.mp hentries
      cases hentries
      cases hmap : sortedMap (entry :: rest) with
      | nil => exact sortedMap_ne_nil _ _ hmap
      | cons first others =>
        rw [hmap] at hempty
        cases hempty
  · cases hempty

/-- A body that stands for a text, its key readable as it is: the two answers have other keys. -/
theorem wrapper_ne_owned {payload : Value serde.Number}
    (hparse : fromText serde.number body = some payload) (hwraps : standsForText body = true)
    (hborrowable : Borrowable body) :
    onRequestBorrowed router req body ≠ onRequest router req payload := by
  obtain ⟨found, hfound, hraw⟩ := (Option.any_eq_true _ _).mp hwraps
  obtain ⟨⟨m, rfl⟩, _⟩ := fromText_wrapper serde.number hfound hraw hparse
  have hname : stringOf m.name = some rawKey := of_decide_eq_true hraw
  have hkey : '\\' ∉ m.key := by
    obtain ⟨found, hfound', hkeys⟩ | ⟨raws, hraws, _⟩ := hborrowable
    · rw [hfound] at hfound'
      cases hfound'
      exact hkeys m mem_cons_self
    · rw [arrayParts_of_objectParts _ hfound] at hraws
      cases hraws
  have hmap : readMap body = some [(rawKey, m.raw)] := by
    unfold readMap
    rw [hfound, Option.bind_some, mapM_cons, borrowKey_some hkey hname]
    rfl
  unfold onRequestBorrowed
  rw [hmap]
  intro hsame
  cases payload with
  | array items | null | bool | number | string => cases hsame
  | object fields =>
    obtain rfl | ⟨key, hkey, hother⟩ := fromText_keys serde.number hparse
    · cases hsame
    · rw [onRequest_object] at hsame
      have hkeys := congrArg (List.map Prod.fst) (Value.object.inj hsame)
      have hmem : key ∈ (sortedMap ((runAll router req fields).map fun reply =>
          (reply.1, intoValue reply.2))).map Prod.fst := by
        refine key_mem_sortedMap ?_
        unfold runAll
        rw [map_map, map_map]
        exact hkey
      rw [← hkeys] at hmem
      exact hother (mem_singleton.mp hmem)

theorem borrowed_eq_owned_iff (payload : Value serde.Number)
    (hborrow : ∀ name, router.borrowActions name = none)
    (hparse : fromText serde.number body = some payload) (hbatch : isBatch body = true) :
    onRequestBorrowed router req body = onRequest router req payload ↔
      if standsForText body then ¬ Borrowable body ∧ isCalls payload = false
      else Borrowable body := by
  cases hwraps : standsForText body with
  | true =>
    rw [if_pos rfl]
    by_cases hborrowable : Borrowable body
    · exact iff_of_false (wrapper_ne_owned router req body hparse hwraps hborrowable)
        fun h => h.1 hborrowable
    · rw [not_borrowed router req body hborrowable, eq_comm, onRequest_empty_iff]
      exact (and_iff_right hborrowable).symm
  | false =>
    rw [if_neg (by decide)]
    refine ⟨fun hsame => ?_, fun hborrowable => ?_⟩
    · by_contra hnot
      exact borrowed_ne_owned router req body hparse hbatch hwraps hnot hsame
    · obtain ⟨found, entries, hfound, hentries, rfl⟩ | ⟨raws, items, hraws, hitems, rfl⟩ :=
        payload_cases body hparse hbatch hwraps
      · obtain ⟨found', hfound', hkeys⟩ | ⟨raws, hraws, _⟩ := hborrowable
        · rw [hfound] at hfound'
          cases hfound'
          exact borrowed_object router req body hborrow hfound hentries hkeys
        · rw [arrayParts_of_objectParts _ hfound] at hraws
          cases hraws
      · obtain ⟨found, hfound, _⟩ | ⟨raws', hraws', hpairs⟩ := hborrowable
        · rw [objectParts_of_arrayParts _ raws hraws] at hfound
          cases hfound
        · rw [hraws] at hraws'
          cases hraws'
          exact borrowed_array router req body hborrow hraws hitems hpairs

end

/-- Decimal digits, as far as the calls below need numbers. -/
def naturals : Serde where
  Number := ℕ
  number token := if token.all Char.isDigit then some (Nat.ofDigitChars 10 token 0) else none
  ofNat n := n
  message _ := "expected value"

def echoRouter : Router naturals Unit where
  actions name := if name = "a" then some fun _ params => .ok params else none
  borrowActions _ := none
  onError error := error

/-- A known action and an unknown one. -/
def plainBody : List Char := "\x7b\"a\":1,\"b\":2\x7d".toList

/-- The action `a`, its name written with an escape. -/
def escapedBody : List Char := "\x7b\"\\u0061\":1\x7d".toList

/-- One element that is no pair. -/
def unpairedBody : List Char := "[1]".toList

/-- An object to one entry point, an array to the other. -/
def wrapperBody : List Char := "\x7b\"$serde_json::private::RawValue\":\"[]\"\x7d".toList

theorem borrowed_eq_owned_plainBody : (∀ name, echoRouter.borrowActions name = none) ∧
    ∃ payload, fromText naturals.number plainBody = some payload ∧ isBatch plainBody = true ∧
      onRequestBorrowed echoRouter () plainBody = onRequest echoRouter () payload := by
  have hread : (fromText naturals.number plainBody).isSome = true := by decide +kernel
  obtain ⟨payload, hparse⟩ := Option.isSome_iff_exists.mp hread
  have hparts : objectParts (trim plainBody) =
      some [⟨['a'], [97], ['1']⟩, ⟨['b'], [98], ['2']⟩] := by decide +kernel
  have hbatch : isBatch plainBody = true := by
    unfold isBatch
    rw [hparts]
    rfl
  have hplain : ¬ standsForText plainBody = true := by
    unfold standsForText
    rw [hparts]
    decide
  refine ⟨fun _ => rfl, payload, hparse, hbatch, ?_⟩
  refine (borrowed_eq_owned_iff echoRouter () plainBody payload (fun _ => rfl) hparse hbatch).mpr ?_
  rw [if_neg hplain]
  refine .inl ⟨_, hparts, ?_⟩
  decide

theorem escaped_and_unpaired_differ : (∀ name, echoRouter.borrowActions name = none) ∧
    (∃ payload, fromText naturals.number escapedBody = some payload ∧ isBatch escapedBody = true ∧
      onRequestBorrowed echoRouter () escapedBody = .object [] ∧
      onRequestBorrowed echoRouter () escapedBody ≠ onRequest echoRouter () payload) ∧
    (∃ payload, fromText naturals.number unpairedBody = some payload ∧ isBatch unpairedBody = true ∧
      onRequestBorrowed echoRouter () unpairedBody = .object [] ∧
      onRequestBorrowed echoRouter () unpairedBody ≠ onRequest echoRouter () payload) ∧
    ∃ payload, fromText naturals.number wrapperBody = some payload ∧ isBatch wrapperBody = true ∧
      onRequestBorrowed echoRouter () wrapperBody ≠ onRequest echoRouter () payload := by
  refine ⟨fun _ => rfl, ?_, ?_, ?_⟩
  · have hread : (fromText naturals.number escapedBody).isSome = true := by decide +kernel
    obtain ⟨payload, hparse⟩ := Option.isSome_iff_exists.mp hread
    have hparts : objectParts (trim escapedBody) =
        some [⟨"\\u0061".toList, [97], ['1']⟩] := by decide +kernel
    have hbatch : isBatch escapedBody = true := by decide +kernel
    have hnot : ¬ Borrowable escapedBody := by
      rintro (⟨found, hfound, hkeys⟩ | ⟨raws, hraws, _⟩)
      · rw [hparts] at hfound
        cases hfound
        exact hkeys _ mem_cons_self (by decide)
      · rw [arrayParts_of_objectParts _ hparts] at hraws
        cases hraws
    exact ⟨payload, hparse, hbatch, not_borrowed echoRouter () escapedBody hnot,
      borrowed_ne_owned echoRouter () escapedBody hparse hbatch (by decide +kernel) hnot⟩
  · have hread : (fromText naturals.number unpairedBody).isSome = true := by decide +kernel
    obtain ⟨payload, hparse⟩ := Option.isSome_iff_exists.mp hread
    have hparts : arrayParts (trim unpairedBody) = some [['1']] := by decide +kernel
    have hbatch : isBatch unpairedBody = true := by decide +kernel
    have hnot : ¬ Borrowable unpairedBody := by
      rintro (⟨found, hfound, _⟩ | ⟨raws, hraws, hpairs⟩)
      · rw [objectParts_of_arrayParts _ _ hparts] at hfound
        cases hfound
      · rw [hparts] at hraws
        cases hraws
        obtain ⟨name, params, hpair, _⟩ := hpairs _ mem_cons_self
        cases hpair
    exact ⟨payload, hparse, hbatch, not_borrowed echoRouter () unpairedBody hnot,
      borrowed_ne_owned echoRouter () unpairedBody hparse hbatch (by decide +kernel) hnot⟩
  · have hread : (fromText naturals.number wrapperBody).isSome = true := by decide +kernel
    obtain ⟨payload, hparse⟩ := Option.isSome_iff_exists.mp hread
    have hbatch : isBatch wrapperBody = true := by decide +kernel
    have hwraps : standsForText wrapperBody = true := by decide +kernel
    obtain ⟨found, hfound, hraw⟩ := (Option.any_eq_true _ _).mp hwraps
    obtain ⟨⟨m, rfl⟩, _⟩ := fromText_wrapper naturals.number hfound hraw hparse
    have hkey : '\\' ∉ m.key := by
      have hkeys : (objectParts (trim wrapperBody)).any (fun found =>
          found.all fun m => decide ('\\' ∉ m.key)) = true := by decide +kernel
      rw [hfound] at hkeys
      simpa using hkeys
    have hborrowable : Borrowable wrapperBody :=
      .inl ⟨[m], hfound, forall_mem_singleton.mpr hkey⟩
    exact ⟨payload, hparse, hbatch,
      wrapper_ne_owned echoRouter () wrapperBody hparse hwraps hborrowable⟩

end Stakit.RouterRequests
