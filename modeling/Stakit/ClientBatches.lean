import Stakit.TransportRoundTrips

set_option autoImplicit false

namespace Stakit.RouterTransports
open JsonText SerdeJson EntryMaps List
open RouterRequests (Serde Error Reply Router intoValue dispatchOne dispatchOneBorrowed
  onRequest onRequestBorrowed runAll parseArray parseElement readMap readPairs readPair borrowStr)

inductive TransportError where
  | encode
  | http
  | decode
  | unexpectedResponse (message : String)
  | indexOutOfRange (index : ℕ)
  deriving DecidableEq

section
variable {serde : Serde} {R : Type} (wire : Wire serde)

structure Batch (serde : Serde) where
  calls : List (String × Value serde.Number)
  error : Option TransportError

def Client.batch : Batch serde := ⟨[], none⟩

/-- `params` is what `to_value` makes of them; after an error nothing is added. -/
def Batch.add (batch : Batch serde) (action : String) (params : Option (Value serde.Number)) :
    Batch serde :=
  match batch.error, params with
  | some _, _ => batch
  | none, some value => { batch with calls := batch.calls ++ [(action, value)] }
  | none, none => { batch with error := some .encode }

def Batch.payload (batch : Batch serde) : Value serde.Number :=
  .array (batch.calls.map fun call => .array [.string call.1, call.2])

structure BatchResults (serde : Serde) where
  actions : List String
  envelopes : List (Value serde.Number)

abbrev Peer := List Char → Option (List Char)

/-- The peer gives no body where the request fails. -/
def Batch.send (peer : Peer) (batch : Batch serde) : Except TransportError (BatchResults serde) :=
  match batch.error with
  | some error => .error error
  | none =>
    match (peer (textOf wire.printer batch.payload)).bind (fromText serde.number) with
    | none => .error .http
    | some (.array envelopes) => .ok ⟨batch.calls.map Prod.fst, envelopes⟩
    | some _ => .error (.unexpectedResponse "batch expected an array response")

def BatchResults.action (results : BatchResults serde) (index : ℕ) : Option String :=
  results.actions[index]?

def BatchResults.get (results : BatchResults serde) (index : ℕ) :
    Except TransportError (ActionResult serde) :=
  match results.envelopes[index]? with
  | none => .error (.indexOutOfRange index)
  | some value =>
    match readEnvelope wire value with
    | none => .error .decode
    | some result => .ok result

/-- The calls of a batch as they were added. -/
abbrev Added (serde : Serde) := List (String × Option (Value serde.Number))

def addAll (added : Added serde) : Batch serde :=
  added.foldl (fun batch call => batch.add call.1 call.2) Client.batch

/-- A router that is handed the value of the body. -/
def ownedPeer (router : Router serde R) (req : R) : Peer := fun text =>
  (fromText serde.number text).map fun payload => textOf wire.printer (onRequest router req payload)

def borrowedPeer (router : Router serde R) (req : R) : Peer := fun text =>
  some (textOf wire.printer (onRequestBorrowed router req text))

theorem add_failed (batch : Batch serde) (added : Added serde) (error : TransportError)
    (h : batch.error = some error) :
    (added.foldl (fun batch call => batch.add call.1 call.2) batch).error = some error := by
  induction added generalizing batch with
  | nil => exact h
  | cons call added ih =>
    have hsame : batch.add call.1 call.2 = batch := by
      unfold Batch.add
      rw [h]
    rw [foldl_cons, hsame]
    exact ih batch h

theorem addAll_calls (batch : Batch serde) (added : Added serde) (hstart : batch.error = none)
    (h : (added.foldl (fun batch call => batch.add call.1 call.2) batch).error = none) :
    ∃ calls, added = calls.map (fun call => (call.1, some call.2)) ∧
      (added.foldl (fun batch call => batch.add call.1 call.2) batch).calls =
        batch.calls ++ calls := by
  induction added generalizing batch with
  | nil => exact ⟨[], rfl, (append_nil _).symm⟩
  | cons call added ih =>
    obtain ⟨action, params⟩ := call
    cases params with
    | none =>
      have hfailed : (batch.add action none).error = some .encode := by
        unfold Batch.add
        rw [hstart]
      rw [foldl_cons, add_failed _ added _ hfailed] at h
      cases h
    | some value =>
      have hadd : batch.add action (some value) =
          { batch with calls := batch.calls ++ [(action, value)] } := by
        unfold Batch.add
        rw [hstart]
      rw [foldl_cons, hadd] at h ⊢
      obtain ⟨calls, hcalls, hsame⟩ :=
        ih { batch with calls := batch.calls ++ [(action, value)] } hstart h
      refine ⟨(action, value) :: calls, by rw [hcalls, map_cons], ?_⟩
      rw [hsame, append_assoc, singleton_append]

theorem send_ok {peer : Peer} {added : Added serde} {results : BatchResults serde}
    (h : (addAll added).send wire peer = .ok results) :
    ∃ calls : List (String × Value serde.Number),
      added = calls.map (fun call => (call.1, some call.2)) ∧ (addAll added).calls = calls ∧
      results.actions = calls.map Prod.fst ∧
      (peer (textOf wire.printer
        (.array (calls.map fun call => .array [.string call.1, call.2])))).bind
          (fromText serde.number) = some (.array results.envelopes) := by
  unfold Batch.send at h
  split at h
  · cases h
  · next hnone =>
    obtain ⟨calls, hadded, hcalls⟩ := addAll_calls Client.batch added rfl hnone
    have hbatch : (addAll added).calls = calls := hcalls
    unfold Batch.payload at h
    rw [hbatch] at h
    refine ⟨calls, hadded, hbatch, ?_⟩
    split at h
    · cases h
    · next envelopes hbody =>
      cases h
      exact ⟨rfl, hbody⟩
    · cases h

/-- One envelope for each call, so that an index names the same call everywhere. -/
def Aligned (added : Added serde) (results : BatchResults serde) : Prop :=
  results.envelopes.length = added.length ∧
    ∀ index (h : index < added.length), results.action index = some (added[index]).1 ∧
      results.get wire index ≠ .error (.indexOutOfRange index)

theorem aligned_iff {added : Added serde} {results : BatchResults serde}
    {calls : List (String × Value serde.Number)}
    (hadded : added = calls.map fun call => (call.1, some call.2))
    (hactions : results.actions = calls.map Prod.fst) :
    Aligned wire added results ↔ results.envelopes.length = added.length := by
  refine ⟨fun h => h.1, fun hlength => ⟨hlength, fun index hindex => ⟨?_, ?_⟩⟩⟩
  · unfold BatchResults.action
    subst hadded
    rw [length_map] at hindex
    rw [hactions, List.getElem?_map, List.getElem?_eq_getElem hindex, Option.map_some, getElem_map]
  · unfold BatchResults.get
    rw [List.getElem?_eq_getElem (by omega)]
    dsimp only
    split <;> (intro h; cases h)

/-- What the client reads of an outcome. -/
def receivedResult : Reply serde → Option (ActionResult serde)
  | .ok data => (fromValue serde.number (reread wire.printer serde.number data)).map .ok
  | .error error => (receivedBody wire error).map .error

def received (reply : Reply serde) : Except TransportError (ActionResult serde) :=
  (receivedResult wire reply).elim (.error .decode) .ok

/-- Every reply can be read, and the envelopes are what they are read as. -/
def ReadBack (replies : List (Reply serde)) (envelopes : List (Value serde.Number)) : Prop :=
  (∀ reply ∈ replies, Fits wire.printer serde.number 126 (intoValue reply)) ∧
    envelopes = replies.map fun reply => reread wire.printer serde.number (intoValue reply)

theorem readEnvelope_received (hlaw : wire.Lawful) {reply : Reply serde}
    (hcode : ∀ error, reply = .error error → error.code ≤ 65535)
    (hfits : Fits wire.printer serde.number 126 (intoValue reply)) :
    readEnvelope wire (reread wire.printer serde.number (intoValue reply)) =
      receivedResult wire reply := by
  cases reply with
  | error error =>
    have hplain := ((fits_envelope wire hlaw (hcode error rfl)).mp hfits).2
    exact envelope_error wire hlaw (hcode error rfl) hplain
  | ok data => exact envelope_ok wire data

theorem envelopes_of_replies (hlaw : wire.Lawful) (replies : List (Reply serde))
    (envelopes : List (Value serde.Number))
    (h : fromText serde.number (textOf wire.printer (.array (replies.map intoValue))) =
      some (.array envelopes)) : ReadBack wire replies envelopes := by
  obtain ⟨hfits, hsame⟩ := (fromText_textOf_iff _ _ hlaw.printer _ _).mp h
  refine ⟨fun reply hreply => ?_, ?_⟩
  · exact (fits_array _ _ 126 _).mp hfits _ (mem_map_of_mem hreply)
  · rw [reread, Value.array.injEq] at hsame
    rw [hsame]
    clear h hsame hfits
    induction replies with
    | nil => rfl
    | cons reply replies ih => rw [map_cons, rereadItems, ih, map_cons]

theorem get_received (hlaw : wire.Lawful) {results : BatchResults serde}
    {replies : List (Reply serde)} {index : ℕ} {reply : Reply serde}
    (hcode : ∀ error, reply = .error error → error.code ≤ 65535)
    (hread : ReadBack wire replies results.envelopes) (hreply : replies[index]? = some reply) :
    results.get wire index = received wire reply := by
  unfold BatchResults.get received
  rw [hread.2, List.getElem?_map, hreply, Option.map_some]
  dsimp only
  rw [readEnvelope_received wire hlaw hcode (hread.1 reply (mem_of_getElem? hreply))]
  cases receivedResult wire reply <;> rfl

theorem batch_read (hlaw : wire.Lawful) {calls : List (String × Value serde.Number)}
    {payload : Value serde.Number}
    (h : fromText serde.number (textOf wire.printer
      (.array (calls.map fun call => .array [.string call.1, call.2]))) = some payload) :
    payload = .array (calls.map fun call =>
      .array [.string call.1, reread wire.printer serde.number call.2]) := by
  obtain ⟨-, rfl⟩ := (fromText_textOf_iff _ _ hlaw.printer _ _).mp h
  clear h
  rw [reread]
  congr 1
  induction calls with
  | nil => rfl
  | cons call calls ih =>
    rw [map_cons, rereadItems, ih, map_cons]
    rfl

theorem ownedPeer_replies (hlaw : wire.Lawful) {router : Router serde R} {req : R}
    {calls : List (String × Value serde.Number)} {envelopes : List (Value serde.Number)}
    (h : (ownedPeer wire router req (textOf wire.printer
      (.array (calls.map fun call => .array [.string call.1, call.2])))).bind
        (fromText serde.number) = some (.array envelopes)) :
    ReadBack wire (calls.map fun call =>
      dispatchOne router req call.1 (reread wire.printer serde.number call.2)) envelopes := by
  unfold ownedPeer at h
  obtain ⟨body, hbody, h⟩ := Option.bind_eq_some_iff.mp h
  obtain ⟨payload, hpayload, rfl⟩ := Option.map_eq_some_iff.mp hbody
  rw [batch_read wire hlaw hpayload] at h
  unfold onRequest runAll parseArray at h
  simp only [map_map] at h
  refine envelopes_of_replies wire hlaw _ envelopes ?_
  rw [map_map]
  exact h

theorem textsOf_eq (items : List (Value serde.Number)) :
    textsOf wire.printer items = items.map (textOf wire.printer) := by
  induction items with
  | nil => rfl
  | cons item items ih => rw [textsOf, ih, map_cons]

theorem arrayParts_textOf (hlaw : wire.Lawful) (items : List (Value serde.Number)) :
    arrayParts (textOf wire.printer (.array items)) = some (items.map (textOf wire.printer)) := by
  rw [textOf, textsOf_eq]
  refine arrayParts_write _ fun text htext => ?_
  obtain ⟨item, -, rfl⟩ := mem_map.mp htext
  exact (spells_textOf hlaw.printer item).1

theorem readPair_call (hlaw : wire.Lawful) {action : String} {params : Value serde.Number}
    {pair : String × List Char}
    (h : readPair (textOf wire.printer (.array [.string action, params])) = some pair) :
    pair = (action, textOf wire.printer params) := by
  unfold readPair borrowStr at h
  rw [arrayParts_textOf wire hlaw, map_cons, map_singleton, textOf] at h
  dsimp only at h
  split at h
  · cases h
  · rw [readString_quoted _ _ fun c _ => hlaw.printer.escape c, String.ofList_toList] at h
    exact (Option.some.inj h).symm

theorem readPairs_calls (hlaw : wire.Lawful) {calls : List (String × Value serde.Number)}
    {pairs : List (String × List Char)}
    (h : (calls.map fun call => textOf wire.printer (.array [.string call.1, call.2])).mapM readPair =
      some pairs) : pairs = calls.map fun call => (call.1, textOf wire.printer call.2) := by
  induction calls generalizing pairs with
  | nil => exact (Option.some.inj h).symm
  | cons call calls ih =>
    rw [map_cons, mapM_cons] at h
    obtain ⟨pair, hpair, h⟩ := Option.bind_eq_some_iff.mp h
    obtain ⟨rest, hrest, heq⟩ := Option.bind_eq_some_iff.mp h
    rw [readPair_call wire hlaw hpair, ih hrest] at heq
    exact (Option.some.inj heq).symm

theorem borrowedPeer_replies (hlaw : wire.Lawful) {router : Router serde R} {req : R}
    {calls : List (String × Value serde.Number)} {envelopes : List (Value serde.Number)}
    (h : (borrowedPeer wire router req (textOf wire.printer
      (.array (calls.map fun call => .array [.string call.1, call.2])))).bind
        (fromText serde.number) = some (.array envelopes)) :
    ReadBack wire (calls.map fun call =>
      dispatchOneBorrowed router req call.1 (textOf wire.printer call.2)) envelopes := by
  set items := calls.map fun call => Value.array [.string call.1, call.2] with hitems
  have htrim := (spells_textOf hlaw.printer (.array items)).1.trim
  have hparts := arrayParts_textOf wire hlaw items
  rw [← htrim] at hparts
  unfold borrowedPeer at h
  rw [Option.bind_some, onRequestBorrowed, readMap, objectParts_of_arrayParts _ _ hparts, readPairs,
    hparts, Option.bind_none, Option.bind_some] at h
  dsimp only at h
  cases hpairs : (items.map (textOf wire.printer)).mapM readPair with
  | none =>
    rw [hpairs] at h
    cases (fromText_textOf_iff _ _ hlaw.printer _ _).mp h |>.2
  | some pairs =>
    rw [hpairs] at h
    dsimp only at h
    rw [hitems, map_map] at hpairs
    obtain rfl := readPairs_calls wire hlaw hpairs
    refine envelopes_of_replies wire hlaw _ envelopes ?_
    rw [← h]
    simp only [map_map]
    rfl

theorem reply_at {α β : Type} {calls : List (String × α)} (answer : String → α → β) {index : ℕ}
    {action : String} {params : α}
    (h : (calls.map fun call => (call.1, some call.2))[index]? = some (action, some params)) :
    (calls.map fun call => answer call.1 call.2)[index]? = some (answer action params) := by
  rw [List.getElem?_map] at h ⊢
  obtain ⟨call, hcall, heq⟩ := Option.map_eq_some_iff.mp h
  rw [hcall]
  cases heq
  rfl

/-- A batch that was sent has an envelope for each call exactly if the array that answers
it is as long; a router's always is, and holds the outcome of each call in its place. -/
theorem batch_aligned_iff (hlaw : wire.Lawful) :
    (∀ (peer : Peer) (added : Added serde) (results : BatchResults serde),
      (addAll added).send wire peer = .ok results → (Aligned wire added results ↔ ∃ body items,
          peer (textOf wire.printer (addAll added).payload) = some body ∧
            fromText serde.number body = some (.array items) ∧ items.length = added.length)) ∧
    (∀ (router : Router serde R) (req : R) (added : Added serde) (results : BatchResults serde),
      (addAll added).send wire (ownedPeer wire router req) = .ok results →
        Aligned wire added results ∧ ∀ index action params,
          added[index]? = some (action, some params) →
            let reply := dispatchOne router req action (reread wire.printer serde.number params)
            (∀ error, reply = .error error → error.code ≤ 65535) →
              results.get wire index = received wire reply) ∧
    ∀ (router : Router serde R) (req : R) (added : Added serde) (results : BatchResults serde),
      (addAll added).send wire (borrowedPeer wire router req) = .ok results →
        Aligned wire added results ∧ ∀ index action params,
          added[index]? = some (action, some params) →
            let reply := dispatchOneBorrowed router req action (textOf wire.printer params)
            (∀ error, reply = .error error → error.code ≤ 65535) →
              results.get wire index = received wire reply := by
  refine ⟨fun peer added results h => ?_, fun router req added results h => ?_,
    fun router req added results h => ?_⟩
  · obtain ⟨calls, hadded, hcalls, hactions, hbody⟩ := send_ok wire h
    rw [aligned_iff wire hadded hactions]
    unfold Batch.payload
    rw [hcalls]
    obtain ⟨body, hpeer, hread⟩ := Option.bind_eq_some_iff.mp hbody
    constructor
    · intro hlength
      exact ⟨body, results.envelopes, hpeer, hread, hlength⟩
    · rintro ⟨body', items, hpeer', hread', hlength⟩
      rw [hpeer] at hpeer'
      cases hpeer'
      rw [hread] at hread'
      cases hread'
      exact hlength
  · obtain ⟨calls, hadded, -, hactions, hbody⟩ :=
      send_ok wire h
    have henvelopes := ownedPeer_replies wire hlaw hbody
    refine ⟨(aligned_iff wire hadded hactions).mpr ?_, ?_⟩
    · rw [henvelopes.2, hadded]
      simp only [length_map]
    · intro index action params hindex reply hcode
      rw [hadded] at hindex
      exact get_received wire hlaw hcode henvelopes
        (reply_at (fun action params =>
          dispatchOne router req action (reread wire.printer serde.number params)) hindex)
  · obtain ⟨calls, hadded, -, hactions, hbody⟩ :=
      send_ok wire h
    have henvelopes := borrowedPeer_replies wire hlaw hbody
    refine ⟨(aligned_iff wire hadded hactions).mpr ?_, ?_⟩
    · rw [henvelopes.2, hadded]
      simp only [length_map]
    · intro index action params hindex reply hcode
      rw [hadded] at hindex
      exact get_received wire hlaw hcode henvelopes
        (reply_at (fun action params =>
          dispatchOneBorrowed router req action (textOf wire.printer params))
          hindex)

end

def twice : Added RouterRequests.naturals := [("a", some (.string "x")), ("a", some (.string "y"))]

theorem twice_aligned : decimalWire.Lawful ∧ ∃ results,
    (addAll twice).send decimalWire (ownedPeer decimalWire RouterRequests.echoRouter ()) =
      .ok results ∧
    results.envelopes.length = 2 ∧ results.get decimalWire 1 = .ok (.ok (.string "y")) := by
  have hsent : ((addAll twice).send decimalWire
      (ownedPeer decimalWire RouterRequests.echoRouter ())).isOk = true := by decide +kernel
  cases hresults : (addAll twice).send decimalWire
      (ownedPeer decimalWire RouterRequests.echoRouter ()) with
  | error error =>
    rw [hresults] at hsent
    cases hsent
  | ok results =>
    obtain ⟨haligned, hget⟩ := (batch_aligned_iff decimalWire decimalWire_lawful).2.1
      RouterRequests.echoRouter () twice results hresults
    exact ⟨decimalWire_lawful, results, rfl, haligned.1, hget 1 "a" (.string "y") rfl nofun⟩

/-- The peer answers one call with an empty array. -/
theorem empty_answer_accepted :
    let batch : Batch RouterRequests.naturals := addAll [("a", some .null)]
    ∃ results, batch.send decimalWire (fun _ => some "[]".toList) = .ok results ∧
      results.action 0 = some "a" ∧ results.envelopes.length = 0 ∧
      results.get decimalWire 0 = .error (.indexOutOfRange 0) := by
  have hread : fromText RouterRequests.naturals.number "[]".toList = some (.array []) :=
    (fromText_textOf_iff decimalWire.printer _ decimalWire_lawful.printer (.array []) _).mpr
      ⟨⟨by decide, rfl, rfl⟩, rfl⟩
  refine ⟨⟨["a"], []⟩, ?_, rfl, rfl, rfl⟩
  unfold Batch.send
  rw [Option.bind_some, hread]
  rfl

end Stakit.RouterTransports
