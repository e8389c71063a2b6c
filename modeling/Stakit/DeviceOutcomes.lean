import Stakit.ClientCalls
import Stakit.PostgresSizes
import Stakit.SerdeText

set_option autoImplicit false

namespace Stakit.PostgresBroker
open JsonText (IsRaw trim)
open SerdeJson RouterError

section
variable {N : Type} (printer : Printer N) (number : List Char → Option N)

/-- What a reply's value may still nest: the body stands around it as two objects. -/
def replyDepth : ℕ := maxDepth - 2

def jsonValues : ValueCodec where
  Value := Value N
  null := .null
  text value := String.ofList (textOf printer value)
  read raw := (JsonText.parse raw).bind (ofTree number replyDepth)

abbrev Client (N : Type) := String → Value N → Except Error (Value N)

abbrev Outcome (N : Type) := Except Error (Value N)

/-- `BrokerSink::call`; nothing when this node does not hold the device. -/
def sinkCall (device : Option (Client N)) (payload : List Char) : Option (Outcome N) :=
  device.map fun client =>
    match PubsubFrames.readIncoming payload with
    | none => .error (coded 400 "bad_request" "malformed broker call")
    | some incoming =>
      match incoming.params.elim (some .null) fun raw => fromText number raw.toList with
      | some params => client (incoming.name.getD "") params
      | none => .error (badRequest "invalid parameters")

def replyBody (dest id : ℕ) : Outcome N → Body (jsonValues printer number).json
  | .ok value => .reply dest id (some value) none
  | .error error => .reply dest id none (some ⟨error.code, error.message⟩)

variable (hmac : List UInt8 → String → Vector UInt8 32)

/-- The texts `Inner::reply` may queue: the answer, or the error its size raised. -/
def replyText (holder : Inner) (counter time dest id : ℕ) (outcome : Outcome N) : Option String :=
  match sealText (serde (jsonValues printer number) hmac) holder.key holder.node counter time
      (replyBody printer number dest id outcome) with
  | .ok text => some text
  | .error error =>
    (sealText (serde (jsonValues printer number) hmac) holder.key holder.node (addOne counter) time
      (replyBody printer number dest id (.error error))).toOption

/-- The request `client_call_device` queues on a node that does not hold the device. -/
def requestText (caller : Inner) (counter time id : ℕ) (topic name : String) (params : Value N) :
    Except Error String := do
  let payload := hubPayload name (textOf printer params)
  validate topic payload
  let p ← rawPayload (jsonValues printer number) payload
  sealText (serde (jsonValues printer number) hmac) caller.key caller.node counter time
    (.call id topic p)

/-- Two nodes while a call is under way: neither message is lost, late or a replay, and
the caller still waits. -/
structure Exchange where
  caller : Inner
  holder : Inner
  id : ℕ
  waiter : ℕ
  callCounter : ℕ
  callTime : ℕ
  callArrival : ℕ
  replyCounter : ℕ
  replyTime : ℕ
  replyArrival : ℕ
  sameKey : caller.key = holder.key
  apart : caller.node ≠ holder.node
  callerSized : caller.node ≤ u64Max
  holderSized : holder.node ≤ u64Max
  idSized : id ≤ u64Max
  callCounterSized : callCounter ≤ u64Max
  replyCounterSized : replyCounter ≤ u64Max
  callTimeSized : callTime ≤ u64Max
  replyTimeSized : replyTime ≤ u64Max
  callInTime : absDiff (nowMs callArrival) callTime ≤ maxSkewMs
  replyInTime : absDiff (nowMs replyArrival) replyTime ≤ maxSkewMs
  callFresh : (holder.seen.lookup caller.node).getD 0 ≤ callCounter
  replyFresh : (caller.seen.lookup holder.node).getD 0 ≤ replyCounter
  callerAttached : caller.attached = true
  holderAttached : holder.attached = true
  room : holder.permits ≠ 0
  waiting : caller.pending.lookup id = some waiter

/-- What the waiting caller is sent, if anything. -/
def heardBack (x : Exchange) (reply : String) : Option (Outcome N) :=
  match (handle (serde (jsonValues printer number) hmac) x.caller reply x.replyArrival).2 with
  | .answer (some _) outcome => some outcome
  | _ => none

/-- `Hub::client_call_device`: `here` is the connection holding the device on this node,
`there` the one on the other. Nothing when the caller is left to time out. -/
def clientCallDevice (x : Exchange) (here there : Option (Client N)) (topic name : String)
    (params : Value N) : Option (Outcome N) :=
  match here with
  | some client => some (client name params)
  | none =>
    match requestText printer number hmac x.caller x.callCounter x.callTime x.id topic name params with
    | .error error => some (.error error)
    | .ok request =>
      match (handle (serde (jsonValues printer number) hmac) x.holder request x.callArrival).2 with
      | .call origin id _ payload =>
        (sinkCall number there payload.toList).bind fun outcome =>
        (replyText printer number hmac x.holder x.replyCounter x.replyTime origin id outcome).bind
          (heardBack printer number hmac x)
      | _ => none

theorem jsonText_raw (hlaw : printer.Lawful) (value : Value N) :
    IsRaw ((jsonValues printer number).text value).toList := by
  change IsRaw (String.ofList (textOf printer value)).toList
  rw [String.toList_ofList]
  exact (spells_textOf hlaw value).1

theorem textOf_null (hlaw : printer.Lawful) (value : Value N)
    (h : textOf printer value = "null".toList) : value = .null := by
  have htree : treeOf printer value = treeOf printer (.null : Value N) := by
    have hnull := (spells_textOf hlaw (.null : Value N)).2
    have hvalue := (spells_textOf hlaw value).2
    rw [h] at hvalue
    rw [textOf, hvalue] at hnull
    exact Option.some.inj hnull
  cases value <;> first | rfl | cases htree

theorem readBack_json (hlaw : printer.Lawful) (value : Value N) :
    (readBack (jsonValues printer number) (some value)).map (fun ok => ok.getD .null) =
      ofTree number replyDepth (treeOf printer value) := by
  have htext : ((jsonValues printer number).json.text value).toList = textOf printer value :=
    String.toList_ofList
  have hnulls : (jsonValues printer number).json.text value = "null" ↔ value = .null := by
    rw [← String.toList_inj, htext]
    refine ⟨textOf_null printer hlaw value, ?_⟩
    rintro rfl
    rw [textOf]
  have hread : (jsonValues printer number).read (textOf printer value) =
      ofTree number replyDepth (treeOf printer value) := by
    change (JsonText.parse (textOf printer value)).bind _ = _
    rw [(spells_textOf hlaw value).2, Option.bind_some]
  unfold readBack
  dsimp only
  rw [htext, hread]
  by_cases hnull : value = .null
  · subst hnull
    rw [if_pos (hnulls.mpr rfl), treeOf]
    rfl
  · rw [if_neg (fun h => hnull (hnulls.mp h))]
    cases ofTree number replyDepth (treeOf printer value) <;> rfl

/-- A message from another node that is opened, not seen before and awaited is dispatched. -/
theorem handle_dispatches {json : Json} {codec : Codec json} {inner : Inner} {text : String}
    {elapsed : ℕ} {opened : Opened json}
    (hopen : openText codec inner.key text (nowMs elapsed) = some opened)
    (hapart : opened.origin ≠ inner.node)
    (hfresh : (inner.seen.lookup opened.origin).getD 0 ≤ opened.counter)
    (hattached : inner.attached = true) :
    (handle codec inner text elapsed).2 = (dispatch inner opened.origin opened.body).2 := by
  unfold handle fresh
  rw [hopen]
  dsimp only
  rw [if_neg hapart, if_pos hfresh]
  dsimp only
  rw [if_neg (by decide), hattached, if_neg (by decide)]
  cases opened.body with
  | publish topic p => rfl
  | call id topic p | reply dest id ok err =>
    unfold dispatch
    dsimp only
    split <;> rfl

/-- The sealed body of another node, as a node that is neither behind nor late handles it. -/
theorem handle_sealed (hlaw : printer.Lawful) (sender receiver : Inner)
    (counter time elapsed : ℕ) (body : Body (jsonValues printer number).json) (text : String)
    (hkey : sender.key = receiver.key) (hapart : sender.node ≠ receiver.node)
    (hnode : sender.node ≤ u64Max) (hcounter : counter ≤ u64Max) (htime : time ≤ u64Max)
    (hsized : Sized body) (hskew : absDiff (nowMs elapsed) time ≤ maxSkewMs)
    (hfresh : (receiver.seen.lookup sender.node).getD 0 ≤ counter)
    (hattached : receiver.attached = true)
    (hseal : sealText (serde (jsonValues printer number) hmac) sender.key sender.node counter time
      body = .ok text) :
    (handle (serde (jsonValues printer number) hmac) receiver text elapsed).2 =
      match heard (jsonValues printer number) body with
      | some body => (dispatch receiver sender.node body).2
      | none => .unread := by
  have hopen := sealText_opens (jsonValues printer number) hmac (jsonText_raw printer number hlaw)
    sender.key sender.node counter time (nowMs elapsed) body text hnode hcounter htime hsized hseal
    hskew
  rw [hkey] at hopen
  cases hheard : heard (jsonValues printer number) body with
  | none =>
    rw [hheard, Option.map_none] at hopen
    unfold handle
    rw [hopen]
  | some body' =>
    rw [hheard, Option.map_some] at hopen
    exact handle_dispatches hopen hapart hfresh hattached

theorem requestText_ok (caller : Inner) (counter time id : ℕ) (topic name request : String)
    (params : Value N) (hlaw : printer.Lawful)
    (h : requestText printer number hmac caller counter time id topic name params = .ok request) :
    ∃ p : RawValue (jsonValues printer number).json,
      p.text = hubPayload name (textOf printer params) ∧
      sealText (serde (jsonValues printer number) hmac) caller.key caller.node counter time
        (.call id topic p) = .ok request := by
  obtain ⟨p, hp, htext⟩ := rawPayload_isRaw (jsonValues printer number)
    (hubPayload name (textOf printer params))
    (isRaw_hubPayload name _ (spells_textOf hlaw params).1)
  refine ⟨p, htext, ?_⟩
  unfold requestText at h
  obtain ⟨_, h⟩ := (ExceptLoops.then_eq_ok _ _ _).mp h
  obtain ⟨found, hfound, h⟩ := (ExceptLoops.bind_eq_ok _ _ _).mp h
  rw [hp] at hfound
  cases hfound
  exact h

theorem sinkCall_payload (hlaw : printer.Lawful) (client : Client N) (name : String)
    {params heard : Value N} (hheard : fromText number (textOf printer params) = some heard) :
    sinkCall number (some client) (hubPayload name (textOf printer params)).toList =
      some (client name heard) := by
  have hraw : IsRaw (trim (textOf printer params)) := by
    rw [(spells_textOf hlaw params).1.trim]
    exact (spells_textOf hlaw params).1
  unfold sinkCall hubPayload
  rw [String.toList_ofList, Option.map_some,
    PubsubFrames.readIncoming_publishPayload name _ hraw, (spells_textOf hlaw params).1.trim]
  simp only [PubsubHub.publishPayload, Option.elim_some, String.toList_ofList, hheard,
    Option.getD_some]

theorem clientCallDevice_there (hlaw : printer.Lawful) {x : Exchange} (client : Client N)
    {topic name request : String} {params heard : Value N}
    (hrequest : requestText printer number hmac x.caller x.callCounter x.callTime x.id topic name
      params = .ok request)
    (hheard : fromText number (textOf printer params) = some heard) :
    clientCallDevice printer number hmac x none (some client) topic name params =
      (replyText printer number hmac x.holder x.replyCounter x.replyTime x.caller.node x.id
        (client name heard)).bind (heardBack printer number hmac x) := by
  obtain ⟨p, hp, hseal⟩ := requestText_ok printer number hmac x.caller x.callCounter x.callTime x.id
    topic name request params hlaw hrequest
  have hhandled := handle_sealed printer number hmac hlaw x.caller x.holder x.callCounter x.callTime
    x.callArrival (.call x.id topic p) request x.sameKey x.apart x.callerSized x.callCounterSized
    x.callTimeSized x.idSized x.callInTime x.callFresh x.holderAttached hseal
  have hdispatch : (dispatch x.holder x.caller.node
      (.call x.id topic p : Body (jsonValues printer number).json)).2 =
      .call x.caller.node x.id topic p.text := by
    unfold dispatch
    dsimp only
    rw [if_neg x.room]
  have hcall : (handle (serde (jsonValues printer number) hmac) x.holder request x.callArrival).2 =
      .call x.caller.node x.id topic p.text := hhandled.trans hdispatch
  unfold clientCallDevice
  rw [hrequest]
  dsimp only
  rw [hcall]
  dsimp only
  rw [hp, sinkCall_payload printer number hlaw client name hheard, Option.bind_some]

/-- What the types of a result allow: its code is a `u16`, its objects are maps. -/
def Typed : Outcome N → Prop
  | .ok value => Proper value
  | .error error => error.code ≤ u16Max

theorem sized_replyBody {dest id : ℕ} {outcome : Outcome N} (hdest : dest ≤ u64Max)
    (hid : id ≤ u64Max) (htyped : Typed outcome) :
    Sized (replyBody printer number dest id outcome) := by
  cases outcome with
  | ok value => exact ⟨hdest, hid, nofun⟩
  | error error =>
    refine ⟨hdest, hid, fun failure hfailure => ?_⟩
    rw [← Option.some.inj hfailure]
    exact htyped

def carried : Outcome N → Option (Outcome N)
  | .ok value => (ofTree number replyDepth (treeOf printer value)).map .ok
  | .error error => some (.error (applicationError error.code error.message))

theorem heardBack_sealed (hlaw : printer.Lawful) {x : Exchange} (outcome : Outcome N)
    {reply : String} (htyped : Typed outcome)
    (hseal : sealText (serde (jsonValues printer number) hmac) x.holder.key x.holder.node
      x.replyCounter x.replyTime (replyBody printer number x.caller.node x.id outcome) =
        .ok reply) :
    heardBack printer number hmac x reply = carried printer number outcome := by
  have hhandled := handle_sealed printer number hmac hlaw x.holder x.caller x.replyCounter
    x.replyTime x.replyArrival _ reply x.sameKey.symm x.apart.symm x.holderSized
    x.replyCounterSized x.replyTimeSized
    (sized_replyBody printer number x.callerSized x.idSized htyped)
    x.replyInTime x.replyFresh x.callerAttached hseal
  have hanswer : ∀ ok err, (dispatch x.caller x.holder.node
      (.reply x.caller.node x.id ok err : Body (jsonValues printer number).json)).2 =
      .answer (some x.waiter) (err.elim (.ok (ok.getD (.null : Value N))) fun failure =>
        .error (applicationError failure.code failure.message)) := by
    intro ok err
    unfold dispatch
    dsimp only
    rw [if_pos rfl, x.waiting]
    cases err with
    | none | some failure => rfl
  unfold heardBack
  rw [hhandled]
  clear hhandled hseal
  cases outcome with
  | error error =>
    have hheard : heard (jsonValues printer number)
        (replyBody printer number x.caller.node x.id (.error error)) =
        some (.reply x.caller.node x.id none (some ⟨error.code, error.message⟩)) := rfl
    rw [hheard]
    dsimp only
    rw [hanswer]
    rfl
  | ok value =>
    have hheard : heard (jsonValues printer number)
        (replyBody printer number x.caller.node x.id (.ok value)) =
        (readBack (jsonValues printer number) (some value)).map fun ok =>
          .reply x.caller.node x.id ok none := rfl
    rw [hheard]
    have hread := readBack_json printer number hlaw value
    cases hback : readBack (jsonValues printer number) (some value) with
    | none =>
      rw [hback] at hread
      rw [carried, ← hread]
      rfl
    | some ok =>
      rw [hback] at hread
      dsimp only [Option.map_some]
      rw [hanswer, carried, ← hread]
      rfl

/-- A value the bus carries as it is, or an error of the kind `Error::new` gives. -/
def Survives : Outcome N → Prop
  | .ok value => depth value ≤ replyDepth ∧ RoundTrips printer number value
  | .error error => error.kind = "error"

end

def decimals : Printer ℕ := ⟨escapeJson, Nat.toDigits 10⟩

theorem decimals_lawful : decimals.Lawful where
  escape := escapeJson_reads
  token := JsonText.word_toDigits

example : textOf decimals .null = "null".toList := by decide +kernel

/-- Node 1 calls a device that node 2 holds. -/
def twoNodes : Exchange where
  caller := { newInner busKey 1 true with pending := (∅ : FiniteMap.Map ℕ ℕ).insert 0 0 }
  holder := newInner busKey 2 true
  id := 0
  waiter := 0
  callCounter := 0
  callTime := 0
  callArrival := 0
  replyCounter := 0
  replyTime := 0
  replyArrival := 0
  sameKey := rfl
  apart := by decide
  callerSized := by decide
  holderSized := by decide
  idSized := by decide
  callCounterSized := by decide
  replyCounterSized := by decide
  callTimeSized := by decide
  replyTimeSized := by decide
  callInTime := by decide
  replyInTime := by decide
  callFresh := by decide
  replyFresh := by decide
  callerAttached := rfl
  holderAttached := rfl
  room := by decide
  waiting := by decide

section
variable (hmac : List UInt8 → String → Vector UInt8 32)

theorem twoNodes_asks : ∃ request, requestText decimals (readUnsigned u64Max) hmac twoNodes.caller
    twoNodes.callCounter twoNodes.callTime twoNodes.id "device:u/d" "locate" .null =
      .ok request := by
  obtain ⟨p, hp, htext⟩ := rawPayload_isRaw (jsonValues decimals (readUnsigned u64Max))
    (hubPayload "locate" (textOf decimals .null))
    (isRaw_hubPayload _ _ (spells_textOf decimals_lawful .null).1)
  have hvalid : validate "device:u/d" (hubPayload "locate" (textOf decimals .null)) = .ok () := by
    decide +kernel
  have hseal := (sealText_eq_ok (jsonValues decimals (readUnsigned u64Max)) hmac
    twoNodes.caller.key twoNodes.caller.node twoNodes.callCounter twoNodes.callTime
    (.call twoNodes.id "device:u/d" p)).mpr (by
      rw [call_length, htext]
      decide +kernel)
  obtain ⟨request, hrequest⟩ := hseal
  refine ⟨request, ?_⟩
  unfold requestText
  dsimp only
  rw [hp, hvalid]
  exact hrequest

theorem null_reads : fromText (readUnsigned u64Max) (textOf decimals .null) = some .null :=
  (fromText_textOf_iff decimals (readUnsigned u64Max) decimals_lawful .null .null).mpr
    ⟨fits_leaf rfl rfl rfl, rfl⟩

def locates : Client ℕ := fun _ _ => .ok (.bool true)

theorem located_seals : ∃ reply, sealText (serde (jsonValues decimals (readUnsigned u64Max)) hmac)
    twoNodes.holder.key twoNodes.holder.node twoNodes.replyCounter twoNodes.replyTime
    (replyBody decimals (readUnsigned u64Max) twoNodes.caller.node twoNodes.id
      (.ok (.bool true))) = .ok reply :=
  (sealText_eq_ok (jsonValues decimals (readUnsigned u64Max)) hmac _ _ _ _ _).mpr
    (by decide +kernel)

def gone : Client ℕ := fun _ _ => .error ClientCalls.closedError

end

end Stakit.PostgresBroker
