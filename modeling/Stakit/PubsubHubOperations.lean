import Stakit.PubsubHubState

set_option autoImplicit false

namespace Stakit.PubsubHub
open FiniteMap PubsubTopic RouterError

def slot (h : Hub) (topic : Topic) : ℕ := h.hasher topic % revocationSlots

def revocationMark (h : Hub) (topic : Topic) : ℕ := h.revocations (slot h topic)

def bumpSlot (h : Hub) (s : ℕ) : Hub :=
  { h with revocations := Function.update h.revocations s (h.revocations s + 1) }

def revoke (h : Hub) (topic : Topic) : Hub := bumpSlot h (slot h topic)

/-- The value `new_epoch` returns at its call number `step`. -/
def epochAt (base step : ℕ) : ℕ := (base + step) % 2 ^ 64 &&& jsSafe

def newEpoch (h : Hub) : ℕ := epochAt h.epochBase h.nextEpoch

def hasTopic (h : Hub) (topic : Topic) : Bool := (h.index.lookup topic).isSome

/-- The first subscriber creates the topic and tells the broker. -/
def ensureTopic (h : Hub) (topic : Topic) : Hub :=
  if hasTopic h topic then h
  else
    { h with
      interest := insert topic h.interest
      index := h.index.insert topic ⟨[], List.nodup_nil, ⟨newEpoch h, 0⟩⟩
      nextEpoch := h.nextEpoch + 1
      trace := h.trace ++ [.opened topic ⟨newEpoch h, 0⟩] }

def addSubscriber (state : TopicState) (id : ConnId) : TopicState :=
  ⟨state.subscribers.insert id, state.distinct.insert, state.cursor⟩

def removeSubscriber (state : TopicState) (id : ConnId) : TopicState :=
  ⟨state.subscribers.filter (· ≠ id), state.distinct.filter _, state.cursor⟩

def joinTopic (h : Hub) (id : ConnId) (conn : Conn) (topic : Topic) (state : TopicState)
    (explicit : Bool) : Hub :=
  { h with
    index := h.index.insert topic (addSubscriber state id)
    byId := h.byId.insert id
      { conn with
        topics := conn.topics.insert topic explicit
        explicit := conn.explicit + explicit.toNat } }

/-- Queues the ack under the shard lock, so no publish overtakes it. -/
def sendAck (h : Hub) (id : ConnId) (topic : Topic) (ack : Option (Cursor → Frame))
    (position : Cursor) : Hub × List ConnId :=
  match ack with
  | none => (h, [])
  | some ack =>
    let sent := trySend h.peers id (ack position)
    ({ h with peers := sent.1, trace := h.trace ++ [.acked topic position] },
      if sent.2 then [] else [id])

def subscribeLocked (h : Hub) (id : ConnId) (topic : Topic) (request : Subscribe) :
    Hub × List ConnId × Except Error Cursor :=
  match h.byId.lookup id with
  | none => (h, [], .error gone)
  | some conn =>
    if request.mark.any (fun mark => mark ≠ revocationMark h topic) then
      (h, [], .error subscriptionRevoked)
    else
      let already := (conn.topics.lookup topic).isSome
      if !already && request.explicit && decide (request.max ≤ conn.explicit) then
        (h, [], .error tooManySubscriptions)
      else
        let opened := ensureTopic h topic
        match opened.index.lookup topic with
        | none => (opened, [], .error gone)
        | some state =>
          let joined :=
            if already then opened else joinTopic opened id conn topic state request.explicit
          let acked := sendAck joined id topic request.ack state.cursor
          (acked.1, acked.2, .ok state.cursor)

def dropFrom (index : Map Topic TopicState) (interest : Finset Topic) (topic : Topic)
    (id : ConnId) : Map Topic TopicState × Finset Topic :=
  match index.lookup topic with
  | none => (index, interest)
  | some state =>
    let rest := removeSubscriber state id
    if rest.subscribers = [] then (index.erase topic, interest.erase topic)
    else (index.insert topic rest, interest)

def dropSubscriber (h : Hub) (topic : Topic) (id : ConnId) : Hub :=
  { h with
    index := (dropFrom h.index h.interest topic id).1
    interest := (dropFrom h.index h.interest topic id).2 }

def releaseUser (perUser : Map String ℕ) (user : Option String) : Map String ℕ :=
  match user with
  | none => perUser
  | some user =>
    match perUser.lookup user with
    | none => perUser
    | some count => if count - 1 = 0 then perUser.erase user else perUser.insert user (count - 1)

def releaseDevice (devices : Map String ConnId) (id : ConnId) (device : Option (String × Topic)) :
    Map String ConnId :=
  match device with
  | none => devices
  | some (device, _) =>
    if devices.lookup device = some id then devices.erase device else devices

/-- `drop_subscriber` for each topic in turn. -/
def dropEach (id : ConnId) :
    Map Topic TopicState × Finset Topic → List Topic → Map Topic TopicState × Finset Topic
  | left, [] => left
  | left, topic :: topics => dropEach id (dropFrom left.1 left.2 topic id) topics

/-- Removes a connection and all its subscriptions; fails its pending client
calls. Returns the connection so that the caller can signal its closer. -/
def detachLocked (h : Hub) (id : ConnId) : Hub × Option Conn :=
  match h.byId.lookup id with
  | none => (h, none)
  | some conn =>
    let left := dropEach id (h.index, h.interest) conn.topics.keys
    ({ h with
        byId := h.byId.erase id
        perUser := releaseUser h.perUser conn.user
        devices := releaseDevice h.devices id conn.device
        index := left.1
        interest := left.2
        peers := failPending h.peers id }, some conn)

def close (h : Hub) (id : ConnId) (reason : CloseReason) : Hub :=
  match detachLocked h id with
  | (h, none) => h
  | (h, some _) => { h with peers := signal h.peers id reason }

def closeAll (h : Hub) (ids : List ConnId) (reason : CloseReason) : Hub :=
  ids.foldl (fun h id => close h id reason) h

/-- `Hub::remove`: the session is gone, nobody is signalled. -/
def remove (h : Hub) (id : ConnId) : Hub := (detachLocked h id).1

def advance (position : Cursor) : Cursor := ⟨position.epoch, (position.seq + 1) &&& jsSafe⟩

def fanOutLocked (h : Hub) (topic : Topic) (name params : String) : Hub × List ConnId :=
  match h.index.lookup topic with
  | none => (h, [])
  | some state =>
    let position := advance state.cursor
    let sent := sendEach (.publish topic name params position) h.peers state.subscribers
    ({ h with
        index := h.index.insert topic { state with cursor := position }
        peers := sent.1
        trace := h.trace ++ [.published topic (name, params) position] }, sent.2)

def fanOut (h : Hub) (topic : Topic) (name params : String) : Hub :=
  let sent := fanOutLocked h topic name params
  closeAll sent.1 sent.2 .slowConsumer

def subscriberIds (h : Hub) (topic : Topic) : List ConnId :=
  ((h.index.lookup topic).map (·.subscribers)).getD []

def forgetTopic (conn : Conn) (topic : Topic) : Conn :=
  match conn.topics.lookup topic with
  | none => conn
  | some explicit =>
    { conn with topics := conn.topics.erase topic, explicit := conn.explicit - explicit.toNat }

def kickOne (topic : Topic) (user : String) (h : Hub) (id : ConnId) : Hub × List ConnId :=
  match h.byId.lookup id with
  | none => (h, [])
  | some conn =>
    if conn.user ≠ some user then (h, [])
    else
      let sent := trySend h.peers id (.unsubscribed topic "kicked")
      let left := { h with byId := h.byId.insert id (forgetTopic conn topic), peers := sent.1 }
      (dropSubscriber left topic id, if sent.2 then [] else [id])

def kickEach (topic : Topic) (user : String) : Hub → List ConnId → Hub × List ConnId
  | h, [] => (h, [])
  | h, id :: ids =>
    let one := kickOne topic user h id
    let rest := kickEach topic user one.1 ids
    (rest.1, one.2 ++ rest.2)

def kickLocked (h : Hub) (topic : Topic) (user : String) : Hub × List ConnId :=
  kickEach topic user (revoke h topic) (subscriberIds (revoke h topic) topic)

def kickLocal (h : Hub) (topic : Topic) (user : String) : Hub :=
  let kicked := kickLocked h topic user
  closeAll kicked.1 kicked.2 .slowConsumer

def closeReason : CloseKind → CloseReason
  | .superseded => .superseded
  | .revoked => .revoked

def closeTopic (h : Hub) (topic : Topic) (kind : CloseKind) : Hub :=
  closeAll h (subscriberIds h topic) (closeReason kind)

/-- `payload` is what parsing the bytes gave, if they parsed. -/
def deliver (h : Hub) (topic : Topic) (payload : Option Incoming) : Hub :=
  if hasTopic h topic then
    match payload with
    | none => h
    | some incoming =>
      match incoming.kick, incoming.close, incoming.name, incoming.params with
      | some user, _, _, _ => kickLocal h topic user
      | none, some kind, _, _ => closeTopic h topic kind
      | none, none, some name, some params => fanOut h topic name params
      | none, none, _, _ => h
  else h

def isExplicit (h : Hub) (id : ConnId) (topic : Topic) : Bool :=
  ((h.byId.lookup id).bind (fun conn => conn.topics.lookup topic)).getD false

/-- One call of the closure `reset` hands to `subscribers.retain`. -/
def resetSubscriber (topic : Topic) (position : Cursor) (h : Hub) (id : ConnId) :
    Hub × List ConnId :=
  let explicit := isExplicit h id topic
  let frame := if explicit then .unsubscribed topic "reset" else .reset topic position
  let sent := trySend h.peers id frame
  let byId :=
    match explicit, h.byId.lookup id with
    | true, some conn =>
      h.byId.insert id
        { conn with topics := conn.topics.erase topic, explicit := conn.explicit - 1 }
    | _, _ => h.byId
  ({ h with byId := byId, peers := sent.1 }, if sent.2 then [] else [id])

def resetEach (topic : Topic) (position : Cursor) : Hub → List ConnId → Hub × List ConnId
  | h, [] => (h, [])
  | h, id :: ids =>
    let one := resetSubscriber topic position h id
    let rest := resetEach topic position one.1 ids
    (rest.1, one.2 ++ rest.2)

/-- The subscribers `retain` keeps. A subscriber's flag only changes at its own
turn, so reading all flags first gives the same set. -/
def keptSubscribers (h : Hub) (topic : Topic) (state : TopicState) (position : Cursor) :
    TopicState :=
  ⟨state.subscribers.filter (fun id => !isExplicit h id topic), state.distinct.filter _, position⟩

/-- The topic's own fate under `retain`: without subscribers it goes, and the
broker is told. -/
def resetIndex (h : Hub) (topic : Topic) (state : TopicState) :
    Map Topic TopicState × Finset Topic :=
  let kept := keptSubscribers h topic state ⟨newEpoch h, 0⟩
  if kept.subscribers = [] then (h.index.erase topic, h.interest.erase topic)
  else (h.index.insert topic kept, h.interest)

def resetOpened (h : Hub) (topic : Topic) : Hub :=
  { h with
    nextEpoch := h.nextEpoch + 1
    trace := h.trace ++ [.opened topic ⟨newEpoch h, 0⟩] }

def resetTopic (h : Hub) (topic : Topic) : Hub × List ConnId :=
  match h.index.lookup topic with
  | none => (h, [])
  | some state =>
    let told := resetEach topic ⟨newEpoch h, 0⟩ (resetOpened h topic) state.subscribers
    ({ told.1 with
        index := (resetIndex h topic state).1
        interest := (resetIndex h topic state).2 }, told.2)

/-- The walk of `reset` under the `conns` lock, in the order `walk`. -/
def resetLocked : Hub → List Topic → Hub × List ConnId
  | h, [] => (h, [])
  | h, topic :: walk =>
    let one := resetTopic h topic
    let rest := resetLocked one.1 walk
    (rest.1, one.2 ++ rest.2)

def bumpAll (h : Hub) : Hub := (List.range revocationSlots).foldl bumpSlot h

def reset (h : Hub) (walk : List Topic) : Hub :=
  let walked := resetLocked (bumpAll h) walk
  closeAll walked.1 walked.2 .slowConsumer

def handOff (h : Hub) (topic : Topic) (payload : Incoming) : Hub :=
  { h with handedOff := h.handedOff ++ [(topic, payload)] }

/-- `Hub::publish` of a payload within the broker's limits. -/
def publish (h : Hub) (topic : Topic) (name params : String) : Hub :=
  handOff (fanOut h topic name params) topic (publishPayload name params)

def kickUser (h : Hub) (topic : Topic) (user : String) : Hub :=
  handOff (kickLocal h topic user) topic (kickPayload user)

def userConns (h : Hub) (user : String) : List ConnId :=
  (h.byId.entries.filter (fun entry => entry.2.user = some user)).map (·.1)

def closeUser (h : Hub) (user : String) : Hub × Except Error Unit :=
  match userTopic user with
  | .error error => (h, .error error)
  | .ok topic =>
    (handOff (closeAll h (userConns h user) .revoked) topic (closePayload .revoked), .ok ())

def closeDevice (h : Hub) (user device : String) : Hub × Except Error Unit :=
  match deviceTopic user device with
  | .error error => (h, .error error)
  | .ok topic =>
    (handOff (closeTopic h topic .revoked) topic (closePayload .revoked), .ok ())

def register (h : Hub) (capacity : ℕ) : Hub :=
  { h with
    byId := h.byId.insert h.nextConn newConn
    nextConn := h.nextConn + 1
    peers := Function.update h.peers h.nextConn ⟨capacity, [], true, none, false⟩ }

def identityTopics (identity : Identity) : Except Error (Option Topic × Option Topic) :=
  match identity.user, identity.device with
  | none, none => .ok (none, none)
  | none, some _ => .error deviceNeedsUser
  | some user, none =>
    match userTopic user with
    | .error error => .error error
    | .ok topic => .ok (some topic, none)
  | some user, some id =>
    match userTopic user, deviceTopic user id with
    | .error error, _ => .error error
    | .ok _, .error error => .error error
    | .ok topic, .ok device => .ok (some topic, some device)

def atCap (h : Hub) (user : Option String) (maxPerUser : ℕ) : Bool :=
  user.any (fun user => maxPerUser ≤ (h.perUser.lookup user).getD 0)

/-- The other local connection that holds the device, if any. -/
def deviceHolder (h : Hub) (id : ConnId) (device : Option String) : Option ConnId :=
  (device.bind (fun device => h.devices.lookup device)).filter (· ≠ id)

def heldByAnother (h : Hub) (holder : Option ConnId) (user : Option String) : Bool :=
  holder.any (fun holder => (h.byId.lookup holder).bind (·.user) ≠ user)

def detachHolder (h : Hub) : Option ConnId → Hub × Option ConnId
  | none => (h, none)
  | some holder => ((detachLocked h holder).1, (detachLocked h holder).2.map fun _ => holder)

def claimUser (perUser : Map String ℕ) : Option String → Map String ℕ
  | none => perUser
  | some user => perUser.insert user ((perUser.lookup user).getD 0 + 1)

def claimDevice (devices : Map String ConnId) (id : ConnId) :
    Option (String × Topic) → Map String ConnId
  | none => devices
  | some (device, _) => devices.insert device id

def subscribeEach (id : ConnId) (request : Subscribe) :
    Hub → List Topic → Hub × List ConnId × Except Error Unit
  | h, [] => (h, [], .ok ())
  | h, topic :: topics =>
    match subscribeLocked h id topic request with
    | (h, slow, .error error) => (h, slow, .error error)
    | (h, slow, .ok _) =>
      let rest := subscribeEach id request h topics
      (rest.1, slow ++ rest.2.1, rest.2.2)

/-- The mutating half of `authenticate`: an early return here would leave the
changes made so far in place. -/
def bindIdentity (h : Hub) (id : ConnId) (user : Option String) (device : Option (String × Topic))
    (topics : List Topic) : Hub × List ConnId × Except Error Unit :=
  let counted :=
    { h with perUser := claimUser h.perUser user, devices := claimDevice h.devices id device }
  match counted.byId.lookup id with
  | none => (counted, [], .error gone)
  | some conn =>
    subscribeEach id auto
      { counted with
        byId := counted.byId.insert id
          { conn with authenticated := true, user := user, device := device } }
      topics

def authenticateLocked (h : Hub) (id : ConnId) (identity : Identity) (maxPerUser : ℕ)
    (userTopic deviceTopic : Option Topic) :
    Hub × Option ConnId × List ConnId × Except Error Unit :=
  match h.byId.lookup id with
  | none => (h, none, [], .error gone)
  | some conn =>
    let holder := deviceHolder h id identity.device
    if conn.authenticated then (h, none, [], .error alreadyAuthenticated)
    else if atCap h identity.user maxPerUser then (h, none, [], .error tooManyConnections)
    else if heldByAnother h holder identity.user then (h, none, [], .error deviceConflict)
    else
      let detached := detachHolder h holder
      let device := identity.device.bind fun device => deviceTopic.map fun topic => (device, topic)
      let bound := bindIdentity detached.1 id identity.user device
        (userTopic.toList ++ deviceTopic.toList)
      (bound.1, detached.2, bound.2.1, bound.2.2)

def signalSuperseded (h : Hub) : Option ConnId → Hub
  | none => h
  | some holder => { h with peers := signal h.peers holder .superseded }

/-- Older holders of the device on other nodes are told to step down. -/
def broadcastClaim (h : Hub) : Option Topic → Hub
  | none => h
  | some topic => handOff h topic (closePayload .superseded)

def authenticate (h : Hub) (id : ConnId) (identity : Identity) (maxPerUser : ℕ) :
    Hub × Except Error Unit :=
  match identityTopics identity with
  | .error error => (h, .error error)
  | .ok (userTopic, deviceTopic) =>
    match authenticateLocked h id identity maxPerUser userTopic deviceTopic with
    | (h, _, _, .error error) => (h, .error error)
    | (h, superseded, slow, .ok ()) =>
      (broadcastClaim (closeAll (signalSuperseded h superseded) slow .slowConsumer) deviceTopic,
        .ok ())

def subscribe (h : Hub) (id : ConnId) (topic : Topic) (request : Subscribe) :
    Hub × Except Error Cursor :=
  match subscribeLocked h id topic request with
  | (h, slow, outcome) => (closeAll h slow .slowConsumer, outcome)

def unsubscribe (h : Hub) (id : ConnId) (topic : Topic) : Hub × Bool :=
  match h.byId.lookup id with
  | none => (h, false)
  | some conn =>
    match conn.topics.lookup topic with
    | none => (h, false)
    | some _ =>
      (dropSubscriber { h with byId := h.byId.insert id (forgetTopic conn topic) } topic id, true)

/-- `Shared::close`: the reason is recorded even if the hub had detached the
connection already. -/
def closeSession (h : Hub) (id : ConnId) (reason : CloseReason) : Hub :=
  let closed := close h id reason
  { closed with peers := failPending (signal closed.peers id reason) id }

/-- `Shared::send_now`: only a full queue closes the session. -/
def sendNow (h : Hub) (id : ConnId) (frame : Frame) : Hub :=
  let sent := trySend h.peers id frame
  if sent.2 = false ∧ (h.peers id).receiving = true then closeSession h id .slowConsumer
  else { h with peers := sent.1 }

/-- The adapter takes the oldest frame off the outgoing queue. -/
def receive (h : Hub) (id : ConnId) : Hub :=
  { h with peers := Function.update h.peers id { h.peers id with queue := (h.peers id).queue.tail } }

/-- The adapter drops the receiving end of the outgoing queue. -/
def hangUp (h : Hub) (id : ConnId) : Hub :=
  { h with peers := Function.update h.peers id { h.peers id with receiving := false } }

end Stakit.PubsubHub
