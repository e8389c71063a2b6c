import Stakit.PubsubHubFrames
import Stakit.PubsubNode
import Stakit.PubsubSession

set_option autoImplicit false

/-!
# A session's requests

One session and the tasks it spawns, interleaved at their atomic steps with each
other and with every section of the hub. A thread is one call of `handle` together
with the task it spawns; the handler does nothing after it spawned the task. What
user code, the clock and the scheduler decide is part of the action: the value an
action, a stream, the auth hook or a channel's `authorize` came back with.

`queued` is history: each frame the outgoing queue took, oldest first, with the
thread that sent it.
-/
namespace Stakit.SessionRequests
open PubsubHub PubsubTopic RouterError TransitionRuns
open PubsubNode (subscribeAttempts)

def maxInflightCalls : ℕ := 512

/-- The parts of the router a session reads; `auth` says whether a hook is set. -/
structure Router where
  auth : Bool
  actions : String → Bool
  streams : String → Bool
  channels : String → Bool
  onError : Error → Error
  maxSubscriptions : ℕ
  maxConnectionsPerUser : ℕ

/-- An inbound frame by its members, `none` where `as_str` or `as_u64` gives
nothing; `params` and `key` are JSON texts. -/
structure Inbound where
  kind : Option String
  id : Option ℕ
  action : Option String
  channel : Option String
  topic : Option String
  params : Option String
  key : Option String

inductive Request where
  | call | auth | subscribe | unsubscribe
  deriving DecidableEq

/-- The arms of `handle` that answer. -/
def requestOf (frame : Inbound) : Option (ℕ × Request) :=
  match frame.kind, frame.id with
  | some "auth", some id => some (id, .auth)
  | some "call", some id => some (id, .call)
  | some "subscribe", some id => some (id, .subscribe)
  | some "unsubscribe", some id => some (id, .unsubscribe)
  | _, _ => none

def requestId (frame : Inbound) : Option ℕ := (requestOf frame).map (·.1)

inductive Outgoing where
  | hub (frame : Frame)
  | item (id : ℕ) (data : String)
  | ended (id : ℕ)
  | ping
  | clientCall (id : ℕ) (name params : String)
  deriving DecidableEq

/-- What the hub's queue holds for it. -/
def Outgoing.wire : Outgoing → Frame
  | .hub frame => frame
  | .item id data =>
    .other ("\x7b\"data\":" ++ data ++ ",\"id\":" ++ toString id ++
      ",\"kind\":\"result\",\"more\":true,\"status\":\"ok\"\x7d")
  | .ended id => .other ("\x7b\"id\":" ++ toString id ++ ",\"kind\":\"end\"\x7d")
  | .ping => .other "\x7b\"kind\":\"ping\"\x7d"
  | .clientCall id name params =>
    .other ("\x7b\"id\":" ++ toString id ++ ",\"kind\":\"client_call\",\"name\":" ++ name ++
      ",\"params\":" ++ params ++ "\x7d")

/-- The id of a `result` without `more`, or of an `end`. -/
def Outgoing.terminal : Outgoing → Option ℕ
  | .hub (.result id _) => some id
  | .hub (.failure id _) => some id
  | .ended id => some id
  | _ => none

def Outgoing.publishes (topic : Topic) : Outgoing → Bool
  | .hub (.publish other _ _ _) => other = topic
  | _ => false

def resultFrame (id : ℕ) : Except Error Data → Outgoing
  | .ok data => .hub (.result id data)
  | .error error => .hub (.failure id error)

def unauthorized : Error := coded 401 "unauthorized" "authenticate first"
def notConfigured : Error := coded 404 "not_found" "authentication is not configured"
def unknownChannel : Error := coded 404 "not_found" "unknown channel"
def tooManyRequests : Error := applicationError 429 "too many in-flight requests"
def notAllowed : Error := coded 403 "forbidden" "not allowed to subscribe"
def unknownAction (name : String) : Error :=
  coded 404 "not_found" ("unknown action \x60" ++ name ++ "\x60")

/-- What a task is spawned for. -/
inductive Work where
  | call (name params : String)
  | auth (params : String)
  | subscribe (channel key : String)
  deriving DecidableEq

/-- What follows a reply. -/
inductive After where
  | nothing
  | unclaim
  | close (reason : CloseReason)
  deriving DecidableEq

/-- Where a thread stands: the atomic step it takes next. -/
inductive Point (R : Type) where
  | checkClosed
  | touch
  | checkAuthenticated (request : Request)
  | claim
  | checkConflict (claimed : Bool)
  | releaseConflict
  | permit (work : Work)
  | leave (topic : Topic)
  | reply (result : Except Error Data) (after : After)
  | unclaim
  | close (reason : CloseReason)
  | dispatch (name params : String)
  | respond (frame : Option (Except Error String))
  | next
  | sendItem (data : String)
  | hook (params : String)
  | bind (req : R) (identity : Identity)
  | announce (req : R) (superseded : Option ConnId) (slow : List ConnId)
      (deviceTopic : Option Topic)
  | storeReq (req : R)
  | storeAuthenticated
  | settle (outcome : Except Error Unit)
  | resolve (attempts : ℕ) (channel key : String)
  | authorize (attempts : ℕ) (channel key : String) (topic : Topic) (mark : ℕ)
  | subscribe (attempts : ℕ) (channel key : String) (topic : Topic) (mark : ℕ)
  | closeSlow (attempts : ℕ) (channel key : String) (slow : List ConnId)
      (outcome : Except Error Cursor)
  | done
  deriving DecidableEq

structure Thread (R : Type) where
  frame : Inbound
  permit : Bool
  point : Point R

def Thread.id {R : Type} (t : Thread R) : ℕ := t.frame.id.getD 0

/-- `Shared`, the hub it is registered with, and the threads so far. -/
structure System (R : Type) where
  hub : Hub
  session : Session R
  authenticating : Bool
  free : ℕ
  threads : List (Thread R)
  queued : List (Option ℕ × Outgoing)

section
variable {R : Type}

def opened (router : Router) (h : Hub) (outgoingBuffer : ℕ) (req : R) : System R where
  hub := register h (max outgoingBuffer 1)
  session := ⟨h.nextConn, req, !router.auth⟩
  authenticating := false
  free := maxInflightCalls
  threads := []
  queued := []

/-- What a thread's step waits for. -/
inductive Awaited (R : Type) where
  | nothing
  | touched (within : Bool)
  | dispatched (result : Except Error String)
  | item (next : Option (Except Error String))
  | hooked (result : Except Error (R × Identity))
  | topicOf (result : Except Error Topic)
  | authorized (result : Except Error Bool)

def System.mailbox (sys : System R) : Peer := sys.hub.peers sys.session.conn

/-- The frames a change of the hub put into the session's queue. -/
def gained (h after : Hub) (conn : ConnId) : List Frame :=
  (after.peers conn).queue.drop (h.peers conn).queue.length

def perform (sys : System R) (source : Option ℕ) (after : Hub) : System R :=
  { sys with
    hub := after
    queued := sys.queued ++ (gained sys.hub after sys.session.conn).map fun frame =>
      (source, .hub frame) }

def push (sys : System R) (source : Option ℕ) (frame : Outgoing) : System R × Bool :=
  let sent := trySend sys.hub.peers sys.session.conn frame.wire
  ({ sys with
      hub := { sys.hub with peers := sent.1 }
      queued := if sent.2 then sys.queued ++ [(source, frame)] else sys.queued }, sent.2)

def closed (sys : System R) (reason : CloseReason) : System R :=
  { sys with hub := closeSession sys.hub sys.session.conn reason }

/-- `send_now`: only a full queue closes the session. -/
def pushNow (sys : System R) (source : Option ℕ) (frame : Outgoing) : System R :=
  let sent := push sys source frame
  if sent.2 = false ∧ sys.mailbox.receiving = true then closed sent.1 .slowConsumer else sent.1

def goTo (sys : System R) (n : ℕ) (t : Thread R) (point : Point R) : System R :=
  { sys with threads := sys.threads.set n { t with point := point } }

def finish (sys : System R) (n : ℕ) (t : Thread R) : System R :=
  { sys with
    free := sys.free + t.permit.toNat
    threads := sys.threads.set n { t with permit := false, point := .done } }

/-- `send(..).await`: waits while the queue is full, fails once nobody receives. -/
def pushAwait (sys : System R) (n : ℕ) (t : Thread R) (frame : Outgoing)
    (sent : System R → System R) : System R :=
  let pushed := push sys (some n) frame
  if pushed.2 then sent pushed.1
  else if sys.mailbox.receiving then sys
  else finish sys n t

section
variable (router : Router) (sys : System R) (n : ℕ) (t : Thread R)

def checkClosedStep : System R :=
  if sys.mailbox.closer.isSome then finish sys n t else goTo sys n t .touch

/-- The arm of `handle` a frame takes. -/
def route : Option (Point R) :=
  match requestOf t.frame with
  | none => none
  | some (_, .auth) =>
    if router.auth then some .claim else some (.reply (.error notConfigured) .nothing)
  | some (_, request) => some (.checkAuthenticated request)

def touchStep : Awaited R → System R
  | .touched true =>
    match route router t with
    | none => finish sys n t
    | some point => goTo sys n t point
  | .touched false => finish (closed sys .rateLimited) n t
  | _ => sys

def workOf : Request → Point R
  | .auth => .claim
  | .call => .permit (.call (t.frame.action.getD "") (t.frame.params.getD "null"))
  | .subscribe =>
    if router.channels (t.frame.channel.getD "") then
      .permit (.subscribe (t.frame.channel.getD "") (t.frame.key.getD "null"))
    else .reply (.error unknownChannel) .nothing
  | .unsubscribe => .leave (t.frame.topic.getD "")

def checkAuthenticatedStep (request : Request) : System R :=
  if sys.session.authenticated then goTo sys n t (workOf router t request)
  else goTo sys n t (.reply (.error unauthorized) .nothing)

/-- The `compare_exchange` of `spawn_auth`. -/
def claimStep : System R :=
  if sys.authenticating then goTo sys n t (.checkConflict false)
  else goTo { sys with authenticating := true } n t (.checkConflict true)

def checkConflictStep (claimed : Bool) : System R :=
  if sys.session.authenticated || !claimed then
    if claimed then goTo sys n t .releaseConflict
    else goTo sys n t (.reply (.error alreadyAuthenticated) .nothing)
  else goTo sys n t (.permit (.auth (t.frame.params.getD "null")))

def releaseConflictStep : System R :=
  goTo { sys with authenticating := false } n t (.reply (.error alreadyAuthenticated) .nothing)

def startOf : Work → Point R
  | .call name params => .dispatch name params
  | .auth params => .hook params
  | .subscribe channel key => .resolve 0 channel key

/-- A refused `auth` gives its claim back. -/
def afterRefusal : Work → After
  | .auth _ => .unclaim
  | _ => .nothing

def permitStep (work : Work) : System R :=
  if sys.free = 0 then goTo sys n t (.reply (.error tooManyRequests) (afterRefusal work))
  else goTo { sys with free := sys.free - 1 } n { t with permit := true } (startOf work)

def leaveStep (topic : Topic) : System R :=
  let left := PubsubHub.unsubscribe sys.hub sys.session.conn topic
  goTo (perform sys (some n) left.1) n t (.reply (.ok (.bool left.2)) .nothing)

def mapError {α : Type} : Except Error α → Except Error α
  | .ok value => .ok value
  | .error error => .error (router.onError error)

def replyStep (result : Except Error Data) (after : After) : System R :=
  let sent := pushNow sys (some n) (resultFrame t.id (mapError router result))
  match after with
  | .nothing => finish sent n t
  | .unclaim => goTo sent n t .unclaim
  | .close reason => goTo sent n t (.close reason)

def unclaimStep : System R := finish { sys with authenticating := false } n t

def closeStep (reason : CloseReason) : System R := finish (closed sys reason) n t

def dispatchStep (name : String) : Awaited R → System R
  | .dispatched result =>
    if router.actions name then goTo sys n t (.respond (some (mapError router result))) else sys
  | .nothing =>
    if router.actions name then sys
    else if router.streams name then goTo sys n t .next
    else goTo sys n t (.respond (some (.error (router.onError (unknownAction name)))))
  | _ => sys

def respondFrame (id : ℕ) : Option (Except Error String) → Outgoing
  | none => .ended id
  | some (.ok data) => resultFrame id (.ok (.json data))
  | some (.error error) => resultFrame id (.error error)

def respondStep (answer : Option (Except Error String)) : System R :=
  pushAwait sys n t (respondFrame t.id answer) fun sys => finish sys n t

/-- `items.next()`: an error ends the stream. -/
def nextStep : Awaited R → System R
  | .item none => goTo sys n t (.respond none)
  | .item (some (.ok data)) => goTo sys n t (.sendItem data)
  | .item (some (.error error)) => goTo sys n t (.respond (some (.error (router.onError error))))
  | _ => sys

def sendItemStep (data : String) : System R :=
  pushAwait sys n t (.item t.id data) fun sys => goTo sys n t .next

def hookStep : Awaited R → System R
  | .hooked (.ok (req, identity)) => goTo sys n t (.bind req identity)
  | .hooked (.error error) => goTo sys n t (.settle (.error error))
  | _ => sys

/-- The section of `Hub::authenticate`. -/
def bindStep (req : R) (identity : Identity) : System R :=
  match identityTopics identity with
  | .error error => goTo sys n t (.settle (.error error))
  | .ok (userTopic, deviceTopic) =>
    match authenticateLocked sys.hub sys.session.conn identity router.maxConnectionsPerUser
      userTopic deviceTopic with
    | (h, _, _, .error error) => goTo (perform sys (some n) h) n t (.settle (.error error))
    | (h, superseded, slow, .ok ()) =>
      goTo (perform sys (some n) h) n t (.announce req superseded slow deviceTopic)

def announceStep (req : R) (superseded : Option ConnId) (slow : List ConnId)
    (deviceTopic : Option Topic) : System R :=
  let told := closeAll (signalSuperseded sys.hub superseded) slow .slowConsumer
  goTo { sys with hub := broadcastClaim told deviceTopic } n t (.storeReq req)

def storeReqStep (req : R) : System R :=
  goTo { sys with session := { sys.session with req := req } } n t .storeAuthenticated

def storeAuthenticatedStep : System R :=
  goTo { sys with session := { sys.session with authenticated := true } } n t (.settle (.ok ()))

def closeCode (error : Error) : CloseReason :=
  if error.code = 429 then .tooManyConnections else .unauthorized

def settleStep : Except Error Unit → System R
  | .ok () => goTo { sys with authenticating := false } n t (.reply (.ok .null) .nothing)
  | .error error =>
    goTo { sys with authenticating := false } n t (.reply (.error error) (.close (closeCode error)))

/-- The mark is read once the topic is known, before `authorize` runs. -/
def resolveStep (attempts : ℕ) (channel key : String) : Awaited R → System R
  | .topicOf (.ok topic) =>
    goTo sys n t (.authorize (attempts + 1) channel key topic (revocationMark sys.hub topic))
  | .topicOf (.error error) => goTo sys n t (.reply (.error error) .nothing)
  | _ => sys

def authorizeStep (attempts : ℕ) (channel key : String) (topic : Topic) (mark : ℕ) :
    Awaited R → System R
  | .authorized (.ok true) => goTo sys n t (.subscribe attempts channel key topic mark)
  | .authorized (.ok false) => goTo sys n t (.reply (.error notAllowed) .nothing)
  | .authorized (.error error) => goTo sys n t (.reply (.error error) .nothing)
  | _ => sys

/-- The request `spawn_subscribe` hands to the hub; the ack names the topic and
where its stream stands. -/
def clientSubscribe (id : ℕ) (topic : Topic) (mark : ℕ) : Subscribe :=
  ⟨true, router.maxSubscriptions, some mark, some fun position => .result id (.cursor topic position)⟩

def subscribeStep (attempts : ℕ) (channel key : String) (topic : Topic) (mark : ℕ) : System R :=
  let tried := subscribeLocked sys.hub sys.session.conn topic
    (clientSubscribe router t.id topic mark)
  goTo (perform sys (some n) tried.1) n t (.closeSlow attempts channel key tried.2.1 tried.2.2)

/-- The end of one pass of the loop in `spawn_subscribe`. -/
def closeSlowStep (attempts : ℕ) (channel key : String) (slow : List ConnId) :
    Except Error Cursor → System R
  | .ok _ => finish { sys with hub := closeAll sys.hub slow .slowConsumer } n t
  | .error error =>
    let told := { sys with hub := closeAll sys.hub slow .slowConsumer }
    if error.kind = "subscription_revoked" ∧ attempts < subscribeAttempts then
      goTo told n t (.resolve attempts channel key)
    else goTo told n t (.reply (.error error) .nothing)

/-- The next atomic step of thread `n`; a step that awaits something else stays put. -/
def advance (awaited : Awaited R) : System R :=
  match t.point with
  | .checkClosed => checkClosedStep sys n t
  | .touch => touchStep router sys n t awaited
  | .checkAuthenticated request => checkAuthenticatedStep router sys n t request
  | .claim => claimStep sys n t
  | .checkConflict claimed => checkConflictStep sys n t claimed
  | .releaseConflict => releaseConflictStep sys n t
  | .permit work => permitStep sys n t work
  | .leave topic => leaveStep sys n t topic
  | .reply result after => replyStep router sys n t result after
  | .unclaim => unclaimStep sys n t
  | .close reason => closeStep sys n t reason
  | .dispatch name _ => dispatchStep router sys n t name awaited
  | .respond answer => respondStep sys n t answer
  | .next => nextStep router sys n t awaited
  | .sendItem data => sendItemStep sys n t data
  | .hook _ => hookStep sys n t awaited
  | .bind req identity => bindStep router sys n t req identity
  | .announce req superseded slow deviceTopic => announceStep sys n t req superseded slow deviceTopic
  | .storeReq req => storeReqStep sys n t req
  | .storeAuthenticated => storeAuthenticatedStep sys n t
  | .settle outcome => settleStep sys n t outcome
  | .resolve attempts channel key => resolveStep sys n t attempts channel key awaited
  | .authorize attempts channel key topic mark =>
    authorizeStep sys n t attempts channel key topic mark awaited
  | .subscribe attempts channel key topic mark =>
    subscribeStep router sys n t attempts channel key topic mark
  | .closeSlow attempts channel key slow outcome =>
    closeSlowStep sys n t attempts channel key slow outcome
  | .done => sys

end

/-- `storeReq` and `storeAuthenticated` are the adapter's `Session::authenticate`,
after its section of the hub; `outside` is any section of anyone else. -/
inductive Act (R : Type) where
  | arrive (frame : Inbound)
  | act (n : ℕ) (awaited : Awaited R)
  | ping
  | clientCall (id : ℕ) (name params : String)
  | storeReq (req : R)
  | storeAuthenticated
  | outside (s : Section)

def step (router : Router) (sys : System R) : Act R → System R
  | .arrive frame => { sys with threads := sys.threads ++ [⟨frame, false, .checkClosed⟩] }
  | .act n awaited =>
    match sys.threads[n]? with
    | none => sys
    | some t => advance router sys n t awaited
  | .ping => pushNow sys none .ping
  | .clientCall id name params => (push sys none (.clientCall id name params)).1
  | .storeReq req => { sys with session := { sys.session with req := req } }
  | .storeAuthenticated => { sys with session := { sys.session with authenticated := true } }
  | .outside s => perform sys none (PubsubHub.step sys.hub s)

def foreign (conn : ConnId) : Section → Bool
  | .send id _ => id ≠ conn
  | .subscribe id _ request => id ≠ conn || request.ack.isNone
  | _ => true

def offers (router : Router) (sys : System R) : Act R → List Frame
  | .act n _ =>
    match sys.threads[n]? with
    | none => []
    | some t =>
      match t.point with
      | .reply result _ => [(resultFrame t.id (mapError router result)).wire]
      | .respond answer => [(respondFrame t.id answer).wire]
      | .sendItem data => [(Outgoing.item t.id data).wire]
      | .subscribe _ _ _ topic mark =>
        sectionFrames sys.hub
          (.subscribe sys.session.conn topic (clientSubscribe router t.id topic mark))
          sys.session.conn
      | _ => []
  | .ping => [Outgoing.ping.wire]
  | .clientCall id name params => [(Outgoing.clientCall id name params).wire]
  | .outside s => sectionFrames sys.hub s sys.session.conn
  | _ => []

def isForeign (sys : System R) : Act R → Bool
  | .outside s => foreign sys.session.conn s
  | _ => true

/-- The step is one of the system's, the queue takes what it offers and the session
is not closed after it. -/
def Live (router : Router) (sys : System R) (a : Act R) : Prop :=
  isForeign sys a = true ∧ (offerAll sys.mailbox (offers router sys a)).2 = true ∧
    (step router sys a).mailbox.closer = none

instance (router : Router) (sys : System R) (a : Act R) : Decidable (Live router sys a) :=
  inferInstanceAs (Decidable (_ ∧ _ ∧ _))

end

end Stakit.SessionRequests
