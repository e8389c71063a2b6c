import Mathlib.Algebra.Ring.Nat
import Stakit.SocketSubscriptions
import Stakit.TransitionRuns

set_option autoImplicit false

/-!
# The TypeScript client's reconnecting connection

`connectSocket` with user code allowed to call back. Code runs until it reaches a
callback; what it has still to do is left on a stack of program points, the
callback on top, and runs when the callback has returned. Socket events, timers and
settled promises come when the stack is empty, calls of the connection's methods
also from a callback. A reconnect timer may fire at any time after it was armed, so
the backoff that picks its delay (`attempt`, `healthyTimer`, the close code) is left
out; so is the queue behind `stream`. The trace has what leaves the client.
-/
namespace Stakit.SocketConnection
open FiniteMap PubsubTopic
open SocketSubscriptions (GroupRef SubRef Ack ErrorBody Frame Seen Group Sub noGroup dropTopic
  gapOf messageOf takesEarly ackMoved earlyPerTopic groupId)

abbrev SocketRef := ℕ

abbrev TimerRef := ℕ

inductive Status where
  | connecting | open | paused | closed
  deriving DecidableEq, Repr

/-- User code the connection runs. -/
inductive Callback where
  | onStatus (status : Status)
  | onReconnect
  | onAuthError
  | onHandlerError
  | auth (socket : SocketRef)
  | clientAction (id : Option ℕ)
  | publishHandler (name : String)
  | subscription (sub : SubRef) (seen : List Seen)
  deriving DecidableEq, Repr

/-- Code that waits for what is above it to return. `scheduling`, `opening`,
`becomingReady` and `disconnecting` are what `scheduleReconnect`, `open`, `becomeReady`
and `disconnect` do after their status change, `refused` what `open` does after it
reported that the factory threw. `stopping` is `stop` after `disconnect`, `closing`
`close` after `stop`, `resuming` `resume` before it opens a socket. `rejected` is the
auth waiter after `onAuthError`, `authFailed` and `answering` are `authenticate` and
`onClientCall` after they reported a failure. `telling` is `each` with the
subscriptions it has not run yet, `publishing` `onPublish` after the publish handler,
`acking` and `resubscribing` are `onAck` and `onUnsubscribed` after the gap callbacks
and `replaying` is the loop of `onAck`. -/
inductive Point where
  | user (callback : Callback)
  | scheduling
  | opening
  | refused
  | becomingReady
  | disconnecting
  | stopping
  | closing
  | resuming
  | rejected
  | authFailed (socket : SocketRef)
  | answering (id : Option ℕ)
  | telling (subs : List SubRef) (seen : List Seen)
  | publishing (g : GroupRef) (seen : List Seen)
  | acking (ack : Ack)
  | replaying (frames : List Frame)
  | resubscribing (g : GroupRef)
  deriving DecidableEq, Repr

inductive Outgoing where
  | pong
  | auth (id : ℕ)
  | subscribe (id : ℕ) (channel : String) (key : Value)
  | unsubscribe (id : ℕ) (topic : Topic)
  | call (text : String)
  | clientResult (id : Option ℕ) (error : Option ℕ)

/-- `sent` is a frame handed to the socket, whatever the socket makes of it. -/
inductive Event where
  | status (status : Status)
  | factory
  | sent (socket : SocketRef) (frame : Outgoing)
  | closeReturned

inductive Waiter where
  | auth
  | subscribe (g : GroupRef)
  | call
  | stream
  deriving DecidableEq, Repr

def Waiter.once : Waiter → Bool
  | .stream => false
  | _ => true

/-- The maps of `createSubscriptions`, with its objects. -/
structure Channels where
  groups : Map String GroupRef
  byTopic : Map Topic GroupRef
  early : Map Topic (List Frame)
  heap : GroupRef → Group
  nextGroup : GroupRef
  members : SubRef → Sub
  nextSub : SubRef

/-- `armed` and `watching` are the timeouts and intervals that have not been cleared,
whichever of them `reconnectTimer` and `watchdog` still name; `auths` and `actions` the
promises not settled yet. -/
structure Conn where
  status : Status
  socket : Option SocketRef
  nextSocket : SocketRef
  ready : Bool
  everReady : Bool
  now : ℕ
  lastInbound : ℕ
  reconnectTimer : Option TimerRef
  armed : List TimerRef
  watchdog : Option TimerRef
  watching : List TimerRef
  nextTimer : TimerRef
  nextId : ℕ
  outbox : Map ℕ String
  waiters : Map ℕ Waiter
  channels : Channels
  auths : List SocketRef
  actions : List (Option ℕ)
  stack : List Point
  trace : List Event

structure Options where
  stableKey : Value → String
  stringifyCall : ℕ → String → Value → String
  auth : Bool
  reconnect : Bool
  liveness : ℕ
  maxFrame : ℕ
  handlers : String → Bool
  publishHandlers : String → Bool

/-- A validated frame with the fields the connection reads itself: `more`, and
`error.code`, which is 500 where that is no number. -/
structure Incoming where
  frame : Frame
  more : Bool
  code : ℕ

def terminalCloseCodes : List ℕ := [4003, 4010, 4011]

def noChannels : Channels := ⟨∅, ∅, ∅, fun _ => noGroup, 0, fun _ => ⟨0, none⟩, 0⟩

def newConn : Conn :=
  ⟨.connecting, none, 0, false, false, 0, 0, none, [], none, [], 0, 1, ∅, ∅, noChannels, [], [],
    [], []⟩

def push (c : Conn) (point : Point) : Conn := { c with stack := point :: c.stack }

def record (c : Conn) (event : Event) : Conn := { c with trace := c.trace ++ [event] }

def setStatus (c : Conn) (next : Status) : Conn :=
  if c.status = next then c
  else push { record c (.status next) with status := next } (.user (.onStatus next))

def write (c : Conn) (frame : Outgoing) : Conn :=
  match c.socket with
  | none => c
  | some socket => record c (.sent socket frame)

def request (c : Conn) (frame : ℕ → Outgoing) (waiter : Waiter) : Conn :=
  write { c with nextId := c.nextId + 1, waiters := c.waiters.insert c.nextId waiter }
    (frame c.nextId)

/-- `report` runs `onHandlerError`, and the point follows. -/
def report (c : Conn) (point : Point) : Conn := push (push c point) (.user .onHandlerError)

def alter (c : Conn) (g : GroupRef) (f : Group → Group) : Conn :=
  { c with channels.heap := Function.update c.channels.heap g (f (c.channels.heap g)) }

def each (c : Conn) (g : GroupRef) (seen : List Seen) : Conn :=
  push c (.telling (c.channels.heap g).subs seen)

def drop (c : Conn) (g : GroupRef) : Conn :=
  { c with
    channels.groups := c.channels.groups.erase (c.channels.heap g).id
    channels.byTopic := dropTopic c.channels.byTopic g (c.channels.heap g).topic }

def sendGroup (c : Conn) (g : GroupRef) : Conn :=
  request (alter c g fun group => { group with pending := true })
    (fun id => .subscribe id (c.channels.heap g).channel (c.channels.heap g).key) (.subscribe g)

def writeUnsubscribe (c : Conn) (topic : Topic) : Conn :=
  write { c with nextId := c.nextId + 1 } (.unsubscribe c.nextId topic)

/-- `delivered`: the publish handler, if there is one for the name. -/
def delivered (opts : Options) (c : Conn) (frame : Frame) : Conn :=
  if opts.publishHandlers (frame.name.getD "") then
    push c (.user (.publishHandler (frame.name.getD "")))
  else c

def onUnclaimed (opts : Options) (c : Conn) (topic : Topic) (frame : Frame) : Conn :=
  if "user:".isPrefixOf topic ∨ "device:".isPrefixOf topic then delivered opts c frame
  else if c.channels.groups.entries.any (fun entry => (c.channels.heap entry.2).pending) then
    let list := (c.channels.early.lookup topic).getD []
    if list.length < earlyPerTopic then
      { c with channels.early := c.channels.early.insert topic (list ++ [frame]) }
    else c
  else c

def onPublish (opts : Options) (c : Conn) (frame : Frame) : Conn :=
  let message := messageOf frame
  match c.channels.byTopic.lookup message.topic with
  | none => onUnclaimed opts c message.topic frame
  | some g =>
    let gap := gapOf (c.channels.heap g) message.epoch message.seq
    let moved := alter c g fun group =>
      { group with epoch := some message.epoch, seq := some message.seq }
    delivered opts (push moved (.publishing g ((gap.map Seen.gap).toList ++ [.message message])))
      frame

def placeAck (c : Conn) (g : GroupRef) (ack : Ack) : Conn :=
  let placed := alter c g fun group =>
    { group with topic := some ack.topic, epoch := some ack.epoch, seq := some ack.seq }
  { placed with
    channels.byTopic := c.channels.byTopic.insert ack.topic g
    channels.members := fun sub =>
      if sub ∈ (c.channels.heap g).subs then { c.channels.members sub with topic := some ack.topic }
      else c.channels.members sub }

def takeAck (c : Conn) (g : GroupRef) (ack : Ack) : Conn :=
  let placed := push (placeAck c g ack) (.acking ack)
  if ackMoved (c.channels.heap g) ack then each placed g [.gap .resubscribe] else placed

def onAck (c : Conn) (g : GroupRef) (frame : Frame) : Conn :=
  let answered := alter c g fun group => { group with pending := false }
  let group := answered.channels.heap g
  if answered.channels.groups.lookup group.id ≠ some g then answered
  else if frame.failed then each (drop answered g) g [.error frame.error]
  else
    match frame.ack with
    | none => drop answered g
    | some ack =>
      if group.subs = [] then
        let left := drop answered g
        if left.ready then writeUnsubscribe left ack.topic else left
      else takeAck answered g ack

/-- The rest of `onAck`: the frames that came early are published now. -/
def replayEarly (c : Conn) (ack : Ack) : Conn :=
  let buffered := (c.channels.early.lookup ack.topic).getD []
  push { c with channels.early := c.channels.early.erase ack.topic }
    (.replaying (buffered.filter (takesEarly ack)))

def onReset (c : Conn) (frame : Frame) : Conn :=
  match c.channels.byTopic.lookup (frame.topic.getD ""), frame.epoch with
  | some g, some epoch =>
    each (alter c g fun group =>
      { group with epoch := some epoch, seq := some (frame.seq.getD 0) }) g [.gap .reset]
  | _, _ => c

def onUnsubscribed (c : Conn) (frame : Frame) : Conn :=
  match c.channels.byTopic.lookup (frame.topic.getD "") with
  | none => c
  | some g =>
    let left := { c with
      channels.byTopic := c.channels.byTopic.erase ((c.channels.heap g).topic.getD "") }
    if frame.reason = some "reset" then each (push left (.resubscribing g)) g [.gap .reset]
    else
      each { left with channels.groups := left.channels.groups.erase (c.channels.heap g).id } g
        [.kick]

/-- The groups in the order they were added. -/
def groupRefs (c : Conn) : List GroupRef := (c.channels.groups.entries.map (·.2)).reverse

def resubscribeOne (c : Conn) (g : GroupRef) : Conn :=
  if (c.channels.heap g).subs = [] then
    { c with channels.groups := c.channels.groups.erase (c.channels.heap g).id }
  else sendGroup c g

def resubscribe (c : Conn) : Conn := (groupRefs c).foldl resubscribeOne c

def disconnected (c : Conn) : Conn :=
  { c with
    channels.byTopic := ∅
    channels.early := ∅
    channels.heap := fun g =>
      if g ∈ groupRefs c then { c.channels.heap g with pending := false } else c.channels.heap g }

def clearChannels (c : Conn) : Conn :=
  { c with channels.groups := ∅, channels.byTopic := ∅, channels.early := ∅ }

def subscribe (opts : Options) (c : Conn) (channel : String) (key : Value) : Conn :=
  let id := groupId opts.stableKey channel key
  let sub := c.channels.nextSub
  match c.channels.groups.lookup id with
  | some g =>
    let joined := alter c g fun group => { group with subs := group.subs ++ [sub] }
    { joined with
      channels.members :=
        Function.update c.channels.members sub ⟨g, (c.channels.heap g).topic⟩
      channels.nextSub := sub + 1 }
  | none =>
    let g := c.channels.nextGroup
    let opened := { c with
      channels.groups := c.channels.groups.insert id g
      channels.heap :=
        Function.update c.channels.heap g ⟨channel, key, id, [sub], none, none, none, false⟩
      channels.nextGroup := g + 1
      channels.members := Function.update c.channels.members sub ⟨g, none⟩
      channels.nextSub := sub + 1 }
    if opened.ready then sendGroup opened g else opened

def unsubscribe (c : Conn) (sub : SubRef) : Conn :=
  let g := (c.channels.members sub).owner
  if sub ∈ (c.channels.heap g).subs then
    let left := alter c g fun group => { group with subs := group.subs.filter (· ≠ sub) }
    if (left.channels.heap g).subs ≠ [] then left
    else if (left.channels.heap g).pending then left
    else
      let dropped := drop left g
      match (c.channels.heap g).topic with
      | none => dropped
      | some topic => if dropped.ready then writeUnsubscribe dropped topic else dropped
  else c

/-- Forgets the waiters whose request was sent; queued ones stay. -/
def failSent (c : Conn) : Conn :=
  { c with
    waiters := c.waiters.keys.foldl
      (fun waiters id => if (c.outbox.lookup id).isSome then waiters else waiters.erase id)
      c.waiters }

def clearReconnect (c : Conn) : Conn :=
  { c with armed := c.armed.filter fun timer => some timer ≠ c.reconnectTimer }

def scheduleReconnect (c : Conn) : Conn := setStatus (push c .scheduling) .connecting

def arm (c : Conn) : Conn :=
  { c with
    reconnectTimer := some c.nextTimer
    armed := c.armed ++ [c.nextTimer]
    nextTimer := c.nextTimer + 1 }

def disconnect (c : Conn) (next : Status) : Conn :=
  setStatus (push (clearReconnect c) .disconnecting) next

def stop (c : Conn) : Conn := disconnect (push c .stopping) .closed

/-- The rest of `stop`: every waiter is failed and everything is forgotten. -/
def forget (c : Conn) : Conn := clearChannels { c with waiters := ∅, outbox := ∅ }

/-- The first half of `lost`: the socket goes and what was sent on it is failed. -/
def dropSocket (c : Conn) : Conn :=
  disconnected (failSent { c with
    socket := none
    ready := false
    watching := c.watching.filter fun timer => some timer ≠ c.watchdog })

def lost (opts : Options) (c : Conn) (code : Option ℕ) : Conn :=
  let dropped := dropSocket c
  if dropped.status = .paused ∨ dropped.status = .closed then dropped
  else if opts.reconnect = false ∨ code.getD 0 ∈ terminalCloseCodes then stop dropped
  else scheduleReconnect dropped

def openSocket (c : Conn) : Conn := setStatus (push (clearReconnect c) .opening) .connecting

/-- The rest of `open`; the factory may throw. -/
def runFactory (c : Conn) (opens : Bool) : Conn :=
  let called := record { c with ready := false } .factory
  if opens then { called with socket := some c.nextSocket, nextSocket := c.nextSocket + 1 }
  else report called .refused

def becomeReady (c : Conn) : Conn := setStatus (push { c with ready := true } .becomingReady) .open

def flushOne (c : Conn) (entry : Sigma fun _ : ℕ => String) : Conn :=
  write { c with outbox := c.outbox.erase entry.1 } (.call entry.2)

def flush (c : Conn) : Conn := c.outbox.entries.reverse.foldl flushOne c

/-- The rest of `becomeReady`. -/
def goLive (c : Conn) : Conn :=
  let live := { flush (resubscribe c) with everReady := true }
  if c.everReady then push live (.user .onReconnect) else live

def authenticate (opts : Options) (c : Conn) (socket : SocketRef) : Conn :=
  if opts.auth then push c (.user (.auth socket)) else becomeReady c

def authResult (opts : Options) (c : Conn) (incoming : Incoming) : Conn :=
  if incoming.frame.failed = false then becomeReady c
  else if incoming.code = 401 ∨ incoming.code = 403 then
    push (push c .rejected) (.user .onAuthError)
  else lost opts c none

def checkLiveness (opts : Options) (c : Conn) : Conn :=
  if c.socket.isSome ∧ opts.liveness < c.now - c.lastInbound then lost opts c none else c

def onClientCall (opts : Options) (c : Conn) (frame : Frame) : Conn :=
  if opts.handlers (frame.name.getD "") then push c (.user (.clientAction frame.id))
  else write c (.clientResult frame.id (some 404))

def onResult (opts : Options) (c : Conn) (id : ℕ) (waiter : Waiter) (incoming : Incoming) : Conn :=
  let final := waiter.once || incoming.frame.failed || !incoming.more
  let kept := if final then { c with waiters := c.waiters.erase id } else c
  match waiter with
  | .auth => authResult opts kept incoming
  | .subscribe g => onAck kept g incoming.frame
  | .call | .stream => kept

def handleFrame (opts : Options) (c : Conn) (incoming : Incoming) : Conn :=
  match incoming.frame.kind with
  | .ping => write c .pong
  | .result =>
    match incoming.frame.id.bind fun id => (c.waiters.lookup id).map fun waiter => (id, waiter) with
    | none => c
    | some (id, waiter) => onResult opts c id waiter incoming
  | .finish =>
    match incoming.frame.id with
    | none => c
    | some id => { c with waiters := c.waiters.erase id }
  | .clientCall => onClientCall opts c incoming.frame
  | .publish => onPublish opts c incoming.frame
  | .reset => onReset c incoming.frame
  | .unsubscribed => onUnsubscribed c incoming.frame
  | .unknown => c

def unitLength (text : String) : ℕ :=
  (text.toList.map fun character => if character.toNat < 0x10000 then 1 else 2).sum

def enqueue (c : Conn) (id : ℕ) (text : String) : Conn :=
  if c.ready ∧ c.socket.isSome then write c (.call text)
  else { c with outbox := c.outbox.insert id text }

def sendOne (opts : Options) (c : Conn) (entry : String × Value) : Conn :=
  let id := c.nextId
  enqueue { c with nextId := id + 1, waiters := c.waiters.insert id .stream } id
    (opts.stringifyCall id entry.1 entry.2)

def send (opts : Options) (c : Conn) (params : List (String × Value)) : Conn :=
  if c.status = .closed then c else params.foldl (sendOne opts) c

def call (opts : Options) (c : Conn) (action : String) (params : Value) : Conn :=
  if c.status = .closed then c
  else
    let id := c.nextId
    let text := opts.stringifyCall id action params
    let numbered := { c with nextId := id + 1 }
    if opts.maxFrame < unitLength text then numbered
    else enqueue { numbered with waiters := c.waiters.insert id .call } id text

def pause (c : Conn) : Conn := if c.status ≠ .closed then disconnect c .paused else c

def resume (opts : Options) (c : Conn) : Conn :=
  if c.status = .closed then c
  else if c.status = .open then
    if 2 * (c.now - c.lastInbound) ≤ opts.liveness then c else lost opts (push c .resuming) none
  else if c.socket.isSome then c
  else push c .resuming

def close (c : Conn) : Conn := stop (push c .closing)

inductive Method where
  | send (params : List (String × Value))
  | call (action : String) (params : Value)
  | subscribe (channel : String) (key : Value)
  | unsubscribe (sub : SubRef)
  | pause
  | resume
  | close

def invoke (opts : Options) (c : Conn) : Method → Conn
  | .send params => send opts c params
  | .call action params => call opts c action params
  | .subscribe channel key => subscribe opts c channel key
  | .unsubscribe sub => unsubscribe c sub
  | .pause => pause c
  | .resume => resume opts c
  | .close => close c

/-- What happens outside: events of a socket (a message that is no frame is `none`),
timers, promises and the passing of time. -/
inductive Occurrence where
  | opened (socket : SocketRef)
  | message (socket : SocketRef) (incoming : Option Incoming)
  | closed (socket : SocketRef) (code : Option ℕ)
  | reconnect (timer : TimerRef)
  | watchdog (timer : TimerRef)
  | callTimeout (id : ℕ)
  | authSettled (socket : SocketRef) (fails : Bool)
  | actionSettled (id : Option ℕ) (fails : Bool)
  | tick (elapsed : ℕ)

def onopen (opts : Options) (c : Conn) (socket : SocketRef) : Conn :=
  authenticate opts
    { c with
      lastInbound := c.now
      watchdog := some c.nextTimer
      watching := c.watching ++ [c.nextTimer]
      nextTimer := c.nextTimer + 1 } socket

def occur (opts : Options) (c : Conn) : Occurrence → Conn
  | .opened socket => if c.socket = some socket then onopen opts c socket else c
  | .message socket incoming =>
    if c.socket = some socket then
      let heard := { c with lastInbound := c.now }
      match incoming with
      | none => heard
      | some incoming => handleFrame opts heard incoming
    else c
  | .closed socket code => if c.socket = some socket then lost opts c code else c
  | .reconnect timer =>
    if timer ∈ c.armed then openSocket { c with armed := c.armed.erase timer } else c
  | .watchdog timer => if timer ∈ c.watching then checkLiveness opts c else c
  | .callTimeout id =>
    if c.waiters.lookup id = some .call then
      { c with waiters := c.waiters.erase id, outbox := c.outbox.erase id }
    else c
  | .authSettled socket fails =>
    if socket ∈ c.auths then
      let settled := { c with auths := c.auths.erase socket }
      if fails then report settled (.authFailed socket)
      else if c.socket = some socket then request settled .auth .auth
      else settled
    else c
  | .actionSettled id fails =>
    if id ∈ c.actions then
      let settled := { c with actions := c.actions.erase id }
      if fails then report settled (.answering id) else write settled (.clientResult id none)
    else c
  | .tick elapsed => { c with now := c.now + elapsed }

/-- A callback has returned or thrown: `auth` and client actions return a promise,
other errors are reported. -/
def returned (c : Conn) (throws : Bool) : Callback → Conn
  | .auth socket =>
    if throws then report c (.authFailed socket) else { c with auths := c.auths ++ [socket] }
  | .clientAction id =>
    if throws then report c (.answering id) else { c with actions := c.actions ++ [id] }
  | .onHandlerError => c
  | _ => if throws then push c (.user .onHandlerError) else c

/-- The code at a point runs. Only `open` asks whether the factory opens a socket. -/
def proceed (opts : Options) (c : Conn) (opens : Bool) : Point → Conn
  | .user _ => c
  | .scheduling => arm c
  | .opening => runFactory c opens
  | .refused => scheduleReconnect c
  | .becomingReady => goLive c
  | .disconnecting => lost opts c (some 1000)
  | .stopping => forget c
  | .closing => record c .closeReturned
  | .resuming => openSocket c
  | .rejected => stop c
  | .authFailed socket => if c.socket = some socket then lost opts c none else c
  | .answering id => write c (.clientResult id (some 500))
  | .telling [] _ => c
  | .telling (sub :: rest) seen =>
    push (push c (.telling rest seen)) (.user (.subscription sub seen))
  | .publishing g seen => each c g seen
  | .acking ack => replayEarly c ack
  | .replaying [] => c
  | .replaying (frame :: rest) => onPublish opts (push c (.replaying rest)) frame
  | .resubscribing g => if c.ready then sendGroup c g else c

inductive Act where
  | occur (occurrence : Occurrence)
  | invoke (method : Method)
  | return (throws : Bool)
  | proceed (opens : Bool)

/-- Outside events find no code running; methods are called by user code, from a
callback or not; a point on top of the stack runs on. Anything else does not happen. -/
def step (opts : Options) (c : Conn) (a : Act) : Conn :=
  match c.stack, a with
  | [], .occur occurrence => occur opts c occurrence
  | [], .invoke method => invoke opts c method
  | .user _ :: _, .invoke method => invoke opts c method
  | .user callback :: rest, .return throws => returned { c with stack := rest } throws callback
  | .user _ :: _, .proceed _ => c
  | point :: rest, .proceed opens => proceed opts { c with stack := rest } opens point
  | _, _ => c

def connectSocket : Conn := openSocket newConn

end Stakit.SocketConnection
