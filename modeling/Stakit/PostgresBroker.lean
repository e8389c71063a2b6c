import Stakit.FiniteMap
import Stakit.PostgresWire

set_option autoImplicit false

/-!
# A node of the Postgres bus

`send` is three steps of its task (take a counter, seal, enqueue) that other
tasks can come between. The publisher task drains the outbox in queue order, and
the notifications reach the other node one by one. Adding one to a counter wraps,
as it does in a release build.
-/
namespace Stakit.PostgresBroker
open FiniteMap RouterError

def outboxCapacity : ℕ := 4096

def batchSize : ℕ := 256

def maxInboundCalls : ℕ := 64

def addOne (counter : ℕ) : ℕ := (counter + 1) % (u64Max + 1)

/-- The milliseconds since the epoch, as `now_ms` has them. -/
def nowMs (elapsed : ℕ) : ℕ := min elapsed u64Max

/-- A waiter is named by a number; `permits` counts the inbound calls this node
may still start. -/
structure Inner where
  key : Key
  node : ℕ
  counter : ℕ
  attached : Bool
  outbox : List String
  pending : Map ℕ ℕ
  nextCall : ℕ
  seen : Map ℕ ℕ
  permits : ℕ

def newInner (key : Key) (node : ℕ) (attached : Bool) : Inner :=
  ⟨key, node, 0, attached, [], ∅, 0, ∅, maxInboundCalls⟩

/-- The node's own doings: the hub attaches its sink, an inbound call ends, a
caller waits for an answer and stops waiting. -/
inductive Local where
  | attach
  | release
  | beginCall (waiter : ℕ)
  | endCall (id : ℕ)
  deriving DecidableEq, Repr

def Inner.act (inner : Inner) : Local → Inner
  | .attach => { inner with attached := true }
  | .release => { inner with permits := inner.permits + 1 }
  | .beginCall waiter =>
    { inner with
      pending := inner.pending.insert inner.nextCall waiter
      nextCall := addOne inner.nextCall }
  | .endCall id => { inner with pending := inner.pending.erase id }

/-- What `handle` did with a notification. -/
inductive Handled (json : Json) where
  | unread
  | ownNode
  | replay
  | unattached
  | deliver (topic payload : String)
  | busy
  | call (origin id : ℕ) (topic request : String)
  | answer (waiter : Option ℕ) (result : Except Error json.Value)
  | notMine

/-- The notification got past the replay guard. -/
def Handled.accepted {json : Json} : Handled json → Bool
  | .unread | .ownNode | .replay => false
  | _ => true

def fresh (inner : Inner) (origin counter : ℕ) : Inner × Bool :=
  let last := (inner.seen.lookup origin).getD 0
  if last ≤ counter then
    ({ inner with seen := inner.seen.insert origin (addOne counter) }, true)
  else ({ inner with seen := inner.seen.insert origin last }, false)

section
variable {json : Json} (codec : Codec json)

def dispatch (inner : Inner) (origin : ℕ) : Body json → Inner × Handled json
  | .publish topic p => (inner, .deliver topic p.text)
  | .call id topic p =>
    if inner.permits = 0 then (inner, .busy)
    else ({ inner with permits := inner.permits - 1 }, .call origin id topic p.text)
  | .reply dest id ok err =>
    if dest = inner.node then
      let result := match err with
        | none => .ok (ok.getD json.null)
        | some failure => .error (applicationError failure.code failure.message)
      ({ inner with pending := inner.pending.erase id }, .answer (inner.pending.lookup id) result)
    else (inner, .notMine)

def handle (inner : Inner) (payload : String) (elapsed : ℕ) : Inner × Handled json :=
  match openText codec inner.key payload (nowMs elapsed) with
  | none => (inner, .unread)
  | some opened =>
    if opened.origin = inner.node then (inner, .ownNode)
    else
      let (inner', isFresh) := fresh inner opened.origin opened.counter
      if isFresh = false then (inner', .replay)
      else if inner'.attached = false then (inner', .unattached)
      else dispatch inner' opened.origin opened.body

/-- Where a call of `send` stands. -/
inductive Sending (json : Json) where
  | idle
  | counted (counter : ℕ) (body : Body json)
  | signed (counter : ℕ) (text : String)
  | sent
  | failed (error : Error)

def backlogFull : Error := coded 503 "unavailable" "pub/sub backlog full"

/-- Two nodes: the senders on one, the notifications on their way, the other.
`queued` lists the counters that went into the outbox and `verdicts` what the
other node did with the notifications; no step reads either. -/
structure Bus (json : Json) where
  sender : Inner
  tasks : ℕ → Sending json
  notified : List String
  receiver : Inner
  queued : List ℕ
  verdicts : List (Handled json)

inductive Act (json : Json) where
  | take (task : ℕ) (body : Body json)
  | sign (task elapsed : ℕ)
  | trySend (task : ℕ)
  | publish (count : ℕ)
  | notify (elapsed : ℕ)
  | foreign (text : String) (elapsed : ℕ)
  | own (doing : Local)

def takeCounter (bus : Bus json) (task : ℕ) (body : Body json) : Bus json :=
  { bus with
    sender := { bus.sender with counter := addOne bus.sender.counter }
    tasks := Function.update bus.tasks task (.counted bus.sender.counter body) }

def sign (bus : Bus json) (task elapsed : ℕ) : Bus json :=
  match bus.tasks task with
  | .counted counter body =>
    match sealText codec bus.sender.key bus.sender.node counter (nowMs elapsed) body with
    | .ok text => { bus with tasks := Function.update bus.tasks task (.signed counter text) }
    | .error error => { bus with tasks := Function.update bus.tasks task (.failed error) }
  | _ => bus

def trySend (bus : Bus json) (task : ℕ) : Bus json :=
  match bus.tasks task with
  | .signed counter text =>
    if bus.sender.outbox.length < outboxCapacity then
      { bus with
        sender := { bus.sender with outbox := bus.sender.outbox ++ [text] }
        tasks := Function.update bus.tasks task .sent
        queued := bus.queued ++ [counter] }
    else { bus with tasks := Function.update bus.tasks task (.failed backlogFull) }
  | _ => bus

/-- One round of `publish_loop` takes at most a batch from the front. -/
def publishBatch (bus : Bus json) (count : ℕ) : Bus json :=
  let taken := min count batchSize
  { bus with
    sender := { bus.sender with outbox := bus.sender.outbox.drop taken }
    notified := bus.notified ++ bus.sender.outbox.take taken }

def notify (bus : Bus json) (elapsed : ℕ) : Bus json :=
  match bus.notified with
  | [] => bus
  | text :: rest =>
    let handled := handle codec bus.receiver text elapsed
    { bus with
      notified := rest
      receiver := handled.1
      verdicts := bus.verdicts ++ [handled.2] }

def step (bus : Bus json) : Act json → Bus json
  | .take task body => takeCounter bus task body
  | .sign task elapsed => sign codec bus task elapsed
  | .trySend task => trySend bus task
  | .publish count => publishBatch bus count
  | .notify elapsed => notify codec bus elapsed
  | .foreign text elapsed =>
    { bus with receiver := (handle codec bus.receiver text elapsed).1 }
  | .own doing => { bus with receiver := bus.receiver.act doing }

def newBus (key : Key) (node other : ℕ) (attached : Bool) : Bus json :=
  ⟨newInner key node true, fun _ => .idle, [], newInner key other attached, [], []⟩

end

end Stakit.PostgresBroker
