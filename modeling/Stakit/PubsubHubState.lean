import Mathlib.Algebra.Ring.Nat
import Mathlib.Data.Finset.Basic
import Stakit.EpochStreams
import Stakit.FiniteMap
import Stakit.PubsubTopic

set_option autoImplicit false

/-!
# The hub's shared state

One node's topic index, connection table and revocation counters. The 64 topic
shards are one map here: a topic lives in the shard its hash picks, so the shards
only decide which locks two operations share and the order of `reset`'s walk,
which is an argument of the model's `reset`. The 64-bit counters of connections,
revocations and epoch calls are naturals; an epoch's own wrap and mask are kept.
-/
namespace Stakit.PubsubHub
open FiniteMap PubsubTopic RouterError

def revocationSlots : ℕ := 256

/-- `JS_SAFE`, the largest integer JavaScript numbers carry exactly. -/
def jsSafe : ℕ := 2 ^ 53 - 1

def usizeMax : ℕ := 2 ^ 64 - 1

abbrev ConnId := ℕ

abbrev Cursor := EpochStreams.Cursor

inductive CloseReason where
  | authTimeout | unauthorized | tooManyConnections | idle | slowConsumer
  | frameTooLarge | superseded | revoked | rateLimited
  deriving DecidableEq, Repr

inductive CloseKind where
  | superseded | revoked
  deriving DecidableEq, Repr

/-- The `data` of a successful `result` frame. -/
inductive Data where
  | null
  | bool (flag : Bool)
  | cursor (topic : Topic) (position : Cursor)
  | json (text : String)
  deriving DecidableEq, Repr

/-- A frame queued for a client. `other` stands for the kinds the hub never
builds (pings, client calls, stream items and their end). -/
inductive Frame where
  | publish (topic : Topic) (name params : String) (position : Cursor)
  | reset (topic : Topic) (position : Cursor)
  | unsubscribed (topic : Topic) (reason : String)
  | result (id : ℕ) (data : Data)
  | failure (id : ℕ) (error : Error)
  | other (text : String)
  deriving DecidableEq, Repr

/-- A broker payload as the receiving node reads it back. -/
structure Incoming where
  name : Option String
  params : Option String
  kick : Option String
  close : Option CloseKind
  deriving DecidableEq, Repr

def publishPayload (name params : String) : Incoming := ⟨some name, some params, none, none⟩
def kickPayload (user : String) : Incoming := ⟨none, none, some user, none⟩
def closePayload (kind : CloseKind) : Incoming := ⟨none, none, none, some kind⟩

/-- What a connection's session shares with the hub: its bounded outgoing queue
(oldest frame first), its closer and whether its client calls were failed. -/
structure Peer where
  capacity : ℕ
  queue : List Frame
  receiving : Bool
  closer : Option CloseReason
  callsFailed : Bool
  deriving DecidableEq, Repr

def noPeer : Peer := ⟨0, [], false, none, false⟩

/-- `Topic`: a subscriber's sender is the queue of its connection. -/
structure TopicState where
  subscribers : List ConnId
  distinct : subscribers.Nodup
  cursor : Cursor
  deriving DecidableEq

structure Conn where
  authenticated : Bool
  user : Option String
  device : Option (String × Topic)
  topics : Map Topic Bool
  explicit : ℕ

def newConn : Conn := ⟨false, none, none, ∅, 0⟩

structure Subscribe where
  explicit : Bool
  max : ℕ
  mark : Option ℕ
  ack : Option (Cursor → Frame)

/-- The request of `authenticate` and of `Session::subscribe`. -/
def auto : Subscribe := ⟨false, usizeMax, none, none⟩

structure Identity where
  user : Option String
  device : Option String
  deriving DecidableEq, Repr

/-- What happened to a topic's stream; a publish carries its name and params. No
operation reads the trace; statements about gaps in a stream refer to it. -/
abbrev Event := EpochStreams.Event Topic (String × String)

structure Hub where
  index : Map Topic TopicState
  revocations : ℕ → ℕ
  hasher : Topic → ℕ
  byId : Map ConnId Conn
  perUser : Map String ℕ
  devices : Map String ConnId
  nextConn : ConnId
  epochBase : ℕ
  nextEpoch : ℕ
  /-- Topics the broker was told to subscribe to and not since to unsubscribe from. -/
  interest : Finset Topic
  /-- Payloads handed to the broker, in order. -/
  handedOff : List (Topic × Incoming)
  peers : ConnId → Peer
  trace : List Event

def newHub (hasher : Topic → ℕ) (epochBase : ℕ) : Hub :=
  ⟨∅, fun _ => 0, hasher, ∅, ∅, ∅, 1, epochBase, 0, ∅, [], fun _ => noPeer, []⟩

def gone : Error := coded 410 "gone" "connection closed"
def subscriptionRevoked : Error :=
  coded 409 "subscription_revoked" "access changed while subscribing; retry"
def tooManySubscriptions : Error :=
  coded 429 "too_many_subscriptions" "subscription limit reached"
def tooManyConnections : Error :=
  coded 429 "too_many_connections" "too many connections for this user"
def deviceConflict : Error :=
  coded 409 "device_conflict" "the device is held by another user"
def alreadyAuthenticated : Error := coded 409 "conflict" "session already authenticated"
def deviceNeedsUser : Error := badRequest "a device identity needs a user"

/-- `try_send`: fails on a full queue and once the receiver is gone. -/
def trySend (peers : ConnId → Peer) (id : ConnId) (frame : Frame) : (ConnId → Peer) × Bool :=
  if (peers id).receiving = true ∧ (peers id).queue.length < (peers id).capacity then
    (Function.update peers id { peers id with queue := (peers id).queue ++ [frame] }, true)
  else (peers, false)

def sendEach (frame : Frame) : (ConnId → Peer) → List ConnId → (ConnId → Peer) × List ConnId
  | peers, [] => (peers, [])
  | peers, id :: ids =>
    let sent := trySend peers id frame
    let rest := sendEach frame sent.1 ids
    (rest.1, if sent.2 then rest.2 else id :: rest.2)

/-- `signal`: records the first close reason. -/
def signal (peers : ConnId → Peer) (id : ConnId) (reason : CloseReason) : ConnId → Peer :=
  match (peers id).closer with
  | some _ => peers
  | none => Function.update peers id { peers id with closer := some reason }

def failPending (peers : ConnId → Peer) (id : ConnId) : ConnId → Peer :=
  Function.update peers id { peers id with callsFailed := true }

end Stakit.PubsubHub
