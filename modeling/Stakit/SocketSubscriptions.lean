import Stakit.FiniteMap
import Stakit.PubsubTopic

set_option autoImplicit false

namespace Stakit.SocketSubscriptions
open FiniteMap PubsubTopic

abbrev GroupRef := ℕ

abbrev SubRef := ℕ

inductive Kind where
  | ping | result | finish | clientCall | publish | reset | unsubscribed | unknown
  deriving DecidableEq, Repr

structure Ack where
  topic : Topic
  epoch : ℕ
  seq : ℕ
  deriving DecidableEq, Repr

structure ErrorBody where
  code : ℕ
  message : String
  deriving DecidableEq, Repr

/-- What `readError` makes of a result without an error. -/
def malformedError : ErrorBody := ⟨500, "malformed error from server"⟩

/-- A validated server frame. `failed` is `status === 'error'`; `ack` and `error`
are what `readAck` and `readError` make of `data` and `error`. -/
structure Frame where
  kind : Kind
  id : Option ℕ
  name : Option String
  params : Option String
  failed : Bool
  ack : Option Ack
  error : ErrorBody
  topic : Option Topic
  seq : Option ℕ
  epoch : Option ℕ
  reason : Option String
  deriving DecidableEq, Repr

structure PublishMessage where
  topic : Topic
  name : String
  params : Option String
  seq : ℕ
  epoch : ℕ
  deriving DecidableEq, Repr

inductive GapReason where
  | seq | epoch | reset | resubscribe
  deriving DecidableEq, Repr

/-- What a subscription was told. `acked` is no callback: it notes that the group
took an ack, after the gap callback that ack may have caused. -/
inductive Seen where
  | acked (epoch seq : ℕ)
  | message (message : PublishMessage)
  | gap (reason : GapReason)
  | error (error : ErrorBody)
  | kick
  deriving DecidableEq, Repr

structure Group where
  channel : String
  key : Value
  id : String
  subs : List SubRef
  topic : Option Topic
  epoch : Option ℕ
  seq : Option ℕ
  pending : Bool

structure Sub where
  owner : GroupRef
  topic : Option Topic

/-- A frame the client writes. -/
inductive Request where
  | subscribe (id : ℕ) (channel : String) (key : Value)
  | unsubscribe (id : ℕ) (topic : Topic)

def earlyPerTopic : ℕ := 64

/-- `written` holds the frames of the current socket; `delivered` the publish
frames whose handler ran. -/
structure Client where
  groups : Map String GroupRef
  byTopic : Map Topic GroupRef
  early : Map Topic (List Frame)
  heap : GroupRef → Group
  nextGroup : GroupRef
  subs : SubRef → Sub
  nextSub : SubRef
  ready : Bool
  nextId : ℕ
  waiters : Map ℕ GroupRef
  written : List Request
  delivered : List Frame
  log : SubRef → List Seen

def noGroup : Group := ⟨"", .null, "", [], none, none, none, false⟩

def newClient : Client :=
  ⟨∅, ∅, ∅, fun _ => noGroup, 0, fun _ => ⟨0, none⟩, 0, false, 1, ∅, [], [], fun _ => []⟩

def alter (c : Client) (g : GroupRef) (f : Group → Group) : Client :=
  { c with heap := Function.update c.heap g (f (c.heap g)) }

theorem alter_heap (c : Client) (g other : GroupRef) (f : Group → Group) :
    (alter c g f).heap other = if other = g then f (c.heap other) else c.heap other := by
  change Function.update c.heap g (f (c.heap g)) other = _
  by_cases hother : other = g
  · rw [hother, Function.update_self, if_pos rfl]
  · rw [Function.update_of_ne hother, if_neg hother]

/-- `each`: runs callbacks on every subscription of the group. -/
def each (c : Client) (g : GroupRef) (seen : List Seen) : Client :=
  { c with log := fun sub => if sub ∈ (c.heap g).subs then c.log sub ++ seen else c.log sub }

def dropTopic (byTopic : Map Topic GroupRef) (g : GroupRef) : Option Topic → Map Topic GroupRef
  | none => byTopic
  | some topic => if byTopic.lookup topic = some g then byTopic.erase topic else byTopic

def drop (c : Client) (g : GroupRef) : Client :=
  { c with
    groups := c.groups.erase (c.heap g).id
    byTopic := dropTopic c.byTopic g (c.heap g).topic }

/-- `send`: a subscribe request whose single result goes to `onAck`. -/
def send (c : Client) (g : GroupRef) : Client :=
  { alter c g (fun group => { group with pending := true }) with
    nextId := c.nextId + 1
    waiters := c.waiters.insert c.nextId g
    written := c.written ++ [.subscribe c.nextId (c.heap g).channel (c.heap g).key] }

def writeUnsubscribe (c : Client) (topic : Topic) : Client :=
  { c with nextId := c.nextId + 1, written := c.written ++ [.unsubscribe c.nextId topic] }

def gapOf (group : Group) (epoch seq : ℕ) : Option GapReason :=
  if some epoch ≠ group.epoch then some .epoch
  else if seq ≠ group.seq.getD 0 + 1 then some .seq
  else none

def messageOf (frame : Frame) : PublishMessage :=
  ⟨frame.topic.getD "", frame.name.getD "", frame.params, frame.seq.getD 0, frame.epoch.getD 0⟩

/-- A publish for a topic no group holds: built-in topics only run their handler,
others wait for an ack that may still come. -/
def onUnclaimed (c : Client) (topic : Topic) (frame : Frame) : Client :=
  if "user:".isPrefixOf topic ∨ "device:".isPrefixOf topic then
    { c with delivered := c.delivered ++ [frame] }
  else if c.groups.entries.any (fun entry => (c.heap entry.2).pending) then
    let list := (c.early.lookup topic).getD []
    if list.length < earlyPerTopic then
      { c with early := c.early.insert topic (list ++ [frame]) }
    else c
  else c

def onPublish (c : Client) (frame : Frame) : Client :=
  let message := messageOf frame
  match c.byTopic.lookup message.topic with
  | none => onUnclaimed c message.topic frame
  | some g =>
    let gap := gapOf (c.heap g) message.epoch message.seq
    let moved := alter c g fun group =>
      { group with epoch := some message.epoch, seq := some message.seq }
    each { moved with delivered := moved.delivered ++ [frame] } g
      ((gap.map Seen.gap).toList ++ [.message message])

def takesEarly (ack : Ack) (frame : Frame) : Bool :=
  frame.epoch = some ack.epoch ∧ ack.seq < frame.seq.getD 0

def ackMoved (group : Group) (ack : Ack) : Bool :=
  group.epoch.isSome && (group.epoch ≠ some ack.epoch || group.seq ≠ some ack.seq)

def placeAck (c : Client) (g : GroupRef) (ack : Ack) : Client :=
  { alter c g (fun group =>
      { group with topic := some ack.topic, epoch := some ack.epoch, seq := some ack.seq }) with
    byTopic := c.byTopic.insert ack.topic g
    subs := fun sub =>
      if sub ∈ (c.heap g).subs then { c.subs sub with topic := some ack.topic } else c.subs sub }

def takeAck (c : Client) (g : GroupRef) (ack : Ack) : Client :=
  let told := each (placeAck c g ack) g
    ((if ackMoved (c.heap g) ack then [.gap .resubscribe] else []) ++ [.acked ack.epoch ack.seq])
  let buffered := (told.early.lookup ack.topic).getD []
  (buffered.filter (takesEarly ack)).foldl onPublish
    { told with early := told.early.erase ack.topic }

def answer (c : Client) (g : GroupRef) : Client :=
  alter c g fun group => { group with pending := false }

def onAck (c : Client) (g : GroupRef) (frame : Frame) : Client :=
  let answered := answer c g
  let group := answered.heap g
  if answered.groups.lookup group.id ≠ some g then answered
  else if frame.failed then each (drop answered g) g [.error frame.error]
  else
    match frame.ack with
    | none => drop answered g
    | some ack =>
      if group.subs = [] then
        let left := drop answered g
        if left.ready then writeUnsubscribe left ack.topic else left
      else takeAck answered g ack

def onReset (c : Client) (frame : Frame) : Client :=
  match c.byTopic.lookup (frame.topic.getD ""), frame.epoch with
  | some g, some epoch =>
    each (alter c g fun group =>
      { group with epoch := some epoch, seq := some (frame.seq.getD 0) }) g [.gap .reset]
  | _, _ => c

def onUnsubscribed (c : Client) (frame : Frame) : Client :=
  match c.byTopic.lookup (frame.topic.getD "") with
  | none => c
  | some g =>
    let left := { c with byTopic := c.byTopic.erase ((c.heap g).topic.getD "") }
    if frame.reason = some "reset" then
      let told := each left g [.gap .reset]
      if told.ready then send told g else told
    else each { left with groups := left.groups.erase (c.heap g).id } g [.kick]

/-- `handleFrame` of the socket, as far as subscriptions go. -/
def handleFrame (c : Client) (frame : Frame) : Client :=
  match frame.kind with
  | .result =>
    match frame.id.bind fun id => (c.waiters.lookup id).map fun g => (id, g) with
    | none => c
    | some (id, g) => onAck { c with waiters := c.waiters.erase id } g frame
  | .finish =>
    match frame.id with
    | none => c
    | some id => { c with waiters := c.waiters.erase id }
  | .publish => onPublish c frame
  | .reset => onReset c frame
  | .unsubscribed => onUnsubscribed c frame
  | .ping | .clientCall | .unknown => c

/-- What an ack can do: nothing for a dead group, end the group with an error, with
no ack in the result or with nobody left, or move its cursor. -/
theorem onAck_cases (c : Client) (g : GroupRef) (frame : Frame) : onAck c g frame = answer c g ∨
    (∃ seen, onAck c g frame = each (drop (answer c g) g) g seen ∧
      ∀ position ∈ seen, ∃ error, position = .error error) ∨
    (∃ topic, onAck c g frame = writeUnsubscribe (drop (answer c g) g) topic) ∨
    ∃ ack, frame.ack = some ack ∧ c.groups.lookup (c.heap g).id = some g ∧
      onAck c g frame = takeAck (answer c g) g ack := by
  have hid : ((answer c g).heap g).id = (c.heap g).id := by
    rw [answer, alter_heap, if_pos rfl]
  unfold onAck
  dsimp only
  rw [hid]
  by_cases hlive : (answer c g).groups.lookup (c.heap g).id ≠ some g
  · rw [if_pos hlive]
    exact .inl rfl
  · rw [if_neg hlive]
    by_cases hfailed : frame.failed = true
    · rw [if_pos hfailed]
      refine .inr (.inl ⟨_, rfl, fun seen hseen => ?_⟩)
      exact ⟨frame.error, List.mem_singleton.mp hseen⟩
    · rw [if_neg hfailed]
      have hnone : drop (answer c g) g = each (drop (answer c g) g) g [] := by
        unfold each
        simp
      cases hack : frame.ack with
      | none => exact .inr (.inl ⟨[], hnone, by simp⟩)
      | some ack =>
        dsimp only
        split_ifs
        · exact .inr (.inr (.inl ⟨ack.topic, rfl⟩))
        · exact .inr (.inl ⟨[], hnone, by simp⟩)
        · exact .inr (.inr (.inr ⟨ack, rfl, not_not.mp hlive, rfl⟩))

/-- The live groups in the order they were added. -/
def groupRefs (c : Client) : List GroupRef := (c.groups.entries.map (·.2)).reverse

def resubscribeOne (c : Client) (g : GroupRef) : Client :=
  if (c.heap g).subs = [] then { c with groups := c.groups.erase (c.heap g).id } else send c g

def resubscribe (c : Client) : Client := (groupRefs c).foldl resubscribeOne c

def becomeReady (c : Client) : Client := resubscribe { c with ready := true }

/-- The socket is gone and its waiters, frames and server-side state with it. -/
def lost (c : Client) : Client :=
  { c with
    ready := false
    waiters := ∅
    written := []
    byTopic := ∅
    early := ∅
    heap := fun g =>
      if g ∈ groupRefs c then { c.heap g with pending := false } else c.heap g }

def stop (c : Client) : Client := { lost c with groups := ∅ }

section
variable (stableKey : Value → String)

def groupId (channel : String) (key : Value) : String :=
  channel ++ String.singleton '\x00' ++ stableKey key

def subscribe (c : Client) (channel : String) (key : Value) : Client :=
  let id := groupId stableKey channel key
  match c.groups.lookup id with
  | some g =>
    { alter c g (fun group => { group with subs := group.subs ++ [c.nextSub] }) with
      subs := Function.update c.subs c.nextSub ⟨g, (c.heap g).topic⟩
      nextSub := c.nextSub + 1 }
  | none =>
    let g := c.nextGroup
    let opened :=
      { c with
        groups := c.groups.insert id g
        heap := Function.update c.heap g
          ⟨channel, key, id, [c.nextSub], none, none, none, false⟩
        nextGroup := g + 1
        subs := Function.update c.subs c.nextSub ⟨g, none⟩
        nextSub := c.nextSub + 1 }
    if opened.ready then send opened g else opened

/-- A new group with one subscription, before its subscribe frame is sent. -/
def openGroup (c : Client) (channel : String) (key : Value) : Client :=
  { c with
    groups := c.groups.insert (groupId stableKey channel key) c.nextGroup
    heap := Function.update c.heap c.nextGroup
      ⟨channel, key, groupId stableKey channel key, [c.nextSub], none, none, none, false⟩
    nextGroup := c.nextGroup + 1
    subs := Function.update c.subs c.nextSub ⟨c.nextGroup, none⟩
    nextSub := c.nextSub + 1 }

def leave (c : Client) (sub : SubRef) : Client :=
  alter c (c.subs sub).owner fun group => { group with subs := group.subs.filter (· ≠ sub) }

def unsubscribe (c : Client) (sub : SubRef) : Client :=
  let g := (c.subs sub).owner
  if sub ∈ (c.heap g).subs then
    let left := leave c sub
    if (left.heap g).subs ≠ [] then left
    else if (left.heap g).pending then left
    else
      let dropped := drop left g
      match (c.heap g).topic with
      | none => dropped
      | some topic => if dropped.ready then writeUnsubscribe dropped topic else dropped
  else c

inductive Act where
  | subscribe (channel : String) (key : Value)
  | unsubscribe (sub : SubRef)
  | frame (frame : Frame)
  | ready
  | lost
  | stop

def step (c : Client) : Act → Client
  | .subscribe channel key => subscribe stableKey c channel key
  | .unsubscribe sub => unsubscribe c sub
  | .frame frame => handleFrame c frame
  | .ready => becomeReady c
  | .lost => lost c
  | .stop => stop c

end

end Stakit.SocketSubscriptions
