import Stakit.PubsubHubIdentity

set_option autoImplicit false

/-!
# One node under concurrency

The subscribe tasks, kicks and resets of one node, interleaved at their lock
boundaries: every action below is one step no other thread can split. A subscribe
task reads the topic's revocation mark, lets `authorize` run, and inserts with
that mark; it starts over, at most twice, when the hub refuses the mark. A broker
kick first looks the topic up and later kicks. A reset bumps the slots one by one
and then walks the index. `other` is any remaining section, so the rest of every
hub operation may come between any two steps.

`clock`, `stamps` and `kicks` are history: when a step happened, when the mark of
an inserted subscription had been read, and which kicks were processed.
-/
namespace Stakit.PubsubNode
open FiniteMap PubsubTopic RouterError PubsubHub TransitionRuns
open Function (update)

def subscribeAttempts : ℕ := 3

inductive Phase where
  | idle
  | resolving
  | authorizing (mark readAt : ℕ)
  | ready (mark readAt : ℕ)
  | slow
  | failed (error : Error)
  deriving DecidableEq

/-- The task `spawn_subscribe` starts. -/
structure Task where
  conn : ConnId
  topic : Topic
  frameId : ℕ
  max : ℕ
  attempts : ℕ
  phase : Phase

def noTask : Task := ⟨0, "", 0, 0, 0, .idle⟩

structure Kick where
  topic : Topic
  user : String
  time : ℕ
  deriving DecidableEq

/-- A call of `reset`: when it bumped the slots so far, whether it has walked, and
whom it has still to close. -/
structure Reset where
  bumps : List ℕ
  walked : Bool
  slow : List ConnId

structure Node where
  hub : Hub
  onError : Error → Error
  tasks : ℕ → Task
  pending : List (Topic × String)
  resets : ℕ → Reset
  clock : ℕ
  stamps : ConnId → Topic → ℕ
  kicks : List Kick

def newNode (hasher : Topic → ℕ) (epochBase : ℕ) (onError : Error → Error) : Node :=
  ⟨newHub hasher epochBase, onError, fun _ => noTask, [], fun _ => ⟨[], false, []⟩, 0,
    fun _ _ => 0, []⟩

inductive Act where
  | spawn (task : ℕ) (conn : ConnId) (topic : Topic) (frameId max : ℕ)
  | readMark (task : ℕ)
  | allow (task : ℕ)
  | fail (task : ℕ) (error : Error)
  | insert (task : ℕ)
  | finish (task : ℕ)
  | kick (topic : Topic) (user : String)
  | lookUp (topic : Topic) (user : String)
  | deliver (topic : Topic) (user : String)
  | bump (reset : ℕ)
  | walk (reset : ℕ) (order : List Topic)
  | closeSlow (reset : ℕ)
  | other (s : Section)

/-- Sections no other action stands for. -/
def ordinary : Section → Bool
  | .subscribe _ _ request => !request.explicit
  | .kick _ _ | .bump _ | .walk _ => false
  | _ => true

def setTask (n : Node) (task : ℕ) (t : Task) : Node :=
  { n with tasks := update n.tasks task t }

def setPhase (n : Node) (task : ℕ) (phase : Phase) : Node :=
  setTask n task { n.tasks task with phase := phase }

def clientRequest (t : Task) (mark : ℕ) : Subscribe :=
  ⟨true, t.max, some mark, some fun position => .result t.frameId (.cursor t.topic position)⟩

def stamped (n : Node) (after : Hub) (conn : ConnId) (topic : Topic) (readAt : ℕ) :
    ConnId → Topic → ℕ :=
  if entry n.hub conn topic = none ∧ entry after conn topic ≠ none then
    update n.stamps conn (update (n.stamps conn) topic readAt)
  else n.stamps

def afterInsert (t : Task) (slow : List ConnId) : Except Error Cursor → Phase
  | .ok _ => if slow = [] then .idle else .slow
  | .error error =>
    if error.kind = "subscription_revoked" ∧ t.attempts < subscribeAttempts then .resolving
    else .failed error

def insertTask (n : Node) (task : ℕ) (mark readAt : ℕ) : Node :=
  let t := n.tasks task
  let done := subscribeLocked n.hub t.conn t.topic (clientRequest t mark)
  setPhase { n with hub := done.1, stamps := stamped n done.1 t.conn t.topic readAt } task
    (afterInsert t done.2.1 done.2.2)

def finishTask (n : Node) (task : ℕ) : Node :=
  let t := n.tasks task
  match t.phase with
  | .slow => setPhase { n with hub := close n.hub t.conn .slowConsumer } task .idle
  | .failed error =>
    setPhase { n with hub := sendNow n.hub t.conn (.failure t.frameId (n.onError error)) } task
      .idle
  | _ => n

/-- `kick_local`, up to the closing of slow consumers. -/
def kicked (n : Node) (topic : Topic) (user : String) : Node :=
  { n with
    hub := (kickLocked n.hub topic user).1
    kicks := n.kicks ++ [⟨topic, user, n.clock⟩] }

def bumpReset (n : Node) (reset : ℕ) : Node :=
  let r := n.resets reset
  if r.bumps.length < revocationSlots then
    { n with
      hub := bumpSlot n.hub r.bumps.length
      resets := update n.resets reset { r with bumps := r.bumps ++ [n.clock] } }
  else n

/-- A reset may walk once all slots are bumped, over the whole index. -/
def MayWalk (n : Node) (reset : ℕ) (order : List Topic) : Prop :=
  (n.resets reset).bumps.length = revocationSlots ∧ (n.resets reset).walked = false ∧
    order.Perm n.hub.index.keys

instance (n : Node) (reset : ℕ) (order : List Topic) : Decidable (MayWalk n reset order) :=
  inferInstanceAs (Decidable (_ ∧ _ ∧ _))

def walkReset (n : Node) (reset : ℕ) (order : List Topic) : Node :=
  if MayWalk n reset order then
    { n with
      hub := (resetLocked n.hub order).1
      resets := update n.resets reset
        { n.resets reset with walked := true, slow := (resetLocked n.hub order).2 } }
  else n

def closeReset (n : Node) (reset : ℕ) : Node :=
  match (n.resets reset).slow with
  | [] => n
  | id :: rest =>
    { n with
      hub := close n.hub id .slowConsumer
      resets := update n.resets reset { n.resets reset with slow := rest } }

def act (n : Node) : Act → Node
  | .spawn task conn topic frameId max =>
    if (n.tasks task).phase = .idle then setTask n task ⟨conn, topic, frameId, max, 0, .resolving⟩
    else n
  | .readMark task =>
    let t := n.tasks task
    match t.phase with
    | .resolving =>
      setTask n task
        { t with
          attempts := t.attempts + 1
          phase := .authorizing (revocationMark n.hub t.topic) n.clock }
    | _ => n
  | .allow task =>
    match (n.tasks task).phase with
    | .authorizing mark readAt => setPhase n task (.ready mark readAt)
    | _ => n
  | .fail task error =>
    match (n.tasks task).phase with
    | .resolving | .authorizing _ _ => setPhase n task (.failed error)
    | _ => n
  | .insert task =>
    match (n.tasks task).phase with
    | .ready mark readAt => insertTask n task mark readAt
    | _ => n
  | .finish task => finishTask n task
  | .kick topic user => kicked n topic user
  | .lookUp topic user =>
    if hasTopic n.hub topic then { n with pending := n.pending ++ [(topic, user)] }
    else { n with kicks := n.kicks ++ [⟨topic, user, n.clock⟩] }
  | .deliver topic user =>
    if (topic, user) ∈ n.pending then
      kicked { n with pending := n.pending.erase (topic, user) } topic user
    else n
  | .bump reset => bumpReset n reset
  | .walk reset order => walkReset n reset order
  | .closeSlow reset => closeReset n reset
  | .other s => if ordinary s then { n with hub := PubsubHub.step n.hub s } else n

def step (n : Node) (a : Act) : Node := { act n a with clock := n.clock + 1 }

def InFlight (t : Task) (mark readAt : ℕ) : Prop :=
  t.phase = .authorizing mark readAt ∨ t.phase = .ready mark readAt

end Stakit.PubsubNode
