import Stakit.PubsubRevocation

set_option autoImplicit false

namespace Stakit.PubsubCluster
open FiniteMap PubsubTopic RouterError PubsubHub TransitionRuns List
open Function (update_self update_of_ne update)

/-- A payload on its way to one node; `cause` is the time of the step that sent it. -/
structure Message where
  dest : ℕ
  topic : Topic
  payload : Incoming
  cause : ℕ

structure Claim where
  node : ℕ
  conn : ConnId
  user : String
  device : String
  time : ℕ
  deriving DecidableEq, Repr

/-- The hubs and what is in flight between them. `claims` and `clock` record the
claims that succeeded; no step reads them. -/
structure Cluster where
  nodes : List ℕ
  hubs : ℕ → Hub
  inFlight : List Message
  claims : List Claim
  clock : ℕ

def newCluster (nodes : List ℕ) (hasher : Topic → ℕ) (epochBase : ℕ → ℕ) : Cluster :=
  ⟨nodes, fun node => newHub hasher (epochBase node), [], [], 0⟩

inductive Act where
  | connect (node buffer : ℕ)
  | claim (node : ℕ) (id : ConnId) (identity : Identity) (maxPerUser : ℕ)
  | deliver (index : ℕ)
  deriving DecidableEq, Repr

def broadcasts (c : Cluster) (node : ℕ) (before after : Hub) : List Message :=
  (c.nodes.filter (· ≠ node)).flatMap fun dest =>
    (after.handedOff.drop before.handedOff.length).map fun sent =>
      ⟨dest, sent.1, sent.2, c.clock⟩

def recordClaim (claims : List Claim) (node : ℕ) (id : ConnId) (identity : Identity) (time : ℕ) :
    Except Error Unit → List Claim
  | .error _ => claims
  | .ok () =>
    match identity.user, identity.device with
    | some user, some device => claims ++ [⟨node, id, user, device, time⟩]
    | _, _ => claims

def claim (c : Cluster) (node : ℕ) (id : ConnId) (identity : Identity) (maxPerUser : ℕ) : Cluster :=
  let after := authenticate (c.hubs node) id identity maxPerUser
  { c with
    hubs := update c.hubs node after.1
    inFlight := c.inFlight ++ broadcasts c node (c.hubs node) after.1
    claims := recordClaim c.claims node id identity c.clock after.2
    clock := c.clock + 1 }

/-- The receiving node handles the payload as `BrokerSink::deliver` does. -/
def receive (c : Cluster) (m : Message) : Hub :=
  PubsubHub.deliver (c.hubs m.dest) m.topic (some m.payload)

def deliver (c : Cluster) (index : ℕ) : Cluster :=
  match c.inFlight[index]? with
  | none => c
  | some m =>
    { c with
      hubs := update c.hubs m.dest (receive c m)
      inFlight := c.inFlight.eraseIdx index
      clock := c.clock + 1 }

def step (c : Cluster) : Act → Cluster
  | .connect node buffer =>
    { c with
      hubs := update c.hubs node (apply (c.hubs node) (.register buffer))
      clock := c.clock + 1 }
  | .claim node id identity maxPerUser => claim c node id identity maxPerUser
  | .deliver index => deliver c index

def registered (h : Hub) (id : ConnId) : Bool := (h.byId.lookup id).isSome

def Newest (c : Cluster) (newest : Claim) : Prop :=
  ∀ other ∈ c.claims, other.user = newest.user → other.device = newest.device →
    other.time ≤ newest.time

/-- A message spares whoever claimed the device after the claim that caused it, and
the connection that claimed a device last is still there. -/
structure NewestHolds (c : Cluster) : Prop where
  spared : ∀ m ∈ c.inFlight, ∀ cause ∈ c.claims, cause.time = m.cause → ∀ later ∈ c.claims,
    later.user = cause.user → later.device = cause.device → cause.time < later.time →
    later.node = m.dest → registered (c.hubs m.dest) later.conn = true →
    registered (receive c m) later.conn = true
  newest : ∀ newest ∈ c.claims, Newest c newest → registered (c.hubs newest.node) newest.conn = true

/-- A device is claimed on a node when no message about that device is on its way
there. -/
def Settled (c : Cluster) : Act → Prop
  | .claim node _ identity _ => ∀ user device topic, identity.user = some user →
    identity.device = some device → deviceTopic user device = .ok topic →
    ∀ m ∈ c.inFlight, m.dest = node → m.topic ≠ topic
  | _ => True

theorem subscribeEach_handedOff {h : Hub} {id : ConnId} (topics : List Topic) {conn : Conn}
    (hconn : h.byId.lookup id = some conn) :
    (subscribeEach id auto h topics).1.handedOff = h.handedOff := by
  refine subscribeEach_invariant (fun after => after.handedOff = h.handedOff) id ?_ h topics conn
    hconn rfl
  intro after topic hafter
  exact (subscribeLocked_core after id topic auto).handedOff.trans hafter

theorem detachHolder_handedOff (h : Hub) (holder : Option ConnId) :
    (detachHolder h holder).1.handedOff = h.handedOff := by
  cases holder with
  | none => rfl
  | some holder => exact (detachLocked_frame h holder).2.2.2

/-- A claim fails and changes nothing, or binds the connection, takes the device
from its holder here and hands off one message if a device was claimed. -/
theorem authenticate_cases (h : Hub) (id : ConnId) (identity : Identity) (maxPerUser : ℕ) :
    (∃ error, authenticate h id identity maxPerUser = (h, .error error)) ∨
    ∃ conn userTopic deviceTopic, identityTopics identity = .ok (userTopic, deviceTopic) ∧
      h.byId.lookup id = some conn ∧ conn.authenticated = false ∧
      heldByAnother h (deviceHolder h id identity.device) identity.user = false ∧
      (authenticate h id identity maxPerUser).2 = .ok () ∧
      (∀ who, identityOf (authenticate h id identity maxPerUser).1 who =
        if who = id then some ⟨true, identity.user, claimedDevice identity deviceTopic⟩
        else if deviceHolder h id identity.device = some who then none else identityOf h who) ∧
      (∀ who topic, entry (authenticate h id identity maxPerUser).1 who topic =
        if who = id then (if topic ∈ userTopic.toList ++ deviceTopic.toList ∧
          entry h id topic = none then some false else entry h id topic)
        else if deviceHolder h id identity.device = some who then none else entry h who topic) ∧
      (authenticate h id identity maxPerUser).1.handedOff =
        h.handedOff ++ deviceTopic.toList.map fun topic => (topic, closePayload .superseded) := by
  unfold authenticate
  cases htopics : identityTopics identity with
  | error error => exact .inl ⟨error, rfl⟩
  | ok topics =>
    obtain ⟨userTopic, deviceTopic⟩ := topics
    dsimp only
    obtain ⟨error, heq⟩ | ⟨conn, hconn, hauth, _, hheld, heq⟩ :=
      authenticateLocked_cases h id identity maxPerUser userTopic deviceTopic
    · rw [heq]
      exact .inl ⟨error, rfl⟩
    · have hid := bound_identity h id identity conn (claimedDevice identity deviceTopic)
        (userTopic.toList ++ deviceTopic.toList)
      have hentry := bound_entry h id identity conn (claimedDevice identity deviceTopic)
        (userTopic.toList ++ deviceTopic.toList) hconn
      have hhanded := (subscribeEach_handedOff (userTopic.toList ++ deviceTopic.toList)
        (claimed_lookup (detachHolder h (deviceHolder h id identity.device)).1 id conn
          identity.user (claimedDevice identity deviceTopic))).trans
        (detachHolder_handedOff h (deviceHolder h id identity.device))
      rw [heq]
      refine .inr ⟨conn, userTopic, deviceTopic, rfl, hconn, hauth, hheld, rfl, ?_, ?_, ?_⟩
      · intro who
        rw [← hid who]
        cases deviceTopic <;> cases (detachHolder h _).2 <;> rfl
      · intro who topic
        rw [← hentry who topic]
        cases deviceTopic <;> cases (detachHolder h _).2 <;> rfl
      · rw [← hhanded]
        cases deviceTopic <;> cases (detachHolder h _).2 <;>
          first | rfl | exact (append_nil _).symm

structure ClusterInv (c : Cluster) : Prop where
  index : ∀ node, IndexInv (c.hubs node)
  identity : ∀ node, IdentityInv (c.hubs node)
  own : ∀ node id topic, entry (c.hubs node) id topic ≠ none → OwnTopic (c.hubs node) id topic
  past : ∀ claim ∈ c.claims, claim.time < c.clock
  distinct : ∀ claim ∈ c.claims, ∀ other ∈ c.claims, claim.time = other.time → claim = other
  encoded : ∀ claim ∈ c.claims, ∃ topic, deviceTopic claim.user claim.device = .ok topic
  supersede : ∀ m ∈ c.inFlight, m.payload = closePayload .superseded
  caused : ∀ m ∈ c.inFlight, ∃ cause ∈ c.claims, cause.time = m.cause ∧
    deviceTopic cause.user cause.device = .ok m.topic
  fence : ∀ m ∈ c.inFlight, ∀ claim ∈ c.claims, claim.node = m.dest →
    deviceTopic claim.user claim.device = .ok m.topic → claim.time < m.cause
  newest : ∀ newest ∈ c.claims, Newest c newest →
    ∃ topic, deviceOf (c.hubs newest.node) newest.conn = some (newest.device, topic) ∧
      deviceTopic newest.user newest.device = .ok topic

theorem registered_of_identity {h : Hub} {id : ConnId} (hid : identityOf h id ≠ none) :
    registered h id = true := by
  unfold registered
  rw [Option.isSome_iff_ne_none]
  intro hnone
  exact hid ((identityOf_none h id).mpr hnone)

theorem identity_ne_none_of_device {h : Hub} {id : ConnId} {held : String × Topic}
    (hdev : deviceOf h id = some held) : identityOf h id ≠ none := by
  intro hnone
  rw [deviceOf, hnone] at hdev
  cases hdev

theorem newCluster_inv (nodes : List ℕ) (hasher : Topic → ℕ) (epochBase : ℕ → ℕ) :
    ClusterInv (newCluster nodes hasher epochBase) where
  index node := newHub_index hasher (epochBase node)
  identity node := newHub_identity hasher (epochBase node)
  own node id topic hentry := by simp [newCluster, entry, newHub] at hentry
  past claim hin := by cases hin
  distinct claim hin := by cases hin
  encoded claim hin := by cases hin
  supersede m hin := by cases hin
  caused m hin := by cases hin
  fence m hin := by cases hin
  newest newest hin := by cases hin

theorem ClusterInv.newestHolds {c : Cluster} (hinv : ClusterInv c) : NewestHolds c where
  spared m hm cause hcause htime later hlater huser hdevice hlt hdest _ := by
    obtain ⟨sent, hsent, hcaused, htopic⟩ := hinv.caused m hm
    obtain rfl := hinv.distinct cause hcause sent hsent (htime.trans hcaused.symm)
    have hcoded : deviceTopic later.user later.device = .ok m.topic := by
      rw [huser, hdevice]
      exact htopic
    have hfence := hinv.fence m hm later hlater hdest hcoded
    omega
  newest newest hin hall := by
    obtain ⟨topic, hdev, _⟩ := hinv.newest newest hin hall
    exact registered_of_identity (identity_ne_none_of_device hdev)

theorem ClusterInv.of_hub {c c' : Cluster} (hinv : ClusterInv c) (node : ℕ) (h' : Hub)
    (hhubs : c'.hubs = update c.hubs node h') (hclaims : c'.claims = c.claims)
    (hsent : ∀ m ∈ c'.inFlight, m ∈ c.inFlight) (hclock : c.clock ≤ c'.clock)
    (hindex : IndexInv h') (hidentity : IdentityInv h')
    (hown : ∀ id topic, entry h' id topic ≠ none → OwnTopic h' id topic)
    (hkept : ∀ newest ∈ c.claims, Newest c newest → newest.node = node →
      deviceOf h' newest.conn = deviceOf (c.hubs node) newest.conn) : ClusterInv c' where
  index other := by
    rw [hhubs]
    exact Function.forall_update_iff c.hubs (fun _ => IndexInv) |>.mpr
      ⟨hindex, fun other _ => hinv.index other⟩ other
  identity other := by
    rw [hhubs]
    exact Function.forall_update_iff c.hubs (fun _ => IdentityInv) |>.mpr
      ⟨hidentity, fun other _ => hinv.identity other⟩ other
  own other := by
    rw [hhubs]
    exact Function.forall_update_iff c.hubs
      (fun _ h => ∀ id topic, entry h id topic ≠ none → OwnTopic h id topic) |>.mpr
      ⟨hown, fun other _ => hinv.own other⟩ other
  past claim hin := by
    rw [hclaims] at hin
    exact (hinv.past claim hin).trans_le hclock
  distinct := by
    rw [hclaims]
    exact hinv.distinct
  encoded := by
    rw [hclaims]
    exact hinv.encoded
  supersede m hm := hinv.supersede m (hsent m hm)
  caused m hm := by
    rw [hclaims]
    exact hinv.caused m (hsent m hm)
  fence m hm := by
    rw [hclaims]
    exact hinv.fence m (hsent m hm)
  newest newest hin hall := by
    have hbefore : Newest c newest := by
      unfold Newest at hall ⊢
      rw [hclaims] at hall
      exact hall
    rw [hclaims] at hin
    obtain ⟨topic, hdev, hcoded⟩ := hinv.newest newest hin hbefore
    refine ⟨topic, ?_, hcoded⟩
    rw [hhubs]
    by_cases hnode : newest.node = node
    · rw [hnode, update_self, hkept newest hin hbefore hnode, ← hnode]
      exact hdev
    · rw [update_of_ne hnode]
      exact hdev

theorem ownTopic_congr (h h' : Hub) (id : ConnId) {topic : Topic}
    (hsame : identityOf h' id = identityOf h id) (hown : OwnTopic h id topic) :
    OwnTopic h' id topic := by
  unfold OwnTopic deviceOf at hown ⊢
  rw [userOf_eq] at hown ⊢
  rw [hsame]
  exact hown

theorem connect_inv {c : Cluster} (node buffer : ℕ) (hinv : ClusterInv c) :
    ClusterInv (step c (.connect node buffer)) := by
  have hid := register_identity (c.hubs node) (max buffer 1)
  refine hinv.of_hub node _ rfl rfl (fun m hm => hm) (Nat.le_succ _)
    (apply_index _ (.register buffer) (hinv.index node))
    (run_apply_identity _ [.register buffer] (hinv.identity node)) ?_ ?_
  · intro id topic hentry
    change entry (register (c.hubs node) (max buffer 1)) id topic ≠ none at hentry
    rw [register_entry] at hentry
    split_ifs at hentry with hnew
    · exact absurd rfl hentry
    · refine ownTopic_congr (c.hubs node) _ id ?_ (hinv.own node id topic hentry)
      exact (hid id).trans (if_neg hnew)
  · intro newest hin hall hnode
    obtain ⟨topic, hdev, _⟩ := hinv.newest newest hin hall
    rw [hnode] at hdev
    have hold : newest.conn ≠ (c.hubs node).nextConn := by
      intro heq
      have hsome := identity_ne_none_of_device hdev
      rw [Ne, identityOf_none] at hsome
      obtain ⟨conn, hconn⟩ := Option.ne_none_iff_exists'.mp hsome
      exact Nat.ne_of_lt ((hinv.index node).fresh newest.conn conn hconn) heq
    unfold deviceOf
    rw [show identityOf (apply (c.hubs node) (.register buffer)) newest.conn = _ from hid _,
      if_neg hold]

theorem deliver_inv {c : Cluster} (index : ℕ) (hinv : ClusterInv c) :
    ClusterInv (step c (.deliver index)) := by
  change ClusterInv (deliver c index)
  unfold deliver
  cases hm : c.inFlight[index]? with
  | none => exact hinv
  | some m =>
    have hin : m ∈ c.inFlight := mem_of_getElem? hm
    have hclosed : receive c m = closeAll (c.hubs m.dest)
        (subscriberIds (c.hubs m.dest) m.topic) .superseded := by
      unfold receive
      rw [hinv.supersede m hin, deliver_close]
      rfl
    refine hinv.of_hub m.dest (receive c m) rfl rfl (fun other => mem_of_mem_eraseIdx)
      (Nat.le_succ _) (apply_index _ (.deliver m.topic (some m.payload)) (hinv.index m.dest))
      (run_apply_identity _ [.deliver m.topic (some m.payload)] (hinv.identity m.dest)) ?_ ?_
    · intro id topic hentry
      rw [hclosed, closeAll_entry] at hentry
      split_ifs at hentry with hout
      · exact absurd rfl hentry
      · refine ownTopic_congr (c.hubs m.dest) _ id ?_ (hinv.own m.dest id topic hentry)
        rw [hclosed, closeAll_identity, if_neg hout]
    · intro newest hnewest hall hnode
      obtain ⟨topic, hdev, hcoded⟩ := hinv.newest newest hnewest hall
      rw [hnode] at hdev
      unfold deviceOf
      rw [hclosed, closeAll_identity, if_neg]
      intro hsubscribed
      obtain ⟨cause, hcause, htime, htopic⟩ := hinv.caused m hin
      have hentry := ((hinv.index m.dest).members newest.conn m.topic).mp hsubscribed
      obtain ⟨user, _, huser⟩ | ⟨device, hheld⟩ := hinv.own m.dest newest.conn m.topic
        (Option.isSome_iff_ne_none.mp hentry)
      · exact userTopic_ne_deviceTopic huser htopic
      · rw [hdev] at hheld
        cases hheld
        have hfence := hinv.fence m hin newest hnewest hnode hcoded
        obtain ⟨hsameUser, hsameDevice⟩ := deviceTopic_inj htopic hcoded
        have hlast := hall cause hcause hsameUser hsameDevice
        omega

theorem holder_device {h : Hub} {id who : ConnId} {user device : String} {topic : Topic}
    (hinv : IdentityInv h) (hholder : deviceHolder h id (some device) = some who)
    (hheld : heldByAnother h (deviceHolder h id (some device)) (some user) = false)
    (hcoded : deviceTopic user device = .ok topic) : deviceOf h who = some (device, topic) := by
  have hlook : h.devices.lookup device = some who := (Option.filter_eq_some_iff.mp hholder).1
  obtain ⟨held, hdev⟩ := (hinv.devices device who).mp hlook
  obtain ⟨owner, howner, hother⟩ := hinv.encoded who device held hdev
  rw [hholder] at hheld
  have hsame : (h.byId.lookup who).bind (·.user) = some user := by
    simpa [heldByAnother] using hheld
  change userOf h who = some user at hsame
  rw [howner] at hsame
  cases hsame
  rw [hcoded] at hother
  cases hother
  exact hdev

theorem claim_refused {c : Cluster} {node : ℕ} {id : ConnId} {identity : Identity}
    {maxPerUser : ℕ} {error : Error}
    (hrefused : authenticate (c.hubs node) id identity maxPerUser = (c.hubs node, .error error)) :
    claim c node id identity maxPerUser = { c with clock := c.clock + 1 } := by
  unfold claim broadcasts
  rw [hrefused]
  simp [recordClaim]

theorem clock_inv {c : Cluster} (hinv : ClusterInv c) :
    ClusterInv { c with clock := c.clock + 1 } where
  index := hinv.index
  identity := hinv.identity
  own := hinv.own
  past claim hin := Nat.lt_succ_of_lt (hinv.past claim hin)
  distinct := hinv.distinct
  encoded := hinv.encoded
  supersede := hinv.supersede
  caused := hinv.caused
  fence := hinv.fence
  newest := hinv.newest

theorem bound_own {h h' : Hub} {id : ConnId} {identity : Identity} {bound : Bound}
    {userTopic' deviceTopic' : Option Topic}
    (htopics : identityTopics identity = .ok (userTopic', deviceTopic'))
    (hbound : identityOf h id = some bound) (hnobody : bound.user = none ∧ bound.device = none)
    (hown : ∀ topic, entry h id topic ≠ none → OwnTopic h id topic)
    (hid : identityOf h' id = some ⟨true, identity.user, claimedDevice identity deviceTopic'⟩)
    {topic : Topic} (hentry : (if topic ∈ userTopic'.toList ++ deviceTopic'.toList ∧
      entry h id topic = none then some false else entry h id topic) ≠ none) :
    OwnTopic h' id topic := by
  have hnone : entry h id topic = none := by
    by_contra hsome
    obtain ⟨user, huser, _⟩ | ⟨device, hdevice⟩ := hown topic hsome
    · rw [userOf_eq, hbound, Option.bind_some, hnobody.1] at huser
      cases huser
    · rw [deviceOf, hbound, Option.bind_some, hnobody.2] at hdevice
      cases hdevice
  rw [hnone] at hentry
  split_ifs at hentry with hin
  · unfold OwnTopic deviceOf
    rw [userOf_eq, hid]
    obtain ⟨rfl, rfl, rfl⟩ | ⟨user, found, rfl, huser, rfl, rfl⟩ |
        ⟨user, device, found, held, rfl, huser, _, rfl, rfl⟩ :=
      identityTopics_cases identity htopics
    · simp at hin
    · have htopic : topic = found := by simpa using hin.1
      rw [htopic]
      exact .inl ⟨user, rfl, huser⟩
    · have htopic : topic = found ∨ topic = held := by simpa using hin.1
      obtain rfl | rfl := htopic
      · exact .inl ⟨user, rfl, huser⟩
      · exact .inr ⟨device, rfl⟩
  · exact absurd rfl hentry

/-- What a successful claim leaves on its node: everybody is on own topics only, and
a device changes hands only if it is the one claimed. -/
theorem authenticate_kept {h : Hub} {id : ConnId} {identity : Identity} {maxPerUser : ℕ}
    {conn : Conn} {first second : Option Topic} (hinv : IdentityInv h)
    (hown : ∀ id topic, entry h id topic ≠ none → OwnTopic h id topic)
    (htopics : identityTopics identity = .ok (first, second))
    (hconn : h.byId.lookup id = some conn) (hauth : conn.authenticated = false)
    (hheld : heldByAnother h (deviceHolder h id identity.device) identity.user = false)
    (hid : ∀ who, identityOf (authenticate h id identity maxPerUser).1 who =
      if who = id then some ⟨true, identity.user, claimedDevice identity second⟩
      else if deviceHolder h id identity.device = some who then none else identityOf h who)
    (hentry : ∀ who topic, entry (authenticate h id identity maxPerUser).1 who topic =
      if who = id then (if topic ∈ first.toList ++ second.toList ∧ entry h id topic = none
        then some false else entry h id topic)
      else if deviceHolder h id identity.device = some who then none else entry h who topic) :
    (∀ who topic, entry (authenticate h id identity maxPerUser).1 who topic ≠ none →
      OwnTopic (authenticate h id identity maxPerUser).1 who topic) ∧
    ∀ who device topic, deviceOf h who = some (device, topic) → second ≠ some topic →
      deviceOf (authenticate h id identity maxPerUser).1 who = some (device, topic) := by
  have hbound : identityOf h id = some (boundOf conn) := by simp [identityOf, hconn]
  have hnobody := hinv.unbound id (boundOf conn) hbound hauth
  constructor
  · intro who topic hafter
    rw [hentry] at hafter
    by_cases hwho : who = id
    · rw [if_pos hwho] at hafter
      rw [hwho]
      have hself := (hid id).trans (if_pos rfl)
      exact bound_own htopics hbound hnobody
        (hown id) hself hafter
    · rw [if_neg hwho] at hafter
      split_ifs at hafter with hholder
      · exact absurd rfl hafter
      · refine ownTopic_congr h _ who ?_ (hown who topic hafter)
        rw [hid, if_neg hwho, if_neg hholder]
  · intro who device topic hdev hother
    have hwho : who ≠ id := by
      rintro rfl
      rw [deviceOf, hbound, Option.bind_some, hnobody.2] at hdev
      cases hdev
    have hholder : deviceHolder h id identity.device ≠ some who := by
      intro hholder
      obtain ⟨rfl, _, _⟩ | ⟨user, found, rfl, _, _, _⟩ |
          ⟨user, claimed, found, held, rfl, _, hcoded, _, rfl⟩ :=
        identityTopics_cases identity htopics
      · cases hholder
      · cases hholder
      · have hsame := holder_device hinv hholder hheld hcoded
        rw [hdev] at hsame
        cases hsame
        exact hother rfl
    unfold deviceOf at hdev ⊢
    rw [hid, if_neg hwho, if_neg hholder]
    exact hdev

theorem mem_broadcasts {c : Cluster} {node : ℕ} {before after : Hub} {topic : Topic}
    (hsent : after.handedOff = before.handedOff ++ [(topic, closePayload .superseded)])
    {m : Message} (hm : m ∈ broadcasts c node before after) :
    m.dest ≠ node ∧ m.topic = topic ∧ m.payload = closePayload .superseded ∧ m.cause = c.clock := by
  unfold broadcasts at hm
  rw [hsent, drop_left] at hm
  obtain ⟨dest, hdest, hin⟩ := mem_flatMap.mp hm
  simp only [map_cons, map_nil, mem_singleton] at hin
  rw [hin]
  exact ⟨of_decide_eq_true (mem_filter.mp hdest).2, rfl, rfl, rfl⟩

theorem claim_device_inv {c : Cluster} (node : ℕ) {h' : Hub} (new : Claim)
    (sent : List Message) {topic : Topic} (hinv : ClusterInv c) (hnode : new.node = node)
    (htime : new.time = c.clock) (hcoded : deviceTopic new.user new.device = .ok topic)
    (hindex : IndexInv h') (hidentity : IdentityInv h')
    (hown : ∀ id topic, entry h' id topic ≠ none → OwnTopic h' id topic)
    (hnew : deviceOf h' new.conn = some (new.device, topic))
    (hkept : ∀ who device held, deviceOf (c.hubs node) who = some (device, held) →
      held ≠ topic → deviceOf h' who = some (device, held))
    (hsent : ∀ m ∈ sent, m.dest ≠ node ∧ m.topic = topic ∧
      m.payload = closePayload .superseded ∧ m.cause = c.clock)
    (hsettled : ∀ m ∈ c.inFlight, m.dest = node → m.topic ≠ topic) :
    ClusterInv
      { c with
        hubs := update c.hubs node h'
        inFlight := c.inFlight ++ sent
        claims := c.claims ++ [new]
        clock := c.clock + 1 } where
  index := Function.forall_update_iff c.hubs (fun _ => IndexInv) |>.mpr
    ⟨hindex, fun other _ => hinv.index other⟩
  identity := Function.forall_update_iff c.hubs (fun _ => IdentityInv) |>.mpr
    ⟨hidentity, fun other _ => hinv.identity other⟩
  own := Function.forall_update_iff c.hubs
    (fun _ h => ∀ id topic, entry h id topic ≠ none → OwnTopic h id topic) |>.mpr
    ⟨hown, fun other _ => hinv.own other⟩
  past claim hin := by
    obtain hin | hin := mem_append.mp hin
    · exact Nat.lt_succ_of_lt (hinv.past claim hin)
    · rw [mem_singleton.mp hin, htime]
      exact Nat.lt_succ_self _
  distinct claim hin other hother heq := by
    obtain hin | hin := mem_append.mp hin
    · have hpast := hinv.past claim hin
      obtain hother | hother := mem_append.mp hother
      · exact hinv.distinct claim hin other hother heq
      · rw [mem_singleton.mp hother] at heq
        omega
    · rw [mem_singleton.mp hin] at heq ⊢
      obtain hother | hother := mem_append.mp hother
      · have hpast := hinv.past other hother
        omega
      · exact (mem_singleton.mp hother).symm
  encoded claim hin := by
    obtain hin | hin := mem_append.mp hin
    · exact hinv.encoded claim hin
    · rw [mem_singleton.mp hin]
      exact ⟨topic, hcoded⟩
  supersede m hm := by
    obtain hm | hm := mem_append.mp hm
    · exact hinv.supersede m hm
    · exact (hsent m hm).2.2.1
  caused m hm := by
    obtain hm | hm := mem_append.mp hm
    · obtain ⟨cause, hcause, hrest⟩ := hinv.caused m hm
      exact ⟨cause, mem_append_left _ hcause, hrest⟩
    · obtain ⟨_, htopic, _, hcause⟩ := hsent m hm
      refine ⟨new, mem_append_right _ (mem_singleton.mpr rfl), htime.trans hcause.symm, ?_⟩
      rw [htopic]
      exact hcoded
  fence m hm claim hin hdest htopic := by
    obtain hm | hm := mem_append.mp hm
    · obtain hin | hin := mem_append.mp hin
      · exact hinv.fence m hm claim hin hdest htopic
      · rw [mem_singleton.mp hin] at hdest htopic
        rw [hcoded] at htopic
        cases htopic
        exact absurd rfl (hsettled m hm (hdest.symm.trans hnode))
    · obtain ⟨hother, _, _, hcause⟩ := hsent m hm
      obtain hin | hin := mem_append.mp hin
      · rw [hcause]
        exact hinv.past claim hin
      · rw [mem_singleton.mp hin, hnode] at hdest
        exact absurd hdest.symm hother
  newest newest hin hall := by
    obtain hin | hin := mem_append.mp hin
    · have hbefore : Newest c newest := fun other hother =>
        hall other (mem_append_left _ hother)
      obtain ⟨held, hdev, hheld⟩ := hinv.newest newest hin hbefore
      have hother : held ≠ topic := by
        rintro rfl
        obtain ⟨huser, hdevice⟩ := deviceTopic_inj hcoded hheld
        have hlast := hall new (mem_append_right _ (mem_singleton.mpr rfl)) huser hdevice
        have hpast := hinv.past newest hin
        omega
      refine ⟨held, ?_, hheld⟩
      change deviceOf (update c.hubs node h' newest.node) newest.conn = _
      by_cases hsame : newest.node = node
      · rw [hsame] at hdev
        rw [hsame, update_self]
        exact hkept newest.conn newest.device held hdev hother
      · rw [update_of_ne hsame]
        exact hdev
    · rw [mem_singleton.mp hin]
      refine ⟨topic, ?_, hcoded⟩
      change deviceOf (update c.hubs node h' new.node) new.conn = _
      rw [hnode, update_self]
      exact hnew

theorem broadcasts_nothing (c : Cluster) (node : ℕ) {before after : Hub}
    (hsent : after.handedOff = before.handedOff) : broadcasts c node before after = [] := by
  unfold broadcasts
  rw [hsent, drop_length]
  simp

theorem claim_inv {c : Cluster} {node : ℕ} {id : ConnId} {identity : Identity}
    {maxPerUser : ℕ} (hinv : ClusterInv c)
    (hsettled : Settled c (.claim node id identity maxPerUser)) :
    ClusterInv (step c (.claim node id identity maxPerUser)) := by
  change ClusterInv (claim c node id identity maxPerUser)
  obtain ⟨error, hrefused⟩ | ⟨conn, first, second, htopics, hconn, hauth, hheld, hok, hid, hentry,
      hhanded⟩ := authenticate_cases (c.hubs node) id identity maxPerUser
  · rw [claim_refused hrefused]
    exact clock_inv hinv
  obtain ⟨hown, hkept⟩ := authenticate_kept
    (hinv.identity node) (hinv.own node) htopics hconn hauth hheld hid hentry
  have hindex := apply_index _ (.authenticate id identity maxPerUser) (hinv.index node)
  have hidentity := run_apply_identity _ [.authenticate id identity maxPerUser]
    (hinv.identity node)
  have hnothing : second = none → (claim c node id identity maxPerUser).claims = c.claims →
      ClusterInv (claim c node id identity maxPerUser) := by
    intro hsecond hclaims
    rw [hsecond] at hhanded hkept
    have hsent : broadcasts c node (c.hubs node)
        (authenticate (c.hubs node) id identity maxPerUser).1 = [] :=
      broadcasts_nothing c node (hhanded.trans (append_nil _))
    refine hinv.of_hub node _ rfl hclaims ?_ (Nat.le_succ _) hindex hidentity hown ?_
    · intro m hm
      change m ∈ c.inFlight ++ broadcasts c node (c.hubs node) _ at hm
      rw [hsent, append_nil] at hm
      exact hm
    · intro newest hin hall hnode
      obtain ⟨topic, hdev, _⟩ := hinv.newest newest hin hall
      rw [hnode] at hdev
      rw [hdev]
      exact hkept newest.conn newest.device topic hdev (by simp)
  obtain ⟨rfl, _, hsecond⟩ | ⟨user, found, rfl, _, _, hsecond⟩ |
      ⟨user, device, found, held, rfl, _, hcoded, _, rfl⟩ :=
    identityTopics_cases identity htopics
  · refine hnothing hsecond ?_
    unfold claim
    dsimp only
    rw [hok]
    rfl
  · refine hnothing hsecond ?_
    unfold claim
    dsimp only
    rw [hok]
    rfl
  · have hnew := (hid id).trans (if_pos rfl)
    unfold claim
    dsimp only
    rw [hok]
    refine claim_device_inv node ⟨node, id, user, device, c.clock⟩ _ hinv rfl rfl hcoded
      hindex hidentity hown ?_ ?_ ?_ (hsettled user device held rfl rfl hcoded)
    · unfold deviceOf
      rw [hnew]
      rfl
    · intro who other topic hdev hother
      refine hkept who other topic hdev fun heq => ?_
      cases heq
      exact hother rfl
    · intro m hm
      exact mem_broadcasts hhanded hm

theorem step_clusterInv (c : Cluster) (a : Act) (hinv : ClusterInv c) (hsettled : Settled c a) :
    ClusterInv (step c a) := by
  cases a with
  | connect node buffer => exact connect_inv node buffer hinv
  | claim node id identity maxPerUser => exact claim_inv hinv hsettled
  | deliver index => exact deliver_inv index hinv

/-- In every run in which devices are claimed only where no message about them is
going, no message closes a later claimer and the newest claimer is still there. -/
theorem newest_holds_of_run (nodes : List ℕ) (hasher : Topic → ℕ) (epochBase : ℕ → ℕ)
    (acts : List Act) (hsettled : Meets step Settled (newCluster nodes hasher epochBase) acts) :
    NewestHolds (run step (newCluster nodes hasher epochBase) acts) :=
  (guarded_run_invariant step Settled ClusterInv step_clusterInv _ acts
    (newCluster_inv nodes hasher epochBase) hsettled).newestHolds

/-- Two nodes: the device moves from the first to the second once the message of
the first claim has arrived. -/
def movedRun : List Act :=
  [.connect 1 8, .connect 2 8, .claim 1 1 ⟨some "u1", some "d1"⟩ 5, .deliver 0,
    .claim 2 1 ⟨some "u1", some "d1"⟩ 5, .deliver 0]

theorem newest_holds_movedRun : Meets step Settled (newCluster [1, 2] (fun _ => 0) id) movedRun ∧
    registered ((run step (newCluster [1, 2] (fun _ => 0) id) movedRun).hubs 1) 1 = false ∧
    NewestHolds (run step (newCluster [1, 2] (fun _ => 0) id) movedRun) := by
  have hsettled : Meets step Settled (newCluster [1, 2] (fun _ => 0) id) movedRun := by
    refine ⟨trivial, trivial, ?_, trivial, ?_, trivial, trivial⟩
    · intro user device topic _ _ _ m hm
      cases hm
    · intro user device topic _ _ _ m hm
      cases hm
  exact ⟨hsettled, by decide, newest_holds_of_run _ _ _ _ hsettled⟩

/-- The messages of two claims cross, and each closes the other's connection. -/
theorem crossed_claims_not_held : (run step (newCluster [1, 2] (fun _ => 0) id)
      [.connect 1 8, .connect 2 8, .claim 1 1 ⟨some "u1", some "d1"⟩ 5,
        .claim 2 1 ⟨some "u1", some "d1"⟩ 5, .deliver 0, .deliver 0]).inFlight.length = 0 ∧
    ¬ NewestHolds (run step (newCluster [1, 2] (fun _ => 0) id)
      [.connect 1 8, .connect 2 8, .claim 1 1 ⟨some "u1", some "d1"⟩ 5,
        .claim 2 1 ⟨some "u1", some "d1"⟩ 5, .deliver 0, .deliver 0]) := by
  refine ⟨by decide, fun hholds => ?_⟩
  have hnewest := hholds.newest ⟨2, 1, "u1", "d1", 3⟩ (by decide) (by unfold Newest; decide)
  exact absurd hnewest (by decide)

end Stakit.PubsubCluster
