import Stakit.PubsubHubOperations

set_option autoImplicit false

namespace Stakit.PubsubHub
open FiniteMap PubsubTopic RouterError

/-- The flag of a connection's subscription, if it has one. -/
def entry (h : Hub) (id : ConnId) (topic : Topic) : Option Bool :=
  (h.byId.lookup id).bind (fun conn => conn.topics.lookup topic)

def userOf (h : Hub) (id : ConnId) : Option String := (h.byId.lookup id).bind (·.user)

variable (index : Map Topic TopicState) (interest : Finset Topic) (h : Hub) (id who : ConnId)
  (conn : Conn) (topic other : Topic) (user : String) (state : TopicState) (request : Subscribe)

theorem isExplicit_iff : isExplicit h id topic = true ↔ entry h id topic = some true := by
  change ((entry h id topic).getD false) = true ↔ _
  cases entry h id topic <;> simp

theorem entry_of_lookup {conn : Conn} (hconn : h.byId.lookup id = some conn) :
    entry h id topic = conn.topics.lookup topic := by
  simp [entry, hconn]

theorem entry_of_none (hconn : h.byId.lookup id = none) : entry h id topic = none := by
  simp [entry, hconn]

theorem registered_of_entry {flag : Bool} (hentry : entry h id topic = some flag) :
    ∃ conn, h.byId.lookup id = some conn := by
  unfold entry at hentry
  cases hconn : h.byId.lookup id with
  | none => simp [hconn] at hentry
  | some conn => exact ⟨conn, rfl⟩

theorem entry_congr {h' : Hub} (hbyId : h'.byId = h.byId) (id : ConnId) (topic : Topic) :
    entry h' id topic = entry h id topic := by
  simp [entry, hbyId]

theorem subscriberIds_congr {h' : Hub} (hindex : h'.index = h.index) (topic : Topic) :
    subscriberIds h' topic = subscriberIds h topic := by
  simp [subscriberIds, hindex]

theorem subscriberIds_of_lookup (hstate : h.index.lookup topic = some state) :
    subscriberIds h topic = state.subscribers := by
  simp [subscriberIds, hstate]

theorem lookup_of_mem_subscriberIds {id : ConnId} (hmem : id ∈ subscriberIds h topic) :
    ∃ state, h.index.lookup topic = some state ∧ id ∈ state.subscribers := by
  unfold subscriberIds at hmem
  cases hstate : h.index.lookup topic with
  | none => simp [hstate] at hmem
  | some state => exact ⟨state, rfl, by simpa [hstate] using hmem⟩

theorem subscriberIds_nodup : (subscriberIds h topic).Nodup := by
  unfold subscriberIds
  cases hstate : h.index.lookup topic with
  | none => simp
  | some state => simpa using state.distinct

theorem mem_removeSubscriber (id other : ConnId) :
    other ∈ (removeSubscriber state id).subscribers ↔ other ∈ state.subscribers ∧ other ≠ id := by
  simp [removeSubscriber]

theorem mem_addSubscriber (id other : ConnId) :
    other ∈ (addSubscriber state id).subscribers ↔ other = id ∨ other ∈ state.subscribers := by
  simp [addSubscriber]

theorem dropFrom_lookup_ne (id : ConnId) (hne : other ≠ topic) :
    (dropFrom index interest topic id).1.lookup other = index.lookup other := by
  unfold dropFrom
  split
  · rfl
  · dsimp only
    split_ifs
    · exact AList.lookup_erase_ne hne
    · exact AList.lookup_insert_ne hne

theorem dropFrom_lookup_self (id : ConnId) : (dropFrom index interest topic id).1.lookup topic =
      (index.lookup topic).bind (fun state =>
        if (removeSubscriber state id).subscribers = [] then none
        else some (removeSubscriber state id)) := by
  unfold dropFrom
  cases hstate : index.lookup topic with
  | none => simp [hstate]
  | some state =>
    dsimp only [Option.bind_some]
    split_ifs
    · exact AList.lookup_erase topic index
    · exact AList.lookup_insert index

theorem mem_subscriberIds_dropSubscriber (id who : ConnId) :
    who ∈ subscriberIds (dropSubscriber h topic id) other ↔
      who ∈ subscriberIds h other ∧ ¬ (other = topic ∧ who = id) := by
  unfold subscriberIds dropSubscriber
  by_cases hother : other = topic
  · subst hother
    simp only [dropFrom_lookup_self, true_and]
    cases hstate : h.index.lookup other with
    | none => simp
    | some state =>
      have hmem := mem_removeSubscriber state id who
      simp only [Option.bind_some, Option.map_some, Option.getD_some]
      split_ifs with hempty
      · rw [hempty] at hmem
        simpa using hmem
      · simpa using hmem
  · simp [dropFrom_lookup_ne _ _ _ _ _ hother, hother]

structure Occupied (index : Map Topic TopicState) (interest : Finset Topic) : Prop where
  nonempty : ∀ topic state, index.lookup topic = some state → state.subscribers ≠ []
  interested : ∀ topic, topic ∈ interest ↔ (index.lookup topic).isSome

theorem dropFrom_occupied (id : ConnId) (h : Occupied index interest) :
    Occupied (dropFrom index interest topic id).1 (dropFrom index interest topic id).2 := by
  unfold dropFrom
  split
  · exact h
  · rename_i state hstate
    dsimp only
    split_ifs with hempty
    · constructor
      · intro other found hfound
        rw [lookup_erase_ite] at hfound
        split_ifs at hfound
        exact h.nonempty other found hfound
      · intro other
        rw [lookup_erase_ite, Finset.mem_erase, h.interested]
        by_cases hother : other = topic <;> simp [hother]
    · constructor
      · intro other found hfound
        rw [lookup_insert_ite] at hfound
        split_ifs at hfound
        · simp only [Option.some.injEq] at hfound
          rw [← hfound]
          exact hempty
        · exact h.nonempty other found hfound
      · intro other
        rw [lookup_insert_ite, h.interested]
        by_cases hother : other = topic
        · subst hother
          simp [hstate]
        · simp [hother]

/-- What subscribes, kicks and resets leave alone: everything but subscriptions,
the index and the queues. -/
structure SameCore (h h' : Hub) : Prop where
  perUser : h'.perUser = h.perUser
  devices : h'.devices = h.devices
  nextConn : h'.nextConn = h.nextConn
  revocations : h'.revocations = h.revocations
  hasher : h'.hasher = h.hasher
  epochBase : h'.epochBase = h.epochBase
  handedOff : h'.handedOff = h.handedOff

theorem SameCore.refl : SameCore h h := ⟨rfl, rfl, rfl, rfl, rfl, rfl, rfl⟩

theorem SameCore.trans {h h' h'' : Hub} (a : SameCore h h') (b : SameCore h' h'') :
    SameCore h h'' :=
  ⟨b.perUser.trans a.perUser, b.devices.trans a.devices, b.nextConn.trans a.nextConn,
    b.revocations.trans a.revocations, b.hasher.trans a.hasher, b.epochBase.trans a.epochBase,
    b.handedOff.trans a.handedOff⟩

theorem ensureTopic_lookup : ∃ state, (ensureTopic h topic).index.lookup topic = some state ∧
      state.subscribers = subscriberIds h topic := by
  unfold ensureTopic hasTopic
  cases hstate : h.index.lookup topic with
  | none =>
    exact ⟨⟨[], List.nodup_nil, ⟨newEpoch h, 0⟩⟩, by simp, by simp [subscriberIds, hstate]⟩
  | some state => exact ⟨state, by simp [hstate], (subscriberIds_of_lookup h topic state hstate).symm⟩

theorem ensureTopic_lookup_ne (hne : other ≠ topic) :
    (ensureTopic h topic).index.lookup other = h.index.lookup other := by
  unfold ensureTopic
  split_ifs
  · rfl
  · exact AList.lookup_insert_ne hne

theorem ensureTopic_core : SameCore h (ensureTopic h topic) := by
  unfold ensureTopic
  split_ifs <;> exact ⟨rfl, rfl, rfl, rfl, rfl, rfl, rfl⟩

theorem ensureTopic_byId : (ensureTopic h topic).byId = h.byId := by
  unfold ensureTopic
  split_ifs <;> rfl

theorem ensureTopic_peers : (ensureTopic h topic).peers = h.peers := by
  unfold ensureTopic
  split_ifs <;> rfl

theorem sendAck_core (ack : Option (Cursor → Frame)) (position : Cursor) :
    SameCore h (sendAck h id topic ack position).1 := by
  cases ack <;> exact ⟨rfl, rfl, rfl, rfl, rfl, rfl, rfl⟩

theorem sendAck_frame (ack : Option (Cursor → Frame)) (position : Cursor) :
    (sendAck h id topic ack position).1.byId = h.byId ∧
      (sendAck h id topic ack position).1.index = h.index ∧
      (sendAck h id topic ack position).1.interest = h.interest := by
  cases ack <;> exact ⟨rfl, rfl, rfl⟩

def subscribed (h : Hub) (id : ConnId) (conn : Conn) (topic : Topic) (state : TopicState)
    (request : Subscribe) : Hub × List ConnId :=
  sendAck
    (if (conn.topics.lookup topic).isSome then ensureTopic h topic
      else joinTopic (ensureTopic h topic) id conn topic state request.explicit)
    id topic request.ack state.cursor

/-- A subscribe fails before it changes anything, or goes through with the mark
it was given still current. -/
theorem subscribeLocked_cases :
    (∃ error, subscribeLocked h id topic request = (h, [], .error error)) ∨
    ∃ conn state, h.byId.lookup id = some conn ∧
      (∀ mark, request.mark = some mark → mark = revocationMark h topic) ∧
      (ensureTopic h topic).index.lookup topic = some state ∧
      subscribeLocked h id topic request = ((subscribed h id conn topic state request).1,
          (subscribed h id conn topic state request).2, .ok state.cursor) := by
  unfold subscribeLocked
  cases hconn : h.byId.lookup id with
  | none => exact .inl ⟨gone, rfl⟩
  | some conn =>
    dsimp only
    by_cases hmark : request.mark.any (fun mark => mark ≠ revocationMark h topic) = true
    · rw [if_pos hmark]
      exact .inl ⟨_, rfl⟩
    rw [if_neg hmark]
    by_cases hlimit : (!(conn.topics.lookup topic).isSome && request.explicit &&
        decide (request.max ≤ conn.explicit)) = true
    · rw [if_pos hlimit]
      exact .inl ⟨_, rfl⟩
    rw [if_neg hlimit]
    obtain ⟨state, hstate, _⟩ := ensureTopic_lookup h topic
    refine .inr ⟨conn, state, rfl, ?_, hstate, ?_⟩
    · intro mark hm
      simpa [hm] using hmark
    · rw [hstate]
      rfl

theorem subscribed_byId : (subscribed h id conn topic state request).1.byId =
      if (conn.topics.lookup topic).isSome then h.byId
      else h.byId.insert id
        { conn with
          topics := conn.topics.insert topic request.explicit
          explicit := conn.explicit + request.explicit.toNat } := by
  unfold subscribed
  rw [(sendAck_frame _ _ _ _ _).1]
  split_ifs
  · exact ensureTopic_byId h topic
  · simp only [joinTopic, ensureTopic_byId]

theorem subscribed_entry (hconn : h.byId.lookup id = some conn) (who : ConnId) (other : Topic) :
    entry (subscribed h id conn topic state request).1 who other =
      if who = id ∧ other = topic ∧ entry h id topic = none then some request.explicit
      else entry h who other := by
  rw [entry_of_lookup h id topic hconn]
  unfold entry
  rw [subscribed_byId]
  cases hflag : conn.topics.lookup topic with
  | some flag => simp
  | none =>
    simp only [Option.isSome_none, Bool.false_eq_true, if_false, lookup_insert_ite, and_true]
    by_cases hwho : who = id
    · subst hwho
      simp only [if_true, Option.bind_some, lookup_insert_ite, true_and, hconn]
    · simp [hwho]

theorem subscribed_index : (subscribed h id conn topic state request).1.index =
      if (conn.topics.lookup topic).isSome then (ensureTopic h topic).index
      else (ensureTopic h topic).index.insert topic (addSubscriber state id) := by
  unfold subscribed
  rw [(sendAck_frame _ _ _ _ _).2.1]
  split_ifs <;> rfl

theorem subscribed_interest :
    (subscribed h id conn topic state request).1.interest = (ensureTopic h topic).interest := by
  unfold subscribed
  rw [(sendAck_frame _ _ _ _ _).2.2]
  split_ifs <;> rfl

theorem subscribed_core : SameCore h (subscribed h id conn topic state request).1 := by
  have hopened := ensureTopic_core h topic
  unfold subscribed
  refine SameCore.trans ?_ (sendAck_core _ id topic request.ack state.cursor)
  split_ifs
  · exact hopened
  · exact hopened.trans ⟨rfl, rfl, rfl, rfl, rfl, rfl, rfl⟩

theorem subscribeLocked_core : SameCore h (subscribeLocked h id topic request).1 := by
  obtain ⟨error, heq⟩ | ⟨conn, state, _, _, _, heq⟩ := subscribeLocked_cases h id topic request
  · rw [heq]
    exact .refl h
  · rw [heq]
    exact subscribed_core h id conn topic state request

theorem fanOutLocked_core (name params : String) :
    SameCore h (fanOutLocked h topic name params).1 := by
  unfold fanOutLocked
  cases h.index.lookup topic <;> exact ⟨rfl, rfl, rfl, rfl, rfl, rfl, rfl⟩

theorem dropEach_occupied (left : Map Topic TopicState × Finset Topic) (topics : List Topic)
    (h : Occupied left.1 left.2) :
    Occupied (dropEach id left topics).1 (dropEach id left topics).2 := by
  induction topics generalizing left with
  | nil => exact h
  | cons topic topics ih => exact ih _ (dropFrom_occupied left.1 left.2 topic id h)

theorem mem_subscriberIds_dropEach (topics : List Topic) (other : Topic) (who : ConnId) :
    who ∈ subscriberIds { h with
        index := (dropEach id (h.index, h.interest) topics).1
        interest := (dropEach id (h.index, h.interest) topics).2 } other ↔
      who ∈ subscriberIds h other ∧ ¬ (other ∈ topics ∧ who = id) := by
  induction topics generalizing h with
  | nil => simp [dropEach]
  | cons topic topics ih =>
    have hstep := ih (dropSubscriber h topic id)
    rw [mem_subscriberIds_dropSubscriber] at hstep
    refine hstep.trans ?_
    rw [List.mem_cons]
    tauto

theorem detachLocked_byId :
    (detachLocked h id).1.byId.lookup who = if who = id then none else h.byId.lookup who := by
  unfold detachLocked
  cases hconn : h.byId.lookup id with
  | none =>
    dsimp only
    split_ifs with hwho
    · rw [hwho, hconn]
    · rfl
  | some conn => exact lookup_erase_ite h.byId id who

theorem detachLocked_frame : (detachLocked h id).1.nextConn = h.nextConn ∧
      (detachLocked h id).1.revocations = h.revocations ∧
      (detachLocked h id).1.hasher = h.hasher ∧
      (detachLocked h id).1.handedOff = h.handedOff := by
  unfold detachLocked
  cases h.byId.lookup id <;> exact ⟨rfl, rfl, rfl, rfl⟩

theorem close_byId (reason : CloseReason) :
    (close h id reason).byId.lookup who = if who = id then none else h.byId.lookup who := by
  rw [← detachLocked_byId]
  unfold close
  rcases detachLocked h id with ⟨after, _ | conn⟩ <;> rfl

theorem closeAll_byId (ids : List ConnId) (reason : CloseReason) (who : ConnId) :
    (closeAll h ids reason).byId.lookup who = if who ∈ ids then none else h.byId.lookup who := by
  unfold closeAll
  induction ids generalizing h with
  | nil => simp
  | cons id ids ih =>
    rw [List.foldl_cons, ih, close_byId]
    by_cases hwho : who = id <;> simp [hwho]

theorem forgetTopic_lookup : (forgetTopic conn topic).topics.lookup other =
      if other = topic then none else conn.topics.lookup other := by
  unfold forgetTopic
  cases hflag : conn.topics.lookup topic with
  | none =>
    dsimp only
    split_ifs with hother
    · rw [hother, hflag]
    · rfl
  | some flag => exact lookup_erase_ite conn.topics topic other

def SameIdentity (conn conn' : Conn) : Prop :=
  conn'.authenticated = conn.authenticated ∧ conn'.user = conn.user ∧ conn'.device = conn.device

theorem forgetTopic_identity : SameIdentity conn (forgetTopic conn topic) := by
  unfold forgetTopic
  cases conn.topics.lookup topic <;> exact ⟨rfl, rfl, rfl⟩

theorem forgetTopic_of_none (h : conn.topics.lookup topic = none) :
    forgetTopic conn topic = conn := by
  simp [forgetTopic, h]

theorem forgetTopic_idem : forgetTopic (forgetTopic conn topic) topic = forgetTopic conn topic :=
  forgetTopic_of_none _ topic (by simp [forgetTopic_lookup])

theorem kickOne_cases (h : Hub) (id : ConnId) :
    (userOf h id ≠ some user ∧ kickOne topic user h id = (h, [])) ∨
    ∃ conn, h.byId.lookup id = some conn ∧ conn.user = some user ∧ (kickOne topic user h id).1 =
        dropSubscriber { h with
          byId := h.byId.insert id (forgetTopic conn topic)
          peers := (trySend h.peers id (.unsubscribed topic "kicked")).1 } topic id := by
  unfold kickOne userOf
  cases hconn : h.byId.lookup id with
  | none => exact .inl ⟨by simp, rfl⟩
  | some conn =>
    by_cases huser : conn.user = some user
    · exact .inr ⟨conn, rfl, huser, by simp [huser]⟩
    · exact .inl ⟨huser, by simp [huser]⟩

theorem kickOne_byId (h : Hub) (id who : ConnId) : (kickOne topic user h id).1.byId.lookup who =
      (h.byId.lookup who).map (fun conn =>
        if who = id ∧ conn.user = some user then forgetTopic conn topic else conn) := by
  obtain ⟨huser, heq⟩ | ⟨conn, hconn, huser, heq⟩ := kickOne_cases topic user h id
  · rw [heq]
    cases hwho : h.byId.lookup who with
    | none => rfl
    | some conn =>
      have hother : ¬ (who = id ∧ conn.user = some user) := by
        rintro ⟨rfl, hu⟩
        exact huser (by simp [userOf, hwho, hu])
      simp [hother]
  · rw [heq]
    change (h.byId.insert id (forgetTopic conn topic)).lookup who = _
    rw [lookup_insert_ite]
    by_cases hwho : who = id
    · subst hwho
      simp [hconn, huser]
    · simp [hwho]

theorem mem_subscriberIds_kickOne (h : Hub) (id who : ConnId) (other : Topic) :
    who ∈ subscriberIds (kickOne topic user h id).1 other ↔
      who ∈ subscriberIds h other ∧ ¬ (other = topic ∧ who = id ∧ userOf h id = some user) := by
  obtain ⟨huser, heq⟩ | ⟨conn, hconn, huser, heq⟩ := kickOne_cases topic user h id
  · simp [heq, huser]
  · rw [heq, mem_subscriberIds_dropSubscriber]
    simp [userOf, hconn, huser, subscriberIds]

theorem kickOne_occupied (h : Hub) (id : ConnId) (hocc : Occupied h.index h.interest) :
    Occupied (kickOne topic user h id).1.index (kickOne topic user h id).1.interest := by
  obtain ⟨_, heq⟩ | ⟨conn, _, _, heq⟩ := kickOne_cases topic user h id
  · rw [heq]
    exact hocc
  · rw [heq]
    exact dropFrom_occupied _ _ _ _ hocc

theorem kickOne_core (h : Hub) (id : ConnId) : SameCore h (kickOne topic user h id).1 := by
  obtain ⟨_, heq⟩ | ⟨conn, _, _, heq⟩ := kickOne_cases topic user h id
  · rw [heq]
    exact .refl h
  · rw [heq]
    exact ⟨rfl, rfl, rfl, rfl, rfl, rfl, rfl⟩

theorem kickEach_core (h : Hub) (ids : List ConnId) : SameCore h (kickEach topic user h ids).1 := by
  induction ids generalizing h with
  | nil => exact .refl h
  | cons id ids ih => exact (kickOne_core topic user h id).trans (ih _)

theorem kickEach_occupied (h : Hub) (ids : List ConnId) (hocc : Occupied h.index h.interest) :
    Occupied (kickEach topic user h ids).1.index (kickEach topic user h ids).1.interest := by
  induction ids generalizing h with
  | nil => exact hocc
  | cons id ids ih => exact ih _ (kickOne_occupied topic user h id hocc)

theorem kickEach_byId (h : Hub) (ids : List ConnId) (who : ConnId) :
    (kickEach topic user h ids).1.byId.lookup who = (h.byId.lookup who).map (fun conn =>
        if who ∈ ids ∧ conn.user = some user then forgetTopic conn topic else conn) := by
  induction ids generalizing h with
  | nil => simp [kickEach]
  | cons id ids ih =>
    change (kickEach topic user (kickOne topic user h id).1 ids).1.byId.lookup who = _
    rw [ih, kickOne_byId, Option.map_map]
    congr 1
    funext conn
    have huser := (forgetTopic_identity conn topic).2.1
    by_cases hwho : who = id <;> by_cases hu : conn.user = some user <;>
      simp [hwho, hu, huser, forgetTopic_idem]

theorem mem_subscriberIds_kickEach (h : Hub) (ids : List ConnId) (who : ConnId) (other : Topic) :
    who ∈ subscriberIds (kickEach topic user h ids).1 other ↔
      who ∈ subscriberIds h other ∧ ¬ (other = topic ∧ who ∈ ids ∧ userOf h who = some user) := by
  induction ids generalizing h with
  | nil => simp [kickEach]
  | cons id ids ih =>
    change who ∈ subscriberIds (kickEach topic user (kickOne topic user h id).1 ids).1 other ↔ _
    have huser : userOf (kickOne topic user h id).1 who = userOf h who := by
      unfold userOf
      rw [kickOne_byId]
      cases h.byId.lookup who with
      | none => rfl
      | some conn =>
        simp only [Option.map_some, Option.bind_some]
        split_ifs
        · exact (forgetTopic_identity conn topic).2.1
        · rfl
    rw [ih, mem_subscriberIds_kickOne, huser, List.mem_cons]
    by_cases hwho : who = id
    · subst hwho
      tauto
    · tauto

end Stakit.PubsubHub
