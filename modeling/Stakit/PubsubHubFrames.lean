import Stakit.PubsubHubQueues

set_option autoImplicit false

namespace Stakit.PubsubHub
open FiniteMap PubsubTopic RouterError TransitionRuns
open Function (update_self update_of_ne update)

/-- The part of a peer that decides which frames arrive. -/
structure Mailbox where
  capacity : ℕ
  queue : List Frame
  receiving : Bool

def mailbox (peer : Peer) : Mailbox := ⟨peer.capacity, peer.queue, peer.receiving⟩

theorem sendEach_peer (frame : Frame) (peers : ConnId → Peer) {ids : List ConnId}
    (hnodup : ids.Nodup) (who : ConnId) :
    (sendEach frame peers ids).1 who =
      (offerAll (peers who) (if who ∈ ids then [frame] else [])).1 ∧
    (who ∈ (sendEach frame peers ids).2 ↔
      (offerAll (peers who) (if who ∈ ids then [frame] else [])).2 = false) := by
  induction ids generalizing peers with
  | nil => simp [sendEach, offerAll]
  | cons id ids ih =>
    obtain ⟨hout, hrest⟩ := List.nodup_cons.mp hnodup
    obtain ⟨hpeer, hslow⟩ := ih (trySend peers id frame).1 hrest
    change (sendEach frame (trySend peers id frame).1 ids).1 who = _ ∧
      (who ∈ (if (trySend peers id frame).2 then (sendEach frame (trySend peers id frame).1 ids).2
        else id :: (sendEach frame (trySend peers id frame).1 ids).2) ↔ _)
    rw [trySend_peer] at hpeer hslow
    rw [trySend_sent]
    by_cases hwho : who = id
    · subst hwho
      simp only [hout, if_false, if_true, offerAll] at hpeer hslow
      rw [hpeer]
      cases hsent : (offer (peers who) frame).2 <;> simp [hsent, hslow, offerAll]
    · rw [if_neg hwho] at hpeer hslow
      have hcons : (if who ∈ id :: ids then [frame] else []) =
          if who ∈ ids then [frame] else [] := by simp [hwho]
      rw [hpeer, hcons, ← hslow]
      refine ⟨rfl, ?_⟩
      cases (offer (peers id) frame).2 <;> simp [hwho]

variable (h : Hub) (id : ConnId) (topic : Topic)

theorem kickOne_peer (user : String) (h : Hub) (id who : ConnId) :
    (kickOne topic user h id).1.peers who =
      (offerAll (h.peers who) (if who = id ∧ userOf h who = some user then
        [.unsubscribed topic "kicked"] else [])).1 := by
  obtain ⟨huser, heq⟩ | ⟨conn, hconn, huser, heq⟩ := kickOne_cases topic user h id
  · rw [heq, if_neg]
    · rfl
    · rintro ⟨rfl, hwho⟩
      exact huser hwho
  · rw [heq]
    change (trySend h.peers id _).1 who = _
    rw [trySend_peer]
    by_cases hwho : who = id
    · subst hwho
      simp [userOf, hconn, huser, offerAll]
    · simp [hwho, offerAll]

theorem kickEach_peer (user : String) (h : Hub) {ids : List ConnId} (hnodup : ids.Nodup)
    (who : ConnId) :
    (kickEach topic user h ids).1.peers who =
      (offerAll (h.peers who) (if who ∈ ids ∧ userOf h who = some user then
        [.unsubscribed topic "kicked"] else [])).1 := by
  induction ids generalizing h with
  | nil => simp [kickEach, offerAll]
  | cons id ids ih =>
    obtain ⟨hout, hrest⟩ := List.nodup_cons.mp hnodup
    change (kickEach topic user (kickOne topic user h id).1 ids).1.peers who = _
    have huser : userOf (kickOne topic user h id).1 who = userOf h who :=
      (kickEach_prunes topic user h [id]).userOf who
    rw [ih _ hrest, kickOne_peer, huser]
    by_cases hwho : who = id
    · subst hwho
      simp [hout, offerAll]
    · simp [hwho, offerAll]

def subscribedAt (h : Hub) (id : ConnId) (topic : Topic) (request : Subscribe) : Option Cursor :=
  match (subscribeLocked h id topic request).2.2 with
  | .ok position => some position
  | .error _ => none

def sectionFrames (h : Hub) (s : Section) (who : ConnId) : List Frame :=
  match s with
  | .subscribe id topic request =>
    if who = id then
      ((subscribedAt h id topic request).bind fun position =>
        request.ack.map fun ack => ack position).toList
    else []
  | .fanOut topic name params =>
    if who ∈ subscriberIds h topic then
      ((h.index.lookup topic).map fun state =>
        Frame.publish topic name params (advance state.cursor)).toList
    else []
  | .kick topic user =>
    if who ∈ subscriberIds h topic ∧ userOf h who = some user then [.unsubscribed topic "kicked"]
    else []
  | .walk topics => resetFrames h topics who
  | .send id frame => if who = id then [frame] else []
  | _ => []

theorem subscribed_peer (conn : Conn) (topic : Topic) (state : TopicState) (request : Subscribe)
    (who : ConnId) :
    (subscribed h id conn topic state request).1.peers who = (offerAll (h.peers who)
        (if who = id then (request.ack.map fun ack => ack state.cursor).toList else [])).1 := by
  have hjoined : (if (conn.topics.lookup topic).isSome then ensureTopic h topic
      else joinTopic (ensureTopic h topic) id conn topic state request.explicit).peers =
      h.peers := by
    split_ifs <;> exact ensureTopic_peers h topic
  unfold subscribed
  cases hack : request.ack with
  | none =>
    simp only [sendAck, Option.map_none, Option.toList_none, ite_self]
    rw [hjoined]
    rfl
  | some ack =>
    simp only [sendAck, Option.map_some, Option.toList_some]
    rw [hjoined, trySend_peer]
    split_ifs <;> rfl

theorem subscribeLocked_peer (request : Subscribe) (who : ConnId) :
    (subscribeLocked h id topic request).1.peers who =
      (offerAll (h.peers who) (sectionFrames h (.subscribe id topic request) who)).1 := by
  simp only [sectionFrames, subscribedAt]
  obtain ⟨error, heq⟩ | ⟨conn, state, _, _, _, heq⟩ := subscribeLocked_cases h id topic request
  · simp [heq, offerAll]
  · simp only [heq, Option.bind_some]
    exact subscribed_peer h id conn topic state request who

theorem subscribeEach_peer (topics : List Topic) {conn : Conn}
    (hconn : h.byId.lookup id = some conn) (who : ConnId) :
    (subscribeEach id auto h topics).1.peers who = h.peers who := by
  refine subscribeEach_invariant (fun after => after.peers who = h.peers who) id ?_ h topics conn
    hconn rfl
  intro after topic hsame
  rw [subscribeLocked_peer, ← hsame]
  simp [sectionFrames, auto, offerAll]

theorem detachLocked_mailbox (who : ConnId) :
    mailbox ((detachLocked h id).1.peers who) = mailbox (h.peers who) := by
  unfold detachLocked
  cases h.byId.lookup id with
  | none => rfl
  | some conn =>
    change mailbox (update h.peers id _ who) = _
    by_cases hwho : who = id
    · subst hwho
      rw [update_self]
      rfl
    · rw [update_of_ne hwho]

theorem signal_mailbox (peers : ConnId → Peer) (id who : ConnId) (reason : CloseReason) :
    mailbox (signal peers id reason who) = mailbox (peers who) := by
  unfold signal
  cases (peers id).closer with
  | some _ => rfl
  | none =>
    dsimp only
    by_cases hwho : who = id
    · subst hwho
      rw [update_self]
      rfl
    · rw [update_of_ne hwho]

theorem authenticateSection_mailbox (identity : Identity) (maxPerUser : ℕ) (who : ConnId) :
    mailbox ((authenticateSection h id identity maxPerUser).peers who) = mailbox (h.peers who) := by
  obtain heq | ⟨conn, _, _, _, _, _, _, _, heq⟩ :=
    authenticateSection_cases h id identity maxPerUser
  · rw [heq]
  · rw [heq, subscribeEach_peer _ id _ (claimed_lookup _ id conn _ _)]
    change mailbox ((detachHolder h (deviceHolder h id identity.device)).1.peers who) = _
    cases deviceHolder h id identity.device with
    | none => rfl
    | some holder => exact detachLocked_mailbox h holder who

/-- The sections that only ever add to queues. -/
def Offers : Section → Prop
  | .register _ | .receive _ | .hangUp _ => False
  | _ => True

theorem step_mailbox {s : Section} (hs : Offers s) (who : ConnId) : mailbox ((step h s).peers who) =
      mailbox (offerAll (h.peers who) (sectionFrames h s who)).1 := by
  cases s with
  | register capacity | receive id | hangUp id => exact hs.elim
  | authenticate id identity maxPerUser =>
    exact authenticateSection_mailbox h id identity maxPerUser who
  | subscribe id topic request => exact congrArg mailbox (subscribeLocked_peer h id topic request who)
  | unsubscribe id topic =>
    refine congrArg mailbox ?_
    change (unsubscribe h id topic).1.peers who = h.peers who
    obtain ⟨_, heq⟩ | ⟨conn, flag, _, _, heq⟩ := unsubscribe_cases h id topic
    · rw [heq]
    · rw [heq]
      rfl
  | fanOut topic name params =>
    refine congrArg mailbox ?_
    change (fanOutLocked h topic name params).1.peers who = _
    unfold fanOutLocked
    simp only [sectionFrames]
    cases hstate : h.index.lookup topic with
    | none => simp [offerAll]
    | some state =>
      simp only [subscriberIds_of_lookup h topic state hstate, Option.map_some, Option.toList_some]
      exact (sendEach_peer _ h.peers state.distinct who).1
  | kick topic user =>
    exact congrArg mailbox (kickEach_peer topic user (revoke h topic)
      (subscriberIds_nodup (revoke h topic) topic) who)
  | detach id => exact detachLocked_mailbox h id who
  | walk topics => exact congrArg mailbox (resetLocked_peer h topics who).1
  | send id frame =>
    refine congrArg mailbox ?_
    change (trySend h.peers id frame).1 who = _
    rw [trySend_peer]
    simp only [sectionFrames]
    split_ifs <;> rfl
  | signal id reason => exact signal_mailbox h.peers id who reason
  | failPending id =>
    change mailbox (update h.peers id _ who) = _
    by_cases hwho : who = id
    · subst hwho
      rw [update_self]
      rfl
    · rw [update_of_ne hwho]
      rfl
  | bump slot | handOff topic payload => rfl

theorem shut_iff (peer : Peer) :
    Shut peer ↔ (mailbox peer).receiving = false ∨ (mailbox peer).capacity = 0 := Iff.rfl

theorem step_shut (s : Section) {who : ConnId} (hold : who < h.nextConn)
    (hshut : Shut (h.peers who)) : Shut ((step h s).peers who) := by
  by_cases hs : Offers s
  · obtain ⟨hc, hr⟩ := offerAll_frame (h.peers who) (sectionFrames h s who)
    rw [shut_iff, step_mailbox h hs who]
    change (offerAll _ _).1.receiving = false ∨ (offerAll _ _).1.capacity = 0
    rw [hc, hr]
    exact hshut
  · cases s with
    | register capacity =>
      change Shut (update h.peers h.nextConn _ who)
      rw [update_of_ne (Nat.ne_of_lt hold)]
      exact hshut
    | receive id =>
      change Shut (update h.peers id _ who)
      by_cases hwho : who = id
      · subst hwho
        rw [update_self]
        exact hshut
      · rw [update_of_ne hwho]
        exact hshut
    | hangUp id =>
      change Shut (update h.peers id _ who)
      by_cases hwho : who = id
      · subst hwho
        rw [update_self]
        exact .inl rfl
      · rw [update_of_ne hwho]
        exact hshut
    | _ => exact absurd trivial hs

end Stakit.PubsubHub
