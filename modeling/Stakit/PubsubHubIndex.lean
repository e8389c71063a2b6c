import Stakit.PubsubHubClaims

set_option autoImplicit false

namespace Stakit.PubsubHub
open FiniteMap PubsubTopic RouterError

def Counted (conn : Conn) : Prop := conn.explicit = count (fun _ flag => flag) conn.topics

structure IndexInv (h : Hub) : Prop where
  members : ∀ id topic, id ∈ subscriberIds h topic ↔ (entry h id topic).isSome = true
  occupied : Occupied h.index h.interest
  counted : ∀ id conn, h.byId.lookup id = some conn → Counted conn
  fresh : ∀ id conn, h.byId.lookup id = some conn → id < h.nextConn

theorem newHub_index (hasher : Topic → ℕ) (epochBase : ℕ) : IndexInv (newHub hasher epochBase) where
  members id topic := by simp [subscriberIds, entry, newHub]
  occupied := ⟨by simp [newHub], by simp [newHub]⟩
  counted id conn hconn := by simp [newHub] at hconn
  fresh id conn hconn := by simp [newHub] at hconn

theorem IndexInv.congr {h h' : Hub} (hinv : IndexInv h) (hbyId : h'.byId = h.byId)
    (hindex : h'.index = h.index) (hinterest : h'.interest = h.interest)
    (hnext : h'.nextConn = h.nextConn) : IndexInv h' where
  members id topic := by
    rw [subscriberIds_congr h hindex, entry_congr h hbyId]
    exact hinv.members id topic
  occupied := by
    rw [hindex, hinterest]
    exact hinv.occupied
  counted id conn hconn := hinv.counted id conn (hbyId ▸ hconn)
  fresh id conn hconn := hnext ▸ hinv.fresh id conn (hbyId ▸ hconn)

variable (h : Hub) (id : ConnId) (conn : Conn) (topic : Topic)

theorem counted_insert (explicit : Bool) (hnew : conn.topics.lookup topic = none)
    (hconn : Counted conn) :
    Counted { conn with
      topics := conn.topics.insert topic explicit
      explicit := conn.explicit + explicit.toNat } := by
  unfold Counted at hconn ⊢
  dsimp only
  rw [count_insert_new _ _ _ _ hnew, hconn]
  cases explicit <;> rfl

theorem ensureTopic_of_member (hmem : id ∈ subscriberIds h topic) : ensureTopic h topic = h := by
  obtain ⟨state, hstate, _⟩ := lookup_of_mem_subscriberIds h topic hmem
  simp [ensureTopic, hasTopic, hstate]

theorem ensureTopic_interest (other : Topic) (hocc : Occupied h.index h.interest) :
    other ∈ (ensureTopic h topic).interest ↔ other = topic ∨ other ∈ h.interest := by
  unfold ensureTopic
  split_ifs with hhas
  · constructor
    · exact .inr
    · rintro (rfl | hin)
      · exact (hocc.interested other).mpr hhas
      · exact hin
  · simp

theorem joined_index {state : TopicState} (request : Subscribe) (hinv : IndexInv h)
    (hconn : h.byId.lookup id = some conn)
    (hstate : (ensureTopic h topic).index.lookup topic = some state)
    (hnew : conn.topics.lookup topic = none) :
    IndexInv (subscribed h id conn topic state request).1 := by
  have hbyId := subscribed_byId h id conn topic state request
  have hindex := subscribed_index h id conn topic state request
  have hinterest := subscribed_interest h id conn topic state request
  have hnext := (subscribed_core h id conn topic state request).nextConn
  rw [hnew] at hbyId hindex
  simp only [Option.isSome_none, Bool.false_eq_true, if_false] at hbyId hindex
  have hsubs : state.subscribers = subscriberIds h topic := by
    obtain ⟨state', hstate', hsubs⟩ := ensureTopic_lookup h topic
    rw [hstate] at hstate'
    rw [Option.some.inj hstate']
    exact hsubs
  refine ⟨?_, ⟨?_, ?_⟩, ?_, ?_⟩
  · intro who other
    have hentry : entry (subscribed h id conn topic state request).1 who other =
        if who = id ∧ other = topic then some request.explicit else entry h who other := by
      rw [subscribed_entry h id conn topic state request hconn,
        entry_of_lookup h id topic hconn, hnew]
      simp only [and_true]
    have hsub : who ∈ subscriberIds (subscribed h id conn topic state request).1 other ↔
        (who = id ∧ other = topic) ∨ who ∈ subscriberIds h other := by
      unfold subscriberIds
      rw [hindex, lookup_insert_ite]
      by_cases hother : other = topic
      · subst hother
        simp only [if_true, Option.map_some, Option.getD_some, mem_addSubscriber, and_true, hsubs]
        rfl
      · rw [if_neg hother, ensureTopic_lookup_ne h topic other hother]
        simp [hother]
    rw [hentry, hsub, hinv.members]
    by_cases hjoin : who = id ∧ other = topic <;> simp [hjoin]
  · intro other found hfound
    rw [hindex, lookup_insert_ite] at hfound
    split_ifs at hfound with hother
    · simp only [Option.some.injEq] at hfound
      rw [← hfound]
      exact List.ne_nil_of_mem ((mem_addSubscriber state id id).mpr (.inl rfl))
    · rw [ensureTopic_lookup_ne h topic other hother] at hfound
      exact hinv.occupied.nonempty other found hfound
  · intro other
    rw [hinterest, hindex, lookup_insert_ite, ensureTopic_interest h topic other hinv.occupied]
    by_cases hother : other = topic
    · simp [hother]
    · rw [if_neg hother, ensureTopic_lookup_ne h topic other hother]
      simp [hother, hinv.occupied.interested]
  · intro who found hfound
    rw [hbyId, lookup_insert_ite] at hfound
    split_ifs at hfound
    · simp only [Option.some.injEq] at hfound
      rw [← hfound]
      exact counted_insert conn topic request.explicit hnew (hinv.counted id conn hconn)
    · exact hinv.counted who found hfound
  · intro who found hfound
    rw [hnext]
    rw [hbyId, lookup_insert_ite] at hfound
    split_ifs at hfound with hwho
    · rw [hwho]
      exact hinv.fresh id conn hconn
    · exact hinv.fresh who found hfound

theorem subscribed_index_inv {state : TopicState} (request : Subscribe) (hinv : IndexInv h)
    (hconn : h.byId.lookup id = some conn)
    (hstate : (ensureTopic h topic).index.lookup topic = some state) :
    IndexInv (subscribed h id conn topic state request).1 := by
  cases hflag : conn.topics.lookup topic with
  | none => exact joined_index h id conn topic request hinv hconn hstate hflag
  | some flag =>
    have hmem : id ∈ subscriberIds h topic := by
      rw [hinv.members, entry_of_lookup h id topic hconn, hflag]
      rfl
    have hsame := ensureTopic_of_member h id topic hmem
    refine hinv.congr ?_ ?_ ?_ (subscribed_core h id conn topic state request).nextConn
    · rw [subscribed_byId, hflag]
      rfl
    · rw [subscribed_index, hflag, hsame]
      rfl
    · rw [subscribed_interest, hsame]

theorem subscribeLocked_index (request : Subscribe) (hinv : IndexInv h) :
    IndexInv (subscribeLocked h id topic request).1 := by
  obtain ⟨error, heq⟩ | ⟨conn, state, hconn, _, hstate, heq⟩ :=
    subscribeLocked_cases h id topic request
  · rw [heq]
    exact hinv
  · rw [heq]
    exact subscribed_index_inv h id conn topic request hinv hconn hstate

theorem forgetTopic_counted (hconn : Counted conn) : Counted (forgetTopic conn topic) := by
  unfold forgetTopic
  cases hflag : conn.topics.lookup topic with
  | none => exact hconn
  | some flag =>
    unfold Counted at hconn ⊢
    dsimp only
    rw [hconn, count_eq_erase _ _ _ _ hflag]
    cases flag <;> simp

theorem foldl_forgetTopic_counted (topics : List Topic) (conn : Conn) (hconn : Counted conn) :
    Counted (topics.foldl forgetTopic conn) := by
  induction topics generalizing conn with
  | nil => exact hconn
  | cons topic topics ih => exact ih _ (forgetTopic_counted conn topic hconn)

/-- Pruning keeps the invariant when the index and the table lose the same pairs. -/
theorem IndexInv.prune {h h' : Hub} (hinv : IndexInv h) (hprunes : Prunes h h')
    (hnext : h'.nextConn = h.nextConn) (hocc : Occupied h'.index h'.interest)
    (leaves : ConnId → Topic → Prop)
    (hentry : ∀ who topic, (leaves who topic → entry h' who topic = none) ∧
      (¬ leaves who topic → entry h' who topic = entry h who topic))
    (hsubs : ∀ who topic,
      who ∈ subscriberIds h' topic ↔ who ∈ subscriberIds h topic ∧ ¬ leaves who topic) :
    IndexInv h' where
  members who topic := by
    rw [hsubs, hinv.members]
    by_cases hleave : leaves who topic
    · simp [hleave, (hentry who topic).1 hleave]
    · simp [hleave, (hentry who topic).2 hleave]
  occupied := hocc
  counted who conn' hconn' := by
    obtain ⟨conn, topics, hconn, rfl⟩ := hprunes.lookup who conn' hconn'
    exact foldl_forgetTopic_counted topics conn (hinv.counted who conn hconn)
  fresh who conn' hconn' := by
    obtain ⟨conn, _, hconn, _⟩ := hprunes.lookup who conn' hconn'
    rw [hnext]
    exact hinv.fresh who conn hconn

theorem unsubscribe_cases : (entry h id topic = none ∧ unsubscribe h id topic = (h, false)) ∨
    ∃ conn flag, h.byId.lookup id = some conn ∧ conn.topics.lookup topic = some flag ∧
      unsubscribe h id topic =
        (dropSubscriber { h with byId := h.byId.insert id (forgetTopic conn topic) } topic id,
          true) := by
  unfold unsubscribe entry
  cases hconn : h.byId.lookup id with
  | none => exact .inl ⟨rfl, rfl⟩
  | some conn =>
    cases hflag : conn.topics.lookup topic with
    | none => exact .inl ⟨hflag, by simp [hflag]⟩
    | some flag => exact .inr ⟨conn, flag, rfl, hflag, by simp [hflag]⟩

theorem unsubscribe_core : SameCore h (unsubscribe h id topic).1 := by
  obtain ⟨_, heq⟩ | ⟨conn, flag, _, _, heq⟩ := unsubscribe_cases h id topic
  · rw [heq]
    exact .refl h
  · rw [heq]
    exact ⟨rfl, rfl, rfl, rfl, rfl, rfl, rfl⟩

theorem unsubscribe_prunes : Prunes h (unsubscribe h id topic).1 := by
  obtain ⟨_, heq⟩ | ⟨conn, flag, hconn, _, heq⟩ := unsubscribe_cases h id topic
  · rw [heq]
    exact .refl h
  · rw [heq]
    intro who
    by_cases hwho : who = id
    · subst hwho
      refine ⟨[topic], ?_⟩
      change (h.byId.insert who (forgetTopic conn topic)).lookup who = _
      rw [AList.lookup_insert, hconn]
      rfl
    · refine ⟨[], ?_⟩
      change (h.byId.insert id (forgetTopic conn topic)).lookup who = _
      rw [AList.lookup_insert_ne hwho]
      simp

theorem unsubscribe_entry (who : ConnId) (topic other : Topic) :
    entry (unsubscribe h id topic).1 who other =
      if who = id ∧ other = topic then none else entry h who other := by
  obtain ⟨hnone, heq⟩ | ⟨conn, flag, hconn, _, heq⟩ := unsubscribe_cases h id topic
  · rw [heq]
    split_ifs with hboth
    · rw [hboth.1, hboth.2, hnone]
    · rfl
  · rw [heq]
    change ((h.byId.insert id (forgetTopic conn topic)).lookup who).bind _ = _
    rw [lookup_insert_ite]
    by_cases hwho : who = id
    · subst hwho
      simp [forgetTopic_lookup, entry, hconn]
    · simp [hwho, entry]

theorem unsubscribe_index (hinv : IndexInv h) : IndexInv (unsubscribe h id topic).1 := by
  refine hinv.prune (unsubscribe_prunes h id topic) ?_ ?_
    (fun who other => who = id ∧ other = topic) ?_ ?_
  · obtain ⟨_, heq⟩ | ⟨conn, flag, _, _, heq⟩ := unsubscribe_cases h id topic
    · rw [heq]
    · rw [heq]
      rfl
  · obtain ⟨_, heq⟩ | ⟨conn, flag, _, _, heq⟩ := unsubscribe_cases h id topic
    · rw [heq]
      exact hinv.occupied
    · rw [heq]
      exact dropFrom_occupied _ _ _ _ hinv.occupied
  · intro who other
    rw [unsubscribe_entry]
    constructor <;> intro hleave <;> simp [hleave]
  · intro who other
    obtain ⟨hnone, heq⟩ | ⟨conn, flag, _, _, heq⟩ := unsubscribe_cases h id topic
    · rw [heq]
      have hout : id ∉ subscriberIds h topic := by simp [hinv.members, hnone]
      constructor
      · intro hin
        refine ⟨hin, ?_⟩
        rintro ⟨rfl, rfl⟩
        exact hout hin
      · exact And.left
    · rw [heq, mem_subscriberIds_dropSubscriber, and_comm (a := who = id)]
      rfl

theorem kickLocked_entry (user : String) (who : ConnId) (other : Topic) :
    entry (kickLocked h topic user).1 who other =
      if other = topic ∧ who ∈ subscriberIds h topic ∧ userOf h who = some user then none
      else entry h who other := by
  unfold kickLocked entry userOf
  rw [kickEach_byId]
  change ((h.byId.lookup who).map (fun conn =>
    if who ∈ subscriberIds h topic ∧ conn.user = some user then forgetTopic conn topic
    else conn)).bind _ = _
  cases hconn : h.byId.lookup who with
  | none => simp
  | some conn =>
    simp only [Option.map_some, Option.bind_some]
    by_cases hkicked : who ∈ subscriberIds h topic ∧ conn.user = some user
    · simp [hkicked, forgetTopic_lookup]
    · simp [hkicked]

theorem kickLocked_index (user : String) (hinv : IndexInv h) :
    IndexInv (kickLocked h topic user).1 := by
  have hrevoked : IndexInv (revoke h topic) := hinv.congr rfl rfl rfl rfl
  have hcore := kickEach_core topic user (revoke h topic) (subscriberIds (revoke h topic) topic)
  refine hrevoked.prune (kickEach_prunes topic user _ _) hcore.nextConn
    (kickEach_occupied topic user _ _ hrevoked.occupied)
    (fun who other => other = topic ∧ who ∈ subscriberIds h topic ∧ userOf h who = some user) ?_
    (fun who other => mem_subscriberIds_kickEach topic user _ _ who other)
  intro who other
  have hentry := kickLocked_entry h topic user who other
  constructor
  · intro hkicked
    rw [if_pos hkicked] at hentry
    exact hentry
  · intro hstays
    rw [if_neg hstays] at hentry
    exact hentry

theorem resetLocked_index (walk : List Topic) (hinv : IndexInv h) :
    IndexInv (resetLocked h walk).1 := by
  refine hinv.prune (resetLocked_prunes h walk) (resetLocked_core h walk).nextConn
    (resetLocked_occupied h walk hinv.occupied)
    (fun who other => other ∈ walk ∧ entry h who other = some true) ?_
    (fun who other => mem_subscriberIds_resetLocked h walk other who)
  intro who other
  rw [resetLocked_entry]
  constructor
  · rintro ⟨hwalk, hflag⟩
    have hin : who ∈ subscriberIds h other := by simp [hinv.members, hflag]
    simp [hwalk, hflag, hin]
  · intro hstay
    rw [if_neg]
    rintro ⟨hwalk, _, hflag⟩
    exact hstay ⟨hwalk, hflag⟩

theorem detachLocked_index (hinv : IndexInv h) : IndexInv (detachLocked h id).1 := by
  have hbyId := detachLocked_byId h id
  have hentry : ∀ who topic, entry (detachLocked h id).1 who topic =
      if who = id then none else entry h who topic := by
    intro who topic
    unfold entry
    rw [hbyId]
    by_cases hwho : who = id <;> simp [hwho]
  have hlook : ∀ who conn, (detachLocked h id).1.byId.lookup who = some conn →
      h.byId.lookup who = some conn := by
    intro who conn hconn
    rw [hbyId] at hconn
    split_ifs at hconn
    exact hconn
  refine ⟨?_, ?_, fun who conn hconn => hinv.counted who conn (hlook who conn hconn), ?_⟩
  · intro who topic
    rw [hentry]
    unfold detachLocked
    cases hconn : h.byId.lookup id with
    | none =>
      dsimp only
      rw [hinv.members]
      split_ifs with hwho
      · simp [hwho, entry_of_none h id topic hconn]
      · rfl
    | some conn =>
      change who ∈ subscriberIds { h with
        index := (dropEach id (h.index, h.interest) conn.topics.keys).1
        interest := (dropEach id (h.index, h.interest) conn.topics.keys).2 } topic ↔ _
      rw [mem_subscriberIds_dropEach, hinv.members]
      by_cases hwho : who = id
      · subst hwho
        rw [entry_of_lookup h who topic hconn, ← AList.mem_keys, AList.lookup_isSome]
        simp
      · simp [hwho]
  · unfold detachLocked
    cases h.byId.lookup id with
    | none => exact hinv.occupied
    | some conn => exact dropEach_occupied id _ _ hinv.occupied
  · intro who conn hconn
    rw [(detachLocked_frame h id).1]
    exact hinv.fresh who conn (hlook who conn hconn)

theorem register_index (capacity : ℕ) (hinv : IndexInv h) : IndexInv (register h capacity) := by
  have hnone : h.byId.lookup h.nextConn = none := by
    cases hconn : h.byId.lookup h.nextConn with
    | none => rfl
    | some conn => exact absurd (hinv.fresh _ conn hconn) (Nat.lt_irrefl _)
  have hlook : ∀ who, (register h capacity).byId.lookup who =
      if who = h.nextConn then some newConn else h.byId.lookup who :=
    fun who => lookup_insert_ite h.byId h.nextConn who newConn
  refine ⟨?_, hinv.occupied, ?_, ?_⟩
  · intro who topic
    change who ∈ subscriberIds h topic ↔ _
    rw [hinv.members]
    unfold entry
    rw [hlook]
    by_cases hwho : who = h.nextConn
    · rw [hwho, hnone, if_pos rfl]
      simp [newConn]
    · simp [hwho]
  · intro who conn hconn
    rw [hlook] at hconn
    split_ifs at hconn
    · simp only [Option.some.injEq] at hconn
      rw [← hconn]
      rfl
    · exact hinv.counted who conn hconn
  · intro who conn hconn
    rw [hlook] at hconn
    split_ifs at hconn with hwho
    · exact Nat.lt_succ_of_le hwho.le
    · exact Nat.lt_succ_of_lt (hinv.fresh who conn hconn)

theorem fanOutLocked_index (name params : String) (hinv : IndexInv h) :
    IndexInv (fanOutLocked h topic name params).1 := by
  unfold fanOutLocked
  cases hstate : h.index.lookup topic with
  | none => exact hinv
  | some state =>
    refine ⟨?_, ⟨?_, ?_⟩, hinv.counted, hinv.fresh⟩
    · intro who other
      refine Iff.trans ?_ (hinv.members who other)
      unfold subscriberIds
      dsimp only
      rw [lookup_insert_ite]
      by_cases hother : other = topic
      · subst hother
        simp [hstate]
      · simp [hother]
    · intro other found hfound
      dsimp only at hfound
      rw [lookup_insert_ite] at hfound
      split_ifs at hfound
      · simp only [Option.some.injEq] at hfound
        rw [← hfound]
        exact hinv.occupied.nonempty topic state hstate
      · exact hinv.occupied.nonempty other found hfound
    · intro other
      dsimp only
      rw [lookup_insert_ite, hinv.occupied.interested]
      by_cases hother : other = topic
      · subst hother
        simp [hstate]
      · simp [hother]

theorem claimed_index (user : Option String) (device : Option (String × Topic))
    (hinv : IndexInv h) (hconn : h.byId.lookup id = some conn) :
    IndexInv (claimed h id conn user device) := by
  have hlook : ∀ who, (claimed h id conn user device).byId.lookup who =
      if who = id then some { conn with authenticated := true, user := user, device := device }
      else h.byId.lookup who := fun who => lookup_insert_ite h.byId id who _
  refine ⟨?_, hinv.occupied, ?_, ?_⟩
  · intro who topic
    refine (hinv.members who topic).trans ?_
    unfold entry
    rw [hlook]
    by_cases hwho : who = id
    · subst hwho
      simp [hconn]
    · simp [hwho]
  · intro who found hfound
    rw [hlook] at hfound
    split_ifs at hfound
    · simp only [Option.some.injEq] at hfound
      rw [← hfound]
      exact hinv.counted id conn hconn
    · exact hinv.counted who found hfound
  · intro who found hfound
    rw [hlook] at hfound
    split_ifs at hfound with hwho
    · rw [hwho]
      exact hinv.fresh id conn hconn
    · exact hinv.fresh who found hfound

theorem detachHolder_index (holder : Option ConnId) (hinv : IndexInv h) :
    IndexInv (detachHolder h holder).1 := by
  cases holder with
  | none => exact hinv
  | some holder => exact detachLocked_index h holder hinv

theorem authenticateLocked_index (identity : Identity) (maxPerUser : ℕ)
    (userTopic deviceTopic : Option Topic) (hinv : IndexInv h) :
    IndexInv (authenticateLocked h id identity maxPerUser userTopic deviceTopic).1 := by
  obtain ⟨error, heq⟩ | ⟨conn, hconn, _, _, _, heq⟩ :=
    authenticateLocked_cases h id identity maxPerUser userTopic deviceTopic
  · rw [heq]
    exact hinv
  · rw [heq]
    have hlook := (detachHolder_lookup h id identity.device).trans hconn
    exact subscribeEach_invariant IndexInv id
      (fun h topic hinv => subscribeLocked_index h id topic auto hinv) _ _ _
      (AList.lookup_insert _)
      (claimed_index _ id conn _ _ (detachHolder_index h _ hinv) hlook)

end Stakit.PubsubHub
