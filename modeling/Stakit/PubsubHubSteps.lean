import Stakit.PubsubHubSections

set_option autoImplicit false

namespace Stakit.PubsubHub
open FiniteMap PubsubTopic RouterError TransitionRuns

/-- The identity part of a connection. -/
structure Bound where
  authenticated : Bool
  user : Option String
  device : Option (String × Topic)
  deriving DecidableEq

def boundOf (conn : Conn) : Bound := ⟨conn.authenticated, conn.user, conn.device⟩

def identityOf (h : Hub) (who : ConnId) : Option Bound := (h.byId.lookup who).map boundOf

variable (h : Hub) (s : Section) (id : ConnId) (topics : List Topic) (identity : Identity)
  (conn : Conn) (device : Option (String × Topic)) (who : ConnId) (topic : Topic)
  (request : Subscribe) (flag : Bool) (user : String)

theorem userOf_eq : userOf h who = (identityOf h who).bind (·.user) := by
  unfold userOf identityOf
  cases h.byId.lookup who <;> rfl

theorem identityOf_none : identityOf h who = none ↔ h.byId.lookup who = none := by
  simp [identityOf]

theorem entry_of_identity_none (hnone : identityOf h who = none) : entry h who topic = none :=
  entry_of_none h who topic ((identityOf_none h who).mp hnone)

theorem boundOf_same {conn conn' : Conn} (h : SameIdentity conn conn') :
    boundOf conn' = boundOf conn := by
  obtain ⟨ha, hu, hd⟩ := h
  simp [boundOf, ha, hu, hd]

theorem Prunes.identityOf {h h' : Hub} (a : Prunes h h') (who : ConnId) :
    identityOf h' who = identityOf h who := by
  unfold PubsubHub.identityOf
  obtain ⟨topics, htopics⟩ := a who
  rw [htopics, Option.map_map]
  congr 1
  funext conn
  exact boundOf_same (foldl_forgetTopic_identity topics conn)

theorem subscribed_identity (state : TopicState) (request : Subscribe)
    (hconn : h.byId.lookup id = some conn) (who : ConnId) :
    identityOf (subscribed h id conn topic state request).1 who = identityOf h who := by
  unfold identityOf
  rw [subscribed_byId]
  split_ifs
  · rfl
  · rw [lookup_insert_ite]
    split_ifs with hwho
    · rw [hwho, hconn]
      rfl
    · rfl

theorem subscribeLocked_identity (who : ConnId) :
    identityOf (subscribeLocked h id topic request).1 who = identityOf h who := by
  obtain ⟨error, heq⟩ | ⟨conn, state, hconn, _, _, heq⟩ := subscribeLocked_cases h id topic request
  · rw [heq]
  · rw [heq]
    exact subscribed_identity h id conn topic state request hconn who

theorem subscribeEach_identity (hconn : h.byId.lookup id = some conn) (who : ConnId) :
    identityOf (subscribeEach id auto h topics).1 who = identityOf h who :=
  subscribeEach_invariant (fun after => identityOf after who = identityOf h who) id
    (fun after topic hsame => (subscribeLocked_identity after id topic auto who).trans hsame)
    h topics conn hconn rfl

theorem detachLocked_identity :
    identityOf (detachLocked h id).1 who = if who = id then none else identityOf h who := by
  unfold identityOf
  rw [detachLocked_byId]
  split_ifs <;> rfl

theorem detachHolder_identity (holder : Option ConnId) (who : ConnId) :
    identityOf (detachHolder h holder).1 who =
      if holder = some who then none else identityOf h who := by
  cases holder with
  | none => rfl
  | some holder =>
    refine (detachLocked_identity h holder who).trans ?_
    simp [eq_comm]

theorem claimed_identity (user : Option String) (device : Option (String × Topic)) (who : ConnId) :
    identityOf (claimed h id conn user device) who =
      if who = id then some ⟨true, user, device⟩ else identityOf h who := by
  unfold identityOf
  change ((h.byId.insert id _).lookup who).map boundOf = _
  rw [lookup_insert_ite]
  split_ifs <;> rfl

/-- An authenticate section changes nothing, or binds the identity as a whole. -/
theorem authenticateSection_cases (maxPerUser : ℕ) :
    authenticateSection h id identity maxPerUser = h ∨
    ∃ conn userTopic deviceTopic, identityTopics identity = .ok (userTopic, deviceTopic) ∧
      h.byId.lookup id = some conn ∧ conn.authenticated = false ∧
      atCap h identity.user maxPerUser = false ∧
      heldByAnother h (deviceHolder h id identity.device) identity.user = false ∧
      authenticateSection h id identity maxPerUser = (subscribeEach id auto
          (claimed (detachHolder h (deviceHolder h id identity.device)).1 id conn identity.user
            (claimedDevice identity deviceTopic))
          (userTopic.toList ++ deviceTopic.toList)).1 := by
  unfold authenticateSection
  cases htopics : identityTopics identity with
  | error error => exact .inl rfl
  | ok topics =>
    obtain ⟨userTopic, deviceTopic⟩ := topics
    dsimp only
    obtain ⟨error, heq⟩ | ⟨conn, hconn, hauth, hcap, hheld, heq⟩ :=
      authenticateLocked_cases h id identity maxPerUser userTopic deviceTopic
    · exact .inl (by rw [heq])
    · exact .inr ⟨conn, userTopic, deviceTopic, rfl, hconn, hauth, hcap, hheld, by rw [heq]⟩

theorem claimed_lookup (user : Option String) (device : Option (String × Topic)) :
    (claimed h id conn user device).byId.lookup id =
      some { conn with authenticated := true, user := user, device := device } :=
  AList.lookup_insert h.byId

/-- The identities after an authenticate that went through. -/
theorem bound_identity (topics : List Topic) (who : ConnId) : identityOf (subscribeEach id auto
        (claimed (detachHolder h (deviceHolder h id identity.device)).1 id conn identity.user
          device) topics).1 who =
      if who = id then some ⟨true, identity.user, device⟩
      else if deviceHolder h id identity.device = some who then none
      else identityOf h who := by
  rw [subscribeEach_identity _ id topics _ (claimed_lookup _ id conn identity.user device),
    claimed_identity, detachHolder_identity]

theorem register_identity (capacity : ℕ) (who : ConnId) : identityOf (register h capacity) who =
      if who = h.nextConn then some ⟨false, none, none⟩ else identityOf h who := by
  unfold identityOf
  change ((h.byId.insert h.nextConn newConn).lookup who).map boundOf = _
  rw [lookup_insert_ite]
  split_ifs <;> rfl

theorem kickLocked_prunes : Prunes h (kickLocked h topic user).1 :=
  kickEach_prunes topic user (revoke h topic) _

theorem fanOutLocked_byId (name params : String) :
    (fanOutLocked h topic name params).1.byId = h.byId := by
  unfold fanOutLocked
  cases h.index.lookup topic <;> rfl

theorem step_identity_cases :
    identityOf (step h s) who = identityOf h who ∨ identityOf (step h s) who = none ∨
    (∃ capacity, s = .register capacity ∧ who = h.nextConn ∧
      identityOf (step h s) who = some ⟨false, none, none⟩) ∨
    ∃ identity maxPerUser bound userTopic deviceTopic,
      s = .authenticate who identity maxPerUser ∧ identityOf h who = some bound ∧
      bound.authenticated = false ∧ identityTopics identity = .ok (userTopic, deviceTopic) ∧
      identityOf (step h s) who =
        some ⟨true, identity.user, claimedDevice identity deviceTopic⟩ := by
  cases s with
  | register capacity =>
    have hid := register_identity h capacity who
    by_cases hwho : who = h.nextConn
    · rw [if_pos hwho] at hid
      exact .inr (.inr (.inl ⟨capacity, rfl, hwho, hid⟩))
    · rw [if_neg hwho] at hid
      exact .inl hid
  | authenticate id identity maxPerUser =>
    obtain heq | ⟨conn, userTopic, deviceTopic, htopics, hconn, hauth, _, _, heq⟩ :=
      authenticateSection_cases h id identity maxPerUser
    · exact .inl (by rw [step, heq])
    · have hid := bound_identity h id identity conn (claimedDevice identity deviceTopic)
        (userTopic.toList ++ deviceTopic.toList) who
      rw [← heq] at hid
      by_cases hwho : who = id
      · subst hwho
        rw [if_pos rfl] at hid
        refine .inr (.inr (.inr ⟨identity, maxPerUser, boundOf conn, userTopic, deviceTopic, rfl,
          ?_, hauth, htopics, hid⟩))
        simp [identityOf, hconn]
      · rw [if_neg hwho] at hid
        by_cases hholder : deviceHolder h id identity.device = some who
        · rw [if_pos hholder] at hid
          exact .inr (.inl hid)
        · rw [if_neg hholder] at hid
          exact .inl hid
  | subscribe id topic request => exact .inl (subscribeLocked_identity h id topic request who)
  | unsubscribe id topic => exact .inl ((unsubscribe_prunes h id topic).identityOf who)
  | fanOut topic name params =>
    refine .inl ?_
    change ((fanOutLocked h topic name params).1.byId.lookup who).map boundOf = _
    rw [fanOutLocked_byId]
    rfl
  | kick topic user => exact .inl ((kickLocked_prunes h topic user).identityOf who)
  | detach id =>
    have hid := detachLocked_identity h id who
    split_ifs at hid
    · exact .inr (.inl hid)
    · exact .inl hid
  | walk topics => exact .inl ((resetLocked_prunes h topics).identityOf who)
  | _ => exact .inl rfl

theorem step_user_cases (hafter : userOf (step h s) who = some user) : userOf h who = some user ∨
      ∃ identity maxPerUser, s = .authenticate who identity maxPerUser ∧
        identity.user = some user := by
  rw [userOf_eq] at hafter ⊢
  obtain hid | hid | ⟨_, _, _, hid⟩ | ⟨identity, maxPerUser, _, _, _, heq, _, _, _, hid⟩ :=
    step_identity_cases h s who
  · rw [hid] at hafter
    exact .inl hafter
  · rw [hid] at hafter
    cases hafter
  · rw [hid] at hafter
    cases hafter
  · rw [hid] at hafter
    exact .inr ⟨identity, maxPerUser, heq, hafter⟩

theorem step_user_new (hs : ∀ identity maxPerUser, s ≠ .authenticate who identity maxPerUser)
    (hafter : userOf (step h s) who = some user) : userOf h who = some user := by
  obtain hbefore | ⟨identity, maxPerUser, heq, _⟩ := step_user_cases h s who user hafter
  · exact hbefore
  · exact absurd heq (hs identity maxPerUser)

/-- Connection ids and revocation marks only grow, and topics keep their slots. -/
structure Advances (h h' : Hub) : Prop where
  hasher : h'.hasher = h.hasher
  nextConn : h.nextConn ≤ h'.nextConn
  revocations : ∀ s, h.revocations s ≤ h'.revocations s

theorem Advances.of_eq {h h' : Hub} (hhasher : h'.hasher = h.hasher)
    (hnext : h'.nextConn = h.nextConn) (hrev : h'.revocations = h.revocations) : Advances h h' :=
  ⟨hhasher, hnext.ge, fun s => by rw [hrev]⟩

theorem Advances.refl : Advances h h := .of_eq rfl rfl rfl

theorem Advances.trans {h h' h'' : Hub} (a : Advances h h') (b : Advances h' h'') :
    Advances h h'' :=
  ⟨b.hasher.trans a.hasher, a.nextConn.trans b.nextConn,
    fun s => (a.revocations s).trans (b.revocations s)⟩

theorem Advances.mark {h h' : Hub} (a : Advances h h') (topic : Topic) :
    revocationMark h topic ≤ revocationMark h' topic := by
  unfold revocationMark slot
  rw [a.hasher]
  exact a.revocations _

theorem SameCore.advances {h h' : Hub} (a : SameCore h h') : Advances h h' :=
  .of_eq a.hasher a.nextConn a.revocations

theorem bumpSlot_advances (s : ℕ) : Advances h (bumpSlot h s) := by
  refine ⟨rfl, le_refl _, fun other => ?_⟩
  change h.revocations other ≤ Function.update h.revocations s (h.revocations s + 1) other
  by_cases hs : other = s
  · subst hs
    rw [Function.update_self]
    exact Nat.le_succ _
  · rw [Function.update_of_ne hs]

theorem detachLocked_advances : Advances h (detachLocked h id).1 := by
  obtain ⟨hn, hr, hh, _⟩ := detachLocked_frame h id
  exact .of_eq hh hn hr

theorem authenticateSection_advances (maxPerUser : ℕ) :
    Advances h (authenticateSection h id identity maxPerUser) := by
  obtain heq | ⟨conn, _, _, _, _, _, _, _, heq⟩ :=
    authenticateSection_cases h id identity maxPerUser
  · rw [heq]
    exact .refl h
  · rw [heq]
    refine subscribeEach_invariant (Advances h) id
      (fun after topic ha => ha.trans (subscribeLocked_core after id topic auto).advances) _ _ _
      (claimed_lookup _ id conn _ _) ?_
    have hclaimed : Advances h (detachHolder h (deviceHolder h id identity.device)).1 := by
      cases deviceHolder h id identity.device with
      | none => exact .refl h
      | some holder => exact detachLocked_advances h holder
    exact ⟨hclaimed.hasher, hclaimed.nextConn, hclaimed.revocations⟩

theorem step_advances : Advances h (step h s) := by
  cases s with
  | register capacity => exact ⟨rfl, Nat.le_succ _, fun _ => le_refl _⟩
  | authenticate id identity maxPerUser =>
    exact authenticateSection_advances h id identity maxPerUser
  | subscribe id topic request => exact (subscribeLocked_core h id topic request).advances
  | unsubscribe id topic => exact (unsubscribe_core h id topic).advances
  | fanOut topic name params => exact (fanOutLocked_core h topic name params).advances
  | kick topic user =>
    exact (bumpSlot_advances h (slot h topic)).trans
      (kickEach_core topic user (revoke h topic) _).advances
  | detach id => exact detachLocked_advances h id
  | bump slot => exact bumpSlot_advances h slot
  | walk topics => exact (resetLocked_core h topics).advances
  | _ => exact .of_eq rfl rfl rfl

theorem step_nextConn : h.nextConn ≤ (step h s).nextConn :=
  (step_advances h s).nextConn

theorem step_identity_gone (hold : id < h.nextConn) (hgone : identityOf h id = none) :
    identityOf (step h s) id = none := by
  obtain hid | hid | ⟨_, _, hnew, _⟩ | ⟨_, _, _, _, _, _, hbefore, _⟩ := step_identity_cases h s id
  · exact hid.trans hgone
  · exact hid
  · exact absurd hnew (Nat.ne_of_lt hold)
  · rw [hgone] at hbefore
    cases hbefore

theorem subscribeLocked_entry_cases (who : ConnId) (other : Topic) :
    entry (subscribeLocked h id topic request).1 who other = entry h who other ∨
    who = id ∧ other = topic ∧ entry h who other = none ∧
      (∀ mark, request.mark = some mark → mark = revocationMark h topic) ∧
      entry (subscribeLocked h id topic request).1 who other = some request.explicit := by
  obtain ⟨error, heq⟩ | ⟨conn, state, hconn, hmark, _, heq⟩ :=
    subscribeLocked_cases h id topic request
  · exact .inl (by rw [heq])
  · rw [heq]
    have hentry := subscribed_entry h id conn topic state request hconn who other
    by_cases hjoin : who = id ∧ other = topic ∧ entry h id topic = none
    · rw [if_pos hjoin] at hentry
      obtain ⟨rfl, rfl, hnone⟩ := hjoin
      exact .inr ⟨rfl, rfl, hnone, hmark, hentry⟩
    · rw [if_neg hjoin] at hentry
      exact .inl hentry

theorem subscribeEach_entry (hconn : h.byId.lookup id = some conn) (who : ConnId) (other : Topic) :
    entry (subscribeEach id auto h topics).1 who other =
      if who = id ∧ other ∈ topics ∧ entry h id other = none then some false
      else entry h who other := by
  induction topics generalizing h conn with
  | nil => simp [subscribeEach]
  | cons topic topics ih =>
    rw [subscribeEach_cons_auto h id topic topics conn hconn]
    obtain ⟨state, _, heq⟩ := subscribeLocked_auto h id topic conn hconn
    obtain ⟨conn', hconn'⟩ := subscribed_registered h id conn topic state auto hconn
    rw [heq]
    dsimp only
    rw [ih _ conn' hconn', subscribed_entry h id conn topic state auto hconn,
      subscribed_entry h id conn topic state auto hconn]
    change (if _ then _ else if _ then some false else _) = _
    by_cases hwho : who = id
    · subst hwho
      by_cases hother : other = topic
      · subst hother
        cases hflag : entry h who other <;> simp
      · simp [hother]
    · simp [hwho]

theorem bound_entry (topics : List Topic) (hconn : h.byId.lookup id = some conn) (who : ConnId)
    (other : Topic) :
    entry (subscribeEach id auto
        (claimed (detachHolder h (deviceHolder h id identity.device)).1 id conn identity.user
          device) topics).1 who other =
      if who = id then (if other ∈ topics ∧ entry h id other = none then some false
        else entry h id other)
      else if deviceHolder h id identity.device = some who then none
      else entry h who other := by
  have hclaimed : ∀ who, entry (claimed (detachHolder h (deviceHolder h id identity.device)).1 id
      conn identity.user device) who other =
      if who = id then entry h id other
      else if deviceHolder h id identity.device = some who then none else entry h who other := by
    intro who
    rw [entry_of_lookup h id other hconn]
    unfold entry
    change (((detachHolder h _).1.byId.insert id _).lookup who).bind _ = _
    rw [lookup_insert_ite]
    by_cases hwho : who = id
    · simp [hwho]
    · rw [if_neg hwho, if_neg hwho]
      cases hholder : deviceHolder h id identity.device with
      | none => simp [detachHolder]
      | some holder =>
        change ((detachLocked h holder).1.byId.lookup who).bind _ = _
        rw [detachLocked_byId]
        by_cases hgone : who = holder
        · simp [hgone]
        · simp [hgone, Ne.symm hgone]
  rw [subscribeEach_entry _ id topics _ (claimed_lookup _ id conn identity.user device),
    hclaimed, hclaimed, if_pos rfl]
  by_cases hwho : who = id
  · subst hwho
    simp
  · simp [hwho]

theorem detachLocked_entry :
    entry (detachLocked h id).1 who topic = if who = id then none else entry h who topic := by
  unfold entry
  rw [detachLocked_byId]
  by_cases hwho : who = id <;> simp [hwho]

theorem closeAll_entry (ids : List ConnId) (reason : CloseReason) (who : ConnId) (topic : Topic) :
    entry (closeAll h ids reason) who topic = if who ∈ ids then none else entry h who topic := by
  unfold entry
  rw [closeAll_byId]
  split_ifs <;> rfl

theorem closeAll_gone {ids : List ConnId} (reason : CloseReason) {who : ConnId} (hin : who ∈ ids) :
    identityOf (closeAll h ids reason) who = none := by
  rw [identityOf_none, closeAll_byId, if_pos hin]

theorem register_entry (capacity : ℕ) (who : ConnId) (topic : Topic) :
    entry (register h capacity) who topic =
      if who = h.nextConn then none else entry h who topic := by
  unfold entry
  change ((h.byId.insert h.nextConn newConn).lookup who).bind _ = _
  rw [lookup_insert_ite]
  by_cases hwho : who = h.nextConn <;> simp [hwho, newConn]

theorem step_entry_new (hbefore : entry h who topic = none)
    (hafter : entry (step h s) who topic = some flag) :
    (∃ request, s = .subscribe who topic request ∧ flag = request.explicit ∧
      ∀ mark, request.mark = some mark → mark = revocationMark h topic) ∨
    (∃ identity maxPerUser userTopic deviceTopic, s = .authenticate who identity maxPerUser ∧
      identityTopics identity = .ok (userTopic, deviceTopic) ∧
      topic ∈ userTopic.toList ++ deviceTopic.toList ∧ flag = false) := by
  cases s with
  | register capacity =>
    rw [step, register_entry] at hafter
    split_ifs at hafter
    rw [hbefore] at hafter
    cases hafter
  | authenticate id identity maxPerUser =>
    obtain heq | ⟨conn, userTopic, deviceTopic, htopics, hconn, _, _, _, heq⟩ :=
      authenticateSection_cases h id identity maxPerUser
    · rw [step, heq, hbefore] at hafter
      cases hafter
    · rw [step, heq, bound_entry h id identity conn _ _ hconn] at hafter
      split_ifs at hafter with hwho hin hholder
      · subst hwho
        simp only [Option.some.injEq] at hafter
        exact .inr ⟨identity, maxPerUser, userTopic, deviceTopic, rfl, htopics, hin.1, hafter.symm⟩
      · rw [← hwho, hbefore] at hafter
        cases hafter
      · rw [hbefore] at hafter
        cases hafter
  | subscribe id other request =>
    obtain hsame | ⟨rfl, rfl, _, hmark, hnew⟩ :=
      subscribeLocked_entry_cases h id other request who topic
    · rw [step, hsame, hbefore] at hafter
      cases hafter
    · rw [step, hnew] at hafter
      exact .inl ⟨request, rfl, (Option.some.inj hafter).symm, hmark⟩
  | unsubscribe id other =>
    rw [step, unsubscribe_entry] at hafter
    split_ifs at hafter
    rw [hbefore] at hafter
    cases hafter
  | fanOut other name params =>
    rw [step, entry_congr h (fanOutLocked_byId h other name params), hbefore] at hafter
    cases hafter
  | kick other user =>
    rw [step, kickLocked_entry] at hafter
    split_ifs at hafter
    rw [hbefore] at hafter
    cases hafter
  | detach id =>
    rw [step, detachLocked_entry] at hafter
    split_ifs at hafter
    rw [hbefore] at hafter
    cases hafter
  | walk topics =>
    rw [step, resetLocked_entry] at hafter
    split_ifs at hafter
    rw [hbefore] at hafter
    cases hafter
  | _ => exact absurd (hbefore.symm.trans hafter) (by simp)

theorem step_entry_kept (hfresh : IndexInv h) (hbefore : entry h who topic = some flag) :
    entry (step h s) who topic = some flag ∨ s = .unsubscribe who topic ∨
    (∃ user, s = .kick topic user ∧ userOf h who = some user) ∨
    (∃ topics, s = .walk topics ∧ topic ∈ topics ∧ flag = true) ∨
    identityOf (step h s) who = none := by
  cases s with
  | register capacity =>
    obtain ⟨conn, hconn⟩ := registered_of_entry h who topic hbefore
    have hlt := hfresh.fresh who conn hconn
    refine .inl ?_
    rw [step, register_entry, if_neg (Nat.ne_of_lt hlt)]
    exact hbefore
  | authenticate id identity maxPerUser =>
    obtain heq | ⟨conn, userTopic, deviceTopic, htopics, hconn, _, _, _, heq⟩ :=
      authenticateSection_cases h id identity maxPerUser
    · exact .inl (by rw [step, heq, hbefore])
    · have hentry := bound_entry h id identity conn (claimedDevice identity deviceTopic)
        (userTopic.toList ++ deviceTopic.toList) hconn who topic
      have hid := bound_identity h id identity conn (claimedDevice identity deviceTopic)
        (userTopic.toList ++ deviceTopic.toList) who
      rw [← heq] at hentry hid
      by_cases hwho : who = id
      · subst hwho
        rw [if_pos rfl, hbefore, if_neg (by simp)] at hentry
        exact .inl hentry
      · rw [if_neg hwho] at hentry hid
        by_cases hholder : deviceHolder h id identity.device = some who
        · rw [if_pos hholder] at hid
          exact .inr (.inr (.inr (.inr hid)))
        · rw [if_neg hholder, hbefore] at hentry
          exact .inl hentry
  | subscribe id other request =>
    obtain hsame | ⟨_, _, hnone, _⟩ := subscribeLocked_entry_cases h id other request who topic
    · exact .inl (hsame.trans hbefore)
    · rw [hnone] at hbefore
      cases hbefore
  | unsubscribe id other =>
    by_cases hboth : who = id ∧ topic = other
    · exact .inr (.inl (by rw [hboth.1, hboth.2]))
    · refine .inl ?_
      rw [step, unsubscribe_entry, if_neg hboth]
      exact hbefore
  | fanOut other name params =>
    exact .inl ((entry_congr h (fanOutLocked_byId h other name params) who topic).trans hbefore)
  | kick other user =>
    by_cases hkicked : topic = other ∧ who ∈ subscriberIds h other ∧ userOf h who = some user
    · exact .inr (.inr (.inl ⟨user, by rw [hkicked.1], hkicked.2.2⟩))
    · refine .inl ?_
      rw [step, kickLocked_entry, if_neg hkicked]
      exact hbefore
  | detach id =>
    by_cases hwho : who = id
    · refine .inr (.inr (.inr (.inr ?_)))
      rw [step, detachLocked_identity, if_pos hwho]
    · refine .inl ?_
      rw [step, detachLocked_entry, if_neg hwho]
      exact hbefore
  | walk topics =>
    by_cases hgone : topic ∈ topics ∧ who ∈ subscriberIds h topic ∧ entry h who topic = some true
    · refine .inr (.inr (.inr (.inl ⟨topics, rfl, hgone.1, ?_⟩)))
      rw [hbefore] at hgone
      exact Option.some.inj hgone.2.2
    · refine .inl ?_
      rw [step, resetLocked_entry, if_neg hgone]
      exact hbefore
  | _ => exact .inl hbefore

theorem step_entry_flag {after : Bool} (hinv : IndexInv h)
    (hbefore : entry h who topic = some flag) (hafter : entry (step h s) who topic = some after) :
    after = flag := by
  obtain hkept | rfl | ⟨user, rfl, _⟩ | ⟨topics, rfl, _, _⟩ | hgone :=
    step_entry_kept h s who topic flag hinv hbefore
  · rw [hkept] at hafter
    exact (Option.some.inj hafter).symm
  · rw [step, unsubscribe_entry, if_pos ⟨rfl, rfl⟩] at hafter
    cases hafter
  · rw [step, kickLocked_entry] at hafter
    split_ifs at hafter
    rw [hbefore] at hafter
    exact (Option.some.inj hafter).symm
  · rw [step, resetLocked_entry] at hafter
    split_ifs at hafter
    rw [hbefore] at hafter
    exact (Option.some.inj hafter).symm
  · rw [entry_of_identity_none _ who topic hgone] at hafter
    cases hafter

theorem step_index (hinv : IndexInv h) : IndexInv (step h s) := by
  cases s with
  | register capacity => exact register_index h capacity hinv
  | authenticate id identity maxPerUser =>
    change IndexInv (authenticateSection h id identity maxPerUser)
    unfold authenticateSection
    cases identityTopics identity with
    | error error => exact hinv
    | ok topics => exact authenticateLocked_index h id identity maxPerUser _ _ hinv
  | subscribe id topic request => exact subscribeLocked_index h id topic request hinv
  | unsubscribe id topic => exact unsubscribe_index h id topic hinv
  | fanOut topic name params => exact fanOutLocked_index h topic name params hinv
  | kick topic user => exact kickLocked_index h topic user hinv
  | detach id => exact detachLocked_index h id hinv
  | walk topics => exact resetLocked_index h topics hinv
  | _ => exact hinv.congr rfl rfl rfl rfl

theorem apply_index (op : Op) (hinv : IndexInv h) : IndexInv (apply h op) :=
  apply_keeps IndexInv (fun h s _ => step_index h s) h op (fun s _ => step_index h s hinv) hinv

theorem run_apply_index (ops : List Op) (hinv : IndexInv h) : IndexInv (run apply h ops) :=
  run_invariant apply IndexInv apply_index h ops hinv

theorem explicit_pos (hcounted : Counted conn) (hflag : conn.topics.lookup topic = some true) :
    0 < conn.explicit := by
  rw [hcounted, count_pos_iff]
  exact ⟨topic, true, hflag, rfl⟩

/-- In every reachable state the index and the connections agree, no topic is
empty, the explicit counts are exact (also part-way through a reset's walk, so no
decrement underflows), and the broker listens to exactly the topics of the index. -/
theorem reachable_index (hasher : Topic → ℕ) (epochBase : ℕ) (ops : List Op) :
    let h := run apply (newHub hasher epochBase) ops
    (∀ id topic, id ∈ subscriberIds h topic ↔
      ∃ conn, h.byId.lookup id = some conn ∧ topic ∈ conn.topics) ∧
    (∀ topic state, h.index.lookup topic = some state → state.subscribers ≠ []) ∧
    (∀ walked id conn, (resetLocked h walked).1.byId.lookup id = some conn →
      conn.explicit = count (fun _ flag => flag) conn.topics ∧
      ∀ topic, conn.topics.lookup topic = some true → 0 < conn.explicit) ∧
    (∀ id conn, h.byId.lookup id = some conn →
      conn.explicit = count (fun _ flag => flag) conn.topics ∧
      ∀ topic, conn.topics.lookup topic = some true → 0 < conn.explicit) ∧
    ∀ topic, topic ∈ h.interest ↔ topic ∈ h.index := by
  intro h
  have hinv : IndexInv h := run_apply_index _ ops (newHub_index hasher epochBase)
  have hexact : ∀ {h : Hub}, IndexInv h → ∀ id conn, h.byId.lookup id = some conn →
      conn.explicit = count (fun _ flag => flag) conn.topics ∧
      ∀ topic, conn.topics.lookup topic = some true → 0 < conn.explicit := by
    intro h hinv id conn hconn
    have hcounted := hinv.counted id conn hconn
    exact ⟨hcounted, fun topic hflag => explicit_pos conn topic hcounted hflag⟩
  refine ⟨?_, hinv.occupied.nonempty, ?_, hexact hinv, ?_⟩
  · intro id topic
    rw [hinv.members]
    constructor
    · intro hsome
      obtain ⟨flag, hflag⟩ := Option.isSome_iff_exists.mp hsome
      obtain ⟨conn, hconn⟩ := registered_of_entry h id topic hflag
      rw [entry_of_lookup h id topic hconn] at hsome
      exact ⟨conn, hconn, AList.lookup_isSome.mp hsome⟩
    · rintro ⟨conn, hconn, hin⟩
      rw [entry_of_lookup h id topic hconn]
      exact AList.lookup_isSome.mpr hin
  · intro walked
    exact hexact (resetLocked_index h walked hinv)
  · intro topic
    rw [hinv.occupied.interested, AList.lookup_isSome]

end Stakit.PubsubHub
