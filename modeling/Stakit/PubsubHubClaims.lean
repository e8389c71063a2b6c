import Stakit.PubsubHubResetWalk

set_option autoImplicit false

namespace Stakit.PubsubHub
open FiniteMap PubsubTopic RouterError

/-- The hub with the connection bound to its identity. -/
def claimed (h : Hub) (id : ConnId) (conn : Conn) (user : Option String)
    (device : Option (String × Topic)) : Hub :=
  { h with
    perUser := claimUser h.perUser user
    devices := claimDevice h.devices id device
    byId := h.byId.insert id { conn with authenticated := true, user := user, device := device } }

variable (h : Hub) (id : ConnId) (topic : Topic) (topics : List Topic) (conn : Conn)
  (identity : Identity)

theorem subscribeLocked_auto (hconn : h.byId.lookup id = some conn) :
    ∃ state, (ensureTopic h topic).index.lookup topic = some state ∧
      subscribeLocked h id topic auto =
        ((subscribed h id conn topic state auto).1, [], .ok state.cursor) := by
  obtain ⟨state, hstate, _⟩ := ensureTopic_lookup h topic
  refine ⟨state, hstate, ?_⟩
  unfold subscribeLocked
  rw [hconn]
  simp only [auto, Option.any_none, Bool.false_eq_true, if_false, Bool.and_false, Bool.false_and,
    hstate]
  rfl

theorem subscribed_registered (topic : Topic) (state : TopicState) (request : Subscribe)
    (hconn : h.byId.lookup id = some conn) :
    ∃ conn', (subscribed h id conn topic state request).1.byId.lookup id = some conn' := by
  rw [subscribed_byId]
  split_ifs
  · exact ⟨conn, hconn⟩
  · exact ⟨_, AList.lookup_insert h.byId⟩

theorem subscribeEach_auto (hconn : h.byId.lookup id = some conn) :
    (subscribeEach id auto h topics).2 = ([], .ok ()) := by
  induction topics generalizing h conn with
  | nil => rfl
  | cons topic topics ih =>
    obtain ⟨state, _, heq⟩ := subscribeLocked_auto h id topic conn hconn
    obtain ⟨conn', hconn'⟩ := subscribed_registered h id conn topic state auto hconn
    have hrest := ih _ conn' hconn'
    simp only [subscribeEach, heq, hrest, List.nil_append]

theorem subscribeEach_cons_auto (hconn : h.byId.lookup id = some conn) :
    (subscribeEach id auto h (topic :: topics)).1 =
      (subscribeEach id auto (subscribeLocked h id topic auto).1 topics).1 := by
  obtain ⟨state, _, heq⟩ := subscribeLocked_auto h id topic conn hconn
  simp only [subscribeEach, heq]

theorem subscribeEach_invariant (inv : Hub → Prop) (id : ConnId)
    (hstep : ∀ h topic, inv h → inv (subscribeLocked h id topic auto).1)
    (h : Hub) (topics : List Topic) (conn : Conn) (hconn : h.byId.lookup id = some conn)
    (hinv : inv h) : inv (subscribeEach id auto h topics).1 := by
  induction topics generalizing h conn with
  | nil => exact hinv
  | cons topic topics ih =>
    rw [subscribeEach_cons_auto h id topic topics conn hconn]
    obtain ⟨state, _, heq⟩ := subscribeLocked_auto h id topic conn hconn
    obtain ⟨conn', hconn'⟩ := subscribed_registered h id conn topic state auto hconn
    exact ih _ conn' (by rw [heq]; exact hconn') (hstep h topic hinv)

theorem deviceHolder_ne (holder : ConnId) (device : Option String)
    (hholder : deviceHolder h id device = some holder) : holder ≠ id := by
  have := (Option.filter_eq_some_iff.mp hholder).2
  simpa using this

theorem detachHolder_lookup (device : Option String) :
    (detachHolder h (deviceHolder h id device)).1.byId.lookup id = h.byId.lookup id := by
  cases hholder : deviceHolder h id device with
  | none => rfl
  | some holder =>
    have hne := deviceHolder_ne h id holder device hholder
    change (detachLocked h holder).1.byId.lookup id = _
    rw [detachLocked_byId, if_neg hne.symm]

def claimedDevice (identity : Identity) (deviceTopic : Option Topic) : Option (String × Topic) :=
  identity.device.bind fun device => deviceTopic.map fun topic => (device, topic)

theorem identityTopics_cases {first second : Option Topic}
    (htopics : identityTopics identity = .ok (first, second)) :
    (identity = ⟨none, none⟩ ∧ first = none ∧ second = none) ∨
    (∃ user topic, identity = ⟨some user, none⟩ ∧ userTopic user = .ok topic ∧
      first = some topic ∧ second = none) ∨
    ∃ user device topic held, identity = ⟨some user, some device⟩ ∧ userTopic user = .ok topic ∧
      deviceTopic user device = .ok held ∧ first = some topic ∧ second = some held := by
  obtain ⟨user, device⟩ := identity
  cases user with
  | none =>
    cases device with
    | none =>
      simp only [identityTopics, Except.ok.injEq, Prod.mk.injEq] at htopics
      exact .inl ⟨rfl, htopics.1.symm, htopics.2.symm⟩
    | some device => simp [identityTopics] at htopics
  | some user =>
    cases huser : userTopic user with
    | error error => cases device <;> simp [identityTopics, huser] at htopics
    | ok topic =>
      cases device with
      | none =>
        simp only [identityTopics, huser, Except.ok.injEq, Prod.mk.injEq] at htopics
        exact .inr (.inl ⟨user, topic, rfl, huser, htopics.1.symm, htopics.2.symm⟩)
      | some device =>
        cases hdevice : deviceTopic user device with
        | error error => simp [identityTopics, huser, hdevice] at htopics
        | ok held =>
          simp only [identityTopics, huser, hdevice, Except.ok.injEq, Prod.mk.injEq] at htopics
          exact .inr (.inr ⟨user, device, topic, held, rfl, huser, hdevice, htopics.1.symm,
            htopics.2.symm⟩)

theorem bindIdentity_of_lookup (user : Option String) (device : Option (String × Topic))
    (topics : List Topic) {conn : Conn} (hconn : h.byId.lookup id = some conn) :
    bindIdentity h id user device topics =
      ((subscribeEach id auto (claimed h id conn user device) topics).1, [], .ok ()) := by
  have hself : (claimed h id conn user device).byId.lookup id =
      some { conn with authenticated := true, user := user, device := device } :=
    AList.lookup_insert _
  have hauto := subscribeEach_auto _ id topics _ hself
  have heq : bindIdentity h id user device topics =
      subscribeEach id auto (claimed h id conn user device) topics := by
    unfold bindIdentity
    dsimp only
    rw [hconn]
    rfl
  rw [heq, ← hauto]

/-- An authenticate fails before it changes anything, or binds the identity. -/
theorem authenticateLocked_cases (maxPerUser : ℕ) (userTopic deviceTopic : Option Topic) :
    (∃ error, authenticateLocked h id identity maxPerUser userTopic deviceTopic =
      (h, none, [], .error error)) ∨
    ∃ conn, h.byId.lookup id = some conn ∧ conn.authenticated = false ∧
      atCap h identity.user maxPerUser = false ∧
      heldByAnother h (deviceHolder h id identity.device) identity.user = false ∧
      authenticateLocked h id identity maxPerUser userTopic deviceTopic = ((subscribeEach id auto
            (claimed (detachHolder h (deviceHolder h id identity.device)).1 id conn identity.user
              (claimedDevice identity deviceTopic))
            (userTopic.toList ++ deviceTopic.toList)).1,
          (detachHolder h (deviceHolder h id identity.device)).2, [], .ok ()) := by
  unfold authenticateLocked
  cases hconn : h.byId.lookup id with
  | none => exact .inl ⟨gone, rfl⟩
  | some conn =>
    dsimp only
    cases hauth : conn.authenticated with
    | true => exact .inl ⟨_, rfl⟩
    | false =>
      cases hcap : atCap h identity.user maxPerUser with
      | true => exact .inl ⟨_, rfl⟩
      | false =>
        cases hheld : heldByAnother h (deviceHolder h id identity.device) identity.user with
        | true => exact .inl ⟨_, rfl⟩
        | false =>
          refine .inr ⟨conn, rfl, hauth, rfl, rfl, ?_⟩
          have hlook := (detachHolder_lookup h id identity.device).trans hconn
          have hbound := bindIdentity_of_lookup _ id identity.user
            (claimedDevice identity deviceTopic) (userTopic.toList ++ deviceTopic.toList) hlook
          change ((bindIdentity _ id identity.user (claimedDevice identity deviceTopic) _).1, _,
            (bindIdentity _ id identity.user (claimedDevice identity deviceTopic) _).2.1,
            (bindIdentity _ id identity.user (claimedDevice identity deviceTopic) _).2.2) = _
          rw [hbound]

theorem authenticate_error (maxPerUser : ℕ) (error : Error)
    (herror : (authenticate h id identity maxPerUser).2 = .error error) :
    (authenticate h id identity maxPerUser).1 = h := by
  unfold authenticate at herror ⊢
  cases htopics : identityTopics identity with
  | error e => rfl
  | ok topics =>
    obtain ⟨userTopic, deviceTopic⟩ := topics
    simp only [htopics] at herror ⊢
    obtain ⟨e, heq⟩ | ⟨conn, _, _, _, _, heq⟩ :=
      authenticateLocked_cases h id identity maxPerUser userTopic deviceTopic
    · rw [heq]
    · rw [heq] at herror
      simp at herror

end Stakit.PubsubHub
