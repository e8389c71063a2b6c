import Stakit.PubsubHubSteps

set_option autoImplicit false

namespace Stakit.PubsubHub
open FiniteMap PubsubTopic RouterError TransitionRuns

def userCount (h : Hub) (user : String) : ℕ :=
  count (fun _ conn => decide (conn.user = some user)) h.byId

def deviceOf (h : Hub) (who : ConnId) : Option (String × Topic) :=
  (identityOf h who).bind (·.device)

structure IdentityInv (h : Hub) : Prop where
  counts : ∀ user, h.perUser.lookup user =
    if userCount h user = 0 then none else some (userCount h user)
  devices : ∀ device id, h.devices.lookup device = some id ↔
    ∃ topic, deviceOf h id = some (device, topic)
  encoded : ∀ id device topic, deviceOf h id = some (device, topic) →
    ∃ user, userOf h id = some user ∧ deviceTopic user device = .ok topic
  unbound : ∀ id bound, identityOf h id = some bound → bound.authenticated = false →
    bound.user = none ∧ bound.device = none
  fresh : ∀ id, identityOf h id ≠ none → id < h.nextConn

theorem newHub_identity (hasher : Topic → ℕ) (epochBase : ℕ) :
    IdentityInv (newHub hasher epochBase) where
  counts user := rfl
  devices device id := by simp [newHub, deviceOf, identityOf]
  encoded id device topic hdev := by simp [newHub, deviceOf, identityOf] at hdev
  unbound id bound hbound := by simp [newHub, identityOf] at hbound
  fresh id hid := absurd rfl hid

variable (h h' : Hub) (who id : ConnId)

theorem any_user (user : String) :
    (h.byId.lookup who).any (fun conn => decide (conn.user = some user)) =
      decide (userOf h who = some user) := by
  unfold userOf
  cases h.byId.lookup who <;> simp

theorem userCount_le (user : String)
    (hsome : ∀ who, userOf h' who = some user → userOf h who = some user) :
    userCount h' user ≤ userCount h user := by
  refine count_le _ _ _ fun who hwho => ?_
  rw [any_user, decide_eq_true_eq] at hwho ⊢
  exact hsome who hwho

theorem userCount_congr (user : String) (hsame : ∀ who, userOf h' who = userOf h who) :
    userCount h' user = userCount h user := by
  refine count_congr _ _ _ fun who => ?_
  rw [any_user, any_user, hsame]

theorem userOf_congr (hsame : identityOf h' who = identityOf h who) :
    userOf h' who = userOf h who := by
  rw [userOf_eq, userOf_eq, hsame]

theorem IdentityInv.congr {h h' : Hub} (hinv : IdentityInv h)
    (hsame : ∀ who, identityOf h' who = identityOf h who) (hper : h'.perUser = h.perUser)
    (hdev : h'.devices = h.devices) (hnext : h'.nextConn = h.nextConn) : IdentityInv h' where
  counts user := by
    rw [hper, userCount_congr h h' user fun who => userOf_congr h h' who (hsame who)]
    exact hinv.counts user
  devices device id := by
    rw [hdev, deviceOf, hsame]
    exact hinv.devices device id
  encoded id device topic hdevice := by
    rw [deviceOf, hsame] at hdevice
    rw [userOf_congr h h' id (hsame id)]
    exact hinv.encoded id device topic hdevice
  unbound id bound hbound := hinv.unbound id bound (hsame id ▸ hbound)
  fresh id hid := hnext ▸ hinv.fresh id (hsame id ▸ hid)

theorem detachLocked_perUser :
    (detachLocked h id).1.perUser = releaseUser h.perUser (userOf h id) := by
  unfold detachLocked userOf
  cases h.byId.lookup id <;> rfl

theorem detachLocked_devices :
    (detachLocked h id).1.devices = releaseDevice h.devices id (deviceOf h id) := by
  unfold detachLocked deviceOf identityOf
  cases h.byId.lookup id <;> rfl

theorem releaseUser_lookup (perUser : Map String ℕ) (user : Option String) (other : String) :
    (releaseUser perUser user).lookup other = if user = some other then
        (perUser.lookup other).bind fun count => if count - 1 = 0 then none else some (count - 1)
      else perUser.lookup other := by
  cases user with
  | none => rfl
  | some user =>
    simp only [releaseUser, Option.some.injEq]
    by_cases huser : user = other
    · subst huser
      rw [if_pos rfl]
      cases hcount : perUser.lookup user with
      | none => exact hcount
      | some count =>
        simp only [Option.bind_some]
        split_ifs
        · exact AList.lookup_erase user perUser
        · exact AList.lookup_insert perUser
    · rw [if_neg huser]
      cases perUser.lookup user with
      | none => rfl
      | some count =>
        dsimp only
        split_ifs
        · exact AList.lookup_erase_ne (Ne.symm huser)
        · exact AList.lookup_insert_ne (Ne.symm huser)

theorem releaseDevice_lookup (devices : Map String ConnId) (id : ConnId)
    (device : Option (String × Topic)) (other : String) (who : ConnId) :
    (releaseDevice devices id device).lookup other = some who ↔
      devices.lookup other = some who ∧ ¬ (who = id ∧ ∃ topic, device = some (other, topic)) := by
  unfold releaseDevice
  cases device with
  | none => simp
  | some held =>
    obtain ⟨device, topic⟩ := held
    dsimp only
    split_ifs with hheld
    · rw [lookup_erase_ite]
      by_cases hother : other = device
      · subst hother
        rw [if_pos rfl, hheld]
        simp [eq_comm]
      · simp [hother, Ne.symm hother]
    · constructor
      · intro hlook
        refine ⟨hlook, ?_⟩
        rintro ⟨rfl, held, heq⟩
        simp only [Option.some.injEq, Prod.mk.injEq] at heq
        rw [heq.1] at hheld
        exact hheld hlook
      · exact And.left

theorem userCount_detachLocked (user : String) : userCount h user =
      userCount (detachLocked h id).1 user + if userOf h id = some user then 1 else 0 := by
  unfold detachLocked userOf userCount
  cases hconn : h.byId.lookup id with
  | none => simp
  | some conn =>
    have hcount := count_eq_erase (fun _ (conn : Conn) => decide (conn.user = some user))
      h.byId id conn hconn
    simpa using hcount

theorem detachLocked_identityInv (hinv : IdentityInv h) : IdentityInv (detachLocked h id).1 := by
  have hid := detachLocked_identity h id
  have hdevice : ∀ who, deviceOf (detachLocked h id).1 who =
      if who = id then none else deviceOf h who := by
    intro who
    unfold deviceOf
    rw [hid]
    split_ifs <;> rfl
  refine ⟨?_, ?_, ?_, ?_, ?_⟩
  · intro user
    have hcount := userCount_detachLocked h id user
    rw [detachLocked_perUser, releaseUser_lookup, hinv.counts]
    by_cases huser : userOf h id = some user
    · rw [if_pos huser] at hcount ⊢
      rw [if_neg (by omega), Option.bind_some, hcount, Nat.add_sub_cancel]
    · rw [if_neg huser] at hcount ⊢
      rw [hcount]
      rfl
  · intro device who
    rw [detachLocked_devices, releaseDevice_lookup, hinv.devices, hdevice]
    by_cases hwho : who = id
    · subst hwho
      simp
    · simp [hwho]
  · intro who device topic hdev
    rw [hdevice] at hdev
    split_ifs at hdev with hwho
    have huser : userOf (detachLocked h id).1 who = userOf h who := by
      refine userOf_congr h _ who ?_
      rw [hid, if_neg hwho]
    rw [huser]
    exact hinv.encoded who device topic hdev
  · intro who bound hbound
    rw [hid] at hbound
    split_ifs at hbound
    exact hinv.unbound who bound hbound
  · intro who hwho
    rw [(detachLocked_frame h id).1]
    rw [hid] at hwho
    split_ifs at hwho
    · exact absurd rfl hwho
    · exact hinv.fresh who hwho

theorem detachHolder_identityInv (holder : Option ConnId) (hinv : IdentityInv h) :
    IdentityInv (detachHolder h holder).1 := by
  cases holder with
  | none => exact hinv
  | some holder => exact detachLocked_identityInv h holder hinv

theorem identityTopics_device {identity : Identity} {userTopic' deviceTopic' : Option Topic}
    {device : String} {topic : Topic}
    (htopics : identityTopics identity = .ok (userTopic', deviceTopic'))
    (hclaim : claimedDevice identity deviceTopic' = some (device, topic)) :
    ∃ user, identity.user = some user ∧ identity.device = some device ∧
      deviceTopic user device = .ok topic := by
  obtain ⟨rfl, _, _⟩ | ⟨user, found, rfl, _, _, _⟩ | ⟨user, held, first, second, rfl, _, hdevice, _, rfl⟩ :=
    identityTopics_cases identity htopics
  · cases hclaim
  · cases hclaim
  · cases hclaim
    exact ⟨user, rfl, rfl, hdevice⟩

theorem claimUser_lookup (perUser : Map String ℕ) (user : Option String) (other : String) :
    (claimUser perUser user).lookup other =
      if user = some other then some ((perUser.lookup other).getD 0 + 1)
      else perUser.lookup other := by
  cases user with
  | none => rfl
  | some user =>
    simp only [claimUser, lookup_insert_ite, Option.some.injEq]
    by_cases huser : other = user
    · subst huser
      simp
    · simp [huser, Ne.symm huser]

theorem userCount_claimed {conn : Conn} (user : Option String) (device : Option (String × Topic))
    (hconn : h.byId.lookup id = some conn) (hnone : conn.user = none) (other : String) :
    userCount (claimed h id conn user device) other =
      userCount h other + if user = some other then 1 else 0 := by
  unfold userCount
  change count _ (h.byId.insert id _) = _
  rw [count_insert, count_eq_erase _ h.byId id conn hconn, hnone]
  simp

theorem claimed_identityInv {conn : Conn} (user : Option String)
    (device : Option (String × Topic)) (hinv : IdentityInv h)
    (hconn : h.byId.lookup id = some conn) (hauth : conn.authenticated = false)
    (hfree : ∀ held topic, device = some (held, topic) → h.devices.lookup held = none)
    (hcoded : ∀ held topic, device = some (held, topic) → ∃ name, user = some name ∧
      deviceTopic name held = .ok topic) :
    IdentityInv (claimed h id conn user device) := by
  have hid := claimed_identity h id conn user device
  have hbefore : identityOf h id = some (boundOf conn) := by simp [identityOf, hconn]
  obtain ⟨hnoUser, hnoDevice⟩ := hinv.unbound id _ hbefore hauth
  refine ⟨?_, ?_, ?_, ?_, ?_⟩
  · intro other
    change (claimUser h.perUser user).lookup other = _
    rw [claimUser_lookup, userCount_claimed h id user device hconn hnoUser, hinv.counts]
    by_cases huser : user = some other
    · rw [if_pos huser, if_pos huser, if_neg (Nat.succ_ne_zero _)]
      split_ifs with hzero
      · rw [hzero]
        rfl
      · rfl
    · rw [if_neg huser, if_neg huser, Nat.add_zero]
  · intro held who
    change (claimDevice h.devices id device).lookup held = some who ↔ _
    unfold deviceOf
    rw [hid]
    have hnot : ∀ topic, deviceOf h id ≠ some (held, topic) := by
      intro topic
      simp only [deviceOf, hbefore, Option.bind_some, hnoDevice]
      exact Option.some_ne_none _ |>.symm
    cases device with
    | none =>
      by_cases hwho : who = id
      · subst hwho
        have := hinv.devices held who
        simp only [claimDevice, if_true, Option.bind_some]
        rw [this]
        simp [hnot]
      · rw [if_neg hwho]
        exact hinv.devices held who
    | some claim =>
      obtain ⟨name, topic⟩ := claim
      simp only [claimDevice, lookup_insert_ite]
      have hfree' := hfree name topic rfl
      by_cases hheld : held = name
      · subst hheld
        rw [if_pos rfl]
        by_cases hwho : who = id
        · subst hwho
          simp
        · rw [if_neg hwho]
          have hdev := hinv.devices held who
          rw [hfree'] at hdev
          constructor
          · intro heq
            exact absurd (Option.some.inj heq).symm hwho
          · intro hex
            exact absurd (hdev.mpr hex) (by simp)
      · rw [if_neg hheld]
        by_cases hwho : who = id
        · subst hwho
          have hdev := hinv.devices held who
          rw [if_pos rfl, hdev]
          simp [hnot, Ne.symm hheld]
        · rw [if_neg hwho]
          exact hinv.devices held who
  · intro who held topic hdev
    unfold deviceOf at hdev
    rw [userOf_eq, hid]
    rw [hid] at hdev
    by_cases hwho : who = id
    · rw [if_pos hwho] at hdev ⊢
      exact hcoded held topic hdev
    · rw [if_neg hwho] at hdev ⊢
      rw [← userOf_eq]
      exact hinv.encoded who held topic hdev
  · intro who bound hbound hunauth
    rw [hid] at hbound
    split_ifs at hbound
    · rw [← Option.some.inj hbound] at hunauth
      cases hunauth
    · exact hinv.unbound who bound hbound hunauth
  · intro who hwho
    change who < h.nextConn
    rw [hid] at hwho
    split_ifs at hwho with heq
    · rw [heq]
      exact hinv.fresh id (by simp [hbefore])
    · exact hinv.fresh who hwho

theorem devices_detachHolder (bound : Bound) (device : String) (hinv : IdentityInv h)
    (hid : identityOf h id = some bound) (hauth : bound.authenticated = false) :
    (detachHolder h (deviceHolder h id (some device))).1.devices.lookup device = none := by
  have hdetached := detachHolder_identityInv h (deviceHolder h id (some device)) hinv
  cases hlook : (detachHolder h (deviceHolder h id (some device))).1.devices.lookup device with
  | none => rfl
  | some who =>
    exfalso
    obtain ⟨topic, hdev⟩ := (hdetached.devices device who).mp hlook
    unfold deviceOf at hdev
    rw [detachHolder_identity] at hdev
    split_ifs at hdev with hholder
    · cases hdev
    · have hheld : h.devices.lookup device = some who := (hinv.devices device who).mpr ⟨topic, hdev⟩
      by_cases hwho : who = id
      · subst hwho
        rw [hid, Option.bind_some, (hinv.unbound who bound hid hauth).2] at hdev
        cases hdev
      · refine hholder ?_
        simp [deviceHolder, hheld, hwho]

theorem subscribeLocked_identityInv (topic : Topic) (request : Subscribe) (hinv : IdentityInv h) :
    IdentityInv (subscribeLocked h id topic request).1 := by
  have hcore := subscribeLocked_core h id topic request
  exact hinv.congr (subscribeLocked_identity h id topic request) hcore.perUser hcore.devices
    hcore.nextConn

theorem authenticateSection_identityInv (identity : Identity) (maxPerUser : ℕ)
    (hinv : IdentityInv h) : IdentityInv (authenticateSection h id identity maxPerUser) := by
  obtain heq | ⟨conn, userTopic', deviceTopic', htopics, hconn, hauth, _, _, heq⟩ :=
    authenticateSection_cases h id identity maxPerUser
  · rw [heq]
    exact hinv
  rw [heq]
  have hlook := (detachHolder_lookup h id identity.device).trans hconn
  refine subscribeEach_invariant IdentityInv id
    (fun h topic hinv => subscribeLocked_identityInv h id topic auto hinv) _ _ _
    (claimed_lookup _ id conn _ _) ?_
  refine claimed_identityInv _ id _ _ (detachHolder_identityInv h _ hinv) hlook hauth ?_ ?_
  · intro held topic hclaim
    obtain ⟨_, _, hdevice, _⟩ := identityTopics_device htopics hclaim
    rw [hdevice]
    exact devices_detachHolder h id (boundOf conn) held hinv (by simp [identityOf, hconn]) hauth
  · intro held topic hclaim
    obtain ⟨user, huser, _, hcoded⟩ := identityTopics_device htopics hclaim
    exact ⟨user, huser, hcoded⟩

theorem register_identityInv (capacity : ℕ) (hinv : IdentityInv h) :
    IdentityInv (register h capacity) := by
  have hid := register_identity h capacity
  have hnone : identityOf h h.nextConn = none := by
    by_contra hsome
    exact absurd (hinv.fresh _ hsome) (Nat.lt_irrefl _)
  have huser : ∀ who, userOf (register h capacity) who = userOf h who := by
    intro who
    rw [userOf_eq, userOf_eq, hid]
    split_ifs with hwho
    · rw [hwho, hnone]
      rfl
    · rfl
  have hdevice : ∀ who, deviceOf (register h capacity) who = deviceOf h who := by
    intro who
    unfold deviceOf
    rw [hid]
    split_ifs with hwho
    · rw [hwho, hnone]
      rfl
    · rfl
  refine ⟨?_, ?_, ?_, ?_, ?_⟩
  · intro user
    rw [userCount_congr h _ user huser]
    exact hinv.counts user
  · intro device who
    rw [hdevice]
    exact hinv.devices device who
  · intro who device topic hdev
    rw [huser]
    rw [hdevice] at hdev
    exact hinv.encoded who device topic hdev
  · intro who bound hbound hunauth
    rw [hid] at hbound
    split_ifs at hbound
    · rw [← Option.some.inj hbound]
      exact ⟨rfl, rfl⟩
    · exact hinv.unbound who bound hbound hunauth
  · intro who hwho
    rw [hid] at hwho
    split_ifs at hwho with heq
    · exact Nat.lt_succ_of_le heq.le
    · exact Nat.lt_succ_of_lt (hinv.fresh who hwho)

theorem step_identityInv (s : Section) (hinv : IdentityInv h) : IdentityInv (step h s) := by
  cases s with
  | register capacity => exact register_identityInv h capacity hinv
  | authenticate id identity maxPerUser =>
    exact authenticateSection_identityInv h id identity maxPerUser hinv
  | subscribe id topic request => exact subscribeLocked_identityInv h id topic request hinv
  | unsubscribe id topic =>
    have hcore := unsubscribe_core h id topic
    exact hinv.congr (unsubscribe_prunes h id topic).identityOf hcore.perUser hcore.devices
      hcore.nextConn
  | fanOut topic name params =>
    have hcore := fanOutLocked_core h topic name params
    refine hinv.congr (fun who => ?_) hcore.perUser hcore.devices hcore.nextConn
    change ((fanOutLocked h topic name params).1.byId.lookup who).map boundOf = _
    rw [fanOutLocked_byId]
    rfl
  | kick topic user =>
    have hcore := kickEach_core topic user (revoke h topic) (subscriberIds (revoke h topic) topic)
    exact hinv.congr (kickLocked_prunes h topic user).identityOf hcore.perUser hcore.devices
      hcore.nextConn
  | detach id => exact detachLocked_identityInv h id hinv
  | walk topics =>
    have hcore := resetLocked_core h topics
    exact hinv.congr (resetLocked_prunes h topics).identityOf hcore.perUser hcore.devices
      hcore.nextConn
  | _ => exact hinv.congr (fun who => rfl) rfl rfl rfl

theorem run_apply_identity (ops : List Op) (hinv : IdentityInv h) : IdentityInv (run apply h ops) :=
  run_apply_invariant IdentityInv step_identityInv ops hinv

end Stakit.PubsubHub
