import Stakit.PubsubHubIdentity

set_option autoImplicit false

namespace Stakit.PubsubHub
open FiniteMap PubsubTopic RouterError TransitionRuns

def HoldsDevice (h : Hub) (id : ConnId) (user device : String) : Prop :=
  userOf h id = some user ∧ ∃ topic, deviceOf h id = some (device, topic)

/-- Whoever closes a user or a device, here or on another node, reaches every
connection of it on this node. -/
structure Revocable (h : Hub) : Prop where
  userHere : ∀ user id, userOf (closeUser h user).1 id ≠ some user
  userElsewhere : ∀ user topic id, userTopic user = .ok topic →
    userOf (deliver h topic (some (closePayload .revoked))) id ≠ some user
  deviceHere : ∀ user device id, ¬ HoldsDevice (closeDevice h user device).1 id user device
  deviceElsewhere : ∀ user device topic id, deviceTopic user device = .ok topic →
    ¬ HoldsDevice (deliver h topic (some (closePayload .revoked))) id user device

/-- The topic is the connection's own `user:` or `device:` topic. -/
def OwnTopic (h : Hub) (id : ConnId) (topic : Topic) : Prop :=
  (∃ user, userOf h id = some user ∧ userTopic user = .ok topic) ∨
    ∃ device, deviceOf h id = some (device, topic)

def FromChannels (channels : Channels) : Section → Prop
  | .subscribe _ topic request => request.explicit = true →
    ∃ name ∈ channels.names, ∃ key, topicOf name key = .ok topic
  | _ => True

def KeepsOwnTopics (h : Hub) : Section → Prop
  | .unsubscribe id topic => ¬ OwnTopic h id topic
  | .kick topic user => ∀ id, userOf h id = some user → ¬ OwnTopic h id topic
  | _ => True

def Keeps (channels : Channels) (h : Hub) (s : Section) : Prop :=
  FromChannels channels s ∧ KeepsOwnTopics h s

structure AutoInv (h : Hub) : Prop where
  index : IndexInv h
  identity : IdentityInv h
  onUser : ∀ id user, userOf h id = some user →
    ∃ topic, userTopic user = .ok topic ∧ entry h id topic = some false
  onDevice : ∀ id device topic, deviceOf h id = some (device, topic) → entry h id topic = some false
  client : ∀ id topic, entry h id topic = some true →
    (∀ user, userTopic user ≠ .ok topic) ∧ ∀ user device, deviceTopic user device ≠ .ok topic

theorem newHub_auto (hasher : Topic → ℕ) (epochBase : ℕ) : AutoInv (newHub hasher epochBase) where
  index := newHub_index hasher epochBase
  identity := newHub_identity hasher epochBase
  onUser id user huser := by simp [userOf, newHub] at huser
  onDevice id device topic hdev := by simp [deviceOf, identityOf, newHub] at hdev
  client id topic hentry := by simp [entry, newHub] at hentry

variable (identity : Identity) (channels : Channels) (h : Hub) (ids : List ConnId)
  (reason : CloseReason) (who : ConnId) (user : String) (s : Section) (id : ConnId)
  (topic : Topic)

theorem identityTopics_user {userTopic' deviceTopic' : Option Topic} {user : String}
    (htopics : identityTopics identity = .ok (userTopic', deviceTopic'))
    (huser : identity.user = some user) :
    ∃ topic, userTopic user = .ok topic ∧ topic ∈ userTopic'.toList ++ deviceTopic'.toList := by
  obtain ⟨rfl, _, _⟩ | ⟨found, topic, rfl, hfound, rfl, _⟩ |
      ⟨found, device, topic, held, rfl, hfound, _, rfl, _⟩ :=
    identityTopics_cases identity htopics
  · cases huser
  · cases huser
    exact ⟨topic, hfound, by simp⟩
  · cases huser
    exact ⟨topic, hfound, by simp⟩

theorem claimedDevice_topic {deviceTopic' : Option Topic} {device : String} {topic : Topic}
    (hclaim : claimedDevice identity deviceTopic' = some (device, topic)) :
    deviceTopic' = some topic := by
  unfold claimedDevice at hclaim
  obtain ⟨held, _, hmap⟩ := Option.bind_eq_some_iff.mp hclaim
  obtain ⟨found, hfound, heq⟩ := Option.map_eq_some_iff.mp hmap
  simp only [Prod.mk.injEq] at heq
  rw [hfound, heq.2]

/-- A connection that was bound is on its automatic topics, with the flag it had. -/
theorem authenticate_entry {identity : Identity} {maxPerUser : ℕ} {bound after : Bound}
    {userTopic' deviceTopic' : Option Topic} {topic : Topic}
    (htopics : identityTopics identity = .ok (userTopic', deviceTopic'))
    (hbefore : identityOf h id = some bound) (hauth : bound.authenticated = false)
    (hafter : identityOf (step h (.authenticate id identity maxPerUser)) id = some after)
    (hbound : after.authenticated = true) (hin : topic ∈ userTopic'.toList ++ deviceTopic'.toList) :
    entry (step h (.authenticate id identity maxPerUser)) id topic =
      some ((entry h id topic).getD false) := by
  change entry (authenticateSection h id identity maxPerUser) id topic = _
  change identityOf (authenticateSection h id identity maxPerUser) id = _ at hafter
  obtain heq | ⟨conn, first, second, htopics', hconn, _, _, _, heq⟩ :=
    authenticateSection_cases h id identity maxPerUser
  · rw [heq, hbefore] at hafter
    rw [Option.some.inj hafter, hbound] at hauth
    cases hauth
  · rw [htopics] at htopics'
    simp only [Except.ok.injEq, Prod.mk.injEq] at htopics'
    rw [heq, bound_entry h id identity conn _ _ hconn, if_pos rfl, ← htopics'.1, ← htopics'.2]
    cases hflag : entry h id topic with
    | none => simp [hin]
    | some flag => simp

theorem step_own_kept (hinv : IndexInv h) (hkeeps : KeepsOwnTopics h s)
    (hown : OwnTopic h id topic) (hentry : entry h id topic = some false)
    (halive : identityOf (step h s) id ≠ none) : entry (step h s) id topic = some false := by
  obtain hkept | rfl | ⟨user, rfl, huser⟩ | ⟨_, _, _, hflag⟩ | hgone :=
    step_entry_kept h s id topic false hinv hentry
  · exact hkept
  · exact absurd hown hkeeps
  · exact absurd hown (hkeeps id huser)
  · cases hflag
  · exact absurd hgone halive

theorem step_client (hfrom : FromChannels channels s) (hinv : AutoInv h) (id : ConnId)
    (topic : Topic) (hentry : entry (step h s) id topic = some true) :
    (∀ user, userTopic user ≠ .ok topic) ∧ ∀ user device, deviceTopic user device ≠ .ok topic := by
  cases hbefore : entry h id topic with
  | some flag =>
    have hflag := step_entry_flag h s id topic flag hinv.index hbefore hentry
    rw [← hflag] at hbefore
    exact hinv.client id topic hbefore
  | none =>
    obtain ⟨request, rfl, hflag, _⟩ | ⟨_, _, _, _, _, _, _, hflag⟩ :=
      step_entry_new h s id topic true hbefore hentry
    · obtain ⟨name, hname, key, hkey⟩ := hfrom hflag.symm
      exact ⟨fun user => channel_topic_ne_userTopic channels hname hkey,
        fun user device => channel_topic_ne_deviceTopic channels hname hkey⟩
    · cases hflag

theorem getD_false_of_not_true (flag : Option Bool) (hflag : flag ≠ some true) :
    flag.getD false = false := by
  obtain _ | _ | _ := flag
  · rfl
  · rfl
  · exact absurd rfl hflag

theorem step_auto (hkeeps : Keeps channels h s) (hinv : AutoInv h) : AutoInv (step h s) where
  index := step_index h s hinv.index
  identity := step_identityInv h s hinv.identity
  client := step_client channels h s hkeeps.1 hinv
  onUser id user huser := by
    have halive : identityOf (step h s) id ≠ none := by
      intro hnone
      rw [userOf_eq, hnone] at huser
      cases huser
    obtain hid | hid | ⟨_, _, _, hid⟩ |
        ⟨identity, maxPerUser, bound, first, second, rfl, hbefore, hauth, htopics, hid⟩ :=
      step_identity_cases h s id
    · rw [userOf_eq, hid, ← userOf_eq] at huser
      obtain ⟨topic, htopic, hentry⟩ := hinv.onUser id user huser
      exact ⟨topic, htopic, step_own_kept h s id topic hinv.index hkeeps.2
        (.inl ⟨user, huser, htopic⟩) hentry halive⟩
    · exact absurd hid halive
    · rw [userOf_eq, hid] at huser
      cases huser
    · rw [userOf_eq, hid] at huser
      obtain ⟨topic, htopic, hin⟩ := identityTopics_user identity htopics huser
      refine ⟨topic, htopic, ?_⟩
      rw [authenticate_entry h id htopics hbefore hauth hid rfl hin, getD_false_of_not_true]
      intro hflag
      exact (hinv.client id topic hflag).1 user htopic
  onDevice id device topic hdev := by
    have halive : identityOf (step h s) id ≠ none := by
      intro hnone
      rw [deviceOf, hnone] at hdev
      cases hdev
    obtain hid | hid | ⟨_, _, _, hid⟩ |
        ⟨identity, maxPerUser, bound, first, second, rfl, hbefore, hauth, htopics, hid⟩ :=
      step_identity_cases h s id
    · rw [deviceOf, hid] at hdev
      exact step_own_kept h s id topic hinv.index hkeeps.2 (.inr ⟨device, hdev⟩)
        (hinv.onDevice id device topic hdev) halive
    · exact absurd hid halive
    · rw [deviceOf, hid] at hdev
      cases hdev
    · rw [deviceOf, hid, Option.bind_some] at hdev
      have hin : topic ∈ first.toList ++ second.toList := by
        simp [claimedDevice_topic identity hdev]
      obtain ⟨user, _, _, hcoded⟩ := identityTopics_device
        htopics hdev
      rw [authenticate_entry h id htopics hbefore hauth hid rfl hin, getD_false_of_not_true]
      intro hflag
      exact (hinv.client id topic hflag).2 user device hcoded

theorem closeAll_identity :
    identityOf (closeAll h ids reason) who = if who ∈ ids then none else identityOf h who := by
  unfold identityOf
  rw [closeAll_byId]
  split_ifs <;> rfl

theorem closeAll_userOf (huser : userOf (closeAll h ids reason) who = some user) :
    who ∉ ids ∧ userOf h who = some user := by
  rw [userOf_eq, closeAll_identity] at huser
  split_ifs at huser with hin
  · cases huser
  · exact ⟨hin, by rw [userOf_eq]; exact huser⟩

theorem closeAll_deviceOf {held : String × Topic}
    (hdev : deviceOf (closeAll h ids reason) who = some held) :
    who ∉ ids ∧ deviceOf h who = some held := by
  unfold deviceOf at hdev ⊢
  rw [closeAll_identity] at hdev
  split_ifs at hdev with hin
  · cases hdev
  · exact ⟨hin, hdev⟩

theorem mem_userConns : id ∈ userConns h user ↔ userOf h id = some user := by
  unfold userConns userOf
  rw [List.mem_map, Option.bind_eq_some_iff]
  constructor
  · rintro ⟨⟨who, conn⟩, hin, rfl⟩
    obtain ⟨hin, huser⟩ := List.mem_filter.mp hin
    exact ⟨conn, (mem_entries_iff h.byId who conn).mp hin, by simpa using huser⟩
  · rintro ⟨conn, hconn, huser⟩
    exact ⟨⟨id, conn⟩, List.mem_filter.mpr ⟨(mem_entries_iff h.byId id conn).mpr hconn,
      by simpa using huser⟩, rfl⟩

theorem deliver_close (kind : CloseKind) :
    deliver h topic (some (closePayload kind)) = closeTopic h topic kind := by
  unfold deliver
  split_ifs with hhas
  · rfl
  · have hnone : h.index.lookup topic = none := by
      simpa [hasTopic] using hhas
    simp [closeTopic, subscriberIds, hnone, closeAll]

theorem AutoInv.closeTopic_user {h : Hub} (hinv : AutoInv h) {user : String} {topic : Topic}
    (kind : CloseKind) (htopic : userTopic user = .ok topic) (id : ConnId) :
    userOf (closeTopic h topic kind) id ≠ some user := by
  intro huser
  obtain ⟨hout, huser⟩ := closeAll_userOf h _ _ id user huser
  obtain ⟨found, hfound, hentry⟩ := hinv.onUser id user huser
  rw [htopic] at hfound
  cases hfound
  exact hout ((hinv.index.members id topic).mpr (by simp [hentry]))

theorem AutoInv.closeTopic_device {h : Hub} (hinv : AutoInv h) {user device : String}
    {topic : Topic} (kind : CloseKind) (htopic : deviceTopic user device = .ok topic)
    (id : ConnId) : ¬ HoldsDevice (closeTopic h topic kind) id user device := by
  rintro ⟨huser, held, hdev⟩
  obtain ⟨hout, hdev⟩ := closeAll_deviceOf h _ _ id hdev
  obtain ⟨_, huser⟩ := closeAll_userOf h _ _ id user huser
  obtain ⟨owner, howner, hcoded⟩ := hinv.identity.encoded id device held hdev
  rw [huser] at howner
  cases howner
  rw [htopic] at hcoded
  cases hcoded
  have hentry := hinv.onDevice id device topic hdev
  exact hout ((hinv.index.members id topic).mpr (by simp [hentry]))

theorem AutoInv.revocable {h : Hub} (hinv : AutoInv h) : Revocable h where
  userHere user id := by
    unfold closeUser
    cases htopic : userTopic user with
    | error error =>
      intro huser
      obtain ⟨topic, hok, _⟩ := hinv.onUser id user huser
      rw [htopic] at hok
      cases hok
    | ok topic =>
      intro huser
      obtain ⟨hout, huser⟩ := closeAll_userOf h _ _ id user huser
      exact hout ((mem_userConns h user id).mpr huser)
  userElsewhere user topic id htopic := by
    rw [deliver_close]
    exact hinv.closeTopic_user .revoked htopic id
  deviceHere user device id := by
    unfold closeDevice
    cases htopic : deviceTopic user device with
    | error error =>
      rintro ⟨huser, topic, hdev⟩
      obtain ⟨owner, howner, hcoded⟩ := hinv.identity.encoded id device topic hdev
      rw [huser] at howner
      cases howner
      rw [htopic] at hcoded
      cases hcoded
    | ok topic => exact hinv.closeTopic_device .revoked htopic id
  deviceElsewhere user device topic id htopic := by
    rw [deliver_close]
    exact hinv.closeTopic_device .revoked htopic id

theorem free_keeps (hfree : Free s) : Keeps channels h s := by
  cases s <;> first | exact ⟨trivial, trivial⟩ | exact hfree.elim

/-- In every run whose steps take no connection off its own automatic topics, every
state reached revokes users and devices completely. -/
theorem revocable_of_run (hasher : Topic → ℕ) (epochBase : ℕ) (ops : List Op)
    (hkeeps : Meets apply (fun h op => ∀ s ∈ own h op, Keeps channels h s)
      (newHub hasher epochBase) ops) :
    Revocable (run apply (newHub hasher epochBase) ops) := by
  refine AutoInv.revocable (guarded_run_invariant apply _ AutoInv ?_ _ ops
    (newHub_auto hasher epochBase) hkeeps)
  intro h op hinv hguard
  refine apply_keeps AutoInv ?_ h op ?_ hinv
  · intro h s hfree hinv
    exact step_auto channels h s (free_keeps channels h s hfree) hinv
  · intro s hs
    exact step_auto channels h s (hguard s hs) hinv

theorem not_own_of_channel (hinv : IdentityInv h) {name : String} {key : Value} {topic : Topic}
    (hname : name ∈ channels.names) (htopic : topicOf name key = .ok topic) (id : ConnId) :
    ¬ OwnTopic h id topic := by
  rintro (⟨user, _, huser⟩ | ⟨device, hdev⟩)
  · exact channel_topic_ne_userTopic channels hname htopic huser
  · obtain ⟨user, _, hcoded⟩ := hinv.encoded id device topic hdev
    exact channel_topic_ne_deviceTopic channels hname htopic hcoded

def roomChannels : Channels := ⟨["room"], by decide⟩

theorem room_topic : topicOf "room" (.object [("id", .string "7")]) = .ok "room:id=7" := by
  decide

def roomRun : List Op :=
  [.register 8, .authenticate 1 ⟨some "u1", some "d1"⟩ 5,
    .subscribe 1 "room:id=7" ⟨true, 64, some 0, none⟩, .kickUser "room:id=7" "u2",
    .unsubscribe 1 "room:id=7", .reset ["user:id=u1"]]

theorem revocable_of_room_run :
    Meets apply (fun h op => ∀ s ∈ own h op, Keeps roomChannels h s) (newHub (fun _ => 0) 0)
      roomRun ∧
    Revocable (run apply (newHub (fun _ => 0) 0) roomRun) := by
  have hinv := fun ops => run_apply_identity _ ops (newHub_identity (fun _ => 0) 0)
  have hname : "room" ∈ roomChannels.names := by decide
  have hmeets : Meets apply (fun h op => ∀ s ∈ own h op, Keeps roomChannels h s)
      (newHub (fun _ => 0) 0) roomRun := by
    refine ⟨?_, ?_, ?_, ?_, ?_, ?_, trivial⟩
    · simp [own, Keeps, FromChannels, KeepsOwnTopics]
    · simp [own, Keeps, FromChannels, KeepsOwnTopics]
    · simp only [own, List.mem_singleton, forall_eq]
      exact ⟨fun _ => ⟨"room", hname, _, room_topic⟩, trivial⟩
    · simp only [own, List.mem_singleton, forall_eq]
      exact ⟨trivial, fun id _ =>
        not_own_of_channel roomChannels _ (hinv (roomRun.take 3)) hname room_topic id⟩
    · simp only [own, List.mem_singleton, forall_eq]
      exact ⟨trivial, not_own_of_channel roomChannels _ (hinv (roomRun.take 4)) hname room_topic 1⟩
    · intro s hs
      exact free_keeps roomChannels _ s (own_reset_free _ _ hs)
  exact ⟨hmeets, revocable_of_run roomChannels _ _ _ hmeets⟩

/-- A client that unsubscribes from its own `user:` topic outlives a revocation
that comes from another node. -/
theorem unsubscribed_user_not_revocable : ¬ Revocable (run apply (newHub (fun _ => 0) 0)
      [.register 8, .authenticate 1 ⟨some "u1", none⟩ 5, .unsubscribe 1 "user:id=u1"]) := by
  intro hrevocable
  refine hrevocable.userElsewhere "u1" "user:id=u1" 1 (by decide) ?_
  decide

end Stakit.PubsubHub
