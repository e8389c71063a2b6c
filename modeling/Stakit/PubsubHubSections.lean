import Stakit.PubsubHubIndex
import Stakit.TransitionRuns

set_option autoImplicit false

namespace Stakit.PubsubHub
open FiniteMap PubsubTopic RouterError TransitionRuns

inductive Section where
  | register (capacity : ℕ)
  | authenticate (id : ConnId) (identity : Identity) (maxPerUser : ℕ)
  | subscribe (id : ConnId) (topic : Topic) (request : Subscribe)
  | unsubscribe (id : ConnId) (topic : Topic)
  | fanOut (topic : Topic) (name params : String)
  | kick (topic : Topic) (user : String)
  | detach (id : ConnId)
  | bump (slot : ℕ)
  | walk (topics : List Topic)
  | send (id : ConnId) (frame : Frame)
  | signal (id : ConnId) (reason : CloseReason)
  | failPending (id : ConnId)
  | receive (id : ConnId)
  | hangUp (id : ConnId)
  | handOff (topic : Topic) (payload : Incoming)

/-- The part of `authenticate` that holds the `conns` lock. -/
def authenticateSection (h : Hub) (id : ConnId) (identity : Identity) (maxPerUser : ℕ) : Hub :=
  match identityTopics identity with
  | .error _ => h
  | .ok (userTopic, deviceTopic) =>
    (authenticateLocked h id identity maxPerUser userTopic deviceTopic).1

def step (h : Hub) : Section → Hub
  | .register capacity => register h capacity
  | .authenticate id identity maxPerUser => authenticateSection h id identity maxPerUser
  | .subscribe id topic request => (subscribeLocked h id topic request).1
  | .unsubscribe id topic => (unsubscribe h id topic).1
  | .fanOut topic name params => (fanOutLocked h topic name params).1
  | .kick topic user => (kickLocked h topic user).1
  | .detach id => (detachLocked h id).1
  | .bump slot => bumpSlot h slot
  | .walk topics => (resetLocked h topics).1
  | .send id frame => { h with peers := (trySend h.peers id frame).1 }
  | .signal id reason => { h with peers := signal h.peers id reason }
  | .failPending id => { h with peers := failPending h.peers id }
  | .receive id => receive h id
  | .hangUp id => hangUp h id
  | .handOff topic payload => handOff h topic payload

/-- Sections that follow an operation's own: they close connections, work on the
queues of one connection, and hand payloads to the broker. -/
def Quiet : Section → Prop
  | .detach _ | .send _ _ | .signal _ _ | .failPending _ | .receive _ | .hangUp _ => True
  | .handOff _ _ => True
  | _ => False

/-- Sections that no operation needs leave for: none of them subscribes, kicks,
unsubscribes or binds an identity. -/
def Free : Section → Prop
  | .bump _ | .walk _ => True
  | s => Quiet s

theorem Quiet.free {s : Section} (hs : Quiet s) : Free s := by
  cases s <;> first | exact trivial | exact hs

inductive Op where
  | register (buffer : ℕ)
  | authenticate (id : ConnId) (identity : Identity) (maxPerUser : ℕ)
  | subscribe (id : ConnId) (topic : Topic) (request : Subscribe)
  | unsubscribe (id : ConnId) (topic : Topic)
  | fanOut (topic : Topic) (name params : String)
  | publish (topic : Topic) (name params : String)
  | deliver (topic : Topic) (payload : Option Incoming)
  | kickLocal (topic : Topic) (user : String)
  | kickUser (topic : Topic) (user : String)
  | closeTopic (topic : Topic) (kind : CloseKind)
  | closeUser (user : String)
  | closeDevice (user device : String)
  | close (id : ConnId) (reason : CloseReason)
  | closeSession (id : ConnId) (reason : CloseReason)
  | remove (id : ConnId)
  | reset (walk : List Topic)
  | sendNow (id : ConnId) (frame : Frame)
  | receive (id : ConnId)
  | hangUp (id : ConnId)

/-- `Session::new` gives the outgoing queue room for at least one frame. -/
def apply (h : Hub) : Op → Hub
  | .register buffer => register h (max buffer 1)
  | .authenticate id identity maxPerUser => (authenticate h id identity maxPerUser).1
  | .subscribe id topic request => (subscribe h id topic request).1
  | .unsubscribe id topic => (unsubscribe h id topic).1
  | .fanOut topic name params => fanOut h topic name params
  | .publish topic name params => publish h topic name params
  | .deliver topic payload => deliver h topic payload
  | .kickLocal topic user => kickLocal h topic user
  | .kickUser topic user => kickUser h topic user
  | .closeTopic topic kind => closeTopic h topic kind
  | .closeUser user => (closeUser h user).1
  | .closeDevice user device => (closeDevice h user device).1
  | .close id reason => close h id reason
  | .closeSession id reason => closeSession h id reason
  | .remove id => remove h id
  | .reset walk => reset h walk
  | .sendNow id frame => sendNow h id frame
  | .receive id => receive h id
  | .hangUp id => hangUp h id

/-- What a delivered payload makes the node run, once its topic is known. -/
def ownOfPayload (topic : Topic) (incoming : Incoming) : List Section :=
  match incoming.kick, incoming.close, incoming.name, incoming.params with
  | some user, _, _, _ => [.kick topic user]
  | none, none, some name, some params => [.fanOut topic name params]
  | _, _, _, _ => []

def own (h : Hub) : Op → List Section
  | .register buffer => [.register (max buffer 1)]
  | .authenticate id identity maxPerUser => [.authenticate id identity maxPerUser]
  | .subscribe id topic request => [.subscribe id topic request]
  | .unsubscribe id topic => [.unsubscribe id topic]
  | .fanOut topic name params | .publish topic name params => [.fanOut topic name params]
  | .deliver topic payload =>
    if hasTopic h topic then (payload.map (ownOfPayload topic)).getD [] else []
  | .kickLocal topic user | .kickUser topic user => [.kick topic user]
  | .reset walk => (List.range revocationSlots).map .bump ++ [.walk walk]
  | _ => []

variable (inv : Hub → Prop) (h : Hub) (walk : List Topic) (id : ConnId) (reason : CloseReason)
  (topic : Topic) (user : String) (payload : Option Incoming)

theorem own_reset :
    own h (.reset walk) = (List.range revocationSlots).map .bump ++ [.walk walk] := rfl

theorem own_payload : own h (.deliver topic payload) =
      if hasTopic h topic then (payload.map (ownOfPayload topic)).getD [] else [] := rfl

/-- `h'` is reached from `h` by quiet sections only. -/
def QuietRun (h h' : Hub) : Prop :=
  ∃ sections, (∀ s ∈ sections, Quiet s) ∧ h' = run step h sections

theorem QuietRun.refl : QuietRun h h := ⟨[], by simp, rfl⟩

theorem QuietRun.single (s : Section) (hs : Quiet s) : QuietRun h (step h s) :=
  ⟨[s], by simpa using hs, rfl⟩

theorem QuietRun.trans {h h' h'' : Hub} (a : QuietRun h h') (b : QuietRun h' h'') :
    QuietRun h h'' := by
  obtain ⟨first, hfirst, rfl⟩ := a
  obtain ⟨second, hsecond, rfl⟩ := b
  refine ⟨first ++ second, ?_, (run_append step h first second).symm⟩
  intro s hs
  obtain hs | hs := List.mem_append.mp hs
  · exact hfirst s hs
  · exact hsecond s hs

theorem close_quietRun : QuietRun h (close h id reason) := by
  have hdetached := QuietRun.single h (.detach id) trivial
  change QuietRun h (detachLocked h id).1 at hdetached
  unfold close
  rcases hcase : detachLocked h id with ⟨after, _ | conn⟩
  · rw [hcase] at hdetached
    exact hdetached
  · rw [hcase] at hdetached
    exact hdetached.trans (.single after (.signal id reason) trivial)

theorem closeAll_quietRun (ids : List ConnId) (reason : CloseReason) :
    QuietRun h (closeAll h ids reason) :=
  run_relates (fun h id => close h id reason) QuietRun .refl (fun _ _ _ => .trans)
    (fun h id => close_quietRun h id reason) h ids

theorem handOff_quietRun (payload : Incoming) : QuietRun h (handOff h topic payload) :=
  .single h (.handOff topic payload) trivial

theorem fanOut_quietRun (name params : String) :
    QuietRun (run step h [.fanOut topic name params]) (fanOut h topic name params) :=
  closeAll_quietRun _ _ _

theorem kickLocal_quietRun : QuietRun (run step h [.kick topic user]) (kickLocal h topic user) :=
  closeAll_quietRun _ _ _

theorem run_bumps (slots : List ℕ) : run step h (slots.map .bump) = slots.foldl bumpSlot h := by
  induction slots generalizing h with
  | nil => rfl
  | cons s slots ih => exact ih (bumpSlot h s)

theorem reset_quietRun : QuietRun (run step h (own h (.reset walk))) (reset h walk) := by
  rw [own_reset, run_append, run_bumps]
  exact closeAll_quietRun _ _ _

theorem closeSession_quietRun : QuietRun h (closeSession h id reason) :=
  ((close_quietRun h id reason).trans (.single _ (.signal id reason) trivial)).trans
    (.single _ (.failPending id) trivial)

theorem sendNow_quietRun (frame : Frame) : QuietRun h (sendNow h id frame) := by
  unfold sendNow
  dsimp only
  split_ifs
  · exact closeSession_quietRun h id .slowConsumer
  · exact .single h (.send id frame) trivial

theorem closeUser_quietRun : QuietRun h (closeUser h user).1 := by
  unfold closeUser
  cases userTopic user with
  | error error => exact .refl h
  | ok topic => exact (closeAll_quietRun h _ _).trans (handOff_quietRun _ _ _)

theorem closeDevice_quietRun (device : String) : QuietRun h (closeDevice h user device).1 := by
  unfold closeDevice
  cases deviceTopic user device with
  | error error => exact .refl h
  | ok topic => exact (closeAll_quietRun h _ _).trans (handOff_quietRun _ _ _)

theorem authenticate_quietRun (identity : Identity) (maxPerUser : ℕ) :
    QuietRun (run step h [.authenticate id identity maxPerUser])
      (authenticate h id identity maxPerUser).1 := by
  change QuietRun (authenticateSection h id identity maxPerUser) _
  unfold authenticate authenticateSection
  cases identityTopics identity with
  | error error => exact .refl h
  | ok topics =>
    obtain ⟨userTopic, deviceTopic⟩ := topics
    dsimp only
    rcases authenticateLocked h id identity maxPerUser userTopic deviceTopic with
      ⟨after, superseded, slow, _ | _⟩
    · exact .refl after
    · have hsignal : QuietRun after (signalSuperseded after superseded) := by
        cases superseded with
        | none => exact .refl after
        | some holder => exact .single after (.signal holder .superseded) trivial
      refine (hsignal.trans (closeAll_quietRun _ slow .slowConsumer)).trans ?_
      cases deviceTopic with
      | none => exact .refl _
      | some topic => exact handOff_quietRun _ _ _

theorem deliver_quietRun :
    QuietRun (run step h (own h (.deliver topic payload))) (deliver h topic payload) := by
  rw [own_payload]
  unfold deliver
  split_ifs with hhas
  · cases payload with
    | none => exact .refl h
    | some incoming =>
      obtain ⟨name, params, kick, close⟩ := incoming
      cases kick with
      | some user => exact kickLocal_quietRun h topic user
      | none =>
        cases close with
        | some kind => exact closeAll_quietRun h _ _
        | none =>
          cases name with
          | none => exact .refl h
          | some name =>
            cases params with
            | none => exact .refl h
            | some params => exact fanOut_quietRun h topic name params
  · exact .refl h

theorem apply_quietRun (op : Op) : QuietRun (run step h (own h op)) (apply h op) := by
  cases op with
  | register buffer => exact .refl _
  | authenticate id identity maxPerUser => exact authenticate_quietRun h id identity maxPerUser
  | subscribe id topic request => exact closeAll_quietRun _ _ _
  | unsubscribe id topic => exact .refl _
  | fanOut topic name params => exact fanOut_quietRun h topic name params
  | publish topic name params =>
    exact (fanOut_quietRun h topic name params).trans (handOff_quietRun _ _ _)
  | deliver topic payload => exact deliver_quietRun h topic payload
  | kickLocal topic user => exact kickLocal_quietRun h topic user
  | kickUser topic user => exact (kickLocal_quietRun h topic user).trans (handOff_quietRun _ _ _)
  | closeTopic topic kind => exact closeAll_quietRun h _ _
  | closeUser user => exact closeUser_quietRun h user
  | closeDevice user device => exact closeDevice_quietRun h user device
  | close id reason => exact close_quietRun h id reason
  | closeSession id reason => exact closeSession_quietRun h id reason
  | remove id => exact .single h (.detach id) trivial
  | reset walk => exact reset_quietRun h walk
  | sendNow id frame => exact sendNow_quietRun h id frame
  | receive id => exact .single h (.receive id) trivial
  | hangUp id => exact .single h (.hangUp id) trivial

theorem quietRun_invariant (hquiet : ∀ h s, Quiet s → inv h → inv (step h s)) (h h' : Hub)
    (hrun : QuietRun h h') (hinv : inv h) : inv h' := by
  obtain ⟨sections, hall, rfl⟩ := hrun
  induction sections generalizing h with
  | nil => exact hinv
  | cons s sections ih =>
    exact ih (step h s) (hquiet h s (hall s (by simp)) hinv) fun s hs => hall s (by simp [hs])

theorem apply_keeps_of_own (hquiet : ∀ h s, Quiet s → inv h → inv (step h s)) (h : Hub) (op : Op)
    (hown : inv (run step h (own h op))) : inv (apply h op) :=
  quietRun_invariant inv hquiet _ _ (apply_quietRun h op) hown

theorem own_deliver : own h (.deliver topic payload) = [] ∨
    (∃ user, own h (.deliver topic payload) = [.kick topic user]) ∨
    ∃ name params, own h (.deliver topic payload) = [.fanOut topic name params] := by
  rw [own_payload]
  split_ifs
  · cases payload with
    | none => exact .inl rfl
    | some incoming =>
      obtain ⟨name, params, kick, close⟩ := incoming
      cases kick <;> cases close <;> cases name <;> cases params <;> simp [ownOfPayload]
  · exact .inl rfl

theorem own_cases (op : Op) : own h op = [] ∨ (∃ s, own h op = [s] ∧ ∀ topics, s ≠ .walk topics) ∨
      ∃ walk, op = .reset walk := by
  cases op with
  | deliver topic payload =>
    obtain heq | ⟨user, heq⟩ | ⟨name, params, heq⟩ := own_deliver h topic payload
    · exact .inl heq
    · exact .inr (.inl ⟨_, heq, by simp⟩)
    · exact .inr (.inl ⟨_, heq, by simp⟩)
  | reset walk => exact .inr (.inr ⟨walk, rfl⟩)
  | _ => simp [own]

theorem own_reset_free {s : Section} (hs : s ∈ own h (.reset walk)) : Free s := by
  rw [own_reset, List.mem_append, List.mem_map, List.mem_singleton] at hs
  obtain ⟨slot, _, rfl⟩ | rfl := hs
  · trivial
  · trivial

theorem apply_keeps (hfree : ∀ h s, Free s → inv h → inv (step h s)) (h : Hub) (op : Op)
    (hown : ∀ s ∈ own h op, inv (step h s)) (hinv : inv h) : inv (apply h op) := by
  refine apply_keeps_of_own inv (fun h s hs => hfree h s hs.free) h op ?_
  obtain hnil | ⟨s, hs, _⟩ | ⟨walk, rfl⟩ := own_cases h op
  · rw [hnil]
    exact hinv
  · rw [hs]
    exact hown s (by simp [hs])
  · have hbumped : inv (run step h ((List.range revocationSlots).map .bump)) := by
      clear hown
      generalize List.range revocationSlots = slots
      induction slots generalizing h with
      | nil => exact hinv
      | cons s slots ih => exact ih _ (hfree h (.bump s) trivial hinv)
    rw [own_reset, run_append]
    exact hfree _ (.walk walk) trivial hbumped

theorem run_apply_invariant (hstep : ∀ h s, inv h → inv (step h s)) {h : Hub} (ops : List Op)
    (hinv : inv h) : inv (run apply h ops) :=
  run_invariant apply inv
    (fun h op hinv => apply_keeps inv (fun h s _ => hstep h s) h op (fun s _ => hstep h s hinv) hinv)
    h ops hinv

end Stakit.PubsubHub
