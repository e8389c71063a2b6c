import Stakit.PubsubNodeFences

set_option autoImplicit false

namespace Stakit.PubsubNode
open FiniteMap PubsubTopic RouterError PubsubHub TransitionRuns

/-- Every client-requested subscription of a kicked user was inserted with a mark
read after the kick. -/
def KicksHold (n : Node) : Prop :=
  ∀ kick ∈ n.kicks, ∀ conn, userOf n.hub conn = some kick.user →
    entry n.hub conn kick.topic = some true → kick.time < n.stamps conn kick.topic

/-- A kick dropped for want of the topic comes when no attempt of the user on the
topic is in flight, and a connection that is bound to a user neither holds nor is
subscribing to a topic that user was kicked from. -/
def Careful (n : Node) : Act → Prop
  | .lookUp topic user => hasTopic n.hub topic = true ∨
    ∀ task mark readAt, (n.tasks task).topic = topic → InFlight (n.tasks task) mark readAt →
      userOf n.hub (n.tasks task).conn ≠ some user
  | .other (.authenticate id identity _) =>
    ∀ kick ∈ n.kicks, identity.user = some kick.user → entry n.hub id kick.topic ≠ some true ∧
      ∀ task mark readAt, (n.tasks task).topic = kick.topic →
        InFlight (n.tasks task) mark readAt → (n.tasks task).conn ≠ id
  | _ => True

structure KickInv (n : Node) : Prop where
  node : NodeInv n
  past : ∀ kick ∈ n.kicks, kick.time < n.clock
  fenced : ∀ kick ∈ n.kicks, ∀ conn, userOf n.hub conn = some kick.user →
    Fenced n kick.time conn kick.topic

theorem KickInv.kicksHold {n : Node} (hinv : KickInv n) : KicksHold n :=
  fun kick hkick conn huser => (hinv.fenced kick hkick conn huser).inserted

theorem newNode_kickInv (hasher : Topic → ℕ) (epochBase : ℕ) (onError : Error → Error) :
    KickInv (newNode hasher epochBase onError) where
  node := newNode_inv hasher epochBase onError
  past kick hkick := by cases hkick
  fenced kick hkick := by cases hkick

theorem run_user (h : Hub) (sections : List Section)
    (hsections : ∀ s ∈ sections, ∀ id identity maxPerUser,
      s ≠ .authenticate id identity maxPerUser) (conn : ConnId) (user : String)
    (huser : userOf (run PubsubHub.step h sections) conn = some user) :
    userOf h conn = some user := by
  induction sections generalizing h with
  | nil => exact huser
  | cons s sections ih =>
    have hlater := ih (PubsubHub.step h s) (fun s hs => hsections s (by simp [hs])) huser
    exact step_user_new h s conn user (hsections s (by simp) conn) hlater

theorem act_user_cases {n : Node} {a : Act} {conn : ConnId} {user : String}
    (huser : userOf (act n a).hub conn = some user) :
    userOf n.hub conn = some user ∨
      ∃ identity maxPerUser, a = .other (.authenticate conn identity maxPerUser) ∧
        identity.user = some user := by
  obtain ⟨s, rfl, hhub⟩ | ⟨sections, hhub, hsections⟩ := act_hub n a
  · rw [hhub] at huser
    obtain hbefore | ⟨identity, maxPerUser, rfl, hidentity⟩ :=
      step_user_cases n.hub s conn user huser
    · exact .inl hbefore
    · exact .inr ⟨identity, maxPerUser, rfl, hidentity⟩
  · rw [hhub] at huser
    exact .inl (run_user n.hub sections hsections conn user huser)

/-- A step records no kick, or one it carried out, or one whose topic it missed. -/
theorem act_kicks (n : Node) (a : Act) : (act n a).kicks = n.kicks ∨
    (∃ topic user, (act n a).kicks = n.kicks ++ [⟨topic, user, n.clock⟩] ∧
      (act n a).hub = (kickLocked n.hub topic user).1 ∧ (act n a).tasks = n.tasks) ∨
    ∃ topic user, a = .lookUp topic user ∧ hasTopic n.hub topic = false ∧
      (act n a).kicks = n.kicks ++ [⟨topic, user, n.clock⟩] ∧ (act n a).hub = n.hub ∧
      (act n a).tasks = n.tasks := by
  cases a with
  | kick topic user => exact .inr (.inl ⟨topic, user, rfl, rfl, rfl⟩)
  | lookUp topic user =>
    unfold act
    dsimp only
    split_ifs with hhas
    · exact .inl rfl
    · exact .inr (.inr ⟨topic, user, rfl, by simpa using hhas, rfl, rfl, rfl⟩)
  | deliver topic user =>
    unfold act
    dsimp only
    split_ifs
    · exact .inr (.inl ⟨topic, user, rfl, rfl, rfl⟩)
    · exact .inl rfl
  | finish task =>
    refine .inl ?_
    change (finishTask n task).kicks = _
    unfold finishTask
    dsimp only
    split <;> rfl
  | bump reset =>
    refine .inl ?_
    change (bumpReset n reset).kicks = _
    unfold bumpReset
    dsimp only
    split_ifs <;> rfl
  | walk reset order =>
    refine .inl ?_
    change (walkReset n reset order).kicks = _
    unfold walkReset
    split_ifs <;> rfl
  | closeSlow reset =>
    refine .inl ?_
    change (closeReset n reset).kicks = _
    unfold closeReset
    split <;> rfl
  | spawn task conn topic frameId max | other s =>
    refine .inl ?_
    unfold act
    dsimp only
    split_ifs <;> rfl
  | _ =>
    refine .inl ?_
    unfold act
    dsimp only
    split <;> rfl

theorem kickLocked_mark (h : Hub) (topic : Topic) (user : String) :
    revocationMark h topic < revocationMark (kickLocked h topic user).1 topic := by
  have hcore := kickEach_core topic user (revoke h topic) (subscriberIds (revoke h topic) topic)
  unfold revocationMark slot kickLocked
  rw [hcore.revocations, hcore.hasher]
  change _ < Function.update h.revocations (slot h topic) _ (slot h topic)
  rw [Function.update_self]
  exact Nat.lt_succ_self _

theorem kicked_fenced (n n' : Node) (hinv : NodeInv n) (topic : Topic) (user : String)
    (hhub : n'.hub = (kickLocked n.hub topic user).1) (htasks : n'.tasks = n.tasks)
    (conn : ConnId) (huser : userOf n'.hub conn = some user) (k : ℕ) : Fenced n' k conn topic where
  inserted hafter := by
    rw [hhub, kickLocked_entry] at hafter
    rw [hhub, (kickLocked_prunes n.hub topic user).userOf] at huser
    split_ifs at hafter with hgone
    have hmem : conn ∈ subscriberIds n.hub topic :=
      (hinv.index.members conn topic).mpr (by simp [hafter])
    exact absurd ⟨rfl, hmem, huser⟩ hgone
  attempts task mark readAt hconn htopic hflight := by
    rw [htasks] at htopic hflight
    rw [hhub]
    exact .inr (stale_of_bump n hinv _ topic (kickLocked_mark n.hub topic user) htopic hflight)

theorem missed_fenced (n n' : Node) (hinv : NodeInv n) (topic : Topic) (user : String)
    (hmissed : hasTopic n.hub topic = false) (hcareful : Careful n (.lookUp topic user))
    (hhub : n'.hub = n.hub) (htasks : n'.tasks = n.tasks) (conn : ConnId)
    (huser : userOf n'.hub conn = some user) (k : ℕ) : Fenced n' k conn topic where
  inserted hafter := by
    rw [hhub] at hafter
    have hmem : conn ∈ subscriberIds n.hub topic :=
      (hinv.index.members conn topic).mpr (by simp [hafter])
    obtain ⟨state, hstate, _⟩ := lookup_of_mem_subscriberIds n.hub topic hmem
    rw [hasTopic, hstate] at hmissed
    cases hmissed
  attempts task mark readAt hconn htopic hflight := by
    rw [htasks] at hconn htopic hflight
    rw [hhub] at huser
    obtain hhas | hnone := hcareful
    · rw [hmissed] at hhas
      cases hhas
    · have hother := hnone task mark readAt htopic hflight
      rw [hconn] at hother
      exact absurd huser hother

theorem bound_fenced {n : Node} (hinv : NodeInv n) {conn : ConnId} {identity : Identity}
    {maxPerUser : ℕ} (hcareful : Careful n (.other (.authenticate conn identity maxPerUser)))
    {kick : Kick} (hkick : kick ∈ n.kicks) (huser : identity.user = some kick.user) :
    Fenced (act n (.other (.authenticate conn identity maxPerUser))) kick.time conn
      kick.topic where
  inserted hafter := by
    have hloses := step_loses n.hub (.authenticate conn identity maxPerUser) (by simp)
    have hbefore := hloses.explicit hinv.index conn kick.topic hafter
    exact absurd hbefore (hcareful kick hkick huser).1
  attempts task mark readAt hconn htopic hflight :=
    absurd hconn ((hcareful kick hkick huser).2 task mark readAt htopic hflight)

theorem step_kickInv (n : Node) (a : Act) (hinv : KickInv n) (hcareful : Careful n a) :
    KickInv (step n a) := by
  have hnode := step_inv n a hinv.node
  have hold : ∀ kick ∈ n.kicks, ∀ conn, userOf (act n a).hub conn = some kick.user →
      Fenced (step n a) kick.time conn kick.topic := by
    intro kick hkick conn huser
    obtain hbefore | ⟨identity, maxPerUser, rfl, hidentity⟩ :=
      act_user_cases huser
    · exact step_fenced n a hinv.node (hinv.past kick hkick)
        (hinv.fenced kick hkick conn hbefore)
    · have hfenced := bound_fenced hinv.node hcareful hkick
        hidentity
      exact ⟨hfenced.inserted, hfenced.attempts⟩
  have hpast : ∀ kick ∈ n.kicks, kick.time < n.clock + 1 :=
    fun kick hkick => Nat.lt_succ_of_lt (hinv.past kick hkick)
  have hadded : ∀ topic user, (act n a).kicks = n.kicks ++ [⟨topic, user, n.clock⟩] →
      (∀ conn, userOf (act n a).hub conn = some user → Fenced (step n a) n.clock conn topic) →
      KickInv (step n a) := by
    intro topic user hkicks hfenced
    refine ⟨hnode, fun kick hkick => ?_, fun kick hkick conn huser => ?_⟩
    · obtain hkick | hkick := List.mem_append.mp (hkicks ▸ hkick)
      · exact hpast kick hkick
      · obtain rfl := List.mem_singleton.mp hkick
        exact Nat.lt_succ_self _
    · obtain hkick | hkick := List.mem_append.mp (hkicks ▸ hkick)
      · exact hold kick hkick conn huser
      · obtain rfl := List.mem_singleton.mp hkick
        exact hfenced conn huser
  obtain hsame | ⟨topic, user, hkicks, hhub, htasks⟩ |
      ⟨topic, user, rfl, hmissed, hkicks, hhub, htasks⟩ := act_kicks n a
  · exact ⟨hnode, fun kick hkick => hpast kick (hsame ▸ hkick),
      fun kick hkick => hold kick (hsame ▸ hkick)⟩
  · refine hadded topic user hkicks fun conn huser => ?_
    exact kicked_fenced n (step n a) hinv.node topic user hhub htasks conn huser n.clock
  · refine hadded topic user hkicks fun conn huser => ?_
    exact missed_fenced n (step n (.lookUp topic user)) hinv.node topic user hmissed hcareful
      hhub htasks conn huser n.clock

/-- In every run whose steps are careful, every kick processed so far holds. -/
theorem kicks_hold_of_run (hasher : Topic → ℕ) (epochBase : ℕ) (onError : Error → Error)
    (acts : List Act)
    (hcareful : Meets step Careful (newNode hasher epochBase onError) acts) :
    KicksHold (run step (newNode hasher epochBase onError) acts) :=
  (guarded_run_invariant step Careful KickInv step_kickInv _ acts
    (newNode_kickInv hasher epochBase onError) hcareful).kicksHold

/-- The kick lands while `authorize` runs; the second attempt goes through. -/
def retriedRun : List Act :=
  [.other (.register 8), .other (.authenticate 1 ⟨some "u1", none⟩ 5),
    .spawn 0 1 "room:id=7" 9 64, .readMark 0, .allow 0, .kick "room:id=7" "u1", .insert 0,
    .readMark 0, .allow 0, .insert 0]

theorem kicks_hold_of_retried_run : Meets step Careful (newNode (fun _ => 0) 0 id) retriedRun ∧
    entry (run step (newNode (fun _ => 0) 0 id) retriedRun).hub 1 "room:id=7" = some true ∧
    KicksHold (run step (newNode (fun _ => 0) 0 id) retriedRun) := by
  have hcareful : Meets step Careful (newNode (fun _ => 0) 0 id) retriedRun := by
    refine ⟨trivial, ?_, trivial, trivial, trivial, trivial, trivial, trivial, trivial,
      trivial, trivial⟩
    intro kick hkick
    cases hkick
  exact ⟨hcareful, by decide, kicks_hold_of_run _ _ _ _ hcareful⟩

/-- The mark is read, a kick from another node finds no subscriber and returns, and
the insert still goes through with the old mark. -/
theorem missed_kick_not_held : ¬ KicksHold (run step (newNode (fun _ => 0) 0 id)
      [.other (.register 8), .other (.authenticate 1 ⟨some "u1", none⟩ 5),
        .spawn 0 1 "room:id=7" 9 64, .readMark 0, .allow 0, .lookUp "room:id=7" "u1",
        .insert 0]) := by
  intro hhold
  have hlate := hhold ⟨"room:id=7", "u1", 5⟩ (by decide) 1 (by decide) (by decide)
  exact absurd hlate (by decide)

end Stakit.PubsubNode
