import Stakit.PubsubHubQueues
import Stakit.PubsubNodeFences

set_option autoImplicit false

namespace Stakit.PubsubHub
open FiniteMap PubsubTopic RouterError TransitionRuns

variable (h : Hub) (walk : List Topic) (topic : Topic)

theorem resetTopic_nextEpoch : h.nextEpoch ≤ (resetTopic h topic).1.nextEpoch ∧
      ((h.index.lookup topic).isSome = true →
        (resetTopic h topic).1.nextEpoch = h.nextEpoch + 1) := by
  obtain ⟨hnone, heq⟩ | ⟨state, hstate, heq⟩ := resetTopic_cases h topic
  · rw [heq, hnone]
    exact ⟨le_refl _, nofun⟩
  · rw [heq]
    have hframe := (resetEach_frame topic ⟨newEpoch h, 0⟩ (resetOpened h topic)
      state.subscribers).2.2.2.2
    refine ⟨?_, fun _ => hframe⟩
    change h.nextEpoch ≤ (resetEach topic ⟨newEpoch h, 0⟩ (resetOpened h topic)
      state.subscribers).1.nextEpoch
    rw [hframe]
    exact Nat.le_succ _

theorem resetLocked_nextEpoch : h.nextEpoch ≤ (resetLocked h walk).1.nextEpoch := by
  induction walk generalizing h with
  | nil => exact le_refl _
  | cons topic walk ih => exact (resetTopic_nextEpoch h topic).1.trans (ih _)

theorem resetTopic_lookup_ne {other : Topic} (hne : other ≠ topic) :
    (resetTopic h topic).1.index.lookup other = h.index.lookup other := by
  obtain ⟨_, heq⟩ | ⟨state, _, heq⟩ := resetTopic_cases h topic
  · rw [heq]
  · rw [heq]
    exact resetIndex_lookup_ne h topic other state hne

theorem resetLocked_lookup_ne {other : Topic} (hout : other ∉ walk) :
    (resetLocked h walk).1.index.lookup other = h.index.lookup other := by
  induction walk generalizing h with
  | nil => rfl
  | cons topic walk ih =>
    rw [List.mem_cons, not_or] at hout
    exact (ih (resetTopic h topic).1 hout.2).trans (resetTopic_lookup_ne h topic hout.1)

theorem resetTopic_cursor {state : TopicState}
    (hafter : (resetTopic h topic).1.index.lookup topic = some state) :
    (h.index.lookup topic).isSome = true ∧ state.cursor = ⟨newEpoch h, 0⟩ := by
  obtain ⟨hnone, heq⟩ | ⟨before, hbefore, heq⟩ := resetTopic_cases h topic
  · rw [heq, hnone] at hafter
    cases hafter
  · rw [heq] at hafter
    dsimp only at hafter
    rw [resetIndex_lookup_self] at hafter
    split_ifs at hafter
    rw [← Option.some.inj hafter, hbefore]
    exact ⟨rfl, rfl⟩

theorem resetLocked_cursor (hin : topic ∈ walk) {state : TopicState}
    (hafter : (resetLocked h walk).1.index.lookup topic = some state) :
    ∃ call, h.nextEpoch ≤ call ∧ call < (resetLocked h walk).1.nextEpoch ∧
      state.cursor = ⟨epochAt h.epochBase call, 0⟩ := by
  induction walk generalizing h with
  | nil => cases hin
  | cons other walk ih =>
    change (resetLocked (resetTopic h other).1 walk).1.index.lookup topic = some state at hafter
    change ∃ call, h.nextEpoch ≤ call ∧
      call < (resetLocked (resetTopic h other).1 walk).1.nextEpoch ∧ _
    by_cases hlater : topic ∈ walk
    · obtain ⟨call, hfrom, hto, hcursor⟩ := ih (resetTopic h other).1 hlater hafter
      rw [(resetTopic_core h other).epochBase] at hcursor
      exact ⟨call, (resetTopic_nextEpoch h other).1.trans hfrom, hto, hcursor⟩
    · obtain rfl : topic = other := (List.mem_cons.mp hin).resolve_right hlater
      rw [resetLocked_lookup_ne _ _ hlater] at hafter
      obtain ⟨hsome, hcursor⟩ := resetTopic_cursor h topic hafter
      have hnext := (resetTopic_nextEpoch h topic).2 hsome
      have hlate := resetLocked_nextEpoch (resetTopic h topic).1 walk
      exact ⟨h.nextEpoch, le_refl _, by omega, hcursor⟩

end Stakit.PubsubHub

namespace Stakit.PubsubNode
open FiniteMap PubsubTopic RouterError PubsubHub TransitionRuns
open Function (update_self update_of_ne update)

structure ResetInv (n : Node) : Prop where
  node : NodeInv n
  past : ∀ reset, ∀ k ∈ (n.resets reset).bumps, k < n.clock
  outdated : ∀ reset i k, (n.resets reset).bumps[i]? = some k → ∀ conn topic,
    slot n.hub topic = i → Outdated n k conn topic

theorem newNode_resetInv (hasher : Topic → ℕ) (epochBase : ℕ) (onError : Error → Error) :
    ResetInv (newNode hasher epochBase onError) where
  node := newNode_inv hasher epochBase onError
  past reset k hk := by cases hk
  outdated reset i k hk := by simp [newNode] at hk

variable (n : Node) (a : Act) (reset : ℕ) (order : List Topic)

theorem act_resets : (act n a).resets = n.resets ∨
    (∃ reset, a = .bump reset ∧ (n.resets reset).bumps.length < revocationSlots ∧
      (act n a).resets = update n.resets reset
        { n.resets reset with bumps := (n.resets reset).bumps ++ [n.clock] } ∧
      (act n a).hub = bumpSlot n.hub (n.resets reset).bumps.length ∧
      (act n a).tasks = n.tasks) ∨
    (∃ reset order, a = .walk reset order ∧ MayWalk n reset order ∧
      (act n a).resets = update n.resets reset
        { n.resets reset with walked := true, slow := (resetLocked n.hub order).2 }) ∨
    ∃ reset id rest, a = .closeSlow reset ∧ (n.resets reset).slow = id :: rest ∧
      (act n a).resets = update n.resets reset { n.resets reset with slow := rest } ∧
      (act n a).hub = close n.hub id .slowConsumer := by
  cases a with
  | bump reset =>
    by_cases hmore : (n.resets reset).bumps.length < revocationSlots
    · refine .inr (.inl ⟨reset, rfl, hmore, ?_, ?_, ?_⟩) <;>
        simp only [act, bumpReset, hmore, if_true]
    · exact .inl (by simp only [act, bumpReset, hmore, if_false])
  | walk reset order =>
    by_cases hmay : MayWalk n reset order
    · refine .inr (.inr (.inl ⟨reset, order, rfl, hmay, ?_⟩))
      simp only [act, walkReset, hmay, if_true]
    · exact .inl (by simp only [act, walkReset, hmay, if_false])
  | closeSlow reset =>
    cases hslow : (n.resets reset).slow with
    | nil => exact .inl (by simp only [act, closeReset, hslow])
    | cons id rest =>
      refine .inr (.inr (.inr ⟨reset, id, rest, rfl, hslow, ?_, ?_⟩)) <;>
        simp only [act, closeReset, hslow]
  | finish task =>
    refine .inl ?_
    change (finishTask n task).resets = _
    unfold finishTask
    dsimp only
    split <;> rfl
  | kick topic user => exact .inl rfl
  | spawn task conn topic frameId max | lookUp topic user | deliver topic user | other s =>
    refine .inl ?_
    unfold act
    dsimp only
    split_ifs <;> rfl
  | _ =>
    refine .inl ?_
    unfold act
    dsimp only
    split <;> rfl

theorem act_bumps : ((act n a).resets reset).bumps = (n.resets reset).bumps ∨
    (((act n a).resets reset).bumps = (n.resets reset).bumps ++ [n.clock] ∧
      (act n a).hub = bumpSlot n.hub (n.resets reset).bumps.length ∧
      (act n a).tasks = n.tasks) := by
  obtain heq | ⟨other, _, _, heq, hhub, htasks⟩ | ⟨other, _, _, _, heq⟩ | ⟨other, _, _, _, _, heq, _⟩ :=
    act_resets n a
  · exact .inl (by rw [heq])
  · by_cases hother : reset = other
    · subst hother
      refine .inr ⟨?_, hhub, htasks⟩
      rw [heq, update_self]
    · exact .inl (by rw [heq, update_of_ne hother])
  · by_cases hother : reset = other
    · subst hother
      exact .inl (by rw [heq, update_self])
    · exact .inl (by rw [heq, update_of_ne hother])
  · by_cases hother : reset = other
    · subst hother
      exact .inl (by rw [heq, update_self])
    · exact .inl (by rw [heq, update_of_ne hother])

theorem act_slot (topic : Topic) : slot (act n a).hub topic = slot n.hub topic := by
  unfold slot
  rw [(act_advances n a).hasher]

theorem bump_outdates {n' : Node} (hinv : NodeInv n) {i : ℕ} (hhub : n'.hub = bumpSlot n.hub i)
    (htasks : n'.tasks = n.tasks) (k : ℕ) (conn : ConnId) {topic : Topic}
    (hslot : slot n.hub topic = i) : Outdated n' k conn topic := by
  intro task mark readAt _ htopic hflight
  rw [htasks] at htopic hflight
  rw [hhub]
  refine .inr (stale_of_bump n hinv _ topic ?_ htopic hflight)
  change n.hub.revocations (slot n.hub topic) <
    update n.hub.revocations i _ (slot n.hub topic)
  rw [hslot, update_self]
  exact Nat.lt_succ_self _

theorem step_resetInv (hinv : ResetInv n) : ResetInv (step n a) := by
  refine ⟨step_inv n a hinv.node, fun reset k hk => ?_, fun reset i k hk conn topic hslot => ?_⟩
  · change k < n.clock + 1
    obtain hsame | ⟨hbumps, _⟩ := act_bumps n a reset
    · have := hinv.past reset k (hsame ▸ hk)
      omega
    · obtain hk | hk := List.mem_append.mp (hbumps ▸ hk)
      · have := hinv.past reset k hk
        omega
      · have := List.mem_singleton.mp hk
        omega
  · have hslot' : slot n.hub topic = i := (act_slot n a topic).symm.trans hslot
    have hold : ∀ k, (n.resets reset).bumps[i]? = some k → Outdated (step n a) k conn topic := by
      intro k hk
      exact step_outdated n a (hinv.past reset k (List.mem_of_getElem? hk))
        (hinv.outdated reset i k hk conn topic hslot')
    obtain hsame | ⟨hbumps, hhub, htasks⟩ := act_bumps n a reset
    · exact hold k (hsame ▸ hk)
    · have hk' : ((n.resets reset).bumps ++ [n.clock])[i]? = some k := hbumps ▸ hk
      by_cases hi : i < (n.resets reset).bumps.length
      · rw [List.getElem?_append_left hi] at hk'
        exact hold k hk'
      · have hi' : i = (n.resets reset).bumps.length := by
          have hlt := (List.getElem?_eq_some_iff.mp hk').1
          simp only [List.length_append, List.length_cons, List.length_nil] at hlt
          omega
        exact bump_outdates n hinv.node (hi' ▸ hhub) htasks k conn hslot'

theorem run_resetInv (acts : List Act) (hinv : ResetInv n) : ResetInv (run step n acts) :=
  run_invariant step ResetInv step_resetInv n acts hinv

theorem walk_hub (hmay : MayWalk n reset order) :
    (step n (.walk reset order)).hub = (resetLocked n.hub order).1 ∧
      ((step n (.walk reset order)).resets reset).slow = (resetLocked n.hub order).2 ∧
      ((step n (.walk reset order)).resets reset).walked = true := by
  refine ⟨?_, ?_, ?_⟩
  · simp only [step, act, walkReset, hmay, if_true]
  · simp only [step, act, walkReset, hmay, if_true, update_self]
  · simp only [step, act, walkReset, hmay, if_true, update_self]

theorem mem_order (hmay : MayWalk n reset order) (hinv : IndexInv n.hub) {conn : ConnId}
    {topic : Topic} {flag : Bool} (hentry : entry n.hub conn topic = some flag) :
    topic ∈ order ∧ conn ∈ subscriberIds n.hub topic := by
  have hmem : conn ∈ subscriberIds n.hub topic := (hinv.members conn topic).mpr (by simp [hentry])
  obtain ⟨state, hstate, _⟩ := lookup_of_mem_subscriberIds n.hub topic hmem
  refine ⟨?_, hmem⟩
  rw [hmay.2.2.mem_iff]
  exact mem_keys_of_lookup n.hub.index topic state hstate

theorem walk_drops (hmay : MayWalk n reset order) (hinv : IndexInv n.hub) (conn : ConnId)
    (topic : Topic) : entry (step n (.walk reset order)).hub conn topic ≠ some true := by
  intro hafter
  rw [(walk_hub n reset order hmay).1, resetLocked_entry] at hafter
  split_ifs at hafter with hgone
  obtain ⟨hin, hmem⟩ := mem_order n reset order hmay hinv hafter
  exact hgone ⟨hin, hmem, hafter⟩

theorem walk_fenced (hmay : MayWalk n reset order) (hinv : ResetInv n) (conn : ConnId)
    (topic : Topic) :
    ∃ k, (n.resets reset).bumps[slot n.hub topic]? = some k ∧ k < n.clock ∧
      Fenced (step n (.walk reset order)) k conn topic := by
  have hlt : slot n.hub topic < (n.resets reset).bumps.length := by
    rw [hmay.1]
    exact Nat.mod_lt _ (by decide)
  have hk := List.getElem?_eq_getElem hlt
  have hpast := hinv.past reset _ (List.mem_of_getElem? hk)
  refine ⟨_, hk, hpast, ?_, ?_⟩
  · intro hafter
    exact absurd hafter (walk_drops n reset order hmay hinv.node.index conn topic)
  · exact step_outdated n _ hpast (hinv.outdated reset _ _ hk conn topic rfl)

theorem run_gone (h : Hub) (sections : List Section) (conn : ConnId) (hold : conn < h.nextConn)
    (hgone : identityOf h conn = none) :
    conn < (run PubsubHub.step h sections).nextConn ∧
      identityOf (run PubsubHub.step h sections) conn = none := by
  induction sections generalizing h with
  | nil => exact ⟨hold, hgone⟩
  | cons s sections ih =>
    exact ih (PubsubHub.step h s) (hold.trans_le (step_nextConn h s))
      (step_identity_gone h s conn hold hgone)

theorem act_gone {conn : ConnId} (hold : conn < n.hub.nextConn)
    (hgone : identityOf n.hub conn = none) : identityOf (act n a).hub conn = none := by
  obtain ⟨s, _, hhub⟩ | ⟨sections, hhub, _⟩ := act_hub n a
  · rw [hhub]
    exact step_identity_gone n.hub s conn hold hgone
  · rw [hhub]
    exact (run_gone n.hub sections conn hold hgone).2

theorem act_slow (hwalked : (n.resets reset).walked = true) (conn : ConnId) :
    ((act n a).resets reset).walked = true ∧ (conn ∈ (n.resets reset).slow →
        conn ∈ ((act n a).resets reset).slow ∨ identityOf (act n a).hub conn = none) := by
  obtain heq | ⟨other, _, _, heq, _⟩ | ⟨other, _, _, hmay, heq⟩ |
      ⟨other, id, rest, _, hslow, heq, hhub⟩ := act_resets n a
  · rw [heq]
    exact ⟨hwalked, .inl⟩
  · rw [heq]
    by_cases hother : reset = other
    · subst hother
      rw [update_self]
      exact ⟨hwalked, .inl⟩
    · rw [update_of_ne hother]
      exact ⟨hwalked, .inl⟩
  · rw [heq]
    by_cases hother : reset = other
    · subst hother
      rw [hmay.2.1] at hwalked
      cases hwalked
    · rw [update_of_ne hother]
      exact ⟨hwalked, .inl⟩
  · rw [heq]
    by_cases hother : reset = other
    · subst hother
      rw [update_self]
      refine ⟨hwalked, fun hin => ?_⟩
      rw [hslow, List.mem_cons] at hin
      obtain rfl | hin := hin
      · refine .inr ?_
        rw [hhub, identityOf_none, close_byId, if_pos rfl]
      · exact .inl hin
    · rw [update_of_ne hother]
      exact ⟨hwalked, .inl⟩

theorem run_slow (acts : List Act) {reset : ℕ} {conn : ConnId}
    (hwalked : (n.resets reset).walked = true) (hold : conn < n.hub.nextConn)
    (hin : conn ∈ (n.resets reset).slow ∨ identityOf n.hub conn = none) :
    conn ∈ ((run step n acts).resets reset).slow ∨
      identityOf (run step n acts).hub conn = none := by
  induction acts generalizing n with
  | nil => exact hin
  | cons a acts ih =>
    obtain ⟨hwalked', hkept⟩ := act_slow n a reset hwalked conn
    refine ih (step n a) hwalked' (hold.trans_le (act_advances n a).nextConn) ?_
    obtain hin | hgone := hin
    · exact hkept hin
    · exact .inr (act_gone n a hold hgone)

/-- A dropped subscriber got exactly one frame that says so, or is on the list of
connections the reset closes. -/
theorem walk_told (hmay : MayWalk n reset order) (hinv : IndexInv n.hub) {conn : ConnId}
    {topic : Topic} (hentry : entry n.hub conn topic = some true) :
    conn ∈ ((step n (.walk reset order)).resets reset).slow ∨
    ∃ frames, ((step n (.walk reset order)).hub.peers conn).queue =
        (n.hub.peers conn).queue ++ frames ∧
      frames.count (.unsubscribed topic "reset") = 1 := by
  obtain ⟨hhub, hslow, _⟩ := walk_hub n reset order hmay
  obtain ⟨hpeer, hrefused⟩ := resetLocked_peer n.hub order conn
  rw [hhub, hslow, hrefused, hpeer]
  cases htaken : (offerAll (n.hub.peers conn) (resetFrames n.hub order conn)).2 with
  | false => exact .inl rfl
  | true =>
    obtain ⟨hin, hmem⟩ := mem_order n reset order hmay hinv hentry
    have hnodup : order.Nodup := hmay.2.2.nodup_iff.mpr n.hub.index.keys_nodup
    refine .inr ⟨_, offerAll_taken _ _ htaken, ?_⟩
    rw [resetFrames_count n.hub order hnodup, if_pos ⟨hin, hmem, hentry⟩]

/-- After the walk of a reset, in every interleaving: each explicit subscription,
now or later, was inserted with a mark read after its slot was bumped; the walk
kept the other subscriptions and gave each surviving topic a fresh epoch; and each
dropped subscriber was told once, or is closed as the reset goes on. -/
theorem reset_reauthorizes (hasher : Topic → ℕ) (epochBase : ℕ) (onError : Error → Error)
    (before after : List Act) (reset : ℕ) (order : List Topic)
    (hmay : MayWalk (run step (newNode hasher epochBase onError) before) reset order) :
    let n := run step (newNode hasher epochBase onError) before
    let walked := step n (.walk reset order)
    let later := run step walked after
    (∀ conn topic, entry later.hub conn topic = some true →
      ∃ k, (n.resets reset).bumps[slot n.hub topic]? = some k ∧ k < later.stamps conn topic) ∧
    (∀ conn topic, entry n.hub conn topic = some false → entry walked.hub conn topic = some false) ∧
    (∀ topic state, walked.hub.index.lookup topic = some state →
      ∃ call, n.hub.nextEpoch ≤ call ∧ call < walked.hub.nextEpoch ∧
        state.cursor = ⟨epochAt n.hub.epochBase call, 0⟩) ∧
    ∀ conn topic, entry n.hub conn topic = some true → entry walked.hub conn topic = none ∧
      ((∃ frames, (walked.hub.peers conn).queue = (n.hub.peers conn).queue ++ frames ∧
          frames.count (.unsubscribed topic "reset") = 1) ∨
        conn ∈ (later.resets reset).slow ∨ identityOf later.hub conn = none) := by
  intro n walked later
  have hinv : ResetInv n := run_resetInv _ before (newNode_resetInv hasher epochBase onError)
  have hwalkedInv : NodeInv walked := step_inv n _ hinv.node
  obtain ⟨hhub, hslow, hdone⟩ := walk_hub n reset order hmay
  refine ⟨?_, ?_, ?_, ?_⟩
  · intro conn topic hentry
    obtain ⟨k, hk, hpast, hfenced⟩ := walk_fenced n reset order hmay hinv conn topic
    refine ⟨k, hk, ?_⟩
    exact (run_fenced walked after hwalkedInv (Nat.lt_succ_of_lt hpast) hfenced).inserted hentry
  · intro conn topic hentry
    change entry (step n (.walk reset order)).hub conn topic = _
    rw [hhub, resetLocked_entry, if_neg]
    · exact hentry
    · rintro ⟨_, _, hflag⟩
      rw [hentry] at hflag
      cases hflag
  · intro topic state hstate
    change (step n (.walk reset order)).hub.index.lookup topic = some state at hstate
    change ∃ call, _ ∧ call < (step n (.walk reset order)).hub.nextEpoch ∧ _
    rw [hhub] at hstate ⊢
    refine resetLocked_cursor n.hub order topic ?_ hstate
    by_contra hout
    rw [resetLocked_lookup_ne n.hub order hout] at hstate
    refine hout ?_
    rw [hmay.2.2.mem_iff]
    exact mem_keys_of_lookup n.hub.index topic state hstate
  · intro conn topic hentry
    obtain ⟨hin, hmem⟩ := mem_order n reset order hmay hinv.node.index hentry
    constructor
    · change entry (step n (.walk reset order)).hub conn topic = _
      rw [hhub, resetLocked_entry, if_pos ⟨hin, hmem, hentry⟩]
    · obtain hlisted | htold := walk_told n reset order hmay hinv.node.index hentry
      · obtain ⟨found, hfound⟩ := registered_of_entry n.hub conn topic hentry
        have hold : conn < walked.hub.nextConn :=
          (hinv.node.index.fresh conn found hfound).trans_le (act_advances n _).nextConn
        exact .inr (run_slow walked after hdone hold (.inl hlisted))
      · exact .inl htold

theorem run_bumps (count : ℕ) (hroom : (n.resets reset).bumps.length + count ≤ revocationSlots) :
    let bumped := run step n (List.replicate count (.bump reset))
    (bumped.resets reset).bumps.length = (n.resets reset).bumps.length + count ∧
      (bumped.resets reset).walked = (n.resets reset).walked ∧
      bumped.hub.index = n.hub.index := by
  induction count generalizing n with
  | zero => exact ⟨rfl, rfl, rfl⟩
  | succ count ih =>
    have hmore : (n.resets reset).bumps.length < revocationSlots := by omega
    have hresets : ((step n (.bump reset)).resets reset) =
        { n.resets reset with bumps := (n.resets reset).bumps ++ [n.clock] } := by
      simp only [step, act, bumpReset, hmore, if_true, update_self]
    have hindex : (step n (.bump reset)).hub.index = n.hub.index := by
      simp only [step, act, bumpReset, hmore, if_true, bumpSlot]
    have hlen : ((step n (.bump reset)).resets reset).bumps.length =
        (n.resets reset).bumps.length + 1 := by
      rw [hresets]
      simp
    obtain ⟨hbumps, hwalked, hsame⟩ := ih (step n (.bump reset)) (by omega)
    rw [List.replicate_succ, run_cons]
    refine ⟨by omega, ?_, hsame.trans hindex⟩
    rw [hwalked, hresets]

def subscribedRun : List Act :=
  [.other (.register 8), .spawn 0 1 "room:id=7" 9 64, .readMark 0, .allow 0, .insert 0]

def bumpedRun : List Act := subscribedRun ++ List.replicate revocationSlots (.bump 0)

theorem bumpedRun_mayWalk :
    MayWalk (run step (newNode (fun _ => 0) 0 id) bumpedRun) 0 ["room:id=7"] := by
  unfold bumpedRun
  rw [run_append]
  obtain ⟨hbumps, hwalked, hindex⟩ :=
    run_bumps (run step (newNode (fun _ => 0) 0 id) subscribedRun) 0 revocationSlots (by decide)
  refine ⟨?_, ?_, ?_⟩
  · rw [hbumps]
    decide
  · rw [hwalked]
    decide
  · rw [hindex]
    decide

/-- The reset walks, and the client subscribes again. -/
theorem reset_reauthorizes_bumpedRun :
    MayWalk (run step (newNode (fun _ => 0) 0 id) bumpedRun) 0 ["room:id=7"] ∧
    ∀ conn topic, entry (run step (step (run step (newNode (fun _ => 0) 0 id) bumpedRun)
        (.walk 0 ["room:id=7"]))
        [.spawn 0 1 "room:id=7" 10 64, .readMark 0, .allow 0, .insert 0]).hub conn topic =
          some true →
      ∃ k, ((run step (newNode (fun _ => 0) 0 id) bumpedRun).resets 0).bumps[slot
          (run step (newNode (fun _ => 0) 0 id) bumpedRun).hub topic]? = some k ∧
        k < (run step (step (run step (newNode (fun _ => 0) 0 id) bumpedRun)
          (.walk 0 ["room:id=7"]))
          [.spawn 0 1 "room:id=7" 10 64, .readMark 0, .allow 0, .insert 0]).stamps conn topic := by
  refine ⟨bumpedRun_mayWalk, ?_⟩
  have hreset := reset_reauthorizes (fun _ => 0) 0 id bumpedRun
    [.spawn 0 1 "room:id=7" 10 64, .readMark 0, .allow 0, .insert 0] 0 ["room:id=7"]
    bumpedRun_mayWalk
  exact hreset.1

end Stakit.PubsubNode
