import Stakit.PubsubHubSteps

set_option autoImplicit false

namespace Stakit.PubsubHub
open FiniteMap PubsubTopic RouterError TransitionRuns List

/-- `try_send` on one queue. -/
def offer (peer : Peer) (frame : Frame) : Peer × Bool :=
  if peer.receiving = true ∧ peer.queue.length < peer.capacity then
    ({ peer with queue := peer.queue ++ [frame] }, true)
  else (peer, false)

def offerAll : Peer → List Frame → Peer × Bool
  | peer, [] => (peer, true)
  | peer, frame :: frames =>
    ((offerAll (offer peer frame).1 frames).1,
      (offer peer frame).2 && (offerAll (offer peer frame).1 frames).2)

theorem trySend_peer (peers : ConnId → Peer) (id who : ConnId) (frame : Frame) :
    (trySend peers id frame).1 who =
      if who = id then (offer (peers who) frame).1 else peers who := by
  by_cases hwho : who = id
  · subst hwho
    unfold trySend offer
    rw [if_pos rfl]
    split_ifs
    · exact Function.update_self ..
    · rfl
  · unfold trySend
    rw [if_neg hwho]
    split_ifs
    · exact Function.update_of_ne hwho ..
    · rfl

theorem trySend_sent (peers : ConnId → Peer) (id : ConnId) (frame : Frame) :
    (trySend peers id frame).2 = (offer (peers id) frame).2 := by
  unfold trySend offer
  split_ifs <;> rfl

variable (h : Hub) (walk : List Topic) (topic : Topic) (who : ConnId) (position : Cursor)
  (peer : Peer) (frame : Frame) (frames : List Frame)

theorem offerAll_append (first second : List Frame) : offerAll peer (first ++ second) =
      ((offerAll (offerAll peer first).1 second).1,
        (offerAll peer first).2 && (offerAll (offerAll peer first).1 second).2) := by
  induction first generalizing peer with
  | nil => simp [offerAll]
  | cons frame first ih => simp [offerAll, ih, Bool.and_assoc]

theorem offer_frame : (offer peer frame).1.capacity = peer.capacity ∧
      (offer peer frame).1.receiving = peer.receiving := by
  unfold offer
  split_ifs <;> exact ⟨rfl, rfl⟩

theorem offerAll_frame : (offerAll peer frames).1.capacity = peer.capacity ∧
      (offerAll peer frames).1.receiving = peer.receiving := by
  induction frames generalizing peer with
  | nil => exact ⟨rfl, rfl⟩
  | cons frame frames ih =>
    obtain ⟨hc, hr⟩ := ih (offer peer frame).1
    obtain ⟨hc', hr'⟩ := offer_frame peer frame
    exact ⟨hc.trans hc', hr.trans hr'⟩

theorem offerAll_taken (htaken : (offerAll peer frames).2 = true) :
    (offerAll peer frames).1.queue = peer.queue ++ frames := by
  induction frames generalizing peer with
  | nil => simp [offerAll]
  | cons frame frames ih =>
    simp only [offerAll, Bool.and_eq_true] at htaken ⊢
    rw [ih _ htaken.2]
    have hone := htaken.1
    unfold offer at hone ⊢
    split_ifs at hone ⊢
    simp

theorem offerAll_room (hlive : peer.receiving = true)
    (hroom : peer.queue.length + frames.length ≤ peer.capacity) :
    (offerAll peer frames).2 = true := by
  induction frames generalizing peer with
  | nil => rfl
  | cons frame frames ih =>
    simp only [length_cons] at hroom
    have hlt : peer.queue.length < peer.capacity := by omega
    have hone : offer peer frame = ({ peer with queue := peer.queue ++ [frame] }, true) := by
      simp [offer, hlive, hlt]
    simp only [offerAll, hone, Bool.true_and]
    refine ih _ hlive ?_
    simp only [length_append, length_cons, length_nil]
    omega

/-- A queue that can take no frame at all. -/
def Shut (peer : Peer) : Prop := peer.receiving = false ∨ peer.capacity = 0

theorem offer_shut (hshut : Shut peer) : offer peer frame = (peer, false) := by
  unfold offer
  rw [if_neg]
  rintro ⟨hlive, hroom⟩
  obtain hdead | hzero := hshut
  · rw [hdead] at hlive
    cases hlive
  · omega

theorem offerAll_shut (hshut : Shut peer) (hsome : frames ≠ []) :
    (offerAll peer frames).2 = false := by
  cases frames with
  | nil => exact absurd rfl hsome
  | cons frame frames => simp [offerAll, offer_shut peer frame hshut]

def resetFrame (h : Hub) (topic : Topic) (position : Cursor) (who : ConnId) : Frame :=
  if isExplicit h who topic then .unsubscribed topic "reset" else .reset topic position

theorem resetSubscriber_peer (h : Hub) (id who : ConnId) :
    (resetSubscriber topic position h id).1.peers who =
      if who = id then (offer (h.peers who) (resetFrame h topic position who)).1
      else h.peers who := by
  change (trySend h.peers id (resetFrame h topic position id)).1 who = _
  rw [trySend_peer]
  split_ifs with hwho
  · rw [hwho]
  · rfl

theorem resetSubscriber_slow (h : Hub) (id : ConnId) : (resetSubscriber topic position h id).2 =
      if (offer (h.peers id) (resetFrame h topic position id)).2 then [] else [id] := by
  change (if (trySend h.peers id (resetFrame h topic position id)).2 then [] else [id]) = _
  rw [trySend_sent]

theorem resetSubscriber_isExplicit (h : Hub) {id who : ConnId} (hne : who ≠ id) :
    isExplicit (resetSubscriber topic position h id).1 who topic = isExplicit h who topic := by
  unfold isExplicit
  rw [resetSubscriber_byId]
  cases h.byId.lookup who <;> simp [hne]

theorem resetEach_peer (h : Hub) {ids : List ConnId} (hnodup : ids.Nodup) (who : ConnId) :
    (resetEach topic position h ids).1.peers who =
      (if who ∈ ids then (offer (h.peers who) (resetFrame h topic position who)).1
        else h.peers who) ∧
    (who ∈ (resetEach topic position h ids).2 ↔
      who ∈ ids ∧ (offer (h.peers who) (resetFrame h topic position who)).2 = false) := by
  induction ids generalizing h with
  | nil => simp [resetEach]
  | cons id ids ih =>
    obtain ⟨hout, hrest⟩ := nodup_cons.mp hnodup
    obtain ⟨hpeer, hslow⟩ := ih (resetSubscriber topic position h id).1 hrest
    change (resetEach topic position (resetSubscriber topic position h id).1 ids).1.peers who = _ ∧
      (who ∈ (resetSubscriber topic position h id).2 ++
        (resetEach topic position (resetSubscriber topic position h id).1 ids).2 ↔ _)
    rw [hpeer, mem_append, hslow, resetSubscriber_slow, resetSubscriber_peer]
    by_cases hwho : who = id
    · subst hwho
      cases hsent : (offer (h.peers who) (resetFrame h topic position who)).2 <;> simp [hout]
    · have hframe : resetFrame (resetSubscriber topic position h id).1 topic position who =
          resetFrame h topic position who := by
        unfold resetFrame
        rw [resetSubscriber_isExplicit topic position h hwho]
      have hnot : who ∉ if (offer (h.peers id) (resetFrame h topic position id)).2 then []
          else [id] := by
        split_ifs <;> simp [hwho]
      simp [hwho, hframe, hnot]

def resetFrames : Hub → List Topic → ConnId → List Frame
  | _, [], _ => []
  | h, topic :: walk, who =>
    (if who ∈ subscriberIds h topic then [resetFrame h topic ⟨newEpoch h, 0⟩ who] else []) ++
      resetFrames (resetTopic h topic).1 walk who

theorem resetTopic_peer : (resetTopic h topic).1.peers who =
      (offerAll (h.peers who)
        (if who ∈ subscriberIds h topic then [resetFrame h topic ⟨newEpoch h, 0⟩ who] else [])).1 ∧
    (who ∈ (resetTopic h topic).2 ↔ (offerAll (h.peers who)
        (if who ∈ subscriberIds h topic then [resetFrame h topic ⟨newEpoch h, 0⟩ who]
          else [])).2 = false) := by
  obtain ⟨hnone, heq⟩ | ⟨state, hstate, heq⟩ := resetTopic_cases h topic
  · rw [heq]
    simp [subscriberIds, hnone, offerAll]
  · rw [heq, subscriberIds_of_lookup h topic state hstate]
    obtain ⟨hpeer, hslow⟩ := resetEach_peer topic ⟨newEpoch h, 0⟩ (resetOpened h topic)
      state.distinct who
    refine ⟨hpeer.trans ?_, hslow.trans ?_⟩
    · change (if who ∈ state.subscribers then
        (offer (h.peers who) (resetFrame h topic ⟨newEpoch h, 0⟩ who)).1 else h.peers who) = _
      split_ifs <;> rfl
    · change who ∈ state.subscribers ∧
        (offer (h.peers who) (resetFrame h topic ⟨newEpoch h, 0⟩ who)).2 = false ↔ _
      split_ifs with hin <;> simp [hin, offerAll]

theorem resetLocked_peer :
    (resetLocked h walk).1.peers who = (offerAll (h.peers who) (resetFrames h walk who)).1 ∧
    (who ∈ (resetLocked h walk).2 ↔
      (offerAll (h.peers who) (resetFrames h walk who)).2 = false) := by
  induction walk generalizing h with
  | nil => simp [resetLocked, resetFrames, offerAll]
  | cons topic walk ih =>
    obtain ⟨hpeer, hslow⟩ := ih (resetTopic h topic).1
    obtain ⟨hpeer', hslow'⟩ := resetTopic_peer h topic who
    change (resetLocked (resetTopic h topic).1 walk).1.peers who = _ ∧
      (who ∈ (resetTopic h topic).2 ++ (resetLocked (resetTopic h topic).1 walk).2 ↔ _)
    rw [hpeer, mem_append, hslow, hslow', hpeer', resetFrames, offerAll_append]
    refine ⟨rfl, ?_⟩
    rw [Bool.and_eq_false_iff]

theorem resetFrame_eq_unsubscribed (other : Topic) (position : Cursor) (who : ConnId) :
    resetFrame h topic position who = .unsubscribed other "reset" ↔
      topic = other ∧ entry h who topic = some true := by
  have hexp := isExplicit_iff h who topic
  unfold resetFrame
  split_ifs with hflag
  · simp [hexp.mp hflag]
  · have hnot : entry h who topic ≠ some true := fun hentry => hflag (hexp.mpr hentry)
    simp [hnot]

theorem resetFrames_count (hnodup : walk.Nodup) (topic : Topic) (who : ConnId) :
    (resetFrames h walk who).count (.unsubscribed topic "reset") =
      if topic ∈ walk ∧ who ∈ subscriberIds h topic ∧ entry h who topic = some true then 1
      else 0 := by
  induction walk generalizing h with
  | nil => simp [resetFrames]
  | cons other walk ih =>
    obtain ⟨hout, hrest⟩ := nodup_cons.mp hnodup
    have hframe := resetFrame_eq_unsubscribed h other topic ⟨newEpoch h, 0⟩ who
    rw [resetFrames, count_append, ih _ hrest]
    simp only [mem_subscriberIds_resetTopic, resetTopic_entry, mem_cons]
    by_cases hother : topic = other
    · subst hother
      simp only [true_or, true_and, hout, false_and, if_false, Nat.add_zero]
      by_cases hin : who ∈ subscriberIds h topic
      · by_cases hflag : entry h who topic = some true
        · simp [hin, hflag, hframe.mpr]
        · have hne : resetFrame h topic ⟨newEpoch h, 0⟩ who ≠ .unsubscribed topic "reset" :=
            fun heq => hflag (hframe.mp heq).2
          simp [hin, hflag, hne]
      · simp [hin]
    · have hzero : (if who ∈ subscriberIds h other then [resetFrame h other ⟨newEpoch h, 0⟩ who]
          else []).count (.unsubscribed topic "reset") = 0 := by
        rw [count_eq_zero]
        split_ifs
        · simp only [mem_singleton]
          intro heq
          exact hother (hframe.mp heq.symm).1.symm
        · simp
      rw [hzero]
      simp [hother]

theorem resetFrames_length (hnodup : walk.Nodup) (who : ConnId) : (resetFrames h walk who).length =
      (walk.filter (fun topic => decide (who ∈ subscriberIds h topic))).length := by
  induction walk generalizing h with
  | nil => rfl
  | cons topic walk ih =>
    obtain ⟨hout, hrest⟩ := nodup_cons.mp hnodup
    have hsame : walk.filter
        (fun other => decide (who ∈ subscriberIds (resetTopic h topic).1 other)) =
        walk.filter (fun other => decide (who ∈ subscriberIds h other)) := by
      refine filter_congr fun other hin => ?_
      have hne : other ≠ topic := fun heq => hout (heq ▸ hin)
      rw [decide_eq_decide, mem_subscriberIds_resetTopic]
      simp [hne]
    rw [resetFrames, length_append, ih _ hrest, hsame, filter_cons]
    by_cases hin : who ∈ subscriberIds h topic
    · simp [hin, Nat.add_comm]
    · simp [hin]

end Stakit.PubsubHub
