import Stakit.PubsubHubEffects

set_option autoImplicit false

namespace Stakit.PubsubHub
open FiniteMap PubsubTopic RouterError

/-- Connections only lost subscriptions. -/
def Prunes (h h' : Hub) : Prop :=
  ∀ who, ∃ topics : List Topic,
    h'.byId.lookup who = (h.byId.lookup who).map (fun conn => topics.foldl forgetTopic conn)

variable (h : Hub) (walk : List Topic) (topic : Topic) (state : TopicState) (position : Cursor)
  (other : Topic) (who : ConnId)

theorem Prunes.refl : Prunes h h := fun who => ⟨[], by simp⟩

theorem Prunes.trans {h h' h'' : Hub} (a : Prunes h h') (b : Prunes h' h'') : Prunes h h'' := by
  intro who
  obtain ⟨first, hfirst⟩ := a who
  obtain ⟨second, hsecond⟩ := b who
  refine ⟨first ++ second, ?_⟩
  rw [hsecond, hfirst, Option.map_map]
  congr 1
  funext conn
  simp

theorem foldl_forgetTopic_identity (topics : List Topic) (conn : Conn) :
    SameIdentity conn (topics.foldl forgetTopic conn) := by
  induction topics generalizing conn with
  | nil => exact ⟨rfl, rfl, rfl⟩
  | cons topic topics ih =>
    obtain ⟨ha, hu, hd⟩ := ih (forgetTopic conn topic)
    obtain ⟨ha', hu', hd'⟩ := forgetTopic_identity conn topic
    exact ⟨ha.trans ha', hu.trans hu', hd.trans hd'⟩

theorem Prunes.lookup {h h' : Hub} (a : Prunes h h') (who : ConnId) (conn' : Conn)
    (hconn' : h'.byId.lookup who = some conn') :
    ∃ conn, ∃ topics : List Topic,
      h.byId.lookup who = some conn ∧ conn' = topics.foldl forgetTopic conn := by
  obtain ⟨topics, htopics⟩ := a who
  rw [hconn'] at htopics
  obtain ⟨conn, hconn, heq⟩ := Option.map_eq_some_iff.mp htopics.symm
  exact ⟨conn, topics, hconn, heq.symm⟩

theorem Prunes.userOf {h h' : Hub} (a : Prunes h h') (who : ConnId) :
    userOf h' who = userOf h who := by
  unfold PubsubHub.userOf
  obtain ⟨topics, htopics⟩ := a who
  rw [htopics]
  cases h.byId.lookup who with
  | none => rfl
  | some conn => exact (foldl_forgetTopic_identity topics conn).2.1

theorem kickEach_prunes (user : String) (h : Hub) (ids : List ConnId) :
    Prunes h (kickEach topic user h ids).1 := by
  intro who
  by_cases hkicked : who ∈ ids ∧ userOf h who = some user
  · refine ⟨[topic], ?_⟩
    rw [kickEach_byId]
    cases hconn : h.byId.lookup who with
    | none => rfl
    | some conn =>
      have huser : conn.user = some user := by simpa [userOf, hconn] using hkicked.2
      simp [hkicked.1, huser]
  · refine ⟨[], ?_⟩
    rw [kickEach_byId]
    cases hconn : h.byId.lookup who with
    | none => rfl
    | some conn =>
      have hnot : ¬ (who ∈ ids ∧ conn.user = some user) := by simpa [userOf, hconn] using hkicked
      simp [hnot]

theorem resetSubscriber_byId (h : Hub) (id who : ConnId) :
    (resetSubscriber topic position h id).1.byId.lookup who = (h.byId.lookup who).map (fun conn =>
        if who = id ∧ conn.topics.lookup topic = some true then forgetTopic conn topic
        else conn) := by
  unfold resetSubscriber
  dsimp only
  cases hconn : h.byId.lookup id with
  | none =>
    have hflag : isExplicit h id topic = false := by simp [isExplicit, hconn]
    rw [hflag]
    dsimp only
    by_cases hwho : who = id
    · subst hwho
      simp [hconn]
    · simp [hwho]
  | some conn =>
    cases hflag : conn.topics.lookup topic with
    | none =>
      have hexp : isExplicit h id topic = false := by simp [isExplicit, hconn, hflag]
      rw [hexp]
      dsimp only
      by_cases hwho : who = id
      · subst hwho
        simp [hconn, hflag]
      · simp [hwho]
    | some flag =>
      have hexp : isExplicit h id topic = flag := by simp [isExplicit, hconn, hflag]
      rw [hexp]
      by_cases hwho : who = id
      · subst hwho
        cases flag with
        | false => simp [hconn, hflag]
        | true => simp [hconn, hflag, forgetTopic]
      · cases flag with
        | false | true => simp [hwho]

theorem resetSubscriber_frame (h : Hub) (id : ConnId) :
    SameCore h (resetSubscriber topic position h id).1 ∧
      (resetSubscriber topic position h id).1.index = h.index ∧
      (resetSubscriber topic position h id).1.interest = h.interest ∧
      (resetSubscriber topic position h id).1.trace = h.trace ∧
      (resetSubscriber topic position h id).1.nextEpoch = h.nextEpoch :=
  ⟨⟨rfl, rfl, rfl, rfl, rfl, rfl, rfl⟩, rfl, rfl, rfl, rfl⟩

theorem resetEach_frame (h : Hub) (ids : List ConnId) :
    SameCore h (resetEach topic position h ids).1 ∧
      (resetEach topic position h ids).1.index = h.index ∧
      (resetEach topic position h ids).1.interest = h.interest ∧
      (resetEach topic position h ids).1.trace = h.trace ∧
      (resetEach topic position h ids).1.nextEpoch = h.nextEpoch := by
  induction ids generalizing h with
  | nil => exact ⟨.refl h, rfl, rfl, rfl, rfl⟩
  | cons id ids ih =>
    obtain ⟨hc, hi, hn, ht, he⟩ := ih (resetSubscriber topic position h id).1
    exact ⟨(resetSubscriber_frame topic position h id).1.trans hc, hi, hn, ht, he⟩

theorem resetEach_byId (h : Hub) (ids : List ConnId) (who : ConnId) :
    (resetEach topic position h ids).1.byId.lookup who = (h.byId.lookup who).map (fun conn =>
        if who ∈ ids ∧ conn.topics.lookup topic = some true then forgetTopic conn topic
        else conn) := by
  induction ids generalizing h with
  | nil => simp [resetEach]
  | cons id ids ih =>
    change (resetEach topic position (resetSubscriber topic position h id).1 ids).1.byId.lookup
      who = _
    rw [ih, resetSubscriber_byId, Option.map_map]
    congr 1
    funext conn
    by_cases hwho : who = id <;> by_cases hflag : conn.topics.lookup topic = some true <;>
      simp [hwho, hflag, forgetTopic_lookup]

theorem resetTopic_cases : (h.index.lookup topic = none ∧ resetTopic h topic = (h, [])) ∨
    ∃ state, h.index.lookup topic = some state ∧ resetTopic h topic =
        ({ (resetEach topic ⟨newEpoch h, 0⟩ (resetOpened h topic) state.subscribers).1 with
            index := (resetIndex h topic state).1
            interest := (resetIndex h topic state).2 },
          (resetEach topic ⟨newEpoch h, 0⟩ (resetOpened h topic) state.subscribers).2) := by
  unfold resetTopic
  cases hstate : h.index.lookup topic with
  | none => exact .inl ⟨rfl, rfl⟩
  | some state =>
    exact .inr ⟨state, rfl, rfl⟩

theorem resetTopic_core : SameCore h (resetTopic h topic).1 := by
  obtain ⟨_, heq⟩ | ⟨state, _, heq⟩ := resetTopic_cases h topic
  · rw [heq]
    exact .refl h
  · rw [heq]
    have hc := (resetEach_frame topic ⟨newEpoch h, 0⟩ (resetOpened h topic) state.subscribers).1
    exact ⟨hc.1, hc.2, hc.3, hc.4, hc.5, hc.6, hc.7⟩

theorem resetTopic_byId : (resetTopic h topic).1.byId.lookup who =
      (h.byId.lookup who).map (fun conn =>
        if who ∈ subscriberIds h topic ∧ conn.topics.lookup topic = some true then
          forgetTopic conn topic
        else conn) := by
  obtain ⟨hnone, heq⟩ | ⟨state, hstate, heq⟩ := resetTopic_cases h topic
  · rw [heq]
    simp [subscriberIds, hnone]
  · rw [heq, subscriberIds_of_lookup h topic state hstate]
    exact resetEach_byId topic ⟨newEpoch h, 0⟩ (resetOpened h topic) state.subscribers who

theorem resetTopic_prunes : Prunes h (resetTopic h topic).1 := by
  intro who
  by_cases hgone : who ∈ subscriberIds h topic ∧ entry h who topic = some true
  · refine ⟨[topic], ?_⟩
    rw [resetTopic_byId]
    cases hconn : h.byId.lookup who with
    | none => rfl
    | some conn =>
      have hflag : conn.topics.lookup topic = some true := by simpa [entry, hconn] using hgone.2
      simp [hgone.1, hflag]
  · refine ⟨[], ?_⟩
    rw [resetTopic_byId]
    cases hconn : h.byId.lookup who with
    | none => rfl
    | some conn =>
      have hnot : ¬ (who ∈ subscriberIds h topic ∧ conn.topics.lookup topic = some true) := by
        simpa [entry, hconn] using hgone
      simp [hnot]

theorem resetTopic_entry : entry (resetTopic h topic).1 who other =
      if other = topic ∧ who ∈ subscriberIds h topic ∧ entry h who topic = some true then none
      else entry h who other := by
  unfold entry
  rw [resetTopic_byId]
  cases hconn : h.byId.lookup who with
  | none => simp
  | some conn =>
    simp only [Option.map_some, Option.bind_some]
    by_cases hgone : who ∈ subscriberIds h topic ∧ conn.topics.lookup topic = some true
    · rw [if_pos hgone, forgetTopic_lookup]
      simp [hgone]
    · rw [if_neg hgone]
      simp only [hgone, and_false, if_false]

theorem resetIndex_lookup_ne (state : TopicState) (hne : other ≠ topic) :
    (resetIndex h topic state).1.lookup other = h.index.lookup other := by
  unfold resetIndex
  dsimp only
  split_ifs
  · exact AList.lookup_erase_ne hne
  · exact AList.lookup_insert_ne hne

theorem resetIndex_lookup_self : (resetIndex h topic state).1.lookup topic =
      if (keptSubscribers h topic state ⟨newEpoch h, 0⟩).subscribers = [] then none
      else some (keptSubscribers h topic state ⟨newEpoch h, 0⟩) := by
  unfold resetIndex
  dsimp only
  split_ifs
  · exact AList.lookup_erase topic h.index
  · exact AList.lookup_insert h.index

theorem mem_keptSubscribers : who ∈ (keptSubscribers h topic state position).subscribers ↔
      who ∈ state.subscribers ∧ entry h who topic ≠ some true := by
  have hexp := isExplicit_iff h who topic
  simp [keptSubscribers, ← hexp]

theorem mem_subscriberIds_resetTopic : who ∈ subscriberIds (resetTopic h topic).1 other ↔
      who ∈ subscriberIds h other ∧ ¬ (other = topic ∧ entry h who topic = some true) := by
  obtain ⟨hnone, heq⟩ | ⟨state, hstate, heq⟩ := resetTopic_cases h topic
  · rw [heq]
    by_cases hother : other = topic
    · subst hother
      simp [subscriberIds, hnone]
    · simp [hother]
  · rw [heq]
    unfold subscriberIds
    dsimp only
    by_cases hother : other = topic
    · subst hother
      have hkept := mem_keptSubscribers h other state ⟨newEpoch h, 0⟩ who
      rw [resetIndex_lookup_self, hstate]
      split_ifs with hempty
      · rw [hempty] at hkept
        simpa using hkept
      · simpa using hkept
    · rw [resetIndex_lookup_ne h topic other state hother]
      simp [hother]

theorem resetTopic_occupied (hocc : Occupied h.index h.interest) :
    Occupied (resetTopic h topic).1.index (resetTopic h topic).1.interest := by
  obtain ⟨_, heq⟩ | ⟨state, hstate, heq⟩ := resetTopic_cases h topic
  · rw [heq]
    exact hocc
  · rw [heq]
    dsimp only
    constructor
    · intro other found hfound
      by_cases hother : other = topic
      · subst hother
        rw [resetIndex_lookup_self] at hfound
        split_ifs at hfound with hempty
        simp only [Option.some.injEq] at hfound
        rw [← hfound]
        exact hempty
      · rw [resetIndex_lookup_ne h topic other state hother] at hfound
        exact hocc.nonempty other found hfound
    · intro other
      unfold resetIndex
      dsimp only
      split_ifs
      · rw [Finset.mem_erase, lookup_erase_ite, hocc.interested]
        by_cases hother : other = topic <;> simp [hother]
      · rw [lookup_insert_ite, hocc.interested]
        by_cases hother : other = topic
        · subst hother
          simp [hstate]
        · simp [hother]

theorem resetLocked_core : SameCore h (resetLocked h walk).1 := by
  induction walk generalizing h with
  | nil => exact .refl h
  | cons topic walk ih => exact (resetTopic_core h topic).trans (ih _)

theorem resetLocked_prunes : Prunes h (resetLocked h walk).1 := by
  induction walk generalizing h with
  | nil => exact .refl h
  | cons topic walk ih => exact (resetTopic_prunes h topic).trans (ih _)

theorem resetLocked_occupied (hocc : Occupied h.index h.interest) :
    Occupied (resetLocked h walk).1.index (resetLocked h walk).1.interest := by
  induction walk generalizing h with
  | nil => exact hocc
  | cons topic walk ih => exact ih _ (resetTopic_occupied h topic hocc)

theorem mem_subscriberIds_resetLocked : who ∈ subscriberIds (resetLocked h walk).1 other ↔
      who ∈ subscriberIds h other ∧ ¬ (other ∈ walk ∧ entry h who other = some true) := by
  induction walk generalizing h with
  | nil => simp [resetLocked]
  | cons topic walk ih =>
    change who ∈ subscriberIds (resetLocked (resetTopic h topic).1 walk).1 other ↔ _
    rw [ih, mem_subscriberIds_resetTopic, resetTopic_entry, List.mem_cons]
    by_cases hother : other = topic
    · subst hother
      by_cases hin : who ∈ subscriberIds h other ∧ entry h who other = some true
      · simp [hin]
      · simp only [true_and, hin, if_false]
        tauto
    · simp [hother]

theorem resetLocked_entry : entry (resetLocked h walk).1 who other =
      if other ∈ walk ∧ who ∈ subscriberIds h other ∧ entry h who other = some true then none
      else entry h who other := by
  induction walk generalizing h with
  | nil => simp [resetLocked]
  | cons topic walk ih =>
    change entry (resetLocked (resetTopic h topic).1 walk).1 who other = _
    rw [ih, resetTopic_entry]
    by_cases hother : other = topic
    · subst hother
      by_cases hgone : who ∈ subscriberIds h other ∧ entry h who other = some true
      · simp [hgone]
      · have hmem := mem_subscriberIds_resetTopic h other other who
        have hnot : ¬ (other ∈ walk ∧ who ∈ subscriberIds (resetTopic h other).1 other ∧
            entry h who other = some true) := by
          rw [hmem]
          tauto
        simp only [hgone, and_false, if_false, if_neg hnot]
    · simp [hother, mem_subscriberIds_resetTopic]

theorem bumpAll_same : ∃ revocations, bumpAll h = { h with revocations := revocations } := by
  unfold bumpAll
  generalize List.range revocationSlots = slots
  induction slots generalizing h with
  | nil => exact ⟨h.revocations, rfl⟩
  | cons s slots ih =>
    obtain ⟨revocations, heq⟩ := ih (bumpSlot h s)
    exact ⟨revocations, heq⟩

end Stakit.PubsubHub
