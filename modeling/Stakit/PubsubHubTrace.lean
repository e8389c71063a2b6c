import Mathlib.Data.List.Range
import Stakit.PubsubHubFrames

set_option autoImplicit false

namespace Stakit.PubsubHub
open FiniteMap PubsubTopic RouterError TransitionRuns EpochStreams List
open Function (update_self update_of_ne update)

def cursorOf (h : Hub) (topic : Topic) : Option Cursor := (h.index.lookup topic).map (·.cursor)

def Follows (h : Hub) : Event → Prop
  | .opened _ position => position = ⟨newEpoch h, 0⟩
  | .published topic _ position => ∃ last, cursorOf h topic = some last ∧ position = advance last
  | .acked topic position => cursorOf h topic = some position

/-- One event, or none. Topics may go at any time. -/
inductive Move (h h' : Hub) : Prop where
  | keep (htrace : h'.trace = h.trace) (hnext : h'.nextEpoch = h.nextEpoch)
      (hbase : h'.epochBase = h.epochBase)
      (hcursor : ∀ topic position, cursorOf h' topic = some position →
        cursorOf h topic = some position)
  | event (e : Event) (hfollows : Follows h e) (htrace : h'.trace = h.trace ++ [e])
      (hnext : h'.nextEpoch = h.nextEpoch + e.opening.toList.length)
      (hbase : h'.epochBase = h.epochBase)
      (hcursor : ∀ topic position, cursorOf h' topic = some position →
        moved (cursorOf h) e topic = some position)

def Moves (h h' : Hub) : Prop := Relation.ReflTransGen Move h h'

theorem Moves.refl (h : Hub) : Moves h h := Relation.ReflTransGen.refl

theorem Moves.single {h h' : Hub} (move : Move h h') : Moves h h' :=
  Relation.ReflTransGen.single move

theorem Moves.trans {h h' h'' : Hub} (a : Moves h h') (b : Moves h' h'') : Moves h h'' :=
  Relation.ReflTransGen.trans a b

/-- The parts of the hub a move is about. -/
def streams (h : Hub) : Map Topic TopicState × List Event × ℕ × ℕ :=
  (h.index, h.trace, h.nextEpoch, h.epochBase)

theorem Moves.of_same {h h' : Hub} (hsame : streams h' = streams h) : Moves h h' := by
  simp only [streams, Prod.mk.injEq] at hsame
  obtain ⟨hindex, htrace, hnext, hbase⟩ := hsame
  refine .single (.keep htrace hnext hbase fun topic position hcursor => ?_)
  unfold cursorOf at hcursor ⊢
  rw [← hindex]
  exact hcursor

theorem Moves.trace_extends {h h' : Hub} (moves : Moves h h') : h.trace <+: h'.trace := by
  induction moves with
  | refl => exact prefix_rfl
  | tail _ move ih =>
    cases move with
    | keep htrace _ _ _ =>
      rw [htrace]
      exact ih
    | event e _ htrace _ _ _ =>
      rw [htrace]
      exact ih.trans (prefix_append _ _)

variable (trace : List Event) (h : Hub) (s : Section) (id : ConnId) (topic : Topic)

theorem cursorOf_insert (other : Topic) (state : TopicState) :
    cursorOf { h with index := h.index.insert topic state } other =
      update (cursorOf h) topic (some state.cursor) other := by
  unfold cursorOf
  dsimp only
  rw [lookup_insert_ite]
  by_cases hother : other = topic
  · rw [if_pos hother, hother, update_self]
    rfl
  · rw [if_neg hother, update_of_ne hother]

theorem ensureTopic_moves : Moves h (ensureTopic h topic) := by
  unfold ensureTopic
  split_ifs
  · exact .refl h
  · refine .single (.event (.opened topic ⟨newEpoch h, 0⟩) rfl rfl rfl rfl fun other position => ?_)
    intro hcursor
    exact (cursorOf_insert h topic other _).symm.trans hcursor

theorem subscribed_moves (conn : Conn) {topic : Topic} {state : TopicState} (request : Subscribe)
    (hstate : (ensureTopic h topic).index.lookup topic = some state) :
    Moves h (subscribed h id conn topic state request).1 := by
  have hcursor : cursorOf (ensureTopic h topic) topic = some state.cursor := by
    unfold cursorOf
    rw [hstate]
    rfl
  have hjoined : ∀ other, cursorOf (joinTopic (ensureTopic h topic) id conn topic state
      request.explicit) other = cursorOf (ensureTopic h topic) other := by
    intro other
    refine (cursorOf_insert (ensureTopic h topic) topic other (addSubscriber state id)).trans ?_
    by_cases hother : other = topic
    · rw [hother, update_self, hcursor]
      rfl
    · rw [update_of_ne hother]
  have hbefore : Moves h (if (conn.topics.lookup topic).isSome then ensureTopic h topic
      else joinTopic (ensureTopic h topic) id conn topic state request.explicit) ∧
      cursorOf (if (conn.topics.lookup topic).isSome then ensureTopic h topic
        else joinTopic (ensureTopic h topic) id conn topic state request.explicit) topic =
        some state.cursor := by
    split_ifs
    · exact ⟨ensureTopic_moves h topic, hcursor⟩
    · refine ⟨(ensureTopic_moves h topic).trans (.single (.keep rfl rfl rfl ?_)), ?_⟩
      · intro other position hother
        rw [hjoined] at hother
        exact hother
      · rw [hjoined]
        exact hcursor
  unfold subscribed
  refine hbefore.1.trans ?_
  cases request.ack with
  | none => exact .refl _
  | some ack =>
    exact .single (.event (.acked topic state.cursor) hbefore.2 rfl rfl rfl fun _ _ hcursor =>
      hcursor)

theorem subscribeLocked_moves (request : Subscribe) :
    Moves h (subscribeLocked h id topic request).1 := by
  obtain ⟨error, heq⟩ | ⟨conn, state, _, _, hstate, heq⟩ := subscribeLocked_cases h id topic request
  · rw [heq]
    exact .refl h
  · rw [heq]
    exact subscribed_moves h id conn request hstate

theorem dropFrom_cursor {index : Map Topic TopicState} {interest : Finset Topic} {topic : Topic}
    {id : ConnId} {other : Topic} {state : TopicState}
    (hstate : (dropFrom index interest topic id).1.lookup other = some state) :
    (index.lookup other).map (·.cursor) = some state.cursor := by
  by_cases hother : other = topic
  · subst hother
    rw [dropFrom_lookup_self] at hstate
    cases hbefore : index.lookup other with
    | none => simp [hbefore] at hstate
    | some before =>
      simp only [hbefore, Option.bind_some] at hstate
      split_ifs at hstate
      cases hstate
      rfl
  · rw [dropFrom_lookup_ne index interest topic other id hother] at hstate
    rw [hstate]
    rfl

theorem dropSubscriber_moves (id : ConnId) : Moves h (dropSubscriber h topic id) := by
  refine .single (.keep rfl rfl rfl fun other position hcursor => ?_)
  obtain ⟨state, hstate, hposition⟩ := Option.map_eq_some_iff.mp hcursor
  rw [← hposition]
  exact dropFrom_cursor hstate

theorem dropEach_moves (topics : List Topic) : Moves h { h with
      index := (dropEach id (h.index, h.interest) topics).1
      interest := (dropEach id (h.index, h.interest) topics).2 } := by
  induction topics generalizing h with
  | nil => exact .refl h
  | cons topic topics ih => exact (dropSubscriber_moves h topic id).trans (ih _)

theorem detachLocked_moves : Moves h (detachLocked h id).1 := by
  unfold detachLocked
  cases h.byId.lookup id with
  | none => exact .refl h
  | some conn => exact (dropEach_moves h id conn.topics.keys).trans (.of_same rfl)

theorem kickEach_moves (user : String) (h : Hub) (ids : List ConnId) :
    Moves h (kickEach topic user h ids).1 := by
  induction ids generalizing h with
  | nil => exact .refl h
  | cons id ids ih =>
    refine Moves.trans ?_ (ih (kickOne topic user h id).1)
    obtain ⟨_, heq⟩ | ⟨conn, _, _, heq⟩ := kickOne_cases topic user h id
    · rw [heq]
      exact .refl h
    · rw [heq]
      refine Moves.trans ?_ (dropSubscriber_moves _ topic id)
      exact .of_same rfl

theorem resetTopic_moves : Moves h (resetTopic h topic).1 := by
  obtain ⟨_, heq⟩ | ⟨state, hstate, heq⟩ := resetTopic_cases h topic
  · rw [heq]
    exact .refl h
  · rw [heq]
    obtain ⟨hcore, _, _, htrace, hnext⟩ :=
      resetEach_frame topic ⟨newEpoch h, 0⟩ (resetOpened h topic) state.subscribers
    refine .single (.event (.opened topic ⟨newEpoch h, 0⟩) rfl htrace hnext hcore.epochBase ?_)
    intro other position hcursor
    obtain ⟨after, hafter, hposition⟩ := Option.map_eq_some_iff.mp hcursor
    by_cases hother : other = topic
    · subst hother
      change (resetIndex h other state).1.lookup other = some after at hafter
      rw [resetIndex_lookup_self] at hafter
      split_ifs at hafter
      cases hafter
      rw [← hposition]
      exact update_self ..
    · change (resetIndex h topic state).1.lookup other = some after at hafter
      rw [resetIndex_lookup_ne h topic other state hother] at hafter
      simp only [moved, update_of_ne hother, cursorOf, hafter, Option.map_some, hposition]

theorem resetLocked_moves (walk : List Topic) : Moves h (resetLocked h walk).1 := by
  induction walk generalizing h with
  | nil => exact .refl h
  | cons topic walk ih => exact (resetTopic_moves h topic).trans (ih _)

theorem fanOutLocked_moves (name params : String) :
    Moves h (fanOutLocked h topic name params).1 := by
  unfold fanOutLocked
  cases hstate : h.index.lookup topic with
  | none => exact .refl h
  | some state =>
    have hcursor : cursorOf h topic = some state.cursor := by
      unfold cursorOf
      rw [hstate]
      rfl
    refine .single (.event (.published topic (name, params) (advance state.cursor))
      ⟨state.cursor, hcursor, rfl⟩ rfl rfl rfl fun other position hafter => ?_)
    exact (cursorOf_insert h topic other { state with cursor := advance state.cursor }).symm.trans
      hafter

theorem authenticateSection_moves (identity : Identity) (maxPerUser : ℕ) :
    Moves h (authenticateSection h id identity maxPerUser) := by
  obtain heq | ⟨conn, userTopic, deviceTopic, _, _, _, _, _, heq⟩ :=
    authenticateSection_cases h id identity maxPerUser
  · rw [heq]
    exact .refl h
  · rw [heq]
    have hdetached : Moves h (detachHolder h (deviceHolder h id identity.device)).1 := by
      cases deviceHolder h id identity.device with
      | none => exact .refl h
      | some holder => exact detachLocked_moves h holder
    refine subscribeEach_invariant (Moves h) id (fun after topic hmoves =>
      hmoves.trans (subscribeLocked_moves after id topic auto)) _ _ _
      (claimed_lookup _ id conn _ _) (hdetached.trans ?_)
    exact .of_same rfl

theorem step_moves : Moves h (step h s) := by
  cases s with
  | register capacity => exact .of_same rfl
  | authenticate id identity maxPerUser => exact authenticateSection_moves h id identity maxPerUser
  | subscribe id topic request => exact subscribeLocked_moves h id topic request
  | unsubscribe id topic =>
    change Moves h (unsubscribe h id topic).1
    obtain ⟨_, heq⟩ | ⟨conn, flag, _, _, heq⟩ := unsubscribe_cases h id topic
    · rw [heq]
      exact .refl h
    · rw [heq]
      refine Moves.trans ?_ (dropSubscriber_moves _ topic id)
      exact .of_same rfl
  | fanOut topic name params => exact fanOutLocked_moves h topic name params
  | kick topic user =>
    refine Moves.trans ?_ (kickEach_moves topic user (revoke h topic) _)
    exact .of_same rfl
  | detach id => exact detachLocked_moves h id
  | walk topics => exact resetLocked_moves h topics
  | bump slot | send id frame | signal id reason | failPending id | receive id | hangUp id
  | handOff topic payload => exact .of_same rfl

/-- The event repeats the position its topic was left at, or takes the next one. -/
def Numbered (trace : List Event) : Event → Prop
  | .opened _ position => position.seq = 0
  | .published topic _ position => ∃ last, places trace topic = some last ∧ position = advance last
  | .acked topic position => places trace topic = some position

structure Traced (h : Hub) : Prop where
  numbered : Throughout Numbered h.trace
  placed : ∀ topic position, cursorOf h topic = some position → places h.trace topic = some position
  epochs : openings h.trace = (List.range h.nextEpoch).map (epochAt h.epochBase)

theorem Traced.follows {h : Hub} (htraced : Traced h) (e : Event) (hfollows : Follows h e) :
    Numbered h.trace e := by
  cases e with
  | opened topic position =>
    change position = _ at hfollows
    change position.seq = 0
    rw [hfollows]
  | published topic item position =>
    obtain ⟨last, hlast, hposition⟩ := hfollows
    exact ⟨last, htraced.placed topic last hlast, hposition⟩
  | acked topic position => exact htraced.placed topic position hfollows

theorem Traced.moved_placed {h : Hub} (htraced : Traced h) {e : Event} {topic : Topic}
    {position : Cursor} (hmoved : moved (cursorOf h) e topic = some position) :
    places (h.trace ++ [e]) topic = some position := by
  rw [places_snoc]
  have hupdate : ∀ other current,
      update (cursorOf h) other (some current) topic = some position →
      update (places h.trace) other (some current) topic = some position := by
    intro other current hcursor
    by_cases hother : topic = other
    · rw [hother, update_self] at hcursor ⊢
      exact hcursor
    · rw [update_of_ne hother] at hcursor ⊢
      exact htraced.placed topic position hcursor
  cases e with
  | opened other current | published other item current => exact hupdate other current hmoved
  | acked other current => exact htraced.placed topic position hmoved

theorem Move.traced {h h' : Hub} (move : Move h h') (htraced : Traced h) : Traced h' := by
  cases move with
  | keep htrace hnext hbase hcursor =>
    refine ⟨?_, fun topic position hafter => ?_, ?_⟩
    · rw [htrace]
      exact htraced.numbered
    · rw [htrace]
      exact htraced.placed topic position (hcursor topic position hafter)
    · rw [htrace, hnext, hbase]
      exact htraced.epochs
  | event e hfollows htrace hnext hbase hcursor =>
    refine ⟨?_, fun topic position hafter => ?_, ?_⟩
    · rw [htrace]
      exact (throughout_snoc Numbered h.trace e).mpr
        ⟨htraced.numbered, htraced.follows e hfollows⟩
    · rw [htrace]
      exact htraced.moved_placed (hcursor topic position hafter)
    · rw [htrace, hnext, hbase, openings_snoc, htraced.epochs]
      cases e with
      | opened topic position =>
        change position = _ at hfollows
        simp only [Event.opening, Option.toList_some, length_singleton, range_succ,
          map_append, map_singleton, hfollows]
        rfl
      | published topic item position | acked topic position => simp [Event.opening]

theorem Moves.traced {h h' : Hub} (moves : Moves h h') (htraced : Traced h) : Traced h' := by
  induction moves with
  | refl => exact htraced
  | tail _ move ih => exact move.traced ih

theorem newHub_traced (hasher : Topic → ℕ) (epochBase : ℕ) : Traced (newHub hasher epochBase) where
  numbered := throughout_nil Numbered
  placed topic position hcursor := by cases hcursor
  epochs := rfl

def publishes (trace : List Event) (topic : Topic) (epoch : ℕ) : ℕ :=
  trace.countP fun e =>
    match e with
    | .published other _ position => decide (other = topic ∧ position.epoch = epoch)
    | _ => false

/-- The sequence number of the topic stayed within its 53 bits. -/
def Unwrapped (trace : List Event) (topic : Topic) (epoch : ℕ) : Prop :=
  publishes trace topic epoch ≤ jsSafe

/-- Distinct calls of `new_epoch` gave distinct epochs. -/
def DistinctEpochs (h : Hub) : Prop :=
  ∀ i < h.nextEpoch, ∀ j < h.nextEpoch, epochAt h.epochBase i = epochAt h.epochBase j → i = j

theorem publishes_snoc_le (e : Event) (topic : Topic) (epoch : ℕ) :
    publishes trace topic epoch ≤ publishes (trace ++ [e]) topic epoch := by
  unfold publishes
  rw [countP_append]
  exact Nat.le_add_right _ _

theorem publishes_snoc_self (item : String × String) (position : Cursor) :
    publishes (trace ++ [.published topic item position]) topic position.epoch =
      publishes trace topic position.epoch + 1 := by
  unfold publishes
  rw [countP_append]
  simp

theorem seq_le_publishes (hnumbered : Throughout Numbered trace) (topic : Topic)
    (position : Cursor) (hplace : places trace topic = some position) :
    position.seq ≤ publishes trace topic position.epoch := by
  induction trace using List.reverseRecOn generalizing position with
  | nil => cases hplace
  | append_singleton trace e ih =>
    obtain ⟨hbefore, hlast⟩ := (throughout_snoc Numbered trace e).mp hnumbered
    have hkept : ∀ position, places trace topic = some position →
        position.seq ≤ publishes (trace ++ [e]) topic position.epoch :=
      fun position hplace => (ih hbefore position hplace).trans (publishes_snoc_le trace e topic _)
    rw [places_snoc] at hplace
    cases e with
    | opened other first =>
      by_cases hother : topic = other
      · subst hother
        simp only [moved, update_self, Option.some.injEq] at hplace
        change first.seq = 0 at hlast
        rw [← hplace, hlast]
        exact Nat.zero_le _
      · simp only [moved, update_of_ne hother] at hplace
        exact hkept position hplace
    | published other item next =>
      by_cases hother : topic = other
      · subst hother
        simp only [moved, update_self, Option.some.injEq] at hplace
        obtain ⟨last, hbefore', hnext⟩ := hlast
        have hseq : next.seq ≤ last.seq + 1 := by
          rw [hnext]
          exact Nat.and_le_left
        have hepoch : next.epoch = last.epoch := by rw [hnext]; rfl
        have hle := ih hbefore last hbefore'
        rw [← hplace, publishes_snoc_self, hepoch]
        omega
      · simp only [moved, update_of_ne hother] at hplace
        exact hkept position hplace
    | acked other current => exact hkept position hplace

theorem advance_of_lt (position : Cursor) (hlt : position.seq < jsSafe) :
    advance position = ⟨position.epoch, position.seq + 1⟩ := by
  have hbound : position.seq + 1 < 2 ^ 53 := by
    unfold jsSafe at hlt
    omega
  unfold advance jsSafe
  rw [Nat.and_two_pow_sub_one_eq_mod, Nat.mod_eq_of_lt hbound]

theorem sequenced_of_numbered (hnumbered : Throughout Numbered trace)
    (hdistinct : (openings trace).Nodup) (whole : Topic → ℕ → Prop)
    (hwhole : ∀ topic epoch, whole topic epoch → Unwrapped trace topic epoch) :
    Sequenced whole trace := by
  induction trace using List.reverseRecOn with
  | nil => exact throughout_nil _
  | append_singleton trace e ih =>
    obtain ⟨hbefore, hlast⟩ := (throughout_snoc Numbered trace e).mp hnumbered
    rw [openings_snoc] at hdistinct
    obtain ⟨hnodup, _, hdisjoint⟩ := nodup_append.mp hdistinct
    have hless : ∀ topic epoch, whole topic epoch → Unwrapped trace topic epoch :=
      fun topic epoch h => (publishes_snoc_le trace e topic epoch).trans (hwhole topic epoch h)
    refine (sequenced_snoc trace e).mpr ⟨ih hbefore hnodup hless, ?_⟩
    cases e with
    | opened topic position =>
      intro hused
      exact hdisjoint position.epoch hused position.epoch (by simp [Event.opening]) rfl
    | published topic item position =>
      obtain ⟨last, hplace, hposition⟩ := hlast
      have hepoch : position.epoch = last.epoch := by rw [hposition]; rfl
      refine ⟨last, hplace, hepoch, fun hin => ?_⟩
      have hle := seq_le_publishes trace hbefore topic last hplace
      have hmost : publishes _ topic last.epoch ≤ jsSafe := hwhole topic last.epoch hin
      rw [← hepoch, publishes_snoc_self, hepoch] at hmost
      rw [hposition, advance_of_lt last (by omega)]
    | acked topic position => exact hlast

theorem Traced.distinct {h : Hub} (htraced : Traced h) (hdistinct : DistinctEpochs h) :
    (openings h.trace).Nodup := by
  rw [htraced.epochs]
  refine List.Nodup.map_on ?_ nodup_range
  intro i hi j hj heq
  exact hdistinct i (mem_range.mp hi) j (mem_range.mp hj) heq

def Recorded (trace : List Event) : Frame → Prop
  | .publish topic name params position => .published topic (name, params) position ∈ trace
  | .result _ (.cursor topic position) => .acked topic position ∈ trace
  | _ => True

def Honest : Section → Prop
  | .subscribe _ topic request => ∀ ack, request.ack = some ack →
      ∃ id, ack = fun position => .result id (.cursor topic position)
  | .send _ frame => Recorded [] frame
  | _ => True

theorem Recorded.mono {trace trace' : List Event} (hextends : trace <+: trace') {frame : Frame}
    (hrecorded : Recorded trace frame) : Recorded trace' frame := by
  cases frame with
  | publish topic name params position => exact hextends.subset hrecorded
  | result id data =>
    cases data with
    | cursor topic position => exact hextends.subset hrecorded
    | _ => trivial
  | _ => trivial

theorem resetFrames_recorded {walk : List Topic} {who : ConnId} (trace : List Event)
    {frame : Frame} (hframe : frame ∈ resetFrames h walk who) : Recorded trace frame := by
  induction walk generalizing h with
  | nil => cases hframe
  | cons topic walk ih =>
    obtain hframe | hframe := mem_append.mp hframe
    · split_ifs at hframe
      · rw [mem_singleton.mp hframe]
        unfold resetFrame
        split_ifs <;> trivial
      · cases hframe
    · exact ih _ hframe

theorem sectionFrames_recorded (hhonest : Honest s) {who : ConnId} {frame : Frame}
    (hframe : frame ∈ sectionFrames h s who) : Recorded (step h s).trace frame := by
  cases s with
  | subscribe id topic request =>
    simp only [sectionFrames] at hframe
    split_ifs at hframe
    · change Recorded (subscribeLocked h id topic request).1.trace frame
      simp only [subscribedAt] at hframe
      obtain ⟨error, heq⟩ | ⟨conn, state, _, _, _, heq⟩ := subscribeLocked_cases h id topic request
      · simp [heq] at hframe
      · rw [heq] at hframe ⊢
        cases hack : request.ack with
        | none => simp [hack] at hframe
        | some ack =>
          obtain ⟨answer, rfl⟩ := hhonest ack hack
          simp only [hack, Option.bind_some, Option.map_some, Option.toList_some,
            mem_singleton] at hframe
          rw [hframe]
          unfold subscribed
          rw [hack]
          exact mem_append_right _ (mem_singleton.mpr rfl)
    · cases hframe
  | fanOut topic name params =>
    simp only [sectionFrames] at hframe
    split_ifs at hframe
    · change Recorded (fanOutLocked h topic name params).1.trace frame
      unfold fanOutLocked
      cases hstate : h.index.lookup topic with
      | none => simp [hstate] at hframe
      | some state =>
        simp only [hstate, Option.map_some, Option.toList_some, mem_singleton] at hframe
        rw [hframe]
        exact mem_append_right _ (mem_singleton.mpr rfl)
    · cases hframe
  | kick topic user =>
    simp only [sectionFrames] at hframe
    split_ifs at hframe
    · rw [mem_singleton.mp hframe]
      trivial
    · cases hframe
  | walk topics => exact resetFrames_recorded h _ hframe
  | send id sent =>
    simp only [sectionFrames] at hframe
    split_ifs at hframe
    · rw [mem_singleton.mp hframe]
      exact Recorded.mono nil_prefix hhonest
    · cases hframe
  | _ => cases hframe

theorem mem_offerAll (peer : Peer) (frames : List Frame) (frame : Frame)
    (hframe : frame ∈ (offerAll peer frames).1.queue) : frame ∈ peer.queue ∨ frame ∈ frames := by
  induction frames generalizing peer with
  | nil => exact .inl hframe
  | cons first frames ih =>
    obtain hqueued | hin := ih _ hframe
    · unfold offer at hqueued
      split_ifs at hqueued
      · obtain hqueued | hfirst := mem_append.mp hqueued
        · exact .inl hqueued
        · exact .inr (by rw [mem_singleton.mp hfirst]; simp)
      · exact .inl hqueued
    · exact .inr (by simp [hin])

/-- Every queued publish and ack was traced. -/
def QueuesRecorded (h : Hub) : Prop :=
  ∀ who, ∀ frame ∈ (h.peers who).queue, Recorded h.trace frame

theorem step_queue {who : ConnId} {frame : Frame} (hframe : frame ∈ ((step h s).peers who).queue) :
    frame ∈ (h.peers who).queue ∨ frame ∈ sectionFrames h s who := by
  by_cases hs : Offers s
  · have hmailbox := congrArg Mailbox.queue (step_mailbox h hs who)
    change ((step h s).peers who).queue = (offerAll _ _).1.queue at hmailbox
    rw [hmailbox] at hframe
    exact mem_offerAll _ _ frame hframe
  · refine .inl ?_
    cases s with
    | register capacity =>
      change frame ∈ (update h.peers h.nextConn _ who).queue at hframe
      by_cases hwho : who = h.nextConn
      · rw [hwho, update_self] at hframe
        cases hframe
      · rw [update_of_ne hwho] at hframe
        exact hframe
    | receive id =>
      change frame ∈ (update h.peers id _ who).queue at hframe
      by_cases hwho : who = id
      · rw [hwho, update_self] at hframe
        rw [hwho]
        exact mem_of_mem_tail hframe
      · rw [update_of_ne hwho] at hframe
        exact hframe
    | hangUp id =>
      change frame ∈ (update h.peers id _ who).queue at hframe
      by_cases hwho : who = id
      · rw [hwho, update_self] at hframe
        rw [hwho]
        exact hframe
      · rw [update_of_ne hwho] at hframe
        exact hframe
    | _ => exact absurd trivial hs

theorem step_recorded (hhonest : Honest s) (hqueues : QueuesRecorded h) :
    QueuesRecorded (step h s) := by
  intro who frame hframe
  obtain hqueued | hoffered := step_queue h s hframe
  · exact (hqueues who frame hqueued).mono (step_moves h s).trace_extends
  · exact sectionFrames_recorded h s hhonest hoffered

end Stakit.PubsubHub
