import Stakit.SocketSubscriptions
import Stakit.TransitionRuns

set_option autoImplicit false

namespace Stakit.SocketSubscriptions
open FiniteMap PubsubTopic TransitionRuns

def Live (c : Client) (g : GroupRef) : Prop := c.groups.lookup (c.heap g).id = some g

def Uses (c : Client) (topic : Topic) : Prop :=
  ∃ g, Live c g ∧ ((c.heap g).topic = some topic ∨ c.byTopic.lookup topic = some g)

def unsubscribeFrames (c : Client) (sub : SubRef) : List Request :=
  (unsubscribe c sub).written.drop c.written.length

/-- Unsubscribing keeps the live groups in the maps and sends no unsubscribe for a
topic one of them uses. -/
structure Isolated (c : Client) (sub : SubRef) : Prop where
  registered : ∀ g, Live c g → Live (unsubscribe c sub) g ∧
    ∀ topic, c.byTopic.lookup topic = some g → (unsubscribe c sub).byTopic.lookup topic = some g
  silent : ∀ id topic, .unsubscribe id topic ∈ unsubscribeFrames c sub → ¬ Uses c topic

/-- The subscription is the last of its group, and no ack is awaited that would
release the group instead. -/
def LeavesEmpty (c : Client) (sub : SubRef) : Prop :=
  sub ∈ (c.heap (c.subs sub).owner).subs ∧
  (c.heap (c.subs sub).owner).subs.filter (· ≠ sub) = [] ∧
  (c.heap (c.subs sub).owner).pending = false

/-- A newer group took the place of the subscription's group, or uses its topic
while the connection is up. -/
def Replaced (c : Client) (sub : SubRef) : Prop :=
  (∃ g, c.groups.lookup (c.heap (c.subs sub).owner).id = some g) ∨
    ∃ topic, (c.heap (c.subs sub).owner).topic = some topic ∧ c.ready = true ∧ Uses c topic

variable (stableKey : Value → String) (c : Client) (g : GroupRef) (frame : Frame) (sub : SubRef)

/-- Unsubscribing does nothing, leaves the group, or leaves and drops it, with a
frame if the server is to be told. -/
theorem unsubscribe_cases :
    (¬ LeavesEmpty c sub ∧ (unsubscribe c sub = c ∨ unsubscribe c sub = leave c sub)) ∨
    (LeavesEmpty c sub ∧
      ((∃ topic, (c.heap (c.subs sub).owner).topic = some topic ∧ c.ready = true ∧
        unsubscribe c sub = writeUnsubscribe (drop (leave c sub) (c.subs sub).owner) topic) ∨
      ((∀ topic, (c.heap (c.subs sub).owner).topic = some topic → c.ready = false) ∧
        unsubscribe c sub = drop (leave c sub) (c.subs sub).owner))) := by
  have hsubs : ((leave c sub).heap (c.subs sub).owner).subs =
      (c.heap (c.subs sub).owner).subs.filter (· ≠ sub) := by
    rw [leave, alter_heap, if_pos rfl]
  have hpending : ((leave c sub).heap (c.subs sub).owner).pending =
      (c.heap (c.subs sub).owner).pending := by
    rw [leave, alter_heap, if_pos rfl]
  unfold unsubscribe LeavesEmpty
  dsimp only
  rw [hsubs, hpending]
  by_cases hin : sub ∈ (c.heap (c.subs sub).owner).subs
  · rw [if_pos hin]
    by_cases hmore : (c.heap (c.subs sub).owner).subs.filter (· ≠ sub) = []
    · rw [if_neg (not_not.mpr hmore)]
      cases hwaits : (c.heap (c.subs sub).owner).pending with
      | true =>
        refine .inl ⟨fun hleaves => ?_, .inr rfl⟩
        exact absurd hleaves.2.2 (by simp)
      | false =>
        refine .inr ⟨⟨hin, hmore, rfl⟩, ?_⟩
        rw [if_neg (by simp)]
        cases htopic : (c.heap (c.subs sub).owner).topic with
        | none => exact .inr ⟨fun topic heq => (nomatch heq), rfl⟩
        | some topic =>
          dsimp only
          cases hready : c.ready with
          | true => exact .inl ⟨topic, rfl, rfl, if_pos hready⟩
          | false => exact .inr ⟨fun _ _ => rfl, if_neg (by simp [drop, leave, alter, hready])⟩
    · rw [if_pos hmore]
      exact .inl ⟨fun hleaves => hmore hleaves.2.1, .inr rfl⟩
  · rw [if_neg hin]
    exact .inl ⟨fun hleaves => hin hleaves.1, .inl rfl⟩

structure Shrinks (c c' : Client) : Prop where
  id : ∀ g, (c'.heap g).id = (c.heap g).id
  nextGroup : c'.nextGroup = c.nextGroup
  groups : ∀ id g, c'.groups.lookup id = some g → c.groups.lookup id = some g

theorem Shrinks.refl : Shrinks c c := ⟨fun _ => rfl, rfl, fun _ _ h => h⟩

theorem Shrinks.trans {c c' c'' : Client} (a : Shrinks c c') (b : Shrinks c' c'') : Shrinks c c'' :=
  ⟨fun g => (b.id g).trans (a.id g), b.nextGroup.trans a.nextGroup,
    fun id g h => a.groups id g (b.groups id g h)⟩

theorem Shrinks.of_heap {c c' : Client} (hheap : c'.heap = c.heap)
    (hnext : c'.nextGroup = c.nextGroup) (hgroups : c'.groups = c.groups) : Shrinks c c' :=
  ⟨fun g => by rw [hheap], hnext, fun id g h => by rw [← hgroups]; exact h⟩

theorem alter_shrinks (f : Group → Group) (hf : ∀ group, (f group).id = group.id) :
    Shrinks c (alter c g f) where
  id other := by
    rw [alter_heap]
    split_ifs
    · exact hf _
    · rfl
  nextGroup := rfl
  groups id other h := h

theorem erase_shrinks (id : String) : Shrinks c { c with groups := c.groups.erase id } where
  id _ := rfl
  nextGroup := rfl
  groups other g h := by
    change (c.groups.erase id).lookup other = some g at h
    rw [lookup_erase_ite] at h
    split_ifs at h
    exact h

theorem each_shrinks (seen : List Seen) : Shrinks c (each c g seen) :=
  .of_heap rfl rfl rfl

theorem drop_shrinks : Shrinks c (drop c g) :=
  (erase_shrinks c (c.heap g).id).trans (.of_heap rfl rfl rfl)

theorem send_shrinks : Shrinks c (send c g) :=
  (alter_shrinks c g (fun group => { group with pending := true }) fun _ => rfl).trans
    (.of_heap rfl rfl rfl)

theorem onPublish_shrinks : Shrinks c (onPublish c frame) := by
  unfold onPublish
  dsimp only
  split
  · unfold onUnclaimed
    dsimp only
    split_ifs <;> exact .of_heap rfl rfl rfl
  · rename_i g _
    exact (alter_shrinks c g (fun group => { group with
      epoch := some (messageOf frame).epoch, seq := some (messageOf frame).seq })
      fun _ => rfl).trans (.of_heap rfl rfl rfl)

theorem takeAck_shrinks (ack : Ack) : Shrinks c (takeAck c g ack) := by
  unfold takeAck
  dsimp only
  refine Shrinks.trans ?_ (run_relates onPublish Shrinks .refl (fun _ _ _ => .trans)
    onPublish_shrinks _ _)
  refine (alter_shrinks c g (fun group =>
    { group with topic := some ack.topic, epoch := some ack.epoch, seq := some ack.seq })
    fun _ => rfl).trans ?_
  exact .of_heap rfl rfl rfl

theorem onAck_shrinks : Shrinks c (onAck c g frame) := by
  have hanswered : Shrinks c (answer c g) := alter_shrinks c g _ fun _ => rfl
  have hdropped := hanswered.trans (drop_shrinks _ g)
  obtain heq | ⟨seen, heq, _⟩ | ⟨topic, heq⟩ | ⟨ack, _, _, heq⟩ := onAck_cases c g frame
  · rw [heq]
    exact hanswered
  · rw [heq]
    exact hdropped.trans (each_shrinks _ g _)
  · rw [heq]
    exact hdropped.trans (.of_heap rfl rfl rfl)
  · rw [heq]
    exact hanswered.trans (takeAck_shrinks _ g ack)

theorem onUnsubscribed_shrinks : Shrinks c (onUnsubscribed c frame) := by
  unfold onUnsubscribed
  split
  · exact .refl c
  · rename_i g _
    dsimp only
    split_ifs
    · refine Shrinks.trans ?_ (send_shrinks _ g)
      exact .of_heap rfl rfl rfl
    · exact .of_heap rfl rfl rfl
    · exact (erase_shrinks c (c.heap g).id).trans (.of_heap rfl rfl rfl)

theorem handleFrame_shrinks : Shrinks c (handleFrame c frame) := by
  unfold handleFrame
  split
  · split
    · exact .refl c
    · refine Shrinks.trans ?_ (onAck_shrinks _ _ frame)
      exact .of_heap rfl rfl rfl
  · split
    · exact .refl c
    · exact .of_heap rfl rfl rfl
  · exact onPublish_shrinks c frame
  · unfold onReset
    split
    · rename_i g epoch _ _
      exact (alter_shrinks c g (fun group =>
        { group with epoch := some epoch, seq := some (frame.seq.getD 0) }) fun _ => rfl).trans
        (each_shrinks _ g _)
    · exact .refl c
  · exact onUnsubscribed_shrinks c frame
  · exact .refl c
  · exact .refl c
  · exact .refl c

theorem resubscribe_shrinks : Shrinks c (resubscribe c) := by
  refine run_relates resubscribeOne Shrinks .refl (fun _ _ _ => .trans) (fun c g => ?_) c _
  unfold resubscribeOne
  split_ifs
  · exact erase_shrinks c _
  · exact send_shrinks c g

theorem lost_shrinks : Shrinks c (lost c) where
  id g := by
    unfold lost
    dsimp only
    split_ifs <;> rfl
  nextGroup := rfl
  groups id g h := h

theorem leave_shrinks : Shrinks c (leave c sub) :=
  alter_shrinks c (c.subs sub).owner _ fun _ => rfl

theorem unsubscribe_shrinks : Shrinks c (unsubscribe c sub) := by
  have hdropped := (leave_shrinks c sub).trans (drop_shrinks _ (c.subs sub).owner)
  obtain ⟨_, heq | heq⟩ | ⟨_, ⟨topic, _, _, heq⟩ | ⟨_, heq⟩⟩ := unsubscribe_cases c sub
  · rw [heq]
    exact .refl c
  · rw [heq]
    exact leave_shrinks c sub
  · rw [heq]
    exact hdropped.trans (.of_heap rfl rfl rfl)
  · rw [heq]
    exact hdropped

def Keyed (c : Client) : Prop :=
  ∀ id g, c.groups.lookup id = some g → g < c.nextGroup ∧ (c.heap g).id = id

theorem Keyed.of_shrinks {c c' : Client} (hkeyed : Keyed c) (h : Shrinks c c') : Keyed c' := by
  intro id g hg
  obtain ⟨hlt, hid⟩ := hkeyed id g (h.groups id g hg)
  rw [h.nextGroup, h.id]
  exact ⟨hlt, hid⟩

theorem subscribe_keyed (channel : String) (key : Value) (hkeyed : Keyed c) :
    Keyed (subscribe stableKey c channel key) := by
  unfold subscribe
  dsimp only
  cases hgroup : c.groups.lookup (groupId stableKey channel key) with
  | some g =>
    exact hkeyed.of_shrinks ((alter_shrinks c g
      (fun group => { group with subs := group.subs ++ [c.nextSub] }) fun _ => rfl).trans
      (.of_heap rfl rfl rfl))
  | none =>
    dsimp only
    have hopened : Keyed (openGroup stableKey c channel key) := by
      unfold openGroup
      intro id g hg
      dsimp only at hg ⊢
      rw [lookup_insert_ite] at hg
      split_ifs at hg with hid
      · cases hg
        rw [Function.update_self]
        exact ⟨Nat.lt_succ_self _, hid.symm⟩
      · obtain ⟨hlt, hown⟩ := hkeyed id g hg
        rw [Function.update_of_ne (Nat.ne_of_lt hlt)]
        exact ⟨Nat.lt_succ_of_lt hlt, hown⟩
    split_ifs
    · exact hopened.of_shrinks (send_shrinks _ _)
    · exact hopened

theorem step_keyed (a : Act) (hkeyed : Keyed c) : Keyed (step stableKey c a) := by
  cases a with
  | subscribe channel key => exact subscribe_keyed stableKey c channel key hkeyed
  | unsubscribe sub => exact hkeyed.of_shrinks (unsubscribe_shrinks c sub)
  | frame frame => exact hkeyed.of_shrinks (handleFrame_shrinks c frame)
  | ready =>
    refine hkeyed.of_shrinks (Shrinks.trans ?_ (resubscribe_shrinks _))
    exact .of_heap rfl rfl rfl
  | lost => exact hkeyed.of_shrinks (lost_shrinks c)
  | stop =>
    intro id g hg
    cases hg

theorem newClient_keyed : Keyed newClient := by
  intro id g hg
  cases hg

theorem unsubscribeFrames_nil (hwritten : (unsubscribe c sub).written = c.written) :
    unsubscribeFrames c sub = [] := by
  unfold unsubscribeFrames
  rw [hwritten, List.drop_length]

theorem isolated_of_stays (hstays : ¬ LeavesEmpty c sub) : Isolated c sub := by
  have hsame : ∀ c' : Client, unsubscribe c sub = c' → Shrinks c c' → c'.groups = c.groups →
      c'.byTopic = c.byTopic → c'.written = c.written → Isolated c sub := by
    intro c' heq hshrinks hgroups htopics hwritten
    refine ⟨fun g hlive => ?_, fun id topic hin => ?_⟩
    · rw [heq, htopics]
      refine ⟨?_, fun _ hg => hg⟩
      unfold Live
      rw [hgroups, hshrinks.id]
      exact hlive
    · rw [unsubscribeFrames_nil c sub (by rw [heq, hwritten])] at hin
      cases hin
  obtain ⟨_, heq | heq⟩ | ⟨hleaves, _⟩ := unsubscribe_cases c sub
  · exact hsame c heq (.refl c) rfl rfl rfl
  · exact hsame _ heq (leave_shrinks c sub) rfl rfl rfl
  · exact absurd hleaves hstays

theorem registered_iff (hkeyed : Keyed c) (hdead : ¬ Live c (c.subs sub).owner)
    (hleaves : LeavesEmpty c sub) :
    (∀ g, Live c g → Live (unsubscribe c sub) g ∧ ∀ topic, c.byTopic.lookup topic = some g →
        (unsubscribe c sub).byTopic.lookup topic = some g) ↔
    ∀ g, c.groups.lookup (c.heap (c.subs sub).owner).id ≠ some g := by
  have hid := (leave_shrinks c sub).id
  have hmaps : (unsubscribe c sub).groups = c.groups.erase (c.heap (c.subs sub).owner).id ∧
      (unsubscribe c sub).byTopic = dropTopic c.byTopic (c.subs sub).owner
        ((leave c sub).heap (c.subs sub).owner).topic := by
    rw [← hid]
    obtain ⟨hstays, _⟩ | ⟨_, ⟨_, _, _, heq⟩ | ⟨_, heq⟩⟩ := unsubscribe_cases c sub
    · exact absurd hleaves hstays
    · rw [heq]
      exact ⟨rfl, rfl⟩
    · rw [heq]
      exact ⟨rfl, rfl⟩
  have hlive : ∀ g, Live (unsubscribe c sub) g ↔
      (c.heap g).id ≠ (c.heap (c.subs sub).owner).id ∧ Live c g := by
    intro g
    unfold Live
    rw [hmaps.1, (unsubscribe_shrinks c sub).id, lookup_erase_ite]
    split_ifs with hsame
    · simp [hsame]
    · simp [hsame]
  constructor
  · intro hall g hg
    obtain ⟨_, hown⟩ := hkeyed _ g hg
    have hbefore : Live c g := by
      unfold Live
      rw [hown]
      exact hg
    exact ((hlive g).mp (hall g hbefore).1).1 hown
  · intro hnone g hbefore
    refine ⟨(hlive g).mpr ⟨fun hsame => ?_, hbefore⟩, fun topic htopic => ?_⟩
    · unfold Live at hbefore
      rw [hsame] at hbefore
      exact hnone g hbefore
    · rw [hmaps.2]
      have hother : g ≠ (c.subs sub).owner := by
        rintro rfl
        exact hdead hbefore
      unfold dropTopic
      split
      · exact htopic
      · split_ifs with hheld
        · rw [lookup_erase_ite, if_neg]
          · exact htopic
          · rintro rfl
            rw [htopic] at hheld
            exact hother (Option.some.inj hheld)
        · exact htopic

theorem silent_iff (hleaves : LeavesEmpty c sub) :
    (∀ id topic, .unsubscribe id topic ∈ unsubscribeFrames c sub → ¬ Uses c topic) ↔
    ¬ ∃ topic, (c.heap (c.subs sub).owner).topic = some topic ∧ c.ready = true ∧ Uses c topic := by
  obtain ⟨hstays, _⟩ | ⟨_, ⟨topic, htopic, hready, heq⟩ | ⟨hquiet, heq⟩⟩ :=
    unsubscribe_cases c sub
  · exact absurd hleaves hstays
  · have hframes : unsubscribeFrames c sub = [.unsubscribe c.nextId topic] := by
      unfold unsubscribeFrames
      rw [heq]
      exact List.drop_left
    rw [hframes]
    constructor
    · rintro hsilent ⟨other, hother, _, huses⟩
      rw [htopic] at hother
      cases hother
      exact hsilent c.nextId topic (List.mem_singleton.mpr rfl) huses
    · intro hfree id other hin huses
      cases List.mem_singleton.mp hin
      exact hfree ⟨topic, htopic, hready, huses⟩
  · have hframes := unsubscribeFrames_nil c sub (by rw [heq]; rfl)
    rw [hframes]
    refine ⟨?_, nofun⟩
    rintro _ ⟨topic, htopic, hready, _⟩
    rw [hquiet topic htopic] at hready
    cases hready

/-- In every state the client reaches, unsubscribing from a dead group leaves the
live ones alone if and only if it is not the last to leave a group that was
replaced. -/
theorem isolated_iff (acts : List Act) (sub : SubRef)
    (hdead : ¬ Live (run (step stableKey) newClient acts)
      ((run (step stableKey) newClient acts).subs sub).owner) :
    Isolated (run (step stableKey) newClient acts) sub ↔
      ¬ (LeavesEmpty (run (step stableKey) newClient acts) sub ∧
        Replaced (run (step stableKey) newClient acts) sub) := by
  have hkeyed := run_invariant (step stableKey) Keyed (step_keyed stableKey) newClient acts
    newClient_keyed
  by_cases hleaves : LeavesEmpty (run (step stableKey) newClient acts) sub
  · have hregistered := registered_iff _ sub hkeyed hdead hleaves
    have hsilent := silent_iff _ sub hleaves
    constructor
    · rintro hisolated ⟨_, ⟨g, hg⟩ | hused⟩
      · exact hregistered.mp hisolated.registered g hg
      · exact hsilent.mp hisolated.silent hused
    · intro hnot
      refine ⟨hregistered.mpr fun g hg => ?_, hsilent.mpr fun hused => ?_⟩
      · exact hnot ⟨hleaves, .inl ⟨g, hg⟩⟩
      · exact hnot ⟨hleaves, .inr hused⟩
  · exact ⟨fun _ hboth => hleaves hboth.1, fun _ => isolated_of_stays _ sub hleaves⟩

def stringKey : Value → String
  | .string text => "\"" ++ text ++ "\""
  | _ => "null"

def resultFrame (id : ℕ) (ack : Ack) : Frame :=
  ⟨.result, some id, none, none, false, some ack, malformedError, none, none, none, none⟩

def kickFrame (topic : Topic) : Frame :=
  ⟨.unsubscribed, none, none, none, false, none, malformedError, some topic,
    none, none, some "kicked"⟩

def kickedActs : List Act :=
  [.ready, .subscribe "room" (.string "7"), .frame (resultFrame 1 ⟨"room:7", 4, 0⟩),
    .frame (kickFrame "room:7")]

theorem kicked_isolated : ¬ Live (run (step stringKey) newClient kickedActs)
      ((run (step stringKey) newClient kickedActs).subs 0).owner ∧
    LeavesEmpty (run (step stringKey) newClient kickedActs) 0 ∧
    Isolated (run (step stringKey) newClient kickedActs) 0 := by
  have hdead : ¬ Live (run (step stringKey) newClient kickedActs)
      ((run (step stringKey) newClient kickedActs).subs 0).owner := by
    unfold Live
    decide
  have hleaves : LeavesEmpty (run (step stringKey) newClient kickedActs) 0 := by
    unfold LeavesEmpty
    decide
  refine ⟨hdead, hleaves, (isolated_iff stringKey kickedActs 0 hdead).mpr ?_⟩
  rintro ⟨_, ⟨g, hg⟩ | ⟨topic, _, _, g, hlive, _⟩⟩
  · cases hg
  · cases hlive

/-- The kicked channel is subscribed again, and then the first subscription cleans
up: the new group is forgotten and its topic unsubscribed. -/
theorem resubscribed_not_isolated : ¬ Live (run (step stringKey) newClient
        (kickedActs ++ [.subscribe "room" (.string "7"),
          .frame (resultFrame 2 ⟨"room:7", 5, 0⟩)])) 0 ∧
    ¬ Isolated (run (step stringKey) newClient (kickedActs ++ [.subscribe "room" (.string "7"),
          .frame (resultFrame 2 ⟨"room:7", 5, 0⟩)])) 0 := by
  refine ⟨by unfold Live; decide, fun hisolated => ?_⟩
  have hlive : Live (run (step stringKey) newClient (kickedActs ++ [.subscribe "room" (.string "7"),
        .frame (resultFrame 2 ⟨"room:7", 5, 0⟩)])) 1 := by
    unfold Live
    decide
  have hkept := (hisolated.registered 1 hlive).1
  unfold Live at hkept
  exact absurd hkept (by decide)

end Stakit.SocketSubscriptions
