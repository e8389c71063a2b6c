import Stakit.SocketGaps

set_option autoImplicit false

namespace Stakit.SocketSubscriptions
open FiniteMap PubsubTopic TransitionRuns List
open Function (update_self update_of_ne update)

/-- A client and the topic each group was acknowledged with. -/
structure Observed where
  client : Client
  acked : GroupRef → Option Topic

def fresh : Observed := ⟨newClient, fun _ => none⟩

def answered (c : Client) (frame : Frame) : Option (ℕ × GroupRef) :=
  frame.id.bind fun id => (c.waiters.lookup id).map fun g => (id, g)

/-- A group has one subscribe under way at most, so an answer is to its latest one.
An `unsubscribed` frame removes the topic from whoever has it, and a lost connection
removes them all. -/
def ackedAfter (o : Observed) (a : Act) (g : GroupRef) : Option Topic :=
  match a with
  | .frame frame =>
    match frame.kind with
    | .result =>
      if (answered o.client frame).map (·.2) = some g then
        if frame.failed then none else frame.ack.map (·.topic)
      else o.acked g
    | .unsubscribed => if o.acked g = some (frame.topic.getD "") then none else o.acked g
    | _ => o.acked g
  | .lost | .stop => none
  | _ => o.acked g

/-- A connection becomes ready once. -/
def observe (stableKey : Value → String) (o : Observed) (a : Act) : Observed :=
  match a, o.client.ready with
  | .ready, true => o
  | _, _ => ⟨step stableKey o.client a, ackedAfter o a⟩

/-- A publish of its topic reaches every subscription of an acknowledged group. -/
def Complete (o : Observed) : Prop :=
  ∀ g sub topic frame, sub ∈ (o.client.heap g).subs → o.acked g = some topic →
    frame.kind = .publish → frame.topic = some topic →
    ∃ before, (handleFrame o.client frame).log sub =
      o.client.log sub ++ before ++ [.message (messageOf frame)]

/-- The action, if it is an ack for a group with subscriptions, finds the group
registered and no other group with subscriptions acknowledged with the topic. -/
def Clear (o : Observed) : Act → Prop
  | .frame frame => frame.kind = .result → ∀ id g ack, answered o.client frame = some (id, g) →
      frame.failed = false → frame.ack = some ack → (o.client.heap g).subs ≠ [] →
      Live o.client g ∧
        ∀ other, other ≠ g → (o.client.heap other).subs ≠ [] → o.acked other ≠ some ack.topic
  | _ => True

/-- Every acknowledged group with subscriptions has its topic's place in the map. -/
def Held (o : Observed) : Prop :=
  ∀ g topic, o.acked g = some topic → (o.client.heap g).subs ≠ [] →
    o.client.byTopic.lookup topic = some g

/-- What the client's maps and the acks have to do with each other. -/
structure Coherent (c : Client) (acked : GroupRef → Option Topic) : Prop where
  placed : ∀ topic g, c.byTopic.lookup topic = some g →
    g < c.nextGroup ∧ (c.heap g).topic = some topic ∧ acked g = some topic
  waiting : ∀ id g, c.waiters.lookup id = some g → g < c.nextGroup ∧ id < c.nextId ∧ acked g = none
  single : ∀ id id' g, c.waiters.lookup id = some g → c.waiters.lookup id' = some g → id = id'
  offline : c.ready = false → (∀ id, c.waiters.lookup id = none) ∧ ∀ g, acked g = none
  pending : ∀ g, (c.heap g).pending = true → acked g = none
  empty : ∀ g, Live c g → (c.heap g).subs = [] → acked g = none
  unborn : ∀ g, c.nextGroup ≤ g → acked g = none

/-- What holds in every run, whatever the server sends. -/
structure Tracked (o : Observed) : Prop where
  watched : Watched (fun _ => True) o.client
  keyed : Keyed o.client
  coherent : Coherent o.client o.acked

variable (c : Client) (frame : Frame) (g other : GroupRef)

theorem onPublish_log (topic : Topic) (htopic : frame.topic = some topic) (sub : SubRef) :
    (∃ g before, c.byTopic.lookup topic = some g ∧ sub ∈ (c.heap g).subs ∧
      (onPublish c frame).log sub = c.log sub ++ before ++ [.message (messageOf frame)]) ∨
    ((∀ g, c.byTopic.lookup topic = some g → sub ∉ (c.heap g).subs) ∧
      (onPublish c frame).log sub = c.log sub) := by
  have hname : (messageOf frame).topic = topic := by
    unfold messageOf
    rw [htopic]
    rfl
  unfold onPublish
  dsimp only
  rw [hname]
  cases hgroup : c.byTopic.lookup topic with
  | none =>
    refine .inr ⟨nofun, ?_⟩
    unfold onUnclaimed
    dsimp only
    split_ifs <;> rfl
  | some g =>
    have hsubs : ((alter c g fun group => { group with
        epoch := some (messageOf frame).epoch, seq := some (messageOf frame).seq }).heap g).subs =
        (c.heap g).subs := by
      rw [alter_heap, if_pos rfl]
    by_cases hin : sub ∈ (c.heap g).subs
    · refine .inl ⟨g, ((gapOf (c.heap g) (messageOf frame).epoch
        (messageOf frame).seq).map Seen.gap).toList, rfl, hin, ?_⟩
      simp only [each, hsubs]
      rw [if_pos hin, ← append_assoc]
      rfl
    · refine .inr ⟨fun other h => ?_, ?_⟩
      · cases h
        exact hin
      · simp only [each, hsubs]
        rw [if_neg hin]
        rfl

theorem complete_iff_held {o : Observed} (htracked : Tracked o) : Complete o ↔ Held o := by
  constructor
  · intro hcomplete g topic hacked hsubs
    obtain ⟨sub, hsub⟩ := exists_mem_of_ne_nil _ hsubs
    obtain ⟨before, hlog⟩ := hcomplete g sub topic
      ⟨.publish, none, none, none, false, none, malformedError, some topic, none, none, none⟩
      hsub hacked rfl rfl
    obtain ⟨owner, _, hgroup, hin, _⟩ | ⟨_, hsame⟩ := onPublish_log o.client
      ⟨.publish, none, none, none, false, none, malformedError, some topic, none, none, none⟩ topic
      rfl sub
    · rw [hgroup, ← (htracked.watched.owned g sub hsub).1, (htracked.watched.owned owner sub hin).1]
    · change (onPublish o.client _).log sub = _ at hlog
      rw [hsame] at hlog
      have hlength := congrArg List.length hlog
      simp only [length_append, length_singleton] at hlength
      omega
  · intro hheld g sub topic frame hsub hacked hkind htopic
    have hgroup := hheld g topic hacked (ne_nil_of_mem hsub)
    have hhandled : handleFrame o.client frame = onPublish o.client frame := by
      unfold handleFrame
      rw [hkind]
    rw [hhandled]
    obtain ⟨_, before, _, _, hlog⟩ | ⟨hnot, _⟩ := onPublish_log o.client frame topic htopic sub
    · exact ⟨before, hlog⟩
    · exact absurd hsub (hnot g hgroup)

/-- Nothing the acks have to do with has changed. -/
structure Kept (c c' : Client) : Prop where
  groups : c'.groups = c.groups
  byTopic : c'.byTopic = c.byTopic
  waiters : c'.waiters = c.waiters
  nextId : c.nextId ≤ c'.nextId
  ready : c'.ready = c.ready
  nextGroup : c'.nextGroup = c.nextGroup
  heap : ∀ g, (c'.heap g).id = (c.heap g).id ∧ (c'.heap g).subs = (c.heap g).subs ∧
    (c'.heap g).topic = (c.heap g).topic ∧ (c'.heap g).pending = (c.heap g).pending

theorem Kept.refl : Kept c c :=
  ⟨rfl, rfl, rfl, le_rfl, rfl, rfl, fun _ => ⟨rfl, rfl, rfl, rfl⟩⟩

theorem Kept.trans {c c' c'' : Client} (a : Kept c c') (b : Kept c' c'') : Kept c c'' :=
  ⟨b.groups.trans a.groups, b.byTopic.trans a.byTopic, b.waiters.trans a.waiters,
    a.nextId.trans b.nextId, b.ready.trans a.ready, b.nextGroup.trans a.nextGroup, fun g =>
      ⟨(b.heap g).1.trans (a.heap g).1, (b.heap g).2.1.trans (a.heap g).2.1,
        (b.heap g).2.2.1.trans (a.heap g).2.2.1, (b.heap g).2.2.2.trans (a.heap g).2.2.2⟩⟩

theorem each_kept (seen : List Seen) : Kept c (each c g seen) :=
  ⟨rfl, rfl, rfl, le_rfl, rfl, rfl, fun _ => ⟨rfl, rfl, rfl, rfl⟩⟩

theorem cursor_kept (epoch seq : Option ℕ) :
    Kept c (alter c g fun group => { group with epoch := epoch, seq := seq }) := by
  refine ⟨rfl, rfl, rfl, le_rfl, rfl, rfl, fun other => ?_⟩
  rw [alter_heap]
  split_ifs <;> exact ⟨rfl, rfl, rfl, rfl⟩

theorem onPublish_kept : Kept c (onPublish c frame) := by
  unfold onPublish
  dsimp only
  split
  · unfold onUnclaimed
    dsimp only
    split_ifs <;> exact ⟨rfl, rfl, rfl, le_rfl, rfl, rfl, fun _ => ⟨rfl, rfl, rfl, rfl⟩⟩
  · rename_i g _
    refine (cursor_kept c g (some (messageOf frame).epoch) (some (messageOf frame).seq)).trans ?_
    exact ⟨rfl, rfl, rfl, le_rfl, rfl, rfl, fun _ => ⟨rfl, rfl, rfl, rfl⟩⟩

theorem onReset_kept : Kept c (onReset c frame) := by
  unfold onReset
  split
  · rename_i g epoch _ _
    exact (cursor_kept c g (some epoch) (some (frame.seq.getD 0))).trans (each_kept _ g _)
  · exact .refl c

theorem takeAck_kept (ack : Ack) : Kept (placeAck c g ack) (takeAck c g ack) := by
  unfold takeAck
  dsimp only
  refine Kept.trans ?_ (run_relates onPublish Kept .refl (fun _ _ _ => .trans) onPublish_kept _ _)
  exact ⟨rfl, rfl, rfl, le_rfl, rfl, rfl, fun _ => ⟨rfl, rfl, rfl, rfl⟩⟩

theorem send_heap : (send c g).heap other =
    if other = g then { c.heap other with pending := true } else c.heap other :=
  alter_heap c g other fun group => { group with pending := true }

theorem answer_heap : (answer c g).heap other =
    if other = g then { c.heap other with pending := false } else c.heap other :=
  alter_heap c g other fun group => { group with pending := false }

theorem placeAck_heap (ack : Ack) (other : GroupRef) : (placeAck c g ack).heap other =
      if other = g then
        { c.heap other with
          topic := some ack.topic, epoch := some ack.epoch, seq := some ack.seq }
      else c.heap other :=
  alter_heap c g other fun group =>
    { group with topic := some ack.topic, epoch := some ack.epoch, seq := some ack.seq }

section
variable {c c' : Client} {acked : GroupRef → Option Topic}

theorem live_congr {g : GroupRef} (hid : (c'.heap g).id = (c.heap g).id)
    (hgroups : c'.groups = c.groups) : Live c' g ↔ Live c g := by
  unfold Live
  rw [hgroups, hid]

theorem Kept.live (kept : Kept c c') (g : GroupRef) : Live c' g ↔ Live c g :=
  live_congr (kept.heap g).1 kept.groups

theorem Coherent.kept (h : Coherent c acked) (kept : Kept c c') : Coherent c' acked where
  placed topic g hg := by
    rw [kept.byTopic] at hg
    rw [kept.nextGroup, (kept.heap g).2.2.1]
    exact h.placed topic g hg
  waiting id g hg := by
    rw [kept.waiters] at hg
    obtain ⟨hlt, hid, hacked⟩ := h.waiting id g hg
    rw [kept.nextGroup]
    exact ⟨hlt, lt_of_lt_of_le hid kept.nextId, hacked⟩
  single id id' g hg hg' := by
    rw [kept.waiters] at hg hg'
    exact h.single id id' g hg hg'
  offline hoff := by
    rw [kept.ready] at hoff
    rw [kept.waiters]
    exact h.offline hoff
  pending g hg := by
    rw [(kept.heap g).2.2.2] at hg
    exact h.pending g hg
  empty g hlive hsubs := by
    rw [(kept.heap g).2.1] at hsubs
    exact h.empty g ((kept.live g).mp hlive) hsubs
  unborn g hg := by
    rw [kept.nextGroup] at hg
    exact h.unborn g hg

theorem dropTopic_some (byTopic : Map Topic GroupRef) (g : GroupRef) (held : Option Topic)
    (topic : Topic) (other : GroupRef) :
    (dropTopic byTopic g held).lookup topic = some other ↔
      byTopic.lookup topic = some other ∧ ¬ (held = some topic ∧ other = g) := by
  unfold dropTopic
  cases held with
  | none => simp
  | some own =>
    dsimp only
    split_ifs with hown
    · rw [lookup_erase_ite]
      split_ifs with htopic
      · subst htopic
        simp [hown, eq_comm]
      · simp [Ne.symm htopic]
    · constructor
      · intro h
        refine ⟨h, ?_⟩
        rintro ⟨hsame, rfl⟩
        cases hsame
        exact hown h
      · exact fun h => h.1

theorem Coherent.prune (h : Coherent c acked) (groups : Map String GroupRef)
    (byTopic : Map Topic GroupRef)
    (hgroups : ∀ id g, groups.lookup id = some g → c.groups.lookup id = some g)
    (htopics : ∀ topic g, byTopic.lookup topic = some g → c.byTopic.lookup topic = some g) :
    Coherent { c with groups := groups, byTopic := byTopic } acked where
  placed topic g hg := h.placed topic g (htopics topic g hg)
  waiting := h.waiting
  single := h.single
  offline := h.offline
  pending := h.pending
  empty g hlive hsubs := h.empty g (hgroups _ g hlive) hsubs
  unborn := h.unborn

theorem erase_some {κ ν : Type} [DecidableEq κ] (m : Map κ ν) (a b : κ) (v : ν)
    (h : (m.erase a).lookup b = some v) : m.lookup b = some v := by
  rw [lookup_erase_ite] at h
  split_ifs at h
  exact h

theorem Coherent.drop (h : Coherent c acked) (g : GroupRef) : Coherent (drop c g) acked :=
  h.prune _ _ (erase_some c.groups _) fun topic other hother =>
    ((dropTopic_some c.byTopic g _ topic other).mp hother).1

theorem Coherent.send (h : Coherent c acked) (g : GroupRef) (hready : c.ready = true)
    (hborn : g < c.nextGroup) (hnone : acked g = none)
    (hidle : ∀ id, c.waiters.lookup id ≠ some g) : Coherent (send c g) acked where
  placed topic other hother := by
    obtain ⟨hlt, htopic, hacked⟩ := h.placed topic other hother
    refine ⟨hlt, ?_, hacked⟩
    rw [send_heap]
    split_ifs <;> exact htopic
  waiting id other hother := by
    change (c.waiters.insert c.nextId g).lookup id = some other at hother
    rw [lookup_insert_ite] at hother
    split_ifs at hother with hid
    · cases hother
      exact ⟨hborn, by rw [hid]; exact Nat.lt_succ_self _, hnone⟩
    · obtain ⟨hlt, hold, hacked⟩ := h.waiting id other hother
      exact ⟨hlt, Nat.lt_succ_of_lt hold, hacked⟩
  single id id' other hother hother' := by
    change (c.waiters.insert c.nextId g).lookup id = some other at hother
    change (c.waiters.insert c.nextId g).lookup id' = some other at hother'
    rw [lookup_insert_ite] at hother hother'
    split_ifs at hother hother' with hid hid' hid'
    · rw [hid, hid']
    · cases hother
      exact absurd hother' (hidle id')
    · cases hother'
      exact absurd hother (hidle id)
    · exact h.single id id' other hother hother'
  offline hoff := by
    change c.ready = false at hoff
    rw [hready] at hoff
    cases hoff
  pending other hother := by
    rw [send_heap] at hother
    split_ifs at hother with hg
    · rw [hg]
      exact hnone
    · exact h.pending other hother
  empty other hlive hsubs := by
    have hsame : ((SocketSubscriptions.send c g).heap other).id = (c.heap other).id ∧
        ((SocketSubscriptions.send c g).heap other).subs = (c.heap other).subs := by
      rw [send_heap]
      split_ifs <;> exact ⟨rfl, rfl⟩
    rw [hsame.2] at hsubs
    exact h.empty other ((live_congr hsame.1 rfl).mp hlive) hsubs
  unborn := h.unborn

theorem Coherent.forgetWaiter (h : Coherent c acked) (id : ℕ) :
    Coherent { c with waiters := c.waiters.erase id } acked where
  placed := h.placed
  waiting k g hk := h.waiting k g (erase_some c.waiters id k g hk)
  single k k' g hk hk' :=
    h.single k k' g (erase_some c.waiters id k g hk) (erase_some c.waiters id k' g hk')
  offline hoff := by
    obtain ⟨hnone, hacked⟩ := h.offline hoff
    refine ⟨fun k => ?_, hacked⟩
    dsimp only
    rw [lookup_erase_ite, hnone k]
    exact ite_self _
  pending := h.pending
  empty := h.empty
  unborn := h.unborn

theorem Coherent.answer (h : Coherent c acked) (g : GroupRef) : Coherent (answer c g) acked := by
  have hfields : ∀ other, ((SocketSubscriptions.answer c g).heap other).id = (c.heap other).id ∧
      ((SocketSubscriptions.answer c g).heap other).topic = (c.heap other).topic ∧
      ((SocketSubscriptions.answer c g).heap other).subs = (c.heap other).subs := by
    intro other
    rw [answer_heap]
    split_ifs <;> exact ⟨rfl, rfl, rfl⟩
  refine ⟨?_, h.waiting, h.single, h.offline, ?_, ?_, h.unborn⟩
  · intro topic other hother
    rw [(hfields other).2.1]
    exact h.placed topic other hother
  · intro other hother
    rw [answer_heap] at hother
    split_ifs at hother
    exact h.pending other hother
  · intro other hlive hsubs
    rw [(hfields other).2.2] at hsubs
    exact h.empty other ((live_congr (hfields other).1 rfl).mp hlive) hsubs

theorem Coherent.note (h : Coherent c acked) (g : GroupRef) (topic : Option Topic)
    (hready : c.ready = true) (hborn : g < c.nextGroup) (hnone : acked g = none)
    (hidle : ∀ id, c.waiters.lookup id ≠ some g) (hquiet : (c.heap g).pending = false)
    (hempty : Live c g → (c.heap g).subs = [] → topic = none) :
    Coherent c (update acked g topic) := by
  have hother : ∀ other, other ≠ g → update acked g topic other = acked other :=
    fun other hne => update_of_ne hne _ _
  refine ⟨?_, ?_, h.single, ?_, ?_, ?_, ?_⟩
  · intro name other hplaced
    obtain ⟨hlt, htopic, hacked⟩ := h.placed name other hplaced
    refine ⟨hlt, htopic, ?_⟩
    rw [hother other, hacked]
    rintro rfl
    rw [hnone] at hacked
    cases hacked
  · intro id other hwaits
    obtain ⟨hlt, hid, hacked⟩ := h.waiting id other hwaits
    refine ⟨hlt, hid, ?_⟩
    rw [hother other, hacked]
    rintro rfl
    exact hidle id hwaits
  · intro hoff
    rw [hready] at hoff
    cases hoff
  · intro other hpending
    rw [hother other]
    · exact h.pending other hpending
    · rintro rfl
      rw [hquiet] at hpending
      cases hpending
  · intro other hlive hsubs
    by_cases hsame : other = g
    · subst hsame
      rw [update_self]
      exact hempty hlive hsubs
    · rw [hother other hsame]
      exact h.empty other hlive hsubs
  · intro other hunborn
    rw [hother other]
    · exact h.unborn other hunborn
    · rintro rfl
      exact absurd hborn (Nat.not_lt.mpr hunborn)

theorem Coherent.place (h : Coherent c acked) (g : GroupRef) (ack : Ack)
    (hready : c.ready = true) (hborn : g < c.nextGroup) (hnone : acked g = none)
    (hidle : ∀ id, c.waiters.lookup id ≠ some g) (hquiet : (c.heap g).pending = false)
    (hsubs : (c.heap g).subs ≠ []) :
    Coherent (placeAck c g ack) (update acked g (some ack.topic)) := by
  have hnoted := h.note g (some ack.topic) hready hborn hnone hidle hquiet
    fun _ hnil => absurd hnil hsubs
  have hfields : ∀ other, ((placeAck c g ack).heap other).id = (c.heap other).id ∧
      ((placeAck c g ack).heap other).subs = (c.heap other).subs ∧
      ((placeAck c g ack).heap other).pending = (c.heap other).pending := by
    intro other
    rw [placeAck_heap]
    split_ifs <;> exact ⟨rfl, rfl, rfl⟩
  refine ⟨?_, hnoted.waiting, hnoted.single, hnoted.offline, ?_, ?_, hnoted.unborn⟩
  · intro topic other hother
    change (c.byTopic.insert ack.topic g).lookup topic = some other at hother
    rw [lookup_insert_ite] at hother
    split_ifs at hother with htopic
    · cases hother
      rw [placeAck_heap, if_pos rfl, update_self, htopic]
      exact ⟨hborn, rfl, rfl⟩
    · obtain ⟨hlt, hname, hacked⟩ := hnoted.placed topic other hother
      refine ⟨hlt, ?_, hacked⟩
      rw [placeAck_heap, if_neg]
      · exact hname
      · rintro rfl
        rw [update_self] at hacked
        exact htopic (Option.some.inj hacked).symm
  · intro other hpending
    rw [(hfields other).2.2] at hpending
    exact hnoted.pending other hpending
  · intro other hlive hnil
    rw [(hfields other).2.1] at hnil
    exact hnoted.empty other ((live_congr (hfields other).1 rfl).mp hlive) hnil

end

variable (c : Client) (g : GroupRef) (acked : GroupRef → Option Topic)

theorem onAck_spec (frame : Frame) : (¬ Live c g ∧ onAck c g frame = answer c g) ∨
    (Live c g ∧ (frame.failed = true ∨ frame.ack = none ∨ (c.heap g).subs = []) ∧
      Kept (drop (answer c g) g) (onAck c g frame)) ∨
    (Live c g ∧ frame.failed = false ∧ (c.heap g).subs ≠ [] ∧
      ∃ ack, frame.ack = some ack ∧ onAck c g frame = takeAck (answer c g) g ack) := by
  have hheap : (answer c g).heap g = { c.heap g with pending := false } := by
    rw [answer_heap, if_pos rfl]
  unfold onAck
  dsimp only
  rw [hheap]
  dsimp only
  by_cases hlive : (answer c g).groups.lookup (c.heap g).id ≠ some g
  · rw [if_pos hlive]
    exact .inl ⟨hlive, rfl⟩
  rw [if_neg hlive]
  have hknown : Live c g := not_not.mp hlive
  cases hfailed : frame.failed with
  | true =>
    rw [if_pos rfl]
    exact .inr (.inl ⟨hknown, .inl rfl, each_kept _ g _⟩)
  | false =>
    rw [if_neg Bool.false_ne_true]
    cases hack : frame.ack with
    | none => exact .inr (.inl ⟨hknown, .inr (.inl rfl), .refl _⟩)
    | some ack =>
      dsimp only
      by_cases hsubs : (c.heap g).subs = []
      · rw [if_pos hsubs]
        refine .inr (.inl ⟨hknown, .inr (.inr hsubs), ?_⟩)
        split_ifs
        · exact ⟨rfl, rfl, rfl, Nat.le_succ _, rfl, rfl, fun _ => ⟨rfl, rfl, rfl, rfl⟩⟩
        · exact .refl _
      · rw [if_neg hsubs]
        exact .inr (.inr ⟨hknown, rfl, hsubs, ack, rfl, rfl⟩)

theorem answered_some {frame : Frame} {id : ℕ} {g : GroupRef}
    (h : answered c frame = some (id, g)) : c.waiters.lookup id = some g := by
  unfold answered at h
  obtain ⟨id', _, h⟩ := Option.bind_eq_some_iff.mp h
  obtain ⟨g', hg', heq⟩ := Option.map_eq_some_iff.mp h
  cases heq
  exact hg'

structure Answering (c base : Client) (acked : GroupRef → Option Topic) (id : ℕ) (g : GroupRef) :
    Prop where
  coherent : Coherent base acked
  ready : base.ready = true
  born : g < base.nextGroup
  unacked : acked g = none
  idle : ∀ k, base.waiters.lookup k ≠ some g
  quiet : (base.heap g).pending = false
  live : ∀ other, Live base other ↔ Live c other
  subs : ∀ other, (base.heap other).subs = (c.heap other).subs
  byTopic : base.byTopic = c.byTopic

theorem answering (h : Coherent c acked) (id : ℕ) (g : GroupRef)
    (hwaits : c.waiters.lookup id = some g) :
    Answering c (answer { c with waiters := c.waiters.erase id } g) acked id g where
  coherent := (h.forgetWaiter id).answer g
  ready := by
    change c.ready = true
    cases hready : c.ready with
    | true => rfl
    | false =>
      rw [(h.offline hready).1 id] at hwaits
      cases hwaits
  born := (h.waiting id g hwaits).1
  unacked := (h.waiting id g hwaits).2.2
  idle k hk := by
    change (c.waiters.erase id).lookup k = some g at hk
    rw [lookup_erase_ite] at hk
    split_ifs at hk with hid
    exact hid (h.single k id g hk hwaits)
  quiet := by rw [answer_heap, if_pos rfl]
  live other := by
    refine live_congr ?_ rfl
    rw [answer_heap]
    split_ifs <;> rfl
  subs other := by
    rw [answer_heap]
    split_ifs <;> rfl
  byTopic := rfl

theorem not_live_drop : ¬ Live (drop c g) g := by
  intro hlive
  unfold Live drop at hlive
  dsimp only at hlive
  rw [lookup_erase_ite, if_pos rfl] at hlive
  cases hlive

/-- The topic a result gives its group. -/
def answerTopic (frame : Frame) : Option Topic :=
  if frame.failed then none else frame.ack.map (·.topic)

theorem result_coherent (h : Coherent c acked) (frame : Frame) {id : ℕ} {g : GroupRef}
    (hwaits : c.waiters.lookup id = some g) :
    Coherent (onAck { c with waiters := c.waiters.erase id } g frame)
      (update acked g (answerTopic frame)) := by
  have base := answering c acked h id g hwaits
  obtain ⟨hdead, heq⟩ | ⟨_, _, hkept⟩ | ⟨_, hfailed, hsubs, ack, hack, heq⟩ :=
    onAck_spec { c with waiters := c.waiters.erase id } g frame
  · rw [heq]
    refine base.coherent.note g _ base.ready base.born base.unacked base.idle base.quiet ?_
    intro hlive
    exact absurd ((base.live g).mp hlive) hdead
  · refine Coherent.kept ?_ hkept
    refine (base.coherent.drop g).note g _ base.ready base.born base.unacked base.idle base.quiet ?_
    intro hlive
    exact absurd hlive (not_live_drop _ g)
  · have htopic : answerTopic frame = some ack.topic := by
      unfold answerTopic
      rw [hfailed, hack]
      rfl
    rw [heq, htopic]
    refine Coherent.kept ?_ (takeAck_kept _ g ack)
    refine base.coherent.place g ack base.ready base.born base.unacked base.idle base.quiet ?_
    rw [base.subs]
    exact hsubs

def removed (acked : GroupRef → Option Topic) (topic : Topic) (g : GroupRef) : Option Topic :=
  if acked g = some topic then none else acked g

theorem removed_none (topic : Topic) {g : GroupRef} (h : acked g = none) :
    removed acked topic g = none := by
  unfold removed
  rw [h]
  exact ite_self _

section
variable {c : Client} {acked : GroupRef → Option Topic}

theorem Coherent.remove (h : Coherent c acked) (topic : Topic)
    (hfree : c.byTopic.lookup topic = none) : Coherent c (removed acked topic) where
  placed other g hg := by
    obtain ⟨hlt, htopic, hacked⟩ := h.placed other g hg
    refine ⟨hlt, htopic, ?_⟩
    unfold removed
    rw [hacked, if_neg]
    intro hsame
    cases hsame
    rw [hfree] at hg
    cases hg
  waiting id g hg := by
    obtain ⟨hlt, hid, hacked⟩ := h.waiting id g hg
    exact ⟨hlt, hid, removed_none acked topic hacked⟩
  single := h.single
  offline hoff := by
    obtain ⟨hnone, hacked⟩ := h.offline hoff
    exact ⟨hnone, fun g => removed_none acked topic (hacked g)⟩
  pending g hg := removed_none acked topic (h.pending g hg)
  empty g hlive hsubs := removed_none acked topic (h.empty g hlive hsubs)
  unborn g hg := removed_none acked topic (h.unborn g hg)

theorem onUnsubscribed_placed (h : Coherent c acked) {frame : Frame} {topic : Topic}
    (htopic : frame.topic.getD "" = topic) {g : GroupRef}
    (hplaced : c.byTopic.lookup topic = some g) :
    (frame.reason = some "reset" ∧ onUnsubscribed c frame =
        let told := each { c with byTopic := c.byTopic.erase topic } g [.gap .reset]
        if told.ready then send told g else told) ∨
    onUnsubscribed c frame =
      each { c with byTopic := c.byTopic.erase topic, groups := c.groups.erase (c.heap g).id } g
        [.kick] := by
  unfold onUnsubscribed
  rw [htopic, hplaced]
  dsimp only
  rw [(h.placed topic g hplaced).2.1]
  by_cases hreason : frame.reason = some "reset"
  · rw [if_pos hreason]
    exact .inl ⟨hreason, rfl⟩
  · rw [if_neg hreason]
    exact .inr rfl

theorem unsubscribed_coherent (h : Coherent c acked) (frame : Frame) :
    Coherent (onUnsubscribed c frame) (removed acked (frame.topic.getD "")) := by
  generalize htopic : frame.topic.getD "" = topic
  cases hplaced : c.byTopic.lookup topic with
  | none =>
    have hsame : onUnsubscribed c frame = c := by
      unfold onUnsubscribed
      rw [htopic, hplaced]
    rw [hsame]
    exact h.remove topic hplaced
  | some g =>
    obtain ⟨hborn, _, hacked⟩ := h.placed topic g hplaced
    have hfree : (c.byTopic.erase topic).lookup topic = none := by
      rw [lookup_erase_ite, if_pos rfl]
    have hgone : removed acked topic g = none := by
      unfold removed
      rw [if_pos hacked]
    obtain ⟨_, heq⟩ | heq := onUnsubscribed_placed h htopic hplaced
    · rw [heq]
      have htold := ((h.prune c.groups _ (fun _ _ hin => hin)
        (erase_some c.byTopic topic)).remove topic hfree).kept (each_kept _ g [.gap .reset])
      dsimp only
      split_ifs with hready
      · refine htold.send g hready hborn hgone fun k hk => ?_
        rw [(h.waiting k g hk).2.2] at hacked
        cases hacked
      · exact htold
    · rw [heq]
      exact ((h.prune _ _ (erase_some c.groups _) (erase_some c.byTopic topic)).remove topic
        hfree).kept (each_kept _ g [.kick])

theorem Coherent.members (h : Coherent c acked) (g : GroupRef) (f : List SubRef → List SubRef)
    (subs : SubRef → Sub) (nextSub : SubRef)
    (hempty : Live c g → f (c.heap g).subs = [] → acked g = none) :
    Coherent { alter c g (fun group => { group with subs := f group.subs }) with
      subs := subs, nextSub := nextSub } acked := by
  have hheap : ∀ other, (alter c g fun group => { group with subs := f group.subs }).heap other =
      if other = g then { c.heap other with subs := f (c.heap other).subs } else c.heap other :=
    fun other => alter_heap c g other _
  have hfields : ∀ other,
      ((alter c g fun group => { group with subs := f group.subs }).heap other).id =
        (c.heap other).id ∧
      ((alter c g fun group => { group with subs := f group.subs }).heap other).topic =
        (c.heap other).topic ∧
      ((alter c g fun group => { group with subs := f group.subs }).heap other).pending =
        (c.heap other).pending := by
    intro other
    rw [hheap]
    split_ifs <;> exact ⟨rfl, rfl, rfl⟩
  refine ⟨?_, h.waiting, h.single, h.offline, ?_, ?_, h.unborn⟩
  · intro topic other hother
    dsimp only
    rw [(hfields other).2.1]
    exact h.placed topic other hother
  · intro other hother
    dsimp only at hother
    rw [(hfields other).2.2] at hother
    exact h.pending other hother
  · intro other hlive hsubs
    have hbefore : Live c other := (live_congr (hfields other).1 rfl).mp hlive
    dsimp only at hsubs
    rw [hheap] at hsubs
    split_ifs at hsubs with hother
    · subst hother
      exact hempty hbefore hsubs
    · exact h.empty other hbefore hsubs

theorem subscribe_coherent (stableKey : Value → String) (h : Coherent c acked) (channel : String)
    (key : Value) : Coherent (subscribe stableKey c channel key) acked := by
  unfold subscribe
  dsimp only
  cases hgroup : c.groups.lookup (groupId stableKey channel key) with
  | some g =>
    refine h.members g (fun subs => subs ++ [c.nextSub]) _ _ fun _ hnil => ?_
    simp at hnil
  | none =>
    dsimp only
    have hheap : ∀ other, other ≠ c.nextGroup → update c.heap c.nextGroup
        ⟨channel, key, groupId stableKey channel key, [c.nextSub], none, none, none, false⟩ other =
        c.heap other := fun other hne => update_of_ne hne _ _
    have hopened : Coherent (openGroup stableKey c channel key) acked := by
      unfold openGroup
      refine ⟨?_, ?_, h.single, h.offline, ?_, ?_, ?_⟩
      · intro topic other hother
        obtain ⟨hlt, htopic, hacked⟩ := h.placed topic other hother
        dsimp only
        rw [hheap other (Nat.ne_of_lt hlt)]
        exact ⟨Nat.lt_succ_of_lt hlt, htopic, hacked⟩
      · intro id other hother
        obtain ⟨hlt, hid, hacked⟩ := h.waiting id other hother
        exact ⟨Nat.lt_succ_of_lt hlt, hid, hacked⟩
      · intro other hother
        dsimp only at hother
        by_cases hnew : other = c.nextGroup
        · rw [hnew, update_self] at hother
          cases hother
        · rw [hheap other hnew] at hother
          exact h.pending other hother
      · intro other hlive hsubs
        dsimp only at hsubs
        by_cases hnew : other = c.nextGroup
        · rw [hnew, update_self] at hsubs
          cases hsubs
        · rw [hheap other hnew] at hsubs
          refine h.empty other ?_ hsubs
          unfold Live at hlive ⊢
          dsimp only at hlive
          rw [hheap other hnew, lookup_insert_ite] at hlive
          split_ifs at hlive
          · exact absurd (Option.some.inj hlive).symm hnew
          · exact hlive
      · intro other hother
        exact h.unborn other (Nat.le_of_succ_le hother)
    split_ifs with hready
    · refine hopened.send c.nextGroup hready (Nat.lt_succ_self _)
        (h.unborn c.nextGroup (Nat.le_refl _)) fun k hk => ?_
      exact absurd (h.waiting k c.nextGroup hk).1 (Nat.lt_irrefl _)
    · exact hopened

theorem leave_drop_kept (c : Client) (sub : SubRef) :
    Kept (leave (drop c (c.subs sub).owner) sub) (drop (leave c sub) (c.subs sub).owner) := by
  have hheap : ((leave c sub).heap (c.subs sub).owner).id = (c.heap (c.subs sub).owner).id ∧
      ((leave c sub).heap (c.subs sub).owner).topic = (c.heap (c.subs sub).owner).topic := by
    rw [leave, alter_heap, if_pos rfl]
    exact ⟨rfl, rfl⟩
  refine ⟨?_, ?_, rfl, le_rfl, rfl, rfl, fun _ => ⟨rfl, rfl, rfl, rfl⟩⟩
  · unfold drop
    rw [hheap.1]
    rfl
  · unfold drop
    rw [hheap.2]
    rfl

theorem unsubscribe_coherent (h : Coherent c acked) (sub : SubRef) :
    Coherent (unsubscribe c sub) acked := by
  have hleave : ∀ {c' : Client}, Coherent c' acked → (Live c' (c'.subs sub).owner →
      (c'.heap (c'.subs sub).owner).subs.filter (· ≠ sub) = [] → acked (c'.subs sub).owner = none) →
      Coherent (leave c' sub) acked :=
    fun h' hempty => h'.members _ (fun subs => subs.filter (· ≠ sub)) _ _ hempty
  have hdropped : Coherent (drop (leave c sub) (c.subs sub).owner) acked := by
    refine Coherent.kept (hleave (h.drop (c.subs sub).owner) fun hlive => ?_) (leave_drop_kept c sub)
    exact absurd hlive (not_live_drop c _)
  obtain ⟨hstays, heq | heq⟩ | ⟨_, ⟨topic, _, _, heq⟩ | ⟨_, heq⟩⟩ := unsubscribe_cases c sub
  · rw [heq]
    exact h
  · rw [heq]
    refine hleave h fun hlive hnil => ?_
    by_cases hin : sub ∈ (c.heap (c.subs sub).owner).subs
    · refine h.pending _ ?_
      by_contra hquiet
      exact hstays ⟨hin, hnil, Bool.eq_false_iff.mpr hquiet⟩
    · refine h.empty _ hlive ?_
      rw [filter_eq_self.mpr] at hnil
      · exact hnil
      · intro other hother
        exact decide_eq_true fun hsame => hin (hsame ▸ hother)
  · rw [heq]
    exact hdropped.kept ⟨rfl, rfl, rfl, Nat.le_succ _, rfl, rfl, fun _ => ⟨rfl, rfl, rfl, rfl⟩⟩
  · rw [heq]
    exact hdropped

theorem groupRefs_nodup {c : Client} (hkeyed : Keyed c) : (groupRefs c).Nodup := by
  unfold groupRefs
  rw [nodup_reverse]
  refine List.Nodup.map_on ?_ c.groups.nodupKeys.nodup
  rintro ⟨id, g⟩ hin ⟨id', g'⟩ hin' hsame
  change g = g' at hsame
  subst hsame
  have hid := (hkeyed id g ((mem_entries_iff c.groups id g).mp hin)).2
  have hid' := (hkeyed id' g ((mem_entries_iff c.groups id' g).mp hin')).2
  rw [← hid, ← hid']

theorem mem_groupRefs {c : Client} {g : GroupRef} (h : g ∈ groupRefs c) :
    ∃ id, c.groups.lookup id = some g := by
  unfold groupRefs at h
  rw [mem_reverse] at h
  obtain ⟨⟨id, other⟩, hin, rfl⟩ := mem_map.mp h
  exact ⟨id, (mem_entries_iff c.groups id other).mp hin⟩

theorem resubscribe_coherent {gs : List GroupRef} (hnodup : gs.Nodup) (c : Client)
    (h : Coherent c fun _ => none) (hready : c.ready = true)
    (hgs : ∀ g ∈ gs, g < c.nextGroup ∧ ∀ k, c.waiters.lookup k ≠ some g) :
    Coherent (gs.foldl resubscribeOne c) fun _ => none := by
  induction gs generalizing c with
  | nil => exact h
  | cons g gs ih =>
    obtain ⟨hout, hrest⟩ := nodup_cons.mp hnodup
    obtain ⟨hborn, hidle⟩ := hgs g mem_cons_self
    rw [foldl_cons]
    unfold resubscribeOne
    split_ifs
    · refine ih hrest _ ?_ hready fun other hother => hgs other (mem_cons_of_mem g hother)
      exact h.prune _ _ (erase_some c.groups _) fun _ _ hin => hin
    · refine ih hrest _ (h.send g hready hborn rfl hidle) hready fun other hother => ?_
      obtain ⟨hlt, hnone⟩ := hgs other (mem_cons_of_mem g hother)
      refine ⟨hlt, fun k hk => ?_⟩
      change (c.waiters.insert c.nextId g).lookup k = some other at hk
      rw [lookup_insert_ite] at hk
      split_ifs at hk
      · cases hk
        exact hout hother
      · exact hnone k hk

theorem ready_coherent (hkeyed : Keyed c) (h : Coherent c acked) (hoff : c.ready = false) :
    Coherent (becomeReady c) acked := by
  obtain ⟨hnone, hacked⟩ := h.offline hoff
  have hsame : acked = fun _ => none := funext hacked
  subst hsame
  refine resubscribe_coherent (groupRefs_nodup hkeyed) _ ?_ rfl fun g hg => ?_
  · exact ⟨h.placed, h.waiting, h.single, nofun, h.pending, h.empty, h.unborn⟩
  · obtain ⟨id, hid⟩ := mem_groupRefs hg
    refine ⟨(hkeyed id g hid).1, fun k hk => ?_⟩
    change c.waiters.lookup k = some g at hk
    rw [hnone k] at hk
    cases hk

theorem lost_coherent (c : Client) : Coherent (lost c) fun _ => none where
  placed topic g hg := by cases hg
  waiting id g hg := by cases hg
  single id id' g hg := by cases hg
  offline _ := ⟨fun _ => rfl, fun _ => rfl⟩
  pending _ _ := rfl
  empty _ _ _ := rfl
  unborn _ _ := rfl

end

variable (c : Client) (stableKey : Value → String) (o : Observed) (a : Act) (frame : Frame)

theorem observe_eq (h : a = .ready → o.client.ready = false) :
    observe stableKey o a = ⟨step stableKey o.client a, ackedAfter o a⟩ := by
  unfold observe
  cases a with
  | ready => rw [h rfl]
  | _ => rfl

theorem observe_again (h : o.client.ready = true) : observe stableKey o .ready = o := by
  unfold observe
  rw [h]

theorem ackedAfter_result (hkind : frame.kind = .result) {id : ℕ} {g : GroupRef}
    (hanswered : answered o.client frame = some (id, g)) :
    ackedAfter o (.frame frame) = update o.acked g (answerTopic frame) := by
  funext other
  unfold ackedAfter
  dsimp only
  rw [hkind]
  dsimp only
  rw [hanswered, Option.map_some]
  by_cases hother : other = g
  · subst hother
    rw [if_pos rfl, update_self]
    rfl
  · rw [if_neg, update_of_ne hother]
    exact fun hsame => hother (Option.some.inj hsame).symm

theorem ackedAfter_unanswered (hkind : frame.kind = .result)
    (hanswered : answered o.client frame = none) : ackedAfter o (.frame frame) = o.acked := by
  funext g
  unfold ackedAfter
  dsimp only
  rw [hkind]
  dsimp only
  rw [hanswered]
  exact if_neg (by simp)

theorem ackedAfter_unsubscribed (hkind : frame.kind = .unsubscribed) :
    ackedAfter o (.frame frame) = removed o.acked (frame.topic.getD "") := by
  funext g
  unfold ackedAfter
  dsimp only
  rw [hkind]
  rfl

theorem ackedAfter_other (hresult : frame.kind ≠ .result) (hgone : frame.kind ≠ .unsubscribed) :
    ackedAfter o (.frame frame) = o.acked := by
  funext g
  unfold ackedAfter
  dsimp only
  cases hkind : frame.kind with
  | result => exact absurd hkind hresult
  | unsubscribed => exact absurd hkind hgone
  | _ => rfl

theorem handleFrame_unsubscribed (hkind : frame.kind = .unsubscribed) :
    handleFrame c frame = onUnsubscribed c frame := by
  unfold handleFrame
  rw [hkind]

theorem handleFrame_result (hkind : frame.kind = .result) : handleFrame c frame =
      match answered c frame with
      | none => c
      | some (id, g) => onAck { c with waiters := c.waiters.erase id } g frame := by
  unfold handleFrame
  rw [hkind]
  rfl

theorem frame_coherent (h : Coherent o.client o.acked) (frame : Frame) :
    Coherent (handleFrame o.client frame) (ackedAfter o (.frame frame)) := by
  cases hkind : frame.kind with
  | result =>
    rw [handleFrame_result o.client frame hkind]
    cases hanswered : answered o.client frame with
    | none =>
      rw [ackedAfter_unanswered o frame hkind hanswered]
      exact h
    | some pair =>
      obtain ⟨id, g⟩ := pair
      rw [ackedAfter_result o frame hkind hanswered]
      exact result_coherent o.client o.acked h frame
        (answered_some o.client hanswered)
  | unsubscribed =>
    rw [ackedAfter_unsubscribed o frame hkind, handleFrame_unsubscribed o.client frame hkind]
    exact unsubscribed_coherent h frame
  | _ =>
    rw [ackedAfter_other o frame (by simp [hkind]) (by simp [hkind])]
    unfold handleFrame
    rw [hkind]
    first
      | exact h
      | exact h.kept (onPublish_kept o.client frame)
      | exact h.kept (onReset_kept o.client frame)
      | (cases frame.id with
          | none => exact h
          | some id => exact h.forgetWaiter id)

theorem observe_tracked (h : Tracked o) : Tracked (observe stableKey o a) := by
  by_cases hagain : a = .ready ∧ o.client.ready = true
  · obtain ⟨rfl, hready⟩ := hagain
    rw [observe_again stableKey o hready]
    exact h
  · have hfirst : a = .ready → o.client.ready = false := by
      intro ha
      rw [Bool.eq_false_iff]
      exact fun hready => hagain ⟨ha, hready⟩
    rw [observe_eq stableKey o a hfirst]
    refine ⟨step_watched _ stableKey o.client a h.watched fun frame _ => ?_,
      step_keyed stableKey o.client a h.keyed, ?_⟩
    · exact ⟨fun _ => trivial, fun _ _ _ => trivial⟩
    · cases a with
      | subscribe channel key => exact subscribe_coherent stableKey h.coherent channel key
      | unsubscribe sub => exact unsubscribe_coherent h.coherent sub
      | frame frame => exact frame_coherent o h.coherent frame
      | ready => exact ready_coherent h.keyed h.coherent (hfirst rfl)
      | lost => exact lost_coherent o.client
      | stop => exact (lost_coherent o.client).prune ∅ _ nofun fun _ _ h => h

theorem fresh_tracked : Tracked fresh where
  watched := newClient_watched
  keyed := newClient_keyed
  coherent := by
    refine ⟨?_, ?_, ?_, fun _ => ⟨fun _ => rfl, fun _ => rfl⟩, fun _ _ => rfl, fun _ _ _ => rfl,
      fun _ _ => rfl⟩
    · intro topic g hg
      cases hg
    · intro id g hg
      cases hg
    · intro id id' g hg
      cases hg

theorem held_of {o o' : Observed} (hheld : Held o)
    (h : ∀ g topic, o'.acked g = some topic → (o'.client.heap g).subs ≠ [] →
      o.acked g = some topic ∧ (o.client.heap g).subs ≠ [] ∧
        (o.client.byTopic.lookup topic = some g → o'.client.byTopic.lookup topic = some g)) :
    Held o' := by
  intro g topic hacked hsubs
  obtain ⟨hbefore, hmembers, hkept⟩ := h g topic hacked hsubs
  exact hkept (hheld g topic hbefore hmembers)

theorem Kept.held {c c' : Client} {acked : GroupRef → Option Topic} (kept : Kept c c') :
    Held ⟨c', acked⟩ ↔ Held ⟨c, acked⟩ := by
  unfold Held
  dsimp only
  rw [kept.byTopic]
  refine forall₂_congr fun g topic => ?_
  rw [(kept.heap g).2.1]

theorem subscribe_held (h : Tracked o) (hheld : Held o) (channel : String) (key : Value) :
    Held ⟨subscribe stableKey o.client channel key, o.acked⟩ := by
  refine held_of hheld fun g topic hacked hsubs => ?_
  dsimp only at hacked hsubs ⊢
  refine ⟨hacked, ?_, ?_⟩
  · unfold subscribe at hsubs
    dsimp only at hsubs
    cases hgroup : o.client.groups.lookup (groupId stableKey channel key) with
    | some joined =>
      intro hnil
      have hlive : Live o.client joined := by
        unfold Live
        rw [(h.keyed _ joined hgroup).2]
        exact hgroup
      by_cases hsame : g = joined
      · subst hsame
        rw [h.coherent.empty g hlive hnil] at hacked
        cases hacked
      · rw [hgroup] at hsubs
        dsimp only at hsubs
        rw [alter_heap, if_neg hsame] at hsubs
        exact hsubs hnil
    | none =>
      rw [hgroup] at hsubs
      dsimp only at hsubs
      have hold : g ≠ o.client.nextGroup := by
        rintro rfl
        rw [h.coherent.unborn _ (Nat.le_refl _)] at hacked
        cases hacked
      split_ifs at hsubs
      · rw [send_heap, if_neg hold] at hsubs
        dsimp only at hsubs
        rw [update_of_ne hold] at hsubs
        exact hsubs
      · dsimp only at hsubs
        rw [update_of_ne hold] at hsubs
        exact hsubs
  · intro hplaced
    unfold subscribe
    dsimp only
    split
    · exact hplaced
    · split_ifs <;> exact hplaced

theorem unsubscribe_held (hheld : Held o) (sub : SubRef) :
    Held ⟨unsubscribe o.client sub, o.acked⟩ := by
  refine held_of hheld fun g topic hacked hsubs => ?_
  refine ⟨hacked, ?_, fun hplaced => ?_⟩
  · obtain ⟨member, hmember⟩ := exists_mem_of_ne_nil _ hsubs
    exact ne_nil_of_mem ((unsubscribe_calm o.client sub).subs g member hmember)
  · have hdropped : LeavesEmpty o.client sub → ((leave o.client sub).heap g).subs ≠ [] →
        (drop (leave o.client sub) (o.client.subs sub).owner).byTopic.lookup topic = some g := by
      intro hleaves hmembers
      refine (dropTopic_some _ _ _ topic g).mpr ⟨hplaced, ?_⟩
      rintro ⟨_, rfl⟩
      rw [leave, alter_heap, if_pos rfl] at hmembers
      exact hmembers hleaves.2.1
    obtain ⟨_, heq | heq⟩ | ⟨hleaves, ⟨_, _, _, heq⟩ | ⟨_, heq⟩⟩ := unsubscribe_cases o.client sub
    · rw [heq]
      exact hplaced
    · rw [heq]
      exact hplaced
    · dsimp only at hsubs ⊢
      rw [heq] at hsubs ⊢
      exact hdropped hleaves hsubs
    · dsimp only at hsubs ⊢
      rw [heq] at hsubs ⊢
      exact hdropped hleaves hsubs

theorem unsubscribed_held (h : Tracked o) (hheld : Held o) (frame : Frame) :
    Held ⟨onUnsubscribed o.client frame, removed o.acked (frame.topic.getD "")⟩ := by
  generalize hname : frame.topic.getD "" = gone
  have hpruned : Held ⟨{ o.client with byTopic := o.client.byTopic.erase gone },
      removed o.acked gone⟩ := by
    refine held_of hheld fun g topic hacked hsubs => ?_
    dsimp only at hacked hsubs ⊢
    unfold removed at hacked
    split_ifs at hacked with hgone
    refine ⟨hacked, hsubs, fun hplaced => ?_⟩
    rw [lookup_erase_ite, if_neg, hplaced]
    rintro rfl
    exact hgone hacked
  cases hplaced : o.client.byTopic.lookup gone with
  | none =>
    have hsame : onUnsubscribed o.client frame = o.client := by
      unfold onUnsubscribed
      rw [hname, hplaced]
    rw [hsame]
    refine held_of hpruned fun g topic hacked hsubs => ⟨hacked, hsubs, fun hkept => ?_⟩
    exact erase_some o.client.byTopic gone topic g hkept
  | some g =>
    obtain ⟨_, heq⟩ | heq := onUnsubscribed_placed h.coherent hname hplaced
    · rw [heq]
      have htold := (each_kept { o.client with byTopic := o.client.byTopic.erase gone } g
        [.gap .reset]).held.mpr hpruned
      dsimp only
      split_ifs
      · refine held_of htold fun other topic hacked hsubs => ?_
        dsimp only at hsubs
        rw [send_heap] at hsubs
        split_ifs at hsubs <;> exact ⟨hacked, hsubs, id⟩
      · exact htold
    · rw [heq]
      refine (each_kept { o.client with
        byTopic := o.client.byTopic.erase gone
        groups := o.client.groups.erase (o.client.heap g).id } g [.kick]).held.mpr ?_
      exact hpruned

theorem held_of_none (acked : GroupRef → Option Topic) (h : ∀ g, acked g = none) :
    Held ⟨c, acked⟩ := by
  intro g topic hacked
  dsimp only at hacked
  rw [h g] at hacked
  cases hacked

/-- What `Clear` asks of an answer to a group's subscribe. -/
def Room (o : Observed) (frame : Frame) (g : GroupRef) : Prop :=
  ∀ topic, answerTopic frame = some topic → (o.client.heap g).subs ≠ [] → Live o.client g ∧
      ∀ other, other ≠ g → (o.client.heap other).subs ≠ [] → o.acked other ≠ some topic

theorem clear_iff_room (hkind : frame.kind = .result) {id : ℕ} {g : GroupRef}
    (hanswered : answered o.client frame = some (id, g)) :
    Clear o (.frame frame) ↔ Room o frame g := by
  constructor
  · intro hclear topic htopic hsubs
    unfold answerTopic at htopic
    split_ifs at htopic with hfailed
    obtain ⟨ack, hack, rfl⟩ := Option.map_eq_some_iff.mp htopic
    exact hclear hkind id g ack hanswered (Bool.eq_false_iff.mpr hfailed) hack hsubs
  · intro hroom _ id' g' ack hanswered' hfailed hack hsubs
    rw [hanswered] at hanswered'
    cases hanswered'
    refine hroom ack.topic ?_ hsubs
    unfold answerTopic
    rw [hfailed, hack]
    rfl

theorem forgotten_held (hheld : Held o) (hcoherent : Coherent o.client o.acked) (frame : Frame)
    {g : GroupRef} {c' : Client} (hunacked : o.acked g = none) (hdead : ¬ Live o.client g)
    (hsubs : ∀ other, (c'.heap other).subs = (o.client.heap other).subs)
    (htopics : c'.byTopic = o.client.byTopic) :
    Held ⟨c', update o.acked g (answerTopic frame)⟩ ↔ Room o frame g := by
  constructor
  · intro hafter topic htopic hmembers
    have hplaced := hafter g topic ((update_self g _ o.acked).trans htopic)
      (by rw [hsubs]; exact hmembers)
    dsimp only at hplaced
    rw [htopics] at hplaced
    have hacked := (hcoherent.placed topic g hplaced).2.2
    rw [hunacked] at hacked
    cases hacked
  · intro hroom
    refine held_of hheld fun other topic hacked hmembers => ?_
    dsimp only at hacked hmembers ⊢
    rw [hsubs] at hmembers
    by_cases hother : other = g
    · subst hother
      rw [update_self] at hacked
      exact absurd (hroom topic hacked hmembers).1 hdead
    · rw [update_of_ne hother] at hacked
      refine ⟨hacked, hmembers, fun hplaced => ?_⟩
      rw [htopics]
      exact hplaced

theorem ended_held (hheld : Held o) {frame : Frame} {g : GroupRef} {base : Client}
    (hsubs : ∀ other, (base.heap other).subs = (o.client.heap other).subs)
    (htopics : base.byTopic = o.client.byTopic)
    (hends : answerTopic frame = none ∨ (o.client.heap g).subs = []) :
    Held ⟨drop base g, update o.acked g (answerTopic frame)⟩ := by
  refine held_of hheld fun other topic hacked hmembers => ?_
  change (base.heap other).subs ≠ [] at hmembers
  rw [hsubs] at hmembers
  dsimp only at hacked ⊢
  by_cases hother : other = g
  · subst hother
    rw [update_self] at hacked
    obtain hnone | hnil := hends
    · rw [hnone] at hacked
      cases hacked
    · exact absurd hnil hmembers
  · rw [update_of_ne hother] at hacked
    refine ⟨hacked, hmembers, fun hplaced => ?_⟩
    refine (dropTopic_some base.byTopic g _ topic other).mpr ⟨?_, fun hown => hother hown.2⟩
    rw [htopics]
    exact hplaced

theorem taken_held (hheld : Held o) {frame : Frame} {g : GroupRef} {base : Client} {ack : Ack}
    (hsubs : ∀ other, (base.heap other).subs = (o.client.heap other).subs)
    (htopics : base.byTopic = o.client.byTopic) (hlive : Live o.client g)
    (hmine : (o.client.heap g).subs ≠ []) (htopic : answerTopic frame = some ack.topic) :
    Held ⟨placeAck base g ack, update o.acked g (answerTopic frame)⟩ ↔ Room o frame g := by
  have hmembers : ∀ other,
      ((placeAck base g ack).heap other).subs = (o.client.heap other).subs := by
    intro other
    rw [placeAck_heap, ← hsubs]
    split_ifs <;> rfl
  have hplace : ∀ topic, (placeAck base g ack).byTopic.lookup topic =
      if topic = ack.topic then some g else o.client.byTopic.lookup topic := by
    intro topic
    change (base.byTopic.insert ack.topic g).lookup topic = _
    rw [lookup_insert_ite, htopics]
  constructor
  · intro hafter topic hanswer _
    rw [htopic] at hanswer
    cases hanswer
    refine ⟨hlive, fun other hother hothers hacked => ?_⟩
    have hplaced := hafter other ack.topic ((update_of_ne hother _ o.acked).trans hacked)
      (by rw [hmembers]; exact hothers)
    dsimp only at hplaced
    rw [hplace, if_pos rfl] at hplaced
    exact hother (Option.some.inj hplaced).symm
  · intro hroom other topic hacked hothers
    dsimp only at hacked hothers ⊢
    rw [hmembers] at hothers
    rw [hplace]
    by_cases hother : other = g
    · subst hother
      rw [update_self, htopic] at hacked
      rw [if_pos (Option.some.inj hacked).symm]
    · rw [update_of_ne hother] at hacked
      rw [if_neg, hheld other topic hacked hothers]
      rintro rfl
      exact (hroom ack.topic htopic hmine).2 other hother hothers hacked

theorem result_held (h : Tracked o) (hheld : Held o) (frame : Frame) {id : ℕ} {g : GroupRef}
    (hwaits : o.client.waiters.lookup id = some g) :
    Held ⟨onAck { o.client with waiters := o.client.waiters.erase id } g frame,
      update o.acked g (answerTopic frame)⟩ ↔ Room o frame g := by
  have base := answering o.client o.acked h.coherent id g hwaits
  obtain ⟨hdead, heq⟩ | ⟨_, hends, hkept⟩ | ⟨hlive, hfailed, hsubs, ack, hack, heq⟩ :=
    onAck_spec { o.client with waiters := o.client.waiters.erase id } g frame
  · rw [heq]
    exact forgotten_held o hheld h.coherent frame base.unacked hdead base.subs base.byTopic
  · have hnothing : answerTopic frame = none ∨ (o.client.heap g).subs = [] := by
      unfold answerTopic
      obtain hfailed | hack | hnil := hends
      · rw [if_pos hfailed]
        exact .inl rfl
      · rw [hack]
        exact .inl (ite_self _)
      · exact .inr hnil
    rw [hkept.held]
    refine iff_of_true (ended_held o hheld base.subs base.byTopic hnothing) ?_
    intro topic htopic hsubs
    obtain hnone | hnil := hnothing
    · rw [hnone] at htopic
      cases htopic
    · exact absurd hnil hsubs
  · have htopic : answerTopic frame = some ack.topic := by
      unfold answerTopic
      rw [hfailed, hack]
      rfl
    rw [heq, (takeAck_kept _ g ack).held]
    exact taken_held o hheld base.subs base.byTopic hlive hsubs htopic

theorem frame_held (h : Tracked o) (hheld : Held o) (frame : Frame) :
    Held ⟨handleFrame o.client frame, ackedAfter o (.frame frame)⟩ ↔ Clear o (.frame frame) := by
  by_cases hresult : frame.kind = .result
  · rw [handleFrame_result o.client frame hresult]
    cases hanswered : answered o.client frame with
    | none =>
      rw [ackedAfter_unanswered o frame hresult hanswered]
      refine iff_of_true hheld fun _ id g ack hanswered' => ?_
      rw [hanswered] at hanswered'
      cases hanswered'
    | some pair =>
      obtain ⟨id, g⟩ := pair
      rw [ackedAfter_result o frame hresult hanswered, clear_iff_room o frame hresult hanswered]
      exact result_held o h hheld frame (answered_some o.client hanswered)
  · refine iff_of_true ?_ fun hkind => absurd hkind hresult
    cases hkind : frame.kind with
    | result => exact absurd hkind hresult
    | unsubscribed =>
      rw [ackedAfter_unsubscribed o frame hkind, handleFrame_unsubscribed o.client frame hkind]
      exact unsubscribed_held o h hheld frame
    | _ =>
      rw [ackedAfter_other o frame (by simp [hkind]) (by simp [hkind])]
      unfold handleFrame
      rw [hkind]
      first
        | exact hheld
        | exact (onPublish_kept o.client frame).held.mpr hheld
        | exact (onReset_kept o.client frame).held.mpr hheld
        | (cases frame.id <;> exact hheld)

theorem observe_held (h : Tracked o) (hheld : Held o) :
    Held (observe stableKey o a) ↔ Clear o a := by
  by_cases hagain : a = .ready ∧ o.client.ready = true
  · obtain ⟨rfl, hready⟩ := hagain
    rw [observe_again stableKey o hready]
    exact iff_of_true hheld trivial
  · have hfirst : a = .ready → o.client.ready = false := by
      intro ha
      rw [Bool.eq_false_iff]
      exact fun hready => hagain ⟨ha, hready⟩
    rw [observe_eq stableKey o a hfirst]
    cases a with
    | subscribe channel key =>
      exact iff_of_true (subscribe_held stableKey o h hheld channel key) trivial
    | unsubscribe sub => exact iff_of_true (unsubscribe_held o hheld sub) trivial
    | frame frame => exact frame_held o h hheld frame
    | ready =>
      exact iff_of_true (held_of_none _ _ (h.coherent.offline (hfirst rfl)).2) trivial
    | lost | stop => exact iff_of_true (held_of_none _ _ fun _ => rfl) trivial

/-- Delivery is complete in every state of a run exactly if every ack of the run
finds its group registered and its topic free. -/
theorem complete_throughout_iff (acts : List Act) :
    (∀ first, first <+: acts → Complete (run (observe stableKey) fresh first)) ↔
      Meets (observe stableKey) Clear fresh acts := by
  have htracked : ∀ first, Tracked (run (observe stableKey) fresh first) := fun first =>
    run_invariant (observe stableKey) Tracked (observe_tracked stableKey) fresh first fresh_tracked
  have hheld := throughout_iff_meets (observe stableKey) Clear Tracked Held
    (observe_tracked stableKey) (observe_held stableKey) fresh acts fresh_tracked
    (held_of_none _ _ fun _ => rfl)
  rw [← hheld]
  exact forall₂_congr fun first _ => complete_iff_held (htracked first)

def twoKeyActs : List Act :=
  [.ready, .subscribe "room" (.string "7"), .subscribe "room" (.string "07"),
    .frame (resultFrame 1 ⟨"room:7", 4, 0⟩), .frame (resultFrame 2 ⟨"room:7", 4, 0⟩)]

/-- The first of the two groups has lost its place, and its subscription is not told
of a publish. -/
theorem two_keys_not_complete : ¬ Complete (run (observe stringKey) fresh twoKeyActs) := by
  intro hcomplete
  obtain ⟨before, hlog⟩ := hcomplete 0 0 "room:7"
    ⟨.publish, none, none, none, false, none, malformedError, some "room:7", some 1, some 4, none⟩
    (by decide) (by decide) rfl rfl
  have hsame : (handleFrame (run (observe stringKey) fresh twoKeyActs).client
      ⟨.publish, none, none, none, false, none, malformedError, some "room:7", some 1, some 4,
        none⟩).log 0 = (run (observe stringKey) fresh twoKeyActs).client.log 0 := by
    decide
  rw [hsame] at hlog
  have hlength := congrArg List.length hlog
  simp only [length_append, length_singleton] at hlength
  omega

end Stakit.SocketSubscriptions
