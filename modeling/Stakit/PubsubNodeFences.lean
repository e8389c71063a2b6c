import Stakit.PubsubNode

set_option autoImplicit false

namespace Stakit.PubsubNode
open FiniteMap PubsubTopic RouterError PubsubHub TransitionRuns
open Function (update_self update_of_ne update)

/-- The attempts in flight that read their mark before `k` will be refused. -/
def Outdated (n : Node) (k : ℕ) (conn : ConnId) (topic : Topic) : Prop :=
  ∀ task mark readAt, (n.tasks task).conn = conn → (n.tasks task).topic = topic →
    InFlight (n.tasks task) mark readAt → k < readAt ∨ mark < revocationMark n.hub topic

structure Fenced (n : Node) (k : ℕ) (conn : ConnId) (topic : Topic) : Prop where
  inserted : entry n.hub conn topic = some true → k < n.stamps conn topic
  attempts : Outdated n k conn topic

structure NodeInv (n : Node) : Prop where
  index : IndexInv n.hub
  marks : ∀ task mark readAt, InFlight (n.tasks task) mark readAt →
    mark ≤ revocationMark n.hub (n.tasks task).topic

theorem newNode_inv (hasher : Topic → ℕ) (epochBase : ℕ) (onError : Error → Error) :
    NodeInv (newNode hasher epochBase onError) where
  index := newHub_index hasher epochBase
  marks task mark readAt hflight := by
    obtain hphase | hphase := hflight <;> cases hphase

/-- The hub after a step that inserts nothing. -/
structure Loses (h h' : Hub) : Prop where
  index : IndexInv h → IndexInv h'
  advances : Advances h h'
  explicit : IndexInv h → ∀ conn topic, entry h' conn topic = some true →
    entry h conn topic = some true

theorem Loses.refl (h : Hub) : Loses h h := ⟨id, .refl h, fun _ _ _ => id⟩

theorem Loses.trans {h h' h'' : Hub} (a : Loses h h') (b : Loses h' h'') : Loses h h'' :=
  ⟨fun hinv => b.index (a.index hinv), a.advances.trans b.advances, fun hinv conn topic hentry =>
      a.explicit hinv conn topic (b.explicit (a.index hinv) conn topic hentry)⟩

theorem step_loses (h : Hub) (s : Section)
    (hs : ∀ id topic request, s = .subscribe id topic request → request.explicit = false) :
    Loses h (PubsubHub.step h s) := by
  refine ⟨step_index h s, step_advances h s, fun hinv conn topic hafter => ?_⟩
  cases hbefore : entry h conn topic with
  | none =>
    obtain ⟨request, heq, hflag, _⟩ | ⟨_, _, _, _, _, _, _, hflag⟩ :=
      step_entry_new h s conn topic true hbefore hafter
    · rw [hs conn topic request heq] at hflag
      cases hflag
    · cases hflag
  | some flag =>
    have hflag : true = flag := step_entry_flag h s conn topic flag hinv hbefore hafter
    rw [hflag]

theorem quiet_loses {h h' : Hub} (hrun : QuietRun h h') : Loses h h' := by
  refine quietRun_invariant (Loses h) ?_ h h' hrun (.refl h)
  intro after s hquiet hloses
  refine hloses.trans (step_loses after s ?_)
  intro id topic request heq
  rw [heq] at hquiet
  exact hquiet.elim

def SameAttempts (n n' : Node) : Prop :=
  ∀ task mark readAt, InFlight (n'.tasks task) mark readAt →
    InFlight (n.tasks task) mark readAt ∧ (n'.tasks task).conn = (n.tasks task).conn ∧
      (n'.tasks task).topic = (n.tasks task).topic

theorem SameAttempts.of_eq {n n' : Node} (h : n'.tasks = n.tasks) : SameAttempts n n' := by
  intro task mark readAt hflight
  rw [h] at hflight ⊢
  exact ⟨hflight, rfl, rfl⟩

variable (n : Node) (task mark readAt : ℕ) (a : Act)

theorem setPhase_attempts (phase : Phase)
    (hphase : ∀ mark readAt, phase = .authorizing mark readAt ∨ phase = .ready mark readAt →
      InFlight (n.tasks task) mark readAt) :
    SameAttempts n (setPhase n task phase) := by
  intro other mark readAt hflight
  unfold setPhase setTask at hflight ⊢
  dsimp only at hflight ⊢
  by_cases hother : other = task
  · subst hother
    rw [update_self] at hflight ⊢
    exact ⟨hphase mark readAt hflight, rfl, rfl⟩
  · rw [update_of_ne hother] at hflight ⊢
    exact ⟨hflight, rfl, rfl⟩

theorem outdated_of_attempts {n n' : Node} (hadvances : Advances n.hub n'.hub)
    (htasks : SameAttempts n n') {k : ℕ} {conn : ConnId} {topic : Topic}
    (houtdated : Outdated n k conn topic) : Outdated n' k conn topic := by
  intro task mark readAt hconn htopic hflight
  obtain ⟨hbefore, hc, ht⟩ := htasks task mark readAt hflight
  obtain hlate | hstale := houtdated task mark readAt (hc ▸ hconn) (ht ▸ htopic) hbefore
  · exact .inl hlate
  · exact .inr (hstale.trans_le (hadvances.mark topic))

theorem inv_of_loses {n n' : Node} (hinv : NodeInv n) (hhub : Loses n.hub n'.hub)
    (htasks : SameAttempts n n') : NodeInv n' where
  index := hhub.index hinv.index
  marks task mark readAt hflight := by
    obtain ⟨hbefore, _, ht⟩ := htasks task mark readAt hflight
    rw [ht]
    exact (hinv.marks task mark readAt hbefore).trans (hhub.advances.mark _)

theorem act_cases :
    (Loses n.hub (act n a).hub ∧ SameAttempts n (act n a) ∧ (act n a).stamps = n.stamps) ∨
    (∃ task, a = .readMark task ∧ (act n a).hub = n.hub ∧ (act n a).stamps = n.stamps ∧
      (act n a).tasks = update n.tasks task
        { n.tasks task with
          attempts := (n.tasks task).attempts + 1
          phase := .authorizing (revocationMark n.hub (n.tasks task).topic) n.clock }) ∨
    ∃ task mark readAt, a = .insert task ∧ (n.tasks task).phase = .ready mark readAt ∧
      act n a = insertTask n task mark readAt := by
  have hkicked : ∀ n' : Node, n'.hub = n.hub → n'.tasks = n.tasks → n'.stamps = n.stamps →
      ∀ topic user, Loses n.hub (kicked n' topic user).hub ∧
        SameAttempts n (kicked n' topic user) ∧ (kicked n' topic user).stamps = n.stamps := by
    intro n' hhub htasks hstamps topic user
    refine ⟨?_, .of_eq htasks, hstamps⟩
    change Loses n.hub (PubsubHub.step n'.hub (.kick topic user))
    rw [hhub]
    exact step_loses n.hub _ (by simp)
  cases a with
  | spawn task conn topic frameId max =>
    refine .inl ?_
    unfold act
    dsimp only
    split_ifs
    · refine ⟨.refl _, ?_, rfl⟩
      intro other mark readAt hflight
      unfold setTask at hflight ⊢
      dsimp only at hflight ⊢
      by_cases hother : other = task
      · subst hother
        rw [update_self] at hflight
        obtain hphase | hphase := hflight <;> cases hphase
      · rw [update_of_ne hother] at hflight ⊢
        exact ⟨hflight, rfl, rfl⟩
    · exact ⟨.refl _, .of_eq rfl, rfl⟩
  | readMark task =>
    unfold act
    dsimp only
    split
    · exact .inr (.inl ⟨task, rfl, rfl, rfl, rfl⟩)
    · exact .inl ⟨.refl _, .of_eq rfl, rfl⟩
  | allow task =>
    refine .inl ?_
    unfold act
    dsimp only
    split
    · rename_i mark readAt hphase
      refine ⟨.refl _, setPhase_attempts n task _ ?_, rfl⟩
      rintro other otherAt (hnew | hnew)
      · cases hnew
      · cases hnew
        exact .inl hphase
    · exact ⟨.refl _, .of_eq rfl, rfl⟩
  | fail task error =>
    refine .inl ?_
    unfold act
    dsimp only
    split
    · exact ⟨.refl _, setPhase_attempts n task _ (by simp), rfl⟩
    · exact ⟨.refl _, setPhase_attempts n task _ (by simp), rfl⟩
    · exact ⟨.refl _, .of_eq rfl, rfl⟩
  | insert task =>
    unfold act
    dsimp only
    split
    · rename_i mark readAt hphase
      exact .inr (.inr ⟨task, mark, readAt, rfl, hphase, rfl⟩)
    · exact .inl ⟨.refl _, .of_eq rfl, rfl⟩
  | finish task =>
    refine .inl ?_
    change Loses n.hub (finishTask n task).hub ∧ SameAttempts n (finishTask n task) ∧
      (finishTask n task).stamps = n.stamps
    unfold finishTask
    dsimp only
    split
    · exact ⟨quiet_loses (close_quietRun _ _ _), setPhase_attempts n task _ (by simp), rfl⟩
    · exact ⟨quiet_loses (sendNow_quietRun _ _ _), setPhase_attempts n task _ (by simp), rfl⟩
    · exact ⟨.refl _, .of_eq rfl, rfl⟩
  | kick topic user => exact .inl (hkicked n rfl rfl rfl topic user)
  | lookUp topic user =>
    refine .inl ?_
    unfold act
    dsimp only
    split_ifs <;> exact ⟨.refl _, .of_eq rfl, rfl⟩
  | deliver topic user =>
    refine .inl ?_
    unfold act
    dsimp only
    split_ifs
    · exact hkicked { n with pending := n.pending.erase (topic, user) } rfl rfl rfl topic user
    · exact ⟨.refl _, .of_eq rfl, rfl⟩
  | bump reset =>
    refine .inl ?_
    change Loses n.hub (bumpReset n reset).hub ∧ SameAttempts n (bumpReset n reset) ∧
      (bumpReset n reset).stamps = n.stamps
    unfold bumpReset
    dsimp only
    split_ifs
    · exact ⟨step_loses n.hub (.bump _) (by simp), .of_eq rfl, rfl⟩
    · exact ⟨.refl _, .of_eq rfl, rfl⟩
  | walk reset order =>
    refine .inl ?_
    change Loses n.hub (walkReset n reset order).hub ∧ SameAttempts n (walkReset n reset order) ∧
      (walkReset n reset order).stamps = n.stamps
    unfold walkReset
    split_ifs
    · exact ⟨step_loses n.hub (.walk order) (by simp), .of_eq rfl, rfl⟩
    · exact ⟨.refl _, .of_eq rfl, rfl⟩
  | closeSlow reset =>
    refine .inl ?_
    change Loses n.hub (closeReset n reset).hub ∧ SameAttempts n (closeReset n reset) ∧
      (closeReset n reset).stamps = n.stamps
    unfold closeReset
    split
    · exact ⟨.refl _, .of_eq rfl, rfl⟩
    · exact ⟨quiet_loses (close_quietRun _ _ _), .of_eq rfl, rfl⟩
  | other s =>
    refine .inl ?_
    unfold act
    dsimp only
    split_ifs with hordinary
    · refine ⟨step_loses n.hub s ?_, .of_eq rfl, rfl⟩
      intro id topic request heq
      rw [heq] at hordinary
      simpa [ordinary] using hordinary
    · exact ⟨.refl _, .of_eq rfl, rfl⟩

theorem afterInsert_not_inFlight (t : Task) (slow : List ConnId) (outcome : Except Error Cursor)
    (mark readAt : ℕ) :
    ¬ (afterInsert t slow outcome = .authorizing mark readAt ∨
      afterInsert t slow outcome = .ready mark readAt) := by
  cases outcome with
  | ok position | error error =>
    unfold afterInsert
    dsimp only
    split_ifs <;> simp

theorem insertTask_attempts : SameAttempts n (insertTask n task mark readAt) := by
  have hset := setPhase_attempts
    { n with
      hub := (subscribeLocked n.hub (n.tasks task).conn (n.tasks task).topic
        (clientRequest (n.tasks task) mark)).1
      stamps := stamped n (subscribeLocked n.hub (n.tasks task).conn (n.tasks task).topic
        (clientRequest (n.tasks task) mark)).1 (n.tasks task).conn (n.tasks task).topic readAt }
    task
    (afterInsert (n.tasks task) (subscribeLocked n.hub (n.tasks task).conn (n.tasks task).topic
        (clientRequest (n.tasks task) mark)).2.1
      (subscribeLocked n.hub (n.tasks task).conn (n.tasks task).topic
        (clientRequest (n.tasks task) mark)).2.2)
    fun other otherAt hphase => absurd hphase (afterInsert_not_inFlight _ _ _ other otherAt)
  exact hset

def insertSection (n : Node) (task mark : ℕ) : Section :=
  .subscribe (n.tasks task).conn (n.tasks task).topic (clientRequest (n.tasks task) mark)

theorem insertTask_hub :
    (insertTask n task mark readAt).hub = PubsubHub.step n.hub (insertSection n task mark) :=
  rfl

theorem insertTask_stamps (conn : ConnId) (topic : Topic) :
    (insertTask n task mark readAt).stamps conn topic =
      if conn = (n.tasks task).conn ∧ topic = (n.tasks task).topic ∧ entry n.hub conn topic = none ∧
        entry (insertTask n task mark readAt).hub conn topic ≠ none then readAt
      else n.stamps conn topic := by
  change stamped n (insertTask n task mark readAt).hub (n.tasks task).conn (n.tasks task).topic
    readAt conn topic = _
  unfold stamped
  by_cases hboth : conn = (n.tasks task).conn ∧ topic = (n.tasks task).topic
  · obtain ⟨rfl, rfl⟩ := hboth
    split_ifs with hnew hnew' hnew'
    · simp
    · exact absurd ⟨rfl, rfl, hnew⟩ hnew'
    · exact absurd hnew'.2.2 hnew
    · rfl
  · rw [if_neg (c := conn = (n.tasks task).conn ∧ _) fun hall => hboth ⟨hall.1, hall.2.1⟩]
    split_ifs
    · by_cases hconn : conn = (n.tasks task).conn
      · subst hconn
        have htopic : topic ≠ (n.tasks task).topic := fun htopic => hboth ⟨rfl, htopic⟩
        rw [update_self, update_of_ne htopic]
      · rw [update_of_ne hconn]
    · rfl

theorem insertTask_inserted (hready : (n.tasks task).phase = .ready mark readAt)
    (hinv : NodeInv n) {k : ℕ} {conn : ConnId} {topic : Topic} (hfenced : Fenced n k conn topic)
    (hafter : entry (insertTask n task mark readAt).hub conn topic = some true) :
    k < (insertTask n task mark readAt).stamps conn topic := by
  rw [insertTask_stamps]
  cases hbefore : entry n.hub conn topic with
  | some flag =>
    have hflag : true = flag := step_entry_flag n.hub (insertSection n task mark) conn topic flag
      hinv.index hbefore hafter
    rw [if_neg (by simp)]
    exact hfenced.inserted (by rw [hbefore, ← hflag])
  | none =>
    obtain ⟨request, heq, _, hmark⟩ | ⟨_, _, _, _, heq, _⟩ :=
      step_entry_new n.hub (insertSection n task mark) conn topic true hbefore hafter
    · simp only [insertSection, Section.subscribe.injEq] at heq
      obtain ⟨hconn, htopic, hrequest⟩ := heq
      have hcurrent : mark = revocationMark n.hub topic :=
        hmark mark (by rw [← hrequest]; rfl)
      have hstale := hfenced.attempts task mark readAt hconn htopic (.inr hready)
      rw [if_pos ⟨hconn.symm, htopic.symm, rfl, by simp [hafter]⟩]
      omega
    · cases heq

theorem insertTask_inv (hinv : NodeInv n) : NodeInv (insertTask n task mark readAt) where
  index := step_index n.hub (insertSection n task mark) hinv.index
  marks other mark' readAt' hflight := by
    obtain ⟨hbefore, _, ht⟩ := insertTask_attempts n task mark readAt other mark' readAt' hflight
    rw [ht, insertTask_hub]
    exact (hinv.marks other mark' readAt' hbefore).trans
      ((step_advances n.hub (insertSection n task mark)).mark _)

theorem readMark_attempts {n n' : Node} {task : ℕ}
    (htasks : n'.tasks = update n.tasks task { n.tasks task with
        attempts := (n.tasks task).attempts + 1
        phase := .authorizing (revocationMark n.hub (n.tasks task).topic) n.clock })
    {other mark readAt : ℕ} (hflight : InFlight (n'.tasks other) mark readAt) :
    (n'.tasks other).conn = (n.tasks other).conn ∧
    (n'.tasks other).topic = (n.tasks other).topic ∧
    (InFlight (n.tasks other) mark readAt ∨
      mark = revocationMark n.hub (n.tasks other).topic ∧ readAt = n.clock) := by
  rw [htasks] at hflight ⊢
  by_cases hother : other = task
  · subst hother
    rw [update_self] at hflight ⊢
    obtain hphase | hphase := hflight
    · simp only [Phase.authorizing.injEq] at hphase
      exact ⟨rfl, rfl, .inr ⟨hphase.1.symm, hphase.2.symm⟩⟩
    · cases hphase
  · rw [update_of_ne hother] at hflight ⊢
    exact ⟨rfl, rfl, .inl hflight⟩

theorem act_inv (hinv : NodeInv n) : NodeInv (act n a) := by
  obtain ⟨hhub, htasks, _⟩ | ⟨task, _, hhub, _, htasks⟩ | ⟨task, mark, readAt, _, _, heq⟩ :=
    act_cases n a
  · exact inv_of_loses hinv hhub htasks
  · refine ⟨by rw [hhub]; exact hinv.index, fun other mark readAt hflight => ?_⟩
    obtain ⟨_, ht, hbefore | hnow⟩ := readMark_attempts htasks hflight
    · rw [hhub, ht]
      exact hinv.marks other mark readAt hbefore
    · rw [hhub, ht, hnow.1]
  · rw [heq]
    exact insertTask_inv n task mark readAt hinv

theorem act_hub : (∃ s, a = .other s ∧ (act n a).hub = PubsubHub.step n.hub s) ∨
    ∃ sections, (act n a).hub = run PubsubHub.step n.hub sections ∧
      ∀ s ∈ sections, ∀ id identity maxPerUser, s ≠ .authenticate id identity maxPerUser := by
  have hstay : (act n a).hub = n.hub →
      ∃ sections, (act n a).hub = run PubsubHub.step n.hub sections ∧
        ∀ s ∈ sections, ∀ id identity maxPerUser, s ≠ .authenticate id identity maxPerUser :=
    fun heq => ⟨[], heq, by simp⟩
  have hone : ∀ s, (act n a).hub = PubsubHub.step n.hub s →
      (∀ id identity maxPerUser, s ≠ .authenticate id identity maxPerUser) →
      ∃ sections, (act n a).hub = run PubsubHub.step n.hub sections ∧
        ∀ s ∈ sections, ∀ id identity maxPerUser, s ≠ .authenticate id identity maxPerUser :=
    fun s heq hs => ⟨[s], heq, by simpa using hs⟩
  have hquiet : QuietRun n.hub (act n a).hub →
      ∃ sections, (act n a).hub = run PubsubHub.step n.hub sections ∧
        ∀ s ∈ sections, ∀ id identity maxPerUser, s ≠ .authenticate id identity maxPerUser := by
    rintro ⟨sections, hall, heq⟩
    refine ⟨sections, heq, ?_⟩
    rintro s hs id identity maxPerUser rfl
    exact hall _ hs
  cases a with
  | spawn task conn topic frameId max =>
    refine .inr (hstay ?_)
    unfold act
    dsimp only
    split_ifs <;> rfl
  | insert task =>
    cases hphase : (n.tasks task).phase with
    | ready mark readAt =>
      refine .inr (hone (insertSection n task mark) ?_ (by simp [insertSection]))
      simp only [act, hphase]
      rfl
    | _ => exact .inr (hstay (by simp only [act, hphase]))
  | finish task =>
    cases hphase : (n.tasks task).phase with
    | slow =>
      refine .inr (hquiet ?_)
      simp only [act, finishTask, hphase]
      exact close_quietRun _ _ _
    | failed error =>
      refine .inr (hquiet ?_)
      simp only [act, finishTask, hphase]
      exact sendNow_quietRun _ _ _
    | _ => exact .inr (hstay (by simp only [act, finishTask, hphase]))
  | kick topic user => exact .inr (hone (.kick topic user) rfl (by simp))
  | lookUp topic user =>
    refine .inr (hstay ?_)
    unfold act
    dsimp only
    split_ifs <;> rfl
  | deliver topic user =>
    by_cases hin : (topic, user) ∈ n.pending
    · exact .inr (hone (.kick topic user) (by simp only [act, hin, if_true]; rfl) (by simp))
    · exact .inr (hstay (by simp only [act, hin, if_false]))
  | bump reset =>
    by_cases hmore : (n.resets reset).bumps.length < revocationSlots
    · refine .inr (hone (.bump (n.resets reset).bumps.length) ?_ (by simp))
      simp only [act, bumpReset, hmore, if_true]
      rfl
    · exact .inr (hstay (by simp only [act, bumpReset, hmore, if_false]))
  | walk reset order =>
    by_cases hmay : MayWalk n reset order
    · exact .inr (hone (.walk order) (by simp only [act, walkReset, hmay, if_true]; rfl) (by simp))
    · exact .inr (hstay (by simp only [act, walkReset, hmay, if_false]))
  | closeSlow reset =>
    cases hslow : (n.resets reset).slow with
    | nil => exact .inr (hstay (by simp only [act, closeReset, hslow]))
    | cons id rest =>
      refine .inr (hquiet ?_)
      simp only [act, closeReset, hslow]
      exact close_quietRun _ _ _
  | other s =>
    cases hordinary : ordinary s with
    | true => exact .inl ⟨s, rfl, by simp [act, hordinary]⟩
    | false => exact .inr (hstay (by simp [act, hordinary]))
  | _ =>
    refine .inr (hstay ?_)
    unfold act
    dsimp only
    split <;> rfl

theorem act_advances : Advances n.hub (act n a).hub := by
  obtain ⟨hhub, _⟩ | ⟨task, _, hhub, _⟩ | ⟨task, mark, readAt, _, _, heq⟩ := act_cases n a
  · exact hhub.advances
  · rw [hhub]
    exact .refl _
  · rw [heq]
    exact step_advances n.hub (insertSection n task mark)

theorem act_outdated {k : ℕ} (hpast : k < n.clock) {conn : ConnId} {topic : Topic}
    (houtdated : Outdated n k conn topic) : Outdated (act n a) k conn topic := by
  have hadvances := act_advances n a
  obtain ⟨_, htasks, _⟩ | ⟨task, _, hhub, _, htasks⟩ | ⟨task, mark, readAt, _, _, heq⟩ :=
    act_cases n a
  · exact outdated_of_attempts hadvances htasks houtdated
  · intro other mark readAt hconn htopic hflight
    obtain ⟨hc, ht, hbefore | hnow⟩ := readMark_attempts htasks hflight
    · rw [hhub]
      exact houtdated other mark readAt (hc ▸ hconn) (ht ▸ htopic) hbefore
    · rw [hnow.2]
      exact .inl hpast
  · rw [heq] at hadvances ⊢
    exact outdated_of_attempts hadvances (insertTask_attempts n task mark readAt)
      houtdated

theorem act_fenced (hinv : NodeInv n) {k : ℕ} (hpast : k < n.clock) {conn : ConnId}
    {topic : Topic} (hfenced : Fenced n k conn topic) : Fenced (act n a) k conn topic := by
  refine ⟨?_, act_outdated n a hpast hfenced.attempts⟩
  obtain ⟨hhub, _, hstamps⟩ | ⟨task, _, hhub, hstamps, _⟩ | ⟨task, mark, readAt, _, hready, heq⟩ :=
    act_cases n a
  · intro hentry
    rw [hstamps]
    exact hfenced.inserted (hhub.explicit hinv.index conn topic hentry)
  · rw [hhub, hstamps]
    exact hfenced.inserted
  · rw [heq]
    exact insertTask_inserted n task mark readAt hready hinv hfenced

theorem step_inv (hinv : NodeInv n) : NodeInv (step n a) := by
  have hact := act_inv n a hinv
  exact ⟨hact.index, hact.marks⟩

theorem step_outdated {k : ℕ} (hpast : k < n.clock) {conn : ConnId} {topic : Topic}
    (houtdated : Outdated n k conn topic) : Outdated (step n a) k conn topic :=
  act_outdated n a hpast houtdated

theorem step_fenced (hinv : NodeInv n) {k : ℕ} (hpast : k < n.clock) {conn : ConnId}
    {topic : Topic} (hfenced : Fenced n k conn topic) : Fenced (step n a) k conn topic := by
  have hact := act_fenced n a hinv hpast hfenced
  exact ⟨hact.inserted, hact.attempts⟩

theorem run_fenced (acts : List Act) (hinv : NodeInv n) {k : ℕ} (hpast : k < n.clock)
    {conn : ConnId} {topic : Topic} (hfenced : Fenced n k conn topic) :
    Fenced (run step n acts) k conn topic := by
  induction acts generalizing n with
  | nil => exact hfenced
  | cons a acts ih =>
    exact ih (step n a) (step_inv n a hinv) (Nat.lt_succ_of_lt hpast)
      (step_fenced n a hinv hpast hfenced)

theorem stale_of_bump (hinv : NodeInv n) (h' : Hub) (topic : Topic)
    (hbump : revocationMark n.hub topic < revocationMark h' topic) {task mark readAt : ℕ}
    (htopic : (n.tasks task).topic = topic) (hflight : InFlight (n.tasks task) mark readAt) :
    mark < revocationMark h' topic := by
  have hle := hinv.marks task mark readAt hflight
  rw [htopic] at hle
  omega

end Stakit.PubsubNode
