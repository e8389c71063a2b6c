import Stakit.SessionAnswers

set_option autoImplicit false

namespace Stakit.SessionRequests
open PubsubHub PubsubTopic RouterError TransitionRuns List

section
variable {R : Type}

variable (router : Router) (sys : System R) (first : List (Act R)) (a : Act R) (n : ℕ)
  (t : Thread R) (req : R) (log : List (Option ℕ × Outgoing)) (acts : List (Act R))
  (topic : Topic)

theorem bind_reached (identity : Identity) :
    Reached sys.hub (bindStep router sys n t req identity).hub := by
  have hsection := Reached.single sys.hub
    (.authenticate sys.session.conn identity router.maxConnectionsPerUser)
  dsimp only [PubsubHub.step] at hsection
  unfold authenticateSection at hsection
  unfold bindStep
  cases htopics : identityTopics identity with
  | error error => exact .refl _
  | ok topics =>
    obtain ⟨userTopic, deviceTopic⟩ := topics
    rw [htopics] at hsection
    dsimp only at hsection ⊢
    rcases hbound : authenticateLocked sys.hub sys.session.conn identity
      router.maxConnectionsPerUser userTopic deviceTopic with ⟨h, superseded, slow, _ | _⟩
    all_goals
      rw [hbound] at hsection
      exact hsection

theorem announce_reached (superseded : Option ConnId) (slow : List ConnId)
    (deviceTopic : Option Topic) :
    Reached sys.hub (announceStep sys n t req superseded slow deviceTopic).hub := by
  have hsignal : QuietRun sys.hub (signalSuperseded sys.hub superseded) := by
    cases superseded with
    | none => exact .refl _
    | some holder => exact .single sys.hub (.signal holder .superseded) trivial
  refine .quiet ((hsignal.trans (closeAll_quietRun _ slow .slowConsumer)).trans ?_)
  cases deviceTopic with
  | none => exact .refl _
  | some topic => exact handOff_quietRun _ _ _

theorem advance_reached (awaited : Awaited R) :
    Reached sys.hub (advance router sys n t awaited).hub := by
  unfold advance
  cases t.point with
  | checkClosed =>
    dsimp only [checkClosedStep]
    split_ifs <;> exact .refl _
  | touch =>
    cases awaited with
    | touched within =>
      cases within with
      | true =>
        dsimp only [touchStep]
        cases route router t <;> exact .refl _
      | false => exact closed_reached sys .rateLimited
    | _ => exact .refl _
  | checkAuthenticated request =>
    dsimp only [checkAuthenticatedStep]
    split_ifs <;> exact .refl _
  | claim =>
    dsimp only [claimStep]
    split_ifs <;> exact .refl _
  | checkConflict claimed =>
    dsimp only [checkConflictStep]
    split_ifs <;> exact .refl _
  | permit work =>
    dsimp only [permitStep]
    split_ifs <;> exact .refl _
  | leave topic => exact .single sys.hub (.unsubscribe sys.session.conn topic)
  | reply result after => cases after <;> exact pushNow_reached sys (some n) _
  | close reason => exact closed_reached sys reason
  | dispatch name params =>
    cases awaited with
    | dispatched result | nothing =>
      dsimp only [dispatchStep]
      split_ifs <;> exact .refl _
    | _ => exact .refl _
  | respond answer => exact pushAwait_reached sys n t _ _ fun _ => rfl
  | next =>
    cases awaited with
    | item next => rcases next with _ | _ | _ <;> exact .refl _
    | _ => exact .refl _
  | sendItem data => exact pushAwait_reached sys n t _ _ fun _ => rfl
  | hook params =>
    cases awaited with
    | hooked result => rcases result with _ | _ <;> exact .refl _
    | _ => exact .refl _
  | bind req identity => exact bind_reached router sys n t req identity
  | announce req superseded slow deviceTopic =>
    exact announce_reached sys n t req superseded slow deviceTopic
  | settle outcome => cases outcome <;> exact .refl _
  | resolve attempts channel key =>
    cases awaited with
    | topicOf result => cases result <;> exact .refl _
    | _ => exact .refl _
  | authorize attempts channel key topic mark =>
    cases awaited with
    | authorized result => rcases result with _ | _ | _ <;> exact .refl _
    | _ => exact .refl _
  | subscribe attempts channel key topic mark =>
    exact .single sys.hub (.subscribe sys.session.conn topic (clientSubscribe router t.id topic mark))
  | closeSlow attempts channel key slow outcome =>
    have hclosed := Reached.quiet (closeAll_quietRun sys.hub slow .slowConsumer)
    cases outcome with
    | ok position => exact hclosed
    | error error =>
      dsimp only [closeSlowStep]
      split_ifs <;> exact hclosed
  | _ => exact .refl _

theorem step_reached : Reached sys.hub (step router sys a).hub := by
  cases a with
  | act n awaited =>
    simp only [step]
    cases sys.threads[n]? with
    | none => exact .refl _
    | some t => exact advance_reached router sys n t awaited
  | ping => exact pushNow_reached sys none _
  | clientCall id name params => exact push_reached sys none _
  | outside s => exact .single sys.hub s
  | _ => exact .refl _

def terminals (log : List (Option ℕ × Outgoing)) (id : ℕ) : ℕ :=
  log.countP fun entry => entry.2.terminal = some id

/-- The frames thread `n` queued, oldest first. -/
def framesOf (n : ℕ) (log : List (Option ℕ × Outgoing)) : List Outgoing :=
  (log.filter fun entry => entry.1 = some n).map (·.2)

def Spoken (t : Thread R) (said : List Outgoing) : Prop :=
  match requestId t.frame with
  | none => said = []
  | some id => ∃ items, (∀ frame ∈ items, ∃ data, frame = .item id data) ∧
      (t.owes = some id ∧ said = items ∨
        t.owes = none ∧ ∃ answer, answer.terminal = some id ∧ said = items ++ [answer])

structure Balanced (sys : System R) : Prop where
  registered : sys.session.conn < sys.hub.nextConn
  sound : ∀ t ∈ sys.threads, t.Sound
  claims : sys.threads.countP (fun t => t.point.claims) = sys.authenticating.toNat
  permits : sys.free + sys.threads.countP (fun t => t.permit) = maxInflightCalls
  answered : ∀ id, terminals sys.queued id + sys.threads.countP (fun t => t.owes = some id) =
    sys.threads.countP fun t => requestId t.frame = some id
  spoken : ∀ n t, sys.threads[n]? = some t → Spoken t (framesOf n sys.queued)
  unheard : ∀ n, sys.threads.length ≤ n → framesOf n sys.queued = []

theorem countP_set_add {α : Type} (p : α → Bool) (l : List α) (n : ℕ) (a b : α)
    (hget : l[n]? = some b) :
    (l.set n a).countP p + (p b).toNat = l.countP p + (p a).toNat := by
  induction l generalizing n with
  | nil => cases hget
  | cons c l ih =>
    cases n with
    | zero =>
      cases hget
      rw [set_cons_zero, countP_cons, countP_cons]
      cases p a <;> cases p b <;> rfl
    | succ n =>
      have := ih n hget
      rw [set_cons_succ, countP_cons, countP_cons]
      omega

theorem terminals_append (more : List (Option ℕ × Outgoing)) (id : ℕ) :
    terminals (log ++ more) id = terminals log id + terminals more id :=
  countP_append

theorem framesOf_append (more : List (Option ℕ × Outgoing)) :
    framesOf n (log ++ more) = framesOf n log ++ framesOf n more := by
  unfold framesOf
  rw [filter_append, map_append]

theorem Said.answered {n : ℕ} {before after : List (Option ℕ × Outgoing)} {owed left : Option ℕ}
    (hsaid : Said n before after owed left) (id : ℕ) :
    terminals after id + (decide (left = some id)).toNat =
      terminals before id + (decide (owed = some id)).toNat := by
  cases hsaid with
  | nothing _ h => rw [h]
  | item other data h =>
    rw [h, terminals_append]
    rfl
  | answer other frame h hterminal =>
    rw [h, terminals_append]
    have hone : terminals [(some n, frame)] id = (decide (some other = some id)).toNat := by
      unfold terminals
      rw [countP_singleton]
      dsimp only
      rw [hterminal]
      by_cases hid : some other = some id <;> simp [hid]
    rw [hone]
    rfl

theorem Said.elsewhere {n : ℕ} {before after : List (Option ℕ × Outgoing)} {owed left : Option ℕ}
    (hsaid : Said n before after owed left) (m : ℕ) (hne : m ≠ n) :
    framesOf m after = framesOf m before := by
  have hadd : ∀ frame, framesOf m (before ++ [(some n, frame)]) = framesOf m before := by
    intro frame
    rw [framesOf_append]
    simp [framesOf, Ne.symm hne]
  cases hsaid with
  | nothing _ h => rw [h]
  | item _ data h | answer _ frame h _ => rw [h, hadd]

theorem framesOf_own (frame : Outgoing) :
    framesOf n (log ++ [(some n, frame)]) = framesOf n log ++ [frame] := by
  rw [framesOf_append]
  simp [framesOf]

theorem Said.spoken {n : ℕ} {before after : List (Option ℕ × Outgoing)} {t t' : Thread R}
    (hsaid : Said n before after t.owes t'.owes) (hframe : t'.frame = t.frame)
    (hspoken : Spoken t (framesOf n before)) : Spoken t' (framesOf n after) := by
  have hnone : requestId t.frame = none → t.owes = none := by
    intro h
    unfold Thread.owes
    rw [h]
    exact ite_self _
  unfold Spoken at hspoken ⊢
  rw [hframe]
  generalize t.owes = owed at hsaid hspoken hnone
  generalize t'.owes = left at hsaid ⊢
  cases hrequest : requestId t.frame with
  | none =>
    rw [hrequest] at hspoken
    have howed := hnone hrequest
    subst howed
    cases hsaid with
    | nothing _ h =>
      rw [h]
      exact hspoken
  | some id =>
    rw [hrequest] at hspoken
    obtain ⟨items, hitems, hcase⟩ := hspoken
    cases hsaid with
    | nothing _ h =>
      rw [h]
      exact ⟨items, hitems, hcase⟩
    | item other data h =>
      obtain ⟨hsome, hitem⟩ | ⟨hbad, _⟩ := hcase
      · cases hsome
        refine ⟨items ++ [.item id data], fun frame hin => ?_, .inl ⟨rfl, ?_⟩⟩
        · rcases mem_append.mp hin with hin | hin
          · exact hitems frame hin
          · exact ⟨data, mem_singleton.mp hin⟩
        · rw [h, framesOf_own, hitem]
      · cases hbad
    | answer other frame h hterminal =>
      obtain ⟨hsome, hitem⟩ | ⟨hbad, _⟩ := hcase
      · cases hsome
        refine ⟨items, hitems, .inr ⟨rfl, frame, hterminal, ?_⟩⟩
        rw [h, framesOf_own, hitem]
      · cases hbad

theorem Moves.balanced {sys sys' : System R} {n : ℕ} {t t' : Thread R}
    (moves : Moves sys sys' n t t') (hget : sys.threads[n]? = some t)
    (hnext : sys.hub.nextConn ≤ sys'.hub.nextConn) (hbalanced : Balanced sys) : Balanced sys' where
  registered := by
    rw [moves.conn]
    exact lt_of_lt_of_le hbalanced.registered hnext
  sound := by
    intro other hother
    rw [moves.threads] at hother
    rcases mem_or_eq_of_mem_set hother with hother | rfl
    · exact hbalanced.sound other hother
    · exact moves.sound
  claims := by
    have hset := countP_set_add (fun t : Thread R => t.point.claims) sys.threads n t' t hget
    have hkept := moves.claims
    have hbefore := hbalanced.claims
    rw [moves.threads]
    omega
  permits := by
    have hset := countP_set_add (fun t : Thread R => t.permit) sys.threads n t' t hget
    have hkept := moves.permits
    have hbefore := hbalanced.permits
    rw [moves.threads]
    omega
  answered := by
    intro id
    have howing := countP_set_add (fun t : Thread R => decide (t.owes = some id)) sys.threads n t' t
      hget
    have hasked := countP_set_add (fun t : Thread R => decide (requestId t.frame = some id))
      sys.threads n t' t hget
    have hkept := moves.said.answered id
    have hbefore := hbalanced.answered id
    rw [moves.frame] at hasked
    rw [moves.threads]
    omega
  spoken := by
    intro m other hother
    rw [moves.threads] at hother
    by_cases hm : m = n
    · subst hm
      rw [List.getElem?_set_self (List.getElem?_eq_some_iff.mp hget).1] at hother
      cases hother
      exact moves.said.spoken moves.frame (hbalanced.spoken m t hget)
    · rw [List.getElem?_set_ne (Ne.symm hm)] at hother
      rw [moves.said.elsewhere m hm]
      exact hbalanced.spoken m other hother
  unheard := by
    intro m hm
    rw [moves.threads, length_set] at hm
    have hlt := (List.getElem?_eq_some_iff.mp hget).1
    rw [moves.said.elsewhere m (by omega)]
    exact hbalanced.unheard m hm

theorem Overheard.balanced {sys sys' : System R} (heard : Overheard sys sys')
    (hnext : sys.hub.nextConn ≤ sys'.hub.nextConn) (hbalanced : Balanced sys) : Balanced sys' := by
  obtain ⟨more, hqueued, hmore⟩ := heard.queued
  have hterminals : ∀ id, terminals sys'.queued id = terminals sys.queued id := by
    intro id
    rw [hqueued, terminals_append]
    have hzero : terminals more id = 0 := by
      unfold terminals
      rw [countP_eq_zero]
      intro entry hentry
      simp [(hmore entry hentry).2]
    omega
  have hframes : ∀ n, framesOf n sys'.queued = framesOf n sys.queued := by
    intro n
    rw [hqueued, framesOf_append]
    have hnil : more.filter (fun entry => entry.1 = some n) = [] := by
      rw [filter_eq_nil_iff]
      intro entry hentry
      simp [(hmore entry hentry).1]
    unfold framesOf
    rw [hnil, map_nil, append_nil]
  refine ⟨?_, ?_, ?_, ?_, ?_, ?_, ?_⟩
  · rw [heard.conn]
    exact lt_of_lt_of_le hbalanced.registered hnext
  · rw [heard.threads]
    exact hbalanced.sound
  · rw [heard.threads, heard.authenticating]
    exact hbalanced.claims
  · rw [heard.threads, heard.free]
    exact hbalanced.permits
  · intro id
    rw [heard.threads, hterminals]
    exact hbalanced.answered id
  · intro n t hget
    rw [heard.threads] at hget
    rw [hframes]
    exact hbalanced.spoken n t hget
  · intro n hn
    rw [heard.threads] at hn
    rw [hframes]
    exact hbalanced.unheard n hn

theorem arrive_balanced (frame : Inbound) (hbalanced : Balanced sys) :
    Balanced { sys with threads := sys.threads ++ [⟨frame, false, .checkClosed⟩] } where
  registered := hbalanced.registered
  sound := by
    intro t ht
    rcases mem_append.mp ht with ht | ht
    · exact hbalanced.sound t ht
    · rw [mem_singleton.mp ht]
      exact ⟨nofun, fun _ => rfl⟩
  claims := by
    rw [countP_append]
    exact hbalanced.claims
  permits := by
    rw [countP_append]
    exact hbalanced.permits
  answered := by
    intro id
    have hsame : List.countP (fun t : Thread R => decide (t.owes = some id))
        [⟨frame, false, .checkClosed⟩] =
        List.countP (fun t : Thread R => decide (requestId t.frame = some id))
          [⟨frame, false, .checkClosed⟩] := rfl
    have hbefore := hbalanced.answered id
    dsimp only
    rw [countP_append, countP_append, hsame]
    omega
  spoken := by
    intro n t hget
    rw [List.getElem?_append] at hget
    split_ifs at hget with hlt
    · exact hbalanced.spoken n t hget
    · have hsilent := hbalanced.unheard n (by omega)
      obtain ⟨_, heq⟩ := List.getElem?_eq_some_iff.mp hget
      rw [getElem_singleton] at heq
      subst heq
      dsimp only
      rw [hsilent]
      unfold Spoken
      cases hrequest : requestId frame with
      | none => rfl
      | some id => exact ⟨[], nofun, .inl ⟨hrequest, rfl⟩⟩
  unheard := by
    intro n hn
    rw [length_append] at hn
    exact hbalanced.unheard n (by omega)

theorem opened_balanced (h : Hub) (outgoingBuffer : ℕ) (req : R) :
    Balanced (opened router h outgoingBuffer req) where
  registered := Nat.lt_succ_self _
  sound := by
    intro t ht
    cases ht
  claims := rfl
  permits := rfl
  answered := fun _ => rfl
  spoken := by
    intro n t hget
    cases hget
  unheard := fun _ _ => rfl

theorem claimed_of_balanced (hbalanced : Balanced sys) {t : Thread R} (ht : t ∈ sys.threads)
    (hclaims : t.point.claims = true) : sys.authenticating = true := by
  have hpos : 0 < sys.threads.countP fun t => t.point.claims :=
    countP_pos_iff.mpr ⟨t, ht, hclaims⟩
  rw [hbalanced.claims] at hpos
  cases hheld : sys.authenticating with
  | true => rfl
  | false =>
    rw [hheld] at hpos
    cases hpos

theorem step_balanced (hbalanced : Balanced sys) (hlive : Live router sys a) :
    Balanced (step router sys a) := by
  obtain ⟨hforeign, htaken, hopen⟩ := hlive
  have hnext := (step_reached router sys a).advances.nextConn
  cases a with
  | arrive frame => exact arrive_balanced sys frame hbalanced
  | act n awaited =>
    simp only [step] at hopen hnext ⊢
    cases hget : sys.threads[n]? with
    | none => exact hbalanced
    | some t =>
      simp only [hget] at hopen hnext
      have hin : t ∈ sys.threads := mem_of_getElem? hget
      obtain ⟨t', moves⟩ := advance_moves router sys n t awaited hget (hbalanced.sound t hin)
        (claimed_of_balanced sys hbalanced hin) htaken hopen
      exact moves.balanced hget hnext hbalanced
  | ping =>
    simp only [step] at hnext ⊢
    rw [pushNow_taken none htaken] at hnext ⊢
    exact (overheard_push sys .ping rfl).balanced hnext hbalanced
  | clientCall id name params =>
    exact (overheard_push sys (.clientCall id name params) rfl).balanced hnext hbalanced
  | outside s =>
    exact (overheard_outside sys s hforeign htaken).balanced hnext hbalanced
  | storeReq req | storeAuthenticated =>
    exact ⟨hbalanced.registered, hbalanced.sound, hbalanced.claims, hbalanced.permits,
      hbalanced.answered, hbalanced.spoken, hbalanced.unheard⟩

def received : List (Act R) → List Inbound
  | [] => []
  | .arrive frame :: acts => frame :: received acts
  | _ :: acts => received acts

def publishesOf (topic : Topic) (log : List (Option ℕ × Outgoing)) : List (Option ℕ × Outgoing) :=
  log.filter fun entry => entry.2.publishes topic

def Subscribed (sys : System R) (topic : Topic) : Prop :=
  sys.session.conn ∈ subscriberIds sys.hub topic

/-- The action is a subscribe of thread `n` that creates the session's subscription. -/
def Creates (router : Router) (sys : System R) (a : Act R) (n : ℕ) (topic : Topic) : Prop :=
  ¬ Subscribed sys topic ∧ Subscribed (step router sys a) topic ∧
    ∃ awaited t attempts channel key mark, a = .act n awaited ∧ sys.threads[n]? = some t ∧
      t.point = .subscribe attempts channel key topic mark

structure Grows (sys sys' : System R) (a : Act R) : Prop where
  frames : sys'.threads.map (·.frame) = sys.threads.map (·.frame) ++ received [a]
  queued : ∃ more, sys'.queued = sys.queued ++ more ∧
    ∀ topic, ¬ Subscribed sys topic → publishesOf topic more = []

theorem publishes_of_terminal {frame : Outgoing} {id : ℕ} (h : frame.terminal = some id)
    (topic : Topic) : frame.publishes topic = false := by
  cases frame with
  | hub frame => cases frame <;> first | rfl | cases h
  | _ => rfl

theorem Said.more {n : ℕ} {before after : List (Option ℕ × Outgoing)} {owed left : Option ℕ}
    (hsaid : Said n before after owed left) :
    ∃ more, after = before ++ more ∧ ∀ topic, publishesOf topic more = [] := by
  cases hsaid with
  | nothing _ h => exact ⟨[], by rw [h, append_nil], fun _ => rfl⟩
  | item id data h => exact ⟨_, h, fun _ => rfl⟩
  | answer id frame h hterminal =>
    refine ⟨_, h, fun topic => ?_⟩
    unfold publishesOf
    rw [filter_singleton, publishes_of_terminal hterminal topic]
    rfl

theorem step_grows (hbalanced : Balanced sys) (hlive : Live router sys a) :
    Grows sys (step router sys a) a := by
  obtain ⟨hforeign, htaken, hopen⟩ := hlive
  have hquiet : ∃ more, sys.queued = sys.queued ++ more ∧
      ∀ topic, ¬ Subscribed sys topic → publishesOf topic more = [] :=
    ⟨[], (append_nil _).symm, fun _ _ => rfl⟩
  cases a with
  | arrive frame => exact ⟨map_append, hquiet⟩
  | act n awaited =>
    simp only [step] at hopen ⊢
    cases hget : sys.threads[n]? with
    | none => exact ⟨(append_nil _).symm, hquiet⟩
    | some t =>
      simp only [hget] at hopen
      have hin : t ∈ sys.threads := mem_of_getElem? hget
      obtain ⟨t', moves⟩ := advance_moves router sys n t awaited hget (hbalanced.sound t hin)
        (claimed_of_balanced sys hbalanced hin) htaken hopen
      obtain ⟨more, hqueued, hmore⟩ := moves.said.more
      refine ⟨?_, more, hqueued, fun topic _ => hmore topic⟩
      have hself : sys.threads.set n t = sys.threads := by
        obtain ⟨hlt, heq⟩ := List.getElem?_eq_some_iff.mp hget
        rw [← heq, set_getElem_self]
      rw [moves.threads, map_set, moves.frame, ← map_set, hself]
      exact (append_nil _).symm
  | ping =>
    simp only [step]
    rw [pushNow_taken none htaken]
    exact ⟨(append_nil _).symm, _, (push_taken none htaken).2, fun _ _ => rfl⟩
  | clientCall id name params =>
    exact ⟨(append_nil _).symm, _, (push_taken none htaken).2, fun _ _ => rfl⟩
  | outside s =>
    refine ⟨(append_nil _).symm, _, rfl, fun topic hnot => ?_⟩
    rw [gained_section sys.hub s htaken]
    unfold publishesOf
    rw [filter_eq_nil_iff]
    intro entry hentry
    obtain ⟨frame, hframe, rfl⟩ := mem_map.mp hentry
    intro hpublishes
    exact hnot ((foreign_frames sys.hub s hforeign hframe).2 topic hpublishes)
  | storeReq req | storeAuthenticated => exact ⟨(append_nil _).symm, hquiet⟩

theorem run_balanced (hbalanced : Balanced sys)
    (hmeets : Meets (step router) (Live router) sys acts) : Balanced (run (step router) sys acts) :=
  guarded_run_invariant (step router) (Live router) Balanced
    (fun sys a hbalanced hlive => step_balanced router sys a hbalanced hlive) sys acts hbalanced hmeets

theorem received_cons : received (a :: acts) = received [a] ++ received acts := by
  cases a <;> rfl

theorem run_frames (hbalanced : Balanced sys)
    (hmeets : Meets (step router) (Live router) sys acts) :
    (run (step router) sys acts).threads.map (·.frame) =
      sys.threads.map (·.frame) ++ received acts := by
  induction acts generalizing sys with
  | nil => exact (append_nil _).symm
  | cons a acts ih =>
    rw [run_cons, ih _ (step_balanced router sys a hbalanced hmeets.1) hmeets.2,
      (step_grows router sys a hbalanced hmeets.1).frames, received_cons a acts, append_assoc]

theorem run_queued (hbalanced : Balanced sys)
    (hmeets : Meets (step router) (Live router) sys acts) :
    ∃ more, (run (step router) sys acts).queued = sys.queued ++ more := by
  induction acts generalizing sys with
  | nil => exact ⟨[], (append_nil _).symm⟩
  | cons a acts ih =>
    obtain ⟨first, hfirst, _⟩ := (step_grows router sys a hbalanced hmeets.1).queued
    obtain ⟨rest, hrest⟩ := ih _ (step_balanced router sys a hbalanced hmeets.1) hmeets.2
    refine ⟨first ++ rest, ?_⟩
    rw [run_cons, hrest, hfirst, append_assoc]

theorem run_publishes (hbalanced : Balanced sys)
    (hmeets : Meets (step router) (Live router) sys acts)
    (hnot : ∀ first, first <+: acts → ¬ Subscribed (run (step router) sys first) topic) :
    publishesOf topic (run (step router) sys acts).queued = publishesOf topic sys.queued := by
  induction acts generalizing sys with
  | nil => rfl
  | cons a acts ih =>
    obtain ⟨more, hqueued, hmore⟩ := (step_grows router sys a hbalanced hmeets.1).queued
    rw [run_cons, ih _ (step_balanced router sys a hbalanced hmeets.1) hmeets.2]
    · unfold publishesOf at hmore ⊢
      rw [hqueued, filter_append, hmore topic (hnot [] nil_prefix), append_nil]
    · intro first hfirst
      exact hnot (a :: first) (cons_prefix_cons.mpr ⟨rfl, hfirst⟩)

theorem creates_ack (hbalanced : Balanced sys) (hlive : Live router sys a)
    (hcreates : Creates router sys a n topic) :
    ∃ t id position, sys.threads[n]? = some t ∧ requestId t.frame = some id ∧
      (step router sys a).queued =
        sys.queued ++ [(some n, .hub (.result id (.cursor topic position)))] := by
  obtain ⟨hnot, hafter, awaited, t, attempts, channel, key, mark, rfl, hget, hpoint⟩ := hcreates
  have hstep : step router sys (.act n awaited) =
      subscribeStep router sys n t attempts channel key topic mark := by
    simp only [step, hget, advance, hpoint]
  have htaken := hlive.2.1
  simp only [offers, hget, hpoint] at htaken
  have hgained := gained_step sys.hub (.subscribe sys.session.conn topic
    (clientSubscribe router t.id topic mark)) sys.session.conn trivial htaken
  have hid := (hbalanced.sound t (mem_of_getElem? hget)).requested (by rw [hpoint]; rfl)
  rw [hstep] at hafter ⊢
  rcases htried : subscribeLocked sys.hub sys.session.conn topic
    (clientSubscribe router t.id topic mark) with ⟨h, slow, outcome⟩
  rw [subscribe_frames router sys t topic mark outcome (by rw [htried])] at hgained
  simp only [PubsubHub.step, htried] at hgained
  cases outcome with
  | error error =>
    obtain ⟨_, heq⟩ | ⟨_, _, _, _, _, heq⟩ := subscribeLocked_cases sys.hub sys.session.conn topic
      (clientSubscribe router t.id topic mark)
    · rw [heq] at htried
      cases htried
      refine absurd ?_ hnot
      simpa only [subscribeStep, heq, goTo, perform, Subscribed] using hafter
    · rw [heq] at htried
      cases htried
  | ok position =>
    refine ⟨t, t.id, position, hget, hid, ?_⟩
    simp only [subscribeStep, htried, goTo, perform, hgained]
    rfl

theorem owes_of_done (hdone : t.point = .done) : t.owes = none := by
  unfold Thread.owes
  rw [hdone]
  rfl

theorem Balanced.settled {sys : System R} (hbalanced : Balanced sys)
    (hdone : ∀ t ∈ sys.threads, t.point = .done) :
    (∀ id, terminals sys.queued id = sys.threads.countP fun t => requestId t.frame = some id) ∧
      sys.authenticating = false ∧ sys.free = maxInflightCalls := by
  refine ⟨fun id => ?_, ?_, ?_⟩
  · have hbefore := hbalanced.answered id
    have hnone : sys.threads.countP (fun t => t.owes = some id) = 0 := by
      rw [countP_eq_zero]
      intro t ht
      simp [owes_of_done t (hdone t ht)]
    omega
  · have hnone : sys.threads.countP (fun t => t.point.claims) = 0 := by
      rw [countP_eq_zero]
      intro t ht
      rw [hdone t ht]
      exact Bool.false_ne_true
    rw [hbalanced.claims] at hnone
    cases hheld : sys.authenticating with
    | false => rfl
    | true =>
      rw [hheld] at hnone
      cases hnone
  · have hnone : sys.threads.countP (fun t => t.permit) = 0 := by
      rw [countP_eq_zero]
      intro t ht
      rw [(hbalanced.sound t ht).unpermitted (by rw [hdone t ht]; rfl)]
      exact Bool.false_ne_true
    have hbefore := hbalanced.permits
    omega

theorem Spoken.answer {t : Thread R} {said : List Outgoing} {id : ℕ} (hspoken : Spoken t said)
    (hrequest : requestId t.frame = some id) (hdone : t.point = .done) :
    ∃ items answer, said = items ++ [answer] ∧ (∀ item ∈ items, ∃ data, item = .item id data) ∧
      answer.terminal = some id := by
  unfold Spoken at hspoken
  rw [hrequest] at hspoken
  obtain ⟨items, hitems, ⟨howes, _⟩ | ⟨_, answer, hterminal, hsaid⟩⟩ := hspoken
  · rw [owes_of_done t hdone] at howes
    cases howes
  · exact ⟨items, answer, hsaid, hitems, hterminal⟩

theorem publishes_before (hbalanced : Balanced sys)
    (hmeets : Meets (step router) (Live router) sys first) {earlier : List (Act R)}
    (hearlier : earlier <+: first)
    (hnot : ∀ between, earlier <+: between → between <+: first →
      ¬ Subscribed (run (step router) sys between) topic) :
    publishesOf topic (run (step router) sys first).queued =
      publishesOf topic (run (step router) sys earlier).queued := by
  obtain ⟨gap, rfl⟩ := hearlier
  obtain ⟨hstart, hgap⟩ := (meets_append _ _ _ earlier gap).mp hmeets
  rw [run_append]
  refine run_publishes router _ gap topic (run_balanced router _ earlier hbalanced hstart) hgap ?_
  intro part hpart
  rw [← run_append]
  exact hnot (earlier ++ part) (prefix_append _ _)
    ((prefix_append_right_inj earlier).mpr hpart)

theorem ack_stands {rest : List (Act R)} {n : ℕ} {topic : Topic} (hbalanced : Balanced sys)
    (hmeets : Meets (step router) (Live router) sys (first ++ a :: rest))
    (hcreates : Creates router (run (step router) sys first) a n topic) :
    ∃ t id position later, (run (step router) sys first).threads[n]? = some t ∧
      requestId t.frame = some id ∧
      (run (step router) sys (first ++ a :: rest)).queued = (run (step router) sys first).queued ++
          (some n, .hub (.result id (.cursor topic position))) :: later := by
  obtain ⟨hfirst, hlive, hrest⟩ := (meets_append _ _ _ first (a :: rest)).mp hmeets
  have hbefore := run_balanced router _ first hbalanced hfirst
  obtain ⟨t, id, position, hget, hrequest, hqueued⟩ :=
    creates_ack router _ a n topic hbefore hlive hcreates
  obtain ⟨later, hlater⟩ := run_queued router _ rest
    (step_balanced router _ a hbefore hlive) hrest
  refine ⟨t, id, position, later, hget, hrequest, ?_⟩
  rw [hqueued, append_assoc] at hlater
  rw [run_append]
  exact hlater

theorem received_append (rest : List (Act R)) :
    received (first ++ rest) = received first ++ received rest := by
  induction first with
  | nil => rfl
  | cons a first ih =>
    rw [cons_append, received_cons a, ih, received_cons a first, append_assoc]

/-- In every run in which the queue takes every frame and the session stays open,
once all threads are done each request has one answer, after its items; an ack comes
before every publish of the subscription it announces; and nothing is held back. -/
theorem requests_answered_once (h : Hub) (outgoingBuffer : ℕ) (req : R) (acts : List (Act R))
    (hmeets : Meets (step router) (Live router) (opened router h outgoingBuffer req) acts)
    (hdone : ∀ t ∈ (run (step router) (opened router h outgoingBuffer req) acts).threads, t.point =
      .done) :
    let after := run (step router) (opened router h outgoingBuffer req)
    (∀ id, terminals (after acts).queued id =
      (received acts).countP fun frame => requestId frame = some id) ∧
    (∀ n frame id, (received acts)[n]? = some frame → requestId frame = some id →
      ∃ items answer, framesOf n (after acts).queued = items ++ [answer] ∧
        (∀ item ∈ items, ∃ data, item = .item id data) ∧ answer.terminal = some id) ∧
    (∀ first a rest n topic, acts = first ++ a :: rest → Creates router (after first) a n topic →
      ∃ frame id position later, (received acts)[n]? = some frame ∧ requestId frame = some id ∧
        (after acts).queued = (after first).queued ++
          (some n, .hub (.result id (.cursor topic position))) :: later ∧
        ∀ earlier, earlier <+: first →
          (∀ between, earlier <+: between → between <+: first → ¬ Subscribed (after between) topic) →
          publishesOf topic (after first).queued = publishesOf topic (after earlier).queued) ∧
    (after acts).authenticating = false ∧ (after acts).free = maxInflightCalls := by
  intro after
  have hopened : Balanced (opened router h outgoingBuffer req) := opened_balanced router h _ req
  have hbalanced : Balanced (after acts) := run_balanced router _ acts hopened hmeets
  have hframes : ∀ acts, Meets (step router) (Live router) (opened router h outgoingBuffer req) acts →
      (after acts).threads.map (fun t => t.frame) = received acts :=
    fun acts hmeets => run_frames router _ acts hopened hmeets
  obtain ⟨hcounts, hauth, hfree⟩ := hbalanced.settled hdone
  refine ⟨fun id => ?_, ?_, ?_, hauth, hfree⟩
  · rw [hcounts id, ← hframes acts hmeets, countP_map]
    rfl
  · intro n frame id hframe hrequest
    rw [← hframes acts hmeets, List.getElem?_map] at hframe
    obtain ⟨t, hget, rfl⟩ := Option.map_eq_some_iff.mp hframe
    exact (hbalanced.spoken n t hget).answer hrequest (hdone t (mem_of_getElem? hget))
  · intro first a rest n topic hacts hcreates
    subst hacts
    have hfirst := ((meets_append _ _ _ first (a :: rest)).mp hmeets).1
    obtain ⟨t, id, position, later, hget, hrequest, hqueued⟩ :=
      ack_stands router _ first a hopened hmeets hcreates
    have hreceived : (received first)[n]? = some t.frame := by
      rw [← hframes first hfirst, List.getElem?_map]
      exact congrArg (Option.map fun t => t.frame) hget
    refine ⟨t.frame, id, position, later, ?_, hrequest, hqueued, fun earlier hearlier hnot => ?_⟩
    · rw [received_append, List.getElem?_append_left (List.getElem?_eq_some_iff.mp hreceived).1]
      exact hreceived
    · exact publishes_before router _ first topic hopened hfirst hearlier hnot

end

def plainRouter : Router where
  auth := false
  actions := fun name => name = "echo"
  streams := fun _ => false
  channels := fun name => name = "room"
  onError := id
  maxSubscriptions := 64
  maxConnectionsPerUser := 8

def plainSession : System Unit := opened plainRouter (newHub (fun _ => 0) 0) 8 ()

def subscribeFrame (id : ℕ) : Inbound :=
  ⟨some "subscribe", some id, none, some "room", none, none, some "7"⟩

def unsubscribeFrame (id : ℕ) : Inbound :=
  ⟨some "unsubscribe", some id, none, none, some "room:id=7", none, none⟩

def callFrame (id : ℕ) : Inbound := ⟨some "call", some id, some "echo", none, none, none, none⟩

/-- Thread `n` handles its frame up to the task's first step. -/
def handled (n : ℕ) : List (Act Unit) :=
  [.act n .nothing, .act n (.touched true), .act n .nothing, .act n .nothing]

/-- The task of a subscribe up to its section of the hub. -/
def resolved (n : ℕ) : List (Act Unit) :=
  [.act n (.topicOf (.ok "room:id=7")), .act n (.authorized (.ok true))]

/-- A subscribe, a publish and an unsubscribe, then a second subscribe up to its
section of the hub. -/
def resubscribing : List (Act Unit) :=
  .arrive (subscribeFrame 1) :: handled 0 ++ resolved 0 ++ [.act 0 .nothing, .act 0 .nothing] ++
    [.outside (.fanOut "room:id=7" "posted" "1")] ++
    .arrive (unsubscribeFrame 2) :: handled 1 ++ [.act 1 .nothing] ++
    .arrive (subscribeFrame 3) :: handled 2 ++ resolved 2

def resubscribed : List (Act Unit) := resubscribing ++ [.act 2 .nothing, .act 2 .nothing]

theorem requests_answered_resubscribed :
    Meets (step plainRouter) (Live plainRouter) plainSession resubscribed ∧
    (∀ t ∈ (run (step plainRouter) plainSession resubscribed).threads, t.point = .done) ∧
    (∀ id, terminals (run (step plainRouter) plainSession resubscribed).queued id =
      (received resubscribed).countP fun frame => requestId frame = some id) ∧
    (received resubscribed).map requestId = [some 1, some 2, some 3] ∧
    (run (step plainRouter) plainSession resubscribed).free = maxInflightCalls := by
  have hmeets : Meets (step plainRouter) (Live plainRouter) plainSession resubscribed := by
    decide +kernel
  have hdone : ∀ t ∈ (run (step plainRouter) plainSession resubscribed).threads, t.point = .done := by
    decide +kernel
  have hall := requests_answered_once plainRouter (newHub (fun _ => 0) 0) 8 () resubscribed hmeets
    hdone
  exact ⟨hmeets, hdone, hall.1, by decide, hall.2.2.2.2⟩

/-- The queue does not fill, though its receiving end may be gone. -/
def Unfilled (router : Router) (sys : System Unit) (a : Act Unit) : Prop :=
  isForeign sys a = true ∧
    (sys.mailbox.receiving = true → (offerAll sys.mailbox (offers router sys a)).2 = true) ∧
    (step router sys a).mailbox.closer = none

instance (router : Router) (sys : System Unit) (a : Act Unit) : Decidable (Unfilled router sys a) :=
  inferInstanceAs (Decidable (_ ∧ _ ∧ _))

/-- The adapter drops the receiving end, then a call comes in. -/
def hungUp : List (Act Unit) :=
  .outside (.hangUp 1) :: .arrive (callFrame 1) :: handled 0 ++
    [.act 0 (.dispatched (.ok "1")), .act 0 .nothing]

/-- The second subscribe creates a subscription, and its ack follows a publish of the
topic; a call whose answer nobody receives stays unanswered. -/
theorem resubscribed_and_hung_up :
    (Meets (step plainRouter) (Live plainRouter) plainSession resubscribed ∧
      (∀ t ∈ (run (step plainRouter) plainSession resubscribed).threads, t.point = .done) ∧
      Creates plainRouter (run (step plainRouter) plainSession resubscribing) (.act 2 .nothing) 2
        "room:id=7" ∧
      (run (step plainRouter) plainSession resubscribed).queued =
        [(some 0, .hub (.result 1 (.cursor "room:id=7" ⟨0, 0⟩))),
          (none, .hub (.publish "room:id=7" "posted" "1" ⟨0, 1⟩)),
          (some 1, .hub (.result 2 (.bool true))),
          (some 2, .hub (.result 3 (.cursor "room:id=7" ⟨1, 0⟩)))]) ∧
    Meets (step plainRouter) (Unfilled plainRouter) plainSession hungUp ∧
      (∀ t ∈ (run (step plainRouter) plainSession hungUp).threads, t.point = .done) ∧
      terminals (run (step plainRouter) plainSession hungUp).queued 1 = 0 ∧
      (received hungUp).countP (fun frame => requestId frame = some 1) = 1 := by
  refine ⟨⟨by decide +kernel, by decide +kernel, ⟨?_, ?_, ?_⟩, by decide +kernel⟩,
    by decide +kernel, by decide +kernel, by decide +kernel, by decide⟩
  · unfold Subscribed
    decide +kernel
  · unfold Subscribed
    decide +kernel
  · exact ⟨_, _, _, _, _, _, rfl, rfl, rfl⟩

end Stakit.SessionRequests
