import Stakit.SessionRequests

set_option autoImplicit false

namespace Stakit.SessionRequests
open PubsubHub PubsubTopic RouterError TransitionRuns List
open PubsubNode (subscribeAttempts)
open Function (update_self update_of_ne update)

section
variable {R : Type}

/-- The request is still to be answered at this point. -/
def Point.owes : Point R → Bool
  | .done | .unclaim | .close _ | .closeSlow _ _ _ _ (.ok _) => false
  | _ => true

/-- The thread has set `authenticating` and is to clear it. -/
def Point.claims : Point R → Bool
  | .checkConflict claimed => claimed
  | .permit (.auth _) | .reply _ .unclaim => true
  | .releaseConflict | .unclaim | .hook _ | .bind _ _ | .announce _ _ _ _ => true
  | .storeReq _ | .storeAuthenticated | .settle _ => true
  | _ => false

/-- The thread is past the match of `handle`. -/
def Point.serves : Point R → Bool
  | .checkClosed | .touch | .done => false
  | _ => true

/-- The thread holds no permit: it is still inside `handle`, or it is done. -/
def Point.bare : Point R → Bool
  | .checkClosed | .touch | .checkAuthenticated _ | .claim | .checkConflict _ => true
  | .releaseConflict | .permit _ | .leave _ | .done => true
  | _ => false

def Thread.owes (t : Thread R) : Option ℕ := if t.point.owes then requestId t.frame else none

structure Thread.Sound (t : Thread R) : Prop where
  requested : t.point.serves = true → requestId t.frame = some t.id
  unpermitted : t.point.bare = true → t.permit = false

/-- What a step of thread `n` adds to the queue, by what it owes before and after. -/
inductive Said (n : ℕ) (before after : List (Option ℕ × Outgoing)) : Option ℕ → Option ℕ → Prop
  | nothing (owed : Option ℕ) (h : after = before) : Said n before after owed owed
  | item (id : ℕ) (data : String) (h : after = before ++ [(some n, .item id data)]) :
      Said n before after (some id) (some id)
  | answer (id : ℕ) (frame : Outgoing) (h : after = before ++ [(some n, frame)])
      (hterminal : frame.terminal = some id) : Said n before after (some id) none

structure Moves (sys sys' : System R) (n : ℕ) (t t' : Thread R) : Prop where
  threads : sys'.threads = sys.threads.set n t'
  frame : t'.frame = t.frame
  conn : sys'.session.conn = sys.session.conn
  sound : t'.Sound
  claims : sys'.authenticating.toNat + t.point.claims.toNat =
    sys.authenticating.toNat + t'.point.claims.toNat
  permits : sys'.free + t'.permit.toNat = sys.free + t.permit.toNat
  said : Said n sys.queued sys'.queued t.owes t'.owes

def Moved (sys sys' : System R) (n : ℕ) (t : Thread R) : Prop := ∃ t', Moves sys sys' n t t'

theorem id_of_requestId {frame : Inbound} {id : ℕ} (h : requestId frame = some id) :
    frame.id = some id := by
  unfold requestId requestOf at h
  split at h <;> simp_all

variable (id : ℕ) (t : Thread R) {sys : System R} (n : ℕ)

theorem sound_of_requestId (h : requestId t.frame ≠ none) : requestId t.frame = some t.id := by
  obtain ⟨id, hid⟩ := Option.ne_none_iff_exists'.mp h
  unfold Thread.id
  rw [hid, id_of_requestId hid]
  rfl

theorem owes_of_owing (howes : t.point.owes = true) (hserves : t.point.serves = true)
    (hsound : t.Sound) : t.owes = some t.id := by
  unfold Thread.owes
  rw [if_pos howes]
  exact hsound.requested hserves

/-- The step left alone what only threads and their frames change. -/
structure Aside (sys base : System R) : Prop where
  threads : base.threads = sys.threads
  conn : base.session.conn = sys.session.conn
  free : base.free = sys.free

theorem moves_goTo {base : System R} (n : ℕ) (t : Thread R) (point : Point R)
    (haside : Aside sys base) (hqueued : base.queued = sys.queued)
    (hclaims : base.authenticating.toNat + t.point.claims.toNat =
      sys.authenticating.toNat + point.claims.toNat)
    (howes : point.owes = t.point.owes) (hid : requestId t.frame = some t.id)
    (hbare : point.bare = true → t.permit = false) : Moved sys (goTo base n t point) n t := by
  refine ⟨{ t with point := point }, ?_, rfl, haside.conn, ⟨fun _ => hid, hbare⟩, hclaims, ?_, ?_⟩
  · unfold goTo
    rw [haside.threads]
  · change base.free + _ = _
    rw [haside.free]
  · have hsame : (⟨t.frame, t.permit, point⟩ : Thread R).owes = t.owes := by
      unfold Thread.owes
      rw [howes]
    rw [hsame]
    exact .nothing _ hqueued

variable (sys) in
theorem moves_on {t : Thread R} {start : Point R} (hpoint : t.point = start) (point : Point R)
    (hsound : t.Sound) (hserves : start.serves = true) (hclaims : point.claims = start.claims)
    (howes : point.owes = start.owes) (hbare : point.bare = true → start.bare = true) :
    Moved sys (goTo sys n t point) n t := by
  subst hpoint
  exact moves_goTo n t point ⟨rfl, rfl, rfl⟩ rfl (by rw [hclaims]) howes (hsound.requested hserves)
    fun h => hsound.unpermitted (hbare h)

theorem moves_stay {t : Thread R} (hget : sys.threads[n]? = some t) (hsound : t.Sound) :
    Moved sys sys n t := by
  refine ⟨t, ?_, rfl, rfl, hsound, rfl, rfl, .nothing _ rfl⟩
  obtain ⟨hlt, heq⟩ := List.getElem?_eq_some_iff.mp hget
  rw [← heq, set_getElem_self]

theorem moves_finish {base : System R} (n : ℕ) (t : Thread R) (haside : Aside sys base)
    (hclaims : base.authenticating.toNat + t.point.claims.toNat = sys.authenticating.toNat)
    (hsaid : Said n sys.queued base.queued t.owes none) : Moved sys (finish base n t) n t := by
  refine ⟨⟨t.frame, false, .done⟩, ?_, rfl, haside.conn, ⟨nofun, fun _ => rfl⟩, hclaims, ?_, hsaid⟩
  · unfold finish
    rw [haside.threads]
  · change base.free + t.permit.toNat + 0 = _
    rw [haside.free]
    rfl

theorem push_taken (source : Option ℕ) {frame : Outgoing}
    (htaken : (offerAll sys.mailbox [frame.wire]).2 = true) :
    (push sys source frame).2 = true ∧
      (push sys source frame).1.queued = sys.queued ++ [(source, frame)] := by
  have hsent : (trySend sys.hub.peers sys.session.conn frame.wire).2 = true := by
    rw [trySend_sent]
    simpa [offerAll, System.mailbox] using htaken
  unfold push
  dsimp only
  rw [hsent]
  exact ⟨rfl, rfl⟩

theorem pushNow_taken (source : Option ℕ) {frame : Outgoing}
    (htaken : (offerAll sys.mailbox [frame.wire]).2 = true) :
    pushNow sys source frame = (push sys source frame).1 := by
  unfold pushNow
  dsimp only
  rw [if_neg]
  rintro ⟨hfull, _⟩
  rw [(push_taken source htaken).1] at hfull
  cases hfull

theorem gained_of_mailbox (h after : Hub) (conn : ConnId) (frames : List Frame)
    (hqueue : (after.peers conn).queue = (h.peers conn).queue ++ frames) :
    gained h after conn = frames := by
  unfold gained
  rw [hqueue, drop_left]

theorem queue_le_of_quiet (h : Hub) (s : Section) (conn : ConnId) (hs : ¬ Offers s) :
    ((PubsubHub.step h s).peers conn).queue.length ≤ (h.peers conn).queue.length := by
  cases s with
  | register capacity =>
    change (update h.peers h.nextConn _ conn).queue.length ≤ _
    by_cases hid : conn = h.nextConn
    · subst hid
      rw [update_self]
      exact Nat.zero_le _
    · rw [update_of_ne hid]
  | receive id =>
    change (update h.peers id _ conn).queue.length ≤ _
    by_cases hid : conn = id
    · subst hid
      rw [update_self]
      simp
    · rw [update_of_ne hid]
  | hangUp id =>
    change (update h.peers id _ conn).queue.length ≤ _
    by_cases hid : conn = id
    · subst hid
      rw [update_self]
    · rw [update_of_ne hid]
  | _ => exact absurd trivial hs

theorem gained_step (h : Hub) (s : Section) (conn : ConnId) (hs : Offers s)
    (htaken : (offerAll (h.peers conn) (sectionFrames h s conn)).2 = true) :
    gained h (PubsubHub.step h s) conn = sectionFrames h s conn := by
  refine gained_of_mailbox h _ conn _ ?_
  rw [← offerAll_taken (h.peers conn) _ htaken]
  exact congrArg Mailbox.queue (step_mailbox h hs conn)

variable (sys) in
theorem closed_closer (reason : CloseReason) : (closed sys reason).mailbox.closer ≠ none := by
  unfold closed System.mailbox closeSession failPending signal
  dsimp only
  cases hcloser : ((close sys.hub sys.session.conn reason).peers sys.session.conn).closer with
  | some first => simp [hcloser]
  | none => simp

theorem resultFrame_terminal (result : Except Error Data) :
    (resultFrame id result).terminal = some id := by
  cases result <;> rfl

theorem respondFrame_terminal (answer : Option (Except Error String)) :
    (respondFrame id answer).terminal = some id := by
  rcases answer with _ | _ | _ <;> rfl

section
variable (router : Router) (sys : System R) (n : ℕ) (t : Thread R) (awaited : Awaited R)

theorem moves_checkClosed (hpoint : t.point = .checkClosed) (hsound : t.Sound)
    (hopen : (checkClosedStep sys n t).mailbox.closer = none) :
    Moved sys (checkClosedStep sys n t) n t := by
  simp only [checkClosedStep] at hopen ⊢
  split_ifs at hopen ⊢ with hcloser
  · change sys.mailbox.closer = none at hopen
    rw [hopen] at hcloser
    cases hcloser
  · refine ⟨⟨t.frame, t.permit, .touch⟩, rfl, rfl, rfl, ⟨nofun, fun _ => ?_⟩,
      by rw [hpoint]; rfl, rfl, ?_⟩
    · exact hsound.unpermitted (by rw [hpoint]; rfl)
    · have hafter : (⟨t.frame, t.permit, .touch⟩ : Thread R).owes = t.owes := by
        unfold Thread.owes
        rw [hpoint]
        rfl
      rw [hafter]
      exact .nothing _ rfl

theorem moves_touched (hpoint : t.point = .touch) (hsound : t.Sound) :
    Moved sys (touchStep router sys n t (.touched true)) n t := by
  have hfresh : t.permit = false := hsound.unpermitted (by rw [hpoint]; rfl)
  simp only [touchStep, route]
  rcases hrequest : requestOf t.frame with _ | ⟨id, request⟩
  · have hnone : t.owes = none := by
      unfold Thread.owes requestId
      rw [hrequest]
      exact ite_self _
    refine moves_finish n t ⟨rfl, rfl, rfl⟩ (by rw [hpoint]; rfl) ?_
    rw [hnone]
    exact .nothing none rfl
  · have hid : requestId t.frame = some t.id := by
      refine sound_of_requestId t ?_
      unfold requestId
      rw [hrequest]
      exact Option.some_ne_none _
    have hon : ∀ point : Point R, point.claims = false → point.owes = true →
        Moved sys (goTo sys n t point) n t := by
      intro point hclaims howes
      exact moves_goTo n t point ⟨rfl, rfl, rfl⟩ rfl (by rw [hpoint, hclaims]; rfl)
        (by rw [hpoint, howes]; rfl) hid fun _ => hfresh
    cases request with
    | auth =>
      dsimp only
      split_ifs
      · exact hon _ rfl rfl
      · exact hon _ rfl rfl
    | _ => exact hon _ rfl rfl

theorem moves_touch (hpoint : t.point = .touch) (hget : sys.threads[n]? = some t)
    (hsound : t.Sound) (hopen : (touchStep router sys n t awaited).mailbox.closer = none) :
    Moved sys (touchStep router sys n t awaited) n t := by
  rcases awaited with _ | (_ | _) | _ | _ | _ | _ | _
  case touched.true => exact moves_touched router sys n t hpoint hsound
  case touched.false =>
    simp only [touchStep] at hopen
    exact absurd hopen (closed_closer sys .rateLimited)
  all_goals
    simp only [touchStep]
    exact moves_stay n hget hsound

theorem moves_checkAuthenticated {request : Request}
    (hpoint : t.point = .checkAuthenticated request) (hsound : t.Sound) :
    Moved sys (checkAuthenticatedStep router sys n t request) n t := by
  simp only [checkAuthenticatedStep]
  split_ifs
  · cases request with
    | subscribe =>
      unfold workOf
      split_ifs <;> exact moves_on sys n hpoint _ hsound rfl rfl rfl fun _ => rfl
    | _ => exact moves_on sys n hpoint _ hsound rfl rfl rfl fun _ => rfl
  · exact moves_on sys n hpoint _ hsound rfl rfl rfl fun _ => rfl

theorem moves_claim (hpoint : t.point = .claim) (hsound : t.Sound) :
    Moved sys (claimStep sys n t) n t := by
  have hid : requestId t.frame = some t.id := hsound.requested (by rw [hpoint]; rfl)
  have hfresh : t.permit = false := hsound.unpermitted (by rw [hpoint]; rfl)
  simp only [claimStep]
  split_ifs with hheld
  · exact moves_goTo n t _ ⟨rfl, rfl, rfl⟩ rfl (by rw [hpoint]; rfl) (by rw [hpoint]; rfl)
      hid fun _ => hfresh
  · refine moves_goTo n t _ ⟨rfl, rfl, rfl⟩ rfl ?_ (by rw [hpoint]; rfl) hid fun _ => hfresh
    rw [hpoint, Bool.eq_false_iff.mpr hheld]
    rfl

theorem moves_checkConflict {claimed : Bool} (hpoint : t.point = .checkConflict claimed)
    (hsound : t.Sound) : Moved sys (checkConflictStep sys n t claimed) n t := by
  simp only [checkConflictStep]
  cases claimed with
  | false =>
    simp only [Bool.not_false, Bool.or_true, if_true, Bool.false_eq_true, if_false]
    exact moves_on sys n hpoint _ hsound rfl rfl rfl fun _ => rfl
  | true =>
    simp only [Bool.not_true, Bool.or_false, if_true]
    split_ifs <;> exact moves_on sys n hpoint _ hsound rfl rfl rfl fun _ => rfl

theorem moves_releaseConflict (hpoint : t.point = .releaseConflict) (hsound : t.Sound)
    (hheld : sys.authenticating = true) : Moved sys (releaseConflictStep sys n t) n t := by
  simp only [releaseConflictStep]
  refine moves_goTo n t _ ⟨rfl, rfl, rfl⟩ rfl ?_ (by rw [hpoint]; rfl)
    (hsound.requested (by rw [hpoint]; rfl)) (by intro h; cases h)
  rw [hheld, hpoint]
  rfl

theorem moves_permit {work : Work} (hpoint : t.point = .permit work) (hsound : t.Sound) :
    Moved sys (permitStep sys n t work) n t := by
  have hid : requestId t.frame = some t.id := hsound.requested (by rw [hpoint]; rfl)
  have hfresh : t.permit = false := hsound.unpermitted (by rw [hpoint]; rfl)
  simp only [permitStep]
  split_ifs with hfull
  · refine moves_goTo n t _ ⟨rfl, rfl, rfl⟩ rfl ?_ (by rw [hpoint]; rfl) hid fun _ => hfresh
    rw [hpoint]
    cases work <;> rfl
  · refine ⟨⟨t.frame, true, startOf work⟩, rfl, rfl, rfl, ⟨fun _ => hid, fun h => ?_⟩, ?_, ?_, ?_⟩
    · cases work <;> cases h
    · rw [hpoint]
      cases work <;> rfl
    · rw [hfresh]
      change sys.free - 1 + 1 = sys.free + 0
      omega
    · have hafter : (⟨t.frame, true, startOf work⟩ : Thread R).owes = t.owes := by
        unfold Thread.owes
        rw [hpoint]
        cases work <;> rfl
      rw [hafter]
      exact .nothing _ rfl

variable (attempts : ℕ) (channel key : String) (topic : Topic) (mark : ℕ)

theorem moves_leave (hpoint : t.point = .leave topic) (hsound : t.Sound) :
    Moved sys (leaveStep sys n t topic) n t := by
  have hgained := gained_step sys.hub (.unsubscribe sys.session.conn topic) sys.session.conn trivial
    rfl
  simp only [leaveStep]
  refine moves_goTo n t _ ⟨rfl, rfl, rfl⟩ ?_ (by rw [hpoint]; rfl) (by rw [hpoint]; rfl)
    (hsound.requested (by rw [hpoint]; rfl)) (by intro h; cases h)
  unfold perform
  dsimp only [PubsubHub.step] at hgained
  rw [hgained]
  exact append_nil _

theorem moves_reply {result : Except Error Data} {after : After}
    (hpoint : t.point = .reply result after) (hsound : t.Sound)
    (htaken : (offerAll sys.mailbox [(resultFrame t.id (mapError router result)).wire]).2 = true) :
    Moved sys (replyStep router sys n t result after) n t := by
  have hqueued := (push_taken (some n) htaken).2
  have hid : requestId t.frame = some t.id := hsound.requested (by rw [hpoint]; rfl)
  have howed : t.owes = some t.id := owes_of_owing t (by rw [hpoint]; rfl) (by rw [hpoint]; rfl) hsound
  have hsaid : Said n sys.queued
      (push sys (some n) (resultFrame t.id (mapError router result))).1.queued t.owes none := by
    rw [howed]
    exact .answer t.id _ hqueued (resultFrame_terminal _ _)
  simp only [replyStep]
  rw [pushNow_taken _ htaken]
  cases after with
  | nothing => exact moves_finish n t ⟨rfl, rfl, rfl⟩ (by rw [hpoint]; rfl) hsaid
  | unclaim =>
    exact ⟨⟨t.frame, t.permit, .unclaim⟩, rfl, rfl, rfl, ⟨fun _ => hid, nofun⟩,
      by rw [hpoint]; rfl, rfl, hsaid⟩
  | close reason =>
    exact ⟨⟨t.frame, t.permit, .close reason⟩, rfl, rfl, rfl,
      ⟨fun _ => hid, nofun⟩, by rw [hpoint]; rfl, rfl, hsaid⟩

theorem moves_unclaim (hpoint : t.point = .unclaim) (hheld : sys.authenticating = true) :
    Moved sys (unclaimStep sys n t) n t := by
  have hnone : t.owes = none := by
    unfold Thread.owes
    rw [hpoint]
    rfl
  simp only [unclaimStep]
  refine moves_finish n t ⟨rfl, rfl, rfl⟩ ?_ ?_
  · rw [hheld, hpoint]
    rfl
  · rw [hnone]
    exact .nothing none rfl

theorem moves_task {start : Point R} (hpoint : t.point = start) (point : Point R)
    (hsound : t.Sound) (hserves : start.serves = true) (hclaims : point.claims = start.claims)
    (howes : point.owes = start.owes) (htask : point.bare = false) :
    Moved sys (goTo sys n t point) n t :=
  moves_on sys n hpoint point hsound hserves hclaims howes fun h => by rw [htask] at h; cases h

theorem moves_dispatch {name params : String} (hpoint : t.point = .dispatch name params)
    (hget : sys.threads[n]? = some t) (hsound : t.Sound) :
    Moved sys (dispatchStep router sys n t name awaited) n t := by
  have hstay := moves_stay n hget hsound
  cases awaited with
  | dispatched result =>
    simp only [dispatchStep]
    split_ifs
    · exact moves_task sys n t hpoint _ hsound rfl rfl rfl rfl
    · exact hstay
  | nothing =>
    simp only [dispatchStep]
    split_ifs
    · exact hstay
    · exact moves_task sys n t hpoint _ hsound rfl rfl rfl rfl
    · exact moves_task sys n t hpoint _ hsound rfl rfl rfl rfl
  | _ =>
    simp only [dispatchStep]
    exact hstay

theorem moves_next (hpoint : t.point = .next) (hget : sys.threads[n]? = some t)
    (hsound : t.Sound) : Moved sys (nextStep router sys n t awaited) n t := by
  cases awaited with
  | item next =>
    rcases next with _ | _ | _ <;>
    · simp only [nextStep]
      exact moves_task sys n t hpoint _ hsound rfl rfl rfl rfl
  | _ =>
    simp only [nextStep]
    exact moves_stay n hget hsound

theorem moves_respond {answer : Option (Except Error String)} (hpoint : t.point = .respond answer)
    (hsound : t.Sound)
    (htaken : (offerAll sys.mailbox [(respondFrame t.id answer).wire]).2 = true) :
    Moved sys (respondStep sys n t answer) n t := by
  obtain ⟨hsent, hqueued⟩ := push_taken (some n) htaken
  have howed : t.owes = some t.id := owes_of_owing t (by rw [hpoint]; rfl) (by rw [hpoint]; rfl) hsound
  simp only [respondStep, pushAwait]
  rw [if_pos hsent]
  refine moves_finish n t ⟨rfl, rfl, rfl⟩ (by rw [hpoint]; rfl) ?_
  rw [howed]
  exact .answer t.id _ hqueued (respondFrame_terminal _ _)

theorem moves_sendItem {data : String} (hpoint : t.point = .sendItem data) (hsound : t.Sound)
    (htaken : (offerAll sys.mailbox [(Outgoing.item t.id data).wire]).2 = true) :
    Moved sys (sendItemStep sys n t data) n t := by
  obtain ⟨hsent, hqueued⟩ := push_taken (some n) htaken
  have hid : requestId t.frame = some t.id := hsound.requested (by rw [hpoint]; rfl)
  have howed : t.owes = some t.id := owes_of_owing t (by rw [hpoint]; rfl) (by rw [hpoint]; rfl) hsound
  simp only [sendItemStep, pushAwait]
  rw [if_pos hsent]
  refine ⟨⟨t.frame, t.permit, .next⟩, rfl, rfl, rfl, ⟨fun _ => hid, nofun⟩,
    by rw [hpoint]; rfl, rfl, ?_⟩
  have hafter : (⟨t.frame, t.permit, .next⟩ : Thread R).owes = some t.id := hid
  rw [howed, hafter]
  exact .item t.id data hqueued

theorem moves_hook {params : String} (hpoint : t.point = .hook params)
    (hget : sys.threads[n]? = some t) (hsound : t.Sound) :
    Moved sys (hookStep sys n t awaited) n t := by
  cases awaited with
  | hooked result =>
    rcases result with _ | ⟨_, _⟩ <;>
    · simp only [hookStep]
      exact moves_task sys n t hpoint _ hsound rfl rfl rfl rfl
  | _ =>
    simp only [hookStep]
    exact moves_stay n hget hsound

theorem gained_authenticate {identity : Identity} {userTopic deviceTopic : Option Topic}
    (htopics : identityTopics identity = .ok (userTopic, deviceTopic)) :
    gained sys.hub (authenticateLocked sys.hub sys.session.conn identity
      router.maxConnectionsPerUser userTopic deviceTopic).1 sys.session.conn = [] := by
  have hsame := authenticateSection_mailbox sys.hub sys.session.conn identity
    router.maxConnectionsPerUser sys.session.conn
  unfold authenticateSection at hsame
  rw [htopics] at hsame
  refine gained_of_mailbox _ _ _ _ ?_
  rw [append_nil]
  exact congrArg Mailbox.queue hsame

theorem moves_bind {req : R} {identity : Identity} (hpoint : t.point = .bind req identity)
    (hsound : t.Sound) : Moved sys (bindStep router sys n t req identity) n t := by
  have hid : requestId t.frame = some t.id := hsound.requested (by rw [hpoint]; rfl)
  simp only [bindStep]
  cases htopics : identityTopics identity with
  | error error =>
    exact moves_task sys n t hpoint _ hsound rfl rfl rfl rfl
  | ok topics =>
    obtain ⟨userTopic, deviceTopic⟩ := topics
    have hgained := gained_authenticate router sys htopics
    dsimp only
    rcases hbound : authenticateLocked sys.hub sys.session.conn identity
      router.maxConnectionsPerUser userTopic deviceTopic with ⟨h, superseded, slow, _ | _⟩
    all_goals
      rw [hbound] at hgained
      refine moves_goTo n t _ ⟨rfl, rfl, rfl⟩ ?_ (by rw [hpoint]; rfl) (by rw [hpoint]; rfl)
        hid (by intro h; cases h)
      unfold perform
      rw [hgained]
      exact append_nil _

theorem moves_settle {outcome : Except Error Unit} (hpoint : t.point = .settle outcome)
    (hsound : t.Sound) (hheld : sys.authenticating = true) :
    Moved sys (settleStep sys n t outcome) n t := by
  have hid : requestId t.frame = some t.id := hsound.requested (by rw [hpoint]; rfl)
  simp only [settleStep]
  cases outcome with
  | error error | ok done =>
    refine moves_goTo n t _ ⟨rfl, rfl, rfl⟩ rfl ?_ (by rw [hpoint]; rfl) hid
      (by intro h; cases h)
    rw [hheld, hpoint]
    rfl

theorem moves_resolve (hpoint : t.point = .resolve attempts channel key)
    (hget : sys.threads[n]? = some t) (hsound : t.Sound) :
    Moved sys (resolveStep sys n t attempts channel key awaited) n t := by
  cases awaited with
  | topicOf result =>
    cases result <;>
    · simp only [resolveStep]
      exact moves_task sys n t hpoint _ hsound rfl rfl rfl rfl
  | _ =>
    simp only [resolveStep]
    exact moves_stay n hget hsound

theorem moves_authorize (hpoint : t.point = .authorize attempts channel key topic mark)
    (hget : sys.threads[n]? = some t) (hsound : t.Sound) :
    Moved sys (authorizeStep sys n t attempts channel key topic mark awaited) n t := by
  cases awaited with
  | authorized result =>
    rcases result with _ | (_ | _) <;>
    · simp only [authorizeStep]
      exact moves_task sys n t hpoint _ hsound rfl rfl rfl rfl
  | _ =>
    simp only [authorizeStep]
    exact moves_stay n hget hsound

theorem subscribe_frames (outcome : Except Error Cursor)
    (houtcome : (subscribeLocked sys.hub sys.session.conn topic
      (clientSubscribe router t.id topic mark)).2.2 = outcome) :
    sectionFrames sys.hub
      (.subscribe sys.session.conn topic (clientSubscribe router t.id topic mark))
      sys.session.conn =
    match outcome with
    | .ok position => [.result t.id (.cursor topic position)]
    | .error _ => [] := by
  simp only [sectionFrames, subscribedAt, houtcome]
  cases outcome <;> simp [clientSubscribe]

theorem moves_subscribe (hpoint : t.point = .subscribe attempts channel key topic mark)
    (hsound : t.Sound)
    (htaken : (offerAll sys.mailbox (sectionFrames sys.hub
      (.subscribe sys.session.conn topic (clientSubscribe router t.id topic mark))
    sys.session.conn)).2 = true) :
    Moved sys (subscribeStep router sys n t attempts channel key topic mark) n t := by
  have hid : requestId t.frame = some t.id := hsound.requested (by rw [hpoint]; rfl)
  have howed : t.owes = some t.id := owes_of_owing t (by rw [hpoint]; rfl) (by rw [hpoint]; rfl) hsound
  have hgained := gained_step sys.hub (.subscribe sys.session.conn topic
    (clientSubscribe router t.id topic mark)) sys.session.conn trivial htaken
  simp only [subscribeStep]
  rcases htried : subscribeLocked sys.hub sys.session.conn topic
    (clientSubscribe router t.id topic mark) with ⟨h, slow, outcome⟩
  rw [subscribe_frames router sys t topic mark outcome (by rw [htried])] at hgained
  simp only [PubsubHub.step, htried] at hgained
  refine ⟨⟨t.frame, t.permit, .closeSlow attempts channel key slow outcome⟩, rfl, rfl, rfl,
    ⟨fun _ => hid, fun h => (by cases h)⟩, by rw [hpoint]; rfl, rfl, ?_⟩
  simp only [goTo, perform, hgained]
  cases outcome with
  | error error =>
    have hafter : (⟨t.frame, t.permit, .closeSlow attempts channel key slow (.error error)⟩ :
        Thread R).owes = some t.id := hid
    rw [howed, hafter]
    exact .nothing _ (append_nil _)
  | ok position =>
    rw [howed]
    exact .answer t.id _ rfl rfl

theorem moves_closeSlow {slow : List ConnId} {outcome : Except Error Cursor}
    (hpoint : t.point = .closeSlow attempts channel key slow outcome) (hsound : t.Sound) :
    Moved sys (closeSlowStep sys n t attempts channel key slow outcome) n t := by
  have hid : requestId t.frame = some t.id := hsound.requested (by rw [hpoint]; rfl)
  simp only [closeSlowStep]
  cases outcome with
  | error error =>
    dsimp only
    split_ifs
    · exact moves_goTo n t _ ⟨rfl, rfl, rfl⟩ rfl (by rw [hpoint]; rfl) (by rw [hpoint]; rfl) hid
        (by intro h; cases h)
    · exact moves_goTo n t _ ⟨rfl, rfl, rfl⟩ rfl (by rw [hpoint]; rfl) (by rw [hpoint]; rfl) hid
        (by intro h; cases h)
  | ok position =>
    have hnone : t.owes = none := by
      unfold Thread.owes
      rw [hpoint]
      rfl
    refine moves_finish n t ⟨rfl, rfl, rfl⟩ (by rw [hpoint]; rfl) ?_
    rw [hnone]
    exact .nothing none rfl

theorem advance_moves (hget : sys.threads[n]? = some t) (hsound : t.Sound)
    (hclaimed : t.point.claims = true → sys.authenticating = true)
    (htaken : (offerAll sys.mailbox (offers router sys (.act n awaited))).2 = true)
    (hopen : (advance router sys n t awaited).mailbox.closer = none) :
    Moved sys (advance router sys n t awaited) n t := by
  simp only [offers, hget] at htaken
  unfold advance at hopen ⊢
  cases hpoint : t.point with
  | checkClosed =>
    rw [hpoint] at hopen
    exact moves_checkClosed sys n t hpoint hsound hopen
  | touch =>
    rw [hpoint] at hopen
    exact moves_touch router sys n t awaited hpoint hget hsound hopen
  | checkAuthenticated request => exact moves_checkAuthenticated router sys n t hpoint hsound
  | claim => exact moves_claim sys n t hpoint hsound
  | checkConflict claimed => exact moves_checkConflict sys n t hpoint hsound
  | releaseConflict =>
    exact moves_releaseConflict sys n t hpoint hsound (hclaimed (by rw [hpoint]; rfl))
  | permit work => exact moves_permit sys n t hpoint hsound
  | leave topic => exact moves_leave sys n t topic hpoint hsound
  | reply result after =>
    rw [hpoint] at htaken
    exact moves_reply router sys n t hpoint hsound htaken
  | unclaim => exact moves_unclaim sys n t hpoint (hclaimed (by rw [hpoint]; rfl))
  | close reason =>
    rw [hpoint] at hopen
    exact absurd hopen (closed_closer sys reason)
  | dispatch name params =>
    exact moves_dispatch router sys n t awaited hpoint hget hsound
  | respond answer =>
    rw [hpoint] at htaken
    exact moves_respond sys n t hpoint hsound htaken
  | next => exact moves_next router sys n t awaited hpoint hget hsound
  | sendItem data =>
    rw [hpoint] at htaken
    exact moves_sendItem sys n t hpoint hsound htaken
  | hook params => exact moves_hook sys n t awaited hpoint hget hsound
  | bind req identity => exact moves_bind router sys n t hpoint hsound
  | announce req superseded slow deviceTopic | storeReq req | storeAuthenticated =>
    exact moves_goTo n t _ ⟨rfl, rfl, rfl⟩ rfl (by rw [hpoint]; rfl) (by rw [hpoint]; rfl)
      (hsound.requested (by rw [hpoint]; rfl)) (by intro h; cases h)
  | settle outcome =>
    exact moves_settle sys n t hpoint hsound (hclaimed (by rw [hpoint]; rfl))
  | resolve attempts channel key =>
    exact moves_resolve sys n t awaited attempts channel key hpoint hget hsound
  | authorize attempts channel key topic mark =>
    exact moves_authorize sys n t awaited attempts channel key topic mark hpoint hget hsound
  | subscribe attempts channel key topic mark =>
    rw [hpoint] at htaken
    exact moves_subscribe router sys n t attempts channel key topic mark hpoint hsound htaken
  | closeSlow attempts channel key slow outcome =>
    exact moves_closeSlow sys n t attempts channel key hpoint hsound
  | done => exact moves_stay n hget hsound

end

/-- Everything but the queue is as it was, and what was added answers nobody. -/
structure Overheard (sys sys' : System R) : Prop where
  threads : sys'.threads = sys.threads
  conn : sys'.session.conn = sys.session.conn
  authenticating : sys'.authenticating = sys.authenticating
  free : sys'.free = sys.free
  queued : ∃ more, sys'.queued = sys.queued ++ more ∧
    ∀ entry ∈ more, entry.1 = none ∧ entry.2.terminal = none

variable (h : Hub) (sys : System R) (s : Section)

theorem gained_section {conn : ConnId}
    (htaken : (offerAll (h.peers conn) (sectionFrames h s conn)).2 = true) :
    gained h (PubsubHub.step h s) conn = sectionFrames h s conn := by
  by_cases hs : Offers s
  · exact gained_step h s conn hs htaken
  · have hnone : sectionFrames h s conn = [] := by
      cases s <;> first | rfl | exact absurd trivial hs
    rw [hnone]
    exact drop_eq_nil_of_le (queue_le_of_quiet h s conn hs)

theorem resetFrames_terminal {walk : List Topic} {who : ConnId} {frame : Frame}
    (hframe : frame ∈ resetFrames h walk who) :
    (Outgoing.hub frame).terminal = none ∧ ∀ topic, (Outgoing.hub frame).publishes topic = false := by
  induction walk generalizing h with
  | nil => cases hframe
  | cons topic walk ih =>
    rw [resetFrames, mem_append] at hframe
    rcases hframe with hframe | hframe
    · split_ifs at hframe
      · rw [mem_singleton.mp hframe]
        unfold resetFrame
        split_ifs <;> exact ⟨rfl, fun _ => rfl⟩
      · cases hframe
    · exact ih _ hframe

theorem foreign_frames {conn : ConnId} (hs : foreign conn s = true) {frame : Frame}
    (hframe : frame ∈ sectionFrames h s conn) :
    (Outgoing.hub frame).terminal = none ∧
      ∀ topic, (Outgoing.hub frame).publishes topic = true → conn ∈ subscriberIds h topic := by
  cases s with
  | subscribe id topic request =>
    simp only [sectionFrames] at hframe
    split_ifs at hframe with hid
    · have hack : request.ack = none := by simpa [foreign, hid] using hs
      simp [hack] at hframe
    · cases hframe
  | fanOut topic name params =>
    simp only [sectionFrames] at hframe
    split_ifs at hframe with hin
    · obtain ⟨state, _, rfl⟩ := Option.map_eq_some_iff.mp (Option.mem_toList.mp hframe)
      refine ⟨rfl, fun other hother => ?_⟩
      have hsame : topic = other := by simpa [Outgoing.publishes] using hother
      rw [← hsame]
      exact hin
    · cases hframe
  | kick topic user =>
    simp only [sectionFrames] at hframe
    split_ifs at hframe
    · rw [mem_singleton.mp hframe]
      exact ⟨rfl, fun _ h => (by cases h)⟩
    · cases hframe
  | walk topics =>
    obtain ⟨hterminal, hpublish⟩ := resetFrames_terminal h hframe
    refine ⟨hterminal, fun topic h => ?_⟩
    rw [hpublish topic] at h
    cases h
  | send id other =>
    simp only [sectionFrames] at hframe
    split_ifs at hframe with hid
    · simp [foreign, hid] at hs
    · cases hframe
  | _ => cases hframe

theorem overheard_push (frame : Outgoing) (hterminal : frame.terminal = none) :
    Overheard sys (push sys none frame).1 := by
  refine ⟨rfl, rfl, rfl, rfl, ?_⟩
  unfold push
  dsimp only
  split_ifs
  · refine ⟨[(none, frame)], rfl, fun entry hentry => ?_⟩
    rw [mem_singleton.mp hentry]
    exact ⟨rfl, hterminal⟩
  · exact ⟨[], (append_nil _).symm, nofun⟩

theorem overheard_outside (hs : foreign sys.session.conn s = true)
    (htaken : (offerAll sys.mailbox (sectionFrames sys.hub s sys.session.conn)).2 = true) :
    Overheard sys (perform sys none (PubsubHub.step sys.hub s)) := by
  refine ⟨rfl, rfl, rfl, rfl, _, rfl, fun entry hentry => ?_⟩
  rw [gained_section sys.hub s htaken] at hentry
  obtain ⟨frame, hframe, rfl⟩ := mem_map.mp hentry
  exact ⟨rfl, (foreign_frames sys.hub s hs hframe).1⟩

def Reached (h after : Hub) : Prop := ∃ sections, after = run PubsubHub.step h sections

theorem Reached.refl : Reached h h := ⟨[], rfl⟩

theorem Reached.single : Reached h (PubsubHub.step h s) := ⟨[s], rfl⟩

theorem Reached.quiet {h after : Hub} (hrun : QuietRun h after) : Reached h after := by
  obtain ⟨sections, _, heq⟩ := hrun
  exact ⟨sections, heq⟩

theorem Reached.advances {h after : Hub} (hreached : Reached h after) : Advances h after := by
  obtain ⟨sections, rfl⟩ := hreached
  exact run_relates PubsubHub.step Advances .refl (fun _ _ _ => .trans) step_advances h sections

theorem push_reached (source : Option ℕ) (frame : Outgoing) :
    Reached sys.hub (push sys source frame).1.hub :=
  .single sys.hub (.send sys.session.conn frame.wire)

theorem closed_reached (reason : CloseReason) : Reached sys.hub (closed sys reason).hub :=
  .quiet (closeSession_quietRun sys.hub sys.session.conn reason)

theorem pushNow_reached (source : Option ℕ) (frame : Outgoing) :
    Reached sys.hub (pushNow sys source frame).hub := by
  obtain ⟨sent, hsent⟩ := push_reached sys source frame
  unfold pushNow
  dsimp only
  split_ifs
  · obtain ⟨closing, hclosing⟩ := closed_reached (push sys source frame).1 .slowConsumer
    refine ⟨sent ++ closing, ?_⟩
    rw [run_append, ← hsent]
    exact hclosing
  · exact ⟨sent, hsent⟩

theorem pushAwait_reached (n : ℕ) (t : Thread R) (frame : Outgoing) (sent : System R → System R)
    (hsent : ∀ sys, (sent sys).hub = sys.hub) :
    Reached sys.hub (pushAwait sys n t frame sent).hub := by
  unfold pushAwait
  dsimp only
  split_ifs
  · rw [hsent]
    exact push_reached sys (some n) frame
  · exact .refl _
  · exact .refl _

end

end Stakit.SessionRequests
