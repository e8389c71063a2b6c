import Stakit.SessionRuns

set_option autoImplicit false

namespace Stakit.SessionRequests
open PubsubHub PubsubTopic RouterError TransitionRuns

/-- Where a call of the adapter stands: the atomic step it takes next. -/
inductive Visit (R : Type) where
  | bind (req : R) (identity : Identity)
  | announce (req : R) (superseded : Option ConnId) (slow : List ConnId)
      (deviceTopic : Option Topic)
  | storeReq (req : R)
  | storeAuthenticated
  | returned (outcome : Except Error Unit)
  deriving DecidableEq

inductive Attempt where
  | frame (n : ℕ)
  | visit (k : ℕ)
  deriving DecidableEq

structure Door (R : Type) where
  sys : System R
  visits : List (Visit R)
  wins : List Attempt

/-- `session` is any step of the session but the adapter's own. -/
inductive Move (R : Type) where
  | session (act : Act R)
  | call (req : R) (identity : Identity)
  | visit (k : ℕ)

section
variable {R : Type} (router : Router)

/-- The adapter's steps are those of its visits. -/
def ofAdapter (conn : ConnId) : Act R → Bool
  | .storeReq _ | .storeAuthenticated => true
  | .outside (.authenticate id _ _) => id = conn
  | _ => false

/-- The section of `Hub::authenticate` binds the identity. -/
def admitted (sys : System R) (identity : Identity) : Bool :=
  match identityTopics identity with
  | .error _ => false
  | .ok (userTopic, deviceTopic) =>
    (authenticateLocked sys.hub sys.session.conn identity router.maxConnectionsPerUser
      userTopic deviceTopic).2.2.2.isOk

def bindVisit (sys : System R) (req : R) (identity : Identity) : System R × Visit R :=
  match identityTopics identity with
  | .error error => (sys, .returned (.error error))
  | .ok (userTopic, deviceTopic) =>
    match authenticateLocked sys.hub sys.session.conn identity router.maxConnectionsPerUser
      userTopic deviceTopic with
    | (h, _, _, .error error) => (perform sys none h, .returned (.error error))
    | (h, superseded, slow, .ok ()) =>
      (perform sys none h, .announce req superseded slow deviceTopic)

/-- The next step of `Session::authenticate`. -/
def visitStep (sys : System R) : Visit R → System R × Visit R
  | .bind req identity => bindVisit router sys req identity
  | .announce req superseded slow deviceTopic =>
    let told := closeAll (signalSuperseded sys.hub superseded) slow .slowConsumer
    ({ sys with hub := broadcastClaim told deviceTopic }, .storeReq req)
  | .storeReq req =>
    ({ sys with session := { sys.session with req := req } }, .storeAuthenticated)
  | .storeAuthenticated =>
    ({ sys with session := { sys.session with authenticated := true } }, .returned (.ok ()))
  | .returned outcome => (sys, .returned outcome)

def winner (door : Door R) : Move R → List Attempt
  | .session (.act n _) =>
    match door.sys.threads[n]?.map Thread.point with
    | some (.bind _ identity) => if admitted router door.sys identity then [.frame n] else []
    | _ => []
  | .visit k =>
    match door.visits[k]? with
    | some (.bind _ identity) => if admitted router door.sys identity then [.visit k] else []
    | _ => []
  | _ => []

def enter (door : Door R) (move : Move R) : Door R :=
  let wins := door.wins ++ winner router door move
  match move with
  | .session act =>
    if ofAdapter door.sys.session.conn act then door
    else { door with sys := step router door.sys act, wins := wins }
  | .call req identity => { door with visits := door.visits ++ [.bind req identity] }
  | .visit k =>
    match door.visits[k]? with
    | none => door
    | some visit =>
      let next := visitStep router door.sys visit
      ⟨next.1, door.visits.set k next.2, wins⟩

def openDoor (h : Hub) (outgoingBuffer : ℕ) (req : R) : Door R :=
  ⟨opened router h outgoingBuffer req, [], []⟩

/-- The attempt failed and goes on to close the session. -/
def Point.closing : Point R → Bool
  | .reply _ (.close _) | .close _ => true
  | _ => false

/-- The frame is past its check and did not bind. -/
def Point.inFlight : Point R → Bool
  | .permit (.auth _) | .hook _ | .bind _ _ | .settle (.error _) => true
  | point => point.closing

/-- The identity is bound and `authenticated` is not stored yet. -/
def Point.binding : Point R → Bool
  | .announce _ _ _ _ | .storeReq _ | .storeAuthenticated => true
  | _ => false

def Point.bound : Point R → Bool
  | .settle (.ok _) => true
  | point => point.binding

def Visit.binding : Visit R → Bool
  | .announce _ _ _ _ | .storeReq _ | .storeAuthenticated => true
  | _ => false

def Visit.bound : Visit R → Bool
  | .returned (.ok _) => true
  | visit => visit.binding

/-- What a step of a thread says about authentication. -/
structure Turn (sys sys' : System R) (n : ℕ) (t : Thread R) (point : Point R) : Prop where
  threads : ∃ permit, sys'.threads = sys.threads.set n ⟨t.frame, permit, point⟩
  conn : sys'.session.conn = sys.session.conn
  claims : sys'.authenticating.toNat + t.point.claims.toNat =
    sys.authenticating.toNat + point.claims.toNat
  kept : sys.session.authenticated = true → sys'.session.authenticated = true
  bound : point.bound = true → t.point.bound = true ∨
    ∃ req identity, t.point = .bind req identity ∧ admitted router sys identity = true
  stored : t.point.binding = true → point.binding = true ∨ sys'.session.authenticated = true
  checked : point.inFlight = true → t.point.inFlight = true ∨
    t.point = .checkConflict true ∧ sys.session.authenticated = false

structure Beside (sys base : System R) : Prop where
  threads : base.threads = sys.threads
  session : base.session = sys.session
  authenticating : base.authenticating = sys.authenticating

theorem Beside.refl (sys : System R) : Beside sys sys := ⟨rfl, rfl, rfl⟩

theorem push_beside (sys : System R) (source : Option ℕ) (frame : Outgoing) :
    Beside sys (push sys source frame).1 := ⟨rfl, rfl, rfl⟩

theorem pushNow_beside (sys : System R) (source : Option ℕ) (frame : Outgoing) :
    Beside sys (pushNow sys source frame) := by
  unfold pushNow
  dsimp only
  split_ifs
  · exact ⟨rfl, rfl, rfl⟩
  · exact push_beside sys source frame

section
variable (sys base : System R) (n : ℕ) (t : Thread R)

theorem turn_goTo (beside : Beside sys base) (point : Point R)
    (hclaims : point.claims = t.point.claims) (hbound : point.bound = false)
    (hbinding : t.point.binding = false)
    (hchecked : point.inFlight = true → t.point.inFlight = true) :
    Turn router sys (goTo base n t point) n t point where
  threads := ⟨t.permit, by rw [← beside.threads]; rfl⟩
  conn := congrArg Session.conn beside.session
  claims := by
    change base.authenticating.toNat + _ = _
    rw [beside.authenticating, hclaims]
  kept := fun h => (congrArg Session.authenticated beside.session).trans h
  bound := fun h => absurd (hbound.symm.trans h) Bool.false_ne_true
  stored := fun h => absurd (hbinding.symm.trans h) Bool.false_ne_true
  checked := fun h => .inl (hchecked h)

theorem turn_finish (beside : Beside sys base) (hclaims : t.point.claims = false)
    (hbinding : t.point.binding = false) : Turn router sys (finish base n t) n t .done where
  threads := ⟨false, by rw [← beside.threads]; rfl⟩
  conn := congrArg Session.conn beside.session
  claims := by
    change base.authenticating.toNat + _ = _
    rw [beside.authenticating, hclaims]
    rfl
  kept := fun h => (congrArg Session.authenticated beside.session).trans h
  bound := nofun
  stored := fun h => absurd (hbinding.symm.trans h) Bool.false_ne_true
  checked := nofun

theorem turn_stay (hget : sys.threads[n]? = some t) : Turn router sys sys n t t.point where
  threads := by
    obtain ⟨hlt, heq⟩ := List.getElem?_eq_some_iff.mp hget
    refine ⟨t.permit, ?_⟩
    rw [show (⟨t.frame, t.permit, t.point⟩ : Thread R) = sys.threads[n] from heq.symm,
      List.set_getElem_self]
  conn := rfl
  claims := rfl
  kept := fun h => h
  bound := fun h => .inl h
  stored := fun h => .inl h
  checked := fun h => .inl h

theorem turn_pushAwait (frame : Outgoing) (point : Point R) (hget : sys.threads[n]? = some t)
    (hclaims : t.point.claims = false) (hbinding : t.point.binding = false)
    (sent : System R → System R)
    (hsent : ∀ base, Beside sys base → Turn router sys (sent base) n t point) :
    ∃ point, Turn router sys (pushAwait sys n t frame sent) n t point := by
  unfold pushAwait
  dsimp only
  split_ifs
  · exact ⟨point, hsent _ (push_beside sys (some n) frame)⟩
  · exact ⟨t.point, turn_stay router sys n t hget⟩
  · exact ⟨.done, turn_finish router sys sys n t (.refl sys) hclaims hbinding⟩

theorem route_apart {point : Point R} (h : route router t = some point) :
    point.claims = false ∧ point.bound = false ∧ point.inFlight = false := by
  rw [route] at h
  split at h
  · cases h
  · split_ifs at h <;> (cases h; exact ⟨rfl, rfl, rfl⟩)
  · cases h
    exact ⟨rfl, rfl, rfl⟩

theorem workOf_apart (request : Request) :
    (workOf router t request).claims = false ∧ (workOf router t request).bound = false ∧
      (workOf router t request).inFlight = false := by
  cases request with
  | subscribe =>
    dsimp only [workOf]
    split_ifs <;> exact ⟨rfl, rfl, rfl⟩
  | auth | call | unsubscribe => exact ⟨rfl, rfl, rfl⟩

def Point.aside (point : Point R) : Prop := point.claims = false ∧ point.binding = false

theorem turn_aside (beside : Beside sys base) (point : Point R) (haside : t.point.aside)
    (h : point.claims = false ∧ point.bound = false ∧ point.inFlight = false) :
    Turn router sys (goTo base n t point) n t point :=
  turn_goTo router sys base n t beside point (h.1.trans haside.1.symm) h.2.1 haside.2
    fun hflight => absurd (h.2.2.symm.trans hflight) Bool.false_ne_true

theorem turn_touch (awaited : Awaited R) (haside : t.point.aside)
    (hget : sys.threads[n]? = some t) :
    ∃ point, Turn router sys (touchStep router sys n t awaited) n t point := by
  cases awaited with
  | touched within =>
    cases within with
    | true =>
      dsimp only [touchStep]
      cases hroute : route router t with
      | none => exact ⟨.done, turn_finish router sys sys n t (.refl sys) haside.1 haside.2⟩
      | some point =>
        exact ⟨point, turn_aside router sys sys n t (.refl sys) point haside
          (route_apart router t hroute)⟩
    | false =>
      exact ⟨.done, turn_finish router sys _ n t ⟨rfl, rfl, rfl⟩ haside.1 haside.2⟩
  | _ => exact ⟨t.point, turn_stay router sys n t hget⟩

theorem turn_claim (hpoint : t.point = .claim) :
    ∃ point, Turn router sys (claimStep sys n t) n t point := by
  unfold claimStep
  cases hheld : sys.authenticating with
  | true =>
    rw [if_pos rfl]
    exact ⟨_, turn_aside router sys sys n t (.refl sys) (.checkConflict false)
      (hpoint ▸ ⟨rfl, rfl⟩) ⟨rfl, rfl, rfl⟩⟩
  | false =>
    rw [if_neg Bool.false_ne_true]
    refine ⟨.checkConflict true, ⟨t.permit, rfl⟩, rfl, ?_, fun h => h, nofun, fun h => ?_, nofun⟩
    · rw [hpoint, hheld]
      rfl
    · rw [hpoint] at h
      cases h

theorem turn_checkConflict {claimed : Bool} (hpoint : t.point = .checkConflict claimed) :
    ∃ point, Turn router sys (checkConflictStep sys n t claimed) n t point := by
  have hbinding : t.point.binding = false := by rw [hpoint]; rfl
  unfold checkConflictStep
  cases claimed with
  | false =>
    rw [Bool.not_false, Bool.or_true, if_pos rfl, if_neg Bool.false_ne_true]
    exact ⟨_, turn_aside router sys sys n t (.refl sys) _ (hpoint ▸ ⟨rfl, rfl⟩) ⟨rfl, rfl, rfl⟩⟩
  | true =>
    cases hstored : sys.session.authenticated with
    | true =>
      rw [Bool.true_or, if_pos rfl, if_pos rfl]
      exact ⟨_, turn_goTo router sys sys n t (.refl sys) .releaseConflict (by rw [hpoint]; rfl) rfl
        hbinding nofun⟩
    | false =>
      rw [Bool.not_true, Bool.or_false, if_neg Bool.false_ne_true]
      refine ⟨_, ⟨t.permit, rfl⟩, rfl, ?_, fun h => h, nofun,
        fun h => ?_, fun _ => .inr ⟨hpoint, hstored⟩⟩
      · rw [hpoint]
        rfl
      · rw [hbinding] at h
        cases h

theorem turn_release (held : sys.authenticating = true) (point : Point R)
    (hthis : t.point.claims = true) (hnext : point.claims = false)
    (hbound : point.bound = true → t.point.bound = true)
    (hstored : t.point.binding = false) (hchecked : point.inFlight = true → t.point.inFlight = true) :
    Turn router sys (goTo { sys with authenticating := false } n t point) n t point where
  threads := ⟨t.permit, rfl⟩
  conn := rfl
  claims := by
    rw [held, hthis, hnext]
    rfl
  kept := fun h => h
  bound := fun h => .inl (hbound h)
  stored := fun h => absurd (hstored.symm.trans h) Bool.false_ne_true
  checked := fun h => .inl (hchecked h)

theorem turn_permit {work : Work} (hpoint : t.point = .permit work) :
    ∃ point, Turn router sys (permitStep sys n t work) n t point := by
  have hbinding : t.point.binding = false := by rw [hpoint]; rfl
  unfold permitStep
  split_ifs
  · refine ⟨_, turn_goTo router sys sys n t (.refl sys) _ ?_ rfl hbinding ?_⟩
    · rw [hpoint]
      cases work <;> rfl
    · intro h
      cases work <;> cases h
  · refine ⟨startOf work, ⟨true, rfl⟩, rfl, ?_, fun h => h, fun h => ?_, fun h => ?_, fun h => ?_⟩
    · rw [hpoint]
      cases work <;> rfl
    · cases work <;> cases h
    · rw [hbinding] at h
      cases h
    · rw [hpoint]
      cases work <;> first | exact .inl rfl | cases h

theorem turn_reply {result : Except Error Data} {after : After}
    (hpoint : t.point = .reply result after) :
    ∃ point, Turn router sys (replyStep router sys n t result after) n t point := by
  have hbinding : t.point.binding = false := by rw [hpoint]; rfl
  have beside := pushNow_beside sys (some n) (resultFrame t.id (mapError router result))
  cases after with
  | nothing => exact ⟨.done, turn_finish router sys _ n t beside (by rw [hpoint]; rfl) hbinding⟩
  | unclaim =>
    exact ⟨.unclaim, turn_goTo router sys _ n t beside .unclaim (by rw [hpoint]; rfl) rfl hbinding
      nofun⟩
  | close reason =>
    refine ⟨.close reason, turn_goTo router sys _ n t beside (.close reason) (by rw [hpoint]; rfl)
      rfl hbinding fun _ => ?_⟩
    rw [hpoint]
    rfl

theorem turn_bind {req : R} {identity : Identity} (hpoint : t.point = .bind req identity) :
    ∃ point, Turn router sys (bindStep router sys n t req identity) n t point := by
  have hbinding : t.point.binding = false := by rw [hpoint]; rfl
  have hflight : t.point.inFlight = true := by rw [hpoint]; rfl
  have hclaims : t.point.claims = true := by rw [hpoint]; rfl
  have hrefused : ∀ (base : System R) (error : Error), Beside sys base →
      Turn router sys (goTo base n t (.settle (.error error))) n t (.settle (.error error)) :=
    fun base error beside => turn_goTo router sys base n t beside _ hclaims.symm rfl hbinding
      fun _ => hflight
  unfold bindStep
  cases htopics : identityTopics identity with
  | error error => exact ⟨_, hrefused sys error (.refl sys)⟩
  | ok topics =>
    obtain ⟨userTopic, deviceTopic⟩ := topics
    dsimp only
    rcases hlocked : authenticateLocked sys.hub sys.session.conn identity
      router.maxConnectionsPerUser userTopic deviceTopic with ⟨h, superseded, slow, error | bound⟩
    · exact ⟨_, hrefused _ error ⟨rfl, rfl, rfl⟩⟩
    · refine ⟨.announce req superseded slow deviceTopic, ⟨t.permit, rfl⟩, rfl, ?_, fun h => h,
        fun _ => .inr ⟨req, identity, hpoint, ?_⟩, fun h => ?_, nofun⟩
      · rw [hclaims]
        rfl
      · simp only [admitted, htopics, hlocked]
        rfl
      · rw [hbinding] at h
        cases h

/-- On the way from the hub's section to the stored flag. -/
theorem turn_binding {point : Point R} (hsession : base.session.conn = sys.session.conn)
    (hauth : base.session.authenticated = sys.session.authenticated)
    (hthreads : base.threads = sys.threads) (hheld : base.authenticating = sys.authenticating)
    (hthis : t.point.binding = true) (hclaims : t.point.claims = true)
    (hnext : point.claims = true ∧ point.binding = true ∧ point.inFlight = false) :
    Turn router sys (goTo base n t point) n t point where
  threads := ⟨t.permit, by rw [← hthreads]; rfl⟩
  conn := hsession
  claims := by
    change base.authenticating.toNat + _ = _
    rw [hheld, hclaims, hnext.1]
  kept := fun h => hauth.trans h
  bound := fun _ => .inl (by
    cases hp : t.point <;> rw [hp] at hthis <;> first | rfl | cases hthis)
  stored := fun _ => .inl hnext.2.1
  checked := fun h => absurd (hnext.2.2.symm.trans h) Bool.false_ne_true

theorem turn_settle {outcome : Except Error Unit} (hpoint : t.point = .settle outcome)
    (held : sys.authenticating = true) :
    ∃ point, Turn router sys (settleStep sys n t outcome) n t point := by
  have hbinding : t.point.binding = false := by rw [hpoint]; rfl
  have hclaims : t.point.claims = true := by rw [hpoint]; rfl
  cases outcome with
  | ok done =>
    exact ⟨_, turn_release router sys n t held _ hclaims rfl nofun hbinding nofun⟩
  | error error =>
    refine ⟨_, turn_release router sys n t held _ hclaims rfl nofun hbinding fun _ => ?_⟩
    rw [hpoint]
    rfl

theorem advance_turn (awaited : Awaited R) (hget : sys.threads[n]? = some t)
    (held : t.point.claims = true → sys.authenticating = true) :
    ∃ point, Turn router sys (advance router sys n t awaited) n t point := by
  have hstay := turn_stay router sys n t hget
  have hfinish := turn_finish router sys sys n t (.refl sys)
  have haside := turn_aside router sys sys n t (.refl sys)
  unfold advance
  cases hpoint : t.point with
  | checkClosed =>
    have hthis : t.point.aside := by rw [hpoint]; exact ⟨rfl, rfl⟩
    dsimp only [checkClosedStep]
    split_ifs
    · exact ⟨_, hfinish hthis.1 hthis.2⟩
    · exact ⟨_, haside .touch hthis ⟨rfl, rfl, rfl⟩⟩
  | touch => exact turn_touch router sys n t awaited (by rw [hpoint]; exact ⟨rfl, rfl⟩) hget
  | checkAuthenticated request =>
    have hthis : t.point.aside := by rw [hpoint]; exact ⟨rfl, rfl⟩
    dsimp only [checkAuthenticatedStep]
    split_ifs
    · exact ⟨_, haside _ hthis (workOf_apart router t request)⟩
    · exact ⟨_, haside _ hthis ⟨rfl, rfl, rfl⟩⟩
  | claim => exact turn_claim router sys n t hpoint
  | checkConflict claimed => exact turn_checkConflict router sys n t hpoint
  | releaseConflict =>
    exact ⟨_, turn_release router sys n t (held (by rw [hpoint]; rfl)) _ (by rw [hpoint]; rfl) rfl
      nofun (by rw [hpoint]; rfl) nofun⟩
  | permit work => exact turn_permit router sys n t hpoint
  | leave topic =>
    dsimp only [leaveStep]
    refine ⟨_, turn_aside router sys _ n t ?_ _ (by rw [hpoint]; exact ⟨rfl, rfl⟩) ?_⟩ <;>
      exact ⟨rfl, rfl, rfl⟩
  | reply result after => exact turn_reply router sys n t hpoint
  | unclaim =>
    refine ⟨.done, ⟨false, rfl⟩, rfl, ?_, fun h => h, nofun, fun h => ?_, nofun⟩
    · rw [hpoint, held (by rw [hpoint]; rfl)]
      rfl
    · rw [hpoint] at h
      cases h
  | close reason =>
    exact ⟨_, turn_finish router sys _ n t ⟨rfl, rfl, rfl⟩ (by rw [hpoint]; rfl)
      (by rw [hpoint]; rfl)⟩
  | dispatch name params =>
    have hthis : t.point.aside := by rw [hpoint]; exact ⟨rfl, rfl⟩
    cases awaited with
    | dispatched result =>
      dsimp only [dispatchStep]
      split_ifs
      · exact ⟨_, haside _ hthis ⟨rfl, rfl, rfl⟩⟩
      · exact ⟨_, hstay⟩
    | nothing =>
      dsimp only [dispatchStep]
      split_ifs
      · exact ⟨_, hstay⟩
      · exact ⟨_, haside _ hthis ⟨rfl, rfl, rfl⟩⟩
      · exact ⟨_, haside _ hthis ⟨rfl, rfl, rfl⟩⟩
    | _ => exact ⟨_, hstay⟩
  | respond answer =>
    have hthis : t.point.aside := by rw [hpoint]; exact ⟨rfl, rfl⟩
    exact turn_pushAwait router sys n t _ .done hget hthis.1 hthis.2 _ fun base beside =>
      turn_finish router sys base n t beside hthis.1 hthis.2
  | next =>
    have hthis : t.point.aside := by rw [hpoint]; exact ⟨rfl, rfl⟩
    cases awaited with
    | item next =>
      rcases next with _ | error | data <;> exact ⟨_, haside _ hthis ⟨rfl, rfl, rfl⟩⟩
    | _ => exact ⟨_, hstay⟩
  | sendItem data =>
    have hthis : t.point.aside := by rw [hpoint]; exact ⟨rfl, rfl⟩
    exact turn_pushAwait router sys n t _ .next hget hthis.1 hthis.2 _ fun base beside =>
      turn_aside router sys base n t beside .next hthis ⟨rfl, rfl, rfl⟩
  | hook params =>
    have hgo : ∀ point : Point R, point.claims = true → point.bound = false →
        Turn router sys (goTo sys n t point) n t point := fun point hclaims hbound =>
      turn_goTo router sys sys n t (.refl sys) point (by rw [hpoint, hclaims]; rfl) hbound
        (by rw [hpoint]; rfl) fun _ => by rw [hpoint]; rfl
    cases awaited with
    | hooked result =>
      rcases result with error | ⟨req, identity⟩
      · exact ⟨_, hgo (.settle (.error error)) rfl rfl⟩
      · exact ⟨_, hgo (.bind req identity) rfl rfl⟩
    | _ => exact ⟨_, hstay⟩
  | bind req identity => exact turn_bind router sys n t hpoint
  | announce req superseded slow deviceTopic =>
    exact ⟨_, turn_binding router sys _ n t rfl rfl rfl rfl (by rw [hpoint]; rfl)
      (by rw [hpoint]; rfl) ⟨rfl, rfl, rfl⟩⟩
  | storeReq req =>
    exact ⟨_, turn_binding router sys _ n t rfl rfl rfl rfl
      (by rw [hpoint]; rfl) (by rw [hpoint]; rfl) ⟨rfl, rfl, rfl⟩⟩
  | storeAuthenticated =>
    refine ⟨.settle (.ok ()), ⟨t.permit, rfl⟩, rfl, ?_, fun _ => rfl, fun _ => ?_, fun _ => .inr rfl,
      nofun⟩
    · rw [hpoint]
      rfl
    · rw [hpoint]
      exact .inl rfl
  | settle outcome =>
    exact turn_settle router sys n t hpoint (held (by rw [hpoint]; rfl))
  | resolve attempts channel key =>
    have hthis : t.point.aside := by rw [hpoint]; exact ⟨rfl, rfl⟩
    cases awaited with
    | topicOf result => cases result <;> exact ⟨_, haside _ hthis ⟨rfl, rfl, rfl⟩⟩
    | _ => exact ⟨_, hstay⟩
  | authorize attempts channel key topic mark =>
    have hthis : t.point.aside := by rw [hpoint]; exact ⟨rfl, rfl⟩
    cases awaited with
    | authorized result =>
      rcases result with error | allowed
      · exact ⟨_, haside _ hthis ⟨rfl, rfl, rfl⟩⟩
      · cases allowed <;> exact ⟨_, haside _ hthis ⟨rfl, rfl, rfl⟩⟩
    | _ => exact ⟨_, hstay⟩
  | subscribe attempts channel key topic mark =>
    dsimp only [subscribeStep]
    refine ⟨_, turn_aside router sys _ n t ?_ _ (by rw [hpoint]; exact ⟨rfl, rfl⟩) ?_⟩ <;>
      exact ⟨rfl, rfl, rfl⟩
  | closeSlow attempts channel key slow outcome =>
    have hthis : t.point.aside := by rw [hpoint]; exact ⟨rfl, rfl⟩
    cases outcome with
    | ok position => exact ⟨_, turn_finish router sys _ n t ⟨rfl, rfl, rfl⟩ hthis.1 hthis.2⟩
    | error error =>
      dsimp only [closeSlowStep]
      split_ifs <;> refine ⟨_, turn_aside router sys _ n t ?_ _ hthis ?_⟩ <;> exact ⟨rfl, rfl, rfl⟩
  | done => exact ⟨_, hstay⟩

end

end

end Stakit.SessionRequests
