import Stakit.ErrorCodes
import Stakit.SessionRuns

set_option autoImplicit false

namespace Stakit.ErrorCodes
open SerdeJson EntryMaps MergedStreams TransitionRuns List
open RouterRequests (Serde errorValue dispatchOne dispatchOneBorrowed notFound)
open RouterTransports (errorToValue toMap)
open SessionRequests PubsubHub PubsubTopic
open PubsubNode (subscribeAttempts)

theorem offerAll_queue (peer : Peer) (frames : List Frame) :
    ∃ taken, (offerAll peer frames).1.queue = peer.queue ++ taken ∧ ∀ frame ∈ taken, frame ∈ frames := by
  induction frames generalizing peer with
  | nil => exact ⟨[], (append_nil _).symm, forall_mem_nil _⟩
  | cons frame frames ih =>
    obtain ⟨taken, hqueue, htaken⟩ := ih (offer peer frame).1
    have hrest : ∀ other ∈ taken, other ∈ frame :: frames := fun other hother =>
      mem_cons_of_mem _ (htaken other hother)
    change ∃ taken, (offerAll (offer peer frame).1 frames).1.queue = _ ∧ _
    rw [hqueue]
    unfold offer
    split_ifs
    · refine ⟨frame :: taken, append_assoc _ _ _, ?_⟩
      exact forall_mem_cons.mpr ⟨mem_cons_self, hrest⟩
    · exact ⟨taken, rfl, hrest⟩

theorem mem_gained (h : Hub) (s : Section) (conn : ConnId) (frame : Frame)
    (hframe : frame ∈ gained h (PubsubHub.step h s) conn) : frame ∈ sectionFrames h s conn := by
  unfold gained at hframe
  by_cases hs : Offers s
  · have hmailbox := congrArg Mailbox.queue (step_mailbox h hs conn)
    obtain ⟨taken, hqueue, htaken⟩ := offerAll_queue (h.peers conn) (sectionFrames h s conn)
    change ((PubsubHub.step h s).peers conn).queue = (offerAll _ _).1.queue at hmailbox
    rw [hmailbox, hqueue, drop_left] at hframe
    exact htaken frame hframe
  · rw [drop_eq_nil_of_le (queue_le_of_quiet h s conn hs)] at hframe
    cases hframe

section
variable {F : Type}

theorem drained (merge : Merge F) (i : ℕ) (hup : merge.down = false) (frame : F)
    (hframe : frame ∈ (merge.subs i).frames) :
    ∃ schedule, (i, frame) ∈ (run poll merge schedule).yielded := by
  generalize hframes : (merge.subs i).frames = frames at hframe
  induction frames generalizing merge with
  | nil => cases hframe
  | cons first rest ih =>
    have hpoll : poll merge i = ⟨merge.yielded ++ [(i, first)],
        Function.update merge.subs i ⟨rest, (merge.subs i).escapes⟩, false⟩ := by
      unfold poll
      rw [hup, hframes]
      rfl
    rcases mem_cons.mp hframe with rfl | hframe
    · refine ⟨[i], ?_⟩
      rw [run_cons, hpoll]
      exact mem_append_right _ mem_cons_self
    · have hrest : ((poll merge i).subs i).frames = rest := by
        rw [hpoll]
        dsimp only
        rw [Function.update_self]
      obtain ⟨schedule, hin⟩ := ih (poll merge i) (by rw [hpoll]) hrest hframe
      exact ⟨i :: schedule, hin⟩

theorem yielded_from {subs : ℕ → Substream F} {schedule : List ℕ} {entry : ℕ × F}
    (h : entry ∈ (run poll (start subs) schedule).yielded) : entry.2 ∈ (subs entry.1).frames := by
  rw [← (run_accounted subs schedule).frames entry.1]
  refine mem_append_left _ (mem_map.mpr ⟨entry, ?_, rfl⟩)
  exact mem_filter.mpr ⟨h, by simp⟩

end

theorem pushFields_error {fields : List (String × PubsubTopic.Value)} {error : RouterError.Error}
    (h : pushFields fields = .error error) : error.kind = "bad_request" := by
  induction fields with
  | nil => cases h
  | cons field fields ih =>
    unfold pushFields at h
    cases hscalar : pushScalar field.2 with
    | error found =>
      rw [hscalar] at h
      cases h
      cases hvalue : field.2 <;> rw [hvalue] at hscalar <;> cases hscalar <;> rfl
    | ok scalar =>
      rw [hscalar] at h
      cases hrest : pushFields fields with
      | error found =>
        rw [hrest] at h
        cases h
        exact ih hrest
      | ok tail =>
        rw [hrest] at h
        cases h

theorem topicOf_error {name : String} {fields : List (String × PubsubTopic.Value)}
    {error : RouterError.Error} (h : topicOf name (.object fields) = .error error) :
    error.kind = "bad_request" := by
  unfold topicOf at h
  cases hkey : pushKey (.object fields) with
  | error found =>
    rw [hkey] at h
    cases h
    exact pushFields_error hkey
  | ok text =>
    rw [hkey] at h
    dsimp only at h
    split_ifs at h
    cases h
    rfl

theorem identityTopics_error {identity : Identity} {error : RouterError.Error}
    (h : identityTopics identity = .error error) : error.kind = "bad_request" := by
  unfold identityTopics at h
  split at h
  · cases h
  · cases h
    rfl
  · split at h
    next found hfound =>
      cases h
      exact topicOf_error hfound
    next => cases h
  · split at h
    next found hfound =>
      cases h
      exact topicOf_error hfound
    next _ found _ hfound =>
      cases h
      exact topicOf_error hfound
    next => cases h

section
variable (codes : List String)

/-- The section of `Hub::authenticate` binds the identity, or refuses with a code of the union. -/
def PlainBind (h : Hub) (conn : ConnId) (identity : Identity) (maxPerUser : ℕ) : Prop :=
  match h.byId.lookup conn with
  | none => Narrows codes "gone"
  | some found =>
    if found.authenticated then Narrows codes "conflict"
    else if atCap h identity.user maxPerUser then Narrows codes "too_many_connections"
    else if heldByAnother h (deviceHolder h conn identity.device) identity.user then
      Narrows codes "device_conflict"
    else True

/-- The section of `Hub::subscribe` subscribes, is tried again, or refuses with a code of
the union. -/
def PlainSubscribe (h : Hub) (conn : ConnId) (topic : Topic) (mark max attempts : ℕ) : Prop :=
  match h.byId.lookup conn with
  | none => Narrows codes "gone"
  | some found =>
    if mark ≠ revocationMark h topic then
      attempts < subscribeAttempts ∨ Narrows codes "subscription_revoked"
    else if (found.topics.lookup topic).isSome = false ∧ max ≤ found.explicit then
      Narrows codes "too_many_subscriptions"
    else True

theorem bind_error {h : Hub} {conn : ConnId} {identity : Identity} {maxPerUser : ℕ}
    (userTopic deviceTopic : Option Topic) (hplain : PlainBind codes h conn identity maxPerUser)
    (error : RouterError.Error)
    (herror : (authenticateLocked h conn identity maxPerUser userTopic deviceTopic).2.2.2 =
      .error error) : Narrows codes error.kind := by
  unfold PlainBind at hplain
  unfold authenticateLocked at herror
  cases hconn : h.byId.lookup conn with
  | none =>
    rw [hconn] at herror hplain
    cases herror
    exact hplain
  | some found =>
    simp only [hconn] at herror hplain
    split_ifs at herror hplain
    · cases herror
      exact hplain
    · cases herror
      exact hplain
    · cases herror
      exact hplain
    · have hlook := (detachHolder_lookup h conn identity.device).trans hconn
      dsimp only at herror
      rw [bindIdentity_of_lookup _ conn _ _ _ hlook] at herror
      cases herror

theorem subscribe_error {h : Hub} {conn : ConnId} {topic : Topic} {mark max attempts : ℕ}
    {ack : Cursor → Frame} (hplain : PlainSubscribe codes h conn topic mark max attempts)
    {error : RouterError.Error}
    (herror : (subscribeLocked h conn topic ⟨true, max, some mark, some ack⟩).2.2 = .error error) :
    (error.kind = "subscription_revoked" ∧ attempts < subscribeAttempts) ∨
      Narrows codes error.kind := by
  unfold PlainSubscribe at hplain
  unfold subscribeLocked at herror
  cases hconn : h.byId.lookup conn with
  | none =>
    rw [hconn] at herror hplain
    cases herror
    exact .inr hplain
  | some found =>
    simp only [hconn, Option.any_some, Bool.and_true] at herror hplain
    by_cases hmark : mark ≠ revocationMark h topic
    · rw [if_pos hmark] at hplain
      rw [if_pos (decide_eq_true hmark)] at herror
      cases herror
      exact hplain.imp_left fun hleft => ⟨rfl, hleft⟩
    rw [if_neg hmark] at hplain
    rw [if_neg (by simpa using hmark)] at herror
    by_cases hfull : (found.topics.lookup topic).isSome = false ∧ max ≤ found.explicit
    · rw [if_pos hfull] at hplain
      rw [if_pos (by simpa using hfull)] at herror
      cases herror
      exact .inr hplain
    · rw [if_neg (by simpa using hfull)] at herror
      obtain ⟨state, hstate, _⟩ := ensureTopic_lookup h topic
      rw [hstate] at herror
      cases herror

variable {serde : Serde} {R K : Type} (router : RouterGuards.Router serde R K)

/-- A session's view of a router without an `on_error` hook. -/
def sessionRouter (settings : Router) : Router :=
  { settings with
    actions := fun name => (router.actions name).isSome
    streams := fun name => (router.streams name).isSome
    onError := id }

/-- The next step of a thread takes no branch that answers with an error a client cannot
narrow on. An action or a stream comes back with what its own pipeline gives. -/
def PlainPoint (settings : Router) (sys : System R) (t : Thread R) (awaited : Awaited R) : Prop :=
  match t.point, awaited with
  | .checkAuthenticated _, _ => sys.session.authenticated = true ∨ Narrows codes "unauthorized"
  | .checkConflict claimed, _ =>
    (sys.session.authenticated = false ∧ claimed = true) ∨ Narrows codes "conflict"
  | .permit _, _ => sys.free ≠ 0
  | .dispatch name _, .dispatched (.error error) =>
    ∃ action cx params found, router.actions name = some action ∧
      action.dispatch cx params = .error found ∧ found.toError = error ∧
      Plain codes action cx params
  | .next, .item (some (.error error)) =>
    ∃ name stream cx params found, router.streams name = some stream ∧
      EndsWith (stream.dispatch cx params).items found ∧ found.toError = error ∧
      PlainStream codes stream cx params
  | .hook _, .hooked (.error error) => Narrows codes error.kind
  | .bind _ identity, _ =>
    PlainBind codes sys.hub sys.session.conn identity settings.maxConnectionsPerUser
  | .resolve _ _ _, .topicOf (.error error) => Narrows codes error.kind
  | .authorize _ _ _ _ _, .authorized (.ok false) => Narrows codes "forbidden"
  | .authorize _ _ _ _ _, .authorized (.error error) => Narrows codes error.kind
  | .subscribe attempts _ _ topic mark, _ =>
    PlainSubscribe codes sys.hub sys.session.conn topic mark settings.maxSubscriptions attempts
  | _, _ => True

def PlainStep (settings : Router) (sys : System R) : Act R → Prop
  | .act n awaited => ∀ t, sys.threads[n]? = some t → PlainPoint codes router settings sys t awaited
  | .outside s => foreign sys.session.conn s = true
  | _ => True

def Logged (log : List (Option ℕ × Outgoing)) : Prop :=
  ∀ entry ∈ log, ∀ id error, entry.2 = .hub (.failure id error) → Narrows codes error.kind

/-- The errors a thread is about to answer with. -/
def Holds : Point R → Prop
  | .reply (.error error) _ => Narrows codes error.kind
  | .releaseConflict => Narrows codes "conflict"
  | .respond (some (.error error)) => Narrows codes error.kind
  | .settle (.error error) => Narrows codes error.kind
  | .closeSlow attempts _ _ _ (.error error) =>
    (error.kind = "subscription_revoked" ∧ attempts < subscribeAttempts) ∨ Narrows codes error.kind
  | _ => True

structure Narrowed (sys : System R) : Prop where
  log : Logged codes sys.queued
  threads : ∀ t ∈ sys.threads, Holds codes t.point

section
variable {codes} {sys base : System R} {n : ℕ} {t : Thread R}

theorem Narrowed.goTo {point : Point R} (h : Narrowed codes base) (hpoint : Holds codes point) :
    Narrowed codes (SessionRequests.goTo base n t point) := by
  refine ⟨h.log, fun other hother => ?_⟩
  rcases mem_or_eq_of_mem_set hother with hin | rfl
  · exact h.threads other hin
  · exact hpoint

theorem Narrowed.finish (h : Narrowed codes base) :
    Narrowed codes (SessionRequests.finish base n t) := by
  refine ⟨h.log, fun other hother => ?_⟩
  rcases mem_or_eq_of_mem_set hother with hin | rfl
  · exact h.threads other hin
  · exact trivial

theorem Logged.snoc {log : List (Option ℕ × Outgoing)} (hlog : Logged codes log)
    (source : Option ℕ) (frame : Outgoing)
    (hframe : ∀ id error, frame = .hub (.failure id error) → Narrows codes error.kind) :
    Logged codes (log ++ [(source, frame)]) := by
  intro entry hentry
  rcases mem_append.mp hentry with hin | hin
  · exact hlog entry hin
  · rw [mem_singleton.mp hin]
    exact hframe

theorem Logged.push (hlog : Logged codes sys.queued) (source : Option ℕ) (frame : Outgoing)
    (hframe : ∀ id error, frame = .hub (.failure id error) → Narrows codes error.kind) :
    Logged codes (SessionRequests.push sys source frame).1.queued := by
  unfold SessionRequests.push
  dsimp only
  split_ifs
  · exact hlog.snoc source frame hframe
  · exact hlog

theorem Logged.pushNow (hlog : Logged codes sys.queued) (source : Option ℕ) (frame : Outgoing)
    (hframe : ∀ id error, frame = .hub (.failure id error) → Narrows codes error.kind) :
    Logged codes (SessionRequests.pushNow sys source frame).queued := by
  unfold SessionRequests.pushNow
  dsimp only
  split_ifs
  · exact hlog.push source frame hframe
  · exact hlog.push source frame hframe

theorem Logged.perform (hlog : Logged codes sys.queued) (source : Option ℕ) (after : Hub)
    (hgained : ∀ frame ∈ gained sys.hub after sys.session.conn,
      (Outgoing.hub frame).terminal = none ∨ ∃ id data, frame = .result id data) :
    Logged codes (SessionRequests.perform sys source after).queued := by
  intro entry hentry
  rcases mem_append.mp hentry with hin | hin
  · exact hlog entry hin
  · obtain ⟨frame, hframe, rfl⟩ := mem_map.mp hin
    intro id error heq
    cases heq
    rcases hgained _ hframe with hterminal | ⟨_, _, hresult⟩
    · cases hterminal
    · cases hresult

theorem pushNow_threads (source : Option ℕ) (frame : Outgoing) :
    (SessionRequests.pushNow sys source frame).threads = sys.threads := by
  unfold SessionRequests.pushNow
  dsimp only
  split_ifs <;> rfl

theorem Narrowed.pushAwait (h : Narrowed codes sys) (frame : Outgoing)
    (sent : System R → System R)
    (hframe : ∀ id error, frame = .hub (.failure id error) → Narrows codes error.kind)
    (hsent : ∀ base : System R, Logged codes base.queued → base.threads = sys.threads →
      Narrowed codes (sent base)) :
    Narrowed codes (SessionRequests.pushAwait sys n t frame sent) := by
  unfold SessionRequests.pushAwait
  dsimp only
  split_ifs
  · exact hsent _ (h.log.push (some n) frame hframe) rfl
  · exact h
  · exact .finish ⟨h.log, h.threads⟩

theorem result_narrows (id : ℕ) {result : Except RouterError.Error Data}
    (hresult : ∀ error, result = .error error → Narrows codes error.kind) (other : ℕ)
    (error : RouterError.Error)
    (hframe : resultFrame id result = .hub (.failure other error)) : Narrows codes error.kind := by
  cases result with
  | ok data => cases hframe
  | error found =>
    cases hframe
    exact hresult error rfl

section
variable {letters : Letters} {signatures : Signatures} {router : RouterGuards.Router serde R K}
variable (settings : Router)

theorem touch_narrowed (h : Narrowed (errorUnion letters signatures) sys) (awaited : Awaited R) :
    Narrowed (errorUnion letters signatures)
      (touchStep (sessionRouter router settings) sys n t awaited) := by
  cases awaited with
  | touched within =>
    cases within with
    | false => exact .finish ⟨h.log, h.threads⟩
    | true =>
      dsimp only [touchStep]
      cases hroute : route (sessionRouter router settings) t with
      | none => exact .finish ⟨h.log, h.threads⟩
      | some point =>
        refine .goTo ⟨h.log, h.threads⟩ ?_
        unfold route at hroute
        split at hroute
        · cases hroute
        · split_ifs at hroute
          · cases hroute
            exact trivial
          · cases hroute
            exact narrows_builtin letters signatures "not_found" (by decide)
        · cases hroute
          exact trivial
  | _ => exact h

theorem checkAuthenticated_narrowed (h : Narrowed (errorUnion letters signatures) sys)
    (request : Request) (hplain : sys.session.authenticated = true ∨
      Narrows (errorUnion letters signatures) "unauthorized") :
    Narrowed (errorUnion letters signatures)
      (checkAuthenticatedStep (sessionRouter router settings) sys n t request) := by
  unfold checkAuthenticatedStep
  split_ifs with hauth
  · refine .goTo ⟨h.log, h.threads⟩ ?_
    cases request with
    | subscribe =>
      unfold workOf
      dsimp only
      split_ifs
      · exact trivial
      · exact narrows_builtin letters signatures "not_found" (by decide)
    | _ => exact trivial
  · exact .goTo ⟨h.log, h.threads⟩ (hplain.resolve_left hauth)

theorem checkConflict_narrowed (h : Narrowed codes sys) {claimed : Bool}
    (hplain : (sys.session.authenticated = false ∧ claimed = true) ∨ Narrows codes "conflict") :
    Narrowed codes (checkConflictStep sys n t claimed) := by
  unfold checkConflictStep
  split_ifs with hconflict hclaimed
  · refine .goTo ⟨h.log, h.threads⟩ (hplain.resolve_left ?_)
    rintro ⟨hauth, rfl⟩
    simp [hauth] at hconflict
  · refine .goTo ⟨h.log, h.threads⟩ (hplain.resolve_left ?_)
    rintro ⟨_, rfl⟩
    exact hclaimed rfl
  · exact .goTo ⟨h.log, h.threads⟩ trivial

theorem reply_narrowed (h : Narrowed codes sys) {result : Except RouterError.Error Data}
    {after : After} (hheld : Holds codes (.reply result after : Point R)) :
    Narrowed codes (replyStep (sessionRouter router settings) sys n t result after) := by
  have hresult : ∀ error, mapError (sessionRouter router settings) result = .error error →
      Narrows codes error.kind := by
    intro error herror
    cases result with
    | ok data => cases herror
    | error found =>
      cases herror
      exact hheld
  have hlog := h.log.pushNow (some n)
    (resultFrame t.id (mapError (sessionRouter router settings) result))
    (result_narrows t.id hresult)
  have hthreads := pushNow_threads (some n)
    (resultFrame t.id (mapError (sessionRouter router settings) result)) ▸ h.threads
  unfold replyStep
  cases after with
  | nothing => exact .finish ⟨hlog, hthreads⟩
  | unclaim | close reason => exact .goTo ⟨hlog, hthreads⟩ trivial

theorem dispatch_narrowed (htyped : Typed letters signatures router)
    (h : Narrowed (errorUnion letters signatures) sys) {name params : String}
    (hpoint : t.point = .dispatch name params) {awaited : Awaited R}
    (hplain : PlainPoint (errorUnion letters signatures) router settings sys t awaited) :
    Narrowed (errorUnion letters signatures)
      (dispatchStep (sessionRouter router settings) sys n t name awaited) := by
  unfold PlainPoint at hplain
  rw [hpoint] at hplain
  cases awaited with
  | dispatched result =>
    dsimp only [dispatchStep]
    split_ifs
    · refine .goTo ⟨h.log, h.threads⟩ ?_
      cases result with
      | ok data => exact trivial
      | error error =>
        obtain ⟨action, cx, params, found, haction, hfound, rfl, hcall⟩ := hplain
        exact (dispatch_narrows_iff cx params
          (htyped.action name action haction)).mpr hcall found hfound
    · exact h
  | nothing =>
    dsimp only [dispatchStep]
    split_ifs
    · exact h
    · exact .goTo ⟨h.log, h.threads⟩ trivial
    · exact .goTo ⟨h.log, h.threads⟩ (narrows_builtin letters signatures "not_found" (by decide))
  | _ => exact h

theorem next_narrowed (htyped : Typed letters signatures router)
    (h : Narrowed (errorUnion letters signatures) sys) (hpoint : t.point = .next)
    {awaited : Awaited R}
    (hplain : PlainPoint (errorUnion letters signatures) router settings sys t awaited) :
    Narrowed (errorUnion letters signatures)
      (nextStep (sessionRouter router settings) sys n t awaited) := by
  unfold PlainPoint at hplain
  rw [hpoint] at hplain
  cases awaited with
  | item next =>
    rcases next with _ | error | data
    · exact .goTo ⟨h.log, h.threads⟩ trivial
    · refine .goTo ⟨h.log, h.threads⟩ ?_
      obtain ⟨name, stream, cx, params, found, hstream, hfound, rfl, hcall⟩ := hplain
      exact (stream_narrows_iff cx params
        (htyped.stream name stream hstream)).mpr hcall found hfound
    · exact .goTo ⟨h.log, h.threads⟩ trivial
  | _ => exact h

theorem bind_narrowed (h : Narrowed (errorUnion letters signatures) sys) (req : R)
    {identity : Identity}
    (hplain : PlainBind (errorUnion letters signatures) sys.hub sys.session.conn identity
      settings.maxConnectionsPerUser) :
    Narrowed (errorUnion letters signatures)
      (bindStep (sessionRouter router settings) sys n t req identity) := by
  unfold bindStep
  cases htopics : identityTopics identity with
  | error error =>
    refine .goTo ⟨h.log, h.threads⟩ ?_
    change Narrows _ error.kind
    rw [identityTopics_error htopics]
    exact narrows_builtin letters signatures "bad_request" (by decide)
  | ok topics =>
    obtain ⟨userTopic, deviceTopic⟩ := topics
    have hgained := gained_authenticate (sessionRouter router settings) sys htopics
    have herror := bind_error (errorUnion letters signatures) userTopic deviceTopic hplain
    dsimp only [sessionRouter] at hgained ⊢
    rcases hbound : authenticateLocked sys.hub sys.session.conn identity
      settings.maxConnectionsPerUser userTopic deviceTopic with ⟨after, superseded, slow, outcome⟩
    rw [hbound] at hgained herror
    have hlog : Logged (errorUnion letters signatures) (perform sys (some n) after).queued := by
      refine h.log.perform (some n) after fun frame hframe => ?_
      rw [hgained] at hframe
      cases hframe
    cases outcome with
    | error error => exact .goTo ⟨hlog, h.threads⟩ (herror error rfl)
    | ok bound => exact .goTo ⟨hlog, h.threads⟩ trivial

theorem subscribe_narrowed (h : Narrowed codes sys) {attempts : ℕ} (channel key : String)
    {topic : Topic} {mark : ℕ}
    (hplain : PlainSubscribe codes sys.hub sys.session.conn topic mark settings.maxSubscriptions
      attempts) :
    Narrowed codes
      (subscribeStep (sessionRouter router settings) sys n t attempts channel key topic mark) := by
  refine .goTo ⟨h.log.perform (some n) _ fun frame hframe => ?_, h.threads⟩ ?_
  · have hin := mem_gained sys.hub (.subscribe sys.session.conn topic
      (clientSubscribe (sessionRouter router settings) t.id topic mark)) _ frame hframe
    rw [subscribe_frames _ sys t topic mark _ rfl] at hin
    split at hin
    · rw [mem_singleton.mp hin]
      exact .inr ⟨_, _, rfl⟩
    · cases hin
  · cases hout : (subscribeLocked sys.hub sys.session.conn topic
      (clientSubscribe (sessionRouter router settings) t.id topic mark)).2.2 with
    | ok position => exact trivial
    | error error =>
      exact subscribe_error _ hplain hout

theorem advance_narrowed (htyped : Typed letters signatures router) {sys : System R} {n : ℕ}
    {t : Thread R} {awaited : Awaited R} (hget : sys.threads[n]? = some t)
    (hplain : PlainPoint (errorUnion letters signatures) router settings sys t awaited)
    (h : Narrowed (errorUnion letters signatures) sys) :
    Narrowed (errorUnion letters signatures)
      (SessionRequests.advance (sessionRouter router settings) sys n t awaited) := by
  have hheld := h.threads t (mem_of_getElem? hget)
  have hpoint := hplain
  unfold PlainPoint at hpoint
  unfold SessionRequests.advance
  cases heq : t.point with
  | checkClosed =>
    dsimp only [checkClosedStep]
    split_ifs
    · exact .finish ⟨h.log, h.threads⟩
    · exact .goTo ⟨h.log, h.threads⟩ trivial
  | touch => exact touch_narrowed settings h awaited
  | checkAuthenticated request =>
    rw [heq] at hpoint
    exact checkAuthenticated_narrowed settings h request hpoint
  | claim =>
    dsimp only [claimStep]
    split_ifs <;> exact .goTo ⟨h.log, h.threads⟩ trivial
  | checkConflict claimed =>
    rw [heq] at hpoint
    exact checkConflict_narrowed h hpoint
  | releaseConflict =>
    rw [heq] at hheld
    exact .goTo ⟨h.log, h.threads⟩ hheld
  | permit work =>
    rw [heq] at hpoint
    dsimp only [permitStep]
    rw [if_neg hpoint]
    refine .goTo ⟨h.log, h.threads⟩ ?_
    cases work <;> exact trivial
  | leave topic =>
    refine .goTo ⟨h.log.perform (some n) _ fun frame hframe => ?_, h.threads⟩ trivial
    have hnone := mem_gained sys.hub (.unsubscribe sys.session.conn topic) _ frame hframe
    cases hnone
  | reply result after =>
    rw [heq] at hheld
    exact reply_narrowed settings h hheld
  | unclaim | close reason => exact .finish ⟨h.log, h.threads⟩
  | dispatch name params => exact dispatch_narrowed settings htyped h heq hplain
  | respond answer =>
    rw [heq] at hheld
    refine h.pushAwait _ _ ?_ fun base hlog hthreads => .finish ⟨hlog, hthreads ▸ h.threads⟩
    intro id error hframe
    rcases answer with _ | _ | _
    · cases hframe
    · cases hframe
      exact hheld
    · cases hframe
  | next => exact next_narrowed settings htyped h heq hplain
  | sendItem data =>
    refine h.pushAwait _ _ ?_ fun base hlog hthreads => .goTo ⟨hlog, hthreads ▸ h.threads⟩ trivial
    exact nofun
  | hook params =>
    rw [heq] at hpoint
    cases awaited with
    | hooked result =>
      cases result with
      | ok bound => exact .goTo ⟨h.log, h.threads⟩ trivial
      | error error => exact .goTo ⟨h.log, h.threads⟩ hpoint
    | _ => exact h
  | bind req identity =>
    rw [heq] at hpoint
    exact bind_narrowed settings h req hpoint
  | announce req superseded slow deviceTopic | storeReq req | storeAuthenticated =>
    exact .goTo ⟨h.log, h.threads⟩ trivial
  | settle outcome =>
    rw [heq] at hheld
    cases outcome with
    | ok value => exact .goTo ⟨h.log, h.threads⟩ trivial
    | error error => exact .goTo ⟨h.log, h.threads⟩ hheld
  | resolve attempts channel key =>
    rw [heq] at hpoint
    cases awaited with
    | topicOf result =>
      cases result with
      | ok topic => exact .goTo ⟨h.log, h.threads⟩ trivial
      | error error => exact .goTo ⟨h.log, h.threads⟩ hpoint
    | _ => exact h
  | authorize attempts channel key topic mark =>
    rw [heq] at hpoint
    cases awaited with
    | authorized result =>
      rcases result with error | allowed
      · exact .goTo ⟨h.log, h.threads⟩ hpoint
      · cases allowed with
        | true => exact .goTo ⟨h.log, h.threads⟩ trivial
        | false => exact .goTo ⟨h.log, h.threads⟩ hpoint
    | _ => exact h
  | subscribe attempts channel key topic mark =>
    rw [heq] at hpoint
    exact subscribe_narrowed settings h channel key hpoint
  | closeSlow attempts channel key slow outcome =>
    rw [heq] at hheld
    cases outcome with
    | ok position => exact .finish ⟨h.log, h.threads⟩
    | error error =>
      dsimp only [closeSlowStep]
      split_ifs with hagain
      · exact .goTo ⟨h.log, h.threads⟩ trivial
      · exact .goTo ⟨h.log, h.threads⟩ (hheld.resolve_left hagain)
  | done => exact h

theorem step_narrowed (htyped : Typed letters signatures router) {sys : System R} {a : Act R}
    (h : Narrowed (errorUnion letters signatures) sys)
    (hplain : PlainStep (errorUnion letters signatures) router settings sys a) :
    Narrowed (errorUnion letters signatures)
      (SessionRequests.step (sessionRouter router settings) sys a) := by
  cases a with
  | arrive frame =>
    refine ⟨h.log, fun t ht => ?_⟩
    rcases mem_append.mp ht with hin | hin
    · exact h.threads t hin
    · rw [mem_singleton.mp hin]
      exact trivial
  | act n awaited =>
    simp only [SessionRequests.step]
    cases hget : sys.threads[n]? with
    | none => exact h
    | some t => exact advance_narrowed settings htyped hget (hplain t hget) h
  | ping =>
    refine ⟨h.log.pushNow none _ fun _ _ hframe => (by cases hframe), ?_⟩
    change ∀ t ∈ (pushNow sys none .ping).threads, _
    rw [pushNow_threads]
    exact h.threads
  | clientCall id name params =>
    exact ⟨h.log.push none _ fun _ _ hframe => (by cases hframe), h.threads⟩
  | storeReq req | storeAuthenticated => exact ⟨h.log, h.threads⟩
  | outside s =>
    refine ⟨h.log.perform none _ fun frame hframe => .inl ?_, h.threads⟩
    exact (foreign_frames sys.hub s hplain (mem_gained sys.hub s sys.session.conn frame hframe)).1

/-- In a run whose steps are all plain every error frame carries a kind of the union. -/
theorem run_narrowed (htyped : Typed letters signatures router) {h : Hub} {outgoingBuffer : ℕ}
    {req : R} {acts : List (Act R)}
    (hplain : Meets (SessionRequests.step (sessionRouter router settings))
      (PlainStep (errorUnion letters signatures) router settings)
      (opened (sessionRouter router settings) h outgoingBuffer req) acts) :
    Logged (errorUnion letters signatures)
      (run (SessionRequests.step (sessionRouter router settings))
        (opened (sessionRouter router settings) h outgoingBuffer req) acts).queued := by
  refine (guarded_run_invariant _ _ (Narrowed (errorUnion letters signatures)) ?_ _ acts ?_
    hplain).log
  · exact fun sys a hsys ha => step_narrowed settings htyped hsys ha
  · exact ⟨forall_mem_nil _, forall_mem_nil _⟩

end

end

/-- The calls of a unary request, of a borrowed one and of a stream are plain. -/
def PlainRequest (req : R) (name : String) (params : SerdeJson.Value serde.Number) : Prop :=
  ∀ action, router.actions name = some action → Plain codes action ⟨req, none⟩ params

def PlainBorrowed (req : R) (name : String) (params : List Char) : Prop :=
  match router.borrowActions name with
  | some action => Plain codes action ⟨req, none⟩ params
  | none => ∀ value, fromText serde.number params = some value →
      PlainRequest codes router req name value

def PlainSubstream (req : R) (name : String) (params : SerdeJson.Value serde.Number) : Prop :=
  ∀ stream, router.streams name = some stream → PlainStream codes stream ⟨req, none⟩ params

section
variable {letters : Letters} {signatures : Signatures} {router : RouterGuards.Router serde R K}

theorem answer_error (result : Except (RouterRequests.Error serde) (SerdeJson.Value serde.Number))
    (hhook : ∀ error, router.onError error = error) (error : RouterRequests.Error serde) :
    RouterRequests.answer router.replies result = .error error ↔ result = .error error := by
  cases result with
  | ok data =>
    refine iff_of_false ?_ ?_
    · intro h
      cases h
    · intro h
      cases h
  | error found =>
    change RouterRequests.Reply.error (router.onError found) = _ ↔ _
    rw [hhook found, RouterRequests.Reply.error.injEq, Except.error.injEq]

theorem notFound_narrows (hhook : ∀ error, router.onError error = error) {name : String}
    {error : RouterRequests.Error serde}
    (h : RouterRequests.Reply.error (router.onError (notFound name)) = .error error) :
    Narrows (errorUnion letters signatures) error.kind := by
  rw [hhook, RouterRequests.Reply.error.injEq] at h
  rw [← h]
  exact narrows_builtin letters signatures "not_found" (by decide)

theorem request_iff (htyped : Typed letters signatures router)
    (hhook : ∀ error, router.onError error = error) (req : R) (name : String)
    (params : SerdeJson.Value serde.Number) :
    (∀ error, dispatchOne router.replies req name params = .error error →
        Inhabits (errorUnion letters signatures) (errorValue error)) ↔
      PlainRequest (errorUnion letters signatures) router req name params := by
  simp only [inhabits_errorValue]
  unfold dispatchOne PlainRequest
  rw [RouterGuards.replies_actions]
  cases haction : router.actions name with
  | none =>
    refine iff_of_true (fun error h => ?_) nofun
    exact notFound_narrows hhook h
  | some action =>
    have hiff := dispatch_narrows_iff ⟨req, none⟩ params
      (htyped.action name action haction)
    simp only [Option.map_some, answer_error _ hhook, Option.some.injEq, forall_eq']
    exact hiff

theorem borrowed_iff (htyped : Typed letters signatures router)
    (hhook : ∀ error, router.onError error = error) (req : R) (name : String)
    (params : List Char) :
    (∀ error, dispatchOneBorrowed router.replies req name params = .error error →
        Inhabits (errorUnion letters signatures) (errorValue error)) ↔
      PlainBorrowed (errorUnion letters signatures) router req name params := by
  simp only [inhabits_errorValue]
  unfold dispatchOneBorrowed PlainBorrowed
  rw [RouterGuards.replies_borrowActions, RouterGuards.replies_actions]
  cases hborrow : router.borrowActions name with
  | some action =>
    have hiff := dispatch_narrows_iff ⟨req, none⟩ params
      (htyped.borrowAction hborrow)
    simp only [Option.map_some, answer_error _ hhook]
    exact hiff
  | none =>
    cases haction : router.actions name with
    | none =>
      refine iff_of_true (fun error h => ?_) fun value _ action hsome => ?_
      · exact notFound_narrows hhook h
      · rw [haction] at hsome
        cases hsome
    | some action =>
      cases hvalue : fromText serde.number params with
      | none =>
        refine iff_of_true (fun error h => ?_) nofun
        change RouterRequests.Reply.error (router.onError _) = _ at h
        rw [hhook, RouterRequests.Reply.error.injEq] at h
        rw [← h]
        exact narrows_builtin letters signatures "bad_request" (by decide)
      | some value =>
        have hiff := dispatch_narrows_iff ⟨req, none⟩ value
          (htyped.action name action haction)
        simp only [Option.map_none, Option.map_some, answer_error _ hhook, Option.some.injEq,
          forall_eq', PlainRequest, haction]
        exact hiff

theorem actionStream_iff (htyped : Typed letters signatures router)
    (hhook : ∀ error, router.onError error = error) (req : R) (index : ℕ)
    (entry : String × SerdeJson.Value serde.Number) :
    (∀ frame ∈ (RouterGuards.actionStream router req index entry).frames, ∀ error,
        frame.event = .error error → Narrows (errorUnion letters signatures) error.kind) ↔
      PlainSubstream (errorUnion letters signatures) router req entry.1 entry.2 := by
  unfold RouterGuards.actionStream PlainSubstream
  cases hstream : router.streams entry.1 with
  | none =>
    refine iff_of_true (fun frame hframe error h => ?_) nofun
    rw [mem_singleton.mp hframe, RouterGuards.Event.error.injEq, hhook] at h
    rw [← h]
    exact narrows_builtin letters signatures "not_found" (by decide)
  | some stream =>
    have hiff := stream_narrows_iff ⟨req, none⟩ entry.2
      (htyped.stream entry.1 stream hstream)
    simp only [Option.some.injEq, forall_eq', forall_mem_map]
    refine Iff.trans ⟨fun h error hends => ?_, fun h event hevent error herror => ?_⟩ hiff
    · refine h (.error error) ((mem_events _ _ _ _).mpr ⟨error, hends, ?_⟩) error rfl
      rw [hhook]
    · rw [herror] at hevent
      obtain ⟨found, hends, hfound⟩ := (mem_events _ _ _ _).mp hevent
      rw [hfound, hhook]
      exact h found hends

end

section
variable {letters : Letters} {signatures : Signatures} {router : RouterGuards.Router serde R K}

theorem onStream_iff (htyped : Typed letters signatures router)
    (hhook : ∀ error, router.onError error = error) (req : R)
    (payload : SerdeJson.Value serde.Number) :
    (∀ schedule, ∀ entry ∈ (RouterGuards.onStream router req payload schedule).yielded, ∀ error,
        entry.2.event = .error error →
          Inhabits (errorUnion letters signatures) (errorObject .object error)) ↔
      ∀ entry ∈ RouterGuards.streamEntries payload,
        PlainSubstream (errorUnion letters signatures) router req entry.1 entry.2 := by
  simp only [inhabits_iff _ faithful_object]
  constructor
  · intro h entry hentry
    obtain ⟨i, hi⟩ := mem_iff_getElem?.mp hentry
    refine (actionStream_iff htyped hhook req i entry).mp fun frame hframe error herror => ?_
    have hsub : frame ∈ ((start (RouterGuards.substreams router req
        (RouterGuards.streamEntries payload))).subs i).frames := by
      change frame ∈ (RouterGuards.substreams router req _ i).frames
      unfold RouterGuards.substreams
      rw [hi]
      exact hframe
    obtain ⟨schedule, hin⟩ := drained _ i rfl frame hsub
    exact h schedule (i, frame) hin error herror
  · intro h schedule entry hentry error herror
    have hframe := yielded_from hentry
    unfold RouterGuards.substreams at hframe
    split at hframe
    next found hfound =>
      exact (actionStream_iff htyped hhook req entry.1 found).mpr
        (h found (mem_of_getElem? hfound)) entry.2 hframe error herror
    next => cases hframe

end

/-- The error objects of replies and streams have the generated shape exactly when the
user code behind them is plain, and those of a session in every run of plain steps. -/
theorem error_objects_inhabit (letters : Letters) (signatures : Signatures)
    (router : RouterGuards.Router serde R K) (htyped : Typed letters signatures router)
    (hhook : ∀ error, router.onError error = error) :
    (∀ req name params, (∀ error, dispatchOne router.replies req name params = .error error →
          Inhabits (errorUnion letters signatures) (errorValue error)) ↔
        PlainRequest (errorUnion letters signatures) router req name params) ∧
    (∀ req name params,
      (∀ error, dispatchOneBorrowed router.replies req name params = .error error →
          Inhabits (errorUnion letters signatures) (errorValue error)) ↔
        PlainBorrowed (errorUnion letters signatures) router req name params) ∧
    (∀ req payload,
      (∀ schedule, ∀ entry ∈ (RouterGuards.onStream router req payload schedule).yielded, ∀ error,
          entry.2.event = .error error →
            Inhabits (errorUnion letters signatures) (errorObject .object error)) ↔
        ∀ entry ∈ RouterGuards.streamEntries payload,
          PlainSubstream (errorUnion letters signatures) router req entry.1 entry.2) ∧
    ∀ settings h outgoingBuffer req acts,
      Meets (SessionRequests.step (sessionRouter router settings))
        (PlainStep (errorUnion letters signatures) router settings)
        (opened (sessionRouter router settings) h outgoingBuffer req) acts →
      ∀ entry ∈ (run (SessionRequests.step (sessionRouter router settings))
          (opened (sessionRouter router settings) h outgoingBuffer req) acts).queued,
        ∀ id (error : RouterRequests.Error serde), entry.2 = .hub (.failure id error.toError) →
          Inhabits (errorUnion letters signatures) (errorToValue error) := by
  refine ⟨request_iff htyped hhook, borrowed_iff htyped hhook, onStream_iff htyped hhook, ?_⟩
  intro settings h outgoingBuffer req acts hplain entry hentry id error herror
  refine (inhabits_iff _ faithful_toMap error).mpr ?_
  exact run_narrowed settings htyped hplain entry hentry id error.toError
    herror

end

def asciiLetters : Letters := ⟨Char.isUpper, Char.isLower⟩

/-- `#[status(404)] UserNotFound` -/
def userNotFound : Variant := ⟨"UserNotFound", ⟨404, none, none⟩⟩

def lookupAction : RouterGuards.Action RouterRequests.naturals (RouterGuards.Cx Unit Unit)
    (SerdeJson.Value ℕ) where
  Input := Unit
  Output := Unit
  Fault := Unit
  hooks := .action ⟨fun _ => .returns (.ok ()), fun _ => .returns ()⟩
  decode _ := .returns (.ok ())
  validate _ := .returns (.ok ())
  run _ _ := .returns (.error ())
  into _ := fromResponseError asciiLetters userNotFound (.returns "user not found")
  encode _ := .returns (.ok .null)

def lookupRouter : RouterGuards.Router RouterRequests.naturals Unit Unit where
  actions name := if name = "lookup" then some lookupAction else none
  borrowActions _ := none
  streams _ := none
  onError := id

def lookupSignatures : Signatures := ⟨[("lookup", [userNotFound])], [], []⟩

def userMissing : RouterRequests.Error RouterRequests.naturals :=
  ⟨⟨404, "user_not_found", "user not found"⟩, none, none, none⟩

theorem lookup_typed : Typed asciiLetters lookupSignatures lookupRouter where
  actions name action h := by
    change (if name = "lookup" then some lookupAction else none) = some action at h
    split_ifs at h with hname
    cases h
    refine ⟨[userNotFound], ?_, fun _ => userNotFound, fun _ => .returns "user not found",
      fun _ => mem_cons_self, fun _ => rfl⟩
    rw [hname]
    exact mem_cons_self
  borrowActions _ _ h := by cases h
  streams _ _ h := by cases h

def lookupFrame (id : ℕ) : Inbound :=
  ⟨some "call", some id, some "lookup", none, none, none, none⟩

def lookupCall : List (Act Unit) :=
  [.arrive (lookupFrame 1), .act 0 .nothing, .act 0 (.touched true), .act 0 .nothing, .act 0 .nothing,
    .act 0 (.dispatched (.error userMissing.toError)), .act 0 .nothing]

def lookupSession (auth : Bool) : System Unit :=
  opened (sessionRouter lookupRouter { plainRouter with auth := auth }) (newHub (fun _ => 0) 0) 8 ()

/-- A failed call is answered with the code its error type declares. -/
theorem error_objects_inhabit_lookup :
    (∀ error : RouterRequests.Error RouterRequests.naturals, lookupRouter.onError error = error) ∧
    Inhabits (errorUnion asciiLetters lookupSignatures) (errorValue userMissing) ∧
    (some 0, .hub (.failure 1 userMissing.toError)) ∈
      (run (SessionRequests.step (sessionRouter lookupRouter plainRouter)) (lookupSession false)
        lookupCall).queued ∧
    Inhabits (errorUnion asciiLetters lookupSignatures) (errorToValue userMissing) := by
  have hall := error_objects_inhabit asciiLetters lookupSignatures lookupRouter lookup_typed
    fun _ => rfl
  have hplain : Plain (errorUnion asciiLetters lookupSignatures) lookupAction ⟨(), none⟩ .null := by
    refine ⟨nofun, fun error h => ?_⟩
    obtain ⟨_, _, _, _, _, _, hinto, _⟩ := h
    cases hinto
    decide
  have hqueued : (some 0, .hub (.failure 1 userMissing.toError)) ∈
      (run (SessionRequests.step (sessionRouter lookupRouter plainRouter)) (lookupSession false)
        lookupCall).queued := by
    decide +kernel
  refine ⟨fun _ => rfl, (hall.1 () "lookup" .null).mpr ?_ userMissing rfl, hqueued, ?_⟩
  · intro action haction
    cases haction
    exact hplain
  · refine hall.2.2.2 plainRouter (newHub (fun _ => 0) 0) 8 () lookupCall ?_ _ hqueued 1
      userMissing rfl
    refine ⟨trivial, ?_, ?_, ?_, ?_, ?_, ?_, trivial⟩
    all_goals
      intro t ht
      cases ht
    · exact trivial
    · exact trivial
    · exact .inl rfl
    · exact Nat.succ_ne_zero 511
    · exact ⟨lookupAction, ⟨(), none⟩, .null, userMissing, rfl, rfl, rfl, hplain⟩
    · exact trivial

def earlyCall : List (Act Unit) :=
  [.arrive (lookupFrame 1), .act 0 .nothing, .act 0 (.touched true), .act 0 .nothing, .act 0 .nothing]

/-- A session answers a call before authentication with a code the union does not list. -/
theorem unauthorized_not_inhabited : Typed asciiLetters lookupSignatures lookupRouter ∧
    (some 0, .hub (.failure 1 unauthorized)) ∈
      (run (SessionRequests.step (sessionRouter lookupRouter { plainRouter with auth := true }))
        (lookupSession true) earlyCall).queued ∧
    ¬ Inhabits (errorUnion asciiLetters lookupSignatures)
      (errorToValue (⟨unauthorized, none, none, none⟩ : RouterRequests.Error RouterRequests.naturals)) := by
  refine ⟨lookup_typed, by decide +kernel, fun h => ?_⟩
  have hnarrows := (inhabits_iff _ faithful_toMap _).mp h
  revert hnarrows
  decide

end Stakit.ErrorCodes
