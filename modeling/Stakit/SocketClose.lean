import Stakit.SocketConnection

set_option autoImplicit false

namespace Stakit.SocketConnection
open FiniteMap PubsubTopic TransitionRuns List
open SocketSubscriptions (GroupRef SubRef Ack ErrorBody Frame Seen Group Sub noGroup dropTopic
  gapOf messageOf takesEarly ackMoved earlyPerTopic groupId)

/-- After a return of `close` the status is `closed`, and nothing has left the client
since: no status, no socket, no frame. -/
structure Final (c : Conn) : Prop where
  status : .closeReturned ∈ c.trace → c.status = .closed
  quiet : c.trace.Pairwise fun earlier later => earlier = .closeReturned → later = .closeReturned

/-- Code that goes on to open a socket or to arm the timer for it. -/
def Point.opens : Point → Bool
  | .scheduling | .opening | .refused | .resuming => true
  | _ => false

/-- A call of `close` finds no `scheduleReconnect`, `open` or `resume` under way, and
no timer armed but the one that `reconnectTimer` names. -/
def ClosesIdle (c : Conn) : Act → Prop
  | .invoke .close =>
    (∀ point ∈ c.stack, point.opens = false) ∧ ∀ timer ∈ c.armed, some timer = c.reconnectTimer
  | _ => True

instance decidableClosesIdle (c : Conn) : ∀ a, Decidable (ClosesIdle c a)
  | .invoke .close => inferInstanceAs (Decidable (_ ∧ _))
  | .invoke (.send _) | .invoke (.call _ _) | .invoke (.subscribe _ _) | .invoke (.unsubscribe _)
  | .invoke .pause | .invoke .resume | .occur _ | .return _ | .proceed _ => .isTrue trivial

structure Apart (c c' : Conn) : Prop where
  stack : ∃ above, c'.stack = above ++ c.stack ∧ .closing ∉ above
  trace : ∃ more, c'.trace = c.trace ++ more ∧ .closeReturned ∉ more

/-- The connection is left closed, and without a socket it is left alone. -/
structure Calm (c c' : Conn) : Prop where
  stack : ∃ above, c'.stack = above ++ c.stack ∧ ∀ point ∈ above, point.opens = false
  trace : c.socket = none → c'.trace = c.trace
  status : c'.status = .closed
  armed : ∀ timer ∈ c'.armed, timer ∈ c.armed
  socket : c'.socket = c.socket ∨ c'.socket = none

structure Moves (c c' : Conn) : Prop where
  apart : Apart c c'
  calm : c.status = .closed → Calm c c'

section
variable {c c' c'' : Conn}

theorem Apart.trans (a : Apart c c') (b : Apart c' c'') : Apart c c'' := by
  obtain ⟨above, hstack, hclosing⟩ := a.stack
  obtain ⟨above', hstack', hclosing'⟩ := b.stack
  obtain ⟨more, htrace, hreturned⟩ := a.trace
  obtain ⟨more', htrace', hreturned'⟩ := b.trace
  refine ⟨⟨above' ++ above, ?_, ?_⟩, ⟨more ++ more', ?_, ?_⟩⟩
  · rw [hstack', hstack, append_assoc]
  · rw [mem_append]
    exact fun h => h.elim hclosing' hclosing
  · rw [htrace', htrace, append_assoc]
  · rw [mem_append]
    exact fun h => h.elim hreturned hreturned'

theorem Calm.trans (a : Calm c c') (b : Calm c' c'') : Calm c c'' where
  stack := by
    obtain ⟨above, hstack, hcalm⟩ := a.stack
    obtain ⟨above', hstack', hcalm'⟩ := b.stack
    refine ⟨above' ++ above, by rw [hstack', hstack, append_assoc], fun point hpoint => ?_⟩
    exact (mem_append.mp hpoint).elim (hcalm' point) (hcalm point)
  trace hnone := by
    have hgone : c'.socket = none := a.socket.elim (fun h => h.trans hnone) id
    rw [b.trace hgone, a.trace hnone]
  status := b.status
  armed timer h := a.armed timer (b.armed timer h)
  socket := by
    obtain hsame | hnone := b.socket
    · rw [hsame]
      exact a.socket
    · exact .inr hnone

theorem Moves.trans (a : Moves c c') (b : Moves c' c'') : Moves c c'' :=
  ⟨a.apart.trans b.apart, fun hclosed => (a.calm hclosed).trans (b.calm (a.calm hclosed).status)⟩

/-- What of a connection matters here. -/
def outline (c : Conn) : Status × Option SocketRef × List TimerRef × List Point × List Event :=
  (c.status, c.socket, c.armed, c.stack, c.trace)

theorem Apart.of_eq (hstack : c'.stack = c.stack) (htrace : c'.trace = c.trace) : Apart c c' :=
  ⟨⟨[], hstack, not_mem_nil⟩, ⟨[], by rw [htrace, append_nil], not_mem_nil⟩⟩

theorem Moves.of_same (h : outline c' = outline c) : Moves c c' := by
  obtain ⟨hstatus, hsocket, harmed, hstack, htrace⟩ : c'.status = c.status ∧ c'.socket = c.socket ∧
      c'.armed = c.armed ∧ c'.stack = c.stack ∧ c'.trace = c.trace := by
    simpa only [outline, Prod.mk.injEq] using h
  refine ⟨.of_eq hstack htrace, fun hclosed => ?_⟩
  refine ⟨⟨[], hstack, by simp⟩, fun _ => htrace, hstatus.trans hclosed, fun timer h => ?_,
    .inl hsocket⟩
  rw [harmed] at h
  exact h

theorem Apart.after (h : Apart c' c'') (hstack : c'.stack = c.stack) (htrace : c'.trace = c.trace) :
    Apart c c'' :=
  (Apart.of_eq hstack htrace).trans h

theorem Moves.refl (c : Conn) : Moves c c := .of_same rfl

theorem Moves.after (h : Moves c' c'') (hsame : outline c' = outline c) : Moves c c'' :=
  (Moves.of_same hsame).trans h

theorem push_apart (c : Conn) (point : Point) (h : point ≠ .closing) : Apart c (push c point) := by
  refine ⟨⟨[point], rfl, ?_⟩, ⟨[], (append_nil _).symm, not_mem_nil⟩⟩
  rw [mem_singleton]
  exact h.symm

theorem push_moves (c : Conn) (point : Point) (hclosing : point ≠ .closing)
    (hopens : c.status = .closed → point.opens = false) : Moves c (push c point) := by
  refine ⟨push_apart c point hclosing, fun hclosed => ?_⟩
  refine ⟨⟨[point], rfl, fun other hother => ?_⟩, fun _ => rfl, hclosed, fun _ h => h, .inl rfl⟩
  rw [mem_singleton.mp hother]
  exact hopens hclosed

theorem user_moves (c : Conn) (callback : Callback) : Moves c (push c (.user callback)) :=
  push_moves c (.user callback) nofun fun _ => rfl

theorem record_apart (c : Conn) (event : Event) (h : event ≠ .closeReturned) :
    Apart c (record c event) := by
  refine ⟨⟨[], rfl, by simp⟩, ⟨[event], rfl, ?_⟩⟩
  rw [mem_singleton]
  exact h.symm

theorem write_moves (c : Conn) (frame : Outgoing) : Moves c (write c frame) := by
  unfold write
  cases hsocket : c.socket with
  | none => exact .refl c
  | some socket =>
    refine ⟨record_apart c _ nofun, fun hclosed => ?_⟩
    refine ⟨⟨[], rfl, by simp⟩, fun hnone => ?_, hclosed, fun _ h => h, .inl rfl⟩
    rw [hsocket] at hnone
    cases hnone

theorem setStatus_apart (c : Conn) (next : Status) : Apart c (setStatus c next) := by
  unfold setStatus
  split_ifs
  · exact .of_eq rfl rfl
  · refine (record_apart c (.status next) nofun).trans ?_
    exact (push_apart _ (.user (.onStatus next)) fun h => by cases h).after rfl rfl

theorem setStatus_moves {c : Conn} {next : Status} (h : c.status = .closed → next = .closed) :
    Moves c (setStatus c next) := by
  refine ⟨setStatus_apart c next, fun hclosed => ?_⟩
  unfold setStatus
  rw [if_pos (hclosed.trans (h hclosed).symm)]
  exact (Moves.refl c).calm hclosed

end

variable (opts : Options) (c : Conn) (incoming : Incoming) (opens : Bool) (point : Point)
  (g : GroupRef) (frame : Frame)

theorem request_moves (frame : ℕ → Outgoing) (waiter : Waiter) : Moves c (request c frame waiter) :=
  (write_moves _ _).after rfl

theorem sendGroup_moves : Moves c (sendGroup c g) :=
  (request_moves _ _ _).after rfl

theorem writeUnsubscribe_moves (topic : Topic) : Moves c (writeUnsubscribe c topic) :=
  (write_moves _ _).after rfl

theorem report_moves (hclosing : point ≠ .closing)
    (hopens : c.status = .closed → point.opens = false) : Moves c (report c point) :=
  (push_moves c point hclosing hopens).trans (user_moves _ _)

theorem each_moves (seen : List Seen) : Moves c (each c g seen) :=
  push_moves c (.telling _ _) nofun fun _ => rfl

theorem delivered_moves : Moves c (delivered opts c frame) := by
  unfold delivered
  split_ifs
  · exact user_moves c _
  · exact .refl c

theorem onUnclaimed_moves (topic : Topic) (frame : Frame) :
    Moves c (onUnclaimed opts c topic frame) := by
  unfold onUnclaimed
  dsimp only
  split_ifs
  · exact delivered_moves opts c frame
  · exact .of_same rfl
  · exact .refl c
  · exact .refl c

theorem onPublish_moves : Moves c (onPublish opts c frame) := by
  unfold onPublish
  dsimp only
  split
  · exact onUnclaimed_moves opts c _ frame
  · refine Moves.trans ?_ (delivered_moves opts _ frame)
    exact (push_moves _ (.publishing _ _) nofun fun _ => rfl).after rfl

theorem takeAck_moves (ack : Ack) : Moves c (takeAck c g ack) := by
  have hplaced : Moves c (push (placeAck c g ack) (.acking ack)) :=
    (push_moves (placeAck c g ack) (.acking ack) nofun fun _ => rfl).after rfl
  unfold takeAck
  dsimp only
  split_ifs
  · exact hplaced.trans (each_moves _ g _)
  · exact hplaced

theorem onAck_moves : Moves c (onAck c g frame) := by
  unfold onAck
  dsimp only
  split
  · exact .of_same rfl
  · split
    · exact (each_moves _ g _).after rfl
    · split
      · exact .of_same rfl
      · split
        · split
          · exact (writeUnsubscribe_moves _ _).after rfl
          · exact .of_same rfl
        · exact (takeAck_moves _ g _).after rfl

theorem replayEarly_moves (ack : Ack) : Moves c (replayEarly c ack) :=
  (push_moves _ (.replaying _) nofun fun _ => rfl).after rfl

theorem onReset_moves : Moves c (onReset c frame) := by
  unfold onReset
  split
  · exact (each_moves _ _ _).after rfl
  · exact .refl c

theorem onUnsubscribed_moves : Moves c (onUnsubscribed c frame) := by
  unfold onUnsubscribed
  split
  · exact .refl c
  · dsimp only
    split_ifs
    · refine Moves.trans ?_ (each_moves _ _ _)
      exact (push_moves _ (.resubscribing _) nofun fun _ => rfl).after rfl
    · exact (each_moves _ _ _).after rfl

theorem resubscribeOne_moves : Moves c (resubscribeOne c g) := by
  unfold resubscribeOne
  split_ifs
  · exact .of_same rfl
  · exact sendGroup_moves c g

theorem resubscribe_moves : Moves c (resubscribe c) :=
  run_relates resubscribeOne Moves .refl (fun _ _ _ => .trans) resubscribeOne_moves c (groupRefs c)

theorem subscribe_moves (channel : String) (key : Value) :
    Moves c (subscribe opts c channel key) := by
  unfold subscribe
  dsimp only
  split
  · exact .of_same rfl
  · split_ifs
    · exact (sendGroup_moves _ _).after rfl
    · exact .of_same rfl

theorem unsubscribe_moves (sub : SubRef) : Moves c (unsubscribe c sub) := by
  unfold unsubscribe
  dsimp only
  split
  · split
    · exact .of_same rfl
    · split
      · exact .of_same rfl
      · split
        · exact .of_same rfl
        · split
          · exact (writeUnsubscribe_moves _ _).after rfl
          · exact .of_same rfl
  · exact .refl c

theorem clearReconnect_moves : Moves c (clearReconnect c) := by
  refine ⟨.of_eq rfl rfl, fun hclosed => ?_⟩
  exact ⟨⟨[], rfl, by simp⟩, fun _ => rfl, hclosed, fun _ h => (mem_filter.mp h).1, .inl rfl⟩

theorem disconnect_moves (next : Status) (h : c.status = .closed → next = .closed) :
    Moves c (disconnect c next) := by
  refine (clearReconnect_moves c).trans (Moves.trans ?_ (setStatus_moves h))
  exact push_moves _ .disconnecting nofun fun _ => rfl

theorem stop_moves : Moves c (stop c) :=
  (push_moves c .stopping nofun fun _ => rfl).trans
    (disconnect_moves _ .closed fun _ => rfl)

theorem dropSocket_moves : Moves c (dropSocket c) := by
  refine ⟨.of_eq rfl rfl, fun hclosed => ?_⟩
  exact ⟨⟨[], rfl, by simp⟩, fun _ => rfl, hclosed, fun _ h => h, .inr rfl⟩

theorem scheduleReconnect_apart : Apart c (scheduleReconnect c) := by
  have hpushed : Apart c (push c .scheduling) := push_apart c _ nofun
  exact hpushed.trans (setStatus_apart _ _)

theorem lost_closed (code : Option ℕ) (h : c.status = .closed) :
    lost opts c code = dropSocket c := by
  unfold lost
  exact if_pos (.inr h)

theorem lost_moves (code : Option ℕ) : Moves c (lost opts c code) := by
  by_cases hclosed : c.status = .closed
  · rw [lost_closed opts c code hclosed]
    exact dropSocket_moves c
  · refine ⟨?_, fun h => absurd h hclosed⟩
    have hdropped := (dropSocket_moves c).apart
    unfold lost
    dsimp only
    split_ifs
    · exact hdropped
    · exact hdropped.trans (stop_moves _).apart
    · exact hdropped.trans (scheduleReconnect_apart _)

theorem openSocket_apart : Apart c (openSocket c) := by
  refine (clearReconnect_moves c).apart.trans (Apart.trans ?_ (setStatus_apart _ _))
  exact push_apart _ .opening fun h => by cases h

theorem runFactory_apart : Apart c (runFactory c opens) := by
  have hcalled : Apart c (record { c with ready := false } .factory) :=
    (record_apart _ _ (fun h => by cases h)).after rfl rfl
  unfold runFactory
  dsimp only
  split_ifs
  · exact hcalled.trans (.of_eq rfl rfl)
  · refine hcalled.trans (Apart.trans ?_ (user_moves _ _).apart)
    exact push_apart _ .refused fun h => by cases h

theorem becomeReady_apart : Apart c (becomeReady c) := by
  refine Apart.trans ?_ (setStatus_apart _ _)
  exact (push_apart _ .becomingReady fun h => by cases h).after rfl rfl

theorem flushOne_moves (entry : Sigma fun _ : ℕ => String) : Moves c (flushOne c entry) :=
  (write_moves _ _).after rfl

theorem flush_moves : Moves c (flush c) :=
  run_relates flushOne Moves .refl (fun _ _ _ => .trans) flushOne_moves c _

theorem goLive_moves : Moves c (goLive c) := by
  have hlive : Moves c { flush (resubscribe c) with everReady := true } :=
    ((resubscribe_moves c).trans (flush_moves _)).trans (.of_same rfl)
  unfold goLive
  dsimp only
  split_ifs
  · exact hlive.trans (user_moves _ _)
  · exact hlive

theorem authenticate_apart (socket : SocketRef) : Apart c (authenticate opts c socket) := by
  unfold authenticate
  split_ifs
  · exact (user_moves c _).apart
  · exact becomeReady_apart c

theorem authResult_apart : Apart c (authResult opts c incoming) := by
  unfold authResult
  split_ifs
  · exact becomeReady_apart c
  · have hrejected : Moves c (push c .rejected) :=
      push_moves c .rejected nofun fun _ => rfl
    exact (hrejected.trans (user_moves _ _)).apart
  · exact (lost_moves opts c none).apart

theorem onResult_apart (id : ℕ) (waiter : Waiter) (incoming : Incoming) :
    Apart c (onResult opts c id waiter incoming) := by
  unfold onResult
  dsimp only
  generalize hkept : (if (waiter.once || incoming.frame.failed || !incoming.more) = true then
    { c with waiters := c.waiters.erase id } else c) = kept
  have hsame : Apart c kept := by
    rw [← hkept]
    split_ifs
    · exact .of_eq rfl rfl
    · exact .of_eq rfl rfl
  cases waiter with
  | auth => exact hsame.trans (authResult_apart opts kept incoming)
  | subscribe g => exact hsame.trans (onAck_moves kept g incoming.frame).apart
  | call | stream => exact hsame

theorem handleFrame_apart : Apart c (handleFrame opts c incoming) := by
  unfold handleFrame
  cases incoming.frame.kind with
  | ping => exact (write_moves c _).apart
  | result =>
    dsimp only
    split
    · exact .of_eq rfl rfl
    · exact onResult_apart opts c _ _ incoming
  | finish =>
    dsimp only
    split
    · exact .of_eq rfl rfl
    · exact .of_eq rfl rfl
  | clientCall =>
    dsimp only
    unfold onClientCall
    split_ifs
    · exact (user_moves c _).apart
    · exact (write_moves c _).apart
  | publish => exact (onPublish_moves opts c _).apart
  | reset => exact (onReset_moves c _).apart
  | unsubscribed => exact (onUnsubscribed_moves c _).apart
  | unknown => exact .of_eq rfl rfl

theorem enqueue_moves (id : ℕ) (text : String) : Moves c (enqueue c id text) := by
  unfold enqueue
  split_ifs
  · exact write_moves c _
  · exact .of_same rfl

theorem sendOne_moves (entry : String × Value) : Moves c (sendOne opts c entry) :=
  (enqueue_moves _ _ _).after rfl

theorem send_moves (params : List (String × Value)) : Moves c (send opts c params) := by
  unfold send
  split_ifs
  · exact .refl c
  · exact run_relates (sendOne opts) Moves .refl (fun _ _ _ => .trans) (sendOne_moves opts) c params

theorem call_moves (action : String) (params : Value) : Moves c (call opts c action params) := by
  unfold call
  dsimp only
  split_ifs
  · exact .refl c
  · exact .of_same rfl
  · exact (enqueue_moves _ _ _).after rfl

theorem pause_moves : Moves c (pause c) := by
  unfold pause
  split_ifs with hopen
  · exact disconnect_moves c .paused fun hclosed => absurd hclosed hopen
  · exact .refl c

theorem resume_moves : Moves c (resume opts c) := by
  unfold resume
  split_ifs with hclosed
  · exact .refl c
  · exact .refl c
  · refine Moves.trans ?_ (lost_moves opts _ none)
    exact push_moves c .resuming nofun fun h => absurd h hclosed
  · exact .refl c
  · exact push_moves c .resuming nofun fun h => absurd h hclosed

theorem invoke_moves {method : Method} (h : method ≠ .close) : Moves c (invoke opts c method) := by
  cases method with
  | send params => exact send_moves opts c params
  | call action params => exact call_moves opts c action params
  | subscribe channel key => exact subscribe_moves opts c channel key
  | unsubscribe sub => exact unsubscribe_moves c sub
  | pause => exact pause_moves c
  | resume => exact resume_moves opts c
  | close => exact absurd rfl h

theorem returned_moves (throws : Bool) (callback : Callback) :
    Moves c (returned c throws callback) := by
  unfold returned
  split
  · split_ifs
    · exact report_moves c (.authFailed _) nofun fun _ => rfl
    · exact .of_same rfl
  · split_ifs
    · exact report_moves c (.answering _) nofun fun _ => rfl
    · exact .of_same rfl
  · exact .refl c
  · split_ifs
    · exact user_moves c _
    · exact .refl c

theorem proceed_apart (h : point.opens = true) : Apart c (proceed opts c opens point) := by
  cases point with
  | scheduling => exact .of_eq rfl rfl
  | opening => exact runFactory_apart c opens
  | refused => exact scheduleReconnect_apart c
  | resuming => exact openSocket_apart c
  | _ => cases h

theorem proceed_moves (hopens : point.opens = false) (hclosing : point ≠ .closing) :
    Moves c (proceed opts c opens point) := by
  cases point with
  | user _ => exact .refl c
  | scheduling | opening | refused => cases hopens
  | becomingReady => exact goLive_moves c
  | disconnecting => exact lost_moves opts c _
  | stopping => exact .of_same rfl
  | closing => exact absurd rfl hclosing
  | resuming => cases hopens
  | rejected => exact stop_moves c
  | authFailed socket =>
    unfold proceed
    dsimp only
    split_ifs
    · exact lost_moves opts c none
    · exact .refl c
  | answering id => exact write_moves c _
  | telling subs seen =>
    cases subs with
    | nil => exact .refl c
    | cons sub rest =>
      refine Moves.trans ?_ (user_moves _ _)
      exact push_moves c (.telling rest seen) nofun fun _ => rfl
  | publishing g seen => exact each_moves c g seen
  | acking ack => exact replayEarly_moves c ack
  | replaying frames =>
    cases frames with
    | nil => exact .refl c
    | cons frame rest =>
      refine Moves.trans ?_ (onPublish_moves opts _ frame)
      exact push_moves c (.replaying rest) nofun fun _ => rfl
  | resubscribing g =>
    unfold proceed
    dsimp only
    split_ifs
    · exact sendGroup_moves c g
    · exact .refl c

theorem checkLiveness_moves : Moves c (checkLiveness opts c) := by
  unfold checkLiveness
  split_ifs
  · exact lost_moves opts c none
  · exact .refl c

theorem occur_spec (occurrence : Occurrence) : Apart c (occur opts c occurrence) ∧
      (c.socket = none → c.armed = [] → Moves c (occur opts c occurrence)) := by
  have hmoves : ∀ {c' : Conn}, Moves c c' →
      Apart c c' ∧ (c.socket = none → c.armed = [] → Moves c c') :=
    fun h => ⟨h.apart, fun _ _ => h⟩
  cases occurrence with
  | opened socket =>
    dsimp only [occur]
    split_ifs with hsocket
    · refine ⟨(authenticate_apart opts _ _).after rfl rfl, fun hnone => ?_⟩
      rw [hnone] at hsocket
      cases hsocket
    · exact hmoves (.refl c)
  | message socket incoming =>
    dsimp only [occur]
    split_ifs with hsocket
    · refine ⟨?_, fun hnone => ?_⟩
      · cases incoming with
        | none => exact .of_eq rfl rfl
        | some incoming => exact (handleFrame_apart opts _ incoming).after rfl rfl
      · rw [hnone] at hsocket
        cases hsocket
    · exact hmoves (.refl c)
  | closed socket code =>
    dsimp only [occur]
    split_ifs
    · exact hmoves (lost_moves opts c code)
    · exact hmoves (.refl c)
  | reconnect timer =>
    dsimp only [occur]
    split_ifs with hin
    · refine ⟨(openSocket_apart _).after rfl rfl, fun _ hnil => ?_⟩
      rw [hnil] at hin
      cases hin
    · exact hmoves (.refl c)
  | watchdog timer =>
    dsimp only [occur]
    split_ifs
    · exact hmoves (checkLiveness_moves opts c)
    · exact hmoves (.refl c)
  | callTimeout id =>
    dsimp only [occur]
    split_ifs
    · exact hmoves (.of_same rfl)
    · exact hmoves (.refl c)
  | authSettled socket fails =>
    dsimp only [occur]
    split_ifs
    · refine hmoves ?_
      exact (report_moves _ (.authFailed socket) nofun fun _ => rfl).after rfl
    · exact hmoves ((request_moves _ _ _).after rfl)
    · exact hmoves (.of_same rfl)
    · exact hmoves (.refl c)
  | actionSettled id fails =>
    dsimp only [occur]
    split_ifs
    · refine hmoves ?_
      exact (report_moves _ (.answering id) nofun fun _ => rfl).after rfl
    · exact hmoves ((write_moves _ _).after rfl)
    · exact hmoves (.refl c)
  | tick elapsed => exact hmoves (.of_same rfl)

def Closing (c : Conn) : Prop := .closing ∈ c.stack ∨ .closeReturned ∈ c.trace

structure Sealed (c : Conn) : Prop where
  status : c.status = .closed
  armed : c.armed = []
  calm : ∀ point ∈ c.stack, point.opens = false

/-- The socket will be lost before the next `close` returns. -/
def LostFirst : List Point → Prop
  | [] => False
  | .disconnecting :: _ => True
  | .closing :: _ => False
  | _ :: rest => LostFirst rest

structure Inv (c : Conn) : Prop where
  isSealed : Closing c → Sealed c
  leaving : .closing ∈ c.stack → c.socket = none ∨ LostFirst c.stack
  gone : .closeReturned ∈ c.trace → c.socket = none
  quiet : c.trace.Pairwise fun earlier later => earlier = .closeReturned → later = .closeReturned

theorem Inv.final {c : Conn} (h : Inv c) : Final c :=
  ⟨fun hreturned => (h.isSealed (.inr hreturned)).status, h.quiet⟩

theorem lostFirst_cons {rest : List Point} (hclosing : point ≠ .closing) (h : LostFirst rest) :
    LostFirst (point :: rest) := by
  cases point with
  | disconnecting => trivial
  | closing => exact absurd rfl hclosing
  | _ => exact h

theorem lostFirst_append {above stack : List Point} (hclosing : .closing ∉ above)
    (h : LostFirst stack) : LostFirst (above ++ stack) := by
  induction above with
  | nil => exact h
  | cons point rest ih =>
    rw [mem_cons, not_or] at hclosing
    exact lostFirst_cons point (Ne.symm hclosing.1) (ih hclosing.2)

theorem quiet_of_not_mem (trace : List Event) (h : .closeReturned ∉ trace) :
    trace.Pairwise fun earlier later => earlier = .closeReturned → later = .closeReturned := by
  refine pairwise_of_forall_mem_list fun earlier hearlier later _ hreturned => ?_
  rw [hreturned] at hearlier
  exact absurd hearlier h

section
variable {c c' : Conn}

theorem Apart.closing (apart : Apart c c') (h : .closing ∈ c'.stack) : .closing ∈ c.stack := by
  obtain ⟨above, hstack, habove⟩ := apart.stack
  rw [hstack, mem_append] at h
  exact h.resolve_left habove

theorem Apart.returned (apart : Apart c c') (h : .closeReturned ∈ c'.trace) :
    .closeReturned ∈ c.trace := by
  obtain ⟨more, htrace, hmore⟩ := apart.trace
  rw [htrace, mem_append] at h
  exact h.resolve_right hmore

theorem Inv.of_apart (hidle : ¬ Closing c) (apart : Apart c c') : Inv c' := by
  have hnot : ¬ Closing c' := by
    rintro (h | h)
    · exact hidle (.inl (apart.closing h))
    · exact hidle (.inr (apart.returned h))
  rw [Closing, not_or] at hnot
  refine ⟨fun h => ?_, fun h => absurd h hnot.1, fun h => absurd h hnot.2,
    quiet_of_not_mem c'.trace hnot.2⟩
  exact absurd h (not_or.mpr hnot)

theorem Inv.moves (h : Inv c) (moves : Moves c c') : Inv c' := by
  by_cases hclosing : Closing c
  · obtain ⟨hstatus, harmed, hcalm⟩ := h.isSealed hclosing
    have calm := moves.calm hstatus
    refine ⟨fun _ => ⟨calm.status, ?_, ?_⟩, fun hin => ?_, fun hin => ?_, ?_⟩
    · refine eq_nil_iff_forall_not_mem.mpr fun timer htimer => ?_
      have hold := calm.armed timer htimer
      rw [harmed] at hold
      cases hold
    · obtain ⟨above, hstack, habove⟩ := calm.stack
      intro point hpoint
      rw [hstack, mem_append] at hpoint
      exact hpoint.elim (habove point) (hcalm point)
    · obtain hnone | hfirst := h.leaving (moves.apart.closing hin)
      · exact .inl (calm.socket.elim (fun hsame => hsame.trans hnone) id)
      · obtain ⟨above, hstack, habove⟩ := moves.apart.stack
        rw [hstack]
        exact .inr (lostFirst_append habove hfirst)
    · have hnone := h.gone (moves.apart.returned hin)
      exact calm.socket.elim (fun hsame => hsame.trans hnone) id
    · by_cases hreturned : .closeReturned ∈ c.trace
      · rw [calm.trace (h.gone hreturned)]
        exact h.quiet
      · exact quiet_of_not_mem _ fun hin => hreturned (moves.apart.returned hin)
  · exact .of_apart hclosing moves.apart

variable {point : Point} {rest : List Point}

theorem closing_of_pop (hstack : c.stack = point :: rest) (h : Closing { c with stack := rest }) :
    Closing c := by
  refine h.imp (fun hin => ?_) id
  rw [hstack]
  exact mem_cons_of_mem point hin

theorem Sealed.pop (h : Sealed c) (hstack : c.stack = point :: rest) :
    Sealed { c with stack := rest } := by
  refine ⟨h.status, h.armed, fun other hother => h.calm other ?_⟩
  rw [hstack]
  exact mem_cons_of_mem point hother

theorem Inv.pop {point : Point} {rest : List Point} (h : Inv c) (hstack : c.stack = point :: rest)
    (hclosing : point ≠ .closing) (hkeeps : point ≠ .disconnecting) :
    Inv { c with stack := rest } := by
  refine ⟨fun hin => (h.isSealed (closing_of_pop hstack hin)).pop hstack, fun hin => ?_, h.gone,
    h.quiet⟩
  have hbefore : .closing ∈ c.stack := by
    rw [hstack]
    exact mem_cons_of_mem point hin
  refine (h.leaving hbefore).imp id fun hfirst => ?_
  rw [hstack] at hfirst
  cases point with
  | disconnecting => exact absurd rfl hkeeps
  | closing => exact absurd rfl hclosing
  | _ => exact hfirst

theorem not_closing_of_opens (h : Inv c) (hstack : c.stack = point :: rest)
    (hopens : point.opens = true) : ¬ Closing { c with stack := rest } := by
  intro hclosing
  have hsealed := h.isSealed (closing_of_pop hstack hclosing)
  have hcalm := hsealed.calm point (by rw [hstack]; exact mem_cons_self)
  rw [hopens] at hcalm
  cases hcalm

theorem disconnecting_inv (opts : Options) {rest : List Point} (h : Inv c)
    (hstack : c.stack = .disconnecting :: rest) :
    Inv (lost opts { c with stack := rest } (some 1000)) := by
  by_cases hclosing : Closing c
  · have hsealed := (h.isSealed hclosing).pop hstack
    rw [lost_closed opts { c with stack := rest } _ hsealed.status]
    exact ⟨fun _ => ⟨hsealed.status, hsealed.armed, hsealed.calm⟩, fun _ => .inl rfl, fun _ => rfl,
      h.quiet⟩
  · refine .of_apart (fun hafter => ?_) (lost_moves opts _ _).apart
    exact hclosing (closing_of_pop hstack hafter)

theorem closing_inv (h : Inv c) (hstack : c.stack = .closing :: rest) :
    Inv (record { c with stack := rest } .closeReturned) := by
  have hin : .closing ∈ c.stack := by
    rw [hstack]
    exact mem_cons_self
  have hsealed := (h.isSealed (.inl hin)).pop hstack
  have hnone : c.socket = none := by
    refine (h.leaving hin).resolve_right fun hfirst => ?_
    rw [hstack] at hfirst
    exact hfirst
  refine ⟨fun _ => ⟨hsealed.status, hsealed.armed, hsealed.calm⟩, fun _ => .inl hnone,
    fun _ => hnone, ?_⟩
  refine pairwise_append.mpr ⟨h.quiet, pairwise_singleton _ _, ?_⟩
  intro earlier _ later hlater _
  exact mem_singleton.mp hlater

theorem close_stack (c : Conn) :
    (close c).stack = .disconnecting :: .stopping :: .closing :: c.stack ∨
    (close c).stack =
      .user (.onStatus .closed) :: .disconnecting :: .stopping :: .closing :: c.stack := by
  unfold close stop disconnect setStatus
  split_ifs
  · exact .inl rfl
  · exact .inr rfl

theorem close_trace (c : Conn) :
    (close c).trace = if c.status = .closed then c.trace else c.trace ++ [.status .closed] := by
  unfold close stop disconnect setStatus
  change Conn.trace (if c.status = .closed then _ else _) = _
  split_ifs <;> rfl

theorem close_inv (h : Inv c) (hidle : ClosesIdle c (.invoke .close)) : Inv (close c) := by
  obtain ⟨hcalm, htimers⟩ := hidle
  have hstatus : (close c).status = .closed := by
    unfold close stop disconnect setStatus
    split_ifs with hclosed
    · exact hclosed
    · rfl
  have hsocket : (close c).socket = c.socket := by
    unfold close stop disconnect setStatus
    split_ifs <;> rfl
  have harmed : (close c).armed = [] := by
    have hcleared : (close c).armed = c.armed.filter fun timer => some timer ≠ c.reconnectTimer := by
      unfold close stop disconnect setStatus
      split_ifs <;> rfl
    rw [hcleared]
    refine filter_eq_nil_iff.mpr fun timer htimer => ?_
    simpa using htimers timer htimer
  have hreturned : .closeReturned ∈ (close c).trace → .closeReturned ∈ c.trace := by
    rw [close_trace]
    split_ifs
    · exact id
    · simp
  refine ⟨fun _ => ⟨hstatus, harmed, fun point hpoint => ?_⟩, fun _ => .inr ?_, fun hin => ?_, ?_⟩
  · by_cases hold : point ∈ c.stack
    · exact hcalm point hold
    · obtain hstack | hstack := close_stack c
      · rw [hstack] at hpoint
        simp only [mem_cons, hold, or_false] at hpoint
        rcases hpoint with rfl | rfl | rfl <;> rfl
      · rw [hstack] at hpoint
        simp only [mem_cons, hold, or_false] at hpoint
        rcases hpoint with rfl | rfl | rfl | rfl <;> rfl
  · obtain hstack | hstack := close_stack c <;> rw [hstack] <;> trivial
  · rw [hsocket]
    exact h.gone (hreturned hin)
  · by_cases hbefore : .closeReturned ∈ c.trace
    · rw [close_trace, if_pos (h.isSealed (.inr hbefore)).status]
      exact h.quiet
    · exact quiet_of_not_mem _ fun hin => hbefore (hreturned hin)

end

variable (opts : Options) (c : Conn)

theorem invoke_inv {method : Method} (h : Inv c) (hidle : ClosesIdle c (.invoke method)) :
    Inv (invoke opts c method) := by
  by_cases hclose : method = .close
  · subst hclose
    exact close_inv h hidle
  · exact h.moves (invoke_moves opts c hclose)

theorem occur_inv (occurrence : Occurrence) (h : Inv c) (hstack : c.stack = []) :
    Inv (occur opts c occurrence) := by
  obtain ⟨hapart, hmoves⟩ := occur_spec opts c occurrence
  by_cases hclosing : Closing c
  · have hreturned : .closeReturned ∈ c.trace := by
      refine hclosing.resolve_left fun hin => ?_
      rw [hstack] at hin
      cases hin
    exact h.moves (hmoves (h.gone hreturned) (h.isSealed hclosing).armed)
  · exact .of_apart hclosing hapart

theorem proceed_inv (opens : Bool) {point : Point} {rest : List Point} (h : Inv c)
    (hstack : c.stack = point :: rest) :
    Inv (proceed opts { c with stack := rest } opens point) := by
  by_cases hopens : point.opens = true
  · exact .of_apart (not_closing_of_opens h hstack hopens) (proceed_apart opts _ opens point hopens)
  · rw [Bool.not_eq_true] at hopens
    by_cases hclosing : point = .closing
    · subst hclosing
      exact closing_inv h hstack
    · by_cases hdisconnecting : point = .disconnecting
      · subst hdisconnecting
        exact disconnecting_inv opts h hstack
      · exact (h.pop hstack hclosing hdisconnecting).moves
          (proceed_moves opts _ opens point hopens hclosing)

theorem step_inv (a : Act) (h : Inv c) (hidle : ClosesIdle c a) : Inv (step opts c a) := by
  unfold step
  split
  · rename_i hstack
    exact occur_inv opts c _ h hstack
  · exact invoke_inv opts c h hidle
  · exact invoke_inv opts c h hidle
  · rename_i callback rest throws hstack
    exact (h.pop hstack nofun fun h => by cases h).moves
      (returned_moves _ throws callback)
  · exact h
  · rename_i point rest opens _ hstack
    exact proceed_inv opts c opens h hstack
  · exact h

theorem connectSocket_inv : Inv connectSocket := by
  refine .of_apart (c := newConn) ?_ (openSocket_apart newConn)
  rintro (h | h)
  · cases h
  · cases h

/-- If every `close` of a run finds no code under way that would open a socket and no
forgotten timer, then in every state of the run `close` is final. -/
theorem close_final (acts : List Act) (hidle : Meets (step opts) ClosesIdle connectSocket acts) :
    ∀ first, first <+: acts → Final (run (step opts) connectSocket first) := by
  rintro first ⟨rest, rfl⟩
  have hfirst := ((meets_append (step opts) ClosesIdle connectSocket first rest).mp hidle).1
  exact (guarded_run_invariant (step opts) ClosesIdle Inv (step_inv opts) connectSocket first
    connectSocket_inv hfirst).final

/-- No auth, no handlers, the default limits. -/
def plainOptions : Options :=
  ⟨fun _ => "null", fun _ _ _ => "", false, true, 60000, 65536, fun _ => false, fun _ => false⟩

def readyActs : List Act :=
  [.proceed true, .occur (.opened 0), .return false, .proceed false]

/-- `close` from outside, with its status callback. -/
def closeActs : List Act :=
  [.invoke .close, .return false, .proceed false, .proceed false, .proceed false]

theorem closed_from_outside_final : Meets (step plainOptions) ClosesIdle connectSocket
      (readyActs ++ closeActs ++ [.invoke .resume, .occur (.opened 0)]) ∧
    Final (run (step plainOptions) connectSocket
      (readyActs ++ closeActs ++ [.invoke .resume, .occur (.opened 0)])) := by
  have hidle : Meets (step plainOptions) ClosesIdle connectSocket
      (readyActs ++ closeActs ++ [.invoke .resume, .occur (.opened 0)]) := by
    decide +kernel
  exact ⟨hidle, close_final plainOptions _ hidle _ (prefix_refl _)⟩

/-- The socket is lost, and the callback told `connecting` calls `close`. The timer is
armed after that; it fires, and the factory runs. -/
def reopenActs : List Act :=
  readyActs ++ [.occur (.closed 0 (some 1006))] ++ closeActs ++
    [.return false, .proceed false, .occur (.reconnect 1), .return false, .proceed true]

theorem closed_in_callback_reopens :
    ¬ Final (run (step plainOptions) connectSocket reopenActs) := by
  intro hfinal
  have htrace : (run (step plainOptions) connectSocket reopenActs).trace =
      [.factory, .status .open, .status .connecting, .status .closed, .closeReturned,
        .status .connecting, .factory] := rfl
  have hreturned : .closeReturned ∈ (run (step plainOptions) connectSocket reopenActs).trace := by
    rw [htrace]
    simp
  have hstatus := hfinal.status hreturned
  revert hstatus
  decide +kernel

end Stakit.SocketConnection
