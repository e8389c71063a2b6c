import Stakit.PubsubHubTrace
import Stakit.SocketGaps

set_option autoImplicit false

namespace Stakit.PubsubGaps
open PubsubTopic EpochStreams TransitionRuns List
open PubsubHub (Hub ConnId Section Event newHub QueuesRecorded Recorded Traced Honest)
open SocketSubscriptions (Client GroupRef SubRef Seen PublishMessage ErrorBody malformedError
  newClient Watched Genuine)

/-- The ack in the `data` of a result. Other results answer no subscribe. -/
def ackOf : PubsubHub.Data → Option SocketSubscriptions.Ack
  | .cursor topic position => some ⟨topic, position.epoch, position.seq⟩
  | _ => none

def wire : PubsubHub.Frame → SocketSubscriptions.Frame
  | .publish topic name params position =>
    ⟨.publish, none, some name, some params, false, none, malformedError, some topic,
      some position.seq, some position.epoch, none⟩
  | .reset topic position =>
    ⟨.reset, none, none, none, false, none, malformedError, some topic, some position.seq,
      some position.epoch, none⟩
  | .unsubscribed topic reason =>
    ⟨.unsubscribed, none, none, none, false, none, malformedError, some topic, none, none,
      some reason⟩
  | .result id data =>
    ⟨.result, some id, none, none, false, ackOf data, malformedError, none, none, none, none⟩
  | .failure id error =>
    ⟨.result, some id, none, none, true, none, ⟨error.code, error.message⟩, none, none, none, none⟩
  | .other _ => ⟨.unknown, none, none, none, false, none, malformedError, none, none, none, none⟩

structure System where
  hub : Hub
  client : Client
  conn : Option ConnId
  /-- Frames that left the connection's queue, oldest first. -/
  flight : List PubsubHub.Frame

def start (hasher : Topic → ℕ) (epochBase : ℕ) : System :=
  ⟨newHub hasher epochBase, newClient, none, []⟩

inductive Act where
  | hub (s : Section)
  | connect (capacity : ℕ)
  | ready
  | read
  | lost
  | stop
  | subscribe (channel : String) (key : Value)
  | unsubscribe (sub : SubRef)

def taken (s : System) : Section → List PubsubHub.Frame
  | .receive id => if s.conn = some id then (s.hub.peers id).queue.head?.toList else []
  | _ => []

section
variable (stableKey : Value → String)

def clientStep (s : System) (a : SocketSubscriptions.Act) : System :=
  { s with client := SocketSubscriptions.step stableKey s.client a }

def step (s : System) : Act → System
  | .hub sec => { s with hub := PubsubHub.step s.hub sec, flight := s.flight ++ taken s sec }
  | .connect capacity =>
    match s.conn with
    | some _ => s
    | none =>
      { s with hub := PubsubHub.step s.hub (.register capacity), conn := some s.hub.nextConn }
  | .ready => if s.conn.isSome && !s.client.ready then clientStep stableKey s .ready else s
  | .read =>
    match s.flight with
    | [] => s
    | frame :: flight => { clientStep stableKey s (.frame (wire frame)) with flight := flight }
  | .lost => { clientStep stableKey s .lost with conn := none, flight := [] }
  | .stop => { clientStep stableKey s .stop with conn := none, flight := [] }
  | .subscribe channel key => clientStep stableKey s (.subscribe channel key)
  | .unsubscribe sub => clientStep stableKey s (.unsubscribe sub)

end

/-- The sections of the hub are those its sessions run. -/
def Served : Act → Prop
  | .hub sec => Honest sec
  | _ => True

def published (m : PublishMessage) : Event :=
  .published m.topic (m.name, m.params.getD "") ⟨m.epoch, m.seq⟩

def eventOf (topic : Topic) : Seen → Option Event
  | .acked epoch seq => some (.acked topic ⟨epoch, seq⟩)
  | .message m => some (published m)
  | _ => none

/-- Wherever `first` stands, `next` is the first publish of its topic after it. -/
def Consecutive (trace : List Event) (first next : Event) : Prop :=
  first ∈ trace ∧ ∀ before after, trace = before ++ first :: after →
    ∃ quiet rest, after = quiet ++ next :: rest ∧
      ∀ item position, .published next.stream item position ∉ quiet

/-- The subscription was told `x`, and `m` was its next message. -/
def Handed (s : System) (sub : SubRef) (x : Seen) (between : List Seen) (m : PublishMessage) :
    Prop :=
  (∃ before after, s.client.log sub = before ++ x :: (between ++ .message m :: after)) ∧
  ∀ other, .message other ∉ between

/-- A gap was reported in between, or nothing else was published on the topic since
the ack or message `x`. -/
def Told (s : System) (x : Seen) (between : List Seen) (m : PublishMessage) : Prop :=
  (∃ reason, .gap reason ∈ between) ∨
  ∀ first, eventOf m.topic x = some first → Consecutive s.hub.trace first (published m)

def NoSilentGap (s : System) : Prop :=
  ∀ sub x between m, Handed s sub x between m → Told s x between m

/-- What the hub's trace lets a client hear. -/
def Sent (trace : List Event) : Seen → Prop
  | .acked epoch seq => ∃ topic, .acked topic ⟨epoch, seq⟩ ∈ trace
  | .message m => published m ∈ trace
  | _ => True

theorem Sent.mono {trace trace' : List Event} (hextends : trace <+: trace') (x : Seen)
    (hsent : Sent trace x) : Sent trace' x := by
  cases x with
  | acked epoch seq =>
    obtain ⟨topic, hin⟩ := hsent
    exact ⟨topic, hextends.subset hin⟩
  | message m => exact hextends.subset hsent
  | _ => trivial

theorem wire_genuine {trace : List Event} {frame : PubsubHub.Frame}
    (hrecorded : Recorded trace frame) : Genuine (Sent trace) (wire frame) := by
  cases frame with
  | publish topic name params position => exact ⟨fun _ => hrecorded, by simp [wire]⟩
  | result id data =>
    refine ⟨by simp [wire], fun _ ack hack => ?_⟩
    cases data with
    | cursor topic position =>
      cases hack
      exact ⟨topic, hrecorded⟩
    | _ => cases hack
  | failure id error | _ => exact ⟨by simp [wire], by simp [wire]⟩

structure Consistent (s : System) : Prop where
  traced : Traced s.hub
  queues : QueuesRecorded s.hub
  flight : ∀ frame ∈ s.flight, Recorded s.hub.trace frame
  watched : Watched (Sent s.hub.trace) s.client

theorem start_consistent (hasher : Topic → ℕ) (epochBase : ℕ) :
    Consistent (start hasher epochBase) where
  traced := PubsubHub.newHub_traced hasher epochBase
  queues who frame hframe := by cases hframe
  flight frame hframe := by cases hframe
  watched := SocketSubscriptions.newClient_watched

theorem hubStep_consistent {s : System} (sec : Section) (conn : Option ConnId)
    (hhonest : Honest sec) (hs : Consistent s) :
    Consistent { s with
      hub := PubsubHub.step s.hub sec
      conn := conn
      flight := s.flight ++ taken s sec } := by
  have hmoves := PubsubHub.step_moves s.hub sec
  refine ⟨hmoves.traced hs.traced, PubsubHub.step_recorded s.hub sec hhonest hs.queues, ?_, ?_⟩
  · intro frame hframe
    refine Recorded.mono hmoves.trace_extends ?_
    obtain hframe | hframe := mem_append.mp hframe
    · exact hs.flight frame hframe
    · cases sec with
      | receive id =>
        simp only [taken] at hframe
        split_ifs at hframe
        · exact hs.queues id frame (mem_of_mem_head? (Option.mem_toList.mp hframe))
        · cases hframe
      | _ => cases hframe
  · exact hs.watched.mono (Sent.mono hmoves.trace_extends)

section
variable (stableKey : Value → String)

theorem clientStep_consistent {s : System} (a : SocketSubscriptions.Act) (conn : Option ConnId)
    (flight : List PubsubHub.Frame) (hs : Consistent s)
    (hflight : ∀ frame ∈ flight, frame ∈ s.flight)
    (hframe : ∀ frame, a = .frame frame → Genuine (Sent s.hub.trace) frame) :
    Consistent { clientStep stableKey s a with conn := conn, flight := flight } where
  traced := hs.traced
  queues := hs.queues
  flight frame hin := hs.flight frame (hflight frame hin)
  watched := SocketSubscriptions.step_watched _ stableKey s.client a hs.watched hframe

theorem step_consistent (s : System) (a : Act) (hs : Consistent s) (hserved : Served a) :
    Consistent (step stableKey s a) := by
  have hclient : ∀ a, (∀ frame, a ≠ .frame frame) → Consistent (clientStep stableKey s a) :=
    fun a ha => clientStep_consistent stableKey a s.conn s.flight hs (fun _ h => h)
      fun frame heq => absurd heq (ha frame)
  cases a with
  | hub sec => exact hubStep_consistent sec s.conn hserved hs
  | connect capacity =>
    unfold step
    cases s.conn with
    | some id => exact hs
    | none =>
      have hregistered := hubStep_consistent (.register capacity) (some s.hub.nextConn) trivial hs
      simp only [taken, append_nil] at hregistered
      exact hregistered
  | ready =>
    unfold step
    dsimp only
    split_ifs
    · exact hclient .ready (by simp)
    · exact hs
  | read =>
    unfold step
    cases hflight : s.flight with
    | nil => exact hs
    | cons frame flight =>
      have hin : frame ∈ s.flight := by simp [hflight]
      refine clientStep_consistent stableKey _ s.conn flight hs (fun other hother => ?_) ?_
      · rw [hflight]
        exact mem_cons_of_mem _ hother
      · intro read heq
        cases heq
        exact wire_genuine (hs.flight frame hin)
  | lost => exact clientStep_consistent stableKey .lost none [] hs (by simp) (by simp)
  | stop => exact clientStep_consistent stableKey .stop none [] hs (by simp) (by simp)
  | subscribe channel key => exact hclient (.subscribe channel key) (by simp)
  | unsubscribe sub => exact hclient (.unsubscribe sub) (by simp)

theorem eventOf_position {topic : Topic} {x : Seen} {first : Event}
    (hfirst : eventOf topic x = some first) : x.position = some first.position := by
  cases x with
  | acked epoch seq | message m =>
    cases hfirst
    rfl
  | _ => cases hfirst

theorem heard_event {trace : List Event} {whole : Topic → ℕ → Prop}
    (hseq : Sequenced whole trace) (hnodup : (openings trace).Nodup)
    {next : Event} (hnext : next ∈ trace) {x : Seen} {first : Event}
    (hfirst : eventOf next.stream x = some first) {before : List Seen}
    (hheard : SocketSubscriptions.Heard (Sent trace) before x)
    (hepoch : next.position.epoch = first.position.epoch) :
    first ∈ trace ∧ first.stream = next.stream := by
  have hsame : ∀ e ∈ trace, e.position.epoch = first.position.epoch → e.stream = next.stream := by
    intro e he hsame
    obtain ⟨opened, hopened, hopening⟩ := hseq.opened_of_mem e he
    obtain ⟨opened', hopened', hopening'⟩ := hseq.opened_of_mem next hnext
    refine stream_of_epoch hnodup hopened hopened' ?_
    rw [hopening, hopening', hsame, hepoch]
  cases x with
  | acked epoch seq =>
    cases hfirst
    obtain ⟨other, hin⟩ := hheard
    have hother : other = next.stream := hsame _ hin rfl
    rw [hother] at hin
    exact ⟨hin, rfl⟩
  | message m =>
    cases hfirst
    exact ⟨hheard.1, hsame _ hheard.1 rfl⟩
  | _ => cases hfirst

/-- With distinct epochs, no subscription misses a publish in silence on a topic
whose sequence number did not wrap. -/
theorem no_silent_gap (hasher : Topic → ℕ) (epochBase : ℕ) (acts : List Act)
    (hserved : ∀ a ∈ acts, Served a)
    (hdistinct : PubsubHub.DistinctEpochs (run (step stableKey) (start hasher epochBase) acts).hub)
    (sub : SubRef) (x : Seen) (between : List Seen) (m : PublishMessage)
    (hhanded : Handed (run (step stableKey) (start hasher epochBase) acts) sub x between m)
    (hunwrapped : PubsubHub.Unwrapped
      (run (step stableKey) (start hasher epochBase) acts).hub.trace m.topic m.epoch) :
    Told (run (step stableKey) (start hasher epochBase) acts) x between m := by
  have hs := guarded_run_invariant (step stableKey) (fun _ a => Served a) Consistent
    (step_consistent stableKey) _ acts (start_consistent hasher epochBase)
    (meets_of_forall _ _ _ acts fun _ a ha => hserved a ha)
  generalize run (step stableKey) (start hasher epochBase) acts = s
    at hs hdistinct hhanded hunwrapped
  have hnodup := hs.traced.distinct hdistinct
  have hseq := PubsubHub.sequenced_of_numbered s.hub.trace hs.traced.numbered hnodup
    (PubsubHub.Unwrapped s.hub.trace) fun _ _ h => h
  obtain ⟨⟨before, after, hlog⟩, hmessages⟩ := hhanded
  by_cases hgap : ∃ reason, .gap reason ∈ between
  · exact .inl hgap
  · refine .inr fun first hfirst => ?_
    have hsound := hs.watched.sound sub
    have hx := hsound before x _ hlog
    have hm := hsound (before ++ x :: between) (.message m) after (by rw [hlog]; simp)
    have hopen : SocketSubscriptions.Open (before ++ x :: between) x := by
      refine ⟨before, between, rfl, fun y hy => ?_⟩
      cases y with
      | message other => exact absurd hy (hmessages other)
      | gap reason => exact absurd ⟨reason, hy⟩ hgap
      | _ => exact fun hloud => hloud
    obtain ⟨hnext, hcontinues⟩ := hm
    obtain ⟨hepoch, hnumber⟩ :=
      hcontinues x first.position hopen (eventOf_position hfirst)
    obtain ⟨hin, htopic⟩ :=
      heard_event hseq hnodup hnext hfirst hx hepoch
    have hpublished : published m = .published first.stream (m.name, m.params.getD "")
        ⟨first.position.epoch, first.position.seq + 1⟩ := by
      rw [htopic, ← hepoch, ← hnumber]
      rfl
    have hwhole : PubsubHub.Unwrapped s.hub.trace first.stream first.position.epoch := by
      rw [htopic, ← hepoch]
      exact hunwrapped
    refine ⟨hin, fun start rest hsplit => ?_⟩
    change published m ∈ s.hub.trace at hnext
    rw [hpublished] at hnext ⊢
    exact hseq.next_published first hwhole _ hnext start rest hsplit

end

/-- The subscribe a session runs for the client's request. -/
def watch (id : ℕ) : PubsubHub.Subscribe :=
  ⟨true, 100, some 0, some fun position => .result id (.cursor "room:7" position)⟩

theorem watch_honest (conn : ConnId) (id : ℕ) : Honest (.subscribe conn "room:7" (watch id)) := by
  intro ack hack
  exact ⟨id, (Option.some.inj hack).symm⟩

theorem auto_honest (conn : ConnId) (topic : Topic) :
    Honest (.subscribe conn topic PubsubHub.auto) := by
  intro ack hack
  cases hack

/-- The client reads two publishes, loses its connection with the topic's last
subscriber, and comes back. -/
def reconnecting : List Act :=
  [.connect 4, .ready, .subscribe "room" (.string "7"), .hub (.subscribe 1 "room:7" (watch 1)),
    .hub (.fanOut "room:7" "a" "1"), .hub (.fanOut "room:7" "b" "2"), .hub (.receive 1), .read,
    .hub (.receive 1), .read, .hub (.receive 1), .read, .lost, .hub (.detach 1), .connect 4, .ready,
    .hub (.subscribe 2 "room:7" (watch 2)), .hub (.fanOut "room:7" "c" "3"), .hub (.receive 2),
    .read, .hub (.receive 2), .read]

theorem unwrapped_of_length (trace : List Event) (hshort : trace.length ≤ PubsubHub.jsSafe)
    (topic : Topic) (epoch : ℕ) : PubsubHub.Unwrapped trace topic epoch :=
  countP_le_length.trans hshort

theorem reconnecting_told :
    (run (step SocketSubscriptions.stringKey) (start (fun _ => 0) 0) reconnecting).client.log 0 =
      [.acked 0 0, .message ⟨"room:7", "a", some "1", 1, 0⟩,
        .message ⟨"room:7", "b", some "2", 2, 0⟩, .gap .resubscribe, .acked 1 0,
        .message ⟨"room:7", "c", some "3", 1, 1⟩] ∧
    Told (run (step SocketSubscriptions.stringKey) (start (fun _ => 0) 0) reconnecting)
      (.message ⟨"room:7", "a", some "1", 1, 0⟩) [] ⟨"room:7", "b", some "2", 2, 0⟩ := by
  have hlog : (run (step SocketSubscriptions.stringKey) (start (fun _ => 0) 0)
      reconnecting).client.log 0 =
      [.acked 0 0, .message ⟨"room:7", "a", some "1", 1, 0⟩,
        .message ⟨"room:7", "b", some "2", 2, 0⟩, .gap .resubscribe, .acked 1 0,
        .message ⟨"room:7", "c", some "3", 1, 1⟩] := by decide
  refine ⟨hlog, no_silent_gap _ _ _ _ ?_ ?_ 0 _ _ _ ?_ ?_⟩
  · simp only [reconnecting, forall_mem_cons, Served, watch_honest, true_and]
    simp [Honest]
  · unfold PubsubHub.DistinctEpochs
    decide
  · exact ⟨⟨[.acked 0 0], _, hlog⟩, by simp⟩
  · exact unwrapped_of_length _ (by decide) _ _

/-- The client is acknowledged, another connection keeps the topic open, and the
application unsubscribes the client's session. -/
def watching : List Act :=
  [.connect 4, .ready, .subscribe "room" (.string "7"), .hub (.register 4),
    .hub (.subscribe 2 "room:7" PubsubHub.auto), .hub (.subscribe 1 "room:7" (watch 1)),
    .hub (.receive 1), .read, .hub (.unsubscribe 1 "room:7")]

/-- A publish the client's session is not subscribed to. -/
def unheard : List Act := [.hub (.fanOut "room:7" "a" "1"), .hub (.receive 2)]

/-- The application subscribes the session again, and publishes. -/
def rejoining : List Act :=
  [.hub (.subscribe 1 "room:7" PubsubHub.auto), .hub (.fanOut "room:7" "b" "2"), .hub (.receive 1),
    .read]

def watched : System :=
  run (step SocketSubscriptions.stringKey) (start (fun _ => 0) 0) watching

def spun (seq : ℕ) (more : List Event) : System :=
  { watched with
    hub := { watched.hub with
      index := watched.hub.index.insert "room:7" ⟨[2], nodup_singleton 2, ⟨0, seq⟩⟩
      trace := watched.hub.trace ++ more } }

theorem unheard_spun (seq : ℕ) (more : List Event) :
    run (step SocketSubscriptions.stringKey) (spun seq more) unheard =
      spun ((seq + 1) &&& PubsubHub.jsSafe)
        (more ++ [.published "room:7" ("a", "1") ⟨0, (seq + 1) &&& PubsubHub.jsSafe⟩]) := by
  have hpeers : (run (step SocketSubscriptions.stringKey) (spun seq more) unheard).hub.peers =
      watched.hub.peers := by
    change Function.update (Function.update watched.hub.peers 2 _) 2 _ = _
    rw [Function.update_idem]
    exact Function.update_eq_self 2 watched.hub.peers
  generalize hnext : spun ((seq + 1) &&& PubsubHub.jsSafe)
    (more ++ [.published "room:7" ("a", "1") ⟨0, (seq + 1) &&& PubsubHub.jsSafe⟩]) = next
  have hrest : run (step SocketSubscriptions.stringKey) (spun seq more) unheard =
      { next with hub := { next.hub with
          peers := (run (step SocketSubscriptions.stringKey) (spun seq more) unheard).hub.peers } } := by
    rw [← hnext]
    rfl
  rw [hrest, hpeers, ← hnext]
  rfl

theorem unheard_run (n seq : ℕ) (more : List Event) (hseq : seq < 2 ^ 53) :
    ∃ missed : List Event, missed.length = n ∧
      (∀ e ∈ missed, ∃ position, e = .published "room:7" ("a", "1") position) ∧
      run (step SocketSubscriptions.stringKey) (spun seq more) (List.replicate n unheard).flatten =
        spun ((seq + n) % 2 ^ 53) (more ++ missed) := by
  induction n generalizing seq more with
  | zero =>
    refine ⟨[], rfl, by simp, ?_⟩
    rw [Nat.add_zero, Nat.mod_eq_of_lt hseq, append_nil]
    rfl
  | succ n ih =>
    have hnext : (seq + 1) &&& PubsubHub.jsSafe = (seq + 1) % 2 ^ 53 :=
      Nat.and_two_pow_sub_one_eq_mod (seq + 1) 53
    obtain ⟨missed, hlength, hall, hrun⟩ := ih ((seq + 1) % 2 ^ 53)
      (more ++ [.published "room:7" ("a", "1") ⟨0, (seq + 1) % 2 ^ 53⟩]) (Nat.mod_lt _ (by decide))
    refine ⟨.published "room:7" ("a", "1") ⟨0, (seq + 1) % 2 ^ 53⟩ :: missed, by simp [hlength],
      ?_, ?_⟩
    · intro e he
      obtain rfl | he := mem_cons.mp he
      · exact ⟨_, rfl⟩
      · exact hall e he
    · rw [replicate_succ, flatten_cons, run_append, unheard_spun, hnext, hrun,
        Nat.mod_add_mod, append_assoc, singleton_append, Nat.add_assoc, Nat.add_comm 1 n]

/-- After 2^53 publishes the topic is at the client's position again. -/
def wrapping : List Act := watching ++ ((List.replicate (2 ^ 53) unheard).flatten ++ rejoining)

theorem wrapping_run : ∃ missed : List Event, missed ≠ [] ∧
      (∀ e ∈ missed, ∃ position, e = .published "room:7" ("a", "1") position) ∧
      run (step SocketSubscriptions.stringKey) (start (fun _ => 0) 0) wrapping =
        run (step SocketSubscriptions.stringKey) (spun 0 missed) rejoining := by
  obtain ⟨missed, hlength, hall, hrun⟩ := unheard_run (2 ^ 53) 0 [] (by decide)
  refine ⟨missed, ?_, hall, ?_⟩
  · rintro rfl
    cases hlength
  · unfold wrapping
    rw [run_append, run_append]
    change run _ (run _ watched _) _ = _
    have hstart : watched = spun 0 [] := rfl
    rw [hstart, hrun, Nat.zero_add, Nat.mod_self, nil_append]

theorem wrapping_served : ∀ a ∈ wrapping, Served a := by
  have hbefore : ∀ a ∈ watching, Served a := by
    simp only [watching, forall_mem_cons, Served, watch_honest, auto_honest, true_and]
    simp [Honest]
  have hunheard : ∀ a ∈ unheard, Served a := by
    simp [unheard, Served, Honest]
  have hafter : ∀ a ∈ rejoining, Served a := by
    simp only [rejoining, forall_mem_cons, Served, auto_honest, true_and]
    simp [Honest]
  intro a ha
  unfold wrapping at ha
  rw [mem_append, mem_append, mem_flatten] at ha
  obtain ha | ⟨acts, hacts, ha⟩ | ha := ha
  · exact hbefore a ha
  · rw [eq_of_mem_replicate hacts] at ha
    exact hunheard a ha
  · exact hafter a ha

theorem wrapping_silent_gap : (∀ a ∈ wrapping, Served a) ∧
    PubsubHub.DistinctEpochs
      (run (step SocketSubscriptions.stringKey) (start (fun _ => 0) 0) wrapping).hub ∧
    ¬ NoSilentGap (run (step SocketSubscriptions.stringKey) (start (fun _ => 0) 0) wrapping) := by
  obtain ⟨missed, hmissed, hall, hrun⟩ := wrapping_run
  rw [hrun]
  refine ⟨wrapping_served, ?_, fun hno => ?_⟩
  · intro i hi j hj _
    have hone : (run (step SocketSubscriptions.stringKey) (spun 0 missed) rejoining).hub.nextEpoch =
      1 := rfl
    omega
  · obtain ⟨reason, hgap⟩ | hnext := hno 0 (.acked 0 0) [] ⟨"room:7", "b", some "2", 1, 0⟩
      ⟨⟨[], [], rfl⟩, by simp⟩
    · cases hgap
    · obtain ⟨_, hnext⟩ := hnext (.acked "room:7" ⟨0, 0⟩) rfl
      obtain ⟨quiet, rest, hsplit, hquiet⟩ := hnext [.opened "room:7" ⟨0, 0⟩]
        (missed ++ [.published "room:7" ("b", "2") ⟨0, 1⟩]) rfl
      obtain ⟨e, missed, rfl⟩ := exists_cons_of_ne_nil hmissed
      obtain ⟨position, rfl⟩ := hall e (by simp)
      cases quiet with
      | nil =>
        have hhead := (List.cons.inj hsplit).1
        simp [published] at hhead
      | cons other quiet =>
        have hhead := (List.cons.inj hsplit).1
        exact hquiet ("a", "1") position (by rw [← hhead]; simp [published, Event.stream])

end Stakit.PubsubGaps
