import Stakit.SessionIdentity

set_option autoImplicit false

namespace Stakit.SessionRequests
open PubsubHub PubsubTopic RouterError TransitionRuns List

section
variable {R : Type} (router : Router)

def isAuth (frame : Inbound) : Bool := (requestOf frame).any fun request => request.2 = .auth

/-- The outgoing queue takes another frame, or nobody receives any more. -/
def hasRoom (sys : System R) : Bool :=
  !sys.mailbox.receiving || sys.mailbox.queue.length < sys.mailbox.capacity

/-- An identity is bound while no other frame is past its check; a frame is checked while
no visit is between its section and its stored flag; and the answer to a frame that did
not win finds room. -/
def inTurn (door : Door R) : Move R → Bool
  | .session (.act n _) =>
    match door.sys.threads[n]? with
    | none => true
    | some t =>
      match t.point with
      | .bind _ identity =>
        !admitted router door.sys identity || door.sys.threads.all fun t => !t.point.closing
      | .checkConflict true => door.visits.all fun visit => !visit.binding
      | .reply _ _ =>
        !isAuth t.frame || door.wins.all (fun attempt => attempt = .frame n) || hasRoom door.sys
      | _ => true
  | .visit k =>
    match door.visits[k]? with
    | some (.bind _ identity) =>
      !admitted router door.sys identity || door.sys.threads.all fun t => !t.point.inFlight
    | _ => true
  | _ => true

def InTurn (door : Door R) (move : Move R) : Prop := inTurn router door move = true

instance (door : Door R) (move : Move R) : Decidable (InTurn router door move) :=
  inferInstanceAs (Decidable (_ = true))

/-- Where a thread works on an `auth` frame. -/
def Point.attempts : Point R → Bool
  | .claim | .checkConflict _ | .releaseConflict | .permit (.auth _) | .hook _ | .bind _ _ => true
  | .announce _ _ _ _ | .storeReq _ | .storeAuthenticated | .settle _ | .unclaim | .close _ => true
  | _ => false

def attemptOf (door : Door R) : Move R → Option Attempt
  | .session (.act n _) =>
    match door.sys.threads[n]? with
    | none => none
    | some t =>
      match t.point with
      | .reply _ _ => if isAuth t.frame then some (.frame n) else none
      | point => if point.attempts then some (.frame n) else none
  | .visit k => some (.visit k)
  | _ => none

/-- A step of an attempt after another one won neither closes the session nor changes its
request context or identity. -/
def Spares (door : Door R) (move : Move R) : Prop :=
  ∀ attempt, attemptOf door move = some attempt → ∀ winner ∈ door.wins, winner ≠ attempt →
    let after := enter router door move
    (door.sys.mailbox.closer = none → after.sys.mailbox.closer = none) ∧
    after.sys.session.req = door.sys.session.req ∧
    identityOf after.sys.hub door.sys.session.conn = identityOf door.sys.hub door.sys.session.conn

/-- Once an attempt won, no other frame is past its check. -/
def Clear (door : Door R) : Prop :=
  ∀ winner ∈ door.wins, ∀ n t, door.sys.threads[n]? = some t → winner ≠ .frame n →
    t.point.inFlight = false

theorem inFlight_claims {point : Point R} (h : point.inFlight = true) :
    point.claims = true ∨ point.closing = true := by
  cases point with
  | permit work => cases work <;> first | exact .inl rfl | cases h
  | reply result after => exact .inr h
  | settle outcome | hook _ | bind _ _ => exact .inl rfl
  | close _ => exact .inr rfl
  | _ => cases h

theorem claims_once {door : Door R} (orderly : Orderly door) {n m : ℕ} {t other : Thread R}
    (hn : door.sys.threads[n]? = some t) (hm : door.sys.threads[m]? = some other)
    (ht : t.point.claims = true) (hother : other.point.claims = true) : n = m := by
  by_contra hne
  have hcount := countP_set_add (fun t : Thread R => t.point.claims) door.sys.threads n
    ⟨t.frame, t.permit, .done⟩ t hn
  have hrest : (door.sys.threads.set n ⟨t.frame, t.permit, .done⟩)[m]? = some other := by
    rw [List.getElem?_set_ne hne]
    exact hm
  have hpos : 0 < (door.sys.threads.set n ⟨t.frame, t.permit, .done⟩).countP
      fun t => t.point.claims :=
    countP_pos_iff.mpr ⟨other, mem_of_getElem? hrest, hother⟩
  have hclaims := orderly.claims
  have hle : door.sys.authenticating.toNat ≤ 1 := Bool.toNat_le _
  rw [ht] at hcount
  change _ + 1 = _ + 0 at hcount
  omega

theorem checked_stored {door : Door R} (orderly : Orderly door) {n : ℕ} {t : Thread R}
    (hget : door.sys.threads[n]? = some t) (hpoint : t.point = .checkConflict true)
    (hvisits : door.visits.all (fun visit => !visit.binding) = true) {winner : Attempt}
    (hwinner : winner ∈ door.wins) (hne : winner ≠ .frame n) :
    door.sys.session.authenticated = true := by
  cases winner with
  | frame m =>
    obtain ⟨other, hother, hbinding | hauth⟩ := orderly.known m hwinner
    · have hclaims : other.point.claims = true := by
        cases hp : other.point <;> rw [hp] at hbinding <;> first | rfl | cases hbinding
      have heq := claims_once orderly hother hget hclaims (by rw [hpoint]; rfl)
      exact absurd (congrArg Attempt.frame heq) hne
    · exact hauth
  | visit k =>
    obtain ⟨visit, hvisit, hbinding | hauth⟩ := orderly.welcomed k hwinner
    · have hno := all_eq_true.mp hvisits visit (mem_of_getElem? hvisit)
      rw [hbinding] at hno
      cases hno
    · exact hauth

section
variable (door : Door R) (orderly : Orderly door) (clear : Clear door)
include orderly clear

theorem clear_turn {sys : System R} {n : ℕ} {t : Thread R} {point : Point R}
    (hget : door.sys.threads[n]? = some t) (turn : Turn router door.sys sys n t point)
    (hturn : t.point = .checkConflict true → door.visits.all (fun visit => !visit.binding) = true) :
    Clear { door with sys := sys } := by
  intro winner hwinner m other hother hne
  change sys.threads[m]? = some other at hother
  rcases turned_get router sys n t point hget turn m with ⟨rfl, permit, hnew⟩ | ⟨_, hsame⟩
  · rw [hnew] at hother
    rw [← Option.some.inj hother]
    refine Bool.eq_false_iff.mpr fun hflight => ?_
    rcases turn.checked hflight with hwas | ⟨hcheck, hopen⟩
    · rw [clear winner hwinner m t hget hne] at hwas
      cases hwas
    · rw [checked_stored orderly hget hcheck (hturn hcheck) hwinner hne] at hopen
      cases hopen
  · exact clear winner hwinner m other (hsame ▸ hother) hne

omit clear in
theorem clear_admitted {n : ℕ} {t : Thread R} {req : R} {identity : Identity}
    (hget : door.sys.threads[n]? = some t) (hpoint : t.point = .bind req identity)
    (h : admitted router door.sys identity = true)
    (hturn : door.sys.threads.all (fun t => !t.point.closing) = true) :
    Clear { door with
      sys := bindStep router door.sys n t req identity
      wins := door.wins ++ [.frame n] } := by
  obtain ⟨point, turn⟩ := turn_bind router door.sys n t hpoint
  rw [no_wins router orderly identity h]
  intro winner hwinner m other hother hne
  rw [mem_singleton.mp hwinner] at hne
  change (bindStep router door.sys n t req identity).threads[m]? = some other at hother
  rcases turned_get router _ n t point hget turn m with ⟨rfl, _⟩ | ⟨hm, hsame⟩
  · exact absurd rfl hne
  · rw [hsame] at hother
    refine Bool.eq_false_iff.mpr fun hflight => ?_
    rcases inFlight_claims hflight with hclaims | hclosing
    · exact hm (claims_once orderly hother hget hclaims (by rw [hpoint]; rfl))
    · have hno := all_eq_true.mp hturn other (mem_of_getElem? hother)
      rw [hclosing] at hno
      cases hno

omit orderly clear in
theorem clear_welcomed {sys : System R} (visits : List (Visit R)) (wins : List Attempt)
    (hthreads : sys.threads = door.sys.threads)
    (hturn : door.sys.threads.all (fun t => !t.point.inFlight) = true) :
    Clear ⟨sys, visits, wins⟩ := by
  intro winner _ n t hget _
  change sys.threads[n]? = some t at hget
  have hno := all_eq_true.mp hturn t (mem_of_getElem? (hthreads ▸ hget))
  cases hflight : t.point.inFlight with
  | false => rfl
  | true =>
    rw [hflight] at hno
    cases hno

omit orderly in
theorem clear_beside (sys : System R) (visits : List (Visit R))
    (hthreads : sys.threads = door.sys.threads) : Clear ⟨sys, visits, door.wins⟩ := by
  intro winner hwinner n t hget hne
  change sys.threads[n]? = some t at hget
  exact clear winner hwinner n t (hthreads ▸ hget) hne

omit orderly in
theorem clear_arrive (frame : Inbound) :
    Clear { door with sys := step router door.sys (.arrive frame) } := by
  intro winner hwinner n t hget hne
  change (door.sys.threads ++ [_])[n]? = some t at hget
  rcases Nat.lt_or_ge n door.sys.threads.length with hlt | hge
  · rw [List.getElem?_append_left hlt] at hget
    exact clear winner hwinner n t hget hne
  · rw [List.getElem?_append_right hge] at hget
    rw [mem_singleton.mp (mem_of_getElem? hget)]
    rfl

omit orderly clear in
theorem visitStep_threads (sys : System R) (visit : Visit R) :
    (visitStep router sys visit).1.threads = sys.threads := by
  cases visit with
  | bind req identity =>
    cases hadmitted : admitted router sys identity with
    | true =>
      obtain ⟨_, _, _, _, _, heq⟩ := bindVisit_admitted router sys req identity hadmitted
      rw [visitStep, heq]
      rfl
    | false =>
      obtain ⟨_, heq⟩ := bindVisit_refused router sys req identity hadmitted
      rw [visitStep, heq]
  | announce _ _ _ _ | storeReq _ | storeAuthenticated | returned _ => rfl

theorem clear_enter {move : Move R} (hturn : InTurn router door move) :
    Clear (enter router door move) := by
  cases move with
  | call req identity => exact clear_beside door clear door.sys _ rfl
  | visit k =>
    cases hget : door.visits[k]? with
    | none =>
      rw [enter_unseen router hget]
      exact clear
    | some visit =>
      rcases visit_cases router hget with
        ⟨req, identity, rfl, hyes, heq⟩ | ⟨_, heq⟩
      · rw [heq]
        have hno : door.sys.threads.all (fun t => !t.point.inFlight) = true := by
          simpa only [InTurn, inTurn, hget, hyes, Bool.not_true, Bool.false_or] using hturn
        exact clear_welcomed door _ _ (visitStep_threads router door.sys (.bind req identity)) hno
      · rw [heq]
        exact clear_beside door clear _ _ (visitStep_threads router door.sys visit)
  | session act =>
    cases hown : ofAdapter door.sys.session.conn act with
    | true =>
      rw [enter_adapter router hown]
      exact clear
    | false =>
      cases act with
      | act n awaited =>
        cases hget : door.sys.threads[n]? with
        | none =>
          rw [enter_unknown router awaited hget]
          exact clear
        | some t =>
          rcases act_cases router n awaited t hget with
            ⟨req, identity, hpoint, hyes, heq⟩ | ⟨_, heq⟩
          · rw [heq]
            refine clear_admitted router door orderly hget hpoint hyes ?_
            simpa only [InTurn, inTurn, hget, hpoint, hyes, Bool.not_true, Bool.false_or]
              using hturn
          · obtain ⟨point, turn⟩ := advance_turn router door.sys n t awaited hget
              (held_of_claims orderly n t hget)
            rw [heq]
            refine clear_turn router door orderly clear hget turn fun hcheck => ?_
            simpa only [InTurn, inTurn, hget, hcheck] using hturn
      | arrive frame =>
        rw [enter_other router _ (by exact nofun) hown]
        exact clear_arrive router door clear frame
      | ping =>
        rw [enter_other router _ (by exact nofun) hown]
        exact clear_beside door clear _ _ (pushNow_beside door.sys none .ping).threads
      | clientCall id name params =>
        rw [enter_other router _ (by exact nofun) hown]
        exact clear_beside door clear _ _ rfl
      | storeReq req | storeAuthenticated => cases hown
      | outside s =>
        rw [enter_other router _ (by exact nofun) hown]
        exact clear_beside door clear _ _ rfl

end

theorem trySend_closer (peers : ConnId → Peer) (id : ConnId) (frame : Frame) :
    ((trySend peers id frame).1 id).closer = (peers id).closer := by
  unfold trySend
  split_ifs
  · dsimp only
    rw [Function.update_self]
  · rfl

variable (door : Door R) (sys : System R)

theorem pushNow_room (source : Option ℕ) (frame : Outgoing) (room : hasRoom sys = true) :
    pushNow sys source frame = (push sys source frame).1 := by
  unfold pushNow
  dsimp only
  rw [if_neg]
  rintro ⟨hfull, hreceiving⟩
  have hlength : sys.mailbox.queue.length < sys.mailbox.capacity := by
    simpa only [hasRoom, hreceiving, Bool.not_true, Bool.false_or, decide_eq_true_eq] using room
  have hsent : (push sys source frame).2 = true := by
    simp only [push, trySend]
    rw [if_pos ⟨hreceiving, hlength⟩]
  rw [hsent] at hfull
  cases hfull

def Unharmed (sys after : System R) : Prop :=
  (sys.mailbox.closer = none → after.mailbox.closer = none) ∧ after.session.req = sys.session.req ∧
    identityOf after.hub sys.session.conn = identityOf sys.hub sys.session.conn

theorem unharmed_of_eq (after : System R) (hhub : after.hub = sys.hub)
    (hsession : after.session = sys.session) : Unharmed sys after := by
  refine ⟨fun h => ?_, by rw [hsession], by rw [hhub]⟩
  rw [System.mailbox, hhub, hsession]
  exact h

theorem unharmed_push (after : System R) (source : Option ℕ) (frame : Outgoing)
    (hhub : after.hub = (push sys source frame).1.hub)
    (hsession : after.session = (push sys source frame).1.session) : Unharmed sys after := by
  have hconn : after.session = sys.session := hsession
  refine ⟨fun h => ?_, by rw [hconn], by rw [hhub]; rfl⟩
  rw [System.mailbox, hhub, hconn]
  exact (trySend_closer sys.hub.peers sys.session.conn frame.wire).trans h

theorem unharmed_advance (n : ℕ) {t : Thread R} (awaited : Awaited R)
    (hflight : t.point.inFlight = false) (hbound : t.point.bound = false)
    (hattempts : (∃ result after, t.point = .reply result after ∧ hasRoom sys = true) ∨
      t.point.attempts = true) :
    Unharmed sys (advance router sys n t awaited) := by
  rcases hattempts with ⟨result, after, hpoint, room⟩ | hattempts
  · simp only [advance, hpoint, replyStep, pushNow_room sys (some n) _ room]
    cases after with
    | nothing | unclaim => exact unharmed_push sys _ (some n) _ rfl rfl
    | close reason =>
      rw [hpoint] at hflight
      cases hflight
  · unfold advance
    cases hpoint : t.point with
    | claim =>
      dsimp only [claimStep]
      split_ifs <;> exact unharmed_of_eq sys _ rfl rfl
    | checkConflict claimed =>
      dsimp only [checkConflictStep]
      split_ifs <;> exact unharmed_of_eq sys _ rfl rfl
    | releaseConflict | unclaim => exact unharmed_of_eq sys _ rfl rfl
    | permit work =>
      rw [hpoint] at hflight hattempts
      cases work with
      | auth params => cases hflight
      | call _ _ | subscribe _ _ => cases hattempts
    | settle outcome =>
      rw [hpoint] at hflight hbound
      cases outcome with
      | ok done => cases hbound
      | error error => cases hflight
    | hook _ | bind _ _ | close _ =>
      rw [hpoint] at hflight
      cases hflight
    | announce _ _ _ _ | storeReq _ | storeAuthenticated =>
      rw [hpoint] at hbound
      cases hbound
    | _ =>
      rw [hpoint] at hattempts
      cases hattempts

theorem unharmed_visit (visit : Visit R) (hbound : visit.binding = false)
    (lost : ∀ req identity, visit = .bind req identity → admitted router sys identity = false) :
    Unharmed sys (visitStep router sys visit).1 := by
  cases visit with
  | bind req identity =>
    obtain ⟨error, heq⟩ := bindVisit_refused router sys req identity (lost req identity rfl)
    rw [visitStep, heq]
    exact unharmed_of_eq sys sys rfl rfl
  | returned outcome => exact unharmed_of_eq sys sys rfl rfl
  | announce _ _ _ _ | storeReq _ | storeAuthenticated => cases hbound

theorem one_winner (orderly : Orderly door) {first second : Attempt} (hfirst : first ∈ door.wins)
    (hsecond : second ∈ door.wins) : first = second := by
  have hsingle := orderly.single
  rcases hwins : door.wins with _ | ⟨winner, rest⟩
  · rw [hwins] at hfirst
    cases hfirst
  · rw [hwins, length_cons] at hsingle
    rw [length_eq_zero_iff.mp (Nat.le_zero.mp (Nat.le_of_succ_le_succ hsingle))] at hwins
    rw [hwins] at hfirst hsecond
    rw [mem_singleton.mp hfirst, mem_singleton.mp hsecond]

theorem attemptOf_act {n : ℕ} {awaited : Awaited R} {t : Thread R}
    (hget : door.sys.threads[n]? = some t) {attempt : Attempt}
    (h : attemptOf door (.session (.act n awaited)) = some attempt) :
    attempt = .frame n ∧ ((∃ result after, t.point = .reply result after ∧ isAuth t.frame = true) ∨
        t.point.attempts = true) := by
  simp only [attemptOf, hget] at h
  split at h
  · rename_i result after hpoint
    split_ifs at h with hauth
    exact ⟨(Option.some.inj h).symm, .inl ⟨result, after, hpoint, hauth⟩⟩
  · split_ifs at h with hattempts
    exact ⟨(Option.some.inj h).symm, .inr hattempts⟩

theorem spares_enter (orderly : Orderly door) (clear : Clear door) {move : Move R}
    (hturn : InTurn router door move) : Spares router door move := by
  intro attempt hattempt winner hwinner hne
  change Unharmed door.sys (enter router door move).sys
  cases move with
  | call req identity => cases hattempt
  | visit k =>
    obtain rfl := Option.some.inj hattempt
    cases hget : door.visits[k]? with
    | none =>
      rw [enter_unseen router hget]
      exact unharmed_of_eq _ _ rfl rfl
    | some visit =>
      have hheld := orderly.held (ne_nil_of_mem hwinner)
      rcases visit_cases router hget with
        ⟨req, identity, _, hyes, _⟩ | ⟨hlost, heq⟩
      · rw [not_admitted router door.sys identity hheld] at hyes
        cases hyes
      · rw [heq]
        refine unharmed_visit router door.sys visit ?_ hlost
        refine Bool.eq_false_iff.mpr fun hbinding => hne ?_
        refine one_winner door orderly hwinner (orderly.visits k visit hget ?_)
        cases visit <;> first | rfl | cases hbinding
  | session act =>
    cases act with
    | act n awaited =>
      cases hget : door.sys.threads[n]? with
      | none =>
        simp only [attemptOf, hget] at hattempt
        cases hattempt
      | some t =>
        obtain ⟨rfl, hpoint⟩ := attemptOf_act door hget hattempt
        have hflight := clear winner hwinner n t hget hne
        have hbound : t.point.bound = false := Bool.eq_false_iff.mpr fun hyes =>
          hne (one_winner door orderly hwinner (orderly.frames n t hget hyes))
        rcases act_cases router n awaited t hget with
          ⟨req, identity, hbind, _, _⟩ | ⟨_, heq⟩
        · rw [hbind] at hflight
          cases hflight
        · rw [heq]
          refine unharmed_advance router door.sys n awaited hflight hbound ?_
          rcases hpoint with ⟨result, after, hreply, hauth⟩ | hattempts
          · refine .inl ⟨result, after, hreply, ?_⟩
            have hothers : door.wins.all (fun attempt => attempt = .frame n) = false := by
              refine Bool.eq_false_iff.mpr fun hall => hne ?_
              exact of_decide_eq_true (all_eq_true.mp hall winner hwinner)
            simpa only [InTurn, inTurn, hget, hreply, hauth, hothers, Bool.not_true,
              Bool.false_or] using hturn
          · exact .inr hattempts
    | arrive _ | ping | clientCall _ _ _ | storeReq _ | storeAuthenticated | outside _ =>
      cases hattempt

/-- Frames and visits in any order, beside anything else on the session: at most one of
them succeeds; and where every step is taken in turn, no other attempt closes the session
or changes its request context or identity once one has succeeded. -/
theorem one_attempt_authenticates (h : Hub) (outgoingBuffer : ℕ) (req : R)
    (moves : List (Move R)) :
    (∀ first, first <+: moves →
      let door := run (enter router) (openDoor router h outgoingBuffer req) first
      door.wins.length ≤ 1 ∧
      (∀ n t, door.sys.threads[n]? = some t → t.point.bound = true → .frame n ∈ door.wins) ∧
      ∀ k visit, door.visits[k]? = some visit → visit.bound = true → .visit k ∈ door.wins) ∧
    (Meets (enter router) (InTurn router) (openDoor router h outgoingBuffer req) moves →
      Meets (enter router) (Spares router) (openDoor router h outgoingBuffer req) moves) := by
  have hopen := orderly_open router h outgoingBuffer req
  constructor
  · intro first _
    have orderly := run_invariant (enter router) Orderly (orderly_enter router) _ first hopen
    exact ⟨orderly.single, orderly.frames, orderly.visits⟩
  · intro hmeets
    have hclear : Clear (openDoor router h outgoingBuffer req) := nofun
    exact meets_of_guarded (enter router) (InTurn router) (Spares router)
      (fun door => Orderly door ∧ Clear door)
      (fun door move hinv hturn => ⟨orderly_enter router door move hinv.1,
        clear_enter router door hinv.1 hinv.2 hturn⟩)
      (fun door move hinv hturn => spares_enter router door hinv.1 hinv.2 hturn) _ moves
      ⟨hopen, hclear⟩ hmeets

end

def authRouter : Router := { plainRouter with auth := true }

def authDoor : Door ℕ := openDoor authRouter (newHub (fun _ => 0) 0) 8 0

def authFrame (id : ℕ) : Inbound := ⟨some "auth", some id, none, none, none, some "1", none⟩

def alice : Identity := ⟨some "alice", none⟩

/-- Thread 0 handles its frame up to its check. -/
def claiming : List (Move ℕ) :=
  [.session (.arrive (authFrame 1)), .session (.act 0 .nothing), .session (.act 0 (.touched true)),
    .session (.act 0 .nothing)]

/-- The adapter's whole call. -/
def visiting : List (Move ℕ) := [.call 7 alice, .visit 0, .visit 0, .visit 0, .visit 0]

/-- The frame's hook runs while the adapter authenticates the session. -/
def overtaken : List (Move ℕ) :=
  claiming ++ [.session (.act 0 .nothing), .session (.act 0 .nothing)] ++ visiting ++
    [.session (.act 0 (.hooked (.ok (8, alice)))), .session (.act 0 .nothing),
      .session (.act 0 .nothing), .session (.act 0 .nothing)]

theorem overtaken_frame_closes : let door := run (enter authRouter) authDoor overtaken
    let after := enter authRouter door (.session (.act 0 .nothing))
    door.wins = [.visit 0] ∧ door.visits = [.returned (.ok ())] ∧
      door.sys.session.authenticated = true ∧ door.sys.session.req = 7 ∧
      attemptOf door (.session (.act 0 .nothing)) = some (.frame 0) ∧
      door.sys.mailbox.closer = none ∧ after.sys.mailbox.closer = some .unauthorized := by
  decide +kernel

/-- The frame is checked after the adapter authenticated the session. -/
def duplicate : List (Move ℕ) :=
  visiting ++ claiming ++ [.session (.act 0 .nothing), .session (.act 0 .nothing),
    .session (.act 0 .nothing)]

theorem duplicate_frame_spares : Meets (enter authRouter) (Spares authRouter) authDoor duplicate ∧
      (run (enter authRouter) authDoor duplicate).wins = [.visit 0] ∧
      (run (enter authRouter) authDoor duplicate).sys.mailbox.closer = none := by
  refine ⟨?_, by decide +kernel, by decide +kernel⟩
  exact (one_attempt_authenticates authRouter (newHub (fun _ => 0) 0) 8 0 duplicate).2
    (by change Meets (enter authRouter) (InTurn authRouter) authDoor duplicate; decide +kernel)

end Stakit.SessionRequests
