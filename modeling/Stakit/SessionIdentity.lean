import Stakit.SessionAuthentication

set_option autoImplicit false

namespace Stakit.SessionRequests
open PubsubHub PubsubTopic RouterError TransitionRuns List

def Held (h : Hub) (id : ConnId) : Prop :=
  ∀ bound, identityOf h id = some bound → bound.authenticated = true

theorem step_held {h : Hub} (s : Section) {id : ConnId} (known : id < h.nextConn)
    (held : Held h id) : Held (PubsubHub.step h s) id := by
  intro bound hbound
  rcases step_identity_cases h s id with
    hsame | hnone | ⟨_, _, hnew, _⟩ | ⟨_, _, _, _, _, _, _, _, _, hclaimed⟩
  · exact held bound (hsame ▸ hbound)
  · rw [hnone] at hbound
    cases hbound
  · exact absurd known (Nat.not_lt.mpr hnew.ge)
  · rw [hclaimed] at hbound
    rw [← Option.some.inj hbound]

theorem reached_held {h after : Hub} {id : ConnId} (known : id < h.nextConn) (held : Held h id)
    (reached : Reached h after) : Held after id := by
  obtain ⟨sections, rfl⟩ := reached
  have hinv := run_invariant PubsubHub.step (fun h => id < h.nextConn ∧ Held h id)
    (fun h s hs => ⟨Nat.lt_of_lt_of_le hs.1 (step_advances h s).nextConn,
      step_held s hs.1 hs.2⟩) h sections ⟨known, held⟩
  exact hinv.2

section
variable {R : Type} (router : Router)

variable (sys : System R) (req : R) (identity : Identity)

/-- What the hub answers: it binds the identity of a connection that is not authenticated,
or it refuses and nothing changed. -/
theorem admitted_cases : (admitted router sys identity = true ∧ ¬Held sys.hub sys.session.conn ∧
      ∃ userTopic deviceTopic h superseded slow,
        identityTopics identity = .ok (userTopic, deviceTopic) ∧
        authenticateLocked sys.hub sys.session.conn identity router.maxConnectionsPerUser
          userTopic deviceTopic = (h, superseded, slow, .ok ()) ∧
        Held h sys.session.conn) ∨
    (admitted router sys identity = false ∧ ((∃ error, identityTopics identity = .error error) ∨
        ∃ userTopic deviceTopic error, identityTopics identity = .ok (userTopic, deviceTopic) ∧
          authenticateLocked sys.hub sys.session.conn identity router.maxConnectionsPerUser
            userTopic deviceTopic = (sys.hub, none, [], .error error))) := by
  unfold admitted
  cases htopics : identityTopics identity with
  | error error => exact .inr ⟨rfl, .inl ⟨error, rfl⟩⟩
  | ok topics =>
    obtain ⟨userTopic, deviceTopic⟩ := topics
    dsimp only
    rcases authenticateLocked_cases sys.hub sys.session.conn identity
      router.maxConnectionsPerUser userTopic deviceTopic with
      ⟨error, hrefused⟩ | ⟨conn, hconn, hauth, _, _, hbound⟩
    · rw [hrefused]
      exact .inr ⟨rfl, .inr ⟨userTopic, deviceTopic, error, rfl, hrefused⟩⟩
    · rw [hbound]
      refine .inl ⟨rfl, fun held => ?_, userTopic, deviceTopic, _, _, _, rfl, hbound,
        fun bound h => ?_⟩
      · have hidentity : identityOf sys.hub sys.session.conn = some (boundOf conn) := by
          rw [identityOf, hconn]
          rfl
        have hyes := held _ hidentity
        rw [show (boundOf conn).authenticated = conn.authenticated from rfl, hauth] at hyes
        cases hyes
      · rw [bound_identity, if_pos rfl] at h
        rw [← Option.some.inj h]

theorem bindStep_admitted (n : ℕ) (t : Thread R) (req : R) {identity : Identity}
    (h : admitted router sys identity = true) :
    ∃ after superseded slow deviceTopic, Held after sys.session.conn ∧
      bindStep router sys n t req identity =
        goTo (perform sys (some n) after) n t (.announce req superseded slow deviceTopic) := by
  rcases admitted_cases router sys identity with
    ⟨_, _, userTopic, deviceTopic, after, superseded, slow, htopics, hlocked, hheld⟩ | ⟨hno, _⟩
  · exact ⟨after, superseded, slow, deviceTopic, hheld, by simp only [bindStep, htopics, hlocked]⟩
  · rw [h] at hno
    cases hno

theorem perform_same (source : Option ℕ) : perform sys source sys.hub = sys := by
  have hnone : gained sys.hub sys.hub sys.session.conn = [] := drop_length
  rw [perform, hnone, map_nil, append_nil]

theorem bindVisit_admitted (h : admitted router sys identity = true) :
    ∃ after superseded slow deviceTopic, Held after sys.session.conn ∧
      bindVisit router sys req identity =
        (perform sys none after, .announce req superseded slow deviceTopic) := by
  rcases admitted_cases router sys identity with
    ⟨_, _, userTopic, deviceTopic, after, superseded, slow, htopics, hlocked, hheld⟩ | ⟨hno, _⟩
  · exact ⟨after, superseded, slow, deviceTopic, hheld, by simp only [bindVisit, htopics, hlocked]⟩
  · rw [h] at hno
    cases hno

theorem bindVisit_refused (h : admitted router sys identity = false) :
    ∃ error, bindVisit router sys req identity = (sys, .returned (.error error)) := by
  rcases admitted_cases router sys identity with
    ⟨hyes, _⟩ | ⟨_, ⟨error, htopics⟩ | ⟨userTopic, deviceTopic, error, htopics, hlocked⟩⟩
  · rw [h] at hyes
    cases hyes
  · exact ⟨error, by simp only [bindVisit, htopics]⟩
  · exact ⟨error, by simp only [bindVisit, htopics, hlocked, perform_same]⟩

theorem not_admitted (held : Held sys.hub sys.session.conn) :
    admitted router sys identity = false := by
  rcases admitted_cases router sys identity with ⟨_, hnot, _⟩ | ⟨hno, _⟩
  · exact absurd held hnot
  · exact hno

theorem bindVisit_hub : (bindVisit router sys req identity).1.hub =
      authenticateSection sys.hub sys.session.conn identity router.maxConnectionsPerUser := by
  unfold bindVisit authenticateSection
  cases htopics : identityTopics identity with
  | error error => rfl
  | ok topics =>
    dsimp only
    rcases authenticateLocked sys.hub sys.session.conn identity router.maxConnectionsPerUser
      topics.1 topics.2 with ⟨h, superseded, slow, error | bound⟩ <;> rfl

theorem visitStep_reached (visit : Visit R) :
    Reached sys.hub (visitStep router sys visit).1.hub := by
  cases visit with
  | bind req identity =>
    change Reached _ (bindVisit router sys req identity).1.hub
    rw [bindVisit_hub]
    exact .single sys.hub (.authenticate sys.session.conn identity router.maxConnectionsPerUser)
  | announce req superseded slow deviceTopic =>
    exact announce_reached sys 0 ⟨⟨none, none, none, none, none, none, none⟩, false, .done⟩ req
      superseded slow deviceTopic
  | storeReq req | storeAuthenticated | returned outcome => exact .refl _

structure Orderly (door : Door R) : Prop where
  registered : door.sys.session.conn < door.sys.hub.nextConn
  claims : door.sys.threads.countP (fun t => t.point.claims) = door.sys.authenticating.toNat
  single : door.wins.length ≤ 1
  held : door.wins ≠ [] → Held door.sys.hub door.sys.session.conn
  frames : ∀ n t, door.sys.threads[n]? = some t → t.point.bound = true → .frame n ∈ door.wins
  visits : ∀ k visit, door.visits[k]? = some visit → visit.bound = true → .visit k ∈ door.wins
  known : ∀ n, .frame n ∈ door.wins → ∃ t, door.sys.threads[n]? = some t ∧
    (t.point.binding = true ∨ door.sys.session.authenticated = true)
  welcomed : ∀ k, .visit k ∈ door.wins → ∃ visit, door.visits[k]? = some visit ∧
    (visit.binding = true ∨ door.sys.session.authenticated = true)

theorem orderly_open (h : Hub) (outgoingBuffer : ℕ) (req : R) :
    Orderly (openDoor router h outgoingBuffer req) where
  registered := Nat.lt_succ_self _
  claims := rfl
  single := Nat.zero_le _
  held := fun h => absurd rfl h
  frames := fun _ _ h => (by cases h)
  visits := fun _ _ h => (by cases h)
  known := fun _ h => (by cases h)
  welcomed := fun _ h => (by cases h)

section
variable {door : Door R} (orderly : Orderly door)
include orderly

variable (sys : System R) (n : ℕ) (t : Thread R) (req : R) (identity : Identity) (point : Point R)

theorem orderly_hub (hthreads : sys.threads = door.sys.threads)
    (hsession : sys.session = door.sys.session)
    (hheld : sys.authenticating = door.sys.authenticating)
    (reached : Reached door.sys.hub sys.hub) :
    Orderly { door with sys := sys } where
  registered := by
    change sys.session.conn < sys.hub.nextConn
    rw [hsession]
    exact Nat.lt_of_lt_of_le orderly.registered reached.advances.nextConn
  claims := by
    change sys.threads.countP _ = sys.authenticating.toNat
    rw [hthreads, hheld]
    exact orderly.claims
  single := orderly.single
  held := fun h => by
    change Held sys.hub sys.session.conn
    rw [hsession]
    exact reached_held orderly.registered (orderly.held h) reached
  frames := fun n t hget => orderly.frames n t (hthreads ▸ hget)
  visits := orderly.visits
  known := fun n h => by
    change ∃ t, sys.threads[n]? = some t ∧ (_ ∨ sys.session.authenticated = true)
    rw [hthreads, hsession]
    exact orderly.known n h
  welcomed := fun k h => by
    change ∃ visit, door.visits[k]? = some visit ∧ (_ ∨ sys.session.authenticated = true)
    rw [hsession]
    exact orderly.welcomed k h

theorem orderly_arrive (frame : Inbound) :
    Orderly { door with sys := step router door.sys (.arrive frame) } where
  registered := orderly.registered
  claims := by
    change (door.sys.threads ++ [_]).countP _ = _
    rw [countP_append]
    exact orderly.claims
  single := orderly.single
  held := orderly.held
  frames := fun n t hget hbound => by
    change (door.sys.threads ++ [_])[n]? = some t at hget
    rcases Nat.lt_or_ge n door.sys.threads.length with hlt | hge
    · rw [List.getElem?_append_left hlt] at hget
      exact orderly.frames n t hget hbound
    · rw [List.getElem?_append_right hge] at hget
      obtain ⟨_, hfirst⟩ := List.getElem?_eq_some_iff.mp hget
      have hpoint : t.point = .checkClosed := by
        rw [mem_singleton.mp (mem_of_getElem? hget)]
      rw [hpoint] at hbound
      cases hbound
  visits := orderly.visits
  known := fun n h => by
    obtain ⟨t, hget, ht⟩ := orderly.known n h
    refine ⟨t, ?_, ht⟩
    change (door.sys.threads ++ [_])[n]? = some t
    rw [List.getElem?_append_left (List.getElem?_eq_some_iff.mp hget).1]
    exact hget
  welcomed := orderly.welcomed

theorem held_of_claims (hget : door.sys.threads[n]? = some t) (hclaims : t.point.claims = true) :
    door.sys.authenticating = true := by
  have hpos : 0 < door.sys.threads.countP fun t => t.point.claims :=
    countP_pos_iff.mpr ⟨t, mem_of_getElem? hget, hclaims⟩
  rw [orderly.claims] at hpos
  cases hheld : door.sys.authenticating with
  | true => rfl
  | false =>
    rw [hheld] at hpos
    cases hpos

theorem claims_turn (hget : door.sys.threads[n]? = some t)
    (turn : Turn router door.sys sys n t point) :
    sys.threads.countP (fun t => t.point.claims) = sys.authenticating.toNat := by
  obtain ⟨permit, hthreads⟩ := turn.threads
  have hcount := countP_set_add (fun t : Thread R => t.point.claims) door.sys.threads n
    ⟨t.frame, permit, point⟩ t hget
  have hclaims := turn.claims
  have hbefore := orderly.claims
  rw [hthreads]
  dsimp only at hcount
  omega

omit orderly in
theorem turned_get (hget : door.sys.threads[n]? = some t)
    (turn : Turn router door.sys sys n t point) (m : ℕ) :
    (m = n ∧ ∃ permit, sys.threads[m]? = some ⟨t.frame, permit, point⟩) ∨
      m ≠ n ∧ sys.threads[m]? = door.sys.threads[m]? := by
  obtain ⟨permit, hthreads⟩ := turn.threads
  by_cases hm : m = n
  · subst hm
    refine .inl ⟨rfl, permit, ?_⟩
    rw [hthreads, List.getElem?_set_self (List.getElem?_eq_some_iff.mp hget).1]
  · exact .inr ⟨hm, by rw [hthreads, List.getElem?_set_ne (Ne.symm hm)]⟩

theorem orderly_turn (hget : door.sys.threads[n]? = some t)
    (turn : Turn router door.sys sys n t point) (reached : Reached door.sys.hub sys.hub)
    (lost : ∀ req identity, t.point = .bind req identity → admitted router door.sys identity =
      false) :
    Orderly { door with sys := sys } where
  registered := by
    change sys.session.conn < sys.hub.nextConn
    rw [turn.conn]
    exact Nat.lt_of_lt_of_le orderly.registered reached.advances.nextConn
  claims := claims_turn router orderly sys n t point hget turn
  single := orderly.single
  held := fun h => by
    change Held sys.hub sys.session.conn
    rw [turn.conn]
    exact reached_held orderly.registered (orderly.held h) reached
  frames := fun m other hother hbound => by
    change sys.threads[m]? = some other at hother
    rcases turned_get router sys n t point hget turn m with
      ⟨rfl, permit, hnew⟩ | ⟨_, hsame⟩
    · rw [hnew] at hother
      rw [← Option.some.inj hother] at hbound
      rcases turn.bound hbound with hwas | ⟨req, identity, hbind, hyes⟩
      · exact orderly.frames m t hget hwas
      · rw [lost req identity hbind] at hyes
        cases hyes
    · rw [hsame] at hother
      exact orderly.frames m other hother hbound
  visits := orderly.visits
  known := fun m h => by
    obtain ⟨other, hother, hwhere⟩ := orderly.known m h
    rcases turned_get router sys n t point hget turn m with
      ⟨rfl, permit, hnew⟩ | ⟨_, hsame⟩
    · rw [hget] at hother
      obtain rfl := Option.some.inj hother
      exact ⟨_, hnew, hwhere.elim turn.stored fun hauth => .inr (turn.kept hauth)⟩
    · exact ⟨other, hsame.trans hother, hwhere.imp_right turn.kept⟩
  welcomed := fun k h => by
    obtain ⟨visit, hvisit, hwhere⟩ := orderly.welcomed k h
    exact ⟨visit, hvisit, hwhere.imp_right turn.kept⟩

theorem no_wins (h : admitted router door.sys identity = true) : door.wins = [] := by
  by_contra hne
  rw [not_admitted router door.sys identity (orderly.held hne)] at h
  cases h

theorem orderly_admitted (hget : door.sys.threads[n]? = some t)
    (hpoint : t.point = .bind req identity) (h : admitted router door.sys identity = true) :
    Orderly { door with
      sys := bindStep router door.sys n t req identity
      wins := door.wins ++ [.frame n] } := by
  have hwins := no_wins router orderly identity h
  obtain ⟨point, turn⟩ := turn_bind router door.sys n t hpoint
  have reached := bind_reached router door.sys n t req identity
  obtain ⟨after, superseded, slow, deviceTopic, hheld, heq⟩ :=
    bindStep_admitted router door.sys n t req h
  have hself : (bindStep router door.sys n t req identity).threads[n]? =
      some { t with point := .announce req superseded slow deviceTopic } := by
    rw [heq]
    exact List.getElem?_set_self (List.getElem?_eq_some_iff.mp hget).1
  rw [hwins]
  refine ⟨?_, claims_turn router orderly _ n t point hget turn, Nat.le_refl _, fun _ => ?_,
    ?_, ?_, ?_, ?_⟩
  · change (bindStep router door.sys n t req identity).session.conn < _
    rw [turn.conn]
    exact Nat.lt_of_lt_of_le orderly.registered reached.advances.nextConn
  · rw [heq]
    exact hheld
  · intro m other hother hbound
    rcases turned_get router _ n t point hget turn m with ⟨rfl, _⟩ | ⟨_, hsame⟩
    · exact mem_singleton.mpr rfl
    · change (bindStep router door.sys n t req identity).threads[m]? = some other at hother
      have hmem := orderly.frames m other (hsame ▸ hother) hbound
      rw [hwins] at hmem
      cases hmem
  · intro k visit hvisit hbound
    have hmem := orderly.visits k visit hvisit hbound
    rw [hwins] at hmem
    cases hmem
  · intro m hm
    obtain rfl := Attempt.frame.inj (mem_singleton.mp hm)
    exact ⟨_, hself, .inl rfl⟩
  · intro k hk
    cases mem_singleton.mp hk

/-- A step of a visit that binds nothing. -/
theorem orderly_visited {k : ℕ} {visit : Visit R} (next : Visit R)
    (hget : door.visits[k]? = some visit)
    (hthreads : sys.threads = door.sys.threads) (hconn : sys.session.conn = door.sys.session.conn)
    (hauthenticating : sys.authenticating = door.sys.authenticating)
    (kept : door.sys.session.authenticated = true → sys.session.authenticated = true)
    (reached : Reached door.sys.hub sys.hub) (hbound : next.bound = true → visit.bound = true)
    (hstored : visit.binding = true → next.binding = true ∨ sys.session.authenticated = true) :
    Orderly { door with sys := sys, visits := door.visits.set k next } where
  registered := by
    change sys.session.conn < sys.hub.nextConn
    rw [hconn]
    exact Nat.lt_of_lt_of_le orderly.registered reached.advances.nextConn
  claims := by
    change sys.threads.countP _ = sys.authenticating.toNat
    rw [hthreads, hauthenticating]
    exact orderly.claims
  single := orderly.single
  held := fun h => by
    change Held sys.hub sys.session.conn
    rw [hconn]
    exact reached_held orderly.registered (orderly.held h) reached
  frames := fun n t hn => orderly.frames n t (hthreads ▸ hn)
  visits := fun j other hother hyes => by
    change (door.visits.set k next)[j]? = some other at hother
    by_cases hj : j = k
    · subst hj
      rw [List.getElem?_set_self (List.getElem?_eq_some_iff.mp hget).1] at hother
      rw [← Option.some.inj hother] at hyes
      exact orderly.visits j visit hget (hbound hyes)
    · rw [List.getElem?_set_ne (Ne.symm hj)] at hother
      exact orderly.visits j other hother hyes
  known := fun n h => by
    obtain ⟨t, ht, hwhere⟩ := orderly.known n h
    exact ⟨t, by rw [hthreads]; exact ht, hwhere.imp_right kept⟩
  welcomed := fun j h => by
    obtain ⟨other, hother, hwhere⟩ := orderly.welcomed j h
    by_cases hj : j = k
    · subst hj
      rw [hget] at hother
      obtain rfl := Option.some.inj hother
      refine ⟨next, List.getElem?_set_self (List.getElem?_eq_some_iff.mp hget).1, ?_⟩
      exact hwhere.elim hstored fun hauth => .inr (kept hauth)
    · exact ⟨other, (List.getElem?_set_ne (Ne.symm hj)).trans hother, hwhere.imp_right kept⟩

theorem orderly_welcomed {k : ℕ} {req : R} {identity : Identity}
    (hget : door.visits[k]? = some (.bind req identity))
    (h : admitted router door.sys identity = true) :
    Orderly
      { sys := (bindVisit router door.sys req identity).1
        visits := door.visits.set k (bindVisit router door.sys req identity).2
        wins := door.wins ++ [.visit k] } := by
  have hwins := no_wins router orderly identity h
  have reached := visitStep_reached router door.sys (.bind req identity)
  change Reached _ (bindVisit router door.sys req identity).1.hub at reached
  obtain ⟨after, superseded, slow, deviceTopic, hheld, heq⟩ :=
    bindVisit_admitted router door.sys req identity h
  rw [hwins]
  rw [heq] at reached ⊢
  refine ⟨Nat.lt_of_lt_of_le orderly.registered reached.advances.nextConn, orderly.claims,
    Nat.le_refl _, fun _ => hheld, ?_, ?_, ?_, ?_⟩
  · intro n t hn hbound
    have hmem := orderly.frames n t hn hbound
    rw [hwins] at hmem
    cases hmem
  · intro j other hother hbound
    change (door.visits.set k _)[j]? = some other at hother
    by_cases hj : j = k
    · rw [hj]
      exact mem_singleton.mpr rfl
    · rw [List.getElem?_set_ne (Ne.symm hj)] at hother
      have hmem := orderly.visits j other hother hbound
      rw [hwins] at hmem
      cases hmem
  · intro n hn
    cases mem_singleton.mp hn
  · intro j hj
    obtain rfl := Attempt.visit.inj (mem_singleton.mp hj)
    exact ⟨_, List.getElem?_set_self (List.getElem?_eq_some_iff.mp hget).1, .inl rfl⟩

theorem orderly_call : Orderly { door with visits := door.visits ++ [.bind req identity] } where
  registered := orderly.registered
  claims := orderly.claims
  single := orderly.single
  held := orderly.held
  frames := orderly.frames
  visits := fun k visit hvisit hbound => by
    change (door.visits ++ [_])[k]? = some visit at hvisit
    rcases Nat.lt_or_ge k door.visits.length with hlt | hge
    · rw [List.getElem?_append_left hlt] at hvisit
      exact orderly.visits k visit hvisit hbound
    · rw [List.getElem?_append_right hge] at hvisit
      rw [mem_singleton.mp (mem_of_getElem? hvisit)] at hbound
      cases hbound
  known := orderly.known
  welcomed := fun k h => by
    obtain ⟨visit, hvisit, hwhere⟩ := orderly.welcomed k h
    refine ⟨visit, ?_, hwhere⟩
    change (door.visits ++ [_])[k]? = some visit
    rw [List.getElem?_append_left (List.getElem?_eq_some_iff.mp hvisit).1]
    exact hvisit

end

variable {door : Door R} (n : ℕ) (awaited : Awaited R) (t : Thread R)

theorem enter_act (hget : door.sys.threads[n]? = some t) :
    enter router door (.session (.act n awaited)) = { door with
        sys := advance router door.sys n t awaited
        wins := door.wins ++ winner router door (.session (.act n awaited)) } := by
  simp only [enter, ofAdapter, Bool.false_eq_true, if_false, step, hget]

theorem winner_admitted {req : R} {identity : Identity} (hget : door.sys.threads[n]? = some t)
    (hpoint : t.point = .bind req identity) :
    winner router door (.session (.act n awaited)) =
      if admitted router door.sys identity then [.frame n] else [] := by
  simp only [winner, hget, Option.map_some, hpoint]

theorem winner_none (hget : door.sys.threads[n]? = some t)
    (h : ∀ req identity, t.point = .bind req identity → admitted router door.sys identity = false) :
    winner router door (.session (.act n awaited)) = [] := by
  cases hpoint : t.point with
  | bind req identity =>
    rw [winner_admitted router n awaited t hget hpoint, h req identity hpoint]
    rfl
  | _ => simp only [winner, hget, Option.map_some, hpoint]

theorem act_cases (hget : door.sys.threads[n]? = some t) :
    (∃ req identity, t.point = .bind req identity ∧ admitted router door.sys identity = true ∧
      enter router door (.session (.act n awaited)) = { door with
          sys := bindStep router door.sys n t req identity
          wins := door.wins ++ [.frame n] }) ∨
    ((∀ req identity, t.point = .bind req identity → admitted router door.sys identity = false) ∧
      enter router door (.session (.act n awaited)) =
        { door with sys := advance router door.sys n t awaited }) := by
  rw [enter_act router n awaited t hget]
  by_cases hwin : ∃ req identity, t.point = .bind req identity ∧
      admitted router door.sys identity = true
  · obtain ⟨req, identity, hpoint, hyes⟩ := hwin
    refine .inl ⟨req, identity, hpoint, hyes, ?_⟩
    rw [winner_admitted router n awaited t hget hpoint, hyes, if_pos rfl]
    simp only [advance, hpoint]
  · have hlost : ∀ req identity, t.point = .bind req identity →
        admitted router door.sys identity = false := fun req identity hpoint =>
      Bool.eq_false_iff.mpr fun hyes => hwin ⟨req, identity, hpoint, hyes⟩
    refine .inr ⟨hlost, ?_⟩
    rw [winner_none router n awaited t hget hlost, append_nil]

theorem enter_visit {k : ℕ} {visit : Visit R} (hget : door.visits[k]? = some visit) :
    enter router door (.visit k) =
      ⟨(visitStep router door.sys visit).1, door.visits.set k (visitStep router door.sys visit).2,
        door.wins ++ winner router door (.visit k)⟩ := by
  simp only [enter, hget]

theorem visit_cases {k : ℕ} {visit : Visit R} (hget : door.visits[k]? = some visit) :
    (∃ req identity, visit = .bind req identity ∧ admitted router door.sys identity = true ∧
      enter router door (.visit k) =
        { sys := (bindVisit router door.sys req identity).1
          visits := door.visits.set k (bindVisit router door.sys req identity).2
          wins := door.wins ++ [.visit k] }) ∨
    ((∀ req identity, visit = .bind req identity → admitted router door.sys identity = false) ∧
      enter router door (.visit k) =
        { door with
          sys := (visitStep router door.sys visit).1
          visits := door.visits.set k (visitStep router door.sys visit).2 }) := by
  rw [enter_visit router hget]
  cases visit with
  | bind req identity =>
    cases hyes : admitted router door.sys identity with
    | true =>
      refine .inl ⟨req, identity, rfl, hyes, ?_⟩
      simp only [winner, hget, hyes, if_true]
      rfl
    | false =>
      refine .inr ⟨?_, ?_⟩
      · rintro _ _ ⟨⟩
        exact hyes
      · simp only [winner, hget, hyes, Bool.false_eq_true, if_false, append_nil]
  | announce _ _ _ _ | storeReq _ | storeAuthenticated | returned _ =>
    refine .inr ⟨nofun, ?_⟩
    simp only [winner, hget, append_nil]

theorem orderly_visit (orderly : Orderly door) {k : ℕ} {visit : Visit R}
    (hget : door.visits[k]? = some visit)
    (lost : ∀ req identity, visit = .bind req identity → admitted router door.sys identity = false)
      :
    Orderly { door with
      sys := (visitStep router door.sys visit).1
      visits := door.visits.set k (visitStep router door.sys visit).2 } := by
  have reached := visitStep_reached router door.sys visit
  cases visit with
  | bind req identity =>
    obtain ⟨error, heq⟩ := bindVisit_refused router door.sys req identity (lost req identity rfl)
    rw [visitStep, heq] at reached ⊢
    exact orderly_visited orderly _ _ hget rfl rfl rfl (fun h => h) reached
      nofun nofun
  | announce req superseded slow deviceTopic | storeReq req =>
    exact orderly_visited orderly _ _ hget rfl rfl rfl (fun h => h) reached (fun _ => rfl)
      fun _ => .inl rfl
  | storeAuthenticated =>
    exact orderly_visited orderly _ _ hget rfl rfl rfl (fun _ => rfl) reached
      (fun _ => rfl) fun _ => .inr rfl
  | returned outcome =>
    exact orderly_visited orderly _ _ hget rfl rfl rfl (fun h => h) reached (fun h => h)
      fun h => .inl h

theorem enter_unseen {k : ℕ} (h : door.visits[k]? = none) : enter router door (.visit k) = door := by
  simp only [enter, h]

theorem enter_adapter {act : Act R} (h : ofAdapter door.sys.session.conn act = true) :
    enter router door (.session act) = door := by
  simp only [enter, h, if_true]

theorem enter_unknown {n : ℕ} (awaited : Awaited R) (h : door.sys.threads[n]? = none) :
    enter router door (.session (.act n awaited)) = door := by
  simp only [enter, ofAdapter, Bool.false_eq_true, if_false, step, h, winner, Option.map_none,
    append_nil]

theorem enter_other (act : Act R) (hact : ∀ n awaited, act ≠ .act n awaited)
    (hown : ofAdapter door.sys.session.conn act = false) :
    enter router door (.session act) = { door with sys := step router door.sys act } := by
  cases act with
  | act n awaited => exact absurd rfl (hact n awaited)
  | arrive _ | ping | clientCall _ _ _ | storeReq _ | storeAuthenticated | outside _ =>
    simp only [enter, hown, Bool.false_eq_true, if_false, winner, append_nil]

variable (door) in
theorem orderly_enter (move : Move R) (orderly : Orderly door) :
    Orderly (enter router door move) := by
  cases move with
  | call req identity => exact orderly_call orderly req identity
  | visit k =>
    cases hget : door.visits[k]? with
    | none =>
      rw [enter_unseen router hget]
      exact orderly
    | some visit =>
      rcases visit_cases router hget with
        ⟨req, identity, rfl, hyes, heq⟩ | ⟨hlost, heq⟩
      · rw [heq]
        exact orderly_welcomed router orderly hget hyes
      · rw [heq]
        exact orderly_visit router orderly hget hlost
  | session act =>
    cases hown : ofAdapter door.sys.session.conn act with
    | true =>
      rw [enter_adapter router hown]
      exact orderly
    | false =>
      cases act with
      | act n awaited =>
        cases hget : door.sys.threads[n]? with
        | none =>
          rw [enter_unknown router awaited hget]
          exact orderly
        | some t =>
          rcases act_cases router n awaited t hget with
            ⟨req, identity, hpoint, hyes, heq⟩ | ⟨hlost, heq⟩
          · rw [heq]
            exact orderly_admitted router orderly n t req identity hget hpoint hyes
          · obtain ⟨point, turn⟩ := advance_turn router door.sys n t awaited hget
              (held_of_claims orderly n t hget)
            rw [heq]
            exact orderly_turn router orderly _ n t point hget turn
              (advance_reached router door.sys n t awaited) hlost
      | arrive frame =>
        rw [enter_other router _ (by exact nofun) hown]
        exact orderly_arrive router orderly frame
      | ping =>
        rw [enter_other router _ (by exact nofun) hown]
        have beside := pushNow_beside door.sys none .ping
        exact orderly_hub orderly _ beside.threads beside.session beside.authenticating
          (pushNow_reached door.sys none .ping)
      | clientCall id name params =>
        rw [enter_other router _ (by exact nofun) hown]
        exact orderly_hub orderly _ rfl rfl rfl (push_reached door.sys none _)
      | storeReq req | storeAuthenticated => cases hown
      | outside s =>
        rw [enter_other router _ (by exact nofun) hown]
        exact orderly_hub orderly _ rfl rfl rfl (.single door.sys.hub s)

end

end Stakit.SessionRequests
