import Stakit.PubsubHubIdentity

set_option autoImplicit false

namespace Stakit.PubsubHub
open FiniteMap PubsubTopic RouterError TransitionRuns

def UnderCap (cap : ℕ) (h : Hub) : Prop := ∀ user, userCount h user ≤ cap

def UsesCap (cap : ℕ) : Op → Prop
  | .authenticate _ _ maxPerUser => maxPerUser = cap
  | _ => True

variable (h : Hub) (user : String)

theorem userCount_detachHolder_le (holder : Option ConnId) (user : String) :
    userCount (detachHolder h holder).1 user ≤ userCount h user := by
  refine userCount_le h _ user fun who hwho => ?_
  rw [userOf_eq, detachHolder_identity] at hwho
  split_ifs at hwho
  · cases hwho
  · rw [userOf_eq]
    exact hwho

theorem lt_cap_of_atCap {cap : ℕ} (hinv : IdentityInv h) (hcap : atCap h (some user) cap = false) :
    userCount h user < cap := by
  have hcount := hinv.counts user
  simp only [atCap, Option.any_some, hcount, decide_eq_false_iff_not, not_le] at hcap
  split_ifs at hcap with hzero
  · rw [hzero]
    exact hcap
  · exact hcap

theorem authenticateSection_cap (id : ConnId) (identity : Identity) {cap : ℕ}
    (hinv : IdentityInv h) (hcap : UnderCap cap h) :
    UnderCap cap (authenticateSection h id identity cap) := by
  obtain heq | ⟨conn, userTopic', deviceTopic', _, hconn, hauth, hroom, _, heq⟩ :=
    authenticateSection_cases h id identity cap
  · rw [heq]
    exact hcap
  intro user
  have hlook := (detachHolder_lookup h id identity.device).trans hconn
  have hnone := (hinv.unbound id (boundOf conn) (by simp [identityOf, hconn]) hauth).1
  have hkept := userCount_detachHolder_le h (deviceHolder h id identity.device) user
  have hbound := hcap user
  rw [heq, userCount_congr _ _ user fun who => userOf_congr _ _ who
      (subscribeEach_identity _ id _ _ (claimed_lookup _ id conn _ _) who),
    userCount_claimed _ id _ _ hlook hnone]
  split_ifs with huser
  · rw [huser] at hroom
    have := lt_cap_of_atCap h user hinv hroom
    omega
  · omega

theorem step_cap (s : Section) (cap : ℕ)
    (hs : ∀ id identity maxPerUser, s = .authenticate id identity maxPerUser → maxPerUser = cap)
    (hinv : IdentityInv h) (hcap : UnderCap cap h) : UnderCap cap (step h s) := by
  by_cases hauth : ∃ id identity maxPerUser, s = .authenticate id identity maxPerUser
  · obtain ⟨id, identity, maxPerUser, heq⟩ := hauth
    rw [heq, hs id identity maxPerUser heq]
    exact authenticateSection_cap h id identity hinv hcap
  · intro user
    refine (userCount_le h _ user fun who hwho => ?_).trans (hcap user)
    refine step_user_new h s who user (fun identity maxPerUser heq => ?_) hwho
    exact hauth ⟨who, identity, maxPerUser, heq⟩

theorem own_usesCap {op : Op} {cap : ℕ} (hop : UsesCap cap op) {id : ConnId} {identity : Identity}
    {maxPerUser : ℕ} (hin : Section.authenticate id identity maxPerUser ∈ own h op) :
    maxPerUser = cap := by
  cases op with
  | authenticate id' identity' maxPerUser' =>
    simp only [own, List.mem_singleton, Section.authenticate.injEq] at hin
    rw [hin.2.2]
    exact hop
  | deliver topic payload =>
    obtain heq | ⟨user, heq⟩ | ⟨name, params, heq⟩ := own_deliver h topic payload
    · rw [heq] at hin
      cases hin
    · simp [heq] at hin
    · simp [heq] at hin
  | _ => simp [own] at hin

theorem run_apply_cap {ops : List Op} {cap : ℕ} (hops : ∀ op ∈ ops, UsesCap cap op)
    (hinv : IdentityInv h) (hcap : UnderCap cap h) : UnderCap cap (run apply h ops) := by
  induction ops generalizing h with
  | nil => exact hcap
  | cons op ops ih =>
    have hkept : IdentityInv (apply h op) ∧ UnderCap cap (apply h op) := by
      refine apply_keeps (fun h => IdentityInv h ∧ UnderCap cap h) ?_ h op ?_ ⟨hinv, hcap⟩
      · intro h s hfree hboth
        refine ⟨step_identityInv h s hboth.1, step_cap h s cap ?_ hboth.1 hboth.2⟩
        intro id identity maxPerUser heq
        rw [heq] at hfree
        exact hfree.elim
      · intro s hs
        refine ⟨step_identityInv h s hinv, step_cap h s cap ?_ hinv hcap⟩
        intro id identity maxPerUser heq
        rw [heq] at hs
        exact own_usesCap h (hops op (by simp)) hs
    exact ih _ (fun op hop => hops op (by simp [hop])) hkept.1 hkept.2

/-- What `Shared` keeps of the identity, for a request context of type `R`. -/
structure Session (R : Type) where
  conn : ConnId
  req : R
  authenticated : Bool

def Session.authenticate {R : Type} (session : Session R) (h : Hub) (limit : ℕ) (req : R)
    (identity : Identity) : Hub × Session R × Except Error Unit :=
  match PubsubHub.authenticate h session.conn identity limit with
  | (h, .error error) => (h, session, .error error)
  | (h, .ok ()) => (h, { session with req := req, authenticated := true }, .ok ())

theorem Session.authenticate_failed {R : Type} (session : Session R) (h : Hub) (limit : ℕ)
    (req : R) (identity : Identity) (error : Error)
    (herror : (session.authenticate h limit req identity).2.2 = .error error) :
    (session.authenticate h limit req identity).1 = h ∧
      (session.authenticate h limit req identity).2.1 = session := by
  have hkept := authenticate_error h session.conn identity limit error
  unfold Session.authenticate at herror ⊢
  rcases hcase : PubsubHub.authenticate h session.conn identity limit with ⟨after, outcome⟩
  rw [hcase] at hkept herror
  cases outcome with
  | error e =>
    refine ⟨hkept ?_, rfl⟩
    simpa using herror
  | ok u => simp at herror

theorem userConns_length : (userConns h user).length = userCount h user := by
  unfold userConns userCount count
  rw [List.length_map, List.countP_eq_length_filter]

theorem userCount_pos : userCount h user ≠ 0 ↔ ∃ id, userOf h id = some user := by
  unfold userCount
  rw [← Nat.pos_iff_ne_zero, count_pos_iff]
  constructor
  · rintro ⟨id, conn, hconn, huser⟩
    exact ⟨id, by simpa [userOf, hconn] using huser⟩
  · rintro ⟨id, huser⟩
    unfold userOf at huser
    obtain ⟨conn, hconn, hu⟩ := Option.bind_eq_some_iff.mp huser
    exact ⟨id, conn, hconn, by simpa using hu⟩

/-- In every reachable state the user counts and the device table match the
registered connections, the cap holds, and a failed authenticate of any session
leaves the whole hub and the session as they were. -/
theorem reachable_identity (hasher : Topic → ℕ) (epochBase : ℕ) (ops : List Op) :
    let h := run apply (newHub hasher epochBase) ops
    (∀ user, (user ∈ h.perUser ↔ ∃ id, userOf h id = some user) ∧
      ∀ n, h.perUser.lookup user = some n → n = (userConns h user).length) ∧
    (∀ device id, h.devices.lookup device = some id ↔
      ∃ conn topic, h.byId.lookup id = some conn ∧ conn.device = some (device, topic)) ∧
    (∀ id conn device topic, h.byId.lookup id = some conn → conn.device = some (device, topic) →
      ∃ user, conn.user = some user ∧ deviceTopic user device = .ok topic) ∧
    (∀ cap, (∀ op ∈ ops, UsesCap cap op) → ∀ user n, h.perUser.lookup user = some n → n ≤ cap) ∧
    ∀ (R : Type) (session : Session R) (limit : ℕ) (req : R) (identity : Identity) (error : Error),
      (session.authenticate h limit req identity).2.2 = .error error →
      (session.authenticate h limit req identity).1 = h ∧
        (session.authenticate h limit req identity).2.1 = session := by
  intro h
  have hinv : IdentityInv h := run_apply_identity _ ops (newHub_identity hasher epochBase)
  have hcount : ∀ user n, h.perUser.lookup user = some n → n = userCount h user := by
    intro user n hn
    rw [hinv.counts] at hn
    split_ifs at hn
    exact (Option.some.inj hn).symm
  have hdevice : ∀ id device topic, deviceOf h id = some (device, topic) ↔
      ∃ conn, h.byId.lookup id = some conn ∧ conn.device = some (device, topic) := by
    intro id device topic
    unfold deviceOf identityOf
    cases h.byId.lookup id <;> simp [boundOf]
  refine ⟨?_, ?_, ?_, ?_, ?_⟩
  · intro user
    rw [← AList.lookup_isSome, hinv.counts, ← userCount_pos]
    refine ⟨?_, ?_⟩
    · split_ifs with hzero <;> simp [hzero]
    · intro n hn
      rw [userConns_length]
      exact hcount user n ((hinv.counts user).trans hn)
  · intro device id
    rw [hinv.devices]
    constructor
    · rintro ⟨topic, hdev⟩
      obtain ⟨conn, hconn, hdev⟩ := (hdevice id device topic).mp hdev
      exact ⟨conn, topic, hconn, hdev⟩
    · rintro ⟨conn, topic, hconn, hdev⟩
      exact ⟨topic, (hdevice id device topic).mpr ⟨conn, hconn, hdev⟩⟩
  · intro id conn device topic hconn hdev
    obtain ⟨user, huser, hcoded⟩ :=
      hinv.encoded id device topic ((hdevice id device topic).mpr ⟨conn, hconn, hdev⟩)
    refine ⟨user, ?_, hcoded⟩
    simpa [userOf, hconn] using huser
  · intro cap hops user n hn
    rw [hcount user n hn]
    refine run_apply_cap _ hops (newHub_identity hasher epochBase) ?_ user
    intro user
    exact Nat.zero_le _
  · intro R session limit req identity error
    exact session.authenticate_failed h limit req identity error

end Stakit.PubsubHub
