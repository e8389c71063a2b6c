import Mathlib.Data.List.TakeWhile
import Stakit.AgentSteps

set_option autoImplicit false

namespace Stakit.AgentRun
open AgentMessages TransitionRuns

inductive Stage
  | created
  | entered
  | sending (attempt : ℕ)
  | waiting (attempt : ℕ)
  | answered
  | ended
  | over

structure Tab where
  retries : ℕ
  cancelled : Bool
  stage : Stage
  steps : ℕ
  sent : ℕ

inductive Spends : Tab → Tab → Prop
  | stays (tab : Tab) : Spends tab tab
  | cancels (tab : Tab) : Spends tab { tab with cancelled := true }
  | creates (k : ℕ) (c : Bool) (n m : ℕ) : Spends ⟨k, c, .created, n, m⟩ ⟨k, c, .entered, 0, m⟩
  | begins (k : ℕ) (c : Bool) (n m : ℕ) : Spends ⟨k, c, .entered, n, m⟩ ⟨k, c, .sending 0, n, m⟩
  | sends (k : ℕ) (c : Bool) (attempt n m : ℕ) (hcancelled : ¬c = true) :
      Spends ⟨k, c, .sending attempt, n, m⟩ ⟨k, c, .waiting attempt, n, m + 1⟩
  | retries (k : ℕ) (c : Bool) (attempt n m : ℕ) (hattempt : attempt < k) :
      Spends ⟨k, c, .waiting attempt, n, m⟩ ⟨k, c, .sending (attempt + 1), n, m⟩
  | answers (k : ℕ) (c : Bool) (attempt n m : ℕ) (hcancelled : ¬c = true) :
      Spends ⟨k, c, .waiting attempt, n, m⟩ ⟨k, c, .answered, n, m⟩
  | ends (k : ℕ) (c : Bool) (n m : ℕ) : Spends ⟨k, c, .answered, n, m⟩ ⟨k, c, .ended, n + 1, m⟩
  | loops (k : ℕ) (c : Bool) (n m : ℕ) (hsteps : ¬n ≥ defaultMaxSteps) :
      Spends ⟨k, c, .ended, n, m⟩ ⟨k, c, .entered, n, m⟩
  | leaves (tab : Tab) : Spends tab { tab with stage := .over }

/-- Each step that ended has sent `attempts` requests at most, and so has the one under
way. -/
def Tab.Frugal : Tab → Prop
  | ⟨_, _, .created, _, m⟩ => m = 0
  | ⟨k, _, .entered, n, m⟩ => n < defaultMaxSteps ∧ m ≤ n * (k + 1)
  | ⟨k, _, .sending attempt, n, m⟩ =>
    attempt < k + 1 ∧ n < defaultMaxSteps ∧ m ≤ n * (k + 1) + attempt
  | ⟨k, _, .waiting attempt, n, m⟩ =>
    attempt < k + 1 ∧ n < defaultMaxSteps ∧ m ≤ n * (k + 1) + (attempt + 1)
  | ⟨k, _, .answered, n, m⟩ => n < defaultMaxSteps ∧ m ≤ (n + 1) * (k + 1)
  | ⟨k, _, .ended, n, m⟩ => n ≤ defaultMaxSteps ∧ m ≤ n * (k + 1)
  | ⟨k, _, .over, _, m⟩ => m ≤ defaultMaxSteps * (k + 1)

theorem Tab.Frugal.bounded {tab : Tab} (h : tab.Frugal) :
    tab.sent ≤ defaultMaxSteps * (tab.retries + 1) := by
  obtain ⟨k, c, stage, n, m⟩ := tab
  have hsteps (n : ℕ) (hn : n ≤ defaultMaxSteps) : n * (k + 1) ≤ defaultMaxSteps * (k + 1) :=
    Nat.mul_le_mul_right _ hn
  have hnow := hsteps n
  have hnext := hsteps (n + 1)
  have hsucc : (n + 1) * (k + 1) = n * (k + 1) + (k + 1) := Nat.succ_mul n (k + 1)
  cases stage <;> simp only [Tab.Frugal] at h ⊢ <;> omega

theorem Spends.frugal {tab next : Tab} (h : Spends tab next) (hfrugal : tab.Frugal) :
    next.Frugal := by
  cases h with
  | stays => exact hfrugal
  | cancels =>
    obtain ⟨k, c, stage, n, m⟩ := tab
    cases stage <;> exact hfrugal
  | creates k c n m =>
    have hnone : m = 0 := hfrugal
    exact ⟨by decide, by omega⟩
  | begins k => exact ⟨Nat.succ_pos k, hfrugal⟩
  | sends =>
    obtain ⟨hattempt, hsteps, hsent⟩ := hfrugal
    exact ⟨hattempt, hsteps, Nat.succ_le_succ hsent⟩
  | retries k c attempt n m hattempt =>
    obtain ⟨-, hsteps, hsent⟩ := hfrugal
    exact ⟨Nat.succ_lt_succ hattempt, hsteps, hsent⟩
  | answers =>
    obtain ⟨hattempt, hsteps, hsent⟩ := hfrugal
    refine ⟨hsteps, ?_⟩
    rw [Nat.succ_mul]
    omega
  | ends => exact hfrugal
  | loops k c n m hsteps => exact ⟨Nat.lt_of_not_le hsteps, hfrugal.2⟩
  | leaves => exact hfrugal.bounded

theorem Spends.retries_eq {tab next : Tab} (h : Spends tab next) : next.retries = tab.retries := by
  cases h <;> rfl

/-- What is left of a run that was cancelled after `n` steps and `m` requests. -/
structure Tab.Winding (n m : ℕ) (tab : Tab) : Prop where
  cancelled : tab.cancelled = true
  sent : tab.sent = m
  steps : tab.steps ≤ n + 1
  answered : tab.stage = .answered → tab.steps ≤ n

theorem Spends.winding {n m : ℕ} {tab next : Tab} (h : Spends tab next)
    (hwinding : tab.Winding n m) : next.Winding n m := by
  obtain ⟨hset, hsent, hsteps, hanswered⟩ := hwinding
  cases h with
  | stays => exact ⟨hset, hsent, hsteps, hanswered⟩
  | cancels => exact ⟨rfl, hsent, hsteps, hanswered⟩
  | creates => exact ⟨hset, hsent, Nat.zero_le _, nofun⟩
  | sends _ _ _ _ _ hcancelled | answers _ _ _ _ _ hcancelled => exact absurd hset hcancelled
  | ends => exact ⟨hset, hsent, Nat.succ_le_succ (hanswered rfl), nofun⟩
  | begins | retries | loops | leaves => exact ⟨hset, hsent, hsteps, nofun⟩

section
variable {M J : Type}

def Entry.toRequest : Entry J → Option (ChatRequest J)
  | .request sent => some sent
  | _ => none

def requests (trace : List (Entry J)) : List (ChatRequest J) := trace.filterMap Entry.toRequest

def Point.stage : Point J → Stage
  | .created => .created
  | .acquiring _ attempt | .backoff _ attempt => .sending attempt
  | .attempting _ attempt => .waiting attempt
  | .folding .. | .delta .. | .folded .. | .drain .. | .drained .. | .respond .. | .approving ..
  | .asking .. | .onToolApprove .. | .dispatch .. | .results .. => .answered
  | .stepEnd .. | .finishingStep .. | .onStepDone .. => .ended
  | .skillsDone | .finishing .. | .onFinish .. | .done | .returned => .over
  | _ => .entered

def Run.tab (r : Run M J) : Tab :=
  ⟨r.agent.maxRetries, r.agent.cancelled, r.point.stage, r.totalSteps, (requests r.trace).length⟩

variable [DecidableEq J] {host : Host J} {r next : Run M J} {input : Input J}

theorem Stepped.spends (h : Stepped host r input next) : Spends r.tab next.tab := by
  have hcount (entries : List (Entry J)) : (requests (r.trace ++ entries)).length =
        (requests r.trace).length + (requests entries).length := by
    rw [requests, List.filterMap_append, List.length_append]
    rfl
  have hstays : ∀ {point : Point J} {next : Run M J} {sent : ℕ}, r.point = point →
      next.tab = ⟨r.agent.maxRetries, r.agent.cancelled, point.stage, r.totalSteps, sent⟩ →
      sent = (requests r.trace).length → Spends r.tab next.tab := by
    rintro _ next _ rfl hnext rfl
    rw [hnext]
    exact .stays _
  have hleaves : ∀ {next : Run M J} {sent : ℕ},
      next.tab = ⟨r.agent.maxRetries, r.agent.cancelled, .over, r.totalSteps, sent⟩ →
      sent = (requests r.trace).length → Spends r.tab next.tab := by
    rintro next _ hnext rfl
    rw [hnext]
    exact .leaves _
  cases h with
  | cancels => exact .cancels _
  | stays => exact .stays _
  | creates hpoint =>
    rw [Run.tab, hpoint]
    exact .creates _ _ _ _
  | cuts _ _ hpoint => exact hstays hpoint rfl rfl
  | callsStart _ hpoint | callsStep _ hpoint | announces _ hpoint | emits _ hpoint
  | asks _ hpoint | invokes _ _ _ hpoint | reports hpoint | callsStepDone _ hpoint
  | callsFinish _ hpoint | finishes _ hpoint => exact hstays hpoint rfl (hcount [_])
  | unlisted => exact hleaves rfl (hcount [_])
  | startStops | startFails | breaks | stepStops | stepFails | unregistered | uncached | refuses
  | drops | gaveUp | interrupts | exhausts | fails | empty | cutsOff | stepStopped | stepFailed
  | turnEnds | limits | stepDoneStops | stepDoneFails => exact hleaves rfl rfl
  | builds _ _ hpoint =>
    rw [Run.tab, hpoint]
    exact .begins _ _ _ _
  | sends hcancelled hpoint | resends hcancelled hpoint =>
    rw [Run.tab, hpoint]
    unfold sendRequest Run.tab
    dsimp only
    rw [hcount]
    exact .sends _ _ _ _ _ hcancelled
  | retries _ _ hattempt hpoint =>
    rw [Run.tab, hpoint]
    exact .retries _ _ _ _ _ hattempt
  | responds hcancelled hpoint =>
    rw [Run.tab, hpoint]
    exact .answers _ _ _ _ _ hcancelled
  | endsStep hpoint =>
    rw [Run.tab, Run.tab, hpoint]
    unfold results Run.emit
    dsimp only [Run.goto]
    rw [hcount]
    exact .ends _ _ _ _
  | loops _ _ _ hsteps hpoint =>
    rw [Run.tab, hpoint]
    exact .loops _ _ _ _ hsteps
  | _ =>
    -- The point moves on within its stage, and nothing is let out.
    rename_i hpoint
    exact hstays hpoint rfl rfl

theorem requests_bounded (host : Host J) (agent : Agent M J) (inputs : List (Input J)) :
    (requests (run (step host) (Run.of agent) inputs).trace).length ≤
      defaultMaxSteps * (agent.maxRetries + 1) := by
  have hkept := run_invariant (step host)
    (fun r => r.tab.retries = agent.maxRetries ∧ r.tab.Frugal)
    (fun r input h => ?_) (Run.of agent) inputs ⟨rfl, rfl⟩
  · have hbounded := hkept.2.bounded
    rwa [hkept.1] at hbounded
  · have hspends := (step_stepped : Stepped host r input _).spends
    exact ⟨hspends.retries_eq.trans h.1, hspends.frugal h.2⟩

theorem cancelled_winds_down (host : Host J) (agent : Agent M J) (before after : List (Input J)) :
    let cancelled := run (step host) (Run.of agent) (before ++ [Input.cancel])
    let later := run (step host) cancelled after
    (requests later.trace).length = (requests cancelled.trace).length ∧
      later.totalSteps ≤ cancelled.totalSteps + 1 := by
  intro cancelled later
  have hcancelled : cancelled.agent.cancelled = true := by
    change (run (step host) (Run.of agent) (before ++ [Input.cancel])).agent.cancelled = true
    rw [run_append]
    rfl
  have hkept := run_invariant (step host)
    (fun r => r.tab.Winding cancelled.totalSteps (requests cancelled.trace).length)
    (fun r input h => (step_stepped : Stepped host r input _).spends.winding h) cancelled after
    ⟨hcancelled, rfl, Nat.le_succ _, fun _ => Nat.le_refl _⟩
  exact ⟨hkept.sent, hkept.steps⟩

end

section
variable {M J : Type}

def Point.started : Point J → List (Option (ToolOutcome J))
  | .dispatch _ _ outcomes _ => outcomes
  | _ => []

/-- A call was started only when all but so many of those before it had finished. -/
def Windowed (outcomes : List (Option (ToolOutcome J))) : Prop :=
  outcomes.length ≤ (outcomes.takeWhile Option.isSome).length + maxConcurrentTools

variable {outcomes : List (Option (ToolOutcome J))}

theorem Windowed.unfinished (h : Windowed outcomes) :
    outcomes.countP Option.isNone ≤ maxConcurrentTools := by
  have hfinished : (outcomes.takeWhile Option.isSome).countP Option.isNone = 0 := by
    refine List.countP_eq_zero.mpr fun outcome houtcome => ?_
    rw [Bool.not_eq_true, Option.isNone_eq_false_iff]
    exact List.mem_takeWhile_imp houtcome
  have hsplit := outcomes.takeWhile_append_dropWhile (p := Option.isSome)
  have hlength := congrArg List.length hsplit
  have hrest := (outcomes.dropWhile Option.isSome).countP_le_length (p := Option.isNone)
  rw [List.length_append] at hlength
  rw [← hsplit, List.countP_append, hfinished]
  unfold Windowed at h
  omega

theorem windowed_start (h : mayStart outcomes = true) (outcome : Option (ToolOutcome J)) :
    Windowed (outcomes ++ [outcome]) := by
  have hroom := of_decide_eq_true h
  unfold Windowed
  rw [List.takeWhile_append, List.length_append, List.length_singleton]
  split_ifs
  · rw [List.length_append]
    omega
  · omega

theorem takeWhile_set (position : ℕ) (outcome : ToolOutcome J) :
    (outcomes.takeWhile Option.isSome).length ≤
      ((outcomes.set position (some outcome)).takeWhile Option.isSome).length := by
  induction outcomes generalizing position with
  | nil => exact Nat.zero_le _
  | cons first rest ih =>
    cases first with
    | none => exact Nat.zero_le _
    | some done =>
      cases position with
      | zero => exact Nat.le_refl _
      | succ position => exact Nat.succ_le_succ (ih position)

variable [DecidableEq J] {host : Host J} {r next : Run M J} {input : Input J}

theorem Stepped.windowed (h : Stepped host r input next) (hwindowed : Windowed r.point.started) :
    Windowed next.point.started := by
  cases h with
  | cancels | stays => exact hwindowed
  | resolves _ hmay | invokes _ hmay => exact windowed_start hmay _
  | toolDone _ hpoint =>
    rw [hpoint] at hwindowed
    change Windowed (List.set _ _ _)
    unfold Windowed
    rw [List.length_set]
    exact hwindowed.trans (Nat.add_le_add_right (takeWhile_set _ _) _)
  | _ => exact Nat.zero_le _

theorem tools_windowed (host : Host J) (agent : Agent M J) (inputs : List (Input J)) :
    let started := (run (step host) (Run.of agent) inputs).point.started
    Windowed started ∧ started.countP Option.isNone ≤ maxConcurrentTools := by
  have hwindowed := run_invariant (step host) (fun r => Windowed r.point.started)
    (fun r input h => (step_stepped : Stepped host r input _).windowed h) (Run.of agent) inputs
    (Nat.zero_le _)
  exact ⟨hwindowed, hwindowed.unfinished⟩

end

end Stakit.AgentRun
