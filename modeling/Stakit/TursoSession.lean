import Stakit.TransitionRuns

set_option autoImplicit false

namespace Stakit.TursoSession
open TransitionRuns List

structure Statement where
  origin : Option ℕ
  sql : String
deriving DecidableEq, Repr

/-- The open transaction: whose it is, every statement that ran in it, and the effects of
those that succeeded. -/
structure Transaction where
  closure : ℕ
  members : List Statement
  effects : List Statement
deriving DecidableEq, Repr

/-- The session, the plain statements whose call returned `Ok`, and the closures that
`BEGIN` refused because a transaction was open. -/
structure Session where
  committed : List Statement
  transaction : Option Transaction
  acknowledged : List Statement
  refused : List ℕ
deriving DecidableEq, Repr

inductive Action
  | begin (closure : ℕ) (succeeds : Bool)
  | executeTx (closure : ℕ) (sql : String) (succeeds : Bool)
  | execute (sql : String) (succeeds : Bool)
  | commit (closure : ℕ) (succeeds : Bool)
  | rollback (closure : ℕ)
deriving DecidableEq, Repr

def Transaction.run (transaction : Transaction) (statement : Statement) (succeeds : Bool) :
    Transaction :=
  { transaction with
    members := transaction.members ++ [statement]
    effects := transaction.effects ++ if succeeds then [statement] else [] }

def begin (s : Session) (closure : ℕ) (succeeds : Bool) : Session :=
  match s.transaction with
  | some _ => { s with refused := s.refused ++ [closure] }
  | none => if succeeds then { s with transaction := some ⟨closure, [], []⟩ } else s

/-- A statement on the `Tx` handle; once the transaction is finished the handle errors. -/
def executeTx (s : Session) (closure : ℕ) (sql : String) (succeeds : Bool) : Session :=
  match s.transaction with
  | some transaction =>
    if transaction.closure = closure then
      { s with transaction := some (transaction.run ⟨some closure, sql⟩ succeeds) }
    else s
  | none => s

def execute (s : Session) (sql : String) (succeeds : Bool) : Session :=
  let effects := if succeeds then [⟨none, sql⟩] else []
  match s.transaction with
  | some transaction =>
    { s with
      transaction := some (transaction.run ⟨none, sql⟩ succeeds)
      acknowledged := s.acknowledged ++ effects }
  | none =>
    { s with committed := s.committed ++ effects, acknowledged := s.acknowledged ++ effects }

/-- `commit` and `rollback` consume the handle; a commit that fails drops it, which rolls
the transaction back. -/
def finish (s : Session) (closure : ℕ) (commits : Bool) : Session :=
  match s.transaction with
  | some transaction =>
    if transaction.closure = closure then
      { s with
        committed := s.committed ++ if commits then transaction.effects else []
        transaction := none }
    else s
  | none => s

def step (s : Session) : Action → Session
  | .begin closure succeeds => begin s closure succeeds
  | .executeTx closure sql succeeds => executeTx s closure sql succeeds
  | .execute sql succeeds => execute s sql succeeds
  | .commit closure succeeds => finish s closure succeeds
  | .rollback closure => finish s closure false

def opened : Session := ⟨[], none, [], []⟩

def Session.pending (s : Session) : List Statement :=
  s.transaction.elim [] Transaction.effects

def Session.members (s : Session) : List Statement :=
  s.transaction.elim [] Transaction.members

def plain (statements : List Statement) : List Statement :=
  statements.filter fun statement => statement.origin = none

/-- Every acknowledged plain statement has its effect, none takes part in the open
transaction, and no transaction was refused for another one. -/
structure Isolated (s : Session) : Prop where
  kept : plain (s.committed ++ s.pending) = s.acknowledged
  apart : plain s.members = []
  admitted : s.refused = []

/-- Plain statements and `begin` come when no transaction is open. -/
def Alone (s : Session) : Action → Prop
  | .begin _ _ | .execute _ _ => s.transaction = none
  | _ => True

/-- The effects of a transaction are those of statements that ran in it. -/
def Contained (s : Session) : Prop := s.pending ⊆ s.members

theorem plain_append (first second : List Statement) :
    plain (first ++ second) = plain first ++ plain second :=
  filter_append ..

variable (s : Session) (closure : ℕ) (sql : String) (succeeds : Bool)

theorem plain_pending (hcontained : Contained s) (h : plain s.members = []) :
    plain s.pending = [] := by
  refine filter_eq_nil_iff.mpr fun statement hstatement => ?_
  exact filter_eq_nil_iff.mp h statement (hcontained hstatement)

theorem run_subset {transaction : Transaction} (statement : Statement) (succeeds : Bool)
    (h : transaction.effects ⊆ transaction.members) :
    (transaction.run statement succeeds).effects ⊆
      (transaction.run statement succeeds).members := by
  intro other hother
  rcases mem_append.mp hother with hother | hother
  · exact mem_append_left _ (h hother)
  · refine mem_append_right _ ?_
    split_ifs at hother
    · exact hother
    · exact absurd hother not_mem_nil

theorem step_contained (a : Action) (h : Contained s) : Contained (step s a) := by
  obtain ⟨committed, transaction, acknowledged, refused⟩ := s
  have hfinish : ∀ closure commits,
      Contained (finish ⟨committed, transaction, acknowledged, refused⟩ closure commits) := by
    intro closure commits
    cases transaction with
    | none => exact h
    | some transaction =>
      dsimp only [finish]
      by_cases hclosure : transaction.closure = closure
      · rw [if_pos hclosure]
        exact nil_subset _
      · rw [if_neg hclosure]
        exact h
  cases a with
  | begin closure succeeds =>
    cases transaction with
    | some transaction => exact h
    | none =>
      dsimp only [step, begin]
      split_ifs
      · exact nil_subset _
      · exact h
  | executeTx closure sql succeeds =>
    cases transaction with
    | some transaction =>
      dsimp only [step, executeTx]
      split_ifs
      · exact run_subset _ _ h
      · exact h
    | none => exact h
  | execute sql succeeds =>
    cases transaction with
    | some transaction => exact run_subset _ _ h
    | none => exact h
  | commit closure succeeds => exact hfinish closure succeeds
  | rollback closure => exact hfinish closure false

theorem plain_inside (closure : ℕ) (succeeds : Bool) :
    plain (if succeeds then [⟨some closure, sql⟩] else []) = [] := by
  cases succeeds <;> rfl

theorem plain_outside :
    plain (if succeeds then [⟨none, sql⟩] else []) = if succeeds then [⟨none, sql⟩] else [] := by
  cases succeeds <;> rfl

theorem finish_isolated (commits : Bool) (hcontained : Contained s) (h : Isolated s) :
    Isolated (finish s closure commits) := by
  have hpending := plain_pending s hcontained h.apart
  obtain ⟨committed, transaction, acknowledged, refused⟩ := s
  cases transaction with
  | none => exact h
  | some transaction =>
    dsimp only [finish]
    by_cases hclosure : transaction.closure = closure
    · rw [if_pos hclosure]
      refine ⟨?_, rfl, h.admitted⟩
      have hkept : plain (committed ++ transaction.effects) = acknowledged := h.kept
      change plain transaction.effects = [] at hpending
      rw [plain_append, hpending, append_nil] at hkept
      change plain ((committed ++ if commits then transaction.effects else []) ++ []) = acknowledged
      rw [append_nil, plain_append, hkept]
      cases commits with
      | true => rw [if_pos rfl, hpending, append_nil]
      | false => exact append_nil acknowledged
    · rw [if_neg hclosure]
      exact h

theorem executeTx_isolated (h : Isolated s) : Isolated (executeTx s closure sql succeeds) := by
  obtain ⟨committed, transaction, acknowledged, refused⟩ := s
  cases transaction with
  | none => exact h
  | some transaction =>
    dsimp only [executeTx]
    by_cases hclosure : transaction.closure = closure
    · rw [if_pos hclosure]
      have hkept : plain (committed ++ transaction.effects) = acknowledged := h.kept
      have hapart : plain transaction.members = [] := h.apart
      refine ⟨?_, ?_, h.admitted⟩
      · change plain (committed ++ (transaction.effects ++ _)) = acknowledged
        rw [← append_assoc, plain_append, plain_inside, append_nil, hkept]
      · change plain (transaction.members ++ [⟨some closure, sql⟩]) = []
        rw [plain_append, hapart]
        rfl
    · rw [if_neg hclosure]
      exact h

theorem begin_isolated (h : Isolated s) :
    Isolated (begin s closure succeeds) ↔ s.transaction = none := by
  obtain ⟨committed, transaction, acknowledged, refused⟩ := s
  cases transaction with
  | some transaction =>
    refine ⟨fun hnext => ?_, nofun⟩
    exact absurd hnext.admitted (append_ne_nil_of_right_ne_nil _ (cons_ne_nil _ _))
  | none =>
    refine ⟨fun _ => rfl, fun _ => ?_⟩
    cases succeeds with
    | true => exact ⟨h.kept, rfl, h.admitted⟩
    | false => exact h

theorem execute_isolated (h : Isolated s) :
    Isolated (execute s sql succeeds) ↔ s.transaction = none := by
  obtain ⟨committed, transaction, acknowledged, refused⟩ := s
  cases transaction with
  | some transaction =>
    refine ⟨fun hnext => ?_, nofun⟩
    have hapart : plain (transaction.members ++ [⟨none, sql⟩]) = [] := hnext.apart
    rw [plain_append] at hapart
    cases (append_eq_nil_iff.mp hapart).2
  | none =>
    refine ⟨fun _ => rfl, fun _ => ⟨?_, rfl, h.admitted⟩⟩
    have hkept : plain (committed ++ []) = acknowledged := h.kept
    rw [append_nil] at hkept
    change plain ((committed ++ _) ++ []) = acknowledged ++ _
    rw [append_nil, plain_append, hkept, plain_outside]

theorem step_isolated (a : Action) (hcontained : Contained s) (h : Isolated s) :
    Isolated (step s a) ↔ Alone s a := by
  cases a with
  | begin closure succeeds => exact begin_isolated s closure succeeds h
  | executeTx closure sql succeeds =>
    exact iff_of_true (executeTx_isolated s closure sql succeeds h) trivial
  | execute sql succeeds => exact execute_isolated s sql succeeds h
  | commit closure succeeds => exact iff_of_true (finish_isolated s closure succeeds hcontained h) trivial
  | rollback closure => exact iff_of_true (finish_isolated s closure false hcontained h) trivial

/-- A run is isolated in every state exactly if no plain statement and no `begin` comes
while a transaction is open. -/
theorem isolated_iff_alone (acts : List Action) :
    (∀ first, first <+: acts → Isolated (run step opened first)) ↔ Meets step Alone opened acts :=
  throughout_iff_meets step Alone Contained Isolated step_contained
    (fun s a hcontained h => step_isolated s a hcontained h) opened acts
    (nil_subset _) ⟨rfl, rfl, rfl⟩

/-- A task's insert returns `Ok` while another task's closure runs; the closure fails, and
a third task's transaction is refused meanwhile. -/
theorem acknowledged_insert_rolled_back :
    run step opened [.begin 0 true, .executeTx 0 "update accounts set frozen = 1" true,
        .execute "insert into payments values (7)" true, .begin 1 true, .rollback 0] =
      ⟨[], none, [⟨none, "insert into payments values (7)"⟩], [1]⟩ ∧
    ¬Isolated (run step opened [.begin 0 true, .executeTx 0 "update accounts set frozen = 1" true,
        .execute "insert into payments values (7)" true, .begin 1 true, .rollback 0]) :=
  ⟨rfl, fun h => absurd h.admitted (by decide)⟩

end Stakit.TursoSession
