import Mathlib.Data.List.Nodup
import Stakit.TransitionRuns

set_option autoImplicit false

namespace Stakit.DatabaseMigrations
open TransitionRuns List
open Function (update_self update_of_ne update)

structure Migration where
  version : String
  statements : List String
deriving DecidableEq, Repr

/-- The rows of `_stakit_migrations`, the ones that open transactions have inserted, and
the statements in effect, each under its version. -/
structure Database (ι : Type) where
  tracking : Bool
  recorded : List String
  inserted : List (ι × String)
  effects : List (String × String)

def Database.rollback {ι : Type} [DecidableEq ι] (db : Database ι) (i : ι) : Database ι :=
  { db with inserted := db.inserted.filter fun row => row.1 ≠ i }

/-- The transaction of one migration: what it has executed and what is left of it. -/
structure Transaction where
  migration : Migration
  done : List String
  left : List String

inductive Point
  | createTable
  | readVersions
  | nextMigration
  | begin (migration : Migration)
  | execute (transaction : Transaction)
  | insertVersion (transaction : Transaction)
  | commit (transaction : Transaction)

def Point.current : Point → List Migration
  | .createTable | .readVersions | .nextMigration => []
  | .begin migration => [migration]
  | .execute transaction | .insertVersion transaction | .commit transaction =>
    [transaction.migration]

/-- A call of `migrate`: the migrations it has been through, the ones after the current
one, and the versions that it found recorded. -/
structure Call where
  passed : List Migration
  left : List Migration
  applied : List String
  count : ℕ
  point : Point

def Call.migrations (call : Call) : List Migration :=
  call.passed ++ call.point.current ++ call.left

inductive Migrator
  | idle
  | running (call : Call)
  | returned (count : ℕ)
  | failed (call : Call)
  | dropped (call : Call)

structure System (ι : Type) where
  database : Database ι
  migrators : ι → Migrator

inductive Action (ι : Type)
  | migrate (i : ι) (migrations : List Migration)
  | advance (i : ι) (succeeds : Bool)
  | drop (i : ι)

section
variable {ι : Type} [DecidableEq ι]

def System.become (sys : System ι) (i : ι) (migrator : Migrator) : System ι :=
  { sys with migrators := update sys.migrators i migrator }

variable {migrator : Migrator} (db : Database ι) (known : List Migration) (sys : System ι)
  (a : Action ι) (i : ι) (call : Call) (version : String) (acts : List (Action ι))

theorem System.become_self (migrator : Migrator) : (sys.become i migrator).migrators i = migrator :=
  update_self ..

theorem System.become_of_ne {i j : ι} (h : j ≠ i) (migrator : Migrator) :
    (sys.become i migrator).migrators j = sys.migrators j :=
  update_of_ne h ..

def System.goto (sys : System ι) (i : ι) (call : Call) (point : Point) : System ι :=
  sys.become i (.running { call with point := point })

/-- An error of the call; the transaction it may hold is rolled back. -/
def System.fail (sys : System ι) (i : ι) (call : Call) : System ι :=
  { sys.become i (.failed call) with database := sys.database.rollback i }

def nextMigration (sys : System ι) (i : ι) (call : Call) : System ι :=
  match call.left with
  | [] => sys.become i (.returned call.count)
  | migration :: rest =>
    if migration.version ∈ call.applied then
      sys.become i (.running { call with passed := call.passed ++ [migration], left := rest })
    else
      sys.become i (.running { call with left := rest, point := .begin migration })

def execute (sys : System ι) (i : ι) (call : Call) (transaction : Transaction) : System ι :=
  match transaction.left with
  | [] => sys.goto i call (.insertVersion transaction)
  | statement :: rest =>
    sys.goto i call
      (.execute { transaction with done := transaction.done ++ [statement], left := rest })

def insertVersion (sys : System ι) (i : ι) (call : Call) (transaction : Transaction) : System ι :=
  let version := transaction.migration.version
  if ¬ sys.database.tracking ∨ version ∈ sys.database.recorded then sys.fail i call
  else if version ∈ sys.database.inserted.map Prod.snd then sys
  else
    { sys.goto i call (.commit transaction) with
      database := { sys.database with inserted := sys.database.inserted ++ [(i, version)] } }

def commit (sys : System ι) (i : ι) (call : Call) (transaction : Transaction) : System ι :=
  let version := transaction.migration.version
  { database :=
      { sys.database.rollback i with
        recorded := sys.database.recorded ++ [version]
        effects := sys.database.effects ++ transaction.done.map fun statement =>
          (version, statement) }
    migrators := update sys.migrators i (.running { call with
        passed := call.passed ++ [transaction.migration]
        count := call.count + 1
        point := .nextMigration }) }

def succeed (sys : System ι) (i : ι) (call : Call) : System ι :=
  match call.point with
  | .createTable =>
    { sys.goto i call .readVersions with database := { sys.database with tracking := true } }
  | .readVersions =>
    if sys.database.tracking then
      sys.become i (.running { call with
        applied := sys.database.recorded, point := .nextMigration })
    else sys.fail i call
  | .nextMigration => nextMigration sys i call
  | .begin migration => sys.goto i call (.execute ⟨migration, [], migration.statements⟩)
  | .execute transaction => execute sys i call transaction
  | .insertVersion transaction => insertVersion sys i call transaction
  | .commit transaction => commit sys i call transaction

/-- The loop head awaits nothing, so it cannot fail. -/
def advance (sys : System ι) (i : ι) (call : Call) (succeeds : Bool) : System ι :=
  match succeeds, call.point with
  | true, _ => succeed sys i call
  | false, .nextMigration => succeed sys i call
  | false, _ => sys.fail i call

def step (sys : System ι) : Action ι → System ι
  | .migrate i migrations =>
    match sys.migrators i with
    | .running _ => sys
    | _ => sys.become i (.running ⟨[], migrations, [], 0, .createTable⟩)
  | .advance i succeeds =>
    match sys.migrators i with
    | .running call => advance sys i call succeeds
    | _ => sys
  | .drop i =>
    match sys.migrators i with
    | .running call =>
      { sys.become i (.dropped call) with database := sys.database.rollback i }
    | _ => sys

/-- No migration applied and no call made. -/
def fresh : System ι where
  database := ⟨false, [], [], []⟩
  migrators := fun _ => .idle

def Point.committing : Point → Option Transaction
  | .commit transaction => some transaction
  | _ => none

def Migrator.committing : Migrator → Option Transaction
  | .running call => call.point.committing
  | _ => none

def Point.Sound : Point → Prop
  | .execute transaction =>
    transaction.done ++ transaction.left = transaction.migration.statements
  | .insertVersion transaction | .commit transaction =>
    transaction.done = transaction.migration.statements
  | _ => True

structure Call.Sound (known : List Migration) (recorded : List String) (call : Call) : Prop where
  given : call.migrations ⊆ known
  passed : ∀ migration ∈ call.passed, migration.version ∈ recorded
  applied : call.applied ⊆ recorded
  point : call.point.Sound

def Migrator.Sound (known : List Migration) (recorded : List String) : Migrator → Prop
  | .running call | .failed call | .dropped call => call.Sound known recorded
  | _ => True

def Database.effectsOf (db : Database ι) (version : String) : List String :=
  (db.effects.filter fun effect => effect.1 = version).map Prod.snd

/-- A version is either absent, or recorded with every statement of one migration in
effect, in order and once. -/
def Database.Whole (known : List Migration) (db : Database ι) (version : String) : Prop :=
  (version ∉ db.recorded ∧ db.effectsOf version = []) ∨
    (version ∈ db.recorded ∧ ∃ migration ∈ known,
      migration.version = version ∧ db.effectsOf version = migration.statements)

structure Inv (known : List Migration) (sys : System ι) : Prop where
  recordedOnce : sys.database.recorded.Nodup
  insertedOnce : (sys.database.inserted.map Prod.snd).Nodup
  held : ∀ row, row ∈ sys.database.inserted ↔
    ∃ transaction ∈ (sys.migrators row.1).committing, transaction.migration.version = row.2
  unrecorded : ∀ row ∈ sys.database.inserted, row.2 ∉ sys.database.recorded
  whole : ∀ version, sys.database.Whole known version
  sound : ∀ i, (sys.migrators i).Sound known sys.database.recorded

theorem Migrator.Sound.mono {known : List Migration} {before after : List String}
    {migrator : Migrator} (h : migrator.Sound known before) (hle : before ⊆ after) :
    migrator.Sound known after := by
  cases migrator with
  | idle | returned count => trivial
  | running call | failed call | dropped call =>
    exact ⟨h.given, fun m hm => hle (h.passed m hm), List.Subset.trans h.applied hle, h.point⟩

omit [DecidableEq ι] in
theorem fresh_inv : Inv known (fresh : System ι) where
  recordedOnce := nodup_nil
  insertedOnce := nodup_nil
  held := fun row => by simp [fresh, Migrator.committing]
  unrecorded := fun row hrow => by simp [fresh] at hrow
  whole := fun version => Or.inl ⟨not_mem_nil, rfl⟩
  sound := fun i => trivial

theorem sound_become {known : List Migration} {sys : System ι} (h : Inv known sys) (i : ι)
    {migrator : Migrator} (hsound : migrator.Sound known sys.database.recorded) (j : ι) :
    ((sys.become i migrator).migrators j).Sound known sys.database.recorded := by
  by_cases hj : j = i
  · rwa [hj, sys.become_self]
  · rw [sys.become_of_ne hj]
    exact h.sound j

theorem Inv.become {known : List Migration} {sys : System ι} (h : Inv known sys) (i : ι)
    (migrator : Migrator) (hold : (sys.migrators i).committing = none)
    (hnew : migrator.committing = none)
    (hsound : migrator.Sound known sys.database.recorded) : Inv known (sys.become i migrator) where
  recordedOnce := h.recordedOnce
  insertedOnce := h.insertedOnce
  held := fun row => by
    refine (h.held row).trans ?_
    by_cases hrow : row.1 = i
    · rw [hrow, hold, sys.become_self, hnew]
    · rw [sys.become_of_ne hrow]
  unrecorded := h.unrecorded
  whole := h.whole
  sound := sound_become h i hsound

omit [DecidableEq ι] in
theorem Inv.track {known : List Migration} {sys : System ι} (h : Inv known sys) :
    Inv known { sys with database := { sys.database with tracking := true } } where
  recordedOnce := h.recordedOnce
  insertedOnce := h.insertedOnce
  held := h.held
  unrecorded := h.unrecorded
  whole := h.whole
  sound := h.sound

theorem mem_rollback (row : ι × String) :
    row ∈ (db.rollback i).inserted ↔ row ∈ db.inserted ∧ row.1 ≠ i := by
  unfold Database.rollback
  rw [mem_filter, decide_eq_true_eq]

theorem rollback_once (h : (db.inserted.map Prod.snd).Nodup) :
    ((db.rollback i).inserted.map Prod.snd).Nodup :=
  h.sublist (filter_sublist.map Prod.snd)

theorem Inv.leave {known : List Migration} {sys : System ι} (h : Inv known sys) (i : ι)
    (migrator : Migrator) (hnew : migrator.committing = none)
    (hsound : migrator.Sound known sys.database.recorded) :
    Inv known { sys.become i migrator with database := sys.database.rollback i } where
  recordedOnce := h.recordedOnce
  insertedOnce := rollback_once sys.database i h.insertedOnce
  held := fun row => by
    dsimp only
    rw [mem_rollback, h.held row]
    by_cases hrow : row.1 = i
    · rw [hrow, sys.become_self, hnew]
      simp
    · rw [sys.become_of_ne hrow]
      simp [hrow]
  unrecorded := fun row hrow => h.unrecorded row ((mem_rollback sys.database i row).mp hrow).1
  whole := h.whole
  sound := sound_become h i hsound

theorem Inv.insert {known : List Migration} {sys : System ι} (h : Inv known sys) (i : ι)
    (call : Call) (transaction : Transaction)
    (hi : sys.migrators i = .running call) (hpoint : call.point = .insertVersion transaction)
    (hrecorded : transaction.migration.version ∉ sys.database.recorded)
    (hinserted : transaction.migration.version ∉ sys.database.inserted.map Prod.snd) :
    Inv known
      { sys.goto i call (.commit transaction) with
        database :=
          { sys.database with
            inserted := sys.database.inserted ++ [(i, transaction.migration.version)] } } := by
  have hcall : call.Sound known sys.database.recorded := by
    have hsound := h.sound i
    rwa [hi] at hsound
  refine ⟨h.recordedOnce, ?_, fun row => ?_, fun row hrow => ?_, h.whole, ?_⟩
  · dsimp only
    rw [map_append, nodup_append]
    refine ⟨h.insertedOnce, nodup_singleton _, fun version hversion other hother heq => ?_⟩
    obtain rfl := heq.trans (mem_singleton.mp hother)
    exact hinserted hversion
  · have hnone : (sys.migrators i).committing = none := by
      rw [hi]
      simp [Migrator.committing, Point.committing, hpoint]
    unfold System.goto
    dsimp only
    rw [mem_append, mem_singleton, h.held row]
    by_cases hrow : row.1 = i
    · rw [hrow, hnone, sys.become_self]
      simp [Migrator.committing, Point.committing, Prod.ext_iff, hrow, eq_comm]
    · rw [sys.become_of_ne hrow]
      simp [Prod.ext_iff, hrow]
  · rcases mem_append.mp hrow with hrow | hrow
    · exact h.unrecorded row hrow
    · rw [mem_singleton.mp hrow]
      exact hrecorded
  · refine sound_become h i ⟨?_, hcall.passed, hcall.applied, ?_⟩
    · have hgiven := hcall.given
      unfold Call.migrations at hgiven ⊢
      rwa [hpoint] at hgiven
    · have hpart := hcall.point
      rwa [hpoint] at hpart

omit [DecidableEq ι] in
theorem effectsOf_append (recorded : List String) (inserted : List (ι × String))
    (version other : String) (done : List String) :
    ({ db with
        recorded := recorded
        inserted := inserted
        effects := db.effects ++ done.map fun statement => (version, statement) } :
      Database ι).effectsOf other =
      db.effectsOf other ++ if version = other then done else [] := by
  unfold Database.effectsOf
  rw [filter_append, map_append]
  congr 1
  split_ifs with h
  · rw [filter_eq_self.mpr, map_map]
    · exact map_id _
    · intro effect heffect
      obtain ⟨statement, -, rfl⟩ := mem_map.mp heffect
      exact decide_eq_true h
  · rw [filter_eq_nil_iff.mpr]
    · rfl
    · intro effect heffect
      obtain ⟨statement, -, rfl⟩ := mem_map.mp heffect
      simpa using h

omit [DecidableEq ι] in
theorem Inv.commit_unrecorded {known : List Migration} {sys : System ι} (h : Inv known sys) {i : ι}
    {call : Call} {transaction : Transaction} (hi : sys.migrators i = .running call)
    (hpoint : call.point = .commit transaction) :
    (i, transaction.migration.version) ∈ sys.database.inserted ∧
      transaction.migration.version ∉ sys.database.recorded := by
  have hrow : (i, transaction.migration.version) ∈ sys.database.inserted := by
    refine (h.held _).mpr ⟨transaction, ?_, rfl⟩
    rw [hi]
    simp [Migrator.committing, Point.committing, hpoint]
  exact ⟨hrow, h.unrecorded _ hrow⟩

theorem Inv.commit {known : List Migration} {sys : System ι} (h : Inv known sys) (i : ι)
    (call : Call) (transaction : Transaction) (hi : sys.migrators i = .running call)
    (hpoint : call.point = .commit transaction) :
    Inv known (commit sys i call transaction) := by
  have hcall : call.Sound known sys.database.recorded := by
    have hsound := h.sound i
    rwa [hi] at hsound
  obtain ⟨hrow, hnew⟩ := h.commit_unrecorded hi hpoint
  have hdone : transaction.done = transaction.migration.statements := by
    have hpart := hcall.point
    rwa [hpoint] at hpart
  have hgiven := hcall.given
  unfold Call.migrations at hgiven
  rw [hpoint] at hgiven
  have hle : sys.database.recorded ⊆
      sys.database.recorded ++ [transaction.migration.version] := subset_append_left _ _
  refine ⟨?_, rollback_once sys.database i h.insertedOnce, fun row => ?_, fun row hmem => ?_,
    fun version => ?_, fun j => ?_⟩
  · unfold DatabaseMigrations.commit
    dsimp only
    rw [nodup_append]
    refine ⟨h.recordedOnce, nodup_singleton _, fun version hversion other hother heq => ?_⟩
    obtain rfl := heq.trans (mem_singleton.mp hother)
    exact hnew hversion
  · unfold DatabaseMigrations.commit
    dsimp only
    rw [show ({ sys.database.rollback i with
        recorded := sys.database.recorded ++ [transaction.migration.version]
        effects := sys.database.effects ++ transaction.done.map fun statement =>
          (transaction.migration.version, statement) } : Database ι).inserted =
        (sys.database.rollback i).inserted from rfl, mem_rollback, h.held row]
    by_cases hown : row.1 = i
    · rw [hown, update_self]
      simp [Migrator.committing, Point.committing]
    · rw [update_of_ne hown]
      simp [hown]
  · obtain ⟨hold, hother⟩ := (mem_rollback sys.database i row).mp hmem
    refine mem_append.not.mpr (not_or.mpr ⟨h.unrecorded row hold, fun heq => ?_⟩)
    rw [mem_singleton] at heq
    exact hother (congrArg Prod.fst (inj_on_of_nodup_map h.insertedOnce hold hrow heq))
  · unfold Database.Whole DatabaseMigrations.commit Database.rollback
    dsimp only
    rw [effectsOf_append]
    by_cases hversion : transaction.migration.version = version
    · subst hversion
      obtain ⟨-, hempty⟩ | ⟨hmem, -⟩ := h.whole transaction.migration.version
      · refine Or.inr ⟨mem_append_right _ (mem_singleton.mpr rfl),
          transaction.migration, hgiven ?_, rfl, ?_⟩
        · simp [Point.current]
        · rw [hempty, if_pos rfl, nil_append, hdone]
      · exact absurd hmem hnew
    · rw [if_neg hversion, append_nil, mem_append, mem_singleton, or_iff_left (Ne.symm hversion)]
      exact h.whole version
  · unfold DatabaseMigrations.commit
    dsimp only
    by_cases hj : j = i
    · rw [hj, update_self]
      refine ⟨?_, fun migration hmigration => ?_, List.Subset.trans hcall.applied hle, trivial⟩
      · simpa [Call.migrations, Point.current] using hgiven
      · rcases mem_append.mp hmigration with hmigration | hmigration
        · exact hle (hcall.passed migration hmigration)
        · rw [mem_singleton.mp hmigration]
          exact mem_append_right _ (mem_singleton.mpr rfl)
    · rw [update_of_ne hj]
      exact (h.sound j).mono hle

def Action.given : Action ι → List Migration
  | .migrate _ migrations => migrations
  | _ => []

theorem Inv.fail {known : List Migration} {sys : System ι} (h : Inv known sys) (i : ι)
    (call : Call) (hi : sys.migrators i = .running call) : Inv known (sys.fail i call) := by
  have hsound := h.sound i
  rw [hi] at hsound
  exact h.leave i (.failed call) rfl hsound

theorem succeed_inv (h : Inv known sys) (hi : sys.migrators i = .running call) :
    Inv known (succeed sys i call) := by
  have hcall : call.Sound known sys.database.recorded := by
    have hsound := h.sound i
    rwa [hi] at hsound
  have hgiven := hcall.given
  have hpart := hcall.point
  have hfree : (∀ transaction, call.point ≠ .commit transaction) →
      (sys.migrators i).committing = none := by
    intro hne
    rw [hi]
    cases hpoint : call.point with
    | commit transaction => exact absurd hpoint (hne transaction)
    | _ => simp [Migrator.committing, Point.committing, hpoint]
  unfold Call.migrations at hgiven
  unfold succeed
  cases hpoint : call.point with
  | createTable =>
    rw [hpoint] at hgiven
    exact (h.become i (.running { call with point := .readVersions })
      (hfree (by simp [hpoint])) rfl ⟨hgiven, hcall.passed, hcall.applied, trivial⟩).track
  | readVersions =>
    rw [hpoint] at hgiven
    dsimp only
    split_ifs
    · exact h.become i _ (hfree (by simp [hpoint])) rfl
        ⟨hgiven, hcall.passed, List.Subset.refl _, trivial⟩
    · exact h.fail i call hi
  | nextMigration =>
    rw [hpoint] at hgiven
    dsimp only [nextMigration]
    cases hleft : call.left with
    | nil => exact h.become i _ (hfree (by simp [hpoint])) rfl trivial
    | cons migration rest =>
      rw [hleft] at hgiven
      dsimp only
      split_ifs with happlied
      · refine h.become i _ (hfree (by simp [hpoint])) (by simp [Migrator.committing, hpoint,
          Point.committing]) ⟨?_, ?_, hcall.applied, ?_⟩
        · simpa [Call.migrations, hpoint, Point.current] using hgiven
        · intro other hother
          rcases mem_append.mp hother with hother | hother
          · exact hcall.passed other hother
          · rw [mem_singleton.mp hother]
            exact hcall.applied happlied
        · exact hpart
      · refine h.become i _ (hfree (by simp [hpoint])) rfl ⟨?_, hcall.passed, hcall.applied, trivial⟩
        simpa [Call.migrations, Point.current] using hgiven
  | begin migration =>
    rw [hpoint] at hgiven
    exact h.become i _ (hfree (by simp [hpoint])) rfl
      ⟨hgiven, hcall.passed, hcall.applied, nil_append _⟩
  | execute transaction =>
    rw [hpoint] at hgiven hpart
    dsimp only [execute]
    cases hleft : transaction.left with
    | nil =>
      refine h.become i _ (hfree (by simp [hpoint])) rfl
        ⟨hgiven, hcall.passed, hcall.applied, ?_⟩
      change transaction.done ++ transaction.left = _ at hpart
      rwa [hleft, append_nil] at hpart
    | cons statement rest =>
      refine h.become i _ (hfree (by simp [hpoint])) rfl
        ⟨hgiven, hcall.passed, hcall.applied, ?_⟩
      change transaction.done ++ transaction.left = _ at hpart
      rw [hleft] at hpart
      change transaction.done ++ [statement] ++ rest = _
      rwa [append_assoc, singleton_append]
  | insertVersion transaction =>
    dsimp only [insertVersion]
    split_ifs with hrefused hwaits
    · exact h.fail i call hi
    · exact h
    · exact h.insert i call transaction hi hpoint (fun hmem => hrefused (Or.inr hmem)) hwaits
  | commit transaction => exact h.commit i call transaction hi hpoint

theorem advance_inv (succeeds : Bool) (h : Inv known sys) (hi : sys.migrators i = .running call) :
    Inv known (advance sys i call succeeds) := by
  unfold advance
  split
  · exact succeed_inv known sys i call h hi
  · exact succeed_inv known sys i call h hi
  · exact h.fail i call hi

theorem step_inv (h : Inv known sys) (hgiven : a.given ⊆ known) : Inv known (step sys a) := by
  cases a with
  | migrate i migrations =>
    have hcall : (Call.Sound known sys.database.recorded ⟨[], migrations, [], 0, .createTable⟩) :=
      ⟨hgiven, nofun, nil_subset _, trivial⟩
    dsimp only [step]
    cases hi : sys.migrators i with
    | running call => exact h
    | _ => exact h.become i _ (by rw [hi]; rfl) rfl hcall
  | advance i succeeds =>
    dsimp only [step]
    cases hi : sys.migrators i with
    | running call => exact advance_inv known sys i call succeeds h hi
    | _ => exact h
  | drop i =>
    dsimp only [step]
    cases hi : sys.migrators i with
    | running call =>
      have hsound := h.sound i
      rw [hi] at hsound
      exact h.leave i (.dropped call) rfl hsound
    | _ => exact h

theorem step_tables : ((step sys a).database.recorded = sys.database.recorded ∧
        (step sys a).database.effects = sys.database.effects) ∨
      ∃ i call transaction, sys.migrators i = .running call ∧
        call.point = .commit transaction ∧ step sys a = commit sys i call transaction := by
  have hsucceed : ∀ i call, sys.migrators i = .running call →
      ((succeed sys i call).database.recorded = sys.database.recorded ∧
          (succeed sys i call).database.effects = sys.database.effects) ∨
        ∃ j other transaction, sys.migrators j = .running other ∧
          other.point = .commit transaction ∧ succeed sys i call = commit sys j other transaction := by
    intro i call hi
    unfold succeed
    cases hpoint : call.point with
    | createTable => exact Or.inl ⟨rfl, rfl⟩
    | readVersions =>
      dsimp only
      split_ifs <;> exact Or.inl ⟨rfl, rfl⟩
    | nextMigration =>
      dsimp only [nextMigration]
      cases call.left with
      | nil => exact Or.inl ⟨rfl, rfl⟩
      | cons migration rest =>
        dsimp only
        split_ifs <;> exact Or.inl ⟨rfl, rfl⟩
    | begin migration => exact Or.inl ⟨rfl, rfl⟩
    | execute transaction =>
      dsimp only [execute]
      cases transaction.left <;> exact Or.inl ⟨rfl, rfl⟩
    | insertVersion transaction =>
      dsimp only [insertVersion]
      split_ifs <;> exact Or.inl ⟨rfl, rfl⟩
    | commit transaction => exact Or.inr ⟨i, call, transaction, hi, hpoint, rfl⟩
  cases a with
  | migrate i migrations =>
    dsimp only [step]
    cases sys.migrators i <;> exact Or.inl ⟨rfl, rfl⟩
  | advance i succeeds =>
    dsimp only [step]
    cases hi : sys.migrators i with
    | running call =>
      dsimp only [advance]
      split
      · exact hsucceed i call hi
      · exact hsucceed i call hi
      · exact Or.inl ⟨rfl, rfl⟩
    | _ => exact Or.inl ⟨rfl, rfl⟩
  | drop i =>
    dsimp only [step]
    cases sys.migrators i <;> exact Or.inl ⟨rfl, rfl⟩

theorem step_keeps (h : Inv known sys) {version : String}
    (hversion : version ∈ sys.database.recorded) :
    version ∈ (step sys a).database.recorded ∧
      (step sys a).database.effectsOf version = sys.database.effectsOf version := by
  obtain ⟨hrecorded, heffects⟩ | ⟨i, call, transaction, hi, hpoint, hstep⟩ := step_tables sys a
  · unfold Database.effectsOf
    rw [hrecorded, heffects]
    exact ⟨hversion, rfl⟩
  · obtain ⟨-, hnew⟩ := h.commit_unrecorded hi hpoint
    rw [hstep]
    refine ⟨mem_append_left _ hversion, ?_⟩
    unfold commit Database.rollback
    dsimp only
    have hne : transaction.migration.version ≠ version := by
      rintro rfl
      exact hnew hversion
    rw [effectsOf_append, if_neg hne, append_nil]

/-- The migrator has a statement of the version to execute. -/
def Migrator.Executes (version : String) : Migrator → Prop
  | .running ⟨_, _, _, _, .execute transaction⟩ =>
    transaction.migration.version = version ∧ transaction.left ≠ []
  | _ => False

def Migrator.Unread : Migrator → Prop
  | .running call => call.point = .createTable ∨ call.point = .readVersions
  | _ => True

def Migrator.Skips (version : String) : Migrator → Prop
  | .running call =>
    call.point = .createTable ∨ call.point = .readVersions ∨
      (version ∈ call.applied ∧ ∀ migration ∈ call.point.current, migration.version ≠ version)
  | _ => True

theorem Migrator.Unread.skips (h : migrator.Unread) (version : String) :
    migrator.Skips version := by
  cases migrator with
  | running call => exact h.elim Or.inl fun hread => Or.inr (Or.inl hread)
  | _ => trivial

theorem Migrator.Skips.not_executes {version : String} (h : migrator.Skips version) :
    ¬migrator.Executes version := by
  intro hexecutes
  cases migrator with
  | running call =>
    obtain ⟨passed, left, applied, count, point⟩ := call
    cases point with
    | execute transaction =>
      obtain hpoint | hpoint | ⟨-, hother⟩ := h
      · cases hpoint
      · cases hpoint
      · exact hother transaction.migration (mem_singleton.mpr rfl) hexecutes.1
    | _ => exact hexecutes
  | _ => exact hexecutes

theorem succeed_skips (hversion : version ∈ sys.database.recorded)
    (hi : sys.migrators i = .running call) (h : (sys.migrators i).Skips version) :
    ((succeed sys i call).migrators i).Skips version := by
  have hstays := h
  rw [hi] at h
  unfold succeed
  cases hpoint : call.point with
  | createTable =>
    dsimp only [System.goto]
    rw [sys.become_self]
    exact Or.inr (Or.inl rfl)
  | readVersions =>
    dsimp only [System.fail]
    split_ifs
    · rw [sys.become_self]
      exact Or.inr (Or.inr ⟨hversion, nofun⟩)
    · rw [sys.become_self]
      trivial
  | nextMigration =>
    obtain hread | hread | ⟨happlied, -⟩ := h
    · cases hpoint.symm.trans hread
    · cases hpoint.symm.trans hread
    dsimp only [nextMigration]
    cases call.left with
    | nil =>
      dsimp only
      rw [sys.become_self]
      trivial
    | cons migration rest =>
      dsimp only
      split_ifs with hmember
      · rw [sys.become_self]
        refine Or.inr (Or.inr ⟨happlied, ?_⟩)
        simp [hpoint, Point.current]
      · rw [sys.become_self]
        refine Or.inr (Or.inr ⟨happlied, fun other hother => ?_⟩)
        rw [mem_singleton.mp hother]
        rintro rfl
        exact hmember happlied
  | begin migration =>
    obtain hread | hread | ⟨happlied, hother⟩ := h
    · cases hpoint.symm.trans hread
    · cases hpoint.symm.trans hread
    dsimp only [System.goto]
    rw [sys.become_self]
    rw [hpoint] at hother
    exact Or.inr (Or.inr ⟨happlied, hother⟩)
  | execute transaction =>
    obtain hread | hread | ⟨happlied, hother⟩ := h
    · cases hpoint.symm.trans hread
    · cases hpoint.symm.trans hread
    rw [hpoint] at hother
    dsimp only [execute, System.goto]
    cases transaction.left with
    | nil | cons statement rest =>
      dsimp only
      rw [sys.become_self]
      exact Or.inr (Or.inr ⟨happlied, hother⟩)
  | insertVersion transaction =>
    obtain hread | hread | ⟨happlied, hother⟩ := h
    · cases hpoint.symm.trans hread
    · cases hpoint.symm.trans hread
    rw [hpoint] at hother
    dsimp only [insertVersion, System.goto, System.fail]
    split_ifs
    · rw [sys.become_self]
      trivial
    · exact hstays
    · rw [sys.become_self]
      exact Or.inr (Or.inr ⟨happlied, hother⟩)
  | commit transaction =>
    obtain hread | hread | ⟨happlied, -⟩ := h
    · cases hpoint.symm.trans hread
    · cases hpoint.symm.trans hread
    dsimp only [commit]
    rw [update_self]
    exact Or.inr (Or.inr ⟨happlied, nofun⟩)

theorem succeed_others {i j : ι} (call : Call) (h : j ≠ i) :
    (succeed sys i call).migrators j = sys.migrators j := by
  unfold succeed
  cases call.point with
  | createTable => exact sys.become_of_ne h _
  | readVersions =>
    dsimp only
    split_ifs <;> exact sys.become_of_ne h _
  | nextMigration =>
    dsimp only [nextMigration]
    cases call.left with
    | nil => exact sys.become_of_ne h _
    | cons migration rest =>
      dsimp only
      split_ifs <;> exact sys.become_of_ne h _
  | begin migration => exact sys.become_of_ne h _
  | execute transaction =>
    dsimp only [execute]
    cases transaction.left <;> exact sys.become_of_ne h _
  | insertVersion transaction =>
    dsimp only [insertVersion]
    split_ifs
    · exact sys.become_of_ne h _
    · rfl
    · exact sys.become_of_ne h _
  | commit transaction => exact update_of_ne h ..

theorem step_skips (hversion : version ∈ sys.database.recorded)
    (h : (sys.migrators i).Skips version) : ((step sys a).migrators i).Skips version := by
  cases a with
  | migrate j migrations =>
    dsimp only [step]
    by_cases hj : i = j
    · subst hj
      cases hi : sys.migrators i with
      | running call => rwa [hi] at h ⊢
      | _ =>
        dsimp only
        rw [sys.become_self]
        exact Or.inl rfl
    · cases sys.migrators j with
      | running call => exact h
      | _ =>
        dsimp only
        rwa [sys.become_of_ne hj]
  | advance j succeeds =>
    dsimp only [step]
    by_cases hj : i = j
    · subst hj
      cases hi : sys.migrators i with
      | running call =>
        dsimp only [advance]
        split
        · exact succeed_skips sys i call version hversion hi h
        · exact succeed_skips sys i call version hversion hi h
        · dsimp only [System.fail]
          rw [sys.become_self]
          trivial
      | _ => exact h
    · cases sys.migrators j with
      | running call =>
        dsimp only [advance]
        split
        · rwa [succeed_others sys call hj]
        · rwa [succeed_others sys call hj]
        · dsimp only [System.fail]
          rwa [sys.become_of_ne hj]
      | _ => exact h
  | drop j =>
    dsimp only [step]
    by_cases hj : i = j
    · subst hj
      cases hi : sys.migrators i with
      | running call =>
        dsimp only
        rw [sys.become_self]
        trivial
      | _ => exact h
    · cases sys.migrators j with
      | running call =>
        dsimp only
        rwa [sys.become_of_ne hj]
      | _ => exact h

def given (acts : List (Action ι)) : List Migration := acts.flatMap Action.given

theorem run_inv (h : Inv known sys) (hgiven : given acts ⊆ known) :
    Inv known (run step sys acts) := by
  refine guarded_run_invariant step (fun _ a => a.given ⊆ known) (Inv known)
    (fun s a hs ha => step_inv known s a hs ha) sys acts h ?_
  refine meets_of_forall step _ sys acts fun _ a ha => ?_
  intro migration hmigration
  exact hgiven (mem_flatMap.mpr ⟨a, ha, hmigration⟩)

theorem run_keeps (h : Inv known sys) (hgiven : given acts ⊆ known) {version : String}
    (hversion : version ∈ sys.database.recorded) :
    version ∈ (run step sys acts).database.recorded ∧
      (run step sys acts).database.effectsOf version = sys.database.effectsOf version := by
  induction acts generalizing sys with
  | nil => exact ⟨hversion, rfl⟩
  | cons a acts ih =>
    obtain ⟨hhead, htail⟩ : a.given ⊆ known ∧ given acts ⊆ known := by
      unfold given at hgiven
      rwa [flatMap_cons, append_subset] at hgiven
    obtain ⟨hkept, heffects⟩ := step_keeps known sys a h hversion
    obtain ⟨hmem, heq⟩ := ih (step sys a) (step_inv known sys a h hhead) htail hkept
    exact ⟨hmem, heq.trans heffects⟩

theorem run_skips (h : Inv known sys) (hgiven : given acts ⊆ known) {i : ι} {version : String}
    (hversion : version ∈ sys.database.recorded) (hskips : (sys.migrators i).Skips version) :
    ((run step sys acts).migrators i).Skips version := by
  induction acts generalizing sys with
  | nil => exact hskips
  | cons a acts ih =>
    obtain ⟨hhead, htail⟩ : a.given ⊆ known ∧ given acts ⊆ known := by
      unfold given at hgiven
      rwa [flatMap_cons, append_subset] at hgiven
    exact ih (step sys a) (step_inv known sys a h hhead) htail
      (step_keeps known sys a h hversion).1
      (step_skips sys a i version hversion hskips)

/-- A commit by a migrator that goes on: the version is new, and all of the migration's
statements take effect with its record. -/
structure CommitsWhole (sys next : System ι) (i : ι) (call : Call) (migration : Migration) :
    Prop where
  running : sys.migrators i = .running call
  current : call.point.current = [migration]
  goesOn : next.migrators i = .running { call with
    passed := call.passed ++ [migration], count := call.count + 1, point := .nextMigration }
  unrecorded : migration.version ∉ sys.database.recorded
  recorded : next.database.recorded = sys.database.recorded ++ [migration.version]
  effects : next.database.effects = sys.database.effects ++
    migration.statements.map fun statement => (migration.version, statement)

theorem step_commits (h : Inv known sys) : ((step sys a).database.recorded = sys.database.recorded ∧
        (step sys a).database.effects = sys.database.effects) ∨
      ∃ i call migration, CommitsWhole sys (step sys a) i call migration := by
  refine (step_tables sys a).imp_right ?_
  rintro ⟨i, call, transaction, hi, hpoint, hstep⟩
  have hdone : transaction.done = transaction.migration.statements := by
    have hsound := h.sound i
    rw [hi] at hsound
    have hpart := hsound.point
    rwa [hpoint] at hpart
  refine ⟨i, call, transaction.migration, hi, ?_, ?_, (h.commit_unrecorded hi hpoint).2, ?_, ?_⟩
  · rw [hpoint]
    rfl
  · rw [hstep]
    exact update_self ..
  · rw [hstep]
    rfl
  · rw [hstep, ← hdone]
    rfl

theorem migrations_apply_once :
    (∀ version, (run step fresh acts).database.Whole (given acts) version) ∧
      (run step fresh acts).database.recorded.Nodup ∧
      (∀ a, ((step (run step fresh acts) a).database.recorded =
            (run step fresh acts).database.recorded ∧
          (step (run step fresh acts) a).database.effects =
            (run step fresh acts).database.effects) ∨
        ∃ i call migration,
          CommitsWhole (run step fresh acts) (step (run step fresh acts) a) i call migration) ∧
      (∀ i call, (run step fresh acts).migrators i = .failed call → call.migrations ⊆ given acts ∧
          ∀ migration ∈ call.passed, migration.version ∈ (run step fresh acts).database.recorded) ∧
      ∀ version ∈ (run step fresh acts).database.recorded, ∀ later,
        (version ∈ (run step (run step fresh acts) later).database.recorded ∧
          (run step (run step fresh acts) later).database.effectsOf version =
            (run step fresh acts).database.effectsOf version) ∧
        ∀ i, ((run step fresh acts).migrators i).Unread →
          ¬((run step (run step fresh acts) later).migrators i).Executes version := by
  have h : Inv (given acts) (run step fresh acts) :=
    run_inv (given acts) fresh acts (fresh_inv _) (List.Subset.refl _)
  refine ⟨h.whole, h.recordedOnce, fun a => step_commits _ _ a h, fun i call hi => ?_,
    fun version hversion later => ?_⟩
  · have hsound := h.sound i
    rw [hi] at hsound
    exact ⟨hsound.given, hsound.passed⟩
  · have hwider : Inv (given (acts ++ later)) (run step fresh acts) :=
      run_inv _ fresh acts (fresh_inv _) (by simp [given])
    have hlater : given later ⊆ given (acts ++ later) := by simp [given]
    refine ⟨run_keeps _ _ later hwider hlater hversion, fun i hunread => ?_⟩
    exact (run_skips _ _ later hwider hlater hversion (hunread.skips version)).not_executes

end

/-- Both migrators read the empty table; one of them has recorded the version when the
other one starts to execute its statements. -/
theorem recorded_version_executed_again :
    ∃ (acts : List (Action Bool)) (i : Bool) (version : String),
      version ∈ (run step fresh acts).database.recorded ∧
        ((run step fresh acts).migrators i).Executes version :=
  ⟨[.migrate false [⟨"0001_init", ["create table users (id bigint)"]⟩],
      .migrate true [⟨"0001_init", ["create table users (id bigint)"]⟩],
      .advance false true, .advance true true, .advance false true, .advance true true,
      .advance false true, .advance false true, .advance false true, .advance false true,
      .advance false true, .advance false true, .advance true true, .advance true true],
    true, "0001_init", by decide +kernel, ⟨rfl, by decide⟩⟩

end Stakit.DatabaseMigrations
