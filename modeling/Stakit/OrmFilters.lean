import Stakit.BooleanSyntax
import Stakit.OrmPlaceholders

set_option autoImplicit false

namespace Stakit.Orm
open BooleanSyntax List

inductive Mark where
  | lpar
  | rpar
  | and
  | or
  | notLpar

def Mark.text : Mark → String
  | lpar => "("
  | rpar => ")"
  | and => " and "
  | or => " or "
  | notLpar => "not ("

/-- What a predicate's text is made of, as far as AND, OR and NOT go. -/
inductive Part where
  | mark (given : Mark)
  | typed (predicate : Predicate)
  | raw (fragment : String)

def Part.slots (d : Dialect) : Part → List Slot
  | mark given => [.text given.text]
  | typed predicate => predicate.slots d
  | raw fragment => [.raw fragment]

def Predicate.parts : Predicate → List Part
  | .and left right =>
    .mark .lpar :: left.parts ++ .mark .and :: right.parts ++ [.mark .rpar]
  | .or left right =>
    .mark .lpar :: left.parts ++ .mark .or :: right.parts ++ [.mark .rpar]
  | .not inner => .mark .notLpar :: inner.parts ++ [.mark .rpar]
  | .raw fragment => [.raw fragment]
  | predicate => [.typed predicate]

theorem parts_slots (d : Dialect) (predicate : Predicate) :
    predicate.parts.flatMap (Part.slots d) = predicate.slots d := by
  cases predicate with
  | and left right | or left right =>
    simp only [Predicate.parts, Predicate.slots, flatMap_append, flatMap_cons,
      flatMap_nil, parts_slots d left, parts_slots d right, append_nil]
    simp [Part.slots, Mark.text]
  | not inner =>
    simp only [Predicate.parts, Predicate.slots, flatMap_append, flatMap_cons,
      flatMap_nil, parts_slots d inner, append_nil]
    simp [Part.slots, Mark.text]
  | raw fragment => rfl
  | _ => exact append_nil _

section Truth

variable {α : Type} (leaf : Predicate → α) (fragments : String → Disj α)

def Mark.tokens : Mark → List (Tok α)
  | lpar => [.lpar]
  | rpar => [.rpar]
  | and => [.and]
  | or => [.or]
  | notLpar => [.not, .lpar]

def Part.tokens : Part → List (Tok α)
  | mark given => given.tokens
  | typed predicate => [.atom (leaf predicate)]
  | raw fragment => (fragments fragment).tokens

def Predicate.tokens (predicate : Predicate) : List (Tok α) :=
  predicate.parts.flatMap (Part.tokens leaf fragments)

def Predicate.truth (row : α → Option Bool) : Predicate → Option Bool
  | .and left right => both (left.truth row) (right.truth row)
  | .or left right => either (left.truth row) (right.truth row)
  | .not inner => negate (inner.truth row)
  | .raw fragment => (fragments fragment).truth row
  | predicate => row (leaf predicate)

/-- The expression the predicate's text is. -/
def Predicate.reading : Predicate → Disj α
  | .and left right => .one (.one (.paren (conjoin left.reading right.reading)))
  | .or left right => .one (.one (.paren (disjoin left.reading right.reading)))
  | .not inner => .one (.one (.not (.paren inner.reading)))
  | .raw fragment => fragments fragment
  | predicate => .one (.one (.atom (leaf predicate)))

/-- A raw fragment has no OR outside its own parentheses. -/
def Predicate.joinable : Predicate → Bool
  | .raw fragment => (fragments fragment).single
  | _ => true

/-- No raw fragment with an OR outside its own parentheses is an operand of an AND. -/
def Predicate.guarded : Predicate → Bool
  | .and left right => left.joinable fragments && right.joinable fragments && left.guarded &&
      right.guarded
  | .or left right => left.guarded && right.guarded
  | .not inner => inner.guarded
  | _ => true

theorem reading_tokens (predicate : Predicate) :
    (predicate.reading leaf fragments).tokens = predicate.tokens leaf fragments := by
  cases predicate with
  | and left right =>
    simp only [Predicate.reading, Disj.tokens, Conj.tokens, Item.tokens, conjoin_tokens,
      reading_tokens left, reading_tokens right, Predicate.tokens, Predicate.parts,
      flatMap_append, flatMap_cons, flatMap_nil]
    simp [Part.tokens, Mark.tokens]
  | or left right =>
    simp only [Predicate.reading, Disj.tokens, Conj.tokens, Item.tokens, disjoin_tokens,
      reading_tokens left, reading_tokens right, Predicate.tokens, Predicate.parts,
      flatMap_append, flatMap_cons, flatMap_nil]
    simp [Part.tokens, Mark.tokens]
  | not inner =>
    simp only [Predicate.reading, Disj.tokens, Conj.tokens, Item.tokens, reading_tokens inner,
      Predicate.tokens, Predicate.parts, flatMap_append, flatMap_cons,
      flatMap_nil]
    simp [Part.tokens, Mark.tokens]
  | raw fragment => exact (append_nil _).symm
  | _ => rfl

theorem reading_single {predicate : Predicate} (h : predicate.joinable fragments = true) :
    (predicate.reading leaf fragments).single = true := by
  cases predicate with
  | raw fragment => exact h
  | _ => rfl

theorem reading_truth (row : α → Option Bool) (predicate : Predicate)
    (h : predicate.guarded fragments = true) :
    (predicate.reading leaf fragments).truth row = predicate.truth leaf fragments row := by
  cases predicate with
  | and left right =>
    simp only [Predicate.guarded, Bool.and_eq_true] at h
    obtain ⟨⟨⟨hleft, hright⟩, hl⟩, hr⟩ := h
    have hjoined := conjoin_truth row (reading_single leaf fragments hleft)
      (reading_single leaf fragments hright)
    rw [reading_truth row left hl, reading_truth row right hr] at hjoined
    exact hjoined
  | or left right =>
    simp only [Predicate.guarded, Bool.and_eq_true] at h
    have hjoined := disjoin_truth row (left.reading leaf fragments)
      (right.reading leaf fragments)
    rw [reading_truth row left h.1, reading_truth row right h.2] at hjoined
    exact hjoined
  | not inner => exact congrArg negate (reading_truth row inner h)
  | raw fragment | _ => rfl

end Truth

/-- The builders that take conditions one after the other. -/
inductive Filterable where
  | select (s : Select)
  | update (u : Update)
  | delete (u : Delete)
  | upsert (u : Upsert)

namespace Filterable

def addFilter : Filterable → Predicate → Filterable
  | select s, predicate => select (s.addFilter predicate)
  | update u, predicate => update (u.addFilter predicate)
  | delete u, predicate => delete (u.addFilter predicate)
  | upsert u, predicate => upsert (u.whereConflict predicate)

def condition : Filterable → Option Predicate
  | select s => s.filter
  | update u => u.filter
  | delete u => u.filter
  | upsert u => u.predicate

def statement : Filterable → Statement
  | select s => .select s
  | update u => .update u
  | delete u => .delete u
  | upsert u => .upsert u none

/-- The statement has a place for the condition: an upsert has one where it updates and the
backend can guard the update. -/
def hasWhere (d : Dialect) : Filterable → Bool
  | upsert u => !d.upsertOnDuplicateKey && !u.updates.isEmpty
  | _ => true

theorem condition_addFilter (f : Filterable) (predicate : Predicate) :
    (f.addFilter predicate).condition = andFilter f.condition predicate := by
  cases f <;> rfl

theorem where_written {d : Dialect} {f : Filterable} {whole : Predicate}
    (hwhole : f.condition = some whole) (hplace : f.hasWhere d = true) :
    ∃ before after, f.statement.slots d = before ++ (.text " where " :: whole.slots d) ++ after := by
  cases f with
  | select s =>
    have hsome : someSlots " where " (Predicate.slots d) s.filter =
        .text " where " :: whole.slots d := by
      rw [show s.filter = some whole from hwhole]
      rfl
    refine ⟨(.text "select " :: s.projection.slots d) ++ ([.text " from ", .ident s.fromTable] ++
      s.joins.flatMap (Join.slots d)), ((s.clauses d).drop 4).flatten, ?_⟩
    rw [← hsome, statement, Statement.slots, Select.slots, Select.clauses]
    simp only [flatten_cons, drop_succ_cons, drop_zero, append_assoc]
  | update u =>
    refine ⟨[.text "update ", .ident u.table, .text " set "] ++ listed none (setSlots d) u.sets,
      [], ?_⟩
    rw [statement, Statement.slots, Update.slots, show u.filter = some whole from hwhole,
      append_nil, append_assoc]
    rfl
  | delete u =>
    refine ⟨[.text "delete from ", .ident u.table], [], ?_⟩
    rw [statement, Statement.slots, Delete.slots, show u.filter = some whole from hwhole,
      append_nil]
    rfl
  | upsert u =>
    rw [hasWhere, Bool.and_eq_true, Bool.not_eq_true', Bool.not_eq_true'] at hplace
    obtain ⟨hstandard, hupdates⟩ := hplace
    have hconflict : u.intoInsert.conflict =
        some ⟨u.targets, .updateColumns u.updates, some whole⟩ := by
      rw [Upsert.intoInsert, hupdates, show u.predicate = some whole from hwhole]
      rfl
    rw [statement, Statement.slots, Insert.slots, hconflict, givenSlots, Option.elim,
      Conflict.slots, if_neg (by rw [hstandard]; decide)]
    dsimp only [Conflict.resolved]
    rw [hupdates, if_neg (by decide)]
    refine ⟨u.intoInsert.headSlots ++ (listed none (InsertRow.slots u.intoInsert.optionalIncluded)
      u.intoInsert.rows ++ ([.text " on conflict ("] ++
        listed none (fun target => [.ident target]) u.targets ++ [.text ")"] ++
          .text " do update set " ::
            listed none (ColumnUpdate.slots d u.intoInsert.type.table false) u.updates)), [], ?_⟩
    simp only [someSlots, append_assoc, cons_append, append_nil, nil_append]

theorem condition_foldl (first : Predicate) (rest : List Predicate) (f : Filterable)
    (h : f.condition = some first) :
    (rest.foldl addFilter f).condition = some (rest.foldl Predicate.and first) := by
  induction rest generalizing f first with
  | nil => exact h
  | cons next rest ih =>
    refine ih (.and first next) (f.addFilter next) ?_
    rw [condition_addFilter, h]
    rfl

end Filterable

section Chains

variable {α : Type} (leaf : Predicate → α) (fragments : String → Disj α)

theorem chain_truth (row : α → Option Bool) (first : Predicate) (rest : List Predicate) :
    (rest.foldl Predicate.and first).truth leaf fragments row = some true ↔
      ∀ p ∈ first :: rest, p.truth leaf fragments row = some true := by
  induction rest generalizing first with
  | nil => simp
  | cons next rest ih =>
    rw [foldl_cons, ih, forall_mem_cons, forall_mem_cons, forall_mem_cons,
      Predicate.truth, both_eq_true, and_assoc]

theorem chain_guarded (first : Predicate) (rest : List Predicate)
    (hall : ∀ p ∈ first :: rest, p.guarded fragments = true)
    (hjoin : rest ≠ [] → ∀ p ∈ first :: rest, p.joinable fragments = true) :
    (rest.foldl Predicate.and first).guarded fragments = true := by
  induction rest generalizing first with
  | nil => exact hall first (mem_singleton.mpr rfl)
  | cons next rest ih =>
    have hjoin := hjoin (cons_ne_nil next rest)
    rw [forall_mem_cons, forall_mem_cons] at hall hjoin
    refine ih (.and first next) ?_ fun _ => ?_
    · rw [forall_mem_cons, Predicate.guarded, hjoin.1, hjoin.2.1, hall.1, hall.2.1]
      exact ⟨rfl, hall.2.2⟩
    · rw [forall_mem_cons]
      exact ⟨rfl, hjoin.2.2⟩

/-- Where no raw fragment with an OR of its own stands beside an AND, in the given conditions or
because they are chained, the rendered condition is true of a row exactly when every given
condition is. -/
theorem chained_filters_hold (d : Dialect) (f : Filterable) (predicates : List Predicate)
    (hnone : f.condition = none) (hsome : predicates ≠ [])
    (hguarded : ∀ p ∈ predicates, p.guarded fragments = true)
    (hjoin : 1 < predicates.length → ∀ p ∈ predicates, p.joinable fragments = true) :
    ∃ whole, (predicates.foldl Filterable.addFilter f).condition = some whole ∧
      ((predicates.foldl Filterable.addFilter f).hasWhere d = true → ∃ before after,
        (predicates.foldl Filterable.addFilter f).statement.slots d =
          before ++ (.text " where " :: whole.parts.flatMap (Part.slots d)) ++ after) ∧
      ∃ e, Reads (whole.tokens leaf fragments) e ∧ ∀ row, e.truth row = some true ↔
        ∀ p ∈ predicates, p.truth leaf fragments row = some true := by
  cases predicates with
  | nil => exact absurd rfl hsome
  | cons first rest =>
    have hcondition : ((first :: rest).foldl Filterable.addFilter f).condition =
        some (rest.foldl Predicate.and first) := by
      refine Filterable.condition_foldl first rest (f.addFilter first) ?_
      rw [Filterable.condition_addFilter, hnone]
      rfl
    have hwhole := chain_guarded fragments first rest hguarded fun hrest =>
      hjoin (by
        have := length_pos_iff.mpr hrest
        rw [length_cons]
        omega)
    refine ⟨_, hcondition, fun hplace => ?_, (rest.foldl Predicate.and first).reading leaf fragments,
      ?_, fun row => ?_⟩
    · rw [parts_slots]
      exact Filterable.where_written hcondition hplace
    · rw [← reading_tokens]
      exact reads_tokens _
    · rw [reading_truth leaf fragments row _ hwhole]
      exact chain_truth leaf fragments row first rest

end Chains

def orFragment : String → Disj String := fun given =>
  if given = "a or b" then .or (.one (.atom "a")) (.one (.one (.atom "b")))
  else .one (.one (.atom given))

def tenantCheck : Predicate := .binary "t" "tenant" .eq (.value (.i64 1))

theorem chained_filters_hold_select : ∃ whole,
    ([.isNull "t" "gone", .or (.raw "a or b") (.raw "c"), tenantCheck].foldl
      Filterable.addFilter (.select (.new .count))).condition = some whole ∧
      ∃ e, Reads (whole.tokens (fun _ => "leaf") orFragment) e ∧ ∀ row, e.truth row = some true ↔
        ∀ p ∈ [.isNull "t" "gone", .or (.raw "a or b") (.raw "c"), tenantCheck],
          p.truth (fun _ => "leaf") orFragment row = some true := by
  obtain ⟨whole, hwhole, _, hread⟩ := chained_filters_hold (fun _ => "leaf") orFragment
    postgresDialect (.select (.new .count))
    [.isNull "t" "gone", .or (.raw "a or b") (.raw "c"), tenantCheck] rfl (by simp)
    (by simp [Predicate.guarded, tenantCheck]) (by simp [Predicate.joinable, tenantCheck])
  exact ⟨whole, hwhole, hread⟩

/-- `delete from t where (a or b and tenant = $1)` takes rows of other tenants. -/
theorem raw_or_escapes_tenant : ∃ whole, ([.raw "a or b", tenantCheck].foldl Filterable.addFilter
      (.delete ⟨"t", none⟩)).condition = some whole ∧
      ∃ e, Reads (whole.tokens (fun _ => "tenant") orFragment) e ∧
        ∃ row : String → Option Bool, e.truth row = some true ∧
          tenantCheck.truth (fun _ => "tenant") orFragment row = some false := by
  refine ⟨_, rfl, Predicate.reading (fun _ => "tenant") orFragment
    (.and (.raw "a or b") tenantCheck), ?_, fun given => some (given == "a"), ?_, rfl⟩
  · rw [← reading_tokens]
    exact reads_tokens _
  · decide

end Stakit.Orm
