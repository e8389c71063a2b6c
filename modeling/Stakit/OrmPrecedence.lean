import Stakit.OrmExpressions
import Stakit.SqlGrammar

set_option autoImplicit false

namespace Stakit.Orm
open SqlGrammar List

inductive Backend where
  | postgres
  | sqlite
  | mysql
  | turso

def Backend.dialect : Backend → Dialect
  | postgres => postgresDialect
  | sqlite => sqliteDialect
  | mysql => mysqlDialect
  | turso => tursoDialect

def Backend.isMysql : Backend → Bool
  | .mysql => true
  | _ => false

def Piece.tokens : Piece → List Token
  | text fixed => lexText fixed
  | name given => [.word given]
  | raw _ => []
  | number value => [.number value]
  | ident given => [.ident given]
  | placeholder position => [.placeholder position]

def tokens (pieces : List Piece) : List Token := pieces.flatMap Piece.tokens

def CompareOp.infix : CompareOp → Infix
  | eq => .eq
  | ne => .ne
  | gt => .gt
  | lt => .lt
  | gte => .ge
  | lte => .le
  | like => .like

def ArithOp.infix : ArithOp → Infix
  | add => .add
  | sub => .sub

/-- The bound value at `position`, with the wrapping it is written in. -/
def Value.tree (b : Backend) (position : ℕ) : Value → Sql
  | cast type _ =>
    match b with
    | .postgres => .cast (.placeholder position) type
    | _ => .placeholder position
  | geo _ srid =>
    match b, srid with
    | .postgres, none => .cast (.placeholder position) "geometry"
    | .postgres, some srid => .call "ST_SetSRID"
        (.infixed .comma (.cast (.placeholder position) "geometry") (.number srid))
    | _, _ => .placeholder position
  | vector _ =>
    match b with
    | .postgres => .cast (.placeholder position) "vector"
    | .turso => .call "vector32" (.placeholder position)
    | _ => .placeholder position
  | _ => .placeholder position

def itemsTree (b : Backend) (position : ℕ) (first : Sql) : List Value → Sql
  | [] => first
  | item :: rest =>
    itemsTree b (position + 1) (.infixed .comma first (item.tree b position)) rest

/-- Membership where it is written element by element. -/
def membershipTree (b : Backend) (bound : ℕ) (table name : String) (values : Value) : Sql :=
  match values with
  | .array _ [] => .infixed .eq (.constant "1") (.constant "0")
  | .array _ (item :: rest) => .infixed .within (.column table name)
      (itemsTree b (bound + 2) (item.tree b (bound + 1)) rest)
  | values => .infixed .within (.column table name) (values.tree b (bound + 1))

def anyOfTree (b : Backend) (bound : ℕ) (table name : String) (values : Value) : Sql :=
  match b with
  | .postgres => .infixed .eq (.column table name) (.call "any" (values.tree b (bound + 1)))
  | _ => membershipTree b bound table name values

def tsvectorTree (table name config : String) (stored : Bool) : Sql :=
  if stored then .column table name
  else .call "to_tsvector" (.infixed .comma (.literal [.word config]) (.column table name))

def matchTree (b : Backend) (bound : ℕ) (table name : String) (config : Option String)
    (stored : Bool) : Sql :=
  match b with
  | .postgres => .infixed .tsMatch (tsvectorTree table name (config.getD "english") stored)
      (.call "plainto_tsquery" (.infixed .comma (.literal [.word (config.getD "english")])
        (.placeholder (bound + 1))))
  | _ => .infixed .contains (.column table name) (.placeholder (bound + 1))

def likeTree (b : Backend) (bound : ℕ) (table name : String) (pattern : Value) : Sql :=
  .infixed .escape (.infixed .like (.column table name) (pattern.tree b (bound + 1)))
    (.literal [.word "\\"])

def spatialTree (b : Backend) (bound : ℕ) (func table name : String) (geom : Value)
    (distance : Option UInt64) : Sql :=
  let pair := .infixed .comma (.column table name) (geom.tree b (bound + 1))
  .call func (match distance with
    | some _ => .infixed .comma pair (.placeholder (bound + 2))
    | none => pair)

def secondsTree (position : ℕ) : Sql :=
  .infixed .mul (.cast (.placeholder position) "bigint") (.interval [.word "1", .word "second"])

def Operand.isCutoff : Operand → Bool
  | databaseNow seconds => seconds.isSome
  | _ => false

/-- `first op second` as the text reads when `second` is an operation without parentheses. -/
def regroup (op : Infix) (first : Sql) : Sql → Sql
  | .infixed last lhs rhs => .infixed last (.infixed op first lhs) rhs
  | second => .infixed op first second

def Operand.width (d : Dialect) (operand : Operand) : ℕ := (values (operand.slots d)).length

def Predicate.width (d : Dialect) (predicate : Predicate) : ℕ :=
  (values (predicate.slots d)).length

mutual

/-- The operand as an SQL tree after `bound` values.  With `grouped` it is the tree the operand
is; without, the tree its text reads as. -/
def Operand.tree (b : Backend) (grouped : Bool) (bound : ℕ) : Operand → Sql
  | .column table name => .column table name
  | .value value => value.tree b (bound + 1)
  | .excluded name =>
    match b with
    | .mysql => .call "values" (.ident name)
    | _ => .field "excluded" name
  | .case condition thenValue elseValue =>
    let afterCondition := bound + condition.width b.dialect
    .case (condition.tree b grouped bound) (thenValue.tree b grouped afterCondition)
      (elseValue.tree b grouped (afterCondition + thenValue.width b.dialect))
  | .databaseNow seconds =>
    match seconds with
    | some _ => .infixed .sub (.nullary "now") (secondsTree (bound + 1))
    | none => .nullary "now"
  | .arith lhs op rhs =>
    let first := lhs.tree b grouped bound
    let second := rhs.tree b grouped (bound + lhs.width b.dialect)
    if !grouped && rhs.isCutoff then regroup op.infix first second
    else .infixed op.infix first second

def Predicate.tree (b : Backend) (grouped : Bool) (bound : ℕ) : Predicate → Sql
  | .binary table name op rhs =>
    .infixed op.infix (.column table name) (rhs.tree b grouped bound)
  | .isNull table name => .isNull (.column table name)
  | .anyOf table name values => anyOfTree b bound table name values
  | .and left right => .infixed .and (left.tree b grouped bound)
      (right.tree b grouped (bound + left.width b.dialect))
  | .or left right => .infixed .or (left.tree b grouped bound)
      (right.tree b grouped (bound + left.width b.dialect))
  | .not inner => .not (inner.tree b grouped bound)
  | .matchQuery table name _ config stored => matchTree b bound table name config stored
  | .like table name pattern => likeTree b bound table name pattern
  | .spatial func table name geom distance => spatialTree b bound func table name geom distance
  | .raw fragment => .constant fragment

end

mutual

/-- The operand holds no raw fragment. -/
def Operand.typed : Operand → Bool
  | .case condition thenValue elseValue => condition.typed && thenValue.typed && elseValue.typed
  | .arith lhs _ rhs => lhs.typed && rhs.typed
  | _ => true

def Predicate.typed : Predicate → Bool
  | .binary _ _ _ rhs => rhs.typed
  | .and left right => left.typed && right.typed
  | .or left right => left.typed && right.typed
  | .not inner => inner.typed
  | .raw _ => false
  | _ => true

end

mutual

/-- No arithmetic has a database time minus seconds on its right. -/
def Operand.bracketed : Operand → Bool
  | .case condition thenValue elseValue =>
    condition.bracketed && thenValue.bracketed && elseValue.bracketed
  | .arith lhs _ rhs => lhs.bracketed && rhs.bracketed && !rhs.isCutoff
  | _ => true

def Predicate.bracketed : Predicate → Bool
  | .binary _ _ _ rhs => rhs.bracketed
  | .and left right => left.bracketed && right.bracketed
  | .or left right => left.bracketed && right.bracketed
  | .not inner => inner.bracketed
  | _ => true

end

section Tokens

variable (d : Dialect) (bound : ℕ)

/-- The tokens of a template after `bound` values. -/
def slotTokens (slots : List Slot) : List Token := tokens (layout d bound slots)

theorem slotTokens_append (first rest : List Slot) : slotTokens d bound (first ++ rest) =
    slotTokens d bound first ++ slotTokens d (bound + (values first).length) rest := by
  rw [slotTokens, layout_append, tokens, flatMap_append]
  rfl

theorem slotTokens_nil : slotTokens d bound [] = [] := rfl

theorem slotTokens_text (fixed : String) (rest : List Slot) :
    slotTokens d bound (.text fixed :: rest) = lexText fixed ++ slotTokens d bound rest := rfl

theorem slotTokens_name (given : String) (rest : List Slot) :
    slotTokens d bound (.name given :: rest) = .word given :: slotTokens d bound rest := rfl

theorem slotTokens_ident (given : String) (rest : List Slot) :
    slotTokens d bound (.ident given :: rest) = .ident given :: slotTokens d bound rest := rfl

theorem slotTokens_bind (value : Value) (rest : List Slot) :
    slotTokens d bound (.bind value :: rest) =
      tokens (value.pieces d (bound + 1)) ++ slotTokens d (bound + 1) rest := by
  rw [slotTokens, layout, tokens, flatMap_append]
  rfl

theorem slotTokens_flag (c : Prop) [Decidable c] (feature : String) (rest : List Slot) :
    slotTokens d bound ((if c then [.needs feature] else []) ++ rest) =
      slotTokens d bound rest := by
  split <;> rfl

theorem slotTokens_around (table name before after : String) (value : Value) :
    slotTokens d bound (qualified table name ++ [Slot.text before, .bind value, .text after]) =
      [Token.ident table, .dot, .ident name] ++
        (lexText before ++ (tokens (value.pieces d (bound + 1)) ++ lexText after)) := by
  rw [slotTokens_append, slotTokens_text, slotTokens_bind, slotTokens_text, slotTokens_nil,
    append_nil]
  rfl

end Tokens

variable (b : Backend) (bound : ℕ) (table name : String)

theorem leads_column (bound : ℕ) (d : Dialect) :
    Leads itemLevel (slotTokens d bound (qualified table name)) (.column table name) :=
  (item_column table name).leads

theorem leads_value (position : ℕ) (value : Value) :
    Leads castLevel (tokens (value.pieces b.dialect position)) (value.tree b position) := by
  have hplain : Leads castLevel [.placeholder position] (.placeholder position) :=
    (item_placeholder position).leads.mono (by decide)
  have hcast (type : String) := leads_cast type (item_placeholder position).leads (by decide)
  cases value with
  | cast type inner =>
    cases b with
    | postgres => exact hcast type
    | _ => exact hplain
  | geo wkt srid =>
    cases b with
    | postgres =>
      cases srid with
      | none => exact hcast "geometry"
      | some srid =>
        have hpair := leads_infixed .comma (hcast "geometry") (item_number srid).leads (by decide)
          (by decide)
        exact (item_call "ST_SetSRID" hpair).leads.mono (by decide)
    | _ => cases srid <;> exact hplain
  | vector components =>
    cases b with
    | postgres => exact hcast "vector"
    | turso => exact (item_call "vector32" hplain).leads.mono (by decide)
    | _ => exact hplain
  | _ => exact hplain

theorem leads_beside {l : ℕ} {ts : List Token} {e : Sql} (table name : String) (op : Infix)
    (h : Leads l ts e) (hl : op.level + 1 ≤ l) (hop : op.level ≤ itemLevel) :
    Leads op.level ([Token.ident table, .dot, .ident name] ++ Token.infixed op :: ts)
      (.infixed op (.column table name) e) :=
  leads_infixed op (item_column table name).leads h hop hl

theorem leads_tsvector (config : String) (stored : Bool) (d : Dialect) (bound : ℕ) :
    Leads castLevel (slotTokens d bound (tsvectorSlots table name config stored))
      (tsvectorTree table name config stored) := by
  cases stored with
  | true => exact (leads_column table name bound d).mono (by decide)
  | false =>
    have hconfig := (item_literal [.word config] (by simp)).leads
    have hpair := leads_infixed .comma hconfig (item_column table name).leads (by decide)
      (by decide)
    exact (item_call "to_tsvector" hpair).leads.mono (by decide)

theorem values_tsvector (config : String) (stored : Bool) :
    values (tsvectorSlots table name config stored) = [] := by
  cases stored <;> rfl

theorem leads_match (query : String) (config : Option String) (stored : Bool) :
    Leads isLevel (slotTokens b.dialect bound (matchSlots b.dialect table name query config stored))
      (matchTree b bound table name config stored) := by
  have hmatch := leads_beside table name .contains (item_placeholder (bound + 1)).leads
    (by decide) (by decide)
  cases b with
  | postgres =>
    have hconfig := (item_literal [.word (config.getD "english")] (by simp)).leads
    have hquery := leads_infixed .comma hconfig (item_placeholder (bound + 1)).leads (by decide)
      (by decide)
    have hwhole := leads_infixed .tsMatch
      (leads_tsvector table name (config.getD "english") stored postgresDialect bound)
      (item_call "plainto_tsquery" hquery).leads (by decide) (by decide)
    have htokens : slotTokens postgresDialect bound
        (matchSlots postgresDialect table name query config stored) =
        slotTokens postgresDialect bound
          (tsvectorSlots table name (config.getD "english") stored) ++
          slotTokens postgresDialect bound [.text " @@ plainto_tsquery('",
            .name (config.getD "english"), .text "', ", .bind (.text query), .text ")"] := by
      have happend := slotTokens_append postgresDialect bound
        (tsvectorSlots table name (config.getD "english") stored)
        [.text " @@ plainto_tsquery('", .name (config.getD "english"), .text "', ",
          .bind (.text query), .text ")"]
      rwa [values_tsvector] at happend
    have hleads := hwhole.mono (k := isLevel) (by decide)
    rw [Backend.dialect, htokens]
    exact hleads
  | _ =>
    unfold matchSlots matchTree
    exact hmatch

theorem leads_like (pattern : Value) :
    Leads isLevel (slotTokens b.dialect bound (likeSlots table name pattern))
      (likeTree b bound table name pattern) := by
  have hlike := leads_beside table name .like (leads_value b (bound + 1) pattern) (by decide)
    (by decide)
  have hescape := leads_infixed .escape hlike (item_literal [.word "\\"] (by simp)).leads
    (by decide) (by decide)
  rw [likeSlots, slotTokens_append, slotTokens_text, slotTokens_bind]
  have htokens (ts : List Token) : [Token.ident table, .dot, .ident name] ++
      ([Token.infixed .like] ++ (ts ++ [Token.infixed .escape, .quote, .word "\\", .quote])) =
      [Token.ident table, .dot, .ident name] ++ Token.infixed .like :: ts ++
        Token.infixed .escape :: (Token.quote :: [Token.word "\\"] ++ [Token.quote]) := by
    simp
  rw [← htokens] at hescape
  exact hescape

theorem leads_spatial (func table name : String) (geom : Value) (distance : Option UInt64) :
    Leads isLevel (slotTokens b.dialect bound
      (spatialSlots b.dialect func table name geom distance))
      (spatialTree b bound func table name geom distance) := by
  have hpair := leads_beside table name .comma (leads_value b (bound + 1) geom) (by decide)
    (by decide)
  have hneeds (slots : List Slot) : slotTokens b.dialect bound
      ((if b.dialect.supportsSpatial then [] else [Slot.needs "PostGIS"]) ++ slots) =
      slotTokens b.dialect bound slots := by
    split <;> rfl
  cases distance with
  | none =>
    have hcall := (item_call func hpair).leads.mono (k := isLevel) (by decide)
    rw [spatialSlots]
    simp only [append_assoc, Option.elim]
    rw [hneeds]
    simp only [cons_append, nil_append, slotTokens_name, slotTokens_text, qualified,
      slotTokens_ident, slotTokens_bind, slotTokens_nil]
    simp only [cons_append, nil_append] at hcall
    exact hcall
  | some distance =>
    have htriple := leads_infixed .comma hpair (item_placeholder (bound + 2)).leads (by decide)
      (by decide)
    have hcall := (item_call func htriple).leads.mono (k := isLevel) (by decide)
    rw [spatialSlots]
    simp only [append_assoc, Option.elim]
    rw [hneeds]
    simp only [cons_append, nil_append, slotTokens_name, slotTokens_text, qualified,
      slotTokens_ident, slotTokens_bind, slotTokens_nil]
    simp only [cons_append, append_assoc, nil_append] at hcall
    exact hcall

theorem leads_items (items : List Value) (ts : List Token) (e : Sql) (l : ℕ) (h : Leads l ts e) :
    ∃ k, Leads k (ts ++ slotTokens b.dialect bound (listed (some ", ") (fun item => [.bind item])
      items)) (itemsTree b (bound + 1) e items) := by
  induction items generalizing bound ts e l with
  | nil => exact ⟨l, by rwa [listed, slotTokens_nil, append_nil]⟩
  | cons item rest ih =>
    have hpair := leads_infixed .comma h (leads_value b (bound + 1) item) (Nat.zero_le l)
      (by decide)
    obtain ⟨k, hk⟩ := ih (bound + 1) _ _ _ hpair
    refine ⟨k, ?_⟩
    rw [listed, append_assoc, Option.elim, cons_append, nil_append,
      slotTokens_text, cons_append, slotTokens_bind, nil_append]
    rw [append_assoc, cons_append] at hk
    exact hk

theorem leads_membership (hb : b.dialect.supportsAnyArray = false) (bound : ℕ)
    (table name : String) (given : Value) :
    Leads isLevel (slotTokens b.dialect bound (anyOfSlots b.dialect table name given))
      (membershipTree b bound table name given) := by
  have hin {l : ℕ} {ts : List Token} {e : Sql} (h : Leads l ts e) :=
    leads_beside table name .within (item_paren h).leads (by decide) (by decide)
  have hone : Leads isLevel ([Token.ident table, .dot, .ident name] ++
      ([Token.infixed .within, .lpar] ++
        (tokens (given.pieces b.dialect (bound + 1)) ++ [Token.rpar])))
      (.infixed .within (.column table name) (given.tree b (bound + 1))) :=
    hin (leads_value b (bound + 1) given)
  unfold anyOfSlots
  rw [if_neg (by rw [hb]; decide)]
  cases given with
  | array kind items =>
    cases items with
    | nil =>
      exact leads_infixed .eq (leads_constant "1") (leads_constant "0") (by decide) (by decide)
    | cons item rest =>
      obtain ⟨k, hitems⟩ := leads_items b (bound + 1) rest _ _ _ (leads_value b (bound + 1) item)
      have hmany := hin hitems
      have hvalues : values (qualified table name ++ [Slot.text " in ("]) = [] := rfl
      dsimp only
      rw [append_assoc, slotTokens_append, hvalues, length_nil, Nat.add_zero, listed,
        append_assoc, Option.elim, nil_append, cons_append, nil_append,
        slotTokens_bind, slotTokens_append b.dialect (bound + 1)]
      simp only [cons_append, append_assoc, nil_append] at hmany
      exact hmany
  | _ =>
    dsimp only
    rw [slotTokens_around]
    exact hone

theorem leads_anyOf (given : Value) :
    Leads isLevel (slotTokens b.dialect bound (anyOfSlots b.dialect table name given))
      (anyOfTree b bound table name given) := by
  cases b with
  | postgres =>
    have hany := leads_beside table name .eq
      (item_call "any" (leads_value .postgres (bound + 1) given)).leads (by decide) (by decide)
    have harray : Backend.postgres.dialect.supportsAnyArray = true := rfl
    unfold anyOfSlots
    rw [if_pos harray, slotTokens_around]
    simp only [cons_append] at hany
    exact hany
  | sqlite => exact leads_membership .sqlite rfl bound table name given
  | mysql => exact leads_membership .mysql rfl bound table name given
  | turso => exact leads_membership .turso rfl bound table name given

theorem lex_compare (op : CompareOp) : lexText op.text = [.infixed op.infix] := by
  cases op <;> rfl

theorem lex_arith (op : ArithOp) : lexText op.text = [.infixed op.infix] := by
  cases op <;> rfl

theorem level_compare (op : CompareOp) : op.infix.level = isLevel := by
  cases op <;> rfl

theorem level_arith (op : ArithOp) : op.infix.level = Infix.sub.level := by
  cases op <;> rfl

def Operand.level (operand : Operand) : ℕ :=
  if operand.isCutoff then Infix.sub.level else castLevel

theorem Operand.sub_le_level (operand : Operand) : Infix.sub.level ≤ operand.level := by
  unfold Operand.level
  split <;> decide

theorem leads_seconds (position : ℕ) :
    Leads itemLevel [.lpar, .placeholder position, .doubleColon, .word "bigint", .infixed .mul,
      .intervalWord, .quote, .word "1", .word "second", .quote, .rpar] (secondsTree position) := by
  have hcast := leads_cast "bigint" (item_placeholder position).leads (by decide)
  have hinterval := item_interval [.word "1", .word "second"] (by simp)
  exact (item_paren (leads_infixed .mul hcast hinterval.leads (by decide) (by decide))).leads

mutual

theorem Operand.leads (b : Backend) (bound : ℕ) (operand : Operand) (h : operand.typed = true) :
    Leads operand.level (slotTokens b.dialect bound (operand.slots b.dialect))
      (operand.tree b false bound) := by
  have hitem : castLevel ≤ itemLevel := by decide
  cases operand with
  | column table name => exact (leads_column table name bound b.dialect).mono hitem
  | value value =>
    have hvalue := leads_value b (bound + 1) value
    rw [Operand.slots, slotTokens_bind, slotTokens_nil, append_nil]
    exact hvalue
  | excluded name =>
    have hfield := (item_field "excluded" name).leads.mono (k := castLevel) (by decide)
    cases b with
    | mysql => exact (item_call "values" (leads_ident name)).leads.mono hitem
    | _ => exact hfield
  | case condition thenValue elseValue =>
    rw [Operand.typed, Bool.and_eq_true, Bool.and_eq_true] at h
    have hcase := item_case (Predicate.leads b bound condition h.1.1)
      (Operand.leads b (bound + condition.width b.dialect) thenValue h.1.2)
      (Operand.leads b (bound + condition.width b.dialect + thenValue.width b.dialect) elseValue
        h.2)
    have hwhole := hcase.leads.mono (k := castLevel) (by decide)
    rw [Operand.slots]
    simp only [append_assoc, cons_append, nil_append, slotTokens_text,
      slotTokens_append, slotTokens_nil, append_nil] at hwhole ⊢
    exact hwhole
  | databaseNow seconds =>
    cases seconds with
    | none =>
      rw [Operand.slots, append_assoc, slotTokens_flag]
      exact (item_nullary "now").leads.mono hitem
    | some seconds =>
      rw [Operand.slots, append_assoc, slotTokens_flag]
      exact leads_infixed .sub (item_nullary "now").leads (leads_seconds (bound + 1)) (by decide)
        (by decide)
  | arith lhs op rhs =>
    rw [Operand.typed, Bool.and_eq_true] at h
    have hlhs := (Operand.leads b bound lhs h.1).mono lhs.sub_le_level
    have hop : op.infix.level ≤ Infix.sub.level := (level_arith op).le
    have htokens : slotTokens b.dialect bound ((Operand.arith lhs op rhs).slots b.dialect) =
        Token.lpar :: (slotTokens b.dialect bound (lhs.slots b.dialect) ++ Token.infixed op.infix ::
            slotTokens b.dialect (bound + lhs.width b.dialect) (rhs.slots b.dialect)) ++
          [Token.rpar] := by
      rw [Operand.slots]
      simp only [append_assoc, cons_append, nil_append, slotTokens_text,
        slotTokens_append, slotTokens_nil, append_nil, lex_arith]
      rfl
    rw [htokens, Operand.tree]
    by_cases hcutoff : rhs.isCutoff = true
    · cases rhs with
      | databaseNow seconds =>
        cases seconds with
        | none => cases hcutoff
        | some seconds =>
          have hnow := leads_infixed op.infix hlhs (item_nullary "now").leads hop
            (by rw [level_arith]; decide)
          have hsub := leads_infixed .sub hnow
            (leads_seconds (bound + lhs.width b.dialect + 1)) (level_arith op).ge (by decide)
          have hparen := (item_paren hsub).leads.mono (k := castLevel) (by decide)
          rw [Operand.slots, append_assoc, slotTokens_flag]
          simp only [append_assoc, cons_append, nil_append] at hparen ⊢
          exact hparen
      | _ => cases hcutoff
    · have hrhs := Operand.leads b (bound + lhs.width b.dialect) rhs h.2
      rw [Operand.level, if_neg hcutoff] at hrhs
      have hwhole := leads_infixed op.infix hlhs hrhs hop (by rw [level_arith]; decide)
      rw [if_neg (by simpa using hcutoff)]
      exact (item_paren hwhole).leads.mono hitem

theorem Predicate.leads (b : Backend) (bound : ℕ) (predicate : Predicate)
    (h : predicate.typed = true) :
    Leads notLevel (slotTokens b.dialect bound (predicate.slots b.dialect))
      (predicate.tree b false bound) := by
  have hjoin (op : Infix) (left right : Predicate) (hop : op.level + 1 ≤ notLevel)
      (hleft : Leads notLevel (slotTokens b.dialect bound (left.slots b.dialect))
        (left.tree b false bound))
      (hright : Leads notLevel (slotTokens b.dialect (bound + left.width b.dialect)
        (right.slots b.dialect)) (right.tree b false (bound + left.width b.dialect))) :
      Leads notLevel (Token.lpar :: (slotTokens b.dialect bound (left.slots b.dialect) ++
        Token.infixed op :: slotTokens b.dialect (bound + left.width b.dialect)
          (right.slots b.dialect)) ++ [Token.rpar])
        (.infixed op (left.tree b false bound)
          (right.tree b false (bound + left.width b.dialect))) :=
    (item_paren (leads_infixed op hleft hright (by omega) hop)).leads.mono (by decide)
  cases predicate with
  | binary table name op rhs =>
    have hrhs := Operand.leads b bound rhs h
    have hlevel := rhs.sub_le_level
    have hsub : Infix.sub.level = 6 := rfl
    have hwhole := leads_beside table name op.infix hrhs
      (by rw [level_compare, isLevel]; omega) (by rw [level_compare]; decide)
    have hmono := hwhole.mono (k := notLevel) (by rw [level_compare]; decide)
    rw [Predicate.slots]
    simp only [append_assoc, cons_append, nil_append, slotTokens_text,
      slotTokens_append, lex_compare] at hmono ⊢
    exact hmono
  | isNull table name =>
    exact (leads_isNull (item_column table name).leads (by decide)).mono (by decide)
  | anyOf table name values => exact (leads_anyOf b bound table name values).mono (by decide)
  | and left right =>
    rw [Predicate.typed, Bool.and_eq_true] at h
    have hboth := hjoin .and left right (by decide) (Predicate.leads b bound left h.1)
      (Predicate.leads b _ right h.2)
    rw [Predicate.slots]
    simp only [append_assoc, cons_append, nil_append, slotTokens_text,
      slotTokens_append, slotTokens_nil, append_nil] at hboth ⊢
    exact hboth
  | or left right =>
    rw [Predicate.typed, Bool.and_eq_true] at h
    have hboth := hjoin .or left right (by decide) (Predicate.leads b bound left h.1)
      (Predicate.leads b _ right h.2)
    rw [Predicate.slots]
    simp only [append_assoc, cons_append, nil_append, slotTokens_text,
      slotTokens_append, slotTokens_nil, append_nil] at hboth ⊢
    exact hboth
  | not inner =>
    have hinner := leads_not (item_paren (Predicate.leads b bound inner h)).leads (by decide)
    rw [Predicate.slots]
    simp only [cons_append, nil_append, slotTokens_text,
      slotTokens_append, slotTokens_nil, append_nil] at hinner ⊢
    exact hinner
  | matchQuery table name query config stored =>
    exact (leads_match b bound table name query config stored).mono (by decide)
  | like table name pattern => exact (leads_like b bound table name pattern).mono (by decide)
  | spatial func table name geom distance =>
    exact (leads_spatial b bound func table name geom distance).mono (by decide)
  | raw fragment => cases h

end

theorem regroup_ne (op : Infix) (first first' now : Sql) (position position' : ℕ) :
    regroup op first (.infixed .sub now (secondsTree position)) ≠
      .infixed op first' (.infixed .sub now (secondsTree position')) := by
  intro h
  rw [regroup, Sql.infixed.injEq, secondsTree, Sql.infixed.injEq] at h
  exact absurd h.2.2.1 (by decide)

mutual

theorem Operand.tree_eq_iff (b : Backend) (bound : ℕ) (operand : Operand) :
    operand.tree b false bound = operand.tree b true bound ↔ operand.bracketed = true := by
  cases operand with
  | case condition thenValue elseValue =>
    rw [Operand.tree, Operand.tree, Sql.case.injEq, Operand.bracketed, Bool.and_eq_true,
      Bool.and_eq_true, Predicate.tree_eq_iff b _ condition, Operand.tree_eq_iff b _ thenValue,
      Operand.tree_eq_iff b _ elseValue, and_assoc]
  | arith lhs op rhs =>
    rw [Operand.tree, Operand.tree, Operand.bracketed]
    by_cases hcutoff : rhs.isCutoff = true
    · cases rhs with
      | databaseNow seconds =>
        cases seconds with
        | none => cases hcutoff
        | some seconds =>
          refine iff_of_false (fun h => ?_) (by simp [hcutoff])
          exact regroup_ne _ _ _ _ _ _ h
      | _ => cases hcutoff
    · have hgrouped : ¬(!false && rhs.isCutoff) = true := by simpa using hcutoff
      rw [if_neg hgrouped, if_neg (by simp), Sql.infixed.injEq, Operand.tree_eq_iff b _ lhs,
        Operand.tree_eq_iff b _ rhs]
      simp [hcutoff]
  | databaseNow seconds => cases seconds <;> exact iff_of_true rfl rfl
  | _ => exact iff_of_true rfl rfl

theorem Predicate.tree_eq_iff (b : Backend) (bound : ℕ) (predicate : Predicate) :
    predicate.tree b false bound = predicate.tree b true bound ↔ predicate.bracketed = true := by
  cases predicate with
  | binary table name op rhs =>
    rw [Predicate.tree, Predicate.tree, Sql.infixed.injEq, Operand.tree_eq_iff b _ rhs,
      Predicate.bracketed]
    simp
  | and left right | or left right =>
    rw [Predicate.tree, Predicate.tree, Sql.infixed.injEq, Predicate.tree_eq_iff b _ left,
      Predicate.tree_eq_iff b _ right, Predicate.bracketed, Bool.and_eq_true]
    simp
  | not inner =>
    rw [Predicate.tree, Predicate.tree, Sql.not.injEq, Predicate.tree_eq_iff b _ inner,
      Predicate.bracketed]
  | _ => exact iff_of_true rfl rfl

end

theorem written_parses (b : Backend) (predicate : Predicate) (w : SqlWriter)
    (htyped : predicate.typed = true)
    (h : predicate.write b.dialect SqlWriter.new = .ok w) :
    Parses (tokens w.pieces) (predicate.tree b false 0) := by
  rw [Predicate.write_eq, emit_eq_ok] at h
  obtain ⟨_, rfl⟩ := h
  exact (Predicate.leads b 0 predicate htyped).parses

/-- The text of a predicate without raw fragments is read back as the predicate's own tree exactly
when no arithmetic in it has a database time minus seconds on its right. -/
theorem predicate_reads_back_iff (b : Backend) (predicate : Predicate) (w : SqlWriter)
    (htyped : predicate.typed = true)
    (h : predicate.write b.dialect SqlWriter.new = .ok w) :
    Parses (tokens w.pieces) (predicate.tree b true 0) ↔ predicate.bracketed = true := by
  have hread := written_parses b predicate w htyped h
  rw [← Predicate.tree_eq_iff b 0 predicate]
  constructor
  · intro hown
    exact parses_unique hread hown
  · intro hsame
    rwa [← hsame]

/-- A nesting of every kind of node under one connective or another. -/
def nestedPredicate : Predicate :=
  .and (.not (.or (.isNull "t" "bio") (.anyOf "t" "id" (.array .i32 [.i32 1, .i32 2]))))
    (.binary "t" "seen" .gt (.case (.like "t" "name" (.text "%a%")) (.databaseNow (some 600))
      (.arith (.column "t" "a") .sub (.arith (.value (.i32 1)) .add (.excluded "b")))))

theorem nestedPredicate_reads_back : ∃ w,
    nestedPredicate.write postgresDialect SqlWriter.new = .ok w ∧
      Parses (tokens w.pieces) (nestedPredicate.tree .postgres true 0) :=
  ⟨_, rfl, (predicate_reads_back_iff .postgres nestedPredicate _ rfl rfl).mpr rfl⟩

/-- `"t"."left" > ("t"."seen" - now() - (…))`: the cutoff is subtracted from a difference. -/
def cutoffDifference : Predicate :=
  .binary "t" "left" .gt (.arith (.column "t" "seen") .sub (.databaseNow (some 600)))

theorem cutoffDifference_misread : ∃ w, cutoffDifference.typed = true ∧
      cutoffDifference.write postgresDialect SqlWriter.new = .ok w ∧
      ¬Parses (tokens w.pieces) (cutoffDifference.tree .postgres true 0) := by
  refine ⟨_, rfl, rfl, fun hown => ?_⟩
  have hread := written_parses .postgres cutoffDifference _ rfl rfl
  have hsame := parses_unique hread hown
  exact absurd ((Predicate.tree_eq_iff .postgres 0 cutoffDifference).mp hsame) (by decide)

end Stakit.Orm
