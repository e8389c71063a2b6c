import Mathlib.Data.Int.Notation
import Mathlib.Data.List.Basic
import Stakit.FuelRuns

set_option autoImplicit false

/-!
# A grammar of SQL expressions

Tokens, expression trees and an operator-precedence parser: OR binds loosest, then AND, NOT, the
comparisons with IS, IN and LIKE, other operators, addition, multiplication and casts, and CASE
to END and parentheses bracket what stands between them.  The rules build the parse of a token
list from the parses of its parts.
-/
namespace Stakit.SqlGrammar
open FuelRuns List

inductive Infix where
  | comma
  | or
  | and
  | eq
  | ne
  | gt
  | lt
  | ge
  | le
  | like
  | escape
  | contains
  | tsMatch
  | within
  | add
  | sub
  | mul
deriving DecidableEq

namespace Infix

/-- How tightly the operator binds. -/
def level : Infix → ℕ
  | comma => 0
  | or => 1
  | and => 2
  | eq | ne | gt | lt | ge | le | like | escape | contains | within => 4
  | tsMatch => 5
  | add | sub => 6
  | mul => 7

end Infix

inductive Token where
  | infixed (op : Infix)
  | lpar
  | rpar
  | dot
  | quote
  | doubleColon
  | notWord
  | caseWord
  | whenWord
  | thenWord
  | elseWord
  | endWord
  | isWord
  | nullWord
  | intervalWord
  | word (text : String)
  | ident (name : String)
  | placeholder (position : ℕ)
  | number (value : ℤ)
deriving DecidableEq

def isWordChar (c : Char) : Bool := c.isAlphanum || c = '_'

def isOperatorChar (c : Char) : Bool := c ∈ ['=', '<', '>', '+', '-', '*', '@', ':', '#', '\\']

def wordToken (text : String) : Token :=
  match text with
  | "or" => .infixed .or
  | "and" => .infixed .and
  | "like" => .infixed .like
  | "escape" => .infixed .escape
  | "match" => .infixed .contains
  | "in" => .infixed .within
  | "not" => .notWord
  | "case" => .caseWord
  | "when" => .whenWord
  | "then" => .thenWord
  | "else" => .elseWord
  | "end" => .endWord
  | "is" => .isWord
  | "null" => .nullWord
  | "interval" => .intervalWord
  | text => .word text

def operatorToken (text : String) : Token :=
  match text with
  | "=" => .infixed .eq
  | "<>" => .infixed .ne
  | ">" => .infixed .gt
  | "<" => .infixed .lt
  | ">=" => .infixed .ge
  | "<=" => .infixed .le
  | "+" => .infixed .add
  | "-" => .infixed .sub
  | "*" => .infixed .mul
  | "@@" => .infixed .tsMatch
  | "::" => .doubleColon
  | text => .word text

def singleToken : Char → Option Token
  | '(' => some .lpar
  | ')' => some .rpar
  | ',' => some (.infixed .comma)
  | '.' => some .dot
  | '\'' => some .quote
  | _ => none

/-- The run of characters read so far, and which kind of run it is. -/
inductive Run where
  | blank
  | word (reversed : List Char)
  | operator (reversed : List Char)

def Run.tokens : Run → List Token
  | blank => []
  | word reversed => [wordToken (String.ofList reversed.reverse)]
  | operator reversed => [operatorToken (String.ofList reversed.reverse)]

def lexFrom : Run → List Char → List Token
  | run, [] => run.tokens
  | run, c :: rest =>
    if isWordChar c then
      match run with
      | .word reversed => lexFrom (.word (c :: reversed)) rest
      | run => run.tokens ++ lexFrom (.word [c]) rest
    else if isOperatorChar c then
      match run with
      | .operator reversed => lexFrom (.operator (c :: reversed)) rest
      | run => run.tokens ++ lexFrom (.operator [c]) rest
    else run.tokens ++ (singleToken c).toList ++ lexFrom .blank rest

def lexText (text : String) : List Token := lexFrom .blank text.toList

inductive Sql where
  | column (table name : String)
  | field (word name : String)
  | ident (name : String)
  | placeholder (position : ℕ)
  | number (value : ℤ)
  | constant (word : String)
  | literal (text : List Token)
  | interval (text : List Token)
  | nullary (function : String)
  | call (function : String) (arguments : Sql)
  | cast (inner : Sql) (type : String)
  | infixed (op : Infix) (lhs rhs : Sql)
  | isNull (inner : Sql)
  | not (inner : Sql)
  | case (condition thenValue elseValue : Sql)

abbrev Parsed := Option (Sql × List Token)

def readLiteral : List Token → Option (List Token × List Token)
  | [] => none
  | .quote :: rest => some ([], rest)
  | token :: rest => (readLiteral rest).map fun found => (token :: found.1, found.2)

def notLevel : ℕ := 3

def isLevel : ℕ := 4

def castLevel : ℕ := 9

mutual

/-- An expression whose operators bind at least as tightly as `least`. -/
def expr : ℕ → ℕ → List Token → Parsed
  | 0, _, _ => none
  | n + 1, least, ts => (term n ts).bind fun found => climb n least found.1 found.2

/-- What an expression starts with: a bracketed or a single item. -/
def term : ℕ → List Token → Parsed
  | 0, _ => none
  | n + 1, .lpar :: ts => (expr n 0 ts).bind fun
    | (inner, .rpar :: rest) => some (inner, rest)
    | _ => none
  | n + 1, .notWord :: ts => (expr n (notLevel + 1) ts).map fun found => (.not found.1, found.2)
  | n + 1, .caseWord :: .whenWord :: ts => (expr n 0 ts).bind fun
    | (condition, .thenWord :: ts) => (expr n 0 ts).bind fun
      | (thenValue, .elseWord :: ts) => (expr n 0 ts).bind fun
        | (elseValue, .endWord :: rest) => some (.case condition thenValue elseValue, rest)
        | _ => none
      | _ => none
    | _ => none
  | _ + 1, .intervalWord :: .quote :: ts =>
    (readLiteral ts).map fun found => (.interval found.1, found.2)
  | _ + 1, .quote :: ts => (readLiteral ts).map fun found => (.literal found.1, found.2)
  | _ + 1, .ident table :: .dot :: .ident name :: rest => some (.column table name, rest)
  | _ + 1, .ident name :: rest => some (.ident name, rest)
  | _ + 1, .placeholder position :: rest => some (.placeholder position, rest)
  | _ + 1, .number value :: rest => some (.number value, rest)
  | n + 1, .word word :: ts => afterWord n word ts
  | _ + 1, _ => none

def afterWord : ℕ → String → List Token → Parsed
  | 0, _, _ => none
  | _ + 1, word, .lpar :: .rpar :: rest => some (.nullary word, rest)
  | n + 1, word, .lpar :: ts => (expr n 0 ts).bind fun
    | (arguments, .rpar :: rest) => some (.call word arguments, rest)
    | _ => none
  | _ + 1, word, .dot :: .ident name :: rest => some (.field word name, rest)
  | _ + 1, word, rest => some (.constant word, rest)

/-- Go on with the operators that follow `lhs`, as long as they bind tightly enough. -/
def climb : ℕ → ℕ → Sql → List Token → Parsed
  | 0, _, _, _ => none
  | n + 1, least, lhs, .infixed op :: ts =>
    if least ≤ op.level then
      (expr n (op.level + 1) ts).bind fun found => climb n least (.infixed op lhs found.1) found.2
    else some (lhs, .infixed op :: ts)
  | n + 1, least, lhs, .isWord :: .nullWord :: ts =>
    if least ≤ isLevel then climb n least (.isNull lhs) ts
    else some (lhs, .isWord :: .nullWord :: ts)
  | n + 1, least, lhs, .doubleColon :: .word type :: ts =>
    if least ≤ castLevel then climb n least (.cast lhs type) ts
    else some (lhs, .doubleColon :: .word type :: ts)
  | _ + 1, _, lhs, ts => some (lhs, ts)

end

/-- All the tokens are one expression, given enough fuel. -/
def Parses (ts : List Token) (tree : Sql) : Prop :=
  ∃ enough, ∀ n ≥ enough, expr n 0 ts = some (tree, [])

theorem parses_unique {ts : List Token} {first second : Sql} (hfirst : Parses ts first)
    (hsecond : Parses ts second) : first = second :=
  congrArg Prod.fst (settles_unique _ hfirst hsecond)

/-- What follows does not go on with an operator of level `k` or tighter, nor with the arguments
or the field of a word. -/
def Stops (k : ℕ) : List Token → Prop
  | .lpar :: _ => False
  | .dot :: _ => False
  | .infixed op :: _ => op.level < k
  | .isWord :: _ => isLevel < k
  | .doubleColon :: _ => castLevel < k
  | _ => True

theorem Stops.mono {j k : ℕ} (hjk : j ≤ k) {rest : List Token} (h : Stops j rest) :
    Stops k rest := by
  unfold Stops at h ⊢
  split <;> simp only at h <;> omega

theorem climb_stops {least : ℕ} (lhs : Sql) {rest : List Token} (h : Stops least rest) :
    Settles (fun n => climb n least lhs rest) (lhs, rest) := by
  refine settles_const _ _ fun n => ?_
  unfold climb
  split
  · next heq => cases heq
  · next op ts heq =>
    cases heq
    exact if_neg (by simp only [Stops] at h; omega)
  · next heq =>
    cases heq
    exact if_neg (by simp only [Stops] at h; omega)
  · next heq =>
    cases heq
    exact if_neg (by simp only [Stops] at h; omega)
  · rfl

/-- At the start of any list the tokens `ts` are read as the tree `e`, at every least level up
to `l`, when nothing tighter than `l` follows. -/
def Leads (l : ℕ) (ts : List Token) (e : Sql) : Prop :=
  ∀ least ≤ l, ∀ rest, Stops (l + 1) rest → ∀ result,
    Settles (fun n => climb n least e rest) result →
      Settles (fun n => expr n least (ts ++ rest)) result

/-- The tokens `ts` are read as one item, whatever follows. -/
def Item (ts : List Token) (e : Sql) : Prop :=
  ∀ rest, Settles (fun n => term n (ts ++ rest)) (e, rest)

def itemLevel : ℕ := 10

variable (inside : List Token) {l : ℕ} {ts : List Token} {e : Sql}

theorem Item.leads (h : Item ts e) : Leads itemLevel ts e := by
  intro least _ rest _ result hclimb
  refine settles_succ _ (fun n => (term n (ts ++ rest)).bind fun found =>
    climb n least found.1 found.2) result (fun n => by rw [expr]) ?_
  exact settles_bind _ (h rest) hclimb

theorem Leads.mono {k l : ℕ} {ts : List Token} {e : Sql} (h : Leads l ts e) (hkl : k ≤ l) :
    Leads k ts e :=
  fun least hleast rest hrest => h least (by omega) rest (hrest.mono (by omega))

theorem Leads.settles (h : Leads l ts e) (least : ℕ) (hleast : least ≤ l) (rest : List Token)
    (hrest : Stops least rest) : Settles (fun n => expr n least (ts ++ rest)) (e, rest) :=
  h least hleast rest (hrest.mono (by omega)) _ (climb_stops e hrest)

theorem Leads.parses (h : Leads l ts e) : Parses ts e := by
  have hwhole := h.settles 0 (by omega) [] trivial
  rwa [append_nil] at hwhole

theorem item_paren (h : Leads l ts e) : Item (.lpar :: ts ++ [.rpar]) e := by
  intro rest
  have hinner := h.settles 0 (by omega) (.rpar :: rest) trivial
  refine settles_succ _ (fun n => (expr n 0 (ts ++ .rpar :: rest)).bind fun
    | (inner, .rpar :: rest) => some (inner, rest)
    | _ => none) _ (fun n => ?_) ?_
  · rw [cons_append, cons_append, append_assoc, singleton_append, term]
  · exact settles_bind _ hinner ⟨0, fun _ _ => rfl⟩

theorem leads_infixed {r : ℕ} {first second : List Token} {e f : Sql} (op : Infix)
    (hfirst : Leads l first e) (hsecond : Leads r second f) (hl : op.level ≤ l)
    (hr : op.level + 1 ≤ r) :
    Leads op.level (first ++ .infixed op :: second) (.infixed op e f) := by
  intro least hleast rest hrest result hclimb
  rw [append_assoc]
  refine hfirst least (by omega) _ (by simp only [cons_append, Stops]; omega) result ?_
  refine settles_succ _ (fun n => (expr n (op.level + 1) (second ++ rest)).bind fun found =>
    climb n least (.infixed op e found.1) found.2) result (fun n => ?_) ?_
  · rw [cons_append, climb, if_pos hleast]
  · exact settles_bind _
      (hsecond.settles _ hr rest hrest) hclimb

theorem leads_isNull (h : Leads l ts e) (hl : isLevel ≤ l) :
    Leads isLevel (ts ++ [.isWord, .nullWord]) (.isNull e) := by
  intro least hleast rest _ result hclimb
  rw [append_assoc]
  refine h least (by omega) _ (by simp only [cons_append, Stops]; omega) result ?_
  refine settles_succ _ (fun n => climb n least (.isNull e) rest) result (fun n => ?_) hclimb
  rw [cons_append, singleton_append, climb, if_pos hleast]

theorem leads_cast (type : String) (h : Leads l ts e) (hl : castLevel ≤ l) :
    Leads castLevel (ts ++ [.doubleColon, .word type]) (.cast e type) := by
  intro least hleast rest _ result hclimb
  rw [append_assoc]
  refine h least (by omega) _ (by simp only [cons_append, Stops]; omega) result ?_
  refine settles_succ _ (fun n => climb n least (.cast e type) rest) result (fun n => ?_) hclimb
  rw [cons_append, singleton_append, climb, if_pos hleast]

theorem leads_not (h : Leads l ts e) (hl : notLevel + 1 ≤ l) :
    Leads notLevel (.notWord :: ts) (.not e) := by
  intro least _ rest hrest result hclimb
  have hinner := h.settles (notLevel + 1) hl rest hrest
  have hterm : Settles (fun n => term n (.notWord :: (ts ++ rest))) (.not e, rest) := by
    obtain ⟨enough, hinner⟩ := hinner
    refine ⟨enough + 1, fun n hn => ?_⟩
    obtain ⟨m, rfl⟩ : ∃ m, n = m + 1 := ⟨n - 1, by omega⟩
    have hm : expr m (notLevel + 1) (ts ++ rest) = some (e, rest) := hinner m (by omega)
    change term (m + 1) (.notWord :: (ts ++ rest)) = _
    rw [term, hm, Option.map_some]
  refine settles_succ _ (fun n => (term n (.notWord :: (ts ++ rest))).bind fun found =>
    climb n least found.1 found.2) result (fun n => by rw [cons_append, expr]) ?_
  exact settles_bind _ hterm hclimb

theorem item_case {j k l : ℕ} {whens thens elses : List Token} {c t e : Sql}
    (hwhen : Leads j whens c) (hthen : Leads k thens t) (helse : Leads l elses e) :
    Item (.caseWord :: .whenWord :: whens ++ .thenWord :: thens ++ .elseWord :: elses ++
      [.endWord]) (.case c t e) := by
  intro rest
  have hc := hwhen.settles 0 (by omega)
    (.thenWord :: thens ++ .elseWord :: elses ++ .endWord :: rest) trivial
  have ht := hthen.settles 0 (by omega) (.elseWord :: elses ++ .endWord :: rest) trivial
  have he := helse.settles 0 (by omega) (.endWord :: rest) trivial
  obtain ⟨one, hc⟩ := hc
  obtain ⟨two, ht⟩ := ht
  obtain ⟨three, he⟩ := he
  refine ⟨one + two + three + 1, fun n hn => ?_⟩
  obtain ⟨m, rfl⟩ : ∃ m, n = m + 1 := ⟨n - 1, by omega⟩
  have hc := hc m (by omega)
  have ht := ht m (by omega)
  have he := he m (by omega)
  simp only [cons_append, append_assoc, nil_append] at hc ht he ⊢
  rw [term, hc]
  dsimp only [Option.bind_some]
  rw [ht]
  dsimp only [Option.bind_some]
  rw [he]
  rfl

theorem item_call (function : String) (h : Leads l ts e) :
    Item (.word function :: .lpar :: ts ++ [.rpar]) (.call function e) := by
  intro rest
  have hinner := h.settles 0 (by omega) (.rpar :: rest) trivial
  obtain ⟨enough, hinner⟩ := hinner
  refine ⟨enough + 2, fun n hn => ?_⟩
  obtain ⟨m, rfl⟩ : ∃ m, n = m + 2 := ⟨n - 2, by omega⟩
  have hm : expr m 0 (ts ++ .rpar :: rest) = some (e, .rpar :: rest) := hinner m (by omega)
  simp only [cons_append, append_assoc, nil_append]
  rw [term, afterWord]
  · rw [hm]
    rfl
  · intro others heq
    have hlater : expr (enough + 1 + 1) 0 (ts ++ .rpar :: rest) = some (e, .rpar :: rest) :=
      hinner (enough + 1 + 1) (by omega)
    rw [heq, expr, term] at hlater
    all_goals cases hlater

example : (term 9 [.word "f", .lpar, .placeholder 1, .rpar]).map Prod.snd = some [] := by
  decide +kernel

theorem item_column (table name : String) :
    Item [.ident table, .dot, .ident name] (.column table name) :=
  fun _ => settles_const _ _ fun _ => by
    rw [cons_append, cons_append, singleton_append, term]

theorem item_field (word name : String) :
    Item [.word word, .dot, .ident name] (.field word name) := by
  intro rest
  refine settles_succ _ (fun n => afterWord n word (.dot :: .ident name :: rest)) _ (fun n => ?_)
    (settles_const _ _ fun n => ?_)
  · rw [cons_append, cons_append, singleton_append, term]
  · rw [afterWord]

theorem item_placeholder (position : ℕ) : Item [.placeholder position] (.placeholder position) :=
  fun _ => settles_const _ _ fun _ => by rw [singleton_append, term]

theorem item_number (value : ℤ) : Item [.number value] (.number value) :=
  fun _ => settles_const _ _ fun _ => by rw [singleton_append, term]

theorem leads_constant (word : String) : Leads itemLevel [.word word] (.constant word) := by
  intro least _ rest hrest result hclimb
  have hterm : Settles (fun n => term n (.word word :: rest)) (.constant word, rest) := by
    refine settles_succ _ (fun n => afterWord n word rest) _ (fun n => by rw [term]) ?_
    refine settles_const _ _ fun n => ?_
    rw [afterWord] <;> intros <;> simp_all [Stops]
  refine settles_succ _ (fun n => (term n (.word word :: rest)).bind fun found =>
    climb n least found.1 found.2) result (fun n => by rw [singleton_append, expr]) ?_
  exact settles_bind _ hterm hclimb

theorem leads_ident (name : String) : Leads itemLevel [.ident name] (.ident name) := by
  intro least _ rest hrest result hclimb
  have hterm : Settles (fun n => term n (.ident name :: rest)) (.ident name, rest) := by
    refine settles_const _ _ fun n => ?_
    rw [term]
    intros
    simp_all [Stops]
  refine settles_succ _ (fun n => (term n (.ident name :: rest)).bind fun found =>
    climb n least found.1 found.2) result (fun n => by rw [singleton_append, expr]) ?_
  exact settles_bind _ hterm hclimb

theorem item_nullary (function : String) :
    Item [.word function, .lpar, .rpar] (.nullary function) := by
  intro rest
  refine settles_succ _ (fun n => afterWord n function (.lpar :: .rpar :: rest)) _ (fun n => ?_)
    (settles_const _ _ fun n => ?_)
  · rw [cons_append, cons_append, singleton_append, term]
  · rw [afterWord]

theorem readLiteral_closed (rest : List Token) (h : .quote ∉ inside) :
    readLiteral (inside ++ .quote :: rest) = some (inside, rest) := by
  induction inside with
  | nil => rfl
  | cons token inside ih =>
    rw [mem_cons, not_or] at h
    rw [cons_append, readLiteral, ih h.2, Option.map_some]
    exact fun heq => h.1 heq.symm

theorem item_literal (h : .quote ∉ inside) :
    Item (.quote :: inside ++ [.quote]) (.literal inside) :=
  fun rest => settles_const _ _ fun _ => by
    rw [cons_append, cons_append, append_assoc, singleton_append, term,
      readLiteral_closed inside rest h, Option.map_some]

theorem item_interval (h : .quote ∉ inside) :
    Item (.intervalWord :: .quote :: inside ++ [.quote]) (.interval inside) :=
  fun rest => settles_const _ _ fun _ => by
    rw [cons_append, cons_append, cons_append, cons_append, append_assoc,
      singleton_append, term, readLiteral_closed inside rest h, Option.map_some]

end Stakit.SqlGrammar
