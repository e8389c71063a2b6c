import Stakit.FuelRuns

set_option autoImplicit false

namespace Stakit.BooleanSyntax
open FuelRuns List

variable {α : Type}

inductive Tok (α : Type) where
  | atom (condition : α)
  | and
  | or
  | not
  | lpar
  | rpar

mutual

/-- Alternatives: conjunctions joined by OR. -/
inductive Disj (α : Type) where
  | one (first : Conj α)
  | or (first : Conj α) (rest : Disj α)

inductive Conj (α : Type) where
  | one (first : Item α)
  | and (first : Item α) (rest : Conj α)

inductive Item (α : Type) where
  | atom (condition : α)
  | not (inner : Item α)
  | paren (inner : Disj α)

end

mutual

def Disj.tokens : Disj α → List (Tok α)
  | .one first => first.tokens
  | .or first rest => first.tokens ++ .or :: rest.tokens

def Conj.tokens : Conj α → List (Tok α)
  | .one first => first.tokens
  | .and first rest => first.tokens ++ .and :: rest.tokens

def Item.tokens : Item α → List (Tok α)
  | .atom condition => [.atom condition]
  | .not inner => .not :: inner.tokens
  | .paren inner => .lpar :: inner.tokens ++ [.rpar]

end

/-- A parenthesis closes right after the expression it opened. -/
def closed : Disj α × List (Tok α) → Option (Item α × List (Tok α))
  | (inner, .rpar :: rest) => some (.paren inner, rest)
  | _ => none

mutual

def readDisj : ℕ → List (Tok α) → Option (Disj α × List (Tok α))
  | 0, _ => none
  | n + 1, ts => (readConj n ts).bind fun found => moreDisj n found.1 found.2

def moreDisj : ℕ → Conj α → List (Tok α) → Option (Disj α × List (Tok α))
  | 0, _, _ => none
  | n + 1, first, .or :: ts => (readDisj n ts).map fun found => (.or first found.1, found.2)
  | _ + 1, first, rest => some (.one first, rest)

def readConj : ℕ → List (Tok α) → Option (Conj α × List (Tok α))
  | 0, _ => none
  | n + 1, ts => (readItem n ts).bind fun found => moreConj n found.1 found.2

def moreConj : ℕ → Item α → List (Tok α) → Option (Conj α × List (Tok α))
  | 0, _, _ => none
  | n + 1, first, .and :: ts => (readConj n ts).map fun found => (.and first found.1, found.2)
  | _ + 1, first, rest => some (.one first, rest)

def readItem : ℕ → List (Tok α) → Option (Item α × List (Tok α))
  | 0, _ => none
  | _ + 1, .atom condition :: rest => some (.atom condition, rest)
  | n + 1, .not :: ts => (readItem n ts).map fun found => (.not found.1, found.2)
  | n + 1, .lpar :: ts => (readDisj n ts).bind closed
  | _ + 1, _ => none

end

/-- All the tokens are one expression, given enough fuel. -/
def Reads (ts : List (Tok α)) (e : Disj α) : Prop :=
  Settles (fun n => readDisj n ts) (e, [])

/-- What follows goes on with neither AND nor OR. -/
def Ends : List (Tok α) → Prop
  | .and :: _ => False
  | .or :: _ => False
  | _ => True

/-- What follows does not go on with AND. -/
def EndsConj : List (Tok α) → Prop
  | .and :: _ => False
  | _ => True

theorem Ends.conj {rest : List (Tok α)} (h : Ends rest) : EndsConj rest := by
  unfold Ends at h
  unfold EndsConj
  split <;> simp_all

theorem moreDisj_ends (first : Conj α) {rest : List (Tok α)} (hrest : Ends rest) :
    Settles (fun n => moreDisj n first rest) (.one first, rest) := by
  refine settles_const _ _ fun n => ?_
  rw [moreDisj]
  intro ts heq
  rw [heq] at hrest
  exact hrest

theorem moreConj_ends (first : Item α) {rest : List (Tok α)} (hrest : EndsConj rest) :
    Settles (fun n => moreConj n first rest) (.one first, rest) := by
  refine settles_const _ _ fun n => ?_
  rw [moreConj]
  intro ts heq
  rw [heq] at hrest
  exact hrest

mutual

theorem readDisj_tokens (e : Disj α) (rest : List (Tok α)) (hrest : Ends rest) :
    Settles (fun n => readDisj n (e.tokens ++ rest)) (e, rest) := by
  cases e with
  | one first =>
    rw [Disj.tokens]
    exact settles_succ _ _ _ (fun n => by rw [readDisj]) (settles_bind _
      (readConj_tokens first rest hrest.conj) (moreDisj_ends first hrest))
  | or first others =>
    have hmore : Settles (fun n => moreDisj n first (.or :: (others.tokens ++ rest)))
        (.or first others, rest) :=
      settles_succ _ _ _ (fun n => by rw [moreDisj])
        (settles_map _ (fun found => (Disj.or first found.1, found.2))
          (readDisj_tokens others rest hrest))
    rw [Disj.tokens, append_assoc, cons_append]
    exact settles_succ _ _ _ (fun n => by rw [readDisj]) (settles_bind _
      (readConj_tokens first (.or :: (others.tokens ++ rest)) trivial) hmore)

theorem readConj_tokens (e : Conj α) (rest : List (Tok α)) (hrest : EndsConj rest) :
    Settles (fun n => readConj n (e.tokens ++ rest)) (e, rest) := by
  cases e with
  | one first =>
    rw [Conj.tokens]
    exact settles_succ _ _ _ (fun n => by rw [readConj]) (settles_bind _
      (readItem_tokens first rest) (moreConj_ends first hrest))
  | and first others =>
    have hmore : Settles (fun n => moreConj n first (.and :: (others.tokens ++ rest)))
        (.and first others, rest) :=
      settles_succ _ _ _ (fun n => by rw [moreConj])
        (settles_map _ (fun found => (Conj.and first found.1, found.2))
          (readConj_tokens others rest hrest))
    rw [Conj.tokens, append_assoc, cons_append]
    exact settles_succ _ _ _ (fun n => by rw [readConj]) (settles_bind _
      (readItem_tokens first (.and :: (others.tokens ++ rest))) hmore)

theorem readItem_tokens (e : Item α) (rest : List (Tok α)) :
    Settles (fun n => readItem n (e.tokens ++ rest)) (e, rest) := by
  cases e with
  | atom condition => exact settles_const _ _ fun _ => rfl
  | not inner =>
    exact settles_succ _ _ _ (fun n => by rw [Item.tokens, cons_append, readItem])
      (settles_map _ (fun found => (Item.not found.1, found.2)) (readItem_tokens inner rest))
  | paren inner =>
    rw [Item.tokens, append_assoc, cons_append, singleton_append]
    exact settles_succ _ _ _ (fun n => by rw [readItem]) (settles_bind _
      (readDisj_tokens inner (.rpar :: rest) trivial) ⟨0, fun _ _ => rfl⟩)

end

theorem reads_tokens (e : Disj α) : Reads e.tokens e := by
  have hread := readDisj_tokens e [] trivial
  rwa [append_nil] at hread

/-- Conjunction of truth values, the unknown one between the others. -/
def both : Option Bool → Option Bool → Option Bool
  | some false, _ => some false
  | _, some false => some false
  | some true, some true => some true
  | _, _ => none

def either : Option Bool → Option Bool → Option Bool
  | some true, _ => some true
  | _, some true => some true
  | some false, some false => some false
  | _, _ => none

def negate (truth : Option Bool) : Option Bool := truth.map (!·)

variable (a b : Option Bool)

theorem both_assoc (c : Option Bool) : both (both a b) c = both a (both b c) := by
  rcases a with _ | _ | _ <;> rcases b with _ | _ | _ <;> rcases c with _ | _ | _ <;> rfl

theorem either_assoc (c : Option Bool) : either (either a b) c = either a (either b c) := by
  rcases a with _ | _ | _ <;> rcases b with _ | _ | _ <;> rcases c with _ | _ | _ <;> rfl

theorem both_eq_true : both a b = some true ↔ a = some true ∧ b = some true := by
  rcases a with _ | _ | _ <;> rcases b with _ | _ | _ <;> decide

theorem either_eq_true : either a b = some true ↔ a = some true ∨ b = some true := by
  rcases a with _ | _ | _ <;> rcases b with _ | _ | _ <;> decide

mutual

def Disj.truth (row : α → Option Bool) : Disj α → Option Bool
  | .one first => first.truth row
  | .or first rest => either (first.truth row) (rest.truth row)

def Conj.truth (row : α → Option Bool) : Conj α → Option Bool
  | .one first => first.truth row
  | .and first rest => both (first.truth row) (rest.truth row)

def Item.truth (row : α → Option Bool) : Item α → Option Bool
  | .atom condition => row condition
  | .not inner => negate (inner.truth row)
  | .paren inner => inner.truth row

end

def Conj.append : Conj α → Conj α → Conj α
  | .one first, second => .and first second
  | .and first rest, second => .and first (rest.append second)

/-- The expression written `first OR second`. -/
def disjoin : Disj α → Disj α → Disj α
  | .one first, second => .or first second
  | .or first rest, second => .or first (disjoin rest second)

/-- The expression written `first AND second`: the last conjunction of the one and the first of
the other are one. -/
def conjoin : Disj α → Disj α → Disj α
  | .or first rest, second => .or first (conjoin rest second)
  | .one first, .one second => .one (first.append second)
  | .one first, .or second rest => .or (first.append second) rest

/-- No OR stands outside parentheses. -/
def Disj.single : Disj α → Bool
  | .one _ => true
  | .or _ _ => false

theorem append_tokens (first second : Conj α) :
    (first.append second).tokens = first.tokens ++ .and :: second.tokens := by
  cases first with
  | one item => rfl
  | and item rest =>
    rw [Conj.append, Conj.tokens, append_tokens rest, Conj.tokens, append_assoc, cons_append]

theorem disjoin_tokens (first second : Disj α) :
    (disjoin first second).tokens = first.tokens ++ .or :: second.tokens := by
  cases first with
  | one conj => rfl
  | or conj rest =>
    rw [disjoin, Disj.tokens, disjoin_tokens rest, Disj.tokens, append_assoc, cons_append]

theorem conjoin_tokens (first second : Disj α) :
    (conjoin first second).tokens = first.tokens ++ .and :: second.tokens := by
  cases first with
  | one conj =>
    cases second with
    | one other => exact append_tokens conj other
    | or other rest =>
      simp only [conjoin, Disj.tokens, append_tokens, append_assoc, cons_append]
  | or conj rest =>
    rw [conjoin, Disj.tokens, conjoin_tokens rest, Disj.tokens, append_assoc, cons_append]

theorem append_truth (row : α → Option Bool) (first second : Conj α) :
    (first.append second).truth row = both (first.truth row) (second.truth row) := by
  cases first with
  | one item => rfl
  | and item rest =>
    rw [Conj.append, Conj.truth, append_truth row rest, Conj.truth, both_assoc]

theorem disjoin_truth (row : α → Option Bool) (first second : Disj α) :
    (disjoin first second).truth row = either (first.truth row) (second.truth row) := by
  cases first with
  | one conj => rfl
  | or conj rest => rw [disjoin, Disj.truth, disjoin_truth row rest, Disj.truth, either_assoc]

theorem conjoin_truth (row : α → Option Bool) {first second : Disj α}
    (hfirst : first.single = true) (hsecond : second.single = true) :
    (conjoin first second).truth row = both (first.truth row) (second.truth row) := by
  cases first with
  | or conj rest => cases hfirst
  | one conj =>
    cases second with
    | or other rest => cases hsecond
    | one other => exact append_truth row conj other

end Stakit.BooleanSyntax
