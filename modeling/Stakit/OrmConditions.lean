import Stakit.BooleanSyntax
import Stakit.LikePatterns
import Stakit.OrmLists

set_option autoImplicit false

namespace Stakit.Orm
open BooleanSyntax LikePatterns SqlGrammar

def escapeLike (input : String) : String :=
  String.ofList (input.toList.flatMap fun ch =>
    if ch = '\\' || ch = '%' || ch = '_' then ['\\', ch] else [ch])

def contains (table name needle : String) : Predicate :=
  .like table name (.text ("%" ++ escapeLike needle ++ "%"))

/-- `LIKE` under the escape character of `escape '\'`. -/
def sqlWildcards : Wildcards Char := ⟨'%', '_', '\\'⟩

theorem escapeLike_toList (input : String) :
    (escapeLike input).toList = escaped sqlWildcards input.toList := by
  rw [escapeLike, String.toList_ofList]
  rfl

theorem contains_pattern (needle : String) : ("%" ++ escapeLike needle ++ "%").toList =
      sqlWildcards.run :: (escaped sqlWildcards needle.toList ++ [sqlWildcards.run]) := by
  rw [String.toList_append, String.toList_append, escapeLike_toList]
  rfl

/-- The pattern that a search binds matches a text exactly if the needle occurs in it. -/
theorem contains_searches (d : Dialect) (table name needle : String) (w next : SqlWriter)
    (h : (contains table name needle).write d w = .ok next) :
    ∃ pattern, next.binds = w.binds ++ [.text pattern] ∧
      ∀ stored : String, like sqlWildcards pattern.toList stored.toList = true ↔
        needle.toList <:+: stored.toList := by
  rw [Predicate.write_eq, emit_eq_ok] at h
  obtain ⟨_, rfl⟩ := h
  refine ⟨"%" ++ escapeLike needle ++ "%", rfl, fun stored => ?_⟩
  rw [contains_pattern]
  exact like_escaped sqlWildcards (by decide) needle.toList stored.toList

theorem contains_searches_percent : ∃ pattern,
    (contains "t" "name" "50%_\\x").write postgresDialect SqlWriter.new =
      .ok ⟨[.ident "t", .text ".", .ident "name", .text " like ", .text "", .placeholder 1,
        .text "", .text " escape '\\'"], [.text pattern], none⟩ ∧
    (like sqlWildcards pattern.toList "a 50%_\\xyz".toList = true ↔
      "50%_\\x".toList <:+: "a 50%_\\xyz".toList) := by
  obtain ⟨pattern, hbinds, hlike⟩ :=
    contains_searches postgresDialect "t" "name" "50%_\\x" SqlWriter.new _ rfl
  refine ⟨pattern, ?_, hlike _⟩
  rw [show ([.text pattern] : List Value) = SqlWriter.new.binds ++ [.text pattern] from rfl,
    ← hbinds]
  rfl

/-- What columns and bound values stand for, a null for none, and when two of them are equal. -/
structure Cells (V : Type) where
  column : String → String → Option V
  bound : Value → Option V
  same : V → V → Bool
  bound_null : ∀ kind, bound (.null kind) = none

section
variable {V : Type}

/-- Comparison with a null is unknown. -/
def Cells.equals (cells : Cells V) : Option V → Option V → Option Bool
  | some a, some b => some (cells.same a b)
  | _, _ => none

def Cells.among (cells : Cells V) (x : Option V) : List (Option V) → Option Bool
  | [] => some false
  | item :: items => either (cells.equals x item) (cells.among x items)

def Cells.scalar (cells : Cells V) (binds : List Value) : Sql → Option V
  | .column table name => cells.column table name
  | .placeholder position => binds[position - 1]?.bind cells.bound
  | .cast inner _ => cells.scalar binds inner
  | .call _ inner => cells.scalar binds inner
  | _ => none

def Cells.elements (cells : Cells V) (binds : List Value) : Sql → List (Option V)
  | .placeholder position =>
    match binds[position - 1]? with
    | some (.array _ items) => items.map fun item => cells.bound item.payload
    | _ => []
  | _ => []

def Cells.listed (cells : Cells V) (binds : List Value) : Sql → List (Option V)
  | .infixed .comma rest last => cells.listed binds rest ++ [cells.scalar binds last]
  | one => [cells.scalar binds one]

/-- A comparison of two numbers, or with an array. -/
def Cells.compare (cells : Cells V) (binds : List Value) : Sql → Sql → Option Bool
  | .constant a, .constant b => some (a = b)
  | lhs, .call function array =>
    if function = "any" then cells.among (cells.scalar binds lhs) (cells.elements binds array)
    else none
  | _, _ => none

/-- The truth of a condition made of memberships. -/
def Cells.truth (cells : Cells V) (binds : List Value) : Sql → Option Bool
  | .infixed .or left right => either (cells.truth binds left) (cells.truth binds right)
  | .infixed .and left right => both (cells.truth binds left) (cells.truth binds right)
  | .not inner => negate (cells.truth binds inner)
  | .infixed .eq lhs rhs => cells.compare binds lhs rhs
  | .infixed .within lhs list => cells.among (cells.scalar binds lhs) (cells.listed binds list)
  | _ => none

def anyOf (table name : String) (kind : ValueKind) (items : List Value) : Predicate :=
  .anyOf table name (.array kind items)

inductive Memberships : Predicate → Prop
  | anyOf (table name : String) (kind : ValueKind) (items : List Value) :
      Memberships (anyOf table name kind items)
  | and {left right : Predicate} (hleft : Memberships left) (hright : Memberships right) :
      Memberships (.and left right)
  | or {left right : Predicate} (hleft : Memberships left) (hright : Memberships right) :
      Memberships (.or left right)
  | not {inner : Predicate} (hinner : Memberships inner) : Memberships (.not inner)

def Cells.selects (cells : Cells V) : Predicate → Option Bool
  | .anyOf table name (.array _ items) =>
    cells.among (cells.column table name) (items.map fun item => cells.bound item.payload)
  | .and left right => both (cells.selects left) (cells.selects right)
  | .or left right => either (cells.selects left) (cells.selects right)
  | .not inner => negate (cells.selects inner)
  | _ => none

section
variable (cells : Cells V) (b : Backend)

theorem scalar_tree (hb : b ≠ .postgres) (binds : List Value) (bound : ℕ) (value : Value)
    (h : binds[bound]? = some value.payload) :
    cells.scalar binds (value.tree b (bound + 1)) = cells.bound value.payload := by
  have hplace : cells.scalar binds (.placeholder (bound + 1)) = cells.bound value.payload := by
    rw [Cells.scalar, Nat.add_sub_cancel, h]
    rfl
  cases value <;> cases b <;> first | exact absurd rfl hb | exact hplace

theorem listed_tree (hb : b ≠ .postgres) (binds : List Value) (position : ℕ) (value : Value) :
    cells.listed binds (value.tree b position) = [cells.scalar binds (value.tree b position)] := by
  cases value <;> cases b <;> first | exact absurd rfl hb | rfl

theorem listed_items (hb : b ≠ .postgres) (binds : List Value) (bound : ℕ) (first : Sql)
    (items : List Value) (h : BoundAt binds bound items) :
    cells.listed binds (itemsTree b (bound + 1) first items) =
      cells.listed binds first ++ items.map fun item => cells.bound item.payload := by
  induction items generalizing bound first with
  | nil => exact (List.append_nil _).symm
  | cons item items ih =>
    rw [itemsTree, ih (bound + 1) _ h.rest, Cells.listed,
      scalar_tree cells b hb binds bound item h.first, List.append_assoc]
    rfl

theorem membership_truth (hb : b ≠ .postgres) (binds : List Value) (bound : ℕ)
    (table name : String) (kind : ValueKind) (items : List Value)
    (h : BoundAt binds bound items) :
    cells.truth binds (membershipTree b bound table name (.array kind items)) =
      cells.among (cells.column table name) (items.map fun item => cells.bound item.payload) := by
  cases items with
  | nil => rfl
  | cons item items =>
    rw [membershipTree, Cells.truth, listed_items cells b hb binds (bound + 1) _ items h.rest,
      listed_tree cells b hb, scalar_tree cells b hb binds bound item h.first]
    rfl

theorem array_truth {binds : List Value} {bound : ℕ} (table name : String) {kind : ValueKind}
    {items : List Value} (h : BoundAt binds bound [.array kind items]) :
    cells.truth binds (anyOfTree .postgres bound table name (.array kind items)) =
      cells.among (cells.column table name) (items.map fun item => cells.bound item.payload) := by
  have hfirst : binds[bound]? = some (.array kind items) := h.first
  change cells.compare binds (.column table name) (.call "any" (.placeholder (bound + 1))) = _
  rw [Cells.compare, if_pos rfl, Cells.elements, Nat.add_sub_cancel, hfirst]
  rfl

theorem values_membership (d : Dialect) (hd : d.supportsAnyArray = false) (table name : String)
    (kind : ValueKind) (items : List Value) :
    values (anyOfSlots d table name (.array kind items)) = items := by
  have hnot : ¬d.supportsAnyArray = true := by rw [hd]; decide
  unfold anyOfSlots
  rw [if_neg hnot]
  cases items with
  | nil => rfl
  | cons item items =>
    change values (qualified table name ++ [.text " in ("] ++
      listed none (fun item => [.bind item]) (item :: items) ++ [.text ")"]) = _
    rw [values_append, values_append, values_listed]
    exact List.append_nil _

theorem values_combined (op : String) (left right : List Slot) :
    values ([.text "("] ++ left ++ [.text op] ++ right ++ [.text ")"]) =
      values left ++ values right := by
  rw [values_append, values_append, values_append, values_append]
  exact (List.append_nil _).trans (congrArg (· ++ _) (List.append_nil _))

theorem memberships_truth (binds : List Value) {predicate : Predicate}
    (hp : Memberships predicate) (bound : ℕ)
    (h : BoundAt binds bound (values (predicate.slots b.dialect))) :
    cells.truth binds (predicate.tree b false bound) = cells.selects predicate := by
  induction hp generalizing bound with
  | anyOf table name kind items =>
    cases b with
    | postgres => exact array_truth cells table name h
    | sqlite =>
      refine membership_truth cells .sqlite nofun binds bound table name kind items ?_
      rwa [← values_membership sqliteDialect rfl table name kind items]
    | mysql =>
      refine membership_truth cells .mysql nofun binds bound table name kind items ?_
      rwa [← values_membership mysqlDialect rfl table name kind items]
    | turso =>
      refine membership_truth cells .turso nofun binds bound table name kind items ?_
      rwa [← values_membership tursoDialect rfl table name kind items]
  | @and left right hleft hright ihleft ihright =>
    rw [Predicate.slots, values_combined] at h
    rw [Predicate.tree, Cells.truth, ihleft bound h.split.1]
    exact congrArg (both _) (ihright _ h.split.2)
  | @or left right hleft hright ihleft ihright =>
    rw [Predicate.slots, values_combined] at h
    rw [Predicate.tree, Cells.truth, ihleft bound h.split.1]
    exact congrArg (either _) (ihright _ h.split.2)
  | @not inner hinner ih =>
    have hsame : values (Predicate.slots b.dialect (.not inner)) =
        values (inner.slots b.dialect) := by
      rw [Predicate.slots, values_append, values_append]
      exact List.append_nil _
    rw [hsame] at h
    rw [Predicate.tree, Cells.truth, ih bound h]
    rfl

end

theorem Memberships.typed {predicate : Predicate} (h : Memberships predicate) :
    predicate.typed = true := by
  induction h with
  | anyOf table name kind items => rfl
  | and hleft hright ihleft ihright | or hleft hright ihleft ihright =>
    exact Bool.and_eq_true_iff.mpr ⟨ihleft, ihright⟩
  | not hinner ih => exact ih

theorem memberships_read (cells : Cells V) (b : Backend) (predicate : Predicate)
    (hp : Memberships predicate) (w : SqlWriter)
    (h : predicate.write b.dialect SqlWriter.new = .ok w) :
    ∃ tree, Parses (tokens w.pieces) tree ∧ cells.truth w.binds tree = cells.selects predicate := by
  refine ⟨_, written_parses b predicate w hp.typed h, ?_⟩
  rw [Predicate.write_eq, emit_eq_ok] at h
  obtain ⟨_, rfl⟩ := h
  apply memberships_truth cells b _ hp 0
  exact ⟨[], [], (List.append_nil _).symm, rfl⟩

/-- Membership as one array and membership as a list of binds have the same truth, under any
connectives, whatever the column's cell and the elements. -/
theorem membership_renderings_agree (cells : Cells V) (b : Backend) (predicate : Predicate)
    (hp : Memberships predicate) (array list : SqlWriter)
    (harray : predicate.write postgresDialect SqlWriter.new = .ok array)
    (hlist : predicate.write b.dialect SqlWriter.new = .ok list) :
    ∃ arrayTree listTree, Parses (tokens array.pieces) arrayTree ∧
      Parses (tokens list.pieces) listTree ∧
      cells.truth array.binds arrayTree = cells.truth list.binds listTree := by
  obtain ⟨arrayTree, hfirst, htruth⟩ := memberships_read cells .postgres predicate hp array harray
  obtain ⟨listTree, hsecond, hsame⟩ := memberships_read cells b predicate hp list hlist
  exact ⟨arrayTree, listTree, hfirst, hsecond, htruth.trans hsame.symm⟩

end

def nullColumn : Cells ℤ where
  column _ _ := none
  bound
    | .i32 value => some value
    | _ => none
  same a b := a = b
  bound_null _ := rfl

theorem membership_renderings_agree_null : ∃ array list arrayTree listTree,
      (Predicate.not (anyOf "t" "id" .i32 [.i32 1, .null .i32, .i32 1])).write postgresDialect
        SqlWriter.new = .ok array ∧
      (Predicate.not (anyOf "t" "id" .i32 [.i32 1, .null .i32, .i32 1])).write mysqlDialect
        SqlWriter.new = .ok list ∧
      Parses (tokens array.pieces) arrayTree ∧ Parses (tokens list.pieces) listTree ∧
      nullColumn.truth array.binds arrayTree = nullColumn.truth list.binds listTree := by
  obtain ⟨arrayTree, listTree, hagree⟩ := membership_renderings_agree nullColumn .mysql
    (.not (anyOf "t" "id" .i32 [.i32 1, .null .i32, .i32 1])) (.not (.anyOf _ _ _ _)) _ _ rfl rfl
  exact ⟨_, _, arrayTree, listTree, rfl, rfl, hagree⟩

end Stakit.Orm
