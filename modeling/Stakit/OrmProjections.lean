import Mathlib.Data.List.Nodup
import Stakit.OrmSelects

set_option autoImplicit false

namespace Stakit.Orm
open List

/-- A stored column, as `COLUMNS` lists it. -/
structure TableColumn where
  name : String
  readCast : Option String
  kind : ValueKind
  isPk : Bool

structure TableType where
  table : String
  columns : List TableColumn

/-- Projections with what they decode to. -/
inductive Selection where
  | column (table name : String) (readCast : Option String) (kind : ValueKind)
  | count
  | agg (func table name : String) (isWidened : Bool) (out : ValueKind)
  | all (type : TableType)
  | nullable (type : TableType)
  | tuple (first : Selection) (rest : List Selection)

structure Leaf where
  path : List ℕ
  item : Projection

def TableType.item (type : TableType) (column : TableColumn) : Projection :=
  .column type.table column.name column.readCast

def TableType.leaf (type : TableType) (path : List ℕ) (place : TableColumn × ℕ) : Leaf :=
  ⟨place.2 :: path, type.item place.1⟩

def TableType.projection (type : TableType) : Projection :=
  .all type.table (type.columns.map fun column => (column.name, column.readCast))

namespace Selection

mutual

def projection : Selection → Projection
  | column table name readCast _ => .column table name readCast
  | count => .count
  | agg func table name isWidened out => .agg func table name isWidened out
  | all type => type.projection
  | nullable type => type.projection
  | tuple first rest => .tuple (first.projection :: projections rest)

def projections : List Selection → List Projection
  | [] => []
  | member :: rest => member.projection :: projections rest

end

mutual

def arity : Selection → ℕ
  | column _ _ _ _ => 1
  | count => 1
  | agg _ _ _ _ _ => 1
  | all type => type.columns.length
  | nullable type => type.columns.length
  | tuple first rest => first.arity + arities rest

def arities : List Selection → ℕ
  | [] => 0
  | member :: rest => member.arity + arities rest

end

mutual

/-- The leaves of a projection, in the order they are written. -/
def leaves (path : List ℕ) : Selection → List Leaf
  | column table name readCast _ => [⟨path, .column table name readCast⟩]
  | count => [⟨path, .count⟩]
  | agg func table name isWidened out => [⟨path, .agg func table name isWidened out⟩]
  | all type => type.columns.zipIdx.map (type.leaf path)
  | nullable type => type.columns.zipIdx.map (type.leaf path)
  | tuple first rest => first.leaves (0 :: path) ++ leavesFrom path 1 rest

def leavesFrom (path : List ℕ) (index : ℕ) : List Selection → List Leaf
  | [] => []
  | member :: rest => member.leaves (index :: path) ++ leavesFrom path (index + 1) rest

end

end Selection

structure RowCell (ε V : Type) where
  read : ValueKind → Except ε V
  isNull : Except ε Bool

abbrev Row (ε V : Type) : Type := ℕ → RowCell ε V

inductive Decoded (V : Type) where
  | value (v : V)
  | row (cells : List V)
  | absent
  | tuple (members : List (Decoded V))

section
variable {ε V : Type}

/-- `from_row_at`: each stored column by its position. -/
def fromRowAt (row : Row ε V) : List TableColumn → ℕ → Except ε (List V)
  | [], _ => .ok []
  | column :: columns, start => do
    let v ← (row start).read column.kind
    return v :: (← fromRowAt row columns (start + 1))

def allNull (row : Row ε V) : List TableColumn → ℕ → Except ε Bool
  | [], _ => .ok true
  | _ :: columns, start => do
    if ← (row start).isNull then allNull row columns (start + 1) else return false

def outerJoinAbsent (row : Row ε V) (type : TableType) (start : ℕ) : Except ε Bool :=
  match type.columns.findIdx? (·.isPk) with
  | some pk => (row (start + pk)).isNull
  | none => allNull row type.columns start

def decodeOuterRow (row : Row ε V) (type : TableType) (start : ℕ) : Except ε (Decoded V) := do
  if ← outerJoinAbsent row type start then return .absent
  return .row (← fromRowAt row type.columns start)

mutual

def Selection.decode (row : Row ε V) : Selection → ℕ → Except ε (Decoded V)
  | .column _ _ _ kind, start => .value <$> (row start).read kind
  | .count, start => .value <$> (row start).read .i64
  | .agg _ _ _ _ out, start => .value <$> (row start).read out
  | .all type, start => .row <$> fromRowAt row type.columns start
  | .nullable type, start => decodeOuterRow row type start
  | .tuple first rest, start => do
    let value ← first.decode row start
    return .tuple (value :: (← Selection.decodeRest row rest (start + first.arity)))

def Selection.decodeRest (row : Row ε V) : List Selection → ℕ → Except ε (List (Decoded V))
  | [], _ => .ok []
  | member :: rest, offset => do
    let value ← member.decode row offset
    return value :: (← Selection.decodeRest row rest (offset + member.arity))

end

def unmatched (cells : Leaf → RowCell ε V) (type : TableType) (path : List ℕ) : Except ε Bool :=
  match type.columns.zipIdx.find? (·.1.isPk) with
  | some pk => (cells (type.leaf path pk)).isNull
  | none => type.columns.zipIdx.foldlM (fun absent column =>
      if absent then (cells (type.leaf path column)).isNull else .ok false) true

def selectedRow (cells : Leaf → RowCell ε V) (type : TableType) (path : List ℕ) :
    Except ε (List V) :=
  type.columns.zipIdx.mapM fun column => (cells (type.leaf path column)).read column.1.kind

mutual

/-- What a projection stands for, given the cell selected by each of its leaves. -/
def Selection.meaning (cells : Leaf → RowCell ε V) (path : List ℕ) :
    Selection → Except ε (Decoded V)
  | .column table name readCast kind =>
    .value <$> (cells ⟨path, .column table name readCast⟩).read kind
  | .count => .value <$> (cells ⟨path, .count⟩).read .i64
  | .agg func table name isWidened out =>
    .value <$> (cells ⟨path, .agg func table name isWidened out⟩).read out
  | .all type => .row <$> selectedRow cells type path
  | .nullable type => do
    if ← unmatched cells type path then return .absent
    return .row (← selectedRow cells type path)
  | .tuple first rest => do
    let value ← first.meaning cells (0 :: path)
    return .tuple (value :: (← Selection.meaningsFrom cells path 1 rest))

def Selection.meaningsFrom (cells : Leaf → RowCell ε V) (path : List ℕ) (index : ℕ) :
    List Selection → Except ε (List (Decoded V))
  | [] => .ok []
  | member :: rest => do
    let value ← member.meaning cells (index :: path)
    return value :: (← Selection.meaningsFrom cells path (index + 1) rest)

end

def Holds (cells : Leaf → RowCell ε V) (row : Row ε V) (start : ℕ) (leaves : List Leaf) : Prop :=
  ∀ i leaf, leaves[i]? = some leaf → row (start + i) = cells leaf

theorem Holds.first {cells : Leaf → RowCell ε V} {row : Row ε V} {start : ℕ} {leaf : Leaf}
    {leaves : List Leaf} (h : Holds cells row start (leaf :: leaves)) :
    row start = cells leaf ∧ Holds cells row (start + 1) leaves := by
  refine ⟨h 0 leaf rfl, fun i other hother => ?_⟩
  rw [Nat.add_assoc, Nat.add_comm 1 i]
  exact h (i + 1) other hother

theorem Holds.split {cells : Leaf → RowCell ε V} {row : Row ε V} {start : ℕ}
    {first rest : List Leaf} (h : Holds cells row start (first ++ rest)) :
    Holds cells row start first ∧ Holds cells row (start + first.length) rest := by
  constructor
  · intro i leaf hleaf
    apply h i leaf
    rw [List.getElem?_append_left (List.getElem?_eq_some_iff.mp hleaf).1]
    exact hleaf
  · intro i leaf hleaf
    rw [Nat.add_assoc]
    apply h (first.length + i) leaf
    rw [List.getElem?_append_right (Nat.le_add_right _ _), Nat.add_sub_cancel_left]
    exact hleaf

mutual

theorem leaves_length (path : List ℕ) (s : Selection) : (s.leaves path).length = s.arity := by
  cases s with
  | all type | nullable type =>
    rw [Selection.leaves, Selection.arity, length_map, length_zipIdx]
  | tuple first rest =>
    rw [Selection.leaves, Selection.arity, length_append, leaves_length, leavesFrom_length]
  | _ => rfl

theorem leavesFrom_length (path : List ℕ) (index : ℕ) (members : List Selection) :
    (Selection.leavesFrom path index members).length = Selection.arities members := by
  cases members with
  | nil => rfl
  | cons member rest =>
    rw [Selection.leavesFrom, Selection.arities, length_append, leaves_length, leavesFrom_length]

end

variable {cells : Leaf → RowCell ε V} {row : Row ε V}

variable (type : TableType) (path : List ℕ) (columns : List TableColumn) (index start : ℕ)

theorem fromRowAt_eq (h : Holds cells row start ((columns.zipIdx index).map (type.leaf path))) :
    fromRowAt row columns start = (columns.zipIdx index).mapM fun column =>
      (cells (type.leaf path column)).read column.1.kind := by
  induction columns generalizing index start with
  | nil => rfl
  | cons column columns ih =>
    obtain ⟨hcell, hrest⟩ := h.first
    rw [fromRowAt, zipIdx_cons, mapM_cons, hcell, ih _ _ hrest]

theorem foldlM_seen (columns : List (TableColumn × ℕ)) (type : TableType) (path : List ℕ) :
    columns.foldlM (fun absent column =>
      if absent then (cells (type.leaf path column)).isNull else .ok false) false =
        Except.ok false := by
  induction columns with
  | nil => rfl
  | cons column columns ih => exact ih

theorem allNull_eq (h : Holds cells row start ((columns.zipIdx index).map (type.leaf path))) :
    allNull row columns start = (columns.zipIdx index).foldlM (fun absent column =>
      if absent then (cells (type.leaf path column)).isNull else .ok false) true := by
  induction columns generalizing index start with
  | nil => rfl
  | cons column columns ih =>
    obtain ⟨hcell, hrest⟩ := h.first
    rw [allNull, zipIdx_cons, foldlM_cons, hcell, if_pos rfl]
    refine bind_congr fun absent => ?_
    cases absent with
    | true => exact ih _ _ hrest
    | false => exact (foldlM_seen _ type path).symm

theorem firstKey_eq (h : Holds cells row start ((columns.zipIdx index).map (type.leaf path))) :
    (columns.findIdx? (·.isPk)).map (fun pk => (row (start + pk)).isNull) =
      ((columns.zipIdx index).find? (·.1.isPk)).map fun pk =>
        (cells (type.leaf path pk)).isNull := by
  induction columns generalizing index start with
  | nil => rfl
  | cons column columns ih =>
    obtain ⟨hcell, hrest⟩ := h.first
    rw [List.findIdx?_cons, zipIdx_cons, List.find?_cons]
    cases hkey : column.isPk with
    | true =>
      rw [if_pos rfl, Option.map_some, Nat.add_zero, hcell]
      rfl
    | false =>
      rw [if_neg Bool.false_ne_true, ← ih _ _ hrest, Option.map_map]
      congr 1
      funext pk
      rw [Function.comp_apply, Nat.add_assoc, Nat.add_comm 1 pk]

theorem outerJoinAbsent_eq (h : Holds cells row start (type.columns.zipIdx.map (type.leaf path))) :
    outerJoinAbsent row type start = unmatched cells type path := by
  have hkey := firstKey_eq type path type.columns 0 start h
  unfold outerJoinAbsent unmatched
  cases hfound : type.columns.findIdx? (·.isPk) with
  | none =>
    rw [hfound, Option.map_none, eq_comm, Option.map_eq_none_iff] at hkey
    rw [hkey]
    exact allNull_eq type path type.columns 0 start h
  | some pk =>
    rw [hfound, Option.map_some, eq_comm, Option.map_eq_some_iff] at hkey
    obtain ⟨place, hplace, hnull⟩ := hkey
    rw [hplace]
    exact hnull.symm

theorem decodeOuterRow_eq (h : Holds cells row start (type.columns.zipIdx.map (type.leaf path))) :
    decodeOuterRow row type start = (Selection.nullable type).meaning cells path := by
  rw [decodeOuterRow, Selection.meaning, outerJoinAbsent_eq type path start h,
    fromRowAt_eq type path type.columns 0 start h]
  rfl

mutual

theorem decode_eq (path : List ℕ) (s : Selection) (start : ℕ)
    (h : Holds cells row start (s.leaves path)) :
    s.decode row start = s.meaning cells path := by
  cases s with
  | column table name readCast kind | count => rw [Selection.decode, Selection.meaning, h.first.1]
  | agg func table name isWidened out =>
    rw [Selection.decode, Selection.meaning, h.first.1]
  | all type =>
    rw [Selection.decode, Selection.meaning, fromRowAt_eq type path type.columns 0 start h]
    rfl
  | nullable type =>
    rw [Selection.decode]
    exact decodeOuterRow_eq type path start h
  | tuple first rest =>
    obtain ⟨hfirst, hrest⟩ := h.split
    rw [leaves_length] at hrest
    rw [Selection.decode, Selection.meaning, decode_eq _ first start hfirst, decodeRest_eq hrest]

theorem decodeRest_eq {path : List ℕ} {index : ℕ} {members : List Selection} {start : ℕ}
    (h : Holds cells row start (Selection.leavesFrom path index members)) :
    Selection.decodeRest row members start = Selection.meaningsFrom cells path index members := by
  cases members with
  | nil => rfl
  | cons member rest =>
    obtain ⟨hmember, hrest⟩ := h.split
    rw [leaves_length] at hrest
    rw [Selection.decodeRest, Selection.meaningsFrom, decode_eq _ member start hmember,
      decodeRest_eq hrest]

end

mutual

theorem path_suffix {path : List ℕ} {s : Selection} {leaf : Leaf} (h : leaf ∈ s.leaves path) :
    path <:+ leaf.path := by
  cases s with
  | all type | nullable type =>
    obtain ⟨place, _, rfl⟩ := mem_map.mp h
    exact suffix_cons _ _
  | tuple first rest =>
    cases mem_append.mp h with
    | inl hfirst => exact (suffix_cons 0 path).trans (path_suffix hfirst)
    | inr hrest =>
      obtain ⟨index, _, hsuffix⟩ := pathFrom_suffix hrest
      exact (suffix_cons index path).trans hsuffix
  | _ =>
    obtain rfl := mem_singleton.mp h
    exact suffix_rfl

theorem pathFrom_suffix {path : List ℕ} {start : ℕ} {members : List Selection} {leaf : Leaf}
    (h : leaf ∈ Selection.leavesFrom path start members) :
    ∃ index, start ≤ index ∧ index :: path <:+ leaf.path := by
  cases members with
  | nil => exact absurd h not_mem_nil
  | cons member rest =>
    cases mem_append.mp h with
    | inl hmember => exact ⟨start, le_rfl, path_suffix hmember⟩
    | inr hrest =>
      obtain ⟨index, hle, hsuffix⟩ := pathFrom_suffix hrest
      exact ⟨index, by omega, hsuffix⟩

end

theorem index_unique {path whole : List ℕ} {i j : ℕ} (hi : i :: path <:+ whole)
    (hj : j :: path <:+ whole) : i = j := by
  have hsuffix := suffix_of_suffix_length_le hi hj (by rw [length_cons, length_cons])
  have hsame := hsuffix.eq_of_length (by rw [length_cons, length_cons])
  exact head_eq_of_cons_eq hsame

theorem tableLeaves_nodup (type : TableType) (path : List ℕ) :
    ((type.columns.zipIdx.map (type.leaf path)).map Leaf.path).Nodup := by
  have hpaths : (type.columns.zipIdx.map (type.leaf path)).map Leaf.path =
      (List.range' 0 type.columns.length).map (· :: path) := by
    rw [map_map, ← zipIdx_map_snd, map_map]
    rfl
  rw [hpaths]
  exact List.Nodup.map (fun i j h => head_eq_of_cons_eq h) nodup_range'

mutual

theorem leaves_nodup (path : List ℕ) (s : Selection) : ((s.leaves path).map Leaf.path).Nodup := by
  cases s with
  | all type | nullable type => exact tableLeaves_nodup type path
  | tuple first rest =>
    rw [Selection.leaves, map_append, nodup_append']
    refine ⟨leaves_nodup _ first, leavesFrom_nodup path 1 rest, fun whole hfirst hrest => ?_⟩
    obtain ⟨leaf, hleaf, rfl⟩ := mem_map.mp hfirst
    obtain ⟨other, hother, hsame⟩ := mem_map.mp hrest
    obtain ⟨index, hle, hsuffix⟩ := pathFrom_suffix hother
    rw [hsame] at hsuffix
    have hindex := index_unique (path_suffix hleaf) hsuffix
    omega
  | _ => exact nodup_singleton _

theorem leavesFrom_nodup (path : List ℕ) (start : ℕ) (members : List Selection) :
    ((Selection.leavesFrom path start members).map Leaf.path).Nodup := by
  cases members with
  | nil => exact nodup_nil
  | cons member rest =>
    rw [Selection.leavesFrom, map_append, nodup_append']
    refine ⟨leaves_nodup _ member, leavesFrom_nodup path _ rest, fun whole hmember hrest => ?_⟩
    obtain ⟨leaf, hleaf, rfl⟩ := mem_map.mp hmember
    obtain ⟨other, hother, hsame⟩ := mem_map.mp hrest
    obtain ⟨index, hle, hsuffix⟩ := pathFrom_suffix hother
    rw [hsame] at hsuffix
    have hindex := index_unique (path_suffix hleaf) hsuffix
    omega

end

end

/-- Select items with a comma between each two. -/
def separated : List (List Piece) → List Piece
  | [] => []
  | first :: rest => first ++ rest.flatMap (.text ", " :: ·)

def Leaf.pieces (d : Dialect) (leaf : Leaf) : List Piece := layout d 0 (leaf.item.slots d)

namespace Selection

mutual

/-- Every member of a tuple of several members has an item of its own. -/
def Full : Selection → Prop
  | tuple first rest => (rest = [] ∨ 0 < first.arity) ∧ first.Full ∧ AllFull rest
  | _ => True

def AllFull : List Selection → Prop
  | [] => True
  | member :: rest => 0 < member.arity ∧ member.Full ∧ AllFull rest

end

mutual

/-- One more than the commas a projection writes. -/
def entries : Selection → ℕ
  | all type => max 1 type.columns.length
  | nullable type => max 1 type.columns.length
  | tuple first rest => first.entries + entriesOf rest
  | _ => 1

def entriesOf : List Selection → ℕ
  | [] => 0
  | member :: rest => member.entries + entriesOf rest

end

mutual

theorem le_entries (s : Selection) : max 1 s.arity ≤ s.entries := by
  cases s with
  | tuple first rest =>
    have hfirst := le_entries first
    have hrest := le_entriesOf rest
    rw [arity, entries]
    omega
  | _ => exact le_rfl

theorem le_entriesOf (members : List Selection) :
    arities members ≤ entriesOf members ∧ members.length ≤ entriesOf members := by
  cases members with
  | nil => exact ⟨le_rfl, le_rfl⟩
  | cons member rest =>
    have hmember := le_entries member
    have hrest := le_entriesOf rest
    rw [arities, entriesOf, length_cons]
    omega

end

mutual

theorem full_of_entries (s : Selection) (h : s.entries ≤ max 1 s.arity) : s.Full := by
  cases s with
  | tuple first rest =>
    have hfirst := le_entries first
    have hrest := le_entriesOf rest
    rw [entries, arity] at h
    rw [Full]
    cases rest with
    | nil =>
      rw [entriesOf, arities, Nat.add_zero, Nat.add_zero] at h
      exact ⟨.inl rfl, full_of_entries first h, trivial⟩
    | cons member members =>
      rw [length_cons] at hrest
      exact ⟨.inr (by omega), full_of_entries first (by omega), allFull_of_entries _ (by omega)⟩
  | _ => trivial

theorem allFull_of_entries (members : List Selection) (h : entriesOf members ≤ arities members) :
    AllFull members := by
  cases members with
  | nil => trivial
  | cons member rest =>
    have hmember := le_entries member
    have hrest := le_entriesOf rest
    rw [entriesOf, arities] at h
    exact ⟨by omega, full_of_entries member (by omega), allFull_of_entries rest (by omega)⟩

end

end Selection

section
variable (d : Dialect)

theorem layout_free {slots : List Slot} (bound : ℕ) (h : values slots = []) :
    layout d bound slots = layout d 0 slots := by
  induction slots generalizing bound with
  | nil => rfl
  | cons slot rest ih =>
    cases slot with
    | bind value => exact absurd h (cons_ne_nil _ _)
    | _ => exact congrArg (_ ++ ·) (ih bound h)

theorem values_cast (cast : Option String) : values (readCastSlots d cast) = [] := by
  unfold readCastSlots
  cases cast with
  | none => rfl
  | some cast => cases d.supportsCast <;> rfl

theorem values_column (table name : String) (cast : Option String) :
    values (columnSlots d table name cast) = [] := by
  rw [columnSlots, values_append, values_cast]
  rfl

theorem values_agg (func table name : String) (isWidened : Bool) (out : ValueKind) :
    values (aggSlots d func table name isWidened out) = [] := by
  rw [aggSlots, values_append]
  cases isWidened with
  | false => rfl
  | true =>
    rw [if_pos rfl, values_cast]
    rfl

theorem layout_alone (slots : List Slot) (bound : ℕ) (h : values slots = []) :
    layout d bound slots = separated [layout d 0 slots] := by
  rw [layout_free d bound h, separated, flatMap_nil, append_nil]

theorem layout_further {α : Type} {slots : α → List Slot} (h : ∀ item, values (slots item) = [])
    (items : List α) (bound : ℕ) :
    layout d bound (listed (some ", ") slots items) =
      (items.map fun item => layout d 0 (slots item)).flatMap (.text ", " :: ·) := by
  induction items generalizing bound with
  | nil => rfl
  | cons item rest ih =>
    rw [listed, layout_append, values_append, h, ih, Option.elim, cons_append, layout,
      nil_append, layout_free d _ (h item)]
    rfl

theorem layout_listed {α : Type} (slots : α → List Slot) (h : ∀ item, values (slots item) = [])
    (items : List α) (bound : ℕ) :
    layout d bound (listed none slots items) =
      separated (items.map fun item => layout d 0 (slots item)) := by
  cases items with
  | nil => rfl
  | cons item rest =>
    rw [listed, layout_append, Option.elim, nil_append, layout_further d h,
      layout_free d _ (h item)]
    rfl

theorem layout_table (type : TableType) (path : List ℕ) (bound : ℕ) :
    layout d bound (type.projection.slots d) =
      separated ((type.columns.zipIdx.map (type.leaf path)).map (Leaf.pieces d)) := by
  rw [TableType.projection, Projection.slots, layout_listed d _ fun column => values_column d _ _ _]
  have hcolumns : type.columns = type.columns.zipIdx.map Prod.fst := by
    rw [zipIdx_map_fst]
  conv_lhs => rw [hcolumns]
  rw [map_map, map_map, map_map]
  rfl

theorem separated_append {first rest : List (List Piece)} (h : rest = [] ∨ first ≠ []) :
    separated (first ++ rest) = separated first ++ rest.flatMap (.text ", " :: ·) := by
  cases first with
  | nil =>
    rw [h.resolve_right (fun hne => hne rfl)]
    rfl
  | cons item items =>
    rw [cons_append, separated, separated, flatMap_append, append_assoc]

theorem separated_after {groups : List (List Piece)} (h : groups ≠ []) :
    .text ", " :: separated groups = groups.flatMap (.text ", " :: ·) := by
  cases groups with
  | nil => exact absurd rfl h
  | cons group rest => rfl

mutual

theorem layout_full (path : List ℕ) (s : Selection) (bound : ℕ) (h : s.Full) :
    layout d bound (s.projection.slots d) = separated ((s.leaves path).map (Leaf.pieces d)) := by
  cases s with
  | column table name readCast kind =>
    exact layout_alone d _ bound (values_column d table name readCast)
  | count => exact layout_alone d _ bound rfl
  | agg func table name isWidened out =>
    exact layout_alone d _ bound (values_agg d func table name isWidened out)
  | all type | nullable type => exact layout_table d type path bound
  | tuple first rest =>
    obtain ⟨hfilled, hfirst, hrest⟩ := h
    have happend : (Selection.leavesFrom path 1 rest).map (Leaf.pieces d) = [] ∨
        (first.leaves (0 :: path)).map (Leaf.pieces d) ≠ [] := by
      refine hfilled.imp (fun hnone => by rw [hnone]; rfl) fun hsome hnone => ?_
      rw [map_eq_nil_iff, ← length_eq_zero_iff, leaves_length] at hnone
      omega
    rw [Selection.projection, Projection.slots, Projection.tupleSlots, Option.elim,
      nil_append, layout_append, layout_full (0 :: path) first bound hfirst,
      layout_allFull path 1 rest _ hrest, Selection.leaves, map_append,
      separated_append happend]

theorem layout_allFull (path : List ℕ) (index : ℕ) (members : List Selection) (bound : ℕ)
    (h : Selection.AllFull members) :
    layout d bound (Projection.tupleSlots d (some ", ") (Selection.projections members)) =
      ((Selection.leavesFrom path index members).map (Leaf.pieces d)).flatMap
        (.text ", " :: ·) := by
  cases members with
  | nil => rfl
  | cons member rest =>
    obtain ⟨hfilled, hmember, hrest⟩ := h
    have hsome : (member.leaves (index :: path)).map (Leaf.pieces d) ≠ [] := by
      intro hnone
      rw [map_eq_nil_iff, ← length_eq_zero_iff, leaves_length] at hnone
      omega
    rw [Selection.projections, Projection.tupleSlots, Option.elim, append_assoc,
      cons_append, nil_append, layout, layout_append,
      layout_full (index :: path) member _ hmember, layout_allFull path (index + 1) rest _ hrest,
      Selection.leavesFrom, map_append, flatMap_append, ← separated_after hsome]
    rfl

end

def isComma : Piece → Bool
  | .text fixed => fixed == ", "
  | _ => false

def commasIn (pieces : List Piece) : ℕ := pieces.countP isComma

theorem commasIn_append (first rest : List Piece) :
    commasIn (first ++ rest) = commasIn first + commasIn rest :=
  countP_append

theorem commasIn_further {groups : List (List Piece)} (h : ∀ group ∈ groups, commasIn group = 0) :
    commasIn (groups.flatMap (.text ", " :: ·)) = groups.length := by
  induction groups with
  | nil => rfl
  | cons group rest ih =>
    rw [forall_mem_cons] at h
    rw [flatMap_cons, commasIn_append, ih h.2, length_cons, Nat.add_comm]
    have hcomma : commasIn (.text ", " :: group) = commasIn group + 1 :=
      countP_cons_of_pos (by decide)
    rw [hcomma, h.1]

theorem commasIn_separated (groups : List (List Piece))
    (h : ∀ group ∈ groups, commasIn group = 0) :
    commasIn (separated groups) + 1 = max 1 groups.length := by
  cases groups with
  | nil => rfl
  | cons group rest =>
    rw [forall_mem_cons] at h
    rw [separated, commasIn_append, h.1, commasIn_further h.2, length_cons]
    omega

theorem commasIn_cast (cast : Option String) (bound : ℕ) :
    commasIn (layout d bound (readCastSlots d cast)) = 0 := by
  unfold readCastSlots
  cases cast with
  | none => rfl
  | some cast => cases d.supportsCast <;> rfl

theorem commasIn_column (table name : String) (cast : Option String) (bound : ℕ) :
    commasIn (layout d bound (columnSlots d table name cast)) = 0 := by
  rw [columnSlots, layout_append, commasIn_append, commasIn_cast]
  rfl

theorem commasIn_agg (func table name : String) (isWidened : Bool) (out : ValueKind)
    (bound : ℕ) : commasIn (layout d bound (aggSlots d func table name isWidened out)) = 0 := by
  rw [aggSlots, layout_append, commasIn_append]
  cases isWidened with
  | false => rfl
  | true =>
    rw [if_pos rfl, commasIn_cast]
    rfl

theorem commasIn_table (type : TableType) (bound : ℕ) :
    commasIn (layout d bound (type.projection.slots d)) + 1 = max 1 type.columns.length := by
  rw [layout_table d type [] bound, commasIn_separated, length_map, length_map, length_zipIdx]
  intro group hgroup
  obtain ⟨leaf, hleaf, rfl⟩ := mem_map.mp hgroup
  obtain ⟨place, _, rfl⟩ := mem_map.mp hleaf
  exact commasIn_column d _ _ _ 0

mutual

theorem commasIn_leaf (path : List ℕ) (s : Selection) (leaf : Leaf) (h : leaf ∈ s.leaves path) :
    commasIn (leaf.pieces d) = 0 := by
  cases s with
  | column table name readCast kind =>
    rw [mem_singleton.mp h]
    exact commasIn_column d table name readCast 0
  | count =>
    rw [mem_singleton.mp h]
    rfl
  | agg func table name isWidened out =>
    rw [mem_singleton.mp h]
    exact commasIn_agg d func table name isWidened out 0
  | all type | nullable type =>
    obtain ⟨place, _, rfl⟩ := mem_map.mp h
    exact commasIn_column d _ _ _ 0
  | tuple first rest =>
    exact (mem_append.mp h).elim (commasIn_leaf _ first leaf)
      (commasIn_leaves path 1 rest leaf)

theorem commasIn_leaves (path : List ℕ) (index : ℕ) (members : List Selection) (leaf : Leaf)
    (h : leaf ∈ Selection.leavesFrom path index members) : commasIn (leaf.pieces d) = 0 := by
  cases members with
  | nil => exact absurd h not_mem_nil
  | cons member rest =>
    exact (mem_append.mp h).elim (commasIn_leaf _ member leaf)
      (commasIn_leaves path (index + 1) rest leaf)

end

mutual

theorem commasIn_projection (s : Selection) (bound : ℕ) :
    commasIn (layout d bound (s.projection.slots d)) + 1 = s.entries := by
  cases s with
  | column table name readCast kind =>
    exact congrArg (· + 1) (commasIn_column d table name readCast bound)
  | count => rfl
  | agg func table name isWidened out =>
    exact congrArg (· + 1) (commasIn_agg d func table name isWidened out bound)
  | all type | nullable type => exact commasIn_table d type bound
  | tuple first rest =>
    rw [Selection.projection, Projection.slots, Projection.tupleSlots, Option.elim,
      nil_append, layout_append, commasIn_append, commasIn_projections rest,
      Selection.entries, ← commasIn_projection first bound, Nat.add_right_comm]

theorem commasIn_projections (members : List Selection) (bound : ℕ) :
    commasIn (layout d bound (Projection.tupleSlots d (some ", ")
      (Selection.projections members))) = Selection.entriesOf members := by
  cases members with
  | nil => rfl
  | cons member rest =>
    rw [Selection.projections, Projection.tupleSlots, Option.elim, append_assoc,
      cons_append, nil_append, layout, layout_append, commasIn_append, commasIn_append,
      commasIn_projections rest, Selection.entriesOf,
      ← commasIn_projection member (bound + 0), Nat.add_comm _ 1]
    exact (Nat.add_assoc 1 _ _).symm

end

end

/-- The select list has the items of the leaves, and a row is decoded leaf by leaf. -/
structure Lined (d : Dialect) (s : Selection) (w next : SqlWriter) : Prop where
  written : next.pieces = w.pieces ++ separated ((s.leaves []).map (Leaf.pieces d))
  counted : (s.leaves []).length = s.arity
  distinct : ((s.leaves []).map Leaf.path).Nodup
  decoded : ∀ (ε V : Type) (cells : Leaf → RowCell ε V) (row : Row ε V) (start : ℕ),
    Holds cells row start (s.leaves []) → s.decode row start = s.meaning cells []
  confined : ∀ (ε V : Type) (row other : Row ε V) (start : ℕ),
    (∀ i < s.arity, row (start + i) = other (start + i)) → s.decode row start = s.decode other start
  absent : ∀ (ε V : Type) (cells : Leaf → RowCell ε V) (path : List ℕ) (type : TableType),
    (Selection.nullable type).meaning cells path = .ok .absent ↔
      unmatched cells type path = .ok true

theorem holds_at_index {ε V : Type} (row : Row ε V) (start : ℕ) {leaves : List Leaf}
    (h : (leaves.map Leaf.path).Nodup) :
    Holds (fun leaf => row (start + (leaves.map Leaf.path).idxOf leaf.path)) row start leaves := by
  intro i leaf hleaf
  obtain ⟨hlt, rfl⟩ := List.getElem?_eq_some_iff.mp hleaf
  have hindex := h.idxOf_getElem i (by rw [length_map]; exact hlt)
  rw [getElem_map] at hindex
  dsimp only
  rw [hindex]

theorem decode_confined {ε V : Type} {row other : Row ε V} {s : Selection} {start : ℕ}
    (h : ∀ i < s.arity, row (start + i) = other (start + i)) :
    s.decode row start = s.decode other start := by
  have hholds := holds_at_index row start (leaves_nodup [] s)
  rw [decode_eq [] s start hholds]
  refine (decode_eq [] s start fun i leaf hleaf => ?_).symm
  have hlt : i < s.arity := by
    rw [← leaves_length [] s]
    exact (List.getElem?_eq_some_iff.mp hleaf).1
  exact (h i hlt).symm.trans (hholds i leaf hleaf)

theorem meaning_absent_iff {ε V : Type} (cells : Leaf → RowCell ε V) (path : List ℕ)
    (type : TableType) : (Selection.nullable type).meaning cells path = .ok .absent ↔
      unmatched cells type path = .ok true := by
  rw [Selection.meaning]
  cases unmatched cells type path with
  | error e => exact ⟨fun h => (nomatch h), fun h => (nomatch h)⟩
  | ok absent =>
    cases absent with
    | true => exact ⟨fun _ => rfl, fun _ => rfl⟩
    | false =>
      refine ⟨fun h => ?_, fun h => nomatch h⟩
      cases hrow : selectedRow cells type path with
      | error e | ok values =>
        rw [hrow] at h
        cases h

/-- A projection lines up when no tuple of several members has a member without columns. -/
theorem projection_lined_iff (d : Dialect) (s : Selection) (w next : SqlWriter)
    (h : s.projection.writeColumns d w = .ok next) : Lined d s w next ↔ s.Full := by
  rw [Projection.writeColumns_eq, emit_eq_ok] at h
  obtain ⟨_, rfl⟩ := h
  constructor
  · intro hlined
    have hwritten := append_cancel_left hlined.written
    have hcommas := commasIn_separated ((s.leaves []).map (Leaf.pieces d)) (by
      intro group hgroup
      obtain ⟨leaf, hleaf, rfl⟩ := mem_map.mp hgroup
      exact commasIn_leaf d [] s leaf hleaf)
    rw [← hwritten, commasIn_projection, length_map, leaves_length] at hcommas
    exact s.full_of_entries hcommas.le
  · intro hfull
    exact {
      written := congrArg (w.pieces ++ ·) (layout_full d [] s _ hfull)
      counted := leaves_length [] s
      distinct := leaves_nodup [] s
      decoded := fun _ _ _ _ start hholds => decode_eq [] s start hholds
      confined := fun _ _ _ _ start hsame => decode_confined hsame
      absent := fun _ _ cells path type => meaning_absent_iff cells path type }

/-- An outer join of two tables, the joined one beside a count. -/
def authorAndCount : Selection :=
  .tuple (.nullable ⟨"authors", [⟨"id", none, .i64, true⟩, ⟨"name", none, .text, false⟩]⟩) [.count]

theorem projection_lined_author : Lined postgresDialect authorAndCount SqlWriter.new
    ⟨[.ident "authors", .text ".", .ident "id", .text ", ", .ident "authors", .text ".",
      .ident "name", .text ", ", .text "count(*)"], [], none⟩ :=
  (projection_lined_iff postgresDialect authorAndCount SqlWriter.new _ rfl).mpr
    ⟨.inr (by decide), trivial, by decide, trivial, trivial⟩

/-- A table of generated columns only has no stored columns. -/
def totalsAndCount : Selection := .tuple (.all ⟨"totals", []⟩) [.count]

theorem totalsAndCount_not_lined :
    totalsAndCount.projection.writeColumns postgresDialect SqlWriter.new =
        .ok ⟨[.text ", ", .text "count(*)"], [], none⟩ ∧ totalsAndCount.arity = 1 ∧
      ¬Lined postgresDialect totalsAndCount SqlWriter.new ⟨[.text ", ", .text "count(*)"], [], none⟩ := by
  refine ⟨rfl, rfl, fun hlined => ?_⟩
  exact absurd (congrArg List.length hlined.written) (by decide)

end Stakit.Orm
