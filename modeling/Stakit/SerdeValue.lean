import Mathlib.Data.String.Basic
import Stakit.EntryMaps
import Stakit.SerdeJson

set_option autoImplicit false

namespace Stakit.SerdeJson
open JsonText EntryMaps List

/-- What a number token reads as is left open. -/
inductive Value (N : Type) where
  | null
  | bool (flag : Bool)
  | number (n : N)
  | string (text : String)
  | array (items : List (Value N))
  | object (fields : List (String × Value N))

section
variable {N : Type} [DecidableEq N]

mutual

def sameValue : Value N → Value N → Bool
  | .null, .null => true
  | .bool a, .bool b => a = b
  | .number a, .number b => a = b
  | .string a, .string b => a = b
  | .array items, .array others => sameItems items others
  | .object fields, .object others => sameFields fields others
  | _, _ => false

def sameItems : List (Value N) → List (Value N) → Bool
  | [], [] => true
  | item :: items, other :: others => sameValue item other && sameItems items others
  | _, _ => false

def sameFields : List (String × Value N) → List (String × Value N) → Bool
  | [], [] => true
  | (name, value) :: fields, (other, value') :: others =>
    name = other && sameValue value value' && sameFields fields others
  | _, _ => false

end

mutual

theorem sameValue_iff (a b : Value N) : sameValue a b = true ↔ a = b := by
  cases a with
  | null | bool flag | number n | string text => cases b <;> simp [sameValue]
  | array items => cases b <;> simp [sameValue, sameItems_iff items]
  | object fields => cases b <;> simp [sameValue, sameFields_iff fields]

theorem sameItems_iff (items others : List (Value N)) :
    sameItems items others = true ↔ items = others := by
  cases items with
  | nil => cases others <;> simp [sameItems]
  | cons item items =>
    cases others <;> simp [sameItems, sameValue_iff item, sameItems_iff items]

theorem sameFields_iff (fields others : List (String × Value N)) :
    sameFields fields others = true ↔ fields = others := by
  cases fields with
  | nil => cases others <;> simp [sameFields]
  | cons field fields =>
    cases others with
    | nil => simp [sameFields]
    | cons other others =>
      obtain ⟨name, value⟩ := field
      obtain ⟨name', value'⟩ := other
      simp [sameFields, sameValue_iff value, sameFields_iff fields, and_assoc]

end

instance : DecidableEq (Value N) := fun a b => decidable_of_iff _ (sameValue_iff a b)

end

/-- The key of a `RawValue`: a `Value` is read from the text under it. -/
def rawKey : String := "$serde_json::private::RawValue"

/-- `KeyClass::RawValue`, told by the first key of the object. -/
def isWrapper (fields : List (List ℕ × Json)) : Bool :=
  fields.head?.any fun field => stringOf field.1 = some rawKey

/-- `BoxedFromString`: a string, and nothing after it. -/
def wrapped : List (List ℕ × Json) → Option (List Char)
  | [(_, .string points)] => (stringOf points).map String.toList
  | _ => none

section
variable {N : Type} (number : List Char → Option N)

/-- `room` is how many arrays and objects may still be entered, `nested` reads a text under the
key of a `RawValue`. -/
def ofTreeWith (nested : List Char → Option (Value N)) : ℕ → Json → Option (Value N)
  | _, .null => some .null
  | _, .bool flag => some (.bool flag)
  | _, .number token => (number token).map .number
  | _, .string points => (stringOf points).map .string
  | 0, .array _ => none
  | 0, .object _ => none
  | room + 1, .array items => (items.mapM (ofTreeWith nested room)).map .array
  | room + 1, .object fields =>
    if isWrapper fields then (wrapped fields).bind nested
    else (fields.mapM fun field => (stringOf field.1).bind fun name =>
      (ofTreeWith nested room field.2).map fun value => (name, value)).map fun entries =>
        .object (sortedMap entries)

/-- serde counts down from 128 and refuses at zero. -/
def maxDepth : ℕ := 127

/-- `fuel` bounds how often a text stands in a text. -/
def readText : ℕ → List Char → Option (Value N)
  | 0, _ => none
  | fuel + 1, text => (parse text).bind (ofTreeWith number (readText fuel) maxDepth)

def fromText (text : List Char) : Option (Value N) := readText number (text.length + 1) text

def ofTree (room : ℕ) (tree : Json) : Option (Value N) :=
  ofTreeWith number (fromText number) room tree

variable {α β : Type} (f : α → Option β) (xs : List α) (raw : List Char) (raws : List (List Char))

theorem mapM_bind {γ : Type} (f : α → Option β) (g : β → Option γ) (xs : List α) (ys : List β)
    (zs : List γ) (hf : xs.mapM f = some ys) (hg : ys.mapM g = some zs) :
    xs.mapM (fun x => (f x).bind g) = some zs := by
  induction xs generalizing ys zs with
  | nil =>
    cases hf
    exact hg
  | cons x xs ih =>
    rw [mapM_cons] at hf ⊢
    obtain ⟨y, hy, hf⟩ := Option.bind_eq_some_iff.mp hf
    obtain ⟨ys, hys, hf⟩ := Option.bind_eq_some_iff.mp hf
    cases hf
    rw [mapM_cons] at hg
    obtain ⟨z, hz, hg⟩ := Option.bind_eq_some_iff.mp hg
    obtain ⟨zs, hzs, hg⟩ := Option.bind_eq_some_iff.mp hg
    cases hg
    rw [hy, Option.bind_some, hz, ih ys zs hys hzs]
    rfl

theorem mapM_forall₂ (ys : List β) (h : xs.mapM f = some ys) :
    List.Forall₂ (fun x y => f x = some y) xs ys := by
  induction xs generalizing ys with
  | nil =>
    cases h
    exact .nil
  | cons x xs ih =>
    rw [mapM_cons] at h
    obtain ⟨y, hy, h⟩ := Option.bind_eq_some_iff.mp h
    obtain ⟨ys', hys, h⟩ := Option.bind_eq_some_iff.mp h
    cases h
    exact .cons hy (ih ys' hys)

theorem mapM_mem (ys : List β) (h : xs.mapM f = some ys) : ∀ x ∈ xs, ∃ y, f x = some y := by
  induction xs generalizing ys with
  | nil => exact nofun
  | cons first xs ih =>
    rw [mapM_cons] at h
    obtain ⟨y, hy, h⟩ := Option.bind_eq_some_iff.mp h
    obtain ⟨ys', hys, _⟩ := Option.bind_eq_some_iff.mp h
    intro x hx
    rcases mem_cons.mp hx with rfl | hx
    · exact ⟨y, hy⟩
    · exact ih ys' hys x hx

theorem mapM_some (h : ∀ x ∈ xs, ∃ y, f x = some y) : ∃ ys, xs.mapM f = some ys := by
  induction xs with
  | nil => exact ⟨[], rfl⟩
  | cons first xs ih =>
    obtain ⟨y, hy⟩ := h first mem_cons_self
    obtain ⟨ys, hys⟩ := ih fun x hx => h x (mem_cons_of_mem _ hx)
    refine ⟨y :: ys, ?_⟩
    rw [mapM_cons, hy, hys]
    rfl

theorem map_eq_of_mapM {γ δ : Type} (f : α → Option β) (g : α → Option γ) (p : β → δ) (q : γ → δ)
    (xs : List α) (ys : List β) (zs : List γ) (hf : xs.mapM f = some ys)
    (hg : xs.mapM g = some zs) (h : ∀ x ∈ xs, ∀ y z, f x = some y → g x = some z → p y = q z) :
    ys.map p = zs.map q := by
  induction xs generalizing ys zs with
  | nil =>
    cases hf
    cases hg
    rfl
  | cons x xs ih =>
    rw [mapM_cons] at hf hg
    obtain ⟨y, hy, hf⟩ := Option.bind_eq_some_iff.mp hf
    obtain ⟨ys, hys, hf⟩ := Option.bind_eq_some_iff.mp hf
    obtain ⟨z, hz, hg⟩ := Option.bind_eq_some_iff.mp hg
    obtain ⟨zs, hzs, hg⟩ := Option.bind_eq_some_iff.mp hg
    cases hf
    cases hg
    rw [map_cons, map_cons, h x mem_cons_self y z hy hz,
      ih ys zs hys hzs fun x hx => h x (mem_cons_of_mem _ hx)]

theorem mapM_out (ys : List β) (h : xs.mapM f = some ys) : ∀ y ∈ ys, ∃ x ∈ xs, f x = some y := by
  induction xs generalizing ys with
  | nil =>
    cases h
    exact nofun
  | cons first xs ih =>
    rw [mapM_cons] at h
    obtain ⟨y, hy, h⟩ := Option.bind_eq_some_iff.mp h
    obtain ⟨ys', hys, h⟩ := Option.bind_eq_some_iff.mp h
    cases h
    refine forall_mem_cons.mpr ⟨⟨first, mem_cons_self, hy⟩, fun z hz => ?_⟩
    obtain ⟨x, hx, hz⟩ := ih ys' hys z hz
    exact ⟨x, mem_cons_of_mem _ hx, hz⟩

theorem mapM_length (ys : List β) (h : xs.mapM f = some ys) : ys.length = xs.length :=
  (mapM_forall₂ f xs ys h).length_eq.symm

inductive Lengths (p : ℕ → Prop) : Json → Prop
  | null : Lengths p .null
  | bool (flag : Bool) : Lengths p (.bool flag)
  | number (token : List Char) : Lengths p (.number token)
  | string (points : List ℕ) (h : p points.length) : Lengths p (.string points)
  | array (items : List Json) (h : ∀ item ∈ items, Lengths p item) : Lengths p (.array items)
  | object (fields : List (List ℕ × Json)) (h : ∀ field ∈ fields, Lengths p field.2) :
    Lengths p (.object fields)

theorem Lengths.mono {p q : ℕ → Prop} {tree : Json} (h : Lengths p tree) (hpq : ∀ n, p n → q n) :
    Lengths q tree := by
  induction h with
  | null => exact .null
  | bool flag => exact .bool flag
  | number token => exact .number token
  | string points h => exact .string points (hpq _ h)
  | array items _ ih => exact .array items ih
  | object fields _ ih => exact .object fields ih

theorem lengths_any (tree : Json) : Lengths (fun _ => True) tree := by
  cases tree with
  | null => exact .null
  | bool flag => exact .bool flag
  | number token => exact .number token
  | string points => exact .string points trivial
  | array items => exact .array items fun item _ => lengths_any item
  | object fields => exact .object fields fun field _ => lengths_any field.2
termination_by sizeOf tree
decreasing_by
  · next hitem =>
    have hless := sizeOf_lt_of_mem hitem
    simp only [Json.array.sizeOf_spec]
    omega
  · next hfield =>
    have hless := sizeOf_lt_of_mem hfield
    obtain ⟨name, value⟩ := field
    simp only [Json.object.sizeOf_spec, Prod.mk.sizeOf_spec] at hless ⊢
    omega

theorem join_length (units : List ℕ) : (join units).length ≤ units.length := by
  fun_induction join units with
  | case1 | case2 unit => exact le_rfl
  | case3 high low rest _ ih =>
    rw [length_cons, length_cons, length_cons]
    omega
  | case4 high low rest _ ih =>
    rw [length_cons, length_cons]
    omega

theorem literal_units {text rest : List Char} {units : List ℕ}
    (h : literal text = some (units, rest)) : units.length < text.length := by
  refine literal_induction (Nat.succ_pos _) ?_ ?_ ?_ h
  all_goals
    intros
    simp only [length_cons]
    omega

theorem stringPoints_length {points : List ℕ} (h : stringPoints raw = some points) :
    points.length < raw.length := by
  unfold stringPoints at h
  cases raw with
  | nil => cases h
  | cons c rest =>
    dsimp only at h
    split_ifs at h
    split at h
    · next units hread =>
      cases h
      have hunits := literal_units hread
      have hjoin := join_length units
      rw [length_cons]
      omega
    · cases h

theorem points_strictMono : StrictMono points :=
  fun _ _ hlt => List.map_lt (fun _ _ h => h) (String.lt_iff.mp hlt)

theorem stringOf_length {points : List ℕ} {text : String} (h : stringOf points = some text) :
    text.toList.length = points.length := by
  rw [stringOf_eq_some h]
  exact (length_map _).symm

theorem wrapped_eq_some {fields : List (List ℕ × Json)} {text : List Char}
    (h : wrapped fields = some text) : ∃ name points, fields = [(name, .string points)] ∧
      ∃ read, stringOf points = some read ∧ read.toList = text := by
  unfold wrapped at h
  split at h
  · next name points => exact ⟨name, points, rfl, Option.map_eq_some_iff.mp h⟩
  · cases h

theorem wrapped_length {fields : List (List ℕ × Json)} {text : List Char} {p : ℕ → Prop}
    (hlengths : Lengths p (.object fields)) (h : wrapped fields = some text) : p text.length := by
  obtain ⟨name, points, rfl, read, hread, rfl⟩ := wrapped_eq_some h
  cases hlengths with
  | object _ hall =>
    cases hall (name, .string points) mem_cons_self with
    | string _ hlength => exact (stringOf_length hread).symm ▸ hlength

theorem decode_shorter {fuel : ℕ} {tree : Json} (h : decode fuel raw = some tree) :
    Lengths (· < raw.length) tree := by
  induction fuel generalizing raw tree with
  | zero => cases h
  | succ fuel ih =>
    cases raw with
    | nil => cases h
    | cons c rest =>
      unfold decode at h
      split_ifs at h
      · obtain ⟨points, hpoints, rfl⟩ := Option.map_eq_some_iff.mp h
        exact .string points (stringPoints_length _ hpoints)
      · obtain ⟨raws, hparts, h⟩ := Option.bind_eq_some_iff.mp h
        obtain ⟨items, hitems, rfl⟩ := Option.map_eq_some_iff.mp h
        refine .array items fun item hitem => ?_
        obtain ⟨part, hpart, hdecoded⟩ := mapM_out _ raws items hitems item hitem
        have hwithin := arrayParts_within c rest raws hparts part hpart
        exact (ih part hdecoded).mono fun n hn => hn.trans_le (hwithin.trans (Nat.le_succ _))
      · obtain ⟨found, hparts, h⟩ := Option.bind_eq_some_iff.mp h
        obtain ⟨fields, hfields, rfl⟩ := Option.map_eq_some_iff.mp h
        refine .object fields fun field hfield => ?_
        obtain ⟨m, hm, hdecoded⟩ := mapM_out _ found fields hfields field hfield
        obtain ⟨value, hvalue, rfl⟩ := Option.map_eq_some_iff.mp hdecoded
        have hwithin := objectParts_within c rest found hparts m hm
        exact (ih m.raw hvalue).mono fun n hn => hn.trans_le (hwithin.trans (Nat.le_succ _))
      · unfold word scalar at h
        split_ifs at h <;> cases h
        · exact .bool true
        · exact .bool false
        · exact .null
        · exact .number _

theorem trim_length (text : List Char) : (trim text).length ≤ text.length := by
  obtain ⟨front, back, hsplit, -⟩ := trim_split text
  have hlen := congrArg List.length hsplit
  rw [length_append, length_append] at hlen
  omega

theorem parse_shorter {text : List Char} {tree : Json} (h : parse text = some tree) :
    Lengths (· < text.length) tree :=
  (decode_shorter _ h).mono fun _ hn => hn.trans_le (trim_length text)

variable {number}

/-- More room, and a reader of the texts in the tree that reads as much. -/
theorem ofTreeWith_mono {nested nested' : List Char → Option (Value N)} {p : ℕ → Prop}
    (hnested : ∀ text value, p text.length → nested text = some value →
      nested' text = some value) {room room' : ℕ} (hroom : room ≤ room') {tree : Json}
    {value : Value N} (hlengths : Lengths p tree)
    (h : ofTreeWith number nested room tree = some value) :
    ofTreeWith number nested' room' tree = some value := by
  induction room generalizing room' tree value with
  | zero =>
    cases tree with
    | array items | object fields => cases h
    | null | bool flag | number token | string points => unfold ofTreeWith at h ⊢; exact h
  | succ room ih =>
    obtain ⟨room', rfl⟩ : ∃ k, room' = k + 1 := ⟨room' - 1, by omega⟩
    cases hlengths with
    | null | bool flag | number token | string points => unfold ofTreeWith at h ⊢; exact h
    | array items hitems =>
      unfold ofTreeWith at h ⊢
      obtain ⟨values, hvalues, rfl⟩ := Option.map_eq_some_iff.mp h
      rw [mapM_of_forall _ (ofTreeWith number nested' room') items values
        (fun item hitem value hvalue => ih (by omega) (hitems item hitem) hvalue) hvalues]
      rfl
    | object fields hfields =>
      unfold ofTreeWith at h ⊢
      split_ifs at h ⊢
      · obtain ⟨text, htext, hvalue⟩ := Option.bind_eq_some_iff.mp h
        have hlength := wrapped_length (.object fields hfields) htext
        exact Option.bind_eq_some_iff.mpr ⟨text, htext, hnested text value hlength hvalue⟩
      · obtain ⟨entries, hentries, rfl⟩ := Option.map_eq_some_iff.mp h
        rw [mapM_of_forall _ (fun field : List ℕ × Json => (stringOf field.1).bind fun name =>
          (ofTreeWith number nested' room' field.2).map fun value => (name, value)) fields entries
          ?_ hentries]
        · rfl
        · intro field hfield entry hentry
          obtain ⟨name, hname, hentry⟩ := Option.bind_eq_some_iff.mp hentry
          obtain ⟨value, hvalue, rfl⟩ := Option.map_eq_some_iff.mp hentry
          rw [hname, Option.bind_some, ih (by omega) (hfields field hfield) hvalue]
          rfl

theorem readText_fuel {fuel fuel' : ℕ} {text : List Char} {value : Value N}
    (h : readText number fuel text = some value) (hfuel : text.length < fuel') :
    readText number fuel' text = some value := by
  induction fuel generalizing fuel' text value with
  | zero => cases h
  | succ fuel ih =>
    obtain ⟨fuel', rfl⟩ : ∃ k, fuel' = k + 1 := ⟨fuel' - 1, by omega⟩
    obtain ⟨tree, hparse, htree⟩ := Option.bind_eq_some_iff.mp h
    refine Option.bind_eq_some_iff.mpr ⟨tree, hparse, ?_⟩
    exact ofTreeWith_mono (fun inner value hinner hvalue => ih hvalue (by omega)) le_rfl
      (parse_shorter hparse) htree

variable (number)

theorem fromText_iff {text : List Char} {value : Value N} : fromText number text = some value ↔
      ∃ tree, parse text = some tree ∧ ofTree number maxDepth tree = some value := by
  unfold fromText ofTree readText
  rw [Option.bind_eq_some_iff]
  refine exists_congr fun tree => and_congr_right fun hparse => ?_
  have hshort := parse_shorter hparse
  exact ⟨ofTreeWith_mono (fun inner _ _ hvalue => readText_fuel hvalue (Nat.lt_succ_self _)) le_rfl
      hshort,
    ofTreeWith_mono (p := (· < text.length))
      (fun inner _ hinner hvalue => readText_fuel hvalue hinner) le_rfl hshort⟩

theorem fromText_eq (text : List Char) :
    fromText number text = (parse text).bind (ofTree number maxDepth) := by
  refine Option.ext fun value => ?_
  rw [fromText_iff, Option.bind_eq_some_iff]

attribute [irreducible] fromText

@[simp]
theorem ofTree_null (room : ℕ) : ofTree number room .null = some .null := by
  rw [ofTree, ofTreeWith]

@[simp]
theorem ofTree_bool (room : ℕ) (flag : Bool) : ofTree number room (.bool flag) = some (.bool flag) := by
  rw [ofTree, ofTreeWith]

@[simp]
theorem ofTree_number (room : ℕ) (token : List Char) :
    ofTree number room (.number token) = (number token).map .number := by
  rw [ofTree, ofTreeWith]

@[simp]
theorem ofTree_string (room : ℕ) (points : List ℕ) :
    ofTree number room (.string points) = (stringOf points).map .string := by
  rw [ofTree, ofTreeWith]

theorem ofTree_array (room : ℕ) (items : List Json) :
    ofTree number (room + 1) (.array items) = (items.mapM (ofTree number room)).map .array := rfl

theorem ofTree_wrapper (room : ℕ) {fields : List (List ℕ × Json)} (h : isWrapper fields = true) :
    ofTree number (room + 1) (.object fields) = (wrapped fields).bind (fromText number) := by
  rw [ofTree, ofTreeWith, if_pos h]

theorem ofTree_object (room : ℕ) {fields : List (List ℕ × Json)} (h : isWrapper fields = false) :
    ofTree number (room + 1) (.object fields) =
      (fields.mapM fun field => (stringOf field.1).bind fun name =>
        (ofTree number room field.2).map fun value => (name, value)).map fun entries =>
          .object (sortedMap entries) := by
  rw [ofTree, ofTreeWith, if_neg (by rw [h]; decide)]
  rfl

theorem ofTree_room (room room' : ℕ) (tree : Json) (value : Value N) (hroom : room ≤ room')
    (h : ofTree number room tree = some value) : ofTree number room' tree = some value :=
  ofTreeWith_mono (fun _ _ _ hvalue => hvalue) hroom (lengths_any tree) h

theorem decode_array {fuel : ℕ} {raw : List Char} {items : List Json}
    (h : decode fuel raw = some (.array items)) :
    ∃ raws, arrayParts raw = some raws ∧ raws.mapM parse = some items := by
  cases fuel with
  | zero => cases h
  | succ fuel =>
    cases raw with
    | nil => cases h
    | cons c rest =>
      unfold decode at h
      split_ifs at h
      · obtain ⟨points, _, hbad⟩ := Option.map_eq_some_iff.mp h
        cases hbad
      · obtain ⟨raws, hparts, h⟩ := Option.bind_eq_some_iff.mp h
        obtain ⟨found, hfound, heq⟩ := Option.map_eq_some_iff.mp h
        cases heq
        exact ⟨raws, hparts, mapM_of_forall _ _ raws items
          (fun part _ value hvalue => parse_of_decode fuel part value hvalue) hfound⟩
      · obtain ⟨found, _, h⟩ := Option.bind_eq_some_iff.mp h
        obtain ⟨fields, _, hbad⟩ := Option.map_eq_some_iff.mp h
        cases hbad
      · unfold word scalar at h
        split_ifs at h <;> cases h

theorem decode_object {fuel : ℕ} {raw : List Char} {fields : List (List ℕ × Json)}
    (h : decode fuel raw = some (.object fields)) :
    ∃ found, objectParts raw = some found ∧
      found.mapM (fun m => (parse m.raw).map fun value => (m.name, value)) = some fields := by
  cases fuel with
  | zero => cases h
  | succ fuel =>
    cases raw with
    | nil => cases h
    | cons c rest =>
      unfold decode at h
      split_ifs at h
      · obtain ⟨points, _, hbad⟩ := Option.map_eq_some_iff.mp h
        cases hbad
      · obtain ⟨raws, _, h⟩ := Option.bind_eq_some_iff.mp h
        obtain ⟨items, _, hbad⟩ := Option.map_eq_some_iff.mp h
        cases hbad
      · obtain ⟨found, hparts, h⟩ := Option.bind_eq_some_iff.mp h
        obtain ⟨found', hfound, heq⟩ := Option.map_eq_some_iff.mp h
        cases heq
        refine ⟨found, hparts, mapM_of_forall _ _ found fields (fun m _ field hfield => ?_) hfound⟩
        obtain ⟨value, hvalue, rfl⟩ := Option.map_eq_some_iff.mp hfield
        rw [parse_of_decode fuel m.raw value hvalue]
        rfl
      · unfold word scalar at h
        split_ifs at h <;> cases h

theorem arrayParts_of_objectParts {found : List Member} (h : objectParts raw = some found) :
    arrayParts raw = none := by
  unfold objectParts at h
  unfold arrayParts
  cases raw with
  | nil => rfl
  | cons c rest =>
    dsimp only at h ⊢
    by_cases hbrace : c = '{'
    · rw [if_neg (by rw [hbrace]; decide)]
    · rw [if_neg hbrace] at h
      cases h

theorem objectParts_of_arrayParts (h : arrayParts raw = some raws) : objectParts raw = none := by
  cases hobject : objectParts raw with
  | none => rfl
  | some found =>
    rw [arrayParts_of_objectParts raw hobject] at h
    cases h

theorem parse_arrayParts {tree : Json} (hparts : arrayParts raw = some raws)
    (h : parse raw = some tree) : ∃ items, tree = .array items := by
  unfold parse at h
  rw [(arrayParts_isRaw hparts).trim] at h
  unfold arrayParts at hparts
  cases raw with
  | nil => cases hparts
  | cons c rest =>
    dsimp only at hparts
    split_ifs at hparts with hbracket
    rw [length_cons] at h
    unfold decode at h
    rw [if_neg (by rw [hbracket]; decide), if_pos hbracket] at h
    obtain ⟨found, _, h⟩ := Option.bind_eq_some_iff.mp h
    obtain ⟨items, _, rfl⟩ := Option.map_eq_some_iff.mp h
    exact ⟨items, rfl⟩

theorem parse_objectParts {found : List Member} {tree : Json} (hparts : objectParts raw = some found)
    (h : parse raw = some tree) : ∃ fields, tree = .object fields := by
  unfold parse at h
  rw [(objectParts_isRaw hparts).trim] at h
  unfold objectParts at hparts
  cases raw with
  | nil => cases hparts
  | cons c rest =>
    dsimp only at hparts
    split_ifs at hparts with hbrace
    rw [length_cons] at h
    unfold decode at h
    rw [if_neg (by rw [hbrace]; decide), if_neg (by rw [hbrace]; decide), if_pos hbrace] at h
    obtain ⟨members, _, h⟩ := Option.bind_eq_some_iff.mp h
    obtain ⟨fields, _, rfl⟩ := Option.map_eq_some_iff.mp h
    exact ⟨fields, rfl⟩

theorem fromText_trim {text : List Char} (h : IsRaw (trim text)) :
    fromText number (trim text) = fromText number text := by
  rw [fromText_eq, fromText_eq]
  unfold parse
  rw [h.trim]

theorem fromText_arrayParts {value : Value N} (hparts : arrayParts raw = some raws)
    (h : fromText number raw = some value) :
    ∃ items, value = .array items ∧ raws.mapM (fromText number) = some items := by
  obtain ⟨tree, hparse, htree⟩ := (fromText_iff number).mp h
  obtain ⟨trees, rfl⟩ := parse_arrayParts raw raws hparts hparse
  unfold parse at hparse
  rw [(arrayParts_isRaw hparts).trim] at hparse
  obtain ⟨raws', hparts', hraws⟩ := decode_array hparse
  rw [hparts] at hparts'
  cases hparts'
  rw [maxDepth, ofTree_array] at htree
  obtain ⟨items, hitems, rfl⟩ := Option.map_eq_some_iff.mp htree
  have hrooms := mapM_of_forall _ (ofTree number maxDepth) trees items
    (fun item _ value hvalue => ofTree_room number 126 maxDepth item value (by decide) hvalue)
    hitems
  rw [funext (fromText_eq number)]
  exact ⟨items, rfl, mapM_bind _ _ raws trees items hraws hrooms⟩

theorem fromText_array {text : List Char} {value : Value N}
    (hparts : arrayParts (trim text) = some raws) (h : fromText number text = some value) :
    ∃ items, value = .array items ∧ raws.mapM (fromText number) = some items :=
  fromText_arrayParts number (trim text) raws hparts
    ((fromText_trim number (arrayParts_isRaw hparts)).trans h)

/-- The members are those of an object that stands for a text. -/
def wraps (found : List Member) : Bool := found.head?.any fun m => stringOf m.name = some rawKey

theorem isWrapper_eq {found : List Member} {fields : List (List ℕ × Json)}
    (h : found.mapM (fun m => (parse m.raw).map fun value => (m.name, value)) = some fields) :
    isWrapper fields = wraps found := by
  cases found with
  | nil =>
    cases h
    rfl
  | cons m found =>
    rw [mapM_cons] at h
    obtain ⟨field, hfield, h⟩ := Option.bind_eq_some_iff.mp h
    obtain ⟨rest, _, h⟩ := Option.bind_eq_some_iff.mp h
    obtain ⟨value, _, rfl⟩ := Option.map_eq_some_iff.mp hfield
    cases h
    rfl

theorem fromText_members {text : List Char} {value : Value N} {found : List Member}
    (hparts : objectParts (trim text) = some found) (h : fromText number text = some value) :
    ∃ fields, parse text = some (.object fields) ∧
      found.mapM (fun m => (parse m.raw).map fun value => (m.name, value)) = some fields ∧
      ofTree number (126 + 1) (.object fields) = some value := by
  obtain ⟨tree, hparse, htree⟩ := (fromText_iff number).mp h
  have htrim := hparse
  unfold parse at htrim
  have hraw : parse (trim text) = some tree := by
    unfold parse
    rw [(objectParts_isRaw hparts).trim]
    exact htrim
  obtain ⟨fields, rfl⟩ := parse_objectParts (trim text) hparts hraw
  obtain ⟨found', hparts', hfields⟩ := decode_object htrim
  rw [hparts] at hparts'
  cases hparts'
  exact ⟨fields, hparse, hfields, htree⟩

theorem fromText_object {text : List Char} {value : Value N} {found : List Member}
    (hparts : objectParts (trim text) = some found) (hplain : wraps found = false)
    (h : fromText number text = some value) :
    ∃ entries, found.mapM (fun m => (stringOf m.name).bind fun name =>
        (fromText number m.raw).map fun value => (name, value)) = some entries ∧
      value = .object (sortedMap entries) := by
  obtain ⟨fields, _, hfields, htree⟩ := fromText_members number hparts h
  rw [ofTree_object number 126 ((isWrapper_eq hfields).trans hplain)] at htree
  obtain ⟨entries, hentries, rfl⟩ := Option.map_eq_some_iff.mp htree
  refine ⟨entries, mapM_of_forall _ _ found entries (fun m _ entry hentry => ?_)
    (mapM_bind _ _ found fields entries hfields hentries), rfl⟩
  obtain ⟨field, hfield, hentry⟩ := Option.bind_eq_some_iff.mp hentry
  obtain ⟨tree, htree, rfl⟩ := Option.map_eq_some_iff.mp hfield
  obtain ⟨name, hname, hentry⟩ := Option.bind_eq_some_iff.mp hentry
  obtain ⟨value, hvalue, rfl⟩ := Option.map_eq_some_iff.mp hentry
  have hroom := ofTree_room number 126 maxDepth tree value (by decide) hvalue
  rw [hname, Option.bind_some, fromText_eq, htree, Option.bind_some, hroom]
  rfl

/-- An object that stands for a text has that one member, and is the value of the text. -/
theorem fromText_wrapper {text : List Char} {value : Value N} {found : List Member}
    (hparts : objectParts (trim text) = some found) (hwraps : wraps found = true)
    (h : fromText number text = some value) :
    (∃ m, found = [m]) ∧ ∃ inner, fromText number inner = some value := by
  obtain ⟨fields, hparse, hfields, htree⟩ := fromText_members number hparts h
  rw [ofTree_wrapper number 126 ((isWrapper_eq hfields).trans hwraps)] at htree
  obtain ⟨inner, hinner, hvalue⟩ := Option.bind_eq_some_iff.mp htree
  obtain ⟨name, points, rfl, read, hread, rfl⟩ := wrapped_eq_some hinner
  exact ⟨length_eq_one_iff.mp (mapM_length _ found _ hfields).symm, read.toList, hvalue⟩

theorem object_of_ofTree {room : ℕ} {tree : Json} {fields : List (String × Value N)}
    (h : ofTree number room tree = some (.object fields)) : ∃ trees, tree = .object trees := by
  cases tree with
  | null | bool flag | number token | string points => simp at h
  | array items =>
    cases room with
    | zero => cases h
    | succ room =>
      rw [ofTree_array] at h
      obtain ⟨values, _, hbad⟩ := Option.map_eq_some_iff.mp h
      cases hbad
  | object trees => exact ⟨trees, rfl⟩

theorem fromText_keys {text : List Char} {fields : List (String × Value N)}
    (h : fromText number text = some (.object fields)) :
    fields = [] ∨ ∃ key ∈ fields.map Prod.fst, key ≠ rawKey := by
  induction hlength : text.length using Nat.strong_induction_on generalizing text with
  | _ length ih =>
    obtain ⟨tree, hparse, htree⟩ := (fromText_iff number).mp h
    obtain ⟨trees, rfl⟩ := object_of_ofTree number htree
    cases hwrapper : isWrapper trees with
    | true =>
      rw [maxDepth, ofTree_wrapper number 126 hwrapper] at htree
      obtain ⟨inner, hinner, hvalue⟩ := Option.bind_eq_some_iff.mp htree
      have hless := wrapped_length (p := (· < text.length)) (parse_shorter hparse) hinner
      exact ih inner.length (hlength ▸ hless) hvalue rfl
    | false =>
      rw [maxDepth, ofTree_object number 126 hwrapper] at htree
      obtain ⟨entries, hentries, heq⟩ := Option.map_eq_some_iff.mp htree
      cases heq
      cases trees with
      | nil =>
        cases hentries
        exact .inl rfl
      | cons first trees =>
        rw [mapM_cons] at hentries
        obtain ⟨entry, hentry, hentries⟩ := Option.bind_eq_some_iff.mp hentries
        obtain ⟨rest, _, hentries⟩ := Option.bind_eq_some_iff.mp hentries
        cases hentries
        obtain ⟨name, hname, hentry⟩ := Option.bind_eq_some_iff.mp hentry
        obtain ⟨value, _, rfl⟩ := Option.map_eq_some_iff.mp hentry
        have hplain : ¬ stringOf first.1 = some rawKey := of_decide_eq_false hwrapper
        have hkey : name ∈ ((name, value) :: rest).map Prod.fst := mem_cons_self
        refine .inr ⟨name, key_mem_sortedMap hkey, ?_⟩
        rintro rfl
        exact hplain hname

theorem parse_stringPoints {points : List ℕ} (h : stringPoints raw = some points) :
    parse raw = some (.string points) := by
  unfold parse
  rw [(stringPoints_isRaw h).trim]
  cases raw with
  | nil => cases h
  | cons c rest =>
    have hquote : c = '"' := by
      by_contra hne
      unfold stringPoints at h
      dsimp only at h
      rw [if_neg hne] at h
      cases h
    rw [length_cons]
    unfold decode
    rw [if_pos hquote, h]
    rfl

theorem fromText_string {text : String} (h : readString raw = some text) :
    fromText number raw = some (.string text) := by
  obtain ⟨points, hpoints, hstring⟩ := Option.bind_eq_some_iff.mp h
  rw [fromText_eq, parse_stringPoints raw hpoints, Option.bind_some, ofTree_string, hstring]
  rfl

end

end Stakit.SerdeJson
