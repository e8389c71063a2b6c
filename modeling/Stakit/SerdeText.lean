import Stakit.SerdeValue

set_option autoImplicit false

namespace Stakit.SerdeJson
open JsonText EntryMaps List

/-- What is left open of writing. -/
structure Printer (N : Type) where
  escape : Char → List Char
  token : N → List Char

/-- An escaped character reads as itself, and a number is written as one. -/
structure Printer.Lawful {N : Type} (printer : Printer N) : Prop where
  escape : ∀ c rest, literal (printer.escape c ++ rest) = (literal rest).map (push c.toNat)
  token : ∀ n, word (printer.token n) = some (.number (printer.token n))

section
variable {N : Type} (printer : Printer N)

mutual

def treeOf : Value N → Json
  | .null => .null
  | .bool flag => .bool flag
  | .number n => .number (printer.token n)
  | .string text => .string (points text)
  | .array items => .array (treesOf items)
  | .object fields => .object (fieldTrees fields)

def treesOf : List (Value N) → List Json
  | [] => []
  | item :: items => treeOf item :: treesOf items

def fieldTrees : List (String × Value N) → List (List ℕ × Json)
  | [] => []
  | (name, value) :: fields => (points name, treeOf value) :: fieldTrees fields

end

mutual

def textOf : Value N → List Char
  | .null => "null".toList
  | .bool true => "true".toList
  | .bool false => "false".toList
  | .number n => printer.token n
  | .string text => quoted printer.escape text.toList
  | .array items => writeArray (textsOf items)
  | .object fields => writeObject (fieldTexts fields)

def textsOf : List (Value N) → List (List Char)
  | [] => []
  | item :: items => textOf item :: textsOf items

def fieldTexts : List (String × Value N) → List (List Char × List Char)
  | [] => []
  | (name, value) :: fields =>
    (name.toList.flatMap printer.escape, textOf value) :: fieldTexts fields

end

variable {printer}

theorem Printer.Lawful.names (hlaw : printer.Lawful) (name : String) :
    Names (name.toList.flatMap printer.escape) name.toList :=
  literal_escaped printer.escape name.toList fun c _ => hlaw.escape c

/-- The text is one value, without space around it, and parses to the tree. -/
def Spells (text : List Char) (tree : Json) : Prop := IsRaw text ∧ parse text = some tree

theorem spells_word (token : List Char) (value : Json) (hword : word token = some value) :
    Spells token value := by
  have hhead : ∀ c rest, token = c :: rest → c ≠ '"' ∧ c ≠ '[' ∧ c ≠ '{' := by
    rintro c rest rfl
    unfold word at hword
    split_ifs at hword with hall
    have hc := all_eq_true.mp hall c mem_cons_self
    refine ⟨?_, ?_, ?_⟩
    · rintro rfl; exact absurd hc (by decide)
    · rintro rfl; exact absurd hc (by decide)
    · rintro rfl; exact absurd hc (by decide)
  refine ⟨isRaw_word hword hhead, ?_⟩
  cases token with
  | nil => cases hword
  | cons c rest =>
    obtain ⟨hquote, hbracket, hbrace⟩ := hhead c rest rfl
    refine parse_of_decode 1 _ _ ?_
    rw [decode, if_neg hquote, if_neg hbracket, if_neg hbrace, hword]

mutual

theorem spells_textOf (hlaw : printer.Lawful) (value : Value N) :
    Spells (textOf printer value) (treeOf printer value) := by
  cases value with
  | null =>
    rw [textOf, treeOf]
    exact spells_word _ _ (by decide)
  | bool flag =>
    cases flag with
    | true | false =>
      rw [textOf, treeOf]
      exact spells_word _ _ (by decide)
  | number n =>
    rw [textOf, treeOf]
    exact spells_word _ _ (hlaw.token n)
  | string text =>
    rw [textOf, treeOf]
    exact ⟨isRaw_quoted printer.escape text.toList fun c _ => hlaw.escape c,
      parse_quoted printer.escape text.toList fun c _ => hlaw.escape c⟩
  | array items =>
    obtain ⟨pairs, htexts, htrees, hall⟩ := spells_textsOf hlaw items
    rw [textOf, treeOf, htexts, htrees]
    refine ⟨arrayParts_isRaw (arrayParts_write _ ?_), parse_writeArray hall⟩
    intro text htext
    obtain ⟨pair, hpair, rfl⟩ := mem_map.mp htext
    exact (hall pair hpair).1
  | object fields =>
    obtain ⟨pairs, htexts, htrees, hall⟩ := spells_fieldTexts hlaw fields
    rw [textOf, treeOf, htexts, htrees]
    refine ⟨?_, parse_named pairs fun pair hpair => ⟨(hall pair hpair).1, (hall pair hpair).2.2⟩⟩
    have hentries : pairs.map (fun pair => pair.1.entry) = (pairs.map Prod.fst).map Named.entry :=
      by rw [map_map]; rfl
    rw [hentries]
    refine objectParts_isRaw (objectParts_named (pairs.map Prod.fst) ?_)
    intro named hnamed
    obtain ⟨pair, hpair, rfl⟩ := mem_map.mp hnamed
    refine ⟨(hall pair hpair).1, ?_⟩
    rw [(hall pair hpair).2.1.trim]
    exact (hall pair hpair).2.1

theorem spells_textsOf (hlaw : printer.Lawful) (items : List (Value N)) :
    ∃ pairs : List (List Char × Json), textsOf printer items = pairs.map Prod.fst ∧
      treesOf printer items = pairs.map Prod.snd ∧ ∀ pair ∈ pairs, Spells pair.1 pair.2 := by
  cases items with
  | nil => exact ⟨[], rfl, rfl, nofun⟩
  | cons item items =>
    obtain ⟨pairs, htexts, htrees, hall⟩ := spells_textsOf hlaw items
    refine ⟨(textOf printer item, treeOf printer item) :: pairs, ?_, ?_, ?_⟩
    · rw [textsOf, htexts, map_cons]
    · rw [treesOf, htrees, map_cons]
    · exact forall_mem_cons.mpr ⟨spells_textOf hlaw item, hall⟩

theorem spells_fieldTexts (hlaw : printer.Lawful) (fields : List (String × Value N)) :
    ∃ pairs : List (Named × Json),
      fieldTexts printer fields = pairs.map (fun pair => pair.1.entry) ∧
      fieldTrees printer fields = pairs.map (fun pair => (pair.1.2.1.map Char.toNat, pair.2)) ∧
      ∀ pair ∈ pairs, Names pair.1.1 pair.1.2.1 ∧ Spells pair.1.2.2 pair.2 := by
  cases fields with
  | nil => exact ⟨[], rfl, rfl, nofun⟩
  | cons field fields =>
    obtain ⟨name, value⟩ := field
    obtain ⟨pairs, htexts, htrees, hall⟩ := spells_fieldTexts hlaw fields
    refine ⟨((name.toList.flatMap printer.escape, name.toList, textOf printer value),
      treeOf printer value) :: pairs, ?_, ?_, ?_⟩
    · rw [fieldTexts, htexts, map_cons]
      rfl
    · rw [fieldTrees, htrees, map_cons]
      rfl
    · exact forall_mem_cons.mpr ⟨⟨hlaw.names name, spells_textOf hlaw value⟩, hall⟩

end

mutual

def depth : Value N → ℕ
  | .array items => depths items + 1
  | .object fields => fieldDepths fields + 1
  | _ => 0

def depths : List (Value N) → ℕ
  | [] => 0
  | item :: items => max (depth item) (depths items)

def fieldDepths : List (String × Value N) → ℕ
  | [] => 0
  | (_, value) :: fields => max (depth value) (fieldDepths fields)

end

mutual

def numbers : Value N → List N
  | .number n => [n]
  | .array items => itemNumbers items
  | .object fields => fieldNumbers fields
  | _ => []

def itemNumbers : List (Value N) → List N
  | [] => []
  | item :: items => numbers item ++ itemNumbers items

def fieldNumbers : List (String × Value N) → List N
  | [] => []
  | (_, value) :: fields => numbers value ++ fieldNumbers fields

end

variable (printer) (number : List Char → Option N)

def legible (ns : List N) : Bool := ns.all fun n => (number (printer.token n)).isSome

/-- The object is read as the value of a text. -/
def startsRaw {α : Type} (fields : List (String × α)) : Bool :=
  fields.head?.any fun field => field.1 = rawKey

def unwrapped : List (String × Value N) → Option (Value N)
  | [(_, .string text)] => fromText number text.toList
  | _ => none

mutual

def unwraps : Value N → Bool
  | .array items => unwrapsItems items
  | .object fields =>
    if startsRaw fields then (unwrapped number fields).isSome else unwrapsFields fields
  | _ => true

def unwrapsItems : List (Value N) → Bool
  | [] => true
  | item :: items => unwraps item && unwrapsItems items

def unwrapsFields : List (String × Value N) → Bool
  | [] => true
  | (_, value) :: fields => unwraps value && unwrapsFields fields

end

mutual

/-- The value with its numbers read from their tokens, its objects as maps, and what is read from
texts in their place. -/
def reread : Value N → Value N
  | .null => .null
  | .bool flag => .bool flag
  | .number n => .number ((number (printer.token n)).getD n)
  | .string text => .string text
  | .array items => .array (rereadItems items)
  | .object fields =>
    if startsRaw fields then (unwrapped number fields).getD .null
    else .object (sortedMap (rereadFields fields))

def rereadItems : List (Value N) → List (Value N)
  | [] => []
  | item :: items => reread item :: rereadItems items

def rereadFields : List (String × Value N) → List (String × Value N)
  | [] => []
  | (name, value) :: fields => (name, reread value) :: rereadFields fields

end

mutual

/-- `from_value::<Value>`, which looks for the key of a `RawValue` once more. -/
def fromValue : Value N → Option (Value N)
  | .array items => (fromItems items).map .array
  | .object fields =>
    if startsRaw fields then unwrapped number fields else (fromFields fields).map .object
  | value => some value

def fromItems : List (Value N) → Option (List (Value N))
  | [] => some []
  | item :: items => (fromValue item).bind fun item => (fromItems items).map (item :: ·)

def fromFields : List (String × Value N) → Option (List (String × Value N))
  | [] => some []
  | (name, value) :: fields =>
    (fromValue value).bind fun value => (fromFields fields).map ((name, value) :: ·)

end

theorem legible_append (ns more : List N) :
    legible printer number (ns ++ more) = (legible printer number ns && legible printer number more) :=
  all_append

theorem guard_map {α β : Type} (p r : Prop) [Decidable p] [Decidable r] (hpr : r ↔ p) (f : α → β)
    (x : α) : (if p then some x else none).map f = if r then some (f x) else none := by
  by_cases hp : p
  · rw [if_pos hp, if_pos (hpr.mpr hp)]
    rfl
  · rw [if_neg hp, if_neg fun hr => hp (hpr.mp hr)]
    rfl

theorem guard_cons {α : Type} (p q r : Prop) [Decidable p] [Decidable q] [Decidable r]
    (hpqr : r ↔ p ∧ q) (x : α) (xs : List α) :
    ((if p then some x else none).bind fun x => (if q then some xs else none).bind fun xs =>
      some (x :: xs)) = if r then some (x :: xs) else none := by
  by_cases hp : p
  · by_cases hq : q
    · rw [if_pos hp, if_pos hq, if_pos (hpqr.mpr ⟨hp, hq⟩)]
      rfl
    · rw [if_pos hp, if_neg hq, if_neg fun hr => hq (hpqr.mp hr).2]
      rfl
  · rw [if_neg hp, if_neg fun hr => hp (hpqr.mp hr).1]
    rfl

variable {printer} in
theorem isWrapper_fieldTrees (fields : List (String × Value N)) :
    isWrapper (fieldTrees printer fields) = startsRaw fields := by
  cases fields with
  | nil => rfl
  | cons field fields =>
    obtain ⟨name, value⟩ := field
    refine decide_eq_decide.mpr ?_
    rw [stringOf_points, Option.some.injEq]

variable {printer} in
theorem wrapped_fieldTrees (fields : List (String × Value N)) :
    (wrapped (fieldTrees printer fields)).bind (fromText number) = unwrapped number fields := by
  match fields with
  | [] => rfl
  | [(name, .string text)] =>
    change ((stringOf (points text)).map String.toList).bind (fromText number) = _
    rw [stringOf_points]
    rfl
  | [(_, .null)] | [(_, .bool _)] | [(_, .number _)] | [(_, .array _)] | [(_, .object _)] => rfl
  | (_, value) :: (_, _) :: _ => cases value <;> rfl

theorem unwrapped_eq_some {fields : List (String × Value N)} {value : Value N}
    (h : unwrapped number fields = some value) :
    ∃ name text, fields = [(name, .string text)] ∧ fromText number text.toList = some value := by
  unfold unwrapped at h
  split at h
  · next name text => exact ⟨name, text, rfl, h⟩
  · cases h

theorem unwraps_array (items : List (Value N)) :
    unwraps number (.array items) = unwrapsItems number items := rfl

theorem unwraps_object (fields : List (String × Value N)) :
    unwraps number (.object fields) = if startsRaw fields then (unwrapped number fields).isSome
      else unwrapsFields number fields := rfl

/-- There is room for the nesting, every number is read, and so is every text. -/
def Fits (room : ℕ) (value : Value N) : Prop :=
  depth value ≤ room ∧ legible printer number (numbers value) = true ∧ unwraps number value = true

instance (room : ℕ) (value : Value N) : Decidable (Fits printer number room value) :=
  inferInstanceAs (Decidable (_ ∧ _ ∧ _))

variable {printer number} in
theorem fits_leaf {room : ℕ} {value : Value N} (hdepth : depth value = 0)
    (hnumbers : numbers value = []) (hunwraps : unwraps number value = true) :
    Fits printer number room value :=
  ⟨hdepth ▸ Nat.zero_le room, by rw [hnumbers]; rfl, hunwraps⟩

theorem ofTree_wrapped (room : ℕ) (fields : List (String × Value N))
    (hraw : startsRaw fields = true) :
    ofTree number (room + 1) (treeOf printer (.object fields)) =
      if Fits printer number (room + 1) (.object fields)
      then some (reread printer number (.object fields)) else none := by
  have hunwraps : unwraps number (.object fields) = (unwrapped number fields).isSome := by
    rw [unwraps_object, if_pos hraw]
  rw [treeOf, ofTree_wrapper number room ((isWrapper_fieldTrees fields).trans hraw),
    wrapped_fieldTrees]
  cases hread : unwrapped number fields with
  | none =>
    rw [if_neg]
    rintro ⟨-, -, hsome⟩
    rw [hunwraps, hread] at hsome
    cases hsome
  | some value =>
    obtain ⟨name, text, rfl, -⟩ := unwrapped_eq_some number hread
    rw [if_pos ⟨Nat.le_add_left 1 room, rfl, by rw [hunwraps, hread]; rfl⟩, reread, if_pos hraw,
      hread]
    rfl

mutual

theorem ofTree_treeOf (room : ℕ) (value : Value N) : ofTree number room (treeOf printer value) =
      if Fits printer number room value then some (reread printer number value) else none := by
  cases value with
  | null => rw [treeOf, ofTree_null, if_pos (fits_leaf rfl rfl rfl), reread]
  | bool flag => rw [treeOf, ofTree_bool, if_pos (fits_leaf rfl rfl rfl), reread]
  | string text =>
    rw [treeOf, ofTree_string, stringOf_points, if_pos (fits_leaf rfl rfl rfl), reread]
    rfl
  | number n =>
    rw [treeOf, ofTree_number, reread]
    cases hread : number (printer.token n) with
    | none =>
      rw [if_neg]
      · rfl
      · rintro ⟨_, hlegible, _⟩
        have hsome := all_eq_true.mp hlegible n mem_cons_self
        rw [hread] at hsome
        cases hsome
    | some read =>
      rw [if_pos]
      · rfl
      · refine ⟨Nat.zero_le _, all_eq_true.mpr fun m hm => ?_, rfl⟩
        rw [mem_singleton.mp hm, hread]
        rfl
  | array items =>
    cases room with
    | zero => exact (if_neg fun hfits => absurd hfits.1 (Nat.not_succ_le_zero _)).symm
    | succ room =>
      rw [treeOf, ofTree_array, mapM_treesOf room items, reread]
      refine guard_map _ _ ?_ _ _
      unfold Fits
      rw [depth, numbers, unwraps_array]
      exact and_congr_left fun _ => Nat.add_le_add_iff_right
  | object fields =>
    cases room with
    | zero => exact (if_neg fun hfits => absurd hfits.1 (Nat.not_succ_le_zero _)).symm
    | succ room =>
      cases hraw : startsRaw fields with
      | true => exact ofTree_wrapped printer number room fields hraw
      | false =>
        have hplain : ¬ startsRaw fields = true := by rw [hraw]; decide
        rw [treeOf, ofTree_object number room ((isWrapper_fieldTrees fields).trans hraw),
          mapM_fieldTrees room fields, reread, if_neg hplain]
        refine guard_map _ _ ?_ _ _
        unfold Fits
        rw [depth, numbers, unwraps_object, if_neg hplain]
        exact and_congr_left fun _ => Nat.add_le_add_iff_right

theorem mapM_treesOf (room : ℕ) (items : List (Value N)) :
    (treesOf printer items).mapM (ofTree number room) =
      if depths items ≤ room ∧ legible printer number (itemNumbers items) = true ∧
        unwrapsItems number items = true
      then some (rereadItems printer number items) else none := by
  cases items with
  | nil => exact (if_pos ⟨Nat.zero_le _, rfl, rfl⟩).symm
  | cons item items =>
    rw [treesOf, mapM_cons, ofTree_treeOf room item, mapM_treesOf room items, depths,
      itemNumbers, unwrapsItems, rereadItems, legible_append]
    refine guard_cons _ _ _ ?_ _ _
    unfold Fits
    rw [Nat.max_le, Bool.and_eq_true, Bool.and_eq_true]
    tauto

theorem mapM_fieldTrees (room : ℕ) (fields : List (String × Value N)) :
    (fieldTrees printer fields).mapM (fun field => (stringOf field.1).bind fun name =>
      (ofTree number room field.2).map fun value => (name, value)) =
      if fieldDepths fields ≤ room ∧ legible printer number (fieldNumbers fields) = true ∧
        unwrapsFields number fields = true
      then some (rereadFields printer number fields) else none := by
  cases fields with
  | nil => exact (if_pos ⟨Nat.zero_le _, rfl, rfl⟩).symm
  | cons field fields =>
    obtain ⟨name, value⟩ := field
    have hfield : ((stringOf (points name)).bind fun name =>
        (ofTree number room (treeOf printer value)).map fun value => (name, value)) =
        if Fits printer number room value then some (name, reread printer number value)
        else none := by
      rw [stringOf_points, Option.bind_some, ofTree_treeOf room value]
      exact guard_map _ _ Iff.rfl _ _
    rw [fieldTrees, mapM_cons, hfield, mapM_fieldTrees room fields, fieldDepths,
      fieldNumbers, unwrapsFields, rereadFields, legible_append]
    refine guard_cons _ _ _ ?_ _ _
    unfold Fits
    rw [Nat.max_le, Bool.and_eq_true, Bool.and_eq_true]
    tauto

end

variable (room : ℕ) (items : List (Value N)) (fields : List (String × Value N))

theorem ofTree_iff (value read : Value N) : ofTree number room (treeOf printer value) = some read ↔
      Fits printer number room value ∧ read = reread printer number value := by
  rw [ofTree_treeOf]
  split_ifs with hfits
  · rw [Option.some.injEq]
    exact ⟨fun h => ⟨hfits, h.symm⟩, fun h => h.2.symm⟩
  · exact ⟨nofun, fun h => absurd h.1 hfits⟩

theorem fromText_textOf_iff (hlaw : printer.Lawful) (value read : Value N) :
    fromText number (textOf printer value) = some read ↔
      Fits printer number maxDepth value ∧ read = reread printer number value := by
  rw [fromText_eq, (spells_textOf hlaw value).2, Option.bind_some, ofTree_iff]

theorem depths_le : depths items ≤ room ↔ ∀ item ∈ items, depth item ≤ room := by
  induction items with
  | nil => simp [depths]
  | cons item items ih => rw [depths, Nat.max_le, ih, forall_mem_cons]

theorem fieldDepths_le : fieldDepths fields ≤ room ↔ ∀ field ∈ fields, depth field.2 ≤ room := by
  induction fields with
  | nil => simp [fieldDepths]
  | cons field fields ih =>
    obtain ⟨name, value⟩ := field
    rw [fieldDepths, Nat.max_le, ih, forall_mem_cons]

theorem legible_items : legible printer number (itemNumbers items) = true ↔
      ∀ item ∈ items, legible printer number (numbers item) = true := by
  induction items with
  | nil => simp [itemNumbers, legible]
  | cons item items ih =>
    rw [itemNumbers, legible_append, Bool.and_eq_true, ih, forall_mem_cons]

theorem legible_fields : legible printer number (fieldNumbers fields) = true ↔
      ∀ field ∈ fields, legible printer number (numbers field.2) = true := by
  induction fields with
  | nil => simp [fieldNumbers, legible]
  | cons field fields ih =>
    obtain ⟨name, value⟩ := field
    rw [fieldNumbers, legible_append, Bool.and_eq_true, ih, forall_mem_cons]

theorem unwraps_items :
    unwrapsItems number items = true ↔ ∀ item ∈ items, unwraps number item = true := by
  induction items with
  | nil => simp [unwrapsItems]
  | cons item items ih => rw [unwrapsItems, Bool.and_eq_true, ih, forall_mem_cons]

theorem unwraps_fields :
    unwrapsFields number fields = true ↔ ∀ field ∈ fields, unwraps number field.2 = true := by
  induction fields with
  | nil => simp [unwrapsFields]
  | cons field fields ih =>
    obtain ⟨name, value⟩ := field
    rw [unwrapsFields, Bool.and_eq_true, ih, forall_mem_cons]

theorem fits_array :
    Fits printer number (room + 1) (.array items) ↔ ∀ item ∈ items, Fits printer number room item := by
  unfold Fits
  rw [depth, numbers, unwraps_array, Nat.add_le_add_iff_right, depths_le, legible_items, unwraps_items]
  exact ⟨fun h item hitem => ⟨h.1 item hitem, h.2.1 item hitem, h.2.2 item hitem⟩,
    fun h => ⟨fun item hitem => (h item hitem).1, fun item hitem => (h item hitem).2.1,
      fun item hitem => (h item hitem).2.2⟩⟩

theorem fits_object (hplain : startsRaw fields = false) :
    Fits printer number (room + 1) (.object fields) ↔
      ∀ field ∈ fields, Fits printer number room field.2 := by
  unfold Fits
  rw [depth, numbers, unwraps_object, if_neg (by rw [hplain]; decide), Nat.add_le_add_iff_right,
    fieldDepths_le, legible_fields, unwraps_fields]
  exact ⟨fun h field hfield => ⟨h.1 field hfield, h.2.1 field hfield, h.2.2 field hfield⟩,
    fun h => ⟨fun field hfield => (h field hfield).1, fun field hfield => (h field hfield).2.1,
      fun field hfield => (h field hfield).2.2⟩⟩

theorem startsRaw_of_not_mem {α : Type} {fields : List (String × α)}
    (h : rawKey ∉ fields.map Prod.fst) : startsRaw fields = false := by
  cases fields with
  | nil => rfl
  | cons field fields =>
    refine decide_eq_false fun heq => h ?_
    rw [← heq]
    exact mem_cons_self

theorem startsRaw_sortedMap {entries : Entries String (Value N)}
    (h : rawKey ∉ entries.map Prod.fst) : startsRaw (sortedMap entries) = false := by
  refine startsRaw_of_not_mem fun hin => h ?_
  obtain ⟨entry, hentry, hkey⟩ := mem_map.mp hin
  have hlast := lookup_of_mem (sorted_sortedMap entries) hentry
  rw [lookup_sortedMap, hkey] at hlast
  exact mem_map_of_mem (f := Prod.fst) (mem_reverse.mp (mem_of_lookup hlast))

theorem fits_map (entries : Entries String (Value N)) (hkeys : (entries.map Prod.fst).Nodup)
    (hplain : rawKey ∉ entries.map Prod.fst) :
    Fits printer number (room + 1) (.object (sortedMap entries)) ↔
      ∀ entry ∈ entries, Fits printer number room entry.2 := by
  rw [fits_object _ _ _ _ (startsRaw_sortedMap hplain)]
  exact ⟨fun h entry hentry => h entry ((perm_sortedMap entries hkeys).mem_iff.mpr hentry),
    fun h entry hentry => h entry ((perm_sortedMap entries hkeys).mem_iff.mp hentry)⟩

theorem fits_string (text : String) : Fits printer number room (.string text) :=
  fits_leaf rfl rfl rfl

theorem Fits.mono {room room' : ℕ} {value : Value N} (h : Fits printer number room value)
    (hroom : room ≤ room') : Fits printer number room' value :=
  ⟨h.1.trans hroom, h.2⟩

theorem rereadFields_eq_map : rereadFields printer number fields =
      fields.map fun field => (field.1, reread printer number field.2) := by
  induction fields with
  | nil => rfl
  | cons field fields ih =>
    obtain ⟨name, value⟩ := field
    rw [rereadFields, ih, map_cons]

theorem lookup_reread (fields : Entries String (Value N)) (key : String) :
    (sortedMap (rereadFields printer number fields)).lookup key =
      (last fields key).map (reread printer number) := by
  rw [lookup_sortedMap, rereadFields_eq_map]
  exact last_map fields (fun _ => reread printer number) key

mutual

/-- Every object is a map: its keys ascend. -/
def Proper : Value N → Prop
  | .array items => ProperItems items
  | .object fields => Sorted fields ∧ ProperFields fields
  | _ => True

def ProperItems : List (Value N) → Prop
  | [] => True
  | item :: items => Proper item ∧ ProperItems items

def ProperFields : List (String × Value N) → Prop
  | [] => True
  | (_, value) :: fields => Proper value ∧ ProperFields fields

end

theorem sortedMap_of_sorted {κ ν : Type} [LinearOrder κ] (entries : Entries κ ν)
    (h : Sorted entries) : sortedMap entries = entries := by
  refine sorted_ext _ _ (sorted_sortedMap entries) h fun key => ?_
  rw [lookup_sortedMap]
  refine last_of_nodup entries ?_ key
  rw [nodup_iff_pairwise_ne, pairwise_map]
  exact h.imp fun hlt => hlt.ne

theorem rereadFields_keys (fields : List (String × Value N)) :
    (rereadFields printer number fields).map Prod.fst = fields.map Prod.fst := by
  rw [rereadFields_eq_map, map_map]
  rfl

theorem rereadFields_sorted (fields : List (String × Value N)) (h : Sorted fields) :
    Sorted (rereadFields printer number fields) := by
  have hkeys : ((rereadFields printer number fields).map Prod.fst).Pairwise (· < ·) := by
    rw [rereadFields_keys]
    exact pairwise_map.mpr h
  exact pairwise_map.mp hkeys

mutual

/-- No object starts with the key of a `RawValue`. -/
def rawless : Value N → Bool
  | .array items => rawlessItems items
  | .object fields => !startsRaw fields && rawlessFields fields
  | _ => true

def rawlessItems : List (Value N) → Bool
  | [] => true
  | item :: items => rawless item && rawlessItems items

def rawlessFields : List (String × Value N) → Bool
  | [] => true
  | (_, value) :: fields => rawless value && rawlessFields fields

end

theorem unwrapped_ne {fields : List (String × Value N)} (hraw : startsRaw fields = true) :
    (unwrapped number fields).getD .null ≠ .object fields := by
  cases hread : unwrapped number fields with
  | none => exact nofun
  | some value =>
    obtain ⟨name, text, rfl, htext⟩ := unwrapped_eq_some number hread
    rintro rfl
    have hname : name = rawKey := of_decide_eq_true hraw
    obtain hnil | ⟨key, hkey, hother⟩ := fromText_keys number htext
    · cases hnil
    · exact hother ((mem_singleton.mp hkey).trans hname)

mutual

theorem unwraps_of_rawless (value : Value N) (h : rawless value = true) :
    unwraps number value = true := by
  cases value with
  | null | bool | string | number => rfl
  | array items => exact unwrapsItems_of_rawless items h
  | object fields =>
    obtain ⟨hraw, hfields⟩ := Bool.and_eq_true_iff.mp h
    rw [unwraps_object, if_neg (by rw [(Bool.not_eq_true' _).mp hraw]; decide)]
    exact unwrapsFields_of_rawless fields hfields

theorem unwrapsItems_of_rawless (items : List (Value N)) (h : rawlessItems items = true) :
    unwrapsItems number items = true := by
  cases items with
  | nil => rfl
  | cons item items =>
    obtain ⟨hitem, hitems⟩ := Bool.and_eq_true_iff.mp h
    exact Bool.and_eq_true_iff.mpr
      ⟨unwraps_of_rawless item hitem, unwrapsItems_of_rawless items hitems⟩

theorem unwrapsFields_of_rawless (fields : List (String × Value N))
    (h : rawlessFields fields = true) : unwrapsFields number fields = true := by
  cases fields with
  | nil => rfl
  | cons field fields =>
    obtain ⟨name, value⟩ := field
    obtain ⟨hvalue, hfields⟩ := Bool.and_eq_true_iff.mp h
    exact Bool.and_eq_true_iff.mpr
      ⟨unwraps_of_rawless value hvalue, unwrapsFields_of_rawless fields hfields⟩

end

mutual

theorem reread_eq_iff (value : Value N) (hproper : Proper value) :
    reread printer number value = value ↔ rawless value = true ∧
      ∀ n ∈ numbers value, (number (printer.token n)).getD n = n := by
  cases value with
  | null | bool | string | number => simp [reread, numbers, rawless]
  | array items =>
    rw [reread, numbers, Value.array.injEq]
    exact rereadItems_eq_iff items hproper
  | object fields =>
    rw [reread, numbers]
    cases hraw : startsRaw fields with
    | true =>
      rw [if_pos rfl]
      refine iff_of_false (unwrapped_ne number hraw) fun h => ?_
      have hnot := (Bool.and_eq_true_iff.mp h.1).1
      rw [hraw] at hnot
      cases hnot
    | false =>
      rw [if_neg (by decide), Value.object.injEq,
        sortedMap_of_sorted _ (rereadFields_sorted printer number fields hproper.1),
        rereadFields_eq_iff fields hproper.2]
      refine and_congr_left fun _ => ?_
      change _ ↔ (!startsRaw fields && rawlessFields fields) = true
      rw [hraw]
      rfl

theorem rereadItems_eq_iff (items : List (Value N)) (hproper : ProperItems items) :
    rereadItems printer number items = items ↔ rawlessItems items = true ∧
      ∀ n ∈ itemNumbers items, (number (printer.token n)).getD n = n := by
  cases items with
  | nil => simp [rereadItems, itemNumbers, rawlessItems]
  | cons item items =>
    rw [rereadItems, itemNumbers, List.cons.injEq, reread_eq_iff item hproper.1,
      rereadItems_eq_iff items hproper.2, forall_mem_append, rawlessItems, Bool.and_eq_true]
    exact and_and_and_comm

theorem rereadFields_eq_iff (fields : List (String × Value N)) (hproper : ProperFields fields) :
    rereadFields printer number fields = fields ↔ rawlessFields fields = true ∧
      ∀ n ∈ fieldNumbers fields, (number (printer.token n)).getD n = n := by
  cases fields with
  | nil => simp [rereadFields, fieldNumbers, rawlessFields]
  | cons field fields =>
    obtain ⟨name, value⟩ := field
    rw [rereadFields, fieldNumbers, List.cons.injEq, Prod.mk.injEq, reread_eq_iff value hproper.1,
      rereadFields_eq_iff fields hproper.2, forall_mem_append, rawlessFields,
      Bool.and_eq_true, and_iff_right rfl]
    exact and_and_and_comm

end

mutual

theorem fromValue_rawless (value : Value N) (h : rawless value = true) :
    fromValue number value = some value := by
  cases value with
  | null | bool | string | number => rfl
  | array items => exact congrArg (Option.map Value.array) (fromItems_rawless items h)
  | object fields =>
    obtain ⟨hraw, hfields⟩ := Bool.and_eq_true_iff.mp h
    rw [fromValue, if_neg (by rw [(Bool.not_eq_true' _).mp hraw]; decide),
      fromFields_rawless fields hfields]
    rfl

theorem fromItems_rawless (items : List (Value N)) (h : rawlessItems items = true) :
    fromItems number items = some items := by
  cases items with
  | nil => rfl
  | cons item items =>
    obtain ⟨hitem, hitems⟩ := Bool.and_eq_true_iff.mp h
    rw [fromItems, fromValue_rawless item hitem, fromItems_rawless items hitems]
    rfl

theorem fromFields_rawless (fields : List (String × Value N)) (h : rawlessFields fields = true) :
    fromFields number fields = some fields := by
  cases fields with
  | nil => rfl
  | cons field fields =>
    obtain ⟨name, value⟩ := field
    obtain ⟨hvalue, hfields⟩ := Bool.and_eq_true_iff.mp h
    rw [fromFields, fromValue_rawless value hvalue, fromFields_rawless fields hfields]
    rfl

end

/-- Every number is read from its own token, and no object in place of a text. -/
def RoundTrips (value : Value N) : Prop :=
  rawless value = true ∧ ∀ n ∈ numbers value, number (printer.token n) = some n

theorem roundTrips_iff (value : Value N) (hproper : Proper value) :
    RoundTrips printer number value ↔ legible printer number (numbers value) = true ∧
      unwraps number value = true ∧ reread printer number value = value := by
  rw [reread_eq_iff printer number value hproper]
  unfold RoundTrips legible
  rw [all_eq_true]
  constructor
  · rintro ⟨hrawless, h⟩
    refine ⟨fun n hn => ?_, unwraps_of_rawless number value hrawless, hrawless, fun n hn => ?_⟩
    · rw [h n hn]
      rfl
    · rw [h n hn]
      rfl
  · rintro ⟨hsome, -, hrawless, hsame⟩
    refine ⟨hrawless, fun n hn => ?_⟩
    obtain ⟨read, hread⟩ := Option.isSome_iff_exists.mp (hsome n hn)
    have heq := hsame n hn
    rw [hread, Option.getD_some] at heq
    rw [hread, heq]

end
end Stakit.SerdeJson
