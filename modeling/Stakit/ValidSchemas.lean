import Stakit.ModelSchemas

set_option autoImplicit false

namespace Stakit.TsTypes
open ExceptLoops FuelRuns JsonSchema SerdeJson List

def isText : Ty → Bool
  | .scalar .str | .scalar .string => true
  | .pointer _ pointee => isText pointee
  | _ => false

def Scalar.isNumeric : Scalar → Bool
  | .unit | .bool | .char | .str | .string => false
  | _ => true

def isNumeric : Ty → Bool
  | .scalar scalar => scalar.isNumeric
  | _ => false

/-- Lengths of texts, and ranges of numbers whose bounds `json!` reads as the field's type does. -/
def Rule.Suits (ty : Ty) : Rule → Prop
  | .length _ _ => isText ty = true
  | .range min max => isNumeric ty = true ∧ (∀ bound, min = some bound → bound.typed = bound.json) ∧
      ∀ bound, max = some bound → bound.typed = bound.json
  | _ => True

def isNewtype : Body → Bool
  | .tuple [_] => true
  | _ => false

/-- `fits` is asked of what fields hold. -/
def FitsBody (fits : Ty → Val → Prop) : Body → List Val → Prop
  | .unit, _ => True
  | .named fields, values => ∀ pair ∈ fields.zip values,
      unraw pair.1.label = pair.1.label ∧ (∀ rule ∈ pair.1.rules, rule.Suits pair.1.ty) ∧
        ((pair.1.isOptional = true ∧ pair.2 = .none) ∨ fits pair.1.ty pair.2)
  | .tuple fields, values => ∀ pair ∈ fields.zip values, fits pair.1.ty pair.2

namespace Source
variable (source : Source)

/-- Types whose schema is satisfied by `null`. -/
def nullish : Ty → Bool
  | .scalar .unit => true
  | .pointer _ inner | .option inner => nullish inner
  | .model name _ =>
    match source.plainIr name with
    | .struct .unit => true
    | _ => false
  | _ => false

/-- The derive refuses two fields of one name; fields that hold a model are marked `dive`, and
none is skipped. -/
structure Derived : Prop where
  distinct : ∀ name, ∀ body ∈ (source.plainIr name).bodies,
    (body.fields.map fun field => wireName source.camel field.label).Nodup
  dived : ∀ name, ∀ body ∈ (source.plainIr name).bodies, ∀ field ∈ body.allFields,
    field.skip = false ∧ (mentions field.ty ≠ [] → .dive ∈ field.rules)

def FitsVariant (fits : Ty → Val → Prop) (variants : List Variant)
    (renameAll : Option RenameRule) (value : Val) : Prop :=
  ((variants.all fun variant => isUnit variant.body) = true ∨
      (variants.map (Variant.wire source.unicode renameAll)).Nodup) ∧
    ∀ index values variant, value = .variant index values → variants[index]? = some variant →
      (variant.rename.isSome = true ∨ unraw variant.ident = variant.ident) ∧
        FitsBody fits variant.body values

/-- What keeps a value, down to a depth, from what the schemas miss. -/
def Fits : ℕ → Ty → Val → Prop
  | 0, _, _ => True
  | _ + 1, .scalar _, value => ∀ x, value = .float x → ∃ q, x = .finite q
  | _ + 1, .param _, _ => True
  | depth + 1, .pointer _ pointee, value => Fits depth pointee value
  | depth + 1, .option inner, value =>
    (value = .none → source.nullish inner = true) ∧ ∀ held, value = .some held → Fits depth inner held
  | depth + 1, .sequence _ item, value => ∀ values, value = .items values → ∀ v ∈ values, Fits depth item v
  | depth + 1, .mapping _ _ item, value =>
    ∀ entries, value = .entries entries → ∀ entry ∈ entries, Fits depth item entry.2
  | depth + 1, .tuple types, value =>
    ∀ values, value = .items values → ∀ pair ∈ types.zip values, Fits depth pair.1 pair.2
  | depth + 1, .model name _, value =>
    match source.plainIr name with
    | .struct body => isNewtype body = false ∧
        ∀ values, value = .struct values → FitsBody (fun ty value => Fits depth ty value) body values
    | .enum _ (some _) _ => False
    | .enum variants none renameAll =>
      source.FitsVariant (fun ty value => Fits depth ty value) variants renameAll value

end Source

theorem serdeName_wire {unicode : Unicode} {variant : Variant}
    (h : variant.rename.isSome = true ∨ unraw variant.ident = variant.ident)
    (renameAll : Option RenameRule) :
    variant.serdeName unicode renameAll = variant.wire unicode renameAll := by
  unfold Variant.serdeName Variant.wire
  obtain hrename | hident := h
  · obtain ⟨rename, hrename⟩ := Option.isSome_iff_exists.mp hrename
    rw [hrename]
    rfl
  · rw [hident]

theorem satisfies_insertSome {schema : Schema} {json : Json} {keyword : Option Keyword}
    (h : Satisfies schema json) (hkeyword : ∀ found, keyword = some found → found.Holds json) :
    Satisfies (insertSome keyword schema) json := by
  cases keyword with
  | none => exact h
  | some keyword => exact satisfies_insert h (hkeyword keyword rfl)

section
variable {source : Source} {checks : Rule → Val → Bool}

variable {schema : Schema} {depth : ℕ} {ty : Ty} {value : Val} {json : Json}

theorem encodes_text (htext : isText ty = true) (h : source.Encodes depth ty value json) :
    ∃ text, value = .string text ∧ json = .string text := by
  induction depth generalizing ty with
  | zero =>
    rw [Source.Encodes] at h
    exact h.elim
  | succ depth ih =>
    cases ty with
    | scalar scalar =>
      rw [Source.Encodes] at h
      cases scalar with
      | str | string => exact h
      | _ => cases htext
    | pointer kind pointee =>
      rw [Source.Encodes] at h
      exact ih (show isText pointee = true from htext) h
    | _ => cases htext

theorem encodes_number (hnumeric : isNumeric ty = true) (h : source.Encodes depth ty value json) :
    (∃ z : ℤ, value = .int z ∧ json = .number z) ∨ ∃ x, value = .float x ∧ json = x.json := by
  cases depth with
  | zero =>
    rw [Source.Encodes] at h
    exact h.elim
  | succ depth =>
    cases ty with
    | scalar scalar =>
      rw [Source.Encodes] at h
      cases scalar with
      | unit | bool | char | str | string => cases hnumeric
      | f32 | f64 => exact Or.inr h
      | _ => exact Or.inl h
    | _ => cases hnumeric

theorem lengthOk_iff (min max : Option ℕ) (text : String) : lengthOk min max text = true ↔
    (∀ n, min = some n → n ≤ text.toList.length) ∧ ∀ n, max = some n → text.toList.length ≤ n := by
  unfold lengthOk
  cases min <;> cases max <;> simp

theorem lengthKeyword_holds {items length : ℕ → Keyword} {n : ℕ} {json : Json}
    (hitems : (items n).Holds json) (hlength : (length n).Holds json) :
    (lengthKeyword schema items length n).Holds json := by
  unfold lengthKeyword
  split_ifs
  · exact hitems
  · exact hlength

theorem length_satisfies {text : String} {min max : Option ℕ}
    (h : Satisfies schema (.string text)) (hpasses : lengthOk min max text = true) :
    Satisfies (applyRule schema (.length min max)) (.string text) := by
  obtain ⟨hmin, hmax⟩ := (lengthOk_iff min max text).mp hpasses
  refine satisfies_insertSome (satisfies_insertSome h fun found hfound => ?_) fun found hfound => ?_
  · obtain ⟨n, hn, rfl⟩ := Option.map_eq_some_iff.mp hfound
    refine lengthKeyword_holds ?_ ?_
    · rw [Keyword.Holds]
      exact nofun
    · rw [Keyword.Holds]
      rintro other ⟨⟩
      exact hmin n hn
  · obtain ⟨n, hn, rfl⟩ := Option.map_eq_some_iff.mp hfound
    refine lengthKeyword_holds ?_ ?_
    · rw [Keyword.Holds]
      exact nofun
    · rw [Keyword.Holds]
      rintro other ⟨⟩
      exact hmax n hn

theorem range_satisfies {q : ℚ} {min max : Option Bound} (h : Satisfies schema (.number q))
    (hmin : ∀ bound, min = some bound → bound.json ≤ q)
    (hmax : ∀ bound, max = some bound → q ≤ bound.json) :
    Satisfies (applyRule schema (.range min max)) (.number q) := by
  refine satisfies_insertSome (satisfies_insertSome h fun found hfound => ?_) fun found hfound => ?_
  · obtain ⟨bound, hbound, rfl⟩ := Option.map_eq_some_iff.mp hfound
    rw [Keyword.Holds]
    intro other hother
    cases hother
    exact hmin bound hbound
  · obtain ⟨bound, hbound, rfl⟩ := Option.map_eq_some_iff.mp hfound
    rw [Keyword.Holds]
    intro other hother
    cases hother
    exact hmax bound hbound

theorem rangeOk_int (min max : Option Bound) (z : ℤ) : rangeOk min max (.int z) = true ↔
    (∀ bound, min = some bound → bound.typed ≤ z) ∧ ∀ bound, max = some bound → z ≤ bound.typed := by
  unfold rangeOk
  cases min <;> cases max <;> simp

theorem rangeOk_finite (min max : Option Bound) (q : ℚ) :
    rangeOk min max (.float (.finite q)) = true ↔ (∀ bound, min = some bound → bound.typed ≤ q) ∧
        ∀ bound, max = some bound → q ≤ bound.typed := by
  unfold rangeOk Floating.below Floating.above
  cases min <;> cases max <;> simp

theorem applyRule_satisfies {rule : Rule} {dive : Val → Bool} {schema : Schema}
    (h : Satisfies schema json) (hsuits : rule.Suits ty)
    (hencodes : source.Encodes depth ty value json) (hfits : source.Fits depth ty value)
    (hpasses : rule.passes checks dive value = true) : Satisfies (applyRule schema rule) json := by
  cases rule with
  | length min max =>
    obtain ⟨text, rfl, rfl⟩ := encodes_text hsuits hencodes
    exact length_satisfies h hpasses
  | range min max =>
    obtain ⟨hnumeric, hlow, hhigh⟩ := hsuits
    have hnumber : ∃ q, json = .number q ∧ (∀ bound, min = some bound → bound.typed ≤ q) ∧
        ∀ bound, max = some bound → q ≤ bound.typed := by
      obtain ⟨z, rfl, rfl⟩ | ⟨x, rfl, rfl⟩ := encodes_number hnumeric hencodes
      · exact ⟨z, rfl, (rangeOk_int min max z).mp hpasses⟩
      · cases depth with
        | zero =>
          rw [Source.Encodes] at hencodes
          exact hencodes.elim
        | succ depth =>
          cases ty with
          | scalar scalar =>
            rw [Source.Fits] at hfits
            obtain ⟨q, rfl⟩ := hfits x rfl
            exact ⟨q, rfl, (rangeOk_finite min max q).mp hpasses⟩
          | _ => cases hnumeric
    obtain ⟨q, rfl, hmin, hmax⟩ := hnumber
    refine range_satisfies h (fun bound hbound => ?_) fun bound hbound => ?_
    · rw [← hlow bound hbound]
      exact hmin bound hbound
    · rw [← hhigh bound hbound]
      exact hmax bound hbound
  | email | url | pattern =>
    refine satisfies_insert h ?_
    rw [Keyword.Holds]
    trivial
  | _ => exact h

theorem rules_satisfy {rules : List Rule} {dive : Val → Bool} {schema : Schema}
    (h : Satisfies schema json) (hsuits : ∀ rule ∈ rules, rule.Suits ty)
    (hencodes : source.Encodes depth ty value json) (hfits : source.Fits depth ty value)
    (hpasses : ∀ rule ∈ rules, rule.passes checks dive value = true) :
    Satisfies (rules.foldl applyRule schema) json := by
  induction rules generalizing schema with
  | nil => exact h
  | cons rule rules ih =>
    obtain ⟨hsuit, hsuits⟩ := forall_mem_cons.mp hsuits
    obtain ⟨hpass, hpasses⟩ := forall_mem_cons.mp hpasses
    exact ih (applyRule_satisfies h hsuit hencodes hfits hpass) hsuits hpasses

theorem field_satisfies {field : Field} {value : Val} {json : Json} {base : Schema}
    {dive : Ty → Val → Bool} (h : Satisfies base json)
    (hsuits : ∀ rule ∈ field.rules, rule.Suits field.ty)
    (hencodes : source.Encodes depth field.ty value json)
    (hfits : source.Fits depth field.ty value) (hskip : field.skip = false)
    (hpasses : field.passes checks dive value = true) : Satisfies (field.schema base) json := by
  unfold Field.passes at hpasses
  rw [hskip, Bool.false_or, all_eq_true] at hpasses
  refine satisfies_insertSome (rules_satisfy h hsuits hencodes hfits hpasses) fun found hfound => ?_
  obtain ⟨text, -, rfl⟩ := Option.map_eq_some_iff.mp hfound
  rw [Keyword.Holds]
  trivial

end

theorem schemaWith_base (item : String → Option Schema) (field : Field) :
    schemaWith item field.baseType = schemaWith item field.ty := by
  unfold Field.baseType
  cases field.ty <;> rfl

theorem schemasWith_iff (item : String → Option Schema) (types : List Ty) (schemas : List Schema) :
    schemasWith item types = some schemas ↔
      List.Forall₂ (fun ty schema => schemaWith item ty = some schema) types schemas := by
  induction types generalizing schemas with
  | nil =>
    rw [schemasWith, forall₂_nil_left_iff, Option.some.injEq]
    exact eq_comm
  | cons ty types ih =>
    rw [schemasWith, Option.bind_eq_some_iff, forall₂_cons_left_iff]
    constructor
    · rintro ⟨schema, hschema, hmap⟩
      obtain ⟨rest, hrest, rfl⟩ := Option.map_eq_some_iff.mp hmap
      exact ⟨schema, rest, hschema, (ih rest).mp hrest, rfl⟩
    · rintro ⟨schema, rest, hschema, hrest, rfl⟩
      exact ⟨schema, hschema, Option.map_eq_some_iff.mpr ⟨rest, (ih rest).mpr hrest, rfl⟩⟩

theorem bases_iff (item : String → Option Schema) (fields : List Field) (bases : List Schema) :
    schemasWith item (fields.map Field.baseType) = some bases ↔
      List.Forall₂ (fun field base => schemaWith item field.ty = some base) fields bases := by
  rw [schemasWith_iff, forall₂_map_left_iff]
  simp only [schemaWith_base]

section
variable {source : Source} {checks : Rule → Val → Bool}

def SchemasHold (source : Source) (checks : Rule → Val → Bool) (depth : ℕ) : Prop :=
  ∀ (fuel : ℕ) (ty : Ty) (schema : Schema) (value : Val) (json : Json),
    schemaWith (source.itemSchema fuel) ty = some schema → source.Encodes depth ty value json →
      source.validate checks depth ty value = true → source.Fits depth ty value →
        Satisfies schema json

theorem mentions_of_all {types : List Ty} (h : mentionsAll types = []) :
    ∀ ty ∈ types, mentions ty = [] := by
  intro ty hty
  refine eq_nil_iff_forall_not_mem.mpr fun it hit => ?_
  have hmem := mem_mentionsAll.mpr ⟨ty, hty, hit⟩
  rw [h] at hmem
  cases hmem

variable {name : String} {depth fuel : ℕ}

theorem validate_plain {ty : Ty} (h : mentions ty = []) (value : Val) :
    source.validate checks depth ty value = true := by
  induction depth generalizing ty value with
  | zero => rfl
  | succ depth ih =>
    cases ty with
    | scalar scalar | param index => cases value <;> rfl
    | pointer kind pointee => exact ih (show mentions pointee = [] from h) value
    | option inner =>
      cases value with
      | some held => exact ih (show mentions inner = [] from h) held
      | _ => rfl
    | sequence kind item =>
      cases value with
      | items values =>
        exact all_eq_true.mpr fun v _ => ih (show mentions item = [] from h) v
      | _ => rfl
    | mapping kind key item =>
      obtain ⟨-, hitem⟩ := append_eq_nil_iff.mp (show mentions key ++ mentions item = [] from h)
      cases value with
      | entries entries => exact all_eq_true.mpr fun entry _ => ih hitem entry.2
      | _ => rfl
    | tuple types =>
      cases value with
      | items values =>
        refine all_eq_true.mpr fun pair hpair => ih (mentions_of_all h pair.1 ?_) pair.2
        exact (of_mem_zip hpair).1
      | _ => rfl
    | model name args => cases h

theorem field_valid {field : Field} {value : Val}
    (hdived : field.skip = false ∧ (mentions field.ty ≠ [] → .dive ∈ field.rules))
    (hpasses : field.passes checks (source.validate checks depth) value = true) :
    source.validate checks depth field.ty value = true := by
  by_cases hplain : mentions field.ty = []
  · exact validate_plain hplain value
  · unfold Field.passes at hpasses
    rw [hdived.1, Bool.false_or, all_eq_true] at hpasses
    exact hpasses .dive (hdived.2 hplain)

theorem fields_satisfy (hs : SchemasHold source checks depth) {fields : List Field}
    {bases : List Schema} {values : List Val} {entries : List (String × Json)}
    (hbases : List.Forall₂ (fun field base => schemaWith (source.itemSchema fuel) field.ty =
      some base) fields bases)
    (hencodes : EncodesFields source.camel (source.Encodes depth) fields values entries)
    (hdived : ∀ field ∈ fields, field.skip = false ∧ (mentions field.ty ≠ [] → .dive ∈ field.rules))
    (hpasses : ∀ pair ∈ fields.zip values, pair.1.passes checks
      (source.validate checks depth) pair.2 = true)
    (hfits : FitsBody (source.Fits depth) (.named fields) values)
    (hnodup : (fields.map fun field => wireName source.camel field.label).Nodup) :
    (∀ entry ∈ entries, entry.1 ∈ fields.map fun field => wireName source.camel field.label) ∧
      (∀ field ∈ fields, field.isOptional = false →
        wireName source.camel field.label ∈ entries.map Prod.fst) ∧
      ∀ prop ∈ List.zipWith (fun field base =>
          (wireName source.camel field.label, field.schema base)) fields bases,
        ∀ json, (prop.1, json) ∈ entries → Satisfies prop.2 json := by
  induction hbases generalizing values entries with
  | nil =>
    obtain ⟨-, rfl⟩ := hencodes
    exact ⟨nofun, nofun, nofun⟩
  | @cons field base fields bases hbase _ ih =>
    obtain ⟨value, rest, rfl, hcases⟩ := hencodes
    rw [map_cons] at hnodup
    obtain ⟨hnew, hnodup⟩ := nodup_cons.mp hnodup
    obtain ⟨hdive, hdived⟩ := forall_mem_cons.mp hdived
    obtain ⟨hpass, hpasses⟩ := forall_mem_cons.mp hpasses
    obtain ⟨hfit, hfits⟩ := forall_mem_cons.mp hfits
    rw [map_cons, zipWith_cons_cons]
    obtain ⟨hoptional, -, hrest⟩ | ⟨hpresent, json, others, rfl, hjson, hrest⟩ := hcases
    · obtain ⟨hnames, hrequired, hprops⟩ := ih hrest hdived hpasses hfits hnodup
      refine ⟨fun entry hentry => mem_cons_of_mem _ (hnames entry hentry),
        forall_mem_cons.mpr ⟨fun h => ?_, hrequired⟩,
        forall_mem_cons.mpr ⟨fun json hjson => absurd (hnames _ hjson) hnew, hprops⟩⟩
      rw [hoptional] at h
      cases h
    · obtain ⟨hnames, hrequired, hprops⟩ := ih hrest hdived hpasses hfits hnodup
      obtain ⟨hlabel, hsuits, hfit⟩ := hfit
      have hfit := hfit.resolve_left hpresent
      have hname : serdeField source.camel field.label = wireName source.camel field.label := by
        rw [serdeField, hlabel]
      have hvalue : Satisfies (field.schema base) json := by
        have hbasejson := hs fuel field.ty base value json hbase hjson (field_valid hdive hpass) hfit
        exact field_satisfies hbasejson hsuits hjson hfit hdive.1 hpass
      rw [hname]
      refine ⟨forall_mem_cons.mpr ⟨mem_cons_self, fun entry hentry =>
          mem_cons_of_mem _ (hnames entry hentry)⟩,
        forall_mem_cons.mpr ⟨fun _ => mem_cons_self, fun other hother h =>
          mem_cons_of_mem _ (hrequired other hother h)⟩,
        forall_mem_cons.mpr ⟨fun other hother => ?_, fun prop hprop other hother => ?_⟩⟩
      · obtain hhead | hlater := mem_cons.mp hother
        · cases hhead
          exact hvalue
        · exact absurd (hnames _ hlater) hnew
      · obtain hhead | hlater := mem_cons.mp hother
        · refine absurd ?_ hnew
          obtain ⟨named, hnamed, hprop⟩ : ∃ named ∈ fields,
              wireName source.camel named.label = prop.1 := by
            obtain ⟨index, hindex, rfl⟩ := mem_iff_getElem.mp hprop
            rw [getElem_zipWith]
            exact ⟨_, getElem_mem _, rfl⟩
          have hsame : prop.1 = wireName source.camel field.label := congrArg Prod.fst hhead
          rw [← hsame, ← hprop]
          exact mem_map_of_mem hnamed
        · exact hprops prop hprop other hlater

theorem object_satisfies (hs : SchemasHold source checks depth) {fields : List Field}
    {bases : List Schema} {values : List Val} {entries : List (String × Json)}
    (hbases : schemasWith (source.itemSchema fuel) (fields.map Field.baseType) = some bases)
    (hencodes : EncodesFields source.camel (source.Encodes depth) fields values entries)
    (hdived : ∀ field ∈ fields, field.skip = false ∧ (mentions field.ty ≠ [] → .dive ∈ field.rules))
    (hpasses : ∀ pair ∈ fields.zip values, pair.1.passes checks
      (source.validate checks depth) pair.2 = true)
    (hfits : FitsBody (source.Fits depth) (.named fields) values)
    (hnodup : (fields.map fun field => wireName source.camel field.label).Nodup) :
    Satisfies (objectSchema source.camel fields bases) (.object entries) := by
  obtain ⟨-, hrequired, hprops⟩ :=
    fields_satisfy hs ((bases_iff _ _ _).mp hbases) hencodes hdived hpasses hfits hnodup
  refine (satisfies_iff _ _).mpr (forall_mem_cons.mpr ⟨?_, forall_mem_cons.mpr ⟨?_, ?_⟩⟩)
  · rw [Keyword.Holds]
    trivial
  · rw [Keyword.Holds]
    rintro found ⟨⟩
    refine (propertiesHold_iff _ _).mpr fun prop hprop json hjson => hprops prop hprop json ?_
    obtain ⟨front, back, rfl, -⟩ := lookup_eq_some_iff.mp hjson
    exact mem_append_right _ mem_cons_self
  · intro keyword hkeyword
    split_ifs at hkeyword
    · cases hkeyword
    · rw [mem_singleton.mp hkeyword, Keyword.Holds]
      rintro found ⟨⟩ name hname
      obtain ⟨field, hfield, rfl⟩ := mem_map.mp hname
      obtain ⟨hfield, hoptional⟩ := mem_filter.mp hfield
      exact hrequired field hfield (by simpa using hoptional)

theorem items_satisfy (hs : SchemasHold source checks depth) {types : List Ty}
    {schemas : List Schema} {values : List Val} {json : Json}
    (hschemas : schemasWith (source.itemSchema fuel) types = some schemas)
    (hencodes : EncodesItems (source.Encodes depth) types values json)
    (hvalid : ∀ pair ∈ types.zip values, source.validate checks depth pair.1 pair.2 = true)
    (hfits : ∀ pair ∈ types.zip values, source.Fits depth pair.1 pair.2) :
    Satisfies (tupleSchema schemas) json := by
  obtain ⟨pairs, rfl, rfl, hpairs⟩ := hencodes
  rw [schemasWith_iff] at hschemas
  have hitems : List.Forall₂ Satisfies schemas (pairs.map Prod.snd) := by
    induction hschemas generalizing pairs with
    | nil =>
      cases hpairs
      exact .nil
    | cons hschema _ ih =>
      cases hpairs with
      | cons hpair hpairs =>
        obtain ⟨hone, hvalid⟩ := forall_mem_cons.mp hvalid
        obtain ⟨hfit, hfits⟩ := forall_mem_cons.mp hfits
        exact .cons (hs fuel _ _ _ _ hschema hpair hone hfit) (ih _ hvalid hfits hpairs)
  have hlength : schemas.length = (pairs.map Prod.snd).length := hitems.length_eq
  refine (satisfies_iff _ _).mpr (forall_mem_cons.mpr ⟨?_, forall_mem_cons.mpr
    ⟨?_, forall_mem_cons.mpr ⟨?_, forall_mem_singleton.mpr ?_⟩⟩⟩)
  · rw [Keyword.Holds]
    trivial
  · rw [Keyword.Holds]
    rintro found ⟨⟩
    exact prefixHolds_of hitems
  · rw [Keyword.Holds]
    rintro found ⟨⟩
    exact hlength.le
  · rw [Keyword.Holds]
    rintro found ⟨⟩
    exact hlength.ge

theorem mem_fieldTypes_dived (h : source.Derived) {name : String} {body : Body}
    (hbody : body ∈ (source.plainIr name).bodies) {depth : ℕ} {values : List Val}
    (hpasses : body.passes checks (source.validate checks depth) values = true) :
    ∀ pair ∈ (body.allFields.map Field.ty).zip values,
      source.validate checks depth pair.1 pair.2 = true := by
  intro pair hpair
  rw [zip_map_left] at hpair
  obtain ⟨⟨field, value⟩, hin, rfl⟩ := mem_map.mp hpair
  exact field_valid (h.dived name body hbody field (of_mem_zip hin).1)
    (all_eq_true.mp hpasses _ hin)

theorem fits_zip {fits : Ty → Val → Prop} {fields : List Field} {values : List Val}
    (h : FitsBody fits (.tuple fields) values) :
    ∀ pair ∈ (fields.map Field.ty).zip values, fits pair.1 pair.2 := by
  intro pair hpair
  rw [zip_map_left] at hpair
  obtain ⟨inner, hin, rfl⟩ := mem_map.mp hpair
  exact h inner hin

theorem schemasWith_base (item : String → Option Schema) (fields : List Field) :
    schemasWith item (fields.map Field.baseType) = schemasWith item (fields.map Field.ty) := by
  induction fields with
  | nil => rfl
  | cons field fields ih =>
    rw [map_cons, map_cons, schemasWith, schemasWith, schemaWith_base, ih]

theorem body_satisfies (hs : SchemasHold source checks depth) (hderived : source.Derived)
    {name : String} {body : Body} (hbody : body ∈ (source.plainIr name).bodies) {schema : Schema}
    {values : List Val} {json : Json}
    (hschema : structSchema (source.itemSchema fuel) source.camel body = some schema)
    (hnewtype : isNewtype body = false)
    (hencodes : EncodesBody source.camel (source.Encodes depth) body values json)
    (hpasses : body.passes checks (source.validate checks depth) values = true)
    (hfits : FitsBody (source.Fits depth) body values) : Satisfies schema json := by
  cases body with
  | unit =>
    cases hschema
    obtain ⟨-, rfl⟩ := hencodes
    exact (satisfies_iff _ _).mpr (forall_mem_singleton.mpr (by rw [Keyword.Holds]; trivial))
  | named fields =>
    obtain ⟨bases, hbases, rfl⟩ := Option.map_eq_some_iff.mp hschema
    obtain ⟨entries, rfl, hentries⟩ := hencodes
    exact object_satisfies hs hbases hentries (hderived.dived name _ hbody)
      (all_eq_true.mp hpasses) hfits (hderived.distinct name _ hbody)
  | tuple fields =>
    obtain ⟨schemas, hschemas, rfl⟩ := Option.map_eq_some_iff.mp hschema
    rw [schemasWith_base] at hschemas
    have hitems : EncodesItems (source.Encodes depth) (fields.map Field.ty) values json := by
      obtain _ | ⟨field, _ | ⟨second, rest⟩⟩ := fields
      · exact hencodes
      · cases hnewtype
      · exact hencodes
    exact items_satisfy hs hschemas hitems (mem_fieldTypes_dived hderived hbody hpasses)
      (fits_zip hfits)

theorem tagged_satisfies {inner : Schema} {payload : Json} (h : Satisfies inner payload) :
    Satisfies (taggedSchema name inner) (.object [(name, payload)]) := by
  refine (satisfies_iff _ _).mpr (forall_mem_cons.mpr ⟨?_, forall_mem_cons.mpr
    ⟨?_, forall_mem_singleton.mpr ?_⟩⟩)
  · rw [Keyword.Holds]
    trivial
  · rw [Keyword.Holds]
    rintro found ⟨⟩
    refine (propertiesHold_iff _ _).mpr (forall_mem_singleton.mpr fun json hjson => ?_)
    rw [lookup_cons_self] at hjson
    cases hjson
    exact h
  · rw [Keyword.Holds]
    rintro found ⟨⟩ other hother
    rw [mem_singleton.mp hother]
    exact mem_cons_self

theorem variant_satisfies (hs : SchemasHold source checks depth) (hderived : source.Derived)
    {item name : String} {body : Body} (hbody : body ∈ (source.plainIr item).bodies)
    {schema : Schema} {values : List Val} {json : Json}
    (hschema : variantSchema (source.itemSchema fuel) source.camel name body = some schema)
    (hencodes : EncodesExternal source.camel (source.Encodes depth) name body values json)
    (hpasses : body.passes checks (source.validate checks depth) values = true)
    (hfits : FitsBody (source.Fits depth) body values) : Satisfies schema json := by
  have hheld : isNewtype body = false →
      (structSchema (source.itemSchema fuel) source.camel body).map (taggedSchema name) =
        some schema →
      (∃ payload, EncodesBody source.camel (source.Encodes depth) body values payload ∧
        json = .object [(name, payload)]) → Satisfies schema json := by
    rintro hnewtype hmap ⟨payload, hpayload, rfl⟩
    obtain ⟨inner, hinner, rfl⟩ := Option.map_eq_some_iff.mp hmap
    exact tagged_satisfies
      (body_satisfies hs hderived hbody hinner hnewtype hpayload hpasses hfits)
  cases body with
  | unit =>
    cases hschema
    obtain ⟨-, rfl⟩ := hencodes
    refine (satisfies_iff _ _).mpr (forall_mem_cons.mpr ⟨?_, forall_mem_singleton.mpr ?_⟩)
    · rw [Keyword.Holds]
      trivial
    · rw [Keyword.Holds]
  | named fields => exact hheld rfl hschema hencodes
  | tuple fields =>
    obtain _ | ⟨field, _ | ⟨second, rest⟩⟩ := fields
    · exact hheld rfl hschema hencodes
    · obtain ⟨inner, hinner, rfl⟩ := Option.map_eq_some_iff.mp hschema
      obtain ⟨payload, ⟨value, rfl, hvalue⟩, rfl⟩ := hencodes
      rw [schemaWith_base] at hinner
      refine tagged_satisfies (hs fuel field.ty inner value payload hinner hvalue ?_ ?_)
      · exact mem_fieldTypes_dived hderived hbody hpasses (field.ty, value) mem_cons_self
      · exact hfits (field, value) mem_cons_self
    · exact hheld rfl hschema hencodes

theorem variantSchema_cases {item : String → Option Schema} {camel : Bool} {name : String}
    {body : Body} {schema : Schema} (h : variantSchema item camel name body = some schema) :
    schema = [.type "string", .const name] ∨ ∃ inner, schema = taggedSchema name inner := by
  cases body with
  | unit =>
    cases h
    exact Or.inl rfl
  | named fields =>
    obtain ⟨inner, -, rfl⟩ := Option.map_eq_some_iff.mp h
    exact Or.inr ⟨inner, rfl⟩
  | tuple fields =>
    have htagged : ∃ run : Option Schema, run.map (taggedSchema name) = some schema := by
      obtain _ | ⟨field, _ | ⟨second, rest⟩⟩ := fields
      · exact ⟨structSchema item camel (.tuple []), h⟩
      · exact ⟨schemaWith item field.baseType, h⟩
      · exact ⟨structSchema item camel (.tuple (field :: second :: rest)), h⟩
    obtain ⟨run, hrun⟩ := htagged
    obtain ⟨inner, -, rfl⟩ := Option.map_eq_some_iff.mp hrun
    exact Or.inr ⟨inner, rfl⟩

theorem external_cases {camel : Bool} {encodes : Ty → Val → Json → Prop} {name : String}
    {body : Body} {values : List Val} {json : Json}
    (h : EncodesExternal camel encodes name body values json) :
    json = .string name ∨ ∃ payload, json = .object [(name, payload)] := by
  cases body with
  | unit => exact Or.inl h.2
  | named fields | tuple fields =>
    obtain ⟨payload, -, rfl⟩ := h
    exact Or.inr ⟨payload, rfl⟩

theorem variant_refuses {other : String} (hne : other ≠ name) {schema : Schema} {json : Json}
    (hschema : schema = [.type "string", .const other] ∨ ∃ inner, schema = taggedSchema other inner)
    (hjson : json = .string name ∨ ∃ payload, json = .object [(name, payload)]) :
    ¬Satisfies schema json := by
  intro h
  rw [satisfies_iff] at h
  obtain rfl | ⟨inner, rfl⟩ := hschema
  · have hconst := h (.const other) (mem_cons_of_mem _ mem_cons_self)
    rw [Keyword.Holds] at hconst
    obtain rfl | ⟨payload, rfl⟩ := hjson
    · cases hconst
      exact hne rfl
    · cases hconst
  · obtain rfl | ⟨payload, rfl⟩ := hjson
    · have htype := h (.type "object") mem_cons_self
      rw [Keyword.Holds] at htype
      exact htype
    · have hrequired := h (.required [other])
        (mem_cons_of_mem _ (mem_cons_of_mem _ mem_cons_self))
      rw [Keyword.Holds] at hrequired
      have hmem := hrequired _ rfl other mem_cons_self
      exact hne (mem_singleton.mp hmem)

theorem variantSchemas_iff (item : String → Option Schema) (camel : Bool) (names : Variant → String)
    (variants : List Variant) (schemas : List Schema) :
    variantSchemas item camel names variants = some schemas → List.Forall₂ (fun variant schema =>
      variantSchema item camel (names variant) variant.body = some schema) variants schemas := by
  induction variants generalizing schemas with
  | nil =>
    intro h
    cases h
    exact .nil
  | cons variant variants ih =>
    intro h
    obtain ⟨schema, hschema, h⟩ := Option.bind_eq_some_iff.mp h
    obtain ⟨rest, hrest, rfl⟩ := Option.map_eq_some_iff.mp h
    exact .cons hschema (ih rest hrest)

theorem enum_satisfies (hs : SchemasHold source checks depth) (hderived : source.Derived)
    {item : String} {variants : List Variant} {renameAll : Option RenameRule}
    (hir : source.plainIr item = .enum variants none renameAll) {schema : Schema} {index : ℕ}
    {variant : Variant} {values : List Val} {json : Json}
    (hschema : enumSchema (source.itemSchema fuel) source.camel
      (Variant.wire source.unicode renameAll) variants = some schema)
    (hvariant : variants[index]? = some variant)
    (hencodes : EncodesExternal source.camel (source.Encodes depth)
      (variant.serdeName source.unicode renameAll) variant.body values json)
    (hpasses : variant.body.passes checks (source.validate checks depth) values = true)
    (hfits : source.FitsVariant (source.Fits depth) variants renameAll (.variant index values)) :
    Satisfies schema json := by
  have hmem := mem_of_getElem? hvariant
  obtain ⟨hdistinct, hfits⟩ := hfits
  obtain ⟨hplain, hfits⟩ := hfits index values variant rfl hvariant
  have hname : variant.serdeName source.unicode renameAll = variant.wire source.unicode renameAll :=
    serdeName_wire hplain renameAll
  rw [hname] at hencodes
  have hbody : variant.body ∈ (source.plainIr item).bodies := by
    rw [hir]
    exact mem_map_of_mem hmem
  unfold enumSchema at hschema
  rw [if_neg (ne_nil_of_mem hmem)] at hschema
  split_ifs at hschema with hunit
  · cases hschema
    have hbodyUnit := all_eq_true.mp hunit variant hmem
    have hjson : json = .string (variant.wire source.unicode renameAll) := by
      cases hshape : variant.body with
      | unit =>
        rw [hshape] at hencodes
        exact hencodes.2
      | _ =>
        rw [hshape] at hbodyUnit
        cases hbodyUnit
    rw [hjson]
    refine (satisfies_iff _ _).mpr (forall_mem_cons.mpr ⟨?_, forall_mem_singleton.mpr ?_⟩)
    · rw [Keyword.Holds]
      trivial
    · rw [Keyword.Holds]
      exact ⟨_, mem_map_of_mem hmem, rfl⟩
  · obtain ⟨schemas, hschemas, rfl⟩ := Option.map_eq_some_iff.mp hschema
    refine (satisfies_iff _ _).mpr (forall_mem_singleton.mpr ?_)
    rw [Keyword.Holds]
    refine exactlyOne_of
      (variantSchemas_iff _ _ _ _ _ hschemas) (hdistinct.resolve_left hunit) hmem
      (fun own hown => variant_satisfies hs hderived hbody hown hencodes hpasses hfits)
      fun other own hne hown => ?_
    exact variant_refuses hne (variantSchema_cases hown) (external_cases hencodes)

theorem nullish_satisfies {fuel : ℕ} : ∀ {ty : Ty} {schema : Schema}, source.nullish ty = true →
    schemaWith (source.itemSchema fuel) ty = some schema → Satisfies schema .null
  | .scalar scalar, schema, hnull, hschema => by
    cases scalar with
    | unit =>
      cases hschema
      exact (satisfies_iff _ _).mpr (forall_mem_singleton.mpr (by rw [Keyword.Holds]; trivial))
    | _ => cases hnull
  | .pointer _ pointee, schema, hnull, hschema =>
    nullish_satisfies (show source.nullish pointee = true from hnull) hschema
  | .option inner, schema, hnull, hschema =>
    nullish_satisfies (show source.nullish inner = true from hnull) hschema
  | .model name args, schema, hnull, hschema => by
    have hir : source.plainIr name = .struct .unit := by
      unfold Source.nullish at hnull
      split at hnull
      · assumption
      · cases hnull
    cases fuel with
    | zero => cases hschema
    | succ fuel =>
      change irSchema _ _ _ (source.plainIr name) = some schema at hschema
      rw [hir] at hschema
      cases hschema
      exact (satisfies_iff _ _).mpr (forall_mem_singleton.mpr (by rw [Keyword.Holds]; trivial))
  | .param _, _, hnull, _ | .sequence _ _, _, hnull, _ | .mapping _ _ _, _, hnull, _
  | .tuple _, _, hnull, _ => by cases hnull

theorem scalar_satisfies {scalar : Scalar} {value : Val} {json : Json}
    (hencodes : scalar.Encodes value json) (hfinite : ∀ x, value = .float x → ∃ q, x = .finite q) :
    Satisfies [.type scalar.schemaType] json := by
  refine (satisfies_iff _ _).mpr (forall_mem_singleton.mpr ?_)
  rw [Keyword.Holds]
  cases scalar with
  | unit =>
    obtain ⟨-, rfl⟩ := hencodes
    trivial
  | bool | char | str | string =>
    obtain ⟨_, -, rfl⟩ := hencodes
    trivial
  | f32 | f64 =>
    obtain ⟨x, rfl, rfl⟩ := hencodes
    obtain ⟨q, rfl⟩ := hfinite x rfl
    trivial
  | _ =>
    obtain ⟨z, -, rfl⟩ := hencodes
    exact Rat.den_intCast z

theorem schemas_hold (hderived : source.Derived) (depth : ℕ) : SchemasHold source checks depth := by
  induction depth with
  | zero =>
    intro fuel ty schema value json _ hencodes
    rw [Source.Encodes] at hencodes
    exact hencodes.elim
  | succ depth ih =>
    intro fuel ty schema value json hschema hencodes hvalid hfits
    cases ty with
    | scalar scalar =>
      rw [Source.Encodes] at hencodes
      rw [Source.Fits] at hfits
      cases hschema
      exact scalar_satisfies hencodes hfits
    | param index =>
      rw [Source.Encodes] at hencodes
      exact hencodes.elim
    | pointer kind pointee =>
      rw [Source.Encodes] at hencodes
      rw [Source.Fits] at hfits
      exact ih fuel pointee schema value json hschema hencodes hvalid hfits
    | option inner =>
      rw [Source.Encodes] at hencodes
      rw [Source.Fits] at hfits
      obtain ⟨hnull, hheld⟩ := hfits
      obtain ⟨rfl, rfl⟩ | ⟨held, rfl, hencodes⟩ := hencodes
      · exact nullish_satisfies (hnull rfl) hschema
      · exact ih fuel inner schema held json hschema hencodes hvalid (hheld held rfl)
    | sequence kind item =>
      rw [Source.Encodes] at hencodes
      rw [Source.Fits] at hfits
      obtain ⟨inner, hinner, rfl⟩ := Option.map_eq_some_iff.mp hschema
      obtain ⟨pairs, rfl, rfl, hpairs⟩ := hencodes
      have hvalid := all_eq_true.mp hvalid
      refine (satisfies_iff _ _).mpr (forall_mem_cons.mpr ⟨?_, forall_mem_singleton.mpr ?_⟩)
      · rw [Keyword.Holds]
        trivial
      · rw [Keyword.Holds]
        rintro found ⟨⟩ entry hentry
        obtain ⟨pair, hpair, rfl⟩ := mem_map.mp hentry
        have hmem : pair.1 ∈ pairs.map Prod.fst := mem_map_of_mem hpair
        exact ih fuel item inner pair.1 pair.2 hinner (hpairs pair hpair) (hvalid _ hmem)
          (hfits _ rfl _ hmem)
    | mapping kind key item =>
      rw [Source.Encodes] at hencodes
      rw [Source.Fits] at hfits
      obtain ⟨inner, hinner, rfl⟩ := Option.map_eq_some_iff.mp hschema
      obtain ⟨triples, rfl, rfl, htriples⟩ := hencodes
      have hvalid := all_eq_true.mp hvalid
      refine (satisfies_iff _ _).mpr (forall_mem_cons.mpr ⟨?_, forall_mem_singleton.mpr ?_⟩)
      · rw [Keyword.Holds]
        trivial
      · rw [Keyword.Holds]
        rintro found ⟨⟩ entry hentry
        obtain ⟨triple, htriple, rfl⟩ := mem_map.mp hentry
        have hmem : (triple.1, triple.2.1) ∈ triples.map fun triple => (triple.1, triple.2.1) :=
          mem_map_of_mem htriple
        exact ih fuel item inner triple.2.1 triple.2.2 hinner (htriples triple htriple)
          (hvalid _ hmem) (hfits _ rfl _ hmem)
    | tuple types =>
      rw [Source.Encodes] at hencodes
      rw [Source.Fits] at hfits
      obtain ⟨schemas, hschemas, rfl⟩ := Option.map_eq_some_iff.mp hschema
      obtain ⟨values, rfl, hitems⟩ := hencodes
      exact items_satisfy ih hschemas hitems (all_eq_true.mp hvalid) (hfits values rfl)
    | model name args =>
      rw [Source.Encodes] at hencodes
      rw [Source.Fits] at hfits
      cases fuel with
      | zero => cases hschema
      | succ fuel =>
        change irSchema _ _ _ (source.plainIr name) = some schema at hschema
        cases hir : source.plainIr name with
        | struct body =>
          simp only [hir] at hencodes hfits hschema
          obtain ⟨values, rfl, hbody⟩ := hencodes
          obtain ⟨hnewtype, hfits⟩ := hfits
          simp only [Source.validate, hir] at hvalid
          have hmem : body ∈ (source.plainIr name).bodies := by
            rw [hir]
            exact mem_singleton_self body
          exact body_satisfies ih hderived hmem hschema hnewtype hbody hvalid (hfits values rfl)
        | enum variants tag renameAll =>
          cases tag with
          | some tag =>
            simp only [hir] at hfits
          | none =>
            simp only [hir] at hencodes hfits hschema
            obtain ⟨index, variant, values, hvariant, rfl, hbody⟩ := hencodes
            simp only [Source.validate, hir] at hvalid
            simp only [hvariant] at hvalid
            exact enum_satisfies ih hderived hir hschema hvariant hbody hvalid hfits

end

end Stakit.TsTypes
