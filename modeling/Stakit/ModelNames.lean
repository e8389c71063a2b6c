import Stakit.EntryMaps
import Stakit.ExceptLoops
import Stakit.TsTypes

set_option autoImplicit false

namespace Stakit.ModelNames

open TsTypes ExceptLoops List

/-- An identifier, with or without `r#` in front. -/
structure Ident where
  raw : Bool
  name : String

def Ident.label (ident : Ident) : String := if ident.raw then "r#" ++ ident.name else ident.name

structure NamedField where
  ident : Ident
  ty : Ty
  rules : Except String (List Rule × Bool)
  description : Except String (Option String)

def NamedField.parse (field : NamedField) : Except String Field := do
  let (rules, skip) ← field.rules
  let description ← field.description
  return ⟨field.ident.label, field.ty, rules, skip, description⟩

def checkWireCollision (seen : List (String × String)) (field : Field) :
    Except String (List (String × String)) :=
  let wire := wireName true field.label
  match seen.lookup wire with
  | some previous =>
    .error ("fields \x60" ++ previous ++ "\x60 and \x60" ++ field.label ++
      "\x60 map to the same camelCase wire name \x60" ++ wire ++
      "\x60; rename one (the \x60camel\x60 feature is enabled)")
  | none => .ok ((wire, field.label) :: seen)

def checkWireCollisions (fields : List Field) : Except String Unit := do
  let _ ← fields.foldlM checkWireCollision []
  return ()

/-- `parse_fields` of a body with named fields. -/
def parseNamed (camel : Bool) (named : List NamedField) : Except String Body := do
  let fields ← named.mapM NamedField.parse
  if camel then checkWireCollisions fields
  return .named fields

/-- `rename_variant`, for a rule as it is written. -/
def renameVariantAs (unicode : Unicode) (ident rule : String) : Option String :=
  (RenameRule.of rule).map fun rule => renameVariant unicode rule ident

def capitalize : List Char → List Char
  | [] => []
  | first :: rest => first.toUpper :: rest

def pascalCase (field : List Char) : List Char := (field.splitOn '_').flatMap capitalize

/-- Serde cuts the first byte off; where that is no character its derive panics. -/
def camelCase : List Char → Option (List Char)
  | [] => none
  | first :: rest => if first.toNat < 128 then some (first.toLower :: rest) else none

def serdeField (camel : Bool) (ident : Ident) : Option String :=
  if camel then (camelCase (pascalCase ident.name.toList)).map String.ofList else some ident.name

def serdeRules : List (String × RenameRule) :=
  [("lowercase", .lower), ("UPPERCASE", .upper), ("PascalCase", .pascal), ("camelCase", .camel),
    ("snake_case", .snake), ("SCREAMING_SNAKE_CASE", .screamingSnake), ("kebab-case", .kebab),
    ("SCREAMING-KEBAB-CASE", .screamingKebab)]

def spaced (unicode : Unicode) (c : Char) : List Char :=
  if unicode.isUppercase c then ['_', c.toLower] else [c.toLower]

def snakeCase (unicode : Unicode) : List Char → List Char
  | [] => []
  | first :: rest => first.toLower :: rest.flatMap (spaced unicode)

def applyToVariant (unicode : Unicode) (rule : RenameRule) (variant : List Char) :
    Option (List Char) :=
  match rule with
  | .lower => some (variant.map Char.toLower)
  | .upper => some (variant.map Char.toUpper)
  | .pascal => some variant
  | .camel => camelCase variant
  | .snake => some (snakeCase unicode variant)
  | .screamingSnake => some ((snakeCase unicode variant).map Char.toUpper)
  | .kebab => some ((snakeCase unicode variant).map fun c => if c = '_' then '-' else c)
  | .screamingKebab =>
    some (((snakeCase unicode variant).map Char.toUpper).map fun c => if c = '_' then '-' else c)

def serdeVariant (unicode : Unicode) (rule : RenameRule) (ident : Ident) : Option String :=
  (applyToVariant unicode rule ident.name.toList).map String.ofList

/-- The derive's names are the ones serde writes. -/
structure NamesAgree (unicode : Unicode) (camel : Bool) (fields : List NamedField)
    (variants : List Ident) : Prop where
  named : ∀ field ∈ fields, ∀ wire, serdeField camel field.ident = some wire →
    wireName camel field.ident.label = wire
  renamed : ∀ variant ∈ variants, ∀ rule, renameVariantAs unicode variant.label rule = none ∨
    ∃ known, serdeRules.lookup rule = some known ∧
      ∀ wire, serdeVariant unicode known variant = some wire →
        renameVariantAs unicode variant.label rule = some wire
  distinct : camel = true → (∃ body, parseNamed camel fields = .ok body) →
    (fields.filterMap fun field => serdeField camel field.ident).Nodup

/-- With the feature, a field needs an ASCII character after its underscores. -/
def Ident.Spellable (camel : Bool) (ident : Ident) : Prop :=
  camel = true → ∃ first, ident.name.toList.find? (· != '_') = some first ∧ first.toNat < 128

theorem camelWords_eq (capital : Bool) (text : List Char) : camelWords capital text =
    (if capital then capitalize else id) ((text.splitOn '_').headI) ++
      (text.splitOn '_').tail.flatMap capitalize := by
  induction text generalizing capital with
  | nil => cases capital <;> rfl
  | cons c rest ih =>
    rw [camelWords, splitOn_cons_eq_if_modifyHead]
    obtain ⟨word, words, hsplit⟩ := exists_cons_of_ne_nil (splitOn_ne_nil '_' rest)
    rw [hsplit] at ih ⊢
    by_cases hc : c = '_'
    · rw [if_pos hc, if_pos (beq_iff_eq.mpr hc), ih true]
      cases capital <;> rfl
    · have hne : (c == '_') = false := beq_eq_false_iff_ne.mpr hc
      rw [if_neg hc, hne, ih false]
      cases capital <;> rfl

variable (text : List Char) (unicode : Unicode) (camel : Bool) (ident : Ident) (wire : String)

theorem camelWords_true : camelWords true text = pascalCase text := by
  rw [camelWords_eq, pascalCase]
  obtain ⟨word, words, hsplit⟩ := exists_cons_of_ne_nil (splitOn_ne_nil '_' text)
  rw [hsplit]
  rfl

theorem length_camelWords : (camelWords false text).length = (camelWords true text).length := by
  cases text with
  | nil => rfl
  | cons c rest =>
    rw [camelWords, camelWords]
    by_cases hc : c = '_'
    · rw [if_pos hc, if_pos hc]
    · rw [if_neg hc, if_neg hc, length_cons, length_cons]

theorem camelCase_some {text name : List Char} (h : camelCase text = some name) :
    name = lowerFirst text := by
  cases text with
  | nil => cases h
  | cons first rest =>
    rw [camelCase] at h
    split at h
    · exact (Option.some.inj h).symm
    · cases h

theorem length_lowerFirst : (lowerFirst text).length = text.length := by
  cases text <;> rfl

theorem pascalCase_head : (pascalCase text).head? = (text.find? (· != '_')).map Char.toUpper := by
  rw [← camelWords_true]
  induction text with
  | nil => rfl
  | cons c rest ih =>
    rw [camelWords, List.find?_cons]
    by_cases hc : c = '_'
    · rw [if_pos hc, ih, hc]
      rfl
    · rw [if_neg hc, bne_iff_ne.mpr hc]
      rfl

theorem toUpper_ascii (c : Char) : c.toUpper.toNat < 128 ↔ c.toNat < 128 := by
  by_cases hlower : 'a'.val ≤ c.val ∧ c.val ≤ 'z'.val
  · have hupper : c.toUpper.val = c.val + ('A'.val - 'a'.val) := by
      delta Char.toUpper
      rw [dif_pos hlower]
    have hlow : 97 ≤ c.val.toNat := UInt32.le_iff_toNat_le.mp hlower.1
    have hhigh : c.val.toNat ≤ 122 := UInt32.le_iff_toNat_le.mp hlower.2
    have hcode : (c.val + ('A'.val - 'a'.val)).toNat = c.val.toNat - 32 := by
      have hshift : ('A'.val - 'a'.val).toNat = 2 ^ 32 - 32 := rfl
      rw [UInt32.toNat_add, hshift]
      omega
    change c.toUpper.val.toNat < 128 ↔ c.val.toNat < 128
    rw [hupper]
    omega
  · rw [show c.toUpper = c from dif_neg hlower]

theorem camelCase_ascii : camelCase (pascalCase text) ≠ none ↔
      ∃ first, text.find? (· != '_') = some first ∧ first.toNat < 128 := by
  have hhead := pascalCase_head text
  cases hpascal : pascalCase text with
  | nil =>
    rw [hpascal, List.head?_nil, eq_comm, Option.map_eq_none_iff] at hhead
    rw [hhead]
    exact iff_of_false (fun h => h rfl) fun ⟨_, h, _⟩ => nomatch h
  | cons upper rest =>
    rw [hpascal, List.head?_cons, eq_comm, Option.map_eq_some_iff] at hhead
    obtain ⟨first, hfind, hupper⟩ := hhead
    rw [hfind, camelCase, ← hupper, ite_ne_right_iff, toUpper_ascii]
    refine ⟨fun h => ⟨first, rfl, h.1⟩, fun ⟨other, hother, hlow⟩ => ⟨?_, Option.some_ne_none _⟩⟩
    cases hother
    exact hlow

theorem serdeField_ne_none : serdeField camel ident ≠ none ↔ ident.Spellable camel := by
  cases camel with
  | false => exact iff_of_true (Option.some_ne_none _) nofun
  | true =>
    refine Iff.trans (not_congr Option.map_eq_none_iff) ?_
    exact (camelCase_ascii _).trans (true_imp_iff.symm.trans (by rw [Ident.Spellable, eq_self_iff_true]))

theorem wireName_eq (hraw : ident.raw = false) (h : serdeField camel ident = some wire) :
    wireName camel ident.label = wire := by
  rw [Ident.label, hraw, if_neg Bool.false_ne_true]
  cases camel with
  | false => exact Option.some.inj h
  | true =>
    obtain ⟨name, hname, hwire⟩ := Option.map_eq_some_iff.mp h
    rw [wireName, if_pos rfl, camelWords_true, ← camelCase_some hname, hwire]

theorem length_wireName_raw (hraw : ident.raw = true) (h : serdeField camel ident = some wire) :
    (wireName camel ident.label).length = wire.length + 2 := by
  have hlabel : ident.label.toList = 'r' :: '#' :: ident.name.toList := by
    rw [Ident.label, hraw, if_pos rfl, String.toList_append]
    rfl
  rw [wireName, ← String.length_toList, ← String.length_toList]
  cases camel with
  | false => rw [← Option.some.inj h, if_neg Bool.false_ne_true, hlabel]; rfl
  | true =>
    obtain ⟨name, hname, hwire⟩ := Option.map_eq_some_iff.mp h
    rw [if_pos rfl, ← hwire, String.toList_ofList, String.toList_ofList, camelCase_some hname,
      length_lowerFirst, length_lowerFirst, hlabel, ← camelWords_true,
      ← length_camelWords ident.name.toList]
    rfl

theorem lookup_serdeRules (rule : String) : serdeRules.lookup rule = RenameRule.of rule := by
  unfold RenameRule.of
  split
  case h_9 hlower hupper hpascal hcamel hsnake hscreaming hkebab hdashed =>
    refine lookup_eq_none_iff.mpr fun entry hentry => ?_
    simp only [serdeRules, mem_cons, not_mem_nil, or_false] at hentry
    rw [bne_iff_ne]
    rcases hentry with rfl | rfl | rfl | rfl | rfl | rfl | rfl | rfl <;> assumption
  all_goals rfl

theorem snakeChars_eq (ident : List Char) : snakeChars unicode ident = snakeCase unicode ident := by
  cases ident with
  | nil => rfl
  | cons first rest =>
    rw [snakeChars, zipIdx_cons, flatMap_cons]
    refine congrArg (first.toLower :: ·) ?_
    change (rest.zipIdx (0 + 1)).flatMap _ = rest.flatMap (spaced unicode)
    have hpos : 0 < 0 + 1 := Nat.succ_pos 0
    generalize 0 + 1 = from_ at hpos ⊢
    induction rest generalizing from_ with
    | nil => rfl
    | cons c rest ih =>
      rw [zipIdx_cons, flatMap_cons, flatMap_cons, ih (from_ + 1) (by omega), spaced]
      simp only [hpos, true_and]

theorem renameVariant_eq {rule : RenameRule} {ident wire : String}
    (h : (applyToVariant unicode rule ident.toList).map String.ofList = some wire) :
    renameVariant unicode rule ident = wire := by
  unfold renameVariant
  simp only [snakeChars_eq]
  cases rule with
  | camel =>
    obtain ⟨name, hname, hwire⟩ := Option.map_eq_some_iff.mp h
    rw [← hwire, camelCase_some hname]
  | _ => exact Option.some.inj h

theorem variant_agrees {variant : Ident} (rule : String) (hraw : variant.raw = false) :
    renameVariantAs unicode variant.label rule = none ∨
      ∃ known, serdeRules.lookup rule = some known ∧
        ∀ wire, serdeVariant unicode known variant = some wire →
          renameVariantAs unicode variant.label rule = some wire := by
  rw [Ident.label, hraw, if_neg Bool.false_ne_true, lookup_serdeRules, renameVariantAs]
  cases RenameRule.of rule with
  | none => exact .inl rfl
  | some known =>
    exact .inr ⟨known, rfl, fun wire h => congrArg some (renameVariant_eq unicode h)⟩

theorem raw_variant_differs {variant : Ident} (hraw : variant.raw = true) :
    ¬ (renameVariantAs unicode variant.label "PascalCase" = none ∨
      ∃ known, serdeRules.lookup "PascalCase" = some known ∧
        ∀ wire, serdeVariant unicode known variant = some wire →
          renameVariantAs unicode variant.label "PascalCase" = some wire) := by
  have hlabel : variant.label = "r#" ++ variant.name := by rw [Ident.label, hraw, if_pos rfl]
  have hrenamed : renameVariantAs unicode variant.label "PascalCase" = some variant.label :=
    congrArg some String.ofList_toList
  rw [lookup_serdeRules, hrenamed]
  rintro (hnone | ⟨known, hknown, h⟩)
  · cases hnone
  · cases hknown
    have hsame := Option.some.inj (h variant.name (congrArg some String.ofList_toList))
    have hlength := congrArg String.length (hlabel.symm.trans hsame)
    rw [String.length_append] at hlength
    have hprefix : "r#".length = 2 := rfl
    omega

structure Collected (before : List Field) (seen : List (String × String)) : Prop where
  keys : seen.map Prod.fst = (before.map fun field => wireName true field.label).reverse
  distinct : (before.map fun field => wireName true field.label).Nodup

theorem checkWireCollision_collected (before : List Field) (seen next : List (String × String))
    (field : Field) (h : Collected before seen) (hstep : checkWireCollision seen field = .ok next) :
    Collected (before ++ [field]) next := by
  simp only [checkWireCollision] at hstep
  cases hlookup : seen.lookup (wireName true field.label) with
  | some previous =>
    rw [hlookup] at hstep
    cases hstep
  | none =>
    rw [hlookup] at hstep
    cases hstep
    have hnew : wireName true field.label ∉
        before.map fun field => wireName true field.label := by
      rw [← mem_reverse, ← h.keys, mem_map]
      rintro ⟨entry, hentry, hkey⟩
      have hdiffers := lookup_eq_none_iff.mp hlookup entry hentry
      exact bne_iff_ne.mp hdiffers hkey.symm
    constructor
    · rw [map_append, reverse_append]
      exact congrArg (wireName true field.label :: ·) h.keys
    · rw [map_append]
      exact nodup_append_comm.mp (nodup_cons.mpr ⟨hnew, h.distinct⟩)

theorem checkWireCollisions_distinct {fields : List Field}
    (h : checkWireCollisions fields = .ok ()) :
    (fields.map fun field => wireName true field.label).Nodup := by
  obtain ⟨seen, hseen, -⟩ := (bind_eq_ok _ _ _).mp h
  have hcollected : Collected fields seen :=
    foldlM_history checkWireCollision Collected
      (fun before seen field next => checkWireCollision_collected before seen next field)
      fields [] [] seen ⟨rfl, nodup_nil⟩ hseen
  exact hcollected.distinct

theorem parse_label {field : NamedField} {parsed : Field} (h : field.parse = .ok parsed) :
    parsed.label = field.ident.label := by
  obtain ⟨⟨rules, skip⟩, -, h⟩ := (bind_eq_ok _ _ _).mp h
  obtain ⟨description, -, h⟩ := (bind_eq_ok _ _ _).mp h
  cases h
  rfl

theorem parsed_names {named : List NamedField} {fields : List Field}
    (h : List.Forall₂ (fun field parsed => field.parse = .ok parsed) named fields) :
    named.map (fun field => wireName true field.ident.label) =
      fields.map fun field => wireName true field.label := by
  induction h with
  | nil => rfl
  | cons hfield _ ih => rw [map_cons, map_cons, ih, parse_label hfield]

theorem parseNamed_distinct {named : List NamedField} {body : Body}
    (h : parseNamed true named = .ok body) :
    (named.map fun field => wireName true field.ident.label).Nodup := by
  obtain ⟨fields, hfields, h⟩ := (bind_eq_ok _ _ _).mp h
  obtain ⟨_, hcheck, -⟩ := (bind_eq_ok _ _ _).mp h
  rw [parsed_names ((mapM_eq_ok _ _ _).mp hfields)]
  exact checkWireCollisions_distinct hcheck

theorem filterMap_sublist {α β : Type} {found : α → Option β} {name : α → β} {items : List α}
    (h : ∀ item ∈ items, ∀ b, found item = some b → name item = b) :
    (items.filterMap found).Sublist (items.map name) := by
  induction items with
  | nil => exact List.Sublist.slnil
  | cons item rest ih =>
    have hrest := ih fun later hlater => h later (mem_cons_of_mem item hlater)
    rw [map_cons]
    cases hfound : found item with
    | none =>
      rw [filterMap_cons_none hfound]
      exact hrest.cons _
    | some b =>
      rw [filterMap_cons_some hfound, h item mem_cons_self b hfound]
      exact hrest.cons_cons b

theorem names_agree_iff (fields : List NamedField) (variants : List Ident) :
    NamesAgree unicode camel fields variants ↔
      (∀ field ∈ fields, field.ident.raw = true → ¬ field.ident.Spellable camel) ∧
        ∀ variant ∈ variants, variant.raw = false := by
  constructor
  · intro h
    constructor
    · intro field hfield hraw hspellable
      obtain ⟨wire, hwire⟩ :=
        Option.ne_none_iff_exists'.mp ((serdeField_ne_none camel field.ident).mpr hspellable)
      have hlength := length_wireName_raw camel field.ident wire hraw hwire
      rw [h.named field hfield wire hwire] at hlength
      omega
    · intro variant hvariant
      by_contra hraw
      exact raw_variant_differs unicode (Bool.not_eq_false _ ▸ hraw)
        (h.renamed variant hvariant "PascalCase")
  · rintro ⟨hfields, hvariants⟩
    have hnamed : ∀ field ∈ fields, ∀ wire, serdeField camel field.ident = some wire →
        wireName camel field.ident.label = wire := by
      intro field hfield wire hwire
      have hspellable := (serdeField_ne_none camel field.ident).mp (hwire ▸ Option.some_ne_none wire)
      refine wireName_eq camel field.ident wire ?_ hwire
      by_contra hraw
      exact hfields field hfield (Bool.not_eq_false _ ▸ hraw) hspellable
    refine ⟨hnamed, fun variant hvariant rule =>
      variant_agrees unicode rule (hvariants variant hvariant), ?_⟩
    rintro rfl ⟨body, hbody⟩
    exact (parseNamed_distinct hbody).sublist (filterMap_sublist hnamed)

/-- `r#type` is exported with its prefix, and `r#userName` goes beside `user_name`, both of them
`userName` for serde. -/
theorem raw_field_differs : ¬ NamesAgree ⟨fun _ => false, fun _ => false⟩ true
    [⟨⟨true, "type"⟩, .scalar .string, .ok ([], false), .ok none⟩,
      ⟨⟨true, "userName"⟩, .scalar .string, .ok ([], false), .ok none⟩,
      ⟨⟨false, "user_name"⟩, .scalar .string, .ok ([], false), .ok none⟩] [] := by
  intro h
  have htype := h.named _ mem_cons_self "type" rfl
  exact absurd htype (by decide)

end Stakit.ModelNames
