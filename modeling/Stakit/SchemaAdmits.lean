import Stakit.ValidSchemas

set_option autoImplicit false

namespace Stakit.TsTypes
open ExceptLoops FuelRuns JsonSchema SerdeJson List

mutual

/-- The items whose schemas a type's schema is made of. -/
def parts : Ty → List String
  | .scalar _ | .param _ => []
  | .pointer _ inner | .option inner | .sequence _ inner | .mapping _ _ inner => parts inner
  | .tuple items => partsAll items
  | .model name _ => [name]

def partsAll : List Ty → List String
  | [] => []
  | item :: items => parts item ++ partsAll items

end

/-- The schema of one item is in that of another. -/
def Source.MadeOf (source : Source) (later name : String) : Prop :=
  ∃ ty ∈ fieldTypes (source.plainIr name), later ∈ parts ty

section
variable {item : String → Option Schema}

mutual

theorem parts_found : ∀ (ty : Ty) {schema : Schema}, schemaWith item ty = some schema →
    ∀ name ∈ parts ty, ∃ found, item name = some found
  | .scalar _, _, _, _, hname | .param _, _, _, _, hname => (by cases hname)
  | .pointer _ inner, _, h, name, hname | .option inner, _, h, name, hname =>
    parts_found inner h name hname
  | .sequence _ inner, _, h, name, hname | .mapping _ _ inner, _, h, name, hname => by
    obtain ⟨schema, hschema, -⟩ := Option.map_eq_some_iff.mp h
    exact parts_found inner hschema name hname
  | .tuple items, _, h, name, hname => by
    obtain ⟨schemas, hschemas, -⟩ := Option.map_eq_some_iff.mp h
    exact partsAll_found hschemas name hname
  | .model item _, schema, h, name, hname => by
    rw [mem_singleton.mp hname]
    exact ⟨schema, h⟩

theorem partsAll_found : ∀ {types : List Ty} {schemas : List Schema},
    schemasWith item types = some schemas → ∀ name ∈ partsAll types, ∃ found, item name = some found
  | [], _, _, _, hname => (by cases hname)
  | ty :: types, _, h, name, hname => by
    obtain ⟨schema, hschema, hmap⟩ := Option.bind_eq_some_iff.mp h
    obtain ⟨rest, hrest, -⟩ := Option.map_eq_some_iff.mp hmap
    obtain hfirst | hlater := mem_append.mp hname
    · exact parts_found ty hschema name hfirst
    · exact partsAll_found hrest name hlater

end

theorem body_found {camel : Bool} {body : Body} {schema : Schema}
    (h : structSchema item camel body = some schema) :
    ∀ name ∈ partsAll body.types, ∃ found, item name = some found := by
  cases body with
  | unit => exact nofun
  | named fields | tuple fields =>
    obtain ⟨schemas, hschemas, -⟩ := Option.map_eq_some_iff.mp h
    rw [schemasWith_base] at hschemas
    exact partsAll_found hschemas

theorem variant_found {camel : Bool} {name : String} {body : Body} {schema : Schema}
    (h : variantSchema item camel name body = some schema) :
    ∀ name ∈ partsAll body.types, ∃ found, item name = some found := by
  have hheld : (structSchema item camel body).map (taggedSchema name) = some schema →
      ∀ name ∈ partsAll body.types, ∃ found, item name = some found := by
    intro hmap
    obtain ⟨inner, hinner, -⟩ := Option.map_eq_some_iff.mp hmap
    exact body_found hinner
  cases body with
  | unit => exact nofun
  | named fields => exact hheld h
  | tuple fields =>
    obtain _ | ⟨field, _ | ⟨second, rest⟩⟩ := fields
    · exact hheld h
    · obtain ⟨inner, hinner, -⟩ := Option.map_eq_some_iff.mp h
      rw [schemaWith_base] at hinner
      intro name hname
      obtain hfirst | hlater := mem_append.mp hname
      · exact parts_found field.ty hinner name hfirst
      · cases hlater
    · exact hheld h

theorem mem_partsAll {types : List Ty} {name : String} :
    name ∈ partsAll types ↔ ∃ ty ∈ types, name ∈ parts ty := by
  induction types with
  | nil => exact ⟨nofun, fun ⟨_, h, _⟩ => absurd h not_mem_nil⟩
  | cons ty types ih => rw [partsAll, mem_append, ih, exists_mem_cons_iff]

theorem ir_found {camel : Bool} {unicode : Unicode} {ir : Ir} {schema : Schema}
    (h : irSchema item camel unicode ir = some schema) :
    ∀ name ∈ partsAll (fieldTypes ir), ∃ found, item name = some found := by
  cases ir with
  | struct body => exact body_found h
  | enum variants tag renameAll =>
    intro name hname
    obtain ⟨ty, hty, hname⟩ := mem_partsAll.mp hname
    obtain ⟨variant, hvariant, hty⟩ := mem_flatMap.mp hty
    change enumSchema item camel (Variant.wire unicode renameAll) variants = some schema at h
    unfold enumSchema at h
    rw [if_neg (ne_nil_of_mem hvariant)] at h
    split_ifs at h with hunit
    · have hbody := all_eq_true.mp hunit variant hvariant
      cases hshape : variant.body with
      | unit =>
        rw [hshape] at hty
        cases hty
      | _ =>
        rw [hshape] at hbody
        cases hbody
    · obtain ⟨schemas, hschemas, -⟩ := Option.map_eq_some_iff.mp h
      obtain ⟨own, -, hown⟩ := exists_result variants schemas
        (variantSchemas_iff _ _ _ _ _ hschemas) hvariant
      exact variant_found hown name (mem_partsAll.mpr ⟨ty, hty, hname⟩)

end

section
variable {items : ℕ → String → Option Schema}

mutual

theorem schema_returns : ∀ ty : Ty, (∀ name ∈ parts ty, Returns fun n => items n name) →
    Returns fun n => schemaWith (items n) ty
  | .scalar _, _ | .param _, _ => .const _
  | .pointer _ inner, h | .option inner, h => schema_returns inner h
  | .sequence _ inner, h | .mapping _ _ inner, h => (schema_returns inner h).map _
  | .tuple types, h => (schemas_return types h).map _
  | .model name _, h => h name (mem_singleton_self name)

theorem schemas_return : ∀ types : List Ty, (∀ name ∈ partsAll types, Returns fun n => items n name) →
    Returns fun n => schemasWith (items n) types
  | [], _ => .const _
  | ty :: types, h =>
    (schema_returns ty fun name hname => h name (mem_append_left _ hname)).bind
      fun _ => (schemas_return types fun name hname => h name (mem_append_right _ hname)).map _

end

theorem body_returns {camel : Bool} {body : Body}
    (h : ∀ name ∈ partsAll body.types, Returns fun n => items n name) :
    Returns fun n => structSchema (items n) camel body := by
  cases body with
  | unit => exact .const _
  | named fields | tuple fields =>
    have hbases : Returns fun n => schemasWith (items n) (fields.map Field.ty) :=
      schemas_return _ h
    simp only [← schemasWith_base] at hbases
    exact hbases.map _

theorem variant_returns {camel : Bool} {name : String} {body : Body}
    (h : ∀ name ∈ partsAll body.types, Returns fun n => items n name) :
    Returns fun n => variantSchema (items n) camel name body := by
  have hheld : Returns fun n => (structSchema (items n) camel body).map (taggedSchema name) :=
    (body_returns h).map _
  cases body with
  | unit => exact .const _
  | named fields => exact hheld
  | tuple fields =>
    obtain _ | ⟨field, _ | ⟨second, rest⟩⟩ := fields
    · exact hheld
    · have hbase := schema_returns field.ty fun name hname =>
        h name (mem_append_left _ hname)
      simp only [← schemaWith_base] at hbase
      exact hbase.map _
    · exact hheld

theorem variants_return {camel : Bool} {names : Variant → String} {variants : List Variant}
    (h : ∀ variant ∈ variants, ∀ name ∈ partsAll variant.body.types, Returns fun n => items n name) :
    Returns fun n => variantSchemas (items n) camel names variants := by
  induction variants with
  | nil => exact .const _
  | cons variant variants ih =>
    obtain ⟨hfirst, hrest⟩ := forall_mem_cons.mp h
    exact (variant_returns hfirst).bind fun _ => (ih hrest).map _

theorem ir_returns (camel : Bool) (unicode : Unicode) (ir : Ir)
    (h : ∀ name ∈ partsAll (fieldTypes ir), Returns fun n => items n name) :
    Returns fun n => irSchema (items n) camel unicode ir := by
  cases ir with
  | struct body => exact body_returns h
  | enum variants tag renameAll =>
    change Returns fun n => enumSchema (items n) camel (Variant.wire unicode renameAll) variants
    unfold enumSchema
    split_ifs
    · exact .const _
    · exact .const _
    · refine (variants_return fun variant hvariant name hname => h name ?_).map _
      obtain ⟨ty, hty, hname⟩ := mem_partsAll.mp hname
      exact mem_partsAll.mpr ⟨ty, mem_flatMap.mpr ⟨variant, hvariant, hty⟩, hname⟩

end

section
variable {source : Source}

theorem itemSchema_returns {name : String} (h : Acc source.MadeOf name) :
    Returns fun n => source.itemSchema n name := by
  induction h with
  | intro name _ ih =>
    obtain ⟨schema, hschema⟩ := ir_returns source.camel source.unicode (source.plainIr name)
      fun later hlater => ih later (mem_partsAll.mp hlater)
    exact ⟨schema, settles_succ _ _ _ (fun _ => rfl) hschema⟩

theorem acc_of_itemSchema {n : ℕ} {name : String} {schema : Schema}
    (h : source.itemSchema n name = some schema) : Acc source.MadeOf name := by
  induction n generalizing name schema with
  | zero => cases h
  | succ n ih =>
    refine ⟨name, fun later hlater => ?_⟩
    obtain ⟨found, hfound⟩ := ir_found h later (mem_partsAll.mpr hlater)
    exact ih hfound

theorem schema_returns_iff (ty : Ty) :
    (Returns fun n => source.schema n ty) ↔ ∀ name ∈ parts ty, Acc source.MadeOf name := by
  constructor
  · intro h name hname
    obtain ⟨n, schema, hschema⟩ := h.some
    obtain ⟨found, hfound⟩ := parts_found ty hschema name hname
    exact acc_of_itemSchema hfound
  · exact fun h => schema_returns ty fun name hname => itemSchema_returns (h name hname)

/-- The schema of a type admits its valid values, if they keep to what schemas are made for. -/
theorem schema_admits (hderived : source.Derived) (checks : Rule → Val → Bool) (ty : Ty) :
    ((Returns fun n => source.schema n ty) ↔ ∀ name ∈ parts ty, Acc source.MadeOf name) ∧
      ∀ schema, Settles (fun n => source.schema n ty) schema → ∀ value json,
        (∃ depth, source.Encodes depth ty value json) →
          (∀ depth, source.validate checks depth ty value = true) →
            (∀ depth, source.Fits depth ty value) → Satisfies schema json := by
  refine ⟨schema_returns_iff ty, ?_⟩
  rintro schema ⟨enough, hschema⟩ value json ⟨depth, hencodes⟩ hvalid hfits
  exact schemas_hold hderived depth enough ty schema value json (hschema enough (Nat.le_refl enough))
    hencodes (hvalid depth) (hfits depth)

end

/-- `enum Frame { Heartbeat, AgentStart { id: String } }` with `#[serde(tag = "kind")]`, and
`struct Agent` with a name of one to eight characters and a parent. -/
def frames : Source where
  unicode := ⟨fun _ => false, fun _ => false⟩
  camel := false
  model name :=
    if name = "Frame" then
      some ⟨0, .enum [⟨"Heartbeat", none, .unit⟩,
        ⟨"AgentStart", none, .named [.plain "id" (.scalar .string)]⟩] (some "kind") none⟩
    else if name = "Agent" then
      some ⟨0, .struct (.named [⟨"name", .scalar .string, [.length (some 1) (some 8)], false, none⟩,
        .plain "parent" (.option (.scalar .string))])⟩
    else none

def frameBodies : List Body :=
  [.unit, .named [.plain "id" (.scalar .string)],
    .named [⟨"name", .scalar .string, [.length (some 1) (some 8)], false, none⟩,
      .plain "parent" (.option (.scalar .string))]]

theorem frames_bodies (name : String) : ∀ body ∈ (frames.plainIr name).bodies, body ∈ frameBodies := by
  intro body hbody
  by_cases hframe : name = "Frame"
  · subst hframe
    obtain rfl | htail := mem_cons.mp hbody
    · exact mem_cons_self
    · rw [mem_singleton.mp htail]
      exact mem_cons_of_mem _ mem_cons_self
  · by_cases hagent : name = "Agent"
    · subst hagent
      rw [mem_singleton.mp hbody]
      exact mem_cons_of_mem _ (mem_cons_of_mem _ mem_cons_self)
    · have hnone : frames.model name = none := (if_neg hframe).trans (if_neg hagent)
      have hunit : frames.plainIr name = .struct .unit :=
        congrArg (fun found => (found.map Model.ir).getD (.struct .unit)) hnone
      rw [hunit] at hbody
      rw [mem_singleton.mp hbody]
      exact mem_cons_self

theorem frames_derived : frames.Derived where
  distinct name body hbody := by
    have hbodies : ∀ body ∈ frameBodies,
        (body.fields.map fun field => wireName false field.label).Nodup := by
      decide
    exact hbodies body (frames_bodies name body hbody)
  dived name body hbody field hfield := by
    have hbodies : ∀ body ∈ frameBodies, ∀ field ∈ body.allFields,
        field.skip = false ∧ (mentions field.ty).isEmpty = true := by
      decide
    obtain ⟨hskip, hplain⟩ := hbodies body (frames_bodies name body hbody) field hfield
    exact ⟨hskip, fun h => absurd (isEmpty_iff.mp hplain) h⟩

theorem exists_body {ir : Ir} {ty : Ty} (h : ty ∈ fieldTypes ir) :
    ∃ body ∈ ir.bodies, ty ∈ body.types := by
  cases ir with
  | struct body => exact ⟨body, mem_singleton_self body, h⟩
  | enum variants tag renameAll =>
    obtain ⟨variant, hvariant, hty⟩ := mem_flatMap.mp h
    exact ⟨variant.body, mem_map_of_mem hvariant, hty⟩

theorem frames_acc (name : String) : Acc frames.MadeOf name := by
  refine ⟨name, ?_⟩
  rintro later ⟨ty, hty, hlater⟩
  obtain ⟨body, hbody, hty⟩ := exists_body hty
  have hbodies : ∀ body ∈ frameBodies, ∀ ty ∈ body.types, (parts ty).isEmpty = true := by
    decide
  rw [isEmpty_iff.mp (hbodies body (frames_bodies name body hbody) ty hty)] at hlater
  cases hlater

/-- An agent without a parent. -/
theorem schema_admits_agent : (Returns fun n => frames.schema n (.model "Agent" [])) ∧
    ∀ schema, Settles (fun n => frames.schema n (.model "Agent" [])) schema →
      Satisfies schema (.object [("name", .string "root")]) := by
  obtain ⟨hreturns, hadmits⟩ := schema_admits frames_derived (fun _ _ => true) (.model "Agent" [])
  refine ⟨hreturns.mpr fun name _ => frames_acc name, fun schema hschema => ?_⟩
  refine hadmits schema hschema (.struct [.string "root", .none]) _ ⟨2, ?_⟩ ?_ ?_
  · refine ⟨_, rfl, _, rfl, _, _, rfl, Or.inr ⟨?_, _, _, rfl, ⟨"root", rfl, rfl⟩, ?_⟩⟩
    · exact fun h => (by cases h.1)
    · exact ⟨_, _, rfl, Or.inl ⟨rfl, rfl, rfl, rfl⟩⟩
  · intro depth
    cases depth with
    | zero => rfl
    | succ depth => exact (by decide : lengthOk (some 1) (some 8) "root" = true)
  · intro depth
    cases depth with
    | zero => exact trivial
    | succ depth =>
      refine ⟨rfl, fun values hvalues => ?_⟩
      cases hvalues
      refine forall_mem_cons.mpr ⟨⟨by decide, ?_, Or.inr ?_⟩,
        forall_mem_singleton.mpr ⟨by decide, ?_, Or.inl ⟨rfl, rfl⟩⟩⟩
      · exact forall_mem_singleton.mpr rfl
      · cases depth with
        | zero => exact trivial
        | succ depth => exact nofun
      · exact nofun

def frameSchema : Schema :=
  [.oneOf [[.type "string", .const "Heartbeat"], taggedSchema "AgentStart"
      [.type "object", .properties [("id", [.type "string"])], .required ["id"]]]]

/-- A frame on the wire has its kind, and the schema wants the name of its variant. -/
theorem tagged_not_admitted : frames.Derived ∧
    (∀ name ∈ parts (.model "Frame" []), Acc frames.MadeOf name) ∧
      Settles (fun n => frames.schema n (.model "Frame" [])) frameSchema ∧
        (∃ depth, frames.Encodes depth (.model "Frame" []) (.variant 0 [])
          (.object [("kind", .string "Heartbeat")])) ∧
        (∀ checks depth, frames.validate checks depth (.model "Frame" []) (.variant 0 []) = true) ∧
        ¬Satisfies frameSchema (.object [("kind", .string "Heartbeat")]) := by
  refine ⟨frames_derived, fun name _ => frames_acc name, ⟨1, fun n hn => ?_⟩,
    ⟨1, 0, ⟨"Heartbeat", none, .unit⟩, [], rfl, rfl, rfl, rfl⟩, fun checks depth => ?_, fun h => ?_⟩
  · obtain ⟨m, rfl⟩ : ∃ m, n = m + 1 := ⟨n - 1, by omega⟩
    rfl
  · cases depth <;> rfl
  · have hone := (satisfies_iff _ _).mp h _ mem_cons_self
    rw [Keyword.Holds, exactlyOne] at hone
    obtain ⟨hunit, -⟩ | ⟨-, hone⟩ := hone
    · have htype := (satisfies_iff _ _).mp hunit _ mem_cons_self
      rw [Keyword.Holds] at htype
      exact htype
    · rw [exactlyOne] at hone
      obtain ⟨htagged, -⟩ | ⟨-, hnone⟩ := hone
      · have hrequired := (satisfies_iff _ _).mp htagged (.required ["AgentStart"])
          (mem_cons_of_mem _ (mem_cons_of_mem _ mem_cons_self))
        rw [Keyword.Holds] at hrequired
        have hmem := hrequired _ rfl "AgentStart" mem_cons_self
        exact absurd (mem_singleton.mp hmem) (by decide)
      · rw [exactlyOne] at hnone
        exact hnone

end Stakit.TsTypes
