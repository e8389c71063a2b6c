import Stakit.TsNames
import Stakit.TypeScriptTypes

set_option autoImplicit false

namespace Stakit.TsTypes
open TypeScript SerdeJson NamedWalks

/-- serde names a raw identifier without its mark. -/
def unraw (ident : String) : String :=
  match ident.toList with
  | 'r' :: '#' :: rest => String.ofList rest
  | _ => ident

/-- `#[model]` has serde rename fields as the feature `camel` does. -/
def serdeField (camel : Bool) (label : String) : String := wireName camel (unraw label)

def Variant.serdeName (unicode : Unicode) (renameAll : Option RenameRule) (variant : Variant) :
    String :=
  wireOf unicode renameAll variant.rename (unraw variant.ident)

section
variable {N : Type}

/-- A float that is not finite is written as `null`. -/
def Scalar.Writes : Scalar → Value N → Prop
  | .unit, json => json = .null
  | .bool, json => ∃ flag, json = .bool flag
  | .char, json => ∃ c, json = .string (String.singleton c)
  | .str, json | .string, json => ∃ text, json = .string text
  | .f32, json | .f64, json => json = .null ∨ ∃ n, json = .number n
  | _, json => ∃ n, json = .number n

/-- Numbers are keys as their texts, which are left open here. -/
def Scalar.WritesKey : Scalar → String → Prop
  | .unit, _ => False
  | .bool, key => key = "true" ∨ key = "false"
  | .char, key => ∃ c, key = String.singleton c
  | _, _ => True

def Sequence.Holds : Sequence → List (Value N) → Prop
  | .array length, items => items.length = length
  | _, _ => True

section
variable (camel : Bool) (writes : Ty → Value N → Prop)

def WritesFields (fields : List Field) (entries : List (String × Value N)) : Prop :=
  List.Forall₂ (fun field entry => entry.1 = serdeField camel field.label ∧ writes field.ty entry.2)
    fields entries

/-- A struct, or what an untagged variant holds. -/
def WritesBody : Body → Value N → Prop
  | .unit, json => json = .null
  | .named fields, json => ∃ entries, json = .object entries ∧ WritesFields camel writes fields entries
  | .tuple [field], json => writes field.ty json
  | .tuple fields, json =>
    ∃ items, json = .array items ∧ List.Forall₂ writes (fields.map Field.ty) items

/-- A variant of an enum without a tag. -/
def WritesExternal (name : String) : Body → Value N → Prop
  | .unit, json => json = .string name
  | body, json => ∃ payload, WritesBody camel writes body payload ∧ json = .object [(name, payload)]

def WritesInternal (tagged : Ty → List (String × Value N) → Prop) (tag name : String) :
    Body → List (String × Value N) → Prop
  | .unit, entries => entries = [(tag, .string name)]
  | .named fields, entries => ∃ rest, entries = (tag, .string name) :: rest ∧
      WritesFields camel writes fields rest ∧ ∀ entry ∈ rest, entry.1 ≠ tag
  | .tuple [field], entries => ∃ rest, entries = (tag, .string name) :: rest ∧ tagged field.ty rest
  | .tuple _, _ => False

end

namespace Source
variable (source : Source)

/-- The keys of maps; there are none of other types. -/
def WritesKey : ℕ → Ty → String → Prop
  | 0, _, _ => False
  | _ + 1, .scalar scalar, key => scalar.WritesKey key
  | depth + 1, .pointer _ pointee, key => WritesKey depth pointee key
  | depth + 1, .model name args, key =>
    match source.ir ⟨name, args⟩ with
    | .struct (.tuple [field]) => WritesKey depth (field.ty.subst args) key
    | .enum variants none renameAll =>
      ∃ variant ∈ variants, variant.body = .unit ∧ key = variant.serdeName source.unicode renameAll
    | _ => False
  | _ + 1, _, _ => False

mutual

/-- What is written for a value of a type, no deeper than `depth`. -/
def Writes : ℕ → Ty → Value N → Prop
  | 0, _, _ => False
  | _ + 1, .scalar scalar, json => scalar.Writes json
  | _ + 1, .param _, _ => False
  | depth + 1, .pointer _ pointee, json => Writes depth pointee json
  | depth + 1, .option inner, json => json = .null ∨ Writes depth inner json
  | depth + 1, .sequence kind item, json =>
    ∃ items, json = .array items ∧ kind.Holds items ∧ ∀ value ∈ items, Writes depth item value
  | depth + 1, .mapping _ key value, json =>
    ∃ fields, json = .object fields ∧
      ∀ field ∈ fields, source.WritesKey depth key field.1 ∧ Writes depth value field.2
  | depth + 1, .tuple types, json =>
    ∃ items, json = .array items ∧ List.Forall₂ (fun ty value => Writes depth ty value) types items
  | depth + 1, .model name args, json =>
    match source.ir ⟨name, args⟩ with
    | .struct body => WritesBody source.camel (fun ty => Writes depth (ty.subst args)) body json
    | .enum variants none renameAll => ∃ variant ∈ variants,
        WritesExternal source.camel (fun ty => Writes depth (ty.subst args))
          (variant.serdeName source.unicode renameAll) variant.body json
    | .enum variants (some tag) renameAll => ∃ variant ∈ variants, ∃ entries,
        json = .object entries ∧
        WritesInternal source.camel (fun ty => Writes depth (ty.subst args))
          (fun ty => Tagged depth (ty.subst args)) tag
          (variant.serdeName source.unicode renameAll) variant.body entries

/-- The entries that stand beside a tag; other values serde does not write there. -/
def Tagged : ℕ → Ty → List (String × Value N) → Prop
  | 0, _, _ => False
  | _ + 1, .scalar scalar, entries => scalar = .unit ∧ entries = []
  | depth + 1, .pointer _ pointee, entries => Tagged depth pointee entries
  | depth + 1, .mapping _ key value, entries =>
    ∀ entry ∈ entries, source.WritesKey depth key entry.1 ∧ Writes depth value entry.2
  | depth + 1, .model name args, entries =>
    match source.ir ⟨name, args⟩ with
    | .struct .unit => entries = []
    | .struct (.named fields) =>
      WritesFields source.camel (fun ty => Writes depth (ty.subst args)) fields entries
    | .struct (.tuple [field]) => Tagged depth (field.ty.subst args) entries
    | .struct (.tuple _) => False
    | .enum variants none renameAll => ∃ variant ∈ variants,
        let name := variant.serdeName source.unicode renameAll
        match variant.body with
        | .unit => entries = [(name, .null)]
        | body => ∃ payload, entries = [(name, payload)] ∧
            WritesBody source.camel (fun ty => Writes depth (ty.subst args)) body payload
    | .enum variants (some tag) renameAll => ∃ variant ∈ variants,
        WritesInternal source.camel (fun ty => Writes depth (ty.subst args))
          (fun ty => Tagged depth (ty.subst args)) tag
          (variant.serdeName source.unicode renameAll) variant.body entries
  | _ + 1, _, _ => False

end

/-- The JSON values that serde produces for the values of a type. -/
def Wire (ty : Ty) (json : Value N) : Prop := ∃ depth, source.Writes depth ty json

end Source

end

section
variable (unicode : Unicode)

mutual

def tsType : Ty → TsType
  | .scalar scalar => .name scalar.tsName
  | .param _ => .name ""
  | .pointer _ pointee => tsType pointee
  | .option inner => .union [tsType inner, .name "null"]
  | .sequence _ item => .array (tsType item)
  | .mapping _ key value => .record (tsType key) (tsType value)
  | .tuple items => .tuple (tsTypes items)
  | .model name args => .name (tsRef unicode (.model name args))

def tsTypes : List Ty → List TsType
  | [] => []
  | item :: items => tsType item :: tsTypes items

end

section
variable (camel : Bool) (args : List Ty)

def fieldType (ty : Ty) : TsType := tsType unicode (ty.subst args)

def Field.prop (field : Field) : TsProp :=
  (wireName camel field.label, (optionInner field.ty).isSome, fieldType unicode args field.ty)

def tagProp (tag wire : String) : TsProp := (tag, false, .literal wire)

def structType : Body → TsDecl
  | .named fields => .interface (fields.map fun field => field.prop unicode camel args)
  | .tuple fields => .alias (.tuple ((fields.map Field.ty).map (fieldType unicode args)))
  | .unit => .alias (.name "null")

def variantType (tag : Option String) (wire : String) : Body → TsType
  | .unit =>
    match tag with
    | none => .literal wire
    | some tag => .object [tagProp tag wire]
  | .named fields =>
    .object ((tag.map fun tag => tagProp tag wire).toList ++
      fields.map fun field => field.prop unicode camel args)
  | .tuple [field] => fieldType unicode args field.ty
  | .tuple fields => .tuple ((fields.map Field.ty).map (fieldType unicode args))

def declType : Ir → TsDecl
  | .struct body => structType unicode camel args body
  | .enum variants tag renameAll =>
    if variants = [] then .alias (.name "never")
    else .alias (.union (variants.map fun variant =>
      variantType unicode camel args tag (variant.wire unicode renameAll) variant.body))

end

end

section
variable {unicode : Unicode}

mutual

theorem render_tsType (ty : Ty) : (tsType unicode ty).render = tsRef unicode ty := by
  cases ty with
  | scalar scalar | param index => rfl
  | pointer kind pointee => exact render_tsType pointee
  | option inner =>
    rw [tsType, tsRef, TsType.render, renderAll_eq, List.map_cons, List.map_singleton,
      String.intercalate_cons_cons, String.intercalate_singleton, render_tsType inner,
      String.append_assoc]
    rfl
  | sequence kind item => rw [tsType, tsRef, TsType.render, render_tsType item]
  | mapping kind key value =>
    rw [tsType, tsRef, TsType.render, render_tsType key, render_tsType value]
  | tuple items => rw [tsType, tsRef, TsType.render, renderAll_eq, render_tsTypes items]
  | model name args => rfl

theorem render_tsTypes (items : List Ty) :
    (tsTypes unicode items).map TsType.render = tsRefs unicode items := by
  cases items with
  | nil => rfl
  | cons item items => rw [tsTypes, tsRefs, List.map_cons, render_tsType item, render_tsTypes items]

end

section
variable (camel : Bool) (args : List Ty)

theorem render_fieldTypes (types : List Ty) :
    renderAll (types.map (fieldType unicode args)) = types.map (fieldRef unicode args) := by
  rw [renderAll_eq, List.map_map]
  exact List.map_congr_left fun ty _ => render_tsType (ty.subst args)

theorem renderProps_fields (fields : List Field) :
    renderProps (fields.map fun field => field.prop unicode camel args) =
      fields.map fun field => field.entry unicode camel args := by
  induction fields with
  | nil => rfl
  | cons field fields ih =>
    rw [List.map_cons, List.map_cons, Field.prop, renderProps, ih, fieldType, render_tsType]
    rfl

theorem renderProps_tag (tag wire : String) :
    renderProps [tagProp tag wire] = [tagEntry tag wire] := by
  have hquote : ": \"" = ": " ++ "\"" := by decide
  rw [tagProp, renderProps, renderProps, TsType.render, tagEntry, if_neg Bool.false_ne_true, hquote]
  simp only [String.append_assoc]

theorem render_variantType (tag : Option String) (wire : String) (body : Body) :
    (variantType unicode camel args tag wire body).render =
      variantPart unicode camel args tag wire body := by
  cases body with
  | unit =>
    cases tag with
    | none => rfl
    | some tag =>
      rw [variantType, TsType.render, renderProps_tag, String.intercalate_singleton]
      rfl
  | named fields =>
    rw [variantType, variantPart, TsType.render, renderProps_append, renderProps_fields]
    cases tag with
    | none => rfl
    | some tag =>
      rw [Option.map_some, Option.toList_some, renderProps_tag]
      rfl
  | tuple fields =>
    obtain _ | ⟨field, _ | ⟨second, rest⟩⟩ := fields
    · rfl
    · exact render_tsType (field.ty.subst args)
    · rw [variantType, variantPart, TsType.render, render_fieldTypes]
      · rfl
      · exact fun _ h => (by cases h)
      · exact fun _ h => (by cases h)

theorem render_alias (name : String) (type : TsType) :
    (TsDecl.alias type).render name = "export type " ++ name ++ " = " ++ type.render ++ ";" := rfl

theorem render_interface (name : String) (props : List TsProp) :
    (TsDecl.interface props).render name = "export interface " ++ name ++ " \x7b\n" ++
      String.join ((renderProps props).map fun entry => "  " ++ entry ++ ";\n") ++ "\x7d" := rfl

theorem render_declType (name : String) (ir : Ir) :
    (declType unicode camel args ir).render name = declExpr unicode camel args name ir := by
  cases ir with
  | struct body =>
    cases body with
    | unit =>
      have hnull : " = null;" = " = " ++ ("null" ++ ";") := by decide
      change (TsDecl.alias (.name "null")).render name = "export type " ++ name ++ " = null;"
      rw [render_alias, TsType.render, hnull]
      simp only [String.append_assoc]
    | named fields =>
      change (TsDecl.interface (fields.map fun field => field.prop unicode camel args)).render name =
        "export interface " ++ name ++ " \x7b\n" ++ String.join (fields.map fun field =>
          "  " ++ field.entry unicode camel args ++ ";\n") ++ "\x7d"
      rw [render_interface, renderProps_fields, List.map_map]
      simp only [Function.comp_def]
    | tuple fields =>
      change (TsDecl.alias (.tuple ((fields.map Field.ty).map (fieldType unicode args)))).render name =
        "export type " ++ name ++ " = " ++ tupleRefs unicode args (fields.map Field.ty) ++ ";"
      rw [render_alias, TsType.render, render_fieldTypes, tupleRefs]
  | enum variants tag renameAll =>
    rw [declType, declExpr, enumDecl]
    split_ifs with hempty
    · have hnever : " = never;" = " = " ++ ("never" ++ ";") := by decide
      rw [render_alias, TsType.render, hnever]
      simp only [String.append_assoc]
    · have hparts : (variants.map fun variant => (variantType unicode camel args tag
            (variant.wire unicode renameAll) variant.body)).map TsType.render =
          variants.map fun variant => variantPart unicode camel args tag
            (variant.wire unicode renameAll) variant.body := by
        rw [List.map_map]
        exact List.map_congr_left fun variant _ => render_variantType camel args tag _ _
      rw [render_alias, TsType.render, renderAll_eq]
      exact congrArg (fun parts => "export type " ++ name ++ " = " ++ " | ".intercalate parts ++ ";")
        hparts

end

end

end Stakit.TsTypes
