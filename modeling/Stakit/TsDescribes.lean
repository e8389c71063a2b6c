import Stakit.TsWire

set_option autoImplicit false

namespace Stakit.TsTypes
open FiniteMap FuelRuns TypeScript SerdeJson NamedWalks List

/-- Names that have a meaning of their own in the declarations. -/
def reserved : List String := "Array" :: "Record" :: keywords

def Scalar.isFloat : Scalar → Bool
  | .f32 | .f64 => true
  | _ => false

/-- Keys that are written as any string or as a number. -/
def isKey : Ty → Bool
  | .scalar .unit | .scalar .bool => false
  | .scalar _ => true
  | .pointer _ pointee => isKey pointee
  | _ => false

mutual

/-- No float without an `Option` around it, and maps with such keys only. -/
def describable (nullable : Bool) : Ty → Bool
  | .scalar scalar => nullable || !scalar.isFloat
  | .param _ | .model _ _ => true
  | .pointer _ pointee => describable nullable pointee
  | .option inner => describable true inner
  | .sequence _ item => describable false item
  | .mapping _ key value => isKey key && describable false value
  | .tuple items => describableAll items

def describableAll : List Ty → Bool
  | [] => true
  | item :: items => describable false item && describableAll items

end

namespace Source
variable (source : Source)

/-- A field whose name is no raw identifier and stands for itself in TypeScript. -/
def PlainField (field : Field) : Prop :=
  unraw field.label = field.label ∧
    isPropertyName source.unicode.alphanumeric (wireName source.camel field.label) = true

def PlainVariant (renameAll : Option RenameRule) (variant : Variant) : Prop :=
  (variant.rename.isSome = true ∨ unraw variant.ident = variant.ident) ∧
    isPlainText (variant.wire source.unicode renameAll) = true

def StructPayload (tag : String) : Ty → Prop
  | .pointer _ pointee => StructPayload tag pointee
  | .model name args =>
    match source.ir ⟨name, args⟩ with
    | .struct (.named fields) => ∀ field ∈ fields, wireName source.camel field.label ≠ tag
    | _ => False
  | _ => False

/-- What a variant may hold beside a tag. -/
def MirrorsTagged (tag : String) (args : List Ty) : Body → Prop
  | .unit => True
  | .named fields => ∀ field ∈ fields, source.PlainField field
  | .tuple [field] => source.StructPayload tag (field.ty.subst args)
  | .tuple _ => True

def MirrorsIr (args : List Ty) : Ir → Prop
  | .struct (.named fields) => ∀ field ∈ fields, source.PlainField field
  | .struct (.tuple fields) => fields.length ≠ 1
  | .struct .unit => True
  | .enum variants none renameAll =>
    ∀ variant ∈ variants, source.PlainVariant renameAll variant ∧ variant.body = .unit
  | .enum variants (some tag) renameAll =>
    isPropertyName source.unicode.alphanumeric tag = true ∧
      ∀ variant ∈ variants, source.PlainVariant renameAll variant ∧
        source.MirrorsTagged tag args variant.body

/-- An instance whose declaration keeps to what serde writes. -/
def Mirrors (it : Instance) : Prop :=
  source.tsRef it ∉ reserved ∧
    (∀ ty ∈ fieldTypes (source.ir it), describable false (ty.subst it.args) = true) ∧
    source.MirrorsIr it.args (source.ir it)

def declType (it : Instance) : TsDecl :=
  TsTypes.declType source.unicode source.camel it.args (source.ir it)

end Source

def App.Declares (app : App) (root : Ty) (decls : Decls) (name : String) (type : TsType) : Prop :=
  ∃ it, Reaches app.next (mentions root) it ∧ app.tsRef it = name ∧
    decls.lookup name = some (app.decl it) ∧ (app.declType it).type = type

/-- Every instance that a type is made of mirrors the wire and is spelled apart. -/
structure App.Mirrored (app : App) (root : Ty) : Prop where
  rooted : ∀ it ∈ mentions root, it ∈ app.instances
  plain : describable false root = true
  mirrors : ∀ it, Reaches app.next (mentions root) it → app.Mirrors it
  apart : ∀ first second, Reaches app.next (mentions root) first →
    Reaches app.next (mentions root) second → first.args ≠ [] →
    first.spelling app.unicode = second.spelling app.unicode → first = second

section
variable {N : Type}

def App.Inhabits (app : App) (root : Ty) (decls : Decls) (type : TsType) (json : Value N) : Prop :=
  TypeScript.Inhabits app.unicode.alphanumeric (app.Declares root decls) type json

section
variable {letter : Char → Bool} {declares : String → TsType → Prop}

/-- Properties that the entries of an object have, and as what they have them. -/
structure Filled (letter : Char → Bool) (declares : String → TsType → Prop) (props : List TsProp)
    (entries : List (String × Value N)) : Prop where
  names : ∀ prop ∈ props, isPropertyName letter prop.1 = true
  present : ∀ prop ∈ props, prop.1 ∈ entries.map Prod.fst
  typed : ∀ prop ∈ props, ∀ value, (prop.1, value) ∈ entries →
    TypeScript.Inhabits letter declares prop.2.2 value

variable {props : List TsProp} {entries : List (String × Value N)}

theorem Filled.inhabits (h : Filled letter declares props entries) :
    TypeScript.Inhabits letter declares (.object props) (.object entries) :=
  .object h.names (fun prop hprop _ => h.present prop hprop) h.typed

theorem Filled.beside (h : Filled letter declares props entries) {tag : String} (value : Value N)
    (hfree : ∀ prop ∈ props, prop.1 ≠ tag) :
    Filled letter declares props ((tag, value) :: entries) where
  names := h.names
  present prop hprop := mem_cons_of_mem _ (h.present prop hprop)
  typed prop hprop other hother := by
    obtain hhead | hentry := mem_cons.mp hother
    · exact absurd (congrArg Prod.fst hhead) (hfree prop hprop)
    · exact h.typed prop hprop other hentry

theorem Filled.tagged (h : Filled letter declares props entries) {tag wire : String}
    (hfree : ∀ entry ∈ entries, entry.1 ≠ tag) (htag : isPropertyName letter tag = true)
    (hwire : isPlainText wire = true) :
    Filled letter declares (tagProp tag wire :: props) ((tag, .string wire) :: entries) := by
  have hprops : ∀ prop ∈ props, prop.1 ≠ tag := by
    intro prop hprop
    obtain ⟨entry, hentry, hname⟩ := mem_map.mp (h.present prop hprop)
    rw [← hname]
    exact hfree entry hentry
  have hrest := h.beside (.string wire) hprops
  refine ⟨forall_mem_cons.mpr ⟨htag, hrest.names⟩,
    forall_mem_cons.mpr ⟨mem_cons_self, hrest.present⟩,
    forall_mem_cons.mpr ⟨fun value hvalue => ?_, hrest.typed⟩⟩
  obtain hhead | hentry := mem_cons.mp hvalue
  · cases hhead
    exact .literal hwire
  · exact absurd rfl (hfree _ hentry)

theorem filled_fields {source : Source} {args : List Ty} {writes : Ty → Value N → Prop}
    {fields : List Field} {entries : List (String × Value N)}
    (hplain : ∀ field ∈ fields, source.PlainField field)
    (hnodup : (fields.map fun field => wireName source.camel field.label).Nodup)
    (hwrites : ∀ field ∈ fields, ∀ json, writes field.ty json →
      TypeScript.Inhabits source.unicode.alphanumeric declares
        (fieldType source.unicode args field.ty) json)
    (h : WritesFields source.camel writes fields entries) :
    Filled source.unicode.alphanumeric declares
        (fields.map fun field => field.prop source.unicode source.camel args) entries ∧
      entries.map Prod.fst = fields.map fun field => wireName source.camel field.label := by
  unfold WritesFields at h
  induction h with
  | nil => exact ⟨⟨nofun, nofun, nofun⟩, rfl⟩
  | @cons field entry fields entries hentry _ ih =>
    obtain ⟨hfield, hplain⟩ := forall_mem_cons.mp hplain
    obtain ⟨hwrite, hwrites⟩ := forall_mem_cons.mp hwrites
    rw [map_cons] at hnodup
    obtain ⟨hnew, hnodup⟩ := nodup_cons.mp hnodup
    obtain ⟨hrest, hnames⟩ := ih hplain hnodup hwrites
    have hname : entry.1 = wireName source.camel field.label := by
      rw [hentry.1, serdeField, hfield.1]
    rw [map_cons, map_cons, map_cons, hnames, hname]
    refine ⟨⟨forall_mem_cons.mpr ⟨hfield.2, hrest.names⟩,
      forall_mem_cons.mpr ⟨mem_cons.mpr (Or.inl hname.symm), fun prop hprop =>
        mem_cons_of_mem _ (hrest.present prop hprop)⟩,
      forall_mem_cons.mpr ⟨fun value hvalue => ?_, fun prop hprop value hvalue => ?_⟩⟩, rfl⟩
    · obtain rfl | hlater := mem_cons.mp hvalue
      · exact hwrite _ hentry.2
      · refine absurd ?_ hnew
        rw [← hnames]
        exact mem_map_of_mem hlater
    · obtain rfl | hlater := mem_cons.mp hvalue
      · refine absurd ?_ hnew
        have hin := hrest.present prop hprop
        rw [hnames] at hin
        change prop.1 = wireName source.camel field.label at hname
        rwa [hname] at hin
      · exact hrest.typed prop hprop value hlater

end

structure Described (app : App) (root : Ty) (decls : Decls) : Prop where
  declared : ∀ it, Reaches app.next (mentions root) it →
    decls.lookup (app.tsRef it) = some (app.decl it)
  mirrors : ∀ it, Reaches app.next (mentions root) it → app.Mirrors it
  distinct : ∀ it, Reaches app.next (mentions root) it → ∀ body ∈ (app.ir it).bodies,
    (body.fields.map fun field => wireName app.camel field.label).Nodup

theorem types_subset {ir : Ir} {body : Body} (hbody : body ∈ ir.bodies) {ty : Ty}
    (hty : ty ∈ body.types) : ty ∈ fieldTypes ir := by
  cases ir with
  | struct whole =>
    cases mem_singleton.mp hbody
    exact hty
  | enum variants tag renameAll =>
    obtain ⟨variant, hvariant, rfl⟩ := mem_map.mp hbody
    exact mem_flatMap.mpr ⟨variant, hvariant, hty⟩

theorem serdeName_eq {source : Source} {renameAll : Option RenameRule} {variant : Variant}
    (h : source.PlainVariant renameAll variant) :
    variant.serdeName source.unicode renameAll = variant.wire source.unicode renameAll := by
  unfold Variant.serdeName Variant.wire
  obtain hrename | hident := h.1
  · obtain ⟨rename, hrename⟩ := Option.isSome_iff_exists.mp hrename
    rw [hrename]
    rfl
  · rw [hident]

theorem describable_all {items : List Ty} (h : describableAll items = true) :
    ∀ item ∈ items, describable false item = true := by
  induction items with
  | nil => exact nofun
  | cons item items ih =>
    obtain ⟨hitem, hitems⟩ := Bool.and_eq_true_iff.mp h
    exact forall_mem_cons.mpr ⟨hitem, ih hitems⟩

theorem isKey_name {unicode : Unicode} (key : Ty) (h : isKey key = true) :
    tsType unicode key = .name "string" ∨ tsType unicode key = .name "number" := by
  match key with
  | .scalar scalar =>
    cases scalar with
    | unit | bool => cases h
    | char | str | string => exact Or.inl rfl
    | _ => exact Or.inr rfl
  | .pointer kind pointee => exact isKey_name pointee h

theorem tuple_inhabits {letter : Char → Bool} {declares : String → TsType → Prop}
    {types : List TsType} {items : List (Value N)}
    (h : List.Forall₂ (fun type item => TypeScript.Inhabits letter declares type item) types items) :
    TypeScript.Inhabits letter declares (.tuple types) (.array items) :=
  .tuple h.length_eq fun _ hpair => forall₂_zip h hpair

section
variable {app : App} {root : Ty} {decls : Decls}

/-- What the declarations say of the values down to a depth. -/
def Sound (N : Type) (app : App) (root : Ty) (decls : Decls) (depth : ℕ) : Prop :=
  ∀ (nullable : Bool) (ty : Ty) (json : Value N),
    (∀ it ∈ mentions ty, Reaches app.next (mentions root) it) → describable nullable ty = true →
      app.Writes depth ty json →
        (nullable = true ∧ json = .null) ∨ app.Inhabits root decls (tsType app.unicode ty) json

theorem Sound.inhabits {depth : ℕ} (h : Sound N app root decls depth) {ty : Ty} {json : Value N}
    (hreach : ∀ it ∈ mentions ty, Reaches app.next (mentions root) it)
    (hplain : describable false ty = true) (hwrites : app.Writes depth ty json) :
    app.Inhabits root decls (tsType app.unicode ty) json :=
  (h false ty json hreach hplain hwrites).resolve_left fun h => absurd h.1 Bool.false_ne_true

theorem Sound.items {depth : ℕ} (h : Sound N app root decls depth) {types : List Ty}
    {items : List (Value N)}
    (hreach : ∀ it ∈ mentionsAll types, Reaches app.next (mentions root) it)
    (hplain : ∀ ty ∈ types, describable false ty = true)
    (hwrites : List.Forall₂ (fun ty json => app.Writes depth ty json) types items) :
    List.Forall₂ (app.Inhabits root decls) (tsTypes app.unicode types) items := by
  induction hwrites with
  | nil => exact .nil
  | cons hwrite _ ih =>
    obtain ⟨hty, hplain⟩ := forall_mem_cons.mp hplain
    exact .cons
      (h.inhabits (fun it hit => hreach it (mem_append_left _ hit)) hty hwrite)
      (ih (fun it hit => hreach it (mem_append_right _ hit)) hplain)

theorem Described.free (h : Described app root decls) {name : String} (hname : name ∈ reserved)
    (type : TsType) : ¬app.Declares root decls name type := by
  rintro ⟨it, hreach, rfl, -⟩
  exact (h.mirrors it hreach).1 hname

theorem Described.name_inhabits (h : Described app root decls) {it : Instance}
    (hreach : Reaches app.next (mentions root) it) {json : Value N}
    (hjson : app.Inhabits root decls (app.declType it).type json) :
    app.Inhabits root decls (.name (app.tsRef it)) json := by
  refine .declared (fun hkeyword => ?_) ⟨it, hreach, rfl, h.declared it hreach, rfl⟩ hjson
  exact (h.mirrors it hreach).1 (mem_cons_of_mem _ (mem_cons_of_mem _ hkeyword))

theorem Described.field_inhabits (h : Described app root decls) {depth : ℕ}
    (hsound : Sound N app root decls depth) {it : Instance}
    (hreach : Reaches app.next (mentions root) it) {ty : Ty} (hty : ty ∈ fieldTypes (app.ir it))
    {json : Value N} (hwrites : app.Writes depth (ty.subst it.args) json) :
    app.Inhabits root decls (fieldType app.unicode it.args ty) json :=
  hsound.inhabits (fun _ hlater => hreach.step (mem_next hty hlater))
    ((h.mirrors it hreach).2.1 ty hty) hwrites

theorem Described.filled (h : Described app root decls) {depth : ℕ}
    (hsound : Sound N app root decls depth) {it : Instance}
    (hreach : Reaches app.next (mentions root) it) {fields : List Field}
    (hbody : .named fields ∈ (app.ir it).bodies) (hplain : ∀ field ∈ fields, app.PlainField field)
    {entries : List (String × Value N)}
    (hwrites : WritesFields app.camel (fun ty => app.Writes depth (ty.subst it.args)) fields entries) :
    Filled app.unicode.alphanumeric (app.Declares root decls)
        (fields.map fun field => field.prop app.unicode app.camel it.args) entries ∧
      entries.map Prod.fst = fields.map fun field => wireName app.camel field.label :=
  filled_fields hplain (h.distinct it hreach _ hbody)
    (fun _ hfield _ hjson => h.field_inhabits hsound hreach
      (types_subset hbody (mem_map_of_mem hfield)) hjson) hwrites

theorem Described.tuple (h : Described app root decls) {depth : ℕ}
    (hsound : Sound N app root decls depth) {it : Instance}
    (hreach : Reaches app.next (mentions root) it) {types : List Ty}
    (htypes : ∀ ty ∈ types, ty ∈ fieldTypes (app.ir it)) {items : List (Value N)}
    (hwrites : List.Forall₂ (fun ty json => app.Writes depth (ty.subst it.args) json) types items) :
    app.Inhabits root decls (.tuple (types.map (fieldType app.unicode it.args))) (.array items) := by
  refine tuple_inhabits ?_
  induction hwrites with
  | nil => exact .nil
  | cons hwrite _ ih =>
    obtain ⟨hty, htypes⟩ := forall_mem_cons.mp htypes
    exact .cons (h.field_inhabits hsound hreach hty hwrite) (ih htypes)

theorem Described.struct (h : Described app root decls) {depth : ℕ}
    (hsound : Sound N app root decls depth) {it : Instance}
    (hreach : Reaches app.next (mentions root) it) {body : Body} (hir : app.ir it = .struct body)
    {json : Value N}
    (hwrites : WritesBody app.camel (fun ty => app.Writes depth (ty.subst it.args)) body json) :
    app.Inhabits root decls (app.declType it).type json := by
  have hmirrors := (h.mirrors it hreach).2.2
  have htypes : ∀ ty ∈ body.types, ty ∈ fieldTypes (app.ir it) := by
    rw [hir]
    exact fun _ hty => hty
  rw [Source.declType, hir]
  rw [hir] at hmirrors
  cases body with
  | unit =>
    cases hwrites
    exact .null
  | named fields =>
    obtain ⟨entries, rfl, hentries⟩ := hwrites
    have hbody : .named fields ∈ (app.ir it).bodies := by
      rw [hir]
      exact mem_singleton_self _
    exact (h.filled hsound hreach hbody hmirrors hentries).1.inhabits
  | tuple fields =>
    match fields with
    | [] =>
      obtain ⟨items, rfl, hitems⟩ := hwrites
      exact h.tuple hsound hreach htypes hitems
    | [field] => exact absurd rfl hmirrors
    | field :: second :: rest =>
      obtain ⟨items, rfl, hitems⟩ := hwrites
      exact h.tuple hsound hreach htypes hitems

theorem Described.payload (h : Described app root decls) {depth : ℕ}
    (hsound : ∀ less < depth, Sound N app root decls less) {ty : Ty}
    (hreach : ∀ it ∈ mentions ty, Reaches app.next (mentions root) it) {tag : String}
    (hpayload : app.StructPayload tag ty) {entries : List (String × Value N)}
    (hwrites : app.Tagged depth ty entries) (value : Value N) :
    app.Inhabits root decls (tsType app.unicode ty) (.object ((tag, value) :: entries)) := by
  induction depth generalizing ty with
  | zero =>
    rw [Source.Tagged] at hwrites
    exact hwrites.elim
  | succ depth ih =>
    cases ty with
    | pointer kind pointee =>
      rw [Source.Tagged] at hwrites
      change app.Inhabits root decls (tsType app.unicode pointee) _
      exact ih (fun less hless => hsound less (Nat.lt_succ_of_lt hless)) hreach hpayload hwrites
    | model name args =>
      have hit := hreach ⟨name, args⟩ (mem_singleton_self _)
      have hmirrors := (h.mirrors _ hit).2.2
      rw [Source.Tagged] at hwrites
      rw [Source.StructPayload] at hpayload
      cases hir : app.ir ⟨name, args⟩ with
      | enum variants tag renameAll =>
        rw [hir] at hpayload
        exact hpayload.elim
      | struct body =>
        rw [hir] at hpayload hwrites hmirrors
        cases body with
        | unit | tuple fields => exact hpayload.elim
        | named fields =>
          have hbody : .named fields ∈ (app.ir ⟨name, args⟩).bodies := by
            rw [hir]
            exact mem_singleton_self _
          obtain ⟨hfilled, -⟩ := h.filled (hsound depth (Nat.lt_succ_self _)) hit hbody hmirrors hwrites
          refine h.name_inhabits hit ?_
          rw [Source.declType, hir]
          refine (hfilled.beside value fun prop hprop => ?_).inhabits
          obtain ⟨field, hfield, rfl⟩ := mem_map.mp hprop
          exact hpayload field hfield
    | scalar | param | option | sequence | mapping | tuple => exact hpayload.elim

theorem Described.variant (h : Described app root decls) {depth : ℕ}
    (hsound : ∀ less ≤ depth, Sound N app root decls less) {it : Instance}
    (hreach : Reaches app.next (mentions root) it) {body : Body} (hbody : body ∈ (app.ir it).bodies)
    {tag wire : String} (htag : isPropertyName app.unicode.alphanumeric tag = true)
    (hwire : isPlainText wire = true) (hmirrors : app.MirrorsTagged tag it.args body)
    {entries : List (String × Value N)}
    (hwrites : WritesInternal app.camel (fun ty => app.Writes depth (ty.subst it.args))
      (fun ty => app.Tagged depth (ty.subst it.args)) tag wire body entries) :
    app.Inhabits root decls (variantType app.unicode app.camel it.args (some tag) wire body)
      (.object entries) := by
  cases body with
  | unit =>
    cases hwrites
    have hnone : Filled (N := N) app.unicode.alphanumeric (app.Declares root decls) [] [] :=
      ⟨nofun, nofun, nofun⟩
    exact (hnone.tagged nofun htag hwire).inhabits
  | named fields =>
    obtain ⟨rest, rfl, hrest, hfree⟩ := hwrites
    obtain ⟨hfilled, -⟩ := h.filled (hsound depth le_rfl) hreach hbody hmirrors hrest
    exact (hfilled.tagged hfree htag hwire).inhabits
  | tuple fields =>
    match fields with
    | [] => exact hwrites.elim
    | [field] =>
      obtain ⟨rest, rfl, hrest⟩ := hwrites
      exact h.payload (fun less hless => hsound less hless.le)
        (fun _ hlater => hreach.step (mem_next (types_subset hbody (mem_singleton_self _)) hlater))
        hmirrors hrest _
    | field :: second :: rest => exact hwrites.elim

theorem Described.model (h : Described app root decls) {depth : ℕ}
    (hsound : ∀ less ≤ depth, Sound N app root decls less) {name : String} {args : List Ty}
    (hreach : Reaches app.next (mentions root) ⟨name, args⟩) {json : Value N}
    (hwrites : app.Writes (depth + 1) (.model name args) json) :
    app.Inhabits root decls (app.declType ⟨name, args⟩).type json := by
  have hmirrors := (h.mirrors _ hreach).2.2
  rw [Source.Writes] at hwrites
  cases hir : app.ir ⟨name, args⟩ with
  | struct body =>
    rw [hir] at hwrites
    exact h.struct (hsound depth le_rfl) hreach hir hwrites
  | enum variants tag renameAll =>
    rw [hir] at hwrites hmirrors
    have hunion : ∀ variant ∈ variants,
        app.Inhabits root decls (variantType app.unicode app.camel args tag
          (variant.wire app.unicode renameAll) variant.body) json →
        app.Inhabits root decls (app.declType ⟨name, args⟩).type json := by
      intro variant hvariant hjson
      rw [Source.declType, hir, TsTypes.declType, if_neg (ne_nil_of_mem hvariant)]
      exact .union (mem_map_of_mem hvariant) hjson
    cases tag with
    | none =>
      obtain ⟨variant, hvariant, hjson⟩ := hwrites
      obtain ⟨hplain, hunit⟩ := hmirrors variant hvariant
      refine hunion variant hvariant ?_
      rw [hunit] at hjson ⊢
      rw [serdeName_eq hplain] at hjson
      cases hjson
      exact .literal hplain.2
    | some tag =>
      obtain ⟨variant, hvariant, entries, rfl, hentries⟩ := hwrites
      obtain ⟨hplain, htagged⟩ := hmirrors.2 variant hvariant
      rw [serdeName_eq hplain] at hentries
      refine hunion variant hvariant (h.variant hsound hreach ?_ hmirrors.1 hplain.2 htagged hentries)
      rw [hir]
      exact mem_map_of_mem hvariant

theorem Described.sound (h : Described app root decls) (depth : ℕ) :
    Sound N app root decls depth := by
  induction depth using Nat.strongRecOn with
  | _ depth ih =>
    intro nullable ty json hreach hplain hwrites
    cases depth with
    | zero =>
      rw [Source.Writes] at hwrites
      exact hwrites.elim
    | succ depth =>
      have hless : ∀ less ≤ depth, Sound N app root decls less :=
        fun less hle => ih less (Nat.lt_succ_of_le hle)
      have hsound := hless depth le_rfl
      cases ty with
      | scalar scalar =>
        rw [Source.Writes] at hwrites
        cases scalar with
        | unit =>
          cases hwrites
          exact Or.inr .null
        | bool =>
          obtain ⟨flag, rfl⟩ := hwrites
          exact Or.inr (.boolean flag)
        | char =>
          obtain ⟨c, rfl⟩ := hwrites
          exact Or.inr (.string _)
        | str | string =>
          obtain ⟨text, rfl⟩ := hwrites
          exact Or.inr (.string text)
        | f32 | f64 =>
          obtain rfl | ⟨n, rfl⟩ := hwrites
          · refine Or.inl ⟨?_, rfl⟩
            rwa [describable, Scalar.isFloat, Bool.not_true, Bool.or_false] at hplain
          · exact Or.inr (.number n)
        | _ =>
          obtain ⟨n, rfl⟩ := hwrites
          exact Or.inr (.number n)
      | param index =>
        rw [Source.Writes] at hwrites
        exact hwrites.elim
      | pointer kind pointee =>
        rw [Source.Writes] at hwrites
        exact hsound nullable pointee json hreach hplain hwrites
      | option inner =>
        rw [Source.Writes] at hwrites
        have hnull : app.Inhabits root decls (tsType app.unicode (.option inner))
            (.null : Value N) := .union (mem_cons_of_mem _ mem_cons_self) .null
        obtain rfl | hinner := hwrites
        · exact Or.inr hnull
        · obtain ⟨-, rfl⟩ | hjson := hsound true inner json hreach hplain hinner
          · exact Or.inr hnull
          · exact Or.inr (.union mem_cons_self hjson)
      | sequence kind item =>
        rw [Source.Writes] at hwrites
        obtain ⟨items, rfl, -, hitems⟩ := hwrites
        have hitem : ∀ it ∈ mentions item, Reaches app.next (mentions root) it := hreach
        exact Or.inr (.array (h.free mem_cons_self) fun value hvalue =>
          hsound.inhabits hitem hplain (hitems value hvalue))
      | mapping kind key value =>
        rw [Source.Writes] at hwrites
        obtain ⟨fields, rfl, hfields⟩ := hwrites
        obtain ⟨hkey, hvalue⟩ := Bool.and_eq_true_iff.mp hplain
        refine Or.inr (.record (h.free (mem_cons_of_mem _ mem_cons_self))
          (isKey_name key hkey) fun field hfield => ?_)
        exact hsound.inhabits (fun it hit => hreach it (mem_append_right _ hit)) hvalue
          (hfields field hfield).2
      | tuple types =>
        rw [Source.Writes] at hwrites
        obtain ⟨items, rfl, hitems⟩ := hwrites
        exact Or.inr (tuple_inhabits (hsound.items hreach (describable_all hplain) hitems))
      | model name args =>
        have hit := hreach ⟨name, args⟩ (mem_singleton_self _)
        exact Or.inr (h.name_inhabits hit (h.model hless hit hwrites))

end

/-- The declarations of a type describe all its values on the wire, if everything the type is made
of mirrors them. -/
theorem wire_inhabits (app : App) (root : Ty) (h : app.Mirrored root) :
    ∃ decls, Settles (fun fuel => app.tsDeclarations fuel ∅ root) decls ∧
      ∀ json : Value N, app.Wire root json →
        app.Inhabits root decls (tsType app.unicode root) json := by
  obtain ⟨decls, hdecls, hwalked⟩ := app.collect_settles ∅
    (show ∀ it ∈ mentionsAll [root], it ∈ app.instances by
      rw [mentionsAll, mentionsAll, append_nil]
      exact h.rooted)
  rw [mentionsAll, mentionsAll, append_nil] at hwalked
  have hcovers := Covers.empty.walk hwalked
  rw [nil_append] at hcovers
  have hdescribed : Described app root decls :=
    { declared := fun it hit => hcovers.lookup (fun first second hfirst hsecond href =>
        spelled_distinct h.apart hfirst hsecond ((tsRef_eq_iff first second).mp href)) hit
      mirrors := h.mirrors
      distinct := fun it hit => app.distinct it (hit.mem h.rooted app.closed) }
  refine ⟨decls, ?_, fun json ⟨depth, hjson⟩ => ?_⟩
  · have hcollect : ∀ fuel, app.collect fuel [root] ∅ = app.tsDeclarations fuel ∅ root := by
      intro fuel
      exact bind_pure (app.tsDeclarations fuel ∅ root)
    simpa only [hcollect] using hdecls
  · exact (hdescribed.sound depth).inhabits (fun it hit => .root hit) h.plain hjson

end

example : userMessage.tsRef chatApp.unicode = "MessageUser" := by decide +kernel

/-- `Message<User>`, in the program where another item has its name. -/
theorem wire_inhabits_userMessage :
    ∃ decls, Settles (fun fuel => chatApp.tsDeclarations fuel ∅ (.model "Message" [.model "User" []]))
        decls ∧
      ∀ json : Value ℕ, chatApp.Wire (.model "Message" [.model "User" []]) json →
        chatApp.Inhabits (.model "Message" [.model "User" []]) decls
          (tsType chatApp.unicode (.model "Message" [.model "User" []])) json := by
  have hreached : ∀ it, Reaches chatApp.next [userMessage] it →
      it ∈ [userMessage, ⟨"User", []⟩] := by
    intro it hit
    refine hit.mem (fun it hit => mem_cons.mpr (Or.inl (mem_singleton.mp hit))) ?_
    intro it hit later hlater
    obtain rfl | hit := mem_cons.mp hit
    · have huser : later ∈ [(⟨"User", []⟩ : Instance), ⟨"User", []⟩] := hlater
      exact mem_cons_of_mem _ (by simpa using huser)
    · cases mem_singleton.mp hit
      cases hlater
  refine wire_inhabits chatApp (.model "Message" [.model "User" []]) ⟨?_, rfl, ?_, ?_⟩
  · intro it hit
    cases mem_singleton.mp hit
    exact mem_cons_self
  · intro it hit
    have hmem := hreached it hit
    simp only [mem_cons, not_mem_nil, or_false] at hmem
    obtain rfl | rfl := hmem
    · refine ⟨by decide +kernel, forall_mem_singleton.mpr rfl,
        forall_mem_singleton.mpr ⟨by decide +kernel, by decide +kernel⟩⟩
    · refine ⟨by decide +kernel, forall_mem_singleton.mpr rfl,
        forall_mem_singleton.mpr ⟨by decide +kernel, by decide +kernel⟩⟩
  · intro first second hfirst hsecond hargs hspelling
    have hfirst := hreached first hfirst
    have hsecond := hreached second hsecond
    simp only [mem_cons, not_mem_nil, or_false] at hfirst hsecond
    obtain rfl | rfl := hfirst
    · obtain rfl | rfl := hsecond
      · rfl
      · exact absurd hspelling (by decide +kernel)
    · exact absurd rfl hargs

def userIds : Source where
  unicode := ⟨fun _ => false, fun _ => false⟩
  camel := false
  model name := if name = "UserId" then some ⟨0, .struct (.tuple [.plain "0" (.scalar .string)])⟩ else none

def userIdApp : App where
  toSource := userIds
  router := ⟨[⟨.model "UserId" [], .scalar .unit⟩], [], [], [], []⟩
  instances := [⟨"UserId", []⟩]
  defined := forall_mem_singleton.mpr ⟨_, rfl, rfl⟩
  distinct := forall_mem_singleton.mpr (forall_mem_singleton.mpr nodup_nil)
  rooted := forall_mem_cons.mpr
    ⟨fun _ hit => hit, forall_mem_singleton.mpr nofun⟩
  closed := forall_mem_singleton.mpr nofun

/-- serde writes a newtype as what it holds, and it is declared as a list of that. -/
theorem newtype_not_described : userIdApp.decl ⟨"UserId", []⟩ = "export type UserId = [string];" ∧
      ∃ json : Value ℕ, userIdApp.Wire (.model "UserId" []) json ∧
        ∀ decls, ¬userIdApp.Inhabits (.model "UserId" []) decls
          (tsType userIdApp.unicode (.model "UserId" [])) json := by
  refine ⟨by decide +kernel, .string "u1", ⟨2, ?_⟩, fun decls h => ?_⟩
  · rw [Source.Writes]
    change userIdApp.Writes 1 (.scalar .string) _
    rw [Source.Writes]
    exact ⟨"u1", rfl⟩
  · obtain hname | ⟨type, ⟨it, hit, -, -, rfl⟩, h⟩ := h.of_string
    · exact absurd hname (by decide +kernel)
    · have hmem : it ∈ userIdApp.instances := hit.mem (fun _ h => h) userIdApp.closed
      cases mem_singleton.mp hmem
      cases h

end Stakit.TsTypes
