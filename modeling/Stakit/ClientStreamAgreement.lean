import Stakit.ClientStreams

set_option autoImplicit false

namespace Stakit.ClientStreams
open JsonText SerdeJson EntryMaps List

section
variable {N : Type}

mutual

/-- The value as JavaScript would hold it. -/
def held : Value N → JsValue N
  | .null => .null
  | .bool flag => .bool flag
  | .number n => .number n
  | .string text => .string (points text)
  | .array items => .array (heldItems items)
  | .object fields => .object (heldFields fields)

def heldItems : List (Value N) → List (JsValue N)
  | [] => []
  | item :: items => held item :: heldItems items

def heldFields : List (String × Value N) → List (List ℕ × JsValue N)
  | [] => []
  | (name, value) :: fields => (points name, held value) :: heldFields fields

end

variable (number : List Char → Option N) (double : List Char → N)

/-- What is left of the value after repeated members has only numbers both read as the same
one, and no object serde takes for the value of a text. -/
inductive Alike : Json → Prop
  | null : Alike .null
  | bool (flag : Bool) : Alike (.bool flag)
  | number (token : List Char) (h : number token = some (double token)) : Alike (.number token)
  | string (points : List ℕ) : Alike (.string points)
  | array (items : List Json) (h : ∀ item ∈ items, Alike item) : Alike (.array items)
  | object (fields : Fields) (hplain : isWrapper fields = false)
      (h : ∀ name value, last fields name = some value → Alike value) : Alike (.object fields)

/-- serde reads the object, or the text it stands for, as one of type `next`. -/
def ReadsNext (fields : Fields) : Prop :=
  ∃ entries, ofTree number maxDepth (.object fields) = some (.object entries) ∧
    entries.lookup "type" = some (.string "next")

/-- A frame of a type neither client knows. -/
def Unknown (fields : Fields) : Prop :=
  ∃ kind, property fields "type" = some (.string kind) ∧ kind ≠ [] ∧ kind ≠ points "next" ∧
    kind ≠ points "error" ∧ kind ≠ points "end"

/-- `type` and `data` once, no `error`; data that serde reads, as JavaScript does. -/
def ItemFrame (fields : Fields) : Prop :=
  values fields "type" = [.string (points "next")] ∧ values fields "error" = [] ∧
    ∃ data, values fields "data" = [data] ∧ (ofTree number maxDepth data).isSome = true ∧
      Alike number double data

/-- A `next` frame whose type is read from a text, or without data or with an error; `type` as
a string or `data` does not stand exactly once either. -/
def RefusedNext (fields : Fields) : Prop :=
  ReadsNext number fields ∧
    (property fields "type" ≠ some (.string (points "next")) ∨ values fields "data" = [] ∨
      values fields "error" ≠ []) ∧
    ¬ (values fields "type" = [.string (points "next")] ∧ (values fields "data").length = 1)

/-- `type` and `error` once, no `data`; the error an object that reads as an error body
and whose `fields` are not `null`. -/
def ErrorFrame (fields : Fields) : Prop :=
  values fields "type" = [.string (points "error")] ∧ values fields "data" = [] ∧
    ∃ inner, values fields "error" = [.object inner] ∧
      (readErrorBody number (.object inner)).isSome = true ∧ property inner "fields" ≠ some .null

/-- `type` once, neither `data` nor `error`. -/
def EndFrame (fields : Fields) : Prop :=
  values fields "type" = [.string (points "end")] ∧ values fields "data" = [] ∧
    values fields "error" = []

/-- The frames both clients take the same way. -/
def Shared (fields : Fields) : Prop :=
  Unknown fields ∨ RefusedNext number fields ∨ buffers number maxDepth (.object fields) = true ∧
    (ItemFrame number double fields ∨ ErrorFrame number fields ∨ EndFrame fields)

def Understood (line : List Char) : Prop :=
  blank line = true ∨ ∃ fields, parse line = some (.object fields) ∧ Shared number double fields

/-- The stream goes on after this line. -/
def Continues (line : List Char) : Prop :=
  blank line = true ∨ ∃ fields, parse line = some (.object fields) ∧
    (Unknown fields ∨ ItemFrame number double fields)

end

def Ignored (line : List Char) : Prop :=
  blank line = true ∨ ∃ fields, parse line = some (.object fields) ∧ Unknown fields

section
variable {N : Type} {number : List Char → Option N} {double : List Char → N}

theorem heldFields_eq (fields : List (String × Value N)) :
    heldFields fields = fields.map fun field => (points field.1, held field.2) := by
  induction fields with
  | nil => rfl
  | cons field fields ih => rw [map_cons, ← ih, heldFields]

theorem jsFields_eq (fields : Fields) :
    jsFields double fields = fields.map fun field => (field.1, jsValue double field.2) := by
  induction fields with
  | nil => rfl
  | cons field fields ih => rw [map_cons, ← ih, jsFields]

theorem held_object (entries : Entries String (Value N)) :
    held (.object (sortedMap entries)) = .object (sortedMap (heldFields entries)) := by
  rw [held, heldFields_eq, heldFields_eq, sortedMap_map entries points_strictMono held]

/-- What the members of an object are read as. -/
abbrev ReadFields (number : List Char → Option N) (room : ℕ) :
    Fields → List (String × Value N) → Prop :=
  List.Forall₂ fun field entry =>
    stringOf field.1 = some entry.1 ∧ ofTree number room field.2 = some entry.2

theorem ofTree_fields {room : ℕ} {fields : Fields} {value : Value N}
    (hplain : isWrapper fields = false)
    (h : ofTree number (room + 1) (.object fields) = some value) :
    ∃ entries, ReadFields number room fields entries ∧ value = .object (sortedMap entries) := by
  rw [ofTree_object number room hplain] at h
  obtain ⟨entries, hentries, rfl⟩ := Option.map_eq_some_iff.mp h
  refine ⟨entries, (mapM_forall₂ _ fields entries hentries).imp fun field entry hread => ?_, rfl⟩
  obtain ⟨name, hname, hread⟩ := Option.bind_eq_some_iff.mp hread
  obtain ⟨value, hvalue, rfl⟩ := Option.map_eq_some_iff.mp hread
  exact ⟨hname, hvalue⟩

theorem last_read {room : ℕ} {fields : Fields} {entries : List (String × Value N)}
    (h : ReadFields number room fields entries) (name : String) :
    Option.Rel (fun tree value => ofTree number room tree = some value)
      (last fields (points name)) (last entries name) := by
  refine last_forall₂ (h.imp fun field entry hread => ⟨?_, hread.2⟩)
  rw [stringOf_eq_some hread.1]
  exact points_strictMono.injective.eq_iff

theorem heldItems_eq_iff {room : ℕ} {items : List Json} {values : List (Value N)}
    (h : List.Forall₂ (fun tree value => ofTree number room tree = some value) items values)
    (heach : ∀ tree value, ofTree number room tree = some value →
      (held value = jsValue double tree ↔ Alike number double tree)) :
    heldItems values = jsItems double items ↔ ∀ item ∈ items, Alike number double item := by
  induction h with
  | nil => exact iff_of_true rfl nofun
  | cons hread _ ih =>
    rw [heldItems, jsItems, List.cons.injEq, heach _ _ hread, ih, forall_mem_cons]

theorem heldFields_eq_iff {room : ℕ} {fields : Fields} {entries : List (String × Value N)}
    (h : ReadFields number room fields entries)
    (heach : ∀ tree value, ofTree number room tree = some value →
      (held value = jsValue double tree ↔ Alike number double tree)) :
    sortedMap (heldFields entries) = sortedMap (jsFields double fields) ↔
      ∀ name value, last fields name = some value → Alike number double value := by
  have hlast : ∀ name, last (heldFields entries) name = last (jsFields double fields) name ↔
      ∀ value, last fields name = some value → Alike number double value := by
    intro name
    have hrel : Option.Rel (fun tree js => ∃ value, ofTree number room tree = some value ∧
        held value = js) (last fields name) (last (heldFields entries) name) := by
      rw [heldFields_eq]
      refine last_forall₂ (forall₂_map_right_iff.mpr (h.imp fun field entry hread => ?_))
      exact ⟨by rw [stringOf_eq_some hread.1], entry.2, hread.2, rfl⟩
    rw [jsFields_eq, last_map fields (fun _ => jsValue double)]
    generalize last (heldFields entries) name = js at hrel ⊢
    generalize last fields name = found at hrel ⊢
    cases hrel with
    | none => exact iff_of_true rfl nofun
    | some hread =>
      obtain ⟨value, hvalue, rfl⟩ := hread
      rw [Option.map_some, Option.some.injEq, heach _ _ hvalue]
      exact ⟨fun h value heq => Option.some.inj heq ▸ h, fun h => h _ rfl⟩
  rw [← forall_congr' hlast]
  refine ⟨fun heq name => ?_, sortedMap_ext _ _⟩
  rw [← lookup_sortedMap, heq, lookup_sortedMap]

theorem held_wrapper {fields : Fields} {inner : List Char} {value : Value N}
    (hraw : isWrapper fields = true) (hinner : wrapped fields = some inner)
    (h : fromText number inner = some value) : held value ≠ jsValue double (.object fields) := by
  obtain ⟨name, ps, rfl, _⟩ := wrapped_eq_some hinner
  have hname : name = points rawKey := stringOf_eq_some (of_decide_eq_true hraw)
  intro heq
  cases value with
  | null | bool | number | string | array => cases heq
  | object entries =>
    have hfields : heldFields entries = [(name, .string ps)] := JsValue.object.inj heq
    rw [heldFields_eq] at hfields
    obtain ⟨entry, rfl, hentry⟩ := map_eq_singleton_iff.mp hfields
    obtain hnil | ⟨key, hkey, hother⟩ := fromText_keys number h
    · cases hnil
    · rw [map_singleton, mem_singleton] at hkey
      refine hother (points_strictMono.injective ?_)
      rw [hkey, ← hname]
      exact congrArg Prod.fst hentry

theorem held_eq_iff (room : ℕ) (tree : Json) (value : Value N)
    (h : ofTree number room tree = some value) :
    held value = jsValue double tree ↔ Alike number double tree := by
  cases tree with
  | null =>
    rw [ofTree_null] at h
    cases h
    exact iff_of_true rfl .null
  | bool flag =>
    rw [ofTree_bool] at h
    cases h
    exact iff_of_true rfl (.bool flag)
  | string ps =>
    rw [ofTree_string] at h
    obtain ⟨text, htext, rfl⟩ := Option.map_eq_some_iff.mp h
    rw [held, jsValue, stringOf_eq_some htext]
    exact iff_of_true rfl (.string _)
  | number token =>
    rw [ofTree_number] at h
    obtain ⟨n, hn, rfl⟩ := Option.map_eq_some_iff.mp h
    rw [held, jsValue, JsValue.number.injEq]
    refine ⟨fun heq => .number token (heq ▸ hn), fun halike => ?_⟩
    cases halike with
    | number _ hsame => exact Option.some.inj (hn.symm.trans hsame)
  | array items =>
    cases room with
    | zero => cases h
    | succ room =>
      rw [ofTree_array] at h
      obtain ⟨values, hvalues, rfl⟩ := Option.map_eq_some_iff.mp h
      rw [held, jsValue, JsValue.array.injEq,
        heldItems_eq_iff (mapM_forall₂ _ _ _ hvalues) (held_eq_iff room)]
      refine ⟨.array items, fun halike => ?_⟩
      cases halike with
      | array _ hall => exact hall
  | object fields =>
    cases room with
    | zero => cases h
    | succ room =>
      cases hraw : isWrapper fields with
      | true =>
        rw [ofTree_wrapper number room hraw] at h
        obtain ⟨inner, hinner, hread⟩ := Option.bind_eq_some_iff.mp h
        refine iff_of_false (held_wrapper hraw hinner hread) fun halike => ?_
        cases halike with
        | object _ hplain => exact Bool.false_ne_true (hplain.symm.trans hraw)
      | false =>
        obtain ⟨entries, hread, rfl⟩ := ofTree_fields hraw h
        rw [held_object, jsValue, JsValue.object.injEq, heldFields_eq_iff hread (held_eq_iff room)]
        refine ⟨.object fields hraw, fun halike => ?_⟩
        cases halike with
        | object _ _ hall => exact hall
termination_by room

theorem buffers_of_ofTree (room : ℕ) (tree : Json) (value : Value N)
    (h : ofTree number room tree = some value) : buffers number room tree = true := by
  cases tree with
  | null | bool flag => cases room <;> rfl
  | string ps =>
    rw [ofTree_string] at h
    obtain ⟨text, htext, rfl⟩ := Option.map_eq_some_iff.mp h
    rw [buffers, htext]
    rfl
  | number token =>
    rw [ofTree_number] at h
    obtain ⟨n, hn, rfl⟩ := Option.map_eq_some_iff.mp h
    rw [buffers, hn]
    rfl
  | array items =>
    cases room with
    | zero => cases h
    | succ room =>
      rw [ofTree_array] at h
      obtain ⟨values, hvalues, rfl⟩ := Option.map_eq_some_iff.mp h
      refine all_eq_true.mpr fun item hitem => ?_
      obtain ⟨value, hvalue⟩ := mapM_mem _ items values hvalues item hitem
      exact buffers_of_ofTree room item value hvalue
  | object fields =>
    cases room with
    | zero => cases h
    | succ room =>
      cases hraw : isWrapper fields with
      | true =>
        rw [ofTree_wrapper number room hraw] at h
        obtain ⟨inner, hinner, _⟩ := Option.bind_eq_some_iff.mp h
        obtain ⟨name, ps, rfl, text, htext, _⟩ := wrapped_eq_some hinner
        have hname : stringOf name = some rawKey := of_decide_eq_true hraw
        simp [buffers, hname, htext]
      | false =>
        rw [ofTree_object number room hraw] at h
        obtain ⟨entries, hentries, rfl⟩ := Option.map_eq_some_iff.mp h
        refine all_eq_true.mpr fun field hfield => ?_
        obtain ⟨entry, hread⟩ := mapM_mem _ fields entries hentries field hfield
        obtain ⟨name, hname, hread⟩ := Option.bind_eq_some_iff.mp hread
        obtain ⟨value, hvalue, rfl⟩ := Option.map_eq_some_iff.mp hread
        rw [hname, buffers_of_ofTree room field.2 value hvalue]
        rfl
termination_by room

end

variable (fields : Fields) (kind : List ℕ) {name : String} (value : Json)

theorem property_eq (name : String) : property fields name = (values fields name).getLast? := by
  unfold property values
  induction fields with
  | nil => rfl
  | cons field fields ih =>
    rw [last_cons, ih, filter_cons]
    by_cases h : field.1 = points name
    · rw [if_pos h.symm, if_pos (decide_eq_true h), map_cons, List.getLast?_cons]
      generalize List.getLast? _ = found
      cases found <;> rfl
    · rw [if_neg (Ne.symm h), if_neg (by simpa using h), Option.or_none]

theorem onceIn_property {value : Option Json} (h : onceIn fields name = some value) :
    property fields name = value := by
  unfold onceIn at h
  rw [property_eq]
  split at h
  · next hvalues => cases h; rw [hvalues]; rfl
  · next hvalues => cases h; rw [hvalues]; rfl
  · cases h

theorem asString_isText {text : String} (h : asString value = some text) : isText value = true := by
  cases value with
  | string points => rfl
  | null | bool | number | array | object => cases h

theorem asStrings_isTexts {texts : List String} (h : asStrings value = some texts) :
    isTexts value = true := by
  cases value with
  | array items =>
    unfold asStrings at h
    unfold isTexts
    rw [all_eq_true]
    intro item hitem
    obtain ⟨text, htext⟩ := mapM_mem asString items texts h item hitem
    exact asString_isText item htext
  | null | bool | number | string | object => cases h

theorem asFields_everyTexts {messages : Option (Entries String (List String))}
    (h : asFields value = some messages) (hnull : value ≠ .null) : everyTexts value = true := by
  cases value with
  | object fields =>
    unfold asFields at h
    obtain ⟨entries, hentries, _⟩ := Option.map_eq_some_iff.mp h
    have htexts : ∀ field ∈ fields, isTexts field.2 = true := by
      intro field hfield
      obtain ⟨entry, hentry⟩ := mapM_mem _ fields entries hentries field hfield
      obtain ⟨name, _, hentry⟩ := Option.bind_eq_some_iff.mp hentry
      obtain ⟨texts, hread, _⟩ := Option.map_eq_some_iff.mp hentry
      exact asStrings_isTexts field.2 hread
    unfold everyTexts
    rw [all_eq_true]
    intro field hfield
    obtain ⟨other, hother, hkey⟩ :=
      mem_map.mp (key_mem_sortedMap (mem_map_of_mem (f := Prod.fst) hfield))
    have hlast : last fields field.1 = some other.2 := by
      rw [← lookup_sortedMap, ← hkey]
      exact lookup_of_mem (sorted_sortedMap fields) hother
    have hin := mem_reverse.mp (mem_of_lookup hlast)
    rw [hlast]
    exact htexts (field.1, other.2) hin
  | null => exact absurd rfl hnull
  | bool | number | string | array => cases h

/-- Plain digits up to a status code's size are an integer. -/
def Integers {N : Type} (double : List Char → N) (isInteger : N → Bool) : Prop :=
  ∀ token n, readUnsigned 65535 token = some n → isInteger (double token) = true

section
variable {N : Type} {number : List Char → Option N} {double : List Char → N}
  {isInteger : N → Bool}

theorem readErrorBody_isErrorBody (hint : Integers double isInteger)
    {fields : Fields} (h : (readErrorBody number (.object fields)).isSome = true)
    (hnull : property fields "fields" ≠ some .null) :
    isErrorBody double isInteger (.object fields) = true := by
  obtain ⟨body, hbody⟩ := Option.isSome_iff_exists.mp h
  unfold readErrorBody at hbody
  obtain ⟨code, hcode, hbody⟩ := Option.bind_eq_some_iff.mp hbody
  obtain ⟨kind, hkind, hbody⟩ := Option.bind_eq_some_iff.mp hbody
  obtain ⟨message, hmessage, hbody⟩ := Option.bind_eq_some_iff.mp hbody
  obtain ⟨messages, hmessages, hbody⟩ := Option.bind_eq_some_iff.mp hbody
  obtain ⟨_, _, hbody⟩ := Option.bind_eq_some_iff.mp hbody
  unfold errorBody at hbody
  obtain ⟨status, hstatus, hbody⟩ := Option.bind_eq_some_iff.mp hbody
  obtain ⟨name, hname, hbody⟩ := Option.bind_eq_some_iff.mp hbody
  obtain ⟨text, htext, hbody⟩ := Option.bind_eq_some_iff.mp hbody
  obtain ⟨entries, hentries, _⟩ := Option.bind_eq_some_iff.mp hbody
  have hfields := onceIn_property fields hmessages
  obtain ⟨codeTree, rfl, hstatus⟩ := Option.bind_eq_some_iff.mp hstatus
  obtain ⟨messageTree, rfl, htext⟩ := Option.bind_eq_some_iff.mp htext
  unfold isErrorBody
  dsimp only
  rw [onceIn_property fields hcode, onceIn_property fields hmessage,
    onceIn_property fields hkind, hfields]
  have hinteger : (some codeTree).any (isCode double isInteger) = true := by
    cases codeTree with
    | number token => exact hint token status hstatus
    | null | bool | string | array | object => cases hstatus
  have hkindText : kind.all isText = true := by
    cases kind with
    | none => rfl
    | some tree => exact asString_isText tree hname
  have htexts : messages.all everyTexts = true := by
    cases messages with
    | none => rfl
    | some tree =>
      refine asFields_everyTexts tree hentries ?_
      rintro rfl
      exact hnull hfields
  have hmessageText : (some messageTree).any isText = true := asString_isText messageTree htext
  rw [hinteger, hmessageText, hkindText, htexts]
  rfl

theorem isErrorBody_object {value : Json}
    (h : isErrorBody double isInteger value = true) :
    ∃ inner, value = .object inner ∧ property inner "fields" ≠ some .null := by
  cases value with
  | object inner =>
    refine ⟨inner, rfl, fun hnull => ?_⟩
    unfold isErrorBody at h
    dsimp only at h
    rw [hnull] at h
    simp [everyTexts] at h
  | null | bool | number | string | array => cases h

variable (number) in
/-- What the Rust client makes of an object that is no frame. -/
def refused (fields : Fields) : Line (JsValue N) :=
  undecodable (ofTree number maxDepth (.object fields))

variable (number) in
/-- What the Rust client makes of an object, its items as JavaScript would hold them. -/
def rustFrame (fields : Fields) : Line (JsValue N) :=
  match (if buffers number maxDepth (.object fields) then frameOf number (.object fields)
    else none) with
  | some (.next data) => .item (held data)
  | some (.error _) => .last .application
  | some .finish => .last .clean
  | none => refused number fields

theorem refused_next (h : ReadsNext number fields) : refused number fields = .last .failure := by
  obtain ⟨entries, hread, htype⟩ := h
  unfold refused undecodable
  rw [hread]
  dsimp only
  rw [htype]
  exact if_pos rfl

theorem refused_skip (h : ¬ ReadsNext number fields) : refused number fields = .skip := by
  unfold refused undecodable
  split
  · next entries hread =>
    split
    · next tag htype =>
      refine if_neg ?_
      rintro rfl
      exact h ⟨entries, hread, htype⟩
    · rfl
  · rfl

theorem property_single (h : values fields name = [value]) : property fields name = some value := by
  rw [property_eq, h]
  rfl

variable (name) in
theorem property_none_iff : property fields name = none ↔ values fields name = [] := by
  rw [property_eq]
  exact List.getLast?_eq_none_iff

variable (name) in
theorem onceIn_bind : (onceIn fields name).bind id = some value ↔ values fields name = [value] := by
  unfold onceIn
  constructor
  · intro h
    split at h
    · cases h
    · next hvalues => cases h; exact hvalues
    · cases h
  · intro h
    rw [h]
    rfl

theorem readsNext_type (h : ReadsNext number fields) {kind : List ℕ}
    (hkind : property fields "type" = some (.string kind)) : kind = points "next" := by
  obtain ⟨entries, hread, htype⟩ := h
  cases hraw : isWrapper fields with
  | true =>
    rw [maxDepth, ofTree_wrapper number 126 hraw] at hread
    obtain ⟨inner, hinner, _⟩ := Option.bind_eq_some_iff.mp hread
    obtain ⟨name, ps, rfl, _⟩ := wrapped_eq_some hinner
    have hname : name = points rawKey := stringOf_eq_some (of_decide_eq_true hraw)
    subst hname
    cases hkind
  | false =>
    obtain ⟨read, hfields, heq⟩ := ofTree_fields hraw hread
    cases heq
    have hrel := last_read hfields "type"
    rw [← lookup_sortedMap read, htype] at hrel
    unfold property at hkind
    rw [hkind] at hrel
    cases hrel with
    | some htree =>
      rw [ofTree_string] at htree
      obtain ⟨text, htext, heq⟩ := Option.map_eq_some_iff.mp htree
      cases heq
      exact stringOf_eq_some htext

theorem readsNext_of_type (hkind : property fields "type" = some (.string (points "next")))
    {value : Value N} (h : ofTree number maxDepth (.object fields) = some value) :
    ReadsNext number fields ∧ isWrapper fields = false := by
  cases hraw : isWrapper fields with
  | true =>
    rw [maxDepth, ofTree_wrapper number 126 hraw] at h
    obtain ⟨inner, hinner, _⟩ := Option.bind_eq_some_iff.mp h
    obtain ⟨name, ps, rfl, _⟩ := wrapped_eq_some hinner
    have hname : name = points rawKey := stringOf_eq_some (of_decide_eq_true hraw)
    subst hname
    cases hkind
  | false =>
    obtain ⟨read, hfields, rfl⟩ := ofTree_fields hraw h
    have hrel := last_read hfields "type"
    unfold property at hkind
    rw [hkind, ← lookup_sortedMap read] at hrel
    refine ⟨⟨_, h, ?_⟩, rfl⟩
    generalize (sortedMap read).lookup "type" = found at hrel ⊢
    cases hrel with
    | some htree =>
      rw [ofTree_string, stringOf_points] at htree
      exact htree.symm ▸ rfl

theorem data_of_readsNext (hkind : property fields "type" = some (.string (points "next")))
    (h : ReadsNext number fields) {data : Json} (hdata : values fields "data" = [data]) :
    ∃ value, ofTree number maxDepth data = some value := by
  obtain ⟨entries, hread, _⟩ := h
  obtain ⟨read, hfields, _⟩ := ofTree_fields (readsNext_of_type fields hkind hread).2 hread
  have hrel := last_read hfields "data"
  have hlast : last fields (points "data") = some data := property_single fields data hdata
  rw [hlast] at hrel
  generalize last read "data" = found at hrel
  cases hrel with
  | some hvalue => exact ⟨_, ofTree_room number 126 maxDepth data _ (by decide) hvalue⟩

theorem frameOf_single {tag : List ℕ} (h : values fields "type" = [.string tag]) :
    frameOf number (.object fields) =
      readVariant number tag ((onceIn fields "data").bind id) ((onceIn fields "error").bind id) := by
  unfold frameOf
  dsimp only
  rw [h]

theorem frameOf_not_single (h : ∀ tag, values fields "type" ≠ [.string tag]) :
    frameOf number (.object fields) = none := by
  unfold frameOf
  dsimp only
  split
  · next tag hvalues => exact absurd hvalues (h tag)
  · rfl

theorem rustFrame_refused
    (h : buffers number maxDepth (.object fields) = true → frameOf number (.object fields) = none) :
    rustFrame number fields = refused number fields := by
  unfold rustFrame
  by_cases hbuffers : buffers number maxDepth (.object fields) = true
  · rw [if_pos hbuffers, h hbuffers]
  · rw [if_neg hbuffers]

theorem frameOf_other {kind : List ℕ} (hkind : property fields "type" = some (.string kind))
    (h : values fields "type" = [.string kind] → frameOf number (.object fields) = none) :
    frameOf number (.object fields) = none := by
  by_cases hsingle : values fields "type" = [.string kind]
  · exact h hsingle
  · refine frameOf_not_single fields fun tag htag => hsingle ?_
    cases hkind.symm.trans (property_single fields _ htag)
    exact htag

theorem rustFrame_unknown (hkind : property fields "type" = some (.string kind))
    (hnext : kind ≠ points "next") (herror : kind ≠ points "error") (hend : kind ≠ points "end") :
    rustFrame number fields = .skip := by
  rw [rustFrame_refused, refused_skip]
  · exact fun h => hnext (readsNext_type fields h hkind)
  · refine fun _ => frameOf_other fields hkind fun hsingle => ?_
    rw [frameOf_single fields hsingle]
    unfold readVariant
    rw [if_neg hnext, if_neg herror, if_neg hend]

theorem rustFrame_untyped (h : ∀ kind, property fields "type" = some (.string kind) → kind = []) :
    rustFrame number fields = refused number fields := by
  refine rustFrame_refused fields fun _ => ?_
  by_cases hkinds : ∃ kind, property fields "type" = some (.string kind)
  · obtain ⟨kind, hkind⟩ := hkinds
    cases h kind hkind
    exact frameOf_other fields hkind fun hsingle => (frameOf_single fields hsingle).trans rfl
  · exact frameOf_not_single fields fun tag htag => hkinds ⟨tag, property_single fields _ htag⟩

variable (number) in
def Taken (fields : Fields) (data : Json) (value : Value N) : Prop :=
  buffers number maxDepth (.object fields) = true ∧
    values fields "type" = [.string (points "next")] ∧ values fields "data" = [data] ∧
    ofTree number maxDepth data = some value

theorem rustFrame_next (hkind : property fields "type" = some (.string (points "next"))) :
    (∃ data value, Taken number fields data value ∧ rustFrame number fields = .item (held value)) ∨
      (∀ data value, ¬ Taken number fields data value) ∧
        rustFrame number fields = refused number fields := by
  by_cases htaken : ∃ data value, Taken number fields data value
  · obtain ⟨data, value, hbuffers, htype, hdata, hvalue⟩ := htaken
    refine .inl ⟨data, value, ⟨hbuffers, htype, hdata, hvalue⟩, ?_⟩
    unfold rustFrame
    rw [if_pos hbuffers, frameOf_single fields htype, (onceIn_bind fields "data" data).mpr hdata]
    unfold readVariant
    rw [if_pos rfl, Option.bind_some, hvalue]
    rfl
  · refine .inr ⟨fun data value h => htaken ⟨data, value, h⟩, ?_⟩
    refine rustFrame_refused fields fun hbuffers => frameOf_other fields hkind fun htype => ?_
    rw [frameOf_single fields htype]
    unfold readVariant
    rw [if_pos rfl]
    cases hdata : (onceIn fields "data").bind id with
    | none => rfl
    | some data =>
      rw [Option.bind_some]
      cases hvalue : ofTree number maxDepth data with
      | none => rfl
      | some value =>
        have hvalues := (onceIn_bind fields "data" data).mp hdata
        exact absurd ⟨data, value, hbuffers, htype, hvalues, hvalue⟩ htaken

theorem rustFrame_error (hkind : property fields "type" = some (.string (points "error"))) :
    (∃ error, values fields "type" = [.string (points "error")] ∧
      values fields "error" = [error] ∧ buffers number maxDepth (.object fields) = true ∧
      (readErrorBody number error).isSome = true ∧ rustFrame number fields = .last .application) ∨
    (∀ error, values fields "type" = [.string (points "error")] → values fields "error" = [error] →
      buffers number maxDepth (.object fields) = true → readErrorBody number error = none) ∧
      rustFrame number fields = .skip := by
  have hne : points "error" ≠ points "next" := by decide
  by_cases htaken : ∃ error, values fields "type" = [.string (points "error")] ∧
      values fields "error" = [error] ∧ buffers number maxDepth (.object fields) = true ∧
      (readErrorBody number error).isSome = true
  · obtain ⟨error, htype, herror, hbuffers, hbody⟩ := htaken
    refine .inl ⟨error, htype, herror, hbuffers, hbody, ?_⟩
    obtain ⟨body, hbody⟩ := Option.isSome_iff_exists.mp hbody
    unfold rustFrame
    rw [if_pos hbuffers, frameOf_single fields htype, (onceIn_bind fields "error" error).mpr herror]
    unfold readVariant
    rw [if_neg hne, if_pos rfl, Option.bind_some, hbody]
    rfl
  · have hnone : ∀ error, values fields "type" = [.string (points "error")] →
        values fields "error" = [error] → buffers number maxDepth (.object fields) = true →
        readErrorBody number error = none := by
      intro error htype herror hbuffers
      by_contra hsome
      exact htaken ⟨error, htype, herror, hbuffers, Option.isSome_iff_ne_none.mpr hsome⟩
    refine .inr ⟨hnone, ?_⟩
    rw [rustFrame_refused, refused_skip]
    · exact fun h => hne (readsNext_type fields h hkind)
    · refine fun hbuffers => frameOf_other fields hkind fun htype => ?_
      rw [frameOf_single fields htype]
      unfold readVariant
      rw [if_neg hne, if_pos rfl]
      cases herror : (onceIn fields "error").bind id with
      | none => rfl
      | some error =>
        rw [Option.bind_some, hnone error htype ((onceIn_bind fields "error" error).mp herror)
          hbuffers]
        rfl

theorem rustFrame_end (hkind : property fields "type" = some (.string (points "end"))) :
    (values fields "type" = [.string (points "end")] ∧
      buffers number maxDepth (.object fields) = true ∧ rustFrame number fields = .last .clean) ∨
    ¬ (values fields "type" = [.string (points "end")] ∧
      buffers number maxDepth (.object fields) = true) ∧ rustFrame number fields = .skip := by
  have hvariant : ∀ data error,
      readVariant number (points "end") data error = some .finish := fun _ _ => rfl
  by_cases htaken : values fields "type" = [.string (points "end")] ∧
      buffers number maxDepth (.object fields) = true
  · refine .inl ⟨htaken.1, htaken.2, ?_⟩
    unfold rustFrame
    rw [if_pos htaken.2, frameOf_single fields htaken.1, hvariant]
  · refine .inr ⟨htaken, ?_⟩
    rw [rustFrame_refused, refused_skip]
    · exact fun h => absurd (readsNext_type fields h hkind) (by decide)
    · exact fun hbuffers => frameOf_other fields hkind fun htype => absurd ⟨htype, hbuffers⟩ htaken

variable {fields : Fields}

theorem tsFrame_unknown (h : Unknown fields) : tsFrame double isInteger fields = .skip := by
  obtain ⟨kind, hkind, hempty, hnext, herror, hend⟩ := h
  have hframe : isWireFrame double isInteger fields kind = true := by
    unfold isWireFrame
    rw [if_neg hempty, if_neg hnext, if_neg herror, if_neg hend]
  unfold tsFrame
  rw [hkind]
  dsimp only
  rw [if_pos hframe]
  unfold frameLine
  rw [if_neg hnext, if_neg herror, if_neg hend]

theorem tsFrame_untyped (h : ∀ kind, property fields "type" = some (.string kind) → kind = []) :
    tsFrame double isInteger fields = .last .failure := by
  unfold tsFrame
  split
  · next kind hkind =>
    have hframe : isWireFrame double isInteger fields kind = false := by
      unfold isWireFrame
      rw [if_pos (h kind hkind)]
    rw [hframe]
    rfl
  · rfl

theorem tsFrame_of_kind {kind : List ℕ} {c : Prop} [Decidable c]
    (hkind : property fields "type" = some (.string kind))
    (hframe : isWireFrame double isInteger fields kind = true ↔ c) :
    tsFrame double isInteger fields = if c then frameLine double fields kind else .last .failure := by
  unfold tsFrame
  rw [hkind]
  dsimp only
  by_cases hc : c
  · rw [if_pos (hframe.mpr hc), if_pos hc]
  · rw [if_neg fun h => hc (hframe.mp h), if_neg hc]

theorem tsFrame_next (hkind : property fields "type" = some (.string (points "next"))) :
    tsFrame double isInteger fields = if values fields "data" ≠ [] ∧ values fields "error" = [] then
        .item (jsValue double ((property fields "data").getD .null))
      else .last .failure := by
  refine tsFrame_of_kind hkind ?_
  unfold isWireFrame
  rw [if_neg (by decide), if_pos rfl, Bool.and_eq_true, Option.isNone_iff_eq_none,
    property_none_iff, Option.isSome_iff_ne_none, Ne, property_none_iff]

theorem tsFrame_error (hkind : property fields "type" = some (.string (points "error"))) :
    tsFrame double isInteger fields =
      if (property fields "error").any (isErrorBody double isInteger) = true ∧
          values fields "data" = [] then .last .application
      else .last .failure := by
  refine tsFrame_of_kind hkind ?_
  unfold isWireFrame
  rw [if_neg (by decide), if_neg (by decide), if_pos rfl, Bool.and_eq_true,
    Option.isNone_iff_eq_none, property_none_iff]

theorem tsFrame_end (hkind : property fields "type" = some (.string (points "end"))) :
    tsFrame double isInteger fields =
      if values fields "data" = [] ∧ values fields "error" = [] then .last .clean
      else .last .failure := by
  refine tsFrame_of_kind hkind ?_
  unfold isWireFrame
  rw [if_neg (by decide), if_neg (by decide), if_neg (by decide), if_pos rfl, Bool.and_eq_true,
    Option.isNone_iff_eq_none, Option.isNone_iff_eq_none, property_none_iff, property_none_iff]

theorem next_agrees_iff (hkind : property fields "type" = some (.string (points "next"))) :
    rustFrame number fields = tsFrame double isInteger fields ↔ RefusedNext number fields ∨
      buffers number maxDepth (.object fields) = true ∧ ItemFrame number double fields := by
  rw [tsFrame_next hkind]
  rcases rustFrame_next fields hkind with
    ⟨data, value, ⟨hbuffers, htype, hdata, hvalue⟩, hrust⟩ | ⟨hnot, hrust⟩
  · have hrefused : ¬ RefusedNext number fields :=
      fun h => h.2.2 ⟨htype, by rw [hdata]; rfl⟩
    rw [hrust, property_single fields data hdata, hdata]
    by_cases herror : values fields "error" = []
    · rw [if_pos ⟨cons_ne_nil _ _, herror⟩, Line.item.injEq, Option.getD_some,
        held_eq_iff maxDepth data value hvalue]
      refine ⟨fun halike => .inr ⟨hbuffers, htype, herror, data, hdata, by rw [hvalue]; rfl, halike⟩,
        ?_⟩
      rintro (h | ⟨_, _, _, other, hother, _, halike⟩)
      · exact absurd h hrefused
      · cases hdata.symm.trans hother
        exact halike
    · rw [if_neg fun hboth => herror hboth.2]
      refine iff_of_false nofun ?_
      rintro (h | ⟨_, _, hnone, _⟩)
      · exact hrefused h
      · exact herror hnone
  · have hitem : ¬ (buffers number maxDepth (.object fields) = true ∧
        ItemFrame number double fields) := by
      rintro ⟨hbuffers, htype, _, data, hdata, hsome, _⟩
      obtain ⟨value, hvalue⟩ := Option.isSome_iff_exists.mp hsome
      exact hnot data value ⟨hbuffers, htype, hdata, hvalue⟩
    rw [hrust, or_iff_left hitem]
    by_cases hreads : ReadsNext number fields
    · have hagain : ¬ (values fields "type" = [.string (points "next")] ∧
          (values fields "data").length = 1) := by
        rintro ⟨htype, hdata⟩
        obtain ⟨data, hdata⟩ := length_eq_one_iff.mp hdata
        obtain ⟨value, hvalue⟩ := data_of_readsNext fields hkind hreads hdata
        obtain ⟨entries, hread, _⟩ := hreads
        exact hnot data value ⟨buffers_of_ofTree maxDepth _ _ hread, htype, hdata, hvalue⟩
      rw [refused_next fields hreads]
      by_cases hboth : values fields "data" ≠ [] ∧ values fields "error" = []
      · rw [if_pos hboth]
        refine iff_of_false nofun ?_
        rintro ⟨_, htype | hdata | herror, _⟩
        · exact htype hkind
        · exact hboth.1 hdata
        · exact herror hboth.2
      · rw [if_neg hboth]
        refine iff_of_true rfl ⟨hreads, .inr ?_, hagain⟩
        rcases not_and_or.mp hboth with hdata | herror
        · exact .inl (not_not.mp hdata)
        · exact .inr herror
    · rw [refused_skip fields hreads]
      refine iff_of_false (fun heq => ?_) fun h => hreads h.1
      split_ifs at heq

theorem error_agrees_iff (hint : Integers double isInteger)
    (hkind : property fields "type" = some (.string (points "error"))) :
    rustFrame number fields = tsFrame double isInteger fields ↔
      buffers number maxDepth (.object fields) = true ∧ ErrorFrame number fields := by
  rw [tsFrame_error hkind]
  rcases rustFrame_error fields hkind with
    ⟨error, htype, herror, hbuffers, hbody, hrust⟩ | ⟨hnot, hrust⟩
  · rw [hrust, property_single fields error herror, Option.any_some]
    constructor
    · intro heq
      by_cases hboth : isErrorBody double isInteger error = true ∧ values fields "data" = []
      · obtain ⟨inner, rfl, hnull⟩ := isErrorBody_object hboth.1
        exact ⟨hbuffers, htype, hboth.2, inner, herror, hbody, hnull⟩
      · rw [if_neg hboth] at heq
        cases heq
    · rintro ⟨_, _, hdata, inner, hinner, _, hnull⟩
      rw [herror] at hinner
      cases hinner
      rw [if_pos ⟨readErrorBody_isErrorBody hint hbody hnull, hdata⟩]
  · rw [hrust]
    constructor
    · intro heq
      split_ifs at heq
    · rintro ⟨hbuffers, htype, _, inner, herror, hbody, _⟩
      rw [hnot _ htype herror hbuffers] at hbody
      cases hbody

theorem end_agrees_iff (hkind : property fields "type" = some (.string (points "end"))) :
    rustFrame number fields = tsFrame double isInteger fields ↔
      buffers number maxDepth (.object fields) = true ∧ EndFrame fields := by
  rw [tsFrame_end hkind]
  rcases rustFrame_end fields hkind with ⟨htype, hbuffers, hrust⟩ | ⟨hnot, hrust⟩
  · rw [hrust]
    by_cases hboth : values fields "data" = [] ∧ values fields "error" = []
    · rw [if_pos hboth]
      exact iff_of_true rfl ⟨hbuffers, htype, hboth⟩
    · rw [if_neg hboth]
      exact iff_of_false nofun fun h => hboth h.2.2
  · rw [hrust]
    refine iff_of_false (fun heq => ?_) fun h => hnot ⟨h.2.1, h.1⟩
    split_ifs at heq

theorem untyped_agrees_iff
    (h : ∀ kind, property fields "type" = some (.string kind) → kind = []) :
    rustFrame number fields = tsFrame double isInteger fields ↔ RefusedNext number fields := by
  have htype : property fields "type" ≠ some (.string (points "next")) :=
    fun heq => absurd (h _ heq) (by decide)
  rw [rustFrame_untyped fields h, tsFrame_untyped h]
  by_cases hreads : ReadsNext number fields
  · rw [refused_next fields hreads]
    refine iff_of_true rfl ⟨hreads, .inl htype, fun hboth => ?_⟩
    exact htype (property_single fields _ hboth.1)
  · rw [refused_skip fields hreads]
    exact iff_of_false nofun fun hrefused => hreads hrefused.1

theorem shared_kind {kind : List ℕ} (hkind : property fields "type" = some (.string kind))
    (h : Shared number double fields) :
    (kind = points "next" → RefusedNext number fields ∨
      buffers number maxDepth (.object fields) = true ∧ ItemFrame number double fields) ∧
    (kind = points "error" →
      buffers number maxDepth (.object fields) = true ∧ ErrorFrame number fields) ∧
    (kind = points "end" → buffers number maxDepth (.object fields) = true ∧ EndFrame fields) := by
  have hof : ∀ {tag : String}, values fields "type" = [.string (points tag)] → kind = points tag :=
    fun htype => by cases hkind.symm.trans (property_single fields _ htype); rfl
  rcases h with ⟨other, hother, _, hnext, herror, hend⟩ | h | ⟨hbuffers, h | h | h⟩
  · cases hkind.symm.trans hother
    exact ⟨fun h => absurd h hnext, fun h => absurd h herror, fun h => absurd h hend⟩
  · cases readsNext_type fields h.1 hkind
    exact ⟨fun _ => .inl h, fun h => absurd h (by decide), fun h => absurd h (by decide)⟩
  · cases hof h.1
    exact ⟨fun _ => .inr ⟨hbuffers, h⟩, fun h => absurd h (by decide),
      fun h => absurd h (by decide)⟩
  · cases hof h.1
    exact ⟨fun h => absurd h (by decide), fun _ => ⟨hbuffers, h⟩, fun h => absurd h (by decide)⟩
  · cases hof h.1
    exact ⟨fun h => absurd h (by decide), fun h => absurd h (by decide), fun _ => ⟨hbuffers, h⟩⟩

theorem shared_untyped (h : ∀ kind, property fields "type" = some (.string kind) → kind = [])
    (hshared : Shared number double fields) : RefusedNext number fields := by
  have hof : ∀ {tag : String}, values fields "type" = [.string (points tag)] → points tag = [] :=
    fun htype => h _ (property_single fields _ htype)
  rcases hshared with ⟨kind, hkind, hempty, _⟩ | hrefused | ⟨_, hframe | hframe | hframe⟩
  · exact absurd (h kind hkind) hempty
  · exact hrefused
  · exact absurd (hof hframe.1) (by decide)
  · exact absurd (hof hframe.1) (by decide)
  · exact absurd (hof hframe.1) (by decide)

theorem frames_agree_iff (hint : Integers double isInteger) (fields : Fields) :
    rustFrame number fields = tsFrame double isInteger fields ↔ Shared number double fields := by
  by_cases hkinds : ∃ kind, property fields "type" = some (.string kind) ∧ kind ≠ []
  · obtain ⟨kind, hkind, hempty⟩ := hkinds
    by_cases hnext : kind = points "next"
    · rw [next_agrees_iff (hnext ▸ hkind)]
      exact ⟨fun h => h.elim (fun h => .inr (.inl h)) fun h => .inr (.inr ⟨h.1, .inl h.2⟩),
        fun h => (shared_kind hkind h).1 hnext⟩
    · by_cases herror : kind = points "error"
      · rw [error_agrees_iff hint (herror ▸ hkind)]
        exact ⟨fun h => .inr (.inr ⟨h.1, .inr (.inl h.2)⟩),
          fun h => (shared_kind hkind h).2.1 herror⟩
      · by_cases hend : kind = points "end"
        · rw [end_agrees_iff (hend ▸ hkind)]
          exact ⟨fun h => .inr (.inr ⟨h.1, .inr (.inr h.2)⟩),
            fun h => (shared_kind hkind h).2.2 hend⟩
        · have hunknown : Unknown fields := ⟨kind, hkind, hempty, hnext, herror, hend⟩
          rw [rustFrame_unknown fields kind hkind hnext herror hend, tsFrame_unknown hunknown]
          exact iff_of_true rfl (.inl hunknown)
  · have huntyped : ∀ kind, property fields "type" = some (.string kind) → kind = [] := by
      intro kind hkind
      by_contra hne
      exact hkinds ⟨kind, hkind, hne⟩
    rw [untyped_agrees_iff huntyped]
    exact ⟨fun h => .inr (.inl h), shared_untyped huntyped⟩

theorem tsFrame_skip (h : tsFrame double isInteger fields = .skip) : Unknown fields := by
  unfold tsFrame at h
  split at h
  · next kind hkind =>
    split_ifs at h with hframe
    unfold frameLine at h
    split_ifs at h with hnext herror hend
    refine ⟨kind, hkind, ?_, hnext, herror, hend⟩
    rintro rfl
    unfold isWireFrame at hframe
    rw [if_pos rfl] at hframe
    cases hframe
  · cases h

theorem rustFrame_of_unknown (h : Unknown fields) : rustFrame number fields = .skip := by
  obtain ⟨kind, hkind, _, hnext, herror, hend⟩ := h
  exact rustFrame_unknown fields kind hkind hnext herror hend

theorem tsFrame_refused (h : RefusedNext number fields) :
    tsFrame double isInteger fields = .last .failure := by
  obtain ⟨hreads, hrefused, _⟩ := h
  by_cases hkind : property fields "type" = some (.string (points "next"))
  · rw [tsFrame_next hkind, if_neg]
    rintro ⟨hdata, herror⟩
    rcases hrefused with htype | hnone | hsome
    · exact htype hkind
    · exact hdata hnone
    · exact hsome herror
  · refine tsFrame_untyped fun kind hstring => absurd ?_ hkind
    rw [hstring, readsNext_type fields hreads hstring]

theorem refused_no_item (data : JsValue N) : refused number fields ≠ .item data := by
  by_cases hreads : ReadsNext number fields
  · rw [refused_next fields hreads]
    exact nofun
  · rw [refused_skip fields hreads]
    exact nofun

theorem rustFrame_item {data : JsValue N} (h : rustFrame number fields = .item data) :
    property fields "type" = some (.string (points "next")) := by
  by_cases hkinds : ∃ kind, property fields "type" = some (.string kind)
  · obtain ⟨kind, hkind⟩ := hkinds
    by_cases hnext : kind = points "next"
    · rw [hkind, hnext]
    · exfalso
      by_cases herror : kind = points "error"
      · rcases rustFrame_error fields (herror ▸ hkind) with ⟨_, _, _, _, _, hrust⟩ | ⟨_, hrust⟩
        · cases hrust.symm.trans h
        · cases hrust.symm.trans h
      · by_cases hend : kind = points "end"
        · rcases rustFrame_end fields (hend ▸ hkind) with ⟨_, _, hrust⟩ | ⟨_, hrust⟩
          · cases hrust.symm.trans h
          · cases hrust.symm.trans h
        · cases (rustFrame_unknown fields kind hkind hnext herror hend).symm.trans h
  · refine absurd h ?_
    rw [rustFrame_untyped fields fun kind hkind => absurd ⟨kind, hkind⟩ hkinds]
    exact refused_no_item data

end

end Stakit.ClientStreams
