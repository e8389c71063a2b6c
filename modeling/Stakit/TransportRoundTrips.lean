import Stakit.PostgresEnvelope
import Stakit.RouterTransports

set_option autoImplicit false

namespace Stakit.RouterTransports
open JsonText SerdeJson EntryMaps List
open RouterRequests (Serde Error Reply errorValue intoValue fieldsValue)
open Option (map_eq_some_iff bind_eq_some_iff bind_some map_some)

section
variable {serde : Serde}

theorem errorValue_eq (error : Error serde) : errorValue error = errorToValue error := by
  unfold errorValue errorToValue toMap serializeStruct errorStruct isDefaultKind
  cases error.fields with
  | none =>
    cases error.data with
    | none | some data => by_cases hkind : error.kind = "error" <;> simp [hkind]
  | some fields =>
    cases error.data with
    | none => by_cases hkind : error.kind = "error" <;> simp [hkind, fieldsValue, messageEntries]
    | some data =>
      by_cases hkind : error.kind = "error" <;> simp [hkind, fieldsValue, messageEntries]

theorem intoValue_eq (reply : Reply serde) : intoValue reply = replyToValue reply := by
  cases reply with
  | ok data => rfl
  | error error =>
    change Value.object (sortedMap [("status", .string "error"), ("error", errorValue error)]) = _
    rw [errorValue_eq]
    rfl

theorem serializeStruct_keys (fields : List (Field serde)) :
    ((serializeStruct fields).map Prod.fst).Sublist (fields.map Field.key) := by
  unfold serializeStruct
  induction fields with
  | nil => exact List.Sublist.refl _
  | cons field fields ih =>
    rw [filterMap_cons, map_cons]
    cases field.value with
    | none => exact ih.cons _
    | some value => exact ih.cons_cons _

theorem serializeStruct_nodup {fields : List (Field serde)} (h : (fields.map Field.key).Nodup) :
    ((serializeStruct fields).map Prod.fst).Nodup := h.sublist (serializeStruct_keys fields)

theorem serializeStruct_plain {fields : List (Field serde)} (h : rawKey ∉ fields.map Field.key) :
    rawKey ∉ (serializeStruct fields).map Prod.fst :=
  fun hin => h ((serializeStruct_keys fields).subset hin)

theorem serializeStruct_forall {p : Value serde.Number → Prop} (fields : List (Field serde)) :
    (∀ entry ∈ serializeStruct fields, p entry.2) ↔
      ∀ field ∈ fields, ∀ value ∈ field.value, p value := by
  unfold serializeStruct
  constructor
  · intro h field hfield value hvalue
    exact h (field.key, value) (mem_filterMap.mpr ⟨field, hfield, by rw [hvalue]; rfl⟩)
  · intro h entry hentry
    obtain ⟨field, hfield, hmap⟩ := mem_filterMap.mp hentry
    obtain ⟨value, hvalue, rfl⟩ := Option.map_eq_some_iff.mp hmap
    exact h field hfield value hvalue

theorem last_serializeStruct {fields : List (Field serde)} (h : (fields.map Field.key).Nodup)
    {field : Field serde} (hfield : field ∈ fields) :
    last (serializeStruct fields) field.key = field.value := by
  rw [last_of_nodup _ (serializeStruct_nodup h)]
  induction fields with
  | nil => exact absurd hfield not_mem_nil
  | cons first fields ih =>
    rw [map_cons, nodup_cons] at h
    unfold serializeStruct
    rw [filterMap_cons]
    rcases mem_cons.mp hfield with rfl | hfield
    · cases hvalue : field.value with
      | none =>
        refine lookup_none_of_not_mem _ _ fun hin => h.1 ?_
        obtain ⟨entry, hentry, hkey⟩ := mem_map.mp hin
        obtain ⟨other, hother, hvalue⟩ := mem_filterMap.mp hentry
        obtain ⟨value, _, rfl⟩ := Option.map_eq_some_iff.mp hvalue
        exact mem_map.mpr ⟨other, hother, hkey⟩
      | some value => exact lookup_head (field.key, value) _
    · have hne : field.key ≠ first.key := by
        intro heq
        exact h.1 (heq ▸ mem_map_of_mem hfield)
      cases first.value with
      | none => exact ih h.2 hfield
      | some value =>
        refine (lookup_cons_ite _ _ _).trans ?_
        rw [if_neg hne]
        exact ih h.2 hfield

section
variable (object : Entries String (Value serde.Number) → Value serde.Number) (error : Error serde)

theorem errorStruct_keys : ((errorStruct object error).map Field.key).Nodup := by
  change (["code", "type", "message", "fields", "data"] : List String).Nodup
  decide

theorem errorStruct_plain : rawKey ∉ (errorStruct object error).map Field.key := by
  change rawKey ∉ ["code", "type", "message", "fields", "data"]
  decide

end

theorem fits_struct (printer : Printer serde.Number) (room : ℕ) {fields : List (Field serde)}
    (hplain : rawKey ∉ fields.map Field.key) :
    Fits printer serde.number (room + 1) (.object (serializeStruct fields)) ↔
      ∀ field ∈ fields, ∀ value ∈ field.value, Fits printer serde.number room value := by
  rw [fits_object _ _ _ _ (startsRaw_of_not_mem (serializeStruct_plain hplain))]
  exact serializeStruct_forall fields

theorem fits_toMap_struct (printer : Printer serde.Number) (room : ℕ) {fields : List (Field serde)}
    (h : (fields.map Field.key).Nodup) (hplain : rawKey ∉ fields.map Field.key) :
    Fits printer serde.number (room + 1) (toMap (serializeStruct fields)) ↔
      ∀ field ∈ fields, ∀ value ∈ field.value, Fits printer serde.number room value := by
  have hraw := serializeStruct_plain hplain
  rw [← fits_struct printer room hplain, fits_object _ _ _ _ (startsRaw_of_not_mem hraw)]
  exact fits_map printer serde.number room _ (serializeStruct_nodup h) hraw

theorem messages_sorted (fields : List (String × List String)) :
    sortedMap (messageEntries fields : Entries String (Value serde.Number)) =
      messageEntries (sortedMap fields) := by
  have hsame := sortedMap_map_sortedMap fields
    fun _ messages => (.array (messages.map .string) : Value serde.Number)
  refine hsame.symm.trans (sortedMap_of_sorted _ ?_)
  exact pairwise_map.mpr (sorted_sortedMap fields)

section
variable (printer : Printer serde.Number)

theorem rereadItems_strings (messages : List String) :
    rereadItems printer serde.number (messages.map .string) = messages.map .string := by
  induction messages with
  | nil => rfl
  | cons message messages ih => rw [map_cons, rereadItems, reread, ih]

theorem rereadFields_messages (fields : List (String × List String)) :
    rereadFields printer serde.number (messageEntries fields) = messageEntries fields := by
  unfold messageEntries
  rw [rereadFields_eq_map, map_map]
  refine map_congr_left fun field _ => ?_
  rw [Function.comp_apply, reread, rereadItems_strings]

variable (serde) in
theorem startsRaw_messages (fields : List (String × List String)) :
    startsRaw (messageEntries fields : Entries String (Value serde.Number)) = startsRaw fields := by
  cases fields <;> rfl

theorem reread_messages {fields : List (String × List String)} (hplain : startsRaw fields = false) :
    reread printer serde.number (.object (messageEntries fields)) = fieldsValue fields := by
  rw [reread, startsRaw_messages, if_neg (by rw [hplain]; decide), rereadFields_messages]
  rfl

theorem toMap_messages (fields : List (String × List String)) :
    (toMap (messageEntries fields) : Value serde.Number) =
      .object (messageEntries (sortedMap fields)) :=
  congrArg Value.object (messages_sorted fields)

theorem fieldsValue_sorted (fields : List (String × List String)) :
    (fieldsValue (sortedMap fields) : Value serde.Number) = fieldsValue fields :=
  congrArg Value.object (sortedMap_map_sortedMap fields
    fun _ messages => (.array (messages.map .string) : Value serde.Number))

theorem fits_messages (room : ℕ) (fields : List (String × List String)) :
    Fits printer serde.number (room + 2) (.object (messageEntries fields)) ↔
      startsRaw fields = false := by
  rw [← startsRaw_messages serde fields]
  cases hraw : startsRaw (messageEntries fields : Entries String (Value serde.Number)) with
  | true =>
    refine iff_of_false (fun hfits => ?_) (by decide)
    have hunwraps := hfits.2.2
    rw [unwraps_object, if_pos hraw] at hunwraps
    obtain ⟨value, hvalue⟩ := Option.isSome_iff_exists.mp hunwraps
    obtain ⟨name, text, hentries, _⟩ := unwrapped_eq_some _ hvalue
    obtain ⟨field, rfl, hfield⟩ := map_eq_singleton_iff.mp hentries
    cases hfield
  | false =>
    refine iff_of_true ((fits_object _ _ _ _ hraw).mpr fun entry hentry => ?_) rfl
    obtain ⟨field, _, rfl⟩ := mem_map.mp hentry
    rw [fits_array]
    intro item hitem
    obtain ⟨message, _, rfl⟩ := mem_map.mp hitem
    exact fits_string printer serde.number room message

end

theorem asStrings_messages (messages : List String) :
    asStrings (.array (messages.map .string) : Value serde.Number) = some messages := by
  unfold asStrings
  dsimp only
  induction messages with
  | nil => rfl
  | cons message messages ih =>
    rw [map_cons, mapM_cons, ih]
    rfl

theorem asFields_messages (fields : List (String × List String)) :
    asFields (fieldsValue fields : Value serde.Number) = some (some (indexMap (sortedMap fields))) := by
  have hread : ∀ entries : List (String × List String),
      (messageEntries entries : Entries String (Value serde.Number)).mapM (fun field =>
        (asStrings field.2).map fun messages => (field.1, messages)) = some entries := by
    intro entries
    unfold messageEntries
    induction entries with
    | nil => rfl
    | cons entry entries ih =>
      rw [map_cons, mapM_cons, ih]
      dsimp only
      rw [asStrings_messages]
      rfl
  have hvalue : (fieldsValue fields : Value serde.Number) =
      .object (messageEntries (sortedMap fields)) :=
    congrArg Value.object (messages_sorted fields)
  rw [hvalue, asFields, hread]
  rfl

section
variable (wire : Wire serde)

/-- A payload in an error body that is read from a value. -/
def readData (data : Option (Value serde.Number)) : Option (Option (Value serde.Number)) :=
  (data.map (reread wire.printer serde.number)).elim (some none) asData

/-- An error as the client has it from an envelope or a frame. -/
def receivedBody (error : Error serde) : Option (ErrorBody serde) :=
  (readData wire error.data).map fun data =>
    ⟨error.code, error.kind, error.message,
      error.fields.map fun fields => indexMap (sortedMap fields), data⟩

/-- The messages as a map are not read as the value of a text. -/
def PlainFields (error : Error serde) : Prop :=
  ∀ fields ∈ error.fields, startsRaw (sortedMap fields) = false

theorem reread_ofNat (hlaw : wire.Lawful) {n : ℕ} (hn : n ≤ u64Max) :
    reread wire.printer serde.number (.number (serde.ofNat n)) = .number (serde.ofNat n) := by
  rw [reread, hlaw.token n hn, hlaw.number n hn]
  rfl

theorem fits_ofNat (hlaw : wire.Lawful) {n : ℕ} (room : ℕ) (hn : n ≤ u64Max) :
    Fits wire.printer serde.number room (.number (serde.ofNat n)) := by
  refine ⟨Nat.zero_le _, all_eq_true.mpr fun m hm => ?_, rfl⟩
  rw [mem_singleton.mp hm, hlaw.token n hn, hlaw.number n hn]
  rfl

theorem kind_read (kind : String) : ((if isDefaultKind kind then none else some (.string kind) :
      Option (Value serde.Number)).map (reread wire.printer serde.number)).elim (some "error") asStr =
        some kind := by
  unfold isDefaultKind
  by_cases hkind : kind = "error"
  · rw [if_pos (decide_eq_true hkind), hkind]
    rfl
  · rw [if_neg (by simpa using hkind)]
    rfl

theorem readErrorBody_reread (hlaw : wire.Lawful) {error : Error serde} (hcode : error.code ≤ 65535)
    (object : Entries String (Value serde.Number) → Value serde.Number)
    (hobject : ∀ fields ∈ error.fields, reread wire.printer serde.number
      (object (messageEntries fields)) = fieldsValue fields)
    {entries : Entries String (Value serde.Number)} (hplain : startsRaw entries = false)
    (hentries : ∀ key, last entries key = last (serializeStruct (errorStruct object error)) key) :
    readErrorBody wire (reread wire.printer serde.number (.object entries)) =
      receivedBody wire error := by
  have hkeys := errorStruct_keys object error
  have hfield : ∀ field ∈ errorStruct object error,
      (sortedMap (rereadFields wire.printer serde.number entries)).lookup field.key =
        field.value.map (reread wire.printer serde.number) := by
    intro field hfield
    rw [lookup_reread, hentries, last_serializeStruct hkeys hfield]
  unfold errorStruct at hfield
  simp only [forall_mem_cons] at hfield
  obtain ⟨hcodeRead, hkindRead, hmessageRead, hfieldsRead, hdataRead, _⟩ := hfield
  have hcode' : error.code ≤ u64Max := hcode.trans (by decide)
  rw [reread, if_neg (by rw [hplain]; decide), readErrorBody, hcodeRead, hkindRead, hmessageRead,
    hfieldsRead, hdataRead]
  unfold errorBody
  rw [kind_read, map_some, map_some, reread_ofNat wire hlaw hcode']
  have hfields : ((error.fields.map fun fields => object (messageEntries fields)).map
      (reread wire.printer serde.number)).elim (some none) asFields =
      some (error.fields.map fun fields => indexMap (sortedMap fields)) := by
    cases hmessages : error.fields with
    | none => rfl
    | some fields =>
      rw [map_some, map_some, Option.elim_some, hobject fields hmessages,
        asFields_messages]
      rfl
  rw [hfields]
  have hasCode : asCode wire (.number (serde.ofNat error.code)) = some error.code := by
    unfold asCode
    dsimp only
    rw [hlaw.asU64 _ hcode', bind_some, if_pos hcode]
  rw [bind_some, hasCode]
  rfl

theorem errorStruct_each {p : Value serde.Number → Prop} {error : Error serde}
    (object : Entries String (Value serde.Number) → Value serde.Number)
    (hstring : ∀ text, p (.string text)) (hcode : p (.number (serde.ofNat error.code))) :
    (∀ field ∈ errorStruct object error, ∀ value ∈ field.value, p value) ↔
      (∀ data ∈ error.data, p data) ∧ ∀ fields ∈ error.fields, p (object (messageEntries fields)) := by
  unfold errorStruct
  simp only [forall_mem_cons]
  refine ⟨fun h => ⟨h.2.2.2.2.1, fun fields hfields => h.2.2.2.1 _ (by rw [hfields]; rfl)⟩,
    fun h => ⟨?_, ?_, ?_, ?_, h.1, ?_⟩⟩
  · rintro value ⟨⟩
    exact hcode
  · intro value hvalue
    split_ifs at hvalue
    · cases hvalue
    · cases hvalue
      exact hstring _
  · rintro value ⟨⟩
    exact hstring _
  · intro value hvalue
    obtain ⟨fields, hfields, rfl⟩ := Option.map_eq_some_iff.mp hvalue
    exact h.2 fields hfields
  · exact nofun

theorem fits_error (hlaw : wire.Lawful) {error : Error serde} (hcode : error.code ≤ 65535)
    (room : ℕ) (object : Entries String (Value serde.Number) → Value serde.Number) :
    (∀ field ∈ errorStruct object error, ∀ value ∈ field.value,
      Fits wire.printer serde.number room value) ↔
    (∀ data ∈ error.data, Fits wire.printer serde.number room data) ∧ ∀ fields ∈ error.fields,
        Fits wire.printer serde.number room (object (messageEntries fields)) :=
  errorStruct_each object (fits_string _ _ room)
    (fits_ofNat wire hlaw room (hcode.trans (by decide)))

theorem fits_errorToValue (hlaw : wire.Lawful) {error : Error serde} (hcode : error.code ≤ 65535)
    (room : ℕ) : Fits wire.printer serde.number (room + 3) (errorToValue error) ↔
      (∀ data ∈ error.data, Fits wire.printer serde.number (room + 2) data) ∧ PlainFields error := by
  unfold errorToValue
  rw [fits_toMap_struct _ _ (errorStruct_keys toMap error) (errorStruct_plain toMap error),
    fits_error wire hlaw hcode (room + 2) toMap]
  refine and_congr_right fun _ => forall₂_congr fun fields _ => ?_
  rw [toMap_messages, fits_messages]

theorem readErrorBody_toValue (hlaw : wire.Lawful) {error : Error serde}
    (hcode : error.code ≤ 65535) (hplain : PlainFields error) :
    readErrorBody wire (reread wire.printer serde.number (errorToValue error)) =
      receivedBody wire error := by
  refine readErrorBody_reread wire hlaw hcode toMap (fun fields hfields => ?_)
    (startsRaw_sortedMap (serializeStruct_plain (errorStruct_plain toMap error)))
    fun key => last_sortedMap _ key
  rw [toMap_messages, reread_messages wire.printer (hplain fields hfields), fieldsValue_sorted]

theorem startsRaw_response {action : String} (h : action ≠ rawKey) (reply : Reply serde) :
    startsRaw [(action, intoValue reply)] = false := decide_eq_false h

theorem get_response {action : String} (h : action ≠ rawKey) (reply : Reply serde) :
    get (reread wire.printer serde.number (responseValue action reply)) action =
      some (reread wire.printer serde.number (intoValue reply)) := by
  unfold responseValue
  rw [reread, if_neg (by rw [startsRaw_response h]; decide), get, lookup_reread]
  unfold last
  rw [reverse_singleton, lookup_head (action, intoValue reply) []]
  rfl

theorem fits_response (action : String) (reply : Reply serde) (room : ℕ) :
    Fits wire.printer serde.number (room + 1) (responseValue action reply) ↔
      action ≠ rawKey ∧ Fits wire.printer serde.number room (intoValue reply) := by
  by_cases haction : action = rawKey
  · refine iff_of_false (fun hfits => ?_) fun h => h.1 haction
    have hraw : startsRaw [(action, intoValue reply)] = true := decide_eq_true haction
    have hunwraps := hfits.2.2
    rw [responseValue, unwraps_object, if_pos hraw] at hunwraps
    cases reply <;> cases hunwraps
  · rw [responseValue, fits_object _ _ _ _ (startsRaw_response haction reply), and_iff_right haction]
    exact ⟨fun h => h _ mem_cons_self, fun h field hfield => by
      rw [mem_singleton.mp hfield]; exact h⟩

theorem fetch_iff (hlaw : wire.Lawful) (action : String) (reply : Reply serde)
    (result : ActionResult serde) :
    fetch wire action (responseText wire action reply) = some result ↔
      (action ≠ rawKey ∧ Fits wire.printer serde.number 126 (intoValue reply)) ∧
        readEnvelope wire (reread wire.printer serde.number (intoValue reply)) = some result := by
  unfold fetch responseText
  rw [bind_eq_some_iff]
  constructor
  · rintro ⟨response, hresponse, hread⟩
    obtain ⟨hfits, rfl⟩ := (fromText_textOf_iff _ _ hlaw.printer _ _).mp hresponse
    have hreply := (fits_response wire action reply 126).mp hfits
    rw [get_response wire hreply.1, bind_some] at hread
    exact ⟨hreply, hread⟩
  · rintro ⟨hreply, hread⟩
    refine ⟨_, (fromText_textOf_iff _ _ hlaw.printer _ _).mpr
      ⟨(fits_response wire action reply 126).mpr hreply, rfl⟩, ?_⟩
    rw [get_response wire hreply.1, bind_some]
    exact hread

variable (fields : List (Field serde)) {entries : Entries String (Value serde.Number)}

theorem reread_toMap (hplain : rawKey ∉ entries.map Prod.fst) :
    reread wire.printer serde.number (toMap entries) = .object (sortedMap
      (rereadFields wire.printer serde.number (sortedMap entries))) := by
  unfold toMap
  rw [reread, if_neg (by rw [startsRaw_sortedMap hplain]; decide)]

theorem get_reread_toMap (hplain : rawKey ∉ entries.map Prod.fst) (key : String) :
    get (reread wire.printer serde.number (toMap entries)) key =
      (last entries key).map (reread wire.printer serde.number) := by
  rw [reread_toMap wire hplain, get, lookup_reread, last_sortedMap]

theorem readEnvelope_toMap (hplain : rawKey ∉ entries.map Prod.fst) :
    readEnvelope wire (reread wire.printer serde.number (toMap entries)) =
      (((last entries "status").map (reread wire.printer serde.number)).bind asStr).bind fun status =>
        readVariant wire status ((last entries "data").map (reread wire.printer serde.number))
          ((last entries "error").map (reread wire.printer serde.number)) := by
  rw [reread_toMap wire hplain, readEnvelope]
  simp only [lookup_reread, last_sortedMap]

theorem fits_twoFields (status key : String) (hkeys : ["status", key].Nodup)
    (hplain : rawKey ∉ ["status", key]) (body : Value serde.Number) :
    Fits wire.printer serde.number 126 (toMap [("status", .string status), (key, body)]) ↔
      Fits wire.printer serde.number 125 body := by
  refine (fits_map _ _ 125 [("status", .string status), (key, body)] hkeys hplain).trans ?_
  simp only [forall_mem_cons]
  exact ⟨fun h => h.2.1, fun h => ⟨fits_string _ _ _ _, h, nofun⟩⟩

theorem envelope_error (hlaw : wire.Lawful) {error : Error serde} (hcode : error.code ≤ 65535)
    (hplain : PlainFields error) :
    readEnvelope wire (reread wire.printer serde.number (intoValue (.error error))) =
      (receivedBody wire error).map .error := by
  rw [intoValue_eq]
  have hraw : rawKey ∉ (serializeStruct [⟨"status", some (.string "error")⟩,
      ⟨"error", some (errorToValue error)⟩]).map Prod.fst := by
    change rawKey ∉ ["status", "error"]
    decide
  refine (readEnvelope_toMap wire hraw).trans ?_
  change readVariant wire "error" _ (some (reread _ _ (errorToValue error))) = _
  unfold readVariant
  rw [if_neg (by decide), if_pos rfl, bind_some,
    readErrorBody_toValue wire hlaw hcode hplain]

theorem fits_envelope (hlaw : wire.Lawful) {error : Error serde} (hcode : error.code ≤ 65535) :
    Fits wire.printer serde.number 126 (intoValue (.error error)) ↔
      (∀ data ∈ error.data, Fits wire.printer serde.number 124 data) ∧ PlainFields error := by
  rw [intoValue_eq, ← fits_errorToValue wire hlaw hcode 122]
  exact fits_twoFields wire "error" "error" (by decide) (by decide) _

theorem fetch_error_iff (hlaw : wire.Lawful) (action : String) (error : Error serde)
    (hcode : error.code ≤ 65535) (result : ActionResult serde) :
    fetch wire action (responseText wire action (.error error)) = some result ↔
      (action ≠ rawKey ∧ (∀ data ∈ error.data, Fits wire.printer serde.number 124 data) ∧
        PlainFields error) ∧ (receivedBody wire error).map .error = some result := by
  rw [fetch_iff wire hlaw, fits_envelope wire hlaw hcode]
  exact and_congr_right fun h => by rw [envelope_error wire hlaw hcode h.2.2]

theorem envelope_ok (data : Value serde.Number) :
    readEnvelope wire (reread wire.printer serde.number (intoValue (.ok data))) =
      (fromValue serde.number (reread wire.printer serde.number data)).map .ok := by
  have hraw : rawKey ∉ [("status", (.string "ok" : Value serde.Number)), ("data", data)].map
      Prod.fst := by
    change rawKey ∉ ["status", "data"]
    decide
  exact readEnvelope_toMap wire hraw

theorem fetch_ok_iff (hlaw : wire.Lawful) (action : String) (data : Value serde.Number)
    (result : ActionResult serde) :
    fetch wire action (responseText wire action (.ok data)) = some result ↔
      (action ≠ rawKey ∧ Fits wire.printer serde.number 125 data) ∧
        (fromValue serde.number (reread wire.printer serde.number data)).map .ok = some result := by
  have hfits : Fits wire.printer serde.number 126 (intoValue (.ok data)) ↔
      Fits wire.printer serde.number 125 data :=
    fits_twoFields wire "ok" "data" (by decide) (by decide) data
  rw [fetch_iff wire hlaw, envelope_ok wire data, hfits]

theorem parseFrame_iff (hlaw : wire.Lawful) (frame : Value serde.Number)
    (read : ServerFrame serde) :
    parseFrame wire (textOf wire.printer frame) = some read ↔
      Fits wire.printer serde.number maxDepth frame ∧
        frameOf wire (reread wire.printer serde.number frame) = some read := by
  unfold parseFrame
  rw [bind_eq_some_iff]
  constructor
  · rintro ⟨value, hvalue, hread⟩
    obtain ⟨hfits, rfl⟩ := (fromText_textOf_iff _ _ hlaw.printer _ _).mp hvalue
    exact ⟨hfits, hread⟩
  · rintro ⟨hfits, hread⟩
    exact ⟨_, (fromText_textOf_iff _ _ hlaw.printer _ _).mpr ⟨hfits, rfl⟩, hread⟩

theorem frameOf_result (hlaw : wire.Lawful) {id : ℕ} (hid : id ≤ u64Max)
    (frame : Value serde.Number) (result : ActionResult serde)
    (hkind : get frame "kind" = some (.string "result"))
    (hnumber : get frame "id" = some (reread wire.printer serde.number (.number (serde.ofNat id))))
    (hresult : frameResult wire frame = some result) :
    frameOf wire frame = some (.result id result) := by
  rw [reread_ofNat wire hlaw hid] at hnumber
  have hfield : numberField wire frame "id" = id := by
    unfold numberField
    rw [hnumber, bind_some]
    dsimp only
    rw [hlaw.asU64 id hid]
    rfl
  unfold frameOf
  rw [hkind, hresult, hfield]
  rfl

theorem fits_replyFrame (hlaw : wire.Lawful) {id : ℕ} (hid : id ≤ u64Max) (status key : String)
    (hkeys : ["kind", "id", "status", key].Nodup) (hplain : rawKey ∉ ["kind", "id", "status", key])
    (body : Value serde.Number) :
    Fits wire.printer serde.number maxDepth (toMap [("kind", .string "result"),
      ("id", .number (serde.ofNat id)), ("status", .string status), (key, body)]) ↔
      Fits wire.printer serde.number 126 body := by
  refine (fits_map _ _ 126 [("kind", .string "result"), ("id", .number (serde.ofNat id)),
    ("status", .string status), (key, body)] hkeys hplain).trans ?_
  simp only [forall_mem_cons]
  exact ⟨fun h => h.2.2.2.1, fun h => ⟨fits_string _ _ _ _, fits_ofNat wire hlaw _ hid,
    fits_string _ _ _ _, h, nofun⟩⟩

theorem fits_resultFrame (hlaw : wire.Lawful) {id : ℕ} (hid : id ≤ u64Max) {error : Error serde}
    (hcode : error.code ≤ 65535) :
    Fits wire.printer serde.number maxDepth (resultFrame id (.error error)) ↔
      (∀ data ∈ error.data, Fits wire.printer serde.number 125 data) ∧ PlainFields error := by
  rw [← fits_errorToValue wire hlaw hcode 123]
  exact fits_replyFrame wire hlaw hid "error" "error" (by decide) (by decide) _

theorem resultFrame_plain (id : ℕ) (body : Value serde.Number) (status key : String)
    (hkey : rawKey ∉ ["kind", "id", "status", key]) :
    rawKey ∉ [("kind", (.string "result" : Value serde.Number)), ("id", .number (serde.ofNat id)),
      ("status", .string status), (key, body)].map Prod.fst := hkey

theorem parseFrame_error_iff (hlaw : wire.Lawful) (id : ℕ) (hid : id ≤ u64Max)
    (error : Error serde) (hcode : error.code ≤ 65535) (read : ServerFrame serde) :
    parseFrame wire (resultText wire id (.error error)) = some read ↔
      ((∀ data ∈ error.data, Fits wire.printer serde.number 125 data) ∧ PlainFields error) ∧
        ((receivedBody wire error).map fun body => .result id (.error body)) = some read := by
  unfold resultText
  rw [parseFrame_iff wire hlaw, fits_resultFrame wire hlaw hid hcode]
  refine and_congr_right fun hfits => ?_
  have hget := get_reread_toMap wire (resultFrame_plain id (errorToValue error) "error" "error"
    (by decide))
  have hresult : frameResult wire (reread wire.printer serde.number (resultFrame id (.error error))) =
      (receivedBody wire error).map .error := by
    unfold frameResult resultFrame
    rw [hget, hget]
    change (readErrorBody wire (reread _ _ (errorToValue error))).map _ = _
    rw [readErrorBody_toValue wire hlaw hcode hfits.2]
  have hframe : frameOf wire (reread wire.printer serde.number (resultFrame id (.error error))) =
      (receivedBody wire error).map fun body => .result id (.error body) := by
    cases hbody : receivedBody wire error with
    | some body =>
      rw [hbody] at hresult
      exact frameOf_result wire hlaw hid _ _ (hget "kind") (hget "id") hresult
    | none =>
      rw [hbody] at hresult
      unfold frameOf
      rw [show get (reread wire.printer serde.number (resultFrame id (.error error))) "kind" =
        some (.string "result") from hget "kind", hresult]
      rfl
  rw [hframe]

theorem parseFrame_ok_iff (hlaw : wire.Lawful) {id : ℕ} (hid : id ≤ u64Max)
    (data : Value serde.Number) (read : ServerFrame serde) :
    parseFrame wire (resultText wire id (.ok data)) = some read ↔
      Fits wire.printer serde.number 126 data ∧
        read = .result id (.ok (reread wire.printer serde.number data)) := by
  have hfits : Fits wire.printer serde.number maxDepth (resultFrame id (.ok data)) ↔
      Fits wire.printer serde.number 126 data :=
    fits_replyFrame wire hlaw hid "ok" "data" (by decide) (by decide) data
  have hget := get_reread_toMap wire (resultFrame_plain id data "ok" "data" (by decide))
  have hread : frameOf wire (reread wire.printer serde.number (resultFrame id (.ok data))) =
      some (.result id (.ok (reread wire.printer serde.number data))) := by
    refine frameOf_result wire hlaw hid _ _ (hget "kind") (hget "id") ?_
    unfold frameResult resultFrame
    dsimp only
    rw [hget, hget, hget]
    rfl
  unfold resultText
  rw [parseFrame_iff wire hlaw, hread, Option.some.injEq, hfits]
  exact and_congr_right fun _ => eq_comm

theorem treesOf_eq (printer : Printer serde.Number) (items : List (Value serde.Number)) :
    treesOf printer items = items.map (treeOf printer) := by
  induction items with
  | nil => rfl
  | cons item items ih => rw [treesOf, ih, map_cons]

theorem fieldTrees_eq (printer : Printer serde.Number)
    (entries : Entries String (Value serde.Number)) :
    fieldTrees printer entries =
      entries.map fun entry => (points entry.1, treeOf printer entry.2) := by
  induction entries with
  | nil => rfl
  | cons entry entries ih => rw [map_cons, ← ih, fieldTrees]

theorem values_fieldTrees (name : String) :
    ClientStreams.values (fieldTrees wire.printer entries) name =
      (entries.filter fun entry => entry.1 = name).map fun entry => treeOf wire.printer entry.2 := by
  unfold ClientStreams.values
  induction entries with
  | nil => rfl
  | cons entry entries ih =>
    obtain ⟨key, value⟩ := entry
    rw [fieldTrees, filter_cons, filter_cons]
    by_cases hkey : key = name
    · rw [if_pos (decide_eq_true (congrArg points hkey)), if_pos (decide_eq_true hkey),
        map_cons, map_cons, ih]
    · rw [if_neg (by simpa [points_strictMono.injective.eq_iff] using hkey), if_neg (by simpa using hkey), ih]

theorem filter_of_nodup (name : String) (h : (entries.map Prod.fst).Nodup) :
    (entries.filter fun entry => entry.1 = name).map Prod.snd = (entries.lookup name).toList := by
  induction entries with
  | nil => rfl
  | cons entry entries ih =>
    obtain ⟨key, value⟩ := entry
    rw [map_cons, nodup_cons] at h
    rw [filter_cons, lookup_cons_ite]
    by_cases hkey : key = name
    · rw [if_pos (decide_eq_true hkey), if_pos hkey.symm, map_cons, ih h.2,
        lookup_none_of_not_mem entries name (hkey ▸ h.1)]
      rfl
    · rw [if_neg (by simpa using hkey), if_neg (fun heq => hkey heq.symm), ih h.2]

theorem values_struct (h : (fields.map Field.key).Nodup) {field : Field serde}
    (hfield : field ∈ fields) :
    ClientStreams.values (fieldTrees wire.printer (serializeStruct fields)) field.key =
      (field.value.map (treeOf wire.printer)).toList := by
  have hnodup := serializeStruct_nodup h
  have hlookup := last_serializeStruct h hfield
  rw [last_of_nodup _ hnodup] at hlookup
  have hfilter := congrArg (List.map (treeOf wire.printer)) (filter_of_nodup field.key hnodup)
  rw [map_map, hlookup] at hfilter
  rw [values_fieldTrees]
  refine hfilter.trans ?_
  cases field.value with
  | none | some value => rfl

theorem onceIn_struct (h : (fields.map Field.key).Nodup) (field : Field serde)
    (hfield : field ∈ fields) :
    ClientStreams.onceIn (fieldTrees wire.printer (serializeStruct fields)) field.key =
      some (field.value.map (treeOf wire.printer)) := by
  unfold ClientStreams.onceIn
  rw [values_struct wire fields h hfield]
  cases field.value with
  | none | some value => rfl

theorem asStrings_trees (messages : List String) :
    ClientStreams.asStrings (treeOf wire.printer (.array (messages.map .string))) = some messages := by
  rw [treeOf, treesOf_eq, map_map, ClientStreams.asStrings]
  induction messages with
  | nil => rfl
  | cons message messages ih =>
    rw [map_cons, mapM_cons, ih, Function.comp_apply, treeOf, ClientStreams.asString,
      stringOf_points]
    rfl

theorem asFields_trees (fields : List (String × List String)) :
    ClientStreams.asFields (treeOf wire.printer (.object (messageEntries fields))) =
      some (some (indexMap fields)) := by
  have hread : (fieldTrees wire.printer (messageEntries fields)).mapM (fun field =>
      (stringOf field.1).bind fun name => (ClientStreams.asStrings field.2).map fun messages =>
        (name, messages)) = some fields := by
    unfold messageEntries
    induction fields with
    | nil => rfl
    | cons field fields ih =>
      rw [map_cons, fieldTrees, mapM_cons, ih, stringOf_points, asStrings_trees]
      rfl
  rw [treeOf, ClientStreams.asFields, hread]
  rfl

/-- A payload in an error body that is read from a line. -/
def lineData : Option (Value serde.Number) → Option (Value serde.Number)
  | none => none
  | some .null => none
  | some value => some (reread wire.printer serde.number value)

def lineReceived (error : Error serde) : ErrorBody serde :=
  ⟨error.code, error.kind, error.message, error.fields.map indexMap, lineData wire error.data⟩

theorem data_read (data : Option (Value serde.Number))
    (hfits : ∀ value ∈ data, Fits wire.printer serde.number maxDepth value) :
    (data.map (treeOf wire.printer)).elim (some none) (ClientStreams.asData serde.number) =
      some (lineData wire data) := by
  cases data with
  | none => rfl
  | some value =>
    have hread := (ofTree_iff wire.printer serde.number maxDepth value _).mpr ⟨hfits value rfl, rfl⟩
    cases value with
    | null => rfl
    | bool | number | string | array | object => exact congrArg (Option.map some) hread

theorem data_fits {data read : Option (Value serde.Number)}
    (h : (data.map (treeOf wire.printer)).elim (some none) (ClientStreams.asData serde.number) =
      some read) : ∀ value ∈ data, Fits wire.printer serde.number maxDepth value := by
  rintro value rfl
  have hfits : ∀ other, (ofTree serde.number maxDepth (treeOf wire.printer value)).map some =
      some other → Fits wire.printer serde.number maxDepth value := by
    intro other hother
    obtain ⟨found, hfound, _⟩ := Option.map_eq_some_iff.mp hother
    exact ((ofTree_iff wire.printer serde.number maxDepth value found).mp hfound).1
  cases value with
  | null => exact fits_leaf rfl rfl rfl
  | bool | number | string | array | object => exact hfits read h

theorem readErrorBody_tree (hlaw : wire.Lawful) {error : Error serde} (hcode : error.code ≤ 65535) :
    ClientStreams.readErrorBody serde.number (treeOf wire.printer
      (.object (serializeStruct (errorStruct .object error)))) =
      ((error.data.map (treeOf wire.printer)).elim (some none)
        (ClientStreams.asData serde.number)).map fun data =>
          ⟨error.code, error.kind, error.message, error.fields.map indexMap, data⟩ := by
  have hfield := onceIn_struct wire _ (errorStruct_keys .object error)
  unfold errorStruct at hfield
  simp only [forall_mem_cons] at hfield
  obtain ⟨hcodeRead, hkindRead, hmessageRead, hfieldsRead, hdataRead, _⟩ := hfield
  unfold errorStruct
  rw [treeOf, ClientStreams.readErrorBody, hcodeRead, hkindRead, hmessageRead, hfieldsRead,
    hdataRead]
  simp only [bind_some]
  unfold ClientStreams.errorBody
  have hasCode : ((some (Value.number (serde.ofNat error.code))).map
      (treeOf wire.printer)).bind ClientStreams.asCode = some error.code := by
    rw [map_some, bind_some, treeOf, ClientStreams.asCode,
      hlaw.token _ (hcode.trans (by decide)), readUnsigned_toDigits hcode]
  have hasKind : ((if isDefaultKind error.kind then none else some (.string error.kind) :
      Option (Value serde.Number)).map (treeOf wire.printer)).elim (some "error")
      ClientStreams.asString = some error.kind := by
    unfold isDefaultKind
    by_cases hkind : error.kind = "error"
    · rw [if_pos (decide_eq_true hkind), hkind]
      rfl
    · rw [if_neg (by simpa using hkind), map_some, treeOf]
      exact stringOf_points error.kind
  have hasMessage : ((some (Value.string error.message : Value serde.Number)).map
      (treeOf wire.printer)).bind ClientStreams.asString = some error.message := by
    rw [map_some, bind_some, treeOf]
    exact stringOf_points error.message
  have hasFields : ((error.fields.map fun fields => Value.object (messageEntries fields)).map
      (treeOf wire.printer)).elim (some none) ClientStreams.asFields =
      some (error.fields.map indexMap) := by
    cases error.fields with
    | none => rfl
    | some fields => exact asFields_trees wire fields
  rw [hasCode, hasKind, hasMessage, hasFields]
  rfl

section
variable (printer : Printer serde.Number) (room : ℕ)

/-- There is room for the nesting, and every number is read. -/
def Holds (value : Value serde.Number) : Prop :=
  depth value ≤ room ∧ legible printer serde.number (numbers value) = true

variable {printer room} in
theorem holds_of_fits {value : Value serde.Number} (h : Fits printer serde.number room value) :
    Holds printer room value := ⟨h.1, h.2.1⟩

theorem holds_array (items : List (Value serde.Number)) :
    Holds printer (room + 1) (.array items) ↔ ∀ item ∈ items, Holds printer room item := by
  unfold Holds
  rw [depth, numbers, Nat.add_le_add_iff_right, depths_le, legible_items]
  exact forall₂_and.symm

theorem holds_object (entries : Entries String (Value serde.Number)) :
    Holds printer (room + 1) (.object entries) ↔ ∀ entry ∈ entries, Holds printer room entry.2 := by
  unfold Holds
  rw [depth, numbers, Nat.add_le_add_iff_right, fieldDepths_le, legible_fields]
  exact forall₂_and.symm

theorem holds_struct (fields : List (Field serde)) :
    Holds printer (room + 1) (.object (serializeStruct fields)) ↔
      ∀ field ∈ fields, ∀ value ∈ field.value, Holds printer room value :=
  (holds_object printer room _).trans (serializeStruct_forall fields)

theorem buffers_treeOf (room : ℕ) (value : Value serde.Number) :
    ClientStreams.buffers serde.number room (treeOf printer value) = true ↔
      Holds printer room value := by
  cases value with
  | null | bool => exact iff_of_true (by cases room <;> rfl) ⟨Nat.zero_le _, rfl⟩
  | string text =>
    rw [treeOf, ClientStreams.buffers, stringOf_points]
    exact iff_of_true rfl ⟨Nat.zero_le _, rfl⟩
  | number n => simp [treeOf, ClientStreams.buffers, Holds, depth, numbers, legible]
  | array items =>
    cases room with
    | zero => exact iff_of_false (fun h => (by cases h)) fun h => absurd h.1 (Nat.not_succ_le_zero _)
    | succ room =>
      rw [holds_array, treeOf, treesOf_eq, ClientStreams.buffers, all_map, all_eq_true]
      exact forall₂_congr fun item _ => buffers_treeOf room item
  | object entries =>
    cases room with
    | zero => exact iff_of_false (fun h => (by cases h)) fun h => absurd h.1 (Nat.not_succ_le_zero _)
    | succ room =>
      rw [holds_object, treeOf, fieldTrees_eq, ClientStreams.buffers, all_map, all_eq_true]
      refine forall₂_congr fun entry _ => ?_
      rw [Function.comp_apply, stringOf_points, Option.isSome_some, Bool.true_and]
      exact buffers_treeOf room entry.2
termination_by room

end

theorem readFrame_text (hlaw : wire.Lawful) (value : Value serde.Number)
    (read : ClientStreams.WireFrame serde.Number) :
    ClientStreams.readFrame serde.number (textOf wire.printer value) = some read ↔
      Holds wire.printer maxDepth value ∧
        ClientStreams.frameOf serde.number (treeOf wire.printer value) = some read := by
  unfold ClientStreams.readFrame
  rw [(spells_textOf hlaw.printer value).2, bind_some, ← buffers_treeOf]
  split_ifs with hbuffers
  · exact ⟨fun h => ⟨hbuffers, h⟩, fun h => h.2⟩
  · exact ⟨nofun, fun h => absurd h.1 hbuffers⟩

def frameStruct (index : ℕ) (action tag key : String) (value : Value serde.Number) :
    List (Field serde) :=
  [⟨"type", some (.string tag)⟩, ⟨"index", some (.number (serde.ofNat index))⟩,
    ⟨"action", some (.string action)⟩, ⟨key, some value⟩]

theorem frameStruct_plain (index : ℕ) (action tag key : String) (value : Value serde.Number)
    (hkey : rawKey ∉ ["type", "index", "action", key]) :
    rawKey ∉ (frameStruct index action tag key value).map Field.key := hkey

theorem frameStruct_each {p : Value serde.Number → Prop} {index : ℕ} (action tag key : String)
    (value : Value serde.Number) (hstring : ∀ text, p (.string text))
    (hindex : p (.number (serde.ofNat index))) :
    (∀ field ∈ frameStruct index action tag key value, ∀ value ∈ field.value, p value) ↔ p value := by
  unfold frameStruct
  simp only [forall_mem_cons]
  refine ⟨fun h => h.2.2.2.1 value rfl, fun h => ⟨?_, ?_, ?_, ?_, ?_⟩⟩
  · rintro _ ⟨⟩
    exact hstring _
  · rintro _ ⟨⟩
    exact hindex
  · rintro _ ⟨⟩
    exact hstring _
  · rintro _ ⟨⟩
    exact h
  · exact nofun

theorem holds_frameStruct (hlaw : wire.Lawful) {index : ℕ} (hindex : index ≤ u64Max)
    (action tag key : String) (value : Value serde.Number) :
    Holds wire.printer maxDepth
      (.object (serializeStruct (frameStruct index action tag key value))) ↔
      Holds wire.printer 126 value :=
  (holds_struct _ 126 _).trans (frameStruct_each action tag key value
    (fun text => holds_of_fits (fits_string _ _ _ text))
    (holds_of_fits (fits_ofNat wire hlaw 126 hindex)))

theorem fits_iff (room : ℕ) (hroom : room ≤ maxDepth) (value : Value serde.Number) :
    Holds wire.printer room value ∧ Fits wire.printer serde.number maxDepth value ↔
      Fits wire.printer serde.number room value :=
  ⟨fun h => ⟨h.1.1, h.1.2, h.2.2.2⟩, fun h => ⟨holds_of_fits h, h.mono _ _ hroom⟩⟩

theorem parseLine_ok_iff (hlaw : wire.Lawful) {index : ℕ} (hindex : index ≤ u64Max)
    (action : String) (data : Value serde.Number) (result : ActionResult serde) :
    parseLine (streamText wire index action (.ok data)) = some result ↔
      Fits wire.printer serde.number 126 data ∧
        result = .ok (reread wire.printer serde.number data) := by
  have hkeys : ((frameStruct index action "next" "data" data).map Field.key).Nodup := by
    change (["type", "index", "action", "data"] : List String).Nodup
    decide
  have htype := values_struct wire _ hkeys mem_cons_self
  have hdata := onceIn_struct wire _ hkeys ⟨"data", some data⟩
    (by unfold frameStruct; simp)
  have hframe : ClientStreams.frameOf serde.number
      (treeOf wire.printer (streamFrame index action (.ok data))) =
      (ofTree serde.number maxDepth (treeOf wire.printer data)).map .next := by
    change ClientStreams.frameOf _ (treeOf wire.printer (.object (serializeStruct
      (frameStruct index action "next" "data" data)))) = _
    rw [treeOf, ClientStreams.frameOf, htype, hdata]
    rfl
  unfold parseLine streamText
  rw [bind_eq_some_iff]
  constructor
  · rintro ⟨frame, hread, hresult⟩
    obtain ⟨hholds, hnext⟩ := (readFrame_text wire hlaw _ frame).mp hread
    rw [hframe] at hnext
    obtain ⟨value, hvalue, rfl⟩ := Option.map_eq_some_iff.mp hnext
    obtain ⟨hfits, rfl⟩ := (ofTree_iff wire.printer serde.number maxDepth data value).mp hvalue
    have hdataHolds := (holds_frameStruct wire hlaw hindex action "next" "data" data).mp hholds
    exact ⟨(fits_iff wire 126 (by decide) data).mp ⟨hdataHolds, hfits⟩,
      (Option.some.inj hresult).symm⟩
  · rintro ⟨hfits, rfl⟩
    refine ⟨_, (readFrame_text wire hlaw _ (.next _)).mpr ⟨?_, ?_⟩, rfl⟩
    · exact (holds_frameStruct wire hlaw hindex action "next" "data" data).mpr (holds_of_fits hfits)
    · rw [hframe, (ofTree_iff wire.printer serde.number maxDepth data _).mpr
        ⟨hfits.mono _ _ (by decide), rfl⟩]
      rfl

theorem holds_errorFrame (hlaw : wire.Lawful) {index : ℕ} (hindex : index ≤ u64Max)
    (action : String) {error : Error serde} (hcode : error.code ≤ 65535) :
    Holds wire.printer maxDepth (streamFrame index action (.error error)) ↔
      ∀ data ∈ error.data, Holds wire.printer 125 data := by
  have hstring : ∀ text, Holds wire.printer 125 (.string text : Value serde.Number) :=
    fun text => holds_of_fits (fits_string _ _ _ text)
  refine ((holds_frameStruct wire hlaw hindex action "error" "error" _).trans
    ((holds_struct _ 125 _).trans (errorStruct_each .object hstring (holds_of_fits
      (fits_ofNat wire hlaw 125 (hcode.trans (by decide))))))).trans ?_
  refine and_iff_left_of_imp fun _ fields _ => (holds_object _ 124 _).mpr fun entry hentry => ?_
  obtain ⟨field, _, rfl⟩ := mem_map.mp hentry
  refine (holds_array _ 123 _).mpr fun item hitem => ?_
  obtain ⟨message, _, rfl⟩ := mem_map.mp hitem
  exact holds_of_fits (fits_string _ _ _ message)

theorem parseLine_error_iff (hlaw : wire.Lawful) (index : ℕ) (hindex : index ≤ u64Max)
    (action : String) (error : Error serde) (hcode : error.code ≤ 65535)
    (result : ActionResult serde) :
    parseLine (streamText wire index action (.error error)) = some result ↔
      (∀ data ∈ error.data, Fits wire.printer serde.number 125 data) ∧
        result = .error (lineReceived wire error) := by
  set body : Value serde.Number := .object (serializeStruct (errorStruct .object error)) with hbody
  have hkeys : ((frameStruct index action "error" "error" body).map Field.key).Nodup := by
    change (["type", "index", "action", "error"] : List String).Nodup
    decide
  have htype := values_struct wire _ hkeys mem_cons_self
  have herror := onceIn_struct wire _ hkeys ⟨"error", some body⟩ (by unfold frameStruct; simp)
  have hframe : ClientStreams.frameOf serde.number
      (treeOf wire.printer (streamFrame index action (.error error))) =
      (ClientStreams.readErrorBody serde.number (treeOf wire.printer body)).map .error := by
    change ClientStreams.frameOf _ (treeOf wire.printer (.object (serializeStruct
      (frameStruct index action "error" "error" body)))) = _
    rw [treeOf, ClientStreams.frameOf, htype, herror]
    rfl
  rw [hbody, readErrorBody_tree wire hlaw hcode, Option.map_map] at hframe
  unfold parseLine streamText
  rw [bind_eq_some_iff]
  constructor
  · rintro ⟨frame, hread, hresult⟩
    obtain ⟨hholds, hnext⟩ := (readFrame_text wire hlaw _ frame).mp hread
    rw [hframe] at hnext
    obtain ⟨read, hdata, rfl⟩ := Option.map_eq_some_iff.mp hnext
    have hfits := data_fits wire hdata
    have hdataHolds := (holds_errorFrame wire hlaw hindex action hcode).mp hholds
    rw [data_read wire error.data hfits] at hdata
    cases hdata
    exact ⟨fun value hin => (fits_iff wire 125 (by decide) value).mp
      ⟨hdataHolds value hin, hfits value hin⟩, (Option.some.inj hresult).symm⟩
  · rintro ⟨hfits, rfl⟩
    refine ⟨.error ⟨error.code, error.kind, error.message, error.fields.map indexMap,
      lineData wire error.data⟩, (readFrame_text wire hlaw _ _).mpr ⟨?_, ?_⟩, rfl⟩
    · exact (holds_errorFrame wire hlaw hindex action hcode).mpr fun data hin =>
        holds_of_fits (hfits data hin)
    · rw [hframe, data_read wire error.data fun data hin => (hfits data hin).mono _ _ (by decide)]
      rfl

theorem fits_errorFrame (hlaw : wire.Lawful) {index : ℕ} (hindex : index ≤ u64Max)
    (action : String) {error : Error serde} (hcode : error.code ≤ 65535) :
    Fits wire.printer serde.number maxDepth (streamFrame index action (.error error)) ↔
      (∀ data ∈ error.data, Fits wire.printer serde.number 125 data) ∧
        ∀ fields ∈ error.fields, startsRaw fields = false := by
  have hplain := frameStruct_plain index action "error" "error"
    (.object (serializeStruct (errorStruct .object error))) (by decide)
  refine ((fits_struct _ 126 hplain).trans
    ((frameStruct_each action "error" "error" _ (fits_string _ _ 126)
      (fits_ofNat wire hlaw 126 hindex)).trans ?_))
  refine (fits_struct _ 125 (errorStruct_plain .object error)).trans
    ((fits_error wire hlaw hcode 125 .object).trans ?_)
  exact and_congr_right fun _ => forall₂_congr fun fields _ => fits_messages _ 123 fields

def frameError (text : List Char) : Option (Value serde.Number) :=
  (fromText serde.number text).bind fun frame => get frame "error"

def envelopeError (action : String) (text : List Char) : Option (Value serde.Number) :=
  (fromText serde.number text).bind fun response => (get response action).bind fun envelope =>
    get envelope "error"

theorem rereadFields_struct : rereadFields wire.printer serde.number (serializeStruct fields) =
      serializeStruct (fields.map fun field =>
        ⟨field.key, field.value.map (reread wire.printer serde.number)⟩) := by
  rw [rereadFields_eq_map]
  unfold serializeStruct
  rw [map_filterMap, filterMap_map]
  congr 1
  funext field
  rw [Function.comp_apply]
  cases field.value with
  | none | some value => rfl

theorem reread_body {error : Error serde} (hplain : PlainFields error)
    (hline : ∀ fields ∈ error.fields, startsRaw fields = false) :
    reread wire.printer serde.number (.object (serializeStruct (errorStruct .object error))) =
      reread wire.printer serde.number (errorToValue error) := by
  have hfields : rereadFields wire.printer serde.number
      (serializeStruct (errorStruct .object error)) =
      rereadFields wire.printer serde.number (serializeStruct (errorStruct toMap error)) := by
    rw [rereadFields_struct, rereadFields_struct]
    unfold errorStruct
    cases hmessages : error.fields with
    | none => rfl
    | some fields =>
      simp only [map_cons, map_some, toMap_messages,
        reread_messages wire.printer (hline fields hmessages),
        reread_messages wire.printer (hplain fields hmessages), fieldsValue_sorted]
  have hraw := serializeStruct_plain (errorStruct_plain .object error)
  unfold errorToValue
  rw [reread_toMap wire (serializeStruct_plain (errorStruct_plain toMap error)), reread,
    if_neg (by rw [startsRaw_of_not_mem hraw]; decide), hfields]
  refine congrArg Value.object (sortedMap_ext _ _ fun key => ?_)
  rw [rereadFields_eq_map, rereadFields_eq_map,
    last_map _ (fun _ => reread wire.printer serde.number),
    last_map _ (fun _ => reread wire.printer serde.number), last_sortedMap]

theorem error_objects (hlaw : wire.Lawful) {action : String} (haction : action ≠ rawKey)
    {id index : ℕ} (hid : id ≤ u64Max) (hindex : index ≤ u64Max) {error : Error serde}
    (hcode : error.code ≤ 65535)
    (hfits : ∀ data ∈ error.data, Fits wire.printer serde.number 124 data)
    (hplain : PlainFields error) (hline : ∀ fields ∈ error.fields, startsRaw fields = false) :
    envelopeError action (responseText wire action (.error error)) =
      some (reread wire.printer serde.number (errorToValue error)) ∧
    frameError (resultText wire id (.error error)) =
      some (reread wire.printer serde.number (errorToValue error)) ∧
    frameError (streamText wire index action (.error error)) =
      some (reread wire.printer serde.number (errorToValue error)) := by
  have hmore : ∀ data ∈ error.data, Fits wire.printer serde.number 125 data :=
    fun data hin => (hfits data hin).mono _ _ (by decide)
  refine ⟨?_, ?_, ?_⟩
  · have hread := (fromText_textOf_iff wire.printer serde.number hlaw.printer
      (responseValue action (.error error)) _).mpr ⟨(fits_response wire action _ 126).mpr
        ⟨haction, (fits_envelope wire hlaw hcode).mpr ⟨hfits, hplain⟩⟩, rfl⟩
    unfold envelopeError responseText
    rw [hread, bind_some, get_response wire haction, bind_some, intoValue_eq]
    exact get_reread_toMap wire (show rawKey ∉ (serializeStruct [⟨"status", some (.string "error")⟩,
      ⟨"error", some (errorToValue error)⟩]).map Prod.fst from
        show rawKey ∉ ["status", "error"] by decide) "error"
  · have hread := (fromText_textOf_iff wire.printer serde.number hlaw.printer
      (resultFrame id (.error error)) _).mpr
        ⟨(fits_resultFrame wire hlaw hid hcode).mpr ⟨hmore, hplain⟩, rfl⟩
    unfold frameError resultText
    rw [hread, bind_some]
    exact get_reread_toMap wire (resultFrame_plain id (errorToValue error) "error" "error"
      (by decide)) "error"
  · have hread := (fromText_textOf_iff wire.printer serde.number hlaw.printer
      (streamFrame index action (.error error)) _).mpr
        ⟨(fits_errorFrame wire hlaw hindex action hcode).mpr ⟨hmore, hline⟩, rfl⟩
    unfold frameError streamText
    rw [hread, bind_some, ← reread_body wire hplain hline]
    have hstart := startsRaw_of_not_mem (serializeStruct_plain (frameStruct_plain index action
      "error" "error" (.object (serializeStruct (errorStruct .object error))) (by decide)))
    change get (reread _ _ (.object (serializeStruct (frameStruct index action "error" "error"
      _)))) "error" = _
    rw [reread, if_neg (by rw [hstart]; decide), get, lookup_reread]
    rfl

/-- The same messages under the same fields, as two `IndexMap`s are compared. -/
def SameFields : Option (Entries String (List String)) → Option (Entries String (List String)) → Prop
  | none, none => True
  | some fields, some fields' => ∀ key, last fields key = last fields' key
  | _, _ => False

structure SameBody (body : ErrorBody serde) (error : Error serde) : Prop where
  code : body.code = error.code
  kind : body.kind = error.kind
  message : body.message = error.message
  fields : SameFields body.fields error.fields
  data : body.data = error.data

/-- An error and a value come through every transport as they were. -/
structure Survives (error : Error serde) (data : Value serde.Number) (action : String)
    (id index : ℕ) : Prop where
  derived : intoValue (.ok data) = replyToValue (.ok data) ∧
    intoValue (.error error) = replyToValue (.error error)
  object : ∃ object : Value serde.Number,
    envelopeError action (responseText wire action (.error error)) = some object ∧
    frameError (resultText wire id (.error error)) = some object ∧
    frameError (streamText wire index action (.error error)) = some object
  envelope : ∃ body, fetch wire action (responseText wire action (.error error)) =
    some (.error body) ∧ SameBody body error
  frame : ∃ body, parseFrame wire (resultText wire id (.error error)) =
    some (.result id (.error body)) ∧ SameBody body error
  line : ∃ body, parseLine (streamText wire index action (.error error)) = some (.error body) ∧
    SameBody body error
  envelopeData : fetch wire action (responseText wire action (.ok data)) = some (.ok data)
  frameData : parseFrame wire (resultText wire id (.ok data)) = some (.result id (.ok data))
  lineData : parseLine (streamText wire index action (.ok data)) = some (.ok data)
  detail : ∀ detail, responseText wire action (.error { error with detail := detail }) =
      responseText wire action (.error error) ∧
    resultText wire id (.error { error with detail := detail }) = resultText wire id (.error error) ∧
    streamText wire index action (.error { error with detail := detail }) =
      streamText wire index action (.error error)

/-- The payload is no `null`; payload and data nest no deeper than the envelope allows, and are
read from their own text. Neither the messages nor the action start an object with the key of a
`RawValue`. -/
structure Sendable (error : Error serde) (data : Value serde.Number) (action : String) : Prop where
  notNull : error.data ≠ some .null
  payload : ∀ value ∈ error.data, depth value ≤ 124 ∧ RoundTrips wire.printer serde.number value
  data : depth data ≤ 125 ∧ RoundTrips wire.printer serde.number data
  fields : ∀ fields ∈ error.fields, startsRaw fields = false ∧ startsRaw (sortedMap fields) = false
  action : action ≠ rawKey

theorem fits_and_same (room : ℕ) {value : Value serde.Number} (hproper : Proper value) :
    (Fits wire.printer serde.number room value ∧ reread wire.printer serde.number value = value) ↔
    depth value ≤ room ∧ RoundTrips wire.printer serde.number value := by
  rw [roundTrips_iff wire.printer serde.number value hproper]
  unfold Fits
  rw [and_assoc, and_assoc]

theorem lineData_eq_iff (data : Option (Value serde.Number)) : lineData wire data = data ↔
      data ≠ some .null ∧ ∀ value ∈ data, reread wire.printer serde.number value = value := by
  cases data with
  | none => exact ⟨fun _ => ⟨nofun, nofun⟩, fun _ => rfl⟩
  | some value =>
    have hforall : (∀ other ∈ some value, reread wire.printer serde.number other = other) ↔
        reread wire.printer serde.number value = value :=
      ⟨fun h => h value rfl, fun h other heq => by cases heq; exact h⟩
    rw [hforall]
    cases value with
    | null => exact ⟨nofun, fun h => absurd rfl h.1⟩
    | bool | number | string | array | object =>
      exact ⟨fun h => ⟨nofun, Option.some.inj h⟩, fun h => congrArg some h.2⟩

theorem readData_kept {data : Option (Value serde.Number)} (hnull : data ≠ some .null)
    (hkept : ∀ value ∈ data, reread wire.printer serde.number value = value ∧ rawless value = true) :
    readData wire data = some data := by
  cases data with
  | none => rfl
  | some value =>
    obtain ⟨hsame, hrawless⟩ := hkept value rfl
    have hread := congrArg (Option.map some) (fromValue_rawless serde.number value hrawless)
    unfold readData
    rw [map_some, hsame]
    cases value with
    | null => exact absurd rfl hnull
    | bool | number | string | array | object => exact hread

theorem sameFields_map (fields : Option (Entries String (List String)))
    (f : Entries String (List String) → Entries String (List String))
    (hf : ∀ entries key, last (f entries) key = last entries key) :
    SameFields (fields.map f) fields := by
  cases fields with
  | none => trivial
  | some entries => exact hf entries

end

end

/-- Natural numbers in decimal, strings as serde escapes them. -/
def decimalWire : Wire RouterRequests.naturals where
  printer := ⟨PostgresBroker.escapeJson, fun n => Nat.toDigits 10 n⟩
  asU64 := fun n : ℕ => if n ≤ u64Max then some n else none

theorem number_toDigits (n : ℕ) : RouterRequests.naturals.number (Nat.toDigits 10 n) = some n := by
  change (if (Nat.toDigits 10 n).all Char.isDigit then
    some (Nat.ofDigitChars 10 (Nat.toDigits 10 n) 0) else none) = some n
  rw [if_pos (all_eq_true.mpr fun c hc => toDigits_isDigit n c hc), Nat.ofDigitChars_ten_toDigits]

theorem decimalWire_lawful : decimalWire.Lawful where
  printer := ⟨PostgresBroker.escapeJson_reads, word_toDigits⟩
  token _ _ := rfl
  number n _ := number_toDigits n
  asU64 _ hn := if_pos hn

def quotaError : Error RouterRequests.naturals :=
  ⟨⟨429, "quota", "slow down"⟩, some [("b", ["late"]), ("a", ["\"\n"])],
    some (.object [("resetsAt", .number (7 : ℕ))]), some "bucket 12"⟩

def quotaData : Value ℕ := .array [.null, .string "\\"]

def nullPayload : Error RouterRequests.naturals :=
  ⟨⟨429, "quota", "slow down"⟩, none, some .null, none⟩

def emptied : ErrorBody RouterRequests.naturals := ⟨429, "quota", "slow down", none, none⟩

end Stakit.RouterTransports
