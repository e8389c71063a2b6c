import Stakit.PubsubFrames
import Stakit.TransportRoundTrips

set_option autoImplicit false

namespace Stakit.RouterTransports
open JsonText SerdeJson EntryMaps
open PubsubFrames (publishFrame resetFrame unsubscribedFrame)
open RouterRequests (Serde)
open Option (bind_some map_some)

variable {serde : Serde} (wire : Wire serde)

theorem parseFrame_fields {text : List Char} (fields : List (String × Json))
    (hplain : startsRaw fields = false)
    (hparse : parse text = some (.object (fields.map fun field => (points field.1, field.2)))) :
    parseFrame wire text =
      (fields.mapM fun field => (ofTree serde.number 126 field.2).map fun value =>
        (field.1, value)).bind fun entries => frameOf wire (.object (sortedMap entries)) := by
  have hmap : (fields.map fun field => (points field.1, field.2)).mapM
      (fun field => (stringOf field.1).bind fun name =>
        (ofTree serde.number 126 field.2).map fun value => (name, value)) =
      fields.mapM fun field => (ofTree serde.number 126 field.2).map fun value =>
        (field.1, value) := by
    rw [List.mapM_map]
    congr 1
    funext field
    rw [Function.comp_apply, stringOf_points]
    rfl
  have hwrapper : isWrapper (fields.map fun field => (points field.1, field.2)) = false := by
    rw [← hplain]
    cases fields with
    | nil => rfl
    | cons field fields =>
      refine decide_eq_decide.mpr ?_
      rw [stringOf_points, Option.some.injEq]
  unfold parseFrame
  rw [fromText_eq, hparse, bind_some, maxDepth, ofTree_object _ _ hwrapper, hmap,
    Option.bind_map]
  rfl

theorem ofTree_points (room : ℕ) (text : String) :
    ofTree serde.number room (.string (points text)) = some (.string text) := by
  rw [ofTree_string, stringOf_points]
  rfl

theorem ofTree_decimal (hlaw : wire.Lawful) (room : ℕ) {n : ℕ} (hn : n ≤ u64Max) :
    ofTree serde.number room (.number (Nat.toDigits 10 n)) = some (.number (serde.ofNat n)) := by
  rw [ofTree_number, hlaw.number n hn]
  rfl

theorem get_sortedMap (entries : Entries String (Value serde.Number)) (name : String) :
    get (.object (sortedMap entries)) name = last entries name := lookup_sortedMap _ _

theorem numberField_ofNat (hlaw : wire.Lawful) {value : Value serde.Number} {name : String} {n : ℕ}
    (hn : n ≤ u64Max) (h : get value name = some (.number (serde.ofNat n))) :
    numberField wire value name = n := by
  unfold numberField
  rw [h, bind_some]
  dsimp only
  rw [hlaw.asU64 n hn]
  rfl

theorem publishFrame_read (hlaw : wire.Lawful) (topic name : String) (params : List Char)
    {tree : Json} {epoch seq : ℕ} (hparams : parse params = some tree) (hepoch : epoch ≤ u64Max)
    (hseq : seq ≤ u64Max) :
    parseFrame wire (publishFrame topic name params epoch seq) =
      (ofTree serde.number 126 tree).map (.publish topic name seq epoch) := by
  rw [parseFrame_fields wire [("kind", .string (points "publish")),
    ("topic", .string (points topic)), ("name", .string (points name)),
    ("seq", .number (Nat.toDigits 10 seq)), ("epoch", .number (Nat.toDigits 10 epoch)),
    ("params", tree)] rfl (PubsubFrames.publishFrame_parses topic name params epoch seq hparams)]
  simp only [List.mapM_cons, List.mapM_nil, ofTree_points, ofTree_decimal wire hlaw _ hseq,
    ofTree_decimal wire hlaw _ hepoch, map_some, Option.bind_eq_bind, bind_some]
  cases ofTree serde.number 126 tree with
  | none => rfl
  | some value =>
    simp only [map_some, bind_some, Option.pure_def]
    unfold frameOf textField
    rw [get_sortedMap, get_sortedMap, get_sortedMap, get_sortedMap,
      numberField_ofNat wire hlaw hseq (get_sortedMap _ "seq"),
      numberField_ofNat wire hlaw hepoch (get_sortedMap _ "epoch")]
    rfl

theorem resetFrame_read (hlaw : wire.Lawful) (topic : String) {epoch : ℕ}
    (hepoch : epoch ≤ u64Max) :
    parseFrame wire (resetFrame topic epoch) = some (.reset topic epoch 0) := by
  have hzero : 0 ≤ u64Max := Nat.zero_le _
  rw [parseFrame_fields wire [("kind", .string (points "reset")),
    ("topic", .string (points topic)), ("epoch", .number (Nat.toDigits 10 epoch)),
    ("seq", .number (Nat.toDigits 10 0))] rfl (PubsubFrames.resetFrame_parses topic epoch)]
  simp only [List.mapM_cons, List.mapM_nil, ofTree_points, ofTree_decimal wire hlaw _ hepoch,
    ofTree_decimal wire hlaw _ hzero, map_some, Option.bind_eq_bind, bind_some,
    Option.pure_def]
  unfold frameOf textField
  rw [get_sortedMap, get_sortedMap, numberField_ofNat wire hlaw hzero (get_sortedMap _ "seq"),
    numberField_ofNat wire hlaw hepoch (get_sortedMap _ "epoch")]
  rfl

theorem unsubscribedFrame_read (topic reason : String) :
    parseFrame wire (unsubscribedFrame topic reason) = some (.unsubscribed topic) := by
  rw [parseFrame_fields wire [("kind", .string (points "unsubscribed")),
    ("topic", .string (points topic)), ("reason", .string (points reason))] rfl
    (PubsubFrames.unsubscribedFrame_parses topic reason)]
  simp only [List.mapM_cons, List.mapM_nil, ofTree_points, map_some, Option.bind_eq_bind,
    bind_some, Option.pure_def]
  unfold frameOf textField
  rw [get_sortedMap, get_sortedMap]
  rfl

/-- A publish is lost only when the client cannot read its params. -/
theorem hub_frames_read (hlaw : wire.Lawful) (topic name reason : String) (params : List Char)
    (tree : Json) (epoch seq : ℕ) (hparams : parse params = some tree) (hepoch : epoch ≤ u64Max)
    (hseq : seq ≤ u64Max) :
    parseFrame wire (publishFrame topic name params epoch seq) =
        (ofTree serde.number 126 tree).map (.publish topic name seq epoch) ∧
      parseFrame wire (resetFrame topic epoch) = some (.reset topic epoch 0) ∧
      parseFrame wire (unsubscribedFrame topic reason) = some (.unsubscribed topic) :=
  ⟨publishFrame_read wire hlaw topic name params hparams hepoch hseq,
    resetFrame_read wire hlaw topic hepoch, unsubscribedFrame_read wire topic reason⟩

theorem hub_frames_read_decimal :
    parseFrame decimalWire (publishFrame "a\"b" "n\n" "[1]".toList 3 4) =
      some (.publish "a\"b" "n\n" 4 3 (.array [.number (1 : ℕ)])) := by
  have hparse : parse "[1]".toList = some (.array [.number "1".toList]) := by decide +kernel
  rw [(hub_frames_read decimalWire decimalWire_lawful "a\"b" "n\n" "kicked" "[1]".toList
    (.array [.number "1".toList]) 3 4 hparse (by decide) (by decide)).1]
  rfl

end Stakit.RouterTransports
