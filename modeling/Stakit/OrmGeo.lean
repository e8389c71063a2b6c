import Stakit.TextParts
import Stakit.ColumnValues
import Stakit.SchemaAttributes

set_option autoImplicit false

namespace Stakit.OrmGeo
open TextParts ColumnValues List
open SchemaAttributes (isWhitespace)

variable (L : Libraries)

/-- Coordinates as the bits of floats. -/
structure GeoPoint where
  lat : UInt64
  lng : UInt64
  srid : Option Int32
  deriving DecidableEq

inductive Error where
  | invalidPoint (text : List Char)
  | expectedGeometry (got : Value L)

def GeoPoint.wkt (point : GeoPoint) : String :=
  "POINT(" ++ L.f64.text point.lng ++ " " ++ L.f64.text point.lat ++ ")"

def withSridPrefix (wkt : String) (srid : Option Int32) : String :=
  match srid with
  | none => wkt
  | some srid => "SRID=" ++ decimal srid.toInt ++ ";" ++ wkt

def GeoPoint.ewkt (point : GeoPoint) : String := withSridPrefix (point.wkt L) point.srid

/-- A keyword in capitals or in small letters. -/
def stripKeyword (upper lower : String) (text : List Char) : Option (List Char) :=
  (stripPrefix upper.toList text).orElse fun _ => stripPrefix lower.toList text

def splitSrid (text : List Char) : Option Int32 × List Char :=
  let trimmed := trim isWhitespace text
  match (stripKeyword "SRID=" "srid=" trimmed).bind (splitOnce ';') with
  | some (digits, body) =>
    match parseI32 (.ofList (trim isWhitespace digits)) with
    | some srid => (some srid, trim isWhitespace body)
    | none => (none, trimmed)
  | none => (none, trimmed)

def pointInner (upper : List Char) : Option (List Char) :=
  (((stripKeyword "POINT" "point" upper).map (trim isWhitespace)).bind (stripPrefix ['('])).bind
    (stripSuffix ')')

def nextNumber (text : List Char) : Option (UInt64 × List Char) :=
  (nextWord isWhitespace text).bind fun (word, rest) =>
    (L.f64.parse (.ofList word)).map fun number => (number, rest)

def parsePoint (text : List Char) : Except (Error L) (UInt64 × UInt64 × Option Int32) :=
  let (srid, body) := splitSrid text
  match pointInner (trim isWhitespace body) with
  | none => .error (.invalidPoint text)
  | some inner =>
    match nextNumber L inner with
    | none => .error (.invalidPoint text)
    | some (lng, rest) =>
      match nextNumber L rest with
      | none => .error (.invalidPoint text)
      | some (lat, _) => .ok (lng, lat, srid)

def GeoPoint.toValue (point : GeoPoint) : Value L := .geo (point.wkt L) point.srid

def geoParts (value : Value L) : Except (Error L) (List Char × Option Int32) :=
  match value with
  | .geo wkt srid => .ok ((splitSrid wkt.toList).2, srid.or (splitSrid wkt.toList).1)
  | .text text => .ok ((splitSrid text.toList).2, (splitSrid text.toList).1)
  | other => .error (.expectedGeometry other)

def GeoPoint.fromValue (value : Value L) : Except (Error L) GeoPoint := do
  let (wkt, srid) ← geoParts L value
  let (lng, lat, bodySrid) ← parsePoint L wkt
  return ⟨lat, lng, srid.or bodySrid⟩

theorem stripKeyword_eq_some_iff {upper lower : String} (text rest : List Char)
    (hapart : ∀ front back, upper.toList ++ front ≠ lower.toList ++ back) :
    stripKeyword upper lower text = some rest ↔
      text = upper.toList ++ rest ∨ text = lower.toList ++ rest := by
  rw [← stripPrefix_eq_some_iff, ← stripPrefix_eq_some_iff]
  unfold stripKeyword
  cases hupper : stripPrefix upper.toList text with
  | none => simp
  | some tail =>
    rw [stripPrefix_eq_some_iff] at hupper
    have hlower : stripPrefix lower.toList text ≠ some rest := by
      rw [Ne, stripPrefix_eq_some_iff, hupper]
      exact hapart tail rest
    simp [hlower]

inductive SridPart : List Char → Option Int32 → Prop where
  | absent : SridPart [] none
  | given (keyword front digits back : List Char) (srid : Int32)
      (hkeyword : keyword = "SRID=".toList ∨ keyword = "srid=".toList)
      (hfront : Blank isWhitespace front) (hback : Blank isWhitespace back)
      (hdigits : parseI32 (.ofList digits) = some srid) :
      SridPart (keyword ++ (front ++ (digits ++ (back ++ [';'])))) (some srid)

def PointPart (text : List Char) (lng lat : UInt64) (rest : List Char) : Prop :=
  ∃ keyword gap front first between second,
    (keyword = "POINT".toList ∨ keyword = "point".toList) ∧ Blank isWhitespace gap ∧
    Blank isWhitespace front ∧ Word isWhitespace first ∧ L.f64.parse (.ofList first) = some lng ∧
    Blank isWhitespace between ∧ between ≠ [] ∧
    Word isWhitespace second ∧ L.f64.parse (.ofList second) = some lat ∧ Parted isWhitespace rest ∧
    text = keyword ++ (gap ++ '(' :: (front ++ (first ++ (between ++ (second ++ (rest ++ [')']))))))

def PointText (text : List Char) (lng lat : UInt64) (srid : Option Int32) (rest : List Char) :
    Prop :=
  ∃ front lead gap point back, Blank isWhitespace front ∧ SridPart lead srid ∧
    Blank isWhitespace gap ∧ PointPart L point lng lat rest ∧ Blank isWhitespace back ∧
    text = front ++ (lead ++ (gap ++ (point ++ back)))

variable (text : List Char) (lng lat : UInt64) (srid : Option Int32) (point : GeoPoint)

theorem nextNumber_eq_some_iff (rest : List Char) (number : UInt64) :
    nextNumber L text = some (number, rest) ↔
      ∃ front word, text = front ++ (word ++ rest) ∧ Blank isWhitespace front ∧
        Word isWhitespace word ∧ Parted isWhitespace rest ∧
        L.f64.parse (.ofList word) = some number := by
  unfold nextNumber
  constructor
  · intro h
    obtain ⟨⟨word, tail⟩, hword, hnumber⟩ := Option.bind_eq_some_iff.mp h
    obtain ⟨found, hparse, hpair⟩ := Option.map_eq_some_iff.mp hnumber
    cases hpair
    obtain ⟨front, htext, hfront, hword, hrest⟩ := (nextWord_eq_some_iff _ _ _).mp hword
    exact ⟨front, word, htext, hfront, hword, hrest, hparse⟩
  · rintro ⟨front, word, htext, hfront, hword, hrest, hparse⟩
    rw [(nextWord_eq_some_iff text word rest).mpr ⟨front, htext, hfront, hword, hrest⟩]
    dsimp only [Option.bind_some]
    rw [hparse]
    rfl

theorem splitSrid_split : ∃ front lead gap back,
    Blank isWhitespace front ∧ SridPart lead (splitSrid text).1 ∧ Blank isWhitespace gap ∧
      Blank isWhitespace back ∧ text = front ++ (lead ++ (gap ++ ((splitSrid text).2 ++ back))) := by
  obtain ⟨front, back, hfront, hback, htext⟩ := trim_split isWhitespace text
  have hnone : ∃ front' lead gap back', Blank isWhitespace front' ∧ SridPart lead none ∧
      Blank isWhitespace gap ∧ Blank isWhitespace back' ∧
      text = front' ++ (lead ++ (gap ++ (trim isWhitespace text ++ back'))) :=
    ⟨front, [], [], back, hfront, .absent, Blank.nil, hback, htext⟩
  unfold splitSrid
  dsimp only
  split
  · rename_i digits body hsplit
    split
    · rename_i srid hsrid
      obtain ⟨tail, hkeyword, hsplit⟩ := Option.bind_eq_some_iff.mp hsplit
      obtain ⟨htail, _⟩ := (splitOnce_eq_some_iff _ _ _ _).mp hsplit
      obtain ⟨before, after, hbefore, hafter, hdigits⟩ := trim_split isWhitespace digits
      obtain ⟨gap, back', hgap, hback', hbody⟩ := trim_split isWhitespace body
      have hapart : ∀ front back, "SRID=".toList ++ front ≠ "srid=".toList ++ back := nofun
      have hlead : ∀ keyword, keyword = "SRID=".toList ∨ keyword = "srid=".toList →
          trim isWhitespace text = keyword ++ tail → ∃ front lead gap back,
            Blank isWhitespace front ∧ SridPart lead (some srid) ∧ Blank isWhitespace gap ∧
            Blank isWhitespace back ∧
            text = front ++ (lead ++ (gap ++ (trim isWhitespace body ++ back))) := by
        intro keyword hkeyword htrim
        refine ⟨front, _, gap, back' ++ back, hfront,
          .given keyword before _ after srid hkeyword hbefore hafter hsrid, hgap,
          hback'.append hback, ?_⟩
        rw [htrim, htail] at htext
        conv_lhs => rw [htext, hdigits, hbody]
        simp only [append_assoc, cons_append, nil_append]
      rcases (stripKeyword_eq_some_iff _ _ hapart).mp hkeyword with htrim | htrim
      · exact hlead _ (.inl rfl) htrim
      · exact hlead _ (.inr rfl) htrim
    · exact hnone
  · exact hnone

theorem pointInner_eq_some_iff (upper inner : List Char) :
    pointInner upper = some inner ↔ ∃ keyword tail,
      (keyword = "POINT".toList ∨ keyword = "point".toList) ∧ upper = keyword ++ tail ∧
        trim isWhitespace tail = '(' :: (inner ++ [')']) := by
  have hapart : ∀ front back, "POINT".toList ++ front ≠ "point".toList ++ back := nofun
  unfold pointInner
  constructor
  · intro h
    obtain ⟨rest, hrest, hinner⟩ := Option.bind_eq_some_iff.mp h
    obtain ⟨trimmed, htrimmed, hopen⟩ := Option.bind_eq_some_iff.mp hrest
    obtain ⟨tail, htail, rfl⟩ := Option.map_eq_some_iff.mp htrimmed
    rw [stripPrefix_eq_some_iff] at hopen
    rw [stripSuffix_eq_some_iff] at hinner
    have htrim : trim isWhitespace tail = '(' :: (inner ++ [')']) := by
      rw [hopen, hinner]
      rfl
    rcases (stripKeyword_eq_some_iff _ _ hapart).mp htail with hupper | hupper
    · exact ⟨_, tail, .inl rfl, hupper, htrim⟩
    · exact ⟨_, tail, .inr rfl, hupper, htrim⟩
  · rintro ⟨keyword, tail, hkeyword, hupper, htrim⟩
    have hstrip : stripKeyword "POINT" "point" upper = some tail := by
      rw [stripKeyword_eq_some_iff _ _ hapart, hupper]
      exact hkeyword.imp (congrArg (· ++ tail)) (congrArg (· ++ tail))
    have hopen : stripPrefix ['('] ('(' :: (inner ++ [')'])) = some (inner ++ [')']) :=
      (stripPrefix_eq_some_iff _ _ _).mpr rfl
    have hclose : stripSuffix ')' (inner ++ [')']) = some inner :=
      (stripSuffix_eq_some_iff _ _ _).mpr rfl
    rw [hstrip, Option.map_some, htrim, Option.bind_some, hopen, Option.bind_some, hclose]

theorem parsePoint_eq_ok_iff : parsePoint L text = .ok (lng, lat, srid) ↔ ∃ inner rest rest',
      (splitSrid text).1 = srid ∧
      pointInner (trim isWhitespace (splitSrid text).2) = some inner ∧
      nextNumber L inner = some (lng, rest) ∧ nextNumber L rest = some (lat, rest') := by
  unfold parsePoint
  constructor
  · intro h
    dsimp only at h
    split at h
    · cases h
    · rename_i inner hinner
      split at h
      · cases h
      · rename_i first rest hfirst
        split at h
        · cases h
        · rename_i second rest' hsecond
          cases h
          exact ⟨inner, rest, rest', rfl, hinner, hfirst, hsecond⟩
  · rintro ⟨inner, rest, rest', hsrid, hinner, hfirst, hsecond⟩
    simp only [hinner, hfirst, hsecond, hsrid]

theorem numbers_iff (inner rest' : List Char) (lng lat : UInt64) :
    (∃ rest, nextNumber L inner = some (lng, rest) ∧ nextNumber L rest = some (lat, rest')) ↔
      ∃ front first between second, Blank isWhitespace front ∧ Word isWhitespace first ∧
        L.f64.parse (.ofList first) = some lng ∧ Blank isWhitespace between ∧ between ≠ [] ∧
        Word isWhitespace second ∧ L.f64.parse (.ofList second) = some lat ∧
        Parted isWhitespace rest' ∧
        inner = front ++ (first ++ (between ++ (second ++ rest'))) := by
  constructor
  · rintro ⟨rest, hfirst, hsecond⟩
    obtain ⟨front, first, rfl, hfront, hword, hparted, hlng⟩ :=
      (nextNumber_eq_some_iff L _ _ _).mp hfirst
    obtain ⟨between, second, rfl, hbetween, hword', hparted', hlat⟩ :=
      (nextNumber_eq_some_iff L _ _ _).mp hsecond
    refine ⟨front, first, between, second, hfront, hword, hlng, hbetween, ?_, hword', hlat,
      hparted', rfl⟩
    rintro rfl
    rw [nil_append] at hparted
    obtain ⟨c, second, rfl⟩ := exists_cons_of_ne_nil hword'.1
    have hblank := hparted c rfl
    rw [hword'.2 c mem_cons_self] at hblank
    cases hblank
  · rintro ⟨front, first, between, second, hfront, hword, hlng, hbetween, hne, hword', hlat,
      hparted', rfl⟩
    have hparted : Parted isWhitespace (between ++ (second ++ rest')) := by
      obtain ⟨c, between, rfl⟩ := exists_cons_of_ne_nil hne
      intro d hd
      cases hd
      exact hbetween c mem_cons_self
    exact ⟨_, (nextNumber_eq_some_iff L _ _ _).mpr ⟨front, first, rfl, hfront, hword, hparted, hlng⟩,
      (nextNumber_eq_some_iff L _ _ _).mpr ⟨between, second, rfl, hbetween, hword', hparted', hlat⟩⟩

theorem pointText_of_parsePoint (h : parsePoint L text = .ok (lng, lat, srid)) :
    ∃ rest, PointText L text lng lat srid rest := by
  obtain ⟨inner, rest, rest', rfl, hinner, hfirst, hsecond⟩ :=
    (parsePoint_eq_ok_iff L text lng lat srid).mp h
  obtain ⟨front, lead, gap, back, hfront, hlead, hgap, hback, htext⟩ := splitSrid_split text
  obtain ⟨before, after, hbefore, hafter, hbody⟩ := trim_split isWhitespace (splitSrid text).2
  obtain ⟨keyword, tail, hkeyword, hupper, htrim⟩ := (pointInner_eq_some_iff _ _).mp hinner
  obtain ⟨space, close, hspace, hclose, htail⟩ := trim_split isWhitespace tail
  obtain ⟨first, word, between, word', hblank, hword, hlng, hbetween, hne, hword', hlat, hparted,
    rfl⟩ := (numbers_iff L inner rest' lng lat).mp ⟨rest, hfirst, hsecond⟩
  refine ⟨rest', front, lead, gap ++ before, _, close ++ (after ++ back), hfront, hlead,
    hgap.append hbefore, ⟨keyword, space, first, word, between, word', hkeyword, hspace, hblank,
      hword, hlng, hbetween, hne, hword', hlat, hparted, rfl⟩,
    hclose.append (hafter.append hback), ?_⟩
  conv_lhs => rw [htext, hbody, hupper, htail, htrim]
  simp only [append_assoc, cons_append, nil_append]

theorem PointPart.tight {text : List Char} {lng lat : UInt64} {rest : List Char}
    (h : PointPart L text lng lat rest) : Tight isWhitespace text := by
  obtain ⟨keyword, gap, front, first, between, second, hkeyword, _, _, _, _, _, _, _, _, _, rfl⟩ := h
  constructor
  · rcases hkeyword with rfl | rfl
    · intro c hc
      cases hc
      decide
    · intro c hc
      cases hc
      decide
  · intro c hc
    obtain ⟨before, hbefore⟩ : ∃ before, keyword ++ (gap ++ '(' :: (front ++ (first ++ (between ++
        (second ++ (rest ++ [')'])))))) = before ++ [')'] := by
      refine ⟨keyword ++ (gap ++ '(' :: (front ++ (first ++ (between ++ (second ++ rest))))), ?_⟩
      simp only [append_assoc, cons_append]
    rw [hbefore, List.getLast?_concat] at hc
    cases hc
    decide

theorem PointPart.head {text : List Char} {lng lat : UInt64} {rest : List Char}
    (h : PointPart L text lng lat rest) : text.head? = some 'P' ∨ text.head? = some 'p' := by
  obtain ⟨keyword, gap, front, first, between, second, hkeyword, _, _, _, _, _, _, _, _, _, rfl⟩ := h
  rcases hkeyword with rfl | rfl
  · exact .inl rfl
  · exact .inr rfl

theorem splitSign_split : ∃ sign, (∀ c ∈ sign, c = '-' ∨ c = '+') ∧
    text = sign ++ (splitSign text).2 := by
  unfold splitSign
  split
  · exact ⟨['-'], by simp, rfl⟩
  · exact ⟨['+'], by simp, rfl⟩
  · exact ⟨[], by simp, rfl⟩

theorem readInt_chars {n : ℤ} (h : readInt text = some n) :
    text ≠ [] ∧ ∀ c ∈ text, c = '-' ∨ c = '+' ∨ c.isDigit = true := by
  obtain ⟨sign, hsign, htext⟩ := splitSign_split text
  unfold readInt at h
  dsimp only at h
  split at h
  · cases h
  · rename_i hdigits
    rw [not_or, Bool.not_eq_true, any_eq_false] at hdigits
    refine ⟨fun hnil => hdigits.1 (by rw [hnil]; rfl), fun c hc => ?_⟩
    rw [htext] at hc
    rcases mem_append.mp hc with hc | hc
    · exact (hsign c hc).imp id .inl
    · exact .inr (.inr (by simpa using hdigits.2 c hc))

theorem srid_chars {digits : List Char} {srid : Int32}
    (h : parseI32 (.ofList digits) = some srid) : Word isWhitespace digits ∧ ';' ∉ digits := by
  obtain ⟨n, hn, _⟩ := Option.map_eq_some_iff.mp h
  obtain ⟨hread, _⟩ := Option.filter_eq_some_iff.mp hn
  rw [String.toList_ofList] at hread
  obtain ⟨hne, hchars⟩ := readInt_chars digits hread
  refine ⟨⟨hne, fun c hc => ?_⟩, fun hc => ?_⟩
  · rcases hchars c hc with rfl | rfl | hdigit
    · decide
    · decide
    · rw [Char.isDigit_iff_toNat] at hdigit
      obtain ⟨hleast, hmost⟩ := hdigit
      change 48 ≤ c.toNat at hleast
      change c.toNat ≤ 57 at hmost
      unfold isWhitespace
      generalize c.toNat = code at hleast hmost
      interval_cases code <;> decide
  · rcases hchars _ hc with h | h | h
    · exact absurd h (by decide)
    · exact absurd h (by decide)
    · exact absurd h (by decide)

theorem Blank.not_mem {text : List Char} (h : Blank isWhitespace text) : ';' ∉ text :=
  fun hc => absurd (h ';' hc) (by decide)

theorem splitSrid_eq {front : List Char} (lead : List Char) {gap point back : List Char}
    (srid : Option Int32)
    (hfront : Blank isWhitespace front) (hlead : SridPart lead srid) (hgap : Blank isWhitespace gap)
    (hback : Blank isWhitespace back) (htight : Tight isWhitespace point)
    (hhead : point.head? = some 'P' ∨ point.head? = some 'p') :
    splitSrid (front ++ (lead ++ (gap ++ (point ++ back)))) = (srid, point) := by
  have hapart : ∀ front back, "SRID=".toList ++ front ≠ "srid=".toList ++ back := nofun
  unfold splitSrid
  cases hlead with
  | absent =>
    have htrim : trim isWhitespace (front ++ ([] ++ (gap ++ (point ++ back)))) = point := by
      rw [nil_append, ← append_assoc]
      exact trim_eq (hfront.append hgap) hback htight
    have hnone : stripKeyword "SRID=" "srid=" point = none := by
      rw [Option.eq_none_iff_forall_ne_some]
      intro tail htail
      rcases (stripKeyword_eq_some_iff _ _ hapart).mp htail with rfl | rfl
      · rcases hhead with h | h
        · cases h
        · cases h
      · rcases hhead with h | h
        · cases h
        · cases h
    dsimp only
    rw [htrim, hnone]
    rfl
  | given keyword before digits after srid hkeyword hbefore hafter hdigits =>
    obtain ⟨hword, hnone⟩ := srid_chars hdigits
    have hne : point ≠ [] := by
      rintro rfl
      rcases hhead with h | h
      · cases h
      · cases h
    have htight' : Tight isWhitespace
        (keyword ++ (before ++ (digits ++ (after ++ [';']))) ++ (gap ++ point)) := by
      constructor
      · rcases hkeyword with rfl | rfl
        · intro c hc
          cases hc
          decide
        · intro c hc
          cases hc
          decide
      · rw [List.getLast?_append_of_ne_nil _ (append_ne_nil_of_right_ne_nil _ hne),
          List.getLast?_append_of_ne_nil _ hne]
        exact htight.2
    have htrim : trim isWhitespace (front ++ (keyword ++ (before ++ (digits ++ (after ++ [';']))) ++
        (gap ++ (point ++ back)))) =
        keyword ++ (before ++ (digits ++ (after ++ [';']))) ++ (gap ++ point) := by
      rw [← trim_eq hfront hback htight']
      simp only [append_assoc]
    have hstrip : stripKeyword "SRID=" "srid="
        (keyword ++ (before ++ (digits ++ (after ++ [';']))) ++ (gap ++ point)) =
        some (before ++ (digits ++ after) ++ ';' :: (gap ++ point)) := by
      rw [stripKeyword_eq_some_iff _ _ hapart]
      have hassoc : keyword ++ (before ++ (digits ++ (after ++ [';']))) ++ (gap ++ point) =
          keyword ++ (before ++ (digits ++ after) ++ ';' :: (gap ++ point)) := by
        simp only [append_assoc, cons_append, nil_append]
      rw [hassoc]
      exact hkeyword.imp (congrArg (· ++ _)) (congrArg (· ++ _))
    have hsemicolon : ';' ∉ before ++ (digits ++ after) := by
      intro hc
      rcases mem_append.mp hc with hc | hc
      · exact Blank.not_mem hbefore hc
      · rcases mem_append.mp hc with hc | hc
        · exact hnone hc
        · exact Blank.not_mem hafter hc
    have hbody : trim isWhitespace (gap ++ point) = point := by
      have heq := trim_eq hgap Blank.nil htight
      rwa [append_nil] at heq
    dsimp only
    rw [htrim, hstrip, Option.bind_some, (splitOnce_eq_some_iff _ _ _ _).mpr ⟨rfl, hsemicolon⟩]
    dsimp only
    rw [trim_eq hbefore hafter hword.tight, hdigits]
    dsimp only
    rw [hbody]

theorem pointInner_eq {point : List Char} {lng lat : UInt64} {rest : List Char}
    (h : PointPart L point lng lat rest) : ∃ inner rest', pointInner point = some inner ∧
      nextNumber L inner = some (lng, rest') ∧ nextNumber L rest' = some (lat, rest) := by
  obtain ⟨keyword, gap, front, first, between, second, hkeyword, hgap, hfront, hfirst, hlng,
    hbetween, hne, hsecond, hlat, hparted, rfl⟩ := h
  obtain ⟨rest', hnumbers⟩ := (numbers_iff L _ rest lng lat).mpr ⟨front, first, between, second,
    hfront, hfirst, hlng, hbetween, hne, hsecond, hlat, hparted, rfl⟩
  refine ⟨_, rest', (pointInner_eq_some_iff _ _).mpr ⟨keyword, _, hkeyword, rfl, ?_⟩, hnumbers⟩
  have htight : Tight isWhitespace ('(' :: (front ++ (first ++ (between ++ (second ++ rest))) ++
      [')'])) := by
    constructor
    · intro c hc
      cases hc
      decide
    · intro c hc
      rw [← cons_append, List.getLast?_concat] at hc
      cases hc
      decide
  have htrim := trim_eq hgap Blank.nil htight
  rw [← htrim]
  simp only [append_assoc, append_nil]

/-- What `parsePoint` reads on its way through a point's text. -/
theorem PointText.reads {text rest : List Char} {lng lat : UInt64} {srid : Option Int32}
    (h : PointText L text lng lat srid rest) : ∃ inner rest', (splitSrid text).1 = srid ∧
      pointInner (trim isWhitespace (splitSrid text).2) = some inner ∧
      nextNumber L inner = some (lng, rest') ∧ nextNumber L rest' = some (lat, rest) := by
  obtain ⟨front, lead, gap, point, back, hfront, hlead, hgap, hpoint, hback, rfl⟩ := h
  rw [splitSrid_eq lead srid hfront hlead hgap hback (hpoint.tight L) (hpoint.head L)]
  obtain ⟨inner, rest', hinner, hfirst, hsecond⟩ := pointInner_eq L hpoint
  refine ⟨inner, rest', rfl, ?_, hfirst, hsecond⟩
  dsimp only
  rw [trim_tight (hpoint.tight L), hinner]

theorem parsePoint_iff :
    parsePoint L text = .ok (lng, lat, srid) ↔ ∃ rest, PointText L text lng lat srid rest := by
  constructor
  · exact pointText_of_parsePoint L text lng lat srid
  · rintro ⟨rest, htext⟩
    obtain ⟨inner, rest', hsrid, hinner, hfirst, hsecond⟩ := htext.reads
    exact (parsePoint_eq_ok_iff L text lng lat srid).mpr
      ⟨inner, rest', rest, hsrid, hinner, hfirst, hsecond⟩

/-- A coordinate whose text is one word that the float library reads again. -/
def Written (coordinate : UInt64) : Prop :=
  L.f64.parse (L.f64.text coordinate) = some coordinate ∧
    Word isWhitespace (L.f64.text coordinate).toList

theorem space_blank : Blank isWhitespace [' '] := by
  intro c hc
  rw [mem_singleton.mp hc]
  decide

theorem toList_wkt : (point.wkt L).toList =
    "POINT".toList ++ ([] ++ '(' :: ([] ++ ((L.f64.text point.lng).toList ++ ([' '] ++
      ((L.f64.text point.lat).toList ++ ([] ++ [')'])))))) := by
  unfold GeoPoint.wkt
  simp only [String.toList_append, append_assoc]
  rfl

theorem pointPart_wkt (hlng : Written L point.lng) (hlat : Written L point.lat) :
    PointPart L (point.wkt L).toList point.lng point.lat [] := by
  refine ⟨"POINT".toList, [], [], (L.f64.text point.lng).toList, [' '],
    (L.f64.text point.lat).toList, .inl rfl, Blank.nil, Blank.nil, hlng.2, ?_, space_blank,
    cons_ne_nil _ _, hlat.2, ?_, nofun, toList_wkt L point⟩
  · rw [String.ofList_toList]
    exact hlng.1
  · rw [String.ofList_toList]
    exact hlat.1

theorem sridPart_front (srid : Int32) :
    SridPart ("SRID=".toList ++ ([] ++ ((decimal srid.toInt).toList ++ ([] ++ [';'])))) (some srid) := by
  refine .given _ _ _ _ srid (.inl rfl) Blank.nil Blank.nil ?_
  rw [String.ofList_toList]
  exact parseI32_decimal srid

theorem splitSrid_wkt (hlng : Written L point.lng) (hlat : Written L point.lat) :
    splitSrid (point.wkt L).toList = (none, (point.wkt L).toList) := by
  have hpoint := pointPart_wkt L point hlng hlat
  have heq := splitSrid_eq [] none Blank.nil .absent Blank.nil Blank.nil
    (hpoint.tight L) (hpoint.head L)
  simpa only [nil_append, append_nil] using heq

theorem splitSrid_prefixed (srid : Int32) (hlng : Written L point.lng)
    (hlat : Written L point.lat) :
    splitSrid (withSridPrefix (point.wkt L) (some srid)).toList =
      (some srid, (point.wkt L).toList) := by
  have hpoint := pointPart_wkt L point hlng hlat
  rw [← splitSrid_eq _ (some srid) Blank.nil (sridPart_front srid) Blank.nil Blank.nil
    (hpoint.tight L) (hpoint.head L)]
  congr 1
  unfold withSridPrefix
  simp only [String.toList_append, nil_append, append_nil, append_assoc]
  rfl

theorem parsePoint_wkt (hlng : Written L point.lng) (hlat : Written L point.lat) :
    parsePoint L (point.wkt L).toList = .ok (point.lng, point.lat, none) := by
  refine (parsePoint_iff L _ _ _ _).mpr ⟨[], [], [], [], _, [], Blank.nil, .absent, Blank.nil,
    pointPart_wkt L point hlng hlat, Blank.nil, ?_⟩
  rw [nil_append, nil_append, nil_append, append_nil]

theorem fromValue_of_parts {value : Value L} {wkt : List Char} {srid bodySrid : Option Int32}
    {lng lat : UInt64} (hparts : geoParts L value = .ok (wkt, srid))
    (hparse : parsePoint L wkt = .ok (lng, lat, bodySrid)) :
    GeoPoint.fromValue L value = .ok ⟨lat, lng, srid.or bodySrid⟩ := by
  unfold GeoPoint.fromValue
  rw [hparts]
  dsimp only [bind, Except.bind]
  rw [hparse]
  rfl

theorem fromValue_of_wkt (value : Value L) (hlng : Written L point.lng)
    (hlat : Written L point.lat)
    (hparts : geoParts L value = .ok ((point.wkt L).toList, point.srid)) :
    GeoPoint.fromValue L value = .ok point := by
  rw [fromValue_of_parts L hparts (parsePoint_wkt L point hlng hlat), Option.or_none]

theorem fromValue_toValue (hlng : Written L point.lng) (hlat : Written L point.lat) :
    GeoPoint.fromValue L (point.toValue L) = .ok point := by
  refine fromValue_of_wkt L point _ hlng hlat ?_
  unfold GeoPoint.toValue geoParts
  dsimp only
  rw [splitSrid_wkt L point hlng hlat, Option.or_none]

theorem fromValue_ewkt (hlng : Written L point.lng) (hlat : Written L point.lat) :
    GeoPoint.fromValue L (.geo (point.ewkt L) none) = .ok point := by
  refine fromValue_of_wkt L point _ hlng hlat ?_
  unfold GeoPoint.ewkt geoParts
  dsimp only
  rw [Option.none_or]
  cases hsrid : point.srid with
  | none =>
    unfold withSridPrefix
    dsimp only
    rw [splitSrid_wkt L point hlng hlat]
  | some srid => rw [splitSrid_prefixed L point srid hlng hlat]

/-- More stands in the parentheses than two numbers. -/
def ThirdWord (text : List Char) : Prop :=
  ∃ lng lat srid rest, PointText L text lng lat srid rest ∧ ¬ Blank isWhitespace rest

/-- A text that is read as a point has its form, and every point is read again from its value and
from its extended text. -/
theorem points_read_back :
    (∀ text, ¬ ThirdWord L text → ∀ lng lat srid, parsePoint L text = .ok (lng, lat, srid) ↔
      ∃ rest, PointText L text lng lat srid rest ∧ Blank isWhitespace rest) ∧
    ∀ point : GeoPoint, Written L point.lng → Written L point.lat →
      GeoPoint.fromValue L (point.toValue L) = .ok point ∧
        GeoPoint.fromValue L (.geo (point.ewkt L) none) = .ok point := by
  constructor
  · intro text hthird lng lat srid
    rw [parsePoint_iff]
    constructor
    · rintro ⟨rest, htext⟩
      exact ⟨rest, htext, not_not.mp fun hrest => hthird ⟨lng, lat, srid, rest, htext, hrest⟩⟩
    · rintro ⟨rest, htext, _⟩
      exact ⟨rest, htext⟩
  · intro point hlng hlat
    exact ⟨fromValue_toValue L point hlng hlat, fromValue_ewkt L point hlng hlat⟩

/-- The numbers one and two, as floats write and read them. -/
def planeForm : TextForm UInt64 where
  text bits := if bits = 0x3FF0000000000000 then "1" else "2"
  parse text :=
    if text = "1" then some 0x3FF0000000000000
    else if text = "2" then some 0x4000000000000000
    else none

def planeLibraries : Libraries := { countLibraries ⟨decimal, fun _ => none⟩ with f64 := planeForm }

theorem plane_no_thirdWord : ¬ ThirdWord planeLibraries " srid= 4326;POINT (1 2 ) ".toList := by
  rintro ⟨lng, lat, srid, rest, htext, hrest⟩
  obtain ⟨inner, rest', -, hinner, hfirst, hsecond⟩ := htext.reads
  have hinner' : pointInner (trim isWhitespace (splitSrid " srid= 4326;POINT (1 2 ) ".toList).2) =
      some "1 2 ".toList := rfl
  obtain rfl := Option.some.inj (hinner'.symm.trans hinner)
  have hfirst' : nextNumber planeLibraries "1 2 ".toList =
      some (0x3FF0000000000000, " 2 ".toList) := rfl
  obtain ⟨-, rfl⟩ := Prod.mk.inj (Option.some.inj (hfirst'.symm.trans hfirst))
  have hsecond' : nextNumber planeLibraries " 2 ".toList =
      some (0x4000000000000000, " ".toList) := rfl
  obtain ⟨-, rfl⟩ := Prod.mk.inj (Option.some.inj (hsecond'.symm.trans hsecond))
  exact hrest space_blank

theorem points_read_back_plane :
    (∃ rest, PointText planeLibraries " srid= 4326;POINT (1 2 ) ".toList 0x3FF0000000000000
      0x4000000000000000 (some 4326) rest ∧ Blank isWhitespace rest) ∧
    GeoPoint.fromValue planeLibraries (.geo "SRID=4326;POINT(1 2)" none) =
      .ok ⟨0x4000000000000000, 0x3FF0000000000000, some 4326⟩ :=
  ⟨((points_read_back planeLibraries).1 _ plane_no_thirdWord _ _ _).mp rfl,
    ((points_read_back planeLibraries).2 ⟨0x4000000000000000, 0x3FF0000000000000, some 4326⟩
      ⟨rfl, cons_ne_nil _ _, forall_mem_singleton.mpr rfl⟩
      ⟨rfl, cons_ne_nil _ _, forall_mem_singleton.mpr rfl⟩).2⟩

/-- A text in small letters is read. -/
theorem lower_point_read : parsePoint planeLibraries "point(1 2)".toList =
      .ok (0x3FF0000000000000, 0x4000000000000000, none) ∧
    ¬ ("SRID=".toList <+: trim isWhitespace "point(1 2)".toList ∨
      "POINT".toList <+: trim isWhitespace "point(1 2)".toList) :=
  ⟨rfl, by decide⟩

end Stakit.OrmGeo
