import Stakit.ClientStreamAgreement

set_option autoImplicit false

namespace Stakit.ClientStreams
open JsonText SerdeJson List

theorem whiteSpace_plain : ∀ c ∈ whiteSpace, wordChar c = false ∧ c ≠ '"' ∧ c ≠ '[' ∧ c ≠ '{' := by
  have hall : whiteSpace.all
      (fun c => decide (wordChar c = false ∧ c ≠ '"' ∧ c ≠ '[' ∧ c ≠ '{')) = true := by
    decide
  intro c hc
  exact of_decide_eq_true (all_eq_true.mp hall c hc)

theorem decode_whiteSpace (fuel : ℕ) (c : Char) (rest : List Char) (hc : c ∈ whiteSpace) :
    decode fuel (c :: rest) = none := by
  obtain ⟨hword, hquote, hbracket, hbrace⟩ := whiteSpace_plain c hc
  cases fuel with
  | zero => rfl
  | succ fuel =>
    unfold decode word
    rw [if_neg hquote, if_neg hbracket, if_neg hbrace, if_neg]
    rw [all_cons, hword]
    simp

theorem parse_blank {line : List Char} (h : blank line = true) : parse line = none := by
  have hspaces : ∀ c ∈ line, c ∈ whiteSpace := by
    intro c hc
    exact of_decide_eq_true (all_eq_true.mp h c hc)
  unfold parse
  cases htrim : trim line with
  | nil => rfl
  | cons c rest =>
    obtain ⟨front, back, hsplit, _⟩ := trim_split line
    have hin : c ∈ line := by
      rw [hsplit, htrim]
      simp
    exact decode_whiteSpace _ c rest (hspaces c hin)

theorem parse_bom (rest : List Char) : parse (bom :: rest) = none := by
  obtain ⟨front, back, hsplit, hfront, hback⟩ := trim_split (bom :: rest)
  have hspace : isSpace bom = false := by decide
  unfold parse
  cases front with
  | cons c front =>
    have hfirst : bom = c := (List.cons.inj hsplit).1
    rw [hfirst, hfront c mem_cons_self] at hspace
    cases hspace
  | nil =>
    cases htrim : trim (bom :: rest) with
    | nil => rfl
    | cons c tail =>
      rw [htrim] at hsplit
      cases hsplit
      exact decode_whiteSpace _ bom tail (by decide)

def Line.map {α β : Type} (f : α → β) : Line α → Line β
  | .item data => .item (f data)
  | .last ending => .last ending
  | .skip => .skip

def Outcome.map {α β : Type} (f : α → β) (outcome : Outcome α) : Outcome β :=
  ⟨outcome.items.map f, outcome.ending, outcome.passed⟩

theorem follow_map {α β : Type} (f : α → β) (rows : List (Line α)) :
    follow (rows.map (Line.map f)) = (follow rows).map f := by
  induction rows with
  | nil => rfl
  | cons row rows ih =>
    cases row with
    | last ending => rfl
    | item data | skip => rw [map_cons, Line.map, follow, ih]; rfl

theorem undecodable_map {N α β : Type} (f : α → β) (value : Option (Value N)) :
    (undecodable value).map f = undecodable value := by
  unfold undecodable
  split
  · split
    · split_ifs <;> rfl
    · rfl
  · rfl

theorem undecodable_skip {N α : Type} {value : Option (Value N)}
    (h : ∀ entries, value ≠ some (.object entries)) : (undecodable value : Line α) = .skip := by
  unfold undecodable
  split
  · next entries => exact absurd rfl (h entries)
  · rfl

section
variable {N : Type} (number : List Char → Option N) (double : List Char → N)
  (isInteger : N → Bool)

/-- What a line means to the Rust client, its item as JavaScript would hold it. -/
def rustLine (line : List Char) : Line (JsValue N) := (parseLine number line).map held

variable (rust ts : List (Line (JsValue N))) {line : List Char}

theorem rustLine_unparsed (h : parse line = none) : rustLine number line = .skip := by
  unfold rustLine parseLine readFrame
  rw [fromText_eq, h]
  split_ifs
  · rfl
  · rfl

theorem rustLine_object {fields : Fields} (h : parse line = some (.object fields)) :
    rustLine number line = rustFrame number fields := by
  have hline : line ≠ [] := by
    rintro rfl
    cases h
  unfold rustLine parseLine readFrame rustFrame
  rw [if_neg hline, fromText_eq, h, Option.bind_some, Option.bind_some]
  generalize (if buffers number maxDepth (.object fields) then _ else _) = frame
  cases frame with
  | none => exact undecodable_map held _
  | some frame => cases frame <;> rfl

theorem rustLine_other (h : ∀ fields, parse line ≠ some (.object fields)) :
    rustLine number line ≠ .last .failure := by
  have hskip : (undecodable (fromText number line) : Line (Value N)) = .skip := by
    refine undecodable_skip fun entries hread => ?_
    obtain ⟨tree, hparse, htree⟩ := (fromText_iff number).mp hread
    obtain ⟨fields, rfl⟩ := object_of_ofTree number htree
    exact h fields hparse
  unfold rustLine parseLine
  split_ifs
  · exact nofun
  · cases hframe : readFrame number line with
    | some frame => cases frame <;> exact nofun
    | none =>
      dsimp only
      rw [hskip]
      exact nofun

theorem parseFrame_blank (h : blank line = true) : parseFrame double isInteger line = .skip := by
  unfold parseFrame
  rw [if_pos h]

theorem parseFrame_object {fields : Fields} (h : parse line = some (.object fields)) :
    parseFrame double isInteger line = tsFrame double isInteger fields := by
  have hblank : ¬ blank line = true := by
    intro hblank
    rw [parse_blank hblank] at h
    cases h
  unfold parseFrame
  rw [if_neg hblank, h]

theorem parseFrame_other (hblank : ¬ blank line = true)
    (h : ∀ fields, parse line ≠ some (.object fields)) :
    parseFrame double isInteger line = .last .failure := by
  unfold parseFrame
  rw [if_neg hblank]
  split
  · next fields hfields => exact absurd hfields (h fields)
  · rfl

theorem understood_iff (hint : Integers double isInteger) (line : List Char) :
    rustLine number line = parseFrame double isInteger line ↔ Understood number double line := by
  by_cases hblank : blank line = true
  · rw [rustLine_unparsed number (parse_blank hblank), parseFrame_blank double isInteger hblank]
    exact ⟨fun _ => .inl hblank, fun _ => rfl⟩
  · by_cases hobject : ∃ fields, parse line = some (.object fields)
    · obtain ⟨fields, hfields⟩ := hobject
      rw [rustLine_object number hfields, parseFrame_object double isInteger hfields,
        frames_agree_iff hint fields]
      constructor
      · exact fun h => .inr ⟨fields, hfields, h⟩
      · rintro (h | ⟨other, hother, h⟩)
        · exact absurd h hblank
        · cases hfields.symm.trans hother
          exact h
    · have hnone : ∀ fields, parse line ≠ some (.object fields) :=
        fun fields h => hobject ⟨fields, h⟩
      rw [parseFrame_other double isInteger hblank hnone]
      refine iff_of_false (rustLine_other number hnone) ?_
      rintro (h | ⟨fields, h, _⟩)
      · exact hblank h
      · exact hnone fields h

variable (line) in
theorem parseFrame_skip_iff : parseFrame double isInteger line = .skip ↔ Ignored line := by
  by_cases hblank : blank line = true
  · exact ⟨fun _ => .inl hblank, fun _ => parseFrame_blank double isInteger hblank⟩
  · by_cases hobject : ∃ fields, parse line = some (.object fields)
    · obtain ⟨fields, hfields⟩ := hobject
      rw [parseFrame_object double isInteger hfields]
      constructor
      · exact fun h => .inr ⟨fields, hfields, tsFrame_skip h⟩
      · rintro (h | ⟨other, hother, h⟩)
        · exact absurd h hblank
        · rw [hfields] at hother
          cases hother
          exact tsFrame_unknown h
    · have hnone : ∀ fields, parse line ≠ some (.object fields) :=
        fun fields h => hobject ⟨fields, h⟩
      rw [parseFrame_other double isInteger hblank hnone]
      refine ⟨nofun, ?_⟩
      rintro (h | ⟨fields, h, _⟩)
      · exact absurd h hblank
      · exact absurd h (hnone fields)

structure Near (rust ts : Line (JsValue N)) : Prop where
  skip : ts = .skip → rust = .skip
  item : ∀ data, rust = .item data → (∃ data', ts = .item data') ∨ ts = .last .failure

variable (line) in
theorem near_line : Near (rustLine number line) (parseFrame double isInteger line) where
  skip h := by
    rcases (parseFrame_skip_iff double isInteger line).mp h with hblank | ⟨fields, hfields, hunknown⟩
    · exact rustLine_unparsed number (parse_blank hblank)
    · rw [rustLine_object number hfields, rustFrame_of_unknown hunknown]
  item data h := by
    by_cases hobject : ∃ fields, parse line = some (.object fields)
    · obtain ⟨fields, hfields⟩ := hobject
      rw [rustLine_object number hfields] at h
      rw [parseFrame_object double isInteger hfields, tsFrame_next (rustFrame_item h)]
      split_ifs
      · exact .inl ⟨_, rfl⟩
      · exact .inr rfl
    · have hnone : ∀ fields, parse line ≠ some (.object fields) :=
        fun fields h => hobject ⟨fields, h⟩
      have hblank : ¬ blank line = true := by
        intro hblank
        rw [rustLine_unparsed number (parse_blank hblank)] at h
        cases h
      exact .inr (parseFrame_other double isInteger hblank hnone)

theorem items_length_le (h : List.Forall₂ Near rust ts)
    (hpassed : (follow rust).passed = (follow ts).passed) :
    (follow rust).items.length ≤ (follow ts).items.length := by
  induction h with
  | nil => exact Nat.le_refl _
  | @cons r t rust ts hnear _ ih =>
    cases r with
    | last ending => exact Nat.zero_le _
    | item data =>
      rcases hnear.item data rfl with ⟨_, rfl⟩ | rfl
      · exact Nat.succ_le_succ (ih (Nat.succ.inj hpassed))
      · cases hpassed
    | skip =>
      cases t with
      | item data => exact (ih (Nat.succ.inj hpassed)).trans (Nat.le_succ _)
      | skip => exact ih (Nat.succ.inj hpassed)
      | last ending => cases hpassed

/-- The same line by line, up to the one that ends the stream. -/
def Matched : List (Line (JsValue N)) → List (Line (JsValue N)) → Prop
  | r :: rust, t :: ts => r = t ∧ ((∀ ending, t ≠ .last ending) → Matched rust ts)
  | _, _ => True

theorem follow_of_matched (hlength : List.Forall₂ Near rust ts) (h : Matched rust ts) :
    follow rust = follow ts := by
  induction hlength with
  | nil => rfl
  | @cons r t rust ts _ _ ih =>
    obtain ⟨rfl, hrest⟩ := h
    cases r with
    | last ending => rfl
    | item data | skip =>
      unfold follow
      rw [ih (hrest fun ending heq => by cases heq)]

theorem matched_of_follow (hnear : List.Forall₂ Near rust ts) (h : follow rust = follow ts) :
    Matched rust ts := by
  induction hnear with
  | nil => trivial
  | @cons r t rust ts hline hrest ih =>
    have hpassed := congrArg Outcome.passed h
    have hitems := congrArg Outcome.items h
    have hending := congrArg Outcome.ending h
    have htail : (follow rust).passed = (follow ts).passed →
        (follow rust).items = (follow ts).items → (follow rust).ending = (follow ts).ending →
        Matched rust ts := by
      intro hp hi he
      refine ih ?_
      cases hr : follow rust
      cases ht : follow ts
      rw [hr, ht] at hp hi he
      rw [Outcome.mk.injEq]
      exact ⟨hi, he, hp⟩
    cases r with
    | last ending =>
      cases t with
      | last ending' =>
        refine ⟨congrArg Line.last hending, fun hgoes => absurd rfl (hgoes ending')⟩
      | item data | skip => cases hpassed
    | item data =>
      rcases hline.item data rfl with ⟨data', rfl⟩ | rfl
      · obtain ⟨rfl, htails⟩ := List.cons.inj hitems
        exact ⟨rfl, fun _ => htail (Nat.succ.inj hpassed) htails hending⟩
      · cases hpassed
    | skip =>
      cases t with
      | last ending => cases hpassed
      | skip => exact ⟨rfl, fun _ => htail (Nat.succ.inj hpassed) hitems hending⟩
      | item data =>
        have hle := items_length_le rust ts hrest (Nat.succ.inj hpassed)
        have hlength : (follow rust).items.length = (follow ts).items.length + 1 :=
          congrArg List.length hitems
        omega

theorem continues_iff (h : Understood number double line) :
    Continues number double line ↔ ∀ ending, parseFrame double isInteger line ≠ .last ending := by
  constructor
  · rintro hgoes ending hlast
    rcases hgoes with hblank | ⟨fields, hfields, hunknown | ⟨htype, herror, data, hdata, _⟩⟩
    · rw [parseFrame_blank double isInteger hblank] at hlast
      cases hlast
    · rw [parseFrame_object double isInteger hfields, tsFrame_unknown hunknown] at hlast
      cases hlast
    · rw [parseFrame_object double isInteger hfields, tsFrame_next (property_single fields _ htype),
        if_pos ⟨by rw [hdata]; exact cons_ne_nil _ _, herror⟩] at hlast
      cases hlast
  · intro hgoes
    rcases h with hblank | ⟨fields, hfields, hunknown | hrefused | ⟨_, hframe⟩⟩
    · exact .inl hblank
    · exact .inr ⟨fields, hfields, .inl hunknown⟩
    · have hline := parseFrame_object double isInteger hfields
      exact absurd (hline.trans (tsFrame_refused hrefused)) (hgoes .failure)
    · have hline := parseFrame_object double isInteger hfields
      rcases hframe with hitem | herror | hend
      · exact .inr ⟨fields, hfields, .inr hitem⟩
      · have hkind := property_single fields _ herror.1
        have herrors : tsFrame double isInteger fields = _ := tsFrame_error hkind
        split_ifs at herrors
        · exact absurd (hline.trans herrors) (hgoes .application)
        · exact absurd (hline.trans herrors) (hgoes .failure)
      · have hends : tsFrame double isInteger fields = _ :=
          tsFrame_end (property_single fields _ hend.1)
        rw [if_pos hend.2] at hends
        exact absurd (hline.trans hends) (hgoes .clean)

def Agreed : List (List Char) → Prop
  | [] => True
  | line :: rest => Understood number double line ∧ (Continues number double line → Agreed rest)

theorem agreed_iff (hint : Integers double isInteger) (body : List (List Char)) :
    Matched (body.map (rustLine number)) (body.map (parseFrame double isInteger)) ↔
      Agreed number double body := by
  induction body with
  | nil => exact Iff.rfl
  | cons line rest ih =>
    rw [map_cons, map_cons]
    unfold Matched Agreed
    rw [understood_iff number double isInteger hint, ih]
    exact and_congr_right fun h => by rw [continues_iff number double isInteger h]

/-- A byte order mark makes the first line unreadable to the Rust client alone, which is
without consequence if the line is ignored anyway. -/
def BodyAgreed (body : List Char) : Prop :=
  match body with
  | [] => Agreed number double (lines [])
  | c :: rest =>
    if c = bom then
      match lines rest with
      | [] => True
      | first :: later => Ignored first ∧ Agreed number double later
    else Agreed number double (lines (c :: rest))

theorem lines_cons (c : Char) (rest : List Char) (hc : c ≠ '\n') :
    lines (c :: rest) = (lines rest).modifyHead (List.cons c) := by
  unfold lines
  rw [splitOn_eq_splitOnP, splitOn_eq_splitOnP, splitOnP_cons_eq_if_modifyHead,
    if_neg (by simpa using hc)]

theorem near_all (body : List (List Char)) :
    List.Forall₂ Near (body.map (rustLine number)) (body.map (parseFrame double isInteger)) := by
  rw [forall₂_map_left_iff, forall₂_map_right_iff, forall₂_same]
  exact fun line _ => near_line number double isInteger line

/-- Every line is under the frame cap. -/
def Capped (body : List Char) : Prop := ∀ line ∈ lines body, String.utf8Len line < maxFrameBytes

theorem rustStream_capped {body : List Char} (h : Capped body) :
    (rustStream number body).map held = follow ((lines body).map (rustLine number)) := by
  have hlines : (lines body).map (bufferedLine number) = (lines body).map (parseLine number) := by
    refine map_congr_left fun line hline => ?_
    unfold bufferedLine
    rw [if_neg (Nat.not_lt.mpr (h line hline))]
  unfold rustStream
  rw [hlines, ← follow_map, map_map]
  rfl

end

/-- Whole numbers, as serde reads them up to `u64::MAX`. -/
def decimal (token : List Char) : Option ℕ := readUnsigned 18446744073709551615 token

/-- The nearest number with 53 significant bits, the even one of two. -/
def nearest (n : ℕ) : ℕ :=
  let unit := 2 ^ (n.log2 - 52)
  let low := n / unit
  if 2 * (n % unit) < unit ∨ 2 * (n % unit) = unit ∧ low % 2 = 0 then low * unit
  else (low + 1) * unit

/-- Whole numbers, as JavaScript reads them. -/
def asDouble (token : List Char) : ℕ := nearest (Nat.ofDigitChars 10 token 0)

/-- A frame to be skipped, an item and the end. -/
def plainBody : List Char :=
  ("\x7b\"type\":\"heartbeat\"\x7d\n\x7b\"type\":\"next\",\"data\":1\x7d\n" ++
    "\x7b\"type\":\"end\"\x7d\n").toList

def malformedBody : List Char := "oops\n\x7b\"type\":\"end\"\x7d\n".toList

def loadedEnd : List Char := "\x7b\"type\":\"end\",\"data\":1\x7d".toList

/-- An item that is no double. -/
def oddBody : List Char := "\x7b\"type\":\"next\",\"data\":9007199254740993\x7d".toList

def whole (_ : ℕ) : Bool := true

def JsValue.asNumber {N : Type} : JsValue N → Option N
  | .number n => some n
  | _ => none

theorem whole_integers : Integers asDouble whole := fun _ _ _ => rfl

end Stakit.ClientStreams
