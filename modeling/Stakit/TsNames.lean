import Stakit.TsDeclarations

set_option autoImplicit false

namespace Stakit.TsTypes
open FiniteMap FuelRuns NamedWalks List

inductive Piece
  | name (text : String)
  | mark (text : String)

def Piece.text : Piece → String
  | .name text | .mark text => text

def Piece.name? : Piece → Option String
  | .name text => some text
  | .mark _ => none

def textOf (pieces : List Piece) : String := String.join (pieces.map Piece.text)

section
variable (unicode : Unicode)

mutual

/-- A reference, split into names and what stands between them. -/
def pieces : Ty → List Piece
  | .scalar scalar => [.name scalar.tsName]
  | .param _ => []
  | .pointer _ pointee => pieces pointee
  | .option inner => pieces inner ++ [.mark " | ", .name "null"]
  | .sequence _ item => .name "Array" :: .mark "<" :: (pieces item ++ [.mark ">"])
  | .mapping _ key value =>
    .name "Record" :: .mark "<" :: (pieces key ++ .mark ", " :: (pieces value ++ [.mark ">"]))
  | .tuple items => .mark "[" :: (piecesOf items ++ [.mark "]"])
  | .model name args => [.name (tsRef unicode (.model name args))]

def piecesOf : List Ty → List Piece
  | [] => []
  | [item] => pieces item
  | item :: items => pieces item ++ .mark ", " :: piecesOf items

end

def names (ty : Ty) : List String := (pieces unicode ty).filterMap Piece.name?

end

def builtins : List String := ["number", "string", "boolean", "null", "Array", "Record"]

/-- Each entry is the declaration of a reachable instance, and every name it refers to is
declared. -/
def App.Closed (app : App) (decls : Decls) : Prop :=
  (∀ ty ∈ app.router.types, ∀ name ∈ names app.unicode ty, name ∈ builtins ∨ name ∈ decls) ∧
  ∀ key decl, decls.lookup key = some decl →
    ∃ it, app.Reachable it ∧ app.tsRef it = key ∧ app.decl it = decl ∧
      ∀ ty ∈ fieldTypes (app.ir it), ∀ name ∈ names app.unicode (ty.subst it.args),
        name ∈ builtins ∨ name ∈ decls

/-- No two reachable instances share a reference, and each has its own declaration. -/
def App.Kept (app : App) (decls : Decls) : Prop :=
  (∀ first second, app.Reachable first → app.Reachable second →
    app.tsRef first = app.tsRef second → first = second) ∧
  ∀ it, app.Reachable it → decls.lookup (app.tsRef it) = some (app.decl it)

mutual

/-- The words that a type is written with, in their order. -/
def words : Ty → List String
  | .scalar scalar => [scalar.tsName]
  | .param _ => []
  | .pointer _ pointee => words pointee
  | .option inner => words inner ++ ["null"]
  | .sequence _ item => "Array" :: words item
  | .mapping _ key value => "Record" :: (words key ++ words value)
  | .tuple items => wordsOf items
  | .model name args => name :: wordsOf args

def wordsOf : List Ty → List String
  | [] => []
  | item :: items => words item ++ wordsOf items

end

def Instance.spelling (unicode : Unicode) (it : Instance) : List Char :=
  it.name.toList ++ (wordsOf it.args).flatMap unicode.letters

/-- A reachable instance of a generic item is spelled like no other. -/
def App.Apart (app : App) : Prop :=
  ∀ first second, app.Reachable first → app.Reachable second → first.args ≠ [] →
    first.spelling app.unicode = second.spelling app.unicode → first = second

theorem Unicode.letters_append (unicode : Unicode) (text more : String) :
    unicode.letters (text ++ more) = unicode.letters text ++ unicode.letters more := by
  unfold letters
  rw [String.toList_append, filter_append]

section
variable {unicode : Unicode}

theorem letters_ofList (chars : List Char) :
    unicode.letters (String.ofList chars) = chars.filter unicode.isAlphanumeric := by
  unfold Unicode.letters
  rw [String.toList_ofList]

theorem filter_letters (texts : List String) :
    (texts.flatMap unicode.letters).filter unicode.isAlphanumeric =
      texts.flatMap unicode.letters := by
  refine filter_eq_self.mpr fun c hc => ?_
  obtain ⟨text, -, hc⟩ := mem_flatMap.mp hc
  exact (mem_filter.mp hc).2

mutual

theorem letters_tsRef (ty : Ty) :
    unicode.letters (tsRef unicode ty) = (words ty).flatMap unicode.letters := by
  cases ty with
  | scalar scalar => rw [tsRef, words, flatMap_singleton]
  | param index => rfl
  | pointer kind pointee =>
    rw [tsRef, words]
    exact letters_tsRef pointee
  | option inner =>
    rw [tsRef, words, Unicode.letters_append, flatMap_append, letters_tsRef inner,
      flatMap_singleton]
    rfl
  | sequence kind item =>
    rw [tsRef, words, Unicode.letters_append, Unicode.letters_append, letters_tsRef item,
      flatMap_cons]
    exact append_nil _
  | mapping kind key value =>
    rw [tsRef, words, Unicode.letters_append, Unicode.letters_append, Unicode.letters_append,
      Unicode.letters_append, letters_tsRef key, letters_tsRef value, flatMap_cons,
      flatMap_append, ← append_assoc]
    refine (append_nil _).trans (congrArg (· ++ _) ?_)
    exact append_nil _
  | tuple items =>
    rw [tsRef, words, Unicode.letters_append, Unicode.letters_append, letters_tsRefs items]
    exact append_nil _
  | model name args =>
    rw [tsRef, words, Unicode.letters_append, letters_ofList, gluedRefs_eq args, filter_letters,
      flatMap_cons]

theorem letters_tsRefs (items : List Ty) :
    unicode.letters (", ".intercalate (tsRefs unicode items)) =
      (wordsOf items).flatMap unicode.letters := by
  match items with
  | [] => rfl
  | [item] =>
    rw [tsRefs, tsRefs, wordsOf, wordsOf, String.intercalate_singleton, append_nil]
    exact letters_tsRef item
  | item :: second :: items =>
    have hrest := letters_tsRefs (second :: items)
    rw [tsRefs] at hrest
    rw [tsRefs, tsRefs, wordsOf, String.intercalate_cons_cons, Unicode.letters_append,
      Unicode.letters_append, letters_tsRef item, hrest, flatMap_append]
    exact congrArg (· ++ _) (append_nil _)

theorem gluedRefs_eq (args : List Ty) :
    gluedRefs unicode args = (wordsOf args).flatMap unicode.letters := by
  match args with
  | [] => rfl
  | arg :: args =>
    rw [gluedRefs, wordsOf, letters_tsRef arg, gluedRefs_eq args, flatMap_append]

end

theorem toList_tsRef (it : Instance) : (it.tsRef unicode).toList = it.spelling unicode := by
  rw [Instance.tsRef, tsRef, String.toList_append, String.toList_ofList, gluedRefs_eq]
  rfl

theorem tsRef_eq_iff (first second : Instance) : first.tsRef unicode = second.tsRef unicode ↔
      first.spelling unicode = second.spelling unicode := by
  rw [← toList_tsRef, ← toList_tsRef, String.toList_inj]

end

section
variable {unicode : Unicode}

theorem textOf_append (pieces more : List Piece) :
    textOf (pieces ++ more) = textOf pieces ++ textOf more := by
  unfold textOf
  rw [map_append, String.join_append]

theorem textOf_cons (piece : Piece) (pieces : List Piece) :
    textOf (piece :: pieces) = piece.text ++ textOf pieces := by
  unfold textOf
  rw [map_cons, String.join_cons]

theorem textOf_nil : textOf [] = "" := rfl

mutual

theorem textOf_pieces (ty : Ty) : textOf (pieces unicode ty) = tsRef unicode ty := by
  cases ty with
  | scalar scalar => rw [pieces, tsRef, textOf_cons, textOf_nil, String.append_empty]; rfl
  | param index => rfl
  | pointer kind pointee => exact textOf_pieces pointee
  | option inner =>
    rw [pieces, tsRef, textOf_append, textOf_pieces inner]
    rfl
  | sequence kind item =>
    rw [pieces, tsRef, textOf_cons, textOf_cons, textOf_append, textOf_pieces item]
    exact (String.append_assoc ..).symm.trans (String.append_assoc ..).symm
  | mapping kind key value =>
    rw [pieces, tsRef, textOf_cons, textOf_cons, textOf_append, textOf_cons, textOf_append,
      textOf_pieces key, textOf_pieces value]
    simp only [← String.append_assoc]
    rfl
  | tuple items =>
    rw [pieces, tsRef, textOf_cons, textOf_append, textOf_piecesOf items]
    exact (String.append_assoc ..).symm
  | model name args =>
    rw [pieces, textOf_cons, textOf_nil, String.append_empty]
    rfl

theorem textOf_piecesOf (items : List Ty) :
    textOf (piecesOf unicode items) = ", ".intercalate (tsRefs unicode items) := by
  match items with
  | [] => rfl
  | [item] => exact (textOf_pieces item).trans String.intercalate_singleton.symm
  | item :: second :: items =>
    have hrest := textOf_piecesOf (second :: items)
    rw [tsRefs] at hrest
    rw [piecesOf, tsRefs, tsRefs, String.intercalate_cons_cons, textOf_append, textOf_cons,
      textOf_pieces item, hrest]
    · exact (String.append_assoc ..).symm
    · exact nofun

end

mutual

theorem name_of_piece (ty : Ty) {name : String} (h : .name name ∈ pieces unicode ty) :
    name ∈ builtins ∨ ∃ it ∈ mentions ty, it.tsRef unicode = name := by
  cases ty with
  | scalar scalar =>
    cases mem_singleton.mp h
    exact Or.inl (by cases scalar <;> decide)
  | param index => cases h
  | pointer kind pointee => exact name_of_piece pointee h
  | option inner =>
    obtain hin | hin := mem_append.mp h
    · exact name_of_piece inner hin
    · simp only [mem_cons, not_mem_nil, reduceCtorEq, Piece.name.injEq, false_or, or_false] at hin
      exact Or.inl (by subst hin; decide)
  | sequence kind item =>
    simp only [pieces, mem_cons, mem_append, not_mem_nil, reduceCtorEq,
      Piece.name.injEq, false_or, or_false] at h
    obtain rfl | h := h
    · exact Or.inl (by decide)
    · exact name_of_piece item h
  | mapping kind key value =>
    simp only [pieces, mem_cons, mem_append, not_mem_nil, reduceCtorEq,
      Piece.name.injEq, false_or, or_false] at h
    obtain rfl | h | h := h
    · exact Or.inl (by decide)
    · exact (name_of_piece key h).imp_right fun ⟨it, hit, hname⟩ =>
        ⟨it, mem_append_left _ hit, hname⟩
    · exact (name_of_piece value h).imp_right fun ⟨it, hit, hname⟩ =>
        ⟨it, mem_append_right _ hit, hname⟩
  | tuple items =>
    simp only [pieces, mem_cons, mem_append, not_mem_nil, reduceCtorEq, false_or, or_false] at h
    exact name_of_pieceOf h
  | model item args =>
    cases mem_singleton.mp h
    exact Or.inr ⟨⟨item, args⟩, mem_singleton_self _, rfl⟩

theorem name_of_pieceOf {items : List Ty} {name : String}
    (h : .name name ∈ piecesOf unicode items) :
    name ∈ builtins ∨ ∃ it ∈ mentionsAll items, it.tsRef unicode = name := by
  match items with
  | [] => cases h
  | [item] =>
    rw [mentionsAll, mentionsAll, append_nil]
    exact name_of_piece item h
  | item :: second :: items =>
    rw [piecesOf] at h
    · obtain hin | hin := mem_append.mp h
      · exact (name_of_piece item hin).imp_right fun ⟨it, hit, hname⟩ =>
          ⟨it, mem_append_left _ hit, hname⟩
      · obtain hmark | hin := mem_cons.mp hin
        · cases hmark
        · exact (name_of_pieceOf hin).imp_right fun ⟨it, hit, hname⟩ =>
            ⟨it, mem_append_right _ hit, hname⟩
    · exact nofun

end

theorem mem_names {ty : Ty} {name : String} (h : name ∈ names unicode ty) :
    name ∈ builtins ∨ ∃ it ∈ mentions ty, it.tsRef unicode = name := by
  obtain ⟨piece, hpiece, hname⟩ := mem_filterMap.mp h
  cases piece with
  | name text =>
    cases hname
    exact name_of_piece ty hpiece
  | mark text => cases hname

end

theorem mentions_optionInner (ty : Ty) (args : List Ty) :
    mentions (((optionInner ty).getD ty).subst args) = mentions (ty.subst args) := by
  cases ty <;> rfl

theorem mem_next {source : Source} {it later : Instance} {ty : Ty}
    (hty : ty ∈ fieldTypes (source.ir it)) (hlater : later ∈ mentions (ty.subst it.args)) :
    later ∈ source.next it := by
  refine mem_mentionsAll.mpr ⟨((optionInner ty).getD ty).subst it.args, ?_, ?_⟩
  · exact mem_append_left _ (mem_map_of_mem hty)
  · rwa [mentions_optionInner]

theorem App.closed_of_covers {app : App} {decls : Decls}
    (h : Covers app.tsRef app.decl app.next (mentionsAll app.router.types) decls) :
    app.Closed decls := by
  refine ⟨fun ty hty name hname => ?_, fun key decl hdecl => ?_⟩
  · refine (mem_names hname).imp_right fun ⟨it, hit, hname⟩ => ?_
    rw [← hname]
    exact h.present it (mem_mentionsAll.mpr ⟨ty, hty, hit⟩)
  · obtain ⟨it, hreach, hkey, hlabel, hlater⟩ := h.entered key decl hdecl
    refine ⟨it, hreach, hkey, hlabel, fun ty hty name hname => ?_⟩
    refine (mem_names hname).imp_right fun ⟨later, hin, hname⟩ => ?_
    rw [← hname]
    exact hlater later (mem_next hty hin)

theorem spelling_plain {it : Instance} (h : it.args = []) (unicode : Unicode) :
    it.spelling unicode = it.name.toList := by
  unfold Instance.spelling
  rw [h]
  exact append_nil _

theorem spelled_distinct {Reached : Instance → Prop} {unicode : Unicode}
    (h : ∀ first second, Reached first → Reached second → first.args ≠ [] →
      first.spelling unicode = second.spelling unicode → first = second)
    {first second : Instance} (hfirst : Reached first) (hsecond : Reached second)
    (hspelling : first.spelling unicode = second.spelling unicode) : first = second := by
  by_cases hplain : first.args = []
  · by_cases hother : second.args = []
    · rw [spelling_plain hplain, spelling_plain hother, String.toList_inj] at hspelling
      cases first
      cases second
      cases hplain
      cases hother
      cases hspelling
      rfl
    · exact (h second first hsecond hfirst hother hspelling.symm).symm
  · exact h first second hfirst hsecond hplain hspelling

/-- The map of declarations always ends and is closed; no declaration is lost if and only if the
reachable instances of generic items are spelled apart from all others. -/
theorem declarations_kept_iff (app : App) :
    ∃ decls, Settles (app.generate app.router) decls ∧ app.Closed decls ∧
      (app.Kept decls ↔ app.Apart) := by
  obtain ⟨decls, hdecls, hcovers⟩ := app.generate_settles
  refine ⟨decls, hdecls, app.closed_of_covers hcovers, ?_, fun h => ?_⟩
  · intro h first second hfirst hsecond _ hspelling
    exact h.1 first second hfirst hsecond ((tsRef_eq_iff first second).mpr hspelling)
  · have hdistinct : ∀ first second, app.Reachable first → app.Reachable second →
        app.tsRef first = app.tsRef second → first = second :=
      fun first second hfirst hsecond href =>
        spelled_distinct h hfirst hsecond ((tsRef_eq_iff first second).mp href)
    exact ⟨hdistinct, fun it hit => hcovers.lookup hdistinct hit⟩

/-- `Message<T>` with its payload, `User`, and an item that is named `MessageUser`. -/
def chat : Source where
  unicode := ⟨fun _ => false, fun _ => false⟩
  camel := false
  model
    | "Message" => some ⟨1, .struct (.named [.plain "data" (.param 0)])⟩
    | "User" => some ⟨0, .struct (.named [.plain "id" (.scalar .u64)])⟩
    | "MessageUser" => some ⟨0, .struct (.named [.plain "text" (.scalar .string)])⟩
    | _ => none

def userMessage : Instance := ⟨"Message", [.model "User" []]⟩

def messageUser : Instance := ⟨"MessageUser", []⟩

def chatApp : App where
  toSource := chat
  router :=
    { actions := [⟨.scalar .unit, .model "Message" [.model "User" []]⟩,
        ⟨.scalar .unit, .model "MessageUser" []⟩]
      borrowActions := []
      streams := []
      clientActions := []
      channels := [] }
  instances := [userMessage, messageUser, ⟨"User", []⟩]
  defined := by
    intro it hit
    simp only [mem_cons, not_mem_nil, or_false] at hit
    obtain rfl | rfl | rfl := hit <;> exact ⟨_, rfl, rfl⟩
  distinct := by
    intro it hit body hbody
    simp only [mem_cons, not_mem_nil, or_false] at hit
    obtain rfl | rfl | rfl := hit <;> cases mem_singleton.mp hbody <;>
      exact nodup_singleton _
  rooted := by
    intro ty hty it hit
    simp only [Router.types, Router.collected, Router.apart, Signature.types, append_nil,
      map_nil, flatten_nil, flatMap_cons, flatMap_nil, cons_append,
      nil_append, mem_cons, not_mem_nil, or_false] at hty
    obtain rfl | rfl | rfl | rfl := hty
    · cases hit
    · cases mem_singleton.mp hit
      exact mem_cons_self
    · cases hit
    · cases mem_singleton.mp hit
      exact mem_cons_of_mem _ mem_cons_self
  closed := by
    intro it hit later hlater
    simp only [mem_cons, not_mem_nil, or_false] at hit
    obtain rfl | rfl | rfl := hit
    · have huser : later ∈ [(⟨"User", []⟩ : Instance), ⟨"User", []⟩] := hlater
      simp only [mem_cons, not_mem_nil, or_false, or_self] at huser
      subst huser
      exact mem_cons_of_mem _ (mem_cons_of_mem _ mem_cons_self)
    · cases hlater
    · cases hlater

/-- Both instances are called `MessageUser`, and only one of them is declared. -/
theorem messageUser_not_kept : (chatApp.generate chatApp.router 3).bind (·.lookup "MessageUser") =
        some (chatApp.decl userMessage) ∧
      chatApp.decl userMessage ≠ chatApp.decl messageUser ∧
      ¬∃ decls, Settles (chatApp.generate chatApp.router) decls ∧ chatApp.Kept decls := by
  refine ⟨by decide +kernel, by decide +kernel, ?_⟩
  rintro ⟨decls, -, hdistinct, -⟩
  have hgeneric : chatApp.Reachable userMessage := .root mem_cons_self
  have hplain : chatApp.Reachable messageUser := .root (mem_cons_of_mem _ mem_cons_self)
  have hsame := hdistinct userMessage messageUser hgeneric hplain (by decide +kernel)
  exact absurd (congrArg (fun it => it.args.length) hsame) (by decide)

end Stakit.TsTypes
