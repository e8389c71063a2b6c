import Stakit.PostgresLexer
import Stakit.SchemaModel

set_option autoImplicit false

namespace Stakit.RoleStatements
open SchemaModel PostgresLexer

def quote (name : String) : String :=
  String.ofList ('"' :: ((name.toList.flatMap fun c => if c = '"' then ['"', c] else [c]) ++ ['"']))

def quoteLiteral (value : String) : String :=
  "'" ++ String.ofList (value.toList.flatMap fun c => if c = '\'' then ['\'', '\''] else [c]) ++ "'"

/-- Underscores are put before the tag's last character while the body has the tag. -/
def growTag (body : List Char) : ℕ → List Char → List Char
  | 0, tag => tag
  | rounds + 1, tag =>
    if tag <:+: body then growTag body rounds (tag.insertIdx (tag.length - 1) '_') else tag

def dollarTag (body : String) : String :=
  String.ofList (growTag body.toList body.toList.length "$role$".toList)

def attributes (role : Role) : String :=
  (if role.login then " login" else "") ++ (if role.createdb then " createdb" else "") ++
    (if role.createrole then " createrole" else "") ++
    (if role.bypassrls then " bypassrls" else "")

def createText : String := "create role "

def existsText : String :=
  "\nbegin\n    if exists (select from pg_roles where rolname = "

def noticeText : String :=
  ") then\n        raise notice 'role % already exists, keeping its attributes', "

def elseText : String := ";\n    else\n        "

def exceptionText : String :=
  "\n    end if;\nexception when insufficient_privilege then\n    raise exception 'role % does " ++
    "not exist and this role may not create it (%): create it first', "

def endText : String := ", sqlerrm;\nend\n"

def createRoleBody (role : Role) : String :=
  let create := createText ++ quote role.name ++ attributes role
  let name := quoteLiteral role.name
  existsText ++ name ++ noticeText ++ name ++ elseText ++ create ++ ";" ++ exceptionText ++ name ++
    endText

def createRoleSql (role : Role) : String :=
  let body := createRoleBody role
  let tag := dollarTag body
  "do " ++ tag ++ body ++ tag ++ ";"

def tagOf (underscores : ℕ) : List Char :=
  '$' :: ("role".toList ++ List.replicate underscores '_' ++ ['$'])

variable (chars : List Char) (role : Role) (underscores : ℕ)

theorem tagOf_length : (tagOf underscores).length = underscores + 6 := by
  simp [tagOf]

theorem insertIdx_append {α : Type} (front back : List α) (a : α) :
    (front ++ back).insertIdx front.length a = front ++ a :: back := by
  induction front with
  | nil => exact List.insertIdx_zero
  | cons first front ih =>
    rw [List.length_cons, List.cons_append, List.insertIdx_succ_cons, ih]
    rfl

theorem tagOf_grow : (tagOf underscores).insertIdx ((tagOf underscores).length - 1) '_' =
      tagOf (underscores + 1) := by
  have hsplit : tagOf underscores =
      ('$' :: ("role".toList ++ List.replicate underscores '_')) ++ ['$'] := rfl
  have hlength : (tagOf underscores).length - 1 =
      ('$' :: ("role".toList ++ List.replicate underscores '_')).length := by simp [tagOf]
  rw [hlength, hsplit, insertIdx_append]
  simp [tagOf, List.replicate_succ']

theorem mem_tagOf {c : Char} (h : c ∈ tagOf underscores) : c ∈ "$role_".toList := by
  simp only [tagOf, List.mem_cons, List.mem_append, List.mem_replicate, List.not_mem_nil,
    or_false] at h
  have hsplit : "$role_".toList = '$' :: ("role".toList ++ ['_']) := by decide
  rw [hsplit]
  rcases h with rfl | (h | ⟨_, rfl⟩) | rfl
  · exact List.mem_cons_self
  · exact List.mem_cons_of_mem _ (List.mem_append_left _ h)
  · exact List.mem_cons_of_mem _ (List.mem_append_right _ List.mem_cons_self)
  · exact List.mem_cons_self

theorem growTag_fresh (body : List Char) (rounds underscores : ℕ)
    (h : body.length < underscores + rounds + 6) :
    ∃ found, growTag body rounds (tagOf underscores) = tagOf found ∧ ¬tagOf found <:+: body := by
  induction rounds generalizing underscores with
  | zero =>
    refine ⟨underscores, rfl, fun hinfix => ?_⟩
    have hlength := hinfix.length_le
    rw [tagOf_length] at hlength
    omega
  | succ rounds ih =>
    rw [growTag]
    split
    · rw [tagOf_grow]
      exact ih (underscores + 1) (by omega)
    · rename_i hout
      exact ⟨underscores, rfl, hout⟩

theorem growTag_more (body : List Char) (rounds more underscores : ℕ)
    (h : body.length < underscores + rounds + 6) :
    growTag body (rounds + more) (tagOf underscores) = growTag body rounds (tagOf underscores) := by
  induction rounds generalizing underscores with
  | zero =>
    have hout : ¬tagOf underscores <:+: body := by
      intro hinfix
      have hlength := hinfix.length_le
      rw [tagOf_length] at hlength
      omega
    cases more with
    | zero => rfl
    | succ more =>
      rw [Nat.zero_add]
      change growTag body (more + 1) (tagOf underscores) = tagOf underscores
      rw [growTag, if_neg hout]
  | succ rounds ih =>
    rw [Nat.succ_add, growTag, growTag, tagOf_grow, ih (underscores + 1) (by omega)]

theorem run_tag (reversed : List Char) (underscores : ℕ) :
    run (.tag reversed) (List.replicate underscores '_') =
      (.tag (List.replicate underscores '_' ++ reversed), []) := by
  induction underscores generalizing reversed with
  | zero => rfl
  | succ underscores ih =>
    rw [List.replicate_succ, run, show step (.tag reversed) '_' = (.tag ('_' :: reversed), [])
      from by simp [step, isTagStart]]
    dsimp only
    rw [ih, ← List.replicate_succ, List.replicate_succ', List.append_assoc]
    rfl

theorem run_tagOf : run .blank (tagOf underscores) = (.dollar (tagOf underscores) [], []) := by
  have hrole : run .blank ('$' :: "role".toList) = (.tag "role".toList.reverse, []) := by decide
  have hsplit : tagOf underscores =
      ('$' :: "role".toList) ++ (List.replicate underscores '_' ++ ['$']) := by simp [tagOf]
  have hlast : run (.tag (List.replicate underscores '_' ++ "role".toList.reverse)) ['$'] =
      (.dollar (tagOf underscores) [], []) := by
    simp [run, step, after, tagOf]
  rw [hsplit, run_then _ hrole, run_then _ (run_tag _ underscores), hlast, ← hsplit]
  rfl

def words (texts : List String) : List Token := texts.map fun text => .word text.toList

def literal (text : String) : Token := .quoted .literal text.toList

def flagTokens (role : Role) : List Token :=
  words ((if role.login then ["login"] else []) ++ (if role.createdb then ["createdb"] else []) ++
    (if role.createrole then ["createrole"] else []) ++
    (if role.bypassrls then ["bypassrls"] else []))

def existsTokens : List Token :=
  words ["begin", "if", "exists"] ++ [.symbol '('] ++
    words ["select", "from", "pg_roles", "where", "rolname"] ++ [.symbol '=']

def noticeTokens : List Token :=
  [.symbol ')'] ++ words ["then", "raise", "notice"] ++
    [literal "role % already exists, keeping its attributes", .symbol ',']

def elseTokens : List Token := [.symbol ';'] ++ words ["else"]

def exceptionTokens : List Token :=
  words ["end", "if"] ++ [.symbol ';'] ++ words ["exception", "when",
      "insufficient_privilege", "then", "raise", "exception"] ++
    [literal "role % does not exist and this role may not create it (%): create it first",
      .symbol ',']

def endTokens : List Token := [.symbol ','] ++ words ["sqlerrm"] ++ [.symbol ';'] ++ words ["end"]

def bodyTokens (role : Role) : List Token :=
  existsTokens ++ [literal role.name] ++ noticeTokens ++ [literal role.name] ++
    (elseTokens ++ words ["create", "role"]) ++ [.quoted .identifier role.name.toList] ++
    (flagTokens role ++ [.symbol ';'] ++ exceptionTokens) ++ [literal role.name] ++ endTokens

theorem toList_of_eq (text : String) (chars : List Char) (h : text = String.ofList chars) :
    text.toList = chars := by
  rw [h, String.toList_ofList]

theorem words_cons (texts : List String) :
    words (String.ofList chars :: texts) = .word chars :: words texts := by
  rw [words, List.map_cons, String.toList_ofList]
  rfl

theorem literal_ofList : literal (String.ofList chars) = .quoted .literal chars := by
  rw [literal, String.toList_ofList]

theorem attributes_toList : (attributes role).toList =
      (if role.login then [' ', 'l', 'o', 'g', 'i', 'n'] else []) ++
      (if role.createdb then [' ', 'c', 'r', 'e', 'a', 't', 'e', 'd', 'b'] else []) ++
      (if role.createrole then [' ', 'c', 'r', 'e', 'a', 't', 'e', 'r', 'o', 'l', 'e'] else []) ++
      (if role.bypassrls then [' ', 'b', 'y', 'p', 'a', 's', 's', 'r', 'l', 's'] else []) := by
  simp only [attributes, String.toList_append, apply_ite String.toList, String.toList_empty]
  rw [toList_of_eq " login" _ rfl, toList_of_eq " createdb" _ rfl,
    toList_of_eq " createrole" _ rfl, toList_of_eq " bypassrls" _ rfl]

theorem flagTokens_eq : flagTokens role =
      (if role.login then [.word ['l', 'o', 'g', 'i', 'n']] else []) ++
      (if role.createdb then [.word ['c', 'r', 'e', 'a', 't', 'e', 'd', 'b']] else []) ++
      (if role.createrole then [.word ['c', 'r', 'e', 'a', 't', 'e', 'r', 'o', 'l', 'e']] else []) ++
      (if role.bypassrls then [.word ['b', 'y', 'p', 'a', 's', 's', 'r', 'l', 's']] else []) := by
  simp only [flagTokens, words, List.map_append, apply_ite (List.map fun text : String =>
    Token.word text.toList), List.map_cons, List.map_nil]
  rw [toList_of_eq "login" _ rfl, toList_of_eq "createdb" _ rfl,
    toList_of_eq "createrole" _ rfl, toList_of_eq "bypassrls" _ rfl]

theorem quote_toList (name : String) :
    (quote name).toList = '"' :: (doubled .identifier name.toList ++ ['"']) := by
  have hdoubled : (name.toList.flatMap fun c => if c = '"' then ['"', c] else [c]) =
      doubled .identifier name.toList := by
    unfold doubled
    congr 1
    funext c
    by_cases h : c = '"' <;> simp [h, Quote.mark]
  rw [quote, String.toList_ofList, hdoubled]

theorem quoteLiteral_toList (value : String) :
    (quoteLiteral value).toList = '\'' :: (doubled .literal value.toList ++ ['\'']) := by
  simp only [quoteLiteral, String.toList_append, String.toList_ofList]
  have hdoubled : (value.toList.flatMap fun c => if c = '\'' then ['\'', '\''] else [c]) =
      doubled .literal value.toList := by
    unfold doubled
    congr 1
    funext c
    by_cases h : c = '\'' <;> simp [h, Quote.mark]
  rw [hdoubled]
  rfl

theorem run_piece {fixed : List Char} {tokens : List Token}
    (h : run .blank fixed = (.blank, tokens)) (quote : Quote) (text next rest : List Char)
    (hnext : next.head?.any (· ≠ quote.mark) = true) :
    run .blank (fixed ++ (quote.mark :: (doubled quote text ++ [quote.mark]) ++ (next ++ rest))) =
      after (tokens ++ [quotedToken quote text]) (run .blank (next ++ rest)) := by
  obtain ⟨c, hhead, hc⟩ := (Option.any_eq_true _ _).mp hnext
  obtain ⟨more, rfl⟩ := List.head?_eq_some_iff.mp hhead
  rw [run_then _ h]
  have hquoted := run_quoted quote text c (of_decide_eq_true hc) (more ++ rest)
  simp only [List.cons_append, List.append_assoc, List.nil_append] at hquoted ⊢
  rw [hquoted]
  simp only [after, List.append_assoc]

theorem attributes_reads : run .blank ((attributes role).toList ++ [';']) =
        (.blank, flagTokens role ++ [.symbol ';']) ∧
      ((attributes role).toList ++ [';']).head?.any (· ≠ Quote.identifier.mark) = true := by
  rw [attributes_toList, flagTokens_eq]
  cases role.login <;> cases role.createdb <;> cases role.createrole <;>
    cases role.bypassrls <;> decide +kernel

theorem exceptionText_toList : exceptionText.toList =
    "\n    end if;\nexception when insufficient_privilege then\n    raise exception 'role % does ".toList ++
      "not exist and this role may not create it (%): create it first', ".toList :=
  String.toList_append

theorem run_fixed : run .blank existsText.toList = (.blank, existsTokens) ∧
      run .blank noticeText.toList = (.blank, noticeTokens) ∧
      run .blank (elseText.toList ++ createText.toList) =
        (.blank, elseTokens ++ words ["create", "role"]) ∧
      run .blank exceptionText.toList = (.blank, exceptionTokens) ∧
      run .blank endText.toList = (.blank, endTokens) := by
  refine ⟨?_, ?_, ?_, ?_, ?_⟩
  · rw [toList_of_eq existsText _ rfl, existsTokens]
    repeat rw [words_cons]
    decide +kernel
  · rw [toList_of_eq noticeText _ rfl, noticeTokens, literal_ofList]
    repeat rw [words_cons]
    decide +kernel
  · rw [toList_of_eq elseText _ rfl, toList_of_eq createText _ rfl, elseTokens]
    repeat rw [words_cons]
    decide +kernel
  · rw [exceptionText_toList, toList_of_eq _ _ rfl, toList_of_eq _ _ rfl, exceptionTokens,
      literal_ofList]
    repeat rw [words_cons]
    decide +kernel
  · rw [toList_of_eq endText _ rfl, endTokens]
    repeat rw [words_cons]
    decide +kernel

theorem run_guarded : run .blank (((attributes role).toList ++ [';']) ++ exceptionText.toList) =
      (.blank, flagTokens role ++ [.symbol ';'] ++ exceptionTokens) := by
  rw [run_then _ (attributes_reads role).1, run_fixed.2.2.2.1]
  rfl

theorem pieces_toList (opening notice other create refused closing : String) (role : Role) :
    (opening ++ quoteLiteral role.name ++ notice ++ quoteLiteral role.name ++ other ++
        (create ++ quote role.name ++ attributes role) ++ ";" ++ refused ++
        quoteLiteral role.name ++ closing).toList =
      opening.toList ++ ('\'' :: (doubled .literal role.name.toList ++ ['\'']) ++
      (notice.toList ++ ('\'' :: (doubled .literal role.name.toList ++ ['\'']) ++
      ((other.toList ++ create.toList) ++ ('"' :: (doubled .identifier role.name.toList ++ ['"']) ++
      ((((attributes role).toList ++ [';']) ++ refused.toList) ++
        ('\'' :: (doubled .literal role.name.toList ++ ['\'']) ++ (closing.toList ++ [])))))))) := by
  have hsemicolon : ";".toList = [';'] := toList_of_eq _ _ rfl
  simp only [String.toList_append, quoteLiteral_toList, quote_toList]
  rw [hsemicolon]
  simp only [List.append_assoc, List.append_nil, List.cons_append, List.nil_append]

theorem body_pieces : (createRoleBody role).toList =
      existsText.toList ++ ('\'' :: (doubled .literal role.name.toList ++ ['\'']) ++
      (noticeText.toList ++ ('\'' :: (doubled .literal role.name.toList ++ ['\'']) ++
      ((elseText.toList ++ createText.toList) ++
        ('"' :: (doubled .identifier role.name.toList ++ ['"']) ++
      ((((attributes role).toList ++ [';']) ++ exceptionText.toList) ++
        ('\'' :: (doubled .literal role.name.toList ++ ['\'']) ++ (endText.toList ++ [])))))))) :=
  pieces_toList existsText noticeText elseText createText exceptionText endText role

theorem run_body (fits : clip 63 role.name.toList = role.name.toList) :
    run .blank (createRoleBody role).toList = (.blank, bodyTokens role) := by
  have hexists := run_piece run_fixed.1 .literal role.name.toList noticeText.toList
  have hnotice := run_piece run_fixed.2.1 .literal role.name.toList
    (elseText.toList ++ createText.toList)
  have helse := run_piece run_fixed.2.2.1 .identifier role.name.toList
    (((attributes role).toList ++ [';']) ++ exceptionText.toList)
  have hguarded := run_piece (run_guarded role) .literal role.name.toList endText.toList []
  have hattributes : (((attributes role).toList ++ [';']) ++ exceptionText.toList).head?.any
      (· ≠ Quote.identifier.mark) = true := by
    rw [List.head?_append_of_ne_nil _ (List.append_ne_nil_of_right_ne_nil _ (List.cons_ne_nil _ _))]
    exact (attributes_reads role).2
  rw [body_pieces]
  simp only [Quote.mark] at hexists hnotice helse hguarded
  rw [hexists _ (by decide +kernel), hnotice _ (by decide +kernel), helse _ hattributes,
    hguarded (by decide +kernel), List.append_nil, run_fixed.2.2.2.2]
  simp only [after, quotedToken, bodyTokens, literal, List.append_assoc, fits]

theorem body_nul (h : '\x00' ∉ role.name.toList) : '\x00' ∉ (createRoleBody role).toList := by
  have hattributes : '\x00' ∉ (attributes role).toList := by
    rw [attributes_toList]
    cases role.login <;> cases role.createdb <;> cases role.createrole <;>
      cases role.bypassrls <;> decide +kernel
  have hexists : '\x00' ∉ existsText.toList := by
    rw [toList_of_eq existsText _ rfl]
    decide +kernel
  have hnotice : '\x00' ∉ noticeText.toList := by
    rw [toList_of_eq noticeText _ rfl]
    decide +kernel
  have helse : '\x00' ∉ elseText.toList := by
    rw [toList_of_eq elseText _ rfl]
    decide +kernel
  have hcreate : '\x00' ∉ createText.toList := by
    rw [toList_of_eq createText _ rfl]
    decide +kernel
  have hexception : '\x00' ∉ exceptionText.toList := by
    rw [exceptionText_toList, toList_of_eq _ _ rfl, toList_of_eq _ _ rfl]
    decide +kernel
  have hend : '\x00' ∉ endText.toList := by
    rw [toList_of_eq endText _ rfl]
    decide +kernel
  have hquoted : ∀ quote : Quote, '\x00' ∉ quote.mark :: (doubled quote role.name.toList ++
      [quote.mark]) := by
    intro quote
    cases quote <;> simp [mem_doubled, h, Quote.mark]
  have hguarded : '\x00' ∉ ((attributes role).toList ++ [';']) ++ exceptionText.toList := by
    simp only [List.mem_append, List.mem_singleton, hattributes, hexception]
    decide
  have hclosing : '\x00' ∉ endText.toList ++ [] := by rwa [List.append_nil]
  rw [body_pieces]
  apply List.not_mem_append hexists
  apply List.not_mem_append (hquoted .literal)
  apply List.not_mem_append hnotice
  apply List.not_mem_append (hquoted .literal)
  apply List.not_mem_append (List.not_mem_append helse hcreate)
  apply List.not_mem_append (hquoted .identifier)
  apply List.not_mem_append hguarded
  exact List.not_mem_append (hquoted .literal) hclosing

theorem body_named (h : role.name ≠ "") : .quoted .identifier [] ∉ bodyTokens role := by
  have hflags : .quoted .identifier [] ∉ flagTokens role := by
    simp [flagTokens, words]
  have hname : role.name.toList ≠ [] := fun heq => h (String.toList_eq_nil_iff.mp heq)
  simp [-String.reduceToList, bodyTokens, existsTokens, noticeTokens, elseTokens, exceptionTokens,
    endTokens, words, literal, hflags, Ne.symm hname]

theorem body_last : ∀ c ∈ (createRoleBody role).toList.getLast?, c ∉ tagOf underscores := by
  have hlast : (createRoleBody role).toList.getLast? = some '\n' := by
    have hsplit : endText = ", sqlerrm;\nend" ++ "\n" := rfl
    have hend : endText.toList = ", sqlerrm;\nend".toList ++ ['\n'] := by
      rw [hsplit, String.toList_append, toList_of_eq "\n" ['\n'] rfl]
    rw [body_pieces, List.append_nil, hend]
    simp only [← List.append_assoc, ← List.cons_append, List.getLast?_concat]
  intro c hc hmem
  rw [hlast] at hc
  rw [← Option.some.inj hc] at hmem
  exact absurd (mem_tagOf underscores hmem) (by decide)

theorem first_tag_text : "$role$".toList = tagOf 0 := by
  rw [toList_of_eq "$role$" ['$', 'r', 'o', 'l', 'e', '$'] rfl, tagOf,
    toList_of_eq "role" ['r', 'o', 'l', 'e'] rfl]
  rfl

theorem dollarTag_toList (body : String) :
    (dollarTag body).toList = growTag body.toList body.toList.length (tagOf 0) := by
  rw [dollarTag, String.toList_ofList, first_tag_text]

theorem dollarTag_fresh (body : String) :
    ∃ underscores, (dollarTag body).toList = tagOf underscores ∧
      ¬tagOf underscores <:+: body.toList := by
  rw [dollarTag_toList]
  exact growTag_fresh body.toList body.toList.length 0 (by omega)

theorem sql_pieces :
    (createRoleSql role).toList = "do ".toList ++ ((dollarTag (createRoleBody role)).toList ++
      (((createRoleBody role).toList ++ (dollarTag (createRoleBody role)).toList) ++ [';'])) := by
  have hsemicolon : ";".toList = [';'] := toList_of_eq _ _ rfl
  simp only [createRoleSql, String.toList_append, hsemicolon, List.append_assoc]

theorem run_sql : run .blank (createRoleSql role).toList =
      (.blank, [.word "do".toList, .dollar (createRoleBody role).toList, .symbol ';']) := by
  obtain ⟨underscores, htag, hfresh⟩ := dollarTag_fresh (createRoleBody role)
  have hdo : run .blank "do ".toList = (.blank, [.word "do".toList]) := by
    rw [toList_of_eq "do " ['d', 'o', ' '] rfl, toList_of_eq "do" ['d', 'o'] rfl]
    decide
  have hdollar := run_dollar (tagOf underscores) hfresh
    (body_last role underscores) (List.cons_ne_nil _ _)
  have hend : run .blank [';'] = (.blank, [.symbol ';']) := by decide
  rw [sql_pieces, htag, run_then _ hdo, run_then _ (run_tagOf underscores),
    run_then _ hdollar, hend]
  simp only [after, List.cons_append, List.nil_append]

theorem sql_nul (h : '\x00' ∉ role.name.toList) : '\x00' ∉ (createRoleSql role).toList := by
  obtain ⟨underscores, htag, _⟩ := dollarTag_fresh (createRoleBody role)
  have htagNul : '\x00' ∉ tagOf underscores := fun hmem =>
    absurd (mem_tagOf underscores hmem) (by decide)
  rw [sql_pieces, htag]
  simp [htagNul, body_nul role h]

/-- For every valid name and all attributes the search for a tag ends, the statement reads
as one `do` whose dollar-quoted body is the text built, the tag first occurring after it,
and the body reads as the tokens written, with the role's name as identifier and literals. -/
theorem createRoleSql_reads (valid : validateIdentifier role.name = .ok ()) :
    lex (createRoleSql role).toList =
      some [.word "do".toList, .dollar (createRoleBody role).toList, .symbol ';'] ∧
    (∃ tag, (createRoleSql role).toList =
        "do ".toList ++ (tag ++ ((createRoleBody role).toList ++ (tag ++ [';']))) ∧
      (∀ front back, (createRoleBody role).toList ++ (tag ++ [';']) = front ++ (tag ++ back) →
        (createRoleBody role).toList.length ≤ front.length) ∧
      ∀ more, growTag (createRoleBody role).toList
        ((createRoleBody role).toList.length + more) "$role$".toList = tag) ∧
    lex (createRoleBody role).toList = some (bodyTokens role) := by
  obtain ⟨hempty, hnul, hlong⟩ := (validateIdentifier_eq_ok role.name).mp valid
  obtain ⟨underscores, htag, hfresh⟩ := dollarTag_fresh (createRoleBody role)
  have hfits : clip 63 role.name.toList = role.name.toList := by
    apply clip_fits
    rw [← String.utf8ByteSize_ofList, String.ofList_toList]
    exact hlong
  have hpieces := sql_pieces role
  rw [htag, List.append_assoc] at hpieces
  refine ⟨lex_closed _ (sql_nul role hnul) (run_sql role) (by simp),
    ⟨tagOf underscores, hpieces, ?_, ?_⟩,
    lex_closed _ (body_nul role hnul) (run_body role hfits) (body_named role hempty)⟩
  · intro front back h
    exact first_tag _ _ front back hfresh (body_last role underscores) h
  · intro more
    rw [first_tag_text, ← htag, dollarTag_toList]
    exact growTag_more _ _ more 0 (by omega)

def oneil : Role := ⟨"o'neil$role$", true, false, false, false⟩

theorem createRoleSql_reads_oneil : lex (createRoleSql oneil).toList =
      some [.word "do".toList, .dollar (createRoleBody oneil).toList, .symbol ';'] ∧
    lex (createRoleBody oneil).toList = some (bodyTokens oneil) ∧
    .quoted .identifier "o'neil$role$".toList ∈ bodyTokens oneil := by
  have hreads := createRoleSql_reads oneil (by decide)
  exact ⟨hreads.1, hreads.2.2, by simp [bodyTokens, oneil]⟩

end Stakit.RoleStatements
