import Mathlib.Data.List.Infix
import Mathlib.Data.List.TakeWhile
import Mathlib.Data.String.Basic

set_option autoImplicit false

namespace Stakit.PostgresLexer
open List

inductive Quote where
  | identifier
  | literal
  deriving DecidableEq

def Quote.mark : Quote → Char
  | identifier => '"'
  | literal => '\''

inductive Token where
  | word (text : List Char)
  | quoted (quote : Quote) (text : List Char)
  | dollar (body : List Char)
  | symbol (character : Char)
  deriving DecidableEq

/-- As many leading characters as fit into a number of bytes. -/
def clip : ℕ → List Char → List Char
  | _, [] => []
  | bytes, c :: rest => if c.utf8Size ≤ bytes then c :: clip (bytes - c.utf8Size) rest else []

/-- An identifier keeps its first 63 bytes. -/
def quotedToken (quote : Quote) (text : List Char) : Token :=
  match quote with
  | .identifier => .quoted .identifier (clip 63 text)
  | .literal => .quoted .literal text

def isSpace (c : Char) : Bool := c ∈ [' ', '\t', '\n', '\r', '\x0b', '\x0c']

/-- A character of a tag that is not its first one may be a digit. -/
def isTagStart (c : Char) : Bool := c.isAlpha || c = '_' || 128 ≤ c.toNat

def isTagChar (c : Char) : Bool := isTagStart c || c.isDigit

def isWordChar (c : Char) : Bool := isTagChar c || c = '$'

/-- What is being read, with the characters read so far in reverse. -/
inductive Mode where
  | blank
  | word (reversed : List Char)
  | inside (quote : Quote) (reversed : List Char)
  | closing (quote : Quote) (reversed : List Char)
  | tag (reversed : List Char)
  | dollar (tag reversed : List Char)
  deriving DecidableEq

def start (c : Char) : Mode × List Token :=
  if isSpace c then (.blank, [])
  else if c = '"' then (.inside .identifier [], [])
  else if c = '\'' then (.inside .literal [], [])
  else if c = '$' then (.tag [], [])
  else if isTagStart c then (.word [c], [])
  else (.blank, [.symbol c])

def wordTokens (reversed : List Char) : List Token :=
  if reversed = [] then [] else [.word (reversed.reverse.map Char.toLower)]

def after (tokens : List Token) (next : Mode × List Token) : Mode × List Token :=
  (next.1, tokens ++ next.2)

def step : Mode → Char → Mode × List Token
  | .blank, c => start c
  | .word reversed, c =>
    if isWordChar c then (.word (c :: reversed), []) else after (wordTokens reversed) (start c)
  | .inside quote reversed, c =>
    if c = quote.mark then (.closing quote reversed, []) else (.inside quote (c :: reversed), [])
  | .closing quote reversed, c =>
    if c = quote.mark then (.inside quote (c :: reversed), [])
    else after [quotedToken quote reversed.reverse] (start c)
  | .tag reversed, c =>
    if c = '$' then (.dollar ('$' :: (reversed.reverse ++ ['$'])) [], [])
    else if isTagStart c || isTagChar c && reversed ≠ [] then (.tag (c :: reversed), [])
    else after (.symbol '$' :: wordTokens reversed) (start c)
  | .dollar tag reversed, c =>
    if tag.reverse.isPrefixOf (c :: reversed) then
      (.blank, [.dollar ((c :: reversed).drop tag.length).reverse])
    else (.dollar tag (c :: reversed), [])

/-- The tokens of a text that was read to its end, if nothing was left open. -/
def finish : Mode → Option (List Token)
  | .blank => some []
  | .word reversed => some (wordTokens reversed)
  | .inside _ _ => none
  | .closing quote reversed => some [quotedToken quote reversed.reverse]
  | .tag reversed => some (.symbol '$' :: wordTokens reversed)
  | .dollar _ _ => none

def run : Mode → List Char → Mode × List Token
  | mode, [] => (mode, [])
  | mode, c :: rest => after (step mode c).2 (run (step mode c).1 rest)

/-- A text ends at a character of code zero, and an identifier is not empty. -/
def lex (text : List Char) : Option (List Token) :=
  let read := run .blank (text.takeWhile fun c => c ≠ '\x00')
  ((finish read.1).map fun last => read.2 ++ last).filter fun tokens =>
    .quoted .identifier [] ∉ tokens

theorem run_append (mode : Mode) (first second : List Char) :
    run mode (first ++ second) = after (run mode first).2 (run (run mode first).1 second) := by
  induction first generalizing mode with
  | nil => rfl
  | cons c rest ih => simp only [cons_append, run, after, ih, append_assoc]

theorem run_then {mode next : Mode} {first : List Char} (second : List Char) {tokens : List Token}
    (h : run mode first = (next, tokens)) :
    run mode (first ++ second) = after tokens (run next second) := by
  rw [run_append, h]

def doubled (quote : Quote) (text : List Char) : List Char :=
  text.flatMap fun c => if c = quote.mark then [c, c] else [c]

variable (quote : Quote) (text : List Char) (c : Char) (tag : List Char)

theorem mem_doubled : c ∈ doubled quote text ↔ c ∈ text := by
  simp only [doubled, mem_flatMap]
  constructor
  · rintro ⟨found, hfound, hc⟩
    split at hc
    · rcases mem_pair.mp hc with rfl | rfl <;> exact hfound
    · exact mem_singleton.mp hc ▸ hfound
  · intro hc
    refine ⟨c, hc, ?_⟩
    split
    · exact mem_cons_self
    · exact mem_singleton.mpr rfl

theorem run_doubled (reversed text : List Char) :
    run (.inside quote reversed) (doubled quote text) =
      (.inside quote (text.reverse ++ reversed), []) := by
  induction text generalizing reversed with
  | nil => rfl
  | cons c rest ih =>
    have hone : run (.inside quote reversed) (if c = quote.mark then [c, c] else [c]) =
        (.inside quote (c :: reversed), []) := by
      by_cases h : c = quote.mark
      · simp [h, run, step, after]
      · simp [h, run, step, after]
    rw [show doubled quote (c :: rest) = (if c = quote.mark then [c, c] else [c]) ++
      doubled quote rest from rfl, run_then _ hone, ih]
    simp [after]

theorem run_quoted (hc : c ≠ quote.mark) (rest : List Char) :
    run .blank (quote.mark :: (doubled quote text ++ quote.mark :: c :: rest)) =
      after [quotedToken quote text] (run .blank (c :: rest)) := by
  have hopen : step .blank quote.mark = (.inside quote [], []) := by cases quote <;> rfl
  rw [run, hopen]
  dsimp only
  rw [run_then _ (run_doubled quote [] text)]
  simp [run, step, after, hc]

theorem clip_fits (bytes : ℕ) (text : List Char) (h : String.utf8Len text ≤ bytes) :
    clip bytes text = text := by
  induction text generalizing bytes with
  | nil => rfl
  | cons c rest ih =>
    rw [String.utf8Len_cons] at h
    rw [clip, if_pos (by omega), ih _ (by omega)]

theorem lex_closed {tokens : List Token} (whole : '\x00' ∉ text)
    (h : run .blank text = (.blank, tokens)) (named : .quoted .identifier [] ∉ tokens) :
    lex text = some tokens := by
  have htake : text.takeWhile (fun c => c ≠ '\x00') = text := by
    rw [takeWhile_eq_self_iff]
    exact fun c hc => decide_eq_true fun heq => whole (heq ▸ hc)
  unfold lex
  rw [htake, h]
  simp [finish, named]

theorem isPrefixOf_reverse (read : List Char) (c : Char) (reversed : List Char)
    (h : c :: reversed = read.reverse) :
    tag.reverse.isPrefixOf (c :: reversed) = true ↔ tag <:+ read := by
  rw [h, isPrefixOf_iff_prefix, reverse_prefix]

theorem first_tag {body : List Char} (rest front back : List Char) (fresh : ¬tag <:+: body)
    (last : ∀ c ∈ body.getLast?, c ∉ tag) (h : body ++ (tag ++ rest) = front ++ (tag ++ back)) :
    body.length ≤ front.length := by
  rcases append_eq_append_iff.mp h with ⟨middle, hfront, _⟩ | ⟨middle, hbody, htag⟩
  · rw [hfront, length_append]
    exact Nat.le_add_right _ _
  · rcases append_eq_append_iff.mp htag with ⟨after, hmiddle, _⟩ | ⟨after, htail, _⟩
    · exact absurd ⟨front, after, by rw [hbody, hmiddle, append_assoc]⟩ fresh
    · rcases eq_nil_or_concat middle with rfl | ⟨most, c, rfl⟩
      · rw [hbody, append_nil]
      · refine absurd ?_ (last c ?_)
        · rw [htail]
          exact mem_append_left _ (by simp)
        · rw [hbody, concat_eq_append, ← append_assoc, List.getLast?_append]
          rfl

theorem run_dollar_steps (read rest : List Char)
    (h : ∀ front back, front ≠ [] → back ≠ [] → rest = front ++ back → ¬tag <:+ read ++ front) :
    ∀ front back, back ≠ [] → rest = front ++ back →
      run (.dollar tag read.reverse) front = (.dollar tag (read ++ front).reverse, []) := by
  intro front
  induction front generalizing read rest with
  | nil => intro back _ _; rw [append_nil]; rfl
  | cons c front ih =>
    intro back hback split
    have hopen : ¬tag <:+ read ++ [c] :=
      h [c] (front ++ back) (cons_ne_nil c [])
        (fun hnil => hback (append_eq_nil_iff.mp hnil).2) split
    have hstep : step (.dollar tag read.reverse) c = (.dollar tag (read ++ [c]).reverse, []) := by
      have hno : ¬tag.reverse.isPrefixOf (c :: read.reverse) = true := by
        rw [isPrefixOf_reverse tag (read ++ [c]) c _ (by simp)]
        exact hopen
      rw [step, if_neg hno]
      simp
    have hrest := ih (read ++ [c]) (front ++ back) (fun taken left _ hleft hsplit => by
      rw [append_assoc]
      refine h (c :: taken) left (cons_ne_nil c taken) hleft ?_
      rw [split, cons_append, hsplit, cons_append]) back hback rfl
    rw [run, hstep]
    dsimp only
    rw [hrest, append_assoc]
    rfl

theorem run_dollar {body : List Char} (fresh : ¬tag <:+: body)
    (last : ∀ c ∈ body.getLast?, c ∉ tag) (hne : tag ≠ []) :
    run (.dollar tag []) (body ++ tag) = (.blank, [.dollar body]) := by
  obtain ⟨most, c, hmost⟩ : ∃ most c, tag = most ++ [c] := by
    rcases eq_nil_or_concat tag with h | ⟨most, c, h⟩
    · exact absurd h hne
    · exact ⟨most, c, by rw [h, concat_eq_append]⟩
  have hopen : ∀ front back, front ≠ [] → back ≠ [] → body ++ tag = front ++ back →
      ¬tag <:+ [] ++ front := by
    rintro front back _ hback split ⟨before, hbefore⟩
    rw [nil_append] at hbefore
    rw [← hbefore] at split
    have hlength := congrArg List.length split
    have hfirst := first_tag tag [] before back fresh last
      (by rw [append_nil, split, append_assoc])
    have hpos := length_pos_iff.mpr hback
    simp only [length_append] at hlength
    omega
  have hwhole : body ++ tag = (body ++ most) ++ [c] := by rw [hmost, append_assoc]
  have hfront := run_dollar_steps tag [] (body ++ tag) hopen (body ++ most) [c]
    (cons_ne_nil c []) hwhole
  rw [nil_append, reverse_nil] at hfront
  have hclose : step (.dollar tag (body ++ most).reverse) c = (.blank, [.dollar body]) := by
    have hyes : tag.reverse.isPrefixOf (c :: (body ++ most).reverse) = true := by
      rw [isPrefixOf_reverse tag (body ++ tag) c _ (by rw [hwhole]; simp)]
      exact suffix_append body tag
    rw [step, if_pos hyes]
    have hdrop : (c :: (body ++ most).reverse).drop tag.length = body.reverse := by
      have hreverse : c :: (body ++ most).reverse = tag.reverse ++ body.reverse := by
        rw [hmost]
        simp
      rw [hreverse]
      exact drop_left' (length_reverse)
    rw [hdrop, reverse_reverse]
  rw [hwhole, run_then _ hfront]
  simp only [run, hclose, after, nil_append, append_nil]

end Stakit.PostgresLexer
