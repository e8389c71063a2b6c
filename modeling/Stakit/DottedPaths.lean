import Mathlib.Data.List.Infix

set_option autoImplicit false

namespace Stakit.DottedPaths
open List

inductive Segment
  | name (text : List Char)
  | index (n : ℕ)
  | key (text : List Char)
deriving DecidableEq

/-- What is written after a segment. -/
def joined : List Char → List Char
  | [] => []
  | '[' :: rest => '[' :: rest
  | rest => '.' :: rest

def bracketed (inside rest : List Char) : List Char := '[' :: inside ++ ']' :: joined rest

def Segment.before : Segment → List Char → List Char
  | .name text, rest => text ++ joined rest
  | .index n, rest => bracketed (Nat.toDigits 10 n) rest
  | .key text, rest => bracketed text rest

def written (position : List Segment) : List Char := position.foldr Segment.before []

structure Plain (text : List Char) : Prop where
  dot : '.' ∉ text
  bracket : '[' ∉ text

/-- Positions that are of one kind as long as they are the same, as in one tree. -/
def Aligned : List Segment → List Segment → Prop
  | .name text :: rest, .name other :: rest' =>
    Plain text ∧ Plain other ∧ (text = other → Aligned rest rest')
  | .index n :: rest, .index m :: rest' => n = m → Aligned rest rest'
  | .key text :: rest, .key other :: rest' => text = other → Aligned rest rest'
  | [], _ => True
  | _, [] => True
  | _, _ => False

/-- A key that closes the bracket of another one and goes on with the way below it. -/
def Spelled (key other : List Char) (rest rest' : List Segment) : Prop :=
  ∃ inside, other = key ++ ']' :: inside ∧
    joined (written rest) = inside ++ ']' :: joined (written rest')

/-- Two ways to write one path: by a key that is spelled, or by empty names at the end. -/
def Confused (position other : List Segment) : Prop :=
  (∃ front key key' rest rest', position = front ++ .key key :: rest ∧
    other = front ++ .key key' :: rest' ∧ Spelled key key' rest rest') ∨
  ∃ n, other = position ++ List.replicate (n + 1) (.name [])

theorem joined_cases (rest : List Char) :
    joined rest = [] ∧ rest = [] ∨ (∃ more, joined rest = '.' :: more ∧ rest = more) ∨
      ∃ more, joined rest = '[' :: more ∧ rest = '[' :: more := by
  unfold joined
  split
  · exact .inl ⟨rfl, rfl⟩
  · exact .inr (.inr ⟨_, rfl, rfl⟩)
  · exact .inr (.inl ⟨_, rfl, rfl⟩)

/-- What was written after a segment, without the dot. -/
def unjoined : List Char → List Char
  | '.' :: rest => rest
  | rest => rest

theorem unjoined_joined (rest : List Char) : unjoined (joined rest) = rest := by
  rcases joined_cases rest with ⟨hjoined, rfl⟩ | ⟨more, hjoined, rfl⟩ | ⟨more, hjoined, rfl⟩ <;>
    rw [hjoined] <;> rfl

theorem joined_inj {rest other : List Char} (h : joined rest = joined other) : rest = other := by
  rw [← unjoined_joined rest, h, unjoined_joined]

theorem span_joined {text : List Char} (rest : List Char) (h : Plain text) :
    (text ++ joined rest).takeWhile (fun c => c != '.' && c != '[') = text := by
  have htext : ∀ c ∈ text, (c != '.' && c != '[') = true := by
    intro c hc
    rw [Bool.and_eq_true, bne_iff_ne, bne_iff_ne]
    exact ⟨fun heq => h.dot (heq ▸ hc), fun heq => h.bracket (heq ▸ hc)⟩
  rw [takeWhile_append_of_pos htext]
  rcases joined_cases rest with ⟨hjoined, -⟩ | ⟨more, hjoined, -⟩ | ⟨more, hjoined, -⟩
  · rw [hjoined]
    exact append_nil _
  · rw [hjoined]
    exact append_nil _
  · rw [hjoined]
    exact append_nil _

theorem name_inj {text other rest rest' : List Char} (h : Plain text) (h' : Plain other)
    (heq : text ++ joined rest = other ++ joined rest') : text = other ∧ rest = rest' := by
  have htext : text = other := by
    rw [← span_joined rest h, heq, span_joined rest' h']
  rw [htext] at heq
  exact ⟨htext, joined_inj (append_cancel_left heq)⟩

theorem closed_eq {inside other rest rest' : List Char}
    (h : inside ++ ']' :: rest = other ++ ']' :: rest') :
    inside = other ∧ rest = rest' ∨
      (∃ more, other = inside ++ ']' :: more ∧ rest = more ++ ']' :: rest') ∨
      ∃ more, inside = other ++ ']' :: more ∧ rest' = more ++ ']' :: rest := by
  rcases append_eq_append_iff.mp h with ⟨more, rfl, hrest⟩ | ⟨more, rfl, hrest⟩
  · cases more with
    | nil => exact .inl ⟨(append_nil _).symm, (List.cons.inj hrest).2⟩
    | cons c more =>
      obtain ⟨rfl, htail⟩ := List.cons.inj hrest
      exact .inr (.inl ⟨more, rfl, htail⟩)
  · cases more with
    | nil => exact .inl ⟨append_nil _, (List.cons.inj hrest).2.symm⟩
    | cons c more =>
      obtain ⟨rfl, htail⟩ := List.cons.inj hrest
      exact .inr (.inr ⟨more, rfl, htail⟩)

theorem key_eq {key other : List Char} {rest rest' : List Segment}
    (h : bracketed key (written rest) = bracketed other (written rest')) :
    key = other ∧ written rest = written rest' ∨
      Spelled key other rest rest' ∨ Spelled other key rest' rest := by
  rcases closed_eq (List.cons.inj h).2 with ⟨hkey, hrest⟩ | hspelled | hspelled
  · exact .inl ⟨hkey, joined_inj hrest⟩
  · exact .inr (.inl hspelled)
  · exact .inr (.inr hspelled)

theorem not_closed_mem_digits (n : ℕ) : ']' ∉ Nat.toDigits 10 n := fun h =>
  absurd (Nat.isDigit_of_mem_toDigits (by decide) (by decide) h) (by decide)

theorem index_inj {n m : ℕ} {rest rest' : List Char}
    (h : bracketed (Nat.toDigits 10 n) rest = bracketed (Nat.toDigits 10 m) rest') :
    n = m ∧ rest = rest' := by
  rcases closed_eq (List.cons.inj h).2 with ⟨hdigits, hrest⟩ | ⟨more, hmore, -⟩ | ⟨more, hmore, -⟩
  · refine ⟨?_, joined_inj hrest⟩
    rw [← Nat.ofDigitChars_ten_toDigits (n := n), hdigits, Nat.ofDigitChars_ten_toDigits]
  · refine absurd ?_ (not_closed_mem_digits m)
    rw [hmore]
    exact mem_append_right _ mem_cons_self
  · refine absurd ?_ (not_closed_mem_digits n)
    rw [hmore]
    exact mem_append_right _ mem_cons_self

theorem aligned_nil (position : List Segment) : Aligned position [] := by
  cases position with
  | nil => trivial
  | cons segment rest => cases segment <;> trivial

theorem written_append (front rest : List Segment) :
    written (front ++ rest) = front.foldr Segment.before (written rest) :=
  foldr_append

theorem written_empty (n : ℕ) : written (List.replicate n (.name [])) = [] := by
  induction n with
  | zero => rfl
  | succ n ih =>
    have hwritten : written (List.replicate (n + 1) (.name [])) =
        joined (written (List.replicate n (.name []))) := rfl
    rw [hwritten, ih]
    rfl

theorem empty_of_written (position : List Segment) (h : written position = []) :
    ∃ n, position = List.replicate n (.name []) := by
  induction position with
  | nil => exact ⟨0, rfl⟩
  | cons segment rest ih =>
    have hbefore : segment.before (written rest) = [] := h
    cases segment with
    | name text =>
      obtain ⟨rfl, hrest⟩ := append_eq_nil_iff.mp hbefore
      have hnil : joined (written rest) = joined [] := hrest
      obtain ⟨n, rfl⟩ := ih (joined_inj hnil)
      exact ⟨n + 1, rfl⟩
    | index n | key text => exact absurd hbefore (cons_ne_nil _ _)

theorem Confused.written_eq {position other : List Segment} (h : Confused position other) :
    written position = written other := by
  rcases h with ⟨front, key, key', rest, rest', rfl, rfl, inside, rfl, hinside⟩ | ⟨n, rfl⟩
  · have hkeys : bracketed key (written rest) =
        bracketed (key ++ ']' :: inside) (written rest') := by
      unfold bracketed
      rw [hinside]
      exact congrArg (List.cons '[') (append_assoc key (']' :: inside) _).symm
    rw [written_append, written_append]
    exact congrArg (front.foldr Segment.before) hkeys
  · rw [written_append, written_empty]
    rfl

theorem Confused.ne {position other : List Segment} (h : Confused position other) :
    position ≠ other := by
  rcases h with ⟨front, key, key', rest, rest', rfl, rfl, inside, rfl, -⟩ | ⟨n, rfl⟩
  · intro hsame
    have hkey : key = key ++ ']' :: inside :=
      Segment.key.inj (List.cons.inj (append_cancel_left hsame)).1
    exact cons_ne_nil _ _ (self_eq_append_right.mp hkey)
  · intro hsame
    exact cons_ne_nil _ _ (self_eq_append_right.mp hsame)

theorem Confused.cons {position other : List Segment} (segment : Segment)
    (h : Confused position other) : Confused (segment :: position) (segment :: other) := by
  rcases h with ⟨front, key, key', rest, rest', rfl, rfl, hspelled⟩ | ⟨n, rfl⟩
  · exact .inl ⟨segment :: front, key, key', rest, rest', rfl, rfl, hspelled⟩
  · exact .inr ⟨n, rfl⟩

theorem confused_of_written (position other : List Segment) (haligned : Aligned position other)
    (h : written position = written other) :
    position = other ∨ Confused position other ∨ Confused other position := by
  induction position generalizing other with
  | nil =>
    obtain ⟨n, rfl⟩ := empty_of_written other h.symm
    cases n with
    | zero => exact .inl rfl
    | succ n => exact .inr (.inl (.inr ⟨n, rfl⟩))
  | cons segment rest ih =>
    have below {rest' : List Segment}
        (hbelow : rest = rest' ∨ Confused rest rest' ∨ Confused rest' rest) :
        segment :: rest = segment :: rest' ∨ Confused (segment :: rest) (segment :: rest') ∨
          Confused (segment :: rest') (segment :: rest) :=
      hbelow.imp (congrArg (segment :: ·)) (Or.imp (Confused.cons segment) (Confused.cons segment))
    match segment, other, haligned with
    | segment, [], _ =>
      obtain ⟨n, hempty⟩ := empty_of_written (segment :: rest) h
      cases n with
      | zero => exact .inl hempty
      | succ n => exact .inr (.inr (.inr ⟨n, hempty⟩))
    | .name text, .name other :: rest', haligned =>
      obtain ⟨hplain, hplain', hrest⟩ := haligned
      obtain ⟨rfl, hwritten⟩ := name_inj hplain hplain' h
      exact below (ih rest' (hrest rfl) hwritten)
    | .index n, .index m :: rest', haligned =>
      obtain ⟨rfl, hwritten⟩ := index_inj h
      exact below (ih rest' (haligned rfl) hwritten)
    | .key text, .key other :: rest', haligned =>
      rcases key_eq h with ⟨rfl, hwritten⟩ | hspelled | hspelled
      · exact below (ih rest' (haligned rfl) hwritten)
      · exact .inr (.inl (.inl ⟨[], text, other, rest, rest', rfl, rfl, hspelled⟩))
      · exact .inr (.inr (.inl ⟨[], other, text, rest', rest, rfl, rfl, hspelled⟩))

end Stakit.DottedPaths
