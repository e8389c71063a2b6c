import Mathlib.Data.List.Infix

set_option autoImplicit false

namespace Stakit.LikePatterns
open List

variable {α : Type}

inductive Part (α : Type) where
  | anyRun
  | anyOne
  | literal (c : α)

def Describes : List (Part α) → List α → Prop
  | [], text => text = []
  | .literal c :: parts, text => ∃ rest, text = c :: rest ∧ Describes parts rest
  | .anyOne :: parts, text => ∃ c rest, text = c :: rest ∧ Describes parts rest
  | .anyRun :: parts, text => ∃ front rest, text = front ++ rest ∧ Describes parts rest

theorem describes_literals (needle : List α) (parts : List (Part α)) (text : List α) :
    Describes (needle.map .literal ++ parts) text ↔
      ∃ rest, text = needle ++ rest ∧ Describes parts rest := by
  induction needle generalizing text with
  | nil =>
    constructor
    · intro h
      exact ⟨text, rfl, h⟩
    · rintro ⟨rest, rfl, h⟩
      exact h
  | cons c needle ih =>
    rw [map_cons, cons_append, Describes]
    constructor
    · rintro ⟨tail, rfl, htail⟩
      obtain ⟨rest, rfl, h⟩ := (ih tail).mp htail
      exact ⟨rest, rfl, h⟩
    · rintro ⟨rest, rfl, h⟩
      exact ⟨needle ++ rest, rfl, (ih _).mpr ⟨rest, rfl, h⟩⟩

theorem describes_anyRun (text : List α) : Describes [.anyRun] text := by
  refine ⟨text, [], ?_, rfl⟩
  rw [append_nil]

theorem describes_infix (needle text : List α) :
    Describes (.anyRun :: (needle.map .literal ++ [.anyRun])) text ↔ needle <:+: text := by
  rw [Describes]
  constructor
  · rintro ⟨front, rest, rfl, h⟩
    obtain ⟨back, rfl, _⟩ := (describes_literals needle _ rest).mp h
    exact ⟨front, back, append_assoc front needle back⟩
  · rintro ⟨front, back, rfl⟩
    refine ⟨front, needle ++ back, append_assoc front needle back, ?_⟩
    rw [describes_literals]
    exact ⟨back, rfl, describes_anyRun back⟩

section
variable [DecidableEq α]

def matchParts : List (Part α) → List α → Bool
  | [], text => text.isEmpty
  | .literal _ :: _, [] => false
  | .literal c :: parts, first :: text => first = c && matchParts parts text
  | .anyOne :: _, [] => false
  | .anyOne :: parts, _ :: text => matchParts parts text
  | .anyRun :: parts, text => text.tails.any (matchParts parts)

theorem matchParts_iff (parts : List (Part α)) (text : List α) :
    matchParts parts text = true ↔ Describes parts text := by
  induction parts generalizing text with
  | nil => rw [matchParts, Describes, List.isEmpty_iff]
  | cons part parts ih =>
    cases part with
    | literal c | anyOne =>
      cases text with
      | nil => simp [matchParts, Describes]
      | cons first text => simp [matchParts, Describes, ih]
    | anyRun =>
      rw [matchParts, Describes, List.any_eq_true]
      constructor
      · rintro ⟨rest, hrest, h⟩
        obtain ⟨front, rfl⟩ := (List.mem_tails rest text).mp hrest
        exact ⟨front, rest, rfl, (ih rest).mp h⟩
      · rintro ⟨front, rest, rfl, h⟩
        exact ⟨rest, (List.mem_tails rest _).mpr ⟨front, rfl⟩, (ih rest).mpr h⟩

structure Wildcards (α : Type) where
  run : α
  one : α
  escape : α

variable (wildcards : Wildcards α)

def part (c : α) : Part α :=
  if c = wildcards.run then .anyRun else if c = wildcards.one then .anyOne else .literal c

def readParts : List α → Option (List (Part α))
  | [] => some []
  | [c] => if c = wildcards.escape then none else some [part wildcards c]
  | c :: next :: rest =>
    if c = wildcards.escape then (readParts rest).map (.literal next :: ·)
    else (readParts (next :: rest)).map (part wildcards c :: ·)

theorem readParts_part {c : α} (rest : List α) (h : c ≠ wildcards.escape) :
    readParts wildcards (c :: rest) = (readParts wildcards rest).map (part wildcards c :: ·) := by
  cases rest with
  | nil => exact if_neg h
  | cons next rest => rw [readParts, if_neg h]

theorem readParts_escape (c : α) (rest : List α) :
    readParts wildcards (wildcards.escape :: c :: rest) =
      (readParts wildcards rest).map (.literal c :: ·) := by
  rw [readParts, if_pos rfl]

/-- The escape character and the two wildcards, which stand for themselves only when escaped. -/
def isSpecial (c : α) : Bool := c = wildcards.escape || c = wildcards.run || c = wildcards.one

def escaped (text : List α) : List α :=
  text.flatMap fun c => if isSpecial wildcards c then [wildcards.escape, c] else [c]

theorem readParts_escaped (text rest : List α) :
    readParts wildcards (escaped wildcards text ++ rest) =
      (readParts wildcards rest).map (text.map .literal ++ ·) := by
  induction text with
  | nil =>
    rw [escaped, flatMap_nil, nil_append]
    exact Option.map_id'.symm
  | cons c text ih =>
    have hcons : escaped wildcards (c :: text) =
        (if isSpecial wildcards c then [wildcards.escape, c] else [c]) ++ escaped wildcards text :=
      flatMap_cons
    have hmap (parts : Option (List (Part α))) :
        (parts.map (text.map .literal ++ ·)).map (.literal c :: ·) =
          parts.map ((c :: text).map .literal ++ ·) := by
      rw [Option.map_map]
      rfl
    by_cases hspecial : isSpecial wildcards c = true
    · rw [hcons, if_pos hspecial, append_assoc, cons_append, cons_append,
        nil_append, readParts_escape, ih, hmap]
    · have hplain : ¬c = wildcards.escape ∧ ¬c = wildcards.run ∧ ¬c = wildcards.one := by
        simpa [isSpecial, and_assoc] using hspecial
      have hpart : part wildcards c = .literal c := by
        rw [part, if_neg hplain.2.1, if_neg hplain.2.2]
      rw [hcons, if_neg hspecial, append_assoc, cons_append, nil_append,
        readParts_part wildcards _ hplain.1, hpart, ih, hmap]

def like (pattern text : List α) : Bool :=
  (readParts wildcards pattern).any fun parts => matchParts parts text

theorem like_escaped (hrun : wildcards.run ≠ wildcards.escape) (needle text : List α) :
    like wildcards (wildcards.run :: (escaped wildcards needle ++ [wildcards.run])) text = true ↔
      needle <:+: text := by
  have hpart : part wildcards wildcards.run = .anyRun := if_pos rfl
  have hparts : readParts wildcards (wildcards.run :: (escaped wildcards needle ++ [wildcards.run]))
      = some (.anyRun :: (needle.map .literal ++ [.anyRun])) := by
    rw [readParts_part wildcards _ hrun, readParts_escaped, readParts_part wildcards _ hrun, hpart]
    rfl
  rw [like, hparts, Option.any_some, matchParts_iff, describes_infix]

end

end Stakit.LikePatterns
