import Mathlib.Data.List.DropRight

set_option autoImplicit false

namespace Stakit.TextParts
open List

variable {κ : Type} (blank : κ → Bool)

def Blank (text : List κ) : Prop := ∀ c ∈ text, blank c = true

def Word (text : List κ) : Prop := text ≠ [] ∧ ∀ c ∈ text, blank c = false

def Tight (text : List κ) : Prop :=
  (∀ c ∈ text.head?, blank c = false) ∧ ∀ c ∈ text.getLast?, blank c = false

def trim (text : List κ) : List κ := (text.dropWhile blank).rdropWhile blank

def nextWord (text : List κ) : Option (List κ × List κ) :=
  match text.dropWhile blank with
  | [] => none
  | c :: rest => some ((c :: rest).takeWhile (!blank ·), (c :: rest).dropWhile (!blank ·))

def stripPrefix [DecidableEq κ] (start text : List κ) : Option (List κ) :=
  if start <+: text then some (text.drop start.length) else none

def stripSuffix [DecidableEq κ] (last : κ) (text : List κ) : Option (List κ) :=
  if text.getLast? = some last then some text.dropLast else none

def splitOnce [DecidableEq κ] (sep : κ) (text : List κ) : Option (List κ × List κ) :=
  match text.dropWhile (· ≠ sep) with
  | [] => none
  | _ :: rest => some (text.takeWhile (· ≠ sep), rest)

variable {blank}

theorem Blank.nil : Blank blank [] := nofun

theorem Blank.append {front back : List κ} (hfront : Blank blank front) (hback : Blank blank back) :
    Blank blank (front ++ back) := fun c hc => (mem_append.mp hc).elim (hfront c) (hback c)

variable (blank) in
theorem dropWhile_split (text : List κ) :
    ∃ front, Blank blank front ∧ text = front ++ text.dropWhile blank :=
  ⟨text.takeWhile blank, fun _ hc => mem_takeWhile_imp hc, (takeWhile_append_dropWhile).symm⟩

variable (blank) in
theorem trim_split (text : List κ) : ∃ front back, Blank blank front ∧ Blank blank back ∧
    text = front ++ (trim blank text ++ back) := by
  obtain ⟨front, hfront, htext⟩ := dropWhile_split blank text
  obtain ⟨back, hback, hrest⟩ := dropWhile_split blank (text.dropWhile blank).reverse
  refine ⟨front, back.reverse, hfront, fun c hc => hback c (mem_reverse.mp hc), ?_⟩
  have hreverse := congrArg List.reverse hrest
  rw [reverse_reverse, reverse_append] at hreverse
  rw [trim, List.rdropWhile, ← hreverse]
  exact htext

theorem dropWhile_blank (front back : List κ) (hfront : Blank blank front)
    (hback : ∀ c ∈ back.head?, blank c = false) : (front ++ back).dropWhile blank = back := by
  rw [dropWhile_append_of_pos hfront]
  cases back with
  | nil => rfl
  | cons c back => exact dropWhile_cons_of_neg (Bool.not_eq_true _ ▸ hback c rfl)

theorem trim_eq {front inner back : List κ} (hfront : Blank blank front) (hback : Blank blank back)
    (hinner : Tight blank inner) : trim blank (front ++ (inner ++ back)) = inner := by
  cases inner with
  | nil =>
    have hall : Blank blank (front ++ back) := hfront.append hback
    rw [nil_append, trim, dropWhile_eq_nil_iff.mpr hall, rdropWhile_nil]
  | cons c inner =>
    have hreverse : Blank blank back.reverse := fun d hd => hback d (mem_reverse.mp hd)
    have hlast : ∀ d ∈ (c :: inner).reverse.head?, blank d = false := by
      rw [List.head?_reverse]
      exact hinner.2
    rw [trim, dropWhile_blank front (c :: inner ++ back) hfront hinner.1, List.rdropWhile, reverse_append,
      dropWhile_blank _ _ hreverse hlast, reverse_reverse]

theorem trim_tight {text : List κ} (h : Tight blank text) : trim blank text = text := by
  have heq := trim_eq Blank.nil Blank.nil h
  rwa [nil_append, append_nil] at heq

theorem Word.tight {text : List κ} (h : Word blank text) : Tight blank text :=
  ⟨fun c hc => h.2 c (mem_of_head? hc), fun c hc => h.2 c (mem_of_getLast? hc)⟩

def Parted (blank : κ → Bool) (rest : List κ) : Prop := ∀ c ∈ rest.head?, blank c = true

theorem nextWord_eq_some_iff (text word rest : List κ) : nextWord blank text = some (word, rest) ↔
      ∃ front, text = front ++ (word ++ rest) ∧ Blank blank front ∧ Word blank word ∧
        Parted blank rest := by
  unfold nextWord
  constructor
  · intro h
    split at h
    · cases h
    · rename_i c tail hdrop
      obtain ⟨front, hfront, htext⟩ := dropWhile_split blank text
      have hhead : blank c = false := by
        have hnot := head_dropWhile_not (p := blank) (l := text)
          (hdrop ▸ cons_ne_nil c tail)
        simpa only [hdrop, head_cons] using hnot
      obtain ⟨hword, hrest⟩ := Prod.mk.inj (Option.some.inj h)
      refine ⟨front, ?_, hfront, ⟨?_, fun d hd => ?_⟩, fun d hd => ?_⟩
      · rw [← hword, ← hrest, takeWhile_append_dropWhile, ← hdrop]
        exact htext
      · rw [← hword, takeWhile_cons_of_pos (by rw [hhead]; rfl)]
        exact cons_ne_nil _ _
      · rw [← hword] at hd
        simpa using mem_takeWhile_imp hd
      · rw [← hrest] at hd
        have hnot := List.head?_dropWhile_not (fun d => !blank d) (c :: tail)
        rw [hd] at hnot
        simpa using hnot
  · rintro ⟨front, rfl, hfront, hword, hrest⟩
    have hdrop : (front ++ (word ++ rest)).dropWhile blank = word ++ rest := by
      refine dropWhile_blank front _ hfront fun c hc => ?_
      rw [List.head?_append_of_ne_nil _ hword.1] at hc
      exact hword.tight.1 c hc
    have hpos : ∀ c ∈ word, (!blank c) = true := fun c hc => by rw [hword.2 c hc]; rfl
    have hneg : ∀ c ∈ rest.head?, (!blank c) = false := fun c hc => by rw [hrest c hc]; rfl
    have htail : (word ++ rest).dropWhile (!blank ·) = rest := dropWhile_blank word rest hpos hneg
    rw [hdrop]
    split
    · rename_i hnil
      exact absurd (append_eq_nil_iff.mp hnil).1 hword.1
    · rename_i c tail hcons
      rw [← hcons, takeWhile_append_of_pos hpos, htail]
      cases rest with
      | nil => simp
      | cons d rest => rw [takeWhile_cons_of_neg (by rw [hneg d rfl]; decide), append_nil]

section
variable [DecidableEq κ]

theorem stripPrefix_eq_some_iff (start text rest : List κ) :
    stripPrefix start text = some rest ↔ text = start ++ rest := by
  unfold stripPrefix
  constructor
  · intro h
    split at h
    · rename_i hprefix
      obtain ⟨tail, rfl⟩ := hprefix
      rw [drop_left] at h
      rw [Option.some.inj h]
    · cases h
  · rintro rfl
    rw [if_pos (prefix_append start rest), drop_left]

theorem stripSuffix_eq_some_iff (last : κ) (text rest : List κ) :
    stripSuffix last text = some rest ↔ text = rest ++ [last] := by
  unfold stripSuffix
  constructor
  · intro h
    split at h
    · rename_i hlast
      obtain ⟨front, rfl⟩ := List.getLast?_eq_some_iff.mp hlast
      rw [dropLast_concat] at h
      rw [Option.some.inj h]
    · cases h
  · rintro rfl
    rw [if_pos List.getLast?_concat, dropLast_concat]

theorem splitOnce_eq_some_iff (sep : κ) (text front back : List κ) :
    splitOnce sep text = some (front, back) ↔ text = front ++ sep :: back ∧ sep ∉ front := by
  unfold splitOnce
  constructor
  · intro h
    split at h
    · cases h
    · rename_i c rest hdrop
      obtain ⟨hfront, hback⟩ := Prod.mk.inj (Option.some.inj h)
      have hsep : c = sep := by
        have hnot := head_dropWhile_not (fun d => decide (d ≠ sep)) (l := text)
          (hdrop ▸ cons_ne_nil c rest)
        simpa only [hdrop, head_cons, decide_eq_false_iff_not, not_not] using hnot
      refine ⟨?_, fun hin => ?_⟩
      · rw [← hfront, ← hback, ← hsep, ← hdrop, hsep, takeWhile_append_dropWhile]
      · rw [← hfront] at hin
        have hne := mem_takeWhile_imp hin
        simp at hne
  · rintro ⟨rfl, hsep⟩
    have hfront : ∀ c ∈ front, decide (c ≠ sep) = true := fun c hc =>
      decide_eq_true fun heq => hsep (heq ▸ hc)
    rw [dropWhile_append_of_pos hfront, takeWhile_append_of_pos hfront,
      dropWhile_cons_of_neg (by simp), takeWhile_cons_of_neg (by simp), append_nil]

end

end Stakit.TextParts
