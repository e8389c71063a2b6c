import Mathlib.Data.List.Basic

set_option autoImplicit false

namespace Stakit.BufferedLines
open List

/-- What a line means: `last` ends the whole with an error, `finish` without one. -/
inductive Line (T E : Type) where
  | item (data : T)
  | last (error : E)
  | finish
  | skip
  deriving DecidableEq

structure Outcome (T E : Type) where
  items : List T
  ending : Option E
  deriving DecidableEq

variable {α T E : Type}

def Line.follow (line : Line T E) (rest : Outcome T E) : Outcome T E :=
  match line with
  | .item data => ⟨data :: rest.items, rest.ending⟩
  | .last error => ⟨[], some error⟩
  | .finish => ⟨[], none⟩
  | .skip => rest

def Line.ends : Line T E → Bool
  | .last _ => true
  | .finish => true
  | _ => false

theorem follow_eq_iff (line : Line T E) (rest other : Outcome T E) :
    line.follow rest = line.follow other ↔ line.ends = true ∨ rest = other := by
  cases line with
  | item data =>
    refine ⟨fun h => .inr ?_, fun h => ?_⟩
    · injection h with hitems hending
      injection hitems with _ hitems
      cases rest
      cases other
      exact congrArg₂ Outcome.mk hitems hending
    · rcases h with h | h
      · cases h
      · rw [h]
  | last error | finish => exact iff_of_true rfl (.inl rfl)
  | skip => exact ⟨.inr, fun h => h.elim nofun id⟩

theorem follow_cut_iff (line : Line T E) (rest : Outcome T E) (error : E) :
    line.follow rest = ⟨[], some error⟩ ↔
      line = .last error ∨ line = .skip ∧ rest = ⟨[], some error⟩ := by
  cases line with
  | item data =>
    refine iff_of_false (fun h => ?_) (fun h => ?_)
    · injection h with hitems
      cases hitems
    · rcases h with h | h
      · cases h
      · cases h.1
  | last other =>
    refine ⟨fun h => .inl ?_, fun h => ?_⟩
    · injection h with _ hending
      injection hending with herror
      rw [herror]
    · rcases h with h | h
      · injection h with herror
        rw [herror]
        rfl
      · cases h.1
  | finish =>
    refine iff_of_false (fun h => ?_) (fun h => ?_)
    · injection h with _ hending
      cases hending
    · rcases h with h | h
      · cases h
      · cases h.1
  | skip => exact ⟨fun h => .inr ⟨rfl, h⟩, fun h => h.elim nofun And.right⟩

section
variable [DecidableEq α] (sep : α)

/-- The first separator at a place or after it. -/
def indexFrom (buffer : List α) (offset : ℕ) : Option ℕ :=
  ((buffer.drop offset).idxOf? sep).map fun n => offset + n

theorem idxOf?_first (before after : List α) (h : sep ∉ before) :
    (before ++ sep :: after).idxOf? sep = some before.length := by
  induction before with
  | nil => rw [nil_append, List.idxOf?_cons, if_pos (beq_self_eq_true sep)]; rfl
  | cons c before ih =>
    have hc : (c == sep) = false := beq_false_of_ne fun hc => h (by rw [hc]; exact mem_cons_self)
    rw [cons_append, List.idxOf?_cons, hc, ih fun hin => h (mem_cons_of_mem c hin)]
    rfl

theorem indexFrom_first (before after : List α) (offset : ℕ) (h : sep ∉ before)
    (hoffset : offset ≤ before.length) :
    indexFrom sep (before ++ sep :: after) offset = some before.length := by
  unfold indexFrom
  rw [drop_append_of_le_length hoffset,
    idxOf?_first sep _ _ fun hin => h (mem_of_mem_drop hin), length_drop]
  exact congrArg some (Nat.add_sub_cancel' hoffset)

theorem indexFrom_none (buffer : List α) (offset : ℕ) (h : sep ∉ buffer) :
    indexFrom sep buffer offset = none := by
  unfold indexFrom
  rw [List.idxOf?_eq_none_iff.mpr fun hin => h (mem_of_mem_drop hin)]
  rfl

theorem indexFrom_lt {buffer : List α} {offset n : ℕ} (h : indexFrom sep buffer offset = some n) :
    n < buffer.length := by
  unfold indexFrom at h
  obtain ⟨k, hk, rfl⟩ := Option.map_eq_some_iff.mp h
  have hlt : k < (buffer.drop offset).length := by
    obtain ⟨hk, -⟩ := List.findIdx?_eq_some_iff_findIdx_eq.mp hk
    exact hk
  rw [length_drop] at hlt
  omega

variable (parse : List α → Line T E)

/-- The lines of a buffer, the first searched for from a place on, and then what is left. -/
def takeLines (buffer : List α) (offset : ℕ) (next : List α → Outcome T E) : Outcome T E :=
  match h : indexFrom sep buffer offset with
  | none => next buffer
  | some n => (parse (buffer.take n)).follow (takeLines (buffer.drop (n + 1)) 0 next)
termination_by buffer.length
decreasing_by
  have hlt := indexFrom_lt sep h
  rw [length_drop]
  omega

/-- The lines of a text, read one element at a time; `held` is the line begun. -/
def feed (held : List α) (next : List α → Outcome T E) : List α → Outcome T E
  | [] => next held
  | c :: text =>
    if c = sep then (parse held).follow (feed [] next text) else feed (held ++ [c]) next text

def complete (held : List α) : List α → List (List α)
  | [] => []
  | c :: text => if c = sep then held :: complete [] text else complete (held ++ [c]) text

/-- The line a text leaves begun. -/
def left (held : List α) : List α → List α
  | [] => held
  | c :: text => if c = sep then left [] text else left (held ++ [c]) text

variable (held : List α) (next : List α → Outcome T E) (text : List α)

theorem feed_open (h : sep ∉ text) : feed sep parse held next text = next (held ++ text) := by
  induction text generalizing held with
  | nil => exact congrArg next (append_nil held).symm
  | cons c text ih =>
    have hc : c ≠ sep := fun hc => h (by rw [hc]; exact mem_cons_self)
    unfold feed
    rw [if_neg hc, ih _ fun hin => h (mem_cons_of_mem c hin), append_assoc]
    rfl

theorem feed_line (before after : List α) (h : sep ∉ before) :
    feed sep parse held next (before ++ sep :: after) =
      (parse (held ++ before)).follow (feed sep parse [] next after) := by
  induction before generalizing held with
  | nil =>
    rw [nil_append, append_nil]
    exact if_pos rfl
  | cons c before ih =>
    have hc : c ≠ sep := fun hc => h (by rw [hc]; exact mem_cons_self)
    rw [cons_append, feed, if_neg hc, ih _ fun hin => h (mem_cons_of_mem c hin), append_assoc]
    rfl

theorem takeLines_feed (offset : ℕ) (next : List α → Outcome T E) (hheld : sep ∉ held)
    (hoffset : offset ≤ held.length) :
    takeLines sep parse (held ++ text) offset next = feed sep parse held next text := by
  induction hn : text.length using Nat.strongRecOn generalizing held text offset with
  | _ n ih =>
    unfold takeLines
    by_cases hin : sep ∈ text
    · obtain ⟨before, after, rfl, hbefore⟩ := eq_append_cons_of_mem hin
      have hline : sep ∉ held ++ before := fun h => (mem_append.mp h).elim hheld hbefore
      have hindex : indexFrom sep (held ++ (before ++ sep :: after)) offset =
          some (held ++ before).length := by
        rw [← append_assoc]
        refine indexFrom_first sep _ _ _ hline (Nat.le_trans hoffset ?_)
        rw [length_append]
        exact Nat.le_add_right _ _
      have htake : (held ++ (before ++ sep :: after)).take (held ++ before).length =
          held ++ before := by
        rw [← append_assoc]
        exact take_left
      have hdrop : (held ++ (before ++ sep :: after)).drop ((held ++ before).length + 1) = after := by
        rw [← append_assoc, ← drop_drop, drop_left]
        rfl
      have hafter : after.length < n := by
        rw [← hn, length_append, length_cons]
        omega
      rw [hindex, feed_line sep parse held next before after hbefore]
      dsimp only
      rw [htake, hdrop]
      exact congrArg _ (ih _ hafter [] after 0 not_mem_nil (Nat.zero_le _) rfl)
    · have hbuffer : sep ∉ held ++ text := fun h => (mem_append.mp h).elim hheld hin
      rw [indexFrom_none sep _ _ hbuffer, feed_open sep parse held next text hin]

theorem feed_append (more : List α) : feed sep parse held next (text ++ more) =
      feed sep parse held (fun held => feed sep parse held next more) text := by
  induction text generalizing held with
  | nil => rfl
  | cons c text ih =>
    rw [cons_append]
    unfold feed
    rw [ih, ih]

theorem left_not_mem (h : sep ∉ held) : sep ∉ left sep held text := by
  induction text generalizing held with
  | nil => exact h
  | cons c text ih =>
    unfold left
    split_ifs with hc
    · exact ih [] not_mem_nil
    · refine ih _ fun hin => ?_
      rcases mem_append.mp hin with hin | hin
      · exact h hin
      · exact hc (mem_singleton.mp hin).symm

theorem feed_eq_iff (other : List α → Outcome T E) (text : List α) :
    feed sep parse held next text = feed sep parse held other text ↔
      (∃ line ∈ complete sep held text, (parse line).ends = true) ∨
        next (left sep held text) = other (left sep held text) := by
  induction text generalizing held with
  | nil =>
    refine ⟨.inr, fun h => h.elim (fun h => ?_) id⟩
    obtain ⟨line, hline, -⟩ := h
    cases hline
  | cons c text ih =>
    unfold feed complete left
    split_ifs with hc
    · rw [follow_eq_iff, ih]
      constructor
      · rintro (hends | ⟨line, hline, hends⟩ | hnext)
        · exact .inl ⟨held, mem_cons_self, hends⟩
        · exact .inl ⟨line, mem_cons_of_mem _ hline, hends⟩
        · exact .inr hnext
      · rintro (⟨line, hline, hends⟩ | hnext)
        · rcases mem_cons.mp hline with rfl | hline
          · exact .inl hends
          · exact .inr (.inl ⟨line, hline, hends⟩)
        · exact .inr (.inr hnext)
    · exact ih _

theorem feed_congr (other : List α → Outcome T E) (text : List α)
    (h : next (left sep held text) = other (left sep held text)) :
    feed sep parse held next text = feed sep parse held other text :=
  (feed_eq_iff sep parse held next other text).mpr (.inr h)

variable (cap : ℕ) (error : E)

/-- Reading is cut off with an error once the line begun is too long. -/
def capFeed (held : List α) (next : List α → Outcome T E) : List α → Outcome T E
  | [] => next held
  | c :: text =>
    if cap < held.length + 1 then ⟨[], some error⟩
    else if c = sep then (parse held).follow (capFeed [] next text)
    else capFeed (held ++ [c]) next text

/-- None of the lines is of consequence: up to one that is too long, or says what the cut says,
all of them are skipped. -/
def Discarded : List (List α) → Prop
  | [] => True
  | line :: rest => cap ≤ line.length ∨ parse line = .last error ∨
    parse line = .skip ∧ Discarded rest

theorem capFeed_append (held : List α) (next : List α → Outcome T E) (text more : List α) :
    capFeed sep parse cap error held next (text ++ more) = capFeed sep parse cap error held
        (fun held => capFeed sep parse cap error held next more) text := by
  induction text generalizing held with
  | nil => rfl
  | cons c text ih =>
    rw [cons_append]
    unfold capFeed
    rw [ih, ih]

theorem capFeed_fits (held : List α) (next : List α → Outcome T E) (text : List α)
    (h : held.length + text.length ≤ cap) :
    capFeed sep parse cap error held next text = feed sep parse held next text := by
  induction text generalizing held with
  | nil => rfl
  | cons c text ih =>
    rw [length_cons] at h
    unfold capFeed feed
    rw [if_neg (by omega), ih [] (by rw [length_nil]; omega),
      ih (held ++ [c]) (by rw [length_append, length_singleton]; omega)]

theorem discarded_long (held text : List α) (h : cap ≤ held.length) :
    Discarded parse cap error (complete sep held text) := by
  induction text generalizing held with
  | nil => trivial
  | cons c text ih =>
    unfold complete
    split_ifs with hc
    · exact .inl h
    · refine ih _ ?_
      rw [length_append]
      exact Nat.le_trans h (Nat.le_add_right _ _)

theorem capFeed_cut_iff (held text : List α) :
    capFeed sep parse cap error held (fun _ => ⟨[], some error⟩) text = ⟨[], some error⟩ ↔
      Discarded parse cap error (complete sep held text) := by
  induction text generalizing held with
  | nil => exact iff_of_true rfl trivial
  | cons c text ih =>
    by_cases hcap : cap < held.length + 1
    · refine iff_of_true ?_ (discarded_long sep parse cap error held _ (Nat.lt_succ_iff.mp hcap))
      unfold capFeed
      rw [if_pos hcap]
    · unfold capFeed complete
      rw [if_neg hcap]
      split_ifs with hc
      · rw [follow_cut_iff, ih]
        refine ⟨.inr, fun h => h.resolve_left fun hlong => ?_⟩
        exact hcap (Nat.lt_succ_of_le hlong)
      · exact ih _

end
end Stakit.BufferedLines
