import Mathlib.Data.List.Basic

set_option autoImplicit false

namespace Stakit.EventBodies
open List

abbrev Line := List Char

inductive Ending where
  | lf
  | crlf
  deriving DecidableEq

def Ending.text : Ending → List Char
  | .lf => ['\n']
  | .crlf => ['\r', '\n']

/-- Lines with their ends, and what stands after the last of them. -/
def written (lines : List (Line × Ending)) (tail : Line) : List Char :=
  (lines.flatMap fun line => line.1 ++ line.2.text) ++ tail

/-- The lines between empty ones. -/
def groups : List Line → List (List Line)
  | [] => [[]]
  | line :: rest =>
    if line = [] then [] :: groups rest else (groups rest).modifyHead (line :: ·)

def unifyEnds : List Char → List Char
  | '\r' :: '\n' :: rest => '\n' :: unifyEnds rest
  | c :: rest => c :: unifyEnds rest
  | [] => []

def splitBlank : List Char → List (List Char)
  | '\n' :: '\n' :: rest => [] :: splitBlank rest
  | c :: rest => (splitBlank rest).modifyHead (c :: ·)
  | [] => [[]]

def stripReturn (line : List Char) : List Char :=
  if line.getLast? = some '\r' then line.dropLast else line

/-- `text.lines()`: an end of line at the end of the text starts no further line. -/
def lines (text : List Char) : List (List Char) :=
  (text.splitOn '\n').dropLast.map stripReturn ++
    ((text.splitOn '\n').getLast?.filter (· ≠ [])).toList

def joinLines : List Line → List Char
  | [] => []
  | [line] => line
  | line :: next :: rest => line ++ '\n' :: joinLines (next :: rest)

/-- The lines between two line feeds in a row, from the left. -/
def cut : List Line → List (List Line)
  | [] => []
  | [line] => [[line]]
  | line :: [] :: next :: rest => [line] :: cut (next :: rest)
  | line :: next :: rest => (cut (next :: rest)).modifyHead (line :: ·)

def Plain (line : Line) : Prop := '\n' ∉ line ∧ '\r' ∉ line

instance (line : Line) : Decidable (Plain line) := inferInstanceAs (Decidable (_ ∧ _))

theorem joinLines_cons (line : Line) (rest : List Line) (h : rest ≠ []) :
    joinLines (line :: rest) = line ++ '\n' :: joinLines rest := by
  obtain ⟨next, rest, rfl⟩ := exists_cons_of_ne_nil h
  rfl

theorem unifyEnds_cons (c : Char) (rest : List Char) (h : c ≠ '\r') :
    unifyEnds (c :: rest) = c :: unifyEnds rest := by
  rw [unifyEnds]
  rintro rest' hc
  exact absurd hc h

theorem unifyEnds_append {line : List Char} (rest : List Char) (h : '\r' ∉ line) :
    unifyEnds (line ++ rest) = line ++ unifyEnds rest := by
  induction line with
  | nil => rfl
  | cons c line ih =>
    rw [mem_cons, not_or] at h
    rw [cons_append, unifyEnds_cons _ _ (Ne.symm h.1), ih h.2]
    rfl

theorem unifyEnds_written {lines : List (Line × Ending)} {tail : Line}
    (hlines : ∀ line ∈ lines, Plain line.1) (htail : Plain tail) :
    unifyEnds (written lines tail) = joinLines (lines.map Prod.fst ++ [tail]) := by
  induction lines with
  | nil =>
    have htext := unifyEnds_append [] htail.2
    rw [append_nil] at htext
    exact htext.trans (append_nil tail)
  | cons line lines ih =>
    rw [forall_mem_cons] at hlines
    obtain ⟨content, ending⟩ := line
    have hwritten : written ((content, ending) :: lines) tail =
        content ++ (ending.text ++ written lines tail) := by
      simp [written]
    have hend : unifyEnds (ending.text ++ written lines tail) =
        '\n' :: unifyEnds (written lines tail) := by
      cases ending with
      | lf => exact unifyEnds_cons _ _ (by decide)
      | crlf => rfl
    rw [hwritten, unifyEnds_append _ hlines.1.2, hend, ih hlines.2, map_cons,
      cons_append, joinLines_cons _ _ (by simp)]

theorem splitBlank_cons (c : Char) (rest : List Char)
    (h : c ≠ '\n' ∨ rest.head? ≠ some '\n') :
    splitBlank (c :: rest) = (splitBlank rest).modifyHead (c :: ·) := by
  rw [splitBlank]
  rintro tail rfl rfl
  rcases h with h | h
  · exact h rfl
  · exact h rfl

theorem splitBlank_append {line : List Char} (rest : List Char) (h : '\n' ∉ line) :
    splitBlank (line ++ rest) = (splitBlank rest).modifyHead (line ++ ·) := by
  induction line with
  | nil => exact (congrFun modifyHead_id _).symm
  | cons c line ih =>
    rw [mem_cons, not_or] at h
    rw [cons_append, splitBlank_cons _ _ (.inl (Ne.symm h.1)), ih h.2, modifyHead_modifyHead]
    rfl

theorem cut_pieces (lines : List Line) : ∀ piece ∈ cut lines, piece ≠ [] := by
  induction lines using cut.induct with
  | case1 => exact nofun
  | case2 line =>
    rw [cut]
    exact forall_mem_singleton.mpr (cons_ne_nil _ _)
  | case3 line next rest ih =>
    rw [cut]
    exact forall_mem_cons.mpr ⟨cons_ne_nil _ _, ih⟩
  | case4 line next rest hne ih =>
    rw [cut]
    · cases hcut : cut (next :: rest) with
      | nil => exact nofun
      | cons piece pieces =>
        rw [hcut, forall_mem_cons] at ih
        exact forall_mem_cons.mpr ⟨cons_ne_nil _ _, ih.2⟩
    · exact hne

example : cut [['a'], [], ['b']] = [[['a']], [['b']]] := by decide +kernel

theorem head_joinLines (next : Line) (rest : List Line) (h : next = [] → rest = [])
    (hplain : '\n' ∉ next) : (joinLines (next :: rest)).head? ≠ some '\n' := by
  cases next with
  | nil =>
    rw [h rfl]
    exact nofun
  | cons c next =>
    have hc : c ≠ '\n' := fun heq => hplain (heq ▸ mem_cons_self)
    cases rest with
    | nil | cons other rest => exact fun heq => hc (Option.some.inj heq)

theorem mem_of_mem_cut (lines : List Line) : ∀ piece ∈ cut lines, ∀ line ∈ piece, line ∈ lines := by
  induction lines using cut.induct with
  | case1 => exact nofun
  | case2 line =>
    rw [cut, forall_mem_singleton]
    exact fun _ => id
  | case3 line next rest ih =>
    rw [cut, forall_mem_cons]
    refine ⟨fun other hother => ?_, fun piece hpiece other hother => ?_⟩
    · rw [mem_singleton.mp hother]
      exact mem_cons_self
    · exact mem_cons_of_mem _ (mem_cons_of_mem _ (ih piece hpiece other hother))
  | case4 line next rest hnot ih =>
    rw [cut]
    · cases hcut : cut (next :: rest) with
      | nil => exact nofun
      | cons piece pieces =>
        rw [hcut, forall_mem_cons] at ih
        refine forall_mem_cons.mpr ⟨fun other hother => ?_, fun piece' hpiece other hother =>
          mem_cons_of_mem _ (ih.2 piece' hpiece other hother)⟩
        rcases mem_cons.mp hother with rfl | hother
        · exact mem_cons_self
        · exact mem_cons_of_mem _ (ih.1 other hother)
    · exact hnot

theorem cut_ne_nil {lines : List Line} (h : lines ≠ []) : cut lines ≠ [] := by
  induction lines using cut.induct with
  | case1 => exact absurd rfl h
  | case2 line | case3 line next rest ih => exact cons_ne_nil _ _
  | case4 line next rest hnot ih =>
    rw [cut]
    · rw [Ne, modifyHead_eq_nil_iff]
      exact ih (cons_ne_nil _ _)
    · exact hnot

theorem splitBlank_joinLines (lines : List Line) (hne : lines ≠ [])
    (hlines : ∀ line ∈ lines, '\n' ∉ line) :
    splitBlank (joinLines lines) = (cut lines).map joinLines := by
  induction lines using cut.induct with
  | case1 => exact absurd rfl hne
  | case2 line =>
    have hline := splitBlank_append [] (hlines line mem_cons_self)
    rw [append_nil] at hline
    rw [cut, joinLines, hline]
    exact congrArg (fun l => [l]) (append_nil line)
  | case3 line next rest ih =>
    have hrest := ih (cons_ne_nil _ _) fun l hl =>
      hlines l (mem_cons_of_mem _ (mem_cons_of_mem _ hl))
    rw [cut, map_cons, ← hrest, joinLines_cons _ _ (by simp), joinLines_cons _ _ (by simp),
      splitBlank_append _ (hlines line mem_cons_self)]
    change (splitBlank ('\n' :: '\n' :: joinLines (next :: rest))).modifyHead (line ++ ·) = _
    rw [splitBlank]
    exact congrArg (· :: _) (append_nil line)
  | case4 line next rest hnot ih =>
    have hrest := ih (cons_ne_nil _ _) fun l hl => hlines l (mem_cons_of_mem _ hl)
    have hhead : (joinLines (next :: rest)).head? ≠ some '\n' := by
      refine head_joinLines next rest (fun hnext => ?_) (hlines next (by simp))
      cases rest with
      | nil => rfl
      | cons other rest => exact (hnot other rest hnext rfl).elim
    obtain ⟨piece, pieces, hcut⟩ := exists_cons_of_ne_nil
      (cut_ne_nil (cons_ne_nil _ _))
    have hpiece : piece ≠ [] := cut_pieces (next :: rest) piece (hcut ▸ mem_cons_self)
    rw [cut, joinLines_cons _ _ (by simp), splitBlank_append _ (hlines line mem_cons_self),
      splitBlank_cons _ _ (.inr hhead), hrest, hcut]
    · change (line ++ '\n' :: joinLines piece) :: _ = joinLines (line :: piece) :: _
      rw [joinLines_cons line piece hpiece]
    · exact hnot

theorem splitOn_joinLines {piece : List Line} (hne : piece ≠ [])
    (hpiece : ∀ line ∈ piece, '\n' ∉ line) : (joinLines piece).splitOn '\n' = piece := by
  induction piece with
  | nil => exact absurd rfl hne
  | cons line rest ih =>
    rw [forall_mem_cons] at hpiece
    cases rest with
    | nil => exact splitOn_eq_singleton hpiece.1
    | cons next rest =>
      rw [joinLines_cons _ _ (cons_ne_nil _ _), splitOn_append_cons_self_of_not_mem hpiece.1,
        ih (cons_ne_nil _ _) hpiece.2]

theorem stripReturn_plain {line : Line} (h : '\r' ∉ line) : stripReturn line = line := by
  unfold stripReturn
  refine if_neg fun hlast => h ?_
  exact mem_of_getLast? hlast

theorem lines_joinLines {piece : List Line} (hne : piece ≠ [])
    (hpiece : ∀ line ∈ piece, Plain line) : lines (joinLines piece) =
      piece.dropLast ++ (piece.getLast?.filter (· ≠ [])).toList := by
  unfold lines
  rw [splitOn_joinLines hne fun line hline => (hpiece line hline).1]
  congr 1
  conv_rhs => rw [← map_id piece.dropLast]
  refine map_congr_left fun line hline => ?_
  exact stripReturn_plain (hpiece line (dropLast_subset _ hline)).2

section
variable {β : Type} (value : Line → Option β)

theorem filterMap_lines (hvalue : value [] = none) {piece : List Line} (hne : piece ≠ [])
    (hpiece : ∀ line ∈ piece, Plain line) :
    (lines (joinLines piece)).filterMap value = piece.filterMap value := by
  obtain ⟨front, last, rfl⟩ : ∃ front last, piece = front ++ [last] :=
    ⟨piece.dropLast, piece.getLast hne, (dropLast_append_getLast hne).symm⟩
  rw [lines_joinLines hne hpiece, dropLast_concat, List.getLast?_concat, filterMap_append,
    filterMap_append]
  congr 1
  by_cases hlast : last = []
  · rw [hlast, Option.filter_some, if_neg (by simp), filterMap_cons_none hvalue]
    rfl
  · rw [Option.filter_some, if_pos (by simpa using hlast)]
    rfl

/-- What a reader takes of the lines of an event, for the events of which it takes anything. -/
def fieldsOf (events : List (List Line)) : List (List β) :=
  (events.map (List.filterMap value)).filter (· ≠ [])

theorem fieldsOf_cons (event : List Line) (events : List (List Line)) :
    fieldsOf value (event :: events) = if event.filterMap value = [] then fieldsOf value events
      else event.filterMap value :: fieldsOf value events := by
  unfold fieldsOf
  rw [map_cons]
  by_cases h : event.filterMap value = []
  · rw [if_pos h, filter_cons_of_neg (by simpa using h)]
  · rw [if_neg h, filter_cons_of_pos (by simpa using h)]

theorem fieldsOf_congr (first second : List Line) (events others : List (List Line))
    (h : first.filterMap value = second.filterMap value)
    (hrest : fieldsOf value events = fieldsOf value others) :
    fieldsOf value (first :: events) = fieldsOf value (second :: others) := by
  rw [fieldsOf_cons, fieldsOf_cons, h, hrest]

theorem fieldsOf_skip (event : List Line) (events : List (List Line))
    (h : event.filterMap value = []) : fieldsOf value (event :: events) = fieldsOf value events := by
  rw [fieldsOf_cons, if_pos h]

theorem fieldsOf_cut (hvalue : value [] = none) (lines : List Line) :
    fieldsOf value (cut lines) = fieldsOf value (groups lines) ∧
      ∀ line rest, lines = line :: rest → line ≠ [] → ∃ piece pieces event events,
        cut lines = piece :: pieces ∧ groups lines = event :: events ∧
        piece.filterMap value = event.filterMap value ∧
        fieldsOf value pieces = fieldsOf value events := by
  induction lines using cut.induct with
  | case1 => exact ⟨rfl, nofun⟩
  | case2 line =>
    by_cases hline : line = []
    · subst hline
      refine ⟨?_, fun other rest h hne => absurd (List.cons.inj h).1.symm hne⟩
      rw [cut, fieldsOf_skip _ _ _ (filterMap_cons_none hvalue)]
      rfl
    · have hgroups : groups [line] = [[line]] := by
        rw [groups, if_neg hline]
        rfl
      exact ⟨by rw [cut, hgroups], fun other rest _ _ => ⟨_, _, _, _, cut.eq_2 line, hgroups, rfl, rfl⟩⟩
  | case3 line next rest ih =>
    by_cases hline : line = []
    · subst hline
      refine ⟨?_, fun other rest h hne => absurd (List.cons.inj h).1.symm hne⟩
      rw [cut, groups, if_pos rfl, groups, if_pos rfl,
        fieldsOf_skip _ _ _ (filterMap_cons_none hvalue), fieldsOf_skip _ _ _ rfl,
        fieldsOf_skip _ _ _ rfl]
      exact ih.1
    · have hgroups : groups (line :: [] :: next :: rest) = [line] :: groups (next :: rest) := by
        rw [groups, if_neg hline, groups, if_pos rfl]
        rfl
      refine ⟨?_, fun other rest' _ _ => ⟨_, _, _, _, cut.eq_3 line next rest, hgroups, rfl, ih.1⟩⟩
      rw [cut, hgroups]
      exact fieldsOf_congr _ _ _ _ _ rfl ih.1
  | case4 line next rest hnot ih =>
    obtain ⟨piece, pieces, hcut⟩ := exists_cons_of_ne_nil
      (cut_ne_nil (cons_ne_nil _ _))
    have hmore : cut (line :: next :: rest) = (line :: piece) :: pieces := by
      rw [cut, hcut]
      · rfl
      · exact hnot
    by_cases hline : line = []
    · subst hline
      refine ⟨?_, fun other rest h hne => absurd (List.cons.inj h).1.symm hne⟩
      rw [hmore, groups, if_pos rfl, fieldsOf_skip _ [] _ rfl, ← ih.1, hcut]
      exact fieldsOf_congr _ _ _ _ _ (filterMap_cons_none hvalue) rfl
    · have hheads : ∃ event events, groups (next :: rest) = event :: events ∧
          piece.filterMap value = event.filterMap value ∧
          fieldsOf value pieces = fieldsOf value events := by
        by_cases hnext : next = []
        · have hrest : rest = [] := by
            cases rest with
            | nil => rfl
            | cons other rest => exact (hnot other rest hnext rfl).elim
          subst hnext hrest
          cases hcut
          exact ⟨[], [[]], rfl, filterMap_cons_none hvalue, rfl⟩
        · obtain ⟨piece', pieces', event, events, hcut', hgroups, hhead, htail⟩ :=
            ih.2 next rest rfl hnext
          rw [hcut] at hcut'
          cases hcut'
          exact ⟨event, events, hgroups, hhead, htail⟩
      obtain ⟨event, events, hgroups, hhead, htail⟩ := hheads
      have hmore' : groups (line :: next :: rest) = (line :: event) :: events := by
        rw [groups, if_neg hline, hgroups]
        rfl
      have hfields : (line :: piece).filterMap value = (line :: event).filterMap value := by
        rw [filterMap_cons, filterMap_cons, hhead]
      refine ⟨?_, fun other rest' _ _ => ⟨_, _, _, _, hmore, hmore', hfields, htail⟩⟩
      rw [hmore, hmore']
      exact fieldsOf_congr _ _ _ _ _ hfields htail

theorem fieldsOf_written (hvalue : value [] = none) {content : List (Line × Ending)} {tail : Line}
    (hcontent : ∀ line ∈ content, Plain line.1) (htail : Plain tail) :
    fieldsOf value ((splitBlank (unifyEnds (written content tail))).map lines) =
      fieldsOf value (groups (content.map Prod.fst ++ [tail])) := by
  have hplain : ∀ line ∈ content.map Prod.fst ++ [tail], Plain line := by
    intro line hline
    rcases mem_append.mp hline with hline | hline
    · obtain ⟨entry, hentry, rfl⟩ := mem_map.mp hline
      exact hcontent entry hentry
    · rw [mem_singleton.mp hline]
      exact htail
  rw [unifyEnds_written hcontent htail,
    splitBlank_joinLines _ (by simp) fun line hline => (hplain line hline).1,
    ← (fieldsOf_cut value hvalue _).1]
  unfold fieldsOf
  rw [map_map, map_map]
  congr 1
  refine map_congr_left fun piece hpiece => ?_
  exact filterMap_lines value hvalue (cut_pieces _ piece hpiece) fun line hline =>
    hplain line (mem_of_mem_cut _ piece hpiece line hline)

end

end Stakit.EventBodies
