import Mathlib.Data.List.Basic

set_option autoImplicit false

namespace Stakit.QuotedText

variable {κ : Type} [DecidableEq κ] (quote : κ)

def double (text : List κ) : List κ :=
  text.flatMap fun c => if c = quote then [quote, c] else [c]

/-- The text up to the closing quote, and what follows it. -/
def scan : List κ → Option (List κ × List κ)
  | [] => none
  | [c] => if c = quote then some ([], []) else none
  | c :: next :: rest =>
    if c = quote then
      if next = quote then (scan rest).map fun found => (quote :: found.1, found.2)
      else some ([], next :: rest)
    else (scan (next :: rest)).map fun found => (c :: found.1, found.2)

def read : List κ → Option (List κ × List κ)
  | [] => none
  | c :: rest => if c = quote then scan quote rest else none

theorem double_of_not_mem (text : List κ) (h : quote ∉ text) : double quote text = text := by
  induction text with
  | nil => rfl
  | cons c rest ih =>
    obtain ⟨hc, hmem⟩ := not_or.mp (List.mem_cons.not.mp h)
    have hrest := ih hmem
    simp only [double, List.flatMap_cons, if_neg (Ne.symm hc)] at hrest ⊢
    rw [hrest]
    rfl

theorem scan_quote (rest : List κ) (h : rest.head? ≠ some quote) :
    scan quote (quote :: rest) = some ([], rest) := by
  cases rest with
  | nil => simp [scan]
  | cons next rest =>
    have hnext : next ≠ quote := by simpa using h
    simp [scan, hnext]

theorem scan_other (c : κ) (rest : List κ) (h : c ≠ quote) :
    scan quote (c :: rest) = (scan quote rest).map fun found => (c :: found.1, found.2) := by
  cases rest with
  | nil | cons next rest => simp [scan, h]

theorem scan_double (text rest : List κ) (h : rest.head? ≠ some quote) :
    scan quote (double quote text ++ quote :: rest) = some (text, rest) := by
  induction text with
  | nil => exact scan_quote quote rest h
  | cons c text ih =>
    by_cases hc : c = quote
    · have hdouble : double quote (c :: text) = quote :: quote :: double quote text := by
        simp [double, hc]
      rw [hdouble, List.cons_append, List.cons_append, scan, if_pos rfl, if_pos rfl, ih, hc]
      rfl
    · have hdouble : double quote (c :: text) = c :: double quote text := by
        simp [double, hc]
      rw [hdouble, List.cons_append, scan_other quote c _ hc, ih]
      rfl

theorem read_double (text rest : List κ) (h : rest.head? ≠ some quote) :
    read quote (quote :: double quote text ++ [quote] ++ rest) = some (text, rest) := by
  have hscan := scan_double quote text rest h
  simpa [read] using hscan

end Stakit.QuotedText
