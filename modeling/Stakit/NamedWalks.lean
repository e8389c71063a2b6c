import Stakit.FiniteMap
import Stakit.FuelRuns

set_option autoImplicit false

namespace Stakit.NamedWalks
open FiniteMap FuelRuns List

section
variable {α κ ν : Type} [DecidableEq κ] (name : α → κ) (label : α → ν) (next : α → List α)

def visit : ℕ → Map κ ν → α → Option (Map κ ν)
  | 0, _, _ => none
  | fuel + 1, out, node =>
    if name node ∈ out then some out
    else (next node).foldlM (visit fuel) (out.insert (name node) (label node))

inductive Reaches (roots : List α) : α → Prop
  | root {node : α} (h : node ∈ roots) : Reaches roots node
  | step {node later : α} (h : Reaches roots node) (hnext : later ∈ next node) : Reaches roots later

def Entered (roots : List α) (out : Map κ ν) (key : κ) (value : ν) : Prop :=
  ∃ node, Reaches next roots node ∧ name node = key ∧ label node = value ∧
    ∀ later ∈ next node, name later ∈ out

structure Walked (nodes : List α) (out out' : Map κ ν) : Prop where
  kept : ∀ key value, out.lookup key = some value → out'.lookup key = some value
  present : ∀ node ∈ nodes, name node ∈ out'
  added : ∀ key value, out'.lookup key = some value →
    out.lookup key = some value ∨ Entered name label next nodes out' key value

/-- A map that holds the names of `roots` and only what is reached from them. -/
structure Covers (roots : List α) (out : Map κ ν) : Prop where
  present : ∀ node ∈ roots, name node ∈ out
  entered : ∀ key value, out.lookup key = some value → Entered name label next roots out key value

variable {name label next}

theorem Reaches.mono {roots more : List α} {node : α} (h : Reaches next roots node)
    (hmore : ∀ node ∈ roots, Reaches next more node) : Reaches next more node := by
  induction h with
  | root h => exact hmore _ h
  | step _ hnext ih => exact ih.step hnext

theorem Reaches.mem {roots all : List α} {node : α} (h : Reaches next roots node)
    (hroots : ∀ node ∈ roots, node ∈ all) (hclosed : ∀ node ∈ all, ∀ later ∈ next node, later ∈ all) :
    node ∈ all := by
  induction h with
  | root h => exact hroots _ h
  | step _ hnext ih => exact hclosed _ ih _ hnext

theorem Walked.mem {nodes : List α} {out out' : Map κ ν} (h : Walked name label next nodes out out')
    {key : κ} (hkey : key ∈ out) : key ∈ out' := by
  obtain ⟨value, hvalue⟩ := (mem_iff_lookup out key).mp hkey
  exact (mem_iff_lookup out' key).mpr ⟨value, h.kept key value hvalue⟩

omit [DecidableEq κ] in
theorem Entered.mono {roots more : List α} {out out' : Map κ ν} {key : κ} {value : ν}
    (h : Entered name label next roots out key value)
    (hroots : ∀ node ∈ roots, Reaches next more node) (hout : ∀ key ∈ out, key ∈ out') :
    Entered name label next more out' key value := by
  obtain ⟨node, hreach, hname, hlabel, hlater⟩ := h
  exact ⟨node, hreach.mono hroots, hname, hlabel, fun later h => hout _ (hlater later h)⟩

theorem Walked.nil (out : Map κ ν) : Walked name label next [] out out :=
  ⟨fun _ _ h => h, nofun, fun _ _ h => Or.inl h⟩

theorem Walked.cons {node : α} {nodes : List α} {out mid out' : Map κ ν}
    (h : Walked name label next [node] out mid) (hrest : Walked name label next nodes mid out') :
    Walked name label next (node :: nodes) out out' where
  kept key value hvalue := hrest.kept key value (h.kept key value hvalue)
  present := forall_mem_cons.mpr
    ⟨hrest.mem (h.present node mem_cons_self), hrest.present⟩
  added key value hvalue := by
    obtain hmid | hentered := hrest.added key value hvalue
    · refine (h.added key value hmid).imp_right fun hentered => ?_
      refine hentered.mono (fun first hfirst => ?_) fun key hkey => hrest.mem hkey
      rw [mem_singleton.mp hfirst]
      exact .root mem_cons_self
    · exact Or.inr (hentered.mono (fun later h => .root (mem_cons_of_mem _ h)) fun _ h => h)

theorem Walked.seen {node : α} {out : Map κ ν} (h : name node ∈ out) :
    Walked name label next [node] out out :=
  ⟨fun _ _ h => h, forall_mem_singleton.mpr h, fun _ _ h => Or.inl h⟩

theorem Walked.enter {node : α} {out out' : Map κ ν} (hnew : name node ∉ out)
    (h : Walked name label next (next node) (out.insert (name node) (label node)) out') :
    Walked name label next [node] out out' := by
  have hself : out'.lookup (name node) = some (label node) :=
    h.kept _ _ (AList.lookup_insert out)
  refine ⟨fun key value hvalue => h.kept key value ?_, forall_mem_singleton.mpr
    ((mem_iff_lookup _ _).mpr ⟨_, hself⟩), fun key value hvalue => ?_⟩
  · have hne : key ≠ name node := by
      rintro rfl
      exact hnew ((mem_iff_lookup _ _).mpr ⟨value, hvalue⟩)
    rw [AList.lookup_insert_ne hne]
    exact hvalue
  · obtain hbefore | hentered := h.added key value hvalue
    · by_cases hkey : key = name node
      · subst hkey
        rw [hself] at hvalue
        cases hvalue
        exact Or.inr ⟨node, .root mem_cons_self, rfl, rfl, h.present⟩
      · rw [AList.lookup_insert_ne hkey] at hbefore
        exact Or.inl hbefore
    · refine Or.inr (hentered.mono (fun later hlater => ?_) fun _ h => h)
      exact (Reaches.root mem_cons_self).step hlater

theorem foldlM_walked {step : Map κ ν → α → Option (Map κ ν)}
    (hstep : ∀ out node out', step out node = some out' → Walked name label next [node] out out')
    {nodes : List α} {out out' : Map κ ν} (h : nodes.foldlM step out = some out') :
    Walked name label next nodes out out' := by
  induction nodes generalizing out with
  | nil =>
    cases h
    exact .nil _
  | cons node nodes ih =>
    rw [foldlM_cons] at h
    obtain ⟨mid, hmid, h⟩ := Option.bind_eq_some_iff.mp h
    exact (hstep out node mid hmid).cons (ih h)

theorem visit_walked {fuel : ℕ} {out out' : Map κ ν} {node : α}
    (h : visit name label next fuel out node = some out') :
    Walked name label next [node] out out' := by
  induction fuel generalizing out out' node with
  | zero => cases h
  | succ fuel ih =>
    rw [visit] at h
    split_ifs at h with hseen
    · cases h
      exact .seen hseen
    · exact .enter hseen (foldlM_walked (fun out node out' h => ih h) h)

omit [DecidableEq κ] in
theorem foldlM_more {step more : Map κ ν → α → Option (Map κ ν)}
    (hstep : ∀ out node out', step out node = some out' → more out node = some out')
    {nodes : List α} {out out' : Map κ ν} (h : nodes.foldlM step out = some out') :
    nodes.foldlM more out = some out' := by
  induction nodes generalizing out with
  | nil => exact h
  | cons node nodes ih =>
    rw [foldlM_cons] at h ⊢
    obtain ⟨mid, hmid, h⟩ := Option.bind_eq_some_iff.mp h
    rw [hstep out node mid hmid]
    exact ih h

theorem visit_succ {fuel : ℕ} {out out' : Map κ ν} {node : α}
    (h : visit name label next fuel out node = some out') :
    visit name label next (fuel + 1) out node = some out' := by
  induction fuel generalizing out out' node with
  | zero => cases h
  | succ fuel ih =>
    rw [visit] at h ⊢
    split_ifs at h ⊢ with hseen
    · exact h
    · exact foldlM_more (fun out node out' h => ih h) h

variable (name) in
/-- The nodes whose names are not present yet. -/
def missing (all : List α) (out : Map κ ν) : ℕ := all.countP fun node => name node ∉ out

theorem missing_le {all : List α} {out out' : Map κ ν} (h : ∀ key ∈ out, key ∈ out') :
    missing name all out' ≤ missing name all out := by
  refine countP_mono_left fun node _ hnode => ?_
  exact decide_eq_true fun hmem => of_decide_eq_true hnode (h _ hmem)

theorem missing_insert {all : List α} {out : Map κ ν} {node : α} (hnode : node ∈ all)
    (hnew : name node ∉ out) :
    missing name all (out.insert (name node) (label node)) < missing name all out := by
  unfold missing
  induction all with
  | nil => cases hnode
  | cons first all ih =>
    have hle : missing name all (out.insert (name node) (label node)) ≤ missing name all out :=
      missing_le fun key hkey => (AList.mem_insert _).mpr (Or.inr hkey)
    unfold missing at hle
    rw [countP_cons, countP_cons]
    obtain rfl | hrest := mem_cons.mp hnode
    · rw [if_neg (by simp), if_pos (by simpa using hnew)]
      omega
    · have hlt := ih hrest
      have hfirst : name first ∉ out.insert (name node) (label node) → name first ∉ out :=
        fun h hmem => h ((AList.mem_insert _).mpr (Or.inr hmem))
      by_cases hin : name first ∉ out.insert (name node) (label node)
      · rw [if_pos (decide_eq_true hin), if_pos (decide_eq_true (hfirst hin))]
        omega
      · rw [if_neg (by simpa using hin)]
        omega

theorem foldlM_ends {all : List α} {fuel : ℕ}
    (hvisit : ∀ node ∈ all, ∀ out, missing name all out < fuel →
      ∃ out', visit name label next fuel out node = some out')
    {nodes : List α} (hnodes : ∀ node ∈ nodes, node ∈ all) {out : Map κ ν}
    (hout : missing name all out < fuel) :
    ∃ out', nodes.foldlM (visit name label next fuel) out = some out' := by
  induction nodes generalizing out with
  | nil => exact ⟨out, rfl⟩
  | cons node nodes ih =>
    obtain ⟨hnode, hnodes⟩ := forall_mem_cons.mp hnodes
    obtain ⟨mid, hmid⟩ := hvisit node hnode out hout
    have hless : missing name all mid ≤ missing name all out :=
      missing_le fun key hkey => (visit_walked hmid).mem hkey
    obtain ⟨out', hout'⟩ := ih hnodes (by omega : missing name all mid < fuel)
    refine ⟨out', ?_⟩
    rw [foldlM_cons, hmid]
    exact hout'

theorem visit_ends {all : List α} (hclosed : ∀ node ∈ all, ∀ later ∈ next node, later ∈ all)
    {fuel : ℕ} {node : α} (hnode : node ∈ all) {out : Map κ ν}
    (hfuel : missing name all out < fuel) :
    ∃ out', visit name label next fuel out node = some out' := by
  induction fuel generalizing node out with
  | zero => exact absurd hfuel (Nat.not_lt_zero _)
  | succ fuel ih =>
    rw [visit]
    by_cases hseen : name node ∈ out
    · exact ⟨out, if_pos hseen⟩
    · rw [if_neg hseen]
      have hless : missing name all (out.insert (name node) (label node)) < missing name all out :=
        missing_insert hnode hseen
      exact foldlM_ends (fun later hlater out hout => ih hlater hout)
        (hclosed node hnode) (by omega)

theorem visitAll_settles (name : α → κ) (label : α → ν) {all nodes : List α}
    (hclosed : ∀ node ∈ all, ∀ later ∈ next node, later ∈ all)
    (hnodes : ∀ node ∈ nodes, node ∈ all) (out : Map κ ν) :
    ∃ out', Settles (fun fuel => nodes.foldlM (visit name label next fuel) out) out' ∧
      Walked name label next nodes out out' := by
  obtain ⟨out', hout'⟩ : ∃ out', nodes.foldlM (visit name label next (missing name all out + 1)) out =
      some out' := foldlM_ends
    (fun node hnode (out : Map κ ν) hout => visit_ends hclosed hnode hout) hnodes
    (Nat.lt_succ_self (missing name all out))
  refine ⟨out', ⟨missing name all out + 1, fun fuel hfuel => ?_⟩,
    foldlM_walked (fun out node out' h => visit_walked h) hout'⟩
  induction fuel, hfuel using Nat.le_induction with
  | base => exact hout'
  | succ fuel _ ih => exact foldlM_more (fun out node out' h => visit_succ h) ih

theorem Covers.empty : Covers name label next [] (∅ : Map κ ν) :=
  ⟨nofun, fun key value h => by
    rw [AList.lookup_empty] at h
    cases h⟩

theorem Covers.walk {roots nodes : List α} {out out' : Map κ ν}
    (h : Covers name label next roots out) (hwalk : Walked name label next nodes out out') :
    Covers name label next (roots ++ nodes) out' where
  present node hnode := (mem_append.mp hnode).elim
    (fun hroot => hwalk.mem (h.present node hroot)) (hwalk.present node)
  entered key value hvalue := by
    obtain hbefore | hentered := hwalk.added key value hvalue
    · exact (h.entered key value hbefore).mono
        (fun node hnode => .root (mem_append_left _ hnode)) fun key hkey => hwalk.mem hkey
    · exact hentered.mono (fun node hnode => .root (mem_append_right _ hnode)) fun _ h => h

def merge (out more : Map κ ν) : Map κ ν :=
  more.entries.foldl (fun out entry => out.insert entry.1 entry.2) out

theorem foldl_insert_lookup {entries : List (Σ _ : κ, ν)} (hnodup : entries.NodupKeys)
    (out : Map κ ν) (key : κ) :
    (entries.foldl (fun out entry => out.insert entry.1 entry.2) out).lookup key =
      (entries.dlookup key).or (out.lookup key) := by
  induction entries generalizing out with
  | nil => rfl
  | cons entry entries ih =>
    obtain ⟨hnew, hnodup⟩ := nodupKeys_cons.mp hnodup
    rw [foldl_cons, ih hnodup, lookup_insert_ite]
    by_cases hkey : key = entry.1
    · subst hkey
      rw [if_pos rfl, dlookup_cons_eq, dlookup_eq_none.mpr hnew]
      rfl
    · rw [if_neg hkey, dlookup_cons_ne _ _ hkey]

theorem merge_lookup (out more : Map κ ν) (key : κ) :
    (merge out more).lookup key = (more.lookup key).or (out.lookup key) :=
  foldl_insert_lookup more.nodupKeys out key

theorem mem_merge (out more : Map κ ν) (key : κ) : key ∈ merge out more ↔ key ∈ more ∨ key ∈ out := by
  rw [← AList.lookup_isSome, merge_lookup, Option.isSome_or, Bool.or_eq_true, AList.lookup_isSome,
    AList.lookup_isSome]

theorem Covers.merge {roots nodes : List α} {out more : Map κ ν}
    (h : Covers name label next roots out) (hmore : Covers name label next nodes more) :
    Covers name label next (roots ++ nodes) (merge out more) where
  present node hnode := (mem_merge _ _ _).mpr ((mem_append.mp hnode).elim
    (fun hroot => Or.inr (h.present node hroot)) fun hin => Or.inl (hmore.present node hin))
  entered key value hvalue := by
    rw [merge_lookup, Option.or_eq_some_iff] at hvalue
    obtain hin | ⟨-, hin⟩ := hvalue
    · exact (hmore.entered key value hin).mono
        (fun node hnode => .root (mem_append_right _ hnode))
        fun key hkey => (mem_merge _ _ _).mpr (Or.inl hkey)
    · exact (h.entered key value hin).mono
        (fun node hnode => .root (mem_append_left _ hnode))
        fun key hkey => (mem_merge _ _ _).mpr (Or.inr hkey)

theorem Covers.lookup {roots : List α} {out : Map κ ν} (h : Covers name label next roots out)
    (hdistinct : ∀ first second, Reaches next roots first → Reaches next roots second →
      name first = name second → first = second) {node : α} (hnode : Reaches next roots node) :
    out.lookup (name node) = some (label node) := by
  have hentry : ∀ node, Reaches next roots node → name node ∈ out →
      out.lookup (name node) = some (label node) ∧ ∀ later ∈ next node, name later ∈ out := by
    intro node hnode hmem
    obtain ⟨value, hvalue⟩ := (mem_iff_lookup _ _).mp hmem
    obtain ⟨holder, hreach, hname, rfl, hlater⟩ := h.entered _ _ hvalue
    cases hdistinct holder node hreach hnode hname
    exact ⟨hvalue, hlater⟩
  have hpresent : name node ∈ out := by
    induction hnode with
    | root hroot => exact h.present _ hroot
    | step hbefore hnext ih => exact (hentry _ hbefore ih).2 _ hnext
  exact (hentry node hnode hpresent).1

end

end Stakit.NamedWalks
