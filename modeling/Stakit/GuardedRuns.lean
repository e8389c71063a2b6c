import Mathlib.Data.List.Basic

set_option autoImplicit false

namespace Stakit.GuardedRuns
open List

variable {α σ : Type} (ready : α → σ → Prop) (effect : α → σ → σ)

def run (actions : List α) (state : σ) : σ :=
  actions.foldl (fun found action => effect action found) state

def Applies : List α → σ → Prop
  | [], _ => True
  | action :: rest, state => ready action state ∧ Applies rest (effect action state)

theorem run_append (first second : List α) (state : σ) :
    run effect (first ++ second) state = run effect second (run effect first state) :=
  foldl_append

theorem applies_append (first second : List α) (state : σ) :
    Applies ready effect (first ++ second) state ↔
      Applies ready effect first state ∧ Applies ready effect second (run effect first state) := by
  induction first generalizing state with
  | nil => simp [Applies, run]
  | cons action rest ih =>
    rw [cons_append, Applies, Applies, ih, and_assoc]
    rfl

theorem applies_of_free (actions : List α) (h : ∀ action ∈ actions, ∀ state, ready action state)
    (state : σ) : Applies ready effect actions state := by
  induction actions generalizing state with
  | nil => trivial
  | cons action rest ih =>
    exact ⟨h action mem_cons_self state,
      ih (fun other hother => h other (mem_cons_of_mem action hother)) _⟩

theorem run_invariant (P : σ → Prop) (actions : List α)
    (h : ∀ action ∈ actions, ∀ state, P state → P (effect action state)) (state : σ)
    (hstate : P state) : P (run effect actions state) := by
  induction actions generalizing state with
  | nil => exact hstate
  | cons action rest ih =>
    exact ih (fun other hother => h other (mem_cons_of_mem action hother)) _
      (h action mem_cons_self state hstate)

section
variable {ι : Type} (body : ι → List α)

def Along (P : List ι → ι → List ι → Prop) (before after : List ι) : Prop :=
  ∀ first item rest, after = first ++ item :: rest → P (before ++ first) item rest

theorem along_cons (P : List ι → ι → List ι → Prop) (before after : List ι) (item : ι) :
    Along P before (item :: after) ↔ P before item after ∧ Along P (before ++ [item]) after := by
  constructor
  · intro h
    refine ⟨?_, fun first other rest heq => ?_⟩
    · have hhead := h [] item after rfl
      rwa [append_nil] at hhead
    · have htail := h (item :: first) other rest (by rw [heq, cons_append])
      rwa [append_assoc, singleton_append]
  · rintro ⟨hhead, htail⟩ first other rest heq
    cases first with
    | nil =>
      obtain ⟨rfl, rfl⟩ := List.cons.inj heq
      rwa [append_nil]
    | cons head first =>
      obtain ⟨rfl, rfl⟩ := List.cons.inj heq
      have hrest := htail first other rest rfl
      rwa [append_assoc, singleton_append] at hrest

section
variable (At : List ι → List ι → σ → Prop) (Fine : List ι → ι → List ι → Prop)
  (step : ∀ before item after state, At before (item :: after) state →
    (Applies ready effect (body item) state ↔ Fine before item after) ∧
      (Fine before item after → At (before ++ [item]) after (run effect (body item) state)))
include step

theorem applies_loop (before after : List ι) (state : σ) (h : At before after state) :
    Applies ready effect (after.flatMap body) state ↔ Along Fine before after := by
  induction after generalizing before state with
  | nil => exact iff_of_true trivial fun first item rest heq => by simp at heq
  | cons item after ih =>
    obtain ⟨happlies, hnext⟩ := step before item after state h
    rw [flatMap_cons, applies_append, along_cons, happlies]
    exact and_congr_right fun hfine => ih _ _ (hnext hfine)

theorem loop_at (before after : List ι) (state : σ) (h : At before after state)
    (fine : Along Fine before after) :
    At (before ++ after) [] (run effect (after.flatMap body) state) := by
  induction after generalizing before state with
  | nil => rwa [append_nil]
  | cons item after ih =>
    obtain ⟨hhead, htail⟩ := (along_cons Fine before after item).mp fine
    have hrest := ih _ _ ((step before item after state h).2 hhead) htail
    rw [append_assoc, singleton_append] at hrest
    rwa [flatMap_cons, run_append]

end

theorem applies_rounds (items : List ι) (state : σ) :
    Applies ready effect (items.flatMap body) state ↔ Along (fun before item _ =>
        Applies ready effect (body item) (run effect (before.flatMap body) state)) [] items := by
  refine applies_loop ready effect body
    (fun before _ found => found = run effect (before.flatMap body) state) _ ?_ [] items state rfl
  rintro before item after _ rfl
  refine ⟨Iff.rfl, fun _ => ?_⟩
  rw [flatMap_append, run_append, flatMap_singleton]

end

end Stakit.GuardedRuns
