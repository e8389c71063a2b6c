import Mathlib.Data.List.Basic

set_option autoImplicit false

namespace Stakit.TransitionRuns

variable {σ α : Type}

def run (step : σ → α → σ) (s : σ) (acts : List α) : σ := acts.foldl step s

variable (step : σ → α → σ) (guard : σ → α → Prop) (s : σ) (inv : σ → Prop)

@[simp] theorem run_nil : run step s [] = s := rfl

@[simp] theorem run_cons (a : α) (acts : List α) :
    run step s (a :: acts) = run step (step s a) acts := rfl

theorem run_append (before after : List α) :
    run step s (before ++ after) = run step (run step s before) after :=
  List.foldl_append

def Meets (step : σ → α → σ) (guard : σ → α → Prop) : σ → List α → Prop
  | _, [] => True
  | s, a :: acts => guard s a ∧ Meets step guard (step s a) acts

instance decidableMeets (step : σ → α → σ) (guard : σ → α → Prop)
    [∀ s a, Decidable (guard s a)] : ∀ s acts, Decidable (Meets step guard s acts)
  | _, [] => .isTrue trivial
  | s, a :: acts =>
    have := decidableMeets step guard (step s a) acts
    inferInstanceAs (Decidable (guard s a ∧ Meets step guard (step s a) acts))

theorem meets_append (before after : List α) : Meets step guard s (before ++ after) ↔
      Meets step guard s before ∧ Meets step guard (run step s before) after := by
  induction before generalizing s with
  | nil => simp [Meets]
  | cons a acts ih => simp [Meets, ih, and_assoc]

theorem meets_of_forall (acts : List α) (h : ∀ s, ∀ a ∈ acts, guard s a) :
    Meets step guard s acts := by
  induction acts generalizing s with
  | nil => trivial
  | cons a acts ih => exact ⟨h s a (by simp), ih _ fun s b hb => h s b (by simp [hb])⟩

theorem guarded_run_invariant (hstep : ∀ s a, inv s → guard s a → inv (step s a)) (s : σ)
    (acts : List α) (hs : inv s) (hmeets : Meets step guard s acts) : inv (run step s acts) := by
  induction acts generalizing s with
  | nil => exact hs
  | cons a acts ih => exact ih _ (hstep s a hs hmeets.1) hmeets.2

theorem meets_of_guarded (good : σ → α → Prop) (inv : σ → Prop)
    (hstep : ∀ s a, inv s → guard s a → inv (step s a))
    (hgood : ∀ s a, inv s → guard s a → good s a) (s : σ) (acts : List α) (hs : inv s)
    (hmeets : Meets step guard s acts) : Meets step good s acts := by
  induction acts generalizing s with
  | nil => trivial
  | cons a acts ih =>
    exact ⟨hgood s a hs hmeets.1, ih _ (hstep s a hs hmeets.1) hmeets.2⟩

theorem run_invariant (hstep : ∀ s a, inv s → inv (step s a)) (s : σ) (acts : List α) (hs : inv s) :
    inv (run step s acts) := by
  induction acts generalizing s with
  | nil => exact hs
  | cons a acts ih => exact ih _ (hstep s a hs)

theorem run_relates (r : σ → σ → Prop) (hrefl : ∀ s, r s s)
    (htrans : ∀ s t u, r s t → r t u → r s u) (hstep : ∀ s a, r s (step s a)) (s : σ)
    (acts : List α) : r s (run step s acts) := by
  induction acts generalizing s with
  | nil => exact hrefl s
  | cons a acts ih => exact htrans s _ _ (hstep s a) (ih _)

theorem throughout_iff_meets (good : σ → Prop) (hinv : ∀ s a, inv s → inv (step s a))
    (hgood : ∀ s a, inv s → good s → (good (step s a) ↔ guard s a)) (s : σ) (acts : List α)
    (hs : inv s) (hstart : good s) :
    (∀ first, first <+: acts → good (run step s first)) ↔ Meets step guard s acts := by
  induction acts generalizing s with
  | nil =>
    refine ⟨fun _ => trivial, fun _ first hfirst => ?_⟩
    rw [List.prefix_nil.mp hfirst]
    exact hstart
  | cons a acts ih =>
    constructor
    · intro hall
      have hnext : good (step s a) := hall [a] (List.prefix_append [a] acts)
      refine ⟨(hgood s a hs hstart).mp hnext, (ih (step s a) (hinv s a hs) hnext).mp ?_⟩
      intro first hfirst
      exact hall (a :: first) (List.prefix_cons_inj a |>.mpr hfirst)
    · rintro ⟨hguard, hmeets⟩ first hfirst
      have hnext := (hgood s a hs hstart).mpr hguard
      obtain rfl | ⟨rest, rfl, hrest⟩ := List.prefix_cons_iff.mp hfirst
      · exact hstart
      · exact (ih (step s a) (hinv s a hs) hnext).mpr hmeets rest hrest

end Stakit.TransitionRuns
