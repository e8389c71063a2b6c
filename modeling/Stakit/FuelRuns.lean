import Mathlib.Data.Nat.Notation

set_option autoImplicit false

namespace Stakit.FuelRuns

variable {α β : Type}

def Settles (run : ℕ → Option α) (result : α) : Prop :=
  ∃ enough, ∀ n ≥ enough, run n = some result

variable (run : ℕ → Option α) (result : α)

theorem settles_const (h : ∀ n, run (n + 1) = some result) : Settles run result := by
  refine ⟨1, fun n hn => ?_⟩
  obtain ⟨m, rfl⟩ : ∃ m, n = m + 1 := ⟨n - 1, by omega⟩
  exact h m

theorem settles_succ (next : ℕ → Option α) (result : α) (h : ∀ n, run (n + 1) = next n)
    (hnext : Settles next result) : Settles run result := by
  obtain ⟨enough, hnext⟩ := hnext
  refine ⟨enough + 1, fun n hn => ?_⟩
  obtain ⟨m, rfl⟩ : ∃ m, n = m + 1 := ⟨n - 1, by omega⟩
  rw [h]
  exact hnext m (by omega)

theorem settles_bind {next : ℕ → α → Option β} {middle : α} {result : β}
    (hrun : Settles run middle) (hnext : Settles (fun n => next n middle) result) :
    Settles (fun n => (run n).bind (next n)) result := by
  obtain ⟨first, hrun⟩ := hrun
  obtain ⟨second, hnext⟩ := hnext
  refine ⟨max first second, fun n hn => ?_⟩
  exact (congrArg (Option.bind · (next n)) (hrun n (by omega))).trans (hnext n (by omega))

theorem settles_map (f : α → β) {result : α} (h : Settles run result) :
    Settles (fun n => (run n).map f) (f result) := by
  obtain ⟨enough, h⟩ := h
  exact ⟨enough, fun n hn => congrArg (Option.map f) (h n hn)⟩

def Returns (run : ℕ → Option α) : Prop := ∃ result, Settles run result

theorem Returns.const : Returns fun _ => some result :=
  ⟨result, settles_const _ result fun _ => rfl⟩

theorem Returns.map {run : ℕ → Option α} (h : Returns run) (f : α → β) :
    Returns fun n => (run n).map f := by
  obtain ⟨result, h⟩ := h
  exact ⟨f result, settles_map run f h⟩

theorem Returns.bind {run : ℕ → Option α} {next : ℕ → α → Option β} (h : Returns run)
    (hnext : ∀ result, Returns fun n => next n result) : Returns fun n => (run n).bind (next n) := by
  obtain ⟨middle, h⟩ := h
  obtain ⟨result, hresult⟩ := hnext middle
  exact ⟨result, settles_bind run h hresult⟩

theorem Returns.some {run : ℕ → Option α} (h : Returns run) : ∃ n result, run n = some result := by
  obtain ⟨result, enough, h⟩ := h
  exact ⟨enough, result, h enough (Nat.le_refl enough)⟩

theorem settles_foldlM {step : ℕ → β → α → Option β} (Holds : List α → β → Prop) {items : List α}
    (hstep : ∀ done item state, item ∈ items → Holds done state →
      ∃ after, Settles (fun n => step n state item) after ∧ Holds (done ++ [item]) after)
    {done : List α} {state : β} (hstate : Holds done state) :
    ∃ after, Settles (fun n => items.foldlM (step n) state) after ∧ Holds (done ++ items) after := by
  induction items generalizing done state with
  | nil =>
    refine ⟨state, settles_const _ _ fun n => rfl, ?_⟩
    rwa [List.append_nil]
  | cons item items ih =>
    obtain ⟨middle, hmiddle, hholds⟩ := hstep done item state List.mem_cons_self hstate
    obtain ⟨after, hafter, hholds⟩ := ih
      (fun done item state h => hstep done item state (List.mem_cons_of_mem _ h)) hholds
    refine ⟨after, settles_bind _ hmiddle hafter, ?_⟩
    rwa [List.append_assoc] at hholds

theorem settles_unique {first second : α} (hfirst : Settles run first)
    (hsecond : Settles run second) : first = second := by
  obtain ⟨one, hfirst⟩ := hfirst
  obtain ⟨two, hsecond⟩ := hsecond
  have hsame := (hfirst (max one two) (by omega)).symm.trans (hsecond (max one two) (by omega))
  exact Option.some.inj hsame

end Stakit.FuelRuns
