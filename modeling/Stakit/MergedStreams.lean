import Stakit.TransitionRuns

set_option autoImplicit false

namespace Stakit.MergedStreams
open TransitionRuns

variable {F : Type}

structure Substream (F : Type) where
  frames : List F
  escapes : Bool

structure Merge (F : Type) where
  yielded : List (ℕ × F)
  subs : ℕ → Substream F
  down : Bool

def start (subs : ℕ → Substream F) : Merge F := ⟨[], subs, false⟩

def poll (merge : Merge F) (i : ℕ) : Merge F :=
  if merge.down then merge
  else
    match (merge.subs i).frames with
    | frame :: rest =>
      ⟨merge.yielded ++ [(i, frame)],
        Function.update merge.subs i ⟨rest, (merge.subs i).escapes⟩, false⟩
    | [] => ⟨merge.yielded, merge.subs, (merge.subs i).escapes⟩

/-- What a stream contributed. -/
def fromSub (yielded : List (ℕ × F)) (i : ℕ) : List F :=
  (yielded.filter fun entry => entry.1 = i).map Prod.snd

/-- Nothing is left to poll. -/
def Complete (merge : Merge F) : Prop :=
  merge.down = true ∨ ∀ i, (merge.subs i).frames = [] ∧ (merge.subs i).escapes = false

/-- What a stream contributed and what it still has are its frames. -/
structure Accounted (subs : ℕ → Substream F) (merge : Merge F) : Prop where
  frames : ∀ i, fromSub merge.yielded i ++ (merge.subs i).frames = (subs i).frames
  escapes : ∀ i, (merge.subs i).escapes = (subs i).escapes
  down : merge.down = true → ∃ i, (subs i).escapes = true

variable (subs : ℕ → Substream F) (schedule : List ℕ)

theorem start_accounted : Accounted subs (start subs) where
  frames _ := rfl
  escapes _ := rfl
  down h := by cases h

theorem fromSub_snoc (yielded : List (ℕ × F)) (i j : ℕ) (frame : F) :
    fromSub (yielded ++ [(i, frame)]) j = fromSub yielded j ++ if i = j then [frame] else [] := by
  unfold fromSub
  rw [List.filter_append, List.map_append]
  by_cases hij : i = j
  · simp [hij]
  · simp [hij]

theorem poll_accounted (merge : Merge F) (i : ℕ) (h : Accounted subs merge) :
    Accounted subs (poll merge i) := by
  unfold poll
  split_ifs with hdown
  · exact h
  · split
    · next frame rest hframes =>
      refine ⟨fun j => ?_, fun j => ?_, fun h => by cases h⟩ <;> dsimp only
      · rw [fromSub_snoc]
        by_cases hij : j = i
        · subst hij
          have hj := h.frames j
          rw [hframes] at hj
          rw [if_pos rfl, Function.update_self, List.append_assoc]
          exact hj
        · rw [if_neg (Ne.symm hij), Function.update_of_ne hij, List.append_nil]
          exact h.frames j
      · by_cases hij : j = i
        · subst hij
          rw [Function.update_self]
          exact h.escapes j
        · rw [Function.update_of_ne hij]
          exact h.escapes j
    · exact ⟨h.frames, h.escapes, fun hescapes => ⟨i, (h.escapes i).symm.trans hescapes⟩⟩

theorem run_accounted : Accounted subs (run poll (start subs) schedule) :=
  run_invariant poll (Accounted subs) (poll_accounted subs) _ schedule (start_accounted subs)

theorem complete_frames (hescapes : ∀ i, (subs i).escapes = false)
    (hcomplete : Complete (run poll (start subs) schedule)) :
    (run poll (start subs) schedule).down = false ∧
      ∀ i, fromSub (run poll (start subs) schedule).yielded i = (subs i).frames := by
  have haccounted := run_accounted subs schedule
  have hdown : (run poll (start subs) schedule).down = false := by
    cases h : (run poll (start subs) schedule).down with
    | false => rfl
    | true =>
      obtain ⟨i, hi⟩ := haccounted.down h
      rw [hescapes i] at hi
      cases hi
  refine ⟨hdown, fun i => ?_⟩
  rcases hcomplete with h | h
  · rw [hdown] at h
    cases h
  · have hi := haccounted.frames i
    rw [(h i).1, List.append_nil] at hi
    exact hi

theorem mem_yielded {entry : ℕ × F} (h : entry ∈ (run poll (start subs) schedule).yielded) :
    entry.2 ∈ (subs entry.1).frames := by
  have hfrom : entry.2 ∈ fromSub (run poll (start subs) schedule).yielded entry.1 :=
    List.mem_map.mpr ⟨entry, List.mem_filter.mpr ⟨h, decide_eq_true rfl⟩, rfl⟩
  rw [← (run_accounted subs schedule).frames entry.1]
  exact List.mem_append_left _ hfrom

theorem drain (frames : List F) (merge : Merge F) (i : ℕ) (hdown : merge.down = false)
    (hframes : (merge.subs i).frames = frames) :
    ∃ schedule, (run poll merge schedule).down = false ∧
      ((run poll merge schedule).subs i).frames = [] ∧
      ∀ j, j ≠ i → (run poll merge schedule).subs j = merge.subs j := by
  induction frames generalizing merge with
  | nil => exact ⟨[], hdown, hframes, fun _ _ => rfl⟩
  | cons frame rest ih =>
    have hpoll : poll merge i = ⟨merge.yielded ++ [(i, frame)],
        Function.update merge.subs i ⟨rest, (merge.subs i).escapes⟩, false⟩ := by
      unfold poll
      rw [if_neg (by rw [hdown]; exact Bool.false_ne_true), hframes]
    have hdown' : (poll merge i).down = false := by rw [hpoll]
    have hrest : ((poll merge i).subs i).frames = rest := by
      rw [hpoll]
      dsimp only
      rw [Function.update_self]
    obtain ⟨schedule, hquiet, hempty, hothers⟩ := ih (poll merge i) hdown' hrest
    refine ⟨i :: schedule, hquiet, hempty, fun j hj => (hothers j hj).trans ?_⟩
    rw [hpoll]
    exact Function.update_of_ne hj _ _

theorem drain_first (n : ℕ) : ∃ schedule, (run poll (start subs) schedule).down = false ∧
      ∀ i < n, ((run poll (start subs) schedule).subs i).frames = [] := by
  induction n with
  | zero => exact ⟨[], rfl, fun i hi => absurd hi (Nat.not_lt_zero i)⟩
  | succ n ih =>
    obtain ⟨before, hdown, hempty⟩ := ih
    obtain ⟨after, hdown', hlast, hothers⟩ := drain _ _ n hdown rfl
    refine ⟨before ++ after, ?_, fun i hi => ?_⟩
    · rw [run_append]
      exact hdown'
    · rw [run_append]
      rcases Nat.lt_succ_iff_lt_or_eq.mp hi with hlt | rfl
      · rw [hothers i (Nat.ne_of_lt hlt)]
        exact hempty i hlt
      · exact hlast

theorem exists_complete {n : ℕ} (hbound : ∀ i, n ≤ i → (subs i).frames = [])
    (hescapes : ∀ i, (subs i).escapes = false) :
    ∃ schedule, Complete (run poll (start subs) schedule) := by
  obtain ⟨schedule, hdown, hempty⟩ := drain_first subs n
  refine ⟨schedule, .inr fun i => ⟨?_, ?_⟩⟩
  · rcases Nat.lt_or_ge i n with hi | hi
    · exact hempty i hi
    · have hframes := (run_accounted subs schedule).frames i
      rw [hbound i hi] at hframes
      exact (List.append_eq_nil_iff.mp hframes).2
  · rw [(run_accounted subs schedule).escapes i]
    exact hescapes i

theorem exists_down (i : ℕ) (hescapes : (subs i).escapes = true) :
    ∃ schedule, (run poll (start subs) schedule).down = true ∧
      fromSub (run poll (start subs) schedule).yielded i = (subs i).frames := by
  obtain ⟨schedule, hdown, hempty, -⟩ := drain _ (start subs) i rfl rfl
  have haccounted := run_accounted subs schedule
  have hframes := haccounted.frames i
  rw [hempty, List.append_nil] at hframes
  have hpoll : poll (run poll (start subs) schedule) i =
      ⟨(run poll (start subs) schedule).yielded, (run poll (start subs) schedule).subs, true⟩ := by
    rw [poll, if_neg (by rw [hdown]; exact Bool.false_ne_true), hempty, haccounted.escapes i,
      hescapes]
  refine ⟨schedule ++ [i], ?_, ?_⟩
  · rw [run_append, run_cons, run_nil, hpoll]
  · rw [run_append, run_cons, run_nil, hpoll]
    exact hframes

end Stakit.MergedStreams
