import Mathlib.Data.List.Forall2

set_option autoImplicit false

namespace Stakit.ExceptLoops
open List

variable {ε α β σ τ : Type}

theorem bind_eq_ok (first : Except ε α) (next : α → Except ε β) (b : β) :
    (first >>= next) = .ok b ↔ ∃ a, first = .ok a ∧ next a = .ok b := by
  cases first with
  | error message =>
    refine ⟨nofun, ?_⟩
    rintro ⟨a, ha, _⟩
    cases ha
  | ok a =>
    refine ⟨fun h => ⟨a, rfl, h⟩, ?_⟩
    rintro ⟨other, hother, h⟩
    cases hother
    exact h

theorem then_eq_ok (first : Except ε Unit) (next : Except ε β) (b : β) :
    (first >>= fun _ => next) = .ok b ↔ first = .ok () ∧ next = .ok b := by
  rw [bind_eq_ok]
  exact ⟨fun ⟨_, h, hnext⟩ => ⟨h, hnext⟩, fun ⟨h, hnext⟩ => ⟨(), h, hnext⟩⟩

theorem pure_eq_ok (a b : α) : (pure a : Except ε α) = .ok b ↔ a = b := by
  constructor
  · intro h
    cases h
    rfl
  · rintro rfl
    rfl

theorem branch_eq_ok {c : Prop} [Decidable c] {first : Except ε α} {next : α → β}
    {rest : Except ε β} {b : β} (h : (if c then first >>= fun a => .ok (next a) else rest) = .ok b)
      :
    (c ∧ ∃ a, first = .ok a ∧ next a = b) ∨ (¬c ∧ rest = .ok b) := by
  by_cases hc : c
  · rw [if_pos hc, bind_eq_ok] at h
    obtain ⟨a, ha, hb⟩ := h
    exact .inl ⟨hc, a, ha, Except.ok.inj hb⟩
  · rw [if_neg hc] at h
    exact .inr ⟨hc, h⟩

theorem mapM_eq_ok (f : α → Except ε β) (items : List α) (results : List β) :
    items.mapM f = .ok results ↔ List.Forall₂ (fun a b => f a = .ok b) items results := by
  induction items generalizing results with
  | nil =>
    rw [mapM_nil, pure_eq_ok, forall₂_nil_left_iff]
    exact eq_comm
  | cons item rest ih =>
    rw [mapM_cons, bind_eq_ok, forall₂_cons_left_iff]
    constructor
    · rintro ⟨b, hb, h⟩
      rw [bind_eq_ok] at h
      obtain ⟨bs, hbs, h⟩ := h
      exact ⟨b, bs, hb, (ih bs).mp hbs, ((pure_eq_ok _ _).mp h).symm⟩
    · rintro ⟨b, bs, hb, hbs, rfl⟩
      refine ⟨b, hb, ?_⟩
      rw [bind_eq_ok]
      exact ⟨bs, (ih bs).mpr hbs, rfl⟩

theorem mapM_snoc {f : α → Except ε β} {items : List α} {results : List β} {item : α} {result : β}
    (h : items.mapM f = .ok results) (hitem : f item = .ok result) :
    (items ++ [item]).mapM f = .ok (results ++ [result]) := by
  rw [mapM_eq_ok] at h ⊢
  exact rel_append h (.cons hitem .nil)

theorem forall₂_through {γ : Type} (R : α → β → Prop) (S : β → γ → Prop) (items : List α)
    (out : List γ) : (∃ middle, List.Forall₂ R items middle ∧ List.Forall₂ S middle out) ↔
      List.Forall₂ (fun a c => ∃ b, R a b ∧ S b c) items out := by
  induction items generalizing out with
  | nil =>
    constructor
    · rintro ⟨middle, hfirst, hsecond⟩
      cases hfirst
      cases hsecond
      exact .nil
    · intro h
      cases h
      exact ⟨[], .nil, .nil⟩
  | cons item rest ih =>
    constructor
    · rintro ⟨middle, hfirst, hsecond⟩
      cases hfirst with
      | cons hR hrest =>
        cases hsecond with
        | cons hS hout => exact .cons ⟨_, hR, hS⟩ ((ih _).mp ⟨_, hrest, hout⟩)
    · intro h
      cases h with
      | cons hhead htail =>
        obtain ⟨b, hR, hS⟩ := hhead
        obtain ⟨middle, hfirst, hsecond⟩ := (ih _).mpr htail
        exact ⟨b :: middle, .cons hR hfirst, .cons hS hsecond⟩

theorem mapM_mapM_eq_ok {γ : Type} (f : α → Except ε β) (g : β → Except ε γ) (items : List α)
    (out : List γ) : (items.mapM f >>= fun middle => middle.mapM g) = .ok out ↔
      List.Forall₂ (fun a c => (f a >>= g) = .ok c) items out := by
  rw [bind_eq_ok]
  simp only [mapM_eq_ok, bind_eq_ok]
  exact forall₂_through _ _ items out

variable (step : σ → α → Except ε σ)

theorem foldlM_project (part : σ → τ) (move : τ → α → τ)
    (h : ∀ s a t, step s a = .ok t → part t = move (part s) a) (items : List α) (s t : σ)
    (hrun : items.foldlM step s = .ok t) : part t = items.foldl move (part s) := by
  induction items generalizing s with
  | nil =>
    rw [foldlM_nil, pure_eq_ok] at hrun
    rw [hrun, foldl_nil]
  | cons item rest ih =>
    rw [foldlM_cons, bind_eq_ok] at hrun
    obtain ⟨u, hu, hrun⟩ := hrun
    rw [ih u hrun, foldl_cons, h s item u hu]

theorem foldlM_invariant (P : σ → Prop) (h : ∀ s a t, step s a = .ok t → P s → P t)
    (items : List α) (s t : σ) (hrun : items.foldlM step s = .ok t) (hs : P s) : P t := by
  induction items generalizing s with
  | nil =>
    rw [foldlM_nil, pure_eq_ok] at hrun
    exact hrun ▸ hs
  | cons item rest ih =>
    rw [foldlM_cons, bind_eq_ok] at hrun
    obtain ⟨u, hu, hrun⟩ := hrun
    exact ih u hrun (h s item u hu hs)

theorem foldlM_steps (items : List α) (s t : σ) (hrun : items.foldlM step s = .ok t) (item : α)
    (hitem : item ∈ items) : ∃ u v, step u item = .ok v := by
  induction items generalizing s with
  | nil => cases hitem
  | cons first rest ih =>
    rw [foldlM_cons, bind_eq_ok] at hrun
    obtain ⟨u, hu, hrun⟩ := hrun
    rcases mem_cons.mp hitem with rfl | htail
    · exact ⟨s, u, hu⟩
    · exact ih u hrun htail

/-- A fold whose state says what is needed of the items so far goes through exactly where every
item is admitted after the ones before it. -/
theorem foldlM_admitted (Inv : List α → σ → Prop) (Admitted : List α → α → Prop)
    (hadmitted : ∀ before s a, Inv before s → ((∃ t, step s a = .ok t) ↔ Admitted before a))
    (hkept : ∀ before s a t, Inv before s → step s a = .ok t → Inv (before ++ [a]) t)
    (items before : List α) (s : σ) (hs : Inv before s) :
    (∃ t, items.foldlM step s = .ok t) ↔
      ∀ front a after, items = front ++ a :: after → Admitted (before ++ front) a := by
  induction items generalizing before s with
  | nil =>
    refine iff_of_true ⟨s, rfl⟩ fun front a after h => ?_
    exact absurd h.symm (append_ne_nil_of_right_ne_nil front (cons_ne_nil a after))
  | cons item rest ih =>
    simp only [foldlM_cons, bind_eq_ok]
    constructor
    · rintro ⟨t, u, hu, hrest⟩ front a after h
      have hitem := (hadmitted before s item hs).mp ⟨u, hu⟩
      have hlater := (ih (before ++ [item]) u (hkept before s item u hs hu)).mp ⟨t, hrest⟩
      cases front with
      | nil =>
        cases h
        rw [append_nil]
        exact hitem
      | cons first front =>
        cases h
        rw [append_cons]
        exact hlater front a after rfl
    · intro h
      have hitem := h [] item rest rfl
      rw [append_nil] at hitem
      obtain ⟨u, hu⟩ := (hadmitted before s item hs).mpr hitem
      obtain ⟨t, ht⟩ := (ih (before ++ [item]) u (hkept before s item u hs hu)).mpr
        fun front a after hrest => by
          rw [append_assoc]
          exact h (item :: front) a after (by rw [hrest]; rfl)
      exact ⟨t, u, hu, ht⟩

theorem foldlM_history (Inv : List α → σ → Prop)
    (hkept : ∀ before s a t, Inv before s → step s a = .ok t → Inv (before ++ [a]) t)
    (items before : List α) (s t : σ) (hs : Inv before s) (hrun : items.foldlM step s = .ok t) :
    Inv (before ++ items) t := by
  induction items generalizing before s with
  | nil =>
    rw [foldlM_nil, pure_eq_ok] at hrun
    rw [append_nil]
    exact hrun ▸ hs
  | cons item rest ih =>
    rw [foldlM_cons, bind_eq_ok] at hrun
    obtain ⟨u, hu, hrun⟩ := hrun
    rw [append_cons]
    exact ih (before ++ [item]) u (hkept before s item u hs hu) hrun

section
variable {γ : Type} {R : α → β → Prop} (inputs : List α) (results : List β)
  (h : List.Forall₂ R inputs results)
include h

theorem forall₂_map_eq (f : α → γ) (g : β → γ) (heq : ∀ a b, R a b → f a = g b) :
    inputs.map f = results.map g := by
  induction h with
  | nil => rfl
  | cons hhead _ ih => rw [map_cons, map_cons, ih, heq _ _ hhead]

theorem forall₂_flatMap_perm (f : α → List γ) (g : β → List γ)
    (hperm : ∀ a b, R a b → (g b).Perm (f a)) :
    (results.flatMap g).Perm (inputs.flatMap f) := by
  induction h with
  | nil => exact List.Perm.nil
  | cons hhead _ ih =>
    rw [flatMap_cons, flatMap_cons]
    exact (hperm _ _ hhead).append ih

theorem exists_result {a : α} (ha : a ∈ inputs) : ∃ b ∈ results, R a b := by
  induction h with
  | nil => cases ha
  | cons hhead _ ih =>
    rcases mem_cons.mp ha with rfl | htail
    · exact ⟨_, mem_cons_self, hhead⟩
    · obtain ⟨b, hb, hR⟩ := ih htail
      exact ⟨b, mem_cons_of_mem _ hb, hR⟩

theorem exists_input {b : β} (hb : b ∈ results) : ∃ a ∈ inputs, R a b := by
  induction h with
  | nil => cases hb
  | cons hhead _ ih =>
    rcases mem_cons.mp hb with rfl | htail
    · exact ⟨_, mem_cons_self, hhead⟩
    · obtain ⟨a, ha, hR⟩ := ih htail
      exact ⟨a, mem_cons_of_mem _ ha, hR⟩

end

end Stakit.ExceptLoops
