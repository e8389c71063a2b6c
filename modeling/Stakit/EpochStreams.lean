import Mathlib.Data.List.Induction
import Mathlib.Logic.Function.Basic

set_option autoImplicit false

namespace Stakit.EpochStreams
open List
open Function (update_self update_of_ne update)

section
variable {α : Type}

theorem split_snoc {log before after : List α} {x e : α}
    (hsplit : log ++ [x] = before ++ e :: after) :
    (log = before ∧ x = e ∧ after = []) ∨
    ∃ rest, after = rest ++ [x] ∧ log = before ++ e :: rest := by
  obtain rfl | ⟨rest, y, rfl⟩ := eq_nil_or_concat after
  · obtain ⟨hlog, hx⟩ := append_inj' hsplit rfl
    cases hx
    exact .inl ⟨hlog, rfl, rfl⟩
  · rw [concat_eq_append, ← cons_append, ← append_assoc] at hsplit
    obtain ⟨hlog, hx⟩ := append_inj' hsplit rfl
    cases hx
    exact .inr ⟨rest, concat_eq_append, hlog⟩

def Throughout (condition : List α → α → Prop) (log : List α) : Prop :=
  ∀ before e after, log = before ++ e :: after → condition before e

theorem throughout_nil (condition : List α → α → Prop) : Throughout condition [] := by
  intro before e after heq
  simp at heq

theorem throughout_snoc (condition : List α → α → Prop)
    (log : List α) (e : α) :
    Throughout condition (log ++ [e]) ↔ Throughout condition log ∧ condition log e := by
  constructor
  · intro hall
    refine ⟨fun before x after heq => ?_, hall log e [] rfl⟩
    exact hall before x (after ++ [e]) (by rw [heq, append_assoc, cons_append])
  · rintro ⟨hall, hlast⟩ before x after heq
    obtain ⟨rfl, rfl, _⟩ | ⟨rest, _, hlog⟩ := split_snoc heq
    · exact hlast
    · exact hall before x rest hlog

end

@[ext] structure Cursor where
  epoch : ℕ
  seq : ℕ
  deriving DecidableEq, Repr

inductive Event (τ π : Type) where
  | opened (stream : τ) (position : Cursor)
  | published (stream : τ) (item : π) (position : Cursor)
  | acked (stream : τ) (position : Cursor)
  deriving DecidableEq, Repr

variable {τ π : Type}

namespace Event

def stream : Event τ π → τ
  | .opened stream _ | .published stream _ _ | .acked stream _ => stream

def position : Event τ π → Cursor
  | .opened _ position | .published _ _ position | .acked _ position => position

def opening : Event τ π → Option ℕ
  | .opened _ position => some position.epoch
  | _ => none

end Event

def openings (log : List (Event τ π)) : List ℕ := log.filterMap Event.opening

theorem mem_openings {log : List (Event τ π)} {stream : τ} {position : Cursor}
    (hmem : .opened stream position ∈ log) : position.epoch ∈ openings log :=
  mem_filterMap.mpr ⟨_, hmem, rfl⟩

theorem openings_snoc (log : List (Event τ π)) (e : Event τ π) :
    openings (log ++ [e]) = openings log ++ e.opening.toList := by
  unfold openings
  rw [filterMap_append]
  cases he : e.opening <;> simp [he]

theorem stream_of_epoch {log : List (Event τ π)} (hnodup : (openings log).Nodup) {s t : τ}
    {p q : Cursor} (hs : .opened s p ∈ log) (ht : .opened t q ∈ log) (hepoch : p.epoch = q.epoch) :
    s = t := by
  induction log with
  | nil => cases hs
  | cons e log ih =>
    have hcons : openings (e :: log) = e.opening.toList ++ openings log := by
      unfold openings
      cases he : e.opening <;> simp [he]
    rw [hcons] at hnodup
    have hrest := (nodup_append.mp hnodup).2.1
    have hout : ∀ (u : τ) (r : Cursor), e = .opened u r → r.epoch ∉ openings log := by
      rintro u r rfl hin
      exact (nodup_append.mp hnodup).2.2 r.epoch (by simp [Event.opening]) r.epoch hin rfl
    obtain hs | hs := mem_cons.mp hs
    · obtain ht | ht := mem_cons.mp ht
      · rw [← hs] at ht
        cases ht
        rfl
      · refine absurd (mem_openings ht) ?_
        rw [← hepoch]
        exact hout s p hs.symm
    · obtain ht | ht := mem_cons.mp ht
      · refine absurd (mem_openings hs) ?_
        rw [hepoch]
        exact hout t q ht.symm
      · exact ih hrest hs ht

section
variable [DecidableEq τ] {whole : τ → ℕ → Prop}

def moved (places : τ → Option Cursor) : Event τ π → τ → Option Cursor
  | .opened stream position | .published stream _ position =>
    update places stream (some position)
  | .acked _ _ => places

/-- The position each stream was left at. -/
def places (log : List (Event τ π)) : τ → Option Cursor := log.foldl moved fun _ => none

theorem places_snoc (log : List (Event τ π)) (e : Event τ π) :
    places (log ++ [e]) = moved (places log) e := by
  unfold places
  rw [foldl_append]
  rfl

def Continues (whole : τ → ℕ → Prop) (log : List (Event τ π)) : Event τ π → Prop
  | .opened _ position => position.epoch ∉ openings log
  | .published stream _ position =>
    ∃ last, places log stream = some last ∧ position.epoch = last.epoch ∧
      (whole stream last.epoch → position.seq = last.seq + 1)
  | .acked stream position => places log stream = some position

def Sequenced (whole : τ → ℕ → Prop) (log : List (Event τ π)) : Prop :=
  Throughout (Continues whole) log

theorem sequenced_snoc (log : List (Event τ π)) (e : Event τ π) :
    Sequenced whole (log ++ [e]) ↔ Sequenced whole log ∧ Continues whole log e :=
  throughout_snoc (Continues whole) log e

variable {log : List (Event τ π)}

theorem Sequenced.opened_of_place (hseq : Sequenced whole log) (stream : τ) (position : Cursor)
    (hplace : places log stream = some position) :
    ∃ first, .opened stream first ∈ log ∧ first.epoch = position.epoch := by
  induction log using List.reverseRecOn generalizing position with
  | nil => cases hplace
  | append_singleton log e ih =>
    obtain ⟨hbefore, hlast⟩ := (sequenced_snoc log e).mp hseq
    have hkept : ∀ position, places log stream = some position →
        ∃ first, .opened stream first ∈ log ++ [e] ∧ first.epoch = position.epoch := by
      intro position hplace
      obtain ⟨first, hmem, hepoch⟩ := ih hbefore position hplace
      exact ⟨first, mem_append_left _ hmem, hepoch⟩
    rw [places_snoc] at hplace
    cases e with
    | opened other first =>
      by_cases hother : stream = other
      · subst hother
        simp only [moved, update_self, Option.some.injEq] at hplace
        exact ⟨first, by simp, by rw [hplace]⟩
      · simp only [moved, update_of_ne hother] at hplace
        exact hkept position hplace
    | published other item next =>
      by_cases hother : stream = other
      · subst hother
        simp only [moved, update_self, Option.some.injEq] at hplace
        obtain ⟨last, hlast, hepoch, _⟩ := hlast
        rw [← hplace, hepoch]
        exact hkept last hlast
      · simp only [moved, update_of_ne hother] at hplace
        exact hkept position hplace
    | acked other current => exact hkept position hplace

theorem Sequenced.place_last {e : Event τ π} (hseq : Sequenced whole (log ++ [e])) :
    places (log ++ [e]) e.stream = some e.position := by
  have hlast := ((sequenced_snoc log e).mp hseq).2
  rw [places_snoc]
  cases e with
  | opened stream position | published stream item position => exact update_self ..
  | acked stream position => exact hlast

theorem Sequenced.opened_of_mem (hseq : Sequenced whole log) (e : Event τ π) (hmem : e ∈ log) :
    ∃ first, .opened e.stream first ∈ log ∧ first.epoch = e.position.epoch := by
  obtain ⟨before, after, rfl⟩ := append_of_mem hmem
  have hprefix : Sequenced whole (before ++ [e]) := by
    intro first x rest heq
    refine hseq first x (rest ++ after) ?_
    rw [append_cons, heq, append_assoc, cons_append]
  obtain ⟨first, hin, hepoch⟩ := hprefix.opened_of_place _ _ hprefix.place_last
  refine ⟨first, ?_, hepoch⟩
  obtain hin | hin := mem_append.mp hin
  · exact mem_append_left _ hin
  · rw [mem_singleton.mp hin]
    simp

theorem Sequenced.seq_le (hseq : Sequenced whole log) (position : Cursor) (e : Event τ π)
    (hwhole : whole e.stream e.position.epoch) (hmem : e ∈ log)
    (hplace : places log e.stream = some position) (hepoch : e.position.epoch = position.epoch) :
    e.position.seq ≤ position.seq := by
  induction log using List.reverseRecOn generalizing position with
  | nil => cases hmem
  | append_singleton log x ih =>
    have hself := hseq.place_last
    obtain ⟨hbefore, hlast⟩ := (sequenced_snoc log x).mp hseq
    obtain hin | hin := mem_append.mp hmem
    · rw [places_snoc] at hplace
      cases x with
      | opened other first =>
        by_cases hother : e.stream = other
        · subst hother
          simp only [moved, update_self, Option.some.injEq] at hplace
          obtain ⟨earlier, hopened, hsame⟩ := hbefore.opened_of_mem e hin
          have hused := mem_openings hopened
          rw [hsame, hepoch, ← hplace] at hused
          exact absurd hused hlast
        · simp only [moved, update_of_ne hother] at hplace
          exact ih hbefore position hin hplace hepoch
      | published other item next =>
        by_cases hother : e.stream = other
        · subst hother
          simp only [moved, update_self, Option.some.injEq] at hplace
          obtain ⟨last, hlast, hsame, hnext⟩ := hlast
          rw [← hplace, hsame] at hepoch
          have hle := ih hbefore last hin hlast hepoch
          rw [hepoch] at hwhole
          rw [← hplace, hnext hwhole]
          omega
        · simp only [moved, update_of_ne hother] at hplace
          exact ih hbefore position hin hplace hepoch
      | acked other current => exact ih hbefore position hin hplace hepoch
    · cases mem_singleton.mp hin
      rw [hself] at hplace
      cases hplace
      exact Nat.le_refl _

theorem Sequenced.quiet_since (hseq : Sequenced whole log) (e : Event τ π)
    (hwhole : whole e.stream e.position.epoch) (hplace : places log e.stream = some e.position)
    (before after : List (Event τ π)) (hsplit : log = before ++ e :: after) (item : π)
    (position : Cursor) : .published e.stream item position ∉ after := by
  induction log using List.reverseRecOn generalizing after with
  | nil => simp at hsplit
  | append_singleton log x ih =>
    obtain ⟨hbefore, hlast⟩ := (sequenced_snoc log x).mp hseq
    obtain ⟨_, _, rfl⟩ | ⟨after, rfl, hlog⟩ := split_snoc hsplit
    · exact not_mem_nil
    · have hmem : e ∈ log := by rw [hlog]; simp
      have hrest : places log e.stream = some e.position →
          (∀ item position, x ≠ .published e.stream item position) →
          .published e.stream item position ∉ after ++ [x] := by
        intro hplace hx hin
        obtain hin | hin := mem_append.mp hin
        · exact ih hbefore hplace after hlog hin
        · exact hx item position (mem_singleton.mp hin).symm
      rw [places_snoc] at hplace
      cases x with
      | opened other first =>
        by_cases hother : e.stream = other
        · subst hother
          simp only [moved, update_self, Option.some.injEq] at hplace
          obtain ⟨earlier, hin, hsame⟩ := hbefore.opened_of_mem e hmem
          have hused := mem_openings hin
          rw [hsame, ← hplace] at hused
          exact absurd hused hlast
        · simp only [moved, update_of_ne hother] at hplace
          exact hrest hplace (by simp)
      | published other item next =>
        by_cases hother : e.stream = other
        · subst hother
          simp only [moved, update_self, Option.some.injEq] at hplace
          obtain ⟨last, hlast, hsame, hnext⟩ := hlast
          have hepoch : e.position.epoch = last.epoch := by rw [← hplace, hsame]
          have hle := hbefore.seq_le last e hwhole hmem hlast hepoch
          rw [hepoch] at hwhole
          rw [← hplace, hnext hwhole] at hle
          omega
        · simp only [moved, update_of_ne hother] at hplace
          exact hrest hplace fun _ _ heq => hother (by cases heq; rfl)
      | acked other current => exact hrest hplace (by simp)

theorem Sequenced.next_published (hseq : Sequenced whole log) (e : Event τ π)
    (hwhole : whole e.stream e.position.epoch) (item : π)
    (hnext : .published e.stream item ⟨e.position.epoch, e.position.seq + 1⟩ ∈ log)
    (before after : List (Event τ π)) (hsplit : log = before ++ e :: after) :
    ∃ quiet rest,
      after = quiet ++ .published e.stream item ⟨e.position.epoch, e.position.seq + 1⟩ :: rest ∧
      ∀ other position, .published e.stream other position ∉ quiet := by
  induction log using List.reverseRecOn generalizing after with
  | nil => cases hnext
  | append_singleton log x ih =>
    obtain ⟨hbefore, hlast⟩ := (sequenced_snoc log x).mp hseq
    obtain ⟨_, rfl, _⟩ | ⟨after, rfl, hlog⟩ := split_snoc hsplit
    · have hle := hseq.seq_le x.position
        (.published x.stream item ⟨x.position.epoch, x.position.seq + 1⟩) hwhole hnext
        hseq.place_last rfl
      exact absurd hle (Nat.not_succ_le_self _)
    · obtain hin | hin := mem_append.mp hnext
      · obtain ⟨quiet, rest, rfl, hquiet⟩ := ih hbefore hin after hlog
        exact ⟨quiet, rest ++ [x], by simp, hquiet⟩
      · cases mem_singleton.mp hin
        obtain ⟨last, hlast, hepoch, hsame⟩ := hlast
        have hnumber : e.position.seq + 1 = last.seq + 1 := hsame (by rw [← hepoch]; exact hwhole)
        have hposition : last = e.position := Cursor.ext hepoch.symm (by omega)
        rw [hposition] at hlast
        exact ⟨after, [], rfl, hbefore.quiet_since e hwhole hlast before after hlog⟩

end

end Stakit.EpochStreams
