import Stakit.PubsubHubState
import Stakit.SerdeValue
import Stakit.TransitionRuns

set_option autoImplicit false

namespace Stakit.InboundRate
open PubsubHub SerdeJson TransitionRuns List

/-- The two limits of `SessionConfig` on inbound frames. -/
structure Limits where
  maxFrameBytes : ℕ
  maxFramesPerSecond : UInt32

/-- Times are milliseconds since the session was born; `rate` is
`second << 32 | frames in that second`. -/
structure Session where
  now : ℕ
  lastSeen : ℕ
  rate : ℕ
  closer : Option CloseReason
  passed : List (ℕ × Bool)

def born : Session := ⟨0, 0, 0, none, []⟩

def Session.close (s : Session) (reason : CloseReason) : Session :=
  { s with closer := s.closer.or (some reason) }

def Session.elapsedMs (s : Session) : ℕ := min s.now (2 ^ 64 - 1)

def Session.second (s : Session) : ℕ := s.now / 1000

/-- Records an inbound frame; `false` once the per-second budget is spent. -/
def touch (limits : Limits) (s : Session) : Bool × Session :=
  let second := s.elapsedMs / 1000
  let counted := { s with lastSeen := s.elapsedMs, rate := (s.rate + 1) % 2 ^ 64 }
  if s.rate >>> 32 ≠ second then
    (true, { counted with rate := (second <<< 32) % 2 ^ 64 ||| 1 })
  else (decide (s.rate &&& 2 ^ 32 - 1 < limits.maxFramesPerSecond.toNat), counted)

/-- What an open session does with the frame it let through is left out. -/
def handle (limits : Limits) (s : Session) : Session :=
  match s.closer with
  | some _ => s
  | none =>
    match touch limits s with
    | (true, touched) => touched
    | (false, touched) => touched.close .rateLimited

section
variable {N : Type} (number : List Char → Option N)

/-- `serde_json::from_slice`: bytes that are not UTF-8 are refused. -/
def fromSlice (bytes : List UInt8) : Option (Value N) :=
  (String.fromUTF8? ⟨bytes.toArray⟩).bind fun text => fromText number text.toList

def isFrame (bytes : List UInt8) : Bool := (fromSlice number bytes).isSome

def handleBytes (limits : Limits) (s : Session) (bytes : List UInt8) : Session :=
  if limits.maxFrameBytes < bytes.length then s.close .frameTooLarge
  else
    match fromSlice number bytes with
    | some _ => handle limits s
    | none => s

/-- A frame arrives some time after the last step, or something else closes the session. -/
inductive Act where
  | frame (wait : ℕ) (bytes : List UInt8)
  | close (reason : CloseReason)

def Session.after (s : Session) (wait : ℕ) : Session := { s with now := s.now + wait }

/-- Adds a frame to the history if the session is open after it. -/
def note (second : ℕ) (json : Bool) (s : Session) : Session :=
  match s.closer with
  | some _ => s
  | none => { s with passed := s.passed ++ [(second, json)] }

def step (limits : Limits) (s : Session) : Act → Session
  | .frame wait bytes =>
    note (s.after wait).second (isFrame number bytes)
      (handleBytes number limits (s.after wait) bytes)
  | .close reason => s.close reason

def Session.through (s : Session) (second : ℕ) : ℕ :=
  s.passed.countP fun frame => decide (frame.1 = second)

/-- Those of them that were parsed and so counted. -/
def Session.counted (s : Session) (second : ℕ) : ℕ :=
  s.passed.countP fun frame => decide (frame.1 = second) && frame.2

def Windowed (limits : Limits) (s : Session) : Prop :=
  s.rate < 2 ^ 64 ∧ (s.second < 2 ^ 32 → ∃ last, last ≤ s.second ∧
    (∀ frame ∈ s.passed, frame.2 = true → frame.1 ≤ last) ∧
    s.rate = last * 2 ^ 32 + s.counted last ∧
    s.counted last ≤ limits.maxFramesPerSecond.toNat)

variable (limits : Limits) (s : Session) (second : ℕ)

theorem windowed_born : Windowed limits born :=
  ⟨by norm_num [born], fun _ => ⟨0, Nat.le_refl 0, by simp [born], by simp [born, Session.counted],
    by simp [born, Session.counted]⟩⟩

theorem windowed_after (wait : ℕ) (h : Windowed limits s) : Windowed limits (s.after wait) := by
  refine ⟨h.1, fun hsecond => ?_⟩
  have hlater : s.second ≤ (s.after wait).second :=
    Nat.div_le_div_right (Nat.le_add_right s.now wait)
  obtain ⟨last, hlast, hseconds, hrate, hcounted⟩ := h.2 (by omega)
  exact ⟨last, by omega, hseconds, hrate, hcounted⟩

theorem window_parts (high low : ℕ) (hlow : low < 2 ^ 32) :
    (high * 2 ^ 32 + low) >>> 32 = high ∧ (high * 2 ^ 32 + low) &&& 2 ^ 32 - 1 = low := by
  rw [Nat.shiftRight_eq_div_pow, Nat.and_two_pow_sub_one_eq_mod]
  constructor <;> omega

theorem fresh_window : (second <<< 32) % 2 ^ 64 ||| 1 = second % 2 ^ 32 * 2 ^ 32 + 1 := by
  have hshift : (second <<< 32) % 2 ^ 64 = 2 ^ 32 * (second % 2 ^ 32) := by
    rw [Nat.shiftLeft_eq]
    omega
  rw [hshift, ← Nat.two_pow_add_eq_or_of_lt (show 1 < 2 ^ 32 by norm_num)]
  omega

theorem counted_none (last second : ℕ) (hlast : last < second)
    (hseconds : ∀ frame ∈ s.passed, frame.2 = true → frame.1 ≤ last) : s.counted second = 0 := by
  apply countP_eq_zero.mpr
  intro frame hmem hcount
  have hparts : frame.1 = second ∧ frame.2 = true := by simpa using hcount
  have := hseconds frame hmem hparts.2
  omega

theorem elapsed_small (h : s.second < 2 ^ 32) : s.elapsedMs / 1000 = s.second := by
  unfold Session.elapsedMs Session.second at *
  omega

theorem elapsed_large (h : 2 ^ 32 ≤ s.second) : 2 ^ 32 ≤ s.elapsedMs / 1000 := by
  unfold Session.elapsedMs Session.second at *
  omega

theorem touch_restarts (h : s.rate >>> 32 ≠ s.elapsedMs / 1000) : touch limits s = (true, { s with
      lastSeen := s.elapsedMs
      rate := s.elapsedMs / 1000 % 2 ^ 32 * 2 ^ 32 + 1 }) := by
  simp only [touch, if_pos h, fresh_window]

theorem touch_counts (h : s.rate >>> 32 = s.elapsedMs / 1000) :
    touch limits s = (decide (s.rate &&& 2 ^ 32 - 1 < limits.maxFramesPerSecond.toNat),
      { s with lastSeen := s.elapsedMs, rate := (s.rate + 1) % 2 ^ 64 }) := by
  simp only [touch, if_neg (not_not.mpr h)]

theorem touch_passes (hm : 0 < limits.maxFramesPerSecond.toNat) (h : Windowed limits s) :
    (touch limits s).1 = true ↔
      (s.second < 2 ^ 32 → s.counted s.second < limits.maxFramesPerSecond.toNat) := by
  have hmax : limits.maxFramesPerSecond.toNat < 2 ^ 32 := limits.maxFramesPerSecond.toNat_lt
  by_cases hsmall : s.second < 2 ^ 32
  · obtain ⟨last, hlast, hseconds, hrate, hcounted⟩ := h.2 hsmall
    obtain ⟨hhigh, hlow⟩ := window_parts last (s.counted last) (by omega)
    rw [← hrate] at hhigh hlow
    have helapsed := elapsed_small s hsmall
    by_cases hsame : last = s.second
    · rw [touch_counts limits s (by omega), hlow, hsame]
      exact ⟨fun hlt _ => by simpa using hlt, fun hlt => by simpa using hlt hsmall⟩
    · rw [touch_restarts limits s (by omega), counted_none s last s.second (by omega) hseconds]
      simp [hm]
  · have helapsed := elapsed_large s (by omega)
    have hhigh : s.rate >>> 32 < 2 ^ 32 := by
      have := h.1
      rw [Nat.shiftRight_eq_div_pow]
      omega
    rw [touch_restarts limits s (by omega)]
    exact ⟨fun _ hlt => absurd hlt hsmall, fun _ => rfl⟩

theorem counted_snoc (other : ℕ) (json : Bool) :
    ({ s with passed := s.passed ++ [(second, json)] } : Session).counted other =
      s.counted other + if second = other ∧ json = true then 1 else 0 := by
  simp [Session.counted, countP_append, countP_cons]

theorem through_snoc (other : ℕ) (json : Bool) :
    ({ s with passed := s.passed ++ [(second, json)] } : Session).through other =
      s.through other + if second = other then 1 else 0 := by
  simp [Session.through, countP_append, countP_cons]

theorem windowed_touched (hm : 0 < limits.maxFramesPerSecond.toNat) (h : Windowed limits s)
    (hpass : (touch limits s).1 = true) :
    Windowed limits { (touch limits s).2 with passed := s.passed ++ [(s.second, true)] } := by
  have hmax : limits.maxFramesPerSecond.toNat < 2 ^ 32 := limits.maxFramesPerSecond.toNat_lt
  have hcount := (touch_passes limits s hm h).mp hpass
  have hadded : (s.passed ++ [(s.second, true)]).countP
      (fun frame => decide (frame.1 = s.second) && frame.2) = s.counted s.second + 1 := by
    simp [Session.counted, countP_append]
  have hlatest : s.second < 2 ^ 32 → ∀ frame ∈ s.passed ++ [(s.second, true)],
      frame.2 = true → frame.1 ≤ s.second := by
    intro hsmall frame hmem hjson
    obtain ⟨last, hlast, hseconds, -⟩ := h.2 hsmall
    rcases mem_append.mp hmem with hold | hnew
    · exact Nat.le_trans (hseconds frame hold hjson) hlast
    · rw [mem_singleton.mp hnew]
  by_cases hstart : s.rate >>> 32 = s.elapsedMs / 1000
  · rw [touch_counts limits s hstart]
    refine ⟨Nat.mod_lt _ (by norm_num), fun (hsmall : s.second < 2 ^ 32) => ?_⟩
    obtain ⟨last, hlast, hseconds, hrate, hcounted⟩ := h.2 hsmall
    have helapsed := elapsed_small s hsmall
    obtain ⟨hhigh, -⟩ := window_parts last (s.counted last) (by omega)
    have hsame : last = s.second := by rw [← helapsed, ← hstart, hrate, hhigh]
    have hroom := hcount hsmall
    rw [hsame] at hrate
    refine ⟨s.second, Nat.le_refl _, hlatest hsmall, ?_, ?_⟩
    · change (s.rate + 1) % 2 ^ 64 = s.second * 2 ^ 32 + (s.passed ++ [(s.second, true)]).countP _
      rw [hadded]
      omega
    · change (s.passed ++ [(s.second, true)]).countP _ ≤ _
      rw [hadded]
      omega
  · rw [touch_restarts limits s hstart]
    refine ⟨?_, fun (hsmall : s.second < 2 ^ 32) => ?_⟩
    · change s.elapsedMs / 1000 % 2 ^ 32 * 2 ^ 32 + 1 < 2 ^ 64
      omega
    obtain ⟨last, hlast, hseconds, hrate, hcounted⟩ := h.2 hsmall
    have helapsed := elapsed_small s hsmall
    obtain ⟨hhigh, -⟩ := window_parts last (s.counted last) (by omega)
    rw [← hrate] at hhigh
    have hnone : s.counted s.second = 0 :=
      counted_none s last s.second (by omega) hseconds
    refine ⟨s.second, Nat.le_refl _, hlatest hsmall, ?_, ?_⟩
    · change s.elapsedMs / 1000 % 2 ^ 32 * 2 ^ 32 + 1 =
        s.second * 2 ^ 32 + (s.passed ++ [(s.second, true)]).countP _
      rw [hadded, hnone, helapsed, Nat.mod_eq_of_lt hsmall]
    · change (s.passed ++ [(s.second, true)]).countP _ ≤ _
      rw [hadded, hnone]
      omega

/-- What becomes of a frame at an open session. -/
theorem frame_step (wait : ℕ) (bytes : List UInt8) (hopen : s.closer = none) :
    (limits.maxFrameBytes < bytes.length ∧
        (step number limits s (.frame wait bytes)).closer = some .frameTooLarge ∧
        (step number limits s (.frame wait bytes)).passed = s.passed) ∨
      (bytes.length ≤ limits.maxFrameBytes ∧ isFrame number bytes = false ∧
        step number limits s (.frame wait bytes) =
          { s.after wait with passed := s.passed ++ [((s.after wait).second, false)] }) ∨
      (bytes.length ≤ limits.maxFrameBytes ∧ isFrame number bytes = true ∧
        (touch limits (s.after wait)).1 = true ∧
        step number limits s (.frame wait bytes) = { (touch limits (s.after wait)).2 with
            passed := s.passed ++ [((s.after wait).second, true)] }) ∨
      (bytes.length ≤ limits.maxFrameBytes ∧ isFrame number bytes = true ∧
        (touch limits (s.after wait)).1 = false ∧
        (step number limits s (.frame wait bytes)).closer = some .rateLimited ∧
        (step number limits s (.frame wait bytes)).passed = s.passed) := by
  have hopen' : (s.after wait).closer = none := hopen
  by_cases hlarge : limits.maxFrameBytes < bytes.length
  · left
    refine ⟨hlarge, ?_, ?_⟩ <;>
      simp [step, handleBytes, hlarge, note, Session.close, hopen, Session.after]
  have hfits : bytes.length ≤ limits.maxFrameBytes := Nat.le_of_not_lt hlarge
  right
  cases hparse : fromSlice number bytes with
  | none =>
    left
    have hjson : isFrame number bytes = false := by rw [isFrame, hparse]; rfl
    refine ⟨hfits, hjson, ?_⟩
    simp only [step, handleBytes, if_neg hlarge, hparse, note, hopen', hjson]
    rfl
  | some value =>
    right
    have hjson : isFrame number bytes = true := by rw [isFrame, hparse]; rfl
    have hkept : (touch limits (s.after wait)).2.closer = none ∧
        (touch limits (s.after wait)).2.passed = s.passed := by
      unfold touch
      dsimp only
      split <;> exact ⟨hopen, rfl⟩
    have hstep : step number limits s (.frame wait bytes) =
        note (s.after wait).second true (handle limits (s.after wait)) := by
      simp only [step, handleBytes, if_neg hlarge, hparse, hjson]
    rw [hstep, handle, hopen']
    rcases htouch : touch limits (s.after wait) with ⟨passes, touched⟩
    rw [htouch] at hkept
    obtain ⟨hcloser, hpassed⟩ : touched.closer = none ∧ touched.passed = s.passed := hkept
    cases passes with
    | true =>
      left
      refine ⟨hfits, hjson, rfl, ?_⟩
      simp only [note, hcloser, hpassed]
    | false =>
      right
      refine ⟨hfits, hjson, rfl, ?_, ?_⟩ <;> simp [note, Session.close, hcloser, hpassed]

/-- What the second's limit asks of a step: once as many frames as it allows were let
through in this second, one more closes the session, an oversized one for its size. -/
def Limited (limits : Limits) (s : Session) : Act → Prop
  | .frame wait bytes =>
    s.closer = none → limits.maxFramesPerSecond.toNat ≤ s.through (s.after wait).second →
        (step number limits s (.frame wait bytes)).closer = some .rateLimited ∨
          limits.maxFrameBytes < bytes.length ∧
            (step number limits s (.frame wait bytes)).closer = some .frameTooLarge
  | .close _ => True

/-- A frame that fits and comes after as many as the limit allows in its second is JSON
text like all of them, and the second fits in 32 bits. -/
def Countable (limits : Limits) (s : Session) : Act → Prop
  | .frame wait bytes =>
    s.closer = none → bytes.length ≤ limits.maxFrameBytes →
      limits.maxFramesPerSecond.toNat ≤ s.through (s.after wait).second →
        (s.after wait).second < 2 ^ 32 ∧ isFrame number bytes = true ∧
          ∀ frame ∈ s.passed, frame.1 = (s.after wait).second → frame.2 = true
  | .close _ => True

instance (limits : Limits) (s : Session) : ∀ act, Decidable (Countable number limits s act)
  | .frame wait bytes =>
    inferInstanceAs (Decidable (s.closer = none → bytes.length ≤ limits.maxFrameBytes →
      limits.maxFramesPerSecond.toNat ≤ s.through (s.after wait).second →
        (s.after wait).second < 2 ^ 32 ∧ isFrame number bytes = true ∧
          ∀ frame ∈ s.passed, frame.1 = (s.after wait).second → frame.2 = true))
  | .close _ => .isTrue trivial

/-- No second lets more frames through than the limit. -/
def Kept (limits : Limits) (s : Session) : Prop :=
  ∀ second, s.through second ≤ limits.maxFramesPerSecond.toNat

def Open (limits : Limits) (s : Session) : Prop := s.closer = none → Windowed limits s

theorem close_closed (reason : CloseReason) : (s.close reason).closer ≠ none := by
  cases hclosed : s.closer <;> simp [Session.close, hclosed]

theorem closed_step (act : Act) (hclosed : s.closer ≠ none) :
    (step number limits s act).closer ≠ none ∧ (step number limits s act).passed = s.passed := by
  obtain ⟨reason, hreason⟩ := Option.ne_none_iff_exists'.mp hclosed
  cases act with
  | close other => exact ⟨close_closed s other, rfl⟩
  | frame wait bytes =>
    have hhandled : (handleBytes number limits (s.after wait) bytes).closer = some reason ∧
        (handleBytes number limits (s.after wait) bytes).passed = s.passed := by
      unfold handleBytes handle
      split
      · simp [Session.close, hreason, Session.after]
      · split <;> simp [hreason, Session.after]
    obtain ⟨hcloser, hpassed⟩ := hhandled
    simp only [step, note, hcloser]
    exact ⟨by simp, hpassed⟩

theorem open_step (hm : 0 < limits.maxFramesPerSecond.toNat) (s : Session) (act : Act)
    (h : Open limits s) : Open limits (step number limits s act) := by
  intro hstill
  by_cases hopen : s.closer = none
  · cases act with
    | close reason => exact absurd hstill (close_closed s reason)
    | frame wait bytes =>
      have hwindow := windowed_after limits s wait (h hopen)
      rcases frame_step number limits s wait bytes hopen with
        ⟨-, hclosed, -⟩ | ⟨-, -, hstep⟩ | ⟨-, -, hpass, hstep⟩ | ⟨-, -, -, hclosed, -⟩
      · rw [hstill] at hclosed
        cases hclosed
      · rw [hstep]
        refine ⟨hwindow.1, fun hsmall => ?_⟩
        obtain ⟨last, hlast, hseconds, hrate, hcounted⟩ := hwindow.2 hsmall
        have hsame := counted_snoc (s.after wait) (s.after wait).second last false
        simp only [Bool.false_eq_true, and_false, if_false, Nat.add_zero] at hsame
        refine ⟨last, hlast, ?_, hrate.trans (congrArg _ hsame.symm), hsame.trans_le hcounted⟩
        intro frame hmem hjson
        rcases mem_append.mp hmem with hold | hnew
        · exact hseconds frame hold hjson
        · rw [mem_singleton.mp hnew] at hjson
          cases hjson
      · rw [hstep]
        exact windowed_touched limits (s.after wait) hm hwindow hpass
      · rw [hstill] at hclosed
        cases hclosed
  · exact absurd hstill (closed_step number limits s act hopen).1

theorem counted_le : s.counted second ≤ s.through second :=
  countP_mono_left fun _ _ hframe => (Bool.and_eq_true _ _ ▸ hframe).1

theorem counted_eq_through : s.counted second = s.through second ↔
      ∀ frame ∈ s.passed, frame.1 = second → frame.2 = true := by
  have hparts : s.through second =
      s.counted second + s.passed.countP fun frame => decide (frame.1 = second) && !frame.2 := by
    unfold Session.through Session.counted
    induction s.passed with
    | nil => rfl
    | cons frame rest ih =>
      simp only [countP_cons, ih]
      cases frame.2 <;> by_cases hsecond : frame.1 = second <;> simp [hsecond] <;> omega
  constructor
  · intro hsame frame hmem hsecond
    have hnone := countP_eq_zero.mp (by omega : (s.passed.countP fun frame =>
      decide (frame.1 = second) && !frame.2) = 0) frame hmem
    simpa [hsecond] using hnone
  · intro hjson
    have hnone : (s.passed.countP fun frame => decide (frame.1 = second) && !frame.2) = 0 := by
      apply countP_eq_zero.mpr
      intro frame hmem hbad
      have hbad : frame.1 = second ∧ frame.2 = false := by simpa using hbad
      rw [hjson frame hmem hbad.1] at hbad
      cases hbad.2
    omega

theorem kept_snoc (t : Session) (second : ℕ) (json : Bool) (hkept : Kept limits s)
    (hpassed : t.passed = s.passed ++ [(second, json)]) :
    Kept limits t ↔ s.through second < limits.maxFramesPerSecond.toNat := by
  have hthrough : ∀ other, t.through other = s.through other + if second = other then 1 else 0 := by
    intro other
    rw [← through_snoc s second other json]
    unfold Session.through
    rw [hpassed]
  constructor
  · intro h
    have := h second
    rw [hthrough, if_pos rfl] at this
    omega
  · intro h other
    have := hkept other
    rw [hthrough]
    split
    · next hsame => rw [← hsame]; omega
    · omega

theorem kept_same {t : Session} (hkept : Kept limits s) (hpassed : t.passed = s.passed) :
    Kept limits t := by
  intro second
  unfold Session.through
  rw [hpassed]
  exact hkept second

theorem kept_step (hm : 0 < limits.maxFramesPerSecond.toNat) (s : Session) (act : Act)
    (h : Open limits s) (hkept : Kept limits s) :
    Kept limits (step number limits s act) ↔ Countable number limits s act := by
  by_cases hopen : s.closer = none
  · cases act with
    | close reason => exact ⟨fun _ => trivial, fun _ => hkept⟩
    | frame wait bytes =>
      have hwindow := windowed_after limits s wait (h hopen)
      have hpasses := touch_passes limits (s.after wait) hm hwindow
      have hcounted : (s.after wait).counted (s.after wait).second =
          s.counted (s.after wait).second := rfl
      rw [hcounted] at hpasses
      have hle := counted_le s (s.after wait).second
      rcases frame_step number limits s wait bytes hopen with
        ⟨hlarge, -, hpassed⟩ | ⟨hfits, hjson, hstep⟩ | ⟨hfits, hjson, hpass, hstep⟩ |
          ⟨hfits, hjson, hpass, -, hpassed⟩
      · exact ⟨fun _ _ hfits => absurd hlarge (Nat.not_lt.mpr hfits),
          fun _ => kept_same limits s hkept hpassed⟩
      · rw [kept_snoc limits s _ _ false hkept (by rw [hstep])]
        constructor
        · intro hroom _ _ hfull
          exact absurd hroom (Nat.not_lt.mpr hfull)
        · intro hcountable
          by_contra hfull
          have := (hcountable hopen hfits (Nat.le_of_not_lt hfull)).2.1
          rw [hjson] at this
          cases this
      · rw [kept_snoc limits s _ _ true hkept (by rw [hstep])]
        constructor
        · intro hroom _ _ hfull
          exact absurd hroom (Nat.not_lt.mpr hfull)
        · intro hcountable
          by_contra hfull
          obtain ⟨hsmall, -, hall⟩ := hcountable hopen hfits (Nat.le_of_not_lt hfull)
          have hsame := (counted_eq_through s _).mpr hall
          have := hpasses.mp hpass hsmall
          omega
      · refine ⟨fun _ _ _ _ => ?_, fun _ => kept_same limits s hkept hpassed⟩
        rw [← Bool.not_eq_true, hpasses, Classical.not_imp] at hpass
        refine ⟨hpass.1, hjson, (counted_eq_through s _).mp ?_⟩
        have := hkept (s.after wait).second
        omega
  · have hpassed := (closed_step number limits s act hopen).2
    refine ⟨fun _ => ?_, fun _ => kept_same limits s hkept hpassed⟩
    cases act with
    | close reason => trivial
    | frame wait bytes => exact fun hclosed => absurd hclosed hopen

theorem limited_step (hm : 0 < limits.maxFramesPerSecond.toNat) (s : Session) (act : Act)
    (h : Open limits s) (hcountable : Countable number limits s act) :
    Limited number limits s act := by
  cases act with
  | close reason => trivial
  | frame wait bytes =>
    intro hopen hfull
    have hwindow := windowed_after limits s wait (h hopen)
    rcases frame_step number limits s wait bytes hopen with
      ⟨hlarge, hclosed, -⟩ | ⟨hfits, hjson, -⟩ | ⟨hfits, hjson, hpass, -⟩ | ⟨-, -, -, hclosed, -⟩
    · exact .inr ⟨hlarge, hclosed⟩
    · have := (hcountable hopen hfits hfull).2.1
      rw [hjson] at this
      cases this
    · obtain ⟨hsmall, -, hall⟩ := hcountable hopen hfits hfull
      have hsame := (counted_eq_through s _).mpr hall
      have hroom : s.counted (s.after wait).second < _ :=
        (touch_passes limits (s.after wait) hm hwindow).mp hpass hsmall
      omega
    · exact .inl hclosed

/-- No second lets more frames through than its limit, and the next one closes the
session, exactly in the runs whose frames past the limit are countable. -/
theorem second_limits_frames (hm : 0 < limits.maxFramesPerSecond.toNat) (acts : List Act) :
    ((∀ first, first <+: acts → Kept limits (run (step number limits) born first)) ∧
        Meets (step number limits) (Limited number limits) born acts) ↔
      Meets (step number limits) (Countable number limits) born acts := by
  have hborn : Open limits born := fun _ => windowed_born limits
  have hkept : Kept limits born := fun second => Nat.zero_le _
  have hiff := throughout_iff_meets (step number limits) (Countable number limits) (Open limits)
    (Kept limits) (open_step number limits hm) (fun s act => kept_step number limits hm s act)
    born acts hborn hkept
  refine ⟨fun h => hiff.mp h.1, fun h => ⟨hiff.mpr h, ?_⟩⟩
  exact meets_of_guarded (step number limits) (Countable number limits) (Limited number limits)
    (Open limits) (fun s act hs _ => open_step number limits hm s act hs)
    (limited_step number limits hm) born acts hborn h

end

def noNumber (_ : List Char) : Option Unit := none

def oneASecond : Limits := ⟨65536, 1⟩

/-- Two frames of one second at one a second: the braces of an empty object. -/
def flood : List Act := [.frame 0 [123, 125], .frame 1 [123, 125]]

theorem flood_is_limited :
    ((∀ first, first <+: flood → Kept oneASecond (run (step noNumber oneASecond) born first)) ∧
        Meets (step noNumber oneASecond) (Limited noNumber oneASecond) born flood) ∧
      (run (step noNumber oneASecond) born flood).closer = some .rateLimited :=
  ⟨(second_limits_frames noNumber oneASecond (by decide) flood).mpr (by decide +kernel),
    by decide +kernel⟩

/-- Two frames of one second that are not JSON text, at one a second. -/
theorem malformed_frames_pass :
    let ended := run (step noNumber oneASecond) born [.frame 0 [120], .frame 1 [120]]
    oneASecond.maxFramesPerSecond.toNat = 1 ∧ ended.closer = none ∧ ended.through 0 = 2 := by
  decide +kernel

end Stakit.InboundRate
