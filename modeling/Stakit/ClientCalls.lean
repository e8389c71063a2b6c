import Mathlib.Data.List.Nodup
import Stakit.RouterError
import Stakit.TransitionRuns

set_option autoImplicit false

namespace Stakit.ClientCalls
open RouterError TransitionRuns List

variable {κ J : Type}

abbrev Reply (J : Type) := Except Error J

def closedError : Error := coded 410 "gone" "client connection closed"

def timeoutError : Error := coded 504 "timeout" "client action timed out"

structure Frame (J : Type) where
  id : ℕ
  name : String
  params : J

/-- Where a call stands, with the id of its entry once it has one. -/
inductive Phase (J : Type) where
  | idle
  | checked
  | inserted (id : ℕ)
  | waiting (id : ℕ)
  | ended (entry : Option ℕ) (result : Reply J)
  | dropped (entry : Option ℕ)

/-- The shared `Inner` with the calls on it. `answers` is what the sender of an entry sent,
`sends` lists every send, and `failed` the entries that the drain took. -/
structure State (κ J : Type) where
  closed : Bool
  drained : Bool
  nextId : ℕ
  pending : List ℕ
  answers : ℕ → Option (Reply J)
  sends : List ℕ
  failed : List ℕ
  outgoing : List (Frame J)
  receiving : Bool
  phase : κ → Phase J

def opened : State κ J := ⟨false, false, 0, [], fun _ => none, [], [], [], true, fun _ => .idle⟩

inductive Action (κ J : Type) where
  | load (caller : κ)
  | insert (caller : κ)
  | enqueue (caller : κ)
  | receive (caller : κ)
  | timeout (caller : κ)
  | drop (caller : κ)
  | resolve (id : ℕ) (result : Reply J)
  | store
  | drain
  | pump
  | dropReceiver

/-- The arguments of the calls and the room of the outgoing channel. -/
structure Setup (κ J : Type) where
  name : κ → String
  params : κ → J
  capacity : ℕ

def Phase.entry : Phase J → Option ℕ
  | idle | checked => none
  | inserted id | waiting id => some id
  | ended entry _ | dropped entry => entry

def State.without (s : State κ J) (entry : Option ℕ) : List ℕ :=
  entry.elim s.pending s.pending.erase

def State.full (setup : Setup κ J) (s : State κ J) : Prop :=
  s.receiving = true ∧ setup.capacity ≤ s.outgoing.length

instance (setup : Setup κ J) (s : State κ J) : Decidable (s.full setup) :=
  inferInstanceAs (Decidable (_ ∧ _))

section
variable [DecidableEq κ] (setup : Setup κ J)

def State.moved (s : State κ J) (caller : κ) (phase : Phase J) : State κ J :=
  { s with phase := Function.update s.phase caller phase }

/-- A call comes to its end and its guard removes its entry. -/
def State.leave (s : State κ J) (caller : κ) (phase : Phase J) : State κ J :=
  { s.moved caller phase with pending := s.without (s.phase caller).entry }

variable (s : State κ J) (caller : κ) (phase : Phase J)

@[simp] theorem moved_self : (s.moved caller phase).phase caller = phase := Function.update_self ..

theorem moved_other {other : κ} (h : other ≠ caller) :
    (s.moved caller phase).phase other = s.phase other :=
  Function.update_of_ne h ..

theorem leave_phase : (s.leave caller phase).phase = (s.moved caller phase).phase := rfl

def State.finish (s : State κ J) (caller : κ) (result : Reply J) : State κ J :=
  s.leave caller (.ended (s.phase caller).entry result)

def load (s : State κ J) (caller : κ) : State κ J :=
  match s.phase caller with
  | .idle => if s.closed then s.finish caller (.error closedError) else s.moved caller .checked
  | _ => s

def insert (s : State κ J) (caller : κ) : State κ J :=
  match s.phase caller with
  | .checked =>
    { s.moved caller (.inserted s.nextId) with
      nextId := s.nextId + 1
      pending := s.nextId :: s.pending }
  | _ => s

/-- Queueing waits while the channel is full and fails once its receiver is gone. -/
def enqueue (s : State κ J) (caller : κ) : State κ J :=
  match s.phase caller with
  | .inserted id =>
    if s.receiving = false then s.finish caller (.error closedError)
    else if setup.capacity ≤ s.outgoing.length then s
    else
      { s.moved caller (.waiting id) with
        outgoing := s.outgoing ++ [⟨id, setup.name caller, setup.params caller⟩] }
  | _ => s

/-- The receiver gets what was sent, or fails once the sender is gone. -/
def receive (s : State κ J) (caller : κ) : State κ J :=
  match s.phase caller with
  | .waiting id =>
    match s.answers id with
    | some result => s.finish caller result
    | none => if id ∈ s.pending then s else s.finish caller (.error closedError)
  | _ => s

/-- A timeout ends a round trip that cannot go on. -/
def timeout (s : State κ J) (caller : κ) : State κ J :=
  match s.phase caller with
  | .inserted _ => if s.full setup then s.finish caller (.error timeoutError) else s
  | .waiting id =>
    if (s.answers id).isNone then s.finish caller (.error timeoutError) else s
  | _ => s

def drop (s : State κ J) (caller : κ) : State κ J :=
  match s.phase caller with
  | .ended _ _ => s
  | phase => s.leave caller (.dropped phase.entry)

/-- A sender that is taken out of the map sends once. -/
def resolve (s : State κ J) (id : ℕ) (result : Reply J) : State κ J :=
  if id ∈ s.pending then
    { s with
      pending := s.pending.erase id
      answers := Function.update s.answers id (some result)
      sends := s.sends ++ [id] }
  else s

def drain (s : State κ J) : State κ J :=
  if s.closed && !s.drained then
    { s with
      drained := true
      pending := []
      answers := fun id => if id ∈ s.pending then some (.error closedError) else s.answers id
      sends := s.sends ++ s.pending
      failed := s.pending }
  else s

def step (s : State κ J) : Action κ J → State κ J
  | .load caller => load s caller
  | .insert caller => insert s caller
  | .enqueue caller => enqueue setup s caller
  | .receive caller => receive s caller
  | .timeout caller => timeout setup s caller
  | .drop caller => drop s caller
  | .resolve id result => resolve s id result
  | .store => { s with closed := true }
  | .drain => drain s
  | .pump => { s with outgoing := s.outgoing.tail }
  | .dropReceiver => { s with receiving := false, outgoing := [] }

end

def Phase.isOver : Phase J → Bool
  | ended _ _ | dropped _ => true
  | _ => false

/-- Every entry has one call and goes with it, and what is sent once is sent for good. -/
structure Books (s : State κ J) : Prop where
  known : ∀ id ∈ s.pending, id < s.nextId
  nodup : s.pending.Nodup
  once : s.sends.Nodup
  sent : ∀ id ∈ s.sends, id < s.nextId ∧ id ∉ s.pending
  owned : ∀ caller id, (s.phase caller).entry = some id → id < s.nextId
  single : ∀ caller other id, (s.phase caller).entry = some id →
    (s.phase other).entry = some id → caller = other
  removed : ∀ caller id, (s.phase caller).isOver = true → (s.phase caller).entry = some id →
    id ∉ s.pending
  failed : ∀ id ∈ s.failed, id ∈ s.sends ∧ s.answers id = some (.error closedError)

theorem books_opened : Books (opened : State κ J) where
  known := nofun
  nodup := nodup_nil
  once := nodup_nil
  sent := nofun
  owned := nofun
  single := nofun
  removed := nofun
  failed := nofun

section
variable [DecidableEq κ] (s : State κ J) (books : Books s)
include books

omit [DecidableEq κ] in
theorem without_subset (entry : Option ℕ) (id : ℕ) (h : id ∈ s.without entry) :
    id ∈ s.pending ∧ entry ≠ some id := by
  cases entry with
  | none => exact ⟨h, nofun⟩
  | some other =>
    refine ⟨mem_of_mem_erase h, ?_⟩
    rintro ⟨⟩
    exact books.nodup.not_mem_erase h

variable (caller : κ) (phase : Phase J)

omit books in
theorem moved_entry (same : phase.entry = (s.phase caller).entry) (other : κ) :
    ((s.moved caller phase).phase other).entry = (s.phase other).entry := by
  by_cases h : other = caller
  · subst h
    rw [moved_self]
    exact same
  · rw [moved_other s caller phase h]

theorem books_moved (live : phase.isOver = false) (same : phase.entry = (s.phase caller).entry) :
    Books (s.moved caller phase) := by
  have hentry := moved_entry s caller phase same
  refine ⟨books.known, books.nodup, books.once, books.sent, ?_, ?_, ?_, books.failed⟩
  · intro other id h
    exact books.owned other id (hentry other ▸ h)
  · intro other another id h h'
    exact books.single other another id (hentry other ▸ h) (hentry another ▸ h')
  · intro other id hover h
    by_cases heq : other = caller
    · subst heq
      rw [moved_self, live] at hover
      cases hover
    · rw [hentry other] at h
      rw [moved_other s caller phase heq] at hover
      exact books.removed other id hover h

theorem books_leave (same : phase.entry = (s.phase caller).entry) :
    Books (s.leave caller phase) := by
  have hentry := moved_entry s caller phase same
  have hsub := without_subset s books (s.phase caller).entry
  refine ⟨fun id h => books.known id (hsub id h).1, ?_, books.once,
    fun id h => ⟨(books.sent id h).1, fun hin => (books.sent id h).2 (hsub id hin).1⟩, ?_, ?_, ?_,
    books.failed⟩
  · change (s.without (s.phase caller).entry).Nodup
    cases (s.phase caller).entry with
    | none => exact books.nodup
    | some id => exact books.nodup.erase id
  · intro other id h
    exact books.owned other id (hentry other ▸ h)
  · intro other another id h h'
    exact books.single other another id (hentry other ▸ h) (hentry another ▸ h')
  · intro other id hover h hin
    obtain ⟨hpending, hne⟩ := hsub id hin
    have hold : (s.phase other).entry = some id := hentry other ▸ h
    by_cases heq : other = caller
    · exact hne (heq ▸ hold)
    · have hwas : (s.phase other).isOver = true := by
        rw [leave_phase, moved_other s caller phase heq] at hover
        exact hover
      exact books.removed other id hwas hold hpending

theorem books_finish (result : Reply J) : Books (s.finish caller result) :=
  books_leave s books caller _ rfl

omit books in
theorem insert_checked (h : s.phase caller = .checked) :
    insert s caller = { s.moved caller (.inserted s.nextId) with
      nextId := s.nextId + 1
      pending := s.nextId :: s.pending } := by
  rw [insert, h]

theorem books_insert : Books (insert s caller) := by
  cases hphase : s.phase caller with
  | checked =>
    rw [insert_checked s caller hphase]
    have hself : ∀ other id, ((s.moved caller (.inserted s.nextId)).phase other).entry = some id →
        other = caller ∧ id = s.nextId ∨ other ≠ caller ∧ (s.phase other).entry = some id := by
      intro other id h
      by_cases heq : other = caller
      · subst heq
        rw [moved_self] at h
        exact .inl ⟨rfl, (Option.some.inj h).symm⟩
      · rw [moved_other s caller _ heq] at h
        exact .inr ⟨heq, h⟩
    refine ⟨?_, ?_, books.once, ?_, ?_, ?_, ?_, books.failed⟩
    · intro id h
      rcases mem_cons.mp h with rfl | h
      · exact Nat.lt_succ_self _
      · exact Nat.lt_succ_of_lt (books.known id h)
    · exact nodup_cons.mpr ⟨fun h => Nat.lt_irrefl _ (books.known _ h), books.nodup⟩
    · intro id h
      obtain ⟨hlt, hout⟩ := books.sent id h
      refine ⟨Nat.lt_succ_of_lt hlt, fun hin => ?_⟩
      rcases mem_cons.mp hin with rfl | hin
      · exact Nat.lt_irrefl _ hlt
      · exact hout hin
    · intro other id h
      rcases hself other id h with ⟨_, rfl⟩ | ⟨_, hold⟩
      · exact Nat.lt_succ_self _
      · exact Nat.lt_succ_of_lt (books.owned other id hold)
    · intro other another id h h'
      rcases hself other id h with ⟨rfl, rfl⟩ | ⟨_, hold⟩
      · rcases hself another _ h' with ⟨rfl, _⟩ | ⟨_, hold'⟩
        · rfl
        · exact absurd (books.owned another _ hold') (Nat.lt_irrefl _)
      · rcases hself another id h' with ⟨_, rfl⟩ | ⟨_, hold'⟩
        · exact absurd (books.owned other _ hold) (Nat.lt_irrefl _)
        · exact books.single other another id hold hold'
    · intro other id hover h hin
      rcases hself other id h with ⟨rfl, _⟩ | ⟨hne, hold⟩
      · change ((s.moved other (.inserted s.nextId)).phase other).isOver = true at hover
        rw [moved_self] at hover
        cases hover
      · change ((s.moved caller (.inserted s.nextId)).phase other).isOver = true at hover
        rw [moved_other s caller _ hne] at hover
        rcases mem_cons.mp hin with rfl | hin
        · exact Nat.lt_irrefl _ (books.owned other _ hold)
        · exact books.removed other id hover hold hin
  | idle | inserted _ | waiting _ | ended _ _ | dropped _ =>
    rw [insert, hphase]
    exact books

omit [DecidableEq κ] in
theorem books_resolve (id : ℕ) (result : Reply J) : Books (resolve s id result) := by
  by_cases h : id ∈ s.pending
  · rw [resolve, if_pos h]
    refine ⟨fun other hin => books.known other (mem_of_mem_erase hin),
      books.nodup.erase id, ?_, ?_, books.owned, books.single,
      fun caller other hover hentry hin =>
        books.removed caller other hover hentry (mem_of_mem_erase hin), ?_⟩
    · refine nodup_append.mpr ⟨books.once, nodup_singleton id, ?_⟩
      rintro other hother another hid rfl
      exact (books.sent other hother).2 (mem_singleton.mp hid ▸ h)
    · intro other hother
      rcases mem_append.mp hother with hold | hid
      · exact ⟨(books.sent other hold).1,
          fun hin => (books.sent other hold).2 (mem_of_mem_erase hin)⟩
      · rw [mem_singleton.mp hid]
        exact ⟨books.known id h, books.nodup.not_mem_erase⟩
    · intro other hother
      obtain ⟨hsent, hanswer⟩ := books.failed other hother
      refine ⟨mem_append_left _ hsent, ?_⟩
      have hne : other ≠ id := fun heq => (books.sent other hsent).2 (heq ▸ h)
      exact (Function.update_of_ne hne ..).trans hanswer
  · rw [resolve, if_neg h]
    exact books

omit [DecidableEq κ] in
theorem books_drain : Books (drain s) := by
  unfold drain
  split
  · refine ⟨nofun, nodup_nil, ?_, ?_, books.owned, books.single, nofun, ?_⟩
    · refine nodup_append.mpr ⟨books.once, books.nodup, ?_⟩
      rintro id hsent other hin rfl
      exact (books.sent id hsent).2 hin
    · intro id h
      refine ⟨?_, nofun⟩
      rcases mem_append.mp h with hsent | hin
      · exact (books.sent id hsent).1
      · exact books.known id hin
    · intro id h
      exact ⟨mem_append_right _ h, if_pos h⟩
  · exact books

end

section
variable [DecidableEq κ] (setup : Setup κ J)

theorem books_step (s : State κ J) (action : Action κ J) (books : Books s) :
    Books (step setup s action) := by
  cases action with
  | load caller =>
    change Books (load s caller)
    unfold load
    split
    · rename_i hphase
      split
      · exact books_finish s books caller _
      · exact books_moved s books caller .checked rfl (by rw [hphase]; rfl)
    · exact books
  | insert caller => exact books_insert s books caller
  | enqueue caller =>
    change Books (enqueue setup s caller)
    unfold enqueue
    split
    · rename_i id hphase
      split
      · exact books_finish s books caller _
      · split
        · exact books
        · have hmoved := books_moved s books caller (.waiting id) rfl (by rw [hphase]; rfl)
          exact ⟨hmoved.known, hmoved.nodup, hmoved.once, hmoved.sent, hmoved.owned,
            hmoved.single, hmoved.removed, hmoved.failed⟩
    · exact books
  | receive caller =>
    change Books (receive s caller)
    unfold receive
    split
    · split
      · exact books_finish s books caller _
      · split
        · exact books
        · exact books_finish s books caller _
    · exact books
  | timeout caller =>
    change Books (timeout setup s caller)
    unfold timeout
    split
    · split
      · exact books_finish s books caller _
      · exact books
    · split
      · exact books_finish s books caller _
      · exact books
    · exact books
  | drop caller =>
    change Books (drop s caller)
    unfold drop
    split
    · exact books
    · exact books_leave s books caller _ rfl
  | resolve id result => exact books_resolve s books id result
  | store =>
    exact ⟨books.known, books.nodup, books.once, books.sent, books.owned, books.single,
      books.removed, books.failed⟩
  | drain => exact books_drain s books
  | pump | dropReceiver =>
    exact ⟨books.known, books.nodup, books.once, books.sent, books.owned, books.single,
      books.removed, books.failed⟩

end

/-- Once both steps of `fail_pending` are done no entry waits, and the calls whose entries
were drained end with the `gone` error. -/
structure Settled (s : State κ J) : Prop where
  emptied : s.drained = true → s.pending = []
  gone : ∀ caller id result, s.phase caller = .ended (some id) result → id ∈ s.failed →
    result = .error closedError

/-- No call that found the session open inserts its entry after the drain, and no timeout
elapses for a drained call that still waits for room in the channel. -/
def Timely (setup : Setup κ J) (s : State κ J) : Action κ J → Prop
  | .insert caller => s.drained = true → s.phase caller ≠ .checked
  | .timeout caller => s.full setup → ∀ id ∈ s.failed, s.phase caller ≠ .inserted id
  | _ => True

section
variable [DecidableEq κ] (setup : Setup κ J) (s : State κ J) (books : Books s)
  (settled : Settled s)
include settled

variable (caller : κ)

theorem settled_moved (phase : Phase J) (live : phase.isOver = false) :
    Settled (s.moved caller phase) := by
  refine ⟨settled.emptied, fun other id result h hfailed => ?_⟩
  by_cases heq : other = caller
  · subst heq
    rw [moved_self] at h
    rw [h] at live
    cases live
  · rw [moved_other s caller phase heq] at h
    exact settled.gone other id result h hfailed

theorem settled_leave (phase : Phase J)
    (h : ∀ id result, phase = .ended (some id) result → id ∈ s.failed → result =
      .error closedError) :
    Settled (s.leave caller phase) := by
  refine ⟨fun hdrained => ?_, fun other id result hphase hfailed => ?_⟩
  · change s.without (s.phase caller).entry = []
    cases (s.phase caller).entry with
    | none => exact settled.emptied hdrained
    | some id =>
      change s.pending.erase id = []
      rw [settled.emptied hdrained]
      rfl
  · rw [leave_phase] at hphase
    by_cases heq : other = caller
    · subst heq
      rw [moved_self] at hphase
      exact h id result hphase hfailed
    · rw [moved_other s caller phase heq] at hphase
      exact settled.gone other id result hphase hfailed

theorem settled_closed : Settled (s.finish caller (.error closedError)) := by
  refine settled_leave s settled caller _ fun id result h _ => ?_
  exact (Phase.ended.inj h).2.symm

theorem settled_finish_iff {result : Reply J} (hne : result ≠ .error closedError) :
    Settled (s.finish caller result) ↔ ∀ id ∈ s.failed, (s.phase caller).entry ≠ some id := by
  constructor
  · intro h id hfailed hentry
    have hphase : (s.finish caller result).phase caller = .ended (some id) result := by
      rw [State.finish, leave_phase, moved_self, hentry]
    exact hne (h.gone caller id result hphase hfailed)
  · intro h
    refine settled_leave s settled caller _ fun id found hphase hfailed => ?_
    exact absurd (Phase.ended.inj hphase).1 (h id hfailed)

include books

omit [DecidableEq κ] in
theorem settled_drain : Settled (drain s) := by
  unfold drain
  split
  · refine ⟨fun _ => rfl, fun caller id result hphase hfailed => ?_⟩
    have hover : (s.phase caller).isOver = true := by
      change s.phase caller = _ at hphase
      rw [hphase]
      rfl
    have hentry : (s.phase caller).entry = some id := by
      change s.phase caller = _ at hphase
      rw [hphase]
      rfl
    exact absurd hfailed (books.removed caller id hover hentry)
  · exact settled

theorem settled_receive : Settled (receive s caller) := by
  cases hphase : s.phase caller with
  | waiting id =>
    cases hanswer : s.answers id with
    | some result =>
      have hreceive : receive s caller = s.finish caller result := by
        simp only [receive, hphase, hanswer]
      rw [hreceive]
      refine settled_leave s settled caller _ fun other found h hfailed => ?_
      rw [hphase] at h
      obtain ⟨hid, rfl⟩ := Phase.ended.inj h
      rw [← Option.some.inj hid] at hfailed
      rw [(books.failed id hfailed).2] at hanswer
      exact (Option.some.inj hanswer).symm
    | none =>
      have hreceive : receive s caller =
          if id ∈ s.pending then s else s.finish caller (.error closedError) := by
        simp only [receive, hphase, hanswer]
      rw [hreceive]
      split
      · exact settled
      · exact settled_closed s settled caller
  | idle | checked | inserted _ | ended _ _ | dropped _ =>
    rw [receive, hphase]
    exact settled

theorem settled_timeout : Settled (timeout setup s caller) ↔ Timely setup s (.timeout caller) := by
  have hne : (.error timeoutError : Reply J) ≠ .error closedError := by
    intro h
    exact absurd (Except.error.inj h) (by decide)
  cases hphase : s.phase caller with
  | inserted id =>
    have htimeout : timeout setup s caller =
        if s.full setup then s.finish caller (.error timeoutError) else s := by
      rw [timeout, hphase]
    rw [htimeout, Timely]
    by_cases hfull : s.full setup
    · rw [if_pos hfull, settled_finish_iff s settled caller hne, hphase]
      constructor
      · intro h _ other hfailed heq
        exact h other hfailed (congrArg some (Phase.inserted.inj heq))
      · intro h other hfailed heq
        exact h hfull other hfailed (congrArg Phase.inserted (Option.some.inj heq))
    · rw [if_neg hfull]
      exact ⟨fun _ h => absurd h hfull, fun _ => settled⟩
  | waiting id =>
    have htimeout : timeout setup s caller =
        if (s.answers id).isNone then s.finish caller (.error timeoutError) else s := by
      rw [timeout, hphase]
    have htimely : Timely setup s (.timeout caller) := by
      intro _ other _ heq
      rw [hphase] at heq
      cases heq
    rw [htimeout]
    refine ⟨fun _ => htimely, fun _ => ?_⟩
    split
    · rename_i hnone
      rw [settled_finish_iff s settled caller hne, hphase]
      intro other hfailed heq
      rw [Option.some.inj heq, (books.failed other hfailed).2] at hnone
      cases hnone
    · exact settled
  | idle | checked | ended _ _ | dropped _ =>
    have htimeout : timeout setup s caller = s := by rw [timeout, hphase]
    rw [htimeout]
    refine ⟨fun _ _ other _ heq => ?_, fun _ => settled⟩
    rw [hphase] at heq
    cases heq

omit books in
theorem settled_insert : Settled (insert s caller) ↔ Timely setup s (.insert caller) := by
  cases hphase : s.phase caller with
  | checked =>
    rw [insert_checked s caller hphase]
    constructor
    · intro h hdrained
      exact absurd (h.emptied hdrained) (cons_ne_nil _ _)
    · intro h
      have hopen : s.drained = false := Bool.eq_false_iff.mpr fun hdrained => h hdrained hphase
      have hmoved := settled_moved s settled caller (.inserted s.nextId) rfl
      refine ⟨fun hdrained => ?_, hmoved.gone⟩
      rw [show s.drained = true from hdrained] at hopen
      cases hopen
  | idle | inserted _ | waiting _ | ended _ _ | dropped _ =>
    have hinsert : insert s caller = s := by rw [insert, hphase]
    rw [hinsert]
    refine ⟨fun _ _ heq => ?_, fun _ => settled⟩
    rw [hphase] at heq
    cases heq

theorem settled_step (action : Action κ J) :
    Settled (step setup s action) ↔ Timely setup s action := by
  cases action with
  | insert caller => exact settled_insert setup s settled caller
  | timeout caller => exact settled_timeout setup s books settled caller
  | load caller =>
    refine ⟨fun _ => trivial, fun _ => ?_⟩
    change Settled (load s caller)
    unfold load
    split
    · split
      · exact settled_closed s settled caller
      · exact settled_moved s settled caller .checked rfl
    · exact settled
  | enqueue caller =>
    refine ⟨fun _ => trivial, fun _ => ?_⟩
    change Settled (enqueue setup s caller)
    unfold enqueue
    split
    · rename_i id _
      split
      · exact settled_closed s settled caller
      · split
        · exact settled
        · have hmoved := settled_moved s settled caller (.waiting id) rfl
          exact ⟨hmoved.emptied, hmoved.gone⟩
    · exact settled
  | receive caller => exact ⟨fun _ => trivial, fun _ => settled_receive s books settled caller⟩
  | drop caller =>
    refine ⟨fun _ => trivial, fun _ => ?_⟩
    change Settled (drop s caller)
    unfold drop
    split
    · exact settled
    · exact settled_leave s settled caller _ nofun
  | resolve id result =>
    refine ⟨fun _ => trivial, fun _ => ?_⟩
    change Settled (resolve s id result)
    unfold resolve
    split
    · rename_i hin
      refine ⟨fun hdrained => ?_, settled.gone⟩
      rw [settled.emptied hdrained] at hin
      cases hin
    · exact settled
  | store => exact ⟨fun _ => trivial, fun _ => ⟨settled.emptied, settled.gone⟩⟩
  | drain => exact ⟨fun _ => trivial, fun _ => settled_drain s books settled⟩
  | pump | dropReceiver => exact ⟨fun _ => trivial, fun _ => ⟨settled.emptied, settled.gone⟩⟩

end

section
variable [DecidableEq κ] (setup : Setup κ J)

/-- Any number of calls with one `fail_pending`, in any order: nothing is resolved twice,
a call that is over has no entry, and a drained one that waits gets `gone` at once. After
the drain no entry waits and every drained call ends with `gone` throughout exactly where
every step is timely. -/
theorem closing_fails_calls (actions : List (Action κ J)) : (∀ first, first <+: actions →
      let s := run (step setup) opened first
      s.sends.Nodup ∧
      (∀ caller id, (s.phase caller).isOver = true → (s.phase caller).entry = some id →
        id ∉ s.pending) ∧
      ∀ caller id, s.phase caller = .waiting id → id ∈ s.failed →
        (step setup s (.receive caller)).phase caller = .ended (some id) (.error closedError)) ∧
    ((∀ first, first <+: actions → Settled (run (step setup) opened first)) ↔
      Meets (step setup) (Timely setup) opened actions) := by
  constructor
  · intro first _
    have books := run_invariant (step setup) Books (books_step setup) opened first books_opened
    refine ⟨books.once, books.removed, fun caller id hphase hfailed => ?_⟩
    have hanswer := (books.failed id hfailed).2
    change (receive _ caller).phase caller = _
    simp only [receive, hphase, hanswer]
    rw [State.finish, leave_phase, moved_self, hphase]
    rfl
  · exact throughout_iff_meets (step setup) (Timely setup) Books Settled (books_step setup)
      (fun s action books settled => settled_step setup s books settled action) opened actions
      books_opened ⟨nofun, nofun⟩

end

/-- A call that found the session open inserts its entry after the drain, and waits for
its timeout. -/
theorem late_call_times_out : let setup : Setup Unit Unit := ⟨fun _ => "confirm", fun _ => (), 16⟩
    let s := run (step setup) opened [.load (), .store, .drain, .insert (), .enqueue ()]
    s.drained = true ∧ s.pending = [0] ∧ s.phase () = .waiting 0 ∧ s.answers 0 = none ∧
      (step setup s (.timeout ())).phase () = .ended (some 0) (.error timeoutError) := by
  refine ⟨rfl, rfl, rfl, rfl, rfl⟩

end Stakit.ClientCalls
