import Stakit.JsonWriting
import Stakit.SocketConnection

set_option autoImplicit false

namespace Stakit.SocketConnection
open FiniteMap PubsubTopic TransitionRuns List
open SocketSubscriptions (GroupRef SubRef Ack ErrorBody Frame Seen Group Sub noGroup dropTopic
  gapOf messageOf takesEarly ackMoved earlyPerTopic groupId)

def Carries (opts : Options) (id : ℕ) (text : String) : Prop :=
  ∃ action params, text = opts.stringifyCall id action params

/-- A call frame says its id. -/
def Numbered (opts : Options) : Prop :=
  ∀ id id' text, Carries opts id text → Carries opts id' text → id = id'

def Outgoing.callText : Outgoing → Option String
  | call text => some text
  | _ => none

def Event.callText : Event → Option String
  | sent _ frame => frame.callText
  | _ => none

/-- The call frames written so far, on any socket. -/
def callTexts (c : Conn) : List String := c.trace.filterMap Event.callText

def Waits (c : Conn) (id : ℕ) : Prop := (c.waiters.lookup id).isSome = true

structure Ledger (opts : Options) (c : Conn) : Prop where
  queued : ∀ id text, c.outbox.lookup id = some text → Carries opts id text ∧ Waits c id
  known : ∀ id, Waits c id → id < c.nextId
  written : ∃ ids, List.Forall₂ (Carries opts) ids (callTexts c) ∧ ids.Nodup ∧
    ∀ id ∈ ids, id < c.nextId ∧ c.outbox.lookup id = none

/-- What is written from `c` on is a call that waits in `c` or is new. -/
structure Later (opts : Options) (c c' : Conn) : Prop where
  ids : c.nextId ≤ c'.nextId
  waits : ∀ id, Waits c' id → Waits c id ∨ c.nextId ≤ id
  written : ∃ ids texts, callTexts c' = callTexts c ++ texts ∧
    List.Forall₂ (Carries opts) ids texts ∧ ∀ id ∈ ids, Waits c id ∨ c.nextId ≤ id

/-- From a state whose books are in order. -/
def Keeps (opts : Options) (c c' : Conn) : Prop :=
  Ledger opts c → Ledger opts c' ∧ Later opts c c'

/-- What of a connection matters here. -/
def books (c : Conn) : ℕ × Map ℕ String × Map ℕ Waiter × List String :=
  (c.nextId, c.outbox, c.waiters, callTexts c)

section
variable {opts : Options} {c c' c'' : Conn}

theorem Later.refl (c : Conn) : Later opts c c :=
  ⟨le_refl _, fun _ h => .inl h, [], [], (append_nil _).symm, .nil, fun _ h => absurd h not_mem_nil⟩

theorem Later.trans (a : Later opts c c') (b : Later opts c' c'') : Later opts c c'' := by
  have hback (id : ℕ) (h : Waits c' id ∨ c'.nextId ≤ id) : Waits c id ∨ c.nextId ≤ id := by
    rcases h with hwaits | hnew
    · exact a.waits id hwaits
    · exact .inr (le_trans a.ids hnew)
  obtain ⟨ids, texts, htexts, hids, hall⟩ := a.written
  obtain ⟨ids', texts', htexts', hids', hall'⟩ := b.written
  refine ⟨le_trans a.ids b.ids, fun id h => hback id (b.waits id h), ids ++ ids', texts ++ texts',
    ?_, rel_append hids hids', fun id hid => ?_⟩
  · rw [htexts', htexts, append_assoc]
  · rcases mem_append.mp hid with hfirst | hsecond
    · exact hall id hfirst
    · exact hback id (hall' id hsecond)

theorem Keeps.refl (opts : Options) (c : Conn) : Keeps opts c c := fun h => ⟨h, .refl c⟩

theorem Keeps.trans (a : Keeps opts c c') (b : Keeps opts c' c'') : Keeps opts c c'' := by
  intro h
  obtain ⟨h', hlater⟩ := a h
  obtain ⟨h'', hlater'⟩ := b h'
  exact ⟨h'', hlater.trans hlater'⟩

theorem Keeps.of_same (opts : Options) (h : books c' = books c) : Keeps opts c c' := by
  obtain ⟨hids, houtbox, hwaiters, htexts⟩ : c'.nextId = c.nextId ∧ c'.outbox = c.outbox ∧
      c'.waiters = c.waiters ∧ callTexts c' = callTexts c := by
    simpa only [books, Prod.mk.injEq] using h
  have hwaits (id : ℕ) : Waits c' id ↔ Waits c id := by rw [Waits, Waits, hwaiters]
  intro hledger
  obtain ⟨ids, hforall, hnodup, hall⟩ := hledger.written
  refine ⟨⟨fun id text hid => ?_, fun id hid => ?_, ids, ?_, hnodup, fun id hid => ?_⟩,
    ⟨hids.ge, fun id hid => .inl ((hwaits id).mp hid), [], [], ?_, .nil, fun _ h => absurd h
      not_mem_nil⟩⟩
  · rw [houtbox] at hid
    rw [hwaits]
    exact hledger.queued id text hid
  · rw [hids]
    exact hledger.known id ((hwaits id).mp hid)
  · rw [htexts]
    exact hforall
  · rw [hids, houtbox]
    exact hall id hid
  · rw [htexts, append_nil]

theorem Keeps.after (h : Keeps opts c' c'') (hsame : books c' = books c) : Keeps opts c c'' :=
  (Keeps.of_same opts hsame).trans h

theorem record_texts (c : Conn) (event : Event) :
    callTexts (record c event) = callTexts c ++ event.callText.toList := by
  unfold callTexts record
  rw [filterMap_append]
  cases event with
  | sent socket frame => cases frame <;> rfl
  | _ => rfl

theorem record_other (opts : Options) (c : Conn) (event : Event) (h : event.callText = none) :
    Keeps opts c (record c event) := by
  have htexts := record_texts c event
  rw [h, Option.toList_none, append_nil] at htexts
  refine .of_same opts ?_
  unfold books
  rw [htexts]
  rfl

theorem push_keeps (opts : Options) (c : Conn) (point : Point) : Keeps opts c (push c point) :=
  .of_same opts rfl

theorem write_keeps (opts : Options) (c : Conn) (frame : Outgoing) (h : frame.callText = none) :
    Keeps opts c (write c frame) := by
  unfold write
  cases c.socket with
  | none => exact .refl opts c
  | some socket => exact record_other opts c (.sent socket frame) h

theorem eraseWaiter_keeps (opts : Options) (c : Conn) (id : ℕ) (h : c.outbox.lookup id = none) :
    Keeps opts c { c with waiters := c.waiters.erase id } := by
  have hwaits (other : ℕ) (hother : Waits { c with waiters := c.waiters.erase id } other) :
      Waits c other := by
    unfold Waits at hother ⊢
    rw [lookup_erase_ite] at hother
    split_ifs at hother
    · cases hother
    · exact hother
  intro hledger
  refine ⟨⟨fun other text hother => ?_, fun other hother => hledger.known other (hwaits other hother),
    hledger.written⟩, ⟨le_refl _, fun other hother => .inl (hwaits other hother), [], [],
      (append_nil _).symm, .nil, nofun⟩⟩
  obtain ⟨hcarries, hwaiting⟩ := hledger.queued other text hother
  refine ⟨hcarries, ?_⟩
  unfold Waits at hwaiting ⊢
  rw [lookup_erase_ite, if_neg]
  · exact hwaiting
  · intro hsame
    rw [hsame, h] at hother
    cases hother

def Unwritten (opts : Options) (c : Conn) (id : ℕ) : Prop :=
  ∃ ids, List.Forall₂ (Carries opts) ids (callTexts c) ∧ ids.Nodup ∧ id ∉ ids ∧
    ∀ other ∈ ids, other < c.nextId ∧ c.outbox.lookup other = none

theorem Ledger.unwritten_queued (h : Ledger opts c) {id : ℕ} {text : String}
    (hid : c.outbox.lookup id = some text) : Unwritten opts c id := by
  obtain ⟨ids, hforall, hnodup, hall⟩ := h.written
  refine ⟨ids, hforall, hnodup, fun hin => ?_, hall⟩
  rw [(hall id hin).2] at hid
  cases hid

theorem Ledger.queue (h : Ledger opts c) (id : ℕ) (text : String) (hcarries : Carries opts id text)
    (hwaits : Waits c id) (hunwritten : Unwritten opts c id) :
    Ledger opts { c with outbox := c.outbox.insert id text } := by
  obtain ⟨ids, hforall, hnodup, hfresh, hall⟩ := hunwritten
  refine ⟨fun other text' hother => ?_, h.known, ids, hforall, hnodup, fun other hother => ?_⟩
  · rw [lookup_insert_ite] at hother
    split_ifs at hother with hid
    · cases hother
      rw [hid]
      exact ⟨hcarries, hwaits⟩
    · exact h.queued other text' hother
  · refine ⟨(hall other hother).1, ?_⟩
    rw [lookup_insert_ite, if_neg]
    · exact (hall other hother).2
    · rintro rfl
      exact hfresh hother

theorem Ledger.unqueue (h : Ledger opts c) (id : ℕ) :
    Ledger opts { c with outbox := c.outbox.erase id } := by
  obtain ⟨ids, hforall, hnodup, hall⟩ := h.written
  refine ⟨fun other text hother => ?_, h.known, ids, hforall, hnodup, fun other hother => ?_⟩
  · rw [lookup_erase_ite] at hother
    split_ifs at hother
    exact h.queued other text hother
  · refine ⟨(hall other hother).1, ?_⟩
    rw [lookup_erase_ite]
    split_ifs
    · rfl
    · exact (hall other hother).2

theorem Ledger.write (h : Ledger opts c) (id : ℕ) (text : String) (socket : SocketRef)
    (hcarries : Carries opts id text) (hknown : id < c.nextId)
    (houtbox : c.outbox.lookup id = none) (hunwritten : Unwritten opts c id) :
    Ledger opts (record c (.sent socket (.call text))) := by
  obtain ⟨ids, hforall, hnodup, hfresh, hall⟩ := hunwritten
  have htexts : callTexts (record c (.sent socket (.call text))) = callTexts c ++ [text] :=
    record_texts c _
  refine ⟨h.queued, h.known, ids ++ [id], ?_, ?_, fun other hother => ?_⟩
  · rw [htexts]
    exact rel_append hforall (.cons hcarries .nil)
  · exact nodup_append.mpr ⟨hnodup, nodup_singleton id, fun a ha b hb hab =>
      hfresh (by rw [← mem_singleton.mp hb, ← hab]; exact ha)⟩
  · rcases mem_append.mp hother with hold | hnew
    · exact hall other hold
    · rw [mem_singleton.mp hnew]
      exact ⟨hknown, houtbox⟩

theorem Later.write (id : ℕ) (text : String) (socket : SocketRef) (hcarries : Carries opts id text)
    (hwaits : Waits c id) : Later opts c (record c (.sent socket (.call text))) :=
  ⟨le_refl _, fun _ h => .inl h, [id], [text], record_texts c _, .cons hcarries .nil,
    fun other hother => by rw [mem_singleton.mp hother]; exact .inl hwaits⟩

theorem drop_keeps (opts : Options) (c : Conn) (id : ℕ) :
    Keeps opts c { c with waiters := c.waiters.erase id, outbox := c.outbox.erase id } := by
  intro hledger
  have hgone : ({ c with outbox := c.outbox.erase id } : Conn).outbox.lookup id = none := by
    rw [lookup_erase_ite, if_pos rfl]
  obtain ⟨hledger', hlater⟩ := eraseWaiter_keeps opts { c with outbox := c.outbox.erase id } id hgone
    (hledger.unqueue id)
  exact ⟨hledger', hlater.ids, hlater.waits, hlater.written⟩

theorem number_keeps (opts : Options) (c : Conn) (waiter : Waiter) : Keeps opts c { c with
      nextId := c.nextId + 1
      waiters := c.waiters.insert c.nextId waiter } := by
  intro hledger
  obtain ⟨ids, hforall, hnodup, hall⟩ := hledger.written
  have hwaits (id : ℕ) (h : ((c.waiters.insert c.nextId waiter).lookup id).isSome = true) :
      Waits c id ∨ id = c.nextId := by
    rw [lookup_insert_ite] at h
    by_cases hid : id = c.nextId
    · exact .inr hid
    · rw [if_neg hid] at h
      exact .inl h
  refine ⟨⟨fun id text hid => ?_, fun id hid => ?_, ids, hforall, hnodup, fun id hid => ?_⟩,
    ⟨Nat.le_succ _, fun id hid => ?_, [], [], (append_nil _).symm, .nil, nofun⟩⟩
  · obtain ⟨hcarries, hwaiting⟩ := hledger.queued id text hid
    refine ⟨hcarries, ?_⟩
    unfold Waits at hwaiting ⊢
    rw [lookup_insert_ite]
    split_ifs
    · rfl
    · exact hwaiting
  · rcases hwaits id hid with hold | hnew
    · exact Nat.lt_succ_of_lt (hledger.known id hold)
    · rw [hnew]
      exact Nat.lt_succ_self _
  · exact ⟨Nat.lt_succ_of_lt (hall id hid).1, (hall id hid).2⟩
  · rcases hwaits id hid with hold | hnew
    · exact .inl hold
    · exact .inr hnew.ge

theorem skipId_keeps (opts : Options) (c : Conn) : Keeps opts c { c with nextId := c.nextId + 1 } := by
  intro hledger
  obtain ⟨ids, hforall, hnodup, hall⟩ := hledger.written
  refine ⟨⟨hledger.queued, fun id hid => Nat.lt_succ_of_lt (hledger.known id hid), ids, hforall,
    hnodup, fun id hid => ⟨Nat.lt_succ_of_lt (hall id hid).1, (hall id hid).2⟩⟩,
    ⟨Nat.le_succ _, fun _ h => .inl h, [], [], (append_nil _).symm, .nil, nofun⟩⟩

theorem enqueue_keeps (opts : Options) (c : Conn) (waiter : Waiter) (action : String)
    (params : Value) :
    Keeps opts c (enqueue { c with
      nextId := c.nextId + 1
      waiters := c.waiters.insert c.nextId waiter } c.nextId
        (opts.stringifyCall c.nextId action params)) := by
  intro hledger
  obtain ⟨hnumbered, hlater⟩ := number_keeps opts c waiter hledger
  have hcarries : Carries opts c.nextId (opts.stringifyCall c.nextId action params) :=
    ⟨action, params, rfl⟩
  have hwaits : Waits { c with
      nextId := c.nextId + 1
      waiters := c.waiters.insert c.nextId waiter } c.nextId := by
    unfold Waits
    rw [lookup_insert_ite, if_pos rfl]
    rfl
  have hunwritten : Unwritten opts { c with
      nextId := c.nextId + 1
      waiters := c.waiters.insert c.nextId waiter } c.nextId := by
    obtain ⟨ids, hforall, hnodup, hall⟩ := hledger.written
    exact ⟨ids, hforall, hnodup, fun hin => absurd (hall _ hin).1 (lt_irrefl _),
      fun other hother => ⟨Nat.lt_succ_of_lt (hall other hother).1, (hall other hother).2⟩⟩
  have hunqueued : c.outbox.lookup c.nextId = none := by
    cases hlookup : c.outbox.lookup c.nextId with
    | none => rfl
    | some text =>
      exact absurd (hledger.known _ (hledger.queued _ text hlookup).2) (lt_irrefl _)
  unfold enqueue
  split_ifs
  · unfold SocketConnection.write
    split
    · exact ⟨hnumbered, hlater⟩
    · exact ⟨hnumbered.write c.nextId _ _ hcarries (Nat.lt_succ_self _) hunqueued hunwritten,
        hlater.trans (Later.write c.nextId _ _ hcarries hwaits)⟩
  · exact ⟨hnumbered.queue c.nextId _ hcarries hwaits hunwritten,
      hlater.ids, hlater.waits, hlater.written⟩

theorem flushOne_outbox (c : Conn) (entry : Sigma fun _ : ℕ => String) :
    (flushOne c entry).outbox = c.outbox.erase entry.1 := by
  unfold flushOne SocketConnection.write
  split <;> rfl

theorem flushOne_keeps (opts : Options) {c : Conn} {entry : Sigma fun _ : ℕ => String}
    (h : c.outbox.lookup entry.1 = some entry.2) : Keeps opts c (flushOne c entry) := by
  intro hledger
  obtain ⟨hcarries, hwaits⟩ := hledger.queued entry.1 entry.2 h
  have hunqueued := hledger.unqueue entry.1
  have hlater : Later opts c { c with outbox := c.outbox.erase entry.1 } :=
    ⟨le_refl _, fun _ h => .inl h, [], [], (append_nil _).symm, .nil, nofun⟩
  have hgone : ({ c with outbox := c.outbox.erase entry.1 } : Conn).outbox.lookup entry.1 =
      none := by
    rw [lookup_erase_ite, if_pos rfl]
  have hunwritten : Unwritten opts { c with outbox := c.outbox.erase entry.1 } entry.1 := by
    obtain ⟨ids, hforall, hnodup, hfresh, hall⟩ := hledger.unwritten_queued h
    refine ⟨ids, hforall, hnodup, hfresh, fun other hother => ⟨(hall other hother).1, ?_⟩⟩
    rw [lookup_erase_ite]
    split_ifs
    · rfl
    · exact (hall other hother).2
  unfold flushOne SocketConnection.write
  split
  · exact ⟨hunqueued, hlater⟩
  · exact ⟨hunqueued.write entry.1 entry.2 _ hcarries (hledger.known _ hwaits) hgone hunwritten,
      hlater.trans (Later.write entry.1 entry.2 _ hcarries hwaits)⟩

theorem flushAll_keeps (opts : Options) (c : Conn) (entries : List (Sigma fun _ : ℕ => String))
    (hdistinct : (entries.map Sigma.fst).Nodup)
    (h : ∀ entry ∈ entries, c.outbox.lookup entry.1 = some entry.2) :
    Keeps opts c (entries.foldl flushOne c) := by
  induction entries generalizing c with
  | nil => exact .refl opts c
  | cons entry rest ih =>
    rw [map_cons, nodup_cons] at hdistinct
    refine (flushOne_keeps opts (h entry mem_cons_self)).trans
      (ih _ hdistinct.2 fun later hlater => ?_)
    have hother : later.1 ≠ entry.1 := fun hsame =>
      hdistinct.1 (hsame ▸ mem_map_of_mem hlater)
    rw [flushOne_outbox, lookup_erase_ite, if_neg hother]
    exact h later (mem_cons_of_mem entry hlater)

theorem flush_keeps (opts : Options) (c : Conn) : Keeps opts c (flush c) := by
  refine flushAll_keeps opts c _ ?_ fun entry hentry => ?_
  · rw [map_reverse]
    exact nodup_reverse.mpr c.outbox.nodupKeys
  · exact (mem_entries_iff c.outbox entry.1 entry.2).mp (mem_reverse.mp hentry)

theorem failSent_lookup (c : Conn) (id : ℕ) : (failSent c).waiters.lookup id =
    if (c.outbox.lookup id).isSome then c.waiters.lookup id else none := by
  have hfold (keys : List ℕ) (waiters : Map ℕ Waiter) :
      (keys.foldl (fun waiters id => if (c.outbox.lookup id).isSome then waiters
        else waiters.erase id) waiters).lookup id =
        if id ∈ keys ∧ (c.outbox.lookup id).isSome = false then none else waiters.lookup id := by
    induction keys generalizing waiters with
    | nil => simp
    | cons key rest ih =>
      rw [foldl_cons, ih]
      by_cases hkey : id = key
      · subst hkey
        cases hqueued : (c.outbox.lookup id).isSome <;> simp
      · by_cases hqueued : (c.outbox.lookup key).isSome = true
        · simp [hkey, hqueued]
        · simp [hkey, hqueued]
  unfold failSent
  rw [hfold]
  by_cases hqueued : (c.outbox.lookup id).isSome = true
  · simp [hqueued]
  · rw [if_neg hqueued]
    by_cases hkey : id ∈ c.waiters.keys
    · rw [if_pos ⟨hkey, by simpa using hqueued⟩]
    · rw [if_neg fun h => hkey h.1]
      exact AList.lookup_eq_none.mpr fun h => hkey (AList.mem_keys.mp h)

theorem failSent_keeps (opts : Options) (c : Conn) : Keeps opts c (failSent c) := by
  have hwaits (id : ℕ) (h : Waits (failSent c) id) : Waits c id := by
    unfold Waits at h ⊢
    rw [failSent_lookup] at h
    split_ifs at h
    · exact h
    · cases h
  intro hledger
  refine ⟨⟨fun id text hid => ?_, fun id hid => hledger.known id (hwaits id hid), hledger.written⟩,
    ⟨le_refl _, fun id hid => .inl (hwaits id hid), [], [], (append_nil _).symm, .nil, nofun⟩⟩
  have hqueued : c.outbox.lookup id = some text := hid
  obtain ⟨hcarries, hwaiting⟩ := hledger.queued id text hqueued
  refine ⟨hcarries, ?_⟩
  unfold Waits at hwaiting ⊢
  rw [failSent_lookup, hqueued, Option.isSome_some, if_pos rfl]
  exact hwaiting

theorem forget_keeps (opts : Options) (c : Conn) : Keeps opts c (forget c) := by
  have hnone (id : ℕ) : ¬Waits (forget c) id := nofun
  have hempty (id : ℕ) : (forget c).outbox.lookup id = none := rfl
  intro hledger
  obtain ⟨ids, hforall, hnodup, hall⟩ := hledger.written
  refine ⟨⟨fun id text h => ?_, fun id h => absurd h (hnone id), ids, hforall, hnodup,
    fun id hid => ⟨(hall id hid).1, hempty id⟩⟩, ⟨le_refl _, fun id h => absurd h (hnone id), [], [],
      (append_nil _).symm, .nil, nofun⟩⟩
  rw [hempty] at h
  cases h

end

theorem setStatus_keeps (opts : Options) (c : Conn) (next : Status) :
    Keeps opts c (setStatus c next) := by
  unfold setStatus
  split_ifs
  · exact .refl opts c
  · exact (record_other opts c (.status next) rfl).trans (.of_same opts rfl)

theorem request_keeps (opts : Options) (c : Conn) (frame : ℕ → Outgoing) (waiter : Waiter)
    (h : (frame c.nextId).callText = none) : Keeps opts c (request c frame waiter) :=
  (number_keeps opts c waiter).trans (write_keeps opts _ _ h)

theorem sendGroup_keeps (opts : Options) (c : Conn) (g : GroupRef) : Keeps opts c (sendGroup c g) :=
  (request_keeps opts _ _ _ rfl).after rfl

theorem writeUnsubscribe_keeps (opts : Options) (c : Conn) (topic : Topic) :
    Keeps opts c (writeUnsubscribe c topic) :=
  (skipId_keeps opts c).trans (write_keeps opts _ _ rfl)

theorem delivered_keeps (opts : Options) (c : Conn) (frame : Frame) :
    Keeps opts c (delivered opts c frame) := by
  unfold delivered
  split_ifs
  · exact .of_same opts rfl
  · exact .refl opts c

theorem onPublish_keeps (opts : Options) (c : Conn) (frame : Frame) :
    Keeps opts c (onPublish opts c frame) := by
  unfold onPublish
  dsimp only
  split
  · unfold onUnclaimed
    dsimp only
    split_ifs
    · exact delivered_keeps opts c frame
    · exact .of_same opts rfl
    · exact .refl opts c
    · exact .refl opts c
  · exact (delivered_keeps opts _ frame).after rfl

theorem takeAck_keeps (opts : Options) (c : Conn) (g : GroupRef) (ack : Ack) :
    Keeps opts c (takeAck c g ack) := by
  have hplaced : Keeps opts c (push (placeAck c g ack) (.acking ack)) :=
    (push_keeps opts (placeAck c g ack) (.acking ack)).after rfl
  unfold takeAck
  dsimp only
  split_ifs
  · exact hplaced.trans (push_keeps opts _ _)
  · exact hplaced

theorem onAck_keeps (opts : Options) (c : Conn) (g : GroupRef) (frame : Frame) :
    Keeps opts c (onAck c g frame) := by
  unfold onAck
  dsimp only
  split
  · exact .of_same opts rfl
  · split
    · exact .of_same opts rfl
    · split
      · exact .of_same opts rfl
      · split
        · split
          · exact (writeUnsubscribe_keeps opts _ _).after rfl
          · exact .of_same opts rfl
        · exact (takeAck_keeps opts _ g _).after rfl

theorem onReset_keeps (opts : Options) (c : Conn) (frame : Frame) :
    Keeps opts c (onReset c frame) := by
  unfold onReset
  split
  · exact .of_same opts rfl
  · exact .refl opts c

theorem onUnsubscribed_keeps (opts : Options) (c : Conn) (frame : Frame) :
    Keeps opts c (onUnsubscribed c frame) := by
  unfold onUnsubscribed
  split
  · exact .refl opts c
  · dsimp only
    split_ifs
    · exact .of_same opts rfl
    · exact .of_same opts rfl

theorem resubscribe_keeps (opts : Options) (c : Conn) : Keeps opts c (resubscribe c) := by
  refine run_relates resubscribeOne (Keeps opts) (.refl opts) (fun _ _ _ => .trans) ?_ c (groupRefs c)
  intro c g
  unfold resubscribeOne
  split_ifs
  · exact .of_same opts rfl
  · exact sendGroup_keeps opts c g

theorem subscribe_keeps (opts : Options) (c : Conn) (channel : String) (key : Value) :
    Keeps opts c (subscribe opts c channel key) := by
  unfold subscribe
  dsimp only
  split
  · exact .of_same opts rfl
  · split_ifs
    · exact (sendGroup_keeps opts _ _).after rfl
    · exact .of_same opts rfl

theorem unsubscribe_keeps (opts : Options) (c : Conn) (sub : SubRef) :
    Keeps opts c (unsubscribe c sub) := by
  unfold unsubscribe
  dsimp only
  split
  · split
    · exact .of_same opts rfl
    · split
      · exact .of_same opts rfl
      · split
        · exact .of_same opts rfl
        · split
          · exact (writeUnsubscribe_keeps opts _ _).after rfl
          · exact .of_same opts rfl
  · exact .refl opts c

theorem disconnect_keeps (opts : Options) (c : Conn) (next : Status) :
    Keeps opts c (disconnect c next) :=
  (setStatus_keeps opts _ next).after rfl

theorem stop_keeps (opts : Options) (c : Conn) : Keeps opts c (stop c) :=
  (disconnect_keeps opts _ .closed).after rfl

theorem dropSocket_keeps (opts : Options) (c : Conn) : Keeps opts c (dropSocket c) :=
  ((failSent_keeps opts _).after rfl).trans (.of_same opts rfl)

theorem lost_keeps (opts : Options) (c : Conn) (code : Option ℕ) :
    Keeps opts c (lost opts c code) := by
  refine (dropSocket_keeps opts c).trans ?_
  unfold lost
  dsimp only
  split_ifs
  · exact .refl opts _
  · exact stop_keeps opts _
  · exact (setStatus_keeps opts _ _).after rfl

theorem openSocket_keeps (opts : Options) (c : Conn) : Keeps opts c (openSocket c) :=
  (setStatus_keeps opts _ _).after rfl

theorem runFactory_keeps (opts : Options) (c : Conn) (opens : Bool) :
    Keeps opts c (runFactory c opens) := by
  have hcalled : Keeps opts c (record { c with ready := false } .factory) :=
    (record_other opts { c with ready := false } .factory rfl).after rfl
  unfold runFactory
  dsimp only
  split_ifs
  · exact hcalled.trans (.of_same opts rfl)
  · exact hcalled.trans (.of_same opts rfl)

theorem becomeReady_keeps (opts : Options) (c : Conn) : Keeps opts c (becomeReady c) :=
  (setStatus_keeps opts _ _).after rfl

theorem goLive_keeps (opts : Options) (c : Conn) : Keeps opts c (goLive c) := by
  have hlive : Keeps opts c { flush (resubscribe c) with everReady := true } :=
    ((resubscribe_keeps opts c).trans (flush_keeps opts _)).trans (.of_same opts rfl)
  unfold goLive
  dsimp only
  split_ifs
  · exact hlive.trans (.of_same opts rfl)
  · exact hlive

theorem authResult_keeps (opts : Options) (c : Conn) (incoming : Incoming) :
    Keeps opts c (authResult opts c incoming) := by
  unfold authResult
  split_ifs
  · exact becomeReady_keeps opts c
  · exact .of_same opts rfl
  · exact lost_keeps opts c none

theorem onResult_keeps (opts : Options) {c : Conn} {id : ℕ} (waiter : Waiter)
    (incoming : Incoming) (h : c.outbox.lookup id = none) :
    Keeps opts c (onResult opts c id waiter incoming) := by
  unfold onResult
  dsimp only
  generalize hkept : (if (waiter.once || incoming.frame.failed || !incoming.more) = true then
    { c with waiters := c.waiters.erase id } else c) = kept
  have hsame : Keeps opts c kept := by
    rw [← hkept]
    split_ifs
    · exact eraseWaiter_keeps opts c id h
    · exact .refl opts c
  cases waiter with
  | auth => exact hsame.trans (authResult_keeps opts kept incoming)
  | subscribe g => exact hsame.trans (onAck_keeps opts kept g incoming.frame)
  | call | stream => exact hsame

def AnswersSent (c : Conn) (incoming : Incoming) : Prop :=
  incoming.frame.kind = .result ∨ incoming.frame.kind = .finish →
    ∀ id, incoming.frame.id = some id → c.outbox.lookup id = none

theorem handleFrame_keeps (opts : Options) (c : Conn) (incoming : Incoming)
    (h : AnswersSent c incoming) : Keeps opts c (handleFrame opts c incoming) := by
  unfold AnswersSent at h
  unfold handleFrame
  cases hkind : incoming.frame.kind with
  | ping => exact write_keeps opts c _ rfl
  | result =>
    dsimp only
    split
    · exact .refl opts c
    · next id waiter hfound =>
      obtain ⟨known, hknown, hwaiter⟩ := Option.bind_eq_some_iff.mp hfound
      obtain ⟨_, _, hpair⟩ := Option.map_eq_some_iff.mp hwaiter
      rw [(Prod.mk.inj hpair).1] at hknown
      exact onResult_keeps opts waiter incoming (h (.inl hkind) id hknown)
  | finish =>
    dsimp only
    split
    · exact .refl opts c
    · next id hid => exact eraseWaiter_keeps opts c id (h (.inr hkind) id hid)
  | clientCall =>
    dsimp only
    unfold onClientCall
    split_ifs
    · exact .of_same opts rfl
    · exact write_keeps opts c _ rfl
  | publish => exact onPublish_keeps opts c _
  | reset => exact onReset_keeps opts c _
  | unsubscribed => exact onUnsubscribed_keeps opts c _
  | unknown => exact .refl opts c

theorem send_keeps (opts : Options) (c : Conn) (params : List (String × Value)) :
    Keeps opts c (send opts c params) := by
  unfold send
  split_ifs
  · exact .refl opts c
  · exact run_relates (sendOne opts) (Keeps opts) (.refl opts) (fun _ _ _ => .trans)
      (fun c entry => enqueue_keeps opts c .stream entry.1 entry.2) c params

theorem call_keeps (opts : Options) (c : Conn) (action : String) (params : Value) :
    Keeps opts c (call opts c action params) := by
  unfold call
  dsimp only
  split_ifs
  · exact .refl opts c
  · exact skipId_keeps opts c
  · exact enqueue_keeps opts c .call action params

theorem invoke_keeps (opts : Options) (c : Conn) (method : Method) :
    Keeps opts c (invoke opts c method) := by
  cases method with
  | send params => exact send_keeps opts c params
  | call action params => exact call_keeps opts c action params
  | subscribe channel key => exact subscribe_keeps opts c channel key
  | unsubscribe sub => exact unsubscribe_keeps opts c sub
  | pause =>
    dsimp only [invoke, pause]
    split_ifs
    · exact disconnect_keeps opts c .paused
    · exact .refl opts c
  | resume =>
    dsimp only [invoke, resume]
    split_ifs
    · exact .refl opts c
    · exact .refl opts c
    · exact (lost_keeps opts _ none).after rfl
    · exact .refl opts c
    · exact .of_same opts rfl
  | close => exact (stop_keeps opts _).after rfl

theorem returned_keeps (opts : Options) (c : Conn) (throws : Bool) (callback : Callback) :
    Keeps opts c (returned c throws callback) := by
  unfold returned
  split
  · split_ifs
    · exact .of_same opts rfl
    · exact .of_same opts rfl
  · split_ifs
    · exact .of_same opts rfl
    · exact .of_same opts rfl
  · exact .refl opts c
  · split_ifs
    · exact .of_same opts rfl
    · exact .refl opts c

theorem proceed_keeps (opts : Options) (c : Conn) (opens : Bool) (point : Point) :
    Keeps opts c (proceed opts c opens point) := by
  cases point with
  | user _ => exact .refl opts c
  | scheduling => exact .of_same opts rfl
  | opening => exact runFactory_keeps opts c opens
  | refused => exact (setStatus_keeps opts _ _).after rfl
  | becomingReady => exact goLive_keeps opts c
  | disconnecting => exact lost_keeps opts c _
  | stopping => exact forget_keeps opts c
  | closing => exact record_other opts c .closeReturned rfl
  | resuming => exact openSocket_keeps opts c
  | rejected => exact stop_keeps opts c
  | authFailed socket =>
    dsimp only [proceed]
    split_ifs
    · exact lost_keeps opts c none
    · exact .refl opts c
  | answering id => exact write_keeps opts c _ rfl
  | telling subs seen =>
    cases subs with
    | nil => exact .refl opts c
    | cons sub rest => exact .of_same opts rfl
  | publishing g seen | acking ack => exact .of_same opts rfl
  | replaying frames =>
    cases frames with
    | nil => exact .refl opts c
    | cons frame rest => exact (onPublish_keeps opts _ frame).after rfl
  | resubscribing g =>
    dsimp only [proceed]
    split_ifs
    · exact sendGroup_keeps opts c g
    · exact .refl opts c

/-- No `result` or `end` frame comes with the id of a call that is still queued. -/
def NoneQueuedAnswered (c : Conn) : Act → Prop
  | .occur (.message _ (some incoming)) => AnswersSent c incoming
  | _ => True

theorem occur_keeps (opts : Options) {c : Conn} {occurrence : Occurrence}
    (h : NoneQueuedAnswered c (.occur occurrence)) : Keeps opts c (occur opts c occurrence) := by
  cases occurrence with
  | opened socket =>
    dsimp only [occur]
    split_ifs
    · unfold onopen authenticate
      split_ifs
      · exact .of_same opts rfl
      · exact (becomeReady_keeps opts _).after rfl
    · exact .refl opts c
  | message socket incoming =>
    dsimp only [occur]
    split_ifs
    · cases incoming with
      | none => exact .of_same opts rfl
      | some incoming => exact (handleFrame_keeps opts { c with lastInbound := c.now } incoming h).after rfl
    · exact .refl opts c
  | closed socket code =>
    dsimp only [occur]
    split_ifs
    · exact lost_keeps opts c code
    · exact .refl opts c
  | reconnect timer =>
    dsimp only [occur]
    split_ifs
    · exact (openSocket_keeps opts _).after rfl
    · exact .refl opts c
  | watchdog timer =>
    dsimp only [occur, checkLiveness]
    split_ifs
    · exact lost_keeps opts c none
    · exact .refl opts c
    · exact .refl opts c
  | callTimeout id =>
    dsimp only [occur]
    split_ifs
    · exact drop_keeps opts c id
    · exact .refl opts c
  | authSettled socket fails =>
    dsimp only [occur]
    split_ifs
    · exact .of_same opts rfl
    · exact (request_keeps opts _ _ _ rfl).after rfl
    · exact .of_same opts rfl
    · exact .refl opts c
  | actionSettled id fails =>
    dsimp only [occur]
    split_ifs
    · exact .of_same opts rfl
    · exact (write_keeps opts _ _ rfl).after rfl
    · exact .refl opts c
  | tick elapsed => exact .of_same opts rfl

theorem step_keeps (opts : Options) (c : Conn) (a : Act) (h : NoneQueuedAnswered c a) :
    Keeps opts c (step opts c a) := by
  unfold step
  split
  · exact occur_keeps opts h
  · exact invoke_keeps opts c _
  · exact invoke_keeps opts c _
  · exact (returned_keeps opts _ _ _).after rfl
  · exact .refl opts c
  · exact (proceed_keeps opts _ _ _).after rfl
  · exact .refl opts c

theorem run_keeps (opts : Options) (c : Conn) (acts : List Act)
    (h : Meets (step opts) NoneQueuedAnswered c acts) : Keeps opts c (run (step opts) c acts) := by
  induction acts generalizing c with
  | nil => exact .refl opts c
  | cons a acts ih => exact (step_keeps opts c a h.1).trans (ih _ h.2)

theorem connectSocket_ledger (opts : Options) : Ledger opts connectSocket := by
  have hnone (id : ℕ) : ¬Waits connectSocket id := nofun
  have hempty (id : ℕ) : connectSocket.outbox.lookup id = none := rfl
  refine ⟨fun id text h => ?_, fun id h => absurd h (hnone id), [], .nil, nodup_nil, nofun⟩
  rw [hempty] at h
  cases h

/-- The outbox holds calls that wait, no call is written twice, and once the connection is lost no
call that was written waits. -/
structure CallsInOrder (opts : Options) (c : Conn) : Prop where
  queued : ∀ id text, c.outbox.lookup id = some text → Waits c id
  once : (callTexts c).Pairwise fun earlier later =>
    ∀ id, Carries opts id earlier → ¬Carries opts id later
  lost : ∀ code id, (∃ text ∈ callTexts c, Carries opts id text) → ¬Waits (lost opts c code) id

theorem Ledger.once {opts : Options} {c : Conn} (h : Ledger opts c) (hnumbered : Numbered opts) :
    (callTexts c).Pairwise fun earlier later =>
      ∀ id, Carries opts id earlier → ¬Carries opts id later := by
  obtain ⟨ids, hforall, hnodup, -⟩ := h.written
  generalize callTexts c = texts at hforall
  induction hforall with
  | nil => exact .nil
  | @cons id text ids texts hcarries hrest ih =>
    rw [nodup_cons] at hnodup
    refine .cons (fun later hlater other hfirst hsecond => ?_) (ih hnodup.2)
    obtain ⟨lateId, hlate, hlateCarries⟩ : ∃ lateId ∈ ids, Carries opts lateId later := by
      obtain ⟨n, hn, rfl⟩ := getElem_of_mem hlater
      have hn' : n < ids.length := by rw [hrest.length_eq]; exact hn
      exact ⟨ids.get ⟨n, hn'⟩, get_mem ids ⟨n, hn'⟩, hrest.get hn' hn⟩
    have hsame : id = lateId :=
      (hnumbered _ _ _ hcarries hfirst).trans (hnumbered _ _ _ hsecond hlateCarries)
    exact hnodup.1 (hsame ▸ hlate)

theorem lost_waits {opts : Options} {c : Conn} {code : Option ℕ} {id : ℕ}
    (h : Waits (lost opts c code) id) : (c.outbox.lookup id).isSome = true := by
  have hstatus (c : Conn) (next : Status) : (setStatus c next).waiters = c.waiters := by
    unfold setStatus
    split_ifs <;> rfl
  have hwaiters : (lost opts c code).waiters = (dropSocket c).waiters := by
    unfold lost
    dsimp only
    split_ifs
    · rfl
    · exact hstatus _ _
    · exact hstatus _ _
  have hdropped : (dropSocket c).waiters = (failSent c).waiters := rfl
  unfold Waits at h
  rw [hwaiters, hdropped, failSent_lookup] at h
  split_ifs at h with hqueued
  · exact hqueued
  · cases h

theorem Ledger.inOrder {opts : Options} {c : Conn} (h : Ledger opts c) (hnumbered : Numbered opts) :
    CallsInOrder opts c := by
  refine ⟨fun id text hid => (h.queued id text hid).2, h.once hnumbered, ?_⟩
  rintro code id ⟨text, htext, hcarries⟩ hwaits
  obtain ⟨ids, hforall, -, hall⟩ := h.written
  obtain ⟨n, hn, rfl⟩ := getElem_of_mem htext
  have hn' : n < ids.length := by rw [hforall.length_eq]; exact hn
  have hsame : ids.get ⟨n, hn'⟩ = id := hnumbered _ _ _ (hforall.get hn' hn) hcarries
  have hnone := (hall _ (get_mem ids ⟨n, hn'⟩)).2
  rw [hsame] at hnone
  have hqueued := lost_waits hwaits
  rw [hnone] at hqueued
  cases hqueued

/-- In every run in which no frame answers a call that is still queued, the calls stay in order;
and what a run writes are calls that wait where it begins or are made in it, so that a call that has
settled is never written. -/
theorem calls_in_order (opts : Options) (hnumbered : Numbered opts) (before after : List Act)
    (h : Meets (step opts) NoneQueuedAnswered connectSocket (before ++ after)) :
    CallsInOrder opts (run (step opts) connectSocket before) ∧
      ∃ texts, callTexts (run (step opts) connectSocket (before ++ after)) =
        callTexts (run (step opts) connectSocket before) ++ texts ∧
        ∀ text ∈ texts, ∀ id, Carries opts id text →
          Waits (run (step opts) connectSocket before) id ∨
            (run (step opts) connectSocket before).nextId ≤ id := by
  rw [meets_append] at h
  obtain ⟨hledger, -⟩ := run_keeps opts connectSocket before h.1 (connectSocket_ledger opts)
  obtain ⟨-, hlater⟩ := run_keeps opts _ after h.2 hledger
  obtain ⟨ids, texts, htexts, hforall, hall⟩ := hlater.written
  refine ⟨hledger.inOrder hnumbered, texts, by rw [run_append]; exact htexts, ?_⟩
  intro text htext id hcarries
  obtain ⟨n, hn, rfl⟩ := getElem_of_mem htext
  have hn' : n < ids.length := by rw [hforall.length_eq]; exact hn
  have hsame : ids.get ⟨n, hn'⟩ = id := hnumbered _ _ _ (hforall.get hn' hn) hcarries
  rw [← hsame]
  exact hall _ (get_mem ids ⟨n, hn'⟩)

def greetText (id : ℕ) (action : String) : List Char :=
  "\x7b\"kind\":\"call\",\"id\":".toList ++ (Nat.toDigits 10 id ++
    (',' :: ("\"action\":\"".toList ++ action.toList ++
      "\",\"params\":\x7b\"name\":\"x\"\x7d\x7d".toList)))

def greetOptions : Options where
  stableKey _ := ""
  stringifyCall id action _ := String.ofList (greetText id action)
  auth := true
  reconnect := true
  liveness := 60000
  maxFrame := 65536
  handlers _ := false
  publishHandlers _ := false

theorem greetOptions_numbered : Numbered greetOptions := by
  rintro id id' text ⟨action, params, h⟩ ⟨action', params', h'⟩
  have htexts : greetText id action = greetText id' action' :=
    String.ofList_injective (h.symm.trans h')
  have hdigits := append_cancel_left htexts
  have hdigit : ∀ n : ℕ, ∀ c ∈ Nat.toDigits 10 n, c.isDigit = true := JsonText.toDigits_isDigit
  have htake (n : ℕ) (rest : List Char) :
      (Nat.toDigits 10 n ++ ',' :: rest).takeWhile Char.isDigit = Nat.toDigits 10 n := by
    rw [takeWhile_append_of_pos (hdigit n), takeWhile_cons_of_neg (by decide), append_nil]
  have hsame : Nat.toDigits 10 id = Nat.toDigits 10 id' := by
    rw [← htake id, hdigits, htake id']
  have hvalue := congrArg (fun digits => Nat.ofDigitChars 10 digits 0) hsame
  simpa only [Nat.ofDigitChars_ten_toDigits] using hvalue

def resultFrame (id : ℕ) : Incoming :=
  ⟨⟨.result, some id, none, none, false, none, ⟨0, ""⟩, none, none, none, none⟩, false, 500⟩

/-- A socket opens, `auth` asks for credentials, and a call is made before they are accepted. -/
def queuedGreeting : List Act :=
  [.proceed true, .occur (.opened 0), .return false, .occur (.authSettled 0 false),
    .invoke (.call "greet" (.object [("name", .string "x")]))]

def accepted : List Act :=
  [.occur (.message 0 (some (resultFrame 1))), .return false, .proceed true]

theorem calls_in_order_greeting : ∃ texts,
    callTexts (run (step greetOptions) connectSocket (queuedGreeting ++ accepted)) =
      callTexts (run (step greetOptions) connectSocket queuedGreeting) ++ texts := by
  have hmeets : Meets (step greetOptions) NoneQueuedAnswered connectSocket
      (queuedGreeting ++ accepted) := by
    refine ⟨trivial, trivial, trivial, trivial, trivial, ?_, trivial, trivial, trivial⟩
    intro _ id hid
    cases hid
    rfl
  obtain ⟨-, texts, htexts, -⟩ := calls_in_order greetOptions greetOptions_numbered queuedGreeting
    accepted hmeets
  exact ⟨texts, htexts⟩

/-- A result with the id of the queued call settles it; its frame is written all the same. -/
theorem settled_call_written : ¬CallsInOrder greetOptions (run (step greetOptions) connectSocket
      (queuedGreeting ++ [.occur (.message 0 (some (resultFrame 2)))])) ∧
    callTexts (run (step greetOptions) connectSocket
      (queuedGreeting ++ [.occur (.message 0 (some (resultFrame 2)))] ++ accepted)) =
        [String.ofList (greetText 2 "greet")] := by
  refine ⟨fun h => ?_, rfl⟩
  have hwaits := h.queued 2 (String.ofList (greetText 2 "greet")) rfl
  cases hwaits

end Stakit.SocketConnection
