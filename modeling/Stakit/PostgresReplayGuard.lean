import Mathlib.Data.List.Chain
import Mathlib.Data.List.TakeDrop
import Stakit.PostgresBroker
import Stakit.TransitionRuns

set_option autoImplicit false

namespace Stakit.PostgresBroker
open FiniteMap RouterError TransitionRuns
open List (append_assoc append_nil cons_append dropLast_concat dropWhile_append_of_pos
  forall_mem_append forall_mem_singleton isChain_append isChain_cons_cons length_replicate
  mem_append mem_flatMap mem_singleton rel_append singleton_append takeWhile_append_of_pos
  take_append_drop)

/-- What the guard asks of a counter after another: above it, or the count has
wrapped. -/
def Follows (last counter : ℕ) : Prop := last < counter ∨ last = u64Max

/-- The receiver's mark after the counters it accepted. -/
def mark (handled : List ℕ) : ℕ := (handled.getLast?.map addOne).getD 0

theorem isChain_snoc (counters : List ℕ) (counter : ℕ) : (counters ++ [counter]).IsChain Follows ↔
      counters.IsChain Follows ∧ ∀ last ∈ counters.getLast?, Follows last counter := by
  rw [isChain_append]
  simp

theorem addOne_le_iff {last : ℕ} (counter : ℕ) (hlast : last ≤ u64Max) :
    addOne last ≤ counter ↔ Follows last counter := by
  unfold addOne Follows
  by_cases htop : last = u64Max
  · rw [htop, Nat.mod_self]
    simp
  · rw [Nat.mod_eq_of_lt (by omega)]
    omega

theorem mark_le_iff {handled : List ℕ} (hall : ∀ last ∈ handled, last ≤ u64Max) (counter : ℕ) :
    mark handled ≤ counter ↔ ∀ last ∈ handled.getLast?, Follows last counter := by
  unfold mark
  cases hlast : handled.getLast? with
  | none => simp
  | some last =>
    have hmem : last ∈ handled := List.mem_of_getLast? hlast
    simp [addOne_le_iff counter (hall last hmem)]

section
variable {json : Json} (codec : Codec json)

variable (inner : Inner) (key : Key) (node other : ℕ) (bus : Bus json) (task : ℕ)

theorem dispatch_frame (origin : ℕ) (body : Body json) :
    (dispatch inner origin body).1.key = inner.key ∧
    (dispatch inner origin body).1.node = inner.node ∧
    (dispatch inner origin body).1.seen = inner.seen ∧
    (dispatch inner origin body).2.accepted = true := by
  cases body with
  | publish topic p => exact ⟨rfl, rfl, rfl, rfl⟩
  | call id topic p | reply dest id ok err =>
    dsimp only [dispatch]
    split_ifs <;> exact ⟨rfl, rfl, rfl, rfl⟩

theorem handle_opened {payload : String} {elapsed : ℕ} {opened : Opened json}
    (hopened : openText codec inner.key payload (nowMs elapsed) = some opened)
    (hother : opened.origin ≠ inner.node) :
    let last := (inner.seen.lookup opened.origin).getD 0
    let after := handle codec inner payload elapsed
    after.1.key = inner.key ∧ after.1.node = inner.node ∧
      after.2.accepted = decide (last ≤ opened.counter) ∧
      after.1.seen = inner.seen.insert opened.origin
        (if last ≤ opened.counter then addOne opened.counter else last) := by
  dsimp only
  unfold handle
  rw [hopened]
  simp only [if_neg hother]
  unfold fresh
  by_cases hfresh : (inner.seen.lookup opened.origin).getD 0 ≤ opened.counter
  · simp only [if_pos hfresh, Bool.true_eq_false, if_false, decide_eq_true hfresh]
    split_ifs
    · exact ⟨rfl, rfl, rfl, rfl⟩
    · obtain ⟨hkey, hnode, hseen, haccepted⟩ := dispatch_frame
        { inner with seen := inner.seen.insert opened.origin (addOne opened.counter) }
        opened.origin opened.body
      exact ⟨hkey, hnode, haccepted, hseen⟩
  · simp only [if_neg hfresh, if_true, decide_eq_false hfresh]
    exact ⟨trivial, trivial, rfl, trivial⟩

theorem handle_foreign {payload : String} {elapsed origin : ℕ}
    (hforeign : ∀ opened, openText codec inner.key payload (nowMs elapsed) = some opened →
      opened.origin ≠ origin) :
    (handle codec inner payload elapsed).1.key = inner.key ∧
    (handle codec inner payload elapsed).1.node = inner.node ∧
    (handle codec inner payload elapsed).1.seen.lookup origin = inner.seen.lookup origin := by
  cases hopened : openText codec inner.key payload (nowMs elapsed) with
  | none =>
    unfold handle
    rw [hopened]
    exact ⟨rfl, rfl, rfl⟩
  | some opened =>
    by_cases hown : opened.origin = inner.node
    · unfold handle
      rw [hopened]
      simp only [if_pos hown]
      exact ⟨trivial, trivial, trivial⟩
    · obtain ⟨hkey, hnode, _, hseen⟩ :=
        handle_opened codec inner hopened hown
      refine ⟨hkey, hnode, ?_⟩
      rw [hseen, lookup_insert_ite, if_neg (hforeign opened hopened).symm]

/-- The notification carries the sender's counter, sealed under the bus key. -/
def Carries (key : Key) (node : ℕ) (text : String) (counter : ℕ) : Prop :=
  counter ≤ u64Max ∧ ∃ (time : ℕ) (body : Body json), time ≤ u64Max ∧
    text = envelope ⟨node, counter, time, hex (mac codec key node counter time (bodyText body)),
      bodyText body⟩

/-- A notification is handed over within the allowed skew of the time it was
sealed, and whatever else arrives is not a copy of the sender's. -/
def Delivery (bus : Bus json) : Act json → Prop
  | .notify elapsed => ∀ text rest outer, bus.notified = text :: rest →
    codec.outer text = some outer → absDiff (nowMs elapsed) outer.t ≤ maxSkewMs
  | .foreign text elapsed => ∀ opened,
    openText codec bus.receiver.key text (nowMs elapsed) = some opened →
      opened.origin ≠ bus.sender.node
  | _ => True

/-- A task enqueues a counter that follows the one enqueued just before it. -/
def InOrder (bus : Bus json) : Act json → Prop
  | .trySend task => ∀ counter text, bus.tasks task = .signed counter text →
    bus.sender.outbox.length < outboxCapacity → ∀ last ∈ bus.queued.getLast?, Follows last counter
  | _ => True

structure Progress (key : Key) (node : ℕ) (bus : Bus json) (handled waiting : List ℕ) :
    Prop where
  queued : bus.queued = handled ++ waiting
  waiting : List.Forall₂ (Carries codec key node) (bus.notified ++ bus.sender.outbox) waiting
  bounded : ∀ counter ∈ handled, counter ≤ u64Max
  accepted : (∀ v ∈ bus.verdicts, v.accepted = true) ↔ handled.IsChain Follows
  marked : (∀ v ∈ bus.verdicts, v.accepted = true) →
    (bus.receiver.seen.lookup node).getD 0 = mark handled

def SendingOk (key : Key) (node : ℕ) : Sending json → Prop
  | .counted counter _ => counter ≤ u64Max
  | .signed counter text => Carries codec key node text counter
  | _ => True

structure BusInv (key : Key) (node other : ℕ) (bus : Bus json) : Prop where
  senderKey : bus.sender.key = key
  senderNode : bus.sender.node = node
  receiverKey : bus.receiver.key = key
  receiverNode : bus.receiver.node = other
  counter : bus.sender.counter ≤ u64Max
  tasks : ∀ task, SendingOk codec key node (bus.tasks task)
  progress : ∃ handled waiting, Progress codec key node bus handled waiting

theorem newBus_inv (attached : Bool) :
    BusInv codec key node other (newBus key node other attached) where
  senderKey := rfl
  senderNode := rfl
  receiverKey := rfl
  receiverNode := rfl
  counter := Nat.zero_le _
  tasks task := trivial
  progress := by
    refine ⟨[], [], rfl, .nil, ?_, ?_, ?_⟩
    · intro counter hin
      cases hin
    · exact ⟨fun _ => .nil, nofun⟩
    · exact fun _ => rfl

theorem tasks_update {tasks : ℕ → Sending json} (task : ℕ) (sending : Sending json)
    (htasks : ∀ task, SendingOk codec key node (tasks task))
    (hsending : SendingOk codec key node sending) (other : ℕ) :
    SendingOk codec key node (Function.update tasks task sending other) := by
  by_cases hother : other = task
  · rw [hother, Function.update_self]
    exact hsending
  · rw [Function.update_of_ne hother]
    exact htasks other

theorem takeCounter_inv (body : Body json) (hinv : BusInv codec key node other bus) :
    BusInv codec key node other (takeCounter bus task body) where
  senderKey := hinv.senderKey
  senderNode := hinv.senderNode
  receiverKey := hinv.receiverKey
  receiverNode := hinv.receiverNode
  counter := Nat.le_of_lt_succ (Nat.mod_lt _ (Nat.succ_pos _))
  tasks := tasks_update codec key node task _ hinv.tasks hinv.counter
  progress := by
    obtain ⟨handled, waiting, hprogress⟩ := hinv.progress
    exact ⟨handled, waiting, hprogress.queued, hprogress.waiting, hprogress.bounded,
      hprogress.accepted, hprogress.marked⟩

theorem task_inv (sending : Sending json) (hinv : BusInv codec key node other bus)
    (hsending : SendingOk codec key node sending) :
    BusInv codec key node other
      { bus with tasks := Function.update bus.tasks task sending } where
  senderKey := hinv.senderKey
  senderNode := hinv.senderNode
  receiverKey := hinv.receiverKey
  receiverNode := hinv.receiverNode
  counter := hinv.counter
  tasks := tasks_update codec key node task sending hinv.tasks hsending
  progress := by
    obtain ⟨handled, waiting, hprogress⟩ := hinv.progress
    exact ⟨handled, waiting, hprogress.queued, hprogress.waiting, hprogress.bounded,
      hprogress.accepted, hprogress.marked⟩

theorem sign_inv (elapsed : ℕ) (hinv : BusInv codec key node other bus) :
    BusInv codec key node other (sign codec bus task elapsed) := by
  have htask := hinv.tasks task
  unfold sign
  cases hsending : bus.tasks task with
  | counted counter body =>
    rw [hsending] at htask
    dsimp only
    cases hseal : sealText codec bus.sender.key bus.sender.node counter (nowMs elapsed) body with
    | ok text =>
      have htext := sealText_ok codec hseal
      rw [hinv.senderKey, hinv.senderNode] at htext
      refine task_inv codec key node other bus task _ hinv ?_
      exact ⟨htask, nowMs elapsed, body, min_le_right _ _, htext⟩
    | error error => exact task_inv codec key node other bus task _ hinv trivial
  | idle | signed | sent | failed => exact hinv

theorem trySend_inv (hinv : BusInv codec key node other bus) :
    BusInv codec key node other (trySend bus task) := by
  have htask := hinv.tasks task
  unfold trySend
  cases hsending : bus.tasks task with
  | signed counter text =>
    rw [hsending] at htask
    dsimp only
    split_ifs
    · obtain ⟨handled, waiting, hprogress⟩ := hinv.progress
      refine ⟨hinv.senderKey, hinv.senderNode, hinv.receiverKey, hinv.receiverNode, hinv.counter,
        tasks_update codec key node task .sent hinv.tasks trivial,
        handled, waiting ++ [counter], ?_, ?_, hprogress.bounded, hprogress.accepted,
        hprogress.marked⟩
      · change bus.queued ++ [counter] = _
        rw [hprogress.queued, append_assoc]
      · change List.Forall₂ _ (bus.notified ++ (bus.sender.outbox ++ [text])) _
        rw [← append_assoc]
        exact rel_append hprogress.waiting (.cons htask .nil)
    · exact task_inv codec key node other bus task _ hinv trivial
  | idle | counted | sent | failed => exact hinv

theorem publishBatch_inv (count : ℕ) (hinv : BusInv codec key node other bus) :
    BusInv codec key node other (publishBatch bus count) where
  senderKey := hinv.senderKey
  senderNode := hinv.senderNode
  receiverKey := hinv.receiverKey
  receiverNode := hinv.receiverNode
  counter := hinv.counter
  tasks := hinv.tasks
  progress := by
    obtain ⟨handled, waiting, hprogress⟩ := hinv.progress
    refine ⟨handled, waiting, hprogress.queued, ?_, hprogress.bounded, hprogress.accepted,
      hprogress.marked⟩
    unfold publishBatch
    dsimp only
    rw [append_assoc, take_append_drop]
    exact hprogress.waiting

theorem carried_opens (hlaw : codec.Lawful) {key : Key} {node counter : ℕ} (elapsed : ℕ)
    (hnode : node ≤ u64Max) {text : String} (hcarries : Carries codec key node text counter)
    (hskew : ∀ outer, codec.outer text = some outer → absDiff (nowMs elapsed) outer.t ≤ maxSkewMs) :
    ∃ read, openText codec key text (nowMs elapsed) = some ⟨node, counter, read⟩ := by
  obtain ⟨hcounter, time, body, htime, rfl⟩ := hcarries
  have houter := hlaw.outer node counter time
    (mac codec key node counter time (bodyText body)) body hnode hcounter htime
  exact openText_envelope codec hlaw key body hnode hcounter
    htime (hskew _ houter)

theorem notify_inv (hlaw : codec.Lawful) {key : Key} {node other : ℕ} (hnode : node ≤ u64Max)
    (hother : other ≠ node) {bus : Bus json} {elapsed : ℕ}
    (hinv : BusInv codec key node other bus) (hdelivery : Delivery codec bus (.notify elapsed)) :
    BusInv codec key node other (notify codec bus elapsed) := by
  unfold notify
  cases hnotified : bus.notified with
  | nil => exact hinv
  | cons text rest =>
    dsimp only
    obtain ⟨handled, waiting, hprogress⟩ := hinv.progress
    have hwaiting := hprogress.waiting
    rw [hnotified, cons_append] at hwaiting
    obtain ⟨counter, later, hcarries, hlater, rfl⟩ := List.forall₂_cons_left_iff.mp hwaiting
    obtain ⟨read, hopened⟩ := carried_opens codec hlaw elapsed hnode hcarries
      fun outer => hdelivery text rest outer hnotified
    rw [← hinv.receiverKey] at hopened
    obtain ⟨hkey, hreceiver, haccepted, hseen⟩ := handle_opened codec bus.receiver hopened
      (by rw [hinv.receiverNode]; exact hother.symm)
    dsimp only at haccepted hseen
    have hfollows : (∀ v ∈ bus.verdicts, v.accepted = true) →
        ((bus.receiver.seen.lookup node).getD 0 ≤ counter ↔
          ∀ last ∈ handled.getLast?, Follows last counter) := by
      intro hall
      rw [hprogress.marked hall]
      exact mark_le_iff hprogress.bounded counter
    refine ⟨hinv.senderKey, hinv.senderNode, hkey.trans hinv.receiverKey,
      hreceiver.trans hinv.receiverNode, hinv.counter, hinv.tasks, handled ++ [counter], later, ?_,
      hlater, ?_, ?_, ?_⟩
    · change bus.queued = _
      rw [hprogress.queued, append_assoc, singleton_append]
    · intro last hlast
      obtain hlast | hlast := mem_append.mp hlast
      · exact hprogress.bounded last hlast
      · rw [mem_singleton.mp hlast]
        exact hcarries.1
    · rw [forall_mem_append, forall_mem_singleton, haccepted, decide_eq_true_iff,
        isChain_snoc, ← hprogress.accepted]
      exact and_congr_right hfollows
    · intro hall
      rw [forall_mem_append, forall_mem_singleton, haccepted, decide_eq_true_iff] at hall
      change ((handle codec bus.receiver text elapsed).1.seen.lookup node).getD 0 = _
      rw [hseen, lookup_insert_ite, if_pos rfl, if_pos hall.2, mark, List.getLast?_concat]
      rfl

theorem receiver_inv (receiver : Inner) (hinv : BusInv codec key node other bus)
    (hkey : receiver.key = bus.receiver.key) (hnode : receiver.node = bus.receiver.node)
    (hseen : receiver.seen.lookup node = bus.receiver.seen.lookup node) :
    BusInv codec key node other { bus with receiver := receiver } where
  senderKey := hinv.senderKey
  senderNode := hinv.senderNode
  receiverKey := hkey.trans hinv.receiverKey
  receiverNode := hnode.trans hinv.receiverNode
  counter := hinv.counter
  tasks := hinv.tasks
  progress := by
    obtain ⟨handled, waiting, hprogress⟩ := hinv.progress
    refine ⟨handled, waiting, hprogress.queued, hprogress.waiting, hprogress.bounded,
      hprogress.accepted, ?_⟩
    rw [hseen]
    exact hprogress.marked

theorem step_busInv (hlaw : codec.Lawful) (key : Key) {node other : ℕ} (hnode : node ≤ u64Max)
    (hother : other ≠ node) (bus : Bus json) (a : Act json)
    (hinv : BusInv codec key node other bus) (hdelivery : Delivery codec bus a) :
    BusInv codec key node other (step codec bus a) := by
  cases a with
  | take task body => exact takeCounter_inv codec key node other bus task body hinv
  | sign task elapsed => exact sign_inv codec key node other bus task elapsed hinv
  | trySend task => exact trySend_inv codec key node other bus task hinv
  | publish count => exact publishBatch_inv codec key node other bus count hinv
  | notify elapsed =>
    exact notify_inv codec hlaw hnode hother hinv hdelivery
  | foreign text elapsed =>
    have hforeign : ∀ opened, openText codec bus.receiver.key text (nowMs elapsed) = some opened →
          opened.origin ≠ node := by
      intro opened hopened
      rw [← hinv.senderNode]
      exact hdelivery opened hopened
    obtain ⟨hkey, hsame, hseen⟩ := handle_foreign codec bus.receiver hforeign
    exact receiver_inv codec key node other bus _ hinv hkey hsame hseen
  | own doing =>
    cases doing <;> exact receiver_inv codec key node other bus _ hinv rfl rfl rfl

theorem step_queued (a : Act json) : (step codec bus a).queued.IsChain Follows ↔
      bus.queued.IsChain Follows ∧ InOrder bus a := by
  have hsame : ∀ bus' : Bus json, bus'.queued = bus.queued →
      (bus'.queued.IsChain Follows ↔ bus.queued.IsChain Follows ∧ True) := by
    intro bus' hqueued
    rw [hqueued, and_true]
  cases a with
  | trySend task =>
    change (trySend bus task).queued.IsChain Follows ↔ _ ∧ ∀ counter text, _ → _
    unfold trySend
    cases hsending : bus.tasks task with
    | signed counter text =>
      dsimp only
      split_ifs with hroom
      · rw [isChain_snoc]
        refine and_congr_right fun _ => ⟨?_, fun hall => hall counter text rfl hroom⟩
        intro hlast counter' text' heq _
        cases heq
        exact hlast
      · refine ⟨fun hchain => ⟨hchain, fun _ _ _ hspace => absurd hspace hroom⟩, And.left⟩
    | idle | counted | sent | failed =>
      refine ⟨fun hchain => ⟨hchain, fun counter text heq => ?_⟩, And.left⟩
      cases heq
  | sign task elapsed =>
    refine hsame _ ?_
    change (sign codec bus task elapsed).queued = _
    unfold sign
    split
    · split <;> rfl
    · rfl
  | notify elapsed =>
    refine hsame _ ?_
    change (notify codec bus elapsed).queued = _
    unfold notify
    split <;> rfl
  | take | publish | foreign | own => exact hsame _ rfl

theorem run_queued (acts : List (Act json)) : (run (step codec) bus acts).queued.IsChain Follows ↔
      bus.queued.IsChain Follows ∧ Meets (step codec) InOrder bus acts := by
  induction acts generalizing bus with
  | nil => exact ⟨fun hchain => ⟨hchain, trivial⟩, And.left⟩
  | cons a acts ih =>
    rw [run_cons, ih, step_queued]
    exact and_assoc

theorem accepted_iff_isChain (hlaw : codec.Lawful) {key : Key} (node other : ℕ)
    (hnode : node ≤ u64Max) (hother : other ≠ node) {attached : Bool} {acts : List (Act json)}
    (hdelivery : Meets (step codec) (Delivery codec) (newBus key node other attached) acts)
    (harrived : (run (step codec) (newBus key node other attached) acts).notified = [] ∧
      (run (step codec) (newBus key node other attached) acts).sender.outbox = []) :
    (∀ v ∈ (run (step codec) (newBus key node other attached) acts).verdicts, v.accepted = true) ↔
    (run (step codec) (newBus key node other attached) acts).queued.IsChain Follows := by
  have hinv := guarded_run_invariant (step codec) (Delivery codec)
    (BusInv codec key node other) (step_busInv codec hlaw key hnode hother) _ acts
    (newBus_inv codec key node other attached) hdelivery
  obtain ⟨handled, waiting, hprogress⟩ := hinv.progress
  have hwaiting := hprogress.waiting
  rw [harrived.1, harrived.2] at hwaiting
  have hnone : waiting = [] := List.forall₂_nil_left_iff.mp hwaiting
  have hqueued := hprogress.queued
  rw [hnone, append_nil] at hqueued
  rw [hprogress.accepted, ← hqueued]

end

/-- Reads up to `stop`, skips what separates the fields and goes on. -/
def readField (stop : Char) (skip : ℕ) (chars : List Char)
    (next : List Char → List Char → Option Outer) : Option Outer :=
  next (chars.takeWhile (· ≠ stop)) ((chars.dropWhile (· ≠ stop)).drop skip)

/-- Reads the envelopes `envelope` writes. -/
def readOuter (text : String) : Option Outer :=
  readField ',' 5 (text.toList.drop 5) fun o afterO =>
  readField ',' 5 afterO fun n afterN =>
  readField ',' 6 afterN fun t afterT =>
  readField '"' 6 afterT fun m afterM =>
    some ⟨Nat.ofDigitChars 10 o 0, Nat.ofDigitChars 10 n 0, Nat.ofDigitChars 10 t 0,
      String.ofList m, String.ofList afterM.dropLast⟩

theorem readField_append {stop : Char} (skip : ℕ) {front : List Char} (between rest : List Char)
    (next : List Char → List Char → Option Outer) (hstop : stop ∉ front)
    (hskip : skip = between.length + 1) :
    readField stop skip (front ++ stop :: (between ++ rest)) next = next front rest := by
  have hfront : ∀ c ∈ front, decide (c ≠ stop) = true := by
    intro c hc
    exact decide_eq_true fun heq => hstop (heq ▸ hc)
  unfold readField
  rw [takeWhile_append_of_pos hfront, dropWhile_append_of_pos hfront]
  simp [hskip]

theorem comma_not_mem_toDigits (n : ℕ) : ',' ∉ Nat.toDigits 10 n := by
  intro hin
  have hdigit := Nat.isDigit_of_mem_toDigits (by decide) (by decide) hin
  exact absurd hdigit (by decide)

theorem quote_not_mem_hex (tag : List UInt8) : '"' ∉ tag.flatMap hexByte := by
  intro hin
  obtain ⟨byte, _, hbyte⟩ := mem_flatMap.mp hin
  have hsize : byte.toNat < 256 := byte.toNat_lt
  have hplain : ∀ n < 16, Nat.digitChar n ≠ '"' := by decide
  have hhigh := hplain (byte.toNat / 16) (by omega)
  have hlow := hplain (byte.toNat % 16) (Nat.mod_lt _ (by decide))
  unfold hexByte at hbyte
  simp [hhigh.symm, hlow.symm] at hbyte

theorem toList_envelope (o n t : ℕ) (m b : String) : (envelope ⟨o, n, t, m, b⟩).toList.drop 5 =
      Nat.toDigits 10 o ++ ',' :: (['"', 'n', '"', ':'] ++
      (Nat.toDigits 10 n ++ ',' :: (['"', 't', '"', ':'] ++
      (Nat.toDigits 10 t ++ ',' :: (['"', 'm', '"', ':', '"'] ++
      (m.toList ++ '"' :: ([',', '"', 'b', '"', ':'] ++
      (b.toList ++ ['\x7d'])))))))) := by
  have hdigits : ∀ n : ℕ, (toString n).toList = Nat.toDigits 10 n := by
    intro n
    change (Nat.repr n).toList = _
    rw [Nat.repr_eq_ofList_toDigits, String.toList_ofList]
  unfold envelope
  simp only [String.toList_append, hdigits, append_assoc]
  rfl

theorem readOuter_envelope (o n t : ℕ) (tag : List UInt8) (b : String) :
    readOuter (envelope ⟨o, n, t, hex tag, b⟩) = some ⟨o, n, t, hex tag, b⟩ := by
  have hhex : (hex tag).toList = tag.flatMap hexByte := by rw [hex, String.toList_ofList]
  unfold readOuter
  rw [toList_envelope, hhex,
    readField_append 5 ['"', 'n', '"', ':'] _ _ (comma_not_mem_toDigits o) rfl,
    readField_append 5 ['"', 't', '"', ':'] _ _ (comma_not_mem_toDigits n) rfl,
    readField_append 6 ['"', 'm', '"', ':', '"'] _ _ (comma_not_mem_toDigits t) rfl,
    readField_append 6 [',', '"', 'b', '"', ':'] _ _ (quote_not_mem_hex tag) rfl,
    dropLast_concat, String.ofList_toList]
  simp only [Nat.ofDigitChars_ten_toDigits]
  rfl

/-- JSON with the one raw value `1`. -/
def oneJson : Json := ⟨Unit, (), fun text => text == "1", fun _ => "null"⟩

def oneBody : Body oneJson := .publish "room:id=7" ⟨"1", rfl⟩

def oneCodec (hmac : List UInt8 → String → Vector UInt8 32) : Codec oneJson :=
  ⟨fun _ => some oneBody, readOuter, hmac⟩

variable (hmac : List UInt8 → String → Vector UInt8 32)

theorem oneCodec_lawful : (oneCodec hmac).Lawful where
  body _ := rfl
  outer origin counter time tag body _ _ _ :=
    readOuter_envelope origin counter time tag (bodyText body)

theorem replicate_long : 32 ≤ (List.replicate 32 (7 : UInt8)).length :=
  Nat.le_of_eq length_replicate.symm

def oneKey : Key := ⟨List.replicate 32 7, replicate_long⟩

def oneText (hmac : List UInt8 → String → Vector UInt8 32) (counter : ℕ) : String :=
  envelope ⟨1, counter, 0, hex (mac (oneCodec hmac) oneKey 1 counter 0 (bodyText oneBody)),
    bodyText oneBody⟩

theorem sign_oneBody (bus : Bus oneJson) (task counter : ℕ) (hkey : bus.sender.key = oneKey)
    (hnode : bus.sender.node = 1) (htask : bus.tasks task = .counted counter oneBody) :
    sign (oneCodec hmac) bus task 0 = { bus with
        tasks := Function.update bus.tasks task (.signed counter (oneText hmac counter)) } := by
  have hlen : checkLen (envelopeOverhead + (bodyText oneBody).utf8ByteSize) = .ok () := rfl
  have hseal : sealText (oneCodec hmac) oneKey 1 counter (nowMs 0) oneBody =
      .ok (oneText hmac counter) := by
    unfold sealText
    rw [hlen]
    rfl
  unfold sign
  rw [htask, hkey, hnode]
  dsimp only
  rw [hseal]

theorem delivery_at_once (bus : Bus oneJson) (counter : ℕ) (rest : List String)
    (hnotified : bus.notified = oneText hmac counter :: rest) :
    Delivery (oneCodec hmac) bus (.notify 0) := by
  intro text rest' outer heq houter
  rw [hnotified] at heq
  cases heq
  change readOuter (envelope _) = _ at houter
  rw [readOuter_envelope] at houter
  cases houter
  exact Nat.zero_le _

def signedActs : List (Act oneJson) :=
  [.take 0 oneBody, .take 1 oneBody, .sign 0 0, .sign 1 0]

def signedBus (hmac : List UInt8 → String → Vector UInt8 32) : Bus oneJson :=
  let counted := takeCounter (takeCounter (newBus oneKey 1 2 true) 0 oneBody) 1 oneBody
  { counted with
    tasks := Function.update (Function.update counted.tasks 0 (.signed 0 (oneText hmac 0))) 1
      (.signed 1 (oneText hmac 1)) }

theorem run_signedActs :
    run (step (oneCodec hmac)) (newBus oneKey 1 2 true) signedActs = signedBus hmac := by
  change sign _ (sign _ (takeCounter (takeCounter _ 0 oneBody) 1 oneBody) 0 0) 1 0 = _
  rw [sign_oneBody hmac _ 0 0 rfl rfl rfl, sign_oneBody hmac _ 1 1 rfl rfl rfl]
  rfl

def orderlyRun : List (Act oneJson) :=
  signedActs ++ [.trySend 0, .trySend 1, .publish 2, .notify 0, .notify 0]

/-- The second task enqueues before the first. -/
def overtakenRun : List (Act oneJson) :=
  signedActs ++ [.trySend 1, .trySend 0, .publish 2, .notify 0, .notify 0]

end Stakit.PostgresBroker
