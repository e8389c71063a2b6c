import Stakit.EpochStreams
import Stakit.SocketIsolation

set_option autoImplicit false

namespace Stakit.SocketSubscriptions
open FiniteMap PubsubTopic EpochStreams TransitionRuns List
open Function (update_self update_of_ne update)

def Seen.position : Seen → Option Cursor
  | .acked epoch seq => some ⟨epoch, seq⟩
  | .message m => some ⟨m.epoch, m.seq⟩
  | _ => none

/-- Messages and gaps end what was known before them. -/
def Seen.Loud : Seen → Prop
  | .message _ | .gap _ => True
  | _ => False

/-- Since `x` there was neither a message nor a gap. -/
def Open (log : List Seen) (x : Seen) : Prop :=
  ∃ before after, log = before ++ x :: after ∧ ∀ y ∈ after, ¬ y.Loud

theorem open_snoc (log : List Seen) (x y : Seen) :
    Open (log ++ [y]) x ↔ x = y ∨ (Open log x ∧ ¬ y.Loud) := by
  constructor
  · rintro ⟨before, after, heq, hquiet⟩
    obtain ⟨_, hx, _⟩ | ⟨rest, rfl, hlog⟩ := split_snoc heq
    · exact .inl hx.symm
    · refine .inr ⟨⟨before, rest, hlog, fun z hz => hquiet z (by simp [hz])⟩, ?_⟩
      exact hquiet y (by simp)
  · rintro (rfl | ⟨⟨before, after, rfl, hquiet⟩, hy⟩)
    · exact ⟨log, [], rfl, by simp⟩
    · refine ⟨before, after ++ [y], by simp, fun z hz => ?_⟩
      obtain hz | hz := mem_append.mp hz
      · exact hquiet z hz
      · rw [mem_singleton.mp hz]
        exact hy

section
variable (sent : Seen → Prop)

def Heard (before : List Seen) : Seen → Prop
  | .acked epoch seq => sent (.acked epoch seq)
  | .message message => sent (.message message) ∧ ∀ x position, Open before x →
      x.position = some position → message.epoch = position.epoch ∧ message.seq = position.seq + 1
  | _ => True

def Sound (log : List Seen) : Prop := Throughout (Heard sent) log

/-- A sound log whose open positions are all the cursor. -/
structure Fits (epoch seq : Option ℕ) (log : List Seen) : Prop where
  sound : Sound sent log
  known : ∀ x position, Open log x → x.position = some position →
    epoch = some position.epoch ∧ seq = some position.seq

variable {sent}

theorem Fits.quiet {epoch seq : Option ℕ} {log : List Seen} (hfits : Fits sent epoch seq log)
    (y : Seen) (hnone : y.position = none) : Fits sent epoch seq (log ++ [y]) where
  sound := by
    refine (throughout_snoc _ log y).mpr ⟨hfits.sound, ?_⟩
    cases y with
    | acked epoch seq | message message => cases hnone
    | gap reason | error error | kick => trivial
  known x position hopen hposition := by
    obtain rfl | ⟨hopen, _⟩ := (open_snoc log x y).mp hopen
    · rw [hnone] at hposition
      cases hposition
    · exact hfits.known x position hopen hposition

theorem Fits.gap {epoch seq : Option ℕ} {log : List Seen} (hfits : Fits sent epoch seq log)
    (reason : GapReason) (epoch' seq' : Option ℕ) :
    Fits sent epoch' seq' (log ++ [.gap reason]) where
  sound := (hfits.quiet (.gap reason) rfl).sound
  known x position hopen hposition := by
    obtain rfl | ⟨_, hquiet⟩ := (open_snoc log x (.gap reason)).mp hopen
    · cases hposition
    · exact absurd trivial hquiet

theorem Fits.acked {log : List Seen} {epoch seq : ℕ} (hfits : Fits sent (some epoch) (some seq) log)
    (hsent : sent (.acked epoch seq)) :
    Fits sent (some epoch) (some seq) (log ++ [.acked epoch seq]) where
  sound := (throughout_snoc _ log _).mpr ⟨hfits.sound, hsent⟩
  known x position hopen hposition := by
    obtain rfl | ⟨hopen, _⟩ := (open_snoc log x _).mp hopen
    · cases hposition
      exact ⟨rfl, rfl⟩
    · exact hfits.known x position hopen hposition

theorem Fits.of_none {seq : Option ℕ} {log : List Seen} (hfits : Fits sent none seq log)
    (epoch' seq' : Option ℕ) : Fits sent epoch' seq' log where
  sound := hfits.sound
  known x position hopen hposition := by
    cases (hfits.known x position hopen hposition).1

theorem Fits.ack {group : Group} {log : List Seen} (hfits : Fits sent group.epoch group.seq log)
    (ack : Ack) (hsent : sent (.acked ack.epoch ack.seq)) :
    Fits sent (some ack.epoch) (some ack.seq) (log ++
      ((if ackMoved group ack then [.gap .resubscribe] else []) ++
        [.acked ack.epoch ack.seq])) := by
  rw [← append_assoc]
  refine Fits.acked ?_ hsent
  split_ifs with hmoved
  · exact hfits.gap .resubscribe _ _
  · rw [append_nil]
    cases hepoch : group.epoch with
    | none =>
      rw [hepoch] at hfits
      exact hfits.of_none _ _
    | some epoch =>
      have hsame : group.epoch = some ack.epoch ∧ group.seq = some ack.seq := by
        simpa [ackMoved, hepoch] using hmoved
      rw [hsame.1, hsame.2] at hfits
      exact hfits

theorem Fits.message {group : Group} {log : List Seen}
    (hfits : Fits sent group.epoch group.seq log) (message : PublishMessage)
    (hsent : sent (.message message)) :
    Fits sent (some message.epoch) (some message.seq) (log ++
      (((gapOf group message.epoch message.seq).map Seen.gap).toList ++ [.message message])) := by
  have hknown : ∀ log, Sound sent log → (∀ x position, Open log x → x.position = some position →
        message.epoch = position.epoch ∧ message.seq = position.seq + 1) →
      Fits sent (some message.epoch) (some message.seq) (log ++ [.message message]) := by
    intro log hsound hopen
    refine ⟨(throughout_snoc _ log _).mpr ⟨hsound, hsent, hopen⟩, fun x position hx hposition => ?_⟩
    obtain rfl | ⟨_, hquiet⟩ := (open_snoc log x _).mp hx
    · cases hposition
      exact ⟨rfl, rfl⟩
    · exact absurd trivial hquiet
  rw [← append_assoc]
  cases hgap : gapOf group message.epoch message.seq with
  | some reason =>
    have hafter := hfits.gap reason none none
    refine hknown _ hafter.sound fun x position hx hposition => ?_
    cases (hafter.known x position hx hposition).1
  | none =>
    simp only [Option.map_none, Option.toList_none, append_nil]
    refine hknown log hfits.sound fun x position hx hposition => ?_
    obtain ⟨hepoch, hseq⟩ := hfits.known x position hx hposition
    unfold gapOf at hgap
    rw [hepoch, hseq] at hgap
    split_ifs at hgap with hsame hnext
    exact ⟨Option.some.inj (not_not.mp hsame), not_not.mp hnext⟩

variable (sent) in
structure Watched (c : Client) : Prop where
  owned : ∀ g sub, sub ∈ (c.heap g).subs → (c.subs sub).owner = g ∧ sub < c.nextSub
  unborn : ∀ sub, c.nextSub ≤ sub → c.log sub = []
  early : ∀ topic frames, c.early.lookup topic = some frames →
    ∀ frame ∈ frames, sent (.message (messageOf frame))
  sound : ∀ sub, Sound sent (c.log sub)
  fits : ∀ g sub, sub ∈ (c.heap g).subs → Fits sent (c.heap g).epoch (c.heap g).seq (c.log sub)

/-- Nobody was told anything, no cursor moved and nobody joined a group. -/
structure Calm (c c' : Client) : Prop where
  subs : ∀ g sub, sub ∈ (c'.heap g).subs → sub ∈ (c.heap g).subs
  cursor : ∀ g, (c'.heap g).epoch = (c.heap g).epoch ∧ (c'.heap g).seq = (c.heap g).seq
  owner : ∀ sub, (c'.subs sub).owner = (c.subs sub).owner
  nextSub : c'.nextSub = c.nextSub
  log : c'.log = c.log
  early : ∀ topic frames, c'.early.lookup topic = some frames → c.early.lookup topic = some frames

theorem Calm.refl (c : Client) : Calm c c :=
  ⟨fun _ _ h => h, fun _ => ⟨rfl, rfl⟩, fun _ => rfl, rfl, rfl, fun _ _ h => h⟩

theorem Calm.trans {c c' c'' : Client} (a : Calm c c') (b : Calm c' c'') : Calm c c'' where
  subs g sub h := a.subs g sub (b.subs g sub h)
  cursor g := ⟨(b.cursor g).1.trans (a.cursor g).1, (b.cursor g).2.trans (a.cursor g).2⟩
  owner sub := (b.owner sub).trans (a.owner sub)
  nextSub := b.nextSub.trans a.nextSub
  log := b.log.trans a.log
  early topic frames h := a.early topic frames (b.early topic frames h)

/-- The parts of a client that decide what its subscriptions know. -/
def knowledge (c : Client) :
    (GroupRef → Group) × (SubRef → Sub) × SubRef × (SubRef → List Seen) × Map Topic (List Frame) :=
  (c.heap, c.subs, c.nextSub, c.log, c.early)

variable {c : Client}

theorem Calm.of_same {c' : Client} (hsame : knowledge c' = knowledge c) : Calm c c' := by
  simp only [knowledge, Prod.mk.injEq] at hsame
  obtain ⟨hheap, hsubs, hnext, hlog, hearly⟩ := hsame
  refine ⟨fun g sub h => ?_, fun g => ?_, fun sub => ?_, hnext, hlog, fun topic frames h => ?_⟩
  · rw [← hheap]
    exact h
  · rw [hheap]
    exact ⟨rfl, rfl⟩
  · rw [hsubs]
  · rw [← hearly]
    exact h

theorem alter_calm (c : Client) (g : GroupRef) (f : Group → Group)
    (hsubs : ∀ sub ∈ (f (c.heap g)).subs, sub ∈ (c.heap g).subs)
    (hcursor : (f (c.heap g)).epoch = (c.heap g).epoch ∧ (f (c.heap g)).seq = (c.heap g).seq) :
    Calm c (alter c g f) where
  subs other sub h := by
    rw [alter_heap] at h
    split_ifs at h with hother
    · rw [hother] at h ⊢
      exact hsubs sub h
    · exact h
  cursor other := by
    rw [alter_heap]
    split_ifs with hother
    · rw [hother]
      exact hcursor
    · exact ⟨rfl, rfl⟩
  owner _ := rfl
  nextSub := rfl
  log := rfl
  early _ _ h := h

theorem Watched.calm {c' : Client} (hwatched : Watched sent c) (hcalm : Calm c c') :
    Watched sent c' where
  owned g sub hin := by
    rw [hcalm.owner, hcalm.nextSub]
    exact hwatched.owned g sub (hcalm.subs g sub hin)
  unborn sub hle := by
    rw [hcalm.log]
    rw [hcalm.nextSub] at hle
    exact hwatched.unborn sub hle
  early topic frames h := hwatched.early topic frames (hcalm.early topic frames h)
  sound sub := by
    rw [hcalm.log]
    exact hwatched.sound sub
  fits g sub hin := by
    rw [hcalm.log, (hcalm.cursor g).1, (hcalm.cursor g).2]
    exact hwatched.fits g sub (hcalm.subs g sub hin)

theorem Watched.tell (hwatched : Watched sent c) (g : GroupRef) (f : Group → Group)
    (seen : List Seen) (hsubs : (f (c.heap g)).subs = (c.heap g).subs)
    (hfits : ∀ log, Fits sent (c.heap g).epoch (c.heap g).seq log →
      Fits sent (f (c.heap g)).epoch (f (c.heap g)).seq (log ++ seen)) :
    Watched sent (each (alter c g f) g seen) := by
  have hmembers : ∀ other, ((alter c g f).heap other).subs = (c.heap other).subs := by
    intro other
    rw [alter_heap]
    split_ifs with hother
    · rw [hother, hsubs]
    · rfl
  have hlog : ∀ sub, (each (alter c g f) g seen).log sub =
      if sub ∈ (c.heap g).subs then c.log sub ++ seen else c.log sub := by
    intro sub
    change (if sub ∈ ((alter c g f).heap g).subs then _ else _) = _
    rw [hmembers]
    rfl
  refine ⟨fun other sub hin => ?_, fun sub hle => ?_, hwatched.early, fun sub => ?_,
    fun other sub hin => ?_⟩
  · change sub ∈ ((alter c g f).heap other).subs at hin
    rw [hmembers] at hin
    exact hwatched.owned other sub hin
  · rw [hlog, if_neg]
    · exact hwatched.unborn sub hle
    · intro hin
      exact Nat.not_lt.mpr hle (hwatched.owned g sub hin).2
  · rw [hlog]
    split_ifs with hin
    · exact (hfits _ (hwatched.fits g sub hin)).sound
    · exact hwatched.sound sub
  · change sub ∈ ((alter c g f).heap other).subs at hin
    rw [hmembers] at hin
    have howner := (hwatched.owned other sub hin).1
    rw [hlog]
    change Fits sent ((alter c g f).heap other).epoch ((alter c g f).heap other).seq _
    rw [alter_heap]
    by_cases hother : other = g
    · rw [if_pos hother]
      rw [hother] at hin ⊢
      rw [if_pos hin]
      exact hfits _ (hwatched.fits g sub hin)
    · rw [if_neg hother, if_neg]
      · exact hwatched.fits other sub hin
      · intro hboth
        exact hother (howner.symm.trans (hwatched.owned g sub hboth).1)

theorem Watched.note (hwatched : Watched sent c) (g : GroupRef) (seen : List Seen)
    (hnone : ∀ x ∈ seen, x.position = none) : Watched sent (each c g seen) := by
  have hfits : ∀ log, Fits sent (c.heap g).epoch (c.heap g).seq log →
      Fits sent (c.heap g).epoch (c.heap g).seq (log ++ seen) := by
    induction seen with
    | nil =>
      intro log hlog
      rw [append_nil]
      exact hlog
    | cons x seen ih =>
      intro log hlog
      rw [append_cons]
      exact ih (fun y hy => hnone y (by simp [hy])) _ (hlog.quiet x (hnone x (by simp)))
  have htold := hwatched.tell g id seen rfl hfits
  have hsame : alter c g id = c := by
    unfold alter
    rw [id, Function.update_eq_self]
  rw [hsame] at htold
  exact htold

theorem drop_calm (c : Client) (g : GroupRef) : Calm c (drop c g) := .of_same rfl

theorem send_calm (c : Client) (g : GroupRef) : Calm c (send c g) :=
  (alter_calm c g (fun group => { group with pending := true }) (fun _ h => h) ⟨rfl, rfl⟩).trans
    (.of_same rfl)

theorem onUnclaimed_watched (hwatched : Watched sent c) (frame : Frame)
    (hsent : sent (.message (messageOf frame))) :
    Watched sent (onUnclaimed c (messageOf frame).topic frame) := by
  unfold onUnclaimed
  dsimp only
  split_ifs
  · exact hwatched.calm (.of_same rfl)
  · refine ⟨hwatched.owned, hwatched.unborn, fun topic frames hfound => ?_, hwatched.sound,
      hwatched.fits⟩
    dsimp only at hfound
    rw [lookup_insert_ite] at hfound
    split_ifs at hfound
    · cases hfound
      intro other hother
      obtain hother | hother := mem_append.mp hother
      · cases hbefore : c.early.lookup (messageOf frame).topic with
        | none => simp [hbefore] at hother
        | some before =>
          rw [hbefore] at hother
          exact hwatched.early _ before hbefore other hother
      · rw [mem_singleton.mp hother]
        exact hsent
    · exact hwatched.early topic frames hfound
  · exact hwatched
  · exact hwatched

theorem onPublish_watched (hwatched : Watched sent c) (frame : Frame)
    (hsent : sent (.message (messageOf frame))) : Watched sent (onPublish c frame) := by
  unfold onPublish
  dsimp only
  split
  · exact onUnclaimed_watched hwatched frame hsent
  · rename_i g _
    refine (hwatched.tell g (fun group => { group with
      epoch := some (messageOf frame).epoch, seq := some (messageOf frame).seq }) _ rfl
      fun log hfits => hfits.message (messageOf frame) hsent).calm ?_
    exact .of_same rfl

theorem onPublish_foldl_watched (frames : List Frame) {c : Client} (hwatched : Watched sent c)
    (hsent : ∀ frame ∈ frames, sent (.message (messageOf frame))) :
    Watched sent (frames.foldl onPublish c) := by
  induction frames generalizing c with
  | nil => exact hwatched
  | cons frame frames ih =>
    exact ih (onPublish_watched hwatched frame (hsent frame (by simp)))
      fun other hother => hsent other (by simp [hother])

theorem takeAck_watched (hwatched : Watched sent c) (g : GroupRef) (ack : Ack)
    (hsent : sent (.acked ack.epoch ack.seq)) : Watched sent (takeAck c g ack) := by
  have htold : Watched sent (each (placeAck c g ack) g
      ((if ackMoved (c.heap g) ack then [.gap .resubscribe] else []) ++
        [.acked ack.epoch ack.seq])) := by
    refine (hwatched.tell g (fun group =>
      { group with topic := some ack.topic, epoch := some ack.epoch, seq := some ack.seq }) _ rfl
      fun log hfits => hfits.ack ack hsent).calm ?_
    refine ⟨fun _ _ h => h, fun _ => ⟨rfl, rfl⟩, fun sub => ?_, rfl, rfl, fun _ _ h => h⟩
    change (if sub ∈ (c.heap g).subs then { c.subs sub with topic := some ack.topic }
      else c.subs sub).owner = (c.subs sub).owner
    split_ifs <;> rfl
  unfold takeAck
  dsimp only
  refine onPublish_foldl_watched _ (htold.calm ?_) fun frame hframe => ?_
  · refine ⟨fun _ _ h => h, fun _ => ⟨rfl, rfl⟩, fun _ => rfl, rfl, rfl, fun topic frames h => ?_⟩
    change (c.early.erase ack.topic).lookup topic = some frames at h
    rw [lookup_erase_ite] at h
    split_ifs at h
    exact h
  · have hin := (mem_filter.mp hframe).1
    cases hfound : c.early.lookup ack.topic with
    | none =>
      change frame ∈ (c.early.lookup ack.topic).getD [] at hin
      rw [hfound] at hin
      cases hin
    | some frames =>
      change frame ∈ (c.early.lookup ack.topic).getD [] at hin
      rw [hfound] at hin
      exact hwatched.early _ frames hfound frame hin

theorem onAck_watched (hwatched : Watched sent c) (g : GroupRef) (frame : Frame)
    (hsent : ∀ ack, frame.ack = some ack → sent (.acked ack.epoch ack.seq)) :
    Watched sent (onAck c g frame) := by
  have hanswered : Watched sent (answer c g) :=
    hwatched.calm (alter_calm c g _ (fun _ h => h) ⟨rfl, rfl⟩)
  have hdropped := hanswered.calm (drop_calm _ g)
  obtain heq | ⟨seen, heq, hseen⟩ | ⟨topic, heq⟩ | ⟨ack, hack, _, heq⟩ := onAck_cases c g frame
  · rw [heq]
    exact hanswered
  · rw [heq]
    refine hdropped.note g seen fun x hx => ?_
    obtain ⟨error, rfl⟩ := hseen x hx
    rfl
  · rw [heq]
    exact hdropped.calm (.of_same rfl)
  · rw [heq]
    exact takeAck_watched hanswered g ack (hsent ack hack)

theorem onReset_watched (hwatched : Watched sent c) (frame : Frame) :
    Watched sent (onReset c frame) := by
  unfold onReset
  split
  · rename_i g epoch _ _
    exact hwatched.tell g (fun group =>
      { group with epoch := some epoch, seq := some (frame.seq.getD 0) }) _ rfl
      fun log hfits => hfits.gap .reset _ _
  · exact hwatched

theorem onUnsubscribed_watched (hwatched : Watched sent c) (frame : Frame) :
    Watched sent (onUnsubscribed c frame) := by
  unfold onUnsubscribed
  split
  · exact hwatched
  · rename_i g _
    dsimp only
    split_ifs
    · refine Watched.calm (hwatched.note g [.gap .reset] (by simp [Seen.position])) ?_
      refine Calm.trans ?_ (send_calm _ g)
      exact .of_same rfl
    · refine Watched.calm (hwatched.note g [.gap .reset] (by simp [Seen.position])) ?_
      exact .of_same rfl
    · refine Watched.calm (hwatched.note g [.kick] (by simp [Seen.position])) ?_
      exact .of_same rfl

variable (sent) in
def Genuine (frame : Frame) : Prop :=
  (frame.kind = .publish → sent (.message (messageOf frame))) ∧
  (frame.kind = .result → ∀ ack, frame.ack = some ack → sent (.acked ack.epoch ack.seq))

theorem handleFrame_watched {c : Client} (hwatched : Watched sent c) (frame : Frame)
    (hgenuine : Genuine sent frame) : Watched sent (handleFrame c frame) := by
  unfold handleFrame
  split
  · rename_i hkind
    split
    · exact hwatched
    · refine onAck_watched (hwatched.calm ?_) _ frame (hgenuine.2 hkind)
      exact .of_same rfl
  · split
    · exact hwatched
    · exact hwatched.calm (.of_same rfl)
  · rename_i hkind
    exact onPublish_watched hwatched frame (hgenuine.1 hkind)
  · exact onReset_watched hwatched frame
  · exact onUnsubscribed_watched hwatched frame
  · exact hwatched
  · exact hwatched
  · exact hwatched

theorem becomeReady_calm (c : Client) : Calm c (becomeReady c) := by
  have hone : ∀ c g, Calm c (resubscribeOne c g) := by
    intro c g
    unfold resubscribeOne
    split_ifs
    · exact .of_same rfl
    · exact send_calm c g
  refine Calm.trans ?_ (run_relates resubscribeOne Calm .refl (fun _ _ _ => .trans) hone _ _)
  exact .of_same rfl

theorem lost_calm (c : Client) : Calm c (lost c) where
  subs g sub h := by
    unfold lost at h
    dsimp only at h
    split_ifs at h <;> exact h
  cursor g := by
    unfold lost
    dsimp only
    split_ifs <;> exact ⟨rfl, rfl⟩
  owner _ := rfl
  nextSub := rfl
  log := rfl
  early topic frames h := by cases h

theorem unsubscribe_calm (c : Client) (sub : SubRef) : Calm c (unsubscribe c sub) := by
  have hleft : Calm c (leave c sub) :=
    alter_calm c (c.subs sub).owner _ (fun other hin => (mem_filter.mp hin).1) ⟨rfl, rfl⟩
  have hdropped := hleft.trans (drop_calm _ (c.subs sub).owner)
  obtain ⟨_, heq | heq⟩ | ⟨_, ⟨topic, _, _, heq⟩ | ⟨_, heq⟩⟩ := unsubscribe_cases c sub
  · rw [heq]
    exact .refl c
  · rw [heq]
    exact hleft
  · rw [heq]
    exact hdropped.trans (.of_same rfl)
  · rw [heq]
    exact hdropped

/-- A subscription starts with nothing told. -/
theorem Watched.join {c c' : Client} (hwatched : Watched sent c) (g : GroupRef)
    (hsubs : ∀ other sub, sub ∈ (c'.heap other).subs →
      sub ∈ (c.heap other).subs ∨ (other = g ∧ sub = c.nextSub))
    (hcursor : ∀ other sub, sub ∈ (c.heap other).subs → sub ∈ (c'.heap other).subs →
      (c'.heap other).epoch = (c.heap other).epoch ∧ (c'.heap other).seq = (c.heap other).seq)
    (howner : ∀ sub, (c'.subs sub).owner = if sub = c.nextSub then g else (c.subs sub).owner)
    (hnext : c'.nextSub = c.nextSub + 1) (hlog : c'.log = c.log) (hearly : c'.early = c.early) :
    Watched sent c' := by
  have hnew : c.log c.nextSub = [] := hwatched.unborn c.nextSub (Nat.le_refl _)
  refine ⟨fun other sub hin => ?_, fun sub hle => ?_, ?_, fun sub => ?_, fun other sub hin => ?_⟩
  · rw [howner, hnext]
    obtain hin | ⟨rfl, rfl⟩ := hsubs other sub hin
    · obtain ⟨hown, hlt⟩ := hwatched.owned other sub hin
      rw [if_neg (Nat.ne_of_lt hlt)]
      exact ⟨hown, Nat.lt_succ_of_lt hlt⟩
    · rw [if_pos rfl]
      exact ⟨rfl, Nat.lt_succ_self _⟩
  · rw [hlog]
    rw [hnext] at hle
    exact hwatched.unborn sub (Nat.le_of_succ_le hle)
  · rw [hearly]
    exact hwatched.early
  · rw [hlog]
    exact hwatched.sound sub
  · rw [hlog]
    obtain hbefore | ⟨rfl, rfl⟩ := hsubs other sub hin
    · obtain ⟨hepoch, hseq⟩ := hcursor other sub hbefore hin
      rw [hepoch, hseq]
      exact hwatched.fits other sub hbefore
    · rw [hnew]
      refine ⟨throughout_nil _, fun x position hopen => ?_⟩
      obtain ⟨before, after, heq, _⟩ := hopen
      simp at heq

theorem subscribe_watched (stableKey : Value → String) {c : Client} (hwatched : Watched sent c)
    (channel : String) (key : Value) : Watched sent (subscribe stableKey c channel key) := by
  have howner : ∀ (g : GroupRef) (topic : Option Topic) (sub : SubRef),
      (update c.subs c.nextSub ⟨g, topic⟩ sub).owner =
        if sub = c.nextSub then g else (c.subs sub).owner := by
    intro g topic sub
    by_cases hsub : sub = c.nextSub
    · rw [hsub, update_self, if_pos rfl]
    · rw [update_of_ne hsub, if_neg hsub]
  unfold subscribe
  dsimp only
  cases c.groups.lookup (groupId stableKey channel key) with
  | some g =>
    dsimp only
    refine hwatched.join g (fun other sub hin => ?_) (fun other sub _ _ => ?_) (howner g _) rfl rfl
      rfl
    · dsimp only at hin
      rw [alter_heap] at hin
      split_ifs at hin with hother
      · obtain hin | hin := mem_append.mp hin
        · exact .inl hin
        · exact .inr ⟨hother, mem_singleton.mp hin⟩
      · exact .inl hin
    · dsimp only
      rw [alter_heap]
      split_ifs <;> exact ⟨rfl, rfl⟩
  | none =>
    dsimp only
    have hopened : Watched sent (openGroup stableKey c channel key) := by
      unfold openGroup
      refine hwatched.join c.nextGroup (fun other sub hin => ?_) (fun other sub hold hin => ?_)
        (howner c.nextGroup none) rfl rfl rfl
      · dsimp only at hin
        by_cases hother : other = c.nextGroup
        · rw [hother, update_self] at hin
          exact .inr ⟨hother, mem_singleton.mp hin⟩
        · rw [update_of_ne hother] at hin
          exact .inl hin
      · dsimp only at hin ⊢
        by_cases hother : other = c.nextGroup
        · rw [hother, update_self] at hin
          have hlt := (hwatched.owned other sub hold).2
          rw [mem_singleton.mp hin] at hlt
          exact absurd hlt (Nat.lt_irrefl _)
        · rw [update_of_ne hother]
          exact ⟨rfl, rfl⟩
    split_ifs
    · exact hopened.calm (send_calm _ _)
    · exact hopened

theorem newClient_watched : Watched sent newClient where
  owned g sub hin := by cases hin
  unborn _ _ := rfl
  early topic frames hfound := by cases hfound
  sound _ := throughout_nil _
  fits g sub hin := by cases hin

variable (sent) in
theorem step_watched (stableKey : Value → String) (c : Client) (a : Act)
    (hwatched : Watched sent c) (hgenuine : ∀ frame, a = .frame frame → Genuine sent frame) :
    Watched sent (step stableKey c a) := by
  cases a with
  | subscribe channel key => exact subscribe_watched stableKey hwatched channel key
  | unsubscribe sub => exact hwatched.calm (unsubscribe_calm c sub)
  | frame frame => exact handleFrame_watched hwatched frame (hgenuine frame rfl)
  | ready => exact hwatched.calm (becomeReady_calm c)
  | lost => exact hwatched.calm (lost_calm c)
  | stop => exact hwatched.calm ((lost_calm c).trans (.of_same rfl))

theorem Watched.mono {sent' : Seen → Prop} {c : Client} (hwatched : Watched sent c)
    (hmono : ∀ x, sent x → sent' x) : Watched sent' c := by
  have hsound : ∀ log, Sound sent log → Sound sent' log := by
    intro log hsound before e after heq
    have hheard := hsound before e after heq
    cases e with
    | acked epoch seq => exact hmono _ hheard
    | message m => exact ⟨hmono _ hheard.1, hheard.2⟩
    | gap reason | error error | kick => trivial
  refine ⟨hwatched.owned, hwatched.unborn, ?_, fun sub => hsound _ (hwatched.sound sub), ?_⟩
  · intro topic frames hfound frame hframe
    exact hmono _ (hwatched.early topic frames hfound frame hframe)
  · intro g sub hin
    have hfits := hwatched.fits g sub hin
    exact ⟨hsound _ hfits.sound, hfits.known⟩

end

end Stakit.SocketSubscriptions
