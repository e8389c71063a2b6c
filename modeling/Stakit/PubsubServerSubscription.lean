import Stakit.PubsubHubFrames

set_option autoImplicit false

namespace Stakit.PubsubHub
open FiniteMap PubsubTopic RouterError TransitionRuns

/-- The section neither unsubscribes the connection from the topic nor kicks its
user from it. -/
def Spares (id : ConnId) (topic : Topic) (h : Hub) : Section → Prop
  | .unsubscribe who other => ¬ (who = id ∧ other = topic)
  | .kick other user => ¬ (other = topic ∧ userOf h id = some user)
  | _ => True

def SparesOp (id : ConnId) (topic : Topic) (h : Hub) (op : Op) : Prop :=
  (∀ s ∈ own h op, Spares id topic h s) ∧ ∀ walk, op = .reset walk → walk.Perm h.index.keys

/-- Through every later run that spares it, the connection stays on the topic
until it is closed. -/
def Stays (h : Hub) (id : ConnId) (topic : Topic) : Prop :=
  ∀ ops, Meets apply (SparesOp id topic) h ops → identityOf (run apply h ops) id = none ∨
      (entry (run apply h ops) id topic).isSome = true

/-- What keeps the subscription: its flag is off, or the queue takes no frame, so
that a reset closes the connection. -/
structure Kept (id : ConnId) (topic : Topic) (h : Hub) : Prop where
  index : IndexInv h
  old : id < h.nextConn
  kept : identityOf h id = none ∨ entry h id topic = some false ∨
    (entry h id topic = some true ∧ Shut (h.peers id))

variable (h : Hub) (s : Section) (id : ConnId) (topic : Topic)

theorem step_spares {flag : Bool} (hinv : IndexInv h) (hspares : Spares id topic h s)
    (hentry : entry h id topic = some flag) (hwalk : ∀ topics, s = .walk topics → flag = false) :
    identityOf (step h s) id = none ∨ entry (step h s) id topic = some flag := by
  obtain hkept | rfl | ⟨user, rfl, huser⟩ | ⟨topics, rfl, _, hflag⟩ | hgone :=
    step_entry_kept h s id topic flag hinv hentry
  · exact .inr hkept
  · exact absurd ⟨rfl, rfl⟩ hspares
  · exact absurd ⟨rfl, huser⟩ hspares
  · rw [hwalk topics rfl] at hflag
    cases hflag
  · exact .inl hgone

structure Plain (id : ConnId) (topic : Topic) (h : Hub) : Prop where
  index : IndexInv h
  old : id < h.nextConn
  plain : identityOf h id = none ∨ entry h id topic = some false

theorem step_plain (hinv : Plain id topic h) (hspares : Spares id topic h s) :
    Plain id topic (step h s) where
  index := step_index h s hinv.index
  old := hinv.old.trans_le (step_nextConn h s)
  plain := by
    obtain hgone | hentry := hinv.plain
    · exact .inl (step_identity_gone h s id hinv.old hgone)
    · exact step_spares h s id topic hinv.index hspares hentry fun _ _ => rfl

theorem step_kept (hinv : Kept id topic h) (hspares : Spares id topic h s)
    (hwalk : ∀ topics, s ≠ .walk topics) :
    Kept id topic (step h s) where
  index := step_index h s hinv.index
  old := hinv.old.trans_le (step_nextConn h s)
  kept := by
    obtain hgone | hentry | ⟨hentry, hshut⟩ := hinv.kept
    · exact .inl (step_identity_gone h s id hinv.old hgone)
    · obtain hgone | hkept := step_spares h s id topic hinv.index hspares hentry
        fun _ _ => rfl
      · exact .inl hgone
      · exact .inr (.inl hkept)
    · obtain hgone | hkept := step_spares h s id topic hinv.index hspares hentry
        fun topics heq => absurd heq (hwalk topics)
      · exact .inl hgone
      · exact .inr (.inr ⟨hkept, step_shut h s hinv.old hshut⟩)

theorem quiet_spares (h : Hub) {s : Section} (hquiet : Quiet s) :
    Spares id topic h s ∧ ∀ topics, s ≠ .walk topics := by
  cases s <;> first | exact hquiet.elim | exact ⟨trivial, fun _ => by simp⟩

theorem free_spares (h : Hub) {s : Section} (hfree : Free s) : Spares id topic h s := by
  cases s <;> first | exact trivial | exact hfree.elim

theorem reset_shut {walk : List Topic} {id : ConnId} {topic : Topic} (hinv : IndexInv h)
    (hwalk : walk.Nodup) (hin : topic ∈ walk) (hentry : entry h id topic = some true)
    (hshut : Shut (h.peers id)) : identityOf (reset h walk) id = none := by
  obtain ⟨revocations, heq⟩ := bumpAll_same h
  have hmem : id ∈ subscriberIds (bumpAll h) topic := by
    rw [heq]
    exact (hinv.members id topic).mpr (by simp [hentry])
  have hcount := resetFrames_count (bumpAll h) walk hwalk topic id
  have hentry' : entry (bumpAll h) id topic = some true := by
    rw [heq]
    exact hentry
  rw [if_pos ⟨hin, hmem, hentry'⟩] at hcount
  refine closeAll_gone _ _ ((resetLocked_peer (bumpAll h) walk id).2.mpr ?_)
  refine offerAll_shut _ _ ?_ ?_
  · rw [heq]
    exact hshut
  · intro hnil
    rw [hnil] at hcount
    cases hcount

theorem reset_kept {walk : List Topic} {id : ConnId} {topic : Topic}
    (hwalk : walk.Perm h.index.keys) (hinv : Kept id topic h) : Kept id topic (reset h walk) := by
  have hplain : Plain id topic h → Kept id topic (reset h walk) := by
    intro hplain
    have hafter : Plain id topic (apply h (.reset walk)) := by
      refine apply_keeps (Plain id topic) ?_ h _ ?_ hplain
      · intro h s hfree hinv
        exact step_plain h s id topic hinv (free_spares id topic h hfree)
      · intro s hs
        exact step_plain h s id topic hplain
          (free_spares id topic h (own_reset_free h walk hs))
    exact ⟨hafter.index, hafter.old, hafter.plain.imp_right .inl⟩
  have hnext : id < (reset h walk).nextConn :=
    apply_keeps (fun h => id < h.nextConn) (fun h s _ hlt => hlt.trans_le (step_nextConn h s)) h
      (.reset walk) (fun s _ => hinv.old.trans_le (step_nextConn h s)) hinv.old
  obtain hgone | hentry | ⟨hentry, hshut⟩ := hinv.kept
  · exact hplain ⟨hinv.index, hinv.old, .inl hgone⟩
  · exact hplain ⟨hinv.index, hinv.old, .inr hentry⟩
  · refine ⟨apply_index h (.reset walk) hinv.index, hnext, .inl ?_⟩
    have hin : topic ∈ walk := by
      rw [hwalk.mem_iff]
      have hmem := (hinv.index.members id topic).mpr (by simp [hentry])
      obtain ⟨state, hstate, _⟩ := lookup_of_mem_subscriberIds h topic hmem
      exact mem_keys_of_lookup h.index topic state hstate
    have hnodup : walk.Nodup := hwalk.nodup_iff.mpr h.index.keys_nodup
    exact reset_shut h hinv.index hnodup hin hentry hshut

theorem apply_kept {op : Op} {id : ConnId} {topic : Topic} (hspares : SparesOp id topic h op)
    (hinv : Kept id topic h) : Kept id topic (apply h op) := by
  have hquiet : ∀ h s, Quiet s → Kept id topic h → Kept id topic (step h s) := by
    intro h s hquiet hinv
    obtain ⟨hspares, hwalk⟩ := quiet_spares id topic h hquiet
    exact step_kept h s id topic hinv hspares hwalk
  obtain hnil | ⟨s, hs, hwalk⟩ | ⟨walk, rfl⟩ := own_cases h op
  · refine apply_keeps_of_own (Kept id topic) hquiet h op ?_
    rw [hnil]
    exact hinv
  · refine apply_keeps_of_own (Kept id topic) hquiet h op ?_
    rw [hs]
    exact step_kept h s id topic hinv (hspares.1 s (by simp [hs])) hwalk
  · exact reset_kept h (hspares.2 walk rfl) hinv

theorem Kept.stays {h : Hub} {id : ConnId} {topic : Topic} (hinv : Kept id topic h) :
    Stays h id topic := by
  intro ops hmeets
  have hkept := guarded_run_invariant apply (SparesOp id topic) (Kept id topic)
    (fun h op hinv hspares => apply_kept h hspares hinv) h ops hinv hmeets
  obtain hgone | hentry | ⟨hentry, _⟩ := hkept.kept
  · exact .inl hgone
  · exact .inr (by simp [hentry])
  · exact .inr (by simp [hentry])

theorem run_unsubscribes (topics : List Topic) (who : ConnId) (other : Topic) :
    entry (run apply h (topics.map (.unsubscribe id))) who other =
      (if who = id ∧ other ∈ topics then none else entry h who other) ∧
    identityOf (run apply h (topics.map (.unsubscribe id))) who = identityOf h who ∧
    (run apply h (topics.map (.unsubscribe id))).peers = h.peers := by
  induction topics generalizing h with
  | nil => simp
  | cons topic topics ih =>
    obtain ⟨hentry, hid, hpeers⟩ := ih (unsubscribe h id topic).1
    simp only [List.map_cons, run_cons]
    change entry (run apply (unsubscribe h id topic).1 _) who other = _ ∧
      identityOf (run apply (unsubscribe h id topic).1 _) who = _ ∧
      (run apply (unsubscribe h id topic).1 _).peers = _
    refine ⟨?_, hid.trans ((unsubscribe_prunes h id topic).identityOf who), hpeers.trans ?_⟩
    · rw [hentry, unsubscribe_entry]
      by_cases hwho : who = id <;> by_cases hother : other = topic <;> simp [hwho, hother]
    · obtain ⟨_, heq⟩ | ⟨conn, flag, _, _, heq⟩ := unsubscribe_cases h id topic
      · rw [heq]
      · rw [heq]
        rfl

theorem run_receives (n : ℕ) :
    ∃ peers, run apply h (List.replicate n (.receive id)) = { h with peers := peers } ∧
      peers id = { h.peers id with queue := (h.peers id).queue.drop n } := by
  induction n generalizing h with
  | zero => exact ⟨h.peers, rfl, rfl⟩
  | succ n ih =>
    obtain ⟨peers, heq, hpeer⟩ := ih (receive h id)
    refine ⟨peers, ?_, ?_⟩
    · rw [List.replicate_succ, run_cons]
      exact heq
    · rw [hpeer]
      simp [receive, List.drop_tail]

theorem reset_drops (hinv : IndexInv h) (hentry : entry h id topic = some true)
    (honly : ∀ other, other ≠ topic → entry h id other = none) (hopen : ¬ Shut (h.peers id))
    (hidle : (h.peers id).queue = []) :
    identityOf (reset h h.index.keys) id ≠ none ∧ entry (reset h h.index.keys) id topic = none := by
  obtain ⟨revocations, heq⟩ := bumpAll_same h
  have hmem : id ∈ subscriberIds h topic := (hinv.members id topic).mpr (by simp [hentry])
  have hlen : (resetFrames (bumpAll h) h.index.keys id).length ≤ 1 := by
    rw [resetFrames_length _ _ h.index.keys_nodup]
    have hsub : h.index.keys.filter (fun other => decide (id ∈ subscriberIds (bumpAll h) other)) ⊆
        [topic] := by
      intro other hin
      have hin := (List.mem_filter.mp hin).2
      rw [decide_eq_true_eq, heq] at hin
      by_contra hother
      have hsome := (hinv.members id other).mp hin
      rw [honly other (by simpa using hother)] at hsome
      cases hsome
    exact (List.subperm_of_subset (h.index.keys_nodup.filter _) hsub).length_le
  obtain ⟨hlive, hroom⟩ : (h.peers id).receiving = true ∧ (h.peers id).capacity ≠ 0 := by
    simpa [Shut] using hopen
  have htaken : id ∉ (resetLocked (bumpAll h) h.index.keys).2 := by
    rw [(resetLocked_peer (bumpAll h) h.index.keys id).2, Bool.not_eq_false]
    refine offerAll_room _ _ ?_ ?_
    · rw [heq]
      exact hlive
    · rw [heq] at hlen ⊢
      simp only [hidle, List.length_nil, Nat.zero_add]
      exact hlen.trans (Nat.pos_of_ne_zero hroom)
  have hin : topic ∈ h.index.keys := by
    obtain ⟨state, hstate, _⟩ := lookup_of_mem_subscriberIds h topic hmem
    exact mem_keys_of_lookup h.index topic state hstate
  constructor
  · unfold reset
    dsimp only
    rw [Ne, identityOf_none, closeAll_byId, if_neg htaken, ← identityOf_none,
      (resetLocked_prunes (bumpAll h) h.index.keys).identityOf, heq]
    obtain ⟨conn, hconn⟩ := registered_of_entry h id topic hentry
    simp [identityOf, hconn]
  · unfold reset
    dsimp only
    rw [closeAll_entry, if_neg htaken, resetLocked_entry, heq, if_pos]
    exact ⟨hin, hmem, hentry⟩

theorem not_stays (hinv : IndexInv h) (hentry : entry h id topic = some true)
    (hopen : ¬ Shut (h.peers id)) : ¬ Stays h id topic := by
  intro hstays
  obtain ⟨conn, hconn⟩ := registered_of_entry h id topic hentry
  let others := conn.topics.keys.filter (· ≠ topic)
  let drain := (h.peers id).queue.length
  let alone := run apply h (others.map (.unsubscribe id))
  obtain ⟨peers, hdrained, hqueue⟩ := run_receives alone id drain
  have hleft := run_unsubscribes h id others
  have hpeers : alone.peers = h.peers := (hleft id topic).2.2
  rw [hpeers] at hqueue
  let idle := run apply alone (List.replicate drain (.receive id))
  have hidleInv : IndexInv idle := run_apply_index alone _ (run_apply_index h _ hinv)
  have hidleEntry : ∀ other, entry idle id other =
      if other ∈ others then none else entry h id other := by
    intro other
    change entry (run apply alone _) id other = _
    rw [hdrained]
    refine ((hleft id other).1).trans ?_
    simp
  have hself : entry idle id topic = some true := by
    rw [hidleEntry, if_neg (by simp [others]), hentry]
  have honly : ∀ other, other ≠ topic → entry idle id other = none := by
    intro other hother
    rw [hidleEntry, entry_of_lookup h id other hconn]
    split_ifs with hin
    · rfl
    · cases hflag : conn.topics.lookup other with
      | none => rfl
      | some flag =>
        refine absurd ?_ hin
        simp only [others, List.mem_filter, decide_eq_true_eq]
        exact ⟨mem_keys_of_lookup conn.topics other flag hflag, hother⟩
  have hidlePeer : idle.peers id = { h.peers id with queue := [] } := by
    change (run apply alone _).peers id = _
    rw [hdrained]
    refine hqueue.trans ?_
    simp [drain]
  obtain ⟨halive, hlost⟩ := reset_drops idle id topic hidleInv hself honly
    (by rw [hidlePeer]; exact hopen) (by rw [hidlePeer])
  have hmeets : Meets apply (SparesOp id topic) h
      (others.map (.unsubscribe id) ++ (List.replicate drain (.receive id) ++
        [.reset idle.index.keys])) := by
    rw [meets_append, meets_append]
    refine ⟨?_, ?_, ?_⟩
    · refine meets_of_forall apply (SparesOp id topic) _ _ fun h op hop => ?_
      obtain ⟨other, hother, rfl⟩ := List.mem_map.mp hop
      refine ⟨?_, by simp⟩
      simp only [own, List.mem_singleton, forall_eq]
      rintro ⟨_, rfl⟩
      simp [others] at hother
    · refine meets_of_forall apply (SparesOp id topic) _ _ fun h op hop => ?_
      obtain rfl := List.eq_of_mem_replicate hop
      exact ⟨by simp [own], by simp⟩
    · refine ⟨⟨fun s hs => free_spares id topic _ (own_reset_free _ _ hs), ?_⟩, trivial⟩
      intro walk heq
      cases heq
      exact List.Perm.refl _
  have hend := hstays _ hmeets
  rw [run_append, run_append] at hend
  obtain hgone | hsome := hend
  · exact halive hgone
  · change (entry (reset idle idle.index.keys) id topic).isSome = true at hsome
    rw [hlost] at hsome
    cases hsome

theorem subscribe_auto {position : Cursor} (hok : (subscribe h id topic auto).2 = .ok position) :
    (subscribe h id topic auto).1 = step h (.subscribe id topic auto) ∧
      entry (subscribe h id topic auto).1 id topic = some ((entry h id topic).getD false) ∧
      (subscribe h id topic auto).1.peers id = h.peers id := by
  cases hconn : h.byId.lookup id with
  | none =>
    simp [subscribe, subscribeLocked, hconn] at hok
  | some conn =>
    obtain ⟨state, _, heq⟩ := subscribeLocked_auto h id topic conn hconn
    have hafter : (subscribe h id topic auto).1 = (subscribed h id conn topic state auto).1 := by
      unfold subscribe
      rw [heq]
      rfl
    refine ⟨?_, ?_, ?_⟩
    · rw [hafter, step, heq]
    · rw [hafter, subscribed_entry h id conn topic state auto hconn]
      cases entry h id topic <;> simp [auto]
    · rw [hafter, subscribed_peer]
      simp [auto, offerAll]

/-- From every reachable state, a server-side subscribe that returned `Ok` lasts
through resets exactly when the client had not subscribed to the topic itself, or
its queue takes no frame any more and a reset closes it. -/
theorem server_subscription_stays_iff (hasher : Topic → ℕ) (epochBase : ℕ) (ops : List Op)
    (id : ConnId) (topic : Topic) (position : Cursor)
    (hok : (subscribe (run apply (newHub hasher epochBase) ops) id topic auto).2 = .ok position) :
    Stays (subscribe (run apply (newHub hasher epochBase) ops) id topic auto).1 id topic ↔
      entry (run apply (newHub hasher epochBase) ops) id topic ≠ some true ∨
        Shut ((run apply (newHub hasher epochBase) ops).peers id) := by
  have hinv := run_apply_index _ ops (newHub_index hasher epochBase)
  generalize run apply (newHub hasher epochBase) ops = h at hok hinv ⊢
  obtain ⟨hafter, hentry, hpeer⟩ := subscribe_auto h id topic hok
  have hindex : IndexInv (subscribe h id topic auto).1 := by
    rw [hafter]
    exact step_index h _ hinv
  obtain ⟨conn, hconn⟩ := registered_of_entry _ id topic hentry
  constructor
  · intro hstays
    by_contra hnot
    rw [not_or, not_not] at hnot
    rw [hnot.1] at hentry
    exact not_stays _ id topic hindex hentry (by rw [hpeer]; exact hnot.2) hstays
  · intro hcond
    refine Kept.stays ⟨hindex, hindex.fresh id conn hconn, .inr ?_⟩
    rw [hentry, hpeer]
    rcases hflag : entry h id topic with _ | _ | _
    · exact .inl rfl
    · exact .inl rfl
    · obtain hne | hshut := hcond
      · exact absurd hflag hne
      · exact .inr ⟨rfl, hshut⟩

theorem fresh_server_subscription_stays :
    (subscribe (run apply (newHub (fun _ => 0) 0) [.register 8]) 1 "room:id=7" auto).2 =
      .ok ⟨0, 0⟩ ∧
    Stays (subscribe (run apply (newHub (fun _ => 0) 0) [.register 8]) 1 "room:id=7" auto).1 1
      "room:id=7" := by
  have hok : (subscribe (run apply (newHub (fun _ => 0) 0) [.register 8]) 1 "room:id=7" auto).2 =
      .ok ⟨0, 0⟩ := by decide
  exact ⟨hok, (server_subscription_stays_iff _ _ _ 1 _ _ hok).mpr (.inl (by decide))⟩

/-- The client subscribes, the server subscribes the same topic, the broker resets:
the session is connected and no longer subscribed. -/
theorem client_first_subscription_lost : (subscribe (run apply (newHub (fun _ => 0) 0)
      [.register 8, .subscribe 1 "room:id=7" ⟨true, 64, some 0, none⟩]) 1 "room:id=7" auto).2 =
      .ok ⟨0, 0⟩ ∧
    ¬ Stays (subscribe (run apply (newHub (fun _ => 0) 0)
      [.register 8, .subscribe 1 "room:id=7" ⟨true, 64, some 0, none⟩]) 1 "room:id=7" auto).1 1
      "room:id=7" := by
  refine ⟨by decide, fun hstays => ?_⟩
  have hend := hstays [.reset ["room:id=7"]]
    ⟨⟨fun s hs => free_spares _ _ _ (own_reset_free _ _ hs), ?_⟩, trivial⟩
  · obtain hgone | hsome := hend
    · exact absurd hgone (by decide)
    · exact absurd hsome (by decide)
  · intro walk heq
    cases heq
    decide

end Stakit.PubsubHub
