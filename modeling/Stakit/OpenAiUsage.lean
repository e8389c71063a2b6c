import Stakit.OpenAiFinality

set_option autoImplicit false

namespace Stakit.OpenAi
open AgentMessages SerdeJson ProviderStreams EntryMaps ExceptLoops List

section
variable {N : Type} (serde : Serde N)

def detailGroups : List (String × List String) :=
  [("prompt_tokens_details", ["cached_tokens", "cache_write_tokens"]),
    ("completion_tokens_details", ["reasoning_tokens", "audio_tokens"])]

def detailCount (value : Value N) (group key : String) : Option ℕ :=
  ((get value group).bind fun details => get details key).bind serde.asU64

def latest (report : Value N → Option ℕ) (history : List (Value N)) : Option ℕ :=
  (history.filterMap report).getLast?

/-- A member that is absent, null or a count. -/
def Reported (value : Value N) (key : String) : Prop :=
  ∀ inner, get value key = some inner → isNull inner = false → (serde.asU64 inner).isSome

structure WellFormed (update : Value N) : Prop where
  object : isObject update = true
  counters : ∀ key ∈ counters, Reported serde update key
  total : ∀ total, get update "total_tokens" = some total → (serde.asU64 total).isSome
  details : ∀ group ∈ detailGroups, ∀ inner, get update group.1 = some inner →
    isNull inner = false → isObject inner = true ∧ ∀ key ∈ group.2, Reported serde inner key

/-- Neither count falls below the one reported last. -/
def Increasing (before : List (Value N)) (update : Value N) : Prop :=
  ∀ key ∈ counters, ∀ count previous, serde.countMember update key = some count →
    latest (serde.countMember · key) before = some previous → previous ≤ count

def Known (history : List (Value N)) : Prop :=
  ∀ key ∈ counters, (latest (serde.countMember · key) history).isSome

def Counts (update : Value N) : Prop := ∃ key ∈ counters, (serde.countMember update key).isSome

def Stands (history : List (Value N)) (total : ℕ) : Prop :=
  ∃ before update after, history = before ++ update :: after ∧
    serde.countMember update "total_tokens" = some total ∧
    ∀ front later rest, after = front ++ later :: rest →
      serde.countMember later "total_tokens" = none ∧
        ¬ (Known serde (before ++ update :: front) ∧ Counts serde later)

/-- Details stay within the counts they belong to, and a standing total is their sum. -/
structure Consistent (history : List (Value N)) : Prop where
  prompt : ∀ prompt, latest (serde.countMember · "prompt_tokens") history = some prompt →
    (latest (detailCount serde · "prompt_tokens_details" "cached_tokens") history).getD 0 +
      (latest (detailCount serde · "prompt_tokens_details" "cache_write_tokens") history).getD 0 ≤
        prompt
  completion : ∀ completion,
    latest (serde.countMember · "completion_tokens") history = some completion →
    (latest (detailCount serde · "completion_tokens_details" "reasoning_tokens") history).getD 0 ≤
      completion
  total : ∀ prompt completion total,
    latest (serde.countMember · "prompt_tokens") history = some prompt →
    latest (serde.countMember · "completion_tokens") history = some completion →
    Stands serde history total → prompt + completion = total

structure Admissible (before : List (Value N)) (update : Value N) : Prop where
  wellFormed : WellFormed serde update
  increasing : Increasing serde before update
  consistent : Consistent serde (before ++ [update])

/-- A merged object says what was reported last. -/
structure Merges (history : List (Value N)) (current : Value N) : Prop where
  shape : isNull current = true ∨ isObject current = true
  groups : ∀ group ∈ detailGroups, ∀ inner, get current group.1 = some inner → isObject inner = true
  counts : ∀ key ∈ counters,
    serde.countMember current key = latest (serde.countMember · key) history
  details : ∀ group ∈ detailGroups, ∀ key ∈ group.2,
    detailCount serde current group.1 key = latest (detailCount serde · group.1 key) history
  total : ∀ total, serde.countMember current "total_tokens" = some total ↔
    Stands serde history total

variable {serde}

theorem latest_snoc (report : Value N → Option ℕ) (history : List (Value N)) (update : Value N) :
    latest report (history ++ [update]) = (report update).or (latest report history) := by
  unfold latest
  rw [filterMap_append]
  cases hreport : report update with
  | none => rw [filterMap_cons_none hreport, filterMap_nil, append_nil]; rfl
  | some count =>
    rw [filterMap_cons_some hreport, filterMap_nil, List.getLast?_concat]
    rfl

theorem stands_snoc (history : List (Value N)) (update : Value N) (total : ℕ) :
    Stands serde (history ++ [update]) total ↔
      serde.countMember update "total_tokens" = some total ∨
        serde.countMember update "total_tokens" = none ∧
          ¬ (Known serde history ∧ Counts serde update) ∧ Stands serde history total := by
  constructor
  · rintro ⟨before, reported, after, heq, htotal, hafter⟩
    rcases eq_nil_or_concat after with rfl | ⟨front, last, rfl⟩
    · obtain ⟨_, hlast⟩ := append_inj' heq rfl
      rw [List.cons.inj hlast |>.1]
      exact .inl htotal
    · rw [concat_eq_append, ← cons_append, ← append_assoc] at heq
      obtain ⟨rfl, hlast⟩ := append_inj' heq rfl
      obtain rfl := (List.cons.inj hlast).1
      obtain ⟨hnone, hcounts⟩ := hafter front update [] (concat_eq_append)
      refine .inr ⟨hnone, hcounts, before, reported, front, rfl, htotal, ?_⟩
      intro front' later rest hfront
      refine hafter front' later (rest ++ [update]) ?_
      rw [hfront, concat_eq_append, append_assoc]
      rfl
  · rintro (htotal | ⟨hnone, hcounts, before, reported, after, rfl, htotal, hafter⟩)
    · refine ⟨history, update, [], rfl, htotal, fun front later rest h => ?_⟩
      exact absurd h.symm (append_ne_nil_of_right_ne_nil front (cons_ne_nil later rest))
    · refine ⟨before, reported, after ++ [update], by simp, htotal, fun front later rest h => ?_⟩
      rcases eq_nil_or_concat rest with rfl | ⟨rest, last, rfl⟩
      · obtain ⟨rfl, hlast⟩ := append_inj' h rfl
        obtain rfl := (List.cons.inj hlast).1
        exact ⟨hnone, hcounts⟩
      · rw [concat_eq_append, ← cons_append, ← append_assoc] at h
        obtain ⟨rfl, _⟩ := append_inj' h rfl
        exact hafter front later rest rfl

variable (value : Value N) (keys : List String) (inner : Value N) (key : String)
  {history : List (Value N)} {current : Value N} (update : Value N)

theorem counts_of_null (h : (get value key).filter (fun inner => !isNull inner) = none) :
    serde.countMember value key = none ∧ Reported serde value key := by
  unfold Serde.countMember Reported
  cases hget : get value key with
  | none => exact ⟨rfl, nofun⟩
  | some inner =>
    rw [hget, Option.filter_some] at h
    cases inner with
    | null => exact ⟨rfl, fun _ h hnull => by cases h; cases hnull⟩
    | _ => cases h

theorem present_of_filter (h : (get value key).filter (fun inner => !isNull inner) = some inner) :
    get value key = some inner ∧ isNull inner = false := by
  obtain ⟨hget, hnull⟩ := Option.filter_eq_some_iff.mp h
  exact ⟨hget, by simpa using hnull⟩

theorem mergeCounter_accepts (current update : Value N) (key : String) :
    (∃ next, mergeCounter serde current update key = .ok next) ↔ Reported serde update key ∧
      (key ∈ counters → ∀ count previous, serde.countMember update key = some count →
        serde.countMember current key = some previous → previous ≤ count) := by
  unfold mergeCounter
  split
  · rename_i hnone
    have hnull : serde.countMember update key = none ∧ Reported serde update key :=
      counts_of_null update key hnone
    obtain ⟨hcount, hreported⟩ := hnull
    exact iff_of_true ⟨current, rfl⟩ ⟨hreported, fun _ count _ h => by rw [hcount] at h; cases h⟩
  · rename_i value hsome
    obtain ⟨hget, hnull⟩ := present_of_filter update value key hsome
    have hcount : serde.countMember update key = serde.asU64 value := by
      unfold Serde.countMember
      rw [hget, Option.bind_some]
    split
    · rename_i hnone
      refine iff_of_false (fun ⟨_, h⟩ => nomatch h) fun ⟨hreported, _⟩ => ?_
      have hsome := hreported value hget hnull
      rw [hnone] at hsome
      cases hsome
    · rename_i observed hobserved
      rw [hcount, hobserved]
      have hreported : Reported serde update key := by
        intro inner hinner _
        rw [hget] at hinner
        rw [← Option.some.inj hinner, hobserved]
        rfl
      constructor
      · rintro ⟨next, h⟩
        obtain ⟨hrefuse, _⟩ := (then_eq_ok _ _ _).mp h
        rw [refuse_eq_ok] at hrefuse
        refine ⟨hreported, fun hkey count previous hcount hprevious => ?_⟩
        cases hcount
        refine Nat.le_of_not_lt fun hlt => hrefuse ⟨hkey, ?_⟩
        rw [hprevious]
        exact decide_eq_true hlt
      · rintro ⟨_, hincreasing⟩
        refine ⟨_, (then_eq_ok _ _ _).mpr ⟨(refuse_eq_ok _ _ ()).mpr ?_, rfl⟩⟩
        rintro ⟨hkey, hless⟩
        cases hprevious : serde.countMember current key with
        | none =>
          rw [hprevious] at hless
          cases hless
        | some previous =>
          rw [hprevious] at hless
          have hle := hincreasing hkey observed previous rfl hprevious
          have hlt : observed < previous := of_decide_eq_true hless
          omega

theorem mergeTotal_accepts (current update : Value N) :
    (∃ next, mergeTotal serde current update = .ok next) ↔
      ∀ total, get update "total_tokens" = some total → (serde.asU64 total).isSome := by
  unfold mergeTotal
  cases hget : get update "total_tokens" with
  | none => exact iff_of_true ⟨current, rfl⟩ nofun
  | some total =>
    dsimp only
    split
    · rename_i hnone
      refine iff_of_false (fun ⟨_, h⟩ => nomatch h) fun h => ?_
      rw [Option.isNone_iff_eq_none] at hnone
      have hsome := h total rfl
      rw [hnone] at hsome
      cases hsome
    · rename_i hsome
      refine iff_of_true ⟨_, rfl⟩ fun other hother => ?_
      cases hother
      exact Option.ne_none_iff_isSome.mp (mt Option.isNone_iff_eq_none.mpr hsome)

theorem mergeTotal_total {update next : Value N} (h : mergeTotal serde current update = .ok next)
    (hobject : isObject current = true) :
    serde.countMember next "total_tokens" =
      (serde.countMember update "total_tokens").or (serde.countMember current "total_tokens") := by
  unfold mergeTotal at h
  cases hget : get update "total_tokens" with
  | none =>
    rw [hget] at h
    cases h
    unfold Serde.countMember
    rw [hget]
    rfl
  | some total =>
    rw [hget] at h
    dsimp only at h
    split at h
    · cases h
    · rename_i hsome
      cases h
      unfold Serde.countMember
      rw [get_setMember _ _ _ _ hobject, if_pos rfl, hget, Option.bind_some]
      obtain ⟨count, hcount⟩ := Option.ne_none_iff_exists'.mp (mt Option.isNone_iff_eq_none.mpr hsome)
      rw [hcount]
      rfl

theorem mergeCounters_accepts (hkeys : ∀ key ∈ keys, key ∉ counters) :
    (∃ merged, keys.foldlM (fun inner key => mergeCounter serde inner update key) inner =
      .ok merged) ↔ ∀ key ∈ keys, Reported serde update key := by
  induction keys generalizing inner with
  | nil => exact iff_of_true ⟨inner, rfl⟩ nofun
  | cons key keys ih =>
    have hkey := hkeys key mem_cons_self
    have hrest := fun inner => ih inner fun key h => hkeys key (mem_cons_of_mem _ h)
    rw [forall_mem_cons]
    simp only [foldlM_cons, bind_eq_ok]
    constructor
    · rintro ⟨merged, next, hnext, hmerged⟩
      exact ⟨((mergeCounter_accepts inner update key).mp ⟨next, hnext⟩).1,
        (hrest next).mp ⟨merged, hmerged⟩⟩
    · rintro ⟨hreported, hall⟩
      obtain ⟨next, hnext⟩ := (mergeCounter_accepts inner update key).mpr
        ⟨hreported, fun h => absurd h hkey⟩
      obtain ⟨merged, hmerged⟩ := (hrest next).mpr hall
      exact ⟨merged, next, hnext, hmerged⟩

theorem mergeCounters_keeps {merged : Value N}
    (h : keys.foldlM (fun inner key => mergeCounter serde inner update key) inner = .ok merged) :
    Keeps keys inner merged := by
  induction keys generalizing inner with
  | nil =>
    rw [foldlM_nil, pure_eq_ok] at h
    exact h ▸ .refl _ _
  | cons key keys ih =>
    rw [foldlM_cons, bind_eq_ok] at h
    obtain ⟨next, hnext, h⟩ := h
    exact (mergeCounter_keeps hnext).trans (ih next h)

theorem mergeCounters_counts {merged : Value N} (hnodup : keys.Nodup)
    (hobject : isObject inner = true)
    (h : keys.foldlM (fun inner key => mergeCounter serde inner update key) inner = .ok merged) :
    ∀ key ∈ keys, serde.countMember merged key =
      (serde.countMember update key).or (serde.countMember inner key) := by
  induction keys generalizing inner with
  | nil => exact nofun
  | cons key keys ih =>
    rw [foldlM_cons, bind_eq_ok] at h
    obtain ⟨next, hnext, h⟩ := h
    rw [nodup_cons] at hnodup
    have hkeeps := mergeCounter_keeps hnext
    rw [forall_mem_cons]
    refine ⟨?_, fun other hother => ?_⟩
    · rw [(mergeCounters_keeps keys next update h).count hnodup.1,
        mergeCounter_counts hnext hobject]
    · rw [ih next hnodup.2 (hkeeps.object hobject) h other hother]
      have hne : other ∉ [key] := by
        rw [mem_singleton]
        rintro rfl
        exact hnodup.1 hother
      rw [hkeeps.count hne]

theorem mergeGroup_accepts (current : Value N) (group : String) (keys : List String)
    (hkeys : ∀ key ∈ keys, key ∉ counters) :
    (∃ next, mergeGroup serde update current group keys = .ok next) ↔
      ∀ inner, get update group = some inner → isNull inner = false →
        isObject inner = true ∧ ∀ key ∈ keys, Reported serde inner key := by
  unfold mergeGroup
  split
  · rename_i hnone
    refine iff_of_true ⟨current, rfl⟩ fun inner hget hnull => ?_
    rw [hget, Option.filter_some, hnull] at hnone
    cases hnone
  · rename_i details hsome
    obtain ⟨hget, hnull⟩ := present_of_filter update details group hsome
    constructor
    · rintro ⟨next, h⟩ inner hinner _
      rw [hget] at hinner
      cases hinner
      obtain ⟨hrefuse, h⟩ := (then_eq_ok _ _ _).mp h
      obtain ⟨merged, hmerged, _⟩ := (bind_eq_ok _ _ _).mp h
      rw [refuse_eq_ok] at hrefuse
      exact ⟨by simpa using hrefuse, (mergeCounters_accepts keys _ _ hkeys).mp ⟨merged, hmerged⟩⟩
    · intro h
      obtain ⟨hobject, hreported⟩ := h details hget hnull
      obtain ⟨merged, hmerged⟩ := (mergeCounters_accepts keys
        ((get current group).getD (.object [])) details hkeys).mpr hreported
      refine ⟨_, (then_eq_ok _ _ _).mpr ⟨(refuse_eq_ok _ _ ()).mpr ?_,
        (bind_eq_ok _ _ _).mpr ⟨merged, hmerged, rfl⟩⟩⟩
      rw [hobject]
      exact Bool.noConfusion

theorem mergeGroup_details {update current next : Value N} {group : String} {keys : List String}
    (h : mergeGroup serde update current group keys = .ok next) (hnodup : keys.Nodup)
    (hobject : isObject current = true)
    (hinner : ∀ inner, get current group = some inner → isObject inner = true) :
    (∀ inner, get next group = some inner → isObject inner = true) ∧
      ∀ key ∈ keys, detailCount serde next group key =
        (detailCount serde update group key).or (detailCount serde current group key) := by
  unfold mergeGroup at h
  split at h
  · rename_i hnone
    cases h
    refine ⟨hinner, fun key _ => ?_⟩
    have habsent : detailCount serde update group key = none := by
      unfold detailCount
      cases hget : get update group with
      | none => rfl
      | some inner =>
        rw [hget, Option.filter_some] at hnone
        cases inner with
        | null => rfl
        | _ => cases hnone
    rw [habsent, Option.none_or]
  · rename_i details hsome
    obtain ⟨hget, hnull⟩ := present_of_filter update details group hsome
    obtain ⟨_, h⟩ := (then_eq_ok _ _ _).mp h
    obtain ⟨merged, hmerged, h⟩ := (bind_eq_ok _ _ _).mp h
    cases h
    have hbase : isObject ((get current group).getD (.object [])) = true := by
      cases hcurrent : get current group with
      | none => rfl
      | some inner => exact hinner inner hcurrent
    have hset : get (setMember current group merged) group = some merged := by
      rw [get_setMember _ _ _ _ hobject, if_pos rfl]
    constructor
    · intro inner h
      rw [hset] at h
      cases h
      exact (mergeCounters_keeps keys _ _ hmerged).object hbase
    · intro key hkey
      have hcount := mergeCounters_counts keys _ _ hnodup hbase hmerged key hkey
      have hold : serde.countMember ((get current group).getD (.object [])) key =
          detailCount serde current group key := by
        unfold detailCount
        cases get current group with
        | none | some inner => rfl
      rw [hold] at hcount
      unfold detailCount
      rw [hset, hget, Option.bind_some, Option.bind_some]
      exact hcount

/-- The merged object before the checks. -/
def merge (serde : Serde N) (current update : Value N) : Except ProviderError (Value N) := do
  let current := withoutTotal serde (if isNull current then .object [] else current) update
  let current ← mergeCounter serde current update "prompt_tokens"
  let current ← mergeCounter serde current update "completion_tokens"
  let current ← mergeTotal serde current update
  let current ← mergeGroup serde update current "prompt_tokens_details"
    ["cached_tokens", "cache_write_tokens"]
  mergeGroup serde update current "completion_tokens_details" ["reasoning_tokens", "audio_tokens"]

theorem mergeUsage_eq (current update : Value N) : mergeUsage serde current update = do
    refuse (isObject update = false) (.decode "invalid OpenAI usage")
    let next ← merge serde current update
    validateSubsets serde next
    validateReportedTotal serde next
    return next := by
  unfold mergeUsage merge
  simp only [bind_assoc]

theorem mergeUsage_eq_ok_iff (current update next : Value N) :
    mergeUsage serde current update = .ok next ↔ isObject update = true ∧
      merge serde current update = .ok next ∧ validateSubsets serde next = .ok () ∧
      validateReportedTotal serde next = .ok () := by
  rw [mergeUsage_eq, then_eq_ok, bind_eq_ok, refuse_eq_ok, Bool.not_eq_false]
  constructor
  · rintro ⟨hobject, merged, hmerged, h⟩
    obtain ⟨hsubsets, h⟩ := (then_eq_ok _ _ _).mp h
    obtain ⟨htotal, h⟩ := (then_eq_ok _ _ _).mp h
    cases h
    exact ⟨hobject, hmerged, hsubsets, htotal⟩
  · rintro ⟨hobject, hmerged, hsubsets, htotal⟩
    exact ⟨hobject, next, hmerged, (then_eq_ok _ _ _).mpr
      ⟨hsubsets, (then_eq_ok _ _ _).mpr ⟨htotal, rfl⟩⟩⟩

theorem start_of_merges (h : Merges serde history current) :
    isObject (withoutTotal serde (if isNull current then .object [] else current) update) = true ∧
      ∀ key ≠ "total_tokens", get (withoutTotal serde
        (if isNull current then .object [] else current) update) key = get current key := by
  have hopened : isObject (if isNull current then .object [] else current) = true ∧
      ∀ key, get (if isNull current then .object [] else current) key = get current key := by
    cases current with
    | null | object fields => exact ⟨rfl, fun _ => rfl⟩
    | _ => exact absurd h.shape (by simp [isNull, isObject])
  have hkeeps := withoutTotal_keeps serde (if isNull current then .object [] else current) update
  refine ⟨hkeeps.object hopened.1, fun key hkey => ?_⟩
  rw [hkeeps.same key (by simpa using hkey), hopened.2]

theorem known_iff (h : Merges serde history current) :
    Known serde history ↔ ∀ key ∈ counters, (serde.countMember current key).isSome :=
  forall₂_congr fun key hkey => by rw [h.counts key hkey]

theorem start_total {update : Value N} (h : Merges serde history current)
    (hnone : get update "total_tokens" = none) (total : ℕ) :
    serde.countMember (withoutTotal serde (if isNull current then .object [] else current) update)
      "total_tokens" = some total ↔
      ¬ (Known serde history ∧ Counts serde update) ∧ Stands serde history total := by
  have hopened : ∀ key, get (if isNull current then .object [] else current) key =
      get current key := by
    cases current with
    | null | _ => exact fun _ => rfl
  have hcount : ∀ key, serde.countMember (if isNull current then .object [] else current) key =
      serde.countMember current key := by
    intro key
    unfold Serde.countMember
    rw [hopened]
  have hdropped : (counters.all (fun key => (serde.countMember
      (if isNull current then .object [] else current) key).isSome) = true ∧
      counters.any (fun key => (serde.countMember update key).isSome) = true ∧
      (get update "total_tokens").isNone = true) ↔ Known serde history ∧ Counts serde update := by
    rw [all_eq_true, any_eq_true, hnone, known_iff h]
    simp only [hcount, Option.isNone_none, and_true]
    rfl
  generalize (if isNull current then .object [] else current) = opened at hcount hdropped
  unfold withoutTotal
  split
  · rename_i hdrop
    refine iff_of_false (fun hsome => ?_) fun hstands => hstands.1 (hdropped.mp hdrop)
    unfold Serde.countMember at hsome
    rw [get_removeMember, if_pos rfl] at hsome
    cases hsome
  · rename_i hkept
    rw [hcount, h.total]
    exact (and_iff_right fun hknown => hkept (hdropped.mpr hknown)).symm

theorem merge_merges {update next : Value N} (h : Merges serde history current)
    (hmerge : merge serde current update = .ok next) : Merges serde (history ++ [update]) next := by
  unfold merge at hmerge
  obtain ⟨first, hfirst, hmerge⟩ := (bind_eq_ok _ _ _).mp hmerge
  obtain ⟨second, hsecond, hmerge⟩ := (bind_eq_ok _ _ _).mp hmerge
  obtain ⟨third, hthird, hmerge⟩ := (bind_eq_ok _ _ _).mp hmerge
  obtain ⟨fourth, hfourth, hfifth⟩ := (bind_eq_ok _ _ _).mp hmerge
  obtain ⟨hobject, hstart⟩ := start_of_merges update h
  have hkept (hnone : get update "total_tokens" = none) := start_total h hnone
  generalize withoutTotal serde (if isNull current then .object [] else current) update = start
    at hfirst hobject hstart hkept
  have hkeeps₁ := mergeCounter_keeps hfirst
  have hkeeps₂ := mergeCounter_keeps hsecond
  have hkeeps₃ := mergeTotal_keeps hthird
  have hkeeps₄ := mergeGroup_keeps hfourth
  have hkeeps₅ := mergeGroup_keeps hfifth
  have hobject₁ := hkeeps₁.object hobject
  have hobject₂ := hkeeps₂.object hobject₁
  have hobject₃ := hkeeps₃.object hobject₂
  have hobject₄ := hkeeps₄.object hobject₃
  have hbefore : ∀ key ∉ ["prompt_tokens", "completion_tokens", "total_tokens"],
      get third key = get current key := by
    intro key hkey
    rw [mem_cons, mem_cons, mem_singleton, not_or, not_or] at hkey
    rw [hkeeps₃.same key (by simpa using hkey.2.2), hkeeps₂.same key (by simpa using hkey.2.1),
      hkeeps₁.same key (by simpa using hkey.1), hstart key hkey.2.2]
  have hcountStart : ∀ key ≠ "total_tokens",
      serde.countMember start key = serde.countMember current key := by
    intro key hkey
    unfold Serde.countMember
    rw [hstart key hkey]
  have hdetailBefore : ∀ group ∉ ["prompt_tokens", "completion_tokens", "total_tokens"], ∀ key,
      detailCount serde third group key = detailCount serde current group key := by
    intro group hgroup key
    unfold detailCount
    rw [hbefore group hgroup]
  obtain ⟨hgroup₄, hdetails₄⟩ := mergeGroup_details hfourth (by decide) hobject₃ fun inner hinner =>
    h.groups ("prompt_tokens_details", _) (mem_cons_self) inner
      ((hbefore _ (by decide)).symm.trans hinner)
  have hsame₄ : get fourth "completion_tokens_details" = get current "completion_tokens_details" := by
    rw [hkeeps₄.same _ (by decide), hbefore _ (by decide)]
  obtain ⟨hgroup₅, hdetails₅⟩ := mergeGroup_details hfifth (by decide) hobject₄ fun inner hinner =>
    h.groups ("completion_tokens_details", _) (mem_cons_of_mem _ mem_cons_self) inner
      (hsame₄.symm.trans hinner)
  refine ⟨.inr (hkeeps₅.object hobject₄), ?_, ?_, ?_, ?_⟩
  · unfold detailGroups
    rw [forall_mem_cons, forall_mem_singleton]
    refine ⟨fun inner hinner => hgroup₄ inner ?_, hgroup₅⟩
    rw [← hkeeps₅.same _ (by decide)]
    exact hinner
  · unfold counters
    rw [forall_mem_cons, forall_mem_singleton, latest_snoc, latest_snoc]
    constructor
    · rw [hkeeps₅.count (by decide), hkeeps₄.count (by decide), hkeeps₃.count (by decide),
        hkeeps₂.count (by decide), mergeCounter_counts hfirst hobject, hcountStart _ (by decide),
        h.counts _ (by decide)]
    · rw [hkeeps₅.count (by decide), hkeeps₄.count (by decide), hkeeps₃.count (by decide),
        mergeCounter_counts hsecond hobject₁, hkeeps₁.count (by decide),
        hcountStart _ (by decide), h.counts _ (by decide)]
  · unfold detailGroups
    rw [forall_mem_cons, forall_mem_singleton]
    constructor
    · intro key hkey
      have hnext : detailCount serde next "prompt_tokens_details" key =
          detailCount serde fourth "prompt_tokens_details" key := by
        unfold detailCount
        rw [hkeeps₅.same _ (by decide)]
      rw [latest_snoc, hnext, hdetails₄ key hkey, hdetailBefore _ (by decide),
        h.details ("prompt_tokens_details", _) mem_cons_self key hkey]
    · intro key hkey
      have hold : detailCount serde fourth "completion_tokens_details" key =
          detailCount serde current "completion_tokens_details" key := by
        unfold detailCount
        rw [hsame₄]
      rw [latest_snoc, hdetails₅ key hkey, hold, h.details ("completion_tokens_details", _)
        (mem_cons_of_mem _ mem_cons_self) key hkey]
  · intro total
    rw [hkeeps₅.count (by decide), hkeeps₄.count (by decide), mergeTotal_total hthird hobject₂,
      hkeeps₂.count (by decide), hkeeps₁.count (by decide), stands_snoc]
    cases hcount : serde.countMember update "total_tokens" with
    | some reported => simp
    | none =>
      have hnone : get update "total_tokens" = none := by
        rw [Option.eq_none_iff_forall_ne_some]
        intro value hvalue
        have hsome := (mergeTotal_accepts second update).mp ⟨third, hthird⟩ value hvalue
        unfold Serde.countMember at hcount
        rw [hvalue, Option.bind_some] at hcount
        rw [hcount] at hsome
        cases hsome
      rw [Option.none_or, hkept hnone]
      simp

theorem merge_accepts (h : Merges serde history current) :
    (∃ next, merge serde current update = .ok next) ↔
      (∀ key ∈ counters, Reported serde update key) ∧ Increasing serde history update ∧
      (∀ total, get update "total_tokens" = some total → (serde.asU64 total).isSome) ∧
      ∀ group ∈ detailGroups, ∀ inner, get update group.1 = some inner → isNull inner = false →
        isObject inner = true ∧ ∀ key ∈ group.2, Reported serde inner key := by
  obtain ⟨_, hstart⟩ := start_of_merges update h
  have hbefore : ∀ key ∈ counters, serde.countMember (withoutTotal serde
      (if isNull current then .object [] else current) update) key =
        latest (serde.countMember · key) history := by
    intro key hkey
    rw [← h.counts key hkey]
    unfold Serde.countMember
    rw [hstart key]
    rintro rfl
    exact absurd hkey (by decide)
  unfold merge
  generalize withoutTotal serde (if isNull current then .object [] else current) update = start
    at hbefore
  have hprompt : (∃ next, mergeCounter serde start update "prompt_tokens" = .ok next) ↔ _ :=
    mergeCounter_accepts start update "prompt_tokens"
  simp only [bind_eq_ok]
  constructor
  · rintro ⟨next, first, hfirst, second, hsecond, third, hthird, fourth, hfourth, hfifth⟩
    obtain ⟨hreported, hincreasing⟩ := hprompt.mp ⟨first, hfirst⟩
    obtain ⟨hreported', hincreasing'⟩ := (mergeCounter_accepts _ _ _).mp ⟨second, hsecond⟩
    refine ⟨?_, ?_, (mergeTotal_accepts _ _).mp ⟨third, hthird⟩, ?_⟩
    · unfold counters
      rw [forall_mem_cons, forall_mem_singleton]
      exact ⟨hreported, hreported'⟩
    · unfold Increasing
      intro key hkey count previous hcount hprevious
      rw [← hbefore key hkey] at hprevious
      rcases mem_cons.mp hkey with rfl | hother
      · exact hincreasing hkey count previous hcount hprevious
      · obtain rfl := mem_singleton.mp hother
        refine hincreasing' hkey count previous hcount ?_
        rw [(mergeCounter_keeps hfirst).count (by decide)]
        exact hprevious
    · unfold detailGroups
      rw [forall_mem_cons, forall_mem_singleton]
      exact ⟨(mergeGroup_accepts _ _ _ _ (by decide)).mp ⟨fourth, hfourth⟩,
        (mergeGroup_accepts _ _ _ _ (by decide)).mp ⟨next, hfifth⟩⟩
  · rintro ⟨hreported, hincreasing, htotal, hdetails⟩
    obtain ⟨first, hfirst⟩ := hprompt.mpr ⟨hreported _ (by decide), fun hkey count previous hcount
      hprevious => hincreasing _ hkey count previous hcount ((hbefore _ hkey).symm.trans hprevious)⟩
    obtain ⟨second, hsecond⟩ := (mergeCounter_accepts first update "completion_tokens").mpr
      ⟨hreported _ (by decide), fun hkey count previous hcount hprevious => by
        rw [(mergeCounter_keeps hfirst).count (by decide)] at hprevious
        exact hincreasing _ hkey count previous hcount ((hbefore _ hkey).symm.trans hprevious)⟩
    obtain ⟨third, hthird⟩ := (mergeTotal_accepts second update).mpr htotal
    obtain ⟨fourth, hfourth⟩ := (mergeGroup_accepts update third "prompt_tokens_details"
      ["cached_tokens", "cache_write_tokens"] (by decide)).mpr (hdetails (_, _) mem_cons_self)
    obtain ⟨next, hfifth⟩ := (mergeGroup_accepts update fourth "completion_tokens_details"
      ["reasoning_tokens", "audio_tokens"] (by decide)).mpr
      (hdetails (_, _) (mem_cons_of_mem _ mem_cons_self))
    exact ⟨next, first, hfirst, second, hsecond, third, hthird, fourth, hfourth, hfifth⟩

theorem detail_eq (group key : String) :
    detail serde value group key = (detailCount serde value group key).getD 0 := rfl

theorem countMember_lt (hword : ∀ n count, serde.u64 n = some count → count < 2 ^ 64)
    {value : Value N} {key : String} {count : ℕ} (h : serde.countMember value key = some count) :
    count < 2 ^ 64 := by
  obtain ⟨inner, _, hinner⟩ := Option.bind_eq_some_iff.mp h
  cases inner with
  | number n => exact hword n count hinner
  | _ => cases hinner

theorem validateSubsets_iff (hword : ∀ n count, serde.u64 n = some count → count < 2 ^ 64)
    {history : List (Value N)} {current : Value N} (h : Merges serde history current) :
    validateSubsets serde current = .ok () ↔
      (∀ prompt, latest (serde.countMember · "prompt_tokens") history = some prompt →
        (latest (detailCount serde · "prompt_tokens_details" "cached_tokens") history).getD 0 +
          (latest (detailCount serde · "prompt_tokens_details" "cache_write_tokens") history).getD 0 ≤
            prompt) ∧
      ∀ completion, latest (serde.countMember · "completion_tokens") history = some completion →
        (latest (detailCount serde · "completion_tokens_details" "reasoning_tokens") history).getD 0 ≤
          completion := by
  have hprompt := h.counts "prompt_tokens" (by decide)
  have hcompletion := h.counts "completion_tokens" (by decide)
  have hfirst := h.details ("prompt_tokens_details", _) mem_cons_self
  have hcached := hfirst "cached_tokens" (by decide)
  have hwritten := hfirst "cache_write_tokens" (by decide)
  have hreasoning := h.details ("completion_tokens_details", _)
    (mem_cons_of_mem _ mem_cons_self) "reasoning_tokens" (by decide)
  unfold validateSubsets
  rw [refuse_eq_ok, detail_eq, detail_eq, detail_eq, hcached, hwritten, hreasoning, ← hprompt,
    ← hcompletion, not_or]
  refine and_congr ?_ ?_
  · cases hcount : serde.countMember current "prompt_tokens" with
    | none => exact iff_of_true (by simp) nofun
    | some total =>
      have hlt := countMember_lt hword hcount
      simp only [Option.any_some, decide_eq_true_eq, Option.some.injEq, forall_eq']
      omega
  · cases serde.countMember current "completion_tokens" with
    | none => exact iff_of_true (by simp) nofun
    | some total =>
      simp only [Option.any_some, decide_eq_true_eq, Option.some.injEq, forall_eq']
      omega

theorem validateReportedTotal_iff
    (hword : ∀ n count, serde.u64 n = some count → count < 2 ^ 64)
    {history : List (Value N)} {current : Value N} (h : Merges serde history current) :
    validateReportedTotal serde current = .ok () ↔ ∀ prompt completion total,
      latest (serde.countMember · "prompt_tokens") history = some prompt →
      latest (serde.countMember · "completion_tokens") history = some completion →
      Stands serde history total → prompt + completion = total := by
  rw [← h.counts "prompt_tokens" (by decide), ← h.counts "completion_tokens" (by decide)]
  simp only [← h.total]
  unfold validateReportedTotal
  split
  · rename_i total prompt completion htotal hprompt hcompletion
    have hlt := countMember_lt hword htotal
    rw [refuse_eq_ok, hprompt, hcompletion, htotal]
    constructor
    · intro hnot p c t hp hc ht
      cases hp
      cases hc
      cases ht
      omega
    · intro hall
      have hsum := hall prompt completion total rfl rfl rfl
      omega
  · rename_i hnot
    refine iff_of_true rfl fun prompt completion total hprompt hcompletion htotal => ?_
    exact absurd hcompletion (hnot total prompt completion htotal hprompt)

theorem mergeUsage_accepts (hword : ∀ n count, serde.u64 n = some count → count < 2 ^ 64)
    (history : List (Value N)) (current update : Value N) (h : Merges serde history current) :
    (∃ next, mergeUsage serde current update = .ok next) ↔ Admissible serde history update := by
  constructor
  · rintro ⟨next, hnext⟩
    obtain ⟨hobject, hmerge, hsubsets, htotal⟩ := (mergeUsage_eq_ok_iff _ _ _).mp hnext
    have hmerges := merge_merges h hmerge
    obtain ⟨hcounters, hincreasing, htotals, hdetails⟩ := (merge_accepts update h).mp ⟨next, hmerge⟩
    obtain ⟨hprompt, hcompletion⟩ := (validateSubsets_iff hword hmerges).mp hsubsets
    exact ⟨⟨hobject, hcounters, htotals, hdetails⟩, hincreasing,
      ⟨hprompt, hcompletion, (validateReportedTotal_iff hword hmerges).mp htotal⟩⟩
  · rintro ⟨⟨hobject, hcounters, htotals, hdetails⟩, hincreasing, hprompt, hcompletion, htotal⟩
    obtain ⟨next, hmerge⟩ := (merge_accepts update h).mpr
      ⟨hcounters, hincreasing, htotals, hdetails⟩
    have hmerges := merge_merges h hmerge
    exact ⟨next, (mergeUsage_eq_ok_iff _ _ _).mpr ⟨hobject, hmerge,
      (validateSubsets_iff hword hmerges).mpr ⟨hprompt, hcompletion⟩,
      (validateReportedTotal_iff hword hmerges).mpr htotal⟩⟩

theorem mergeUsage_merges (history : List (Value N)) (current update next : Value N)
    (h : Merges serde history current) (hnext : mergeUsage serde current update = .ok next) :
    Merges serde (history ++ [update]) next :=
  merge_merges h ((mergeUsage_eq_ok_iff _ _ _).mp hnext).2.1

theorem merges_null : Merges serde [] (.null : Value N) where
  shape := .inl rfl
  groups _ _ _ h := nomatch h
  counts _ _ := rfl
  details _ _ _ _ := rfl
  total _ := iff_of_false nofun fun ⟨_, _, _, h, _⟩ =>
    absurd h.symm (append_ne_nil_of_right_ne_nil _ (cons_ne_nil _ _))

/-- A sequence of usage objects is merged exactly if each is admissible after the ones before it,
and then every count is the one reported last. -/
theorem usage_merged (hword : ∀ n count, serde.u64 n = some count → count < 2 ^ 64)
    (updates : List (Value N)) :
    ((∃ merged, updates.foldlM (mergeUsage serde) .null = .ok merged) ↔
      ∀ before update after, updates = before ++ update :: after → Admissible serde before update) ∧
    ∀ merged, updates.foldlM (mergeUsage serde) .null = .ok merged → Merges serde updates merged := by
  constructor
  · exact foldlM_admitted (mergeUsage serde) (Merges serde) (Admissible serde)
      (mergeUsage_accepts hword) mergeUsage_merges updates [] .null merges_null
  · intro merged hrun
    exact foldlM_history (mergeUsage serde) (Merges serde) mergeUsage_merges updates [] .null
      merged merges_null hrun

variable (serde) in
/-- Where both counts are known with a reported total, it is their sum. -/
def SumAtReport (before : List (Value N)) (update : Value N) : Prop :=
  ∀ total prompt completion, serde.countMember update "total_tokens" = some total →
    latest (serde.countMember · "prompt_tokens") (before ++ [update]) = some prompt →
    latest (serde.countMember · "completion_tokens") (before ++ [update]) = some completion →
    prompt + completion = total

end

/-- Numbers are counts below the word size. -/
def wordSerde : Serde ℕ where
  fromStr _ := .error "expected value"
  json := .string
  toText _ := ""
  ofString := .string
  asStr := asStr
  debug text := text
  fromSlice _ := .error (1, 1)
  u64 n := if n < 2 ^ 64 then some n else none

theorem wordSerde_word (n count : ℕ) (h : wordSerde.u64 n = some count) : count < 2 ^ 64 := by
  change (if n < 2 ^ 64 then some n else none) = some count at h
  split at h
  · rename_i hn
    cases h
    exact hn
  · cases h

def earlyTotal : Value ℕ := .object [("total_tokens", .number 8)]

def cachedPrompt : Value ℕ := .object [("prompt_tokens", .number 7),
  ("prompt_tokens_details", .object [("cached_tokens", .number 3)])]

def oneCompletion : Value ℕ := .object [("completion_tokens", .number 1)]

theorem usage_merged_early_total : Admissible wordSerde [earlyTotal, cachedPrompt] oneCompletion :=
  (usage_merged wordSerde_word [earlyTotal, cachedPrompt, oneCompletion]).1.mp ⟨_, rfl⟩
    [earlyTotal, cachedPrompt] oneCompletion [] rfl

def totalWithPrompt : Value ℕ := .object [("prompt_tokens", .number 4), ("total_tokens", .number 10)]

def laterCompletion : Value ℕ := .object [("completion_tokens", .number 8)]

/-- A total that was reported before the completions were known stands until they are, and is then
compared with their later count. -/
theorem early_total_rejected : SumAtReport wordSerde [] totalWithPrompt ∧
    SumAtReport wordSerde [totalWithPrompt] laterCompletion ∧
    Increasing wordSerde [] totalWithPrompt ∧
    Increasing wordSerde [totalWithPrompt] laterCompletion ∧
    [totalWithPrompt, laterCompletion].foldlM (mergeUsage wordSerde) .null =
      .error (.decode "OpenAI total usage does not match prompt and completion tokens") := by
  refine ⟨?_, ?_, ?_, ?_, rfl⟩
  · intro total prompt completion _ _ hcompletion
    cases hcompletion
  · intro total prompt completion htotal _ _
    cases htotal
  · intro key _ count previous _ hprevious
    cases hprevious
  · intro key hkey count previous hcount hprevious
    rcases mem_cons.mp hkey with rfl | hother
    · cases hcount
    · obtain rfl := mem_singleton.mp hother
      cases hprevious

end Stakit.OpenAi
