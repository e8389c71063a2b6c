import Mathlib.Algebra.Order.BigOperators.Group.List
import Stakit.ClaudeReplay
import Stakit.OpenAiFinality

set_option autoImplicit false

namespace Stakit.StreamBytes

open EntryMaps List

theorem sum_recounted {κ : Type} [DecidableEq κ] (before after : κ → ℕ) {keys : List κ}
    (hnodup : keys.Nodup) {key : κ} (hkey : key ∈ keys)
    (hother : ∀ other ∈ keys, other ≠ key → after other = before other) :
    (keys.map after).sum + before key = (keys.map before).sum + after key := by
  induction keys with
  | nil => cases hkey
  | cons first rest ih =>
    obtain ⟨hfirst, hrest⟩ := nodup_cons.mp hnodup
    rw [map_cons, map_cons, sum_cons, sum_cons]
    by_cases heq : first = key
    · have hsame : rest.map after = rest.map before := by
        refine map_congr_left fun other hin => ?_
        refine hother other (mem_cons_of_mem _ hin) fun hsame => hfirst ?_
        rw [heq, ← hsame]
        exact hin
      rw [hsame, heq]
      omega
    · have hin := (mem_cons.mp hkey).resolve_left (Ne.symm heq)
      have hsum := ih hrest hin fun other hmem => hother other (mem_cons_of_mem _ hmem)
      have hkept := hother first mem_cons_self heq
      omega

theorem sum_replaced {ν : Type} (bytes : ν → ℕ) {entries : Entries ℕ ν} (hsorted : Sorted entries)
    (key : ℕ) (value : ν) :
    ((insertSorted entries key value).map fun entry => bytes entry.2).sum +
        (entries.lookup key).elim 0 bytes =
      (entries.map fun entry => bytes entry.2).sum + bytes value := by
  induction entries with
  | nil => exact Nat.add_zero _ |>.trans (Nat.add_comm _ _)
  | cons entry rest ih =>
    obtain ⟨hfirst, hrest⟩ := pairwise_cons.mp hsorted
    unfold insertSorted
    rw [lookup_cons_ite]
    split_ifs with hbelow heq heq
    · omega
    · rw [lookup_none_of_below rest key fun other hin => hbelow.trans (hfirst other hin)]
      simp only [map_cons, sum_cons, Option.elim_none]
      omega
    · simp only [map_cons, sum_cons, Option.elim_some]
      omega
    · have hsum := ih hrest
      simp only [map_cons, sum_cons]
      omega

end Stakit.StreamBytes

namespace Stakit.Claude
open AgentMessages SerdeJson ProviderStreams FiniteMap ExceptLoops EntryMaps StreamBytes

section
variable {N : Type}

/-- What a block holds, without a bound. -/
def Block.size (serde : Serde N) : Block N → ℕ
  | .text buffer | .redacted buffer => buffer.utf8ByteSize
  | .thinking buffer signature => buffer.utf8ByteSize + signature.elim 0 String.utf8ByteSize
  | .tool id name initial json => id.utf8ByteSize + name.utf8ByteSize +
      json.elim (initial.elim 0 fun input => (serde.toText input).utf8ByteSize) String.utf8ByteSize

theorem saturatingAdd_exact {a b limit : ℕ} (hlimit : limit < 2 ^ 64 - 1)
    (h : saturatingAdd a b ≤ limit) : saturatingAdd a b = a + b := by
  unfold saturatingAdd at h ⊢
  omega

theorem saturatingAdd_small {a b limit : ℕ} (hlimit : limit < 2 ^ 64 - 1) (h : a + b ≤ limit) :
    saturatingAdd a b = a + b := by
  unfold saturatingAdd
  omega

theorem maxStreamBlockBytes_lt : maxStreamBlockBytes < 2 ^ 64 - 1 := by decide

theorem maxStreamResponseBytes_lt : maxStreamResponseBytes < 2 ^ 64 - 1 := by decide

variable {serde : Serde N} {accum : Accum N} {events : Events N} {block : Block N}

theorem size_of_bytes (h : block.bytes serde ≤ maxStreamBlockBytes) :
    block.bytes serde = block.size serde := by
  cases block with
  | text | redacted => rfl
  | thinking buffer signature => exact saturatingAdd_exact maxStreamBlockBytes_lt h
  | tool id name initial json =>
    have houter := saturatingAdd_exact maxStreamBlockBytes_lt h
    have hinner : saturatingAdd id.utf8ByteSize name.utf8ByteSize ≤ maxStreamBlockBytes := by
      refine le_trans ?_ h
      rw [Block.bytes, houter]
      exact Nat.le_add_right _ _
    rw [Block.bytes, houter, saturatingAdd_exact maxStreamBlockBytes_lt hinner]
    rfl

theorem bytes_of_size (h : block.size serde ≤ maxStreamBlockBytes) :
    block.bytes serde = block.size serde := by
  cases block with
  | text | redacted => rfl
  | thinking buffer signature => exact saturatingAdd_small maxStreamBlockBytes_lt h
  | tool id name initial json =>
    have hinner := saturatingAdd_small maxStreamBlockBytes_lt (le_trans (Nat.le_add_right _ _) h)
    rw [Block.bytes, hinner]
    exact saturatingAdd_small maxStreamBlockBytes_lt h

theorem reserve_ok {current removed added total left : ℕ}
    (h : reserve current removed added total = .ok left) :
    current - removed + added ≤ maxStreamBlockBytes ∧ left = total - removed + added ∧
      left ≤ maxStreamResponseBytes := by
  unfold reserve refuse at h
  dsimp only at h
  split_ifs at h with hlimit
  · cases h
  · rw [not_or, not_lt, not_lt] at hlimit
    have hblock := saturatingAdd_exact maxStreamBlockBytes_lt hlimit.1
    have hresponse := saturatingAdd_exact maxStreamResponseBytes_lt hlimit.2
    cases h
    rw [← hblock]
    exact ⟨hlimit.1, hresponse, hlimit.2⟩

theorem replacedBytes_size (id name : String) {initial : Option (Value N)} {json : Option String}
    {removed : ℕ} (h : replacedBytes serde initial json = .ok removed) :
    (Block.tool id name initial json).size serde = removed +
      (id.utf8ByteSize + name.utf8ByteSize + (json.getD "").utf8ByteSize) := by
  unfold replacedBytes at h
  split at h
  · cases h
    exact (Nat.zero_add _).symm
  · cases h
    exact (Nat.zero_add _).symm
  · split at h
    · cases h
      exact Nat.add_comm _ _
    · cases h

/-- A delta that is accepted counts what it adds. -/
structure Recounted (serde : Serde N) (block next : Block N) (total left : ℕ) : Prop where
  total : left + block.bytes serde = total + next.bytes serde
  block : next.bytes serde ≤ maxStreamBlockBytes
  response : left ≤ maxStreamResponseBytes

theorem recounted {next : Block N} {removed added total left : ℕ}
    (hblock : block.bytes serde ≤ maxStreamBlockBytes) (htotal : block.bytes serde ≤ total)
    (hremoved : removed ≤ block.size serde)
    (hnext : next.size serde + removed = block.size serde + added)
    (h : reserve (block.bytes serde) removed added total = .ok left) :
    Recounted serde block next total left := by
  obtain ⟨hsize, hleft, hresponse⟩ := reserve_ok h
  have hbytes := size_of_bytes hblock
  have hsmall : next.size serde ≤ maxStreamBlockBytes := by omega
  have hnextBytes := bytes_of_size hsmall
  refine ⟨?_, ?_, hresponse⟩ <;> omega

theorem getD_size (text : Option String) :
    (text.getD "").utf8ByteSize = text.elim 0 String.utf8ByteSize := by
  cases text <;> rfl

theorem input_recounted {id name part : String} {initial : Option (Value N)}
    {json : Option String} {removed total left : ℕ}
    (hblock : (Block.tool id name initial json).bytes serde ≤ maxStreamBlockBytes)
    (htotal : (Block.tool id name initial json).bytes serde ≤ total)
    (hremoved : replacedBytes serde initial json = .ok removed)
    (h : reserve ((Block.tool id name initial json).bytes serde) removed part.utf8ByteSize total =
      .ok left) :
    Recounted serde (.tool id name initial json)
      (.tool id name none (some (json.getD "" ++ part))) total left := by
  have hsize := replacedBytes_size id name hremoved
  refine recounted hblock htotal (hsize ▸ Nat.le_add_right _ _) ?_ h
  rw [hsize]
  simp only [Block.size, Option.elim_some, String.utf8ByteSize_append]
  omega

theorem delta_recounted {next : Block N} {delta : Value N} {total left : ℕ} {more : Events N}
    (hblock : block.bytes serde ≤ maxStreamBlockBytes) (htotal : block.bytes serde ≤ total)
    (hresponse : total ≤ maxStreamResponseBytes)
    (h : block.delta serde delta total = .ok (next, left, more)) :
    Recounted serde block next total left := by
  unfold Block.delta at h
  obtain ⟨kind, -, h⟩ := (bind_eq_ok _ _ _).mp h
  split at h
  · obtain ⟨part, -, h⟩ := (bind_eq_ok _ _ _).mp h
    obtain ⟨reserved, hreserved, h⟩ := (bind_eq_ok _ _ _).mp h
    cases h
    refine recounted hblock htotal (Nat.zero_le _) ?_ hreserved
    exact String.utf8ByteSize_append
  · obtain ⟨part, -, h⟩ := (bind_eq_ok _ _ _).mp h
    obtain ⟨reserved, hreserved, h⟩ := (bind_eq_ok _ _ _).mp h
    cases h
    refine recounted hblock htotal (Nat.zero_le _) ?_ hreserved
    simp only [Block.size, String.utf8ByteSize_append]
    omega
  · obtain ⟨part, -, h⟩ := (bind_eq_ok _ _ _).mp h
    obtain ⟨reserved, hreserved, h⟩ := (bind_eq_ok _ _ _).mp h
    cases h
    refine recounted hblock htotal (Nat.zero_le _) ?_ hreserved
    simp only [Block.size, Option.elim_some, String.utf8ByteSize_append, getD_size]
    omega
  · obtain ⟨part, -, h⟩ := (bind_eq_ok _ _ _).mp h
    split at h
    · cases h
      exact ⟨rfl, hblock, hresponse⟩
    · obtain ⟨removed, hremoved, h⟩ := (bind_eq_ok _ _ _).mp h
      obtain ⟨reserved, hreserved, h⟩ := (bind_eq_ok _ _ _).mp h
      cases h
      exact input_recounted hblock htotal hremoved hreserved
  · cases h
    exact ⟨rfl, hblock, hresponse⟩

def finishedBlocks (events : Events N) : Entries ℕ (AssistantContent (Value N)) :=
  events.filterMap fun
    | .assistantBlock index content => some (index, content)
    | _ => none

/-- An open block counts as it is, a closed one as it was let out. -/
def blockSize (serde : Serde N) (accum : Accum N) (events : Events N) (index : ℕ) : ℕ :=
  match accum.blocks.lookup index with
  | some block => block.elim 0 (Block.bytes serde)
  | none => ((finishedBlocks events).lookup index).elim 0 (assistantContentBytes serde.toHost)

structure Accounted (serde : Serde N) (accum : Accum N) (events : Events N) : Prop where
  distinct : accum.seen.Nodup
  opened : ∀ index, accum.blocks.lookup index ≠ none → index ∈ accum.seen
  finished : ∀ index, (finishedBlocks events).lookup index ≠ none →
    index ∈ accum.seen ∧ accum.blocks.lookup index = none
  total : accum.responseBytes = (accum.seen.map (blockSize serde accum events)).sum
  response : accum.responseBytes ≤ maxStreamResponseBytes
  block : ∀ index ∈ accum.seen, blockSize serde accum events index ≤ maxStreamBlockBytes
  openBlocks : accum.blocks.keys.length ≤ maxStreamOpenBlocks
  blocks : accum.seen.length ≤ maxStreamResponseBlocks

/-- Nothing is taken off that was not counted: not what a first argument replaces, not a block
that is closed. -/
structure Exact (serde : Serde N) (accum : Accum N) : Prop where
  closed : ∀ index block, accum.blocks.lookup index = some (some block) →
    block.bytes serde ≤ accum.responseBytes
  replaced : ∀ index id name initial json removed,
    accum.blocks.lookup index = some (some (.tool id name initial json)) →
    replacedBytes serde initial json = .ok removed →
      removed ≤ (Block.tool id name initial json).bytes serde ∧ removed ≤ accum.responseBytes

theorem Accounted.new (serde : Serde N) : Accounted serde .new [] where
  distinct := List.nodup_nil
  opened _ h := absurd rfl h
  finished _ h := absurd rfl h
  total := rfl
  response := Nat.zero_le _
  block _ h := absurd h List.not_mem_nil
  openBlocks := Nat.zero_le _
  blocks := Nat.zero_le _

theorem Accounted.bytes_le (h : Accounted serde accum events) {index : ℕ} {block : Block N}
    (hblock : accum.blocks.lookup index = some (some block)) :
    block.bytes serde ≤ maxStreamBlockBytes ∧ block.bytes serde ≤ accum.responseBytes := by
  have hseen := h.opened index (hblock ▸ Option.some_ne_none _)
  have hsize : blockSize serde accum events index = block.bytes serde := by
    rw [blockSize, hblock]
    rfl
  rw [← hsize, h.total]
  exact ⟨h.block index hseen, List.le_sum_of_mem (List.mem_map_of_mem hseen)⟩

theorem Accounted.exact (h : Accounted serde accum events) : Exact serde accum where
  closed _ _ hblock := (h.bytes_le hblock).2
  replaced index id name initial json removed hblock hremoved := by
    obtain ⟨hsmall, htotal⟩ := h.bytes_le hblock
    have hsize := replacedBytes_size id name hremoved
    rw [← size_of_bytes hsmall] at hsize
    omega

theorem finishedBlocks_append (events more : Events N) :
    finishedBlocks (events ++ more) = finishedBlocks events ++ finishedBlocks more :=
  List.filterMap_append

theorem finishedBlocks_plain {more : Events N} (h : ∀ event ∈ more, isBlock event = false) :
    finishedBlocks more = [] := by
  refine List.filterMap_eq_nil_iff.mpr fun event hevent => ?_
  cases event with
  | assistantBlock index content => cases h _ hevent
  | _ => rfl

theorem finishedBlocks_append_plain (events : Events N) {more : Events N}
    (h : ∀ event ∈ more, isBlock event = false) :
    finishedBlocks (events ++ more) = finishedBlocks events := by
  rw [finishedBlocks_append, finishedBlocks_plain h, List.append_nil]

theorem blockSize_congr {next : Accum N} {events more : Events N} {index : ℕ}
    (hblocks : next.blocks.lookup index = accum.blocks.lookup index)
    (hfinished : (finishedBlocks more).lookup index = (finishedBlocks events).lookup index) :
    blockSize serde next more index = blockSize serde accum events index := by
  rw [blockSize, blockSize, hblocks, hfinished]

theorem length_keys_insert (blocks : Map ℕ (Option (Block N))) (index : ℕ)
    (block : Option (Block N)) :
    (blocks.insert index block).keys.length = (blocks.keys.erase index).length + 1 := by
  rw [AList.keys_insert, List.length_cons]

theorem Accounted.recount {next : Accum N} {events more : Events N}
    (h : Accounted serde accum events) {index : ℕ} (hindex : index ∈ accum.seen)
    (hseen : next.seen = accum.seen) (hopen : next.blocks.keys.length ≤ accum.blocks.keys.length)
    (hblocks : ∀ other, other ≠ index → next.blocks.lookup other = accum.blocks.lookup other)
    (hfinished : ∀ other, other ≠ index → (finishedBlocks (events ++ more)).lookup other =
      (finishedBlocks events).lookup other)
    (hone : (finishedBlocks (events ++ more)).lookup index = none ∨ next.blocks.lookup index = none)
    (htotal : next.responseBytes + blockSize serde accum events index =
      accum.responseBytes + blockSize serde next (events ++ more) index)
    (hsize : blockSize serde next (events ++ more) index ≤ maxStreamBlockBytes)
    (hresponse : next.responseBytes ≤ maxStreamResponseBytes) :
    Accounted serde next (events ++ more) where
  distinct := hseen ▸ h.distinct
  opened other hother := by
    rw [hseen]
    by_cases heq : other = index
    · rw [heq]
      exact hindex
    · rw [hblocks other heq] at hother
      exact h.opened other hother
  finished other hother := by
    rw [hseen]
    by_cases heq : other = index
    · rw [heq] at hother ⊢
      exact ⟨hindex, hone.resolve_left hother⟩
    · rw [hfinished other heq] at hother
      rw [hblocks other heq]
      exact h.finished other hother
  total := by
    have hsum := sum_recounted (blockSize serde accum events)
      (blockSize serde next (events ++ more)) h.distinct hindex
      fun other _ heq => blockSize_congr (hblocks other heq) (hfinished other heq)
    rw [hseen]
    have hbefore := h.total
    omega
  response := hresponse
  block other hother := by
    rw [hseen] at hother
    by_cases heq : other = index
    · rw [heq]
      exact hsize
    · rw [blockSize_congr (hblocks other heq) (hfinished other heq)]
      exact h.block other hother
  openBlocks := le_trans hopen h.openBlocks
  blocks := hseen ▸ h.blocks

theorem initialEvents_plain (block : Option (Block N)) :
    ∀ event ∈ block.elim [] Block.initialEvents, isBlock event = false := by
  cases block with
  | none => exact nofun
  | some block => exact initialEvents_no_block block

theorem Accounted.start {serde : Serde N} {accum next : Accum N} {events more : Events N}
    {event : Value N} (h : Accounted serde accum events)
    (hpush : accum.start serde event = .ok (next, more)) :
    Accounted serde next (events ++ more) := by
  unfold Accum.start at hpush
  obtain ⟨index, -, hpush⟩ := (bind_eq_ok _ _ _).mp hpush
  obtain ⟨hnew, hpush⟩ := (then_eq_ok _ _ _).mp hpush
  obtain ⟨value, -, hpush⟩ := (bind_eq_ok _ _ _).mp hpush
  obtain ⟨block, -, hpush⟩ := (bind_eq_ok _ _ _).mp hpush
  obtain ⟨hlimit, hpush⟩ := (then_eq_ok _ _ _).mp hpush
  cases hpush
  rw [refuse_eq_ok, not_or, not_or, not_le, not_le] at hnew
  obtain ⟨hindex, hblocks, hopen⟩ := hnew
  rw [refuse_eq_ok, not_or, not_lt, not_lt] at hlimit
  obtain ⟨hsize, hresponse⟩ := hlimit
  rw [saturatingAdd_exact maxStreamResponseBytes_lt hresponse] at hresponse
  have hfinished := finishedBlocks_append_plain events (initialEvents_plain block)
  have hother : ∀ other ∈ accum.seen,
      (accum.blocks.insert index block).lookup other = accum.blocks.lookup other := by
    intro other hother
    rw [lookup_insert_ite, if_neg fun heq : other = index => hindex (heq ▸ hother)]
  have hkept : ∀ other ∈ accum.seen, blockSize serde
      { accum with
        seen := index :: accum.seen
        responseBytes := accum.responseBytes + block.elim 0 (Block.bytes serde)
        blocks := accum.blocks.insert index block }
      (events ++ block.elim [] Block.initialEvents) other = blockSize serde accum events other :=
    fun other hin => blockSize_congr (hother other hin) (by rw [hfinished])
  have hone : blockSize serde
      { accum with
        seen := index :: accum.seen
        responseBytes := accum.responseBytes + block.elim 0 (Block.bytes serde)
        blocks := accum.blocks.insert index block }
      (events ++ block.elim [] Block.initialEvents) index = block.elim 0 (Block.bytes serde) := by
    unfold blockSize
    dsimp only
    rw [lookup_insert_ite, if_pos rfl]
  constructor
  · exact List.nodup_cons.mpr ⟨hindex, h.distinct⟩
  · intro other hlookup
    dsimp only at hlookup
    rw [lookup_insert_ite] at hlookup
    split_ifs at hlookup with heq
    · rw [heq]
      exact List.mem_cons_self
    · exact List.mem_cons_of_mem _ (h.opened other hlookup)
  · intro other hlookup
    rw [hfinished] at hlookup
    obtain ⟨hseen, hclosed⟩ := h.finished other hlookup
    exact ⟨List.mem_cons_of_mem _ hseen, (hother other hseen).trans hclosed⟩
  · dsimp only
    rw [List.map_cons, List.sum_cons, hone, List.map_congr_left hkept, ← h.total]
    exact Nat.add_comm _ _
  · exact hresponse
  · intro other hin
    rcases List.mem_cons.mp hin with rfl | hin
    · rw [hone]
      exact hsize
    · rw [hkept other hin]
      exact h.block other hin
  · dsimp only
    rw [length_keys_insert]
    exact Nat.succ_le_of_lt (lt_of_le_of_lt List.length_erase_le hopen)
  · exact Nat.succ_le_of_lt hblocks

theorem Accounted.delta {serde : Serde N} {accum next : Accum N} {events more : Events N}
    {event : Value N} (h : Accounted serde accum events)
    (hpush : accum.delta serde event = .ok (next, more)) :
    Accounted serde next (events ++ more) := by
  unfold Accum.delta at hpush
  obtain ⟨index, -, hpush⟩ := (bind_eq_ok _ _ _).mp hpush
  split at hpush
  · rename_i block hblock
    obtain ⟨delta, -, hpush⟩ := (bind_eq_ok _ _ _).mp hpush
    obtain ⟨⟨grown, left, out⟩, hgrown, hpush⟩ := (bind_eq_ok _ _ _).mp hpush
    cases hpush
    obtain ⟨hsmall, htotal⟩ := h.bytes_le hblock
    obtain ⟨hrecounted, hsize, hresponse⟩ := delta_recounted hsmall htotal h.response hgrown
    have hfinished := finishedBlocks_append_plain events (extends_no_block (delta_extends hgrown))
    have hbefore : blockSize serde accum events index = block.bytes serde := by
      rw [blockSize, hblock]
      rfl
    have hafter : blockSize serde
        { accum with responseBytes := left, blocks := accum.blocks.insert index (some grown) }
        (events ++ more) index = grown.bytes serde := by
      unfold blockSize
      dsimp only
      rw [lookup_insert_ite, if_pos rfl]
      rfl
    refine h.recount (h.opened index (hblock ▸ Option.some_ne_none _)) rfl ?_ ?_ ?_ ?_ ?_ ?_ hresponse
    · dsimp only
      rw [length_keys_insert, List.length_erase_add_one (mem_keys_of_lookup _ _ _ hblock)]
    · intro other heq
      dsimp only
      rw [lookup_insert_ite, if_neg heq]
    · exact fun other _ => by rw [hfinished]
    · refine .inl ?_
      rw [hfinished]
      by_contra hlookup
      rw [(h.finished index hlookup).2] at hblock
      cases hblock
    · rw [hbefore, hafter]
      exact hrecounted
    · rw [hafter]
      exact hsize
  · cases hpush
    rw [List.append_nil]
    exact h

theorem finish_call_plain {content : AssistantContent (Value N)}
    {call : Option (StreamEvent (Value N))} (h : block.finish serde = .ok (content, call)) :
    ∀ event ∈ call.toList, isBlock event = false := by
  cases block with
  | tool id name initial json =>
    obtain ⟨⟨input, arguments⟩, -, h⟩ := (bind_eq_ok _ _ _).mp h
    cases h
    intro event hevent
    rw [List.mem_singleton.mp hevent]
    rfl
  | _ =>
    cases h
    exact nofun

theorem Accounted.finish {serde : Serde N} {accum next : Accum N} {events more : Events N}
    {event : Value N} (h : Accounted serde accum events)
    (hpush : accum.finish serde event = .ok (next, more)) :
    Accounted serde next (events ++ more) := by
  unfold Accum.finish at hpush
  obtain ⟨index, -, hpush⟩ := (bind_eq_ok _ _ _).mp hpush
  dsimp only at hpush
  have hblocks : ∀ other, other ≠ index →
      (accum.blocks.erase index).lookup other = accum.blocks.lookup other := by
    intro other heq
    rw [lookup_erase_ite, if_neg heq]
  have hclosed : (accum.blocks.erase index).lookup index = none := by
    rw [lookup_erase_ite, if_pos rfl]
  have hopen : (accum.blocks.erase index).keys.length ≤ accum.blocks.keys.length := by
    rw [AList.keys_erase]
    exact List.length_erase_le
  have hunfinished : accum.blocks.lookup index ≠ none →
      (finishedBlocks events).lookup index = none := by
    intro hblock
    by_contra hlookup
    exact hblock (h.finished index hlookup).2
  cases hlookup : accum.blocks.lookup index with
  | none =>
    rw [hlookup] at hpush
    cases hpush
    rw [List.append_nil, erase_of_lookup_none accum.blocks index hlookup]
    exact h
  | some known =>
    have hindex := h.opened index (hlookup ▸ Option.some_ne_none _)
    have hnew := hunfinished (hlookup ▸ Option.some_ne_none _)
    have hbefore : blockSize serde accum events index = known.elim 0 (Block.bytes serde) := by
      rw [blockSize, hlookup]
    rw [hlookup] at hpush
    cases known with
    | none =>
      cases hpush
      have hafter : blockSize serde { accum with blocks := accum.blocks.erase index }
          (events ++ []) index = 0 := by
        unfold blockSize
        rw [hclosed, List.append_nil, hnew]
        rfl
      refine h.recount hindex rfl hopen hblocks (fun other _ => ?_) (.inr hclosed) ?_ ?_ h.response
      · rw [List.append_nil]
      · rw [hbefore, hafter]
        rfl
      · rw [hafter]
        exact Nat.zero_le _
    | some block =>
      obtain ⟨⟨content, call⟩, hfinish, hpush⟩ := (bind_eq_ok _ _ _).mp hpush
      obtain ⟨hlimit, hpush⟩ := (then_eq_ok _ _ _).mp hpush
      cases hpush
      rw [refuse_eq_ok, not_or, not_lt, not_lt] at hlimit
      obtain ⟨hsize, hresponse⟩ := hlimit
      have hexact : saturatingAdd (accum.responseBytes - block.bytes serde)
          (assistantContentBytes serde.toHost content) =
          accum.responseBytes - block.bytes serde + assistantContentBytes serde.toHost content :=
        saturatingAdd_exact maxStreamResponseBytes_lt hresponse
      have htotal := (h.bytes_le hlookup).2
      have hfinished : finishedBlocks (events ++ .assistantBlock index content :: call.toList) =
          finishedBlocks events ++ [(index, content)] := by
        rw [finishedBlocks_append]
        refine congrArg (finishedBlocks events ++ ·) (congrArg ((index, content) :: ·) ?_)
        exact finishedBlocks_plain (finish_call_plain hfinish)
      have hafter : blockSize serde
          { accum with
            blocks := accum.blocks.erase index
            responseBytes := saturatingAdd (accum.responseBytes - block.bytes serde)
              (assistantContentBytes serde.toHost content) }
          (events ++ .assistantBlock index content :: call.toList) index =
          assistantContentBytes serde.toHost content := by
        unfold blockSize
        rw [hclosed, hfinished, List.lookup_append, hnew, Option.none_or, lookup_cons_ite,
          if_pos rfl]
        rfl
      refine h.recount hindex rfl hopen hblocks (fun other heq => ?_) (.inr hclosed) ?_ ?_ hresponse
      · rw [hfinished, List.lookup_append, lookup_cons_ite, if_neg heq]
        exact Option.or_none
      · rw [hbefore, hafter]
        change saturatingAdd (accum.responseBytes - block.bytes serde)
          (assistantContentBytes serde.toHost content) + block.bytes serde = _
        omega
      · rw [hafter]
        exact hsize

theorem Accounted.push {serde : Serde N} {accum next : Accum N} {events more : Events N}
    {event : Value N} {kind : EventKind} (h : Accounted serde accum events)
    (hpush : accum.push serde event kind = .ok (next, more)) :
    Accounted serde next (events ++ more) := by
  by_cases hcontent : isContent kind = true
  · unfold Accum.push at hpush
    split_ifs at hpush
    cases kind with
    | contentBlockStart => exact h.start hpush
    | contentBlockDelta => exact h.delta hpush
    | contentBlockStop => exact h.finish hpush
    | _ => cases hcontent
  · obtain ⟨hblocks, hseen, hbytes, hmore⟩ :=
      push_plain hpush (Bool.eq_false_of_not_eq_true hcontent)
    have hfinished : finishedBlocks (events ++ more) = finishedBlocks events := by
      refine finishedBlocks_append_plain events fun event hevent => ?_
      have hplain := hmore event hevent
      cases event with
      | assistantBlock index content => cases hplain
      | _ => rfl
    have hsize : ∀ index, blockSize serde next (events ++ more) index =
        blockSize serde accum events index :=
      fun index => blockSize_congr (by rw [hblocks]) (by rw [hfinished])
    constructor
    · rw [hseen]
      exact h.distinct
    · rw [hseen, hblocks]
      exact h.opened
    · rw [hseen, hblocks, hfinished]
      exact h.finished
    · rw [hseen, hbytes, h.total]
      exact congrArg List.sum (List.map_congr_left fun index _ => (hsize index).symm)
    · rw [hbytes]
      exact h.response
    · intro index hindex
      rw [hsize]
      exact h.block index (hseen ▸ hindex)
    · rw [hblocks]
      exact h.openBlocks
    · rw [hseen]
      exact h.blocks

theorem Accounted.event {decoder next : Decoder N} {events more : Events N} {event : Value N}
    (h : Accounted serde decoder.accum events)
    (hevent : decoder.event serde event = .ok (next, more)) :
    Accounted serde next.accum (events ++ more) := by
  obtain ⟨-, rfl, rfl⟩ | ⟨blocks, accum, -, -, -, -, -, hpush, rfl⟩ := event_takes hevent
  · rw [List.append_nil]
    exact h
  · exact h.push hpush

theorem Accounted.accept {decoder next : Decoder N} {events more : Events N} {part : List UInt8}
    (h : Accounted serde decoder.accum events)
    (hpart : decoder.accept serde part = .ok (next, more)) :
    Accounted serde next.accum (events ++ more) := by
  obtain ⟨framer, frame, -, ⟨-, rfl, rfl⟩ | ⟨data, event, -, -, hevent⟩⟩ := accept_cases hpart
  · rw [List.append_nil]
    exact h
  · have hframed : Accounted serde { decoder with framer := framer }.accum events := h
    exact hframed.event hevent

end

end Stakit.Claude

namespace Stakit.OpenAi
open AgentMessages SerdeJson ProviderStreams ExceptLoops EntryMaps StreamBytes

section
variable {N : Type}

structure Accounted (accum : Accum N) : Prop where
  sorted : Sorted accum.tools
  total : accum.toolBytes = (accum.tools.map fun entry => entry.2.bytes).sum
  response : accum.toolBytes ≤ maxStreamResponseBytes
  call : ∀ entry ∈ accum.tools, entry.2.bytes ≤ maxStreamBlockBytes
  calls : accum.tools.length ≤ maxStreamOpenBlocks

theorem Accounted.new : Accounted (Accum.new : Accum N) where
  sorted := List.Pairwise.nil
  total := rfl
  response := Nat.zero_le _
  call _ h := absurd h List.not_mem_nil
  calls := Nat.zero_le _

theorem Accounted.of_tools {accum next : Accum N} (h : Accounted accum)
    (htools : next.tools = accum.tools) (hbytes : next.toolBytes = accum.toolBytes) :
    Accounted next where
  sorted := htools ▸ h.sorted
  total := by rw [hbytes, htools, h.total]
  response := hbytes ▸ h.response
  call := htools ▸ h.call
  calls := htools ▸ h.calls

theorem empty_bytes : ToolBuf.empty.bytes = 0 := rfl

theorem Accounted.previous_le {accum : Accum N} (h : Accounted accum) (index : ℕ) :
    ((accum.tools.lookup index).getD .empty).bytes ≤ accum.toolBytes := by
  have hsum := sum_replaced ToolBuf.bytes h.sorted index .empty
  rw [empty_bytes, Nat.add_zero, ← h.total] at hsum
  cases hlookup : accum.tools.lookup index with
  | none => exact Nat.zero_le _
  | some buf =>
    rw [hlookup] at hsum
    change buf.bytes ≤ _
    rw [← hsum]
    exact Nat.le_add_left _ _

theorem length_insertSorted {ν : Type} {entries : Entries ℕ ν} (key : ℕ) (value : ν)
    (hsorted : Sorted entries) :
    (insertSorted entries key value).length =
      entries.length + if (entries.lookup key).isNone then 1 else 0 := by
  have hsum := sum_replaced (fun _ : ν => 1) hsorted key value
  rw [List.map_const', List.map_const', List.sum_replicate_nat, List.sum_replicate_nat, mul_one,
    mul_one] at hsum
  cases hlookup : entries.lookup key with
  | none =>
    rw [hlookup] at hsum
    exact hsum
  | some found =>
    rw [hlookup] at hsum
    exact Nat.add_right_cancel hsum

theorem Accounted.tool {serde : Serde N} {accum next : Accum N} {call : Value N}
    (h : Accounted accum) (hcall : accum.tool serde call = .ok next) : Accounted next := by
  unfold Accum.tool at hcall
  obtain ⟨index, -, hcall⟩ := (bind_eq_ok _ _ _).mp hcall
  obtain ⟨hroom, hcall⟩ := (then_eq_ok _ _ _).mp hcall
  obtain ⟨id, -, hcall⟩ := (bind_eq_ok _ _ _).mp hcall
  obtain ⟨-, hcall⟩ := (then_eq_ok _ _ _).mp hcall
  obtain ⟨-, hcall⟩ := (then_eq_ok _ _ _).mp hcall
  obtain ⟨function, -, hcall⟩ := (bind_eq_ok _ _ _).mp hcall
  obtain ⟨name, -, hcall⟩ := (bind_eq_ok _ _ _).mp hcall
  obtain ⟨arguments, -, hcall⟩ := (bind_eq_ok _ _ _).mp hcall
  obtain ⟨hlimit, hcall⟩ := (then_eq_ok _ _ _).mp hcall
  cases hcall
  rw [refuse_eq_ok, not_and, not_le] at hroom
  rw [refuse_eq_ok, not_or, not_lt, not_lt] at hlimit
  obtain ⟨hsize, hresponse⟩ := hlimit
  have hprevious := h.previous_le index
  have hsum := fun next => sum_replaced ToolBuf.bytes h.sorted index next
  have hlookup : (accum.tools.lookup index).elim 0 ToolBuf.bytes =
      ((accum.tools.lookup index).getD .empty).bytes := by
    cases accum.tools.lookup index <;> rfl
  simp only [hlookup, ← h.total] at hsum
  constructor
  · exact sorted_insertSorted accum.tools index _ h.sorted
  · dsimp only
    have htotal := hsum ⟨id.getD ((accum.tools.lookup index).getD .empty).id,
      ((accum.tools.lookup index).getD .empty).name ++ name,
      ((accum.tools.lookup index).getD .empty).args ++ arguments⟩
    omega
  · exact hresponse
  · intro entry hentry
    have hfound := lookup_of_mem (sorted_insertSorted accum.tools index _ h.sorted) hentry
    rw [lookup_insertSorted] at hfound
    split_ifs at hfound with heq
    · rw [← Option.some.inj hfound]
      exact hsize
    · exact h.call _ (mem_of_lookup hfound)
  · dsimp only
    rw [length_insertSorted index _ h.sorted]
    split_ifs with hnew
    · exact Nat.succ_le_of_lt (hroom hnew)
    · exact h.calls

theorem Accounted.choice {serde : Serde N} {accum next : Accum N} {event choice : Value N}
    {more : Events N} (h : Accounted accum)
    (hchoice : accum.choice serde event choice = .ok (next, more)) : Accounted next := by
  unfold Accum.choice at hchoice
  obtain ⟨-, hchoice⟩ := (then_eq_ok _ _ _).mp hchoice
  obtain ⟨-, hchoice⟩ := (then_eq_ok _ _ _).mp hchoice
  obtain ⟨delta, -, hchoice⟩ := (bind_eq_ok _ _ _).mp hchoice
  obtain ⟨content, -, hchoice⟩ := (bind_eq_ok _ _ _).mp hchoice
  obtain ⟨refusal, -, hchoice⟩ := (bind_eq_ok _ _ _).mp hchoice
  obtain ⟨called, hcalled, hchoice⟩ := (bind_eq_ok _ _ _).mp hchoice
  obtain ⟨finished, hfinished, hchoice⟩ := (bind_eq_ok _ _ _).mp hchoice
  cases hchoice
  have hcalled : Accounted called := by
    have hstart : Accounted { accum with refused := accum.refused || !refusal.isEmpty } :=
      h.of_tools rfl rfl
    unfold Accum.calls at hcalled
    split at hcalled
    · cases hcalled
      exact hstart
    · obtain ⟨calls, -, hcalled⟩ := (bind_eq_ok _ _ _).mp hcalled
      exact foldlM_invariant (Accum.tool serde) Accounted (fun _ _ _ hcall hs => hs.tool hcall)
        calls _ _ hcalled hstart
  unfold Accum.finishReason at hfinished
  split at hfinished
  · cases hfinished
    exact hcalled
  · split at hfinished
    · cases hfinished
    · cases hfinished
      exact hcalled.of_tools rfl rfl

theorem Accounted.push {serde : Serde N} {accum next : Accum N} {event : Value N}
    {more : Events N} (h : Accounted accum) (hpush : accum.push serde event = .ok (next, more)) :
    Accounted next := by
  unfold Accum.push at hpush
  obtain ⟨-, hpush⟩ := (then_eq_ok _ _ _).mp hpush
  obtain ⟨choices, -, hpush⟩ := (bind_eq_ok _ _ _).mp hpush
  obtain ⟨-, hpush⟩ := (then_eq_ok _ _ _).mp hpush
  obtain ⟨⟨snapped, usage⟩, hsnapshot, hpush⟩ := (bind_eq_ok _ _ _).mp hpush
  have hsnapped : Accounted snapped := by
    unfold Accum.snapshot at hsnapshot
    split at hsnapshot
    · cases hsnapshot
      exact h
    · obtain ⟨_, -, hsnapshot⟩ := (bind_eq_ok _ _ _).mp hsnapshot
      obtain ⟨raw, -, hsnapshot⟩ := (bind_eq_ok _ _ _).mp hsnapshot
      cases hsnapshot
      exact h.of_tools rfl rfl
  cases choices with
  | nil =>
    obtain ⟨-, hpush⟩ := (then_eq_ok _ _ _).mp hpush
    cases hpush
    exact hsnapped
  | cons choice rest =>
    obtain ⟨⟨chosen, events⟩, hchosen, hpush⟩ := (bind_eq_ok _ _ _).mp hpush
    cases hpush
    exact hsnapped.choice hchosen

theorem finish_ends {serde : Serde N} {accum : Accum N} {more : Events N}
    (h : accum.finish serde = .ok more) : ∃ event ∈ more, isEnd event = true := by
  unfold Accum.finish at h
  obtain ⟨-, h⟩ := (then_eq_ok _ _ _).mp h
  obtain ⟨-, h⟩ := (then_eq_ok _ _ _).mp h
  obtain ⟨reason, -, h⟩ := (bind_eq_ok _ _ _).mp h
  obtain ⟨calls, -, h⟩ := (bind_eq_ok _ _ _).mp h
  cases h
  exact ⟨_, List.mem_append_right _ List.mem_cons_self, rfl⟩

theorem accepted_accounted {serde : Serde N} {parts : List (List UInt8)} {decoder : Decoder N}
    {events : Events N} (h : Accepted (Decoder.accept serde) .new parts decoder events) :
    Accounted decoder.accum := by
  induction h with
  | nil => exact .new
  | snoc h hpart hmore ih =>
    obtain ⟨framer, frame, -, ⟨-, rfl, -⟩ | ⟨done, -, -, hfinish⟩ | ⟨data, event, -, -, hevent⟩⟩ :=
      accept_cases hpart
    · exact ih
    · obtain ⟨last, hlast, hend⟩ := finish_ends hfinish
      rw [hmore last hlast] at hend
      cases hend
    · obtain ⟨⟨accum, out⟩, hpush, hevent⟩ := (bind_eq_ok _ _ _).mp hevent
      cases hevent
      exact ih.push hpush

end

end Stakit.OpenAi

namespace Stakit.StreamBytes
open ProviderStreams

/-- After every segment of any body both counters are what is held, within the limits, and
nothing is taken off them that they do not have. -/
theorem streams_accounted {N : Type} (serde : Serde N) : (∀ parts decoder events,
      Accepted (Claude.Decoder.accept serde) .new parts decoder events →
        (Claude.Accounted serde decoder.accum events ∧ Claude.Exact serde decoder.accum) ∧
        ∀ part next more, decoder.accept serde part = .ok (next, more) →
          Claude.Accounted serde next.accum (events ++ more)) ∧
    ∀ parts decoder events, Accepted (OpenAi.Decoder.accept serde) .new parts decoder events →
        OpenAi.Accounted decoder.accum ∧ ∀ index,
          ((decoder.accum.tools.lookup index).getD .empty).bytes ≤ decoder.accum.toolBytes := by
  constructor
  · intro parts decoder events haccepted
    have hcounted : Claude.Accounted serde decoder.accum events := by
      induction haccepted with
      | nil => exact .new serde
      | snoc h hpart hmore ih => exact ih.accept hpart
    exact ⟨⟨hcounted, hcounted.exact⟩, fun part next more hpart => hcounted.accept hpart⟩
  · intro parts decoder events haccepted
    have hcounted := OpenAi.accepted_accounted haccepted
    exact ⟨hcounted, hcounted.previous_le⟩

end Stakit.StreamBytes
