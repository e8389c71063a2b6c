import Mathlib.Data.Int.CardIntervalMod
import Mathlib.Tactic.IntervalCases
import Mathlib.Data.Nat.Log

set_option autoImplicit false

namespace Stakit.Orm.Nanoid
open List

def usizeMax : ℕ := 2 ^ 64 - 1

def isizeMax : ℕ := 2 ^ 63 - 1

inductive Panic where
  | alphabet
  | overflow
  | capacity
  deriving DecidableEq

def checkedAdd (a b : ℕ) : Except Panic ℕ :=
  if a + b ≤ usizeMax then .ok (a + b) else .error .overflow

def checkedSub (a b : ℕ) : Except Panic ℕ := if b ≤ a then .ok (a - b) else .error .overflow

def checkedMul (a b : ℕ) : Except Panic ℕ :=
  if a * b ≤ usizeMax then .ok (a * b) else .error .overflow

/-- Too wide a shift panics; the bits that a shift moves out are lost. -/
def checkedShl (a bits : ℕ) : Except Panic ℕ :=
  if bits < 64 then .ok (a <<< bits % 2 ^ 64) else .error .overflow

def ilog2 (a : ℕ) : Except Panic ℕ := if a = 0 then .error .overflow else .ok a.log2

def saturatingMul (a b : ℕ) : ℕ := min (a * b) usizeMax

def divCeil (a b : ℕ) : Except Panic ℕ :=
  if b = 0 then .error .overflow
  else if 0 < a % b then checkedAdd (a / b) 1
  else .ok (a / b)

/-- A buffer may not be longer than the largest signed word. -/
def allocate (length : ℕ) : Except Panic Unit :=
  if length ≤ isizeMax then .ok () else .error .capacity

def maskOf (len : ℕ) : Except Panic ℕ := do
  let last ← checkedSub len 1
  let bits ← ilog2 (last ||| 1)
  let power ← checkedShl 2 bits
  checkedSub power 1

def stepOf (mask size len : ℕ) : Except Panic ℕ := do
  let divisor ← checkedMul 5 len
  let quotient ← divCeil (saturatingMul (saturatingMul 8 mask) size) divisor
  return max quotient 1

def byteLength (id : List Char) : ℕ := (id.map Char.utf8Size).sum

def symbolAt (alphabet : List Char) (mask : ℕ) (byte : UInt8) : Option Char :=
  alphabet[byte.toNat &&& mask]?

/-- The return in the middle of the loop is the error of the step. -/
def pushSymbol (size : ℕ) (id : List Char) (symbol : Char) : Except (List Char) (List Char) :=
  if byteLength (id ++ [symbol]) = size then .error (id ++ [symbol]) else .ok (id ++ [symbol])

def pushByte (size : ℕ) (alphabet : List Char) (mask : ℕ) (id : List Char) (byte : UInt8) :
    Except (List Char) (List Char) :=
  match symbolAt alphabet mask byte with
  | some symbol => pushSymbol size id symbol
  | none => pure id

def stretch (source : ℕ → UInt8) (position length : ℕ) : List UInt8 :=
  (List.range length).map fun i => source (position + i)

def readChunks (source : ℕ → UInt8) (step : ℕ)
    (push : List Char → UInt8 → Except (List Char) (List Char)) :
    ℕ → ℕ → List Char → Option (List Char)
  | 0, _, _ => none
  | fills + 1, position, id =>
    match (stretch source position step).foldlM push id with
    | .error result => some result
    | .ok id => readChunks source step push fills (position + step) id

/-- The result after so many fills of the chunk, none where the loop still runs. -/
def nanoidCustom (source : ℕ → UInt8) (fills size : ℕ) (alphabet : List Char) :
    Except Panic (Option (List Char)) := do
  if 1 ≤ alphabet.length ∧ alphabet.length ≤ 255 then
    if size = 0 then
      return some []
    let mask ← maskOf alphabet.length
    let step ← stepOf mask size alphabet.length
    allocate size
    allocate step
    return readChunks source step (pushByte size alphabet mask) fills 0 []
  else
    throw .alphabet

example : nanoidCustom (fun i => .ofNat i) 1 3 ['a', 'b', 'c'] = .ok (some ['a', 'b', 'c']) := by
  decide

private theorem ok_bind {α β : Type} (a : α) (next : α → Except Panic β) :
    ((.ok a : Except Panic α) >>= next) = next a := rfl

theorem maskOf_eq {len : ℕ} (hpos : 1 ≤ len) (hlen : len ≤ 255) :
    ∃ bits, 1 ≤ bits ∧ bits ≤ 8 ∧ len ≤ 2 ^ bits ∧ maskOf len = .ok (2 ^ bits - 1) := by
  have hne : (len - 1) ||| 1 ≠ 0 := by
    intro h
    have hle : 1 ≤ (len - 1) ||| 1 := Nat.right_le_or
    omega
  have hlt : (len - 1) ||| 1 < 2 ^ 8 := Nat.or_lt_two_pow (by omega) (by decide)
  have hbits : ((len - 1) ||| 1).log2 < 8 := (Nat.log2_lt hne).mpr hlt
  have hcovers : len - 1 < 2 ^ (((len - 1) ||| 1).log2 + 1) :=
    lt_of_le_of_lt Nat.left_le_or Nat.lt_log2_self
  refine ⟨((len - 1) ||| 1).log2 + 1, by omega, by omega, by omega, ?_⟩
  unfold maskOf checkedSub ilog2
  rw [if_pos hpos, ok_bind, if_neg hne, ok_bind]
  have hwidth := hbits
  generalize ((len - 1) ||| 1).log2 = bits at hwidth ⊢
  interval_cases bits <;> rfl

variable (size : ℕ) (alphabet : List Char) (mask : ℕ) (id : List Char) (source : ℕ → UInt8)
  (step : ℕ)

theorem stepOf_eq (size : ℕ) {len : ℕ} (hpos : 1 ≤ len) (hlen : len ≤ 255) :
    ∃ step, 1 ≤ step ∧ step ≤ isizeMax ∧ stepOf mask size len = .ok step := by
  have hmul : checkedMul 5 len = .ok (5 * len) := if_pos (by unfold usizeMax; omega)
  have hsaturated : saturatingMul (saturatingMul 8 mask) size ≤ usizeMax := Nat.min_le_right _ _
  generalize hproduct : saturatingMul (saturatingMul 8 mask) size = product at hsaturated
  have hquotient : product / (5 * len) ≤ usizeMax / 5 := by
    calc product / (5 * len) ≤ product / 5 := Nat.div_le_div_left (by omega) (by decide)
      _ ≤ usizeMax / 5 := Nat.div_le_div_right hsaturated
  have hbound : usizeMax / 5 + 1 ≤ isizeMax := by decide
  have hwhole : isizeMax ≤ usizeMax := by decide
  have hdiv : ∃ quotient, quotient ≤ isizeMax ∧ divCeil product (5 * len) = .ok quotient := by
    unfold divCeil
    rw [if_neg (by omega)]
    split
    · exact ⟨product / (5 * len) + 1, by omega, if_pos (by omega)⟩
    · exact ⟨product / (5 * len), by omega, rfl⟩
  obtain ⟨quotient, hle, hdiv⟩ := hdiv
  refine ⟨max quotient 1, Nat.le_max_right _ _, Nat.max_le.mpr ⟨hle, by decide⟩, ?_⟩
  unfold stepOf
  rw [hmul, ok_bind, hproduct, hdiv, ok_bind]
  rfl

theorem length_le_byteLength : id.length ≤ byteLength id := by
  induction id with
  | nil => exact Nat.le_refl 0
  | cons c id ih =>
    have hc := Char.utf8Size_pos c
    change id.length + 1 ≤ c.utf8Size + byteLength id
    omega

theorem byteLength_eq_length : byteLength id = id.length ↔ ∀ c ∈ id, c.utf8Size = 1 := by
  induction id with
  | nil => exact ⟨nofun, fun _ => rfl⟩
  | cons c id ih =>
    have hc := Char.utf8Size_pos c
    have hle := length_le_byteLength id
    rw [forall_mem_cons, ← ih]
    change c.utf8Size + byteLength id = id.length + 1 ↔ _
    omega

def selected (alphabet : List Char) (mask : ℕ) (bytes : List UInt8) : List Char :=
  bytes.filterMap (symbolAt alphabet mask)

theorem foldlM_pushByte (bytes : List UInt8) : bytes.foldlM (pushByte size alphabet mask) id =
      (selected alphabet mask bytes).foldlM (pushSymbol size) id := by
  unfold selected
  rw [foldlM_filterMap]
  congr 1
  funext id byte
  unfold pushByte
  cases symbolAt alphabet mask byte <;> rfl

theorem returned_length (symbols id result : List Char)
    (h : symbols.foldlM (pushSymbol size) id = .error result) : byteLength result = size := by
  induction symbols generalizing id with
  | nil => cases h
  | cons c symbols ih =>
    rw [foldlM_cons] at h
    unfold pushSymbol at h
    split at h
    · rename_i hsize
      cases h
      exact hsize
    · exact ih _ h

theorem foldlM_pushSymbol (symbols id : List Char) (hne : symbols ≠ [])
    (hone : ∀ c ∈ id ++ symbols, c.utf8Size = 1) (hsize : (id ++ symbols).length = size) :
    symbols.foldlM (pushSymbol size) id = .error (id ++ symbols) := by
  induction symbols generalizing id with
  | nil => exact absurd rfl hne
  | cons c symbols ih =>
    rw [append_cons] at hone hsize ⊢
    have hcount := (byteLength_eq_length (id ++ [c])).mpr fun d hd =>
      hone d (mem_append_left symbols hd)
    rw [foldlM_cons]
    unfold pushSymbol
    rw [hcount]
    cases symbols with
    | nil =>
      rw [append_nil] at hsize ⊢
      rw [if_pos hsize]
      rfl
    | cons d symbols =>
      have hmore : (id ++ [c]).length ≠ size := by
        intro heq
        rw [length_append, length_cons] at hsize
        omega
      rw [if_neg hmore]
      exact ih (id ++ [c]) (cons_ne_nil d symbols) hone hsize

theorem stretch_add (position front back : ℕ) : stretch source position (front + back) =
      stretch source position front ++ stretch source (position + front) back := by
  unfold stretch
  rw [range_add, map_append, map_map]
  congr 2
  funext i
  exact congrArg source (Nat.add_assoc position front i).symm

theorem foldlM_error {push : List Char → UInt8 → Except (List Char) (List Char)}
    {front : List UInt8} (back : List UInt8) {id result : List Char}
    (h : front.foldlM push id = .error result) : (front ++ back).foldlM push id = .error result := by
  rw [foldlM_append, h]
  rfl

theorem readChunks_eq (push : List Char → UInt8 → Except (List Char) (List Char))
    (fills position : ℕ) (id : List Char) :
    readChunks source step push fills position id =
      match (stretch source position (fills * step)).foldlM push id with
      | .error result => some result
      | .ok _ => none := by
  induction fills generalizing position id with
  | zero =>
    rw [Nat.zero_mul]
    rfl
  | succ fills ih =>
    rw [readChunks, Nat.succ_mul, Nat.add_comm (fills * step), stretch_add]
    cases h : (stretch source position step).foldlM push id with
    | error result => rw [foldlM_error _ h]
    | ok next =>
      rw [foldlM_append, h]
      exact ih (position + step) next

theorem readChunks_selected {size : ℕ} {alphabet : List Char} {mask supplied fills : ℕ}
    (hsize : 1 ≤ size) (hfills : supplied ≤ fills * step)
    (hsupplied : size ≤ (selected alphabet mask (stretch source 0 supplied)).length)
    (hone : ∀ c ∈ (selected alphabet mask (stretch source 0 supplied)).take size, c.utf8Size = 1) :
    readChunks source step (pushByte size alphabet mask) fills 0 [] =
      some ((selected alphabet mask (stretch source 0 supplied)).take size) := by
  have hlength : ((selected alphabet mask (stretch source 0 supplied)).take size).length = size :=
    length_take_of_le hsupplied
  have hfirst : ((selected alphabet mask (stretch source 0 supplied)).take size).foldlM
      (pushSymbol size) [] =
      .error ((selected alphabet mask (stretch source 0 supplied)).take size) := by
    refine foldlM_pushSymbol size _ [] (ne_nil_of_length_pos ?_) hone hlength
    omega
  have hfront : (stretch source 0 supplied).foldlM (pushByte size alphabet mask) [] =
      .error ((selected alphabet mask (stretch source 0 supplied)).take size) := by
    rw [foldlM_pushByte]
    conv_lhs => rw [← take_append_drop size (selected alphabet mask _)]
    rw [foldlM_append, hfirst]
    rfl
  obtain ⟨rest, hrest⟩ := Nat.exists_eq_add_of_le hfills
  rw [readChunks_eq, hrest, stretch_add, foldlM_error _ hfront]

theorem readChunks_length {size : ℕ} {alphabet : List Char} {mask fills : ℕ} {result : List Char}
    (h : readChunks source step (pushByte size alphabet mask) fills 0 [] = some result) :
    byteLength result = size := by
  rw [readChunks_eq, foldlM_pushByte] at h
  split at h
  · rename_i hresult
    cases h
    exact returned_length size _ [] _ hresult
  · cases h

theorem nanoidCustom_eq (hsize : 1 ≤ size) (hpos : 1 ≤ alphabet.length)
    (hlen : alphabet.length ≤ 255) :
    ∃ mask step, maskOf alphabet.length = .ok mask ∧ stepOf mask size alphabet.length = .ok step ∧
      1 ≤ step ∧ ∀ source fills, nanoidCustom source fills size alphabet = if size ≤ isizeMax then
          .ok (readChunks source step (pushByte size alphabet mask) fills 0 [])
        else .error .capacity := by
  obtain ⟨bits, _, _, _, hmask⟩ := maskOf_eq hpos hlen
  obtain ⟨step, hstep, hle, hstepOf⟩ := stepOf_eq (2 ^ bits - 1) size hpos hlen
  refine ⟨_, step, hmask, hstepOf, hstep, fun source fills => ?_⟩
  unfold nanoidCustom
  rw [if_pos ⟨hpos, hlen⟩, if_neg (by omega)]
  rw [hmask, ok_bind, hstepOf, ok_bind]
  unfold allocate
  rw [if_pos hle]
  split <;> rfl

theorem selections_even {bits : ℕ} (index : ℕ) (hbits : bits ≤ 8) (hindex : index < 2 ^ bits) :
    Nat.count (fun byte => byte &&& (2 ^ bits - 1) = index) 256 = 256 / (2 ^ bits - 1 + 1) := by
  have hpow : 2 ^ bits - 1 + 1 = 2 ^ bits := by omega
  have hdvd : 2 ^ bits ∣ 256 := Nat.pow_dvd_pow 2 hbits
  have hmod := Nat.count_modEq_card 256 (Nat.two_pow_pos bits) index
  rw [Nat.mod_eq_zero_of_dvd hdvd, if_neg (Nat.not_lt_zero _), Nat.add_zero] at hmod
  rw [hpow, ← hmod]
  congr 1
  funext byte
  rw [Nat.and_two_pow_sub_one_eq_mod, Nat.ModEq, Nat.mod_eq_of_lt hindex]

/-- What is promised of a size and an alphabet once a source has supplied so many bytes: no
arithmetic overflows, every symbol has the same share of the byte values, and where enough bytes
select a symbol the loop returns these symbols as soon as a chunk has covered the bytes. -/
def Delivers (source : ℕ → UInt8) (supplied size : ℕ) (alphabet : List Char) : Prop :=
  (∀ fills, nanoidCustom source fills size alphabet ≠ .error .overflow) ∧
    ∃ mask step, maskOf alphabet.length = .ok mask ∧ stepOf mask size alphabet.length = .ok step ∧
      (∀ index < alphabet.length,
        Nat.count (fun byte => byte &&& mask = index) 256 = 256 / (mask + 1)) ∧
      (size ≤ (selected alphabet mask (stretch source 0 supplied)).length →
        ∀ fills, supplied ≤ fills * step → nanoidCustom source fills size alphabet =
          .ok (some ((selected alphabet mask (stretch source 0 supplied)).take size)))

/-- A size that a buffer can have, and symbols of one byte. -/
def Countable (size : ℕ) (symbols : List Char) : Prop :=
  size ≤ isizeMax ∧ ∀ c ∈ symbols, c.utf8Size = 1

theorem delivers_iff (supplied : ℕ) {size : ℕ} {alphabet : List Char} (hsize : 1 ≤ size)
    (hpos : 1 ≤ alphabet.length) (hlen : alphabet.length ≤ 255) :
    ∃ bits, alphabet.length ≤ 2 ^ bits ∧ maskOf alphabet.length = .ok (2 ^ bits - 1) ∧
      (Delivers source supplied size alphabet ↔
        (size ≤ (selected alphabet (2 ^ bits - 1) (stretch source 0 supplied)).length →
          Countable size
            ((selected alphabet (2 ^ bits - 1) (stretch source 0 supplied)).take size))) := by
  obtain ⟨bits, _, hbits, hcover, hmask⟩ := maskOf_eq hpos hlen
  obtain ⟨mask, step, hmask', hstepOf, hstep, heq⟩ := nanoidCustom_eq size alphabet hsize hpos hlen
  obtain rfl : 2 ^ bits - 1 = mask := Except.ok.inj (hmask.symm.trans hmask')
  refine ⟨bits, hcover, hmask, ?_, ?_⟩
  · rintro ⟨_, mask, step', hmask'', hstepOf', _, hreturns⟩ hsupplied
    obtain rfl : 2 ^ bits - 1 = mask := Except.ok.inj (hmask.symm.trans hmask'')
    obtain rfl : step = step' := Except.ok.inj (hstepOf.symm.trans hstepOf')
    have hresult := hreturns hsupplied supplied (Nat.le_mul_of_pos_right supplied hstep)
    rw [heq] at hresult
    split at hresult
    · rename_i hle
      refine ⟨hle, ?_⟩
      have hbytes := readChunks_length source step
        (Except.ok.inj hresult)
      exact (byteLength_eq_length _).mp (hbytes.trans (length_take_of_le hsupplied).symm)
    · cases hresult
  · intro hcount
    refine ⟨fun fills => ?_, _, step, hmask, hstepOf, fun index hindex =>
      selections_even index hbits (by omega), fun hsupplied fills hfills => ?_⟩
    · rw [heq]
      split
      · exact nofun
      · exact nofun
    · obtain ⟨hle, hone⟩ := hcount hsupplied
      rw [heq, if_pos hle, readChunks_selected source step hsize hfills hsupplied hone]

theorem selected_subset (bytes : List UInt8) :
    ∀ c ∈ selected alphabet mask bytes, c ∈ alphabet := by
  intro c hc
  obtain ⟨byte, _, hsymbol⟩ := mem_filterMap.mp hc
  exact mem_of_getElem? hsymbol

theorem selected_constant {bits : ℕ} (size : ℕ) {index : ℕ} {c : Char}
    (hcover : alphabet.length ≤ 2 ^ bits)
    (hlen : alphabet.length ≤ 255) (hc : alphabet[index]? = some c) :
    selected alphabet (2 ^ bits - 1) (stretch (fun _ => .ofNat index) 0 size) =
      List.replicate size c := by
  have hindex : index < alphabet.length := (List.getElem?_eq_some_iff.mp hc).1
  have hbyte : (UInt8.ofNat index).toNat = index := UInt8.toNat_ofNat_of_lt (by
    change index < 256
    omega)
  have hsymbol : symbolAt alphabet (2 ^ bits - 1) (.ofNat index) = some c := by
    unfold symbolAt
    rw [hbyte, Nat.and_two_pow_sub_one_eq_mod, Nat.mod_eq_of_lt (by omega), hc]
  unfold selected stretch
  rw [map_const', length_range, filterMap_replicate_of_some hsymbol]

/-- The bytes of the text are counted where its characters are meant. -/
theorem nanoidCustom_delivers_iff (hsize : 1 ≤ size) (hpos : 1 ≤ alphabet.length)
    (hlen : alphabet.length ≤ 255) :
    (∀ source supplied, Delivers source supplied size alphabet) ↔ Countable size alphabet := by
  constructor
  · intro h
    have hsymbol : ∀ c ∈ alphabet, size ≤ isizeMax ∧ c.utf8Size = 1 := by
      intro c hc
      obtain ⟨index, hindex⟩ := List.getElem?_of_mem hc
      obtain ⟨bits, hcover, _, hiff⟩ := delivers_iff (fun _ => .ofNat index) size
        hsize hpos hlen
      have hcount := hiff.mp (h _ size)
      rw [selected_constant alphabet size hcover hlen hindex, length_replicate,
        take_replicate, Nat.min_self] at hcount
      obtain ⟨hle, hone⟩ := hcount (Nat.le_refl size)
      exact ⟨hle, hone c (mem_replicate.mpr ⟨by omega, rfl⟩)⟩
    obtain ⟨c, hc⟩ := exists_mem_of_length_pos hpos
    exact ⟨(hsymbol c hc).1, fun c hc => (hsymbol c hc).2⟩
  · rintro ⟨hle, hone⟩ source supplied
    obtain ⟨bits, _, _, hiff⟩ := delivers_iff source supplied hsize hpos hlen
    refine hiff.mpr fun _ => ⟨hle, fun c hc => hone c ?_⟩
    exact selected_subset alphabet _ _ c (mem_of_mem_take hc)

theorem nanoidCustom_delivers_digits :
    Delivers (fun i => .ofNat i) 40 21 ['0', '1', '2', '3', '4', '5', '6', '7', '8', '9'] := by
  refine (nanoidCustom_delivers_iff 21 ['0', '1', '2', '3', '4', '5', '6', '7', '8', '9'] (by decide)
    (by decide) (by decide)).mpr ⟨by decide, ?_⟩ _ 40
  simp only [forall_mem_cons]
  exact ⟨rfl, rfl, rfl, rfl, rfl, rfl, rfl, rfl, rfl, rfl, nofun⟩

theorem nanoidCustom_accented_short :
    nanoidCustom (fun _ => 0) 2 2 ['é'] = .ok (some ['é']) ∧ ¬ Delivers (fun _ => 0) 2 2 ['é'] := by
  have hresult : nanoidCustom (fun _ => 0) 2 2 ['é'] = .ok (some ['é']) := by decide
  refine ⟨hresult, ?_⟩
  rintro ⟨_, mask, step, hmask, hstep, _, hreturns⟩
  obtain rfl : 1 = mask := Except.ok.inj hmask
  obtain rfl : 4 = step := Except.ok.inj hstep
  have hpromised := hreturns (by decide) 2 (by decide)
  rw [hresult] at hpromised
  exact absurd hpromised (by decide)

end Stakit.Orm.Nanoid
