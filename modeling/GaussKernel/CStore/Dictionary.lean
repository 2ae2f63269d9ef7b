import Mathlib
import GaussKernel.Lib.Bytes
import GaussKernel.Lib.Probe

/-!
# Dictionary coder of the column store

Model of `DicCoder` (`compress_kits.cpp`, `compress_kits.h`): a local dictionary of variable-length values whose items
are found by open addressing, the codes of the values, and the decoder that is rebuilt from the dictionary on disk.
`none` is an access outside of an array. `hash_any` is a parameter.
-/

namespace GaussKernel.CStore
open Lib

/-! ## Variable-length values -/

/-- `VARTAG_SIZE`; `TrapMacro` of an unknown tag is 1 without assertions. -/
def vartagSize (tag : Nat) : Nat :=
  match tag % 128 with
  | 1 => 8
  | 18 => 16
  | 8 => 18
  | 28 => 16
  | _ => 1

/-- `VARSIZE_ANY` on a little-endian machine, of what is found at a pointer -/
def varsizeAny (p : List UInt8) : Nat :=
  let header := (p.getD 0 0).toNat
  if header = 1 then 2 + vartagSize (p.getD 1 0).toNat
  else if header % 2 = 1 then header / 2 % 128
  else ofLE (p.take 4) / 4 % 2 ^ 30

/-- The bytes that `VARSIZE_ANY` reads -/
def headerSize (p : List UInt8) : Nat :=
  let header := (p.getD 0 0).toNat
  if header = 1 then 2 else if header % 2 = 1 then 1 else 4

/-- A variable-length value of the length that its header says -/
structure IsVarlena (v : List UInt8) : Prop where
  header : headerSize v ≤ v.length
  size : varsizeAny v = v.length

lemma headerSize_pos (p : List UInt8) : 0 < headerSize p := by
  unfold headerSize
  dsimp only
  split
  · decide
  · split <;> decide

variable {v : List UInt8} {codes : List Nat} {vals : List (List UInt8)}

lemma IsVarlena.ne_nil (h : IsVarlena v) : v ≠ [] := by
  rintro rfl
  exact absurd (Nat.lt_of_lt_of_le (headerSize_pos []) h.header) (by decide)

/-- The header says where the value ends, whatever follows. -/
lemma IsVarlena.append {v : List UInt8} (h : IsVarlena v) (rest : List UInt8) : varsizeAny (v ++ rest) = v.length := by
  have hpos := List.length_pos_iff.mpr h.ne_nil
  have hget : ∀ i, i < v.length → (v ++ rest).getD i 0 = v.getD i 0 := fun i hi => List.getD_append _ _ _ _ hi
  rw [← h.size]
  have hhead := h.header
  unfold headerSize at hhead
  unfold varsizeAny
  dsimp only at hhead ⊢
  rw [hget 0 hpos]
  split
  case isTrue h1 =>
    rw [if_pos h1] at hhead
    rw [hget 1 (by omega)]
  case isFalse h1 =>
    rw [if_neg h1] at hhead
    split
    case isTrue => rfl
    case isFalse h2 =>
      rw [if_neg h2] at hhead
      rw [List.take_append_of_le_length hhead]

/-! ## Coder -/

abbrev invalidPosition : Nat := 0xFFFFFFFF
abbrev freeHashSlot : Nat := 0xFFFF

/-- `DicData`. `data` holds the first `m_itemUsedSize` bytes of the items. -/
structure DicData where
  itemsMaxSize : Nat
  maxItemCount : Nat
  curItemCount : Nat
  itemOffset : List Nat
  slots : List Nat
  data : List UInt8

/-- `DictGetMaxNumber` -/
def dictGetMaxNumber (v : Nat) : Nat := v / 4 + 1

/-- `InitDictData`. The counters are of 16 bits. -/
def initDictData (itemsMaxSize itemsMaxCount : Nat) : DicData where
  itemsMaxSize := itemsMaxSize
  maxItemCount := itemsMaxCount % 2 ^ 16
  curItemCount := 0
  itemOffset := 0 :: List.replicate itemsMaxCount invalidPosition
  slots := List.replicate (itemsMaxCount % 2 ^ 16 * 2) freeHashSlot
  data := []

namespace DicData

def isEnoughToAppend (d : DicData) (appendSize : Nat) : Bool :=
  d.data.length + appendSize ≤ d.itemsMaxSize ∧ d.curItemCount < d.maxItemCount

/-- The loop of `EncodeOneValue` from `slotIndex` on -/
def searchSlots (d : DicData) (datum : List UInt8) : (fuel slotIndex : Nat) → Option (Probe Nat)
  | 0, _ => some .exhausted
  | fuel + 1, slotIndex => do
    let dictItemIdx ← d.slots[slotIndex]?
    if dictItemIdx = freeHashSlot then return .free slotIndex
    else
      let start ← d.itemOffset[dictItemIdx]?
      let dicDatum := d.data.drop start
      let dicDatumLen := varsizeAny dicDatum
      if dicDatumLen = datum.length ∧ dicDatum.take datum.length = datum then return .hit dictItemIdx
      else d.searchSlots datum fuel ((slotIndex + 1) % (d.maxItemCount * 2))

/-- An item at offset `start` behind the others, with its slot -/
def withItem (d : DicData) (datum : List UInt8) (slot start : Nat) : DicData :=
  { d with
    curItemCount := d.curItemCount + 1
    itemOffset := d.itemOffset.set (d.curItemCount + 1) (start + datum.length)
    slots := d.slots.set slot d.curItemCount
    data := d.data ++ datum }

/-- The new item of `EncodeOneValue` -/
def append (d : DicData) (datum : List UInt8) (slot : Nat) : Option DicData := do
  let start ← d.itemOffset[d.curItemCount]?
  if d.curItemCount + 1 < d.itemOffset.length ∧ slot < d.slots.length then return d.withItem datum slot start
  else none

end DicData

section coder
variable (hashAny : List UInt8 → UInt32)

/-- `EncodeOneValue` of the value at a pointer: its code and the dictionary after it; the inner `none` is `false`. -/
def encodeOneValue (d : DicData) (p : List UInt8) : Option (Option (Nat × DicData)) := do
  let datum := p.take (varsizeAny p)
  let slotCount := d.maxItemCount * 2
  match ← d.searchSlots datum slotCount ((hashAny datum).toNat % slotCount) with
  | .hit dictItemIdx => return some (dictItemIdx, d)
  | .free slot =>
    if d.isEnoughToAppend datum.length then
      let d' ← d.append datum slot
      return some (d.curItemCount, d')
    else return none
  | .exhausted => return none

/-- The loop of `Compress` over the input `rest`. The codes go to an array for `numVals` of them. -/
def dicCompressLoop (numVals : Nat) : (fuel : Nat) → DicData → (rest : List UInt8) → (codes : List Nat) →
    Option (DicData × List UInt8 × List Nat)
  | 0, d, rest, codes => some (d, rest, codes)
  | fuel + 1, d, rest, codes =>
    if rest = [] then some (d, rest, codes)
    else do
      match ← encodeOneValue hashAny d rest with
      | none => return (d, rest, codes)
      | some (code, d') =>
        if codes.length < numVals then
          dicCompressLoop numVals fuel d' (rest.drop (varsizeAny rest)) (codes ++ [code])
        else none

/-- `DictHeader` and the items behind it -/
def dictOnDisk (d : DicData) : List UInt8 := toLE 4 (8 + d.data.length) ++ toLE 4 d.curItemCount ++ d.data

/-- The first constructor of `DicCoder` and `Compress`: the dictionary and the codes; the inner `none` is the result 0. -/
def dicCompress (inBuf : List UInt8) (numVals maxItemCnt : Nat) : Option (Option (List UInt8 × List Nat)) := do
  let d := initDictData (dictGetMaxNumber inBuf.length)
    (if maxItemCnt > 0 then maxItemCnt else dictGetMaxNumber numVals)
  let (d, rest, codes) ← dicCompressLoop hashAny numVals inBuf.length d inBuf []
  if rest = [] ∧ d.data.length + 8 < inBuf.length then return some (dictOnDisk d, codes) else return none

end coder

/-! ## Decoder -/

structure DicReader where
  itemOffset : List Nat
  data : List UInt8

/-- The loop of the third constructor of `DicCoder`; `itemOffset` has room for `itemsCount + 1` offsets. -/
def fillOffsets (itemsCount dictDataSize : Nat) (data : List UInt8) : (fuel : Nat) → (offsets : List Nat) →
    (last : Nat) → Option (List Nat)
  | 0, offsets, _ => some offsets
  | fuel + 1, offsets, last =>
    if last < dictDataSize then
      let next := last + varsizeAny (data.drop last)
      if offsets.length < itemsCount + 1 then fillOffsets itemsCount dictDataSize data fuel (offsets ++ [next]) next
      else none
    else some offsets

def DicReader.ofDisk (dictInDisk : List UInt8) : Option DicReader := do
  let totalSize := ofLE (dictInDisk.take 4)
  let itemsCount := ofLE ((dictInDisk.drop 4).take 4)
  let data := dictInDisk.drop 8
  let offsets ← fillOffsets itemsCount (totalSize - 8) data totalSize [0] 0
  return ⟨offsets, data⟩

/-- `DecodeOneValue`, and the bytes of the value -/
def DicReader.decodeOneValue (r : DicReader) (code : Nat) : Option (List UInt8) := do
  let start ← r.itemOffset[code]?
  let item := r.data.drop start
  return item.take (varsizeAny item)

/-- `Decompress`: the values in order. The number of codes is taken as a `DicCodeType`. -/
def DicReader.decompress (r : DicReader) (codes : List Nat) : Option (List (List UInt8)) :=
  (codes.take (codes.length % 2 ^ 16)).mapM r.decodeOneValue

/-! ## Items -/

/-- The items of a dictionary with their offsets, codes and slots -/
structure DicHolds (hashAny : List UInt8 → UInt32) (d : DicData) (items : List (List UInt8)) : Prop where
  varlena : ∀ v ∈ items, IsVarlena v
  nodup : items.Nodup
  count : d.curItemCount = items.length
  le_max : items.length ≤ d.maxItemCount
  max_lt : d.maxItemCount < 2 ^ 16
  data : d.data = items.flatten
  offsets_length : d.itemOffset.length = d.maxItemCount + 1
  offsets : ∀ i ≤ items.length, d.itemOffset[i]? = some (items.take i).flatten.length
  slots_length : d.slots.length = d.maxItemCount * 2
  slot_lt : ∀ s i : Nat, d.slots[s]? = some i → i ≠ freeHashSlot → i < items.length
  reach : ∀ i v, items[i]? = some v →
    Reachable (d.maxItemCount * 2) (fun s => d.slots[s]?.filter (· ≠ freeHashSlot)) (hashAny v).toNat i

lemma offset_le {α : Type*} (items : List (List α)) (i : Nat) :
    (items.take i).flatten.length ≤ items.flatten.length := by
  have hsplit : items.flatten = (items.take i).flatten ++ (items.drop i).flatten := by
    rw [← List.flatten_append, List.take_append_drop]
  have hlen := congrArg List.length hsplit
  rw [List.length_append] at hlen
  omega

/-- What stands at the offset of an item -/
lemma drop_offset {α : Type*} {items : List (List α)} {i : Nat} {v : List α} (h : items[i]? = some v) :
    items.flatten.drop (items.take i).flatten.length = v ++ (items.drop (i + 1)).flatten := by
  obtain ⟨hlt, rfl⟩ := List.getElem?_eq_some_iff.mp h
  have hsplit : items.flatten = (items.take i).flatten ++ (items[i] ++ (items.drop (i + 1)).flatten) := by
    rw [← List.flatten_cons, ← List.drop_eq_getElem_cons hlt, ← List.flatten_append, List.take_append_drop]
  rw [hsplit, List.drop_left]

section items
variable {hashAny : List UInt8 → UInt32} {d : DicData} {items : List (List UInt8)}

lemma DicHolds.init (hashAny : List UInt8 → UInt32) (itemsMaxSize : Nat) {itemsMaxCount : Nat}
    (h : itemsMaxCount < 2 ^ 16) : DicHolds hashAny (initDictData itemsMaxSize itemsMaxCount) [] where
  varlena := nofun
  nodup := List.nodup_nil
  count := rfl
  le_max := Nat.zero_le _
  max_lt := Nat.mod_lt _ (by decide)
  data := rfl
  offsets_length := by
    rw [initDictData, List.length_cons, List.length_replicate, Nat.mod_eq_of_lt h]
  offsets := by
    intro i hi
    obtain rfl : i = 0 := Nat.le_zero.mp hi
    rfl
  slots_length := by simp [initDictData]
  slot_lt := by
    intro s i hs hi
    have hmem := List.mem_of_getElem? hs
    exact absurd (List.eq_of_mem_replicate hmem) hi
  reach := nofun

/-- The search of `EncodeOneValue` is that of open addressing for the item that equals the value. -/
lemma searchSlots_eq (h : DicHolds hashAny d items) (datum : List UInt8) (fuel : Nat) {slot : Nat}
    (hslot : slot < d.maxItemCount * 2) :
    d.searchSlots datum fuel slot = some (probe (d.maxItemCount * 2) (fun s => d.slots[s]?.filter (· ≠ freeHashSlot))
      (fun i => decide (items[i]? = some datum)) fuel slot) := by
  induction fuel generalizing slot with
  | zero => rfl
  | succ fuel ih =>
    obtain ⟨x, hx⟩ : ∃ x, d.slots[slot]? = some x :=
      ⟨_, List.getElem?_eq_getElem (h.slots_length.symm ▸ hslot)⟩
    rw [DicData.searchSlots, probe, hx]
    dsimp only [Option.bind_eq_bind, Option.bind_some]
    by_cases hfree : x = freeHashSlot
    · rw [if_pos hfree, Option.filter_some_neg (by simpa using hfree)]
      rfl
    · have hlt := h.slot_lt slot x hx hfree
      obtain ⟨v, hv⟩ : ∃ v, items[x]? = some v := ⟨_, List.getElem?_eq_getElem hlt⟩
      have hvar := h.varlena v (List.mem_of_getElem? hv)
      rw [if_neg hfree, Option.filter_some_pos (by simpa using hfree), h.offsets x hlt.le]
      dsimp only [Option.bind_some]
      rw [h.data, drop_offset hv, hvar.append]
      have hsame : (v.length = datum.length ∧ (v ++ (items.drop (x + 1)).flatten).take datum.length = datum) ↔
          decide (items[x]? = some datum) = true := by
        rw [decide_eq_true_iff, hv, Option.some_inj]
        constructor
        · rintro ⟨hlen, htake⟩
          rwa [← hlen, List.take_left] at htake
        · rintro rfl
          exact ⟨rfl, List.take_left⟩
      by_cases hd : decide (items[x]? = some datum) = true
      · rw [if_pos (hsame.mpr hd), if_pos hd]
        rfl
      · rw [if_neg fun hc => hd (hsame.mp hc), if_neg hd]
        exact ih (Nat.mod_lt _ (by omega))

/-- A value that the dictionary does not hold becomes its last item. -/
lemma DicHolds.append (h : DicHolds hashAny d items) {v : List UInt8} (hv : IsVarlena v) (hnew : v ∉ items)
    {slot : Nat} (hroom : items.length < d.maxItemCount)
    (hsearch : probe (d.maxItemCount * 2) (fun s => d.slots[s]?.filter (· ≠ freeHashSlot))
      (fun i => decide (items[i]? = some v)) (d.maxItemCount * 2) ((hashAny v).toNat % (d.maxItemCount * 2)) =
        .free slot) :
    ∃ d', d.append v slot = some d' ∧ DicHolds hashAny d' (items ++ [v]) ∧ d'.maxItemCount = d.maxItemCount := by
  have hmax := h.max_lt
  have hn : 0 < d.maxItemCount * 2 := by omega
  have hslot : slot < d.slots.length := by
    obtain ⟨m, -, rfl, -⟩ := probe_free (j := 0) hsearch fun k hk => absurd hk (Nat.not_lt_zero k)
    rw [h.slots_length]
    exact Nat.mod_lt _ hn
  have hfree : d.slots[slot]?.filter (· ≠ freeHashSlot) = none := by
    obtain ⟨m, -, rfl, hlook, -⟩ := probe_free (j := 0) hsearch fun k hk => absurd hk (Nat.not_lt_zero k)
    exact hlook
  have hlook : (fun s => (d.slots.set slot d.curItemCount)[s]?.filter (· ≠ freeHashSlot)) =
      Function.update (fun s => d.slots[s]?.filter (· ≠ freeHashSlot)) slot (some items.length) := by
    funext s
    by_cases hs : s = slot
    · subst hs
      have hne : items.length ≠ freeHashSlot := by
        have : freeHashSlot = 65535 := rfl
        omega
      rw [Function.update_self, List.getElem?_set_self hslot, h.count,
        Option.filter_some_pos (by simpa using hne)]
    · rw [Function.update_of_ne hs, List.getElem?_set_ne (Ne.symm hs)]
  refine ⟨d.withItem v slot items.flatten.length, ?_, ?_, rfl⟩
  · rw [DicData.append, h.count, h.offsets items.length le_rfl, List.take_length]
    exact if_pos ⟨by rw [h.offsets_length]; omega, hslot⟩
  · refine ⟨?_, ?_, ?_, ?_, hmax, ?_, ?_, ?_, ?_, ?_, ?_⟩
    · intro w hw
      rcases List.mem_append.mp hw with hw | hw
      · exact h.varlena w hw
      · rwa [List.mem_singleton.mp hw]
    · exact List.nodup_append.mpr ⟨h.nodup, List.nodup_singleton v, fun a ha b hb => by
        rw [List.mem_singleton.mp hb]
        rintro rfl
        exact hnew ha⟩
    · dsimp only [DicData.withItem]
      rw [List.length_append, List.length_singleton, ← h.count]
    · rw [List.length_append, List.length_singleton]
      exact hroom
    · dsimp only [DicData.withItem]
      rw [h.data, List.flatten_append]
      simp
    · dsimp only [DicData.withItem]
      rw [List.length_set]
      exact h.offsets_length
    · intro i hi
      dsimp only [DicData.withItem]
      rw [List.length_append, List.length_singleton] at hi
      rcases Nat.lt_or_eq_of_le hi with hlt | rfl
      · rw [List.getElem?_set_ne (by rw [h.count]; omega), h.offsets i (by omega),
          List.take_append_of_le_length (by omega)]
      · rw [h.count, List.getElem?_set_self (by rw [h.offsets_length]; omega), List.take_of_length_le (by simp)]
        simp
    · dsimp only [DicData.withItem]
      rw [List.length_set]
      exact h.slots_length
    · intro s i hs hi
      dsimp only [DicData.withItem] at hs
      rw [List.length_append, List.length_singleton]
      by_cases hs' : s = slot
      · subst hs'
        rw [List.getElem?_set_self hslot, Option.some_inj, h.count] at hs
        omega
      · rw [List.getElem?_set_ne (Ne.symm hs')] at hs
        exact Nat.lt_succ_of_lt (h.slot_lt s i hs hi)
    · intro i w hw
      dsimp only [DicData.withItem]
      rw [hlook]
      by_cases hi : i < items.length
      · rw [List.getElem?_append_left hi] at hw
        exact (h.reach i w hw).insert hfree _
      · rw [List.getElem?_append_right (by omega)] at hw
        obtain ⟨hlt, hw⟩ := List.getElem?_eq_some_iff.mp hw
        obtain rfl : i = items.length := by
          rw [List.length_singleton] at hlt
          omega
        simp only [Nat.sub_self, List.getElem_cons_zero] at hw
        exact hw ▸ reachable_insert hsearch items.length

variable {v : List UInt8} {vals : List (List UInt8)}

/-- What `EncodeOneValue` does: it finds the value, or adds it, or fails. -/
lemma encodeOneValue_cases (h : DicHolds hashAny d items) (hmax : 0 < d.maxItemCount) (hv : IsVarlena v) :
    (∃ i, items[i]? = some v ∧ encodeOneValue hashAny d v = some (some (i, d))) ∨
    (v ∉ items ∧ ∃ d', encodeOneValue hashAny d v = some (some (items.length, d')) ∧
      DicHolds hashAny d' (items ++ [v]) ∧ d'.maxItemCount = d.maxItemCount) ∨
    (v ∉ items ∧ encodeOneValue hashAny d v = some none) := by
  have hn : 0 < d.maxItemCount * 2 := by omega
  have hsearch := searchSlots_eq h v (d.maxItemCount * 2) (Nat.mod_lt (hashAny v).toNat hn)
  have htake : v.take (varsizeAny v) = v := by rw [hv.size, List.take_length]
  have hmem : v ∈ items → ∃ i, probe (d.maxItemCount * 2) (fun s => d.slots[s]?.filter (· ≠ freeHashSlot))
      (fun i => decide (items[i]? = some v)) (d.maxItemCount * 2) ((hashAny v).toNat % (d.maxItemCount * 2)) =
        .hit i := by
    intro hm
    obtain ⟨i, hi⟩ := List.mem_iff_getElem?.mp hm
    exact probe_of_reachable (h.reach i v hi) (by simpa using hi)
  unfold encodeOneValue
  dsimp only
  rw [htake, hsearch]
  dsimp only [Option.bind_eq_bind, Option.bind_some]
  cases hprobe : probe (d.maxItemCount * 2) (fun s => d.slots[s]?.filter (· ≠ freeHashSlot))
      (fun i => decide (items[i]? = some v)) (d.maxItemCount * 2) ((hashAny v).toNat % (d.maxItemCount * 2)) with
  | hit i =>
    obtain ⟨hsame, -⟩ := probe_hit hprobe
    exact .inl ⟨i, by simpa using hsame, rfl⟩
  | free slot =>
    have hnew : v ∉ items := fun hm => by
      obtain ⟨i, hi⟩ := hmem hm
      cases hprobe.symm.trans hi
    dsimp only
    split
    case isTrue hroom =>
      have hcount : d.curItemCount < d.maxItemCount := by
        simp only [DicData.isEnoughToAppend, decide_eq_true_eq] at hroom
        exact hroom.2
      obtain ⟨d', happend, hd', hsame⟩ := h.append hv hnew (h.count ▸ hcount) hprobe
      exact .inr (.inl ⟨hnew, d', by rw [happend, h.count]; rfl, hd', hsame⟩)
    case isFalse => exact .inr (.inr ⟨hnew, rfl⟩)
  | exhausted =>
    have hnew : v ∉ items := fun hm => by
      obtain ⟨i, hi⟩ := hmem hm
      cases hprobe.symm.trans hi
    exact .inr (.inr ⟨hnew, rfl⟩)

/-- Only the value at the pointer matters. -/
lemma encodeOneValue_append (hv : IsVarlena v) (rest : List UInt8) :
    encodeOneValue hashAny d (v ++ rest) = encodeOneValue hashAny d v := by
  unfold encodeOneValue
  rw [hv.append, List.take_left, hv.size, List.take_length]

/-! ## The loop -/

/-- The loop of `Compress` value by value -/
def encodeValues (hashAny : List UInt8 → UInt32) (numVals : Nat) :
    DicData → List (List UInt8) → List Nat → Option (DicData × List (List UInt8) × List Nat)
  | d, [], codes => some (d, [], codes)
  | d, v :: vals, codes => do
    match ← encodeOneValue hashAny d v with
    | none => return (d, v :: vals, codes)
    | some (code, d') =>
      if codes.length < numVals then encodeValues hashAny numVals d' vals (codes ++ [code]) else none

lemma length_le_flatten (hv : ∀ v ∈ vals, IsVarlena v) : vals.length ≤ vals.flatten.length := by
  induction vals with
  | nil => exact Nat.le_refl 0
  | cons v vals ih =>
    have hpos := List.length_pos_iff.mpr (hv v (by simp)).ne_nil
    have := ih fun w hw => hv w (List.mem_cons_of_mem v hw)
    rw [List.flatten_cons, List.length_append, List.length_cons]
    omega

lemma dicCompressLoop_eq {numVals fuel : Nat} (hv : ∀ v ∈ vals, IsVarlena v) (hfuel : vals.length ≤ fuel)
    (codes : List Nat) :
    dicCompressLoop hashAny numVals fuel d vals.flatten codes =
      (encodeValues hashAny numVals d vals codes).map fun r => (r.1, r.2.1.flatten, r.2.2) := by
  induction vals generalizing fuel d codes with
  | nil =>
    cases fuel with
    | zero => rfl
    | succ fuel => rfl
  | cons v vals ih =>
    obtain ⟨fuel, rfl⟩ : ∃ k, fuel = k + 1 := ⟨fuel - 1, by simp at hfuel; omega⟩
    have hvar := hv v (by simp)
    have hne : (v :: vals).flatten ≠ [] := by
      rw [List.flatten_cons]
      exact List.append_ne_nil_of_left_ne_nil hvar.ne_nil _
    rw [dicCompressLoop, if_neg hne, encodeValues, List.flatten_cons, encodeOneValue_append hvar, hvar.append,
      List.drop_left]
    cases encodeOneValue hashAny d v with
    | none => rfl
    | some r =>
      cases r with
      | none => simp
      | some r =>
        dsimp only [Option.bind_eq_bind, Option.bind_some]
        split
        case isTrue =>
          exact ih (fun w hw => hv w (List.mem_cons_of_mem v hw)) (by simpa using hfuel) _
        case isFalse => rfl

/-- The codes of the values, in the dictionary that holds them -/
def CodesOf (items : List (List UInt8)) (codes : List Nat) (vals : List (List UInt8)) : Prop :=
  List.Forall₂ (fun code v => items[code]? = some v) codes vals

lemma encodeValues_cases (h : DicHolds hashAny d items) (hmax : 0 < d.maxItemCount) (numVals : Nat)
    (hv : ∀ v ∈ vals, IsVarlena v) (codes : List Nat) (hcount : codes.length + vals.length ≤ numVals) :
    (∃ d' items' new, encodeValues hashAny numVals d vals codes = some (d', [], codes ++ new) ∧
      DicHolds hashAny d' items' ∧ d'.maxItemCount = d.maxItemCount ∧ items <+: items' ∧ CodesOf items' new vals) ∨
    ∃ pre v post d' new, vals = pre ++ v :: post ∧
      encodeValues hashAny numVals d vals codes = some (d', v :: post, codes ++ new) := by
  induction vals generalizing d items codes with
  | nil =>
    exact .inl ⟨d, items, [], by rw [encodeValues, List.append_nil], h, rfl, List.prefix_rfl, List.Forall₂.nil⟩
  | cons v vals ih =>
    rw [List.length_cons] at hcount
    have hrest : ∀ w ∈ vals, IsVarlena w := fun w hw => hv w (List.mem_cons_of_mem v hw)
    have hroom : codes.length < numVals := by omega
    -- with the code of this value, the rest is the same question again
    have hstep : ∀ (code : Nat) (d₁ : DicData) (items₁ : List (List UInt8)), items₁[code]? = some v →
        encodeOneValue hashAny d v = some (some (code, d₁)) → DicHolds hashAny d₁ items₁ →
        d₁.maxItemCount = d.maxItemCount → items <+: items₁ →
        (∃ d' items' new, encodeValues hashAny numVals d (v :: vals) codes = some (d', [], codes ++ new) ∧
          DicHolds hashAny d' items' ∧ d'.maxItemCount = d.maxItemCount ∧ items <+: items' ∧
            CodesOf items' new (v :: vals)) ∨
        ∃ pre w post d' new, v :: vals = pre ++ w :: post ∧
          encodeValues hashAny numVals d (v :: vals) codes = some (d', w :: post, codes ++ new) := by
      intro code d₁ items₁ hcode hencode hd₁ hsame hpre
      have hnext : encodeValues hashAny numVals d (v :: vals) codes =
          encodeValues hashAny numVals d₁ vals (codes ++ [code]) := by
        rw [encodeValues, hencode]
        exact if_pos hroom
      rcases ih hd₁ (hsame ▸ hmax) hrest (codes ++ [code]) (by rw [List.length_append, List.length_singleton]; omega)
        with ⟨d', items', new, hrun, hd', hsame', hpre', hcodes⟩ | ⟨pre, w, post, d', new, hvals, hrun⟩
      · refine .inl ⟨d', items', code :: new, ?_, hd', hsame'.trans hsame, hpre.trans hpre',
          List.Forall₂.cons ?_ hcodes⟩
        · rw [hnext, hrun, List.append_assoc, List.singleton_append]
        · obtain ⟨more, rfl⟩ := hpre'
          rw [List.getElem?_append_left (List.getElem?_eq_some_iff.mp hcode).1, hcode]
      · exact .inr ⟨v :: pre, w, post, d', code :: new, by rw [hvals]; rfl,
          by rw [hnext, hrun, List.append_assoc, List.singleton_append]⟩
    rcases encodeOneValue_cases h hmax (hv v (by simp)) with
      ⟨i, hi, hencode⟩ | ⟨-, d', hencode, hd', hsame⟩ | ⟨-, hencode⟩
    · exact hstep i d items hi hencode h rfl List.prefix_rfl
    · refine hstep items.length d' (items ++ [v]) ?_ hencode hd' hsame (List.prefix_append items [v])
      rw [List.getElem?_append_right le_rfl, Nat.sub_self]
      rfl
    · refine .inr ⟨[], v, vals, d, [], rfl, ?_⟩
      rw [encodeValues, hencode, List.append_nil]
      rfl

/-- The loop stops at a value that cannot be added. -/
lemma encodeValues_stop {numVals : Nat} {pre : List (List UInt8)} {d' : DicData} {codes codes' : List Nat}
    (post : List (List UInt8)) (hpre : encodeValues hashAny numVals d pre codes = some (d', [], codes'))
    (hfail : encodeOneValue hashAny d' v = some none) :
    encodeValues hashAny numVals d (pre ++ v :: post) codes = some (d', v :: post, codes') := by
  induction pre generalizing d codes with
  | nil =>
    rw [encodeValues, Option.some_inj, Prod.mk.injEq, Prod.mk.injEq] at hpre
    obtain ⟨rfl, -, rfl⟩ := hpre
    rw [List.nil_append, encodeValues, hfail]
    rfl
  | cons w pre ih =>
    rw [List.cons_append, encodeValues]
    rw [encodeValues] at hpre
    cases hencode : encodeOneValue hashAny d w with
    | none =>
      rw [hencode] at hpre
      cases hpre
    | some r =>
      rw [hencode] at hpre
      cases r with
      | none => cases hpre
      | some r =>
        dsimp only [Option.bind_eq_bind, Option.bind_some] at hpre ⊢
        split at hpre
        case isTrue hroom =>
          rw [if_pos hroom]
          exact ih hpre
        case isFalse => cases hpre

end items

/-! ## The decoder -/

lemma fillOffsets_eq {items : List (List UInt8)} (hv : ∀ v ∈ items, IsVarlena v) (behind : List UInt8) (fuel k : Nat)
    (hfuel : items.length - k ≤ fuel) (hk : k ≤ items.length) :
    fillOffsets items.length items.flatten.length (items.flatten ++ behind) fuel
      ((List.range (k + 1)).map fun i => (items.take i).flatten.length) (items.take k).flatten.length =
        some ((List.range (items.length + 1)).map fun i => (items.take i).flatten.length) := by
  induction fuel generalizing k with
  | zero =>
    obtain rfl : k = items.length := by omega
    rfl
  | succ fuel ih =>
    rw [fillOffsets]
    rcases Nat.lt_or_eq_of_le hk with hlt | rfl
    · obtain ⟨v, hget⟩ : ∃ v, items[k]? = some v := ⟨_, List.getElem?_eq_getElem hlt⟩
      have hvar := hv v (List.mem_of_getElem? hget)
      have hdrop : (items.flatten ++ behind).drop (items.take k).flatten.length =
          v ++ ((items.drop (k + 1)).flatten ++ behind) := by
        rw [List.drop_append_of_le_length (offset_le items k), drop_offset hget, List.append_assoc]
      have hnext : (items.take k).flatten.length + v.length = (items.take (k + 1)).flatten.length := by
        rw [List.take_add_one, hget, List.flatten_append, List.length_append]
        simp
      have hinside : (items.take k).flatten.length < items.flatten.length := by
        have hle := offset_le items (k + 1)
        have hpos := List.length_pos_iff.mpr hvar.ne_nil
        omega
      rw [if_pos hinside, hdrop]
      dsimp only
      rw [hvar.append, hnext, if_pos (by rw [List.length_map, List.length_range]; omega)]
      have hsnoc : ((List.range (k + 1)).map fun i => (items.take i).flatten.length) ++
          [(items.take (k + 1)).flatten.length] =
            (List.range (k + 1 + 1)).map fun i => (items.take i).flatten.length := by
        rw [List.range_succ (n := k + 1), List.map_append]
        rfl
      rw [hsnoc]
      exact ih (k + 1) (by omega) hlt
    · rw [List.take_length, if_neg (Nat.lt_irrefl _)]

/-- The decoder that is rebuilt from a dictionary on disk finds every item. -/
lemma ofDisk_eq {hashAny : List UInt8 → UInt32} {d : DicData} {items : List (List UInt8)} (h : DicHolds hashAny d items)
    (hsize : d.data.length + 8 < 2 ^ 32) (behind : List UInt8) :
    DicReader.ofDisk (dictOnDisk d ++ behind) =
      some ⟨(List.range (items.length + 1)).map fun i => (items.take i).flatten.length, items.flatten ++ behind⟩ := by
  have hcount : d.curItemCount < 256 ^ 4 := by
    have := h.max_lt
    have := h.le_max
    rw [h.count]
    omega
  have htotal : ofLE ((dictOnDisk d ++ behind).take 4) = 8 + d.data.length := by
    rw [dictOnDisk, List.append_assoc, List.append_assoc, List.take_left' (toLE_length _ _), ofLE_toLE_of_lt (by omega)]
  have hitems : ofLE (((dictOnDisk d ++ behind).drop 4).take 4) = items.length := by
    rw [dictOnDisk, List.append_assoc, List.append_assoc, List.drop_left' (toLE_length _ _),
      List.take_left' (toLE_length _ _), ofLE_toLE_of_lt hcount, h.count]
  have hdata : (dictOnDisk d ++ behind).drop 8 = items.flatten ++ behind := by
    rw [dictOnDisk, List.append_assoc, List.drop_left' (by simp), h.data]
  have hfill := fillOffsets_eq h.varlena behind (8 + d.data.length) 0
    (by
      have := length_le_flatten h.varlena
      rw [h.data]
      omega) (Nat.zero_le _)
  unfold DicReader.ofDisk
  rw [htotal, hitems, hdata]
  dsimp only [Option.bind_eq_bind]
  rw [Nat.add_sub_cancel_left, show d.data.length = items.flatten.length by rw [h.data]]
  rw [show d.data.length = items.flatten.length by rw [h.data]] at hfill
  exact congrArg (Option.bind · _) hfill

lemma decompress_eq {items : List (List UInt8)} (hv : ∀ v ∈ items, IsVarlena v) (behind : List UInt8)
    (hcodes : CodesOf items codes vals) (hcount : vals.length < 2 ^ 16) :
    (DicReader.mk ((List.range (items.length + 1)).map fun i => (items.take i).flatten.length)
      (items.flatten ++ behind)).decompress codes = some vals := by
  have hlen : codes.length = vals.length := hcodes.length_eq
  rw [DicReader.decompress, Nat.mod_eq_of_lt (hlen ▸ hcount), List.take_length]
  clear hlen hcount
  induction hcodes with
  | nil => rfl
  | @cons code v codes vals hcode _ ih =>
    obtain ⟨hlt, -⟩ := List.getElem?_eq_some_iff.mp hcode
    have hvar := hv v (List.mem_of_getElem? hcode)
    have hone : (DicReader.mk ((List.range (items.length + 1)).map fun i => (items.take i).flatten.length)
        (items.flatten ++ behind)).decodeOneValue code = some v := by
      unfold DicReader.decodeOneValue
      rw [List.getElem?_map, List.getElem?_range (by omega)]
      dsimp only [Option.map_some, Option.bind_eq_bind, Option.bind_some]
      rw [List.drop_append_of_le_length (offset_le items code), drop_offset hcode, List.append_assoc, hvar.append,
        List.take_left]
      rfl
    rw [List.mapM_cons, hone, ih]
    rfl

lemma CodesOf.lt {items : List (List UInt8)} (h : CodesOf items codes vals) {code : Nat} (hcode : code ∈ codes) :
    code < items.length := by
  induction h with
  | nil => cases hcode
  | cons hone _ ih =>
    rcases List.mem_cons.mp hcode with rfl | hcode
    · exact (List.getElem?_eq_some_iff.mp hone).1
    · exact ih hcode

/-! ## Round trip -/

/-- The item count that the first constructor of `DicCoder` takes -/
def maxItems (maxItemCnt numVals : Nat) : Nat := if maxItemCnt > 0 then maxItemCnt else dictGetMaxNumber numVals

lemma maxItems_pos (maxItemCnt numVals : Nat) : 0 < maxItems maxItemCnt numVals := by
  unfold maxItems
  split
  · assumption
  · exact Nat.succ_pos _

lemma maxItems_lt {maxItemCnt numVals : Nat} (hmax : maxItemCnt < 2 ^ 16) (hcount : numVals < 2 ^ 16 * 3) :
    maxItems maxItemCnt numVals < 2 ^ 16 := by
  unfold maxItems dictGetMaxNumber
  split <;> omega

/-- `Compress` by its loop over the values -/
lemma dicCompress_eq (hashAny : List UInt8 → UInt32) (hv : ∀ v ∈ vals, IsVarlena v) (maxItemCnt : Nat) {d : DicData}
    {rest : List (List UInt8)}
    (hrun : encodeValues hashAny vals.length (initDictData (dictGetMaxNumber vals.flatten.length)
      (maxItems maxItemCnt vals.length)) vals [] = some (d, rest, codes)) :
    dicCompress hashAny vals.flatten vals.length maxItemCnt =
      if rest.flatten = [] ∧ d.data.length + 8 < vals.flatten.length then some (some (dictOnDisk d, codes))
      else some none := by
  unfold dicCompress
  rw [← maxItems]
  dsimp only
  rw [dicCompressLoop_eq hv (length_le_flatten hv), hrun]
  rfl

/-- What the dictionary coder writes is decoded to the values, whatever stands behind it on disk; a value that cannot be
added makes it fail. -/
theorem dictionary_round_trip (hashAny : List UInt8 → UInt32) {vals : List (List UInt8)}
    (hv : ∀ v ∈ vals, IsVarlena v) (hcount : vals.length < 2 ^ 16) (hsize : vals.flatten.length < 2 ^ 31)
    {maxItemCnt : Nat} (hmax : maxItemCnt < 2 ^ 16) :
    (dicCompress hashAny vals.flatten vals.length maxItemCnt = some none ∨
      ∃ (disk : List UInt8) (codes : List Nat) (items : List (List UInt8)),
        dicCompress hashAny vals.flatten vals.length maxItemCnt = some (some (disk, codes)) ∧
        disk = toLE 4 (8 + items.flatten.length) ++ toLE 4 items.length ++ items.flatten ∧
        items.Nodup ∧ items.length ≤ maxItems maxItemCnt vals.length ∧ (∀ code ∈ codes, code < items.length) ∧
        ∀ behind, ∃ r, DicReader.ofDisk (disk ++ behind) = some r ∧ r.decompress codes = some vals) ∧
    ∀ pre v post d codes, vals = pre ++ v :: post →
      dicCompressLoop hashAny vals.length pre.flatten.length (initDictData (dictGetMaxNumber vals.flatten.length)
        (maxItems maxItemCnt vals.length)) pre.flatten [] = some (d, [], codes) →
      encodeOneValue hashAny d v = some none →
      dicCompress hashAny vals.flatten vals.length maxItemCnt = some none := by
  have hlt := maxItems_lt hmax (show vals.length < 2 ^ 16 * 3 by omega)
  have hinit := DicHolds.init hashAny (dictGetMaxNumber vals.flatten.length) hlt
  have hmaxCount : (initDictData (dictGetMaxNumber vals.flatten.length) (maxItems maxItemCnt vals.length)).maxItemCount =
      maxItems maxItemCnt vals.length := Nat.mod_eq_of_lt hlt
  have hpos := hmaxCount.symm ▸ maxItems_pos maxItemCnt vals.length
  have hstuck : ∀ v post, v ∈ vals → (v :: post).flatten ≠ [] := by
    intro v post hmem hnil
    rw [List.flatten_cons] at hnil
    exact (hv v hmem).ne_nil (List.append_eq_nil_iff.mp hnil).1
  constructor
  · rcases encodeValues_cases hinit hpos vals.length hv [] (by simp) with
      ⟨d, items, codes, hrun, hd, hsame, -, hcodes⟩ | ⟨pre, v, post, d, codes, hvals, hrun⟩
    · rw [dicCompress_eq hashAny hv maxItemCnt hrun]
      by_cases hsmall : d.data.length + 8 < vals.flatten.length
      · rw [if_pos ⟨rfl, hsmall⟩]
        refine .inr ⟨_, _, items, rfl, ?_, hd.nodup, ?_, fun code hcode => hcodes.lt hcode, fun behind => ?_⟩
        · rw [dictOnDisk, hd.data, hd.count]
        · exact hmaxCount ▸ hsame ▸ hd.le_max
        · exact ⟨_, ofDisk_eq hd (by omega) behind, decompress_eq hd.varlena behind hcodes hcount⟩
      · exact .inl (if_neg fun hc => hsmall hc.2)
    · rw [dicCompress_eq hashAny hv maxItemCnt hrun]
      exact .inl (if_neg fun hc => hstuck v post (by rw [hvals]; simp) hc.1)
  · intro pre v post d codes hvals hloop hfail
    have hpre : ∀ w ∈ pre, IsVarlena w := fun w hw => hv w (by rw [hvals]; simp [hw])
    rw [dicCompressLoop_eq hpre (length_le_flatten hpre)] at hloop
    obtain ⟨⟨d', rest, codes'⟩, hrun, heq⟩ := Option.map_eq_some_iff.mp hloop
    obtain ⟨rfl, hrest, rfl⟩ : d' = d ∧ rest.flatten = [] ∧ codes' = codes := by simpa using heq
    -- nothing of the values before is left
    obtain rfl : rest = [] := by
      rcases encodeValues_cases hinit hpos vals.length hpre [] (by rw [hvals]; simp) with
        ⟨_, _, _, hrun', -⟩ | ⟨_, w, post', _, _, hpre', hrun'⟩
      · exact (Prod.mk.inj (Prod.mk.inj (Option.some_inj.mp (hrun.symm.trans hrun'))).2).1
      · obtain rfl := (Prod.mk.inj (Prod.mk.inj (Option.some_inj.mp (hrun.symm.trans hrun'))).2).1
        exact absurd hrest (hstuck w post' (by rw [hvals, hpre']; simp))
    have hstop := encodeValues_stop post hrun hfail
    rw [← hvals] at hstop
    rw [dicCompress_eq hashAny hv maxItemCnt hstop]
    exact if_neg fun hc => hstuck v post (by rw [hvals]; simp) hc.1

/-- Copies of two strings -/
def sampleCopies : List (List UInt8) :=
  [true, false, true, false, false, true, true, false].map fun first => [11, 97, 98, 99, if first then 100 else 101]

/-- The hashes of the two strings are equal. -/
theorem dictionary_round_trip_copies : ∃ disk,
    dicCompress (fun _ => 3) sampleCopies.flatten sampleCopies.length 0 = some (some (disk, [0, 1, 0, 1, 1, 0, 0, 1])) ∧
      ∃ r, DicReader.ofDisk disk = some r ∧ r.decompress [0, 1, 0, 1, 1, 0, 0, 1] = some sampleCopies := by
  have hv : ∀ v ∈ sampleCopies, IsVarlena v := by
    intro v hmem
    obtain ⟨first, -, rfl⟩ := List.mem_map.mp hmem
    cases first with
    | true => exact ⟨by decide, by decide⟩
    | false => exact ⟨by decide, by decide⟩
  have hcodes : (dicCompress (fun _ => 3) sampleCopies.flatten sampleCopies.length 0).map (Option.map Prod.snd) =
      some (some [0, 1, 0, 1, 1, 0, 0, 1]) := by decide +kernel
  obtain ⟨hnone | ⟨disk, codes, items, hrun, -, -, -, -, hback⟩, -⟩ :=
    dictionary_round_trip (fun _ => 3) hv (by decide) (by decide) (show 0 < 2 ^ 16 by decide)
  · rw [hnone] at hcodes
    cases hcodes
  · rw [hrun] at hcodes
    cases hcodes
    obtain ⟨r, hr, hvals⟩ := hback []
    exact ⟨disk, hrun, r, by rwa [List.append_nil] at hr, hvals⟩

/-! ## Too many values -/

/-- The first value of an empty dictionary is added if it fits. -/
lemma encodeOneValue_init (hashAny : List UInt8 → UInt32) {itemsMaxSize itemsMaxCount : Nat} (hv : IsVarlena v)
    (h0 : 0 < itemsMaxCount) (h : itemsMaxCount < 2 ^ 16) (hfits : v.length ≤ itemsMaxSize) :
    ∃ d, encodeOneValue hashAny (initDictData itemsMaxSize itemsMaxCount) v = some (some (0, d)) ∧
      DicHolds hashAny d [v] ∧ d.maxItemCount = itemsMaxCount := by
  have hinit := DicHolds.init hashAny itemsMaxSize h
  have hmax : (initDictData itemsMaxSize itemsMaxCount).maxItemCount = itemsMaxCount := Nat.mod_eq_of_lt h
  have hn : 0 < (initDictData itemsMaxSize itemsMaxCount).maxItemCount := hmax.symm ▸ h0
  rcases encodeOneValue_cases hinit hn hv with ⟨i, hi, -⟩ | ⟨-, d, hencode, hd, hsame⟩ | ⟨-, hfail⟩
  · cases hi
  · exact ⟨d, hencode, hd, hsame.trans hmax⟩
  · -- the first slot is free and there is room
    have htake : v.take (varsizeAny v) = v := by rw [hv.size, List.take_length]
    obtain ⟨k, hk⟩ : ∃ k, (initDictData itemsMaxSize itemsMaxCount).maxItemCount * 2 = k + 1 :=
      ⟨(initDictData itemsMaxSize itemsMaxCount).maxItemCount * 2 - 1, by omega⟩
    have hslot : (initDictData itemsMaxSize itemsMaxCount).slots[(hashAny v).toNat % (k + 1)]? = some freeHashSlot := by
      have hlt : (hashAny v).toNat % (k + 1) < itemsMaxCount % 2 ^ 16 * 2 := by
        rw [show itemsMaxCount % 2 ^ 16 * 2 = k + 1 from hk]
        exact Nat.mod_lt _ (Nat.succ_pos k)
      rw [initDictData, List.getElem?_replicate, if_pos hlt]
    have hroom : (initDictData itemsMaxSize itemsMaxCount).isEnoughToAppend v.length = true := by
      rw [DicData.isEnoughToAppend, decide_eq_true_iff]
      exact ⟨show 0 + v.length ≤ itemsMaxSize by omega, hn⟩
    unfold encodeOneValue at hfail
    dsimp only at hfail
    rw [htake, hk, DicData.searchSlots, hslot] at hfail
    dsimp only [Option.bind_eq_bind, Option.bind_some] at hfail
    rw [if_pos rfl] at hfail
    simp only [Option.pure_def, Option.bind_some, hroom, if_true] at hfail
    cases happend : (initDictData itemsMaxSize itemsMaxCount).append v ((hashAny v).toNat % (k + 1)) with
    | none => rw [happend] at hfail; cases hfail
    | some d => rw [happend] at hfail; cases hfail

/-- Values that the dictionary holds get their code. -/
lemma encodeValues_replicate {hashAny : List UInt8 → UInt32} {d : DicData} {items : List (List UInt8)}
    (h : DicHolds hashAny d items) (hmax : 0 < d.maxItemCount) (hv : IsVarlena v) {i : Nat} (hi : items[i]? = some v)
    (numVals n : Nat) (codes : List Nat) (hcount : codes.length + n ≤ numVals) :
    encodeValues hashAny numVals d (List.replicate n v) codes = some (d, [], codes ++ List.replicate n i) := by
  induction n generalizing codes with
  | zero => simp [encodeValues]
  | succ n ih =>
    have hmem : v ∈ items := List.mem_of_getElem? hi
    rcases encodeOneValue_cases h hmax hv with ⟨i', hi', hencode⟩ | ⟨hnew, -⟩ | ⟨hnew, -⟩
    · obtain ⟨hlt, hget⟩ := List.getElem?_eq_some_iff.mp hi
      obtain ⟨hlt', hget'⟩ := List.getElem?_eq_some_iff.mp hi'
      obtain rfl : i' = i := (h.nodup.getElem_inj_iff).mp (hget'.trans hget.symm)
      rw [List.replicate_succ, encodeValues, hencode]
      dsimp only [Option.bind_eq_bind, Option.bind_some]
      rw [if_pos (by omega), ih (codes ++ [i']) (by rw [List.length_append, List.length_singleton]; omega),
        List.append_assoc, List.replicate_succ]
      rfl
    · exact absurd hmem hnew
    · exact absurd hmem hnew

/-- Copies of one value -/
lemma dicCompress_replicate (hashAny : List UInt8 → UInt32) (hv : IsVarlena v) {n : Nat} (hn : n + 1 < 2 ^ 16 * 3)
    (hfits : v.length ≤ (n + 1) * v.length / 4 + 1) (hsmall : v.length + 8 < (n + 1) * v.length) :
    ∃ d, dicCompress hashAny (List.replicate (n + 1) v).flatten (n + 1) 0 =
      some (some (dictOnDisk d, List.replicate (n + 1) 0)) ∧ DicHolds hashAny d [v] := by
  have hall : ∀ w ∈ List.replicate (n + 1) v, IsVarlena w := fun w hw => List.eq_of_mem_replicate hw ▸ hv
  have hlength : (List.replicate (n + 1) v).flatten.length = (n + 1) * v.length := by simp
  obtain ⟨d, hfirst, hd, hmax⟩ := encodeOneValue_init hashAny hv (maxItems_pos 0 (n + 1))
    (maxItems_lt (show 0 < 2 ^ 16 by decide) hn)
    (show v.length ≤ dictGetMaxNumber (List.replicate (n + 1) v).flatten.length by rwa [hlength])
  have hrest := encodeValues_replicate hd (hmax ▸ maxItems_pos 0 (n + 1)) hv (show [v][0]? = some v by rfl) (n + 1) n
    [0] (by rw [List.length_singleton]; omega)
  have hrun : encodeValues hashAny (List.replicate (n + 1) v).length
      (initDictData (dictGetMaxNumber (List.replicate (n + 1) v).flatten.length)
        (maxItems 0 (List.replicate (n + 1) v).length)) (List.replicate (n + 1) v) [] =
      some (d, [], List.replicate (n + 1) 0) := by
    rw [List.length_replicate, List.replicate_succ (n := n) (a := v), encodeValues, ← List.replicate_succ, hfirst]
    dsimp only [Option.bind_eq_bind, Option.bind_some]
    exact (if_pos (Nat.succ_pos n)).trans hrest
  have hcompress := dicCompress_eq hashAny hall 0 hrun
  rw [List.length_replicate, hlength, if_pos ⟨rfl, by rw [hd.data]; simpa using hsmall⟩] at hcompress
  exact ⟨d, hcompress, hd⟩

/-- The codes of 65536 values are decoded to nothing. -/
theorem dictionary_count_wraps : ∃ disk codes r,
    dicCompress (fun _ => 3) (List.replicate 65536 [11, 97, 98, 99, 100]).flatten 65536 0 =
        some (some (disk, codes)) ∧
      DicReader.ofDisk disk = some r ∧ r.decompress codes = some [] := by
  obtain ⟨d, hcompress, hd⟩ := dicCompress_replicate (fun _ => 3) (v := [11, 97, 98, 99, 100])
    ⟨by decide, by decide⟩ (n := 65535) (by decide) (by decide) (by decide)
  have hdisk := ofDisk_eq hd (by rw [hd.data]; decide) []
  rw [List.append_nil] at hdisk
  refine ⟨_, _, _, hcompress, hdisk, ?_⟩
  rw [DicReader.decompress, List.length_replicate]
  rfl

end GaussKernel.CStore
