import GaussKernel.Undo.Zone

/-!
# The walk over transaction slots

Slots lie on a grid, 255 in a block behind its header. `getNextSlotPtr` multiplies block numbers in 32 bits, so that
behind the last slot below 4 GB it goes on with the first slot of the zone.
-/

namespace GaussKernel.Undo

abbrev slotsPerBlock : Nat := 255

/-- The slot at `offset` lies behind the header of its block, at a multiple of its size, and ends in the block. -/
structure OnSlotGrid (offset : Nat) : Prop where
  header : undoLogBlockHeaderSize ≤ offset % blcksz
  aligned : (offset % blcksz - undoLogBlockHeaderSize) % sizeofTransactionSlot = 0
  fits : offset % blcksz + sizeofTransactionSlot ≤ blcksz

/-- The offset of the `i`-th slot of a zone. -/
def slotPos (i : Nat) : Nat :=
  i / slotsPerBlock * blcksz + undoLogBlockHeaderSize + i % slotsPerBlock * sizeofTransactionSlot

/-- The slots below 4 GB. -/
abbrev lowSlots : Nat := 2 ^ 19 * slotsPerBlock

/-- The offset of the last of them. -/
abbrev lastLowSlot : Nat := 2 ^ 32 - 40

lemma onSlotGrid_iff {offset : Nat} : OnSlotGrid offset ↔ ∃ i, offset = slotPos i := by
  constructor
  · intro h
    refine ⟨offset / blcksz * slotsPerBlock + (offset % blcksz - undoLogBlockHeaderSize) / sizeofTransactionSlot, ?_⟩
    have := h.header
    have := h.aligned
    have := h.fits
    simp only [slotPos, slotsPerBlock, blcksz, undoLogBlockHeaderSize, sizeofTransactionSlot] at *
    omega
  · rintro ⟨i, rfl⟩
    constructor
    all_goals
      simp only [slotPos, slotsPerBlock, blcksz, undoLogBlockHeaderSize, sizeofTransactionSlot]
      omega

variable {i j zid : Nat}

lemma slotPos_lt_iff : slotPos i < slotPos j ↔ i < j := by
  simp only [slotPos, slotsPerBlock, blcksz, undoLogBlockHeaderSize, sizeofTransactionSlot]
  omega

lemma slotPos_le_iff : slotPos i ≤ slotPos j ↔ i ≤ j := by
  rw [← Nat.not_lt, ← Nat.not_lt, slotPos_lt_iff]

lemma slotPos_inj (h : slotPos i = slotPos j) : i = j :=
  Nat.le_antisymm (slotPos_le_iff.mp h.le) (slotPos_le_iff.mp h.ge)

lemma slotPos_lowSlots : slotPos (lowSlots - 1) = lastLowSlot := rfl

lemma slotPos_mod_lt (i : Nat) : slotPos (i % lowSlots) < undoLogMaxSize := by
  have hlt : i % lowSlots ≤ lowSlots - 1 := by
    simp only [lowSlots, slotsPerBlock]
    omega
  refine lt_of_le_of_lt (slotPos_le_iff.mpr hlt) ?_
  rw [slotPos_lowSlots]
  decide

/-- The next slot, counted modulo the slots below 4 GB. -/
lemma getNextSlotPtr_slotPos (hz : zid < 2 ^ 20) (hi : slotPos i < undoLogMaxSize) :
    getNextSlotPtr (makeUndoPtr zid (slotPos i)) = makeUndoPtr zid (slotPos ((i + 1) % lowSlots)) := by
  rw [getNextSlotPtr, getOffset_make_of_lt hz hi, getZoneId_make_of_lt hz hi]
  split
  all_goals
    congr 1
    simp only [slotPos, slotsPerBlock, blcksz, undoLogBlockHeaderSize, sizeofTransactionSlot, undoLogMaxSize,
      lowSlots] at *
    omega

lemma iterate_getNextSlotPtr (hz : zid < 2 ^ 20) (hi : slotPos i < undoLogMaxSize) (n : Nat) :
    getNextSlotPtr^[n + 1] (makeUndoPtr zid (slotPos i)) = makeUndoPtr zid (slotPos ((i + n + 1) % lowSlots)) := by
  induction n with
  | zero => exact getNextSlotPtr_slotPos hz hi
  | succ n ih =>
    rw [Function.iterate_succ_apply', ih, getNextSlotPtr_slotPos hz (slotPos_mod_lt _), Nat.mod_add_mod]
    rfl

/-- Below 4 GB the walk is in order. -/
lemma iterate_getNextSlotPtr_low {n : Nat} (hz : zid < 2 ^ 20) (hn : i + n < lowSlots) :
    getNextSlotPtr^[n] (makeUndoPtr zid (slotPos i)) = makeUndoPtr zid (slotPos (i + n)) := by
  cases n with
  | zero => rfl
  | succ n =>
    have hi : slotPos i < undoLogMaxSize := by
      rw [← Nat.mod_eq_of_lt (show i < lowSlots by omega)]
      exact slotPos_mod_lt i
    rw [iterate_getNextSlotPtr hz hi, Nat.mod_eq_of_lt (by omega)]
    rfl

/-- The next pointer is that of the slot behind, in the same zone. -/
structure NextInOrder (zid offset : Nat) : Prop where
  zone : undoPtrGetZoneId (getNextSlotPtr (makeUndoPtr zid offset)) = zid
  greater : makeUndoPtr zid offset < getNextSlotPtr (makeUndoPtr zid offset)
  grid : OnSlotGrid (undoPtrGetOffset (getNextSlotPtr (makeUndoPtr zid offset)))
  none_between : ∀ x, OnSlotGrid x → offset < x → undoPtrGetOffset (getNextSlotPtr (makeUndoPtr zid offset)) ≤ x

/-- The walk from `recycle` comes to `allocate` and visits every slot before it once. -/
def WalkVisits (zid recycle allocate : Nat) : Prop :=
  ∃ n, getNextSlotPtr^[n] (makeUndoPtr zid recycle) = makeUndoPtr zid allocate ∧
    ∀ x, OnSlotGrid x → recycle ≤ x → x < allocate →
      ∃! i, i < n ∧ getNextSlotPtr^[i] (makeUndoPtr zid recycle) = makeUndoPtr zid x

lemma makeUndoPtr_inj {x y : Nat} (hz : zid < 2 ^ 20) (hx : x < undoLogMaxSize) (hy : y < undoLogMaxSize)
    (h : makeUndoPtr zid x = makeUndoPtr zid y) : x = y := by
  rw [← getOffset_make_of_lt hz hx, h, getOffset_make_of_lt hz hy]

lemma nextInOrder_iff (hz : zid < 2 ^ 20) (hi : slotPos i < undoLogMaxSize) :
    NextInOrder zid (slotPos i) ↔ i + 1 < lowSlots := by
  have hnext := slotPos_mod_lt (i + 1)
  constructor
  · intro h
    have hgreater := h.greater
    rw [getNextSlotPtr_slotPos hz hi, makeUndoPtr_eq hz hi, makeUndoPtr_eq hz hnext] at hgreater
    have hlt : i < (i + 1) % lowSlots := slotPos_lt_iff.mp (by omega)
    simp only [lowSlots, slotsPerBlock] at *
    omega
  · intro h
    have hoffset : undoPtrGetOffset (getNextSlotPtr (makeUndoPtr zid (slotPos i))) = slotPos (i + 1) := by
      rw [getNextSlotPtr_slotPos hz hi, getOffset_make_of_lt hz hnext, Nat.mod_eq_of_lt h]
    constructor
    · rw [getNextSlotPtr_slotPos hz hi, getZoneId_make_of_lt hz hnext]
    · rw [getNextSlotPtr_slotPos hz hi, makeUndoPtr_eq hz hi, makeUndoPtr_eq hz hnext, Nat.mod_eq_of_lt h]
      exact Nat.add_lt_add_left (slotPos_lt_iff.mpr i.lt_succ_self) _
    · rw [hoffset]
      exact onSlotGrid_iff.mpr ⟨i + 1, rfl⟩
    · intro x hx hlt
      obtain ⟨j, rfl⟩ := onSlotGrid_iff.mp hx
      rw [hoffset]
      exact slotPos_le_iff.mpr (slotPos_lt_iff.mp hlt)

lemma walkVisits_iff (hz : zid < 2 ^ 20) (hij : i ≤ j) (hj : slotPos j < undoLogMaxSize) :
    WalkVisits zid (slotPos i) (slotPos j) ↔ i = j ∨ j < lowSlots := by
  have hi : slotPos i < undoLogMaxSize := lt_of_le_of_lt (slotPos_le_iff.mpr hij) hj
  constructor
  · rintro ⟨n, hreach, -⟩
    cases n with
    | zero => exact .inl (slotPos_inj (makeUndoPtr_inj hz hi hj hreach))
    | succ n =>
      rw [iterate_getNextSlotPtr hz hi] at hreach
      obtain rfl := slotPos_inj (makeUndoPtr_inj hz (slotPos_mod_lt _) hj hreach)
      exact .inr (Nat.mod_lt _ (by decide))
  · rintro (rfl | hlow)
    · exact ⟨0, rfl, fun x _ hle hlt => absurd hlt (Nat.not_lt.mpr hle)⟩
    · refine ⟨j - i, ?_, fun x hx hle hlt => ?_⟩
      · rw [iterate_getNextSlotPtr_low hz (by omega), Nat.add_sub_cancel' hij]
      · obtain ⟨k, rfl⟩ := onSlotGrid_iff.mp hx
        have hik : i ≤ k := slotPos_le_iff.mp hle
        have hkj : k < j := slotPos_lt_iff.mp hlt
        refine ⟨k - i, ⟨by omega, ?_⟩, ?_⟩
        · rw [iterate_getNextSlotPtr_low hz (by omega), Nat.add_sub_cancel' hik]
        · rintro m ⟨hm, heq⟩
          rw [iterate_getNextSlotPtr_low hz (by omega)] at heq
          have hm' : slotPos (i + m) < undoLogMaxSize := lt_trans (slotPos_lt_iff.mpr (by omega)) hj
          have hk' : slotPos k < undoLogMaxSize := lt_trans hlt hj
          have := slotPos_inj (makeUndoPtr_inj hz hm' hk' heq)
          omega

/-- Slots are walked in order up to the last one below 4 GB. -/
theorem slots_in_order {zid : Nat} (hz : zid < 2 ^ 20) :
    (∀ offset < undoLogMaxSize, OnSlotGrid offset → (NextInOrder zid offset ↔ offset < lastLowSlot)) ∧
    ∀ recycle allocate, OnSlotGrid recycle → OnSlotGrid allocate → recycle ≤ allocate → allocate < undoLogMaxSize →
      (WalkVisits zid recycle allocate ↔ recycle = allocate ∨ allocate ≤ lastLowSlot) := by
  constructor
  · intro offset hlt hgrid
    obtain ⟨i, rfl⟩ := onSlotGrid_iff.mp hgrid
    rw [nextInOrder_iff hz hlt, ← slotPos_lowSlots, slotPos_lt_iff]
    exact Nat.lt_sub_iff_add_lt.symm
  · intro recycle allocate hr ha hle hlt
    obtain ⟨i, rfl⟩ := onSlotGrid_iff.mp hr
    obtain ⟨j, rfl⟩ := onSlotGrid_iff.mp ha
    rw [walkVisits_iff hz (slotPos_le_iff.mp hle) hlt, ← slotPos_lowSlots, slotPos_le_iff]
    refine or_congr ⟨congrArg slotPos, slotPos_inj⟩ ?_
    simp only [lowSlots, slotsPerBlock]
    omega

theorem slots_in_order_zone : NextInOrder 7 24 ∧ WalkVisits 7 24 8216 := by
  have h := slots_in_order (show 7 < 2 ^ 20 by decide)
  exact ⟨(h.1 24 (by decide) ⟨by decide, by decide, by decide⟩).mpr (by decide),
    (h.2 24 8216 ⟨by decide, by decide, by decide⟩ ⟨by decide, by decide, by decide⟩ (by decide) (by decide)).mpr
      (.inr (by decide))⟩

/-- The slot behind the last one below 4 GB is the first of the zone. -/
theorem next_slot_wraps : OnSlotGrid lastLowSlot ∧ lastLowSlot < undoLogMaxSize ∧
    getNextSlotPtr (makeUndoPtr 0 lastLowSlot) = makeUndoPtr 0 24 ∧ ¬ NextInOrder 0 lastLowSlot := by
  have hnext : getNextSlotPtr (makeUndoPtr 0 lastLowSlot) = makeUndoPtr 0 24 := by decide +kernel
  refine ⟨⟨by decide, by decide, by decide⟩, by decide, hnext, fun h => ?_⟩
  have hgreater := h.greater
  rw [hnext] at hgreater
  exact absurd hgreater (by decide +kernel)

end GaussKernel.Undo
