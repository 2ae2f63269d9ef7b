import GaussKernel.Segment.InversePtr
import Mathlib.Algebra.BigOperators.Intervals

/-!
# The block map tree

A segment is a sequence of extents whose sizes depend on their number only: 16 of 8 blocks, then 127 of 128, 112 of
1024 and the rest of 8192. The head holds the blocks of the first extents, and beyond them the level-0 pages that hold
the others. Logical blocks are found through this tree by three case analyses over the same boundaries.
-/

namespace GaussKernel.Segment

/-! ## Extents and logical blocks -/

/-- `SegLogicPageIdToExtentId`: the extent of a logical block, the offset in it, and its size. -/
def segLogicPageIdToExtentId (logicId : ℕ) : ℕ × ℕ × ℕ :=
  if logicId < 128 then (logicId / 8, logicId % 8, 8)
  else if logicId < 16384 then (16 + (logicId - 128) / 128, (logicId - 128) % 128, 128)
  else if logicId < 131072 then (143 + (logicId - 16384) / 1024, (logicId - 16384) % 1024, 1024)
  else (255 + (logicId - 131072) / 8192, (logicId - 131072) % 8192, 8192)

structure SegPageLocation where
  extentSize : ℕ
  extentId : ℕ
  blocknum : ℕ
  deriving DecidableEq

def segLogicToPhysicMapping (space : SegSpace) (head : SegmentHead) (logicId : ℕ) : Option SegPageLocation := do
  let (extentId, offset, extentSize) := segLogicPageIdToExtentId logicId
  let extentStart ← segExtentLocation space head extentId
  pure ⟨extentSize, extentId, u32 (extentStart + offset)⟩

/-- The most extents a segment can have. -/
abbrev BMT_TOTAL_EXTENTS : ℕ := BMT_HEADER_LEVEL0_SLOTS + BMT_HEADER_LEVEL1_SLOTS * BMT_LEVEL0_SLOTS

lemma isExtentSize_one : IsExtentSize SEGMENT_HEAD_EXTENT_SIZE := .inl rfl

/-- The size by count is an extent size. -/
lemma isExtentSize_byCount (count : ℕ) : IsExtentSize (extentSizeByCount count) := by
  unfold extentSizeByCount IsExtentSize
  split_ifs
  all_goals simp

/-- Data extents and metadata pages are in different extent groups. -/
lemma extentSizeByCount_ne_one (count : ℕ) : extentSizeByCount count ≠ SEGMENT_HEAD_EXTENT_SIZE := by
  unfold extentSizeByCount
  split_ifs
  all_goals decide

/-- A data extent has at least eight blocks. -/
lemma extentSizeByCount_ge (n : ℕ) : 8 ≤ extentSizeByCount n := by
  unfold extentSizeByCount
  split_ifs <;> decide

/-- An extent begins where the one before it ends. -/
lemma extentIdToLogicBlockNum_succ (n : ℕ) :
    extentIdToLogicBlockNum (n + 1) = extentIdToLogicBlockNum n + extentSizeByCount n := by
  unfold extentIdToLogicBlockNum extentSizeByCount
  split_ifs <;> omega

/-- The first block of an extent is the number of blocks in front of it. -/
lemma extentIdToLogicBlockNum_eq_sum (n : ℕ) :
    extentIdToLogicBlockNum n = ∑ i ∈ Finset.range n, extentSizeByCount i := by
  induction n with
  | zero => rfl
  | succ n ih => rw [extentIdToLogicBlockNum_succ, Finset.sum_range_succ, ih]

/-- Later extents begin later. -/
lemma extentIdToLogicBlockNum_strictMono : StrictMono extentIdToLogicBlockNum := by
  refine strictMono_nat_of_lt_succ fun n => ?_
  have := extentSizeByCount_ge n
  rw [extentIdToLogicBlockNum_succ]
  omega

variable {n : ℕ}

/-- A full block map tree has less than `2^32` blocks. -/
lemma extentIdToLogicBlockNum_lt (h : n ≤ BMT_HEADER_LEVEL0_SLOTS + BMT_HEADER_LEVEL1_SLOTS * BMT_LEVEL0_SLOTS) :
    extentIdToLogicBlockNum n < 2 ^ 32 := by
  simp only [BMT_HEADER_LEVEL0_SLOTS, BMT_HEADER_LEVEL1_SLOTS, BMT_LEVEL0_SLOTS] at h
  unfold extentIdToLogicBlockNum
  split_ifs <;> omega

/-- Only the first extent begins at block 0. -/
lemma extentIdToLogicBlockNum_eq_zero (h : extentIdToLogicBlockNum n = 0) : n = 0 := by
  have hzero : extentIdToLogicBlockNum 0 = 0 := rfl
  exact extentIdToLogicBlockNum_strictMono.injective (h.trans hzero.symm)

/-- A logical block lies in the extent that is computed for it, at the offset. -/
lemma segLogicPageIdToExtentId_spec (b : ℕ) :
    (segLogicPageIdToExtentId b).2.2 = extentSizeByCount (segLogicPageIdToExtentId b).1 ∧
    extentIdToLogicBlockNum (segLogicPageIdToExtentId b).1 + (segLogicPageIdToExtentId b).2.1 = b ∧
    (segLogicPageIdToExtentId b).2.1 < extentSizeByCount (segLogicPageIdToExtentId b).1 := by
  unfold segLogicPageIdToExtentId extentIdToLogicBlockNum extentSizeByCount
  split_ifs <;> dsimp only at * <;> omega

/-- A block before an extent lies in an earlier one. -/
lemma segLogicPageIdToExtentId_lt {b : ℕ} (h : b < extentIdToLogicBlockNum n) :
    (segLogicPageIdToExtentId b).1 < n := by
  have hspec := (segLogicPageIdToExtentId_spec b).2.1
  exact extentIdToLogicBlockNum_strictMono.lt_iff_lt.mp (by omega)

/-! ## Segment heads -/

/-- The blocks of the head are those of its extents, as many as the block map tree can hold. -/
structure SegmentHead.Ok (head : SegmentHead) : Prop where
  nextents : head.nextents ≤ BMT_HEADER_LEVEL0_SLOTS + BMT_HEADER_LEVEL1_SLOTS * BMT_LEVEL0_SLOTS
  totalBlocks : head.totalBlocks = extentIdToLogicBlockNum head.nextents

section Head

variable {head : SegmentHead}

/-- A segment without blocks has no extents. -/
lemma SegmentHead.Ok.eq_zero (h : head.Ok) (hzero : head.totalBlocks = 0) : head.nextents = 0 :=
  extentIdToLogicBlockNum_eq_zero (h.totalBlocks ▸ hzero)

/-- One extent is added. -/
lemma addExtent_nextents
    (hlt : head.nextents < BMT_HEADER_LEVEL0_SLOTS + BMT_HEADER_LEVEL1_SLOTS * BMT_LEVEL0_SLOTS) :
    head.addExtent.nextents = head.nextents + 1 := by
  simp only [BMT_HEADER_LEVEL0_SLOTS, BMT_HEADER_LEVEL1_SLOTS, BMT_LEVEL0_SLOTS] at hlt
  exact u32_of_lt (by omega)

/-- A head with one extent more is well formed. -/
lemma SegmentHead.Ok.addExtent (h : head.Ok)
    (hlt : head.nextents < BMT_HEADER_LEVEL0_SLOTS + BMT_HEADER_LEVEL1_SLOTS * BMT_LEVEL0_SLOTS) :
    head.addExtent.Ok := by
  have hext := addExtent_nextents hlt
  have hsucc := extentIdToLogicBlockNum_succ head.nextents
  have hbound := extentIdToLogicBlockNum_lt hlt
  refine ⟨hext ▸ hlt, ?_⟩
  calc head.addExtent.totalBlocks
      = u32 (extentIdToLogicBlockNum (head.nextents + 1)) := by
        rw [hsucc, ← h.totalBlocks]
        rfl
    _ = extentIdToLogicBlockNum head.addExtent.nextents := by
        rw [u32_of_lt hbound, hext]

/-- A head with one extent less is well formed. -/
lemma SegmentHead.Ok.dropExtent (h : head.Ok) (hpos : head.nextents ≠ 0) : head.dropExtent.Ok := by
  have hsucc := extentIdToLogicBlockNum_succ (head.nextents - 1)
  rw [Nat.sub_add_cancel (Nat.pos_of_ne_zero hpos)] at hsucc
  have hbound := extentIdToLogicBlockNum_lt h.nextents
  refine ⟨(Nat.sub_le _ _).trans h.nextents, ?_⟩
  change u32 (head.totalBlocks + 2 ^ 32 - extentSizeByCount (head.nextents - 1)) = _
  rw [h.totalBlocks, hsucc, u32]
  change _ = extentIdToLogicBlockNum (head.nextents - 1)
  omega

end Head

/-! ## Level-0 pages -/

/-- The number of level-1 slots in use with `n` extents. -/
def level1SlotsInUse (n : ℕ) : ℕ := (n - BMT_HEADER_LEVEL0_SLOTS + (BMT_LEVEL0_SLOTS - 1)) / BMT_LEVEL0_SLOTS

/-- The first extents use no level 1 slot. -/
lemma level1SlotsInUse_of_le (h : n ≤ BMT_HEADER_LEVEL0_SLOTS) : level1SlotsInUse n = 0 := by
  rw [level1SlotsInUse, Nat.sub_eq_zero_of_le h]
  rfl

/-- A slot is in use when one of the extents belongs to it. -/
lemma lt_level1SlotsInUse {slot : ℕ} : slot < level1SlotsInUse n ↔
    ∃ id < n, BMT_HEADER_LEVEL0_SLOTS ≤ id ∧ extentIdToLevel1Slot id = slot := by
  unfold level1SlotsInUse extentIdToLevel1Slot
  simp only [BMT_HEADER_LEVEL0_SLOTS, BMT_LEVEL0_SLOTS]
  constructor
  · intro h
    exact ⟨1255 + slot * 2000, by omega, by omega, by omega⟩
  · rintro ⟨id, h1, h2, h3⟩
    omega

lemma level1SlotsInUse_le (h : n ≤ BMT_TOTAL_EXTENTS) : level1SlotsInUse n ≤ BMT_HEADER_LEVEL1_SLOTS := by
  unfold level1SlotsInUse
  simp only [BMT_TOTAL_EXTENTS, BMT_HEADER_LEVEL0_SLOTS, BMT_HEADER_LEVEL1_SLOTS, BMT_LEVEL0_SLOTS] at *
  omega

/-- An extent that needs a new page takes the next slot. -/
lemma level1SlotsInUse_succ_of_require (h : requireNewLevel0Page n) :
    level1SlotsInUse (n + 1) = level1SlotsInUse n + 1 ∧ extentIdToLevel1Slot n = level1SlotsInUse n := by
  obtain ⟨hge, hmod⟩ := h
  unfold level1SlotsInUse extentIdToLevel1Slot
  simp only [BMT_HEADER_LEVEL0_SLOTS, BMT_LEVEL0_SLOTS] at *
  omega

/-- Another extent takes no slot. -/
lemma level1SlotsInUse_succ_of_not_require (h : ¬ requireNewLevel0Page n) :
    level1SlotsInUse (n + 1) = level1SlotsInUse n := by
  unfold requireNewLevel0Page at h
  unfold level1SlotsInUse
  simp only [BMT_HEADER_LEVEL0_SLOTS, BMT_LEVEL0_SLOTS] at *
  omega

/-- The slot of an extent is in use. -/
lemma extentIdToLevel1Slot_lt {id : ℕ} (hid : id < n) (hge : BMT_HEADER_LEVEL0_SLOTS ≤ id) :
    extentIdToLevel1Slot id < level1SlotsInUse n := lt_level1SlotsInUse.mpr ⟨id, hid, hge, rfl⟩

/-- Slot and offset say which extent is meant. -/
lemma extentId_of_slot_offset {i j : ℕ} (hi : BMT_HEADER_LEVEL0_SLOTS ≤ i) (hj : BMT_HEADER_LEVEL0_SLOTS ≤ j)
    (hslot : extentIdToLevel1Slot i = extentIdToLevel1Slot j)
    (hoff : extentIdToLevel0PageOffset i = extentIdToLevel0PageOffset j) : i = j := by
  unfold extentIdToLevel1Slot extentIdToLevel0PageOffset at *
  simp only [BMT_HEADER_LEVEL0_SLOTS, BMT_LEVEL0_SLOTS] at *
  omega

end GaussKernel.Segment
