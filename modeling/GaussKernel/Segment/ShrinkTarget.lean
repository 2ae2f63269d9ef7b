import GaussKernel.Segment.ExtentInvariant
import Mathlib.Data.Set.Card

/-!
# The target of a shrink

`get_space_shrink_target` computes from the number of allocated extents how long the file has to stay: whole groups are
taken off the data blocks one after the other, and the pages of each are added to the metadata blocks. The data blocks
that were taken off are not added again.
-/

namespace GaussKernel.Segment

structure ShrinkTarget where
  targetSize : ℕ
  oldGroupCount : ℕ
  newGroupCount : ℕ
  deriving DecidableEq

/-- The loop of `get_space_shrink_target`: the data blocks left, the number of groups and the metadata blocks. -/
def shrinkTargetLoop (groupBlocks : ℕ) : ℕ → ℕ → ℕ → ℕ → ℕ × ℕ × ℕ
  | 0, dataBlocks, count, metaBlocks => (dataBlocks, count, metaBlocks)
  | fuel + 1, dataBlocks, count, metaBlocks =>
    if groupBlocks < dataBlocks then
      shrinkTargetLoop groupBlocks fuel (dataBlocks - groupBlocks) (count + 1)
        (u32 (metaBlocks + (DF_MAP_GROUP_SIZE + IPBLOCK_GROUP_SIZE)))
    else (dataBlocks, count, metaBlocks)

def getSpaceShrinkTarget (eg : ExtentGroup) : ShrinkTarget :=
  let dataBlocks := u32 (u32 (eg.mapHead.allocatedExtents * eg.extentSize) + DF_FILE_EXTEND_STEP_BLOCKS)
  let metaBlocks := DF_MAP_GROUP_SIZE + DF_MAP_HEAD_PAGE + 1 + IPBLOCK_GROUP_SIZE
  let groupBlocks := u32 (eg.extentSize * DF_MAP_GROUP_SIZE * DF_MAP_BIT_CNT)
  let (dataBlocks, count, metaBlocks) := shrinkTargetLoop groupBlocks dataBlocks dataBlocks 1 metaBlocks
  ⟨u32 ((u32 (dataBlocks + metaBlocks) + DF_FILE_EXTEND_STEP_BLOCKS - 1) / DF_FILE_EXTEND_STEP_BLOCKS
    * DF_FILE_EXTEND_STEP_BLOCKS), eg.mapHead.groupCount, count⟩

/-! ## What the target is for -/

/-- The extents that lie wholly below a block. -/
def extentsBelow (ext target : ℕ) : Set ℕ :=
  {x | (∃ n, ∃ m < DF_MAP_GROUP_SIZE, ∃ b < DF_MAP_BIT_CNT, x = extentBlock ext n m b) ∧ x + ext ≤ target}

/-- The blocks that have to fit: the allocated extents, and one step more. -/
def shrinkBlocks (eg : ExtentGroup) : ℕ := eg.mapHead.allocatedExtents * eg.extentSize + DF_FILE_EXTEND_STEP_BLOCKS

/-- The comment above the function, and the number of groups that the blocks occupy. -/
structure TargetOk (eg : ExtentGroup) (target : ShrinkTarget) : Prop where
  aligned : target.targetSize % DF_FILE_EXTEND_STEP_BLOCKS = 0
  room : shrinkBlocks eg ≤ (extentsBelow eg.extentSize target.targetSize).ncard * eg.extentSize
  groups : target.newGroupCount
    = (shrinkBlocks eg + (DF_MAP_GROUP_EXTENTS * eg.extentSize - 1)) / (DF_MAP_GROUP_EXTENTS * eg.extentSize)

section Target

variable {ext target group : ℕ} {eg : ExtentGroup}

/-- The data blocks that the loop takes off are gone; only pages are added for them. -/
lemma shrinkTargetLoop_spec (hgroup : 0 < group) : ∀ {fuel data count pages : ℕ}, data ≤ fuel →
    ∃ k, k * group ≤ data ∧ (group < data → 0 < k) ∧
      (shrinkTargetLoop group fuel data count pages).1 = data - k * group ∧
      (shrinkTargetLoop group fuel data count pages).1 ≤ group ∧
      (shrinkTargetLoop group fuel data count pages).2.1 = count + k ∧
      (shrinkTargetLoop group fuel data count pages).2.2 ≤ pages + k * (DF_MAP_GROUP_SIZE + IPBLOCK_GROUP_SIZE) := by
  intro fuel
  induction fuel with
  | zero =>
    intro data count pages hfuel
    simp only [shrinkTargetLoop]
    refine ⟨0, ?_, ?_, ?_, ?_, ?_, ?_⟩ <;> omega
  | succ fuel ih =>
    intro data count pages hfuel
    by_cases hlt : group < data
    · obtain ⟨k, hk, _, hdata, hle, hcount, hpages⟩ := @ih (data - group) (count + 1)
        (u32 (pages + (DF_MAP_GROUP_SIZE + IPBLOCK_GROUP_SIZE))) (by omega)
      have hmod := Nat.mod_le (pages + (DF_MAP_GROUP_SIZE + IPBLOCK_GROUP_SIZE)) (2 ^ 32)
      simp only [shrinkTargetLoop, if_pos hlt]
      refine ⟨k + 1, ?_, fun _ => Nat.succ_pos k, ?_, hle, ?_, ?_⟩
      · rw [Nat.succ_mul]
        omega
      · rw [hdata, Nat.succ_mul, Nat.sub_sub, Nat.add_comm]
      · rw [hcount]
        omega
      · refine hpages.trans ?_
        rw [Nat.succ_mul]
        unfold u32
        omega
    · simp only [shrinkTargetLoop, if_neg hlt]
      exact ⟨0, by omega, fun h => absurd h hlt, by omega, by omega, rfl, by omega⟩

lemma shrinkTargetLoop_of_le {fuel data count pages : ℕ} (h : data ≤ group) :
    shrinkTargetLoop group fuel data count pages = (data, count, pages) := by
  cases fuel with
  | zero => rfl
  | succ fuel => rw [shrinkTargetLoop, if_neg (Nat.not_lt.mpr h)]

/-- The number of an extent in a layout without metadata pages tells extents apart. -/
lemma extentsBelow_card_le (hext : 0 < ext) : (extentsBelow ext target).ncard * ext ≤ target - 4157 := by
  have hstart : ∀ x ∈ extentsBelow ext target, 4157 ≤ x := by
    rintro x ⟨⟨n, m, hm, b, hb, rfl⟩, _⟩
    have hle := @dataStart_le_extentBlock ext n m b
    have hzero := groupStart_mono ext (Nat.zero_le n)
    rw [groupStart_zero] at hzero
    simp only [dataStart, DF_MAP_HEAD_PAGE, DF_MAP_GROUP_SIZE, IPBLOCK_GROUP_SIZE] at *
    omega
  have hinj : Set.InjOn (fun x => (x - 4157) / ext) (extentsBelow ext target) := by
    intro x hx y hy heq
    have hx' := hstart x hx
    have hy' := hstart y hy
    obtain ⟨⟨n, m, hm, b, hb, rfl⟩, _⟩ := hx
    obtain ⟨⟨n', m', hm', b', hb', rfl⟩, _⟩ := hy
    by_contra hne
    have hdisj : extentBlock ext n m b + ext ≤ extentBlock ext n' m' b' ∨
        extentBlock ext n' m' b' + ext ≤ extentBlock ext n m b := by
      refine extentBlock_disjoint hm hb hm' hb' fun hsame => hne ?_
      obtain ⟨rfl, rfl, rfl⟩ := hsame
      rfl
    have key : ∀ {i j : ℕ}, 4157 ≤ i → i + ext ≤ j → (i - 4157) / ext ≠ (j - 4157) / ext := by
      intro i j hi hij heq
      have hle : (i - 4157 + ext) / ext ≤ (j - 4157) / ext := Nat.div_le_div_right (by omega)
      rw [Nat.add_div_right _ hext] at hle
      omega
    rcases hdisj with hlt | hlt
    · exact key hx' hlt heq
    · exact key hy' hlt heq.symm
  have hmaps : Set.MapsTo (fun x => (x - 4157) / ext) (extentsBelow ext target) (Finset.range ((target - 4157) / ext)) := by
    intro x hx
    have hle : (x - 4157 + ext) / ext ≤ (target - 4157) / ext := Nat.div_le_div_right (by
      have hge := hstart x hx
      have hend := hx.2
      omega)
    rw [Nat.add_div_right _ hext] at hle
    exact Finset.mem_coe.mpr (Finset.mem_range.mpr hle)
  have hcard := Set.ncard_le_ncard_of_injOn _ hmaps hinj (Finset.finite_toSet _)
  rw [Set.ncard_coe_finset, Finset.card_range] at hcard
  exact (Nat.mul_le_mul_right ext hcard).trans (Nat.div_mul_le_self _ _)

/-- The first group alone has this many. -/
lemma le_extentsBelow_card (hext : 0 < ext) {k : ℕ} (hk : k ≤ DF_MAP_GROUP_EXTENTS) (hle : 4157 + k * ext ≤ target) :
    k ≤ (extentsBelow ext target).ncard := by
  have hblock : ∀ i, extentBlock ext 0 (i / DF_MAP_BIT_CNT) (i % DF_MAP_BIT_CNT) = 4157 + i * ext := by
    intro i
    rw [extentBlock, Nat.div_add_mod', dataStart, groupStart_zero]
    rfl
  have hinj : Set.InjOn (fun i => 4157 + i * ext) (Finset.range k : Set ℕ) :=
    fun i _ j _ heq => Nat.eq_of_mul_eq_mul_right hext (Nat.add_left_cancel heq)
  have hmaps : Set.MapsTo (fun i => 4157 + i * ext) (Finset.range k : Set ℕ) (extentsBelow ext target) := by
    intro i hi
    have hlt := Finset.mem_range.mp (Finset.mem_coe.mp hi)
    refine ⟨⟨0, i / DF_MAP_BIT_CNT, ?_, i % DF_MAP_BIT_CNT, Nat.mod_lt _ (by decide), (hblock i).symm⟩, ?_⟩
    · simp only [DF_MAP_GROUP_EXTENTS, DF_MAP_BIT_CNT, DF_MAP_GROUP_SIZE] at *
      omega
    · have hmul := Nat.mul_le_mul_right ext (show i + 1 ≤ k from hlt)
      rw [Nat.succ_mul] at hmul
      dsimp only
      omega
  have hfinite : (extentsBelow ext target).Finite :=
    (Finset.range (target + 1)).finite_toSet.subset fun x hx =>
      Finset.mem_coe.mpr (Finset.mem_range.mpr ((Nat.le_add_right x ext).trans_lt (Nat.lt_succ_of_le hx.2)))
  have hcard := Set.ncard_le_ncard_of_injOn _ hmaps hinj hfinite
  rwa [Set.ncard_coe_finset, Finset.card_range] at hcard

/-- The size of a group in 32 bits, as the loop has it; only for the largest extents is it not the exact size. -/
def loopGroupBlocks (ext : ℕ) : ℕ := u32 (ext * DF_MAP_GROUP_SIZE * DF_MAP_BIT_CNT)

lemma loopGroupBlocks_bounds (hsize : IsExtentSize ext) :
    DF_MAP_GROUP_EXTENTS ≤ loopGroupBlocks ext ∧ loopGroupBlocks ext ≤ 4276092928 ∧
      loopGroupBlocks ext ≤ DF_MAP_GROUP_EXTENTS * ext ∧ 0 < ext ∧ DF_FILE_EXTEND_STEP_BLOCKS % ext = 0 := by
  rcases hsize with rfl | rfl | rfl | rfl | rfl <;> decide

lemma getSpaceShrinkTarget_of_le (hsize : IsExtentSize eg.extentSize)
    (h : shrinkBlocks eg ≤ loopGroupBlocks eg.extentSize) : TargetOk eg (getSpaceShrinkTarget eg) := by
  obtain ⟨_, hmax, hexact, hpos, hstep⟩ := loopGroupBlocks_bounds hsize
  set blocks := shrinkBlocks eg with hblocks
  have hge : DF_FILE_EXTEND_STEP_BLOCKS ≤ blocks := Nat.le_add_left _ _
  have hdata : u32 (u32 (eg.mapHead.allocatedExtents * eg.extentSize) + DF_FILE_EXTEND_STEP_BLOCKS) = blocks := by
    have hsum : eg.mapHead.allocatedExtents * eg.extentSize + DF_FILE_EXTEND_STEP_BLOCKS = blocks := rfl
    unfold u32
    omega
  have hloop := @shrinkTargetLoop_of_le _ blocks blocks 1
    (DF_MAP_GROUP_SIZE + DF_MAP_HEAD_PAGE + 1 + IPBLOCK_GROUP_SIZE) h
  have htarget : getSpaceShrinkTarget eg =
    ⟨(blocks + 4157 + DF_FILE_EXTEND_STEP_BLOCKS - 1) / DF_FILE_EXTEND_STEP_BLOCKS
      * DF_FILE_EXTEND_STEP_BLOCKS, eg.mapHead.groupCount, 1⟩ := by
    unfold getSpaceShrinkTarget
    simp only [hdata]
    rw [show u32 (eg.extentSize * DF_MAP_GROUP_SIZE * DF_MAP_BIT_CNT) = loopGroupBlocks eg.extentSize from rfl, hloop]
    have hpages : u32 (blocks + (DF_MAP_GROUP_SIZE + DF_MAP_HEAD_PAGE + 1 + IPBLOCK_GROUP_SIZE)) = blocks + 4157 :=
      Nat.mod_eq_of_lt (by simp only [DF_MAP_GROUP_SIZE, DF_MAP_HEAD_PAGE, IPBLOCK_GROUP_SIZE]; omega)
    have hwhole := Nat.div_mul_le_self (blocks + 4157 + DF_FILE_EXTEND_STEP_BLOCKS - 1) DF_FILE_EXTEND_STEP_BLOCKS
    dsimp only
    rw [hpages, show u32 ((blocks + 4157 + DF_FILE_EXTEND_STEP_BLOCKS - 1) / DF_FILE_EXTEND_STEP_BLOCKS
      * DF_FILE_EXTEND_STEP_BLOCKS) = _ from Nat.mod_eq_of_lt (hwhole.trans_lt (by
        simp only [DF_FILE_EXTEND_STEP_BLOCKS]
        omega))]
  have hextents : blocks = (eg.mapHead.allocatedExtents + DF_FILE_EXTEND_STEP_BLOCKS / eg.extentSize) * eg.extentSize := by
    rw [Nat.add_mul, Nat.div_mul_cancel (Nat.dvd_of_mod_eq_zero hstep)]
    rfl
  rw [htarget]
  refine ⟨Nat.mul_mod_left _ _, ?_, ?_⟩
  · -- every block of the sum belongs to an extent of the first group
    have hcard := @le_extentsBelow_card eg.extentSize
      ((blocks + 4157 + DF_FILE_EXTEND_STEP_BLOCKS - 1) / DF_FILE_EXTEND_STEP_BLOCKS * DF_FILE_EXTEND_STEP_BLOCKS) hpos
      (eg.mapHead.allocatedExtents + DF_FILE_EXTEND_STEP_BLOCKS / eg.extentSize)
      (Nat.le_of_mul_le_mul_right (hextents ▸ h.trans hexact) hpos)
      (by
        rw [← hextents]
        simp only [DF_FILE_EXTEND_STEP_BLOCKS]
        omega)
    calc shrinkBlocks eg
        = (eg.mapHead.allocatedExtents + DF_FILE_EXTEND_STEP_BLOCKS / eg.extentSize) * eg.extentSize := hextents
      _ ≤ _ := Nat.mul_le_mul_right _ hcard
  · have hgroup : blocks ≤ DF_MAP_GROUP_EXTENTS * eg.extentSize := h.trans hexact
    have hlow : 1 * (DF_MAP_GROUP_EXTENTS * eg.extentSize) ≤ blocks + (DF_MAP_GROUP_EXTENTS * eg.extentSize - 1) := by
      simp only [DF_FILE_EXTEND_STEP_BLOCKS] at hge
      omega
    have hhigh : blocks + (DF_MAP_GROUP_EXTENTS * eg.extentSize - 1)
        < (1 + 1) * (DF_MAP_GROUP_EXTENTS * eg.extentSize) := by
      simp only [DF_FILE_EXTEND_STEP_BLOCKS] at hge
      omega
    exact (Nat.div_eq_of_lt_le hlow hhigh).symm

/-- A target in 32 bits, with a whole group missing. -/
lemma le_of_targetOk (hsize : IsExtentSize eg.extentSize) (h : TargetOk eg (getSpaceShrinkTarget eg)) :
    shrinkBlocks eg ≤ loopGroupBlocks eg.extentSize := by
  obtain ⟨hmin, _, _, hpos, _⟩ := loopGroupBlocks_bounds hsize
  by_contra hgt
  have hroom : shrinkBlocks eg ≤ (getSpaceShrinkTarget eg).targetSize - 4157 :=
    h.room.trans (extentsBelow_card_le hpos)
  obtain ⟨data, hdata⟩ : ∃ data,
    data = u32 (u32 (eg.mapHead.allocatedExtents * eg.extentSize) + DF_FILE_EXTEND_STEP_BLOCKS) := ⟨_, rfl⟩
  obtain ⟨k, hk, hkpos, hrest, _, _, hpages⟩ := @shrinkTargetLoop_spec (loopGroupBlocks eg.extentSize)
    (lt_of_lt_of_le (by decide) hmin) data data 1 (DF_MAP_GROUP_SIZE + DF_MAP_HEAD_PAGE + 1 + IPBLOCK_GROUP_SIZE) le_rfl
  generalize hloop : shrinkTargetLoop (loopGroupBlocks eg.extentSize) data data 1
    (DF_MAP_GROUP_SIZE + DF_MAP_HEAD_PAGE + 1 + IPBLOCK_GROUP_SIZE) = result at hrest hpages
  have hsizeEq : (getSpaceShrinkTarget eg).targetSize = u32 ((u32 (result.1 + result.2.2)
      + DF_FILE_EXTEND_STEP_BLOCKS - 1) / DF_FILE_EXTEND_STEP_BLOCKS * DF_FILE_EXTEND_STEP_BLOCKS) := by
    rw [← hloop]
    simp only [getSpaceShrinkTarget, loopGroupBlocks, hdata]
  have hlt : (getSpaceShrinkTarget eg).targetSize < 2 ^ 32 := hsizeEq ▸ Nat.mod_lt _ (by decide)
  have hsum : eg.mapHead.allocatedExtents * eg.extentSize + DF_FILE_EXTEND_STEP_BLOCKS = shrinkBlocks eg := rfl
  have hsmall : shrinkBlocks eg < 2 ^ 32 := by omega
  have hexact : data = shrinkBlocks eg := by
    unfold u32 at hdata
    omega
  have hle : (getSpaceShrinkTarget eg).targetSize ≤ result.1 + result.2.2 + DF_FILE_EXTEND_STEP_BLOCKS - 1 := by
    rw [hsizeEq]
    refine (Nat.mod_le _ _).trans ((Nat.div_mul_le_self _ _).trans ?_)
    exact Nat.sub_le_sub_right (Nat.add_le_add_right (Nat.mod_le _ _) _) 1
  -- a group that was taken off is longer than its pages
  have hpos' : 0 < k := hkpos (by omega)
  have hmul : k * DF_MAP_GROUP_EXTENTS ≤ k * loopGroupBlocks eg.extentSize := Nat.mul_le_mul_left k hmin
  simp only [DF_MAP_GROUP_SIZE, DF_MAP_HEAD_PAGE, IPBLOCK_GROUP_SIZE, DF_FILE_EXTEND_STEP_BLOCKS,
    DF_MAP_GROUP_EXTENTS] at hroom hle hpages hmul
  omega

/-- The target leaves room exactly as long as the data fit into one group, whose size the loop has in 32 bits. -/
theorem getSpaceShrinkTarget_ok (eg : ExtentGroup) (hsize : IsExtentSize eg.extentSize) :
    TargetOk eg (getSpaceShrinkTarget eg) ↔
      shrinkBlocks eg ≤ u32 (eg.extentSize * DF_MAP_GROUP_SIZE * DF_MAP_BIT_CNT) :=
  ⟨le_of_targetOk hsize, getSpaceShrinkTarget_of_le hsize⟩

/-- An extent group that counts this many allocated extents, and the map groups for them. -/
def allocatedGroup (ext count : ℕ) : ExtentGroup :=
  { egInitDataFiles (emptyGroup ext) with mapHead :=
    { initMapHead ext with groupCount := count / DF_MAP_GROUP_EXTENTS + 1, allocatedExtents := count } }

theorem getSpaceShrinkTarget_ok_first : TargetOk (allocatedGroup 8 1000)
    (getSpaceShrinkTarget (allocatedGroup 8 1000)) :=
  (getSpaceShrinkTarget_ok (allocatedGroup 8 1000) (.inr (.inl rfl))).mpr (by decide)

/-- One full group of extents: the file would be cut to the extra step and the pages of two groups. -/
theorem getSpaceShrinkTarget_group_lost :
    (getSpaceShrinkTarget (allocatedGroup 8 4175872)).targetSize = 32768 ∧
      ¬ TargetOk (allocatedGroup 8 4175872) (getSpaceShrinkTarget (allocatedGroup 8 4175872)) := by
  have htarget : (getSpaceShrinkTarget (allocatedGroup 8 4175872)).targetSize = 32768 := by decide +kernel
  refine ⟨htarget, fun h => ?_⟩
  have hroom := h.room.trans (extentsBelow_card_le (by decide))
  rw [htarget] at hroom
  exact absurd hroom (by decide)

end Target

end GaussKernel.Segment
