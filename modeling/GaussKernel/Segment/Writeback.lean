import GaussKernel.Segment.GrownSegment

/-!
# Writeback

`seg_writeback` asks the kernel to write a range of logical blocks. The range is split into the extents that hold it,
and the part in each extent is split again at the ends of the slice files.
-/

namespace GaussKernel.Segment

abbrev DF_FILE_SLICE_BLOCKS : ℕ := 131072

/-- One call of `pg_flush_data`: blocks of a slice file. -/
structure SliceRange where
  sliceno : ℕ
  start : ℕ
  count : ℕ
  deriving DecidableEq

/-- The block of the logical file is in the range. -/
def SliceRange.Has (r : SliceRange) (block : ℕ) : Prop :=
  r.sliceno = block / DF_FILE_SLICE_BLOCKS ∧ r.start ≤ block % DF_FILE_SLICE_BLOCKS ∧
    block % DF_FILE_SLICE_BLOCKS < r.start + r.count

/-- `df_flush_data`; a block behind the end of the file is a PANIC. -/
def dfFlushData (totalBlocks : ℕ) : ℕ → ℕ → ℕ → Option (List SliceRange)
  | 0, _, _ => some []
  | fuel + 1, blocknum, remainBlocks =>
    if 0 < remainBlocks then
      let sliceStart := blocknum / DF_FILE_SLICE_BLOCKS
      let sliceEnd := (blocknum + remainBlocks - 1) / DF_FILE_SLICE_BLOCKS
      let nflush := if sliceStart ≠ sliceEnd then DF_FILE_SLICE_BLOCKS - blocknum % DF_FILE_SLICE_BLOCKS
        else remainBlocks
      if totalBlocks ≤ blocknum then none
      else do
        let rest ← dfFlushData totalBlocks fuel (u32 (blocknum + nflush)) (remainBlocks - nflush)
        pure (⟨sliceStart, blocknum % DF_FILE_SLICE_BLOCKS, nflush⟩ :: rest)
    else some []

/-- The ranges of one file of the space. -/
structure FileRange where
  extentSize : ℕ
  range : SliceRange
  deriving DecidableEq

def spcWriteback (space : SegSpace) (extentSize forknum blocknum nblocks : ℕ) : Option (List FileRange) := do
  let ranges ← dfFlushData (space.extentGroup extentSize forknum).totalBlocks nblocks blocknum nblocks
  pure (ranges.map fun r => ⟨extentSize, r⟩)

/-- The loop of `seg_writeback`. Each round flushes at least one block, so `fuel` is the number of blocks. -/
def segWritebackLoop (space : SegSpace) (forknum : ℕ) (head : SegmentHead) : ℕ → ℕ → ℕ → Option (List FileRange)
  | 0, _, _ => some []
  | fuel + 1, currExtId, nblocks =>
    if 0 < nblocks then do
      let currExtStart ← segExtentLocation space head currExtId
      let extSize := extentSizeByCount currExtId
      let nflush := if extSize < nblocks then extSize else nblocks
      let ranges ← spcWriteback space extSize forknum currExtStart nflush
      let rest ← segWritebackLoop space forknum head fuel (currExtId + 1) (nblocks - nflush)
      pure (ranges ++ rest)
    else some []

/-- `seg_writeback` of a logical relation. -/
def segWriteback (space : SegSpace) (forknum headBlock blocknum nblocks : ℕ) : Option (List FileRange) := do
  let head ← space.segmentHead headBlock
  if u32 (blocknum + nblocks) < head.nblocks then do
    let loc ← segLogicToPhysicMapping space head blocknum
    if loc.blocknum = InvalidBlockNumber then none
    else segWritebackLoop space forknum head nblocks loc.extentId nblocks
  else none

/-- The ranges have the physical block of every logical block, and only blocks of the extents that hold the range. -/
structure WritebackOk (space : SegSpace) (seg : SegmentDesc) (head : SegmentHead) (blocknum nblocks : ℕ)
    (ranges : List FileRange) : Prop where
  covers : ∀ b, blocknum ≤ b → b < blocknum + nblocks → ∃ loc, segLogicToPhysicMapping space head b = some loc ∧
    ∃ r ∈ ranges, r.extentSize = loc.extentSize ∧ r.range.Has loc.blocknum
  inside : ∀ r ∈ ranges, r.range.start + r.range.count ≤ DF_FILE_SLICE_BLOCKS ∧ ∀ p, r.range.Has p →
    ∃ b, blocknum ≤ b ∧ b < blocknum + nblocks ∧
      ∃ x, segExtentLocation space head (segLogicPageIdToExtentId b).1 = some x ∧
      r.extentSize = extentSizeByCount (segLogicPageIdToExtentId b).1 ∧ x ≤ p ∧ p < x + r.extentSize

/-! ## The slices of a range -/

section Slices

variable {total fuel blocknum nblocks p : ℕ} {ranges : List SliceRange}

/-- A range inside the file is split into parts that have the same blocks. -/
lemma dfFlushData_spec (htotal : total < 2 ^ 32) : ∀ {fuel blocknum nblocks : ℕ}, nblocks ≤ fuel →
    blocknum + nblocks ≤ total → ∃ ranges, dfFlushData total fuel blocknum nblocks = some ranges ∧
      (∀ r ∈ ranges, r.start + r.count ≤ DF_FILE_SLICE_BLOCKS) ∧
      ∀ p, (∃ r ∈ ranges, r.Has p) ↔ blocknum ≤ p ∧ p < blocknum + nblocks := by
  intro fuel
  induction fuel with
  | zero =>
    intro blocknum nblocks hfuel _
    obtain rfl := Nat.le_zero.mp hfuel
    refine ⟨[], rfl, fun _ hr => (nomatch hr), fun p => ⟨fun ⟨_, hr, _⟩ => (nomatch hr), fun hp => ?_⟩⟩
    omega
  | succ fuel ih =>
    intro blocknum nblocks hfuel hfile
    rcases Nat.eq_zero_or_pos nblocks with rfl | hpos
    · refine ⟨[], rfl, fun _ hr => (nomatch hr), fun p => ⟨fun ⟨_, hr, _⟩ => (nomatch hr), fun hp => ?_⟩⟩
      omega
    generalize hn : (if blocknum / DF_FILE_SLICE_BLOCKS ≠ (blocknum + nblocks - 1) / DF_FILE_SLICE_BLOCKS
      then DF_FILE_SLICE_BLOCKS - blocknum % DF_FILE_SLICE_BLOCKS else nblocks) = nflush
    -- what is flushed lies in the slice of the first block
    have hslice : 0 < nflush ∧ nflush ≤ nblocks ∧ blocknum % DF_FILE_SLICE_BLOCKS + nflush ≤ DF_FILE_SLICE_BLOCKS := by
      simp only [DF_FILE_SLICE_BLOCKS] at *
      split at hn <;> omega
    obtain ⟨hflush, hle, hend⟩ := hslice
    obtain ⟨rest, hrest, hshort, hhas⟩ := @ih (blocknum + nflush) (nblocks - nflush) (by omega) (by omega)
    refine ⟨⟨blocknum / DF_FILE_SLICE_BLOCKS, blocknum % DF_FILE_SLICE_BLOCKS, nflush⟩ :: rest, ?_, ?_, fun p => ?_⟩
    · unfold dfFlushData
      rw [if_pos hpos]
      dsimp only
      rw [hn, if_neg (by omega), u32_of_lt (by omega), hrest]
      rfl
    · intro r hr
      rcases List.mem_cons.mp hr with rfl | hr
      · exact hend
      · exact hshort r hr
    · have hone : SliceRange.Has ⟨blocknum / DF_FILE_SLICE_BLOCKS, blocknum % DF_FILE_SLICE_BLOCKS, nflush⟩ p
          ↔ blocknum ≤ p ∧ p < blocknum + nflush := by
        unfold SliceRange.Has
        simp only [DF_FILE_SLICE_BLOCKS] at *
        omega
      rw [List.exists_mem_cons_iff, hone, hhas p]
      omega

end Slices

/-! ## The extents of a range -/

section Extents

variable {s : MapState} {owner : ExtentAddress → Option ExtentUse} {seg : SegmentDesc} {head : SegmentHead}
  {id offset blocknum nblocks b p size : ℕ}

lemma segLogicPageIdToExtentId_eq (hoff : offset < extentSizeByCount id) :
    segLogicPageIdToExtentId (extentIdToLogicBlockNum id + offset) = (id, offset, extentSizeByCount id) := by
  obtain ⟨hsize, hblock, hlt⟩ := segLogicPageIdToExtentId_spec (extentIdToLogicBlockNum id + offset)
  -- the extents of two blocks that are equal are the same
  have hid : (segLogicPageIdToExtentId (extentIdToLogicBlockNum id + offset)).1 = id := by
    refine le_antisymm (Nat.lt_succ_iff.mp (segLogicPageIdToExtentId_lt ?_)) ?_
    · rw [extentIdToLogicBlockNum_succ]
      omega
    · refine Nat.lt_succ_iff.mp (extentIdToLogicBlockNum_strictMono.lt_iff_lt.mp ?_)
      rw [extentIdToLogicBlockNum_succ]
      omega
  rw [hid] at hsize hblock
  exact Prod.ext hid (Prod.ext (Nat.add_left_cancel hblock) hsize)

/-- An extent of a segment lies in its file, so the blocks in it are found at their offsets. -/
lemma MapInv.extent (h : MapInv s owner) (hseg : seg ∈ s.segs)
    (hhead : s.space.segmentHead seg.headBlocknum = some head) (hid : id < head.nextents) :
    ∃ x, segExtentLocation s.space head id = some x ∧
      x + extentSizeByCount id ≤ (s.space.extentGroup (extentSizeByCount id) seg.forknum).totalBlocks ∧
      (s.space.extentGroup (extentSizeByCount id) seg.forknum).totalBlocks < 2 ^ 32 ∧
      ∀ offset < extentSizeByCount id, segLogicToPhysicMapping s.space head (extentIdToLogicBlockNum id + offset)
        = some ⟨extentSizeByCount id, id, x + offset⟩ := by
  have hok := h.headOk hseg hhead
  obtain ⟨x, hx⟩ := hok.location hid
  obtain ⟨live, hgroup, hlive⟩ := h.inv.mem_live (isExtentSize_byCount id) (MapInv.addr_data hseg hhead hid hx)
  have hinv := hgroup.egInv hlive
  have hfile := hinv.inFile x hlive
  rw [hgroup.1] at hfile
  refine ⟨x, hx, hfile, hinv.fileLt, fun offset hoff => ?_⟩
  have hlt := hinv.fileLt
  unfold segLogicToPhysicMapping
  rw [segLogicPageIdToExtentId_eq hoff]
  dsimp only
  rw [hx, Option.bind_eq_bind, Option.bind_some, u32_of_lt (by omega)]
  rfl

/-- The blocks that the loop flushes are those of the logical blocks from the first one of its extent on. -/
lemma MapInv.writebackLoop (h : MapInv s owner) (hseg : seg ∈ s.segs)
    (hhead : s.space.segmentHead seg.headBlocknum = some head) : ∀ {fuel id nblocks : ℕ}, nblocks ≤ fuel →
    extentIdToLogicBlockNum id + nblocks ≤ head.totalBlocks →
    ∃ ranges, segWritebackLoop s.space seg.forknum head fuel id nblocks = some ranges ∧
      (∀ r ∈ ranges, r.range.start + r.range.count ≤ DF_FILE_SLICE_BLOCKS) ∧
      ∀ size p, (∃ r ∈ ranges, r.extentSize = size ∧ r.range.Has p) ↔
        ∃ b, extentIdToLogicBlockNum id ≤ b ∧ b < extentIdToLogicBlockNum id + nblocks ∧
          ∃ loc, segLogicToPhysicMapping s.space head b = some loc ∧ loc.extentSize = size ∧ loc.blocknum = p := by
  have hok := h.headOk hseg hhead
  intro fuel
  induction fuel with
  | zero =>
    intro id nblocks hfuel _
    obtain rfl := Nat.le_zero.mp hfuel
    refine ⟨[], rfl, fun _ hr => (nomatch hr), fun size p => ⟨fun ⟨_, hr, _⟩ => (nomatch hr),
      fun ⟨b, hge, hlt, _⟩ => ?_⟩⟩
    omega
  | succ fuel ih =>
    intro id nblocks hfuel hend
    rcases Nat.eq_zero_or_pos nblocks with rfl | hpos
    · refine ⟨[], rfl, fun _ hr => (nomatch hr), fun size p => ⟨fun ⟨_, hr, _⟩ => (nomatch hr),
        fun ⟨b, hge, hlt, _⟩ => ?_⟩⟩
      omega
    have hid : id < head.nextents := by
      rw [hok.totalBlocks] at hend
      exact extentIdToLogicBlockNum_strictMono.lt_iff_lt.mp (by omega)
    obtain ⟨x, hx, hfile, hlt, hmap⟩ := h.extent hseg hhead hid
    have hsize := extentSizeByCount_ge id
    have hsucc := extentIdToLogicBlockNum_succ id
    generalize hn : (if extentSizeByCount id < nblocks then extentSizeByCount id else nblocks) = nflush
    have hflush : 0 < nflush ∧ nflush ≤ nblocks ∧ nflush ≤ extentSizeByCount id ∧
        (nblocks - nflush = 0 ∨ nflush = extentSizeByCount id) := by
      split at hn <;> omega
    obtain ⟨hflushPos, hle, hext, hcases⟩ := hflush
    obtain ⟨slices, hslices, hshort, hhas⟩ := dfFlushData_spec hlt (le_refl nflush)
      (show x + nflush ≤ (s.space.extentGroup (extentSizeByCount id) seg.forknum).totalBlocks by omega)
    -- the rest begins with the next extent, or is empty
    have hrest : ∃ rest, segWritebackLoop s.space seg.forknum head fuel (id + 1) (nblocks - nflush) = some rest ∧
        (∀ r ∈ rest, r.range.start + r.range.count ≤ DF_FILE_SLICE_BLOCKS) ∧
        ∀ size p, (∃ r ∈ rest, r.extentSize = size ∧ r.range.Has p) ↔
          ∃ b, extentIdToLogicBlockNum id + nflush ≤ b ∧ b < extentIdToLogicBlockNum id + nblocks ∧
            ∃ loc, segLogicToPhysicMapping s.space head b = some loc ∧ loc.extentSize = size ∧ loc.blocknum = p := by
      rcases hcases with hzero | hfull
      · rw [hzero]
        refine ⟨[], by cases fuel <;> rfl, fun _ hr => (nomatch hr),
          fun size p => ⟨fun ⟨_, hr, _⟩ => (nomatch hr), fun ⟨b, hge, hlt, _⟩ => ?_⟩⟩
        omega
      · obtain ⟨rest, hrest, hshort, hhas⟩ := @ih (id + 1) (nblocks - nflush) (by omega) (by omega)
        refine ⟨rest, hrest, hshort, fun size p => (hhas size p).trans ?_⟩
        rw [hsucc, ← hfull, Nat.add_assoc, Nat.add_sub_cancel' hle]
    obtain ⟨rest, hrest, hshortRest, hhasRest⟩ := hrest
    refine ⟨slices.map (fun r => ⟨extentSizeByCount id, r⟩) ++ rest, ?_, ?_, fun size p => ?_⟩
    · have hspc : spcWriteback s.space (extentSizeByCount id) seg.forknum x nflush
          = some (slices.map fun r => ⟨extentSizeByCount id, r⟩) := by
        unfold spcWriteback
        rw [hslices]
        rfl
      unfold segWritebackLoop
      rw [if_pos hpos, hx, Option.bind_eq_bind, Option.bind_some]
      dsimp only
      rw [hn, hspc, Option.bind_eq_bind, Option.bind_some, hrest]
      rfl
    · intro r hr
      rcases List.mem_append.mp hr with hr | hr
      · obtain ⟨r', hr', rfl⟩ := List.mem_map.mp hr
        exact hshort r' hr'
      · exact hshortRest r hr
    · constructor
      · rintro ⟨r, hr, hrsize, hrp⟩
        rcases List.mem_append.mp hr with hr | hr
        · obtain ⟨r', hr', rfl⟩ := List.mem_map.mp hr
          obtain ⟨hge, hltp⟩ := (hhas p).mp ⟨r', hr', hrp⟩
          refine ⟨extentIdToLogicBlockNum id + (p - x), by omega, by omega, _, hmap (p - x) (by omega), hrsize, ?_⟩
          exact Nat.add_sub_cancel' hge
        · obtain ⟨b, hge, hltb, hloc⟩ := (hhasRest size p).mp ⟨r, hr, hrsize, hrp⟩
          exact ⟨b, by omega, hltb, hloc⟩
      · rintro ⟨b, hge, hltb, loc, hloc, hlsize, hlp⟩
        rcases Nat.lt_or_ge b (extentIdToLogicBlockNum id + nflush) with hfirst | hlater
        · have hloc' := hmap (b - extentIdToLogicBlockNum id) (by omega)
          rw [Nat.add_sub_cancel' hge, hloc] at hloc'
          cases hloc'
          change x + (b - extentIdToLogicBlockNum id) = p at hlp
          obtain ⟨r, hr, hrp⟩ := (hhas p).mpr (by omega)
          exact ⟨_, List.mem_append_left _ (List.mem_map_of_mem hr), hlsize, hrp⟩
        · obtain ⟨r, hr, hrsize, hrp⟩ := (hhasRest size p).mpr ⟨b, hlater, hltb, loc, hloc, hlsize, hlp⟩
          exact ⟨r, List.mem_append_right _ hr, hrsize, hrp⟩

end Extents

/-! ## Segments with a logical size -/

/-- The operations on the trees, and `seg_extend` when the segment has room for the block. -/
inductive SizedStep (s : MapState) : MapState → Prop where
  | tree {t} (h : MapStep.Traced s t) : SizedStep s t
  | size {seg head b op} (hseg : seg ∈ s.segs) (hhead : s.space.segmentHead seg.headBlocknum = some head)
      (hb : b < head.totalBlocks) (hrun : segExtend s.space seg.headBlocknum b = some op) :
      SizedStep s ⟨op.space, s.segs, s.replaced⟩

section Sized

variable {s t : MapState} {owner : ExtentAddress → Option ExtentUse} {seg : SegmentDesc} {head : SegmentHead}
  {b blocknum nblocks : ℕ} {op : AtomicOp}

/-- The trees do not refer to the logical size. -/
lemma MapInv.setNblocks (h : MapInv s owner) (hseg : seg ∈ s.segs)
    (hhead : s.space.segmentHead seg.headBlocknum = some head) (nblocks : ℕ) :
    MapInv ⟨s.space.setPage seg.headBlocknum (.segmentHead { head with nblocks := nblocks }), s.segs, s.replaced⟩
      owner := by
  have hok := h.headOk hseg hhead
  generalize hspace : s.space.setPage seg.headBlocknum (.segmentHead { head with nblocks := nblocks }) = space
  have hsame : space.segmentHead seg.headBlocknum = some { head with nblocks := nblocks } :=
    hspace ▸ segmentHead_setPage_self
  have hread : ∀ slot < level1SlotsInUse head.nextents,
      space.level0Page (head.level1Slots slot) = s.space.level0Page (head.level1Slots slot) :=
    fun slot hslot => hspace ▸ level0Page_setPage_of_ne (h.level1Slots_ne hseg hhead hslot)
  have htree : TreeStep s ⟨space, s.segs, s.replaced⟩ seg s.addr := by
    refine ⟨rfl, ?_, fun _ => rfl, fun _ _ => ⟨fun _ => rfl, fun _ => rfl⟩, ?_, ?_, fun _ => rfl⟩
    · intro v _ hne b hb
      rw [← hspace]
      exact Function.update_of_ne (h.ne_of_pageOf (.inl (MapInv.pageOf_head hseg)) hne hb) _ _
    · intro slot
      exact (if_pos hseg).trans (level0Addr_same hhead hsame rfl (fun _ _ => rfl) slot)
    · intro id
      refine (if_pos hseg).trans ?_
      change _ = space.dataAddr seg id
      rw [dataAddr_eq hhead, dataAddr_eq hsame]
      dsimp only
      split
      case isTrue hid =>
        refine congrArg _ (segExtentLocation_congr hid rfl fun _ slot hslot _ => ?_).symm
        rw [← hread slot hslot]
      case isFalse => rfl
  refine h.treeStep hseg htree (h.inv.congr (hspace ▸ rfl) rfl)
    ⟨_, hsame, ⟨hok.nextents, hok.totalBlocks⟩, ?_⟩ h.replacedSize
  intro slot hslot
  obtain ⟨page, hpage⟩ := hok.level0 slot hslot
  exact ⟨page, (hread slot hslot).trans hpage⟩

lemma MapInv.segExtend (h : MapInv s owner) (hseg : seg ∈ s.segs)
    (hrun : segExtend s.space seg.headBlocknum b = some op) :
    MapInv ⟨op.space, s.segs, s.replaced⟩ owner := by
  obtain ⟨head, hhead, hrun⟩ := Option.bind_eq_some_iff.mp hrun
  split at hrun
  case isTrue =>
    cases hrun
    exact h.setNblocks hseg hhead _
  case isFalse =>
    cases hrun
    exact h

lemma mapInv_sized (hrun : Relation.ReflTransGen SizedStep newMapState s) : ∃ owner, MapInv s owner := by
  induction hrun with
  | refl => exact ⟨_, mapInv_new⟩
  | tail _ hstep ih =>
    obtain ⟨owner, hinv⟩ := ih
    cases hstep with
    | tree htree =>
      obtain ⟨op, htrace, hstep⟩ := htree
      exact hinv.step htrace hstep
    | size hseg _ _ hrun => exact ⟨owner, hinv.segExtend hseg hrun⟩

/-! ## The range that is written back -/

/-- A range within the logical size of a segment. -/
def InSegment (head : SegmentHead) (blocknum nblocks : ℕ) : Prop :=
  blocknum + nblocks ≤ head.nblocks ∧ head.nblocks ≤ head.totalBlocks

/-- The offset of a logical block in its extent. -/
def extentOffset (b : ℕ) : ℕ := (segLogicPageIdToExtentId b).2.1

section

variable (h : MapInv s owner)
include h

section

variable (hseg : seg ∈ s.segs) (hhead : s.space.segmentHead seg.headBlocknum = some head)
  (hin : InSegment head blocknum nblocks)
include hseg hhead hin

/-- As many blocks are flushed as were asked for, but from the start of the first extent on. -/
lemma MapInv.writebackRun (hlt : blocknum + nblocks < head.nblocks) :
    ∃ ranges, segWriteback s.space seg.forknum seg.headBlocknum blocknum nblocks = some ranges ∧
      (∀ r ∈ ranges, r.range.start + r.range.count ≤ DF_FILE_SLICE_BLOCKS) ∧
      ∀ size p, (∃ r ∈ ranges, r.extentSize = size ∧ r.range.Has p) ↔
        ∃ b, blocknum ≤ b + extentOffset blocknum ∧ b + extentOffset blocknum < blocknum + nblocks ∧
          ∃ loc, segLogicToPhysicMapping s.space head b = some loc ∧ loc.extentSize = size ∧ loc.blocknum = p := by
  have hok := h.headOk hseg hhead
  obtain ⟨hsize, hblock, hoff⟩ := segLogicPageIdToExtentId_spec blocknum
  have htotal := extentIdToLogicBlockNum_lt hok.nextents
  have hb : blocknum < extentIdToLogicBlockNum head.nextents := by
    rw [← hok.totalBlocks]
    exact lt_of_lt_of_le (by omega) hin.2
  have hid := segLogicPageIdToExtentId_lt hb
  obtain ⟨x, hx, hfile, hsmall, hmap⟩ := h.extent hseg hhead hid
  have hloc := hmap _ hoff
  rw [hblock] at hloc
  have hstart : extentIdToLogicBlockNum (segLogicPageIdToExtentId blocknum).1 + extentOffset blocknum = blocknum :=
    hblock
  obtain ⟨ranges, hranges, hshort, hhas⟩ := h.writebackLoop hseg hhead (le_refl nblocks)
    (show extentIdToLogicBlockNum (segLogicPageIdToExtentId blocknum).1 + nblocks ≤ head.totalBlocks by
      have hle := hin.2
      omega)
  refine ⟨ranges, ?_, hshort, fun size p => (hhas size p).trans ?_⟩
  · have hsum : u32 (blocknum + nblocks) = blocknum + nblocks := by
      refine u32_of_lt (lt_of_le_of_lt (hin.1.trans hin.2) ?_)
      rw [hok.totalBlocks]
      exact htotal
    have hvalid : x + (segLogicPageIdToExtentId blocknum).2.1 ≠ InvalidBlockNumber := by
      simp only [InvalidBlockNumber] at *
      omega
    unfold segWriteback
    rw [hhead, Option.bind_eq_bind, Option.bind_some, hsum, if_pos hlt, hloc, Option.bind_eq_bind, Option.bind_some]
    dsimp only
    rw [if_neg hvalid, hranges]
  · refine exists_congr fun b => ?_
    constructor
    · rintro ⟨hge, hlt, hloc⟩
      exact ⟨by omega, by omega, hloc⟩
    · rintro ⟨hge, hlt, hloc⟩
      exact ⟨by omega, by omega, hloc⟩

/-- A range from the start of an extent on, which is checked. -/
lemma MapInv.writebackOk (hlt : blocknum + nblocks < head.nblocks) (hstart : nblocks = 0 ∨ extentOffset blocknum = 0) :
    ∃ ranges, segWriteback s.space seg.forknum seg.headBlocknum blocknum nblocks = some ranges ∧
      WritebackOk s.space seg head blocknum nblocks ranges := by
  obtain ⟨ranges, hranges, hshort, hhas⟩ := h.writebackRun hseg hhead hin hlt
  have hok := h.headOk hseg hhead
  have hextent : ∀ b < blocknum + nblocks,
    ∃ x, segExtentLocation s.space head (segLogicPageIdToExtentId b).1 = some x ∧
      segLogicToPhysicMapping s.space head b = some
        ⟨extentSizeByCount (segLogicPageIdToExtentId b).1, (segLogicPageIdToExtentId b).1, x + extentOffset b⟩ ∧
      extentOffset b < extentSizeByCount (segLogicPageIdToExtentId b).1 := by
    intro b hb
    obtain ⟨_, hblock, hoff⟩ := segLogicPageIdToExtentId_spec b
    have hid := segLogicPageIdToExtentId_lt (hok.totalBlocks ▸ lt_of_lt_of_le hb (hin.1.trans hin.2))
    obtain ⟨x, hx, _, _, hmap⟩ := h.extent hseg hhead hid
    have hloc := hmap _ hoff
    rw [hblock] at hloc
    exact ⟨x, hx, hloc, hoff⟩
  refine ⟨ranges, hranges, ?_, ?_⟩
  · intro b hge hb
    obtain ⟨x, _, hloc, _⟩ := hextent b hb
    obtain ⟨r, hr, hrsize, hrp⟩ := (hhas _ _).mpr ⟨b, by omega, by omega, _, hloc, rfl, rfl⟩
    exact ⟨_, hloc, r, hr, hrsize, hrp⟩
  · intro r hr
    refine ⟨hshort r hr, fun p hp => ?_⟩
    obtain ⟨b, hge, hb, loc, hloc, hsize, hblock⟩ := (hhas _ p).mp ⟨r, hr, rfl, hp⟩
    obtain ⟨x, hx, hloc', hoff⟩ := hextent b (by omega)
    rw [hloc] at hloc'
    cases hloc'
    dsimp only at hsize hblock
    exact ⟨b, by omega, by omega, x, hx, hsize.symm, by omega, by omega⟩

/-- The last block of a range that starts within an extent is not flushed. -/
lemma MapInv.start_of_writebackOk {ranges : List FileRange}
    (hranges : segWriteback s.space seg.forknum seg.headBlocknum blocknum nblocks = some ranges)
    (hwb : WritebackOk s.space seg head blocknum nblocks ranges) :
    blocknum + nblocks < head.nblocks ∧ (nblocks = 0 ∨ extentOffset blocknum = 0) := by
  have hok := h.headOk hseg hhead
  have hlt : blocknum + nblocks < head.nblocks := by
    obtain ⟨head₂, hhead₂, hcheck⟩ := Option.bind_eq_some_iff.mp hranges
    obtain rfl : head₂ = head := Option.some_inj.mp (hhead₂.symm.trans hhead)
    split at hcheck
    case isFalse => cases hcheck
    case isTrue hsum =>
      have hmax := extentIdToLogicBlockNum_lt hok.nextents
      rwa [u32_of_lt (lt_of_le_of_lt (hin.1.trans hin.2) (hok.totalBlocks ▸ hmax))] at hsum
  refine ⟨hlt, ?_⟩
  by_contra hnot
  obtain ⟨hpos, hoff⟩ := not_or.mp hnot
  obtain ⟨ranges', hranges', _, hhas⟩ := h.writebackRun hseg hhead hin hlt
  obtain rfl : ranges' = ranges := Option.some_inj.mp (hranges'.symm.trans hranges)
  obtain ⟨loc, hloc, r, hr, hrsize, hrp⟩ := hwb.covers (blocknum + nblocks - 1) (by omega) (by omega)
  obtain ⟨b, _, hb, loc', hloc', hsize, hblock⟩ := (hhas _ _).mp ⟨r, hr, hrsize, hrp⟩
  have htotal := hin.1.trans hin.2
  have hsame := h.blockMapOk.physicalInj seg hseg seg hseg rfl _ _ _ _ _ _ hhead hhead (by omega) (by omega)
    hloc' hloc hsize hblock
  omega

end

end

/-- The range is covered exactly if it starts with an extent and does not reach the end of the segment. -/
theorem segWriteback_ok (hrun : Relation.ReflTransGen SizedStep newMapState s) (hseg : seg ∈ s.segs)
    (hhead : s.space.segmentHead seg.headBlocknum = some head) (hin : InSegment head blocknum nblocks) :
    (∃ ranges, segWriteback s.space seg.forknum seg.headBlocknum blocknum nblocks = some ranges ∧
      WritebackOk s.space seg head blocknum nblocks ranges) ↔
    blocknum + nblocks < head.nblocks ∧ (nblocks = 0 ∨ extentOffset blocknum = 0) := by
  obtain ⟨owner, hinv⟩ := mapInv_sized hrun
  constructor
  · rintro ⟨ranges, hranges, hwb⟩
    exact hinv.start_of_writebackOk hseg hhead hin hranges hwb
  · rintro ⟨hlt, hstart⟩
    exact hinv.writebackOk hseg hhead hin hlt hstart

/-- A segment of one extent with four blocks. -/
lemma sized_exists : ∃ s head, Relation.ReflTransGen SizedStep newMapState s ∧ firstSegment ∈ s.segs ∧
    s.space.segmentHead firstSegment.headBlocknum = some head ∧ head.nblocks = 4 ∧ head.totalBlocks = 8 := by
  obtain ⟨s₀, hstep₀, h₀⟩ := grown_zero
  obtain ⟨s, hstep, h⟩ := h₀.extend (by decide)
  have hrun : Relation.ReflTransGen SizedStep newMapState s := h.run.lift id fun _ _ htrace => .tree htrace
  have hfirst : ∀ {v : SegmentDesc}, insert v newMapState.segs = {firstSegment} → firstSegment = v := by
    intro v hv
    have hmem := Finset.mem_singleton_self firstSegment
    rw [← hv] at hmem
    exact (Finset.mem_insert.mp hmem).resolve_right (Finset.notMem_empty _)
  have hempty : ∃ head, s₀.space.segmentHead firstSegment.headBlocknum = some head ∧ head.nblocks = 0 ∧
      head.nextents = 0 ∧ head.totalBlocks = 0 := by
    have hsegs := h₀.segs
    cases hstep₀ with
    | create _ hrun =>
      obtain ⟨⟨block, op⟩, _, hrun⟩ := Option.bind_eq_some_iff.mp hrun
      cases hrun
      rw [hfirst hsegs]
      exact ⟨_, segmentHead_setPage_self, rfl, rfl, rfl⟩
  obtain ⟨head₀, hhead₀, hblocks₀, hn₀, htotal₀⟩ := hempty
  have hone : ∃ head, s.space.segmentHead firstSegment.headBlocknum = some head ∧ head.nblocks = 0 ∧
      head.totalBlocks = 8 := by
    cases hstep with
    | extend _ hextend =>
      obtain ⟨head, x, op₁, hhead, _, hcases⟩ := segExtendSegment_cases hextend
      obtain rfl : head = head₀ := Option.some_inj.mp (hhead.symm.trans hhead₀)
      rw [hn₀] at hcases
      rcases hcases with ⟨_, hspace⟩ | ⟨⟨hge, _⟩, _⟩ | ⟨hge, _⟩
      · rw [hspace]
        refine ⟨_, segmentHead_setPage_self, hblocks₀, ?_⟩
        change u32 (head.totalBlocks + extentSizeByCount head.nextents) = 8
        rw [htotal₀, hn₀]
        rfl
      · exact absurd hge (by decide)
      · exact absurd hge (by decide)
  obtain ⟨head, hhead, hblocks, htotal⟩ := hone
  have hsize : segExtend s.space firstSegment.headBlocknum 3 = some (AtomicOp.registerPage (.start s.space)
      firstSegment.headBlocknum (.segmentHead { head with nblocks := 4 }) (.segmentExtend head.nblocks 4)) := by
    unfold segExtend
    rw [hhead, Option.bind_eq_bind, Option.bind_some, hblocks, if_pos (Nat.zero_le 3)]
    rfl
  exact ⟨_, _, hrun.tail (.size h.mem hhead (htotal ▸ by decide) hsize), h.mem, segmentHead_setPage_self, rfl, htotal⟩

theorem segWriteback_ok_first : ∃ (s : MapState) (head : SegmentHead) (ranges : List FileRange),
    s.space.segmentHead firstSegment.headBlocknum = some head ∧
    segWriteback s.space firstSegment.forknum firstSegment.headBlocknum 0 2 = some ranges ∧
    WritebackOk s.space firstSegment head 0 2 ranges := by
  obtain ⟨s, head, hrun, hseg, hhead, hblocks, htotal⟩ := sized_exists
  have hin : InSegment head 0 2 := ⟨hblocks ▸ by decide, by rw [hblocks, htotal]; decide⟩
  obtain ⟨ranges, hranges, hwb⟩ := (segWriteback_ok hrun hseg hhead hin).mpr ⟨hblocks ▸ by decide, .inr rfl⟩
  exact ⟨s, head, ranges, hhead, hranges, hwb⟩

/-- Of the second block alone, the first one is flushed; a range that ends with the segment is a PANIC. -/
theorem segWriteback_lost : ∃ s head, Relation.ReflTransGen SizedStep newMapState s ∧ firstSegment ∈ s.segs ∧
    s.space.segmentHead firstSegment.headBlocknum = some head ∧ InSegment head 1 1 ∧ InSegment head 0 4 ∧
    (∀ ranges, segWriteback s.space firstSegment.forknum firstSegment.headBlocknum 1 1 = some ranges →
      ¬ WritebackOk s.space firstSegment head 1 1 ranges) ∧
    segWriteback s.space firstSegment.forknum firstSegment.headBlocknum 0 4 = none := by
  obtain ⟨s, head, hrun, hseg, hhead, hblocks, htotal⟩ := sized_exists
  obtain ⟨owner, hinv⟩ := mapInv_sized hrun
  have hin : InSegment head 1 1 := ⟨hblocks ▸ by decide, by rw [hblocks, htotal]; decide⟩
  have hin' : InSegment head 0 4 := ⟨hblocks.symm ▸ le_refl 4, by rw [hblocks, htotal]; decide⟩
  refine ⟨s, head, hrun, hseg, hhead, hin, hin', ?_, ?_⟩
  · intro ranges hranges hwb
    obtain ⟨_, hzero | hoff⟩ := hinv.start_of_writebackOk hseg hhead hin hranges hwb
    · exact absurd hzero (by decide)
    · exact absurd hoff (by decide)
  · unfold segWriteback
    rw [hhead, Option.bind_eq_bind, Option.bind_some, hblocks]
    rfl

end Sized

end GaussKernel.Segment
