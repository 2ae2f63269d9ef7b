import GaussKernel.Lib.Replay
import GaussKernel.Segment.ExtentInvariant

/-!
# Redo of an extent group

The redo functions of `segxlog.cpp` for the pages of one extent group, and for each function of
`extent_group.cpp` that its records reproduce what it did. The size of the file is not part of that: the
primary lengthens its file before it looks for a free bit, redo when a bit is set.

Freeing is the exception. The record of the map head carries the free page of the group `free_group` only, so
that `FreeLogged` is needed: the freed extent does not lie behind the first free group, or on a page that is
not in front of the free page of its group.
-/

namespace GaussKernel.Segment

open Lib
open Function (update update_self update_of_ne)

/-! ## The redo functions -/

/-- The page with the header fields of the record. -/
def MapPage.withHeader (page : MapPage) (logPage : DfMapPage) (bitmap : Finset ℕ) : MapPage :=
  { page with
    dirtyLast := logPage.dirtyLast
    freeBegin := logPage.freeBegin
    freeBits := logPage.freeBits
    bitmap := bitmap }

def redoUnsetBitmap (page : MapPage) (bitId : ℕ) (logPage : DfMapPage) : Option MapPage :=
  if page.firstPage = logPage.firstPage then
    if bitId ∈ page.bitmap then some (page.withHeader logPage (page.bitmap.erase bitId)) else none
  else none

def redoSetBitmap (page : MapPage) (bitId : ℕ) (logPage : DfMapPage) : Option MapPage :=
  if page.firstPage = logPage.firstPage then
    if bitId ∈ page.bitmap then none else some (page.withHeader logPage (insert bitId page.bitmap))
  else none

/-- The end of the extent of a bit, to which `redo_set_bitmap` extends the data file. -/
def redoTarget (eg : ExtentGroup) (page : MapPage) (bitId : ℕ) : ℕ :=
  u32 (u32 (page.firstPage + eg.extentSize * bitId) + eg.extentSize)

def redoMapheadAllocatedExtents (head : MapHead) (data : AllocateExtentData) : MapHead :=
  { head with
    allocatedExtents := data.allocatedExtents
    freeGroup := data.freeGroup
    groups := update head.groups data.freeGroup
      { head.groups data.freeGroup with freePage := data.freePage }
    highWaterMark := data.hwm }

def redoSpaceUpdateHwm (head : MapHead) (newHwm oldHwm oldGroupcnt newGroupcnt : ℕ) : Option MapHead :=
  if head.highWaterMark = oldHwm then
    if head.groupCount = oldGroupcnt then
      some { head with highWaterMark := newHwm, groupCount := newGroupcnt }
    else none
  else none

def redoAddNewGroup (head : MapHead) (firstMapPageno groupCount groupSize : ℕ) : Option MapHead :=
  if 0 < groupCount then
    some { head with
      groupCount := groupCount
      groups := update head.groups (groupCount - 1) ⟨firstMapPageno, 0, groupSize⟩ }
  else none

/-- `redo_create_extent_group`: an existing file is only made long enough. -/
def redoCreateExtentGroup (eg : ExtentGroup) : ExtentGroup :=
  { eg with
    totalBlocks := if eg.totalBlocks < DF_FILE_EXTEND_STEP_BLOCKS then DF_FILE_EXTEND_STEP_BLOCKS
      else eg.totalBlocks
    mapHead := initMapHead eg.extentSize }

def redoEg (eg : ExtentGroup) : EgRecord → Option ExtentGroup
  | .createExtentGroup => some (redoCreateExtentGroup eg)
  | .initMapPage pageno firstPage => some (egInitBitmapPage eg pageno firstPage)
  | .initInvrsptrPage pageno => some (egInitInvrsptrPage eg pageno)
  | .addNewGroup firstMapPageno groupCount groupSize =>
    (redoAddNewGroup eg.mapHead firstMapPageno groupCount groupSize).map ({ eg with mapHead := · })
  | .setBitmap block bitId logPage => do
    let page ← redoSetBitmap (eg.mapPages block) bitId logPage
    egExtendDf { eg with mapPages := update eg.mapPages block page } (redoTarget eg page bitId)
  | .freeBitmap block bitId logPage _ => do
    let page ← redoUnsetBitmap (eg.mapPages block) bitId logPage
    pure { eg with mapPages := update eg.mapPages block page }
  | .mapheadAllocatedExtents data => some { eg with mapHead := redoMapheadAllocatedExtents eg.mapHead data }
  | .setInversePointer ipblock offset iptr =>
    some { eg with ipPages := writeInversePointer eg.ipPages ipblock offset iptr }
  | .spaceUpdateHwm newHwm oldHwm oldGroupcnt newGroupcnt =>
    (redoSpaceUpdateHwm eg.mapHead newHwm oldHwm oldGroupcnt newGroupcnt).map ({ eg with mapHead := · })

/-! ## Equal up to the size of the file -/

/-- All pages of the two files are equal. -/
def ExtentGroup.SamePages (eg eg' : ExtentGroup) : Prop :=
  ∃ total, eg' = { eg with totalBlocks := total }

/-- A group has the pages that it has. -/
lemma ExtentGroup.SamePages.refl (eg : ExtentGroup) : eg.SamePages eg := ⟨eg.totalBlocks, rfl⟩

/-- Sameness of pages is transitive. -/
lemma ExtentGroup.SamePages.trans {a b c : ExtentGroup} (h : a.SamePages b) (h' : b.SamePages c) :
    a.SamePages c := by
  obtain ⟨_, rfl⟩ := h
  obtain ⟨n, rfl⟩ := h'
  exact ⟨n, rfl⟩

/-- Sameness of pages is symmetric. -/
lemma ExtentGroup.SamePages.symm {a b : ExtentGroup} (h : a.SamePages b) : b.SamePages a := by
  obtain ⟨_, rfl⟩ := h
  exact ⟨a.totalBlocks, rfl⟩

variable {target bitId block : ℕ} {page q : MapPage} {preassigned : Option ℕ}

/-- A longer file has the same pages. -/
lemma egExtendDf_samePages {eg eg' : ExtentGroup} (h : egExtendDf eg target = some eg') :
    eg.SamePages eg' := by
  obtain ⟨total, _, hres⟩ := Option.bind_eq_some_iff.mp h
  cases hres
  exact ⟨total, rfl⟩

/-- Whether a file can be extended to a target does not depend on its size. -/
lemma egExtendDf_exists (eg : ExtentGroup) (h : target ≠ InvalidBlockNumber) :
    ∃ eg', egExtendDf eg target = some eg' := by
  unfold egExtendDf dfExtend
  rw [if_neg h]
  exact ⟨_, rfl⟩

/-- A file is not extended to the invalid block. -/
lemma egExtendDf_valid {eg eg' : ExtentGroup} (h : egExtendDf eg target = some eg') :
    target ≠ InvalidBlockNumber := by
  obtain ⟨total, htotal, _⟩ := Option.bind_eq_some_iff.mp h
  rintro rfl
  cases htotal

/-- Redo reads the pages only. -/
lemma redoEg_same {s t s' : ExtentGroup} {r : EgRecord} (h : s.SamePages t) (hrun : redoEg s r = some s') :
    ∃ t', redoEg t r = some t' ∧ s'.SamePages t' := by
  obtain ⟨n, rfl⟩ := h
  cases r with
  | createExtentGroup =>
    cases hrun
    exact ⟨_, rfl, _, rfl⟩
  | initMapPage pageno firstPage =>
    cases hrun
    exact ⟨_, rfl, n, rfl⟩
  | initInvrsptrPage pageno =>
    cases hrun
    exact ⟨_, rfl, n, rfl⟩
  | addNewGroup firstMapPageno groupCount groupSize =>
    obtain ⟨head, hhead, hres⟩ := Option.map_eq_some_iff.mp hrun
    cases hres
    exact ⟨_, Option.map_eq_some_iff.mpr ⟨head, hhead, rfl⟩, n, rfl⟩
  | setBitmap block bitId logPage =>
    -- the file grows to the same target from both sizes
    obtain ⟨page, hpage, hext⟩ := Option.bind_eq_some_iff.mp hrun
    obtain ⟨t', ht'⟩ := egExtendDf_exists
      { s with totalBlocks := n, mapPages := update s.mapPages block page } (egExtendDf_valid hext)
    refine ⟨t', Option.bind_eq_some_iff.mpr ⟨page, hpage, ht'⟩, ?_⟩
    exact (egExtendDf_samePages hext).symm.trans (.trans ⟨n, rfl⟩ (egExtendDf_samePages ht'))
  | freeBitmap block bitId logPage blocknum =>
    obtain ⟨page, hpage, hres⟩ := Option.bind_eq_some_iff.mp hrun
    cases hres
    exact ⟨_, Option.bind_eq_some_iff.mpr ⟨page, hpage, rfl⟩, n, rfl⟩
  | mapheadAllocatedExtents data =>
    cases hrun
    exact ⟨_, rfl, n, rfl⟩
  | setInversePointer ipblock offset iptr =>
    cases hrun
    exact ⟨_, rfl, n, rfl⟩
  | spaceUpdateHwm newHwm oldHwm oldGroupcnt newGroupcnt =>
    obtain ⟨head, hhead, hres⟩ := Option.map_eq_some_iff.mp hrun
    cases hres
    exact ⟨_, Option.map_eq_some_iff.mpr ⟨head, hhead, rfl⟩, n, rfl⟩

/-- Replay on an extent group. -/
def egReplay : Replay ExtentGroup EgRecord where
  redo := redoEg
  Same := ExtentGroup.SamePages
  refl := .refl
  trans := .trans
  redo_same := redoEg_same

/-! ## Bits -/

/-- Redo of a set bit gives the page that was logged. -/
lemma redoSetBitmap_eq (h : egSetBitmapPage page bitId = some q) :
    redoSetBitmap page bitId q.toDfMapPage = some q := by
  unfold egSetBitmapPage at h
  split at h
  case isTrue => cases h
  case isFalse hfree =>
    cases h
    unfold redoSetBitmap
    rw [if_pos rfl, if_neg hfree]
    rfl

/-- Redo of a cleared bit gives the page that was logged. -/
lemma redoUnsetBitmap_eq (h : egUnsetBitmapPage page bitId = some q) :
    redoUnsetBitmap page bitId q.toDfMapPage = some q := by
  unfold egUnsetBitmapPage at h
  split at h
  case isTrue hset =>
    cases h
    unfold redoUnsetBitmap
    rw [if_pos rfl, if_pos hset]
    rfl
  case isFalse => cases h

/-- Setting a bit keeps the first page. -/
lemma egSetBitmapPage_firstPage (h : egSetBitmapPage page bitId = some q) : q.firstPage = page.firstPage := by
  unfold egSetBitmapPage at h
  split at h
  case isTrue => cases h
  case isFalse =>
    cases h
    rfl

/-! ## Logged changes -/

/-- The file grows in whole steps, and the map head, once there is one, has the extent size as its unit. -/
structure ExtentGroup.FileOk (eg : ExtentGroup) : Prop where
  size : IsExtentSize eg.extentSize
  step : eg.totalBlocks % DF_FILE_EXTEND_STEP_BLOCKS = 0
  fileLt : eg.totalBlocks < 2 ^ 32
  unit : eg.totalBlocks ≠ 0 → eg.mapHead.bitUnit = eg.extentSize

/-- The records reproduce the change from `eg` to `eg'`, which keeps the file in order. -/
structure EgLogged (eg : ExtentGroup) (log : List EgRecord) (eg' : ExtentGroup) : Prop where
  reproduces : egReplay.Reproduces eg log eg'
  fileOk : eg.FileOk → eg'.FileOk
  extentSize : eg'.extentSize = eg.extentSize
  fileGrows : eg.totalBlocks ≤ eg'.totalBlocks

variable {eg eg' eg'' : ExtentGroup} {log log' pending : List EgRecord}

/-- Nothing is logged when nothing changes. -/
lemma EgLogged.nil (eg : ExtentGroup) : EgLogged eg [] eg :=
  ⟨.nil eg, id, rfl, le_refl _⟩

/-- The logs of two steps log both. -/
lemma EgLogged.append (h : EgLogged eg log eg') (h' : EgLogged eg' log' eg'') :
    EgLogged eg (log ++ log') eg'' :=
  ⟨h.reproduces.append h'.reproduces, h'.fileOk ∘ h.fileOk, h'.extentSize.trans h.extentSize,
    h.fileGrows.trans h'.fileGrows⟩

/-- A change of pages only: redoing its record gives the same pages, and the unit stays. -/
lemma EgLogged.single {t : ExtentGroup} {r : EgRecord} (h : redoEg eg r = some t) (hs : eg'.SamePages t)
    (hsize : eg'.extentSize = eg.extentSize) (htotal : eg'.totalBlocks = eg.totalBlocks)
    (hunit : eg'.mapHead.bitUnit = eg.mapHead.bitUnit) : EgLogged eg [r] eg' where
  reproduces := .single h hs
  fileOk hok := by
    refine ⟨hsize ▸ hok.size, htotal ▸ hok.step, htotal ▸ hok.fileLt, fun hne => ?_⟩
    rw [hunit, hsize]
    exact hok.unit (htotal ▸ hne)
  extentSize := hsize
  fileGrows := htotal.ge

/-- A write of an inverse pointer is logged. -/
lemma EgLogged.setInversePointer (eg : ExtentGroup) (extent : ℕ) (iptr : ExtentInversePointer) :
    EgLogged eg (setInversePointer eg extent iptr).2 (setInversePointer eg extent iptr).1 :=
  .single rfl (.refl _) rfl rfl rfl

/-! ## Allocation -/

/-- The end of a file in whole steps is never the invalid block number. -/
lemma ExtentGroup.FileOk.target_valid (h : eg.FileOk) (hle : target ≤ eg.totalBlocks) :
    target ≠ InvalidBlockNumber := by
  have h1 := h.step
  have h2 := h.fileLt
  simp only [DF_FILE_EXTEND_STEP_BLOCKS, InvalidBlockNumber] at *
  omega

/-- An allocation from a map page is logged. -/
lemma EgLogged.alloc {mapBlock b g j : ℕ} (hok : eg.FileOk) (hfile : eg.totalBlocks ≠ 0)
    (h : egAllocExtentFromMapInternal eg mapBlock b g j = some (.allocated block eg' log)) :
    EgLogged eg log eg' := by
  obtain ⟨q, hq, hblock, hroom, rfl, rfl⟩ := egAllocExtentFromMapInternal_allocated h
  -- redo extends the file to the end of the extent, which the primary found in the file
  have htarget : redoTarget eg q b = u32 (block + eg.extentSize) := by
    unfold redoTarget
    rw [hblock, egSetBitmapPage_firstPage hq, hok.unit hfile, mul_comm]
  obtain ⟨t, ht⟩ := egExtendDf_exists
    { eg with mapPages := update eg.mapPages mapBlock q } (htarget ▸ hok.target_valid hroom)
  have hset : EgLogged eg [.setBitmap mapBlock b q.toDfMapPage]
      { eg with mapPages := update eg.mapPages mapBlock q } :=
    .single (Option.bind_eq_some_iff.mpr ⟨q, redoSetBitmap_eq hq, ht⟩) (egExtendDf_samePages ht) rfl rfl rfl
  exact hset.append (.single rfl (.refl _) rfl rfl rfl)

/-- A scan that allocates does so in one of its attempts. -/
lemma scan_allocated {attempt : ℕ → Option TryAlloc} {count j : ℕ}
    (h : scan attempt count j = some (.allocated block eg log)) :
    ∃ k, attempt k = some (.allocated block eg log) := by
  rcases scan_spec attempt count j with ⟨hfull, _⟩ | ⟨k, _, _, _, hk, _⟩
  · rw [hfull] at h
    cases h
  · exact ⟨k, hk.symm.trans h⟩

/-- However the free bit was found, it was set by `eg_alloc_extent_from_map_internal`. -/
lemma egTryAllocExtent_allocated (h : egTryAllocExtent eg preassigned = some (.allocated block eg' log)) :
    ∃ mapBlock b g j block', egAllocExtentFromMapInternal eg mapBlock b g j
      = some (.allocated block' eg' log) := by
  unfold egTryAllocExtent at h
  dsimp only at h
  split at h
  case isFalse => cases h
  case isTrue =>
    cases preassigned with
    | none =>
      obtain ⟨r, hr, hres⟩ := Option.bind_eq_some_iff.mp h
      cases r with
      | full =>
        obtain ⟨start, _, hres⟩ := Option.bind_eq_some_iff.mp hres
        split at hres <;> cases hres
      | targetFileSize target => cases hres
      | allocated block' eg₁ log₁ =>
        cases hres
        obtain ⟨i, hi⟩ := scan_allocated hr
        unfold tryGroup at hi
        dsimp only at hi
        split at hi
        case isFalse => cases hi
        case isTrue =>
          obtain ⟨j, hj⟩ := scan_allocated hi
          unfold egAllocExtentFromMap at hj
          dsimp only at hj
          split at hj
          · cases hj
          · split at hj
            · cases hj
            · exact ⟨_, _, _, _, _, hj⟩
    | some p =>
      unfold egAllocPreassignedBlock at h
      dsimp only at h
      split at h
      · cases h
      · split at h
        · cases h
        · split at h
          · cases h
          · split at h
            · obtain ⟨r, hr, hres⟩ := Option.bind_eq_some_iff.mp h
              cases r with
              | full => cases hres
              | targetFileSize target => cases hres
              | allocated block' eg₁ log₁ =>
                cases hres
                exact ⟨_, _, _, _, _, hr⟩
            · cases h

/-! ## Files and map groups -/

/-- The file grows by whole steps. -/
lemma egExtendDf_total (hok : eg.FileOk) (h : egExtendDf eg target = some eg') :
    eg.totalBlocks ≤ eg'.totalBlocks ∧ eg'.totalBlocks % DF_FILE_EXTEND_STEP_BLOCKS = 0 ∧
      eg'.totalBlocks < 2 ^ 32 := by
  obtain ⟨total, htotal, hres⟩ := Option.bind_eq_some_iff.mp h
  cases hres
  unfold dfExtend at htotal
  split at htotal
  case isTrue => cases htotal
  case isFalse =>
    cases htotal
    refine dfExtendLoop_spec _ _ hok.step hok.fileLt ?_ (Nat.mod_lt _ (by decide))
    simp only [u32, DF_FILE_EXTEND_STEP_BLOCKS]
    omega

/-- An extension of the file needs no record. -/
lemma EgLogged.extendDf (hok : eg.FileOk) (hfile : eg.totalBlocks ≠ 0) (h : egExtendDf eg target = some eg') :
    EgLogged eg [] eg' := by
  obtain ⟨hle, hstep, hlt⟩ := egExtendDf_total hok h
  obtain ⟨total, rfl⟩ := egExtendDf_samePages h
  exact ⟨(Replay.Reproduces.nil eg).of_same ⟨eg.totalBlocks, rfl⟩,
    fun _ => ⟨hok.size, hstep, hlt, fun _ => hok.unit hfile⟩, rfl, hle⟩

/-- New map pages are logged. -/
lemma EgLogged.initBitmapPages (eg : ExtentGroup) (count pageno start : ℕ) :
    EgLogged eg (initBitmapPages eg count pageno start).2 (initBitmapPages eg count pageno start).1 := by
  induction count generalizing eg pageno start with
  | zero => exact .nil eg
  | succ count ih =>
    have hpage : EgLogged eg [.initMapPage pageno start] (egInitBitmapPage eg pageno start) :=
      .single rfl (.refl _) rfl rfl rfl
    exact hpage.append (ih _ _ _)

/-- New pages of inverse pointers are logged. -/
lemma EgLogged.initInvrsptrPages (eg : ExtentGroup) (count pageno : ℕ) :
    EgLogged eg (initInvrsptrPages eg count pageno).2 (initInvrsptrPages eg count pageno).1 := by
  induction count generalizing eg pageno with
  | zero => exact .nil eg
  | succ count ih =>
    have hpage : EgLogged eg [.initInvrsptrPage pageno] (egInitInvrsptrPage eg pageno) :=
      .single rfl (.refl _) rfl rfl rfl
    exact hpage.append (ih _ _)

/-- Redo adds the group that was added. -/
lemma redoAddNewGroup_addGroup (head : MapHead) (firstMap size : ℕ) :
    redoAddNewGroup head firstMap (head.addGroup firstMap size).groupCount size
      = some (head.addGroup firstMap size) :=
  if_pos (Nat.succ_pos _)

/-- A new map group is logged. -/
lemma EgLogged.addMapGroup {pageno oldGroupCount : ℕ}
    (h : egAddMapGroup eg pageno oldGroupCount = some (eg', log)) : EgLogged eg log eg' := by
  unfold egAddMapGroup at h
  split at h
  · cases h
    exact .nil eg
  · split at h
    · have hmaps := EgLogged.initBitmapPages eg DF_MAP_GROUP_SIZE pageno
        (u32 (pageno + DF_MAP_GROUP_SIZE + IPBLOCK_GROUP_SIZE))
      dsimp only at h
      generalize Segment.initBitmapPages eg DF_MAP_GROUP_SIZE pageno
        (u32 (pageno + DF_MAP_GROUP_SIZE + IPBLOCK_GROUP_SIZE)) = maps at h hmaps
      have hips := EgLogged.initInvrsptrPages maps.1 IPBLOCK_GROUP_SIZE (u32 (pageno + DF_MAP_GROUP_SIZE))
      generalize Segment.initInvrsptrPages maps.1 IPBLOCK_GROUP_SIZE (u32 (pageno + DF_MAP_GROUP_SIZE)) = ips
        at h hips
      cases h
      refine (hmaps.append hips).append (.single ?_ (.refl _) rfl rfl rfl)
      rw [redoEg, redoAddNewGroup_addGroup, Option.map_some]
    · cases h

/-- The first map group is logged. -/
lemma EgLogged.firstGroup (h : egFirstGroup eg = some (eg', log)) : EgLogged eg log eg' := by
  unfold egFirstGroup at h
  split at h
  · exact .addMapGroup h
  · cases h
    exact .nil eg

/-- The creation of a group is logged. -/
lemma EgLogged.createIfNecessary (eg : ExtentGroup) :
    EgLogged eg (egCreateIfNecessary eg).2 (egCreateIfNecessary eg).1 := by
  unfold egCreateIfNecessary
  split
  case isFalse => exact .nil eg
  case isTrue hzero =>
    refine ⟨.single rfl ⟨_, rfl⟩, fun hok => ?_, rfl, hzero ▸ Nat.zero_le _⟩
    have hstep : DF_FILE_EXTEND_STEP_BLOCKS % DF_FILE_EXTEND_STEP_BLOCKS = 0 := by decide
    refine ⟨hok.size, hstep, show DF_FILE_EXTEND_STEP_BLOCKS < 2 ^ 32 by decide, fun _ => ?_⟩
    -- every extent size fits the 16 bits of the unit
    refine Nat.mod_eq_of_lt (show eg.extentSize < 2 ^ 16 from ?_)
    rcases hok.size with h | h | h | h | h <;> omega

/-! ## The loop of `eg_alloc_extent` -/

/-- What a round of the loop logs. -/
def AllocRound.Logged (eg : ExtentGroup) : AllocRound → Prop
  | .returned _ eg' log pending => EgLogged eg (log ++ pending) eg'
  | .again eg' log => EgLogged eg log eg'

/-- A round of the allocation is logged. -/
lemma egAllocRound_logged (hok : eg.FileOk) (hfile : eg.totalBlocks ≠ 0) {iptr : ExtentInversePointer}
    {r : AllocRound} (h : egAllocRound eg preassigned iptr = some r) : r.Logged eg := by
  obtain ⟨⟨eg₁, log₁⟩, hfirst, hres⟩ := Option.bind_eq_some_iff.mp h
  have h₁ := EgLogged.firstGroup hfirst
  have hok₁ := h₁.fileOk hok
  have hfile₁ : eg₁.totalBlocks ≠ 0 := (lt_of_lt_of_le (Nat.pos_of_ne_zero hfile) h₁.fileGrows).ne'
  obtain ⟨t, ht, hres⟩ := Option.bind_eq_some_iff.mp hres
  cases t with
  | allocated block eg₂ log₂ =>
    cases hres
    obtain ⟨_, _, _, _, _, hint⟩ := egTryAllocExtent_allocated ht
    exact h₁.append ((EgLogged.alloc hok₁ hfile₁ hint).append (.setInversePointer _ _ _))
  | targetFileSize target =>
    obtain ⟨eg₂, hext, hres⟩ := Option.bind_eq_some_iff.mp hres
    cases hres
    have := h₁.append (.extendDf hok₁ hfile₁ hext)
    rwa [List.append_nil] at this
  | full =>
    obtain ⟨start, _, hres⟩ := Option.bind_eq_some_iff.mp hres
    obtain ⟨⟨eg₂, log₂⟩, hadd, hres⟩ := Option.bind_eq_some_iff.mp hres
    cases hres
    exact h₁.append (.addMapGroup hadd)

/-- The allocation loop is logged. -/
lemma egAllocLoop_logged {iptr : ExtentInversePointer} {fuel : ℕ} (hok : eg.FileOk)
    (hfile : eg.totalBlocks ≠ 0) (h : egAllocLoop preassigned iptr fuel eg = some (block, eg', log, pending)) :
    EgLogged eg (log ++ pending) eg' := by
  induction fuel generalizing eg log with
  | zero => cases h
  | succ fuel ih =>
    obtain ⟨r, hr, hres⟩ := Option.bind_eq_some_iff.mp h
    have hround := egAllocRound_logged hok hfile hr
    cases r with
    | returned _ _ _ _ =>
      cases hres
      exact hround
    | again eg₁ log₁ =>
      obtain ⟨⟨block', eg₂, log₂, pending'⟩, hloop, hres⟩ := Option.bind_eq_some_iff.mp hres
      cases hres
      have hround : EgLogged eg log₁ eg₁ := hround
      have hfile₁ := (lt_of_lt_of_le (Nat.pos_of_ne_zero hfile) hround.fileGrows).ne'
      rw [List.append_assoc]
      exact hround.append (ih (hround.fileOk hok) hfile₁ hloop)

/-- The records of `eg_alloc_extent`, those written at once and those left to the caller. -/
theorem egAllocExtent_logged {preassigned : Option ℕ} {iptr : ExtentInversePointer} {fuel block : ℕ}
    (hok : eg.FileOk) (h : egAllocExtent fuel eg preassigned iptr = some (block, eg', log, pending)) :
    EgLogged eg (log ++ pending) eg' := by
  unfold egAllocExtent at h
  obtain ⟨⟨block', eg₂, log₂, pending'⟩, hloop, hres⟩ := Option.bind_eq_some_iff.mp h
  cases hres
  have hcreate := EgLogged.createIfNecessary eg
  have hfile : (egCreateIfNecessary eg).1.totalBlocks ≠ 0 := by
    unfold egCreateIfNecessary
    split
    · exact Nat.succ_ne_zero _
    · assumption
  rw [List.append_assoc]
  exact hcreate.append (egAllocLoop_logged (hcreate.fileOk hok) hfile hloop)

/-! ## Freeing -/

/-- The free page that `eg_free_extent` may lower is the one its record carries, or it does not lower any. -/
def FreeLogged (eg : ExtentGroup) (blocknum : ℕ) : Prop :=
  let loc := egLocateMapByPageid eg.extentSize blocknum eg.mapHead
  loc.mapGroup ≤ eg.mapHead.freeGroup ∨ (eg.mapHead.groups loc.mapGroup).freePage ≤ loc.mapId

/-- Redoing the record of the map head sets the hints of one group only. -/
lemma redoMapheadAllocatedExtents_free (head : MapHead) (g m : ℕ)
    (h : g ≤ head.freeGroup ∨ (head.groups g).freePage ≤ m) :
    redoMapheadAllocatedExtents head ⟨(head.free g m).highWaterMark, (head.free g m).allocatedExtents,
      (head.free g m).freeGroup, ((head.free g m).groups (head.free g m).freeGroup).freePage⟩
      = head.free g m := by
  have hgroups : update head.groups (head.free g m).freeGroup
      { head.groups (head.free g m).freeGroup with
        freePage := ((head.free g m).groups (head.free g m).freeGroup).freePage }
      = (head.free g m).groups := by
    funext i
    rcases eq_or_ne i (head.free g m).freeGroup with rfl | hi
    · rw [update_self, free_groups]
    · rw [update_of_ne hi, free_groups, if_neg]
      -- a group other than the recorded one is as before
      rintro ⟨rfl, hm⟩
      refine hi (Eq.symm ?_)
      change (if i < head.freeGroup then i else head.freeGroup) = i
      split <;> omega
  unfold redoMapheadAllocatedExtents
  rw [hgroups]
  rfl

/-- A free is logged. -/
theorem egFreeExtent_logged {blocknum : ℕ} (hfree : FreeLogged eg blocknum)
    (h : egFreeExtent eg blocknum = some (eg', log)) : EgLogged eg log eg' := by
  unfold egFreeExtent at h
  dsimp only at h
  split at h
  · cases h
  · obtain ⟨q, hq, hres⟩ := Option.bind_eq_some_iff.mp h
    cases hres
    have hunset : EgLogged eg [.freeBitmap _ _ q.toDfMapPage blocknum] _ :=
      .single (Option.bind_eq_some_iff.mpr ⟨q, redoUnsetBitmap_eq hq, rfl⟩) (.refl _) rfl rfl rfl
    refine hunset.append (.single (congrArg some ?_) (.refl _) rfl rfl rfl)
    rw [redoMapheadAllocatedExtents_free _ _ _ hfree]

/-- A lower high water mark is logged. -/
theorem shrinkHwm_logged {target : ℕ} (h : shrinkHwm eg target = some (eg', log)) : EgLogged eg log eg' := by
  unfold shrinkHwm at h
  split at h
  case isFalse => cases h
  case isTrue =>
    obtain ⟨⟨newHwm, newCount⟩, _, hres⟩ := Option.bind_eq_some_iff.mp h
    dsimp only at hres
    generalize (if u32 _ < target then target else _) = hwm at hres
    split at hres
    · split at hres
      · cases hres
        exact .single (Option.map_eq_some_iff.mpr ⟨_, by rw [redoSpaceUpdateHwm, if_pos rfl, if_pos rfl], rfl⟩)
          (.refl _) rfl rfl rfl
      · cases hres
    · cases hres
      exact .nil eg

end GaussKernel.Segment
