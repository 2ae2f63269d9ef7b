import Mathlib.Algebra.Group.Nat.Defs
import Mathlib.Data.Finset.Card
import Mathlib.Logic.Function.Basic

/-!
# Extent groups

An extent group is one segment file that hands out extents of one size. Its blocks are, after the map
head in block 2, a sequence of map groups: 64 map pages with one bit for each extent, the pages with the
inverse pointers, and the extents themselves. The map head and the map pages carry hints (the first
group, the first page and the first bit that may be free), and all of them are changed by the functions
of `extent_group.cpp`, which are embedded here together with the log records they register.

`none` is a PANIC: a `SegmentCheck` that fails, or a write behind the end of the array of groups.
-/

namespace GaussKernel.Segment

/-! ## Layout -/

abbrev DF_MAP_HEAD_PAGE : ℕ := 2
abbrev DF_MAP_GROUP_SIZE : ℕ := 64
abbrev DF_MAX_MAP_GROUP_CNT : ℕ := 33
/-- Eight bits for each byte of a page behind its header and the header of the map. -/
abbrev DF_MAP_BIT_CNT : ℕ := 65248
abbrev DF_MAP_GROUP_EXTENTS : ℕ := 4175872
abbrev EXTENTS_PER_IPBLOCK : ℕ := 1021
abbrev IPBLOCK_GROUP_SIZE : ℕ := 4090
abbrev DF_FILE_EXTEND_STEP_BLOCKS : ℕ := 16384
abbrev InvalidBlockNumber : ℕ := 2 ^ 32 - 1

/-- A value kept in a `uint32`. -/
def u32 (x : ℕ) : ℕ := x % 2 ^ 32

/-- A value kept in a `uint16`. -/
def u16 (x : ℕ) : ℕ := x % 2 ^ 16

/-- The five extent sizes. -/
def IsExtentSize (n : ℕ) : Prop := n = 1 ∨ n = 8 ∨ n = 128 ∨ n = 1024 ∨ n = 8192

/-- `df_map_group_t` -/
structure MapGroup where
  firstMap : ℕ
  freePage : ℕ
  pageCount : ℕ
  deriving DecidableEq

/-- `df_map_head_t`; `groupCount` entries of `groups` are in use. -/
structure MapHead where
  bitUnit : ℕ
  groupCount : ℕ
  freeGroup : ℕ
  allocatedExtents : ℕ
  highWaterMark : ℕ
  groups : ℕ → MapGroup

/-- `df_map_page_t`, the header in front of the bitmap. -/
structure DfMapPage where
  firstPage : ℕ
  freeBegin : ℕ
  dirtyLast : ℕ
  freeBits : ℕ
  deriving DecidableEq

/-- A map page; the bitmap is the set of the bits that are 1. -/
structure MapPage extends DfMapPage where
  bitmap : Finset ℕ
  deriving DecidableEq

structure ExtentInversePointer where
  flag : ℕ
  owner : ℕ
  deriving DecidableEq

/-- `SegExtentGroup` with the pages of its file, by block number. `totalBlocks` is the size of the file,
0 when there is none. -/
structure ExtentGroup where
  extentSize : ℕ
  totalBlocks : ℕ
  mapHead : MapHead
  mapPages : ℕ → MapPage
  ipPages : ℕ → ℕ → ExtentInversePointer

/-- `XLogDataSpaceAllocateExtent` -/
structure AllocateExtentData where
  hwm : ℕ
  allocatedExtents : ℕ
  freeGroup : ℕ
  freePage : ℕ

/-- The log records on the pages of one extent group. -/
inductive EgRecord where
  | createExtentGroup
  | initMapPage (pageno firstPage : ℕ)
  | initInvrsptrPage (pageno : ℕ)
  | addNewGroup (firstMapPageno groupCount groupSize : ℕ)
  | setBitmap (block bitId : ℕ) (page : DfMapPage)
  | freeBitmap (block bitId : ℕ) (page : DfMapPage) (blocknum : ℕ)
  | mapheadAllocatedExtents (data : AllocateExtentData)
  | setInversePointer (ipblock offset : ℕ) (iptr : ExtentInversePointer)
  | spaceUpdateHwm (newHwm oldHwm oldGroupcnt newGroupcnt : ℕ)

/-! ## The data file -/

/-- The loop of `df_extend`, which lengthens the file step by step. -/
def dfExtendLoop : ℕ → ℕ → ℕ → ℕ
  | 0, totalBlocks, _ => totalBlocks
  | fuel + 1, totalBlocks, target =>
    if totalBlocks < target then
      dfExtendLoop fuel (u32 (totalBlocks + DF_FILE_EXTEND_STEP_BLOCKS)) target
    else totalBlocks

def dfExtend (totalBlocks targetBlocks : ℕ) : Option ℕ :=
  if targetBlocks = InvalidBlockNumber then none
  else
    let target := u32 ((targetBlocks + DF_FILE_EXTEND_STEP_BLOCKS - 1) / DF_FILE_EXTEND_STEP_BLOCKS
      * DF_FILE_EXTEND_STEP_BLOCKS)
    some (dfExtendLoop target totalBlocks target)

def egExtendDf (eg : ExtentGroup) (target : ℕ) : Option ExtentGroup := do
  let totalBlocks ← dfExtend eg.totalBlocks target
  pure { eg with totalBlocks := totalBlocks }

/-! ## Map pages -/

def egInitBitmapPageContent (firstPage : ℕ) : MapPage where
  firstPage := firstPage
  freeBegin := 0
  dirtyLast := 0
  freeBits := DF_MAP_BIT_CNT
  bitmap := ∅

def egSetBitmapPage (page : MapPage) (bitId : ℕ) : Option MapPage :=
  if bitId ∈ page.bitmap then none
  else some { page with
    bitmap := insert bitId page.bitmap
    freeBits := u16 (page.freeBits + 2 ^ 16 - 1)
    freeBegin := if page.freeBegin = bitId then u16 (page.freeBegin + 1) else page.freeBegin
    dirtyLast := if page.dirtyLast < bitId then bitId else page.dirtyLast }

def egUnsetBitmapPage (page : MapPage) (bitId : ℕ) : Option MapPage :=
  if bitId ∈ page.bitmap then
    some { page with
      bitmap := page.bitmap.erase bitId
      freeBits := u16 (page.freeBits + 1)
      freeBegin := if bitId < page.freeBegin then bitId else page.freeBegin }
  else none

/-- The first free bit from `curr` on, among the next `fuel` bits. -/
def findFreeBit (page : MapPage) : ℕ → ℕ → Option ℕ
  | 0, _ => none
  | fuel + 1, curr => if curr ∈ page.bitmap then findFreeBit page fuel (curr + 1) else some curr

/-! ## Locating an extent -/

structure SpaceMapLocation where
  group : MapGroup
  mapId : ℕ
  bitId : ℕ
  mapGroup : ℕ
  deriving DecidableEq

/-- The result before the first iteration: all zero. -/
def SpaceMapLocation.zero : SpaceMapLocation := ⟨⟨0, 0, 0⟩, 0, 0, 0⟩

def groupPageStart (group : MapGroup) : ℕ :=
  u32 (group.firstMap + DF_MAP_GROUP_SIZE + IPBLOCK_GROUP_SIZE)

/-- The end of the extents of a group, in the 32 bits of a `BlockNumber`. -/
def groupPageEnd (extentSize : ℕ) (group : MapGroup) : ℕ :=
  u32 (groupPageStart group + u32 (DF_MAP_GROUP_EXTENTS * extentSize))

/-- The loop of `eg_locate_map_by_pageid` over `count` groups from group `i` on: the group of the last
iteration stays in the result when none of them has the page. -/
def locateLoop (extentSize pageId : ℕ) (head : MapHead) : ℕ → ℕ → SpaceMapLocation → SpaceMapLocation
  | 0, _, result => result
  | count + 1, i, result =>
    let group := head.groups i
    let start := groupPageStart group
    if start ≤ pageId ∧ pageId < groupPageEnd extentSize group then
      ⟨group, (pageId - start) / head.bitUnit / DF_MAP_BIT_CNT,
        (pageId - start) / head.bitUnit % DF_MAP_BIT_CNT, i⟩
    else locateLoop extentSize pageId head count (i + 1) { result with group := group, mapGroup := i }

def egLocateMapByPageid (extentSize pageId : ℕ) (head : MapHead) : SpaceMapLocation :=
  locateLoop extentSize pageId head head.groupCount 0 .zero

def mapLocationIsInvalid (loc : SpaceMapLocation) : Prop := loc.group.firstMap = 0

instance (loc : SpaceMapLocation) : Decidable (mapLocationIsInvalid loc) :=
  inferInstanceAs (Decidable (_ = _))

/-! ## Allocation -/

/-- An attempt to allocate: an extent with the new state and the records, or no extent, because the file
has to be extended first, or because nothing is free. -/
inductive TryAlloc where
  | allocated (block : ℕ) (eg : ExtentGroup) (log : List EgRecord)
  | targetFileSize (target : ℕ)
  | full

def tryUpdateHwm (highWaterMark hwm : ℕ) : ℕ := if highWaterMark < hwm then hwm else highWaterMark

/-- The map head after an allocation. -/
def MapHead.allocate (head : MapHead) (mapGroup freePage hwm : ℕ) : MapHead :=
  { head with
    allocatedExtents := u32 (head.allocatedExtents + 1)
    freeGroup := mapGroup
    groups := Function.update head.groups mapGroup { head.groups mapGroup with freePage := freePage }
    highWaterMark := tryUpdateHwm head.highWaterMark hwm }

def egAllocExtentFromMapInternal (eg : ExtentGroup) (mapBlock bitId mapGroup freePage : ℕ) :
    Option TryAlloc := do
  let page := eg.mapPages mapBlock
  let pagenum := u32 (page.firstPage + bitId * eg.mapHead.bitUnit)
  if eg.totalBlocks < u32 (pagenum + eg.extentSize) then
    pure (.targetFileSize (u32 (pagenum + eg.extentSize)))
  else do
    let page' ← egSetBitmapPage page bitId
    let head := eg.mapHead.allocate mapGroup freePage (u32 (pagenum + eg.extentSize))
    pure (.allocated pagenum
      { eg with mapHead := head, mapPages := Function.update eg.mapPages mapBlock page' }
      [.setBitmap mapBlock bitId page'.toDfMapPage,
        .mapheadAllocatedExtents ⟨head.highWaterMark, head.allocatedExtents, mapGroup, freePage⟩])

def egAllocExtentFromMap (eg : ExtentGroup) (mapPageId mapGroup freePage : ℕ) : Option TryAlloc :=
  let page := eg.mapPages mapPageId
  if page.freeBits = 0 then some .full
  else
    match findFreeBit page (DF_MAP_BIT_CNT - page.freeBegin) page.freeBegin with
    | none => some .full
    | some curr => egAllocExtentFromMapInternal eg mapPageId curr mapGroup freePage

/-- `eg_alloc_preassigned_block`: the caller returns the preassigned block, not the one of the bit. -/
def egAllocPreassignedBlock (eg : ExtentGroup) (preassigned : ℕ) : Option TryAlloc := do
  let loc := egLocateMapByPageid eg.extentSize preassigned eg.mapHead
  if mapLocationIsInvalid loc then pure .full
  else do
    let bitId := u16 loc.bitId
    let mapBlock := u32 (loc.mapId + loc.group.firstMap)
    let page := eg.mapPages mapBlock
    if bitId ∈ page.bitmap then none
    else
      let pagenum := u32 (page.firstPage + bitId * eg.mapHead.bitUnit)
      if eg.totalBlocks < u32 (pagenum + eg.extentSize) then
        pure (.targetFileSize (u32 (pagenum + eg.extentSize)))
      else
        let freeGroup := eg.mapHead.freeGroup
        let freePage := (eg.mapHead.groups freeGroup).freePage
        if freeGroup < eg.mapHead.groupCount ∧ freePage < (eg.mapHead.groups freeGroup).pageCount then do
          match ← egAllocExtentFromMapInternal eg mapBlock bitId freeGroup freePage with
          | .allocated _ eg' log => pure (.allocated preassigned eg' log)
          | r => pure r
        else none

/-- A loop over `count` numbers from `j` on that stops at the first attempt that is not `full`. -/
def scan (attempt : ℕ → Option TryAlloc) : ℕ → ℕ → Option TryAlloc
  | 0, _ => some .full
  | count + 1, j =>
    match attempt j with
    | some .full => scan attempt count (j + 1)
    | r => r

/-- One iteration of the outer loop of `eg_try_alloc_extent`: the pages of group `i`. -/
def tryGroup (eg : ExtentGroup) (i : ℕ) : Option TryAlloc :=
  let group := eg.mapHead.groups i
  if group.freePage < group.pageCount then
    scan (fun j => egAllocExtentFromMap eg (u32 (group.firstMap + j)) i j)
      (group.pageCount - group.freePage) group.freePage
  else none

def egNextGroupStart (head : MapHead) : Option ℕ :=
  if 0 < head.groupCount then
    let last := head.groups (head.groupCount - 1)
    some (u32 (last.firstMap + last.pageCount + IPBLOCK_GROUP_SIZE
      + DF_MAP_GROUP_EXTENTS * head.bitUnit))
  else none

def egTryAllocExtent (eg : ExtentGroup) (preassigned : Option ℕ) : Option TryAlloc :=
  let head := eg.mapHead
  if 0 < head.groupCount ∧ head.freeGroup < head.groupCount then
    match preassigned with
    | some block => egAllocPreassignedBlock eg block
    | none => do
      match ← scan (tryGroup eg) (head.groupCount - head.freeGroup) head.freeGroup with
      | .full =>
        let start ← egNextGroupStart head
        let dataStart := u32 (start + DF_MAP_GROUP_SIZE + IPBLOCK_GROUP_SIZE)
        pure (if eg.totalBlocks < dataStart then .targetFileSize dataStart else .full)
      | r => pure r
  else none

/-! ## Map groups -/

def egInitBitmapPage (eg : ExtentGroup) (pageno firstPage : ℕ) : ExtentGroup :=
  { eg with mapPages := Function.update eg.mapPages pageno (egInitBitmapPageContent firstPage) }

def egInitInvrsptrPage (eg : ExtentGroup) (pageno : ℕ) : ExtentGroup :=
  { eg with ipPages := Function.update eg.ipPages pageno fun _ => ⟨0, 0⟩ }

/-- The first loop of `eg_add_map_group`. -/
def initBitmapPages (eg : ExtentGroup) : ℕ → ℕ → ℕ → ExtentGroup × List EgRecord
  | 0, _, _ => (eg, [])
  | count + 1, pageno, dataStart =>
    let rest := initBitmapPages (egInitBitmapPage eg pageno dataStart) count (u32 (pageno + 1))
      (u32 (dataStart + DF_MAP_BIT_CNT * eg.extentSize))
    (rest.1, .initMapPage pageno dataStart :: rest.2)

/-- The second loop of `eg_add_map_group`. -/
def initInvrsptrPages (eg : ExtentGroup) : ℕ → ℕ → ExtentGroup × List EgRecord
  | 0, _ => (eg, [])
  | count + 1, pageno =>
    let rest := initInvrsptrPages (egInitInvrsptrPage eg pageno) count (u32 (pageno + 1))
    (rest.1, .initInvrsptrPage pageno :: rest.2)

/-- The map head with one more group. -/
def MapHead.addGroup (head : MapHead) (firstMap groupSize : ℕ) : MapHead :=
  { head with
    groupCount := head.groupCount + 1
    groups := Function.update head.groups head.groupCount ⟨firstMap, 0, groupSize⟩ }

/-- `eg_add_map_group` with `DF_MAP_GROUP_SIZE`, the only group size it accepts. -/
def egAddMapGroup (eg : ExtentGroup) (pageno oldGroupCount : ℕ) :
    Option (ExtentGroup × List EgRecord) :=
  if oldGroupCount < eg.mapHead.groupCount then some (eg, [])
  else if oldGroupCount = eg.mapHead.groupCount ∧ oldGroupCount < DF_MAX_MAP_GROUP_CNT then
    let maps := initBitmapPages eg DF_MAP_GROUP_SIZE pageno
      (u32 (pageno + DF_MAP_GROUP_SIZE + IPBLOCK_GROUP_SIZE))
    let ips := initInvrsptrPages maps.1 IPBLOCK_GROUP_SIZE (u32 (pageno + DF_MAP_GROUP_SIZE))
    let head := ips.1.mapHead.addGroup pageno DF_MAP_GROUP_SIZE
    some ({ ips.1 with mapHead := head },
      maps.2 ++ ips.2 ++ [.addNewGroup pageno head.groupCount DF_MAP_GROUP_SIZE])
  else none

/-! ## Inverse pointers -/

@[ext]
structure IpBlockLocation where
  ipblock : ℕ
  offset : ℕ
  deriving DecidableEq

def getIpBlock (extent extentSize : ℕ) : IpBlockLocation :=
  let extent := u32 (extent + 2 ^ 32 - (DF_MAP_HEAD_PAGE + 1))
  let groupTotalBlocks := u32 (DF_MAP_GROUP_SIZE + IPBLOCK_GROUP_SIZE + DF_MAP_GROUP_EXTENTS * extentSize)
  let groupId := extent / groupTotalBlocks
  let groupIpStart := u32 (DF_MAP_HEAD_PAGE + 1 + groupId * groupTotalBlocks + DF_MAP_GROUP_SIZE)
  let groupOffset := u32 (extent % groupTotalBlocks + 2 ^ 32 - (DF_MAP_GROUP_SIZE + IPBLOCK_GROUP_SIZE))
  let extentId := groupOffset / extentSize
  ⟨u32 (groupIpStart + extentId / EXTENTS_PER_IPBLOCK), extentId % EXTENTS_PER_IPBLOCK⟩

/-- The inverse pointer pages after one pointer was written. -/
def writeInversePointer (ipPages : ℕ → ℕ → ExtentInversePointer) (ipblock offset : ℕ)
    (iptr : ExtentInversePointer) : ℕ → ℕ → ExtentInversePointer :=
  Function.update ipPages ipblock (Function.update (ipPages ipblock) offset iptr)

def setInversePointer (eg : ExtentGroup) (extent : ℕ) (iptr : ExtentInversePointer) :
    ExtentGroup × List EgRecord :=
  let loc := getIpBlock extent eg.extentSize
  ({ eg with ipPages := writeInversePointer eg.ipPages loc.ipblock loc.offset iptr },
    [.setInversePointer loc.ipblock loc.offset iptr])

/-! ## Allocating and freeing -/

def initMapHead (extentSize : ℕ) : MapHead where
  bitUnit := u16 extentSize
  groupCount := 0
  freeGroup := 0
  allocatedExtents := 0
  highWaterMark := 0
  groups := fun _ => ⟨0, 0, 0⟩

/-- `eg_init_data_files`: a file of one extension step, with an empty map head. -/
def egInitDataFiles (eg : ExtentGroup) : ExtentGroup :=
  { eg with totalBlocks := DF_FILE_EXTEND_STEP_BLOCKS, mapHead := initMapHead eg.extentSize }

def egCreateIfNecessary (eg : ExtentGroup) : ExtentGroup × List EgRecord :=
  if eg.totalBlocks = 0 then (egInitDataFiles eg, [.createExtentGroup]) else (eg, [])

/-- What one round of the loop in `eg_alloc_extent` ends with: `log` is written at once, `pending` belongs
to the atomic operation of the caller. -/
inductive AllocRound where
  | returned (block : ℕ) (eg : ExtentGroup) (log pending : List EgRecord)
  | again (eg : ExtentGroup) (log : List EgRecord)

/-- The first map group is added under the same lock as the first attempt. -/
def egFirstGroup (eg : ExtentGroup) : Option (ExtentGroup × List EgRecord) :=
  if eg.mapHead.groupCount = 0 then egAddMapGroup eg (DF_MAP_HEAD_PAGE + 1) 0 else some (eg, [])

/-- One round of `eg_alloc_extent`, from locking the map head to releasing it. -/
def egAllocRound (eg : ExtentGroup) (preassigned : Option ℕ) (iptr : ExtentInversePointer) :
    Option AllocRound := do
  let (eg, log) ← egFirstGroup eg
  match ← egTryAllocExtent eg preassigned with
  | .allocated block eg' pending =>
    let (eg', ip) := setInversePointer eg' block iptr
    pure (.returned block eg' log (pending ++ ip))
  | .targetFileSize target => do
    let eg' ← egExtendDf eg target
    pure (.again eg' log)
  | .full => do
    let start ← egNextGroupStart eg.mapHead
    let (eg', log') ← egAddMapGroup eg start eg.mapHead.groupCount
    pure (.again eg' (log ++ log'))

/-- The loop of `eg_alloc_extent`, for at most `fuel` rounds. -/
def egAllocLoop (preassigned : Option ℕ) (iptr : ExtentInversePointer) :
    ℕ → ExtentGroup → Option (ℕ × ExtentGroup × List EgRecord × List EgRecord)
  | 0, _ => none
  | fuel + 1, eg => do
    match ← egAllocRound eg preassigned iptr with
    | .returned block eg' log pending => pure (block, eg', log, pending)
    | .again eg' log => do
      let (block, eg'', log', pending) ← egAllocLoop preassigned iptr fuel eg'
      pure (block, eg'', log ++ log', pending)

def egAllocExtent (fuel : ℕ) (eg : ExtentGroup) (preassigned : Option ℕ) (iptr : ExtentInversePointer) :
    Option (ℕ × ExtentGroup × List EgRecord × List EgRecord) := do
  let (eg', log) := egCreateIfNecessary eg
  let (block, eg'', log', pending) ← egAllocLoop preassigned iptr fuel eg'
  pure (block, eg'', log ++ log', pending)

/-- The map head after an extent of map page `mapId` of group `mapGroup` was freed. -/
def MapHead.free (head : MapHead) (mapGroup mapId : ℕ) : MapHead :=
  { head with
    allocatedExtents := u32 (head.allocatedExtents + 2 ^ 32 - 1)
    freeGroup := if mapGroup < head.freeGroup then mapGroup else head.freeGroup
    groups := if mapId < (head.groups mapGroup).freePage then
        Function.update head.groups mapGroup { head.groups mapGroup with freePage := mapId }
      else head.groups }

def egFreeExtent (eg : ExtentGroup) (blocknum : ℕ) : Option (ExtentGroup × List EgRecord) := do
  let loc := egLocateMapByPageid eg.extentSize blocknum eg.mapHead
  if mapLocationIsInvalid loc then none
  else do
    let bitId := u16 loc.bitId
    let mapBlock := u32 (loc.mapId + loc.group.firstMap)
    let page ← egUnsetBitmapPage (eg.mapPages mapBlock) bitId
    let head := eg.mapHead.free loc.mapGroup loc.mapId
    pure ({ eg with mapHead := head, mapPages := Function.update eg.mapPages mapBlock page },
      [.freeBitmap mapBlock bitId page.toDfMapPage blocknum,
        .mapheadAllocatedExtents ⟨head.highWaterMark, head.allocatedExtents, head.freeGroup,
          (head.groups head.freeGroup).freePage⟩])

/-! ## The high water mark -/

/-- The loop of `shrink_hwm` over the bits of a map page, from bit `n - 1` down: the new high water mark, and
whether it cannot be lowered any more. -/
def shrinkBits (extentSize : ℕ) (page : MapPage) (hwm target : ℕ) : ℕ → ℕ → Option (ℕ × Bool)
  | 0, newHwm => some (newHwm, false)
  | lastBit + 1, newHwm =>
    let extent := u32 (page.firstPage + extentSize * lastBit)
    if u32 (extent + extentSize) ≤ target then some (newHwm, true)
    else if hwm ≤ extent then
      if lastBit ∈ page.bitmap then none else shrinkBits extentSize page hwm target lastBit newHwm
    else if lastBit ∈ page.bitmap then some (newHwm, true)
    else shrinkBits extentSize page hwm target lastBit extent

/-- The loop over the map pages of one group. -/
def shrinkPages (eg : ExtentGroup) (firstMap target : ℕ) : ℕ → ℕ → Option (ℕ × Bool)
  | 0, newHwm => some (newHwm, false)
  | j + 1, newHwm =>
    let page := eg.mapPages (u32 (firstMap + j))
    if eg.mapHead.highWaterMark ≤ page.firstPage then shrinkPages eg firstMap target j newHwm
    else do
      match ← shrinkBits eg.extentSize page eg.mapHead.highWaterMark target (page.dirtyLast + 1) newHwm with
      | (newHwm, true) => pure (newHwm, true)
      | (newHwm, false) => shrinkPages eg firstMap target j newHwm

/-- The loop over the map groups: the new high water mark and the new number of groups. -/
def shrinkGroups (eg : ExtentGroup) (target : ℕ) : ℕ → ℕ → ℕ → Option (ℕ × ℕ)
  | 0, newHwm, newCount => some (newHwm, newCount)
  | i + 1, newHwm, _ => do
    let group := eg.mapHead.groups i
    match ← shrinkPages eg group.firstMap target group.pageCount newHwm with
    | (newHwm, true) => pure (newHwm, i + 1)
    | (newHwm, false) => shrinkGroups eg target i newHwm (i + 1)

def shrinkHwm (eg : ExtentGroup) (target : ℕ) : Option (ExtentGroup × List EgRecord) :=
  if target % DF_FILE_EXTEND_STEP_BLOCKS = 0 then do
    let head := eg.mapHead
    let (newHwm, newCount) ← shrinkGroups eg target head.groupCount head.highWaterMark head.groupCount
    let aligned := u32 ((newHwm + DF_FILE_EXTEND_STEP_BLOCKS - 1) / DF_FILE_EXTEND_STEP_BLOCKS
      * DF_FILE_EXTEND_STEP_BLOCKS)
    let newHwm := if aligned < target then target else aligned
    if newHwm < head.highWaterMark then
      if newCount ≤ head.groupCount then
        pure ({ eg with mapHead := { head with highWaterMark := newHwm, groupCount := newCount } },
          [.spaceUpdateHwm newHwm head.highWaterMark head.groupCount newCount])
      else none
    else pure (eg, [])
  else none

end GaussKernel.Segment
