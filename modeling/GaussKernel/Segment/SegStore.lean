import GaussKernel.Segment.ExtentRedo

/-!
# The segment store

Segments are built from the extents of a segment space. The metadata of a segment are pages of their own, each
in an extent of size 1 of the main fork: segment heads, level-0 pages of the block map tree, and for hashbucket
tables the main head and the map blocks. The functions of `segstore.cpp` and `space.cpp` that change them are
embedded here. Each runs as one atomic operation: the pages it changes are registered with an operation code and
data, and one log record is written when it commits. What `eg_alloc_extent` logs itself (new files, new map
groups) is written at once, before that record.

`none` is a PANIC, a page that is not of the kind the function takes it for, or an index behind the end of an
array.
-/

namespace GaussKernel.Segment

open Function (update update_self update_of_ne)

abbrev BMT_HEADER_LEVEL0_SLOTS : ℕ := 1255
abbrev BMT_HEADER_LEVEL1_SLOTS : ℕ := 256
abbrev BMT_LEVEL0_SLOTS : ℕ := 2000
abbrev MAX_BUCKETMAPLEN : ℕ := 16384
abbrev BktMapEntryNumberPerBlock : ℕ := 2038
abbrev BktMapBlockNumber : ℕ := 25
abbrev SEGMENT_HEAD_EXTENT_SIZE : ℕ := 1
abbrev MAIN_FORKNUM : ℕ := 0
abbrev SEGMENT_MAX_FORKNUM : ℕ := 2

/-! ## Pages -/

structure SegmentHead where
  lsn : ℕ
  nblocks : ℕ
  nextents : ℕ
  totalBlocks : ℕ
  level0Slots : ℕ → ℕ
  level1Slots : ℕ → ℕ
  forkHead : ℕ → ℕ

structure BMTLevel0Page where
  slots : ℕ → ℕ

structure SegRedisInfo where
  redisXid : ℕ
  nwords : ℕ
  words : ℕ → ℕ

structure BktMainHead where
  lsn : ℕ
  redisInfo : SegRedisInfo
  bktMap : ℕ → ℕ

structure BktHeadMapBlock where
  lsn : ℕ
  headBlock : ℕ → ℕ

/-- A metadata page by its magic number. -/
inductive SegPage where
  | empty
  | segmentHead (head : SegmentHead)
  | level0 (page : BMTLevel0Page)
  | bktMain (head : BktMainHead)
  | bktMap (block : BktHeadMapBlock)

/-- `SegSpace`: the extent groups by extent size and fork, and the metadata pages by block number. -/
structure SegSpace where
  extentGroup : ℕ → ℕ → ExtentGroup
  segPages : ℕ → SegPage

/-! ## Log records -/

/-- `XLogDataUpdateSegmentHead`; a slot of -1 is `none`. -/
structure UpdateSegmentHeadData where
  level0Slot : Option ℕ
  level0Value : ℕ
  level1Slot : Option ℕ
  level1Value : ℕ
  nblocks : ℕ
  totalBlocks : ℕ
  nextents : ℕ

/-- Where an owner keeps the pointer to a segment head, which the source gives as an offset in the page. -/
inductive OwnerPointer where
  | forkHead (i : ℕ)
  | headBlock (k : ℕ)

/-- The operation codes on metadata pages with their data, and the extension of the logical size of a segment,
which is a record of its own. -/
inductive SegRecord where
  | initSeghead (lsn : ℕ)
  | updateSeghead (data : UpdateSegmentHeadData)
  | newLevel0Page (firstExtent : ℕ)
  | level0PageAddExtent (slot extent : ℕ)
  | segheadAddForkSegment (forknum forkhead : ℕ)
  | unlinkSegheadPtr (offset : OwnerPointer)
  | initBucketHead (lsn : ℕ)
  | bucketFreeMapblock (mapId : ℕ)
  | bucketAddMapblock (blockid mapblock : ℕ)
  | bucketInitMapblock (lsn : ℕ)
  | bucketAddBkthead (mapEntryId headBlock : ℕ)
  | segMoveBuckets (entries : List (ℕ × ℕ))
  | bucketAddRedisinfo (info : SegRedisInfo)
  | shrinkSegheadUpdate (extentId newExtent oldExtent : ℕ)
  | segmentExtend (oldNblocks newNblocks : ℕ)

/-- A record with the page it is about. -/
inductive SpaceRecord where
  | eg (extentSize forknum : ℕ) (record : EgRecord)
  | seg (block : ℕ) (record : SegRecord)

/-! ## Atomic operations -/

/-- The state within an atomic operation: the records already written, and the ones registered. -/
structure AtomicOp where
  space : SegSpace
  log : List SpaceRecord
  pending : List SpaceRecord

def AtomicOp.start (space : SegSpace) : AtomicOp := ⟨space, [], []⟩

/-- What the operation leaves in the log when it commits. Each page is registered once, so the blocks of the
record are the registered operations in order. -/
def AtomicOp.wal (op : AtomicOp) : List SpaceRecord := op.log ++ op.pending

def SegSpace.setGroup (space : SegSpace) (extentSize forknum : ℕ) (eg : ExtentGroup) : SegSpace :=
  { space with
    extentGroup := update space.extentGroup extentSize
      (update (space.extentGroup extentSize) forknum eg) }

def SegSpace.setPage (space : SegSpace) (block : ℕ) (page : SegPage) : SegSpace :=
  { space with segPages := update space.segPages block page }

/-- A page is changed and its operation registered. -/
def AtomicOp.registerPage (op : AtomicOp) (block : ℕ) (page : SegPage) (record : SegRecord) : AtomicOp :=
  { op with space := op.space.setPage block page, pending := op.pending ++ [.seg block record] }

/-- `spc_alloc_extent`, for at most `fuel` rounds of the loop of `eg_alloc_extent`. -/
def spcAllocExtent (fuel : ℕ) (op : AtomicOp) (extentSize forknum : ℕ) (preassigned : Option ℕ)
    (iptr : ExtentInversePointer) : Option (ℕ × AtomicOp) := do
  let (block, eg, log, pending) ← egAllocExtent fuel (op.space.extentGroup extentSize forknum) preassigned iptr
  pure (block,
    { space := op.space.setGroup extentSize forknum eg
      log := op.log ++ log.map (.eg extentSize forknum)
      pending := op.pending ++ pending.map (.eg extentSize forknum) })

def spcFreeExtent (op : AtomicOp) (extentSize forknum blocknum : ℕ) : Option AtomicOp :=
  if (op.space.extentGroup extentSize forknum).totalBlocks = 0 then none
  else do
    let (eg, pending) ← egFreeExtent (op.space.extentGroup extentSize forknum) blocknum
    pure { op with
      space := op.space.setGroup extentSize forknum eg
      pending := op.pending ++ pending.map (.eg extentSize forknum) }

/-! ## The block map tree -/

def extentSizeByCount (count : ℕ) : ℕ :=
  if count < 16 then 8 else if count < 143 then 128 else if count < 255 then 1024 else 8192

def extentIdToLevel1Slot (extentId : ℕ) : ℕ := (extentId - BMT_HEADER_LEVEL0_SLOTS) / BMT_LEVEL0_SLOTS

def extentIdToLevel0PageOffset (extentId : ℕ) : ℕ := (extentId - BMT_HEADER_LEVEL0_SLOTS) % BMT_LEVEL0_SLOTS

/-- The first logical block of an extent, so the number of blocks in front of it. -/
def extentIdToLogicBlockNum (extentId : ℕ) : ℕ :=
  if extentId < 16 then extentId * 8
  else if extentId < 143 then (extentId - 16) * 128 + 128
  else if extentId < 255 then (extentId - 143) * 1024 + 16384
  else (extentId - 255) * 8192 + 131072

def requireNewLevel0Page (newExtentId : ℕ) : Prop :=
  BMT_HEADER_LEVEL0_SLOTS ≤ newExtentId ∧ (newExtentId - BMT_HEADER_LEVEL0_SLOTS) % BMT_LEVEL0_SLOTS = 0

instance (newExtentId : ℕ) : Decidable (requireNewLevel0Page newExtentId) :=
  inferInstanceAs (Decidable (_ ∧ _))

def SegSpace.segmentHead (space : SegSpace) (block : ℕ) : Option SegmentHead :=
  match space.segPages block with
  | .segmentHead head => some head
  | _ => none

def SegSpace.level0Page (space : SegSpace) (block : ℕ) : Option BMTLevel0Page :=
  match space.segPages block with
  | .level0 page => some page
  | _ => none

def SegSpace.bktMainHead (space : SegSpace) (block : ℕ) : Option BktMainHead :=
  match space.segPages block with
  | .bktMain head => some head
  | _ => none

def SegSpace.bktHeadMapBlock (space : SegSpace) (block : ℕ) : Option BktHeadMapBlock :=
  match space.segPages block with
  | .bktMap map => some map
  | _ => none

def segExtentLocation (space : SegSpace) (head : SegmentHead) (extentId : ℕ) : Option ℕ :=
  if extentId < BMT_HEADER_LEVEL0_SLOTS then some (head.level0Slots extentId)
  else do
    let page ← space.level0Page (head.level1Slots (extentIdToLevel1Slot extentId))
    pure (page.slots (extentIdToLevel0PageOffset extentId))

/-! ## Inverse pointers -/

inductive ExtentUsageType where
  | notUsed
  | segmentHead
  | forkHead
  | bucketSegment
  | bucketMap
  | bucketHead
  | dataExtent

def ExtentUsageType.toNat : ExtentUsageType → ℕ
  | notUsed => 0
  | segmentHead => 1
  | forkHead => 2
  | bucketSegment => 3
  | bucketMap => 4
  | bucketHead => 5
  | dataExtent => 6

/-- `SPC_INVRSPTR_ASSEMBLE_FLAG`: 18 bits of special data, the usage in the four highest bits. -/
def assembleFlag (usage : ExtentUsageType) (specialData : ℕ) : ℕ :=
  specialData % 2 ^ 18 + usage.toNat * 2 ^ 28

/-! ## Extending and shrinking a segment -/

/-- `seg_head_update_xlog`: the page of the head gets the changed fields, and the record the new values of one
slot of each level at most. -/
def segHeadUpdateXlog (op : AtomicOp) (headBlock : ℕ) (head : SegmentHead) (level0Slot level1Slot : Option ℕ) :
    AtomicOp :=
  op.registerPage headBlock (.segmentHead head) (.updateSeghead
    { level0Slot := level0Slot
      level0Value := (level0Slot.map head.level0Slots).getD InvalidBlockNumber
      level1Slot := level1Slot
      level1Value := (level1Slot.map head.level1Slots).getD InvalidBlockNumber
      nblocks := head.nblocks
      totalBlocks := head.totalBlocks
      nextents := head.nextents })

/-- The page of a level-0 block with its first slot set. -/
def initLevel0Page (firstExtent : ℕ) : BMTLevel0Page := ⟨update (fun _ => 0) 0 firstExtent⟩

def segRecordNewExtentOnLevel0Page (op : AtomicOp) (head : SegmentHead) (newExtentId newExtent : ℕ) :
    Option AtomicOp := do
  let block := head.level1Slots (extentIdToLevel1Slot newExtentId)
  let offset := extentIdToLevel0PageOffset newExtentId
  let page ← op.space.level0Page block
  pure (op.registerPage block (.level0 ⟨update page.slots offset newExtent⟩)
    (.level0PageAddExtent offset newExtent))

/-- The head with one more extent. -/
def SegmentHead.addExtent (head : SegmentHead) : SegmentHead :=
  { head with
    nextents := u32 (head.nextents + 1)
    totalBlocks := u32 (head.totalBlocks + extentSizeByCount head.nextents) }

/-- The head without its last extent. -/
def SegmentHead.dropExtent (head : SegmentHead) : SegmentHead :=
  { head with
    nextents := head.nextents - 1
    totalBlocks := u32 (head.totalBlocks + 2 ^ 32 - extentSizeByCount (head.nextents - 1)) }

def SegmentHead.setLevel0 (head : SegmentHead) (slot block : ℕ) : SegmentHead :=
  { head with level0Slots := update head.level0Slots slot block }

def SegmentHead.setLevel1 (head : SegmentHead) (slot block : ℕ) : SegmentHead :=
  { head with level1Slots := update head.level1Slots slot block }

/-- `seg_init_new_level0_page`; the head is read again, because it is a page like the new one. -/
def segInitNewLevel0Page (op : AtomicOp) (newExtentId headBlock newLevel0Page firstExtent : ℕ) :
    Option AtomicOp := do
  let op := op.registerPage newLevel0Page (.level0 (initLevel0Page firstExtent)) (.newLevel0Page firstExtent)
  let head ← op.space.segmentHead headBlock
  let slot := extentIdToLevel1Slot newExtentId
  if slot < BMT_HEADER_LEVEL1_SLOTS then
    pure (segHeadUpdateXlog op headBlock (head.addExtent.setLevel1 slot newLevel0Page) none (some slot))
  else none

def segExtendSegment (fuel : ℕ) (space : SegSpace) (forknum headBlock : ℕ) : Option AtomicOp := do
  let head ← space.segmentHead headBlock
  let newExtentId := head.nextents
  let iptr : ExtentInversePointer := ⟨assembleFlag .dataExtent newExtentId, headBlock⟩
  let (newExtent, op) ← spcAllocExtent fuel (.start space) (extentSizeByCount newExtentId) forknum none iptr
  if newExtentId < BMT_HEADER_LEVEL0_SLOTS then
    pure (segHeadUpdateXlog op headBlock (head.addExtent.setLevel0 newExtentId newExtent) (some newExtentId) none)
  else if requireNewLevel0Page newExtentId then do
    let (level0Page, op) ← spcAllocExtent fuel op SEGMENT_HEAD_EXTENT_SIZE MAIN_FORKNUM none iptr
    segInitNewLevel0Page op newExtentId headBlock level0Page newExtent
  else do
    let op ← segRecordNewExtentOnLevel0Page op head newExtentId newExtent
    pure (segHeadUpdateXlog op headBlock head.addExtent none none)

/-- `free_last_extent`, with the check after the commit. -/
def freeLastExtent (space : SegSpace) (forknum headBlock : ℕ) : Option AtomicOp := do
  let head ← space.segmentHead headBlock
  if head.nextents = 0 then none
  else do
    let lastExtId := head.nextents - 1
    let extBlk ← segExtentLocation space head lastExtId
    let op ← spcFreeExtent (.start space) (extentSizeByCount lastExtId) forknum extBlk
    let head' := head.dropExtent
    if head'.totalBlocks = 0 ∧ head'.nextents ≠ 0 then none
    else if requireNewLevel0Page lastExtId then do
      let level1Slot := extentIdToLevel1Slot lastExtId
      let op ← spcFreeExtent op SEGMENT_HEAD_EXTENT_SIZE MAIN_FORKNUM (head.level1Slots level1Slot)
      pure (segHeadUpdateXlog op headBlock (head'.setLevel1 level1Slot InvalidBlockNumber) none (some level1Slot))
    else pure (segHeadUpdateXlog op headBlock head' none none)

/-- The part of `seg_extend` that sets the number of blocks of a segment. -/
def segExtend (space : SegSpace) (headBlock blocknum : ℕ) : Option AtomicOp := do
  let head ← space.segmentHead headBlock
  if head.nblocks ≤ blocknum then
    pure (AtomicOp.registerPage (.start space) headBlock
      (.segmentHead { head with nblocks := u32 (blocknum + 1) }) (.segmentExtend head.nblocks (u32 (blocknum + 1))))
  else pure (.start space)

/-! ## Segment heads -/

/-- `eg_init_segment_head_buffer_content` -/
def initSegmentHead (block lsn : ℕ) : SegmentHead where
  lsn := lsn
  nblocks := 0
  nextents := 0
  totalBlocks := 0
  level0Slots := update (fun _ => 0) 0 block
  level1Slots := fun _ => 0
  forkHead := fun i =>
    if i = MAIN_FORKNUM then block else if i ≤ SEGMENT_MAX_FORKNUM then InvalidBlockNumber else 0

def normalAllocSegment (fuel : ℕ) (op : AtomicOp) (preassigned : Option ℕ) (iptr : ExtentInversePointer)
    (lsn : ℕ) : Option (ℕ × AtomicOp) := do
  let (block, op) ← spcAllocExtent fuel op SEGMENT_HEAD_EXTENT_SIZE MAIN_FORKNUM preassigned iptr
  pure (block, op.registerPage block (.segmentHead (initSegmentHead block lsn)) (.initSeghead lsn))

/-- `seg_alloc_segment` of a table without buckets. -/
def segAllocSegment (fuel : ℕ) (space : SegSpace) (preassigned : Option ℕ) (lsn : ℕ) : Option (ℕ × AtomicOp) :=
  normalAllocSegment fuel (.start space) preassigned ⟨assembleFlag .segmentHead 0, InvalidBlockNumber⟩ lsn

/-- `normal_open_segment` with `create`: the segment of another fork is created unless it exists. -/
def normalOpenSegment (fuel : ℕ) (space : SegSpace) (mainBlock forknum lsn : ℕ) : Option AtomicOp := do
  let main ← space.segmentHead mainBlock
  if forknum = MAIN_FORKNUM ∨ SEGMENT_MAX_FORKNUM < forknum then none
  else if main.forkHead forknum = InvalidBlockNumber then do
    let (newHead, op) ← normalAllocSegment fuel (.start space) none ⟨assembleFlag .forkHead forknum, mainBlock⟩ lsn
    let main ← op.space.segmentHead mainBlock
    pure (op.registerPage mainBlock
      (.segmentHead { main with forkHead := update main.forkHead forknum newHead })
      (.segheadAddForkSegment forknum newHead))
  else pure (.start space)

/-- The pointer of an owner is reset. -/
def SegPage.unlink : SegPage → OwnerPointer → Option SegPage
  | .segmentHead head, .forkHead i =>
    some (.segmentHead { head with forkHead := update head.forkHead i InvalidBlockNumber })
  | .bktMap map, .headBlock k =>
    some (.bktMap { map with headBlock := update map.headBlock k InvalidBlockNumber })
  | _, _ => none

/-- The last step of `free_one_segment`: the head block is freed and its owner's pointer reset. -/
def unlinkSegment (space : SegSpace) (headBlock ownerBlock : ℕ) (offset : OwnerPointer) : Option AtomicOp := do
  let op ← spcFreeExtent (.start space) SEGMENT_HEAD_EXTENT_SIZE MAIN_FORKNUM headBlock
  let page ← (op.space.segPages ownerBlock).unlink offset
  pure (op.registerPage ownerBlock page (.unlinkSegheadPtr offset))

/-! ## Buckets -/

def initBktMainHead (lsn : ℕ) : BktMainHead where
  lsn := lsn
  redisInfo := ⟨0, 0, fun _ => 0⟩
  bktMap := fun _ => 0

def initBktHeadMapBlock (lsn : ℕ) : BktHeadMapBlock where
  lsn := lsn
  headBlock := fun j => if j < BktMapEntryNumberPerBlock then InvalidBlockNumber else 0

/-- The first operation of `bucket_alloc_segment`, which creates the main head. -/
def bucketAllocMainHead (fuel : ℕ) (space : SegSpace) (lsn : ℕ) : Option (ℕ × AtomicOp) := do
  let (block, op) ← spcAllocExtent fuel (.start space) SEGMENT_HEAD_EXTENT_SIZE MAIN_FORKNUM none
    ⟨assembleFlag .bucketSegment 0, InvalidBlockNumber⟩
  pure (block, op.registerPage block (.bktMain (initBktMainHead lsn)) (.initBucketHead lsn))

def bucketEnsureMapblock (fuel : ℕ) (space : SegSpace) (mainBlock blockid lsn : ℕ) : Option AtomicOp := do
  let main ← space.bktMainHead mainBlock
  if BktMapBlockNumber ≤ blockid then none
  else if main.bktMap blockid = 0 then do
    let (newmap, op) ← spcAllocExtent fuel (.start space) SEGMENT_HEAD_EXTENT_SIZE MAIN_FORKNUM none
      ⟨assembleFlag .bucketMap blockid, mainBlock⟩
    let op := op.registerPage newmap (.bktMap (initBktHeadMapBlock lsn)) (.bucketInitMapblock lsn)
    let main ← op.space.bktMainHead mainBlock
    pure (op.registerPage mainBlock (.bktMain { main with bktMap := update main.bktMap blockid newmap })
      (.bucketAddMapblock blockid newmap))
  else pure (.start space)

/-- `bucket_get_mapentry`: the map block and the entry of a bucket. -/
def bucketGetMapentry (main : BktMainHead) (bucketid forknum : ℕ) : Option (ℕ × ℕ) :=
  let k := forknum * MAX_BUCKETMAPLEN + bucketid
  let mapBlock := main.bktMap (k / BktMapEntryNumberPerBlock)
  if mapBlock = 0 then none else some (mapBlock, k % BktMapEntryNumberPerBlock)

/-- `bucket_open_segment` with `create`: the head of a bucket is created unless it exists. -/
def bucketOpenSegment (fuel : ℕ) (space : SegSpace) (mainBlock bucketid forknum lsn : ℕ) : Option AtomicOp := do
  let main ← space.bktMainHead mainBlock
  let (mapBlock, entry) ← bucketGetMapentry main bucketid forknum
  if mapBlock = InvalidBlockNumber then none
  else do
    let map ← space.bktHeadMapBlock mapBlock
    if map.headBlock entry = InvalidBlockNumber then do
      let (head, op) ← normalAllocSegment fuel (.start space) none
        ⟨assembleFlag .bucketHead (forknum * MAX_BUCKETMAPLEN + bucketid), mainBlock⟩ lsn
      let map ← op.space.bktHeadMapBlock mapBlock
      pure (op.registerPage mapBlock (.bktMap { map with headBlock := update map.headBlock entry head })
        (.bucketAddBkthead entry head))
    else pure (.start space)

def bucketFreeOneMapblock (space : SegSpace) (mainBlock mapId : ℕ) : Option AtomicOp := do
  let main ← space.bktMainHead mainBlock
  let op ← spcFreeExtent (.start space) SEGMENT_HEAD_EXTENT_SIZE MAIN_FORKNUM (main.bktMap mapId)
  pure (op.registerPage mainBlock
    (.bktMain { main with bktMap := update main.bktMap mapId InvalidBlockNumber })
    (.bucketFreeMapblock mapId))

/-! ## Moving an extent -/

/-- The first operation of `move_data_extent`: the extent with the given inverse pointer is replaced by a new one
in the block map tree of its segment. The old extent is freed by an operation of its own. -/
def moveDataExtent (fuel : ℕ) (space : SegSpace) (extentSize forknum extent : ℕ) (iptr : ExtentInversePointer) :
    Option AtomicOp := do
  let extentId := iptr.flag % 2 ^ 18
  let head ← space.segmentHead iptr.owner
  if head.nextents ≤ extentId then pure (.start space)
  else do
    let curr ← segExtentLocation space head extentId
    if curr ≠ extent then pure (.start space)
    else do
      let (newExtent, op) ← spcAllocExtent fuel (.start space) extentSize forknum none iptr
      if extentId < BMT_HEADER_LEVEL0_SLOTS then
        pure (op.registerPage iptr.owner (.segmentHead (head.setLevel0 extentId newExtent))
          (.shrinkSegheadUpdate extentId newExtent extent))
      else do
        let op ← segRecordNewExtentOnLevel0Page op head extentId newExtent
        let head ← op.space.segmentHead iptr.owner
        pure (op.registerPage iptr.owner (.segmentHead head) (.shrinkSegheadUpdate extentId newExtent extent))

/-- `shrink_hwm` of one extent group. -/
def spcShrinkHwm (space : SegSpace) (extentSize forknum target : ℕ) : Option AtomicOp := do
  let (eg, pending) ← shrinkHwm (space.extentGroup extentSize forknum) target
  pure ⟨space.setGroup extentSize forknum eg, [], pending.map (.eg extentSize forknum)⟩

/-! ## Groups and pages of a space -/

section Space

variable {space space' : SegSpace} {n f block : ℕ} {eg eg' : ExtentGroup}

/-- The group that was set is read back. -/
@[simp]
lemma setGroup_self : (space.setGroup n f eg).extentGroup n f = eg := by
  unfold SegSpace.setGroup
  dsimp only
  rw [update_self, update_self]

/-- The other groups are kept. -/
lemma setGroup_of_ne {n' f' : ℕ} (h : ¬ (n' = n ∧ f' = f)) :
    (space.setGroup n f eg).extentGroup n' f' = space.extentGroup n' f' := by
  unfold SegSpace.setGroup
  dsimp only
  rcases eq_or_ne n' n with rfl | hn
  · rw [update_self, update_of_ne fun hf => h ⟨rfl, hf⟩]
  · rw [update_of_ne hn]

/-- A page keeps the groups. -/
@[simp]
lemma setPage_extentGroup {page : SegPage} : (space.setPage block page).extentGroup = space.extentGroup := rfl

/-- Spaces with the same groups and pages are equal. -/
lemma SegSpace.ext_groups (hg : ∀ n f, space.extentGroup n f = space'.extentGroup n f)
    (hp : space.segPages = space'.segPages) : space = space' := by
  cases space
  cases space'
  congr
  funext n f
  exact hg n f

/-- Of two settings of a group the second counts. -/
lemma setGroup_setGroup : (space.setGroup n f eg).setGroup n f eg' = space.setGroup n f eg' := by
  refine SegSpace.ext_groups (fun n' f' => ?_) rfl
  by_cases h : n' = n ∧ f' = f
  · obtain ⟨rfl, rfl⟩ := h
    rw [setGroup_self, setGroup_self]
  · rw [setGroup_of_ne h, setGroup_of_ne h, setGroup_of_ne h]

/-- Setting a group to what it is changes nothing. -/
lemma setGroup_get : space.setGroup n f (space.extentGroup n f) = space := by
  refine SegSpace.ext_groups (fun n' f' => ?_) rfl
  by_cases h : n' = n ∧ f' = f
  · obtain ⟨rfl, rfl⟩ := h
    rw [setGroup_self]
  · rw [setGroup_of_ne h]

/-- Settings of different groups commute. -/
lemma setGroup_comm {n' f' : ℕ} (h : ¬ (n' = n ∧ f' = f)) :
    (space.setGroup n f eg).setGroup n' f' eg' = (space.setGroup n' f' eg').setGroup n f eg := by
  have h' : ¬ (n = n' ∧ f = f') := fun hn => h ⟨hn.1.symm, hn.2.symm⟩
  refine SegSpace.ext_groups (fun n₁ f₁ => ?_) rfl
  by_cases h₁ : n₁ = n ∧ f₁ = f
  · obtain ⟨rfl, rfl⟩ := h₁
    rw [setGroup_of_ne h', setGroup_self, setGroup_self]
  · rw [setGroup_of_ne h₁]
    by_cases h₂ : n₁ = n' ∧ f₁ = f'
    · obtain ⟨rfl, rfl⟩ := h₂
      rw [setGroup_self, setGroup_self]
    · rw [setGroup_of_ne h₂, setGroup_of_ne h₂, setGroup_of_ne h₁]

end Space

end GaussKernel.Segment
