import GaussKernel.Undo.Ptr

/-!
# Undo zones

Model of `knl_uundozone.cpp`: the pointers of one undo zone, its two spaces (undo records and transaction
slots), and the operations that move them. An operation that writes WAL takes the log and returns it with
the record appended; `Wal.lsnOf n` is the position XLogInsert gives to the `n`-th undo record of the run.

`ExtendUndoLog` and `UnlinkUndoLog` enter here by what they do to the space itself, its tail and its head;
the segment files and the size counter they also update are modelled in `Undo.SpaceSize`.

Slot pointers follow `GetNextSlotPtr` of `knl_uundotxn.cpp`, which multiplies block numbers in 32 bits.
-/

namespace GaussKernel.Undo

/-- `UndoPersistence`. -/
inductive UndoPersistence where
  | permanent
  | unlogged
  | temp
  deriving DecidableEq

/-- The two spaces of a zone (`UndoSpaceType`). -/
inductive SpaceType where
  | undoLog
  | slot
  deriving DecidableEq

/-- Bytes of a segment file (`USEG_SIZE`). -/
def usegSize : SpaceType → Nat
  | .undoLog => undoLogSegmentSize
  | .slot => undoMetaSegmentSize

/-- Blocks of a segment file (`USEG_BLOCKS`). -/
def usegBlocks : SpaceType → Nat
  | .undoLog => undosegSize
  | .slot => undoMetaSegSize

/-- `UndoSpace`, without its lock. -/
structure UndoSpace where
  head : Nat
  tail : Nat
  lsn : Nat
  dirty : Bool
  deriving DecidableEq

/-! ## The log -/

/-- `XlogUndoDiscard`. -/
structure XlogUndoDiscard where
  endSlot : Nat
  startSlot : Nat
  recycleLoops : Nat
  recycledXid : Nat
  oldestXmin : Nat
  endUndoPtr : Nat
  deriving DecidableEq

/-- The undo WAL records: `XLOG_UNDO_EXTEND` and `XLOG_SLOT_EXTEND`, `XLOG_UNDO_UNLINK` and
`XLOG_SLOT_UNLINK`, `XLOG_UNDO_DISCARD`. -/
inductive UndoXlog where
  | extend (type : SpaceType) (prevtail tail : Nat)
  | unlink (type : SpaceType) (prevhead head : Nat)
  | discard (xlrec : XlogUndoDiscard)
  deriving DecidableEq

/-- The undo records written so far, each with its end position. -/
structure Wal where
  lsnOf : Nat → Nat
  log : List (Nat × UndoXlog)

/-- `WriteUndoXlog`: append a record and return its position. -/
def Wal.writeUndoXlog (w : Wal) (rec : UndoXlog) : Nat × Wal :=
  (w.lsnOf w.log.length, { w with log := w.log ++ [(w.lsnOf w.log.length, rec)] })

/-! ## Zones -/

/-- `UndoZone`: its pointers are zone offsets. -/
structure UndoZone where
  zid : Nat
  pLevel : UndoPersistence
  lsn : Nat
  insertURecPtr : Nat
  discardURecPtr : Nat
  forceDiscardURecPtr : Nat
  allocateTSlotPtr : Nat
  recycleTSlotPtr : Nat
  recycleXid : Nat
  dirty : Bool
  undoSpace : UndoSpace
  slotSpace : UndoSpace
  deriving DecidableEq

/-- `InitUndoSpace`. -/
def initUndoSpace : UndoSpace where
  head := 0
  tail := 0
  lsn := 0
  dirty := false

/-- A zone as `AllocateZoneMemory` creates it: the constructor followed by `InitZone`. -/
def initZone (zid : Nat) (pLevel : UndoPersistence) : UndoZone where
  zid := zid
  pLevel := pLevel
  lsn := 0
  insertURecPtr := undoLogBlockHeaderSize
  discardURecPtr := undoLogBlockHeaderSize
  forceDiscardURecPtr := undoLogBlockHeaderSize
  allocateTSlotPtr := undoLogBlockHeaderSize
  recycleTSlotPtr := undoLogBlockHeaderSize
  recycleXid := 0
  dirty := false
  undoSpace := initUndoSpace
  slotSpace := initUndoSpace

namespace UndoZone

variable (z : UndoZone)

def getInsertURecPtr : Nat := makeUndoPtr z.zid z.insertURecPtr

def getDiscardURecPtr : Nat := makeUndoPtr z.zid z.discardURecPtr

def getForceDiscardURecPtr : Nat := makeUndoPtr z.zid z.forceDiscardURecPtr

def getAllocateTSlotPtr : Nat := makeUndoPtr z.zid z.allocateTSlotPtr

def getRecycleTSlotPtr : Nat := makeUndoPtr z.zid z.recycleTSlotPtr

def setInsertURecPtr (insert : Nat) : UndoZone :=
  { z with insertURecPtr := undoPtrGetOffset insert }

def setDiscardURecPtr (discard : Nat) : UndoZone :=
  { z with discardURecPtr := undoPtrGetOffset discard }

def setForceDiscardURecPtr (discard : Nat) : UndoZone :=
  { z with forceDiscardURecPtr := undoPtrGetOffset discard }

def setAllocateTSlotPtr (allocate : Nat) : UndoZone :=
  { z with allocateTSlotPtr := undoPtrGetOffset allocate }

def setRecycleTSlotPtr (recycle : Nat) : UndoZone :=
  { z with recycleTSlotPtr := undoPtrGetOffset recycle }

/-- `GetSpace`. -/
def getSpace : SpaceType → UndoSpace
  | .undoLog => z.undoSpace
  | .slot => z.slotSpace

/-- Replace one of the spaces. -/
def setSpace (type : SpaceType) (usp : UndoSpace) : UndoZone :=
  match type with
  | .undoLog => { z with undoSpace := usp }
  | .slot => { z with slotSpace := usp }

end UndoZone

/-! ## Slot pointers -/

/-- Bytes of a transaction slot (`MAXALIGN(sizeof(TransactionSlot))`). -/
abbrev sizeofTransactionSlot : Nat := 32

/-- `GetNextSlotPtr`. The block number is a `uint32` and is multiplied by `BLCKSZ` as one. -/
def getNextSlotPtr (slotPtr : Nat) : Nat :=
  let slotOffset := undoPtrGetOffset slotPtr
  let block := slotOffset / blcksz
  let offset := slotOffset % blcksz + sizeofTransactionSlot
  if (blcksz + 2 ^ 64 - offset) % 2 ^ 64 < sizeofTransactionSlot then
    makeUndoPtr (undoPtrGetZoneId slotPtr) ((block + 1) * blcksz % 2 ^ 32 + undoLogBlockHeaderSize)
  else
    makeUndoPtr (undoPtrGetZoneId slotPtr) (offset + block * blcksz % 2 ^ 32)

/-! ## Space allocation and release -/

namespace UndoZone

/-- The common body of `AllocateSpace` and `AllocateSlotSpace`: extend a space whose tail the new
insertion point passes, to the end of the segment of that point. -/
def extendSpace (z : UndoZone) (w : Wal) (type : SpaceType) (newInsert : Nat) : UndoZone × Wal :=
  let usp := z.getSpace type
  if usp.tail < newInsert then
    let usp' := { usp with tail := newInsert + usegSize type - newInsert % usegSize type }
    if z.pLevel = .permanent then
      let (lsn, w') := w.writeUndoXlog
        (.extend type (makeUndoPtr z.zid usp.tail) (makeUndoPtr z.zid usp'.tail))
      (z.setSpace type { usp' with dirty := true, lsn := lsn }, w')
    else
      (z.setSpace type usp', w)
  else
    (z, w)

/-- `AllocateSpace`: room for `size` bytes of undo records. -/
def allocateSpace (z : UndoZone) (w : Wal) (size : Nat) : Nat × UndoZone × Wal :=
  (makeUndoPtr z.zid z.insertURecPtr,
    z.extendSpace w .undoLog (undoLogOffsetPlusUsableBytes z.insertURecPtr size))

/-- `AllocateSlotSpace`: room for one transaction slot. -/
def allocateSlotSpace (z : UndoZone) (w : Wal) : Nat × UndoZone × Wal :=
  (makeUndoPtr z.zid z.allocateTSlotPtr,
    z.extendSpace w .slot (undoLogOffsetPlusUsableBytes z.allocateTSlotPtr sizeofTransactionSlot))

/-- The common body of `ReleaseSpace` and `ReleaseSlotSpace`: unlink the whole segments below the end
pointer. -/
def releaseBelow (z : UndoZone) (w : Wal) (type : SpaceType) (endPtr : Nat) : UndoZone × Wal :=
  let usp := z.getSpace type
  let startSegno := usp.head / usegSize type
  let endSegno := undoPtrGetOffset endPtr / usegSize type
  if startSegno < endSegno then
    let usp' := { usp with head := endSegno * usegSize type }
    if z.pLevel = .permanent then
      let (lsn, w') := w.writeUndoXlog
        (.unlink type (makeUndoPtr z.zid usp.head) (makeUndoPtr z.zid usp'.head))
      (z.setSpace type { usp' with dirty := true, lsn := lsn }, w')
    else
      (z.setSpace type usp', w)
  else
    (z, w)

/-- `ReleaseSpace`. -/
def releaseSpace (z : UndoZone) (w : Wal) (endurp : Nat) : UndoZone × Wal :=
  z.releaseBelow w .undoLog endurp

/-- `ReleaseSlotSpace`. -/
def releaseSlotSpace (z : UndoZone) (w : Wal) (endSlotPtr : Nat) : UndoZone × Wal :=
  z.releaseBelow w .slot endSlotPtr

/-- `PrepareSwitch`: an undo zone whose last segment is in use is closed. `none` is its PANIC. -/
def prepareSwitch (z : UndoZone) : Option UndoZone :=
  if z.undoSpace.tail ≠ undoLogMaxSize then
    none
  else if z.pLevel = .permanent then
    some { z with dirty := true, insertURecPtr := undoLogMaxSize }
  else
    some z

/-- `AdvanceInsertURecPtr`: the offset is not masked. -/
def advanceInsertURecPtr (z : UndoZone) (oldInsert size : Nat) : UndoZone :=
  { z with insertURecPtr := undoLogOffsetPlusUsableBytes oldInsert size }

/-- `PrepareUndoMeta`: the insertion pointer moves behind the last record of a batch. `none` is its
PANIC. -/
def prepareUndoMeta (z : UndoZone) (lastRecord lastRecordSize : Nat) : Option UndoZone :=
  let z := if z.pLevel = .permanent then { z with dirty := true } else z
  let z := z.advanceInsertURecPtr (undoPtrGetOffset lastRecord) lastRecordSize
  if z.getInsertURecPtr < z.getForceDiscardURecPtr then none else some z

/-- `AllocTransactionSlot`, as far as the zone is concerned. -/
def allocTransactionSlot (z : UndoZone) (slotPtr : Nat) : UndoZone :=
  { z with allocateTSlotPtr := undoPtrGetOffset (getNextSlotPtr slotPtr) }

/-- `SetUndoMetaLSN`. -/
def setUndoMetaLSN (z : UndoZone) (lsn : Nat) : UndoZone :=
  { z with lsn := lsn }

/-- `CheckRecycle`. -/
def checkRecycle (z : UndoZone) (starturp endurp : Nat) : Bool :=
  let start := undoPtrGetOffset starturp
  let stop := undoPtrGetOffset endurp
  undoPtrGetZoneId starturp = undoPtrGetZoneId endurp ∧ z.forceDiscardURecPtr ≤ z.insertURecPtr ∧
    stop ≤ z.insertURecPtr ∧ start < stop

end UndoZone

end GaussKernel.Undo
