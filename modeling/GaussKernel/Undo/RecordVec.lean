import GaussKernel.Undo.RecordLoad

/-!
# Undo record vectors

Model of `PrepareUndoRecord` and `InsertPreparedUndo` (`access/ustore/knl_uundovec.cpp`): a vector of
records gets consecutive undo pointers and the list `ubuffers` of the pages they lie on, and is then
written to these pages record by record.

The undo pages are an arbitrary `UndoPages` at the moment `InsertPreparedUndo` starts, so that nothing
depends on what the buffer manager delivered for a page (`RBM_NORMAL` or `RBM_ZERO`). A buffer is
identified with the page it holds. Where the vector starts is what `AllocateUndoSpace` returned or what
the WAL record says; both are the argument `undoPtr`, and `needSwitch` is the result of
`CheckNeedSwitch`. The comparison of the last record's size with the WAL record is not modelled.
-/

namespace GaussKernel.Undo

open Lib

/-! ## Page headers -/

/-- `pd_lower` of a page. -/
def pdLower (page : Mem) : Nat :=
  ofLE (page.read 12 2)

/-- `pd_upper` of a page. -/
def pdUpper (page : Mem) : Nat :=
  ofLE (page.read 14 2)

/-- Set `pd_lower`, a `uint16`. -/
def setPdLower (page : Mem) (v : Nat) : Mem :=
  page.write 12 (toLE 2 v)

/-- Set `pd_upper`, a `uint16`. -/
def setPdUpper (page : Mem) (v : Nat) : Mem :=
  page.write 14 (toLE 2 v)

/-- `PageGetLSN`: the high half comes first. -/
def pageGetLSN (page : Mem) : Nat :=
  ofLE (page.read 0 4) * 2 ^ 32 + ofLE (page.read 4 4)

/-- `PageSetLSN`. -/
def pageSetLSN (page : Mem) (lsn : Nat) : Mem :=
  (page.write 0 (toLE 4 (lsn / 2 ^ 32))).write 4 (toLE 4 lsn)

/-- `PageIsNew`. -/
def pageIsNew (page : Mem) : Bool :=
  pdUpper page == 0

/-- `PageInit(page, BLCKSZ, 0)`: all bytes zero, then `pd_upper`, `pd_special`, `pd_lower` and the page
    size with the layout version 5. -/
def pageInit : Mem :=
  ((setPdLower ((setPdUpper (fun _ => 0) blcksz).write 16 (toLE 2 blcksz))
    undoLogBlockHeaderSize).write 18 (toLE 2 (blcksz ||| 5)))

/-- A new undo page of zone `zid` whose first record starts at `startingByte`; `pd_prune_xid` holds the
    zone. -/
def newUndoPage (zid startingByte : Nat) : Mem :=
  setPdUpper (pageInit.write 20 (toLE 4 zid)) startingByte

/-- Replace one page. -/
def UndoPages.set (pages : UndoPages) (z b : Nat) (page : Mem) : UndoPages := fun z' b' =>
  if z' = z ∧ b' = b then page else pages z' b'

/-! ## Preparing -/

namespace UndoRecord

/-- C++ `UndoRecord::SetUinfo`. -/
def setUinfo (u : UndoRecord) (flag : UInt8) : UndoRecord :=
  { u with whdr := { u.whdr with uinfo := u.whdr.uinfo ||| flag } }

end UndoRecord

/-- One step of `UndoRecordSetUInfo`: the optional parts that carry a value are flagged. -/
def undoRecordSetUInfo (u : UndoRecord) : UndoRecord :=
  if u.needInsert then
    let u := if u.oldxactid != frozenTransactionId then u.setUinfo uinfoOldtd else u
    let u := if u.partitionoid != 0 then u.setUinfo uinfoHasPartoid else u
    if u.tablespace != 0 then u.setUinfo uinfoHasTablespaceoid else u
  else u

/-- `UndoBuffer`: the page a pinned buffer holds. -/
structure UndoBuffer where
  zoneId : Nat
  blk : Nat
  deriving DecidableEq, Repr

/-- C++ `URecVector::GetUndoBufidx`: the buffer of a block, looked up by block number alone and added
    when it is not there. -/
def getUndoBufidx (ubuffers : List UndoBuffer) (zoneId blk : Nat) : List UndoBuffer × Nat :=
  match ubuffers.findIdx? (fun b => b.blk == blk) with
  | some i => (ubuffers, i)
  | none => (ubuffers ++ [⟨zoneId, blk⟩], ubuffers.length)

/-- The `do … while` loop of `PrepareUndoRecord` that gets the pages of one record; `curSize` is a
    `uint16`. The index of the first page is kept in `bufidx`. -/
def pinPages (zoneId startingByte undoSize : Nat) :
    Nat → Nat → Nat → List UndoBuffer → Option Nat → List UndoBuffer × Option Nat
  | 0, _, _, ubuffers, bufidx => (ubuffers, bufidx)
  | fuel + 1, curBlk, curSize, ubuffers, bufidx =>
    let g := getUndoBufidx ubuffers zoneId curBlk
    let bufidx := bufidx.or (some g.2)
    let curSize :=
      (if curSize = 0 then blcksz - startingByte
        else curSize + (blcksz - undoLogBlockHeaderSize)) % 2 ^ 16
    if curSize < undoSize then
      pinPages zoneId startingByte undoSize fuel (curBlk + 1) curSize g.1 bufidx
    else (g.1, bufidx)

/-- The loop of `PrepareUndoRecord` over the vector: the records with their pointers and buffer
    indexes, the buffers, and the pointer after the last record. `none` is the `PANIC` on an invalid
    pointer. -/
def prepareLoop (skipInsert : Bool) :
    List UndoRecord → Nat → List UndoBuffer → Option (List UndoRecord × List UndoBuffer × Nat)
  | [], undoPtr, ubuffers => some ([], ubuffers, undoPtr)
  | u :: us, undoPtr, ubuffers =>
    if !u.needInsert then
      (prepareLoop skipInsert us undoPtr ubuffers).map fun r => (u :: r.1, r.2)
    else if undoPtr = invalidUndoRecPtr then none
    else
      let g :=
        if skipInsert then (ubuffers, u.bufidx)
        else pinPages (undoPtrGetZoneId undoPtr) (undoPtrGetPageOffset undoPtr) u.recordSize
          (u.recordSize + 1) (undoPtrGetBlockNum undoPtr) 0 ubuffers u.bufidx
      (prepareLoop skipInsert us (advanceUndoPtr undoPtr u.recordSize) g.1).map fun r =>
        ({ u with urp := undoPtr, bufidx := g.2 } :: r.1, r.2)

/-- The flags the vector is written with: those of `UndoRecordSetUInfo`, and `UNDO_UREC_INFO_TRANSAC` on
    the first record when the zone was switched. -/
def flagRecords (needSwitch : Bool) (urecs : List UndoRecord) : List UndoRecord :=
  match urecs.map undoRecordSetUInfo with
  | [] => []
  | u :: us => (if needSwitch then u.setUinfo uinfoTransac else u) :: us

/-- C++ `PrepareUndoRecord`. -/
def prepareUndoRecord (needSwitch skipInsert : Bool) (undoPtr : Nat) (urecs : List UndoRecord) :
    Option (List UndoRecord × List UndoBuffer × Nat) :=
  prepareLoop skipInsert (flagRecords needSwitch urecs) undoPtr []

/-! ## Inserting -/

/-- The loop body of `InsertPreparedUndo` on one page: the page, the record, the running byte count and
    whether the loop is left. In recovery a page that already has the change is written again, but the
    loop goes on. -/
def insertPage (inRecovery : Bool) (lsn undoLen : Nat) (u : UndoRecord)
    (startingByte alreadyWritten lastPageWritten : Nat) (page : Mem) :
    Mem × UndoRecord × Nat × Bool :=
  let page :=
    if pageIsNew page then newUndoPage (undoPtrGetZoneId u.urp) startingByte else page
  let page :=
    if alreadyWritten = 0 ∧ pdLower page = undoLogBlockHeaderSize
    then setPdLower page startingByte else page
  let apply := !inRecovery || decide (pageGetLSN page < lsn)
  let r := u.append page startingByte alreadyWritten undoLen
  let page := if apply && inRecovery then pageSetLSN r.2.1 lsn else r.2.1
  let page := setPdUpper page (startingByte + r.2.2.1 - lastPageWritten)
  (page, r.1, r.2.2.1, apply && r.2.2.2)

/-- The `do … while` loop of `InsertPreparedUndo` for one record, over the buffers from its first one
    on. -/
def insertPages (inRecovery : Bool) (lsn undoLen : Nat) :
    List UndoBuffer → UndoRecord → Nat → Nat → UndoPages → UndoPages
  | [], _, _, _, pages => pages
  | b :: bs, u, startingByte, alreadyWritten, pages =>
    -- `lastPageWritten` is what was written when the page was entered
    let r := insertPage inRecovery lsn undoLen u startingByte alreadyWritten alreadyWritten
      (pages b.zoneId b.blk)
    let pages := pages.set b.zoneId b.blk r.1
    if r.2.2.2 then pages
    else insertPages inRecovery lsn undoLen bs r.2.1 undoLogBlockHeaderSize r.2.2.1 pages

/-- One record of `InsertPreparedUndo`; `none` is the `PANIC` on a record without a buffer. -/
def insertRecord (inRecovery : Bool) (lsn : Nat) (ubuffers : List UndoBuffer) (u : UndoRecord)
    (pages : UndoPages) : Option UndoPages :=
  if !u.needInsert then some pages
  else
    match u.bufidx with
    | none => none
    | some bufIdx =>
      if bufIdx < ubuffers.length then
        some (insertPages inRecovery lsn u.recordSize (ubuffers.drop bufIdx) u
          (undoPtrGetPageOffset u.urp) 0 pages)
      else none

/-- C++ `InsertPreparedUndo`. -/
def insertPreparedUndo (inRecovery : Bool) (lsn : Nat) (ubuffers : List UndoBuffer) :
    List UndoRecord → UndoPages → Option UndoPages
  | [], pages => some pages
  | u :: us, pages =>
    (insertRecord inRecovery lsn ubuffers u pages).bind
      (insertPreparedUndo inRecovery lsn ubuffers us)

end GaussKernel.Undo
