import GaussKernel.UHeap.InplaceUpdate

/-!
# Transaction slots of a page

A UHeap page holds, behind its header, an array of transaction slots (TD), the array of row pointers and, from the
other end, the tuples. A row names the slot of the transaction that changed it last: in the tuple header, or packed
into its row pointer when the row is deleted and pruned. `UHeapPageReserveTransactionSlot` (`knl_uheap.cpp`) finds a
slot for a transaction: its own, a free one, one it clears, or a new one behind the array.

The page is its bytes; the header fields that the functions use are kept beside them.
-/

namespace GaussKernel.UHeap

open Lib

abbrev sizeOfUHeapPageHeaderData : Nat := 56
abbrev sizeOfTD : Nat := 16
abbrev sizeOfRowPtr : Nat := 4
abbrev uheapMaxTd : Nat := 128
abbrev tdSlotIncrementSize : Nat := 2
abbrev tdThresholdForPageSwitch : Nat := 32
abbrev invalidTransactionId : Nat := 0
abbrev maxTransactionId : Nat := 2 ^ 64 - 1
abbrev invalidUndoRecPtr : Nat := 0
/-- `UHEAPTUP_SLOT_FROZEN`, so the slots of an array are numbered from 1 on. -/
abbrev uheaptupSlotFrozen : Nat := 0
abbrev uheapInvalidXactSlot : UInt16 := 0x1000
abbrev rowptrXactInvalid : Nat := 0x0002
abbrev xactSlot : Nat := 0x7F80

/-- `TD`: the last transaction of the slot and its latest undo record for the page. -/
structure TD where
  xactid : Nat
  undoRecordPtr : Nat
  deriving DecidableEq

/-- A page; `hasFreeLines` is the flag `PD_HAS_FREE_LINES`. -/
structure UPage where
  hasFreeLines : Bool
  pdLower : Nat
  pdUpper : Nat
  tdCount : Nat
  mem : Mem

namespace UPage

variable (page : UPage)

/-! ## Slots, row pointers and tuples -/

def tdOffset (i : Nat) : Nat := sizeOfUHeapPageHeaderData + i * sizeOfTD

def td (i : Nat) : TD where
  xactid := ofLE (page.mem.read (tdOffset i) 8)
  undoRecordPtr := ofLE (page.mem.read (tdOffset i + 8) 8)

def setTd (i : Nat) (td : TD) : UPage :=
  { page with mem := page.mem.write (tdOffset i) (toLE 8 td.xactid ++ toLE 8 td.undoRecordPtr) }

/-- `UPageGetRowPtrOffset` -/
def rowPtrOffset : Nat := sizeOfUHeapPageHeaderData + page.tdCount * sizeOfTD

/-- The place of a row pointer; the rows are numbered from 1 on. -/
def rowPtrAddr (off : Nat) : Nat := page.rowPtrOffset + (off - 1) * sizeOfRowPtr

/-- `UHeapPageGetMaxOffsetNumber` -/
def maxOffsetNumber : Nat :=
  if page.pdLower ≤ sizeOfUHeapPageHeaderData then 0 else (page.pdLower - page.rowPtrOffset) / sizeOfRowPtr

end UPage

def RpFlags.ofBits : Nat → RpFlags
  | 0 => .unused
  | 1 => .normal
  | 2 => .redirect
  | _ => .dead

def RpFlags.toBits : RpFlags → Nat
  | .unused => 0
  | .normal => 1
  | .redirect => 2
  | .dead => 3

/-- The 15, 2 and 15 bits of a row pointer. -/
def RowPtr.ofWord (w : Nat) : RowPtr where
  offset := w % 2 ^ 15
  flags := .ofBits (w / 2 ^ 15 % 4)
  len := w / 2 ^ 17

def RowPtr.toWord (rp : RowPtr) : Nat := rp.offset + rp.flags.toBits * 2 ^ 15 + rp.len * 2 ^ 17

/-- `RowPtrGetTDSlot` -/
def RowPtr.getTDSlot (rp : RowPtr) : Nat := (rp.offset &&& xactSlot) >>> 7

/-- `RowPtrSetInvalidXact`: in 15 bits, the bits outside the visibility mask are those of the slot. -/
def RowPtr.setInvalidXact (rp : RowPtr) : RowPtr :=
  { rp with offset := (rp.offset &&& xactSlot) ||| rowptrXactInvalid }

def RowPtr.setDead (_ : RowPtr) : RowPtr := ⟨0, .dead, 0⟩

namespace UPage

variable (page : UPage)

def rowPtr (off : Nat) : RowPtr := .ofWord (ofLE (page.mem.read (page.rowPtrAddr off) sizeOfRowPtr))

def setRowPtr (off : Nat) (rp : RowPtr) : UPage :=
  { page with mem := page.mem.write (page.rowPtrAddr off) (toLE sizeOfRowPtr rp.toWord) }

/-- `UHeapTupleHeaderGetTDSlot` -/
def getTDSlot (rp : RowPtr) : Nat := (page.mem (rp.offset + offsetTdId)).toNat

/-- `UHeapTupleHeaderSetTDSlot` -/
def setTDSlot (rp : RowPtr) (slot : Nat) : UPage :=
  { page with mem := page.mem.write (rp.offset + offsetTdId) [.ofNat slot] }

/-- `tupHdr->flag |= UHEAP_INVALID_XACT_SLOT` -/
def setInvalidXactSlot (rp : RowPtr) : UPage :=
  { page with mem := setFlag page.mem rp.offset (getFlag page.mem rp.offset ||| uheapInvalidXactSlot) }

end UPage

/-! ## Clearing slots -/

/-- `UHeapFreezeOrInvalidateTuplesSetTd`: the slot that a row names, none if the row is dead or unused. -/
def uheapFreezeOrInvalidateTuplesSetTd (page : UPage) (rp : RowPtr) : Option Nat :=
  match rp.flags with
  | .dead => none
  | .unused => none
  | .redirect => some rp.getTDSlot
  | .normal => some (page.getTDSlot rp)

/-- What happens to a row that names a cleared slot. -/
def clearRow (isFrozen : Bool) (off : Nat) (page : UPage) : UPage :=
  let rp := page.rowPtr off
  if isFrozen then
    if rp.flags = .redirect then page.setRowPtr off rp.setDead else page.setTDSlot rp uheaptupSlotFrozen
  else
    if rp.flags = .redirect then page.setRowPtr off rp.setInvalidXact else page.setInvalidXactSlot rp

/-- The body of the loop over the rows. -/
def freezeOrInvalidateRow (slots : List Nat) (isFrozen : Bool) (page : UPage) (off : Nat) : UPage :=
  match uheapFreezeOrInvalidateTuplesSetTd page (page.rowPtr off) with
  | none => page
  | some tdSlot =>
    -- rows count the slots from 1 on, the array from 0
    slots.foldl (fun page slot => if tdSlot = slot + 1 then clearRow isFrozen off page else page) page

def uheapFreezeOrInvalidateTuples (page : UPage) (slots : List Nat) (isFrozen : Bool) : UPage :=
  (List.range' 1 page.maxOffsetNumber).foldl (freezeOrInvalidateRow slots isFrozen) page

/-- What the functions find out about the relation and about transactions. `rollback` is what has become of the
page when the lock on it is taken again after `ExecuteUndoActionsPage` ran for a list of undo pointers and xids. -/
structure XactEnv where
  relationIsLocal : Bool
  globalRecycleXid : Nat
  transactionIdIsInProgress : Nat → Bool
  uheapTransactionIdDidCommit : Nat → Bool
  rollback : UPage → List (Nat × Nat) → UPage

variable (env : XactEnv)

/-- The slots whose transactions are old enough; of a local relation always the first one. -/
def frozenSlots (page : UPage) : List Nat :=
  if env.relationIsLocal then [0]
  else (List.range page.tdCount).filter fun i => (page.td i).xactid < env.globalRecycleXid

def completedXactSlots (page : UPage) : List Nat :=
  (List.range page.tdCount).filter fun i => !env.transactionIdIsInProgress (page.td i).xactid &&
    env.uheapTransactionIdDidCommit (page.td i).xactid

def abortedXactSlots (page : UPage) : List Nat :=
  (List.range page.tdCount).filter fun i => !env.transactionIdIsInProgress (page.td i).xactid &&
    !env.uheapTransactionIdDidCommit (page.td i).xactid

/-- Frozen slots are initialised. -/
def initFrozenSlots (page : UPage) (slots : List Nat) : UPage :=
  slots.foldl (fun page i => page.setTd i ⟨invalidTransactionId, invalidUndoRecPtr⟩) page

/-- Of completed slots only the xid is cleared. -/
def clearXactids (page : UPage) (slots : List Nat) : UPage :=
  slots.foldl (fun page i => page.setTd i { page.td i with xactid := invalidTransactionId }) page

/-- The result of `UHeapPageFreezeTransSlots`. -/
structure FreezeResult where
  result : Bool
  lockReacquired : Bool
  page : UPage

def uheapPageFreezeTransSlots (page : UPage) : FreezeResult :=
  let frozen := frozenSlots env page
  if frozen ≠ [] then
    ⟨true, false, initFrozenSlots (uheapFreezeOrInvalidateTuples page frozen true) frozen⟩
  else
    let completed := completedXactSlots env page
    let aborted := abortedXactSlots env page
    if completed ≠ [] then
      ⟨true, false, clearXactids (uheapFreezeOrInvalidateTuples page completed false) completed⟩
    else if aborted ≠ [] then
      ⟨true, true, env.rollback page (aborted.map fun i => ((page.td i).undoRecordPtr, (page.td i).xactid))⟩
    else ⟨false, false, page⟩

/-! ## Extending the array -/

def uPageGetFreeSpace (page : UPage) : Nat :=
  if page.pdUpper < page.pdLower + sizeOfRowPtr then 0 else page.pdUpper - page.pdLower - sizeOfRowPtr

def calculatedMaxUHeapTuplesPerPage (tdSlots : Nat) : Nat :=
  (blcksz - sizeOfUHeapPageHeaderData - tdSlots * sizeOfTD) / (sizeOfUHeapDiskTupleData + 4)

def pageGetUHeapFreeSpace (page : UPage) : Nat :=
  let space := uPageGetFreeSpace page
  let nline := page.maxOffsetNumber
  if 0 < space ∧ calculatedMaxUHeapTuplesPerPage page.tdCount ≤ nline then
    if page.hasFreeLines ∧ ∃ off ∈ List.range' 1 nline, (page.rowPtr off).flags = .unused then space else 0
  else space

/-- The number of slots that `UPageExtendTDSlots` adds. -/
def numExtended (page : UPage) : Nat :=
  let freeSpace := pageGetUHeapFreeSpace page
  if uheapMaxTd ≤ page.tdCount then 0
  else
    let n := if page.tdCount < tdThresholdForPageSwitch then
        min page.tdCount (tdThresholdForPageSwitch - page.tdCount)
      else tdSlotIncrementSize
    let n := if freeSpace < n * sizeOfTD then freeSpace / sizeOfTD else n
    min n (uheapMaxTd - page.tdCount)

/-- The row pointers are moved behind the new slots, and the new slots are initialised. -/
def moveRowPtrs (page : UPage) (n : Nat) : UPage :=
  let start := page.rowPtrOffset
  let moved := page.mem.write (start + n * sizeOfTD) (page.mem.read start (page.pdLower - start))
  let page' := (List.range' page.tdCount n).foldl
    (fun page i => page.setTd i ⟨invalidTransactionId, invalidUndoRecPtr⟩) { page with mem := moved }
  { page' with tdCount := page.tdCount + n, pdLower := page.pdLower + n * sizeOfTD }

def uPageExtendTDSlots (page : UPage) : Nat × UPage :=
  let n := numExtended page
  if n = 0 then (0, page) else (n, moveRowPtrs page n)

/-! ## Reserving a slot -/

/-- The result of `UHeapPageReserveTransactionSlot`; `slot` is `none` for `InvalidTDSlotId`, and `urecPtr` and `minXid`
are `none` where the function does not set them. -/
structure ReserveResult where
  slot : Option Nat
  urecPtr : Option Nat
  lockReacquired : Bool
  minXid : Option Nat
  page : UPage

/-- The slots that the function looks at. -/
def searchedSlots (page : UPage) : List Nat := if env.relationIsLocal then [0] else List.range page.tdCount

/-- `UHeapPageReserveTransactionSlotReuseLoop` -/
def reuseLoop (page : UPage) : Option Nat :=
  (List.range page.tdCount).find? fun i => (page.td i).xactid = invalidTransactionId

/-- The smallest xid of the searched slots, for the caller to wait for; it is not computed for a local relation. -/
def currMinXid (page : UPage) : Nat :=
  if env.relationIsLocal then maxTransactionId
  else (List.range page.tdCount).foldl (fun m i => min m (page.td i).xactid) maxTransactionId

/-- The part of the function behind the search for a free slot. -/
def extendOrGiveUp (aggressiveSearch : Bool) (page : UPage) (minXid : Nat) : ReserveResult :=
  if !aggressiveSearch ∧ tdThresholdForPageSwitch ≤ page.tdCount then ⟨none, none, false, some minXid, page⟩
  else
    match uPageExtendTDSlots page with
    | (0, page') => ⟨none, none, false, some minXid, page'⟩
    | (_, page') => ⟨some (page.tdCount + 1), none, false, some minXid, page'⟩

def uheapPageReserveTransactionSlot (page : UPage) (fxid : Nat) (aggressiveSearch : Bool) : ReserveResult :=
  match (searchedSlots env page).find? fun i => (page.td i).xactid = fxid with
  | some i => ⟨some (i + 1), some (page.td i).undoRecordPtr, false, none, page⟩
  | none =>
    match (searchedSlots env page).find? fun i => (page.td i).xactid = invalidTransactionId with
    | some i => ⟨some (i + 1), some (page.td i).undoRecordPtr, false, none, page⟩
    | none =>
      let minXid := currMinXid env page
      let freeze := uheapPageFreezeTransSlots env page
      if freeze.result then
        if freeze.lockReacquired then ⟨none, none, true, some minXid, freeze.page⟩
        else
          match reuseLoop freeze.page with
          | some i => ⟨some (i + 1), some (freeze.page.td i).undoRecordPtr, false, some minXid, freeze.page⟩
          | none => extendOrGiveUp aggressiveSearch freeze.page minXid
      else extendOrGiveUp aggressiveSearch page minXid

end GaussKernel.UHeap
