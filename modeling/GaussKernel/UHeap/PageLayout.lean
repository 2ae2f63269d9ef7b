import GaussKernel.UHeap.PageRows

/-!
# Adding, growing and compacting rows

Model of `UPageAddItem` and `VerifyUPageHeader` (`knl_upage.cpp`) and of `UPageRepairFragmentation` and
`CompactifyTuples` (`knl_pruneuheap.cpp`). Row pointers, slots and tuples share the bytes of one page, and every one of
these functions and `UPageExtendTDSlots` moves a different boundary of it: `pd_lower`, `pd_upper` or both.

`none` is an ERROR or PANIC, or `InvalidOffsetNumber`. `memcpy_s` fails for no bytes at all and for more than
`SECUREC_MEM_MAX_LEN`.
-/

namespace GaussKernel.UHeap

open Lib

/-! ## The page header -/

/-- A page with the rest of its header. -/
structure HeapPage extends UPage where
  pdSpecial : Nat
  potentialFreespace : Nat
  pdPruneXid : Nat
  pdXidBase : Nat

inductive VerifyLevel where
  | none | default | fast | complete | whitebox
  deriving DecidableEq

/-- `level > USTORE_VERIFY_FAST` -/
def VerifyLevel.aboveFast : VerifyLevel → Bool
  | .complete => true
  | .whitebox => true
  | _ => false

/-- What the verification of a page reports. -/
inductive PageReport where
  | headerInvalid (lower upper special potential : Nat)
  | tdCountInvalid (tdCount : Nat)
  | xidBaseInvalid (xidBase nextXid : Nat)
  deriving DecidableEq

/-- `VerifyUPageHeader`; `nextXid` is that of the shared variable cache. -/
def verifyUPageHeader (page : HeapPage) (level : VerifyLevel) (nextXid : Nat) : List PageReport :=
  (if page.pdLower < page.rowPtrOffset ∨ page.pdUpper < page.pdLower ∨ page.pdSpecial < page.pdUpper ∨
      page.pdSpecial ≠ blcksz ∨ blcksz < page.potentialFreespace then
    [.headerInvalid page.pdLower page.pdUpper page.pdSpecial page.potentialFreespace] else []) ++
  (if page.tdCount = 0 ∨ uheapMaxTd < page.tdCount then [.tdCountInvalid page.tdCount] else []) ++
  (if level.aboveFast ∧ (nextXid < page.pdPruneXid ∨ nextXid < page.pdXidBase) then
    [.xidBaseInvalid page.pdXidBase nextXid] else [])

/-! ## Sizes -/

/-- A number kept in an `int`. -/
def toInt (n : Int) : Int := Int.bmod n (2 ^ 32)

/-- `SHORTALIGN` of a `Size`. -/
def shortAlign (len : Nat) : Nat := (len + 1) % 2 ^ 64 / 2 * 2

/-- `MAXALIGN` -/
def maxAlign (len : Nat) : Nat := (len + 7) / 8 * 8

abbrev securecMemMaxLen : Nat := 0x7fffffff
abbrev maxOffset : Nat := blcksz / sizeOfRowPtr

/-- `OffsetNumberIsValid` -/
def offsetNumberIsValid (off : Nat) : Prop := off ≠ 0 ∧ off ≤ maxOffset

instance (off : Nat) : Decidable (offsetNumberIsValid off) := inferInstanceAs (Decidable (_ ∧ _))

/-! ## Adding an item -/

/-- `CheckOffsetValidity`: whether row pointers have to make room; `none` if the offset is in use. -/
def checkOffsetValidity (inRecovery : Bool) (page : UPage) (off : Nat) (overwrite : Bool) : Option Bool :=
  let limit := page.maxOffsetNumber + 1
  let itemId := page.rowPtr off
  if overwrite then
    if off < limit then
      if inRecovery then
        if 0 < itemId.len then none else some false
      else if itemId.flags ≠ .unused ∨ 0 < itemId.len then none else some false
    else some false
  else some (decide (off < limit))

/-- `FindNextFreeSlot`: the hint about free row pointers is cleared where it is wrong. -/
def findNextFreeSlot (page : UPage) : Nat × UPage :=
  let limit := page.maxOffsetNumber + 1
  if page.hasFreeLines then
    let free := (List.range' 1 page.maxOffsetNumber).find? fun off =>
      (page.rowPtr off).flags = .unused ∧ (page.rowPtr off).len = 0
    match free with
    | some off => (off, page)
    | none => (limit, { page with hasFreeLines := false })
  else (limit, page)

/-- The row pointers from `off` on, moved up by one. -/
def shuffleRowPtrs (page : UPage) (off : Nat) : UPage :=
  let itemId := page.rowPtrAddr off
  let limit := page.maxOffsetNumber + 1
  { page with mem := page.mem.write (itemId + sizeOfRowPtr) (page.mem.read itemId ((limit - off) * sizeOfRowPtr)) }

/-- `SetNormalRowPointer` -/
def normalRowPointer (off size : Nat) : RowPtr := ⟨off % 2 ^ 15, .normal, size % 2 ^ 15⟩

def calculateLowerUpperPointers (page : UPage) (off : Nat) (item : List UInt8) (needshuffle : Bool) : Option UPage :=
  let limit := page.maxOffsetNumber + 1
  if limit < off then none
  else
    let lower := if off = limit ∨ needshuffle then page.pdLower + sizeOfRowPtr else page.pdLower
    let upper := toInt (page.pdUpper - toInt (shortAlign item.length))
    if upper < lower then none
    else
      let upper := upper.toNat
      let page := if needshuffle then shuffleRowPtrs page off else page
      let page := page.setRowPtr off (normalRowPointer upper item.length)
      -- memcpy_s
      if item.length = 0 ∨ securecMemMaxLen < item.length then none
      else some { page with pdLower := lower, pdUpper := upper, mem := page.mem.write upper item }

/-- The offset that is passed in, or a free one, and whether row pointers have to make room. -/
def chooseOffset (inRecovery : Bool) (page : UPage) (off : Nat) (overwrite : Bool) : Option (Nat × Bool × UPage) :=
  if offsetNumberIsValid off then
    match checkOffsetValidity inRecovery page off overwrite with
    | none => none
    | some needshuffle => some (off, needshuffle, page)
  else
    let (off, page) := findNextFreeSlot page
    some (off, false, page)

/-- `UPageAddItem`; `initTd` is that of the relation. -/
def uPageAddItem (inRecovery : Bool) (initTd : Nat) (page : HeapPage) (item : List UInt8) (off : Nat)
    (overwrite : Bool) : Option (Nat × HeapPage) :=
  if page.pdUpper < page.pdLower then none
  else
    match chooseOffset inRecovery page.toUPage off overwrite with
    | none => none
    | some (off, needshuffle, upage) =>
      if !inRecovery ∧ calculatedMaxUHeapTuplesPerPage initTd < off then none
      else
        match calculateLowerUpperPointers upage off item needshuffle with
        | none => none
        | some upage => some (off, { page with toUPage := upage })

/-! ## Extending the slots -/

/-- `UPageExtendTDSlots` on the whole page. -/
def HeapPage.extendTDSlots (page : HeapPage) : Nat × HeapPage :=
  let r := uPageExtendTDSlots page.toUPage
  (r.1, { page with toUPage := r.2 })

/-! ## Compacting the rows -/

/-- `itemIdSortData` -/
structure ItemIdSort where
  offsetindex : Nat
  itemoff : Nat
  alignedlen : Nat
  deriving DecidableEq

/-- The number of the row. -/
def ItemIdSort.off (item : ItemIdSort) : Nat := item.offsetindex + 1

/-- `MaxPossibleUHeapTuplesPerPage`, the length of the array of items. -/
abbrev maxPossibleUHeapTuplesPerPage : Nat := (blcksz - sizeOfUHeapPageHeaderData) / (sizeOfUHeapDiskTupleData + 4)

/-- The variables of the loop over the row pointers. -/
structure Collect where
  page : UPage
  items : List ItemIdSort
  totallen : Nat
  nunused : Nat

/-- The aligned length of a row; the target gets more. -/
def alignedLen (targetOffnum spaceRequired off : Nat) (lp : RowPtr) : Nat :=
  if off = targetOffnum then shortAlign ((lp.len + spaceRequired) % 2 ^ 64) else shortAlign lp.len

/-- The body of the loop over the row pointers. -/
def collectItem (targetOffnum spaceRequired pdUpper pdSpecial : Nat) (s : Collect) (off : Nat) : Option Collect :=
  let lp := s.page.rowPtr off
  if lp.flags ≠ .unused then
    if 0 < lp.len then
      if lp.offset < pdUpper ∨ pdSpecial ≤ lp.offset then none
      -- the array of items is full
      else if maxPossibleUHeapTuplesPerPage ≤ s.items.length then none
      else
        let alignedlen := alignedLen targetOffnum spaceRequired off lp
        some { s with
          items := s.items ++ [⟨off - 1, lp.offset, alignedlen⟩]
          totallen := (s.totallen + alignedlen) % 2 ^ 64 }
    else some s
  else some { s with page := s.page.setRowPtr off ⟨0, .unused, 0⟩, nunused := s.nunused + 1 }

/-- The variables of the loop of `CompactifyTuples`. -/
structure Compact where
  page : UPage
  curr : Nat
  newTupleLen : Nat

/-- A row is copied to `curr`, and its row pointer leads there. -/
def placeRow (page : UPage) (off curr : Nat) (bytes : List UInt8) : UPage :=
  let page := page.poke curr bytes
  page.setRowPtr off { page.rowPtr off with offset := curr % 2 ^ 15 }

/-- The body of the loop of `CompactifyTuples`. As the rows fit behind `pd_lower`, `curr` is never negative. -/
def compactItem (targetOffnum : Nat) (s : Compact) (item : ItemIdSort) : Compact :=
  if targetOffnum = item.off then { s with newTupleLen := item.alignedlen % 2 ^ 16 }
  else
    let curr := s.curr - item.alignedlen
    { s with page := placeRow s.page item.off curr (s.page.mem.read item.itemoff item.alignedlen), curr := curr }

/-- The order of `Itemoffcompare`. -/
def itemoffcompare (a b : ItemIdSort) : Prop := b.itemoff ≤ a.itemoff

instance : DecidableRel itemoffcompare := fun a b => inferInstanceAs (Decidable (b.itemoff ≤ a.itemoff))

/-- `CompactifyTuples`: the page, with the new `pd_upper`. -/
def compactifyTuples (items : List ItemIdSort) (page : UPage) (pdSpecial targetOffnum : Nat) : Option UPage :=
  let rp := page.rowPtr targetOffnum
  let diskTuple := page.mem.read rp.offset rp.len
  let s := (items.insertionSort itemoffcompare).foldl (compactItem targetOffnum) ⟨page, pdSpecial, 0⟩
  if targetOffnum = 0 then some { s.page with pdUpper := s.curr }
  -- memcpy_s, to the buffer and from it
  else if diskTuple.length = 0 ∨ s.newTupleLen < diskTuple.length then none
  else
    let curr := s.curr - s.newTupleLen
    some { placeRow s.page targetOffnum curr diskTuple with pdUpper := curr }

def uPageRepairFragmentation (page : HeapPage) (targetOffnum spaceRequired : Nat) : Option HeapPage :=
  if page.pdLower < page.rowPtrOffset ∨ page.pdUpper < page.pdLower ∨ page.pdSpecial < page.pdUpper ∨
      blcksz < page.pdSpecial ∨ page.pdSpecial ≠ maxAlign page.pdSpecial then none
  else
    match (List.range' 1 page.maxOffsetNumber).foldlM
      (collectItem targetOffnum spaceRequired page.pdUpper page.pdSpecial) ⟨page.toUPage, [], 0, 0⟩ with
    | none => none
    | some s =>
      let compacted :=
        if s.items.length = 0 then some { s.page with pdUpper := page.pdSpecial }
        else if page.pdSpecial - page.pdLower < s.totallen then none
        else compactifyTuples s.items s.page page.pdSpecial targetOffnum
      match compacted with
      | none => none
      | some upage => some { page with toUPage := { upage with hasFreeLines := decide (0 < s.nunused) } }

/-! ## The layout -/

namespace UPage

variable (page : UPage)

/-- A row with a tuple. -/
def Stored (off : Nat) : Prop :=
  page.IsRow off ∧ (page.rowPtr off).flags ≠ .unused ∧ 0 < (page.rowPtr off).len

instance (off : Nat) : Decidable (page.IsRow off) := inferInstanceAs (Decidable (_ ∧ _))

instance (off : Nat) : Decidable (page.Stored off) := inferInstanceAs (Decidable (_ ∧ _))

def tupleBytes (off : Nat) : List UInt8 := page.mem.read (page.rowPtr off).offset (page.rowPtr off).len

/-- The end of the short-aligned row, when `room off` further bytes belong to it. -/
def rowEnd (room : Nat → Nat) (off : Nat) : Nat :=
  (page.rowPtr off).offset + shortAlign ((page.rowPtr off).len + room off)

end UPage

/-- The short-aligned rows lie between `pd_upper` and `pd_special`, and no two of them overlap; `VerifyUPageRowPtr`
checks as much of the normal ones. -/
structure HeapPage.RowsApart (page : HeapPage) (room : Nat → Nat) : Prop where
  pdUpper_le : ∀ off, page.Stored off → page.pdUpper ≤ (page.rowPtr off).offset
  le_pdSpecial : ∀ off, page.Stored off → page.rowEnd room off ≤ page.pdSpecial
  apart : ∀ off off', page.Stored off → page.Stored off' → off ≠ off' →
    page.rowEnd room off ≤ (page.rowPtr off').offset ∨ page.rowEnd room off' ≤ (page.rowPtr off).offset

/-- A page that passes `VerifyUPageHeader`, with its rows laid out. -/
structure HeapPage.LaidOut (page : HeapPage) (level : VerifyLevel) (nextXid : Nat) (room : Nat → Nat) : Prop
    extends page.RowsApart room where
  header : verifyUPageHeader page level nextXid = []

/-- The tuples start at even places. -/
structure HeapPage.Even (page : HeapPage) : Prop where
  pdUpper : 2 ∣ page.pdUpper
  offset : ∀ off, page.Stored off → 2 ∣ (page.rowPtr off).offset

/-- No further bytes. -/
abbrev noRoom : Nat → Nat := fun _ => 0

/-! ### The header -/

/-- The boundaries of a page follow each other. -/
structure HeapPage.Bounds (page : HeapPage) : Prop where
  rowPtrOffset_le : page.rowPtrOffset ≤ page.pdLower
  pdLower_le : page.pdLower ≤ page.pdUpper
  pdUpper_le : page.pdUpper ≤ page.pdSpecial
  pdSpecial_eq : page.pdSpecial = blcksz

variable {page page' : HeapPage} {level : VerifyLevel} {nextXid : Nat} {room : Nat → Nat}

/-- The header check finds nothing when the bounds hold. -/
lemma verifyUPageHeader_eq_nil : verifyUPageHeader page level nextXid = [] ↔
    page.Bounds ∧ page.potentialFreespace ≤ blcksz ∧ 0 < page.tdCount ∧ page.tdCount ≤ uheapMaxTd ∧
      (level.aboveFast = true → page.pdPruneXid ≤ nextXid ∧ page.pdXidBase ≤ nextXid) := by
  simp only [verifyUPageHeader, List.append_eq_nil_iff, ite_eq_right_iff, reduceCtorEq, imp_false, not_or, not_lt,
    not_and, ne_eq, not_not]
  constructor
  · rintro ⟨⟨⟨h1, h2, h3, h4, h5⟩, h6, h7⟩, h8⟩
    exact ⟨⟨h1, h2, h3, h4⟩, h5, Nat.pos_of_ne_zero h6, h7, h8⟩
  · rintro ⟨⟨h1, h2, h3, h4⟩, h5, h6, h7, h8⟩
    exact ⟨⟨⟨h1, h2, h3, h4, h5⟩, h6.ne', h7⟩, h8⟩

/-- A page that is laid out keeps its bounds. -/
lemma HeapPage.LaidOut.bounds (h : page.LaidOut level nextXid room) : page.Bounds :=
  (verifyUPageHeader_eq_nil.mp h.header).1

/-- The other fields of the header. -/
structure HeapPage.SameFields (page page' : HeapPage) : Prop where
  pdSpecial : page'.pdSpecial = page.pdSpecial
  potentialFreespace : page'.potentialFreespace = page.potentialFreespace
  pdPruneXid : page'.pdPruneXid = page.pdPruneXid
  pdXidBase : page'.pdXidBase = page.pdXidBase

/-- A page passes again when the boundaries still follow each other. -/
lemma HeapPage.SameFields.header (h : page.SameFields page') (hverify : verifyUPageHeader page level nextXid = [])
    (hbounds : page'.Bounds) (hpos : 0 < page'.tdCount) (hle : page'.tdCount ≤ uheapMaxTd) :
    verifyUPageHeader page' level nextXid = [] := by
  obtain ⟨-, hfree, -, -, hxid⟩ := verifyUPageHeader_eq_nil.mp hverify
  refine verifyUPageHeader_eq_nil.mpr ⟨hbounds, ?_, hpos, hle, ?_⟩
  · rwa [h.potentialFreespace]
  · rwa [h.pdPruneXid, h.pdXidBase]

/-! ### Row pointers in the page -/

namespace UPage

variable {page page' : UPage} {off i j : Nat}

/-- A row pointer is its four bytes. -/
lemma rowPtr_eq_of_mem
    (h : ∀ k < sizeOfRowPtr, page'.mem (page'.rowPtrAddr i + k) = page.mem (page.rowPtrAddr j + k)) :
    page'.rowPtr i = page.rowPtr j := by
  refine congrArg (fun bytes => RowPtr.ofWord (ofLE bytes)) ?_
  apply List.map_congr_left
  intro k hk
  exact h k (List.mem_range.mp hk)

variable {rp : RowPtr}

/-- A row pointer is written in its place only. -/
lemma setRowPtr_mem {a : Nat} (ha : a < page.rowPtrAddr off ∨ page.rowPtrAddr off + sizeOfRowPtr ≤ a) :
    (page.setRowPtr off rp).mem a = page.mem a := by
  apply Mem.write_out
  rwa [toLE_length]

/-- The row pointer that was written is read back. -/
lemma rowPtr_setRowPtr (h : rp.Fits) : (page.setRowPtr off rp).rowPtr off = rp := by
  have hread := Mem.read_write page.mem (page.rowPtrAddr off) (toLE sizeOfRowPtr rp.toWord)
  rw [toLE_length] at hread
  calc (page.setRowPtr off rp).rowPtr off = RowPtr.ofWord (ofLE (toLE sizeOfRowPtr rp.toWord)) :=
        congrArg (fun bytes => RowPtr.ofWord (ofLE bytes)) hread
    _ = RowPtr.ofWord rp.toWord := by rw [ofLE_toLE_of_lt (RowPtr.toWord_lt h)]
    _ = rp := RowPtr.ofWord_toWord h

/-- The other row pointers are kept. -/
lemma rowPtr_setRowPtr_ne (hoff : 1 ≤ off) (hi : 1 ≤ i) (hne : i ≠ off) :
    (page.setRowPtr off rp).rowPtr i = page.rowPtr i := by
  apply rowPtr_eq_of_mem
  intro k hk
  apply setRowPtr_mem
  -- the row pointers lie side by side
  change page.rowPtrAddr i + k < page.rowPtrAddr off ∨ page.rowPtrAddr off + sizeOfRowPtr ≤ page.rowPtrAddr i + k
  simp only [rowPtrAddr, sizeOfRowPtr] at hk ⊢
  omega

/-- The number of rows, from the bounds. -/
lemma maxOffsetNumber_eq (h : page.rowPtrOffset ≤ page.pdLower) :
    page.maxOffsetNumber = (page.pdLower - page.rowPtrOffset) / sizeOfRowPtr := by
  rw [maxOffsetNumber]
  split
  case isTrue hle =>
    simp only [rowPtrOffset, sizeOfUHeapPageHeaderData, sizeOfTD, sizeOfRowPtr] at h hle ⊢
    omega
  case isFalse => rfl

end UPage

/-! ### Aligned sizes -/

/-- Alignment does not shorten. -/
lemma shortAlign_ge {len : Nat} (h : len < 2 ^ 64 - 1) : len ≤ shortAlign len := by
  simp only [shortAlign]
  omega

/-- An aligned length is even. -/
lemma shortAlign_even (len : Nat) : 2 ∣ shortAlign len := Nat.dvd_mul_left _ _

/-- Alignment is monotone. -/
lemma shortAlign_mono {len len' : Nat} (h : len ≤ len') (h' : len' < 2 ^ 64 - 1) :
    shortAlign len ≤ shortAlign len' := by
  simp only [shortAlign]
  omega

end GaussKernel.UHeap
