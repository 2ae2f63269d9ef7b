import GaussKernel.Lib.Bytes

/-!
# Undo of in-place updates

Model of the in-place branch of `UHeapUpdate` (`knl_uheap.cpp`) with the helpers `UHeapPrepareUndoUpdate` and
`PutInplaceUpdateTuple`, and of `CopyTupleFromUndoRecord` (`knl_undoaction.cpp`), which restores the old row.

The payload of an in-place update does not hold the old tuple: the data areas of the two tuples are compared
from both ends, each from its own `t_hoff`, and only the bytes between the common prefix and the common suffix
are kept. The decoder finds the rest in the row itself and re-derives every length from the payload and from
the row pointer.

`useLinkUpdate` is `false` throughout `UHeapUpdate`, so the new tuple always goes to the old tuple's place
(`PutInplaceUpdateTuple`).
-/

namespace GaussKernel.UHeap

open Lib

abbrev blcksz : Nat := 8192

/-- `OffsetTdId`: what precedes it, the xid, is not kept in undo. -/
abbrev offsetTdId : Nat := 4

/-- `SizeOfUHeapDiskTupleData`. -/
abbrev sizeOfUHeapDiskTupleData : Nat := 11

/-- `MIN_SAVING_LEN`. -/
abbrev minSavingLen : Nat := 3

abbrev xorPrefix : UInt8 := 0x01

abbrev xorSuffix : UInt8 := 0x02

abbrev frozenTransactionId : Nat := 2

abbrev uheapVisStatusMask : UInt16 := 0xFFF0

abbrev uheapInplaceUpdated : UInt16 := 0x0020

abbrev uheapXidExclLock : UInt16 := 0x0400

abbrev singleLockerXidIsTrans : UInt16 := 0x8000

abbrev uheapNattsMask : UInt16 := 0x07FF

/-! ## Rows -/

/-- The states of a row pointer (`RP_*`). -/
inductive RpFlags where
  | unused | normal | redirect | dead
  deriving DecidableEq, Repr

structure RowPtr where
  offset : Nat
  flags : RpFlags
  len : Nat
  deriving DecidableEq, Repr

/-- `RowPtrChangeLen`; `none` is its PANIC. -/
def RowPtr.changeLen (rp : RowPtr) (length : Nat) : Option RowPtr :=
  if rp.offset + length > blcksz then none else some { rp with len := length }

/-- A `UHeapDiskTuple` with its size: 4 bytes xid, `td_id`, `reserved`, `flag`, `flag2`, `t_hoff` in byte 10, then
    the null bitmap up to `t_hoff` and the data. A row pointer holds sizes below `2 ^ 15`. -/
structure UHeapDiskTuple where
  bytes : List UInt8
  hoff_ge : sizeOfUHeapDiskTupleData ≤ (bytes.getD 10 0).toNat
  hoff_le : (bytes.getD 10 0).toNat ≤ bytes.length
  size_lt : bytes.length < 2 ^ 15

namespace UHeapDiskTuple

variable (t : UHeapDiskTuple)

def size : Nat := t.bytes.length

def tHoff : Nat := (t.bytes.getD 10 0).toNat

/-- The data area. -/
def data : List UInt8 := t.bytes.drop t.tHoff

def flag : UInt16 := .ofNat (ofLE ((t.bytes.drop 6).take 2))

def flag2 : UInt16 := .ofNat (ofLE ((t.bytes.drop 8).take 2))

end UHeapDiskTuple

/-! Fields of the tuple at `off` in a page. -/

def getFlag (m : Mem) (off : Nat) : UInt16 := .ofNat (ofLE (m.read (off + 6) 2))

def setFlag (m : Mem) (off : Nat) (flag : UInt16) : Mem := m.write (off + 6) (toLE 2 flag.toNat)

def getFlag2 (m : Mem) (off : Nat) : UInt16 := .ofNat (ofLE (m.read (off + 8) 2))

def setFlag2 (m : Mem) (off : Nat) (flag : UInt16) : Mem := m.write (off + 8) (toLE 2 flag.toNat)

def getHoff (m : Mem) (off : Nat) : Nat := (m (off + 10)).toNat

/-! ## The update -/

/-- The loops that compare two byte sequences: the number of positions below `limit` before the first difference. -/
def matchLen (p q : Nat → UInt8) (limit : Nat) : Nat :=
  ((List.range limit).takeWhile fun i => p i == q i).length

/-- `prefixlen`, `suffixlen` and `xorDeltaFlags`. -/
structure XorDelta where
  prefixlen : Nat
  suffixlen : Nat
  flags : UInt8
  deriving DecidableEq, Repr

/-- The comparison of the data areas `oldp` and `newp`. It is made only when the tuples have one size and the
    relation is not logically logged (`delta`). -/
def xorDelta (delta : Bool) (oldp newp : List UInt8) : XorDelta :=
  if delta then
    let minlen := min oldp.length newp.length
    let p := matchLen (oldp.getD · 0) (newp.getD · 0) minlen
    let p := if p < minSavingLen then 0 else p
    let s := matchLen (fun i => oldp.getD (oldp.length - 1 - i) 0)
      (fun i => newp.getD (newp.length - 1 - i) 0) (minlen - p)
    let s := if s < minSavingLen then 0 else s
    { prefixlen := p, suffixlen := s
      flags := (if p = 0 then 0 else xorPrefix) ||| (if s = 0 then 0 else xorSuffix) }
  else { prefixlen := 0, suffixlen := 0, flags := 0 }

/-- `undoXorDeltaSize`. -/
def undoXorDeltaSize (d : XorDelta) (tHoff oldlen : Nat) : Nat :=
  (if d.prefixlen > 0 then 2 else 0) + (if d.suffixlen > 0 then 2 else 0) +
    (1 + (tHoff - offsetTdId) + 1) + (oldlen - d.prefixlen - d.suffixlen)

/-- A subtransaction id; `InvalidSubTransactionId` is 0. -/
abbrev SubTransactionId := { s : UInt64 // s ≠ 0 }

/-- `sizeof(SubTransactionId)` when there is one. -/
def subxidSize (subxid : Option SubTransactionId) : Nat := if subxid.isSome then 8 else 0

/-- The length for which `UHeapPrepareUndoUpdate` reserves undo space on an in-place update. -/
def reservedLen (deltaSize : Nat) (subxid : Option SubTransactionId) : Nat := deltaSize + subxidSize subxid

inductive UndoType where
  | insert | multiInsert | delete | inplaceUpdate | update | itemidUnused
  deriving DecidableEq, Repr

/-- What `CopyTupleFromUndoRecord` reads of an undo record. -/
structure RowUndo where
  utype : UndoType
  containSubXact : Bool
  rawdata : List UInt8
  deriving DecidableEq, Repr

/-- The changes that `UHeapUpdate` makes to the header of the old tuple before it copies the new one. -/
def markOldTuple (m : Mem) (off : Nat) (tdSlot : UInt8) (tupleXid : UInt32) : Mem :=
  let m := m.write (off + offsetTdId) [tdSlot]
  let m := setFlag m off (getFlag m off &&& ~~~uheapVisStatusMask)
  let m := setFlag m off (getFlag m off ||| (uheapXidExclLock ||| uheapInplaceUpdated))
  -- UHeapTupleSetModifiedXid
  let m := setFlag m off (getFlag m off ||| singleLockerXidIsTrans)
  m.write off (toLE 4 tupleXid.toNat)

/-- The bytes that `PutInplaceUpdateTuple` writes. The visibility bits of the row stay, the other flags are the new
    tuple's. -/
def copyNewTuple (m : Mem) (off : Nat) (new : UHeapDiskTuple) : Mem :=
  let m := m.write (off + sizeOfUHeapDiskTupleData) (new.bytes.drop sizeOfUHeapDiskTupleData)
  let m := setFlag m off (getFlag m off &&& uheapVisStatusMask)
  let m := setFlag m off (getFlag m off ||| (new.flag &&& ~~~uheapVisStatusMask))
  let m := setFlag2 m off ((getFlag2 m off &&& ~~~uheapNattsMask) ||| (new.flag2 &&& uheapNattsMask))
  m.write (off + 10) [UInt8.ofNat new.tHoff]

/-- `PutInplaceUpdateTuple`. -/
def putInplaceUpdateTuple (m : Mem) (rp : RowPtr) (new : UHeapDiskTuple) : Option (Mem × RowPtr) :=
  (if new.size > rp.len then rp.changeLen new.size else some rp).map fun rp =>
    (copyNewTuple m rp.offset new, rp)

/-- What an in-place update leaves: the row, its undo record and the payload length that was reserved. -/
structure InplaceUpdate where
  mem : Mem
  rp : RowPtr
  undorec : RowUndo
  reserved : Nat

/-- `UHeapUpdate` once it has decided for an in-place update; `none` is a PANIC. The header part of the payload is
    taken before the old tuple is marked, the data part after it. -/
def uheapUpdateInplace (logicallyLogged : Bool) (m : Mem) (rp : RowPtr) (new : UHeapDiskTuple) (tdSlot : UInt8)
    (tupleXid : UInt32) (subxid : Option SubTransactionId) : Option InplaceUpdate := do
  let off := rp.offset
  let tHoff := getHoff m off
  let oldlen := rp.len - tHoff
  let oldp := m.read (off + tHoff) oldlen
  let d := xorDelta (new.size == rp.len && !logicallyLogged) oldp new.data
  let deltaSize := undoXorDeltaSize d tHoff oldlen
  let rawdata := [UInt8.ofNat tHoff] ++ m.read (off + offsetTdId) (tHoff - offsetTdId) ++ [d.flags]
  let m := markOldTuple m off tdSlot tupleXid
  let rawdata := if d.prefixlen > 0 then rawdata ++ toLE 2 d.prefixlen else rawdata
  let rawdata := if d.suffixlen > 0 then rawdata ++ toLE 2 d.suffixlen else rawdata
  let rawdata := rawdata ++ m.read (off + tHoff + d.prefixlen) (oldlen - d.prefixlen - d.suffixlen)
  guard (deltaSize = rawdata.length)
  let rawdata := match subxid with
    | some s => rawdata ++ toLE 8 s.1.toNat
    | none => rawdata
  let (m, rp) ← putInplaceUpdateTuple m rp new
  return { mem := m, rp := rp, reserved := reservedLen deltaSize subxid
           undorec := { utype := .inplaceUpdate, containSubXact := subxid.isSome, rawdata := rawdata } }

/-! ## The restore -/

/-- What precedes the old data in the payload of an in-place update. -/
structure DeltaHeader where
  tHoff : Nat
  prefixlen : Nat
  suffixlen : Nat
  readSize : Nat
  deriving DecidableEq, Repr

def readDeltaHeader (data : List UInt8) : DeltaHeader :=
  let tHoff := (data.getD 0 0).toNat
  let readSize := 1 + (tHoff - offsetTdId)
  let flags := data.getD readSize 0
  let readSize := readSize + 1
  let hasPrefix : Bool := flags &&& xorPrefix ≠ 0
  let hasSuffix : Bool := flags &&& xorSuffix ≠ 0
  let prefixlen := if hasPrefix then ofLE ((data.drop readSize).take 2) else 0
  let readSize := readSize + if hasPrefix then 2 else 0
  let suffixlen := if hasSuffix then ofLE ((data.drop readSize).take 2) else 0
  let readSize := readSize + if hasSuffix then 2 else 0
  { tHoff := tHoff, prefixlen := prefixlen, suffixlen := suffixlen, readSize := readSize }

/-- `CopyTupleFromUndoRecord`; `none` is a PANIC. -/
def copyTupleFromUndoRecord (rec : RowUndo) (m : Mem) (rp : RowPtr) : Option (Mem × RowPtr) := do
  guard (rp.flags = .normal)
  let off := rp.offset
  let data := rec.rawdata
  let subxidSize := if rec.containSubXact then 8 else 0
  match rec.utype with
  | .delete | .update =>
    -- an update's payload ends in the CTID of the new tuple
    let extraDataLen := (if rec.utype = .update then 6 else 0) + subxidSize
    let undoTupleLen := data.length - extraDataLen
    let rp ← rp.changeLen (undoTupleLen + offsetTdId)
    let m := m.write (off + offsetTdId) (data.take undoTupleLen)
    return (m.write off (toLE 4 frozenTransactionId), rp)
  | .inplaceUpdate =>
    let h := readDeltaHeader data
    let oldDataLen := data.length - h.readSize - subxidSize
    let oldlen := oldDataLen + h.prefixlen + h.suffixlen
    let rowHoff := getHoff m off
    let newlen := rp.len - rowHoff
    let newp := off + rowHoff + h.prefixlen
    let oldDisktuple := toLE 4 frozenTransactionId ++ (data.drop 1).take (h.tHoff - offsetTdId) ++
      m.read (off + rowHoff) h.prefixlen ++ (data.drop h.readSize).take oldDataLen ++
      m.read (newp + newlen - h.prefixlen - h.suffixlen) h.suffixlen
    let rp ← rp.changeLen (oldlen + h.tHoff)
    return (m.write off oldDisktuple, rp)
  | .itemidUnused | .insert | .multiInsert => none

/-! ## The delta -/

lemma matchLen_le (p q : Nat → UInt8) (limit : Nat) : matchLen p q limit ≤ limit := by
  calc matchLen p q limit ≤ (List.range limit).length := (List.takeWhile_prefix _).length_le
    _ = limit := List.length_range

variable {i : Nat} {newp : List UInt8} {m : Mem} {rp : RowPtr} {new : UHeapDiskTuple}

lemma eq_of_lt_matchLen {p q : Nat → UInt8} {limit : Nat} (h : i < matchLen p q limit) : p i = q i := by
  have hpre := List.takeWhile_prefix (fun i => p i == q i) (l := List.range limit)
  have hget := hpre.getElem h
  have hall := List.all_takeWhile (p := fun i => p i == q i) (l := List.range limit)
  have hmem := List.all_eq_true.mp hall _ (List.getElem_mem h)
  rw [hget, List.getElem_range] at hmem
  simpa using hmem

/-- What the comparison guarantees: the two areas agree on the kept-out ends, which do not overlap in either. -/
structure XorDelta.Matches (d : XorDelta) (oldp newp : List UInt8) : Prop where
  fits : d.prefixlen + d.suffixlen ≤ oldp.length
  fits_new : d.prefixlen + d.suffixlen ≤ newp.length
  front : oldp.take d.prefixlen = newp.take d.prefixlen
  back : oldp.drop (oldp.length - d.suffixlen) = newp.drop (newp.length - d.suffixlen)
  prefix_flag : d.flags &&& xorPrefix ≠ 0 ↔ 0 < d.prefixlen
  suffix_flag : d.flags &&& xorSuffix ≠ 0 ↔ 0 < d.suffixlen

lemma take_eq_of_getD {p q : List UInt8} {n : Nat} (hp : n ≤ p.length) (hq : n ≤ q.length)
    (h : ∀ i < n, p.getD i 0 = q.getD i 0) : p.take n = q.take n := by
  apply List.ext_getElem
  · simp [hp, hq]
  · intro i h1 _
    have hi : i < n := by simpa using And.left (by simpa using h1)
    have he := h i hi
    rw [List.getD_eq_getElem _ _ (by omega), List.getD_eq_getElem _ _ (by omega)] at he
    simpa using he

lemma drop_eq_of_getD {p q : List UInt8} {n : Nat} (hp : n ≤ p.length) (hq : n ≤ q.length)
    (h : ∀ i < n, p.getD (p.length - 1 - i) 0 = q.getD (q.length - 1 - i) 0) :
    p.drop (p.length - n) = q.drop (q.length - n) := by
  apply List.ext_getElem
  · rw [List.length_drop, List.length_drop]
    omega
  · intro i h1 _
    have hi : i < n := by
      rw [List.length_drop] at h1
      omega
    -- byte `i` of the ends is byte `n - 1 - i` from behind
    have he := h (n - 1 - i) (by omega)
    have hpi : p.length - 1 - (n - 1 - i) = p.length - n + i := by omega
    have hqi : q.length - 1 - (n - 1 - i) = q.length - n + i := by omega
    rw [hpi, hqi, List.getD_eq_getElem _ _ (by omega), List.getD_eq_getElem _ _ (by omega)] at he
    simpa using he

lemma xorDelta_matches (delta : Bool) (oldp newp : List UInt8) :
    (xorDelta delta oldp newp).Matches oldp newp := by
  cases delta with
  | false => constructor <;> simp [xorDelta]
  | true =>
    simp only [xorDelta, if_true]
    generalize hP : matchLen (oldp.getD · 0) (newp.getD · 0) (min oldp.length newp.length) = P
    have hPle : P ≤ min oldp.length newp.length := by
      rw [← hP]
      exact matchLen_le _ _ _
    have hPeq : ∀ i < P, oldp.getD i 0 = newp.getD i 0 := by
      intro i hi
      rw [← hP] at hi
      exact eq_of_lt_matchLen hi
    generalize hp : (if P < minSavingLen then 0 else P) = p
    have hpP : p ≤ P := by
      rw [← hp]
      split <;> omega
    generalize hS : matchLen (fun i => oldp.getD (oldp.length - 1 - i) 0)
      (fun i => newp.getD (newp.length - 1 - i) 0) (min oldp.length newp.length - p) = S
    have hSle : S ≤ min oldp.length newp.length - p := by
      rw [← hS]
      exact matchLen_le _ _ _
    have hSeq : ∀ i < S, oldp.getD (oldp.length - 1 - i) 0 = newp.getD (newp.length - 1 - i) 0 := by
      intro i hi
      rw [← hS] at hi
      exact eq_of_lt_matchLen hi
    generalize hs : (if S < minSavingLen then 0 else S) = s
    have hsS : s ≤ S := by
      rw [← hs]
      split <;> omega
    have hfit : p + s ≤ min oldp.length newp.length := by omega
    have hfront : oldp.take p = newp.take p :=
      take_eq_of_getD (by omega) (by omega) fun i hi => hPeq i (by omega)
    have hback : oldp.drop (oldp.length - s) = newp.drop (newp.length - s) :=
      drop_eq_of_getD (by omega) (by omega) fun i hi => hSeq i (by omega)
    refine ⟨hfit.trans (min_le_left _ _), hfit.trans (min_le_right _ _), hfront, hback, ?_, ?_⟩
    all_goals
      by_cases h1 : p = 0 <;> by_cases h2 : s = 0 <;>
        simp only [h1, h2, if_true, if_false, Nat.pos_iff_ne_zero, ne_eq, not_false_iff] <;> decide

/-- The old area from the payload's middle part and the ends of the new area. -/
lemma XorDelta.Matches.old_eq {d : XorDelta} {oldp : List UInt8} (h : d.Matches oldp newp) :
    newp.take d.prefixlen ++ (oldp.drop d.prefixlen).take (oldp.length - d.prefixlen - d.suffixlen) ++
      newp.drop (newp.length - d.suffixlen) = oldp := by
  have hfit := h.fits
  have hback : oldp.drop (oldp.length - d.suffixlen) =
      (oldp.drop d.prefixlen).drop (oldp.length - d.prefixlen - d.suffixlen) := by
    rw [List.drop_drop]
    congr 1
    omega
  rw [← h.front, ← h.back, hback, List.append_assoc, List.take_append_drop, List.take_append_drop]

/-! ## The row after the update -/

/-- The row holds the tuple `new` in the place of one of size `oldSize`: a shorter tuple leaves the length of the
    row pointer as it is. -/
structure RowHolds (m : Mem) (rp : RowPtr) (oldSize : Nat) (new : UHeapDiskTuple) : Prop where
  normal : rp.flags = .normal
  len : rp.len = max oldSize new.size
  inPage : rp.offset + rp.len ≤ blcksz
  tHoff : getHoff m rp.offset = new.tHoff
  body : m.read (rp.offset + sizeOfUHeapDiskTupleData) (new.size - sizeOfUHeapDiskTupleData) =
    new.bytes.drop sizeOfUHeapDiskTupleData

namespace UHeapDiskTuple

variable (t : UHeapDiskTuple)

lemma size_ge : sizeOfUHeapDiskTupleData ≤ t.size := t.hoff_ge.trans t.hoff_le

lemma tHoff_le : t.tHoff ≤ t.size := t.hoff_le

lemma tHoff_ge : sizeOfUHeapDiskTupleData ≤ t.tHoff := t.hoff_ge

@[simp]
lemma data_length : t.data.length = t.size - t.tHoff := List.length_drop

lemma toUInt8_tHoff : UInt8.ofNat t.tHoff = t.bytes.getD 10 0 := UInt8.ofNat_toNat

end UHeapDiskTuple

/-- The data area of a row that holds `new`. -/
lemma RowHolds.read_data {oldSize : Nat} (h : RowHolds m rp oldSize new) :
    m.read (rp.offset + new.tHoff) (new.size - new.tHoff) = new.data := by
  have hge := new.tHoff_ge
  have hle := new.tHoff_le
  have hdrop := congrArg (List.drop (new.tHoff - sizeOfUHeapDiskTupleData)) h.body
  rw [Mem.read_drop (by omega), List.drop_drop] at hdrop
  have ho : rp.offset + sizeOfUHeapDiskTupleData + (new.tHoff - sizeOfUHeapDiskTupleData) =
      rp.offset + new.tHoff := by omega
  have hn : new.size - sizeOfUHeapDiskTupleData - (new.tHoff - sizeOfUHeapDiskTupleData) =
      new.size - new.tHoff := by omega
  have hd : sizeOfUHeapDiskTupleData + (new.tHoff - sizeOfUHeapDiskTupleData) = new.tHoff := by omega
  rw [ho, hn, hd] at hdrop
  exact hdrop

lemma setFlag_out (m : Mem) (off : Nat) (flag : UInt16) (h : off + 8 ≤ i) : setFlag m off flag i = m i := by
  apply Mem.write_out
  rw [toLE_length]
  omega

lemma setFlag2_out (m : Mem) (off : Nat) (flag : UInt16) (h : off + 10 ≤ i) : setFlag2 m off flag i = m i := by
  apply Mem.write_out
  rw [toLE_length]
  omega

/-- The header changes stay within the fixed part of the header. -/
lemma markOldTuple_body (m : Mem) (off : Nat) (tdSlot : UInt8) (tupleXid : UInt32)
    (h : off + sizeOfUHeapDiskTupleData ≤ i) : markOldTuple m off tdSlot tupleXid i = m i := by
  simp only [sizeOfUHeapDiskTupleData] at h
  rw [markOldTuple, Mem.write_out (by rw [toLE_length]; omega), setFlag_out _ _ _ (by omega),
    setFlag_out _ _ _ (by omega), setFlag_out _ _ _ (by omega),
    Mem.write_out (by simp only [List.length_singleton, offsetTdId]; omega)]

lemma getHoff_copyNewTuple (m : Mem) (off : Nat) (new : UHeapDiskTuple) :
    getHoff (copyNewTuple m off new) off = new.tHoff := by
  rw [getHoff, copyNewTuple, Mem.write_in le_rfl (by simp), Nat.sub_self, List.getD_cons_zero,
    new.toUInt8_tHoff, UHeapDiskTuple.tHoff]

lemma copyNewTuple_body (m : Mem) (off : Nat) (new : UHeapDiskTuple) :
    (copyNewTuple m off new).read (off + sizeOfUHeapDiskTupleData) (new.size - sizeOfUHeapDiskTupleData) =
      new.bytes.drop sizeOfUHeapDiskTupleData := by
  have hlen : new.size - sizeOfUHeapDiskTupleData = (new.bytes.drop sizeOfUHeapDiskTupleData).length := by
    rw [List.length_drop, UHeapDiskTuple.size]
  rw [hlen, Mem.read_eq_iff]
  intro i hi
  have hs : sizeOfUHeapDiskTupleData = 11 := rfl
  -- the flags and the header length stand before the copied bytes
  rw [copyNewTuple, Mem.write_out (by rw [List.length_singleton]; omega), setFlag2_out _ _ _ (by omega),
    setFlag_out _ _ _ (by omega), setFlag_out _ _ _ (by omega), Mem.write_in (by omega) (by omega),
    Nat.add_sub_cancel_left]

lemma putInplaceUpdateTuple_eq_some (hfit : rp.offset + max rp.len new.size ≤ blcksz) :
    putInplaceUpdateTuple m rp new =
      some (copyNewTuple m rp.offset new, { rp with len := max rp.len new.size }) := by
  have hrp : (if new.size > rp.len then rp.changeLen new.size else some rp) =
      some { rp with len := max rp.len new.size } := by
    split
    next h => rw [RowPtr.changeLen, if_neg (by omega), max_eq_right h.le]
    next h => rw [max_eq_left (by omega)]
  rw [putInplaceUpdateTuple, hrp]
  rfl

/-- The payload of an in-place update, in closed form. -/
def payload (d : XorDelta) (old : UHeapDiskTuple) (subxid : Option SubTransactionId) : List UInt8 :=
  [UInt8.ofNat old.tHoff] ++ (old.bytes.drop offsetTdId).take (old.tHoff - offsetTdId) ++ [d.flags] ++
    (if d.prefixlen > 0 then toLE 2 d.prefixlen else []) ++ (if d.suffixlen > 0 then toLE 2 d.suffixlen else []) ++
    (old.data.drop d.prefixlen).take (old.data.length - d.prefixlen - d.suffixlen) ++
    (subxid.elim [] fun s => toLE 8 s.1.toNat)

lemma payload_length {d : XorDelta} {old : UHeapDiskTuple} (hd : d.Matches old.data newp)
    (subxid : Option SubTransactionId) : (payload d old subxid).length =
      reservedLen (undoXorDeltaSize d old.tHoff (old.size - old.tHoff)) subxid := by
  have hfit := hd.fits
  have hge := old.tHoff_ge
  have hle := old.tHoff_le
  have hsize : old.bytes.length = old.size := rfl
  have hP : (if d.prefixlen > 0 then toLE 2 d.prefixlen else []).length = if d.prefixlen > 0 then 2 else 0 := by
    split <;> simp
  have hS : (if d.suffixlen > 0 then toLE 2 d.suffixlen else []).length = if d.suffixlen > 0 then 2 else 0 := by
    split <;> simp
  have hsub : (subxid.elim [] fun s => toLE 8 s.1.toNat).length = subxidSize subxid := by
    cases subxid <;> simp [subxidSize]
  simp only [payload, List.length_append, hP, hS, hsub, List.length_singleton, List.length_take, List.length_drop,
    hsize, UHeapDiskTuple.data_length, reservedLen, undoXorDeltaSize] at hfit ⊢
  omega

/-- The reads that `UHeapUpdate` makes of a row that holds `old`. -/
lemma reads_of_row {old : UHeapDiskTuple} (hold : m.read rp.offset rp.len = old.bytes) :
    rp.len = old.size ∧ getHoff m rp.offset = old.tHoff ∧
      m.read (rp.offset + old.tHoff) (old.size - old.tHoff) = old.data ∧
      m.read (rp.offset + offsetTdId) (old.tHoff - offsetTdId) =
        (old.bytes.drop offsetTdId).take (old.tHoff - offsetTdId) := by
  have hlen : rp.len = old.size := by
    rw [UHeapDiskTuple.size, ← hold, Mem.read_length]
  have hge := old.tHoff_ge
  have hle := old.tHoff_le
  have hs : sizeOfUHeapDiskTupleData = 11 := rfl
  have ho : offsetTdId = 4 := rfl
  rw [hlen] at hold
  refine ⟨hlen, ?_, ?_, ?_⟩
  · rw [getHoff, UHeapDiskTuple.tHoff, ← hold, Mem.read_getD (by omega)]
  · rw [UHeapDiskTuple.data, ← hold, Mem.read_drop hle]
  · rw [← hold, Mem.read_drop (by omega), Mem.read_take (by omega)]

/-- The delta that `UHeapUpdate` computes for a row that holds `old`. -/
def inplaceDelta (logicallyLogged : Bool) (old new : UHeapDiskTuple) : XorDelta :=
  xorDelta (new.size == old.size && !logicallyLogged) old.data new.data

lemma inplaceDelta_suffix {logicallyLogged : Bool} {old : UHeapDiskTuple} (h : new.size ≠ old.size) :
    (inplaceDelta logicallyLogged old new).suffixlen = 0 := by
  simp [inplaceDelta, xorDelta, h]

lemma uheapUpdateInplace_eq {old : UHeapDiskTuple} (hold : m.read rp.offset rp.len = old.bytes)
    (hfit : rp.offset + max rp.len new.size ≤ blcksz) (logicallyLogged : Bool) (tdSlot : UInt8) (tupleXid : UInt32)
    (subxid : Option SubTransactionId) :
    uheapUpdateInplace logicallyLogged m rp new tdSlot tupleXid subxid =
      some { mem := copyNewTuple (markOldTuple m rp.offset tdSlot tupleXid) rp.offset new
             rp := { rp with len := max rp.len new.size }
             reserved := reservedLen (undoXorDeltaSize (inplaceDelta logicallyLogged old new) old.tHoff
               (old.size - old.tHoff)) subxid
             undorec := { utype := .inplaceUpdate, containSubXact := subxid.isSome
                          rawdata := payload (inplaceDelta logicallyLogged old new) old subxid } } := by
  obtain ⟨hlen, hhoff, hdata, hhdr⟩ := reads_of_row hold
  have hD : xorDelta (new.size == old.size && !logicallyLogged) old.data new.data =
    inplaceDelta logicallyLogged old new := rfl
  have hd := xorDelta_matches (new.size == old.size && !logicallyLogged) old.data new.data
  rw [hD] at hd
  have hput := putInplaceUpdateTuple_eq_some (m := markOldTuple m rp.offset tdSlot tupleXid) hfit
  simp only [uheapUpdateInplace, hhoff, hlen, hdata, hhdr, hD]
  generalize inplaceDelta logicallyLogged old new = d at hd
  have hge := old.tHoff_ge
  have hfits := hd.fits
  rw [old.data_length] at hfits
  -- the marking of the old tuple does not reach its data area
  have hmid : (markOldTuple m rp.offset tdSlot tupleXid).read (rp.offset + old.tHoff + d.prefixlen)
        (old.size - old.tHoff - d.prefixlen - d.suffixlen) =
      (old.data.drop d.prefixlen).take (old.data.length - d.prefixlen - d.suffixlen) := by
    rw [old.data_length, ← hdata, Mem.read_drop (by omega), Mem.read_take (by omega), Nat.add_assoc]
    apply Mem.read_congr
    intro i _
    exact markOldTuple_body _ _ _ _ (by omega)
  have hraw : ∀ raw : List UInt8, (if d.suffixlen > 0
      then (if d.prefixlen > 0 then raw ++ toLE 2 d.prefixlen else raw) ++ toLE 2 d.suffixlen
      else if d.prefixlen > 0 then raw ++ toLE 2 d.prefixlen else raw) =
      raw ++ (if d.prefixlen > 0 then toLE 2 d.prefixlen else []) ++
        (if d.suffixlen > 0 then toLE 2 d.suffixlen else []) := by
    intro raw
    split <;> split <;> simp
  have hsize := payload_length hd none
  rw [hlen] at hput
  simp only [payload, Option.elim_none, List.append_nil, reservedLen, subxidSize, Option.isSome_none,
    Bool.false_eq_true, if_false, Nat.add_zero] at hsize
  simp only [hraw, hmid, hsize, hput, guard]
  cases subxid <;> simp [payload]

/-! ## Restoring the row -/

section Decode

variable (d : XorDelta) (old : UHeapDiskTuple) (subxid : Option SubTransactionId)

lemma payload_tHoff : ((payload d old subxid).getD 0 0).toNat = old.tHoff := by
  simp [payload, old.toUInt8_tHoff]
  rfl

lemma payload_header : ((payload d old subxid).drop 1).take (old.tHoff - offsetTdId) =
      (old.bytes.drop offsetTdId).take (old.tHoff - offsetTdId) := by
  have hle : old.tHoff ≤ old.bytes.length := old.tHoff_le
  simp only [payload, List.append_assoc, List.singleton_append]
  apply List.take_left'
  rw [List.length_take, List.length_drop]
  omega

/-- What follows the header part of the payload. -/
lemma payload_drop : (payload d old subxid).drop (1 + (old.tHoff - offsetTdId)) = d.flags ::
      ((if d.prefixlen > 0 then toLE 2 d.prefixlen else []) ++ ((if d.suffixlen > 0 then toLE 2 d.suffixlen else []) ++
        ((old.data.drop d.prefixlen).take (old.data.length - d.prefixlen - d.suffixlen) ++
          (subxid.elim [] fun s => toLE 8 s.1.toNat)))) := by
  have hle : old.tHoff ≤ old.bytes.length := old.tHoff_le
  rw [← List.drop_drop]
  simp only [payload, List.append_assoc, List.singleton_append]
  apply List.drop_left'
  rw [List.length_take, List.length_drop]
  omega

end Decode

/-- Reading the optional 16-bit length that stands in front of `rest`. -/
lemma read_optional_len {n : Nat} (hn : n < 2 ^ 16) (rest : List UInt8) :
    (if 0 < n then ofLE (((if n > 0 then toLE 2 n else []) ++ rest).take 2) else 0) = n ∧
      ((if n > 0 then toLE 2 n else []) ++ rest).drop (if 0 < n then 2 else 0) = rest := by
  by_cases h : 0 < n
  · have hv : ofLE (toLE 2 n) = n := ofLE_toLE_of_lt (by norm_num at hn ⊢; exact hn)
    simp [h, hv]
  · simp [h]
    omega

/-- The part of the payload that follows the old data's length information. -/
lemma readDeltaHeader_payload {d : XorDelta} {old : UHeapDiskTuple} (hd : d.Matches old.data newp)
    (subxid : Option SubTransactionId) :
    readDeltaHeader (payload d old subxid) =
        { tHoff := old.tHoff, prefixlen := d.prefixlen, suffixlen := d.suffixlen
          readSize := 1 + (old.tHoff - offsetTdId) + 1 + (if 0 < d.prefixlen then 2 else 0) +
            if 0 < d.suffixlen then 2 else 0 } ∧
      (payload d old subxid).drop (1 + (old.tHoff - offsetTdId) + 1 + (if 0 < d.prefixlen then 2 else 0) +
          if 0 < d.suffixlen then 2 else 0) =
        (old.data.drop d.prefixlen).take (old.data.length - d.prefixlen - d.suffixlen) ++
          (subxid.elim [] fun s => toLE 8 s.1.toNat) := by
  have hfits := hd.fits
  have hlt : old.data.length < 2 ^ 15 := by
    have := old.size_lt
    rw [old.data_length, UHeapDiskTuple.size]
    omega
  have hdrop := payload_drop d old subxid
  have hflags : (payload d old subxid).getD (1 + (old.tHoff - offsetTdId)) 0 = d.flags := by
    have hget := congrArg (List.getD · 0 0) hdrop
    simpa [List.getD_eq_getElem?_getD] using hget
  generalize hmid : (old.data.drop d.prefixlen).take (old.data.length - d.prefixlen - d.suffixlen) ++
    (subxid.elim [] fun s => toLE 8 s.1.toNat) = rest at hdrop ⊢
  obtain ⟨hp, hpdrop⟩ := read_optional_len (n := d.prefixlen) (by omega)
    ((if d.suffixlen > 0 then toLE 2 d.suffixlen else []) ++ rest)
  obtain ⟨hs, hsdrop⟩ := read_optional_len (n := d.suffixlen) (by omega) rest
  have hdrop1 : (payload d old subxid).drop (1 + (old.tHoff - offsetTdId) + 1) =
      (if d.prefixlen > 0 then toLE 2 d.prefixlen else []) ++
        ((if d.suffixlen > 0 then toLE 2 d.suffixlen else []) ++ rest) := by
    rw [← List.drop_drop, hdrop, List.drop_one, List.tail_cons]
  have hdrop2 : (payload d old subxid).drop (1 + (old.tHoff - offsetTdId) + 1 + if 0 < d.prefixlen then 2 else 0) =
      (if d.suffixlen > 0 then toLE 2 d.suffixlen else []) ++ rest := by
    rw [← List.drop_drop, hdrop1, hpdrop]
  constructor
  · simp only [readDeltaHeader, payload_tHoff, hflags, hd.prefix_flag, hd.suffix_flag, decide_eq_true_eq, hdrop1,
      hdrop2, hp, hs]
  · rw [← List.drop_drop, hdrop2, hsdrop]

/-- The restored row is the old tuple with a frozen xid, whatever the header of the row says. -/
lemma copyTupleFromUndoRecord_payload {d : XorDelta} {old : UHeapDiskTuple} (hd : d.Matches old.data new.data)
    (hsuffix : new.size ≠ old.size → d.suffixlen = 0) (subxid : Option SubTransactionId)
    (hrow : RowHolds m rp old.size new) :
    copyTupleFromUndoRecord { utype := .inplaceUpdate, containSubXact := subxid.isSome
                              rawdata := payload d old subxid } m rp =
      some (m.write rp.offset (toLE 4 frozenTransactionId ++ old.bytes.drop offsetTdId),
        { rp with len := old.size }) := by
  obtain ⟨hheader, hdrop⟩ := readDeltaHeader_payload hd subxid
  have hlen := payload_length hd subxid
  have hhdr := payload_header d old subxid
  have hfits := hd.fits
  have hfits' := hd.fits_new
  rw [old.data_length] at hfits
  rw [new.data_length] at hfits'
  have hhoff := old.tHoff_le
  have hhoff' := new.tHoff_le
  have hhoff4 : offsetTdId ≤ old.tHoff := le_trans (by decide) old.tHoff_ge
  -- the length of the old data is what the payload holds besides its header part and the subxid
  have hdatalen : (payload d old subxid).length - (1 + (old.tHoff - offsetTdId) + 1 +
      (if 0 < d.prefixlen then 2 else 0) + if 0 < d.suffixlen then 2 else 0) -
        (if subxid.isSome = true then 8 else 0) = old.size - old.tHoff - d.prefixlen - d.suffixlen := by
    simp only [hlen, reservedLen, undoXorDeltaSize, subxidSize, gt_iff_lt]
    omega
  -- the ends of the old data are those of the data in the row
  have hfront : m.read (rp.offset + new.tHoff) d.prefixlen = new.data.take d.prefixlen := by
    rw [← hrow.read_data, Mem.read_take (by omega)]
  have hback : m.read (rp.offset + new.tHoff + d.prefixlen + (rp.len - new.tHoff) - d.prefixlen - d.suffixlen)
      d.suffixlen = new.data.drop (new.data.length - d.suffixlen) := by
    by_cases hsize : new.size = old.size
    · rw [new.data_length, ← hrow.read_data, Mem.read_drop (by omega)]
      have hl := hrow.len
      congr 1 <;> omega
    · simp [hsuffix hsize, Mem.read]
  have hmid : (((old.data.drop d.prefixlen).take (old.data.length - d.prefixlen - d.suffixlen) ++
      (subxid.elim [] fun s => toLE 8 s.1.toNat)).take (old.size - old.tHoff - d.prefixlen - d.suffixlen)) =
      (old.data.drop d.prefixlen).take (old.data.length - d.prefixlen - d.suffixlen) := by
    apply List.take_left'
    rw [List.length_take, List.length_drop, old.data_length]
    omega
  have hbytes : (old.bytes.drop offsetTdId).take (old.tHoff - offsetTdId) ++ old.data =
      old.bytes.drop offsetTdId := by
    have hd' : old.data = (old.bytes.drop offsetTdId).drop (old.tHoff - offsetTdId) := by
      rw [UHeapDiskTuple.data, List.drop_drop]
      congr 1
      omega
    rw [hd', List.take_append_drop]
  have hchange : rp.changeLen (old.size - old.tHoff - d.prefixlen - d.suffixlen + d.prefixlen + d.suffixlen +
      old.tHoff) = some { rp with len := old.size } := by
    have hin := hrow.inPage
    have hl := hrow.len
    have hsum : old.size - old.tHoff - d.prefixlen - d.suffixlen + d.prefixlen + d.suffixlen + old.tHoff =
        old.size := by omega
    rw [hsum, RowPtr.changeLen, if_neg (by omega)]
  simp only [copyTupleFromUndoRecord, hheader, hrow.normal, hrow.tHoff, hhdr, hdatalen, hdrop, hmid, hfront, hback,
    hchange, guard, if_true]
  have hold := hd.old_eq
  simp only [List.append_assoc] at hold ⊢
  rw [hold, hbytes]
  rfl

/-- An in-place update reserves undo space for exactly its payload, and the payload restores the old tuple, with a
    frozen xid, in any row that holds the new one; the rest of the page is left as it was. The callers of the
    update have made room for the longer of the two tuples. -/
theorem inplaceUpdate_undo {m : Mem} {rp : RowPtr} {old new : UHeapDiskTuple} (hnormal : rp.flags = .normal)
    (hold : m.read rp.offset rp.len = old.bytes) (hfit : rp.offset + max rp.len new.size ≤ blcksz)
    (logicallyLogged : Bool) (tdSlot : UInt8) (tupleXid : UInt32) (subxid : Option SubTransactionId) :
    ∃ u, uheapUpdateInplace logicallyLogged m rp new tdSlot tupleXid subxid = some u ∧
      u.undorec.rawdata.length = u.reserved ∧
      u.reserved = undoXorDeltaSize (xorDelta (new.size == old.size && !logicallyLogged) old.data new.data) old.tHoff
        (old.size - old.tHoff) + subxidSize subxid ∧
      RowHolds u.mem u.rp old.size new ∧
      ∀ m' rp', RowHolds m' rp' old.size new →
        ∃ m'', copyTupleFromUndoRecord u.undorec m' rp' = some (m'', { rp' with len := old.size }) ∧
          m''.read rp'.offset old.size = toLE 4 frozenTransactionId ++ old.bytes.drop offsetTdId ∧
          ∀ i, i < rp'.offset ∨ rp'.offset + old.size ≤ i → m'' i = m' i := by
  have hd : (inplaceDelta logicallyLogged old new).Matches old.data new.data := xorDelta_matches _ _ _
  have hlen : rp.len = old.size := (reads_of_row hold).1
  refine ⟨_, uheapUpdateInplace_eq hold hfit logicallyLogged tdSlot tupleXid subxid, payload_length hd subxid, rfl,
    ?_, ?_⟩
  · exact ⟨hnormal, by rw [hlen], hfit, getHoff_copyNewTuple _ _ _, copyNewTuple_body _ _ _⟩
  · intro m' rp' hrow
    have hbytes : (toLE 4 frozenTransactionId ++ old.bytes.drop offsetTdId).length = old.size := by
      have hge := old.size_ge
      simp only [List.length_append, toLE_length, List.length_drop, UHeapDiskTuple.size, offsetTdId,
        sizeOfUHeapDiskTupleData] at hge ⊢
      omega
    refine ⟨_, copyTupleFromUndoRecord_payload hd inplaceDelta_suffix subxid hrow, ?_, ?_⟩
    · rw [← hbytes, Mem.read_write]
    · intro i hi
      exact Mem.write_out (by rw [hbytes]; exact hi)

/-- A tuple of 22 bytes without a null bitmap. -/
def sampleOld : UHeapDiskTuple :=
  ⟨[9, 0, 0, 0, 1, 0, 0, 0, 4, 0, 11, 1, 2, 3, 4, 5, 6, 7, 8, 9, 10, 11], by decide, by decide, by decide⟩

/-- A tuple of 22 bytes with a null bitmap of one byte. -/
def sampleNew : UHeapDiskTuple :=
  ⟨[9, 0, 0, 0, 2, 0, 1, 0, 4, 0, 12, 7, 1, 2, 3, 4, 0, 7, 8, 9, 10, 11], by decide, by decide, by decide⟩

def samplePage : Mem := Mem.write (fun _ => 0) 100 sampleOld.bytes

theorem inplaceUpdate_undo_nulls :
    ∃ u, uheapUpdateInplace false samplePage ⟨100, .normal, 22⟩ sampleNew 3 77 (some ⟨2, by decide⟩) = some u ∧
      u.undorec.rawdata.length = u.reserved ∧
      u.reserved = undoXorDeltaSize (xorDelta (sampleNew.size == sampleOld.size && !false) sampleOld.data
        sampleNew.data) sampleOld.tHoff (sampleOld.size - sampleOld.tHoff) + subxidSize (some ⟨2, by decide⟩) ∧
      RowHolds u.mem u.rp sampleOld.size sampleNew ∧
      ∀ m' rp', RowHolds m' rp' sampleOld.size sampleNew →
        ∃ m'', copyTupleFromUndoRecord u.undorec m' rp' = some (m'', { rp' with len := sampleOld.size }) ∧
          m''.read rp'.offset sampleOld.size = toLE 4 frozenTransactionId ++ sampleOld.bytes.drop offsetTdId ∧
          ∀ i, i < rp'.offset ∨ rp'.offset + sampleOld.size ≤ i → m'' i = m' i :=
  inplaceUpdate_undo (m := samplePage) rfl (by decide) (by decide) false 3 77
    (some ⟨2, by decide⟩)

end GaussKernel.UHeap
