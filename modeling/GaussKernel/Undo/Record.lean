import GaussKernel.Lib.Resume
import GaussKernel.Undo.Ptr

/-!
# Undo records

Model of `access/ustore/knl_uundorecord.cpp`: the fixed structures of an undo record, the resumable
writer `append` (C++ `UndoRecord::Append`) and the resumable reader `readUndoRecord`/`load` (C++
`UndoRecord::ReadUndoRecord`/`UndoRecord::Load`).

An undo record is a sequence of up to eight *parts*, each copied to and from the page as raw bytes:
the header and the block part always, the others when the record's `uinfo` flags select them. Both the
writer and the reader may stop at any byte of any part because the page ends there; on the next page
they start over from the first part and find their place from the running byte count alone. The source
writes this as one call per part under an `if` on the flag; here the calls are a loop over the list
`parts` in the source's order, with `selected` for the flag test.

`encode` is what the writer lays out over any number of pages (`insertParts_eq`, `append_eq`); `restored`
is what the reader must hand back for it (`load_eq`, in `RecordLoad.lean`).
-/

namespace GaussKernel.Undo

open Lib

/-! ## Structures -/

/-- `UndoRecordHeader`: 22 bytes. -/
structure UndoRecordHeader where
  xid : UInt64
  cid : UInt32
  reloid : UInt32
  relfilenode : UInt32
  utype : UInt8
  uinfo : UInt8
  deriving DecidableEq, Repr

/-- `UndoRecordBlock`: 14 bytes. -/
structure UndoRecordBlock where
  blkprev : UInt64
  blkno : UInt32
  offset : UInt16
  deriving DecidableEq, Repr

/-- `StringInfoData`, the payload buffer: `data` is `none` for a null pointer. -/
structure StringInfoData where
  data : Option (List UInt8)
  len : Nat
  deriving DecidableEq, Repr

/-- The class `UndoRecord`, without the buffer handle and memory context. `wtxn`, `wpay`, `wtd`,
    `wpart` and `wtspc` are the one-field structures of the source. -/
structure UndoRecord where
  whdr : UndoRecordHeader
  wblk : UndoRecordBlock
  prevurp : UInt64
  payloadlen : UInt16
  oldxactid : UInt64
  partitionoid : UInt32
  tablespace : UInt32
  rawdata : StringInfoData
  urp : Nat
  bufidx : Option Nat
  needInsert : Bool
  isCopy : Bool
  deriving DecidableEq, Repr

/-- Flag bits of `uinfo` (`UNDO_UREC_INFO_*`). -/
abbrev uinfoPayload : UInt8 := 0x01
abbrev uinfoTransac : UInt8 := 0x02
abbrev uinfoOldtd : UInt8 := 0x08
abbrev uinfoHasPartoid : UInt8 := 0x20
abbrev uinfoHasTablespaceoid : UInt8 := 0x40

/-- Special transaction ids. -/
abbrev invalidTransactionId : UInt64 := 0
abbrev frozenTransactionId : UInt64 := 2

namespace UndoRecordHeader

/-- The widths of the header's fields. -/
abbrev widths : List Nat := [8, 4, 4, 4, 1, 1]

/-- The header as the bytes it occupies. -/
def bytes (h : UndoRecordHeader) : List UInt8 :=
  pack widths [h.xid.toNat, h.cid.toNat, h.reloid.toNat, h.relfilenode.toNat, h.utype.toNat,
    h.uinfo.toNat]

/-- The header that 22 bytes hold. -/
def ofBytes (bs : List UInt8) : UndoRecordHeader :=
  let f := unpack widths bs
  { xid := .ofNat (f.getD 0 0), cid := .ofNat (f.getD 1 0), reloid := .ofNat (f.getD 2 0)
    relfilenode := .ofNat (f.getD 3 0), utype := .ofNat (f.getD 4 0), uinfo := .ofNat (f.getD 5 0) }

end UndoRecordHeader

namespace UndoRecordBlock

/-- The widths of the block part's fields. -/
abbrev widths : List Nat := [8, 4, 2]

/-- The block part as the bytes it occupies. -/
def bytes (b : UndoRecordBlock) : List UInt8 :=
  pack widths [b.blkprev.toNat, b.blkno.toNat, b.offset.toNat]

/-- The block part that 14 bytes hold. -/
def ofBytes (bs : List UInt8) : UndoRecordBlock :=
  let f := unpack widths bs
  { blkprev := .ofNat (f.getD 0 0), blkno := .ofNat (f.getD 1 0), offset := .ofNat (f.getD 2 0) }

end UndoRecordBlock

namespace UndoRecordHeader

/-- The header occupies 22 bytes (`SIZE_OF_UNDO_RECORD_HEADER`). -/
@[simp]
lemma bytes_length (h : UndoRecordHeader) : h.bytes.length = 22 :=
  pack_length rfl

/-- Reading the bytes of a header gives the header back. -/
@[simp]
lemma ofBytes_bytes (h : UndoRecordHeader) : ofBytes h.bytes = h := by
  have hf : unpack widths h.bytes = [h.xid.toNat, h.cid.toNat, h.reloid.toNat,
      h.relfilenode.toNat, h.utype.toNat, h.uinfo.toNat] := by
    apply unpack_pack
    simp only [List.forall₂_cons, List.forall₂_nil_right_iff, and_true]
    exact ⟨h.xid.toNat_lt, h.cid.toNat_lt, h.reloid.toNat_lt, h.relfilenode.toNat_lt,
      h.utype.toNat_lt, h.uinfo.toNat_lt⟩
  simp [ofBytes, hf]

/-- Any 22 bytes are the bytes of the header they hold. -/
lemma bytes_ofBytes {bs : List UInt8} (h : bs.length = 22) : (ofBytes bs).bytes = bs := by
  have hlt := unpack_lt widths bs
  have hpack : pack widths (unpack widths bs) = bs := pack_unpack h
  rw [bytes, ofBytes]
  conv_rhs => rw [← hpack]
  generalize unpack widths bs = f at hlt
  obtain _ | ⟨hx, _ | ⟨hc, _ | ⟨hr, _ | ⟨hn, _ | ⟨ht, _ | ⟨hu, _ | _⟩⟩⟩⟩⟩⟩ := hlt
  simp only [List.getD_cons_zero, List.getD_cons_succ, UInt64.toNat_ofNat_of_lt' hx,
    UInt32.toNat_ofNat_of_lt' hc, UInt32.toNat_ofNat_of_lt' hr, UInt32.toNat_ofNat_of_lt' hn,
    UInt8.toNat_ofNat_of_lt' ht, UInt8.toNat_ofNat_of_lt' hu]

end UndoRecordHeader

namespace UndoRecordBlock

/-- The block part occupies 14 bytes (`SIZE_OF_UNDO_RECORD_BLOCK`). -/
@[simp]
lemma bytes_length (b : UndoRecordBlock) : b.bytes.length = 14 :=
  pack_length rfl

/-- Reading the bytes of a block part gives it back. -/
@[simp]
lemma ofBytes_bytes (b : UndoRecordBlock) : ofBytes b.bytes = b := by
  have hf : unpack widths b.bytes = [b.blkprev.toNat, b.blkno.toNat, b.offset.toNat] := by
    apply unpack_pack
    simp only [List.forall₂_cons, List.forall₂_nil_right_iff, and_true]
    exact ⟨b.blkprev.toNat_lt, b.blkno.toNat_lt, b.offset.toNat_lt⟩
  simp [ofBytes, hf]

/-- Any 14 bytes are the bytes of the block part they hold. -/
lemma bytes_ofBytes {bs : List UInt8} (h : bs.length = 14) : (ofBytes bs).bytes = bs := by
  have hlt := unpack_lt widths bs
  have hpack : pack widths (unpack widths bs) = bs := pack_unpack h
  rw [bytes, ofBytes]
  conv_rhs => rw [← hpack]
  generalize unpack widths bs = f at hlt
  obtain _ | ⟨hp, _ | ⟨hb, _ | ⟨ho, _ | _⟩⟩⟩ := hlt
  simp only [List.getD_cons_zero, List.getD_cons_succ, UInt64.toNat_ofNat_of_lt' hp,
    UInt32.toNat_ofNat_of_lt' hb, UInt16.toNat_ofNat_of_lt' ho]

end UndoRecordBlock

/-! ## Parts -/

/-- The fixed-size parts of a record, in the order in which they are laid out. -/
inductive Part where
  | whdr | wblk | wtxn | wtd | wpart | wtspc | wpay
  deriving DecidableEq, Repr

/-- All fixed parts in layout order. -/
def parts : List Part :=
  [.whdr, .wblk, .wtxn, .wtd, .wpart, .wtspc, .wpay]

namespace UndoRecord

/-- Does the record carry this flag? -/
def has (u : UndoRecord) (flag : UInt8) : Bool :=
  u.whdr.uinfo &&& flag != 0

/-- Is the part present in the record? -/
def selected (u : UndoRecord) : Part → Bool
  | .whdr => true
  | .wblk => true
  | .wtxn => u.has uinfoTransac
  | .wtd => u.has uinfoOldtd
  | .wpart => u.has uinfoHasPartoid
  | .wtspc => u.has uinfoHasTablespaceoid
  | .wpay => u.has uinfoPayload

/-- The bytes of a part (the C++ cast `(char *)&part`). -/
def getPart (u : UndoRecord) : Part → List UInt8
  | .whdr => u.whdr.bytes
  | .wblk => u.wblk.bytes
  | .wtxn => toLE 8 u.prevurp.toNat
  | .wtd => toLE 8 u.oldxactid.toNat
  | .wpart => toLE 4 u.partitionoid.toNat
  | .wtspc => toLE 4 u.tablespace.toNat
  | .wpay => toLE 2 u.payloadlen.toNat

/-- Overwrite the bytes of a part. -/
def setPart (u : UndoRecord) : Part → List UInt8 → UndoRecord
  | .whdr, bs => { u with whdr := .ofBytes bs }
  | .wblk, bs => { u with wblk := .ofBytes bs }
  | .wtxn, bs => { u with prevurp := .ofNat (ofLE bs) }
  | .wtd, bs => { u with oldxactid := .ofNat (ofLE bs) }
  | .wpart, bs => { u with partitionoid := .ofNat (ofLE bs) }
  | .wtspc, bs => { u with tablespace := .ofNat (ofLE bs) }
  | .wpay, bs => { u with payloadlen := .ofNat (ofLE bs) }

end UndoRecord

/-- Bytes of a part (`SIZE_OF_UNDO_RECORD_*`). -/
def Part.size : Part → Nat
  | .whdr => 22
  | .wblk => 14
  | .wtxn => 8
  | .wtd => 8
  | .wpart => 4
  | .wtspc => 4
  | .wpay => 2

namespace UndoRecord

/-- A part has the size of its kind. -/
@[simp]
lemma getPart_length (u : UndoRecord) (p : Part) : (u.getPart p).length = p.size := by
  cases p <;> simp [getPart, Part.size]

variable {p : Part}

/-- A part reads back what was put there. -/
lemma getPart_setPart {u : UndoRecord} {bs : List UInt8} (h : bs.length = p.size) :
    (u.setPart p bs).getPart p = bs := by
  have hlt := ofLE_lt bs
  rw [h] at hlt
  cases p with
  | whdr => exact UndoRecordHeader.bytes_ofBytes h
  | wblk => exact UndoRecordBlock.bytes_ofBytes h
  | wtxn => simpa only [setPart, getPart, UInt64.toNat_ofNat_of_lt' hlt] using toLE_ofLE (w := 8) h
  | wtd => simpa only [setPart, getPart, UInt64.toNat_ofNat_of_lt' hlt] using toLE_ofLE (w := 8) h
  | wpart => simpa only [setPart, getPart, UInt32.toNat_ofNat_of_lt' hlt] using toLE_ofLE (w := 4) h
  | wtspc => simpa only [setPart, getPart, UInt32.toNat_ofNat_of_lt' hlt] using toLE_ofLE (w := 4) h
  | wpay => simpa only [setPart, getPart, UInt16.toNat_ofNat_of_lt' hlt] using toLE_ofLE (w := 2) h

/-- Putting a part of `t` into `u` copies the typed field; here for the part's own bytes. -/
@[simp]
lemma setPart_getPart (u : UndoRecord) (p : Part) : u.setPart p (u.getPart p) = u := by
  cases p with
  | whdr => simp [setPart, getPart]
  | wblk => simp [setPart, getPart]
  | wtxn => simp [setPart, getPart, ofLE_toLE_of_lt (w := 8) u.prevurp.toNat_lt]
  | wtd => simp [setPart, getPart, ofLE_toLE_of_lt (w := 8) u.oldxactid.toNat_lt]
  | wpart => simp [setPart, getPart, ofLE_toLE_of_lt (w := 4) u.partitionoid.toNat_lt]
  | wtspc => simp [setPart, getPart, ofLE_toLE_of_lt (w := 4) u.tablespace.toNat_lt]
  | wpay => simp [setPart, getPart, ofLE_toLE_of_lt (w := 2) u.payloadlen.toNat_lt]

/-- The last write of a part wins. -/
@[simp]
lemma setPart_setPart (u : UndoRecord) (p : Part) (as bs : List UInt8) :
    (u.setPart p as).setPart p bs = u.setPart p bs := by
  cases p <;> rfl

/-- Writes of different parts commute. -/
lemma setPart_comm {q : Part} (h : p ≠ q) (u : UndoRecord) (as bs : List UInt8) :
    (u.setPart p as).setPart q bs = (u.setPart q bs).setPart p as := by
  cases p <;> cases q <;> first | rfl | exact absurd rfl h

/-- Writing a part leaves the others. -/
lemma getPart_setPart_ne {q : Part} (h : p ≠ q) (u : UndoRecord) (bs : List UInt8) :
    (u.setPart p bs).getPart q = u.getPart q := by
  cases p <;> cases q <;> first | rfl | exact absurd rfl h

/-- Writing a part other than the header leaves the flags. -/
lemma selected_setPart (h : p ≠ .whdr) (u : UndoRecord) (bs : List UInt8) (q : Part) :
    (u.setPart p bs).selected q = u.selected q := by
  cases p <;> first | rfl | exact absurd rfl h

/-! ## Writing -/

/-- Bytes of the whole record on disk, its length field included; `recordSize` before it is cut to
    16 bits. -/
def rawSize (u : UndoRecord) : Nat :=
  22 + 14 + 2 +
    (if u.has uinfoPayload then 2 + u.rawdata.len else 0) +
    (if u.has uinfoTransac then 8 else 0) +
    (if u.has uinfoOldtd then 8 else 0) +
    (if u.has uinfoHasPartoid then 4 else 0) +
    (if u.has uinfoHasTablespaceoid then 4 else 0)

/-- C++ `UndoRecord::RecordSize`, a `uint16`. -/
def recordSize (u : UndoRecord) : Nat :=
  u.rawSize % 2 ^ 16

/-- The bytes the payload buffer holds. -/
def payload (u : UndoRecord) : List UInt8 :=
  (u.rawdata.data.getD []).take u.rawdata.len

/-- The assignment `wpay_.payloadlen = rawdata_.len` that `Append` makes before it lays out the payload
    part. -/
def setPayLoadLen (u : UndoRecord) : UndoRecord :=
  if u.has uinfoPayload then { u with payloadlen := .ofNat u.rawdata.len } else u

/-- What `Append` passes to `InsertUndoBytes`, call by call. -/
def chunks (u : UndoRecord) (undoLen : Nat) : List (List UInt8) :=
  (parts.filter u.selected).map u.getPart ++
    (if u.has uinfoPayload && u.payloadlen != 0 then [u.payload] else []) ++ [toLE 2 undoLen]

/-- C++ `UndoRecord::Append`: the record with its payload length set, the page, the running byte count
    and whether the record is complete. -/
def append (u : UndoRecord) (page : Mem) (startingByte alreadyWritten undoLen : Nat) :
    UndoRecord × Mem × Nat × Bool :=
  let u := u.setPayLoadLen
  let r := putAll blcksz (u.chunks undoLen) page ⟨startingByte, alreadyWritten, alreadyWritten⟩
  (u, r.1, r.2.1.already, r.2.2)

/-! ## Reading -/

/-- Read the parts one after the other until one does not end on the page; the flag of each part is
    tested on what has been read so far. -/
def readParts (page : Mem) : List Part → UndoRecord → Cursor → UndoRecord × Cursor × Bool
  | [], u, c => (u, c, true)
  | p :: ps, u, c =>
    if u.selected p then
      let r := get blcksz (u.getPart p) page c
      if r.2.2 then readParts page ps (u.setPart p r.1) r.2.1
      else (u.setPart p r.1, r.2.1, false)
    else readParts page ps u c

/-- The payload bytes, once the payload length is known: a pointer into the page when the caller keeps
    no copy and the whole record is on one page, a fresh buffer otherwise. -/
def readRawdata (page : Mem) (copyData isUndoSplited : Bool) (u : UndoRecord) (c : Cursor) :
    UndoRecord × Cursor × Bool :=
  let len := u.payloadlen.toNat
  if len = 0 then ({ u with rawdata := { u.rawdata with len := len } }, c, true)
  else if !copyData && !isUndoSplited && len ≤ blcksz - c.ptr then
    ({ u with rawdata := ⟨some (page.read c.ptr len), len⟩, isCopy := false }, c, true)
  else
    let r := get blcksz (u.rawdata.data.getD (List.replicate len 0)) page c
    ({ u with rawdata := ⟨some r.1, len⟩ }, r.2.1, r.2.2)

/-- C++ `UndoRecord::ReadUndoRecord`: the record, the running byte count and whether it is complete. -/
def readUndoRecord (u : UndoRecord) (page : Mem) (startingByte alreadyRead : Nat) (copyData : Bool) :
    UndoRecord × Nat × Bool :=
  let r := readParts page parts u ⟨startingByte, alreadyRead, alreadyRead⟩
  if r.2.2 && r.1.has uinfoPayload then
    let q := readRawdata page copyData (alreadyRead > 0) r.1 r.2.1
    (q.1, q.2.1.already, q.2.2)
  else (r.1, r.2.1.already, r.2.2)

end UndoRecord

/-- The pages of the undo buffers: zone, block, byte. -/
abbrev UndoPages := Nat → Nat → Mem

namespace UndoRecord

/-- The loop of `Load` over the pages of a record. `none` is the `PANIC` on an overlong record (or
    running out of `fuel`, which a record of any length does not reach). -/
def loadLoop (pages : UndoPages) (zoneId : Nat) (copyData : Bool) :
    Nat → Nat → Nat → Nat → UndoRecord → Option UndoRecord
  | 0, _, _, _, _ => none
  | fuel + 1, blk, startingByte, alreadyRead, u =>
    if alreadyRead > blcksz then none
    else
      let r := u.readUndoRecord (pages zoneId blk) startingByte alreadyRead copyData
      if r.2.2 then some r.1
      else loadLoop pages zoneId copyData fuel (blk + 1) undoLogBlockHeaderSize r.2.1 r.1

/-- C++ `UndoRecord::Load`. -/
def load (u : UndoRecord) (pages : UndoPages) (keepBuffer : Bool) : Option UndoRecord :=
  loadLoop pages (undoPtrGetZoneId u.urp) keepBuffer blcksz (undoPtrGetBlockNum u.urp)
    (undoPtrGetPageOffset u.urp) 0 u

/-- C++ `UndoRecord::Reset`: every field at its default value. -/
def reset (urp : Nat) : UndoRecord :=
  { whdr := ⟨invalidTransactionId, 0xFFFFFFFF, 0, 0, 0, 0⟩
    wblk := ⟨0, 0xFFFFFFFF, 0⟩
    prevurp := 0
    payloadlen := 0
    oldxactid := frozenTransactionId
    partitionoid := 0
    tablespace := 0
    rawdata := ⟨none, 0⟩
    urp := urp
    bufidx := none
    needInsert := false
    isCopy := true }

end UndoRecord

end GaussKernel.Undo
