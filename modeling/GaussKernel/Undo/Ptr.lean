import GaussKernel.Lib.Bytes

/-!
# Undo pointers

Model of `include/access/ustore/undo/knl_uundotype.h`. An undo pointer packs a 20-bit zone id over a
44-bit zone offset (`makeUndoPtr`, `undoPtrGetZoneId`, `undoPtrGetOffset`). A zone is an array of
`blcksz`-byte pages whose first `undoLogBlockHeaderSize` bytes are a page header, so that records are
placed on *usable* bytes only: `undoLogOffsetPlusUsableBytes` adds a length to an offset and steps over
the headers on the way.

All quantities are `uint64` in the source; they are natural numbers here and every operation that can
wrap reduces modulo `2 ^ 64`.

`usableNo` and `usablePos` are the unwrapped numbering of the usable bytes of one zone and its inverse:
the source's macros agree with them on every offset a record can have (`toUsableByteNo_eq`,
`plusUsableBytes_eq`), and all placement arguments are made on usable byte numbers.
-/

namespace GaussKernel.Undo

/-! ## Constants -/

/-- Bytes in a page (`BLCKSZ`). -/
abbrev blcksz : Nat := 8192

/-- Bytes of a page header (`UNDO_LOG_BLOCK_HEADER_SIZE`, `SizeOfPageHeaderData`). -/
abbrev undoLogBlockHeaderSize : Nat := 24

/-- Bytes of a page that records may use (`UNDO_LOG_USABLE_BYTES_PER_PAGE`). -/
abbrev undoLogUsableBytesPerPage : Nat := 8168

/-- Width of a zone offset in bits (`UNDO_LOG_OFFSET_BITS`). -/
abbrev undoLogOffsetBits : Nat := 44

/-- Bytes in a zone (`UNDO_LOG_MAX_SIZE`). -/
abbrev undoLogMaxSize : Nat := 2 ^ 44

/-- Number of zones (`UNDO_ZONE_COUNT`). -/
abbrev undoZoneCount : Nat := 1048576

/-- Zones of one persistence level (`PERSIST_ZONE_COUNT`). -/
abbrev persistZoneCount : Nat := undoZoneCount / 3

/-- Blocks in an undo segment file (`UNDOSEG_SIZE`). -/
abbrev undosegSize : Nat := 128

/-- Bytes in an undo segment file (`UNDO_LOG_SEGMENT_SIZE`). -/
abbrev undoLogSegmentSize : Nat := blcksz * undosegSize

/-- Blocks in an undo slot segment file (`UNDO_META_SEG_SIZE`). -/
abbrev undoMetaSegSize : Nat := 4

/-- Bytes in an undo slot segment file (`UNDO_META_SEGMENT_SIZE`). -/
abbrev undoMetaSegmentSize : Nat := blcksz * undoMetaSegSize

/-- The pointer that points nowhere (`INVALID_UNDO_REC_PTR`). -/
abbrev invalidUndoRecPtr : Nat := 0

/-! ## Packing -/

/-- Pack a zone id and an offset (`MAKE_UNDO_PTR`): the two are joined by a bitwise or, unmasked. -/
def makeUndoPtr (zid offset : Nat) : Nat :=
  ((zid <<< undoLogOffsetBits) % 2 ^ 64) ||| offset

/-- The zone of a pointer (`UNDO_PTR_GET_ZONE_ID`). -/
def undoPtrGetZoneId (urp : Nat) : Nat :=
  urp >>> undoLogOffsetBits

/-- The zone offset of a pointer (`UNDO_PTR_GET_OFFSET`). -/
def undoPtrGetOffset (urp : Nat) : Nat :=
  urp &&& (2 ^ undoLogOffsetBits - 1)

/-- The offset of a pointer inside its page (`UNDO_PTR_GET_PAGE_OFFSET`). -/
def undoPtrGetPageOffset (urp : Nat) : Nat :=
  undoPtrGetOffset urp % blcksz

/-- The block of a pointer (`UNDO_PTR_GET_BLOCK_NUM`). -/
def undoPtrGetBlockNum (urp : Nat) : Nat :=
  undoPtrGetOffset urp / blcksz

/-- The zone is the quotient by the zone size. -/
lemma getZoneId_eq (urp : Nat) : undoPtrGetZoneId urp = urp / 2 ^ 44 :=
  Nat.shiftRight_eq_div_pow ..

/-- The offset is the remainder by the zone size. -/
lemma getOffset_eq (urp : Nat) : undoPtrGetOffset urp = urp % 2 ^ 44 :=
  Nat.and_two_pow_sub_one_eq_mod ..

/-- An offset is below the zone size. -/
lemma getOffset_lt (urp : Nat) : undoPtrGetOffset urp < 2 ^ 44 := by
  rw [getOffset_eq]
  exact Nat.mod_lt _ (by norm_num)

variable {zid offset z : Nat}

/-- A 20-bit zone id survives the packing shift. -/
lemma shift_zone_eq (hz : zid < 2 ^ 20) : (zid <<< 44) % 2 ^ 64 = zid <<< 44 := by
  rw [Nat.shiftLeft_eq]
  apply Nat.mod_eq_of_lt
  omega

/-- Packing an offset that fits is plain arithmetic. -/
lemma makeUndoPtr_eq (hz : zid < 2 ^ 20) (ho : offset < 2 ^ 44) :
    makeUndoPtr zid offset = zid * 2 ^ 44 + offset := by
  rw [makeUndoPtr, shift_zone_eq hz, ← Nat.shiftLeft_add_eq_or_of_lt ho, Nat.shiftLeft_eq]

/-- The offset of a packed pointer is the packed offset, cut to 44 bits. -/
lemma getOffset_make (offset : Nat) (hz : zid < 2 ^ 20) :
    undoPtrGetOffset (makeUndoPtr zid offset) = offset % 2 ^ 44 := by
  have hzero : (zid <<< 44) &&& (2 ^ 44 - 1) = 0 := by
    rw [Nat.and_two_pow_sub_one_eq_mod, Nat.shiftLeft_eq, Nat.mul_mod_left]
  rw [undoPtrGetOffset, makeUndoPtr, shift_zone_eq hz, Nat.and_or_distrib_right, hzero, Nat.zero_or,
    Nat.and_two_pow_sub_one_eq_mod]

/-- The zone of a packed pointer also collects the bits of an offset that does not fit. -/
lemma getZoneId_make (offset : Nat) (hz : zid < 2 ^ 20) :
    undoPtrGetZoneId (makeUndoPtr zid offset) = zid ||| offset / 2 ^ 44 := by
  rw [undoPtrGetZoneId, makeUndoPtr, shift_zone_eq hz, Nat.shiftRight_or_distrib,
    Nat.shiftLeft_shiftRight, Nat.shiftRight_eq_div_pow]

/-- A pointer whose offset fits keeps its zone. -/
lemma getZoneId_make_of_lt (hz : zid < 2 ^ 20) (ho : offset < 2 ^ 44) :
    undoPtrGetZoneId (makeUndoPtr zid offset) = zid := by
  rw [getZoneId_make offset hz, Nat.div_eq_of_lt ho, Nat.or_zero]

/-- A pointer whose offset fits keeps its offset. -/
lemma getOffset_make_of_lt (hz : zid < 2 ^ 20) (ho : offset < 2 ^ 44) :
    undoPtrGetOffset (makeUndoPtr zid offset) = offset := by
  rw [getOffset_make offset hz, Nat.mod_eq_of_lt ho]

/-- A 64-bit pointer is the packing of its own parts. -/
lemma make_get {urp : Nat} (h : urp < 2 ^ 64) :
    makeUndoPtr (undoPtrGetZoneId urp) (undoPtrGetOffset urp) = urp := by
  have hz : undoPtrGetZoneId urp < 2 ^ 20 := by
    rw [getZoneId_eq]
    omega
  rw [makeUndoPtr_eq hz (getOffset_lt urp), getZoneId_eq, getOffset_eq]
  omega

/-- The zone of a 64-bit pointer has 20 bits. -/
lemma getZoneId_lt {urp : Nat} (h : urp < 2 ^ 64) : undoPtrGetZoneId urp < 2 ^ 20 := by
  rw [getZoneId_eq]
  omega

/-- A packed pointer has 64 bits. -/
lemma makeUndoPtr_lt (hz : zid < 2 ^ 20) (ho : offset < 2 ^ 64) : makeUndoPtr zid offset < 2 ^ 64 := by
  rw [makeUndoPtr, shift_zone_eq hz]
  apply Nat.or_lt_two_pow
  · rw [Nat.shiftLeft_eq]
    omega
  · exact ho

/-! ## Usable bytes -/

/-- Number of usable bytes before an offset (`UNDO_LOG_OFFSET_TO_USABLE_BYTE_NO`). -/
def undoLogOffsetToUsableByteNo (offset : Nat) : Nat :=
  ((offset % blcksz + 2 ^ 64 - undoLogBlockHeaderSize) +
    (offset / blcksz) * undoLogUsableBytesPerPage) % 2 ^ 64

/-- Offset of the `i`-th usable byte (`UNDO_LOG_OFFSET_FROM_USABLE_BYTE_NO`). -/
def undoLogOffsetFromUsableByteNo (i : Nat) : Nat :=
  ((i / undoLogUsableBytesPerPage) * blcksz + undoLogBlockHeaderSize +
    i % undoLogUsableBytesPerPage) % 2 ^ 64

/-- Step an offset over `n` usable bytes (`UNDO_LOG_OFFSET_PLUS_USABLE_BYTES`). -/
def undoLogOffsetPlusUsableBytes (offset n : Nat) : Nat :=
  undoLogOffsetFromUsableByteNo ((undoLogOffsetToUsableByteNo offset + n) % 2 ^ 64)

/-- Advance a pointer over `size` usable bytes (C++ `AdvanceUndoPtr`). -/
def advanceUndoPtr (undoPtr size : Nat) : Nat :=
  let oldInsert := undoPtrGetOffset undoPtr
  let newInsert := undoLogOffsetPlusUsableBytes oldInsert size
  makeUndoPtr (undoPtrGetZoneId undoPtr) newInsert

/-- The usable byte number of an offset, without wrapping. -/
def usableNo (offset : Nat) : Nat :=
  (offset % blcksz - undoLogBlockHeaderSize) + (offset / blcksz) * undoLogUsableBytesPerPage

/-- The offset of a usable byte number, without wrapping. -/
def usablePos (i : Nat) : Nat :=
  (i / undoLogUsableBytesPerPage) * blcksz + undoLogBlockHeaderSize + i % undoLogUsableBytesPerPage

/-- The block of a usable byte. -/
@[simp]
lemma usablePos_div (i : Nat) : usablePos i / blcksz = i / undoLogUsableBytesPerPage := by
  simp only [usablePos, blcksz, undoLogBlockHeaderSize, undoLogUsableBytesPerPage]
  omega

/-- The page offset of a usable byte. -/
@[simp]
lemma usablePos_mod (i : Nat) :
    usablePos i % blcksz = undoLogBlockHeaderSize + i % undoLogUsableBytesPerPage := by
  simp only [usablePos, blcksz, undoLogBlockHeaderSize, undoLogUsableBytesPerPage]
  omega

/-- A usable byte lies past its page header. -/
lemma header_le_usablePos (i : Nat) : undoLogBlockHeaderSize ≤ usablePos i % blcksz := by
  rw [usablePos_mod]
  omega

/-- Numbering a usable position gives its number back. -/
@[simp]
lemma usableNo_usablePos (i : Nat) : usableNo (usablePos i) = i := by
  rw [usableNo, usablePos_mod, usablePos_div]
  simp only [undoLogBlockHeaderSize, undoLogUsableBytesPerPage]
  omega

section

variable (h : undoLogBlockHeaderSize ≤ offset % blcksz)
include h

/-- Every offset past a page header is a usable position. -/
lemma usablePos_usableNo : usablePos (usableNo offset) = offset := by
  simp only [usablePos, usableNo, blcksz, undoLogBlockHeaderSize, undoLogUsableBytesPerPage] at *
  omega

/-- The source's numbering does not wrap past a page header. -/
lemma toUsableByteNo_eq (hlt : offset < 2 ^ 64) : undoLogOffsetToUsableByteNo offset = usableNo offset := by
  simp only [undoLogOffsetToUsableByteNo, usableNo, blcksz, undoLogBlockHeaderSize,
    undoLogUsableBytesPerPage] at *
  omega

/-- The source's stepping does not wrap for offsets and lengths a zone can hold. -/
lemma plusUsableBytes_eq {n : Nat} (hlt : offset < 2 ^ 62) (hn : n < 2 ^ 62) :
    undoLogOffsetPlusUsableBytes offset n = usablePos (usableNo offset + n) := by
  have hlt64 : offset < 2 ^ 64 := by omega
  rw [undoLogOffsetPlusUsableBytes, toUsableByteNo_eq h hlt64]
  simp only [undoLogOffsetFromUsableByteNo, usableNo, usablePos, blcksz, undoLogBlockHeaderSize,
    undoLogUsableBytesPerPage] at *
  have h1 : (offset % 8192 - 24 + offset / 8192 * 8168 + n) < 2 ^ 64 := by omega
  rw [Nat.mod_eq_of_lt h1]
  apply Nat.mod_eq_of_lt
  omega

end

/-- Usable bytes in a zone. -/
abbrev zoneUsableBytes : Nat := 2 ^ 31 * undoLogUsableBytesPerPage

/-- A position lies inside the zone exactly when its number does. -/
lemma usablePos_lt_max {i : Nat} : usablePos i < undoLogMaxSize ↔ i < zoneUsableBytes := by
  simp only [usablePos, blcksz, undoLogBlockHeaderSize, undoLogUsableBytesPerPage, undoLogMaxSize,
    zoneUsableBytes]
  omega

/-- A usable position is never exactly the zone size. -/
lemma usablePos_le_max {i : Nat} : usablePos i ≤ undoLogMaxSize ↔ i < zoneUsableBytes := by
  simp only [usablePos, blcksz, undoLogBlockHeaderSize, undoLogUsableBytesPerPage, undoLogMaxSize,
    zoneUsableBytes]
  omega

/-! ## Consecutive placement

Records are placed one after the other from a start pointer by `advanceUndoPtr`. Numbered from the start
of the zone, the `n`-th usable byte has the pointer `ptrAt z n`; past the last usable byte of the zone the
bit that does not fit is or-ed into the zone id, and the numbering goes on there from block 0. -/

/-- The pointer of usable byte `n`, counted from the start of zone `z`. -/
def ptrAt (z n : Nat) : Nat :=
  makeUndoPtr z (usablePos n)

/-- The zone in which usable byte `n` is found. -/
def zoneAt (z n : Nat) : Nat :=
  z ||| n / zoneUsableBytes

/-- The block in which usable byte `n` is found. -/
def blockAt (n : Nat) : Nat :=
  n / undoLogUsableBytesPerPage % 2 ^ 31

/-- The zone size in pages and bytes. -/
lemma usablePos_div_max (n : Nat) : usablePos n / 2 ^ 44 = n / zoneUsableBytes := by
  simp only [usablePos, blcksz, undoLogBlockHeaderSize, undoLogUsableBytesPerPage, zoneUsableBytes]
  omega

/-- Stepping over whole zones. -/
lemma usablePos_mod_max (n : Nat) : usablePos n % 2 ^ 44 = usablePos (n % zoneUsableBytes) := by
  simp only [usablePos, blcksz, undoLogBlockHeaderSize, undoLogUsableBytesPerPage, zoneUsableBytes]
  omega

/-- The zone of a placed byte. -/
lemma getZoneId_ptrAt (hz : z < 2 ^ 20) (n : Nat) : undoPtrGetZoneId (ptrAt z n) = zoneAt z n := by
  rw [ptrAt, getZoneId_make _ hz, usablePos_div_max, zoneAt]

/-- The offset of a placed byte. -/
lemma getOffset_ptrAt (hz : z < 2 ^ 20) (n : Nat) :
    undoPtrGetOffset (ptrAt z n) = usablePos (n % zoneUsableBytes) := by
  rw [ptrAt, getOffset_make _ hz, usablePos_mod_max]

/-- The block of a placed byte. -/
lemma getBlockNum_ptrAt (hz : z < 2 ^ 20) (n : Nat) : undoPtrGetBlockNum (ptrAt z n) = blockAt n := by
  rw [undoPtrGetBlockNum, getOffset_ptrAt hz, usablePos_div, blockAt]
  simp only [zoneUsableBytes, undoLogUsableBytesPerPage]
  omega

/-- The page offset of a placed byte. -/
lemma getPageOffset_ptrAt (hz : z < 2 ^ 20) (n : Nat) :
    undoPtrGetPageOffset (ptrAt z n) =
      undoLogBlockHeaderSize + n % undoLogUsableBytesPerPage := by
  rw [undoPtrGetPageOffset, getOffset_ptrAt hz, usablePos_mod]
  simp only [zoneUsableBytes, undoLogUsableBytesPerPage]
  omega

/-- Every pointer past a page header is a placed byte of its own zone. -/
lemma ptrAt_usableNo {urp : Nat} (h : urp < 2 ^ 64)
    (hp : undoLogBlockHeaderSize ≤ undoPtrGetPageOffset urp) :
    ptrAt (undoPtrGetZoneId urp) (usableNo (undoPtrGetOffset urp)) = urp := by
  rw [ptrAt, usablePos_usableNo hp, make_get h]

/-- The number of an offset inside the zone. -/
lemma usableNo_lt (h : offset < 2 ^ 44) : usableNo offset < zoneUsableBytes := by
  simp only [usableNo, blcksz, undoLogBlockHeaderSize, undoLogUsableBytesPerPage, zoneUsableBytes]
  omega

/-- Packing a second zone's offset is or-ing its zone bit. -/
lemma makeUndoPtr_next (z : Nat) (hz : z < 2 ^ 20) (ho : offset < 2 ^ 44) :
    makeUndoPtr (z ||| 1) offset = makeUndoPtr z (2 ^ 44 + offset) := by
  have hz1 : z ||| 1 < 2 ^ 20 := Nat.or_lt_two_pow hz (by norm_num)
  have hbit : 2 ^ 44 + offset = (1 <<< 44) ||| offset := by
    rw [← Nat.shiftLeft_add_eq_or_of_lt ho, Nat.shiftLeft_eq, Nat.one_mul]
  rw [makeUndoPtr, makeUndoPtr, shift_zone_eq hz1, shift_zone_eq hz, hbit, Nat.shiftLeft_or_distrib,
    Nat.or_assoc]

/-- Advancing the pointer of byte `n` by `k` bytes gives the pointer of byte `n + k`. -/
lemma advanceUndoPtr_ptrAt {n k : Nat} (hz : z < 2 ^ 20) (h : n + k < 2 * zoneUsableBytes) :
    advanceUndoPtr (ptrAt z n) k = ptrAt z (n + k) := by
  have hpos : usablePos (n % zoneUsableBytes) < 2 ^ 44 :=
    usablePos_lt_max.mpr (Nat.mod_lt _ (by norm_num [zoneUsableBytes, undoLogUsableBytesPerPage]))
  have hk : k < 2 ^ 62 := by
    simp only [zoneUsableBytes, undoLogUsableBytesPerPage] at h
    omega
  have hplus : undoLogOffsetPlusUsableBytes (usablePos (n % zoneUsableBytes)) k =
      usablePos (n % zoneUsableBytes + k) := by
    rw [plusUsableBytes_eq (header_le_usablePos _) (by omega) hk, usableNo_usablePos]
  rw [advanceUndoPtr]
  simp only [getOffset_ptrAt hz, getZoneId_ptrAt hz, hplus, zoneAt]
  by_cases hn : n < zoneUsableBytes
  · rw [Nat.mod_eq_of_lt hn, Nat.div_eq_of_lt hn, Nat.or_zero, ptrAt]
  · -- the start was already in the second zone
    have hq : n / zoneUsableBytes = 1 := by
      simp only [zoneUsableBytes, undoLogUsableBytesPerPage] at *
      omega
    have hm : n % zoneUsableBytes + k = n + k - zoneUsableBytes := by
      simp only [zoneUsableBytes, undoLogUsableBytesPerPage] at *
      omega
    have hlt : usablePos (n + k - zoneUsableBytes) < 2 ^ 44 := usablePos_lt_max.mpr (by omega)
    have hsum : usablePos (n + k) = 2 ^ 44 + usablePos (n + k - zoneUsableBytes) := by
      simp only [usablePos, blcksz, undoLogBlockHeaderSize, undoLogUsableBytesPerPage,
        zoneUsableBytes] at *
      omega
    rw [hq, hm, makeUndoPtr_next z hz hlt, ptrAt, hsum]

end GaussKernel.Undo
