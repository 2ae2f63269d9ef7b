import GaussKernel.Lib.PagedTable
import GaussKernel.Undo.ZoneReach

/-!
# The zone table of the undo metadata file

Model of `CheckPointUndoZone` and `RecoveryUndoZone` (`knl_uundozone.cpp`). The file holds three tables one
after the other: the zones, the undo spaces and the slot spaces, each an instance of `Lib.PagedTable`; the
space tables are in `Undo.SpaceMeta`.

A zone pointer is packed and masked to 44 bits on its way to disk, so the zone table gives back exactly the
zones whose insertion pointer has 44 bits (`recovery_zone_iff`).
-/

namespace GaussKernel.Undo

open Lib

/-! ## Page checksums -/

/-- One bit of a CRC-32C. -/
def crcBit (crc : UInt32) : UInt32 :=
  if crc &&& 1 = 1 then (crc >>> 1) ^^^ 0x82F63B78 else crc >>> 1

/-- One byte of a CRC-32C. -/
def crcByte (crc : UInt32) (b : UInt8) : UInt32 :=
  crcBit^[8] (crc ^^^ b.toUInt32)

/-- `INIT_CRC32C`, `COMP_CRC32C` and `FIN_CRC32C` in a row. -/
def crc32c (bs : List UInt8) : UInt32 :=
  bs.foldl crcByte 0xFFFFFFFF ^^^ 0xFFFFFFFF

/-- The checksum as it is stored behind the last entry of a page. -/
def pageCrc (bs : List UInt8) : List UInt8 :=
  toLE 4 (crc32c bs).toNat

/-! ## Constants -/

abbrev undoMetaPageSize : Nat := 512

/-- `UNDO_META_PAGE_CRC_LENGTH`. -/
abbrev undoMetaPageCrcLength : Nat := 4

/-- `UNDO_WRITE_SIZE`. -/
abbrev undoWriteSize : Nat := undoMetaPageSize * 8

/-- `PAGES_READ_NUM`. -/
abbrev pagesReadNum : Nat := 1024 * 16

/-- `ZONE_COUNT_PER_LEVELS`: the zones of a level, rounded to a multiple of the NUMA nodes. -/
def zoneCountPerLevels (nodeCount : Nat) : Nat :=
  persistZoneCount / nodeCount * nodeCount

/-- Pages of a table with `unit` entries to a page (`UNDOZONE_META_PAGE_COUNT`). -/
def metaPageCount (unit : Nat) : Nat :=
  if persistZoneCount % unit = 0 then persistZoneCount / unit else persistZoneCount / unit + 1

/-! ## Zone entries -/

/-- `UndoZoneMetaInfo`. -/
structure UndoZoneMetaInfo where
  version : UInt32
  lsn : UInt64
  allocateTSlotPtr : UInt64
  recycleTSlotPtr : UInt64
  insertURecPtr : UInt64
  discardURecPtr : UInt64
  forceDiscardURecPtr : UInt64
  recycleXid : UInt64
  deriving DecidableEq

namespace UndoZoneMetaInfo

/-- Widths of the fields, with the padding behind the version. -/
abbrev widths : List Nat := [4, 4, 8, 8, 8, 8, 8, 8, 8]

/-- An entry in a page that was zeroed before. -/
def bytes (m : UndoZoneMetaInfo) : List UInt8 :=
  pack widths [m.version.toNat, 0, m.lsn.toNat, m.allocateTSlotPtr.toNat, m.recycleTSlotPtr.toNat,
    m.insertURecPtr.toNat, m.discardURecPtr.toNat, m.forceDiscardURecPtr.toNat, m.recycleXid.toNat]

def ofBytes (bs : List UInt8) : UndoZoneMetaInfo :=
  let f := unpack widths bs
  { version := .ofNat (f.getD 0 0), lsn := .ofNat (f.getD 2 0)
    allocateTSlotPtr := .ofNat (f.getD 3 0), recycleTSlotPtr := .ofNat (f.getD 4 0)
    insertURecPtr := .ofNat (f.getD 5 0), discardURecPtr := .ofNat (f.getD 6 0)
    forceDiscardURecPtr := .ofNat (f.getD 7 0), recycleXid := .ofNat (f.getD 8 0) }

@[simp]
lemma bytes_length (m : UndoZoneMetaInfo) : m.bytes.length = 64 :=
  pack_length rfl

@[simp]
lemma ofBytes_bytes (m : UndoZoneMetaInfo) : ofBytes m.bytes = m := by
  have hf : unpack widths m.bytes = [m.version.toNat, 0, m.lsn.toNat, m.allocateTSlotPtr.toNat,
      m.recycleTSlotPtr.toNat, m.insertURecPtr.toNat, m.discardURecPtr.toNat,
      m.forceDiscardURecPtr.toNat, m.recycleXid.toNat] := by
    apply unpack_pack
    simp only [List.forall₂_cons, List.forall₂_nil_right_iff, and_true]
    exact ⟨m.version.toNat_lt, by decide, m.lsn.toNat_lt, m.allocateTSlotPtr.toNat_lt,
      m.recycleTSlotPtr.toNat_lt, m.insertURecPtr.toNat_lt, m.discardURecPtr.toNat_lt,
      m.forceDiscardURecPtr.toNat_lt, m.recycleXid.toNat_lt⟩
  simp [ofBytes, hf]

end UndoZoneMetaInfo

/-- `InitUndoMeta`. -/
def initUndoMeta : UndoZoneMetaInfo where
  version := 1
  lsn := 0
  allocateTSlotPtr := .ofNat undoLogBlockHeaderSize
  recycleTSlotPtr := .ofNat undoLogBlockHeaderSize
  insertURecPtr := .ofNat undoLogBlockHeaderSize
  discardURecPtr := .ofNat undoLogBlockHeaderSize
  forceDiscardURecPtr := .ofNat undoLogBlockHeaderSize
  recycleXid := 0

/-- `GetMetaFromUzone`. -/
def getMetaFromUzone (z : UndoZone) : UndoZoneMetaInfo where
  version := 1
  lsn := .ofNat z.lsn
  allocateTSlotPtr := .ofNat (undoPtrGetOffset z.getAllocateTSlotPtr)
  recycleTSlotPtr := .ofNat (undoPtrGetOffset z.getRecycleTSlotPtr)
  insertURecPtr := .ofNat (undoPtrGetOffset z.getInsertURecPtr)
  discardURecPtr := .ofNat (undoPtrGetOffset z.getDiscardURecPtr)
  forceDiscardURecPtr := .ofNat (undoPtrGetOffset z.getForceDiscardURecPtr)
  recycleXid := .ofNat z.recycleXid

/-- The test of `CheckPointUndoZone` for a zone that is used up and recycled, whose memory it frees. -/
def zoneExhausted (z : UndoZone) : Bool :=
  undoPtrGetOffset z.getInsertURecPtr = undoLogMaxSize ∧ z.getAllocateTSlotPtr = z.getRecycleTSlotPtr

/-- The entry that `CheckPointUndoZone` writes for zone `i`. -/
def zoneMeta (nodeCount : Nat) (zones : Nat → Option UndoZone) (i : Nat) : UndoZoneMetaInfo :=
  match zones i with
  | none => initUndoMeta
  | some z =>
    if zoneExhausted z then
      getMetaFromUzone z
    else if i < zoneCountPerLevels nodeCount then
      getMetaFromUzone z
    else
      initUndoMeta

/-- A table of the metadata file: one entry for each persistent zone. -/
def metaTable (entrySize perPage base : Nat) (hpos : 0 < perPage)
    (hfits : perPage * entrySize + undoMetaPageCrcLength ≤ undoMetaPageSize)
    (hshort : persistZoneCount % perPage ≠ 0) : PagedTable where
  entrySize := entrySize
  perPage := perPage
  pageSize := undoMetaPageSize
  pagesPerWrite := 8
  pagesPerRead := pagesReadNum
  count := persistZoneCount
  base := base
  checkSize := undoMetaPageCrcLength
  check := pageCrc
  perPage_pos := hpos
  pagesPerWrite_pos := by decide
  pagesPerRead_pos := by decide
  check_length bs := toLE_length _ _
  fits := hfits
  last_short := hshort

/-- The zone table: 7 entries (`UNDOZONE_COUNT_PER_PAGE`) of 64 bytes to a page. -/
def zoneTable : PagedTable :=
  metaTable 64 7 0 (by decide) (by decide) (by decide)

lemma zoneTable_layout : zoneTable.entrySize = 64 ∧ zoneTable.perPage = 7 ∧
    zoneTable.pageSize = undoMetaPageSize ∧ zoneTable.pagesPerWrite = 8 ∧
    zoneTable.count = persistZoneCount ∧ zoneTable.base = 0 :=
  ⟨rfl, rfl, rfl, rfl, rfl, rfl⟩

/-- Bytes that `CheckPointUndoZone` writes of the batch that starts at zone `loop`. -/
def zoneWriteSize (loop : Nat) : Nat :=
  if persistZoneCount - loop < 56 then
    ((persistZoneCount - loop) / 7 + 1) * undoMetaPageSize
  else
    undoWriteSize

/-- Whether the zone at an index is there and dirty. -/
def zoneDirty (zones : Nat → Option UndoZone) (i : Nat) : Bool :=
  (zones i).any UndoZone.dirty

/-- A zone after its batch was written: clean, or gone when it is used up. -/
def zoneAfterWrite (z : UndoZone) : Option UndoZone :=
  if zoneExhausted z then none else some { z with dirty := false }

/-- `CheckPointUndoZone`: the file and the zones afterwards. -/
def checkPointUndoZone (nodeCount : Nat) (zones : Nat → Option UndoZone) (f : File) :
    File × (Nat → Option UndoZone) :=
  (zoneTable.checkPoint zoneWriteSize (zoneDirty zones) (fun i => (zoneMeta nodeCount zones i).bytes) f,
    fun i =>
      if i < persistZoneCount ∧ zoneTable.batchDirty (zoneDirty zones) (i / zoneTable.perWrite) then
        (zones i).bind zoneAfterWrite
      else
        zones i)

/-- `RecoveryZone`. -/
def recoveryZone (z : UndoZone) (info : UndoZoneMetaInfo) (zoneId : Nat) : UndoZone :=
  let z := { z with zid := zoneId, pLevel := .permanent, lsn := info.lsn.toNat }
  let z := z.setInsertURecPtr info.insertURecPtr.toNat
  let z := z.setDiscardURecPtr info.discardURecPtr.toNat
  let z := z.setForceDiscardURecPtr info.forceDiscardURecPtr.toNat
  let z := z.setAllocateTSlotPtr info.allocateTSlotPtr.toNat
  let z := z.setRecycleTSlotPtr info.recycleTSlotPtr.toNat
  { z with recycleXid := info.recycleXid.toNat }

/-- What `RecoveryUndoZone` does with the entry of zone `i`: an entry with an advanced insertion pointer
makes a zone, created initialised unless it is there. -/
def recoverZoneEntry (i : Nat) (bs : List UInt8) (zone : Option UndoZone) : Option UndoZone :=
  let info := UndoZoneMetaInfo.ofBytes bs
  if info.insertURecPtr.toNat ≠ undoLogBlockHeaderSize then
    some (recoveryZone (zone.getD (initZone i .permanent)) info i)
  else
    zone

/-- `RecoveryUndoZone`. `none` is an ERROR: a short read or a checksum that does not match. -/
def recoveryUndoZone (f : File) (zones : Nat → Option UndoZone) : Option (Nat → Option UndoZone) :=
  zoneTable.recover f (fun i bs zones => Function.update zones i (recoverZoneEntry i bs (zones i))) zones

/-! ## The zone table -/

/-- A pointer read through `UNDO_PTR_GET_OFFSET` is never `UNDO_LOG_MAX_SIZE`: no zone is freed. -/
lemma zoneExhausted_eq_false (z : UndoZone) : zoneExhausted z = false := by
  have hlt := getOffset_lt z.getInsertURecPtr
  refine decide_eq_false fun h => ?_
  have hmax := h.1
  simp only [undoLogMaxSize] at hmax
  omega

variable {nodeCount i : Nat} {zones : Nat → Option UndoZone} {z : UndoZone} {f : File}

lemma zoneMeta_some (h : zones i = some z) : zoneMeta nodeCount zones i =
      if i < zoneCountPerLevels nodeCount then getMetaFromUzone z else initUndoMeta := by
  rw [zoneMeta, h]
  simp only [zoneExhausted_eq_false, Bool.false_eq_true, ↓reduceIte]

-- From here on the layout of the zone table is used through `zoneTable_layout` only.
attribute [irreducible] zoneTable

/-- Reading back a zone table in place hands each zone the entry written for it. -/
lemma recoveryUndoZone_eq {img : Nat → List UInt8} (h : zoneTable.AllPagesHold img f.bytes)
    (hsize : metaPageCount 7 * undoMetaPageSize ≤ f.size) (zones : Nat → Option UndoZone) :
    recoveryUndoZone f zones = some fun i =>
      if i < persistZoneCount then recoverZoneEntry i (img i) (zones i) else zones i := by
  obtain ⟨hentry, hper, hpage, -, hcount, hbase⟩ := zoneTable_layout
  have hall : zoneTable.base + (zoneTable.count / zoneTable.perPage + 1) * zoneTable.pageSize ≤ f.size := by
    have hpages : metaPageCount 7 = persistZoneCount / 7 + 1 := rfl
    rw [hbase, hcount, hper, hpage, Nat.zero_add, ← hpages]
    exact hsize
  rw [recoveryUndoZone, PagedTable.recover_update recoverZoneEntry zones hall fun p hp => (h p hp).valid,
    hcount]
  congr 1
  funext i
  by_cases hi : i < persistZoneCount
  · rw [if_pos hi, if_pos hi, h.read_entry (hcount ▸ hi)]
  · rw [if_neg hi, if_neg hi]

/-- All bytes of a zone batch that hold entries are written. -/
lemma page_le_zoneWriteSize {p : Nat} (hpos : 0 < zoneTable.pageEntries p) :
    p % zoneTable.pagesPerWrite * zoneTable.pageSize + zoneTable.pageSize ≤
      zoneWriteSize (zoneTable.batchStart (p / zoneTable.pagesPerWrite)) := by
  obtain ⟨-, hper, hpage, hwrite, hcount, -⟩ := zoneTable_layout
  rw [PagedTable.pageEntries, hper, hcount] at hpos
  rw [PagedTable.batchStart, PagedTable.perWrite, hper, hpage, hwrite]
  simp only [zoneWriteSize, undoMetaPageSize, undoWriteSize, persistZoneCount, undoZoneCount] at *
  split <;> omega

lemma zoneWriteSize_le (k : Nat) : zoneWriteSize (zoneTable.batchStart k) ≤ zoneTable.writeBytes := by
  obtain ⟨-, -, hpage, hwrite, -, -⟩ := zoneTable_layout
  rw [PagedTable.writeBytes, hpage, hwrite, zoneWriteSize]
  simp only [undoMetaPageSize, undoWriteSize]
  split <;> omega

/-- After a checkpoint the whole zone table is in place, if the clean batches were. -/
lemma checkPointUndoZone_holds
    (hclean : ∀ p, 0 < zoneTable.pageEntries p →
      zoneTable.batchDirty (zoneDirty zones) (p / zoneTable.pagesPerWrite) = false →
        zoneTable.PageHolds (fun i => (zoneMeta nodeCount zones i).bytes) f.bytes (zoneTable.pagePos p) p) :
    zoneTable.AllPagesHold (fun i => (zoneMeta nodeCount zones i).bytes)
      (checkPointUndoZone nodeCount zones f).1.bytes := by
  have hentry := zoneTable_layout.1
  intro p hpos
  cases hdirty : zoneTable.batchDirty (zoneDirty zones) (p / zoneTable.pagesPerWrite) with
  | true =>
    exact PagedTable.checkPoint_written (fun i => by rw [UndoZoneMetaInfo.bytes_length, hentry])
      zoneWriteSize_le f hpos hdirty (page_le_zoneWriteSize hpos)
  | false =>
    exact (hclean p hpos hdirty).congr fun i hi =>
      PagedTable.checkPoint_kept zoneWriteSize_le f (.inl hdirty) hi

/-- The zone that a recovered entry makes is the zone it was written from, cut to 44 bits. -/
lemma recoveryZone_getMeta {zid : Nat} {z₀ : UndoZone} (hinv : MetaInv zid z) (hz : zid < 2 ^ 20)
    (hlt : z.insertURecPtr < undoLogMaxSize) : SameMeta z (recoveryZone z₀ (getMetaFromUzone z) zid) := by
  have hptr : ∀ {x : Nat}, x < 2 ^ 44 →
      undoPtrGetOffset (UInt64.ofNat (undoPtrGetOffset (makeUndoPtr z.zid x))).toNat = x := by
    intro x hx
    rw [hinv.zid_eq, getOffset_make_of_lt hz hx, UInt64.toNat_ofNat_of_lt' (lt_trans hx (by norm_num)),
      getOffset_eq, Nat.mod_eq_of_lt hx]
  exact ⟨UInt64.toNat_ofNat_of_lt' hinv.lsn_lt, hptr hlt, hptr hinv.discard_lt, hptr hinv.force_lt,
    hptr hinv.allocate_lt, hptr hinv.recycle_lt, UInt64.toNat_ofNat_of_lt' hinv.xid_lt⟩

/-- The insertion pointer on disk. -/
lemma getMeta_insert {zid : Nat} (hinv : MetaInv zid z) (hz : zid < 2 ^ 20) :
    (getMetaFromUzone z).insertURecPtr.toNat = z.insertURecPtr % 2 ^ 44 := by
  have hlt : z.insertURecPtr % 2 ^ 44 < 2 ^ 64 := lt_trans (Nat.mod_lt _ (by norm_num)) (by norm_num)
  show (UInt64.ofNat (undoPtrGetOffset (makeUndoPtr z.zid z.insertURecPtr))).toNat = _
  rw [hinv.zid_eq, getOffset_make _ hz, UInt64.toNat_ofNat_of_lt' hlt]

/-- What recovery makes of the entry of a zone that is not in its initial state: the same zone exactly when
its insertion pointer fits and its index is one the checkpoint writes. -/
lemma recoverZoneEntry_iff (hi : i < persistZoneCount) (hzone : zones i = some z) (hinv : MetaInv i z)
    (hmoved : ¬SameMeta (initZone i .permanent) z) :
    (∃ z', recoverZoneEntry i (zoneMeta nodeCount zones i).bytes none = some z' ∧ SameMeta z z') ↔
      z.insertURecPtr < undoLogMaxSize ∧ i < zoneCountPerLevels nodeCount := by
  have hz : i < 2 ^ 20 := lt_trans hi (by decide)
  have hne : z.insertURecPtr ≠ undoLogBlockHeaderSize := hinv.moved.resolve_left hmoved
  rw [recoverZoneEntry, zoneMeta_some hzone, UndoZoneMetaInfo.ofBytes_bytes]
  by_cases hlevel : i < zoneCountPerLevels nodeCount
  · simp only [if_pos hlevel]
    constructor
    · rintro ⟨z', hz', hsame⟩
      refine ⟨?_, hlevel⟩
      split at hz'
      swap
      · cases hz'
      -- the recovered pointer has 44 bits, so the pointer it equals does
      cases hz'
      have hins : undoPtrGetOffset (getMetaFromUzone z).insertURecPtr.toNat = z.insertURecPtr :=
        hsame.insert
      rw [← hins]
      exact getOffset_lt _
    · rintro ⟨hlt, -⟩
      have hdisk : (getMetaFromUzone z).insertURecPtr.toNat = z.insertURecPtr := by
        rw [getMeta_insert hinv hz, Nat.mod_eq_of_lt hlt]
      rw [hdisk, if_pos hne]
      exact ⟨_, rfl, recoveryZone_getMeta hinv hz hlt⟩
  · simp only [if_neg hlevel]
    constructor
    · rintro ⟨z', hz', -⟩
      have hinit : ¬(initUndoMeta.insertURecPtr.toNat ≠ undoLogBlockHeaderSize) := by decide
      rw [if_neg hinit] at hz'
      cases hz'
    · rintro ⟨-, hlt⟩
      exact absurd hlt hlevel

/-- Before a checkpoint: the zones are reachable, the file has its full length, and batches without a dirty
zone are up to date in it. -/
structure ZoneFileReady (nodeCount : Nat) (zones : Nat → Option UndoZone) (f : File) : Prop where
  reach : ∀ i z, zones i = some z → ∃ w, ZoneReach i z w
  clean : ∀ p, 0 < zoneTable.pageEntries p →
    zoneTable.batchDirty (zoneDirty zones) (p / zoneTable.pagesPerWrite) = false →
    zoneTable.PageHolds (fun i => (zoneMeta nodeCount zones i).bytes) f.bytes (zoneTable.pagePos p) p
  size : metaPageCount 7 * undoMetaPageSize ≤ f.size

/-- Recovery after a checkpoint accepts every checksum and gives back each zone that left its initial
state. -/
def ZonesSurvive (nodeCount : Nat) (zones : Nat → Option UndoZone) (f : File) : Prop :=
  ∃ zones', recoveryUndoZone (checkPointUndoZone nodeCount zones f).1 (fun _ => none) = some zones' ∧
    ∀ i < persistZoneCount, ∀ z, zones i = some z → ¬SameMeta (initZone i .permanent) z →
      ∃ z', zones' i = some z' ∧ SameMeta z z'

/-- Recovery succeeds, and what it makes of each zone. -/
lemma ZoneFileReady.recovered (h : ZoneFileReady nodeCount zones f) :
    recoveryUndoZone (checkPointUndoZone nodeCount zones f).1 (fun _ => none) = some fun i =>
      if i < persistZoneCount then recoverZoneEntry i (zoneMeta nodeCount zones i).bytes none
      else none :=
  recoveryUndoZone_eq (checkPointUndoZone_holds h.clean)
    (le_trans h.size (PagedTable.size_le_checkPoint f)) fun _ => none

lemma ZoneFileReady.entry_iff (h : ZoneFileReady nodeCount zones f) (hi : i < persistZoneCount)
    (hz : zones i = some z) (hmoved : ¬SameMeta (initZone i .permanent) z) :
    (∃ z', recoverZoneEntry i (zoneMeta nodeCount zones i).bytes none = some z' ∧ SameMeta z z') ↔
      z.insertURecPtr < undoLogMaxSize ∧ i < zoneCountPerLevels nodeCount := by
  obtain ⟨w, hw⟩ := h.reach i z hz
  exact recoverZoneEntry_iff hi hz hw.metaInv.1 hmoved

/-- A zone survives only with an insertion pointer and an index that fit. -/
lemma ZonesSurvive.fits (h : ZoneFileReady nodeCount zones f) (hsurvive : ZonesSurvive nodeCount zones f)
    (hi : i < persistZoneCount) (hz : zones i = some z) (hmoved : ¬SameMeta (initZone i .permanent) z) :
    z.insertURecPtr < undoLogMaxSize ∧ i < zoneCountPerLevels nodeCount := by
  obtain ⟨zones', hzones', hback⟩ := hsurvive
  rw [h.recovered] at hzones'
  obtain ⟨z', hz', hsame⟩ := hback i hi z hz hmoved
  rw [← Option.some.inj hzones'] at hz'
  simp only [if_pos hi] at hz'
  exact (h.entry_iff hi hz hmoved).mp ⟨z', hz', hsame⟩

/-- **Zone metadata survives checkpoint and recovery** exactly when every zone that left its initial state
has an insertion pointer below `UNDO_LOG_MAX_SIZE`, which `PrepareSwitch` sets it to, and an index below the
rounded zone count. -/
theorem recovery_zone_iff (nodeCount : Nat) (zones : Nat → Option UndoZone) (f : File)
    (h : ZoneFileReady nodeCount zones f) :
    ZonesSurvive nodeCount zones f ↔
      ∀ i < persistZoneCount, ∀ z, zones i = some z → ¬SameMeta (initZone i .permanent) z →
        z.insertURecPtr < undoLogMaxSize ∧ i < zoneCountPerLevels nodeCount := by
  constructor
  · intro hsurvive i hi z hz hmoved
    exact hsurvive.fits h hi hz hmoved
  · intro hcond
    refine ⟨_, h.recovered, fun i hi z hz hmoved => ?_⟩
    rw [if_pos hi]
    exact (h.entry_iff hi hz hmoved).mpr (hcond i hi z hz hmoved)

/-- Zone 0 alone, with a file that is up to date. -/
lemma exists_zoneFileReady {w : Wal} (h : ZoneReach 0 z w) :
    ∃ f, ZoneFileReady 1 (fun i => if i = 0 then some z else none) f := by
  obtain ⟨f, hholds, hsize⟩ := zoneTable.exists_file
    (fun i => (zoneMeta 1 (fun i => if i = 0 then some z else none) i).bytes)
    (fun c => by rw [UndoZoneMetaInfo.bytes_length, zoneTable_layout.1]) (metaPageCount 7 * undoMetaPageSize)
  refine ⟨f, ⟨fun i z' hz' => ?_, fun p hpos _ => hholds p hpos, hsize.le⟩⟩
  split at hz'
  · rename_i hi
    cases hz'
    exact ⟨w, hi ▸ h⟩
  · cases hz'

/-- A zone of one page comes back. -/
theorem recovery_zone_filled : ∃ z f, ¬SameMeta (initZone 0 .permanent) z ∧
    ZonesSurvive 1 (fun i => if i = 0 then some z else none) f := by
  obtain ⟨z, w, hreach, hfilled, -⟩ := exists_filledPages (n := 1) (by norm_num) (by norm_num)
  obtain ⟨f, hf⟩ := exists_zoneFileReady hreach
  have hins : z.insertURecPtr = usablePos (1 * undoLogUsableBytesPerPage) := hfilled.insert
  have hpos : usablePos (1 * undoLogUsableBytesPerPage) = 8216 := by decide
  refine ⟨z, f, fun hsame => ?_, (recovery_zone_iff 1 _ f hf).mpr fun i _ z' hz' _ => ?_⟩
  · have hinit : z.insertURecPtr = undoLogBlockHeaderSize := hsame.insert
    rw [hins, hpos] at hinit
    cases hinit
  · split at hz'
    · rename_i hi
      cases hz'
      rw [hins, hpos, hi]
      decide
    · cases hz'

/-- A zone that is full and was switched away from does not come back: its insertion pointer, 2^44, is
written as 0. -/
theorem switched_zone_lost : ¬∀ nodeCount zones f,
    ZoneFileReady nodeCount zones f → ZonesSurvive nodeCount zones f := by
  intro hall
  obtain ⟨z, w, hreach, hmax, -⟩ := exists_exhausted
  obtain ⟨f, hf⟩ := exists_zoneFileReady hreach
  have hmoved : ¬SameMeta (initZone 0 .permanent) z := by
    intro hsame
    have hinit : z.insertURecPtr = undoLogBlockHeaderSize := hsame.insert
    rw [hmax] at hinit
    cases hinit
  have hfits := (hall 1 _ f hf).fits hf (i := 0) (by decide) rfl hmoved
  rw [hmax] at hfits
  exact lt_irrefl _ hfits.1

end GaussKernel.Undo
