import GaussKernel.Undo.Meta

/-!
# The space tables of the undo metadata file

Model of `CheckPointUndoSpace` and `RecoveryUndoSpace` (`knl_uundospace.cpp`) for the undo and the slot
spaces; the segment files and the size counter that recovery also brings up to date are in `Undo.SpaceSize`.

`CheckPointUndoZone` divides the rest of the table by the entries of a page to find how much of the last
batch to write. `CheckPointUndoSpace` divides by the entries of a whole write, so of its last batch only the
first page is written, and the pages behind it keep what the file held (`checkPointUndoSpace_iff`).
-/

namespace GaussKernel.Undo

open Lib

/-- `UndoSpaceMetaInfo`. -/
structure UndoSpaceMetaInfo where
  version : UInt32
  lsn : UInt64
  head : UInt64
  tail : UInt64
  deriving DecidableEq

namespace UndoSpaceMetaInfo

/-- Widths of the fields, with the padding behind the version. -/
abbrev widths : List Nat := [4, 4, 8, 8, 8]

/-- An entry in a page that was zeroed before. -/
def bytes (m : UndoSpaceMetaInfo) : List UInt8 :=
  pack widths [m.version.toNat, 0, m.lsn.toNat, m.head.toNat, m.tail.toNat]

def ofBytes (bs : List UInt8) : UndoSpaceMetaInfo :=
  let f := unpack widths bs
  { version := .ofNat (f.getD 0 0), lsn := .ofNat (f.getD 2 0)
    head := .ofNat (f.getD 3 0), tail := .ofNat (f.getD 4 0) }

@[simp]
lemma bytes_length (m : UndoSpaceMetaInfo) : m.bytes.length = 32 :=
  pack_length rfl

@[simp]
lemma ofBytes_bytes (m : UndoSpaceMetaInfo) : ofBytes m.bytes = m := by
  have hf : unpack widths m.bytes =
      [m.version.toNat, 0, m.lsn.toNat, m.head.toNat, m.tail.toNat] := by
    apply unpack_pack
    simp only [List.forall₂_cons, List.forall₂_nil_right_iff, and_true]
    exact ⟨m.version.toNat_lt, by decide, m.lsn.toNat_lt, m.head.toNat_lt, m.tail.toNat_lt⟩
  simp [ofBytes, hf]

end UndoSpaceMetaInfo

/-- The entry that `CheckPointUndoSpace` writes for zone `i`. -/
def spaceMeta (type : SpaceType) (nodeCount : Nat) (zones : Nat → Option UndoZone) (i : Nat) :
    UndoSpaceMetaInfo :=
  match zones i with
  | some z =>
    if i < zoneCountPerLevels nodeCount then
      { version := 1, lsn := .ofNat (z.getSpace type).lsn
        head := .ofNat (z.getSpace type).head, tail := .ofNat (z.getSpace type).tail }
    else
      { version := 1, lsn := 0, head := 0, tail := 0 }
  | none => { version := 1, lsn := 0, head := 0, tail := 0 }

/-- Where a space table starts: the undo spaces behind the zones, the slot spaces behind them. -/
def spaceTableBase : SpaceType → Nat
  | .undoLog => metaPageCount 7 * undoMetaPageSize
  | .slot => metaPageCount 7 * undoMetaPageSize + metaPageCount 15 * undoMetaPageSize

/-- A space table: 15 entries (`UNDOSPACE_COUNT_PER_PAGE`) of 32 bytes to a page. -/
def spaceTable (type : SpaceType) : PagedTable :=
  metaTable 32 15 (spaceTableBase type) (by decide) (by decide) (by decide)

lemma spaceTable_layout (type : SpaceType) : (spaceTable type).entrySize = 32 ∧
    (spaceTable type).perPage = 15 ∧ (spaceTable type).pageSize = undoMetaPageSize ∧
    (spaceTable type).pagesPerWrite = 8 ∧ (spaceTable type).count = persistZoneCount ∧
    (spaceTable type).base = spaceTableBase type :=
  ⟨rfl, rfl, rfl, rfl, rfl, rfl⟩

/-- Bytes that `CheckPointUndoSpace` writes of the batch that starts at zone `loop`. The divisor is
`UNDOSPACE_COUNT_PER_WRITE`. -/
def spaceWriteSize (loop : Nat) : Nat :=
  if persistZoneCount - loop < 120 then
    ((persistZoneCount - loop) / 120 + 1) * undoMetaPageSize
  else
    undoWriteSize

/-- Whether the space of a zone is there and dirty. -/
def spaceDirty (type : SpaceType) (zones : Nat → Option UndoZone) (i : Nat) : Bool :=
  (zones i).any fun z => (z.getSpace type).dirty

/-- `MarkClean`, on a space of a zone. -/
def markClean (type : SpaceType) (z : UndoZone) : UndoZone :=
  z.setSpace type { z.getSpace type with dirty := false }

/-- `CheckPointUndoSpace`: the file and the zones afterwards. -/
def checkPointUndoSpace (type : SpaceType) (nodeCount : Nat) (zones : Nat → Option UndoZone) (f : File) :
    File × (Nat → Option UndoZone) :=
  ((spaceTable type).checkPoint spaceWriteSize (spaceDirty type zones)
      (fun i => (spaceMeta type nodeCount zones i).bytes) f,
    fun i =>
      if i < persistZoneCount ∧
          (spaceTable type).batchDirty (spaceDirty type zones) (i / (spaceTable type).perWrite) then
        (zones i).map (markClean type)
      else
        zones i)

/-- What `RecoveryUndoSpace` does with the entry of zone `i`: an entry without a tail is skipped when the
zone is not there, any other sets the space, of a new zone if need be. -/
def recoverSpaceEntry (type : SpaceType) (i : Nat) (bs : List UInt8) (zone : Option UndoZone) :
    Option UndoZone :=
  let info := UndoSpaceMetaInfo.ofBytes bs
  if info.tail.toNat = 0 ∧ zone.isNone then
    none
  else
    some ((zone.getD (initZone i .permanent)).setSpace type
      { head := info.head.toNat, tail := info.tail.toNat, lsn := info.lsn.toNat, dirty := false })

/-- `RecoveryUndoSpace`. `none` is an ERROR: a short read or a checksum that does not match. -/
def recoveryUndoSpace (type : SpaceType) (f : File) (zones : Nat → Option UndoZone) :
    Option (Nat → Option UndoZone) :=
  (spaceTable type).recover f
    (fun i bs zones => Function.update zones i (recoverSpaceEntry type i bs (zones i))) zones

/-! ## Pages that are up to date -/

-- From here on the layout of the space tables is used through `spaceTable_layout` only.
attribute [irreducible] spaceTable

/-- The space of a zone; a zone that is not there has an empty one. -/
def spaceOf (type : SpaceType) (zones : Nat → Option UndoZone) (i : Nat) : UndoSpace :=
  ((zones i).map fun z => z.getSpace type).getD initUndoSpace

/-- What an entry says about a space. -/
structure EntryCurrent (info : UndoSpaceMetaInfo) (usp : UndoSpace) : Prop where
  lsn : info.lsn.toNat = usp.lsn
  head : info.head.toNat = usp.head
  tail : info.tail.toNat = usp.tail

/-- A page whose entries are those of the current spaces, under a valid checksum. -/
structure PageCurrent (type : SpaceType) (zones : Nat → Option UndoZone) (m : Mem) (p : Nat) : Prop where
  entry : ∀ j < (spaceTable type).pageEntries p, EntryCurrent
    (.ofBytes (m.read ((spaceTable type).pagePos p + j * (spaceTable type).entrySize)
      (spaceTable type).entrySize))
    (spaceOf type zones (p * (spaceTable type).perPage + j))
  valid : (spaceTable type).checkValid m ((spaceTable type).pagePos p)
    ((spaceTable type).pageEntries p) = true

/-- The space is empty, as an entry of zeros says. -/
def SpaceEmpty (usp : UndoSpace) : Prop := usp.lsn = 0 ∧ usp.head = 0 ∧ usp.tail = 0

/-- The first page of the last batch of a space table. -/
abbrev lastBatchPage : Nat := persistZoneCount / 120 * 8

/-- What a space is: its head is not above its tail, and its fields are 64-bit. -/
structure SpaceValid (usp : UndoSpace) : Prop where
  head_le : usp.head ≤ usp.tail
  tail_lt : usp.tail < 2 ^ 64
  lsn_lt : usp.lsn < 2 ^ 64

section

variable {type : SpaceType} {nodeCount : Nat} {zones : Nat → Option UndoZone} {f : File}

variable {p : Nat}

lemma PageCurrent.congr {m m' : Mem} (h : PageCurrent type zones m p)
    (heq : ∀ i < (spaceTable type).pageSize,
      m' ((spaceTable type).pagePos p + i) = m ((spaceTable type).pagePos p + i)) :
    PageCurrent type zones m' p := by
  have hself : (spaceTable type).PageHolds
      (fun i => m.read ((spaceTable type).pagePos p + (i - p * (spaceTable type).perPage) *
        (spaceTable type).entrySize) (spaceTable type).entrySize)
      m ((spaceTable type).pagePos p) p :=
    ⟨fun j _ => by rw [Nat.add_sub_cancel_left], h.valid⟩
  have hnew := hself.congr heq
  refine ⟨fun j hj => ?_, hnew.valid⟩
  rw [hnew.entry j hj, Nat.add_sub_cancel_left]
  exact h.entry j hj

/-- An entry is current unless its zone is behind the rounded zone count and not empty. -/
lemma entryCurrent_iff {i : Nat} (hvalid : SpaceValid (spaceOf type zones i)) :
    EntryCurrent (spaceMeta type nodeCount zones i) (spaceOf type zones i) ↔
      (zoneCountPerLevels nodeCount ≤ i → SpaceEmpty (spaceOf type zones i)) := by
  rw [spaceMeta]
  cases hz : zones i with
  | none =>
    have hspace : spaceOf type zones i = initUndoSpace := by
      rw [spaceOf, hz]
      rfl
    rw [hspace]
    exact ⟨fun _ _ => ⟨rfl, rfl, rfl⟩, fun _ => ⟨rfl, rfl, rfl⟩⟩
  | some z =>
    have hspace : spaceOf type zones i = z.getSpace type := by
      rw [spaceOf, hz]
      rfl
    rw [hspace] at hvalid ⊢
    by_cases hlevel : i < zoneCountPerLevels nodeCount
    · simp only [if_pos hlevel]
      refine ⟨fun _ hle => absurd hlevel (not_lt.mpr hle), fun _ => ⟨?_, ?_, ?_⟩⟩
      · exact UInt64.toNat_ofNat_of_lt' hvalid.lsn_lt
      · exact UInt64.toNat_ofNat_of_lt' (lt_of_le_of_lt hvalid.head_le hvalid.tail_lt)
      · exact UInt64.toNat_ofNat_of_lt' hvalid.tail_lt
    · simp only [if_neg hlevel]
      constructor
      · intro hcur _
        exact ⟨hcur.lsn.symm, hcur.head.symm, hcur.tail.symm⟩
      · intro hempty
        obtain ⟨hlsn, hhead, htail⟩ := hempty (not_lt.mp hlevel)
        exact ⟨hlsn.symm, hhead.symm, htail.symm⟩

/-- A page that holds the entries a checkpoint makes is current unless it has such a zone. -/
lemma pageCurrent_iff {m : Mem} (hvalid : ∀ i, SpaceValid (spaceOf type zones i))
    (h : (spaceTable type).PageHolds (fun i => (spaceMeta type nodeCount zones i).bytes) m
      ((spaceTable type).pagePos p) p) :
    PageCurrent type zones m p ↔ ∀ j < (spaceTable type).pageEntries p,
      zoneCountPerLevels nodeCount ≤ p * (spaceTable type).perPage + j →
        SpaceEmpty (spaceOf type zones (p * (spaceTable type).perPage + j)) := by
  constructor
  · intro hcur j hj
    have hentry := hcur.entry j hj
    rw [h.entry j hj, UndoSpaceMetaInfo.ofBytes_bytes] at hentry
    exact (entryCurrent_iff (hvalid _)).mp hentry
  · intro hcond
    refine ⟨fun j hj => ?_, h.valid⟩
    rw [h.entry j hj, UndoSpaceMetaInfo.ofBytes_bytes]
    exact (entryCurrent_iff (hvalid _)).mpr (hcond j hj)

/-! ## Which pages are written -/

lemma spaceWriteSize_le (k : Nat) :
    spaceWriteSize ((spaceTable type).batchStart k) ≤ (spaceTable type).writeBytes := by
  obtain ⟨-, -, hpage, hwrite, -, -⟩ := spaceTable_layout type
  rw [PagedTable.writeBytes, hpage, hwrite, spaceWriteSize]
  simp only [undoMetaPageSize, undoWriteSize]
  split <;> omega

lemma page_le_spaceWriteSize (hp : p ≤ lastBatchPage) :
    p % (spaceTable type).pagesPerWrite * (spaceTable type).pageSize + (spaceTable type).pageSize ≤
      spaceWriteSize ((spaceTable type).batchStart (p / (spaceTable type).pagesPerWrite)) := by
  obtain ⟨-, hper, hpage, hwrite, -, -⟩ := spaceTable_layout type
  rw [PagedTable.batchStart, PagedTable.perWrite, hper, hpage, hwrite]
  simp only [spaceWriteSize, lastBatchPage, undoMetaPageSize, undoWriteSize, persistZoneCount,
    undoZoneCount] at *
  split <;> omega

/-- Of the last batch one page is written. -/
lemma spaceWriteSize_le_page (hp : lastBatchPage < p) (hpos : 0 < (spaceTable type).pageEntries p) :
    spaceWriteSize ((spaceTable type).batchStart (p / (spaceTable type).pagesPerWrite)) ≤
      p % (spaceTable type).pagesPerWrite * (spaceTable type).pageSize := by
  obtain ⟨-, hper, hpage, hwrite, hcount, -⟩ := spaceTable_layout type
  rw [PagedTable.pageEntries, hper, hcount] at hpos
  rw [PagedTable.batchStart, PagedTable.perWrite, hper, hpage, hwrite]
  simp only [spaceWriteSize, lastBatchPage, undoMetaPageSize, undoWriteSize, persistZoneCount,
    undoZoneCount] at *
  split <;> omega

lemma checkPointUndoSpace_written (hp : p ≤ lastBatchPage) (hpos : 0 < (spaceTable type).pageEntries p)
    (hdirty : (spaceTable type).batchDirty (spaceDirty type zones) (p / (spaceTable type).pagesPerWrite) = true) :
    (spaceTable type).PageHolds (fun i => (spaceMeta type nodeCount zones i).bytes)
      (checkPointUndoSpace type nodeCount zones f).1.bytes ((spaceTable type).pagePos p) p := by
  have hentry := (spaceTable_layout type).1
  exact PagedTable.checkPoint_written (fun i => by rw [UndoSpaceMetaInfo.bytes_length, hentry])
    spaceWriteSize_le f hpos hdirty (page_le_spaceWriteSize hp)

lemma checkPointUndoSpace_kept
    (h : (spaceTable type).batchDirty (spaceDirty type zones) (p / (spaceTable type).pagesPerWrite) = false ∨
      lastBatchPage < p ∧ 0 < (spaceTable type).pageEntries p) :
    PageCurrent type zones (checkPointUndoSpace type nodeCount zones f).1.bytes p ↔
      PageCurrent type zones f.bytes p := by
  have hkept : ∀ i < (spaceTable type).pageSize,
      (checkPointUndoSpace type nodeCount zones f).1.bytes ((spaceTable type).pagePos p + i) =
        f.bytes ((spaceTable type).pagePos p + i) := fun i hi =>
    PagedTable.checkPoint_kept spaceWriteSize_le f
      (h.imp_right fun hlast => spaceWriteSize_le_page hlast.1 hlast.2) hi
  exact ⟨fun hcur => hcur.congr fun i hi => (hkept i hi).symm, fun hcur => hcur.congr hkept⟩

/-! ## Recovery -/

/-- A table whose pages are all current gives back head and tail of every space. -/
lemma recoveryUndoSpace_current (hvalid : ∀ i, SpaceValid (spaceOf type zones i))
    (hcur : ∀ p, 0 < (spaceTable type).pageEntries p → PageCurrent type zones f.bytes p)
    (hsize : spaceTableBase type + metaPageCount 15 * undoMetaPageSize ≤ f.size)
    (fresh : Nat → Option UndoZone) :
    ∃ zones', recoveryUndoSpace type f fresh = some zones' ∧ ∀ i < persistZoneCount,
      (spaceOf type zones' i).head = (spaceOf type zones i).head ∧
        (spaceOf type zones' i).tail = (spaceOf type zones i).tail := by
  obtain ⟨-, hper, hpage, -, hcount, hbase⟩ := spaceTable_layout type
  have hall : (spaceTable type).base +
      ((spaceTable type).count / (spaceTable type).perPage + 1) * (spaceTable type).pageSize ≤ f.size := by
    have hpages : metaPageCount 15 = persistZoneCount / 15 + 1 := rfl
    rw [hbase, hcount, hper, hpage, ← hpages]
    exact hsize
  refine ⟨_, PagedTable.recover_update (recoverSpaceEntry type) fresh hall fun p hp => (hcur p hp).valid,
    fun i hi => ?_⟩
  have hlt : i < (spaceTable type).count := hcount ▸ hi
  have hj := PagedTable.mod_lt_pageEntries hlt
  have hentry := (hcur (i / (spaceTable type).perPage) (by omega)).entry _ hj
  rw [Nat.div_add_mod'] at hentry
  change EntryCurrent (.ofBytes (f.bytes.read ((spaceTable type).entryPos i)
    (spaceTable type).entrySize)) _ at hentry
  rw [spaceOf, if_pos hlt, recoverSpaceEntry]
  split
  · -- skipped: the zone is not there, and the space it had was empty
    rename_i hskip
    have htail : (spaceOf type zones i).tail = 0 := hentry.tail.symm.trans hskip.1
    have hhead := (hvalid i).head_le
    rw [htail] at hhead
    exact ⟨(Nat.le_zero.mp hhead).symm, htail.symm⟩
  · cases type <;> exact ⟨hentry.head, hentry.tail⟩

/-- After the checkpoint every page of a batch with a dirty space is current; if the others were, recovery
restores head and tail of every space. -/
def SpacesSurvive (type : SpaceType) (nodeCount : Nat) (zones : Nat → Option UndoZone) (f : File) : Prop :=
  (∀ p, 0 < (spaceTable type).pageEntries p →
    (spaceTable type).batchDirty (spaceDirty type zones) (p / (spaceTable type).pagesPerWrite) = true →
    PageCurrent type zones (checkPointUndoSpace type nodeCount zones f).1.bytes p) ∧
  ((∀ p, 0 < (spaceTable type).pageEntries p →
      (spaceTable type).batchDirty (spaceDirty type zones) (p / (spaceTable type).pagesPerWrite) = false →
      PageCurrent type zones f.bytes p) →
    spaceTableBase type + metaPageCount 15 * undoMetaPageSize ≤ f.size →
    ∀ fresh, ∃ zones', recoveryUndoSpace type (checkPointUndoSpace type nodeCount zones f).1 fresh =
      some zones' ∧ ∀ i < persistZoneCount,
        (spaceOf type zones' i).head = (spaceOf type zones i).head ∧
          (spaceOf type zones' i).tail = (spaceOf type zones i).tail)

/-- When a checkpoint brings the pages of the dirty batches up to date: zones behind the rounded zone count
are empty, and the pages behind the first of the last batch are current already. -/
def SpacePagesReady (type : SpaceType) (nodeCount : Nat) (zones : Nat → Option UndoZone) (f : File) : Prop :=
  ∀ p, 0 < (spaceTable type).pageEntries p →
    (spaceTable type).batchDirty (spaceDirty type zones) (p / (spaceTable type).pagesPerWrite) = true →
    if p ≤ lastBatchPage then
      ∀ j < (spaceTable type).pageEntries p,
        zoneCountPerLevels nodeCount ≤ p * (spaceTable type).perPage + j →
          SpaceEmpty (spaceOf type zones (p * (spaceTable type).perPage + j))
    else
      PageCurrent type zones f.bytes p

lemma pages_current_iff (nodeCount : Nat) (f : File) (hvalid : ∀ i, SpaceValid (spaceOf type zones i)) :
    (∀ p, 0 < (spaceTable type).pageEntries p →
      (spaceTable type).batchDirty (spaceDirty type zones) (p / (spaceTable type).pagesPerWrite) = true →
      PageCurrent type zones (checkPointUndoSpace type nodeCount zones f).1.bytes p) ↔
      SpacePagesReady type nodeCount zones f := by
  refine forall_congr' fun p => forall_congr' fun hpos => forall_congr' fun hdirty => ?_
  split
  · rename_i hp
    exact pageCurrent_iff hvalid (checkPointUndoSpace_written hp hpos hdirty)
  · rename_i hp
    exact checkPointUndoSpace_kept (.inr ⟨not_le.mp hp, hpos⟩)

end

/-- **Space metadata survives checkpoint and recovery** exactly when no dirty batch has a zone in use behind
the rounded zone count, and, if the last batch is dirty, its pages behind the first are up to date already:
those are never written. -/
theorem checkPointUndoSpace_iff (type : SpaceType) (nodeCount : Nat) (zones : Nat → Option UndoZone)
    (f : File) (hvalid : ∀ i, SpaceValid (spaceOf type zones i)) :
    SpacesSurvive type nodeCount zones f ↔ SpacePagesReady type nodeCount zones f := by
  have hpages := pages_current_iff nodeCount f hvalid
  refine ⟨fun h => hpages.mp h.1, fun h => ⟨hpages.mpr h, fun hclean hsize fresh => ?_⟩⟩
  refine recoveryUndoSpace_current hvalid (fun p hpos => ?_)
    (le_trans hsize (PagedTable.size_le_checkPoint f)) fresh
  cases hdirty : (spaceTable type).batchDirty (spaceDirty type zones)
      (p / (spaceTable type).pagesPerWrite) with
  | true => exact hpages.mpr h p hpos hdirty
  | false => exact (checkPointUndoSpace_kept (.inl hdirty)).mpr (hclean p hpos hdirty)

/-- One zone with a dirty undo space of one segment. -/
def oneDirtyZone (zid : Nat) (i : Nat) : Option UndoZone :=
  if i = zid then
    some { initZone zid .permanent with
      undoSpace := { head := 0, tail := undoLogSegmentSize, lsn := 1, dirty := true } }
  else none

lemma oneDirtyZone_valid (zid i : Nat) : SpaceValid (spaceOf .undoLog (oneDirtyZone zid) i) := by
  rw [spaceOf, oneDirtyZone]
  split
  · have htail : undoLogSegmentSize < 2 ^ 64 := by decide
    have hlsn : 1 < 2 ^ 64 := by decide
    exact ⟨Nat.zero_le _, htail, hlsn⟩
  · have hzero : 0 < 2 ^ 64 := by decide
    exact ⟨le_rfl, hzero, hzero⟩

/-- The space of zone 0 comes back. -/
theorem checkPointUndoSpace_first : ∃ f zones',
    recoveryUndoSpace .undoLog (checkPointUndoSpace .undoLog 1 (oneDirtyZone 0) f).1 (fun _ => none) =
      some zones' ∧ (spaceOf .undoLog zones' 0).tail = undoLogSegmentSize := by
  obtain ⟨-, hper, -, hwrite, hcount, -⟩ := spaceTable_layout .undoLog
  have hvalid := oneDirtyZone_valid 0
  have hlevel : ∀ {p j : Nat}, j < (spaceTable .undoLog).pageEntries p →
      zoneCountPerLevels 1 ≤ p * (spaceTable .undoLog).perPage + j →
      SpaceEmpty (spaceOf .undoLog (oneDirtyZone 0) (p * (spaceTable .undoLog).perPage + j)) := by
    intro p j hj hle
    have hall : zoneCountPerLevels 1 = persistZoneCount := by decide
    rw [PagedTable.pageEntries, hcount] at hj
    omega
  obtain ⟨f, hholds, hsize⟩ := (spaceTable .undoLog).exists_file
    (fun i => (spaceMeta .undoLog 1 (oneDirtyZone 0) i).bytes)
    (fun c => by rw [UndoSpaceMetaInfo.bytes_length, (spaceTable_layout .undoLog).1])
    (spaceTableBase .undoLog + metaPageCount 15 * undoMetaPageSize)
  have hcur : ∀ p, 0 < (spaceTable .undoLog).pageEntries p →
      PageCurrent .undoLog (oneDirtyZone 0) f.bytes p := fun p hpos =>
    (pageCurrent_iff hvalid (hholds p hpos)).mpr fun j hj => hlevel hj
  have hready : SpacePagesReady .undoLog 1 (oneDirtyZone 0) f := by
    intro p hpos _
    split
    · exact fun j hj => hlevel hj
    · exact hcur p hpos
  obtain ⟨zones', hzones', hback⟩ := ((checkPointUndoSpace_iff _ _ _ f hvalid).mpr hready).2
    (fun p hpos _ => hcur p hpos) hsize.le fun _ => none
  exact ⟨f, zones', hzones', (hback 0 (by decide)).2⟩

/-- The space of the last zone is lost: in a file of zeros its page stays zero. -/
theorem last_space_lost : ¬∀ type nodeCount zones f, (∀ i, SpaceValid (spaceOf type zones i)) →
    SpacesSurvive type nodeCount zones f := by
  intro hall
  have hsurvive := hall .undoLog 1 (oneDirtyZone 349524) ⟨fun _ => 0, 0⟩ (oneDirtyZone_valid 349524)
  obtain ⟨hentry, hper, -, hwrite, hcount, -⟩ := spaceTable_layout .undoLog
  have hpos : (spaceTable .undoLog).pageEntries 23301 = 10 := by
    rw [PagedTable.pageEntries, hper, hcount]
    decide
  have hdirty : (spaceTable .undoLog).batchDirty (spaceDirty .undoLog (oneDirtyZone 349524))
      (23301 / (spaceTable .undoLog).pagesPerWrite) = true := by
    rw [PagedTable.batchDirty, PagedTable.batchLength, PagedTable.batchStart, PagedTable.perWrite, hwrite,
      hper, hcount]
    exact List.any_eq_true.mpr ⟨84, List.mem_range.mpr (by decide), by decide⟩
  have hpage := hsurvive.1 23301 (by omega) hdirty
  rw [checkPointUndoSpace_kept (.inr ⟨by decide, by omega⟩)] at hpage
  have htail := (hpage.entry 9 (by omega)).tail
  rw [hper, hentry] at htail
  have hzero : ∀ off, Mem.read (fun _ => 0) off 32 = List.replicate 32 0 := by
    intro off
    exact List.map_const' ..
  rw [hzero] at htail
  revert htail
  decide

end GaussKernel.Undo
