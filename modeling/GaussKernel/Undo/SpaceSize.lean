import Mathlib.Algebra.BigOperators.Group.Finset.Basic
import GaussKernel.Undo.SpaceMeta

/-!
# The size of the undo space

Model of the parts of `knl_uundospace.cpp` that create and remove segment files and count their blocks in
`undoTotalSize`: `ExtendUndoLog`, `UnlinkUndoLog`, `CreateNonExistsUndoFile`, `RecoveryUndoSpace`, and
`RecoveryUndoSystemMeta` (`knl_uundoapi.cpp`), which runs the recovery of all three tables.

The counter is meant to be the blocks between head and tail of every space. Two routines count segments that
no space has: an extension that meets `undo_space_limit_size` after its first segment leaves the tail where
it was, and recovery counts a segment file it has to create both by itself and within `Used()`. In runs in
which neither happens, and in which the counter does not wrap, it is exact (`undoTotalSize_eq_used`).
-/

namespace GaussKernel.Undo

open Lib
open Function (update update_self update_of_ne)

/-- The fields of `g_instance.undo_cxt` that have to do with size, and the segment files on disk. -/
structure UndoCxt where
  uZones : Nat → Option UndoZone
  undoTotalSize : Nat
  undoMetaSize : Nat
  files : SpaceType → Nat → Nat → Bool

/-- `Used`, as the blocks between head and tail. -/
def UndoSpace.used (usp : UndoSpace) : Nat := (usp.tail - usp.head) / blcksz

/-- Iterations of a loop that goes from `start` to `stop` segment by segment. -/
def segments (type : SpaceType) (start stop : Nat) : Nat :=
  (stop - start + usegSize type - 1) / usegSize type

/-- The test of `ExtendUndoLog` against `undo_space_limit_size`, in signed arithmetic. -/
def limitReached (limit : Int) (undoTotalSize undoMetaSize : Nat) : Bool :=
  limit ≤ Int.bmod undoTotalSize (2 ^ 32) + Int.bmod undoMetaSize (2 ^ 32)

namespace UndoCxt

variable (c : UndoCxt)

/-- A space of a zone. -/
def space (type : SpaceType) (zid : Nat) : UndoSpace := spaceOf type c.uZones zid

def setSpace (type : SpaceType) (zid : Nat) (usp : UndoSpace) : UndoCxt :=
  { c with
    uZones := update c.uZones zid ((c.uZones zid).map fun z => z.setSpace type usp) }

/-- `smgrextend` and `smgrdounlink`: the file of the segment of a block. -/
def setFile (type : SpaceType) (zid blockno : Nat) (present : Bool) : UndoCxt :=
  { c with
    files := fun t i segno =>
      if t = type ∧ i = zid ∧ segno = blockno % 2 ^ 32 / usegBlocks type then present
      else c.files t i segno }

/-- `smgrexists`. -/
def fileExists (type : SpaceType) (zid blockno : Nat) : Bool :=
  c.files type zid (blockno % 2 ^ 32 / usegBlocks type)

/-- `pg_atomic_fetch_add_u32` on `undoTotalSize`. -/
def addBlocks (blocks : Nat) : UndoCxt :=
  { c with undoTotalSize := (c.undoTotalSize + blocks) % 2 ^ 32 }

/-- The loop of `ExtendUndoLog`; `false` is its ERROR. -/
def extendSegments (inRecovery : Bool) (limit : Int) (type : SpaceType) (zid : Nat) :
    Nat → Nat → UndoCxt → Bool × UndoCxt
  | _, 0, c => (true, c)
  | tail, n + 1, c =>
    if inRecovery = false ∧ limitReached limit c.undoTotalSize c.undoMetaSize then
      (false, c)
    else
      extendSegments inRecovery limit type zid (tail + usegSize type) n
        ((c.setFile type zid (tail / blcksz + 1) true).addBlocks (usegBlocks type))

/-- `ExtendUndoLog`. -/
def extendUndoLog (inRecovery : Bool) (limit : Int) (type : SpaceType) (zid offset : Nat) :
    Bool × UndoCxt :=
  let usp := c.space type zid
  let (ok, c') := extendSegments inRecovery limit type zid usp.tail (segments type usp.tail offset) c
  if ok then (true, c'.setSpace type zid { usp with tail := offset }) else (false, c')

/-- The loop of `UnlinkUndoLog`; `none` is its PANIC. -/
def unlinkSegments (type : SpaceType) (zid : Nat) : Nat → Nat → UndoCxt → Option UndoCxt
  | _, 0, c => some c
  | head, n + 1, c =>
    let c := c.setFile type zid (head / blcksz) false
    if c.undoTotalSize < usegBlocks type then
      none
    else
      unlinkSegments type zid (head + usegSize type) n
        { c with undoTotalSize := c.undoTotalSize - usegBlocks type }

/-- `UnlinkUndoLog`. The head moves before the files go. -/
def unlinkUndoLog (type : SpaceType) (zid offset : Nat) : Option UndoCxt :=
  let usp := c.space type zid
  unlinkSegments type zid usp.head (segments type usp.head offset)
    (c.setSpace type zid { usp with head := offset })

/-- The loop of `CreateNonExistsUndoFile`. -/
def createSegments (type : SpaceType) (zid : Nat) : Nat → Nat → UndoCxt → UndoCxt
  | _, 0, c => c
  | offset, n + 1, c =>
    if c.fileExists type zid (offset / blcksz + 1) then
      createSegments type zid (offset + usegSize type) n c
    else
      createSegments type zid (offset + usegSize type) n
        ((c.setFile type zid (offset / blcksz + 1) true).addBlocks (usegBlocks type))

/-- `CreateNonExistsUndoFile`. -/
def createNonExistsUndoFile (type : SpaceType) (zid : Nat) : UndoCxt :=
  let usp := c.space type zid
  if usp.head = usp.tail then c
  else createSegments type zid usp.head (segments type usp.head usp.tail) c

/-- What `RecoveryUndoSpace` does with the entry of zone `i`: the space is set, its missing files are
created, its blocks are counted. `none` is the PANIC of `Used`. -/
def recoverSpace (type : SpaceType) (i : Nat) (bs : List UInt8) : Option UndoCxt :=
  match recoverSpaceEntry type i bs (c.uZones i) with
  | none => some c
  | some z =>
    let c := { c with uZones := update c.uZones i (some z) }
    let c := c.createNonExistsUndoFile type i
    if (z.getSpace type).tail < (z.getSpace type).head then
      none
    else
      some (c.addBlocks ((z.getSpace type).used % 2 ^ 32))

/-- `RecoveryUndoSpace` with its files and counters. -/
def recoveryUndoSpace (type : SpaceType) (f : File) : Option UndoCxt :=
  let c := { c with
    undoMetaSize := (c.undoMetaSize + metaPageCount 15 * undoMetaPageSize / blcksz) % 2 ^ 32 }
  ((spaceTable type).recover f (fun i bs c => c.bind fun c => recoverSpace c type i bs) (some c)).join

/-- The zones that are not persistent start over (`InitZone`, `InitUndoSpace` in `RecoveryUndoZone`). -/
def initTempZones : UndoCxt :=
  { c with
    uZones := fun i =>
      if i < persistZoneCount then c.uZones i
      else (c.uZones i).map fun _ =>
        initZone i (if i < 2 * persistZoneCount then .unlogged else .temp) }

/-- `RecoveryUndoSystemMeta`. -/
def recoveryUndoSystemMeta (f : File) : Option UndoCxt := do
  let c := { c.initTempZones with
    undoTotalSize := 0, undoMetaSize := metaPageCount 7 * undoMetaPageSize / blcksz }
  let zones ← recoveryUndoZone f c.uZones
  let c ← recoveryUndoSpace { c with uZones := zones } .undoLog f
  c.recoveryUndoSpace .slot f

/-- `GetUndoZone` with a zone to be created. -/
def getUndoZone (zid : Nat) (pLevel : UndoPersistence) : UndoCxt :=
  { c with uZones := update c.uZones zid (some ((c.uZones zid).getD (initZone zid pLevel))) }

/-- Blocks of both spaces of a zone. -/
def zoneUsed (i : Nat) : Nat := (c.space .undoLog i).used + (c.space .slot i).used

/-- Blocks of the zones below `n`. -/
def usedBelow (n : Nat) : Nat := ∑ i ∈ Finset.range n, c.zoneUsed i

/-- Blocks of all spaces. -/
def used : Nat := c.usedBelow undoZoneCount

end UndoCxt

/-! ## Runs -/

/-- Head and tail of a space are ends of segments, in order. -/
structure SegmentAligned (type : SpaceType) (usp : UndoSpace) : Prop where
  head_mod : usp.head % usegSize type = 0
  tail_mod : usp.tail % usegSize type = 0
  head_le : usp.head ≤ usp.tail

/-- The space that the entry of zone `i` in the metadata file describes. -/
def entrySpace (type : SpaceType) (f : File) (i : Nat) : UndoSpace :=
  let info := UndoSpaceMetaInfo.ofBytes
    (f.bytes.read ((spaceTable type).entryPos i) (spaceTable type).entrySize)
  { head := info.head.toNat, tail := info.tail.toNat, lsn := info.lsn.toNat, dirty := false }

/-- What moves the heads and tails. A recovery is given the metadata file and the segment files that the
crash left. -/
inductive SizeOp where
  | getUndoZone (zid : Nat) (pLevel : UndoPersistence)
  | extendUndoLog (inRecovery : Bool) (limit : Int) (type : SpaceType) (zid offset : Nat)
  | unlinkUndoLog (type : SpaceType) (zid offset : Nat)
  | recoveryUndoSystemMeta (f : File) (files : SpaceType → Nat → Nat → Bool)

/-- One step; `none` is a PANIC, or a recovery that fails. -/
def sizeStep (c : UndoCxt) : SizeOp → Option UndoCxt
  | .getUndoZone zid pLevel => some (c.getUndoZone zid pLevel)
  | .extendUndoLog inRecovery limit type zid offset =>
    some (c.extendUndoLog inRecovery limit type zid offset).2
  | .unlinkUndoLog type zid offset => c.unlinkUndoLog type zid offset
  | .recoveryUndoSystemMeta f files => { c with files := files }.recoveryUndoSystemMeta f

/-- What the routines assert of their arguments, and what the metadata file is written from. -/
def ValidSizeOp (c : UndoCxt) : SizeOp → Prop
  | .getUndoZone zid _ => zid < undoZoneCount
  | .extendUndoLog _ _ type zid offset => zid < undoZoneCount ∧ (c.uZones zid).isSome ∧
    (c.space type zid).tail < offset ∧ offset % usegSize type = 0
  | .unlinkUndoLog type zid offset => zid < undoZoneCount ∧ (c.uZones zid).isSome ∧
    (c.space type zid).head < offset ∧ offset ≤ (c.space type zid).tail ∧ offset % usegSize type = 0
  | .recoveryUndoSystemMeta f _ => ∀ type, ∀ i < persistZoneCount, SegmentAligned type (entrySpace type f i)

/-- The segment file that holds an offset is on disk. -/
def segmentPresent (files : SpaceType → Nat → Nat → Bool) (type : SpaceType) (zid offset : Nat) : Bool :=
  files type zid ((offset / blcksz + 1) % 2 ^ 32 / usegBlocks type)

/-- When a step keeps the count exact: an extension meets the limit at once or not at all, a recovery finds
every segment file, and the count stays below 2^32. -/
def ExactSizeOp (c : UndoCxt) : SizeOp → Prop
  | .getUndoZone _ _ => True
  | .extendUndoLog inRecovery limit type zid offset =>
    inRecovery = false ∧ limitReached limit c.undoTotalSize c.undoMetaSize ∨
      (∀ k < segments type (c.space type zid).tail offset, inRecovery = true ∨
        limitReached limit (c.undoTotalSize + k * usegBlocks type) c.undoMetaSize = false) ∧
      c.undoTotalSize + segments type (c.space type zid).tail offset * usegBlocks type < 2 ^ 32
  | .unlinkUndoLog _ _ _ => True
  | .recoveryUndoSystemMeta f files =>
    (∀ type, ∀ i < persistZoneCount, ∀ k < segments type (entrySpace type f i).head (entrySpace type f i).tail,
      segmentPresent files type i ((entrySpace type f i).head + k * usegSize type) = true) ∧
    ∑ i ∈ Finset.range persistZoneCount, ((entrySpace .undoLog f i).used + (entrySpace .slot f i).used) <
      2 ^ 32

/-- An instance before any zone exists. -/
def initUndoCxt (files : SpaceType → Nat → Nat → Bool) : UndoCxt where
  uZones _ := none
  undoTotalSize := 0
  undoMetaSize := 0
  files := files

/-- Runs from there whose steps all satisfy `ok`. -/
inductive SizeRun (ok : UndoCxt → SizeOp → Prop) : UndoCxt → Prop where
  | init (files : SpaceType → Nat → Nat → Bool) : SizeRun ok (initUndoCxt files)
  | step {c c' : UndoCxt} {op : SizeOp} (run : SizeRun ok c) (step_ok : ok c op)
      (next : sizeStep c op = some c') : SizeRun ok c'

/-! ## Spaces and their sum -/

section

variable {c c' : UndoCxt} {type type' : SpaceType} {zid i : Nat} {usp : UndoSpace}

lemma usegSize_eq (type : SpaceType) : usegSize type = blcksz * usegBlocks type := by
  cases type <;> rfl

lemma usegSize_pos (type : SpaceType) : 0 < usegSize type := by
  cases type <;> decide

section

variable {a b : Nat} (ha : a % usegSize type = 0) (hb : b % usegSize type = 0)
include ha hb

/-- Between ends of segments the loop runs once for each segment. -/
lemma segments_mul : segments type a b * usegSize type = b - a := by
  have hmod : (b - a) % usegSize type = 0 := Nat.sub_mod_eq_zero_of_mod_eq (hb.trans ha.symm)
  obtain ⟨q, hq⟩ := Nat.dvd_of_mod_eq_zero hmod
  have hpos := usegSize_pos type
  rw [segments, hq, Nat.add_sub_assoc hpos, Nat.mul_add_div hpos, Nat.div_eq_of_lt (by omega), Nat.add_zero,
    Nat.mul_comm]

lemma segments_blocks : segments type a b * usegBlocks type = (b - a) / blcksz := by
  have hmul := segments_mul ha hb
  rw [usegSize_eq, ← Nat.mul_assoc, Nat.mul_comm _ blcksz, Nat.mul_assoc] at hmul
  rw [← hmul, Nat.mul_div_cancel_left _ (by decide : 0 < blcksz)]

/-- Blocks add up along a space. -/
lemma blocks_add {d : Nat} (hd : d % usegSize type = 0) (hab : a ≤ b) (hbd : b ≤ d) :
    (b - a) / blcksz + (d - b) / blcksz = (d - a) / blcksz := by
  have h1 := segments_mul ha hb
  have h2 := segments_mul hb hd
  have h3 := segments_mul ha hd
  rw [← segments_blocks ha hb, ← segments_blocks hb hd, ← segments_blocks ha hd, ← Nat.add_mul]
  congr 1
  have hpos := usegSize_pos type
  apply Nat.eq_of_mul_eq_mul_right hpos
  rw [Nat.add_mul]
  omega

end

lemma UndoCxt.setSpace_space (hz : (c.uZones zid).isSome) (type type' : SpaceType) (usp : UndoSpace)
    (i : Nat) : (c.setSpace type zid usp).space type' i =
      if i = zid ∧ type' = type then usp else c.space type' i := by
  obtain ⟨z, hz⟩ := Option.isSome_iff_exists.mp hz
  simp only [space, spaceOf, setSpace]
  rcases eq_or_ne i zid with rfl | hne
  · rw [update_self, hz]
    cases type <;> cases type' <;> simp [UndoZone.getSpace, UndoZone.setSpace]
  · rw [update_of_ne hne, if_neg fun h => hne h.1]

lemma UndoCxt.usedBelow_congr (hspace : ∀ type i, c'.space type i = c.space type i) (n : Nat) :
    c'.usedBelow n = c.usedBelow n := by
  apply Finset.sum_congr rfl
  intro i _
  rw [zoneUsed, zoneUsed, hspace, hspace]

variable {n : Nat} {bs : List UInt8} {zone : Option UndoZone} {f : File}

/-- Setting one space changes the sum by the difference of that space. -/
lemma UndoCxt.setSpace_usedBelow (hz : (c.uZones zid).isSome) (hzid : zid < n) (type : SpaceType)
    (usp : UndoSpace) :
    (c.setSpace type zid usp).usedBelow n + (c.space type zid).used = c.usedBelow n + usp.used := by
  have hmem : zid ∈ Finset.range n := Finset.mem_range.mpr hzid
  have hrest : ∑ i ∈ (Finset.range n).erase zid, (c.setSpace type zid usp).zoneUsed i =
      ∑ i ∈ (Finset.range n).erase zid, c.zoneUsed i := by
    apply Finset.sum_congr rfl
    intro i hi
    have hne : i ≠ zid := Finset.ne_of_mem_erase hi
    rw [zoneUsed, zoneUsed, setSpace_space hz, setSpace_space hz, if_neg fun h => hne h.1,
      if_neg fun h => hne h.1]
  have hzone : (c.setSpace type zid usp).zoneUsed zid + (c.space type zid).used =
      c.zoneUsed zid + usp.used := by
    rw [zoneUsed, zoneUsed, setSpace_space hz, setSpace_space hz]
    cases type
    · rw [if_pos ⟨rfl, rfl⟩, if_neg (by simp)]
      omega
    · rw [if_neg (by simp), if_pos ⟨rfl, rfl⟩]
      omega
  rw [usedBelow, usedBelow, ← Finset.add_sum_erase _ _ hmem, ← Finset.add_sum_erase _ c.zoneUsed hmem,
    hrest]
  omega

/-! ## Steps -/

/-- Every space of the instance has its ends at ends of segments, and the counter is their sum. -/
structure SizeInv (c : UndoCxt) : Prop where
  aligned : ∀ type i, SegmentAligned type (c.space type i)
  exact : c.undoTotalSize = c.used

lemma segmentAligned_init (type : SpaceType) : SegmentAligned type initUndoSpace :=
  ⟨Nat.zero_mod _, Nat.zero_mod _, le_rfl⟩

lemma SizeInv.congr (h : SizeInv c) (hspace : ∀ type i, c'.space type i = c.space type i)
    (htotal : c'.undoTotalSize = c.undoTotalSize) : SizeInv c' :=
  ⟨fun type i => hspace type i ▸ h.aligned type i,
    htotal.trans (h.exact.trans (UndoCxt.usedBelow_congr hspace _).symm)⟩

/-- A new space of one zone, with the counter moved along. -/
lemma SizeInv.setSpace (h : SizeInv c) (hz : (c.uZones zid).isSome) (hzid : zid < undoZoneCount)
    (haligned : SegmentAligned type usp) (hzones : c'.uZones = (c.setSpace type zid usp).uZones)
    (htotal : c'.undoTotalSize + (c.space type zid).used = c.undoTotalSize + usp.used) : SizeInv c' := by
  have hspace : ∀ t i, c'.space t i = (c.setSpace type zid usp).space t i := by
    intro t i
    rw [UndoCxt.space, UndoCxt.space, hzones]
  have hsum := UndoCxt.setSpace_usedBelow hz hzid type usp
  refine ⟨fun t i => ?_, ?_⟩
  · rw [hspace, UndoCxt.setSpace_space hz]
    split
    · rename_i hit
      rw [hit.2]
      exact haligned
    · exact h.aligned t i
  · have hexact := h.exact
    have hused : c'.used = (c.setSpace type zid usp).used := UndoCxt.usedBelow_congr hspace _
    rw [hused, UndoCxt.used]
    rw [UndoCxt.used] at hexact
    omega

lemma SizeInv.getUndoZone (h : SizeInv c) (pLevel : UndoPersistence) :
    SizeInv (c.getUndoZone zid pLevel) := by
  refine h.congr (fun type i => ?_) rfl
  simp only [UndoCxt.space, spaceOf, UndoCxt.getUndoZone]
  rcases eq_or_ne i zid with rfl | hne
  · rw [update_self]
    cases c.uZones i with
    | none => cases type <;> rfl
    | some z => rfl
  · rw [update_of_ne hne]

/-- An extension that no limit stops counts every segment. -/
lemma UndoCxt.extendSegments_all {inRecovery : Bool} {limit : Int} (zid tail : Nat)
    (hlimit : ∀ k < n, inRecovery = true ∨
      limitReached limit (c.undoTotalSize + k * usegBlocks type) c.undoMetaSize = false)
    (hfits : c.undoTotalSize + n * usegBlocks type < 2 ^ 32) :
    ∃ c', extendSegments inRecovery limit type zid tail n c = (true, c') ∧ c'.uZones = c.uZones ∧
      c'.undoTotalSize = c.undoTotalSize + n * usegBlocks type := by
  induction n generalizing tail c with
  | zero => exact ⟨c, rfl, rfl, by rw [Nat.zero_mul, Nat.add_zero]⟩
  | succ n ih =>
    have hmul : (n + 1) * usegBlocks type = n * usegBlocks type + usegBlocks type := Nat.succ_mul ..
    have hnow : ¬(inRecovery = false ∧ limitReached limit c.undoTotalSize c.undoMetaSize = true) := by
      rintro ⟨hrec, hlim⟩
      have h0 := hlimit 0 (Nat.succ_pos n)
      rw [Nat.zero_mul, Nat.add_zero, hrec, hlim] at h0
      simp at h0
    rw [extendSegments, if_neg hnow]
    have htotal : ((c.setFile type zid (tail / blcksz + 1) true).addBlocks
        (usegBlocks type)).undoTotalSize = c.undoTotalSize + usegBlocks type := by
      show (c.undoTotalSize + usegBlocks type) % 2 ^ 32 = _
      exact Nat.mod_eq_of_lt (by omega)
    have hlater : ∀ k < n, inRecovery = true ∨ limitReached limit
        (((c.setFile type zid (tail / blcksz + 1) true).addBlocks (usegBlocks type)).undoTotalSize +
          k * usegBlocks type) c.undoMetaSize = false := by
      intro k hk
      have hnext := hlimit (k + 1) (by omega)
      rw [Nat.succ_mul] at hnext
      rw [htotal, Nat.add_assoc, Nat.add_comm (usegBlocks type)]
      exact hnext
    obtain ⟨c', hc', hzones, hsize⟩ := ih (tail + usegSize type) hlater (by rw [htotal]; omega)
    refine ⟨c', hc', hzones, ?_⟩
    rw [hsize, htotal]
    omega

lemma SizeInv.extendUndoLog (h : SizeInv c) {inRecovery : Bool} {limit : Int} {offset : Nat}
    (hvalid : ValidSizeOp c (.extendUndoLog inRecovery limit type zid offset))
    (hexact : ExactSizeOp c (.extendUndoLog inRecovery limit type zid offset)) :
    SizeInv (c.extendUndoLog inRecovery limit type zid offset).2 := by
  obtain ⟨hzid, hz, htail, hoffset⟩ := hvalid
  have haligned := h.aligned type zid
  have hblocks := segments_blocks haligned.tail_mod hoffset
  rw [UndoCxt.extendUndoLog]
  rcases hexact with ⟨hrec, hlim⟩ | ⟨hlimit, hfits⟩
  · -- the limit stops the loop before its first segment
    have hpos : segments type (c.space type zid).tail offset ≠ 0 := by
      intro hzero
      have hmul := segments_mul haligned.tail_mod hoffset
      rw [hzero] at hmul
      omega
    obtain ⟨n, hn⟩ := Nat.exists_eq_succ_of_ne_zero hpos
    have hstop : UndoCxt.extendSegments inRecovery limit type zid (c.space type zid).tail
        (segments type (c.space type zid).tail offset) c = (false, c) := by
      rw [hn, UndoCxt.extendSegments, if_pos ⟨hrec, hlim⟩]
    simp only [hstop]
    exact h
  · obtain ⟨c', hc', hzones, hsize⟩ := UndoCxt.extendSegments_all zid (c.space type zid).tail hlimit hfits
    simp only [hc', if_true]
    have hnew : SegmentAligned type { c.space type zid with tail := offset } :=
      ⟨haligned.head_mod, hoffset, haligned.head_le.trans htail.le⟩
    refine h.setSpace hz hzid hnew ?_ ?_
    · simp only [UndoCxt.setSpace, hzones]
    · have hadd := blocks_add haligned.head_mod haligned.tail_mod hoffset haligned.head_le htail.le
      show c'.undoTotalSize + ((c.space type zid).tail - (c.space type zid).head) / blcksz =
        c.undoTotalSize + (offset - (c.space type zid).head) / blcksz
      rw [hsize, hblocks]
      omega

lemma UndoCxt.unlinkSegments_all (zid head : Nat) (h : n * usegBlocks type ≤ c.undoTotalSize) :
    ∃ c', unlinkSegments type zid head n c = some c' ∧ c'.uZones = c.uZones ∧
      c'.undoTotalSize + n * usegBlocks type = c.undoTotalSize := by
  induction n generalizing head c with
  | zero => exact ⟨c, rfl, rfl, by rw [Nat.zero_mul, Nat.add_zero]⟩
  | succ n ih =>
    rw [Nat.succ_mul] at h
    have hnow : ¬(c.setFile type zid (head / blcksz) false).undoTotalSize < usegBlocks type := by
      show ¬c.undoTotalSize < usegBlocks type
      omega
    simp only [unlinkSegments, if_neg hnow]
    have hrest : n * usegBlocks type ≤ c.undoTotalSize - usegBlocks type := by omega
    obtain ⟨c', hc', hzones, hsize⟩ := ih (c := { c.setFile type zid (head / blcksz) false with
      undoTotalSize := c.undoTotalSize - usegBlocks type }) (head + usegSize type) hrest
    refine ⟨c', hc', hzones, ?_⟩
    rw [Nat.succ_mul, ← Nat.add_assoc, hsize]
    show c.undoTotalSize - usegBlocks type + usegBlocks type = c.undoTotalSize
    omega

lemma UndoCxt.space_le_usedBelow (hzid : zid < n) (type : SpaceType) :
    (c.space type zid).used ≤ c.usedBelow n := by
  have hzone : c.zoneUsed zid ≤ c.usedBelow n :=
    Finset.single_le_sum (fun i _ => Nat.zero_le (c.zoneUsed i)) (Finset.mem_range.mpr hzid)
  rw [zoneUsed] at hzone
  cases type <;> omega

/-- `UnlinkUndoLog` keeps the count exact, and does not PANIC. -/
lemma SizeInv.unlinkUndoLog (h : SizeInv c) {offset : Nat}
    (hvalid : ValidSizeOp c (.unlinkUndoLog type zid offset)) :
    ∃ c', c.unlinkUndoLog type zid offset = some c' ∧ SizeInv c' := by
  obtain ⟨hzid, hz, hhead, htail, hoffset⟩ := hvalid
  have haligned := h.aligned type zid
  have hblocks := segments_blocks haligned.head_mod hoffset
  have hadd := blocks_add haligned.head_mod hoffset haligned.tail_mod hhead.le htail
  have hle : (c.space type zid).used ≤ c.undoTotalSize := by
    rw [h.exact]
    exact UndoCxt.space_le_usedBelow hzid type
  rw [UndoSpace.used] at hle
  have henough : segments type (c.space type zid).head offset * usegBlocks type ≤
      (c.setSpace type zid { c.space type zid with head := offset }).undoTotalSize := by
    rw [hblocks]
    exact le_trans (Nat.le.intro hadd) hle
  obtain ⟨c', hc', hzones, hsize⟩ := UndoCxt.unlinkSegments_all zid (c.space type zid).head henough
  have hnew : SegmentAligned type { c.space type zid with head := offset } :=
    ⟨hoffset, haligned.tail_mod, htail⟩
  refine ⟨c', hc', h.setSpace hz hzid hnew hzones ?_⟩
  have htotal : c'.undoTotalSize + (offset - (c.space type zid).head) / blcksz = c.undoTotalSize := by
    rw [← hblocks]
    exact hsize
  show c'.undoTotalSize + ((c.space type zid).tail - (c.space type zid).head) / blcksz =
    c.undoTotalSize + ((c.space type zid).tail - offset) / blcksz
  omega

/-! ## Recovery -/

/-- The space that an entry describes. -/
def spaceOfBytes (bs : List UInt8) : UndoSpace :=
  let info := UndoSpaceMetaInfo.ofBytes bs
  { head := info.head.toNat, tail := info.tail.toNat, lsn := info.lsn.toNat, dirty := false }

/-- The space of a zone that may not be there. -/
def zoneSpace (type : SpaceType) (zone : Option UndoZone) : UndoSpace :=
  (zone.map fun z => z.getSpace type).getD initUndoSpace

/-- An entry that is skipped describes an empty space of a zone that is not there. -/
lemma recoverSpaceEntry_none (h : recoverSpaceEntry type i bs zone = none) :
    (spaceOfBytes bs).tail = 0 ∧ zone = none := by
  rw [recoverSpaceEntry] at h
  split at h
  · rename_i hskip
    exact ⟨hskip.1, Option.isNone_iff_eq_none.mp hskip.2⟩
  · cases h

lemma recoverSpaceEntry_some {z : UndoZone} (h : recoverSpaceEntry type i bs zone = some z) :
    z.getSpace type = spaceOfBytes bs := by
  rw [recoverSpaceEntry] at h
  split at h
  · cases h
  · cases h
    cases type <;> rfl

lemma zoneSpace_recover (hle : (spaceOfBytes bs).head ≤ (spaceOfBytes bs).tail) :
    (zoneSpace type (recoverSpaceEntry type i bs zone)).head = (spaceOfBytes bs).head ∧
      (zoneSpace type (recoverSpaceEntry type i bs zone)).tail = (spaceOfBytes bs).tail := by
  cases hrec : recoverSpaceEntry type i bs zone with
  | none =>
    obtain ⟨htail, -⟩ := recoverSpaceEntry_none hrec
    rw [htail] at hle
    exact ⟨(Nat.le_zero.mp hle).symm, htail.symm⟩
  | some z =>
    have hspace := recoverSpaceEntry_some hrec
    exact ⟨congrArg UndoSpace.head hspace, congrArg UndoSpace.tail hspace⟩

lemma zoneSpace_recover_other (hne : type' ≠ type) :
    zoneSpace type' (recoverSpaceEntry type i bs zone) = zoneSpace type' zone := by
  rw [recoverSpaceEntry]
  split
  · rename_i hskip
    rw [Option.isNone_iff_eq_none.mp hskip.2]
  · cases zone with
    | none => cases type <;> cases type' <;> first | rfl | exact absurd rfl hne
    | some z => cases type <;> cases type' <;> first | rfl | exact absurd rfl hne

lemma UndoCxt.createSegments_present (offset : Nat)
    (h : ∀ k < n, segmentPresent c.files type zid (offset + k * usegSize type) = true) :
    createSegments type zid offset n c = c := by
  induction n generalizing offset with
  | zero => rfl
  | succ n ih =>
    have hnow : c.fileExists type zid (offset / blcksz + 1) = true := by
      have h0 := h 0 (Nat.succ_pos n)
      rw [Nat.zero_mul, Nat.add_zero] at h0
      exact h0
    rw [createSegments, if_pos hnow]
    apply ih
    intro k hk
    have hnext := h (k + 1) (by omega)
    rw [Nat.succ_mul, Nat.add_comm (k * usegSize type), ← Nat.add_assoc] at hnext
    exact hnext

/-- An entry whose segment files are all there is counted once. -/
lemma UndoCxt.recoverSpace_present (hle : (spaceOfBytes bs).head ≤ (spaceOfBytes bs).tail)
    (hfiles : ∀ k < segments type (spaceOfBytes bs).head (spaceOfBytes bs).tail,
      segmentPresent c.files type i ((spaceOfBytes bs).head + k * usegSize type) = true)
    (hfits : c.undoTotalSize + (spaceOfBytes bs).used < 2 ^ 32) :
    c.recoverSpace type i bs = some { c with
      uZones := update c.uZones i (recoverSpaceEntry type i bs (c.uZones i))
      undoTotalSize := c.undoTotalSize + (spaceOfBytes bs).used } := by
  rw [recoverSpace]
  cases hrec : recoverSpaceEntry type i bs (c.uZones i) with
  | none =>
    obtain ⟨htail, hzone⟩ := recoverSpaceEntry_none hrec
    have hused : (spaceOfBytes bs).used = 0 := by
      rw [UndoSpace.used, htail, Nat.zero_sub, Nat.zero_div]
    have hsame : update c.uZones i none = c.uZones :=
      Function.update_eq_self_iff.mpr hzone.symm
    simp only [hsame, hused, Nat.add_zero]
  | some z =>
    have hspace := recoverSpaceEntry_some hrec
    have hset : UndoCxt.space { c with uZones := update c.uZones i (some z) } type i =
        spaceOfBytes bs := by
      show zoneSpace type (update c.uZones i (some z) i) = _
      rw [update_self]
      exact hspace
    have hcreate : UndoCxt.createNonExistsUndoFile
        { c with uZones := update c.uZones i (some z) } type i =
        { c with uZones := update c.uZones i (some z) } := by
      simp only [createNonExistsUndoFile, hset]
      split
      · rfl
      · exact createSegments_present _ hfiles
    have hmod : (spaceOfBytes bs).used % 2 ^ 32 = (spaceOfBytes bs).used :=
      Nat.mod_eq_of_lt (by omega)
    simp only [hcreate, hspace, if_neg (not_lt.mpr hle), hmod, addBlocks, Nat.mod_eq_of_lt hfits]

-- A segment that recovery has to create is counted twice: 256 blocks for a segment of 128.
example : ((initUndoCxt fun _ _ _ => false).recoverSpace .undoLog 0
    (UndoSpaceMetaInfo.bytes ⟨1, 0, 0, .ofNat undoLogSegmentSize⟩)).map UndoCxt.undoTotalSize =
    some 256 := by
  decide

/-- The instance after the first `n` entries of a table, each counted once. -/
def UndoCxt.withEntries (c : UndoCxt) (type : SpaceType) (f : File) (n : Nat) : UndoCxt :=
  { c with
    uZones := fun i =>
      if i < n then
        recoverSpaceEntry type i (f.bytes.read ((spaceTable type).entryPos i) (spaceTable type).entrySize)
          (c.uZones i)
      else c.uZones i
    undoTotalSize := c.undoTotalSize + ∑ i ∈ Finset.range n, (entrySpace type f i).used }

lemma UndoCxt.withEntries_succ (c : UndoCxt) (type : SpaceType) (f : File) (n : Nat) :
    { c.withEntries type f n with
      uZones := update (c.withEntries type f n).uZones n (recoverSpaceEntry type n
        (f.bytes.read ((spaceTable type).entryPos n) (spaceTable type).entrySize)
        ((c.withEntries type f n).uZones n))
      undoTotalSize := (c.withEntries type f n).undoTotalSize + (entrySpace type f n).used } =
      c.withEntries type f (n + 1) := by
  simp only [withEntries, Finset.sum_range_succ, ← Nat.add_assoc, if_neg (lt_irrefl n)]
  congr 1
  funext j
  rcases eq_or_ne j n with rfl | hne
  · rw [update_self, if_pos (Nat.lt_succ_self j)]
  · rw [update_of_ne hne]
    by_cases hlt : j < n
    · rw [if_pos hlt, if_pos (by omega)]
    · rw [if_neg hlt, if_neg (by omega)]

/-- Reading a table whose segment files are all there. -/
lemma UndoCxt.recover_present (hle : ∀ i < n, (entrySpace type f i).head ≤ (entrySpace type f i).tail)
    (hfiles : ∀ i < n, ∀ k < segments type (entrySpace type f i).head (entrySpace type f i).tail,
      segmentPresent c.files type i ((entrySpace type f i).head + k * usegSize type) = true)
    (hfits : c.undoTotalSize + ∑ i ∈ Finset.range n, (entrySpace type f i).used < 2 ^ 32) :
    (spaceTable type).entriesFolded f (fun i bs c => c.bind fun c => recoverSpace c type i bs) (some c) n =
      some (c.withEntries type f n) := by
  induction n with
  | zero => rfl
  | succ n ih =>
    rw [Finset.sum_range_succ, ← Nat.add_assoc] at hfits
    have hprev := ih (fun i hi => hle i (by omega)) (fun i hi => hfiles i (by omega)) (by omega)
    have hentry := recoverSpace_present (c := c.withEntries type f n) (hle n (Nat.lt_succ_self n))
      (hfiles n (Nat.lt_succ_self n)) hfits
    rw [PagedTable.entriesFolded] at hprev ⊢
    rw [List.range_succ, List.foldl_append, hprev, List.foldl_cons, List.foldl_nil, Option.bind_some, hentry]
    exact congrArg some (c.withEntries_succ type f n)

/-- `RecoveryUndoSpace` when every segment file is there. -/
lemma UndoCxt.recoveryUndoSpace_present
    (hle : ∀ i < persistZoneCount, (entrySpace type f i).head ≤ (entrySpace type f i).tail)
    (hfiles : ∀ i < persistZoneCount, ∀ k < segments type (entrySpace type f i).head (entrySpace type f i).tail,
      segmentPresent c.files type i ((entrySpace type f i).head + k * usegSize type) = true)
    (hfits : c.undoTotalSize + ∑ i ∈ Finset.range persistZoneCount, (entrySpace type f i).used < 2 ^ 32)
    (h : c.recoveryUndoSpace type f = some c') :
    ∃ size, c' = UndoCxt.withEntries { c with undoMetaSize := size } type f persistZoneCount := by
  have hcount := (spaceTable_layout type).2.2.2.2.1
  have hread := PagedTable.recover_eq (Option.join_eq_some_iff.mp h)
  rw [hcount, recover_present (c := { c with
    undoMetaSize := (c.undoMetaSize + metaPageCount 15 * undoMetaPageSize / blcksz) % 2 ^ 32 })
    hle hfiles hfits] at hread
  exact ⟨_, Option.some.inj hread⟩

lemma recoveryUndoZone_above {zones zones' : Nat → Option UndoZone} (h : recoveryUndoZone f zones = some zones')
    (hi : persistZoneCount ≤ i) : zones' i = zones i := by
  obtain ⟨-, -, -, -, hcount, -⟩ := zoneTable_layout
  rw [PagedTable.recover_eq h, PagedTable.entriesFolded, PagedTable.foldl_update fun i a =>
    recoverZoneEntry i (f.bytes.read (zoneTable.entryPos i) zoneTable.entrySize) a]
  exact if_neg (by rw [hcount]; omega)

/-- Zones that hold no blocks do not count. -/
lemma UndoCxt.usedBelow_eq {m : Nat} (hle : n ≤ m) (h : ∀ i, n ≤ i → c.zoneUsed i = 0) :
    c.usedBelow m = c.usedBelow n := by
  refine (Finset.sum_subset (Finset.range_subset_range.mpr hle) fun i _ hi => h i ?_).symm
  rw [Finset.mem_range] at hi
  omega

/-- Recovery from a file whose segment files are all on disk. -/
lemma sizeInv_recovery {files : SpaceType → Nat → Nat → Bool}
    (hvalid : ValidSizeOp c (.recoveryUndoSystemMeta f files))
    (hexact : ExactSizeOp c (.recoveryUndoSystemMeta f files))
    (hnext : sizeStep c (.recoveryUndoSystemMeta f files) = some c') : SizeInv c' := by
  obtain ⟨hfiles, hfits⟩ := hexact
  have hle : ∀ type, ∀ i < persistZoneCount, (entrySpace type f i).head ≤ (entrySpace type f i).tail :=
    fun type i hi => (hvalid type i hi).head_le
  rw [Finset.sum_add_distrib] at hfits
  obtain ⟨zones, hzones, hrest⟩ := Option.bind_eq_some_iff.mp hnext
  obtain ⟨c₁, hundo, hslot⟩ := Option.bind_eq_some_iff.mp hrest
  obtain ⟨size₁, hc₁⟩ := UndoCxt.recoveryUndoSpace_present (hle .undoLog) (hfiles .undoLog)
    (by rw [Nat.zero_add]; omega) hundo
  have htotal₁ : c₁.undoTotalSize =
      0 + ∑ i ∈ Finset.range persistZoneCount, (entrySpace .undoLog f i).used := by
    rw [hc₁]
    rfl
  have hfiles₁ : c₁.files = files := by
    rw [hc₁]
    rfl
  obtain ⟨size₂, hc'⟩ := UndoCxt.recoveryUndoSpace_present (hle .slot) (hfiles₁ ▸ hfiles .slot)
    (by rw [htotal₁, Nat.zero_add]; exact hfits) hslot
  -- below the persistent zones both spaces are those of the file
  have hbelow : ∀ type, ∀ i < persistZoneCount, (c'.space type i).head = (entrySpace type f i).head ∧
      (c'.space type i).tail = (entrySpace type f i).tail := by
    intro type i hi
    have hzone : c'.uZones i = recoverSpaceEntry .slot i
        (f.bytes.read ((spaceTable .slot).entryPos i) (spaceTable .slot).entrySize)
        (recoverSpaceEntry .undoLog i
          (f.bytes.read ((spaceTable .undoLog).entryPos i) (spaceTable .undoLog).entrySize) (zones i)) := by
      rw [hc', hc₁]
      simp only [UndoCxt.withEntries, if_pos hi]
    change (zoneSpace type (c'.uZones i)).head = _ ∧ (zoneSpace type (c'.uZones i)).tail = _
    rw [hzone]
    cases type with
    | slot => exact zoneSpace_recover (hle .slot i hi)
    | undoLog =>
      rw [zoneSpace_recover_other (by decide)]
      exact zoneSpace_recover (hle .undoLog i hi)
  -- the other zones start over
  have habove : ∀ type i, persistZoneCount ≤ i → c'.space type i = initUndoSpace := by
    intro type i hi
    have hzone : c'.uZones i = (c.uZones i).map fun _ =>
        initZone i (if i < 2 * persistZoneCount then .unlogged else .temp) := by
      have hsame := recoveryUndoZone_above hzones hi
      rw [hc', hc₁]
      simp only [UndoCxt.withEntries, if_neg (not_lt.mpr hi), hsame, UndoCxt.initTempZones]
    change zoneSpace type (c'.uZones i) = initUndoSpace
    rw [hzone]
    cases c.uZones i <;> cases type <;> rfl
  refine ⟨fun type i => ?_, ?_⟩
  · by_cases hi : i < persistZoneCount
    · obtain ⟨hhead, htail⟩ := hbelow type i hi
      obtain ⟨h1, h2, h3⟩ := hvalid type i hi
      exact ⟨by rw [hhead, h1], by rw [htail, h2], by rw [hhead, htail]; exact h3⟩
    · rw [habove type i (not_lt.mp hi)]
      exact segmentAligned_init type
  · have hzero : ∀ i, persistZoneCount ≤ i → c'.zoneUsed i = 0 := by
      intro i hi
      rw [UndoCxt.zoneUsed, habove _ i hi, habove _ i hi]
      rfl
    have hused : c'.usedBelow persistZoneCount = ∑ i ∈ Finset.range persistZoneCount,
        ((entrySpace .undoLog f i).used + (entrySpace .slot f i).used) := by
      apply Finset.sum_congr rfl
      intro i hi
      obtain ⟨hhead, htail⟩ := hbelow .undoLog i (Finset.mem_range.mp hi)
      obtain ⟨hhead', htail'⟩ := hbelow .slot i (Finset.mem_range.mp hi)
      rw [UndoCxt.zoneUsed, UndoSpace.used, UndoSpace.used, hhead, htail, hhead', htail']
      rfl
    have hcounted : c'.undoTotalSize =
        c₁.undoTotalSize + ∑ i ∈ Finset.range persistZoneCount, (entrySpace .slot f i).used := by
      rw [hc']
      rfl
    rw [UndoCxt.used, UndoCxt.usedBelow_eq (by decide) hzero, hused, hcounted, htotal₁, Nat.zero_add,
      Finset.sum_add_distrib]

lemma SizeInv.step (h : SizeInv c) {op : SizeOp} (hvalid : ValidSizeOp c op) (hexact : ExactSizeOp c op)
    (hnext : sizeStep c op = some c') : SizeInv c' := by
  cases op with
  | getUndoZone zid pLevel =>
    cases hnext
    exact h.getUndoZone pLevel
  | extendUndoLog inRecovery limit type zid offset =>
    cases hnext
    exact h.extendUndoLog hvalid hexact
  | unlinkUndoLog type zid offset =>
    obtain ⟨c₁, hc₁, hinv⟩ := h.unlinkUndoLog hvalid
    cases hc₁.symm.trans hnext
    exact hinv
  | recoveryUndoSystemMeta f files => exact sizeInv_recovery hvalid hexact hnext

lemma SizeRun.sizeInv (h : SizeRun (fun c op => ValidSizeOp c op ∧ ExactSizeOp c op) c) : SizeInv c := by
  induction h with
  | init files =>
    have hzero : ∀ i, (initUndoCxt files).zoneUsed i = 0 := fun i =>
      show initUndoSpace.used + initUndoSpace.used = 0 from rfl
    exact ⟨fun type _ => segmentAligned_init type,
      (UndoCxt.usedBelow_eq (Nat.zero_le _) fun i _ => hzero i).symm⟩
  | step _ hok hnext ih => exact ih.step hok.1 hok.2 hnext

/-! ## The zone model

`UndoZone.extendSpace` and `UndoZone.releaseBelow` know a space by its head and tail only. What they leave is
what the routines that also keep files and counter leave. -/

lemma UndoCxt.extendSegments_uZones (inRecovery : Bool) (limit : Int) (type : SpaceType)
    (zid tail n : Nat) (c : UndoCxt) :
    (extendSegments inRecovery limit type zid tail n c).2.uZones = c.uZones := by
  induction n generalizing tail c with
  | zero => rfl
  | succ n ih =>
    rw [extendSegments]
    split
    · rfl
    · exact ih (tail + usegSize type) _

lemma UndoCxt.unlinkSegments_uZones {head : Nat} (h : unlinkSegments type zid head n c = some c') :
    c'.uZones = c.uZones := by
  induction n generalizing head c with
  | zero =>
    cases h
    rfl
  | succ n ih =>
    simp only [unlinkSegments] at h
    split at h
    · cases h
    · have hzones := ih (c := { c.setFile type zid (head / blcksz) false with
        undoTotalSize := c.undoTotalSize - usegBlocks type }) h
      exact hzones

lemma UndoCxt.setSpace_self (hz : (c.uZones zid).isSome) (hzones : c'.uZones = (c.setSpace type zid usp).uZones) :
    c'.space type zid = usp := by
  have hset := UndoCxt.setSpace_space hz type type usp zid
  rw [if_pos ⟨rfl, rfl⟩] at hset
  rw [← hset, space, space, hzones]

/-- An extension that meets no limit. -/
theorem extendUndoLog_extendSpace {inRecovery : Bool} {limit : Int} {z : UndoZone} (w : Wal)
    {newInsert offset : Nat} (hz : c.uZones zid = some z) (hgrow : (z.getSpace type).tail < newInsert)
    (hoffset : offset = newInsert + usegSize type - newInsert % usegSize type)
    (hok : (c.extendUndoLog inRecovery limit type zid offset).1 = true) :
    ((c.extendUndoLog inRecovery limit type zid offset).2.space type zid).head =
        ((z.extendSpace w type newInsert).1.getSpace type).head ∧
      ((c.extendUndoLog inRecovery limit type zid offset).2.space type zid).tail =
        ((z.extendSpace w type newInsert).1.getSpace type).tail := by
  have hspace : c.space type zid = z.getSpace type := by
    rw [UndoCxt.space, spaceOf, hz]
    rfl
  have hleft : (c.extendUndoLog inRecovery limit type zid offset).2.space type zid =
      { c.space type zid with tail := offset } := by
    have hzones := UndoCxt.extendSegments_uZones inRecovery limit type zid (c.space type zid).tail
      (segments type (c.space type zid).tail offset) c
    simp only [UndoCxt.extendUndoLog] at hok ⊢
    split at hok
    swap
    · cases hok
    rename_i hall
    rw [if_pos hall]
    refine UndoCxt.setSpace_self (Option.isSome_iff_exists.mpr ⟨z, hz⟩) ?_
    simp only [UndoCxt.setSpace, hzones]
  rw [hleft, hspace, hoffset]
  simp only [UndoZone.extendSpace, if_pos hgrow]
  cases type <;> split <;> exact ⟨rfl, rfl⟩

/-- A release that does not PANIC. -/
theorem unlinkUndoLog_releaseBelow {z : UndoZone} (w : Wal) {endPtr offset : Nat}
    (hz : c.uZones zid = some z)
    (hbelow : (z.getSpace type).head / usegSize type < undoPtrGetOffset endPtr / usegSize type)
    (hoffset : offset = undoPtrGetOffset endPtr / usegSize type * usegSize type)
    (h : c.unlinkUndoLog type zid offset = some c') :
    (c'.space type zid).head = ((z.releaseBelow w type endPtr).1.getSpace type).head ∧
      (c'.space type zid).tail = ((z.releaseBelow w type endPtr).1.getSpace type).tail := by
  have hspace : c.space type zid = z.getSpace type := by
    rw [UndoCxt.space, spaceOf, hz]
    rfl
  have hright : c'.space type zid = { c.space type zid with head := offset } :=
    UndoCxt.setSpace_self (Option.isSome_iff_exists.mpr ⟨z, hz⟩) (UndoCxt.unlinkSegments_uZones h)
  rw [hright, hspace, hoffset]
  simp only [UndoZone.releaseBelow, if_pos hbelow]
  cases type <;> split <;> exact ⟨rfl, rfl⟩

end

/-- **The size counter is exact** in every run in which no extension meets the limit between two segments,
no recovery misses a segment file and the count stays below 2^32. -/
theorem undoTotalSize_eq_used (c : UndoCxt)
    (h : SizeRun (fun c op => ValidSizeOp c op ∧ ExactSizeOp c op) c) : c.undoTotalSize = c.used :=
  h.sizeInv.exact

/-- An instance with one empty zone. -/
def oneZoneCxt : UndoCxt := (initUndoCxt fun _ _ _ => false).getUndoZone 0 .permanent

/-- The undo space of the zone is extended to `n` segments. -/
def extendOp (limit : Int) (n : Nat) : SizeOp :=
  .extendUndoLog false limit .undoLog 0 (n * undoLogSegmentSize)

lemma oneZoneCxt_step : sizeStep (initUndoCxt fun _ _ _ => false) (.getUndoZone 0 .permanent) =
    some oneZoneCxt := rfl

lemma getUndoZone_valid (c : UndoCxt) : ValidSizeOp c (.getUndoZone 0 .permanent) := by
  show 0 < undoZoneCount
  decide

lemma extendOp_valid (limit : Int) {n : Nat} (hpos : 0 < n) : ValidSizeOp oneZoneCxt (extendOp limit n) := by
  have hzone : 0 < undoZoneCount := by decide
  refine ⟨hzone, rfl, ?_, Nat.mul_mod_left _ _⟩
  exact Nat.mul_pos hpos (by decide)

theorem undoTotalSize_eq_used_oneSegment : ∃ c, sizeStep oneZoneCxt (extendOp 1000 1) = some c ∧
    c.undoTotalSize = 128 ∧ c.undoTotalSize = c.used := by
  refine ⟨_, rfl, by decide, undoTotalSize_eq_used _ ?_⟩
  have hexact : ExactSizeOp oneZoneCxt (extendOp 1000 1) := by
    refine .inr ⟨?_, ?_⟩
    all_goals decide
  exact .step (.step (.init _) ⟨getUndoZone_valid _, trivial⟩ oneZoneCxt_step)
    ⟨extendOp_valid 1000 (by decide), hexact⟩ rfl

/-- An extension by two segments that the limit stops after the first counts a segment that no space has. -/
theorem stopped_extension_counts : ¬∀ c, SizeRun ValidSizeOp c → c.undoTotalSize = c.used := by
  intro hall
  obtain ⟨c, hstep, htotal, hzones⟩ : ∃ c, sizeStep oneZoneCxt (extendOp 100 2) = some c ∧
      c.undoTotalSize = 128 ∧ c.uZones = oneZoneCxt.uZones := by
    refine ⟨_, rfl, by decide, ?_⟩
    exact UndoCxt.extendSegments_uZones false 100 .undoLog 0 0 2 oneZoneCxt
  have hrun : SizeRun ValidSizeOp c :=
    .step (.step (.init _) (getUndoZone_valid _) oneZoneCxt_step) (extendOp_valid 100 (by decide)) hstep
  have hzero : ∀ i, 0 ≤ i → c.zoneUsed i = 0 := by
    intro i _
    have hspace : ∀ type, c.space type i = initUndoSpace := by
      intro type
      rw [UndoCxt.space, spaceOf, hzones]
      rcases Nat.eq_zero_or_pos i with rfl | hpos
      · cases type <;> rfl
      · have hnone : oneZoneCxt.uZones i = none := update_of_ne hpos.ne' _ _
        rw [hnone]
        rfl
    rw [UndoCxt.zoneUsed, hspace, hspace]
    rfl
  have hexact := hall c hrun
  rw [UndoCxt.used, UndoCxt.usedBelow_eq (Nat.zero_le _) hzero, htotal] at hexact
  cases hexact

end GaussKernel.Undo
