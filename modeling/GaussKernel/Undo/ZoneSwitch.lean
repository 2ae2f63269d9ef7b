import GaussKernel.Undo.RecordVec
import GaussKernel.Undo.Zone

/-!
# Switching zones

`PrepareUndoRecord` outside recovery asks the zone whether the records fit behind its insert pointer, and goes to a
fresh zone if they do not. The zone is asked with the low 16 bits of their size.
-/

namespace GaussKernel.Undo

/-- `URecVector::TotalSize`, before it is cut to 64 bits. -/
def totalSize (urecs : List UndoRecord) : Nat := ((urecs.filter (·.needInsert)).map UndoRecord.recordSize).sum

/-- `UndoZone::CheckNeedSwitch`: the size is an `UndoRecordSize`, a `uint16`. -/
def UndoZone.checkNeedSwitch (z : UndoZone) (size : Nat) : Bool :=
  undoLogOffsetPlusUsableBytes z.insertURecPtr (size % 2 ^ 16) > undoLogMaxSize

/-- Whether `PrepareUndoRecord` requests a switch; its `totalSize` is a `uint32`. -/
def needSwitch (z : UndoZone) (urecs : List UndoRecord) : Bool :=
  z.checkNeedSwitch (totalSize (urecs.map undoRecordSetUInfo) % 2 ^ 64 % 2 ^ 32)

/-- `PrepareUndoRecord` outside recovery. `newZone` is the zone to which `SwitchZone` goes. -/
def prepareInZone (z newZone : UndoZone) (skipInsert : Bool) (urecs : List UndoRecord) :
    Option (List UndoRecord × List UndoBuffer × Nat) :=
  prepareUndoRecord (needSwitch z urecs) skipInsert
    (if needSwitch z urecs then newZone.getInsertURecPtr else z.getInsertURecPtr) urecs

/-! ## Where records lie -/

/-- A record begins and ends inside the zone. -/
structure UndoRecord.InZone (u : UndoRecord) (zid : Nat) : Prop where
  zone : undoPtrGetZoneId u.urp = zid
  fits : undoLogOffsetPlusUsableBytes (undoPtrGetOffset u.urp) u.recordSize ≤ undoLogMaxSize

variable {zid m : Nat} {skipInsert : Bool} {u : UndoRecord} {us : List UndoRecord} {ub : List UndoBuffer}

lemma UndoRecord.recordSize_lt (u : UndoRecord) : u.recordSize < 2 ^ 16 := Nat.mod_lt _ (by decide)

lemma totalSize_cons : totalSize (u :: us) = (if u.needInsert then u.recordSize else 0) + totalSize us := by
  unfold totalSize
  rw [List.filter_cons]
  split
  · rw [List.map_cons, List.sum_cons]
  · rw [Nat.zero_add]

lemma totalSize_lt (us : List UndoRecord) : totalSize us ≤ us.length * 2 ^ 16 := by
  induction us with
  | nil => exact Nat.zero_le _
  | cons u us ih =>
    have := u.recordSize_lt
    rw [totalSize_cons, List.length_cons, Nat.succ_mul]
    split <;> omega

/-- The records lie in the zone exactly when their sizes fit behind the first pointer. -/
lemma prepareLoop_inZone (hz : zid < 2 ^ 20) (hm : m < zoneUsableBytes) :
    (∃ recs ub' e, prepareLoop skipInsert us (ptrAt zid m) ub = some (recs, ub', e) ∧
      ∀ u ∈ recs, u.needInsert = true → u.InZone zid) ↔ m + totalSize us < zoneUsableBytes := by
  induction us generalizing m ub with
  | nil => exact ⟨fun _ => hm, fun _ => ⟨[], ub, _, rfl, fun u hu => absurd hu List.not_mem_nil⟩⟩
  | cons u us ih =>
    rw [totalSize_cons, prepareLoop]
    by_cases hn : u.needInsert = true
    · have hptr : ptrAt zid m < 2 ^ 64 := makeUndoPtr_lt hz (lt_trans (usablePos_lt_max.mpr hm) (by decide))
      have hoff : undoLogBlockHeaderSize ≤ undoPtrGetPageOffset (ptrAt zid m) := by
        rw [getPageOffset_ptrAt hz]
        exact Nat.le_add_right _ _
      have hne : ¬ ptrAt zid m = invalidUndoRecPtr := by
        intro h0
        rw [h0] at hoff
        exact absurd hoff (by decide)
      have hsize := u.recordSize_lt
      have hadvance : advanceUndoPtr (ptrAt zid m) u.recordSize = ptrAt zid (m + u.recordSize) := by
        refine advanceUndoPtr_ptrAt hz ?_
        simp only [zoneUsableBytes, undoLogUsableBytesPerPage] at *
        omega
      have hzone : undoPtrGetZoneId (ptrAt zid m) = zid := by
        rw [getZoneId_ptrAt hz, zoneAt, Nat.div_eq_of_lt hm, Nat.or_zero]
      have hfits : undoLogOffsetPlusUsableBytes (undoPtrGetOffset (ptrAt zid m)) u.recordSize ≤ undoLogMaxSize ↔
          m + u.recordSize < zoneUsableBytes := by
        have hpos := usablePos_lt_max.mpr hm
        rw [getOffset_ptrAt hz, Nat.mod_eq_of_lt hm, plusUsableBytes_eq (header_le_usablePos _)
          (lt_trans hpos (by decide)) (lt_trans hsize (by decide)), usableNo_usablePos, usablePos_le_max]
      rw [if_neg (by rw [hn]; decide), if_neg hne, if_pos hn, hadvance, ← Nat.add_assoc]
      constructor
      · rintro ⟨recs, ub', e, hloop, hall⟩
        obtain ⟨⟨recs', r⟩, hrest, heq⟩ := Option.map_eq_some_iff.mp hloop
        cases heq
        have hlt := hfits.mp (hall _ List.mem_cons_self hn).fits
        exact (ih hlt).mp ⟨recs', _, _, hrest, fun v hv => hall v (List.mem_cons_of_mem _ hv)⟩
      · intro hlt
        obtain ⟨recs, ub', e, hrest, hall⟩ := (ih (Nat.lt_of_le_of_lt (Nat.le_add_right _ _) hlt)).mpr hlt
        refine ⟨_, ub', e, Option.map_eq_some_iff.mpr ⟨_, hrest, rfl⟩, fun v hv hvn => ?_⟩
        rcases List.mem_cons.mp hv with rfl | hv
        · exact ⟨hzone, hfits.mpr (Nat.lt_of_le_of_lt (Nat.le_add_right _ _) hlt)⟩
        · exact hall v hv hvn
    · rw [Bool.not_eq_true] at hn
      rw [if_pos (by rw [hn]; rfl), hn, if_neg Bool.false_ne_true, Nat.zero_add]
      constructor
      · rintro ⟨recs, ub', e, hloop, hall⟩
        obtain ⟨⟨recs', r⟩, hrest, heq⟩ := Option.map_eq_some_iff.mp hloop
        cases heq
        exact (ih hm).mp ⟨recs', _, _, hrest, fun v hv => hall v (List.mem_cons_of_mem _ hv)⟩
      · intro hlt
        obtain ⟨recs, ub', e, hrest, hall⟩ := (ih hm).mpr hlt
        refine ⟨_, ub', e, Option.map_eq_some_iff.mpr ⟨_, hrest, rfl⟩, fun v hv hvn => ?_⟩
        rcases List.mem_cons.mp hv with rfl | hv
        · rw [hn] at hvn
          exact absurd hvn Bool.false_ne_true
        · exact hall v hv hvn

/-! ## The decision -/

/-- A switch is requested exactly when the records do not fit, and all of them end inside the zone they go to. -/
structure SwitchesRight (z newZone : UndoZone) (skipInsert : Bool) (urecs : List UndoRecord) : Prop where
  exact_request : needSwitch z urecs = true ↔
    undoLogOffsetPlusUsableBytes z.insertURecPtr (totalSize (urecs.map undoRecordSetUInfo)) > undoLogMaxSize
  placed : ∃ recs ubuffers endPtr, prepareInZone z newZone skipInsert urecs = some (recs, ubuffers, endPtr) ∧
    ∀ u ∈ recs, u.needInsert = true → u.InZone (if needSwitch z urecs then newZone.zid else z.zid)

/-- Of the size of the records only the low 16 bits are looked at. -/
def FitOrSeen (z newZone : UndoZone) (urecs : List UndoRecord) : Prop :=
  let size := totalSize (urecs.map undoRecordSetUInfo)
  undoLogOffsetPlusUsableBytes z.insertURecPtr size ≤ undoLogMaxSize ∨
    undoLogOffsetPlusUsableBytes z.insertURecPtr (size % 2 ^ 16) > undoLogMaxSize ∧
      undoLogOffsetPlusUsableBytes newZone.insertURecPtr (totalSize (flagRecords true urecs)) ≤ undoLogMaxSize

variable {urecs : List UndoRecord}

lemma needSwitch_iff {z : UndoZone} :
    needSwitch z urecs = true ↔
      undoLogOffsetPlusUsableBytes z.insertURecPtr (totalSize (urecs.map undoRecordSetUInfo) % 2 ^ 16) >
        undoLogMaxSize := by
  have hmod : ∀ n : Nat, n % 2 ^ 64 % 2 ^ 32 % 2 ^ 16 = n % 2 ^ 16 := by omega
  rw [needSwitch, UndoZone.checkNeedSwitch, hmod, decide_eq_true_iff]

lemma flagRecords_false : flagRecords false urecs = urecs.map undoRecordSetUInfo := by
  unfold flagRecords
  cases urecs.map undoRecordSetUInfo with
  | nil => rfl
  | cons u us => rfl

lemma length_flagRecords {needSwitch : Bool} : (flagRecords needSwitch urecs).length = urecs.length := by
  cases urecs with
  | nil => rfl
  | cons u us => rw [flagRecords, List.map_cons, List.length_cons, List.length_cons, List.length_map]

/-- The offsets of one zone: an insert pointer behind a page header, and what fits behind it. -/
lemma fits_iff {insert size : Nat} (hheader : undoLogBlockHeaderSize ≤ insert % blcksz)
    (hinsert : insert < undoLogMaxSize) (hsize : size < 2 ^ 62) :
    undoLogOffsetPlusUsableBytes insert size ≤ undoLogMaxSize ↔ usableNo insert + size < zoneUsableBytes := by
  rw [plusUsableBytes_eq hheader (lt_trans hinsert (by decide)) hsize, usablePos_le_max]

lemma prepared_inZone {z : UndoZone} (skipInsert needSwitch : Bool) (hz : z.zid < 2 ^ 20)
    (hheader : undoLogBlockHeaderSize ≤ z.insertURecPtr % blcksz) (hinsert : z.insertURecPtr < undoLogMaxSize)
    (hcount : urecs.length < 2 ^ 31) :
    (∃ recs ubuffers endPtr, prepareUndoRecord needSwitch skipInsert z.getInsertURecPtr urecs =
        some (recs, ubuffers, endPtr) ∧ ∀ u ∈ recs, u.needInsert = true → u.InZone z.zid) ↔
      undoLogOffsetPlusUsableBytes z.insertURecPtr (totalSize (flagRecords needSwitch urecs)) ≤ undoLogMaxSize := by
  have hsize := totalSize_lt (flagRecords needSwitch urecs)
  rw [length_flagRecords] at hsize
  have hptr : z.getInsertURecPtr = ptrAt z.zid (usableNo z.insertURecPtr) := by
    rw [ptrAt, usablePos_usableNo hheader, UndoZone.getInsertURecPtr]
  rw [fits_iff hheader hinsert (by omega), prepareUndoRecord, hptr]
  exact prepareLoop_inZone hz (usableNo_lt hinsert)

/-- The low 16 bits of a size are enough while the records fit. -/
theorem zone_switch_exact {z newZone : UndoZone} {urecs : List UndoRecord} (hz : z.zid < 2 ^ 20)
    (hheader : undoLogBlockHeaderSize ≤ z.insertURecPtr % blcksz) (hinsert : z.insertURecPtr < undoLogMaxSize)
    (hnew : newZone.zid < 2 ^ 20) (hfresh : newZone.insertURecPtr = undoLogBlockHeaderSize)
    (hcount : urecs.length < 2 ^ 31) :
    SwitchesRight z newZone skipInsert urecs ↔ FitOrSeen z newZone urecs := by
  have hsize := totalSize_lt (urecs.map undoRecordSetUInfo)
  rw [List.length_map] at hsize
  have hfits := fits_iff hheader hinsert (show totalSize (urecs.map undoRecordSetUInfo) < 2 ^ 62 by omega)
  have hlow := fits_iff hheader hinsert
    (show totalSize (urecs.map undoRecordSetUInfo) % 2 ^ 16 < 2 ^ 62 by omega)
  have hstay := prepared_inZone skipInsert false hz hheader hinsert hcount
  have hgo := prepared_inZone skipInsert true hnew (by rw [hfresh]; decide)
    (by rw [hfresh]; decide) hcount
  rw [flagRecords_false] at hstay
  have hmod := Nat.mod_le (totalSize (urecs.map undoRecordSetUInfo)) (2 ^ 16)
  unfold FitOrSeen
  dsimp only
  cases hswitch : needSwitch z urecs with
  | true =>
    have hseen := needSwitch_iff.mp hswitch
    have hplaced : prepareInZone z newZone skipInsert urecs =
        prepareUndoRecord true skipInsert newZone.getInsertURecPtr urecs := by
      rw [prepareInZone, hswitch]
      rfl
    constructor
    · intro h
      have hall := h.placed
      rw [hswitch, hplaced] at hall
      exact .inr ⟨hseen, hgo.mp hall⟩
    · intro h
      have hexceeds : ¬ undoLogOffsetPlusUsableBytes z.insertURecPtr (totalSize (urecs.map undoRecordSetUInfo)) ≤
          undoLogMaxSize := by
        rw [hfits]
        intro hlt
        exact absurd (hlow.mpr (by omega)) (Nat.not_le.mpr hseen)
      refine ⟨⟨fun _ => Nat.not_le.mp hexceeds, fun _ => hswitch⟩, ?_⟩
      rw [hswitch, hplaced]
      exact hgo.mpr (h.resolve_left hexceeds).2
  | false =>
    have hseen : ¬ undoLogOffsetPlusUsableBytes z.insertURecPtr
        (totalSize (urecs.map undoRecordSetUInfo) % 2 ^ 16) > undoLogMaxSize := by
      rw [← needSwitch_iff, hswitch]
      exact Bool.false_ne_true
    have hplaced : prepareInZone z newZone skipInsert urecs =
        prepareUndoRecord false skipInsert z.getInsertURecPtr urecs := by
      rw [prepareInZone, hswitch]
      rfl
    constructor
    · intro h
      have hall := h.placed
      rw [hswitch, hplaced] at hall
      exact .inl (hstay.mp hall)
    · intro h
      have hfit := h.resolve_right fun h => hseen h.1
      refine ⟨⟨fun h => absurd (hswitch.symm.trans h) Bool.false_ne_true, fun h => absurd hfit (Nat.not_le.mpr h)⟩, ?_⟩
      rw [hswitch, hplaced]
      exact hstay.mpr hfit

/-- A record of `len + 40` bytes. -/
def payloadRecord (len : Nat) : UndoRecord :=
  { UndoRecord.reset 0 with
    whdr := ⟨1000, 1, 16384, 16390, 2, uinfoPayload⟩
    rawdata := ⟨none, len⟩
    needInsert := true }

theorem zone_switch_exact_pair :
    SwitchesRight (initZone 3 .permanent) (initZone 4 .permanent) false [payloadRecord 60, payloadRecord 100] :=
  (zone_switch_exact (by decide) (by decide) (by decide) (by decide) rfl (by decide)).mpr (.inl (by decide +kernel))

/-- 64 kB of records before the last page of a zone: their low 16 bits are 0. -/
theorem zone_switch_missed :
    let z := { initZone 3 .permanent with insertURecPtr := undoLogMaxSize - blcksz + undoLogBlockHeaderSize }
    needSwitch z (List.replicate 16 (payloadRecord 4056)) = false ∧
      ¬ SwitchesRight z (initZone 4 .permanent) false (List.replicate 16 (payloadRecord 4056)) := by
  intro z
  have hmissed : needSwitch z (List.replicate 16 (payloadRecord 4056)) = false := by decide +kernel
  refine ⟨hmissed, fun h => ?_⟩
  have hrequest := h.exact_request.mpr (by decide +kernel)
  exact Bool.false_ne_true (hmissed.symm.trans hrequest)

end GaussKernel.Undo
