import GaussKernel.Lib.Redo
import GaussKernel.Undo.Recycle

/-!
# Undo WAL replay

Model of the redo routines of `knl_uundoxlog.cpp` and their agreement with the primary. Each routine finds
its zone through a packed pointer of the record and applies the record when its LSN is above the one of the
space or zone it changes; `zoneRedo` is this on one zone, an instance of the guarded redo of `Lib.Redo`.

A `PrimaryRun` is a sequence of the operations that write undo records. Step by step the standby follows the
primary (`Follows`): it ends with the same spaces, slot pointer, forced discard pointer and xid. The discard
record carries only one undo pointer, to which replay sets both discard pointers, so that after forced
recycling the standby's discard pointer may be the primary's forced one.
-/

namespace GaussKernel.Undo

open Lib

/-! ## The redo routines -/

/-- The common body of `XlogExtendUndoSpaceReplay` and `XlogExtendSlotSpaceReplay`. -/
def xlogExtendReplay (type : SpaceType) (tail extendLsn : Nat) (zone : UndoZone) : UndoZone :=
  let usp := zone.getSpace type
  if usp.lsn < extendLsn then
    zone.setSpace type { usp with dirty := true, tail := undoPtrGetOffset tail, lsn := extendLsn }
  else
    zone

/-- The common body of `XlogUndoUnlinkReplay` and `XlogSlotUnlinkReplay`. -/
def xlogUnlinkReplay (type : SpaceType) (head unlinkLsn : Nat) (zone : UndoZone) : UndoZone :=
  let usp := zone.getSpace type
  if usp.lsn < unlinkLsn then
    zone.setSpace type { usp with dirty := true, head := undoPtrGetOffset head, lsn := unlinkLsn }
  else
    zone

/-- `XlogExtendUndoSpaceReplay`. -/
def xlogExtendUndoSpaceReplay (tail extendLsn : Nat) (zone : UndoZone) : UndoZone :=
  xlogExtendReplay .undoLog tail extendLsn zone

/-- `XlogExtendSlotSpaceReplay`. -/
def xlogExtendSlotSpaceReplay (tail extendLsn : Nat) (zone : UndoZone) : UndoZone :=
  xlogExtendReplay .slot tail extendLsn zone

/-- `XlogUndoUnlinkReplay`. -/
def xlogUndoUnlinkReplay (head unlinkLsn : Nat) (zone : UndoZone) : UndoZone :=
  xlogUnlinkReplay .undoLog head unlinkLsn zone

/-- `XlogSlotUnlinkReplay`. -/
def xlogSlotUnlinkReplay (head unlinkLsn : Nat) (zone : UndoZone) : UndoZone :=
  xlogUnlinkReplay .slot head unlinkLsn zone

/-- `XlogUndoDiscardReplay`: both discard pointers are set to the one the record carries. -/
def xlogUndoDiscardReplay (xlrec : XlogUndoDiscard) (lsn : Nat) (zone : UndoZone) : UndoZone :=
  if zone.lsn < lsn then
    let zone := ((zone.setRecycleTSlotPtr xlrec.endSlot).setDiscardURecPtr
      xlrec.endUndoPtr).setForceDiscardURecPtr xlrec.endUndoPtr
    { zone with recycleXid := xlrec.recycledXid, dirty := true, lsn := lsn }
  else
    zone

/-- The zone a record is replayed on. -/
def redoZoneId : UndoXlog → Nat
  | .extend _ _ tail => undoPtrGetZoneId tail
  | .unlink _ _ head => undoPtrGetZoneId head
  | .discard xlrec => undoPtrGetZoneId xlrec.startSlot

/-- The routine that `UndoXlogRedo` selects, on the zone of the record. -/
def redoOnZone (zone : UndoZone) (rec : Nat × UndoXlog) : UndoZone :=
  match rec.2 with
  | .extend .undoLog _ tail => xlogExtendUndoSpaceReplay tail rec.1 zone
  | .extend .slot _ tail => xlogExtendSlotSpaceReplay tail rec.1 zone
  | .unlink .undoLog _ head => xlogUndoUnlinkReplay head rec.1 zone
  | .unlink .slot _ head => xlogSlotUnlinkReplay head rec.1 zone
  | .discard xlrec => xlogUndoDiscardReplay xlrec rec.1 zone

/-- `UndoXlogRedo` on all zones. A zone that does not exist yet is created initialised, so the zones are a
total map. -/
def undoXlogRedo (zones : Nat → UndoZone) (rec : Nat × UndoXlog) : Nat → UndoZone :=
  Function.update zones (redoZoneId rec.2) (redoOnZone (zones (redoZoneId rec.2)) rec)

/-- The LSN that guards a record. -/
def guardLsn (zone : UndoZone) : UndoXlog → Nat
  | .extend type _ _ => (zone.getSpace type).lsn
  | .unlink type _ _ => (zone.getSpace type).lsn
  | .discard _ => zone.lsn

@[simp]
lemma getSpace_setSpace_self (z : UndoZone) (type : SpaceType) (usp : UndoSpace) :
    (z.setSpace type usp).getSpace type = usp := by
  cases type <;> rfl

@[simp]
lemma setSpace_lsn (z : UndoZone) (type : SpaceType) (usp : UndoSpace) :
    (z.setSpace type usp).lsn = z.lsn := by
  cases type <;> rfl

lemma getSpace_setSpace_of_ne (z : UndoZone) {type type' : SpaceType} (h : type' ≠ type)
    (usp : UndoSpace) : (z.setSpace type usp).getSpace type' = z.getSpace type' := by
  cases type <;> cases type' <;> first | exact absurd rfl h | rfl

/-- What a record does when its guard lets it through. -/
def redoApply (zone : UndoZone) (rec : Nat × UndoXlog) : UndoZone :=
  match rec.2 with
  | .extend type _ tail =>
    zone.setSpace type
      { zone.getSpace type with dirty := true, tail := undoPtrGetOffset tail, lsn := rec.1 }
  | .unlink type _ head =>
    zone.setSpace type
      { zone.getSpace type with dirty := true, head := undoPtrGetOffset head, lsn := rec.1 }
  | .discard xlrec =>
    let zone := ((zone.setRecycleTSlotPtr xlrec.endSlot).setDiscardURecPtr
      xlrec.endUndoPtr).setForceDiscardURecPtr xlrec.endUndoPtr
    { zone with recycleXid := xlrec.recycledXid, dirty := true, lsn := rec.1 }

/-- A record sets its own guard and leaves the others. -/
lemma guardLsn_redoApply (zone : UndoZone) (rec : Nat × UndoXlog) (u : UndoXlog) :
    (guardLsn (redoApply zone rec) u = rec.1 ∧ guardLsn zone u = guardLsn zone rec.2) ∨
      guardLsn (redoApply zone rec) u = guardLsn zone u := by
  obtain ⟨lsn, rec⟩ := rec
  have hspace : ∀ (type type' : SpaceType) (usp : UndoSpace), usp.lsn = lsn →
      (((zone.setSpace type usp).getSpace type').lsn = lsn ∧
          (zone.getSpace type').lsn = (zone.getSpace type).lsn) ∨
        ((zone.setSpace type usp).getSpace type').lsn = (zone.getSpace type').lsn := by
    intro type type' usp husp
    by_cases h : type' = type
    · subst h
      exact .inl ⟨by simpa using husp, rfl⟩
    · exact .inr (by rw [getSpace_setSpace_of_ne zone h])
  cases rec with
  | extend type _ tail =>
    cases u with
    | extend type' _ _ => exact hspace type type' _ rfl
    | unlink type' _ _ => exact hspace type type' _ rfl
    | discard _ => exact .inr (by simp [guardLsn, redoApply])
  | unlink type _ head =>
    cases u with
    | extend type' _ _ => exact hspace type type' _ rfl
    | unlink type' _ _ => exact hspace type type' _ rfl
    | discard _ => exact .inr (by simp [guardLsn, redoApply])
  | discard xlrec =>
    cases u with
    | extend type' _ _ => exact .inr (by cases type' <;> rfl)
    | unlink type' _ _ => exact .inr (by cases type' <;> rfl)
    | discard _ => exact .inl ⟨rfl, rfl⟩

lemma guardLsn_redoApply_self (zone : UndoZone) (rec : Nat × UndoXlog) :
    guardLsn (redoApply zone rec) rec.2 = rec.1 := by
  obtain ⟨lsn, rec⟩ := rec
  cases rec <;> simp [guardLsn, redoApply]

/-- Redo of undo records on one zone. -/
def zoneRedo : Redo UndoZone (Nat × UndoXlog) where
  seen zone rec := decide (rec.1 ≤ guardLsn zone rec.2)
  apply := redoApply
  seen_apply := by
    intro zone rec
    rw [guardLsn_redoApply_self]
    exact decide_eq_true le_rfl
  seen_mono := by
    intro zone rec rec' hrec hrec'
    simp only [decide_eq_false_iff_not, decide_eq_true_eq] at hrec hrec' ⊢
    rcases guardLsn_redoApply zone rec rec'.2 with ⟨hnew, hsame⟩ | hold
    · omega
    · rw [hold]
      exact hrec'

/-- The redo routines are the guarded redo. -/
lemma redoOnZone_eq (zone : UndoZone) (rec : Nat × UndoXlog) :
    redoOnZone zone rec = zoneRedo.step zone rec := by
  obtain ⟨lsn, rec⟩ := rec
  have hguard : ∀ {g : Nat} {a : UndoZone},
      (if g < lsn then a else zone) = if decide (lsn ≤ g) = true then zone else a := by
    intro g a
    by_cases h : g < lsn
    · rw [if_pos h, if_neg (by simpa using h)]
    · rw [if_neg h, if_pos (by simpa using h)]
  cases rec with
  | extend type _ tail => cases type <;> exact hguard
  | unlink type _ head => cases type <;> exact hguard
  | discard xlrec => exact hguard

/-- Replaying records of one zone is guarded redo of that zone. -/
lemma foldl_undoXlogRedo {recs : List (Nat × UndoXlog)} {zid : Nat}
    (h : ∀ rec ∈ recs, redoZoneId rec.2 = zid) (zones : Nat → UndoZone) :
    recs.foldl undoXlogRedo zones zid = zoneRedo.replay (zones zid) recs := by
  induction recs generalizing zones with
  | nil => rfl
  | cons rec recs ih =>
    have hrec : undoXlogRedo zones rec zid = zoneRedo.step (zones zid) rec := by
      rw [undoXlogRedo, h rec List.mem_cons_self, Function.update_self, redoOnZone_eq]
    rw [List.foldl_cons, ih fun r hr => h r (List.mem_cons_of_mem rec hr), Redo.replay_cons, hrec]

/-! ## Runs of the primary -/

/-- The operations of a run: those that write undo records, and the insertion of undo records by a
transaction, whose WAL belongs to the heap. -/
inductive PrimaryOp where
  | allocateSpace (size : Nat)
  | allocateSlotSpace
  | insertUndo (lastRecord lastRecordSize : Nat) (slotPtr : Option Nat) (lsn : Nat)
  | recycleUndoSpace (env : RecycleEnv)
  | releaseSpace (endurp : Nat)
  | releaseSlotSpace (endSlotPtr : Nat)

/-- The insertion of undo records: `PrepareUndoMeta`, `AllocTransactionSlot` for a new transaction,
`SetUndoMetaLSN`. -/
def insertUndoMeta (z : UndoZone) (lastRecord lastRecordSize : Nat) (slotPtr : Option Nat)
    (lsn : Nat) : Option UndoZone :=
  (z.prepareUndoMeta lastRecord lastRecordSize).map fun z =>
    match slotPtr with
    | none => z.setUndoMetaLSN lsn
    | some slotPtr => (z.allocTransactionSlot slotPtr).setUndoMetaLSN lsn

/-- One step of the primary. `none` is a PANIC. -/
def primaryStep (z : UndoZone) (w : Wal) : PrimaryOp → Option (UndoZone × Wal)
  | .allocateSpace size => some (z.allocateSpace w size).2
  | .allocateSlotSpace => some (z.allocateSlotSpace w).2
  | .insertUndo lastRecord lastRecordSize slotPtr lsn =>
    (insertUndoMeta z lastRecord lastRecordSize slotPtr lsn).map fun z => (z, w)
  | .recycleUndoSpace env =>
    (recycleUndoSpace env z w).toOption.map fun r => (r.zone, r.wal)
  | .releaseSpace endurp => some (z.releaseSpace w endurp)
  | .releaseSlotSpace endSlotPtr => some (z.releaseSlotSpace w endSlotPtr)

/-- The end of the segment of an insertion point lies below the end of the zone. -/
def BelowMax (type : SpaceType) (newInsert : Nat) : Prop :=
  newInsert + usegSize type - newInsert % usegSize type < undoLogMaxSize

/-- A step extends no space up to `UNDO_LOG_MAX_SIZE`. -/
def StaysBelowMax (z : UndoZone) : PrimaryOp → Prop
  | .allocateSpace size => BelowMax .undoLog (undoLogOffsetPlusUsableBytes z.insertURecPtr size)
  | .allocateSlotSpace =>
    BelowMax .slot (undoLogOffsetPlusUsableBytes z.allocateTSlotPtr sizeofTransactionSlot)
  | _ => True

/-- Some waiting slot may be taken by forced recycling. -/
def MayForce (z : UndoZone) : PrimaryOp → Prop
  | .recycleUndoSpace env =>
    ∃ i, slotPtrAt z i < z.getAllocateTSlotPtr ∧ ForceExpired env (slotAt env.slots z i)
  | _ => False

/-- Runs of the primary that stay below the end of the zone; with `force = false`, without forced
recycling. -/
inductive PrimaryRun (force : Bool) (z₀ : UndoZone) (w₀ : Wal) : UndoZone → Wal → Prop where
  | refl : PrimaryRun force z₀ w₀ z₀ w₀
  | step {z z' : UndoZone} {w w' : Wal} {op : PrimaryOp} (run : PrimaryRun force z₀ w₀ z w)
      (below : StaysBelowMax z op) (unforced : force = true ∨ ¬MayForce z op)
      (next : primaryStep z w op = some (z', w')) : PrimaryRun force z₀ w₀ z' w'

/-! ## The standby follows -/

/-- What the standby's zone `z'` shares with the primary's zone `z`. -/
structure Agree (force : Bool) (z z' : UndoZone) : Prop where
  head : ∀ type, (z'.getSpace type).head = (z.getSpace type).head
  tail : ∀ type, (z'.getSpace type).tail = (z.getSpace type).tail
  recycle : z'.recycleTSlotPtr = z.recycleTSlotPtr
  forceDiscard : z'.forceDiscardURecPtr = z.forceDiscardURecPtr
  xid : z'.recycleXid = z.recycleXid
  discard : z'.discardURecPtr = z.discardURecPtr ∨
    (force = true ∧ z'.discardURecPtr = z.forceDiscardURecPtr)

lemma Agree.refl (force : Bool) (z : UndoZone) : Agree force z z :=
  ⟨fun _ => rfl, fun _ => rfl, rfl, rfl, rfl, .inl rfl⟩

/-- Every guard of a zone is below an LSN. -/
def GuardsBelow (z : UndoZone) (lsn : Nat) : Prop :=
  ∀ u, guardLsn z u < lsn

/-- From `(z, w)` the primary went to `(z₂, w₂)`, and replaying what it wrote takes every agreeing zone to
an agreeing zone. -/
structure Follows (force : Bool) (z : UndoZone) (w : Wal) (z₂ : UndoZone) (w₂ : Wal) : Prop where
  zid : z₂.zid = z.zid
  pLevel : z₂.pLevel = z.pLevel
  recycle_lt : z.recycleTSlotPtr < undoLogMaxSize → z₂.recycleTSlotPtr < undoLogMaxSize
  lsnOf : w₂.lsnOf = w.lsnOf
  replayed : ∃ recs, w₂.log = w.log ++ recs ∧ (∀ rec ∈ recs, redoZoneId rec.2 = z.zid) ∧
    ∀ z', Agree force z z' → GuardsBelow z' (w.lsnOf w.log.length) →
      Agree force z₂ (zoneRedo.replay z' recs) ∧
        GuardsBelow (zoneRedo.replay z' recs) (w.lsnOf w₂.log.length)

section

variable {force : Bool} {z z₂ z₃ : UndoZone} {w w₂ w₃ : Wal}

lemma Follows.trans (h₁ : Follows force z w z₂ w₂) (h₂ : Follows force z₂ w₂ z₃ w₃) :
    Follows force z w z₃ w₃ := by
  obtain ⟨recs₁, hlog₁, hzone₁, hrep₁⟩ := h₁.replayed
  obtain ⟨recs₂, hlog₂, hzone₂, hrep₂⟩ := h₂.replayed
  refine ⟨h₂.zid.trans h₁.zid, h₂.pLevel.trans h₁.pLevel, h₂.recycle_lt ∘ h₁.recycle_lt,
    h₂.lsnOf.trans h₁.lsnOf, recs₁ ++ recs₂, ?_, ?_, ?_⟩
  · rw [hlog₂, hlog₁, List.append_assoc]
  · intro rec hrec
    rcases List.mem_append.mp hrec with hrec | hrec
    · exact hzone₁ rec hrec
    · rw [← h₁.zid]
      exact hzone₂ rec hrec
  · intro z' hagree hguard
    obtain ⟨hagree₁, hguard₁⟩ := hrep₁ z' hagree hguard
    rw [← h₁.lsnOf] at hguard₁
    rw [Redo.replay_append, ← h₁.lsnOf]
    exact hrep₂ _ hagree₁ hguard₁

lemma Follows.of_pair {p : UndoZone × Wal} (h : Follows force z w p.1 p.2) (heq : p = (z₂, w₂)) :
    Follows force z w z₂ w₂ := by
  subst heq
  exact h

/-- A step that writes nothing and changes nothing of what is shared. -/
lemma Follows.silent (hzid : z₂.zid = z.zid) (hlevel : z₂.pLevel = z.pLevel)
    (hagree : Agree false z z₂) : Follows force z w z₂ w := by
  refine ⟨hzid, hlevel, fun h => hagree.recycle ▸ h, rfl, [], by simp, by simp, ?_⟩
  intro z' h hguard
  refine ⟨?_, hguard⟩
  have hd : z₂.discardURecPtr = z.discardURecPtr := by
    simpa using hagree.discard
  refine ⟨fun t => (h.head t).trans (hagree.head t).symm, fun t => (h.tail t).trans (hagree.tail t).symm,
    h.recycle.trans hagree.recycle.symm, h.forceDiscard.trans hagree.forceDiscard.symm,
    h.xid.trans hagree.xid.symm, ?_⟩
  rw [Redo.replay_nil, hd, hagree.forceDiscard]
  exact h.discard

lemma Follows.refl (z : UndoZone) (w : Wal) : Follows force z w z w :=
  .silent rfl rfl (Agree.refl _ _)

/-- A step that writes one record: it is enough that the record does on the standby what the step does on
the primary. -/
lemma Follows.write (hmono : StrictMono w.lsnOf) {rec : UndoXlog} (hzid : z₂.zid = z.zid)
    (hlevel : z₂.pLevel = z.pLevel)
    (hrecycle : z.recycleTSlotPtr < undoLogMaxSize → z₂.recycleTSlotPtr < undoLogMaxSize)
    (hzone : redoZoneId rec = z.zid) (happly : ∀ z', Agree force z z' →
      Agree force z₂ (redoApply z' (w.lsnOf w.log.length, rec))) :
    Follows force z w z₂ (w.writeUndoXlog rec).2 := by
  refine ⟨hzid, hlevel, hrecycle, rfl, [(w.lsnOf w.log.length, rec)], rfl, ?_, ?_⟩
  · intro r hr
    rw [List.mem_singleton.mp hr]
    exact hzone
  · intro z' hagree hguard
    have hunseen : zoneRedo.seen z' (w.lsnOf w.log.length, rec) = false :=
      decide_eq_false (not_le.mpr (hguard rec))
    have hnext : w.lsnOf w.log.length < w.lsnOf (w.writeUndoXlog rec).2.log.length :=
      hmono (by simp [Wal.writeUndoXlog])
    rw [Redo.replay_cons, Redo.replay_nil, Redo.step_of_unseen hunseen]
    refine ⟨happly z' hagree, fun u => ?_⟩
    rcases guardLsn_redoApply z' (w.lsnOf w.log.length, rec) u with ⟨hnew, -⟩ | hold
    · exact lt_of_eq_of_lt hnew hnext
    · exact lt_of_eq_of_lt hold (lt_trans (hguard u) hnext)

/-- Replacing a space on both sides. -/
lemma Agree.setSpace {z' : UndoZone} (h : Agree force z z') (type : SpaceType) {usp usp' : UndoSpace}
    (hhead : usp'.head = usp.head) (htail : usp'.tail = usp.tail) :
    Agree force (z.setSpace type usp) (z'.setSpace type usp') := by
  have hspaces : ∀ t, ((z'.setSpace type usp').getSpace t).head =
        ((z.setSpace type usp).getSpace t).head ∧
      ((z'.setSpace type usp').getSpace t).tail = ((z.setSpace type usp).getSpace t).tail := by
    intro t
    by_cases ht : t = type
    · subst ht
      simpa using ⟨hhead, htail⟩
    · rw [getSpace_setSpace_of_ne _ ht, getSpace_setSpace_of_ne _ ht]
      exact ⟨h.head t, h.tail t⟩
  refine ⟨fun t => (hspaces t).1, fun t => (hspaces t).2, ?_, ?_, ?_, ?_⟩
  all_goals cases type
  all_goals first
    | exact h.recycle
    | exact h.forceDiscard
    | exact h.xid
    | exact h.discard

lemma setSpace_frame (z : UndoZone) (type : SpaceType) (usp : UndoSpace) :
    (z.setSpace type usp).zid = z.zid ∧ (z.setSpace type usp).pLevel = z.pLevel ∧
      (z.setSpace type usp).recycleTSlotPtr = z.recycleTSlotPtr := by
  cases type <;> exact ⟨rfl, rfl, rfl⟩

lemma follows_extendSpace (hmono : StrictMono w.lsnOf) (hz : z.zid < 2 ^ 20)
    (hp : z.pLevel = .permanent) {type : SpaceType} {newInsert : Nat}
    (hbelow : BelowMax type newInsert) :
    Follows force z w (z.extendSpace w type newInsert).1 (z.extendSpace w type newInsert).2 := by
  rw [UndoZone.extendSpace]
  split
  swap
  · exact .refl z w
  obtain ⟨hzid, hlevel, hrecycle⟩ := setSpace_frame z type
    { z.getSpace type with
      tail := newInsert + usegSize type - newInsert % usegSize type, dirty := true
      lsn := w.lsnOf w.log.length }
  refine .write hmono hzid hlevel (fun h => hrecycle ▸ h) (getZoneId_make_of_lt hz hbelow) ?_
  intro z' hagree
  exact hagree.setSpace type (hagree.head type) (getOffset_make_of_lt hz hbelow)

lemma follows_releaseBelow (hmono : StrictMono w.lsnOf) (hz : z.zid < 2 ^ 20)
    (hp : z.pLevel = .permanent) (type : SpaceType) (endPtr : Nat) :
    Follows force z w (z.releaseBelow w type endPtr).1 (z.releaseBelow w type endPtr).2 := by
  rw [UndoZone.releaseBelow]
  split
  swap
  · exact .refl z w
  have hhead : undoPtrGetOffset endPtr / usegSize type * usegSize type < 2 ^ 44 :=
    lt_of_le_of_lt (Nat.div_mul_le_self _ _) (getOffset_lt endPtr)
  obtain ⟨hzid, hlevel, hrecycle⟩ := setSpace_frame z type
    { z.getSpace type with
      head := undoPtrGetOffset endPtr / usegSize type * usegSize type, dirty := true
      lsn := w.lsnOf w.log.length }
  refine .write hmono hzid hlevel (fun h => hrecycle ▸ h) (getZoneId_make_of_lt hz hhead) ?_
  intro z' hagree
  exact hagree.setSpace type (getOffset_make_of_lt hz hhead) (hagree.tail type)

/-! ## Recycling -/

/-- Without forced recycling the two end pointers of a scan stay together. -/
def EndsTogether (force : Bool) (s : ScanState) : Prop :=
  force = true ∨ (s.forceRecycle = false ∧ s.oldestEndUndoPtr = s.endUndoPtr)

variable {s : ScanState}

/-- The discard pointer of the primary after a page that was recycled without force. -/
lemma advanceZone_discard_eq (hends : s.oldestEndUndoPtr = s.endUndoPtr)
    (hcheck : z.checkRecycle s.startUndoPtr s.endUndoPtr = true) :
    (advanceZone z s).discardURecPtr = undoPtrGetOffset s.endUndoPtr := by
  simp only [UndoZone.checkRecycle, decide_eq_true_eq] at hcheck
  obtain ⟨hzone, -, -, hlt⟩ := hcheck
  have hne : s.oldestEndUndoPtr ≠ invalidUndoRecPtr := by
    intro h0
    rw [hends] at h0
    rw [h0] at hlt
    exact absurd hlt (by simp [undoPtrGetOffset])
  have htarget : discardTarget s = s.endUndoPtr := by
    rw [discardTarget, hends]
    exact if_pos hzone
  simp only [advanceZone, if_pos hne]
  exact congrArg undoPtrGetOffset htarget

lemma advanceZone_frame (z : UndoZone) (s : ScanState) :
    (advanceZone z s).zid = z.zid ∧ (advanceZone z s).pLevel = z.pLevel ∧
      (∀ type, (advanceZone z s).getSpace type = z.getSpace type) := by
  simp only [advanceZone]
  split
  · exact ⟨rfl, rfl, fun type => by cases type <;> rfl⟩
  · exact ⟨rfl, rfl, fun type => by cases type <;> rfl⟩

/-- The discard record does on the standby what the page did on the primary, except that it moves both
discard pointers. -/
lemma follows_logDiscard (env : RecycleEnv) (hmono : StrictMono w.lsnOf) (hp : z.pLevel = .permanent)
    {start : Nat} (hstart : undoPtrGetZoneId start = z.zid) (hends : EndsTogether force s)
    (hcheck : z.checkRecycle s.startUndoPtr s.endUndoPtr = true) :
    Follows force z w (logDiscard env (advanceZone z s) w start s).1
      (logDiscard env (advanceZone z s) w start s).2 := by
  obtain ⟨hzid, hlevel, hspace⟩ := advanceZone_frame z s
  rw [logDiscard, if_pos (hlevel.trans hp)]
  refine .write hmono hzid hlevel (fun _ => getOffset_lt _) hstart ?_
  intro z' hagree
  refine ⟨?_, ?_, rfl, rfl, rfl, ?_⟩
  · intro type
    have hsame : ((advanceZone z s).getSpace type).head = (z'.getSpace type).head := by
      rw [hspace, hagree.head]
    cases type <;> exact hsame.symm
  · intro type
    have hsame : ((advanceZone z s).getSpace type).tail = (z'.getSpace type).tail := by
      rw [hspace, hagree.tail]
    cases type <;> exact hsame.symm
  · rcases hends with hforce | ⟨-, hends⟩
    · exact .inr ⟨hforce, rfl⟩
    · exact .inl (advanceZone_discard_eq hends hcheck).symm

lemma follows_recyclePage (env : RecycleEnv) (hmono : StrictMono w.lsnOf) (hz : z.zid < 2 ^ 20)
    (hp : z.pLevel = .permanent) {start : Nat} (hstart : undoPtrGetZoneId start = z.zid)
    (hends : EndsTogether force s) (hcheck : z.checkRecycle s.startUndoPtr s.endUndoPtr = true) :
    Follows force z w (recyclePage env z w start s).1 (recyclePage env z w start s).2 := by
  have hlog := follows_logDiscard env hmono hp hstart hends hcheck
  have hboth := hlog.trans (follows_releaseBelow (hlog.lsnOf ▸ hmono) (hlog.zid ▸ hz)
    (hlog.pLevel.trans hp) .undoLog s.endUndoPtr)
  exact hboth.trans (follows_releaseBelow (hboth.lsnOf ▸ hmono) (hboth.zid ▸ hz)
    (hboth.pLevel.trans hp) .slot s.recycle)

lemma scanPage_ends {env : RecycleEnv} {blk allocate : Nat}
    (hunforced : force = true ∨ ∀ i, slotPtrAt z i < allocate → ¬ForceExpired env (slotAt env.slots z i))
    {fuel : Nat} {s' : ScanState} (hscan : scanPage env blk allocate fuel s = .ok s')
    (hptr : ∃ i, s.recycle = slotPtrAt z i) (hends : EndsTogether force s) :
    (∃ i, s'.recycle = slotPtrAt z i) ∧ EndsTogether force s' := by
  induction fuel generalizing s with
  | zero => cases hscan
  | succ fuel ih =>
    rw [scanPage] at hscan
    split at hscan
    swap
    · cases hscan
      exact ⟨hptr, hends⟩
    rename_i hcond
    split at hscan
    · cases hscan
      exact ⟨hptr, hends⟩
    · cases hscan
    rename_i flag hact
    obtain ⟨i, hi⟩ := hptr
    refine ih hscan ⟨i + 1, ?_⟩ ?_
    · rw [slotPtrAt_succ, ← hi]
      rfl
    · -- a slot passed without force moves both end pointers
      rcases hunforced with hforce | hnone
      · exact .inl hforce
      rcases hends with hforce | ⟨hflag, -⟩
      · exact .inl hforce
      have hwhy := (examineSlot_pass hact).2
      cases flag with
      | false => exact .inr ⟨by simp [ScanState.pass, hflag], by simp [ScanState.pass, hflag]⟩
      | true =>
        refine absurd hwhy ?_
        rw [hi]
        exact hnone i (hi ▸ hcond.2)

lemma follows_recycleLoop {env : RecycleEnv} {allocate : Nat} (hmono : StrictMono w.lsnOf)
    (hz : z.zid < 2 ^ 20) (hp : z.pLevel = .permanent) (hrecycle : z.recycleTSlotPtr < undoLogMaxSize)
    (hunforced : force = true ∨ ∀ i, slotPtrAt z i < allocate → ¬ForceExpired env (slotAt env.slots z i))
    {fuel : Nat} {r r' : RecycleResult} (hloop : recycleLoop env allocate fuel s r = .ok r')
    (hptr : ∃ i, s.recycle = slotPtrAt z i) (hends : EndsTogether force s)
    (hsofar : Follows force z w r.zone r.wal) : Follows force z w r'.zone r'.wal := by
  induction fuel generalizing s r with
  | zero => cases hloop
  | succ fuel ih =>
    rw [recycleLoop] at hloop
    split at hloop
    swap
    · cases hloop
      exact hsofar
    simp only [bind, Except.bind] at hloop
    split at hloop
    · cases hloop
    rename_i s₁ hscan
    obtain ⟨hptr₁, hends₁⟩ := scanPage_ends hunforced hscan hptr hends
    split at hloop
    swap
    · cases hloop
      exact hsofar
    split at hloop
    swap
    · cases hloop
    rename_i hcheck
    obtain ⟨i, hi⟩ := hptr
    have hstart : undoPtrGetZoneId s.recycle = r.zone.zid := by
      rw [hsofar.zid, hi]
      exact (slotPtrAt_zone hz hrecycle i).1
    exact ih hloop hptr₁ hends₁ (hsofar.trans (follows_recyclePage env (hsofar.lsnOf ▸ hmono)
      (hsofar.zid ▸ hz) (hsofar.pLevel.trans hp) hstart hends₁ hcheck))

/-! ## Whole runs -/

lemma prepareUndoMeta_eq {lastRecord lastRecordSize : Nat}
    (h : z.prepareUndoMeta lastRecord lastRecordSize = some z₂) :
    ∃ dirty insert, z₂ = { z with dirty := dirty, insertURecPtr := insert } ∧
      insert = undoLogOffsetPlusUsableBytes (undoPtrGetOffset lastRecord) lastRecordSize := by
  rw [UndoZone.prepareUndoMeta] at h
  obtain ⟨z₁, hz₁, dirty, hdirty⟩ :
      ∃ z₁, (if z.pLevel = .permanent then { z with dirty := true } else z) = z₁ ∧
        ∃ dirty, z₁ = { z with dirty := dirty } := by
    split
    · exact ⟨_, rfl, true, rfl⟩
    · exact ⟨_, rfl, z.dirty, rfl⟩
  simp only [hz₁] at h
  split at h
  · cases h
  · refine ⟨dirty, undoLogOffsetPlusUsableBytes (undoPtrGetOffset lastRecord) lastRecordSize, ?_, rfl⟩
    rw [← Option.some.inj h, UndoZone.advanceInsertURecPtr, hdirty]

/-- Inserting undo records changes nothing that undo records describe. -/
lemma insertUndoMeta_agree {lastRecord lastRecordSize lsn : Nat} {slotPtr : Option Nat}
    (h : insertUndoMeta z lastRecord lastRecordSize slotPtr lsn = some z₂) :
    z₂.zid = z.zid ∧ z₂.pLevel = z.pLevel ∧ Agree false z z₂ := by
  obtain ⟨z₁, hprep, hz₂⟩ := Option.map_eq_some_iff.mp h
  obtain ⟨dirty, insert, hz₁, -⟩ := prepareUndoMeta_eq hprep
  subst hz₁ hz₂
  cases slotPtr with
  | none =>
    exact ⟨rfl, rfl, fun t => by cases t <;> rfl, fun t => by cases t <;> rfl, rfl, rfl, rfl, .inl rfl⟩
  | some p =>
    exact ⟨rfl, rfl, fun t => by cases t <;> rfl, fun t => by cases t <;> rfl, rfl, rfl, rfl, .inl rfl⟩

lemma toOption_eq_some {ε α : Type} {x : Except ε α} {a : α} (h : x.toOption = some a) : x = .ok a := by
  cases x with
  | error e => cases h
  | ok b =>
    cases h
    rfl

/-- The standby follows every step. -/
lemma follows_primaryStep (hmono : StrictMono w.lsnOf) (hz : z.zid < 2 ^ 20)
    (hp : z.pLevel = .permanent) (hrecycle : z.recycleTSlotPtr < undoLogMaxSize) {op : PrimaryOp}
    (hbelow : StaysBelowMax z op) (hunforced : force = true ∨ ¬MayForce z op)
    (hnext : primaryStep z w op = some (z₂, w₂)) : Follows force z w z₂ w₂ := by
  cases op with
  | allocateSpace size =>
    have hnew : BelowMax .undoLog (undoLogOffsetPlusUsableBytes z.insertURecPtr size) := hbelow
    have heq : z.extendSpace w .undoLog (undoLogOffsetPlusUsableBytes z.insertURecPtr size) =
        (z₂, w₂) := Option.some.inj hnext
    exact .of_pair (follows_extendSpace hmono hz hp hnew) heq
  | allocateSlotSpace =>
    have hnew : BelowMax .slot
        (undoLogOffsetPlusUsableBytes z.allocateTSlotPtr sizeofTransactionSlot) := hbelow
    have heq : z.extendSpace w .slot
        (undoLogOffsetPlusUsableBytes z.allocateTSlotPtr sizeofTransactionSlot) = (z₂, w₂) :=
      Option.some.inj hnext
    exact .of_pair (follows_extendSpace hmono hz hp hnew) heq
  | insertUndo lastRecord lastRecordSize slotPtr lsn =>
    obtain ⟨z₁, hins, heq⟩ := Option.map_eq_some_iff.mp hnext
    cases heq
    obtain ⟨hzid, hlevel, hagree⟩ := insertUndoMeta_agree hins
    exact .silent hzid hlevel hagree
  | recycleUndoSpace env =>
    obtain ⟨r, hres, heq⟩ := Option.map_eq_some_iff.mp hnext
    cases heq
    have hok : recycleUndoSpace env z w = .ok r := toOption_eq_some hres
    have hnone : force = true ∨
        ∀ i, slotPtrAt z i < z.getAllocateTSlotPtr → ¬ForceExpired env (slotAt env.slots z i) :=
      hunforced.imp_right fun hnot i hi hexp => hnot ⟨i, hi, hexp⟩
    exact follows_recycleLoop hmono hz hp hrecycle hnone hok ⟨0, rfl⟩ (.inr ⟨rfl, rfl⟩) (.refl z w)
  | releaseSpace endurp =>
    have heq : z.releaseBelow w .undoLog endurp = (z₂, w₂) := Option.some.inj hnext
    exact .of_pair (follows_releaseBelow hmono hz hp .undoLog endurp) heq
  | releaseSlotSpace endSlotPtr =>
    have heq : z.releaseBelow w .slot endSlotPtr = (z₂, w₂) := Option.some.inj hnext
    exact .of_pair (follows_releaseBelow hmono hz hp .slot endSlotPtr) heq

lemma follows_run {z₀ : UndoZone} {w₀ : Wal} (hmono : StrictMono w₀.lsnOf) (hz : z₀.zid < 2 ^ 20)
    (hp : z₀.pLevel = .permanent) (hrecycle : z₀.recycleTSlotPtr < undoLogMaxSize)
    (hrun : PrimaryRun force z₀ w₀ z w) : Follows force z₀ w₀ z w := by
  induction hrun with
  | refl => exact .refl z₀ w₀
  | step _ hbelow hunforced hnext ih =>
    exact ih.trans (follows_primaryStep (ih.lsnOf ▸ hmono) (ih.zid ▸ hz) (ih.pLevel.trans hp)
      (ih.recycle_lt hrecycle) hbelow hunforced hnext)

/-- **Replay refines the primary.** Take any run of a permanent zone that extends no space up to
`UNDO_LOG_MAX_SIZE`, and replay the records it wrote from the same start state, a first part of them twice.
The standby's zone then agrees with the primary's. Its discard pointer is the primary's own in runs without
forced recycling (`force = false`), and else the primary's own or its forced discard pointer. -/
theorem undoXlogRedo_agree {z₀ : UndoZone} {lsnOf : Nat → Nat} (hmono : StrictMono lsnOf)
    (hz : z₀.zid < 2 ^ 20) (hp : z₀.pLevel = .permanent)
    (hrecycle : z₀.recycleTSlotPtr < undoLogMaxSize) (hguard : GuardsBelow z₀ (lsnOf 0))
    (hrun : PrimaryRun force z₀ ⟨lsnOf, []⟩ z w) (zones : Nat → UndoZone)
    (hstart : zones z₀.zid = z₀) (k : Nat) :
    Agree force z ((w.log.take k ++ w.log).foldl undoXlogRedo zones z₀.zid) := by
  have hfollows := follows_run hmono hz hp hrecycle hrun
  obtain ⟨recs, hlog, hzone, hreplay⟩ := hfollows.replayed
  have hrecs : w.log = recs := by simpa using hlog
  have htargets : ∀ rec ∈ w.log.take k ++ w.log, redoZoneId rec.2 = z₀.zid := by
    intro rec hrec
    rcases List.mem_append.mp hrec with hrec | hrec
    · exact hzone rec (hrecs ▸ List.mem_of_mem_take hrec)
    · exact hzone rec (hrecs ▸ hrec)
  rw [foldl_undoXlogRedo htargets, Redo.replay_again, hstart, hrecs]
  exact (hreplay z₀ (Agree.refl force z₀) hguard).1

end

/-- The sample zone after a call of `RecycleUndoSpace` that takes one slot without force and one with. -/
lemma sampleZone_run : ∃ z w, PrimaryRun true sampleZone ⟨fun n => 100 + n, []⟩ z w ∧
    z.discardURecPtr = 224 ∧ w.log.length = 1 ∧
    (w.log.foldl undoXlogRedo (fun _ => sampleZone) 5).discardURecPtr = 424 := by
  have hres : (primaryStep sampleZone ⟨fun n => 100 + n, []⟩ (.recycleUndoSpace sampleEnv)).map
      (fun p => (p.1.discardURecPtr, p.2.log.length,
        (p.2.log.foldl undoXlogRedo (fun _ => sampleZone) 5).discardURecPtr)) =
      some (224, 1, 424) := by
    decide
  obtain ⟨⟨z, w⟩, hstep, heq⟩ := Option.map_eq_some_iff.mp hres
  simp only [Prod.mk.injEq] at heq
  have hbelow : StaysBelowMax sampleZone (.recycleUndoSpace sampleEnv) := trivial
  exact ⟨z, w, .step .refl hbelow (.inl rfl) hstep, heq⟩

/-- The replayed prefix and the whole log leave the sample zone agreeing with the primary. -/
theorem undoXlogRedo_agree_sampleZone : ∃ z w,
    PrimaryRun true sampleZone ⟨fun n => 100 + n, []⟩ z w ∧ w.log.length = 1 ∧
    Agree true z ((w.log.take 1 ++ w.log).foldl undoXlogRedo (fun _ => sampleZone) 5) := by
  obtain ⟨z, w, hrun, -, hlen, -⟩ := sampleZone_run
  have hguard : GuardsBelow sampleZone 100 := by
    intro u
    cases u with
    | extend type _ _ => cases type <;> simp [guardLsn, sampleZone, UndoZone.getSpace]
    | unlink type _ _ => cases type <;> simp [guardLsn, sampleZone, UndoZone.getSpace]
    | discard _ => simp [guardLsn, sampleZone]
  refine ⟨z, w, hrun, hlen, ?_⟩
  exact undoXlogRedo_agree (fun a b hab => by simpa using hab) (by decide) rfl (by decide) hguard hrun
    (fun _ => sampleZone) rfl 1

/-- After forced recycling the standby's discard pointer is not the primary's. -/
theorem forced_recycling_moves_both : ∃ z w,
    PrimaryRun true sampleZone ⟨fun n => 100 + n, []⟩ z w ∧
    (w.log.foldl undoXlogRedo (fun _ => sampleZone) 5).discardURecPtr ≠ z.discardURecPtr := by
  obtain ⟨z, w, hrun, hprimary, -, hstandby⟩ := sampleZone_run
  refine ⟨z, w, hrun, ?_⟩
  rw [hprimary, hstandby]
  decide

end GaussKernel.Undo
