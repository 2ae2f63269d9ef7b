import GaussKernel.Undo.Zone

/-!
# Undo recycling

Model of `RecycleUndoSpace` in `knl_uundorecycle.cpp`. The transaction slots of a zone are scanned page by
page from the recycle pointer on; when the scan of a page stops, the zone pointers are moved over the slots
it passed, a discard record is written and the segments below the new pointers are released. A slot is
passed when its transaction is old enough, or, in forced recycling, when it is finished and older than
`forceRecycleXid`.

`recycleUndoSpace_spec` describes a whole call: it passes a first part of the slots, of which again a first
part without force, and the zone invariant `ZoneSlots` holds of what is left.
-/

namespace GaussKernel.Undo

/-- `TransactionSlot`, without its database id. -/
structure TransactionSlot where
  xactId : Nat
  startUndoPtr : Nat
  endUndoPtr : Nat
  rollbackFinish : Bool
  deriving DecidableEq

/-- `TransactionSlot::NeedRollback`. -/
def TransactionSlot.needRollback (slot : TransactionSlot) : Bool :=
  !slot.rollbackFinish

/-- `TransactionIdIsNormal`. -/
def transactionIdIsNormal (xid : Nat) : Bool :=
  3 ≤ xid

/-- What a call of `RecycleUndoSpace` reads: its arguments, the slot pages, the global xids and the
status of each transaction. -/
structure RecycleEnv where
  slots : Nat → TransactionSlot
  recycleXmin : Nat
  frozenXid : Nat
  forceRecycleXid : Nat
  globalRecycleXid : Nat
  globalFrozenXid : Nat
  recycleLoops : Nat
  didCommit : Nat → Bool
  isInProgress : Nat → Bool

/-- The PANICs of the code, and the end of the fuel of the model. -/
inductive RecycleError where
  | recheckUndoRecycleXid
  | checkRecycle
  | outOfFuel
  deriving DecidableEq

/-- Whether `RecheckUndoRecycleXid` ends in a PANIC rather than a warning. -/
def recheckPanics (env : RecycleEnv) (slot : TransactionSlot) : Bool :=
  env.globalFrozenXid < env.globalRecycleXid ||
    (slot.xactId != 0 && slot.xactId < env.globalFrozenXid && !env.didCommit slot.xactId &&
      slot.needRollback)

/-- What the scan does at one slot. -/
inductive SlotAction where
  | stop
  | panic
  | pass (force : Bool)
  deriving DecidableEq

/-- The tests that the inner loop of `RecycleUndoSpace` makes on a slot. -/
def examineSlot (env : RecycleEnv) (slot : TransactionSlot) : SlotAction :=
  if slot.xactId = 0 then
    if recheckPanics env slot then .panic else .stop
  else if slot.startUndoPtr = invalidUndoRecPtr then
    .stop
  else if slot.xactId < env.globalRecycleXid ∧ recheckPanics env slot then
    .panic
  else if slot.xactId < env.recycleXmin then
    if env.frozenXid ≤ slot.xactId then .stop else .pass false
  else if ¬(transactionIdIsNormal env.forceRecycleXid ∧ slot.xactId < env.forceRecycleXid) then
    .stop
  else if env.isInProgress slot.xactId then
    .stop
  else if ¬env.didCommit slot.xactId ∧ slot.needRollback then
    -- the transaction is handed to an asynchronous rollback worker
    .stop
  else
    .pass true

/-- The local variables of `RecycleUndoSpace` that a scan updates. -/
structure ScanState where
  recycle : Nat
  startUndoPtr : Nat
  endUndoPtr : Nat
  oldestEndUndoPtr : Nat
  recycleXid : Nat
  forceRecycle : Bool
  undoRecycled : Bool
  deriving DecidableEq

/-- The effect of passing a slot. -/
def ScanState.pass (s : ScanState) (slot : TransactionSlot) (force : Bool) : ScanState :=
  let forceRecycle := s.forceRecycle || force
  { recycle := getNextSlotPtr s.recycle
    startUndoPtr := if s.startUndoPtr = 0 then slot.startUndoPtr else s.startUndoPtr
    endUndoPtr := slot.endUndoPtr
    oldestEndUndoPtr := if forceRecycle then s.oldestEndUndoPtr else slot.endUndoPtr
    recycleXid := slot.xactId
    forceRecycle := forceRecycle
    undoRecycled := true }

/-- The inner loop: scan the slots of block `blk`. -/
def scanPage (env : RecycleEnv) (blk allocate : Nat) :
    Nat → ScanState → Except RecycleError ScanState
  | 0, _ => .error .outOfFuel
  | fuel + 1, s =>
    if blk = undoPtrGetBlockNum s.recycle ∧ s.recycle < allocate then
      match examineSlot env (env.slots s.recycle) with
      | .stop => .ok s
      | .panic => .error .recheckUndoRecycleXid
      | .pass force => scanPage env blk allocate fuel (s.pass (env.slots s.recycle) force)
    else
      .ok s

/-- The pointer that `discardURecPtr` is set to, if any. -/
def discardTarget (s : ScanState) : Nat :=
  let startZid := undoPtrGetZoneId s.startUndoPtr
  if startZid = undoPtrGetZoneId s.oldestEndUndoPtr then
    s.oldestEndUndoPtr
  else
    makeUndoPtr startZid undoLogMaxSize

/-- The zone pointers after the scan of a page. -/
def advanceZone (z : UndoZone) (s : ScanState) : UndoZone :=
  let z := if s.oldestEndUndoPtr ≠ invalidUndoRecPtr then z.setDiscardURecPtr (discardTarget s) else z
  let z := { z with recycleXid := s.recycleXid }
  (z.setForceDiscardURecPtr s.endUndoPtr).setRecycleTSlotPtr s.recycle

/-- The discard record of a scan that started at slot `start`. -/
def discardRecord (env : RecycleEnv) (start : Nat) (s : ScanState) : XlogUndoDiscard where
  endSlot := s.recycle
  startSlot := start
  recycleLoops := env.recycleLoops
  recycledXid := s.recycleXid
  oldestXmin := env.recycleXmin
  endUndoPtr := s.endUndoPtr

/-- The discard record is written for permanent zones only. -/
def logDiscard (env : RecycleEnv) (z : UndoZone) (w : Wal) (start : Nat) (s : ScanState) :
    UndoZone × Wal :=
  if z.pLevel = .permanent then
    let (lsn, w) := w.writeUndoXlog (.discard (discardRecord env start s))
    ({ z with dirty := true, lsn := lsn }, w)
  else
    (z, w)

/-- What follows the scan of a page that passed a slot: the zone pointers, the discard record and the
release of both spaces. -/
def recyclePage (env : RecycleEnv) (z : UndoZone) (w : Wal) (start : Nat) (s : ScanState) :
    UndoZone × Wal :=
  let (z, w) := logDiscard env (advanceZone z s) w start s
  let (z, w) := z.releaseSpace w s.endUndoPtr
  z.releaseSlotSpace w s.recycle

/-- What a call returns: the zone, the log, `oldestRecycleXid` and the result. -/
structure RecycleResult where
  zone : UndoZone
  wal : Wal
  oldestRecycleXid : Nat
  result : Bool

/-- The outer loop of `RecycleUndoSpace`. -/
def recycleLoop (env : RecycleEnv) (allocate : Nat) :
    Nat → ScanState → RecycleResult → Except RecycleError RecycleResult
  | 0, _, _ => .error .outOfFuel
  | fuel + 1, s, r =>
    if s.recycle < allocate then do
      let start := s.recycle
      let s ← scanPage env (undoPtrGetBlockNum start) allocate (allocate - start + 1)
        { s with startUndoPtr := invalidUndoRecPtr, undoRecycled := false }
      if s.undoRecycled then
        if r.zone.checkRecycle s.startUndoPtr s.endUndoPtr then
          let (z, w) := recyclePage env r.zone r.wal start s
          recycleLoop env allocate fuel s
            { zone := z, wal := w, oldestRecycleXid := s.recycleXid, result := true }
        else
          .error .checkRecycle
      else
        .ok r
    else
      .ok r

/-- `RecycleUndoSpace`. -/
def recycleUndoSpace (env : RecycleEnv) (z : UndoZone) (w : Wal) :
    Except RecycleError RecycleResult :=
  let recycle := z.getRecycleTSlotPtr
  let allocate := z.getAllocateTSlotPtr
  recycleLoop env allocate (allocate - recycle + 1)
    { recycle := recycle, startUndoPtr := invalidUndoRecPtr, endUndoPtr := invalidUndoRecPtr,
      oldestEndUndoPtr := invalidUndoRecPtr, recycleXid := 0, forceRecycle := false,
      undoRecycled := false }
    { zone := z, wal := w, oldestRecycleXid := min env.recycleXmin env.frozenXid, result := false }

/-! ## Slot pointers in order -/

/-- The next slot lies in the same zone. -/
lemma getZoneId_getNextSlotPtr {p : Nat} (h : p < 2 ^ 64) :
    undoPtrGetZoneId (getNextSlotPtr p) = undoPtrGetZoneId p := by
  have hz := getZoneId_lt h
  have hm : undoPtrGetOffset p % blcksz < blcksz := Nat.mod_lt _ (by decide)
  simp only [blcksz] at hm
  rw [getNextSlotPtr]
  split
  · exact getZoneId_make_of_lt hz (by simp only [undoLogBlockHeaderSize]; omega)
  · exact getZoneId_make_of_lt hz (by simp only [blcksz, sizeofTransactionSlot]; omega)

lemma getNextSlotPtr_lt {p : Nat} (h : p < 2 ^ 64) : getNextSlotPtr p < 2 ^ 64 := by
  have hz := getZoneId_lt h
  have hm : undoPtrGetOffset p % blcksz < blcksz := Nat.mod_lt _ (by decide)
  simp only [blcksz] at hm
  rw [getNextSlotPtr]
  split
  · exact makeUndoPtr_lt hz (by simp only [undoLogBlockHeaderSize]; omega)
  · exact makeUndoPtr_lt hz (by simp only [blcksz, sizeofTransactionSlot]; omega)

/-- The `i`-th slot pointer from the recycle pointer on. -/
def slotPtrAt (z : UndoZone) (i : Nat) : Nat :=
  getNextSlotPtr^[i] z.getRecycleTSlotPtr

/-- The `i`-th slot that is not recycled yet. -/
def slotAt (slots : Nat → TransactionSlot) (z : UndoZone) (i : Nat) : TransactionSlot :=
  slots (slotPtrAt z i)

/-- The zone offset at which the undo of the first `i` slots ends. -/
def rangeEnd (slots : Nat → TransactionSlot) (z : UndoZone) : Nat → Nat
  | 0 => z.forceDiscardURecPtr
  | i + 1 => undoPtrGetOffset (slotAt slots z i).endUndoPtr

lemma slotPtrAt_succ (z : UndoZone) (i : Nat) :
    slotPtrAt z (i + 1) = getNextSlotPtr (slotPtrAt z i) :=
  Function.iterate_succ_apply' ..

/-- Every slot pointer lies in the zone. -/
lemma slotPtrAt_zone {z : UndoZone} (hz : z.zid < 2 ^ 20) (hrecycle : z.recycleTSlotPtr < undoLogMaxSize)
    (i : Nat) : undoPtrGetZoneId (slotPtrAt z i) = z.zid ∧ slotPtrAt z i < 2 ^ 64 := by
  simp only [undoLogMaxSize] at hrecycle
  induction i with
  | zero =>
    exact ⟨getZoneId_make_of_lt hz hrecycle, makeUndoPtr_lt hz (by omega)⟩
  | succ i ih =>
    rw [slotPtrAt_succ]
    exact ⟨(getZoneId_getNextSlotPtr ih.2).trans ih.1, getNextSlotPtr_lt ih.2⟩

/-- The state of a zone between two calls of its operations: `n` slots wait to be recycled; in order, they
cover consecutive ranges of the zone from the forced discard pointer on, with increasing xids, and the
pointers stand as `VerifyUndoZone` wants them. -/
structure ZoneSlots (slots : Nat → TransactionSlot) (z : UndoZone) (n : Nat) : Prop where
  zid_lt : z.zid < 2 ^ 20
  recycle_lt : z.recycleTSlotPtr < undoLogMaxSize
  allocate_eq : slotPtrAt z n = z.getAllocateTSlotPtr
  increasing : ∀ i < n, slotPtrAt z i < slotPtrAt z (i + 1)
  start_eq : ∀ i < n, (slotAt slots z i).startUndoPtr = makeUndoPtr z.zid (rangeEnd slots z i)
  end_eq : ∀ i < n, (slotAt slots z i).endUndoPtr = makeUndoPtr z.zid (rangeEnd slots z (i + 1))
  range_lt : ∀ i < n, rangeEnd slots z i < rangeEnd slots z (i + 1)
  range_le : ∀ i ≤ n, rangeEnd slots z i ≤ z.insertURecPtr
  xid_lt : ∀ i, i + 1 < n → (slotAt slots z i).xactId < (slotAt slots z (i + 1)).xactId
  discard_le : z.discardURecPtr ≤ z.forceDiscardURecPtr
  force_lt : z.forceDiscardURecPtr < undoLogMaxSize
  recycle_le : z.recycleTSlotPtr ≤ z.allocateTSlotPtr
  head_le : z.undoSpace.head ≤ z.forceDiscardURecPtr

/-- The transaction of a slot is older than both horizons. -/
def Expired (env : RecycleEnv) (slot : TransactionSlot) : Prop :=
  slot.xactId < env.recycleXmin ∧ slot.xactId < env.frozenXid

/-- The transaction of a slot is finished, its effects are settled, and forced recycling may take it. -/
def ForceExpired (env : RecycleEnv) (slot : TransactionSlot) : Prop :=
  env.recycleXmin ≤ slot.xactId ∧ slot.xactId < env.forceRecycleXid ∧
    env.isInProgress slot.xactId = false ∧
    (env.didCommit slot.xactId = true ∨ slot.needRollback = false)

/-- A slot is passed only when one of the two holds, and never without undo. -/
lemma examineSlot_pass {env : RecycleEnv} {slot : TransactionSlot} {force : Bool}
    (h : examineSlot env slot = .pass force) :
    slot.startUndoPtr ≠ 0 ∧
      (if force then ForceExpired env slot else Expired env slot) := by
  unfold examineSlot at h
  split at h
  · split at h <;> cases h
  split at h
  · cases h
  rename_i hstart
  refine ⟨hstart, ?_⟩
  split at h
  · cases h
  split at h
  · rename_i hxmin
    split at h
    · cases h
    · cases h
      exact ⟨hxmin, by omega⟩
  rename_i hxmin
  split at h
  · cases h
  rename_i hforce
  split at h
  · cases h
  rename_i hprogress
  split at h
  · cases h
  rename_i hstate
  cases h
  refine ⟨by omega, (not_not.mp hforce).2, by simpa using hprogress, ?_⟩
  by_cases hc : env.didCommit slot.xactId = true
  · exact .inl hc
  · exact .inr (by simpa [hc] using hstate)

/-! ## The scan of a page -/

/-- End pointer of the last of the first `i` slots. -/
def lastEnd (slots : Nat → TransactionSlot) (z : UndoZone) : Nat → Nat
  | 0 => invalidUndoRecPtr
  | i + 1 => (slotAt slots z i).endUndoPtr

/-- Xid of the last of the first `i` slots. -/
def lastXid (slots : Nat → TransactionSlot) (z : UndoZone) : Nat → Nat
  | 0 => 0
  | i + 1 => (slotAt slots z i).xactId

/-- The first `i` slots may be recycled, the first `m` of them without force. -/
structure MayPass (env : RecycleEnv) (z : UndoZone) (m i : Nat) : Prop where
  le : m ≤ i
  expired : ∀ j < m, Expired env (slotAt env.slots z j)
  forced : ∀ j, m ≤ j → j < i → ForceExpired env (slotAt env.slots z j)

/-- The scan variables after `i` slots in all, when the scan of the current page began at slot `i₀`. -/
structure ScanInv (env : RecycleEnv) (z : UndoZone) (n i₀ m i : Nat) (s : ScanState) : Prop where
  first_le : i₀ ≤ i
  le : i ≤ n
  may : MayPass env z m i
  recycle : s.recycle = slotPtrAt z i
  start : s.startUndoPtr = if i₀ < i then (slotAt env.slots z i₀).startUndoPtr else invalidUndoRecPtr
  start_ne : i₀ < i → (slotAt env.slots z i₀).startUndoPtr ≠ 0
  stop : s.endUndoPtr = lastEnd env.slots z i
  oldest : s.oldestEndUndoPtr = lastEnd env.slots z m
  xid : s.recycleXid = lastXid env.slots z i
  force : s.forceRecycle = decide (m < i)
  recycled : s.undoRecycled = decide (i₀ < i)

variable {i : Nat}

/-- Xids increase along the waiting slots. -/
lemma ZoneSlots.xid_mono {slots : Nat → TransactionSlot} {z : UndoZone} {n : Nat} (h : ZoneSlots slots z n)
    {j : Nat} (hij : i < j) (hj : j < n) : (slotAt slots z i).xactId < (slotAt slots z j).xactId := by
  induction j with
  | zero => omega
  | succ j ih =>
    have hstep := h.xid_lt j hj
    rcases Nat.lt_succ_iff_lt_or_eq.mp hij with hlt | rfl
    · exact lt_trans (ih hlt (by omega)) hstep
    · exact hstep

/-- Once a slot was passed by force, no later slot is passed without. -/
lemma MayPass.unforced {env : RecycleEnv} {z : UndoZone} {n m : Nat} (hz : ZoneSlots env.slots z n)
    (h : MayPass env z m i) (hi : i < n) (hexp : Expired env (slotAt env.slots z i)) : m = i := by
  by_contra hne
  have hlt : m < i := by
    have := h.le
    omega
  have hforced := (h.forced m le_rfl hlt).1
  have hmono := hz.xid_mono hlt hi
  have hxmin := hexp.1
  omega

lemma ScanInv.pass {env : RecycleEnv} {z : UndoZone} {n i₀ m : Nat} {s : ScanState} {force : Bool}
    (hz : ZoneSlots env.slots z n) (h : ScanInv env z n i₀ m i s) (hi : i < n)
    (hact : examineSlot env (env.slots s.recycle) = .pass force) :
    ScanInv env z n i₀ (if force then m else m + 1) (i + 1)
      (s.pass (env.slots s.recycle) force) := by
  have hslot : env.slots s.recycle = slotAt env.slots z i := by
    rw [h.recycle, slotAt]
  rw [hslot] at hact ⊢
  obtain ⟨hstart, hwhy⟩ := examineSlot_pass hact
  have hfirst := h.first_le
  -- the first slot of the page sets the start pointer, later ones leave it
  have hnewStart : (s.pass (slotAt env.slots z i) force).startUndoPtr =
      (slotAt env.slots z i₀).startUndoPtr := by
    rcases Nat.eq_or_lt_of_le hfirst with rfl | hlt
    · have h0 : s.startUndoPtr = 0 := by simpa using h.start
      simp [ScanState.pass, h0]
    · have hne := h.start_ne hlt
      have hs := h.start
      rw [if_pos hlt] at hs
      simp [ScanState.pass, hs, hne]
  have hne : (slotAt env.slots z i₀).startUndoPtr ≠ 0 := by
    rcases Nat.eq_or_lt_of_le hfirst with rfl | hlt
    · exact hstart
    · exact h.start_ne hlt
  have hbase : ∀ m', MayPass env z m' (i + 1) →
      (s.pass (slotAt env.slots z i) force).oldestEndUndoPtr = lastEnd env.slots z m' →
      (s.pass (slotAt env.slots z i) force).forceRecycle = decide (m' < i + 1) →
      ScanInv env z n i₀ m' (i + 1) (s.pass (slotAt env.slots z i) force) := by
    intro m' hmay hold hforce
    refine ⟨by omega, hi, hmay, ?_, ?_, fun _ => hne, rfl, hold, rfl, hforce, ?_⟩
    · rw [slotPtrAt_succ, ← h.recycle]
      rfl
    · rw [if_pos (by omega), hnewStart]
    · have hlt : i₀ < i + 1 := by omega
      simp [ScanState.pass, hlt]
  cases force with
  | true =>
    have hle := h.may.le
    refine hbase m ⟨by omega, h.may.expired, ?_⟩ ?_ ?_
    · intro j hmj hj
      rcases Nat.lt_succ_iff_lt_or_eq.mp hj with hlt | rfl
      · exact h.may.forced j hmj hlt
      · exact hwhy
    · simp [ScanState.pass, h.oldest]
    · have hlt : m < i + 1 := by omega
      simp [ScanState.pass, hlt]
  | false =>
    have hm := h.may.unforced hz hi hwhy
    subst hm
    refine hbase (m + 1) ⟨le_rfl, ?_, ?_⟩ ?_ ?_
    · intro j hj
      rcases Nat.lt_succ_iff_lt_or_eq.mp hj with hlt | rfl
      · exact h.may.expired j hlt
      · exact hwhy
    · intro j hmj hj
      omega
    · simp [ScanState.pass, h.force, lastEnd]
    · simp [ScanState.pass, h.force]

/-- The pointers of the waiting slots are spread out. -/
lemma ZoneSlots.ptr_add_le {slots : Nat → TransactionSlot} {z : UndoZone} {n : Nat}
    (h : ZoneSlots slots z n) {j : Nat} (hij : i ≤ j) (hj : j ≤ n) :
    slotPtrAt z i + (j - i) ≤ slotPtrAt z j := by
  induction j with
  | zero =>
    obtain rfl : i = 0 := by omega
    simp
  | succ j ih =>
    have hstep := h.increasing j hj
    rcases Nat.eq_or_lt_of_le hij with rfl | hlt
    · simp
    · have hprev := ih (by omega) (by omega)
      omega

/-- The scan is still before the allocation pointer exactly when a slot is left. -/
lemma ZoneSlots.ptr_lt_allocate {slots : Nat → TransactionSlot} {z : UndoZone} {n : Nat}
    (h : ZoneSlots slots z n) (hi : i ≤ n) : slotPtrAt z i < z.getAllocateTSlotPtr ↔ i < n := by
  have hsp := h.ptr_add_le hi le_rfl
  rw [h.allocate_eq] at hsp
  constructor
  · intro hlt
    by_contra hge
    obtain rfl : i = n := by omega
    rw [h.allocate_eq] at hlt
    omega
  · intro hlt
    omega

/-- A page scan passes some more slots and ends before its fuel. -/
lemma scanPage_spec {env : RecycleEnv} {z : UndoZone} {n : Nat} (hz : ZoneSlots env.slots z n) (blk : Nat)
    {i₀ m fuel : Nat} {s : ScanState} (h : ScanInv env z n i₀ m i s) (hfuel : n - i < fuel) :
    match scanPage env blk z.getAllocateTSlotPtr fuel s with
    | .error e => e = .recheckUndoRecycleXid
    | .ok s' => ∃ m' i', m ≤ m' ∧ ScanInv env z n i₀ m' i' s' := by
  induction fuel generalizing m i s with
  | zero => omega
  | succ fuel ih =>
    rw [scanPage]
    by_cases hcond : blk = undoPtrGetBlockNum s.recycle ∧ s.recycle < z.getAllocateTSlotPtr
    · rw [if_pos hcond]
      have hi : i < n := by
        rw [← hz.ptr_lt_allocate h.le, ← h.recycle]
        exact hcond.2
      cases hact : examineSlot env (env.slots s.recycle) with
      | stop => exact ⟨m, i, le_rfl, h⟩
      | panic => rfl
      | pass force =>
        have hrest := ih (h.pass hz hi hact) (by omega)
        simp only
        split at hrest
        · exact hrest
        · obtain ⟨m', i', hm, hinv⟩ := hrest
          exact ⟨m', i', by split at hm <;> omega, hinv⟩
    · rw [if_neg hcond]
      exact ⟨m, i, le_rfl, h⟩

/-! ## The zone after a page -/

/-- Releasing a space changes that space only, and moves its head at most up to the segment of the end
pointer. -/
lemma releaseBelow_eq (z : UndoZone) (w : Wal) (type : SpaceType) (endPtr : Nat) :
    ∃ usp, (z.releaseBelow w type endPtr).1 = z.setSpace type usp ∧
      (usp.head = (z.getSpace type).head ∨ usp.head ≤ undoPtrGetOffset endPtr) := by
  have hself : z.setSpace type (z.getSpace type) = z := by
    cases type <;> rfl
  have hle := Nat.div_mul_le_self (undoPtrGetOffset endPtr) (usegSize type)
  simp only [UndoZone.releaseBelow]
  split
  · split
    · exact ⟨_, rfl, .inr hle⟩
    · exact ⟨_, rfl, .inr hle⟩
  · exact ⟨_, hself.symm, .inl rfl⟩

lemma releaseSpace_eq (z : UndoZone) (w : Wal) (endurp : Nat) :
    ∃ usp, (z.releaseSpace w endurp).1 = { z with undoSpace := usp } ∧
      (usp.head = z.undoSpace.head ∨ usp.head ≤ undoPtrGetOffset endurp) :=
  releaseBelow_eq z w .undoLog endurp

lemma releaseSlotSpace_eq (z : UndoZone) (w : Wal) (endSlotPtr : Nat) :
    ∃ usp, (z.releaseSlotSpace w endSlotPtr).1 = { z with slotSpace := usp } := by
  obtain ⟨usp, heq, -⟩ := releaseBelow_eq z w .slot endSlotPtr
  exact ⟨usp, heq⟩

lemma logDiscard_eq (env : RecycleEnv) (z : UndoZone) (w : Wal) (start : Nat) (s : ScanState) :
    ∃ lsn dirty, (logDiscard env z w start s).1 = { z with lsn := lsn, dirty := dirty } ∧
      (lsn = z.lsn ∨ lsn = w.lsnOf w.log.length) := by
  rw [logDiscard]
  split
  · exact ⟨_, _, rfl, .inr rfl⟩
  · exact ⟨z.lsn, z.dirty, rfl, .inl rfl⟩

/-- `recyclePage` moves the pointers as `advanceZone` does; beside that it touches only the LSN, the dirty
flag and the two spaces. -/
lemma recyclePage_eq (env : RecycleEnv) (z : UndoZone) (w : Wal) (start : Nat) (s : ScanState) :
    ∃ lsn dirty usp ssp, (recyclePage env z w start s).1 =
        { advanceZone z s with lsn := lsn, dirty := dirty, undoSpace := usp, slotSpace := ssp } ∧
      (usp.head = (advanceZone z s).undoSpace.head ∨ usp.head ≤ undoPtrGetOffset s.endUndoPtr) ∧
      (lsn = (advanceZone z s).lsn ∨ lsn = w.lsnOf w.log.length) := by
  obtain ⟨lsn, dirty, hlog, hlsn⟩ := logDiscard_eq env (advanceZone z s) w start s
  obtain ⟨usp, hundo, hhead⟩ := releaseSpace_eq (logDiscard env (advanceZone z s) w start s).1
    (logDiscard env (advanceZone z s) w start s).2 s.endUndoPtr
  obtain ⟨ssp, hslot⟩ := releaseSlotSpace_eq
    ((logDiscard env (advanceZone z s) w start s).1.releaseSpace
      (logDiscard env (advanceZone z s) w start s).2 s.endUndoPtr).1
    ((logDiscard env (advanceZone z s) w start s).1.releaseSpace
      (logDiscard env (advanceZone z s) w start s).2 s.endUndoPtr).2 s.recycle
  rw [hundo, hlog] at hslot
  rw [hlog] at hhead
  refine ⟨lsn, dirty, usp, ssp, ?_, hhead, hlsn⟩
  simp only [recyclePage]
  rw [hundo, hlog]
  exact hslot

/-- The pointers of zone `z'`, after the first `i` waiting slots of `z` were recycled, the first `m` of
them without force. -/
structure RecycledTo (slots : Nat → TransactionSlot) (z : UndoZone) (m i : Nat) (z' : UndoZone) :
    Prop where
  zid : z'.zid = z.zid
  insert : z'.insertURecPtr = z.insertURecPtr
  allocate : z'.allocateTSlotPtr = z.allocateTSlotPtr
  recycle : z'.recycleTSlotPtr = undoPtrGetOffset (slotPtrAt z i)
  force : z'.forceDiscardURecPtr = rangeEnd slots z i
  discard : z'.discardURecPtr = if m = 0 then z.discardURecPtr else rangeEnd slots z m
  xid : z'.recycleXid = if i = 0 then z.recycleXid else lastXid slots z i
  head : z'.undoSpace.head ≤ rangeEnd slots z i

section

variable {slots : Nat → TransactionSlot} {z : UndoZone} {n : Nat}

lemma ZoneSlots.range_mono (h : ZoneSlots slots z n) {i j : Nat} (hij : i ≤ j) (hj : j ≤ n) :
    rangeEnd slots z i ≤ rangeEnd slots z j := by
  induction j with
  | zero =>
    obtain rfl : i = 0 := by omega
    exact le_rfl
  | succ j ih =>
    have hstep := h.range_lt j hj
    rcases Nat.eq_or_lt_of_le hij with rfl | hlt
    · exact le_rfl
    · exact le_trans (ih (by omega) (by omega)) hstep.le

lemma ZoneSlots.range_lt_max (h : ZoneSlots slots z n) (i : Nat) :
    rangeEnd slots z i < undoLogMaxSize := by
  cases i with
  | zero => exact h.force_lt
  | succ i => exact getOffset_lt _

/-- The end pointer of the last slot passed points to the end of the ranges passed. -/
lemma ZoneSlots.lastEnd_eq (h : ZoneSlots slots z n) {i : Nat} (hpos : 0 < i) (hi : i ≤ n) :
    lastEnd slots z i = makeUndoPtr z.zid (rangeEnd slots z i) := by
  obtain ⟨j, rfl⟩ : ∃ j, i = j + 1 := ⟨i - 1, by omega⟩
  exact h.end_eq j hi

lemma ZoneSlots.lastEnd_ne (h : ZoneSlots slots z n) {i : Nat} (hpos : 0 < i) (hi : i ≤ n) :
    lastEnd slots z i ≠ invalidUndoRecPtr := by
  rw [h.lastEnd_eq hpos hi, makeUndoPtr_eq h.zid_lt (h.range_lt_max i)]
  obtain ⟨j, rfl⟩ : ∃ j, i = j + 1 := ⟨i - 1, by omega⟩
  have hlt := h.range_lt j hi
  simp only [invalidUndoRecPtr]
  omega

end

section

variable {env : RecycleEnv} {z : UndoZone} {n : Nat} {z₁ z' : UndoZone} {i₀ m i k : Nat} {s : ScanState}

section

variable (hz : ZoneSlots env.slots z n)
include hz

/-- The pointers that a page scan hands over pass `CheckRecycle`. -/
lemma checkRecycle_scan {m₀ : Nat} (hto : RecycledTo env.slots z m₀ i₀ z₁) (h : ScanInv env z n i₀ m i s)
    (hlt : i₀ < i) :
    z₁.checkRecycle s.startUndoPtr s.endUndoPtr = true := by
  have hi := h.le
  have hstart : s.startUndoPtr = makeUndoPtr z.zid (rangeEnd env.slots z i₀) := by
    rw [h.start, if_pos hlt, hz.start_eq i₀ (by omega)]
  have hstop : s.endUndoPtr = makeUndoPtr z.zid (rangeEnd env.slots z i) := by
    rw [h.stop, hz.lastEnd_eq (by omega) hi]
  have hrange : rangeEnd env.slots z i₀ < rangeEnd env.slots z i :=
    lt_of_lt_of_le (hz.range_lt i₀ (by omega)) (hz.range_mono hlt hi)
  rw [UndoZone.checkRecycle, hstart, hstop, getZoneId_make_of_lt hz.zid_lt (hz.range_lt_max _),
    getZoneId_make_of_lt hz.zid_lt (hz.range_lt_max _),
    getOffset_make_of_lt hz.zid_lt (hz.range_lt_max _),
    getOffset_make_of_lt hz.zid_lt (hz.range_lt_max _), hto.force, hto.insert]
  simp only [decide_eq_true_eq, true_and]
  exact ⟨hz.range_le i₀ (by omega), hz.range_le i hi, hrange⟩

/-- The discard pointer after a page: the end of the last slot passed without force. -/
lemma advanceZone_discard {m₀ : Nat} (hto : RecycledTo env.slots z m₀ i₀ z₁) (h : ScanInv env z n i₀ m i s)
    (hm : m₀ ≤ m) (hlt : i₀ < i) : (advanceZone z₁ s).discardURecPtr =
      if m = 0 then z.discardURecPtr else rangeEnd env.slots z m := by
  have hi := h.le
  have hmi := h.may.le
  rcases Nat.eq_zero_or_pos m with rfl | hpos
  · -- no slot was passed without force yet, and the pointer stays
    have hold : s.oldestEndUndoPtr = 0 := h.oldest
    obtain rfl : m₀ = 0 := by omega
    have hkeep := hto.discard
    simpa [advanceZone, hold, UndoZone.setForceDiscardURecPtr, UndoZone.setRecycleTSlotPtr] using hkeep
  · have hold : s.oldestEndUndoPtr = makeUndoPtr z.zid (rangeEnd env.slots z m) := by
      rw [h.oldest, hz.lastEnd_eq hpos (by omega)]
    have hne : s.oldestEndUndoPtr ≠ invalidUndoRecPtr := by
      rw [h.oldest]
      exact hz.lastEnd_ne hpos (by omega)
    have hstart : s.startUndoPtr = makeUndoPtr z.zid (rangeEnd env.slots z i₀) := by
      rw [h.start, if_pos hlt, hz.start_eq i₀ (by omega)]
    have htarget : discardTarget s = makeUndoPtr z.zid (rangeEnd env.slots z m) := by
      rw [discardTarget, hstart, hold, getZoneId_make_of_lt hz.zid_lt (hz.range_lt_max _),
        getZoneId_make_of_lt hz.zid_lt (hz.range_lt_max _), if_pos rfl]
    have hset : (advanceZone z₁ s).discardURecPtr = undoPtrGetOffset (discardTarget s) := by
      simp only [advanceZone, if_pos hne]
      rfl
    rw [hset, htarget, getOffset_make_of_lt hz.zid_lt (hz.range_lt_max _), if_neg (by omega)]

/-- One page of recycling takes the zone from slot `i₀` to slot `i`. -/
lemma recyclePage_recycledTo {m₀ : Nat} (w : Wal) (start : Nat) (hto : RecycledTo env.slots z m₀ i₀ z₁)
    (h : ScanInv env z n i₀ m i s) (hm : m₀ ≤ m) (hlt : i₀ < i) :
    RecycledTo env.slots z m i (recyclePage env z₁ w start s).1 := by
  have hi := h.le
  have hstop : undoPtrGetOffset s.endUndoPtr = rangeEnd env.slots z i := by
    rw [h.stop, hz.lastEnd_eq (by omega) hi, getOffset_make_of_lt hz.zid_lt (hz.range_lt_max _)]
  have hfields : (advanceZone z₁ s).zid = z₁.zid ∧
      (advanceZone z₁ s).insertURecPtr = z₁.insertURecPtr ∧
      (advanceZone z₁ s).allocateTSlotPtr = z₁.allocateTSlotPtr ∧
      (advanceZone z₁ s).undoSpace = z₁.undoSpace := by
    simp only [advanceZone]
    split <;> exact ⟨rfl, rfl, rfl, rfl⟩
  obtain ⟨lsn, dirty, usp, ssp, heq, hhead, -⟩ := recyclePage_eq env z₁ w start s
  rw [heq]
  constructor
  · exact hfields.1.trans hto.zid
  · exact hfields.2.1.trans hto.insert
  · exact hfields.2.2.1.trans hto.allocate
  · show undoPtrGetOffset s.recycle = _
    rw [h.recycle]
  · exact hstop
  · exact advanceZone_discard hz hto h hm hlt
  · show s.recycleXid = _
    rw [h.xid, if_neg (by omega)]
  · have hmono := hz.range_mono hlt.le hi
    have hprev := hto.head
    rw [hfields.2.2.2, hstop] at hhead
    simp only
    rcases hhead with hsame | hle <;> omega

/-- The outer loop stops, without failing `CheckRecycle`, after passing a first part of the slots. -/
lemma recycleLoop_spec {fuel : Nat} {r : RecycleResult} (h : ScanInv env z n i₀ m i s)
    (hto : RecycledTo env.slots z m i r.zone) (hfuel : n - i < fuel) :
    match recycleLoop env z.getAllocateTSlotPtr fuel s r with
    | .error e => e = .recheckUndoRecycleXid
    | .ok r' => ∃ m' i', i' ≤ n ∧ MayPass env z m' i' ∧ RecycledTo env.slots z m' i' r'.zone := by
  induction fuel generalizing i₀ m i s r with
  | zero => omega
  | succ fuel ih =>
    rw [recycleLoop]
    by_cases hcond : s.recycle < z.getAllocateTSlotPtr
    swap
    · rw [if_neg hcond]
      exact ⟨m, i, h.le, h.may, hto⟩
    rw [if_pos hcond]
    have hlt : i < n := by
      rw [← hz.ptr_lt_allocate h.le, ← h.recycle]
      exact hcond
    -- the page scan starts from here with fresh start pointer and flag
    have hfresh : ScanInv env z n i m i
        { s with startUndoPtr := invalidUndoRecPtr, undoRecycled := false } := by
      refine ⟨le_rfl, h.le, h.may, h.recycle, by simp, fun hii => absurd hii (lt_irrefl i), h.stop,
        h.oldest, h.xid, h.force, by simp⟩
    have hspread := hz.ptr_add_le h.le le_rfl
    rw [hz.allocate_eq] at hspread
    have henough : n - i < z.getAllocateTSlotPtr - s.recycle + 1 := by
      rw [h.recycle]
      omega
    have hpage := scanPage_spec hz (undoPtrGetBlockNum s.recycle) hfresh henough
    simp only [bind, Except.bind]
    generalize scanPage env (undoPtrGetBlockNum s.recycle) z.getAllocateTSlotPtr
      (z.getAllocateTSlotPtr - s.recycle + 1)
      { s with startUndoPtr := invalidUndoRecPtr, undoRecycled := false } = res at hpage ⊢
    cases res with
    | error e => exact hpage
    | ok s' =>
      obtain ⟨m', i', hmm, hinv⟩ := hpage
      simp only
      by_cases hrec : s'.undoRecycled = true
      · have hii : i < i' := by
          have hflag := hinv.recycled
          rw [hrec] at hflag
          simpa using hflag.symm
        rw [if_pos hrec, if_pos (checkRecycle_scan hz hto hinv hii)]
        exact ih hinv (recyclePage_recycledTo hz r.wal s.recycle hto hinv hmm hii) (by omega)
      · rw [if_neg hrec]
        exact ⟨m, i, h.le, h.may, hto⟩

end

/-- Before any slot is passed. -/
lemma RecycledTo.refl (hz : ZoneSlots env.slots z n) : RecycledTo env.slots z 0 0 z := by
  have hoff := hz.recycle_lt
  refine ⟨rfl, rfl, rfl, ?_, rfl, rfl, rfl, hz.head_le⟩
  exact (getOffset_make_of_lt hz.zid_lt hoff).symm

section

variable (hz : ZoneSlots env.slots z n) (h : RecycledTo env.slots z m k z')
include hz h

lemma RecycledTo.slotPtrAt_eq (j : Nat) : slotPtrAt z' j = slotPtrAt z (k + j) := by
  obtain ⟨hzone, hlt⟩ := slotPtrAt_zone hz.zid_lt hz.recycle_lt k
  have hbase : z'.getRecycleTSlotPtr = slotPtrAt z k := by
    rw [UndoZone.getRecycleTSlotPtr, h.zid, h.recycle, ← hzone, make_get hlt]
  rw [slotPtrAt, hbase, slotPtrAt, slotPtrAt, ← Function.iterate_add_apply, Nat.add_comm]

lemma RecycledTo.rangeEnd_eq (j : Nat) : rangeEnd env.slots z' j = rangeEnd env.slots z (k + j) := by
  cases j with
  | zero => exact h.force
  | succ j =>
    rw [rangeEnd, slotAt, h.slotPtrAt_eq hz j]
    rfl

/-- The recycle pointer stays at or below the allocation pointer. -/
lemma RecycledTo.recycle_le (hk : k ≤ n) : z'.recycleTSlotPtr ≤ z'.allocateTSlotPtr := by
  obtain ⟨hzone, -⟩ := slotPtrAt_zone hz.zid_lt hz.recycle_lt k
  obtain ⟨hzonen, -⟩ := slotPtrAt_zone hz.zid_lt hz.recycle_lt n
  have hspread := hz.ptr_add_le hk le_rfl
  have halloc : undoPtrGetOffset (slotPtrAt z n) = z.allocateTSlotPtr % 2 ^ 44 := by
    rw [hz.allocate_eq, UndoZone.getAllocateTSlotPtr, getOffset_make _ hz.zid_lt]
  rw [h.recycle, h.allocate, getOffset_eq]
  rw [getOffset_eq] at halloc
  rw [getZoneId_eq] at hzone hzonen
  omega

/-- What is left after recycling is again a zone with its slots in order. -/
lemma RecycledTo.zoneSlots (hm : m ≤ k) (hk : k ≤ n) : ZoneSlots env.slots z' (n - k) := by
  have hptr := h.slotPtrAt_eq hz
  have hrange := h.rangeEnd_eq hz
  have hslot : ∀ j, slotAt env.slots z' j = slotAt env.slots z (k + j) := by
    intro j
    rw [slotAt, hptr, slotAt]
  constructor
  · rw [h.zid]
    exact hz.zid_lt
  · rw [h.recycle]
    exact getOffset_lt _
  · rw [hptr, Nat.add_sub_cancel' hk, hz.allocate_eq, UndoZone.getAllocateTSlotPtr,
      UndoZone.getAllocateTSlotPtr, h.zid, h.allocate]
  · intro i hi
    rw [hptr, hptr]
    exact hz.increasing (k + i) (by omega)
  · intro i hi
    rw [hslot, hrange, h.zid]
    exact hz.start_eq (k + i) (by omega)
  · intro i hi
    rw [hslot, hrange, h.zid]
    exact hz.end_eq (k + i) (by omega)
  · intro i hi
    rw [hrange, hrange]
    exact hz.range_lt (k + i) (by omega)
  · intro i hi
    rw [hrange, h.insert]
    exact hz.range_le (k + i) (by omega)
  · intro i hi
    rw [hslot, hslot]
    exact hz.xid_lt (k + i) (by omega)
  · rw [h.discard, h.force]
    split
    · exact le_trans hz.discard_le (hz.range_mono (Nat.zero_le k) hk)
    · exact hz.range_mono hm hk
  · rw [h.force]
    exact hz.range_lt_max k
  · exact h.recycle_le hz hk
  · rw [h.force]
    exact h.head

end

/-- **Recycling discards no live undo.** A call of `RecycleUndoSpace` passes the first `k` waiting slots:
the first `m` of them are older than both horizons, the others are finished transactions that forced
recycling may take. The forced discard pointer is the end of the last slot passed, the discard pointer the
end of the last one passed without force, and the zone is left in order. The only PANIC is that of
`RecheckUndoRecycleXid`. -/
theorem recycleUndoSpace_spec (w : Wal) (hz : ZoneSlots env.slots z n) :
    match recycleUndoSpace env z w with
    | .error e => e = .recheckUndoRecycleXid
    | .ok r => ∃ m k, m ≤ k ∧ k ≤ n ∧
        (∀ i < m, Expired env (slotAt env.slots z i)) ∧
        (∀ i, m ≤ i → i < k → ForceExpired env (slotAt env.slots z i)) ∧
        RecycledTo env.slots z m k r.zone ∧ ZoneSlots env.slots r.zone (n - k) ∧
        r.zone.discardURecPtr ≤ r.zone.forceDiscardURecPtr ∧
        r.zone.forceDiscardURecPtr ≤ r.zone.insertURecPtr ∧
        r.zone.recycleTSlotPtr ≤ r.zone.allocateTSlotPtr ∧
        r.zone.undoSpace.head ≤ r.zone.forceDiscardURecPtr := by
  have hinit : ScanInv env z n 0 0 0
      { recycle := z.getRecycleTSlotPtr, startUndoPtr := invalidUndoRecPtr,
        endUndoPtr := invalidUndoRecPtr, oldestEndUndoPtr := invalidUndoRecPtr, recycleXid := 0,
        forceRecycle := false, undoRecycled := false } := by
    refine ⟨le_rfl, Nat.zero_le n, ⟨le_rfl, fun j hj => ?_, fun j _ hj => ?_⟩, rfl, rfl,
      fun h => absurd h (lt_irrefl 0), rfl, rfl, rfl, rfl, rfl⟩
    · omega
    · omega
  have hspread := hz.ptr_add_le (Nat.zero_le n) le_rfl
  rw [hz.allocate_eq] at hspread
  have henough : n - 0 < z.getAllocateTSlotPtr - z.getRecycleTSlotPtr + 1 := by
    have hfirst : slotPtrAt z 0 = z.getRecycleTSlotPtr := rfl
    omega
  have hloop := recycleLoop_spec hz (r := ⟨z, w, min env.recycleXmin env.frozenXid, false⟩) hinit
    (RecycledTo.refl hz) henough
  rw [recycleUndoSpace]
  generalize recycleLoop env z.getAllocateTSlotPtr _ _ _ = res at hloop ⊢
  cases res with
  | error e => exact hloop
  | ok r =>
    obtain ⟨m, k, hk, hmay, hto⟩ := hloop
    have hleft := hto.zoneSlots hz hmay.le hk
    exact ⟨m, k, hmay.le, hk, hmay.expired, hmay.forced, hto, hleft, hleft.discard_le,
      hleft.range_le 0 (Nat.zero_le _), hleft.recycle_le, hleft.head_le⟩

end

/-- Three transactions of zone 5: xid 10 is below the horizon, xid 20 is committed and below
`forceRecycleXid`, xid 30 is running. -/
def sampleEnv : RecycleEnv where
  slots p :=
    if undoPtrGetOffset p = 24 then ⟨10, makeUndoPtr 5 24, makeUndoPtr 5 224, false⟩
    else if undoPtrGetOffset p = 56 then ⟨20, makeUndoPtr 5 224, makeUndoPtr 5 424, false⟩
    else ⟨30, makeUndoPtr 5 424, makeUndoPtr 5 624, false⟩
  recycleXmin := 15
  frozenXid := 15
  forceRecycleXid := 25
  globalRecycleXid := 5
  globalFrozenXid := 5
  recycleLoops := 0
  didCommit xid := xid = 20
  isInProgress xid := xid = 30

def sampleZone : UndoZone :=
  { initZone 5 .permanent with
    insertURecPtr := 624, allocateTSlotPtr := 120, lsn := 7
    undoSpace := ⟨0, undoLogSegmentSize, 3, true⟩, slotSpace := ⟨0, undoMetaSegmentSize, 4, true⟩ }

lemma sampleZone_slots : ZoneSlots sampleEnv.slots sampleZone 3 := by
  constructor
  case xid_lt =>
    intro i hi
    have hlt : i < 2 := by omega
    interval_cases i <;> decide
  all_goals decide

/-- One slot is recycled without force, one with, and the third is kept. -/
theorem recycleUndoSpace_sampleZone :
    (recycleUndoSpace sampleEnv sampleZone ⟨fun n => 100 + n, []⟩).toOption.map
        (fun r => (r.zone.recycleTSlotPtr, r.zone.forceDiscardURecPtr, r.zone.discardURecPtr)) =
      some (88, 424, 224) ∧
    match recycleUndoSpace sampleEnv sampleZone ⟨fun n => 100 + n, []⟩ with
    | .error e => e = .recheckUndoRecycleXid
    | .ok r => ∃ m k, m ≤ k ∧ k ≤ 3 ∧
        (∀ i < m, Expired sampleEnv (slotAt sampleEnv.slots sampleZone i)) ∧
        (∀ i, m ≤ i → i < k → ForceExpired sampleEnv (slotAt sampleEnv.slots sampleZone i)) ∧
        RecycledTo sampleEnv.slots sampleZone m k r.zone ∧ ZoneSlots sampleEnv.slots r.zone (3 - k) ∧
        r.zone.discardURecPtr ≤ r.zone.forceDiscardURecPtr ∧
        r.zone.forceDiscardURecPtr ≤ r.zone.insertURecPtr ∧
        r.zone.recycleTSlotPtr ≤ r.zone.allocateTSlotPtr ∧
        r.zone.undoSpace.head ≤ r.zone.forceDiscardURecPtr :=
  ⟨by decide, recycleUndoSpace_spec _ sampleZone_slots⟩

end GaussKernel.Undo
