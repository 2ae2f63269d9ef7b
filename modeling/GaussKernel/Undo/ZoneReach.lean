import GaussKernel.Undo.Xlog

/-!
# Reachable undo zones

The states a permanent zone can get into by allocation, recycling and zone switch, and the invariant
`MetaInv` that the zone table relies on: of the zone pointers only the insertion pointer can exceed 44 bits,
and it leaves its initial value as soon as the zone leaves its initial state.
-/

namespace GaussKernel.Undo

/-- The fields of a zone that its entry keeps. -/
structure SameMeta (z z' : UndoZone) : Prop where
  lsn : z'.lsn = z.lsn
  insert : z'.insertURecPtr = z.insertURecPtr
  discard : z'.discardURecPtr = z.discardURecPtr
  forceDiscard : z'.forceDiscardURecPtr = z.forceDiscardURecPtr
  allocate : z'.allocateTSlotPtr = z.allocateTSlotPtr
  recycle : z'.recycleTSlotPtr = z.recycleTSlotPtr
  xid : z'.recycleXid = z.recycleXid

/-- The values an operation is called with are 64-bit, and a record lies behind a page header. -/
def ValidOp : PrimaryOp → Prop
  | .insertUndo lastRecord lastRecordSize _ lsn =>
    undoLogBlockHeaderSize ≤ undoPtrGetPageOffset lastRecord ∧ 0 < lastRecordSize ∧
      lastRecordSize < 2 ^ 32 ∧ lsn < 2 ^ 64
  | .recycleUndoSpace env => ∀ p, (env.slots p).xactId < 2 ^ 64
  | _ => True

/-- The states of permanent zone `zid`: allocation and recycling in any order, and zone switch. -/
inductive ZoneReach (zid : Nat) : UndoZone → Wal → Prop where
  | init {w : Wal} (lsn_lt : ∀ n, w.lsnOf n < 2 ^ 64) : ZoneReach zid (initZone zid .permanent) w
  | step {z z' : UndoZone} {w w' : Wal} {op : PrimaryOp} (reach : ZoneReach zid z w) (valid : ValidOp op)
      (next : primaryStep z w op = some (z', w')) : ZoneReach zid z' w'
  | switch {z z' : UndoZone} {w : Wal} (reach : ZoneReach zid z w)
      (next : z.prepareSwitch = some z') : ZoneReach zid z' w

/-- What every reachable zone satisfies: all pointers but the insertion pointer have 44 bits, and a zone
with the initial insertion pointer is in its initial state. -/
structure MetaInv (zid : Nat) (z : UndoZone) : Prop where
  zid_eq : z.zid = zid
  lsn_lt : z.lsn < 2 ^ 64
  xid_lt : z.recycleXid < 2 ^ 64
  discard_lt : z.discardURecPtr < 2 ^ 44
  force_lt : z.forceDiscardURecPtr < 2 ^ 44
  allocate_lt : z.allocateTSlotPtr < 2 ^ 44
  recycle_lt : z.recycleTSlotPtr < 2 ^ 44
  moved : SameMeta (initZone zid .permanent) z ∨ z.insertURecPtr ≠ undoLogBlockHeaderSize

section

variable {zid : Nat} {z z' : UndoZone} {w w' : Wal}

lemma MetaInv.init (zid : Nat) : MetaInv zid (initZone zid .permanent) :=
  have h24 : undoLogBlockHeaderSize < 2 ^ 44 := by decide
  have h0 : 0 < 2 ^ 64 := by decide
  ⟨rfl, h0, h0, h24, h24, h24, h24, .inl ⟨rfl, rfl, rfl, rfl, rfl, rfl, rfl⟩⟩

/-- Only the seven fields and the id matter. -/
lemma MetaInv.congr (h : MetaInv zid z) (hzid : z'.zid = z.zid) (hsame : SameMeta z z') :
    MetaInv zid z' := by
  obtain ⟨h1, h2, h3, h4, h5, h6, h7⟩ := hsame
  refine ⟨hzid.trans h.zid_eq, h1 ▸ h.lsn_lt, h7 ▸ h.xid_lt, h3 ▸ h.discard_lt, h4 ▸ h.force_lt,
    h5 ▸ h.allocate_lt, h6 ▸ h.recycle_lt, ?_⟩
  rcases h.moved with hinit | hne
  · exact .inl ⟨h1.trans hinit.lsn, h2.trans hinit.insert, h3.trans hinit.discard,
      h4.trans hinit.forceDiscard, h5.trans hinit.allocate, h6.trans hinit.recycle,
      h7.trans hinit.xid⟩
  · exact .inr (h2 ▸ hne)

lemma setSpace_sameMeta (z : UndoZone) (type : SpaceType) (usp : UndoSpace) :
    (z.setSpace type usp).zid = z.zid ∧ SameMeta z (z.setSpace type usp) := by
  cases type <;> exact ⟨rfl, rfl, rfl, rfl, rfl, rfl, rfl, rfl⟩

/-- Extending a space changes that space only. -/
lemma extendSpace_eq (z : UndoZone) (w : Wal) (type : SpaceType) (newInsert : Nat) :
    (∃ usp, (z.extendSpace w type newInsert).1 = z.setSpace type usp) ∧
      (z.extendSpace w type newInsert).2.lsnOf = w.lsnOf := by
  have hself : z.setSpace type (z.getSpace type) = z := by
    cases type <;> rfl
  simp only [UndoZone.extendSpace]
  split
  · split
    · exact ⟨⟨_, rfl⟩, rfl⟩
    · exact ⟨⟨_, rfl⟩, rfl⟩
  · exact ⟨⟨_, hself.symm⟩, rfl⟩

lemma releaseBelow_lsnOf (z : UndoZone) (w : Wal) (type : SpaceType) (endPtr : Nat) :
    (z.releaseBelow w type endPtr).2.lsnOf = w.lsnOf := by
  simp only [UndoZone.releaseBelow]
  split
  · split <;> rfl
  · rfl

lemma recyclePage_lsnOf (env : RecycleEnv) (z : UndoZone) (w : Wal) (start : Nat) (s : ScanState) :
    (recyclePage env z w start s).2.lsnOf = w.lsnOf := by
  have hlog : (logDiscard env (advanceZone z s) w start s).2.lsnOf = w.lsnOf := by
    rw [logDiscard]
    split <;> rfl
  simp only [recyclePage, UndoZone.releaseSpace, UndoZone.releaseSlotSpace, releaseBelow_lsnOf, hlog]

/-- Recycling keeps the insertion and allocation pointers and the widths of the others. -/
structure RecycleFrame (z : UndoZone) (w : Wal) (z' : UndoZone) (w' : Wal) : Prop where
  zid : z'.zid = z.zid
  insert : z'.insertURecPtr = z.insertURecPtr
  allocate : z'.allocateTSlotPtr = z.allocateTSlotPtr
  lsnOf : w'.lsnOf = w.lsnOf
  lsn : z'.lsn = z.lsn ∨ ∃ n, z'.lsn = w.lsnOf n
  xid_lt : z.recycleXid < 2 ^ 64 → z'.recycleXid < 2 ^ 64
  discard_lt : z.discardURecPtr < 2 ^ 44 → z'.discardURecPtr < 2 ^ 44
  force_lt : z.forceDiscardURecPtr < 2 ^ 44 → z'.forceDiscardURecPtr < 2 ^ 44
  recycle_lt : z.recycleTSlotPtr < 2 ^ 44 → z'.recycleTSlotPtr < 2 ^ 44

lemma RecycleFrame.refl (z : UndoZone) (w : Wal) : RecycleFrame z w z w :=
  ⟨rfl, rfl, rfl, rfl, .inl rfl, id, id, id, id⟩

variable {s : ScanState} {env : RecycleEnv} {r : RecycleResult}

lemma RecycleFrame.page (h : RecycleFrame z w z' w') (env : RecycleEnv) (start : Nat)
    (hxid : s.recycleXid < 2 ^ 64) :
    RecycleFrame z w (recyclePage env z' w' start s).1 (recyclePage env z' w' start s).2 := by
  have hdiscard : z'.discardURecPtr < 2 ^ 44 → (advanceZone z' s).discardURecPtr < 2 ^ 44 := by
    intro hlt
    simp only [advanceZone]
    split
    · exact getOffset_lt _
    · exact hlt
  have hfields : (advanceZone z' s).zid = z'.zid ∧
      (advanceZone z' s).insertURecPtr = z'.insertURecPtr ∧
      (advanceZone z' s).allocateTSlotPtr = z'.allocateTSlotPtr ∧ (advanceZone z' s).lsn = z'.lsn := by
    simp only [advanceZone]
    split <;> exact ⟨rfl, rfl, rfl, rfl⟩
  obtain ⟨lsn, dirty, usp, ssp, heq, -, hlsn⟩ := recyclePage_eq env z' w' start s
  have hwal := recyclePage_lsnOf env z' w' start s
  rw [heq]
  refine ⟨hfields.1.trans h.zid, hfields.2.1.trans h.insert, hfields.2.2.1.trans h.allocate,
    hwal.trans h.lsnOf, ?_, fun _ => hxid, fun hlt => hdiscard (h.discard_lt hlt),
    fun _ => getOffset_lt _, fun _ => getOffset_lt _⟩
  rcases hlsn with hsame | hnew
  · rw [hfields.2.2.2] at hsame
    rcases h.lsn with hz | ⟨n, hn⟩
    · exact .inl (hsame.trans hz)
    · exact .inr ⟨n, hsame.trans hn⟩
  · exact .inr ⟨w'.log.length, hnew.trans (congrFun h.lsnOf _)⟩

lemma scanPage_xid_lt (henv : ∀ p, (env.slots p).xactId < 2 ^ 64) {blk allocate fuel : Nat} {s' : ScanState}
    (hscan : scanPage env blk allocate fuel s = .ok s') (hs : s.recycleXid < 2 ^ 64) :
    s'.recycleXid < 2 ^ 64 := by
  induction fuel generalizing s with
  | zero => cases hscan
  | succ fuel ih =>
    rw [scanPage] at hscan
    split at hscan
    · split at hscan
      · cases hscan
        exact hs
      · cases hscan
      · exact ih hscan (henv _)
    · cases hscan
      exact hs

lemma recycleLoop_frame (henv : ∀ p, (env.slots p).xactId < 2 ^ 64) {allocate fuel : Nat}
    {r' : RecycleResult} (hloop : recycleLoop env allocate fuel s r = .ok r') (hs : s.recycleXid < 2 ^ 64)
    (h : RecycleFrame z w r.zone r.wal) : RecycleFrame z w r'.zone r'.wal := by
  induction fuel generalizing s r with
  | zero => cases hloop
  | succ fuel ih =>
    rw [recycleLoop] at hloop
    split at hloop
    swap
    · cases hloop
      exact h
    simp only [bind, Except.bind] at hloop
    split at hloop
    · cases hloop
    rename_i s₁ hscan
    have hs₁ : s₁.recycleXid < 2 ^ 64 := scanPage_xid_lt henv hscan hs
    split at hloop
    swap
    · cases hloop
      exact h
    split at hloop
    swap
    · cases hloop
    exact ih hloop hs₁ (h.page env s.recycle hs₁)

/-- An initial zone has nothing to recycle. -/
lemma recycleUndoSpace_initial (hinit : z.recycleTSlotPtr = z.allocateTSlotPtr)
    (h : recycleUndoSpace env z w = .ok r) : r.zone = z ∧ r.wal = w := by
  have hnot : ¬z.getRecycleTSlotPtr < z.getAllocateTSlotPtr := by
    rw [UndoZone.getRecycleTSlotPtr, UndoZone.getAllocateTSlotPtr, hinit]
    exact lt_irrefl _
  rw [recycleUndoSpace, recycleLoop, if_neg hnot] at h
  cases h
  exact ⟨rfl, rfl⟩

lemma MetaInv.recycle (h : MetaInv zid z) (hw : ∀ n, w.lsnOf n < 2 ^ 64)
    (henv : ∀ p, (env.slots p).xactId < 2 ^ 64) (hr : recycleUndoSpace env z w = .ok r) :
    MetaInv zid r.zone ∧ r.wal.lsnOf = w.lsnOf := by
  rcases h.moved with hinit | hne
  · obtain ⟨hz, hwal⟩ := recycleUndoSpace_initial (hinit.recycle.trans hinit.allocate.symm) hr
    rw [hz, hwal]
    exact ⟨h, rfl⟩
  · have h0 : 0 < 2 ^ 64 := by decide
    have hframe : RecycleFrame z w r.zone r.wal :=
      recycleLoop_frame henv hr h0 (RecycleFrame.refl z w)
    refine ⟨⟨hframe.zid.trans h.zid_eq, ?_, hframe.xid_lt h.xid_lt, hframe.discard_lt h.discard_lt,
      hframe.force_lt h.force_lt, hframe.allocate ▸ h.allocate_lt, hframe.recycle_lt h.recycle_lt,
      .inr (hframe.insert ▸ hne)⟩, hframe.lsnOf⟩
    rcases hframe.lsn with hsame | ⟨n, hn⟩
    · rw [hsame]
      exact h.lsn_lt
    · rw [hn]
      exact hw n

/-- The insertion pointer behind a record is not the initial one. -/
lemma plusUsableBytes_ne {lastRecord size : Nat}
    (hpage : undoLogBlockHeaderSize ≤ undoPtrGetPageOffset lastRecord) (hpos : 0 < size)
    (hsize : size < 2 ^ 32) :
    undoLogOffsetPlusUsableBytes (undoPtrGetOffset lastRecord) size ≠ undoLogBlockHeaderSize := by
  have hoff := getOffset_lt lastRecord
  rw [plusUsableBytes_eq hpage (by omega) (by omega)]
  simp only [usablePos, blcksz, undoLogBlockHeaderSize, undoLogUsableBytesPerPage]
  omega

lemma MetaInv.insertUndo (h : MetaInv zid z) {lastRecord lastRecordSize lsn : Nat}
    {slotPtr : Option Nat} (hvalid : ValidOp (.insertUndo lastRecord lastRecordSize slotPtr lsn))
    (hnext : insertUndoMeta z lastRecord lastRecordSize slotPtr lsn = some z') : MetaInv zid z' := by
  obtain ⟨hpage, hpos, hsize, hlsn⟩ := hvalid
  obtain ⟨z₁, hprep, hz'⟩ := Option.map_eq_some_iff.mp hnext
  obtain ⟨dirty, insert, hz₁, hinsert⟩ := prepareUndoMeta_eq hprep
  have hne := plusUsableBytes_ne hpage hpos hsize
  rw [← hinsert] at hne
  subst hz₁ hz'
  cases slotPtr with
  | none =>
    exact ⟨h.zid_eq, hlsn, h.xid_lt, h.discard_lt, h.force_lt, h.allocate_lt, h.recycle_lt, .inr hne⟩
  | some p =>
    exact ⟨h.zid_eq, hlsn, h.xid_lt, h.discard_lt, h.force_lt, getOffset_lt _, h.recycle_lt, .inr hne⟩

lemma MetaInv.step (h : MetaInv zid z) (hw : ∀ n, w.lsnOf n < 2 ^ 64) {op : PrimaryOp}
    (hvalid : ValidOp op) (hnext : primaryStep z w op = some (z', w')) :
    MetaInv zid z' ∧ w'.lsnOf = w.lsnOf := by
  have hspace : ∀ {p : UndoZone × Wal} {type : SpaceType},
      (∃ usp, p.1 = z.setSpace type usp) → p.2.lsnOf = w.lsnOf → p = (z', w') →
      MetaInv zid z' ∧ w'.lsnOf = w.lsnOf := by
    rintro p type ⟨usp, husp⟩ hlsn rfl
    obtain ⟨hzid, hsame⟩ := setSpace_sameMeta z type usp
    refine ⟨?_, hlsn⟩
    rw [show z' = z.setSpace type usp from husp]
    exact h.congr hzid hsame
  cases op with
  | allocateSpace size =>
    have hext := extendSpace_eq z w .undoLog (undoLogOffsetPlusUsableBytes z.insertURecPtr size)
    exact hspace hext.1 hext.2 (Option.some.inj hnext)
  | allocateSlotSpace =>
    have hext := extendSpace_eq z w .slot
      (undoLogOffsetPlusUsableBytes z.allocateTSlotPtr sizeofTransactionSlot)
    exact hspace hext.1 hext.2 (Option.some.inj hnext)
  | insertUndo lastRecord lastRecordSize slotPtr lsn =>
    obtain ⟨z₁, hins, heq⟩ := Option.map_eq_some_iff.mp hnext
    cases heq
    exact ⟨h.insertUndo hvalid hins, rfl⟩
  | recycleUndoSpace env =>
    obtain ⟨r, hres, heq⟩ := Option.map_eq_some_iff.mp hnext
    cases heq
    exact h.recycle hw hvalid (toOption_eq_some hres)
  | releaseSpace endurp =>
    obtain ⟨usp, husp, -⟩ := releaseBelow_eq z w .undoLog endurp
    exact hspace ⟨usp, husp⟩ (releaseBelow_lsnOf ..) (Option.some.inj hnext)
  | releaseSlotSpace endSlotPtr =>
    obtain ⟨usp, husp, -⟩ := releaseBelow_eq z w .slot endSlotPtr
    exact hspace ⟨usp, husp⟩ (releaseBelow_lsnOf ..) (Option.some.inj hnext)

lemma MetaInv.switch (h : MetaInv zid z) (hnext : z.prepareSwitch = some z') : MetaInv zid z' := by
  rw [UndoZone.prepareSwitch] at hnext
  split at hnext
  · cases hnext
  split at hnext
  · cases hnext
    exact ⟨h.zid_eq, h.lsn_lt, h.xid_lt, h.discard_lt, h.force_lt, h.allocate_lt, h.recycle_lt,
      .inr (by show undoLogMaxSize ≠ undoLogBlockHeaderSize; decide)⟩
  · cases hnext
    exact h

/-- Every reachable zone satisfies the invariant. -/
theorem ZoneReach.metaInv (h : ZoneReach zid z w) : MetaInv zid z ∧ ∀ n, w.lsnOf n < 2 ^ 64 := by
  induction h with
  | init hlsn => exact ⟨MetaInv.init zid, hlsn⟩
  | step _ hvalid hnext ih =>
    obtain ⟨hinv, hlsn⟩ := ih.1.step ih.2 hvalid hnext
    exact ⟨hinv, hlsn ▸ ih.2⟩
  | switch _ hnext ih => exact ⟨ih.1.switch hnext, ih.2⟩

end

/-! ## A zone that fills up -/

/-- Zone 0 after `n` records that fill a page each. -/
structure FilledPages (n : Nat) (z : UndoZone) : Prop where
  zid : z.zid = 0
  pLevel : z.pLevel = .permanent
  insert : z.insertURecPtr = usablePos (n * undoLogUsableBytesPerPage)
  force : z.forceDiscardURecPtr = undoLogBlockHeaderSize
  tail_mod : z.undoSpace.tail % undoLogSegmentSize = 0
  tail_le : z.undoSpace.tail ≤ undoLogMaxSize
  insert_le : 0 < n → z.insertURecPtr ≤ z.undoSpace.tail

/-- The tail is kept or moved to the end of the segment of the new insertion point. -/
lemma extendSpace_undoLog (z : UndoZone) (w : Wal) (newInsert : Nat) :
    ∃ usp : UndoSpace, (z.extendSpace w .undoLog newInsert).1 = { z with undoSpace := usp } ∧
      (z.undoSpace.tail < newInsert ∧
          usp.tail = newInsert + undoLogSegmentSize - newInsert % undoLogSegmentSize ∨
        newInsert ≤ z.undoSpace.tail ∧ usp = z.undoSpace) := by
  simp only [UndoZone.extendSpace]
  split
  next hgrow =>
    split
    · exact ⟨_, rfl, .inl ⟨hgrow, rfl⟩⟩
    · exact ⟨_, rfl, .inl ⟨hgrow, rfl⟩⟩
  next hgrow => exact ⟨z.undoSpace, rfl, .inr ⟨not_lt.mp hgrow, rfl⟩⟩

/-- The page ends of a zone are offsets of it. -/
lemma usablePos_page_lt {n : Nat} (hn : n < 2 ^ 31) : usablePos (n * undoLogUsableBytesPerPage) < undoLogMaxSize :=
  usablePos_lt_max.mpr (by simp only [zoneUsableBytes, undoLogUsableBytesPerPage]; omega)

/-- The usable bytes of one page further on is the next page end. -/
lemma plusUsableBytes_page {n : Nat} (hn : n < 2 ^ 31) :
    undoLogOffsetPlusUsableBytes (usablePos (n * undoLogUsableBytesPerPage)) undoLogUsableBytesPerPage =
      usablePos ((n + 1) * undoLogUsableBytesPerPage) := by
  rw [plusUsableBytes_eq (header_le_usablePos _) ((usablePos_page_lt hn).trans (by norm_num)) (by norm_num),
    usableNo_usablePos, Nat.succ_mul]

/-- Space for one more page. -/
lemma FilledPages.allocate {n : Nat} {z : UndoZone} (h : FilledPages n z) (w : Wal)
    (hn : n + 1 < 2 ^ 31) :
    ∃ usp : UndoSpace, (z.allocateSpace w undoLogUsableBytesPerPage).2.1 = { z with undoSpace := usp } ∧
      usp.tail % undoLogSegmentSize = 0 ∧ usp.tail ≤ undoLogMaxSize ∧
      usablePos ((n + 1) * undoLogUsableBytesPerPage) ≤ usp.tail := by
  have hnew : undoLogOffsetPlusUsableBytes z.insertURecPtr undoLogUsableBytesPerPage =
      usablePos ((n + 1) * undoLogUsableBytesPerPage) := by
    rw [h.insert, plusUsableBytes_page (Nat.lt_of_succ_lt hn)]
  have hmax := usablePos_page_lt hn
  rw [UndoZone.allocateSpace, hnew]
  obtain ⟨usp, hz, htail⟩ :=
    extendSpace_undoLog z w (usablePos ((n + 1) * undoLogUsableBytesPerPage))
  refine ⟨usp, hz, ?_⟩
  have hmod := h.tail_mod
  have hle := h.tail_le
  generalize usablePos ((n + 1) * undoLogUsableBytesPerPage) = x at hmax htail
  simp only [undoLogSegmentSize, undosegSize, blcksz, undoLogMaxSize] at *
  rcases htail with ⟨-, heq⟩ | ⟨hge, rfl⟩
  · refine ⟨?_, ?_, ?_⟩ <;> omega
  · exact ⟨hmod, hle, hge⟩

/-- One more page: `AllocateSpace`, then the insertion of the record. -/
lemma FilledPages.step {n : Nat} {z : UndoZone} {w : Wal} (h : FilledPages n z)
    (hreach : ZoneReach 0 z w) (hn : n + 1 < 2 ^ 31) :
    ∃ z' w', ZoneReach 0 z' w' ∧ FilledPages (n + 1) z' ∧ z'.dirty = true := by
  obtain ⟨usp, hz₁, hmod, hle, hin⟩ := h.allocate w hn
  have hop : ValidOp (.allocateSpace undoLogUsableBytesPerPage) := trivial
  have hreach₁ : ZoneReach 0 (z.allocateSpace w undoLogUsableBytesPerPage).2.1
      (z.allocateSpace w undoLogUsableBytesPerPage).2.2 := by
    refine .step hreach hop ?_
    rw [primaryStep, Prod.mk.eta]
  rw [hz₁] at hreach₁
  have hlt : usablePos (n * undoLogUsableBytesPerPage) < 2 ^ 44 := usablePos_page_lt (Nat.lt_of_succ_lt hn)
  have hoff : undoPtrGetOffset (makeUndoPtr 0 z.insertURecPtr) =
      usablePos (n * undoLogUsableBytesPerPage) := by
    rw [h.insert, getOffset_make_of_lt (by norm_num) hlt]
  have hnew := plusUsableBytes_page (Nat.lt_of_succ_lt hn)
  have hmax : usablePos ((n + 1) * undoLogUsableBytesPerPage) < 2 ^ 44 := usablePos_page_lt hn
  have hvalid : ValidOp (.insertUndo (makeUndoPtr 0 z.insertURecPtr) undoLogUsableBytesPerPage none 1) := by
    refine ⟨?_, by decide, by decide, by decide⟩
    rw [undoPtrGetPageOffset, hoff]
    exact header_le_usablePos _
  have hprep : UndoZone.prepareUndoMeta { z with undoSpace := usp } (makeUndoPtr 0 z.insertURecPtr)
      undoLogUsableBytesPerPage = some { z with
        undoSpace := usp, dirty := true
        insertURecPtr := usablePos ((n + 1) * undoLogUsableBytesPerPage) } := by
    have hge : ¬makeUndoPtr z.zid (usablePos ((n + 1) * undoLogUsableBytesPerPage)) <
        makeUndoPtr z.zid z.forceDiscardURecPtr := by
      rw [h.zid, h.force, makeUndoPtr_eq (by norm_num) hmax, makeUndoPtr_eq (by norm_num) (by norm_num)]
      simp only [usablePos, undoLogBlockHeaderSize]
      omega
    rw [UndoZone.prepareUndoMeta, hoff]
    simp only [if_pos h.pLevel, UndoZone.advanceInsertURecPtr, hnew, UndoZone.getInsertURecPtr,
      UndoZone.getForceDiscardURecPtr]
    rw [if_neg hge]
  have hnext : primaryStep { z with undoSpace := usp } (z.allocateSpace w undoLogUsableBytesPerPage).2.2
      (.insertUndo (makeUndoPtr 0 z.insertURecPtr) undoLogUsableBytesPerPage none 1) =
      some ({ z with
        undoSpace := usp, dirty := true, lsn := 1
        insertURecPtr := usablePos ((n + 1) * undoLogUsableBytesPerPage) },
        (z.allocateSpace w undoLogUsableBytesPerPage).2.2) := by
    rw [primaryStep, insertUndoMeta, hprep]
    rfl
  exact ⟨_, _, .step hreach₁ hvalid hnext, ⟨h.zid, h.pLevel, rfl, h.force, hmod, hle, fun _ => hin⟩, rfl⟩

/-- Zone 0 can be filled page by page up to its last page. -/
lemma exists_filledPages {n : Nat} (hpos : 0 < n) (hn : n < 2 ^ 31) :
    ∃ z w, ZoneReach 0 z w ∧ FilledPages n z ∧ z.dirty = true := by
  induction n with
  | zero => omega
  | succ n ih =>
    rcases Nat.eq_zero_or_pos n with rfl | hprev
    · have hinit : FilledPages 0 (initZone 0 .permanent) :=
        ⟨rfl, rfl, rfl, rfl, rfl, Nat.zero_le _, fun h => absurd h (lt_irrefl 0)⟩
      have hreach : ZoneReach 0 (initZone 0 .permanent) ⟨fun _ => 0, []⟩ := .init fun _ => by norm_num
      exact hinit.step hreach hn
    · obtain ⟨z, w, hreach, hfilled, -⟩ := ih hprev (by omega)
      exact hfilled.step hreach hn

/-- A zone that is filled to its last page is closed by `PrepareSwitch`. -/
lemma exists_exhausted : ∃ z w, ZoneReach 0 z w ∧ z.insertURecPtr = undoLogMaxSize ∧ z.dirty = true := by
  obtain ⟨z, w, hreach, hfilled, -⟩ := exists_filledPages (n := 2 ^ 31 - 1) (by norm_num) (by norm_num)
  have htail : z.undoSpace.tail = undoLogMaxSize := by
    have hmod := hfilled.tail_mod
    have hle := hfilled.tail_le
    have hin := hfilled.insert_le (by norm_num)
    rw [hfilled.insert] at hin
    simp only [usablePos, undoLogSegmentSize, undosegSize, blcksz, undoLogMaxSize,
      undoLogUsableBytesPerPage, undoLogBlockHeaderSize] at *
    omega
  refine ⟨{ z with dirty := true, insertURecPtr := undoLogMaxSize }, w, .switch hreach ?_, rfl, rfl⟩
  rw [UndoZone.prepareSwitch, if_neg (not_not.mpr htail), if_pos hfilled.pLevel]

end GaussKernel.Undo
