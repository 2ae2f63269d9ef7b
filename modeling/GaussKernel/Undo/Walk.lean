import GaussKernel.Undo.RoundTrip

/-!
# The backward walk over undo records

Model of `UndoRecord::GetPrevRecordLen` (`access/ustore/knl_uundorecord.cpp`) and `GetPrevUrp`
(`access/ustore/undo/knl_uundoapi.cpp`). Every record ends with its own length, so that the record before
a pointer is found by reading two bytes backwards, over a page header if need be, and stepping back by
that length, plus one page header when the page the pointer is on does not hold the whole record.

`walkBack_place` shows that these steps undo the placement by `AdvanceUndoPtr`, as long as the records
stay inside the zone; `walkBack_insertPreparedUndo` applies it to the records that `InsertPreparedUndo`
wrote.
-/

namespace GaussKernel.Undo

open Lib

/-! ## Definitions -/

/-- The loop of `GetPrevRecordLen` that collects the bytes before a pointer, last byte first. Two bytes
    take at most one step to the previous page, so that four rounds are enough. -/
def prevLenLoop (pages : UndoPages) (zoneId : Nat) : Nat → Nat → Nat → Nat → List UInt8 → List UInt8
  | 0, _, _, _, prevLen => prevLen
  | fuel + 1, blk, pageOffset, byteToRead, prevLen =>
    if byteToRead = 0 then prevLen
    else
      let pageOffset := (pageOffset + 2 ^ 64 - 1) % 2 ^ 64
      if undoLogBlockHeaderSize ≤ pageOffset then
        prevLenLoop pages zoneId fuel blk pageOffset (byteToRead - 1)
          (pages zoneId blk pageOffset :: prevLen)
      else prevLenLoop pages zoneId fuel ((blk + 2 ^ 32 - 1) % 2 ^ 32) blcksz byteToRead prevLen

/-- C++ `UndoRecord::GetPrevRecordLen`: how far back the previous record starts; `none` is the `PANIC` on
    a length of zero. -/
def getPrevRecordLen (pages : UndoPages) (currUrp : Nat) : Option Nat :=
  let pageOffset := undoPtrGetPageOffset currUrp
  let precRecLen :=
    ofLE (prevLenLoop pages (undoPtrGetZoneId currUrp) 4 (undoPtrGetBlockNum currUrp) pageOffset 2 [])
  let precRecLen :=
    if (pageOffset + 2 ^ 64 - undoLogBlockHeaderSize) % 2 ^ 64 < precRecLen
    then (precRecLen + undoLogBlockHeaderSize) % 2 ^ 16 else precRecLen
  if precRecLen = 0 then none else some precRecLen

/-- C++ `GetPrevUrp`. -/
def getPrevUrp (pages : UndoPages) (currUrp : Nat) : Option Nat :=
  (getPrevRecordLen pages currUrp).map fun prevLen =>
    makeUndoPtr (undoPtrGetZoneId currUrp) ((undoPtrGetOffset currUrp + 2 ^ 64 - prevLen) % 2 ^ 64)

/-- The pointers that `n` steps back visit. -/
def walkBack (pages : UndoPages) : Nat → Nat → Option (List Nat)
  | 0, _ => some []
  | n + 1, urp => (getPrevUrp pages urp).bind fun prev => (walkBack pages n prev).map (prev :: ·)

/-- Records of the given sizes placed one after the other by `AdvanceUndoPtr`: their start pointers and
    the pointer just past the last one. -/
def placeRecords : Nat → List Nat → List Nat × Nat
  | urp, [] => ([], urp)
  | urp, size :: sizes =>
    let r := placeRecords (advanceUndoPtr urp size) sizes
    (urp :: r.1, r.2)

/-- The byte a pointer points at. -/
def byteAt (pages : UndoPages) (urp : Nat) : UInt8 :=
  pages (undoPtrGetZoneId urp) (undoPtrGetBlockNum urp) (undoPtrGetPageOffset urp)

/-- The two usable bytes before usable byte `n` of zone `z` hold the length `size`. -/
def LengthBefore (pages : UndoPages) (z n size : Nat) : Prop :=
  2 ≤ n ∧ [byteAt pages (ptrAt z (n - 2)), byteAt pages (ptrAt z (n - 1))] = toLE 2 size

instance (pages : UndoPages) (z n size : Nat) : Decidable (LengthBefore pages z n size) :=
  inferInstanceAs (Decidable (_ ∧ _))

/-- Every record placed from usable byte `n` on ends with its own length. -/
def EndWithLength (pages : UndoPages) (z : Nat) : Nat → List Nat → Prop
  | _, [] => True
  | n, size :: sizes =>
    LengthBefore pages z (n + size) size ∧ EndWithLength pages z (n + size) sizes

/-! ## One step back -/

variable {pages : UndoPages} {z n : Nat} {acc : List UInt8} {sizes : List Nat}

/-- A place inside the zone is on a page of that zone. -/
lemma placeAt_of_lt (z : Nat) (hn : n < zoneUsableBytes) :
    zoneAt z n = z ∧ blockAt n = n / undoLogUsableBytesPerPage := by
  constructor
  · rw [zoneAt, Nat.div_eq_of_lt hn, Nat.or_zero]
  · simp only [blockAt, zoneUsableBytes, undoLogUsableBytesPerPage] at *
    omega

/-- A placed byte inside the zone. -/
lemma byteAt_ptrAt (hz : z < 2 ^ 20) (hn : n < zoneUsableBytes) :
    byteAt pages (ptrAt z n) = pages z (n / undoLogUsableBytesPerPage)
      (undoLogBlockHeaderSize + n % undoLogUsableBytesPerPage) := by
  obtain ⟨hzone, hblk⟩ := placeAt_of_lt z hn
  rw [byteAt, getZoneId_ptrAt hz, getBlockNum_ptrAt hz, getPageOffset_ptrAt hz, hzone, hblk]

/-- A byte behind the page header is read from the page. -/
lemma prevLenLoop_read {fuel blk off need : Nat} (h : undoLogBlockHeaderSize < off) (hlt : off ≤ blcksz) :
    prevLenLoop pages z (fuel + 1) blk off (need + 1) acc =
      prevLenLoop pages z fuel blk (off - 1) need (pages z blk (off - 1) :: acc) := by
  simp only [undoLogBlockHeaderSize, blcksz] at h hlt
  have hoff : (off + 2 ^ 64 - 1) % 2 ^ 64 = off - 1 := by omega
  have hge : undoLogBlockHeaderSize ≤ off - 1 := by
    simp only [undoLogBlockHeaderSize]
    omega
  rw [prevLenLoop, if_neg (Nat.succ_ne_zero _)]
  simp only [hoff, if_pos hge, Nat.add_sub_cancel]

/-- At the page header the loop goes on at the end of the page before. -/
lemma prevLenLoop_move {fuel blk need : Nat} (hblk : blk < 2 ^ 31) :
    prevLenLoop pages z (fuel + 1) (blk + 1) undoLogBlockHeaderSize (need + 1) acc =
      prevLenLoop pages z fuel blk blcksz (need + 1) acc := by
  have hprev : (blk + 1 + 2 ^ 32 - 1) % 2 ^ 32 = blk := by omega
  rw [prevLenLoop, if_neg (Nat.succ_ne_zero _)]
  simp only [hprev]
  rw [if_neg (by decide)]

/-- With nothing left to read the loop ends. -/
lemma prevLenLoop_done {fuel blk off : Nat} : prevLenLoop pages z fuel blk off 0 acc = acc := by
  cases fuel <;> rfl

/-- The two bytes before a pointer are read, wherever the page boundary lies. -/
lemma prevLenLoop_two (hz : z < 2 ^ 20) (h2 : 2 ≤ n) (hn : n < zoneUsableBytes) :
    prevLenLoop pages z 4 (n / undoLogUsableBytesPerPage)
        (undoLogBlockHeaderSize + n % undoLogUsableBytesPerPage) 2 [] =
      [byteAt pages (ptrAt z (n - 2)), byteAt pages (ptrAt z (n - 1))] := by
  rw [byteAt_ptrAt hz (by omega), byteAt_ptrAt hz (by omega)]
  simp only [zoneUsableBytes] at hn
  have hmod : n % undoLogUsableBytesPerPage < undoLogUsableBytesPerPage := Nat.mod_lt _ (by decide)
  rcases Nat.lt_or_ge (n % undoLogUsableBytesPerPage) 2 with hlt | hge
  · -- a page boundary lies in front of one of the two bytes
    obtain ⟨q, hq⟩ : ∃ q, n / undoLogUsableBytesPerPage = q + 1 := by
      refine ⟨n / undoLogUsableBytesPerPage - 1, ?_⟩
      simp only [undoLogUsableBytesPerPage] at *
      omega
    have hqlt : q < 2 ^ 31 := by
      simp only [undoLogUsableBytesPerPage] at *
      omega
    rcases Nat.lt_or_ge (n % undoLogUsableBytesPerPage) 1 with h0 | h1
    · have hr : n % undoLogUsableBytesPerPage = 0 := by omega
      have e1 : (n - 1) / undoLogUsableBytesPerPage = q ∧ (n - 1) % undoLogUsableBytesPerPage = 8167 ∧
          (n - 2) / undoLogUsableBytesPerPage = q ∧ (n - 2) % undoLogUsableBytesPerPage = 8166 := by
        simp only [undoLogUsableBytesPerPage] at *
        omega
      obtain ⟨e1, e2, e3, e4⟩ := e1
      rw [hq, hr, Nat.add_zero, prevLenLoop_move hqlt, prevLenLoop_read (by decide) le_rfl,
        prevLenLoop_read (by decide) (by decide), prevLenLoop_done, e1, e2, e3, e4]
      rfl
    · have hr : n % undoLogUsableBytesPerPage = 1 := by omega
      have e1 : (n - 1) / undoLogUsableBytesPerPage = q + 1 ∧
          (n - 1) % undoLogUsableBytesPerPage = 0 ∧ (n - 2) / undoLogUsableBytesPerPage = q ∧
          (n - 2) % undoLogUsableBytesPerPage = 8167 := by
        simp only [undoLogUsableBytesPerPage] at *
        omega
      obtain ⟨e1, e2, e3, e4⟩ := e1
      rw [hq, hr, prevLenLoop_read (by decide) (by decide), Nat.add_sub_cancel, prevLenLoop_move hqlt,
        prevLenLoop_read (by decide) le_rfl, prevLenLoop_done, e1, e2, e3, e4]
      rfl
  · have e1 : (n - 1) / undoLogUsableBytesPerPage = n / undoLogUsableBytesPerPage ∧
        (n - 1) % undoLogUsableBytesPerPage = n % undoLogUsableBytesPerPage - 1 ∧
        (n - 2) / undoLogUsableBytesPerPage = n / undoLogUsableBytesPerPage ∧
        (n - 2) % undoLogUsableBytesPerPage = n % undoLogUsableBytesPerPage - 2 := by
      simp only [undoLogUsableBytesPerPage] at *
      omega
    obtain ⟨e1, e2, e3, e4⟩ := e1
    have hle : undoLogBlockHeaderSize + n % undoLogUsableBytesPerPage ≤ blcksz := by
      simp only [undoLogBlockHeaderSize, undoLogUsableBytesPerPage, blcksz] at *
      omega
    rw [prevLenLoop_read (by omega) hle, prevLenLoop_read (by omega) (by omega), prevLenLoop_done, e1,
      e2, e3, e4]
    congr 3
    · omega
    · omega

/-- One step back from the end of a record is its start. -/
lemma getPrevUrp_ptrAt {size : Nat} (hz : z < 2 ^ 20) (h1 : 1 ≤ size)
    (h2 : size ≤ undoLogUsableBytesPerPage) (hle : size ≤ n) (hn : n < zoneUsableBytes)
    (hlen : LengthBefore pages z n size) : getPrevUrp pages (ptrAt z n) = some (ptrAt z (n - size)) := by
  obtain ⟨hn2, hbytes⟩ := hlen
  obtain ⟨hzone, hblk⟩ := placeAt_of_lt z hn
  have hlt : size < 256 ^ 2 := by
    simp only [undoLogUsableBytesPerPage] at h2
    omega
  have hread : ofLE (prevLenLoop pages z 4 (n / undoLogUsableBytesPerPage)
      (undoLogBlockHeaderSize + n % undoLogUsableBytesPerPage) 2 []) = size := by
    rw [prevLenLoop_two hz hn2 hn, hbytes, ofLE_toLE_of_lt hlt]
  have hback : (undoLogBlockHeaderSize + n % undoLogUsableBytesPerPage + 2 ^ 64 -
      undoLogBlockHeaderSize) % 2 ^ 64 = n % undoLogUsableBytesPerPage := by
    simp only [undoLogBlockHeaderSize, undoLogUsableBytesPerPage] at *
    omega
  have hoff : n % zoneUsableBytes = n := Nat.mod_eq_of_lt hn
  rw [getPrevUrp, getPrevRecordLen]
  simp only [getZoneId_ptrAt hz, getBlockNum_ptrAt hz, getPageOffset_ptrAt hz, getOffset_ptrAt hz, hoff,
    hzone, hblk, hread, hback]
  have hpos : usablePos n < 2 ^ 44 := usablePos_lt_max.mpr hn
  split
  · -- the record starts on the page before
    rename_i hcross
    have hmod : (size + undoLogBlockHeaderSize) % 2 ^ 16 = size + undoLogBlockHeaderSize := by
      simp only [undoLogBlockHeaderSize, undoLogUsableBytesPerPage] at *
      omega
    have hstart : (usablePos n + 2 ^ 64 - (size + undoLogBlockHeaderSize)) % 2 ^ 64 =
        usablePos (n - size) := by
      simp only [usablePos, blcksz, undoLogBlockHeaderSize, undoLogUsableBytesPerPage] at *
      omega
    rw [hmod, if_neg (by omega), Option.map_some, hstart, ptrAt]
  · rename_i hsame
    have hstart : (usablePos n + 2 ^ 64 - size) % 2 ^ 64 = usablePos (n - size) := by
      simp only [usablePos, blcksz, undoLogBlockHeaderSize, undoLogUsableBytesPerPage] at *
      omega
    rw [if_neg (by omega), Option.map_some, hstart, ptrAt]

/-! ## The whole walk -/

/-- Placing records from a usable byte on. -/
lemma placeRecords_append (size : Nat) (hz : z < 2 ^ 20)
    (h : n + (sizes ++ [size]).sum < 2 * zoneUsableBytes) :
    placeRecords (ptrAt z n) (sizes ++ [size]) =
      ((placeRecords (ptrAt z n) sizes).1 ++ [ptrAt z (n + sizes.sum)],
        ptrAt z (n + (sizes ++ [size]).sum)) := by
  induction sizes generalizing n with
  | nil =>
    simp only [List.nil_append, List.sum_cons, List.sum_nil, Nat.add_zero] at h ⊢
    simp only [placeRecords, advanceUndoPtr_ptrAt hz h, List.nil_append]
  | cons s sizes ih =>
    simp only [List.cons_append, List.sum_cons] at h ⊢
    rw [placeRecords, placeRecords, advanceUndoPtr_ptrAt hz (by omega), ih (by omega)]
    simp only [List.cons_append, Nat.add_assoc]

/-- The pointer just past the last record. -/
lemma placeRecords_end (hz : z < 2 ^ 20) (h : n + sizes.sum < 2 * zoneUsableBytes) :
    (placeRecords (ptrAt z n) sizes).2 = ptrAt z (n + sizes.sum) := by
  rcases List.eq_nil_or_concat sizes with rfl | ⟨ss, s, rfl⟩
  · simp [placeRecords]
  · rw [List.concat_eq_append] at h ⊢
    rw [placeRecords_append s hz h]

/-- The last record of a sequence that ends with lengths. -/
lemma EndWithLength.append {pages : UndoPages} {z n size : Nat} {sizes : List Nat}
    (h : EndWithLength pages z n (sizes ++ [size])) :
    EndWithLength pages z n sizes ∧ LengthBefore pages z (n + sizes.sum + size) size := by
  induction sizes generalizing n with
  | nil => exact ⟨trivial, by simpa using h.1⟩
  | cons s sizes ih =>
    obtain ⟨hs, hrest⟩ := h
    obtain ⟨h1, h2⟩ := ih hrest
    refine ⟨⟨hs, h1⟩, ?_⟩
    rw [List.sum_cons, ← Nat.add_assoc]
    exact h2

/-- The walk from usable byte to usable byte. -/
lemma walkBack_ptrAt (hz : z < 2 ^ 20) (hsizes : ∀ s ∈ sizes, 1 ≤ s ∧ s ≤ undoLogUsableBytesPerPage)
    (hend : n + sizes.sum < zoneUsableBytes) (hlen : EndWithLength pages z n sizes) :
    walkBack pages sizes.length (ptrAt z (n + sizes.sum)) =
      some (placeRecords (ptrAt z n) sizes).1.reverse := by
  -- induction on the sequence from its last record on, in the order of the walk
  induction sizes using List.reverseRecOn with
  | nil => rfl
  | append_singleton sizes size ih =>
    obtain ⟨h1, h2⟩ := hsizes size (by simp)
    obtain ⟨hlen', hlast⟩ := hlen.append
    have hsum : (sizes ++ [size]).sum = sizes.sum + size := by simp
    have hend' : n + (sizes.sum + size) < zoneUsableBytes := by rwa [hsum] at hend
    have hprev := getPrevUrp_ptrAt hz h1 h2 (by omega) (by omega) hlast
    have hback : n + sizes.sum + size - size = n + sizes.sum := by omega
    rw [placeRecords_append size hz (by omega), hsum, ← Nat.add_assoc, List.length_append,
      List.length_singleton, walkBack, hprev, hback]
    simp only [Option.bind_some, List.reverse_append, List.reverse_singleton, List.singleton_append]
    rw [ih (fun s hs => hsizes s (by simp [hs])) (by omega) hlen', Option.map_some]

/-- The backward walk inverts the placement by `AdvanceUndoPtr`: from the pointer just past the last
    record it visits the start pointers of the records in reverse order, when the records end inside the
    zone, the bound that `CheckNeedSwitch` tests before undo space is allocated. -/
theorem walkBack_place {pages : UndoPages} {zid offset : Nat} {sizes : List Nat} (hz : zid < 2 ^ 20)
    (husable : undoLogBlockHeaderSize ≤ offset % blcksz)
    (hsizes : ∀ s ∈ sizes, 1 ≤ s ∧ s ≤ undoLogUsableBytesPerPage)
    (hend : usablePos (usableNo offset + sizes.sum) ≤ undoLogMaxSize)
    (hlen : EndWithLength pages zid (usableNo offset) sizes) :
    walkBack pages sizes.length (placeRecords (makeUndoPtr zid offset) sizes).2 =
      some (placeRecords (makeUndoPtr zid offset) sizes).1.reverse := by
  have hptr : makeUndoPtr zid offset = ptrAt zid (usableNo offset) := by
    rw [ptrAt, usablePos_usableNo husable]
  have hend' : usableNo offset + sizes.sum < zoneUsableBytes := usablePos_le_max.mp hend
  rw [hptr, placeRecords_end hz (by omega)]
  exact walkBack_ptrAt hz hsizes hend' hlen

/-- A record of 11 bytes whose length is cut by a page boundary, and one of 100 bytes after it. -/
theorem walkBack_place_straddle :
    walkBack (fun _ b i => if b = 0 ∧ i = 8191 then 11 else if b = 1 ∧ i = 123 then 100 else 0) 2
        (placeRecords (makeUndoPtr 3 8182) [11, 100]).2 =
      some [makeUndoPtr 3 8217, makeUndoPtr 3 8182] := by
  have hstarts : (placeRecords (makeUndoPtr 3 8182) [11, 100]).1 =
      [makeUndoPtr 3 8182, makeUndoPtr 3 8217] := by decide
  have hwalk := @walkBack_place
    (fun _ b i => if b = 0 ∧ i = 8191 then 11 else if b = 1 ∧ i = 123 then 100 else 0) 3 8182 [11, 100]
    (by decide) (by decide) (by decide) (by decide) ⟨by decide, by decide, trivial⟩
  rw [hstarts] at hwalk
  exact hwalk

/-- Without the bound the walk does not come back: a record of 40 bytes that starts ten bytes before the
    end of zone 1 ends, by `AdvanceUndoPtr`, at offset 54 of the same zone, and one step back from there
    is not its start. -/
theorem walkBack_past_zone_end :
    ¬ ∀ (pages : UndoPages) (zid offset : Nat) (sizes : List Nat), zid < 2 ^ 20 →
      offset < undoLogMaxSize → undoLogBlockHeaderSize ≤ offset % blcksz →
      (∀ s ∈ sizes, 1 ≤ s ∧ s ≤ undoLogUsableBytesPerPage) →
      EndWithLength pages zid (usableNo offset) sizes →
      walkBack pages sizes.length (placeRecords (makeUndoPtr zid offset) sizes).2 =
        some (placeRecords (makeUndoPtr zid offset) sizes).1.reverse := by
  intro h
  have hwalk := h (fun _ _ i => if i = 52 then 40 else 0) 1 (2 ^ 44 - 10) [40] (by decide) (by decide)
    (by decide) (by decide) ⟨by decide, trivial⟩
  revert hwalk
  decide

/-! ## The records of a vector -/

/-- A stored record is found byte by byte at its place. -/
lemma Stored.byte_eq {m k : Nat} {u : UndoRecord} (h : Stored z m u pages) (hz : z < 2 ^ 20)
    (hins : u.Insertable) (hk : k < u.rawSize) (hm : m + u.rawSize < zoneUsableBytes) :
    byteAt pages (ptrAt z (m + k)) = u.encode.getD k 0 := by
  have hlen := hins.encode_length
  have hsize := hins.size
  obtain ⟨hzone, hblk⟩ := placeAt_of_lt z (n := m) (by omega)
  obtain ⟨h1, h2⟩ := h.bytes
  rw [hzone, hblk, blcksz_sub] at h1 h2
  rw [byteAt_ptrAt hz (by omega)]
  rcases Nat.lt_or_ge k (undoLogUsableBytesPerPage - m % undoLogUsableBytesPerPage) with hlt | hge
  · have hb := Mem.read_eq_iff.mp h1 k (by rw [List.length_take]; omega)
    have hq : (m + k) / undoLogUsableBytesPerPage = m / undoLogUsableBytesPerPage ∧
        (m + k) % undoLogUsableBytesPerPage = m % undoLogUsableBytesPerPage + k := by
      simp only [undoLogUsableBytesPerPage] at *
      omega
    rw [hq.1, hq.2, ← Nat.add_assoc, hb, List.getD_eq_getElem?_getD, List.getD_eq_getElem?_getD,
      List.getElem?_take_of_lt hlt]
  · have hb := Mem.read_eq_iff.mp h2 (k - (undoLogUsableBytesPerPage - m % undoLogUsableBytesPerPage))
      (by rw [List.length_drop]; omega)
    have hq : (m + k) / undoLogUsableBytesPerPage = m / undoLogUsableBytesPerPage + 1 ∧
        (m + k) % undoLogUsableBytesPerPage =
          k - (undoLogUsableBytesPerPage - m % undoLogUsableBytesPerPage) := by
      simp only [undoLogUsableBytesPerPage] at *
      omega
    have hk' : undoLogUsableBytesPerPage - m % undoLogUsableBytesPerPage +
        (k - (undoLogUsableBytesPerPage - m % undoLogUsableBytesPerPage)) = k := by omega
    rw [hq.1, hq.2, hb, List.getD_eq_getElem?_getD, List.getD_eq_getElem?_getD, List.getElem?_drop, hk']

/-- A stored record ends with its length. -/
lemma Stored.lengthBefore {m : Nat} {u : UndoRecord} (h : Stored z m u pages) (hz : z < 2 ^ 20)
    (hins : u.Insertable) (hm : m + u.rawSize < zoneUsableBytes) :
    LengthBefore pages z (m + u.rawSize) u.rawSize := by
  have h38 : 38 ≤ u.rawSize := by
    unfold UndoRecord.rawSize
    omega
  have hlen := hins.encode_length
  rw [hins.encode_eq, List.length_append, toLE_length] at hlen
  have hb (k : Nat) (hk : k < 2) :
      byteAt pages (ptrAt z (m + (u.rawSize - 2 + k))) = (toLE 2 u.rawSize).getD k 0 := by
    rw [h.byte_eq hz hins (by omega) hm, hins.encode_eq, hins.recordSize_eq,
      List.getD_append_right _ _ _ _ (by omega)]
    congr 1
    omega
  refine ⟨by omega, ?_⟩
  have e0 : m + u.rawSize - 2 = m + (u.rawSize - 2 + 0) := by omega
  have e1 : m + u.rawSize - 1 = m + (u.rawSize - 2 + 1) := by omega
  rw [e0, e1, hb 0 (by norm_num), hb 1 (by norm_num)]
  rfl

/-- The sizes of the inserted records. -/
def insertedSizes (us : List UndoRecord) : List Nat :=
  (us.filter (·.needInsert)).map UndoRecord.rawSize

/-- The pointers of the inserted records. -/
def insertedUrps (us : List UndoRecord) : List Nat :=
  (us.filter (·.needInsert)).map UndoRecord.urp

/-- Stored records end with their lengths and stand where `AdvanceUndoPtr` places them. -/
lemma StoredFrom.place {m : Nat} {us : List UndoRecord} (h : StoredFrom z pages m us) (hz : z < 2 ^ 20)
    (hins : ∀ u ∈ us, u.needInsert = true → u.Insertable) (hm : m + insertSize us < zoneUsableBytes) :
    EndWithLength pages z m (insertedSizes us) ∧
      (placeRecords (ptrAt z m) (insertedSizes us)).1 = insertedUrps us := by
  induction us generalizing m with
  | nil => exact ⟨trivial, rfl⟩
  | cons u us ih =>
    have hins' : ∀ v ∈ us, v.needInsert = true → v.Insertable :=
      fun v hv => hins v (List.mem_cons_of_mem _ hv)
    rw [StoredFrom] at h
    by_cases hn : u.needInsert = true
    · rw [if_pos hn] at h
      obtain ⟨hurp, hst, hrest⟩ := h
      have hsum := insertSize_cons us hn
      rw [hsum] at hm
      obtain ⟨h1, h2⟩ := ih hrest hins' (by omega)
      have hsizes : insertedSizes (u :: us) = u.rawSize :: insertedSizes us := by
        simp [insertedSizes, hn]
      have hurps : insertedUrps (u :: us) = u.urp :: insertedUrps us := by simp [insertedUrps, hn]
      rw [hsizes, hurps, placeRecords, advanceUndoPtr_ptrAt hz (by omega), h2, hurp]
      exact ⟨⟨hst.lengthBefore hz (hins u List.mem_cons_self hn) (by omega), h1⟩, rfl⟩
    · rw [if_neg hn] at h
      have hsum := insertSize_skip us hn
      rw [hsum] at hm
      have hsizes : insertedSizes (u :: us) = insertedSizes us := by simp [insertedSizes, hn]
      have hurps : insertedUrps (u :: us) = insertedUrps us := by simp [insertedUrps, hn]
      rw [hsizes, hurps]
      exact ih h hins' hm

/-- From the pointer after a vector the walk visits exactly the records that `InsertPreparedUndo` wrote,
    last one first. -/
theorem walkBack_insertPreparedUndo (needSwitch inRecovery : Bool) (lsn undoPtr : Nat)
    (urecs : List UndoRecord) (pages : UndoPages) (hptr : undoPtr < 2 ^ 64)
    (hoff : undoLogBlockHeaderSize ≤ undoPtrGetPageOffset undoPtr) (hcount : urecs.length < 2 ^ 31)
    (hw : Writable (flagRecords needSwitch urecs))
    (hend : usableNo (undoPtrGetOffset undoPtr) + insertSize (flagRecords needSwitch urecs) <
      zoneUsableBytes) :
    ∃ recs ubuffers endPtr pages',
      prepareUndoRecord needSwitch false undoPtr urecs = some (recs, ubuffers, endPtr) ∧
      insertPreparedUndo inRecovery lsn ubuffers recs pages = some pages' ∧
      walkBack pages' (insertedUrps recs).length endPtr = some (insertedUrps recs).reverse := by
  have hz := getZoneId_lt hptr
  obtain ⟨recs, ub, hprep, hsame, hins, hrun⟩ := prepare_insert_spec hptr hoff hcount hw
  obtain ⟨pages', hinsert, hall⟩ := hrun inRecovery lsn recs.length pages
  rw [List.take_length] at hinsert hall
  rw [← insertSize_same hsame] at hend
  obtain ⟨hlen, hplace⟩ := hall.place hz hins hend
  have hsizes : ∀ s ∈ insertedSizes recs, 1 ≤ s ∧ s ≤ undoLogUsableBytesPerPage := by
    intro s hs
    obtain ⟨u, hu, rfl⟩ := List.mem_map.mp hs
    obtain ⟨hmem, hn⟩ := List.mem_filter.mp hu
    exact ⟨u.rawSize_pos, (hins u hmem hn).size⟩
  refine ⟨recs, ub, _, pages', hprep, hinsert, ?_⟩
  have hwalk := walkBack_ptrAt hz hsizes hend hlen
  have hcnt : (insertedSizes recs).length = (insertedUrps recs).length := by
    simp [insertedSizes, insertedUrps]
  rw [hplace, hcnt] at hwalk
  exact hwalk

end GaussKernel.Undo
