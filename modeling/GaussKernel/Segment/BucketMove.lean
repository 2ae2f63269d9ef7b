import GaussKernel.Lib.UpTo
import GaussKernel.Segment.ExtentUse

/-!
# Moving buckets

A hashbucket relation has a main head, and map blocks with an entry for every bucket of every fork. When buckets move,
their entries are copied to the map blocks of the destination and both main heads remember the transaction. Until it is
far in the past, the two relations refer to the same segments, and who is dropped decides by `redis_info` which of them
to free.

The block of a map entry may be read like a list of words that goes on behind its end: `words` says what stands behind
`redis_info.words` in memory.
-/

namespace GaussKernel.Segment

open Lib
open Function (update update_self update_of_ne)

/-! ## Bits of the moved buckets -/

abbrev BktBitMaxMapCnt : ℕ := 512

def setBktMapBit (words : ℕ → ℕ) (x : ℕ) : ℕ → ℕ := update words (x / 32) (words (x / 32) ||| 2 ^ (x % 32))

def getBktMapBit (words : ℕ → ℕ) (x : ℕ) : Bool := (words (x / 32)).testBit (x % 32)

/-- The bit that was set is read back. -/
lemma getBktMapBit_set_self (words : ℕ → ℕ) (x : ℕ) : getBktMapBit (setBktMapBit words x) x = true := by
  unfold getBktMapBit setBktMapBit
  rw [update_self, Nat.testBit_or, Nat.testBit_two_pow_self, Bool.or_true]

/-- Setting a bit clears none. -/
lemma getBktMapBit_set {words : ℕ → ℕ} {x y : ℕ} (h : getBktMapBit words y = true) :
    getBktMapBit (setBktMapBit words x) y = true := by
  unfold getBktMapBit setBktMapBit at *
  by_cases hword : y / 32 = x / 32
  · rw [hword] at h ⊢
    rw [update_self, Nat.testBit_or, h, Bool.true_or]
  · rwa [update_of_ne hword]

/-! ## The move -/

/-- A hashbucket relation, with the contents of the map blocks that its main head points to. -/
structure BktRelation where
  relNode : ℕ
  main : BktMainHead
  mapBlock : ℕ → BktHeadMapBlock

abbrev BktMapEntries : ℕ := BktMapBlockNumber * BktMapEntryNumberPerBlock

/-- The segment head of an entry, numbered over all forks. -/
def BktRelation.head (rel : BktRelation) (entry : ℕ) : ℕ :=
  (rel.mapBlock (entry / BktMapEntryNumberPerBlock)).headBlock (entry % BktMapEntryNumberPerBlock)

structure MoveCursor where
  cell : List ℕ
  words : ℕ → ℕ
  dmap : ℕ → BktHeadMapBlock

def BktHeadMapBlock.setHead (block : BktHeadMapBlock) (j head : ℕ) : BktHeadMapBlock :=
  { block with headBlock := update block.headBlock j head }

/-- One entry in the loop of `seg_move_buckets`. -/
def moveEntry (bucketList : List ℕ) (src : BktRelation) (i j : ℕ) (c : MoveCursor) : Option MoveCursor :=
  let buckets := i * BktMapEntryNumberPerBlock + j
  let bucketId := buckets % MAX_BUCKETMAPLEN
  let cell := if bucketId = 0 then bucketList else c.cell
  match cell with
  | [] => some { c with cell := [] }
  | bucket :: rest =>
    if bucket % 2 ^ 16 ≠ bucketId then some { c with cell := bucket :: rest }
    else
      let head := (src.mapBlock i).headBlock j
      if head ≠ InvalidBlockNumber then
        some ⟨rest, setBktMapBit c.words bucketId, update c.dmap i ((c.dmap i).setHead j head)⟩
      else if buckets < MAX_BUCKETMAPLEN then none
      else some { c with cell := rest }

def moveBlock (bucketList : List ℕ) (dest src : BktRelation) (i : ℕ) (c : MoveCursor) : Option MoveCursor :=
  if dest.main.bktMap i = InvalidBlockNumber ∨ src.main.bktMap i = InvalidBlockNumber then none
  else upTo (moveEntry bucketList src i) BktMapEntryNumberPerBlock c

/-- The words of a `redis_info` after they were cleared. -/
def clearWords (words : ℕ → ℕ) (w : ℕ) : ℕ := if w < BktBitMaxMapCnt then 0 else words w

/-- `seg_move_buckets`: the destination and the source afterwards. -/
def segMoveBuckets (redisXid : ℕ) (bucketList : List ℕ) (dest src : BktRelation) :
    Option (BktRelation × BktRelation) := do
  let c ← upTo (moveBlock bucketList dest src) BktMapBlockNumber
    ⟨[], clearWords dest.main.redisInfo.words, dest.mapBlock⟩
  some ({ dest with main := { dest.main with redisInfo := ⟨redisXid, BktBitMaxMapCnt, c.words⟩ }, mapBlock := c.dmap },
    { src with main := { src.main with redisInfo := ⟨redisXid, 0, clearWords src.main.redisInfo.words⟩ } })

/-! ## The drop -/

/-- `free_segment_extents`, from the last extent back. -/
def freeSegmentExtents (space : SegSpace) (forknum : ℕ) (head : SegmentHead) : ℕ → Option (List ExtentAddress)
  | 0 => some []
  | lastExtId + 1 => do
    let extBlk ← segExtentLocation space head lastExtId
    let level0 := if requireNewLevel0Page lastExtId then
        [⟨SEGMENT_HEAD_EXTENT_SIZE, MAIN_FORKNUM, head.level1Slots (extentIdToLevel1Slot lastExtId)⟩]
      else []
    let rest ← freeSegmentExtents space forknum head lastExtId
    some (⟨extentSizeByCount lastExtId, forknum, extBlk⟩ :: (level0 ++ rest))

/-- What `free_one_segment` frees. -/
def freeOneSegment (space : SegSpace) (forknum headBlocknum : ℕ) : Option (List ExtentAddress) := do
  let head ← space.segmentHead headBlocknum
  let extents ← freeSegmentExtents space forknum head head.nextents
  some (extents ++ [⟨SEGMENT_HEAD_EXTENT_SIZE, MAIN_FORKNUM, headBlocknum⟩])

/-- The extents that a drop has freed, and the bits that it has read. -/
structure DropResult where
  freed : List ExtentAddress
  bitsRead : List ℕ

/-- Whether segments are freed at all, and the bits of those that are not. -/
def redisCase (oldestXid : ℕ) (inProgress didCommit : ℕ → Bool) (info : SegRedisInfo) :
    Option (Bool × Option (ℕ → ℕ)) :=
  if info.redisXid = 0 then some (true, none)
  else if inProgress info.redisXid then none
  else if oldestXid < info.redisXid then
    if didCommit info.redisXid then some (info.nwords ≠ 0, none)
    else if info.nwords ≠ 0 then if info.nwords = BktBitMaxMapCnt then some (true, some info.words) else none
    else some (true, none)
  else some (true, none)

def dropEntry (space : SegSpace) (redisMap : Option (ℕ → ℕ)) (rel : BktRelation) (i k : ℕ) (r : DropResult) :
    Option DropResult :=
  let headBlocknum := (rel.mapBlock i).headBlock k
  let entry := i * BktMapEntryNumberPerBlock + k
  if headBlocknum = InvalidBlockNumber then some r
  else
    let r := { r with bitsRead := r.bitsRead ++ if redisMap.isSome then [entry] else [] }
    if redisMap.any (getBktMapBit · entry) then some r
    else do
      let extents ← freeOneSegment space (entry / MAX_BUCKETMAPLEN) headBlocknum
      some { r with freed := r.freed ++ extents }

def dropBlock (space : SegSpace) (freebucket : Bool) (redisMap : Option (ℕ → ℕ)) (rel : BktRelation) (i : ℕ)
    (r : DropResult) : Option DropResult :=
  if rel.main.bktMap i = InvalidBlockNumber then some r
  else do
    let r ← if freebucket then upTo (dropEntry space redisMap rel i) BktMapEntryNumberPerBlock r else some r
    some { r with freed := r.freed ++ [⟨SEGMENT_HEAD_EXTENT_SIZE, MAIN_FORKNUM, rel.main.bktMap i⟩] }

/-- `bucket_unlink_segment`. -/
def bucketUnlinkSegment (space : SegSpace) (oldestXid : ℕ) (inProgress didCommit : ℕ → Bool) (rel : BktRelation) :
    Option DropResult := do
  let (freebucket, redisMap) ← redisCase oldestXid inProgress didCommit rel.main.redisInfo
  let r ← upTo (dropBlock space freebucket redisMap rel) BktMapBlockNumber ⟨[], []⟩
  some { r with freed := r.freed ++ [⟨SEGMENT_HEAD_EXTENT_SIZE, MAIN_FORKNUM, rel.relNode⟩] }

/-! ## What a move leaves -/

variable {space : SegSpace} {rel dest src dest' src' : BktRelation} {bucketList : List ℕ} {c c' : MoveCursor}
  {i j k entry redisXid : ℕ}

/-- The head of a bucket stands in its map block. -/
lemma BktRelation.head_entry (hk : k < BktMapEntryNumberPerBlock) :
    rel.head (i * BktMapEntryNumberPerBlock + k) = (rel.mapBlock i).headBlock k := by
  have hdiv : (i * BktMapEntryNumberPerBlock + k) / BktMapEntryNumberPerBlock = i := by
    simp only [BktMapEntryNumberPerBlock] at *
    omega
  have hmod : (i * BktMapEntryNumberPerBlock + k) % BktMapEntryNumberPerBlock = k := by
    simp only [BktMapEntryNumberPerBlock] at *
    omega
  unfold BktRelation.head
  rw [hdiv, hmod]

/-- What an entry of the destination holds: what it held before, or what the source holds, and then its bit is set. -/
def EntryMoved (dest src : BktRelation) (c : MoveCursor) (i j : ℕ) : Prop :=
  (c.dmap i).headBlock j = (dest.mapBlock i).headBlock j ∨
    (c.dmap i).headBlock j = (src.mapBlock i).headBlock j ∧
      getBktMapBit c.words ((i * BktMapEntryNumberPerBlock + j) % MAX_BUCKETMAPLEN) = true

/-- A round keeps the entries that were moved. -/
lemma moveEntry_moved (h : ∀ i' j', EntryMoved dest src c i' j') (hmove : moveEntry bucketList src i j c = some c') :
    ∀ i' j', EntryMoved dest src c' i' j' := by
  unfold moveEntry at hmove
  dsimp only at hmove
  split at hmove
  · obtain rfl := Option.some_inj.mp hmove
    exact h
  · split at hmove
    · obtain rfl := Option.some_inj.mp hmove
      exact h
    · split at hmove
      · obtain rfl := Option.some_inj.mp hmove
        intro i' j'
        have hkeep : ∀ block : BktHeadMapBlock, block.headBlock j' = (c.dmap i').headBlock j' →
            block.headBlock j' = (dest.mapBlock i').headBlock j' ∨
              block.headBlock j' = (src.mapBlock i').headBlock j' ∧
                getBktMapBit (setBktMapBit c.words ((i * BktMapEntryNumberPerBlock + j) % MAX_BUCKETMAPLEN))
                  ((i' * BktMapEntryNumberPerBlock + j') % MAX_BUCKETMAPLEN) = true := by
          intro block hblock
          rw [hblock]
          exact (h i' j').imp_right fun hm => ⟨hm.1, getBktMapBit_set hm.2⟩
        by_cases hi : i' = i
        · subst hi
          by_cases hj : j' = j
          · subst hj
            refine .inr ⟨?_, getBktMapBit_set_self _ _⟩
            show (update c.dmap i' _ i').headBlock j' = _
            rw [update_self]
            exact update_self _ _ _
          · refine hkeep (update c.dmap i' _ i') ?_
            rw [update_self]
            exact update_of_ne hj _ _
        · refine hkeep (update c.dmap i _ i') ?_
          rw [update_of_ne hi]
      · split at hmove
        · cases hmove
        · obtain rfl := Option.some_inj.mp hmove
          exact h

/-- Only the words of the array are written. -/
lemma moveEntry_words (hmove : moveEntry bucketList src i j c = some c') {w : ℕ} (hw : BktBitMaxMapCnt ≤ w) :
    c'.words w = c.words w := by
  unfold moveEntry at hmove
  dsimp only at hmove
  split at hmove
  · obtain rfl := Option.some_inj.mp hmove
    rfl
  · split at hmove
    · obtain rfl := Option.some_inj.mp hmove
      rfl
    · split at hmove
      · obtain rfl := Option.some_inj.mp hmove
        refine update_of_ne ?_ _ _
        simp only [BktBitMaxMapCnt, MAX_BUCKETMAPLEN] at *
        omega
      · split at hmove
        · cases hmove
        · obtain rfl := Option.some_inj.mp hmove
          rfl

/-- The two relations after a move. -/
structure Moved (redisXid : ℕ) (dest src dest' src' : BktRelation) : Prop where
  relNode : dest'.relNode = dest.relNode ∧ src'.relNode = src.relNode
  bktMap : dest'.main.bktMap = dest.main.bktMap ∧ src'.main.bktMap = src.main.bktMap
  valid : ∀ i < BktMapBlockNumber, dest.main.bktMap i ≠ InvalidBlockNumber ∧ src.main.bktMap i ≠ InvalidBlockNumber
  mapBlock : src'.mapBlock = src.mapBlock
  redisXid : dest'.main.redisInfo.redisXid = redisXid ∧ src'.main.redisInfo.redisXid = redisXid
  nwords : dest'.main.redisInfo.nwords = BktBitMaxMapCnt ∧ src'.main.redisInfo.nwords = 0
  behind : ∀ w, BktBitMaxMapCnt ≤ w → dest'.main.redisInfo.words w = dest.main.redisInfo.words w
  entries : ∀ entry, dest'.head entry = dest.head entry ∨
    dest'.head entry = src.head entry ∧ getBktMapBit dest'.main.redisInfo.words (entry % MAX_BUCKETMAPLEN) = true

/-- What a move of buckets does when it succeeds. -/
lemma segMoveBuckets_spec (h : segMoveBuckets redisXid bucketList dest src = some (dest', src')) :
    Moved redisXid dest src dest' src' := by
  obtain ⟨c, hloop, heq⟩ := Option.bind_eq_some_iff.mp h
  cases heq
  have hinv := upTo_invariant
    (fun n c => (∀ i < n, dest.main.bktMap i ≠ InvalidBlockNumber ∧ src.main.bktMap i ≠ InvalidBlockNumber) ∧
      (∀ i j, EntryMoved dest src c i j) ∧
        ∀ w, BktBitMaxMapCnt ≤ w → c.words w = clearWords dest.main.redisInfo.words w)
    (fun i c c' _ hinv hblock => ?_) hloop
    ⟨fun i hi => absurd hi (Nat.not_lt_zero i), fun i j => .inl rfl, fun w _ => rfl⟩
  · obtain ⟨hvalid, hentries, hwords⟩ := hinv
    refine ⟨⟨rfl, rfl⟩, ⟨rfl, rfl⟩, hvalid, rfl, ⟨rfl, rfl⟩, ⟨rfl, rfl⟩, fun w hw => ?_, fun entry => ?_⟩
    · exact (hwords w hw).trans (if_neg (Nat.not_lt.mpr hw))
    · have hentry : entry / BktMapEntryNumberPerBlock * BktMapEntryNumberPerBlock +
          entry % BktMapEntryNumberPerBlock = entry := Nat.div_add_mod' entry _
      have hmoved := hentries (entry / BktMapEntryNumberPerBlock) (entry % BktMapEntryNumberPerBlock)
      rwa [EntryMoved, hentry] at hmoved
  · unfold moveBlock at hblock
    split at hblock
    · cases hblock
    · next hvalid =>
      obtain ⟨hd, hs⟩ := not_or.mp hvalid
      refine ⟨fun i' hi' => ?_, ?_⟩
      · rcases Nat.lt_succ_iff_lt_or_eq.mp hi' with hlt | rfl
        · exact hinv.1 i' hlt
        · exact ⟨hd, hs⟩
      · exact upTo_invariant
          (fun _ c => (∀ i j, EntryMoved dest src c i j) ∧
            ∀ w, BktBitMaxMapCnt ≤ w → c.words w = clearWords dest.main.redisInfo.words w)
          (fun j c c' _ hc hentry => ⟨moveEntry_moved hc.1 hentry,
            fun w hw => (moveEntry_words hentry hw).trans (hc.2 w hw)⟩) hblock hinv.2

/-! ## Moving bucket 0 -/

/-- The entries of bucket 0 before entry `m` were copied. -/
structure FirstMoved (src : BktRelation) (m : ℕ) (c : MoveCursor) : Prop where
  cell : c.cell = [] ∨ c.cell = [0]
  copied : ∀ i j, j < BktMapEntryNumberPerBlock → i * BktMapEntryNumberPerBlock + j < m →
    (i * BktMapEntryNumberPerBlock + j) % MAX_BUCKETMAPLEN = 0 →
    (src.mapBlock i).headBlock j ≠ InvalidBlockNumber → (c.dmap i).headBlock j = (src.mapBlock i).headBlock j

/-- A round for the first bucket succeeds. -/
lemma moveEntry_first (hmain : src.head 0 ≠ InvalidBlockNumber) (hj : j < BktMapEntryNumberPerBlock)
    (h : FirstMoved src (i * BktMapEntryNumberPerBlock + j) c) :
    ∃ c', moveEntry [0] src i j c = some c' ∧ FirstMoved src (i * BktMapEntryNumberPerBlock + (j + 1)) c' := by
  have hlast : ∀ {i' j'}, j' < BktMapEntryNumberPerBlock →
      i' * BktMapEntryNumberPerBlock + j' < i * BktMapEntryNumberPerBlock + (j + 1) →
      i' * BktMapEntryNumberPerBlock + j' < i * BktMapEntryNumberPerBlock + j ∨ i' = i ∧ j' = j := by
    intro i' j' hj' hlt
    simp only [BktMapEntryNumberPerBlock] at *
    omega
  unfold moveEntry
  dsimp only
  by_cases hzero : (i * BktMapEntryNumberPerBlock + j) % MAX_BUCKETMAPLEN = 0
  · rw [if_pos hzero]
    dsimp only
    rw [if_neg (by rw [hzero]; decide)]
    by_cases hvalid : (src.mapBlock i).headBlock j ≠ InvalidBlockNumber
    · rw [if_pos hvalid]
      refine ⟨_, rfl, .inl rfl, fun i' j' hj' hlt hzero' hvalid' => ?_⟩
      show (update c.dmap i _ i').headBlock j' = _
      by_cases hi : i' = i
      · subst hi
        rw [update_self]
        show update (c.dmap i').headBlock j _ j' = _
        rcases hlast hj' hlt with hbefore | ⟨-, rfl⟩
        · rw [update_of_ne (by rintro rfl; exact lt_irrefl _ hbefore)]
          exact h.copied i' j' hj' hbefore hzero' hvalid'
        · exact update_self _ _ _
      · rw [update_of_ne hi]
        exact h.copied i' j' hj' ((hlast hj' hlt).resolve_right fun heq => hi heq.1) hzero' hvalid'
    · rw [if_neg hvalid, if_neg]
      · refine ⟨_, rfl, .inl rfl, fun i' j' hj' hlt hzero' hvalid' => ?_⟩
        refine h.copied i' j' hj' ((hlast hj' hlt).resolve_right ?_) hzero' hvalid'
        rintro ⟨rfl, rfl⟩
        exact hvalid hvalid'
      · intro hsmall
        rw [Nat.mod_eq_of_lt hsmall] at hzero
        refine hvalid ?_
        rwa [← src.head_entry hj, hzero]
  · have hkeep : FirstMoved src (i * BktMapEntryNumberPerBlock + (j + 1)) c := by
      refine ⟨h.cell, fun i' j' hj' hlt hzero' hvalid' => ?_⟩
      refine h.copied i' j' hj' ((hlast hj' hlt).resolve_right ?_) hzero' hvalid'
      rintro ⟨rfl, rfl⟩
      exact hzero hzero'
    rw [if_neg hzero]
    obtain ⟨cell, words, dmap⟩ := c
    rcases h.cell with hcell | hcell
    · obtain rfl : cell = [] := hcell
      exact ⟨_, rfl, hkeep⟩
    · obtain rfl : cell = [0] := hcell
      dsimp only
      rw [if_pos (by rw [Nat.zero_mod]; exact Ne.symm hzero)]
      exact ⟨_, rfl, hkeep⟩

/-- A relation with a valid map gives its first bucket away. -/
lemma exists_moved_first (redisXid : ℕ) (dest src : BktRelation) (hmain : src.head 0 ≠ InvalidBlockNumber)
    (hvalid : ∀ i < BktMapBlockNumber, dest.main.bktMap i ≠ InvalidBlockNumber ∧
      src.main.bktMap i ≠ InvalidBlockNumber) :
    ∃ dest' src', segMoveBuckets redisXid [0] dest src = some (dest', src') ∧
      ∀ entry < BktMapEntries, entry % MAX_BUCKETMAPLEN = 0 → src.head entry ≠ InvalidBlockNumber →
        dest'.head entry = src.head entry := by
  obtain ⟨c, hloop, hc⟩ := upTo_total (n := BktMapBlockNumber) (f := moveBlock [0] dest src)
    (s := ⟨[], clearWords dest.main.redisInfo.words, dest.mapBlock⟩)
    (fun i c => FirstMoved src (i * BktMapEntryNumberPerBlock) c)
    (fun i c hi hc => by
      obtain ⟨c', hblock, hc'⟩ := upTo_total (n := BktMapEntryNumberPerBlock) (s := c) (f := moveEntry [0] src i)
        (fun j c => FirstMoved src (i * BktMapEntryNumberPerBlock + j) c)
        (fun j c hj hc => moveEntry_first hmain hj hc) (by rwa [Nat.add_zero])
      rw [← Nat.succ_mul] at hc'
      refine ⟨c', ?_, hc'⟩
      unfold moveBlock
      rwa [if_neg (not_or.mpr (hvalid i hi))])
    ⟨.inl rfl, fun i j _ hlt => by
      rw [Nat.zero_mul] at hlt
      exact absurd hlt (Nat.not_lt_zero _)⟩
  refine ⟨_, _, Option.bind_eq_some_iff.mpr ⟨c, hloop, rfl⟩, fun entry hentry hzero hhead => ?_⟩
  have hmod : entry % BktMapEntryNumberPerBlock < BktMapEntryNumberPerBlock := Nat.mod_lt _ (by decide)
  refine hc.copied _ _ hmod ?_ ?_ hhead
  · rwa [Nat.div_add_mod']
  · rwa [Nat.div_add_mod']

end GaussKernel.Segment
