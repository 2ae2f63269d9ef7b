import GaussKernel.Lib.Pieces
import GaussKernel.Segment.BucketMove

/-!
# Dropping after a move

What both drops free, and that they free it once unless an aborted move leaves the destination with segments beyond the
main fork.
-/

namespace GaussKernel.Segment

open Lib

variable {space : SegSpace} {rel dest src dest' src' : BktRelation} {bucketList : List ℕ} {i k entry redisXid : ℕ}

/-! ## What a drop frees -/

/-- What a hashbucket relation has extents for. -/
inductive BktUse
  | mainHead
  | mapBlock (i : ℕ)
  | segment (entry : ℕ)

def BktRelation.extents (space : SegSpace) (rel : BktRelation) : BktUse → List ExtentAddress
  | .mainHead => [⟨SEGMENT_HEAD_EXTENT_SIZE, MAIN_FORKNUM, rel.relNode⟩]
  | .mapBlock i => [⟨SEGMENT_HEAD_EXTENT_SIZE, MAIN_FORKNUM, rel.main.bktMap i⟩]
  | .segment entry =>
    if rel.head entry = InvalidBlockNumber then []
    else (freeOneSegment space (entry / MAX_BUCKETMAPLEN) (rel.head entry)).getD []

/-- Every entry is that of a segment. -/
def BktRelation.Readable (space : SegSpace) (rel : BktRelation) : Prop :=
  ∀ entry < BktMapEntries, rel.head entry ≠ InvalidBlockNumber →
    (freeOneSegment space (entry / MAX_BUCKETMAPLEN) (rel.head entry)).isSome

def blockSegments (i n : ℕ) : List BktUse :=
  (List.range n).map fun k => .segment (i * BktMapEntryNumberPerBlock + k)

def blockOrder (freebucket : Bool) (i : ℕ) : List BktUse :=
  (if freebucket then blockSegments i BktMapEntryNumberPerBlock else []) ++ [.mapBlock i]

/-- The uses in the order in which a drop visits them. -/
def dropOrder (freebucket : Bool) : List BktUse :=
  (List.range BktMapBlockNumber).flatMap (blockOrder freebucket) ++ [.mainHead]

/-- The extents that a drop frees for one use. -/
def dropped (space : SegSpace) (redisMap : Option (ℕ → ℕ)) (rel : BktRelation) : BktUse → List ExtentAddress
  | .segment entry => if redisMap.any (getBktMapBit · entry) then [] else rel.extents space (.segment entry)
  | u => rel.extents space u

def bitRead (redisMap : Option (ℕ → ℕ)) (rel : BktRelation) : BktUse → List ℕ
  | .segment entry => if rel.head entry = InvalidBlockNumber then [] else if redisMap.isSome then [entry] else []
  | _ => []

/-- The result after some more uses were visited. -/
def DropResult.visit (space : SegSpace) (redisMap : Option (ℕ → ℕ)) (rel : BktRelation) (us : List BktUse)
    (r : DropResult) : DropResult :=
  ⟨r.freed ++ us.flatMap (dropped space redisMap rel), r.bitsRead ++ us.flatMap (bitRead redisMap rel)⟩

variable {redisMap : Option (ℕ → ℕ)} {freebucket : Bool} {r : DropResult} {us vs : List BktUse}

lemma DropResult.visit_nil : r.visit space redisMap rel [] = r := by
  unfold visit
  simp only [List.flatMap_nil, List.append_nil]

lemma DropResult.visit_visit :
    (r.visit space redisMap rel us).visit space redisMap rel vs = r.visit space redisMap rel (us ++ vs) := by
  unfold visit
  simp only [List.flatMap_append, List.append_assoc]

lemma DropResult.freed_visit :
    (DropResult.visit space redisMap rel us ⟨[], []⟩).freed = us.flatMap (dropped space redisMap rel) := rfl

lemma DropResult.bitsRead_visit (space : SegSpace) :
    (DropResult.visit space redisMap rel us ⟨[], []⟩).bitsRead = us.flatMap (bitRead redisMap rel) := rfl

lemma dropEntry_spec (hread : rel.Readable space) (hi : i < BktMapBlockNumber) (hk : k < BktMapEntryNumberPerBlock) :
    dropEntry space redisMap rel i k r =
      some (r.visit space redisMap rel [.segment (i * BktMapEntryNumberPerBlock + k)]) := by
  have hhead : rel.head (i * BktMapEntryNumberPerBlock + k) = (rel.mapBlock i).headBlock k := rel.head_entry hk
  have hbound : i * BktMapEntryNumberPerBlock + k < BktMapEntries := by
    simp only [BktMapEntries, BktMapBlockNumber, BktMapEntryNumberPerBlock] at *
    omega
  have hread := hread _ hbound
  unfold dropEntry DropResult.visit
  rw [List.flatMap_singleton, List.flatMap_singleton]
  unfold dropped bitRead BktRelation.extents
  rw [hhead] at hread
  simp only [hhead]
  by_cases hinvalid : (rel.mapBlock i).headBlock k = InvalidBlockNumber
  · simp only [if_pos hinvalid, ite_self, List.append_nil]
  · simp only [if_neg hinvalid]
    by_cases hbit : redisMap.any (getBktMapBit · (i * BktMapEntryNumberPerBlock + k)) = true
    · simp only [if_pos hbit, List.append_nil]
    · obtain ⟨extents, hext⟩ := Option.isSome_iff_exists.mp (hread hinvalid)
      simp only [if_neg hbit, hext, Option.bind_eq_bind, Option.bind_some, Option.getD_some]

lemma dropBlock_spec (hread : rel.Readable space) (hi : i < BktMapBlockNumber)
    (hvalid : rel.main.bktMap i ≠ InvalidBlockNumber) :
    dropBlock space freebucket redisMap rel i r =
      some (r.visit space redisMap rel (blockOrder freebucket i)) := by
  have hmap : ∀ r : DropResult, some { r with
      freed := r.freed ++ [⟨SEGMENT_HEAD_EXTENT_SIZE, MAIN_FORKNUM, rel.main.bktMap i⟩] } =
        some (r.visit space redisMap rel [.mapBlock i]) := by
    intro r
    unfold DropResult.visit
    rw [List.flatMap_singleton, List.flatMap_singleton]
    simp only [dropped, bitRead, BktRelation.extents, List.append_nil]
  unfold dropBlock blockOrder
  rw [if_neg hvalid]
  cases freebucket with
  | false => exact hmap r
  | true =>
    obtain ⟨r', hloop, hr'⟩ := upTo_total (n := BktMapEntryNumberPerBlock) (s := r)
      (f := dropEntry space redisMap rel i)
      (fun n r' => r' = r.visit space redisMap rel (blockSegments i n))
      (fun k r' hk hr' => ⟨_, dropEntry_spec hread hi hk, by
        rw [hr', DropResult.visit_visit, blockSegments, blockSegments, List.range_succ, List.map_append,
          List.map_singleton]⟩)
      DropResult.visit_nil.symm
    simp only [if_true, hloop, Option.bind_eq_bind, Option.bind_some, hr']
    rw [hmap, DropResult.visit_visit]

lemma bucketUnlinkSegment_spec {oldestXid : ℕ} {inProgress didCommit : ℕ → Bool} (hread : rel.Readable space)
    (hvalid : ∀ i < BktMapBlockNumber, rel.main.bktMap i ≠ InvalidBlockNumber)
    (hcase : redisCase oldestXid inProgress didCommit rel.main.redisInfo = some (freebucket, redisMap)) :
    bucketUnlinkSegment space oldestXid inProgress didCommit rel =
      some (DropResult.visit space redisMap rel (dropOrder freebucket) ⟨[], []⟩) := by
  obtain ⟨r', hloop, hr'⟩ := upTo_total (n := BktMapBlockNumber) (s := (⟨[], []⟩ : DropResult))
    (f := dropBlock space freebucket redisMap rel)
    (fun n r' => r' = DropResult.visit space redisMap rel ((List.range n).flatMap (blockOrder freebucket)) ⟨[], []⟩)
    (fun i r' hi hr' => ⟨_, dropBlock_spec hread hi (hvalid i hi), by
      rw [hr', DropResult.visit_visit, List.range_succ, List.flatMap_append, List.flatMap_singleton]⟩)
    DropResult.visit_nil.symm
  unfold bucketUnlinkSegment dropOrder
  rw [hcase, ← DropResult.visit_visit, ← hr']
  simp only [Option.bind_eq_bind, Option.bind_some, hloop]
  unfold DropResult.visit
  rw [List.flatMap_singleton, List.flatMap_singleton]
  simp only [dropped, bitRead, BktRelation.extents, List.append_nil]

/-! ## Both drops -/

lemma mem_blockOrder {u : BktUse} :
    u ∈ blockOrder freebucket i ↔
      u = .mapBlock i ∨ freebucket = true ∧ ∃ k < BktMapEntryNumberPerBlock,
        u = .segment (i * BktMapEntryNumberPerBlock + k) := by
  unfold blockOrder blockSegments
  cases freebucket with
  | false => simp only [Bool.false_eq_true, if_false, List.nil_append, List.mem_singleton, false_and, or_false]
  | true =>
    simp only [if_true, List.mem_append, List.mem_map, List.mem_range, List.mem_singleton, true_and]
    constructor
    · rintro (⟨k, hk, rfl⟩ | rfl)
      · exact .inr ⟨k, hk, rfl⟩
      · exact .inl rfl
    · rintro (rfl | ⟨k, hk, rfl⟩)
      · exact .inr rfl
      · exact .inl ⟨k, hk, rfl⟩

lemma segment_mem_dropOrder (h : entry < BktMapEntries) : .segment entry ∈ dropOrder true := by
  have hdiv : entry / BktMapEntryNumberPerBlock < BktMapBlockNumber :=
    Nat.div_lt_of_lt_mul (by rwa [Nat.mul_comm])
  refine List.mem_append_left _ (List.mem_flatMap.mpr ⟨_, List.mem_range.mpr hdiv, mem_blockOrder.mpr (.inr ?_)⟩)
  exact ⟨rfl, entry % BktMapEntryNumberPerBlock, Nat.mod_lt _ (by decide), by rw [Nat.div_add_mod']⟩

lemma lt_of_segment_mem (h : .segment entry ∈ dropOrder freebucket) : entry < BktMapEntries := by
  rcases List.mem_append.mp h with hblock | hmain
  · obtain ⟨i, hi, hmem⟩ := List.mem_flatMap.mp hblock
    rw [List.mem_range] at hi
    rcases mem_blockOrder.mp hmem with hmap | ⟨-, k, hk, heq⟩
    · cases hmap
    · cases heq
      simp only [BktMapEntries, BktMapBlockNumber, BktMapEntryNumberPerBlock] at *
      omega
  · cases List.mem_singleton.mp hmain

def withoutSegments {α : Type*} (f : BktUse → List α) : BktUse → List α
  | .segment _ => []
  | u => f u

lemma dropOrder_false {α : Type*} (f : BktUse → List α) :
    (dropOrder false).flatMap f = (dropOrder true).flatMap (withoutSegments f) := by
  have hnil : ∀ i, (blockSegments i BktMapEntryNumberPerBlock).flatMap (withoutSegments f) = [] := by
    intro i
    refine List.flatMap_eq_nil_iff.mpr fun u hu => ?_
    obtain ⟨k, -, rfl⟩ := List.mem_map.mp hu
    rfl
  have hblock : ∀ i, (blockOrder false i).flatMap f = (blockOrder true i).flatMap (withoutSegments f) := by
    intro i
    unfold blockOrder
    rw [List.flatMap_append, List.flatMap_append, if_pos rfl, hnil]
    rfl
  unfold dropOrder
  rw [List.flatMap_append, List.flatMap_append, List.flatMap_assoc, List.flatMap_assoc, funext hblock]
  rfl

/-- Two relations with extents of their own. -/
structure Apart (space : SegSpace) (dest src : BktRelation) : Prop where
  readable : dest.Readable space ∧ src.Readable space
  nodup : ((dropOrder true).flatMap (dest.extents space) ++ (dropOrder true).flatMap (src.extents space)).Nodup

/-- Both drops come to their end, none frees what the other relation owns, nothing is freed twice, and no word is read
behind the array. -/
def DropsOnce (space : SegSpace) (oldestXid : ℕ) (inProgress didCommit : ℕ → Bool) (redisXid : ℕ)
    (dest src : BktRelation) : Prop :=
  ∃ rd rs, bucketUnlinkSegment space oldestXid inProgress didCommit dest = some rd ∧
    bucketUnlinkSegment space oldestXid inProgress didCommit src = some rs ∧
    (didCommit redisXid = false → ∀ entry < BktMapEntries, (src.extents space (.segment entry)).Disjoint rd.freed) ∧
    (didCommit redisXid = true → ∀ entry < BktMapEntries, (dest.extents space (.segment entry)).Disjoint rs.freed) ∧
    (rd.freed ++ rs.freed).Nodup ∧ ∀ x ∈ rd.bitsRead ++ rs.bitsRead, x / 32 < BktBitMaxMapCnt

section

variable {oldestXid : ℕ} {inProgress didCommit : ℕ → Bool}

lemma Moved.readable (hmoved : Moved redisXid dest src dest' src') (happart : Apart space dest src) :
    dest'.Readable space ∧ src'.Readable space := by
  obtain ⟨hd, hs⟩ := happart.readable
  have hsrc : src'.head = src.head := funext fun entry => by unfold BktRelation.head; rw [hmoved.mapBlock]
  refine ⟨fun entry hentry hvalid => ?_, fun entry hentry hvalid => ?_⟩
  · rcases hmoved.entries entry with heq | ⟨heq, -⟩
    · rw [heq] at hvalid ⊢
      exact hd entry hentry hvalid
    · rw [heq] at hvalid ⊢
      exact hs entry hentry hvalid
  · rw [hsrc] at hvalid ⊢
    exact hs entry hentry hvalid

lemma Moved.extents_src (hmoved : Moved redisXid dest src dest' src') : src'.extents space = src.extents space := by
  have hsrc : src'.head = src.head := funext fun entry => by unfold BktRelation.head; rw [hmoved.mapBlock]
  funext u
  cases u with
  | mainHead => simp only [BktRelation.extents, hmoved.relNode.2]
  | mapBlock i => simp only [BktRelation.extents, hmoved.bktMap.2]
  | segment entry => simp only [BktRelation.extents, hsrc]

/-- A use of the destination has its own extents, or it is a moved segment of the source. -/
lemma Moved.extents_dest (hmoved : Moved redisXid dest src dest' src') (u : BktUse) :
    dest'.extents space u = dest.extents space u ∨
      ∃ entry, u = .segment entry ∧ dest'.extents space u = src.extents space u ∧
        getBktMapBit dest'.main.redisInfo.words (entry % MAX_BUCKETMAPLEN) = true := by
  cases u with
  | mainHead => simp only [BktRelation.extents, hmoved.relNode.1, true_or]
  | mapBlock i => simp only [BktRelation.extents, hmoved.bktMap.1, true_or]
  | segment entry =>
    rcases hmoved.entries entry with heq | ⟨heq, hbit⟩
    · left
      simp only [BktRelation.extents, heq]
    · refine .inr ⟨entry, rfl, ?_, hbit⟩
      simp only [BktRelation.extents, heq]

lemma dropped_none : dropped space none rel = rel.extents space := by
  funext u
  cases u <;> rfl

lemma bitRead_none : bitRead none rel = fun _ => [] := by
  funext u
  cases u with
  | segment entry => exact ite_self _
  | mainHead | mapBlock i => rfl

lemma no_bitsRead {x : ℕ} : x ∉ us.flatMap (bitRead none rel) := by
  rw [bitRead_none]
  simp only [List.mem_flatMap, List.not_mem_nil, and_false, exists_false, not_false_iff]

section

variable (hmoved : Moved redisXid dest src dest' src')
include hmoved

/-- After a commit a segment goes with the destination only. -/
lemma Moved.nodup_committed (happart : Apart space dest src) :
    ((dropOrder true).flatMap (dest'.extents space) ++
      (dropOrder true).flatMap (withoutSegments (src.extents space))).Nodup := by
  classical
  refine nodup_pieces happart.nodup fun u _ x => ?_
  rw [List.count_append, List.count_append]
  rcases hmoved.extents_dest u with heq | ⟨entry, rfl, heq, -⟩
  · rw [heq]
    refine Nat.add_le_add_left ?_ _
    cases u with
    | segment entry => exact Nat.zero_le _
    | mainHead | mapBlock i => exact le_refl _
  · rw [heq, Nat.add_comm]
    exact Nat.add_le_add_right (Nat.zero_le _) _

lemma Moved.committed_disjoint (happart : Apart space dest src) (hentry : entry < BktMapEntries) :
    (dest'.extents space (.segment entry)).Disjoint
      ((dropOrder true).flatMap (withoutSegments (src.extents space))) := by
  intro x hdest hsrc
  obtain ⟨u, hu, hx⟩ := List.mem_flatMap.mp hsrc
  have hsegment := segment_mem_dropOrder hentry
  have hx : (∀ e, u ≠ .segment e) ∧ x ∈ src.extents space u := by
    cases u with
    | segment e => cases hx
    | mainHead => exact ⟨fun _ h => (nomatch h), hx⟩
    | mapBlock i => exact ⟨fun _ h => (nomatch h), hx⟩
  rcases hmoved.extents_dest (.segment entry) with heq | ⟨-, -, heq, -⟩
  · exact pieces_apart happart.nodup hsegment hu (heq ▸ hdest) hx.2
  · exact pieces_disjoint (List.nodup_append.mp happart.nodup).2.1 hsegment hu (hx.1 entry).symm (heq ▸ hdest) hx.2

/-- After an abort the destination frees its own segments only, if nothing is beyond the main fork. -/
lemma Moved.dropped_own (space : SegSpace)
    (hfork : ∀ entry, MAX_BUCKETMAPLEN ≤ entry → entry < BktMapEntries → dest'.head entry = InvalidBlockNumber)
    {u : BktUse} (hu : u ∈ dropOrder true) :
    dropped space (some dest'.main.redisInfo.words) dest' u = [] ∨
      dropped space (some dest'.main.redisInfo.words) dest' u = dest.extents space u := by
  rcases hmoved.extents_dest u with heq | ⟨entry, rfl, -, hbit⟩
  · cases u with
    | segment entry =>
      rw [← heq]
      unfold dropped
      exact ite_eq_or_eq _ _ _
    | mainHead => exact .inr heq
    | mapBlock i => exact .inr heq
  · left
    unfold dropped
    by_cases hmain : entry < MAX_BUCKETMAPLEN
    · rw [Nat.mod_eq_of_lt hmain] at hbit
      exact if_pos hbit
    · have hinvalid := hfork entry (Nat.le_of_not_lt hmain) (lt_of_segment_mem hu)
      unfold BktRelation.extents
      dsimp only
      rw [if_pos hinvalid, ite_self]

/-- What both drops do, when the transaction is over and `oldestXid` still precedes it. -/
lemma Moved.drops (happart : Apart space dest src) (didCommit : ℕ → Bool) (hxid : redisXid ≠ 0)
    (hended : inProgress redisXid = false) (hold : oldestXid < redisXid) :
    bucketUnlinkSegment space oldestXid inProgress didCommit dest' = some (DropResult.visit space
      (if didCommit redisXid then none else some dest'.main.redisInfo.words) dest' (dropOrder true) ⟨[], []⟩) ∧
    bucketUnlinkSegment space oldestXid inProgress didCommit src' =
      some (DropResult.visit space none src' (dropOrder (!didCommit redisXid)) ⟨[], []⟩) := by
  obtain ⟨hread, hread'⟩ := hmoved.readable happart
  refine ⟨bucketUnlinkSegment_spec hread ?_ ?_, bucketUnlinkSegment_spec hread' ?_ ?_⟩
  · intro i hi
    rw [hmoved.bktMap.1]
    exact (hmoved.valid i hi).1
  · unfold redisCase
    rw [hmoved.redisXid.1, hmoved.nwords.1, if_neg hxid, hended, if_neg Bool.false_ne_true, if_pos hold]
    cases didCommit redisXid <;> rfl
  · intro i hi
    rw [hmoved.bktMap.2]
    exact (hmoved.valid i hi).2
  · unfold redisCase
    rw [hmoved.redisXid.2, hmoved.nwords.2, if_neg hxid, hended, if_neg Bool.false_ne_true, if_pos hold]
    cases didCommit redisXid <;> rfl

end

section

variable (hmoved : Moved redisXid dest src dest' src') (happart : Apart space dest src) (hxid : redisXid ≠ 0)
  (hended : inProgress redisXid = false) (hold : oldestXid < redisXid)
include hmoved happart hxid hended hold

lemma Moved.dropsOnce_commit (hcommit : didCommit redisXid = true) :
    DropsOnce space oldestXid inProgress didCommit redisXid dest' src' := by
  obtain ⟨hd, hs⟩ := hmoved.drops happart didCommit hxid hended hold
  rw [hcommit, if_pos rfl] at hd
  rw [hcommit] at hs
  have hfreed : (dropOrder false).flatMap (dropped space none src') =
      (dropOrder true).flatMap (withoutSegments (src.extents space)) := by
    rw [dropOrder_false, dropped_none, hmoved.extents_src]
  refine ⟨_, _, hd, hs, fun h => absurd (hcommit.symm.trans h) (by decide), fun _ entry hentry => ?_, ?_, ?_⟩
  · rw [DropResult.freed_visit, Bool.not_true, hfreed]
    exact hmoved.committed_disjoint happart hentry
  · rw [DropResult.freed_visit, DropResult.freed_visit, Bool.not_true, hfreed, dropped_none]
    exact hmoved.nodup_committed happart
  · intro x hx
    rw [DropResult.bitsRead_visit, DropResult.bitsRead_visit] at hx
    exact absurd hx (List.not_mem_append no_bitsRead no_bitsRead)

lemma Moved.dropsOnce_abort (habort : didCommit redisXid = false)
    (hfork : ∀ entry, MAX_BUCKETMAPLEN ≤ entry → entry < BktMapEntries → dest'.head entry = InvalidBlockNumber) :
    DropsOnce space oldestXid inProgress didCommit redisXid dest' src' := by
  classical
  obtain ⟨hd, hs⟩ := hmoved.drops happart didCommit hxid hended hold
  rw [habort, if_neg Bool.false_ne_true] at hd
  rw [habort] at hs
  refine ⟨_, _, hd, hs, fun _ entry hentry x hsrc hx => ?_, fun h => absurd (habort.symm.trans h) (by decide), ?_, ?_⟩
  · rw [DropResult.freed_visit] at hx
    rw [hmoved.extents_src] at hsrc
    obtain ⟨u, hu, hx⟩ := List.mem_flatMap.mp hx
    rcases hmoved.dropped_own space hfork hu with heq | heq
    · rw [heq] at hx
      cases hx
    · rw [heq] at hx
      exact pieces_apart happart.nodup hu (segment_mem_dropOrder hentry) hx hsrc
  · rw [DropResult.freed_visit, DropResult.freed_visit, Bool.not_false, dropped_none, hmoved.extents_src]
    refine nodup_pieces happart.nodup fun u hu x => ?_
    rw [List.count_append, List.count_append]
    refine Nat.add_le_add_right ?_ _
    rcases hmoved.dropped_own space hfork hu with heq | heq
    · rw [heq]
      exact Nat.zero_le _
    · rw [heq]
  · intro x hx
    rw [DropResult.bitsRead_visit, DropResult.bitsRead_visit] at hx
    have hx := (List.mem_append.mp hx).resolve_right no_bitsRead
    obtain ⟨u, hu, hx⟩ := List.mem_flatMap.mp hx
    cases u with
    | segment entry =>
      unfold bitRead at hx
      dsimp only at hx
      split at hx
      · cases hx
      · next hvalid =>
        obtain rfl := List.mem_singleton.mp hx
        by_contra hout
        refine hvalid (hfork x ?_ (lt_of_segment_mem hu))
        simp only [BktBitMaxMapCnt, MAX_BUCKETMAPLEN] at *
        omega
    | mainHead | mapBlock i => cases hx

end

/-- `redis_info` has a bit for every bucket, not for every entry. -/
theorem buckets_freed_once (happart : Apart space dest src)
    (hmove : segMoveBuckets redisXid bucketList dest src = some (dest', src')) (hxid : redisXid ≠ 0)
    (hended : inProgress redisXid = false) (hold : oldestXid < redisXid) :
    DropsOnce space oldestXid inProgress didCommit redisXid dest' src' ↔ didCommit redisXid = true ∨
      ∀ entry, MAX_BUCKETMAPLEN ≤ entry → entry < BktMapEntries → dest'.head entry = InvalidBlockNumber := by
  have hmoved := segMoveBuckets_spec hmove
  constructor
  · rintro ⟨rd, rs, hd, -, -, -, -, hbits⟩
    by_cases hcommit : didCommit redisXid = true
    · exact .inl hcommit
    · refine .inr fun entry hfork hentry => ?_
      by_contra hvalid
      have hdrops := (hmoved.drops happart didCommit hxid hended hold).1
      rw [if_neg hcommit, hd] at hdrops
      obtain rfl := Option.some_inj.mp hdrops
      have hread : entry ∈ (dropOrder true).flatMap (bitRead (some dest'.main.redisInfo.words) dest') := by
        refine List.mem_flatMap.mpr ⟨.segment entry, segment_mem_dropOrder hentry, ?_⟩
        unfold bitRead
        dsimp only
        rw [if_neg hvalid]
        exact List.mem_singleton_self entry
      rw [← DropResult.bitsRead_visit space] at hread
      have hword := hbits entry (List.mem_append_left _ hread)
      simp only [BktBitMaxMapCnt, MAX_BUCKETMAPLEN] at *
      omega
  · rintro (hcommit | hfork)
    · exact hmoved.dropsOnce_commit happart hxid hended hold hcommit
    · cases hcommit : didCommit redisXid with
      | true => exact hmoved.dropsOnce_commit happart hxid hended hold hcommit
      | false => exact hmoved.dropsOnce_abort happart hxid hended hold hcommit hfork

/-! ### A pair -/

lemma nodup_dropOrder : (dropOrder true).Nodup := by
  refine List.nodup_append.mpr ⟨List.nodup_flatMap.mpr ⟨fun i _ => ?_, ?_⟩, List.nodup_singleton _, ?_⟩
  · refine List.nodup_append.mpr ⟨List.nodup_range.map ?_, List.nodup_singleton _, ?_⟩
    · intro k k' heq
      exact Nat.add_left_cancel (BktUse.segment.inj heq)
    · rintro u hu v hv rfl
      obtain ⟨k, -, rfl⟩ := List.mem_map.mp hu
      cases List.mem_singleton.mp hv
  · refine List.nodup_range.imp fun {i i'} hne u hu hu' => ?_
    rcases mem_blockOrder.mp hu with rfl | ⟨-, k, hk, rfl⟩
    · rcases mem_blockOrder.mp hu' with heq | ⟨-, k', -, heq⟩
      · exact hne (BktUse.mapBlock.inj heq)
      · cases heq
    · rcases mem_blockOrder.mp hu' with heq | ⟨-, k', hk', heq⟩
      · cases heq
      · have heq := BktUse.segment.inj heq
        simp only [BktMapEntryNumberPerBlock] at *
        omega
  · rintro u hu v hv rfl
    obtain rfl := List.mem_singleton.mp hv
    obtain ⟨i, -, hmem⟩ := List.mem_flatMap.mp hu
    rcases mem_blockOrder.mp hmem with heq | ⟨-, k, -, heq⟩ <;> cases heq

/-- A relation that never moved, with its map blocks one after the other. -/
def freshRelation (relNode mapStart : ℕ) (heads : ℕ → ℕ) : BktRelation where
  relNode := relNode
  main := ⟨0, ⟨0, 0, fun _ => 0⟩, fun i => mapStart + i⟩
  mapBlock i := ⟨0, fun k => heads (i * BktMapEntryNumberPerBlock + k)⟩

/-- Bucket 0 has a main fork, and a free space map if `fsm`. -/
def bucketHeads (fsm : Bool) (entry : ℕ) : ℕ :=
  if entry = 0 then 300 else if fsm ∧ entry = MAX_BUCKETMAPLEN then 301 else InvalidBlockNumber

/-- Every segment head is one of an empty segment. -/
def emptySegments : SegSpace where
  extentGroup n _ := emptyGroup n
  segPages _ := .segmentHead ⟨0, 0, 0, 0, fun _ => 0, fun _ => 0, fun _ => 0⟩

lemma head_freshRelation {relNode mapStart : ℕ} {heads : ℕ → ℕ} :
    (freshRelation relNode mapStart heads).head entry = heads entry := by
  show heads (entry / BktMapEntryNumberPerBlock * BktMapEntryNumberPerBlock + entry % BktMapEntryNumberPerBlock) = _
  rw [Nat.div_add_mod']

/-- Every use of a fresh relation has at most the one block that its number says. -/
lemma extents_freshRelation {relNode mapStart : ℕ} {heads : ℕ → ℕ} {u : BktUse} :
    (freshRelation relNode mapStart heads).extents emptySegments u =
      match u with
      | .mainHead => [⟨SEGMENT_HEAD_EXTENT_SIZE, MAIN_FORKNUM, relNode⟩]
      | .mapBlock i => [⟨SEGMENT_HEAD_EXTENT_SIZE, MAIN_FORKNUM, mapStart + i⟩]
      | .segment entry =>
        if heads entry = InvalidBlockNumber then [] else [⟨SEGMENT_HEAD_EXTENT_SIZE, MAIN_FORKNUM, heads entry⟩] := by
  cases u with
  | mainHead | mapBlock i => rfl
  | segment entry =>
    unfold BktRelation.extents
    simp only [head_freshRelation]
    rfl

lemma bucketHeads_eq {fsm : Bool} (h : bucketHeads fsm entry ≠ InvalidBlockNumber) :
    entry = 0 ∧ bucketHeads fsm entry = 300 ∨ entry = MAX_BUCKETMAPLEN ∧ bucketHeads fsm entry = 301 := by
  unfold bucketHeads at *
  split_ifs at * with h₀ h₁
  · exact .inl ⟨h₀, rfl⟩
  · exact .inr ⟨h₁.2, rfl⟩
  · exact absurd rfl h

lemma lt_of_mapBlock_mem (h : .mapBlock i ∈ dropOrder freebucket) : i < BktMapBlockNumber := by
  rcases List.mem_append.mp h with hblock | hmain
  · obtain ⟨i', hi', hmem⟩ := List.mem_flatMap.mp hblock
    rcases mem_blockOrder.mp hmem with hmap | ⟨-, k, -, heq⟩
    · cases hmap
      exact List.mem_range.mp hi'
    · cases heq
  · cases List.mem_singleton.mp hmain

section Fresh

variable {relNode mapStart : ℕ} {heads : ℕ → ℕ} {u : BktUse} {x : ExtentAddress}

lemma block_fresh (hu : u ∈ dropOrder true) (hx : x ∈ (freshRelation relNode mapStart heads).extents emptySegments u) :
    u = .mainHead ∧ x.block = relNode ∨
      (∃ i < BktMapBlockNumber, u = .mapBlock i ∧ x.block = mapStart + i) ∨
        ∃ entry, u = .segment entry ∧ heads entry ≠ InvalidBlockNumber ∧ x.block = heads entry := by
  rw [extents_freshRelation] at hx
  cases u with
  | mainHead =>
    obtain rfl := List.mem_singleton.mp hx
    exact .inl ⟨rfl, rfl⟩
  | mapBlock i =>
    obtain rfl := List.mem_singleton.mp hx
    exact .inr (.inl ⟨i, lt_of_mapBlock_mem hu, rfl, rfl⟩)
  | segment entry =>
    dsimp only at hx
    split_ifs at hx with hinvalid
    · cases hx
    · obtain rfl := List.mem_singleton.mp hx
      exact .inr (.inr ⟨entry, rfl, hinvalid, rfl⟩)

lemma nodup_fresh (hstart : relNode < mapStart) (hheads : ∀ entry, mapStart + BktMapBlockNumber ≤ heads entry)
    (hinj : ∀ e e', heads e ≠ InvalidBlockNumber → heads e = heads e' → e = e') :
    ((dropOrder true).flatMap ((freshRelation relNode mapStart heads).extents emptySegments)).Nodup := by
  refine List.nodup_flatMap.mpr ⟨fun u _ => ?_, nodup_dropOrder.imp_of_mem fun {u v} hu hv hne x hx hx' => hne ?_⟩
  · rw [extents_freshRelation]
    cases u with
    | mainHead | mapBlock i => exact List.nodup_singleton _
    | segment entry =>
      dsimp only
      split_ifs
      · exact List.nodup_nil
      · exact List.nodup_singleton _
  · simp only [BktMapBlockNumber] at hheads
    rcases block_fresh hu hx with ⟨rfl, hblock⟩ | ⟨i, hi, rfl, hblock⟩ | ⟨e, rfl, hvalid, hblock⟩
    · rcases block_fresh hv hx' with ⟨rfl, -⟩ | ⟨i', -, -, hblock'⟩ | ⟨e', -, -, hblock'⟩
      · rfl
      · omega
      · have := hheads e'
        omega
    · rcases block_fresh hv hx' with ⟨-, hblock'⟩ | ⟨i', -, rfl, hblock'⟩ | ⟨e', -, -, hblock'⟩
      · omega
      · obtain rfl : i = i' := by omega
        rfl
      · have := hheads e'
        simp only [BktMapBlockNumber] at hi
        omega
    · have := hheads e
      rcases block_fresh hv hx' with ⟨-, hblock'⟩ | ⟨i', hi', -, hblock'⟩ | ⟨e', rfl, -, hblock'⟩
      · omega
      · simp only [BktMapBlockNumber] at hi'
        omega
      · rw [hinj e e' hvalid (hblock.symm.trans hblock')]

end Fresh

lemma le_bucketHeads (fsm : Bool) (entry : ℕ) : 300 ≤ bucketHeads fsm entry := by
  unfold bucketHeads
  split_ifs
  · exact le_refl _
  · decide
  · decide

lemma apart_fresh (fsm : Bool) :
    Apart emptySegments (freshRelation 10 100 fun _ => InvalidBlockNumber)
      (freshRelation 11 200 (bucketHeads fsm)) := by
  have hread : ∀ {relNode mapStart heads}, (freshRelation relNode mapStart heads).Readable emptySegments :=
    fun _ _ _ => rfl
  refine ⟨⟨hread, hread⟩, List.nodup_append.mpr ⟨?_, ?_, ?_⟩⟩
  · exact nodup_fresh (by decide) (fun _ => by decide) (fun _ _ h _ => absurd rfl h)
  · refine nodup_fresh (by decide) (fun entry => le_trans (by decide) (le_bucketHeads fsm entry)) fun e e' hvalid heq => ?_
    have hvalid' := heq ▸ hvalid
    rcases bucketHeads_eq hvalid with ⟨rfl, h⟩ | ⟨rfl, h⟩
    · rcases bucketHeads_eq hvalid' with ⟨rfl, -⟩ | ⟨rfl, h'⟩
      · rfl
      · omega
    · rcases bucketHeads_eq hvalid' with ⟨rfl, h'⟩ | ⟨rfl, -⟩
      · omega
      · rfl
  · rintro x hx y hy rfl
    obtain ⟨u, hu, hxu⟩ := List.mem_flatMap.mp hx
    obtain ⟨v, hv, hxv⟩ := List.mem_flatMap.mp hy
    have hdest : x.block < 200 := by
      rcases block_fresh hu hxu with ⟨-, h⟩ | ⟨i, hi, -, h⟩ | ⟨e, -, hvalid, -⟩
      · omega
      · simp only [BktMapBlockNumber] at hi
        omega
      · exact absurd rfl hvalid
    have hdest' : x.block ≠ 11 := by
      rcases block_fresh hu hxu with ⟨-, h⟩ | ⟨i, -, -, h⟩ | ⟨e, -, hvalid, -⟩
      · omega
      · omega
      · exact absurd rfl hvalid
    rcases block_fresh hv hxv with ⟨-, h⟩ | ⟨i, -, -, h⟩ | ⟨e, -, -, h⟩
    · exact hdest' h
    · omega
    · have := le_bucketHeads fsm e
      omega

lemma fresh_valid {relNode mapStart : ℕ} {heads : ℕ → ℕ} (h : mapStart < 2 ^ 31) :
    ∀ i < BktMapBlockNumber, (freshRelation relNode mapStart heads).main.bktMap i ≠ InvalidBlockNumber := by
  intro i hi heq
  have heq : mapStart + i = InvalidBlockNumber := heq
  simp only [BktMapBlockNumber, InvalidBlockNumber] at *
  omega

theorem buckets_freed_once_first : ∃ dest' src', segMoveBuckets 5 [0]
      (freshRelation 10 100 fun _ => InvalidBlockNumber) (freshRelation 11 200 (bucketHeads false)) =
        some (dest', src') ∧
    DropsOnce emptySegments 4 (fun _ => false) (fun _ => false) 5 dest' src' := by
  obtain ⟨dest', src', hmove, -⟩ := exists_moved_first 5
    (freshRelation 10 100 fun _ => InvalidBlockNumber) (freshRelation 11 200 (bucketHeads false))
    (by rw [head_freshRelation]; decide)
    fun i hi => ⟨fresh_valid (by decide) i hi, fresh_valid (by decide) i hi⟩
  refine ⟨dest', src', hmove, (buckets_freed_once (apart_fresh false) hmove (by decide) rfl (by decide)).mpr
    (.inr fun entry hfork _ => ?_)⟩
  rcases (segMoveBuckets_spec hmove).entries entry with heq | ⟨heq, -⟩
  · rw [heq, head_freshRelation]
  · rw [heq, head_freshRelation]
    refine (if_neg ?_).trans (if_neg fun h => Bool.false_ne_true h.1)
    rintro rfl
    exact absurd hfork (by decide)

/-- The free space map of a moved bucket, freed with the destination although the source refers to it. -/
theorem bucket_freed_twice : ∃ dest' src', segMoveBuckets 5 [0]
      (freshRelation 10 100 fun _ => InvalidBlockNumber) (freshRelation 11 200 (bucketHeads true)) =
        some (dest', src') ∧
    ¬ DropsOnce emptySegments 4 (fun _ => false) (fun _ => false) 5 dest' src' := by
  obtain ⟨dest', src', hmove, hcopied⟩ := exists_moved_first 5
    (freshRelation 10 100 fun _ => InvalidBlockNumber) (freshRelation 11 200 (bucketHeads true))
    (by rw [head_freshRelation]; decide)
    fun i hi => ⟨fresh_valid (by decide) i hi, fresh_valid (by decide) i hi⟩
  refine ⟨dest', src', hmove, ?_⟩
  rintro ⟨rd, rs, hd, -, hfree, -⟩
  have hmoved := segMoveBuckets_spec hmove
  have hfsm : bucketHeads true MAX_BUCKETMAPLEN = 301 := by decide
  have hentry : MAX_BUCKETMAPLEN < BktMapEntries := by decide
  have hhead : dest'.head MAX_BUCKETMAPLEN = 301 := by
    rw [hcopied _ hentry (by decide) (by rw [head_freshRelation, hfsm]; decide), head_freshRelation, hfsm]
  have hsegment : ∀ {rel : BktRelation}, rel.head MAX_BUCKETMAPLEN = 301 →
      rel.extents emptySegments (.segment MAX_BUCKETMAPLEN) = [⟨SEGMENT_HEAD_EXTENT_SIZE, MAIN_FORKNUM, 301⟩] := by
    intro rel h
    unfold BktRelation.extents
    simp only [h]
    rfl
  have hbit : getBktMapBit dest'.main.redisInfo.words MAX_BUCKETMAPLEN = false := by
    unfold getBktMapBit
    rw [hmoved.behind _ (by decide)]
    exact Nat.zero_testBit _
  have hdrops : bucketUnlinkSegment emptySegments 4 (fun _ => false) (fun _ => false) dest' = some
      (DropResult.visit emptySegments (some dest'.main.redisInfo.words) dest' (dropOrder true) ⟨[], []⟩) :=
    (hmoved.drops (apart_fresh true) (fun _ => false) (by decide) rfl (by decide)).1
  rw [hd] at hdrops
  obtain rfl := Option.some_inj.mp hdrops
  refine hfree rfl MAX_BUCKETMAPLEN hentry (a := ⟨SEGMENT_HEAD_EXTENT_SIZE, MAIN_FORKNUM, 301⟩) ?_ ?_
  · rw [hmoved.extents_src, hsegment (by rw [head_freshRelation, hfsm])]
    exact List.mem_singleton_self _
  · rw [DropResult.freed_visit]
    refine List.mem_flatMap.mpr ⟨_, segment_mem_dropOrder hentry, ?_⟩
    unfold dropped
    dsimp only
    rw [Option.any_some, hbit, if_neg Bool.false_ne_true, hsegment hhead]
    exact List.mem_singleton_self _

end

end GaussKernel.Segment
