import GaussKernel.Segment.BlockMapRun
import GaussKernel.Segment.PackedGroup
import Mathlib.Data.Nat.Count

/-!
# A segment that only grows

One segment that is created in a new space and extended again and again gets the extents of its groups in their order,
up to the size at which the block map tree is full.
-/

namespace GaussKernel.Segment

open Lib

section Grown

variable {s : MapState} {op : AtomicOp} {eg : ExtentGroup} {n f c k id : ℕ}

/-- The number of extents of size `n` that are in use with `k` extents of data. -/
def extentsInUse (k n : ℕ) : ℕ :=
  if n = SEGMENT_HEAD_EXTENT_SIZE then 1 + level1SlotsInUse k else Nat.count (fun id => extentSizeByCount id = n) k

/-- The segment whose head is the first extent of all. -/
def firstSegment : SegmentDesc := ⟨MAIN_FORKNUM, 4157, ⟨assembleFlag .segmentHead 0, InvalidBlockNumber⟩⟩

/-- The block of extent `id`. -/
def grownBlock (id : ℕ) : ℕ := packedBlock (extentSizeByCount id) (extentsInUse id (extentSizeByCount id))

/-- The segment has `k` extents, and every group is filled from the front. -/
structure Grown (s : MapState) (k : ℕ) : Prop where
  run : Relation.ReflTransGen MapStep.Traced newMapState s
  segs : s.segs = {firstSegment}
  head : ∃ head, s.space.segmentHead firstSegment.headBlocknum = some head ∧ head.nextents = k
  data : ∀ id < k, s.addr (.data firstSegment id) = some ⟨extentSizeByCount id, MAIN_FORKNUM, grownBlock id⟩
  groups : ∀ n, IsExtentSize n → Packed n (s.space.extentGroup n MAIN_FORKNUM) (extentsInUse k n)

lemma Grown.mem (h : Grown s k) : firstSegment ∈ s.segs := by
  rw [h.segs]
  exact Finset.mem_singleton_self _

lemma extentsInUse_le (hk : k ≤ BMT_TOTAL_EXTENTS) (n : ℕ) : extentsInUse k n ≤ BMT_TOTAL_EXTENTS := by
  unfold extentsInUse
  split
  · have hle := level1SlotsInUse_le hk
    simp only [BMT_TOTAL_EXTENTS, BMT_HEADER_LEVEL0_SLOTS, BMT_HEADER_LEVEL1_SLOTS, BMT_LEVEL0_SLOTS] at *
    omega
  · exact (Nat.count_le _).trans hk

lemma extentsInUse_succ_size : extentsInUse (k + 1) (extentSizeByCount k) =
    extentsInUse k (extentSizeByCount k) + 1 := by
  unfold extentsInUse
  rw [if_neg (extentSizeByCount_ne_one k), if_neg (extentSizeByCount_ne_one k), Nat.count_succ, if_pos rfl]

lemma extentsInUse_succ_of_ne (hone : n ≠ SEGMENT_HEAD_EXTENT_SIZE) (hn : n ≠ extentSizeByCount k) :
    extentsInUse (k + 1) n = extentsInUse k n := by
  unfold extentsInUse
  rw [if_neg hone, if_neg hone, Nat.count_succ, if_neg hn.symm, Nat.add_zero]

/-- The file can hold all extents of a full block map tree. -/
lemma packedBlock_fits (hn : IsExtentSize n) (hc : c ≤ BMT_TOTAL_EXTENTS) : c < DF_MAP_GROUP_EXTENTS ∧
    packedBlock n (c + 1) + DF_FILE_EXTEND_STEP_BLOCKS ≤ 2 ^ 32 := by
  have hle := Nat.mul_le_mul_left (c + 1) hn.le
  rw [packedBlock_eq]
  simp only [BMT_TOTAL_EXTENTS, BMT_HEADER_LEVEL0_SLOTS, BMT_HEADER_LEVEL1_SLOTS, BMT_LEVEL0_SLOTS,
    DF_MAP_GROUP_EXTENTS, DF_FILE_EXTEND_STEP_BLOCKS] at *
  omega

/-- The next extent of a group is allocated. -/
lemma Packed.spcAlloc (op : AtomicOp) (hn : IsExtentSize n)
    (h : Packed n (op.space.extentGroup n f) c) (hc : c ≤ BMT_TOTAL_EXTENTS)
    (iptr : ExtentInversePointer) : ∃ op' eg', spcAllocExtent 2 op n f none iptr = some (packedBlock n c, op') ∧
      op'.space = op.space.setGroup n f eg' ∧ Packed n eg' (c + 1) := by
  obtain ⟨hlt, hend⟩ := packedBlock_fits hn hc
  obtain ⟨eg', log, pending, hrun, hpacked⟩ := h.alloc hn hlt hend iptr
  unfold spcAllocExtent
  rw [hrun]
  exact ⟨_, eg', rfl, rfl, hpacked⟩

/-- The groups after one more extent was taken from one of them. -/
lemma groups_setGroup {space : SegSpace} {use : ℕ → ℕ}
    (h : ∀ n, IsExtentSize n → Packed n (space.extentGroup n f) (use n)) {m : ℕ} {use' : ℕ → ℕ}
    (hm : Packed m eg (use' m)) (hother : ∀ n ≠ m, use' n = use n) (n : ℕ) (hn : IsExtentSize n) :
    Packed n ((space.setGroup m f eg).extentGroup n f) (use' n) := by
  by_cases heq : n = m
  · subst heq
    rwa [setGroup_self]
  · rw [setGroup_of_ne fun hand => heq hand.1, hother n heq]
    exact h n hn

/-- The space after the segment was created. -/
lemma grown_zero : ∃ s, MapStep newMapState (.create MAIN_FORKNUM) s ∧ Grown s 0 := by
  have hpacked : ∀ n, IsExtentSize n → Packed n (newMapState.space.extentGroup n MAIN_FORKNUM) 0 :=
    fun n _ => ⟨⟨rfl, .inr ⟨rfl, rfl, rfl⟩⟩, Nat.zero_le 1⟩
  obtain ⟨op, eg, halloc, hspace, hnew⟩ := (hpacked 1 isExtentSize_one).spcAlloc
    (.start newMapState.space) isExtentSize_one (Nat.zero_le _) ⟨assembleFlag .segmentHead 0, InvalidBlockNumber⟩
  have hrun : normalAllocSegment 2 (.start newMapState.space) none
      ⟨assembleFlag .segmentHead 0, InvalidBlockNumber⟩ 0
        = some (4157, op.registerPage 4157 (.segmentHead (initSegmentHead 4157 0)) (.initSeghead 0)) := by
    unfold normalAllocSegment
    rw [halloc]
    rfl
  have hstep := MapStep.create (s := newMapState) .segmentHead hrun
  refine ⟨_, hstep, .single ⟨.create MAIN_FORKNUM, trivial, hstep⟩, rfl, ⟨_, segmentHead_setPage_self, rfl⟩, ?_, ?_⟩
  · exact fun id hid => absurd hid (Nat.not_lt_zero id)
  · change ∀ n, IsExtentSize n → Packed n (op.space.extentGroup n MAIN_FORKNUM) (extentsInUse 0 n)
    rw [hspace]
    refine groups_setGroup hpacked hnew fun n hn => ?_
    rw [extentsInUse, if_neg hn, Nat.count_zero]

/-! ## Extending it -/

section Run

variable {space : SegSpace} {head head₂ : SegmentHead} {fuel forknum headBlock x p : ℕ} {op₁ op₂ : AtomicOp}
  (hhead : space.segmentHead headBlock = some head)
  (halloc : spcAllocExtent fuel (.start space) (extentSizeByCount head.nextents) forknum none
    ⟨assembleFlag .dataExtent head.nextents, headBlock⟩ = some (x, op₁))
include hhead halloc

/-- The run of `seg_extend_segment` whose extent is kept in the head. -/
lemma segExtendSegment_of_head (hlt : head.nextents < BMT_HEADER_LEVEL0_SLOTS) :
    ∃ op, segExtendSegment fuel space forknum headBlock = some op ∧ op.space.extentGroup = op₁.space.extentGroup := by
  unfold segExtendSegment
  rw [hhead, Option.bind_eq_bind, Option.bind_some]
  dsimp only
  rw [halloc, Option.bind_eq_bind, Option.bind_some]
  dsimp only
  rw [if_pos hlt]
  exact ⟨_, rfl, rfl⟩

/-- The run that needs a new level-0 page. -/
lemma segExtendSegment_of_newPage (hnew : requireNewLevel0Page head.nextents)
    (hslot : extentIdToLevel1Slot head.nextents < BMT_HEADER_LEVEL1_SLOTS)
    (halloc₂ : spcAllocExtent fuel op₁ SEGMENT_HEAD_EXTENT_SIZE MAIN_FORKNUM none
      ⟨assembleFlag .dataExtent head.nextents, headBlock⟩ = some (p, op₂))
    (hhead₂ : (op₂.space.setPage p (.level0 (initLevel0Page x))).segmentHead headBlock = some head₂) :
    ∃ op, segExtendSegment fuel space forknum headBlock = some op ∧ op.space.extentGroup = op₂.space.extentGroup := by
  unfold segExtendSegment
  rw [hhead, Option.bind_eq_bind, Option.bind_some]
  dsimp only
  rw [halloc, Option.bind_eq_bind, Option.bind_some]
  dsimp only
  rw [if_neg (not_lt.mpr hnew.1), if_pos hnew, halloc₂, Option.bind_some]
  unfold segInitNewLevel0Page
  change ∃ op, ((op₂.space.setPage p (.level0 (initLevel0Page x))).segmentHead headBlock).bind _ = some op ∧ _
  rw [hhead₂, Option.bind_some, if_pos hslot]
  exact ⟨_, rfl, rfl⟩

/-- The run that records the extent on a level-0 page in use. -/
lemma segExtendSegment_of_level0 {page : BMTLevel0Page} (hge : BMT_HEADER_LEVEL0_SLOTS ≤ head.nextents)
    (hold : ¬ requireNewLevel0Page head.nextents)
    (hpage : op₁.space.level0Page (head.level1Slots (extentIdToLevel1Slot head.nextents)) = some page) :
    ∃ op, segExtendSegment fuel space forknum headBlock = some op ∧ op.space.extentGroup = op₁.space.extentGroup := by
  unfold segExtendSegment
  rw [hhead, Option.bind_eq_bind, Option.bind_some]
  dsimp only
  rw [halloc, Option.bind_eq_bind, Option.bind_some]
  dsimp only
  rw [if_neg (not_lt.mpr hge), if_neg hold]
  unfold segRecordNewExtentOnLevel0Page
  dsimp only
  rw [hpage]
  exact ⟨_, rfl, rfl⟩

end Run

/-- The segment can be extended, and the groups stay filled from the front. -/
lemma Grown.extend_run (h : Grown s k) (hk : k < BMT_TOTAL_EXTENTS) {op₁ : AtomicOp} {eg₁ : ExtentGroup}
    (halloc : spcAllocExtent 2 (.start s.space) (extentSizeByCount k) MAIN_FORKNUM none
      ⟨assembleFlag .dataExtent k, firstSegment.headBlocknum⟩ = some (grownBlock k, op₁))
    (hspace : op₁.space = s.space.setGroup (extentSizeByCount k) MAIN_FORKNUM eg₁)
    (hpacked : Packed (extentSizeByCount k) eg₁ (extentsInUse (k + 1) (extentSizeByCount k))) :
    ∃ op, segExtendSegment 2 s.space firstSegment.forknum firstSegment.headBlocknum = some op ∧
      ∀ n, IsExtentSize n → Packed n (op.space.extentGroup n MAIN_FORKNUM) (extentsInUse (k + 1) n) := by
  obtain ⟨owner, hinv⟩ := mapInv_run h.run
  obtain ⟨head, hhead, rfl⟩ := h.head
  have hok := hinv.headOk h.mem hhead
  have hpages : op₁.space.segPages = s.space.segPages := by rw [hspace]; rfl
  -- the other groups are as before, but for the level-0 page
  by_cases hnew : requireNewLevel0Page head.nextents
  · obtain ⟨huse, hslot⟩ := level1SlotsInUse_succ_of_require hnew
    have hlt : extentIdToLevel1Slot head.nextents < BMT_HEADER_LEVEL1_SLOTS := by
      have hge := hnew.1
      unfold extentIdToLevel1Slot
      simp only [BMT_TOTAL_EXTENTS, BMT_HEADER_LEVEL0_SLOTS, BMT_HEADER_LEVEL1_SLOTS, BMT_LEVEL0_SLOTS] at *
      omega
    have hmeta : Packed SEGMENT_HEAD_EXTENT_SIZE (op₁.space.extentGroup SEGMENT_HEAD_EXTENT_SIZE MAIN_FORKNUM)
        (extentsInUse head.nextents SEGMENT_HEAD_EXTENT_SIZE) := by
      rw [hspace, setGroup_of_ne fun hand => extentSizeByCount_ne_one _ hand.1.symm]
      exact h.groups _ isExtentSize_one
    obtain ⟨op₂, eg₂, halloc₂, hspace₂, hpacked₂⟩ := hmeta.spcAlloc op₁ isExtentSize_one (extentsInUse_le hk.le _)
      ⟨assembleFlag .dataExtent head.nextents, firstSegment.headBlocknum⟩
    have hne : firstSegment.headBlocknum ≠ packedBlock SEGMENT_HEAD_EXTENT_SIZE
        (extentsInUse head.nextents SEGMENT_HEAD_EXTENT_SIZE) := by
      rw [packedBlock_eq, extentsInUse, if_pos rfl]
      simp only [firstSegment, SEGMENT_HEAD_EXTENT_SIZE]
      omega
    have hhead₂ := hhead
    have hpages₂ : op₂.space.segPages = op₁.space.segPages := by rw [hspace₂]; rfl
    rw [← segmentHead_congr (congrFun hpages _), ← segmentHead_congr (congrFun hpages₂ _),
      ← segmentHead_setPage_of_ne hne] at hhead₂
    obtain ⟨op, hrun, hsame⟩ := segExtendSegment_of_newPage hhead halloc hnew hlt halloc₂ hhead₂
    refine ⟨op, hrun, ?_⟩
    rw [hsame, hspace₂]
    have hone : extentsInUse (head.nextents + 1) SEGMENT_HEAD_EXTENT_SIZE
        = extentsInUse head.nextents SEGMENT_HEAD_EXTENT_SIZE + 1 := by
      rw [extentsInUse, extentsInUse, if_pos rfl, if_pos rfl, huse, Nat.add_assoc]
    have hold : ∀ n, IsExtentSize n → Packed n (op₁.space.extentGroup n MAIN_FORKNUM)
        (if n = SEGMENT_HEAD_EXTENT_SIZE then extentsInUse head.nextents n
          else extentsInUse (head.nextents + 1) n) := ?_
    · exact groups_setGroup hold (hone ▸ hpacked₂) fun n hn => (if_neg hn).symm
    rw [hspace]
    refine groups_setGroup h.groups ?_ fun n hn => ?_
    · rwa [if_neg (extentSizeByCount_ne_one _)]
    · split
      case isTrue => rfl
      case isFalse h1 => exact extentsInUse_succ_of_ne h1 hn
  · have hgroups : ∀ n, IsExtentSize n →
        Packed n (op₁.space.extentGroup n MAIN_FORKNUM) (extentsInUse (head.nextents + 1) n) := by
      rw [hspace]
      refine groups_setGroup h.groups hpacked fun n hn => ?_
      by_cases hone : n = SEGMENT_HEAD_EXTENT_SIZE
      · unfold extentsInUse
        rw [if_pos hone, if_pos hone, level1SlotsInUse_succ_of_not_require hnew]
      · exact extentsInUse_succ_of_ne hone hn
    rcases Nat.lt_or_ge head.nextents BMT_HEADER_LEVEL0_SLOTS with hlt | hge
    · obtain ⟨op, hrun, hsame⟩ := segExtendSegment_of_head hhead halloc hlt
      exact ⟨op, hrun, hsame ▸ hgroups⟩
    · have hslot := level1SlotsInUse_succ_of_not_require hnew ▸ extentIdToLevel1Slot_lt (Nat.lt_succ_self _) hge
      obtain ⟨page, hpage⟩ := hok.level0 _ hslot
      rw [← level0Page_congr (congrFun hpages _)] at hpage
      obtain ⟨op, hrun, hsame⟩ := segExtendSegment_of_level0 hhead halloc hge hnew hpage
      exact ⟨op, hrun, hsame ▸ hgroups⟩

lemma Grown.extend (h : Grown s k) (hk : k < BMT_TOTAL_EXTENTS) :
    ∃ s', MapStep s (.extend firstSegment) s' ∧ Grown s' (k + 1) := by
  obtain ⟨owner, hinv⟩ := mapInv_run h.run
  obtain ⟨head, hhead, hn⟩ := h.head
  obtain ⟨op₁, eg₁, halloc, hspace, hpacked⟩ := (h.groups _ (isExtentSize_byCount k)).spcAlloc
    (.start s.space) (isExtentSize_byCount k) (extentsInUse_le hk.le _)
    ⟨assembleFlag .dataExtent k, firstSegment.headBlocknum⟩
  rw [← extentsInUse_succ_size] at hpacked
  obtain ⟨op, hrun, hgroups⟩ := h.extend_run hk halloc hspace hpacked
  have hstep : MapStep s (.extend firstSegment) ⟨op.space, s.segs, s.replaced⟩ := .extend h.mem hrun
  obtain ⟨owner', head₁, x, op₂, hinv', hhead₁, halloc₁, _, haddr⟩ := hinv.extend h.mem hrun
  obtain rfl : head₁ = head := Option.some_inj.mp (hhead₁.symm.trans hhead)
  rw [hn] at halloc₁ haddr
  obtain rfl : x = grownBlock k := (Prod.mk.inj (Option.some_inj.mp (halloc₁.symm.trans halloc))).1
  have hdata : ∀ id < k + 1, (⟨op.space, s.segs, s.replaced⟩ : MapState).addr (.data firstSegment id)
      = some ⟨extentSizeByCount id, MAIN_FORKNUM, grownBlock id⟩ := by
    intro id hid
    rw [haddr id]
    split
    case isTrue heq =>
      subst heq
      rfl
    case isFalse hne => exact h.data id (by omega)
  refine ⟨_, hstep, h.run.tail ⟨.extend firstSegment, trivial, hstep⟩, h.segs, ?_, hdata, hgroups⟩
  -- the segment has one more extent, and no more than that
  obtain ⟨head', hhead', _⟩ := hinv'.heads _ h.mem
  refine ⟨head', hhead', le_antisymm ?_ ?_⟩
  · by_contra hlt
    have hnone : s.addr (.data firstSegment (k + 1)) = none := by
      refine (if_pos h.mem).trans ?_
      rw [dataAddr_eq hhead, hn, if_neg (by omega)]
    have hloc := haddr (k + 1)
    rw [if_neg (Nat.succ_ne_self k), hnone] at hloc
    obtain ⟨x, hx⟩ := HeadOk.location ‹_› (not_le.mp hlt)
    rw [MapInv.addr_data (s := ⟨op.space, s.segs, s.replaced⟩) h.mem hhead' (not_le.mp hlt) hx] at hloc
    cases hloc
  · obtain ⟨_, head₂, hhead₂, hid, _⟩ := MapState.addr_data_inv (hdata k (Nat.lt_succ_self k))
    obtain rfl : head₂ = head' := Option.some_inj.mp (hhead₂.symm.trans hhead')
    exact hid

/-- A segment of any size that its tree can hold. -/
lemma grown_exists (hk : k ≤ BMT_TOTAL_EXTENTS) : ∃ s, Grown s k := by
  induction k with
  | zero =>
    obtain ⟨s, _, h⟩ := grown_zero
    exact ⟨s, h⟩
  | succ k ih =>
    obtain ⟨s, h⟩ := ih (Nat.le_of_succ_le hk)
    obtain ⟨t, _, h'⟩ := h.extend hk
    exact ⟨t, h'⟩

lemma extentSizeByCount_eq_large {i : ℕ} : extentSizeByCount i = 8192 ↔ 255 ≤ i := by
  unfold extentSizeByCount
  split_ifs <;> omega

/-- The extents of 8192 blocks are those from number 255 on. -/
lemma count_large (id : ℕ) : Nat.count (fun i => extentSizeByCount i = 8192) id = id - 255 := by
  induction id with
  | zero => rfl
  | succ i ih =>
    rw [Nat.count_succ, ih]
    split
    case isTrue hsize =>
      have hge := extentSizeByCount_eq_large.mp hsize
      omega
    case isFalse hsize =>
      have hlt := mt extentSizeByCount_eq_large.mpr hsize
      omega

lemma grownBlock_large (hid : 255 ≤ id) : grownBlock id = 4157 + (id - 255) * 8192 := by
  unfold grownBlock extentsInUse
  rw [extentSizeByCount_eq_large.mpr hid, if_neg (by decide), count_large, packedBlock_eq]

/-- Where the extents of the segment lie. -/
lemma Grown.location (h : Grown s k) {head : SegmentHead}
    (hhead : s.space.segmentHead firstSegment.headBlocknum = some head) (hid : id < k) :
    segExtentLocation s.space head id = some (grownBlock id) := by
  obtain ⟨_, head', hhead', _, x, hx, heq⟩ := MapState.addr_data_inv (h.data id hid)
  obtain rfl : head' = head := Option.some_inj.mp (hhead'.symm.trans hhead)
  rw [hx, (ExtentAddress.mk.inj heq).2.2]

/-- A segment of 1300 extents, some of them on a level-0 page. -/
theorem blockMap_run_grown : ∃ s head, Relation.ReflTransGen MapStep.Traced newMapState s ∧
    s.space.segmentHead 4157 = some head ∧ head.nextents = 1300 ∧ BlockMapOk s := by
  obtain ⟨s, h⟩ := grown_exists (show 1300 ≤ BMT_TOTAL_EXTENTS by decide)
  obtain ⟨head, hhead, hn⟩ := h.head
  exact ⟨s, head, h.run, hhead, hn, blockMap_run h.run⟩

/-- The last extent lies behind the wrapped end of its group, and in its place extent 255 is freed. -/
lemma Grown.freeLast_wrapped (h : Grown s (k + 1)) (hlarge : 506111 ≤ k)
    (hold : ¬ requireNewLevel0Page k) : ∃ t, MapStep s (.freeLast firstSegment) t ∧ ¬ BlockMapOk t := by
  obtain ⟨owner, hinv⟩ := mapInv_run h.run
  obtain ⟨head, hhead, hn⟩ := h.head
  have hok := hinv.headOk h.mem hhead
  have hsize : extentSizeByCount k = 8192 := extentSizeByCount_eq_large.mpr (by omega)
  have hloc : segExtentLocation s.space head k = some (grownBlock k) := h.location hhead (Nat.lt_succ_self k)
  have hblock : 4143976509 ≤ grownBlock k := by
    rw [grownBlock_large (by omega)]
    omega
  have hpacked := h.groups 8192 (hsize ▸ isExtentSize_byCount k)
  have hpos : 0 < extentsInUse (k + 1) 8192 := by
    rw [extentsInUse, if_neg (by decide), count_large]
    omega
  obtain ⟨eg', log, hfree, hgroup⟩ := hpacked.free_behind hpos hblock
  have hfile : (s.space.extentGroup 8192 MAIN_FORKNUM).totalBlocks ≠ 0 := by
    have hlive : packedBlock 8192 0 ∈ packed 8192 (extentsInUse (k + 1) 8192) := (mem_packed (by decide)).mpr hpos
    have heg := hpacked.inv.egInv hlive
    have hle := heg.inFile _ hlive
    have hsizePos := heg.size.pos
    omega
  obtain ⟨op₁, hspc, hspace⟩ : ∃ op₁, spcFreeExtent (.start s.space) (extentSizeByCount k) MAIN_FORKNUM (grownBlock k)
      = some op₁ ∧ op₁.space = s.space.setGroup 8192 MAIN_FORKNUM eg' := by
    unfold spcFreeExtent
    rw [hsize]
    change ∃ op₁, (if (s.space.extentGroup 8192 MAIN_FORKNUM).totalBlocks = 0 then none
      else (egFreeExtent (s.space.extentGroup 8192 MAIN_FORKNUM) (grownBlock k)).bind _) = some op₁ ∧ _
    rw [if_neg hfile, hfree]
    exact ⟨_, rfl, rfl⟩
  have htotal : ¬ (head.dropExtent.totalBlocks = 0 ∧ head.dropExtent.nextents ≠ 0) :=
    fun hand => hand.2 ((hok.toOk.dropExtent (hn ▸ Nat.succ_ne_zero k)).eq_zero hand.1)
  obtain ⟨op, hrun, hop⟩ : ∃ op, freeLastExtent s.space firstSegment.forknum firstSegment.headBlocknum = some op ∧
      op.space = op₁.space.setPage firstSegment.headBlocknum (.segmentHead head.dropExtent) := by
    unfold freeLastExtent
    rw [hhead, Option.bind_eq_bind, Option.bind_some, if_neg (hn ▸ Nat.succ_ne_zero k)]
    dsimp only
    rw [hn, Nat.succ_sub_one, hloc, Option.bind_eq_bind, Option.bind_some]
    change ∃ op, (spcFreeExtent (.start s.space) (extentSizeByCount k) MAIN_FORKNUM (grownBlock k)).bind _ = some op ∧ _
    rw [hspc, Option.bind_some, if_neg htotal, if_neg hold]
    exact ⟨_, rfl, rfl⟩
  refine ⟨_, .freeLast h.mem hrun, fun hmap => ?_⟩
  -- extent 255 is still in the tree
  obtain ⟨head'', hhead'', htree⟩ := hmap.trees firstSegment h.mem
  change op.space.segmentHead _ = _ at hhead''
  rw [hop, segmentHead_setPage_self] at hhead''
  obtain rfl := Option.some_inj.mp hhead''
  have hdrop : head.dropExtent.nextents = k := by
    change head.nextents - 1 = k
    rw [hn, Nat.succ_sub_one]
  obtain ⟨x, hx, hlive⟩ := htree.location 255 (by omega)
  have hfirst : x = 4157 := by
    have hx' := h.location hhead (show 255 < k + 1 by omega)
    rw [segExtentLocation_of_lt (by decide)] at hx hx'
    rw [grownBlock_large (le_refl _)] at hx'
    exact Option.some_inj.mp (hx.symm.trans hx')
  change (op.space.extentGroup 8192 MAIN_FORKNUM).Live x at hlive
  rw [hop, setPage_extentGroup, hspace, setGroup_self, hgroup.live_iff, hfirst] at hlive
  exact Finset.notMem_erase _ _ hlive

/-- A segment of 506112 extents loses extent 255 with the last one. -/
theorem blockMap_extent_lost : ∃ s t, Relation.ReflTransGen MapStep.Any newMapState s ∧
    (∃ head, s.space.segmentHead 4157 = some head ∧ head.nextents = 506112) ∧
    MapStep s (.freeLast firstSegment) t ∧ BlockMapOk s ∧ ¬ BlockMapOk t := by
  have hmax : 506112 ≤ BMT_TOTAL_EXTENTS := by
    simp only [BMT_TOTAL_EXTENTS, BMT_HEADER_LEVEL0_SLOTS, BMT_HEADER_LEVEL1_SLOTS, BMT_LEVEL0_SLOTS]
    omega
  obtain ⟨s, h⟩ := grown_exists hmax
  obtain ⟨owner, hinv⟩ := mapInv_run h.run
  have hold : ¬ requireNewLevel0Page 506111 := by
    unfold requireNewLevel0Page
    simp only [BMT_HEADER_LEVEL0_SLOTS, BMT_LEVEL0_SLOTS]
    omega
  obtain ⟨t, hstep, hlost⟩ := h.freeLast_wrapped (le_refl _) hold
  have hany : Relation.ReflTransGen MapStep.Any newMapState s :=
    h.run.lift id fun _ _ ⟨op, _, hop⟩ => ⟨op, hop⟩
  exact ⟨s, t, hany, h.head, hstep, hinv.blockMapOk, hlost⟩

end Grown

end GaussKernel.Segment
