import GaussKernel.Segment.BlockMapStep
import Mathlib.Logic.Relation

/-!
# Runs on block map trees

Segments are created, extended, shortened and moved in any order. In every run whose freed and moved extents can be
traced back, the trees stay correct: the blocks of a segment are counted, every logical block is found in a live extent
of the right size, the level-0 pages are those of the slots in use, and no physical block serves two logical ones.
-/

namespace GaussKernel.Segment

open Lib

/-! ## Steps -/

/-- The bit of the extent is set on a map page of the group. -/
def ExtentGroup.Live (eg : ExtentGroup) (block : ℕ) : Prop :=
  ∃ n < eg.mapHead.groupCount, ∃ m < (eg.mapHead.groups n).pageCount, ∃ b ∈ (eg.mapPage n m).bitmap,
    block = u32 ((eg.mapPage n m).firstPage + b * eg.mapHead.bitUnit)

def MapState.group (s : MapState) (a : ExtentAddress) : ExtentGroup := s.space.extentGroup a.size a.forknum

/-- The inverse pointers of segment heads: of a table, of another fork of it, and of a bucket. -/
inductive HeadPointer : ℕ → ExtentInversePointer → Prop where
  | segmentHead : HeadPointer MAIN_FORKNUM ⟨assembleFlag .segmentHead 0, InvalidBlockNumber⟩
  | forkHead {forknum mainBlock} (hmain : forknum ≠ MAIN_FORKNUM) (hle : forknum ≤ SEGMENT_MAX_FORKNUM) :
      HeadPointer forknum ⟨assembleFlag .forkHead forknum, mainBlock⟩
  | bucketHead {forknum bucketid mainBlock} (hle : forknum ≤ SEGMENT_MAX_FORKNUM)
      (hbucket : bucketid < MAX_BUCKETMAPLEN) :
      HeadPointer forknum ⟨assembleFlag .bucketHead (forknum * MAX_BUCKETMAPLEN + bucketid), mainBlock⟩

inductive MapOp where
  | create (forknum : ℕ)
  | extend (seg : SegmentDesc)
  | freeLast (seg : SegmentDesc)
  | move (a : ExtentAddress)
  | freeReplaced (a : ExtentAddress)

/-- The operations on the trees of a space. A data extent is moved with the inverse pointer that is read for it, if the
check succeeds; the replaced extent is freed later, by an operation of its own. -/
inductive MapStep (s : MapState) : MapOp → MapState → Prop where
  | create {fuel forknum lsn block iptr op} (hptr : HeadPointer forknum iptr)
      (hrun : normalAllocSegment fuel (.start s.space) none iptr lsn = some (block, op)) :
      MapStep s (.create forknum) ⟨op.space, insert ⟨forknum, block, iptr⟩ s.segs, s.replaced⟩
  | extend {fuel seg op} (hseg : seg ∈ s.segs)
      (hrun : segExtendSegment fuel s.space seg.forknum seg.headBlocknum = some op) :
      MapStep s (.extend seg) ⟨op.space, s.segs, s.replaced⟩
  | freeLast {seg op} (hseg : seg ∈ s.segs)
      (hrun : freeLastExtent s.space seg.forknum seg.headBlocknum = some op) :
      MapStep s (.freeLast seg) ⟨op.space, s.segs, s.replaced⟩
  | move {a fuel iptr op} (hsize : IsExtentSize a.size) (hdata : a.size ≠ SEGMENT_HEAD_EXTENT_SIZE)
      (hlive : (s.group a).Live a.block) (hiptr : getInversePointer (s.group a) a.block = some iptr)
      (husage : invrsptrGetUsage iptr = ExtentUsageType.dataExtent.toNat) (hcheck : MoveChecked s.space iptr a.block)
      (hrun : moveDataExtent fuel s.space a.size a.forknum a.block iptr = some op) :
      MapStep s (.move a) ⟨op.space, s.segs, insert a s.replaced⟩
  | skip {a fuel iptr op} (hlive : (s.group a).Live a.block)
      (hiptr : getInversePointer (s.group a) a.block = some iptr) (hcheck : ¬ MoveChecked s.space iptr a.block)
      (hrun : moveDataExtent fuel s.space a.size a.forknum a.block iptr = some op) :
      MapStep s (.move a) ⟨op.space, s.segs, s.replaced⟩
  | freeReplaced {a op} (ha : a ∈ s.replaced)
      (hrun : spcFreeExtent (.start s.space) a.size a.forknum a.block = some op) :
      MapStep s (.freeReplaced a) ⟨op.space, s.segs, s.replaced.erase a⟩

/-- Every extent that is freed or moved is found again by its block number, and the extent that the inverse pointer of
a moved one names has its size. -/
def MapOp.Traceable (s : MapState) : MapOp → Prop
  | .create _ => True
  | .extend _ => True
  | .freeLast seg => ∀ head k x, s.space.segmentHead seg.headBlocknum = some head → head.nextents = k + 1 →
    segExtentLocation s.space head k = some x →
    Findable (s.space.extentGroup (extentSizeByCount k) seg.forknum) x
  | .move a => ∀ iptr, getInversePointer (s.group a) a.block = some iptr → MoveChecked s.space iptr a.block →
    Findable (s.group a) a.block ∧ extentSizeByCount (invrsptrGetSpecialData iptr) = a.size
  | .freeReplaced a => Findable (s.group a) a.block

def MapStep.Any (s t : MapState) : Prop := ∃ op, MapStep s op t

def MapStep.Traced (s t : MapState) : Prop := ∃ op, MapOp.Traceable s op ∧ MapStep s op t

/-- A space without files and segments. -/
def newMapState : MapState := ⟨⟨fun n _ => emptyGroup n, fun _ => .empty⟩, ∅, ∅⟩

/-! ## What the trees are to say -/

/-- A level-1 slot is in use when an extent belongs to it. -/
def SlotInUse (head : SegmentHead) (slot : ℕ) : Prop :=
  ∃ id < head.nextents, BMT_HEADER_LEVEL0_SLOTS ≤ id ∧ extentIdToLevel1Slot id = slot

/-- The tree of one segment. -/
structure TreeOk (space : SegSpace) (seg : SegmentDesc) (head : SegmentHead) : Prop where
  totalBlocks : head.totalBlocks = ∑ i ∈ Finset.range head.nextents, extentSizeByCount i
  logical : ∀ b < head.totalBlocks, ∃ id offset, segLogicPageIdToExtentId b = (id, offset, extentSizeByCount id) ∧
    id < head.nextents ∧ offset < extentSizeByCount id ∧ extentIdToLogicBlockNum id + offset = b
  location : ∀ id < head.nextents, ∃ x, segExtentLocation space head id = some x ∧
    (space.extentGroup (extentSizeByCount id) seg.forknum).Live x
  level0 : ∀ slot, SlotInUse head slot → (∃ page, space.level0Page (head.level1Slots slot) = some page) ∧
    (space.extentGroup SEGMENT_HEAD_EXTENT_SIZE MAIN_FORKNUM).Live (head.level1Slots slot)

/-- The trees of all segments of a space. -/
structure BlockMapOk (s : MapState) : Prop where
  trees : ∀ seg ∈ s.segs, ∃ head, s.space.segmentHead seg.headBlocknum = some head ∧ TreeOk s.space seg head
  /-- No other extents are allocated for metadata, and each level-0 page has one slot. -/
  metadata : ∀ x, (s.space.extentGroup SEGMENT_HEAD_EXTENT_SIZE MAIN_FORKNUM).Live x ↔
    (∃ seg ∈ s.segs, x = seg.headBlocknum) ∨
      ∃ seg ∈ s.segs, ∃ head slot, s.space.segmentHead seg.headBlocknum = some head ∧ SlotInUse head slot ∧
        x = head.level1Slots slot
  level0Inj : ∀ seg ∈ s.segs, ∀ seg' ∈ s.segs, ∀ head head' slot slot',
    s.space.segmentHead seg.headBlocknum = some head → s.space.segmentHead seg'.headBlocknum = some head' →
    SlotInUse head slot → SlotInUse head' slot' → head.level1Slots slot = head'.level1Slots slot' →
    seg = seg' ∧ slot = slot'
  /-- No physical block of a fork serves two logical blocks. -/
  physicalInj : ∀ seg ∈ s.segs, ∀ seg' ∈ s.segs, seg.forknum = seg'.forknum → ∀ head head' b b' loc loc',
    s.space.segmentHead seg.headBlocknum = some head → s.space.segmentHead seg'.headBlocknum = some head' →
    b < head.totalBlocks → b' < head'.totalBlocks → segLogicToPhysicMapping s.space head b = some loc →
    segLogicToPhysicMapping s.space head' b' = some loc' → loc.extentSize = loc'.extentSize →
    loc.blocknum = loc'.blocknum → seg = seg' ∧ b = b'

/-! ## The run -/

section Run

variable {s t : MapState} {owner : ExtentAddress → Option ExtentUse} {seg : SegmentDesc} {head : SegmentHead}
  {eg : ExtentGroup} {live : Finset ℕ} {n x y z : ℕ}

lemma mapInv_new : MapInv newMapState fun _ => none := by
  have haddr : newMapState.addr = fun _ => none := by
    funext u
    cases u <;> rfl
  refine ⟨⟨haddr ▸ Ledger.empty, ?_, fun a u hu => nomatch hu⟩, ?_, ?_⟩
  · intro n f _
    exact ⟨∅, ⟨rfl, .inr ⟨rfl, rfl, rfl⟩⟩, fun x => ⟨fun hx => absurd hx (Finset.notMem_empty x),
      fun h => absurd rfl h⟩⟩
  · exact fun seg hseg => absurd hseg (Finset.notMem_empty seg)
  · exact fun a ha => absurd ha (Finset.notMem_empty a)

lemma GroupInv.live_iff (h : GroupInv n eg live) : eg.Live x ↔ x ∈ live := by
  rcases h.2 with hinv | ⟨rfl, _, hcount⟩
  · have hblock : ∀ i < eg.mapHead.groupCount, ∀ m < DF_MAP_GROUP_SIZE, ∀ b ∈ (eg.page i m).bitmap,
        u32 ((eg.page i m).firstPage + b * eg.mapHead.bitUnit) = extentBlock eg.extentSize i m b :=
      fun i hi m hm b hb => (hinv.pagenum hi hm ((hinv.pageOk i hi m hm).bits b hb) ((hinv.fits i hi).2 m hm b hb)).1
    have hpage : ∀ i < eg.mapHead.groupCount, ∀ m, eg.mapPage i m = eg.page i m := by
      intro i hi m
      rw [ExtentGroup.mapPage, hinv.firstMap i hi]
      rfl
    rw [hinv.liveBits]
    constructor
    · rintro ⟨i, hi, m, hm, b, hb, rfl⟩
      rw [hinv.pageCount i hi] at hm
      rw [hpage i hi] at hb ⊢
      exact ⟨i, hi, m, hm, b, hb, hblock i hi m hm b hb⟩
    · rintro ⟨i, hi, m, hm, b, hb, rfl⟩
      refine ⟨i, hi, m, by rwa [hinv.pageCount i hi], b, by rwa [hpage i hi], ?_⟩
      rw [hpage i hi, hblock i hi m hm b hb]
  · constructor
    · rintro ⟨i, hi, _⟩
      omega
    · exact fun hx => absurd hx (Finset.notMem_empty x)

/-- Live extents that have a block in common are the same. -/
lemma EgInv.eq_of_common (h : EgInv eg live) (hx : x ∈ live) (hy : y ∈ live) (h1 : x ≤ z) (h2 : z < x + eg.extentSize)
    (h3 : y ≤ z) (h4 : z < y + eg.extentSize) : x = y := by
  obtain ⟨i, hi, m, hm, b, hb, rfl⟩ := (h.liveBits x).mp hx
  obtain ⟨i', hi', m', hm', b', hb', rfl⟩ := (h.liveBits y).mp hy
  by_cases heq : i = i' ∧ m = m' ∧ b = b'
  · obtain ⟨rfl, rfl, rfl⟩ := heq
    rfl
  · have hdisj := @extentBlock_disjoint eg.extentSize i m b i' m' b' hm ((h.pageOk i hi m hm).bits b hb) hm'
      ((h.pageOk i' hi' m' hm').bits b' hb') heq
    omega

lemma MapInv.live_iff (h : MapInv s owner) {a : ExtentAddress} (hsize : IsExtentSize a.size) :
    (s.group a).Live a.block ↔ owner a ≠ none := by
  obtain ⟨live, hgroup, hlive⟩ := h.inv.groups a.size a.forknum hsize
  exact hgroup.live_iff.trans (hlive a.block)

lemma getInversePointer_eq {iptr : ExtentInversePointer} (h : getInversePointer eg x = some iptr) :
    repairGetInversePointer eg x = iptr := by
  unfold getInversePointer at h
  dsimp only at h
  split at h
  case isTrue => exact Option.some_inj.mp h
  case isFalse => cases h

/-- Each step keeps the invariant. -/
lemma MapInv.step (h : MapInv s owner) {op : MapOp} (htrace : op.Traceable s) (hstep : MapStep s op t) :
    ∃ owner', MapInv t owner' := by
  cases hstep with
  | create _ hrun =>
    obtain ⟨owner', hinv, _⟩ := h.create _ hrun
    exact ⟨owner', hinv⟩
  | extend hseg hrun =>
    obtain ⟨owner', _, _, _, hinv, _⟩ := h.extend hseg hrun
    exact ⟨owner', hinv⟩
  | freeLast hseg hrun =>
    obtain ⟨owner', hinv, _⟩ := h.freeLast hseg hrun htrace
    exact ⟨owner', hinv⟩
  | move hsize hdata hlive hiptr husage hcheck hrun =>
    obtain ⟨hfind, hmatch⟩ := htrace _ hiptr hcheck
    obtain ⟨owner', _, _, hinv, _⟩ :=
      h.move hsize hdata ((h.live_iff hsize).mp hlive) hfind (getInversePointer_eq hiptr) hmatch hcheck hrun
    exact ⟨owner', hinv⟩
  | skip hlive hiptr hcheck hrun =>
    rcases moveDataExtent_cases hrun with ⟨_, hspace⟩ | ⟨head, _, _, hhead, hid, hloc, _⟩
    · rw [hspace]
      exact ⟨owner, h⟩
    · exact (hcheck ⟨head, hhead, hid, hloc⟩).elim
  | freeReplaced ha hrun =>
    obtain ⟨owner', hinv, _⟩ := h.freeReplaced ha htrace hrun
    exact ⟨owner', hinv⟩

lemma mapInv_run (h : Relation.ReflTransGen MapStep.Traced newMapState s) : ∃ owner, MapInv s owner := by
  induction h with
  | refl => exact ⟨_, mapInv_new⟩
  | tail _ hstep ih =>
    obtain ⟨owner, hinv⟩ := ih
    obtain ⟨op, htrace, hstep⟩ := hstep
    exact hinv.step htrace hstep

lemma slotInUse_iff {slot : ℕ} : SlotInUse head slot ↔ slot < level1SlotsInUse head.nextents :=
  lt_level1SlotsInUse.symm

lemma MapInv.addr_live (h : MapInv s owner) {u : ExtentUse} {a : ExtentAddress} (hu : s.addr u = some a)
    (hsize : IsExtentSize a.size) : (s.group a).Live a.block := by
  refine (h.live_iff hsize).mpr ?_
  rw [h.inv.ledger.owner_eq hu]
  exact Option.some_ne_none u

lemma MapInv.treeOk (h : MapInv s owner) (hseg : seg ∈ s.segs)
    (hhead : s.space.segmentHead seg.headBlocknum = some head) : TreeOk s.space seg head := by
  have hok := h.headOk hseg hhead
  refine ⟨hok.totalBlocks.trans (extentIdToLogicBlockNum_eq_sum _), ?_, ?_, ?_⟩
  · intro b hb
    rw [hok.totalBlocks] at hb
    obtain ⟨hsize, hblock, hoff⟩ := segLogicPageIdToExtentId_spec b
    exact ⟨_, _, Prod.ext rfl (Prod.ext rfl hsize), segLogicPageIdToExtentId_lt hb, hoff, hblock⟩
  · intro id hid
    obtain ⟨x, hx⟩ := hok.location hid
    exact ⟨x, hx, h.addr_live (MapInv.addr_data hseg hhead hid hx) (isExtentSize_byCount id)⟩
  · intro slot hslot
    have hlt := slotInUse_iff.mp hslot
    exact ⟨hok.level0 slot hlt, h.addr_live (MapInv.addr_level0 hseg hhead hlt) isExtentSize_one⟩

/-- The logical block behind a physical one. -/
lemma MapInv.mapping (h : MapInv s owner) (hseg : seg ∈ s.segs)
    (hhead : s.space.segmentHead seg.headBlocknum = some head) {b : ℕ} {loc : SegPageLocation}
    (hb : b < head.totalBlocks) (hloc : segLogicToPhysicMapping s.space head b = some loc) :
    ∃ id offset x live, extentIdToLogicBlockNum id + offset = b ∧ offset < loc.extentSize ∧
      s.addr (.data seg id) = some ⟨loc.extentSize, seg.forknum, x⟩ ∧
      GroupInv loc.extentSize (s.space.extentGroup loc.extentSize seg.forknum) live ∧ x ∈ live ∧
      loc.blocknum = x + offset := by
  obtain ⟨id, offset, hlogic, hid, hoff, hblock⟩ := (h.treeOk hseg hhead).logical b hb
  unfold segLogicToPhysicMapping at hloc
  rw [hlogic] at hloc
  obtain ⟨x, hx, hres⟩ := Option.bind_eq_some_iff.mp hloc
  cases hres
  have haddr := MapInv.addr_data hseg hhead hid hx
  obtain ⟨live, hgroup, hlive⟩ := h.inv.mem_live (isExtentSize_byCount id) haddr
  refine ⟨id, offset, x, live, hblock, hoff, haddr, hgroup, hlive, ?_⟩
  have hinv := hgroup.egInv hlive
  have hfile := hinv.inFile x hlive
  have hlt := hinv.fileLt
  rw [hgroup.1] at hfile
  exact u32_of_lt (by omega)

lemma MapInv.blockMapOk (h : MapInv s owner) : BlockMapOk s := by
  refine ⟨?_, ?_, ?_, ?_⟩
  · intro seg hseg
    obtain ⟨head, hhead, _⟩ := h.heads seg hseg
    exact ⟨head, hhead, h.treeOk hseg hhead⟩
  · intro x
    have hiff := h.live_iff (a := ⟨SEGMENT_HEAD_EXTENT_SIZE, MAIN_FORKNUM, x⟩) isExtentSize_one
    refine hiff.trans ⟨?_, ?_⟩
    · intro howner
      obtain ⟨u, hu⟩ := Option.ne_none_iff_exists'.mp howner
      have haddr := h.inv.ledger.addr_eq hu
      cases u with
      | segHead seg =>
        obtain ⟨hseg, heq⟩ := MapState.addr_segHead_inv haddr
        exact .inl ⟨seg, hseg, congrArg ExtentAddress.block heq⟩
      | level0Page seg slot =>
        obtain ⟨hseg, head, hhead, hslot, heq⟩ := MapState.addr_level0_inv haddr
        exact .inr ⟨seg, hseg, head, slot, hhead, slotInUse_iff.mpr hslot, congrArg ExtentAddress.block heq⟩
      | data seg id =>
        obtain ⟨_, _, _, _, _, _, heq⟩ := MapState.addr_data_inv haddr
        exact (extentSizeByCount_ne_one id (congrArg ExtentAddress.size heq).symm).elim
      | replaced b =>
        obtain ⟨hb, heq⟩ := MapState.addr_replaced_inv haddr
        exact ((h.replacedSize b hb).2 (congrArg ExtentAddress.size heq).symm).elim
    · rintro (⟨seg, hseg, rfl⟩ | ⟨seg, hseg, head, slot, hhead, hslot, rfl⟩)
      · rw [h.inv.ledger.owner_eq (MapInv.addr_segHead hseg)]
        exact Option.some_ne_none _
      · rw [h.inv.ledger.owner_eq (MapInv.addr_level0 hseg hhead (slotInUse_iff.mp hslot))]
        exact Option.some_ne_none _
  · intro seg hseg seg' hseg' head head' slot slot' hhead hhead' hslot hslot' heq
    have haddr := MapInv.addr_level0 hseg hhead (slotInUse_iff.mp hslot)
    have haddr' := MapInv.addr_level0 hseg' hhead' (slotInUse_iff.mp hslot')
    rw [heq] at haddr
    exact ExtentUse.level0Page.inj (h.inv.ledger.inj haddr haddr')
  · intro seg hseg seg' hseg' hfork head head' b b' loc loc' hhead hhead' hb hb' hloc hloc' hsize hblock
    obtain ⟨id, off, x, live, hid, hoff, haddr, hgroup, hlive, hx⟩ := h.mapping hseg hhead hb hloc
    obtain ⟨id', off', x', live', hid', hoff', haddr', hgroup', hlive', hx'⟩ := h.mapping hseg' hhead' hb' hloc'
    rw [← hsize] at hoff' haddr' hgroup'
    rw [← hfork] at haddr' hgroup'
    have hmem : x' ∈ live := hgroup.live_iff.mp (hgroup'.live_iff.mpr hlive')
    have hinv := hgroup.egInv hlive
    have hstart : x = x' := hinv.eq_of_common (z := loc.blocknum) hlive hmem (by omega) (by rw [hgroup.1]; omega)
      (by omega) (by rw [hgroup.1]; omega)
    subst hstart
    obtain ⟨hs, hi⟩ := ExtentUse.data.inj (h.inv.ledger.inj haddr haddr')
    exact ⟨hs, by subst hi; omega⟩

/-- In every run whose freed and moved extents can be traced back, the trees stay correct. -/
theorem blockMap_run (h : Relation.ReflTransGen MapStep.Traced newMapState s) : BlockMapOk s := by
  obtain ⟨owner, hinv⟩ := mapInv_run h
  exact hinv.blockMapOk

end Run

end GaussKernel.Segment
