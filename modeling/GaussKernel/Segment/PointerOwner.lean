import GaussKernel.Segment.GrownSegment

/-!
# The owners of extents

From the inverse pointer of an extent one gets back to the segment and the number of the extent, and so from a physical
block to the relation and its logical block. The number is kept in 18 bits, while a segment may have more extents.
-/

namespace GaussKernel.Segment

open Lib

/-! ## From a physical block to the relation -/

abbrev SegmentBktId : ℕ := 16384

/-- The fields of a `RelFileNode` that tell the segments of a space apart. -/
structure LogicNode where
  relNode : ℕ
  bucketNode : ℕ

/-- `get_segment_logic_rnode` -/
def getSegmentLogicRnode (space : SegSpace) (headBlocknum aimFork : ℕ) : Option LogicNode := do
  let iptr ← getInversePointer (space.extentGroup SEGMENT_HEAD_EXTENT_SIZE MAIN_FORKNUM) headBlocknum
  let usage := invrsptrGetUsage iptr
  let (rnode, forknum) ←
    if usage = ExtentUsageType.segmentHead.toNat then
      if iptr.owner = InvalidBlockNumber then some ((⟨headBlocknum, SegmentBktId⟩ : LogicNode), MAIN_FORKNUM) else none
    else if usage = ExtentUsageType.forkHead.toNat then
      if invrsptrGetSpecialData iptr ≠ MAIN_FORKNUM then
        some (⟨iptr.owner, SegmentBktId⟩, invrsptrGetSpecialData iptr)
      else none
    else if usage = ExtentUsageType.bucketHead.toNat then
      some (⟨iptr.owner, invrsptrGetSpecialData iptr % MAX_BUCKETMAPLEN⟩,
        invrsptrGetSpecialData iptr / MAX_BUCKETMAPLEN)
    else some (⟨InvalidBlockNumber, SegmentBktId⟩, MAIN_FORKNUM)
  pure (if aimFork ≠ forknum then { rnode with relNode := InvalidBlockNumber } else rnode)

/-- `check_meta_data`: nothing for a metadata page, else the offset of the block in its extent. -/
def checkMetaData (extent extentSize : ℕ) : Option ℕ :=
  if extent < DF_MAP_HEAD_PAGE + 1 ∨ extentSize = 1 then none
  else
    let extent := extent - (DF_MAP_HEAD_PAGE + 1)
    let groupTotalBlocks := u32 (DF_MAP_GROUP_SIZE + IPBLOCK_GROUP_SIZE + DF_MAP_GROUP_EXTENTS * extentSize)
    let groupOffset := extent % groupTotalBlocks
    if groupOffset < DF_MAP_GROUP_SIZE + IPBLOCK_GROUP_SIZE then none
    else some ((groupOffset - DF_MAP_GROUP_SIZE - IPBLOCK_GROUP_SIZE) % extentSize)

/-- `repair_check_physical_type`: the relation and the logical block, or nothing (inner `none`) for a metadata page. -/
def repairCheckPhysicalType (space : SegSpace) (extentSize forknum blocknum : ℕ) : Option (Option (ℕ × ℕ)) :=
  match checkMetaData blocknum extentSize with
  | none => some none
  | some offsetBlocks => do
    let iptr := repairGetInversePointer (space.extentGroup extentSize forknum) blocknum
    if inversePointerIsValid iptr then do
      let logicNode ← getSegmentLogicRnode space iptr.owner forknum
      pure (some (logicNode.relNode, u32 (extentIdToLogicBlockNum (invrsptrGetSpecialData iptr) + offsetBlocks)))
    else none

/-! ## What the pointers are to say -/

/-- The relation of a segment. -/
def SegmentDesc.relNode (seg : SegmentDesc) : ℕ :=
  if invrsptrGetUsage seg.headPointer = ExtentUsageType.segmentHead.toNat then seg.headBlocknum
  else seg.headPointer.owner

/-- The inverse pointers of the data extents of all segments. -/
structure PointersOk (s : MapState) : Prop where
  owner : ∀ seg ∈ s.segs, ∀ head, s.space.segmentHead seg.headBlocknum = some head → ∀ id < head.nextents,
    ∃ x iptr, segExtentLocation s.space head id = some x ∧
      getInversePointer (s.space.extentGroup (extentSizeByCount id) seg.forknum) x = some iptr ∧
      invrsptrGetUsage iptr = ExtentUsageType.dataExtent.toNat ∧ iptr.owner = seg.headBlocknum ∧
      segExtentLocation s.space head (invrsptrGetSpecialData iptr) = some x
  repair : ∀ seg ∈ s.segs, ∀ head, s.space.segmentHead seg.headBlocknum = some head → ∀ b < head.totalBlocks,
    ∀ loc, segLogicToPhysicMapping s.space head b = some loc →
      repairCheckPhysicalType s.space loc.extentSize seg.forknum loc.blocknum = some (some (seg.relNode, b))

/-- An extent in front of the wrapped end of the group of the largest extents is free. -/
def FrontFree (eg : ExtentGroup) : Prop := eg.extentSize = 8192 →
  ∃ m < DF_MAP_GROUP_SIZE, ∃ b < DF_MAP_BIT_CNT, extentBlock 8192 0 m b < 4143976509 ∧
    ¬ eg.Live (extentBlock 8192 0 m b)

/-- The number of a new extent fits in 18 bits, and the place of its pointer is computed without overflow. -/
def MapOp.Identifiable (s : MapState) : MapOp → Prop
  | .extend seg => ∀ head, s.space.segmentHead seg.headBlocknum = some head → head.nextents < 2 ^ 18 ∧
    FrontFree (s.space.extentGroup (extentSizeByCount head.nextents) seg.forknum)
  | .move a => FrontFree (s.group a)
  | _ => True

def MapStep.Identified (s t : MapState) : Prop := ∃ op, MapOp.Traceable s op ∧ MapOp.Identifiable s op ∧ MapStep s op t

/-! ## The invariant -/

section Owner

variable {s t : MapState} {owner : ExtentAddress → Option ExtentUse} {seg : SegmentDesc} {head : SegmentHead}
  {forknum n f x id fuel : ℕ} {iptr : ExtentInversePointer} {op op' : AtomicOp}

/-- The extents of data can be told from their pointers. -/
structure OwnerInv (s : MapState) (owner : ExtentAddress → Option ExtentUse) : Prop where
  inv : MapInv s owner
  data : ∀ a seg id, owner a = some (.data seg id) → id < 2 ^ 18 ∧ PointerExact a.size a.block
  heads : ∀ seg ∈ s.segs, HeadPointer seg.forknum seg.headPointer

lemma pointerExact_of_lt (hn : IsExtentSize n) (h : n = 8192 → x < 4143976509) : PointerExact n x := by
  by_cases hsmall : groupBlocks n < 2 ^ 32
  · exact .inl hsmall
  · have hlt := h (hn.large hsmall)
    obtain rfl := hn.large hsmall
    refine .inr ?_
    rw [u32_groupBlocks]
    simp only [DF_MAP_HEAD_PAGE]
    omega

/-- The first free extent lies in front of the wrapped end, if any free one does. -/
lemma MapInv.alloc_exact (h : MapInv s owner) (hn : IsExtentSize n) (hfront : FrontFree (s.space.extentGroup n f))
    (hrun : spcAllocExtent fuel (.start s.space) n f none iptr = some (x, op')) : PointerExact n x := by
  refine pointerExact_of_lt hn fun hlarge => ?_
  subst hlarge
  obtain ⟨live, hgroup, _⟩ := h.inv.groups 8192 f hn
  obtain ⟨m, hm, b, hb, hlt, hfree⟩ := hfront hgroup.1
  have hstart := h.start
  by_contra hfar
  refine hfree ((h.live_iff (a := ⟨8192, f, extentBlock 8192 0 m b⟩) hn).mpr ?_)
  exact hstart.firstFit hn hrun hm hb (by omega)

lemma OwnerInv.step (h : OwnerInv s owner) {op : MapOp} (htrace : op.Traceable s) (hident : op.Identifiable s)
    (hstep : MapStep s op t) : ∃ owner', OwnerInv t owner' := by
  cases hstep with
  | create hptr hrun =>
    obtain ⟨owner', hinv, hfrom⟩ := h.inv.create _ hrun
    refine ⟨owner', hinv, fun a v i hu => h.data a v i ((hfrom a v i hu).resolve_right id), ?_⟩
    intro v hv
    rcases Finset.mem_insert.mp hv with rfl | hv
    · exact hptr
    · exact h.heads v hv
  | extend hseg hrun =>
    obtain ⟨owner', head, x, op₁, hinv, hhead, halloc, hfrom, _⟩ := h.inv.extend hseg hrun
    obtain ⟨hlt, hfront⟩ := hident head hhead
    refine ⟨owner', hinv, fun a v i hu => ?_, h.heads⟩
    rcases hfrom a v i hu with hold | ⟨rfl, rfl⟩
    · exact h.data a v i hold
    · exact ⟨hlt, h.inv.alloc_exact (isExtentSize_byCount _) hfront halloc⟩
  | freeLast hseg hrun =>
    obtain ⟨owner', hinv, hfrom⟩ := h.inv.freeLast hseg hrun htrace
    exact ⟨owner', hinv, fun a v i hu => h.data a v i ((hfrom a v i hu).resolve_right id), h.heads⟩
  | move hsize hdata hlive hiptr husage hcheck hrun =>
    obtain ⟨hfind, hmatch⟩ := htrace _ hiptr hcheck
    obtain ⟨owner', x, op₁, hinv, halloc, hfrom⟩ :=
      h.inv.move hsize hdata ((h.inv.live_iff hsize).mp hlive) hfind (getInversePointer_eq hiptr) hmatch hcheck hrun
    refine ⟨owner', hinv, fun b v i hu => ?_, h.heads⟩
    rcases hfrom b v i hu with hold | ⟨rfl, rfl⟩
    · exact h.data b v i hold
    · exact ⟨Nat.mod_lt _ (by decide), h.inv.alloc_exact hsize hident halloc⟩
  | skip hlive hiptr hcheck hrun =>
    rcases moveDataExtent_cases hrun with ⟨_, hspace⟩ | ⟨head, _, _, hhead, hid, hloc, _⟩
    · rw [hspace]
      exact ⟨owner, h⟩
    · exact (hcheck ⟨head, hhead, hid, hloc⟩).elim
  | freeReplaced ha hrun =>
    obtain ⟨owner', hinv, hfrom⟩ := h.inv.freeReplaced ha htrace hrun
    exact ⟨owner', hinv, fun a v i hu => h.data a v i ((hfrom a v i hu).resolve_right id), h.heads⟩

lemma ownerInv_run (h : Relation.ReflTransGen MapStep.Identified newMapState s) : ∃ owner, OwnerInv s owner := by
  induction h with
  | refl => exact ⟨_, mapInv_new, fun _ _ _ hu => (nomatch hu), fun v hv => absurd hv (Finset.notMem_empty v)⟩
  | tail _ hstep ih =>
    obtain ⟨owner, hinv⟩ := ih
    obtain ⟨op, htrace, hident, hstep⟩ := hstep
    exact hinv.step htrace hident hstep

/-! ## Reading the pointers -/

lemma assembleFlag_valid {usage : ExtentUsageType} {data block : ℕ} (husage : usage ≠ .notUsed) :
    inversePointerIsValid ⟨assembleFlag usage data, block⟩ := by
  unfold inversePointerIsValid
  rw [invrsptrGetUsage_assemble]
  cases usage with
  | notUsed => exact absurd rfl husage
  | _ => decide

lemma getInversePointer_of_valid {eg : ExtentGroup} (h : repairGetInversePointer eg x = iptr)
    (hvalid : inversePointerIsValid iptr) : getInversePointer eg x = some iptr := by
  unfold getInversePointer
  dsimp only
  rw [h, if_pos hvalid]

/-- The head of a segment leads to its relation. -/
lemma OwnerInv.logicRnode (h : OwnerInv s owner) (hseg : seg ∈ s.segs) :
    ∃ bucketNode, getSegmentLogicRnode s.space seg.headBlocknum seg.forknum = some ⟨seg.relNode, bucketNode⟩ := by
  have hptr := h.inv.inv.pointers _ _ (h.inv.inv.ledger.owner_eq (MapInv.addr_segHead hseg))
    (.inl (show groupBlocks 1 < 2 ^ 32 by decide))
  change repairGetInversePointer (s.space.extentGroup SEGMENT_HEAD_EXTENT_SIZE MAIN_FORKNUM) seg.headBlocknum
    = seg.headPointer at hptr
  have hhead := h.heads seg hseg
  obtain ⟨f, block, iptr⟩ := seg
  unfold getSegmentLogicRnode SegmentDesc.relNode
  dsimp only at *
  cases hhead with
  | segmentHead =>
    rw [getInversePointer_of_valid hptr (assembleFlag_valid (by nofun)), Option.bind_eq_bind, Option.bind_some]
    dsimp only
    rw [invrsptrGetUsage_assemble, if_pos rfl, if_pos rfl, if_pos rfl]
    exact ⟨_, rfl⟩
  | forkHead hmain hle =>
    have hspecial : f % 2 ^ 18 = f := Nat.mod_eq_of_lt (by simp only [SEGMENT_MAX_FORKNUM] at hle; omega)
    rw [getInversePointer_of_valid hptr (assembleFlag_valid (by nofun)), Option.bind_eq_bind, Option.bind_some]
    dsimp only
    rw [invrsptrGetUsage_assemble, invrsptrGetSpecialData_assemble, hspecial, if_neg (by decide), if_pos rfl,
      if_pos hmain, if_neg (by decide)]
    dsimp only [Option.bind_eq_bind, Option.bind_some]
    rw [if_neg (not_not.mpr rfl)]
    exact ⟨_, rfl⟩
  | @bucketHead _ bucketid _ hle hbucket =>
    have hspecial : (f * MAX_BUCKETMAPLEN + bucketid) % 2 ^ 18 = f * MAX_BUCKETMAPLEN + bucketid :=
      Nat.mod_eq_of_lt (by simp only [SEGMENT_MAX_FORKNUM, MAX_BUCKETMAPLEN] at *; omega)
    have hfork : (f * MAX_BUCKETMAPLEN + bucketid) / MAX_BUCKETMAPLEN = f := by
      simp only [MAX_BUCKETMAPLEN] at *
      omega
    rw [getInversePointer_of_valid hptr (assembleFlag_valid (by nofun)), Option.bind_eq_bind, Option.bind_some]
    dsimp only
    rw [invrsptrGetUsage_assemble, invrsptrGetSpecialData_assemble, hspecial, hfork, if_neg (by decide),
      if_neg (by decide), if_pos rfl, if_neg (by decide)]
    dsimp only [Option.bind_eq_bind, Option.bind_some]
    rw [if_neg (not_not.mpr rfl)]
    exact ⟨_, rfl⟩

/-- The inverse pointer of a data extent. -/
lemma MapInv.data_pointer (h : MapInv s owner) (hseg : seg ∈ s.segs)
    (hhead : s.space.segmentHead seg.headBlocknum = some head) (hid : id < head.nextents)
    (hx : segExtentLocation s.space head id = some x) (hexact : PointerExact (extentSizeByCount id) x) :
    repairGetInversePointer (s.space.extentGroup (extentSizeByCount id) seg.forknum) x
      = ⟨assembleFlag .dataExtent id, seg.headBlocknum⟩ :=
  h.inv.pointers _ _ (h.inv.ledger.owner_eq (MapInv.addr_data hseg hhead hid hx)) hexact

lemma OwnerInv.data_exact (h : OwnerInv s owner) (hseg : seg ∈ s.segs)
    (hhead : s.space.segmentHead seg.headBlocknum = some head) (hid : id < head.nextents)
    (hx : segExtentLocation s.space head id = some x) : id < 2 ^ 18 ∧ PointerExact (extentSizeByCount id) x :=
  h.data _ _ _ (h.inv.inv.ledger.owner_eq (MapInv.addr_data hseg hhead hid hx))

/-- The offset of a block in its extent is found again. -/
lemma checkMetaData_extentBlock {ext k m b off : ℕ} (hm : m < DF_MAP_GROUP_SIZE) (hb : b < DF_MAP_BIT_CNT)
    (hext : IsExtentSize ext) (hone : ext ≠ 1) (hoff : off < ext) (hlt : extentBlock ext k m b + ext ≤ 2 ^ 32)
    (hexact : PointerExact ext (extentBlock ext k m b)) :
    checkMetaData (extentBlock ext k m b + off) ext = some off := by
  obtain ⟨_, hmod, _⟩ := extentBlock_split hm hb hext hoff hexact hlt
  have hgroup : u32 (DF_MAP_GROUP_SIZE + IPBLOCK_GROUP_SIZE + DF_MAP_GROUP_EXTENTS * ext) = u32 (groupBlocks ext) := rfl
  have hstart : DF_MAP_HEAD_PAGE + 1 ≤ extentBlock ext k m b + off := by
    have hge := @dataStart_le_extentBlock ext k m b
    rw [dataStart, groupStart_eq] at hge
    omega
  unfold checkMetaData
  rw [if_neg (not_or.mpr ⟨not_lt.mpr hstart, hone⟩)]
  dsimp only
  rw [hgroup, hmod, if_neg (not_lt.mpr (Nat.le_add_right _ _)), Nat.sub_sub, Nat.add_sub_cancel_left,
    Nat.add_comm, Nat.add_mul_mod_self_right, Nat.mod_eq_of_lt hoff]

/-- All blocks of an extent share its pointer, and their offsets are found again. -/
lemma EgInv.repair_offset {eg : ExtentGroup} {live : Finset ℕ} {off : ℕ} (h : EgInv eg live) (hx : x ∈ live)
    (hone : eg.extentSize ≠ 1) (hoff : off < eg.extentSize) (hexact : PointerExact eg.extentSize x) :
    checkMetaData (x + off) eg.extentSize = some off ∧
      repairGetInversePointer eg (x + off) = repairGetInversePointer eg x := by
  obtain ⟨k, hk, m, hm, b, hb, rfl⟩ := (h.liveBits x).mp hx
  have hbit := (h.pageOk k hk m hm).bits b hb
  have hlt := (h.fits k hk).2 m hm b hb
  refine ⟨checkMetaData_extentBlock hm hbit h.size hone hoff hlt hexact, ?_⟩
  unfold repairGetInversePointer
  rw [getIpBlock_extentBlock hm hbit h.size hoff hlt hexact, getIpBlock_extentBlock_self hm hbit h.size hlt hexact]

lemma OwnerInv.pointersOk (h : OwnerInv s owner) : PointersOk s := by
  refine ⟨?_, ?_⟩
  · intro seg hseg head hhead id hid
    obtain ⟨x, hx, _⟩ := (h.inv.treeOk hseg hhead).location id hid
    obtain ⟨hlt, hexact⟩ := h.data_exact hseg hhead hid hx
    have hptr := h.inv.data_pointer hseg hhead hid hx hexact
    refine ⟨x, _, hx, getInversePointer_of_valid hptr (assembleFlag_valid (by nofun)), ?_, rfl, ?_⟩
    · exact invrsptrGetUsage_assemble _ _ _
    · rw [invrsptrGetSpecialData_assemble, Nat.mod_eq_of_lt hlt, hx]
  · intro seg hseg head hhead b hb loc hloc
    obtain ⟨id, off, x, live, hblock, hoff, haddr, hgroup, hlive, hx⟩ := h.inv.mapping hseg hhead hb hloc
    obtain ⟨_, head', hhead', hid, y, hy, heq⟩ := MapState.addr_data_inv haddr
    obtain rfl : head' = head := Option.some_inj.mp (hhead'.symm.trans hhead)
    obtain ⟨hsize, _, rfl⟩ := ExtentAddress.mk.inj heq
    obtain ⟨hlt, hexact⟩ := h.data_exact hseg hhead hid hy
    have hinv := hgroup.egInv hlive
    have hptr := h.inv.data_pointer hseg hhead hid hy hexact
    rw [← hsize] at hexact hptr
    have hone : loc.extentSize ≠ 1 := hsize ▸ extentSizeByCount_ne_one id
    have hoffset := @EgInv.repair_offset x _ live off hinv hlive
    rw [hgroup.1] at hoffset
    obtain ⟨hmeta, hsame⟩ := hoffset hone hoff hexact
    obtain ⟨bucketNode, hnode⟩ := h.logicRnode hseg
    have htotal := (h.inv.heads seg hseg)
    obtain ⟨head₂, hhead₂, hok⟩ := htotal
    obtain rfl : head₂ = head' := Option.some_inj.mp (hhead₂.symm.trans hhead)
    have hmax := extentIdToLogicBlockNum_lt hok.nextents
    rw [hok.totalBlocks] at hb
    unfold repairCheckPhysicalType
    rw [hx, hmeta, hsame, hptr]
    dsimp only
    rw [invrsptrGetSpecialData_assemble, Nat.mod_eq_of_lt hlt,
      if_pos (assembleFlag_valid (by nofun)), hnode, hblock, u32_of_lt (hb.trans hmax)]
    rfl

/-- In every run whose freed and moved extents can be traced back, and whose extents have small numbers and pointers in
front of the wrapped end, the pointers identify the owners. -/
theorem inversePointer_run (h : Relation.ReflTransGen MapStep.Identified newMapState s) : PointersOk s := by
  obtain ⟨owner, hinv⟩ := ownerInv_run h
  exact hinv.pointersOk

/-! ## A large segment -/

/-- Behind the extents of a filled group the next one is free. -/
lemma Packed.frontFree {eg : ExtentGroup} {c : ℕ} (h : Packed n eg c) (hc : c < 505856) : FrontFree eg := by
  intro hsize
  obtain rfl : n = 8192 := h.inv.1.symm.trans hsize
  have hblock : extentBlock 8192 0 (c / DF_MAP_BIT_CNT) (c % DF_MAP_BIT_CNT) = packedBlock 8192 c := by
    rw [extentBlock, Nat.div_add_mod']
    rfl
  refine ⟨c / DF_MAP_BIT_CNT, ?_, c % DF_MAP_BIT_CNT, Nat.mod_lt _ (by decide), ?_, ?_⟩
  · simp only [DF_MAP_BIT_CNT, DF_MAP_GROUP_SIZE]
    omega
  · rw [hblock, packedBlock_eq]
    omega
  · rw [h.inv.live_iff, hblock, mem_packed (by decide)]
    exact lt_irrefl c

lemma grown_identified {k : ℕ} (hk : k ≤ 2 ^ 18) :
    ∃ s, Grown s k ∧ Relation.ReflTransGen MapStep.Identified newMapState s := by
  induction k with
  | zero =>
    obtain ⟨s, hstep, h⟩ := grown_zero
    exact ⟨s, h, .single ⟨.create MAIN_FORKNUM, trivial, trivial, hstep⟩⟩
  | succ k ih =>
    obtain ⟨s, h, hrun⟩ := ih (Nat.le_of_succ_le hk)
    obtain ⟨t, hstep, h'⟩ := h.extend (by
      simp only [BMT_TOTAL_EXTENTS, BMT_HEADER_LEVEL0_SLOTS, BMT_HEADER_LEVEL1_SLOTS, BMT_LEVEL0_SLOTS]
      omega)
    refine ⟨t, h', hrun.tail ⟨.extend firstSegment, trivial, ?_, hstep⟩⟩
    intro head hhead
    obtain ⟨head', hhead', hn⟩ := h.head
    obtain rfl : head' = head := Option.some_inj.mp (hhead'.symm.trans hhead)
    rw [hn]
    refine ⟨hk, (h.groups _ (isExtentSize_byCount k)).frontFree ?_⟩
    have hle : extentsInUse k (extentSizeByCount k) ≤ k := by
      rw [extentsInUse, if_neg (extentSizeByCount_ne_one k)]
      exact Nat.count_le _
    omega

/-- The segment with the most extents that 18 bits can number. -/
theorem inversePointer_run_grown : ∃ s head, Relation.ReflTransGen MapStep.Identified newMapState s ∧
    s.space.segmentHead 4157 = some head ∧ head.nextents = 262144 ∧ PointersOk s := by
  obtain ⟨s, h, hrun⟩ := grown_identified (le_refl (2 ^ 18))
  obtain ⟨head, hhead, hn⟩ := h.head
  exact ⟨s, head, hrun, hhead, hn, inversePointer_run hrun⟩

/-- The extent with number 262144 is taken for the one with number 0. -/
theorem inversePointer_number_lost : ∃ s t, Relation.ReflTransGen MapStep.Any newMapState s ∧
    (∃ head, s.space.segmentHead 4157 = some head ∧ head.nextents = 262144) ∧
    MapStep s (.extend firstSegment) t ∧ PointersOk s ∧ ¬ PointersOk t := by
  obtain ⟨s, h, hrun⟩ := grown_identified (le_refl (2 ^ 18))
  obtain ⟨owner, hinv⟩ := ownerInv_run hrun
  obtain ⟨t, hstep, h'⟩ := h.extend (by
    simp only [BMT_TOTAL_EXTENTS, BMT_HEADER_LEVEL0_SLOTS, BMT_HEADER_LEVEL1_SLOTS, BMT_LEVEL0_SLOTS]
    omega)
  have hany : Relation.ReflTransGen MapStep.Any newMapState s := h.run.lift id fun _ _ ⟨op, _, hop⟩ => ⟨op, hop⟩
  refine ⟨s, t, hany, h.head, hstep, hinv.pointersOk, fun hok => ?_⟩
  obtain ⟨owner', hinv'⟩ := mapInv_run h'.run
  obtain ⟨head, hhead, hn⟩ := h'.head
  obtain ⟨x, iptr, hx, hiptr, _, _, hback⟩ := hok.owner firstSegment h'.mem head hhead 262144 (by omega)
  have hloc := h'.location hhead (show 262144 < 2 ^ 18 + 1 by omega)
  obtain rfl : grownBlock 262144 = x := Option.some_inj.mp (hloc.symm.trans hx)
  have hblock : grownBlock 262144 = 2145398845 := grownBlock_large (by decide)
  have hptr := hinv'.data_pointer h'.mem hhead (show 262144 < head.nextents by omega) hx
    (pointerExact_of_lt (isExtentSize_byCount _) fun _ => by omega)
  rw [getInversePointer_of_valid hptr (assembleFlag_valid (by nofun))] at hiptr
  obtain rfl := Option.some_inj.mp hiptr
  have hzero : invrsptrGetSpecialData ⟨assembleFlag .dataExtent 262144, firstSegment.headBlocknum⟩ = 0 :=
    invrsptrGetSpecialData_assemble _ _ _
  rw [hzero, h'.location hhead (Nat.succ_pos _), hblock] at hback
  exact absurd (Option.some_inj.mp hback) (by decide)

end Owner

end GaussKernel.Segment
