import GaussKernel.Segment.GrownSegment

/-!
# Extending up to a logical block

`seg_extend` and `seg_preextend` add extents to a segment until it holds a given logical block. Neither the loop nor
the functions it calls compare the number of extents with the size of the block map tree.
-/

namespace GaussKernel.Segment

/-- An element of an array that is read or written: of the head, or of a level-0 page. -/
inductive SlotAccess where
  | level0Slot (i : ℕ)
  | level1Slot (i : ℕ)
  | level0Page (i : ℕ)

def SlotAccess.Inside : SlotAccess → Prop
  | level0Slot i => i < BMT_HEADER_LEVEL0_SLOTS
  | level1Slot i => i < BMT_HEADER_LEVEL1_SLOTS
  | level0Page i => i < BMT_LEVEL0_SLOTS

/-- The way of `seg_extent_location` and of `seg_record_new_extent_on_level0_page` to an extent. -/
def extentAccesses (extentId : ℕ) : List SlotAccess :=
  if extentId < BMT_HEADER_LEVEL0_SLOTS then [.level0Slot extentId]
  else [.level1Slot (extentIdToLevel1Slot extentId), .level0Page (extentIdToLevel0PageOffset extentId)]

/-- What `seg_extend_segment` touches. Nothing, if the extent or the level-0 page cannot be allocated. -/
def segExtendSegmentAccesses (fuel : ℕ) (space : SegSpace) (forknum headBlock : ℕ) : List SlotAccess :=
  match space.segmentHead headBlock with
  | none => []
  | some head =>
    let newExtentId := head.nextents
    let iptr : ExtentInversePointer := ⟨assembleFlag .dataExtent newExtentId, headBlock⟩
    match spcAllocExtent fuel (.start space) (extentSizeByCount newExtentId) forknum none iptr with
    | none => []
    | some (_, op) =>
      if newExtentId < BMT_HEADER_LEVEL0_SLOTS then [.level0Slot newExtentId]
      else if requireNewLevel0Page newExtentId then
        match spcAllocExtent fuel op SEGMENT_HEAD_EXTENT_SIZE MAIN_FORKNUM none iptr with
        | none => []
        | some _ => [.level0Page 0, .level1Slot (extentIdToLevel1Slot newExtentId)]
      else extentAccesses newExtentId

/-- `seg_extend_internal`, for at most `rounds` extents: what is touched, and the space unless the request failed. -/
def segExtendInternal (fuel : ℕ) : ℕ → SegSpace → ℕ → ℕ → ℕ → List SlotAccess × Option SegSpace
  | 0, _, _, _, _ => ([], none)
  | rounds + 1, space, forknum, headBlock, blocknum =>
    match space.segmentHead headBlock with
    | none => ([], none)
    | some head =>
      if head.totalBlocks ≤ blocknum then
        let accesses := segExtendSegmentAccesses fuel space forknum headBlock
        match segExtendSegment fuel space forknum headBlock with
        | none => (accesses, none)
        | some op =>
          let rest := segExtendInternal fuel rounds op.space forknum headBlock blocknum
          (accesses ++ rest.1, rest.2)
      else ([], some space)

/-- `seg_preextend`, and `seg_extend`, which locates the block afterwards. -/
def segExtendAccesses (fuel rounds : ℕ) (space : SegSpace) (forknum headBlock blocknum : ℕ) : List SlotAccess :=
  let run := segExtendInternal fuel rounds space forknum headBlock blocknum
  match run.2 with
  | none => run.1
  | some _ => run.1 ++ extentAccesses (segLogicPageIdToExtentId blocknum).1

/-- The blocks of a full block map tree. -/
abbrev BMT_TOTAL_BLOCKS : ℕ := 4202627072

lemma extentIdToLogicBlockNum_total : extentIdToLogicBlockNum BMT_TOTAL_EXTENTS = BMT_TOTAL_BLOCKS := by decide

/-- Every segment head of a space has a number of extents that the tree can hold. -/
def SegSpace.HeadsOk (space : SegSpace) : Prop := ∀ block head, space.segmentHead block = some head → head.Ok

section Heads

variable {space space' : SegSpace} {head : SegmentHead} {block fuel n f forknum headBlock blocknum id rounds x : ℕ}
  {iptr : ExtentInversePointer} {preassigned : Option ℕ} {op op' : AtomicOp} {s t : MapState}

lemma SegSpace.HeadsOk.setHead (h : space.HeadsOk) (hok : head.Ok) :
    (space.setPage block (.segmentHead head)).HeadsOk := by
  intro b head' hhead
  by_cases heq : b = block
  · subst heq
    rw [segmentHead_setPage_self] at hhead
    exact Option.some_inj.mp hhead ▸ hok
  · rw [segmentHead_setPage_of_ne heq] at hhead
    exact h b head' hhead

lemma SegSpace.HeadsOk.setLevel0 {page : BMTLevel0Page} (h : space.HeadsOk) :
    (space.setPage block (.level0 page)).HeadsOk := by
  intro b head' hhead
  by_cases heq : b = block
  · subst heq
    simp only [SegSpace.segmentHead, SegSpace.setPage, Function.update_self, reduceCtorEq] at hhead
  · rw [segmentHead_setPage_of_ne heq] at hhead
    exact h b head' hhead

lemma SegSpace.HeadsOk.congr (h : space.HeadsOk) (hpages : space'.segPages = space.segPages) : space'.HeadsOk :=
  fun b head' hhead => h b head' (segmentHead_congr (congrFun hpages b) ▸ hhead)

lemma spcAllocExtent_pages (hrun : spcAllocExtent fuel op n f preassigned iptr = some (x, op')) :
    op'.space.segPages = op.space.segPages := by
  obtain ⟨⟨y, eg, log, pending⟩, _, hrun⟩ := Option.bind_eq_some_iff.mp hrun
  cases hrun
  rfl

lemma spcFreeExtent_pages (hrun : spcFreeExtent op n f block = some op') : op'.space.segPages = op.space.segPages := by
  unfold spcFreeExtent at hrun
  split at hrun
  case isTrue => cases hrun
  case isFalse =>
    obtain ⟨⟨eg, pending⟩, _, hrun⟩ := Option.bind_eq_some_iff.mp hrun
    cases hrun
    rfl

/-- A new extent finds a place in the tree, if the segment is extended at all. -/
lemma segExtendSegment_headsOk (h : space.HeadsOk) (hrun : segExtendSegment fuel space forknum headBlock = some op) :
    op.space.HeadsOk := by
  obtain ⟨head, x, op₁, hhead, halloc, hcases⟩ := segExtendSegment_cases hrun
  have hok := h _ _ hhead
  have hmax := hok.nextents
  have h₁ : op₁.space.HeadsOk := h.congr (spcAllocExtent_pages halloc)
  rcases hcases with ⟨hlt, hspace⟩ | ⟨hnew, hslot, p, op₂, head₂, halloc₂, hhead₂, hspace⟩ | ⟨hge, hold, page, hpage,
    hspace⟩
  · have hadd := hok.addExtent (by omega)
    rw [hspace]
    exact h₁.setHead ⟨hadd.nextents, hadd.totalBlocks⟩
  · have h₂ : (op₂.space.setPage p (.level0 (initLevel0Page x))).HeadsOk :=
      (h₁.congr (spcAllocExtent_pages halloc₂)).setLevel0
    -- the head that is read again is the same
    have hne : headBlock ≠ p := by
      rintro rfl
      simp only [SegSpace.segmentHead, SegSpace.setPage, Function.update_self, reduceCtorEq] at hhead₂
    have hsame := hhead₂
    rw [segmentHead_setPage_of_ne hne, segmentHead_congr (congrFun (spcAllocExtent_pages halloc₂) _),
      segmentHead_congr (congrFun (spcAllocExtent_pages halloc) _)] at hsame
    obtain rfl : head = head₂ := Option.some_inj.mp (hhead.symm.trans hsame)
    have hlt : head.nextents < BMT_TOTAL_EXTENTS := by
      have hge := hnew.1
      unfold extentIdToLevel1Slot at hslot
      simp only [BMT_TOTAL_EXTENTS, BMT_HEADER_LEVEL0_SLOTS, BMT_HEADER_LEVEL1_SLOTS, BMT_LEVEL0_SLOTS] at *
      omega
    have hadd := hok.addExtent hlt
    rw [hspace]
    exact h₂.setHead ⟨hadd.nextents, hadd.totalBlocks⟩
  · have hlt : head.nextents ≠ BMT_TOTAL_EXTENTS := by
      rintro heq
      rw [heq] at hold
      exact hold (by decide)
    rw [hspace]
    exact h₁.setLevel0.setHead (hok.addExtent (lt_of_le_of_ne hmax hlt))

lemma moveDataExtent_headsOk (h : space.HeadsOk) (hrun : moveDataExtent fuel space n f x iptr = some op) :
    op.space.HeadsOk := by
  rcases moveDataExtent_cases hrun with ⟨_, hspace⟩ | ⟨head, y, op₁, hhead, _, _, halloc, hcases⟩
  · exact hspace ▸ h
  have hok := h _ _ hhead
  have h₁ : op₁.space.HeadsOk := h.congr (spcAllocExtent_pages halloc)
  rcases hcases with ⟨_, hspace⟩ | ⟨_, page, head₂, _, hhead₂, hspace⟩
  · rw [hspace]
    exact h₁.setHead ⟨hok.nextents, hok.totalBlocks⟩
  · rw [hspace]
    exact h₁.setLevel0.setHead (h₁.setLevel0 _ _ hhead₂)

lemma MapStep.headsOk {o : MapOp} (h : s.space.HeadsOk) (hstep : MapStep s o t) : t.space.HeadsOk := by
  cases hstep with
  | create _ hrun =>
    obtain ⟨⟨x, op⟩, halloc, hrun⟩ := Option.bind_eq_some_iff.mp hrun
    cases hrun
    exact (h.congr (spcAllocExtent_pages halloc)).setHead ⟨Nat.zero_le _, rfl⟩
  | extend _ hrun => exact segExtendSegment_headsOk h hrun
  | freeLast _ hrun =>
    obtain ⟨head, k, x, op₁, hhead, hk, _, hfree, hcases⟩ := freeLastExtent_cases hrun
    have hdrop := (h _ _ hhead).dropExtent (hk ▸ Nat.succ_ne_zero k)
    have h₁ := h.congr (spcFreeExtent_pages hfree)
    rcases hcases with ⟨_, op₂, hfree₂, hspace⟩ | ⟨_, hspace⟩
    · rw [hspace]
      exact (h₁.congr (spcFreeExtent_pages hfree₂)).setHead ⟨hdrop.nextents, hdrop.totalBlocks⟩
    · rw [hspace]
      exact h₁.setHead hdrop
  | move _ _ _ _ _ _ hrun => exact moveDataExtent_headsOk h hrun
  | skip _ _ _ hrun => exact moveDataExtent_headsOk h hrun
  | freeReplaced _ hrun => exact h.congr (spcFreeExtent_pages hrun)

lemma headsOk_run (hrun : Relation.ReflTransGen MapStep.Any newMapState s) : s.space.HeadsOk := by
  induction hrun with
  | refl => exact fun _ _ hhead => nomatch hhead
  | tail _ hstep ih =>
    obtain ⟨_, hstep⟩ := hstep
    exact hstep.headsOk ih

/-! ## The request -/

lemma extentAccesses_inside (hid : id < BMT_TOTAL_EXTENTS) : ∀ access ∈ extentAccesses id, access.Inside := by
  unfold extentAccesses
  split
  case isTrue hlt =>
    intro access hmem
    rw [List.mem_singleton.mp hmem]
    exact hlt
  case isFalse hge =>
    have hslot : extentIdToLevel1Slot id < BMT_HEADER_LEVEL1_SLOTS :=
      Nat.div_lt_of_lt_mul (by rw [Nat.mul_comm]; exact Nat.sub_lt_left_of_lt_add (not_lt.mp hge) hid)
    intro access hmem
    rcases List.mem_cons.mp hmem with rfl | hmem
    · exact hslot
    · rw [List.mem_singleton.mp hmem]
      exact Nat.mod_lt _ (by decide)

/-- An extent behind the last one of the tree is not reached by a request for a block of the tree. -/
lemma segExtendSegmentAccesses_inside (hhead : space.segmentHead headBlock = some head)
    (hlt : head.nextents < BMT_TOTAL_EXTENTS) :
    ∀ access ∈ segExtendSegmentAccesses fuel space forknum headBlock, access.Inside := by
  have hinside := extentAccesses_inside hlt
  unfold segExtendSegmentAccesses
  rw [hhead]
  dsimp only
  split
  · exact fun _ hmem => nomatch hmem
  split
  case isTrue hlow =>
    intro access hmem
    rw [List.mem_singleton.mp hmem]
    exact hlow
  case isFalse hge =>
    split
    case isFalse => exact hinside
    case isTrue hnew =>
      split
      · exact fun _ hmem => nomatch hmem
      · rw [extentAccesses, if_neg hge] at hinside
        intro access hmem
        rcases List.mem_cons.mp hmem with rfl | hmem
        · exact show 0 < BMT_LEVEL0_SLOTS by decide
        · exact hinside access (List.mem_cons.mpr (.inl (List.mem_singleton.mp hmem)))

lemma SegmentHead.Ok.nextents_lt (hok : head.Ok) (hle : head.totalBlocks ≤ blocknum)
    (hb : blocknum < BMT_TOTAL_BLOCKS) :
    head.nextents < BMT_TOTAL_EXTENTS := by
  rw [← extentIdToLogicBlockNum_total] at hb
  exact extentIdToLogicBlockNum_strictMono.lt_iff_lt.mp ((hok.totalBlocks ▸ hle).trans_lt hb)

lemma segExtendInternal_inside (h : space.HeadsOk) (hb : blocknum < BMT_TOTAL_BLOCKS) :
    ∀ access ∈ (segExtendInternal fuel rounds space forknum headBlock blocknum).1, access.Inside := by
  induction rounds generalizing space with
  | zero => exact fun _ hmem => nomatch hmem
  | succ rounds ih =>
    unfold segExtendInternal
    split
    case h_1 => exact fun _ hmem => nomatch hmem
    case h_2 head hhead =>
      split
      case isFalse => exact fun _ hmem => nomatch hmem
      case isTrue hle =>
        have hone := @segExtendSegmentAccesses_inside _ _ fuel forknum _ hhead ((h _ _ hhead).nextents_lt hle hb)
        dsimp only
        split
        case h_1 => exact hone
        case h_2 op hrun =>
          intro access hmem
          rcases List.mem_append.mp hmem with hmem | hmem
          · exact hone access hmem
          · exact ih (segExtendSegment_headsOk h hrun) access hmem

lemma segExtendAccesses_inside (h : space.HeadsOk) (hb : blocknum < BMT_TOTAL_BLOCKS) :
    ∀ access ∈ segExtendAccesses fuel rounds space forknum headBlock blocknum, access.Inside := by
  have hrun := @segExtendInternal_inside _ fuel forknum headBlock _ rounds h hb
  have hid : (segLogicPageIdToExtentId blocknum).1 < BMT_TOTAL_EXTENTS :=
    segLogicPageIdToExtentId_lt (extentIdToLogicBlockNum_total.symm ▸ hb)
  unfold segExtendAccesses
  dsimp only
  split
  · exact hrun
  · intro access hmem
    rcases List.mem_append.mp hmem with hmem | hmem
    · exact hrun access hmem
    · exact extentAccesses_inside hid access hmem

/-- What the first round touches is in the list. -/
lemma mem_segExtendAccesses {access : SlotAccess} (hhead : space.segmentHead headBlock = some head)
    (hle : head.totalBlocks ≤ blocknum) (hmem : access ∈ segExtendSegmentAccesses fuel space forknum headBlock) :
    access ∈ segExtendAccesses fuel (rounds + 1) space forknum headBlock blocknum := by
  have hrun : access ∈ (segExtendInternal fuel (rounds + 1) space forknum headBlock blocknum).1 := by
    unfold segExtendInternal
    rw [hhead]
    dsimp only
    rw [if_pos hle]
    split
    · exact hmem
    · exact List.mem_append_left _ hmem
  unfold segExtendAccesses
  dsimp only
  split
  · exact hrun
  · exact List.mem_append_left _ hrun

/-- In a segment with a full tree the next extent needs one more level-0 page than the head has slots for. -/
lemma Grown.full_outside (h : Grown s BMT_TOTAL_EXTENTS) :
    .level1Slot BMT_HEADER_LEVEL1_SLOTS ∈
      segExtendSegmentAccesses 2 s.space firstSegment.forknum firstSegment.headBlocknum := by
  obtain ⟨head, hhead, hn⟩ := h.head
  have hsize : extentSizeByCount BMT_TOTAL_EXTENTS = 8192 := by decide
  obtain ⟨op₁, eg₁, halloc, hspace, _⟩ := (h.groups _ (isExtentSize_byCount BMT_TOTAL_EXTENTS)).spcAlloc
    (.start s.space) (isExtentSize_byCount _) (extentsInUse_le (le_refl _) _)
    ⟨assembleFlag .dataExtent BMT_TOTAL_EXTENTS, firstSegment.headBlocknum⟩
  have hmeta : Packed SEGMENT_HEAD_EXTENT_SIZE (op₁.space.extentGroup SEGMENT_HEAD_EXTENT_SIZE MAIN_FORKNUM)
      (extentsInUse BMT_TOTAL_EXTENTS SEGMENT_HEAD_EXTENT_SIZE) := by
    rw [hspace, setGroup_of_ne fun hand => extentSizeByCount_ne_one _ hand.1.symm]
    exact h.groups _ isExtentSize_one
  obtain ⟨op₂, eg₂, halloc₂, _⟩ := hmeta.spcAlloc op₁ isExtentSize_one (extentsInUse_le (le_refl _) _)
    ⟨assembleFlag .dataExtent BMT_TOTAL_EXTENTS, firstSegment.headBlocknum⟩
  unfold segExtendSegmentAccesses
  rw [hhead]
  dsimp only
  rw [hn, show firstSegment.forknum = MAIN_FORKNUM from rfl, halloc]
  dsimp only
  rw [if_neg (by decide), if_pos (by decide), halloc₂]
  exact List.mem_cons.mpr (.inr (List.mem_singleton.mpr rfl))

/-- The requests for a block that touch no element outside the arrays, whatever happened before. -/
def RequestInside (blocknum : ℕ) : Prop :=
  ∀ s, Relation.ReflTransGen MapStep.Any newMapState s → ∀ seg ∈ s.segs, ∀ fuel rounds,
    ∀ access ∈ segExtendAccesses fuel rounds s.space seg.forknum seg.headBlocknum blocknum, access.Inside

lemma not_requestInside (hb : BMT_TOTAL_BLOCKS ≤ blocknum) : ¬ RequestInside blocknum := by
  intro h
  obtain ⟨s, hgrown⟩ := grown_exists (le_refl BMT_TOTAL_EXTENTS)
  obtain ⟨head, hhead, hn⟩ := hgrown.head
  have hany : Relation.ReflTransGen MapStep.Any newMapState s := hgrown.run.lift id fun _ _ ⟨op, _, hop⟩ => ⟨op, hop⟩
  have htotal : head.totalBlocks ≤ blocknum := by
    rw [(headsOk_run hany _ _ hhead).totalBlocks, hn, extentIdToLogicBlockNum_total]
    exact hb
  have hinside := h s hany _ hgrown.mem 2 1 _ (mem_segExtendAccesses hhead htotal hgrown.full_outside)
  exact absurd hinside (lt_irrefl BMT_HEADER_LEVEL1_SLOTS)

/-- The tree holds less blocks than there are block numbers, and the loop does not stop at its end. -/
theorem requestInside_iff (blocknum : ℕ) : RequestInside blocknum ↔ blocknum < BMT_TOTAL_BLOCKS := by
  constructor
  · intro h
    by_contra hge
    exact not_requestInside (not_lt.mp hge) h
  · intro hb s hrun seg _ fuel rounds
    exact segExtendAccesses_inside (headsOk_run hrun) hb

/-- The first block that the tree cannot hold is far below the last block number. -/
theorem request_outside : 4202627072 < InvalidBlockNumber - 2 ∧ ¬ RequestInside 4202627072 :=
  ⟨by decide, not_requestInside (le_refl _)⟩

end Heads

end GaussKernel.Segment
