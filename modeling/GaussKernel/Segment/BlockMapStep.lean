import GaussKernel.Segment.BlockMapInv

/-!
# The operations on block map trees

What `seg_extend_segment`, `free_last_extent` and `move_data_extent` do to the pages of a segment, and that each of
them keeps the invariant of all trees.
-/

namespace GaussKernel.Segment

open Lib
open Function (update update_self update_of_ne)

section Extend

variable {s : MapState} {owner : ExtentAddress → Option ExtentUse} {seg : SegmentDesc} {head : SegmentHead}
  {fuel x forknum headBlock : ℕ} {op : AtomicOp} {space space' : SegSpace}

/-- The three ways in which a segment gets its next extent. -/
lemma segExtendSegment_cases (hrun : segExtendSegment fuel space forknum headBlock = some op) :
    ∃ head x op₁, space.segmentHead headBlock = some head ∧
      spcAllocExtent fuel (.start space) (extentSizeByCount head.nextents) forknum none
        ⟨assembleFlag .dataExtent head.nextents, headBlock⟩ = some (x, op₁) ∧
      ((head.nextents < BMT_HEADER_LEVEL0_SLOTS ∧
          op.space = op₁.space.setPage headBlock (.segmentHead (head.addExtent.setLevel0 head.nextents x))) ∨
        (requireNewLevel0Page head.nextents ∧ extentIdToLevel1Slot head.nextents < BMT_HEADER_LEVEL1_SLOTS ∧
          ∃ p op₂ head₂, spcAllocExtent fuel op₁ SEGMENT_HEAD_EXTENT_SIZE MAIN_FORKNUM none
              ⟨assembleFlag .dataExtent head.nextents, headBlock⟩ = some (p, op₂) ∧
            (op₂.space.setPage p (.level0 (initLevel0Page x))).segmentHead headBlock = some head₂ ∧
            op.space = (op₂.space.setPage p (.level0 (initLevel0Page x))).setPage headBlock
              (.segmentHead (head₂.addExtent.setLevel1 (extentIdToLevel1Slot head.nextents) p))) ∨
        (BMT_HEADER_LEVEL0_SLOTS ≤ head.nextents ∧ ¬ requireNewLevel0Page head.nextents ∧
          ∃ page, op₁.space.level0Page (head.level1Slots (extentIdToLevel1Slot head.nextents)) = some page ∧
            op.space = (op₁.space.setPage (head.level1Slots (extentIdToLevel1Slot head.nextents)) (.level0
              ⟨update page.slots (extentIdToLevel0PageOffset head.nextents) x⟩)).setPage headBlock
                (.segmentHead head.addExtent))) := by
  obtain ⟨head, hhead, hrun⟩ := Option.bind_eq_some_iff.mp hrun
  obtain ⟨⟨x, op₁⟩, halloc, hrun⟩ := Option.bind_eq_some_iff.mp hrun
  refine ⟨head, x, op₁, hhead, halloc, ?_⟩
  dsimp only at hrun
  split at hrun
  case isTrue hlt =>
    cases hrun
    exact .inl ⟨hlt, rfl⟩
  case isFalse hge =>
    split at hrun
    case isTrue hnew =>
      obtain ⟨⟨p, op₂⟩, halloc₂, hrun⟩ := Option.bind_eq_some_iff.mp hrun
      obtain ⟨head₂, hhead₂, hrun⟩ := Option.bind_eq_some_iff.mp hrun
      dsimp only at hrun
      split at hrun
      case isTrue hslot =>
        cases hrun
        exact .inr (.inl ⟨hnew, hslot, p, op₂, head₂, halloc₂, hhead₂, rfl⟩)
      case isFalse => cases hrun
    case isFalse hnew =>
      obtain ⟨op₂, hrec, hrun⟩ := Option.bind_eq_some_iff.mp hrun
      obtain ⟨page, hpage, hrec⟩ := Option.bind_eq_some_iff.mp hrec
      cases hrec
      cases hrun
      exact .inr (.inr ⟨not_lt.mp hge, hnew, page, hpage, rfl⟩)

/-- The tree of a segment with one more extent. -/
lemma MapInv.grow {head' : SegmentHead} {addr' : ExtentUse → Option ExtentAddress}
    {owner' : ExtentAddress → Option ExtentUse} (h : MapInv s owner) (hseg : seg ∈ s.segs)
    (hhead : s.space.segmentHead seg.headBlocknum = some head)
    (hhead' : space'.segmentHead seg.headBlocknum = some head') (hok : HeadOk space' head')
    (hn : head'.nextents = head.nextents + 1)
    (hold : ∀ id < head.nextents, segExtentLocation space' head' id = segExtentLocation s.space head id)
    (hnew : segExtentLocation space' head' head.nextents = some x)
    (hpages : ∀ v ∈ s.segs, v ≠ seg → ∀ b, s.PageOf v b → space'.segPages b = s.space.segPages b)
    (haddr : ∀ u, (∀ slot, u ≠ .level0Page seg slot) → addr' u = update s.addr (.data seg head.nextents)
      (some ⟨extentSizeByCount head.nextents, seg.forknum, x⟩) u)
    (hlevel0 : ∀ slot, addr' (.level0Page seg slot) = space'.level0Addr seg slot)
    (hinv : SpaceInv space' s.segs addr' owner') :
    MapInv ⟨space', s.segs, s.replaced⟩ owner' ∧ (⟨space', s.segs, s.replaced⟩ : MapState).addr = addr' := by
  suffices hstep : TreeStep s ⟨space', s.segs, s.replaced⟩ seg addr' from
    ⟨h.treeStep hseg hstep hinv ⟨head', hhead', hok⟩ h.replacedSize, hstep.addr_eq h hseg⟩
  refine ⟨rfl, hpages, ?_, ?_, hlevel0, ?_, ?_⟩
  · intro v
    rw [haddr _ (by nofun)]
    exact update_of_ne (by nofun) _ _
  · intro v hv
    constructor
    · intro slot
      rw [haddr _ fun _ heq => hv (ExtentUse.level0Page.inj heq).1]
      exact update_of_ne (by nofun) _ _
    · intro id
      rw [haddr _ (by nofun)]
      exact update_of_ne (fun heq => hv (ExtentUse.data.inj heq).1) _ _
  · intro id
    change _ = space'.dataAddr seg id
    rw [haddr _ (by nofun), dataAddr_add hhead hhead' hn hold hnew id]
    by_cases hid : id = head.nextents
    · rw [hid, if_pos rfl, update_self]
    · rw [if_neg hid, update_of_ne fun heq => hid (ExtentUse.data.inj heq).2]
      exact if_pos hseg
  · intro a
    rw [haddr _ (by nofun)]
    exact update_of_ne (by nofun) _ _

/-- The level-0 pages of a tree when no slot comes into use. -/
lemma level0Addr_same {head' : SegmentHead} (hhead : space.segmentHead seg.headBlocknum = some head)
    (hhead' : space'.segmentHead seg.headBlocknum = some head')
    (huse : level1SlotsInUse head'.nextents = level1SlotsInUse head.nextents)
    (hslots : ∀ slot < level1SlotsInUse head.nextents, head'.level1Slots slot = head.level1Slots slot) (slot : ℕ) :
    space.level0Addr seg slot = space'.level0Addr seg slot := by
  rw [level0Addr_eq hhead, level0Addr_eq hhead', huse]
  split
  case isTrue hslot => rw [hslots slot hslot]
  case isFalse => rfl

/-- A page of another segment is none of this one, and no unused one. -/
lemma MapInv.ne_of_pageOf (h : MapInv s owner) {b : ℕ}
    (hb : s.PageOf seg b ∨ owner ⟨SEGMENT_HEAD_EXTENT_SIZE, MAIN_FORKNUM, b⟩ = none) {v : SegmentDesc} (hv : v ≠ seg)
    {b' : ℕ} (hb' : s.PageOf v b') : b' ≠ b := by
  rintro rfl
  rcases hb with hown | hnone
  · exact hv (h.pageOf_inj hb' hown)
  · exact h.not_pageOf hnone hb'

/-- The space as an atomic operation starts on it. -/
lemma MapInv.start (h : MapInv s owner) : SpaceInv (AtomicOp.start s.space).space s.segs s.addr owner := h.inv

lemma MapInv.pageOf_head (hseg : seg ∈ s.segs) : s.PageOf seg seg.headBlocknum := .inl (MapInv.addr_segHead hseg)

/-- A write of a page of the segment, or of an unused one, leaves the pages of the others. -/
lemma MapInv.others_setPage (h : MapInv s owner) {b : ℕ} {page : SegPage}
    (hb : s.PageOf seg b ∨ owner ⟨SEGMENT_HEAD_EXTENT_SIZE, MAIN_FORKNUM, b⟩ = none)
    (hsame : ∀ v ∈ s.segs, v ≠ seg → ∀ b, s.PageOf v b → space.segPages b = s.space.segPages b) :
    ∀ v ∈ s.segs, v ≠ seg → ∀ b', s.PageOf v b' → (space.setPage b page).segPages b' = s.space.segPages b' :=
  fun v hv hne b' hb' => (update_of_ne (h.ne_of_pageOf hb hne hb') _ _).trans (hsame v hv hne b' hb')

section

variable (h : MapInv s owner) (hseg : seg ∈ s.segs) (hhead : s.space.segmentHead seg.headBlocknum = some head)
include h hseg hhead

/-- The level-0 pages of a segment are not its head. -/
lemma MapInv.level1Slots_ne {slot : ℕ} (hslot : slot < level1SlotsInUse head.nextents) :
    head.level1Slots slot ≠ seg.headBlocknum := by
  intro heq
  have haddr := MapInv.addr_level0 hseg hhead hslot
  rw [heq] at haddr
  cases h.inv.ledger.inj haddr (MapInv.addr_segHead hseg)

/-- Different slots have different level-0 pages. -/
lemma MapInv.level1Slots_inj {i j : ℕ} (hi : i < level1SlotsInUse head.nextents)
    (hj : j < level1SlotsInUse head.nextents) (heq : head.level1Slots i = head.level1Slots j) : i = j := by
  have haddr := MapInv.addr_level0 hseg hhead hi
  rw [heq] at haddr
  exact (ExtentUse.level0Page.inj (h.inv.ledger.inj haddr (MapInv.addr_level0 hseg hhead hj))).2

/-- The level 0 pages of a segment after writes of one of them and of the head. -/
lemma MapInv.level0Page_written (hpages : space.segPages = s.space.segPages) (head' : SegmentHead)
    (page : BMTLevel0Page) {k : ℕ} (hk : k < level1SlotsInUse head.nextents) (j : ℕ)
    (hj : j < level1SlotsInUse head.nextents) :
    ((space.setPage (head.level1Slots k) (.level0 page)).setPage seg.headBlocknum (.segmentHead head')).level0Page
        (head.level1Slots j) = if j = k then some page else s.space.level0Page (head.level1Slots j) := by
  rw [level0Page_setPage_of_ne (h.level1Slots_ne hseg hhead hj)]
  by_cases hjk : j = k
  · rw [if_pos hjk, hjk, level0Page_setPage_self]
  · rw [if_neg hjk, level0Page_setPage_of_ne fun heq => hjk (h.level1Slots_inj hseg hhead hj hk heq)]
    exact level0Page_congr (congrFun hpages _)

/-- A new extent whose block is kept in the head. -/
lemma MapInv.extend_head {owner' : ExtentAddress → Option ExtentUse} (hlt : head.nextents < BMT_HEADER_LEVEL0_SLOTS)
    (hpages : space.segPages = s.space.segPages)
    (hinv : SpaceInv space s.segs (update s.addr (.data seg head.nextents)
      (some ⟨extentSizeByCount head.nextents, seg.forknum, x⟩)) owner') :
    MapInv ⟨space.setPage seg.headBlocknum (.segmentHead (head.addExtent.setLevel0 head.nextents x)), s.segs,
      s.replaced⟩ owner' ∧
    (⟨space.setPage seg.headBlocknum (.segmentHead (head.addExtent.setLevel0 head.nextents x)), s.segs,
      s.replaced⟩ : MapState).addr = update s.addr (.data seg head.nextents)
        (some ⟨extentSizeByCount head.nextents, seg.forknum, x⟩) := by
  have hok := h.headOk hseg hhead
  have hmax := hlt.trans_le (Nat.le_add_right BMT_HEADER_LEVEL0_SLOTS (BMT_HEADER_LEVEL1_SLOTS * BMT_LEVEL0_SLOTS))
  have hadd := hok.addExtent hmax
  have hnext := addExtent_nextents hmax
  have huse : level1SlotsInUse (head.nextents + 1) = 0 := level1SlotsInUse_of_le hlt
  refine h.grow hseg hhead segmentHead_setPage_self ⟨⟨hadd.nextents, hadd.totalBlocks⟩, ?_⟩ hnext ?_ ?_ ?_
    (fun _ _ => rfl) ?_ (hinv.congr rfl rfl)
  · intro slot hslot
    change slot < level1SlotsInUse head.addExtent.nextents at hslot
    rw [hnext, huse] at hslot
    cases hslot
  · intro id hid
    rw [segExtentLocation_of_lt (hid.trans hlt), segExtentLocation_of_lt (hid.trans hlt)]
    exact congrArg some (update_of_ne hid.ne _ _)
  · rw [segExtentLocation_of_lt hlt]
    exact congrArg some (update_self _ _ _)
  · exact h.others_setPage (.inl (MapInv.pageOf_head hseg)) fun _ _ _ b _ => congrFun hpages b
  · intro slot
    refine (if_pos hseg).trans (level0Addr_same hhead segmentHead_setPage_self ?_ ?_ slot)
    · exact (congrArg level1SlotsInUse hnext).trans (huse.trans (level1SlotsInUse_of_le hlt.le).symm)
    · exact fun _ _ => rfl

/-- A new extent that is recorded on a level-0 page in use. -/
lemma MapInv.extend_level0 {owner' : ExtentAddress → Option ExtentUse} {page : BMTLevel0Page}
    (hge : BMT_HEADER_LEVEL0_SLOTS ≤ head.nextents) (hold : ¬ requireNewLevel0Page head.nextents)
    (hpages : space.segPages = s.space.segPages)
    (hpage : space.level0Page (head.level1Slots (extentIdToLevel1Slot head.nextents)) = some page)
    (hinv : SpaceInv space s.segs (update s.addr (.data seg head.nextents)
      (some ⟨extentSizeByCount head.nextents, seg.forknum, x⟩)) owner') :
    MapInv ⟨(space.setPage (head.level1Slots (extentIdToLevel1Slot head.nextents)) (.level0
        ⟨update page.slots (extentIdToLevel0PageOffset head.nextents) x⟩)).setPage seg.headBlocknum
          (.segmentHead head.addExtent), s.segs, s.replaced⟩ owner' ∧
    (⟨(space.setPage (head.level1Slots (extentIdToLevel1Slot head.nextents)) (.level0
        ⟨update page.slots (extentIdToLevel0PageOffset head.nextents) x⟩)).setPage seg.headBlocknum
          (.segmentHead head.addExtent), s.segs, s.replaced⟩ : MapState).addr
      = update s.addr (.data seg head.nextents)
        (some ⟨extentSizeByCount head.nextents, seg.forknum, x⟩) := by
  have hok := h.headOk hseg hhead
  have hmax : head.nextents < BMT_HEADER_LEVEL0_SLOTS + BMT_HEADER_LEVEL1_SLOTS * BMT_LEVEL0_SLOTS := by
    refine lt_of_le_of_ne hok.nextents fun hfull => hold ⟨hge, ?_⟩
    rw [hfull, Nat.add_sub_cancel_left, Nat.mul_mod_left]
  have hnext := addExtent_nextents hmax
  have huse : level1SlotsInUse head.addExtent.nextents = level1SlotsInUse head.nextents := by
    rw [hnext, level1SlotsInUse_succ_of_not_require hold]
  have hslot : extentIdToLevel1Slot head.nextents < level1SlotsInUse head.nextents := by
    rw [← level1SlotsInUse_succ_of_not_require hold]
    exact extentIdToLevel1Slot_lt (Nat.lt_succ_self _) hge
  generalize hk : extentIdToLevel1Slot head.nextents = k at *
  -- what the level-0 pages hold now
  have hread := h.level0Page_written hseg hhead hpages head.addExtent
    ⟨update page.slots (extentIdToLevel0PageOffset head.nextents) x⟩ hslot
  refine h.grow hseg hhead segmentHead_setPage_self ⟨hok.addExtent hmax, ?_⟩ hnext ?_ ?_ ?_ (fun _ _ => rfl) ?_
    (hinv.congr rfl rfl)
  · intro j hj
    rw [huse] at hj
    change ∃ p, _ = some p
    rw [show head.addExtent.level1Slots j = head.level1Slots j from rfl, hread j hj]
    split
    · exact ⟨_, rfl⟩
    · exact hok.level0 j hj
  · intro id hid
    refine segExtentLocation_congr hid rfl fun hge' j hj hid' => ?_
    rw [show head.addExtent.level1Slots j = head.level1Slots j from rfl, hread j hj]
    split
    case isTrue hjk =>
      subst hjk
      rw [← level0Page_congr (congrFun hpages _), hpage, Option.map_some, Option.map_some]
      have hne : extentIdToLevel0PageOffset id ≠ extentIdToLevel0PageOffset head.nextents :=
        fun hoff => hid.ne (extentId_of_slot_offset hge' hge (hid'.trans hk.symm) hoff)
      dsimp only
      rw [update_of_ne hne]
    case isFalse => rfl
  · rw [segExtentLocation_of_ge hge, hk]
    rw [show head.addExtent.level1Slots k = head.level1Slots k from rfl, hread k hslot, if_pos rfl]
    dsimp only [Option.map_some]
    rw [update_self]
  · refine h.others_setPage (.inl (MapInv.pageOf_head hseg)) (h.others_setPage (.inl (.inr ⟨k, ?_⟩)) fun _ _ _ b _ =>
      congrFun hpages b)
    exact MapInv.addr_level0 hseg hhead hslot
  · intro slot
    exact (if_pos hseg).trans (level0Addr_same hhead segmentHead_setPage_self huse (fun _ _ => rfl) slot)

/-- A new extent that is the first one of a new level-0 page. -/
lemma MapInv.extend_newPage {owner' : ExtentAddress → Option ExtentUse} {p : ℕ}
    (hnew : requireNewLevel0Page head.nextents) (hslot : extentIdToLevel1Slot head.nextents < BMT_HEADER_LEVEL1_SLOTS)
    (hpages : space.segPages = s.space.segPages) (hfree : owner ⟨SEGMENT_HEAD_EXTENT_SIZE, MAIN_FORKNUM, p⟩ = none)
    (hinv : SpaceInv space s.segs (update (update s.addr (.data seg head.nextents)
      (some ⟨extentSizeByCount head.nextents, seg.forknum, x⟩)) (.level0Page seg (extentIdToLevel1Slot head.nextents))
        (some ⟨SEGMENT_HEAD_EXTENT_SIZE, MAIN_FORKNUM, p⟩)) owner') :
    MapInv ⟨(space.setPage p (.level0 (initLevel0Page x))).setPage seg.headBlocknum
      (.segmentHead (head.addExtent.setLevel1 (extentIdToLevel1Slot head.nextents) p)), s.segs, s.replaced⟩ owner' ∧
    (⟨(space.setPage p (.level0 (initLevel0Page x))).setPage seg.headBlocknum
      (.segmentHead (head.addExtent.setLevel1 (extentIdToLevel1Slot head.nextents) p)), s.segs, s.replaced⟩
        : MapState).addr = update (update s.addr (.data seg head.nextents)
      (some ⟨extentSizeByCount head.nextents, seg.forknum, x⟩)) (.level0Page seg (extentIdToLevel1Slot head.nextents))
        (some ⟨SEGMENT_HEAD_EXTENT_SIZE, MAIN_FORKNUM, p⟩) := by
  have hok := h.headOk hseg hhead
  obtain ⟨huse, hk⟩ := level1SlotsInUse_succ_of_require hnew
  obtain ⟨hge, hmod⟩ := hnew
  have hmax : head.nextents < BMT_HEADER_LEVEL0_SLOTS + BMT_HEADER_LEVEL1_SLOTS * BMT_LEVEL0_SLOTS := by
    unfold extentIdToLevel1Slot at hslot
    simp only [BMT_HEADER_LEVEL0_SLOTS, BMT_HEADER_LEVEL1_SLOTS, BMT_LEVEL0_SLOTS] at *
    omega
  have hadd := hok.addExtent hmax
  have hnext := addExtent_nextents hmax
  rw [hk] at hinv ⊢
  have hunused : ∀ {b}, s.PageOf seg b → b ≠ p := by
    rintro b hb rfl
    exact h.not_pageOf hfree hb
  -- the old slots and pages are as before, and the new slot has the new page
  have hslots : ∀ j < level1SlotsInUse head.nextents,
      (head.addExtent.setLevel1 (level1SlotsInUse head.nextents) p).level1Slots j = head.level1Slots j :=
    fun j hj => update_of_ne hj.ne _ _
  have hnewslot : (head.addExtent.setLevel1 (level1SlotsInUse head.nextents) p).level1Slots
      (level1SlotsInUse head.nextents) = p := update_self _ _ _
  have hold : ∀ j < level1SlotsInUse head.nextents, ((space.setPage p (.level0 (initLevel0Page x))).setPage
      seg.headBlocknum (.segmentHead (head.addExtent.setLevel1 (level1SlotsInUse head.nextents) p))).level0Page
        (head.level1Slots j) = s.space.level0Page (head.level1Slots j) := by
    intro j hj
    rw [level0Page_setPage_of_ne (h.level1Slots_ne hseg hhead hj),
      level0Page_setPage_of_ne (hunused (.inr ⟨j, MapInv.addr_level0 hseg hhead hj⟩))]
    exact level0Page_congr (congrFun hpages _)
  have hread : ((space.setPage p (.level0 (initLevel0Page x))).setPage seg.headBlocknum
      (.segmentHead (head.addExtent.setLevel1 (level1SlotsInUse head.nextents) p))).level0Page p
        = some (initLevel0Page x) := by
    rw [level0Page_setPage_of_ne (hunused (MapInv.pageOf_head hseg)).symm, level0Page_setPage_self]
  refine h.grow hseg hhead segmentHead_setPage_self ⟨⟨hadd.nextents, hadd.totalBlocks⟩, ?_⟩ hnext ?_ ?_ ?_
    (fun u hu => update_of_ne (hu _) _ _) ?_ (hinv.congr rfl rfl)
  · intro j hj
    change j < level1SlotsInUse head.addExtent.nextents at hj
    rw [hnext, huse] at hj
    rcases Nat.lt_succ_iff_lt_or_eq.mp hj with hlt | rfl
    · rw [hslots j hlt, hold j hlt]
      exact hok.level0 j hlt
    · rw [hnewslot]
      exact ⟨_, hread⟩
  · intro id hid
    refine segExtentLocation_congr hid rfl fun _ j hj _ => ?_
    rw [hslots j hj, hold j hj]
  · have hoff : extentIdToLevel0PageOffset head.nextents = 0 := hmod
    rw [segExtentLocation_of_ge hge, hk, hnewslot, hread, hoff]
    rfl
  · exact h.others_setPage (.inl (MapInv.pageOf_head hseg)) (h.others_setPage (.inr hfree) fun _ _ _ b _ =>
      congrFun hpages b)
  · intro j
    rw [level0Addr_eq segmentHead_setPage_self]
    change _ = if j < level1SlotsInUse head.addExtent.nextents then _ else none
    rw [hnext, huse]
    rcases Nat.lt_trichotomy j (level1SlotsInUse head.nextents) with hlt | rfl | hgt
    · rw [if_pos (by omega), hslots j hlt, update_of_ne fun heq => hlt.ne (ExtentUse.level0Page.inj heq).2,
        update_of_ne (by nofun)]
      exact MapInv.addr_level0 hseg hhead hlt
    · rw [if_pos (Nat.lt_succ_self _), update_self, hnewslot]
    · rw [if_neg (by omega), update_of_ne fun heq => hgt.ne' (ExtentUse.level0Page.inj heq).2,
        update_of_ne (by nofun)]
      refine (if_pos hseg).trans ?_
      rw [level0Addr_eq hhead, if_neg hgt.not_gt]

end

/-- `seg_extend_segment` keeps the invariant, and adds one extent of data. -/
lemma MapInv.extend (h : MapInv s owner) (hseg : seg ∈ s.segs)
    (hrun : segExtendSegment fuel s.space seg.forknum seg.headBlocknum = some op) :
    ∃ owner' head x op₁, MapInv ⟨op.space, s.segs, s.replaced⟩ owner' ∧
      s.space.segmentHead seg.headBlocknum = some head ∧
      spcAllocExtent fuel (.start s.space) (extentSizeByCount head.nextents) seg.forknum none
        ⟨assembleFlag .dataExtent head.nextents, seg.headBlocknum⟩ = some (x, op₁) ∧
      DataFrom owner owner' (fun a id => a = ⟨extentSizeByCount head.nextents, seg.forknum, x⟩ ∧ id = head.nextents) ∧
      ∀ id, (⟨op.space, s.segs, s.replaced⟩ : MapState).addr (.data seg id) = if id = head.nextents then
        some ⟨extentSizeByCount head.nextents, seg.forknum, x⟩ else s.addr (.data seg id) := by
  obtain ⟨head, x, op₁, hhead, halloc, hcases⟩ := segExtendSegment_cases hrun
  have hnone : s.addr (.data seg head.nextents) = none := by
    refine (if_pos hseg).trans ?_
    rw [dataAddr_eq hhead, if_neg (lt_irrefl _)]
  have hupdate : ∀ id, update s.addr (.data seg head.nextents)
      (some ⟨extentSizeByCount head.nextents, seg.forknum, x⟩) (.data seg id) = if id = head.nextents then
        some ⟨extentSizeByCount head.nextents, seg.forknum, x⟩ else s.addr (.data seg id) := by
    intro id
    by_cases hid : id = head.nextents
    · rw [if_pos hid, hid, update_self]
    · rw [if_neg hid, update_of_ne fun heq => hid (ExtentUse.data.inj heq).2]
  have hfrom : DataFrom owner (update owner ⟨extentSizeByCount head.nextents, seg.forknum, x⟩
      (some (.data seg head.nextents)))
      (fun a id => a = ⟨extentSizeByCount head.nextents, seg.forknum, x⟩ ∧ id = head.nextents) :=
    (DataFrom.refl _ _).update fun _ _ heq => ⟨rfl, (ExtentUse.data.inj (Option.some_inj.mp heq)).2.symm⟩
  have hstart := h.start
  obtain ⟨hpages, hinv⟩ := hstart.alloc (isExtentSize_byCount _) hnone (fun _ _ hptr _ => hptr) halloc
  rcases hcases with ⟨hlt, hspace⟩ | ⟨hnew, hslot, p, op₂, head₂, halloc₂, hhead₂, hspace⟩ |
    ⟨hge, hold, page, hpage, hspace⟩
  · rw [hspace]
    obtain ⟨hinv', haddr⟩ := h.extend_head hseg hhead hlt hpages hinv
    exact ⟨_, head, x, op₁, hinv', hhead, halloc, hfrom, fun id => (congrFun haddr _).trans (hupdate id)⟩
  · have hnone₂ : update s.addr (.data seg head.nextents)
        (some ⟨extentSizeByCount head.nextents, seg.forknum, x⟩)
          (.level0Page seg (extentIdToLevel1Slot head.nextents)) = none := by
      rw [update_of_ne (by nofun)]
      refine (if_pos hseg).trans ?_
      rw [level0Addr_eq hhead, (level1SlotsInUse_succ_of_require hnew).2, if_neg (lt_irrefl _)]
    have hfree₂ := hinv.owner_none isExtentSize_one halloc₂
    obtain ⟨hpages₂, hinv₂⟩ := hinv.alloc isExtentSize_one hnone₂ (fun _ _ _ => trivial) halloc₂
    have hfree : owner ⟨SEGMENT_HEAD_EXTENT_SIZE, MAIN_FORKNUM, p⟩ = none := by
      rwa [update_of_ne fun heq => extentSizeByCount_ne_one _ (ExtentAddress.mk.inj heq).1.symm] at hfree₂
    have hne : seg.headBlocknum ≠ p := by
      rintro rfl
      exact h.not_pageOf hfree (MapInv.pageOf_head hseg)
    rw [segmentHead_setPage_of_ne hne, segmentHead_congr (congrFun (hpages₂.trans hpages) _)] at hhead₂
    obtain rfl : head₂ = head := Option.some_inj.mp (hhead₂.symm.trans hhead)
    rw [hspace]
    obtain ⟨hinv', haddr⟩ := h.extend_newPage hseg hhead hnew hslot (hpages₂.trans hpages) hfree hinv₂
    refine ⟨_, head₂, x, op₁, hinv', hhead, halloc, hfrom.update (by nofun), fun id => (congrFun haddr _).trans ?_⟩
    rw [update_of_ne (by nofun)]
    exact hupdate id
  · rw [hspace]
    obtain ⟨hinv', haddr⟩ := h.extend_level0 hseg hhead hge hold hpages hpage hinv
    exact ⟨_, head, x, op₁, hinv', hhead, halloc, hfrom, fun id => (congrFun haddr _).trans (hupdate id)⟩

end Extend

section Shrink

variable {s : MapState} {owner owner' : ExtentAddress → Option ExtentUse} {seg : SegmentDesc}
  {head head' : SegmentHead} {addr' : ExtentUse → Option ExtentAddress} {k forknum headBlock : ℕ} {op : AtomicOp}
  {space : SegSpace}

/-- The last extent goes, with its level-0 page if it is the first one there. -/
lemma freeLastExtent_cases (hrun : freeLastExtent space forknum headBlock = some op) :
    ∃ head k extBlk op₁, space.segmentHead headBlock = some head ∧ head.nextents = k + 1 ∧
      segExtentLocation space head k = some extBlk ∧
      spcFreeExtent (.start space) (extentSizeByCount k) forknum extBlk = some op₁ ∧
      ((requireNewLevel0Page k ∧ ∃ op₂, spcFreeExtent op₁ SEGMENT_HEAD_EXTENT_SIZE MAIN_FORKNUM
            (head.level1Slots (extentIdToLevel1Slot k)) = some op₂ ∧
          op.space = op₂.space.setPage headBlock
            (.segmentHead (head.dropExtent.setLevel1 (extentIdToLevel1Slot k) InvalidBlockNumber))) ∨
        (¬ requireNewLevel0Page k ∧ op.space = op₁.space.setPage headBlock (.segmentHead head.dropExtent))) := by
  obtain ⟨head, hhead, hrun⟩ := Option.bind_eq_some_iff.mp hrun
  dsimp only at hrun
  split at hrun
  case isTrue => cases hrun
  case isFalse hpos =>
    obtain ⟨k, hk⟩ := Nat.exists_eq_succ_of_ne_zero hpos
    obtain ⟨extBlk, hloc, hrun⟩ := Option.bind_eq_some_iff.mp hrun
    obtain ⟨op₁, hfree, hrun⟩ := Option.bind_eq_some_iff.mp hrun
    rw [hk, Nat.succ_sub_one] at hloc hfree hrun
    refine ⟨head, k, extBlk, op₁, hhead, hk, hloc, hfree, ?_⟩
    split at hrun
    case isTrue => cases hrun
    case isFalse =>
      split at hrun
      case isTrue hnew =>
        obtain ⟨op₂, hfree₂, hrun⟩ := Option.bind_eq_some_iff.mp hrun
        cases hrun
        exact .inl ⟨hnew, op₂, hfree₂, rfl⟩
      case isFalse hold =>
        cases hrun
        exact .inr ⟨hold, rfl⟩

lemma level1SlotsInUse_mono {n m : ℕ} (h : n ≤ m) : level1SlotsInUse n ≤ level1SlotsInUse m :=
  Nat.div_le_div_right (Nat.add_le_add_right (Nat.sub_le_sub_right h _) _)

/-- The tree of a segment without its last extent. -/
lemma MapInv.shrink (h : MapInv s owner) (hseg : seg ∈ s.segs)
    (hhead : s.space.segmentHead seg.headBlocknum = some head) (hk : head.nextents = k + 1) (hok' : head'.Ok)
    (hn : head'.nextents = k) (hl0 : head'.level0Slots = head.level0Slots)
    (hl1 : ∀ j < level1SlotsInUse k, head'.level1Slots j = head.level1Slots j)
    (hpages : space.segPages = s.space.segPages)
    (haddr : ∀ u, (∀ j, u ≠ .level0Page seg j) → addr' u = update s.addr (.data seg k) none u)
    (hlevel0 : ∀ j, addr' (.level0Page seg j) = if j < level1SlotsInUse k then s.addr (.level0Page seg j) else none)
    (hinv : SpaceInv space s.segs addr' owner') :
    MapInv ⟨space.setPage seg.headBlocknum (.segmentHead head'), s.segs, s.replaced⟩ owner' := by
  have hok := h.headOk hseg hhead
  have hle : level1SlotsInUse k ≤ level1SlotsInUse head.nextents := level1SlotsInUse_mono (by omega)
  have hread : ∀ j < level1SlotsInUse k,
      (space.setPage seg.headBlocknum (.segmentHead head')).level0Page (head'.level1Slots j)
        = s.space.level0Page (head.level1Slots j) := by
    intro j hj
    rw [hl1 j hj, level0Page_setPage_of_ne (h.level1Slots_ne hseg hhead (hj.trans_le hle))]
    exact level0Page_congr (congrFun hpages _)
  have hloc : ∀ id < k, segExtentLocation (space.setPage seg.headBlocknum (.segmentHead head')) head' id
      = segExtentLocation s.space head id :=
    fun id hid => segExtentLocation_congr hid (congrFun hl0 id) fun _ j hj _ => by rw [hread j hj]
  refine h.treeStep hseg (show TreeStep s _ seg addr' from ⟨rfl, ?_, ?_, ?_, ?_, ?_, ?_⟩) (hinv.congr rfl rfl)
    ⟨head', segmentHead_setPage_self, hok', ?_⟩ h.replacedSize
  · exact h.others_setPage (.inl (MapInv.pageOf_head hseg)) fun _ _ _ b _ => congrFun hpages b
  · intro v
    rw [haddr _ (by nofun), update_of_ne (by nofun)]
  · intro v hv
    constructor
    · intro slot
      rw [haddr _ fun _ heq => hv (ExtentUse.level0Page.inj heq).1, update_of_ne (by nofun)]
    · intro id
      rw [haddr _ (by nofun), update_of_ne fun heq => hv (ExtentUse.data.inj heq).1]
  · intro j
    rw [hlevel0, level0Addr_eq segmentHead_setPage_self, hn]
    split
    case isTrue hj => rw [hl1 j hj, MapInv.addr_level0 hseg hhead (hj.trans_le hle)]
    case isFalse => rfl
  · intro id
    change _ = (space.setPage seg.headBlocknum (.segmentHead head')).dataAddr seg id
    rw [haddr _ (by nofun), dataAddr_eq segmentHead_setPage_self, hn]
    rcases Nat.lt_trichotomy id k with hlt | rfl | hgt
    · rw [if_pos hlt, update_of_ne fun heq => hlt.ne (ExtentUse.data.inj heq).2, hloc id hlt]
      refine (if_pos hseg).trans ?_
      rw [dataAddr_eq hhead, if_pos (by omega)]
    · rw [if_neg (lt_irrefl _), update_self]
    · rw [if_neg hgt.not_gt, update_of_ne fun heq => hgt.ne' (ExtentUse.data.inj heq).2]
      refine (if_pos hseg).trans ?_
      rw [dataAddr_eq hhead, if_neg (by omega)]
  · intro a
    rw [haddr _ (by nofun), update_of_ne (by nofun)]
    rfl
  · intro j hj
    rw [hn] at hj
    rw [hread j hj]
    exact hok.level0 j (hj.trans_le hle)

/-- `free_last_extent` keeps the invariant, if the extent is found again. -/
lemma MapInv.freeLast (h : MapInv s owner) (hseg : seg ∈ s.segs)
    (hrun : freeLastExtent s.space seg.forknum seg.headBlocknum = some op)
    (hfind : ∀ head k x, s.space.segmentHead seg.headBlocknum = some head → head.nextents = k + 1 →
      segExtentLocation s.space head k = some x →
      Findable (s.space.extentGroup (extentSizeByCount k) seg.forknum) x) :
    ∃ owner', MapInv ⟨op.space, s.segs, s.replaced⟩ owner' ∧ DataFrom owner owner' (fun _ _ => False) := by
  obtain ⟨head, k, x, op₁, hhead, hk, hloc, hfree, hcases⟩ := freeLastExtent_cases hrun
  have hok := h.headOk hseg hhead
  have hdrop := hok.dropExtent (by omega)
  have hn : head.dropExtent.nextents = k := by
    change head.nextents - 1 = k
    omega
  have hlt : k < head.nextents := by omega
  have haddr := MapInv.addr_data hseg hhead hlt hloc
  have hstart := h.start
  obtain ⟨hpages, hinv⟩ := hstart.free (isExtentSize_byCount k) haddr (hfind head k x hhead hk hloc) hfree
  rcases hcases with ⟨hnew, op₂, hfree₂, hspace⟩ | ⟨hold, hspace⟩
  · obtain ⟨huse, hslot⟩ := level1SlotsInUse_succ_of_require hnew
    have hslotLt : extentIdToLevel1Slot k < level1SlotsInUse head.nextents := by
      rw [hk]
      omega
    have haddr₂ := MapInv.addr_level0 hseg hhead hslotLt
    have haddr₂' : update s.addr (.data seg k) none (.level0Page seg (extentIdToLevel1Slot k))
        = some ⟨SEGMENT_HEAD_EXTENT_SIZE, MAIN_FORKNUM, head.level1Slots (extentIdToLevel1Slot k)⟩ := by
      rw [update_of_ne (by nofun), haddr₂]
    obtain ⟨live, hgroup, hlive⟩ := hinv.mem_live isExtentSize_one haddr₂'
    obtain ⟨hpages₂, hinv₂⟩ := hinv.free isExtentSize_one haddr₂' (hgroup.findable (by decide) hlive) hfree₂
    rw [hspace]
    refine ⟨_, h.shrink hseg hhead hk ⟨hdrop.nextents, hdrop.totalBlocks⟩ hn rfl ?_ (hpages₂.trans hpages)
      (fun u hu => update_of_ne (hu _) _ _) ?_ hinv₂,
      ((DataFrom.refl _ _).update (by nofun)).update (by nofun)⟩
    · intro j hj
      exact update_of_ne (by omega) _ _
    · intro j
      by_cases hj : j = extentIdToLevel1Slot k
      · rw [hj, update_self, if_neg (by omega)]
      · rw [update_of_ne fun heq => hj (ExtentUse.level0Page.inj heq).2, update_of_ne (by nofun)]
        split
        case isTrue => rfl
        case isFalse hge =>
          refine (if_pos hseg).trans ?_
          rw [level0Addr_eq hhead, hk, huse, if_neg (by omega)]
  · rw [hspace]
    refine ⟨_, h.shrink hseg hhead hk hdrop hn rfl (fun _ _ => rfl) hpages (fun _ _ => rfl) ?_ hinv,
      (DataFrom.refl _ _).update (by nofun)⟩
    intro j
    rw [update_of_ne (by nofun)]
    split
    case isTrue => rfl
    case isFalse hge =>
      refine (if_pos hseg).trans ?_
      rw [level0Addr_eq hhead, hk, level1SlotsInUse_succ_of_not_require hold, if_neg hge]

end Shrink

section Move

variable {s : MapState} {owner owner' : ExtentAddress → Option ExtentUse} {seg : SegmentDesc}
  {head head' : SegmentHead} {addr' : ExtentUse → Option ExtentAddress} {fuel n f extent x id : ℕ} {op : AtomicOp}
  {space space' : SegSpace} {iptr : ExtentInversePointer} {a : ExtentAddress}

/-- The check of `move_data_extent`: the extent that the inverse pointer names is the one to be moved. -/
def MoveChecked (space : SegSpace) (iptr : ExtentInversePointer) (extent : ℕ) : Prop :=
  ∃ head, space.segmentHead iptr.owner = some head ∧ invrsptrGetSpecialData iptr < head.nextents ∧
    segExtentLocation space head (invrsptrGetSpecialData iptr) = some extent

/-- A move is skipped, or puts a new extent in the place of the old one. -/
lemma moveDataExtent_cases (hrun : moveDataExtent fuel space n f extent iptr = some op) :
    (¬ MoveChecked space iptr extent ∧ op.space = space) ∨
    ∃ head x op₁, space.segmentHead iptr.owner = some head ∧ invrsptrGetSpecialData iptr < head.nextents ∧
      segExtentLocation space head (invrsptrGetSpecialData iptr) = some extent ∧
      spcAllocExtent fuel (.start space) n f none iptr = some (x, op₁) ∧
      ((invrsptrGetSpecialData iptr < BMT_HEADER_LEVEL0_SLOTS ∧ op.space = op₁.space.setPage iptr.owner
          (.segmentHead (head.setLevel0 (invrsptrGetSpecialData iptr) x))) ∨
        (BMT_HEADER_LEVEL0_SLOTS ≤ invrsptrGetSpecialData iptr ∧ ∃ page head₂,
          op₁.space.level0Page (head.level1Slots (extentIdToLevel1Slot (invrsptrGetSpecialData iptr))) = some page ∧
          (op₁.space.setPage (head.level1Slots (extentIdToLevel1Slot (invrsptrGetSpecialData iptr))) (.level0
            ⟨update page.slots (extentIdToLevel0PageOffset (invrsptrGetSpecialData iptr)) x⟩)).segmentHead
              iptr.owner = some head₂ ∧
          op.space = (op₁.space.setPage (head.level1Slots (extentIdToLevel1Slot (invrsptrGetSpecialData iptr)))
            (.level0 ⟨update page.slots (extentIdToLevel0PageOffset (invrsptrGetSpecialData iptr)) x⟩)).setPage
              iptr.owner (.segmentHead head₂))) := by
  unfold moveDataExtent at hrun
  dsimp only at hrun
  change (do
    let head ← space.segmentHead iptr.owner
    if head.nextents ≤ invrsptrGetSpecialData iptr then pure (.start space) else _) = some op at hrun
  obtain ⟨head, hhead, hrun⟩ := Option.bind_eq_some_iff.mp hrun
  split at hrun
  case isTrue hle =>
    cases hrun
    refine .inl ⟨?_, rfl⟩
    rintro ⟨head', hhead', hlt, _⟩
    cases hhead.symm.trans hhead'
    omega
  case isFalse hlt =>
    obtain ⟨curr, hcurr, hrun⟩ := Option.bind_eq_some_iff.mp hrun
    split at hrun
    case isTrue hne =>
      cases hrun
      refine .inl ⟨?_, rfl⟩
      rintro ⟨head', hhead', _, hloc⟩
      cases hhead.symm.trans hhead'
      exact hne (Option.some_inj.mp (hcurr.symm.trans hloc))
    case isFalse heq =>
      obtain rfl := not_not.mp heq
      obtain ⟨⟨x, op₁⟩, halloc, hrun⟩ := Option.bind_eq_some_iff.mp hrun
      refine .inr ⟨head, x, op₁, hhead, not_le.mp hlt, hcurr, halloc, ?_⟩
      dsimp only at hrun
      split at hrun
      case isTrue hlow =>
        cases hrun
        exact .inl ⟨hlow, rfl⟩
      case isFalse hge =>
        obtain ⟨op₂, hrec, hrun⟩ := Option.bind_eq_some_iff.mp hrun
        obtain ⟨page, hpage, hrec⟩ := Option.bind_eq_some_iff.mp hrec
        cases hrec
        obtain ⟨head₂, hhead₂, hrun⟩ := Option.bind_eq_some_iff.mp hrun
        cases hrun
        exact .inr ⟨not_lt.mp hge, page, head₂, hpage, hhead₂, rfl⟩

/-- What the trees refer to after the extent of `id` was moved to `x`. -/
def movedAddr (s : MapState) (seg : SegmentDesc) (id : ℕ) (a : ExtentAddress) (x : ℕ) :
    ExtentUse → Option ExtentAddress :=
  update (update (update s.addr (.data seg id) none) (.replaced a) (some a)) (.data seg id)
    (some ⟨extentSizeByCount id, seg.forknum, x⟩)

section

variable (h : MapInv s owner) (hseg : seg ∈ s.segs) (hsize : IsExtentSize a.size ∧ a.size ≠ SEGMENT_HEAD_EXTENT_SIZE)
  (hhead : s.space.segmentHead seg.headBlocknum = some head) (hid : id < head.nextents)
include h hseg hsize hhead hid

/-- The tree of a segment with another block for one extent. -/
lemma MapInv.relocate (hhead' : space'.segmentHead seg.headBlocknum = some head') (hok : HeadOk space' head')
    (hn : head'.nextents = head.nextents) (hslots : head'.level1Slots = head.level1Slots)
    (hold : ∀ i < head.nextents, i ≠ id → segExtentLocation space' head' i = segExtentLocation s.space head i)
    (hnew : segExtentLocation space' head' id = some x)
    (hpages : ∀ v ∈ s.segs, v ≠ seg → ∀ b, s.PageOf v b → space'.segPages b = s.space.segPages b)
    (hinv : SpaceInv space' s.segs (movedAddr s seg id a x) owner') :
    MapInv ⟨space', s.segs, insert a s.replaced⟩ owner' := by
  have hmoved : ∀ u, u ≠ .data seg id → u ≠ .replaced a → movedAddr s seg id a x u = s.addr u := by
    intro u hu hu'
    rw [movedAddr, update_of_ne hu, update_of_ne hu', update_of_ne hu]
  refine h.treeStep hseg (show TreeStep s _ seg (movedAddr s seg id a x) from ⟨rfl, hpages, ?_, ?_, ?_, ?_, ?_⟩)
    hinv ⟨head', hhead', hok⟩ ?_
  · exact fun v => hmoved _ (by nofun) (by nofun)
  · exact fun v hv => ⟨fun slot => hmoved _ (by nofun) (by nofun),
      fun i => hmoved _ (fun heq => hv (ExtentUse.data.inj heq).1) (by nofun)⟩
  · intro slot
    rw [hmoved _ (by nofun) (by nofun)]
    exact (if_pos hseg).trans
      (level0Addr_same hhead hhead' (by rw [hn]) (fun slot _ => congrFun hslots slot) slot)
  · intro i
    change _ = space'.dataAddr seg i
    rw [dataAddr_eq hhead', hn]
    by_cases hi : i = id
    · rw [hi, movedAddr, update_self, if_pos hid, hnew]
      rfl
    · rw [hmoved _ (fun heq => hi (ExtentUse.data.inj heq).2) (by nofun)]
      refine (if_pos hseg).trans ?_
      rw [dataAddr_eq hhead]
      split
      case isTrue hlt => rw [hold i hlt hi]
      case isFalse => rfl
  · intro b
    change _ = if b ∈ insert a s.replaced then some b else none
    by_cases hb : b = a
    · rw [hb, movedAddr, update_of_ne (by nofun), update_self,
        if_pos (Finset.mem_insert_self a s.replaced)]
    · rw [hmoved _ (by nofun) fun heq => hb (ExtentUse.replaced.inj heq)]
      change (if b ∈ s.replaced then some b else none) = _
      have hiff : b ∈ insert a s.replaced ↔ b ∈ s.replaced :=
        ⟨fun hmem => (Finset.mem_insert.mp hmem).resolve_left hb, Finset.mem_insert_of_mem⟩
      by_cases hmem : b ∈ s.replaced
      · rw [if_pos hmem, if_pos (hiff.mpr hmem)]
      · rw [if_neg hmem, if_neg fun hmem' => hmem (hiff.mp hmem')]
  · intro b hb
    rcases Finset.mem_insert.mp hb with rfl | hb
    · exact hsize
    · exact h.replacedSize b hb

/-- The new block of an extent that is kept in the head. -/
lemma MapInv.move_head (hlt : id < BMT_HEADER_LEVEL0_SLOTS) (hpages : space.segPages = s.space.segPages)
    (hinv : SpaceInv space s.segs (movedAddr s seg id a x) owner') :
    MapInv ⟨space.setPage seg.headBlocknum (.segmentHead (head.setLevel0 id x)), s.segs, insert a s.replaced⟩
      owner' := by
  have hok := h.headOk hseg hhead
  have hread : ∀ j < level1SlotsInUse head.nextents,
      (space.setPage seg.headBlocknum (.segmentHead (head.setLevel0 id x))).level0Page (head.level1Slots j)
        = s.space.level0Page (head.level1Slots j) := by
    intro j hj
    rw [level0Page_setPage_of_ne (h.level1Slots_ne hseg hhead hj)]
    exact level0Page_congr (congrFun hpages _)
  refine h.relocate hseg hsize hhead hid segmentHead_setPage_self ⟨⟨hok.nextents, hok.totalBlocks⟩, ?_⟩ rfl rfl ?_ ?_ ?_
    (hinv.congr rfl rfl)
  · intro j hj
    obtain ⟨page, hpage⟩ := hok.level0 j hj
    exact ⟨page, (hread j hj).trans hpage⟩
  · intro i hi hne
    refine segExtentLocation_congr hi (update_of_ne hne _ _) fun _ j hj _ => ?_
    rw [← hread j hj]
    rfl
  · rw [segExtentLocation_of_lt hlt]
    exact congrArg some (update_self _ _ _)
  · exact h.others_setPage (.inl (MapInv.pageOf_head hseg)) fun _ _ _ b _ => congrFun hpages b

/-- The new block of an extent that is kept on a level-0 page. -/
lemma MapInv.move_level0 {page : BMTLevel0Page} (hge : BMT_HEADER_LEVEL0_SLOTS ≤ id)
    (hpages : space.segPages = s.space.segPages)
    (hpage : space.level0Page (head.level1Slots (extentIdToLevel1Slot id)) = some page)
    (hinv : SpaceInv space s.segs (movedAddr s seg id a x) owner') :
    MapInv ⟨(space.setPage (head.level1Slots (extentIdToLevel1Slot id)) (.level0
        ⟨update page.slots (extentIdToLevel0PageOffset id) x⟩)).setPage seg.headBlocknum (.segmentHead head),
      s.segs, insert a s.replaced⟩ owner' := by
  have hok := h.headOk hseg hhead
  have hslot := extentIdToLevel1Slot_lt hid hge
  generalize hk : extentIdToLevel1Slot id = k at *
  have hread := h.level0Page_written hseg hhead hpages head
    ⟨update page.slots (extentIdToLevel0PageOffset id) x⟩ hslot
  refine h.relocate hseg hsize hhead hid segmentHead_setPage_self ⟨hok.toOk, ?_⟩ rfl rfl ?_ ?_ ?_ (hinv.congr rfl rfl)
  · intro j hj
    rw [hread j hj]
    split
    · exact ⟨_, rfl⟩
    · exact hok.level0 j hj
  · intro i hi hne
    refine segExtentLocation_congr hi rfl fun hge' j hj hi' => ?_
    rw [hread j hj]
    split
    case isTrue hjk =>
      subst hjk
      rw [← level0Page_congr (congrFun hpages _), hpage, Option.map_some, Option.map_some]
      have hoff : extentIdToLevel0PageOffset i ≠ extentIdToLevel0PageOffset id :=
        fun heq => hne (extentId_of_slot_offset hge' hge (hi'.trans hk.symm) heq)
      dsimp only
      rw [update_of_ne hoff]
    case isFalse => rfl
  · rw [segExtentLocation_of_ge hge, hk, hread k hslot, if_pos rfl]
    dsimp only [Option.map_some]
    rw [update_self]
  · refine h.others_setPage (.inl (MapInv.pageOf_head hseg)) (h.others_setPage (.inl (.inr ⟨k, ?_⟩)) fun _ _ _ b _ =>
      congrFun hpages b)
    exact MapInv.addr_level0 hseg hhead hslot

end

/-- The inverse pointer of a data extent names a segment of its fork. -/
lemma MapInv.pointer_owner (h : MapInv s owner) (hn : a.size ≠ SEGMENT_HEAD_EXTENT_SIZE) (howner : owner a ≠ none)
    (hexact : PointerExact a.size a.block)
    (hiptr : repairGetInversePointer (s.space.extentGroup a.size a.forknum) a.block = iptr) :
    ∃ seg ∈ s.segs, seg.forknum = a.forknum ∧ seg.headBlocknum = iptr.owner := by
  obtain ⟨u, hu⟩ := Option.ne_none_iff_exists'.mp howner
  have haddr := h.inv.ledger.addr_eq hu
  have hptr := h.inv.pointers a u hu
  cases u with
  | segHead v => exact (hn (congrArg ExtentAddress.size (MapState.addr_segHead_inv haddr).2)).elim
  | level0Page v slot =>
    obtain ⟨_, _, _, _, ha⟩ := MapState.addr_level0_inv haddr
    exact (hn (congrArg ExtentAddress.size ha)).elim
  | data v k =>
    obtain ⟨hv, _, _, _, _, _, ha⟩ := MapState.addr_data_inv haddr
    rw [hiptr.symm.trans (hptr hexact), ha]
    exact ⟨v, hv, rfl, rfl⟩
  | replaced b =>
    obtain ⟨v, hv, hfork, k, hptr⟩ := hptr hexact
    rw [hiptr.symm.trans hptr]
    exact ⟨v, hv, hfork, rfl⟩

/-- A move keeps the invariant, if the extent is found again and the pointer names an extent of the same size. -/
lemma MapInv.move (h : MapInv s owner) (hsize : IsExtentSize a.size) (hn : a.size ≠ SEGMENT_HEAD_EXTENT_SIZE)
    (howner : owner a ≠ none) (hfind : Findable (s.space.extentGroup a.size a.forknum) a.block)
    (hiptr : repairGetInversePointer (s.space.extentGroup a.size a.forknum) a.block = iptr)
    (hmatch : extentSizeByCount (invrsptrGetSpecialData iptr) = a.size) (hchecked : MoveChecked s.space iptr a.block)
    (hrun : moveDataExtent fuel s.space a.size a.forknum a.block iptr = some op) :
    ∃ owner' x op₁, MapInv ⟨op.space, s.segs, insert a s.replaced⟩ owner' ∧
      spcAllocExtent fuel (.start s.space) a.size a.forknum none iptr = some (x, op₁) ∧
      DataFrom owner owner' (fun b id => b = ⟨a.size, a.forknum, x⟩ ∧ id = invrsptrGetSpecialData iptr) := by
  obtain ⟨n, f, block⟩ := a
  obtain ⟨live, hgroup, hlive⟩ := h.inv.groups n f hsize
  have hexact := hgroup.pointerExact ((hlive block).mpr howner) hfind
  obtain ⟨seg, hseg, hfork, hblock⟩ := h.pointer_owner hn howner hexact hiptr
  obtain rfl : seg.forknum = f := hfork
  rcases moveDataExtent_cases hrun with ⟨hnot, _⟩ | ⟨head, x, op₁, hhead, hid, hloc, halloc, hcases⟩
  · exact (hnot hchecked).elim
  rw [← hblock] at hhead hcases
  generalize invrsptrGetSpecialData iptr = id at *
  -- the pointer is the one of the extent that it names
  have haddr : s.addr (.data seg id) = some ⟨n, seg.forknum, block⟩ := by
    rw [MapInv.addr_data hseg hhead hid hloc, hmatch]
  have hptr := h.inv.pointers _ _ (h.inv.ledger.owner_eq haddr) hexact
  have hiptr' := hiptr.symm.trans hptr
  have hnone : s.addr (.replaced ⟨n, seg.forknum, block⟩) = none := by
    refine if_neg fun hmem => ?_
    have hold : s.addr (.replaced ⟨n, seg.forknum, block⟩) = some ⟨n, seg.forknum, block⟩ := if_pos hmem
    cases h.inv.ledger.inj haddr hold
  have hinv := h.inv.retag haddr hnone fun _ => ⟨_, hseg, rfl, id, hptr⟩
  have hstart : SpaceInv (AtomicOp.start s.space).space s.segs _ _ := hinv
  obtain ⟨hpages, hinv₁⟩ := hstart.alloc (u := .data seg id) hsize
    (by rw [update_of_ne (by nofun), update_self]) (fun _ _ hx _ => hx.trans hiptr') halloc
  obtain ⟨owner', hinv₂, hfrom⟩ : ∃ owner', SpaceInv op₁.space s.segs
      (movedAddr s seg id ⟨n, seg.forknum, block⟩ x) owner' ∧
      DataFrom owner owner' (fun b i => b = ⟨n, seg.forknum, x⟩ ∧ i = id) := by
    rw [movedAddr, hmatch]
    exact ⟨_, hinv₁, ((DataFrom.refl _ _).update (by nofun)).update fun _ _ heq =>
      ⟨rfl, (ExtentUse.data.inj (Option.some_inj.mp heq)).2.symm⟩⟩
  rcases hcases with ⟨hlt, hspace⟩ | ⟨hge, page, head₂, hpage, hhead₂, hspace⟩
  · rw [hspace]
    exact ⟨_, x, op₁, h.move_head hseg ⟨hsize, hn⟩ hhead hid hlt hpages hinv₂, halloc, hfrom⟩
  · have hne : seg.headBlocknum ≠ head.level1Slots (extentIdToLevel1Slot id) :=
      (h.level1Slots_ne hseg hhead (extentIdToLevel1Slot_lt hid hge)).symm
    rw [segmentHead_setPage_of_ne hne, segmentHead_congr (congrFun hpages _)] at hhead₂
    obtain rfl : head₂ = head := Option.some_inj.mp (hhead₂.symm.trans hhead)
    rw [hspace]
    exact ⟨_, x, op₁, h.move_level0 hseg ⟨hsize, hn⟩ hhead hid hge hpages hpage hinv₂, halloc, hfrom⟩

/-- A replaced extent is freed. -/
lemma MapInv.freeReplaced (h : MapInv s owner) (ha : a ∈ s.replaced)
    (hfind : Findable (s.space.extentGroup a.size a.forknum) a.block)
    (hrun : spcFreeExtent (.start s.space) a.size a.forknum a.block = some op) :
    ∃ owner', MapInv ⟨op.space, s.segs, s.replaced.erase a⟩ owner' ∧ DataFrom owner owner' (fun _ _ => False) := by
  have hstart := h.start
  have haddr : s.addr (.replaced a) = some a := if_pos ha
  obtain ⟨hpages, hinv⟩ := hstart.free (h.replacedSize a ha).1 haddr hfind hrun
  have hsame : ∀ v ∈ s.segs, (∃ head, op.space.segmentHead v.headBlocknum = some head ∧ HeadOk op.space head) ∧
      (∀ slot, op.space.level0Addr v slot = s.space.level0Addr v slot) ∧
      ∀ id, op.space.dataAddr v id = s.space.dataAddr v id :=
    fun v hv => h.segment_congr hv fun b _ => congrFun hpages b
  refine ⟨_, ⟨hinv.congr rfl ?_, fun v hv => (hsame v hv).1, fun b hb => h.replacedSize b (Finset.mem_of_mem_erase hb)⟩,
    (DataFrom.refl _ _).update (by nofun)⟩
  funext u
  cases u with
  | segHead v => rw [update_of_ne (by nofun)]; rfl
  | level0Page v slot =>
    rw [update_of_ne (by nofun)]
    change (if v ∈ s.segs then op.space.level0Addr v slot else none)
      = if v ∈ s.segs then s.space.level0Addr v slot else none
    split
    case isTrue hv => rw [(hsame v hv).2.1]
    case isFalse => rfl
  | data v id =>
    rw [update_of_ne (by nofun)]
    change (if v ∈ s.segs then op.space.dataAddr v id else none) = if v ∈ s.segs then s.space.dataAddr v id else none
    split
    case isTrue hv => rw [(hsame v hv).2.2]
    case isFalse => rfl
  | replaced b =>
    change (if b ∈ s.replaced.erase a then some b else none) = _
    by_cases hb : b = a
    · rw [hb, update_self, if_neg (Finset.notMem_erase a s.replaced)]
    · rw [update_of_ne fun heq => hb (ExtentUse.replaced.inj heq)]
      change _ = if b ∈ s.replaced then some b else none
      by_cases hmem : b ∈ s.replaced
      · rw [if_pos hmem, if_pos (Finset.mem_erase.mpr ⟨hb, hmem⟩)]
      · rw [if_neg hmem, if_neg fun hmem' => hmem (Finset.mem_of_mem_erase hmem')]

end Move

section Create

variable {s : MapState} {owner : ExtentAddress → Option ExtentUse} {fuel block lsn : ℕ} {op : AtomicOp}
  {iptr : ExtentInversePointer}

/-- A new segment has an empty tree. -/
lemma MapInv.create (h : MapInv s owner) (forknum : ℕ)
    (hrun : normalAllocSegment fuel (.start s.space) none iptr lsn = some (block, op)) :
    ∃ owner', MapInv ⟨op.space, insert ⟨forknum, block, iptr⟩ s.segs, s.replaced⟩ owner' ∧
      DataFrom owner owner' (fun _ _ => False) := by
  obtain ⟨⟨block', op₁⟩, halloc, hres⟩ := Option.bind_eq_some_iff.mp hrun
  cases hres
  have hstart : SpaceInv (AtomicOp.start s.space).space (insert ⟨forknum, block, iptr⟩ s.segs) s.addr owner :=
    h.inv.mono (Finset.subset_insert _ _)
  have hfree := hstart.owner_none isExtentSize_one halloc
  have hfresh : (⟨forknum, block, iptr⟩ : SegmentDesc) ∉ s.segs :=
    fun hseg => h.inv.ledger.ne_of_none hfree (MapInv.addr_segHead hseg)
  have hnone : s.addr (.segHead ⟨forknum, block, iptr⟩) = none := if_neg hfresh
  obtain ⟨hpages, hinv⟩ := hstart.alloc isExtentSize_one hnone (fun _ _ hptr _ => hptr) halloc
  have hpage : ∀ v b, s.PageOf v b → (op₁.space.setPage block (.segmentHead (initSegmentHead block lsn))).segPages b
      = s.space.segPages b := by
    intro v b hb
    have hne : b ≠ block := by
      rintro rfl
      exact h.not_pageOf hfree hb
    exact (update_of_ne hne _ _).trans (congrFun hpages b)
  have hsame := fun v hv => h.segment_congr hv (hpage v)
  have hnew : (op₁.space.setPage block (.segmentHead (initSegmentHead block lsn))).segmentHead block
      = some (initSegmentHead block lsn) := segmentHead_setPage_self
  have hmem : ∀ v : SegmentDesc, v ≠ ⟨forknum, block, iptr⟩ → (v ∈ insert ⟨forknum, block, iptr⟩ s.segs ↔ v ∈ s.segs) :=
    fun v hv => ⟨fun hin => (Finset.mem_insert.mp hin).resolve_left hv, Finset.mem_insert_of_mem⟩
  have hempty : level1SlotsInUse (initSegmentHead block lsn).nextents = 0 := level1SlotsInUse_of_le (Nat.zero_le _)
  refine ⟨_, ⟨hinv.congr rfl ?_, ?_, h.replacedSize⟩, (DataFrom.refl _ _).update (by nofun)⟩
  · funext u
    cases u with
    | segHead v =>
      by_cases hv : v = ⟨forknum, block, iptr⟩
      · rw [hv, update_self]
        exact if_pos (Finset.mem_insert_self _ _)
      · rw [update_of_ne fun heq => hv (ExtentUse.segHead.inj heq)]
        change (if v ∈ insert _ s.segs then _ else _) = if v ∈ s.segs then _ else _
        simp only [hmem v hv]
    | level0Page v slot =>
      rw [update_of_ne (by nofun)]
      change (if v ∈ insert _ s.segs then SegSpace.level0Addr _ v slot else none)
        = if v ∈ s.segs then s.space.level0Addr v slot else none
      by_cases hv : v = ⟨forknum, block, iptr⟩
      · rw [hv, if_neg hfresh, if_pos (Finset.mem_insert_self _ _), level0Addr_eq hnew, hempty,
          if_neg (Nat.not_lt_zero _)]
      · simp only [hmem v hv]
        split
        case isTrue hin => exact (hsame v hin).2.1 slot
        case isFalse => rfl
    | data v id =>
      rw [update_of_ne (by nofun)]
      change (if v ∈ insert _ s.segs then SegSpace.dataAddr _ v id else none)
        = if v ∈ s.segs then s.space.dataAddr v id else none
      by_cases hv : v = ⟨forknum, block, iptr⟩
      · rw [hv, if_neg hfresh, if_pos (Finset.mem_insert_self _ _), dataAddr_eq hnew]
        exact if_neg (Nat.not_lt_zero id)
      · simp only [hmem v hv]
        split
        case isTrue hin => exact (hsame v hin).2.2 id
        case isFalse => rfl
    | replaced b => rw [update_of_ne (by nofun)]; rfl
  · intro v hv
    rcases Finset.mem_insert.mp hv with rfl | hv
    · refine ⟨_, hnew, ⟨Nat.zero_le _, rfl⟩, ?_⟩
      intro slot hslot
      rw [hempty] at hslot
      exact absurd hslot (Nat.not_lt_zero _)
    · exact (hsame v hv).1

end Create

end GaussKernel.Segment
