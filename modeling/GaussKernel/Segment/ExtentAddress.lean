import GaussKernel.Segment.PointerOwner

/-!
# Addresses of extents

The block of an extent is computed from its map group, map page and bit in 32 bits, and three functions compute the
way back. An operation on a block that is located wrongly changes a bit, but never the places of map pages and extents.
-/

namespace GaussKernel.Segment

abbrev MaxBlockNumber : ℕ := 2 ^ 32 - 2

/-! ## Runs with any arguments -/

/-- The operations on an extent group, whatever blocks they are asked for. -/
inductive EgRun (ext : ℕ) : ExtentGroup → Prop where
  | create {eg eg' log} (hsize : eg.extentSize = ext)
      (hrun : egFirstGroup (egInitDataFiles eg) = some (eg', log)) : EgRun ext eg'
  | returned {eg preassigned iptr block eg' log pending} (h : EgRun ext eg)
      (hrun : egAllocRound eg preassigned iptr = some (.returned block eg' log pending)) (hfits : eg'.Fits) :
      EgRun ext eg'
  | again {eg preassigned iptr eg' log} (h : EgRun ext eg)
      (hrun : egAllocRound eg preassigned iptr = some (.again eg' log)) (hfits : eg'.Fits) : EgRun ext eg'
  | free {eg block eg' log} (h : EgRun ext eg) (hrun : egFreeExtent eg block = some (eg', log)) : EgRun ext eg'
  | addMapGroup {eg start eg' log} (h : EgRun ext eg) (hstart : egNextGroupStart eg.mapHead = some start)
      (hrun : egAddMapGroup eg start eg.mapHead.groupCount = some (eg', log)) (hfits : eg'.Fits) : EgRun ext eg'
  | extendDf {eg target eg'} (h : EgRun ext eg) (hrun : egExtendDf eg target = some eg') : EgRun ext eg'

section Run

variable {eg eg' : ExtentGroup} {live : Finset ℕ} {log pending : List EgRecord} {ext n m b block : ℕ}

/-- The result of a search is a bit of the map, if there is a map group at all. -/
def MapPlace (eg : ExtentGroup) (loc : SpaceMapLocation) : Prop :=
  ∃ n < eg.mapHead.groupCount, ∃ m < DF_MAP_GROUP_SIZE, ∃ b < DF_MAP_BIT_CNT, loc = ⟨eg.mapHead.groups n, m, b, n⟩

lemma locateLoop_place (hunit : eg.mapHead.bitUnit = eg.extentSize) :
    ∀ {count i : ℕ} {result : SpaceMapLocation}, i + count = eg.mapHead.groupCount → result.mapId = 0 →
      result.bitId = 0 →
      (count = 0 → MapPlace eg result) →
      MapPlace eg (locateLoop eg.extentSize block eg.mapHead count i result) := by
  intro count
  induction count with
  | zero => exact fun _ _ _ hplace => hplace rfl
  | succ count ih =>
    intro i result hcount hmap hbit _
    unfold locateLoop
    dsimp only
    split
    case isTrue hin =>
      refine ⟨i, by omega, _, ?_, _, Nat.mod_lt _ (by decide), rfl⟩
      -- the end of a group in 32 bits is not behind the exact one
      have hend : groupPageEnd eg.extentSize (eg.mapHead.groups i)
          ≤ groupPageStart (eg.mapHead.groups i) + DF_MAP_GROUP_EXTENTS * eg.extentSize :=
        (Nat.mod_le _ _).trans (Nat.add_le_add_left (Nat.mod_le _ _) _)
      rw [hunit]
      refine Nat.div_lt_of_lt_mul (Nat.div_lt_of_lt_mul ?_)
      calc block - groupPageStart (eg.mapHead.groups i) < DF_MAP_GROUP_EXTENTS * eg.extentSize := by omega
        _ = eg.extentSize * (DF_MAP_BIT_CNT * DF_MAP_GROUP_SIZE) := Nat.mul_comm _ _
    case isFalse =>
      refine ih (by omega) hmap hbit fun _ => ⟨i, by omega, 0, by decide, 0, by decide, ?_⟩
      rw [hmap, hbit]

lemma EgInv.locate_place (h : EgInv eg live) (block : ℕ) :
    MapPlace eg (egLocateMapByPageid eg.extentSize block eg.mapHead) :=
  locateLoop_place h.unit (Nat.zero_add _) rfl rfl fun hzero => absurd hzero h.countPos.ne'

/-- A free, also of the wrong bit, clears a bit that was set. -/
lemma EgInv.freeExtent_any (h : EgInv eg live) (hrun : egFreeExtent eg block = some (eg', log)) :
    (∃ live', EgInv eg' live') ∧ eg'.extentSize = eg.extentSize := by
  obtain ⟨n, hn, m, hm, b, hb, hloc⟩ := h.locate_place block
  obtain ⟨hvalid, hu16, hmap⟩ := h.place_valid hn hm hb
  unfold egFreeExtent at hrun
  dsimp only at hrun
  rw [hloc, if_neg hvalid, hu16, hmap] at hrun
  obtain ⟨p, hp, hres⟩ := Option.bind_eq_some_iff.mp hrun
  cases hres
  have hset : b ∈ (eg.page n m).bitmap := by
    by_contra hclear
    exact nomatch hp.symm.trans (if_neg hclear)
  exact ⟨⟨_, h.free hn hm hset hp⟩, rfl⟩

lemma EgInv.preassigned_any (h : EgInv eg live) {p : ℕ}
    (hrun : egTryAllocExtent eg (some p) = some (.allocated block eg' log))
    (hfits : eg'.Fits) : (∃ live', EgInv eg' live') ∧ eg'.extentSize = eg.extentSize := by
  have hfg := h.freeGroup
  obtain ⟨n, hn, m, hm, b, hb, hloc⟩ := h.locate_place p
  obtain ⟨hvalid, hu16, hmap⟩ := h.place_valid hn hm hb
  unfold egTryAllocExtent at hrun
  dsimp only at hrun
  rw [if_pos ⟨h.countPos, hfg⟩] at hrun
  unfold egAllocPreassignedBlock at hrun
  dsimp only at hrun
  rw [hloc, if_neg hvalid, hu16, hmap] at hrun
  split at hrun
  case isTrue => cases hrun
  case isFalse hfree =>
    split at hrun
    case isTrue => cases hrun
    case isFalse =>
      rw [if_pos ⟨hfg, (h.pageCount _ hfg).symm ▸ h.freePage _ hfg⟩] at hrun
      obtain ⟨r, hr, hres⟩ := Option.bind_eq_some_iff.mp hrun
      cases r with
      | full => cases hres
      | targetFileSize => cases hres
      | allocated block' eg'' log' =>
        cases hres
        obtain ⟨_, _, hinv, hsize⟩ := h.alloc hn hm hb hfree hfg (h.freePage _ hfg) (by
          intro n' hn' m' hm' hor
          refine h.hint n' hn' m' hm' (hor.imp_right ?_)
          split
          case isTrue heq => exact fun hlt => heq ▸ hlt
          case isFalse => exact id) hr hfits
        exact ⟨⟨_, hinv⟩, hsize⟩

lemma EgInv.returned_any (h : EgInv eg live) {preassigned : Option ℕ} {iptr : ExtentInversePointer}
    (hrun : egAllocRound eg preassigned iptr = some (.returned block eg' log pending)) (hfits : eg'.Fits) :
    (∃ live', EgInv eg' live') ∧ eg'.extentSize = eg.extentSize := by
  obtain ⟨t, ht, hres⟩ := h.round_inv hrun
  cases t with
  | targetFileSize target =>
    obtain ⟨_, _, hr⟩ := hres
    cases hr
  | full =>
    obtain ⟨_, _, _, _, _, hr⟩ := hres
    cases hr
  | allocated block' eg'' pending' =>
    cases hres
    have halloc : (∃ live', EgInv eg'' live') ∧ eg''.extentSize = eg.extentSize := by
      cases preassigned with
      | none =>
        have hnew := h.tryAlloc ht
        exact ⟨⟨_, hnew.2.2.1⟩, hnew.2.2.2⟩
      | some p => exact h.preassigned_any ht hfits
    obtain ⟨⟨live', hinv⟩, hsize⟩ := halloc
    exact ⟨⟨live', hinv.withIpPages _⟩, hsize⟩

lemma EgRun.inv (hext : IsExtentSize ext) (h : EgRun ext eg) : (∃ live, EgInv eg live) ∧ eg.extentSize = ext := by
  induction h with
  | create hsize hrun => exact ⟨⟨_, EgInv.create (hsize ▸ hext) hrun⟩, (egFirstGroup_size hrun).trans hsize⟩
  | returned _ hrun hfits ih =>
    obtain ⟨⟨live, hinv⟩, rfl⟩ := ih
    exact hinv.returned_any hrun hfits
  | again _ hrun hfits ih =>
    obtain ⟨⟨live, hinv⟩, rfl⟩ := ih
    obtain ⟨hinv', hsize⟩ := hinv.again hrun hfits
    exact ⟨⟨live, hinv'⟩, hsize⟩
  | free _ hrun ih =>
    obtain ⟨⟨live, hinv⟩, rfl⟩ := ih
    exact hinv.freeExtent_any hrun
  | addMapGroup _ hstart hrun hfits ih =>
    obtain ⟨⟨live, hinv⟩, rfl⟩ := ih
    exact ⟨⟨live, hinv.addGroup hstart hrun hfits⟩, (egAddMapGroup_count hrun).2⟩
  | extendDf _ hrun ih =>
    obtain ⟨⟨live, hinv⟩, rfl⟩ := ih
    obtain ⟨hinv', hsize⟩ := hinv.extendDf hrun
    exact ⟨⟨live, hinv'⟩, hsize⟩

/-! ## There and back -/

/-- What is computed from a bit and from its block. The searches are only described where the end of the map group is
computed without wrapping around, or the block lies in front of the end that is computed. -/
structure AddressExact (eg : ExtentGroup) (n m b : ℕ) : Prop where
  /-- The sum in 32 bits is the sum. -/
  pagenum : u32 ((eg.page n m).firstPage + b * eg.mapHead.bitUnit) = (eg.page n m).firstPage + b * eg.extentSize
  block : (eg.page n m).firstPage + b * eg.extentSize = extentBlock eg.extentSize n m b
  locate : Locatable eg.extentSize n (extentBlock eg.extentSize n m b) →
    egLocateMapByPageid eg.extentSize (extentBlock eg.extentSize n m b) eg.mapHead = ⟨eg.mapHead.groups n, m, b, n⟩
  pointer : PointerExact eg.extentSize (extentBlock eg.extentSize n m b) →
    getIpBlock (extentBlock eg.extentSize n m b) eg.extentSize = pointerPlace eg.extentSize n m b
  offset : PointerExact eg.extentSize (extentBlock eg.extentSize n m b) → eg.extentSize ≠ 1 →
    ∀ off < eg.extentSize, checkMetaData (extentBlock eg.extentSize n m b + off) eg.extentSize = some off
  /-- Extents of one block are metadata themselves. -/
  metadata : eg.extentSize = 1 → checkMetaData (extentBlock eg.extentSize n m b) eg.extentSize = none

lemma EgInv.addressExact (h : EgInv eg live) (hn : n < eg.mapHead.groupCount) (hm : m < DF_MAP_GROUP_SIZE)
    (hb : b < DF_MAP_BIT_CNT) (hfile : extentBlock eg.extentSize n m b + eg.extentSize ≤ 2 ^ 32) :
    AddressExact eg n m b := by
  have hpos := h.size.pos
  have hlt : extentBlock eg.extentSize n m b < 2 ^ 32 := by omega
  have hblock : dataStart eg.extentSize n + m * DF_MAP_BIT_CNT * eg.extentSize + b * eg.extentSize
      = extentBlock eg.extentSize n m b := by
    unfold extentBlock
    ring
  have hfirst : (eg.page n m).firstPage = dataStart eg.extentSize n + m * DF_MAP_BIT_CNT * eg.extentSize := by
    rw [h.firstPage n hn m hm]
    exact u32_of_lt (by omega)
  have hexact : (eg.page n m).firstPage + b * eg.extentSize = extentBlock eg.extentSize n m b := by rw [hfirst, hblock]
  refine ⟨?_, hexact, h.locate hn hm hb hlt, fun hptr => getIpBlock_extentBlock_self hm hb h.size hfile hptr,
    fun hptr hone off hoff => checkMetaData_extentBlock hm hb h.size hone hoff hfile hptr, fun hone => ?_⟩
  · rw [h.unit, hexact]
    exact u32_of_lt hlt
  · unfold checkMetaData
    rw [if_pos (.inr hone)]

/-- Every bit whose extent lies below the largest file has its own blocks, and is found again from them. -/
theorem address_exact (hext : IsExtentSize ext) (h : EgRun ext eg) (hn : n < eg.mapHead.groupCount)
    (hm : m < DF_MAP_GROUP_SIZE) (hb : b < DF_MAP_BIT_CNT) (hfile : extentBlock ext n m b + ext ≤ MaxBlockNumber) :
    AddressExact eg n m b ∧
    ∀ n' < eg.mapHead.groupCount, ∀ m' < DF_MAP_GROUP_SIZE, ∀ b' < DF_MAP_BIT_CNT, ¬ (n = n' ∧ m = m' ∧ b = b') →
      extentBlock ext n m b + ext ≤ extentBlock ext n' m' b' ∨
        extentBlock ext n' m' b' + ext ≤ extentBlock ext n m b := by
  obtain ⟨⟨live, hinv⟩, rfl⟩ := h.inv hext
  exact ⟨hinv.addressExact hn hm hb (hfile.trans (Nat.sub_le _ _)),
    fun n' _ m' hm' b' hb' hne => extentBlock_disjoint hm hb hm' hb' hne⟩

/-- The last extent of the first map page of a file of extents of eight blocks. -/
theorem address_exact_eight : ∃ eg, EgRun 8 eg ∧ AddressExact eg 0 0 65247 ∧ extentBlock 8 0 0 65247 = 526133 := by
  obtain ⟨eg, log, hrun, hsize, _, hhead, _⟩ := firstGroup_exists 8
  have hcount : 0 < eg.mapHead.groupCount := by
    rw [hhead]
    exact Nat.zero_lt_one
  have hreach : EgRun 8 eg := .create rfl hrun
  exact ⟨eg, hreach, (address_exact (.inr (.inl rfl)) hreach hcount (by decide) (by decide) (by decide)).1, by decide⟩

/-- The first extent of a file of metadata pages has no offset for `check_meta_data`. -/
theorem address_metadata : ∃ eg, EgRun 1 eg ∧ 0 < eg.mapHead.groupCount ∧ extentBlock 1 0 0 0 + 1 ≤ MaxBlockNumber ∧
    checkMetaData (extentBlock 1 0 0 0) 1 ≠ some 0 := by
  obtain ⟨eg, log, hrun, hsize, _, hhead, _⟩ := firstGroup_exists 1
  refine ⟨eg, .create rfl hrun, ?_, by decide, by decide⟩
  rw [hhead]
  exact Nat.zero_lt_one

end Run

end GaussKernel.Segment
