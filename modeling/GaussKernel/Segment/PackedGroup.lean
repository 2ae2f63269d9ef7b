import GaussKernel.Segment.InversePtr

/-!
# Groups that are filled from the front

Without preassigned blocks and frees an extent group hands out its extents one after the other. An allocation then
succeeds as long as the file can grow, and what it returns is known.
-/

namespace GaussKernel.Segment

section Packed

variable {ext c n m b fuel target total : ℕ} {eg eg' : ExtentGroup} {live : Finset ℕ} {iptr : ExtentInversePointer}

/-- The block of the `i`-th extent of the first map group. -/
def packedBlock (ext i : ℕ) : ℕ := dataStart ext 0 + i * ext

def packed (ext c : ℕ) : Finset ℕ := (Finset.range c).image (packedBlock ext)

lemma packedBlock_eq (ext i : ℕ) : packedBlock ext i = 4157 + i * ext := by
  rw [packedBlock, dataStart, groupStart_zero]
  rfl

lemma packed_succ (ext c : ℕ) : packed ext (c + 1) = insert (packedBlock ext c) (packed ext c) := by
  rw [packed, Finset.range_add_one, Finset.image_insert]
  rfl

lemma packedBlock_inj (hext : 0 < ext) {i j : ℕ} (h : packedBlock ext i = packedBlock ext j) : i = j := by
  rw [packedBlock_eq, packedBlock_eq] at h
  exact Nat.eq_of_mul_eq_mul_right hext (Nat.add_left_cancel h)

lemma mem_packed (hext : 0 < ext) {i : ℕ} : packedBlock ext i ∈ packed ext c ↔ i < c := by
  rw [packed, Finset.mem_image]
  constructor
  · rintro ⟨j, hj, heq⟩
    exact packedBlock_inj hext heq ▸ Finset.mem_range.mp hj
  · exact fun hi => ⟨i, Finset.mem_range.mpr hi, rfl⟩

/-- The bits of the first group are set up to the number of extents. -/
lemma EgInv.packed_bit (h : EgInv eg (packed eg.extentSize c)) (hm : m < DF_MAP_GROUP_SIZE) (hb : b < DF_MAP_BIT_CNT) :
    b ∈ (eg.page 0 m).bitmap ↔ m * DF_MAP_BIT_CNT + b < c := by
  rw [← mem_packed h.size.pos, h.liveBits]
  constructor
  · exact fun hbit => ⟨0, h.countPos, m, hm, b, hbit, rfl⟩
  · rintro ⟨n', hn', m', hm', b', hb', heq⟩
    obtain ⟨rfl, rfl, rfl⟩ := extentBlock_inj h.size.pos hm hb hm' ((h.pageOk n' hn' m' hm').bits b' hb') heq
    exact hb'

/-- The first free bit is the one behind the last extent. -/
lemma FirstFree.packed (h : EgInv eg (packed eg.extentSize c)) (hc : c < DF_MAP_GROUP_EXTENTS)
    (hf : FirstFree eg n m b) : n = 0 ∧ m * DF_MAP_BIT_CNT + b = c := by
  have hn : n = 0 := by
    by_contra hpos
    have hfull := hf.groups 0 (Nat.pos_of_ne_zero hpos) 63 (by decide) 65247 (by decide)
    have hlt := (h.packed_bit (by decide) (by decide)).mp hfull
    simp only [DF_MAP_BIT_CNT, DF_MAP_GROUP_EXTENTS] at hlt hc
    omega
  subst hn
  have hbit := h.packed_bit hf.page hf.bit
  refine ⟨rfl, le_antisymm ?_ (not_lt.mp fun hlt => hf.free (hbit.mpr hlt))⟩
  -- the bit before is set
  cases b with
  | succ b =>
    have hlt := (h.packed_bit hf.page (Nat.lt_of_succ_lt hf.bit)).mp (hf.bits b (Nat.lt_succ_self b))
    exact hlt
  | zero =>
    cases m with
    | succ m =>
      have hm := Nat.lt_of_succ_lt hf.page
      have hlt := (h.packed_bit hm (by decide)).mp (hf.pages m (Nat.lt_succ_self m) 65247 (by decide))
      simp only [DF_MAP_BIT_CNT] at hlt ⊢
      omega
    | zero => exact Nat.zero_le _

/-- The next extent is tried. -/
lemma EgInv.packed_try (h : EgInv eg (packed eg.extentSize c)) (hc : c < DF_MAP_GROUP_EXTENTS) :
    ∃ m b, FirstFree eg 0 m b ∧ m * DF_MAP_BIT_CNT + b = c ∧
      egTryAllocExtent eg none = egAllocExtentFromMapInternal eg (groupStart eg.extentSize 0 + m) b 0 m := by
  rcases h.tryAlloc_cases with ⟨hfull, _⟩ | ⟨n, m, b, hf, htry⟩
  · have hlt := (h.packed_bit (by decide) (by decide)).mp (hfull 0 h.countPos 63 (by decide) 65247 (by decide))
    simp only [DF_MAP_BIT_CNT, DF_MAP_GROUP_EXTENTS] at hlt hc
    omega
  · obtain ⟨rfl, hidx⟩ := hf.packed h hc
    exact ⟨m, b, hf, hidx, htry⟩

/-- An attempt at the first free bit fails only when the file is too short. -/
lemma FirstFree.attempt (h : EgInv eg live) (hf : FirstFree eg n m b) :
    if eg.totalBlocks < extentBlock eg.extentSize n m b + eg.extentSize then
      egAllocExtentFromMapInternal eg (groupStart eg.extentSize n + m) b n m
        = some (.targetFileSize (extentBlock eg.extentSize n m b + eg.extentSize))
    else ∃ eg' pending, egAllocExtentFromMapInternal eg (groupStart eg.extentSize n + m) b n m
        = some (.allocated (extentBlock eg.extentSize n m b) eg' pending) ∧
      eg'.mapHead.groupCount = eg.mapHead.groupCount := by
  have hend := hf.end_lt h
  have hnum : u32 ((eg.mapPages (groupStart eg.extentSize n + m)).firstPage + b * eg.mapHead.bitUnit)
      = extentBlock eg.extentSize n m b := (h.pagenum hf.group hf.page hf.bit hend.le).1
  obtain ⟨p, hset, _⟩ := egSetBitmapPage_spec (h.pageOk n hf.group m hf.page) hf.free hf.bit
  have hset' : egSetBitmapPage (eg.mapPages (groupStart eg.extentSize n + m)) b = some p := hset
  unfold egAllocExtentFromMapInternal
  dsimp only
  rw [hnum, u32_of_lt hend, hset']
  split
  case isTrue => rfl
  case isFalse => exact ⟨_, _, rfl, rfl⟩

/-! ## Lengthening the file -/

lemma dfExtendLoop_reaches (hstep : total % DF_FILE_EXTEND_STEP_BLOCKS = 0)
    (ht : target % DF_FILE_EXTEND_STEP_BLOCKS = 0) (htlt : target < 2 ^ 32) (hfuel : target ≤ total + fuel) :
    target ≤ dfExtendLoop fuel total target := by
  induction fuel generalizing total with
  | zero => exact hfuel
  | succ fuel ih =>
    rw [dfExtendLoop]
    split
    case isTrue hmore =>
      simp only [DF_FILE_EXTEND_STEP_BLOCKS] at *
      have hnext : u32 (total + 16384) = total + 16384 := u32_of_lt (by omega)
      rw [hnext]
      exact ih (by omega) (by omega)
    case isFalse hdone => exact not_lt.mp hdone

/-- A target that is a step below block `2^32` is reached. -/
lemma EgInv.extendDf_reaches (h : EgInv eg live) (ht : target + DF_FILE_EXTEND_STEP_BLOCKS ≤ 2 ^ 32) :
    ∃ eg', egExtendDf eg target = some eg' ∧ target ≤ eg'.totalBlocks ∧
      eg'.mapHead.groupCount = eg.mapHead.groupCount := by
  have hstep := h.step
  have halign : u32 ((target + DF_FILE_EXTEND_STEP_BLOCKS - 1) / DF_FILE_EXTEND_STEP_BLOCKS
      * DF_FILE_EXTEND_STEP_BLOCKS)
      = (target + DF_FILE_EXTEND_STEP_BLOCKS - 1) / DF_FILE_EXTEND_STEP_BLOCKS * DF_FILE_EXTEND_STEP_BLOCKS := by
    simp only [DF_FILE_EXTEND_STEP_BLOCKS] at *
    exact u32_of_lt (by omega)
  have hne : target ≠ InvalidBlockNumber := by
    simp only [DF_FILE_EXTEND_STEP_BLOCKS, InvalidBlockNumber] at *
    omega
  unfold egExtendDf dfExtend
  rw [if_neg hne, halign]
  refine ⟨_, rfl, ?_, rfl⟩
  dsimp only
  generalize haligned : (target + DF_FILE_EXTEND_STEP_BLOCKS - 1) / DF_FILE_EXTEND_STEP_BLOCKS
    * DF_FILE_EXTEND_STEP_BLOCKS = aligned
  have hreach := @dfExtendLoop_reaches aligned aligned eg.totalBlocks hstep
  simp only [DF_FILE_EXTEND_STEP_BLOCKS] at *
  exact le_trans (by omega) (hreach (by omega) (by omega) (by omega))

/-! ## The next extent -/

/-- The first `c` extents are live, and there is no second map group. -/
structure Packed (ext : ℕ) (eg : ExtentGroup) (c : ℕ) : Prop where
  inv : GroupInv ext eg (packed ext c)
  count : eg.mapHead.groupCount ≤ 1

/-- A round hands out the next extent, unless it makes the file longer. -/
lemma EgInv.packed_round (iptr : ExtentInversePointer) (h : EgInv eg (packed eg.extentSize c))
    (hc : c < DF_MAP_GROUP_EXTENTS)
    (hend : packedBlock eg.extentSize (c + 1) + DF_FILE_EXTEND_STEP_BLOCKS ≤ 2 ^ 32) :
    (∃ eg' log pending, egAllocRound eg none iptr = some (.returned (packedBlock eg.extentSize c) eg' log pending) ∧
      eg'.Fits ∧ eg'.mapHead.groupCount = eg.mapHead.groupCount) ∨
    (eg.totalBlocks < packedBlock eg.extentSize (c + 1) ∧
      ∃ eg' log, egAllocRound eg none iptr = some (.again eg' log) ∧ EgInv eg' (packed eg.extentSize c) ∧
      eg'.extentSize = eg.extentSize ∧ packedBlock eg.extentSize (c + 1) ≤ eg'.totalBlocks ∧
      eg'.mapHead.groupCount = eg.mapHead.groupCount) := by
  obtain ⟨m, b, hf, hidx, htry⟩ := h.packed_try hc
  have hblock : extentBlock eg.extentSize 0 m b = packedBlock eg.extentSize c := by
    rw [extentBlock, hidx]
    rfl
  have hnext : packedBlock eg.extentSize (c + 1) = packedBlock eg.extentSize c + eg.extentSize := by
    rw [packedBlock, Nat.succ_mul, ← Nat.add_assoc]
    rfl
  have hattempt := hf.attempt h
  rw [hblock, ← hnext, ← htry] at hattempt
  split at hattempt
  case isTrue hshort =>
    right
    obtain ⟨eg', hext, hreach, hcount⟩ := h.extendDf_reaches hend
    obtain ⟨hinv, hsize⟩ := h.extendDf hext
    refine ⟨hshort, eg', [], ?_, hinv, hsize, hreach, hcount⟩
    have hfirst : egFirstGroup eg = some (eg, []) := if_neg h.countPos.ne'
    unfold egAllocRound
    rw [hfirst, Option.bind_eq_bind, Option.bind_some]
    dsimp only
    rw [hattempt]
    change (egExtendDf eg (packedBlock eg.extentSize (c + 1))).bind _ = _
    rw [hext]
    rfl
  case isFalse =>
    left
    obtain ⟨eg', pending, halloc, hcount⟩ := hattempt
    have hfits : eg'.Fits := hf.fits h (htry ▸ halloc)
    exact ⟨_, _, _, egAllocRound_of_allocated iptr h.countPos.ne' halloc, hfits, hcount⟩

/-- One round may only lengthen the file, the next one then succeeds. -/
lemma EgInv.packed_loop (iptr : ExtentInversePointer) (h : EgInv eg (packed eg.extentSize c))
    (hc : c < DF_MAP_GROUP_EXTENTS)
    (hend : packedBlock eg.extentSize (c + 1) + DF_FILE_EXTEND_STEP_BLOCKS ≤ 2 ^ 32) :
    ∃ eg' log pending, egAllocLoop none iptr 2 eg = some (packedBlock eg.extentSize c, eg', log, pending) ∧
      eg'.mapHead.groupCount = eg.mapHead.groupCount := by
  have hagain : ∀ {eg₁ log₁}, egAllocRound eg none iptr = some (.again eg₁ log₁) →
      egAllocLoop none iptr 2 eg = (egAllocLoop none iptr 1 eg₁).bind fun r =>
        some (r.1, r.2.1, log₁ ++ r.2.2.1, r.2.2.2) := by
    intro eg₁ log₁ hround
    rw [egAllocLoop, hround]
    rfl
  have hreturned : ∀ {fuel eg₁ block eg₂ log₂ pending₂},
      egAllocRound eg₁ none iptr = some (.returned block eg₂ log₂ pending₂) →
      egAllocLoop none iptr (fuel + 1) eg₁ = some (block, eg₂, log₂, pending₂) := by
    intro fuel eg₁ block eg₂ log₂ pending₂ hround
    rw [egAllocLoop, hround]
    rfl
  rcases h.packed_round iptr hc hend with ⟨eg', log, pending, hround, _, hcount⟩ |
    ⟨_, eg₁, log₁, hround, h₁, hsize, hreach, hcount₁⟩
  · exact ⟨eg', log, pending, hreturned hround, hcount⟩
  · rw [← hsize] at h₁ hend hreach ⊢
    rcases h₁.packed_round iptr hc hend with ⟨eg', log, pending, hround₁, _, hcount⟩ | ⟨hshort, _⟩
    · rw [hagain hround, hreturned hround₁]
      exact ⟨_, _, _, rfl, hcount.trans hcount₁⟩
    · exact absurd hreach (not_le.mpr hshort)

lemma egFirstGroup_exists (eg : ExtentGroup) : ∃ eg' log, egFirstGroup (egInitDataFiles eg) = some (eg', log) ∧
    eg'.mapHead.groupCount = 1 := by
  have hzero : (egInitDataFiles eg).mapHead.groupCount = 0 := rfl
  have hrun : ∃ eg' log, egFirstGroup (egInitDataFiles eg) = some (eg', log) := by
    rw [egFirstGroup, if_pos hzero, egAddMapGroup, hzero, if_neg (lt_irrefl 0), if_pos ⟨rfl, Nat.succ_pos 32⟩]
    exact ⟨_, _, rfl⟩
  obtain ⟨eg', log, hrun⟩ := hrun
  refine ⟨eg', log, hrun, ?_⟩
  rw [egFirstGroup, if_pos hzero] at hrun
  exact (egAddMapGroup_count hrun).1

/-- The next allocation returns the next extent. -/
lemma Packed.alloc (hext : IsExtentSize ext) (h : Packed ext eg c) (hc : c < DF_MAP_GROUP_EXTENTS)
    (hend : packedBlock ext (c + 1) + DF_FILE_EXTEND_STEP_BLOCKS ≤ 2 ^ 32) (iptr : ExtentInversePointer) :
    ∃ eg' log pending, egAllocExtent 2 eg none iptr = some (packedBlock ext c, eg', log, pending) ∧
      Packed ext eg' (c + 1) := by
  obtain ⟨eg', log, pending, hrun, hcount⟩ : ∃ eg' log pending,
      egAllocExtent 2 eg none iptr = some (packedBlock ext c, eg', log, pending) ∧ eg'.mapHead.groupCount ≤ 1 := by
    obtain ⟨⟨hsize, hor⟩, hle⟩ := h
    have hadd : ∀ {eg₁ log₁ eg₂ log₂ pending}, egCreateIfNecessary eg = (eg₁, log₁) →
        egAllocLoop none iptr 2 eg₁ = some (packedBlock ext c, eg₂, log₂, pending) →
        egAllocExtent 2 eg none iptr = some (packedBlock ext c, eg₂, log₁ ++ log₂, pending) := by
      intro eg₁ log₁ eg₂ log₂ pending hcreate hloop
      unfold egAllocExtent
      rw [hcreate]
      dsimp only
      rw [hloop]
      rfl
    by_cases hfile : eg.totalBlocks = 0
    · -- there is no extent yet
      have hempty : packed ext c = ∅ := by
        rcases hor with hinv | ⟨hempty, _⟩
        · refine Finset.eq_empty_of_forall_notMem fun x hx => ?_
          have h1 := hinv.inFile x hx
          have h2 := hinv.size.pos
          omega
        · exact hempty
      obtain ⟨eg₁, log₁, hfirst, hone⟩ := egFirstGroup_exists eg
      have hinv : EgInv eg₁ ∅ := .create (hsize.symm ▸ hext) hfirst
      have hsize₁ : eg₁.extentSize = ext := (egFirstGroup_size hfirst).trans hsize
      rw [← hempty, ← hsize₁] at hinv
      obtain ⟨eg₂, log₂, pending, hloop, hcount⟩ := hinv.packed_loop iptr hc (hsize₁.symm ▸ hend)
      rw [hsize₁] at hloop
      have hnew : egAllocLoop none iptr 2 (egInitDataFiles eg)
          = some (packedBlock ext c, eg₂, log₁ ++ log₂, pending) := by
        rw [egAllocLoop_first hfirst hinv.countPos.ne', hloop]
        rfl
      exact ⟨eg₂, _, pending, hadd (if_pos hfile) hnew, (hcount.trans hone).le⟩
    · have hinv := hor.resolve_right fun hno => hfile hno.2.1
      rw [← hsize] at hinv
      obtain ⟨eg₂, log₂, pending, hloop, hcount⟩ := hinv.packed_loop iptr hc (hsize.symm ▸ hend)
      rw [hsize] at hloop
      exact ⟨eg₂, _, pending, hadd (if_neg hfile) hloop, hcount.trans_le hle⟩
  have hspec := h.inv.alloc hext hrun
  refine ⟨eg', log, pending, hrun, ⟨⟨hspec.size.trans h.inv.1, .inl ?_⟩, hcount⟩⟩
  rw [packed_succ]
  exact hspec.inv

/-! ## Behind the wrapped end -/

/-- Blocks with the same computed place are freed alike. -/
lemma egFreeExtent_of_locate {block block' : ℕ} {log' : List EgRecord}
    (hloc : egLocateMapByPageid eg.extentSize block eg.mapHead = egLocateMapByPageid eg.extentSize block' eg.mapHead)
    (hrun : egFreeExtent eg block' = some (eg', log')) : ∃ log, egFreeExtent eg block = some (eg', log) := by
  unfold egFreeExtent at *
  dsimp only at *
  rw [← hloc] at hrun
  split at hrun
  case isTrue => cases hrun
  case isFalse hvalid =>
    rw [if_neg hvalid]
    obtain ⟨page, hpage, hres⟩ := Option.bind_eq_some_iff.mp hrun
    cases hres
    rw [hpage]
    exact ⟨_, rfl⟩

/-- The first extent of the only group can be freed. -/
lemma Packed.free_first (h : Packed ext eg c) (hc : 0 < c)
    (hloc : egLocateMapByPageid eg.extentSize 4157 eg.mapHead = ⟨eg.mapHead.groups 0, 0, 0, 0⟩) :
    ∃ eg' log, egFreeExtent eg 4157 = some (eg', log) := by
  have hlive : packedBlock ext 0 ∈ packed ext c := Finset.mem_image_of_mem _ (Finset.mem_range.mpr hc)
  have hinv := h.inv.egInv hlive
  rw [← h.inv.1] at hinv
  have hmap := hinv.firstMap 0 hinv.countPos
  rw [groupStart_zero] at hmap
  have hbit : 0 ∈ (eg.mapPages 3).bitmap := by
    have hpage := (hinv.packed_bit (m := 0) (b := 0) (by decide) (by decide)).mpr (by rwa [Nat.zero_mul, Nat.zero_add])
    rwa [ExtentGroup.page, groupStart_zero] at hpage
  have hvalid : ¬ mapLocationIsInvalid ⟨eg.mapHead.groups 0, 0, 0, 0⟩ := by
    unfold mapLocationIsInvalid
    rw [hmap]
    exact Nat.succ_ne_zero _
  have hblock : u32 (0 + (DF_MAP_HEAD_PAGE + 1)) = 3 := rfl
  unfold egFreeExtent
  dsimp only
  rw [hloc, if_neg hvalid]
  dsimp only
  rw [hmap, hblock]
  unfold egUnsetBitmapPage
  rw [if_pos (show u16 0 ∈ (eg.mapPages 3).bitmap from hbit)]
  exact ⟨_, _, rfl⟩

/-- In the group of extents of 8192 blocks the end wraps to block 4143976509. From there on another extent, the first
one of the group, is freed. -/
lemma Packed.free_behind (h : Packed 8192 eg c) (hc : 0 < c) {block : ℕ} (hblock : 4143976509 ≤ block) :
    ∃ eg' log, egFreeExtent eg block = some (eg', log) ∧ GroupInv 8192 eg' ((packed 8192 c).erase 4157) := by
  have hlive : 4157 ∈ packed 8192 c := Finset.mem_image.mpr ⟨0, Finset.mem_range.mpr hc, by decide⟩
  have hinv := h.inv.egInv hlive
  have hsize := h.inv.1
  have hcount : eg.mapHead.groupCount = 1 := le_antisymm h.count hinv.countPos
  have hmap := hinv.firstMap 0 hinv.countPos
  rw [groupStart_zero] at hmap
  have hstart : groupPageStart (eg.mapHead.groups 0) = 4157 := by
    rw [groupPageStart, hmap]
    rfl
  have hend : groupPageEnd 8192 (eg.mapHead.groups 0) = 4143976509 := by
    rw [groupPageEnd, hstart]
    decide
  -- the last group stays in the result
  have hloc : egLocateMapByPageid 8192 block eg.mapHead = ⟨eg.mapHead.groups 0, 0, 0, 0⟩ := by
    rw [egLocateMapByPageid, hcount, locateLoop, hstart, hend, if_neg (by omega), locateLoop]
    rfl
  have hloc₀ : egLocateMapByPageid 8192 4157 eg.mapHead = ⟨eg.mapHead.groups 0, 0, 0, 0⟩ := by
    rw [egLocateMapByPageid, hcount, locateLoop, hstart, hend, if_pos (by decide), Nat.sub_self, Nat.zero_div,
      Nat.zero_div, Nat.zero_mod]
  rw [← hsize] at hloc hloc₀
  obtain ⟨eg', log₀, hrun₀⟩ := h.free_first hc hloc₀
  obtain ⟨log, hrun⟩ := egFreeExtent_of_locate (hloc.trans hloc₀.symm) hrun₀
  have hfind : Findable eg 4157 := by
    have hdata : dataStart eg.extentSize 0 = 4157 := by
      rw [dataStart, groupStart_zero]
      rfl
    refine ⟨0, hinv.countPos, hdata.le, ?_, .inl hdata.symm⟩
    rw [hsize]
    decide
  exact ⟨eg', log, hrun, (h.inv.free hlive hfind hrun₀).1⟩

/-- Every state with the first extents live and one map group is reached. -/
lemma packed_reach (hext : IsExtentSize ext) (hc : c ≤ DF_MAP_GROUP_EXTENTS)
    (hend : packedBlock ext c + DF_FILE_EXTEND_STEP_BLOCKS ≤ 2 ^ 32) :
    ∃ eg, EgReach ext eg (packed ext c) ∧ eg.mapHead.groupCount = 1 := by
  induction c with
  | zero =>
    obtain ⟨eg, log, hrun, -, -, hhead, -⟩ := firstGroup_exists ext
    exact ⟨eg, .create rfl hrun, by rw [hhead]; rfl⟩
  | succ c ih =>
    have hle : packedBlock ext c ≤ packedBlock ext (c + 1) := by
      rw [packedBlock_eq, packedBlock_eq, Nat.succ_mul]
      omega
    obtain ⟨eg, hreach, hcount⟩ := ih (Nat.le_of_succ_le hc) (le_trans (Nat.add_le_add_right hle _) hend)
    obtain ⟨hinv, rfl⟩ := hreach.inv hext
    rw [packed_succ]
    rcases hinv.packed_round ⟨0, 0⟩ hc hend with ⟨eg', log, pending, hround, hfits, hcount'⟩ |
      ⟨-, eg₁, log₁, hround, hinv₁, hsize, hlong, hcount₁⟩
    · exact ⟨eg', hreach.returned (fun p hp => by cases hp) hround hfits, hcount'.trans hcount⟩
    · -- the file was too short, the next round returns
      have hreach₁ := hreach.again hround hinv₁.fits
      rw [← hsize] at hinv₁ hend hlong hreach₁ ⊢
      rcases hinv₁.packed_round ⟨0, 0⟩ hc hend with ⟨eg', log, pending, hround', hfits, hcount'⟩ | ⟨hshort, -⟩
      · exact ⟨eg', hreach₁.returned (fun p hp => by cases hp) hround' hfits, hcount'.trans (hcount₁.trans hcount)⟩
      · exact absurd hlong (not_le.mpr hshort)

/-- When the bit of the first extent is clear, that extent is the next one. -/
lemma EgInv.round_first (iptr : ExtentInversePointer) (h : EgInv eg live) (hnot : packedBlock eg.extentSize 0 ∉ live)
    (hlong : packedBlock eg.extentSize 1 ≤ eg.totalBlocks) :
    ∃ eg' log pending, egAllocRound eg none iptr = some (.returned (packedBlock eg.extentSize 0) eg' log pending) ∧
      eg'.Fits ∧ eg'.extentSize = eg.extentSize := by
  have hclear : 0 ∉ (eg.page 0 0).bitmap := fun hbit =>
    hnot ((h.liveBits _).mpr ⟨0, h.countPos, 0, by decide, 0, hbit, rfl⟩)
  rcases h.tryAlloc_cases with ⟨hfull, -⟩ | ⟨n, m, b, hf, htry⟩
  · exact absurd (hfull 0 h.countPos 0 (by decide) 0 (by decide)) hclear
  obtain rfl : n = 0 := Nat.eq_zero_of_not_pos fun hn => hclear (hf.groups 0 hn 0 (by decide) 0 (by decide))
  obtain rfl : m = 0 := Nat.eq_zero_of_not_pos fun hm => hclear (hf.pages 0 hm 0 (by decide))
  obtain rfl : b = 0 := Nat.eq_zero_of_not_pos fun hb => hclear (hf.bits 0 hb)
  have hattempt := hf.attempt h
  have hblock : extentBlock eg.extentSize 0 0 0 = packedBlock eg.extentSize 0 := rfl
  have hnext : packedBlock eg.extentSize 1 = packedBlock eg.extentSize 0 + eg.extentSize := by
    rw [packedBlock_eq, packedBlock_eq, Nat.one_mul, Nat.zero_mul]
  rw [hblock, ← hnext, if_neg (not_lt.mpr hlong), ← htry] at hattempt
  obtain ⟨eg', pending, halloc, -⟩ := hattempt
  have hfits : eg'.Fits := hf.fits h (htry ▸ halloc)
  have hround := egAllocRound_of_allocated iptr h.countPos.ne' halloc
  exact ⟨_, _, _, hround, hfits, (h.returned (fun p hp => by cases hp) hround hfits).2.2.2⟩

/-- The last of 505857 extents of 8192 blocks lies at the end of its group as computed in 32 bits. Freeing it clears the
bit of the first extent, which the next allocation then hands out a second time. -/
theorem freed_extent_handed_out :
    ∃ eg eg₁ eg₂ log log₁ pending, EgReach 8192 eg (packed 8192 505857) ∧ 4143976509 ∈ packed 8192 505857 ∧
      egFreeExtent eg 4143976509 = some (eg₁, log) ∧ 4157 ∈ (packed 8192 505857).erase 4143976509 ∧
      egAllocRound eg₁ none ⟨0, 0⟩ = some (.returned 4157 eg₂ log₁ pending) ∧ eg₂.Fits ∧
      ¬ Exclusive eg₂ ((packed 8192 505857).erase 4143976509) 4157 := by
  have hext : IsExtentSize 8192 := .inr (.inr (.inr (.inr rfl)))
  obtain ⟨eg, hreach, hcount⟩ := packed_reach (c := 505857) hext (by decide) (by rw [packedBlock_eq]; decide)
  obtain ⟨hinv, hsize⟩ := hreach.inv hext
  have hblocks : packedBlock 8192 0 = 4157 ∧ packedBlock 8192 1 = 12349 ∧ packedBlock 8192 505856 = 4143976509 := by
    simp only [packedBlock_eq]
    decide
  have hmem : ∀ i < 505857, packedBlock 8192 i ∈ packed 8192 505857 := fun i hi => (mem_packed (by decide)).mpr hi
  have hlive := hblocks.2.2 ▸ hmem 505856 (by decide)
  have hother : 4157 ∈ (packed 8192 505857).erase 4143976509 :=
    Finset.mem_erase.mpr ⟨by decide, hblocks.1 ▸ hmem 0 (by decide)⟩
  obtain ⟨eg₁, log, hfree, hsize₁, hinv₁⟩ :=
    Packed.free_behind ⟨⟨hsize, .inl hinv⟩, hcount.le⟩ (by decide) (le_refl 4143976509)
  have hsecond := Finset.mem_erase.mpr ⟨(by decide : 12349 ≠ 4157), hblocks.2.1 ▸ hmem 1 (by decide)⟩
  have hinv₁ := hinv₁.resolve_right fun hno => absurd hsecond (hno.1 ▸ Finset.notMem_empty _)
  have hlong : packedBlock eg₁.extentSize 1 ≤ eg₁.totalBlocks := by
    rw [hsize₁, hblocks.2.1]
    exact (Nat.le_add_right _ _).trans (hinv₁.inFile _ hsecond)
  obtain ⟨eg₂, log₁, pending, hround, hfits, hsize₂⟩ := hinv₁.round_first ⟨0, 0⟩
    (by rw [hsize₁, hblocks.1]; exact Finset.notMem_erase _ _) hlong
  rw [hsize₁, hblocks.1] at hround
  refine ⟨eg, eg₁, eg₂, log, log₁, pending, hreach, hlive, hfree, hother, hround, hfits, fun hexcl => ?_⟩
  have hpos : 0 < eg₂.extentSize := by
    rw [hsize₂, hsize₁]
    decide
  exact (hexcl 4157 le_rfl (Nat.lt_add_of_pos_right hpos)).2.2.1 4157 hother ⟨le_rfl, Nat.lt_add_of_pos_right hpos⟩

end Packed

end GaussKernel.Segment
