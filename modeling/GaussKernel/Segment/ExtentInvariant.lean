import GaussKernel.Segment.ExtentGrow

/-!
# The invariant of the extent allocator

The redundant hints of the map head and the map pages stay right in every run of allocations, with and
without a preassigned block, of frees, of map group additions and of file extensions, and an extent that
is handed out is disjoint from everything in use. The runs considered are those in which no preassigned
and no freed block lies behind the end of its map group as computed in 32 bits.
-/

namespace GaussKernel.Segment

/-! ## Runs -/

/-- A preassigned block: the first block of an extent that is not live. -/
def PreassignedFree (ext : ℕ) (live : Finset ℕ) (block : ℕ) : Prop :=
  block < 2 ^ 32 ∧ block ∉ live ∧
    ∃ n, ∃ m < DF_MAP_GROUP_SIZE, ∃ b < DF_MAP_BIT_CNT, block = extentBlock ext n m b

/-- The block lies among the extents of a map group, and is found there again. -/
def Findable (eg : ExtentGroup) (block : ℕ) : Prop :=
  ∃ n < eg.mapHead.groupCount, dataStart eg.extentSize n ≤ block ∧
    block < groupStart eg.extentSize (n + 1) ∧ Locatable eg.extentSize n block

/-- The runs of an extent group, with the first blocks of the live extents. A round of `eg_alloc_extent`
runs under the lock of the map head, and anything may happen between two rounds. -/
inductive EgReach (ext : ℕ) : ExtentGroup → Finset ℕ → Prop where
  | create {eg eg' log} (hsize : eg.extentSize = ext)
      (hrun : egFirstGroup (egInitDataFiles eg) = some (eg', log)) : EgReach ext eg' ∅
  | returned {eg live preassigned iptr block eg' log pending} (h : EgReach ext eg live)
      (hpre : ∀ p ∈ preassigned, PreassignedFree ext live p ∧ Findable eg p)
      (hrun : egAllocRound eg preassigned iptr = some (.returned block eg' log pending))
      (hfits : eg'.Fits) : EgReach ext eg' (insert block live)
  | again {eg live preassigned iptr eg' log} (h : EgReach ext eg live)
      (hrun : egAllocRound eg preassigned iptr = some (.again eg' log)) (hfits : eg'.Fits) :
      EgReach ext eg' live
  | free {eg live block eg' log} (h : EgReach ext eg live) (hlive : block ∈ live)
      (hfind : Findable eg block) (hrun : egFreeExtent eg block = some (eg', log)) :
      EgReach ext eg' (live.erase block)
  | addMapGroup {eg live start eg' log} (h : EgReach ext eg live)
      (hstart : egNextGroupStart eg.mapHead = some start)
      (hrun : egAddMapGroup eg start eg.mapHead.groupCount = some (eg', log)) (hfits : eg'.Fits) :
      EgReach ext eg' live
  | extendDf {eg live target eg'} (h : EgReach ext eg live) (hrun : egExtendDf eg target = some eg') :
      EgReach ext eg' live

section Run

variable {eg eg' : ExtentGroup} {live : Finset ℕ} {log pending : List EgRecord} {block : ℕ}

/-- The group of a findable extent. -/
lemma Findable.group {n m b : ℕ} (hm : m < DF_MAP_GROUP_SIZE) (hb : b < DF_MAP_BIT_CNT)
    (hext : 0 < eg.extentSize) (h : Findable eg (extentBlock eg.extentSize n m b)) :
    n < eg.mapHead.groupCount ∧ Locatable eg.extentSize n (extentBlock eg.extentSize n m b) := by
  obtain ⟨k, hk, hge, hlt, hloc⟩ := h
  have hle : dataStart eg.extentSize n ≤ extentBlock eg.extentSize n m b := dataStart_le_extentBlock
  have hend : extentBlock eg.extentSize n m b + eg.extentSize ≤ groupStart eg.extentSize (n + 1) :=
    extentBlock_end_le hm hb
  have key : ∀ {i j : ℕ}, i < j → groupStart eg.extentSize (i + 1) ≤ dataStart eg.extentSize j := by
    intro i j hij
    have : groupStart eg.extentSize (i + 1) ≤ groupStart eg.extentSize j := groupStart_mono _ hij
    unfold dataStart
    omega
  rcases Nat.lt_trichotomy n k with hnk | rfl | hkn
  · have := key hnk
    omega
  · exact ⟨hk, hloc⟩
  · have := key hkn
    omega

variable {preassigned : Option ℕ} {iptr : ExtentInversePointer}

lemma EgInv.round_inv (h : EgInv eg live) {r : AllocRound} (hrun : egAllocRound eg preassigned iptr = some r) :
    ∃ t, egTryAllocExtent eg preassigned = some t ∧
      match t with
      | .allocated block eg' pending => r = .returned block (setInversePointer eg' block iptr).1 []
          (pending ++ (setInversePointer eg' block iptr).2)
      | .targetFileSize target => ∃ eg', egExtendDf eg target = some eg' ∧ r = .again eg' []
      | .full => ∃ start eg' log, egNextGroupStart eg.mapHead = some start ∧
          egAddMapGroup eg start eg.mapHead.groupCount = some (eg', log) ∧ r = .again eg' log := by
  have hfirst : egFirstGroup eg = some (eg, []) := if_neg h.countPos.ne'
  unfold egAllocRound at hrun
  rw [hfirst, Option.bind_eq_bind, Option.bind_some] at hrun
  obtain ⟨t, ht, hres⟩ := Option.bind_eq_some_iff.mp hrun
  refine ⟨t, ht, ?_⟩
  cases t with
  | allocated block eg' pending =>
    cases hres
    rfl
  | targetFileSize target =>
    obtain ⟨eg', heg', hr⟩ := Option.bind_eq_some_iff.mp hres
    cases hr
    exact ⟨eg', heg', rfl⟩
  | full =>
    obtain ⟨start, hstart, hres'⟩ := Option.bind_eq_some_iff.mp hres
    obtain ⟨⟨eg', log⟩, hadd, hr⟩ := Option.bind_eq_some_iff.mp hres'
    cases hr
    exact ⟨start, eg', log, hstart, hadd, rfl⟩

lemma egAllocRound_of_allocated (iptr : ExtentInversePointer) (hcount : eg.mapHead.groupCount ≠ 0)
    (htry : egTryAllocExtent eg preassigned = some (.allocated block eg' pending)) :
    egAllocRound eg preassigned iptr = some (.returned block (setInversePointer eg' block iptr).1 []
      (pending ++ (setInversePointer eg' block iptr).2)) := by
  have hfirst : egFirstGroup eg = some (eg, []) := if_neg hcount
  unfold egAllocRound
  rw [hfirst, Option.bind_eq_bind, Option.bind_some]
  dsimp only
  rw [htry]
  rfl

lemma EgInv.returned (h : EgInv eg live)
    (hpre : ∀ p ∈ preassigned, PreassignedFree eg.extentSize live p ∧ Findable eg p)
    (hrun : egAllocRound eg preassigned iptr = some (.returned block eg' log pending)) (hfits : eg'.Fits) :
    Allocated eg live block eg' := by
  obtain ⟨t, ht, hres⟩ := h.round_inv hrun
  cases t with
  | targetFileSize target =>
    obtain ⟨_, _, hr⟩ := hres
    cases hr
  | full =>
    obtain ⟨_, _, _, _, _, hr⟩ := hres
    cases hr
  | allocated block' eg'' pending' =>
    cases hres
    have halloc : Allocated eg live block eg'' := by
      cases preassigned with
      | none => exact h.tryAlloc ht
      | some p =>
        obtain ⟨⟨hlt, _, n, m, hm, b, hb, rfl⟩, hfind⟩ := hpre p rfl
        obtain ⟨hn, hloc⟩ := hfind.group hm hb h.size.pos
        exact h.tryAlloc_preassigned hn hm hb hlt hloc ht hfits
    exact ⟨halloc.1, halloc.2.1, halloc.2.2.1.withIpPages _, halloc.2.2.2⟩

lemma EgInv.again (h : EgInv eg live) (hrun : egAllocRound eg preassigned iptr = some (.again eg' log))
    (hfits : eg'.Fits) : EgInv eg' live ∧ eg'.extentSize = eg.extentSize := by
  obtain ⟨t, _, hres⟩ := h.round_inv hrun
  cases t with
  | targetFileSize target =>
    obtain ⟨_, hext, hr⟩ := hres
    cases hr
    exact h.extendDf hext
  | full =>
    obtain ⟨start, _, _, hstart, hadd, hr⟩ := hres
    cases hr
    exact ⟨h.addGroup hstart hadd hfits, (egAddMapGroup_count hadd).2⟩
  | allocated block' eg'' pending' => cases hres

/-- A group is added only when all extents in front of it are live, so that it begins inside the file. -/
lemma EgInv.addGroup_fits (h : EgInv eg live) (hfull : egTryAllocExtent eg none = some .full)
    {start : ℕ} (hstart : egNextGroupStart eg.mapHead = some start)
    (hrun : egAddMapGroup eg start eg.mapHead.groupCount = some (eg', log)) : eg'.Fits := by
  have hall : ∀ n < eg.mapHead.groupCount, ∀ m < DF_MAP_GROUP_SIZE, (eg.page n m).Full := by
    rcases h.tryAlloc_cases with ⟨hall, _⟩ | ⟨n, m, b, _, htry⟩
    · exact hall
    · exact (egAllocExtentFromMapInternal_ne_full _ _ _ _ _ (htry.symm.trans hfull)).elim
  obtain ⟨k, hk⟩ : ∃ k, eg.mapHead.groupCount = k + 1 := ⟨eg.mapHead.groupCount - 1, by have := h.countPos; omega⟩
  have hend := h.full_end_le (n := k) (by omega) (hall k (by omega))
  have htotal := h.total_le
  have hdata : dataStart eg.extentSize eg.mapHead.groupCount ≤ 2 ^ 32 := by
    rw [hk, dataStart]
    simp only [DF_MAP_GROUP_SIZE, IPBLOCK_GROUP_SIZE, DF_FILE_EXTEND_STEP_BLOCKS] at *
    omega
  obtain rfl : start = groupStart eg.extentSize eg.mapHead.groupCount := h.nextGroupStart hstart (by
    simp only [DF_FILE_EXTEND_STEP_BLOCKS] at htotal
    rw [hk]
    omega)
  obtain ⟨_, hsize, _, hhead, hnew, hold⟩ := egAddMapGroup_spec hdata hrun
  have hcount : eg'.mapHead.groupCount = eg.mapHead.groupCount + 1 := by rw [hhead]; rfl
  rw [ExtentGroup.Fits, hsize, hcount]
  refine forall_lt_succ ?_ ⟨hdata, ?_⟩
  · intro n hn
    refine ⟨(h.fits n hn).1, ?_⟩
    intro m hm b hb
    rw [hold n hn m hm] at hb
    exact (h.fits n hn).2 m hm b hb
  · intro m hm b hb
    rw [hnew m hm] at hb
    exact absurd hb (Finset.notMem_empty b)

/-- A round without a preassigned block keeps the invariant, whatever it does. -/
lemma EgInv.round (h : EgInv eg live) {r : AllocRound} (hrun : egAllocRound eg none iptr = some r) :
    match r with
    | .returned block eg' _ _ => Allocated eg live block eg'
    | .again eg' _ => EgInv eg' live ∧ eg'.extentSize = eg.extentSize := by
  obtain ⟨t, ht, hres⟩ := h.round_inv hrun
  cases t with
  | targetFileSize target =>
    obtain ⟨_, hext, rfl⟩ := hres
    exact h.extendDf hext
  | full =>
    obtain ⟨start, _, _, hstart, hadd, rfl⟩ := hres
    exact ⟨h.addGroup hstart hadd (h.addGroup_fits ht hstart hadd), (egAddMapGroup_count hadd).2⟩
  | allocated block eg'' pending' =>
    subst hres
    have halloc := h.tryAlloc ht
    exact ⟨halloc.1, halloc.2.1, halloc.2.2.1.withIpPages _, halloc.2.2.2⟩

lemma EgInv.freeExtent (h : EgInv eg live) (hlive : block ∈ live) (hfind : Findable eg block)
    (hrun : egFreeExtent eg block = some (eg', log)) :
    EgInv eg' (live.erase block) ∧ eg'.extentSize = eg.extentSize := by
  obtain ⟨n, hn, m, hm, b, hb, rfl⟩ := (h.liveBits block).mp hlive
  have hbit := (h.pageOk n hn m hm).bits b hb
  obtain ⟨_, hloc⟩ := hfind.group hm hbit h.size.pos
  have hfit := (h.fits n hn).2 m hm b hb
  have hpos := h.size.pos
  obtain ⟨hvalid, hu16, hmap⟩ := h.place_valid hn hm hbit
  simp only [DF_MAP_BIT_CNT] at hbit
  unfold egFreeExtent at hrun
  dsimp only at hrun
  rw [h.locate hn hm hbit (by omega) hloc, if_neg hvalid, hu16, hmap] at hrun
  obtain ⟨p, hp, hres⟩ := Option.bind_eq_some_iff.mp hrun
  cases hres
  exact ⟨h.free hn hm hb hp, rfl⟩

lemma EgReach.inv {ext : ℕ} (hext : IsExtentSize ext) (h : EgReach ext eg live) :
    EgInv eg live ∧ eg.extentSize = ext := by
  induction h with
  | create hsize hrun => exact ⟨EgInv.create (hsize ▸ hext) hrun, (egFirstGroup_size hrun).trans hsize⟩
  | returned h hpre hrun hfits ih =>
    obtain ⟨hinv, rfl⟩ := ih
    exact (hinv.returned hpre hrun hfits).2.2
  | again h hrun hfits ih =>
    obtain ⟨hinv, rfl⟩ := ih
    exact hinv.again hrun hfits
  | free h hlive hfind hrun ih =>
    obtain ⟨hinv, rfl⟩ := ih
    exact hinv.freeExtent hlive hfind hrun
  | addMapGroup h hstart hrun hfits ih =>
    obtain ⟨hinv, rfl⟩ := ih
    exact ⟨hinv.addGroup hstart hrun hfits, (egAddMapGroup_count hrun).2⟩
  | extendDf h hrun ih =>
    obtain ⟨hinv, rfl⟩ := ih
    exact hinv.extendDf hrun

end Run

/-! ## The allocator -/

/-- Map page `m` of group `n`, where the map head says it is. -/
def ExtentGroup.mapPage (eg : ExtentGroup) (n m : ℕ) : MapPage :=
  eg.mapPages ((eg.mapHead.groups n).firstMap + m)

/-- The counters and the hints of an extent group agree with its bitmaps, and the high water mark is behind
the live extents. -/
structure Consistent (eg : ExtentGroup) (live : Finset ℕ) : Prop where
  allocatedExtents : eg.mapHead.allocatedExtents
    = ∑ n ∈ Finset.range eg.mapHead.groupCount, ∑ m ∈ Finset.range (eg.mapHead.groups n).pageCount,
        (eg.mapPage n m).bitmap.card
  freeBits : ∀ n < eg.mapHead.groupCount, ∀ m < (eg.mapHead.groups n).pageCount,
    (eg.mapPage n m).freeBits = DF_MAP_BIT_CNT - (eg.mapPage n m).bitmap.card
  freeBegin : ∀ n < eg.mapHead.groupCount, ∀ m < (eg.mapHead.groups n).pageCount,
    ∀ b < (eg.mapPage n m).freeBegin, b ∈ (eg.mapPage n m).bitmap
  dirtyLast : ∀ n < eg.mapHead.groupCount, ∀ m < (eg.mapHead.groups n).pageCount,
    ∀ b ∈ (eg.mapPage n m).bitmap, b ≤ (eg.mapPage n m).dirtyLast
  freePage : ∀ n < eg.mapHead.groupCount, ∀ m < (eg.mapHead.groups n).pageCount,
    n < eg.mapHead.freeGroup ∨ m < (eg.mapHead.groups n).freePage →
      ∀ b < DF_MAP_BIT_CNT, b ∈ (eg.mapPage n m).bitmap
  freeGroup : eg.mapHead.freeGroup < eg.mapHead.groupCount
  highWaterMark : ∀ block ∈ live, block + eg.extentSize ≤ eg.mapHead.highWaterMark

/-- Every block of the extent at `block` is in the file and belongs to nothing else. -/
def Exclusive (eg : ExtentGroup) (live : Finset ℕ) (block : ℕ) : Prop :=
  ∀ x, block ≤ x → x < block + eg.extentSize → x < eg.totalBlocks ∧ x ≠ DF_MAP_HEAD_PAGE ∧
    (∀ l ∈ live, ¬ (l ≤ x ∧ x < l + eg.extentSize)) ∧
    ∀ n < eg.mapHead.groupCount, ¬ ((eg.mapHead.groups n).firstMap ≤ x ∧
      x < (eg.mapHead.groups n).firstMap + DF_MAP_GROUP_SIZE + IPBLOCK_GROUP_SIZE)

lemma EgInv.consistent {eg : ExtentGroup} {live : Finset ℕ} (h : EgInv eg live) : Consistent eg live := by
  have hpage : ∀ n < eg.mapHead.groupCount, ∀ m, eg.mapPage n m = eg.page n m := by
    intro n hn m
    rw [ExtentGroup.mapPage, h.firstMap n hn]
    rfl
  refine ⟨?_, ?_, ?_, ?_, ?_, h.freeGroup, h.hwm⟩
  · rw [h.allocated, ExtentGroup.setBits, Finset.sum_product]
    refine Finset.sum_congr rfl fun n hn => ?_
    have hn' := Finset.mem_range.mp hn
    rw [h.pageCount n hn']
    exact Finset.sum_congr rfl fun m _ => by rw [hpage n hn']
  · intro n hn m hm
    rw [hpage n hn]
    exact (h.pageOk n hn m (h.pageCount n hn ▸ hm)).freeBits
  · intro n hn m hm
    rw [hpage n hn]
    exact (h.pageOk n hn m (h.pageCount n hn ▸ hm)).freeBegin
  · intro n hn m hm
    rw [hpage n hn]
    exact (h.pageOk n hn m (h.pageCount n hn ▸ hm)).dirtyLast
  · intro n hn m hm hor
    rw [hpage n hn]
    exact h.hint n hn m (h.pageCount n hn ▸ hm) hor

lemma Allocated.exclusive {eg eg' : ExtentGroup} {live : Finset ℕ} {block : ℕ} (h : EgInv eg live)
    (halloc : Allocated eg live block eg') : Exclusive eg' live block := by
  obtain ⟨⟨n, hn, m, hm, b, hb, rfl⟩, hnot, hinv, hsize⟩ := halloc
  intro x hx1 hx2
  rw [hsize] at hx2
  refine ⟨?_, ?_, ?_, ?_⟩
  · have := hinv.inFile _ (Finset.mem_insert_self _ live)
    rw [hsize] at this
    omega
  · have := (@extentBlock_metadata eg.extentSize n m b hm hb 0).1
    omega
  · rintro l hl ⟨h1, h2⟩
    rw [hsize] at h2
    obtain ⟨n', hn', m', hm', b', hb', rfl⟩ := (h.liveBits l).mp hl
    have hd := @extentBlock_disjoint eg.extentSize n m b n' m' b' hm hb hm'
      ((h.pageOk n' hn' m' hm').bits b' hb') (by
        rintro ⟨rfl, rfl, rfl⟩
        exact hnot hl)
    omega
  · rintro k hk ⟨h1, h2⟩
    rw [hinv.firstMap k hk, hsize] at h1 h2
    have hk' := (@extentBlock_metadata eg.extentSize n m b hm hb k).2
    unfold dataStart at hk'
    omega

/-- The extent allocator is right in every run in which preassigned and freed blocks can be found again:
the counters and hints stay consistent, and every extent handed out is disjoint from the live extents and
the metadata pages and lies inside the file. -/
theorem extentGroup_run {ext : ℕ} (hext : IsExtentSize ext) {eg : ExtentGroup} {live : Finset ℕ}
    (h : EgReach ext eg live) :
    Consistent eg live ∧
    ∀ preassigned iptr block eg' log pending,
      (∀ p ∈ preassigned, PreassignedFree ext live p ∧ Findable eg p) →
      egAllocRound eg preassigned iptr = some (.returned block eg' log pending) → eg'.Fits →
      Exclusive eg' live block := by
  obtain ⟨hinv, rfl⟩ := h.inv hext
  refine ⟨hinv.consistent, ?_⟩
  intro preassigned iptr block eg' log pending hpre hrun hfits
  exact (hinv.returned hpre hrun hfits).exclusive hinv

/-- An extent group without a file. -/
def emptyGroup (ext : ℕ) : ExtentGroup where
  extentSize := ext
  totalBlocks := 0
  mapHead := initMapHead ext
  mapPages := fun _ => egInitBitmapPageContent 0
  ipPages := fun _ _ => ⟨0, 0⟩

/-- The state in which the first allocation finds the extent group. -/
lemma firstGroup_exists (ext : ℕ) :
    ∃ eg log, egFirstGroup (egInitDataFiles (emptyGroup ext)) = some (eg, log) ∧ eg.extentSize = ext ∧
      eg.totalBlocks = DF_FILE_EXTEND_STEP_BLOCKS ∧
      eg.mapHead = (initMapHead ext).addGroup 3 DF_MAP_GROUP_SIZE ∧
      eg.mapPages 3 = egInitBitmapPageContent 4157 := by
  have hzero : (egInitDataFiles (emptyGroup ext)).mapHead.groupCount = 0 := rfl
  have hrun : ∃ eg log, egFirstGroup (egInitDataFiles (emptyGroup ext)) = some (eg, log) := by
    rw [egFirstGroup, if_pos hzero, egAddMapGroup, hzero, if_neg (lt_irrefl 0),
      if_pos ⟨rfl, Nat.succ_pos 32⟩]
    exact ⟨_, _, rfl⟩
  obtain ⟨eg, log, hrun⟩ := hrun
  refine ⟨eg, log, hrun, egFirstGroup_size hrun, ?_⟩
  have hdata : dataStart ext 0 ≤ 2 ^ 32 := by
    rw [dataStart, groupStart_zero]
    decide
  rw [egFirstGroup, if_pos hzero, ← groupStart_zero ext] at hrun
  obtain ⟨_, hsize, htotal, hhead, hnew, _⟩ := egAddMapGroup_spec hdata hrun
  have hpage := hnew 0 (Nat.succ_pos 63)
  have hstart : dataStart ext 0 = 4157 := by
    rw [dataStart, groupStart_zero]
    rfl
  unfold ExtentGroup.page at hpage
  rw [hsize] at hpage
  change eg.mapPages (groupStart ext 0) = egInitBitmapPageContent (u32 (dataStart ext 0
    + 0 * DF_MAP_BIT_CNT * ext)) at hpage
  rw [groupStart_zero, hstart, Nat.zero_mul, Nat.zero_mul] at hpage
  refine ⟨htotal, ?_, hpage⟩
  rw [hhead]
  change (initMapHead ext).addGroup (groupStart ext 0) _ = _
  rw [groupStart_zero]

/-- The first page of the first group with its first bit set. -/
def firstBitPage : MapPage := ⟨⟨4157, 1, 0, 65247⟩, {0}⟩

/-- Setting the first bit in a new extent group. -/
lemma firstBit_alloc {ext : ℕ} {eg : ExtentGroup} (hsize : eg.extentSize = ext)
    (htotal : eg.totalBlocks = DF_FILE_EXTEND_STEP_BLOCKS)
    (hpage : eg.mapPages 3 = egInitBitmapPageContent 4157) (hle : 4157 + ext ≤ 16384) :
    ∃ log, egAllocExtentFromMapInternal eg 3 0 0 0 = some (.allocated 4157
      (eg.withPage (eg.mapHead.allocate 0 0 (4157 + ext)) 0 0 firstBitPage) log) := by
  have hstart : groupStart eg.extentSize 0 + 0 = 3 := by rw [Nat.add_zero, groupStart_zero]
  have hpn : u32 ((egInitBitmapPageContent 4157).firstPage + 0 * eg.mapHead.bitUnit) = 4157 := by
    rw [Nat.zero_mul]
    rfl
  have hend : u32 (4157 + ext) = 4157 + ext := u32_of_lt (by omega)
  have hset : egSetBitmapPage (egInitBitmapPageContent 4157) 0 = some firstBitPage := by decide
  unfold egAllocExtentFromMapInternal ExtentGroup.withPage
  dsimp only
  rw [hpage, hpn, hsize, hend, htotal, if_neg (by simp only [DF_FILE_EXTEND_STEP_BLOCKS]; omega), hset,
    ← hsize, hstart]
  exact ⟨_, rfl⟩

lemma firstBit_fits {ext : ℕ} {eg : ExtentGroup} (h : EgInv eg ∅) (hsize : eg.extentSize = ext)
    (hcount : eg.mapHead.groupCount = 1) (hle : 4157 + ext ≤ 16384) {head : MapHead}
    (hhead : head.groupCount = 1) : (eg.withPage head 0 0 firstBitPage).Fits := by
  have hdata : dataStart ext 0 = 4157 := by
    rw [dataStart, groupStart_zero]
    rfl
  intro n hn
  have hn' : n < 1 := hhead ▸ hn
  obtain rfl : n = 0 := by omega
  change dataStart eg.extentSize 0 ≤ 2 ^ 32 ∧ _
  rw [hsize, hdata]
  refine ⟨by decide, ?_⟩
  refine forall_page_withPage (P := fun i j q => ∀ b ∈ q.bitmap, extentBlock eg.extentSize i j b
    + eg.extentSize ≤ 2 ^ 32) (c := 1) (Nat.succ_pos 63) ?_ ?_ 0 Nat.one_pos
  · intro i hi j hj _ b hb
    have : extentBlock eg.extentSize i j b ∈ (∅ : Finset ℕ) :=
      (h.liveBits _).mpr ⟨i, by omega, j, hj, b, hb, rfl⟩
    exact absurd this (Finset.notMem_empty _)
  · intro b hb
    obtain rfl : b = 0 := Finset.mem_singleton.mp hb
    rw [hsize, extentBlock, hdata, Nat.zero_mul, Nat.zero_add, Nat.zero_mul]
    omega

/-- A first allocation of eight blocks. -/
theorem extentGroup_run_first :
    ∃ eg eg' block log pending, EgReach 8 eg ∅ ∧
      egAllocRound eg none ⟨0, 0⟩ = some (.returned block eg' log pending) ∧ block = 4157 ∧ eg'.Fits ∧
      Consistent eg ∅ ∧ Exclusive eg' ∅ block := by
  obtain ⟨eg, log, hrun, hsize, htotal, hhead, hpage⟩ := firstGroup_exists 8
  have hext : IsExtentSize 8 := .inr (.inl rfl)
  have hreach : EgReach 8 eg ∅ := .create rfl hrun
  have hinv := (hreach.inv hext).1
  have hcount : eg.mapHead.groupCount = 1 := by rw [hhead]; rfl
  have hgroup : eg.mapHead.groups 0 = ⟨3, 0, 64⟩ := by rw [hhead]; rfl
  have hfree : eg.mapHead.freeGroup = 0 := by rw [hhead]; rfl
  obtain ⟨log', hinternal⟩ := firstBit_alloc hsize htotal hpage (by decide)
  have htry : egTryAllocExtent eg none = some (.allocated 4157
      (eg.withPage (eg.mapHead.allocate 0 0 (4157 + 8)) 0 0 firstBitPage) log') := by
    have hpage3 : egAllocExtentFromMap eg 3 0 0 = egAllocExtentFromMapInternal eg 3 0 0 0 := by
      unfold egAllocExtentFromMap
      rw [hpage]
      rfl
    have hgroup0 : tryGroup eg 0 = some (.allocated 4157
        (eg.withPage (eg.mapHead.allocate 0 0 (4157 + 8)) 0 0 firstBitPage) log') := by
      unfold tryGroup
      dsimp only
      rw [hgroup, if_pos (Nat.succ_pos 63)]
      change scan _ (63 + 1) 0 = _
      have hmap : u32 (3 + 0) = 3 := rfl
      rw [scan, hmap, hpage3, hinternal]
    unfold egTryAllocExtent
    dsimp only
    rw [hcount, hfree, if_pos ⟨Nat.one_pos, Nat.one_pos⟩]
    change (scan (tryGroup eg) (0 + 1) 0).bind _ = _
    rw [scan, hgroup0]
    rfl
  obtain ⟨hcons, hexcl⟩ := extentGroup_run hext hreach
  have hround := egAllocRound_of_allocated ⟨0, 0⟩ hinv.countPos.ne' htry
  have hfits := firstBit_fits hinv hsize hcount (by decide)
    (show (eg.mapHead.allocate 0 0 (4157 + 8)).groupCount = 1 from hcount)
  refine ⟨eg, _, 4157, _, _, hreach, hround, rfl, hfits, hcons, ?_⟩
  exact hexcl none _ _ _ _ _ (fun p hp => by cases hp) hround hfits

end GaussKernel.Segment
