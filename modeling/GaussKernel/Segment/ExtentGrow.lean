import GaussKernel.Segment.ExtentSearch

/-!
# New map groups and a longer file

Adding a map group and lengthening the file keep the invariant.
-/

namespace GaussKernel.Segment

/-! ## Map groups and the file -/

section Grow

variable {eg eg' : ExtentGroup} {live : Finset ℕ} {log : List EgRecord}

lemma initBitmapPages_spec (eg : ExtentGroup) (count pageno start : ℕ) (hle : pageno + count < 2 ^ 32)
    (hstart : start < 2 ^ 32) : (initBitmapPages eg count pageno start).1 = { eg with
      mapPages := fun x => if pageno ≤ x ∧ x < pageno + count then
          egInitBitmapPageContent (u32 (start + (x - pageno) * DF_MAP_BIT_CNT * eg.extentSize))
        else eg.mapPages x } := by
  induction count generalizing eg pageno start with
  | zero =>
    have : ∀ x, ¬ (pageno ≤ x ∧ x < pageno + 0) := by omega
    simp only [initBitmapPages, this, if_false]
  | succ count ih =>
    have hnext : u32 (pageno + 1) = pageno + 1 := u32_of_lt (by omega)
    have hih := ih (egInitBitmapPage eg pageno start) (pageno + 1)
      (u32 (start + DF_MAP_BIT_CNT * eg.extentSize)) (by omega) (Nat.mod_lt _ (by decide))
    rw [initBitmapPages]
    dsimp only
    rw [hnext, hih]
    unfold egInitBitmapPage
    dsimp only
    congr 1
    funext x
    rcases Nat.lt_trichotomy x pageno with hx | rfl | hx
    · rw [if_neg (by omega), if_neg (by omega), Function.update_of_ne (by omega)]
    · rw [if_neg (by omega), if_pos (by omega), Function.update_self, Nat.sub_self, Nat.zero_mul,
        Nat.zero_mul, Nat.add_zero, u32_of_lt hstart]
    · by_cases hx' : x < pageno + (count + 1)
      · rw [if_pos (by omega), if_pos (by omega), u32_add_left]
        congr 2
        obtain ⟨k, rfl⟩ : ∃ k, x = pageno + 1 + k := ⟨x - pageno - 1, by omega⟩
        rw [Nat.add_sub_cancel_left, show pageno + 1 + k - pageno = k + 1 by omega]
        ring
      · rw [if_neg (by omega), if_neg (by omega), Function.update_of_ne (by omega)]

lemma initInvrsptrPages_spec (eg : ExtentGroup) (count pageno : ℕ) :
    ∃ ips, (initInvrsptrPages eg count pageno).1 = { eg with ipPages := ips } := by
  induction count generalizing eg pageno with
  | zero => exact ⟨eg.ipPages, rfl⟩
  | succ count ih =>
    obtain ⟨ips, hips⟩ := ih (egInitInvrsptrPage eg pageno) (u32 (pageno + 1))
    exact ⟨ips, hips⟩

lemma initBitmapPages_frame (eg : ExtentGroup) (count pageno start : ℕ) :
    ∃ maps, (initBitmapPages eg count pageno start).1 = { eg with mapPages := maps } := by
  induction count generalizing eg pageno start with
  | zero => exact ⟨eg.mapPages, rfl⟩
  | succ count ih =>
    obtain ⟨maps, hmaps⟩ := ih (egInitBitmapPage eg pageno start) (u32 (pageno + 1))
      (u32 (start + DF_MAP_BIT_CNT * eg.extentSize))
    exact ⟨maps, hmaps⟩

lemma egAddMapGroup_count {start : ℕ}
    (hrun : egAddMapGroup eg start eg.mapHead.groupCount = some (eg', log)) :
    eg'.mapHead.groupCount = eg.mapHead.groupCount + 1 ∧ eg'.extentSize = eg.extentSize := by
  unfold egAddMapGroup at hrun
  rw [if_neg (lt_irrefl _)] at hrun
  split at hrun
  swap
  · cases hrun
  dsimp only at hrun
  obtain ⟨maps, hmaps⟩ := initBitmapPages_frame eg DF_MAP_GROUP_SIZE start
    (u32 (start + DF_MAP_GROUP_SIZE + IPBLOCK_GROUP_SIZE))
  rw [hmaps] at hrun
  obtain ⟨ips, hips⟩ := initInvrsptrPages_spec { eg with mapPages := maps } IPBLOCK_GROUP_SIZE
    (u32 (start + DF_MAP_GROUP_SIZE))
  rw [hips] at hrun
  cases hrun
  exact ⟨rfl, rfl⟩

/-- The state after a group was added at its place in exact arithmetic. -/
lemma egAddMapGroup_spec (hstart : dataStart eg.extentSize eg.mapHead.groupCount ≤ 2 ^ 32)
    (hrun : egAddMapGroup eg (groupStart eg.extentSize eg.mapHead.groupCount) eg.mapHead.groupCount
      = some (eg', log)) :
    eg.mapHead.groupCount < DF_MAX_MAP_GROUP_CNT ∧ eg'.extentSize = eg.extentSize ∧
    eg'.totalBlocks = eg.totalBlocks ∧
    eg'.mapHead = eg.mapHead.addGroup (groupStart eg.extentSize eg.mapHead.groupCount) DF_MAP_GROUP_SIZE ∧
    (∀ m < DF_MAP_GROUP_SIZE, eg'.page eg.mapHead.groupCount m = egInitBitmapPageContent
      (u32 (dataStart eg.extentSize eg.mapHead.groupCount + m * DF_MAP_BIT_CNT * eg.extentSize))) ∧
    ∀ n < eg.mapHead.groupCount, ∀ m < DF_MAP_GROUP_SIZE, eg'.page n m = eg.page n m := by
  unfold egAddMapGroup at hrun
  rw [if_neg (lt_irrefl _)] at hrun
  split at hrun
  swap
  · cases hrun
  rename_i hcount
  dsimp only at hrun
  have hlt : groupStart eg.extentSize eg.mapHead.groupCount + DF_MAP_GROUP_SIZE < 2 ^ 32 := by
    simp only [dataStart, DF_MAP_GROUP_SIZE, IPBLOCK_GROUP_SIZE] at *
    omega
  have hmaps := initBitmapPages_spec eg DF_MAP_GROUP_SIZE (groupStart eg.extentSize eg.mapHead.groupCount)
    (u32 (dataStart eg.extentSize eg.mapHead.groupCount)) hlt (Nat.mod_lt _ (by decide))
  rw [dataStart] at hmaps
  rw [hmaps] at hrun
  obtain ⟨ips, hips⟩ := initInvrsptrPages_spec _ IPBLOCK_GROUP_SIZE
    (u32 (groupStart eg.extentSize eg.mapHead.groupCount + DF_MAP_GROUP_SIZE))
  rw [hips] at hrun
  cases hrun
  refine ⟨hcount.2, rfl, rfl, rfl, ?_, ?_⟩
  · intro m hm
    unfold ExtentGroup.page
    dsimp only
    rw [if_pos (by omega), Nat.add_sub_cancel_left, u32_add_left, dataStart]
  · intro n hn m hm
    have hmono : groupStart eg.extentSize (n + 1) ≤ groupStart eg.extentSize eg.mapHead.groupCount :=
      groupStart_mono _ hn
    have hnext := dataStart_lt_next eg.extentSize n
    unfold ExtentGroup.page
    dsimp only
    rw [if_neg]
    simp only [dataStart, DF_MAP_GROUP_SIZE] at hnext hm
    omega

lemma addGroup_groups_self (head : MapHead) (firstMap size : ℕ) :
    (head.addGroup firstMap size).groups head.groupCount = ⟨firstMap, 0, size⟩ :=
  Function.update_self _ _ _

lemma addGroup_groups_of_lt (head : MapHead) (firstMap size : ℕ) {n : ℕ} (hn : n < head.groupCount) :
    (head.addGroup firstMap size).groups n = head.groups n :=
  Function.update_of_ne hn.ne _ _

/-- A statement about the groups with one more, from one about the new group and one about the old. -/
lemma forall_lt_succ {P : ℕ → Prop} {c : ℕ} (hold : ∀ n < c, P n) (hnew : P c) : ∀ n < c + 1, P n := by
  intro n hn
  rcases Nat.lt_succ_iff_lt_or_eq.mp hn with hlt | rfl
  · exact hold n hlt
  · exact hnew

section

variable {start : ℕ} (h : EgInv eg live) (hstart : egNextGroupStart eg.mapHead = some start)
include h hstart

lemma EgInv.nextGroupStart_eq : start = u32 (groupStart eg.extentSize eg.mapHead.groupCount) := by
  have hpos := h.countPos
  obtain ⟨k, hk⟩ : ∃ k, eg.mapHead.groupCount = k + 1 := ⟨eg.mapHead.groupCount - 1, by omega⟩
  have hkc : k < eg.mapHead.groupCount := by omega
  unfold egNextGroupStart at hstart
  rw [if_pos hpos] at hstart
  dsimp only at hstart
  rw [hk, Nat.add_sub_cancel, h.firstMap k hkc, h.pageCount k hkc, h.unit] at hstart
  rw [hk, groupStart_succ, dataStart, ← Option.some_inj.mp hstart]

lemma EgInv.nextGroupStart (hlt : groupStart eg.extentSize eg.mapHead.groupCount < 2 ^ 32) :
    start = groupStart eg.extentSize eg.mapHead.groupCount :=
  (h.nextGroupStart_eq hstart).trans (u32_of_lt hlt)

lemma EgInv.addGroup (hrun : egAddMapGroup eg start eg.mapHead.groupCount = some (eg', log))
    (hfits : eg'.Fits) : EgInv eg' live := by
  -- the group count of the result is needed first: the premise is about it
  obtain ⟨hcount, hsize⟩ := egAddMapGroup_count hrun
  have hdata : dataStart eg.extentSize eg.mapHead.groupCount ≤ 2 ^ 32 := by
    have := (hfits eg.mapHead.groupCount (by omega)).1
    rwa [hsize] at this
  have hlt : groupStart eg.extentSize eg.mapHead.groupCount < 2 ^ 32 := by
    simp only [dataStart, DF_MAP_GROUP_SIZE] at hdata
    omega
  obtain rfl := h.nextGroupStart hstart hlt
  obtain ⟨hmax, _, htotal, hhead, hnew, hold⟩ := egAddMapGroup_spec hdata hrun
  have hgnew := addGroup_groups_self eg.mapHead (groupStart eg.extentSize eg.mapHead.groupCount)
    DF_MAP_GROUP_SIZE
  have hgold : ∀ n < eg.mapHead.groupCount, eg'.mapHead.groups n = eg.mapHead.groups n := by
    intro n hn
    rw [hhead]
    exact addGroup_groups_of_lt _ _ _ hn
  rw [← hhead] at hgnew
  have hbits : ∀ m < DF_MAP_GROUP_SIZE, (eg'.page eg.mapHead.groupCount m).bitmap = ∅ := by
    intro m hm
    rw [hnew m hm]
    rfl
  refine ⟨hsize ▸ h.size, ?_, by omega, by omega, ?_, ?_, ?_, ?_, ?_, ?_, ?_, ?_, ?_, ?_, ?_, hfits, ?_, ?_⟩
  · rw [hhead, hsize]
    exact h.unit
  · rw [hcount, hsize]
    refine forall_lt_succ ?_ (by rw [hgnew])
    intro n hn
    rw [hgold n hn, h.firstMap n hn]
  · rw [hcount]
    refine forall_lt_succ ?_ (by rw [hgnew])
    intro n hn
    rw [hgold n hn, h.pageCount n hn]
  · rw [hcount]
    refine forall_lt_succ ?_ ?_
    · intro n hn
      rw [hgold n hn]
      exact h.freePage n hn
    · rw [hgnew]
      exact Nat.succ_pos 63
  · rw [hcount]
    refine forall_lt_succ ?_ ?_
    · intro n hn m hm
      rw [hold n hn m hm]
      exact h.pageOk n hn m hm
    · intro m hm
      rw [hnew m hm]
      exact MapPage.Ok.init _
  · rw [hcount, hsize]
    refine forall_lt_succ ?_ ?_
    · intro n hn m hm
      rw [hold n hn m hm]
      exact h.firstPage n hn m hm
    · intro m hm
      rw [hnew m hm]
      rfl
  · rw [hcount, hhead]
    exact Nat.lt_succ_of_lt h.freeGroup
  · rw [hcount]
    refine forall_lt_succ ?_ ?_
    · intro n hn m hm hor
      rw [hgold n hn, hhead] at hor
      rw [hold n hn m hm]
      exact h.hint n hn m hm hor
    · intro m hm hor
      rw [hgnew, hhead] at hor
      rcases hor with hlt' | hlt'
      · exact absurd h.freeGroup (not_lt.mpr hlt'.le)
      · exact absurd hlt' (Nat.not_lt_zero _)
  · -- the new pages have no bit set
    have hsum : eg'.setBits = eg.setBits := by
      unfold ExtentGroup.setBits
      rw [hcount, Finset.sum_product, Finset.sum_product, Finset.sum_range_succ]
      have hzero : ∑ m ∈ Finset.range DF_MAP_GROUP_SIZE,
          (eg'.page eg.mapHead.groupCount m).bitmap.card = 0 := by
        refine Finset.sum_eq_zero fun m hm => ?_
        rw [hbits m (Finset.mem_range.mp hm), Finset.card_empty]
      rw [hzero, Nat.add_zero]
      refine Finset.sum_congr rfl fun n hn => Finset.sum_congr rfl fun m hm => ?_
      rw [hold n (Finset.mem_range.mp hn) m (Finset.mem_range.mp hm)]
    rw [hsum, hhead]
    exact h.allocated
  · intro block
    rw [h.liveBits, hcount, hsize]
    constructor
    · rintro ⟨n, hn, m, hm, b, hb, rfl⟩
      exact ⟨n, Nat.lt_succ_of_lt hn, m, hm, b, by rwa [hold n hn m hm], rfl⟩
    · rintro ⟨n, hn, m, hm, b, hb, rfl⟩
      rcases Nat.lt_succ_iff_lt_or_eq.mp hn with hlt' | rfl
      · rw [hold n hlt' m hm] at hb
        exact ⟨n, hlt', m, hm, b, hb, rfl⟩
      · rw [hbits m hm] at hb
        exact absurd hb (Finset.notMem_empty b)
  · rw [htotal, hsize]
    exact h.inFile
  · rw [hhead, hsize]
    exact h.hwm
  · rw [htotal]
    exact h.step
  · rw [htotal]
    exact h.fileLt

end

lemma egFirstGroup_size (hrun : egFirstGroup (egInitDataFiles eg) = some (eg', log)) :
    eg'.extentSize = eg.extentSize := by
  have hzero : (egInitDataFiles eg).mapHead.groupCount = 0 := rfl
  rw [egFirstGroup, if_pos hzero] at hrun
  exact (egAddMapGroup_count hrun).2

/-- The first group of a new file. -/
lemma EgInv.create (hsize : IsExtentSize eg.extentSize)
    (hrun : egFirstGroup (egInitDataFiles eg) = some (eg', log)) : EgInv eg' ∅ := by
  have hzero : (egInitDataFiles eg).mapHead.groupCount = 0 := rfl
  rw [egFirstGroup, if_pos hzero, ← groupStart_zero eg.extentSize] at hrun
  have hdata : dataStart eg.extentSize 0 ≤ 2 ^ 32 := by
    rw [dataStart, groupStart_zero]
    decide
  obtain ⟨_, hext, htotal, hhead, hnew, _⟩ := egAddMapGroup_spec hdata hrun
  change eg'.extentSize = eg.extentSize at hext
  change ∀ m < DF_MAP_GROUP_SIZE, eg'.page 0 m = _ at hnew
  have hcount : eg'.mapHead.groupCount = 1 := by rw [hhead]; rfl
  have hgroup : eg'.mapHead.groups 0 = ⟨groupStart eg.extentSize 0, 0, DF_MAP_GROUP_SIZE⟩ := by
    rw [hhead]
    rfl
  have hbits : ∀ m < DF_MAP_GROUP_SIZE, (eg'.page 0 m).bitmap = ∅ := by
    intro m hm
    rw [hnew m hm]
    rfl
  have honly : ∀ {n}, n < eg'.mapHead.groupCount → n = 0 := by omega
  refine ⟨hext ▸ hsize, ?_, by omega, by rw [hcount]; decide, ?_, ?_, ?_, ?_, ?_, ?_, ?_, ?_, ?_, ?_, ?_,
    ?_, ?_, ?_⟩
  · rw [hhead, hext]
    change u16 eg.extentSize = eg.extentSize
    rcases hsize with heq | heq | heq | heq | heq <;> rw [heq] <;> rfl
  · intro n hn
    rw [honly hn, hgroup, hext]
  · intro n hn
    rw [honly hn, hgroup]
  · intro n hn
    rw [honly hn, hgroup]
    exact Nat.succ_pos 63
  · intro n hn m hm
    rw [honly hn, hnew m hm]
    exact MapPage.Ok.init _
  · intro n hn m hm
    rw [honly hn, hnew m hm, hext]
    rfl
  · rw [hcount, hhead]
    exact Nat.one_pos
  · intro n hn m hm hor
    rw [honly hn, hgroup, hhead] at hor
    rcases hor with hlt | hlt
    · exact absurd hlt (Nat.not_lt_zero _)
    · exact absurd hlt (Nat.not_lt_zero _)
  · unfold ExtentGroup.setBits
    rw [Finset.sum_eq_zero, hhead]
    · rfl
    · intro x hx
      obtain ⟨h1, h2⟩ := Finset.mem_product.mp hx
      rw [honly (Finset.mem_range.mp h1), hbits _ (Finset.mem_range.mp h2), Finset.card_empty]
  · intro block
    refine ⟨fun h => absurd h (Finset.notMem_empty _), ?_⟩
    rintro ⟨n, hn, m, hm, b, hb, _⟩
    rw [honly hn, hbits m hm] at hb
    exact absurd hb (Finset.notMem_empty b)
  · intro block hblock
    exact absurd hblock (Finset.notMem_empty _)
  · intro block hblock
    exact absurd hblock (Finset.notMem_empty _)
  · intro n hn
    rw [honly hn, hext]
    refine ⟨hdata, ?_⟩
    intro m hm b hb
    rw [hbits m hm] at hb
    exact absurd hb (Finset.notMem_empty b)
  · exact htotal ▸ Nat.mod_self DF_FILE_EXTEND_STEP_BLOCKS
  · have hfile : (egInitDataFiles eg).totalBlocks = DF_FILE_EXTEND_STEP_BLOCKS := rfl
    rw [htotal, hfile]
    decide

/-- The loop ends no shorter than it began, at a multiple of the step. -/
lemma dfExtendLoop_spec (fuel target : ℕ) {total : ℕ} (hstep : total % DF_FILE_EXTEND_STEP_BLOCKS = 0)
    (hlt : total < 2 ^ 32) (ht : target % DF_FILE_EXTEND_STEP_BLOCKS = 0) (htlt : target < 2 ^ 32) :
    total ≤ dfExtendLoop fuel total target ∧
    dfExtendLoop fuel total target % DF_FILE_EXTEND_STEP_BLOCKS = 0 ∧
    dfExtendLoop fuel total target < 2 ^ 32 := by
  induction fuel generalizing total with
  | zero => exact ⟨le_refl _, hstep, hlt⟩
  | succ fuel ih =>
    rw [dfExtendLoop]
    split
    case isTrue hmore =>
      simp only [DF_FILE_EXTEND_STEP_BLOCKS] at *
      have hnext : u32 (total + 16384) = total + 16384 := u32_of_lt (by omega)
      rw [hnext]
      obtain ⟨h1, h2, h3⟩ := @ih (total + 16384) (by omega) (by omega)
      exact ⟨by omega, h2, h3⟩
    case isFalse => exact ⟨le_refl _, hstep, hlt⟩

lemma EgInv.extendDf (h : EgInv eg live) {target : ℕ} (hrun : egExtendDf eg target = some eg') :
    EgInv eg' live ∧ eg'.extentSize = eg.extentSize := by
  obtain ⟨total, htotal, hres⟩ := Option.bind_eq_some_iff.mp hrun
  cases hres
  unfold dfExtend at htotal
  split at htotal
  · cases htotal
  dsimp only at htotal
  generalize ht : u32 ((target + DF_FILE_EXTEND_STEP_BLOCKS - 1) / DF_FILE_EXTEND_STEP_BLOCKS
    * DF_FILE_EXTEND_STEP_BLOCKS) = t at htotal
  have hmul : t % DF_FILE_EXTEND_STEP_BLOCKS = 0 := by
    rw [← ht, u32]
    simp only [DF_FILE_EXTEND_STEP_BLOCKS]
    omega
  have htlt : t < 2 ^ 32 := ht ▸ Nat.mod_lt _ (by decide)
  obtain ⟨hle, hstep, hlt⟩ := dfExtendLoop_spec t t h.step h.fileLt hmul htlt
  rw [Option.some_inj.mp htotal] at hle hstep hlt
  refine ⟨?_, rfl⟩
  exact ⟨h.size, h.unit, h.countPos, h.countLe, h.firstMap, h.pageCount, h.freePage, h.pageOk, h.firstPage,
    h.freeGroup, h.hint, h.allocated, h.liveBits, fun block hblock => (h.inFile block hblock).trans hle,
    h.hwm, h.fits, hstep, hlt⟩

/-- The inverse pointers play no part in the invariant. -/
lemma EgInv.withIpPages (h : EgInv eg live) (ips : ℕ → ℕ → ExtentInversePointer) :
    EgInv { eg with ipPages := ips } live :=
  ⟨h.size, h.unit, h.countPos, h.countLe, h.firstMap, h.pageCount, h.freePage, h.pageOk, h.firstPage,
    h.freeGroup, h.hint, h.allocated, h.liveBits, h.inFile, h.hwm, h.fits, h.step, h.fileLt⟩

end Grow

end GaussKernel.Segment
