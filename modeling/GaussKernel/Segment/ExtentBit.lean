import GaussKernel.Segment.ExtentLayout

/-!
# Changing one bit of an extent group

An allocation and a free change one bit of one map page and keep the invariant. A freed extent has to be found again:
`eg_locate_map_by_pageid` computes the end of a map group in 32 bits, and an extent behind the wrapped end is taken for
the first extent of the last group.
-/

namespace GaussKernel.Segment

/-! ## Changing one bit -/

section OneBit

variable {eg : ExtentGroup} {live : Finset ℕ} {head : MapHead} {p : MapPage} {n m : ℕ}

/-- The group with a new map head and a new content of one map page. -/
def ExtentGroup.withPage (eg : ExtentGroup) (head : MapHead) (n m : ℕ) (p : MapPage) : ExtentGroup :=
  { eg with mapHead := head, mapPages := Function.update eg.mapPages (groupStart eg.extentSize n + m) p }

lemma page_withPage_self : (eg.withPage head n m p).page n m = p := Function.update_self _ _ _

lemma page_withPage_of_ne (hm : m < DF_MAP_GROUP_SIZE) {n' m' : ℕ} (hm' : m' < DF_MAP_GROUP_SIZE)
    (hne : ¬ (n' = n ∧ m' = m)) : (eg.withPage head n m p).page n' m' = eg.page n' m' :=
  Function.update_of_ne (fun heq => hne (mapBlock_inj hm' hm heq)) _ _

/-- A statement about all pages, from one about the changed page and one about the others. -/
lemma forall_page_withPage {P : ℕ → ℕ → MapPage → Prop} {c : ℕ} (hm : m < DF_MAP_GROUP_SIZE)
    (hold : ∀ n' < c, ∀ m' < DF_MAP_GROUP_SIZE, ¬ (n' = n ∧ m' = m) → P n' m' (eg.page n' m'))
    (hnew : P n m p) :
    ∀ n' < c, ∀ m' < DF_MAP_GROUP_SIZE, P n' m' ((eg.withPage head n m p).page n' m') := by
  intro n' hn' m' hm'
  by_cases h : n' = n ∧ m' = m
  · rw [h.1, h.2, page_withPage_self]
    exact hnew
  · rw [page_withPage_of_ne hm hm' h]
    exact hold n' hn' m' hm' h

lemma setBits_withPage (hc : head.groupCount = eg.mapHead.groupCount) (hn : n < eg.mapHead.groupCount)
    (hm : m < DF_MAP_GROUP_SIZE) :
    (eg.withPage head n m p).setBits + (eg.page n m).bitmap.card = eg.setBits + p.bitmap.card := by
  unfold ExtentGroup.setBits
  have hmem : (n, m) ∈ Finset.range eg.mapHead.groupCount ×ˢ Finset.range DF_MAP_GROUP_SIZE :=
    Finset.mem_product.mpr ⟨Finset.mem_range.mpr hn, Finset.mem_range.mpr hm⟩
  have hsum := sum_change (f := fun x => (eg.page x.1 x.2).bitmap.card)
    (g := fun x => ((eg.withPage head n m p).page x.1 x.2).bitmap.card) hmem (by
      intro x hx hne
      have hx2 := Finset.mem_range.mp (Finset.mem_product.mp hx).2
      rw [page_withPage_of_ne hm hx2]
      rintro ⟨h1, h2⟩
      exact hne (Prod.ext h1 h2))
  have hcount : (eg.withPage head n m p).mapHead.groupCount = eg.mapHead.groupCount := hc
  rw [hcount]
  simp only [page_withPage_self] at hsum
  exact hsum

/-- What a change of the map head has to keep for a change of one page. -/
structure HeadStep (head head' : MapHead) : Prop where
  bitUnit : head'.bitUnit = head.bitUnit
  groupCount : head'.groupCount = head.groupCount
  firstMap : ∀ i, (head'.groups i).firstMap = (head.groups i).firstMap
  pageCount : ∀ i, (head'.groups i).pageCount = (head.groups i).pageCount

/-- Writing one `free_page` changes nothing else of the groups. -/
lemma update_freePage (groups : ℕ → MapGroup) (g j i : ℕ) :
    Function.update groups g { groups g with freePage := j } i
      = { groups i with freePage := if i = g then j else (groups i).freePage } := by
  rcases eq_or_ne i g with rfl | hi
  · rw [Function.update_self, if_pos rfl]
  · rw [Function.update_of_ne hi, if_neg hi]

lemma allocate_groups (head : MapHead) (g j hwm i : ℕ) : (head.allocate g j hwm).groups i
    = { head.groups i with freePage := if i = g then j else (head.groups i).freePage } :=
  update_freePage head.groups g j i

lemma free_groups (head : MapHead) (g j i : ℕ) : (head.free g j).groups i
    = { head.groups i with
        freePage := if i = g ∧ j < (head.groups g).freePage then j else (head.groups i).freePage } := by
  unfold MapHead.free
  by_cases hj : j < (head.groups g).freePage
  · simp only [hj, if_true, and_true]
    exact update_freePage head.groups g j i
  · simp only [hj, and_false, if_false]

lemma headStep_allocate (head : MapHead) (g j hwm : ℕ) : HeadStep head (head.allocate g j hwm) where
  bitUnit := rfl
  groupCount := rfl
  firstMap i := by rw [allocate_groups]
  pageCount i := by rw [allocate_groups]

lemma headStep_free (head : MapHead) (g j : ℕ) : HeadStep head (head.free g j) where
  bitUnit := rfl
  groupCount := rfl
  firstMap i := by rw [free_groups]
  pageCount i := by rw [free_groups]

/-- The invariant after one page and the map head changed: what is left to show is about the changed page,
the hints, the count and the live extents. -/
lemma EgInv.withPage (h : EgInv eg live) (hstep : HeadStep eg.mapHead head)
    (hn : n < eg.mapHead.groupCount) (hm : m < DF_MAP_GROUP_SIZE) (hp : p.Ok)
    (hfirst : p.firstPage = (eg.page n m).firstPage) (hfg : head.freeGroup < eg.mapHead.groupCount)
    (hfp : ∀ i < eg.mapHead.groupCount, (head.groups i).freePage < DF_MAP_GROUP_SIZE)
    (hhint : ∀ n' < eg.mapHead.groupCount, ∀ m' < DF_MAP_GROUP_SIZE,
      n' < head.freeGroup ∨ m' < (head.groups n').freePage →
        if n' = n ∧ m' = m then p.Full else (eg.page n' m').Full)
    (hcount : head.allocatedExtents = (eg.withPage head n m p).setBits) {live' : Finset ℕ}
    (hlive : ∀ block, block ∈ live' ↔ ∃ n' < eg.mapHead.groupCount, ∃ m' < DF_MAP_GROUP_SIZE,
      ∃ b ∈ ((eg.withPage head n m p).page n' m').bitmap, block = extentBlock eg.extentSize n' m' b)
    (hfile : ∀ block ∈ live', block + eg.extentSize ≤ eg.totalBlocks)
    (hhwm : ∀ block ∈ live', block + eg.extentSize ≤ head.highWaterMark)
    (hfits : (eg.withPage head n m p).Fits) : EgInv (eg.withPage head n m p) live' where
  size := h.size
  unit := hstep.bitUnit.trans h.unit
  countPos := hstep.groupCount ▸ h.countPos
  countLe := hstep.groupCount ▸ h.countLe
  firstMap := by
    intro i hi
    have hi' : i < eg.mapHead.groupCount := hstep.groupCount ▸ hi
    exact (hstep.firstMap i).trans (h.firstMap i hi')
  pageCount := by
    intro i hi
    have hi' : i < eg.mapHead.groupCount := hstep.groupCount ▸ hi
    exact (hstep.pageCount i).trans (h.pageCount i hi')
  freePage := by
    intro i hi
    exact hfp i (hstep.groupCount ▸ hi)
  pageOk := by
    intro n' hn'
    exact forall_page_withPage (P := fun _ _ q => q.Ok) hm (fun i hi j hj _ => h.pageOk i hi j hj) hp n'
      (hstep.groupCount ▸ hn')
  firstPage := by
    intro n' hn'
    exact forall_page_withPage
      (P := fun i j q => q.firstPage = u32 (dataStart eg.extentSize i + j * DF_MAP_BIT_CNT * eg.extentSize))
      hm (fun i hi j hj _ => h.firstPage i hi j hj) (hfirst.trans (h.firstPage n hn m hm)) n'
      (hstep.groupCount ▸ hn')
  freeGroup := by
    have : head.freeGroup < head.groupCount := hstep.groupCount ▸ hfg
    exact this
  hint := by
    intro n' hn' m' hm' hor
    have hn'' : n' < eg.mapHead.groupCount := hstep.groupCount ▸ hn'
    have hfull := hhint n' hn'' m' hm' hor
    by_cases heq : n' = n ∧ m' = m
    · rw [heq.1, heq.2, page_withPage_self]
      rwa [if_pos heq] at hfull
    · rw [page_withPage_of_ne hm hm' heq]
      rwa [if_neg heq] at hfull
  allocated := hcount
  liveBits := by
    intro block
    have hc : (eg.withPage head n m p).mapHead.groupCount = eg.mapHead.groupCount := hstep.groupCount
    rw [hc]
    exact hlive block
  inFile := hfile
  hwm := hhwm
  fits := hfits
  step := h.step
  fileLt := h.fileLt

variable {b block : ℕ} {eg' : ExtentGroup} {log : List EgRecord}

/-- The blocks of the bits after one bit was set. -/
lemma EgInv.liveBits_insert (h : EgInv eg live) (hn : n < eg.mapHead.groupCount) (hm : m < DF_MAP_GROUP_SIZE)
    (hp : p.bitmap = insert b (eg.page n m).bitmap) (block : ℕ) :
    block ∈ insert (extentBlock eg.extentSize n m b) live ↔
      ∃ n' < eg.mapHead.groupCount, ∃ m' < DF_MAP_GROUP_SIZE,
        ∃ b' ∈ ((eg.withPage head n m p).page n' m').bitmap,
          block = extentBlock eg.extentSize n' m' b' := by
  rw [Finset.mem_insert, h.liveBits]
  constructor
  · rintro (rfl | ⟨n', hn', m', hm', b', hb', rfl⟩)
    · refine ⟨n, hn, m, hm, b, ?_, rfl⟩
      rw [page_withPage_self, hp]
      exact Finset.mem_insert_self _ _
    · refine ⟨n', hn', m', hm', b', ?_, rfl⟩
      by_cases heq : n' = n ∧ m' = m
      · rw [heq.1, heq.2, page_withPage_self, hp]
        rw [heq.1, heq.2] at hb'
        exact Finset.mem_insert_of_mem hb'
      · rwa [page_withPage_of_ne hm hm' heq]
  · rintro ⟨n', hn', m', hm', b', hb', rfl⟩
    by_cases heq : n' = n ∧ m' = m
    · rw [heq.1, heq.2, page_withPage_self, hp] at hb'
      rcases Finset.mem_insert.mp hb' with rfl | hb'
      · left
        rw [heq.1, heq.2]
      · right
        exact ⟨n, hn, m, hm, b', hb', by rw [heq.1, heq.2]⟩
    · rw [page_withPage_of_ne hm hm' heq] at hb'
      exact .inr ⟨n', hn', m', hm', b', hb', rfl⟩

/-- The blocks of the bits after one bit was cleared. -/
lemma EgInv.liveBits_erase (h : EgInv eg live) (hn : n < eg.mapHead.groupCount) (hm : m < DF_MAP_GROUP_SIZE)
    (hb : b ∈ (eg.page n m).bitmap) (hp : p.bitmap = (eg.page n m).bitmap.erase b) (block : ℕ) :
    block ∈ live.erase (extentBlock eg.extentSize n m b) ↔
      ∃ n' < eg.mapHead.groupCount, ∃ m' < DF_MAP_GROUP_SIZE,
        ∃ b' ∈ ((eg.withPage head n m p).page n' m').bitmap,
          block = extentBlock eg.extentSize n' m' b' := by
  have hbit := (h.pageOk n hn m hm).bits b hb
  rw [Finset.mem_erase, h.liveBits]
  constructor
  · rintro ⟨hne, n', hn', m', hm', b', hb', rfl⟩
    refine ⟨n', hn', m', hm', b', ?_, rfl⟩
    by_cases heq : n' = n ∧ m' = m
    · rw [heq.1, heq.2] at hb' hne ⊢
      rw [page_withPage_self, hp]
      refine Finset.mem_erase.mpr ⟨?_, hb'⟩
      rintro rfl
      exact hne rfl
    · rwa [page_withPage_of_ne hm hm' heq]
  · rintro ⟨n', hn', m', hm', b', hb', rfl⟩
    by_cases heq : n' = n ∧ m' = m
    · rw [heq.1, heq.2, page_withPage_self, hp] at hb'
      obtain ⟨hne, hb'⟩ := Finset.mem_erase.mp hb'
      refine ⟨?_, n, hn, m, hm, b', hb', by rw [heq.1, heq.2]⟩
      intro hblock
      rw [heq.1, heq.2] at hblock
      exact hne (extentBlock_inj h.size.pos hm ((h.pageOk n hn m hm).bits b' hb') hm hbit hblock).2.2
    · rw [page_withPage_of_ne hm hm' heq] at hb'
      refine ⟨?_, n', hn', m', hm', b', hb', rfl⟩
      intro hblock
      have hb'' := (h.pageOk n' hn' m' hm').bits b' hb'
      obtain ⟨h1, h2, _⟩ := extentBlock_inj h.size.pos hm' hb'' hm hbit hblock
      exact heq ⟨h1, h2⟩

lemma MapPage.Full.insert {q : MapPage} {b : ℕ} (h : q.Full) (hp : p.bitmap = insert b q.bitmap) :
    p.Full := by
  intro x hx
  rw [hp]
  exact Finset.mem_insert_of_mem (h x hx)

lemma le_tryUpdateHwm (a b : ℕ) : a ≤ tryUpdateHwm a b ∧ b ≤ tryUpdateHwm a b := by
  unfold tryUpdateHwm
  split <;> omega

/-- An allocation that returns an extent has set the bit and updated the map head. -/
lemma egAllocExtentFromMapInternal_allocated {eg : ExtentGroup} {mapBlock g j : ℕ}
    (h : egAllocExtentFromMapInternal eg mapBlock b g j = some (.allocated block eg' log)) :
    ∃ q, egSetBitmapPage (eg.mapPages mapBlock) b = some q ∧
      block = u32 ((eg.mapPages mapBlock).firstPage + b * eg.mapHead.bitUnit) ∧
      u32 (block + eg.extentSize) ≤ eg.totalBlocks ∧
      eg' = { eg with
        mapHead := eg.mapHead.allocate g j (u32 (block + eg.extentSize))
        mapPages := Function.update eg.mapPages mapBlock q } ∧
      log = [.setBitmap mapBlock b q.toDfMapPage, .mapheadAllocatedExtents
        ⟨eg'.mapHead.highWaterMark, eg'.mapHead.allocatedExtents, g, j⟩] := by
  unfold egAllocExtentFromMapInternal at h
  dsimp only at h
  split at h
  · cases h
  · rename_i hroom
    obtain ⟨q, hq, hres⟩ := Option.bind_eq_some_iff.mp h
    cases hres
    exact ⟨q, hq, rfl, not_lt.mp hroom, rfl, rfl⟩

lemma egAllocExtentFromMapInternal_inv {g j : ℕ}
    (h : egAllocExtentFromMapInternal eg (groupStart eg.extentSize n + m) b g j = some (.allocated block eg' log)) :
    ∃ q, egSetBitmapPage (eg.page n m) b = some q ∧
      block = u32 ((eg.page n m).firstPage + b * eg.mapHead.bitUnit) ∧
      u32 (block + eg.extentSize) ≤ eg.totalBlocks ∧
      eg' = eg.withPage (eg.mapHead.allocate g j (u32 (block + eg.extentSize))) n m q := by
  obtain ⟨q, hq, hblock, hroom, heg', _⟩ := egAllocExtentFromMapInternal_allocated h
  exact ⟨q, hq, hblock, hroom, heg'⟩

/-- Setting a free bit, with hints that point past full pages only: the extent of the bit is handed out,
and the invariant holds again. -/
lemma EgInv.alloc (h : EgInv eg live) (hn : n < eg.mapHead.groupCount) (hm : m < DF_MAP_GROUP_SIZE)
    (hb : b < DF_MAP_BIT_CNT) (hfree : b ∉ (eg.page n m).bitmap) {g j : ℕ} (hg : g < eg.mapHead.groupCount)
    (hj : j < DF_MAP_GROUP_SIZE)
    (hhint : ∀ n' < eg.mapHead.groupCount, ∀ m' < DF_MAP_GROUP_SIZE, n' < g ∨
      m' < (if n' = g then j else (eg.mapHead.groups n').freePage) → (eg.page n' m').Full)
    (hrun : egAllocExtentFromMapInternal eg (groupStart eg.extentSize n + m) b g j = some (.allocated block eg' log))
    (hfits : eg'.Fits) :
    block = extentBlock eg.extentSize n m b ∧ block ∉ live ∧ EgInv eg' (insert block live) ∧
      eg'.extentSize = eg.extentSize := by
  obtain ⟨q, hset, hblock, hroom, rfl⟩ := egAllocExtentFromMapInternal_inv hrun
  obtain ⟨p, hset', hp, hpbits, hpfirst⟩ := egSetBitmapPage_spec (h.pageOk n hn m hm) hfree hb
  obtain rfl : p = q := Option.some_inj.mp (hset'.symm.trans hset)
  -- the new bit is in the new state, so its block fits, and the 32-bit sums are exact
  have hfit : extentBlock eg.extentSize n m b + eg.extentSize ≤ 2 ^ 32 := by
    refine (hfits n hn).2 m hm b ?_
    rw [page_withPage_self, hpbits]
    exact Finset.mem_insert_self b _
  obtain ⟨hpn, hend⟩ := h.pagenum hn hm hb hfit
  obtain rfl : block = extentBlock eg.extentSize n m b := hblock.trans hpn
  rw [hend] at hroom hfits ⊢
  refine ⟨rfl, ?_, ?_, rfl⟩
  · rw [h.liveBits]
    rintro ⟨n', hn', m', hm', b', hb', heq⟩
    obtain ⟨rfl, rfl, rfl⟩ :=
      extentBlock_inj h.size.pos hm hb hm' ((h.pageOk n' hn' m' hm').bits b' hb') heq
    exact hfree hb'
  · have hcard : p.bitmap.card = (eg.page n m).bitmap.card + 1 := by
      rw [hpbits, Finset.card_insert_of_notMem hfree]
    obtain ⟨hhwm1, hhwm2⟩ := le_tryUpdateHwm eg.mapHead.highWaterMark
      (extentBlock eg.extentSize n m b + eg.extentSize)
    refine h.withPage (headStep_allocate _ _ _ _) hn hm hp hpfirst hg ?_ ?_ ?_
      (h.liveBits_insert hn hm hpbits) ?_ ?_ hfits
    · intro i hi
      rw [allocate_groups]
      dsimp only
      split
      · exact hj
      · exact h.freePage i hi
    · intro n' hn' m' hm' hor
      rw [allocate_groups] at hor
      have hfull := hhint n' hn' m' hm' hor
      split
      case isTrue heq =>
        rw [heq.1, heq.2] at hfull
        exact hfull.insert hpbits
      case isFalse => exact hfull
    · have hsum : (eg.withPage (eg.mapHead.allocate g j
          (extentBlock eg.extentSize n m b + eg.extentSize)) n m p).setBits + _ = _ :=
        setBits_withPage rfl hn hm
      have hlt := h.setBits_lt
      have hal := h.allocated
      change u32 (eg.mapHead.allocatedExtents + 1) = _
      rw [u32_of_lt (by omega)]
      omega
    · intro block hblock
      rcases Finset.mem_insert.mp hblock with rfl | hblock
      · exact hroom
      · exact h.inFile block hblock
    · intro block hblock
      rcases Finset.mem_insert.mp hblock with rfl | hblock
      · exact hhwm2
      · exact (h.hwm block hblock).trans hhwm1

/-- The invariant after the bit of a live extent was cleared. -/
lemma EgInv.free (h : EgInv eg live) (hn : n < eg.mapHead.groupCount) (hm : m < DF_MAP_GROUP_SIZE)
    (hb : b ∈ (eg.page n m).bitmap) (hset : egUnsetBitmapPage (eg.page n m) b = some p) :
    EgInv (eg.withPage (eg.mapHead.free n m) n m p) (live.erase (extentBlock eg.extentSize n m b)) := by
  obtain ⟨q, hset', hp, hpbits, hpfirst⟩ := egUnsetBitmapPage_spec (h.pageOk n hn m hm) hb
  obtain rfl : q = p := Option.some_inj.mp (hset'.symm.trans hset)
  have hfg : (eg.mapHead.free n m).freeGroup ≤ n ∧
      (eg.mapHead.free n m).freeGroup ≤ eg.mapHead.freeGroup := by
    unfold MapHead.free
    dsimp only
    split <;> omega
  have hfp : ∀ i, ((eg.mapHead.free n m).groups i).freePage ≤ (eg.mapHead.groups i).freePage ∧
      (i = n → ((eg.mapHead.free n m).groups i).freePage ≤ m) := by
    intro i
    rw [free_groups]
    dsimp only
    split
    case isTrue hi =>
      obtain ⟨rfl, hlt⟩ := hi
      exact ⟨hlt.le, fun _ => le_refl _⟩
    case isFalse hi =>
      refine ⟨le_refl _, ?_⟩
      rintro rfl
      exact not_lt.mp fun hlt => hi ⟨rfl, hlt⟩
  refine h.withPage (headStep_free _ _ _) hn hm hp hpfirst (hfg.2.trans_lt h.freeGroup) ?_ ?_ ?_
    (h.liveBits_erase hn hm hb hpbits) ?_ ?_ ?_
  · intro i hi
    exact (hfp i).1.trans_lt (h.freePage i hi)
  · intro n' hn' m' hm' hor
    have hold : n' < eg.mapHead.freeGroup ∨ m' < (eg.mapHead.groups n').freePage :=
      hor.imp (fun hlt => hlt.trans_le hfg.2) fun hlt => hlt.trans_le (hfp n').1
    split
    case isTrue heq =>
      -- the hints point at the freed page or in front of it
      obtain ⟨rfl, rfl⟩ := heq
      rcases hor with hlt | hlt
      · exact absurd hlt (not_lt.mpr hfg.1)
      · exact absurd hlt (not_lt.mpr ((hfp n').2 rfl))
    case isFalse => exact h.hint n' hn' m' hm' hold
  · have hsum : (eg.withPage (eg.mapHead.free n m) n m q).setBits + _ = _ := setBits_withPage rfl hn hm
    have hcard : q.bitmap.card + 1 = (eg.page n m).bitmap.card := by
      rw [hpbits]
      exact Finset.card_erase_add_one hb
    have hlt := h.setBits_lt
    have hal := h.allocated
    change u32 (eg.mapHead.allocatedExtents + 2 ^ 32 - 1) = _
    rw [u32]
    omega
  · intro block hblock
    exact h.inFile block (Finset.mem_of_mem_erase hblock)
  · intro block hblock
    exact h.hwm block (Finset.mem_of_mem_erase hblock)
  · intro n' hn'
    refine ⟨(h.fits n' hn').1, ?_⟩
    refine forall_page_withPage (P := fun i j q => ∀ b' ∈ q.bitmap,
      extentBlock eg.extentSize i j b' + eg.extentSize ≤ 2 ^ 32) (c := eg.mapHead.groupCount) hm ?_ ?_ n' hn'
    · intro i hi j hj _
      exact (h.fits i hi).2 j hj
    · intro b' hb'
      rw [hpbits] at hb'
      exact (h.fits n hn).2 m hm b' (Finset.mem_of_mem_erase hb')

end OneBit

/-! ## Finding an extent again -/

section Locate

variable {eg : ExtentGroup} {live : Finset ℕ}

/-- The range test of `eg_locate_map_by_pageid`. -/
def InGroup (ext pageId : ℕ) (group : MapGroup) : Prop :=
  groupPageStart group ≤ pageId ∧ pageId < groupPageEnd ext group

/-- Groups that fail the test leave their number and their entry behind. -/
lemma locateLoop_skip {ext pageId : ℕ} {head : MapHead} (c d i : ℕ) (r : SpaceMapLocation)
    (h : ∀ k < c, ¬ InGroup ext pageId (head.groups (i + k))) :
    ∃ r', locateLoop ext pageId head (c + d) i r = locateLoop ext pageId head d (i + c) r' ∧
      r'.mapId = r.mapId ∧ r'.bitId = r.bitId ∧
      (0 < c → r'.group = head.groups (i + c - 1) ∧ r'.mapGroup = i + c - 1) := by
  induction c generalizing i r with
  | zero => exact ⟨r, by simp, rfl, rfl, fun h => absurd h (by simp)⟩
  | succ c ih =>
    have h0 : ¬ InGroup ext pageId (head.groups i) := h 0 (by omega)
    have hstep : locateLoop ext pageId head (c + 1 + d) i r
        = locateLoop ext pageId head (c + d) (i + 1) { r with group := head.groups i, mapGroup := i } := by
      rw [show c + 1 + d = c + d + 1 by omega, locateLoop]
      exact if_neg h0
    obtain ⟨r', hrun, h1, h2, h3⟩ := ih (i + 1) { r with group := head.groups i, mapGroup := i } (by
      intro k hk
      have := h (k + 1) (by omega)
      rwa [show i + (k + 1) = i + 1 + k by omega] at this)
    rw [hstep]
    rcases Nat.eq_zero_or_pos c with rfl | hc
    · refine ⟨{ r with group := head.groups i, mapGroup := i }, by simp, rfl, rfl, fun _ => ?_⟩
      rw [show i + (0 + 1) - 1 = i by omega]
      exact ⟨rfl, rfl⟩
    · refine ⟨r', by rw [hrun, show i + 1 + c = i + (c + 1) by omega], h1, h2, fun _ => ?_⟩
      have := h3 hc
      rwa [show i + 1 + c - 1 = i + (c + 1) - 1 by omega] at this

/-- The blocks that are found again: those in front of the end of their group as computed in 32 bits, and
the first extent of a group. -/
def Locatable (ext n block : ℕ) : Prop :=
  block = dataStart ext n ∨ block < u32 (dataStart ext n + u32 (DF_MAP_GROUP_EXTENTS * ext))

instance (ext n block : ℕ) : Decidable (Locatable ext n block) := inferInstanceAs (Decidable (_ ∨ _))

section

variable {n : ℕ} (h : EgInv eg live) (hn : n < eg.mapHead.groupCount)
include h hn

lemma EgInv.groupStart_lt : groupStart eg.extentSize n + DF_MAP_GROUP_SIZE < 2 ^ 32 := by
  have := (h.fits n hn).1
  simp only [dataStart, DF_MAP_GROUP_SIZE, IPBLOCK_GROUP_SIZE] at *
  omega

lemma EgInv.groupPageStart_eq (hlt : dataStart eg.extentSize n < 2 ^ 32) :
    groupPageStart (eg.mapHead.groups n) = dataStart eg.extentSize n := by
  rw [groupPageStart, h.firstMap n hn]
  exact u32_of_lt hlt

/-- The groups in front of the one of an extent end in front of it, also in 32 bits. -/
lemma EgInv.not_inGroup_of_lt {i block : ℕ} (hi : i < n) (hblock : dataStart eg.extentSize n ≤ block) :
    ¬ InGroup eg.extentSize block (eg.mapHead.groups i) := by
  have hfit := h.groupStart_lt hn
  have hmono : groupStart eg.extentSize (i + 1) ≤ groupStart eg.extentSize n := groupStart_mono _ hi
  have hsucc := groupStart_succ eg.extentSize i
  have hstart : groupPageStart (eg.mapHead.groups i) = dataStart eg.extentSize i :=
    h.groupPageStart_eq (hi.trans hn) (by omega)
  rintro ⟨_, hlt⟩
  rw [groupPageEnd, hstart, u32_of_lt (x := DF_MAP_GROUP_EXTENTS * eg.extentSize) (by omega),
    ← hsucc, u32_of_lt (by omega)] at hlt
  unfold dataStart at hblock
  omega

end

lemma extent_index {ext n m b : ℕ} (hext : 0 < ext) (hb : b < DF_MAP_BIT_CNT) :
    (extentBlock ext n m b - dataStart ext n) / ext / DF_MAP_BIT_CNT = m ∧
    (extentBlock ext n m b - dataStart ext n) / ext % DF_MAP_BIT_CNT = b := by
  have hsub : extentBlock ext n m b - dataStart ext n = (m * DF_MAP_BIT_CNT + b) * ext :=
    Nat.add_sub_cancel_left _ _
  rw [hsub, Nat.mul_div_cancel _ hext]
  simp only [DF_MAP_BIT_CNT] at *
  constructor <;> omega

/-- A locatable extent is found where its bit is. -/
lemma EgInv.locate (h : EgInv eg live) {n m b : ℕ} (hn : n < eg.mapHead.groupCount)
    (hm : m < DF_MAP_GROUP_SIZE) (hb : b < DF_MAP_BIT_CNT)
    (hlt : extentBlock eg.extentSize n m b < 2 ^ 32)
    (hloc : Locatable eg.extentSize n (extentBlock eg.extentSize n m b)) :
    egLocateMapByPageid eg.extentSize (extentBlock eg.extentSize n m b) eg.mapHead
      = ⟨eg.mapHead.groups n, m, b, n⟩ := by
  have hle : dataStart eg.extentSize n ≤ extentBlock eg.extentSize n m b := dataStart_le_extentBlock
  have hstart := h.groupPageStart_eq hn (hle.trans_lt hlt)
  obtain ⟨hidx1, hidx2⟩ : _ ∧ _ := extent_index (n := n) (m := m) h.size.pos hb
  unfold egLocateMapByPageid
  obtain ⟨d, hd⟩ : ∃ d, eg.mapHead.groupCount = n + (d + 1) := ⟨eg.mapHead.groupCount - n - 1, by omega⟩
  obtain ⟨r, hrun, hr1, hr2, _⟩ := locateLoop_skip n (d + 1) 0 .zero (by
    intro k hk
    rw [Nat.zero_add]
    exact h.not_inGroup_of_lt hn hk hle)
  rw [hd, hrun, Nat.zero_add]
  by_cases hin : extentBlock eg.extentSize n m b < groupPageEnd eg.extentSize (eg.mapHead.groups n)
  · rw [locateLoop, if_pos ⟨hstart.trans_le hle, hin⟩, hstart, h.unit, hidx1, hidx2]
  · -- the 32-bit end is too low: the extent is the first one, and its group the last one
    have hfirst : extentBlock eg.extentSize n m b = dataStart eg.extentSize n := by
      refine hloc.resolve_right fun hlt' => hin ?_
      rw [groupPageEnd, hstart]
      exact hlt'
    have hlast : d = 0 := by
      by_contra hne
      have hfit := h.groupStart_lt (n := n + 1) (by omega)
      have hsucc := groupStart_succ eg.extentSize n
      have hpos := h.size.pos
      apply hin
      rw [groupPageEnd, hstart, u32_of_lt (x := DF_MAP_GROUP_EXTENTS * eg.extentSize) (by omega),
        u32_of_lt (by omega), hfirst]
      simp only [DF_MAP_GROUP_EXTENTS]
      omega
    have hzero : m = 0 ∧ b = 0 := by
      rw [hfirst, Nat.sub_self, Nat.zero_div, Nat.zero_div] at hidx1
      rw [hfirst, Nat.sub_self, Nat.zero_div, Nat.zero_mod] at hidx2
      exact ⟨hidx1.symm, hidx2.symm⟩
    obtain ⟨r', hrun', hr1', hr2', hr3'⟩ := @locateLoop_skip eg.extentSize
      (extentBlock eg.extentSize n m b) eg.mapHead 1 0 n r (by
        intro k hk
        obtain rfl : k = 0 := by omega
        exact fun hin' => hin hin'.2)
    rw [hlast, hrun', locateLoop]
    obtain ⟨hg, hmg⟩ := hr3' (by omega)
    rw [show n + 1 - 1 = n by omega] at hg hmg
    have e1 : r'.mapId = m := hr1'.trans (hr1.trans hzero.1.symm)
    have e2 : r'.bitId = b := hr2'.trans (hr2.trans hzero.2.symm)
    calc r' = ⟨r'.group, r'.mapId, r'.bitId, r'.mapGroup⟩ := rfl
      _ = ⟨eg.mapHead.groups n, m, b, n⟩ := by rw [hg, e1, e2, hmg]

end Locate

end GaussKernel.Segment
