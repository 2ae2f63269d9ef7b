import GaussKernel.Segment.ExtentGroup
import Mathlib.Algebra.Order.BigOperators.Ring.Finset
import Mathlib.Tactic.Linarith
import Mathlib.Tactic.Ring

/-!
# Layout and invariant of an extent group

Where the extents of the map groups lie, in exact arithmetic, what setting and clearing a bit does to a map page, and
the invariant of the allocator: the redundant hints of the map head and the map pages are right.
-/

namespace GaussKernel.Segment

/-! ## The layout in exact arithmetic -/

/-- The blocks of a map group. -/
def groupBlocks (ext : ℕ) : ℕ := DF_MAP_GROUP_SIZE + IPBLOCK_GROUP_SIZE + DF_MAP_GROUP_EXTENTS * ext

def groupStart (ext n : ℕ) : ℕ := DF_MAP_HEAD_PAGE + 1 + n * groupBlocks ext

/-- The first block of the extents of group `n`. -/
def dataStart (ext n : ℕ) : ℕ := groupStart ext n + DF_MAP_GROUP_SIZE + IPBLOCK_GROUP_SIZE

/-- The first block of the extent of bit `b` on map page `m` of group `n`. -/
def extentBlock (ext n m b : ℕ) : ℕ := dataStart ext n + (m * DF_MAP_BIT_CNT + b) * ext

lemma groupStart_succ (ext n : ℕ) :
    groupStart ext (n + 1) = dataStart ext n + DF_MAP_GROUP_EXTENTS * ext := by
  unfold dataStart groupStart groupBlocks
  ring

lemma groupStart_zero (ext : ℕ) : groupStart ext 0 = DF_MAP_HEAD_PAGE + 1 := by
  rw [groupStart, Nat.zero_mul, Nat.add_zero]

lemma groupStart_mono (ext : ℕ) {i n : ℕ} (h : i ≤ n) : groupStart ext i ≤ groupStart ext n :=
  Nat.add_le_add_left (Nat.mul_le_mul_right _ h) _

lemma dataStart_lt_next (ext n : ℕ) : dataStart ext n ≤ groupStart ext (n + 1) := by
  rw [groupStart_succ]
  exact Nat.le_add_right _ _

section Geometry

variable {ext n m b n' m' b' : ℕ}

lemma index_lt (hm : m < DF_MAP_GROUP_SIZE) (hb : b < DF_MAP_BIT_CNT) :
    m * DF_MAP_BIT_CNT + b < DF_MAP_GROUP_EXTENTS := by
  simp only [DF_MAP_GROUP_SIZE, DF_MAP_BIT_CNT, DF_MAP_GROUP_EXTENTS] at *
  omega

lemma extentBlock_end_le (hm : m < DF_MAP_GROUP_SIZE) (hb : b < DF_MAP_BIT_CNT) :
    extentBlock ext n m b + ext ≤ groupStart ext (n + 1) := by
  have h := Nat.mul_le_mul_right ext (Nat.succ_le_of_lt (index_lt hm hb))
  rw [groupStart_succ, extentBlock, Nat.add_assoc]
  rw [Nat.succ_mul] at h
  exact Nat.add_le_add_left h _

lemma dataStart_le_extentBlock : dataStart ext n ≤ extentBlock ext n m b := Nat.le_add_right _ _

/-- Different bits stand for disjoint extents. -/
lemma extentBlock_disjoint (hm : m < DF_MAP_GROUP_SIZE) (hb : b < DF_MAP_BIT_CNT)
    (hm' : m' < DF_MAP_GROUP_SIZE) (hb' : b' < DF_MAP_BIT_CNT)
    (hne : ¬ (n = n' ∧ m = m' ∧ b = b')) :
    extentBlock ext n m b + ext ≤ extentBlock ext n' m' b' ∨
      extentBlock ext n' m' b' + ext ≤ extentBlock ext n m b := by
  rcases Nat.lt_trichotomy n n' with h | h | h
  · left
    calc extentBlock ext n m b + ext ≤ groupStart ext (n + 1) := extentBlock_end_le hm hb
      _ ≤ groupStart ext n' := groupStart_mono ext h
      _ ≤ extentBlock ext n' m' b' := by unfold extentBlock dataStart; omega
  · subst h
    have hidx : m * DF_MAP_BIT_CNT + b ≠ m' * DF_MAP_BIT_CNT + b' := by
      intro heq
      apply hne
      simp only [DF_MAP_BIT_CNT] at heq hb hb'
      omega
    unfold extentBlock
    rcases Nat.lt_or_gt_of_ne hidx with hlt | hlt
    · left
      have := Nat.mul_le_mul_right ext (Nat.succ_le_of_lt hlt)
      rw [Nat.succ_mul] at this
      omega
    · right
      have := Nat.mul_le_mul_right ext (Nat.succ_le_of_lt hlt)
      rw [Nat.succ_mul] at this
      omega
  · right
    calc extentBlock ext n' m' b' + ext ≤ groupStart ext (n' + 1) := extentBlock_end_le hm' hb'
      _ ≤ groupStart ext n := groupStart_mono ext h
      _ ≤ extentBlock ext n m b := by unfold extentBlock dataStart; omega

lemma extentBlock_inj (hext : 0 < ext) (hm : m < DF_MAP_GROUP_SIZE) (hb : b < DF_MAP_BIT_CNT)
    (hm' : m' < DF_MAP_GROUP_SIZE) (hb' : b' < DF_MAP_BIT_CNT)
    (h : extentBlock ext n m b = extentBlock ext n' m' b') : n = n' ∧ m = m' ∧ b = b' := by
  by_contra hne
  have hd : extentBlock ext n m b + ext ≤ extentBlock ext n' m' b' ∨ _ :=
    extentBlock_disjoint hm hb hm' hb' hne
  omega

/-- An extent lies behind the map head and outside the pages in front of any group. -/
lemma extentBlock_metadata (hm : m < DF_MAP_GROUP_SIZE) (hb : b < DF_MAP_BIT_CNT) (k : ℕ) :
    DF_MAP_HEAD_PAGE < extentBlock ext n m b ∧
    (extentBlock ext n m b + ext ≤ groupStart ext k ∨ dataStart ext k ≤ extentBlock ext n m b) := by
  constructor
  · unfold extentBlock dataStart groupStart
    simp only [DF_MAP_HEAD_PAGE]
    omega
  · rcases Nat.lt_or_ge n k with h | h
    · left
      exact (extentBlock_end_le hm hb).trans (groupStart_mono ext h)
    · right
      calc dataStart ext k ≤ dataStart ext n := by
            have := groupStart_mono ext h
            unfold dataStart
            omega
        _ ≤ extentBlock ext n m b := dataStart_le_extentBlock

/-- No extent ends exactly at block `2^32`: for sizes above one its blocks would have to be even, and the
33 groups of single blocks end far below. -/
lemma extentBlock_end_ne (hext : IsExtentSize ext) (hn : n < DF_MAX_MAP_GROUP_CNT)
    (hm : m < DF_MAP_GROUP_SIZE) (hb : b < DF_MAP_BIT_CNT) : extentBlock ext n m b + ext ≠ 2 ^ 32 := by
  have hidx := index_lt hm hb
  unfold extentBlock dataStart groupStart groupBlocks
  generalize m * DF_MAP_BIT_CNT + b = x at hidx ⊢
  simp only [DF_MAX_MAP_GROUP_CNT, DF_MAP_GROUP_SIZE, IPBLOCK_GROUP_SIZE, DF_MAP_GROUP_EXTENTS,
    DF_MAP_HEAD_PAGE] at *
  rcases hext with rfl | rfl | rfl | rfl | rfl <;> omega

end Geometry

/-! ## Map pages -/

/-- The hints of a map page agree with its bitmap. -/
structure MapPage.Ok (page : MapPage) : Prop where
  bits : ∀ b ∈ page.bitmap, b < DF_MAP_BIT_CNT
  freeBits : page.freeBits = DF_MAP_BIT_CNT - page.bitmap.card
  freeBegin : ∀ b < page.freeBegin, b ∈ page.bitmap
  dirtyLast : ∀ b ∈ page.bitmap, b ≤ page.dirtyLast

/-- No bit of the page is free. -/
def MapPage.Full (page : MapPage) : Prop := ∀ b < DF_MAP_BIT_CNT, b ∈ page.bitmap

lemma MapPage.Ok.init (firstPage : ℕ) : (egInitBitmapPageContent firstPage).Ok where
  bits := by simp [egInitBitmapPageContent]
  freeBits := rfl
  freeBegin := by simp [egInitBitmapPageContent]
  dirtyLast := by simp [egInitBitmapPageContent]

section MapPageLemmas

variable {page page' : MapPage} {bit : ℕ}

lemma MapPage.Ok.subset (h : page.Ok) : page.bitmap ⊆ Finset.range DF_MAP_BIT_CNT :=
  fun b hb => Finset.mem_range.mpr (h.bits b hb)

lemma MapPage.Ok.card_le (h : page.Ok) : page.bitmap.card ≤ DF_MAP_BIT_CNT := by
  have := Finset.card_le_card h.subset
  rwa [Finset.card_range] at this

lemma MapPage.Ok.freeBegin_le (h : page.Ok) : page.freeBegin ≤ DF_MAP_BIT_CNT := by
  have hsub : Finset.range page.freeBegin ⊆ page.bitmap :=
    fun b hb => h.freeBegin b (Finset.mem_range.mp hb)
  have := Finset.card_le_card hsub
  rw [Finset.card_range] at this
  exact this.trans h.card_le

lemma MapPage.Ok.card_insert_le (h : page.Ok) (hbit : bit ∉ page.bitmap) (hlt : bit < DF_MAP_BIT_CNT) :
    page.bitmap.card + 1 ≤ DF_MAP_BIT_CNT := by
  have hsub : insert bit page.bitmap ⊆ Finset.range DF_MAP_BIT_CNT :=
    Finset.insert_subset (Finset.mem_range.mpr hlt) h.subset
  have := Finset.card_le_card hsub
  rwa [Finset.card_insert_of_notMem hbit, Finset.card_range] at this

lemma egSetBitmapPage_spec (h : page.Ok) (hbit : bit ∉ page.bitmap) (hlt : bit < DF_MAP_BIT_CNT) :
    ∃ page', egSetBitmapPage page bit = some page' ∧ page'.Ok ∧
      page'.bitmap = insert bit page.bitmap ∧ page'.firstPage = page.firstPage := by
  have hcard := h.card_insert_le hbit hlt
  have hle := h.freeBegin_le
  refine ⟨_, if_neg hbit, ⟨?_, ?_, ?_, ?_⟩, rfl, rfl⟩
  · intro b hb
    rcases Finset.mem_insert.mp hb with rfl | hb
    · exact hlt
    · exact h.bits b hb
  · dsimp only
    rw [Finset.card_insert_of_notMem hbit, h.freeBits, u16]
    simp only [DF_MAP_BIT_CNT] at *
    omega
  · intro b hb
    dsimp only at hb
    rw [Finset.mem_insert]
    split at hb
    case isTrue heq =>
      rw [u16] at hb
      simp only [DF_MAP_BIT_CNT] at *
      rcases Nat.lt_or_ge b page.freeBegin with hb' | hb'
      · exact .inr (h.freeBegin b hb')
      · exact .inl (by omega)
    case isFalse => exact .inr (h.freeBegin b hb)
  · intro b hb
    dsimp only
    rcases Finset.mem_insert.mp hb with rfl | hb
    · split <;> omega
    · have := h.dirtyLast b hb
      split <;> omega

lemma egUnsetBitmapPage_spec (h : page.Ok) (hbit : bit ∈ page.bitmap) :
    ∃ page', egUnsetBitmapPage page bit = some page' ∧ page'.Ok ∧
      page'.bitmap = page.bitmap.erase bit ∧ page'.firstPage = page.firstPage := by
  have hcard := h.card_le
  have hpos : 0 < page.bitmap.card := Finset.card_pos.mpr ⟨bit, hbit⟩
  refine ⟨_, if_pos hbit, ⟨?_, ?_, ?_, ?_⟩, rfl, rfl⟩
  · intro b hb
    exact h.bits b (Finset.mem_of_mem_erase hb)
  · dsimp only
    rw [Finset.card_erase_of_mem hbit, h.freeBits, u16]
    simp only [DF_MAP_BIT_CNT] at *
    omega
  · intro b hb
    dsimp only at hb
    have hlt : b < page.freeBegin ∧ b ≠ bit := by
      split at hb <;> omega
    exact Finset.mem_erase.mpr ⟨hlt.2, h.freeBegin b hlt.1⟩
  · intro b hb
    exact h.dirtyLast b (Finset.mem_of_mem_erase hb)

/-- The search stops at the first free bit, or finds all bits of its range set. -/
lemma findFreeBit_spec (page : MapPage) (fuel curr : ℕ) :
    match findFreeBit page fuel curr with
    | none => ∀ b, curr ≤ b → b < curr + fuel → b ∈ page.bitmap
    | some bit => bit < curr + fuel ∧ bit ∉ page.bitmap ∧ ∀ b, curr ≤ b → b < bit → b ∈ page.bitmap := by
  induction fuel generalizing curr with
  | zero =>
    intro b h1 h2
    omega
  | succ fuel ih =>
    rw [findFreeBit]
    by_cases hc : curr ∈ page.bitmap
    · rw [if_pos hc]
      have := ih (curr + 1)
      revert this
      cases findFreeBit page fuel (curr + 1) with
      | none =>
        intro hall b h1 h2
        rcases Nat.eq_or_lt_of_le h1 with rfl | hlt
        · exact hc
        · exact hall b hlt (by omega)
      | some bit =>
        rintro ⟨h1, h2, h3⟩
        refine ⟨by omega, h2, ?_⟩
        intro b hb hlt
        rcases Nat.eq_or_lt_of_le hb with rfl | hb
        · exact hc
        · exact h3 b hb hlt
    · rw [if_neg hc]
      refine ⟨by omega, hc, ?_⟩
      intro b h1 h2
      omega

/-- What `eg_alloc_extent_from_map` does on a page: the page is full, or its first free bit is tried. -/
lemma egAllocExtentFromMap_cases {eg : ExtentGroup} {mapPageId g j : ℕ} (h : (eg.mapPages mapPageId).Ok) :
    (egAllocExtentFromMap eg mapPageId g j = some .full ∧ (eg.mapPages mapPageId).Full) ∨
    ∃ bit, bit < DF_MAP_BIT_CNT ∧ bit ∉ (eg.mapPages mapPageId).bitmap ∧
      (∀ b < bit, b ∈ (eg.mapPages mapPageId).bitmap) ∧
      egAllocExtentFromMap eg mapPageId g j = egAllocExtentFromMapInternal eg mapPageId bit g j := by
  unfold egAllocExtentFromMap
  dsimp only
  by_cases h0 : (eg.mapPages mapPageId).freeBits = 0
  · left
    refine ⟨if_pos h0, ?_⟩
    -- no free bits: the bitmap has as many bits as there are
    have hcard := h.freeBits
    have heq : (eg.mapPages mapPageId).bitmap = Finset.range DF_MAP_BIT_CNT := by
      apply Finset.eq_of_subset_of_card_le h.subset
      rw [Finset.card_range]
      omega
    intro b hb
    rw [heq]
    exact Finset.mem_range.mpr hb
  · rw [if_neg h0]
    have hspec := findFreeBit_spec (eg.mapPages mapPageId)
      (DF_MAP_BIT_CNT - (eg.mapPages mapPageId).freeBegin) (eg.mapPages mapPageId).freeBegin
    have hle := h.freeBegin_le
    revert hspec
    cases findFreeBit (eg.mapPages mapPageId) (DF_MAP_BIT_CNT - (eg.mapPages mapPageId).freeBegin)
        (eg.mapPages mapPageId).freeBegin with
    | none =>
      intro hall
      left
      refine ⟨rfl, ?_⟩
      intro b hb
      rcases Nat.lt_or_ge b (eg.mapPages mapPageId).freeBegin with hlt | hge
      · exact h.freeBegin b hlt
      · exact hall b hge (by omega)
    | some bit =>
      rintro ⟨h1, h2, h3⟩
      right
      refine ⟨bit, by omega, h2, ?_, rfl⟩
      intro b hb
      rcases Nat.lt_or_ge b (eg.mapPages mapPageId).freeBegin with hlt | hge
      · exact h.freeBegin b hlt
      · exact h3 b hge hb

end MapPageLemmas

/-! ## The invariant -/

/-- Map page `m` of group `n`, at its place in exact arithmetic. -/
def ExtentGroup.page (eg : ExtentGroup) (n m : ℕ) : MapPage :=
  eg.mapPages (groupStart eg.extentSize n + m)

/-- All block numbers in use are below `2^32`, in exact arithmetic. -/
def ExtentGroup.Fits (eg : ExtentGroup) : Prop :=
  ∀ n < eg.mapHead.groupCount, dataStart eg.extentSize n ≤ 2 ^ 32 ∧
    ∀ m < DF_MAP_GROUP_SIZE, ∀ b ∈ (eg.page n m).bitmap,
      extentBlock eg.extentSize n m b + eg.extentSize ≤ 2 ^ 32

/-- The set bits over all map pages. -/
def ExtentGroup.setBits (eg : ExtentGroup) : ℕ :=
  ∑ x ∈ Finset.range eg.mapHead.groupCount ×ˢ Finset.range DF_MAP_GROUP_SIZE,
    (eg.page x.1 x.2).bitmap.card

/-- The state of an extent group whose live extents start at the blocks `live`. -/
structure EgInv (eg : ExtentGroup) (live : Finset ℕ) : Prop where
  size : IsExtentSize eg.extentSize
  unit : eg.mapHead.bitUnit = eg.extentSize
  countPos : 0 < eg.mapHead.groupCount
  countLe : eg.mapHead.groupCount ≤ DF_MAX_MAP_GROUP_CNT
  firstMap : ∀ n < eg.mapHead.groupCount, (eg.mapHead.groups n).firstMap = groupStart eg.extentSize n
  pageCount : ∀ n < eg.mapHead.groupCount, (eg.mapHead.groups n).pageCount = DF_MAP_GROUP_SIZE
  freePage : ∀ n < eg.mapHead.groupCount, (eg.mapHead.groups n).freePage < DF_MAP_GROUP_SIZE
  pageOk : ∀ n < eg.mapHead.groupCount, ∀ m < DF_MAP_GROUP_SIZE, (eg.page n m).Ok
  firstPage : ∀ n < eg.mapHead.groupCount, ∀ m < DF_MAP_GROUP_SIZE, (eg.page n m).firstPage
    = u32 (dataStart eg.extentSize n + m * DF_MAP_BIT_CNT * eg.extentSize)
  freeGroup : eg.mapHead.freeGroup < eg.mapHead.groupCount
  hint : ∀ n < eg.mapHead.groupCount, ∀ m < DF_MAP_GROUP_SIZE,
    n < eg.mapHead.freeGroup ∨ m < (eg.mapHead.groups n).freePage → (eg.page n m).Full
  allocated : eg.mapHead.allocatedExtents = eg.setBits
  liveBits : ∀ block, block ∈ live ↔ ∃ n < eg.mapHead.groupCount, ∃ m < DF_MAP_GROUP_SIZE,
    ∃ b ∈ (eg.page n m).bitmap, block = extentBlock eg.extentSize n m b
  inFile : ∀ block ∈ live, block + eg.extentSize ≤ eg.totalBlocks
  hwm : ∀ block ∈ live, block + eg.extentSize ≤ eg.mapHead.highWaterMark
  fits : eg.Fits
  step : eg.totalBlocks % DF_FILE_EXTEND_STEP_BLOCKS = 0
  fileLt : eg.totalBlocks < 2 ^ 32

lemma u32_of_lt {x : ℕ} (h : x < 2 ^ 32) : u32 x = x := Nat.mod_eq_of_lt h

lemma u32_add_left (x y : ℕ) : u32 (u32 x + y) = u32 (x + y) := Nat.mod_add_mod x (2 ^ 32) y

lemma IsExtentSize.pos {ext : ℕ} (h : IsExtentSize ext) : 0 < ext := by
  rcases h with rfl | rfl | rfl | rfl | rfl <;> decide

/-- A map page has one place. -/
lemma mapBlock_inj {ext n m n' m' : ℕ} (hm : m < DF_MAP_GROUP_SIZE) (hm' : m' < DF_MAP_GROUP_SIZE)
    (h : groupStart ext n + m = groupStart ext n' + m') : n = n' ∧ m = m' := by
  have key : ∀ {a b x y : ℕ}, a < b → x < DF_MAP_GROUP_SIZE →
      groupStart ext a + x ≠ groupStart ext b + y := by
    intro a b x y hab hx
    have h1 : groupStart ext (a + 1) ≤ groupStart ext b := groupStart_mono ext hab
    have h2 := dataStart_lt_next ext a
    simp only [dataStart, DF_MAP_GROUP_SIZE] at h2 hx
    omega
  rcases Nat.lt_trichotomy n n' with hlt | rfl | hlt
  · exact (key hlt hm h).elim
  · exact ⟨rfl, Nat.add_left_cancel h⟩
  · exact (key hlt hm' h.symm).elim

/-- A sum in which one term changes. -/
lemma sum_change {α : Type*} [DecidableEq α] {s : Finset α} {f g : α → ℕ} {a : α} (ha : a ∈ s)
    (h : ∀ x ∈ s, x ≠ a → g x = f x) : ∑ x ∈ s, g x + f a = ∑ x ∈ s, f x + g a := by
  have hrest : ∑ x ∈ s.erase a, g x = ∑ x ∈ s.erase a, f x :=
    Finset.sum_congr rfl fun x hx => h x (Finset.mem_of_mem_erase hx) (Finset.ne_of_mem_erase hx)
  rw [← Finset.add_sum_erase s f ha, ← Finset.add_sum_erase s g ha, hrest]
  ring

section Invariant

variable {eg : ExtentGroup} {live : Finset ℕ}

lemma EgInv.setBits_lt (h : EgInv eg live) : eg.setBits < 2 ^ 28 := by
  have hle : eg.setBits ≤ ∑ _x ∈ Finset.range eg.mapHead.groupCount ×ˢ Finset.range DF_MAP_GROUP_SIZE,
      DF_MAP_BIT_CNT := by
    refine Finset.sum_le_sum ?_
    intro x hx
    obtain ⟨h1, h2⟩ := Finset.mem_product.mp hx
    exact (h.pageOk _ (Finset.mem_range.mp h1) _ (Finset.mem_range.mp h2)).card_le
  rw [Finset.sum_const_nat fun _ _ => rfl, Finset.card_product, Finset.card_range, Finset.card_range] at hle
  have hc := h.countLe
  simp only [DF_MAX_MAP_GROUP_CNT, DF_MAP_GROUP_SIZE, DF_MAP_BIT_CNT] at hc hle
  omega

/-- The block of a bit, computed in 32 bits. -/
lemma EgInv.pagenum (h : EgInv eg live) {n m b : ℕ} (hn : n < eg.mapHead.groupCount)
    (hm : m < DF_MAP_GROUP_SIZE) (hb : b < DF_MAP_BIT_CNT)
    (hfit : extentBlock eg.extentSize n m b + eg.extentSize ≤ 2 ^ 32) :
    u32 ((eg.page n m).firstPage + b * eg.mapHead.bitUnit) = extentBlock eg.extentSize n m b ∧
    u32 (extentBlock eg.extentSize n m b + eg.extentSize)
      = extentBlock eg.extentSize n m b + eg.extentSize := by
  have hpos := h.size.pos
  have hne := extentBlock_end_ne h.size (Nat.lt_of_lt_of_le hn h.countLe) hm hb
  constructor
  · rw [h.firstPage n hn m hm, u32_add_left, h.unit]
    have heq : dataStart eg.extentSize n + m * DF_MAP_BIT_CNT * eg.extentSize + b * eg.extentSize
        = extentBlock eg.extentSize n m b := by
      unfold extentBlock
      ring
    rw [heq]
    exact u32_of_lt (by omega)
  · exact u32_of_lt (by omega)

end Invariant

end GaussKernel.Segment
