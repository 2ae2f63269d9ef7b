import GaussKernel.Segment.ExtentBit

/-!
# The search for a free extent

`eg_try_alloc_extent` tries the first free bit behind the hints, or the bit of the preassigned block.
-/

namespace GaussKernel.Segment

/-! ## The search for a free bit -/

/-- The search went over full numbers only, and ended at the last one or at the first that is not full. -/
lemma scan_spec (attempt : ℕ → Option TryAlloc) (count j : ℕ) :
    (scan attempt count j = some .full ∧ ∀ k, j ≤ k → k < j + count → attempt k = some .full) ∨
    ∃ k, j ≤ k ∧ k < j + count ∧ (∀ k', j ≤ k' → k' < k → attempt k' = some .full) ∧
      scan attempt count j = attempt k ∧ attempt k ≠ some .full := by
  induction count generalizing j with
  | zero =>
    left
    refine ⟨rfl, ?_⟩
    intro k h1 h2
    omega
  | succ count ih =>
    by_cases hfull : attempt j = some .full
    · have hstep : scan attempt (count + 1) j = scan attempt count (j + 1) := by
        rw [scan, hfull]
      rw [hstep]
      rcases ih (j + 1) with ⟨hrun, hall⟩ | ⟨k, h1, h2, hall, hrun, hne⟩
      · left
        refine ⟨hrun, ?_⟩
        intro k h1 h2
        rcases Nat.eq_or_lt_of_le h1 with rfl | hlt
        · exact hfull
        · exact hall k hlt (by omega)
      · right
        refine ⟨k, by omega, by omega, ?_, hrun, hne⟩
        intro k' h1' h2'
        rcases Nat.eq_or_lt_of_le h1' with rfl | hlt
        · exact hfull
        · exact hall k' hlt h2'
    · right
      refine ⟨j, le_refl _, by omega, ?_, ?_, hfull⟩
      · intro k' h1 h2
        omega
      · rw [scan]
        cases hr : attempt j with
        | none => rfl
        | some r =>
          cases r with
          | full => exact (hfull hr).elim
          | allocated => rfl
          | targetFileSize => rfl

lemma egAllocExtentFromMapInternal_ne_full (eg : ExtentGroup) (mapBlock b g j : ℕ) :
    egAllocExtentFromMapInternal eg mapBlock b g j ≠ some .full := by
  intro h
  unfold egAllocExtentFromMapInternal at h
  dsimp only at h
  split at h
  · cases h
  · obtain ⟨q, _, hres⟩ := Option.bind_eq_some_iff.mp h
    cases hres

section Search

variable {eg eg' : ExtentGroup} {live : Finset ℕ} {block : ℕ} {log : List EgRecord} {n m b : ℕ}

section

variable (h : EgInv eg live) (hn : n < eg.mapHead.groupCount) (hm : m < DF_MAP_GROUP_SIZE)
include h hn hm

lemma EgInv.mapBlock_eq : u32 ((eg.mapHead.groups n).firstMap + m) = groupStart eg.extentSize n + m := by
  have hlt := h.groupStart_lt hn
  rw [h.firstMap n hn]
  exact u32_of_lt (by omega)

/-- The map page of a place, as the callers compute it. -/
lemma EgInv.place_valid (hb : b < DF_MAP_BIT_CNT) : ¬ mapLocationIsInvalid ⟨eg.mapHead.groups n, m, b, n⟩ ∧
    u16 b = b ∧ u32 (m + (eg.mapHead.groups n).firstMap) = groupStart eg.extentSize n + m := by
  refine ⟨?_, Nat.mod_eq_of_lt (hb.trans (by decide)), ?_⟩
  · unfold mapLocationIsInvalid
    rw [h.firstMap n hn, groupStart]
    simp only [DF_MAP_HEAD_PAGE]
    omega
  · rw [Nat.add_comm, h.mapBlock_eq hn hm]

/-- An attempt on one page: it is full, or its first free bit is tried. -/
lemma EgInv.fromMap_cases (g j : ℕ) :
    (egAllocExtentFromMap eg (u32 ((eg.mapHead.groups n).firstMap + m)) g j = some .full ∧ (eg.page n m).Full) ∨
    ∃ b < DF_MAP_BIT_CNT, b ∉ (eg.page n m).bitmap ∧ (∀ b' < b, b' ∈ (eg.page n m).bitmap) ∧
      egAllocExtentFromMap eg (u32 ((eg.mapHead.groups n).firstMap + m)) g j
        = egAllocExtentFromMapInternal eg (groupStart eg.extentSize n + m) b g j := by
  rw [h.mapBlock_eq hn hm]
  rcases egAllocExtentFromMap_cases (g := g) (j := j) (h.pageOk n hn m hm) with hfull | ⟨b, hb, hfree, hfirst, heq⟩
  · exact .inl hfull
  · exact .inr ⟨b, hb, hfree, hfirst, heq⟩

lemma EgInv.fromMap_full {g j : ℕ}
    (hfull : egAllocExtentFromMap eg (u32 ((eg.mapHead.groups n).firstMap + m)) g j = some .full) :
    (eg.page n m).Full := by
  rcases h.fromMap_cases hn hm g j with ⟨_, hpage⟩ | ⟨b, _, _, _, heq⟩
  · exact hpage
  · exact (egAllocExtentFromMapInternal_ne_full _ _ _ _ _ (heq.symm.trans hfull)).elim

end

/-- The search in one group: all its pages are full, or the first free bit of the first page that is not full is
tried. -/
lemma EgInv.tryGroup_cases (h : EgInv eg live) {i : ℕ} (hi : i < eg.mapHead.groupCount) :
    (tryGroup eg i = some .full ∧ ∀ m < DF_MAP_GROUP_SIZE, (eg.page i m).Full) ∨
    ∃ m < DF_MAP_GROUP_SIZE, ∃ b < DF_MAP_BIT_CNT, b ∉ (eg.page i m).bitmap ∧
      (∀ b' < b, b' ∈ (eg.page i m).bitmap) ∧ (∀ m' < m, (eg.page i m').Full) ∧
      tryGroup eg i = egAllocExtentFromMapInternal eg (groupStart eg.extentSize i + m) b i m := by
  have hfp := h.freePage i hi
  have hgroup : tryGroup eg i = scan (fun j => egAllocExtentFromMap eg (u32 ((eg.mapHead.groups i).firstMap + j)) i j)
      (DF_MAP_GROUP_SIZE - (eg.mapHead.groups i).freePage) (eg.mapHead.groups i).freePage := by
    unfold tryGroup
    dsimp only
    rw [h.pageCount i hi, if_pos hfp]
  -- the pages in front of the hint are full, and so are those that the search passes
  have hbefore : ∀ m, (∀ j, (eg.mapHead.groups i).freePage ≤ j → j < m →
      egAllocExtentFromMap eg (u32 ((eg.mapHead.groups i).firstMap + j)) i j = some .full) →
      ∀ m' < m, m' < DF_MAP_GROUP_SIZE → (eg.page i m').Full := by
    intro m hall m' hm' hlt
    rcases Nat.lt_or_ge m' (eg.mapHead.groups i).freePage with hhint | hge
    · exact h.hint i hi m' hlt (.inr hhint)
    · exact h.fromMap_full hi hlt (hall m' hge hm')
  rw [hgroup]
  rcases scan_spec (fun j => egAllocExtentFromMap eg (u32 ((eg.mapHead.groups i).firstMap + j)) i j)
    (DF_MAP_GROUP_SIZE - (eg.mapHead.groups i).freePage) (eg.mapHead.groups i).freePage with
    ⟨hfull, hall⟩ | ⟨m, h1, h2, hall, hscan, hne⟩
  · refine .inl ⟨hfull, fun m hm => hbefore DF_MAP_GROUP_SIZE ?_ m hm hm⟩
    intro j hge hlt
    exact hall j hge (by omega)
  · have hm : m < DF_MAP_GROUP_SIZE := by omega
    rcases h.fromMap_cases hi hm i m with ⟨hfull, _⟩ | ⟨b, hb, hfree, hfirst, heq⟩
    · exact (hne hfull).elim
    · exact .inr ⟨m, hm, b, hb, hfree, hfirst, fun m' hm' => hbefore m hall m' hm' (hm'.trans hm), hscan.trans heq⟩

/-- The first free bit in the order of the search. -/
structure FirstFree (eg : ExtentGroup) (n m b : ℕ) : Prop where
  group : n < eg.mapHead.groupCount
  page : m < DF_MAP_GROUP_SIZE
  bit : b < DF_MAP_BIT_CNT
  free : b ∉ (eg.page n m).bitmap
  bits : ∀ b' < b, b' ∈ (eg.page n m).bitmap
  pages : ∀ m' < m, (eg.page n m').Full
  groups : ∀ n' < n, ∀ m' < DF_MAP_GROUP_SIZE, (eg.page n' m').Full

/-- What `eg_try_alloc_extent` does: all bits are set, and the file must be made to reach the next group or is long
enough for it; or the first free bit is tried. -/
lemma EgInv.tryAlloc_cases (h : EgInv eg live) :
    ((∀ n < eg.mapHead.groupCount, ∀ m < DF_MAP_GROUP_SIZE, (eg.page n m).Full) ∧
      ∃ start, egNextGroupStart eg.mapHead = some start ∧ egTryAllocExtent eg none
        = some (if eg.totalBlocks < u32 (start + DF_MAP_GROUP_SIZE + IPBLOCK_GROUP_SIZE) then
            .targetFileSize (u32 (start + DF_MAP_GROUP_SIZE + IPBLOCK_GROUP_SIZE)) else .full)) ∨
    ∃ n m b, FirstFree eg n m b ∧
      egTryAllocExtent eg none = egAllocExtentFromMapInternal eg (groupStart eg.extentSize n + m) b n m := by
  have hfg := h.freeGroup
  have hbefore : ∀ n, (∀ i, eg.mapHead.freeGroup ≤ i → i < n → tryGroup eg i = some .full) →
      n ≤ eg.mapHead.groupCount → ∀ n' < n, ∀ m < DF_MAP_GROUP_SIZE, (eg.page n' m).Full := by
    intro n hall hle n' hn' m hm
    rcases Nat.lt_or_ge n' eg.mapHead.freeGroup with hlt | hge
    · exact h.hint n' (by omega) m hm (.inl hlt)
    · rcases h.tryGroup_cases (i := n') (by omega) with ⟨_, hfull⟩ | ⟨m', _, b, _, _, _, _, heq⟩
      · exact hfull m hm
      · exact (egAllocExtentFromMapInternal_ne_full _ _ _ _ _ (heq.symm.trans (hall n' hge hn'))).elim
  rcases scan_spec (tryGroup eg) (eg.mapHead.groupCount - eg.mapHead.freeGroup) eg.mapHead.freeGroup with
    ⟨hfull, hall⟩ | ⟨n, h1, h2, hall, hscan, hne⟩
  · left
    refine ⟨hbefore _ (fun i hge hlt => hall i hge (by omega)) (le_refl _), ?_⟩
    obtain ⟨start, hstart⟩ : ∃ start, egNextGroupStart eg.mapHead = some start := ⟨_, if_pos h.countPos⟩
    refine ⟨start, hstart, ?_⟩
    unfold egTryAllocExtent
    dsimp only
    rw [if_pos ⟨h.countPos, hfg⟩, hfull, hstart]
    rfl
  · right
    have hn : n < eg.mapHead.groupCount := by omega
    rcases h.tryGroup_cases hn with ⟨hfull, _⟩ | ⟨m, hm, b, hb, hfree, hfirst, hpages, heq⟩
    · exact (hne hfull).elim
    · refine ⟨n, m, b, ⟨hn, hm, hb, hfree, hfirst, hpages, hbefore n hall hn.le⟩, ?_⟩
      unfold egTryAllocExtent
      dsimp only
      rw [if_pos ⟨h.countPos, hfg⟩, hscan, heq]
      rw [heq] at hne
      cases hres : egAllocExtentFromMapInternal eg (groupStart eg.extentSize n + m) b n m with
      | none => rfl
      | some r =>
        cases r with
        | full => exact (hne hres).elim
        | allocated => rfl
        | targetFileSize => rfl

/-- The file ends at least one step before block `2^32`. -/
lemma EgInv.total_le (h : EgInv eg live) : eg.totalBlocks + DF_FILE_EXTEND_STEP_BLOCKS ≤ 2 ^ 32 := by
  have hstep := h.step
  have hlt := h.fileLt
  simp only [DF_FILE_EXTEND_STEP_BLOCKS] at *
  omega

lemma IsExtentSize.le {ext : ℕ} (h : IsExtentSize ext) : ext ≤ 8192 := by
  rcases h with rfl | rfl | rfl | rfl | rfl <;> decide

lemma EgInv.set_end_le (h : EgInv eg live) (hn : n < eg.mapHead.groupCount) (hm : m < DF_MAP_GROUP_SIZE)
    (hb : b ∈ (eg.page n m).bitmap) : extentBlock eg.extentSize n m b + eg.extentSize ≤ eg.totalBlocks :=
  h.inFile _ ((h.liveBits _).mpr ⟨n, hn, m, hm, b, hb, rfl⟩)

/-- A full group ends inside the file. -/
lemma EgInv.full_end_le (h : EgInv eg live) (hn : n < eg.mapHead.groupCount)
    (hfull : ∀ m < DF_MAP_GROUP_SIZE, (eg.page n m).Full) : groupStart eg.extentSize (n + 1) ≤ eg.totalBlocks := by
  have hlast := h.set_end_le hn (m := 63) (by decide) (hfull 63 (by decide) 65247 (by decide))
  rw [groupStart_succ]
  unfold extentBlock at hlast
  simp only [DF_MAP_GROUP_EXTENTS, DF_MAP_BIT_CNT] at *
  omega

/-- All extents in front of the first free bit are in the file, which is why its block number does not wrap. -/
lemma FirstFree.end_lt (h : EgInv eg live) (hf : FirstFree eg n m b) :
    extentBlock eg.extentSize n m b + eg.extentSize < 2 ^ 32 := by
  have hle := h.size.le
  have htotal := h.total_le
  simp only [DF_FILE_EXTEND_STEP_BLOCKS] at htotal
  have hadd : ∀ i, extentBlock eg.extentSize n m (i + 1) = extentBlock eg.extentSize n m i + eg.extentSize := by
    intro i
    unfold extentBlock
    ring
  cases b with
  | succ b =>
    have hprev := h.set_end_le hf.group hf.page (hf.bits b (Nat.lt_succ_self b))
    rw [hadd]
    omega
  | zero =>
    cases m with
    | succ m =>
      have hm := Nat.lt_of_succ_lt hf.page
      have hprev := h.set_end_le hf.group hm (hf.pages m (Nat.lt_succ_self m) 65247 (by decide))
      have heq : extentBlock eg.extentSize n (m + 1) 0
          = extentBlock eg.extentSize n m 65247 + eg.extentSize := by
        unfold extentBlock
        simp only [DF_MAP_BIT_CNT]
        ring
      omega
    | zero =>
      have heq : extentBlock eg.extentSize n 0 0 = dataStart eg.extentSize n := by
        unfold extentBlock
        rw [Nat.zero_mul, Nat.zero_add, Nat.zero_mul, Nat.add_zero]
      rw [heq, dataStart]
      simp only [DF_MAP_GROUP_SIZE, IPBLOCK_GROUP_SIZE]
      cases n with
      | zero =>
        rw [groupStart_zero]
        simp only [DF_MAP_HEAD_PAGE]
        omega
      | succ n =>
        have hprev := h.full_end_le (Nat.lt_of_succ_lt hf.group) (hf.groups n (Nat.lt_succ_self n))
        omega

/-- Setting the first free bit keeps all block numbers in range. -/
lemma FirstFree.fits (h : EgInv eg live) (hf : FirstFree eg n m b)
    (hrun : egAllocExtentFromMapInternal eg (groupStart eg.extentSize n + m) b n m = some (.allocated block eg' log)) :
    eg'.Fits := by
  obtain ⟨q, hset, _, _, rfl⟩ := egAllocExtentFromMapInternal_inv hrun
  obtain ⟨p, hset', _, hbits, _⟩ := egSetBitmapPage_spec (h.pageOk n hf.group m hf.page) hf.free hf.bit
  obtain rfl : p = q := Option.some_inj.mp (hset'.symm.trans hset)
  intro n' hn'
  refine ⟨(h.fits n' hn').1, ?_⟩
  refine forall_page_withPage (P := fun i j q => ∀ b ∈ q.bitmap, extentBlock eg.extentSize i j b
    + eg.extentSize ≤ 2 ^ 32) (c := eg.mapHead.groupCount) hf.page ?_ ?_ n' hn'
  · intro i hi j hj _
    exact (h.fits i hi).2 j hj
  · intro b' hb'
    rw [hbits] at hb'
    rcases Finset.mem_insert.mp hb' with rfl | hold
    · exact (hf.end_lt h).le
    · exact (h.fits n hf.group).2 m hf.page b' hold

/-- What a successful allocation establishes. -/
def Allocated (eg : ExtentGroup) (live : Finset ℕ) (block : ℕ) (eg' : ExtentGroup) : Prop :=
  (∃ n < eg.mapHead.groupCount, ∃ m < DF_MAP_GROUP_SIZE, ∃ b < DF_MAP_BIT_CNT,
    block = extentBlock eg.extentSize n m b) ∧ block ∉ live ∧ EgInv eg' (insert block live) ∧
  eg'.extentSize = eg.extentSize

lemma EgInv.tryAlloc (h : EgInv eg live)
    (hrun : egTryAllocExtent eg none = some (.allocated block eg' log)) : Allocated eg live block eg' := by
  rcases h.tryAlloc_cases with ⟨_, start, _, hfull⟩ | ⟨n, m, b, hf, htry⟩
  · rw [hrun] at hfull
    split at hfull <;> cases hfull
  · have hint := htry.symm.trans hrun
    obtain ⟨hblock, hlive, hinv⟩ := h.alloc hf.group hf.page hf.bit hf.free hf.group hf.page (by
      intro n' hn' m' hm' hor
      rcases Nat.lt_trichotomy n' n with hlt | rfl | hgt
      · exact hf.groups n' hlt m' hm'
      · rw [if_pos rfl] at hor
        exact hf.pages m' (hor.resolve_left (lt_irrefl _))
      · rw [if_neg hgt.ne'] at hor
        exact h.hint n' hn' m' hm' (.inr (hor.resolve_left (by omega)))) hint (hf.fits h hint)
    exact ⟨⟨n, hf.group, m, hf.page, b, hf.bit, hblock⟩, hlive, hinv⟩

/-- A preassigned block that is found again gets its own bit. -/
lemma EgInv.tryAlloc_preassigned (h : EgInv eg live) (hn : n < eg.mapHead.groupCount) (hm : m < DF_MAP_GROUP_SIZE)
    (hb : b < DF_MAP_BIT_CNT) (hlt : extentBlock eg.extentSize n m b < 2 ^ 32)
    (hloc : Locatable eg.extentSize n (extentBlock eg.extentSize n m b))
    (hrun : egTryAllocExtent eg (some (extentBlock eg.extentSize n m b)) = some (.allocated block eg' log))
    (hfits : eg'.Fits) : Allocated eg live block eg' := by
  have hfg := h.freeGroup
  have hstart := h.groupStart_lt hn
  obtain ⟨hvalid, hu16, hmap⟩ := h.place_valid hn hm hb
  unfold egTryAllocExtent at hrun
  dsimp only at hrun
  rw [if_pos ⟨h.countPos, hfg⟩] at hrun
  unfold egAllocPreassignedBlock at hrun
  dsimp only at hrun
  rw [h.locate hn hm hb hlt hloc, if_neg hvalid, hu16, hmap] at hrun
  split at hrun
  · cases hrun
  rename_i hfree
  split at hrun
  · cases hrun
  rw [if_pos ⟨hfg, (h.pageCount _ hfg).symm ▸ h.freePage _ hfg⟩] at hrun
  obtain ⟨r, hr, hres⟩ := Option.bind_eq_some_iff.mp hrun
  cases r with
  | full => cases hres
  | targetFileSize => cases hres
  | allocated block' eg'' log' =>
    cases hres
    obtain ⟨rfl, hlive, hinv⟩ := h.alloc hn hm hb hfree hfg (h.freePage _ hfg) (by
      intro n' hn' m' hm' hor
      refine h.hint n' hn' m' hm' (hor.imp_right ?_)
      split
      case isTrue heq => exact fun hlt => heq ▸ hlt
      case isFalse => exact id) hr hfits
    exact ⟨⟨n, hn, m, hm, b, hb, rfl⟩, hlive, hinv⟩

end Search

end GaussKernel.Segment
