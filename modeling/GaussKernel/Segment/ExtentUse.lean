import GaussKernel.Lib.Ledger
import GaussKernel.Segment.BlockMap

/-!
# The use of extents

Every live extent of a segment space is used for one thing: as the head of a segment, as a level-0 page, as an extent
of data, or it has been replaced by a move and is not freed yet. A ledger over all extent groups keeps the two sides
together: what the segments refer to, and what the bitmaps have handed out.
-/

namespace GaussKernel.Segment

open Lib
open Function (update update_self update_of_ne)

/-- A segment, by the fork, the block of its head and the inverse pointer of the head. -/
structure SegmentDesc where
  forknum : ℕ
  headBlocknum : ℕ
  headPointer : ExtentInversePointer
  deriving DecidableEq

structure ExtentAddress where
  size : ℕ
  forknum : ℕ
  block : ℕ
  deriving DecidableEq

inductive ExtentUse where
  | segHead (seg : SegmentDesc)
  | level0Page (seg : SegmentDesc) (slot : ℕ)
  | data (seg : SegmentDesc) (extentId : ℕ)
  | replaced (a : ExtentAddress)
  deriving DecidableEq

/-- What the inverse pointer of an extent has to say about its use. -/
def PointerOk (segs : Finset SegmentDesc) (eg : ExtentGroup) (a : ExtentAddress) : ExtentUse → Prop
  | .segHead seg => PointerExact a.size a.block → repairGetInversePointer eg a.block = seg.headPointer
  | .data seg extentId => PointerExact a.size a.block →
    repairGetInversePointer eg a.block = ⟨assembleFlag .dataExtent extentId, seg.headBlocknum⟩
  | .replaced _ => PointerExact a.size a.block → ∃ seg ∈ segs, seg.forknum = a.forknum ∧
    ∃ extentId, repairGetInversePointer eg a.block = ⟨assembleFlag .dataExtent extentId, seg.headBlocknum⟩
  | _ => True

/-- The extent groups of a space against the uses of their extents. -/
structure SpaceInv (space : SegSpace) (segs : Finset SegmentDesc) (addr : ExtentUse → Option ExtentAddress)
    (owner : ExtentAddress → Option ExtentUse) : Prop where
  ledger : Ledger addr owner
  groups : ∀ n f, IsExtentSize n → ∃ live, GroupInv n (space.extentGroup n f) live ∧
    ∀ x, x ∈ live ↔ owner ⟨n, f, x⟩ ≠ none
  pointers : ∀ a u, owner a = some u → PointerOk segs (space.extentGroup a.size a.forknum) a u

/-- The extents of data are those of before, and the ones that are given as new. -/
def DataFrom (owner owner' : ExtentAddress → Option ExtentUse) (new : ExtentAddress → ℕ → Prop) : Prop :=
  ∀ a seg extentId, owner' a = some (.data seg extentId) → owner a = some (.data seg extentId) ∨ new a extentId

section Use

variable {space : SegSpace} {segs : Finset SegmentDesc} {addr : ExtentUse → Option ExtentAddress}
  {owner : ExtentAddress → Option ExtentUse} {op op' : AtomicOp} {u : ExtentUse} {a : ExtentAddress}
  {n f fuel block : ℕ} {iptr : ExtentInversePointer} {eg eg' : ExtentGroup}

lemma PointerOk.mono {segs' : Finset SegmentDesc} (hsub : segs ⊆ segs') (h : PointerOk segs eg a u) :
    PointerOk segs' eg a u := by
  cases u with
  | segHead => exact h
  | level0Page => trivial
  | data => exact h
  | replaced =>
    intro hexact
    obtain ⟨seg, hseg, hrest⟩ := h hexact
    exact ⟨seg, hsub hseg, hrest⟩

/-- Only the pointer at the place of the extent matters. -/
lemma PointerOk.congr (heq : PointerExact a.size a.block →
    repairGetInversePointer eg' a.block = repairGetInversePointer eg a.block) (h : PointerOk segs eg a u) :
    PointerOk segs eg' a u := by
  cases u with
  | segHead => exact fun hexact => (heq hexact).trans (h hexact)
  | level0Page => trivial
  | data => exact fun hexact => (heq hexact).trans (h hexact)
  | replaced =>
    intro hexact
    obtain ⟨seg, hseg, hfork, id, hptr⟩ := h hexact
    exact ⟨seg, hseg, hfork, id, (heq hexact).trans hptr⟩

lemma DataFrom.refl (owner : ExtentAddress → Option ExtentUse) (new : ExtentAddress → ℕ → Prop) :
    DataFrom owner owner new := fun _ _ _ h => .inl h

/-- An extent that is given back, or goes over to another use, is none of data any more. -/
lemma DataFrom.update {owner' : ExtentAddress → Option ExtentUse} {new : ExtentAddress → ℕ → Prop}
    {o : Option ExtentUse} (h : DataFrom owner owner' new)
    (ho : ∀ seg extentId, o = some (.data seg extentId) → new a extentId) :
    DataFrom owner (update owner' a o) new := by
  intro b seg id hb
  by_cases heq : b = a
  · subst heq
    rw [update_self] at hb
    exact .inr (ho seg id hb)
  · rw [update_of_ne heq] at hb
    exact h b seg id hb

/-- The invariant is about the extent groups only. -/
lemma SpaceInv.congr {space' : SegSpace} {addr' : ExtentUse → Option ExtentAddress} (h : SpaceInv space segs addr owner)
    (hgroup : space'.extentGroup = space.extentGroup) (haddr : addr' = addr) : SpaceInv space' segs addr' owner := by
  subst haddr
  refine ⟨h.ledger, ?_, ?_⟩
  · rw [hgroup]
    exact h.groups
  · rw [hgroup]
    exact h.pointers

lemma SpaceInv.mono {segs' : Finset SegmentDesc} (h : SpaceInv space segs addr owner) (hsub : segs ⊆ segs') :
    SpaceInv space segs' addr owner :=
  ⟨h.ledger, h.groups, fun a u hu => (h.pointers a u hu).mono hsub⟩

variable {live : Finset ℕ}

/-- One group has changed, and with it the owner of one of its extents. -/
lemma SpaceInv.setGroup {addr' : ExtentUse → Option ExtentAddress} {o : Option ExtentUse}
    (h : SpaceInv space segs addr owner) (hn : IsExtentSize n) (hledger : Ledger addr' (update owner ⟨n, f, block⟩ o))
    (hgroup : GroupInv n eg' live) (hlive : ∀ x, x ∈ live ↔ update owner ⟨n, f, block⟩ o ⟨n, f, x⟩ ≠ none)
    (hkept : ∀ y, owner ⟨n, f, y⟩ ≠ none → PointerExact n y →
      repairGetInversePointer eg' y = repairGetInversePointer (space.extentGroup n f) y)
    (hnew : ∀ u, o = some u → PointerOk segs eg' ⟨n, f, block⟩ u) :
    SpaceInv (space.setGroup n f eg') segs addr' (update owner ⟨n, f, block⟩ o) := by
  refine ⟨hledger, ?_, ?_⟩
  · intro n' f' hn'
    by_cases hg : n' = n ∧ f' = f
    · obtain ⟨rfl, rfl⟩ := hg
      rw [setGroup_self]
      exact ⟨live, hgroup, hlive⟩
    · obtain ⟨live', hgroup', hlive'⟩ := h.groups n' f' hn'
      rw [setGroup_of_ne hg]
      refine ⟨live', hgroup', ?_⟩
      intro x
      rw [update_of_ne, hlive' x]
      intro heq
      cases heq
      exact hg ⟨rfl, rfl⟩
  · intro a u hu
    by_cases ha : a = ⟨n, f, block⟩
    · subst ha
      rw [update_self] at hu
      rw [setGroup_self]
      exact hnew u hu
    · rw [update_of_ne ha] at hu
      have hold := h.pointers a u hu
      by_cases hg : a.size = n ∧ a.forknum = f
      · obtain ⟨rfl, rfl⟩ := hg
        rw [setGroup_self]
        refine hold.congr fun hexact => hkept a.block ?_ hexact
        rw [hu]
        exact Option.some_ne_none u
      · rw [setGroup_of_ne hg]
        exact hold

section

variable (h : SpaceInv op.space segs addr owner)
include h

/-- An extent that is handed out had no use. -/
lemma SpaceInv.owner_none (hn : IsExtentSize n) (hrun : spcAllocExtent fuel op n f none iptr = some (block, op')) :
    owner ⟨n, f, block⟩ = none := by
  obtain ⟨⟨block', eg', log, pending⟩, halloc, hres⟩ := Option.bind_eq_some_iff.mp hrun
  cases hres
  obtain ⟨live, hgroup, hlive⟩ := h.groups n f hn
  by_contra hsome
  exact (hgroup.alloc hn halloc).fresh ((hlive block).mpr hsome)

/-- The extents in front of the new one in the first map group are in use. -/
lemma SpaceInv.firstFit (hn : IsExtentSize n) (hrun : spcAllocExtent fuel op n f none iptr = some (block, op'))
    {m b : ℕ} (hm : m < DF_MAP_GROUP_SIZE) (hb : b < DF_MAP_BIT_CNT) (hlt : extentBlock n 0 m b < block) :
    owner ⟨n, f, extentBlock n 0 m b⟩ ≠ none := by
  obtain ⟨⟨block', eg', log, pending⟩, halloc, hres⟩ := Option.bind_eq_some_iff.mp hrun
  cases hres
  obtain ⟨live, hgroup, hlive⟩ := h.groups n f hn
  have hfirst := (hgroup.alloc hn halloc).first
  rw [FirstFit, hgroup.1] at hfirst
  exact (hlive _).mp (hfirst m hm b hb hlt)

/-- A new use gets an extent that had none. -/
lemma SpaceInv.alloc (hn : IsExtentSize n) (hu : addr u = none)
    (hptr : ∀ eg' x, repairGetInversePointer eg' x = iptr → PointerOk segs eg' ⟨n, f, x⟩ u)
    (hrun : spcAllocExtent fuel op n f none iptr = some (block, op')) :
    op'.space.segPages = op.space.segPages ∧
    SpaceInv op'.space segs (update addr u (some ⟨n, f, block⟩))
      (update owner ⟨n, f, block⟩ (some u)) := by
  have hfree := h.owner_none hn hrun
  obtain ⟨⟨block', eg', log, pending⟩, halloc, hres⟩ := Option.bind_eq_some_iff.mp hrun
  cases hres
  obtain ⟨live, hgroup, hlive⟩ := h.groups n f hn
  have hspec := hgroup.alloc hn halloc
  refine ⟨rfl, ?_⟩
  refine h.setGroup hn (h.ledger.assign hu hfree) ⟨hspec.size.trans hgroup.1, .inl hspec.inv⟩ ?_ ?_ ?_
  · intro x
    rw [Finset.mem_insert]
    by_cases hx : x = block
    · subst hx
      rw [update_self]
      exact ⟨fun _ => Option.some_ne_none u, fun _ => .inl rfl⟩
    · rw [update_of_ne (fun heq => hx (ExtentAddress.mk.inj heq).2.2), ← hlive x]
      exact ⟨fun hor => hor.resolve_left hx, .inr⟩
  · intro y hy hexact
    exact hspec.kept y ((hlive y).mpr hy) (hgroup.1.symm ▸ hexact)
  · intro v hv
    cases hv
    exact hptr eg' block hspec.written

end

/-- A use gives its extent back. -/
lemma SpaceInv.free (h : SpaceInv op.space segs addr owner) (hn : IsExtentSize n) (hu : addr u = some ⟨n, f, block⟩)
    (hfind : Findable (op.space.extentGroup n f) block) (hrun : spcFreeExtent op n f block = some op') :
    op'.space.segPages = op.space.segPages ∧
    SpaceInv op'.space segs (update addr u none) (update owner ⟨n, f, block⟩ none) := by
  unfold spcFreeExtent at hrun
  split at hrun
  · cases hrun
  obtain ⟨⟨eg', pending⟩, hfree, hres⟩ := Option.bind_eq_some_iff.mp hrun
  cases hres
  obtain ⟨live, hgroup, hlive⟩ := h.groups n f hn
  have howner := h.ledger.owner_eq hu
  have hmem : block ∈ live := (hlive block).mpr (by rw [howner]; exact Option.some_ne_none u)
  obtain ⟨hgroup', hkept⟩ := hgroup.free hmem hfind hfree
  refine ⟨rfl, ?_⟩
  refine h.setGroup hn (h.ledger.release hu) hgroup' ?_ ?_ (fun v hv => nomatch hv)
  · intro x
    rw [Finset.mem_erase]
    by_cases hx : x = block
    · subst hx
      rw [update_self]
      exact ⟨fun hand => absurd rfl hand.1, fun hne => absurd rfl hne⟩
    · rw [update_of_ne (fun heq => hx (ExtentAddress.mk.inj heq).2.2), ← hlive x]
      exact ⟨fun hand => hand.2, fun hmem => ⟨hx, hmem⟩⟩
  · intro y hy hexact
    exact hkept y ((hlive y).mpr hy) (hgroup.1.symm ▸ hexact)

/-- An extent goes over to a use that had none. -/
lemma SpaceInv.retag {v : ExtentUse} (h : SpaceInv space segs addr owner) (hu : addr u = some a) (hv : addr v = none)
    (hptr : PointerOk segs (space.extentGroup a.size a.forknum) a v) :
    SpaceInv space segs (update (update addr u none) v (some a))
      (update owner a (some v)) := by
  have hvu : v ≠ u := by
    rintro rfl
    rw [hv] at hu
    cases hu
  have howner := h.ledger.owner_eq hu
  have hledger := (h.ledger.release hu).assign (u := v) (by rwa [update_of_ne hvu])
    (update_self a none owner)
  rw [Function.update_idem] at hledger
  refine ⟨hledger, ?_, ?_⟩
  · intro n f hn
    obtain ⟨live, hgroup, hlive⟩ := h.groups n f hn
    refine ⟨live, hgroup, ?_⟩
    intro x
    rw [hlive x]
    by_cases ha : (⟨n, f, x⟩ : ExtentAddress) = a
    · rw [ha, update_self, howner]
      exact ⟨fun _ => Option.some_ne_none v, fun _ => Option.some_ne_none u⟩
    · rw [update_of_ne ha]
  · intro b w hw
    by_cases hb : b = a
    · subst hb
      rw [update_self] at hw
      cases hw
      exact hptr
    · rw [update_of_ne hb] at hw
      exact h.pointers b w hw

/-- The extent of a use is live. -/
lemma SpaceInv.mem_live (h : SpaceInv space segs addr owner) (hn : IsExtentSize n)
    (hu : addr u = some ⟨n, f, block⟩) : ∃ live, GroupInv n (space.extentGroup n f) live ∧ block ∈ live := by
  obtain ⟨live, hgroup, hlive⟩ := h.groups n f hn
  refine ⟨live, hgroup, (hlive block).mpr ?_⟩
  rw [h.ledger.owner_eq hu]
  exact Option.some_ne_none u

/-- In the groups of small extents every extent is found again, because no group reaches block `2^32`. -/
lemma GroupInv.findable (h : GroupInv n eg live) (hn : n ≤ 8) (hlive : block ∈ live) : Findable eg block := by
  have hinv := h.egInv hlive
  obtain ⟨g, hg, m, hm, b, hb, rfl⟩ := (hinv.liveBits block).mp hlive
  have hbit := (hinv.pageOk g hg m hm).bits b hb
  have hend := @extentBlock_end_le eg.extentSize g m b hm hbit
  have hpos := hinv.size.pos
  have hcount := hinv.countLe
  have hstart : groupStart eg.extentSize (g + 1) < 2 ^ 32 := by
    have hmono := groupStart_mono eg.extentSize (show g + 1 ≤ DF_MAX_MAP_GROUP_CNT by omega)
    have hsize : eg.extentSize ≤ 8 := h.1 ▸ hn
    have hlarge : groupStart eg.extentSize DF_MAX_MAP_GROUP_CNT < 2 ^ 32 := by
      unfold groupStart groupBlocks
      simp only [DF_MAP_HEAD_PAGE, DF_MAX_MAP_GROUP_CNT, DF_MAP_GROUP_SIZE, IPBLOCK_GROUP_SIZE, DF_MAP_GROUP_EXTENTS]
      omega
    omega
  refine ⟨g, hg, dataStart_le_extentBlock, by omega, .inr ?_⟩
  rw [groupStart_succ] at hend hstart
  rw [u32_of_lt (show DF_MAP_GROUP_EXTENTS * eg.extentSize < 2 ^ 32 by omega), u32_of_lt hstart]
  omega

/-- An extent that is found again has its pointer at the exact place. -/
lemma GroupInv.pointerExact (h : GroupInv n eg live) (hlive : block ∈ live) (hfind : Findable eg block) :
    PointerExact n block := by
  have hinv := h.egInv hlive
  by_cases hsmall : groupBlocks n < 2 ^ 32
  · exact .inl hsmall
  · have hsize : eg.extentSize = 8192 := hinv.size.large (h.1.symm ▸ hsmall)
    obtain rfl : n = 8192 := h.1.symm.trans hsize
    have hfile := hinv.inFile block hlive
    have hlt := hinv.fileLt
    obtain ⟨k, _, hge, _, hloc⟩ := hfind
    rw [hsize] at hge hloc hfile
    have hk : k = 0 := by
      rcases Nat.eq_zero_or_pos k with h0 | hpos
      · exact h0
      · have := Nat.le_mul_of_pos_left (groupBlocks 8192) hpos
        rw [dataStart, groupStart_eq] at hge
        omega
    subst hk
    have hstart : dataStart 8192 0 = 4157 := by decide
    have hend : u32 (4157 + u32 (DF_MAP_GROUP_EXTENTS * 8192)) = 4143976509 := by decide
    refine .inr ?_
    rw [u32_groupBlocks]
    rcases hloc with heq | hlt'
    · rw [heq, hstart]
      decide
    · rw [hstart, hend] at hlt'
      simp only [DF_MAP_HEAD_PAGE]
      omega

end Use

end GaussKernel.Segment
