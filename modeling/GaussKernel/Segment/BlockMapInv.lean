import GaussKernel.Segment.ExtentUse

/-!
# The invariant of the block map trees

The segments of a space with their trees, and the extents that a move has replaced. What the trees refer to are the
addresses of a ledger; each operation on a tree allocates or frees the extents that it adds to or takes from it.
-/

namespace GaussKernel.Segment

open Lib

structure MapState where
  space : SegSpace
  segs : Finset SegmentDesc
  replaced : Finset ExtentAddress

def SegSpace.level0Addr (space : SegSpace) (seg : SegmentDesc) (slot : ℕ) : Option ExtentAddress := do
  let head ← space.segmentHead seg.headBlocknum
  if slot < level1SlotsInUse head.nextents then
    some ⟨SEGMENT_HEAD_EXTENT_SIZE, MAIN_FORKNUM, head.level1Slots slot⟩
  else none

def SegSpace.dataAddr (space : SegSpace) (seg : SegmentDesc) (extentId : ℕ) : Option ExtentAddress := do
  let head ← space.segmentHead seg.headBlocknum
  if extentId < head.nextents then
    (segExtentLocation space head extentId).map fun x => ⟨extentSizeByCount extentId, seg.forknum, x⟩
  else none

/-- Where the trees say that the extent of a use lies. -/
def MapState.addr (s : MapState) : ExtentUse → Option ExtentAddress
  | .segHead seg => if seg ∈ s.segs then some ⟨SEGMENT_HEAD_EXTENT_SIZE, MAIN_FORKNUM, seg.headBlocknum⟩ else none
  | .level0Page seg slot => if seg ∈ s.segs then s.space.level0Addr seg slot else none
  | .data seg extentId => if seg ∈ s.segs then s.space.dataAddr seg extentId else none
  | .replaced a => if a ∈ s.replaced then some a else none

/-- The head of a segment agrees with its tree. -/
structure HeadOk (space : SegSpace) (head : SegmentHead) : Prop extends SegmentHead.Ok head where
  level0 : ∀ slot < level1SlotsInUse head.nextents, ∃ page, space.level0Page (head.level1Slots slot) = some page

structure MapInv (s : MapState) (owner : ExtentAddress → Option ExtentUse) : Prop where
  inv : SpaceInv s.space s.segs s.addr owner
  heads : ∀ seg ∈ s.segs, ∃ head, s.space.segmentHead seg.headBlocknum = some head ∧ HeadOk s.space head
  replacedSize : ∀ a ∈ s.replaced, IsExtentSize a.size ∧ a.size ≠ SEGMENT_HEAD_EXTENT_SIZE

/-! ## Reading the trees -/

section Read

variable {space space' : SegSpace} {s : MapState} {owner : ExtentAddress → Option ExtentUse} {seg : SegmentDesc}
  {head : SegmentHead} {id slot block : ℕ} {page : SegPage}

/-- The segment head that was written is read back. -/
lemma segmentHead_setPage_self : (space.setPage block (.segmentHead head)).segmentHead block = some head := by
  unfold SegSpace.segmentHead SegSpace.setPage
  dsimp only
  rw [Function.update_self]

/-- A write of another block keeps a segment head. -/
lemma segmentHead_setPage_of_ne {b : ℕ} (h : b ≠ block) :
    (space.setPage block page).segmentHead b = space.segmentHead b := by
  unfold SegSpace.segmentHead SegSpace.setPage
  dsimp only
  rw [Function.update_of_ne h]

/-- The level 0 page that was written is read back. -/
lemma level0Page_setPage_self {p : BMTLevel0Page} : (space.setPage block (.level0 p)).level0Page block = some p := by
  unfold SegSpace.level0Page SegSpace.setPage
  dsimp only
  rw [Function.update_self]

/-- A write of another block keeps a level 0 page. -/
lemma level0Page_setPage_of_ne {b : ℕ} (h : b ≠ block) :
    (space.setPage block page).level0Page b = space.level0Page b := by
  unfold SegSpace.level0Page SegSpace.setPage
  dsimp only
  rw [Function.update_of_ne h]

/-- A segment head depends on its own block only. -/
lemma segmentHead_congr (h : space'.segPages block = space.segPages block) :
    space'.segmentHead block = space.segmentHead block := by
  unfold SegSpace.segmentHead
  rw [h]

/-- A level 0 page depends on its own block only. -/
lemma level0Page_congr (h : space'.segPages block = space.segPages block) :
    space'.level0Page block = space.level0Page block := by
  unfold SegSpace.level0Page
  rw [h]

/-- The address of a level 0 page, read from the segment head. -/
lemma level0Addr_eq (h : space.segmentHead seg.headBlocknum = some head) :
    space.level0Addr seg slot = if slot < level1SlotsInUse head.nextents then
      some ⟨SEGMENT_HEAD_EXTENT_SIZE, MAIN_FORKNUM, head.level1Slots slot⟩ else none := by
  unfold SegSpace.level0Addr
  rw [h]
  rfl

/-- The address of a data extent, read from the segment head. -/
lemma dataAddr_eq (h : space.segmentHead seg.headBlocknum = some head) :
    space.dataAddr seg id = if id < head.nextents then
      (segExtentLocation space head id).map fun x => ⟨extentSizeByCount id, seg.forknum, x⟩ else none := by
  unfold SegSpace.dataAddr
  rw [h]
  rfl

/-- The first extents stand in the segment head. -/
lemma segExtentLocation_of_lt (h : id < BMT_HEADER_LEVEL0_SLOTS) :
    segExtentLocation space head id = some (head.level0Slots id) := if_pos h

/-- The later extents stand in the level 0 pages. -/
lemma segExtentLocation_of_ge (h : BMT_HEADER_LEVEL0_SLOTS ≤ id) : segExtentLocation space head id
    = (space.level0Page (head.level1Slots (extentIdToLevel1Slot id))).map (·.slots (extentIdToLevel0PageOffset id)) := by
  unfold segExtentLocation
  rw [if_neg (not_lt.mpr h)]
  cases space.level0Page (head.level1Slots (extentIdToLevel1Slot id)) <;> rfl

/-- The location of an extent is read from the head or from a level-0 page in use. -/
lemma segExtentLocation_congr {head' : SegmentHead} {n : ℕ} (hid : id < n)
    (hslots : head'.level0Slots id = head.level0Slots id)
    (hpages : BMT_HEADER_LEVEL0_SLOTS ≤ id → ∀ slot < level1SlotsInUse n, extentIdToLevel1Slot id = slot →
      (space'.level0Page (head'.level1Slots slot)).map (·.slots (extentIdToLevel0PageOffset id))
        = (space.level0Page (head.level1Slots slot)).map (·.slots (extentIdToLevel0PageOffset id))) :
    segExtentLocation space' head' id = segExtentLocation space head id := by
  rcases Nat.lt_or_ge id BMT_HEADER_LEVEL0_SLOTS with hlt | hge
  · rw [segExtentLocation_of_lt hlt, segExtentLocation_of_lt hlt, hslots]
  · rw [segExtentLocation_of_ge hge, segExtentLocation_of_ge hge]
    exact hpages hge _ (extentIdToLevel1Slot_lt hid hge) rfl

/-- Every extent of a segment has a location. -/
lemma HeadOk.location (h : HeadOk space head) (hid : id < head.nextents) :
    ∃ x, segExtentLocation space head id = some x := by
  rcases Nat.lt_or_ge id BMT_HEADER_LEVEL0_SLOTS with hlt | hge
  · exact ⟨_, segExtentLocation_of_lt hlt⟩
  · obtain ⟨page, hpage⟩ := h.level0 _ (extentIdToLevel1Slot_lt hid hge)
    rw [segExtentLocation_of_ge hge, hpage]
    exact ⟨_, rfl⟩

/-- The head of a segment that is read agrees with its tree. -/
lemma MapInv.headOk (h : MapInv s owner) (hseg : seg ∈ s.segs)
    (hhead : s.space.segmentHead seg.headBlocknum = some head) : HeadOk s.space head := by
  obtain ⟨head', hhead', hok⟩ := h.heads seg hseg
  obtain rfl : head' = head := Option.some_inj.mp (hhead'.symm.trans hhead)
  exact hok

/-- The owner of a head extent is at the head block. -/
lemma MapInv.addr_segHead (hseg : seg ∈ s.segs) :
    s.addr (.segHead seg) = some ⟨SEGMENT_HEAD_EXTENT_SIZE, MAIN_FORKNUM, seg.headBlocknum⟩ := if_pos hseg

/-- A level 0 page in use is where the head says. -/
lemma MapInv.addr_level0 (hseg : seg ∈ s.segs) (hhead : s.space.segmentHead seg.headBlocknum = some head)
    (hslot : slot < level1SlotsInUse head.nextents) : s.addr (.level0Page seg slot)
      = some ⟨SEGMENT_HEAD_EXTENT_SIZE, MAIN_FORKNUM, head.level1Slots slot⟩ := by
  change (if seg ∈ s.segs then s.space.level0Addr seg slot else none) = _
  rw [if_pos hseg, level0Addr_eq hhead, if_pos hslot]

/-- A data extent in use is where the block map says. -/
lemma MapInv.addr_data (hseg : seg ∈ s.segs) (hhead : s.space.segmentHead seg.headBlocknum = some head)
    (hid : id < head.nextents) {x : ℕ} (hx : segExtentLocation s.space head id = some x) :
    s.addr (.data seg id) = some ⟨extentSizeByCount id, seg.forknum, x⟩ := by
  change (if seg ∈ s.segs then s.space.dataAddr seg id else none) = _
  rw [if_pos hseg, dataAddr_eq hhead, if_pos hid, hx]
  rfl

variable {a : ExtentAddress}

/-- Only a head extent of a segment has the address of a head. -/
lemma MapState.addr_segHead_inv (h : s.addr (.segHead seg) = some a) :
    seg ∈ s.segs ∧ a = ⟨SEGMENT_HEAD_EXTENT_SIZE, MAIN_FORKNUM, seg.headBlocknum⟩ := by
  change (if seg ∈ s.segs then _ else none) = some a at h
  split at h
  case isTrue hseg => exact ⟨hseg, (Option.some_inj.mp h).symm⟩
  case isFalse => cases h

/-- Only a level 0 slot in use has an address. -/
lemma MapState.addr_level0_inv (h : s.addr (.level0Page seg slot) = some a) :
    seg ∈ s.segs ∧ ∃ head, s.space.segmentHead seg.headBlocknum = some head ∧
      slot < level1SlotsInUse head.nextents ∧ a = ⟨SEGMENT_HEAD_EXTENT_SIZE, MAIN_FORKNUM, head.level1Slots slot⟩ := by
  change (if seg ∈ s.segs then s.space.level0Addr seg slot else none) = some a at h
  split at h
  case isTrue hseg =>
    obtain ⟨head, hhead, h⟩ := Option.bind_eq_some_iff.mp h
    split at h
    case isTrue hslot => exact ⟨hseg, head, hhead, hslot, (Option.some_inj.mp h).symm⟩
    case isFalse => cases h
  case isFalse => cases h

/-- Only an extent in use has an address. -/
lemma MapState.addr_data_inv (h : s.addr (.data seg id) = some a) :
    seg ∈ s.segs ∧ ∃ head, s.space.segmentHead seg.headBlocknum = some head ∧ id < head.nextents ∧
      ∃ x, segExtentLocation s.space head id = some x ∧ a = ⟨extentSizeByCount id, seg.forknum, x⟩ := by
  change (if seg ∈ s.segs then s.space.dataAddr seg id else none) = some a at h
  split at h
  case isTrue hseg =>
    obtain ⟨head, hhead, h⟩ := Option.bind_eq_some_iff.mp h
    split at h
    case isTrue hid =>
      obtain ⟨x, hx, heq⟩ := Option.map_eq_some_iff.mp h
      exact ⟨hseg, head, hhead, hid, x, hx, heq.symm⟩
    case isFalse => cases h
  case isFalse => cases h

/-- A replaced extent is its own address. -/
lemma MapState.addr_replaced_inv {b : ExtentAddress} (h : s.addr (.replaced b) = some a) : b ∈ s.replaced ∧ a = b := by
  change (if b ∈ s.replaced then some b else none) = some a at h
  split at h
  case isTrue hb => exact ⟨hb, (Option.some_inj.mp h).symm⟩
  case isFalse => cases h

/-- The pages of a segment are its head and its level-0 pages. -/
def MapState.PageOf (s : MapState) (seg : SegmentDesc) (block : ℕ) : Prop :=
  s.addr (.segHead seg) = some ⟨SEGMENT_HEAD_EXTENT_SIZE, MAIN_FORKNUM, block⟩ ∨
    ∃ slot, s.addr (.level0Page seg slot) = some ⟨SEGMENT_HEAD_EXTENT_SIZE, MAIN_FORKNUM, block⟩

/-- A segment none of whose pages has changed reads the same. -/
lemma MapInv.segment_congr (h : MapInv s owner) (hseg : seg ∈ s.segs)
    (hpages : ∀ b, s.PageOf seg b → space'.segPages b = s.space.segPages b) :
    (∃ head, space'.segmentHead seg.headBlocknum = some head ∧ HeadOk space' head) ∧
    (∀ slot, space'.level0Addr seg slot = s.space.level0Addr seg slot) ∧
    ∀ id, space'.dataAddr seg id = s.space.dataAddr seg id := by
  obtain ⟨head, hhead, hok⟩ := h.heads seg hseg
  have hhead' : space'.segmentHead seg.headBlocknum = some head :=
    (segmentHead_congr (hpages _ (.inl (MapInv.addr_segHead hseg)))).trans hhead
  have hlevel0 : ∀ slot < level1SlotsInUse head.nextents,
      space'.level0Page (head.level1Slots slot) = s.space.level0Page (head.level1Slots slot) :=
    fun slot hslot => level0Page_congr (hpages _ (.inr ⟨slot, MapInv.addr_level0 hseg hhead hslot⟩))
  refine ⟨⟨head, hhead', hok.toOk, ?_⟩, ?_, ?_⟩
  · intro slot hslot
    rw [hlevel0 slot hslot]
    exact hok.level0 slot hslot
  · intro slot
    rw [level0Addr_eq hhead', level0Addr_eq hhead]
  · intro id
    rw [dataAddr_eq hhead', dataAddr_eq hhead]
    split
    case isTrue hid =>
      have hloc : segExtentLocation space' head id = segExtentLocation s.space head id :=
        segExtentLocation_congr hid rfl fun _ slot hslot _ => by rw [hlevel0 slot hslot]
      rw [hloc]
    case isFalse => rfl

/-- A page of a segment is an extent that the segment owns. -/
lemma MapInv.pageOf_owner (h : MapInv s owner) (hpage : s.PageOf seg block) :
    owner ⟨SEGMENT_HEAD_EXTENT_SIZE, MAIN_FORKNUM, block⟩ = some (.segHead seg) ∨
    ∃ slot, owner ⟨SEGMENT_HEAD_EXTENT_SIZE, MAIN_FORKNUM, block⟩ = some (.level0Page seg slot) := by
  rcases hpage with hhead | ⟨slot, hslot⟩
  · exact .inl (h.inv.ledger.owner_eq hhead)
  · exact .inr ⟨slot, h.inv.ledger.owner_eq hslot⟩

/-- A page that nobody owns is of no segment. -/
lemma MapInv.not_pageOf (h : MapInv s owner)
    (hnone : owner ⟨SEGMENT_HEAD_EXTENT_SIZE, MAIN_FORKNUM, block⟩ = none) : ¬ s.PageOf seg block := by
  intro hpage
  rcases h.pageOf_owner hpage with howner | ⟨slot, howner⟩ <;> rw [hnone] at howner <;> cases howner

/-- A page belongs to one segment. -/
lemma MapInv.pageOf_inj (h : MapInv s owner) {seg' : SegmentDesc} (hpage : s.PageOf seg block)
    (hpage' : s.PageOf seg' block) : seg = seg' := by
  rcases h.pageOf_owner hpage with howner | ⟨slot, howner⟩ <;>
    rcases h.pageOf_owner hpage' with howner' | ⟨slot', howner'⟩ <;> rw [howner] at howner' <;> cases howner' <;> rfl

end Read

/-! ## Changing one tree -/

/-- The tree of `seg` has changed, and `addr` tells what the trees refer to now. -/
structure TreeStep (s s' : MapState) (seg : SegmentDesc) (addr : ExtentUse → Option ExtentAddress) : Prop where
  segs : s'.segs = s.segs
  pages : ∀ v ∈ s.segs, v ≠ seg → ∀ b, s.PageOf v b → s'.space.segPages b = s.space.segPages b
  segHead : ∀ v, addr (.segHead v) = s.addr (.segHead v)
  others : ∀ v ≠ seg, (∀ slot, addr (.level0Page v slot) = s.addr (.level0Page v slot)) ∧
    ∀ id, addr (.data v id) = s.addr (.data v id)
  level0 : ∀ slot, addr (.level0Page seg slot) = s'.space.level0Addr seg slot
  data : ∀ id, addr (.data seg id) = s'.space.dataAddr seg id
  replaced : ∀ a, addr (.replaced a) = s'.addr (.replaced a)

section Tree

variable {s s' : MapState} {owner owner' : ExtentAddress → Option ExtentUse} {seg : SegmentDesc}
  {addr : ExtentUse → Option ExtentAddress} {head : SegmentHead} {id slot fuel : ℕ} {op : AtomicOp}

/-- The addresses after a step are those that it tells. -/
lemma TreeStep.addr_eq (h : MapInv s owner) (hseg : seg ∈ s.segs) (hstep : TreeStep s s' seg addr) :
    s'.addr = addr := by
  have hsame : ∀ v ∈ s.segs, v ≠ seg → (∀ slot, s'.space.level0Addr v slot = s.space.level0Addr v slot) ∧
      ∀ id, s'.space.dataAddr v id = s.space.dataAddr v id :=
    fun v hv hne => (h.segment_congr hv (hstep.pages v hv hne)).2
  funext u
  cases u with
  | segHead v =>
    rw [hstep.segHead]
    unfold MapState.addr
    rw [hstep.segs]
  | level0Page v slot =>
    change (if v ∈ s'.segs then s'.space.level0Addr v slot else none) = _
    rw [hstep.segs]
    by_cases hv : v = seg
    · subst hv
      rw [if_pos hseg, hstep.level0]
    · rw [(hstep.others v hv).1]
      change _ = if v ∈ s.segs then s.space.level0Addr v slot else none
      split
      case isTrue hmem => exact (hsame v hmem hv).1 slot
      case isFalse => rfl
  | data v id =>
    change (if v ∈ s'.segs then s'.space.dataAddr v id else none) = _
    rw [hstep.segs]
    by_cases hv : v = seg
    · subst hv
      rw [if_pos hseg, hstep.data]
    · rw [(hstep.others v hv).2]
      change _ = if v ∈ s.segs then s.space.dataAddr v id else none
      split
      case isTrue hmem => exact (hsame v hmem hv).2 id
      case isFalse => rfl
  | replaced a => exact (hstep.replaced a).symm

/-- The invariant after a step of one segment. -/
lemma MapInv.treeStep (h : MapInv s owner) (hseg : seg ∈ s.segs) (hstep : TreeStep s s' seg addr)
    (hinv : SpaceInv s'.space s.segs addr owner')
    (hhead : ∃ head, s'.space.segmentHead seg.headBlocknum = some head ∧ HeadOk s'.space head)
    (hsize : ∀ a ∈ s'.replaced, IsExtentSize a.size ∧ a.size ≠ SEGMENT_HEAD_EXTENT_SIZE) : MapInv s' owner' := by
  refine ⟨?_, ?_, hsize⟩
  · rw [hstep.segs, hstep.addr_eq h hseg]
    exact hinv
  · intro v hv
    rw [hstep.segs] at hv
    by_cases hne : v = seg
    · exact hne ▸ hhead
    · exact (h.segment_congr hv (hstep.pages v hv hne)).1

/-- The addresses of data after the last extent was added. -/
lemma dataAddr_add {space space' : SegSpace} {head' : SegmentHead} {x : ℕ}
    (hhead : space.segmentHead seg.headBlocknum = some head)
    (hhead' : space'.segmentHead seg.headBlocknum = some head') (hn : head'.nextents = head.nextents + 1)
    (hold : ∀ id < head.nextents, segExtentLocation space' head' id = segExtentLocation space head id)
    (hnew : segExtentLocation space' head' head.nextents = some x) (id : ℕ) :
    space'.dataAddr seg id = if id = head.nextents then some ⟨extentSizeByCount id, seg.forknum, x⟩
      else space.dataAddr seg id := by
  rw [dataAddr_eq hhead', dataAddr_eq hhead, hn]
  rcases Nat.lt_trichotomy id head.nextents with hlt | rfl | hgt
  · rw [if_pos (by omega), if_neg hlt.ne, if_pos hlt, hold id hlt]
  · rw [if_pos (Nat.lt_succ_self _), if_pos rfl, hnew]
    rfl
  · rw [if_neg (by omega), if_neg (by omega), if_neg (by omega)]

end Tree

end GaussKernel.Segment
