import GaussKernel.Freespace.FsmPage

/-!
# The free space map of a relation

Model of `freespace.cpp`: pages in a tree of three levels, kept in the file in depth-first order. An upper page has the
root of each child in a slot, but only lazily: recording the space of a block leaves the upper pages as they are, and
the search mends what it finds wrong. The file is the list of its pages; the cached size, the extension lock and
segment storage are left out, and every operation runs by itself.
-/

namespace GaussKernel.Freespace

open Lib Lib.MaxTree
open Function (update update_self update_of_ne)

abbrev blcksz : Nat := 8192

abbrev fsmCatStep : Nat := 32

/-- `MaxHeapTupleSize` -/
abbrev maxFSMRequestSize : Nat := 8144

abbrev slotsPerFSMPage : Nat := 4069

abbrev fsmTreeDepth : Nat := 3

abbrev fsmRootLevel : Nat := 2

abbrev fsmBottomLevel : Nat := 0

/-! ## Categories -/

def fsmSpaceAvailToCat (avail : Nat) : Nat :=
  if maxFSMRequestSize ≤ avail then 255 else if 254 < avail / fsmCatStep then 254 else avail / fsmCatStep

/-- `none` for the error of a request that no page can have. -/
def fsmSpaceNeededToCat (needed : Nat) : Option Nat :=
  if maxFSMRequestSize < needed then none
  else if needed = 0 then some 1
  else some (if 255 < (needed + fsmCatStep - 1) / fsmCatStep then 255 else (needed + fsmCatStep - 1) / fsmCatStep)

/-! ## Addresses -/

structure FSMAddress where
  level : Nat
  logpageno : Nat
  deriving DecidableEq

def fsmRootAddress : FSMAddress := ⟨fsmRootLevel, 0⟩

/-- The loop of `fsm_logical_to_physical` over the levels -/
def countPages : (levels leafno : Nat) → Nat
  | 0, _ => 0
  | levels + 1, leafno => leafno + 1 + countPages levels (leafno / slotsPerFSMPage)

def fsmLogicalToPhysical (addr : FSMAddress) : Nat :=
  countPages fsmTreeDepth (addr.logpageno * slotsPerFSMPage ^ addr.level) - addr.level - 1

def fsmGetLocation (heapblk : Nat) : FSMAddress × Nat :=
  (⟨fsmBottomLevel, heapblk / slotsPerFSMPage⟩, heapblk % slotsPerFSMPage)

/-- A `BlockNumber` has 32 bits; the last bottom page has slots beyond. -/
def fsmGetHeapBlk (addr : FSMAddress) (slot : Nat) : Nat := (addr.logpageno * slotsPerFSMPage + slot) % 2 ^ 32

def fsmGetParent (child : FSMAddress) : FSMAddress × Nat :=
  (⟨child.level + 1, child.logpageno / slotsPerFSMPage⟩, child.logpageno % slotsPerFSMPage)

def fsmGetChild (parent : FSMAddress) (slot : Nat) : FSMAddress :=
  ⟨parent.level - 1, parent.logpageno * slotsPerFSMPage + slot⟩

def fsmGetLastblckno (addr : FSMAddress) : Nat := fsmGetHeapBlk addr (slotsPerFSMPage - 1)

/-! ## The file -/

/-- The pages of the file -/
abbrev Fork := List FSMPage

def fsmExtend (fork : Fork) (fsmNblocks : Nat) : Fork := fork ++ List.replicate (fsmNblocks - fork.length) zeroPage

/-- The page that is there, or the empty one -/
def pageAt (fork : Fork) (blkno : Nat) : FSMPage := fork.getD blkno zeroPage

/-- `fsm_set_and_search`. The page is added to the file if it is not there. -/
def fsmSetAndSearch (fork : Fork) (addr : FSMAddress) (slot newValue minValue : Nat) (search : Bool) :
    Option Nat × Fork :=
  let blkno := fsmLogicalToPhysical addr
  let fork := fsmExtend fork (blkno + 1)
  let page := (fsmSetAvail (pageAt fork blkno) slot newValue).2
  if minValue ≠ 0 ∧ search = true then
    let r := searchAvail minValue (decide (addr.level = fsmBottomLevel)) page
    (r.1, fork.set blkno r.2)
  else (none, fork.set blkno page)

/-! ## Search -/

/-- The search within a page of `fsm_search`: the slot, the root if there is none, and the file -/
def searchPage (fork : Fork) (addr : FSMAddress) (minCat : Nat) : Option Nat × Nat × Fork :=
  let blkno := fsmLogicalToPhysical addr
  if blkno < fork.length then
    let r := searchAvail minCat (decide (addr.level = fsmBottomLevel)) (pageAt fork blkno)
    (r.1, fsmGetMaxAvail r.2, fork.set blkno r.2)
  else (none, 0, fork)

/-- The loop of `fsm_search`; `none` if the fuel ends. -/
def searchLoop (minCat : Nat) : (fuel : Nat) → Fork → FSMAddress → (restarts : Nat) → Option (Option Nat × Fork)
  | 0, _, _, _ => none
  | fuel + 1, fork, addr, restarts =>
    let r := searchPage fork addr minCat
    match r.1 with
    | some slot =>
      if addr.level = fsmBottomLevel then some (some (fsmGetHeapBlk addr slot), r.2.2)
      else searchLoop minCat fuel r.2.2 (fsmGetChild addr slot) restarts
    | none =>
      if addr.level = fsmRootLevel then some (none, r.2.2)
      else
        let parent := fsmGetParent addr
        let fork := (fsmSetAndSearch r.2.2 parent.1 parent.2 r.2.1 0 true).2
        if 10000 < restarts then some (none, fork) else searchLoop minCat fuel fork fsmRootAddress (restarts + 1)

/-- What the loop needs at most, three pages for each start -/
def searchFuel : Nat := 3 * 10003

/-- `fsm_search` -/
def fsmSearch (fork : Fork) (minCat : Nat) : Option Nat × Fork :=
  (searchLoop minCat searchFuel fork fsmRootAddress 0).getD (none, fork)

/-! ## Vacuum -/

/-- The loop of `fsm_vacuum_page` over the slots of a page -/
def vacuumSlots (child : (slot : Nat) → Fork → Option Nat × Fork) (blkno : Nat) :
    (n slot : Nat) → (eof : Bool) → Fork → Fork
  | 0, _, _, fork => fork
  | n + 1, slot, eof, fork =>
    let r := if eof then (none, fork) else child slot fork
    let childAvail := r.1.getD 0
    let page := pageAt r.2 blkno
    let fork :=
      if fsmGetAvail page slot ≠ childAvail then r.2.set blkno (fsmSetAvail page slot childAvail).2 else r.2
    vacuumSlots child blkno n (slot + 1) r.1.isNone fork

/-- `fsm_vacuum_page`: the root of the page, `none` for the end of the file -/
def fsmVacuumPage : (level logpageno : Nat) → Fork → Option Nat × Fork
  | 0, logpageno, fork =>
    let blkno := fsmLogicalToPhysical ⟨0, logpageno⟩
    if fork.length ≤ blkno then (none, fork)
    else (some (fsmGetMaxAvail (pageAt fork blkno)), fork.set blkno { pageAt fork blkno with fpNextSlot := 0 })
  | level + 1, logpageno, fork =>
    let blkno := fsmLogicalToPhysical ⟨level + 1, logpageno⟩
    if fork.length ≤ blkno then (none, fork)
    else
      let fork := vacuumSlots
        (fun slot fork => fsmVacuumPage level (fsmGetChild ⟨level + 1, logpageno⟩ slot).logpageno fork) blkno
        slotsPerFSMPage 0 false fork
      (some (fsmGetMaxAvail (pageAt fork blkno)), fork.set blkno { pageAt fork blkno with fpNextSlot := 0 })

def freeSpaceMapVacuum (fork : Fork) : Fork := (fsmVacuumPage fsmRootLevel 0 fork).2

/-! ## The other operations -/

/-- `GetPageWithFreeSpace`; the outer `none` is the error of a request that is too large. -/
def getPageWithFreeSpace (fork : Fork) (spaceNeeded : Nat) : Option (Option Nat × Fork) :=
  (fsmSpaceNeededToCat spaceNeeded).map (fsmSearch fork)

def recordAndGetPageWithFreeSpace (fork : Fork) (oldPage oldSpaceAvail spaceNeeded : Nat) :
    Option (Option Nat × Fork) :=
  (fsmSpaceNeededToCat spaceNeeded).map fun searchCat =>
    let location := fsmGetLocation oldPage
    let r := fsmSetAndSearch fork location.1 location.2 (fsmSpaceAvailToCat oldSpaceAvail) searchCat true
    match r.1 with
    | some slot => (some (fsmGetHeapBlk location.1 slot), r.2)
    | none => fsmSearch r.2 searchCat

def recordPageWithFreeSpace (fork : Fork) (heapBlk spaceAvail : Nat) : Fork :=
  let location := fsmGetLocation heapBlk
  (fsmSetAndSearch fork location.1 location.2 (fsmSpaceAvailToCat spaceAvail) 0 true).2

/-- `fsm_update_recursive`, by the levels above -/
def fsmUpdateRecursive (newCat : Nat) : (levels : Nat) → FSMAddress → Fork → Fork
  | 0, _, fork => fork
  | levels + 1, addr, fork =>
    let parent := fsmGetParent addr
    fsmUpdateRecursive newCat levels parent.1 (fsmSetAndSearch fork parent.1 parent.2 newCat 0 true).2

/-- The loop of `UpdateFreeSpaceMap` for at most `fuel` rounds: the map, and whether the loop has ended -/
def updateLoop (endBlkNum newCat : Nat) : (fuel blockNum : Nat) → Fork → Fork × Bool
  | 0, _, fork => (fork, false)
  | fuel + 1, blockNum, fork =>
    if blockNum ≤ endBlkNum then
      let addr := (fsmGetLocation blockNum).1
      let fork := fsmUpdateRecursive newCat (fsmRootLevel - addr.level) addr fork
      if endBlkNum ≤ fsmGetLastblckno addr then (fork, true)
      else updateLoop endBlkNum newCat fuel ((fsmGetLastblckno addr + 1) % 2 ^ 32) fork
    else (fork, true)

/-- The first heap block of the last bottom page that block numbers reach -/
abbrev lastPageBlk : Nat := 1055533 * slotsPerFSMPage

/-- A round for each bottom page; a loop that takes more does not end (`updateLoop_ends_iff`). -/
abbrev updateFuel : Nat := 1055535

def updateFreeSpaceMap (startBlkNum endBlkNum freespace : Nat) (fork : Fork) : Fork :=
  (updateLoop endBlkNum (fsmSpaceAvailToCat freespace) updateFuel startBlkNum fork).1

def freeSpaceMapTruncateRel (fork : Fork) (nblocks : Nat) : Fork :=
  let location := fsmGetLocation nblocks
  let blkno := fsmLogicalToPhysical location.1
  if fork.length ≤ blkno then fork
  else if 0 < location.2 then
    (fork.set blkno (fsmTruncateAvail (pageAt fork blkno) location.2).2).take (blkno + 1)
  else fork.take blkno

/-! ## Layout -/

section layout

variable {l p q slot blk : Nat}

/-- The addresses under the root -/
def FSMAddress.InTree (addr : FSMAddress) : Prop :=
  addr.level = 2 ∧ addr.logpageno = 0 ∨ addr.level = 1 ∧ addr.logpageno < slotsPerFSMPage ∨
    addr.level = 0 ∧ addr.logpageno < slotsPerFSMPage * slotsPerFSMPage

lemma physical_root : fsmLogicalToPhysical fsmRootAddress = 0 := by decide

lemma physical_middle (hp : p < slotsPerFSMPage) : fsmLogicalToPhysical ⟨1, p⟩ = 1 + p * (slotsPerFSMPage + 1) := by
  have hsmall : p / slotsPerFSMPage = 0 := Nat.div_eq_of_lt hp
  simp only [fsmLogicalToPhysical, countPages, pow_one,
    Nat.mul_div_cancel p (by decide : 0 < slotsPerFSMPage), hsmall]
  simp only [slotsPerFSMPage]
  omega

lemma physical_bottom (hq : q < slotsPerFSMPage * slotsPerFSMPage) :
    fsmLogicalToPhysical ⟨0, q⟩ = 2 + q / slotsPerFSMPage * (slotsPerFSMPage + 1) + q % slotsPerFSMPage := by
  have hsmall : q / slotsPerFSMPage / slotsPerFSMPage = 0 :=
    Nat.div_eq_of_lt (Nat.div_lt_of_lt_mul hq)
  simp only [fsmLogicalToPhysical, countPages, pow_zero, Nat.mul_one, hsmall]
  simp only [slotsPerFSMPage]
  omega

/-- The number of pages of a subtree -/
def subtreePages : (level : Nat) → Nat
  | 0 => 1
  | level + 1 => 1 + slotsPerFSMPage * subtreePages level

lemma subtreePages_eq : subtreePages 0 = 1 ∧ subtreePages 1 = 4070 ∧ subtreePages 2 = 16560831 := by decide

/-- The children of a page follow it, one subtree after the other. -/
lemma physical_child (hin : FSMAddress.InTree ⟨l + 1, p⟩) (hslot : slot < slotsPerFSMPage) :
    FSMAddress.InTree (fsmGetChild ⟨l + 1, p⟩ slot) ∧
      fsmLogicalToPhysical (fsmGetChild ⟨l + 1, p⟩ slot) =
        fsmLogicalToPhysical ⟨l + 1, p⟩ + 1 + slot * subtreePages l := by
  obtain ⟨hsize0, hsize1, -⟩ := subtreePages_eq
  rcases hin with ⟨hl, hp⟩ | ⟨hl, hp⟩ | ⟨hl, -⟩
  · obtain rfl : l = 1 := by
      simp only at hl
      omega
    obtain rfl : p = 0 := hp
    refine ⟨.inr (.inl ⟨rfl, by simpa [fsmGetChild] using hslot⟩), ?_⟩
    rw [show (⟨1 + 1, 0⟩ : FSMAddress) = fsmRootAddress from rfl, physical_root, hsize1, fsmGetChild]
    rw [show fsmRootAddress.level - 1 = 1 from rfl, show fsmRootAddress.logpageno = 0 from rfl, Nat.zero_mul,
      Nat.zero_add, physical_middle hslot]
  · obtain rfl : l = 0 := by
      simp only at hl
      omega
    simp only at hp
    have hdiv : (p * slotsPerFSMPage + slot) / slotsPerFSMPage = p := by
      rw [Nat.mul_comm, Nat.mul_add_div (by decide), Nat.div_eq_of_lt hslot, Nat.add_zero]
    have hmod : (p * slotsPerFSMPage + slot) % slotsPerFSMPage = slot := by
      rw [Nat.mul_comm, Nat.mul_add_mod, Nat.mod_eq_of_lt hslot]
    have hq : p * slotsPerFSMPage + slot < slotsPerFSMPage * slotsPerFSMPage := by
      simp only [slotsPerFSMPage] at hp hslot ⊢
      omega
    refine ⟨.inr (.inr ⟨rfl, hq⟩), ?_⟩
    rw [hsize0, fsmGetChild]
    simp only
    rw [physical_bottom hq, hdiv, hmod, physical_middle hp]
    ring
  · exact absurd hl (Nat.succ_ne_zero l)

lemma physical_inj {a b : FSMAddress} (ha : a.InTree) (hb : b.InTree)
    (h : fsmLogicalToPhysical a = fsmLogicalToPhysical b) : a = b := by
  obtain ⟨l, p⟩ := a
  obtain ⟨l', p'⟩ := b
  simp only [FSMAddress.InTree] at ha hb
  rw [FSMAddress.mk.injEq]
  -- the place of each kind of address, as a number
  have hplace : ∀ l p, FSMAddress.InTree ⟨l, p⟩ → (l = 2 ∧ p = 0 ∧ fsmLogicalToPhysical ⟨l, p⟩ = 0) ∨
      (l = 1 ∧ fsmLogicalToPhysical ⟨l, p⟩ = 1 + p * 4070) ∨
      (l = 0 ∧ fsmLogicalToPhysical ⟨l, p⟩ = 2 + p / 4069 * 4070 + p % 4069) := by
    rintro l p (⟨rfl, rfl⟩ | ⟨rfl, hp⟩ | ⟨rfl, hp⟩)
    · exact .inl ⟨rfl, rfl, physical_root⟩
    · exact .inr (.inl ⟨rfl, physical_middle hp⟩)
    · exact .inr (.inr ⟨rfl, physical_bottom hp⟩)
  have ha' := hplace l p ha
  have hb' := hplace l' p' hb
  rw [h] at ha'
  omega

/-- Pages of one level come in the order of their numbers. -/
lemma physical_bottom_lt {a b : Nat} (ha : a < slotsPerFSMPage * slotsPerFSMPage)
    (hb : b < slotsPerFSMPage * slotsPerFSMPage) :
    fsmLogicalToPhysical ⟨0, a⟩ < fsmLogicalToPhysical ⟨0, b⟩ ↔ a < b := by
  rw [physical_bottom ha, physical_bottom hb]
  simp only [slotsPerFSMPage]
  omega

end layout

/-! ## What is in the file -/

section content

variable {fork : Fork} {blk blk' n : Nat} {page : FSMPage} {addr : FSMAddress}

lemma pageAt_set (hblk : blk < fork.length) : pageAt (fork.set blk page) = update (pageAt fork) blk page := by
  funext i
  by_cases hi : i = blk
  · rw [hi, update_self, pageAt, List.getD_eq_getElem?_getD, List.getElem?_set_self hblk]
    rfl
  · rw [update_of_ne hi, pageAt, pageAt, List.getD_eq_getElem?_getD, List.getD_eq_getElem?_getD,
      List.getElem?_set_ne (Ne.symm hi)]

lemma pageAt_length (h : fork.length ≤ blk) : pageAt fork blk = zeroPage := by
  rw [pageAt, List.getD_eq_default _ _ h]

/-- New pages are empty, as pages that are not there. -/
@[simp] lemma pageAt_extend (fork : Fork) (n : Nat) : pageAt (fsmExtend fork n) = pageAt fork := by
  funext i
  rcases lt_or_ge i fork.length with hi | hi
  · rw [pageAt, pageAt, fsmExtend, List.getD_append _ _ _ _ hi]
  · rw [pageAt, fsmExtend, List.getD_append_right _ _ _ _ hi, pageAt_length hi]
    rcases lt_or_ge (i - fork.length) (n - fork.length) with hj | hj
    · exact List.getD_replicate _ hj
    · rw [List.getD_eq_default _ _ (by rwa [List.length_replicate])]

lemma lt_length_extend (fork : Fork) (n : Nat) : n < (fsmExtend fork (n + 1)).length := by
  rw [fsmExtend, List.length_append, List.length_replicate]
  omega

lemma pageAt_take : pageAt (fork.take n) blk = if blk < n then pageAt fork blk else zeroPage := by
  rw [pageAt, List.getD_eq_getElem?_getD, List.getElem?_take]
  split
  · rw [← List.getD_eq_getElem?_getD, pageAt]
  · rfl

/-- The trees of all pages are valid. -/
def ForkValid (fork : Fork) : Prop := ∀ blk, (pageAt fork blk).Valid

/-- The category of a heap block -/
def catOf (fork : Fork) (heapBlk : Nat) : Nat :=
  fsmGetAvail (pageAt fork (fsmLogicalToPhysical (fsmGetLocation heapBlk).1)) (fsmGetLocation heapBlk).2

/-- The heap blocks that the tree has a slot for; all block numbers are. -/
def heapBlocks : Nat := slotsPerFSMPage * slotsPerFSMPage * slotsPerFSMPage

lemma blockNumber_lt (h : blk < 2 ^ 32) : blk < heapBlocks := by
  rw [heapBlocks]
  simp only [slotsPerFSMPage]
  omega

lemma logpageno_lt (h : blk < heapBlocks) : blk / slotsPerFSMPage < slotsPerFSMPage * slotsPerFSMPage :=
  Nat.div_lt_of_lt_mul (by rwa [heapBlocks, Nat.mul_comm] at h)

lemma location_inTree (h : blk < heapBlocks) : (fsmGetLocation blk).1.InTree := .inr (.inr ⟨rfl, logpageno_lt h⟩)

lemma location_slot (blk : Nat) : (fsmGetLocation blk).2 < leafNodesPerPage := Nat.mod_lt _ (by decide)

/-- The heap block of a slot before it is cut to 32 bits -/
def slotBlk (addr : FSMAddress) (slot : Nat) : Nat := addr.logpageno * slotsPerFSMPage + slot

lemma heapBlk_eq (addr : FSMAddress) (slot : Nat) : fsmGetHeapBlk addr slot = slotBlk addr slot % 2 ^ 32 := rfl

lemma slotBlk_location (blk : Nat) : slotBlk (fsmGetLocation blk).1 (fsmGetLocation blk).2 = blk := by
  rw [slotBlk, fsmGetLocation, Nat.mul_comm]
  exact Nat.div_add_mod _ _

lemma location_slotBlk {slot : Nat} (hlevel : addr.level = 0) (hslot : slot < slotsPerFSMPage) :
    fsmGetLocation (slotBlk addr slot) = (addr, slot) := by
  obtain ⟨l, p⟩ := addr
  obtain rfl : l = 0 := hlevel
  rw [fsmGetLocation, slotBlk, Nat.mul_comm]
  rw [Nat.mul_add_div (by decide), Nat.div_eq_of_lt hslot, Nat.mul_add_mod, Nat.mod_eq_of_lt hslot]
  rfl

lemma slotBlk_lt {slot : Nat} (hin : addr.InTree) (hlevel : addr.level = 0) (hslot : slot < slotsPerFSMPage) :
    slotBlk addr slot < heapBlocks := by
  have hp : addr.logpageno < slotsPerFSMPage * slotsPerFSMPage := by
    rcases hin with ⟨hl, -⟩ | ⟨hl, -⟩ | ⟨-, hp⟩
    · cases hlevel.symm.trans hl
    · cases hlevel.symm.trans hl
    · exact hp
  rw [slotBlk, heapBlocks]
  simp only [slotsPerFSMPage] at hp hslot ⊢
  omega

/-- A slot is found again from its heap block unless the number is cut. -/
lemma location_heapBlk_iff {slot : Nat} (hlevel : addr.level = 0) (hslot : slot < slotsPerFSMPage) :
    fsmGetLocation (fsmGetHeapBlk addr slot) = (addr, slot) ↔ slotBlk addr slot < 2 ^ 32 := by
  constructor
  · intro hloc
    have hcut : slotBlk addr slot = slotBlk addr slot % 2 ^ 32 := by
      have hback := slotBlk_location (fsmGetHeapBlk addr slot)
      rw [hloc] at hback
      exact hback
    rw [hcut]
    exact Nat.mod_lt _ (by decide)
  · intro hlt
    rw [heapBlk_eq, Nat.mod_eq_of_lt hlt]
    exact location_slotBlk hlevel hslot

/-- The pages after one page has changed -/
def OnePage (fork fork' : Fork) (addr : FSMAddress) (page : FSMPage) : Prop :=
  pageAt fork' = update (pageAt fork) (fsmLogicalToPhysical addr) page

variable {fork' : Fork}

lemma OnePage.valid (h : OnePage fork fork' addr page) (hvalid : ForkValid fork) (hpage : page.Valid) :
    ForkValid fork' := by
  intro blk
  rw [show pageAt fork' = _ from h]
  by_cases hblk : blk = fsmLogicalToPhysical addr
  · rwa [hblk, update_self]
  · rw [update_of_ne hblk]
    exact hvalid blk

/-- An upper page has no heap block. -/
lemma OnePage.catOf_upper (h : OnePage fork fork' addr page) (hin : addr.InTree) (hupper : addr.level ≠ 0)
    (hblk : blk < heapBlocks) : catOf fork' blk = catOf fork blk := by
  rw [catOf, show pageAt fork' = _ from h, update_of_ne, catOf]
  intro hplace
  exact hupper (congrArg FSMAddress.level (physical_inj (location_inTree hblk) hin hplace)).symm

/-- A bottom page has the heap blocks of its slots. -/
lemma OnePage.catOf_bottom (h : OnePage fork fork' addr page) (hin : addr.InTree) (hblk : blk < heapBlocks) :
    catOf fork' blk =
      if (fsmGetLocation blk).1 = addr then fsmGetAvail page (fsmGetLocation blk).2 else catOf fork blk := by
  rw [catOf, show pageAt fork' = _ from h]
  split
  case isTrue hsame => rw [hsame, update_self]
  case isFalse hother =>
    rw [update_of_ne, catOf]
    exact fun hplace => hother (physical_inj (location_inTree hblk) hin hplace)

/-- The slot gets the value, and what is found in the page has enough. -/
lemma setAndSearch_spec (hvalid : ForkValid fork) (addr : FSMAddress) {slot newValue minValue : Nat}
    (hslot : slot < leafNodesPerPage) {search : Bool} {r : Option Nat × Fork}
    (hr : r = fsmSetAndSearch fork addr slot newValue minValue search) :
    ∃ page, OnePage fork r.2 addr page ∧ page.Valid ∧
      fsmGetAvail page = update (fsmGetAvail (pageAt fork (fsmLogicalToPhysical addr))) slot newValue ∧
      ∀ s, r.1 = some s → s < leafNodesPerPage ∧ minValue ≤ fsmGetAvail page s := by
  have hset := fsmSetAvail_valid (hvalid (fsmLogicalToPhysical addr)) hslot newValue
  have havail := fsmSetAvail_avail hslot (pageAt fork (fsmLogicalToPhysical addr)) newValue
  have hlen := lt_length_extend fork (fsmLogicalToPhysical addr)
  rw [fsmSetAndSearch] at hr
  dsimp only at hr
  rw [pageAt_extend] at hr
  split at hr
  case isTrue =>
    rcases searchAvail_valid hset minValue (decide (addr.level = fsmBottomLevel)) with
      ⟨hnone, -⟩ | ⟨s, next, hsome, hfirst⟩
    · rw [hnone] at hr
      subst hr
      exact ⟨_, by rw [OnePage, pageAt_set hlen, pageAt_extend], hset, havail, nofun⟩
    · rw [hsome] at hr
      subst hr
      refine ⟨{ (fsmSetAvail (pageAt fork (fsmLogicalToPhysical addr)) slot newValue).2 with fpNextSlot := next },
        by rw [OnePage, pageAt_set hlen, pageAt_extend], hset, havail, fun s' hs' => ?_⟩
      rw [← Option.some_inj.mp hs']
      exact ⟨hfirst.1, hfirst.2.1⟩
  case isFalse =>
    subst hr
    exact ⟨_, by rw [OnePage, pageAt_set hlen, pageAt_extend], hset, havail, nofun⟩

/-- A page that has the space itself is found. -/
lemma setAndSearch_found (hvalid : ForkValid fork) (addr : FSMAddress) {slot newValue minValue : Nat}
    (hslot : slot < leafNodesPerPage) (hmin : 0 < minValue) (hle : minValue ≤ newValue) :
    ∃ s, (fsmSetAndSearch fork addr slot newValue minValue true).1 = some s := by
  have hset := fsmSetAvail_valid (hvalid (fsmLogicalToPhysical addr)) hslot newValue
  rw [fsmSetAndSearch]
  dsimp only
  rw [pageAt_extend, if_pos ⟨hmin.ne', rfl⟩]
  rcases searchAvail_valid hset minValue (decide (addr.level = fsmBottomLevel)) with ⟨-, hroot⟩ | ⟨s, next, hsome, -⟩
  · exact absurd hroot (not_lt.mpr (hle.trans (le_fsmSetAvail hslot _ _)))
  · rw [hsome]
    exact ⟨s, rfl⟩

/-- The search of a page changes no category. -/
lemma searchPage_spec (hvalid : ForkValid fork) {minCat : Nat} (hmin : 0 < minCat)
    {r : Option Nat × Nat × Fork} (hr : r = searchPage fork addr minCat) :
    ForkValid r.2.2 ∧ (∀ blk, fsmGetAvail (pageAt r.2.2 blk) = fsmGetAvail (pageAt fork blk)) ∧
      (∀ blk, fsmGetMaxAvail (pageAt r.2.2 blk) = fsmGetMaxAvail (pageAt fork blk)) ∧
      (r.1 = none ∧ fsmGetMaxAvail (pageAt fork (fsmLogicalToPhysical addr)) < minCat ∨
        ∃ slot, r.1 = some slot ∧ slot < leafNodesPerPage ∧
          minCat ≤ fsmGetAvail (pageAt fork (fsmLogicalToPhysical addr)) slot) := by
  rw [searchPage] at hr
  dsimp only at hr
  split at hr
  case isTrue hlen =>
    have hpage := hvalid (fsmLogicalToPhysical addr)
    -- a page with another next slot has the same nodes
    have hnodes : ∀ next : Int, ∀ blk, (pageAt (fork.set (fsmLogicalToPhysical addr)
        { pageAt fork (fsmLogicalToPhysical addr) with fpNextSlot := next }) blk).fpNodes =
          (pageAt fork blk).fpNodes := by
      intro next blk
      rw [pageAt_set hlen]
      by_cases hblk : blk = fsmLogicalToPhysical addr
      · rw [hblk, update_self]
      · rw [update_of_ne hblk]
    rcases searchAvail_valid hpage minCat (decide (addr.level = fsmBottomLevel)) with
      ⟨hnone, hroot⟩ | ⟨s, next, hsome, hfirst⟩
    · rw [hnone] at hr
      subst hr
      have hsame := hnodes (pageAt fork (fsmLogicalToPhysical addr)).fpNextSlot
      refine ⟨fun blk => ?_, fun blk => ?_, fun blk => ?_, .inl ⟨rfl, hroot⟩⟩
      · rw [FSMPage.Valid, hsame blk]
        exact hvalid blk
      · funext slot
        rw [fsmGetAvail, hsame blk, fsmGetAvail]
      · rw [fsmGetMaxAvail, hsame blk, fsmGetMaxAvail]
    · rw [hsome] at hr
      subst hr
      refine ⟨fun blk => ?_, fun blk => ?_, fun blk => ?_, .inr ⟨s, rfl, hfirst.1, hfirst.2.1⟩⟩
      · rw [FSMPage.Valid, hnodes next blk]
        exact hvalid blk
      · funext slot
        rw [fsmGetAvail, hnodes next blk, fsmGetAvail]
      · rw [fsmGetMaxAvail, hnodes next blk, fsmGetMaxAvail]
  case isFalse hlen =>
    subst hr
    refine ⟨hvalid, fun _ => rfl, fun _ => rfl, .inl ⟨rfl, ?_⟩⟩
    rw [pageAt_length (not_lt.mp hlen)]
    exact hmin

end content

/-! ## The search -/

section search

variable {fork : Fork} {addr : FSMAddress} {minCat : Nat}

lemma child_inTree (hin : addr.InTree) (hupper : addr.level ≠ fsmBottomLevel) {slot : Nat}
    (hslot : slot < leafNodesPerPage) :
    (fsmGetChild addr slot).InTree ∧ (fsmGetChild addr slot).level + 1 = addr.level := by
  obtain ⟨l, p⟩ := addr
  obtain ⟨l, rfl⟩ := Nat.exists_eq_succ_of_ne_zero hupper
  exact ⟨(physical_child hin hslot).1, rfl⟩

lemma parent_inTree (hin : addr.InTree) (hlow : addr.level ≠ fsmRootLevel) :
    (fsmGetParent addr).1.InTree ∧ (fsmGetParent addr).1.level = addr.level + 1 ∧
      (fsmGetParent addr).2 < leafNodesPerPage := by
  refine ⟨?_, rfl, Nat.mod_lt _ (by decide)⟩
  rcases hin with ⟨hl, -⟩ | ⟨hl, hp⟩ | ⟨hl, hp⟩
  · exact absurd hl hlow
  · exact .inl ⟨by rw [fsmGetParent, hl], Nat.div_eq_of_lt hp⟩
  · exact .inr (.inl ⟨by rw [fsmGetParent, hl], Nat.div_lt_of_lt_mul hp⟩)

/-- Whatever is in the upper pages, the loop ends, changes no category of a heap block, and finds a block only if the
category of its slot is high enough. -/
lemma searchLoop_spec (hvalid : ForkValid fork) (hin : addr.InTree) (hmin : 0 < minCat) {fuel restarts : Nat}
    (hrestarts : restarts ≤ 10001) (hfuel : (10001 - restarts) * 3 + addr.level + 1 ≤ fuel) :
    ∃ r, searchLoop minCat fuel fork addr restarts = some r ∧ ForkValid r.2 ∧
      (∀ blk < heapBlocks, catOf r.2 blk = catOf fork blk) ∧
      ∀ blk, r.1 = some blk → ∃ n < heapBlocks, blk = n % 2 ^ 32 ∧ minCat ≤ catOf fork n := by
  induction fuel generalizing fork addr restarts with
  | zero => omega
  | succ fuel ih =>
    obtain ⟨hvalid', havail, -, hfound⟩ := searchPage_spec hvalid hmin rfl
    have hcat : ∀ blk < heapBlocks, catOf (searchPage fork addr minCat).2.2 blk = catOf fork blk := by
      intro blk _
      rw [catOf, havail, catOf]
    rw [searchLoop]
    dsimp only
    rcases hfound with ⟨hnone, -⟩ | ⟨slot, hsome, hslot, henough⟩
    · rw [hnone]
      dsimp only
      split
      case isTrue => exact ⟨_, rfl, hvalid', hcat, nofun⟩
      case isFalse hlow =>
        obtain ⟨hparent, hlevel, hpslot⟩ := parent_inTree hin hlow
        obtain ⟨page, hone, hpage, -, -⟩ := setAndSearch_spec hvalid' (fsmGetParent addr).1 hpslot rfl
        have hcat' : ∀ blk < heapBlocks, catOf (fsmSetAndSearch (searchPage fork addr minCat).2.2 (fsmGetParent addr).1
            (fsmGetParent addr).2 (searchPage fork addr minCat).2.1 0 true).2 blk = catOf fork blk := by
          intro blk hblk
          rw [hone.catOf_upper hparent (by omega) hblk, hcat blk hblk]
        split
        case isTrue => exact ⟨_, rfl, hone.valid hvalid' hpage, hcat', nofun⟩
        case isFalse hmore =>
          have hroot : fsmRootAddress.InTree := .inl ⟨rfl, rfl⟩
          obtain ⟨r, hr, hrvalid, hrcat, hrfound⟩ := ih (hone.valid hvalid' hpage) hroot
            (show restarts + 1 ≤ 10001 by omega) (by rw [show fsmRootAddress.level = 2 from rfl]; omega)
          refine ⟨r, hr, hrvalid, fun blk hblk => (hrcat blk hblk).trans (hcat' blk hblk), fun blk hblk => ?_⟩
          obtain ⟨n, hlt, heq, hle⟩ := hrfound blk hblk
          exact ⟨n, hlt, heq, hcat' n hlt ▸ hle⟩
    · rw [hsome]
      dsimp only
      split
      case isTrue hbottom =>
        refine ⟨_, rfl, hvalid', hcat, fun blk hblk => ?_⟩
        obtain rfl := Option.some_inj.mp hblk
        refine ⟨slotBlk addr slot, slotBlk_lt hin hbottom hslot, rfl, ?_⟩
        rw [catOf, location_slotBlk hbottom hslot]
        exact henough
      case isFalse hupper =>
        obtain ⟨hchild, hlevel⟩ := child_inTree hin hupper hslot
        obtain ⟨r, hr, hrvalid, hrcat, hrfound⟩ := ih hvalid' hchild hrestarts (by omega)
        refine ⟨r, hr, hrvalid, fun blk hblk => (hrcat blk hblk).trans (hcat blk hblk), fun blk hblk => ?_⟩
        obtain ⟨n, hlt, heq, hle⟩ := hrfound blk hblk
        exact ⟨n, hlt, heq, hcat n hlt ▸ hle⟩

lemma fsmSearch_spec (hvalid : ForkValid fork) (hmin : 0 < minCat) :
    ForkValid (fsmSearch fork minCat).2 ∧
      (∀ blk < heapBlocks, catOf (fsmSearch fork minCat).2 blk = catOf fork blk) ∧
      ∀ blk, (fsmSearch fork minCat).1 = some blk → ∃ n < heapBlocks, blk = n % 2 ^ 32 ∧ minCat ≤ catOf fork n := by
  have hroot : fsmRootAddress.InTree := .inl ⟨rfl, rfl⟩
  have hfuel : (10001 - 0) * 3 + fsmRootAddress.level + 1 ≤ searchFuel := by decide
  obtain ⟨r, hr, h⟩ := searchLoop_spec hvalid hroot hmin (Nat.zero_le 10001) hfuel
  rw [fsmSearch, hr]
  exact h

end search

/-! ## The loop of the update -/

section update

variable {endBlkNum newCat blockNum : Nat} {fork : Fork}

/-- The last block of a bottom page before the last -/
lemma lastblckno_eq (h : blockNum < lastPageBlk) :
    fsmGetLastblckno (fsmGetLocation blockNum).1 = blockNum / slotsPerFSMPage * slotsPerFSMPage + 4068 := by
  rw [fsmGetLastblckno, fsmGetHeapBlk, Nat.mod_eq_of_lt]
  · rfl
  · simp only [fsmGetLocation, lastPageBlk, slotsPerFSMPage] at h ⊢
    omega

/-- On the last page the number is cut, to a block of the first page. -/
lemma lastblckno_last (h : lastPageBlk ≤ blockNum) (hlt : blockNum < 2 ^ 32) :
    fsmGetLastblckno (fsmGetLocation blockNum).1 = 549 := by
  have hpage : blockNum / slotsPerFSMPage = 1055533 := by
    simp only [lastPageBlk, slotsPerFSMPage] at h ⊢
    omega
  rw [fsmGetLastblckno, fsmGetHeapBlk]
  dsimp only [fsmGetLocation]
  rw [hpage]
  rfl

/-- Before the last page every round goes to the next one. -/
lemma updateLoop_ends (hend : endBlkNum < lastPageBlk) {fuel : Nat}
    (hfuel : endBlkNum / slotsPerFSMPage + 2 ≤ fuel + blockNum / slotsPerFSMPage) :
    (updateLoop endBlkNum newCat fuel blockNum fork).2 = true ∨ fuel = 0 := by
  induction fuel generalizing blockNum fork with
  | zero => exact .inr rfl
  | succ fuel ih =>
    left
    rw [updateLoop]
    split
    case isFalse => rfl
    case isTrue hle =>
      have hlast := lastblckno_eq (hle.trans_lt hend)
      dsimp only
      split
      case isTrue => rfl
      case isFalse hmore =>
        have hnext : (fsmGetLastblckno (fsmGetLocation blockNum).1 + 1) % 2 ^ 32 =
            (blockNum / slotsPerFSMPage + 1) * slotsPerFSMPage := by
          rw [hlast]
          simp only [lastPageBlk, slotsPerFSMPage] at hle hend ⊢
          omega
        have hpage : (blockNum / slotsPerFSMPage + 1) * slotsPerFSMPage / slotsPerFSMPage =
            blockNum / slotsPerFSMPage + 1 := Nat.mul_div_cancel _ (by decide)
        rw [hnext]
        refine (ih ?_).resolve_right ?_
        · rw [hpage]
          omega
        · rw [hlast] at hmore
          simp only [slotsPerFSMPage] at hmore hfuel
          omega

/-- A loop up to a block of the last page goes round for ever. -/
lemma updateLoop_endless (hend : lastPageBlk ≤ endBlkNum) (hlt : endBlkNum < 2 ^ 32) (hle : blockNum ≤ endBlkNum)
    (fuel : Nat) : (updateLoop endBlkNum newCat fuel blockNum fork).2 = false := by
  induction fuel generalizing blockNum fork with
  | zero => rfl
  | succ fuel ih =>
    rw [updateLoop, if_pos hle]
    dsimp only
    rcases Nat.lt_or_ge blockNum lastPageBlk with hbefore | hlast
    · have hblk := lastblckno_eq hbefore
      have hmore : ¬endBlkNum ≤ fsmGetLastblckno (fsmGetLocation blockNum).1 := by
        rw [hblk]
        simp only [lastPageBlk, slotsPerFSMPage] at hend hbefore ⊢
        omega
      have hpage : blockNum / slotsPerFSMPage < 1055533 := Nat.div_lt_of_lt_mul (by rwa [Nat.mul_comm])
      rw [if_neg hmore]
      refine ih ?_
      rw [hblk, Nat.mod_eq_of_lt]
      · simp only [lastPageBlk, slotsPerFSMPage] at hend hpage ⊢
        omega
      · simp only [slotsPerFSMPage] at hpage ⊢
        omega
    · have hblk := lastblckno_last hlast (hle.trans_lt hlt)
      rw [hblk, if_neg (by simp only [lastPageBlk, slotsPerFSMPage] at hend; omega)]
      refine ih ?_
      simp only [lastPageBlk, slotsPerFSMPage] at hend
      omega

/-- `UpdateFreeSpaceMap` returns exactly when there is nothing to do or its last block is before the last page. -/
lemma updateLoop_ends_iff (hlt : endBlkNum < 2 ^ 32) :
    (updateLoop endBlkNum newCat updateFuel blockNum fork).2 = true ↔
      endBlkNum < blockNum ∨ endBlkNum < lastPageBlk := by
  constructor
  · intro hends
    by_contra hnot
    obtain ⟨hle, hend⟩ := not_or.mp hnot
    rw [updateLoop_endless (not_lt.mp hend) hlt (not_lt.mp hle)] at hends
    cases hends
  · rintro (hnone | hend)
    · rw [updateLoop, if_neg (not_le.mpr hnone)]
    · refine (updateLoop_ends hend ?_).resolve_right (by decide)
      simp only [updateFuel, lastPageBlk, slotsPerFSMPage] at hend ⊢
      omega

end update

end GaussKernel.Freespace
