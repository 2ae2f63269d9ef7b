import GaussKernel.Lib.MaxTree

/-!
# Pages of the free space map

Model of `fsmpage.cpp`: the binary tree of categories in one page. A page that is torn can have anything in it. Locks
are left out: a page is taken as one operation finds it.
-/

namespace GaussKernel.Freespace

open Lib Lib.MaxTree
open Function (update update_self update_of_ne)

abbrev nodesPerPage : Nat := 8164

abbrev nonLeafNodesPerPage : Nat := 4095

abbrev leafNodesPerPage : Nat := 4069

lemma pageSizes : nonLeafNodesPerPage = 4095 ∧ nodesPerPage = 8164 ∧ leafNodesPerPage = 4069 := ⟨rfl, rfl, rfl⟩

structure FSMPage where
  fpNextSlot : Int
  fpNodes : Nat → Nat

def leftchild (x : Nat) : Nat := 2 * x + 1

def parentof (x : Nat) : Nat := (x - 1) / 2

/-- The right neighbor, wrapping around within the level -/
def rightneighbor (x : Nat) : Nat := if (x + 1 + 1) &&& (x + 1) = 0 then parentof (x + 1) else x + 1

/-! ## Rebuilding -/

/-- The loop of `fsm_rebuild_page`, from the node before `nodeno` to the root -/
def rebuildLoop : (nodeno : Nat) → (nodes : Nat → Nat) → (changed : Bool) → Bool × (Nat → Nat)
  | 0, nodes, changed => (changed, nodes)
  | nodeno + 1, nodes, changed =>
    let lchild := leftchild nodeno
    let rchild := lchild + 1
    let newvalue := if lchild < nodesPerPage then nodes lchild else 0
    let newvalue := if rchild < nodesPerPage then max newvalue (nodes rchild) else newvalue
    if nodes nodeno ≠ newvalue then rebuildLoop nodeno (update nodes nodeno newvalue) true
    else rebuildLoop nodeno nodes changed

def fsmRebuildPage (page : FSMPage) : Bool × FSMPage :=
  let r := rebuildLoop nonLeafNodesPerPage page.fpNodes false
  (r.1, { page with fpNodes := r.2 })

/-! ## One slot -/

/-- The loop of `fsm_set_avail` up to the root -/
def propagate (nodes : Nat → Nat) (nodeno : Nat) : Nat → Nat :=
  let parent := parentof nodeno
  let lchild := leftchild parent
  let rchild := lchild + 1
  let newvalue := if rchild < nodesPerPage then max (nodes lchild) (nodes rchild) else nodes lchild
  if nodes parent = newvalue then nodes
  else if 0 < parent then propagate (update nodes parent newvalue) parent
  else update nodes parent newvalue
termination_by nodeno
decreasing_by
  have hpos : 0 < parentof nodeno := ‹_›
  simp only [parentof] at hpos ⊢
  omega

def fsmSetAvail (page : FSMPage) (slot value : Nat) : Bool × FSMPage :=
  let nodeno := nonLeafNodesPerPage + slot
  if page.fpNodes nodeno = value ∧ value ≤ page.fpNodes 0 then (false, page)
  else
    let nodes := propagate (update page.fpNodes nodeno value) nodeno
    let page := { page with fpNodes := nodes }
    (true, if nodes 0 < value then (fsmRebuildPage page).2 else page)

def fsmGetAvail (page : FSMPage) (slot : Nat) : Nat := page.fpNodes (nonLeafNodesPerPage + slot)

def fsmGetMaxAvail (page : FSMPage) : Nat := page.fpNodes 0

/-! ## Search -/

/-- The loop of `fsm_search_avail` that moves right and climbs up -/
def climb (nodes : Nat → Nat) (minvalue nodeno : Nat) : Nat :=
  if 0 < nodeno then
    if minvalue ≤ nodes nodeno then nodeno else climb nodes minvalue (parentof (rightneighbor nodeno))
  else nodeno
termination_by nodeno
decreasing_by
  rw [rightneighbor]
  split <;> simp only [parentof] <;> omega

/-- The loop of `fsm_search_avail` that descends; `none` for a parent that promised too much -/
def descend (nodes : Nat → Nat) (minvalue nodeno : Nat) : Option Nat :=
  if nodeno < nonLeafNodesPerPage then
    let childnodeno := leftchild nodeno
    if childnodeno < nodesPerPage ∧ minvalue ≤ nodes childnodeno then descend nodes minvalue childnodeno
    else if childnodeno + 1 < nodesPerPage ∧ minvalue ≤ nodes (childnodeno + 1) then
      descend nodes minvalue (childnodeno + 1)
    else none
  else some nodeno
termination_by nonLeafNodesPerPage - nodeno
decreasing_by all_goals simp only [leftchild]; omega

/-- The slot that the search starts from -/
def startSlot (page : FSMPage) : Nat :=
  if page.fpNextSlot < 0 ∨ (leafNodesPerPage : Int) ≤ page.fpNextSlot then 0 else page.fpNextSlot.toNat

/-- `fsm_search_avail`: the slot and the page after it; `none` if the fuel ends. -/
def fsmSearchAvail (minvalue : Nat) (advancenext : Bool) : (fuel : Nat) → FSMPage → Option (Option Nat × FSMPage)
  | 0, _ => none
  | fuel + 1, page =>
    if page.fpNodes 0 < minvalue then some (none, page)
    else
      match descend page.fpNodes minvalue (climb page.fpNodes minvalue (startSlot page + nonLeafNodesPerPage)) with
      | none => fsmSearchAvail minvalue advancenext fuel (fsmRebuildPage page).2
      | some nodeno =>
        let slot := nodeno - nonLeafNodesPerPage
        some (some slot, { page with fpNextSlot := slot + if advancenext then 1 else 0 })

def fsmTruncateAvail (page : FSMPage) (nslots : Nat) : Bool × FSMPage :=
  let truncated := fun nodeno => nonLeafNodesPerPage + nslots ≤ nodeno ∧ nodeno < nodesPerPage
  let changed := (List.range leafNodesPerPage).any fun slot => decide (nslots ≤ slot ∧ fsmGetAvail page slot ≠ 0)
  let page := { page with fpNodes := fun nodeno => if truncated nodeno then 0 else page.fpNodes nodeno }
  (changed, if changed then (fsmRebuildPage page).2 else page)

/-! ## The tree of a page -/

/-- The value of a node, numbered from 1; missing nodes have none. -/
def treeNode (nodes : Nat → Nat) (y : Nat) : Nat := if 0 < y ∧ y ≤ nodesPerPage then nodes (y - 1) else 0

/-- Every upper node has the greater value of its children. -/
def FSMPage.Valid (page : FSMPage) : Prop := MaximalFrom (treeNode page.fpNodes) 12 1

section nodes

variable {nodes : Nat → Nat} {nodeno x b : Nat}

@[simp] lemma treeNode_succ (hx : x < nodesPerPage) : treeNode nodes (x + 1) = nodes x := by
  rw [treeNode, if_pos ⟨Nat.succ_pos x, hx⟩, Nat.add_sub_cancel]

lemma treeNode_update (hx : x < nodesPerPage) :
    treeNode (update nodes x b) = update (treeNode nodes) (x + 1) b := by
  funext y
  by_cases hy : y = x + 1
  · subst hy
    rw [update_self, treeNode_succ hx, update_self]
  · rw [update_of_ne hy, treeNode, treeNode]
    split
    · rw [update_of_ne (by omega)]
    · rfl

/-- What the loops compute from the children of a node -/
lemma children_eq (nodes : Nat → Nat) (x : Nat) : (if leftchild x + 1 < nodesPerPage
      then max (if leftchild x < nodesPerPage then nodes (leftchild x) else 0) (nodes (leftchild x + 1))
      else if leftchild x < nodesPerPage then nodes (leftchild x) else 0) =
    max (treeNode nodes (2 * (x + 1))) (treeNode nodes (2 * (x + 1) + 1)) := by
  have hleft : treeNode nodes (2 * (x + 1)) = if leftchild x < nodesPerPage then nodes (leftchild x) else 0 := by
    rw [treeNode, leftchild]
    split <;> split
    · congr 1
    · omega
    · omega
    · rfl
  have hright : treeNode nodes (2 * (x + 1) + 1) =
      if leftchild x + 1 < nodesPerPage then nodes (leftchild x + 1) else 0 := by
    rw [treeNode, leftchild]
    split <;> split
    · congr 1
    · omega
    · omega
    · rfl
  rw [hleft, hright]
  split
  · rfl
  · rw [Nat.max_zero]

lemma rebuildLoop_spec (changed : Bool) (hle : nodeno ≤ nonLeafNodesPerPage)
    (h : MaximalFrom (treeNode nodes) 12 (nodeno + 1)) :
    MaximalFrom (treeNode (rebuildLoop nodeno nodes changed).2) 12 1 ∧
      ∀ x, nonLeafNodesPerPage ≤ x → (rebuildLoop nodeno nodes changed).2 x = nodes x := by
  induction nodeno generalizing nodes changed with
  | zero => exact ⟨h, fun _ _ => rfl⟩
  | succ nodeno ih =>
    rw [rebuildLoop, children_eq]
    have hsizes := pageSizes
    have hdown := h.down (Nat.succ_pos nodeno)
    rw [← treeNode_update (by omega)] at hdown
    split
    · obtain ⟨hvalid, hleaves⟩ := ih true (by omega) hdown
      refine ⟨hvalid, fun x hx => (hleaves x hx).trans ?_⟩
      exact update_of_ne (by omega) _ _
    · rename_i hsame
      rw [not_not] at hsame
      rw [← hsame, Function.update_eq_self] at hdown
      exact ih changed (by omega) hdown

/-- One round of the loop -/
lemma propagate_eq (hlt : nodeno < nodesPerPage) (nodes : Nat → Nat) :
    propagate nodes nodeno =
      if nodes (parentof nodeno) =
          max (treeNode nodes (2 * (parentof nodeno + 1))) (treeNode nodes (2 * (parentof nodeno + 1) + 1)) then nodes
      else if 0 < parentof nodeno then
        propagate (update nodes (parentof nodeno)
          (max (treeNode nodes (2 * (parentof nodeno + 1))) (treeNode nodes (2 * (parentof nodeno + 1) + 1))))
          (parentof nodeno)
      else update nodes (parentof nodeno)
        (max (treeNode nodes (2 * (parentof nodeno + 1))) (treeNode nodes (2 * (parentof nodeno + 1) + 1))) := by
  have hin : leftchild (parentof nodeno) < nodesPerPage := by
    have hsizes := pageSizes
    rw [leftchild, parentof]
    omega
  have hchildren := children_eq nodes (parentof nodeno)
  rw [if_pos hin] at hchildren
  rw [propagate, hchildren]

/-- The loop mends the tree above the node, and leaves the slots. -/
lemma propagate_spec (hpos : 0 < nodeno) (hlt : nodeno < nodesPerPage)
    (h : MaximalBut (treeNode nodes) 12 ((nodeno + 1) / 2)) :
    MaximalFrom (treeNode (propagate nodes nodeno)) 12 1 := by
  induction nodeno using Nat.strong_induction_on generalizing nodes with
  | _ nodeno ih =>
    have hparent : parentof nodeno + 1 = (nodeno + 1) / 2 := by
      rw [parentof]
      omega
    have hin : parentof nodeno < nodesPerPage := by omega
    rw [propagate_eq hlt, hparent]
    split
    case isTrue hsame =>
      apply h.stop
      rwa [MaxNode, ← hparent, treeNode_succ hin, hparent]
    case isFalse =>
      have hup := h.up (by omega)
      nth_rewrite 1 [← hparent] at hup
      rw [← treeNode_update hin] at hup
      split
      case isTrue hmore => exact ih (parentof nodeno) (by omega) hmore hin (by rwa [hparent])
      case isFalse hroot =>
        rw [show (nodeno + 1) / 2 / 2 = 0 by omega] at hup
        exact hup.root

lemma propagate_leaf (hlt : nodeno < nodesPerPage) (hx : nonLeafNodesPerPage ≤ x) :
    propagate nodes nodeno x = nodes x := by
  induction nodeno using Nat.strong_induction_on generalizing nodes with
  | _ nodeno ih =>
    have hsizes := pageSizes
    have hparent : parentof nodeno < nonLeafNodesPerPage := by
      rw [parentof]
      omega
    rw [propagate_eq hlt]
    split
    · rfl
    · split
      case isTrue hmore =>
        rw [ih (parentof nodeno) (by rw [parentof] at hmore ⊢; omega) (by omega),
          update_of_ne (by omega)]
      case isFalse => rw [update_of_ne (by omega)]

end nodes

/-! ## What the operations do to a page -/

section page

variable {page : FSMPage} {slot value minvalue nslots s : Nat}

/-- Whatever is in a page, rebuilding it makes the tree valid. -/
lemma fsmRebuildPage_valid (page : FSMPage) : (fsmRebuildPage page).2.Valid := by
  refine (rebuildLoop_spec false le_rfl ?_).1
  intro y _ hle hlt
  have hsizes := pageSizes
  omega

@[simp] lemma fsmGetAvail_rebuild (page : FSMPage) (slot : Nat) :
    fsmGetAvail (fsmRebuildPage page).2 slot = fsmGetAvail page slot := by
  refine (rebuildLoop_spec false le_rfl ?_).2 _ (Nat.le_add_right _ _)
  intro y _ hle hlt
  have hsizes := pageSizes
  omega

/-- No slot is above the root. -/
lemma FSMPage.Valid.le_root (h : page.Valid) (hs : s < leafNodesPerPage) :
    fsmGetAvail page s ≤ fsmGetMaxAvail page := by
  have hsizes := pageSizes
  have hle := MaxTree.le_root (z := 4096 + s) h (by omega) (by omega)
  rwa [show 4096 + s = nonLeafNodesPerPage + s + 1 by omega, treeNode_succ (by omega), show 1 = 0 + 1 from rfl,
    treeNode_succ (by omega)] at hle

lemma fsmSetAvail_avail (hslot : slot < leafNodesPerPage) (page : FSMPage) (value : Nat) :
    fsmGetAvail (fsmSetAvail page slot value).2 = update (fsmGetAvail page) slot value := by
  funext s
  have hsizes := pageSizes
  have hset : propagate (update page.fpNodes (nonLeafNodesPerPage + slot) value) (nonLeafNodesPerPage + slot)
      (nonLeafNodesPerPage + s) = update (fsmGetAvail page) slot value s := by
    rw [propagate_leaf (by omega) (by omega)]
    by_cases hs : s = slot
    · rw [hs, update_self, update_self]
    · rw [update_of_ne hs, update_of_ne (by omega), fsmGetAvail]
  rw [fsmSetAvail]
  split
  case isTrue hsame =>
    by_cases hs : s = slot
    · rw [hs, update_self]
      exact hsame.1
    · rw [update_of_ne hs]
  case isFalse =>
    dsimp only
    split
    · rw [fsmGetAvail_rebuild]
      exact hset
    · exact hset

/-- The tree stays valid. -/
lemma fsmSetAvail_valid (h : page.Valid) (hslot : slot < leafNodesPerPage) (value : Nat) :
    (fsmSetAvail page slot value).2.Valid := by
  have hsizes := pageSizes
  rw [fsmSetAvail]
  split
  · exact h
  · dsimp only
    split
    · exact fsmRebuildPage_valid _
    · refine propagate_spec (by omega) (by omega) ?_
      rw [treeNode_update (by omega)]
      exact MaximalFrom.leaf h (by omega)

/-- Even in a torn page, the root reaches the new value. -/
lemma le_fsmSetAvail (hslot : slot < leafNodesPerPage) (page : FSMPage) (value : Nat) :
    value ≤ fsmGetMaxAvail (fsmSetAvail page slot value).2 := by
  rw [fsmSetAvail]
  split
  case isTrue hsame => exact hsame.2
  case isFalse =>
    dsimp only
    split
    case isTrue =>
      have hsizes := pageSizes
      refine le_trans ?_ ((fsmRebuildPage_valid _).le_root hslot)
      rw [fsmGetAvail_rebuild, fsmGetAvail]
      dsimp only
      rw [propagate_leaf (by omega) (by omega), update_self]
    case isFalse hle => exact not_lt.mp hle

lemma fsmTruncateAvail_avail (hs : s < leafNodesPerPage) :
    fsmGetAvail (fsmTruncateAvail page nslots).2 s = if nslots ≤ s then 0 else fsmGetAvail page s := by
  have hsizes := pageSizes
  have hclear : fsmGetAvail { page with fpNodes := fun nodeno => if nonLeafNodesPerPage + nslots ≤ nodeno ∧
      nodeno < nodesPerPage then 0 else page.fpNodes nodeno } s = if nslots ≤ s then 0 else fsmGetAvail page s := by
    rw [fsmGetAvail, fsmGetAvail]
    dsimp only
    split <;> split
    · rfl
    · omega
    · omega
    · rfl
  rw [fsmTruncateAvail]
  dsimp only
  split
  · rw [fsmGetAvail_rebuild]
    exact hclear
  · exact hclear

lemma fsmTruncateAvail_valid (h : page.Valid) : (fsmTruncateAvail page nslots).2.Valid := by
  rw [fsmTruncateAvail]
  dsimp only
  split
  case isTrue => exact fsmRebuildPage_valid _
  case isFalse hno =>
    -- what is cleared was clear
    have hsame : (fun nodeno => if nonLeafNodesPerPage + nslots ≤ nodeno ∧ nodeno < nodesPerPage then 0
        else page.fpNodes nodeno) = page.fpNodes := by
      funext nodeno
      have hsizes := pageSizes
      split
      case isTrue hin =>
        have hany := fun hne => hno (List.any_eq_true.mpr ⟨nodeno - nonLeafNodesPerPage,
          List.mem_range.mpr (by omega), decide_eq_true ⟨by omega, hne⟩⟩)
        rw [fsmGetAvail, show nonLeafNodesPerPage + (nodeno - nonLeafNodesPerPage) = nodeno by omega] at hany
        exact (not_not.mp hany).symm
      case isFalse => rfl
    rw [hsame]
    exact h

end page

/-! ## What the search finds -/

/-- The first slot with enough space from a slot on, going round -/
def FirstFit (avail : Nat → Nat) (start minvalue slot : Nat) : Prop :=
  slot < leafNodesPerPage ∧ minvalue ≤ avail slot ∧
    (start ≤ slot ∧ (∀ s, start ≤ s → s < slot → avail s < minvalue) ∨
      slot < start ∧ (∀ s, start ≤ s → s < leafNodesPerPage → avail s < minvalue) ∧ ∀ s < slot, avail s < minvalue)

section search

variable {nodes : Nat → Nat} {minvalue nodeno d k t : Nat} {page : FSMPage}

/-- The node has enough space. -/
def Enough (nodes : Nat → Nat) (minvalue z : Nat) : Prop := minvalue ≤ treeNode nodes z

lemma rightUp_eq (hpos : 0 < nodeno) (hlow : 2 ^ k ≤ nodeno + 1) (hhigh : nodeno + 1 < 2 ^ (k + 1)) :
    parentof (rightneighbor nodeno) + 1 = rightUp (nodeno + 1) := by
  rw [rightneighbor, rightUp]
  split
  case isTrue hwrap =>
    have hlast := (wraps_iff hlow hhigh).mp hwrap
    have hk : 1 ≤ k := by
      rcases k with - | k
      · omega
      · omega
    have htwo : 2 ^ 2 ≤ 2 ^ (k + 1) := Nat.pow_le_pow_right (by omega) (by omega)
    simp only [parentof]
    omega
  case isFalse =>
    rw [parentof]
    omega

lemma climb_le (nodes : Nat → Nat) (minvalue nodeno : Nat) : climb nodes minvalue nodeno ≤ nodeno := by
  induction nodeno using Nat.strong_induction_on with
  | _ nodeno ih =>
    rw [climb]
    split
    · split
      · exact le_rfl
      · have hless : parentof (rightneighbor nodeno) < nodeno := by
          rw [rightneighbor]
          split <;> simp only [parentof] <;> omega
        exact (ih _ hless).trans hless.le
    · exact le_rfl

/-- The climb stops at a node with enough space if the root has enough. -/
lemma le_climb (hroot : minvalue ≤ nodes 0) : minvalue ≤ nodes (climb nodes minvalue nodeno) := by
  induction nodeno using Nat.strong_induction_on with
  | _ nodeno ih =>
    rw [climb]
    split
    case isTrue hpos =>
      split
      case isTrue henough => exact henough
      case isFalse =>
        apply ih
        rw [rightneighbor]
        split <;> simp only [parentof] <;> omega
    case isFalse hzero =>
      rw [Nat.eq_zero_of_not_pos hzero]
      exact hroot

/-- In a valid tree, the climb passes no slot with enough space. -/
lemma climb_swept (hvalid : MaximalFrom (treeNode nodes) 12 1) (hlevel : k + d = 12) (hlow : 2 ^ k ≤ nodeno + 1)
    (hhigh : nodeno + 1 < 2 ^ (k + 1)) (hlt : nodeno < nodesPerPage)
    (hswept : Swept (Enough nodes minvalue) 12 t (nodeno + 1) d) :
    ∃ k' d', k' + d' = 12 ∧ 2 ^ k' ≤ climb nodes minvalue nodeno + 1 ∧ climb nodes minvalue nodeno + 1 < 2 ^ (k' + 1) ∧
      Swept (Enough nodes minvalue) 12 t (climb nodes minvalue nodeno + 1) d' := by
  induction k generalizing nodeno d with
  | zero =>
    obtain rfl : nodeno = 0 := by omega
    rw [climb, if_neg (lt_irrefl 0)]
    exact ⟨0, d, hlevel, hlow, hhigh, hswept⟩
  | succ k ih =>
    have hpos : 0 < nodeno := by
      have := Nat.two_pow_pos k
      have hk : 2 ^ (k + 1) = 2 * 2 ^ k := by rw [pow_succ, Nat.mul_comm]
      omega
    rw [climb, if_pos hpos]
    split
    case isTrue => exact ⟨k + 1, d, hlevel, hlow, hhigh, hswept⟩
    case isFalse hless =>
      have heq := rightUp_eq hpos hlow hhigh
      obtain ⟨hlow', hhigh'⟩ := rightUp_level hlow hhigh
      have hnone : ∀ z, z / 2 ^ d = nodeno + 1 → ¬Enough nodes minvalue z := by
        intro z hz henough
        obtain ⟨-, hzlt⟩ := mem_below_iff.mp hz
        have hzlt' : z < 2 ^ 13 := by
          have hmul : (nodeno + 1 + 1) * 2 ^ d ≤ 2 ^ (k + 2) * 2 ^ d := Nat.mul_le_mul_right _ hhigh
          rw [← pow_add, show k + 2 + d = 13 by omega] at hmul
          omega
        have hle := le_above hvalid hzlt' (by rw [hz]; omega)
        rw [hz, treeNode_succ hlt] at hle
        exact hless (le_trans henough hle)
      have hnext := hswept.rightUp (by omega) hlow hhigh hnone
      rw [← heq] at hlow' hhigh' hnext
      refine ih (by omega) hlow' hhigh' ?_ hnext
      rw [rightneighbor]
      split <;> simp only [parentof] <;> omega

/-- Where the descent ends there is a slot with enough space. -/
lemma descend_slot (hlt : nodeno < nodesPerPage) (henough : minvalue ≤ nodes nodeno) {z : Nat}
    (hz : descend nodes minvalue nodeno = some z) :
    nonLeafNodesPerPage ≤ z ∧ z < nodesPerPage ∧ minvalue ≤ nodes z := by
  induction hsize : nonLeafNodesPerPage - nodeno using Nat.strong_induction_on generalizing nodeno with
  | _ size ih =>
    rw [descend] at hz
    split at hz
    case isTrue hless =>
      dsimp only at hz
      split at hz
      case isTrue hleft =>
        exact ih _ (by rw [leftchild]; omega) hleft.1 hleft.2 hz rfl
      case isFalse =>
        split at hz
        case isTrue hright =>
          exact ih _ (by rw [leftchild]; omega) hright.1 hright.2 hz rfl
        case isFalse => cases hz
    case isFalse hge =>
      cases hz
      exact ⟨not_lt.mp hge, hlt, henough⟩

/-- In a valid tree, the descent finds the first slot with enough space under the node. -/
lemma descend_first (hvalid : MaximalFrom (treeNode nodes) 12 1) (hmin : 0 < minvalue) (hlevel : k + d = 12)
    (hlow : 2 ^ k ≤ nodeno + 1) (hhigh : nodeno + 1 < 2 ^ (k + 1)) (hlt : nodeno < nodesPerPage)
    (henough : minvalue ≤ nodes nodeno) :
    ∃ z, descend nodes minvalue nodeno = some z ∧ FirstUnder (Enough nodes minvalue) (nodeno + 1) d (z + 1) := by
  have hsizes := pageSizes
  induction d generalizing nodeno k with
  | zero =>
    obtain rfl : k = 12 := hlevel
    rw [descend, if_neg (by omega)]
    refine ⟨nodeno, rfl, by rw [pow_zero, Nat.div_one], ?_, fun z' hz' hless => ?_⟩
    · rwa [Enough, treeNode_succ hlt]
    · rw [pow_zero, Nat.div_one] at hz'
      omega
  | succ d ih =>
    have hk : 2 ^ (k + 1) ≤ 2 ^ 12 := Nat.pow_le_pow_right (by omega) (by omega)
    have hk' : 2 ^ (k + 2) = 2 * 2 ^ (k + 1) := by rw [pow_succ, Nat.mul_comm]
    have hk'' : 2 ^ (k + 1) = 2 * 2 ^ k := by rw [pow_succ, Nat.mul_comm]
    -- a child has enough space just if it is there with it
    have hchild : ∀ x, (x < nodesPerPage ∧ minvalue ≤ nodes x) ↔ Enough nodes minvalue (x + 1) := by
      intro x
      constructor
      · rintro ⟨hx, hle⟩
        rwa [Enough, treeNode_succ hx]
      · intro hle
        by_cases hx : x < nodesPerPage
        · rw [Enough, treeNode_succ hx] at hle
          exact ⟨hx, hle⟩
        · rw [Enough, treeNode, if_neg (by omega)] at hle
          omega
    have hleftNode : leftchild nodeno + 1 = 2 * (nodeno + 1) := by
      rw [leftchild]
      ring
    have hlevels : 2 ^ (k + 1) ≤ leftchild nodeno + 1 ∧ leftchild nodeno + 1 + 1 < 2 ^ (k + 2) := by omega
    rw [descend, if_pos (by omega)]
    dsimp only
    split
    case isTrue hleft =>
      obtain ⟨z, hz, hfirst⟩ : ∃ z, descend nodes minvalue (leftchild nodeno) = some z ∧
          FirstUnder (Enough nodes minvalue) (leftchild nodeno + 1) d (z + 1) :=
        ih (k := k + 1) (by omega) hlevels.1 (by omega) hleft.1 hleft.2
      exact ⟨z, hz, FirstUnder.left (hleftNode ▸ hfirst)⟩
    case isFalse hleft =>
      have hnode := hvalid (nodeno + 1) (Nat.succ_pos _) (Nat.succ_pos _) (by omega)
      rw [MaxNode, treeNode_succ hlt] at hnode
      have hleft' : ¬Enough nodes minvalue (2 * (nodeno + 1)) := by
        rwa [hchild, hleftNode] at hleft
      have hright : leftchild nodeno + 1 < nodesPerPage ∧ minvalue ≤ nodes (leftchild nodeno + 1) := by
        rw [hchild, hleftNode]
        rw [hnode] at henough
        exact (le_max_iff.mp henough).resolve_left hleft'
      obtain ⟨z, hz, hfirst⟩ : ∃ z, descend nodes minvalue (leftchild nodeno + 1) = some z ∧
          FirstUnder (Enough nodes minvalue) (leftchild nodeno + 1 + 1) d (z + 1) :=
        ih (k := k + 1) (by omega) (by omega) (by omega) hright.1 hright.2
      rw [if_pos hright]
      refine ⟨z, hz, FirstUnder.right (hleftNode ▸ hfirst) fun z' hz' hgood => hleft' ?_⟩
      have hzlt : z' < 2 ^ 13 := by
        obtain ⟨-, hzlt⟩ := mem_below_iff.mp hz'
        have hmul : (2 * (nodeno + 1) + 1) * 2 ^ d ≤ 2 ^ (k + 2) * 2 ^ d := Nat.mul_le_mul_right _ (by omega)
        rw [← pow_add, show k + 2 + d = 13 by omega] at hmul
        omega
      have hle' := le_above hvalid hzlt (by rw [hz']; omega)
      rw [hz'] at hle'
      exact le_trans hgood hle'

/-- In a valid page whose root has enough, the search finds the first slot with enough. -/
lemma search_first (hvalid : page.Valid) (hroot : minvalue ≤ page.fpNodes 0) :
    ∃ nodeno, descend page.fpNodes minvalue (climb page.fpNodes minvalue (startSlot page + nonLeafNodesPerPage)) =
        some nodeno ∧ nonLeafNodesPerPage ≤ nodeno ∧
      FirstFit (fsmGetAvail page) (startSlot page) minvalue (nodeno - nonLeafNodesPerPage) := by
  have hsizes := pageSizes
  have hstart : startSlot page < leafNodesPerPage := by
    rw [startSlot]
    split <;> omega
  have havail : ∀ s, s < leafNodesPerPage →
      treeNode page.fpNodes (4096 + s) = fsmGetAvail page s := by
    intro s hs
    rw [show 4096 + s = nonLeafNodesPerPage + s + 1 by omega, treeNode_succ (by omega), fsmGetAvail]
  have hlt : startSlot page + nonLeafNodesPerPage < nodesPerPage := by omega
  rcases Nat.eq_zero_or_pos minvalue with rfl | hmin
  · -- any slot has enough, so the first one does
    rw [climb, if_pos (by omega), if_pos (Nat.zero_le _), descend, if_neg (by omega)]
    refine ⟨_, rfl, by omega, ?_⟩
    rw [Nat.add_sub_cancel]
    exact ⟨hstart, Nat.zero_le _, .inl ⟨le_rfl, fun s hle hless => absurd hle (not_le.mpr hless)⟩⟩
  obtain ⟨k, d, hlevel, hlow, hhigh, hswept⟩ := climb_swept (k := 12) (d := 0) hvalid rfl (by omega) (by omega) hlt
    (swept_start (Enough page.fpNodes minvalue) 12 (startSlot page + nonLeafNodesPerPage + 1))
  have hin := (climb_le page.fpNodes minvalue (startSlot page + nonLeafNodesPerPage)).trans_lt hlt
  obtain ⟨nodeno, hnodeno, hfirst⟩ := descend_first hvalid hmin hlevel hlow hhigh hin (le_climb hroot)
  obtain ⟨hge, hend, henough⟩ := descend_slot hin (le_climb hroot) hnodeno
  refine ⟨nodeno, hnodeno, hge, by omega, ?_, ?_⟩
  · rwa [fsmGetAvail, show nonLeafNodesPerPage + (nodeno - nonLeafNodesPerPage) = nodeno by omega]
  · have hnot : ∀ s, s < leafNodesPerPage → ¬Enough page.fpNodes minvalue (4096 + s) →
        fsmGetAvail page s < minvalue := by
      intro s hs hnone
      rw [← havail s hs]
      exact not_le.mp hnone
    rcases (hswept.first hfirst (by omega)).2 with ⟨hle, hbefore⟩ | ⟨hless, hafter, hbefore⟩
    · exact .inl ⟨by omega, fun s hs hs' => hnot s (by omega) (hbefore _ (by omega) (by omega))⟩
    · exact .inr ⟨by omega, fun s hs hs' => hnot s hs' (hafter _ (by omega) (by omega)),
        fun s hs => hnot s (by omega) (hbefore _ (by omega) (by omega))⟩

end search

/-- The empty page -/
def zeroPage : FSMPage := ⟨0, fun _ => 0⟩

lemma zeroPage_valid : zeroPage.Valid := by
  have hzero : ∀ y, treeNode zeroPage.fpNodes y = 0 := fun y => ite_self 0
  intro y _ _ _
  rw [MaxNode, hzero, hzero, hzero, Nat.max_self]

/-- `fsm_search_avail`. The second round is never needed again, see `fsmSearchAvail_finds`. -/
def searchAvail (minvalue : Nat) (advancenext : Bool) (page : FSMPage) : Option Nat × FSMPage :=
  (fsmSearchAvail minvalue advancenext 2 page).getD (none, page)

/-- In a valid page the search decides by the root. -/
lemma searchAvail_valid {page : FSMPage} (hvalid : page.Valid) (minvalue : Nat) (advancenext : Bool) :
    searchAvail minvalue advancenext page = (none, page) ∧ fsmGetMaxAvail page < minvalue ∨
      ∃ slot next, searchAvail minvalue advancenext page = (some slot, { page with fpNextSlot := next }) ∧
        FirstFit (fsmGetAvail page) (startSlot page) minvalue slot := by
  rw [searchAvail, fsmSearchAvail]
  split
  case isTrue hroot => exact .inl ⟨rfl, hroot⟩
  case isFalse hroot =>
    obtain ⟨nodeno, hnodeno, -, hfirst⟩ := search_first hvalid (not_lt.mp hroot)
    rw [hnodeno]
    exact .inr ⟨_, _, rfl, hfirst⟩

/-! ## The results -/

/-- The search of a page, torn or not, ends after one repair at most, changes no slot, finds a slot only if it has
enough space, and in a valid tree finds the first one from `fp_next_slot` on, going round. -/
theorem fsmSearchAvail_finds (page : FSMPage) (minvalue : Nat) (advancenext : Bool) :
    ∃ slot page', fsmSearchAvail minvalue advancenext 2 page = some (slot, page') ∧
      fsmGetAvail page' = fsmGetAvail page ∧ (page.Valid → page'.fpNodes = page.fpNodes) ∧
      match slot with
      | none => fsmGetMaxAvail page' < minvalue ∧
        (page'.Valid → ∀ s < leafNodesPerPage, fsmGetAvail page s < minvalue)
      | some slot => slot < leafNodesPerPage ∧ minvalue ≤ fsmGetAvail page slot ∧
        page'.fpNextSlot = slot + (if advancenext then 1 else 0) ∧
        (page.Valid → FirstFit (fsmGetAvail page) (startSlot page) minvalue slot) := by
  have hstart : ∀ page, startSlot page + nonLeafNodesPerPage < nodesPerPage := by
    intro page
    have hsizes := pageSizes
    rw [startSlot]
    split <;> omega
  rw [fsmSearchAvail]
  split
  case isTrue hroot =>
    exact ⟨none, page, rfl, rfl, fun _ => rfl, hroot, fun hvalid s hs => (hvalid.le_root hs).trans_lt hroot⟩
  case isFalse hroot =>
    rw [not_lt] at hroot
    cases hdescend : descend page.fpNodes minvalue
        (climb page.fpNodes minvalue (startSlot page + nonLeafNodesPerPage)) with
    | some nodeno =>
      have hin := (climb_le page.fpNodes minvalue (startSlot page + nonLeafNodesPerPage)).trans_lt (hstart page)
      obtain ⟨hge, hend, henough⟩ := descend_slot hin (le_climb hroot) hdescend
      have hsizes := pageSizes
      refine ⟨some (nodeno - nonLeafNodesPerPage), _, rfl, rfl, fun _ => rfl, by omega, ?_, rfl, fun hvalid => ?_⟩
      · rwa [fsmGetAvail, show nonLeafNodesPerPage + (nodeno - nonLeafNodesPerPage) = nodeno by omega]
      · obtain ⟨nodeno', hnodeno, -, hfirst⟩ := search_first hvalid hroot
        rw [hdescend, Option.some_inj] at hnodeno
        rwa [hnodeno]
    | none =>
      -- the tree was not valid, and is rebuilt
      have hinvalid : ¬page.Valid := by
        intro hvalid
        obtain ⟨nodeno, hnodeno, -⟩ := search_first hvalid hroot
        rw [hdescend] at hnodeno
        cases hnodeno
      have hvalid := fsmRebuildPage_valid page
      have hsame : fsmGetAvail (fsmRebuildPage page).2 = fsmGetAvail page := funext (fsmGetAvail_rebuild page)
      dsimp only
      rw [fsmSearchAvail]
      split
      case isTrue hroot' =>
        refine ⟨none, _, rfl, hsame, fun h => absurd h hinvalid, hroot', fun _ s hs => ?_⟩
        rw [← hsame]
        exact (hvalid.le_root hs).trans_lt hroot'
      case isFalse hroot' =>
        obtain ⟨nodeno, hnodeno, hge, hfirst⟩ := search_first hvalid (not_lt.mp hroot')
        rw [hnodeno]
        refine ⟨some (nodeno - nonLeafNodesPerPage), _, rfl, hsame, fun h => absurd h hinvalid, hfirst.1, ?_, rfl,
          fun h => absurd h hinvalid⟩
        rw [← hsame]
        exact hfirst.2.1

end GaussKernel.Freespace
