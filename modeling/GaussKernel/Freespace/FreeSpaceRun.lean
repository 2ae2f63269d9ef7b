import GaussKernel.Freespace.FreeSpace

/-!
# Runs of the free space map

What a vacuum of the map and any order of the operations of `freespace.cpp` mean for the space that was last recorded
of each heap block.
-/

namespace GaussKernel.Freespace

open Lib Lib.MaxTree

/-! ## Vacuum -/

section vacuum

variable {fork fork' : Fork} {l p q slot blk blkno n : Nat}

/-- Below the address, every slot has the root of its child. -/
def ExactUnder (fork : Fork) : (level logpageno : Nat) → Prop
  | 0, _ => True
  | level + 1, logpageno => ∀ slot < slotsPerFSMPage,
      fsmGetAvail (pageAt fork (fsmLogicalToPhysical ⟨level + 1, logpageno⟩)) slot =
        fsmGetMaxAvail (pageAt fork (fsmLogicalToPhysical (fsmGetChild ⟨level + 1, logpageno⟩ slot))) ∧
      ExactUnder fork level (fsmGetChild ⟨level + 1, logpageno⟩ slot).logpageno

/-- The block is a page of the subtree. -/
def InSubtree (level logpageno blk : Nat) : Prop :=
  fsmLogicalToPhysical ⟨level, logpageno⟩ ≤ blk ∧ blk < fsmLogicalToPhysical ⟨level, logpageno⟩ + subtreePages level

lemma subtreePages_pos (level : Nat) : 0 < subtreePages level := by
  cases level with
  | zero => exact Nat.one_pos
  | succ level => exact Nat.add_pos_left Nat.one_pos _

lemma inSubtree_self (level logpageno : Nat) : InSubtree level logpageno (fsmLogicalToPhysical ⟨level, logpageno⟩) :=
  ⟨le_rfl, Nat.lt_add_of_pos_right (subtreePages_pos level)⟩

lemma childAddress (l p slot : Nat) :
    (⟨l, (fsmGetChild ⟨l + 1, p⟩ slot).logpageno⟩ : FSMAddress) = fsmGetChild ⟨l + 1, p⟩ slot := rfl

/-- The subtree of a child is part of the subtree, behind its first page. -/
lemma InSubtree.of_child (hin : FSMAddress.InTree ⟨l + 1, p⟩) (hslot : slot < slotsPerFSMPage)
    (h : InSubtree l (fsmGetChild ⟨l + 1, p⟩ slot).logpageno blk) :
    InSubtree (l + 1) p blk ∧ blk ≠ fsmLogicalToPhysical ⟨l + 1, p⟩ := by
  rw [InSubtree, childAddress, (physical_child hin hslot).2] at h
  have hsize : (slot + 1) * subtreePages l ≤ slotsPerFSMPage * subtreePages l := Nat.mul_le_mul_right _ hslot
  rw [Nat.succ_mul] at hsize
  refine ⟨⟨by omega, ?_⟩, by omega⟩
  rw [subtreePages]
  omega

/-- The subtrees of two children have no page in common. -/
lemma InSubtree.ne_child (hin : FSMAddress.InTree ⟨l + 1, p⟩) {s : Nat} (hs : s < slot) (hslot : slot < slotsPerFSMPage)
    (h : InSubtree l (fsmGetChild ⟨l + 1, p⟩ s).logpageno blk) :
    ¬InSubtree l (fsmGetChild ⟨l + 1, p⟩ slot).logpageno blk := by
  rw [InSubtree, childAddress, (physical_child hin (hs.trans hslot)).2] at h
  rw [InSubtree, childAddress, (physical_child hin hslot).2]
  have hsize : (s + 1) * subtreePages l ≤ slot * subtreePages l := Nat.mul_le_mul_right _ hs
  rw [Nat.succ_mul] at hsize
  omega

lemma avail_of_nodes {page page' : FSMPage} (h : page'.fpNodes = page.fpNodes) :
    fsmGetAvail page' = fsmGetAvail page ∧ fsmGetMaxAvail page' = fsmGetMaxAvail page :=
  ⟨funext fun _ => congrFun h _, congrFun h 0⟩

/-- Only the slots and roots of the subtree matter. -/
lemma ExactUnder.congr (hin : FSMAddress.InTree ⟨l, p⟩)
    (hsame : ∀ blk, InSubtree l p blk → fsmGetAvail (pageAt fork' blk) = fsmGetAvail (pageAt fork blk) ∧
      fsmGetMaxAvail (pageAt fork' blk) = fsmGetMaxAvail (pageAt fork blk))
    (h : ExactUnder fork l p) : ExactUnder fork' l p := by
  induction l generalizing p with
  | zero => trivial
  | succ l ih =>
    intro slot hslot
    obtain ⟨heq, hunder⟩ := h slot hslot
    refine ⟨?_, ih (physical_child hin hslot).1 (fun blk hblk => hsame blk (hblk.of_child hin hslot).1) hunder⟩
    rw [(hsame _ (inSubtree_self (l + 1) p)).1, heq]
    exact (hsame _ ((inSubtree_self l _).of_child hin hslot).1).2.symm

/-- Beyond the end of the file everything is empty. -/
lemma ExactUnder.of_missing (hin : FSMAddress.InTree ⟨l, p⟩) (h : fork.length ≤ fsmLogicalToPhysical ⟨l, p⟩) :
    ExactUnder fork l p := by
  induction l generalizing p with
  | zero => trivial
  | succ l ih =>
    intro slot hslot
    obtain ⟨hchild, hplace⟩ := physical_child hin hslot
    have hmissing : fork.length ≤ fsmLogicalToPhysical (fsmGetChild ⟨l + 1, p⟩ slot) := by omega
    refine ⟨?_, ih hchild hmissing⟩
    rw [pageAt_length h, pageAt_length hmissing]
    rfl

/-- What `fsm_vacuum_page` does to the file -/
structure Vacuumed (level logpageno : Nat) (fork : Fork) (r : Option Nat × Fork) : Prop where
  length : r.2.length = fork.length
  frame : ∀ blk, ¬InSubtree level logpageno blk → pageAt r.2 blk = pageAt fork blk
  valid : ForkValid r.2
  bottom : ∀ q, FSMAddress.InTree ⟨0, q⟩ →
    fsmGetAvail (pageAt r.2 (fsmLogicalToPhysical ⟨0, q⟩)) = fsmGetAvail (pageAt fork (fsmLogicalToPhysical ⟨0, q⟩))
  root : r.1.getD 0 = fsmGetMaxAvail (pageAt r.2 (fsmLogicalToPhysical ⟨level, logpageno⟩))
  exact : ExactUnder r.2 level logpageno
  missing : r.1 = none → fork.length ≤ fsmLogicalToPhysical ⟨level, logpageno⟩

/-- Nothing happens beyond the end of the file. -/
lemma vacuumed_of_missing (hvalid : ForkValid fork) (hin : FSMAddress.InTree ⟨l, p⟩)
    (h : fork.length ≤ fsmLogicalToPhysical ⟨l, p⟩) : Vacuumed l p fork (none, fork) :=
  ⟨rfl, fun _ _ => rfl, hvalid, fun _ _ => rfl, by rw [pageAt_length h]; rfl, .of_missing hin h, fun _ => h⟩

/-- The end of the work on a page starts its search from the first slot again. -/
lemma vacuumed_finish (hvalid : ForkValid fork) (hin : FSMAddress.InTree ⟨l, p⟩)
    (h : fsmLogicalToPhysical ⟨l, p⟩ < fork.length) (hexact : ExactUnder fork l p) :
    Vacuumed l p fork (some (fsmGetMaxAvail (pageAt fork (fsmLogicalToPhysical ⟨l, p⟩))),
      fork.set (fsmLogicalToPhysical ⟨l, p⟩)
        { pageAt fork (fsmLogicalToPhysical ⟨l, p⟩) with fpNextSlot := 0 }) := by
  have hnodes : ∀ blk, (pageAt (fork.set (fsmLogicalToPhysical ⟨l, p⟩)
      { pageAt fork (fsmLogicalToPhysical ⟨l, p⟩) with fpNextSlot := 0 }) blk).fpNodes = (pageAt fork blk).fpNodes := by
    intro blk
    rw [pageAt_set h]
    by_cases hblk : blk = fsmLogicalToPhysical ⟨l, p⟩
    · rw [hblk, Function.update_self]
    · rw [Function.update_of_ne hblk]
  constructor
  case length => rw [List.length_set]
  case frame =>
    intro blk hout
    have hne : blk ≠ fsmLogicalToPhysical ⟨l, p⟩ := fun heq => hout (heq ▸ inSubtree_self l p)
    rw [pageAt_set h, Function.update_of_ne hne]
  case valid =>
    intro blk
    rw [FSMPage.Valid, hnodes blk]
    exact hvalid blk
  case bottom => exact fun q _ => (avail_of_nodes (hnodes _)).1
  case root => exact (avail_of_nodes (hnodes _)).2.symm
  case exact => exact hexact.congr hin fun blk _ => avail_of_nodes (hnodes blk)
  case missing => exact fun hnone => absurd hnone (Option.some_ne_none _)

/-- The loop over the slots: so far every slot has the root of its child, and at the end of the file nothing follows. -/
lemma vacuumSlots_spec {child : (slot : Nat) → Fork → Option Nat × Fork} (hin : FSMAddress.InTree ⟨l + 1, p⟩)
    (hchild : ∀ slot < slotsPerFSMPage, ∀ fork, ForkValid fork →
      Vacuumed l (fsmGetChild ⟨l + 1, p⟩ slot).logpageno fork (child slot fork))
    {eof : Bool} (hn : slot + n = slotsPerFSMPage) (hvalid : ForkValid fork)
    (hlen : fsmLogicalToPhysical ⟨l + 1, p⟩ < fork.length)
    (heof : eof = true → ∀ s, slot ≤ s → s < slotsPerFSMPage →
      fork.length ≤ fsmLogicalToPhysical (fsmGetChild ⟨l + 1, p⟩ s))
    (hdone : ∀ s < slot, fsmGetAvail (pageAt fork (fsmLogicalToPhysical ⟨l + 1, p⟩)) s =
        fsmGetMaxAvail (pageAt fork (fsmLogicalToPhysical (fsmGetChild ⟨l + 1, p⟩ s))) ∧
      ExactUnder fork l (fsmGetChild ⟨l + 1, p⟩ s).logpageno)
    {result : Fork} (hresult : result = vacuumSlots child (fsmLogicalToPhysical ⟨l + 1, p⟩) n slot eof fork) :
    result.length = fork.length ∧ (∀ blk, ¬InSubtree (l + 1) p blk → pageAt result blk = pageAt fork blk) ∧
      ForkValid result ∧
      (∀ q, FSMAddress.InTree ⟨0, q⟩ → fsmGetAvail (pageAt result (fsmLogicalToPhysical ⟨0, q⟩)) =
        fsmGetAvail (pageAt fork (fsmLogicalToPhysical ⟨0, q⟩))) ∧ ExactUnder result (l + 1) p := by
  induction n generalizing slot eof fork with
  | zero =>
    subst hresult
    exact ⟨rfl, fun _ _ => rfl, hvalid, fun _ _ => rfl, fun s hs => hdone s (by omega)⟩
  | succ n ih =>
    have hslot : slot < slotsPerFSMPage := by omega
    obtain ⟨hchildIn, hplace⟩ := physical_child hin hslot
    rw [vacuumSlots] at hresult
    -- the child, or nothing after the end of the file
    obtain ⟨r, hr, hvac⟩ : ∃ r, (if eof = true then (none, fork) else child slot fork) = r ∧
        Vacuumed l (fsmGetChild ⟨l + 1, p⟩ slot).logpageno fork r := by
      refine ⟨_, rfl, ?_⟩
      split
      case isTrue htrue => exact vacuumed_of_missing hvalid hchildIn (heof htrue slot le_rfl hslot)
      case isFalse => exact hchild slot hslot fork hvalid
    rw [hr] at hresult
    have hlen' : fsmLogicalToPhysical ⟨l + 1, p⟩ < r.2.length := by rwa [hvac.length]
    have hself : pageAt r.2 (fsmLogicalToPhysical ⟨l + 1, p⟩) = pageAt fork (fsmLogicalToPhysical ⟨l + 1, p⟩) :=
      hvac.frame _ fun h => (h.of_child hin hslot).2 rfl
    -- the slot gets the root of the child
    obtain ⟨next, hnext, hnextLen, page, hone, hpage, havail⟩ : ∃ next : Fork,
        (if fsmGetAvail (pageAt r.2 (fsmLogicalToPhysical ⟨l + 1, p⟩)) slot ≠ r.1.getD 0 then
          r.2.set (fsmLogicalToPhysical ⟨l + 1, p⟩)
            (fsmSetAvail (pageAt r.2 (fsmLogicalToPhysical ⟨l + 1, p⟩)) slot (r.1.getD 0)).2
        else r.2) = next ∧ next.length = r.2.length ∧
        ∃ page, OnePage r.2 next ⟨l + 1, p⟩ page ∧ page.Valid ∧ fsmGetAvail page =
          Function.update (fsmGetAvail (pageAt r.2 (fsmLogicalToPhysical ⟨l + 1, p⟩))) slot (r.1.getD 0) := by
      refine ⟨_, rfl, ?_⟩
      split
      case isTrue =>
        exact ⟨List.length_set, _, pageAt_set hlen', fsmSetAvail_valid (hvac.valid _) hslot _,
          fsmSetAvail_avail hslot _ _⟩
      case isFalse hsame =>
        rw [ne_eq, not_not] at hsame
        refine ⟨rfl, _, (Function.update_eq_self _ _).symm, hvac.valid _, ?_⟩
        rw [← hsame, Function.update_eq_self]
    rw [hnext] at hresult
    have hother : ∀ blk, blk ≠ fsmLogicalToPhysical ⟨l + 1, p⟩ → pageAt next blk = pageAt r.2 blk := by
      intro blk hblk
      rw [show pageAt next = _ from hone, Function.update_of_ne hblk]
    have hupper : ∀ q, FSMAddress.InTree ⟨0, q⟩ → fsmLogicalToPhysical ⟨0, q⟩ ≠ fsmLogicalToPhysical ⟨l + 1, p⟩ := by
      intro q hq heq
      cases physical_inj hq hin heq
    have hstep := ih (show slot + 1 + n = slotsPerFSMPage by omega) (hone.valid hvac.valid hpage)
      (by omega) ?_ ?_ hresult
    · obtain ⟨hlength, hframe, hresultValid, hbottom, hexact⟩ := hstep
      refine ⟨hlength.trans (hnextLen.trans hvac.length), fun blk hout => ?_, hresultValid, fun q hq => ?_, hexact⟩
      · have hne : blk ≠ fsmLogicalToPhysical ⟨l + 1, p⟩ := fun heq => hout (heq ▸ inSubtree_self (l + 1) p)
        rw [hframe blk hout, hother blk hne]
        exact hvac.frame blk fun h => hout (h.of_child hin hslot).1
      · rw [hbottom q hq, hother _ (hupper q hq), hvac.bottom q hq]
    · intro hnone s hs hslt
      have hgone := hvac.missing (Option.isNone_iff_eq_none.mp hnone)
      rw [childAddress, hplace] at hgone
      rw [(physical_child hin hslt).2, hnextLen, hvac.length]
      have hmul := Nat.mul_le_mul_right (subtreePages l) (show slot ≤ s by omega)
      omega
    · intro s hs
      have hslt : s < slotsPerFSMPage := by omega
      -- the root and the tree of a child, after the work on this slot
      have hchildNe : ∀ s' < slotsPerFSMPage, ∀ blk, InSubtree l (fsmGetChild ⟨l + 1, p⟩ s').logpageno blk →
          pageAt next blk = pageAt r.2 blk := fun s' hs' blk hblk => hother blk (hblk.of_child hin hs').2
      rw [show pageAt next (fsmLogicalToPhysical ⟨l + 1, p⟩) = page by
        rw [show pageAt next = _ from hone, Function.update_self], havail]
      rcases Nat.lt_succ_iff_lt_or_eq.mp hs with hs | rfl
      · have hframe : ∀ blk, InSubtree l (fsmGetChild ⟨l + 1, p⟩ s).logpageno blk →
            pageAt next blk = pageAt fork blk := by
          intro blk hblk
          rw [hchildNe s hslt blk hblk]
          exact hvac.frame blk (hblk.ne_child hin hs hslot)
        obtain ⟨heq, hunder⟩ := hdone s hs
        rw [Function.update_of_ne hs.ne, hself, heq]
        refine ⟨?_, hunder.congr (physical_child hin hslt).1 fun blk hblk =>
          avail_of_nodes (congrArg FSMPage.fpNodes (hframe blk hblk))⟩
        exact congrArg fsmGetMaxAvail (hframe _ (inSubtree_self l _)).symm
      · rw [Function.update_self, hvac.root]
        refine ⟨?_, hvac.exact.congr hchildIn fun blk hblk =>
          avail_of_nodes (congrArg FSMPage.fpNodes (hchildNe s hslt blk hblk))⟩
        exact congrArg fsmGetMaxAvail (hchildNe s hslt _ (inSubtree_self l _)).symm

lemma fsmVacuumPage_spec (hin : FSMAddress.InTree ⟨l, p⟩) (hvalid : ForkValid fork) :
    Vacuumed l p fork (fsmVacuumPage l p fork) := by
  induction l generalizing p fork with
  | zero =>
    rw [fsmVacuumPage]
    split
    case isTrue hend => exact vacuumed_of_missing hvalid hin hend
    case isFalse hmore => exact vacuumed_finish hvalid hin (not_le.mp hmore) trivial
  | succ l ih =>
    rw [fsmVacuumPage]
    split
    case isTrue hend => exact vacuumed_of_missing hvalid hin hend
    case isFalse hmore =>
      dsimp only
      generalize hresult : vacuumSlots _ _ slotsPerFSMPage 0 false fork = result
      obtain ⟨hlen, hframe, hvalid', hbottom, hexact⟩ := vacuumSlots_spec hin
        (fun slot hslot fork hfork => ih (physical_child hin hslot).1 hfork)
        (show 0 + slotsPerFSMPage = slotsPerFSMPage from Nat.zero_add _) hvalid (not_le.mp hmore)
        (fun h : false = true => Bool.noConfusion h) (fun s hs => absurd hs (Nat.not_lt_zero s)) hresult.symm
      have hfinish := vacuumed_finish hvalid' hin (by rw [hlen]; exact not_le.mp hmore) hexact
      constructor
      case length => exact hfinish.length.trans hlen
      case frame => exact fun blk hout => (hfinish.frame blk hout).trans (hframe blk hout)
      case valid => exact hfinish.valid
      case bottom => exact fun q hq => (hfinish.bottom q hq).trans (hbottom q hq)
      case root => exact hfinish.root
      case exact => exact hfinish.exact
      case missing => exact fun hnone => absurd hnone (Option.some_ne_none _)

/-- After the vacuum the root is not below any heap block. -/
lemma catOf_le_root (hvalid : ForkValid fork) (hexact : ExactUnder fork fsmRootLevel 0) (hblk : blk < heapBlocks) :
    catOf fork blk ≤ fsmGetMaxAvail (pageAt fork (fsmLogicalToPhysical fsmRootAddress)) := by
  have hq := logpageno_lt hblk
  have hp : blk / slotsPerFSMPage / slotsPerFSMPage < slotsPerFSMPage := Nat.div_lt_of_lt_mul hq
  obtain ⟨hroot, hunder⟩ := hexact (blk / slotsPerFSMPage / slotsPerFSMPage) hp
  rw [show (fsmGetChild ⟨1 + 1, 0⟩ (blk / slotsPerFSMPage / slotsPerFSMPage)).logpageno =
    blk / slotsPerFSMPage / slotsPerFSMPage by rw [fsmGetChild, Nat.zero_mul, Nat.zero_add]] at hunder
  obtain ⟨hmiddle, -⟩ := hunder (blk / slotsPerFSMPage % slotsPerFSMPage) (Nat.mod_lt _ (by decide))
  have hbottom : fsmGetChild ⟨0 + 1, blk / slotsPerFSMPage / slotsPerFSMPage⟩
      (blk / slotsPerFSMPage % slotsPerFSMPage) = (fsmGetLocation blk).1 := by
    rw [fsmGetChild, fsmGetLocation, Nat.mul_comm, Nat.div_add_mod]
    rfl
  rw [hbottom] at hmiddle
  have hchild : fsmGetChild ⟨1 + 1, 0⟩ (blk / slotsPerFSMPage / slotsPerFSMPage) =
      ⟨0 + 1, blk / slotsPerFSMPage / slotsPerFSMPage⟩ := by
    rw [fsmGetChild, Nat.zero_mul, Nat.zero_add]
    rfl
  rw [hchild] at hroot
  calc catOf fork blk
      ≤ fsmGetMaxAvail (pageAt fork (fsmLogicalToPhysical (fsmGetLocation blk).1)) :=
        (hvalid _).le_root (location_slot blk)
    _ ≤ fsmGetMaxAvail (pageAt fork (fsmLogicalToPhysical ⟨0 + 1, blk / slotsPerFSMPage / slotsPerFSMPage⟩)) :=
        hmiddle.ge.trans ((hvalid _).le_root (Nat.mod_lt _ (by decide)))
    _ ≤ fsmGetMaxAvail (pageAt fork (fsmLogicalToPhysical fsmRootAddress)) :=
        hroot.ge.trans ((hvalid _).le_root hp)

/-- When the upper pages are exact, the search goes straight down. -/
lemma searchLoop_exact {minCat fuel : Nat} (hvalid : ForkValid fork) (hin : FSMAddress.InTree ⟨l, p⟩)
    (hexact : ExactUnder fork l p) (hmin : 0 < minCat)
    (hroot : minCat ≤ fsmGetMaxAvail (pageAt fork (fsmLogicalToPhysical ⟨l, p⟩))) (hfuel : l + 1 ≤ fuel) :
    ∃ blk fork', searchLoop minCat fuel fork ⟨l, p⟩ 0 = some (some blk, fork') := by
  induction l generalizing p fork fuel with
  | zero =>
    obtain ⟨fuel, rfl⟩ := Nat.exists_eq_add_of_le' hfuel
    obtain ⟨-, -, -, hfound⟩ := searchPage_spec hvalid hmin (rfl : _ = searchPage fork ⟨0, p⟩ minCat)
    rcases hfound with ⟨-, hlow⟩ | ⟨slot, hsome, -, -⟩
    · omega
    · rw [searchLoop]
      dsimp only
      rw [hsome]
      exact ⟨_, _, rfl⟩
  | succ l ih =>
    obtain ⟨fuel, rfl⟩ := Nat.exists_eq_add_of_le' hfuel
    obtain ⟨hvalid', havail, hmax, hfound⟩ := searchPage_spec hvalid hmin (rfl : _ = searchPage fork ⟨l + 1, p⟩ minCat)
    rcases hfound with ⟨-, hlow⟩ | ⟨slot, hsome, hslot, henough⟩
    · omega
    · obtain ⟨heq, hunder⟩ := hexact slot hslot
      have hchildIn := (physical_child hin hslot).1
      have hdown : minCat ≤ fsmGetMaxAvail (pageAt fork (fsmLogicalToPhysical (fsmGetChild ⟨l + 1, p⟩ slot))) :=
        henough.trans heq.le
      have hunder' := hunder.congr hchildIn fun blk _ => ⟨havail blk, hmax blk⟩
      rw [← Nat.add_assoc, searchLoop]
      dsimp only
      rw [hsome]
      dsimp only
      rw [if_neg (Nat.succ_ne_zero l)]
      exact ih hvalid' hchildIn hunder' (by rw [hmax]; exact hdown) (Nat.le_add_left _ _)

/-- When the upper pages are exact, the search misses no block. -/
lemma fsmSearch_exact {minCat : Nat} (hvalid : ForkValid fork) (hexact : ExactUnder fork fsmRootLevel 0)
    (hmin : 0 < minCat) : (fsmSearch fork minCat).1 = none ↔ ∀ blk < heapBlocks, catOf fork blk < minCat := by
  have hroot : fsmRootAddress.InTree := .inl ⟨rfl, rfl⟩
  constructor
  · intro hnone blk hblk
    refine (catOf_le_root hvalid hexact hblk).trans_lt ?_
    by_contra hge
    obtain ⟨blk, fork', hfound⟩ := searchLoop_exact hvalid hroot hexact hmin (not_lt.mp hge)
      (by decide : 2 + 1 ≤ searchFuel)
    rw [fsmSearch, show fsmRootAddress = ⟨fsmRootLevel, 0⟩ from rfl, hfound] at hnone
    cases hnone
  · intro hall
    cases hsearch : (fsmSearch fork minCat).1 with
    | none => rfl
    | some blk =>
      obtain ⟨n, hlt, -, hle⟩ := (fsmSearch_spec hvalid hmin).2.2 blk hsearch
      exact absurd (hall n hlt) (not_lt.mpr hle)

end vacuum

/-! ## Categories -/

/-- A page with a category that is high enough has the space. -/
lemma le_of_cat {needed avail cat : Nat} (hcat : fsmSpaceNeededToCat needed = some cat)
    (hle : cat ≤ fsmSpaceAvailToCat avail) : needed ≤ avail := by
  simp only [fsmSpaceNeededToCat, fsmSpaceAvailToCat, maxFSMRequestSize, fsmCatStep] at hcat hle
  split at hcat
  · cases hcat
  · split at hcat
    · omega
    · cases hcat
      split at hle <;> split at hle <;> (try split at hle) <;> omega

lemma needed_pos {needed cat : Nat} (hcat : fsmSpaceNeededToCat needed = some cat) : 0 < cat := by
  simp only [fsmSpaceNeededToCat, maxFSMRequestSize, fsmCatStep] at hcat
  split at hcat
  · cases hcat
  · split at hcat
    · cases hcat
      exact Nat.one_pos
    · cases hcat
      split <;> omega

/-! ## Runs -/

inductive FsmOp where
  | get (spaceNeeded : Nat)
  | recordAndGet (oldPage oldSpaceAvail spaceNeeded : Nat)
  | record (heapBlk spaceAvail : Nat)
  | update (startBlkNum endBlkNum freespace : Nat)
  | truncate (nblocks : Nat)
  | vacuum

/-- The block that the operation returns and the map after it; a request that is too large is an error. -/
def FsmOp.run (fork : Fork) : FsmOp → Option Nat × Fork
  | get spaceNeeded => (getPageWithFreeSpace fork spaceNeeded).getD (none, fork)
  | recordAndGet oldPage oldSpaceAvail spaceNeeded =>
    (recordAndGetPageWithFreeSpace fork oldPage oldSpaceAvail spaceNeeded).getD (none, fork)
  | record heapBlk spaceAvail => (none, recordPageWithFreeSpace fork heapBlk spaceAvail)
  | update startBlkNum endBlkNum freespace => (none, updateFreeSpaceMap startBlkNum endBlkNum freespace fork)
  | truncate nblocks => (none, freeSpaceMapTruncateRel fork nblocks)
  | vacuum => (none, freeSpaceMapVacuum fork)

/-- The space of each block as it was recorded last -/
def FsmOp.note (avail : Nat → Nat) : FsmOp → Nat → Nat
  | recordAndGet oldPage oldSpaceAvail spaceNeeded =>
    if spaceNeeded ≤ maxFSMRequestSize then Function.update avail oldPage oldSpaceAvail else avail
  | record heapBlk spaceAvail => Function.update avail heapBlk spaceAvail
  | truncate nblocks => fun blk => if blk < nblocks then avail blk else 0
  | _ => avail

/-- The space that the operation asks for -/
def FsmOp.needed : FsmOp → Option Nat
  | get spaceNeeded | recordAndGet _ _ spaceNeeded => some spaceNeeded
  | _ => none

/-- The arguments are block numbers. -/
def FsmOp.BlockNumbers : FsmOp → Prop
  | recordAndGet oldPage _ _ => oldPage < 2 ^ 32
  | record heapBlk _ => heapBlk < 2 ^ 32
  | update _ endBlkNum _ => endBlkNum < 2 ^ 32
  | truncate nblocks => nblocks < 2 ^ 32
  | _ => True

/-- The map and the recorded space after some operations on a new relation -/
def runOps (ops : List FsmOp) : Fork × (Nat → Nat) :=
  ops.foldl (fun s op => ((op.run s.1).2, op.note s.2)) ([], fun _ => 0)

section run

variable {fork : Fork} {avail : Nat → Nat} {needed cat : Nat}

/-- The bottom pages have the category of what was recorded last, and nothing is recorded beyond the block numbers. -/
structure Recorded (fork : Fork) (avail : Nat → Nat) : Prop where
  valid : ForkValid fork
  cats : ∀ blk < heapBlocks, catOf fork blk = fsmSpaceAvailToCat (avail blk)
  beyond : ∀ blk, 2 ^ 32 ≤ blk → avail blk = 0

lemma recorded_new : Recorded [] fun _ => 0 :=
  ⟨fun _ => zeroPage_valid, fun _ _ => rfl, fun _ _ => rfl⟩

section

variable (h : Recorded fork avail)
include h

/-- A slot that is found has a block number, which is not cut. -/
lemma Recorded.cut {n minCat : Nat} (hle : minCat ≤ fsmSpaceAvailToCat (avail n)) :
    minCat ≤ fsmSpaceAvailToCat (avail (n % 2 ^ 32)) := by
  rcases Nat.lt_or_ge n (2 ^ 32) with hlt | hge
  · rwa [Nat.mod_eq_of_lt hlt]
  · rw [h.beyond n hge] at hle
    exact hle.trans (Nat.zero_le _)

lemma Recorded.search (hcat : fsmSpaceNeededToCat needed = some cat) :
    Recorded (fsmSearch fork cat).2 avail ∧ ∀ blk, (fsmSearch fork cat).1 = some blk → needed ≤ avail blk := by
  obtain ⟨hvalid, hcats, hfound⟩ := fsmSearch_spec h.valid (needed_pos hcat)
  refine ⟨⟨hvalid, fun blk hblk => (hcats blk hblk).trans (h.cats blk hblk), h.beyond⟩, fun blk hblk => ?_⟩
  obtain ⟨n, hlt, rfl, hle⟩ := hfound blk hblk
  rw [h.cats n hlt] at hle
  exact le_of_cat hcat (h.cut hle)

/-- The slot of a block gets its category, and the search within the page finds enough space. -/
lemma Recorded.set {blk spaceAvail minValue : Nat} (hblk : blk < 2 ^ 32) {r : Option Nat × Fork}
    (hr : r = fsmSetAndSearch fork (fsmGetLocation blk).1 (fsmGetLocation blk).2 (fsmSpaceAvailToCat spaceAvail)
      minValue true) :
    Recorded r.2 (Function.update avail blk spaceAvail) ∧ ∀ slot, r.1 = some slot →
      minValue ≤ fsmSpaceAvailToCat
        (Function.update avail blk spaceAvail (fsmGetHeapBlk (fsmGetLocation blk).1 slot)) := by
  have hin := location_inTree (blockNumber_lt hblk)
  obtain ⟨page, hone, hpage, havail, hfound⟩ := setAndSearch_spec h.valid (fsmGetLocation blk).1 (location_slot blk) hr
  have hcats : ∀ blk' < heapBlocks,
      catOf r.2 blk' = fsmSpaceAvailToCat (Function.update avail blk spaceAvail blk') := by
    intro blk' hblk'
    rw [hone.catOf_bottom hin hblk', havail]
    by_cases hsame : blk' = blk
    · rw [hsame, if_pos rfl, Function.update_self, Function.update_self]
    · rw [Function.update_of_ne hsame, ← h.cats blk' hblk']
      split
      case isTrue hpageSame =>
        have hslot : (fsmGetLocation blk').2 ≠ (fsmGetLocation blk).2 := by
          intro hslot
          rw [← slotBlk_location blk', ← slotBlk_location blk, hpageSame, hslot] at hsame
          exact hsame rfl
        rw [Function.update_of_ne hslot, catOf, hpageSame]
      case isFalse => rfl
  have hbeyond : ∀ blk', 2 ^ 32 ≤ blk' → Function.update avail blk spaceAvail blk' = 0 := by
    intro blk' hblk'
    rw [Function.update_of_ne (hblk.trans_le hblk').ne']
    exact h.beyond blk' hblk'
  have hrecorded : Recorded r.2 (Function.update avail blk spaceAvail) := ⟨hone.valid h.valid hpage, hcats, hbeyond⟩
  refine ⟨hrecorded, fun slot hslot => ?_⟩
  obtain ⟨hlt, hle⟩ := hfound slot hslot
  have hlevel : (fsmGetLocation blk).1.level = 0 := rfl
  have hheap := slotBlk_lt hin hlevel hlt
  have henough : minValue ≤
      fsmSpaceAvailToCat (Function.update avail blk spaceAvail (slotBlk (fsmGetLocation blk).1 slot)) := by
    rw [← hcats _ hheap, hone.catOf_bottom hin hheap, location_slotBlk hlevel hlt, if_pos rfl]
    exact hle
  exact hrecorded.cut henough

lemma Recorded.upper {levels : Nat} {addr : FSMAddress} (hin : addr.InTree)
    (hlevels : addr.level + levels = fsmRootLevel) (newCat : Nat) :
    Recorded (fsmUpdateRecursive newCat levels addr fork) avail := by
  induction levels generalizing addr fork with
  | zero => exact h
  | succ levels ih =>
    obtain ⟨hparent, hlevel, hslot⟩ := parent_inTree hin (by omega)
    obtain ⟨page, hone, hpage, -, -⟩ := setAndSearch_spec h.valid (fsmGetParent addr).1 hslot rfl
    refine ih ⟨hone.valid h.valid hpage, fun blk hblk => ?_, h.beyond⟩ hparent (by omega)
    rw [hone.catOf_upper hparent (by omega) hblk]
    exact h.cats blk hblk

lemma Recorded.updateLoop {endBlkNum newCat fuel blockNum : Nat} (hend : endBlkNum < 2 ^ 32) :
    Recorded (updateLoop endBlkNum newCat fuel blockNum fork).1 avail := by
  induction fuel generalizing blockNum fork with
  | zero => exact h
  | succ fuel ih =>
    rw [Freespace.updateLoop]
    split
    case isTrue hle =>
      have hpage := h.upper (location_inTree (blockNumber_lt (hle.trans_lt hend)))
        (Nat.add_sub_cancel' (Nat.zero_le fsmRootLevel)) newCat
      dsimp only
      split
      case isTrue => exact hpage
      case isFalse => exact ih hpage
    case isFalse => exact h

lemma Recorded.vacuum :
    Recorded (freeSpaceMapVacuum fork) avail ∧ ExactUnder (freeSpaceMapVacuum fork) fsmRootLevel 0 := by
  have hvac := fsmVacuumPage_spec (l := fsmRootLevel) (p := 0) (.inl ⟨rfl, rfl⟩) h.valid
  refine ⟨⟨hvac.valid, fun blk hblk => ?_, h.beyond⟩, hvac.exact⟩
  rw [← h.cats blk hblk, catOf, catOf, freeSpaceMapVacuum]
  exact congrFun (hvac.bottom _ (location_inTree hblk)) _

/-- What is left of the file has the categories of the blocks that are left. -/
lemma Recorded.truncate {nblocks : Nat} (hnblocks : nblocks < heapBlocks) :
    Recorded (freeSpaceMapTruncateRel fork nblocks) fun blk => if blk < nblocks then avail blk else 0 := by
  have hbeyond : ∀ blk, 2 ^ 32 ≤ blk → (if blk < nblocks then avail blk else 0) = 0 := by
    intro blk hblk
    rw [h.beyond blk hblk, ite_self]
  have hplace : ∀ blk < heapBlocks,
      (fsmLogicalToPhysical (fsmGetLocation blk).1 < fsmLogicalToPhysical (fsmGetLocation nblocks).1 ↔
        blk / slotsPerFSMPage < nblocks / slotsPerFSMPage) ∧
      (fsmLogicalToPhysical (fsmGetLocation nblocks).1 < fsmLogicalToPhysical (fsmGetLocation blk).1 ↔
        nblocks / slotsPerFSMPage < blk / slotsPerFSMPage) := fun blk hblk =>
    ⟨physical_bottom_lt (logpageno_lt hblk) (logpageno_lt hnblocks),
      physical_bottom_lt (logpageno_lt hnblocks) (logpageno_lt hblk)⟩
  have horder : ∀ blk, (blk / slotsPerFSMPage < nblocks / slotsPerFSMPage → blk < nblocks) ∧
      (nblocks / slotsPerFSMPage < blk / slotsPerFSMPage → ¬blk < nblocks) ∧
      (blk / slotsPerFSMPage = nblocks / slotsPerFSMPage →
        (blk < nblocks ↔ ¬nblocks % slotsPerFSMPage ≤ blk % slotsPerFSMPage)) := by
    intro blk
    simp only [slotsPerFSMPage]
    omega
  have hslot : (fsmGetLocation nblocks).2 = nblocks % slotsPerFSMPage := rfl
  rw [freeSpaceMapTruncateRel]
  split
  case isTrue hend =>
    refine ⟨h.valid, fun blk hblk => ?_, hbeyond⟩
    split
    case isTrue => exact h.cats blk hblk
    case isFalse hge =>
      have hnot : ¬blk / slotsPerFSMPage < nblocks / slotsPerFSMPage := fun hlt => hge ((horder blk).1 hlt)
      rw [← (hplace blk hblk).1, not_lt] at hnot
      rw [catOf, pageAt_length (hend.trans hnot)]
      rfl
  case isFalse hend =>
    rw [not_le] at hend
    split
    case isTrue hpart =>
      have hpages : ∀ x, pageAt ((fork.set (fsmLogicalToPhysical (fsmGetLocation nblocks).1)
          (fsmTruncateAvail (pageAt fork (fsmLogicalToPhysical (fsmGetLocation nblocks).1))
            (fsmGetLocation nblocks).2).2).take (fsmLogicalToPhysical (fsmGetLocation nblocks).1 + 1)) x =
          if x < fsmLogicalToPhysical (fsmGetLocation nblocks).1 + 1 then
            Function.update (pageAt fork) (fsmLogicalToPhysical (fsmGetLocation nblocks).1)
              (fsmTruncateAvail (pageAt fork (fsmLogicalToPhysical (fsmGetLocation nblocks).1))
                (fsmGetLocation nblocks).2).2 x
          else zeroPage := fun x => by rw [pageAt_take, pageAt_set hend]
      refine ⟨fun x => ?_, fun blk hblk => ?_, hbeyond⟩
      · rw [hpages]
        split
        · by_cases hx : x = fsmLogicalToPhysical (fsmGetLocation nblocks).1
          · rw [hx, Function.update_self]
            exact fsmTruncateAvail_valid (h.valid _)
          · rw [Function.update_of_ne hx]
            exact h.valid x
        · exact zeroPage_valid
      · rw [catOf, hpages]
        obtain ⟨hbefore, hlater, hsame⟩ := horder blk
        rcases lt_trichotomy (blk / slotsPerFSMPage) (nblocks / slotsPerFSMPage) with hlt | heq | hgt
        · have hphys := (hplace blk hblk).1.mpr hlt
          rw [if_pos (by omega), Function.update_of_ne hphys.ne, if_pos (hbefore hlt)]
          exact h.cats blk hblk
        · have hloc : (fsmGetLocation blk).1 = (fsmGetLocation nblocks).1 := by
            rw [fsmGetLocation, fsmGetLocation, heq]
          rw [hloc, if_pos (Nat.lt_succ_self _), Function.update_self,
            fsmTruncateAvail_avail (location_slot blk), hslot,
            show (fsmGetLocation blk).2 = blk % slotsPerFSMPage from rfl]
          have hiff := hsame heq
          split
          case isTrue hcut =>
            rw [if_neg fun hless => hiff.mp hless hcut]
            rfl
          case isFalse hkeep =>
            rw [if_pos (hiff.mpr hkeep), ← h.cats blk hblk, catOf, hloc]
            rfl
        · have hphys := (hplace blk hblk).2.mpr hgt
          rw [if_neg (by omega), if_neg (hlater hgt)]
          rfl
    case isFalse hwhole =>
      have hzero : nblocks % slotsPerFSMPage = 0 := Nat.eq_zero_of_not_pos hwhole
      refine ⟨fun x => ?_, fun blk hblk => ?_, hbeyond⟩
      · rw [pageAt_take]
        split
        · exact h.valid x
        · exact zeroPage_valid
      · rw [catOf, pageAt_take]
        split
        case isTrue hphys =>
          rw [if_pos ((horder blk).1 ((hplace blk hblk).1.mp hphys))]
          exact h.cats blk hblk
        case isFalse hphys =>
          have hge : ¬blk < nblocks := by
            have hquot : ¬blk / slotsPerFSMPage < nblocks / slotsPerFSMPage :=
              fun hlt => hphys ((hplace blk hblk).1.mpr hlt)
            simp only [slotsPerFSMPage] at hquot hzero
            omega
          rw [if_neg hge]
          rfl

/-- What an operation returns has the space that it asks for, and the categories stay those of what was recorded
last. -/
lemma Recorded.step {op : FsmOp} (hop : op.BlockNumbers) :
    Recorded (op.run fork).2 (op.note avail) ∧
      ∀ blk, (op.run fork).1 = some blk → ∃ needed, op.needed = some needed ∧ needed ≤ op.note avail blk := by
  cases op with
  | get spaceNeeded =>
    rw [FsmOp.run, getPageWithFreeSpace]
    cases hcat : fsmSpaceNeededToCat spaceNeeded with
    | none => exact ⟨h, nofun⟩
    | some cat =>
      obtain ⟨hrecorded, hfound⟩ := h.search hcat
      exact ⟨hrecorded, fun blk hblk => ⟨_, rfl, hfound blk hblk⟩⟩
  | recordAndGet oldPage oldSpaceAvail spaceNeeded =>
    rw [FsmOp.run, recordAndGetPageWithFreeSpace, FsmOp.note]
    cases hcat : fsmSpaceNeededToCat spaceNeeded with
    | none =>
      have hlarge : ¬spaceNeeded ≤ maxFSMRequestSize := by
        intro hle
        rw [fsmSpaceNeededToCat, if_neg (not_lt.mpr hle)] at hcat
        split at hcat <;> cases hcat
      rw [if_neg hlarge]
      exact ⟨h, nofun⟩
    | some cat =>
      have hsmall : spaceNeeded ≤ maxFSMRequestSize := by
        by_contra hlarge
        rw [fsmSpaceNeededToCat, if_pos (not_le.mp hlarge)] at hcat
        cases hcat
      rw [if_pos hsmall, Option.map_some, Option.getD_some]
      obtain ⟨r, hr⟩ : ∃ r, r = fsmSetAndSearch fork (fsmGetLocation oldPage).1 (fsmGetLocation oldPage).2
          (fsmSpaceAvailToCat oldSpaceAvail) cat true := ⟨_, rfl⟩
      obtain ⟨hrecorded, hfound⟩ := h.set hop hr
      dsimp only
      rw [← hr]
      cases hslot : r.1 with
      | none =>
        obtain ⟨hrecorded, hfound⟩ := hrecorded.search hcat
        exact ⟨hrecorded, fun blk hblk => ⟨_, rfl, hfound blk hblk⟩⟩
      | some slot =>
        refine ⟨hrecorded, fun blk hblk => ⟨_, rfl, ?_⟩⟩
        obtain rfl := Option.some_inj.mp hblk
        exact le_of_cat hcat (hfound slot hslot)
  | record heapBlk spaceAvail => exact ⟨(h.set hop rfl).1, nofun⟩
  | update startBlkNum endBlkNum freespace => exact ⟨h.updateLoop hop, nofun⟩
  | truncate nblocks => exact ⟨h.truncate (blockNumber_lt hop), nofun⟩
  | vacuum => exact ⟨h.vacuum.1, nofun⟩

end

lemma recorded_run {ops : List FsmOp} (hops : ∀ op ∈ ops, op.BlockNumbers) :
    Recorded (runOps ops).1 (runOps ops).2 := by
  have hstep : ∀ (ops : List FsmOp) (s : Fork × (Nat → Nat)), Recorded s.1 s.2 → (∀ op ∈ ops, op.BlockNumbers) →
      Recorded (ops.foldl (fun s op => ((op.run s.1).2, op.note s.2)) s).1
        (ops.foldl (fun s op => ((op.run s.1).2, op.note s.2)) s).2 := by
    intro ops
    induction ops with
    | nil => exact fun _ h _ => h
    | cons op ops ih =>
      intro s h hops
      exact ih _ (h.step (hops op List.mem_cons_self)).1 fun op' hop' => hops op' (List.mem_cons_of_mem _ hop')
  exact hstep ops _ recorded_new hops

end run

/-! ## The results -/

/-- Addresses have different places, children follow their parent in depth-first order, each after the subtrees before
it, and a slot of a bottom page is found again from its heap block exactly when that is a block number. -/
theorem fsm_layout {a b : FSMAddress} (ha : a.InTree) (hb : b.InTree) :
    (fsmLogicalToPhysical a = fsmLogicalToPhysical b → a = b) ∧
    (∀ slot < slotsPerFSMPage, a.level ≠ fsmBottomLevel →
      (fsmGetChild a slot).InTree ∧ fsmGetParent (fsmGetChild a slot) = (a, slot) ∧
      fsmLogicalToPhysical (fsmGetChild a slot) =
        fsmLogicalToPhysical a + 1 + slot * subtreePages (a.level - 1)) ∧
    ∀ slot < slotsPerFSMPage, a.level = fsmBottomLevel →
      (fsmGetLocation (fsmGetHeapBlk a slot) = (a, slot) ↔ a.logpageno * slotsPerFSMPage + slot < 2 ^ 32) := by
  refine ⟨physical_inj ha hb, fun slot hslot hupper => ?_, fun slot hslot hbottom => location_heapBlk_iff hbottom hslot⟩
  obtain ⟨l, p⟩ := a
  obtain ⟨l, rfl⟩ := Nat.exists_eq_succ_of_ne_zero hupper
  obtain ⟨hchild, hplace⟩ := physical_child ha hslot
  refine ⟨hchild, ?_, hplace⟩
  rw [fsmGetParent, fsmGetChild, Nat.mul_comm]
  dsimp only
  rw [Nat.mul_add_div (by decide), Nat.div_eq_of_lt hslot, Nat.mul_add_mod, Nat.mod_eq_of_lt hslot]
  rfl

theorem fsm_layout_middle : fsmGetParent (fsmGetChild ⟨1, 3⟩ 5) = (⟨1, 3⟩, 5) ∧
    fsmLogicalToPhysical (fsmGetChild ⟨1, 3⟩ 5) = fsmLogicalToPhysical ⟨1, 3⟩ + 1 + 5 * 1 :=
  have hin : FSMAddress.InTree ⟨1, 3⟩ := .inr (.inl ⟨rfl, by decide⟩)
  ((fsm_layout hin hin).2.1 5 (by decide) Nat.one_ne_zero).2

/-- After any operations on the map of a relation, a block that the map hands out had the space asked for when its
space was recorded last. -/
theorem fsm_hands_out_space {ops : List FsmOp} (hops : ∀ op ∈ ops, op.BlockNumbers) {op : FsmOp}
    (hop : op.BlockNumbers) {blk : Nat} (hblk : (op.run (runOps ops).1).1 = some blk) :
    ∃ needed, op.needed = some needed ∧ needed ≤ op.note (runOps ops).2 blk :=
  ((recorded_run hops).step hop).2 blk hblk

/-- Block 6 has the space that is asked for next. -/
lemma recordAndGet_six {ops : List FsmOp} (hops : ∀ op ∈ ops, op.BlockNumbers) :
    ∃ blk, ((FsmOp.recordAndGet 6 100 60).run (runOps ops).1).1 = some blk := by
  obtain ⟨slot, hslot⟩ := setAndSearch_found (recorded_run hops).valid (fsmGetLocation 6).1 (location_slot 6)
    (show 0 < 2 by decide) (show 2 ≤ fsmSpaceAvailToCat 100 by decide)
  refine ⟨fsmGetHeapBlk (fsmGetLocation 6).1 slot, ?_⟩
  rw [FsmOp.run, recordAndGetPageWithFreeSpace, show fsmSpaceNeededToCat 60 = some 2 from rfl, Option.map_some,
    Option.getD_some]
  dsimp only
  rw [hslot]

/-- Two pages of the map, a vacuum, a truncation and a block that turned out to be full. -/
def sampleOps : List FsmOp := [.record 5 200, .record 4077 300, .vacuum, .truncate 4077, .recordAndGet 5 0 60]

theorem fsm_hands_out_space_same_page :
    ∃ blk, ((FsmOp.recordAndGet 6 100 60).run (runOps sampleOps).1).1 = some blk ∧
      ∃ needed, (FsmOp.recordAndGet 6 100 60).needed = some needed ∧
        needed ≤ (FsmOp.recordAndGet 6 100 60).note (runOps sampleOps).2 blk := by
  have hops : ∀ op ∈ sampleOps, op.BlockNumbers := by simp [sampleOps, FsmOp.BlockNumbers]
  have hop : (FsmOp.recordAndGet 6 100 60).BlockNumbers := (by decide : (6 : Nat) < 2 ^ 32)
  obtain ⟨blk, hblk⟩ := recordAndGet_six hops
  exact ⟨blk, hblk, fsm_hands_out_space hops hop hblk⟩

/-- Right after a vacuum, the map gives up only if no block was recorded with a category that is high enough. -/
theorem fsm_vacuum_complete {ops : List FsmOp} (hops : ∀ op ∈ ops, op.BlockNumbers) {needed cat : Nat}
    (hcat : fsmSpaceNeededToCat needed = some cat) :
    ((FsmOp.get needed).run (runOps (ops ++ [.vacuum])).1).1 = none ↔
      ∀ blk < heapBlocks, fsmSpaceAvailToCat ((runOps ops).2 blk) < cat := by
  obtain ⟨hrecorded, hexact⟩ := (recorded_run hops).vacuum
  have hrun : (runOps (ops ++ [.vacuum])).1 = freeSpaceMapVacuum (runOps ops).1 := by
    rw [runOps, List.foldl_append]
    rfl
  rw [hrun, FsmOp.run, getPageWithFreeSpace, hcat, Option.map_some, Option.getD_some,
    fsmSearch_exact hrecorded.valid hexact (needed_pos hcat)]
  exact forall₂_congr fun blk hblk => by rw [hrecorded.cats blk hblk]

theorem fsm_vacuum_complete_one : ((FsmOp.get 60).run (runOps ([.record 5 100] ++ [.vacuum])).1).1 ≠ none := by
  intro hnone
  have hops : ∀ op ∈ [FsmOp.record 5 100], op.BlockNumbers := fun op hop => by
    obtain rfl := List.mem_singleton.mp hop
    exact (by decide : (5 : Nat) < 2 ^ 32)
  have hlow := (fsm_vacuum_complete hops (show fsmSpaceNeededToCat 60 = some 2 from rfl)).mp hnone 5 (by decide)
  exact absurd hlow (by decide)

end GaussKernel.Freespace
