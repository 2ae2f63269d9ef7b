import GaussKernel.Lib.Slide
import GaussKernel.UHeap.AddItem

/-!
# Compacting a page

`UPageRepairFragmentation` collects the rows with tuples and slides them together below `pd_special`, in decreasing
order of their offsets (`slide`). The target row is parked in a buffer meanwhile and put last, with more room.
-/

namespace GaussKernel.UHeap

open Lib

variable {page page' : UPage} {off target space : Nat} {item : ItemIdSort}

/-! ## The rows that are collected -/

/-- The further bytes of the rows. -/
def roomFor (target space off : Nat) : Nat := if off = target then space else 0

def itemOf (page : UPage) (target space off : Nat) : ItemIdSort :=
  ⟨off - 1, (page.rowPtr off).offset, alignedLen target space off (page.rowPtr off)⟩

/-- The unused row pointers were cleared. -/
structure Cleaned (page page' : UPage) : Prop where
  header : page.SameHeader page'
  used : ∀ i, 1 ≤ i → (page.rowPtr i).flags ≠ .unused → page'.rowPtr i = page.rowPtr i
  unused : ∀ i, 1 ≤ i → (page.rowPtr i).flags = .unused → (page'.rowPtr i).flags = .unused
  mem : ∀ a, page.pdLower ≤ a → page'.mem a = page.mem a

lemma Cleaned.stored (h : Cleaned page page') (i : Nat) : page'.Stored i ↔ page.Stored i := by
  rw [UPage.Stored, UPage.Stored, h.header.isRow]
  refine and_congr_right fun hi => ?_
  by_cases hunused : (page.rowPtr i).flags = .unused
  · simp [hunused, h.unused i hi.1 hunused]
  · rw [h.used i hi.1 hunused]

lemma Cleaned.setRowPtr (h : Cleaned page page') (ho : page.IsRow off) (hunused : (page.rowPtr off).flags = .unused) :
    Cleaned page (page'.setRowPtr off ⟨0, .unused, 0⟩) where
  header := h.header.trans ⟨rfl, rfl, rfl, rfl⟩
  used i hi hused := by
    have hne : i ≠ off := fun he => hused (he ▸ hunused)
    rw [UPage.rowPtr_setRowPtr_ne ho.1 hi hne, h.used i hi hused]
  unused i hi hi' := by
    by_cases hne : i = off
    · subst hne
      rw [UPage.rowPtr_setRowPtr ⟨by decide, by decide⟩]
    · rw [UPage.rowPtr_setRowPtr_ne ho.1 hi hne, h.unused i hi hi']
  mem a ha := by
    have hend := ho.rowPtrAddr_le
    have haddr : page'.rowPtrAddr off = page.rowPtrAddr off := rowPtrAddr_congr h.header.tdCount off
    rw [UPage.setRowPtr_mem (.inr (by omega)), h.mem a ha]

/-- What the loop has done when the row pointers `offs` are behind it. -/
structure Collected (target space : Nat) (page : UPage) (offs : List Nat) (s s' : Collect) : Prop where
  cleaned : Cleaned page s'.page
  items : s'.items = s.items ++ (offs.filter (page.Stored ·)).map (itemOf page target space)
  totallen : s.totallen < 2 ^ 64 → s'.totallen =
    (s.totallen + (((offs.filter (page.Stored ·)).map (itemOf page target space)).map ItemIdSort.alignedlen).sum) %
      2 ^ 64

lemma collectItem_collected {pdUpper pdSpecial : Nat} {s s' : Collect} (hs : Cleaned page s.page)
    (ho : page.IsRow off) (h : collectItem target space pdUpper pdSpecial s off = some s') :
    Collected target space page [off] s s' := by
  by_cases hunused : (page.rowPtr off).flags = .unused
  · have hskip : ¬ page.Stored off := fun hst => hst.2.1 hunused
    simp only [collectItem, hs.unused off ho.1 hunused, ne_eq, not_true_eq_false, if_false, Option.some.injEq] at h
    subst h
    exact ⟨hs.setRowPtr ho hunused, by simp [hskip], fun hlt => by simpa [hskip] using (Nat.mod_eq_of_lt hlt).symm⟩
  · have hrp := hs.used off ho.1 hunused
    simp only [collectItem, hrp, ne_eq, hunused, not_false_eq_true, if_true] at h
    split at h
    case isTrue hlen =>
      obtain ⟨-, h⟩ := Option.ite_none_left_eq_some.mp h
      obtain ⟨-, h⟩ := Option.ite_none_left_eq_some.mp h
      cases h
      have hst : page.Stored off := ⟨ho, hunused, hlen⟩
      exact ⟨hs, by simp [hst, itemOf], fun _ => by simp [hst, itemOf]⟩
    case isFalse hlen =>
      have hskip : ¬ page.Stored off := fun hst => hlen hst.2.2
      cases h
      exact ⟨hs, by simp [hskip], fun hlt => by simpa [hskip] using (Nat.mod_eq_of_lt hlt).symm⟩

lemma collectItem_foldlM {pdUpper pdSpecial : Nat} {offs : List Nat} {s s' : Collect} (hs : Cleaned page s.page)
    (ho : ∀ off ∈ offs, page.IsRow off)
    (h : offs.foldlM (collectItem target space pdUpper pdSpecial) s = some s') :
    Collected target space page offs s s' := by
  induction offs generalizing s with
  | nil =>
    cases h
    exact ⟨hs, by simp, fun hlt => by simpa using (Nat.mod_eq_of_lt hlt).symm⟩
  | cons off offs ih =>
    rw [List.foldlM_cons] at h
    obtain ⟨s₁, h₁, h₂⟩ := Option.bind_eq_some_iff.mp h
    have hfirst := collectItem_collected hs (ho off List.mem_cons_self) h₁
    have hrest := ih hfirst.cleaned (fun o hm => ho o (List.mem_cons_of_mem _ hm)) h₂
    have hsplit : (off :: offs).filter (page.Stored ·) =
      [off].filter (page.Stored ·) ++ offs.filter (page.Stored ·) := by
      rw [← List.filter_append, List.singleton_append]
    refine ⟨hrest.cleaned, ?_, fun hlt => ?_⟩
    · rw [hrest.items, hfirst.items, hsplit, List.map_append, List.append_assoc]
    · have hlt₁ : s₁.totallen < 2 ^ 64 := by
        rw [hfirst.totallen hlt]
        exact Nat.mod_lt _ (by decide)
      rw [hrest.totallen hlt₁, hfirst.totallen hlt, hsplit, List.map_append, List.map_append, List.sum_append,
        Nat.mod_add_mod, Nat.add_assoc]

/-! ## The moves -/

section

variable {curr : Nat} {bytes : List UInt8} (ho : page.IsRow off) (hcurr : page.pdLower ≤ curr)
include hcurr

/-- The row is copied behind the row pointers. -/
lemma poke_rowPtr {i : Nat} (hi : page.IsRow i) : (page.poke curr bytes).rowPtr i = page.rowPtr i :=
  UPage.rowPtr_poke (.inl (hi.rowPtrAddr_le.trans hcurr))

include ho

lemma placeRow_rowPtr : (placeRow page off curr bytes).rowPtr off =
    { page.rowPtr off with offset := curr % 2 ^ 15 } := by
  have hfits := UPage.rowPtr_fits page off
  rw [placeRow]
  dsimp only
  rw [poke_rowPtr hcurr ho]
  exact UPage.rowPtr_setRowPtr ⟨Nat.mod_lt _ (by decide), hfits.2⟩

lemma placeRow_rowPtr_ne {i : Nat} (hi : page.IsRow i) (hne : i ≠ off) :
    (placeRow page off curr bytes).rowPtr i = page.rowPtr i :=
  (UPage.rowPtr_setRowPtr_ne ho.1 hi.1 hne).trans (poke_rowPtr hcurr hi)

omit hcurr in
lemma placeRow_mem {a : Nat} (ha : page.pdLower ≤ a) :
    (placeRow page off curr bytes).mem a = page.mem.write curr bytes a :=
  UPage.setRowPtr_mem (.inr (ho.rowPtrAddr_le.trans ha))

end

/-- The move of an item that is not the target. -/
def moveItem (s : Compact) (item : ItemIdSort) : Compact :=
  let curr := s.curr - item.alignedlen
  { s with page := placeRow s.page item.off curr (s.page.mem.read item.itemoff item.alignedlen), curr := curr }

def movedItems (target : Nat) (items : List ItemIdSort) : List ItemIdSort := items.filter fun item => target ≠ item.off

/-- The loop moves the other items, whatever length it has taken down. -/
lemma compactItem_foldl (target : Nat) (items : List ItemIdSort) {s s₀ : Compact} (hpage : s.page = s₀.page)
    (hcurr : s.curr = s₀.curr) :
    (items.foldl (compactItem target) s).page = ((movedItems target items).foldl moveItem s₀).page ∧
      (items.foldl (compactItem target) s).curr = ((movedItems target items).foldl moveItem s₀).curr := by
  induction items generalizing s s₀ with
  | nil => exact ⟨hpage, hcurr⟩
  | cons item items ih =>
    rw [List.foldl_cons, movedItems, List.filter_cons]
    by_cases htarget : target = item.off
    · rw [if_neg (by simpa using htarget)]
      apply ih
      · rw [compactItem, if_pos htarget, hpage]
      · rw [compactItem, if_pos htarget, hcurr]
    · rw [if_pos (by simpa using htarget), List.foldl_cons]
      apply ih
      · simp only [compactItem, if_neg htarget, moveItem, hpage, hcurr]
      · simp only [compactItem, if_neg htarget, moveItem, hcurr]

variable {items : List ItemIdSort} {upage : UPage} {room : Nat → Nat}

lemma compactItem_newTupleLen_none (h : ∀ x ∈ items, target ≠ x.off) (s : Compact) :
    (items.foldl (compactItem target) s).newTupleLen = s.newTupleLen := by
  induction items generalizing s with
  | nil => rfl
  | cons item items ih =>
    rw [List.foldl_cons, ih (fun x hx => h x (List.mem_cons_of_mem _ hx)), compactItem,
      if_neg (h item List.mem_cons_self)]

/-- The length of the target is taken down. -/
lemma compactItem_newTupleLen (hoff : (items.map ItemIdSort.off).Nodup) (hitem : item ∈ items)
    (htarget : target = item.off) (s : Compact) :
    (items.foldl (compactItem target) s).newTupleLen = item.alignedlen % 2 ^ 16 := by
  induction items generalizing s with
  | nil => cases hitem
  | cons x items ih =>
    obtain ⟨hx, hrest⟩ := List.nodup_cons.mp hoff
    rw [List.foldl_cons]
    cases hitem with
    | head =>
      rw [compactItem_newTupleLen_none, compactItem, if_pos htarget]
      exact fun y hy he => hx (htarget ▸ he ▸ List.mem_map_of_mem hy)
    | tail _ hmem => exact ih hrest hmem _

/-- The other items and the target make up the whole. -/
lemma movedItems_sum (hoff : (items.map ItemIdSort.off).Nodup) (hitem : item ∈ items) (htarget : target = item.off) :
    (items.map ItemIdSort.alignedlen).sum =
      ((movedItems target items).map ItemIdSort.alignedlen).sum + item.alignedlen := by
  induction items with
  | nil => cases hitem
  | cons x items ih =>
    obtain ⟨hx, hrest⟩ := List.nodup_cons.mp hoff
    rw [List.map_cons, List.sum_cons, movedItems, List.filter_cons]
    cases hitem with
    | head =>
      have hall : items.filter (fun y => target ≠ y.off) = items := List.filter_eq_self.mpr fun y hy => by
        simpa using fun he : target = y.off => hx (htarget ▸ he ▸ List.mem_map_of_mem hy)
      rw [if_neg (by simpa using htarget), hall, Nat.add_comm]
    | tail _ hmem =>
      have hne : target ≠ x.off := fun he => hx (he ▸ htarget ▸ List.mem_map_of_mem hmem)
      rw [if_pos (by simpa using hne), List.map_cons, List.sum_cons, ih hrest hmem, movedItems, Nat.add_assoc]

/-- The places of the items are told by `slideTo`. -/
structure Slid (low : Nat) (bs : List ItemIdSort) (s s' : Compact) : Prop where
  header : s.page.SameHeader s'.page
  curr : s'.curr = slideEnd ItemIdSort.alignedlen s.curr bs
  mem : ∀ a, low ≤ a → s'.page.mem a = slide ItemIdSort.itemoff ItemIdSort.alignedlen s.page.mem s.curr bs a
  moved : ∀ b ∈ bs, s'.page.rowPtr b.off =
    { s.page.rowPtr b.off with offset := slideTo ItemIdSort.alignedlen s.curr bs b % 2 ^ 15 }
  kept : ∀ i, s.page.IsRow i → (∀ b ∈ bs, b.off ≠ i) → s'.page.rowPtr i = s.page.rowPtr i

/-- Moves above the row pointers. -/
lemma moveItem_slid {s : Compact} (hrow : s.page.IsRow item.off) (hlow : s.page.pdLower ≤ s.curr - item.alignedlen) :
    Slid s.page.pdLower [item] s (moveItem s item) := by
  refine ⟨⟨rfl, rfl, rfl, rfl⟩, rfl, fun a ha => placeRow_mem hrow ha, fun b hb => ?_, fun i hi hne => ?_⟩
  · obtain rfl := List.mem_singleton.mp hb
    rw [slideTo_head]
    exact placeRow_rowPtr hrow hlow
  · exact placeRow_rowPtr_ne hrow hlow hi (hne item List.mem_cons_self).symm

lemma moveItem_foldl {bs : List ItemIdSort} {s : Compact} (hrow : ∀ b ∈ bs, s.page.IsRow b.off)
    (hoff : (bs.map ItemIdSort.off).Nodup) (hsrc : ∀ b ∈ bs, s.page.pdLower ≤ b.itemoff)
    (hlow : s.page.pdLower ≤ slideEnd ItemIdSort.alignedlen s.curr bs) :
    Slid s.page.pdLower bs s (bs.foldl moveItem s) := by
  induction bs generalizing s with
  | nil => exact ⟨.refl _, rfl, fun _ _ => rfl, fun _ hb => (nomatch hb), fun _ _ _ => rfl⟩
  | cons b bs ih =>
    rw [slideEnd_cons] at hlow
    obtain ⟨hb, hrest⟩ := List.nodup_cons.mp hoff
    have hne : ∀ x ∈ bs, x.off ≠ b.off := fun x hx he => hb (he ▸ List.mem_map_of_mem hx)
    have hfirst := moveItem_slid (hrow b List.mem_cons_self) (hlow.trans (slideEnd_le _ _))
    have hpd : (moveItem s b).page.pdLower = s.page.pdLower := rfl
    have hslid := ih (fun x hx => hfirst.header.isRow.mpr (hrow x (List.mem_cons_of_mem _ hx))) hrest
      (fun x hx => hsrc x (List.mem_cons_of_mem _ hx)) hlow
    refine ⟨hfirst.header.trans hslid.header, ?_, fun a ha => ?_, fun x hx => ?_, fun i hi hother => ?_⟩
    · rw [slideEnd_cons]
      exact hslid.curr
    · rw [slide]
      refine (hslid.mem a ha).trans ?_
      exact slide_congr (fun x hx => hsrc x (List.mem_cons_of_mem _ hx)) (fun a ha => hfirst.mem a ha) ha
    · obtain rfl | hx := List.mem_cons.mp hx
      · rw [slideTo_head]
        refine (hslid.kept _ (hfirst.header.isRow.mpr (hrow _ List.mem_cons_self)) fun y hy => hne y hy).trans ?_
        refine (hfirst.moved _ List.mem_cons_self).trans ?_
        rw [slideTo_head]
      · have hxb : x ≠ b := fun he => hne x hx (he ▸ rfl)
        have hkept := hfirst.kept x.off (hrow x (List.mem_cons_of_mem _ hx)) fun y hy => by
          rw [List.mem_singleton.mp hy]
          exact (hne x hx).symm
        rw [slideTo_tail hxb]
        refine (hslid.moved x hx).trans ?_
        rw [hkept]
        rfl
    · have hkept := hfirst.kept i hi fun y hy => by
        rw [List.mem_singleton.mp hy]
        exact hother b List.mem_cons_self
      exact (hslid.kept i (hfirst.header.isRow.mpr hi) fun y hy => hother y (List.mem_cons_of_mem _ hy)).trans hkept

/-! ## The items of a page -/

/-- The rows with tuples, in the order of their numbers. -/
def storedRows (page : UPage) : List Nat := (List.range' 1 page.maxOffsetNumber).filter (page.Stored ·)

lemma mem_storedRows : off ∈ storedRows page ↔ page.Stored off := by
  rw [storedRows, List.mem_filter, List.mem_range'_1, decide_eq_true_eq]
  refine and_iff_right_of_imp fun hst => ?_
  have h1 := hst.1.1
  have h2 := hst.1.2
  omega

def pageItems (page : UPage) (target space : Nat) : List ItemIdSort :=
  (storedRows page).map (itemOf page target space)

lemma itemOf_off (h : 1 ≤ off) : (itemOf page target space off).off = off := Nat.sub_add_cancel h

lemma pageItems_off (page : UPage) (target space : Nat) :
    (pageItems page target space).map ItemIdSort.off = storedRows page := by
  rw [pageItems, List.map_map]
  refine (List.map_congr_left fun off ho => ?_).trans (List.map_id _)
  exact itemOf_off (mem_storedRows.mp ho).1.1

lemma pageItems_off_nodup (page : UPage) (target space : Nat) :
    ((pageItems page target space).map ItemIdSort.off).Nodup := by
  rw [pageItems_off]
  exact List.Nodup.filter _ List.nodup_range'

lemma mem_pageItems : item ∈ pageItems page target space ↔
    ∃ off, page.Stored off ∧ itemOf page target space off = item := by
  simp only [pageItems, List.mem_map, mem_storedRows]

lemma alignedLen_eq (hspace : space < 2 ^ 63) {rp : RowPtr} (h : rp.Fits) :
    alignedLen target space off rp = shortAlign (rp.len + roomFor target space off) := by
  obtain ⟨-, hlen⟩ := h
  rw [alignedLen, roomFor]
  split
  · rw [Nat.mod_eq_of_lt (by omega)]
  · rfl

lemma itemoffcompare_total : Std.Total itemoffcompare := ⟨fun a b => Nat.le_total b.itemoff a.itemoff⟩

lemma itemoffcompare_trans : IsTrans ItemIdSort itemoffcompare := ⟨fun _ _ _ hab hbc => Nat.le_trans hbc hab⟩

/-- The items in the order of `qsort`. -/
def sortedItems (page : UPage) (target space : Nat) : List ItemIdSort :=
  (pageItems page target space).insertionSort itemoffcompare

lemma mem_sortedItems :
    item ∈ sortedItems page target space ↔ ∃ off, page.Stored off ∧ itemOf page target space off = item :=
  (List.mem_insertionSort itemoffcompare).trans mem_pageItems

lemma sortedItems_off_nodup (page : UPage) (target space : Nat) :
    ((sortedItems page target space).map ItemIdSort.off).Nodup :=
  ((List.perm_insertionSort itemoffcompare _).map _).nodup_iff.mpr (pageItems_off_nodup page target space)

/-- The rows that are moved in place. -/
def slidItems (page : UPage) (target space : Nat) : List ItemIdSort := movedItems target (sortedItems page target space)

lemma mem_slidItems : item ∈ slidItems page target space ↔
    ∃ off, page.Stored off ∧ off ≠ target ∧ itemOf page target space off = item := by
  rw [slidItems, movedItems, List.mem_filter, mem_sortedItems, decide_eq_true_eq]
  constructor
  · rintro ⟨⟨off, hst, rfl⟩, hne⟩
    rw [itemOf_off hst.1.1] at hne
    exact ⟨off, hst, hne.symm, rfl⟩
  · rintro ⟨off, hst, hne, rfl⟩
    refine ⟨⟨off, hst, rfl⟩, ?_⟩
    rw [itemOf_off hst.1.1]
    exact hne.symm

lemma slidItems_off_nodup (page : UPage) (target space : Nat) :
    ((slidItems page target space).map ItemIdSort.off).Nodup :=
  (sortedItems_off_nodup page target space).sublist (List.filter_sublist.map _)

/-- A row that is moved in place lies in its short-aligned length. -/
lemma slidItems_end (hspace : space < 2 ^ 63) (hne : off ≠ target) :
    (itemOf page target space off).itemoff + (itemOf page target space off).alignedlen =
      page.rowEnd noRoom off := by
  have hroom : roomFor target space off = 0 := if_neg hne
  rw [UPage.rowEnd, itemOf, alignedLen_eq hspace (UPage.rowPtr_fits _ _), hroom]

section

variable {page : HeapPage} (hb : page.Bounds) (hr : page.RowsApart noRoom) (hspace : space < 2 ^ 63)
include hr hspace

/-- The moves go in place. -/
lemma slidItems_descending :
    Descending ItemIdSort.itemoff ItemIdSort.alignedlen page.pdSpecial (slidItems page.toUPage target space) where
  le_top item hitem := by
    obtain ⟨off, hst, hne, rfl⟩ := mem_slidItems.mp hitem
    rw [slidItems_end hspace hne]
    exact hr.le_pdSpecial off hst
  pairwise := by
    have htotal := itemoffcompare_total
    have htrans := itemoffcompare_trans
    have hsorted : (slidItems page.toUPage target space).Pairwise itemoffcompare :=
      (List.pairwise_insertionSort itemoffcompare _).filter _
    have hnodup := List.pairwise_map.mp (slidItems_off_nodup page.toUPage target space)
    refine (hsorted.and hnodup).imp_of_mem fun {a b} ha hb hab => ?_
    obtain ⟨off, hst, hne, rfl⟩ := mem_slidItems.mp ha
    obtain ⟨off', hst', hne', rfl⟩ := mem_slidItems.mp hb
    rw [slidItems_end hspace hne']
    obtain ⟨hle, hoff⟩ := hab
    rw [itemOf_off hst.1.1, itemOf_off hst'.1.1] at hoff
    -- the first of two rows that lie apart is the one with the smaller offset
    refine (hr.apart off' off hst' hst (Ne.symm hoff)).resolve_right fun hend => ?_
    have hlen : (page.rowPtr off).offset < page.rowEnd noRoom off := by
      have hge := shortAlign_ge (show (page.rowPtr off).len + 0 < 2 ^ 64 - 1 by
        have := (UPage.rowPtr_fits page.toUPage off).2; omega)
      have hpos := hst.2.2
      change _ < (page.rowPtr off).offset + shortAlign ((page.rowPtr off).len + 0)
      omega
    exact absurd (hlen.trans_le hend) (Nat.not_lt.mpr hle)

end

/-! ## The rows after the moves -/

/-- A row that was moved to its place at or behind `curr`, with room behind it. -/
structure RowPacked (page : HeapPage) (upage : UPage) (room : Nat → Nat) (curr off : Nat) : Prop where
  flags : (upage.rowPtr off).flags = (page.rowPtr off).flags
  len : (upage.rowPtr off).len = (page.rowPtr off).len
  curr_le : curr ≤ (upage.rowPtr off).offset
  le_pdSpecial : upage.rowEnd room off ≤ page.pdSpecial
  even : 2 ∣ (upage.rowPtr off).offset
  bytes : upage.tupleBytes off = page.tupleBytes off

/-- A page whose rows, those that satisfy `rows`, were moved. -/
structure Packed (rows : Nat → Prop) (page : HeapPage) (upage : UPage) (room : Nat → Nat) (curr : Nat) : Prop where
  tdCount : upage.tdCount = page.tdCount
  pdLower : upage.pdLower = page.pdLower
  pdLower_le : page.pdLower ≤ curr
  curr_le : curr ≤ page.pdSpecial
  even : 2 ∣ curr
  row : ∀ off, page.Stored off → rows off → RowPacked page upage room curr off
  apart : ∀ off off', page.Stored off → page.Stored off' → rows off → rows off' → off ≠ off' →
    upage.rowEnd room off ≤ (upage.rowPtr off').offset ∨ upage.rowEnd room off' ≤ (upage.rowPtr off).offset
  parked : ∀ off, page.Stored off → ¬ rows off → upage.rowPtr off = page.rowPtr off
  stored : ∀ off, upage.Stored off → page.Stored off

lemma Packed.all {rows : Nat → Prop} {page : HeapPage} {curr : Nat} (h : Packed rows page upage room curr)
    (hall : ∀ off, page.Stored off → rows off) (pdUpper : Nat) (hasFreeLines : Bool) : Packed (fun _ => True) page
      { upage with pdUpper := pdUpper, hasFreeLines := hasFreeLines } room curr where
  tdCount := h.tdCount
  pdLower := h.pdLower
  pdLower_le := h.pdLower_le
  curr_le := h.curr_le
  even := h.even
  row off hst _ :=
    let r := h.row off hst (hall off hst)
    ⟨r.flags, r.len, r.curr_le, r.le_pdSpecial, r.even, r.bytes⟩
  apart off off' hst hst' _ _ hne := h.apart off off' hst hst' (hall off hst) (hall off' hst') hne
  parked _ _ hnot := absurd trivial hnot
  stored := h.stored

section

variable {page : HeapPage} (hb : page.Bounds) (hr : page.RowsApart noRoom) {cleaned : UPage}
  (hc : Cleaned page.toUPage cleaned)
  (hlow : page.pdLower ≤ slideEnd ItemIdSort.alignedlen page.pdSpecial (slidItems page.toUPage target space))
include hb hr hc hlow

lemma slidItems_slid : Slid page.pdLower (slidItems page.toUPage target space) ⟨cleaned, page.pdSpecial, 0⟩
    ((slidItems page.toUPage target space).foldl moveItem ⟨cleaned, page.pdSpecial, 0⟩) := by
  have hlower : cleaned.pdLower = page.pdLower := hc.header.pdLower
  rw [← hlower]
  apply moveItem_foldl (s := ⟨cleaned, page.pdSpecial, 0⟩)
  · intro b hitem
    obtain ⟨off, hst, -, rfl⟩ := mem_slidItems.mp hitem
    rw [itemOf_off hst.1.1]
    exact hc.header.isRow.mpr hst.1
  · exact slidItems_off_nodup page.toUPage target space
  · intro b hitem
    obtain ⟨off, hst, -, rfl⟩ := mem_slidItems.mp hitem
    exact (hlower.trans_le hb.pdLower_le).trans (hr.pdUpper_le off hst)
  · exact hlower.trans_le hlow

variable (hspace : space < 2 ^ 63) {s : Compact}
  (hs : (slidItems page.toUPage target space).foldl moveItem ⟨cleaned, page.pdSpecial, 0⟩ = s)
include hspace hs

/-- The place of a row. -/
lemma slidItems_row {off : Nat} (hst : page.Stored off) (hne : off ≠ target) :
    let item := itemOf page.toUPage target space off
    let place := slideTo ItemIdSort.alignedlen page.pdSpecial (slidItems page.toUPage target space) item
    s.page.rowPtr off = { page.rowPtr off with offset := place } ∧
      s.page.rowEnd (roomFor target space) off = place + item.alignedlen := by
  intro item place
  have hmem : item ∈ slidItems page.toUPage target space := mem_slidItems.mpr ⟨off, hst, hne, rfl⟩
  have hle : place + item.alignedlen ≤ page.pdSpecial := (slideTo_bounds (slidItems_descending hr hspace) hmem).2
  have hlt : place < 2 ^ 15 := by
    have hspecial := hb.pdSpecial_eq
    simp only [blcksz] at hspecial
    omega
  have hmoved := (slidItems_slid hb hr hc hlow).moved _ hmem
  rw [itemOf_off hst.1.1, hs] at hmoved
  dsimp only at hmoved
  rw [hc.used off hst.1.1 hst.2.1, Nat.mod_eq_of_lt hlt] at hmoved
  refine ⟨hmoved, ?_⟩
  have halign : item.alignedlen = shortAlign ((page.rowPtr off).len + roomFor target space off) :=
    alignedLen_eq hspace (UPage.rowPtr_fits _ _)
  rw [UPage.rowEnd, hmoved, halign]

/-- The bytes of a row at its place. -/
lemma slidItems_bytes {off : Nat} (hst : page.Stored off) (hne : off ≠ target) :
    s.page.tupleBytes off = page.tupleBytes off := by
  have hdesc : Descending ItemIdSort.itemoff ItemIdSort.alignedlen page.pdSpecial
      (slidItems page.toUPage target space) := slidItems_descending hr hspace
  let item := itemOf page.toUPage target space off
  let place := slideTo ItemIdSort.alignedlen page.pdSpecial (slidItems page.toUPage target space) item
  have hmem : item ∈ slidItems page.toUPage target space := mem_slidItems.mpr ⟨off, hst, hne, rfl⟩
  have hplace : page.pdLower ≤ place := hlow.trans (slideTo_bounds hdesc hmem).1
  have hlen : (page.rowPtr off).len ≤ item.alignedlen := by
    have hfits := UPage.rowPtr_fits page.toUPage off
    have halign : item.alignedlen = shortAlign ((page.rowPtr off).len + roomFor target space off) :=
      alignedLen_eq hspace hfits
    rw [halign, roomFor, if_neg hne]
    exact shortAlign_ge (by have := hfits.2; omega)
  have hread : (slide ItemIdSort.itemoff ItemIdSort.alignedlen cleaned.mem page.pdSpecial
      (slidItems page.toUPage target space)).read place item.alignedlen =
        cleaned.mem.read (page.rowPtr off).offset item.alignedlen := slide_read hdesc cleaned.mem hmem
  have hslid := (slidItems_slid hb hr hc hlow).mem
  rw [hs] at hslid
  calc s.page.tupleBytes off = s.page.mem.read place (page.rowPtr off).len := by
        rw [UPage.tupleBytes, (slidItems_row hb hr hc hlow hspace hs hst hne).1]
    _ = (slide ItemIdSort.itemoff ItemIdSort.alignedlen cleaned.mem page.pdSpecial
          (slidItems page.toUPage target space)).read place (page.rowPtr off).len :=
      Mem.read_congr fun k _ => hslid _ (Nat.le_add_right_of_le hplace)
    _ = (cleaned.mem.read (page.rowPtr off).offset item.alignedlen).take (page.rowPtr off).len := by
      rw [← Mem.read_take hlen, hread]
    _ = cleaned.mem.read (page.rowPtr off).offset (page.rowPtr off).len := Mem.read_take hlen
    _ = page.tupleBytes off := Mem.read_congr fun k _ =>
      hc.mem _ (Nat.le_add_right_of_le (hb.pdLower_le.trans (hr.pdUpper_le off hst)))

/-- The moves pack the rows but the target. -/
lemma slidItems_packed : Packed (· ≠ target) page s.page (roomFor target space)
    (slideEnd ItemIdSort.alignedlen page.pdSpecial (slidItems page.toUPage target space)) := by
  have hdesc : Descending ItemIdSort.itemoff ItemIdSort.alignedlen page.pdSpecial
      (slidItems page.toUPage target space) := slidItems_descending hr hspace
  have heven : ∀ b ∈ slidItems page.toUPage target space, 2 ∣ b.alignedlen := fun b hitem => by
    obtain ⟨off, -, -, rfl⟩ := mem_slidItems.mp hitem
    rw [itemOf, alignedLen_eq hspace (UPage.rowPtr_fits _ _)]
    exact shortAlign_even _
  have hspecial : 2 ∣ page.pdSpecial := by
    rw [hb.pdSpecial_eq]
    decide
  have hmem : ∀ off, page.Stored off → off ≠ target →
      itemOf page.toUPage target space off ∈ slidItems page.toUPage target space := fun off hst hne =>
    mem_slidItems.mpr ⟨off, hst, hne, rfl⟩
  have hrow := fun {off} (hst : page.Stored off) hne => slidItems_row hb hr hc hlow hspace hs hst hne
  have hslid := slidItems_slid hb hr hc hlow
  rw [hs] at hslid
  refine ⟨hslid.header.tdCount.trans hc.header.tdCount, hslid.header.pdLower.trans hc.header.pdLower, hlow,
    slideEnd_le _ _, slideEnd_even hspecial heven, fun off hst hne => ?_, fun off off' hst hst' hne hne' hoff => ?_,
    fun off hst hparked => ?_, fun off hst => ?_⟩
  · obtain ⟨hrp, hend⟩ := hrow hst hne
    have hbounds := slideTo_bounds hdesc (hmem off hst hne)
    refine ⟨by rw [hrp], by rw [hrp], by rw [hrp]; exact hbounds.1, by rw [hend]; exact hbounds.2, ?_, ?_⟩
    · rw [hrp]
      exact slideTo_even hspecial heven _
    · exact slidItems_bytes hb hr hc hlow hspace hs hst hne
  · obtain ⟨hrp, hend⟩ := hrow hst hne
    obtain ⟨hrp', hend'⟩ := hrow hst' hne'
    rw [hrp, hrp', hend, hend']
    have hnodup : (slidItems page.toUPage target space).Nodup :=
      (slidItems_off_nodup page.toUPage target space).of_map _
    refine slideTo_apart hdesc hnodup (hmem off hst hne) (hmem off' hst' hne') fun he => hoff ?_
    rw [← itemOf_off hst.1.1, he, itemOf_off hst'.1.1]
  · refine (hslid.kept off (hc.header.isRow.mpr hst.1) fun b hitem he => ?_).trans (hc.used off hst.1.1 hst.2.1)
    obtain ⟨i, hi, hne, rfl⟩ := mem_slidItems.mp hitem
    rw [itemOf_off hi.1.1] at he
    exact hparked (he ▸ hne)
  · have hrowIn : cleaned.IsRow off := hslid.header.isRow.mp hst.1
    by_contra hnot
    have hkept := hslid.kept off hrowIn fun b hitem he => by
      obtain ⟨i, hi, -, rfl⟩ := mem_slidItems.mp hitem
      rw [itemOf_off hi.1.1] at he
      exact hnot (he ▸ hi)
    dsimp only at hkept
    refine hnot ((hc.stored off).mp ⟨hrowIn, ?_, ?_⟩)
    · rw [← hkept]
      exact hst.2.1
    · rw [← hkept]
      exact hst.2.2

end

/-! ## The target -/

/-- The row pointers of a packed page are where they were. -/
lemma Packed.isRow {rows : Nat → Prop} {page : HeapPage} {curr : Nat} (h : Packed rows page upage room curr) (i : Nat) :
    upage.IsRow i ↔ page.IsRow i := by
  rw [UPage.IsRow, UPage.IsRow, UPage.maxOffsetNumber, UPage.maxOffsetNumber, rowPtrOffset_congr h.tdCount, h.pdLower]

/-- The parked row is put below the others. -/
lemma Packed.put {page : HeapPage} {upage : UPage} {curr n : Nat}
    (h : Packed (· ≠ target) page upage (roomFor target space) curr) (hroom : page.pdLower + n ≤ curr)
    (hb : page.Bounds) (hst : page.Stored target) (hn : n = shortAlign ((page.rowPtr target).len + space))
    (hlen : (page.rowPtr target).len ≤ n) :
    Packed (fun _ => True) page (placeRow upage target (curr - n) (page.tupleBytes target)) (roomFor target space)
      (curr - n) := by
  have hcurr := h.curr_le
  have heven : 2 ∣ curr - n := Nat.dvd_sub h.even (hn ▸ shortAlign_even _)
  have hlt : curr - n < 2 ^ 15 := by
    have hspecial := hb.pdSpecial_eq
    simp only [blcksz] at hspecial
    omega
  have hlow : upage.pdLower ≤ curr - n := by
    rw [h.pdLower]
    omega
  have hrow := (h.isRow target).mpr hst.1
  generalize hplaced : placeRow upage target (curr - n) (page.tupleBytes target) = placed
  have htarget : placed.rowPtr target = { page.rowPtr target with offset := curr - n } := by
    rw [← hplaced, placeRow_rowPtr hrow hlow, h.parked target hst fun hne => hne rfl, Nat.mod_eq_of_lt hlt]
  have hother : ∀ i, page.IsRow i → i ≠ target → placed.rowPtr i = upage.rowPtr i := fun i hi hne => by
    rw [← hplaced]
    exact placeRow_rowPtr_ne hrow hlow ((h.isRow i).mpr hi) hne
  have hbytes : ∀ a, page.pdLower ≤ a → placed.mem a = upage.mem.write (curr - n) (page.tupleBytes target) a :=
    fun a ha => hplaced ▸ placeRow_mem hrow (h.pdLower.trans_le ha)
  have hlength : (page.tupleBytes target).length = (page.rowPtr target).len := Mem.read_length _ _ _
  have hend : placed.rowEnd (roomFor target space) target = curr := by
    have hroomFor : roomFor target space target = space := if_pos rfl
    rw [UPage.rowEnd, htarget, hroomFor]
    dsimp only
    omega
  have hendOther : ∀ i, page.IsRow i → i ≠ target →
      placed.rowEnd (roomFor target space) i = upage.rowEnd (roomFor target space) i := fun i hi hne => by
    rw [UPage.rowEnd, UPage.rowEnd, hother i hi hne]
  refine
    { tdCount := hplaced ▸ h.tdCount
      pdLower := hplaced ▸ h.pdLower
      pdLower_le := by omega
      curr_le := (Nat.sub_le _ _).trans hcurr
      even := heven
      row := fun off ho _ => ?_
      apart := fun off off' ho ho' _ _ hne => ?_
      parked := fun _ _ hnot => absurd trivial hnot
      stored := fun off ho => ?_ }
  · by_cases hoff : off = target
    · subst hoff
      have hread := Mem.read_write upage.mem (curr - n) (page.tupleBytes off)
      rw [hlength] at hread
      refine ⟨by rw [htarget], by rw [htarget], by rw [htarget], hend.trans_le hcurr, by rwa [htarget], ?_⟩
      rw [UPage.tupleBytes, htarget]
      exact (Mem.read_congr fun k _ => hbytes (curr - n + k) (by omega)).trans hread
    · obtain ⟨hflags, hl, hle, hsp, hev, hb'⟩ := h.row off ho hoff
      have hrp := hother off ho.1 hoff
      refine ⟨by rw [hrp, hflags], by rw [hrp, hl], ?_, ?_, by rwa [hrp], ?_⟩
      · rw [hrp]
        omega
      · rwa [hendOther off ho.1 hoff]
      · rw [← hb', UPage.tupleBytes, UPage.tupleBytes, hrp]
        refine Mem.read_congr fun k _ => ?_
        rw [hbytes _ (by omega)]
        exact Mem.write_out (.inr (by omega))
  · by_cases hoff : off = target
    · have hoff' : off' ≠ target := fun he => hne (hoff.trans he.symm)
      rw [hoff, hend, hother off' ho'.1 hoff']
      exact .inl (h.row off' ho' hoff').curr_le
    · by_cases hoff' : off' = target
      · rw [hoff', hend, hother off ho.1 hoff]
        exact .inr (h.row off ho hoff).curr_le
      · rw [hendOther off ho.1 hoff, hendOther off' ho'.1 hoff', hother off ho.1 hoff, hother off' ho'.1 hoff']
        exact h.apart off off' ho ho' hoff hoff' hne
  · by_cases hoff : off = target
    · exact hoff ▸ hst
    · have hrowIn : upage.IsRow off := by
        have hin := ho.1
        rw [← hplaced] at hin
        exact hin
      have hrp := hother off ((h.isRow off).mp hrowIn) hoff
      refine h.stored off ⟨hrowIn, ?_, ?_⟩
      · rw [← hrp]
        exact ho.2.1
      · rw [← hrp]
        exact ho.2.2

/-! ## The whole page -/

lemma sortedItems_sum (page : UPage) (target space : Nat) :
    ((sortedItems page target space).map ItemIdSort.alignedlen).sum =
      ((pageItems page target space).map ItemIdSort.alignedlen).sum :=
  ((List.perm_insertionSort itemoffcompare _).map _).sum_eq

section

variable {page page' : HeapPage} (hb : page.Bounds) (hr : page.RowsApart noRoom) (hspace : space < 2 ^ 63)
  {cleaned : UPage} (hc : Cleaned page.toUPage cleaned)
  (hsum : ((pageItems page.toUPage target space).map ItemIdSort.alignedlen).sum ≤ page.pdSpecial - page.pdLower)
include hb hr hspace hc hsum

/-- A successful `CompactifyTuples` packs all rows. -/
lemma compactifyTuples_packed {upage : UPage}
    (h : compactifyTuples (pageItems page.toUPage target space) cleaned page.pdSpecial target = some upage) :
    Packed (fun _ => True) page upage (roomFor target space) upage.pdUpper := by
  have hsorted := sortedItems_sum page.toUPage target space
  have hoff := sortedItems_off_nodup page.toUPage target space
  have hfold := compactItem_foldl target (sortedItems page.toUPage target space)
    (rfl : (⟨cleaned, page.pdSpecial, 0⟩ : Compact).page = cleaned) rfl
  have hslide : ((slidItems page.toUPage target space).map ItemIdSort.alignedlen).sum ≤
      page.pdSpecial - page.pdLower :=
    ((List.filter_sublist.map _).sum_le_sum fun _ _ => Nat.zero_le _).trans (hsorted.trans_le hsum)
  have hlow : page.pdLower ≤ slideEnd ItemIdSort.alignedlen page.pdSpecial (slidItems page.toUPage target space) := by
    have hle := hb.pdLower_le.trans hb.pdUpper_le
    rw [slideEnd]
    omega
  have hpacked := slidItems_packed hb hr hc hlow hspace rfl
  have hend := (slidItems_slid hb hr hc hlow).curr
  simp only [compactifyTuples] at h
  generalize hs : List.foldl (compactItem target) _ (List.insertionSort itemoffcompare _) = s at h
  have hpage := (congrArg Compact.page hs).symm.trans hfold.1
  have hcurr := ((congrArg Compact.curr hs).symm.trans hfold.2).trans hend
  have hpacked' : Packed (· ≠ target) page s.page (roomFor target space) s.curr := by
    rw [hpage, hcurr]
    exact hpacked
  split at h
  case isTrue hzero =>
    cases h
    exact hpacked'.all (fun off hst => by have := hst.1.1; omega) s.curr s.page.hasFreeLines
  case isFalse hne =>
    obtain ⟨hcopy, h⟩ := Option.ite_none_left_eq_some.mp h
    rw [Mem.read_length] at hcopy
    push Not at hcopy
    obtain ⟨hpos, hle⟩ := hcopy
    have hst : page.Stored target := by
      by_contra hnot
      have hnone : ∀ x ∈ sortedItems page.toUPage target space, target ≠ x.off := fun x hx he => by
        obtain ⟨off, hst, rfl⟩ := mem_sortedItems.mp hx
        rw [itemOf_off hst.1.1] at he
        exact hnot (he ▸ hst)
      have hzero : s.newTupleLen = 0 :=
        (congrArg Compact.newTupleLen hs).symm.trans (compactItem_newTupleLen_none hnone _)
      omega
    have hitem : itemOf page.toUPage target space target ∈ sortedItems page.toUPage target space :=
      mem_sortedItems.mpr ⟨target, hst, rfl⟩
    have htarget : target = (itemOf page.toUPage target space target).off := (itemOf_off hst.1.1).symm
    have hmoved := movedItems_sum hoff hitem htarget
    have halign : (itemOf page.toUPage target space target).alignedlen =
        shortAlign ((page.rowPtr target).len + space) := by
      rw [itemOf, alignedLen_eq hspace (UPage.rowPtr_fits _ _), roomFor, if_pos rfl]
    -- the length fits into a uint16, as all rows fit into the page
    have hnew : s.newTupleLen = (itemOf page.toUPage target space target).alignedlen := by
      have hspecial := hb.pdSpecial_eq
      simp only [blcksz] at hspecial
      refine ((congrArg Compact.newTupleLen hs).symm.trans (compactItem_newTupleLen hoff hitem htarget _)).trans ?_
      exact Nat.mod_eq_of_lt (by omega)
    have hrp : cleaned.rowPtr target = page.rowPtr target := hc.used target hst.1.1 hst.2.1
    have hbytes : cleaned.mem.read (cleaned.rowPtr target).offset (cleaned.rowPtr target).len =
        page.tupleBytes target := by
      rw [hrp]
      exact Mem.read_congr fun k _ =>
        hc.mem _ (Nat.le_add_right_of_le (hb.pdLower_le.trans (hr.pdUpper_le target hst)))
    have hroom : page.pdLower + s.newTupleLen ≤ s.curr := by
      have hupper := hb.pdLower_le.trans hb.pdUpper_le
      rw [slideEnd] at hcurr
      dsimp only at hcurr
      change _ = ((slidItems page.toUPage target space).map ItemIdSort.alignedlen).sum + _ at hmoved
      omega
    rw [hrp] at hle
    cases h
    rw [hbytes]
    exact (hpacked'.put hroom hb hst (hnew.trans halign) hle).all (fun _ _ => trivial) _ _

end

/-- A page whose rows were packed keeps them, under their numbers. -/
structure RowsPacked (page page' : UPage) : Prop where
  stored : ∀ off, page'.Stored off ↔ page.Stored off
  flags : ∀ off, page.Stored off → (page'.rowPtr off).flags = (page.rowPtr off).flags
  len : ∀ off, page.Stored off → (page'.rowPtr off).len = (page.rowPtr off).len
  bytes : ∀ off, page.Stored off → page'.tupleBytes off = page.tupleBytes off

variable {level : VerifyLevel} {nextXid : Nat}

lemma Packed.laidOut {page : HeapPage} (h : Packed (fun _ => True) page upage room upage.pdUpper)
    (hpage : page.LaidOut level nextXid noRoom) : HeapPage.LaidOut { page with toUPage := upage } level nextXid room ∧
      HeapPage.Even { page with toUPage := upage } ∧ RowsPacked page.toUPage upage := by
  have hb := hpage.bounds
  obtain ⟨-, -, hpos, hle, -⟩ := verifyUPageHeader_eq_nil.mp hpage.header
  have hrow : ∀ off, page.Stored off → RowPacked page upage room upage.pdUpper off :=
    fun off hst => h.row off hst trivial
  have hoffset := rowPtrOffset_congr h.tdCount
  have hsame : page.SameFields { page with toUPage := upage } := ⟨rfl, rfl, rfl, rfl⟩
  refine ⟨⟨⟨fun off ho => ?_, fun off ho => ?_, fun off off' ho ho' hne => ?_⟩, ?_⟩, ⟨h.even, fun off ho => ?_⟩, ?_⟩
  · exact (hrow off (h.stored off ho)).curr_le
  · exact (hrow off (h.stored off ho)).le_pdSpecial
  · exact h.apart off off' (h.stored off ho) (h.stored off' ho') trivial trivial hne
  · apply hsame.header hpage.header
    · refine ⟨?_, h.pdLower.trans_le h.pdLower_le, h.curr_le, hb.pdSpecial_eq⟩
      exact (hoffset.trans_le hb.rowPtrOffset_le).trans_eq h.pdLower.symm
    · exact hpos.trans_eq h.tdCount.symm
    · exact h.tdCount.trans_le hle
  · exact (hrow off (h.stored off ho)).even
  · refine ⟨fun off => ⟨h.stored off, fun hst => ?_⟩, fun off hst => (hrow off hst).flags,
      fun off hst => (hrow off hst).len, fun off hst => (hrow off hst).bytes⟩
    refine ⟨(h.isRow off).mpr hst.1, ?_, ?_⟩
    · rw [(hrow off hst).flags]
      exact hst.2.1
    · rw [(hrow off hst).len]
      exact hst.2.2

lemma Cleaned.refl (page : UPage) : Cleaned page page := ⟨.refl page, fun _ _ _ => rfl, fun _ _ h => h, fun _ _ => rfl⟩

/-- `totallen` does not wrap. -/
lemma pageItems_sum_lt {page : HeapPage} (hb : page.Bounds) (hr : page.RowsApart noRoom) (hspace : space < 2 ^ 63) :
    ((pageItems page.toUPage target space).map ItemIdSort.alignedlen).sum < 2 ^ 64 := by
  have hdesc : Descending ItemIdSort.itemoff ItemIdSort.alignedlen page.pdSpecial
      (slidItems page.toUPage target space) := slidItems_descending hr hspace
  have hsum := hdesc.sum_le
  have hspecial := hb.pdSpecial_eq
  simp only [blcksz] at hspecial
  rw [← sortedItems_sum]
  by_cases hst : page.Stored target
  · have hfits := UPage.rowPtr_fits page.toUPage target
    have halign : (itemOf page.toUPage target space target).alignedlen =
        shortAlign ((page.rowPtr target).len + space) := by
      rw [itemOf, alignedLen_eq hspace hfits, roomFor, if_pos rfl]
    have hle : shortAlign ((page.rowPtr target).len + space) ≤ (page.rowPtr target).len + space + 1 := by
      simp only [shortAlign]
      omega
    have hlen := hfits.2
    rw [movedItems_sum (sortedItems_off_nodup page.toUPage target space) (mem_sortedItems.mpr ⟨target, hst, rfl⟩)
      (itemOf_off hst.1.1).symm]
    change ((slidItems page.toUPage target space).map ItemIdSort.alignedlen).sum + _ < _
    omega
  · have hall : slidItems page.toUPage target space = sortedItems page.toUPage target space :=
      List.filter_eq_self.mpr fun x hx => by
        obtain ⟨off, hoff, rfl⟩ := mem_sortedItems.mp hx
        rw [itemOf_off hoff.1.1, decide_eq_true_eq]
        exact fun he => hst (he ▸ hoff)
    rw [← hall]
    omega

/-- A page without tuples. -/
lemma Cleaned.packed {page : HeapPage} {cleaned : UPage} (hc : Cleaned page.toUPage cleaned) (hb : page.Bounds)
    (hnone : ∀ off, ¬ page.Stored off) :
    Packed (fun _ => True) page cleaned room page.pdSpecial where
  tdCount := hc.header.tdCount
  pdLower := hc.header.pdLower
  pdLower_le := hb.pdLower_le.trans hb.pdUpper_le
  curr_le := le_rfl
  even := by
    rw [hb.pdSpecial_eq]
    decide
  row off hst _ := absurd hst (hnone off)
  apart off _ hst _ _ _ _ := absurd hst (hnone off)
  parked off hst _ := absurd hst (hnone off)
  stored off hst := (hc.stored off).mp hst

/-- A successful `UPageRepairFragmentation` packs all rows. -/
lemma uPageRepairFragmentation_laidOut {page page' : HeapPage} (hpage : page.LaidOut level nextXid noRoom)
    (hspace : space < 2 ^ 63) (h : uPageRepairFragmentation page target space = some page') :
    page'.LaidOut level nextXid (roomFor target space) ∧ page'.Even ∧ RowsPacked page.toUPage page'.toUPage := by
  have hb := hpage.bounds
  have hr := hpage.toRowsApart
  rw [uPageRepairFragmentation] at h
  obtain ⟨-, h⟩ := Option.ite_none_left_eq_some.mp h
  split at h
  · cases h
  rename_i s hcollect
  have hcollected := collectItem_foldlM (Cleaned.refl page.toUPage) (fun off hoff => by
    have hmem := List.mem_range'_1.mp hoff
    exact ⟨hmem.1, by omega⟩) hcollect
  have hitems : s.items = pageItems page.toUPage target space := hcollected.items
  have htotal : s.totallen = ((pageItems page.toUPage target space).map ItemIdSort.alignedlen).sum := by
    have hzero : (0 : Nat) < 2 ^ 64 := by decide
    refine (hcollected.totallen hzero).trans ?_
    rw [Nat.zero_add]
    exact Nat.mod_eq_of_lt (pageItems_sum_lt hb hr hspace)
  dsimp only at h
  split at h
  · cases h
  rename_i upage hcompact
  cases h
  split at hcompact
  case isTrue hempty =>
    cases hcompact
    have hnone : ∀ off, ¬ page.Stored off := fun off hst => by
      have hmem : itemOf page.toUPage target space off ∈ s.items := hitems ▸ mem_pageItems.mpr ⟨off, hst, rfl⟩
      rw [List.length_eq_zero_iff.mp hempty] at hmem
      cases hmem
    exact ((hcollected.cleaned.packed hb hnone).all (fun _ _ => trivial) page.pdSpecial
      (decide (0 < s.nunused))).laidOut hpage
  case isFalse =>
    obtain ⟨hfit, hcompact⟩ := Option.ite_none_left_eq_some.mp hcompact
    rw [hitems] at hcompact
    have hpacked := compactifyTuples_packed hb hr hspace hcollected.cleaned (htotal ▸ Nat.not_lt.mp hfit) hcompact
    exact (hpacked.all (fun _ _ => trivial) upage.pdUpper (decide (0 < s.nunused))).laidOut hpage

/-! ## The layout of a page -/

/-- The `n` bytes behind a row are inside the page and overlap no other row. -/
def HeapPage.HasRoom (page : HeapPage) (off n : Nat) : Prop :=
  let start := (page.rowPtr off).offset + (page.rowPtr off).len
  start + n ≤ page.pdSpecial ∧ ∀ off', page.Stored off' → off' ≠ off →
    start + n ≤ (page.rowPtr off').offset ∨ page.rowEnd noRoom off' ≤ (page.rowPtr off).offset

section

variable {page : HeapPage} (hspace : space < 2 ^ 63) (h : page.LaidOut level nextXid (roomFor target space))
include hspace

lemma rowEnd_roomFor_ge (page : HeapPage) (target off : Nat) :
    page.rowEnd noRoom off ≤ page.rowEnd (roomFor target space) off ∧
    (page.rowPtr off).offset + (page.rowPtr off).len + roomFor target space off ≤
      page.rowEnd (roomFor target space) off := by
  have hlen := (UPage.rowPtr_fits page.toUPage off).2
  have hroom : roomFor target space off ≤ space := by
    rw [roomFor]
    split <;> omega
  have hmono : shortAlign ((page.rowPtr off).len + 0) ≤ shortAlign ((page.rowPtr off).len + roomFor target space off) :=
    shortAlign_mono (by omega) (by omega)
  have hge : (page.rowPtr off).len + roomFor target space off ≤
      shortAlign ((page.rowPtr off).len + roomFor target space off) := shortAlign_ge (by omega)
  constructor
  · exact Nat.add_le_add_left hmono _
  · rw [UPage.rowEnd]
    omega

include h

/-- A page laid out with room for a row is laid out. -/
lemma HeapPage.LaidOut.less_room : page.LaidOut level nextXid noRoom where
  header := h.header
  pdUpper_le := h.pdUpper_le
  le_pdSpecial off ho := (rowEnd_roomFor_ge hspace page target off).1.trans (h.le_pdSpecial off ho)
  apart off off' ho ho' hne := (h.apart off off' ho ho' hne).imp (rowEnd_roomFor_ge hspace page target off).1.trans
    (rowEnd_roomFor_ge hspace page target off').1.trans

lemma HeapPage.LaidOut.hasRoom (hst : page.Stored target) : page.HasRoom target space := by
  have hend := (rowEnd_roomFor_ge hspace page target target).2
  rw [roomFor, if_pos rfl] at hend
  refine ⟨hend.trans (h.le_pdSpecial target hst), fun off' ho' hne => ?_⟩
  exact (h.apart target off' hst ho' hne.symm).imp hend.trans (rowEnd_roomFor_ge hspace page target off').1.trans

end

/-- `UPageAddItem`, `UPageExtendTDSlots` and `UPageRepairFragmentation` keep the layout of a page and all its rows.
`UHeapPagePruneGuts` asks for no more space than the page has. -/
theorem uheap_page_layout {page : HeapPage} (hpage : page.LaidOut level nextXid noRoom) :
    (∀ inRecovery initTd item off overwrite off' page',
      uPageAddItem inRecovery initTd page item off overwrite = some (off', page') →
        page'.LaidOut level nextXid noRoom ∧ (page.Even → page'.Even) ∧
          ItemAdded item off' (insertsRow page.toUPage off overwrite) page.toUPage page'.toUPage) ∧
    (page.extendTDSlots.2.LaidOut level nextXid noRoom ∧ (page.Even → page.extendTDSlots.2.Even) ∧
      RowsStay page.toUPage page.extendTDSlots.2.toUPage) ∧
    ∀ target space page', space < 2 ^ 63 → uPageRepairFragmentation page target space = some page' →
      page'.LaidOut level nextXid noRoom ∧ page'.Even ∧ RowsPacked page.toUPage page'.toUPage ∧
        (page.Stored target → page'.HasRoom target space) := by
  refine ⟨fun _ _ _ _ _ _ _ h => uPageAddItem_laidOut hpage h, extendTDSlots_laidOut hpage,
    fun target space page' hspace h => ?_⟩
  obtain ⟨hroom, heven, hrows⟩ := uPageRepairFragmentation_laidOut hpage hspace h
  exact ⟨hroom.less_room hspace, heven, hrows, fun hst => hroom.hasRoom hspace ((hrows.stored target).mpr hst)⟩

/-- A page with rows of three and of twelve bytes, and an unused row pointer between theirs. -/
def twoRowsPage : HeapPage where
  hasFreeLines := true
  pdLower := 84
  pdUpper := 7000
  tdCount := 1
  pdSpecial := 8192
  potentialFreespace := 0
  pdPruneXid := 0
  pdXidBase := 0
  mem :=
    let m := Mem.write (fun _ => 0) 72 (toLE 4 (RowPtr.toWord ⟨8000, .normal, 3⟩))
    let m := Mem.write m 80 (toLE 4 (RowPtr.toWord ⟨7000, .normal, 12⟩))
    let m := Mem.write m 8000 [1, 2, 3]
    Mem.write m 7000 [12, 11, 10, 9, 8, 7, 6, 5, 4, 3, 2, 1]

lemma twoRowsPage_laidOut : twoRowsPage.LaidOut .complete 0 noRoom := by
  have hrow : ∀ off, twoRowsPage.Stored off → off = 1 ∨ off = 3 := fun off hst => by
    have hmax : twoRowsPage.maxOffsetNumber = 3 := by decide +kernel
    obtain ⟨⟨h1, h3⟩, hst⟩ := hst
    rw [hmax] at h3
    interval_cases off
    · exact .inl rfl
    · exact absurd hst (by decide +kernel)
    · exact .inr rfl
  have hone : twoRowsPage.rowPtr 1 = ⟨8000, .normal, 3⟩ := by decide +kernel
  have hthree : twoRowsPage.rowPtr 3 = ⟨7000, .normal, 12⟩ := by decide +kernel
  refine ⟨⟨fun off ho => ?_, fun off ho => ?_, fun off off' ho ho' hne => ?_⟩, by decide⟩
  · obtain rfl | rfl := hrow off ho
    · rw [hone]; decide
    · rw [hthree]; decide
  · obtain rfl | rfl := hrow off ho
    · rw [UPage.rowEnd, hone]; decide
    · rw [UPage.rowEnd, hthree]; decide
  · rw [UPage.rowEnd, UPage.rowEnd]
    obtain rfl | rfl := hrow off ho
    · obtain rfl | rfl := hrow off' ho'
      · exact absurd rfl hne
      · rw [hone, hthree]; decide
    · obtain rfl | rfl := hrow off' ho'
      · rw [hone, hthree]; decide
      · exact absurd rfl hne

/-- Ten more bytes for the first row, and a third row in front of the last one. -/
theorem uheap_page_layout_twoRows :
    (∃ page', uPageRepairFragmentation twoRowsPage 1 10 = some page' ∧ page'.LaidOut .complete 0 noRoom ∧
      RowsPacked twoRowsPage.toUPage page'.toUPage ∧ page'.HasRoom 1 10) ∧
    ∃ page', uPageAddItem false 4 twoRowsPage [7, 7] 2 false = some (2, page') ∧ page'.LaidOut .complete 0 noRoom ∧
      ItemAdded [7, 7] 2 true twoRowsPage.toUPage page'.toUPage := by
  have hlayout := uheap_page_layout twoRowsPage_laidOut
  have hstored : twoRowsPage.Stored 1 := by decide +kernel
  have hrepair : (uPageRepairFragmentation twoRowsPage 1 10).isSome = true := by decide +kernel
  have hadd : (uPageAddItem false 4 twoRowsPage [7, 7] 2 false).map Prod.fst = some 2 := by decide +kernel
  have hinserts : insertsRow twoRowsPage.toUPage 2 false = true := by decide +kernel
  obtain ⟨page', hpage'⟩ := Option.isSome_iff_exists.mp hrepair
  obtain ⟨⟨off, page''⟩, hpage'', hoff⟩ := Option.map_eq_some_iff.mp hadd
  obtain rfl : off = 2 := hoff
  obtain ⟨hlaid, -, hrows, hroom⟩ := hlayout.2.2 1 10 page' (by decide) hpage'
  obtain ⟨hlaid', -, hadded⟩ := hlayout.1 false 4 [7, 7] 2 false 2 page'' hpage''
  rw [hinserts] at hadded
  exact ⟨⟨page', hpage', hlaid, hrows, hroom hstored⟩, page'', hpage'', hlaid', hadded⟩

end GaussKernel.UHeap
