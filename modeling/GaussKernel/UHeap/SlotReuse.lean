import GaussKernel.UHeap.PageRows

/-!
# Reuse of transaction slots

What `UHeapPageReserveTransactionSlot` may do to a page: a slot that it clears takes its rows along, which become
frozen or dead when the slot's transaction is old and are flagged when it is only committed; every other slot and
every other row stays as it is, also when the array of slots grows under the row pointers.

One turn of the loop over the rows changes one row (`freezeOrInvalidateRow_spec`), the loop changes each row that
names a cleared slot (`uheapFreezeOrInvalidateTuples_spec`).
-/

namespace GaussKernel.UHeap

open Lib

/-! ## Clearing one row -/

section

variable {page : UPage} {off s : Nat} (v : page.Valid) (ho : page.IsRow off) (hs : (page.row off).slot = some s)
include v ho hs

/-- Clearing a row changes its row pointer or bytes inside its tuple. -/
lemma clearRow_poke (isFrozen : Bool) : ∃ a bs, clearRow isFrozen off page = page.poke a bs ∧
    (a = page.rowPtrAddr off ∧ bs.length = sizeOfRowPtr ∨
      (page.row off).rp.flags = .normal ∧ (page.row off).rp.offset ≤ a ∧
        a + bs.length ≤ (page.row off).rp.offset + (page.row off).rp.len) := by
  cases Row.flags_of_slot hs with
  | inr hf =>
    have hflags : (page.rowPtr off).flags = .redirect := hf
    cases isFrozen with
    | true => exact ⟨_, _, by simp only [clearRow, hflags, if_true]; rfl, .inl ⟨rfl, toLE_length _ _⟩⟩
    | false => exact ⟨_, _, by simp only [clearRow, hflags, if_true]; rfl, .inl ⟨rfl, toLE_length _ _⟩⟩
  | inl hf =>
    have hflags : (page.rowPtr off).flags = .normal := hf
    have hlen := v.len_ge off ho hf
    simp only [sizeOfUHeapDiskTupleData] at hlen
    cases isFrozen with
    | true =>
      refine ⟨(page.rowPtr off).offset + offsetTdId, [.ofNat uheaptupSlotFrozen], ?_, .inr ⟨hf, ?_, ?_⟩⟩
      · simp only [clearRow, hflags, if_true, reduceCtorEq, if_false]
        rfl
      · exact Nat.le_add_right _ _
      · simp only [UPage.row, offsetTdId, List.length_singleton] at hlen ⊢
        omega
    | false =>
      refine ⟨(page.rowPtr off).offset + 6,
        toLE 2 (getFlag page.mem (page.rowPtr off).offset ||| uheapInvalidXactSlot).toNat, ?_, .inr ⟨hf, ?_, ?_⟩⟩
      · simp only [clearRow, hflags, if_false, reduceCtorEq]
        rfl
      · exact Nat.le_add_right _ _
      · simp only [UPage.row, toLE_length] at hlen ⊢
        omega

lemma clearRow_sameHeader (isFrozen : Bool) : page.SameHeader (clearRow isFrozen off page) := by
  obtain ⟨a, bs, hpoke, _⟩ := clearRow_poke v ho hs isFrozen
  rw [hpoke]
  exact UPage.poke_sameHeader page a bs

lemma clearRow_td (isFrozen : Bool) {i : Nat} (hi : i < page.tdCount) :
    (clearRow isFrozen off page).td i = page.td i := by
  obtain ⟨a, bs, hpoke, hplace⟩ := clearRow_poke v ho hs isFrozen
  rw [hpoke]
  refine UPage.td_poke (.inl ((UPage.tdOffset_le hi).trans ?_))
  obtain ⟨rfl, _⟩ | ⟨hn, ha, _⟩ := hplace
  · exact UPage.rowPtrAddr_ge off
  · have haddr := v.rowPtrAddr_le_tuple ho ho hn
    exact (UPage.rowPtrAddr_ge off).trans (by omega)

lemma clearRow_other (isFrozen : Bool) {off' : Nat} (ho' : page.IsRow off') (hne : off' ≠ off) :
    (clearRow isFrozen off page).row off' = page.row off' := by
  obtain ⟨a, bs, hpoke, hplace⟩ := clearRow_poke v ho hs isFrozen
  rw [hpoke]
  obtain ⟨rfl, hlen⟩ | ⟨hn, ha, hend⟩ := hplace
  · refine UPage.row_poke ?_ fun hn' => .inr (hlen ▸ v.rowPtrAddr_le_tuple ho ho' hn')
    cases Nat.lt_or_gt_of_ne hne with
    | inl hlt => exact .inl (UPage.rowPtrAddr_disjoint ho'.1 hlt)
    | inr hgt => exact .inr (hlen ▸ UPage.rowPtrAddr_disjoint ho.1 hgt)
  · refine UPage.row_poke (.inl ((v.rowPtrAddr_le_tuple ho' ho hn).trans ha)) fun hn' => ?_
    cases Nat.lt_or_gt_of_ne hne with
    | inl hlt =>
      have hdisjoint := v.disjoint off' off ho' ho hlt hn' hn
      omega
    | inr hgt =>
      have hdisjoint := v.disjoint off off' ho ho' hgt hn hn'
      omega

lemma clearRow_row (isFrozen : Bool) : (clearRow isFrozen off page).row off = (page.row off).clear isFrozen := by
  cases Row.flags_of_slot hs with
  | inr hf =>
    have hflags : (page.rowPtr off).flags = .redirect := hf
    cases isFrozen with
    | true =>
      have hset : clearRow true off page = page.setRowPtr off (page.rowPtr off).setDead := by simp [clearRow, hflags]
      have hfits : (page.rowPtr off).setDead.Fits := by simp [RowPtr.Fits, RowPtr.setDead]
      rw [hset, UPage.setRowPtr_row hfits (by simp [RowPtr.setDead])]
      simp [Row.clear, Row.freeze, hflags, UPage.row]
    | false =>
      have hset : clearRow false off page = page.setRowPtr off (page.rowPtr off).setInvalidXact := by
        simp [clearRow, hflags]
      have hfits := RowPtr.setInvalidXact_fits (page.rowPtr_fits off)
      rw [hset, UPage.setRowPtr_row hfits (by simp [RowPtr.setInvalidXact, hflags])]
      simp [Row.clear, Row.invalidate, hflags, UPage.row]
  | inl hf =>
    have hflags : (page.rowPtr off).flags = .normal := hf
    have hlen := v.len_ge off ho hf
    simp only [sizeOfUHeapDiskTupleData] at hlen
    cases isFrozen with
    | true =>
      have hset : clearRow true off page = page.poke ((page.rowPtr off).offset + offsetTdId) [0] := by
        simp only [clearRow, hflags, if_true, reduceCtorEq, if_false]
        rfl
      rw [hset, v.poke_row ho hf (by simp only [offsetTdId, List.length_singleton]; omega)]
      simp [Row.clear, Row.freeze, hf]
    | false =>
      have htuple : (page.row off).tuple = page.mem.read (page.rowPtr off).offset (page.rowPtr off).len := by
        simp only [UPage.row, hflags, if_true]
      have h11 : 11 ≤ (page.rowPtr off).len := hlen
      have hflag : getFlag page.mem (page.rowPtr off).offset = (page.row off).flag := by
        rw [Row.flag, htuple, Mem.read_drop (by omega), Mem.read_take (by omega), getFlag]
      have hset : clearRow false off page = page.poke ((page.rowPtr off).offset + 6)
          (toLE 2 ((page.row off).flag ||| uheapInvalidXactSlot).toNat) := by
        simp only [clearRow, hflags, if_false, reduceCtorEq, ← hflag]
        rfl
      rw [hset, v.poke_row ho hf (by rw [toLE_length]; omega)]
      simp [Row.clear, Row.invalidate, hf]

end

/-! ## The loop over the rows -/

/-- What clearing slots does to a page as far as the rows in `offs` are concerned. -/
structure Cleared (slots : List Nat) (isFrozen : Bool) (offs : List Nat) (page page' : UPage) : Prop where
  header : page.SameHeader page'
  td : ∀ i < page.tdCount, page'.td i = page.td i
  valid : page'.Valid
  row : ∀ off, page.IsRow off → page'.row off =
    if off ∈ offs ∧ (page.row off).Names slots then (page.row off).clear isFrozen else page.row off

/-- The slots are distinct, so a row is cleared once at most. -/
lemma foldl_slots {α : Type} (f : α → α) {slots : List Nat} (hnodup : slots.Nodup) (tdSlot : Nat) (a : α) :
    slots.foldl (fun a slot => if tdSlot = slot + 1 then f a else a) a =
      if ∃ i ∈ slots, tdSlot = i + 1 then f a else a := by
  induction slots generalizing a with
  | nil => simp
  | cons i slots ih =>
    obtain ⟨hi, hnodup⟩ := List.nodup_cons.mp hnodup
    rw [List.foldl_cons, ih hnodup]
    by_cases htd : tdSlot = i + 1
    · have hrest : ¬ ∃ j ∈ slots, tdSlot = j + 1 := by
        rintro ⟨j, hj, hjtd⟩
        exact hi ((Nat.succ.inj (htd.symm.trans hjtd)) ▸ hj)
      rw [if_neg hrest, if_pos htd, if_pos ⟨i, List.mem_cons_self, htd⟩]
    · simp [htd]

section

variable {slots : List Nat} (hnodup : slots.Nodup) (isFrozen : Bool) {page : UPage} (v : page.Valid)
include hnodup v

lemma freezeOrInvalidateRow_eq {off : Nat} (ho : page.IsRow off) :
    freezeOrInvalidateRow slots isFrozen page off =
      if (page.row off).Names slots then clearRow isFrozen off page else page := by
  have hslot : uheapFreezeOrInvalidateTuplesSetTd page (page.rowPtr off) = (page.row off).slot := by
    cases hf : (page.rowPtr off).flags with
    | normal =>
      have hlen := v.len_ge off ho hf
      have hget : (page.mem.read (page.rowPtr off).offset (page.rowPtr off).len).getD offsetTdId 0 =
          page.mem ((page.rowPtr off).offset + offsetTdId) := by
        apply Mem.read_getD
        simp only [UPage.row, offsetTdId, sizeOfUHeapDiskTupleData] at hlen ⊢
        omega
      simp only [uheapFreezeOrInvalidateTuplesSetTd, Row.slot, UPage.row, hf, if_true, UPage.getTDSlot, hget]
    | redirect => simp [uheapFreezeOrInvalidateTuplesSetTd, Row.slot, UPage.row, hf]
    | unused => simp [uheapFreezeOrInvalidateTuplesSetTd, Row.slot, UPage.row, hf]
    | dead => simp [uheapFreezeOrInvalidateTuplesSetTd, Row.slot, UPage.row, hf]
  rw [freezeOrInvalidateRow, hslot]
  cases hs : (page.row off).slot with
  | none => simp [Row.Names, hs]
  | some s => simp only [Row.Names, hs, Option.some.injEq, foldl_slots _ hnodup]

/-- One turn of the loop. -/
lemma freezeOrInvalidateRow_spec {off : Nat} (ho : page.IsRow off) :
    Cleared slots isFrozen [off] page (freezeOrInvalidateRow slots isFrozen page off) := by
  rw [freezeOrInvalidateRow_eq hnodup isFrozen v ho]
  split
  case isTrue hnames =>
    obtain ⟨i, hi, hs⟩ := hnames
    have hrow : ∀ off', page.IsRow off' → (clearRow isFrozen off page).row off' =
        if off' ∈ [off] ∧ (page.row off').Names slots then (page.row off').clear isFrozen else page.row off' := by
      intro off' ho'
      by_cases hoff : off' = off
      · subst hoff
        rw [clearRow_row v ho hs, if_pos ⟨List.mem_singleton_self _, i, hi, hs⟩]
      · rw [clearRow_other v ho hs isFrozen ho' hoff, if_neg (by simp [hoff])]
    have hheader := clearRow_sameHeader v ho hs isFrozen
    refine ⟨hheader, fun i hi => clearRow_td v ho hs isFrozen hi, v.of_keeps hheader fun off' ho' => ?_, hrow⟩
    rw [hrow off' ho']
    split
    case isTrue hclear =>
      obtain ⟨_, j, _, hs'⟩ := hclear
      exact Row.Keeps.clear hs' (v.tuple_length ho') isFrozen
    case isFalse => exact Row.Keeps.refl _
  case isFalse hnames =>
    refine ⟨.refl page, fun _ _ => rfl, v, fun off' ho' => ?_⟩
    rw [if_neg]
    rintro ⟨hoff, hnames'⟩
    exact hnames (List.mem_singleton.mp hoff ▸ hnames')

/-- The loop over some of the rows. -/
lemma freezeOrInvalidateRow_foldl {offs : List Nat} (hoffs : offs.Nodup) (ho : ∀ off ∈ offs, page.IsRow off) :
    Cleared slots isFrozen offs page (offs.foldl (freezeOrInvalidateRow slots isFrozen) page) := by
  induction offs generalizing page with
  | nil => exact ⟨.refl page, fun _ _ => rfl, v, fun off _ => by simp⟩
  | cons off offs ih =>
    obtain ⟨hoff, hoffs⟩ := List.nodup_cons.mp hoffs
    have hstep := freezeOrInvalidateRow_spec hnodup isFrozen v (ho off List.mem_cons_self)
    have hrest := ih hstep.valid hoffs fun off' h => hstep.header.isRow.mpr (ho off' (List.mem_cons_of_mem _ h))
    rw [List.foldl_cons]
    refine ⟨hstep.header.trans hrest.header, fun i hi => ?_, hrest.valid, fun off' ho' => ?_⟩
    · exact (hrest.td i (hstep.header.tdCount ▸ hi)).trans (hstep.td i hi)
    · rw [hrest.row off' (hstep.header.isRow.mpr ho'), hstep.row off' ho']
      by_cases heq : off' = off
      · -- no later turn comes back to the row
        subst heq
        simp [hoff]
      · simp [heq]

/-- `UHeapFreezeOrInvalidateTuples` clears the rows that name one of the slots. -/
lemma uheapFreezeOrInvalidateTuples_spec :
    Cleared slots isFrozen (List.range' 1 page.maxOffsetNumber) page
      (uheapFreezeOrInvalidateTuples page slots isFrozen) := by
  apply freezeOrInvalidateRow_foldl hnodup isFrozen v List.nodup_range'
  intro off hoff
  obtain ⟨i, hi, rfl⟩ := List.mem_range'.mp hoff
  constructor <;> omega

end

/-! ## Clearing the slots -/

def TD.Fits (td : TD) : Prop := td.xactid < 2 ^ 64 ∧ td.undoRecordPtr < 2 ^ 64

namespace UPage

variable {page : UPage} {i : Nat}

lemma td_fits (page : UPage) (i : Nat) : (page.td i).Fits := by
  have hxid := ofLE_lt (page.mem.read (tdOffset i) 8)
  have hurp := ofLE_lt (page.mem.read (tdOffset i + 8) 8)
  rw [Mem.read_length] at hxid hurp
  exact ⟨hxid, hurp⟩

lemma setTd_td {td : TD} (h : td.Fits) : (page.setTd i td).td i = td := by
  have hread := Mem.read_write page.mem (tdOffset i) (toLE 8 td.xactid ++ toLE 8 td.undoRecordPtr)
  rw [Mem.read_append_iff, toLE_length, toLE_length] at hread
  obtain ⟨hxid, hurp⟩ := hread
  simp only [UPage.td, setTd, hxid, hurp]
  rw [ofLE_toLE_of_lt h.1, ofLE_toLE_of_lt h.2]

lemma setTd_td_ne {td : TD} {j : Nat} (h : j ≠ i) : (page.setTd i td).td j = page.td j := by
  refine td_poke ?_
  rw [List.length_append, toLE_length, toLE_length]
  cases Nat.lt_or_gt_of_ne h with
  | inl hlt => exact .inl (tdOffset_disjoint hlt)
  | inr hgt => exact .inr (tdOffset_disjoint hgt)

end UPage

section

variable (f : TD → TD)

/-- Slots that are overwritten one after the other. -/
def setTds (page : UPage) (slots : List Nat) : UPage :=
  slots.foldl (fun page i => page.setTd i (f (page.td i))) page

lemma setTds_sameHeader (page : UPage) (slots : List Nat) : page.SameHeader (setTds f page slots) := by
  induction slots generalizing page with
  | nil => exact .refl page
  | cons i slots ih => exact (⟨rfl, rfl, rfl, rfl⟩ : page.SameHeader (page.setTd i _)).trans (ih _)

lemma setTds_mem {slots : List Nat} {a : Nat} (ha : ∀ i ∈ slots, a < UPage.tdOffset i ∨ UPage.tdOffset i + sizeOfTD ≤ a)
    (page : UPage) : (setTds f page slots).mem a = page.mem a := by
  induction slots generalizing page with
  | nil => rfl
  | cons i slots ih =>
    refine (ih (fun j hj => ha j (List.mem_cons_of_mem _ hj)) _).trans ?_
    apply Mem.write_out
    rw [List.length_append, toLE_length, toLE_length]
    exact ha i List.mem_cons_self

lemma setTds_td (hf : ∀ td, td.Fits → (f td).Fits) {slots : List Nat} (hnodup : slots.Nodup) (page : UPage) (i : Nat) :
    (setTds f page slots).td i = if i ∈ slots then f (page.td i) else page.td i := by
  induction slots generalizing page with
  | nil => simp [setTds]
  | cons j slots ih =>
    obtain ⟨hj, hnodup⟩ := List.nodup_cons.mp hnodup
    refine (ih hnodup _).trans ?_
    by_cases hij : i = j
    · subst hij
      simp [hj, UPage.setTd_td (hf _ (page.td_fits i))]
    · simp [hij, UPage.setTd_td_ne hij]

/-- The slots of the array lie before every row. -/
lemma setTds_row {slots : List Nat} {page : UPage} (v : page.Valid) (hslots : ∀ i ∈ slots, i < page.tdCount)
    {off : Nat} (ho : page.IsRow off) : (setTds f page slots).row off = page.row off := by
  have hmem : ∀ a, page.rowPtrOffset ≤ a → (setTds f page slots).mem a = page.mem a := fun a ha =>
    setTds_mem f (fun i hi => .inr ((UPage.tdOffset_le (hslots i hi)).trans ha)) page
  apply UPage.row_eq
  · rw [UPage.rowPtr, UPage.rowPtr, UPage.rowPtrAddr, (setTds_sameHeader f page slots).rowPtrOffset]
    exact congrArg (fun bytes => RowPtr.ofWord (ofLE bytes))
      (Mem.read_congr fun i _ => hmem _ (Nat.le_add_right_of_le (UPage.rowPtrAddr_ge off)))
  · intro hn
    have htuple := v.rowPtrAddr_le_tuple ho ho hn
    have haddr : page.rowPtrOffset ≤ page.rowPtrAddr off := UPage.rowPtrAddr_ge off
    exact Mem.read_congr fun i _ => hmem _ (by omega)

end

/-- Slots are cleared together with the rows that name them. -/
structure SlotsCleared (slots : List Nat) (isFrozen : Bool) (f : TD → TD) (page page' : UPage) : Prop where
  header : page.SameHeader page'
  td : ∀ i < page.tdCount, page'.td i = if i ∈ slots then f (page.td i) else page.td i
  valid : page'.Valid
  row : ∀ off, page.IsRow off →
    page'.row off = if (page.row off).Names slots then (page.row off).clear isFrozen else page.row off

lemma slotsCleared (f : TD → TD) (hf : ∀ td, td.Fits → (f td).Fits) {slots : List Nat} (hnodup : slots.Nodup)
    (isFrozen : Bool) {page : UPage} (v : page.Valid) (hslots : ∀ i ∈ slots, i < page.tdCount) :
    SlotsCleared slots isFrozen f page
      (setTds f (uheapFreezeOrInvalidateTuples page slots isFrozen) slots) := by
  have hrows := uheapFreezeOrInvalidateTuples_spec hnodup isFrozen v
  have hheader := setTds_sameHeader f (uheapFreezeOrInvalidateTuples page slots isFrozen) slots
  have hrow : ∀ off, (uheapFreezeOrInvalidateTuples page slots isFrozen).IsRow off → _ := fun off ho =>
    setTds_row f hrows.valid (fun i hi => hrows.header.tdCount ▸ hslots i hi) ho
  have hvalid := hrows.valid.of_keeps hheader fun off ho => (hrow off ho).symm ▸ Row.Keeps.refl _
  refine ⟨hrows.header.trans hheader, fun i hi => ?_, hvalid, fun off ho => ?_⟩
  · rw [setTds_td f hf hnodup, hrows.td i hi]
  · have hmem : off ∈ List.range' 1 page.maxOffsetNumber := by
      rw [List.mem_range'_1]
      have h1 := ho.1
      have h2 := ho.2
      omega
    rw [hrow off (hrows.header.isRow.mpr ho), hrows.row off ho]
    simp [hmem]

/-! ## Extending the array -/

lemma numExtended_le (page : UPage) : page.tdCount + numExtended page ≤ max page.tdCount uheapMaxTd := by
  simp only [numExtended]
  split
  · exact le_max_left _ _
  · omega

lemma uPageGetFreeSpace_le (page : UPage) : uPageGetFreeSpace page ≤ page.pdUpper - page.pdLower := by
  simp only [uPageGetFreeSpace]
  split <;> omega

lemma pageGetUHeapFreeSpace_le (page : UPage) : pageGetUHeapFreeSpace page ≤ page.pdUpper - page.pdLower := by
  have hspace := uPageGetFreeSpace_le page
  simp only [pageGetUHeapFreeSpace]
  split
  · split <;> omega
  · exact hspace

/-- There is room for the new slots. -/
lemma numExtended_room (page : UPage) : numExtended page * sizeOfTD ≤ page.pdUpper - page.pdLower := by
  refine le_trans ?_ (pageGetUHeapFreeSpace_le page)
  simp only [numExtended, sizeOfTD]
  split
  · omega
  · generalize hn : (if page.tdCount < tdThresholdForPageSwitch then
        min page.tdCount (tdThresholdForPageSwitch - page.tdCount) else tdSlotIncrementSize) = n
    split <;> omega

/-- An array of slots that has grown. -/
structure Extended (n : Nat) (page page' : UPage) : Prop where
  tdCount : page'.tdCount = page.tdCount + n
  maxOffsetNumber : page'.maxOffsetNumber = page.maxOffsetNumber
  td : ∀ i < page.tdCount, page'.td i = page.td i
  new : ∀ i, page.tdCount ≤ i → i < page.tdCount + n → page'.td i = ⟨invalidTransactionId, invalidUndoRecPtr⟩
  row : ∀ off, page.IsRow off → page'.row off = page.row off
  valid : page'.Valid

section

variable {page : UPage} (v : page.Valid) {n : Nat} (hroom : n * sizeOfTD ≤ page.pdUpper - page.pdLower)

/-- The page after the row pointers were moved, before the new slots are initialised. -/
def movedPage (page : UPage) (n : Nat) : UPage :=
  page.poke (page.rowPtrOffset + n * sizeOfTD) (page.mem.read page.rowPtrOffset (page.pdLower - page.rowPtrOffset))

lemma moveRowPtrs_eq (page : UPage) (n : Nat) : moveRowPtrs page n =
    { setTds (fun _ => ⟨invalidTransactionId, invalidUndoRecPtr⟩) (movedPage page n) (List.range' page.tdCount n) with
      tdCount := page.tdCount + n, pdLower := page.pdLower + n * sizeOfTD } := by
  simp only [moveRowPtrs, setTds, movedPage, UPage.poke]

lemma moveRowPtrs_tdCount (page : UPage) (n : Nat) : (moveRowPtrs page n).tdCount = page.tdCount + n := by
  rw [moveRowPtrs_eq]

lemma moveRowPtrs_pdLower (page : UPage) (n : Nat) :
    (moveRowPtrs page n).pdLower = page.pdLower + n * sizeOfTD := by
  rw [moveRowPtrs_eq]

lemma moveRowPtrs_pdUpper (page : UPage) (n : Nat) : (moveRowPtrs page n).pdUpper = page.pdUpper := by
  rw [moveRowPtrs_eq]
  exact (setTds_sameHeader (fun _ => ⟨invalidTransactionId, invalidUndoRecPtr⟩) (movedPage page n)
    (List.range' page.tdCount n)).pdUpper

/-- Behind the new slots. -/
lemma moveRowPtrs_mem_ge {a : Nat} (ha : page.rowPtrOffset + n * sizeOfTD ≤ a) :
    (moveRowPtrs page n).mem a = (movedPage page n).mem a := by
  rw [moveRowPtrs_eq]
  dsimp only
  apply setTds_mem
  intro i hi
  refine .inr ?_
  obtain ⟨j, hj, rfl⟩ := List.mem_range'.mp hi
  simp only [UPage.rowPtrOffset, UPage.tdOffset, sizeOfTD] at ha ⊢
  omega

lemma moveRowPtrs_maxOffsetNumber (v : page.Valid) (n : Nat) :
    (moveRowPtrs page n).maxOffsetNumber = page.maxOffsetNumber := by
  have hpos := v.tdCount_pos
  have hlower := v.rowPtrOffset_le
  have hsub : page.pdLower + n * sizeOfTD - (sizeOfUHeapPageHeaderData + (page.tdCount + n) * sizeOfTD) =
      page.pdLower - (sizeOfUHeapPageHeaderData + page.tdCount * sizeOfTD) := by
    simp only [sizeOfTD]
    omega
  simp only [UPage.rowPtrOffset, sizeOfTD] at hlower
  simp only [UPage.maxOffsetNumber, UPage.rowPtrOffset, moveRowPtrs_eq, hsub]
  rw [if_neg (by omega), if_neg (by omega)]

/-- A row pointer is found where it was moved. -/
lemma moveRowPtrs_rowPtr {off : Nat} (ho : page.IsRow off) : (moveRowPtrs page n).rowPtr off = page.rowPtr off := by
  have hend := ho.rowPtrAddr_le
  have hstart : page.rowPtrOffset ≤ page.rowPtrAddr off := UPage.rowPtrAddr_ge off
  have haddr : (moveRowPtrs page n).rowPtrAddr off = page.rowPtrAddr off + n * sizeOfTD := by
    simp only [moveRowPtrs_eq, UPage.rowPtrAddr, UPage.rowPtrOffset, sizeOfTD]
    omega
  rw [UPage.rowPtr, UPage.rowPtr, haddr]
  refine congrArg (fun bytes => RowPtr.ofWord (ofLE bytes)) ?_
  apply List.map_congr_left
  intro i hi
  have hi4 : i < sizeOfRowPtr := List.mem_range.mp hi
  have hin : page.rowPtrAddr off + i - page.rowPtrOffset < page.pdLower - page.rowPtrOffset := by omega
  have hpos : page.rowPtrAddr off + n * sizeOfTD + i - (page.rowPtrOffset + n * sizeOfTD) =
      page.rowPtrAddr off + i - page.rowPtrOffset := by omega
  rw [moveRowPtrs_mem_ge (by omega)]
  refine (Mem.write_in (by omega) (by rw [Mem.read_length]; omega)).trans ?_
  rw [hpos, Mem.read_getD hin]
  congr 1
  omega

include v hroom

/-- The tuples lie behind the row pointers, wherever those are moved to. -/
lemma moveRowPtrs_row {off : Nat} (ho : page.IsRow off) : (moveRowPtrs page n).row off = page.row off := by
  refine UPage.row_eq (moveRowPtrs_rowPtr ho) fun hn => Mem.read_congr fun i _ => ?_
  have htuple := v.tuple_ge off ho hn
  have hlower := v.pdLower_le
  have hstart := v.rowPtrOffset_le
  rw [moveRowPtrs_mem_ge (by omega)]
  apply Mem.write_out
  rw [Mem.read_length]
  omega

lemma moveRowPtrs_extended (hn : page.tdCount + n ≤ uheapMaxTd) : Extended n page (moveRowPtrs page n) := by
  have hmax := moveRowPtrs_maxOffsetNumber v n
  have hisRow : ∀ off, (moveRowPtrs page n).IsRow off → page.IsRow off := fun off ho => ⟨ho.1, hmax ▸ ho.2⟩
  have hrow : ∀ off, (moveRowPtrs page n).IsRow off → (moveRowPtrs page n).row off = page.row off :=
    fun off ho => moveRowPtrs_row v hroom (hisRow off ho)
  have htd : ∀ i, (moveRowPtrs page n).td i = if i ∈ List.range' page.tdCount n then
      ⟨invalidTransactionId, invalidUndoRecPtr⟩ else (movedPage page n).td i := fun i => by
    rw [moveRowPtrs_eq]
    exact setTds_td (fun _ => ⟨invalidTransactionId, invalidUndoRecPtr⟩) (fun _ _ => ⟨by decide, by decide⟩)
      List.nodup_range' _ i
  refine ⟨moveRowPtrs_tdCount page n, hmax, fun i hi => ?_, fun i hi hi' => ?_,
    fun off ho => moveRowPtrs_row v hroom ho, ?_⟩
  · rw [htd, if_neg (by rw [List.mem_range'_1]; omega)]
    exact UPage.td_poke (.inl ((UPage.tdOffset_le hi).trans (Nat.le_add_right _ _)))
  · rw [htd, if_pos (by rw [List.mem_range'_1]; omega)]
  have hstart := v.rowPtrOffset_le
  have hlower := v.pdLower_le
  have hpos := v.tdCount_pos
  simp only [UPage.rowPtrOffset, sizeOfTD] at hstart
  exact
    { tdCount_pos := by
        rw [moveRowPtrs_tdCount]
        exact Nat.add_pos_left v.tdCount_pos n
      tdCount_le := by rwa [moveRowPtrs_tdCount]
      rowPtrOffset_le := by
        rw [UPage.rowPtrOffset, moveRowPtrs_tdCount, moveRowPtrs_pdLower]
        simp only [sizeOfTD]
        omega
      pdLower_le := by
        rw [moveRowPtrs_pdLower, moveRowPtrs_pdUpper]
        omega
      tuple_ge := fun off ho hnormal => by
        rw [hrow off ho] at hnormal ⊢
        rw [moveRowPtrs_pdUpper]
        exact v.tuple_ge off (hisRow off ho) hnormal
      len_ge := fun off ho hnormal => by
        rw [hrow off ho] at hnormal ⊢
        exact v.len_ge off (hisRow off ho) hnormal
      disjoint := fun off off' ho ho' hlt hnormal hnormal' => by
        rw [hrow off ho] at hnormal ⊢
        rw [hrow off' ho'] at hnormal' ⊢
        exact v.disjoint off off' (hisRow off ho) (hisRow off' ho') hlt hnormal hnormal'
      slot_le := fun off ho s hs => by
        rw [hrow off ho] at hs
        rw [moveRowPtrs_tdCount]
        exact (v.slot_le off (hisRow off ho) s hs).trans (Nat.le_add_right _ _) }

omit hroom

/-- `UPageExtendTDSlots` keeps the slots and the rows. -/
lemma uPageExtendTDSlots_extended :
    Extended (uPageExtendTDSlots page).1 page (uPageExtendTDSlots page).2 := by
  rw [uPageExtendTDSlots]
  split
  case isTrue hzero => exact ⟨rfl, rfl, fun _ _ => rfl, fun i h h' => by omega, fun _ _ => rfl, v⟩
  case isFalse =>
    have hle := numExtended_le page
    rw [max_eq_right v.tdCount_le] at hle
    exact moveRowPtrs_extended v (numExtended_room page) hle

end

/-! ## What a reservation leaves -/

variable (env : XactEnv)

/-- What may have become of slot `i` and of the rows that name it. -/
inductive SlotFate (page page' : UPage) (i : Nat) : Prop where
  /-- Nothing. -/
  | kept : page'.td i = page.td i →
    (∀ off, page.IsRow off → (page.row off).slot = some (i + 1) → page'.row off = page.row off) →
    SlotFate page page' i
  /-- An old slot, or the first one of a local relation, was cleared, and its rows are frozen or dead. -/
  | frozen : env.relationIsLocal = true ∧ i = 0 ∨
      env.relationIsLocal = false ∧ (page.td i).xactid < env.globalRecycleXid →
    page'.td i = ⟨invalidTransactionId, invalidUndoRecPtr⟩ →
    (∀ off, page.IsRow off → (page.row off).slot = some (i + 1) →
      page'.row off = (page.row off).freeze ∧ (page'.row off).Frozen) →
    SlotFate page page' i
  /-- The slot of a committed transaction lost its xid, and its rows are flagged. -/
  | invalidated : env.relationIsLocal = false → env.globalRecycleXid ≤ (page.td i).xactid →
    env.transactionIdIsInProgress (page.td i).xactid = false →
    env.uheapTransactionIdDidCommit (page.td i).xactid = true →
    page'.td i = ⟨invalidTransactionId, (page.td i).undoRecordPtr⟩ →
    (∀ off, page.IsRow off → (page.row off).slot = some (i + 1) → page'.row off = (page.row off).invalidate ∧
      (page'.row off).InvalidXact ∧ (page'.row off).slot = some (i + 1)) →
    SlotFate page page' i

/-- A page on which slots were cleared or added. -/
structure SlotsReused (page page' : UPage) : Prop where
  valid : page'.Valid
  tdCount_le : page.tdCount ≤ page'.tdCount
  maxOffsetNumber : page'.maxOffsetNumber = page.maxOffsetNumber
  fate : ∀ i < page.tdCount, SlotFate env page page' i
  unnamed : ∀ off, page.IsRow off → (∀ i, (page.row off).slot ≠ some (i + 1)) → page'.row off = page.row off
  new : ∀ i, page.tdCount ≤ i → i < page'.tdCount → page'.td i = ⟨invalidTransactionId, invalidUndoRecPtr⟩ ∧
    ∀ off, page'.IsRow off → (page'.row off).slot ≠ some (i + 1)

/-- A slot of an unfinished transaction that is not old keeps its contents and its rows. -/
lemma SlotFate.running {page page' : UPage} {i : Nat} (h : SlotFate env page page' i)
    (hlocal : env.relationIsLocal = false) (hxid : env.globalRecycleXid ≤ (page.td i).xactid)
    (hrunning : env.transactionIdIsInProgress (page.td i).xactid = true) :
    page'.td i = page.td i ∧
      ∀ off, page.IsRow off → (page.row off).slot = some (i + 1) → page'.row off = page.row off := by
  cases h with
  | kept htd hrows => exact ⟨htd, hrows⟩
  | frozen hold =>
    obtain ⟨hlocal', _⟩ | ⟨_, hlt⟩ := hold
    · exact absurd (hlocal.symm.trans hlocal') (by decide)
    · exact absurd hlt (Nat.not_lt.mpr hxid)
  | invalidated _ _ hfinished => exact absurd (hrunning.symm.trans hfinished) (by decide)

section

variable {page page' : UPage} (v : page.Valid)
include v

lemma SlotsReused.refl : SlotsReused env page page where
  valid := v
  tdCount_le := le_rfl
  maxOffsetNumber := rfl
  fate _ _ := .kept rfl fun _ _ _ => rfl
  unnamed _ _ _ := rfl
  new _ h h' := absurd h' (Nat.not_lt.mpr h)

lemma Extended.slotsReused {n : Nat} (h : Extended n page page') : SlotsReused env page page' where
  valid := h.valid
  tdCount_le := h.tdCount ▸ Nat.le_add_right _ _
  maxOffsetNumber := h.maxOffsetNumber
  fate i hi := .kept (h.td i hi) fun off ho _ => h.row off ho
  unnamed off ho _ := h.row off ho
  new i hi hi' := by
    refine ⟨h.new i hi (h.tdCount ▸ hi'), fun off ho hs => ?_⟩
    have ho' : page.IsRow off := ⟨ho.1, h.maxOffsetNumber ▸ ho.2⟩
    rw [h.row off ho'] at hs
    have hle := v.slot_le off ho' _ hs
    omega

omit v in
/-- Slots that were cleared with their rows; what became of each of them is left to be shown. -/
lemma SlotsCleared.slotsReused {slots : List Nat} {isFrozen : Bool} {f : TD → TD}
    (h : SlotsCleared slots isFrozen f page page')
    (hfate : ∀ i ∈ slots, page'.td i = f (page.td i) → (∀ off, page.IsRow off → (page.row off).slot = some (i + 1) →
      page'.row off = (page.row off).clear isFrozen) → SlotFate env page page' i) : SlotsReused env page page' where
  valid := h.valid
  tdCount_le := h.header.tdCount.ge
  maxOffsetNumber := h.header.maxOffsetNumber
  fate i hi := by
    by_cases hmem : i ∈ slots
    · refine hfate i hmem (by rw [h.td i hi, if_pos hmem]) fun off ho hs => ?_
      rw [h.row off ho, if_pos ⟨i, hmem, hs⟩]
    · refine .kept (by rw [h.td i hi, if_neg hmem]) fun off ho hs => ?_
      rw [h.row off ho, if_neg]
      rintro ⟨j, hj, hs'⟩
      have hij : i + 1 = j + 1 := Option.some.inj (hs.symm.trans hs')
      exact hmem ((Nat.succ.inj hij) ▸ hj)
  unnamed off ho hunnamed := by
    rw [h.row off ho, if_neg]
    rintro ⟨i, _, hs⟩
    exact hunnamed i hs
  new _ hi hi' := absurd (h.header.tdCount ▸ hi') (Nat.not_lt.mpr hi)

lemma frozenSlots_lt {i : Nat} (hi : i ∈ frozenSlots env page) : i < page.tdCount := by
  rw [frozenSlots] at hi
  split at hi
  · exact List.mem_singleton.mp hi ▸ v.tdCount_pos
  · exact List.mem_range.mp (List.mem_of_mem_filter hi)

/-- The slots that are frozen are cleared with their rows. -/
lemma frozen_cleared : SlotsCleared (frozenSlots env page) true
    (fun _ => ⟨invalidTransactionId, invalidUndoRecPtr⟩) page
    (initFrozenSlots (uheapFreezeOrInvalidateTuples page (frozenSlots env page) true) (frozenSlots env page)) := by
  refine slotsCleared _ (fun _ _ => ⟨by decide, by decide⟩) ?_ true v fun i hi => frozenSlots_lt env v hi
  rw [frozenSlots]
  split
  · exact List.nodup_singleton 0
  · exact List.nodup_range.filter _

lemma frozen_slotsReused : SlotsReused env page
    (initFrozenSlots (uheapFreezeOrInvalidateTuples page (frozenSlots env page) true) (frozenSlots env page)) := by
  refine (frozen_cleared env v).slotsReused env fun i hi htd hrows => .frozen ?_ htd fun off ho hs => ?_
  · rw [frozenSlots] at hi
    cases hlocal : env.relationIsLocal with
    | true =>
      simp only [hlocal, if_true, List.mem_singleton] at hi
      exact .inl ⟨rfl, hi⟩
    | false =>
      simp only [hlocal, Bool.false_eq_true, if_false, List.mem_filter, decide_eq_true_eq] at hi
      exact .inr ⟨rfl, hi.2⟩
  · have hrow : _ = (page.row off).freeze := hrows off ho hs
    exact ⟨hrow, hrow ▸ Row.freeze_frozen hs (v.tuple_length ho)⟩

/-- The slots of committed transactions are cleared with their rows. -/
lemma completed_cleared : SlotsCleared (completedXactSlots env page) false
    (fun td => { td with xactid := invalidTransactionId }) page
    (clearXactids (uheapFreezeOrInvalidateTuples page (completedXactSlots env page) false)
      (completedXactSlots env page)) :=
  slotsCleared (fun td => { td with xactid := invalidTransactionId }) (fun _ h => ⟨by norm_num, h.2⟩)
    (List.nodup_range.filter _) false v fun _ hi => List.mem_range.mp (List.mem_of_mem_filter hi)

lemma completed_slotsReused (hfrozen : frozenSlots env page = []) : SlotsReused env page
    (clearXactids (uheapFreezeOrInvalidateTuples page (completedXactSlots env page) false)
      (completedXactSlots env page)) := by
  have hlocal : env.relationIsLocal = false := by
    cases h : env.relationIsLocal with
    | false => rfl
    | true => simp [frozenSlots, h] at hfrozen
  simp only [frozenSlots, hlocal, Bool.false_eq_true, if_false, List.filter_eq_nil_iff, List.mem_range,
    decide_eq_true_eq, Nat.not_lt] at hfrozen
  refine (completed_cleared env v).slotsReused env fun i hi htd hrows => ?_
  simp only [completedXactSlots, List.mem_filter, List.mem_range, Bool.and_eq_true, Bool.not_eq_true'] at hi
  obtain ⟨hi, hfinished, hcommit⟩ := hi
  refine .invalidated hlocal (hfrozen i hi) hfinished hcommit htd fun off ho hs => ?_
  have hrow : _ = (page.row off).invalidate := hrows off ho hs
  have hlen := v.tuple_length ho
  exact ⟨hrow, hrow ▸ Row.invalidate_invalidXact hs hlen, hrow ▸ Row.invalidate_slot hs hlen⟩

/-- A slot that a reservation may return: it is the transaction's own or belongs to none. -/
def Usable (fxid n : Nat) (urecPtr : Option Nat) (page : UPage) : Prop :=
  1 ≤ n ∧ n ≤ page.tdCount ∧
    ((page.td (n - 1)).xactid = fxid ∨ (page.td (n - 1)).xactid = invalidTransactionId) ∧
      ∀ urp, urecPtr = some urp → urp = (page.td (n - 1)).undoRecordPtr

/-- A reservation that kept the lock on the page. -/
def Reserved (fxid : Nat) (page : UPage) (r : ReserveResult) : Prop :=
  r.lockReacquired = false ∧ (∀ n, r.slot = some n → Usable fxid n r.urecPtr r.page) ∧ SlotsReused env page r.page

/-- The slots of unfinished transactions that are not old are as they were, and so are their rows. -/
def RunningKept (page page' : UPage) : Prop :=
  ∀ i < page.tdCount, env.relationIsLocal = false → env.globalRecycleXid ≤ (page.td i).xactid →
    env.transactionIdIsInProgress (page.td i).xactid = true → page'.td i = page.td i ∧
      ∀ off, page.IsRow off → (page.row off).slot = some (i + 1) → page'.row off = page.row off

lemma searchedSlots_lt {i : Nat} (hi : i ∈ searchedSlots env page) : i < page.tdCount := by
  rw [searchedSlots] at hi
  split at hi
  · exact List.mem_singleton.mp hi ▸ v.tdCount_pos
  · exact List.mem_range.mp hi

/-- The part behind the search either extends the array or gives up. -/
lemma extendOrGiveUp_reserved (aggressiveSearch : Bool) (fxid minXid : Nat) :
    Reserved env fxid page (extendOrGiveUp aggressiveSearch page minXid) := by
  have hext := uPageExtendTDSlots_extended v
  rw [extendOrGiveUp]
  split
  · exact ⟨rfl, fun n hn => by simp at hn, .refl env v⟩
  · split
    case _ page'' heq =>
      rw [heq] at hext
      exact ⟨rfl, fun n hn => by simp at hn, hext.slotsReused env v⟩
    case _ n page'' hpos heq =>
      rw [heq] at hext
      refine ⟨rfl, fun m hm => ?_, hext.slotsReused env v⟩
      obtain rfl : page.tdCount + 1 = m := Option.some.inj hm
      have hn : n ≠ 0 := hpos
      have htd := hext.new page.tdCount le_rfl (by omega)
      refine ⟨Nat.succ_pos _, by rw [hext.tdCount]; omega, .inr ?_, fun urp hurp => by simp at hurp⟩
      simp only [Nat.add_sub_cancel, htd]

omit v in
/-- Clearing slots frees one. -/
lemma reuseLoop_cleared {slots : List Nat} {isFrozen : Bool} {f : TD → TD}
    (h : SlotsCleared slots isFrozen f page page')
    (hf : ∀ td, (f td).xactid = invalidTransactionId) {i : Nat} (hi : i ∈ slots) (hlt : i < page.tdCount) :
    ∃ j, reuseLoop page' = some j ∧ j < page'.tdCount ∧ (page'.td j).xactid = invalidTransactionId := by
  have hxid : (page'.td i).xactid = invalidTransactionId := by
    rw [h.td i hlt, if_pos hi]
    exact hf _
  cases hloop : reuseLoop page' with
  | none =>
    have hnone := List.find?_eq_none.mp hloop i (List.mem_range.mpr (h.header.tdCount ▸ hlt))
    exact absurd hxid (by simpa using hnone)
  | some j =>
    have hj := List.find?_some hloop
    exact ⟨j, rfl, List.mem_range.mp (List.mem_of_find?_eq_some hloop), by simpa using hj⟩

end

/-- A slot that is reserved belongs to the transaction or to none, and every row stays recoverable: rows of a slot
that was cleared are frozen or dead if the slot was old, else they are flagged and the slot keeps its undo pointer;
the other slots and rows are as before. When transactions had to be rolled back the lock on the page was given up,
and no slot is returned. -/
theorem uheapPageReserveTransactionSlot_recoverable {page : UPage} (v : page.Valid) (fxid : Nat)
    (aggressiveSearch : Bool) :
    let r := uheapPageReserveTransactionSlot env page fxid aggressiveSearch
    Reserved env fxid page r ∧ RunningKept env page r.page ∨
      r.lockReacquired = true ∧ r.slot = none ∧ env.relationIsLocal = false ∧ frozenSlots env page = [] ∧
        completedXactSlots env page = [] ∧ r.page = env.rollback page
          ((abortedXactSlots env page).map fun i => ((page.td i).undoRecordPtr, (page.td i).xactid)) := by
  intro r
  have hrunning : Reserved env fxid page r → Reserved env fxid page r ∧ RunningKept env page r.page := fun h =>
    ⟨h, fun i hi hlocal hxid hrun => (h.2.2.fate i hi).running env hlocal hxid hrun⟩
  refine Or.imp_left hrunning ?_
  have hfound : ∀ {p : Nat → Bool} {i : Nat}, (searchedSlots env page).find? p = some i →
      (∀ i, p i = true → (page.td i).xactid = fxid ∨ (page.td i).xactid = invalidTransactionId) →
      Reserved env fxid page ⟨some (i + 1), some (page.td i).undoRecordPtr, false, none, page⟩ := by
    intro p i hi hp
    refine ⟨rfl, fun n hn => ?_, .refl env v⟩
    obtain rfl : i + 1 = n := Option.some.inj hn
    have hlt := searchedSlots_lt env v (List.mem_of_find?_eq_some hi)
    exact ⟨Nat.succ_pos _, hlt, hp i (List.find?_some hi), fun urp hurp => (Option.some.inj hurp).symm⟩
  have hreuse : ∀ {slots : List Nat} {isFrozen : Bool} {f : TD → TD} {page' : UPage} (minXid : Nat),
      SlotsCleared slots isFrozen f page page' → SlotsReused env page page' → slots ≠ [] →
      (∀ i ∈ slots, i < page.tdCount) → (∀ td, (f td).xactid = invalidTransactionId) →
      ∃ i, reuseLoop page' = some i ∧
        Reserved env fxid page ⟨some (i + 1), some (page'.td i).undoRecordPtr, false, some minXid, page'⟩ := by
    intro slots isFrozen f page' minXid hcleared hreused hne hslots hf
    obtain ⟨i, hi⟩ := List.exists_mem_of_ne_nil slots hne
    obtain ⟨j, hloop, hlt, hxid⟩ := reuseLoop_cleared hcleared hf hi (hslots i hi)
    refine ⟨j, hloop, rfl, fun n hn => ?_, hreused⟩
    obtain rfl : j + 1 = n := Option.some.inj hn
    exact ⟨Nat.succ_pos _, hlt, .inr hxid, fun urp hurp => (Option.some.inj hurp).symm⟩
  cases hown : (searchedSlots env page).find? fun i => (page.td i).xactid = fxid with
  | some i =>
    simp only [r, uheapPageReserveTransactionSlot, hown]
    exact .inl (hfound hown fun i hi => .inl (by simpa using hi))
  | none =>
    cases hfree : (searchedSlots env page).find? fun i => (page.td i).xactid = invalidTransactionId with
    | some i =>
      simp only [r, uheapPageReserveTransactionSlot, hown, hfree]
      exact .inl (hfound hfree fun i hi => .inr (by simpa using hi))
    | none =>
      simp only [r, uheapPageReserveTransactionSlot, hown, hfree, uheapPageFreezeTransSlots]
      by_cases hfrozen : frozenSlots env page = []
      · by_cases hcompleted : completedXactSlots env page = []
        · by_cases haborted : abortedXactSlots env page = []
          · simp only [hfrozen, hcompleted, haborted, ne_eq, not_true_eq_false, if_false, Bool.false_eq_true]
            exact .inl (extendOrGiveUp_reserved env v aggressiveSearch fxid _)
          · -- the lock is given up for the rollback
            have hlocal : env.relationIsLocal = false := by
              cases h : env.relationIsLocal with
              | false => rfl
              | true => simp [frozenSlots, h] at hfrozen
            simp only [hfrozen, hcompleted, haborted, ne_eq, not_true_eq_false, not_false_eq_true, if_true, if_false]
            exact .inr ⟨trivial, trivial, hlocal, trivial, trivial, trivial⟩
        · simp only [hfrozen, hcompleted, ne_eq, not_true_eq_false, not_false_eq_true, if_true, if_false,
            Bool.false_eq_true]
          obtain ⟨i, hloop, hreserved⟩ := hreuse _ (completed_cleared env v) (completed_slotsReused env v hfrozen)
            hcompleted (fun i hi => List.mem_range.mp (List.mem_of_mem_filter hi)) fun _ => rfl
          rw [hloop]
          exact .inl hreserved
      · simp only [hfrozen, ne_eq, not_false_eq_true, if_true, if_false, Bool.false_eq_true]
        obtain ⟨i, hloop, hreserved⟩ := hreuse _ (frozen_cleared env v) (frozen_slotsReused env v) hfrozen
          (fun i hi => frozenSlots_lt env v hi) fun _ => rfl
        rw [hloop]
        exact .inl hreserved

/-- A page with one slot, of transaction 100, and one row that names it. -/
def oneRowPage : UPage where
  hasFreeLines := false
  pdLower := 76
  pdUpper := 8000
  tdCount := 1
  mem :=
    let m := Mem.write (fun _ => 0) 56 (toLE 8 100 ++ toLE 8 7)
    let m := Mem.write m 72 (toLE 4 (RowPtr.toWord ⟨8000, .normal, 20⟩))
    Mem.write m 8004 [1]

lemma oneRowPage_valid : oneRowPage.Valid := by
  have hrow : ∀ off, oneRowPage.IsRow off → off = 1 := by
    rintro off ⟨h1, h2⟩
    have hmax : oneRowPage.maxOffsetNumber = 1 := by decide +kernel
    omega
  have hone : oneRowPage.row 1 = ⟨⟨8000, .normal, 20⟩, 0 :: 0 :: 0 :: 0 :: 1 :: List.replicate 15 0⟩ := by
    decide +kernel
  refine ⟨by decide, by decide, by decide, by decide, ?_, ?_, ?_, ?_⟩
  · intro off ho _
    rw [hrow off ho, hone]
    decide
  · intro off ho _
    rw [hrow off ho, hone]
    decide
  · intro off off' ho ho' hlt
    have h1 := hrow off ho
    have h2 := hrow off' ho'
    omega
  · intro off ho s hs
    rw [hrow off ho, hone] at hs
    obtain rfl : 1 = s := Option.some.inj hs
    decide

/-- Transaction 100 has committed, and only transactions before 50 are old. -/
def committedEnv (relationIsLocal : Bool) : XactEnv where
  relationIsLocal := relationIsLocal
  globalRecycleXid := 50
  transactionIdIsInProgress := fun _ => false
  uheapTransactionIdDidCommit := fun _ => true
  rollback := fun page _ => page

/-- The slot is given to the new transaction with its undo pointer, and the row is flagged. -/
theorem uheapPageReserveTransactionSlot_recoverable_oneRow :
    let r := uheapPageReserveTransactionSlot (committedEnv false) oneRowPage 200 true
    (r.slot = some 1 ∧ r.lockReacquired = false ∧ r.urecPtr = some 7 ∧
        r.page.td 0 = ⟨invalidTransactionId, 7⟩ ∧ (r.page.row 1).slot = some 1 ∧
        (r.page.row 1).flag &&& uheapInvalidXactSlot ≠ 0) ∧
      Reserved (committedEnv false) 200 oneRowPage r ∧ RunningKept (committedEnv false) oneRowPage r.page := by
  have hvalues :
      let r := uheapPageReserveTransactionSlot (committedEnv false) oneRowPage 200 true
      r.slot = some 1 ∧ r.lockReacquired = false ∧ r.urecPtr = some 7 ∧
        r.page.td 0 = ⟨invalidTransactionId, 7⟩ ∧ (r.page.row 1).slot = some 1 ∧
        (r.page.row 1).flag &&& uheapInvalidXactSlot ≠ 0 := by
    decide +kernel
  refine ⟨hvalues, (uheapPageReserveTransactionSlot_recoverable (committedEnv false) oneRowPage_valid 200
    true).resolve_right fun h => ?_⟩
  exact Bool.false_ne_true (hvalues.2.1.symm.trans h.1)

/-- In a local relation the row of a transaction that is not old is frozen all the same. -/
theorem local_slot_frozen :
    let r := uheapPageReserveTransactionSlot (committedEnv true) oneRowPage 200 true
    (oneRowPage.row 1).slot = some 1 ∧ (oneRowPage.td 0).xactid = 100 ∧ ¬ 100 < (committedEnv true).globalRecycleXid ∧
      r.slot = some 1 ∧ r.page.td 0 = ⟨invalidTransactionId, invalidUndoRecPtr⟩ ∧ (r.page.row 1).rp.flags = .normal ∧
        (r.page.row 1).slot = some uheaptupSlotFrozen ∧ (r.page.row 1).flag &&& uheapInvalidXactSlot = 0 := by
  decide +kernel

end GaussKernel.UHeap
