import GaussKernel.UHeap.PageLayout
import GaussKernel.UHeap.SlotReuse

/-!
# Adding an item keeps the layout

What `UPageAddItem` and `UPageExtendTDSlots` do to the rows of a page: where the row pointers go (`shifted`), and that
no tuple but the new one is touched.
-/

namespace GaussKernel.UHeap

open Lib

/-! ## Where the row pointers go -/

/-- The number of row `i` after a row was inserted, or put, at `off`. -/
def shifted (inserted : Bool) (off i : Nat) : Nat := if inserted ∧ off ≤ i then i + 1 else i

/-- A page with a new row; `inserted` says that row pointers made room for it. -/
structure ItemAdded (item : List UInt8) (off : Nat) (inserted : Bool) (page page' : UPage) : Prop where
  stored : page'.Stored off
  len : (page'.rowPtr off).len = item.length
  bytes : page'.tupleBytes off = item
  others : ∀ i, page.Stored i → page'.Stored (shifted inserted off i) ∧ shifted inserted off i ≠ off ∧
    page'.rowPtr (shifted inserted off i) = page.rowPtr i ∧
    page'.tupleBytes (shifted inserted off i) = page.tupleBytes i
  only : ∀ i', page'.Stored i' → i' = off ∨ ∃ i, page.Stored i ∧ i' = shifted inserted off i

variable {page page' upage : UPage} {item : List UInt8} {off off' : Nat} {needshuffle : Bool}

lemma shuffleRowPtrs_mem {a : Nat} (hb : page.rowPtrOffset ≤ page.pdLower) (h1 : 1 ≤ off)
    (ha : a < page.rowPtrAddr off ∨ page.pdLower + sizeOfRowPtr ≤ a) :
    (shuffleRowPtrs page off).mem a = page.mem a := by
  apply Mem.write_out
  rw [Mem.read_length, UPage.maxOffsetNumber_eq hb]
  simp only [UPage.rowPtrAddr, sizeOfRowPtr] at ha ⊢
  omega

/-- A row pointer from `off` on is found behind its place. -/
lemma shuffleRowPtrs_rowPtr {i : Nat} (h1 : 1 ≤ off) (hi : off ≤ i) (hmax : i ≤ page.maxOffsetNumber) :
    (shuffleRowPtrs page off).rowPtr (i + 1) = page.rowPtr i := by
  apply UPage.rowPtr_eq_of_mem
  intro k hk
  have hin : (i - off) * sizeOfRowPtr + k < (page.maxOffsetNumber + 1 - off) * sizeOfRowPtr := by
    simp only [sizeOfRowPtr] at hk ⊢
    omega
  have haddr : (shuffleRowPtrs page off).rowPtrAddr (i + 1) + k =
      page.rowPtrAddr off + sizeOfRowPtr + ((i - off) * sizeOfRowPtr + k) := by
    simp only [UPage.rowPtrAddr, UPage.rowPtrOffset, shuffleRowPtrs, sizeOfRowPtr]
    omega
  have hold : page.rowPtrAddr i + k = page.rowPtrAddr off + ((i - off) * sizeOfRowPtr + k) := by
    simp only [UPage.rowPtrAddr, UPage.rowPtrOffset, sizeOfRowPtr]
    omega
  rw [haddr, hold]
  refine (Mem.write_in (Nat.le_add_right _ _) (by rw [Mem.read_length]; omega)).trans ?_
  rw [Nat.add_sub_cancel_left, Mem.read_getD hin]

lemma shuffleRowPtrs_rowPtr_lt {i : Nat} (hb : page.rowPtrOffset ≤ page.pdLower) (h1 : 1 ≤ off) (hi : 1 ≤ i)
    (hlt : i < off) : (shuffleRowPtrs page off).rowPtr i = page.rowPtr i := by
  apply UPage.rowPtr_eq_of_mem
  intro k hk
  refine shuffleRowPtrs_mem hb h1 (.inl ?_)
  change page.rowPtrAddr i + k < page.rowPtrAddr off
  simp only [UPage.rowPtrAddr, sizeOfRowPtr] at hk ⊢
  omega

/-! ## The item -/

/-- The page whose row pointers made room. -/
def rowPtrsMoved (needshuffle : Bool) (off : Nat) (page : UPage) : UPage :=
  if needshuffle then shuffleRowPtrs page off else page

lemma rowPtrsMoved_tdCount (needshuffle : Bool) (off : Nat) (page : UPage) :
    (rowPtrsMoved needshuffle off page).tdCount = page.tdCount := by
  cases needshuffle <;> rfl

lemma rowPtrOffset_congr (h : page'.tdCount = page.tdCount) : page'.rowPtrOffset = page.rowPtrOffset := by
  rw [UPage.rowPtrOffset, UPage.rowPtrOffset, h]

lemma rowPtrAddr_congr (h : page'.tdCount = page.tdCount) (i : Nat) : page'.rowPtrAddr i = page.rowPtrAddr i := by
  rw [UPage.rowPtrAddr, UPage.rowPtrAddr, rowPtrOffset_congr h]

/-- What a successful `CalculateLowerUpperPointers` did. -/
structure Placed (item : List UInt8) (off : Nat) (needshuffle : Bool) (page page' : UPage) : Prop where
  off_le : off ≤ page.maxOffsetNumber + 1
  length_pos : 0 < item.length
  length_lt : item.length < 2 ^ 15
  tdCount : page'.tdCount = page.tdCount
  pdLower : page'.pdLower =
    if off = page.maxOffsetNumber + 1 ∨ needshuffle then page.pdLower + sizeOfRowPtr else page.pdLower
  pdUpper : page'.pdUpper + shortAlign item.length = page.pdUpper
  pdLower_le : page'.pdLower ≤ page'.pdUpper
  mem : page'.mem = Mem.write ((rowPtrsMoved needshuffle off page).setRowPtr off
    (normalRowPointer page'.pdUpper item.length)).mem page'.pdUpper item

lemma toInt_eq {n : Int} (h1 : -2147483648 ≤ n) (h2 : n < 2147483648) : toInt n = n :=
  Int.bmod_eq_of_le (by omega) (by omega)

/-- The item fits if the `int`s say so. -/
lemma upper_eq {pdUpper lower : Nat} (hupper : pdUpper ≤ blcksz) (hlen : item.length ≤ securecMemMaxLen)
    (h : (lower : Int) ≤ toInt (pdUpper - toInt (shortAlign item.length))) :
    toInt (pdUpper - toInt (shortAlign item.length)) = ((pdUpper - shortAlign item.length : Nat) : Int) ∧
      shortAlign item.length ≤ pdUpper := by
  simp only [blcksz, securecMemMaxLen] at hupper hlen
  have hle : shortAlign item.length ≤ 2147483648 := by
    simp only [shortAlign]
    omega
  generalize shortAlign item.length = aligned at *
  by_cases hlt : aligned < 2147483648
  · have hal : toInt aligned = aligned := toInt_eq (by omega) (by omega)
    have hsub : toInt (pdUpper - aligned) = pdUpper - aligned := toInt_eq (by omega) (by omega)
    rw [hal, hsub] at h ⊢
    omega
  · -- the size wraps to the least int, and so does the difference
    have hmax : aligned = 2147483648 := by omega
    subst hmax
    have hal : toInt (2147483648 : Nat) = -2147483648 := rfl
    have hwrap : toInt (pdUpper - -2147483648) = toInt (pdUpper - 2147483648) := by
      have hadd : (pdUpper - -2147483648 : Int) = pdUpper - 2147483648 + (2 ^ 32 : Nat) := by omega
      rw [toInt, toInt, hadd]
      exact Int.add_bmod_right _ _
    have hsub : toInt (pdUpper - 2147483648) = pdUpper - 2147483648 := toInt_eq (by omega) (by omega)
    rw [hal, hwrap, hsub] at h
    omega

lemma calculateLowerUpperPointers_placed (hupper : page.pdUpper ≤ blcksz)
    (h : calculateLowerUpperPointers page off item needshuffle = some page') :
    Placed item off needshuffle page page' := by
  simp only [calculateLowerUpperPointers, Option.ite_none_left_eq_some, Option.some.injEq] at h
  obtain ⟨hlimit, hroom, hlen, rfl⟩ := h
  push Not at hlimit hroom hlen
  obtain ⟨hfit, hle⟩ := upper_eq hupper hlen.2 hroom
  have hge : item.length ≤ shortAlign item.length := shortAlign_ge (by simp only [securecMemMaxLen] at hlen; omega)
  generalize toInt (page.pdUpper - toInt (shortAlign item.length)) = upper at *
  subst hfit
  refine
    { off_le := hlimit
      length_pos := Nat.pos_of_ne_zero hlen.1
      length_lt := by
        simp only [blcksz] at hupper
        omega
      tdCount := ?_
      pdLower := rfl
      pdUpper := ?_
      pdLower_le := ?_
      mem := rfl }
  · cases needshuffle <;> rfl
  · dsimp only
    rw [Int.toNat_natCast]
    omega
  · dsimp only
    rw [Int.toNat_natCast]
    exact_mod_cast hroom

namespace Placed

variable (h : Placed item off needshuffle page page') (hb : page.rowPtrOffset ≤ page.pdLower) (h1 : 1 ≤ off)
include h

lemma pdUpper_le : page'.pdUpper + item.length ≤ page.pdUpper := by
  have hge : item.length ≤ shortAlign item.length := shortAlign_ge (by have := h.length_lt; omega)
  have hupper := h.pdUpper
  omega

lemma rowPtrAddr (i : Nat) : page'.rowPtrAddr i = page.rowPtrAddr i := rowPtrAddr_congr h.tdCount i

lemma pdLower_ge : page.pdLower ≤ page'.pdLower := by
  rw [h.pdLower]
  split <;> omega

/-- All row pointers of the new page lie before its tuples. -/
lemma rowPtrAddr_le {i : Nat} (hi : 1 ≤ i) (hmax : i ≤ page'.maxOffsetNumber) :
    page.rowPtrAddr i + sizeOfRowPtr ≤ page'.pdUpper := by
  have hrow : page'.IsRow i := ⟨hi, hmax⟩
  have hle := hrow.rowPtrAddr_le
  rw [h.rowPtrAddr] at hle
  exact hle.trans h.pdLower_le

/-- The row pointers are those of the page on which they made room. -/
lemma rowPtr_eq {i : Nat} (hi : page'.IsRow i) : page'.rowPtr i =
    ((rowPtrsMoved needshuffle off page).setRowPtr off (normalRowPointer page'.pdUpper item.length)).rowPtr i := by
  have hptr := h.rowPtrAddr_le hi.1 hi.2
  apply UPage.rowPtr_eq_of_mem
  intro k hk
  have haddr : page.rowPtrAddr i = ((rowPtrsMoved needshuffle off page).setRowPtr off
      (normalRowPointer page'.pdUpper item.length)).rowPtrAddr i :=
    (rowPtrAddr_congr (rowPtrsMoved_tdCount needshuffle off page) i).symm
  rw [h.rowPtrAddr, ← haddr, h.mem]
  exact Mem.write_out (.inl (by omega))

include hb

lemma maxOffsetNumber : page'.maxOffsetNumber =
    if off = page.maxOffsetNumber + 1 ∨ needshuffle then page.maxOffsetNumber + 1 else page.maxOffsetNumber := by
  have hoffset := rowPtrOffset_congr h.tdCount
  have hlower := h.pdLower
  have hb' : page'.rowPtrOffset ≤ page'.pdLower := hoffset.trans_le (hb.trans h.pdLower_ge)
  rw [UPage.maxOffsetNumber_eq hb', hoffset, hlower]
  split
  · rw [UPage.maxOffsetNumber_eq hb]
    simp only [sizeOfRowPtr]
    omega
  · exact (UPage.maxOffsetNumber_eq hb).symm

include h1

lemma off_isRow : page'.IsRow off := by
  refine ⟨h1, ?_⟩
  have hoff := h.off_le
  rw [h.maxOffsetNumber hb]
  split
  case isTrue => exact hoff
  case isFalse hn => omega

/-- The bytes of the other tuples stay. -/
lemma mem_ge {a : Nat} (ha : page.pdUpper ≤ a) : page'.mem a = page.mem a := by
  have hupper := h.pdUpper_le
  have hptr := h.rowPtrAddr_le h1 (h.off_isRow hb h1).2
  have hlower := h.pdLower_le
  rw [h.mem, Mem.write_out (.inr (by omega)), UPage.setRowPtr_mem]
  · rw [rowPtrsMoved]
    split
    case isTrue hshuffle =>
      have hlow := h.pdLower
      rw [if_pos (.inr hshuffle)] at hlow
      exact shuffleRowPtrs_mem hb h1 (.inr (by omega))
    case isFalse => rfl
  · refine .inr ?_
    rw [rowPtrAddr_congr (rowPtrsMoved_tdCount needshuffle off page)]
    omega

lemma rowPtr_off (hupper : page.pdUpper ≤ blcksz) : page'.rowPtr off = ⟨page'.pdUpper, .normal, item.length⟩ := by
  have hlt : page'.pdUpper < 2 ^ 15 := by
    have hle := h.pdUpper_le
    simp only [blcksz] at hupper
    omega
  have hrp : normalRowPointer page'.pdUpper item.length = ⟨page'.pdUpper, .normal, item.length⟩ := by
    rw [normalRowPointer, Nat.mod_eq_of_lt hlt, Nat.mod_eq_of_lt h.length_lt]
  rw [h.rowPtr_eq (h.off_isRow hb h1), hrp]
  exact UPage.rowPtr_setRowPtr ⟨hlt, h.length_lt⟩

/-- The other row pointers go where they are sent. -/
lemma rowPtr_shifted {i : Nat} (hi : page.IsRow i) (hne : i = off → needshuffle = true) :
    page'.IsRow (shifted needshuffle off i) ∧ shifted needshuffle off i ≠ off ∧
      page'.rowPtr (shifted needshuffle off i) = page.rowPtr i := by
  have hmax := h.maxOffsetNumber hb
  have hrow : page'.IsRow (shifted needshuffle off i) := by
    obtain ⟨hi1, hi2⟩ := hi
    rw [UPage.IsRow, hmax, shifted]
    cases needshuffle <;> simp only [or_true, if_true, Bool.false_eq_true, or_false, false_and, true_and, if_false] <;>
      split <;> omega
  have hother : shifted needshuffle off i ≠ off := by
    rw [shifted]
    cases needshuffle with
    | true => simp only [true_and]; split <;> omega
    | false =>
      have hni : i ≠ off := fun he => Bool.false_ne_true (hne he)
      simpa using hni
  refine ⟨hrow, hother, ?_⟩
  rw [h.rowPtr_eq hrow, UPage.rowPtr_setRowPtr_ne h1 hrow.1 hother, shifted, rowPtrsMoved]
  cases needshuffle with
  | true =>
    simp only [if_true, true_and]
    split
    case isTrue hle => exact shuffleRowPtrs_rowPtr h1 hle hi.2
    case isFalse hlt => exact shuffleRowPtrs_rowPtr_lt hb h1 hi.1 (Nat.lt_of_not_le hlt)
  | false => simp

/-- No other row pointers are there. -/
lemma isRow_shifted {i' : Nat} (hi' : page'.IsRow i') (hne : i' ≠ off)
    (hshuffle : needshuffle = true → off ≤ page.maxOffsetNumber) :
    ∃ i, page.IsRow i ∧ i' = shifted needshuffle off i ∧ (i = off → needshuffle = true) := by
  obtain ⟨hi1, hi2⟩ := hi'
  have hoff := h.off_le
  rw [h.maxOffsetNumber hb] at hi2
  cases needshuffle with
  | true =>
    have hle := hshuffle rfl
    simp only [or_true, if_true] at hi2
    by_cases hlt : i' < off
    · refine ⟨i', ⟨hi1, by omega⟩, ?_, fun _ => rfl⟩
      simp only [shifted, true_and, if_neg (Nat.not_le.mpr hlt)]
    · refine ⟨i' - 1, ⟨by omega, by omega⟩, ?_, fun _ => rfl⟩
      simp only [shifted, true_and, if_pos (show off ≤ i' - 1 by omega)]
      omega
  | false =>
    refine ⟨i', ⟨hi1, ?_⟩, by simp [shifted], fun he => absurd he hne⟩
    simp only [Bool.false_eq_true, or_false] at hi2
    split at hi2 <;> omega

/-- The new row is on the page, and the others are as they were. -/
lemma itemAdded (hupper : page.pdUpper ≤ blcksz) (hrows : ∀ i, page.Stored i → page.pdUpper ≤ (page.rowPtr i).offset)
    (hfree : needshuffle = false → ¬ page.Stored off) (hshuffle : needshuffle = true → off ≤ page.maxOffsetNumber) :
    ItemAdded item off needshuffle page page' := by
  have hoff := h.rowPtr_off hb h1 hupper
  have hother : ∀ i, page.Stored i → i = off → needshuffle = true := fun i hi he => by
    cases hn : needshuffle with
    | true => rfl
    | false => exact absurd (he ▸ hi) (hfree hn)
  refine
    { stored := ⟨h.off_isRow hb h1, by simp [hoff], by simp [hoff, h.length_pos]⟩
      len := by rw [hoff]
      bytes := ?_
      others := fun i hi => ?_
      only := fun i' hi' => ?_ }
  · rw [UPage.tupleBytes, hoff, h.mem]
    exact Mem.read_write _ _ _
  · obtain ⟨hrow, hne, hrp⟩ := h.rowPtr_shifted hb h1 hi.1 (hother i hi)
    refine ⟨⟨hrow, by rw [hrp]; exact hi.2.1, by rw [hrp]; exact hi.2.2⟩, hne, hrp, ?_⟩
    rw [UPage.tupleBytes, hrp]
    exact Mem.read_congr fun k _ => h.mem_ge hb h1 (Nat.le_add_right_of_le (hrows i hi))
  · by_cases hne : i' = off
    · exact .inl hne
    · obtain ⟨i, hi, rfl, hmoved⟩ := h.isRow_shifted hb h1 hi'.1 hne hshuffle
      have hrp := (h.rowPtr_shifted hb h1 hi hmoved).2.2
      refine .inr ⟨i, ⟨hi, ?_, ?_⟩, rfl⟩
      · rw [← hrp]
        exact hi'.2.1
      · rw [← hrp]
        exact hi'.2.2

end Placed

section

variable {page : HeapPage} (h : Placed item off needshuffle page.toUPage page')
include h

/-- The new row lies right below the others. -/
lemma Placed.rowsApart (hadded : ItemAdded item off needshuffle page.toUPage page') (hb : page.Bounds)
    (hr : page.RowsApart noRoom) (h1 : 1 ≤ off) : HeapPage.RowsApart { page with toUPage := page' } noRoom := by
  have hspecial := hb.pdUpper_le
  have hupper : page.pdUpper ≤ blcksz := hb.pdSpecial_eq ▸ hspecial
  have hlen := h.pdUpper
  have hend : page'.rowEnd noRoom off = page.pdUpper := by
    rw [UPage.rowEnd, h.rowPtr_off hb.rowPtrOffset_le h1 hupper]
    exact hlen
  have hbelow : page'.pdUpper ≤ page.pdUpper := by omega
  have hoff : (page'.rowPtr off).offset = page'.pdUpper := by rw [h.rowPtr_off hb.rowPtrOffset_le h1 hupper]
  have hold : ∀ i, page.Stored i → page.pdUpper ≤ (page'.rowPtr (shifted needshuffle off i)).offset ∧
      page'.rowEnd noRoom (shifted needshuffle off i) = page.rowEnd noRoom i := fun i hi => by
    have hrp := (hadded.others i hi).2.2.1
    rw [UPage.rowEnd, UPage.rowEnd, hrp]
    exact ⟨hr.pdUpper_le i hi, rfl⟩
  refine ⟨fun i' hi' => ?_, fun i' hi' => ?_, fun i' j' hi' hj' hne => ?_⟩
  · obtain rfl | ⟨i, hi, rfl⟩ := hadded.only i' hi'
    · exact hoff.ge
    · exact hbelow.trans (hold i hi).1
  · obtain rfl | ⟨i, hi, rfl⟩ := hadded.only i' hi'
    · exact hend.trans_le hspecial
    · exact (hold i hi).2.trans_le (hr.le_pdSpecial i hi)
  · obtain rfl | ⟨i, hi, rfl⟩ := hadded.only i' hi'
    · obtain rfl | ⟨j, hj, rfl⟩ := hadded.only j' hj'
      · exact absurd rfl hne
      · exact .inl (hend.trans_le (hold j hj).1)
    · obtain rfl | ⟨j, hj, rfl⟩ := hadded.only j' hj'
      · exact .inr (hend.trans_le (hold i hi).1)
      · have hij : i ≠ j := fun he => hne (he ▸ rfl)
        change page'.rowEnd noRoom _ ≤ (page'.rowPtr _).offset ∨ page'.rowEnd noRoom _ ≤ (page'.rowPtr _).offset
        rw [(hold i hi).2, (hold j hj).2, (hadded.others i hi).2.2.1, (hadded.others j hj).2.2.1]
        exact hr.apart i j hi hj hij

lemma Placed.even (hadded : ItemAdded item off needshuffle page.toUPage page') (hb : page.Bounds)
    (he : page.Even) (h1 : 1 ≤ off) : HeapPage.Even { page with toUPage := page' } := by
  have hupper : page.pdUpper ≤ blcksz := hb.pdSpecial_eq ▸ hb.pdUpper_le
  have heven : 2 ∣ page'.pdUpper := by
    refine (Nat.dvd_add_left (shortAlign_even item.length)).mp ?_
    rw [h.pdUpper]
    exact he.pdUpper
  refine ⟨heven, fun i' hi' => ?_⟩
  obtain rfl | ⟨i, hi, rfl⟩ := hadded.only i' hi'
  · change 2 ∣ (page'.rowPtr i').offset
    rw [h.rowPtr_off hb.rowPtrOffset_le h1 hupper]
    exact heven
  · change 2 ∣ (page'.rowPtr _).offset
    rw [(hadded.others i hi).2.2.1]
    exact he.offset i hi

lemma Placed.bounds (hb : page.Bounds) : HeapPage.Bounds { page with toUPage := page' } where
  rowPtrOffset_le := by
    exact (rowPtrOffset_congr h.tdCount).trans_le (hb.rowPtrOffset_le.trans h.pdLower_ge)
  pdLower_le := h.pdLower_le
  pdUpper_le := by
    have hupper := h.pdUpper_le
    have hspecial := hb.pdUpper_le
    change page'.pdUpper ≤ page.pdSpecial
    omega
  pdSpecial_eq := hb.pdSpecial_eq

end

/-! ## The place of the item -/

/-- Row pointers make room when a row pointer in use is passed, but not to be overwritten. -/
def insertsRow (page : UPage) (off : Nat) (overwrite : Bool) : Bool :=
  decide (offsetNumberIsValid off ∧ overwrite = false ∧ off ≤ page.maxOffsetNumber)

/-- An offset at which no row is. -/
structure FreeOffset (page : UPage) (off : Nat) (inserted : Bool) : Prop where
  pos : 1 ≤ off
  not_stored : inserted = false → ¬ page.Stored off
  le_max : inserted = true → off ≤ page.maxOffsetNumber

lemma findNextFreeSlot_free (page : UPage) : FreeOffset page (findNextFreeSlot page).1 false ∧
    ∃ b, (findNextFreeSlot page).2 = { page with hasFreeLines := b } := by
  have hlimit : FreeOffset page (page.maxOffsetNumber + 1) false :=
    ⟨Nat.le_add_left _ _, fun _ hs => Nat.not_succ_le_self _ hs.1.2, fun h => absurd h Bool.false_ne_true⟩
  rw [findNextFreeSlot]
  split
  · dsimp only
    split
    case h_1 off hfind =>
      have hmem := List.mem_range'_1.mp (List.mem_of_find?_eq_some hfind)
      have hunused := List.find?_some hfind
      simp only [decide_eq_true_eq] at hunused
      exact ⟨⟨hmem.1, fun _ hs => hs.2.1 hunused.1, fun h => absurd h Bool.false_ne_true⟩, _, rfl⟩
    case h_2 => exact ⟨hlimit, _, rfl⟩
  · exact ⟨hlimit, _, rfl⟩

variable {inRecovery overwrite : Bool}

/-- An offset that is passed in. -/
lemma checkOffsetValidity_free {page : UPage} (hvalid : offsetNumberIsValid off)
    (h : checkOffsetValidity inRecovery page off overwrite = some needshuffle) :
    needshuffle = insertsRow page off overwrite ∧ FreeOffset page off needshuffle := by
  have hpos : 1 ≤ off := Nat.one_le_iff_ne_zero.mpr hvalid.1
  cases overwrite with
  | true =>
    have hfree : needshuffle = false ∧ ¬ page.Stored off := by
      simp only [checkOffsetValidity, if_true] at h
      split at h
      · split at h
        · obtain ⟨hlen, hs⟩ := Option.ite_none_left_eq_some.mp h
          exact ⟨(Option.some.inj hs).symm, fun hst => hlen hst.2.2⟩
        · obtain ⟨hused, hs⟩ := Option.ite_none_left_eq_some.mp h
          exact ⟨(Option.some.inj hs).symm, fun hst => hused (.inr hst.2.2)⟩
      · cases h
        exact ⟨rfl, fun hst => absurd (Nat.lt_succ_of_le hst.1.2) ‹_›⟩
    obtain ⟨rfl, hstored⟩ := hfree
    exact ⟨by simp [insertsRow], hpos, fun _ => hstored, fun he => absurd he Bool.false_ne_true⟩
  | false =>
    simp only [checkOffsetValidity, Bool.false_eq_true, if_false, Option.some.injEq] at h
    subst h
    refine ⟨by simp [insertsRow, hvalid], hpos, fun hn hst => ?_, fun hlt => ?_⟩
    · exact of_decide_eq_false hn (Nat.lt_succ_of_le hst.1.2)
    · exact Nat.le_of_lt_succ (of_decide_eq_true hlt)

lemma chooseOffset_free {page : UPage}
    (h : chooseOffset inRecovery page off overwrite = some (off', needshuffle, upage)) :
    needshuffle = insertsRow page off overwrite ∧ FreeOffset page off' needshuffle ∧
      ∃ b, upage = { page with hasFreeLines := b } := by
  rw [chooseOffset] at h
  split at h
  case isTrue hvalid =>
    split at h
    · cases h
    rename_i hcheck
    cases h
    obtain ⟨hinserts, hfree⟩ := checkOffsetValidity_free hvalid hcheck
    exact ⟨hinserts, hfree, _, rfl⟩
  case isFalse hvalid =>
    cases h
    obtain ⟨hfree, hpage⟩ := findNextFreeSlot_free page
    exact ⟨by simp [insertsRow, hvalid], hfree, hpage⟩

/-- Where a successful `UPageAddItem` puts the item. -/
lemma uPageAddItem_cases {initTd : Nat} {page page' : HeapPage}
    (h : uPageAddItem inRecovery initTd page item off overwrite = some (off', page')) :
    FreeOffset page.toUPage off' (insertsRow page.toUPage off overwrite) ∧
      ∃ b upage, calculateLowerUpperPointers { page.toUPage with hasFreeLines := b } off' item
        (insertsRow page.toUPage off overwrite) = some upage ∧ page' = { page with toUPage := upage } := by
  rw [uPageAddItem] at h
  obtain ⟨-, h⟩ := Option.ite_none_left_eq_some.mp h
  split at h
  · cases h
  rename_i hchoose
  obtain ⟨-, h⟩ := Option.ite_none_left_eq_some.mp h
  split at h
  · cases h
  rename_i hcalc
  cases h
  obtain ⟨rfl, hfree, b, rfl⟩ := chooseOffset_free hchoose
  exact ⟨hfree, b, _, hcalc, rfl⟩

/-- A successful `UPageAddItem` puts the item beside the other rows and keeps the layout. -/
lemma uPageAddItem_laidOut {initTd : Nat} {page page' : HeapPage} {level : VerifyLevel} {nextXid : Nat}
    (hpage : page.LaidOut level nextXid noRoom)
    (h : uPageAddItem inRecovery initTd page item off overwrite = some (off', page')) :
    page'.LaidOut level nextXid noRoom ∧ (page.Even → page'.Even) ∧
      ItemAdded item off' (insertsRow page.toUPage off overwrite) page.toUPage page'.toUPage := by
  obtain ⟨hfree, b, upage, hcalc, rfl⟩ := uPageAddItem_cases h
  have hb := hpage.bounds
  have hupper : page.pdUpper ≤ blcksz := hb.pdSpecial_eq ▸ hb.pdUpper_le
  obtain ⟨-, -, hpos, hle, -⟩ := verifyUPageHeader_eq_nil.mp hpage.header
  -- the hint about free row pointers does not matter to the layout
  let page₀ : HeapPage := { page with hasFreeLines := b }
  have hb₀ : page₀.Bounds := ⟨hb.rowPtrOffset_le, hb.pdLower_le, hb.pdUpper_le, hb.pdSpecial_eq⟩
  have hr₀ : page₀.RowsApart noRoom := ⟨hpage.pdUpper_le, hpage.le_pdSpecial, hpage.apart⟩
  have hsame : page.SameFields { page with toUPage := upage } := ⟨rfl, rfl, rfl, rfl⟩
  have hplaced : Placed item off' (insertsRow page.toUPage off overwrite) page₀.toUPage upage :=
    calculateLowerUpperPointers_placed hupper hcalc
  have hadded := hplaced.itemAdded hb.rowPtrOffset_le hfree.pos hupper hpage.pdUpper_le hfree.not_stored hfree.le_max
  refine ⟨⟨hplaced.rowsApart hadded hb₀ hr₀ hfree.pos, ?_⟩, fun he => ?_, ?_⟩
  · apply hsame.header hpage.header (hplaced.bounds hb₀)
    · exact hpos.trans_eq hplaced.tdCount.symm
    · exact hplaced.tdCount.trans_le hle
  · exact hplaced.even hadded hb₀ ⟨he.pdUpper, he.offset⟩ hfree.pos
  · exact ⟨hadded.stored, hadded.len, hadded.bytes, hadded.others, hadded.only⟩

/-! ## New slots -/

/-- The rows of a page are where they were. -/
structure RowsStay (page page' : UPage) : Prop where
  stored : ∀ off, page'.Stored off ↔ page.Stored off
  rowPtr : ∀ off, page.IsRow off → page'.rowPtr off = page.rowPtr off
  bytes : ∀ off, page.Stored off → page'.tupleBytes off = page.tupleBytes off

lemma RowsStay.rowEnd (h : RowsStay page page') (room : Nat → Nat) {off : Nat} (ho : page.Stored off) :
    page'.rowEnd room off = page.rowEnd room off := by
  rw [UPage.rowEnd, UPage.rowEnd, h.rowPtr off ho.1]

lemma RowsStay.rowsApart {page : HeapPage} (h : RowsStay page.toUPage page') (hupper : page'.pdUpper = page.pdUpper)
    {room : Nat → Nat} (hr : page.RowsApart room) : HeapPage.RowsApart { page with toUPage := page' } room where
  pdUpper_le off ho := by
    have hst := (h.stored off).mp ho
    dsimp only
    rw [hupper, h.rowPtr off hst.1]
    exact hr.pdUpper_le off hst
  le_pdSpecial off ho := by
    have hst := (h.stored off).mp ho
    dsimp only
    rw [h.rowEnd room hst]
    exact hr.le_pdSpecial off hst
  apart off off' ho ho' hne := by
    have hst := (h.stored off).mp ho
    have hst' := (h.stored off').mp ho'
    dsimp only
    rw [h.rowEnd room hst, h.rowEnd room hst', h.rowPtr off hst.1, h.rowPtr off' hst'.1]
    exact hr.apart off off' hst hst' hne

lemma moveRowPtrs_rowsStay {page : HeapPage} (hb : page.Bounds)
    (hrows : ∀ i, page.Stored i → page.pdUpper ≤ (page.rowPtr i).offset) {n : Nat}
    (hroom : n * sizeOfTD ≤ page.pdUpper - page.pdLower) :
    HeapPage.Bounds { page with toUPage := moveRowPtrs page.toUPage n } ∧
      RowsStay page.toUPage (moveRowPtrs page.toUPage n) := by
  have hstart := hb.rowPtrOffset_le
  have hlower := hb.pdLower_le
  have hoffset : (moveRowPtrs page.toUPage n).rowPtrOffset = page.rowPtrOffset + n * sizeOfTD := by
    rw [UPage.rowPtrOffset, UPage.rowPtrOffset, moveRowPtrs_tdCount, Nat.add_mul, Nat.add_assoc]
  have hpdLower := moveRowPtrs_pdLower page.toUPage n
  have hpdUpper := moveRowPtrs_pdUpper page.toUPage n
  have hmax : (moveRowPtrs page.toUPage n).maxOffsetNumber = page.maxOffsetNumber := by
    rw [UPage.maxOffsetNumber_eq hstart, UPage.maxOffsetNumber_eq (by omega), hoffset, hpdLower, Nat.add_sub_add_right]
  have hstored : ∀ off, (moveRowPtrs page.toUPage n).Stored off ↔ page.Stored off := fun off => by
    rw [UPage.Stored, UPage.Stored, UPage.IsRow, hmax]
    exact and_congr_right fun ho => by rw [moveRowPtrs_rowPtr ho]
  refine ⟨⟨?_, ?_, ?_, hb.pdSpecial_eq⟩, hstored, fun off ho => moveRowPtrs_rowPtr ho, fun off ho => ?_⟩
  · change (moveRowPtrs page.toUPage n).rowPtrOffset ≤ (moveRowPtrs page.toUPage n).pdLower
    omega
  · change (moveRowPtrs page.toUPage n).pdLower ≤ (moveRowPtrs page.toUPage n).pdUpper
    omega
  · exact hpdUpper.trans_le hb.pdUpper_le
  · have hge := hrows off ho
    rw [UPage.tupleBytes, moveRowPtrs_rowPtr ho.1]
    refine Mem.read_congr fun k _ => ?_
    rw [moveRowPtrs_mem_ge (by omega)]
    apply Mem.write_out
    rw [Mem.read_length]
    omega

/-- `UPageExtendTDSlots` keeps the layout. -/
lemma extendTDSlots_laidOut {page : HeapPage} {level : VerifyLevel} {nextXid : Nat}
    (hpage : page.LaidOut level nextXid noRoom) : page.extendTDSlots.2.LaidOut level nextXid noRoom ∧
      (page.Even → page.extendTDSlots.2.Even) ∧ RowsStay page.toUPage page.extendTDSlots.2.toUPage := by
  rw [HeapPage.extendTDSlots]
  dsimp only
  rw [uPageExtendTDSlots]
  split
  case isTrue => exact ⟨hpage, id, fun _ => .rfl, fun _ _ => rfl, fun _ _ => rfl⟩
  case isFalse =>
    have hle := numExtended_le page.toUPage
    obtain ⟨-, -, hpos, hcount, -⟩ := verifyUPageHeader_eq_nil.mp hpage.header
    rw [max_eq_right hcount] at hle
    obtain ⟨hb', hstay⟩ := moveRowPtrs_rowsStay hpage.bounds hpage.pdUpper_le (numExtended_room page.toUPage)
    have hupper := moveRowPtrs_pdUpper page.toUPage (numExtended page.toUPage)
    have htd := moveRowPtrs_tdCount page.toUPage (numExtended page.toUPage)
    have hsame : page.SameFields { page with toUPage := moveRowPtrs page.toUPage (numExtended page.toUPage) } :=
      ⟨rfl, rfl, rfl, rfl⟩
    refine ⟨⟨?_, ?_⟩, fun he => ⟨?_, fun off ho => ?_⟩, hstay⟩
    · exact hstay.rowsApart hupper hpage.toRowsApart
    · apply hsame.header hpage.header hb'
      · exact Nat.lt_of_lt_of_eq (Nat.add_pos_left hpos _) htd.symm
      · exact htd.trans_le hle
    · exact hupper ▸ he.pdUpper
    · have hst := (hstay.stored off).mp ho
      dsimp only
      rw [hstay.rowPtr off hst.1]
      exact he.offset off hst

end GaussKernel.UHeap
