import GaussKernel.UHeap.TransSlot

/-!
# The rows of a page

A page is looked at row by row (`Row`): the row pointer together with the tuple. `UPage.Valid` is the layout of a
page, and changes of some bytes of it (`UPage.poke`) are told apart by where they lie.
-/

namespace GaussKernel.UHeap

open Lib

/-! ## Rows -/

/-- A row pointer and, where it has one, its tuple. -/
structure Row where
  rp : RowPtr
  tuple : List UInt8
  deriving DecidableEq

namespace Row

variable (row : Row)

/-- The slot that a row names. -/
def slot : Option Nat :=
  match row.rp.flags with
  | .normal => some (row.tuple.getD offsetTdId 0).toNat
  | .redirect => some row.rp.getTDSlot
  | _ => none

def flag : UInt16 := .ofNat (ofLE ((row.tuple.drop 6).take 2))

/-- A row that every transaction sees, or none. -/
def Frozen : Prop := row.rp.flags = .dead ∨ row.slot = some uheaptupSlotFrozen

/-- The flag that sends readers of the row to the undo records of its slot. -/
def InvalidXact : Prop :=
  match row.rp.flags with
  | .normal => row.flag &&& uheapInvalidXactSlot ≠ 0
  | .redirect => row.rp.offset &&& rowptrXactInvalid ≠ 0
  | _ => False

def freeze : Row :=
  if row.rp.flags = .redirect then ⟨row.rp.setDead, []⟩ else { row with tuple := splice row.tuple offsetTdId [0] }

def invalidate : Row :=
  if row.rp.flags = .redirect then ⟨row.rp.setInvalidXact, []⟩
  else { row with tuple := splice row.tuple 6 (toLE 2 (row.flag ||| uheapInvalidXactSlot).toNat) }

/-- The row after its slot was cleared. -/
def clear (isFrozen : Bool) : Row := if isFrozen then row.freeze else row.invalidate

/-- A row that names one of the slots. -/
def Names (slots : List Nat) : Prop := ∃ i ∈ slots, row.slot = some (i + 1)

instance (slots : List Nat) : Decidable (row.Names slots) := inferInstanceAs (Decidable (∃ i ∈ slots, _))

end Row

/-- The flag leaves the transaction slot alone. -/
lemma RowPtr.getTDSlot_setInvalidXact (rp : RowPtr) : rp.setInvalidXact.getTDSlot = rp.getTDSlot := by
  have hflag : rowptrXactInvalid &&& xactSlot = 0 := by decide
  rw [RowPtr.getTDSlot, RowPtr.setInvalidXact, Nat.and_or_distrib_right, hflag, Nat.or_zero, Nat.and_assoc,
    Nat.and_self, RowPtr.getTDSlot]

/-- The flag is set afterwards. -/
lemma RowPtr.setInvalidXact_flagged (rp : RowPtr) : rp.setInvalidXact.offset &&& rowptrXactInvalid ≠ 0 := by
  have hslot : xactSlot &&& rowptrXactInvalid = 0 := by decide
  rw [RowPtr.setInvalidXact, Nat.and_or_distrib_right, Nat.and_assoc, hslot, Nat.and_zero, Nat.and_self]
  decide

lemma uint16_or_and_self (a m : UInt16) : (a ||| m) &&& m = m := by
  apply UInt16.toBitVec_inj.mp
  ext i
  simpa using Or.inr

/-- Only a normal or a redirected row has a transaction slot. -/
lemma Row.flags_of_slot {row : Row} {s : Nat} (h : row.slot = some s) :
    row.rp.flags = .normal ∨ row.rp.flags = .redirect := by
  cases hf : row.rp.flags with
  | normal => exact .inl rfl
  | redirect => exact .inr rfl
  | unused => simp [Row.slot, hf] at h
  | dead => simp [Row.slot, hf] at h

section

variable {row : Row} {s : Nat} (hs : row.slot = some s)
  (hlen : row.rp.flags = .normal → sizeOfUHeapDiskTupleData ≤ row.tuple.length)
include hs hlen

/-- A frozen row is a row that all see. -/
lemma Row.freeze_frozen : row.freeze.Frozen := by
  cases Row.flags_of_slot hs with
  | inl hf =>
    have h11 := hlen hf
    simp only [sizeOfUHeapDiskTupleData] at h11
    have hget : (splice row.tuple offsetTdId [0]).getD (offsetTdId + 0) 0 = [(0 : UInt8)].getD 0 0 :=
      splice_getD_in (by simp only [offsetTdId, List.length_singleton]; omega) (by simp)
    refine .inr ?_
    simp only [Row.freeze, hf, Row.slot, reduceCtorEq, if_false]
    exact congrArg (fun b => some b.toNat) hget
  | inr hf => exact .inl (by simp [Row.freeze, hf, RowPtr.setDead])

/-- An invalidated row keeps its transaction slot. -/
lemma Row.invalidate_slot : row.invalidate.slot = some s := by
  cases Row.flags_of_slot hs with
  | inl hf =>
    have h11 := hlen hf
    simp only [sizeOfUHeapDiskTupleData] at h11
    rw [← hs]
    simp only [Row.invalidate, hf, Row.slot, reduceCtorEq, if_false]
    rw [splice_getD_before (by omega) (by decide)]
  | inr hf =>
    have hflags : row.rp.setInvalidXact.flags = .redirect := hf
    rw [← hs]
    simp only [Row.invalidate, hf, Row.slot, if_true, hflags, RowPtr.getTDSlot_setInvalidXact]

/-- An invalidated row says so. -/
lemma Row.invalidate_invalidXact : row.invalidate.InvalidXact := by
  cases Row.flags_of_slot hs with
  | inl hf =>
    have h11 := hlen hf
    simp only [sizeOfUHeapDiskTupleData] at h11
    have hflag : row.invalidate.flag = row.flag ||| uheapInvalidXactSlot := by
      have hget : ((row.invalidate.tuple.drop 6).take 2) = toLE 2 (row.flag ||| uheapInvalidXactSlot).toNat := by
        simp only [Row.invalidate, hf, reduceCtorEq, if_false]
        have hput := splice_drop_take (show 6 ≤ row.tuple.length by omega)
          (toLE 2 (row.flag ||| uheapInvalidXactSlot).toNat)
        rwa [toLE_length] at hput
      rw [Row.flag, hget, ofLE_toLE_of_lt (UInt16.toNat_lt _), UInt16.ofNat_toNat]
    have hrp : row.invalidate.rp.flags = .normal := by simp [Row.invalidate, hf]
    simp only [Row.InvalidXact, hrp, hflag]
    rw [uint16_or_and_self]
    decide
  | inr hf =>
    have hrp : row.invalidate.rp = row.rp.setInvalidXact := by simp [Row.invalidate, hf]
    have hflags : row.invalidate.rp.flags = .redirect := by rw [hrp]; exact hf
    simp only [Row.InvalidXact, hflags]
    rw [hrp]
    exact RowPtr.setInvalidXact_flagged _

end

/-- What may become of a row on a page that stays valid: its tuple stays where it is, and it names its slot or none. -/
def Row.Keeps (row row' : Row) : Prop :=
  (row'.rp.flags = .normal → row'.rp = row.rp) ∧ ∀ s, row'.slot = some s → s = 0 ∨ row.slot = some s

lemma Row.Keeps.refl (row : Row) : row.Keeps row := ⟨fun _ => rfl, fun _ h => .inr h⟩

/-- Clearing keeps what a row holds. -/
lemma Row.Keeps.clear {row : Row} {s : Nat} (hs : row.slot = some s)
    (hlen : row.rp.flags = .normal → sizeOfUHeapDiskTupleData ≤ row.tuple.length) (isFrozen : Bool) :
    row.Keeps (row.clear isFrozen) := by
  cases isFrozen with
  | true =>
    constructor
    · cases Row.flags_of_slot hs with
      | inl hf => simp [Row.clear, Row.freeze, hf]
      | inr hf => simp [Row.clear, Row.freeze, hf, RowPtr.setDead]
    · intro t ht
      cases Row.freeze_frozen hs hlen with
      | inl hdead =>
        have hflags := Row.flags_of_slot ht
        simp [Row.clear, hdead] at hflags
      | inr hzero => exact .inl (Option.some.inj (ht.symm.trans hzero))
  | false =>
    constructor
    · cases Row.flags_of_slot hs with
      | inl hf => simp [Row.clear, Row.invalidate, hf]
      | inr hf => simp [Row.clear, Row.invalidate, hf, RowPtr.setInvalidXact]
    · intro t ht
      exact .inr (hs.trans ((Row.invalidate_slot hs hlen).symm.trans ht))

/-! ## Valid pages -/

namespace UPage

variable (page : UPage)

def row (off : Nat) : Row where
  rp := page.rowPtr off
  tuple := if (page.rowPtr off).flags = .normal then page.mem.read (page.rowPtr off).offset (page.rowPtr off).len
    else []

/-- `off` is the number of a row. -/
def IsRow (off : Nat) : Prop := 1 ≤ off ∧ off ≤ page.maxOffsetNumber

/-- The layout of a page: slots, row pointers, free space and tuples follow each other, no two tuples overlap, and
every row names a slot of the array. -/
structure Valid : Prop where
  tdCount_pos : 0 < page.tdCount
  tdCount_le : page.tdCount ≤ uheapMaxTd
  rowPtrOffset_le : page.rowPtrOffset ≤ page.pdLower
  pdLower_le : page.pdLower ≤ page.pdUpper
  tuple_ge : ∀ off, page.IsRow off → (page.row off).rp.flags = .normal → page.pdUpper ≤ (page.row off).rp.offset
  len_ge : ∀ off, page.IsRow off → (page.row off).rp.flags = .normal →
    sizeOfUHeapDiskTupleData ≤ (page.row off).rp.len
  disjoint : ∀ off off', page.IsRow off → page.IsRow off' → off < off' →
    (page.row off).rp.flags = .normal → (page.row off').rp.flags = .normal →
      (page.row off).rp.offset + (page.row off).rp.len ≤ (page.row off').rp.offset ∨
        (page.row off').rp.offset + (page.row off').rp.len ≤ (page.row off).rp.offset
  slot_le : ∀ off, page.IsRow off → ∀ s, (page.row off).slot = some s → s ≤ page.tdCount

/-- The header of a page stays. -/
structure SameHeader (page' : UPage) : Prop where
  hasFreeLines : page'.hasFreeLines = page.hasFreeLines
  pdLower : page'.pdLower = page.pdLower
  pdUpper : page'.pdUpper = page.pdUpper
  tdCount : page'.tdCount = page.tdCount

variable {page} {page' page'' : UPage}

lemma SameHeader.refl (page : UPage) : page.SameHeader page := ⟨rfl, rfl, rfl, rfl⟩

lemma SameHeader.trans (h : page.SameHeader page') (h' : page'.SameHeader page'') : page.SameHeader page'' where
  hasFreeLines := h'.hasFreeLines.trans h.hasFreeLines
  pdLower := h'.pdLower.trans h.pdLower
  pdUpper := h'.pdUpper.trans h.pdUpper
  tdCount := h'.tdCount.trans h.tdCount

/-- The row pointers start at the same place. -/
lemma SameHeader.rowPtrOffset (h : page.SameHeader page') : page'.rowPtrOffset = page.rowPtrOffset := by
  rw [UPage.rowPtrOffset, UPage.rowPtrOffset, h.tdCount]

/-- The pages have as many rows. -/
lemma SameHeader.maxOffsetNumber (h : page.SameHeader page') : page'.maxOffsetNumber = page.maxOffsetNumber := by
  rw [UPage.maxOffsetNumber, UPage.maxOffsetNumber, h.pdLower, h.rowPtrOffset]

/-- The pages have the same rows. -/
lemma SameHeader.isRow (h : page.SameHeader page') {off : Nat} : page'.IsRow off ↔ page.IsRow off := by
  rw [IsRow, IsRow, h.maxOffsetNumber]

/-- A page stays valid when its rows are kept. -/
lemma Valid.of_keeps (v : page.Valid) (h : page.SameHeader page')
    (hrows : ∀ off, page.IsRow off → (page.row off).Keeps (page'.row off)) : page'.Valid where
  tdCount_pos := h.tdCount ▸ v.tdCount_pos
  tdCount_le := h.tdCount ▸ v.tdCount_le
  rowPtrOffset_le := by
    rw [h.rowPtrOffset, h.pdLower]
    exact v.rowPtrOffset_le
  pdLower_le := by
    rw [h.pdLower, h.pdUpper]
    exact v.pdLower_le
  tuple_ge off ho hn := by
    have hrp := (hrows off (h.isRow.mp ho)).1 hn
    rw [hrp] at hn ⊢
    rw [h.pdUpper]
    exact v.tuple_ge off (h.isRow.mp ho) hn
  len_ge off ho hn := by
    have hrp := (hrows off (h.isRow.mp ho)).1 hn
    rw [hrp] at hn ⊢
    exact v.len_ge off (h.isRow.mp ho) hn
  disjoint off off' ho ho' hlt hn hn' := by
    have hrp := (hrows off (h.isRow.mp ho)).1 hn
    have hrp' := (hrows off' (h.isRow.mp ho')).1 hn'
    rw [hrp] at hn ⊢
    rw [hrp'] at hn' ⊢
    exact v.disjoint off off' (h.isRow.mp ho) (h.isRow.mp ho') hlt hn hn'
  slot_le off ho s hs := by
    rw [h.tdCount]
    cases (hrows off (h.isRow.mp ho)).2 s hs with
    | inl hzero => exact hzero ▸ Nat.zero_le _
    | inr hslot => exact v.slot_le off (h.isRow.mp ho) s hslot

/-! ### Where things lie -/

/-- Two row pointers do not overlap. -/
lemma rowPtrAddr_disjoint {off off' : Nat} (ho : 1 ≤ off) (h : off < off') :
    page.rowPtrAddr off + sizeOfRowPtr ≤ page.rowPtrAddr off' := by
  simp only [rowPtrAddr, sizeOfRowPtr]
  omega

/-- Two transaction slots do not overlap. -/
lemma tdOffset_disjoint {i j : Nat} (h : i < j) : tdOffset i + sizeOfTD ≤ tdOffset j := by
  simp only [tdOffset, sizeOfTD]
  omega

/-- The transaction slots end before the row pointers. -/
lemma tdOffset_le {i : Nat} (h : i < page.tdCount) : tdOffset i + sizeOfTD ≤ page.rowPtrOffset := by
  simp only [tdOffset, rowPtrOffset, sizeOfTD]
  omega

/-- A row pointer is not before the first one. -/
lemma rowPtrAddr_ge (off : Nat) : page.rowPtrOffset ≤ page.rowPtrAddr off := Nat.le_add_right _ _

/-- The row pointers end at `pd_lower`. -/
lemma IsRow.rowPtrAddr_le {off : Nat} (h : page.IsRow off) : page.rowPtrAddr off + sizeOfRowPtr ≤ page.pdLower := by
  obtain ⟨h1, h2⟩ := h
  rw [UPage.maxOffsetNumber] at h2
  split at h2
  · omega
  · simp only [rowPtrAddr, sizeOfRowPtr] at h2 ⊢
    omega

/-- A tuple lies behind the row pointers. -/
lemma Valid.rowPtrAddr_le_tuple (v : page.Valid) {off off' : Nat} (h : page.IsRow off) (h' : page.IsRow off')
    (hn : (page.row off').rp.flags = .normal) :
    page.rowPtrAddr off + sizeOfRowPtr ≤ (page.row off').rp.offset := by
  have haddr := h.rowPtrAddr_le
  have hlower := v.pdLower_le
  have htuple := v.tuple_ge off' h' hn
  omega

/-- The tuple of a normal row has a header. -/
lemma Valid.tuple_length (v : page.Valid) {off : Nat} (h : page.IsRow off) (hn : (page.row off).rp.flags = .normal) :
    sizeOfUHeapDiskTupleData ≤ (page.row off).tuple.length := by
  have hflags : (page.rowPtr off).flags = .normal := hn
  have htuple : (page.row off).tuple.length = (page.row off).rp.len := by simp [row, hflags]
  rw [htuple]
  exact v.len_ge off h hn

/-! ### Changes of some bytes -/

/-- The page with `bs` copied to `a`. -/
def poke (page : UPage) (a : Nat) (bs : List UInt8) : UPage := { page with mem := page.mem.write a bs }

variable {a off : Nat} {bs : List UInt8}

/-- A write to the memory keeps the header. -/
lemma poke_sameHeader (page : UPage) (a : Nat) (bs : List UInt8) : page.SameHeader (page.poke a bs) :=
  ⟨rfl, rfl, rfl, rfl⟩

/-- A write beside a transaction slot keeps it. -/
lemma td_poke {i : Nat} (h : tdOffset i + sizeOfTD ≤ a ∨ a + bs.length ≤ tdOffset i) :
    (page.poke a bs).td i = page.td i := by
  simp only [sizeOfTD] at h
  have hxid : (page.mem.write a bs).read (tdOffset i) 8 = page.mem.read (tdOffset i) 8 :=
    Mem.read_write_out (by omega)
  have hurp : (page.mem.write a bs).read (tdOffset i + 8) 8 = page.mem.read (tdOffset i + 8) 8 :=
    Mem.read_write_out (by omega)
  simp only [td, poke, hxid, hurp]

/-- A write beside a row pointer keeps it. -/
lemma rowPtr_poke (h : page.rowPtrAddr off + sizeOfRowPtr ≤ a ∨ a + bs.length ≤ page.rowPtrAddr off) :
    (page.poke a bs).rowPtr off = page.rowPtr off :=
  congrArg (fun bytes => RowPtr.ofWord (ofLE bytes)) (Mem.read_write_out h)

/-- A row is its row pointer and, if normal, its bytes. -/
lemma row_eq (hp : page'.rowPtr off = page.rowPtr off)
    (ht : (page.row off).rp.flags = .normal → page'.mem.read (page.row off).rp.offset (page.row off).rp.len =
      page.mem.read (page.row off).rp.offset (page.row off).rp.len) :
    page'.row off = page.row off := by
  rw [row, hp, row]
  congr 1
  split
  case isTrue hn => exact ht hn
  case isFalse => rfl

/-- A write beside a row pointer and its tuple keeps the row. -/
lemma row_poke (hp : page.rowPtrAddr off + sizeOfRowPtr ≤ a ∨ a + bs.length ≤ page.rowPtrAddr off)
    (ht : (page.row off).rp.flags = .normal → (page.row off).rp.offset + (page.row off).rp.len ≤ a ∨
      a + bs.length ≤ (page.row off).rp.offset) : (page.poke a bs).row off = page.row off :=
  row_eq (rowPtr_poke hp) fun hn => Mem.read_write_out (ht hn)

end UPage

/-- The flags of a row pointer are read back. -/
lemma RpFlags.ofBits_toBits (f : RpFlags) : RpFlags.ofBits f.toBits = f := by cases f <;> rfl

lemma RpFlags.toBits_lt (f : RpFlags) : f.toBits < 4 := by cases f <;> decide

/-- The fields of a row pointer fit into their bits. -/
def RowPtr.Fits (rp : RowPtr) : Prop := rp.offset < 2 ^ 15 ∧ rp.len < 2 ^ 15

variable {rp : RowPtr}

/-- The word of a row pointer has four bytes. -/
lemma RowPtr.toWord_lt (h : rp.Fits) : rp.toWord < 256 ^ sizeOfRowPtr := by
  have hflags := rp.flags.toBits_lt
  obtain ⟨ho, hl⟩ := h
  simp only [RowPtr.toWord, sizeOfRowPtr]
  omega

/-- A row pointer is read back from its word. -/
lemma RowPtr.ofWord_toWord (h : rp.Fits) : RowPtr.ofWord rp.toWord = rp := by
  have hflags := rp.flags.toBits_lt
  obtain ⟨ho, hl⟩ := h
  have hoffset : rp.toWord % 2 ^ 15 = rp.offset := by simp only [RowPtr.toWord]; omega
  have hbits : rp.toWord / 2 ^ 15 % 4 = rp.flags.toBits := by simp only [RowPtr.toWord]; omega
  have hlen : rp.toWord / 2 ^ 17 = rp.len := by simp only [RowPtr.toWord]; omega
  rw [RowPtr.ofWord, hoffset, hbits, hlen, RpFlags.ofBits_toBits]

/-- The flag stays inside the offset field. -/
lemma RowPtr.setInvalidXact_fits (h : rp.Fits) : rp.setInvalidXact.Fits :=
  ⟨Nat.or_lt_two_pow (Nat.and_lt_two_pow _ (by decide)) (by decide), h.2⟩

namespace UPage

variable {page : UPage} {off s : Nat}

/-- A row pointer that was read fits its fields. -/
lemma rowPtr_fits (page : UPage) (off : Nat) : (page.rowPtr off).Fits := by
  have hword := ofLE_lt (page.mem.read (page.rowPtrAddr off) sizeOfRowPtr)
  rw [Mem.read_length] at hword
  constructor <;> simp only [rowPtr, RowPtr.ofWord, sizeOfRowPtr] at hword ⊢ <;> omega

/-- A row that is no longer normal has no tuple. -/
lemma setRowPtr_row {rp : RowPtr} (h : rp.Fits) (hn : rp.flags ≠ .normal) :
    (page.setRowPtr off rp).row off = ⟨rp, []⟩ := by
  have hrp : (page.setRowPtr off rp).rowPtr off = rp := by
    have hread := Mem.read_write page.mem (page.rowPtrAddr off) (toLE sizeOfRowPtr rp.toWord)
    rw [toLE_length] at hread
    have hword : (page.setRowPtr off rp).rowPtr off = RowPtr.ofWord (ofLE (toLE sizeOfRowPtr rp.toWord)) :=
      congrArg (fun bytes => RowPtr.ofWord (ofLE bytes)) hread
    rw [hword, ofLE_toLE_of_lt (RowPtr.toWord_lt h), RowPtr.ofWord_toWord h]
  rw [row, hrp, if_neg hn]

/-- A change inside the tuple of a row. -/
lemma Valid.poke_row (v : page.Valid) (ho : page.IsRow off) (hn : (page.row off).rp.flags = .normal) {i : Nat}
    {bs : List UInt8} (hi : i + bs.length ≤ (page.row off).rp.len) :
    (page.poke ((page.rowPtr off).offset + i) bs).row off =
      { page.row off with tuple := splice (page.row off).tuple i bs } := by
  have hbefore := v.rowPtrAddr_le_tuple ho ho hn
  have hrp : (page.poke ((page.rowPtr off).offset + i) bs).rowPtr off = page.rowPtr off :=
    rowPtr_poke (.inl (Nat.le_add_right_of_le hbefore))
  have hflags : (page.rowPtr off).flags = .normal := hn
  simp only [row, hrp, hflags, if_true]
  congr 1
  exact Mem.read_write_within page.mem hi

end UPage

end GaussKernel.UHeap
