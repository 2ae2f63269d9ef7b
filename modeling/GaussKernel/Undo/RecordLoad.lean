import GaussKernel.Undo.Record

/-!
# Undo record round trip

The writer and the reader of `Record.lean` agree at every split point. `encode u` is the byte string of a
record; a pass of the writer lays out the part of it that fits (`append_page`), and a pass of the reader
started after `k` bytes leaves the record in a state that depends on `k` alone: `fill t u ps k`, the
record `u` with the first `k` bytes of the parts `ps` of `t` laid over it. The raw payload is not a fixed
part; `RawState` says how much of it has arrived.

`load_eq` is the result: loading from pages that hold the encoding of `t` gives `restored t`.
-/

namespace GaussKernel.Undo

open Lib

namespace UndoRecord

/-! ## Half-read records -/

/-- The selected parts of `ps`, joined. -/
def partBytes (t : UndoRecord) (ps : List Part) : List UInt8 :=
  ((ps.filter t.selected).map t.getPart).flatten

/-- `u` after the first `k` bytes of the selected parts of `t` have been read into it. -/
def fill (t u : UndoRecord) : List Part → Nat → UndoRecord
  | [], _ => u
  | p :: ps, k =>
    if t.selected p then
      fill t (u.setPart p (overlay (t.getPart p) (u.getPart p) k)) ps (k - p.size)
    else fill t u ps k

/-- `u` with all selected parts of `t`. -/
def copyParts (t u : UndoRecord) : List Part → UndoRecord
  | [] => u
  | p :: ps => if t.selected p then copyParts t (u.setPart p (t.getPart p)) ps else copyParts t u ps

@[simp]
lemma partBytes_nil (t : UndoRecord) : t.partBytes [] = [] := rfl

variable {p : Part} {ps : List Part} {pages : UndoPages}

/-- A selected part stands before the others. -/
lemma partBytes_cons {t : UndoRecord} (h : t.selected p = true) (ps : List Part) :
    t.partBytes (p :: ps) = t.getPart p ++ t.partBytes ps := by
  simp [partBytes, h]

/-- An unselected part takes no bytes. -/
lemma partBytes_cons_of_not {t : UndoRecord} (h : ¬ t.selected p = true) (ps : List Part) :
    t.partBytes (p :: ps) = t.partBytes ps := by
  simp [partBytes, h]

/-- Laying bytes over a part keeps its size. -/
@[simp]
lemma overlay_getPart_length (t u : UndoRecord) (p : Part) (k : Nat) :
    (overlay (t.getPart p) (u.getPart p) k).length = p.size := by
  rw [overlay_length (by simp), getPart_length]

/-- Before the first byte nothing has changed. -/
@[simp]
lemma fill_zero (t u : UndoRecord) (ps : List Part) : fill t u ps 0 = u := by
  induction ps generalizing u with
  | nil => rfl
  | cons p ps ih => simp [fill, ih]

/-- After the last byte all parts have been copied. -/
lemma fill_full {t : UndoRecord} {k : Nat} (h : (t.partBytes ps).length ≤ k) (u : UndoRecord) :
    fill t u ps k = copyParts t u ps := by
  induction ps generalizing u k with
  | nil => rfl
  | cons p ps ih =>
    by_cases hp : t.selected p = true
    · rw [partBytes_cons hp, List.length_append, getPart_length] at h
      rw [fill, copyParts, if_pos hp, if_pos hp, overlay_full (by simp) (by simp; omega)]
      exact ih (by omega) _
    · rw [partBytes_cons_of_not hp] at h
      rw [fill, copyParts, if_neg hp, if_neg hp]
      exact ih h u

/-- A part that is not read commutes with reading. -/
lemma fill_setPart (hp : p ∉ ps) (t u : UndoRecord) (bs : List UInt8) (k : Nat) :
    fill t (u.setPart p bs) ps k = (fill t u ps k).setPart p bs := by
  induction ps generalizing u k with
  | nil => rfl
  | cons q ps ih =>
    obtain ⟨hpq, hps⟩ : p ≠ q ∧ p ∉ ps := by simpa using hp
    by_cases hq : t.selected q = true
    · rw [fill, fill, if_pos hq, if_pos hq, getPart_setPart_ne hpq, setPart_comm hpq, ih hps]
    · rw [fill, fill, if_neg hq, if_neg hq, ih hps]

/-- A part that is not read keeps its bytes. -/
lemma getPart_fill (hp : p ∉ ps) (t u : UndoRecord) (k : Nat) : (fill t u ps k).getPart p = u.getPart p := by
  induction ps generalizing u k with
  | nil => rfl
  | cons q ps ih =>
    obtain ⟨hpq, hps⟩ : p ≠ q ∧ p ∉ ps := by simpa using hp
    by_cases hq : t.selected q = true
    · rw [fill, if_pos hq, ih hps, getPart_setPart_ne (Ne.symm hpq)]
    · rw [fill, if_neg hq, ih hps]

/-- Reading parts other than the header leaves the flags. -/
lemma selected_fill (hp : .whdr ∉ ps) (t u : UndoRecord) (k : Nat) (q : Part) :
    (fill t u ps k).selected q = u.selected q := by
  induction ps generalizing u k with
  | nil => rfl
  | cons r ps ih =>
    obtain ⟨hr, hps⟩ : Part.whdr ≠ r ∧ Part.whdr ∉ ps := by simpa using hp
    by_cases hq : t.selected r = true
    · rw [fill, if_pos hq, ih hps, selected_setPart (Ne.symm hr)]
    · rw [fill, if_neg hq, ih hps]

/-- The part about to be read is half-read, the later ones have not been touched. -/
lemma fill_cons {t u : UndoRecord} {k : Nat} (hsel : t.selected p = true) (hk : k < p.size) :
    fill t u (p :: ps) k = u.setPart p (overlay (t.getPart p) (u.getPart p) k) := by
  rw [fill, if_pos hsel, Nat.sub_eq_zero_of_le hk.le, fill_zero]

/-! ## One pass of the reader -/

/-- What a pass over the parts `ps` of `t` that starts at cursor `c` makes of the record. -/
structure PassSpec (t u : UndoRecord) (ps : List Part) (c : Cursor)
    (r : UndoRecord × Cursor × Bool) : Prop where
  /-- All bytes are on the page: the parts are complete and the cursor stands right after them. -/
  full : (t.partBytes ps).length - c.my ≤ blcksz - c.ptr →
    r = (copyParts t u ps, ⟨c.ptr + ((t.partBytes ps).length - c.my), c.my - (t.partBytes ps).length,
      c.already + ((t.partBytes ps).length - c.my)⟩, true)
  /-- The page ends first: the record has the bytes up to there. -/
  cut : blcksz - c.ptr < (t.partBytes ps).length - c.my →
    r.1 = fill t u ps (c.my + (blcksz - c.ptr)) ∧ r.2.1.already = c.already + (blcksz - c.ptr) ∧
      r.2.2 = false

/-- The page holds the bytes from `c.my` on, as far as it goes. -/
def OnPage (page : Mem) (bs : List UInt8) (c : Cursor) : Prop :=
  page.read c.ptr ((bs.drop c.my).take (blcksz - c.ptr)).length =
    (bs.drop c.my).take (blcksz - c.ptr)

/-- One selected part, and then the rest. -/
lemma readParts_cons {t u : UndoRecord} {page : Mem} {c : Cursor} (hp : p ∉ ps) (hsel : t.selected p = true)
    (hsel' : (fill t u (p :: ps) c.my).selected p = true) (hpage : OnPage page (t.partBytes (p :: ps)) c)
    (ih : ∀ c' : Cursor, OnPage page (t.partBytes ps) c' →
      PassSpec t (u.setPart p (t.getPart p)) ps c'
        (readParts page ps (fill t (u.setPart p (t.getPart p)) ps c'.my) c')) :
    PassSpec t u (p :: ps) c (readParts page (p :: ps) (fill t u (p :: ps) c.my) c) := by
  have hlen : (t.partBytes (p :: ps)).length = p.size + (t.partBytes ps).length := by
    rw [partBytes_cons hsel, List.length_append, getPart_length]
  rw [OnPage, partBytes_cons hsel, List.drop_append, getPart_length] at hpage
  have hget : (fill t u (p :: ps) c.my).getPart p = overlay (t.getPart p) (u.getPart p) c.my := by
    rw [fill, if_pos hsel, getPart_fill hp, getPart_setPart (by simp)]
  rw [readParts, if_pos hsel', hget]
  by_cases hskip : p.size ≤ c.my
  · -- read by an earlier pass
    have hover : overlay (t.getPart p) (u.getPart p) c.my = t.getPart p :=
      overlay_full (by simp) (by simpa using hskip)
    have hstate : (fill t u (p :: ps) c.my).setPart p (t.getPart p) =
        fill t (u.setPart p (t.getPart p)) ps (c.my - p.size) := by
      rw [fill, if_pos hsel, hover, ← fill_setPart hp, setPart_setPart]
    rw [hover, get_skip (by simpa using hskip)]
    simp only [getPart_length, if_true, hstate]
    rw [List.drop_eq_nil_of_le (by simpa using hskip), List.nil_append] at hpage
    obtain ⟨hfull, hcut⟩ := ih { c with my := c.my - p.size } hpage
    refine ⟨?_, ?_⟩
    · intro hfit
      rw [hlen] at hfit
      rw [hfull (by simp only; omega), copyParts, if_pos hsel, hlen]
      simp only [Prod.mk.injEq, Cursor.mk.injEq, and_true, true_and]
      omega
    · intro hlt
      rw [hlen] at hlt
      obtain ⟨h1, h2, h3⟩ := hcut (by simp only; omega)
      refine ⟨?_, h2, h3⟩
      rw [h1, fill, if_pos hsel, overlay_full (by simp) (by simp; omega)]
      congr 1
      simp only
      omega
  · have hmy : c.my < p.size := by omega
    have hl : (t.getPart p).length = (u.getPart p).length := by simp
    have hmy' : c.my < (t.getPart p).length := by simpa using hmy
    rw [Nat.sub_eq_zero_of_le hmy.le, List.drop_zero] at hpage
    rw [fill_cons hsel hmy]
    by_cases hfit : p.size - c.my ≤ blcksz - c.ptr
    · -- the part ends on this page, the rest starts right after it
      have htake : ((t.getPart p).drop c.my).take (blcksz - c.ptr) = (t.getPart p).drop c.my :=
        List.take_of_length_le (by simpa using hfit)
      rw [List.take_append, htake, Mem.read_append_iff, List.length_drop, getPart_length] at hpage
      obtain ⟨hread, hrest⟩ := hpage
      have hr := get_full hl hmy' (by simpa using hfit) (by simpa using hread)
      simp only [hr, if_true, setPart_setPart, getPart_length]
      have hspec := ih ⟨c.ptr + (p.size - c.my), 0, c.already + (p.size - c.my)⟩
        (by simpa only [OnPage, List.drop_zero, Nat.sub_sub] using hrest)
      rw [fill_zero] at hspec
      refine ⟨?_, ?_⟩
      · intro hfit'
        rw [hlen] at hfit'
        rw [hspec.full (by simp only; omega), copyParts, if_pos hsel, hlen]
        simp only [Prod.mk.injEq, Cursor.mk.injEq, and_true, true_and]
        omega
      · intro hlt
        rw [hlen] at hlt
        obtain ⟨h1, h2, h3⟩ := hspec.cut (by simp only; omega)
        simp only at h1 h2
        refine ⟨?_, by rw [h2]; omega, h3⟩
        rw [h1, fill, if_pos hsel, overlay_full (by simp) (by simp; omega)]
        congr 1
        omega
    · -- the page ends inside the part
      have hcut : blcksz - c.ptr < p.size - c.my := by omega
      have htake : ((t.getPart p).drop c.my ++ t.partBytes ps).take (blcksz - c.ptr) =
          ((t.getPart p).drop c.my).take (blcksz - c.ptr) :=
        List.take_append_of_le_length (by simp; omega)
      have htl : (((t.getPart p).drop c.my).take (blcksz - c.ptr)).length = blcksz - c.ptr := by
        simp
        omega
      rw [htake, htl] at hpage
      obtain ⟨h1, h2, h3⟩ := get_cut hl hmy' (by simpa using hcut) hpage
      simp only [h1, h3, setPart_setPart, Bool.false_eq_true, if_false]
      refine ⟨by intro hle; omega, ?_⟩
      intro _
      rw [fill_cons hsel (by omega)]
      exact ⟨rfl, h2, rfl⟩

/-- A pass over parts behind the header, when the header has been read. -/
lemma readParts_spec {t u : UndoRecord} {page : Mem} {c : Cursor} (hnd : ps.Nodup) (hw : .whdr ∉ ps)
    (hflags : ∀ q, u.selected q = t.selected q) (hpage : OnPage page (t.partBytes ps) c) :
    PassSpec t u ps c (readParts page ps (fill t u ps c.my) c) := by
  induction ps generalizing u c with
  | nil =>
    refine ⟨?_, ?_⟩
    · intro _
      simp [readParts, fill, copyParts]
    · intro h
      simp at h
  | cons p ps ih =>
    obtain ⟨hp, hnd'⟩ := List.nodup_cons.mp hnd
    obtain ⟨hpw, hw'⟩ : Part.whdr ≠ p ∧ Part.whdr ∉ ps := by simpa using hw
    have hsel' : (fill t u (p :: ps) c.my).selected p = t.selected p := by
      rw [selected_fill hw, hflags]
    by_cases hsel : t.selected p = true
    · apply readParts_cons hp hsel (hsel'.trans hsel) hpage
      intro c' hpage'
      apply ih hnd' hw' _ hpage'
      intro q
      rw [selected_setPart (Ne.symm hpw), hflags]
    · rw [partBytes_cons_of_not hsel] at hpage
      have hfill : fill t u (p :: ps) c.my = fill t u ps c.my := by rw [fill, if_neg hsel]
      rw [hfill] at hsel'
      obtain ⟨hfull, hcut⟩ := ih hnd' hw' hflags hpage
      rw [hfill, readParts, if_neg (by rw [hsel']; exact hsel)]
      refine ⟨?_, ?_⟩
      · rw [partBytes_cons_of_not hsel, copyParts, if_neg hsel]
        exact hfull
      · rw [partBytes_cons_of_not hsel, fill, if_neg hsel]
        exact hcut

/-- Copying the header copies the flags. -/
lemma selected_setPart_whdr (t u : UndoRecord) (q : Part) :
    (u.setPart .whdr (t.getPart .whdr)).selected q = t.selected q := by
  cases q <;> simp [setPart, getPart, selected, has]

/-- A pass over all parts. -/
lemma readParts_parts {t u : UndoRecord} {page : Mem} {c : Cursor}
    (hpage : OnPage page (t.partBytes parts) c) :
    PassSpec t u parts c (readParts page parts (fill t u parts c.my) c) := by
  apply readParts_cons (by decide) rfl rfl hpage
  intro c' hpage'
  exact readParts_spec (by decide) (by decide) (selected_setPart_whdr t u) hpage'

/-! ## The payload -/

/-- The payload buffer `Load` leaves: nothing is allocated for an empty payload. -/
def loadedRaw (t : UndoRecord) : StringInfoData :=
  ⟨if t.payloadlen = 0 then none else some t.payload, t.payloadlen.toNat⟩

/-- An empty payload buffer of the record's length (`MemoryContextAllocZero`). -/
abbrev zeros (t : UndoRecord) : List UInt8 :=
  List.replicate t.payloadlen.toNat 0

/-- `k` bytes of the payload of `t` have arrived in the buffer of `u`, which is allocated only when
    there is something to read. -/
structure RawState (t u : UndoRecord) (k : Nat) : Prop where
  data : u.rawdata.data.getD t.zeros = overlay t.payload t.zeros k
  empty : t.payloadlen = 0 → u.rawdata.data = none

/-- The payload's last bytes are on the page: the buffer is complete, as a copy or as a pointer into
    the page. -/
lemma readRawdata_full {t u : UndoRecord} {page : Mem} {copyData split : Bool} {c : Cursor}
    (hlen : u.payloadlen = t.payloadlen) (hpl : t.payload.length = t.payloadlen.toNat)
    (hraw : RawState t u c.my) (hsplit : split = false → c.my = 0) (hpage : OnPage page t.payload c)
    (hfit : t.payload.length - c.my ≤ blcksz - c.ptr) :
    ∃ copied, (readRawdata page copyData split u c).1 =
        { u with rawdata := t.loadedRaw, isCopy := copied } ∧
      (readRawdata page copyData split u c).2.2 = true := by
  simp only [readRawdata, hlen]
  by_cases h0 : t.payloadlen.toNat = 0
  · have h0' : t.payloadlen = 0 := UInt16.toNat_inj.mp h0
    refine ⟨u.isCopy, ?_⟩
    rw [if_pos h0, loadedRaw, if_pos h0', hraw.empty h0']
    exact ⟨rfl, rfl⟩
  have h0' : t.payloadlen ≠ 0 := fun h => h0 (by rw [h]; rfl)
  have htake : (t.payload.drop c.my).take (blcksz - c.ptr) = t.payload.drop c.my :=
    List.take_of_length_le (by simpa using hfit)
  rw [OnPage, htake, List.length_drop] at hpage
  rw [if_neg h0, loadedRaw, if_neg h0']
  split
  · -- the pointer into the page
    rename_i hz
    simp only [Bool.and_eq_true, Bool.not_eq_true', decide_eq_true_eq] at hz
    rw [hsplit hz.1.2, List.drop_zero, Nat.sub_zero, hpl] at hpage
    refine ⟨false, ?_, rfl⟩
    simp only [hpage]
  · refine ⟨u.isCopy, ?_⟩
    rw [hraw.data]
    have hl : t.payload.length = t.zeros.length := by simp [hpl]
    by_cases hskip : t.payload.length ≤ c.my
    · rw [overlay_full hl hskip, get_skip hskip]
      exact ⟨rfl, rfl⟩
    · rw [get_full hl (by omega) hfit hpage]
      exact ⟨rfl, rfl⟩

/-- The page ends inside the payload: the buffer has the bytes up to there. -/
lemma readRawdata_cut {t u : UndoRecord} {page : Mem} {copyData split : Bool} {c : Cursor}
    (hlen : u.payloadlen = t.payloadlen) (hpl : t.payload.length = t.payloadlen.toNat)
    (hraw : RawState t u c.my) (hpage : OnPage page t.payload c)
    (hcut : blcksz - c.ptr < t.payload.length - c.my) :
    let r := readRawdata page copyData split u c
    r.1 = { u with
        rawdata := ⟨some (overlay t.payload t.zeros (c.my + (blcksz - c.ptr))), t.payloadlen.toNat⟩ } ∧
      r.2.1.already = c.already + (blcksz - c.ptr) ∧ r.2.2 = false := by
  have h0 : ¬ t.payloadlen.toNat = 0 := by omega
  have hz : ¬ (!copyData && !split && decide (t.payloadlen.toNat ≤ blcksz - c.ptr)) = true := by
    simp only [Bool.and_eq_true, decide_eq_true_eq]
    omega
  have htl : ((t.payload.drop c.my).take (blcksz - c.ptr)).length = blcksz - c.ptr := by
    simp
    omega
  rw [OnPage, htl] at hpage
  have hl : t.payload.length = t.zeros.length := by simp [hpl]
  obtain ⟨h1, h2, h3⟩ := get_cut hl (by omega) hcut hpage
  simp only [readRawdata, hlen, if_neg h0, if_neg hz, hraw.data]
  exact ⟨by rw [h1], h2, h3⟩

/-- A page that holds a string holds its first half and, where that ends on the page, its second. -/
lemma OnPage.append {page : Mem} {as bs : List UInt8} {c : Cursor} (h : OnPage page (as ++ bs) c) :
    OnPage page as c ∧ (as.length - c.my ≤ blcksz - c.ptr →
      OnPage page bs ⟨c.ptr + (as.length - c.my), c.my - as.length,
        c.already + (as.length - c.my)⟩) := by
  rw [OnPage, List.drop_append, List.take_append, Mem.read_append_iff] at h
  obtain ⟨h1, h2⟩ := h
  refine ⟨h1, ?_⟩
  intro hfit
  have htake : (as.drop c.my).take (blcksz - c.ptr) = as.drop c.my :=
    List.take_of_length_le (by simpa using hfit)
  rw [htake, List.length_drop, Nat.sub_sub] at h2
  exact h2

/-- The bytes `Load` reads: everything but the length field at the end. -/
def readBytes (t : UndoRecord) : List UInt8 :=
  t.partBytes parts ++ if t.has uinfoPayload then t.payload else []

/-- The payload buffer after `Load`. -/
def finalRaw (t : UndoRecord) : StringInfoData :=
  if t.has uinfoPayload then t.loadedRaw else ⟨none, 0⟩

/-- Copying parts does not look at the payload buffer. -/
lemma copyParts_rawdata (t u : UndoRecord) (ps : List Part) (r : StringInfoData) :
    copyParts t { u with rawdata := r } ps = { copyParts t u ps with rawdata := r } := by
  induction ps generalizing u with
  | nil => rfl
  | cons p ps ih =>
    by_cases hp : t.selected p = true
    · rw [copyParts, copyParts, if_pos hp, if_pos hp, ← ih]
      cases p <;> rfl
    · rw [copyParts, copyParts, if_neg hp, if_neg hp, ih]

/-- What a read of all parts leaves, field by field. -/
lemma copyParts_parts (t u : UndoRecord) :
    copyParts t u parts =
      { u with
        whdr := t.whdr
        wblk := t.wblk
        prevurp := if t.has uinfoTransac then t.prevurp else u.prevurp
        oldxactid := if t.has uinfoOldtd then t.oldxactid else u.oldxactid
        partitionoid := if t.has uinfoHasPartoid then t.partitionoid else u.partitionoid
        tablespace := if t.has uinfoHasTablespaceoid then t.tablespace else u.tablespace
        payloadlen := if t.has uinfoPayload then t.payloadlen else u.payloadlen } := by
  have h8 (x : UInt64) : UInt64.ofNat (ofLE (toLE 8 x.toNat)) = x := by
    rw [ofLE_toLE_of_lt (w := 8) x.toNat_lt, UInt64.ofNat_toNat]
  have h4 (x : UInt32) : UInt32.ofNat (ofLE (toLE 4 x.toNat)) = x := by
    rw [ofLE_toLE_of_lt (w := 4) x.toNat_lt, UInt32.ofNat_toNat]
  have h2 (x : UInt16) : UInt16.ofNat (ofLE (toLE 2 x.toNat)) = x := by
    rw [ofLE_toLE_of_lt (w := 2) x.toNat_lt, UInt16.ofNat_toNat]
  simp only [parts, copyParts, selected, setPart, getPart, UndoRecordHeader.ofBytes_bytes,
    UndoRecordBlock.ofBytes_bytes, h8, h4, h2, if_true]
  cases t.has uinfoTransac <;> cases t.has uinfoOldtd <;> cases t.has uinfoHasPartoid <;>
    cases t.has uinfoHasTablespaceoid <;> cases t.has uinfoPayload <;> rfl

lemma copyParts_payloadlen {t u : UndoRecord} (hp : t.has uinfoPayload = true) :
    (copyParts t u parts).payloadlen = t.payloadlen := by
  rw [copyParts_parts]
  exact if_pos hp

lemma RawState.copyParts {t u : UndoRecord} {k : Nat} (h : RawState t u k) : RawState t (copyParts t u parts) k := by
  rw [copyParts_parts]
  exact ⟨h.data, h.empty⟩

/-! ## One page of a record -/

section Page

variable {t u : UndoRecord} {page : Mem} {copyData : Bool} {start k : Nat}

section

variable (hpl : t.has uinfoPayload = true → t.payload.length = t.payloadlen.toNat)
  (hraw : t.has uinfoPayload = true → RawState t u (k - (t.partBytes parts).length))
include hpl hraw

/-- The last page of a record completes it. -/
lemma readUndoRecord_full (hnone : t.has uinfoPayload = false → u.rawdata = ⟨none, 0⟩)
    (hpage : OnPage page t.readBytes ⟨start, k, k⟩) (hfit : t.readBytes.length - k ≤ blcksz - start) :
    ∃ copied, ((fill t u parts k).readUndoRecord page start k copyData).1 =
        { copyParts t u parts with rawdata := t.finalRaw, isCopy := copied } ∧
      ((fill t u parts k).readUndoRecord page start k copyData).2.2 = true := by
  obtain ⟨hparts, hrest⟩ := OnPage.append hpage
  have hlen : t.readBytes.length = (t.partBytes parts).length +
      (if t.has uinfoPayload then t.payload else []).length := List.length_append
  have hpass := (readParts_parts (u := u) hparts).full (by simp only; omega)
  have hhas : (copyParts t u parts).has uinfoPayload = t.has uinfoPayload := by
    rw [copyParts_parts]
    rfl
  simp only at hpass
  simp only [readUndoRecord, hpass, hhas, Bool.true_and]
  cases hp : t.has uinfoPayload with
  | false =>
    refine ⟨u.isCopy, ?_, rfl⟩
    simp only [finalRaw, hp, Bool.false_eq_true, if_false, ← hnone hp]
    rw [copyParts_parts]
  | true =>
    simp only [hp, if_true] at hrest hlen ⊢
    have hplen : (copyParts t u parts).payloadlen = t.payloadlen := copyParts_payloadlen hp
    have hraw' : RawState t (copyParts t u parts) (k - (t.partBytes parts).length) := (hraw hp).copyParts
    obtain ⟨copied, h1, h2⟩ := @readRawdata_full _ _ _ copyData (decide (k > 0)) _ hplen (hpl hp)
      hraw' (by simp; omega) (hrest (by omega)) (by simp only; omega)
    refine ⟨copied, ?_, h2⟩
    rw [h1, finalRaw, if_pos hp]

/-- A page that ends inside the record leaves it half-read, with the count of the bytes so far. -/
lemma readUndoRecord_cut (hpage : OnPage page t.readBytes ⟨start, k, k⟩)
    (hcut : blcksz - start < t.readBytes.length - k) : let r := (fill t u parts k).readUndoRecord page start k copyData
    r.2 = (k + (blcksz - start), false) ∧ ∃ raw,
      r.1 = fill t { u with rawdata := raw } parts (k + (blcksz - start)) ∧
      (t.has uinfoPayload = true → RawState t { u with rawdata := raw }
        (k + (blcksz - start) - (t.partBytes parts).length)) ∧
      (t.has uinfoPayload = false → raw = u.rawdata) := by
  obtain ⟨hparts, hrest⟩ := OnPage.append hpage
  have hlen : t.readBytes.length = (t.partBytes parts).length +
      (if t.has uinfoPayload then t.payload else []).length := List.length_append
  have hpass := readParts_parts (u := u) hparts
  simp only at hpass
  by_cases hin : blcksz - start < (t.partBytes parts).length - k
  · -- inside the fixed parts: the payload has not been touched
    obtain ⟨h1, h2, h3⟩ := hpass.cut hin
    simp only at h1 h2
    simp only [readUndoRecord, h1, h2, h3, Bool.false_and, Bool.false_eq_true, if_false]
    refine ⟨trivial, u.rawdata, rfl, ?_, fun _ => rfl⟩
    intro hp
    have hz : k + (blcksz - start) - (t.partBytes parts).length =
        k - (t.partBytes parts).length := by omega
    rw [hz]
    exact hraw hp
  · -- inside the payload
    have hp : t.has uinfoPayload = true := by
      by_contra hp
      rw [if_neg hp, List.length_nil] at hlen
      omega
    have hhas : (copyParts t u parts).has uinfoPayload = true := by
      rw [copyParts_parts]
      exact hp
    have hplen : (copyParts t u parts).payloadlen = t.payloadlen := copyParts_payloadlen hp
    have hraw' : RawState t (copyParts t u parts) (k - (t.partBytes parts).length) := (hraw hp).copyParts
    rw [if_pos hp] at hrest hlen
    simp only at hrest
    have hfull := hpass.full (by simp only; omega)
    simp only at hfull
    obtain ⟨h1, h2, h3⟩ := @readRawdata_cut _ _ _ copyData (decide (k > 0)) _ hplen (hpl hp)
      hraw' (hrest (by omega)) (by simp only; omega)
    simp only at h1 h2
    have hk : k - (t.partBytes parts).length +
          (blcksz - (start + ((t.partBytes parts).length - k))) =
        k + (blcksz - start) - (t.partBytes parts).length := by omega
    rw [hk] at h1
    simp only [readUndoRecord, hfull, hhas, Bool.and_self, if_true, h1, h2, h3]
    refine ⟨?_, ⟨some (overlay t.payload t.zeros (k + (blcksz - start) - (t.partBytes parts).length)),
      t.payloadlen.toNat⟩, ?_, ?_, ?_⟩
    · simp only [Prod.mk.injEq, and_true]
      omega
    · have hk' : (t.partBytes parts).length ≤ k + (blcksz - start) := by omega
      rw [fill_full hk']
      exact (copyParts_rawdata t u parts _).symm
    · intro _
      refine ⟨rfl, ?_⟩
      intro h0
      have hempty : t.payload.length = 0 := by rw [hpl hp, h0]; rfl
      omega
    · simp [hp]

end

end Page

/-! ## Loading -/

/-- The pages hold `bs` from byte `w` of block `b` of zone `z` on, and from the page header of the next
    block on what does not fit there. -/
structure StoredAt (pages : UndoPages) (z b w : Nat) (bs : List UInt8) : Prop where
  first : (pages z b).read w (bs.take (blcksz - w)).length = bs.take (blcksz - w)
  second : (pages z (b + 1)).read undoLogBlockHeaderSize (bs.drop (blcksz - w)).length =
    bs.drop (blcksz - w)

/-- A prefix of a stored string is stored. -/
lemma StoredAt.left {pages : UndoPages} {z b w : Nat} {as bs : List UInt8}
    (h : StoredAt pages z b w (as ++ bs)) : StoredAt pages z b w as := by
  obtain ⟨h1, h2⟩ := h
  rw [List.take_append, Mem.read_append_iff] at h1
  rw [List.drop_append, Mem.read_append_iff] at h2
  exact ⟨h1.1, h2.1⟩

/-- What `Load` must hand back for a record: the fields its flags select and the payload bytes, the
    default value of `Reset` in every other field. -/
def restored (t : UndoRecord) (copied : Bool) : UndoRecord :=
  { reset t.urp with
    whdr := t.whdr
    wblk := t.wblk
    prevurp := if t.has uinfoTransac then t.prevurp else 0
    oldxactid := if t.has uinfoOldtd then t.oldxactid else frozenTransactionId
    partitionoid := if t.has uinfoHasPartoid then t.partitionoid else 0
    tablespace := if t.has uinfoHasTablespaceoid then t.tablespace else 0
    payloadlen := if t.has uinfoPayload then t.payloadlen else 0
    rawdata := t.finalRaw
    isCopy := copied }

section

variable {t : UndoRecord} (hpl : t.has uinfoPayload = true → t.payload.length = t.payloadlen.toNat)
  (hsize : t.readBytes.length ≤ undoLogUsableBytesPerPage)
include hpl hsize

/-- The loop over the pages restores a stored record: it ends on the first page or on the second. -/
lemma loadLoop_eq {z b w : Nat} (hst : StoredAt pages z b w t.readBytes) (keepBuffer : Bool)
    (fuel : Nat) :
    ∃ copied, loadLoop pages z keepBuffer (fuel + 1 + 1) b w 0 (reset t.urp) =
      some (t.restored copied) := by
  obtain ⟨h1, h2⟩ := hst
  have hfinal (raw : StringInfoData) (copied : Bool) :
      { copyParts t { reset t.urp with rawdata := raw } parts with
        rawdata := t.finalRaw, isCopy := copied } = t.restored copied := by
    rw [copyParts_parts]
    rfl
  have hraw0 : t.has uinfoPayload = true →
      RawState t (reset t.urp) (0 - (t.partBytes parts).length) := by
    intro _
    refine ⟨?_, fun _ => rfl⟩
    rw [Nat.zero_sub, overlay_zero]
    rfl
  have hpage : OnPage (pages z b) t.readBytes ⟨w, 0, 0⟩ := by simpa [OnPage] using h1
  rw [loadLoop, if_neg (by omega)]
  by_cases hfit : t.readBytes.length ≤ blcksz - w
  · obtain ⟨copied, hr1, hr2⟩ := @readUndoRecord_full t (reset t.urp) (pages z b) keepBuffer w 0 hpl
      hraw0 (fun _ => rfl) hpage hfit
    rw [fill_zero] at hr1 hr2
    refine ⟨copied, ?_⟩
    simp only [hr1, hr2, if_true]
    exact congrArg some (hfinal ⟨none, 0⟩ copied)
  · have hcut : blcksz - w < t.readBytes.length - 0 := by omega
    have husable : undoLogUsableBytesPerPage = blcksz - undoLogBlockHeaderSize := rfl
    obtain ⟨hr2, raw, hr1, hraw, hkeep⟩ := @readUndoRecord_cut t (reset t.urp) (pages z b) keepBuffer
      w 0 hpl hraw0 hpage hcut
    rw [fill_zero] at hr1 hr2
    simp only [Nat.zero_add] at hr1 hr2 hraw
    have hpage2 : OnPage (pages z (b + 1)) t.readBytes
        ⟨undoLogBlockHeaderSize, blcksz - w, blcksz - w⟩ := by
      rw [OnPage, List.take_of_length_le]
      · exact h2
      · simp only [List.length_drop]
        omega
    obtain ⟨copied, hq1, hq2⟩ := @readUndoRecord_full t { reset t.urp with rawdata := raw }
      (pages z (b + 1)) keepBuffer undoLogBlockHeaderSize (blcksz - w) hpl hraw hkeep hpage2 (by omega)
    refine ⟨copied, ?_⟩
    simp only [hr1, hr2, Bool.false_eq_true, if_false]
    rw [loadLoop, if_neg (by omega)]
    simp only [hq1, hq2, if_true]
    exact congrArg some (hfinal raw copied)

/-- Loading a stored record restores it. -/
lemma load_eq
    (hst : StoredAt pages (undoPtrGetZoneId t.urp) (undoPtrGetBlockNum t.urp) (undoPtrGetPageOffset t.urp) t.readBytes)
    (keepBuffer : Bool) : ∃ copied, (reset t.urp).load pages keepBuffer = some (t.restored copied) :=
  loadLoop_eq hpl hsize hst keepBuffer 8190

end

/-! ## The writer -/

/-- A record `Append` can lay out: the payload buffer has as many bytes as it says, and the record fits
    the usable part of a page. -/
structure Insertable (u : UndoRecord) : Prop where
  data : u.has uinfoPayload = true → u.rawdata.len ≤ (u.rawdata.data.getD []).length
  size : u.rawSize ≤ undoLogUsableBytesPerPage

/-- The bytes of a record on its pages. -/
def encode (u : UndoRecord) : List UInt8 :=
  (u.setPayLoadLen.chunks u.recordSize).flatten

/-- Setting the payload length keeps the flags. -/
lemma has_setPayLoadLen (u : UndoRecord) (flag : UInt8) : u.setPayLoadLen.has flag = u.has flag := by
  unfold setPayLoadLen
  split <;> rfl

/-- Setting the payload length keeps the payload. -/
lemma payload_setPayLoadLen (u : UndoRecord) : u.setPayLoadLen.payload = u.payload := by
  unfold setPayLoadLen
  split <;> rfl

/-- A record that fits is as long as its 16-bit size says. -/
lemma Insertable.recordSize_eq {u : UndoRecord} (h : u.Insertable) : u.recordSize = u.rawSize := by
  have hs := h.size
  apply Nat.mod_eq_of_lt
  simp only [undoLogUsableBytesPerPage] at hs
  omega

/-- The payload length field of a record that fits counts the payload bytes. -/
lemma Insertable.payloadlen_eq {u : UndoRecord} (h : u.Insertable)
    (hp : u.setPayLoadLen.has uinfoPayload = true) :
    u.setPayLoadLen.payload.length = u.setPayLoadLen.payloadlen.toNat := by
  rw [has_setPayLoadLen] at hp
  have hs := h.size
  simp only [rawSize, hp, if_true, undoLogUsableBytesPerPage] at hs
  have hlt : u.rawdata.len < 2 ^ 16 := by omega
  rw [payload_setPayLoadLen, payload, List.length_take, Nat.min_eq_left (h.data hp), setPayLoadLen,
    if_pos hp]
  exact (UInt16.toNat_ofNat_of_lt' hlt).symm

/-- The encoding is what `Load` reads, followed by the record's length. -/
lemma Insertable.encode_eq {u : UndoRecord} (h : u.Insertable) :
    u.encode = u.setPayLoadLen.readBytes ++ toLE 2 u.recordSize := by
  rw [encode, chunks, readBytes, partBytes]
  cases hp : u.setPayLoadLen.has uinfoPayload with
  | false => simp
  | true =>
    by_cases h0 : u.setPayLoadLen.payloadlen = 0
    · have hlen := h.payloadlen_eq hp
      rw [h0] at hlen
      have hnil : u.setPayLoadLen.payload = [] := List.length_eq_zero_iff.mp hlen
      simp [h0, hnil]
    · simp [h0]

/-- Bytes of the fixed parts. -/
lemma partBytes_parts_length (u : UndoRecord) :
    (u.partBytes parts).length = 22 + 14 + (if u.has uinfoTransac then 8 else 0) +
      (if u.has uinfoOldtd then 8 else 0) + (if u.has uinfoHasPartoid then 4 else 0) +
      (if u.has uinfoHasTablespaceoid then 4 else 0) + (if u.has uinfoPayload then 2 else 0) := by
  have hcons (p : Part) (ps : List Part) : (u.partBytes (p :: ps)).length =
      (if u.selected p then p.size else 0) + (u.partBytes ps).length := by
    by_cases hp : u.selected p = true
    · rw [partBytes_cons hp, List.length_append, getPart_length, if_pos hp]
    · rw [partBytes_cons_of_not hp, if_neg hp, Nat.zero_add]
  simp only [parts, hcons, partBytes_nil, List.length_nil]
  change 22 + (14 + ((if u.has uinfoTransac then 8 else 0) + ((if u.has uinfoOldtd then 8 else 0) +
    ((if u.has uinfoHasPartoid then 4 else 0) + ((if u.has uinfoHasTablespaceoid then 4 else 0) +
    ((if u.has uinfoPayload then 2 else 0) + 0)))))) = _
  omega

/-- The encoding has the record's size. -/
lemma Insertable.encode_length {u : UndoRecord} (h : u.Insertable) : u.encode.length = u.rawSize := by
  have hpay : (if u.has uinfoPayload then u.payload else []).length =
      if u.has uinfoPayload then u.rawdata.len else 0 := by
    cases hp : u.has uinfoPayload with
    | false => rfl
    | true => simpa [payload] using h.data hp
  rw [h.encode_eq, readBytes, List.length_append, List.length_append, partBytes_parts_length,
    toLE_length]
  simp only [has_setPayLoadLen, payload_setPayLoadLen, hpay, rawSize]
  cases u.has uinfoPayload <;> simp <;> omega

/-- A pass of `Append` lays out what fits from byte `a` of the encoding on, counts it, and says whether
    that was the rest. -/
lemma append_eq (u : UndoRecord) (page : Mem) (start a : Nat) :
    u.append page start a u.recordSize =
      (u.setPayLoadLen, page.write start ((u.encode.drop a).take (blcksz - start)),
        a + min (u.encode.length - a) (blcksz - start),
        decide (u.encode.length - a ≤ blcksz - start)) := by
  obtain ⟨h1, h2, h3⟩ := putAll_eq blcksz (u.setPayLoadLen.chunks u.recordSize) page ⟨start, a, a⟩
  simp only at h1 h2 h3
  rw [append]
  simp only [h1, h2, h3]
  rfl

/-- `Append` writes no byte before its starting byte, and none past the page. -/
lemma append_outside {u : UndoRecord} {page : Mem} {start a undoLen i : Nat}
    (h : i < start ∨ (start ≤ blcksz ∧ blcksz ≤ i)) :
    (u.append page start a undoLen).2.1 i = page i := by
  obtain ⟨h1, -, -⟩ := putAll_eq blcksz (u.setPayLoadLen.chunks undoLen) page ⟨start, a, a⟩
  rw [append]
  simp only [h1]
  apply Mem.write_out
  simp only [List.length_take]
  omega

/-- A stored encoding is loaded as the record that was written. -/
lemma Insertable.load_encode {u : UndoRecord} (h : u.Insertable)
    (hst : StoredAt pages (undoPtrGetZoneId u.urp) (undoPtrGetBlockNum u.urp) (undoPtrGetPageOffset u.urp) u.encode)
    (keepBuffer : Bool) :
    ∃ copied, (reset u.urp).load pages keepBuffer = some (u.setPayLoadLen.restored copied) := by
  have hurp : u.setPayLoadLen.urp = u.urp := by
    unfold setPayLoadLen
    split <;> rfl
  have hlen := h.encode_length
  have hs := h.size
  rw [h.encode_eq] at hst
  rw [h.encode_eq, List.length_append] at hlen
  rw [← hurp] at hst ⊢
  exact load_eq h.payloadlen_eq (by omega) hst.left keepBuffer

end UndoRecord

end GaussKernel.Undo
