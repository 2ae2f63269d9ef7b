import GaussKernel.Undo.RecordVec

/-!
# Undo records survive the way to their pages and back

`PrepareUndoRecord` gives the records of a vector consecutive places (`Prepared`), `InsertPreparedUndo`
writes each of them to the pages of its place and touches no byte of an earlier record
(`insertRecord_spec`, `Stored.keep`), and `UndoRecord::Load` reads each of them back
(`load_insertPreparedUndo`).

A place is a usable byte number `m` counted from the start of the zone. The vector may run past the last
block of the zone: its pointers then go on in another zone, while a record that was cut there continues
in block `2 ^ 31` of its own zone. The buffers are found by block number alone, which is enough because a
vector has fewer than `2 ^ 31` records and so never comes back to a block it has used.
-/

namespace GaussKernel.Undo

open Lib

/-! ## Buffers -/

/-- The record of `size` bytes at place `m` continues on a second page. -/
abbrev Spills (m size : Nat) : Prop :=
  undoLogUsableBytesPerPage < m % undoLogUsableBytesPerPage + size

/-- A block number stands for page `p`, counted from the start of the zone. -/
def Denotes (blk p : Nat) : Prop :=
  blk = p % 2 ^ 31 ∨ (blk = 2 ^ 31 ∧ p % 2 ^ 31 = 0)

/-- The buffers of the records placed from `m₀` up to `m`. -/
structure BufInv (z m₀ : Nat) (ub : List UndoBuffer) (m : Nat) : Prop where
  /-- Every buffer is a page with a byte of a placed record. -/
  denotes : ∀ b ∈ ub, ∃ p, m₀ / undoLogUsableBytesPerPage ≤ p ∧ p * undoLogUsableBytesPerPage < m ∧
    Denotes b.blk p
  /-- A buffer of the block where the next record starts can only be the last one. -/
  last : m / undoLogUsableBytesPerPage < m₀ / undoLogUsableBytesPerPage + 2 ^ 31 →
    ∀ i b, ub[i]? = some b → b.blk = blockAt m → i + 1 = ub.length ∧ b.zoneId = zoneAt z m

variable {z m₀ m i start : Nat} {ub : List UndoBuffer} {us : List UndoRecord} {page : Mem}
  {bs : List UInt8} {pages pages' : UndoPages} {u : UndoRecord}

/-- The buffer of a record's first page is the last one of the list. -/
lemma getUndoBufidx_first (h : BufInv z m₀ ub m)
    (hm : m / undoLogUsableBytesPerPage < m₀ / undoLogUsableBytesPerPage + 2 ^ 31) :
    ∃ ub' k, getUndoBufidx ub (zoneAt z m) (blockAt m) = (ub', k) ∧ ub <+: ub' ∧
      k + 1 = ub'.length ∧ ub'[k]? = some ⟨zoneAt z m, blockAt m⟩ ∧
      (∀ b ∈ ub', b ∈ ub ∨ b = ⟨zoneAt z m, blockAt m⟩) ∧
      ∀ i b, ub'[i]? = some b → b.blk = blockAt m → i + 1 = ub'.length ∧ b.zoneId = zoneAt z m := by
  unfold getUndoBufidx
  split
  · rename_i i hi
    obtain ⟨hlt, hblk, -⟩ := List.findIdx?_eq_some_iff_getElem.mp hi
    have hblk' : ub[i].blk = blockAt m := by simpa using hblk
    obtain ⟨hlast, hzone⟩ := h.last hm i ub[i] (List.getElem?_eq_getElem hlt) hblk'
    refine ⟨ub, i, rfl, List.prefix_rfl, hlast, ?_, fun b hb => .inl hb, h.last hm⟩
    rw [List.getElem?_eq_getElem hlt, ← hzone, ← hblk']
  · rename_i hnone
    rw [List.findIdx?_eq_none_iff] at hnone
    refine ⟨_, _, rfl, List.prefix_append _ _, by simp, by simp, fun b hb => by simpa using hb, ?_⟩
    intro i b hb hblk
    by_cases hi : i < ub.length
    · rw [List.getElem?_append_left hi] at hb
      have hne := hnone b (List.mem_of_getElem? hb)
      simp [hblk] at hne
    · rw [List.getElem?_append_right (by omega)] at hb
      have hi' : i - ub.length = 0 := by
        have := List.getElem?_eq_some_iff.mp hb
        simp at this
        omega
      rw [hi'] at hb
      obtain rfl : (⟨zoneAt z m, blockAt m⟩ : UndoBuffer) = b := by simpa using hb
      exact ⟨by simp; omega, rfl⟩

/-- A block that no buffer holds is added at the end. -/
lemma getUndoBufidx_fresh {zone blk : Nat} (h : ∀ b ∈ ub, b.blk ≠ blk) :
    getUndoBufidx ub zone blk = (ub ++ [⟨zone, blk⟩], ub.length) := by
  have hnone : ub.findIdx? (fun b => b.blk == blk) = none := by
    rw [List.findIdx?_eq_none_iff]
    intro b hb
    simpa using h b hb
  rw [getUndoBufidx, hnone]

/-- A page behind all pages that the buffers stand for has no buffer. -/
lemma denotes_ne {blk p q lo : Nat} (h : Denotes blk p) (hlo : lo ≤ p) (hp : p < q)
    (hq : q < lo + 2 ^ 31) : ¬ Denotes blk q := by
  unfold Denotes at *
  omega

/-- The second page of a record. -/
lemma denotes_second (m : Nat) : Denotes (blockAt m + 1) (m / undoLogUsableBytesPerPage + 1) := by
  unfold Denotes blockAt
  omega

/-- Two places on one page lie in one zone. -/
lemma zoneAt_eq_of_page {n : Nat}
    (h : m / undoLogUsableBytesPerPage / 2 ^ 31 = n / undoLogUsableBytesPerPage / 2 ^ 31) :
    zoneAt z m = zoneAt z n := by
  simp only [zoneAt, zoneUsableBytes, undoLogUsableBytesPerPage] at *
  congr 1
  omega

/-- The bytes a page has from a place of the zone on. -/
lemma blcksz_sub (m : Nat) : blcksz - (undoLogBlockHeaderSize + m % undoLogUsableBytesPerPage) =
    undoLogUsableBytesPerPage - m % undoLogUsableBytesPerPage := by
  simp only [undoLogBlockHeaderSize, undoLogUsableBytesPerPage, blcksz]
  omega

/-- Getting the pages of one record: the buffers of its first and, if need be, its second page stand
    next to each other. -/
lemma pinPages_spec {size : Nat} (h : BufInv z m₀ ub m) (hm₀ : m₀ ≤ m) (h1 : 1 ≤ size)
    (h2 : size ≤ undoLogUsableBytesPerPage)
    (hm : m + size ≤ m₀ + (2 ^ 31 - 1) * undoLogUsableBytesPerPage) :
    ∃ ub' k, pinPages (zoneAt z m) (undoLogBlockHeaderSize + m % undoLogUsableBytesPerPage) size
        (size + 1) (blockAt m) 0 ub none = (ub', some k) ∧
      ub <+: ub' ∧ ub'[k]? = some ⟨zoneAt z m, blockAt m⟩ ∧
      (Spills m size → ub'[k + 1]? = some ⟨zoneAt z m, blockAt m + 1⟩) ∧
      BufInv z m₀ ub' (m + size) := by
  obtain ⟨fuel, rfl⟩ := Nat.exists_eq_add_of_le' h1
  have hpage : m / undoLogUsableBytesPerPage < m₀ / undoLogUsableBytesPerPage + 2 ^ 31 := by
    simp only [undoLogUsableBytesPerPage] at *
    omega
  obtain ⟨ub₁, k, hg, hpre, hk, hget, hmem, hlast⟩ := getUndoBufidx_first h hpage
  have hden : ∀ b ∈ ub₁, ∃ p, m₀ / undoLogUsableBytesPerPage ≤ p ∧
      p ≤ m / undoLogUsableBytesPerPage ∧ Denotes b.blk p := by
    intro b hb
    rcases hmem b hb with hb | rfl
    · obtain ⟨p, hp1, hp2, hp3⟩ := h.denotes b hb
      refine ⟨p, hp1, ?_, hp3⟩
      simp only [undoLogUsableBytesPerPage] at *
      omega
    · exact ⟨m / undoLogUsableBytesPerPage, Nat.div_le_div_right hm₀, le_rfl, .inl rfl⟩
  -- no buffer stands for a page after the record's first one
  have hnext : ∀ b ∈ ub₁, m / undoLogUsableBytesPerPage + 1 <
      m₀ / undoLogUsableBytesPerPage + 2 ^ 31 →
      ¬ Denotes b.blk (m / undoLogUsableBytesPerPage + 1) := by
    intro b hb hlt
    obtain ⟨p, hp1, hp2, hp3⟩ := hden b hb
    exact denotes_ne hp3 hp1 (by omega) hlt
  have hsize : (blcksz - (undoLogBlockHeaderSize + m % undoLogUsableBytesPerPage)) % 2 ^ 16 =
      undoLogUsableBytesPerPage - m % undoLogUsableBytesPerPage := by
    simp only [blcksz, undoLogBlockHeaderSize, undoLogUsableBytesPerPage]
    omega
  rw [pinPages]
  simp only [hg, Option.none_or, if_true, hsize]
  by_cases hsp : Spills m (fuel + 1)
  · rw [if_pos (by omega), pinPages]
    have hroom : m / undoLogUsableBytesPerPage + 1 < m₀ / undoLogUsableBytesPerPage + 2 ^ 31 := by
      simp only [Spills, undoLogUsableBytesPerPage] at *
      omega
    have hfresh : ∀ b ∈ ub₁, b.blk ≠ blockAt m + 1 := by
      intro b hb heq
      apply hnext b hb hroom
      rw [heq]
      exact denotes_second m
    have hsize2 : ¬ (if undoLogUsableBytesPerPage - m % undoLogUsableBytesPerPage = 0 then
          blcksz - (undoLogBlockHeaderSize + m % undoLogUsableBytesPerPage)
        else undoLogUsableBytesPerPage - m % undoLogUsableBytesPerPage +
          (blcksz - undoLogBlockHeaderSize)) % 2 ^ 16 < fuel + 1 := by
      simp only [blcksz, undoLogBlockHeaderSize, undoLogUsableBytesPerPage] at *
      split <;> omega
    simp only [getUndoBufidx_fresh hfresh, if_neg hsize2, Option.some_or]
    refine ⟨_, k, rfl, hpre.trans (List.prefix_append _ _), ?_, ?_, ?_, ?_⟩
    · rw [List.getElem?_append_left (by omega)]
      exact hget
    · intro _
      rw [hk]
      simp
    · intro b hb
      rcases List.mem_append.mp hb with hb | hb
      · obtain ⟨p, hp1, hp2, hp3⟩ := hden b hb
        refine ⟨p, hp1, ?_, hp3⟩
        simp only [undoLogUsableBytesPerPage] at *
        omega
      · obtain rfl := List.mem_singleton.mp hb
        refine ⟨m / undoLogUsableBytesPerPage + 1, ?_, ?_, denotes_second m⟩
        · have := Nat.div_le_div_right (c := undoLogUsableBytesPerPage) hm₀
          omega
        · simp only [Spills, undoLogUsableBytesPerPage] at *
          omega
    · intro _ i b hb hblk
      have hq : (m + (fuel + 1)) / undoLogUsableBytesPerPage = m / undoLogUsableBytesPerPage + 1 := by
        simp only [Spills, undoLogUsableBytesPerPage] at *
        omega
      rw [blockAt, hq] at hblk
      by_cases hi : i < ub₁.length
      · rw [List.getElem?_append_left hi] at hb
        exact absurd (.inl hblk) (hnext b (List.mem_of_getElem? hb) hroom)
      · rw [List.getElem?_append_right (by omega)] at hb
        have hi' : i - ub₁.length = 0 := by
          have := List.getElem?_eq_some_iff.mp hb
          simp at this
          omega
        rw [hi'] at hb
        obtain rfl : (⟨zoneAt z m, blockAt m + 1⟩ : UndoBuffer) = b := by simpa using hb
        refine ⟨by simp; omega, zoneAt_eq_of_page ?_⟩
        rw [hq]
        simp only [blockAt] at hblk
        omega
  · rw [if_neg (by omega)]
    refine ⟨ub₁, k, rfl, hpre, hget, fun hs => absurd hs hsp, ?_, ?_⟩
    · intro b hb
      obtain ⟨p, hp1, hp2, hp3⟩ := hden b hb
      refine ⟨p, hp1, ?_, hp3⟩
      simp only [undoLogUsableBytesPerPage] at *
      omega
    · intro hlt i b hb hblk
      by_cases hsame : (m + (fuel + 1)) / undoLogUsableBytesPerPage = m / undoLogUsableBytesPerPage
      · rw [blockAt, hsame] at hblk
        obtain ⟨h3, h4⟩ := hlast i b hb hblk
        refine ⟨h3, h4.trans (zoneAt_eq_of_page ?_)⟩
        rw [hsame]
      · have hq : (m + (fuel + 1)) / undoLogUsableBytesPerPage =
            m / undoLogUsableBytesPerPage + 1 := by
          simp only [Spills, undoLogUsableBytesPerPage] at *
          omega
        rw [blockAt, hq] at hblk
        rw [hq] at hlt
        exact absurd (.inl hblk) (hnext b (List.mem_of_getElem? hb) hlt)

/-! ## Places -/

/-- The records of a prepared vector, from place `m` on: each record to be inserted has the pointer of
    its place and the index of its first page among the buffers, and the next one follows right after
    it. -/
inductive Prepared (z : Nat) (ub : List UndoBuffer) : Nat → List UndoRecord → Prop where
  | nil {m : Nat} : Prepared z ub m []
  | skip {m : Nat} {u : UndoRecord} {us : List UndoRecord} (hn : u.needInsert = false)
      (rest : Prepared z ub m us) : Prepared z ub m (u :: us)
  | cons {m k : Nat} {u : UndoRecord} {us : List UndoRecord} (hn : u.needInsert = true)
      (urp : u.urp = ptrAt z m)
      (idx : u.bufidx = some k)
      (first : ub[k]? = some ⟨zoneAt z m, blockAt m⟩)
      (second : Spills m u.rawSize → ub[k + 1]? = some ⟨zoneAt z m, blockAt m + 1⟩)
      (rest : Prepared z ub (m + u.rawSize) us) : Prepared z ub m (u :: us)

/-- Further buffers do not move the earlier ones. -/
lemma getElem?_of_initial {ub' : List UndoBuffer} {b : UndoBuffer} (hpre : ub <+: ub')
    (hb : ub[i]? = some b) : ub'[i]? = some b := by
  obtain ⟨t, rfl⟩ := hpre
  rw [List.getElem?_append_left (List.getElem?_eq_some_iff.mp hb).1]
  exact hb

/-- A prepared vector may be cut anywhere. -/
lemma Prepared.take {z m : Nat} {ub : List UndoBuffer} {us : List UndoRecord}
    (h : Prepared z ub m us) (n : Nat) : Prepared z ub m (us.take n) := by
  induction h generalizing n with
  | nil =>
    rw [List.take_nil]
    exact .nil
  | skip hn _ ih =>
    cases n with
    | zero => exact .nil
    | succ n => exact .skip hn (ih n)
  | cons hn urp idx first second _ ih =>
    cases n with
    | zero => exact .nil
    | succ n => exact .cons hn urp idx first second (ih n)

/-- Bytes that the records to be inserted take. -/
def insertSize (us : List UndoRecord) : Nat :=
  ((us.filter (·.needInsert)).map UndoRecord.rawSize).sum

lemma insertSize_cons {u : UndoRecord} (us : List UndoRecord) (hn : u.needInsert = true) :
    insertSize (u :: us) = u.rawSize + insertSize us := by simp [insertSize, hn]

lemma insertSize_skip {u : UndoRecord} (us : List UndoRecord) (hn : ¬ u.needInsert = true) :
    insertSize (u :: us) = insertSize us := by simp [insertSize, hn]

/-- A vector whose records can be written: each one that is to be inserted is well formed, fits a page
    and has no buffer yet. -/
def Writable (us : List UndoRecord) : Prop :=
  ∀ u ∈ us, u.needInsert = true → u.Insertable ∧ u.bufidx = none

/-- Same record up to its place. -/
def SameRecord (u u' : UndoRecord) : Prop :=
  ∃ urp bufidx, u' = { u with urp := urp, bufidx := bufidx }

/-- A record takes at least one byte. -/
lemma UndoRecord.rawSize_pos (u : UndoRecord) : 1 ≤ u.rawSize := by
  unfold UndoRecord.rawSize
  omega

/-- `PrepareUndoRecord` places the records of a vector one after the other. -/
lemma prepareLoop_spec (hz : z < 2 ^ 20) (hm₀ : m₀ < zoneUsableBytes) (hw : Writable us)
    (hb : BufInv z m₀ ub m) (hle : m₀ ≤ m)
    (hm : m + insertSize us ≤ m₀ + (2 ^ 31 - 1) * undoLogUsableBytesPerPage) :
    ∃ us' ub', prepareLoop false us (ptrAt z m) ub = some (us', ub', ptrAt z (m + insertSize us)) ∧
      ub <+: ub' ∧ Prepared z ub' m us' ∧ List.Forall₂ SameRecord us us' := by
  induction us generalizing m ub with
  | nil => exact ⟨[], ub, by simp [prepareLoop, insertSize], List.prefix_rfl, .nil, .nil⟩
  | cons u us ih =>
    have hw' : Writable us := fun v hv => hw v (List.mem_cons_of_mem _ hv)
    by_cases hn : u.needInsert = true
    · obtain ⟨hins, hidx⟩ := hw u List.mem_cons_self hn
      have hsum := insertSize_cons us hn
      rw [hsum] at hm ⊢
      have hne : ¬ ptrAt z m = invalidUndoRecPtr := by
        intro h0
        have hoff := getPageOffset_ptrAt hz m
        rw [h0] at hoff
        simp only [undoPtrGetPageOffset, undoPtrGetOffset, undoLogBlockHeaderSize] at hoff
        simp at hoff
        omega
      obtain ⟨ub₁, k, hpin, hpre, hfirst, hsecond, hb'⟩ :=
        pinPages_spec hb hle u.rawSize_pos hins.size (by omega)
      have hadv : advanceUndoPtr (ptrAt z m) u.rawSize = ptrAt z (m + u.rawSize) := by
        apply advanceUndoPtr_ptrAt hz
        simp only [zoneUsableBytes, undoLogUsableBytesPerPage] at *
        omega
      obtain ⟨us', ub', hloop, hpre', hprep, hsame⟩ :=
        ih hw' hb' (by omega) (by omega)
      rw [Nat.add_assoc] at hloop
      refine ⟨{ u with urp := ptrAt z m, bufidx := some k } :: us', ub', ?_, hpre.trans hpre', ?_, ?_⟩
      · rw [prepareLoop]
        simp only [hn, Bool.not_true, Bool.false_eq_true, if_false, if_neg hne, hidx, hadv,
          getZoneId_ptrAt hz, getPageOffset_ptrAt hz, getBlockNum_ptrAt hz, hins.recordSize_eq, hpin,
          hloop, Option.map_some]
      · exact .cons hn rfl rfl (getElem?_of_initial hpre' hfirst)
          (fun hs => getElem?_of_initial hpre' (hsecond hs)) hprep
      · exact .cons ⟨_, _, rfl⟩ hsame
    · have hn' : u.needInsert = false := by simpa using hn
      have hsum := insertSize_skip us hn
      rw [hsum] at hm ⊢
      obtain ⟨us', ub', hloop, hpre', hprep, hsame⟩ := ih hw' hb hle hm
      refine ⟨u :: us', ub', ?_, hpre', .skip hn' hprep, .cons ⟨_, _, rfl⟩ hsame⟩
      rw [prepareLoop]
      simp only [hn', Bool.not_false, if_true, hloop, Option.map_some]

/-! ## Writing one record -/

/-- Header fields are not seen behind the header. -/
lemma write_header {off : Nat} (h : off + bs.length ≤ 24) (hi : undoLogBlockHeaderSize ≤ i) :
    page.write off bs i = page i := by
  simp only [undoLogBlockHeaderSize] at hi
  apply Mem.write_out
  omega

/-- A new page is empty behind the header. -/
lemma newUndoPage_body {zid : Nat} (hi : undoLogBlockHeaderSize ≤ i) : newUndoPage zid start i = 0 := by
  simp only [newUndoPage, pageInit, setPdLower, setPdUpper]
  rw [write_header (by simp) hi, write_header (by simp) hi, write_header (by simp) hi,
    write_header (by simp) hi, write_header (by simp) hi, write_header (by simp) hi]

/-- A page whose `pd_upper` was set to a page offset is not new. -/
lemma pageIsNew_setPdUpper {v : Nat} (h0 : 0 < v) (hv : v ≤ blcksz) :
    pageIsNew (setPdUpper page v) = false := by
  have hread : (setPdUpper page v).read 14 2 = toLE 2 v := by
    have := Mem.read_write page 14 (toLE 2 v)
    rwa [toLE_length] at this
  have hlt : v < 256 ^ 2 := by
    simp only [blcksz] at hv
    omega
  rw [pageIsNew, pdUpper, hread, ofLE_toLE_of_lt hlt]
  simp
  omega

/-- A page as the next record finds it: empty when it is new. -/
def bodyOf (page : Mem) : Mem :=
  if pageIsNew page then fun _ => 0 else page

/-- The page `Append` gets, behind its header. -/
lemma entered_body {zid a : Nat} (hi : undoLogBlockHeaderSize ≤ i) :
    let page' := if pageIsNew page then newUndoPage zid start else page
    (if a = 0 ∧ pdLower page' = undoLogBlockHeaderSize then setPdLower page' start else page') i =
      bodyOf page i := by
  have hnew : (if pageIsNew page then newUndoPage zid start else page) i = bodyOf page i := by
    unfold bodyOf
    split
    · exact newUndoPage_body hi
    · rfl
  intro page'
  split
  · exact (write_header (by simp) hi).trans hnew
  · exact hnew

/-- Stamping the page with an LSN is not seen behind the header. -/
lemma stamped_body {stamp : Bool} {lsn : Nat} (hi : undoLogBlockHeaderSize ≤ i) :
    (if stamp then pageSetLSN page lsn else page) i = page i := by
  split
  · rw [pageSetLSN, write_header (by simp) hi, write_header (by simp) hi]
  · rfl

/-- Pages that agree behind the header still do after the same write. -/
lemma write_body_congr {page' : Mem} (h : page i = page' i) :
    page.write start bs i = page'.write start bs i := by
  unfold Mem.write
  rw [h]

/-- What one page of a record's insertion does: the bytes that fit are laid out, the other bytes behind
    the header stay, and the page is no longer new. -/
lemma insertPage_spec {inRecovery : Bool} {lsn : Nat} {u : UndoRecord} {start a : Nat} {page : Mem}
    (hs1 : undoLogBlockHeaderSize ≤ start) (hs2 : start ≤ blcksz) :
    let r := insertPage inRecovery lsn u.recordSize u start a a page
    (∀ i, undoLogBlockHeaderSize ≤ i →
      r.1 i = (bodyOf page).write start ((u.encode.drop a).take (blcksz - start)) i) ∧
    pageIsNew r.1 = false ∧ r.2.1 = u.setPayLoadLen ∧
    r.2.2.1 = a + min (u.encode.length - a) (blcksz - start) ∧
    (r.2.2.2 = true → u.encode.length - a ≤ blcksz - start) := by
  simp only [insertPage, UndoRecord.append_eq]
  refine ⟨?_, ?_, trivial, trivial, ?_⟩
  · intro i hi
    rw [setPdUpper, write_header (by simp) hi, stamped_body hi]
    exact write_body_congr (entered_body hi)
  · apply pageIsNew_setPdUpper
    · simp only [undoLogBlockHeaderSize] at hs1
      omega
    · omega
  · intro h
    simp only [Bool.and_eq_true, decide_eq_true_eq] at h
    exact h.2

/-- From `pages` to `pages'` no page becomes new, and a page that was not new keeps its bytes behind the
    header outside the region `touched`. -/
def Keeps (touched : Nat → Nat → Nat → Prop) (pages pages' : UndoPages) : Prop :=
  ∀ z b, pageIsNew (pages z b) = false → pageIsNew (pages' z b) = false ∧
    ∀ i, undoLogBlockHeaderSize ≤ i → ¬ touched z b i → pages' z b i = pages z b i

/-- The empty region. -/
abbrev nothing : Nat → Nat → Nat → Prop := fun _ _ _ => False

lemma Keeps.refl (touched : Nat → Nat → Nat → Prop) (pages : UndoPages) : Keeps touched pages pages :=
  fun _ _ hnew => ⟨hnew, fun _ _ _ => rfl⟩

/-- Two steps keep what both keep. -/
lemma Keeps.trans {t t' : Nat → Nat → Nat → Prop} {p q r : UndoPages} (h1 : Keeps t p q)
    (h2 : Keeps t' q r) (hsub : ∀ z b i, t' z b i → t z b i) : Keeps t p r := by
  intro z b hnew
  obtain ⟨hnew', hk1⟩ := h1 z b hnew
  obtain ⟨hnew'', hk2⟩ := h2 z b hnew'
  refine ⟨hnew'', ?_⟩
  intro i hi ht
  rw [hk2 i hi (fun h => ht (hsub z b i h)), hk1 i hi ht]

@[simp]
lemma UndoPages.set_same (pages : UndoPages) (z b : Nat) (page : Mem) :
    pages.set z b page z b = page :=
  if_pos ⟨rfl, rfl⟩

/-- Replacing a page leaves the others. -/
lemma UndoPages.set_ne {b z' b' : Nat} (h : ¬ (z' = z ∧ b' = b)) :
    pages.set z b page z' b' = pages z' b' :=
  if_neg h

/-- Replacing one page by one that is not new and keeps its bytes outside the region. -/
lemma Keeps.set {touched : Nat → Nat → Nat → Prop} {b : Nat} (hnew : pageIsNew page = false)
    (hbody : ∀ i, undoLogBlockHeaderSize ≤ i → ¬ touched z b i → page i = bodyOf (pages z b) i) :
    Keeps touched pages (pages.set z b page) := by
  intro z' b' hold
  by_cases h : z' = z ∧ b' = b
  · obtain ⟨rfl, rfl⟩ := h
    rw [UndoPages.set_same]
    refine ⟨hnew, ?_⟩
    intro i hi ht
    rw [hbody i hi ht, bodyOf, hold]
    rfl
  · rw [UndoPages.set_ne h]
    exact ⟨hold, fun _ _ _ => rfl⟩

namespace UndoRecord

lemma setPayLoadLen_idem (u : UndoRecord) : u.setPayLoadLen.setPayLoadLen = u.setPayLoadLen := by
  cases h : u.has uinfoPayload with
  | false => simp [setPayLoadLen, h]
  | true =>
    have h' : ({ u with payloadlen := .ofNat u.rawdata.len } : UndoRecord).has uinfoPayload = true := h
    simp [setPayLoadLen, h, h']

lemma recordSize_setPayLoadLen (u : UndoRecord) : u.setPayLoadLen.recordSize = u.recordSize := by
  unfold setPayLoadLen
  split <;> rfl

lemma encode_setPayLoadLen (u : UndoRecord) : u.setPayLoadLen.encode = u.encode := by
  rw [encode, encode, setPayLoadLen_idem, recordSize_setPayLoadLen]

end UndoRecord

/-- Going on over further buffers after the record is complete changes no byte behind a header. -/
lemma insertPages_idle {inRecovery : Bool} {lsn a : Nat} {bs : List UndoBuffer} {u : UndoRecord}
    {pages : UndoPages} (ha : u.encode.length ≤ a) :
    Keeps nothing pages
      (insertPages inRecovery lsn u.recordSize bs u undoLogBlockHeaderSize a pages) := by
  induction bs generalizing u pages a with
  | nil => exact Keeps.refl _ _
  | cons b bs ih =>
    obtain ⟨hbody, hnew, hrec, hcount, -⟩ := @insertPage_spec inRecovery lsn u undoLogBlockHeaderSize a
      (pages b.zoneId b.blk) le_rfl (by decide)
    have hset : Keeps nothing pages (pages.set b.zoneId b.blk
        (insertPage inRecovery lsn u.recordSize u undoLogBlockHeaderSize a a
          (pages b.zoneId b.blk)).1) := by
      apply Keeps.set hnew
      intro i hi _
      rw [hbody i hi, List.drop_eq_nil_of_le ha, List.take_nil, Mem.write_nil]
    rw [insertPages]
    split
    · exact hset
    · have hle : u.setPayLoadLen.encode.length ≤
          a + min (u.encode.length - a) (blcksz - undoLogBlockHeaderSize) := by
        rw [UndoRecord.encode_setPayLoadLen]
        omega
      have hrest (q : UndoPages) := @ih _ _ q hle
      simp only [UndoRecord.recordSize_setPayLoadLen] at hrest
      rw [hrec, hcount]
      exact hset.trans (hrest _) fun _ _ _ h => h

/-- The bytes on the pages that the record of `size` bytes at place `m` is written to. -/
def Region (z m size : Nat) (z' b' i : Nat) : Prop :=
  z' = zoneAt z m ∧
    ((b' = blockAt m ∧ undoLogBlockHeaderSize + m % undoLogUsableBytesPerPage ≤ i) ∨
      (Spills m size ∧ b' = blockAt m + 1))

/-- The record at place `m` is on its pages, none of which is new. -/
structure Stored (z m : Nat) (u : UndoRecord) (pages : UndoPages) : Prop where
  bytes : UndoRecord.StoredAt pages (zoneAt z m) (blockAt m)
    (undoLogBlockHeaderSize + m % undoLogUsableBytesPerPage) u.encode
  first : pageIsNew (pages (zoneAt z m) (blockAt m)) = false
  second : Spills m u.rawSize → pageIsNew (pages (zoneAt z m) (blockAt m + 1)) = false

/-- What was laid out at byte `start` of a page is read back from every page that agrees with it behind
    the header. -/
lemma read_laid_out {body : Mem} (hs : undoLogBlockHeaderSize ≤ start)
    (h : ∀ i, undoLogBlockHeaderSize ≤ i → page i = body.write start bs i) :
    page.read start bs.length = bs := by
  rw [Mem.read_congr (fun i _ => h (start + i) (by omega)), Mem.read_write]

/-- Bytes outside the region are read as before. -/
lemma Keeps.read {touched : Nat → Nat → Nat → Prop} {b off n : Nat} (h : Keeps touched pages pages')
    (hnew : pageIsNew (pages z b) = false) (hoff : undoLogBlockHeaderSize ≤ off)
    (ht : ∀ i < n, ¬ touched z b (off + i)) : (pages' z b).read off n = (pages z b).read off n :=
  Mem.read_congr fun i hi => (h z b hnew).2 (off + i) (by omega) (ht i hi)

/-- The steps after the record is complete do not unstore it. -/
lemma Stored.keep_nothing (h : Stored z m u pages) (hk : Keeps nothing pages pages')
    (hsp : ¬ Spills m u.rawSize →
      u.encode.drop (blcksz - (undoLogBlockHeaderSize + m % undoLogUsableBytesPerPage)) = []) :
    Stored z m u pages' := by
  refine ⟨⟨?_, ?_⟩, (hk _ _ h.first).1, fun hs => (hk _ _ (h.second hs)).1⟩
  · rw [hk.read h.first (by omega) (fun _ _ hf => hf)]
    exact h.bytes.first
  · by_cases hs : Spills m u.rawSize
    · rw [hk.read (h.second hs) le_rfl (fun _ _ hf => hf)]
      exact h.bytes.second
    · rw [hsp hs]
      rfl

/-- Inserting one prepared record stores it and keeps everything outside its region. -/
lemma insertRecord_spec {inRecovery : Bool} {lsn z m k : Nat} {ub : List UndoBuffer} {u : UndoRecord}
    (pages : UndoPages) (hz : z < 2 ^ 20) (hins : u.Insertable) (hn : u.needInsert = true)
    (urp : u.urp = ptrAt z m) (idx : u.bufidx = some k)
    (first : ub[k]? = some ⟨zoneAt z m, blockAt m⟩)
    (second : Spills m u.rawSize → ub[k + 1]? = some ⟨zoneAt z m, blockAt m + 1⟩) :
    ∃ pages', insertRecord inRecovery lsn ub u pages = some pages' ∧
      Keeps (Region z m u.rawSize) pages pages' ∧ Stored z m u pages' := by
  obtain ⟨hk, hget⟩ := List.getElem?_eq_some_iff.mp first
  have hw1 : undoLogBlockHeaderSize ≤ undoLogBlockHeaderSize + m % undoLogUsableBytesPerPage := by omega
  have hw2 : undoLogBlockHeaderSize + m % undoLogUsableBytesPerPage ≤ blcksz := by
    simp only [undoLogBlockHeaderSize, undoLogUsableBytesPerPage, blcksz]
    omega
  have hroom := blcksz_sub m
  have hmod : m % undoLogUsableBytesPerPage < undoLogUsableBytesPerPage := Nat.mod_lt _ (by decide)
  have husable : blcksz - undoLogBlockHeaderSize = undoLogUsableBytesPerPage := rfl
  have hlen := hins.encode_length
  have hsize := hins.size
  have hinsert : insertRecord inRecovery lsn ub u pages =
      some (insertPages inRecovery lsn u.recordSize (⟨zoneAt z m, blockAt m⟩ :: ub.drop (k + 1)) u
        (undoLogBlockHeaderSize + m % undoLogUsableBytesPerPage) 0 pages) := by
    rw [insertRecord, hn, idx, urp, getPageOffset_ptrAt hz]
    simp only [Bool.not_true, Bool.false_eq_true, if_false, if_pos hk]
    rw [List.drop_eq_getElem_cons hk, hget]
  refine ⟨_, hinsert, ?_⟩
  obtain ⟨hbody, hnew, hrec, hcount, hstop⟩ := @insertPage_spec inRecovery lsn u _ 0
    (pages (zoneAt z m) (blockAt m)) hw1 hw2
  rw [insertPages]
  generalize hr : insertPage inRecovery lsn u.recordSize u
    (undoLogBlockHeaderSize + m % undoLogUsableBytesPerPage) 0 0 (pages (zoneAt z m) (blockAt m)) = r
    at *
  rw [List.drop_zero] at hbody
  have hset : Keeps (Region z m u.rawSize) pages (pages.set (zoneAt z m) (blockAt m) r.1) := by
    apply Keeps.set hnew
    intro i hi ht
    rw [hbody i hi, Mem.write_out]
    left
    by_contra hge
    exact ht ⟨rfl, .inl ⟨rfl, by omega⟩⟩
  have hread := read_laid_out hw1 hbody
  by_cases hsp : Spills m u.rawSize
  · -- the page ends inside the record: the rest goes to the next buffer
    have hcut : ¬ r.2.2.2 = true := fun h => absurd (hstop h) (by omega)
    obtain ⟨hk2, hget2⟩ := List.getElem?_eq_some_iff.mp (second hsp)
    have hcount' : r.2.2.1 = undoLogUsableBytesPerPage - m % undoLogUsableBytesPerPage := by omega
    obtain ⟨hbody2, hnew2, hrec2, hcount2, -⟩ := @insertPage_spec inRecovery lsn u.setPayLoadLen
      undoLogBlockHeaderSize (undoLogUsableBytesPerPage - m % undoLogUsableBytesPerPage)
      (pages (zoneAt z m) (blockAt m + 1)) le_rfl (by decide)
    rw [u.recordSize_setPayLoadLen] at hbody2 hnew2 hrec2 hcount2
    rw [if_neg hcut, List.drop_eq_getElem_cons hk2, hget2, insertPages, hrec, hcount']
    simp only [UndoPages.set_ne (show ¬ (zoneAt z m = zoneAt z m ∧ blockAt m + 1 = blockAt m) by omega)]
    generalize hr2 : insertPage inRecovery lsn u.recordSize u.setPayLoadLen undoLogBlockHeaderSize
      (undoLogUsableBytesPerPage - m % undoLogUsableBytesPerPage)
      (undoLogUsableBytesPerPage - m % undoLogUsableBytesPerPage)
      (pages (zoneAt z m) (blockAt m + 1)) = r2 at *
    rw [u.encode_setPayLoadLen] at hbody2 hcount2
    have hread2 := read_laid_out le_rfl hbody2
    rw [List.take_of_length_le (by rw [List.length_drop]; omega), ← hroom] at hread2
    have hdone : ∀ pages', Keeps nothing ((pages.set (zoneAt z m) (blockAt m) r.1).set (zoneAt z m)
          (blockAt m + 1) r2.1) pages' →
        Keeps (Region z m u.rawSize) pages pages' ∧ Stored z m u pages' := by
      intro pages' hk
      have hset2 : Keeps (Region z m u.rawSize) (pages.set (zoneAt z m) (blockAt m) r.1)
          ((pages.set (zoneAt z m) (blockAt m) r.1).set (zoneAt z m) (blockAt m + 1) r2.1) :=
        Keeps.set hnew2 fun i _ ht => absurd ⟨rfl, .inr ⟨hsp, rfl⟩⟩ ht
      have hfirst : ((pages.set (zoneAt z m) (blockAt m) r.1).set (zoneAt z m) (blockAt m + 1) r2.1)
          (zoneAt z m) (blockAt m) = r.1 := by
        rw [UndoPages.set_ne (by omega), UndoPages.set_same]
      refine ⟨(hset.trans hset2 fun _ _ _ h => h).trans hk (fun _ _ _ h => h.elim), ?_⟩
      refine Stored.keep_nothing ⟨⟨?_, ?_⟩, ?_, fun _ => ?_⟩ hk (fun hs => absurd hsp hs)
      · rw [hfirst]
        exact hread
      · rw [UndoPages.set_same]
        exact hread2
      · rw [hfirst]
        exact hnew
      · rw [UndoPages.set_same]
        exact hnew2
    split
    · exact hdone _ (Keeps.refl _ _)
    · have hle : u.setPayLoadLen.setPayLoadLen.encode.length ≤ r2.2.2.1 := by
        rw [u.setPayLoadLen_idem, u.encode_setPayLoadLen]
        omega
      have hidle (q : UndoPages) := @insertPages_idle inRecovery lsn _ (ub.drop (k + 1 + 1)) _ q hle
      simp only [u.setPayLoadLen_idem, u.recordSize_setPayLoadLen] at hidle
      rw [hrec2, u.setPayLoadLen_idem]
      exact hdone _ (hidle _)
  · -- the record ends on its first page
    have hdone : ∀ pages', Keeps nothing (pages.set (zoneAt z m) (blockAt m) r.1) pages' →
        Keeps (Region z m u.rawSize) pages pages' ∧ Stored z m u pages' := by
      intro pages' hk
      have hdrop : u.encode.drop (blcksz - (undoLogBlockHeaderSize + m % undoLogUsableBytesPerPage)) =
          [] := List.drop_eq_nil_of_le (by omega)
      refine ⟨hset.trans hk (fun _ _ _ h => h.elim), ?_⟩
      refine Stored.keep_nothing ⟨⟨?_, ?_⟩, ?_, fun hs => absurd hs hsp⟩ hk (fun _ => hdrop)
      · rw [UndoPages.set_same]
        exact hread
      · rw [hdrop]
        rfl
      · rw [UndoPages.set_same]
        exact hnew
    split
    · exact hdone _ (Keeps.refl _ _)
    · have hle : u.setPayLoadLen.encode.length ≤ r.2.2.1 := by
        rw [u.encode_setPayLoadLen]
        omega
      have hidle (q : UndoPages) := @insertPages_idle inRecovery lsn _ (ub.drop (k + 1)) _ q hle
      simp only [u.recordSize_setPayLoadLen] at hidle
      rw [hrec]
      exact hdone _ (hidle _)

/-! ## Writing the vector -/

/-- Inserting a later record leaves an earlier one stored. -/
lemma Stored.keep {n size : Nat} (h : Stored z m u pages) (hins : u.Insertable)
    (hk : Keeps (Region z n size) pages pages') (hm₀ : m₀ ≤ m) (hmn : m + u.rawSize ≤ n)
    (hn : n + size ≤ m₀ + (2 ^ 31 - 1) * undoLogUsableBytesPerPage) (h1 : 1 ≤ size) :
    Stored z m u pages' := by
  have hlen := hins.encode_length
  have hsize := hins.size
  refine ⟨⟨?_, ?_⟩, (hk _ _ h.first).1, fun hs => (hk _ _ (h.second hs)).1⟩
  · rw [hk.read h.first (by omega)]
    · exact h.bytes.first
    · rintro i hi ⟨-, ⟨hb, hge⟩ | ⟨hs, hb⟩⟩
      · rw [List.length_take] at hi
        simp only [blockAt, undoLogUsableBytesPerPage] at *
        omega
      · simp only [Spills, blockAt, undoLogUsableBytesPerPage] at *
        omega
  · by_cases hs : Spills m u.rawSize
    · rw [hk.read (h.second hs) le_rfl]
      · exact h.bytes.second
      · rintro i hi ⟨-, ⟨hb, hge⟩ | ⟨hs', hb⟩⟩
        · rw [List.length_drop] at hi
          simp only [Spills, blockAt, undoLogUsableBytesPerPage, blcksz, undoLogBlockHeaderSize] at *
          omega
        · simp only [Spills, blockAt, undoLogUsableBytesPerPage] at *
          omega
    · have hdrop : u.encode.drop (blcksz - (undoLogBlockHeaderSize + m % undoLogUsableBytesPerPage)) =
          [] := by
        apply List.drop_eq_nil_of_le
        simp only [Spills, undoLogUsableBytesPerPage, blcksz, undoLogBlockHeaderSize] at *
        omega
      rw [hdrop]
      rfl

/-- The records to be inserted, from place `m` on, are stored one after the other. -/
def StoredFrom (z : Nat) (pages : UndoPages) : Nat → List UndoRecord → Prop
  | _, [] => True
  | m, u :: us =>
    if u.needInsert then
      u.urp = ptrAt z m ∧ Stored z m u pages ∧ StoredFrom z pages (m + u.rawSize) us
    else StoredFrom z pages m us

/-- Each record of a stored sequence is stored at its pointer. -/
lemma StoredFrom.mem (h : StoredFrom z pages m us) (hu : u ∈ us) (hn : u.needInsert = true) :
    ∃ n, u.urp = ptrAt z n ∧ Stored z n u pages := by
  induction us generalizing m with
  | nil => cases hu
  | cons v us ih =>
    rw [StoredFrom] at h
    by_cases hv : v.needInsert = true
    · rw [if_pos hv] at h
      rcases List.mem_cons.mp hu with rfl | hu
      · exact ⟨m, h.1, h.2.1⟩
      · exact ih h.2.2 hu
    · rw [if_neg hv] at h
      rcases List.mem_cons.mp hu with rfl | hu
      · exact absurd hn hv
      · exact ih h hu

/-- Inserting a prepared vector stores each of its records and unstores none before it. -/
lemma insertPreparedUndo_spec {inRecovery : Bool} {lsn z m₀ m : Nat} {ub : List UndoBuffer}
    {us : List UndoRecord} (h : Prepared z ub m us) (hz : z < 2 ^ 20)
    (hins : ∀ u ∈ us, u.needInsert = true → u.Insertable) (hm₀ : m₀ ≤ m)
    (hm : m + insertSize us ≤ m₀ + (2 ^ 31 - 1) * undoLogUsableBytesPerPage) (pages : UndoPages) :
    ∃ pages', insertPreparedUndo inRecovery lsn ub us pages = some pages' ∧
      (∀ n v, m₀ ≤ n → n + v.rawSize ≤ m → v.Insertable → Stored z n v pages → Stored z n v pages') ∧
      StoredFrom z pages' m us := by
  induction h generalizing pages with
  | nil => exact ⟨pages, rfl, fun _ _ _ _ _ hs => hs, trivial⟩
  | @skip m u us hn _ ih =>
    have hsum := insertSize_skip us (Bool.eq_false_iff.mp hn)
    rw [hsum] at hm
    obtain ⟨pages', hrun, hkeep, hall⟩ :=
      ih (fun v hv => hins v (List.mem_cons_of_mem _ hv)) hm₀ hm pages
    refine ⟨pages', ?_, hkeep, ?_⟩
    · rw [insertPreparedUndo, insertRecord, hn]
      exact hrun
    · rw [StoredFrom, if_neg (by simp [hn])]
      exact hall
  | @cons m k u us hn urp idx first second _ ih =>
    have hsum := insertSize_cons us hn
    rw [hsum] at hm
    have hu := hins u List.mem_cons_self hn
    obtain ⟨pages₁, hrun₁, hkeep₁, hstored₁⟩ :=
      @insertRecord_spec inRecovery lsn _ _ _ _ _ pages hz hu hn urp idx first second
    obtain ⟨pages', hrun, hkeep, hall⟩ :=
      ih (fun v hv => hins v (List.mem_cons_of_mem _ hv)) (by omega) (by omega) pages₁
    refine ⟨pages', ?_, ?_, ?_⟩
    · rw [insertPreparedUndo, hrun₁]
      exact hrun
    · intro n v hn₀ hnv hv hst
      apply hkeep n v hn₀ (by omega) hv
      exact hst.keep hv hkeep₁ hn₀ hnv (by omega) u.rawSize_pos
    · rw [StoredFrom, if_pos hn]
      exact ⟨urp, hkeep m u hm₀ le_rfl hu hstored₁, hall⟩

/-- The size of a vector is bounded by its length. -/
lemma insertSize_le (hw : Writable us) : insertSize us ≤ us.length * undoLogUsableBytesPerPage := by
  induction us with
  | nil => simp [insertSize]
  | cons u us ih =>
    have hrest := ih fun v hv => hw v (List.mem_cons_of_mem _ hv)
    by_cases hn : u.needInsert = true
    · have hu := (hw u List.mem_cons_self hn).1.size
      have hsum := insertSize_cons us hn
      rw [hsum, List.length_cons, Nat.succ_mul]
      omega
    · have hsum := insertSize_skip us hn
      rw [hsum, List.length_cons, Nat.succ_mul]
      exact hrest.trans (Nat.le_add_right _ _)

/-- The part of a vector up to some record is not larger than the vector. -/
lemma insertSize_take_le (us : List UndoRecord) (n : Nat) : insertSize (us.take n) ≤ insertSize us := by
  have hsplit : insertSize us = insertSize (us.take n) + insertSize (us.drop n) := by
    simp only [insertSize, ← List.sum_append, ← List.map_append, ← List.filter_append,
      List.take_append_drop]
  omega

/-- Preparing moves neither sizes nor what can be inserted. -/
lemma SameRecord.insertable {u' : UndoRecord} (h : SameRecord u u') :
    u'.rawSize = u.rawSize ∧ u'.needInsert = u.needInsert ∧ (u.Insertable → u'.Insertable) := by
  obtain ⟨_, _, rfl⟩ := h
  exact ⟨rfl, rfl, fun hi => ⟨hi.data, hi.size⟩⟩

/-- Preparing keeps the vector's size. -/
lemma insertSize_same {us' : List UndoRecord} (h : List.Forall₂ SameRecord us us') :
    insertSize us' = insertSize us := by
  induction h with
  | nil => rfl
  | @cons u u' us us' hu _ ih =>
    obtain ⟨hs, hn, -⟩ := hu.insertable
    simp only [insertSize] at ih ⊢
    rw [List.filter_cons, List.filter_cons, hn]
    split
    · simp only [List.map_cons, List.sum_cons, hs, ih]
    · exact ih

/-- Preparing keeps the records writable. -/
lemma insertable_same {us' : List UndoRecord} (h : List.Forall₂ SameRecord us us') (hw : Writable us) :
    ∀ u ∈ us', u.needInsert = true → u.Insertable := by
  induction h with
  | nil => simp
  | @cons u u' us us' hu _ ih =>
    obtain ⟨-, hn, hi⟩ := hu.insertable
    intro v hv hvn
    rcases List.mem_cons.mp hv with rfl | hv
    · exact hi (hw u List.mem_cons_self (hn ▸ hvn)).1
    · exact ih (fun w hw' => hw w (List.mem_cons_of_mem _ hw')) v hv hvn

/-- Preparing and inserting a vector: the records are stored one after the other from the start pointer
    on, after every step of the insertion. -/
lemma prepare_insert_spec {needSwitch : Bool} {undoPtr : Nat} {urecs : List UndoRecord}
    (hptr : undoPtr < 2 ^ 64) (hoff : undoLogBlockHeaderSize ≤ undoPtrGetPageOffset undoPtr)
    (hcount : urecs.length < 2 ^ 31) (hw : Writable (flagRecords needSwitch urecs)) :
    let z := undoPtrGetZoneId undoPtr
    let m₀ := usableNo (undoPtrGetOffset undoPtr)
    ∃ recs ubuffers, prepareUndoRecord needSwitch false undoPtr urecs =
        some (recs, ubuffers, ptrAt z (m₀ + insertSize recs)) ∧
      List.Forall₂ SameRecord (flagRecords needSwitch urecs) recs ∧
      (∀ u ∈ recs, u.needInsert = true → u.Insertable) ∧
      ∀ inRecovery lsn n pages, ∃ pages',
        insertPreparedUndo inRecovery lsn ubuffers (recs.take n) pages = some pages' ∧
        StoredFrom z pages' m₀ (recs.take n) := by
  intro z m₀
  have hz : z < 2 ^ 20 := getZoneId_lt hptr
  have hstart : ptrAt z m₀ = undoPtr := ptrAt_usableNo hptr hoff
  have hm₀ : m₀ < zoneUsableBytes := usableNo_lt (getOffset_lt _)
  have hlen : (flagRecords needSwitch urecs).length = urecs.length := by
    cases urecs with
    | nil => rfl
    | cons u us => simp [flagRecords]
  have hsize := insertSize_le hw
  rw [hlen] at hsize
  have hmul : urecs.length * undoLogUsableBytesPerPage ≤
      (2 ^ 31 - 1) * undoLogUsableBytesPerPage := Nat.mul_le_mul_right _ (by omega)
  have hinv : BufInv z m₀ [] m₀ := ⟨by simp, by simp⟩
  obtain ⟨recs, ub, hprep, -, hplaced, hsame⟩ :=
    prepareLoop_spec hz hm₀ hw hinv le_rfl (by omega)
  have hins := insertable_same hsame hw
  rw [hstart, ← insertSize_same hsame] at hprep
  refine ⟨recs, ub, hprep, hsame, hins, ?_⟩
  intro inRecovery lsn n pages
  have htake := insertSize_take_le recs n
  rw [insertSize_same hsame] at htake
  obtain ⟨pages', hrun, -, hall⟩ := @insertPreparedUndo_spec inRecovery lsn _ _ _ _ _
    (hplaced.take n) hz (fun u hu => hins u (List.mem_of_mem_take hu)) le_rfl (by omega) pages
  exact ⟨pages', hrun, hall⟩

/-- A vector of undo records is written and read back. `PrepareUndoRecord` succeeds from every pointer
    past a page header and gives each record a pointer. Whichever pages the buffers held, after
    `InsertPreparedUndo` has inserted the first `n` records (all of them, when `n` is the length of the
    vector) `UndoRecord::Load` at the pointer of each of these gives the fields its flags select and its
    payload, so that none is altered by a later one; and no `Append` writes into a page header. -/
theorem load_insertPreparedUndo (needSwitch inRecovery : Bool) (lsn undoPtr : Nat)
    (urecs : List UndoRecord) (pages : UndoPages) (hptr : undoPtr < 2 ^ 64)
    (hoff : undoLogBlockHeaderSize ≤ undoPtrGetPageOffset undoPtr) (hcount : urecs.length < 2 ^ 31)
    (hw : Writable (flagRecords needSwitch urecs)) :
    ∃ recs ubuffers endPtr,
      prepareUndoRecord needSwitch false undoPtr urecs = some (recs, ubuffers, endPtr) ∧
      List.Forall₂ SameRecord (flagRecords needSwitch urecs) recs ∧
      (∀ n, ∃ pages', insertPreparedUndo inRecovery lsn ubuffers (recs.take n) pages = some pages' ∧
        ∀ u ∈ recs.take n, u.needInsert = true → ∀ keepBuffer, ∃ copied,
          (UndoRecord.reset u.urp).load pages' keepBuffer =
            some (u.setPayLoadLen.restored copied)) ∧
      ∀ u ∈ recs, u.needInsert = true →
        ∀ start ∈ [undoPtrGetPageOffset u.urp, undoLogBlockHeaderSize],
        ∀ page alreadyWritten undoLen i, i < undoLogBlockHeaderSize →
          (u.append page start alreadyWritten undoLen).2.1 i = page i := by
  have hz := getZoneId_lt hptr
  obtain ⟨recs, ub, hprep, hsame, hins, hrun⟩ := prepare_insert_spec hptr hoff hcount hw
  refine ⟨recs, ub, _, hprep, hsame, ?_, ?_⟩
  · intro n
    obtain ⟨pages', hinsert, hall⟩ := hrun inRecovery lsn n pages
    refine ⟨pages', hinsert, ?_⟩
    intro u hu hn keepBuffer
    obtain ⟨m, hurp, hst⟩ := hall.mem hu hn
    apply (hins u (List.mem_of_mem_take hu) hn).load_encode
    rw [hurp, getZoneId_ptrAt hz, getBlockNum_ptrAt hz, getPageOffset_ptrAt hz]
    exact hst.bytes
  · intro u hu hn start hstart page a undoLen i hi
    have hge : undoLogBlockHeaderSize ≤ start := by
      obtain ⟨_, -, hall⟩ := hrun inRecovery lsn recs.length pages
      rw [List.take_length] at hall
      obtain ⟨m, hurp, -⟩ := hall.mem hu hn
      rw [hurp, getPageOffset_ptrAt hz] at hstart
      rcases List.mem_cons.mp hstart with rfl | h
      · omega
      · rw [List.mem_singleton.mp h]
    exact UndoRecord.append_outside (.inl (by omega))

/-- A record with a payload of three bytes in a partitioned table. -/
def sampleRecord : UndoRecord :=
  { UndoRecord.reset 0 with
    whdr := ⟨1000, 1, 16384, 16390, 2, uinfoPayload⟩
    wblk := ⟨0, 7, 3⟩
    partitionoid := 16400
    rawdata := ⟨some [10, 20, 30], 3⟩
    needInsert := true }

lemma sampleRecords_writable : Writable (flagRecords false [sampleRecord, sampleRecord]) := by
  intro u hu _
  have hu' : u = undoRecordSetUInfo sampleRecord := by
    simpa [flagRecords] using hu
  subst hu'
  exact ⟨⟨fun _ => by decide, by decide⟩, by decide⟩

/-- Two such records from ten bytes before the end of a page on: the first one is cut inside its
    header. -/
theorem load_insertPreparedUndo_cut :
    undoLogBlockHeaderSize ≤ undoPtrGetPageOffset 8182 ∧
      ∃ recs ubuffers endPtr,
        prepareUndoRecord false false 8182 [sampleRecord, sampleRecord] =
          some (recs, ubuffers, endPtr) ∧
        ∃ pages', insertPreparedUndo false 0 ubuffers (recs.take 2) (fun _ _ _ => 0) = some pages' ∧
          ∀ u ∈ recs.take 2, u.needInsert = true → ∃ copied,
            (UndoRecord.reset u.urp).load pages' false = some (u.setPayLoadLen.restored copied) := by
  have hoff : undoLogBlockHeaderSize ≤ undoPtrGetPageOffset 8182 := by decide
  obtain ⟨recs, ub, e, hprep, -, hload, -⟩ := load_insertPreparedUndo false false 0 8182
    [sampleRecord, sampleRecord] (fun _ _ _ => 0) (by norm_num) hoff (by decide)
    sampleRecords_writable
  obtain ⟨pages', hrun, hall⟩ := hload 2
  exact ⟨hoff, recs, ub, e, hprep, pages', hrun, fun u hu hn => hall u hu hn false⟩

end GaussKernel.Undo
