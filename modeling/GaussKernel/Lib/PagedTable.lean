import GaussKernel.Lib.Bytes

/-!
# Checksummed tables in pages

A table of fixed-size entries kept in a file: `perPage` entries to a page, a checksum right after the last
entry of each page, pages written `pagesPerWrite` at a time and read `pagesPerRead` at a time. The last page
is not full. A batch of pages is written when one of its entries is dirty; how many bytes of the batch are
written is a parameter, and `checkPoint_written` and `checkPoint_kept` say what becomes of each page for any
choice of it. `recover_eq` says what reading back reads, and `recover_spec` that it succeeds when every page
has a valid checksum.
-/

namespace GaussKernel.Lib

/-! ## Files -/

/-- A file: its bytes and its length. -/
structure File where
  bytes : Mem
  size : Nat

namespace File

/-- Write at a position, extending the file if needed. -/
def write (f : File) (pos : Nat) (bs : List UInt8) : File where
  bytes := f.bytes.write pos bs
  size := max f.size (pos + bs.length)

/-- Read at a position; `none` when the file ends before. -/
def read (f : File) (pos n : Nat) : Option (List UInt8) :=
  if pos + n ≤ f.size then some (f.bytes.read pos n) else none

end File

namespace Mem

/-- Part of a copied block. -/
lemma write_read_at {m buf : Mem} {off n i : Nat} (h : i < n) :
    m.write off (buf.read 0 n) (off + i) = buf i := by
  rw [write_in (by omega) (by simpa using h), Nat.add_sub_cancel_left, read_getD h, Nat.zero_add]

/-- Reads of two memories at two places agree when the bytes do. -/
lemma read_shift {m m' : Mem} {o o' n : Nat} (h : ∀ i < n, m (o + i) = m' (o' + i)) :
    m.read o n = m'.read o' n := by
  apply List.map_congr_left
  intro i hi
  exact h i (List.mem_range.mp hi)

end Mem

/-! ## Tables -/

/-- The layout of a table. -/
structure PagedTable where
  entrySize : Nat
  perPage : Nat
  pageSize : Nat
  pagesPerWrite : Nat
  pagesPerRead : Nat
  count : Nat
  base : Nat
  checkSize : Nat
  check : List UInt8 → List UInt8
  perPage_pos : 0 < perPage
  pagesPerWrite_pos : 0 < pagesPerWrite
  pagesPerRead_pos : 0 < pagesPerRead
  check_length : ∀ bs, (check bs).length = checkSize
  fits : perPage * entrySize + checkSize ≤ pageSize
  last_short : count % perPage ≠ 0

namespace PagedTable

variable (T : PagedTable)

/-- Entries of a full write. -/
def perWrite : Nat := T.perPage * T.pagesPerWrite

/-- Entries of a full read. -/
def perRead : Nat := T.perPage * T.pagesPerRead

/-- Bytes of a full write. -/
def writeBytes : Nat := T.pagesPerWrite * T.pageSize

/-- Offset of the page of entry `c` in the write buffer. -/
def pageOffset (c : Nat) : Nat :=
  c % T.perWrite / T.perPage * T.pageSize

/-- Offset of entry `c` in the write buffer. -/
def entryOffset (c : Nat) : Nat :=
  T.pageOffset c + c % T.perPage * T.entrySize

/-- Bytes under the checksum of the page that entry `c` completes. -/
def checkedSize (c : Nat) : Nat :=
  if c = T.count - 1 then T.count % T.perPage * T.entrySize else T.perPage * T.entrySize

/-- Put entry `c` into the write buffer, and the checksum behind the last entry of a page. -/
def fillEntry (img : Nat → List UInt8) (buf : Mem) (c : Nat) : Mem :=
  let buf := buf.write (T.entryOffset c) (img c)
  if (c + 1) % T.perPage = 0 ∨ c = T.count - 1 then
    buf.write (T.pageOffset c + T.checkedSize c)
      (T.check (buf.read (T.pageOffset c) (T.checkedSize c)))
  else
    buf

/-- First entry of batch `k`. -/
def batchStart (k : Nat) : Nat := k * T.perWrite

/-- Entries of batch `k`. -/
def batchLength (k : Nat) : Nat := min T.perWrite (T.count - T.batchStart k)

/-- The write buffer of batch `k`, filled entry by entry. -/
def fillBatch (img : Nat → List UInt8) (k : Nat) : Mem :=
  (List.range (T.batchLength k)).foldl (fun buf n => T.fillEntry img buf (T.batchStart k + n))
    fun _ => 0

/-- Write the first `writeSize` bytes of batch `k`. -/
def flushBatch (writeSize : Nat → Nat) (img : Nat → List UInt8) (f : File) (k : Nat) : File :=
  f.write (T.base + k * T.writeBytes)
    ((T.fillBatch img k).read 0 (writeSize (T.batchStart k)))

/-- Whether batch `k` has a dirty entry. -/
def batchDirty (dirty : Nat → Bool) (k : Nat) : Bool :=
  (List.range (T.batchLength k)).any fun n => dirty (T.batchStart k + n)

/-- Number of batches. -/
def batches : Nat := (T.count + T.perWrite - 1) / T.perWrite

/-- Write every batch with a dirty entry. -/
def checkPoint (writeSize : Nat → Nat) (dirty : Nat → Bool) (img : Nat → List UInt8) (f : File) :
    File :=
  (List.range T.batches).foldl
    (fun f k => if T.batchDirty dirty k then T.flushBatch writeSize img f k else f) f

/-! ## Reading back -/

/-- Bytes read at entry `i`, the first of a read. -/
def readSize (i : Nat) : Nat :=
  if T.count - i < T.perRead then
    ((T.count - i) / T.perPage + 1) * T.pageSize
  else
    T.pagesPerRead * T.pageSize

/-- Entries of page `p`. -/
def pageEntries (p : Nat) : Nat :=
  min T.perPage (T.count - p * T.perPage)

/-- Whether the page at offset `off` with `n` entries carries the checksum of its entries. -/
def checkValid (m : Mem) (off n : Nat) : Bool :=
  m.read (off + n * T.entrySize) T.checkSize = T.check (m.read off (n * T.entrySize))

/-- What the reading loop carries: the file position, the block read last, and the caller's state. -/
structure Reader (σ : Type) where
  pos : Nat
  block : Mem
  state : σ

/-- A new block is read at the first entry of a read. -/
def refill {σ : Type} (f : File) (r : Reader σ) (i : Nat) : Option (Reader σ) :=
  if i % T.perRead = 0 then
    (f.read r.pos (T.readSize i)).map fun bs =>
      { r with pos := r.pos + T.readSize i, block := Mem.write (fun _ => 0) 0 bs }
  else
    some r

/-- Read entry `i`; the checksum is tested at the first entry of a page. -/
def recoverStep {σ : Type} (f : File) (onEntry : Nat → List UInt8 → σ → σ) (r : Reader σ) (i : Nat) :
    Option (Reader σ) :=
  (T.refill f r i).bind fun r =>
    let off := i % T.perRead / T.perPage * T.pageSize
    if i % T.perPage = 0 ∧ T.checkValid r.block off (min T.perPage (T.count - i)) = false then
      none
    else
      some { r with
        state := onEntry i (r.block.read (off + i % T.perPage * T.entrySize) T.entrySize) r.state }

/-- Read the whole table. -/
def recover {σ : Type} (f : File) (onEntry : Nat → List UInt8 → σ → σ) (s : σ) : Option σ :=
  ((List.range T.count).foldlM (T.recoverStep f onEntry) ⟨T.base, fun _ => 0, s⟩).map
    Reader.state

/-! ## Places in the write buffer -/

section

variable {T : PagedTable}

lemma perWrite_pos : 0 < T.perWrite :=
  Nat.mul_pos T.perPage_pos T.pagesPerWrite_pos

/-- Offset of the `n`-th entry of a batch. -/
def slot (T : PagedTable) (n : Nat) : Nat :=
  n / T.perPage * T.pageSize + n % T.perPage * T.entrySize

/-- Entry `n` of batch `k` lies on the batch's page `n / perPage`. -/
lemma batch_entry (k n : Nat) :
    T.batchStart k + n =
      (k * T.pagesPerWrite + n / T.perPage) * T.perPage + n % T.perPage := by
  have hdiv := Nat.div_add_mod' n T.perPage
  calc T.batchStart k + n = k * (T.perPage * T.pagesPerWrite) + (n / T.perPage * T.perPage + n % T.perPage) := by
        rw [hdiv]
        rfl
    _ = _ := by ring

lemma batch_entry_mod (k n : Nat) : (T.batchStart k + n) % T.perPage = n % T.perPage := by
  rw [batch_entry, Nat.mul_add_mod', Nat.mod_mod]

variable {k i : Nat}

lemma pageOffset_batch {n : Nat} (h : n < T.perWrite) :
    T.pageOffset (T.batchStart k + n) = n / T.perPage * T.pageSize := by
  rw [pageOffset, batchStart, Nat.mul_add_mod', Nat.mod_eq_of_lt h]

lemma entryOffset_batch {n : Nat} (h : n < T.perWrite) : T.entryOffset (T.batchStart k + n) = T.slot n := by
  rw [entryOffset, pageOffset_batch h, batch_entry_mod, slot]

/-- The first `r + 1` entries of a page end before the next page starts. -/
lemma entries_le_page {r : Nat} (h : r ≤ T.perPage) :
    r * T.entrySize + T.checkSize ≤ T.pageSize := by
  have hmul : r * T.entrySize ≤ T.perPage * T.entrySize := Nat.mul_le_mul_right _ h
  have hfits := T.fits
  omega

/-- Entries are placed in order. -/
lemma slot_add_le {j : Nat} (h : i < j) : T.slot i + T.entrySize ≤ T.slot j := by
  have hi := Nat.div_add_mod' i T.perPage
  have hj := Nat.div_add_mod' j T.perPage
  have hri := Nat.mod_lt i T.perPage_pos
  have hrj := Nat.mod_lt j T.perPage_pos
  have hsucc : (i % T.perPage + 1) * T.entrySize = i % T.perPage * T.entrySize + T.entrySize :=
    Nat.succ_mul ..
  have hpage := T.entries_le_page (Nat.succ_le_of_lt hri)
  rw [Nat.succ_eq_add_one, hsucc] at hpage
  rw [slot, slot]
  rcases Nat.lt_or_ge (i / T.perPage) (j / T.perPage) with hlt | hge
  · have hnext : (i / T.perPage + 1) * T.pageSize ≤ j / T.perPage * T.pageSize :=
      Nat.mul_le_mul_right _ hlt
    rw [Nat.succ_mul] at hnext
    omega
  · have hq : i / T.perPage = j / T.perPage :=
      le_antisymm (Nat.div_le_div_right h.le) hge
    rw [hq] at hi ⊢
    have hr : (i % T.perPage + 1) * T.entrySize ≤ j % T.perPage * T.entrySize :=
      Nat.mul_le_mul_right _ (by omega)
    omega

/-- A page before the page of entry `n` ends before that entry. -/
lemma page_le_slot {q n : Nat} (h : q < n / T.perPage) : q * T.pageSize + T.pageSize ≤ T.slot n := by
  have hnext : (q + 1) * T.pageSize ≤ n / T.perPage * T.pageSize := Nat.mul_le_mul_right _ h
  rw [Nat.succ_mul] at hnext
  rw [slot]
  omega

lemma checkValid_congr {m m' : Mem} {o o' n : Nat}
    (h : ∀ i < n * T.entrySize + T.checkSize, m (o + i) = m' (o' + i)) :
    T.checkValid m o n = T.checkValid m' o' n := by
  have hcheck : m.read (o + n * T.entrySize) T.checkSize = m'.read (o' + n * T.entrySize) T.checkSize := by
    apply Mem.read_shift
    intro i hi
    rw [Nat.add_assoc, Nat.add_assoc]
    exact h _ (by omega)
  have hentries : m.read o (n * T.entrySize) = m'.read o' (n * T.entrySize) := by
    apply Mem.read_shift
    intro i hi
    exact h i (by omega)
  rw [checkValid, checkValid, hcheck, hentries]

/-! ## Filling a batch -/

/-- Entries of the batch's page `q`. -/
def entriesOn (T : PagedTable) (k q : Nat) : Nat :=
  T.pageEntries (k * T.pagesPerWrite + q)

/-- The write buffer of batch `k` after `n` entries. -/
structure Filled (T : PagedTable) (img : Nat → List UInt8) (k n : Nat) (buf : Mem) : Prop where
  entry : ∀ j < n, buf.read (T.slot j) T.entrySize = img (T.batchStart k + j)
  checked : ∀ q, 0 < T.entriesOn k q → q * T.perPage + T.entriesOn k q ≤ n →
    T.checkValid buf (q * T.pageSize) (T.entriesOn k q) = true

section

variable {n : Nat} (h : T.batchStart k + n < T.count)
include h

/-- An entry of the batch is one of the entries of its page. -/
lemma mod_lt_entriesOn : n % T.perPage < T.entriesOn k (n / T.perPage) := by
  have hr := Nat.mod_lt n T.perPage_pos
  have hc := T.batch_entry k n
  rw [entriesOn, pageEntries]
  omega

/-- The test for the last entry of a page. -/
lemma page_end_iff : ((T.batchStart k + n + 1) % T.perPage = 0 ∨ T.batchStart k + n = T.count - 1) ↔
      n % T.perPage + 1 = T.entriesOn k (n / T.perPage) := by
  have hr := Nat.mod_lt n T.perPage_pos
  have hc := T.batch_entry k n
  have hmod : (T.batchStart k + n + 1) % T.perPage = (n % T.perPage + 1) % T.perPage := by
    rw [Nat.add_mod, batch_entry_mod, ← Nat.add_mod, Nat.mod_add_mod]
  rw [entriesOn, pageEntries, hmod]
  rcases Nat.lt_or_ge (n % T.perPage + 1) T.perPage with hlt | hge
  · rw [Nat.mod_eq_of_lt hlt]
    omega
  · have heq : n % T.perPage + 1 = T.perPage := by omega
    rw [heq, Nat.mod_self]
    omega

/-- What the checksum covers is the entries of the page. -/
lemma checkedSize_batch (hend : n % T.perPage + 1 = T.entriesOn k (n / T.perPage)) :
    T.checkedSize (T.batchStart k + n) = T.entriesOn k (n / T.perPage) * T.entrySize := by
  have hr := Nat.mod_lt n T.perPage_pos
  have hc := T.batch_entry k n
  have hshort := T.last_short
  rw [checkedSize]
  split
  · rename_i hlast
    have hcount : T.count =
        (k * T.pagesPerWrite + n / T.perPage) * T.perPage + (n % T.perPage + 1) := by
      omega
    have hne : n % T.perPage + 1 ≠ T.perPage := by
      intro heq
      rw [hcount, heq, Nat.mul_add_mod', Nat.mod_self] at hshort
      exact hshort rfl
    have hmod : T.count % T.perPage = n % T.perPage + 1 := by
      rw [hcount, Nat.mul_add_mod', Nat.mod_eq_of_lt (by omega)]
    rw [hmod, hend]
  · rename_i hlast
    have hfull : T.entriesOn k (n / T.perPage) = T.perPage := by
      rw [entriesOn, pageEntries] at hend ⊢
      omega
    rw [hfull]

/-- A page is complete after `n + 1` entries when it was before, or when entry `n` is its last. -/
lemma complete_succ {q : Nat} (hpos : 0 < T.entriesOn k q) (hle : q * T.perPage + T.entriesOn k q ≤ n + 1) :
    q < n / T.perPage ∧ q * T.perPage + T.entriesOn k q ≤ n ∨
      q = n / T.perPage ∧ n % T.perPage + 1 = T.entriesOn k q := by
  have hn := Nat.div_add_mod' n T.perPage
  have hr := Nat.mod_lt n T.perPage_pos
  rcases Nat.lt_trichotomy q (n / T.perPage) with hlt | heq | hgt
  · refine .inl ⟨hlt, ?_⟩
    have hmul : (q + 1) * T.perPage ≤ n / T.perPage * T.perPage := Nat.mul_le_mul_right _ hlt
    have hcap : T.entriesOn k q ≤ T.perPage := Nat.min_le_left _ _
    rw [Nat.succ_mul] at hmul
    omega
  · refine .inr ⟨heq, ?_⟩
    have hin := T.mod_lt_entriesOn h
    rw [← heq] at hn hin
    omega
  · have hmul : (n / T.perPage + 1) * T.perPage ≤ q * T.perPage := Nat.mul_le_mul_right _ hgt
    rw [Nat.succ_mul] at hmul
    omega

end

/-- Writing entry `n` leaves the entries and complete pages before it. -/
lemma Filled.write_entry {img : Nat → List UInt8} (himg : ∀ c, (img c).length = T.entrySize) {n : Nat}
    {buf : Mem} (hf : T.Filled img k n buf) (h : T.batchStart k + n < T.count) :
    (∀ j < n + 1, (buf.write (T.slot n) (img (T.batchStart k + n))).read (T.slot j) T.entrySize =
        img (T.batchStart k + j)) ∧
      ∀ q < n / T.perPage, 0 < T.entriesOn k q → q * T.perPage + T.entriesOn k q ≤ n →
        T.checkValid (buf.write (T.slot n) (img (T.batchStart k + n))) (q * T.pageSize)
          (T.entriesOn k q) = true := by
  constructor
  · intro j hj
    rcases Nat.lt_succ_iff_lt_or_eq.mp hj with hlt | rfl
    · rw [Mem.read_write_out (.inl (T.slot_add_le hlt)), hf.entry j hlt]
    · have hread := Mem.read_write buf (T.slot j) (img (T.batchStart k + j))
      rwa [himg] at hread
  · intro q hq hpos hle
    rw [← hf.checked q hpos hle]
    apply checkValid_congr
    intro i hi
    have hpage := T.entries_le_page (Nat.min_le_left T.perPage (T.count - (k * T.pagesPerWrite + q) * T.perPage))
    have hbelow := T.page_le_slot hq
    rw [entriesOn, pageEntries] at hi
    exact Mem.write_out (.inl (by omega))

/-- One more entry. -/
lemma Filled.step {img : Nat → List UInt8} (himg : ∀ c, (img c).length = T.entrySize) {k n : Nat}
    {buf : Mem} (hf : T.Filled img k n buf) (hn : n < T.batchLength k) :
    T.Filled img k (n + 1) (T.fillEntry img buf (T.batchStart k + n)) := by
  have hw : n < T.perWrite := lt_of_lt_of_le hn (Nat.min_le_left _ _)
  have hc : T.batchStart k + n < T.count := by
    have hright := lt_of_lt_of_le hn (Nat.min_le_right T.perWrite (T.count - T.batchStart k))
    omega
  obtain ⟨hentry, hchecked⟩ := hf.write_entry himg hc
  rw [fillEntry, T.entryOffset_batch hw, T.pageOffset_batch hw]
  simp only [T.page_end_iff hc]
  by_cases hend : n % T.perPage + 1 = T.entriesOn k (n / T.perPage)
  · rw [if_pos hend, T.checkedSize_batch hc hend, ← hend]
    -- the checksum is written behind everything that is in place
    have hplace : T.slot n + T.entrySize =
        n / T.perPage * T.pageSize + (n % T.perPage + 1) * T.entrySize := by
      rw [slot, Nat.succ_mul]
      omega
    constructor
    · intro j hj
      rw [Mem.read_write_out, hentry j hj]
      left
      rcases Nat.lt_succ_iff_lt_or_eq.mp hj with hlt | rfl
      · have hle := T.slot_add_le hlt
        omega
      · omega
    · intro q hpos hle
      rcases T.complete_succ hc hpos hle with ⟨hq, hbefore⟩ | ⟨rfl, -⟩
      · rw [← hchecked q hq hpos hbefore]
        apply checkValid_congr
        intro i hi
        have hpage := T.entries_le_page
          (Nat.min_le_left T.perPage (T.count - (k * T.pagesPerWrite + q) * T.perPage))
        have hbelow := T.page_le_slot hq
        rw [entriesOn, pageEntries] at hi
        exact Mem.write_out (.inl (by omega))
      · rw [checkValid, ← hend]
        rw [Mem.read_write_out (.inl le_rfl)]
        have hread := Mem.read_write (buf.write (T.slot n) (img (T.batchStart k + n)))
          (n / T.perPage * T.pageSize + (n % T.perPage + 1) * T.entrySize)
          (T.check ((buf.write (T.slot n) (img (T.batchStart k + n))).read
            (n / T.perPage * T.pageSize) ((n % T.perPage + 1) * T.entrySize)))
        rw [T.check_length] at hread
        exact decide_eq_true hread
  · rw [if_neg hend]
    refine ⟨hentry, fun q hpos hle => ?_⟩
    rcases T.complete_succ hc hpos hle with ⟨hq, hbefore⟩ | ⟨rfl, hlast⟩
    · exact hchecked q hq hpos hbefore
    · exact absurd hlast hend

/-- The filled buffer of a batch. -/
lemma filled_fillBatch {img : Nat → List UInt8} (himg : ∀ c, (img c).length = T.entrySize) (k : Nat) :
    T.Filled img k (T.batchLength k) (T.fillBatch img k) := by
  have hrun : ∀ n ≤ T.batchLength k, T.Filled img k n
      ((List.range n).foldl (fun buf n => T.fillEntry img buf (T.batchStart k + n)) fun _ => 0) := by
    intro n hn
    induction n with
    | zero =>
      refine ⟨fun j hj => absurd hj (Nat.not_lt_zero j), fun q hpos hle => ?_⟩
      omega
    | succ n ih =>
      rw [List.range_succ, List.foldl_append]
      exact (ih (by omega)).step himg hn
  exact hrun _ le_rfl

/-! ## Pages in the file -/

/-- A page at offset `off` holds the images of the entries of page `p`, under a valid checksum. -/
structure PageHolds (T : PagedTable) (img : Nat → List UInt8) (m : Mem) (off p : Nat) : Prop where
  entry : ∀ j < T.pageEntries p, m.read (off + j * T.entrySize) T.entrySize = img (p * T.perPage + j)
  valid : T.checkValid m off (T.pageEntries p) = true

/-- Position of page `p` in the file. -/
def pagePos (T : PagedTable) (p : Nat) : Nat :=
  T.base + p * T.pageSize

lemma pageEntries_le (p : Nat) : T.pageEntries p ≤ T.perPage :=
  Nat.min_le_left _ _

lemma PageHolds.congr {img : Nat → List UInt8} {m m' : Mem} {off off' p : Nat}
    (h : T.PageHolds img m off p) (heq : ∀ i < T.pageSize, m' (off' + i) = m (off + i)) :
    T.PageHolds img m' off' p := by
  have hpage := T.entries_le_page (T.pageEntries_le p)
  constructor
  · intro j hj
    rw [← h.entry j hj]
    apply Mem.read_shift
    intro i hi
    have hsucc : (j + 1) * T.entrySize ≤ T.pageEntries p * T.entrySize := Nat.mul_le_mul_right _ hj
    rw [Nat.succ_mul] at hsucc
    rw [Nat.add_assoc, Nat.add_assoc]
    exact heq _ (by omega)
  · rw [← h.valid]
    apply checkValid_congr
    intro i hi
    exact heq i (by omega)

/-- Page `q` of a filled batch. -/
lemma pageHolds_fillBatch {img : Nat → List UInt8} (himg : ∀ c, (img c).length = T.entrySize) {q : Nat}
    (hq : q < T.pagesPerWrite) (hpos : 0 < T.pageEntries (k * T.pagesPerWrite + q)) :
    T.PageHolds img (T.fillBatch img k) (q * T.pageSize) (k * T.pagesPerWrite + q) := by
  have hf := T.filled_fillBatch himg k
  have hcap := T.pageEntries_le (k * T.pagesPerWrite + q)
  have hfits : q * T.perPage + T.perPage ≤ T.perWrite := by
    have hmul : (q + 1) * T.perPage ≤ T.pagesPerWrite * T.perPage := Nat.mul_le_mul_right _ hq
    rw [Nat.succ_mul, Nat.mul_comm T.pagesPerWrite] at hmul
    exact hmul
  have hstart : T.batchStart k + q * T.perPage = (k * T.pagesPerWrite + q) * T.perPage := by
    rw [batchStart, perWrite]
    ring
  have hend : q * T.perPage + T.pageEntries (k * T.pagesPerWrite + q) ≤ T.batchLength k := by
    rw [batchLength]
    refine le_min (by omega) ?_
    have hright : T.pageEntries (k * T.pagesPerWrite + q) ≤
      T.count - (k * T.pagesPerWrite + q) * T.perPage := Nat.min_le_right _ _
    omega
  refine ⟨fun j hj => ?_, hf.checked q hpos hend⟩
  have hslot : T.slot (q * T.perPage + j) = q * T.pageSize + j * T.entrySize := by
    have hlt : j < T.perPage := by omega
    rw [slot, Nat.mul_add_mod', Nat.mod_eq_of_lt hlt, Nat.mul_comm q T.perPage,
      Nat.mul_add_div T.perPage_pos, Nat.div_eq_of_lt hlt, Nat.add_zero]
  rw [← hslot, hf.entry _ (by omega), ← hstart, Nat.add_assoc]

/-- Pages by batch. -/
lemma pagePos_batch (p : Nat) :
    T.pagePos p =
      T.base + p / T.pagesPerWrite * T.writeBytes + p % T.pagesPerWrite * T.pageSize := by
  have hp := Nat.div_add_mod' p T.pagesPerWrite
  have hmul : p * T.pageSize =
      (p / T.pagesPerWrite * T.pagesPerWrite + p % T.pagesPerWrite) * T.pageSize := by
    rw [hp]
  rw [pagePos, writeBytes, hmul]
  ring

/-- The page lies inside its batch. -/
lemma page_in_batch (p : Nat) :
    p % T.pagesPerWrite * T.pageSize + T.pageSize ≤ T.writeBytes := by
  have hlt := Nat.mod_lt p T.pagesPerWrite_pos
  have hmul : (p % T.pagesPerWrite + 1) * T.pageSize ≤ T.pagesPerWrite * T.pageSize :=
    Nat.mul_le_mul_right _ hlt
  rwa [Nat.succ_mul] at hmul

section

variable {writeSize : Nat → Nat} {dirty : Nat → Bool} {img : Nat → List UInt8}

variable {p : Nat}

/-- Flushing a batch leaves the pages of the others, and those behind the bytes written. -/
lemma flushBatch_kept (hws : ∀ k, writeSize (T.batchStart k) ≤ T.writeBytes) (f : File) {k : Nat}
    (h : k ≠ p / T.pagesPerWrite ∨ writeSize (T.batchStart k) ≤ p % T.pagesPerWrite * T.pageSize) {i : Nat}
    (hi : i < T.pageSize) :
    (T.flushBatch writeSize img f k).bytes (T.pagePos p + i) = f.bytes (T.pagePos p + i) := by
  have hin := T.page_in_batch p
  have hcap := hws k
  apply Mem.write_out
  rw [Mem.read_length, pagePos_batch]
  rcases Nat.lt_trichotomy k (p / T.pagesPerWrite) with hlt | heq | hgt
  · have hmul : (k + 1) * T.writeBytes ≤ p / T.pagesPerWrite * T.writeBytes :=
      Nat.mul_le_mul_right _ hlt
    rw [Nat.succ_mul] at hmul
    omega
  · have hle := h.resolve_left (not_not.mpr heq)
    rw [← heq]
    omega
  · have hmul : (p / T.pagesPerWrite + 1) * T.writeBytes ≤ k * T.writeBytes :=
      Nat.mul_le_mul_right _ hgt
    rw [Nat.succ_mul] at hmul
    omega

/-- Flushing a batch writes its pages, as far as they are within the bytes written. -/
lemma flushBatch_written (himg : ∀ c, (img c).length = T.entrySize) (f : File) (hpos : 0 < T.pageEntries p)
    (h : p % T.pagesPerWrite * T.pageSize + T.pageSize ≤ writeSize (T.batchStart (p / T.pagesPerWrite))) :
    T.PageHolds img (T.flushBatch writeSize img f (p / T.pagesPerWrite)).bytes (T.pagePos p) p := by
  have hp := Nat.div_add_mod' p T.pagesPerWrite
  have hbuf := T.pageHolds_fillBatch himg (k := p / T.pagesPerWrite) (q := p % T.pagesPerWrite)
    (Nat.mod_lt p T.pagesPerWrite_pos) (by rwa [hp])
  rw [hp] at hbuf
  refine hbuf.congr fun i hi => ?_
  rw [pagePos_batch, Nat.add_assoc _ (p % T.pagesPerWrite * T.pageSize)]
  exact Mem.write_read_at (by omega)

/-- The table after the first `b` batches. -/
def checkPointTo (T : PagedTable) (writeSize : Nat → Nat) (dirty : Nat → Bool)
    (img : Nat → List UInt8) (f : File) (b : Nat) : File :=
  (List.range b).foldl
    (fun f k => if T.batchDirty dirty k then T.flushBatch writeSize img f k else f) f

lemma checkPointTo_succ (f : File) (b : Nat) :
    T.checkPointTo writeSize dirty img f (b + 1) =
      if T.batchDirty dirty b then
        T.flushBatch writeSize img (T.checkPointTo writeSize dirty img f b) b
      else T.checkPointTo writeSize dirty img f b := by
  rw [checkPointTo, List.range_succ, List.foldl_append]
  rfl

/-- A page that is not written keeps its bytes. -/
lemma checkPointTo_kept (hws : ∀ k, writeSize (T.batchStart k) ≤ T.writeBytes) (f : File) {b : Nat}
    (h : b ≤ p / T.pagesPerWrite ∨ T.batchDirty dirty (p / T.pagesPerWrite) = false ∨
      writeSize (T.batchStart (p / T.pagesPerWrite)) ≤ p % T.pagesPerWrite * T.pageSize)
    {i : Nat} (hi : i < T.pageSize) :
    (T.checkPointTo writeSize dirty img f b).bytes (T.pagePos p + i) = f.bytes (T.pagePos p + i) := by
  induction b with
  | zero => rfl
  | succ b ih =>
    have hprev := ih (h.imp_left fun hle => by omega)
    rw [checkPointTo_succ]
    split
    · rename_i hdirty
      rw [T.flushBatch_kept hws _ _ hi, hprev]
      rcases eq_or_ne b (p / T.pagesPerWrite) with rfl | hne
      · rcases h with hle | hclean | hsize
        · omega
        · rw [hdirty] at hclean
          cases hclean
        · exact .inr hsize
      · exact .inl hne
    · exact hprev

/-- A page of a dirty batch is written, if it is within the bytes written. -/
lemma checkPointTo_written (himg : ∀ c, (img c).length = T.entrySize)
    (hws : ∀ k, writeSize (T.batchStart k) ≤ T.writeBytes) (f : File) {b : Nat} (hb : p / T.pagesPerWrite < b)
    (hdirty : T.batchDirty dirty (p / T.pagesPerWrite) = true) (hpos : 0 < T.pageEntries p)
    (h : p % T.pagesPerWrite * T.pageSize + T.pageSize ≤ writeSize (T.batchStart (p / T.pagesPerWrite))) :
    T.PageHolds img (T.checkPointTo writeSize dirty img f b).bytes (T.pagePos p) p := by
  induction b with
  | zero => exact absurd hb (Nat.not_lt_zero _)
  | succ b ih =>
    rw [checkPointTo_succ]
    rcases Nat.lt_succ_iff_lt_or_eq.mp hb with hlt | rfl
    · split
      · exact (ih hlt).congr fun i hi => T.flushBatch_kept hws _ (.inl (by omega)) hi
      · exact ih hlt
    · rw [if_pos hdirty]
      exact T.flushBatch_written himg _ hpos h

lemma size_le_checkPointTo (f : File) (b : Nat) :
    f.size ≤ (T.checkPointTo writeSize dirty img f b).size := by
  induction b with
  | zero => exact le_rfl
  | succ b ih =>
    rw [checkPointTo_succ]
    split
    · exact le_trans ih (Nat.le_max_left _ _)
    · exact ih

/-- Every entry belongs to one of the batches. -/
lemma batch_lt_batches (hpos : 0 < T.pageEntries p) : p / T.pagesPerWrite < T.batches := by
  have hp := Nat.div_add_mod' p T.pagesPerWrite
  have hlt : p * T.perPage < T.count := by
    rw [pageEntries] at hpos
    omega
  have hbatch : p / T.pagesPerWrite * T.perWrite ≤ p * T.perPage := by
    have hmul : p / T.pagesPerWrite * T.pagesPerWrite * T.perPage ≤ p * T.perPage :=
      Nat.mul_le_mul_right _ (by omega)
    calc p / T.pagesPerWrite * T.perWrite
        = p / T.pagesPerWrite * T.pagesPerWrite * T.perPage := by rw [perWrite]; ring
      _ ≤ p * T.perPage := hmul
  rw [batches, Nat.lt_iff_add_one_le, Nat.le_div_iff_mul_le T.perWrite_pos, Nat.succ_mul]
  have hpw := T.perWrite_pos
  omega

/-- A checkpoint writes the pages of the dirty batches that are within the bytes written. -/
theorem checkPoint_written (himg : ∀ c, (img c).length = T.entrySize)
    (hws : ∀ k, writeSize (T.batchStart k) ≤ T.writeBytes) (f : File) {p : Nat}
    (hpos : 0 < T.pageEntries p) (hdirty : T.batchDirty dirty (p / T.pagesPerWrite) = true)
    (h : p % T.pagesPerWrite * T.pageSize + T.pageSize ≤
      writeSize (T.batchStart (p / T.pagesPerWrite))) :
    T.PageHolds img (T.checkPoint writeSize dirty img f).bytes (T.pagePos p) p :=
  T.checkPointTo_written himg hws f (T.batch_lt_batches hpos) hdirty hpos h

/-- A checkpoint keeps the other pages. -/
theorem checkPoint_kept (hws : ∀ k, writeSize (T.batchStart k) ≤ T.writeBytes) (f : File) {p : Nat}
    (h : T.batchDirty dirty (p / T.pagesPerWrite) = false ∨
      writeSize (T.batchStart (p / T.pagesPerWrite)) ≤ p % T.pagesPerWrite * T.pageSize)
    {i : Nat} (hi : i < T.pageSize) :
    (T.checkPoint writeSize dirty img f).bytes (T.pagePos p + i) = f.bytes (T.pagePos p + i) :=
  T.checkPointTo_kept hws f (.inr h) hi

theorem size_le_checkPoint (f : File) : f.size ≤ (T.checkPoint writeSize dirty img f).size :=
  T.size_le_checkPointTo f T.batches

end

/-! ## Recovery -/

/-- Position of entry `i` in the file. -/
def entryPos (T : PagedTable) (i : Nat) : Nat :=
  T.pagePos (i / T.perPage) + i % T.perPage * T.entrySize

/-- Position in the file of the `r`-th read. -/
def readPos (T : PagedTable) (r : Nat) : Nat :=
  T.base + r * (T.pagesPerRead * T.pageSize)

lemma perRead_pos : 0 < T.perRead :=
  Nat.mul_pos T.perPage_pos T.pagesPerRead_pos

/-- The page of entry `i`, counted from the start of its read. -/
lemma page_of_read (i : Nat) :
    i / T.perPage = i / T.perRead * T.pagesPerRead + i % T.perRead / T.perPage := by
  have hi := Nat.div_add_mod' i T.perRead
  have hmul : i / T.perRead * T.perRead = T.perPage * (i / T.perRead * T.pagesPerRead) := by
    rw [perRead]
    ring
  rw [hmul] at hi
  nth_rewrite 1 [← hi]
  rw [Nat.mul_add_div T.perPage_pos]

lemma readPos_add (i : Nat) :
    T.readPos (i / T.perRead) + i % T.perRead / T.perPage * T.pageSize = T.pagePos (i / T.perPage) := by
  rw [readPos, pagePos, page_of_read i]
  ring

/-- The page of every entry lies inside its read. -/
lemma page_in_read (h : i < T.count) :
    i % T.perRead / T.perPage * T.pageSize + T.pageSize ≤
      T.readSize (i / T.perRead * T.perRead) := by
  have hi := Nat.div_add_mod' i T.perRead
  have hle : i % T.perRead / T.perPage + 1 ≤
      if T.count - i / T.perRead * T.perRead < T.perRead then
        (T.count - i / T.perRead * T.perRead) / T.perPage + 1
      else T.pagesPerRead := by
    split
    · have hdiv : i % T.perRead / T.perPage ≤ (T.count - i / T.perRead * T.perRead) / T.perPage :=
        Nat.div_le_div_right (by omega)
      omega
    · have hlt := Nat.mod_lt i T.perRead_pos
      exact Nat.div_lt_of_lt_mul hlt
  rw [← Nat.succ_mul, readSize]
  split
  · rename_i hshort
    rw [if_pos hshort] at hle
    exact Nat.mul_le_mul_right _ hle
  · rename_i hfull
    rw [if_neg hfull] at hle
    exact Nat.mul_le_mul_right _ hle

/-- Every read ends inside the table. -/
lemma read_in_table {r : Nat} (h : r * T.perRead < T.count) :
    T.readPos r + T.readSize (r * T.perRead) ≤
      T.base + (T.count / T.perPage + 1) * T.pageSize := by
  have hmul : r * T.perRead = T.perPage * (r * T.pagesPerRead) := by
    rw [perRead]
    ring
  have hpages : r * T.pagesPerRead + (T.count - r * T.perRead) / T.perPage = T.count / T.perPage := by
    have hsub := Nat.sub_mul_div_of_le T.count T.perPage (r * T.pagesPerRead) (by rw [← hmul]; exact h.le)
    have hle : r * T.pagesPerRead ≤ T.count / T.perPage := by
      rw [Nat.le_div_iff_mul_le T.perPage_pos, Nat.mul_comm, ← hmul]
      exact h.le
    rw [hmul]
    omega
  have hsize : T.readSize (r * T.perRead) ≤
      ((T.count - r * T.perRead) / T.perPage + 1) * T.pageSize := by
    rw [readSize]
    split
    · exact le_rfl
    · rename_i hfull
      apply Nat.mul_le_mul_right
      have hdiv : T.pagesPerRead ≤ (T.count - r * T.perRead) / T.perPage := by
        rw [Nat.le_div_iff_mul_le T.perPage_pos, Nat.mul_comm]
        exact not_lt.mp hfull
      omega
  calc T.readPos r + T.readSize (r * T.perRead)
      ≤ T.readPos r + ((T.count - r * T.perRead) / T.perPage + 1) * T.pageSize :=
        Nat.add_le_add_left hsize _
    _ = T.base + (r * T.pagesPerRead + (T.count - r * T.perRead) / T.perPage + 1) * T.pageSize := by
        rw [readPos]
        ring
    _ = T.base + (T.count / T.perPage + 1) * T.pageSize := by rw [hpages]

section

variable {σ : Type} {f : File} {onEntry : Nat → List UInt8 → σ → σ}

/-- The caller's state after the first `n` entries of the file. -/
def entriesFolded (T : PagedTable) (f : File) (onEntry : Nat → List UInt8 → σ → σ) (s : σ) (n : Nat) :
    σ :=
  (List.range n).foldl (fun s i => onEntry i (f.bytes.read (T.entryPos i) T.entrySize) s) s

/-- The block holds the `r`-th read. -/
def BlockHolds (T : PagedTable) (f : File) (r : Nat) (block : Mem) : Prop :=
  ∀ x < T.readSize (r * T.perRead), block x = f.bytes (T.readPos r + x)

/-- The reader before entry `n`: at the start of a read the file stands there, and inside a read the block
holds it and the file stands behind it. -/
structure Reading (T : PagedTable) (f : File) (onEntry : Nat → List UInt8 → σ → σ) (s : σ) (n : Nat)
    (r : Reader σ) : Prop where
  state : r.state = T.entriesFolded f onEntry s n
  between : n % T.perRead = 0 → n < T.count → r.pos = T.readPos (n / T.perRead)
  inside : n % T.perRead ≠ 0 → T.BlockHolds f (n / T.perRead) r.block ∧
    r.pos = T.readPos (n / T.perRead) + T.readSize (n / T.perRead * T.perRead)

/-- The block that entry `n` is taken from. -/
lemma Reading.block {s : σ} {n : Nat} {r r₁ : Reader σ} (h : T.Reading f onEntry s n r)
    (hn : n < T.count) (hr : T.refill f r n = some r₁) :
    r₁.state = r.state ∧ T.BlockHolds f (n / T.perRead) r₁.block ∧
      r₁.pos = T.readPos (n / T.perRead) + T.readSize (n / T.perRead * T.perRead) := by
  rw [refill] at hr
  by_cases hfirst : n % T.perRead = 0
  · have hstart : n / T.perRead * T.perRead = n := by
      have hdiv := Nat.div_add_mod' n T.perRead
      omega
    have hpos := h.between hfirst hn
    rw [if_pos hfirst] at hr
    obtain ⟨bs, hread, rfl⟩ := Option.map_eq_some_iff.mp hr
    rw [File.read] at hread
    split at hread
    swap
    · cases hread
    cases hread
    refine ⟨rfl, ?_, ?_⟩
    · intro x hx
      rw [hstart] at hx
      have hblock : Mem.write (fun _ => 0) 0 (f.bytes.read r.pos (T.readSize n)) (0 + x) =
          f.bytes (r.pos + x) := by
        rw [Mem.write_in (by omega) (by simpa using hx), Nat.add_sub_cancel_left, Mem.read_getD hx]
      rw [Nat.zero_add] at hblock
      rw [← hpos]
      exact hblock
    · rw [hstart, hpos]
  · rw [if_neg hfirst] at hr
    cases hr
    exact ⟨rfl, h.inside hfirst⟩

/-- A file that is long enough can be read. -/
lemma Reading.refill_isSome {s : σ} {n : Nat} {r : Reader σ} (h : T.Reading f onEntry s n r)
    (hn : n < T.count) (hsize : T.base + (T.count / T.perPage + 1) * T.pageSize ≤ f.size) :
    ∃ r₁, T.refill f r n = some r₁ := by
  rw [refill]
  by_cases hfirst : n % T.perRead = 0
  · have hstart : n / T.perRead * T.perRead = n := by
      have hdiv := Nat.div_add_mod' n T.perRead
      omega
    have hpos := h.between hfirst hn
    have hend := T.read_in_table (r := n / T.perRead) (by omega)
    rw [hstart] at hend
    have hread : f.read r.pos (T.readSize n) = some (f.bytes.read r.pos (T.readSize n)) :=
      if_pos (by rw [hpos]; omega)
    rw [if_pos hfirst, hread]
    exact ⟨_, rfl⟩
  · rw [if_neg hfirst]
    exact ⟨_, rfl⟩

section

variable {block : Mem} {n : Nat} (h : T.BlockHolds f (n / T.perRead) block) (hn : n < T.count)
include h hn

/-- In the block, the page of entry `n` is the page of the file. -/
lemma BlockHolds.page {i : Nat} (hi : i < T.pageSize) :
    block (n % T.perRead / T.perPage * T.pageSize + i) = f.bytes (T.pagePos (n / T.perPage) + i) := by
  have hin := T.page_in_read hn
  rw [h _ (by omega), ← T.readPos_add n, Nat.add_assoc]

lemma BlockHolds.checkValid_eq (hpage : n % T.perPage = 0) :
    T.checkValid block (n % T.perRead / T.perPage * T.pageSize) (min T.perPage (T.count - n)) =
      T.checkValid f.bytes (T.pagePos (n / T.perPage)) (T.pageEntries (n / T.perPage)) := by
  have hstart : n / T.perPage * T.perPage = n := by
    have hdiv := Nat.div_add_mod' n T.perPage
    omega
  have hentries : T.pageEntries (n / T.perPage) = min T.perPage (T.count - n) := by
    rw [pageEntries, hstart]
  rw [hentries]
  apply checkValid_congr
  intro i hi
  have hfit := T.entries_le_page (Nat.min_le_left T.perPage (T.count - n))
  exact h.page hn (by omega)

lemma BlockHolds.read_eq :
    block.read (n % T.perRead / T.perPage * T.pageSize + n % T.perPage * T.entrySize) T.entrySize =
      f.bytes.read (T.entryPos n) T.entrySize := by
  apply Mem.read_shift
  intro i hi
  have hlt := Nat.mod_lt n T.perPage_pos
  have hfit := T.entries_le_page (Nat.succ_le_of_lt hlt)
  rw [Nat.succ_mul] at hfit
  rw [entryPos, Nat.add_assoc, Nat.add_assoc]
  exact h.page hn (by omega)

end

/-- One entry is read. -/
lemma Reading.step {s : σ} {n : Nat} {r r' : Reader σ} (h : T.Reading f onEntry s n r)
    (hn : n < T.count) (hstep : T.recoverStep f onEntry r n = some r') :
    T.Reading f onEntry s (n + 1) r' := by
  rw [recoverStep] at hstep
  obtain ⟨r₁, hr₁, hrest⟩ := Option.bind_eq_some_iff.mp hstep
  obtain ⟨hstate, hblock, hpos⟩ := h.block hn hr₁
  dsimp only at hrest
  split at hrest
  · cases hrest
  cases hrest
  rw [hblock.read_eq hn]
  refine ⟨?_, ?_, ?_⟩
  · rw [entriesFolded, List.range_succ, List.foldl_append, hstate, h.state]
    rfl
  · -- the next entry starts a read, so this one was full
    intro hnext hlt
    have hmod : (n + 1) / T.perRead = n / T.perRead + 1 := by
      have hdvd : T.perRead ∣ n + 1 := Nat.dvd_of_mod_eq_zero hnext
      rw [Nat.succ_div, if_pos hdvd]
    have hstart : (n + 1) / T.perRead * T.perRead = n + 1 := by
      have hdiv := Nat.div_add_mod' (n + 1) T.perRead
      omega
    rw [hmod, Nat.succ_mul] at hstart
    have hfull : T.readSize (n / T.perRead * T.perRead) = T.pagesPerRead * T.pageSize := by
      rw [readSize, if_neg (by omega)]
    show r₁.pos = _
    rw [hpos, hfull, hmod, readPos, readPos]
    ring
  · intro hnext
    have hsame : (n + 1) / T.perRead = n / T.perRead := by
      rw [Nat.succ_div, if_neg fun hdvd => hnext (Nat.mod_eq_zero_of_dvd hdvd), Nat.add_zero]
    rw [hsame]
    exact ⟨hblock, hpos⟩

/-- A page with a valid checksum is accepted. -/
lemma Reading.step_isSome {s : σ} {n : Nat} {r : Reader σ} (h : T.Reading f onEntry s n r)
    (hn : n < T.count) (hsize : T.base + (T.count / T.perPage + 1) * T.pageSize ≤ f.size)
    (hvalid : ∀ p, 0 < T.pageEntries p →
      T.checkValid f.bytes (T.pagePos p) (T.pageEntries p) = true) :
    ∃ r', T.recoverStep f onEntry r n = some r' := by
  obtain ⟨r₁, hr₁⟩ := h.refill_isSome hn hsize
  obtain ⟨-, hblock, -⟩ := h.block hn hr₁
  have hpage : 0 < T.pageEntries (n / T.perPage) := by
    have hdiv := Nat.div_add_mod' n T.perPage
    have hpp := T.perPage_pos
    rw [pageEntries]
    omega
  have hcheck : ¬(n % T.perPage = 0 ∧ T.checkValid r₁.block
      (n % T.perRead / T.perPage * T.pageSize) (min T.perPage (T.count - n)) = false) := by
    rintro ⟨hfirst, hbad⟩
    rw [hblock.checkValid_eq hn hfirst, hvalid _ hpage] at hbad
    cases hbad
  rw [recoverStep, hr₁, Option.bind_some]
  exact ⟨_, if_neg hcheck⟩

lemma reading_zero (s : σ) : T.Reading f onEntry s 0 ⟨T.base, fun _ => 0, s⟩ := by
  refine ⟨rfl, fun _ _ => ?_, fun hne => absurd (Nat.zero_mod _) hne⟩
  simp [readPos]

lemma foldlM_recoverStep_succ {r : Reader σ} (n : Nat) :
    (List.range (n + 1)).foldlM (T.recoverStep f onEntry) r =
      ((List.range n).foldlM (T.recoverStep f onEntry) r).bind fun r => T.recoverStep f onEntry r n := by
  rw [List.range_succ, List.foldlM_append]
  simp only [Option.bind_eq_bind, List.foldlM_cons, List.foldlM_nil, Option.pure_def]
  cases (List.range n).foldlM (T.recoverStep f onEntry) r with
  | none => rfl
  | some r => simp

/-- Reading back hands over every entry, if it succeeds. -/
theorem recover_eq {s s' : σ} (h : T.recover f onEntry s = some s') :
    s' = T.entriesFolded f onEntry s T.count := by
  have hrun : ∀ n ≤ T.count, ∀ r, (List.range n).foldlM (T.recoverStep f onEntry)
      ⟨T.base, fun _ => 0, s⟩ = some r → T.Reading f onEntry s n r := by
    intro n hn
    induction n with
    | zero =>
      intro r hr
      cases hr
      exact T.reading_zero s
    | succ n ih =>
      intro r' hr'
      rw [foldlM_recoverStep_succ] at hr'
      obtain ⟨r, hr, hstep⟩ := Option.bind_eq_some_iff.mp hr'
      exact (ih (by omega) r hr).step hn hstep
  obtain ⟨r, hr, rfl⟩ := Option.map_eq_some_iff.mp h
  exact (hrun T.count le_rfl r hr).state

/-- Reading back succeeds on a file whose pages all have valid checksums. -/
theorem recover_spec (s : σ) (hsize : T.base + (T.count / T.perPage + 1) * T.pageSize ≤ f.size)
    (hvalid : ∀ p, 0 < T.pageEntries p →
      T.checkValid f.bytes (T.pagePos p) (T.pageEntries p) = true) :
    T.recover f onEntry s = some (T.entriesFolded f onEntry s T.count) := by
  have hrun : ∀ n ≤ T.count, ∃ r, (List.range n).foldlM (T.recoverStep f onEntry)
      ⟨T.base, fun _ => 0, s⟩ = some r ∧ T.Reading f onEntry s n r := by
    intro n hn
    induction n with
    | zero => exact ⟨_, rfl, T.reading_zero s⟩
    | succ n ih =>
      obtain ⟨r, hr, hreading⟩ := ih (by omega)
      obtain ⟨r', hr'⟩ := hreading.step_isSome hn hsize hvalid
      refine ⟨r', ?_, hreading.step hn hr'⟩
      rw [foldlM_recoverStep_succ, hr, Option.bind_some, hr']
  obtain ⟨r, hr, hreading⟩ := hrun T.count le_rfl
  rw [recover, hr, Option.map_some, hreading.state]

end

/-- A loop that handles each index of a map once. -/
lemma foldl_update {α : Type} (h : Nat → α → α) (zs : Nat → α) (n : Nat) :
    (List.range n).foldl (fun zs i => Function.update zs i (h i (zs i))) zs =
      fun j => if j < n then h j (zs j) else zs j := by
  induction n with
  | zero => rfl
  | succ n ih =>
    rw [List.range_succ, List.foldl_append, ih]
    funext j
    rw [List.foldl_cons, List.foldl_nil]
    rcases eq_or_ne j n with rfl | hne
    · rw [Function.update_self, if_pos (Nat.lt_succ_self _)]
      exact congrArg (h j) (if_neg (lt_irrefl j))
    · rw [Function.update_of_ne hne]
      by_cases hlt : j < n
      · rw [if_pos hlt, if_pos (by omega)]
      · rw [if_neg hlt, if_neg (by omega)]

/-- Recovery of a map indexed by entry. -/
theorem recover_update {α : Type} {f : File} (h : Nat → List UInt8 → α → α) (zs : Nat → α)
    (hsize : T.base + (T.count / T.perPage + 1) * T.pageSize ≤ f.size)
    (hvalid : ∀ p, 0 < T.pageEntries p →
      T.checkValid f.bytes (T.pagePos p) (T.pageEntries p) = true) :
    T.recover f (fun i bs zs => Function.update zs i (h i bs (zs i))) zs =
      some fun i =>
        if i < T.count then h i (f.bytes.read (T.entryPos i) T.entrySize) (zs i) else zs i := by
  rw [recover_spec zs hsize hvalid, entriesFolded,
    foldl_update fun i a => h i (f.bytes.read (T.entryPos i) T.entrySize) a]

/-- Every page of the table is in place. -/
def AllPagesHold (T : PagedTable) (img : Nat → List UInt8) (m : Mem) : Prop :=
  ∀ p, 0 < T.pageEntries p → T.PageHolds img m (T.pagePos p) p

/-- Entry `i` is the entry `i % perPage` of page `i / perPage`. -/
lemma mod_lt_pageEntries (hi : i < T.count) : i % T.perPage < T.pageEntries (i / T.perPage) := by
  have hdiv := Nat.div_add_mod' i T.perPage
  have hlt := Nat.mod_lt i T.perPage_pos
  rw [pageEntries]
  omega

/-- The bytes of an entry of a table in place. -/
lemma AllPagesHold.read_entry {img : Nat → List UInt8} {m : Mem} (h : T.AllPagesHold img m) (hi : i < T.count) :
    m.read (T.entryPos i) T.entrySize = img i := by
  have hentries := T.mod_lt_pageEntries hi
  have hread := (h (i / T.perPage) (by omega)).entry (i % T.perPage) hentries
  rwa [Nat.div_add_mod' i T.perPage] at hread

lemma batchStart_lt_count {p : Nat} (hpos : 0 < T.pageEntries p) :
    T.batchStart (p / T.pagesPerWrite) < T.count := by
  have hp := Nat.div_mul_le_self p T.pagesPerWrite
  have hmul : p / T.pagesPerWrite * T.pagesPerWrite * T.perPage ≤ p * T.perPage :=
    Nat.mul_le_mul_right _ hp
  have hstart : T.batchStart (p / T.pagesPerWrite) =
      p / T.pagesPerWrite * T.pagesPerWrite * T.perPage := by
    rw [batchStart, perWrite]
    ring
  rw [pageEntries] at hpos
  omega

lemma batchDirty_all {p : Nat} (hpos : 0 < T.pageEntries p) :
    T.batchDirty (fun _ => true) (p / T.pagesPerWrite) = true := by
  have hlt := T.batchStart_lt_count hpos
  have hpw := T.perWrite_pos
  have hlen : 0 < T.batchLength (p / T.pagesPerWrite) := by
    rw [batchLength]
    omega
  exact List.any_eq_true.mpr ⟨0, List.mem_range.mpr hlen, rfl⟩

/-- Any contents of the entries are the contents of a file. -/
theorem exists_file (img : Nat → List UInt8) (himg : ∀ c, (img c).length = T.entrySize) (size : Nat) :
    ∃ f : File, T.AllPagesHold img f.bytes ∧ size = f.size := by
  refine ⟨⟨(T.checkPoint (fun _ => T.writeBytes) (fun _ => true) img ⟨fun _ => 0, 0⟩).bytes, size⟩, ?_, rfl⟩
  intro p hpos
  exact T.checkPoint_written himg (fun _ => le_rfl) _ hpos (T.batchDirty_all hpos) (T.page_in_batch p)

end

end PagedTable

end GaussKernel.Lib
