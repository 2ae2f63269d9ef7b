import Mathlib
import GaussKernel.Cfs.Extent
import GaussKernel.Lib.Dense

/-!
# Chunk map of an extent

The invariant of an extent: its blocks own the chunk numbers from 1 to `allocated_chunks`, each number once, and a
block reads as the page last written to it. Every operation keeps it but for `MdRecoveryPcaPage`, which looks for the
greatest number among the blocks below `nblocks` only.
-/

namespace GaussKernel.Cfs
open Lib
open Function (update update_self update_of_ne)

/-- What the compression is trusted with. -/
structure CfsOption.Lawful (o : CfsOption) : Prop where
  compress_length : ∀ page work, o.compressPage page = some work → 0 < work.length ∧ work.length < BLCKSZ
  decompress : ∀ page work n, page.length = BLCKSZ → o.compressPage page = some work →
    o.decompressPage (work ++ List.replicate n 0) = some page

lemma CfsOption.chunkSize_mul (o : CfsOption) : o.chunksPerBlock * o.chunkSize = BLCKSZ := by
  have h := o.chunkSize_range
  unfold chunksPerBlock chunkSize
  rw [← Nat.pow_add, show o.compressChunkSize + 1 + (12 - o.compressChunkSize) = 13 by omega]
  rfl

lemma CfsOption.chunkSize_pos (o : CfsOption) : 0 < o.chunkSize := Nat.two_pow_pos _

lemma CfsOption.chunksPerBlock_pos (o : CfsOption) : 0 < o.chunksPerBlock := Nat.two_pow_pos _

/-! ## Headers -/

structure AddressOk (o : CfsOption) (a : CfsExtentAddress) : Prop where
  checksum : a.checksum = addrChecksum32 a
  nchunks_le : a.nchunks ≤ a.chunknos.length
  allocated_le : a.chunknos.length ≤ o.chunksPerBlock

structure HeaderOk (o : CfsOption) (h : CfsExtentHeader) : Prop where
  length : h.cfsExtentAddress.length = CFS_LOGIC_BLOCKS_PER_EXTENT
  addresses : ∀ a ∈ h.cfsExtentAddress, AddressOk o a
  dense : Dense h.chunks h.allocatedChunks
  nblocks_le : h.nblocks ≤ CFS_LOGIC_BLOCKS_PER_EXTENT

lemma zeroAddress_ok (o : CfsOption) : AddressOk o zeroAddress := ⟨rfl, le_rfl, Nat.zero_le _⟩

variable {o : CfsOption} {h : CfsExtentHeader} {b c n chunkSize : Nat} {a : CfsExtentAddress}
  {addrs : List CfsExtentAddress} {data : Nat → List UInt8} {e : Extent} {pages : Nat → Option (List UInt8)}
  {chunknos : List Nat} {buffer page : List UInt8}

lemma getExtentAddress_ok (hok : HeaderOk o h) (b : Nat) : AddressOk o (getExtentAddress h b) := by
  unfold getExtentAddress
  by_cases hb : b < h.cfsExtentAddress.length
  · rw [List.getD_eq_getElem _ _ hb]
    exact hok.addresses _ (List.getElem_mem hb)
  · rw [List.getD_eq_default _ _ (not_lt.mp hb)]
    exact zeroAddress_ok o

lemma chunks_getD (h : CfsExtentHeader) (b : Nat) : h.chunks.getD b [] = (getExtentAddress h b).chunknos :=
  List.getD_map h.cfsExtentAddress zeroAddress fun a => a.chunknos

lemma HeaderOk.allocated_le (hok : HeaderOk o h) : h.allocatedChunks ≤ o.maxChunks := by
  have hle := hok.dense.le_mul (m := o.chunksPerBlock) fun l hl => by
    obtain ⟨a, ha, rfl⟩ := List.mem_map.mp hl
    exact (hok.addresses a ha).allocated_le
  rwa [CfsExtentHeader.chunks, List.length_map, hok.length] at hle

lemma HeaderOk.chunkno (hok : HeaderOk o h) (hc : c ∈ (getExtentAddress h b).chunknos) :
    1 ≤ c ∧ c ≤ h.allocatedChunks := by
  unfold getExtentAddress at hc
  by_cases hb : b < h.cfsExtentAddress.length
  · rw [List.getD_eq_getElem _ _ hb] at hc
    exact hok.dense.mem_bound (List.mem_map_of_mem (List.getElem_mem hb)) hc
  · rw [List.getD_eq_default _ _ (not_lt.mp hb)] at hc
    cases hc

lemma HeaderOk.nodup (hok : HeaderOk o h) (b : Nat) : (getExtentAddress h b).chunknos.Nodup := by
  unfold getExtentAddress
  by_cases hb : b < h.cfsExtentAddress.length
  · rw [List.getD_eq_getElem _ _ hb]
    exact hok.dense.entry_nodup (List.mem_map_of_mem (List.getElem_mem hb))
  · rw [List.getD_eq_default _ _ (not_lt.mp hb)]
    exact List.nodup_nil

lemma HeaderOk.disjoint (hok : HeaderOk o h) {b' : Nat} (hne : b ≠ b') (hc : c ∈ (getExtentAddress h b).chunknos)
    (hc' : c ∈ (getExtentAddress h b').chunknos) : False := by
  rw [← chunks_getD] at hc hc'
  exact hok.dense.disjoint hne hc hc'

lemma flatMap_chunknos (addrs : List CfsExtentAddress) :
    addrs.flatMap (·.chunknos) = (addrs.map (·.chunknos)).flatten := List.flatMap_def

lemma maxChunkno_eq (addrs : List CfsExtentAddress) : maxChunkno addrs = maxOf (addrs.map (·.chunknos)).flatten := by
  rw [maxChunkno, flatMap_chunknos]
  rfl

lemma initExtentHeader_ok (o : CfsOption) : HeaderOk o initExtentHeader where
  length := List.length_replicate
  addresses a ha := by
    rw [List.eq_of_mem_replicate ha]
    exact zeroAddress_ok o
  dense := by
    have h : initExtentHeader.chunks = List.replicate CFS_LOGIC_BLOCKS_PER_EXTENT [] := List.map_replicate
    rw [h]
    exact Dense.nil _
  nblocks_le := Nat.zero_le _

/-! ## Loading the page -/

lemma checkAddress_eq (global : List Nat) (ha : AddressOk o a)
    (hc : ∀ c ∈ a.chunknos, 1 ≤ c ∧ c ≤ o.maxChunks ∧ c ∉ global) : checkAddress o global a = some a := by
  unfold checkAddress
  rw [if_neg (not_not.mpr ha.checksum)]
  apply if_neg
  rintro (h | ⟨c, hmem, h⟩ | h)
  · exact absurd ha.allocated_le (not_le.mpr h)
  · obtain ⟨h1, hmax, hnew⟩ := hc c hmem
    rcases h with h | h | h
    · omega
    · omega
    · exact hnew h
  · exact absurd ha.nchunks_le (not_le.mpr h)

lemma checkAddresses_eq {done : List CfsExtentAddress} (ha : ∀ a ∈ addrs, AddressOk o a)
    (hc : ∀ a ∈ addrs, ∀ c ∈ a.chunknos, 1 ≤ c ∧ c ≤ o.maxChunks)
    (hnodup : ((done ++ addrs).flatMap (·.chunknos)).Nodup) : checkAddresses o addrs done = some (done ++ addrs) := by
  induction addrs generalizing done with
  | nil => simp [checkAddresses]
  | cons a addrs ih =>
    have hnew : ∀ c ∈ a.chunknos, c ∉ done.flatMap (·.chunknos) := by
      intro c hmem hold
      rw [List.flatMap_append, List.flatMap_cons] at hnodup
      exact (List.disjoint_of_nodup_append hnodup) hold (List.mem_append_left _ hmem)
    have hone := checkAddress_eq (done.flatMap (·.chunknos)) (ha a (by simp)) fun c hmem =>
      ⟨(hc a (by simp) c hmem).1, (hc a (by simp) c hmem).2, hnew c hmem⟩
    rw [checkAddresses, hone, Option.bind_some]
    rw [ih (fun x hx => ha x (by simp [hx])) (fun x hx => hc x (by simp [hx])) (by simpa using hnodup)]
    simp

lemma nonzeroBlocks_le {m : Nat} (hb : b + addrs.length ≤ n) (hm : m ≤ n) : nonzeroBlocks addrs b m ≤ n := by
  induction addrs generalizing b m with
  | nil => exact hm
  | cons a addrs ih =>
    rw [List.length_cons] at hb
    rw [nonzeroBlocks]
    apply ih (by omega)
    split
    · omega
    · exact hm

/-- A header with the map of another one, in order as well. -/
structure SameMap (o : CfsOption) (h h' : CfsExtentHeader) : Prop where
  ok : HeaderOk o h'
  addresses : h'.cfsExtentAddress = h.cfsExtentAddress
  inOrder : h'.recycleInOrder = h.recycleInOrder

lemma checkAndRepair_ok (hok : HeaderOk o h) : ∃ h', checkAndRepairCompressAddress o h = some h' ∧ SameMap o h h' := by
  have hmax := hok.allocated_le
  have hcheck : checkAddresses o h.cfsExtentAddress [] = some h.cfsExtentAddress := by
    refine checkAddresses_eq hok.addresses (fun a ha c hc => ?_) ?_
    · have hb := hok.dense.mem_bound (List.mem_map_of_mem ha) hc
      exact ⟨hb.1, hb.2.trans hmax⟩
    · rw [List.nil_append, flatMap_chunknos]
      exact hok.dense.nodup
  have hall : maxChunkno h.cfsExtentAddress = h.allocatedChunks := by
    rw [maxChunkno_eq]
    exact hok.dense.maxOf
  unfold checkAndRepairCompressAddress
  rw [hcheck, Option.bind_some, hall]
  refine ⟨_, rfl, ⟨hok.length, hok.addresses, hok.dense, ?_⟩, rfl, rfl⟩
  dsimp only
  split
  · exact nonzeroBlocks_le (by rw [hok.length, Nat.zero_add]) (Nat.zero_le _)
  · exact hok.nblocks_le

/-! ## Pages -/

/-- What a block reads as. -/
def readAddress (o : CfsOption) (a : CfsExtentAddress) (data : Nat → List UInt8) : Option (List UInt8) :=
  if a.nchunks = 0 then some zeroPage
  else
    let compressedBuffer := (a.chunknos.take a.nchunks).flatMap data
    if a.nchunks = o.chunksPerBlock then some (compressedBuffer.take BLCKSZ)
    else o.decompressPage compressedBuffer

lemma cfsReadPage_eq (o : CfsOption) (e : Extent) (n : Nat) :
    cfsReadPage o e n = (pcaBufReadPage o e).bind fun h =>
      readAddress o (getExtentAddress h (n % CFS_LOGIC_BLOCKS_PER_EXTENT)) e.data := rfl

/-- Only the chunks of the block matter. -/
lemma readAddress_congr {data' : Nat → List UInt8} (h : ∀ c ∈ a.chunknos, data' c = data c) :
    readAddress o a data' = readAddress o a data := by
  have heq : (a.chunknos.take a.nchunks).flatMap data' = (a.chunknos.take a.nchunks).flatMap data := by
    rw [List.flatMap_def, List.flatMap_def]
    congr 1
    exact List.map_congr_left fun c hc => h c (List.mem_of_mem_take hc)
  unfold readAddress
  rw [heq]

/-- The extent is in order, and every block reads as its page in `pages`, if it has one there. -/
structure ExtentOk (o : CfsOption) (e : Extent) (pages : Nat → Option (List UInt8)) : Prop where
  disk : HeaderOk o e.disk
  pca : ∀ h, e.pca = some h → SameMap o e.disk h
  chunk_le : ∀ c, (e.data c).length ≤ o.chunkSize
  page : ∀ b < CFS_LOGIC_BLOCKS_PER_EXTENT, ∀ page, pages b = some page →
    readAddress o (getExtentAddress e.disk b) e.data = some page

lemma ExtentOk.load (h : ExtentOk o e pages) : ∃ hd, pcaBufReadPage o e = some hd ∧ SameMap o e.disk hd := by
  unfold pcaBufReadPage
  cases hp : e.pca with
  | some hd => exact ⟨hd, rfl, h.pca hd hp⟩
  | none => exact checkAndRepair_ok h.disk

/-- The pca buffer may lose the page. -/
lemma ExtentOk.lose (h : ExtentOk o e pages) :
    ExtentOk o { e with pca := none } pages := ⟨h.disk, fun _ hp => (by cases hp), h.chunk_le, h.page⟩

lemma SameMap.getExtentAddress {h' : CfsExtentHeader} (hs : SameMap o h h') (b : Nat) :
    getExtentAddress h' b = Cfs.getExtentAddress h b := by
  unfold Cfs.getExtentAddress
  rw [hs.addresses]

/-- The header page is written. -/
lemma ExtentOk.flush (hok : HeaderOk o h) (hlen : ∀ c, (e.data c).length ≤ o.chunkSize)
    (hpage : ∀ b < CFS_LOGIC_BLOCKS_PER_EXTENT, ∀ page, pages b = some page →
      readAddress o (Cfs.getExtentAddress h b) e.data = some page) :
    ExtentOk o (e.pcaBufFreePage h true) pages where
  disk := hok
  pca := by
    rintro h' hp
    obtain rfl := Option.some.inj hp
    exact ⟨hok, rfl, rfl⟩
  chunk_le := hlen
  page := hpage

/-! ## Writing a page -/

lemma writeChunks_other (hc : c ∉ chunknos) : writeChunks chunkSize chunknos buffer data c = data c := by
  induction chunknos generalizing buffer data with
  | nil => rfl
  | cons x xs ih =>
    rw [List.mem_cons, not_or] at hc
    rw [writeChunks, ih hc.2, update_of_ne hc.1]

lemma writeChunks_length (hlen : ∀ c, (data c).length ≤ chunkSize) (c : Nat) :
    (writeChunks chunkSize chunknos buffer data c).length ≤ chunkSize := by
  induction chunknos generalizing buffer data with
  | nil => exact hlen c
  | cons x xs ih =>
    rw [writeChunks]
    apply ih
    intro c'
    rw [Function.update_apply]
    split
    · rw [List.length_take]
      exact min_le_left _ _
    · exact hlen c'

/-- The chunks give the buffer back. -/
lemma writeChunks_read (hnodup : chunknos.Nodup) (hlen : buffer.length = chunknos.length * chunkSize) :
    chunknos.flatMap (writeChunks chunkSize chunknos buffer data) = buffer := by
  induction chunknos generalizing buffer data with
  | nil =>
    rw [List.length_nil, Nat.zero_mul] at hlen
    rw [List.flatMap_nil, List.eq_nil_of_length_eq_zero hlen]
  | cons c cs ih =>
    rw [List.nodup_cons] at hnodup
    rw [List.length_cons, Nat.succ_mul] at hlen
    rw [List.flatMap_cons, writeChunks, writeChunks_other hnodup.1, update_self,
      ih hnodup.2 (by rw [List.length_drop]; omega), List.take_append_drop]

/-- The compressed page. -/
lemma cfsCompressPage_spec (hl : o.Lawful) (hlen : page.length = BLCKSZ) :
    0 < (cfsCompressPage o page).2 ∧ (cfsCompressPage o page).2 ≤ o.chunksPerBlock ∧
      (cfsCompressPage o page).1.length = (cfsCompressPage o page).2 * o.chunkSize ∧
      (if (cfsCompressPage o page).2 = o.chunksPerBlock then some ((cfsCompressPage o page).1.take BLCKSZ)
        else o.decompressPage (cfsCompressPage o page).1) = some page := by
  have hmul := o.chunkSize_mul
  have hcs := o.chunkSize_pos
  have hraw : 0 < o.chunksPerBlock ∧ o.chunksPerBlock ≤ o.chunksPerBlock ∧
      page.length = o.chunksPerBlock * o.chunkSize ∧
      (if o.chunksPerBlock = o.chunksPerBlock then some (page.take BLCKSZ) else o.decompressPage page) =
        some page := by
    refine ⟨o.chunksPerBlock_pos, le_rfl, by rw [hlen, hmul], ?_⟩
    rw [if_pos rfl, List.take_of_length_le (by omega)]
  unfold cfsCompressPage
  cases hc : o.compressPage page with
  | none => exact hraw
  | some work =>
    obtain ⟨hpos, -⟩ := hl.compress_length page work hc
    dsimp only
    split
    case isTrue => exact hraw
    case isFalse h =>
      rw [not_le] at h
      have hcover : work.length ≤ o.chunkSize * ((work.length - 1) / o.chunkSize + 1) := by
        have hdiv := Nat.div_add_mod (work.length - 1) o.chunkSize
        have hmod := Nat.mod_lt (work.length - 1) hcs
        rw [Nat.mul_add]
        omega
      have hlt : (work.length - 1) / o.chunkSize + 1 < o.chunksPerBlock := by
        rw [← hmul, Nat.mul_comm o.chunksPerBlock] at h
        exact Nat.lt_of_mul_lt_mul_left h
      refine ⟨Nat.succ_pos _, hlt.le, ?_, ?_⟩
      · dsimp only
        rw [List.length_append, List.length_replicate, Nat.mul_comm _ o.chunkSize]
        omega
      · rw [if_neg hlt.ne]
        exact hl.decompress page work _ hlen hc

lemma needChunks_bounds (hn : n ≤ o.chunksPerBlock) : n ≤ needChunks o n ∧ needChunks o n ≤ o.chunksPerBlock := by
  have hpre : o.compressPreallocChunks < o.chunksPerBlock := o.prealloc_range
  unfold needChunks
  split
  · omega
  · exact ⟨le_rfl, hn⟩

lemma getExtentAddress_set {b' : Nat} {m : Nat} {r : Bool} (hb : b < h.cfsExtentAddress.length) :
    getExtentAddress ⟨n, m, r, h.cfsExtentAddress.set b a⟩ b' = if b' = b then a else getExtentAddress h b' := by
  unfold getExtentAddress
  simp only [List.getD_eq_getElem?_getD, List.getElem?_set]
  split
  case isTrue he =>
    subst he
    rw [if_pos rfl]
    rfl
  case isFalse he => rw [if_neg fun h => he h.symm]

/-- The header once a block may use `use` chunks. -/
lemma extendChunksOfBlock_ok (hok : HeaderOk o h) {need use : Nat} (hb : b < CFS_LOGIC_BLOCKS_PER_EXTENT)
    (huse : use ≤ need) (hneed : need ≤ o.chunksPerBlock) :
    HeaderOk o (extendChunksOfBlock h b need use).1 ∧
      (∀ b' ≠ b, getExtentAddress (extendChunksOfBlock h b need use).1 b' = getExtentAddress h b') ∧
      (getExtentAddress (extendChunksOfBlock h b need use).1 b).nchunks = use ∧
      ((extendChunksOfBlock h b need use).2 = false → (extendChunksOfBlock h b need use).1 = h) := by
  have hbl : b < h.cfsExtentAddress.length := by
    rw [hok.length]
    exact hb
  have hget : getExtentAddress h b = h.cfsExtentAddress[b] := List.getD_eq_getElem _ _ hbl
  have ha := getExtentAddress_ok hok b
  unfold extendChunksOfBlock
  dsimp only
  refine ⟨⟨?_, ?_, ?_, hok.nblocks_le⟩, fun b' hne => ?_, ?_, fun hch => ?_⟩
  · rw [List.length_set, hok.length]
  · intro a' hmem
    rcases List.mem_or_eq_of_mem_set hmem with hmem | rfl
    · exact hok.addresses a' hmem
    · refine ⟨rfl, ?_, ?_⟩
      · dsimp only
        split
        case isTrue hg =>
          unfold CfsExtentAddress.allocatedChunks at *
          rw [List.length_append, List.length_range']
          omega
        case isFalse hg => exact huse.trans (not_lt.mp hg)
      · dsimp only
        split
        case isTrue hg =>
          unfold CfsExtentAddress.allocatedChunks at *
          rw [List.length_append, List.length_range']
          omega
        case isFalse => exact ha.allocated_le
  · have hcl : b < h.chunks.length := by rwa [CfsExtentHeader.chunks, List.length_map]
    have hcb : h.chunks[b] = (getExtentAddress h b).chunknos := by
      rw [← chunks_getD, List.getD_eq_getElem _ _ hcl]
    rw [CfsExtentHeader.chunks, List.map_set]
    dsimp only
    split
    case isTrue hg =>
      rw [← hcb]
      exact hok.dense.grow hcl _
    case isFalse =>
      rw [← hcb]
      have hsame : (h.cfsExtentAddress.map (·.chunknos)).set b h.chunks[b] = h.chunks :=
        List.set_getElem_self hcl
      rw [hsame]
      exact hok.dense
  · rw [getExtentAddress_set hbl, if_neg hne]
  · rw [getExtentAddress_set hbl, if_pos rfl]
  · simp only [decide_eq_false_iff_not, not_or, not_not] at hch
    obtain ⟨hg, hn, hsum⟩ := hch
    simp only [hg, if_false] at hsum ⊢
    have heq : (⟨addrChecksum32 ⟨(getExtentAddress h b).checksum, use, (getExtentAddress h b).chunknos⟩, use,
        (getExtentAddress h b).chunknos⟩ : CfsExtentAddress) = h.cfsExtentAddress[b] := by
      rw [← hsum, ← hn, ← hget]
    rw [heq, List.set_getElem_self]

/-- The block of a page, with the header that gives it its chunks. -/
def writeHeader (o : CfsOption) (h : CfsExtentHeader) (b : Nat) (page : List UInt8) : CfsExtentHeader × Bool :=
  extendChunksOfBlock h b (needChunks o (cfsCompressPage o page).2) (cfsCompressPage o page).2

/-- The chunks that the page is written to. -/
def writeTargets (o : CfsOption) (h : CfsExtentHeader) (b : Nat) (page : List UInt8) : List Nat :=
  (getExtentAddress (writeHeader o h b page).1 b).chunknos.take (cfsCompressPage o page).2

lemma writeHeader_ok (hl : o.Lawful) (hok : HeaderOk o h) (hb : b < CFS_LOGIC_BLOCKS_PER_EXTENT)
    (hlen : page.length = BLCKSZ) :
    HeaderOk o (writeHeader o h b page).1 ∧
      (∀ b' ≠ b, getExtentAddress (writeHeader o h b page).1 b' = getExtentAddress h b') ∧
      (getExtentAddress (writeHeader o h b page).1 b).nchunks = (cfsCompressPage o page).2 ∧
      ((writeHeader o h b page).2 = false → (writeHeader o h b page).1 = h) := by
  obtain ⟨-, hle, -⟩ := cfsCompressPage_spec hl hlen
  obtain ⟨huse, hneed⟩ := needChunks_bounds hle
  exact extendChunksOfBlock_ok hok hb huse hneed

/-- A write that was cut off leaves the other blocks as they were. -/
lemma ExtentOk.torn (hl : o.Lawful) (he : ExtentOk o e pages) (hload : SameMap o e.disk h)
    (hb : b < CFS_LOGIC_BLOCKS_PER_EXTENT) (hlen : page.length = BLCKSZ)
    (hdata : ∀ c ∉ writeTargets o h b page, data c = e.data c) (hcs : ∀ c, (data c).length ≤ o.chunkSize) :
    ExtentOk o { e with data := data } (update pages b none) := by
  obtain ⟨hok', hother, -, -⟩ := writeHeader_ok hl hload.ok hb hlen
  refine ⟨he.disk, he.pca, hcs, fun b' hb' page' hp => ?_⟩
  rcases eq_or_ne b' b with rfl | hne
  · rw [update_self] at hp
    cases hp
  · rw [update_of_ne hne] at hp
    rw [← he.page b' hb' page' hp]
    apply readAddress_congr
    intro c hc
    apply hdata
    intro ht
    rw [← hload.getExtentAddress, ← hother b' hne] at hc
    exact hok'.disjoint hne hc (List.mem_of_mem_take ht)

/-- A new page goes only to a block without chunks in use, as a page of zeros. -/
def NewPageOk (h : CfsExtentHeader) (b : Nat) (page : List UInt8) : Prop :=
  pageIsNew page = true → page = zeroPage ∧ (getExtentAddress h b).nchunks = 0

lemma cfsWritePage_ok (hl : o.Lawful) (he : ExtentOk o e pages) (hlen : page.length = BLCKSZ)
    (hnew : NewPageOk e.disk (n % CFS_LOGIC_BLOCKS_PER_EXTENT) page) :
    ∃ e', cfsWritePage o e n page = some e' ∧
      ExtentOk o e' (update pages (n % CFS_LOGIC_BLOCKS_PER_EXTENT) (some page)) := by
  have hb : n % CFS_LOGIC_BLOCKS_PER_EXTENT < CFS_LOGIC_BLOCKS_PER_EXTENT := Nat.mod_lt _ (by decide)
  unfold cfsWritePage
  dsimp only
  generalize n % CFS_LOGIC_BLOCKS_PER_EXTENT = b at hnew hb ⊢
  split
  case isTrue hn =>
    obtain ⟨rfl, hzero⟩ := hnew hn
    refine ⟨e, rfl, he.disk, he.pca, he.chunk_le, fun b' hb' page' hp => ?_⟩
    rcases eq_or_ne b' b with rfl | hne
    · rw [update_self] at hp
      rw [← hp, readAddress, if_pos hzero]
    · rw [update_of_ne hne] at hp
      exact he.page b' hb' page' hp
  case isFalse =>
    obtain ⟨h, hload, hsame⟩ := he.load
    rw [hload, Option.bind_some]
    obtain ⟨hok', hother, hn, hunch⟩ := writeHeader_ok hl hsame.ok hb hlen
    obtain ⟨hpos, hle, hbuf, hdec⟩ := cfsCompressPage_spec hl hlen
    have ht : ∀ c ∈ writeTargets o h b page, ¬ c > o.maxChunks := fun c hc =>
      not_lt.mpr ((hok'.chunkno (List.mem_of_mem_take hc)).2.trans hok'.allocated_le)
    have hlt : (writeTargets o h b page).length = (cfsCompressPage o page).2 := by
      unfold writeTargets
      rw [List.length_take, ← hn]
      exact min_eq_left (getExtentAddress_ok hok' b).nchunks_le
    have hread : (writeTargets o h b page).flatMap
        (writeChunks o.chunkSize (writeTargets o h b page) (cfsCompressPage o page).1 e.data) =
          (cfsCompressPage o page).1 :=
      writeChunks_read ((hok'.nodup b).sublist (List.take_sublist _ _)) (by rw [hlt, hbuf])
    refine ⟨_, if_neg fun ⟨c, hc, hgt⟩ => ht c hc hgt, ?_⟩
    have hpage : ∀ b' < CFS_LOGIC_BLOCKS_PER_EXTENT, ∀ page', update pages b (some page) b' = some page' →
        readAddress o (getExtentAddress (writeHeader o h b page).1 b')
          (writeChunks o.chunkSize (writeTargets o h b page) (cfsCompressPage o page).1 e.data) = some page' := by
      intro b' hb' page' hp
      rcases eq_or_ne b' b with rfl | hne
      · rw [update_self] at hp
        rw [← hp, readAddress, hn, if_neg hpos.ne']
        dsimp only
        rw [show (getExtentAddress (writeHeader o h b' page).1 b').chunknos.take (cfsCompressPage o page).2 =
          writeTargets o h b' page from rfl, hread]
        exact hdec
      · rw [update_of_ne hne] at hp
        rw [← he.page b' hb' page' hp, hother b' hne, hsame.getExtentAddress]
        apply readAddress_congr
        intro c hc
        apply writeChunks_other
        intro hmem
        rw [← hsame.getExtentAddress, ← hother b' hne] at hc
        exact hok'.disjoint hne hc (List.mem_of_mem_take hmem)
    have hflush := ExtentOk.flush (e := ⟨e.pca, e.disk, writeChunks o.chunkSize (writeTargets o h b page)
      (cfsCompressPage o page).1 e.data⟩) hok' (writeChunks_length he.chunk_le) hpage
    cases hch : (writeHeader o h b page).2 with
    | true =>
      rw [show (extendChunksOfBlock h b (needChunks o (cfsCompressPage o page).2) (cfsCompressPage o page).2).2 = true
        from hch]
      exact hflush
    | false =>
      -- the page in the buffer is the one on the disk
      have hsame' := hunch hch
      rw [show (extendChunksOfBlock h b (needChunks o (cfsCompressPage o page).2) (cfsCompressPage o page).2).2 = false
        from hch]
      refine ⟨he.disk, ?_, hflush.chunk_le, fun b' hb' page' hp => ?_⟩
      · rintro h' hp
        obtain rfl := Option.some.inj hp
        rw [show (extendChunksOfBlock h b (needChunks o (cfsCompressPage o page).2) (cfsCompressPage o page).2).1 = h
          from hsame']
        exact hsame
      · have hread' := hpage b' hb' page' hp
        rw [hsame', hsame.getExtentAddress] at hread'
        exact hread'

/-- A new header, whatever the data area holds. -/
lemma newExtent_ok (hcs : ∀ c, (data c).length ≤ o.chunkSize) :
    ExtentOk o ⟨some initExtentHeader, initExtentHeader, data⟩ fun _ => some zeroPage where
  disk := initExtentHeader_ok o
  pca := by
    rintro h hp
    obtain rfl := Option.some.inj hp
    exact ⟨initExtentHeader_ok o, rfl, rfl⟩
  chunk_le := hcs
  page b hb page hp := by
    rw [← hp, readAddress, if_pos]
    unfold getExtentAddress initExtentHeader
    rw [List.getD_replicate _ hb]
    rfl

lemma initExtent_ok (o : CfsOption) : ExtentOk o (initExtent o) fun _ => some zeroPage :=
  newExtent_ok fun _ => (List.length_replicate).le

lemma ExtentOk.extendNblocks (he : ExtentOk o e pages) (hb : b < CFS_LOGIC_BLOCKS_PER_EXTENT) :
    ∃ e', ((pcaBufReadPage o e).bind fun h =>
        some (e.pcaBufFreePage (if h.nblocks < b + 1 then { h with nblocks := b + 1 } else h) true)) = some e' ∧
      ExtentOk o e' pages := by
  obtain ⟨h, hload, hsame⟩ := he.load
  rw [hload, Option.bind_some]
  refine ⟨_, rfl, ExtentOk.flush ?_ he.chunk_le fun b' hb' page hp => ?_⟩
  · split
    · exact ⟨hsame.ok.length, hsame.ok.addresses, hsame.ok.dense, hb⟩
    · exact hsame.ok
  · rw [← he.page b' hb' page hp, ← hsame.getExtentAddress]
    split <;> rfl

/-- The extent that a new block goes to: its first block makes it anew. -/
def extendBase (o : CfsOption) (file : Option Extent) (b : Nat) : Option Extent :=
  if b = 0 then some (initExtent o) else file

lemma cfsExtendExtent_ok (hl : o.Lawful) {file : Option Extent}
    (hbase : extendBase o file (n % CFS_LOGIC_BLOCKS_PER_EXTENT) = some e) (he : ExtentOk o e pages)
    (hlen : page.length = BLCKSZ) (hnew : NewPageOk e.disk (n % CFS_LOGIC_BLOCKS_PER_EXTENT) page) :
    ∃ e', cfsExtendExtent o file n page = some e' ∧
      ExtentOk o e' (update pages (n % CFS_LOGIC_BLOCKS_PER_EXTENT) (some page)) := by
  obtain ⟨e₁, hwrite, he₁⟩ := cfsWritePage_ok hl he hlen hnew
  obtain ⟨e₂, hext, he₂⟩ := he₁.extendNblocks (Nat.mod_lt n (show 0 < CFS_LOGIC_BLOCKS_PER_EXTENT by decide))
  refine ⟨e₂, ?_, he₂⟩
  unfold cfsExtendExtent
  unfold extendBase at hbase
  dsimp only
  rw [hbase, Option.bind_some, hwrite, Option.bind_some]
  exact hext

/-! ## Truncation -/

lemma fileAllocate_eq {start len : Nat} (h : (c - 1) * o.chunkSize + (data c).length ≤ start) :
    fileAllocate o data start len c = data c := by
  unfold fileAllocate
  apply List.ext_getElem (by simp)
  intro j hj hj'
  rw [List.getElem_mapIdx, if_neg]
  omega

lemma fileAllocate_length (o : CfsOption) (data : Nat → List UInt8) (start len c : Nat) :
    (fileAllocate o data start len c).length = (data c).length := List.length_mapIdx

/-- A hole behind a chunk. -/
lemma fileAllocate_behind {start len m : Nat} (hcs : (data c).length ≤ o.chunkSize) (hc : 1 ≤ c) (hm : c ≤ m)
    (h : m * o.chunkSize ≤ start) : fileAllocate o data start len c = data c := by
  apply fileAllocate_eq
  have hle : c * o.chunkSize ≤ m * o.chunkSize := Nat.mul_le_mul_right _ hm
  have hsucc : (c - 1) * o.chunkSize + o.chunkSize = c * o.chunkSize := by
    rw [← Nat.succ_mul, Nat.succ_eq_add_one, Nat.sub_add_cancel hc]
  omega

lemma getExtentAddress_truncate (i : Nat) :
    getExtentAddress (truncateHeader h b) i =
      if i < b then getExtentAddress h i else truncateAddress (getExtentAddress h i) := by
  have hzero : truncateAddress zeroAddress = zeroAddress := rfl
  unfold getExtentAddress truncateHeader
  dsimp only
  by_cases hlen : i < h.cfsExtentAddress.length
  · rw [List.getD_eq_getElem _ _ (by simp; omega), List.getD_eq_getElem _ _ hlen, List.getElem_append]
    simp only [List.length_take]
    split
    case isTrue hi => rw [if_pos (by omega), List.getElem_take]
    case isFalse hi =>
      rw [if_neg (by omega), List.getElem_map, List.getElem_drop]
      congr 2
      omega
  · rw [List.getD_eq_default _ _ (by simp; omega), List.getD_eq_default _ _ (not_lt.mp hlen), hzero, ite_self]

lemma truncateHeader_ok (hok : HeaderOk o h) (hb : b < CFS_LOGIC_BLOCKS_PER_EXTENT) :
    HeaderOk o (truncateHeader h b) where
  length := by
    rw [truncateHeader, List.length_append, List.length_map, ← List.length_append, List.take_append_drop, hok.length]
  addresses a ha := by
    rw [truncateHeader, List.mem_append, List.mem_map] at ha
    rcases ha with ha | ⟨a, ha, rfl⟩
    · exact hok.addresses a (List.mem_of_mem_take ha)
    · have hold := hok.addresses a (List.mem_of_mem_drop ha)
      exact ⟨rfl, Nat.zero_le _, hold.allocated_le⟩
  dense := by
    have hc : (truncateHeader h b).chunks = h.chunks := by
      rw [CfsExtentHeader.chunks, truncateHeader, List.map_append, List.map_map, CfsExtentHeader.chunks]
      conv_rhs => rw [← List.take_append_drop b h.cfsExtentAddress, List.map_append]
      rfl
    rw [hc]
    exact hok.dense
  nblocks_le := hb.le

/-- The header page of the truncation is written. -/
lemma ExtentOk.truncate (he : ExtentOk o e pages) (hsame : SameMap o e.disk h) (hb : b < CFS_LOGIC_BLOCKS_PER_EXTENT)
    (hcs : ∀ c, (data c).length ≤ o.chunkSize)
    (hdata : ∀ i < b, ∀ c ∈ (getExtentAddress h i).chunknos, data c = e.data c) :
    ExtentOk o ({ e with data := data }.pcaBufFreePage (truncateHeader h b) true)
      fun i => if i < b then pages i else some zeroPage := by
  refine ExtentOk.flush (truncateHeader_ok hsame.ok hb) hcs fun i hi page hp => ?_
  rw [getExtentAddress_truncate]
  split at hp
  case isTrue hlt =>
    rw [if_pos hlt, ← he.page i hi page hp, ← hsame.getExtentAddress]
    exact readAddress_congr (hdata i hlt)
  case isFalse hge =>
    rw [if_neg hge, ← hp, readAddress, truncateAddress, if_pos rfl]

lemma cfsMdTruncate_ok (he : ExtentOk o e pages) (hn : n % CFS_LOGIC_BLOCKS_PER_EXTENT ≠ 0) :
    ∃ e', cfsMdTruncate o e n = some (some e') ∧
      ExtentOk o e' fun i => if i < n % CFS_LOGIC_BLOCKS_PER_EXTENT then pages i else some zeroPage := by
  have hb : n % CFS_LOGIC_BLOCKS_PER_EXTENT < CFS_LOGIC_BLOCKS_PER_EXTENT := Nat.mod_lt _ (by decide)
  obtain ⟨h, hload, hsame⟩ := he.load
  unfold cfsMdTruncate
  dsimp only
  generalize n % CFS_LOGIC_BLOCKS_PER_EXTENT = b at hn hb ⊢
  rw [if_neg hn, hload, Option.bind_some]
  refine ⟨_, rfl, he.truncate hsame hb (fun c => ?_) fun i hi c hc => ?_⟩
  · split
    · rw [fileAllocate_length]
      exact he.chunk_le c
    · exact he.chunk_le c
  · split
    · have hbl : i < h.cfsExtentAddress.length := by
        rw [hsame.ok.length]
        omega
      have hmem : getExtentAddress h i ∈ h.cfsExtentAddress.take b := by
        rw [getExtentAddress, List.getD_eq_getElem _ _ hbl, ← List.getElem_take (j := b) (h := by simp; omega)]
        exact List.getElem_mem _
      have hmax : c ≤ maxChunkno (h.cfsExtentAddress.take b) := by
        rw [maxChunkno_eq]
        exact le_maxOf (List.mem_flatten_of_mem (List.mem_map_of_mem hmem) hc)
      exact fileAllocate_behind (he.chunk_le c) (hsame.ok.chunkno hc).1 hmax (Nat.le_add_right _ _)
    · rfl

/-! ## Chunk recycling -/

lemma sortOutAddresses_chunks (addrs : List CfsExtentAddress) (n : Nat) :
    (sortOutAddresses addrs n).map (·.chunknos) = renumber (addrs.map (·.nchunks)) n := by
  induction addrs generalizing n with
  | nil => rfl
  | cons a addrs ih =>
    rw [sortOutAddresses, List.map_cons, List.map_cons, renumber, ih]

lemma sortOutAddresses_length (addrs : List CfsExtentAddress) (n : Nat) :
    (sortOutAddresses addrs n).length = addrs.length := by
  induction addrs generalizing n with
  | nil => rfl
  | cons a addrs ih => rw [sortOutAddresses, List.length_cons, List.length_cons, ih]

lemma sortOutAddresses_getD (addrs : List CfsExtentAddress) (n i : Nat) :
    ((sortOutAddresses addrs n).getD i zeroAddress).nchunks = (addrs.getD i zeroAddress).nchunks ∧
      ((sortOutAddresses addrs n).getD i zeroAddress).chunknos.length = (addrs.getD i zeroAddress).nchunks := by
  induction addrs generalizing n i with
  | nil => exact ⟨rfl, rfl⟩
  | cons a addrs ih =>
    cases i with
    | zero => exact ⟨rfl, List.length_range'⟩
    | succ i =>
      simp only [sortOutAddresses, List.getD_cons_succ]
      exact ih _ i

lemma sortOutAddresses_ok (hok : ∀ a ∈ addrs, AddressOk o a) (n : Nat) :
    ∀ a ∈ sortOutAddresses addrs n, AddressOk o a := by
  induction addrs generalizing n with
  | nil => intro a ha; cases ha
  | cons a addrs ih =>
    intro a' ha'
    rw [sortOutAddresses, List.mem_cons] at ha'
    rcases ha' with rfl | ha'
    · have ha := hok a (by simp)
      refine ⟨rfl, ?_, ?_⟩
      · exact (List.length_range').ge
      · exact (List.length_range').le.trans (ha.nchunks_le.trans ha.allocated_le)
    · exact ih (fun x hx => hok x (by simp [hx])) _ a' ha'

/-- Every block finds its chunks where they were copied to. -/
lemma sortOut_read (data : Nat → List UInt8) (zero : List UInt8) (addrs : List CfsExtentAddress)
    (hn : ∀ a ∈ addrs, a.nchunks ≤ a.chunknos.length) (done : List (List UInt8)) (i : Nat) :
    ((sortOutAddresses addrs done.length).getD i zeroAddress).chunknos.map
        (fun c => (done ++ sortOutChunks data addrs).getD (c - 1) zero) =
      ((addrs.getD i zeroAddress).chunknos.take (addrs.getD i zeroAddress).nchunks).map data := by
  induction addrs generalizing done i with
  | nil => rfl
  | cons a addrs ih =>
    have hlen : ((a.chunknos.take a.nchunks).map data).length = a.nchunks := by
      rw [List.length_map, List.length_take]
      exact min_eq_left (hn a (by simp))
    have hsplit : sortOutChunks data (a :: addrs) = (a.chunknos.take a.nchunks).map data ++ sortOutChunks data addrs :=
      rfl
    cases i with
    | zero =>
      simp only [sortOutAddresses, List.getD_cons_zero]
      rw [hsplit]
      apply List.ext_getElem
      · rw [List.length_map, List.length_range', hlen]
      · intro j hj hj'
        rw [hlen] at hj'
        rw [List.getElem_map, List.getElem_range', Nat.one_mul, show done.length + 1 + j - 1 = done.length + j by omega,
          List.getD_append_right _ _ _ _ (by omega), Nat.add_sub_cancel_left,
          List.getD_append _ _ _ _ (by omega), List.getD_eq_getElem]
    | succ i =>
      simp only [sortOutAddresses, List.getD_cons_succ]
      have hrest := ih (fun x hx => hn x (by simp [hx])) (done ++ (a.chunknos.take a.nchunks).map data) i
      rw [List.length_append, hlen, List.append_assoc] at hrest
      rw [hsplit]
      exact hrest

/-- The header that recycling writes. -/
lemma cfsSortOutChunk_header (hok : HeaderOk o h) (data : Nat → List UInt8) :
    HeaderOk o (cfsSortOutChunk o h data).1 where
  length := by
    rw [cfsSortOutChunk, List.length_append, List.length_replicate, sortOutAddresses_length, List.length_take,
      hok.length]
    have := hok.nblocks_le
    omega
  addresses a ha := by
    rw [cfsSortOutChunk, List.mem_append] at ha
    rcases ha with ha | ha
    · exact sortOutAddresses_ok (fun x hx => hok.addresses x (List.mem_of_mem_take hx)) _ a ha
    · rw [List.eq_of_mem_replicate ha]
      exact zeroAddress_ok o
  dense := by
    rw [cfsSortOutChunk, CfsExtentHeader.chunks, List.map_append, sortOutAddresses_chunks, List.map_replicate]
    exact (renumber_dense _).append_nil _
  nblocks_le := hok.nblocks_le

lemma cfsSortOutChunk_address (o : CfsOption) (h : CfsExtentHeader) (data : Nat → List UInt8) (i : Nat) :
    getExtentAddress (cfsSortOutChunk o h data).1 i =
      (sortOutAddresses (h.cfsExtentAddress.take h.nblocks) 0).getD i zeroAddress := by
  unfold getExtentAddress cfsSortOutChunk
  dsimp only
  by_cases hi : i < (sortOutAddresses (h.cfsExtentAddress.take h.nblocks) 0).length
  · rw [List.getD_append _ _ _ _ hi]
  · rw [List.getD_append_right _ _ _ _ (not_lt.mp hi), List.getD_eq_default _ _ (not_lt.mp hi)]
    by_cases hr : i - (sortOutAddresses (h.cfsExtentAddress.take h.nblocks) 0).length <
      CFS_LOGIC_BLOCKS_PER_EXTENT - (h.cfsExtentAddress.take h.nblocks).length
    · rw [List.getD_replicate _ hr]
    · exact List.getD_eq_default _ _ (by rw [List.length_replicate]; exact not_lt.mp hr)

/-- The extent with its chunks in order. -/
lemma ExtentOk.sortOut (he : ExtentOk o e pages) (hsame : SameMap o e.disk h) (hcs : ∀ c, (data c).length ≤ o.chunkSize)
    (hdata : ∀ c, 1 ≤ c → c ≤ (cfsSortOutChunk o h e.data).1.allocatedChunks →
      data c = (cfsSortOutChunk o h e.data).2 c) :
    ExtentOk o ⟨none, (cfsSortOutChunk o h e.data).1, data⟩ fun i =>
      if i < h.nblocks then pages i else some zeroPage where
  disk := cfsSortOutChunk_header hsame.ok e.data
  pca := fun _ hp => by cases hp
  chunk_le := hcs
  page i hi page hp := by
    have hok' := cfsSortOutChunk_header hsame.ok e.data
    have hcongr : readAddress o (getExtentAddress (cfsSortOutChunk o h e.data).1 i) data =
        readAddress o (getExtentAddress (cfsSortOutChunk o h e.data).1 i) (cfsSortOutChunk o h e.data).2 :=
      readAddress_congr fun c hc => hdata c (hok'.chunkno hc).1 (hok'.chunkno hc).2
    dsimp only
    rw [hcongr, cfsSortOutChunk_address]
    obtain ⟨hn, hlen⟩ := sortOutAddresses_getD (h.cfsExtentAddress.take h.nblocks) 0 i
    split at hp
    case isTrue hlt =>
      have hget : (h.cfsExtentAddress.take h.nblocks).getD i zeroAddress = getExtentAddress h i := by
        rw [getExtentAddress, List.getD_eq_getElem?_getD, List.getD_eq_getElem?_getD, List.getElem?_take_of_lt hlt]
      have hread := sortOut_read e.data (List.replicate o.chunkSize 0) (h.cfsExtentAddress.take h.nblocks)
        (fun a ha => (hsame.ok.addresses a (List.mem_of_mem_take ha)).nchunks_le) [] i
      rw [← he.page i hi page hp, ← hsame.getExtentAddress, readAddress, readAddress]
      rw [hget] at hn hlen hread
      rw [List.length_nil, List.nil_append] at hread
      rw [hn, List.take_of_length_le hlen.le, List.flatMap_def, List.flatMap_def, ← hread]
      rfl
    case isFalse hge =>
      have hget : (h.cfsExtentAddress.take h.nblocks).getD i zeroAddress = zeroAddress :=
        List.getD_eq_default _ _ (by rw [List.length_take]; omega)
      rw [hget] at hn
      rw [← hp, readAddress, hn]
      rfl

lemma cfsSortOutChunk_length (h : CfsExtentHeader) (hcs : ∀ c, (data c).length ≤ o.chunkSize) (c : Nat) :
    ((cfsSortOutChunk o h data).2 c).length ≤ o.chunkSize := by
  unfold cfsSortOutChunk
  dsimp only
  by_cases hc : c - 1 < (sortOutChunks data (h.cfsExtentAddress.take h.nblocks)).length
  · rw [List.getD_eq_getElem _ _ hc]
    have hmem := List.getElem_mem hc
    generalize (sortOutChunks data (h.cfsExtentAddress.take h.nblocks))[c - 1] = chunk at hmem ⊢
    obtain ⟨a, -, ha⟩ := List.mem_flatMap.mp hmem
    obtain ⟨c', -, rfl⟩ := List.mem_map.mp ha
    exact hcs c'
  · rw [List.getD_eq_default _ _ (not_lt.mp hc), List.length_replicate]

lemma cfsPunchHole_eq (hcs : (data c).length ≤ o.chunkSize) (h1 : 1 ≤ c) (hc : c ≤ h.allocatedChunks) :
    cfsPunchHole o h data c = data c := by
  unfold cfsPunchHole
  split
  · refine fileAllocate_behind hcs h1 hc ?_
    unfold MIN_FALLOCATE_SIZE
    omega
  · rfl

lemma cfsPunchHole_length (o : CfsOption) (h : CfsExtentHeader) (data : Nat → List UInt8) (c : Nat) :
    (cfsPunchHole o h data c).length = (data c).length := by
  unfold cfsPunchHole
  split
  · rw [fileAllocate_length]
  · rfl

/-- The pages after recycling: nothing is kept of the blocks that are not part of the relation. -/
def recycledPages (h : CfsExtentHeader) (pages : Nat → Option (List UInt8)) : Nat → Option (List UInt8) :=
  if h.recycleInOrder then pages else fun i => if i < h.nblocks then pages i else some zeroPage

lemma cfsRecycleChunkInExt_ok (he : ExtentOk o e pages) (hload : pcaBufReadPage o e = some h)
    (hsame : SameMap o e.disk h) :
    ∃ e', cfsRecycleChunkInExt o e = some e' ∧ ExtentOk o e' (recycledPages h pages) := by
  unfold cfsRecycleChunkInExt recycledPages
  rw [hload, Option.bind_some]
  split
  case isTrue =>
    refine ⟨_, rfl, he.disk, ?_, he.chunk_le, he.page⟩
    rintro h' hp
    obtain rfl := Option.some.inj hp
    exact hsame
  case isFalse =>
    have hcs := cfsSortOutChunk_length h he.chunk_le
    exact ⟨_, rfl, he.sortOut hsame (fun c => (cfsPunchHole_length o _ _ c).trans_le (hcs c))
      fun c h1 hc => cfsPunchHole_eq (hcs c) h1 hc⟩

/-- Recycling that was cut off in the write of the extent is done again from the assist file. -/
lemma mdAssistFileProcess_ok (he : ExtentOk o e pages) (hsame : SameMap o e.disk h) (horder : h.recycleInOrder = false)
    {torn : Extent} (hpca : torn.pca = none)
    (htorn : torn.disk = e.disk ∨ torn.disk = (cfsSortOutChunk o h e.data).1 ∧
      torn.data = (cfsSortOutChunk o h e.data).2) :
    ∃ e', mdAssistFileProcess o (cfsSortOutChunk o h e.data) torn = some e' ∧
      ExtentOk o e' (recycledPages h pages) := by
  have hcs := cfsSortOutChunk_length h he.chunk_le
  have hdone := he.sortOut hsame hcs fun _ _ _ => rfl
  have hpages : recycledPages h pages = fun i => if i < h.nblocks then pages i else some zeroPage := by
    rw [recycledPages, horder]
    rfl
  rw [hpages]
  unfold mdAssistFileProcess pcaBufReadPage
  rw [hpca]
  dsimp only
  rcases htorn with hdisk | ⟨hdisk, hdata⟩
  · obtain ⟨h', hcheck, hsame'⟩ := checkAndRepair_ok he.disk
    rw [hdisk, hcheck, Option.bind_some, if_neg]
    · exact ⟨_, rfl, hdone⟩
    · rw [hsame'.inOrder, ← hsame.inOrder, horder]
      decide
  · obtain ⟨h', hcheck, hsame'⟩ := checkAndRepair_ok (cfsSortOutChunk_header hsame.ok e.data)
    rw [hdisk, hcheck, Option.bind_some, if_pos (by rw [hsame'.inOrder]; rfl)]
    refine ⟨_, rfl, hdone.disk, ?_, ?_, ?_⟩
    · rintro h'' hp
      obtain rfl := Option.some.inj hp
      exact hsame'
    · rw [hdata]
      exact hcs
    · rw [hdata]
      exact hdone.page

/-! ## Recovery -/

/-- No chunk of a block at or behind `nblocks` is above those of the blocks below. -/
def KeptCovered (h : CfsExtentHeader) : Prop :=
  ∀ c ∈ ((h.cfsExtentAddress.drop h.nblocks).map (·.chunknos)).flatten,
    ∃ c' ∈ ((h.cfsExtentAddress.take h.nblocks).map (·.chunknos)).flatten, c ≤ c'

lemma mdRecoveryPcaPage_ok (he : ExtentOk o e pages) (hload : pcaBufReadPage o e = some h) (hsame : SameMap o e.disk h)
    (hkept : KeptCovered h) : ∃ e', mdRecoveryPcaPage o e = some e' ∧ ExtentOk o e' pages := by
  have hmax : maxChunkno (h.cfsExtentAddress.take h.nblocks) = h.allocatedChunks := by
    rw [maxChunkno_eq, ← hsame.ok.dense.maxOf, CfsExtentHeader.chunks]
    conv_rhs => rw [← List.take_append_drop h.nblocks h.cfsExtentAddress, List.map_append, List.flatten_append]
    apply le_antisymm
    · exact maxOf_le_iff.mpr fun c hc => le_maxOf (List.mem_append_left _ hc)
    · refine maxOf_le_iff.mpr fun c hc => ?_
      rcases List.mem_append.mp hc with hc | hc
      · exact le_maxOf hc
      · obtain ⟨c', hc', hle⟩ := hkept c hc
        exact hle.trans (le_maxOf hc')
  unfold mdRecoveryPcaPage
  rw [hload, Option.bind_some, hmax]
  refine ⟨_, rfl, ExtentOk.flush hsame.ok he.chunk_le fun b hb page hp => ?_⟩
  rw [← he.page b hb page hp, ← hsame.getExtentAddress]

end GaussKernel.Cfs
