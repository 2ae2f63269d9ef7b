import Mathlib

/-!
# Extents of compressed relations

Model of one extent of a compressed file (`cfs_md.cpp`, `cfs_buffers.cpp`): the header page (pca) with the chunk numbers
of every block, its copy in the pca buffer, and the chunks of the data area. `none` is an `ereport(ERROR)`, or the read
that returns -1.

`CompressPage` and `DecompressPage` are parameters. Pages are lists of `BLCKSZ` bytes.
-/

namespace GaussKernel.Cfs

def BLCKSZ : Nat := 8192

def CFS_LOGIC_BLOCKS_PER_EXTENT : Nat := 128

def MIN_FALLOCATE_SIZE : Nat := 4096

/-- `RelFileCompressOption`, as `SetupPageCompressForRelation` admits it, and `zero_damaged_pages`. -/
structure CfsOption where
  compressChunkSize : Nat
  compressPreallocChunks : Nat
  /-- `none` where the page is to be stored as it is: an error, or the size `BLCKSZ`. -/
  compressPage : List UInt8 → Option (List UInt8)
  decompressPage : List UInt8 → Option (List UInt8)
  zeroDamagedPages : Bool
  chunkSize_range : compressChunkSize < 4
  prealloc_range : compressPreallocChunks < 2 ^ (compressChunkSize + 1)

/-- `CHUNK_SIZE_LIST` -/
def CfsOption.chunkSize (o : CfsOption) : Nat := 2 ^ (12 - o.compressChunkSize)

/-- `BLCKSZ / chunkSize` -/
def CfsOption.chunksPerBlock (o : CfsOption) : Nat := 2 ^ (o.compressChunkSize + 1)

/-- `CFS_MAX_LOGIC_CHRUNKS_NUMBER` -/
def CfsOption.maxChunks (o : CfsOption) : Nat := CFS_LOGIC_BLOCKS_PER_EXTENT * o.chunksPerBlock

/-- `pd_upper` is 0. -/
def pageIsNew (page : List UInt8) : Bool := page.getD 14 0 = 0 ∧ page.getD 15 0 = 0

def zeroPage : List UInt8 := List.replicate BLCKSZ 0

/-! ## The header page -/

/-- `chunknos` holds the allocated numbers only; the rest of the array is 0. -/
structure CfsExtentAddress where
  checksum : Nat
  nchunks : Nat
  chunknos : List Nat
  deriving DecidableEq

def CfsExtentAddress.allocatedChunks (a : CfsExtentAddress) : Nat := a.chunknos.length

def zeroAddress : CfsExtentAddress := ⟨0, 0, []⟩

structure CfsExtentHeader where
  nblocks : Nat
  allocatedChunks : Nat
  recycleInOrder : Bool
  cfsExtentAddress : List CfsExtentAddress

def getExtentAddress (h : CfsExtentHeader) (blockOffset : Nat) : CfsExtentAddress :=
  h.cfsExtentAddress.getD blockOffset zeroAddress

/-- The chunk numbers of all blocks, block by block. -/
def CfsExtentHeader.chunks (h : CfsExtentHeader) : List (List Nat) := h.cfsExtentAddress.map (·.chunknos)

/-- The sum of 16-bit units taken as 32-bit words. -/
def wordSum : List Nat → Nat
  | [] => 0
  | [x] => x
  | x :: y :: rest => x + 65536 * y + wordSum rest

def addrChecksum32 (a : CfsExtentAddress) : Nat :=
  wordSum ((a.nchunks + 256 * a.allocatedChunks) :: a.chunknos) % 2 ^ 32

/-- The check of one block of `CheckAndRepairCompressAddress`, `global` being the numbers of the blocks before it. -/
def checkAddress (o : CfsOption) (global : List Nat) (a : CfsExtentAddress) : Option CfsExtentAddress :=
  let a := if a.checksum ≠ addrChecksum32 a then zeroAddress else a
  if a.allocatedChunks > o.chunksPerBlock ∨ (∃ c ∈ a.chunknos, c = 0 ∨ c > o.maxChunks ∨ c ∈ global) ∨
      a.nchunks > a.allocatedChunks then
    if o.zeroDamagedPages then some zeroAddress else none
  else some a

def checkAddresses (o : CfsOption) : List CfsExtentAddress → (done : List CfsExtentAddress) →
    Option (List CfsExtentAddress)
  | [], done => some done
  | a :: rest, done =>
    (checkAddress o (done.flatMap (·.chunknos)) a).bind fun a => checkAddresses o rest (done ++ [a])

/-- One more than the last block with chunks in use, `max_nonzero_blocknum + 1`. -/
def nonzeroBlocks : List CfsExtentAddress → (blocknum : Nat) → Nat → Nat
  | [], _, m => m
  | a :: rest, blocknum, m => nonzeroBlocks rest (blocknum + 1) (if a.nchunks > 0 then blocknum + 1 else m)

def maxChunkno (addrs : List CfsExtentAddress) : Nat := (addrs.flatMap (·.chunknos)).foldl max 0

def checkAndRepairCompressAddress (o : CfsOption) (h : CfsExtentHeader) : Option CfsExtentHeader :=
  (checkAddresses o h.cfsExtentAddress []).bind fun addrs => some
    { h with
      nblocks := if h.nblocks < nonzeroBlocks addrs 0 0 then nonzeroBlocks addrs 0 0 else h.nblocks
      allocatedChunks := maxChunkno addrs
      cfsExtentAddress := addrs }

/-! ## The extent -/

structure Extent where
  /-- The page of the pca buffer, once it is loaded. -/
  pca : Option CfsExtentHeader
  disk : CfsExtentHeader
  /-- The chunks of the data area by their number. -/
  data : Nat → List UInt8

/-- `pca_buf_read_page`, which loads the page by `pca_buf_load_page`. -/
def pcaBufReadPage (o : CfsOption) (e : Extent) : Option CfsExtentHeader :=
  match e.pca with
  | some h => some h
  | none => checkAndRepairCompressAddress o e.disk

/-- `pca_buf_free_page` of the changed page -/
def Extent.pcaBufFreePage (e : Extent) (h : CfsExtentHeader) (needWrite : Bool) : Extent :=
  { e with pca := some h, disk := if needWrite then h else e.disk }

/-- `FileAllocate` of bytes of the data area, which punches a hole. -/
def fileAllocate (o : CfsOption) (data : Nat → List UInt8) (start len : Nat) : Nat → List UInt8 := fun chunkno =>
  (data chunkno).mapIdx fun j byte =>
    if start ≤ (chunkno - 1) * o.chunkSize + j ∧ (chunkno - 1) * o.chunkSize + j < start + len then 0 else byte

def cfsReadPage (o : CfsOption) (e : Extent) (logicBlockNumber : Nat) : Option (List UInt8) :=
  (pcaBufReadPage o e).bind fun h =>
    let a := getExtentAddress h (logicBlockNumber % CFS_LOGIC_BLOCKS_PER_EXTENT)
    if a.nchunks = 0 then some zeroPage
    else
      let compressedBuffer := (a.chunknos.take a.nchunks).flatMap e.data
      if a.nchunks = o.chunksPerBlock then some (compressedBuffer.take BLCKSZ)
      else o.decompressPage compressedBuffer

/-- `CfsCompressPage`: the buffer and `nchunks`. -/
def cfsCompressPage (o : CfsOption) (buffer : List UInt8) : List UInt8 × Nat :=
  match o.compressPage buffer with
  | none => (buffer, o.chunksPerBlock)
  | some work =>
    let nchunks := (work.length - 1) / o.chunkSize + 1
    let bufferSize := o.chunkSize * nchunks
    if bufferSize ≥ BLCKSZ then (buffer, o.chunksPerBlock)
    else (work ++ List.replicate (bufferSize - work.length) 0, nchunks)

/-- `ExtendChunksOfBlockCore` for a block of the header. -/
def extendChunksOfBlock (h : CfsExtentHeader) (blockOffset needChunks actualUse : Nat) : CfsExtentHeader × Bool :=
  let a := getExtentAddress h blockOffset
  let grows := a.allocatedChunks < needChunks
  let allocateNumber := needChunks - a.allocatedChunks
  let a' : CfsExtentAddress :=
    { a with
      nchunks := actualUse
      chunknos := if grows then a.chunknos ++ List.range' (h.allocatedChunks + 1) allocateNumber else a.chunknos }
  ({ h with
      allocatedChunks := if grows then h.allocatedChunks + allocateNumber else h.allocatedChunks
      recycleInOrder := if grows then false else h.recycleInOrder
      cfsExtentAddress := h.cfsExtentAddress.set blockOffset { a' with checksum := addrChecksum32 a' } },
    grows ∨ a.nchunks ≠ actualUse ∨ a.checksum ≠ addrChecksum32 a')

/-- Writes a buffer to chunks, piece by piece. -/
def writeChunks (chunkSize : Nat) : (chunknos : List Nat) → (buffer : List UInt8) → (Nat → List UInt8) →
    Nat → List UInt8
  | [], _, data => data
  | c :: cs, buffer, data =>
    writeChunks chunkSize cs (buffer.drop chunkSize) (Function.update data c (buffer.take chunkSize))

def needChunks (o : CfsOption) (nchunks : Nat) : Nat :=
  if o.compressPreallocChunks > nchunks then o.compressPreallocChunks else nchunks

def cfsWritePage (o : CfsOption) (e : Extent) (logicBlockNumber : Nat) (buffer : List UInt8) : Option Extent :=
  if pageIsNew buffer then some e
  else
    (pcaBufReadPage o e).bind fun h =>
      let blockOffset := logicBlockNumber % CFS_LOGIC_BLOCKS_PER_EXTENT
      let (compressedBuffer, nchunks) := cfsCompressPage o buffer
      let (h, changed) := extendChunksOfBlock h blockOffset (needChunks o nchunks) nchunks
      let chunknos := (getExtentAddress h blockOffset).chunknos.take nchunks
      -- the store through a null pointer
      if ∃ c ∈ chunknos, c > o.maxChunks then none
      else some ({ e with data := writeChunks o.chunkSize chunknos compressedBuffer e.data }.pcaBufFreePage h changed)

def initExtentHeader : CfsExtentHeader :=
  ⟨0, 0, false, List.replicate CFS_LOGIC_BLOCKS_PER_EXTENT zeroAddress⟩

/-- The extent once its first block is extended. -/
def initExtent (o : CfsOption) : Extent :=
  ⟨some initExtentHeader, initExtentHeader, fun _ => List.replicate o.chunkSize 0⟩

/-- `CfsExtendExtent`. A file that does not reach the extent has no header page to load. -/
def cfsExtendExtent (o : CfsOption) (file : Option Extent) (logicBlockNumber : Nat) (buffer : List UInt8) :
    Option Extent :=
  let extentOffset := logicBlockNumber % CFS_LOGIC_BLOCKS_PER_EXTENT
  (if extentOffset = 0 then some (initExtent o) else file).bind fun e =>
    (cfsWritePage o e logicBlockNumber buffer).bind fun e =>
      (pcaBufReadPage o e).bind fun h =>
        some (e.pcaBufFreePage (if h.nblocks < extentOffset + 1 then { h with nblocks := extentOffset + 1 } else h)
          true)

/-- The blocks cut off keep their chunk numbers. -/
def truncateAddress (a : CfsExtentAddress) : CfsExtentAddress :=
  let a := { a with nchunks := 0 }
  { a with checksum := addrChecksum32 a }

def truncateHeader (h : CfsExtentHeader) (extentOffset : Nat) : CfsExtentHeader :=
  { h with
    nblocks := extentOffset
    cfsExtentAddress :=
      h.cfsExtentAddress.take extentOffset ++ (h.cfsExtentAddress.drop extentOffset).map truncateAddress }

/-- `CfsMdTruncate`, and the file cut where it says. -/
def cfsMdTruncate (o : CfsOption) (e : Extent) (logicBlockNumber : Nat) : Option (Option Extent) :=
  let extentOffset := logicBlockNumber % CFS_LOGIC_BLOCKS_PER_EXTENT
  if extentOffset = 0 then some none
  else
    (pcaBufReadPage o e).bind fun h =>
      let max := maxChunkno (h.cfsExtentAddress.take extentOffset)
      let start := max * o.chunkSize
      let len := (o.maxChunks - max) * o.chunkSize
      let data :=
        if len ≥ MIN_FALLOCATE_SIZE then
          fileAllocate o e.data (start + len % MIN_FALLOCATE_SIZE) (len - len % MIN_FALLOCATE_SIZE)
        else e.data
      some (some ({ e with data := data }.pcaBufFreePage (truncateHeader h extentOffset) true))

/-! ## Chunk recycling -/

/-- The addresses that `CfsSortOutChunk` fills in for the blocks, after `chunknum` chunks. -/
def sortOutAddresses : List CfsExtentAddress → (chunknum : Nat) → List CfsExtentAddress
  | [], _ => []
  | a :: rest, chunknum =>
    let a' : CfsExtentAddress := ⟨0, a.nchunks, List.range' (chunknum + 1) a.nchunks⟩
    { a' with checksum := addrChecksum32 a' } :: sortOutAddresses rest (chunknum + a.nchunks)

/-- The chunks in use, in the order of the blocks. -/
def sortOutChunks (data : Nat → List UInt8) (addrs : List CfsExtentAddress) : List (List UInt8) :=
  addrs.flatMap fun a => (a.chunknos.take a.nchunks).map data

/-- `CfsSortOutChunk`: the extent of the assist buffer. -/
def cfsSortOutChunk (o : CfsOption) (h : CfsExtentHeader) (data : Nat → List UInt8) :
    CfsExtentHeader × (Nat → List UInt8) :=
  let blocks := h.cfsExtentAddress.take h.nblocks
  let chunks := sortOutChunks data blocks
  ({ h with
      allocatedChunks := (blocks.map (·.nchunks)).sum
      recycleInOrder := true
      cfsExtentAddress :=
        sortOutAddresses blocks 0 ++ List.replicate (CFS_LOGIC_BLOCKS_PER_EXTENT - blocks.length) zeroAddress },
    fun chunkno => chunks.getD (chunkno - 1) (List.replicate o.chunkSize 0))

/-- `TYPEALIGN(MIN_FALLOCATE_SIZE, ...)` and the hole of `CfsPunchHole`. -/
def cfsPunchHole (o : CfsOption) (h : CfsExtentHeader) (data : Nat → List UInt8) : Nat → List UInt8 :=
  let punchOffset := (h.allocatedChunks * o.chunkSize + (MIN_FALLOCATE_SIZE - 1)) / MIN_FALLOCATE_SIZE *
    MIN_FALLOCATE_SIZE
  let punchSize := CFS_LOGIC_BLOCKS_PER_EXTENT * BLCKSZ - punchOffset
  if punchSize ≠ 0 then fileAllocate o data punchOffset punchSize else data

def cfsRecycleChunkInExt (o : CfsOption) (e : Extent) : Option Extent :=
  (pcaBufReadPage o e).bind fun h =>
    if h.recycleInOrder then some { e with pca := some h }
    else
      let (assistPca, assistData) := cfsSortOutChunk o h e.data
      some { pca := none, disk := assistPca, data := cfsPunchHole o assistPca assistData }

/-! ## Recovery -/

/-- `MdRecoveryPcaPage` -/
def mdRecoveryPcaPage (o : CfsOption) (e : Extent) : Option Extent :=
  (pcaBufReadPage o e).bind fun h =>
    some (e.pcaBufFreePage { h with allocatedChunks := maxChunkno (h.cfsExtentAddress.take h.nblocks) } true)

/-- `MdAssistFileProcess` of the extent in the assist file. -/
def mdAssistFileProcess (o : CfsOption) (assist : CfsExtentHeader × (Nat → List UInt8)) (e : Extent) :
    Option Extent :=
  (pcaBufReadPage o e).bind fun h =>
    if h.recycleInOrder then some { e with pca := some h }
    else some { pca := none, disk := assist.1, data := assist.2 }

end GaussKernel.Cfs
