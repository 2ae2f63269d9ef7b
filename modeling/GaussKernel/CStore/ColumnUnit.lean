import GaussKernel.CStore.StringCoder

/-!
# Column units

Model of `CU` (`cu.cpp`, `cu.h`): a column unit is formed row by row from a null bitmap and the values behind one
another, is compressed into a buffer with a header and a checksum, and is read back by row number. The codecs of time
series and the encodings of numeric and of number-like strings are left out, so `CU_IntLikeCompressed` is never set; the
encryption of the source does nothing. `none` is an error or an access outside of an array.
-/

namespace GaussKernel.CStore

open Lib

/-! ## Null bitmap -/

def bitmapSize (x : Nat) : Nat := (x + 7) / 8

/-- `IsNull`; a null pointer is the empty bitmap. -/
def nullBit (nulls : List UInt8) (row : Nat) : Bool := (nulls.getD (row / 8) 0).toNat.testBit (row % 8)

def setNullBit (nulls : List UInt8) (row : Nat) : List UInt8 :=
  nulls.set (row / 8) (UInt8.ofNat ((nulls.getD (row / 8) 0).toNat ||| 1 <<< (row % 8)))

/-- `NumberOfBit1Set` -/
def numberOfBit1Set : List Nat :=
  [0, 1, 1, 2, 1, 2, 2, 3, 1, 2, 2, 3, 2, 3, 3, 4, 1, 2, 2, 3, 2, 3, 3, 4, 2, 3, 3, 4,
    3, 4, 4, 5, 1, 2, 2, 3, 2, 3, 3, 4, 2, 3, 3, 4, 3, 4, 4, 5, 2, 3, 3, 4, 3, 4, 4, 5, 3, 4, 4, 5, 4, 5, 5, 6, 1, 2,
    2, 3, 2, 3, 3, 4, 2, 3, 3, 4, 3, 4, 4, 5, 2, 3, 3, 4, 3, 4, 4, 5, 3, 4, 4, 5, 4, 5, 5, 6, 2, 3, 3, 4, 3, 4, 4, 5,
    3, 4, 4, 5, 4, 5, 5, 6, 3, 4, 4, 5, 4, 5, 5, 6, 4, 5, 5, 6, 5, 6, 6, 7, 1, 2, 2, 3, 2, 3, 3, 4, 2, 3, 3, 4, 3, 4,
    4, 5, 2, 3, 3, 4, 3, 4, 4, 5, 3, 4, 4, 5, 4, 5, 5, 6, 2, 3, 3, 4, 3, 4, 4, 5, 3, 4, 4, 5, 4, 5, 5, 6, 3, 4, 4, 5,
    4, 5, 5, 6, 4, 5, 5, 6, 5, 6, 6, 7, 2, 3, 3, 4, 3, 4, 4, 5, 3, 4, 4, 5, 4, 5, 5, 6, 3, 4, 4, 5, 4, 5, 5, 6, 4, 5,
    5, 6, 5, 6, 6, 7, 3, 4, 4, 5, 4, 5, 5, 6, 4, 5, 5, 6, 5, 6, 6, 7, 4, 5, 5, 6, 5, 6, 6, 7, 5, 6, 6, 7, 6, 7, 7, 8]

/-- `CountNullValuesBefore` of a unit with a bitmap -/
def countNullBits (nulls : List UInt8) (rows : Nat) : Nat :=
  let nBytes := rows / 8
  let nullNum := (nulls.take nBytes).foldl (fun n b => n + numberOfBit1Set.getD b.toNat 0) 0
  (List.range (rows % 8)).foldl (fun n i => if (nulls.getD nBytes 0).toNat.testBit i then n + 1 else n) nullNum

lemma setNullBit_length (nulls : List UInt8) (row : Nat) : (setNullBit nulls row).length = nulls.length :=
  List.length_set

lemma nullBit_setNullBit {nulls : List UInt8} {row : Nat} (h : row / 8 < nulls.length) (i : Nat) :
    nullBit (setNullBit nulls row) i = true ↔ i = row ∨ nullBit nulls i = true := by
  unfold nullBit setNullBit
  have himod : i % 8 < 8 := Nat.mod_lt _ (by decide)
  by_cases hbyte : row / 8 = i / 8
  · have hget : (nulls.set (row / 8) (UInt8.ofNat ((nulls.getD (row / 8) 0).toNat ||| 1 <<< (row % 8)))).getD
        (i / 8) 0 = UInt8.ofNat ((nulls.getD (i / 8) 0).toNat ||| 1 <<< (row % 8)) := by
      rw [List.getD_eq_getElem?_getD, ← hbyte, List.getElem?_set_self h, Option.getD_some]
    have hsame : (row % 8 = i % 8) ↔ i = row := by omega
    rw [hget, UInt8.toNat_ofNat', Nat.testBit_mod_two_pow, decide_eq_true himod, Bool.true_and, Nat.testBit_or,
      Nat.one_shiftLeft, Nat.testBit_two_pow, Bool.or_eq_true, decide_eq_true_iff, hsame]
    exact or_comm
  · have hne : i ≠ row := fun heq => hbyte (heq ▸ rfl)
    rw [List.getD_eq_getElem?_getD, List.getElem?_set_ne hbyte, ← List.getD_eq_getElem?_getD]
    exact ⟨.inr, fun h => h.resolve_left hne⟩

/-- The table holds the number of bits that are set. -/
lemma numberOfBit1Set_eq : ∀ b < 256, numberOfBit1Set.getD b 0 = (List.range 8).countP fun i => b.testBit i := by
  decide +kernel

lemma foldl_countP {α : Type*} (p : α → Bool) (l : List α) (n : Nat) :
    l.foldl (fun n i => if p i then n + 1 else n) n = n + l.countP p := by
  induction l generalizing n with
  | nil => rfl
  | cons a l ih =>
    rw [List.foldl_cons, ih, List.countP_cons]
    split
    · omega
    · rfl

lemma nullBit_eq (nulls : List UInt8) (n : Nat) {i : Nat} (h : i < 8) :
    nullBit nulls (8 * n + i) = (nulls.getD n 0).toNat.testBit i := by
  rw [nullBit, Nat.mul_add_div (by decide), Nat.mul_add_mod, Nat.div_eq_of_lt h, Nat.mod_eq_of_lt h, Nat.add_zero]

/-- The rows of one byte of the bitmap -/
lemma countP_nullBit (nulls : List UInt8) (n k : Nat) (hk : k ≤ 8) :
    (List.range (8 * n + k)).countP (nullBit nulls) = (List.range (8 * n)).countP (nullBit nulls) +
      (List.range k).countP fun i => (nulls.getD n 0).toNat.testBit i := by
  rw [List.range_add, List.countP_append, List.countP_map]
  congr 1
  apply List.countP_congr
  intro i hi
  rw [Function.comp_apply, nullBit_eq nulls n ((List.mem_range.mp hi).trans_le hk)]

/-- `CountNullValuesBefore` counts the rows whose bit is set. -/
lemma countNullBits_eq (nulls : List UInt8) {rows : Nat} (h : rows / 8 ≤ nulls.length) :
    countNullBits nulls rows = (List.range rows).countP (nullBit nulls) := by
  have hbytes : ∀ n ≤ nulls.length,
      (nulls.take n).foldl (fun n b => n + numberOfBit1Set.getD b.toNat 0) 0 =
        (List.range (8 * n)).countP (nullBit nulls) := by
    intro n
    induction n with
    | zero => exact fun _ => rfl
    | succ n ih =>
      intro hn
      have hget : (nulls.getD n 0) = nulls[n] := List.getD_eq_getElem _ _ hn
      rw [List.take_succ_eq_append_getElem hn, List.foldl_append, ih (by omega), Nat.mul_succ,
        countP_nullBit nulls n 8 le_rfl, hget]
      exact congrArg (_ + ·) (numberOfBit1Set_eq _ (UInt8.toNat_lt _))
  rw [countNullBits, foldl_countP fun i => (nulls.getD (rows / 8) 0).toNat.testBit i, hbytes _ h,
    ← countP_nullBit nulls _ _ (Nat.mod_lt _ (by decide)).le, Nat.div_add_mod]

/-! ## Column unit -/

abbrev CU_CompressExtend : UInt16 := 0x0004
abbrev CU_Delta2Compressed : UInt16 := 0x0005
abbrev CU_XORCompressed : UInt16 := 0x0006
abbrev CU_COMPRESS_MASK1 : UInt16 := 0x000F
abbrev CU_INFOMASK1 : UInt16 := 0x00FF
abbrev CU_HasNULL : UInt16 := 0x0400
abbrev CU_CRC32C : UInt16 := 0x1000

abbrev COMPRESS_NO : Nat := 0
/-- `sizeof(CU)` on a 64-bit machine -/
abbrev sizeofCU : Nat := 120
abbrev ZLIB_EXTRA_SIZE : Nat := 30

/-- The source buffer of `CU` is the bitmap `nulls` and the `m_srcDataSize` bytes of `srcData`. -/
structure CU where
  nulls : List UInt8
  srcData : List UInt8
  offset : List Nat
  infoMode : UInt16
  magic : UInt32
  eachValSize : Int

namespace CU

variable (cu : CU)

/-- The constructor and `SetMagic` -/
def new (typeLen : Int) (magic : UInt32) : CU := ⟨[], [], [], 0, magic, typeLen⟩

def hasNullValue : Bool := cu.infoMode &&& CU_HasNULL ≠ 0

def isNull (row : Nat) : Bool := nullBit cu.nulls row

def countNullValuesBefore (rows : Nat) : Nat := if cu.hasNullValue then countNullBits cu.nulls rows else 0

/-- `m_bpNullRawSize` after `InitMem` -/
def nullRawSize (rowCount : Nat) (hasNull : Bool) : Nat := if hasNull then bitmapSize rowCount % 2 ^ 16 else 0

/-- `InitMem` up to the size of the source data, which it does not set; `none` is the error of too large a size. -/
def initMem (initialSize rowCount : Nat) (hasNull : Bool) : Option CU :=
  let raw := nullRawSize rowCount hasNull
  if initialSize < 2 ^ 32 - 1 - raw - 8 then
    some { cu with
      nulls := List.replicate raw 0, infoMode := if hasNull then cu.infoMode ||| CU_HasNULL else cu.infoMode }
  else none

def appendNullValue (row : Nat) : Option CU :=
  if row / 8 < cu.nulls.length then some { cu with nulls := setNullBit cu.nulls row } else none

/-- `AppendValue` of the bytes of a value; the buffer grows as needed. -/
def appendValue (val : List UInt8) : CU := { cu with srcData := cu.srcData ++ val }

/-- The loop that forms a unit from the rows of a column, `none` for a null. Without nulls all rows are values. -/
def appendRows (hasNull : Bool) : CU → (row : Nat) → List (Option (List UInt8)) → Option CU
  | cu, _, [] => some cu
  | cu, row, some val :: col => (cu.appendValue val).appendRows hasNull (row + 1) col
  | cu, row, none :: col =>
    if hasNull then (cu.appendNullValue row).bind fun cu => cu.appendRows hasNull (row + 1) col else none

/-- `InitMem` and the loop of `cstore_rewrite.cpp` -/
def form (typeLen : Int) (magic : UInt32) (initialSize : Nat) (hasNull : Bool) (col : List (Option (List UInt8))) :
    Option CU :=
  ((new typeLen magic).initMem initialSize col.length hasNull).bind fun cu => cu.appendRows hasNull 0 col

/-- `GetCUHeaderSize` -/
def headerSize : Nat := 4 + 4 + 2 + (if cu.hasNullValue then 2 else 0) + 4 + 4

end CU

/-- What the relation says of the compression of a column -/
structure CUOptions where
  adoptRle : Bool
  adoptDict : Bool
  /-- `m_min_value` and `m_max_value`, if they are valid -/
  minMax : Option (BitVec 64 × BitVec 64)

/-- `AlignCuSize` for a power of two -/
def alignCuSize (len alignSize : Nat) : Nat := (len + (alignSize - 1)) / alignSize * alignSize % 2 ^ 32

namespace CU

variable (lib : CompressLibrary) (hashAny : List UInt8 → UInt32) (crc32 crc32c : List UInt8 → UInt32) (cu : CU)

/-- The `IntegerCoder` of `CompressData` -/
def intCoder (opts : CUOptions) : IntegerCoder :=
  let c := { IntegerCoder.new cu.eachValSize.toNat with adoptRle := opts.adoptRle }
  match opts.minMax with
  | some r => c.setMinMaxVal r.1 r.2
  | none => c

/-- The choice of a coder in `CompressData`; the inner `none` is the result 0. -/
def compressData (opts : CUOptions) (nVals : Nat) (modes : UInt16) (outBuf : List UInt8) :
    Option (Option CompressionArg2) :=
  if 0 < cu.eachValSize ∧ cu.eachValSize ≤ 8 then some ((cu.intCoder opts).compress lib cu.srcData modes)
  else
    let useDict := if 8 < cu.eachValSize then false else COMPRESS_LOW ≠ heaprelGetCompressionFromModes modes
    let numVals := if cu.hasNullValue then nVals - cu.countNullValuesBefore nVals else nVals
    (StringCoder.mk opts.adoptRle opts.adoptDict).compress lib hashAny cu.srcData numVals useDict modes outBuf

/-- The buffer behind the checksum: the header, the bitmap, the data and the padding -/
def compressedBody (infoMode : UInt16) (data : List UInt8) (alignSize : Nat) : List UInt8 :=
  let bpNullCompressed := if cu.hasNullValue then cu.nulls else []
  let cuSizeExcludePadding := cu.headerSize + bpNullCompressed.length + data.length
  toLE 4 cu.magic.toNat ++ toLE 2 infoMode.toNat ++
    (if cu.hasNullValue then toLE 2 bpNullCompressed.length else []) ++ toLE 4 cu.srcData.length ++
    toLE 4 data.length ++ bpNullCompressed ++ data ++
    List.replicate (alignCuSize cuSizeExcludePadding alignSize - cuSizeExcludePadding) 0

/-- `m_compressedBufSize` -/
def compressedBufSize (alignSize : Nat) : Nat := alignCuSize (cu.srcData.length + cu.nulls.length + sizeofCU) alignSize

/-- `Compress` into the allocated memory `mem`: the first `m_cuSize` bytes of it. -/
def compress (opts : CUOptions) (valCount : Nat) (modes : UInt16) (alignSize : Nat) (mem : List UInt8) :
    Option (List UInt8) := do
  let outBuf := mem.drop (cu.headerSize + (if cu.hasNullValue then cu.nulls else []).length)
  let res ← if heaprelGetCompressionFromModes modes ≠ COMPRESS_NO then
      cu.compressData lib hashAny opts valCount modes outBuf
    else some none
  let body := match res with
    | some out =>
      cu.compressedBody (cu.infoMode ||| (out.modes &&& CU_INFOMASK1) ||| CU_CRC32C) out.buf alignSize
    | none => cu.compressedBody (cu.infoMode ||| CU_CRC32C) cu.srcData alignSize
  return toLE 4 (crc32c body).toNat ++ body

/-- `GenerateCrc` of a buffer whose header has `infoMode` -/
def generateCrc (compressedBuf : List UInt8) (infoMode : UInt16) : UInt32 :=
  if infoMode &&& CU_CRC32C = CU_CRC32C then crc32c (compressedBuf.drop 4) else crc32 (compressedBuf.drop 4)

/-- `IsVerified` without `ignore_checksum_failure` -/
def isVerified (compressedBuf : List UInt8) (magic : UInt32) : Bool :=
  let mode := UInt16.ofNat (ofLE ((compressedBuf.drop 8).take 2))
  ofLE (compressedBuf.take 4) = (generateCrc crc32 crc32c compressedBuf mode).toNat ∧
    ofLE ((compressedBuf.drop 4).take 4) = magic.toNat

/-- The fields of the header -/
structure Header where
  infoMode : UInt16
  bpNullCompressedSize : Nat
  srcDataSize : Nat
  cmprDataSize : Nat

/-- `UnCompressHeader`: the fields and what stands behind them. The size of the buffer is `m_cuSize`. -/
def unCompressHeader (compressedBuf : List UInt8) (magic : UInt32) (alignSize : Nat) : Option (Header × List UInt8) :=
  let buf := compressedBuf.drop 4
  if ofLE (buf.take 4) ≠ magic.toNat then none
  else
    let infoMode := UInt16.ofNat (ofLE ((buf.drop 4).take 2))
    let buf := buf.drop 6
    let hasNull : Bool := infoMode &&& CU_HasNULL ≠ 0
    let bpNullCompressedSize := if hasNull then ofLE (buf.take 2) else 0
    let buf := if hasNull then buf.drop 2 else buf
    let h : Header := ⟨infoMode, bpNullCompressedSize, ofLE (buf.take 4), ofLE ((buf.drop 4).take 4)⟩
    let cuSizeExcludePadding := (18 + if hasNull then 2 else 0) + bpNullCompressedSize + h.cmprDataSize
    if compressedBuf.length = alignCuSize cuSizeExcludePadding alignSize ∨
        compressedBuf.length = alignCuSize cuSizeExcludePadding 32 ∨
        compressedBuf.length = alignCuSize cuSizeExcludePadding 512 then some (h, buf.drop 8)
    else none

/-- `UnCompressData`; a result of no bytes is an error of the source. -/
def unCompressData (h : Header) (eachValSize : Int) (buf : List UInt8) : Option (List UInt8) :=
  if h.infoMode &&& CU_INFOMASK1 ≠ 0 then
    let arg : CompressionArg2 := ⟨buf.take h.cmprDataSize, h.infoMode⟩
    if h.infoMode &&& CU_COMPRESS_MASK1 = CU_Delta2Compressed ∨ h.infoMode &&& CU_COMPRESS_MASK1 = CU_XORCompressed then
      none
    else
      let out :=
        if 0 < eachValSize ∧ eachValSize ≤ 8 then (IntegerCoder.new eachValSize.toNat).decompress lib arg h.srcDataSize
        else StringCoder.decompress lib arg h.srcDataSize
      out.filter (· ≠ [])
  else some (buf.take h.srcDataSize)

/-- The loop of `FormValuesOffset`, with the defence against an offset behind the buffer -/
def offsetLoop (srcBufSize : Nat) : (fuel i : Nat) → List Nat → Option (List Nat)
  | 0, _, offs => some offs
  | fuel + 1, i, offs =>
    let tmpPrev := offs.getD i 0
    if cu.isNull i then offsetLoop srcBufSize fuel (i + 1) (offs ++ [tmpPrev])
    else if cu.eachValSize = -1 then
      let tmp := tmpPrev + varsizeAny (cu.srcData.drop tmpPrev)
      if tmp ≤ srcBufSize then offsetLoop srcBufSize fuel (i + 1) (offs ++ [tmp]) else none
    else offsetLoop srcBufSize fuel (i + 1) (offs ++ [tmpPrev + cu.eachValSize.toNat])

/-- `FormValuesOffset` -/
def formValuesOffset (srcBufSize rows : Nat) : Option CU :=
  if 0 < cu.eachValSize ∧ cu.hasNullValue = false then some cu
  else (cu.offsetLoop srcBufSize rows 0 [0]).map fun offs => { cu with offset := offs }

/-- `UnCompress` of a unit of `rowCount` rows -/
def unCompress (eachValSize : Int) (compressedBuf : List UInt8) (rowCount : Nat) (magic : UInt32) (alignSize : Nat) :
    Option CU := do
  let (h, buf) ← unCompressHeader compressedBuf magic alignSize
  let cu := { CU.new eachValSize magic with infoMode := h.infoMode }
  let cu ← cu.initMem (h.srcDataSize + ZLIB_EXTRA_SIZE) rowCount cu.hasNullValue
  let nulls := if h.bpNullCompressedSize = cu.nulls.length then buf.take cu.nulls.length else cu.nulls
  let srcData ← unCompressData lib h eachValSize (buf.drop h.bpNullCompressedSize)
  let cu := { cu with nulls := nulls, srcData := srcData }
  cu.formValuesOffset (h.srcDataSize + ZLIB_EXTRA_SIZE + nulls.length) rowCount

/-- The bytes of the value that `GetValue` returns or points to -/
def getValue (rowIdx : Nat) : Option (List UInt8) :=
  if 0 < cu.eachValSize then
    let start := if cu.hasNullValue then cu.offset[rowIdx]? else some (cu.eachValSize.toNat * rowIdx)
    start.map fun p => (cu.srcData.drop p).take cu.eachValSize.toNat
  else cu.offset[rowIdx]?.map fun p => (cu.srcData.drop p).take (varsizeAny (cu.srcData.drop p))

end CU

/-! ## Forming a unit -/

/-- The values of a column, one behind the other -/
def columnData (col : List (Option (List UInt8))) : List UInt8 := (col.filterMap id).flatten

/-- A unit holds the rows of a column. -/
structure CU.Holds (cu : CU) (hasNull : Bool) (col : List (Option (List UInt8))) : Prop where
  data : cu.srcData = columnData col
  bits : ∀ i, cu.isNull i = true ↔ col[i]? = some none
  nulls_length : cu.nulls.length = if hasNull then bitmapSize col.length else 0
  flag : cu.hasNullValue = hasNull

section form

variable {col : List (Option (List UInt8))} {hasNull : Bool}

lemma columnData_append (a b : List (Option (List UInt8))) : columnData (a ++ b) = columnData a ++ columnData b := by
  rw [columnData, List.filterMap_append, List.flatten_append]
  rfl

/-- The loop appends the values and sets the bits of the nulls. -/
lemma appendRows_spec (cu : CU) (row : Nat)
    (hroom : hasNull = true → bitmapSize (row + col.length) ≤ cu.nulls.length)
    (hnull : hasNull = false → none ∉ col) :
    ∃ cu', cu.appendRows hasNull row col = some cu' ∧ cu'.srcData = cu.srcData ++ columnData col ∧
      (∀ i, cu'.isNull i = true ↔ cu.isNull i = true ∨ row ≤ i ∧ col[i - row]? = some none) ∧
      cu'.nulls.length = cu.nulls.length ∧ cu'.infoMode = cu.infoMode ∧ cu'.magic = cu.magic ∧
      cu'.eachValSize = cu.eachValSize := by
  induction col generalizing cu row with
  | nil => exact ⟨cu, rfl, (List.append_nil _).symm, by simp, rfl, rfl, rfl, rfl⟩
  | cons v col ih =>
    have hroom' : hasNull = true → bitmapSize (row + 1 + col.length) ≤ cu.nulls.length := fun h => by
      rw [Nat.add_right_comm]
      exact hroom h
    have hnull' : hasNull = false → none ∉ col := fun h hmem => hnull h (List.mem_cons_of_mem v hmem)
    have hshift : ∀ i, (i = row ∧ v = none ∨ row + 1 ≤ i ∧ col[i - (row + 1)]? = some none) ↔
        (row ≤ i ∧ (v :: col)[i - row]? = some none) := by
      intro i
      rcases Nat.lt_trichotomy i row with hlt | rfl | hlt
      · constructor <;> intro h <;> omega
      · simp
      · obtain ⟨k, rfl⟩ := Nat.exists_eq_add_of_lt hlt
        have h1 : row + k + 1 - row = k + 1 := by omega
        have h2 : row + k + 1 - (row + 1) = k := by omega
        rw [h1, h2, List.getElem?_cons_succ]
        constructor
        · rintro (h | h)
          · omega
          · exact ⟨by omega, h.2⟩
        · exact fun h => .inr ⟨by omega, h.2⟩
    cases v with
    | some val =>
      obtain ⟨cu', hrun, hdata, hbits, hlen, hrest⟩ := ih (cu.appendValue val) (row + 1) hroom' hnull'
      refine ⟨cu', hrun, ?_, fun i => ?_, hlen, hrest⟩
      · rw [hdata, CU.appendValue, List.append_assoc]
        rfl
      · rw [hbits, ← hshift i]
        apply or_congr Iff.rfl
        exact ⟨.inr, fun h => h.resolve_left fun hv => Option.some_ne_none _ hv.2⟩
    | none =>
      have hset : hasNull = true := by
        cases hasNull with
        | true => rfl
        | false => exact absurd List.mem_cons_self (hnull rfl)
      have hbyte : row / 8 < cu.nulls.length := by
        have := hroom hset
        simp only [bitmapSize, List.length_cons] at this
        omega
      obtain ⟨cu', hrun, hdata, hbits, hlen, hrest⟩ :=
        ih { cu with nulls := setNullBit cu.nulls row } (row + 1) (by rwa [setNullBit_length]) hnull'
      refine ⟨cu', ?_, hdata, fun i => ?_, hlen.trans (setNullBit_length _ _), hrest⟩
      · rw [CU.appendRows, if_pos hset, CU.appendNullValue, if_pos hbyte]
        exact hrun
      · rw [hbits, ← hshift i, ← or_assoc]
        apply or_congr _ Iff.rfl
        exact (nullBit_setNullBit hbyte i).trans (or_comm.trans (or_congr Iff.rfl ⟨fun h => ⟨h, rfl⟩, And.left⟩))

lemma nullBit_replicate (n i : Nat) : nullBit (List.replicate n 0) i = false := by
  have hzero : (List.replicate n (0 : UInt8)).getD (i / 8) 0 = 0 := by
    rw [List.getD_eq_getElem?_getD, List.getElem?_replicate]
    split <;> rfl
  rw [nullBit, hzero]
  exact Nat.zero_testBit _

lemma bitmapSize_lt {rows : Nat} (h : rows < 2 ^ 16) : bitmapSize rows < 2 ^ 15 := by
  unfold bitmapSize
  omega

lemma nullRawSize_eq {rows : Nat} (h : rows < 2 ^ 16) (hasNull : Bool) :
    CU.nullRawSize rows hasNull = if hasNull then bitmapSize rows else 0 := by
  cases hasNull with
  | false => rfl
  | true => exact Nat.mod_eq_of_lt ((bitmapSize_lt h).trans (by decide))

lemma initMem_eq {cu : CU} {initialSize rows : Nat} (hrows : rows < 2 ^ 16) (hsize : initialSize < 2 ^ 32 - 2 ^ 16) :
    cu.initMem initialSize rows hasNull = some { cu with
      nulls := List.replicate (if hasNull then bitmapSize rows else 0) 0,
      infoMode := if hasNull then cu.infoMode ||| CU_HasNULL else cu.infoMode } := by
  have hraw := nullRawSize_eq hrows hasNull
  have hlt := bitmapSize_lt hrows
  rw [CU.initMem, hraw]
  apply if_pos
  split <;> omega

/-- The flag of a unit that was just made -/
abbrev nullFlag (hasNull : Bool) : UInt16 := if hasNull then CU_HasNULL else 0

lemma nullFlag_and (hasNull : Bool) : decide (nullFlag hasNull &&& CU_HasNULL ≠ 0) = hasNull := by
  cases hasNull <;> rfl

/-- The unit that is formed holds the column. -/
lemma form_spec (typeLen : Int) (magic : UInt32) {initialSize : Nat} (hrows : col.length < 2 ^ 16)
    (hsize : initialSize < 2 ^ 32 - 2 ^ 16) (hnull : hasNull = false → none ∉ col) :
    ∃ cu, CU.form typeLen magic initialSize hasNull col = some cu ∧ cu.Holds hasNull col ∧
      cu.infoMode = nullFlag hasNull ∧ cu.magic = magic ∧ cu.eachValSize = typeLen := by
  rw [CU.form, initMem_eq hrows hsize, Option.bind_some]
  generalize hstart : ({ CU.new typeLen magic with
      nulls := List.replicate (if hasNull then bitmapSize col.length else 0) 0,
      infoMode :=
        if hasNull then (CU.new typeLen magic).infoMode ||| CU_HasNULL else (CU.new typeLen magic).infoMode } : CU) =
    start
  have hinfo : start.infoMode = nullFlag hasNull := by
    subst hstart
    cases hasNull with
    | false => rfl
    | true => exact UInt16.zero_or
  have hlen : start.nulls.length = if hasNull then bitmapSize col.length else 0 := by
    subst hstart
    exact List.length_replicate
  have hzero : ∀ i, start.isNull i = false := by
    subst hstart
    exact nullBit_replicate _
  have hrest : start.srcData = [] ∧ start.magic = magic ∧ start.eachValSize = typeLen := by
    subst hstart
    exact ⟨rfl, rfl, rfl⟩
  obtain ⟨cu, hrun, hdata, hbits, hlen', hinfo', hmagic, hval⟩ := appendRows_spec start 0
    (fun h => by rw [hlen, if_pos h, Nat.zero_add]) hnull
  refine ⟨cu, hrun, ⟨?_, fun i => ?_, hlen'.trans hlen, ?_⟩, hinfo'.trans hinfo, hmagic.trans hrest.2.1,
    hval.trans hrest.2.2⟩
  · rw [hdata, hrest.1, List.nil_append]
  · rw [hbits, hzero]
    exact ⟨fun h => (h.resolve_left Bool.false_ne_true).2, fun h => .inr ⟨Nat.zero_le i, h⟩⟩
  · rw [CU.hasNullValue, hinfo', hinfo]
    exact nullFlag_and hasNull

lemma length_filterMap_id {α : Type*} (col : List (Option α)) :
    (col.filterMap id).length + col.countP (·.isNone) = col.length := by
  induction col with
  | nil => rfl
  | cons v col ih =>
    cases v with
    | none =>
      rw [List.filterMap_cons_none rfl, List.countP_cons_of_pos rfl, List.length_cons]
      omega
    | some val =>
      rw [List.filterMap_cons_some (f := id) rfl, List.countP_cons_of_neg (by simp), List.length_cons, List.length_cons]
      omega

/-- The number of values without nulls, as it is counted -/
lemma count_values {cu : CU} (h : cu.Holds hasNull col) :
    (if cu.hasNullValue then col.length - cu.countNullValuesBefore col.length else col.length) =
      (col.filterMap id).length := by
  have hnulls : (List.range col.length).countP (fun i => cu.isNull i) = col.countP (·.isNone) := by
    rw [List.countP_congr (q := fun i => decide (col[i]? = some none)) fun i _ => by
      rw [h.bits, decide_eq_true_iff]]
    clear h
    induction col with
    | nil => rfl
    | cons v col ih =>
      rw [List.length_cons, List.range_succ_eq_map, List.countP_cons, List.countP_map, List.countP_cons, ← ih]
      cases v <;> rfl
  have hsum := length_filterMap_id col
  rw [h.flag]
  cases hasNull with
  | true =>
    have hroom : col.length / 8 ≤ cu.nulls.length := by
      rw [h.nulls_length, if_pos rfl, bitmapSize]
      omega
    rw [if_pos rfl, CU.countNullValuesBefore, h.flag, if_pos rfl, countNullBits_eq _ hroom]
    have hbits : (List.range col.length).countP (nullBit cu.nulls) = col.countP (·.isNone) := hnulls
    omega
  | false =>
    have hnone : cu.nulls = [] := List.length_eq_zero_iff.mp h.nulls_length
    have hzero : col.countP (·.isNone) = 0 := by
      rw [← hnulls, List.countP_eq_zero]
      intro i _
      rw [CU.isNull, hnone, nullBit]
      simp
    rw [if_neg Bool.false_ne_true]
    omega

end form

/-! ## Reading by row -/

/-- A value of a type of this length -/
def IsValue (attlen : Int) (v : List UInt8) : Prop :=
  attlen = -1 ∧ IsVarlena v ∨ 0 < attlen ∧ v.length = attlen.toNat

section read

variable {col : List (Option (List UInt8))} {hasNull : Bool} {cu : CU}

/-- Where the value of a row starts -/
def colOffset (col : List (Option (List UInt8))) (i : Nat) : Nat := (columnData (col.take i)).length

lemma colOffset_succ {i : Nat} {v : Option (List UInt8)} (h : col[i]? = some v) :
    colOffset col (i + 1) = colOffset col i + (v.getD []).length := by
  rw [colOffset, List.take_add_one, h, columnData_append, List.length_append]
  cases v with
  | none => rfl
  | some val => exact congrArg (_ + ·) (congrArg List.length (List.append_nil val))

lemma columnData_drop {i : Nat} {v : List UInt8} (h : col[i]? = some (some v)) :
    (columnData col).drop (colOffset col i) = v ++ columnData (col.drop (i + 1)) := by
  obtain ⟨hlt, hget⟩ := List.getElem?_eq_some_iff.mp h
  have hsplit : columnData col = columnData (col.take i) ++ (v ++ columnData (col.drop (i + 1))) := by
    conv_lhs => rw [← List.take_append_drop i col, columnData_append, List.drop_eq_getElem_cons hlt, hget]
    rfl
  rw [hsplit]
  exact List.drop_left' rfl

lemma colOffset_le (col : List (Option (List UInt8))) (i : Nat) : colOffset col i ≤ (columnData col).length := by
  have hsplit := congrArg List.length (columnData_append (col.take i) (col.drop i))
  rw [List.take_append_drop, List.length_append] at hsplit
  rw [colOffset]
  omega

/-- Without nulls, values of a fixed length are found by multiplication. -/
lemma colOffset_fixed {n : Nat} (hval : ∀ v, some v ∈ col → v.length = n) (hnull : none ∉ col) {i : Nat}
    (hi : i ≤ col.length) : colOffset col i = n * i := by
  induction i with
  | zero => rfl
  | succ i ih =>
    obtain ⟨v, hv⟩ : ∃ v, col[i]? = some v := ⟨_, List.getElem?_eq_getElem hi⟩
    have hmem := List.mem_of_getElem? hv
    cases v with
    | none => exact absurd hmem hnull
    | some val => rw [colOffset_succ hv, ih (by omega), Option.getD_some, hval val hmem, Nat.mul_succ]

/-- The loop leaves where every row starts. -/
lemma offsetLoop_eq (h : cu.Holds hasNull col) (hval : ∀ v, some v ∈ col → IsValue cu.eachValSize v)
    {srcBufSize : Nat} (hsize : (columnData col).length ≤ srcBufSize) (fuel i : Nat) (hi : i + fuel = col.length) :
    cu.offsetLoop srcBufSize fuel i ((List.range (i + 1)).map (colOffset col)) =
      some ((List.range (col.length + 1)).map (colOffset col)) := by
  induction fuel generalizing i with
  | zero =>
    obtain rfl : i = col.length := hi
    rfl
  | succ fuel ih =>
    obtain ⟨v, hv⟩ : ∃ v, col[i]? = some v := ⟨_, List.getElem?_eq_getElem (by omega)⟩
    have hprev : ((List.range (i + 1)).map (colOffset col)).getD i 0 = colOffset col i := by
      rw [List.getD_eq_getElem?_getD, List.getElem?_map, List.getElem?_range (Nat.lt_succ_self i)]
      rfl
    have hsnoc : (List.range (i + 1)).map (colOffset col) ++ [colOffset col (i + 1)] =
        (List.range (i + 1 + 1)).map (colOffset col) := by
      rw [List.range_succ (n := i + 1), List.map_append]
      rfl
    have hnext := ih (i + 1) (by omega)
    rw [← hsnoc, colOffset_succ hv] at hnext
    rw [CU.offsetLoop, hprev]
    dsimp only
    cases v with
    | none => rwa [if_pos ((h.bits i).mpr hv)]
    | some val =>
      have hnot : ¬cu.isNull i = true := fun hn => by
        rw [(h.bits i).mp hn] at hv
        cases hv
      rw [if_neg hnot]
      rcases hval val (List.mem_of_getElem? hv) with ⟨hvar, hlena⟩ | ⟨hpos, hlen⟩
      · have hread : varsizeAny (cu.srcData.drop (colOffset col i)) = val.length := by
          rw [h.data, columnData_drop hv, hlena.append]
        have hin : colOffset col i + val.length ≤ srcBufSize := by
          have hle := colOffset_le col (i + 1)
          rw [colOffset_succ hv, Option.getD_some] at hle
          omega
        rw [if_pos hvar, hread, if_pos hin]
        exact hnext
      · rw [if_neg (by omega), ← hlen]
        exact hnext

/-- Every row can be read where `FormValuesOffset` has been run. -/
lemma getValue_formValuesOffset (h : cu.Holds hasNull col) (hnull : hasNull = false → none ∉ col)
    (hval : ∀ v, some v ∈ col → IsValue cu.eachValSize v) {srcBufSize : Nat}
    (hsize : (columnData col).length ≤ srcBufSize) :
    ∃ cu', cu.formValuesOffset srcBufSize col.length = some cu' ∧ cu'.Holds hasNull col ∧
      ∀ i v, col[i]? = some (some v) → cu'.getValue i = some v := by
  have hread : ∀ i v, col[i]? = some (some v) →
      cu.srcData.drop (colOffset col i) = v ++ columnData (col.drop (i + 1)) := fun i v hv => by
    rw [h.data, columnData_drop hv]
  rw [CU.formValuesOffset, h.flag]
  by_cases hfixed : 0 < cu.eachValSize ∧ hasNull = false
  · rw [if_pos hfixed]
    refine ⟨cu, rfl, h, fun i v hv => ?_⟩
    have hlen : ∀ v, some v ∈ col → v.length = cu.eachValSize.toNat := fun v hv => by
      rcases hval v hv with ⟨hneg, -⟩ | ⟨-, hlen⟩
      · omega
      · exact hlen
    have hi := (List.getElem?_eq_some_iff.mp hv).1
    have hstart := colOffset_fixed hlen (hnull hfixed.2) hi.le
    rw [CU.getValue, if_pos hfixed.1, h.flag, hfixed.2]
    dsimp only
    rw [if_neg Bool.false_ne_true, Option.map_some, ← hstart, hread i v hv,
      List.take_left' (hlen v (List.mem_of_getElem? hv))]
  · rw [if_neg hfixed]
    have hloop := offsetLoop_eq h hval hsize col.length 0 (Nat.zero_add _)
    refine ⟨_, congrArg (Option.map _) hloop, ⟨h.data, h.bits, h.nulls_length, h.flag⟩, fun i v hv => ?_⟩
    have hi := (List.getElem?_eq_some_iff.mp hv).1
    have hoff : ((List.range (col.length + 1)).map (colOffset col))[i]? = some (colOffset col i) := by
      rw [List.getElem?_map, List.getElem?_range (by omega)]
      rfl
    rw [CU.getValue]
    dsimp only
    rw [hoff]
    rcases hval v (List.mem_of_getElem? hv) with ⟨hneg, hlena⟩ | ⟨hpos, hlen⟩
    · rw [if_neg (by omega), Option.map_some, hread i v hv, hlena.append, List.take_left]
    · have hflag : CU.hasNullValue { cu with offset := (List.range (col.length + 1)).map (colOffset col) } = true :=
        h.flag.trans (Bool.eq_true_of_not_eq_false fun hf => hfixed ⟨hpos, hf⟩)
      rw [if_pos hpos, hflag, if_pos rfl, Option.map_some, hread i v hv, List.take_left' hlen]

end read

/-! ## Flags -/

section flags

variable {hasNull : Bool} {m : UInt16}

/-- The flags in the header after the coder has set `m` -/
abbrev headerMode (hasNull : Bool) (m : UInt16) : UInt16 := nullFlag hasNull ||| (m &&& CU_INFOMASK1) ||| CU_CRC32C

lemma headerMode_and (hasNull : Bool) (m mask : UInt16) (hmask : CU_INFOMASK1 &&& mask = mask) :
    headerMode hasNull m &&& mask = m &&& mask := by
  have hmask' : ∀ flag, flag &&& CU_INFOMASK1 = 0 → flag &&& mask = 0 := fun flag h => by
    rw [and_flag_of_and_mask h mask hmask, UInt16.zero_and]
  have hnull : nullFlag hasNull &&& mask = 0 := hmask' _ (by cases hasNull <;> decide)
  rw [headerMode, or_and_flag, or_and_flag, UInt16.and_assoc, hmask, hnull, hmask' CU_CRC32C (by decide),
    UInt16.zero_or, UInt16.or_zero]

lemma headerMode_hasNull (hasNull : Bool) (m : UInt16) :
    decide (headerMode hasNull m &&& CU_HasNULL ≠ 0) = hasNull := by
  have hzero : m &&& CU_INFOMASK1 &&& CU_HasNULL = 0 := by
    rw [UInt16.and_assoc, show CU_INFOMASK1 &&& CU_HasNULL = 0 by decide, UInt16.and_zero]
  have hcrc : CU_CRC32C &&& CU_HasNULL = 0 := by decide
  rw [headerMode, or_and_flag, or_and_flag, hzero, hcrc, UInt16.or_zero, UInt16.or_zero]
  exact nullFlag_and hasNull

lemma headerMode_crc (hasNull : Bool) (m : UInt16) : headerMode hasNull m &&& CU_CRC32C = CU_CRC32C := by
  have hzero : m &&& CU_INFOMASK1 &&& CU_CRC32C = 0 := by
    rw [UInt16.and_assoc, show CU_INFOMASK1 &&& CU_CRC32C = 0 by decide, UInt16.and_zero]
  have hnull : nullFlag hasNull &&& CU_CRC32C = 0 := by cases hasNull <;> decide
  rw [headerMode, or_and_flag, or_and_flag, hzero, hnull, UInt16.zero_or, UInt16.zero_or, UInt16.and_self]

/-- A mode of the coders is not that of a codec for time series. -/
lemma headerMode_not_sequence (hasNull : Bool) (hown : m &&& ~~~stringFlags = 0) :
    ¬(headerMode hasNull m &&& CU_COMPRESS_MASK1 = CU_Delta2Compressed ∨
      headerMode hasNull m &&& CU_COMPRESS_MASK1 = CU_XORCompressed) := by
  have hextend : headerMode hasNull m &&& CU_CompressExtend = 0 := by
    rw [headerMode_and _ _ _ (by decide), and_flag_of_and_mask hown _ (by decide), UInt16.zero_and]
  rintro (h | h)
  · rw [and_flag_of_and_mask h _ (by decide)] at hextend
    exact absurd hextend (by decide)
  · rw [and_flag_of_and_mask h _ (by decide)] at hextend
    exact absurd hextend (by decide)

end flags

/-! ## Compression -/

section compress

variable {lib : CompressLibrary} {col : List (Option (List UInt8))} {hasNull : Bool} {cu : CU}

/-- The lengths of a type that `GetValue` knows -/
def attLens : List Int := [1, 2, 4, 8, 12, 16, -1]

/-- The decoder of `UnCompressData` -/
abbrev decodeData (lib : CompressLibrary) (eachValSize : Int) (arg : CompressionArg2) (srcDataSize : Nat) :
    Option (List UInt8) :=
  if 0 < eachValSize ∧ eachValSize ≤ 8 then (IntegerCoder.new eachValSize.toNat).decompress lib arg srcDataSize
  else StringCoder.decompress lib arg srcDataSize

/-- The bounds that the column has, where they are told -/
def CUOptions.Valid (opts : CUOptions) (attlen : Int) (data : List UInt8) : Prop :=
  ∀ r, opts.minMax = some r → 0 < attlen → CheckMinMaxValue (intValues attlen.toNat data) r.1 r.2

variable {n alignSize : Nat}

lemma columnData_length (hval : ∀ v, some v ∈ col → v.length = n) :
    (columnData col).length = (col.filterMap id).length * n := by
  rw [columnData, List.length_flatten, List.map_congr_left (g := fun _ => n), List.map_const', List.sum_replicate,
    smul_eq_mul]
  intro v hv
  obtain ⟨w, hw, rfl⟩ := List.mem_filterMap.mp hv
  exact hval v hw

/-- What a coder writes for a unit is decoded to the data. -/
lemma compressData_spec (hashAny : List UInt8 → UInt32) (hlib : lib.Lossless) (h : cu.Holds hasNull col)
    (hatt : cu.eachValSize ∈ attLens) (hval : ∀ v, some v ∈ col → IsValue cu.eachValSize v)
    (hrows : col.length < 2 ^ 16) (hne : 0 < cu.srcData.length) (hsize : cu.srcData.length < 2 ^ 31 - 16)
    {opts : CUOptions} (hopts : opts.Valid cu.eachValSize cu.srcData) (modes : UInt16) {outBuf : List UInt8}
    (houtBuf : cu.srcData.length ≤ outBuf.length) :
    ∃ res, cu.compressData lib hashAny opts col.length modes outBuf = some res ∧
      ∀ out, res = some out → 0 < out.buf.length ∧ out.buf.length < cu.srcData.length ∧
        out.modes &&& stringFlags ≠ 0 ∧ out.modes &&& ~~~stringFlags = 0 ∧
        ∀ modes' : UInt16, modes' &&& stringFlags = out.modes &&& stringFlags →
          decodeData lib cu.eachValSize ⟨out.buf, modes'⟩ cu.srcData.length = some cu.srcData := by
  unfold CU.compressData
  by_cases hint : 0 < cu.eachValSize ∧ cu.eachValSize ≤ 8
  · rw [if_pos hint]
    refine ⟨_, rfl, fun out hout => ?_⟩
    have hcoderSize : (cu.intCoder opts).eachValSize = cu.eachValSize.toNat := by
      unfold CU.intCoder
      cases opts.minMax <;> rfl
    have hsizes : (cu.intCoder opts).eachValSize = 1 ∨ (cu.intCoder opts).eachValSize = 2 ∨
        (cu.intCoder opts).eachValSize = 4 ∨ (cu.intCoder opts).eachValSize = 8 := by
      rw [hcoderSize]
      simp only [attLens, List.mem_cons, List.not_mem_nil, or_false] at hatt
      omega
    have hlens : ∀ v, some v ∈ col → v.length = cu.eachValSize.toNat := fun v hv => by
      rcases hval v hv with ⟨hneg, -⟩ | ⟨-, hlen⟩
      · omega
      · exact hlen
    have hmul : cu.srcData.length % (cu.intCoder opts).eachValSize = 0 := by
      rw [hcoderSize, h.data, columnData_length hlens]
      exact Nat.mul_mod_left _ _
    have hcheck : CheckMinMaxValue (intValues (cu.intCoder opts).eachValSize cu.srcData)
        ((cu.intCoder opts).withMinMaxVal cu.srcData).minVal ((cu.intCoder opts).withMinMaxVal cu.srcData).maxVal := by
      cases hmm : opts.minMax with
      | some r =>
        have hcoder : cu.intCoder opts = { IntegerCoder.new cu.eachValSize.toNat with
            adoptRle := opts.adoptRle, minVal := r.1, maxVal := r.2, isValid := true } := by
          rw [CU.intCoder, hmm]
          rfl
        rw [hcoder]
        exact hopts r hmm hint.1
      | none =>
        have hvalid : (cu.intCoder opts).isValid = false := by
          rw [CU.intCoder, hmm]
          rfl
        rw [IntegerCoder.withMinMaxVal, hvalid]
        apply computeMinMaxVal_spec (by omega)
        intro hnil
        have hlen := congrArg List.length hnil
        rw [intValues_length, List.length_nil] at hlen
        have := Nat.div_pos (Nat.le_of_dvd hne (Nat.dvd_of_mod_eq_zero hmul)) (by omega)
        omega
    have hvals : intValues (cu.intCoder opts).eachValSize cu.srcData ≠ [] := by
      obtain ⟨v, hv, -⟩ := hcheck.minFound
      exact List.ne_nil_of_mem hv
    obtain ⟨hpos, hlt, hset, ⟨d, hd, k, hk, hmodes⟩, hback⟩ := decompress_compress hlib hsizes hne (by omega) hmul
      (hcheck.bounds.deltaBytes_le (by omega) (by omega) hvals) (fun _ => hcheck.bounds) hout
    have hown := coderModes_own d hd k hk
    rw [← hmodes] at hown
    have hcoder : out.modes &&& ~~~stringFlags = 0 := by
      rw [and_flag_of_and_mask hown _ (by decide), UInt16.zero_and]
    refine ⟨hpos, hlt, fun hzero => hset ?_, hcoder, fun modes' hmodes' => ?_⟩
    · have hall : out.modes = stringFlags &&& out.modes ||| ~~~stringFlags &&& out.modes := by
        rw [← or_and_flag, UInt16.or_not_self, UInt16.neg_one_and]
      rw [hall, UInt16.and_comm stringFlags, UInt16.and_comm (~~~stringFlags), hzero, hcoder, UInt16.zero_or]
    · rw [decodeData, if_pos hint, ← hcoderSize]
      exact hback _ le_rfl modes' ((and_flag_of_and_mask hmodes' coderFlags (by decide)).trans
        (and_flag_of_and_mask rfl coderFlags (by decide)).symm)
  · rw [if_neg hint]
    dsimp only
    rw [count_values h]
    have hdict : (if 8 < cu.eachValSize then false
        else decide (COMPRESS_LOW ≠ heaprelGetCompressionFromModes modes)) = true →
        ∃ vals : List (List UInt8), cu.srcData = vals.flatten ∧ (col.filterMap id).length = vals.length ∧
          (∀ v ∈ vals, IsVarlena v) ∧ vals.length < 2 ^ 16 := by
      intro huse
      have hsmall : ¬8 < cu.eachValSize := fun hbig => by
        rw [if_pos hbig] at huse
        exact Bool.false_ne_true huse
      refine ⟨col.filterMap id, h.data, rfl, fun v hv => ?_, (List.length_filterMap_le _ _).trans_lt hrows⟩
      obtain ⟨w, hw, rfl⟩ := List.mem_filterMap.mp hv
      rcases hval v hw with ⟨-, hlena⟩ | ⟨hpos, -⟩
      · exact hlena
      · omega
    obtain ⟨res, hres, hspec⟩ := compress_spec hashAny hlib (StringCoder.mk opts.adoptRle opts.adoptDict) hdict
      (by omega) modes houtBuf
    refine ⟨res, hres, fun out hout => ?_⟩
    obtain ⟨hpos, hlt, hset, hown, hback⟩ := hspec out hout
    refine ⟨hpos, hlt, hset, hown, fun modes' hmodes' => ?_⟩
    rw [decodeData, if_neg hint]
    exact hback modes' hmodes'

lemma storedNulls (h : cu.Holds hasNull col) : (if cu.hasNullValue then cu.nulls else []) = cu.nulls := by
  rw [h.flag]
  cases hasNull with
  | true => rfl
  | false => exact (List.length_eq_zero_iff.mp h.nulls_length).symm

lemma headerSize_eq (h : cu.Holds hasNull col) : cu.headerSize = 18 + if hasNull then 2 else 0 := by
  rw [CU.headerSize, h.flag]
  split <;> rfl

lemma le_alignCuSize (halign : 0 < alignSize) (h : n + alignSize < 2 ^ 32) : n ≤ alignCuSize n alignSize := by
  have hdown := Nat.div_mul_le_self (n + (alignSize - 1)) alignSize
  have hup := Nat.lt_div_mul_add halign (a := n + (alignSize - 1))
  rw [alignCuSize, Nat.mod_eq_of_lt (by omega)]
  omega

lemma alignCuSize_mono {m : Nat} (halign : 0 < alignSize) (hle : m ≤ n) (h : n + alignSize < 2 ^ 32) :
    alignCuSize m alignSize ≤ alignCuSize n alignSize := by
  have hm := Nat.div_mul_le_self (m + (alignSize - 1)) alignSize
  have hn := Nat.div_mul_le_self (n + (alignSize - 1)) alignSize
  rw [alignCuSize, alignCuSize, Nat.mod_eq_of_lt (by omega), Nat.mod_eq_of_lt (by omega)]
  exact Nat.mul_le_mul_right _ (Nat.div_le_div_right (by omega))

/-- The buffer is of the size that its header says. -/
lemma compressedBody_length (h : cu.Holds hasNull col) (infoMode : UInt16) (data : List UInt8) (halign : 0 < alignSize)
    (hsize : 20 + cu.nulls.length + data.length + alignSize < 2 ^ 32) :
    (cu.compressedBody infoMode data alignSize).length + 4 =
      alignCuSize ((18 + if hasNull then 2 else 0) + cu.nulls.length + data.length) alignSize := by
  unfold CU.compressedBody
  dsimp only
  rw [storedNulls h, headerSize_eq h, h.flag]
  simp only [List.length_append, toLE_length, List.length_replicate]
  cases hasNull with
  | true =>
    have := le_alignCuSize halign (n := 18 + 2 + cu.nulls.length + data.length) (by omega)
    simp only [if_true, toLE_length] at this ⊢
    omega
  | false =>
    have := le_alignCuSize halign (n := 18 + 0 + cu.nulls.length + data.length) (by omega)
    simp only [Bool.false_eq_true, if_false, List.length_nil] at this ⊢
    omega

lemma compressedBody_eq (h : cu.Holds hasNull col) (infoMode : UInt16) (data : List UInt8) (alignSize : Nat) :
    ∃ pad, cu.compressedBody infoMode data alignSize = toLE 4 cu.magic.toNat ++ (toLE 2 infoMode.toNat ++
      ((if hasNull then toLE 2 cu.nulls.length else []) ++ (toLE 4 cu.srcData.length ++ (toLE 4 data.length ++
        (cu.nulls ++ (data ++ pad)))))) := by
  rw [CU.compressedBody, storedNulls h, h.flag]
  refine ⟨List.replicate (alignCuSize (cu.headerSize + cu.nulls.length + data.length) alignSize -
    (cu.headerSize + cu.nulls.length + data.length)) 0, ?_⟩
  simp only [List.append_assoc]

/-- A field of a header -/
lemma ofLE_take_append {v : Nat} (h : v < 256 ^ n) (rest : List UInt8) : ofLE ((toLE n v ++ rest).take n) = v := by
  rw [List.take_left' (toLE_length _ _), ofLE_toLE_of_lt h]

lemma drop_toLE_append (n v : Nat) (rest : List UInt8) : (toLE n v ++ rest).drop n = rest :=
  List.drop_left' (toLE_length _ _)

/-- `UnCompressHeader` reads back what `FillCompressBufHeader` wrote. -/
lemma unCompressHeader_eq (h : cu.Holds hasNull col) (hrows : col.length < 2 ^ 16) (m : UInt16) (data : List UInt8)
    (halign : 0 < alignSize) (hsize : 20 + cu.nulls.length + data.length + alignSize < 2 ^ 32)
    (hsrc : cu.srcData.length < 2 ^ 32) {crc : List UInt8} (hcrc : crc.length = 4) :
    ∃ pad, CU.unCompressHeader (crc ++ cu.compressedBody (headerMode hasNull m) data alignSize) cu.magic alignSize =
      some (⟨headerMode hasNull m, cu.nulls.length, cu.srcData.length, data.length⟩, cu.nulls ++ (data ++ pad)) := by
  have hlen := compressedBody_length h (headerMode hasNull m) data halign hsize
  obtain ⟨pad, hbody⟩ := compressedBody_eq h (headerMode hasNull m) data alignSize
  have hmagic : cu.magic.toNat < 256 ^ 4 := cu.magic.toNat_lt
  have hmode : (headerMode hasNull m).toNat < 256 ^ 2 := (headerMode hasNull m).toNat_lt
  have hsizes : data.length < 256 ^ 4 := by omega
  have hnullsLt : cu.nulls.length < 256 ^ 2 := by
    have := bitmapSize_lt hrows
    rw [h.nulls_length]
    split <;> omega
  have htotal : (crc ++ cu.compressedBody (headerMode hasNull m) data alignSize).length =
      alignCuSize ((18 + if hasNull then 2 else 0) + cu.nulls.length + data.length) alignSize := by
    rw [List.length_append, hcrc, ← hlen, Nat.add_comm]
  refine ⟨pad, ?_⟩
  rw [CU.unCompressHeader, htotal, List.drop_left' hcrc, hbody]
  dsimp only
  rw [if_neg (not_not.mpr (ofLE_take_append hmagic _)), drop_toLE_append, ofLE_take_append hmode,
    UInt16.ofNat_toNat, headerMode_hasNull, ← List.append_assoc (toLE 4 _) (toLE 2 _),
    List.drop_left' (show (toLE 4 cu.magic.toNat ++ toLE 2 (headerMode hasNull m).toNat).length = 6 by simp)]
  have hfields : ∀ rest : List UInt8, (toLE 4 cu.srcData.length ++ (toLE 4 data.length ++ rest)).drop 8 = rest := by
    intro rest
    rw [← List.append_assoc]
    exact List.drop_left' (by simp)
  cases hasNull with
  | true =>
    simp only [if_true]
    rw [ofLE_take_append hnullsLt, drop_toLE_append, ofLE_take_append hsrc, drop_toLE_append, ofLE_take_append hsizes,
      hfields, if_pos (.inl rfl)]
  | false =>
    have hnil : cu.nulls.length = 0 := h.nulls_length
    simp only [Bool.false_eq_true, if_false, List.nil_append]
    rw [ofLE_take_append hsrc, drop_toLE_append, ofLE_take_append hsizes, hfields, hnil, if_pos (.inl rfl)]

/-- The data of a unit, compressed or not, is read back under the flags of its header. -/
lemma unCompressData_plain (eachValSize : Int) (nulls : Nat) (data pad : List UInt8) :
    CU.unCompressData lib ⟨headerMode hasNull 0, nulls, data.length, data.length⟩ eachValSize (data ++ pad) =
      some data := by
  have hmode : headerMode hasNull 0 &&& CU_INFOMASK1 = 0 := by
    rw [headerMode_and _ _ _ (by decide), UInt16.zero_and]
  rw [CU.unCompressData, if_neg (not_not.mpr hmode), List.take_left' rfl]

lemma unCompressData_coded {m : UInt16} (hset : m &&& stringFlags ≠ 0) (hown : m &&& ~~~stringFlags = 0)
    {eachValSize : Int} (nulls : Nat) {src data : List UInt8} (pad : List UInt8) (hsrc : src ≠ [])
    (hback : ∀ modes' : UInt16, modes' &&& stringFlags = m &&& stringFlags →
      decodeData lib eachValSize ⟨data, modes'⟩ src.length = some src) :
    CU.unCompressData lib ⟨headerMode hasNull m, nulls, src.length, data.length⟩ eachValSize (data ++ pad) =
      some src := by
  have hmode : headerMode hasNull m &&& CU_INFOMASK1 ≠ 0 := fun hzero => by
    rw [headerMode_and _ _ _ (by decide)] at hzero
    exact hset (by rw [and_flag_of_and_mask hzero _ (by decide), UInt16.zero_and])
  rw [CU.unCompressData, if_pos hmode]
  dsimp only
  rw [if_neg (headerMode_not_sequence hasNull hown), List.take_left' rfl]
  have hdecode := hback (headerMode hasNull m) (headerMode_and _ _ _ (by decide))
  rw [decodeData] at hdecode
  rw [hdecode, Option.filter_some_pos (by simpa using hsrc)]

/-- A unit that is uncompressed holds the rows of the unit that was compressed. -/
lemma unCompress_eq (h : cu.Holds hasNull col) (hrows : col.length < 2 ^ 16) {m : UInt16} {data crc : List UInt8}
    (halign : 0 < alignSize) (hsize : 20 + cu.nulls.length + data.length + alignSize < 2 ^ 32)
    (hsrc : cu.srcData.length < 2 ^ 31) (hcrc : crc.length = 4) (hval : ∀ v, some v ∈ col → IsValue cu.eachValSize v)
    (hnull : hasNull = false → none ∉ col)
    (hdata : ∀ nulls pad, CU.unCompressData lib ⟨headerMode hasNull m, nulls, cu.srcData.length, data.length⟩
      cu.eachValSize (data ++ pad) = some cu.srcData) :
    ∃ loaded, CU.unCompress lib cu.eachValSize (crc ++ cu.compressedBody (headerMode hasNull m) data alignSize)
        col.length cu.magic alignSize = some loaded ∧ loaded.Holds hasNull col ∧
      ∀ i v, col[i]? = some (some v) → loaded.getValue i = some v := by
  obtain ⟨pad, hheader⟩ := unCompressHeader_eq h hrows m data halign hsize (by omega) hcrc
  have hflag : CU.hasNullValue { CU.new cu.eachValSize cu.magic with infoMode := headerMode hasNull m } = hasNull :=
    headerMode_hasNull hasNull m
  rw [CU.unCompress, hheader]
  dsimp only [Option.bind_eq_bind, Option.bind_some]
  rw [hflag, initMem_eq hrows (show cu.srcData.length + 30 < 2 ^ 32 - 2 ^ 16 by omega), Option.bind_some]
  dsimp only
  rw [List.length_replicate, ← h.nulls_length, if_pos rfl, List.take_left' rfl, List.drop_left' rfl, hdata,
    Option.bind_some]
  generalize hloaded : ({ CU.new cu.eachValSize cu.magic with
      nulls := cu.nulls, srcData := cu.srcData,
      infoMode := if hasNull then headerMode hasNull m ||| CU_HasNULL else headerMode hasNull m } : CU) = loaded
  have hholds : loaded.Holds hasNull col := by
    subst hloaded
    refine ⟨h.data, h.bits, h.nulls_length, ?_⟩
    cases hasNull with
    | true =>
      have hset : (headerMode true m ||| CU_HasNULL) &&& CU_HasNULL ≠ 0 := by
        rw [or_and_flag, UInt16.and_self]
        intro hzero
        exact absurd (UInt16.or_eq_zero_iff.mp hzero).2 (by decide)
      exact decide_eq_true hset
    | false => exact headerMode_hasNull false m
  have hsame : loaded.eachValSize = cu.eachValSize := by
    subst hloaded
    rfl
  obtain ⟨loaded', hform, hholds', hget⟩ := getValue_formValuesOffset hholds hnull (hsame.symm ▸ hval)
    (show (columnData col).length ≤ cu.srcData.length + ZLIB_EXTRA_SIZE + cu.nulls.length by rw [← h.data]; omega)
  exact ⟨loaded', hform, hholds', hget⟩

/-- The buffer that `Compress` leaves, and what it holds for the decoder -/
lemma compress_cases (hashAny : List UInt8 → UInt32) (crc32c : List UInt8 → UInt32) (hlib : lib.Lossless)
    (h : cu.Holds hasNull col) (hinfo : cu.infoMode = nullFlag hasNull) (hatt : cu.eachValSize ∈ attLens)
    (hval : ∀ v, some v ∈ col → IsValue cu.eachValSize v) (hrows : col.length < 2 ^ 16) (hne : 0 < cu.srcData.length)
    (hsize : cu.srcData.length < 2 ^ 31 - 16) {opts : CUOptions} (hopts : opts.Valid cu.eachValSize cu.srcData)
    (modes : UInt16) (alignSize : Nat) {mem : List UInt8} (hroom : cu.srcData.length ≤
      (mem.drop (cu.headerSize + (if cu.hasNullValue then cu.nulls else []).length)).length) :
    ∃ (m : UInt16) (data : List UInt8), data.length ≤ cu.srcData.length ∧
      (∀ nulls pad, CU.unCompressData lib ⟨headerMode hasNull m, nulls, cu.srcData.length, data.length⟩
        cu.eachValSize (data ++ pad) = some cu.srcData) ∧
      cu.compress lib hashAny crc32c opts col.length modes alignSize mem =
        some (toLE 4 (crc32c (cu.compressedBody (headerMode hasNull m) data alignSize)).toNat ++
          cu.compressedBody (headerMode hasNull m) data alignSize) := by
  have hplain : nullFlag hasNull ||| CU_CRC32C = headerMode hasNull 0 := by
    rw [headerMode, UInt16.zero_and, UInt16.or_zero]
  have hraw : ∀ nulls pad, CU.unCompressData lib ⟨headerMode hasNull 0, nulls, cu.srcData.length, cu.srcData.length⟩
      cu.eachValSize (cu.srcData ++ pad) = some cu.srcData := fun nulls pad =>
    unCompressData_plain cu.eachValSize nulls cu.srcData pad
  unfold CU.compress
  dsimp only
  rw [hinfo]
  by_cases hno : heaprelGetCompressionFromModes modes ≠ COMPRESS_NO
  · rw [if_pos hno]
    obtain ⟨res, hres, hspec⟩ := compressData_spec hashAny hlib h hatt hval hrows hne hsize hopts modes hroom
    rw [hres]
    cases res with
    | none => exact ⟨0, cu.srcData, le_rfl, hraw, by rw [← hplain]; rfl⟩
    | some out =>
      obtain ⟨hpos, hlt, hset, hown, hback⟩ := hspec out rfl
      exact ⟨out.modes, out.buf, hlt.le, fun nulls pad =>
        unCompressData_coded hset hown nulls pad (List.length_pos_iff.mp hne) hback, rfl⟩
  · rw [if_neg hno]
    exact ⟨0, cu.srcData, le_rfl, hraw, by rw [← hplain]; rfl⟩

/-- The checksum and the magic number of a buffer that was just compressed -/
lemma isVerified_eq (h : cu.Holds hasNull col) (crc32 crc32c : List UInt8 → UInt32) (m : UInt16) (data : List UInt8)
    (alignSize : Nat) :
    CU.isVerified crc32 crc32c (toLE 4 (crc32c (cu.compressedBody (headerMode hasNull m) data alignSize)).toNat ++
      cu.compressedBody (headerMode hasNull m) data alignSize) cu.magic = true := by
  obtain ⟨pad, hbody⟩ := compressedBody_eq h (headerMode hasNull m) data alignSize
  have hmagic : cu.magic.toNat < 256 ^ 4 := cu.magic.toNat_lt
  have hmode : (headerMode hasNull m).toNat < 256 ^ 2 := (headerMode hasNull m).toNat_lt
  generalize hb : cu.compressedBody (headerMode hasNull m) data alignSize = body at hbody ⊢
  have hcrc : (crc32c body).toNat < 256 ^ 4 := (crc32c body).toNat_lt
  have hdrop : (toLE 4 (crc32c body).toNat ++ body).drop 8 = body.drop 4 := by
    rw [show (8 : Nat) = 4 + 4 from rfl, ← List.drop_drop, drop_toLE_append]
  rw [CU.isVerified, hdrop]
  rw [ofLE_take_append hcrc, CU.generateCrc, drop_toLE_append, decide_eq_true_iff]
  rw [hbody, drop_toLE_append, ofLE_take_append hmode, UInt16.ofNat_toNat, if_pos (headerMode_crc hasNull m),
    ofLE_take_append hmagic]
  exact ⟨rfl, rfl⟩

/-- A unit that is formed from the rows of a column and compressed passes its own checks and is read back row by row,
whichever coder was used for it. -/
theorem columnUnit_round_trip (hashAny : List UInt8 → UInt32) (crc32 crc32c : List UInt8 → UInt32)
    (hlib : lib.Lossless) {attlen : Int} (hatt : attlen ∈ attLens) (hrows : col.length < 2 ^ 16)
    (hval : ∀ v, some v ∈ col → IsValue attlen v) (hnull : hasNull = false → none ∉ col) (hne : ∃ v, some v ∈ col)
    {initialSize alignSize : Nat} (hinit : initialSize < 2 ^ 32 - 2 ^ 16) (halign : 0 < alignSize)
    (hsize : (columnData col).length + bitmapSize col.length + sizeofCU + alignSize < 2 ^ 31) {opts : CUOptions}
    (hopts : opts.Valid attlen (columnData col)) (modes : UInt16) (magic : UInt32) :
    ∃ cu, CU.form attlen magic initialSize hasNull col = some cu ∧
      ∀ mem : List UInt8, mem.length = cu.compressedBufSize alignSize → ∃ buf loaded,
        cu.compress lib hashAny crc32c opts col.length modes alignSize mem = some buf ∧ buf.length ≤ mem.length ∧
        CU.isVerified crc32 crc32c buf magic = true ∧
        CU.unCompress lib attlen buf col.length magic alignSize = some loaded ∧
        ∀ i v, col[i]? = some v → loaded.isNull i = v.isNone ∧ ∀ val, v = some val → loaded.getValue i = some val := by
  obtain ⟨cu, hform, hholds, hinfo, rfl, rfl⟩ := form_spec attlen magic hrows hinit hnull
  refine ⟨cu, hform, fun mem hmem => ?_⟩
  have hsizeofCU : sizeofCU = 120 := rfl
  have hnulls : cu.nulls.length ≤ bitmapSize col.length := by
    rw [hholds.nulls_length]
    split <;> omega
  rw [← hholds.data] at hsize hopts
  have hbufSize := le_alignCuSize halign (n := cu.srcData.length + cu.nulls.length + sizeofCU) (by omega)
  rw [← CU.compressedBufSize, ← hmem] at hbufSize
  have hhead : cu.headerSize ≤ 20 := by
    rw [headerSize_eq hholds]
    split <;> omega
  have hsrcNe : 0 < cu.srcData.length := by
    obtain ⟨v, hv⟩ := hne
    obtain ⟨i, hi⟩ := List.mem_iff_getElem?.mp hv
    have hend := colOffset_le col (i + 1)
    rw [colOffset_succ hi, Option.getD_some, ← hholds.data] at hend
    rcases hval v hv with ⟨-, hlena⟩ | ⟨hpos, hlen⟩
    · have := List.length_pos_iff.mpr hlena.ne_nil
      omega
    · omega
  have hroom : cu.srcData.length ≤
      (mem.drop (cu.headerSize + (if cu.hasNullValue then cu.nulls else []).length)).length := by
    rw [storedNulls hholds, List.length_drop]
    omega
  obtain ⟨m, data, hle, hdata, hcompress⟩ := compress_cases hashAny crc32c hlib hholds hinfo hatt hval hrows hsrcNe
    (by omega) hopts modes alignSize hroom
  have hlen := compressedBody_length hholds (headerMode hasNull m) data halign (by omega)
  obtain ⟨loaded, hload, hloaded, hget⟩ := unCompress_eq hholds hrows halign (by omega) (by omega)
    (toLE_length 4 (crc32c (cu.compressedBody (headerMode hasNull m) data alignSize)).toNat) hval hnull hdata
  refine ⟨_, loaded, hcompress, ?_, ?_, hload, fun i v hv => ⟨?_, fun val hval' => hget i val (hval' ▸ hv)⟩⟩
  · rw [List.length_append, toLE_length, Nat.add_comm, hlen, hmem, CU.compressedBufSize]
    apply alignCuSize_mono halign
    · rw [headerSize_eq hholds] at hhead
      omega
    · omega
  · exact isVerified_eq hholds crc32 crc32c m data alignSize
  · have hbit := hloaded.bits i
    rw [hv, Option.some_inj] at hbit
    cases v with
    | none => exact hbit.mpr rfl
    | some val => exact Bool.eq_false_iff.mpr fun hn => Option.some_ne_none val (hbit.mp hn)

/-- Three rows of four bytes, the second of them a null -/
def sampleColumn : List (Option (List UInt8)) := [some [1, 0, 0, 0], none, some [7, 1, 0, 0]]

theorem columnUnit_round_trip_ints : ∃ cu, CU.form 4 9 100 true sampleColumn = some cu ∧
    ∃ buf loaded, cu.compress .trimmed (fun _ => 3) (fun _ => 5) ⟨true, true, none⟩ 3 1 32
        (List.replicate (cu.compressedBufSize 32) 0) = some buf ∧
      CU.unCompress .trimmed 4 buf 3 9 32 = some loaded ∧ loaded.isNull 1 = true ∧
      loaded.getValue 2 = some [7, 1, 0, 0] := by
  obtain ⟨cu, hform, hall⟩ := columnUnit_round_trip (fun _ => 3) (fun _ => 4) (fun _ => 5)
    CompressLibrary.trimmed_lossless (show (4 : Int) ∈ attLens by decide) (show sampleColumn.length < 2 ^ 16 by decide)
    (fun v hv => by
      simp only [sampleColumn, List.mem_cons, Option.some_inj, List.not_mem_nil, or_false] at hv
      rcases hv with rfl | hv | rfl
      · exact .inr ⟨by decide, rfl⟩
      · cases hv
      · exact .inr ⟨by decide, rfl⟩)
    (show true = false → none ∉ sampleColumn from nofun) ⟨[1, 0, 0, 0], by decide⟩
    (show 100 < 2 ^ 32 - 2 ^ 16 by decide) (show 0 < 32 by decide) (by decide)
    (show CUOptions.Valid ⟨true, true, none⟩ 4 (columnData sampleColumn) from nofun) 1 9
  obtain ⟨buf, loaded, hcompress, -, -, hload, hread⟩ := hall _ List.length_replicate
  exact ⟨cu, hform, buf, loaded, hcompress, hload, (hread 1 none rfl).1, (hread 2 _ rfl).2 _ rfl⟩

end compress

end GaussKernel.CStore
