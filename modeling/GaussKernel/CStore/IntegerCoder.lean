import GaussKernel.CStore.Delta
import GaussKernel.CStore.Rle

/-!
# Integer coder of the column store

Model of `IntegerCoder` (`cstore_compress.cpp`): the delta coder, the run-length coder and one of the two libraries are
tried one after the other, each is kept only if it makes the data smaller, and flags tell the decoder which were kept.
`LZ4Wrapper`, `ZlibEncoder` and `ZlibDecoder` (`compress_kits.cpp`) are modelled over the functions of the libraries.
The size of a buffer is the length of its list. The checks of a debug build are left out.
-/

namespace GaussKernel.CStore

open Lib

/-! ## The libraries -/

/-- The functions of LZ4 and zlib. An empty result is the failure of an LZ4 function; `none` is a call of `deflate` or
`inflate` that does not reach the end of the stream. -/
structure CompressLibrary where
  lz4CompressDefault : (source : List UInt8) → List UInt8
  lz4CompressHC : (source : List UInt8) → (level : Nat) → List UInt8
  lz4DecompressSafe : (source : List UInt8) → (destSize : Nat) → Option (List UInt8)
  deflate : (level : Nat) → (source : List UInt8) → Option (List UInt8)
  inflate : (source : List UInt8) → (outsize : Nat) → Option (List UInt8)

/-- What the libraries document: a stream that was written is decompressed to its source. -/
structure CompressLibrary.Lossless (lib : CompressLibrary) : Prop where
  lz4Default : ∀ source, lib.lz4CompressDefault source ≠ [] →
    lib.lz4DecompressSafe (lib.lz4CompressDefault source) source.length = some source
  lz4HC : ∀ source level, lib.lz4CompressHC source level ≠ [] →
    lib.lz4DecompressSafe (lib.lz4CompressHC source level) source.length = some source
  zlib : ∀ level source out, lib.deflate level source = some out → ∀ outsize, source.length ≤ outsize →
    lib.inflate out outsize = some source

variable (lib : CompressLibrary)

namespace LZ4Wrapper

abbrev lz4MinLevel : Nat := 0

/-- `SizeOfLz4Header` -/
abbrev sizeOfLz4Header : Nat := 8

def benefited (outsize srcsize : Nat) : Bool := 0 < outsize ∧ sizeOfLz4Header + outsize < srcsize

/-- The header with `rawLen` and `compressLen`, and the data; nothing is written where 0 is returned. -/
def compress (level : Nat) (source : List UInt8) : List UInt8 :=
  let data := if level = lz4MinLevel then lib.lz4CompressDefault source else lib.lz4CompressHC source level
  if benefited data.length source.length then toLE 4 source.length ++ toLE 4 data.length ++ data else []

def decompress (source : List UInt8) : Option (List UInt8) :=
  let rawLen := ofLE (source.take 4)
  let compressLen := ofLE ((source.drop 4).take 4)
  lib.lz4DecompressSafe ((source.drop sizeOfLz4Header).take compressLen) rawLen

end LZ4Wrapper

/-! ## Modes -/

abbrev CU_DeltaCompressed : UInt16 := 0x0001
abbrev CU_DicEncode : UInt16 := 0x0002
abbrev CU_RLECompressed : UInt16 := 0x0008
abbrev CU_LzCompressed : UInt16 := 0x0010
abbrev CU_ZlibCompressed : UInt16 := 0x0020

abbrev COMPRESS_LOW : Nat := 1
abbrev COMPRESS_MIDDLE : Nat := 2
abbrev COMPRESS_HIGH : Nat := 3

def heaprelGetCompressionFromModes (modes : UInt16) : Nat := modes.toNat % 256

def heaprelGetCompresslevelFromModes (modes : UInt16) : Nat := modes.toNat / 256

def compresslevelTables : List (List Nat) := [[0, 0, 0, 0], [0, 1, 3, 5], [7, 9, 11, 13], [6, 7, 8, 9]]

def compressLevel (modes : UInt16) : Nat :=
  (compresslevelTables.getD (heaprelGetCompressionFromModes modes) []).getD (heaprelGetCompresslevelFromModes modes) 0

structure CompressionArg2 where
  buf : List UInt8
  modes : UInt16
  deriving DecidableEq, Repr

/-- A coder was tried: what it has written replaces the data and its flag is set, or nothing happens. -/
def CompressionArg2.record (out : CompressionArg2) (flag : UInt16) : Option (List UInt8) → CompressionArg2
  | some buf => ⟨buf, out.modes ||| flag⟩
  | none => out

/-! ## Coder -/

/-- The switch of `ConvertToInt64Data`; other sizes are an assertion. -/
def convertToInt64Data (inBuf : List UInt8) (eachValSize : Nat) : BitVec 64 :=
  if eachValSize = 1 ∨ eachValSize = 2 ∨ eachValSize = 4 ∨ eachValSize = 8 then
    (BitVec.ofNat (8 * eachValSize) (ofLE (inBuf.take eachValSize))).signExtend 64
  else -1

def int64DataConvertTo (inVal : BitVec 64) (eachValSize : Nat) : List UInt8 := toLE eachValSize inVal.toNat

/-- The values of a buffer as the machine's signed integers -/
def intValues (size : Nat) (buf : List UInt8) : List (BitVec (8 * size)) := (wordsLE size buf).map (BitVec.ofNat _)

def computeMinMaxVal {w : Nat} : List (BitVec w) → BitVec 64 × BitVec 64
  | [] => (0, 0)
  | v :: vals =>
    let r := vals.foldl
      (fun r x => if x.slt r.1 then (x, r.2) else if r.2.slt x then (r.1, x) else r) (v, v)
    (r.1.signExtend 64, r.2.signExtend 64)

structure IntegerCoder where
  adoptRle : Bool
  minVal : BitVec 64
  maxVal : BitVec 64
  isValid : Bool
  eachValSize : Nat

/-- The run-length coder of the first constructor; other sizes are an assertion. -/
def rleCoder (valSize : Nat) : Option RleCoder :=
  if h : 1 ≤ valSize ∧ valSize ≤ 8 then some ⟨valSize, rleMinRepeatsV1, h.1, h.2, .inl rfl⟩ else none

/-- The attempt with `RleCoder` -/
def applyRle (valSize : Nat) (buf : List UInt8) : Option (List UInt8) := do
  let rle ← rleCoder valSize
  let r := rle.compress buf
  if 0 < r.2 ∧ r.2 < buf.length then some (r.1.take r.2.toNat) else none

/-- The flag of the library that a compression uses -/
def libraryFlag (compression : Nat) : UInt16 :=
  if compression = COMPRESS_MIDDLE then CU_LzCompressed else CU_ZlibCompressed

/-- What LZ4 or zlib writes, nothing at the lowest compression -/
def libraryCompress (modes : UInt16) (buf : List UInt8) : List UInt8 :=
  if heaprelGetCompressionFromModes modes = COMPRESS_MIDDLE then LZ4Wrapper.compress lib (compressLevel modes) buf
  else if heaprelGetCompressionFromModes modes = COMPRESS_HIGH then (lib.deflate (compressLevel modes) buf).getD []
  else []

/-- The attempt with LZ4 or zlib -/
def applyLibrary (modes : UInt16) (buf : List UInt8) : Option (List UInt8) :=
  let cmpr := libraryCompress lib modes buf
  if 0 < cmpr.length ∧ cmpr.length < buf.length then some cmpr else none

namespace IntegerCoder

variable (c : IntegerCoder)

/-- The constructor -/
def new (valSize : Nat) : IntegerCoder := ⟨true, 0, 0, false, valSize⟩

def setMinMaxVal (min max : BitVec 64) : IntegerCoder := { c with minVal := min, maxVal := max, isValid := true }

/-- `CompressInner` computes the bounds when they are not set. -/
def withMinMaxVal (inBuf : List UInt8) : IntegerCoder :=
  if c.isValid then c
  else
    let r := computeMinMaxVal (intValues c.eachValSize inBuf)
    c.setMinMaxVal r.1 r.2

def insertMinMaxVal (buf : List UInt8) : List UInt8 :=
  int64DataConvertTo c.minVal c.eachValSize ++ int64DataConvertTo c.maxVal c.eachValSize ++ buf

/-- The number of bytes that a difference takes -/
def deltaBytes : Nat := deltaGetBytesNum c.minVal c.maxVal

/-- The attempt with `DeltaCoder` -/
def applyDelta (inBuf : List UInt8) : Option (List UInt8) :=
  if c.deltaBytes < c.eachValSize then
    let cmpr := (DeltaCoder.compressing c.minVal c.maxVal).compress inBuf inBuf.length inBuf.length c.eachValSize
    if cmpr.length + c.eachValSize * 2 < inBuf.length then some cmpr else none
  else none

/-- The size of a value after the attempt with `DeltaCoder` -/
def outValSize (inBuf : List UInt8) : Nat :=
  if c.deltaBytes < c.eachValSize ∧ c.applyDelta inBuf = none then c.eachValSize else c.deltaBytes

/-- The second and the third step of `CompressInner` -/
def compressRest (modes : UInt16) (valSize : Nat) (out : CompressionArg2) : CompressionArg2 :=
  let out := if c.adoptRle then out.record CU_RLECompressed (applyRle valSize out.buf) else out
  out.record (libraryFlag (heaprelGetCompressionFromModes modes)) (applyLibrary lib modes out.buf)

/-- The three steps of `CompressInner` -/
def compressInner (inBuf : List UInt8) (modes : UInt16) : CompressionArg2 :=
  c.compressRest lib modes (c.outValSize inBuf)
    (CompressionArg2.record ⟨inBuf, 0⟩ CU_DeltaCompressed (c.applyDelta inBuf))

/-- `Compress`; `none` is the result 0. -/
def compress (inBuf : List UInt8) (modes : UInt16) : Option CompressionArg2 :=
  let c := c.withMinMaxVal inBuf
  let out := c.compressInner lib inBuf modes
  let buf := if out.modes &&& CU_DeltaCompressed ≠ 0 then c.insertMinMaxVal out.buf else out.buf
  if out.modes ≠ 0 then some ⟨buf, out.modes⟩ else none

/-- What LZ4 or zlib makes of the input; `none` is an error of theirs. -/
def decompressLibrary (modes : UInt16) (buf : List UInt8) (outSz : Nat) : Option (List UInt8) :=
  if modes &&& CU_LzCompressed ≠ 0 then LZ4Wrapper.decompress lib buf
  else if modes &&& CU_ZlibCompressed ≠ 0 then lib.inflate buf outSz
  else some buf

def decompressRle (modes : UInt16) (oneValSize : Nat) (buf : List UInt8) : Option (List UInt8) :=
  if modes &&& CU_RLECompressed ≠ 0 then do
    let rle ← rleCoder oneValSize
    let r ← rle.decompress buf
    some r.1
  else some buf

def decompress (arg : CompressionArg2) (outSz : Nat) : Option (List UInt8) := do
  if arg.modes &&& CU_DeltaCompressed ≠ 0 then
    let minVal := convertToInt64Data arg.buf c.eachValSize
    let maxVal := convertToInt64Data (arg.buf.drop c.eachValSize) c.eachValSize
    let inValSize := deltaGetBytesNum minVal maxVal
    let next ← decompressLibrary lib arg.modes (arg.buf.drop (c.eachValSize * 2)) outSz
    let next ← decompressRle arg.modes inValSize next
    some ((DeltaCoder.decompressing minVal c.eachValSize).decompress next next.length inValSize)
  else
    let next ← decompressLibrary lib arg.modes arg.buf outSz
    decompressRle arg.modes c.eachValSize next

end IntegerCoder

/-! ## What an attempt leaves can be decompressed -/

section stages

variable {lib} {buf out : List UInt8} {modes : UInt16}

lemma or_and_flag (a b c : UInt16) : (a ||| b) &&& c = (a &&& c) ||| (b &&& c) := by
  apply UInt16.toBitVec_inj.mp
  apply BitVec.eq_of_getElem_eq
  intro i hi
  simp [Bool.and_or_distrib_right]

lemma lz4_decompress_compress (hlib : lib.Lossless) {level : Nat} (hint : buf.length < 2 ^ 31)
    (h : LZ4Wrapper.compress lib level buf ≠ []) :
    LZ4Wrapper.decompress lib (LZ4Wrapper.compress lib level buf) = some buf := by
  unfold LZ4Wrapper.compress at h ⊢
  generalize hdata : (if level = LZ4Wrapper.lz4MinLevel then lib.lz4CompressDefault buf
    else lib.lz4CompressHC buf level) = data at h ⊢
  dsimp only at h ⊢
  split at h
  case isFalse => exact absurd rfl h
  case isTrue hb =>
    rw [if_pos hb]
    obtain ⟨hpos, hlt⟩ : 0 < data.length ∧ LZ4Wrapper.sizeOfLz4Header + data.length < buf.length := by
      simpa [LZ4Wrapper.benefited] using hb
    have hne : data ≠ [] := List.length_pos_iff.mp hpos
    have hraw : ofLE ((toLE 4 buf.length ++ toLE 4 data.length ++ data).take 4) = buf.length := by
      rw [List.append_assoc, List.take_left' (toLE_length _ _), ofLE_toLE_of_lt (by norm_num; omega)]
    have hcmpr : ofLE (((toLE 4 buf.length ++ toLE 4 data.length ++ data).drop 4).take 4) = data.length := by
      rw [List.append_assoc, List.drop_left' (toLE_length _ _), List.take_left' (toLE_length _ _),
        ofLE_toLE_of_lt (by norm_num; omega)]
    have hrest : (toLE 4 buf.length ++ toLE 4 data.length ++ data).drop LZ4Wrapper.sizeOfLz4Header = data :=
      List.drop_left' (by simp)
    rw [LZ4Wrapper.decompress, hraw, hcmpr, hrest, List.take_length]
    split at hdata
    · subst hdata
      exact hlib.lz4Default buf hne
    · subst hdata
      exact hlib.lz4HC buf level hne

lemma applyLibrary_spec (hlib : lib.Lossless) (hint : buf.length < 2 ^ 31)
    (h : applyLibrary lib modes buf = some out) :
    0 < out.length ∧ out.length < buf.length ∧
      ((libraryFlag (heaprelGetCompressionFromModes modes) = CU_LzCompressed ∧
          LZ4Wrapper.decompress lib out = some buf) ∨
        (libraryFlag (heaprelGetCompressionFromModes modes) = CU_ZlibCompressed ∧
          ∀ outSz, buf.length ≤ outSz → lib.inflate out outSz = some buf)) := by
  obtain ⟨hlen, hout⟩ := Option.ite_none_right_eq_some.mp h
  obtain rfl := Option.some_inj.mp hout
  refine ⟨hlen.1, hlen.2, ?_⟩
  have hne := List.length_pos_iff.mp hlen.1
  unfold libraryCompress at hne ⊢
  by_cases hmid : heaprelGetCompressionFromModes modes = COMPRESS_MIDDLE
  · rw [if_pos hmid] at hne ⊢
    exact .inl ⟨if_pos hmid, lz4_decompress_compress hlib hint hne⟩
  · rw [if_neg hmid] at hne ⊢
    by_cases hhigh : heaprelGetCompressionFromModes modes = COMPRESS_HIGH
    · rw [if_pos hhigh] at hne ⊢
      refine .inr ⟨if_neg hmid, fun outSz houtSz => ?_⟩
      cases hdef : lib.deflate (compressLevel modes) buf with
      | none =>
        rw [hdef] at hne
        exact absurd rfl hne
      | some dst => exact hlib.zlib _ _ _ hdef _ houtSz
    · rw [if_neg hhigh] at hne
      exact absurd rfl hne

/-- A result of `RleCoder::Compress` that is not 0 is the number of bytes written, and they are decompressed. -/
lemma rle_decompress_compress (c : RleCoder) (hpos : 0 < buf.length) (hint : buf.length < 2 ^ 31)
    (hmul : buf.length % c.valSize = 0) (hret : 0 < (c.compress buf).2) :
    (c.compress buf).2 = (c.compress buf).1.length ∧ c.decompress (c.compress buf).1 = some (buf, buf.length) := by
  have hle := c.innerCompress_length_le buf hmul
  have henc := c.innerCompress_encodes buf
  have hvs : c.values buf ≠ [] := by
    rw [← List.length_pos_iff, RleCoder.values_length]
    exact Nat.div_pos (Nat.le_of_dvd hpos (Nat.dvd_of_mod_eq_zero hmul)) c.valSize_pos
  constructor
  · have hdiv := Nat.div_le_self buf.length c.valSize
    rw [RleCoder.compressGetBound] at hle
    simp only [RleCoder.compress, Int.bmod] at hret ⊢
    omega
  · have hloop := (henc.decodes c fun v hv => c.values_lt hv).decompressLoop c (henc.ne_nil c hvs) le_rfl [] 0
    rw [RleCoder.flatten_values c hmul, List.nil_append, Nat.zero_add, RleCoder.values_length] at hloop
    rw [RleCoder.decompress, RleCoder.compress, hloop]
    simp only [Option.map_some, Nat.mul_div_cancel' (Nat.dvd_of_mod_eq_zero hmul)]

lemma applyRle_spec {valSize : Nat} (hpos : 0 < buf.length) (hint : buf.length < 2 ^ 31)
    (hmul : buf.length % valSize = 0) (h : applyRle valSize buf = some out) :
    0 < out.length ∧ out.length < buf.length ∧
      ∃ rle, rleCoder valSize = some rle ∧ rle.decompress out = some (buf, buf.length) := by
  obtain ⟨rle, hrle, h⟩ := Option.bind_eq_some_iff.mp h
  obtain ⟨hlen, hout⟩ := Option.ite_none_right_eq_some.mp h
  obtain rfl := Option.some_inj.mp hout
  have hsize : rle.valSize = valSize := by
    unfold rleCoder at hrle
    split at hrle
    · exact congrArg RleCoder.valSize (Option.some_inj.mp hrle).symm
    · exact absurd hrle nofun
  obtain ⟨hcount, hback⟩ := rle_decompress_compress rle hpos hint (hsize.symm ▸ hmul) hlen.1
  rw [hcount, Int.toNat_natCast, List.take_length]
  rw [hcount] at hlen
  exact ⟨by omega, by omega, rle, hrle, hback⟩

lemma and_flag_of_and_mask {mask k : UInt16} (h : modes &&& mask = k) (flag : UInt16) (hflag : mask &&& flag = flag) :
    modes &&& flag = k &&& flag := by
  rw [← h, UInt16.and_assoc, hflag]

/-- The flags of the second and the third step -/
abbrev restFlags : UInt16 := CU_RLECompressed ||| CU_LzCompressed ||| CU_ZlibCompressed

lemma decompressLibrary_congr {k : UInt16} (hlz : modes &&& CU_LzCompressed = k &&& CU_LzCompressed)
    (hzlib : modes &&& CU_ZlibCompressed = k &&& CU_ZlibCompressed) (outSz : Nat) :
    IntegerCoder.decompressLibrary lib modes buf outSz = IntegerCoder.decompressLibrary lib k buf outSz := by
  rw [IntegerCoder.decompressLibrary, hlz, hzlib]
  rfl

lemma decompressRle_congr {k : UInt16} (h : modes &&& CU_RLECompressed = k &&& CU_RLECompressed) (valSize : Nat) :
    IntegerCoder.decompressRle modes valSize buf = IntegerCoder.decompressRle k valSize buf := by
  rw [IntegerCoder.decompressRle, h]
  rfl

variable {start : CompressionArg2} {valSize : Nat}

lemma rleStep_spec (adoptRle : Bool) (hpos : 0 < start.buf.length) (hint : start.buf.length < 2 ^ 31)
    (hmul : start.buf.length % valSize = 0) {mid : CompressionArg2}
    (hmid : mid = if adoptRle then start.record CU_RLECompressed (applyRle valSize start.buf) else start) :
    ∃ k ∈ [0, CU_RLECompressed], mid.modes = start.modes ||| k ∧ 0 < mid.buf.length ∧
      mid.buf.length ≤ start.buf.length ∧ (k ≠ 0 → mid.buf.length < start.buf.length) ∧
      IntegerCoder.decompressRle k valSize mid.buf = some start.buf := by
  have hkeep : ∃ k ∈ [0, CU_RLECompressed], start.modes = start.modes ||| k ∧ 0 < start.buf.length ∧
      start.buf.length ≤ start.buf.length ∧ (k ≠ 0 → start.buf.length < start.buf.length) ∧
      IntegerCoder.decompressRle k valSize start.buf = some start.buf :=
    ⟨0, by simp, by simp, hpos, le_rfl, fun h => absurd rfl h, rfl⟩
  cases adoptRle with
  | false =>
    subst hmid
    exact hkeep
  | true =>
    cases hrle : applyRle valSize start.buf with
    | none =>
      rw [hrle] at hmid
      subst hmid
      exact hkeep
    | some out =>
      rw [hrle] at hmid
      subst hmid
      obtain ⟨hout, hlt, rle, hcoder, hback⟩ := applyRle_spec hpos hint hmul hrle
      refine ⟨CU_RLECompressed, by simp, rfl, hout, hlt.le, fun _ => hlt, ?_⟩
      rw [IntegerCoder.decompressRle, if_pos (by decide), hcoder]
      exact Option.bind_eq_some_iff.mpr ⟨rle, rfl, Option.bind_eq_some_iff.mpr ⟨_, hback, rfl⟩⟩

lemma libraryStep_spec (hlib : lib.Lossless) {mid : CompressionArg2} (hpos : 0 < mid.buf.length)
    (hint : mid.buf.length < 2 ^ 31) {out : CompressionArg2}
    (hout : out = mid.record (libraryFlag (heaprelGetCompressionFromModes modes)) (applyLibrary lib modes mid.buf)) :
    ∃ k ∈ [0, CU_LzCompressed, CU_ZlibCompressed], out.modes = mid.modes ||| k ∧ 0 < out.buf.length ∧
      out.buf.length ≤ mid.buf.length ∧ (k ≠ 0 → out.buf.length < mid.buf.length) ∧
      ∀ outSz, mid.buf.length ≤ outSz → IntegerCoder.decompressLibrary lib k out.buf outSz = some mid.buf := by
  cases hres : applyLibrary lib modes mid.buf with
  | none =>
    rw [hres] at hout
    subst hout
    exact ⟨0, by simp, UInt16.or_zero.symm, hpos, le_rfl, fun h => absurd rfl h, fun _ _ => rfl⟩
  | some dst =>
    rw [hres] at hout
    subst hout
    obtain ⟨hdst, hlt, ⟨hflag, hback⟩ | ⟨hflag, hback⟩⟩ := applyLibrary_spec hlib hint hres
    · refine ⟨CU_LzCompressed, by simp, by rw [hflag]; rfl, hdst, hlt.le, fun _ => hlt, fun outSz _ => ?_⟩
      exact hback
    · refine ⟨CU_ZlibCompressed, by simp, by rw [hflag]; rfl, hdst, hlt.le, fun _ => hlt, fun outSz houtSz => ?_⟩
      exact hback outSz houtSz

/-- The flags that the second and the third step add -/
def restModes : List UInt16 :=
  [0, CU_RLECompressed, CU_LzCompressed, CU_ZlibCompressed, CU_RLECompressed ||| CU_LzCompressed,
    CU_RLECompressed ||| CU_ZlibCompressed]

lemma restModes_or : ∀ k₁ ∈ [0, CU_RLECompressed], ∀ k₂ ∈ [0, CU_LzCompressed, CU_ZlibCompressed],
    k₁ ||| k₂ ∈ restModes ∧ (k₁ ||| k₂) &&& restFlags = k₁ ||| k₂ ∧
      (k₁ ||| k₂) &&& CU_RLECompressed = k₁ &&& CU_RLECompressed ∧
      (k₁ ||| k₂) &&& CU_LzCompressed = k₂ &&& CU_LzCompressed ∧
      (k₁ ||| k₂) &&& CU_ZlibCompressed = k₂ &&& CU_ZlibCompressed := by
  intro k₁ h₁ k₂ h₂
  simp only [List.mem_cons, List.not_mem_nil, or_false] at h₁ h₂
  rcases h₁ with rfl | rfl <;> rcases h₂ with rfl | rfl | rfl <;>
    exact ⟨by simp [restModes], by decide, by decide, by decide, by decide⟩

/-- What the second and the third step leave has the decoder get back to where they started. -/
lemma compressRest_spec (hlib : lib.Lossless) (c : IntegerCoder) (hpos : 0 < start.buf.length)
    (hint : start.buf.length < 2 ^ 31) (hmul : start.buf.length % valSize = 0) (hstart : start.modes &&& restFlags = 0)
    {out : CompressionArg2} (hout : out = c.compressRest lib modes valSize start) :
    (∃ k ∈ restModes, out.modes = start.modes ||| k ∧ (k ≠ 0 → out.buf.length < start.buf.length)) ∧
      0 < out.buf.length ∧ out.buf.length ≤ start.buf.length ∧
      ∀ outSz, start.buf.length ≤ outSz → ∀ modes', modes' &&& restFlags = out.modes &&& restFlags →
        (IntegerCoder.decompressLibrary lib modes' out.buf outSz).bind (IntegerCoder.decompressRle modes' valSize) =
          some start.buf := by
  unfold IntegerCoder.compressRest at hout
  generalize hmid : (if c.adoptRle then start.record CU_RLECompressed (applyRle valSize start.buf) else start) =
    mid at hout
  obtain ⟨k₁, hk₁, hmodes₁, hpos₁, hle₁, hlt₁, hback₁⟩ := rleStep_spec c.adoptRle hpos hint hmul hmid.symm
  obtain ⟨k₂, hk₂, hmodes₂, hpos₂, hle₂, hlt₂, hback₂⟩ := libraryStep_spec hlib hpos₁ (by omega) hout
  have hsum : out.modes = start.modes ||| (k₁ ||| k₂) := by rw [hmodes₂, hmodes₁, UInt16.or_assoc]
  have hk := restModes_or k₁ hk₁ k₂ hk₂
  refine ⟨⟨_, hk.1, hsum, fun hne => ?_⟩, hpos₂, hle₂.trans hle₁, fun outSz houtSz modes' hmodes' => ?_⟩
  · rcases eq_or_ne k₁ 0 with rfl | h₁
    · rcases eq_or_ne k₂ 0 with rfl | h₂
      · exact absurd rfl hne
      · have := hlt₂ h₂
        omega
    · have := hlt₁ h₁
      omega
  · rw [hsum, or_and_flag, hstart, UInt16.zero_or, hk.2.1] at hmodes'
    rw [decompressLibrary_congr (k := k₂) ((and_flag_of_and_mask hmodes' _ (by decide)).trans hk.2.2.2.1)
      ((and_flag_of_and_mask hmodes' _ (by decide)).trans hk.2.2.2.2), hback₂ outSz (by omega), Option.bind_some,
      decompressRle_congr ((and_flag_of_and_mask hmodes' _ (by decide)).trans hk.2.2.1)]
    exact hback₁

end stages

/-! ## Bounds -/

/-- What a debug build checks of the bounds: they are values, and all values are between them. -/
structure CheckMinMaxValue {w : Nat} (vals : List (BitVec w)) (min max : BitVec 64) : Prop where
  minFound : ∃ v ∈ vals, v.signExtend 64 = min
  maxFound : ∃ v ∈ vals, v.signExtend 64 = max
  within : ∀ v ∈ vals, min.toInt ≤ v.toInt ∧ v.toInt ≤ max.toInt

/-- Bounds that can be stored in the width of the values -/
structure Bounds {w : Nat} (vals : List (BitVec w)) (min max : BitVec 64) : Prop where
  minFits : ∃ v : BitVec w, v.signExtend 64 = min
  maxFits : ∃ v : BitVec w, v.signExtend 64 = max
  within : ∀ v ∈ vals, min.toInt ≤ v.toInt ∧ v.toInt ≤ max.toInt

lemma CheckMinMaxValue.bounds {w : Nat} {vals : List (BitVec w)} {min max : BitVec 64}
    (h : CheckMinMaxValue vals min max) : Bounds vals min max where
  minFits := h.minFound.imp fun _ hv => hv.2
  maxFits := h.maxFound.imp fun _ hv => hv.2
  within := h.within

/-- The loop of `ComputeMinMaxVal` keeps two of the values read that have all of them between them. -/
lemma minMaxLoop_spec {w : Nat} (vals : List (BitVec w)) (r : BitVec w × BitVec w) (hr : r.1.toInt ≤ r.2.toInt) :
    let r' := vals.foldl (fun r x => if x.slt r.1 then (x, r.2) else if r.2.slt x then (r.1, x) else r) r
    (r'.1 = r.1 ∨ r'.1 ∈ vals) ∧ (r'.2 = r.2 ∨ r'.2 ∈ vals) ∧ r'.1.toInt ≤ r.1.toInt ∧ r.2.toInt ≤ r'.2.toInt ∧
      ∀ v ∈ vals, r'.1.toInt ≤ v.toInt ∧ v.toInt ≤ r'.2.toInt := by
  induction vals generalizing r with
  | nil => exact ⟨.inl rfl, .inl rfl, le_rfl, le_rfl, nofun⟩
  | cons x vals ih =>
    -- one value more
    have hstep : ∀ s : BitVec w × BitVec w, s.1.toInt ≤ s.2.toInt → (s.1 = r.1 ∨ s.1 = x) → (s.2 = r.2 ∨ s.2 = x) →
        s.1.toInt ≤ r.1.toInt → r.2.toInt ≤ s.2.toInt → s.1.toInt ≤ x.toInt → x.toInt ≤ s.2.toInt →
        let r' := vals.foldl (fun r x => if x.slt r.1 then (x, r.2) else if r.2.slt x then (r.1, x) else r) s
        (r'.1 = r.1 ∨ r'.1 ∈ x :: vals) ∧ (r'.2 = r.2 ∨ r'.2 ∈ x :: vals) ∧ r'.1.toInt ≤ r.1.toInt ∧
          r.2.toInt ≤ r'.2.toInt ∧ ∀ v ∈ x :: vals, r'.1.toInt ≤ v.toInt ∧ v.toInt ≤ r'.2.toInt := by
      intro s hs hs₁ hs₂ hle₁ hle₂ hx₁ hx₂
      obtain ⟨h₁, h₂, hb₁, hb₂, hall⟩ := ih s hs
      refine ⟨?_, ?_, hb₁.trans hle₁, hle₂.trans hb₂, ?_⟩
      · rcases h₁ with h | h
        · rw [h]
          exact hs₁.imp_right fun heq => List.mem_cons.mpr (.inl heq)
        · exact .inr (List.mem_cons_of_mem x h)
      · rcases h₂ with h | h
        · rw [h]
          exact hs₂.imp_right fun heq => List.mem_cons.mpr (.inl heq)
        · exact .inr (List.mem_cons_of_mem x h)
      · intro v hv
        rcases List.mem_cons.mp hv with rfl | hv
        · exact ⟨hb₁.trans hx₁, hx₂.trans hb₂⟩
        · exact hall v hv
    rw [List.foldl_cons]
    by_cases hlow : x.slt r.1
    · rw [if_pos hlow]
      have hlt := BitVec.slt_iff_toInt_lt.mp hlow
      exact hstep (x, r.2) (hlt.le.trans hr) (.inr rfl) (.inl rfl) hlt.le le_rfl le_rfl (hlt.le.trans hr)
    · rw [if_neg hlow]
      have hge : r.1.toInt ≤ x.toInt := not_lt.mp fun h => hlow (BitVec.slt_iff_toInt_lt.mpr h)
      by_cases hhigh : r.2.slt x
      · rw [if_pos hhigh]
        have hlt := BitVec.slt_iff_toInt_lt.mp hhigh
        exact hstep (r.1, x) (hr.trans hlt.le) (.inl rfl) (.inr rfl) le_rfl hlt.le hge le_rfl
      · rw [if_neg hhigh]
        have hle : x.toInt ≤ r.2.toInt := not_lt.mp fun h => hhigh (BitVec.slt_iff_toInt_lt.mpr h)
        exact hstep r hr (.inl rfl) (.inl rfl) le_rfl le_rfl hge hle

lemma computeMinMaxVal_spec {w : Nat} (hw : w ≤ 64) {vals : List (BitVec w)} (hne : vals ≠ []) :
    CheckMinMaxValue vals (computeMinMaxVal vals).1 (computeMinMaxVal vals).2 := by
  cases vals with
  | nil => exact absurd rfl hne
  | cons v vals =>
    obtain ⟨h₁, h₂, hb₁, hb₂, hall⟩ := minMaxLoop_spec vals (v, v) le_rfl
    rw [computeMinMaxVal]
    refine ⟨⟨_, List.mem_cons.mpr h₁, rfl⟩, ⟨_, List.mem_cons.mpr h₂, rfl⟩, fun x hx => ?_⟩
    rw [BitVec.toInt_signExtend_of_le hw, BitVec.toInt_signExtend_of_le hw]
    rcases List.mem_cons.mp hx with rfl | hx
    · exact ⟨hb₁, hb₂⟩
    · exact hall x hx

/-! ## Round trip -/

section roundTrip

variable {lib} {c : IntegerCoder} {inBuf : List UInt8} {size : Nat}

lemma intValues_length (buf : List UInt8) : (intValues size buf).length = buf.length / size := by
  rw [intValues, List.length_map, wordsLE_length]

lemma packedValues_intValues (hsize : 0 < size) (hmul : inBuf.length % size = 0) :
    packedValues size (intValues size inBuf) = inBuf := by
  have hback : (intValues size inBuf).map BitVec.toNat = wordsLE size inBuf := by
    rw [intValues, List.map_map]
    refine (List.map_congr_left fun v hv => ?_).trans (List.map_id _)
    rw [Function.comp_apply, BitVec.toNat_ofNat, id_eq, Nat.pow_mul]
    exact Nat.mod_eq_of_lt (wordsLE_lt hv)
  rw [packedValues, hback, List.flatMap_def, flatten_wordsLE hsize hmul]

/-- A bound that fits is read back from the bytes it was written to. -/
lemma convertToInt64Data_convertTo {min : BitVec 64} (hsize : size = 1 ∨ size = 2 ∨ size = 4 ∨ size = 8)
    (hfits : ∃ v : BitVec (8 * size), v.signExtend 64 = min) (rest : List UInt8) :
    convertToInt64Data (int64DataConvertTo min size ++ rest) size = min := by
  obtain ⟨v, rfl⟩ := hfits
  rw [convertToInt64Data, if_pos hsize, int64DataConvertTo, List.take_left' (toLE_length _ _), ofLE_toLE]
  refine congrArg (BitVec.signExtend 64) (BitVec.eq_of_toNat_eq ?_)
  have hpow : 256 ^ size = 2 ^ (8 * size) := (Nat.pow_mul 2 8 size).symm
  rw [BitVec.toNat_ofNat, hpow, Nat.mod_mod]
  have hlow : (v.signExtend 64).setWidth (8 * size) = v := by
    apply BitVec.eq_of_getElem_eq
    intro i hi
    have h64 : i < 64 := by omega
    rw [BitVec.getElem_setWidth, BitVec.getLsbD_signExtend]
    simp [h64, hi]
  rw [← BitVec.toNat_setWidth, hlow]

lemma Bounds.le {w : Nat} {vals : List (BitVec w)} {min max : BitVec 64} (h : Bounds vals min max) (hne : vals ≠ []) :
    min.toInt ≤ max.toInt := by
  obtain ⟨v, hv⟩ := List.exists_mem_of_ne_nil vals hne
  exact (h.within v hv).1.trans (h.within v hv).2

lemma applyDelta_spec (hsize : c.eachValSize ≤ 8) (hpos : 0 < inBuf.length)
    (hint : inBuf.length + c.eachValSize < 2 ^ 31) (hmul : inBuf.length % c.eachValSize = 0)
    (hbounds : c.deltaBytes < c.eachValSize → Bounds (intValues c.eachValSize inBuf) c.minVal c.maxVal)
    {out : List UInt8} (h : c.applyDelta inBuf = some out) :
    0 < out.length ∧ c.deltaBytes < c.eachValSize ∧ out.length % c.deltaBytes = 0 ∧
      out.length + c.eachValSize * 2 < inBuf.length ∧
      (DeltaCoder.decompressing c.minVal c.eachValSize).decompress out out.length c.deltaBytes = inBuf := by
  obtain ⟨hlt, h⟩ := Option.ite_none_right_eq_some.mp h
  obtain ⟨hshort, hout⟩ := Option.ite_none_right_eq_some.mp h
  obtain rfl := Option.some_inj.mp hout
  have hb := hbounds hlt
  have hsizePos : 0 < c.eachValSize := by omega
  have hcount : (intValues c.eachValSize inBuf).length * c.eachValSize = inBuf.length := by
    rw [intValues_length, Nat.div_mul_cancel (Nat.dvd_of_mod_eq_zero hmul)]
  have hne : intValues c.eachValSize inBuf ≠ [] := by
    rw [← List.length_pos_iff]
    exact Nat.pos_of_ne_zero fun h0 => by rw [h0] at hcount; omega
  have h1 : 1 ≤ c.deltaBytes := (deltaGetBytesNum_isLeast (hb.le hne)).1.1
  have hint' : ((intValues c.eachValSize inBuf).length + 1) * c.eachValSize < 2 ^ 31 := by
    rw [Nat.succ_mul, hcount]
    exact hint
  have hroom : c.deltaBytes * (intValues c.eachValSize inBuf).length ≤ inBuf.length := by
    rw [← hcount, Nat.mul_comm]
    exact Nat.mul_le_mul_left _ hlt.le
  have hbuf := packedValues_intValues hsizePos hmul
  have h7 : deltaGetBytesNum c.minVal c.maxVal ≤ 7 := Nat.le_of_lt_succ (lt_of_lt_of_le hlt hsize)
  have hcmpr := delta_compress_eq h1 h7 (by omega) hsize hne hint' hroom
  have hlen : ((DeltaCoder.compressing c.minVal c.maxVal).compress inBuf inBuf.length inBuf.length
      c.eachValSize).length = (intValues c.eachValSize inBuf).length * c.deltaBytes := by
    rw [hbuf, hcount] at hcmpr
    rw [hcmpr, List.length_flatMap, List.map_congr_left fun v _ => toLE_length _ v, List.map_const', List.sum_replicate,
      List.length_map, smul_eq_mul, IntegerCoder.deltaBytes]
  have hback := delta_decompress_compress (hb.le hne) (by omega) hsize h7 hb.within hne hint'
    (lt_of_le_of_lt (Nat.mul_le_mul_left _ hlt.le) hint') hroom
  rw [hbuf, hcount] at hback
  refine ⟨?_, hlt, ?_, hshort, ?_⟩
  · rw [hlen]
    exact Nat.mul_pos (List.length_pos_iff.mpr hne) h1
  · rw [hlen]
    exact Nat.mul_mod_left _ _
  · rw [hlen]
    exact hback

/-- The flags that the integer coder reads -/
abbrev coderFlags : UInt16 := CU_DeltaCompressed ||| restFlags

lemma deltaOr_flags : ∀ d ∈ [0, CU_DeltaCompressed], ∀ k ∈ restModes,
    (d ||| k) &&& CU_DeltaCompressed = d ∧ d &&& restFlags = 0 := by
  intro d hd k hk
  simp only [restModes, List.mem_cons, List.not_mem_nil, or_false] at hd hk
  rcases hd with rfl | rfl <;> rcases hk with rfl | rfl | rfl | rfl | rfl | rfl <;> exact ⟨by decide, by decide⟩

/-- The steps without the delta coder -/
lemma compressInner_plain (hlib : lib.Lossless) (hpos : 0 < inBuf.length) (hint : inBuf.length < 2 ^ 31)
    (hmul : inBuf.length % c.eachValSize = 0) (hbytes : c.deltaBytes ≤ c.eachValSize) (modes : UInt16)
    (hdelta : c.applyDelta inBuf = none) {rest : CompressionArg2} (hrest : rest = c.compressInner lib inBuf modes) :
    rest.modes ∈ restModes ∧ 0 < rest.buf.length ∧ (rest.modes ≠ 0 → rest.buf.length < inBuf.length) ∧
      ∀ outSz, inBuf.length ≤ outSz → ∀ modes', modes' &&& restFlags = rest.modes &&& restFlags →
        (IntegerCoder.decompressLibrary lib modes' rest.buf outSz).bind
          (IntegerCoder.decompressRle modes' c.eachValSize) = some inBuf := by
  have hval : c.outValSize inBuf = c.eachValSize := by
    rw [IntegerCoder.outValSize]
    split
    case isTrue => rfl
    case isFalse hnot => exact le_antisymm hbytes (not_lt.mp fun hlt => hnot ⟨hlt, hdelta⟩)
  rw [IntegerCoder.compressInner, hdelta, hval, CompressionArg2.record] at hrest
  obtain ⟨⟨k, hk, hmodes, hlt⟩, hpos', -, hback⟩ := compressRest_spec hlib c hpos hint hmul UInt16.zero_and hrest
  rw [UInt16.zero_or] at hmodes
  exact ⟨hmodes.symm ▸ hk, hpos', fun hne => hlt (hmodes ▸ hne), hback⟩

/-- The steps after the delta coder -/
lemma compressInner_delta (hlib : lib.Lossless) (hsize : c.eachValSize ≤ 8) (hpos : 0 < inBuf.length)
    (hint : inBuf.length + c.eachValSize < 2 ^ 31) (hmul : inBuf.length % c.eachValSize = 0)
    (hbounds : c.deltaBytes < c.eachValSize → Bounds (intValues c.eachValSize inBuf) c.minVal c.maxVal)
    (modes : UInt16) {d : List UInt8} (hdelta : c.applyDelta inBuf = some d) {rest : CompressionArg2}
    (hrest : rest = c.compressInner lib inBuf modes) :
    (∃ k ∈ restModes, rest.modes = CU_DeltaCompressed ||| k) ∧ rest.buf.length + c.eachValSize * 2 < inBuf.length ∧
      ∀ outSz, inBuf.length ≤ outSz → ∀ modes', modes' &&& restFlags = rest.modes &&& restFlags →
        (IntegerCoder.decompressLibrary lib modes' rest.buf outSz).bind
          (IntegerCoder.decompressRle modes' c.deltaBytes) = some d := by
  obtain ⟨hdpos, -, hdmul, hshort, -⟩ := applyDelta_spec hsize hpos hint hmul hbounds hdelta
  have hval : c.outValSize inBuf = c.deltaBytes := by
    rw [IntegerCoder.outValSize]
    split
    case isTrue h => exact absurd (hdelta.symm.trans h.2) (Option.some_ne_none d)
    case isFalse => rfl
  rw [IntegerCoder.compressInner, hdelta, hval, CompressionArg2.record, UInt16.zero_or] at hrest
  have hdint : d.length < 2 ^ 31 := by omega
  obtain ⟨⟨k, hk, hmodes, -⟩, -, hle, hback⟩ := compressRest_spec hlib c hdpos hdint hdmul
    (show CU_DeltaCompressed &&& restFlags = 0 by decide) hrest
  refine ⟨⟨k, hk, hmodes⟩, lt_of_le_of_lt (Nat.add_le_add_right hle _) hshort, fun outSz houtSz => hback outSz ?_⟩
  exact le_trans (by simp only; omega) houtSz

lemma insertMinMaxVal_length (buf : List UInt8) :
    (c.insertMinMaxVal buf).length = buf.length + c.eachValSize * 2 := by
  simp only [IntegerCoder.insertMinMaxVal, int64DataConvertTo, List.length_append, toLE_length]
  omega

/-- `Decompress` reads the bounds in front of the data. -/
lemma decompress_insertMinMaxVal (hsize : c.eachValSize = 1 ∨ c.eachValSize = 2 ∨ c.eachValSize = 4 ∨ c.eachValSize = 8)
    (hb : Bounds (intValues c.eachValSize inBuf) c.minVal c.maxVal) {modes : UInt16}
    (hmodes : modes &&& CU_DeltaCompressed ≠ 0) {buf d : List UInt8} {outSz : Nat}
    (hd : (IntegerCoder.decompressLibrary lib modes buf outSz).bind
      (IntegerCoder.decompressRle modes c.deltaBytes) = some d) :
    (IntegerCoder.new c.eachValSize).decompress lib ⟨c.insertMinMaxVal buf, modes⟩ outSz =
      some ((DeltaCoder.decompressing c.minVal c.eachValSize).decompress d d.length c.deltaBytes) := by
  have hmin : convertToInt64Data (c.insertMinMaxVal buf) c.eachValSize = c.minVal := by
    rw [IntegerCoder.insertMinMaxVal, List.append_assoc]
    exact convertToInt64Data_convertTo hsize hb.minFits _
  have hmax : convertToInt64Data ((c.insertMinMaxVal buf).drop c.eachValSize) c.eachValSize = c.maxVal := by
    rw [IntegerCoder.insertMinMaxVal, List.append_assoc, int64DataConvertTo, List.drop_left' (toLE_length _ _)]
    exact convertToInt64Data_convertTo hsize hb.maxFits _
  have hdata : (c.insertMinMaxVal buf).drop (c.eachValSize * 2) = buf := by
    rw [IntegerCoder.insertMinMaxVal, int64DataConvertTo, int64DataConvertTo]
    exact List.drop_left' (by rw [List.length_append, toLE_length, toLE_length, Nat.mul_two])
  rw [IntegerCoder.decompress, if_pos hmodes]
  simp only [IntegerCoder.new, hmin, hmax, hdata]
  obtain ⟨next, hnext, hd⟩ := Option.bind_eq_some_iff.mp hd
  exact Option.bind_eq_some_iff.mpr ⟨next, hnext, Option.bind_eq_some_iff.mpr ⟨d, hd, rfl⟩⟩

/-- What `Compress` writes is shorter than its input, has flags of its own only, and is decompressed to the input by a
coder of that size of a value, whatever other flags are set. -/
lemma decompress_compress (hlib : lib.Lossless) {modes : UInt16}
    (hsize : c.eachValSize = 1 ∨ c.eachValSize = 2 ∨ c.eachValSize = 4 ∨ c.eachValSize = 8) (hpos : 0 < inBuf.length)
    (hint : inBuf.length + c.eachValSize < 2 ^ 31) (hmul : inBuf.length % c.eachValSize = 0)
    (hbytes : (c.withMinMaxVal inBuf).deltaBytes ≤ c.eachValSize)
    (hbounds : (c.withMinMaxVal inBuf).deltaBytes < c.eachValSize →
      Bounds (intValues c.eachValSize inBuf) (c.withMinMaxVal inBuf).minVal (c.withMinMaxVal inBuf).maxVal)
    {out : CompressionArg2} (hout : c.compress lib inBuf modes = some out) :
    0 < out.buf.length ∧ out.buf.length < inBuf.length ∧ out.modes ≠ 0 ∧
      (∃ d ∈ [0, CU_DeltaCompressed], ∃ k ∈ restModes, out.modes = d ||| k) ∧
      ∀ outSz, inBuf.length ≤ outSz → ∀ modes' : UInt16, modes' &&& coderFlags = out.modes &&& coderFlags →
        (IntegerCoder.new c.eachValSize).decompress lib ⟨out.buf, modes'⟩ outSz = some inBuf := by
  have hsame : (c.withMinMaxVal inBuf).eachValSize = c.eachValSize := by
    unfold IntegerCoder.withMinMaxVal
    split
    · rfl
    · rfl
  rw [IntegerCoder.compress] at hout
  generalize c.withMinMaxVal inBuf = c' at hsame hbytes hbounds hout
  rw [← hsame] at hsize hint hmul hbytes hbounds ⊢
  generalize hrest : c'.compressInner lib inBuf modes = rest at hout
  obtain ⟨hmodes, hout⟩ := Option.ite_none_right_eq_some.mp hout
  obtain rfl := Option.some_inj.mp hout
  dsimp only
  -- the flags that a decoder tests
  have hagree : ∀ modes' : UInt16, modes' &&& coderFlags = rest.modes &&& coderFlags →
      modes' &&& CU_DeltaCompressed = rest.modes &&& CU_DeltaCompressed ∧
        modes' &&& restFlags = rest.modes &&& restFlags := fun modes' h =>
    ⟨(and_flag_of_and_mask h _ (by decide)).trans (and_flag_of_and_mask rfl _ (by decide)).symm,
      (and_flag_of_and_mask h _ (by decide)).trans (and_flag_of_and_mask rfl _ (by decide)).symm⟩
  cases hdelta : c'.applyDelta inBuf with
  | none =>
    obtain ⟨hk, hpos', hlt, hback⟩ := compressInner_plain hlib hpos (by omega) hmul hbytes modes hdelta hrest.symm
    have hflag := (deltaOr_flags 0 (by simp) _ hk).1
    rw [UInt16.zero_or] at hflag
    rw [if_neg (not_not.mpr hflag)]
    refine ⟨hpos', hlt hmodes, hmodes, ⟨0, by simp, rest.modes, hk, UInt16.zero_or.symm⟩,
      fun outSz houtSz modes' hmodes' => ?_⟩
    obtain ⟨hd, hr⟩ := hagree modes' hmodes'
    rw [IntegerCoder.decompress, if_neg (not_not.mpr (hd.trans hflag))]
    exact hback outSz houtSz modes' hr
  | some d =>
    obtain ⟨⟨k, hk, hkeep⟩, hshort, hback⟩ := compressInner_delta hlib (by omega) hpos hint hmul hbounds modes hdelta
      hrest.symm
    obtain ⟨-, hless, -, -, hrestore⟩ := applyDelta_spec (by omega) hpos hint hmul hbounds hdelta
    have hflag : rest.modes &&& CU_DeltaCompressed ≠ 0 := by
      rw [hkeep, (deltaOr_flags _ (by simp) k hk).1]
      decide
    rw [if_pos hflag, insertMinMaxVal_length]
    refine ⟨by omega, hshort, hmodes, ⟨_, by simp, k, hk, hkeep⟩, fun outSz houtSz modes' hmodes' => ?_⟩
    obtain ⟨hd, hr⟩ := hagree modes' hmodes'
    rw [decompress_insertMinMaxVal hsize (hbounds hless) (hd.symm ▸ hflag) (hback outSz houtSz modes' hr),
      hrestore]

lemma Bounds.deltaBytes_le {min max : BitVec 64} {vals : List (BitVec (8 * size))} (hsize : 1 ≤ size) (h8 : size ≤ 8)
    (h : Bounds vals min max) (hne : vals ≠ []) : deltaGetBytesNum min max ≤ size := by
  apply (deltaGetBytesNum_isLeast (h.le hne)).2
  refine ⟨hsize, ?_⟩
  obtain ⟨u, rfl⟩ := h.minFits
  obtain ⟨v, rfl⟩ := h.maxFits
  have hw : 8 * size ≤ 64 := by omega
  rw [BitVec.toInt_signExtend_of_le hw, BitVec.toInt_signExtend_of_le hw]
  have hu := BitVec.le_two_mul_toInt (x := u)
  have hv := BitVec.two_mul_toInt_lt (x := v)
  have hpow : (256 : Int) ^ size = 2 ^ (8 * size) := by
    rw [pow_mul]
    norm_num
  rw [hpow]
  have hcast : ((2 ^ (8 * size) : Nat) : Int) = 2 ^ (8 * size) := by norm_cast
  omega

/-- What `IntegerCoder::Compress` writes for values of one, two, four or eight bytes is shorter than they are, and
`IntegerCoder::Decompress` restores them, whichever of delta, run lengths, LZ4 and zlib were kept. -/
theorem integerCoder_round_trip (hlib : lib.Lossless)
    (hsize : c.eachValSize = 1 ∨ c.eachValSize = 2 ∨ c.eachValSize = 4 ∨ c.eachValSize = 8) (hpos : 0 < inBuf.length)
    (hint : inBuf.length + c.eachValSize < 2 ^ 31) (hmul : inBuf.length % c.eachValSize = 0)
    (hset : c.isValid = true → CheckMinMaxValue (intValues c.eachValSize inBuf) c.minVal c.maxVal) {modes : UInt16}
    {out : CompressionArg2} (hout : c.compress lib inBuf modes = some out) :
    out.buf.length < inBuf.length ∧ (IntegerCoder.new c.eachValSize).decompress lib out inBuf.length = some inBuf := by
  have hcount : (intValues c.eachValSize inBuf).length * c.eachValSize = inBuf.length := by
    rw [intValues_length, Nat.div_mul_cancel (Nat.dvd_of_mod_eq_zero hmul)]
  have hne : intValues c.eachValSize inBuf ≠ [] := fun hnil => by
    rw [hnil, List.length_nil, Nat.zero_mul] at hcount
    omega
  have hcheck : CheckMinMaxValue (intValues c.eachValSize inBuf) (c.withMinMaxVal inBuf).minVal
      (c.withMinMaxVal inBuf).maxVal := by
    unfold IntegerCoder.withMinMaxVal
    split
    case isTrue hvalid => exact hset hvalid
    case isFalse => exact computeMinMaxVal_spec (by omega) hne
  obtain ⟨-, hlt, -, -, hback⟩ := decompress_compress hlib hsize hpos hint hmul
    (hcheck.bounds.deltaBytes_le (by omega) (by omega) hne) (fun _ => hcheck.bounds) hout
  exact ⟨hlt, hback _ le_rfl out.modes rfl⟩

/-- Libraries that leave out the zeros at the end -/
def CompressLibrary.trimmed : CompressLibrary where
  lz4CompressDefault source := source.rdropWhile (· = 0)
  lz4CompressHC source _ := source.rdropWhile (· = 0)
  lz4DecompressSafe source destSize := some (source ++ List.replicate (destSize - source.length) 0)
  deflate _ source :=
    if source.length < 2 ^ 32 then some (toLE 4 source.length ++ source.rdropWhile (· = 0)) else none
  inflate source _ := some (source.drop 4 ++ List.replicate (ofLE (source.take 4) - (source.drop 4).length) 0)

/-- The zeros are filled in up to the length. -/
lemma rdropWhile_pad (source : List UInt8) : source.rdropWhile (· = 0) ++
    List.replicate (source.length - (source.rdropWhile (· = 0)).length) 0 = source := by
  have hzeros : source.rtakeWhile (· = 0) = List.replicate (source.rtakeWhile (· = 0)).length 0 :=
    List.eq_replicate_of_mem fun b hb => by simpa using List.mem_rtakeWhile_imp hb
  have happend : source.rdropWhile (· = 0) ++ source.rtakeWhile (· = 0) = source := List.rdropWhile_append_rtakeWhile
  have hlength : source.length - (source.rdropWhile (· = 0)).length = (source.rtakeWhile (· = 0)).length := by
    have := congrArg List.length happend
    rw [List.length_append] at this
    omega
  rw [hlength, ← hzeros, happend]

lemma CompressLibrary.trimmed_lossless : CompressLibrary.trimmed.Lossless where
  lz4Default source _ := congrArg some (rdropWhile_pad source)
  lz4HC source _ _ := congrArg some (rdropWhile_pad source)
  zlib level source out hout outsize _ := by
    simp only [CompressLibrary.trimmed] at hout ⊢
    split at hout
    case isTrue hlen =>
      cases hout
      rw [List.drop_left' (toLE_length _ _), List.take_left' (toLE_length _ _), ofLE_toLE_of_lt hlen, rdropWhile_pad]
    case isFalse => cases hout

/-- Numbers of four bytes that begin with another one -/
def sampleInts : List UInt8 := packedValues 4 (7 :: List.replicate 30 (-3))

/-- The differences as runs, and without runs by LZ4 -/
theorem integerCoder_round_trip_ints :
    (∃ out, (IntegerCoder.new 4).compress .trimmed sampleInts 1 = some out ∧
      out.modes = CU_DeltaCompressed ||| CU_RLECompressed ∧ out.buf.length < sampleInts.length ∧
        (IntegerCoder.new 4).decompress .trimmed out sampleInts.length = some sampleInts) ∧
    ∃ out, { IntegerCoder.new 4 with adoptRle := false }.compress .trimmed sampleInts 2 = some out ∧
      out.modes = CU_DeltaCompressed ||| CU_LzCompressed ∧ out.buf.length < sampleInts.length ∧
        (IntegerCoder.new 4).decompress .trimmed out sampleInts.length = some sampleInts := by
  have hruns : ((IntegerCoder.new 4).compress .trimmed sampleInts 1).map CompressionArg2.modes =
    some (CU_DeltaCompressed ||| CU_RLECompressed) := by decide +kernel
  have hlz : ({ IntegerCoder.new 4 with adoptRle := false }.compress .trimmed sampleInts 2).map CompressionArg2.modes =
    some (CU_DeltaCompressed ||| CU_LzCompressed) := by decide +kernel
  obtain ⟨runs, hruns, hrunModes⟩ := Option.map_eq_some_iff.mp hruns
  obtain ⟨lz, hlz, hlzModes⟩ := Option.map_eq_some_iff.mp hlz
  exact ⟨⟨runs, hruns, hrunModes, integerCoder_round_trip CompressLibrary.trimmed_lossless (.inr (.inr (.inl rfl)))
      (by decide +kernel) (by decide +kernel) (by decide +kernel) (fun h => absurd h (by decide)) hruns⟩,
    lz, hlz, hlzModes, integerCoder_round_trip CompressLibrary.trimmed_lossless (.inr (.inr (.inl rfl)))
      (by decide +kernel) (by decide +kernel) (by decide +kernel) (fun h => absurd h (by decide)) hlz⟩

end roundTrip

end GaussKernel.CStore
