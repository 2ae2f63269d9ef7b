import GaussKernel.CStore.Dictionary
import GaussKernel.CStore.IntegerCoder

/-!
# String coder of the column store

Model of `StringCoder` (`cstore_compress.cpp`): values of variable length go through a local dictionary whose codes are
integers for the integer coder, or through one of the two libraries where the dictionary does not pay. The global
dictionary is not implemented by the source and left out here.
-/

namespace GaussKernel.CStore

open Lib

/-! ## Coder -/

structure StringCoder where
  adoptRle : Bool
  adoptDict : Bool

namespace StringCoder

variable (lib : CompressLibrary) (hashAny : List UInt8 → UInt32) (c : StringCoder)

/-- The flag of the library that is used without a dictionary -/
def withoutDictFlag (compression : Nat) : UInt16 :=
  if compression = COMPRESS_HIGH then CU_ZlibCompressed
  else if compression = COMPRESS_MIDDLE ∨ compression = COMPRESS_LOW then CU_LzCompressed
  else 0

/-- What `CompressWithoutDict` has a library write -/
def withoutDictCompress (modes : UInt16) (inBuf : List UInt8) : List UInt8 :=
  let compression := heaprelGetCompressionFromModes modes
  if compression = COMPRESS_HIGH then (lib.deflate (compressLevel modes) inBuf).getD []
  else if compression = COMPRESS_MIDDLE ∨ compression = COMPRESS_LOW then
    LZ4Wrapper.compress lib (compressLevel modes) inBuf
  else []

/-- The bytes of the codes of a dictionary -/
def codesBuf (codes : List Nat) : List UInt8 := codes.flatMap (toLE 2)

/-- The coder of `CompressNumbers` -/
def intCoder (max : Nat) : IntegerCoder :=
  { (IntegerCoder.new 2).setMinMaxVal 0 (BitVec.ofNat 64 max) with adoptRle := c.adoptRle }

/-- `CompressNumbers`; the codes stay as they are if they do not get smaller. -/
def compressNumbers (codes : List Nat) (max : Nat) (modes : UInt16) : CompressionArg2 :=
  ((c.intCoder max).compress lib (codesBuf codes) modes).getD ⟨codesBuf codes, 0⟩

/-- The dictionary and the codes, if they are smaller than the input together -/
def compressDict (inBuf : List UInt8) (numVals : Nat) (modes : UInt16) : Option (Option CompressionArg2) := do
  match ← dicCompress hashAny inBuf numVals 0 with
  | none => return none
  | some (disk, codes) =>
    if 0 < codes.length * 2 ∧ 0 < disk.length ∧ codes.length * 2 + disk.length < inBuf.length then
      let numbers := c.compressNumbers lib codes (ofLE ((disk.drop 4).take 4) - 1) modes
      return some ⟨disk ++ numbers.buf, CU_DicEncode ||| numbers.modes⟩
    else return none

/-- `CompressWithoutDict` into the buffer of the output, which keeps what it has if the data is too long for it; `none`
if the size that is returned is not below that of the input. -/
def compressWithoutDict (inBuf : List UInt8) (modes : UInt16) (outBuf : List UInt8) : Option CompressionArg2 :=
  let cmpr := withoutDictCompress lib modes inBuf
  if 0 < cmpr.length ∧ cmpr.length < inBuf.length then
    if cmpr.length ≤ outBuf.length then some ⟨cmpr, withoutDictFlag (heaprelGetCompressionFromModes modes)⟩
    else some ⟨outBuf.take cmpr.length, 0⟩
  else none

/-- `CompressInner`; the inner `none` is the result 0. -/
def compress (inBuf : List UInt8) (numVals : Nat) (useDict : Bool) (modes : UInt16) (outBuf : List UInt8) :
    Option (Option CompressionArg2) := do
  match ← if useDict ∧ c.adoptDict then c.compressDict lib hashAny inBuf numVals modes else some none with
  | some out => return some out
  | none => return compressWithoutDict lib inBuf modes outBuf

/-- `DecompressWithoutDict`; nothing is written without a flag. -/
def decompressWithoutDict (arg : CompressionArg2) (outSz : Nat) : Option (List UInt8) :=
  if arg.modes &&& CU_ZlibCompressed ≠ 0 then lib.inflate arg.buf outSz
  else if arg.modes &&& CU_LzCompressed ≠ 0 then LZ4Wrapper.decompress lib arg.buf
  else some []

def decompressNumbers (arg : CompressionArg2) (outSz : Nat) : Option (List Nat) := do
  let out ← (IntegerCoder.new 2).decompress lib arg outSz
  return wordsLE 2 out

def decompress (arg : CompressionArg2) (outSz : Nat) : Option (List UInt8) := do
  if arg.modes &&& CU_DicEncode = 0 then decompressWithoutDict lib arg outSz
  else
    let dict ← DicReader.ofDisk arg.buf
    let totalSize := ofLE (arg.buf.take 4)
    let codes ← decompressNumbers lib ⟨arg.buf.drop totalSize, arg.modes⟩ outSz
    let vals ← dict.decompress codes
    return vals.flatten

end StringCoder

/-! ## Without a dictionary -/

section withoutDict

variable {lib : CompressLibrary} {buf : List UInt8} {modes : UInt16}

/-- The flags that the string coder reads -/
abbrev stringFlags : UInt16 := coderFlags ||| CU_DicEncode

/-- What a library leaves is decompressed under its flag. -/
lemma decompressWithoutDict_compress (hlib : lib.Lossless) (hint : buf.length < 2 ^ 31)
    (hne : StringCoder.withoutDictCompress lib modes buf ≠ []) {modes' : UInt16}
    (hmodes' : modes' &&& stringFlags =
      StringCoder.withoutDictFlag (heaprelGetCompressionFromModes modes) &&& stringFlags)
    {outSz : Nat} (houtSz : buf.length ≤ outSz) :
    modes' &&& CU_DicEncode = 0 ∧
      StringCoder.decompressWithoutDict lib ⟨StringCoder.withoutDictCompress lib modes buf, modes'⟩ outSz =
        some buf := by
  have hflag : ∀ flag, stringFlags &&& flag = flag → modes' &&& flag =
      StringCoder.withoutDictFlag (heaprelGetCompressionFromModes modes) &&& flag := fun flag h =>
    (and_flag_of_and_mask hmodes' flag h).trans (and_flag_of_and_mask rfl flag h).symm
  have hdic := hflag CU_DicEncode (by decide)
  have hzlib := hflag CU_ZlibCompressed (by decide)
  have hlz := hflag CU_LzCompressed (by decide)
  unfold StringCoder.withoutDictCompress at hne ⊢
  unfold StringCoder.withoutDictFlag at hdic hzlib hlz
  dsimp only at hne ⊢
  split at hne
  case isTrue hhigh =>
    rw [if_pos hhigh] at hdic hzlib hlz ⊢
    refine ⟨hdic.trans (by decide), ?_⟩
    rw [StringCoder.decompressWithoutDict, if_pos (hzlib.symm ▸ by decide)]
    cases hdef : lib.deflate (compressLevel modes) buf with
    | none =>
      rw [hdef] at hne
      exact absurd rfl hne
    | some dst => exact hlib.zlib _ _ _ hdef _ houtSz
  case isFalse hhigh =>
    rw [if_neg hhigh] at hdic hzlib hlz ⊢
    split at hne
    case isTrue hlow =>
      rw [if_pos hlow] at hdic hzlib hlz ⊢
      refine ⟨hdic.trans (by decide), ?_⟩
      rw [StringCoder.decompressWithoutDict, if_neg (hzlib.symm ▸ by decide), if_pos (hlz.symm ▸ by decide)]
      exact lz4_decompress_compress hlib hint hne
    case isFalse => exact absurd rfl hne

/-- The flag of a library that has written is one that the decoder reads. -/
lemma withoutDictFlag_own (hne : StringCoder.withoutDictCompress lib modes buf ≠ []) :
    StringCoder.withoutDictFlag (heaprelGetCompressionFromModes modes) &&& stringFlags ≠ 0 ∧
      StringCoder.withoutDictFlag (heaprelGetCompressionFromModes modes) &&& ~~~stringFlags = 0 := by
  unfold StringCoder.withoutDictCompress at hne
  unfold StringCoder.withoutDictFlag
  dsimp only at hne
  split at hne
  case isTrue hhigh =>
    rw [if_pos hhigh]
    decide
  case isFalse hhigh =>
    rw [if_neg hhigh]
    split at hne
    case isTrue hlow =>
      rw [if_pos hlow]
      decide
    case isFalse => exact absurd rfl hne

/-- What is kept without a dictionary -/
lemma compressWithoutDict_spec (hlib : lib.Lossless) (hint : buf.length < 2 ^ 31) (modes : UInt16) {outBuf : List UInt8}
    (houtBuf : buf.length ≤ outBuf.length) (out : CompressionArg2)
    (hout : StringCoder.compressWithoutDict lib buf modes outBuf = some out) :
    0 < out.buf.length ∧ out.buf.length < buf.length ∧ out.modes &&& stringFlags ≠ 0 ∧
      out.modes &&& ~~~stringFlags = 0 ∧ ∀ modes' : UInt16, modes' &&& stringFlags = out.modes &&& stringFlags →
        StringCoder.decompress lib ⟨out.buf, modes'⟩ buf.length = some buf := by
  obtain ⟨⟨hpos, hlt⟩, heq⟩ := Option.ite_none_right_eq_some.mp hout
  rw [if_pos (hlt.le.trans houtBuf)] at heq
  obtain rfl := Option.some_inj.mp heq
  obtain ⟨hset, hown⟩ := withoutDictFlag_own (List.length_pos_iff.mp hpos)
  refine ⟨hpos, hlt, hset, hown, fun modes' hmodes' => ?_⟩
  obtain ⟨hdic, hback⟩ := decompressWithoutDict_compress hlib hint (List.length_pos_iff.mp hpos) hmodes' le_rfl
  rw [StringCoder.decompress, if_pos hdic]
  exact hback

end withoutDict

/-! ## The codes -/

section numbers

variable {lib : CompressLibrary} {codes : List Nat} {items : Nat}

lemma codesBuf_length (codes : List Nat) : (StringCoder.codesBuf codes).length = codes.length * 2 := by
  rw [StringCoder.codesBuf, List.length_flatMap, List.map_congr_left fun v _ => toLE_length _ v, List.map_const',
    List.sum_replicate, smul_eq_mul]

lemma wordsLE_codesBuf (h : ∀ code ∈ codes, code < 2 ^ 16) : wordsLE 2 (StringCoder.codesBuf codes) = codes :=
  wordsLE_flatMap (by decide) h

lemma toInt_ofNat_of_lt {w n : Nat} (h : 2 * n < 2 ^ w) : (BitVec.ofNat w n).toInt = n := by
  rw [BitVec.toInt_ofNat']
  apply Int.bmod_eq_of_le_mul_two
  · exact le_trans (neg_nonpos.mpr (Int.natCast_nonneg _)) (by omega)
  · exact_mod_cast (show n * 2 < 2 ^ w by omega)

/-- The last code fits two bytes, and if it takes one byte only then the bounds can be stored in front of the codes. -/
lemma codes_bounds (hne : 0 < items) (hitems : items ≤ 2 ^ 16) (hlt : ∀ code ∈ codes, code < items) :
    deltaGetBytesNum 0 (BitVec.ofNat 64 (items - 1)) ≤ 2 ∧
      (deltaGetBytesNum 0 (BitVec.ofNat 64 (items - 1)) < 2 →
        Bounds (intValues 2 (StringCoder.codesBuf codes)) 0 (BitVec.ofNat 64 (items - 1))) := by
  have hmax : (BitVec.ofNat 64 (items - 1)).toInt = (items - 1 : Nat) := toInt_ofNat_of_lt (by omega)
  have hzero : (0 : BitVec 64).toInt = 0 := rfl
  obtain ⟨⟨-, hbytes⟩, hleast⟩ := deltaGetBytesNum_isLeast
    (show (0 : BitVec 64).toInt ≤ (BitVec.ofNat 64 (items - 1)).toInt by rw [hmax, hzero]; exact Int.natCast_nonneg _)
  rw [hmax, hzero] at hbytes hleast
  refine ⟨hleast ⟨by decide, by omega⟩, fun hone => ?_⟩
  -- the codes are not negative as signed numbers
  have hsmall : items ≤ 256 := by
    have hpow : (256 : Int) ^ deltaGetBytesNum 0 (BitVec.ofNat 64 (items - 1)) ≤ 256 ^ 1 :=
      pow_le_pow_right₀ (by decide) (by omega)
    omega
  refine ⟨⟨0, rfl⟩, ⟨BitVec.ofNat 16 (items - 1), ?_⟩, fun v hv => ?_⟩
  · apply BitVec.eq_of_toInt_eq
    rw [BitVec.toInt_signExtend_of_le (by decide), hmax]
    exact toInt_ofNat_of_lt (by omega)
  · rw [intValues, wordsLE_codesBuf fun code hcode => (hlt code hcode).trans_le hitems] at hv
    obtain ⟨code, hcode, rfl⟩ := List.mem_map.mp hv
    have hcodeLt := hlt code hcode
    have hcodeInt : (BitVec.ofNat (8 * 2) code).toInt = code := toInt_ofNat_of_lt (by omega)
    rw [hcodeInt, hmax, hzero]
    omega

lemma coderModes_own : ∀ d ∈ [0, CU_DeltaCompressed], ∀ k ∈ restModes, (d ||| k) &&& ~~~coderFlags = 0 := by
  intro d hd k hk
  simp only [restModes, List.mem_cons, List.not_mem_nil, or_false] at hd hk
  rcases hd with rfl | rfl <;> rcases hk with rfl | rfl | rfl | rfl | rfl | rfl <;> decide

/-- The codes, compressed or not, take no more room than they do, and are restored under the flags of the numbers. -/
lemma decompressNumbers_compressNumbers (hlib : lib.Lossless) (c : StringCoder) (hcodes : codes ≠ [])
    (hint : codes.length * 2 + 2 < 2 ^ 31) (hitems : items ≤ 2 ^ 16) (hlt : ∀ code ∈ codes, code < items)
    {modes : UInt16} {numbers : CompressionArg2} (h : numbers = c.compressNumbers lib codes (items - 1) modes) :
    numbers.buf.length ≤ codes.length * 2 ∧ numbers.modes &&& ~~~coderFlags = 0 ∧
      ∀ outSz, codes.length * 2 ≤ outSz → ∀ modes' : UInt16, modes' &&& coderFlags = numbers.modes &&& coderFlags →
        StringCoder.decompressNumbers lib ⟨numbers.buf, modes'⟩ outSz = some codes := by
  have hne : 0 < items := by
    obtain ⟨code, hcode⟩ := List.exists_mem_of_ne_nil codes hcodes
    exact (Nat.zero_le code).trans_lt (hlt code hcode)
  have hwords := wordsLE_codesBuf fun code hcode => (hlt code hcode).trans_le hitems
  have hlen := codesBuf_length codes
  have hpos := List.length_pos_iff.mpr hcodes
  rw [StringCoder.compressNumbers] at h
  cases hout : (c.intCoder (items - 1)).compress lib (StringCoder.codesBuf codes) modes with
  | none =>
    rw [hout] at h
    subst h
    refine ⟨hlen.le, UInt16.zero_and, fun outSz _ modes' hmodes' => ?_⟩
    have hflag : ∀ flag, coderFlags &&& flag = flag → modes' &&& flag = 0 := fun flag hflag =>
      (and_flag_of_and_mask hmodes' flag hflag).trans (by rw [Option.getD_none, UInt16.zero_and, UInt16.zero_and])
    rw [StringCoder.decompressNumbers, IntegerCoder.decompress, if_neg (not_not.mpr (hflag _ (by decide))),
      IntegerCoder.decompressLibrary, if_neg (not_not.mpr (hflag _ (by decide))),
      if_neg (not_not.mpr (hflag _ (by decide)))]
    dsimp only [Option.bind_eq_bind, Option.bind_some]
    rw [IntegerCoder.decompressRle, if_neg (not_not.mpr (hflag _ (by decide)))]
    exact congrArg some hwords
  | some out =>
    rw [hout] at h
    subst h
    obtain ⟨hbytes, hbounds⟩ := codes_bounds hne hitems hlt
    obtain ⟨-, hshort, -, ⟨d, hd, k, hk, hmodes⟩, hback⟩ := decompress_compress (c := c.intCoder (items - 1)) hlib
      (.inr (.inl rfl)) (by rw [hlen]; omega) (by rw [hlen]; exact hint) (by rw [hlen]; exact Nat.mul_mod_left _ _)
      hbytes hbounds hout
    refine ⟨by rw [← hlen]; exact hshort.le, ?_, fun outSz houtSz modes' hmodes' => ?_⟩
    · rw [hmodes]
      exact coderModes_own d hd k hk
    · exact Option.bind_eq_some_iff.mpr
        ⟨_, hback outSz (by rw [hlen]; exact houtSz) modes' hmodes', congrArg some hwords⟩

end numbers

/-! ## Round trip -/

section roundTrip

variable {lib : CompressLibrary} {vals : List (List UInt8)}

/-- The dictionary coder stays in its arrays, and what it keeps can be read back with anything behind it. -/
lemma dicCompress_cases (hashAny : List UInt8 → UInt32) (hv : ∀ v ∈ vals, IsVarlena v)
    (hcount : vals.length < 2 ^ 16) (hsize : vals.flatten.length < 2 ^ 31) :
    dicCompress hashAny vals.flatten vals.length 0 = some none ∨
      ∃ (d : DicData) (items : List (List UInt8)) (codes : List Nat),
        dicCompress hashAny vals.flatten vals.length 0 = some (some (dictOnDisk d, codes)) ∧
        DicHolds hashAny d items ∧ (∀ code ∈ codes, code < items.length) ∧ codes.length = vals.length ∧
        ∀ behind, ∃ r, DicReader.ofDisk (dictOnDisk d ++ behind) = some r ∧ r.decompress codes = some vals := by
  have hlt := maxItems_lt (show 0 < 2 ^ 16 by decide) (show vals.length < 2 ^ 16 * 3 by omega)
  have hinit := DicHolds.init hashAny (dictGetMaxNumber vals.flatten.length) hlt
  have hpos : 0 < (initDictData (dictGetMaxNumber vals.flatten.length) (maxItems 0 vals.length)).maxItemCount := by
    rw [initDictData, Nat.mod_eq_of_lt hlt]
    exact maxItems_pos 0 vals.length
  rcases encodeValues_cases hinit hpos vals.length hv [] (by simp) with
    ⟨d, items, codes, hrun, hd, -, -, hcodes⟩ | ⟨pre, v, post, d, codes, hvals, hrun⟩
  · rw [dicCompress_eq hashAny hv 0 hrun]
    by_cases hsmall : d.data.length + 8 < vals.flatten.length
    · rw [if_pos ⟨rfl, hsmall⟩]
      exact .inr ⟨d, items, codes, rfl, hd, fun code hcode => hcodes.lt hcode, hcodes.length_eq, fun behind =>
        ⟨_, ofDisk_eq hd (by omega) behind, decompress_eq hd.varlena behind hcodes hcount⟩⟩
    · exact .inl (if_neg fun hc => hsmall hc.2)
  · rw [dicCompress_eq hashAny hv 0 hrun]
    refine .inl (if_neg fun hc => ?_)
    obtain ⟨hnil, -⟩ := hc
    rw [List.flatten_cons] at hnil
    exact (hv v (by rw [hvals]; simp)).ne_nil (List.append_eq_nil_iff.mp hnil).1

lemma dictOnDisk_header {hashAny : List UInt8 → UInt32} {d : DicData} {items : List (List UInt8)}
    (h : DicHolds hashAny d items) (hsize : d.data.length + 8 < 2 ^ 32) (behind : List UInt8) :
    (dictOnDisk d).length = 8 + d.data.length ∧ ofLE ((dictOnDisk d ++ behind).take 4) = 8 + d.data.length ∧
      ofLE (((dictOnDisk d).drop 4).take 4) = items.length := by
  have hcount : d.curItemCount < 256 ^ 4 := by
    have := h.max_lt
    have := h.le_max
    rw [h.count]
    omega
  refine ⟨?_, ?_, ?_⟩
  · rw [dictOnDisk, List.length_append, List.length_append, toLE_length, toLE_length]
  · rw [dictOnDisk, List.append_assoc, List.append_assoc, List.take_left' (toLE_length _ _),
      ofLE_toLE_of_lt (by omega)]
  · rw [dictOnDisk, List.append_assoc, List.drop_left' (toLE_length _ _), List.take_left' (toLE_length _ _),
      ofLE_toLE_of_lt hcount, h.count]

lemma or_dic_and (m : UInt16) (h : m &&& ~~~coderFlags = 0) :
    (CU_DicEncode ||| m) &&& CU_DicEncode ≠ 0 ∧ (CU_DicEncode ||| m) &&& coderFlags = m &&& coderFlags ∧
      (CU_DicEncode ||| m) &&& ~~~stringFlags = 0 := by
  have hsub : ∀ flag, ~~~coderFlags &&& flag = flag → m &&& flag = 0 := fun flag hflag => by
    rw [and_flag_of_and_mask h flag hflag, UInt16.zero_and]
  refine ⟨?_, ?_, ?_⟩
  · rw [or_and_flag, hsub CU_DicEncode (by decide)]
    decide
  · rw [or_and_flag, show CU_DicEncode &&& coderFlags = 0 by decide, UInt16.zero_or]
  · rw [or_and_flag, hsub (~~~stringFlags) (by decide)]
    decide

/-- The attempt with a dictionary -/
lemma compressDict_cases (hashAny : List UInt8 → UInt32) (hlib : lib.Lossless) (c : StringCoder)
    (hv : ∀ v ∈ vals, IsVarlena v)
    (hcount : vals.length < 2 ^ 16) (hsize : vals.flatten.length < 2 ^ 31 - 2) (modes : UInt16) :
    c.compressDict lib hashAny vals.flatten vals.length modes = some none ∨
      ∃ out, c.compressDict lib hashAny vals.flatten vals.length modes = some (some out) ∧
        0 < out.buf.length ∧ out.buf.length < vals.flatten.length ∧ out.modes &&& stringFlags ≠ 0 ∧
        out.modes &&& ~~~stringFlags = 0 ∧
        ∀ outSz, vals.flatten.length ≤ outSz → ∀ modes' : UInt16, modes' &&& stringFlags = out.modes &&& stringFlags →
          StringCoder.decompress lib ⟨out.buf, modes'⟩ outSz = some vals.flatten := by
  unfold StringCoder.compressDict
  rcases dicCompress_cases hashAny hv hcount (by omega) with
    hnone | ⟨d, items, codes, hrun, hd, hlt, hlen, hback⟩
  · rw [hnone]
    exact .inl rfl
  · rw [hrun]
    dsimp only [Option.bind_eq_bind, Option.bind_some]
    split
    case isFalse => exact .inl rfl
    case isTrue hsmall =>
      obtain ⟨hpos, -, hsum⟩ := hsmall
      have hdata : d.data.length + 8 < 2 ^ 32 := by
        have hdisk : (dictOnDisk d).length = 8 + d.data.length := by
          rw [dictOnDisk, List.length_append, List.length_append, toLE_length, toLE_length]
        omega
      have hitems : items.length ≤ 2 ^ 16 := hd.le_max.trans hd.max_lt.le
      have hcodes : codes ≠ [] := List.length_pos_iff.mp (by omega)
      rw [(dictOnDisk_header hd hdata []).2.2]
      generalize hnumbers : c.compressNumbers lib codes (items.length - 1) modes = numbers
      obtain ⟨hle, hnodic, hrestore⟩ := decompressNumbers_compressNumbers hlib c hcodes (by omega) hitems hlt
        hnumbers.symm
      obtain ⟨htotal, htake, -⟩ := dictOnDisk_header hd hdata numbers.buf
      obtain ⟨hdic, hcoder, hown⟩ := or_dic_and numbers.modes hnodic
      refine .inr ⟨_, rfl, ?_, ?_, fun hzero => hdic ?_, hown, fun outSz houtSz modes' hmodes' => ?_⟩
      · dsimp only
        rw [List.length_append]
        omega
      · dsimp only
        rw [List.length_append]
        omega
      · rw [and_flag_of_and_mask hzero CU_DicEncode (by decide), UInt16.zero_and]
      · have hflag : ∀ mask, stringFlags &&& mask = mask → modes' &&& mask =
            (CU_DicEncode ||| numbers.modes) &&& mask := fun mask h =>
          (and_flag_of_and_mask hmodes' mask h).trans (and_flag_of_and_mask rfl mask h).symm
        obtain ⟨r, hr, hvals⟩ := hback numbers.buf
        have hdicSet : modes' &&& CU_DicEncode ≠ 0 := (hflag CU_DicEncode (by decide)).symm ▸ hdic
        rw [StringCoder.decompress, if_neg hdicSet]
        dsimp only
        rw [htake, List.drop_left' htotal]
        refine Option.bind_eq_some_iff.mpr ⟨r, hr, Option.bind_eq_some_iff.mpr ⟨codes, ?_,
          Option.bind_eq_some_iff.mpr ⟨vals, hvals, rfl⟩⟩⟩
        exact hrestore outSz (by omega) modes' ((hflag _ (by decide)).trans hcoder)

/-- What `Compress` writes for a buffer that is a column of variable-length values where the dictionary is used -/
lemma compress_spec (hashAny : List UInt8 → UInt32) (hlib : lib.Lossless) (c : StringCoder) {buf : List UInt8}
    {numVals : Nat} {useDict : Bool}
    (hdict : useDict = true → ∃ vals : List (List UInt8), buf = vals.flatten ∧ numVals = vals.length ∧
      (∀ v ∈ vals, IsVarlena v) ∧ vals.length < 2 ^ 16)
    (hsize : buf.length < 2 ^ 31 - 2) (modes : UInt16) {outBuf : List UInt8} (houtBuf : buf.length ≤ outBuf.length) :
    ∃ res, c.compress lib hashAny buf numVals useDict modes outBuf = some res ∧
      ∀ out, res = some out → 0 < out.buf.length ∧ out.buf.length < buf.length ∧ out.modes &&& stringFlags ≠ 0 ∧
        out.modes &&& ~~~stringFlags = 0 ∧
        ∀ modes' : UInt16, modes' &&& stringFlags = out.modes &&& stringFlags →
          StringCoder.decompress lib ⟨out.buf, modes'⟩ buf.length = some buf := by
  unfold StringCoder.compress
  have hplain := compressWithoutDict_spec hlib (show buf.length < 2 ^ 31 by omega) modes houtBuf
  by_cases huse : useDict = true ∧ c.adoptDict = true
  · rw [if_pos huse]
    obtain ⟨vals, rfl, rfl, hv, hcount⟩ := hdict huse.1
    rcases compressDict_cases hashAny hlib c hv hcount hsize modes with
      hnone | ⟨out, hsome, hpos, hshort, hset, hown, hback⟩
    · rw [hnone]
      exact ⟨_, rfl, hplain⟩
    · rw [hsome]
      refine ⟨some out, rfl, fun out' hout' => ?_⟩
      obtain rfl := Option.some_inj.mp hout'
      exact ⟨hpos, hshort, hset, hown, hback _ le_rfl⟩
  · rw [if_neg huse]
    exact ⟨_, rfl, hplain⟩

/-- Two strings, and then the first one again and again -/
def sampleStrings : List (List UInt8) :=
  [11, 97, 98, 99, 101] :: [11, 97, 98, 99, 100] :: List.replicate 40 [11, 97, 98, 99, 101]

end roundTrip

end GaussKernel.CStore
