import Mathlib
import GaussKernel.Cbb.HllSize
import GaussKernel.Lib.Bits

/-!
# Packed objects

The bytes of an object (`HllObjectPack`, `HllObjectUnpack`) and the input function `hll_in`. A packed object unpacks to
itself. Of other bytes only the magic, the mode and the used length against the number of bytes are checked: not the
used length against the size of the buffer, which also comes from the header, not the parameters, and not that the data
is data of the mode. `none` is an `ereport(ERROR)`.
-/

namespace GaussKernel.Cbb
open Lib

inductive HllType where
  | uninit | empty | explicit | sparse | full
  deriving DecidableEq, Repr

def HllType.code : HllType → Nat
  | .uninit => 0
  | .empty => 1
  | .explicit => 2
  | .sparse => 3
  | .full => 4

def HllType.ofCode : Nat → Option HllType
  | 0 => some .uninit
  | 1 => some .empty
  | 2 => some .explicit
  | 3 => some .sparse
  | 4 => some .full
  | _ => none

def HllData.hlltype : HllData → HllType
  | .uninit => .uninit
  | .empty => .empty
  | .explicit _ => .explicit
  | .sparse _ => .sparse
  | .full _ => .full

/-- The `lenUsed` bytes at `hllData`, and for how many bytes it was allocated. -/
structure HllObjectData where
  hlltype : HllType
  log2Registers : Nat
  log2Explicitsize : Nat
  log2Sparsesize : Nat
  duplicateCheck : Nat
  lenTotal : Nat
  lenUsed : Nat
  hllData : List UInt8
  allocated : Nat
  ndvEstimator : UInt64
  lastHash : UInt64
  deriving DecidableEq

/-- The object in memory. The bits of its estimate are whatever the calls left there. -/
def SizedHll.object (o : SizedHll) (ndvEstimator : UInt64) : HllObjectData where
  hlltype := o.hll.hllData.hlltype
  log2Registers := o.hll.hllpara.log2Registers
  log2Explicitsize := o.hll.hllpara.log2Explicitsize
  log2Sparsesize := o.hll.hllpara.log2Sparsesize
  duplicateCheck := o.hll.hllpara.duplicateCheck.toNat
  lenTotal := o.lenTotal
  lenUsed := o.lenUsed
  hllData := o.hll.hllData.bytes
  allocated := o.lenTotal
  ndvEstimator := ndvEstimator
  lastHash := o.hll.lastHash

/-- `compressinfo` -/
structure HllHeader where
  hlltype : Nat
  log2Registers : Nat
  log2Explicitsize : Nat
  log2Sparsesize : Nat
  duplicateCheck : Nat
  lenTotal : Nat
  lenUsed : Nat
  deriving DecidableEq

def HllHeader.compress (h : HllHeader) : Nat :=
  let compressinfo := h.hlltype
  let compressinfo := pushField compressinfo 4 (h.log2Registers - 10)
  let compressinfo := pushField compressinfo 4 h.log2Explicitsize
  let compressinfo := pushField compressinfo 4 h.log2Sparsesize
  let compressinfo := pushField compressinfo 4 h.duplicateCheck
  let compressinfo := pushField compressinfo 17 h.lenTotal
  pushField compressinfo 17 h.lenUsed

def uncompress (compressinfo : Nat) : HllHeader :=
  let lenUsed := compressinfo &&& (2 ^ 17 - 1)
  let compressinfo := compressinfo >>> 17
  let lenTotal := compressinfo &&& (2 ^ 17 - 1)
  let compressinfo := compressinfo >>> 17
  let duplicateCheck := compressinfo &&& (2 ^ 4 - 1)
  let compressinfo := compressinfo >>> 4
  let log2Sparsesize := compressinfo &&& (2 ^ 4 - 1)
  let compressinfo := compressinfo >>> 4
  let log2Explicitsize := compressinfo &&& (2 ^ 4 - 1)
  let compressinfo := compressinfo >>> 4
  let log2Registers := (compressinfo &&& (2 ^ 4 - 1)) + 10
  let compressinfo := compressinfo >>> 4
  let hlltype := compressinfo &&& (2 ^ 4 - 1)
  ⟨hlltype, log2Registers, log2Explicitsize, log2Sparsesize, duplicateCheck, lenTotal, lenUsed⟩

def HllObjectData.header (o : HllObjectData) : HllHeader :=
  ⟨o.hlltype.code, o.log2Registers, o.log2Explicitsize, o.log2Sparsesize, o.duplicateCheck, o.lenTotal, o.lenUsed⟩

/-- "HLL" -/
def hllHead : List UInt8 := [0x48, 0x4C, 0x4C]

def hllObjectPack (o : HllObjectData) (hllsize : Nat) : Option (List UInt8) :=
  if hllsize ≤ 27 + o.lenUsed then none
  else if o.hlltype = .uninit then none
  else
    some (hllHead ++ toLE 8 o.header.compress ++ toLE 8 o.ndvEstimator.toNat ++ toLE 8 o.lastHash.toNat ++
      o.hllData.take o.lenUsed ++ List.replicate (hllsize - (27 + o.lenUsed)) 0)

/-- The header in the bytes. -/
def headerOf (hllbyte : List UInt8) : HllHeader := uncompress (ofLE ((hllbyte.drop 3).take 8))

def hllObjectUnpack (hllbyte : List UInt8) : Option HllObjectData :=
  if hllbyte.length < 27 then none
  else if hllbyte.take 3 ≠ hllHead then none
  else
    let h := headerOf hllbyte
    match HllType.ofCode h.hlltype with
    | none => none
    | some hlltype =>
      if hllbyte.length ≤ 27 + h.lenUsed then none
      else
        some {
          hlltype := hlltype
          log2Registers := h.log2Registers
          log2Explicitsize := h.log2Explicitsize
          log2Sparsesize := h.log2Sparsesize
          duplicateCheck := h.duplicateCheck
          lenTotal := h.lenTotal
          lenUsed := h.lenUsed
          hllData := (hllbyte.drop 27).take h.lenUsed
          -- without data nothing is allocated
          allocated := if h.lenUsed > 0 then h.lenTotal else 0
          ndvEstimator := UInt64.ofNat (ofLE ((hllbyte.drop 11).take 8))
          lastHash := UInt64.ofNat (ofLE ((hllbyte.drop 19).take 8)) }

/-- `HllCheckParaequal` with what `HllParaUnpack` makes of `typmod` -/
def paraEqual (o : HllObjectData) (typmod : UInt32) : Prop :=
  toLE 4 typmod.toNat =
    [o.log2Registers, o.log2Explicitsize, o.log2Sparsesize, o.duplicateCheck].map UInt8.ofNat

instance (o : HllObjectData) (typmod : UInt32) : Decidable (paraEqual o typmod) :=
  inferInstanceAs (Decidable (_ = _))

/-- `hll_in` after `byteain` -/
def hllIn (hllbyte : List UInt8) (typmod : UInt32) : Option (List UInt8) := do
  let o ← hllObjectUnpack hllbyte
  -- -1 is no type modifier
  if typmod ≠ 0xFFFFFFFF ∧ ¬ paraEqual o typmod then none
  return hllbyte

/-- The data in the bytes. -/
def dataOf (hllbyte : List UInt8) : List UInt8 := (hllbyte.drop 27).take (headerOf hllbyte).lenUsed

/-- The hashes at `hllData`, as `HllGetExplictitValue` reads them. -/
def explicitHashes : Nat → List UInt8 → List UInt64
  | 0, _ => []
  | n + 1, bytes => UInt64.ofNat (ofLE (bytes.take 8)) :: explicitHashes n (bytes.drop 8)

/-- The bytes are data of the mode. -/
def WellFormed (hlltype : HllType) (R E : Nat) (bytes : List UInt8) : Prop :=
  ∃ data, Formed R E data ∧ data.hlltype = hlltype ∧ data.bytes = bytes

/-- The object is one that the later copies and register accesses are made for: its buffer is as large as it says and
holds its data, which is data of its mode, and the length of its full mode fits the header. -/
structure HllObjectData.Fits (o : HllObjectData) : Prop where
  used_le : o.lenUsed ≤ o.allocated
  total : o.lenTotal = o.allocated
  length : o.hllData.length = o.lenUsed
  registers : o.log2Registers ≤ 16
  wellFormed : WellFormed o.hlltype o.log2Registers o.log2Explicitsize o.hllData

/-- The lengths in the header belong together and to the mode, and so do the data's bytes: hashes in order, bytes for
all registers and none of the unused type, or a byte for each register. -/
def HllHeader.Fits (h : HllHeader) (data : List UInt8) : Prop :=
  h.log2Registers ≤ 16 ∧
    match HllType.ofCode h.hlltype with
    | some .uninit => h.lenUsed = 0 ∧ h.lenTotal = 0
    | some .empty => h.lenUsed = 0 ∧ h.lenTotal = 0
    | some .explicit =>
      h.lenUsed ≤ h.lenTotal ∧ 0 < h.lenUsed ∧ h.lenUsed % 8 = 0 ∧ h.lenUsed ≤ 2 ^ h.log2Explicitsize ∧
        (explicitHashes (h.lenUsed / 8) data).Pairwise (· < ·)
    | some .sparse =>
      h.lenUsed ≤ h.lenTotal ∧ (∀ byte ∈ data, byteType byte ≠ .sparseValue ∧ byte ≠ 0xBF) ∧
        (data.map fun byte => (byteRegisters byte).getD 0).sum = 2 ^ h.log2Registers
    | some .full =>
      h.lenUsed ≤ h.lenTotal ∧ h.lenUsed = 2 ^ h.log2Registers ∧ ∀ byte ∈ data, byte.toNat < 64
    | none => True

instance (h : HllHeader) (data : List UInt8) : Decidable (h.Fits data) := by
  unfold HllHeader.Fits
  refine @instDecidableAnd _ _ inferInstance ?_
  split <;> infer_instance

/-- The objects that `HllInit`, `HllEmpty` and `HllSetPara` give, those of bytes from outside that fit, and what `HllAdd`
and `HllUnion` make of them. -/
inductive Reachable (ctz0 : UInt8) : SizedHll → Prop where
  | init (p : HllPara) : Reachable ctz0 ⟨⟨p, .uninit, 0⟩, 0⟩
  | empty (p : HllPara) : Reachable ctz0 ⟨⟨p, .empty, 0⟩, 0⟩
  | unpacked {o : SizedHll} {ndvEstimator : UInt64} {hllbyte : List UInt8} :
    hllObjectUnpack hllbyte = some (o.object ndvEstimator) → (headerOf hllbyte).Fits (dataOf hllbyte) → Reachable ctz0 o
  | add {o o' : SizedHll} (hashval : UInt64) : Reachable ctz0 o → sizedAdd ctz0 o hashval = some o' →
    Reachable ctz0 o'
  | union {o a o' a' : SizedHll} : Reachable ctz0 o → Reachable ctz0 a → sizedUnion ctz0 o a = some (o', a') →
    Reachable ctz0 o'
  | merged {o a o' a' : SizedHll} : Reachable ctz0 o → Reachable ctz0 a → sizedUnion ctz0 o a = some (o', a') →
    Reachable ctz0 a'

/-! ## Round trip -/

/-- The fields fit their bits. -/
structure HllHeader.InRange (h : HllHeader) : Prop where
  hlltype : h.hlltype < 2 ^ 4
  registers : 10 ≤ h.log2Registers ∧ h.log2Registers < 26
  explicit : h.log2Explicitsize < 2 ^ 4
  sparse : h.log2Sparsesize < 2 ^ 4
  dup : h.duplicateCheck < 2 ^ 4
  total : h.lenTotal < 2 ^ 17
  used : h.lenUsed < 2 ^ 17

lemma uncompress_compress {h : HllHeader} (hr : h.InRange) : uncompress h.compress = h := by
  obtain ⟨hlltype, hregisters, hexplicit, hsparse, hdup, htotal, hused⟩ := hr
  have hR : h.log2Registers - 10 < 2 ^ 4 := by omega
  unfold uncompress HllHeader.compress
  dsimp only
  simp only [pushField_and, pushField_shiftRight, hexplicit, hsparse, hdup, htotal, hused, hR]
  rw [Nat.and_two_pow_sub_one_eq_mod, Nat.mod_eq_of_lt hlltype, Nat.sub_add_cancel hregisters.1]

lemma compress_lt {h : HllHeader} (hr : h.InRange) : h.compress < 256 ^ 8 := by
  obtain ⟨hlltype, hregisters, hexplicit, hsparse, hdup, htotal, hused⟩ := hr
  have hR : h.log2Registers - 10 < 2 ^ 4 := by omega
  have hlt := pushField_lt (pushField_lt (pushField_lt (pushField_lt (pushField_lt (pushField_lt hlltype hR) hexplicit)
    hsparse) hdup) htotal) hused
  exact lt_of_lt_of_le hlt (by norm_num)

lemma ofCode_code (t : HllType) : HllType.ofCode t.code = some t := by
  cases t <;> rfl

/-- The parts of packed bytes. -/
lemma packed_parts {head info ndv last : List UInt8} (rest : List UInt8) (h : head.length = 3) (hi : info.length = 8)
    (hn : ndv.length = 8) (hl : last.length = 8) :
    (head ++ info ++ ndv ++ last ++ rest).take 3 = head ∧
      ((head ++ info ++ ndv ++ last ++ rest).drop 3).take 8 = info ∧
      ((head ++ info ++ ndv ++ last ++ rest).drop 11).take 8 = ndv ∧
      ((head ++ info ++ ndv ++ last ++ rest).drop 19).take 8 = last ∧
      (head ++ info ++ ndv ++ last ++ rest).drop 27 = rest := by
  refine ⟨?_, ?_, ?_, ?_, List.drop_left' (by simp [h, hi, hn, hl])⟩
  · simp only [List.append_assoc]
    exact List.take_left' h
  · simp only [List.append_assoc]
    rw [List.drop_left' h, List.take_left' hi]
  · rw [List.append_assoc, List.append_assoc, List.drop_left' (by simp [h, hi]), List.take_left' hn]
  · rw [List.append_assoc, List.drop_left' (by simp [h, hi, hn]), List.take_left' hl]

variable {o : HllObjectData} {hllbyte bytes : List UInt8} {n R E : Nat}

/-- Fields inside their bits and a buffer of the recorded size come back from the bytes. -/
lemma hllObjectUnpack_pack (hr : o.header.InRange) (hdata : o.hllData.length = o.lenUsed)
    (hallocated : o.allocated = if o.lenUsed > 0 then o.lenTotal else 0) (hpack : hllObjectPack o n = some hllbyte) :
    hllObjectUnpack hllbyte = some o := by
  unfold hllObjectPack at hpack
  split at hpack
  · cases hpack
  rename_i hsize
  split at hpack
  · cases hpack
  rw [List.append_assoc, Option.some.injEq] at hpack
  obtain ⟨hhead, hinfo, hndv, hlast, hrest⟩ := packed_parts
    (o.hllData.take o.lenUsed ++ List.replicate (n - (27 + o.lenUsed)) 0) (show hllHead.length = 3 from rfl)
    (toLE_length 8 o.header.compress) (toLE_length 8 o.ndvEstimator.toNat) (toLE_length 8 o.lastHash.toNat)
  rw [hpack] at hhead hinfo hndv hlast hrest
  have hlen : hllbyte.length = n := by
    rw [← hpack]
    simp [hllHead, hdata]
    omega
  have hheader : headerOf hllbyte = o.header := by
    rw [headerOf, hinfo, ofLE_toLE_of_lt (compress_lt hr), uncompress_compress hr]
  unfold hllObjectUnpack
  rw [if_neg (by omega), if_neg (not_not.mpr hhead), hheader, hndv, hlast, hrest]
  dsimp only [HllObjectData.header]
  rw [ofCode_code]
  dsimp only
  rw [if_neg (by omega), ofLE_toLE_of_lt (UInt64.toNat_lt _), ofLE_toLE_of_lt (UInt64.toNat_lt _),
    List.take_left' (by simp [hdata]), List.take_of_length_le hdata.le, ← hallocated, UInt64.ofNat_toNat,
    UInt64.ofNat_toNat]

lemma SizedHll.Ok.inRange {o : SizedHll} (h : o.Ok) (ndvEstimator : UInt64) :
    (o.object ndvEstimator).header.InRange := by
  have hR := o.hll.hllpara.registers_range
  have hE := o.hll.hllpara.explicit_range
  have hS := o.hll.hllpara.sparse_range
  have htotal := h.room.total_lt
  have hused : o.lenUsed ≤ o.lenTotal := h.room.used_le
  refine ⟨?_, ⟨hR.1, ?_⟩, ?_, ?_, ?_, ?_, ?_⟩
  · exact (show ∀ t : HllType, t.code < 2 ^ 4 by intro t; cases t <;> decide) _
  · exact Nat.lt_of_le_of_lt hR.2 (by decide)
  · exact Nat.lt_of_le_of_lt hE (by decide)
  · exact Nat.lt_of_le_of_lt hS (by decide)
  · exact Nat.lt_of_le_of_lt (Bool.toNat_le _) (by decide)
  · exact htotal
  · exact Nat.lt_of_le_of_lt hused htotal

lemma SizedHll.Ok.unpack_pack {o : SizedHll} (h : o.Ok) {ndvEstimator : UInt64}
    (hpack : hllObjectPack (o.object ndvEstimator) n = some hllbyte) :
    hllObjectUnpack hllbyte = some (o.object ndvEstimator) := by
  apply hllObjectUnpack_pack (h.inRange ndvEstimator) rfl ?_ hpack
  change o.lenTotal = if o.hll.hllData.bytes.length > 0 then o.lenTotal else 0
  split
  case isTrue => rfl
  case isFalse hzero => exact h.room.none (List.length_eq_zero_iff.mp (by omega))

/-- Every object but an uninitialised one is packed, into enough bytes. -/
lemma hllObjectPack_isSome (hne : o.hlltype ≠ .uninit) (hn : 27 + o.lenUsed < n) : (hllObjectPack o n).isSome := by
  unfold hllObjectPack
  rw [if_neg (by omega), if_neg hne]
  rfl

/-! ## Data of a mode -/

/-- The hashes and their bytes. -/
lemma explicitHashes_bytes (hashes : List UInt64) :
    explicitHashes hashes.length (HllData.explicit hashes).bytes = hashes := by
  induction hashes with
  | nil => rfl
  | cons h hs ih =>
    have hbytes : (HllData.explicit (h :: hs)).bytes = toLE 8 h.toNat ++ (HllData.explicit hs).bytes := rfl
    rw [hbytes, List.length_cons, explicitHashes, List.take_left' (toLE_length 8 _), List.drop_left' (toLE_length 8 _),
      ih, ofLE_toLE_of_lt (UInt64.toNat_lt _), UInt64.ofNat_toNat]

lemma bytes_explicitHashes (h : bytes.length = 8 * n) : (HllData.explicit (explicitHashes n bytes)).bytes = bytes := by
  induction n generalizing bytes with
  | zero => exact (List.eq_nil_of_length_eq_zero h).symm
  | succ n ih =>
    have hfirst : (bytes.take 8).length = 8 := by
      rw [List.length_take]
      omega
    have hlt : ofLE (bytes.take 8) < 2 ^ 64 := by
      have := ofLE_lt (bytes.take 8)
      rw [hfirst] at this
      exact lt_of_lt_of_eq this (by norm_num)
    have hbytes : (HllData.explicit (explicitHashes (n + 1) bytes)).bytes =
        toLE 8 (UInt64.ofNat (ofLE (bytes.take 8))).toNat ++
          (HllData.explicit (explicitHashes n (bytes.drop 8))).bytes :=
      rfl
    rw [hbytes, ih (by rw [List.length_drop]; omega), UInt64.toNat_ofNat', Nat.mod_eq_of_lt hlt, toLE_ofLE hfirst,
      List.take_append_drop]

lemma length_explicitHashes (n : Nat) (bytes : List UInt8) : (explicitHashes n bytes).length = n := by
  induction n generalizing bytes with
  | zero => rfl
  | succ n ih => rw [explicitHashes, List.length_cons, ih]

/-- Data is known from its mode and its bytes. -/
lemma HllData.eq_of_bytes {data data' : HllData} (htype : data.hlltype = data'.hlltype)
    (hbytes : data.bytes = data'.bytes) : data = data' := by
  cases data with
  | uninit => cases data' <;> first | rfl | cases htype
  | empty => cases data' <;> first | rfl | cases htype
  | explicit hashes =>
    cases data' with
    | explicit hashes' =>
      have hlength := congrArg List.length hbytes
      rw [bytes_explicit_length, bytes_explicit_length] at hlength
      rw [← explicitHashes_bytes hashes, ← explicitHashes_bytes hashes', hbytes,
        Nat.eq_of_mul_eq_mul_left (by decide) hlength]
    | _ => cases htype
  | sparse bytes =>
    cases data' with
    | sparse bytes' => rw [show bytes = bytes' from hbytes]
    | _ => cases htype
  | full bytes =>
    cases data' with
    | full bytes' => rw [show bytes = bytes' from hbytes]
    | _ => cases htype

lemma wellFormed_explicit :
    WellFormed .explicit R E bytes ↔ 0 < bytes.length ∧ bytes.length % 8 = 0 ∧ bytes.length ≤ 2 ^ E ∧
      (explicitHashes (bytes.length / 8) bytes).Pairwise (· < ·) := by
  constructor
  · rintro ⟨data, hformed, htype, rfl⟩
    cases hformed with
    | @explicit hashes hsort hne hsmall =>
      have hpos := List.length_pos_iff.mpr hne
      rw [bytes_explicit_length, Nat.mul_div_cancel_left _ (by decide), explicitHashes_bytes]
      exact ⟨by omega, Nat.mul_mod_right 8 _, hsmall, hsort⟩
    | uninit => cases htype
    | empty => cases htype
    | sparse => cases htype
    | full => cases htype
  · rintro ⟨hpos, hmod, hle, hsort⟩
    refine ⟨.explicit (explicitHashes (bytes.length / 8) bytes), .explicit hsort (List.ne_nil_of_length_pos ?_) ?_, rfl,
      bytes_explicitHashes (by omega)⟩
    · rw [length_explicitHashes]
      omega
    · rw [length_explicitHashes]
      omega

/-- Only the greatest value of a byte is beyond the histogram. -/
lemma byteRun_lt_iff {byte : UInt8} (h : byteType byte ≠ .sparseValue) :
    (∀ r ∈ byteRun byte, r < 64) ↔ byte ≠ 0xBF := by
  have hzeros : ∀ n, ∀ r ∈ List.replicate n 0, r < 64 := fun n r hr => by
    rw [List.eq_of_mem_replicate hr]
    decide
  unfold byteRun
  cases hty : byteType byte with
  | sparseLongzero =>
    refine iff_of_true (hzeros _) ?_
    rintro rfl
    cases hty
  | sparseZero =>
    refine iff_of_true (hzeros _) ?_
    rintro rfl
    cases hty
  | denseValue =>
    dsimp only
    rw [List.forall_mem_singleton, byteGetValue]
    have hquot : byte.toNat / 64 = 2 := by
      unfold byteType at hty
      split at hty <;> first | assumption | cases hty
    rw [Ne, ← UInt8.toNat_inj, show (0xBF : UInt8).toNat = 191 from rfl]
    omega
  | sparseValue => exact absurd hty h

lemma length_expand (h : ∀ byte ∈ bytes, byteType byte ≠ .sparseValue) :
    (expand bytes).length = (bytes.map fun byte => (byteRegisters byte).getD 0).sum := by
  induction bytes with
  | nil => rfl
  | cons byte bytes ih =>
    obtain ⟨hbyte, hrest⟩ := List.forall_mem_cons.mp h
    rw [expand_cons, List.length_append, ih hrest, List.map_cons, List.sum_cons, byteRegisters_eq hbyte,
      Option.getD_some]

lemma wellFormed_sparse :
    WellFormed .sparse R E bytes ↔ (∀ byte ∈ bytes, byteType byte ≠ .sparseValue ∧ byte ≠ 0xBF) ∧
      (bytes.map fun byte => (byteRegisters byte).getD 0).sum = 2 ^ R := by
  constructor
  · rintro ⟨data, hformed, htype, rfl⟩
    cases hformed with
    | @sparse bytes regs hcodes hregs hlt =>
      refine ⟨fun byte hbyte => ⟨hcodes.valid byte hbyte, (byteRun_lt_iff (hcodes.valid byte hbyte)).mp ?_⟩, ?_⟩
      · intro r hr
        refine hlt r ?_
        rw [← hcodes.expand_eq]
        exact List.mem_flatMap.mpr ⟨byte, hbyte, hr⟩
      · change (bytes.map _).sum = _
        rw [← length_expand hcodes.valid, hcodes.expand_eq, hregs]
    | uninit => cases htype
    | empty => cases htype
    | explicit => cases htype
    | full => cases htype
  · rintro ⟨hvalid, hsum⟩
    have htypes : ∀ byte ∈ bytes, byteType byte ≠ .sparseValue := fun byte hbyte => (hvalid byte hbyte).1
    refine ⟨.sparse bytes, .sparse ⟨htypes, rfl⟩ ((length_expand htypes).trans hsum) fun r hr => ?_, rfl, rfl⟩
    obtain ⟨byte, hbyte, hr⟩ := List.mem_flatMap.mp hr
    exact (byteRun_lt_iff (htypes byte hbyte)).mpr (hvalid byte hbyte).2 r hr

lemma wellFormed_full : WellFormed .full R E bytes ↔ bytes.length = 2 ^ R ∧ ∀ byte ∈ bytes, byte.toNat < 64 := by
  constructor
  · rintro ⟨data, hformed, htype, rfl⟩
    cases hformed with
    | full h hlt => exact ⟨h, hlt⟩
    | uninit => cases htype
    | empty => cases htype
    | explicit => cases htype
    | sparse => cases htype
  · rintro ⟨h, hlt⟩
    exact ⟨.full bytes, .full h hlt, rfl, rfl⟩

/-- The modes without data. -/
lemma wellFormed_none {t : HllType} (h : t = .uninit ∨ t = .empty) : WellFormed t R E bytes ↔ bytes.length = 0 := by
  rw [List.length_eq_zero_iff]
  constructor
  · rintro ⟨data, hformed, rfl, rfl⟩
    cases hformed with
    | uninit => rfl
    | empty => rfl
    | explicit => rcases h with h | h <;> cases h
    | sparse => rcases h with h | h <;> cases h
    | full => rcases h with h | h <;> cases h
  · rintro rfl
    obtain rfl | rfl := h
    · exact ⟨.uninit, .uninit, rfl, rfl⟩
    · exact ⟨.empty, .empty, rfl, rfl⟩

/-! ## Bytes from outside -/

lemma headerOf_lt (hllbyte : List UInt8) : (headerOf hllbyte).lenTotal < 2 ^ 17 :=
  Nat.lt_of_le_of_lt Nat.and_le_right (by decide)

/-- What an accepted byte string unpacks to. -/
lemma hllObjectUnpack_some (h : hllObjectUnpack hllbyte = some o) :
    HllType.ofCode (headerOf hllbyte).hlltype = some o.hlltype ∧
      o.log2Registers = (headerOf hllbyte).log2Registers ∧ o.log2Explicitsize = (headerOf hllbyte).log2Explicitsize ∧
      o.lenTotal = (headerOf hllbyte).lenTotal ∧ o.lenUsed = (headerOf hllbyte).lenUsed ∧
      (o.allocated = if o.lenUsed > 0 then o.lenTotal else 0) ∧ o.hllData = dataOf hllbyte ∧
      o.hllData.length = o.lenUsed := by
  unfold hllObjectUnpack at h
  split at h
  · cases h
  split at h
  · cases h
  dsimp only at h
  split at h
  · cases h
  rename_i t ht
  split at h
  · cases h
  cases h
  refine ⟨ht, rfl, rfl, rfl, rfl, rfl, rfl, ?_⟩
  dsimp only
  rw [List.length_take, List.length_drop]
  omega

lemma fits_iff (h : hllObjectUnpack hllbyte = some o) : o.Fits ↔ (headerOf hllbyte).Fits (dataOf hllbyte) := by
  obtain ⟨htype, hR, hE, htotal, hused, hallocated, hdata, hlength⟩ := hllObjectUnpack_some h
  have hsplit : o.Fits ↔ o.log2Registers ≤ 16 ∧ (o.lenUsed ≤ o.allocated ∧ o.lenTotal = o.allocated) ∧
      WellFormed o.hlltype o.log2Registers o.log2Explicitsize o.hllData :=
    ⟨fun hf => ⟨hf.registers, ⟨hf.used_le, hf.total⟩, hf.wellFormed⟩,
      fun hf => ⟨hf.2.1.1, hf.2.1.2, hlength, hf.1, hf.2.2⟩⟩
  -- with data the buffer has the recorded size
  have hbuffer : 0 < o.lenUsed → ((o.lenUsed ≤ o.allocated ∧ o.lenTotal = o.allocated) ↔ o.lenUsed ≤ o.lenTotal) := by
    intro hpos
    rw [hallocated, if_pos hpos]
    exact and_iff_left rfl
  have hpow : 0 < 2 ^ o.log2Registers := Nat.two_pow_pos _
  rw [hsplit]
  unfold HllHeader.Fits
  rw [htype, ← hR, ← hE, ← htotal, ← hused, ← hdata]
  refine and_congr_right fun _ => ?_
  cases hty : o.hlltype with
  | uninit =>
    rw [wellFormed_none (.inl rfl), hlength, hallocated]
    dsimp only
    split <;> omega
  | empty =>
    rw [wellFormed_none (.inr rfl), hlength, hallocated]
    dsimp only
    split <;> omega
  | explicit =>
    rw [wellFormed_explicit, hlength]
    dsimp only
    by_cases hpos : 0 < o.lenUsed
    · rw [hbuffer hpos]
    · exact ⟨fun hf => absurd hf.2.1 hpos, fun hf => absurd hf.2.1 hpos⟩
  | sparse =>
    rw [wellFormed_sparse]
    dsimp only
    by_cases hpos : 0 < o.lenUsed
    · rw [hbuffer hpos]
    · have hnil : o.hllData = [] := List.eq_nil_of_length_eq_zero (by omega)
      have hsum : (o.hllData.map fun byte => (byteRegisters byte).getD 0).sum ≠ 2 ^ o.log2Registers := by
        rw [hnil]
        exact hpow.ne
      exact ⟨fun hf => absurd hf.2.2 hsum, fun hf => absurd hf.2.2 hsum⟩
  | full =>
    rw [wellFormed_full, hlength]
    dsimp only
    by_cases hpos : 0 < o.lenUsed
    · rw [hbuffer hpos]
    · exact ⟨fun hf => absurd hf.2.1 (by omega), fun hf => absurd hf.2.1 (by omega)⟩

/-- An object that fits, with parameters in their ranges, is one that the operations keep. -/
lemma SizedHll.Ok.of_fits {o : SizedHll} {ndvEstimator : UInt64} (h : (o.object ndvEstimator).Fits)
    (hlt : o.lenTotal < 2 ^ 17) (hnone : o.lenUsed = 0 → o.lenTotal = 0) : o.Ok := by
  obtain ⟨data, hformed, htype, hbytes⟩ := h.wellFormed
  obtain rfl : data = o.hll.hllData := HllData.eq_of_bytes htype hbytes
  exact ⟨hformed, h.used_le, hlt, fun hnil => hnone (by rw [SizedHll.lenUsed, hnil]; rfl)⟩

/-- Every operation keeps what an object needs. -/
lemma Reachable.ok {ctz0 : UInt8} {o : SizedHll} (h : Reachable ctz0 o) : o.Ok := by
  induction h with
  | init p => exact ⟨.uninit, Nat.le_refl 0, Nat.two_pow_pos 17, fun _ => rfl⟩
  | empty p => exact ⟨.empty, Nat.le_refl 0, Nat.two_pow_pos 17, fun _ => rfl⟩
  | @unpacked o ndvEstimator hllbyte hunpack hfits =>
    obtain ⟨-, -, -, htotal, -, hallocated, -, -⟩ := hllObjectUnpack_some hunpack
    refine .of_fits ((fits_iff hunpack).mpr hfits) ?_ fun hzero => ?_
    · exact lt_of_eq_of_lt htotal (headerOf_lt hllbyte)
    · have hnone : o.lenTotal = if o.lenUsed > 0 then o.lenTotal else 0 := hallocated
      rwa [hzero, if_neg (Nat.lt_irrefl 0)] at hnone
  | add hashval _ hadd ih =>
    obtain ⟨o', heq, hok⟩ := sizedAdd_ok ctz0 ih hashval
    rw [heq] at hadd
    cases hadd
    exact hok
  | union _ _ h ih ih' => exact (sizedUnion_ok ih ih' h).1
  | merged _ _ h ih ih' => exact (sizedUnion_ok ih ih' h).2

lemma SizedHll.Ok.fits {o : SizedHll} (h : o.Ok) (ndvEstimator : UInt64) : (o.object ndvEstimator).Fits :=
  ⟨h.room.used_le, rfl, rfl, o.hll.hllpara.registers_range.2, _, h.formed, rfl, rfl⟩

/-! ## The histogram -/

/-- `histogram[index]++` -/
def bump (histogram : List Nat) (index : Nat) : Option (List Nat) :=
  if index < histogram.length then some (histogram.modify index (· + 1)) else none

/-- `HllGetHistogram` with the array of `HllCalculateNDV`; `none` also for an index outside of it. -/
def getHistogram (ctz0 : UInt8) (p : HllPara) (data : HllData) : Option (List Nat) :=
  let histogram := List.replicate 64 0
  match data with
  | .uninit => none
  | .empty => some histogram
  | .explicit hashes => do
    let histogram ← (hashes.map (hashValue ctz0 p)).foldlM bump histogram
    return histogram.set 0 (2 ^ p.log2Registers - hashes.length)
  | .sparse bytes =>
    bytes.foldlM (fun histogram byte =>
      match byteType byte with
      | .sparseLongzero => some (histogram.modify 0 (· + byteGetValue byte * 64))
      | .sparseZero => some (histogram.modify 0 (· + byteGetValue byte))
      | .denseValue => bump histogram (byteGetValue byte)
      | .sparseValue => none) histogram
  | .full bytes => (bytes.map UInt8.toNat).foldlM bump histogram

/-- Steps that keep the length and are defined. -/
lemma foldlM_isSome {α : Type} {step : List Nat → α → Option (List Nat)} {xs : List α}
    (h : ∀ x ∈ xs, ∀ histogram : List Nat, histogram.length = n → ∃ histogram', step histogram x = some histogram' ∧
      histogram'.length = n)
    {histogram : List Nat} (hlen : histogram.length = n) : (xs.foldlM step histogram).isSome := by
  induction xs generalizing histogram with
  | nil => rfl
  | cons x xs ih =>
    obtain ⟨hx, hxs⟩ := List.forall_mem_cons.mp h
    obtain ⟨histogram', hstep, hlen'⟩ := hx histogram hlen
    rw [List.foldlM_cons, hstep]
    exact ih hxs hlen'

lemma bump_some {histogram : List Nat} {index : Nat} (hlen : histogram.length = 64) (h : index < 64) :
    ∃ histogram', bump histogram index = some histogram' ∧ histogram'.length = 64 :=
  ⟨_, if_pos (hlen.symm ▸ h), (List.length_modify _ _ _).trans hlen⟩

/-- All registers of formed data are inside the histogram. -/
lemma Formed.getHistogram_isSome (ctz0 : UInt8) {p : HllPara} {data : HllData} (h : Formed p.log2Registers E data)
    (hne : data ≠ .uninit) : (getHistogram ctz0 p data).isSome := by
  have hlen : (List.replicate 64 0).length = 64 := List.length_replicate
  cases h with
  | uninit => exact absurd rfl hne
  | empty => rfl
  | @explicit hashes =>
    have hfold : ((hashes.map (hashValue ctz0 p)).foldlM bump (List.replicate 64 0)).isSome := by
      refine foldlM_isSome (fun x hx histogram hlen => bump_some hlen ?_) hlen
      obtain ⟨hashval, -, rfl⟩ := List.mem_map.mp hx
      exact Nat.lt_of_le_of_lt (hashValue_le ctz0 p hashval) (by decide)
    obtain ⟨histogram, hhistogram⟩ := Option.isSome_iff_exists.mp hfold
    simp only [getHistogram, hhistogram, Option.bind_eq_bind, Option.bind_some, Option.pure_def, Option.isSome_some]
  | @sparse bytes regs hcodes hregs hlt =>
    refine foldlM_isSome (fun byte hbyte histogram hlen => ?_) hlen
    have hvalid := hcodes.valid byte hbyte
    have hrun : ∀ r ∈ byteRun byte, r < 64 := fun r hr => hlt r (by
      rw [← hcodes.expand_eq]
      exact List.mem_flatMap.mpr ⟨byte, hbyte, hr⟩)
    unfold byteRun at hrun
    cases hty : byteType byte with
    | sparseLongzero => exact ⟨_, rfl, (List.length_modify _ _ _).trans hlen⟩
    | sparseZero => exact ⟨_, rfl, (List.length_modify _ _ _).trans hlen⟩
    | denseValue =>
      rw [hty] at hrun
      exact bump_some hlen (hrun _ (List.mem_singleton_self _))
    | sparseValue => exact absurd hty hvalid
  | @full bytes hregs hlt =>
    refine foldlM_isSome (fun x hx histogram hlen => bump_some hlen ?_) hlen
    obtain ⟨byte, hbyte, rfl⟩ := List.mem_map.mp hx
    exact hlt byte hbyte

/-- An object of two hashes. -/
def twoHashBytes : List UInt8 :=
  hllHead ++ toLE 8 (HllHeader.compress ⟨2, 14, 10, 12, 0, 256, 16⟩) ++ toLE 8 0x4000000000000000 ++ toLE 8 7 ++
    toLE 8 5 ++ toLE 8 7 ++ [0]

/-- Registers of the full mode, two bytes of them, for a buffer of one. -/
def shortBufferBytes : List UInt8 :=
  hllHead ++ toLE 8 (HllHeader.compress ⟨4, 14, 10, 12, 0, 1, 2⟩) ++ List.replicate 19 0

end GaussKernel.Cbb
