import Mathlib
import GaussKernel.Lib.Bytes

/-!
# Delta coder of the column store

Model of `DeltaCoder` (`compress_kits.cpp`) and of `DeltaGetBytesNum` and `DeltaCanBeApplied` (`compress_kits.h`) on a
little-endian machine. An `int64` is a `BitVec 64`; its arithmetic wraps. Values are read without their sign.
-/

namespace GaussKernel.CStore
open Lib

/-! ## Number of bytes -/

/-- `masks[i]` -/
def deltaMask (i : Nat) : BitVec 64 := (0xFF : BitVec 64) <<< (8 * i)

def deltaBytesLoop (diff : BitVec 64) : Nat → Nat
  | 0 => 0
  | i + 1 => if diff &&& deltaMask (i + 1) = 0 then deltaBytesLoop diff i else i + 1

def deltaGetBytesNum (mindata maxdata : BitVec 64) : Nat :=
  let diff := maxdata - mindata
  if diff = 0 ∨ diff = 1 then 1 else deltaBytesLoop diff 7 + 1

def deltaCanBeApplied (minVal maxVal : BitVec 64) (valueBytes : Nat) : Option Nat :=
  let dltBytes := deltaGetBytesNum minVal maxVal
  if dltBytes < valueBytes then some dltBytes else none

/-! ## Coder -/

structure DeltaCoder where
  mindata : BitVec 64
  outValSize : Nat

/-- The constructor with `willCompress` -/
def DeltaCoder.compressing (mindata extra : BitVec 64) : DeltaCoder := ⟨mindata, deltaGetBytesNum mindata extra⟩

/-- The constructor without `willCompress` -/
def DeltaCoder.decompressing (mindata : BitVec 64) (extra : Nat) : DeltaCoder := ⟨mindata, extra⟩

namespace DeltaCoder

variable (c : DeltaCoder)

/-- `inpos + inValSize <= insize` in the arithmetic of `int` -/
def moreToRead (inpos inValSize insize : Nat) : Bool :=
  (BitVec.ofNat 32 (inpos + inValSize)).toInt ≤ (insize : Int)

/-- The loop of `doDeltaOperation` from `inpos` on, where `inp` starts; it reads before it tests. -/
def deltaLoop (plusDelta : Bool) (inValSize outValSize insize : Nat) :
    (fuel inpos : Nat) → (inp : List UInt8) → List UInt8
  | 0, _, _ => []
  | fuel + 1, inpos, inp =>
    let rdata := BitVec.ofNat 64 (ofLE (inp.take inValSize))
    let wdata := if plusDelta then rdata + c.mindata else rdata - c.mindata
    let inpos := inpos + inValSize
    toLE outValSize wdata.toNat ++
      if moreToRead inpos inValSize insize then
        deltaLoop plusDelta inValSize outValSize insize fuel inpos (inp.drop inValSize)
      else []

/-- `DoDeltaOperation`. An output size that is not among the cases is an assertion and does nothing. -/
def doDeltaOperation (plusDelta : Bool) (inValSize : Nat) (inbuf : List UInt8) (insize : Nat) : List UInt8 :=
  if 1 ≤ c.outValSize ∧ c.outValSize ≤ 8 then
    c.deltaLoop plusDelta inValSize c.outValSize insize (insize + 1) 0 inbuf
  else []

/-- What `Compress` writes: nothing for values of one byte, which is an assertion. -/
def compress (inbuf : List UInt8) (insize outsize inDataSize : Nat) : List UInt8 :=
  if outsize < c.outValSize * (insize / inDataSize) then []
  else if 2 ≤ inDataSize ∧ inDataSize ≤ 8 then c.doDeltaOperation false inDataSize inbuf insize
  else []

/-- What `Decompress` writes: nothing for values of eight bytes, which is an assertion. -/
def decompress (inbuf : List UInt8) (insize inDataSize : Nat) : List UInt8 :=
  if 1 ≤ inDataSize ∧ inDataSize ≤ 7 then c.doDeltaOperation true inDataSize inbuf insize else []

end DeltaCoder

/-! ## The number of bytes is the least -/

lemma and_shiftLeft_eq (n m k : Nat) : n &&& (m <<< k) = ((n >>> k) &&& m) <<< k := by
  apply Nat.eq_of_testBit_eq
  intro j
  simp only [Nat.testBit_and, Nat.testBit_shiftLeft, Nat.testBit_shiftRight]
  by_cases h : k ≤ j
  · simp [h]
  · simp [h]

/-- A mask cuts out one byte. -/
lemma and_deltaMask_eq_zero_iff (diff : BitVec 64) {i : Nat} (h : i < 8) :
    diff &&& deltaMask i = 0 ↔ diff.toNat / 256 ^ i % 256 = 0 := by
  have hmask : (deltaMask i).toNat = 255 <<< (8 * i) := by
    rw [deltaMask, BitVec.toNat_shiftLeft, Nat.mod_eq_of_lt]
    · rfl
    · have hle : 255 * 2 ^ (8 * i) ≤ 255 * 2 ^ 56 := Nat.mul_le_mul_left _ (Nat.pow_le_pow_right (by decide) (by omega))
      rw [Nat.shiftLeft_eq]
      exact lt_of_le_of_lt hle (by decide)
  have hpow : 2 ^ (8 * i) = 256 ^ i := by rw [Nat.pow_mul]
  rw [← BitVec.toNat_inj, BitVec.toNat_and, hmask, and_shiftLeft_eq, Nat.shiftLeft_eq, Nat.shiftRight_eq_div_pow,
    Nat.and_two_pow_sub_one_eq_mod _ 8, hpow]
  exact Nat.mul_eq_zero.trans (or_iff_left (Nat.pow_pos (by decide)).ne')

lemma deltaBytesLoop_spec (diff : BitVec 64) (n : Nat) (hn : n < 8) (h : diff.toNat < 256 ^ (n + 1)) :
    diff.toNat < 256 ^ (deltaBytesLoop diff n + 1) ∧
      (deltaBytesLoop diff n = 0 ∨ 256 ^ deltaBytesLoop diff n ≤ diff.toNat) := by
  induction n with
  | zero => exact ⟨h, .inl rfl⟩
  | succ n ih =>
    unfold deltaBytesLoop
    have hpow : 256 ^ (n + 1 + 1) = 256 ^ (n + 1) * 256 := Nat.pow_succ ..
    have hquot : diff.toNat / 256 ^ (n + 1) < 256 := Nat.div_lt_of_lt_mul (hpow ▸ h)
    split
    case isTrue h0 =>
      rw [and_deltaMask_eq_zero_iff diff hn, Nat.mod_eq_of_lt hquot,
        Nat.div_eq_zero_iff_lt (Nat.pow_pos (by decide))] at h0
      exact ih (by omega) h0
    case isFalse h0 =>
      rw [and_deltaMask_eq_zero_iff diff hn, Nat.mod_eq_of_lt hquot, Nat.div_eq_zero_iff_lt (Nat.pow_pos (by decide)),
        not_lt] at h0
      exact ⟨h, .inr h0⟩

variable {mindata maxdata : BitVec 64}

/-- The difference of two ordered `int64` as a `uint64` -/
lemma toNat_sub_of_le (h : mindata.toInt ≤ maxdata.toInt) :
    ((maxdata - mindata).toNat : Int) = maxdata.toInt - mindata.toInt := by
  have hmin := mindata.toInt_eq_toNat_cond
  have hmax := maxdata.toInt_eq_toNat_cond
  rw [BitVec.toNat_sub]
  omega

lemma deltaGetBytesNum_isLeast (h : mindata.toInt ≤ maxdata.toInt) :
    IsLeast {k | 1 ≤ k ∧ maxdata.toInt - mindata.toInt < 256 ^ k} (deltaGetBytesNum mindata maxdata) := by
  have hdiff := toNat_sub_of_le h
  have hsmall : ∀ k : Nat, maxdata.toInt - mindata.toInt < 256 ^ k ↔ (maxdata - mindata).toNat < 256 ^ k := by
    intro k
    rw [← hdiff]
    exact_mod_cast Iff.rfl
  simp only [hsmall]
  unfold deltaGetBytesNum
  dsimp only
  split
  case isTrue h01 =>
    refine ⟨⟨le_rfl, ?_⟩, fun k hk => hk.1⟩
    rcases h01 with h01 | h01
    · rw [h01]
      decide
    · rw [h01]
      decide
  case isFalse h01 =>
    obtain ⟨hlt, hge⟩ := deltaBytesLoop_spec (maxdata - mindata) 7 (by decide) (maxdata - mindata).isLt
    refine ⟨⟨Nat.succ_pos _, hlt⟩, fun k hk => ?_⟩
    rcases hge with hge | hge
    · rw [hge]
      exact hk.1
    · exact (Nat.pow_lt_pow_iff_right (by decide)).mp (lt_of_le_of_lt hge hk.2)

/-! ## One value -/

lemma toInt_modEq {w : Nat} (x : BitVec w) : x.toInt ≡ x.toNat [ZMOD 2 ^ w] := by
  rw [BitVec.toInt_eq_toNat_bmod, Int.ModEq]
  exact_mod_cast Int.bmod_emod

lemma toNat_sub_modEq {w : Nat} (x y : BitVec w) : ((x - y).toNat : Int) ≡ x.toInt - y.toInt [ZMOD 2 ^ w] := by
  have h := toInt_modEq (x - y)
  rw [BitVec.toInt_sub] at h
  refine h.symm.trans ?_
  rw [Int.ModEq]
  exact_mod_cast Int.bmod_emod

lemma toNat_add_modEq {w : Nat} (x y : BitVec w) : ((x + y).toNat : Int) ≡ x.toInt + y.toInt [ZMOD 2 ^ w] := by
  have h := toInt_modEq (x + y)
  rw [BitVec.toInt_add] at h
  refine h.symm.trans ?_
  rw [Int.ModEq]
  exact_mod_cast Int.bmod_emod

lemma ofNat_toInt_modEq (w n : Nat) : (BitVec.ofNat w n).toInt ≡ n [ZMOD 2 ^ w] := by
  refine (toInt_modEq _).trans ?_
  rw [BitVec.toNat_ofNat, Int.ModEq]
  push_cast
  exact Int.emod_emod_of_dvd _ dvd_rfl

/-- A value of `size` bytes comes back from the low `bytes` bytes of its difference to the least value. -/
lemma delta_value {size bytes : Nat} {v : BitVec (8 * size)} (hsize : size ≤ 8) (hmin : mindata.toInt ≤ v.toInt)
    (hlt : v.toInt - mindata.toInt < 256 ^ bytes) :
    (BitVec.ofNat 64 ((BitVec.ofNat 64 v.toNat - mindata).toNat % 256 ^ bytes) + mindata).toNat % 256 ^ size =
      v.toNat := by
  have hpow : (2 : Int) ^ (8 * size) = 256 ^ size := by rw [pow_mul]; rfl
  have hdvd : (256 : Int) ^ size ∣ 2 ^ 64 := by
    rw [← hpow]
    exact pow_dvd_pow 2 (by omega)
  have hv : v.toInt ≡ v.toNat [ZMOD 256 ^ size] := hpow ▸ toInt_modEq v
  have hw : ((BitVec.ofNat 64 v.toNat - mindata).toNat : Int) ≡ v.toInt - mindata.toInt [ZMOD 256 ^ size] := by
    refine ((toNat_sub_modEq _ _).of_dvd hdvd).trans (Int.ModEq.sub ?_ rfl)
    exact ((ofNat_toInt_modEq 64 v.toNat).of_dvd hdvd).trans hv.symm
  generalize (BitVec.ofNat 64 v.toNat - mindata).toNat = w at hw
  have hr : ((w % 256 ^ bytes : Nat) : Int) ≡ v.toInt - mindata.toInt [ZMOD 256 ^ size] := by
    push_cast
    rcases Nat.le_total size bytes with hle | hle
    · exact ((Int.mod_modEq (w : Int) (256 ^ bytes)).of_dvd (pow_dvd_pow 256 hle)).trans hw
    · -- the difference itself fits its bytes
      have hexact := (hw.of_dvd (pow_dvd_pow 256 hle)).eq
      rw [Int.emod_eq_of_lt (by omega) hlt] at hexact
      rw [hexact]
  have hback := ((toNat_add_modEq (BitVec.ofNat 64 (w % 256 ^ bytes)) mindata).of_dvd hdvd).trans
    (((ofNat_toInt_modEq 64 (w % 256 ^ bytes)).of_dvd hdvd).add_right mindata.toInt)
  have hsum := (hback.trans (hr.add_right mindata.toInt)).trans ((Int.sub_add_cancel v.toInt mindata.toInt).symm ▸ hv)
  have hnat := (Int.natCast_modEq_iff (n := 256 ^ size)).mp (by exact_mod_cast hsum)
  have hlt' := v.isLt
  rw [Nat.pow_mul] at hlt'
  exact Eq.trans hnat (Nat.mod_eq_of_lt hlt')

/-! ## The loop -/

section loop
variable (c : DeltaCoder) {inValSize insize : Nat}

/-- What the loop writes of a value that it has read -/
def DeltaCoder.shifted (plusDelta : Bool) (v : Nat) : BitVec 64 :=
  if plusDelta then BitVec.ofNat 64 v + c.mindata else BitVec.ofNat 64 v - c.mindata

lemma moreToRead_iff {inpos : Nat} (h : inpos + inValSize < 2 ^ 31) :
    DeltaCoder.moreToRead inpos inValSize insize = true ↔ inpos + inValSize ≤ insize := by
  have hint : (BitVec.ofNat 32 (inpos + inValSize)).toInt = (inpos + inValSize : Nat) := by
    rw [BitVec.toInt_eq_toNat_of_lt (by rw [BitVec.toNat_ofNat]; omega), BitVec.toNat_ofNat,
      Nat.mod_eq_of_lt (by omega)]
  rw [DeltaCoder.moreToRead, decide_eq_true_iff, hint]
  exact_mod_cast Iff.rfl

lemma deltaLoop_eq (plusDelta : Bool) (outValSize : Nat) {vs : List Nat} (hvs : ∀ v ∈ vs, v < 256 ^ inValSize)
    (hne : vs ≠ []) (hpos : 0 < inValSize) {fuel inpos : Nat} (hfuel : vs.length ≤ fuel)
    (hsize : inpos + vs.length * inValSize = insize) (hint : insize + inValSize < 2 ^ 31) :
    c.deltaLoop plusDelta inValSize outValSize insize fuel inpos (vs.flatMap (toLE inValSize)) =
      vs.flatMap fun v => toLE outValSize (c.shifted plusDelta v).toNat := by
  induction vs generalizing fuel inpos with
  | nil => exact absurd rfl hne
  | cons v vs ih =>
    obtain ⟨fuel, rfl⟩ : ∃ k, fuel = k + 1 := ⟨fuel - 1, by simp at hfuel; omega⟩
    have hread : ofLE (((v :: vs).flatMap (toLE inValSize)).take inValSize) = v := by
      rw [List.flatMap_cons, List.take_left' (toLE_length _ _), ofLE_toLE_of_lt (hvs v (by simp))]
    have hrest : ((v :: vs).flatMap (toLE inValSize)).drop inValSize = vs.flatMap (toLE inValSize) := by
      rw [List.flatMap_cons, List.drop_left' (toLE_length _ _)]
    rw [List.length_cons, Nat.succ_mul] at hsize
    rw [DeltaCoder.deltaLoop, hread, hrest, List.flatMap_cons]
    refine congrArg _ ?_
    cases vs with
    | nil =>
      rw [List.length_nil, Nat.zero_mul] at hsize
      rw [if_neg fun h => ?_]
      · rfl
      · have := (moreToRead_iff (by omega)).mp h
        omega
    | cons v' vs =>
      rw [List.length_cons, Nat.succ_mul] at hsize
      rw [if_pos ((moreToRead_iff (by omega)).mpr (by omega))]
      refine ih (fun b hb => hvs b (List.mem_cons_of_mem v hb)) (by simp) (by simpa using hfuel) ?_
      rw [List.length_cons, Nat.succ_mul]
      omega

end loop

lemma doDeltaOperation_eq (c : DeltaCoder) (plusDelta : Bool) {inValSize : Nat} (hout : 1 ≤ c.outValSize)
    (hout' : c.outValSize ≤ 8) (hpos : 0 < inValSize) (vs : List Nat) (hvs : ∀ v ∈ vs, v < 256 ^ inValSize)
    (hne : vs ≠ []) (hint : (vs.length + 1) * inValSize < 2 ^ 31) :
    c.doDeltaOperation plusDelta inValSize (vs.flatMap (toLE inValSize)) (vs.length * inValSize) =
      vs.flatMap fun v => toLE c.outValSize (c.shifted plusDelta v).toNat := by
  rw [DeltaCoder.doDeltaOperation, if_pos ⟨hout, hout'⟩]
  refine deltaLoop_eq c plusDelta _ hvs hne hpos ?_ (Nat.zero_add _) (by rwa [Nat.succ_mul] at hint)
  exact le_trans (Nat.le_mul_of_pos_right _ hpos) (Nat.le_succ _)

/-! ## Round trip -/

/-- Only the low bytes are written. -/
lemma toLE_mod (w n : Nat) : toLE w (n % 256 ^ w) = toLE w n := by
  rw [← ofLE_toLE, toLE_ofLE (toLE_length w n)]

/-- The bytes of a vector of values -/
def packedValues (size : Nat) (vals : List (BitVec (8 * size))) : List UInt8 :=
  (vals.map BitVec.toNat).flatMap (toLE size)

lemma delta_compress_eq {size outsize : Nat} {vals : List (BitVec (8 * size))}
    (h1 : 1 ≤ deltaGetBytesNum mindata maxdata) (h7 : deltaGetBytesNum mindata maxdata ≤ 7) (h2 : 2 ≤ size)
    (h8 : size ≤ 8) (hne : vals ≠ []) (hint : (vals.length + 1) * size < 2 ^ 31)
    (hout : deltaGetBytesNum mindata maxdata * vals.length ≤ outsize) :
    (DeltaCoder.compressing mindata maxdata).compress (packedValues size vals) (vals.length * size) outsize size =
      (vals.map fun v => (BitVec.ofNat 64 v.toNat - mindata).toNat % 256 ^ deltaGetBytesNum mindata maxdata).flatMap
        (toLE (deltaGetBytesNum mindata maxdata)) := by
  have hdiv : vals.length * size / size = vals.length := Nat.mul_div_cancel _ (by omega)
  have hroom : ¬ outsize < (DeltaCoder.compressing mindata maxdata).outValSize * vals.length := Nat.not_lt.mpr hout
  rw [DeltaCoder.compress, hdiv, if_neg hroom, if_pos ⟨h2, h8⟩]
  have hloop := doDeltaOperation_eq (DeltaCoder.compressing mindata maxdata) false h1 (by exact le_trans h7 (by decide))
    (show 0 < size by omega) (vals.map BitVec.toNat)
    (fun v hv => by
      obtain ⟨x, -, rfl⟩ := List.mem_map.mp hv
      rw [show 256 ^ size = 2 ^ (8 * size) by rw [Nat.pow_mul]]
      exact x.isLt)
    (by simpa using hne) (by rwa [List.length_map])
  rw [List.length_map] at hloop
  rw [packedValues, hloop, List.flatMap_map, List.flatMap_map]
  exact List.flatMap_congr fun v _ => (toLE_mod _ _).symm

lemma delta_decompress_compress {size outsize : Nat} {vals : List (BitVec (8 * size))}
    (h : mindata.toInt ≤ maxdata.toInt) (h2 : 2 ≤ size) (h8 : size ≤ 8) (h7 : deltaGetBytesNum mindata maxdata ≤ 7)
    (hvals : ∀ v ∈ vals, mindata.toInt ≤ v.toInt ∧ v.toInt ≤ maxdata.toInt) (hne : vals ≠ [])
    (hint : (vals.length + 1) * size < 2 ^ 31) (hint' : (vals.length + 1) * deltaGetBytesNum mindata maxdata < 2 ^ 31)
    (hout : deltaGetBytesNum mindata maxdata * vals.length ≤ outsize) :
    (DeltaCoder.decompressing mindata size).decompress
      ((DeltaCoder.compressing mindata maxdata).compress (packedValues size vals) (vals.length * size) outsize size)
      (vals.length * deltaGetBytesNum mindata maxdata) (deltaGetBytesNum mindata maxdata) = packedValues size vals := by
  obtain ⟨⟨h1, hbytes⟩, -⟩ := deltaGetBytesNum_isLeast h
  rw [delta_compress_eq h1 h7 h2 h8 hne hint hout, DeltaCoder.decompress, if_pos ⟨h1, h7⟩]
  have hloop := doDeltaOperation_eq (DeltaCoder.decompressing mindata size) true (show 1 ≤ size by omega) h8 h1
    (vals.map fun v =>
      (BitVec.ofNat 64 v.toNat - mindata).toNat % 256 ^ deltaGetBytesNum mindata maxdata)
    (fun v hv => by
      obtain ⟨x, -, rfl⟩ := List.mem_map.mp hv
      exact Nat.mod_lt _ (Nat.pow_pos (by decide)))
    (by simpa using hne) (by rwa [List.length_map])
  rw [List.length_map] at hloop
  rw [hloop, packedValues, List.flatMap_map, List.flatMap_map]
  refine List.flatMap_congr fun v hv => ?_
  obtain ⟨hmin, hmax⟩ := hvals v hv
  have hback := delta_value h8 hmin (lt_of_le_of_lt (Int.sub_le_sub_right hmax _) hbytes)
  exact (toLE_mod size _).symm.trans (congrArg (toLE size) hback)

/-- What `DeltaCoder::Compress` writes with at most 7 bytes for a difference, `DeltaCoder::Decompress` restores. -/
theorem delta_round_trip {mindata maxdata : BitVec 64} (h : mindata.toInt ≤ maxdata.toInt) :
    IsLeast {k | 1 ≤ k ∧ maxdata.toInt - mindata.toInt < 256 ^ k} (deltaGetBytesNum mindata maxdata) ∧
    (∀ size bytes, deltaCanBeApplied mindata maxdata size = some bytes ↔
      bytes = deltaGetBytesNum mindata maxdata ∧ bytes < size) ∧
    ∀ size, 2 ≤ size → size ≤ 8 → deltaGetBytesNum mindata maxdata ≤ 7 → ∀ vals : List (BitVec (8 * size)), vals ≠ [] →
      (∀ v ∈ vals, mindata.toInt ≤ v.toInt ∧ v.toInt ≤ maxdata.toInt) →
      (vals.length + 1) * size < 2 ^ 31 → (vals.length + 1) * deltaGetBytesNum mindata maxdata < 2 ^ 31 →
      ∀ outsize ≥ deltaGetBytesNum mindata maxdata * vals.length,
        (DeltaCoder.decompressing mindata size).decompress
          ((DeltaCoder.compressing mindata maxdata).compress (packedValues size vals) (vals.length * size) outsize size)
          (vals.length * deltaGetBytesNum mindata maxdata) (deltaGetBytesNum mindata maxdata) =
            packedValues size vals := by
  refine ⟨deltaGetBytesNum_isLeast h, fun size bytes => ?_, ?_⟩
  · unfold deltaCanBeApplied
    dsimp only
    split
    case isTrue hlt =>
      rw [Option.some_inj]
      exact ⟨fun heq => ⟨heq.symm, heq ▸ hlt⟩, fun heq => heq.1.symm⟩
    case isFalse hge =>
      constructor
      · exact nofun
      · rintro ⟨rfl, hlt⟩
        exact absurd hlt hge
  · intro size h2 h8 h7 vals hne hvals hint hint' outsize hout
    exact delta_decompress_compress h h2 h8 h7 hvals hne hint hint' hout

theorem delta_round_trip_shorts :
    IsLeast {k | 1 ≤ k ∧ (BitVec.ofInt 64 200).toInt - (BitVec.ofInt 64 (-100)).toInt < 256 ^ k}
      (deltaGetBytesNum (BitVec.ofInt 64 (-100)) (BitVec.ofInt 64 200)) ∧
    (DeltaCoder.decompressing (BitVec.ofInt 64 (-100)) 4).decompress
      ((DeltaCoder.compressing (BitVec.ofInt 64 (-100)) (BitVec.ofInt 64 200)).compress
        (packedValues 4 [BitVec.ofInt 32 (-100), 7, 200]) 12 6 4) 6 2 =
      packedValues 4 [BitVec.ofInt 32 (-100), 7, 200] := by
  have h := delta_round_trip (show (BitVec.ofInt 64 (-100)).toInt ≤ (BitVec.ofInt 64 200).toInt by decide)
  have hvals : ∀ v ∈ ([BitVec.ofInt 32 (-100), 7, 200] : List (BitVec (8 * 4))),
      (BitVec.ofInt 64 (-100)).toInt ≤ v.toInt ∧ v.toInt ≤ (BitVec.ofInt 64 200).toInt := by
    intro v hv
    simp only [List.mem_cons, List.not_mem_nil, or_false] at hv
    rcases hv with rfl | rfl | rfl
    · decide
    · decide
    · decide
  exact ⟨h.1, h.2.2 4 (by decide) (by decide) (by decide) [BitVec.ofInt 32 (-100), 7, 200] (by decide) hvals
    (by decide) (by decide) 6 (by decide)⟩

/-- Values of one byte are not compressed, differences of eight bytes not restored. -/
theorem delta_sizes_left_out :
    (DeltaCoder.compressing 0 5).compress (packedValues 1 [3]) 1 1 1 = [] ∧
    (DeltaCoder.decompressing 0 1).decompress
      ((DeltaCoder.compressing 0 5).compress (packedValues 1 [3]) 1 1 1) 1 1 ≠ packedValues 1 [3] ∧
    deltaGetBytesNum (BitVec.intMin 64) (BitVec.intMax 64) = 8 ∧
    (DeltaCoder.decompressing (BitVec.intMin 64) 8).decompress
      ((DeltaCoder.compressing (BitVec.intMin 64) (BitVec.intMax 64)).compress (packedValues 8 [7]) 8 8 8) 8 8 =
        [] := by
  decide +kernel

end GaussKernel.CStore
