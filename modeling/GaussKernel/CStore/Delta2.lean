import GaussKernel.Lib.Bytes

/-!
# Delta-of-delta codec

Model of `Delta2Codec` (`time_series_compress.cpp`) for 8-byte values: `find_key`, `write_value`, `read_value`,
`compress` and `decompress`. An `int64` is a `BitVec 64`; its arithmetic wraps.

The first value is written plainly, the second as the difference to the first, every other one as the
difference of differences. Such a difference is a key byte and the bytes of its magnitude; the key holds the number
of bytes and the sign, and the key 8 announces all 8 bytes of the value.
-/

namespace GaussKernel.CStore

open Lib

/-- `DELTA2_KEY_MAX`. -/
abbrev delta2KeyMax : Nat := 8

/-- `Delta2KeyMap` without `key_suffix`, which nothing reads. -/
structure Delta2KeyMap where
  min : Nat
  max : Nat
  byteLen : Nat
  deriving DecidableEq, Repr, Inhabited

/-- `g_keyMap`. -/
def keyMap : List Delta2KeyMap :=
  [⟨0, 0, 0⟩, ⟨0, 0xFF, 1⟩, ⟨0xFF, 0xFFFF, 2⟩, ⟨0xFFFF, 0xFFFFFF, 3⟩, ⟨0xFFFFFF, 0xFFFFFFFF, 4⟩,
    ⟨0xFFFFFFFF, 0xFFFFFFFFFF, 5⟩, ⟨0xFFFFFFFFFF, 0xFFFFFFFFFFFF, 6⟩, ⟨0xFFFFFFFFFFFF, 0xFFFFFFFFFFFFFF, 7⟩,
    ⟨0xFFFFFFFFFFFFFF, 0x7FFFFFFFFFFFFFFF, 8⟩]

def keyEntry (index : Nat) : Delta2KeyMap := keyMap.getD index default

/-- The loop of `find_key`; `none` when `fuel` rounds do not end it. The index is an `unsigned short`, so that one
    below 0 is above the table. -/
def findKeyLoop (value : BitVec 64) (keySign : Nat) : Nat → Nat → Option Nat
  | 0, _ => none
  | fuel + 1, index =>
    if index < keyMap.length - 1 then
      let e := keyEntry index
      if (value.toInt ≤ e.max ∧ value.toInt > e.min) ∨ ((-value).toInt ≤ e.max ∧ (-value).toInt > e.min) then
        some (index + keySign)
      else if value.toInt > e.max ∨ (-value).toInt > e.max then findKeyLoop value keySign fuel (index + 1)
      else findKeyLoop value keySign fuel ((index + 2 ^ 16 - 1) % 2 ^ 16)
    else some delta2KeyMax

/-- `find_key`. -/
def findKey (value : BitVec 64) : Option Nat :=
  findKeyLoop value (if value.toInt ≤ 0 then 0 else delta2KeyMax) 9 (delta2KeyMax / 2)

/-- `write_value`. -/
def writeValue (value : BitVec 64) : Option (List UInt8) :=
  if value = 0 then some [0]
  else do
    let key ← findKey value
    if key = delta2KeyMax then
      return UInt8.ofNat key :: toLE (keyEntry delta2KeyMax).byteLen value.toNat
    else
      let keyIdx := key &&& 7
      let tmp := if key &&& 8 = 0 then -value else value
      return UInt8.ofNat key :: toLE (keyEntry keyIdx).byteLen ((keyEntry keyIdx).max &&& tmp.toNat)

/-- `read_value`: the value and the input behind it. -/
def readValue (inp : List UInt8) : BitVec 64 × List UInt8 :=
  let key := ofLE (inp.take 1)
  let inp := inp.drop 1
  if key = 0 then (0, inp)
  else if key = delta2KeyMax then (BitVec.ofNat 64 (ofLE (inp.take 8)), inp.drop 8)
  else
    let bytes := key &&& 7
    let tmp := BitVec.ofNat 64 (ofLE (inp.take bytes))
    (if key &&& 8 = 0 then -tmp else tmp, inp.drop bytes)

/-- The loop of `compress` over the values that have not been read. -/
def delta2CompressLoop : Nat → BitVec 64 → BitVec 64 → List (BitVec 64) → Option (List UInt8)
  | _, _, _, [] => some []
  | 0, _, preDelta, x :: xs => do
    let rest ← delta2CompressLoop 1 x preDelta xs
    return toLE 8 x.toNat ++ rest
  | 1, preData, _, x :: xs => do
    let writeData := x - preData
    let w ← writeValue writeData
    let rest ← delta2CompressLoop 2 x writeData xs
    return w ++ rest
  | count + 2, preData, preDelta, x :: xs => do
    let writeData := (x - preData) - preDelta
    let w ← writeValue writeData
    let rest ← delta2CompressLoop (count + 3) x (preDelta + writeData) xs
    return w ++ rest

/-- `Delta2Codec::compress` with 8-byte values. -/
def delta2Compress (inbuf : List UInt8) : Option (List UInt8) :=
  delta2CompressLoop 0 0 0 ((wordsLE 8 inbuf).map (BitVec.ofNat 64))

/-- The loop of `decompress`; `none` when `fuel` rounds do not end it. -/
def delta2DecompressLoop : Nat → Nat → BitVec 64 → BitVec 64 → List UInt8 → Option (List UInt8)
  | 0, _, _, _, _ => none
  | fuel + 1, count, writeData, preDelta, inp =>
    let r := match count with
      | 0 => (BitVec.ofNat 64 (ofLE (inp.take 8)), preDelta, inp.drop 8)
      | 1 =>
        let v := readValue inp
        (writeData + v.1, v.1, v.2)
      | _ + 2 =>
        let v := readValue inp
        (writeData + (preDelta + v.1), preDelta + v.1, v.2)
    if 1 ≤ r.2.2.length then
      (toLE 8 r.1.toNat ++ ·) <$> delta2DecompressLoop fuel (count + 1) r.1 r.2.1 r.2.2
    else some (toLE 8 r.1.toNat)

/-- `Delta2Codec::decompress` with 8-byte values. -/
def delta2Decompress (inbuf : List UInt8) : Option (List UInt8) :=
  delta2DecompressLoop inbuf.length 0 0 0 inbuf

/-! ## Keys -/

lemma toInt_neg_of_ne {v : BitVec 64} (h : v.toInt ≠ -2 ^ 63) : (-v).toInt = -v.toInt := by
  have hlt := BitVec.toInt_lt (x := v)
  have hle := BitVec.le_toInt v
  rw [BitVec.toInt_neg, Int.bmod]
  norm_num at *
  omega

/-- The least value is its own negation. -/
lemma toInt_neg_of_min {v : BitVec 64} (h : v.toInt = -2 ^ 63) : (-v).toInt = -2 ^ 63 := by
  have hv : v = BitVec.intMin 64 := BitVec.toInt_inj.mp (by rw [h]; decide)
  rw [hv]
  decide

/-- The magnitude that the comparisons of `find_key` see: `-value` is negative for the least value, which no entry
    of the table covers. -/
def keyMagnitude (v : BitVec 64) : Nat := if v.toInt = -2 ^ 63 then 0 else v.toInt.natAbs

lemma key_found_iff (v : BitVec 64) (e : Delta2KeyMap) :
    (v.toInt ≤ e.max ∧ v.toInt > e.min) ∨ ((-v).toInt ≤ e.max ∧ (-v).toInt > e.min) ↔
      e.min < keyMagnitude v ∧ keyMagnitude v ≤ e.max := by
  by_cases h : v.toInt = -2 ^ 63
  · simp only [keyMagnitude, h, toInt_neg_of_min h, if_true]
    omega
  · rw [toInt_neg_of_ne h, keyMagnitude, if_neg h]
    omega

lemma key_above_iff (v : BitVec 64) (e : Delta2KeyMap) :
    v.toInt > e.max ∨ (-v).toInt > e.max ↔ e.max < keyMagnitude v := by
  by_cases h : v.toInt = -2 ^ 63
  · simp only [keyMagnitude, h, toInt_neg_of_min h, if_true]
    omega
  · rw [toInt_neg_of_ne h, keyMagnitude, if_neg h]
    omega

variable {i k count : Nat}

lemma keyEntry_max (h : i ≤ 7) : (keyEntry i).max = 256 ^ i - 1 := by
  interval_cases i <;> rfl

lemma keyEntry_min (h : i ≤ 7) : (keyEntry i).min = 256 ^ (i - 1) - 1 := by
  interval_cases i <;> rfl

lemma keyMap_length : keyMap.length - 1 = 8 := rfl

section Search

variable {v : BitVec 64} {sign : Nat} {fuel : Nat}

lemma findKeyLoop_end {index : Nat} (h : 8 ≤ index) : findKeyLoop v sign (fuel + 1) index = some delta2KeyMax := by
  rw [findKeyLoop, keyMap_length, if_neg (by omega)]

lemma findKeyLoop_found {k : Nat} (hk : k ≤ 7) (hmin : 256 ^ (k - 1) ≤ keyMagnitude v)
    (hmax : keyMagnitude v < 256 ^ k) :
    findKeyLoop v sign (fuel + 1) k = some (k + sign) := by
  have hpos : 0 < 256 ^ (k - 1) := by positivity
  rw [findKeyLoop, keyMap_length, if_pos (by omega)]
  refine if_pos ((key_found_iff v _).mpr ?_)
  rw [keyEntry_min hk, keyEntry_max hk]
  omega

lemma findKeyLoop_up {i : Nat} (hi : i ≤ 7) (h : 256 ^ i ≤ keyMagnitude v) :
    findKeyLoop v sign (fuel + 1) i = findKeyLoop v sign fuel (i + 1) := by
  have hpos : 0 < 256 ^ i := by positivity
  have hmax := keyEntry_max hi
  rw [findKeyLoop, keyMap_length, if_pos (by omega)]
  dsimp only
  rw [if_neg (fun hc => ?_), if_pos ((key_above_iff v _).mpr (by omega))]
  have := ((key_found_iff v _).mp hc).2
  omega

lemma findKeyLoop_down {i : Nat} (hi : i ≤ 7) (h : keyMagnitude v < 256 ^ (i - 1)) :
    findKeyLoop v sign (fuel + 1) i = findKeyLoop v sign fuel ((i + 2 ^ 16 - 1) % 2 ^ 16) := by
  have hmin := keyEntry_min hi
  have hmax := keyEntry_max hi
  have hle : 256 ^ (i - 1) ≤ 256 ^ i := Nat.pow_le_pow_right (by norm_num) (by omega)
  rw [findKeyLoop, keyMap_length, if_pos (by omega)]
  dsimp only
  rw [if_neg (fun hc => ?_), if_neg (fun hc => ?_)]
  · have := (key_above_iff v _).mp hc
    omega
  · have := ((key_found_iff v _).mp hc).1
    omega

end Search

/-- Going up from index `i` to index `k`. -/
lemma findKeyLoop_climb {v : BitVec 64} {sign : Nat} (hk : k ≤ 7) (hmin : 256 ^ (k - 1) ≤ keyMagnitude v)
    (hmax : keyMagnitude v < 256 ^ k) (hi : i ≤ k) {fuel : Nat} (hfuel : k - i < fuel) :
    findKeyLoop v sign fuel i = some (k + sign) := by
  obtain ⟨fuel, rfl⟩ := Nat.exists_eq_succ_of_ne_zero (by omega : fuel ≠ 0)
  induction h : k - i generalizing i fuel with
  | zero =>
    obtain rfl : i = k := by omega
    exact findKeyLoop_found hk hmin hmax
  | succ d ih =>
    have hle : 256 ^ i ≤ 256 ^ (k - 1) := Nat.pow_le_pow_right (by norm_num) (by omega)
    rw [findKeyLoop_up (by omega) (by omega)]
    obtain ⟨fuel, rfl⟩ := Nat.exists_eq_succ_of_ne_zero (by omega : fuel ≠ 0)
    exact ih (by omega) fuel (by omega) (by omega)

/-- Going down from index `i` to index `k`. -/
lemma findKeyLoop_descend {v : BitVec 64} {sign : Nat} (hk : 1 ≤ k) (hmin : 256 ^ (k - 1) ≤ keyMagnitude v)
    (hmax : keyMagnitude v < 256 ^ k) (hi : k ≤ i) (hi7 : i ≤ 7) {fuel : Nat} (hfuel : i - k < fuel) :
    findKeyLoop v sign fuel i = some (k + sign) := by
  obtain ⟨fuel, rfl⟩ := Nat.exists_eq_succ_of_ne_zero (by omega : fuel ≠ 0)
  induction h : i - k generalizing i fuel with
  | zero =>
    obtain rfl : i = k := by omega
    exact findKeyLoop_found hi7 hmin hmax
  | succ d ih =>
    have hle : 256 ^ k ≤ 256 ^ (i - 1) := Nat.pow_le_pow_right (by norm_num) (by omega)
    rw [findKeyLoop_down hi7 (by omega)]
    have hprev : (i + 2 ^ 16 - 1) % 2 ^ 16 = i - 1 := by omega
    rw [hprev]
    obtain ⟨fuel, rfl⟩ := Nat.exists_eq_succ_of_ne_zero (by omega : fuel ≠ 0)
    exact ih (by omega) (by omega) fuel (by omega) (by omega)

/-- `find_key` ends, and the key that it returns has room for the magnitude: 8 for the values whose magnitude
    needs more than 7 bytes, otherwise the number of bytes, plus 8 for a positive value. -/
lemma findKey_spec (v : BitVec 64) :
    findKey v = some delta2KeyMax ∨
      ∃ k, 1 ≤ k ∧ k ≤ 7 ∧ v.toInt.natAbs < 256 ^ k ∧ v.toInt ≠ 0 ∧
        findKey v = some (if v.toInt ≤ 0 then k else k + 8) := by
  rw [findKey, show delta2KeyMax / 2 = 4 from rfl]
  generalize hs : (if v.toInt ≤ 0 then 0 else delta2KeyMax) = sign
  by_cases h0 : keyMagnitude v = 0
  · -- the index runs down past the start of the table
    left
    rw [findKeyLoop_down (by omega) (by rw [h0]; norm_num), findKeyLoop_down (by omega) (by rw [h0]; norm_num),
      findKeyLoop_down (by omega) (by rw [h0]; norm_num), findKeyLoop_down (by omega) (by rw [h0]; norm_num),
      findKeyLoop_down (by omega) (by rw [h0]; norm_num), findKeyLoop_end (by omega)]
  by_cases h7 : 256 ^ 7 ≤ keyMagnitude v
  · -- the index runs up to the escape entry
    left
    rw [findKeyLoop_up (by omega) (by omega), findKeyLoop_up (by omega) (by omega),
      findKeyLoop_up (by omega) (by omega), findKeyLoop_up (by omega) (by omega), findKeyLoop_end (by omega)]
  right
  obtain ⟨k, hk1, hk7, hmin, hmax⟩ : ∃ k, 1 ≤ k ∧ k ≤ 7 ∧ 256 ^ (k - 1) ≤ keyMagnitude v ∧
      keyMagnitude v < 256 ^ k := by
    refine ⟨Nat.log 256 (keyMagnitude v) + 1, by omega, ?_, Nat.pow_log_le_self _ h0, ?_⟩
    · exact (Nat.log_lt_iff_lt_pow (by norm_num) h0).mpr (by omega)
    · exact Nat.lt_pow_succ_log_self (by norm_num) _
  have hmag : keyMagnitude v = v.toInt.natAbs := by
    rw [keyMagnitude] at h0 ⊢
    split at h0
    · exact absurd rfl h0
    next h => rw [if_neg h]
  refine ⟨k, hk1, hk7, by omega, by omega, ?_⟩
  have hkey : findKeyLoop v sign 9 4 = some (k + sign) := by
    by_cases h4 : 4 ≤ k
    · exact findKeyLoop_climb hk7 hmin hmax h4 (by omega)
    · exact findKeyLoop_descend hk1 hmin hmax (by omega) (by omega) (by omega)
  rw [hkey, ← hs]
  split <;> rfl

/-! ## Single differences -/

/-- The bytes that follow a key. -/
def keyBytes (key : Nat) : Nat := (keyEntry (if key = delta2KeyMax then delta2KeyMax else key &&& 7)).byteLen

lemma keyEntry_byteLen (h : i ≤ 8) : (keyEntry i).byteLen = i := by
  interval_cases i <;> rfl

/-- The key of a value holds its magnitude. -/
lemma findKey_holds (v : BitVec 64) :
    ∃ key, findKey v = some key ∧ v.toInt.natAbs < 256 ^ keyBytes key := by
  rcases findKey_spec v with h | ⟨k, hk1, hk7, hmag, _, h⟩
  · have hlt := BitVec.toInt_lt (x := v)
    have hle := BitVec.le_toInt v
    refine ⟨_, h, ?_⟩
    change v.toInt.natAbs < 256 ^ 8
    norm_num at hlt hle ⊢
    omega
  · refine ⟨_, h, ?_⟩
    have hbytes : keyBytes (if v.toInt ≤ 0 then k else k + 8) = k := by
      split <;> interval_cases k <;> rfl
    rwa [hbytes]

lemma readValue_cons (b : UInt8) (inp : List UInt8) :
    readValue (b :: inp) = if b.toNat = 0 then (0, inp)
      else if b.toNat = delta2KeyMax then (BitVec.ofNat 64 (ofLE (inp.take 8)), inp.drop 8)
      else (if b.toNat &&& 8 = 0 then -BitVec.ofNat 64 (ofLE (inp.take (b.toNat &&& 7)))
        else BitVec.ofNat 64 (ofLE (inp.take (b.toNat &&& 7))), inp.drop (b.toNat &&& 7)) := by
  have hkey : ofLE ((b :: inp).take 1) = b.toNat := by simp [ofLE]
  rw [readValue, hkey, List.drop_one, List.tail_cons]

/-- A magnitude that fits its bytes is not changed by the mask and is read back. -/
lemma magnitude_bytes {m : Nat} (hk : k ≤ 7) (hm : m < 256 ^ k) :
    toLE (keyEntry k).byteLen ((keyEntry k).max &&& m) = toLE k m ∧ ofLE (toLE k m) = m := by
  have hmask : (keyEntry k).max &&& m = m := by
    have hpow : 256 ^ k = 2 ^ (8 * k) := by
      rw [Nat.pow_mul]
    rw [keyEntry_max hk, hpow, Nat.and_comm, Nat.and_two_pow_sub_one_eq_mod, Nat.mod_eq_of_lt (by rwa [← hpow])]
  rw [keyEntry_byteLen (by omega), hmask]
  exact ⟨rfl, ofLE_toLE_of_lt hm⟩

lemma toNat_of_toInt_pos {v : BitVec 64} (h : 0 < v.toInt) : v.toNat = v.toInt.natAbs := by
  have hcond := BitVec.toInt_eq_toNat_cond v
  have hlt := v.isLt
  split at hcond <;> omega

/-- Reading `k` bytes of magnitude behind a key with the sign bit clear or set. -/
lemma readValue_key {m : Nat} (hk1 : 1 ≤ k) (hk7 : k ≤ 7) (hm : m < 256 ^ k) (rest : List UInt8) :
    readValue (UInt8.ofNat k :: toLE k m ++ rest) = (-BitVec.ofNat 64 m, rest) ∧
      readValue (UInt8.ofNat (k + 8) :: toLE k m ++ rest) = (BitVec.ofNat 64 m, rest) := by
  have hr : ofLE (toLE k m) = m := ofLE_toLE_of_lt hm
  have htake : (toLE k m ++ rest).take k = toLE k m := List.take_left' (by simp)
  have hdrop : (toLE k m ++ rest).drop k = rest := List.drop_left' (by simp)
  have hneg : (UInt8.ofNat k).toNat = k ∧ k &&& 8 = 0 ∧ k &&& 7 = k := by
    interval_cases k <;> decide
  have hpos : (UInt8.ofNat (k + 8)).toNat = k + 8 ∧ (k + 8) &&& 8 ≠ 0 ∧ (k + 8) &&& 7 = k := by
    interval_cases k <;> decide
  constructor
  · rw [List.cons_append, readValue_cons, hneg.1, if_neg (by omega), if_neg (by simp only [delta2KeyMax]; omega),
      hneg.2.1, if_pos rfl, hneg.2.2, htake, hdrop, hr]
  · rw [List.cons_append, readValue_cons, hpos.1, if_neg (by omega), if_neg (by simp only [delta2KeyMax]; omega),
      if_neg hpos.2.1, hpos.2.2, htake, hdrop, hr]

/-- What `write_value` writes, `read_value` reads; it takes one to nine bytes. -/
lemma writeValue_readValue (v : BitVec 64) :
    ∃ w, writeValue v = some w ∧ 1 ≤ w.length ∧ w.length ≤ 9 ∧ ∀ rest, readValue (w ++ rest) = (v, rest) := by
  by_cases h0 : v = 0
  · refine ⟨[0], by rw [writeValue, if_pos h0], by simp, by simp, ?_⟩
    intro rest
    rw [h0]
    rfl
  rcases findKey_spec v with h | ⟨k, hk1, hk7, hmag, hne, h⟩
  · refine ⟨8 :: toLE 8 v.toNat, ?_, by simp, by simp, ?_⟩
    · rw [writeValue, if_neg h0, h]
      rfl
    · intro rest
      have hv : ofLE (toLE 8 v.toNat) = v.toNat := ofLE_toLE_of_lt v.isLt
      rw [List.cons_append, readValue_cons]
      change (BitVec.ofNat 64 (ofLE ((toLE 8 v.toNat ++ rest).take 8)), (toLE 8 v.toNat ++ rest).drop 8) = (v, rest)
      rw [List.take_left' (by simp), List.drop_left' (by simp), hv, BitVec.ofNat_toNat, BitVec.setWidth_eq]
  · by_cases hsign : v.toInt ≤ 0
    · -- a negative value: the magnitude of `-v`
      have hneg : (-v).toInt = -v.toInt := toInt_neg_of_ne (by
        intro hmin
        have hpow : 256 ^ k ≤ 256 ^ 7 := Nat.pow_le_pow_right (by norm_num) hk7
        rw [hmin] at hmag
        norm_num at hmag hpow
        omega)
      have htoNat : (-v).toNat = v.toInt.natAbs := by
        rw [toNat_of_toInt_pos (by omega)]
        omega
      have hkey : k ≠ delta2KeyMax ∧ k &&& 8 = 0 ∧ k &&& 7 = k := by
        interval_cases k <;> decide
      rw [if_pos hsign] at h
      rw [← htoNat] at hmag
      refine ⟨UInt8.ofNat k :: toLE k (-v).toNat, ?_, by simp, by simp; omega, ?_⟩
      · have hw : writeValue v = some (UInt8.ofNat k :: toLE (keyEntry k).byteLen ((keyEntry k).max &&& (-v).toNat)) := by
          rw [writeValue, if_neg h0, h]
          simp only [Option.bind_eq_bind, Option.bind_some, hkey, if_false]
          rfl
        rw [hw, (magnitude_bytes hk7 hmag).1]
      · intro rest
        rw [(readValue_key hk1 hk7 hmag rest).1, BitVec.ofNat_toNat, BitVec.setWidth_eq, BitVec.neg_neg]
    · have htoNat : v.toNat = v.toInt.natAbs := toNat_of_toInt_pos (by omega)
      have hkey : k + 8 ≠ delta2KeyMax ∧ (k + 8) &&& 8 ≠ 0 ∧ (k + 8) &&& 7 = k := by
        interval_cases k <;> decide
      rw [if_neg hsign] at h
      rw [← htoNat] at hmag
      refine ⟨UInt8.ofNat (k + 8) :: toLE k v.toNat, ?_, by simp, by simp; omega, ?_⟩
      · have hw : writeValue v =
            some (UInt8.ofNat (k + 8) :: toLE (keyEntry k).byteLen ((keyEntry k).max &&& v.toNat)) := by
          rw [writeValue, if_neg h0, h]
          simp only [Option.bind_eq_bind, Option.bind_some, hkey, if_false]
          rfl
        rw [hw, (magnitude_bytes hk7 hmag).1]
      · intro rest
        rw [(readValue_key hk1 hk7 hmag rest).2, BitVec.ofNat_toNat, BitVec.setWidth_eq]

/-! ## Sequences -/

/-- The bytes of a sequence of values. -/
def valueBytes (xs : List (BitVec 64)) : List UInt8 := (xs.map fun x => toLE 8 x.toNat).flatten

lemma valueBytes_cons (x : BitVec 64) (xs : List (BitVec 64)) :
    valueBytes (x :: xs) = toLE 8 x.toNat ++ valueBytes xs := rfl

/-- What is written for `x` behind `preData`: the difference, from the third value on less the last difference. -/
def delta2 (count : Nat) (preData preDelta x : BitVec 64) : BitVec 64 :=
  if count = 1 then x - preData else (x - preData) - preDelta

lemma compressLoop_cons (hcount : 1 ≤ count) (preData preDelta x : BitVec 64) (xs : List (BitVec 64)) :
    delta2CompressLoop count preData preDelta (x :: xs) = do
      let w ← writeValue (delta2 count preData preDelta x)
      let rest ← delta2CompressLoop (count + 1) x (x - preData) xs
      return w ++ rest := by
  match count, hcount with
  | 1, _ => rfl
  | count + 2, _ =>
    have hdelta : preDelta + ((x - preData) - preDelta) = x - preData := by
      rw [BitVec.add_comm, BitVec.sub_add_cancel]
    rw [delta2CompressLoop, hdelta]
    rfl

lemma decompressLoop_step (hcount : 1 ≤ count) {preData preDelta x : BitVec 64} {inp rest : List UInt8}
    (h : readValue inp = (delta2 count preData preDelta x, rest)) (fuel : Nat) :
    delta2DecompressLoop (fuel + 1) count preData preDelta inp =
      if 1 ≤ rest.length then
        (toLE 8 x.toNat ++ ·) <$> delta2DecompressLoop fuel (count + 1) x (x - preData) rest
      else some (toLE 8 x.toNat) := by
  match count, hcount with
  | 1, _ =>
    have hx : preData + (x - preData) = x := by
      rw [BitVec.add_comm, BitVec.sub_add_cancel]
    have hd : delta2 1 preData preDelta x = x - preData := rfl
    rw [delta2DecompressLoop]
    simp only [h, hd, hx]
  | count + 2, _ =>
    have hdelta : preDelta + ((x - preData) - preDelta) = x - preData := by
      rw [BitVec.add_comm, BitVec.sub_add_cancel]
    have hx : preData + (x - preData) = x := by
      rw [BitVec.add_comm, BitVec.sub_add_cancel]
    have hd : delta2 (count + 2) preData preDelta x = (x - preData) - preDelta := if_neg (by omega)
    rw [delta2DecompressLoop]
    simp only [h, hd, hdelta, hx]

/-- The decoder follows the encoder from any later position on: `count` values have been handled, `preData` is the
    last of them and `preDelta` the difference that led to it. -/
lemma delta2_roundTrip_from (x : BitVec 64) (xs : List (BitVec 64)) (hcount : 1 ≤ count)
    (preData preDelta : BitVec 64) :
    ∃ out, delta2CompressLoop count preData preDelta (x :: xs) = some out ∧ 1 ≤ out.length ∧
      out.length ≤ 9 * (xs.length + 1) ∧
      ∀ fuel, out.length ≤ fuel →
        delta2DecompressLoop fuel count preData preDelta out = some (valueBytes (x :: xs)) := by
  obtain ⟨w, hw, hw1, hw9, hread⟩ := writeValue_readValue (delta2 count preData preDelta x)
  induction xs generalizing x count preData preDelta w with
  | nil =>
    refine ⟨w, ?_, hw1, by simpa using hw9, ?_⟩
    · rw [compressLoop_cons hcount, hw]
      simp [delta2CompressLoop]
    · intro fuel hfuel
      obtain ⟨fuel, rfl⟩ := Nat.exists_eq_succ_of_ne_zero (by omega : fuel ≠ 0)
      have hr := hread []
      rw [List.append_nil] at hr
      rw [decompressLoop_step hcount hr, if_neg (by simp), valueBytes_cons]
      simp [valueBytes]
  | cons y ys ih =>
    obtain ⟨w', hw', hw1', hw9', hread'⟩ := writeValue_readValue (delta2 (count + 1) x (x - preData) y)
    obtain ⟨out, hout, hlen1, hlen9, hdec⟩ := ih y (by omega : 1 ≤ count + 1) x (x - preData) w' hw' hw1' hw9' hread'
    refine ⟨w ++ out, ?_, by rw [List.length_append]; omega,
      by rw [List.length_append, List.length_cons]; omega, ?_⟩
    · rw [compressLoop_cons hcount, hw, hout]
      rfl
    · intro fuel hfuel
      rw [List.length_append] at hfuel
      obtain ⟨fuel, rfl⟩ := Nat.exists_eq_succ_of_ne_zero (by omega : fuel ≠ 0)
      rw [decompressLoop_step hcount (hread out), if_pos hlen1, hdec fuel (by omega)]
      rfl

/-- Decompressing what was compressed gives the input back, the output has at most nine bytes per value, and the
    search for a key ends with one that holds the magnitude of the value. -/
theorem delta2_roundTrip {inbuf : List UInt8} (hpos : 0 < inbuf.length) (hmul : inbuf.length % 8 = 0) :
    (∃ out, delta2Compress inbuf = some out ∧ delta2Decompress out = some inbuf ∧
        out.length ≤ 9 * (inbuf.length / 8)) ∧
      ∀ v, ∃ key, findKey v = some key ∧ v.toInt.natAbs < 256 ^ keyBytes key := by
  refine ⟨?_, findKey_holds⟩
  have hbytes : valueBytes ((wordsLE 8 inbuf).map (BitVec.ofNat 64)) = inbuf := by
    have hmap : ((wordsLE 8 inbuf).map (BitVec.ofNat 64)).map (fun x => toLE 8 x.toNat) =
        (wordsLE 8 inbuf).map (toLE 8) := by
      rw [List.map_map]
      apply List.map_congr_left
      intro v hv
      have hlt : v < 2 ^ 64 := wordsLE_lt hv
      rw [Function.comp_apply, BitVec.toNat_ofNat, Nat.mod_eq_of_lt hlt]
    rw [valueBytes, hmap, flatten_wordsLE (by norm_num) hmul]
  have hlen : ((wordsLE 8 inbuf).map (BitVec.ofNat 64)).length = inbuf.length / 8 := by simp
  rw [delta2Compress]
  generalize (wordsLE 8 inbuf).map (BitVec.ofNat 64) = xs at hbytes hlen
  match xs with
  | [] =>
    rw [← hbytes] at hpos
    simp [valueBytes] at hpos
  | [x] =>
    refine ⟨toLE 8 x.toNat, by simp [delta2CompressLoop], ?_, by rw [toLE_length]; simp at hlen; omega⟩
    have hx : ofLE (toLE 8 x.toNat) = x.toNat := ofLE_toLE_of_lt x.isLt
    have htake : (toLE 8 x.toNat).take 8 = toLE 8 x.toNat := List.take_of_length_le (by simp)
    have hdrop : (toLE 8 x.toNat).drop 8 = [] := List.drop_eq_nil_of_le (by simp)
    rw [delta2Decompress, toLE_length, delta2DecompressLoop]
    simp only [htake, hdrop, hx, BitVec.ofNat_toNat, BitVec.setWidth_eq]
    rw [if_neg (by simp), ← hbytes, valueBytes_cons]
    simp [valueBytes]
  | x :: y :: xs =>
    obtain ⟨out, hout, hlen1, hlen9, hdec⟩ := delta2_roundTrip_from y xs le_rfl x 0
    have hx : ofLE (toLE 8 x.toNat) = x.toNat := ofLE_toLE_of_lt x.isLt
    have htake : (toLE 8 x.toNat ++ out).take 8 = toLE 8 x.toNat := List.take_left' (by simp)
    have hdrop : (toLE 8 x.toNat ++ out).drop 8 = out := List.drop_left' (by simp)
    refine ⟨toLE 8 x.toNat ++ out, ?_, ?_, ?_⟩
    · rw [delta2CompressLoop, hout]
      rfl
    · rw [delta2Decompress, List.length_append, toLE_length, Nat.add_comm 8, delta2DecompressLoop]
      simp only [htake, hdrop, hx, BitVec.ofNat_toNat, BitVec.setWidth_eq]
      rw [if_pos hlen1, hdec _ (by omega), ← hbytes]
      rfl
    · rw [List.length_append, toLE_length, ← hlen, List.length_cons, List.length_cons]
      omega

/-- Three values whose differences wrap around 64 bits. -/
def sampleSeries : List UInt8 := toLE 8 0 ++ toLE 8 (2 ^ 63) ++ toLE 8 5

theorem delta2_roundTrip_wrap :
    (∃ out, delta2Compress sampleSeries = some out ∧ delta2Decompress out = some sampleSeries ∧
        out.length ≤ 9 * (sampleSeries.length / 8)) ∧
      ∀ v, ∃ key, findKey v = some key ∧ v.toInt.natAbs < 256 ^ keyBytes key :=
  delta2_roundTrip (by decide) (by decide)

end GaussKernel.CStore
