import GaussKernel.Lib.Ieee
import GaussKernel.Lib.Prefix
import GaussKernel.Mot.KeyOrder

/-!
# Floating point keys of MOT indexes

Model of `ColumnFLOAT::PackKey` and `ColumnDOUBLE::PackKey` (`column.cpp`): a byte for the sign, the exponent and the
mantissa in fields of their own, which are complemented for negative numbers. `memcmp` of two keys is the order of the
numbers except among the negative ones: the two's complement of the mantissa 0 is 0 (`FloatKept`), and the complement
of the exponent of a `DOUBLE` wraps between the exponents 64 and 65 (`DoubleKept`).
-/

namespace GaussKernel.Mot

open Lib

/-! ## Packing -/

/-- `FLOAT_SIGN_MASK` -/
abbrev floatSignMask : BitVec 32 := 0x80000000

/-- `ColumnFLOAT::PackKey` -/
def packFloat (mR : BitVec 32) (dest : List UInt8) : List UInt8 :=
  let sign : UInt8 := if mR &&& floatSignMask ≠ 0 then 0x00 else 0x01
  let mR := mR <<< 1
  let exp := UInt8.ofNat (mR >>> 24).toNat
  let exp : UInt8 := if sign = 0 then 255 - exp else exp
  let mR := mR <<< 8
  let mR := if sign = 0 then ~~~mR + 1 else mR
  splice (splice (splice dest 0 [sign]) 1 [exp]) 2 (toBE 4 mR.toNat)

/-- `DOUBLE_SIGN_MASK` -/
abbrev doubleSignMask : BitVec 64 := 0x8000000000000000

/-- `DOUBLE_EXP_MASK` -/
abbrev doubleExpMask : BitVec 16 := 0xFFE0

/-- `ColumnDOUBLE::PackKey` -/
def packDouble (mR : BitVec 64) (dest : List UInt8) : List UInt8 :=
  let sign : UInt8 := if mR &&& doubleSignMask ≠ 0 then 0x00 else 0x01
  let mR := mR <<< 1
  let exp := (mR >>> 48).setWidth 16 &&& doubleExpMask
  let exp : BitVec 16 := if sign = 0 then 2048 - exp else exp
  let mR := mR <<< 11
  let mR := if sign = 0 then ~~~mR + 1 else mR
  splice (splice (splice dest 0 [sign]) 1 (toBE 2 exp.toNat)) 3 (toBE 8 mR.toNat)

/-- The key of a `FLOAT` column: `SetKeySize` gives it the size of the column and two bytes. -/
def floatKey (mR : BitVec 32) : List UInt8 := packFloat mR (List.replicate (4 + 2) 0)

/-- The key of a `DOUBLE` column: `SetKeySize` gives it the size of the column and three bytes. -/
def doubleKey (mR : BitVec 64) : List UInt8 := packDouble mR (List.replicate (8 + 3) 0)

/-! ## The fields of a key -/

/-- A key of a sign, an exponent of `i` bytes and a mantissa of `j` bytes. -/
def threeFields (negative : Bool) (i exp j mantissa : Nat) : List UInt8 :=
  [if negative then 0x00 else 0x01] ++ (toBE i exp ++ toBE j mantissa)

lemma splice_after (pre xs : List UInt8) (k : Nat) :
    splice (pre ++ List.replicate (xs.length + k) 0) pre.length xs = pre ++ xs ++ List.replicate k 0 := by
  rw [splice, List.take_left, List.drop_length_add_append, List.drop_replicate, Nat.add_sub_cancel_left]

lemma splice_threeFields (negative : Bool) (i exp j mantissa : Nat) :
    splice (splice (splice (List.replicate (1 + (i + j)) 0) 0 [if negative then 0x00 else 0x01]) 1 (toBE i exp)) (1 + i)
      (toBE j mantissa) = threeFields negative i exp j mantissa := by
  have h0 := splice_after [] [if negative then (0x00 : UInt8) else 0x01] (i + j)
  have h1 := splice_after [if negative then (0x00 : UInt8) else 0x01] (toBE i exp) j
  have h2 := splice_after ([if negative then (0x00 : UInt8) else 0x01] ++ toBE i exp) (toBE j mantissa) 0
  simp only [List.length_append, List.length_singleton, List.length_nil, List.nil_append, length_toBE, Nat.add_zero,
    List.replicate_zero, List.append_nil] at h0 h1 h2
  rw [h0, h1, h2, threeFields, List.append_assoc]

lemma signMask_iff {n k : Nat} {r mask : BitVec n} (hmask : mask.toNat = 2 ^ k) :
    r &&& mask ≠ 0 ↔ r.toNat.testBit k = true := by
  have hnum : (r &&& mask).toNat = (r.toNat.testBit k).toNat * 2 ^ k := by
    rw [BitVec.toNat_and, hmask, Nat.and_two_pow]
  rw [← not_iff_not, not_not, ← BitVec.toNat_inj, hnum, BitVec.ofNat_eq_ofNat, BitVec.toNat_zero, Bool.not_eq_true]
  cases r.toNat.testBit k with
  | false => simp
  | true => simp

lemma negated_toNat {n : Nat} (x : BitVec n) : (~~~x + 1#n).toNat = (2 ^ n - x.toNat) % 2 ^ n := by
  rw [← BitVec.neg_eq_not_add, BitVec.toNat_neg]

/-- What the code does with a field depends on the sign byte. -/
lemma if_signByte {α : Type} (negative : Bool) (x y : α) :
    (if (if negative then (0x00 : UInt8) else 0x01) = 0 then x else y) = if negative then x else y := by
  cases negative with
  | false => exact if_neg (by decide)
  | true => rfl

section

open BinaryFormat

/-- The exponent field of a `FLOAT` key. -/
def floatExp (w : Nat) : Nat := if binary32.negative w then 255 - binary32.exponent w else binary32.exponent w

/-- The mantissa field of a `FLOAT` key. -/
def floatMantissa (w : Nat) : Nat :=
  if binary32.negative w then (2 ^ 32 - 2 ^ 9 * binary32.mantissa w) % 2 ^ 32 else 2 ^ 9 * binary32.mantissa w

/-- The exponent field of a `DOUBLE` key. -/
def doubleExp (w : Nat) : Nat :=
  if binary64.negative w then (2 ^ 16 + 2048 - 2 ^ 5 * binary64.exponent w) % 2 ^ 16 else 2 ^ 5 * binary64.exponent w

/-- The mantissa field of a `DOUBLE` key. -/
def doubleMantissa (w : Nat) : Nat :=
  if binary64.negative w then (2 ^ 64 - 2 ^ 12 * binary64.mantissa w) % 2 ^ 64 else 2 ^ 12 * binary64.mantissa w

lemma floatKey_eq (mR : BitVec 32) :
    floatKey mR = threeFields (binary32.negative mR.toNat) 1 (floatExp mR.toNat) 4 (floatMantissa mR.toNat) := by
  have hsign : (if mR &&& floatSignMask ≠ 0 then (0x00 : UInt8) else 0x01) =
      if binary32.negative mR.toNat then 0x00 else 0x01 := if_congr (signMask_iff rfl) rfl rfl
  have hexp : (mR <<< 1 >>> 24).toNat = binary32.exponent mR.toNat := by
    simp only [BitVec.toNat_ushiftRight, BitVec.toNat_shiftLeft, Nat.shiftLeft_eq, Nat.shiftRight_eq_div_pow, exponent,
      binary32]
    omega
  have hmantissa : (mR <<< 1 <<< 8).toNat = 2 ^ 9 * binary32.mantissa mR.toNat := by
    simp only [BitVec.toNat_shiftLeft, Nat.shiftLeft_eq, mantissa, binary32]
    omega
  have hexpField : [if binary32.negative mR.toNat then (255 : UInt8) - UInt8.ofNat (mR <<< 1 >>> 24).toNat
      else UInt8.ofNat (mR <<< 1 >>> 24).toNat] = toBE 1 (floatExp mR.toNat) := by
    have hlt : binary32.exponent mR.toNat < 256 := exponent_lt
    rw [hexp, floatExp]
    cases binary32.negative mR.toNat with
    | true =>
      have hsub : (255 - UInt8.ofNat (binary32.exponent mR.toNat)) =
          UInt8.ofNat (255 - binary32.exponent mR.toNat) := by
        rw [UInt8.ofNat_sub (Nat.le_of_lt_succ hlt)]
        rfl
      simp only [if_true, hsub, toBE, pow_zero, Nat.div_one]
    | false => simp only [Bool.false_eq_true, if_false, toBE, pow_zero, Nat.div_one]
  have hmantissaField : (if binary32.negative mR.toNat then ~~~(mR <<< 1 <<< 8) + 1#32 else mR <<< 1 <<< 8).toNat =
      floatMantissa mR.toNat := by
    rw [floatMantissa, apply_ite BitVec.toNat, negated_toNat, hmantissa]
  rw [← splice_threeFields, ← hexpField, ← hmantissaField, floatKey, packFloat]
  simp only [hsign, if_signByte]
  rfl

lemma doubleKey_eq (mR : BitVec 64) :
    doubleKey mR = threeFields (binary64.negative mR.toNat) 2 (doubleExp mR.toNat) 8 (doubleMantissa mR.toNat) := by
  have hsign : (if mR &&& doubleSignMask ≠ 0 then (0x00 : UInt8) else 0x01) =
      if binary64.negative mR.toNat then 0x00 else 0x01 := if_congr (signMask_iff rfl) rfl rfl
  have hexp : ((mR <<< 1 >>> 48).setWidth 16 &&& doubleExpMask).toNat = 2 ^ 5 * binary64.exponent mR.toNat := by
    have hmask : doubleExpMask.toNat = prefixMask 16 5 := rfl
    rw [BitVec.toNat_and, hmask, and_prefixMask (by decide) (BitVec.isLt _), blockStart]
    simp only [BitVec.toNat_setWidth, BitVec.toNat_ushiftRight, BitVec.toNat_shiftLeft, Nat.shiftLeft_eq,
      Nat.shiftRight_eq_div_pow, exponent, binary64]
    omega
  have hmantissa : (mR <<< 1 <<< 11).toNat = 2 ^ 12 * binary64.mantissa mR.toNat := by
    simp only [BitVec.toNat_shiftLeft, Nat.shiftLeft_eq, mantissa, binary64]
    omega
  have hexpField : (if binary64.negative mR.toNat then
      (2048 : BitVec 16) - ((mR <<< 1 >>> 48).setWidth 16 &&& doubleExpMask)
      else (mR <<< 1 >>> 48).setWidth 16 &&& doubleExpMask).toNat = doubleExp mR.toNat := by
    have h2048 : (2048 : BitVec 16).toNat = 2048 := rfl
    have hlt : binary64.exponent mR.toNat < 2 ^ 11 := exponent_lt
    rw [doubleExp, apply_ite BitVec.toNat, BitVec.toNat_sub, hexp, h2048]
    congr 2
    omega
  have hmantissaField : (if binary64.negative mR.toNat then ~~~(mR <<< 1 <<< 11) + 1#64 else mR <<< 1 <<< 11).toNat =
      doubleMantissa mR.toNat := by
    rw [doubleMantissa, apply_ite BitVec.toNat, negated_toNat, hmantissa]
  rw [← splice_threeFields, ← hexpField, ← hmantissaField, doubleKey, packDouble]
  simp only [hsign, if_signByte]
  rfl

/-! ## The order -/

lemma memcmp_threeFields {n n' : Bool} {i e e' j m m' : Nat} (he : e < 256 ^ i) (he' : e' < 256 ^ i) (hm : m < 256 ^ j)
    (hm' : m' < 256 ^ j) :
    memcmp (threeFields n i e j m) (threeFields n' i e' j m') =
      (compare n' n).then ((compare e e').then (compare m m')) := by
  have hsign : memcmp [if n then (0x00 : UInt8) else 0x01] [if n' then 0x00 else 0x01] = compare n' n := by
    cases n <;> cases n' <;> rfl
  rw [threeFields, threeFields, memcmp_append (List.length_singleton.trans List.length_singleton.symm), hsign,
    memcmp_append ((length_toBE _ _).trans (length_toBE _ _).symm), memcmp_toBE he he', memcmp_toBE hm hm']

lemma compare_complement {k a b : Nat} (ha : a ≤ k) (hb : b ≤ k) : compare (k - a) (k - b) = compare b a := by
  rcases Nat.lt_trichotomy a b with h | h | h
  · rw [Nat.compare_eq_gt.mpr h, Nat.compare_eq_gt.mpr (by omega)]
  · rw [Nat.compare_eq_eq.mpr h.symm, h, Nat.compare_eq_eq.mpr rfl]
  · rw [Nat.compare_eq_lt.mpr h, Nat.compare_eq_lt.mpr (by omega)]

lemma compare_scaled {k a b : Nat} : compare (2 ^ k * a) (2 ^ k * b) = compare a b := by
  have hmono : StrictMono fun n : Nat => 2 ^ k * n := fun _ _ h => Nat.mul_lt_mul_of_pos_left h (Nat.two_pow_pos k)
  have hcmp := hmono.cmp_map_eq a b
  rwa [cmp_eq_compare, cmp_eq_compare] at hcmp

/-- The two's complement turns the order around except between 0 and the other numbers. -/
lemma compare_negated {N x y : Nat} (hx : x < N) (hy : y < N) :
    compare ((N - x) % N) ((N - y) % N) = compare y x ↔ (x = 0 ↔ y = 0) := by
  have hzero : (N - 0) % N = 0 := by rw [Nat.sub_zero, Nat.mod_self]
  have hmod : ∀ z, 0 < z → z < N → (N - z) % N = N - z := fun z hz hzN =>
    Nat.mod_eq_of_lt (Nat.sub_lt (hz.trans hzN) hz)
  cases Nat.eq_zero_or_pos x with
  | inl h =>
    subst h
    cases Nat.eq_zero_or_pos y with
    | inl h =>
      subst h
      exact ⟨fun _ => Iff.rfl, fun _ => by rw [hzero]⟩
    | inr h =>
      rw [hzero, hmod y h hy, Nat.compare_eq_lt.mpr (Nat.sub_pos_of_lt hy), Nat.compare_eq_gt.mpr h]
      exact ⟨nofun, fun heq => absurd (heq.mp rfl) h.ne'⟩
  | inr h =>
    cases Nat.eq_zero_or_pos y with
    | inl h' =>
      subst h'
      rw [hzero, hmod x h hx, Nat.compare_eq_gt.mpr (Nat.sub_pos_of_lt hx), Nat.compare_eq_lt.mpr h]
      exact ⟨nofun, fun heq => absurd (heq.mpr rfl) h.ne'⟩
    | inr h' =>
      rw [hmod x h hx, hmod y h' hy, compare_complement hx.le hy.le]
      exact ⟨fun _ => ⟨fun hx0 => absurd hx0 h.ne', fun hy0 => absurd hy0 h'.ne'⟩, fun _ => rfl⟩

/-- Comparisons that fall back to a second one agree when the second ones do, unless the first decides. -/
lemma then_eq_then_iff {o a b : Ordering} : o.then a = o.then b ↔ (o = .eq → a = b) := by
  cases o <;> simp [Ordering.then]

/-- Two negative numbers of one exponent have both the mantissa 0, or neither. -/
def MantissaKept (f : BinaryFormat) (a b : Nat) : Prop :=
  f.exponent a = f.exponent b → (f.mantissa a = 0 ↔ f.mantissa b = 0)

/-- Where `FLOAT` keys keep the order. -/
def FloatKept (a b : Nat) : Prop := binary32.negative a = true → binary32.negative b = true → MantissaKept binary32 a b

/-- Where `DOUBLE` keys keep the order: two negative numbers have exponents on one side of the wrap. -/
def DoubleKept (a b : Nat) : Prop :=
  binary64.negative a = true → binary64.negative b = true →
    (binary64.exponent a ≤ 64 ↔ binary64.exponent b ≤ 64) ∧ MantissaKept binary64 a b

variable {a b : Nat}

lemma compare_bool_eq (n : Bool) : compare n n = .eq := by cases n <;> rfl

lemma floatFields_lt (w : Nat) : floatExp w < 256 ^ 1 ∧ floatMantissa w < 256 ^ 4 := by
  have he : binary32.exponent w < 2 ^ 8 := exponent_lt
  have hm : binary32.mantissa w < 2 ^ 23 := mantissa_lt
  rw [floatExp, floatMantissa]
  split
  · exact ⟨by omega, by omega⟩
  · exact ⟨by omega, by omega⟩

lemma doubleFields_lt (w : Nat) : doubleExp w < 256 ^ 2 ∧ doubleMantissa w < 256 ^ 8 := by
  have he : binary64.exponent w < 2 ^ 11 := exponent_lt
  have hm : binary64.mantissa w < 2 ^ 52 := mantissa_lt
  rw [doubleExp, doubleMantissa]
  split
  · exact ⟨by omega, by omega⟩
  · exact ⟨by omega, by omega⟩

/-- The comparison of the mantissas of two negative numbers. -/
lemma negatedMantissa_iff (f : BinaryFormat) {k N : Nat} (hN : 2 ^ k * 2 ^ f.mantissaBits ≤ N) :
    compare ((N - 2 ^ k * f.mantissa a) % N) ((N - 2 ^ k * f.mantissa b) % N) =
      compare (f.mantissa b) (f.mantissa a) ↔ (f.mantissa a = 0 ↔ f.mantissa b = 0) := by
  have hlt : ∀ w, 2 ^ k * f.mantissa w < N := fun w =>
    (Nat.mul_lt_mul_of_pos_left mantissa_lt (Nat.two_pow_pos k)).trans_le hN
  have hzero : ∀ w, 2 ^ k * f.mantissa w = 0 ↔ f.mantissa w = 0 := fun w => by
    rw [Nat.mul_eq_zero]
    exact or_iff_right (Nat.two_pow_pos k).ne'
  rw [← compare_scaled (k := k) (a := f.mantissa b), compare_negated (hlt a) (hlt b), hzero, hzero]

lemma floatKey_order_iff {a b : BitVec 32} (ha : ¬ binary32.IsNegativeZero a.toNat)
    (hb : ¬ binary32.IsNegativeZero b.toNat) :
    memcmp (floatKey a) (floatKey b) = compare (binary32.value a.toNat) (binary32.value b.toNat) ↔
      FloatKept a.toNat b.toNat := by
  rw [floatKey_eq, floatKey_eq, memcmp_threeFields (floatFields_lt _).1 (floatFields_lt _).1 (floatFields_lt _).2
    (floatFields_lt _).2, FloatKept]
  cases hna : binary32.negative a.toNat with
  | false =>
    cases hnb : binary32.negative b.toNat with
    | false =>
      rw [compare_value_nonneg hna hnb]
      simp only [floatExp, floatMantissa, hna, hnb, Bool.false_eq_true, if_false, compare_scaled]
      exact ⟨fun _ => nofun, fun _ => rfl⟩
    | true =>
      rw [compare_gt_iff_gt.mpr (value_lt_of_signs hnb hb hna)]
      exact ⟨fun _ => nofun, fun _ => rfl⟩
  | true =>
    cases hnb : binary32.negative b.toNat with
    | false =>
      rw [compare_lt_iff_lt.mpr (value_lt_of_signs hna ha hnb)]
      exact ⟨fun _ _ => nofun, fun _ => rfl⟩
    | true =>
      have he : ∀ w, binary32.exponent w ≤ 255 := fun w => Nat.le_of_lt_succ exponent_lt
      rw [compare_value_neg hna hnb, compare_bool_eq, Ordering.eq_then]
      simp only [floatExp, floatMantissa, hna, hnb, if_true]
      rw [compare_complement (he _) (he _), then_eq_then_iff, negatedMantissa_iff binary32 (by decide),
        Nat.compare_eq_eq]
      exact ⟨fun h _ _ heq => h heq.symm, fun h heq => h trivial trivial heq.symm⟩

/-- The complemented exponents of a `DOUBLE` are in order on each side of the wrap, and out of order across it. -/
lemma compare_doubleExp {e e' : Nat} (he : e < 2 ^ 11) (he' : e' < 2 ^ 11) :
    compare ((2 ^ 16 + 2048 - 2 ^ 5 * e) % 2 ^ 16) ((2 ^ 16 + 2048 - 2 ^ 5 * e') % 2 ^ 16) =
      if e ≤ 64 ↔ e' ≤ 64 then compare e' e else compare e e' := by
  have hlow : ∀ x, x ≤ 64 → (2 ^ 16 + 2048 - 2 ^ 5 * x) % 2 ^ 16 = 2048 - 2 ^ 5 * x := fun x hx => by omega
  have hhigh : ∀ x, 64 < x → x < 2 ^ 11 → (2 ^ 16 + 2048 - 2 ^ 5 * x) % 2 ^ 16 = 2 ^ 16 + 2048 - 2 ^ 5 * x :=
    fun x hx hx' => by omega
  cases Nat.lt_or_ge 64 e with
  | inr h =>
    cases Nat.lt_or_ge 64 e' with
    | inr h' =>
      rw [if_pos ⟨fun _ => h', fun _ => h⟩, hlow e h, hlow e' h', compare_complement (by omega) (by omega),
        compare_scaled]
    | inl h' =>
      rw [if_neg fun heq => absurd (heq.mp h) (Nat.not_le.mpr h'), hlow e h, hhigh e' h' he',
        Nat.compare_eq_lt.mpr (h.trans_lt h'), Nat.compare_eq_lt.mpr (by omega)]
  | inl h =>
    cases Nat.lt_or_ge 64 e' with
    | inr h' =>
      rw [if_neg fun heq => absurd (heq.mpr h') (Nat.not_le.mpr h), hhigh e h he, hlow e' h',
        Nat.compare_eq_gt.mpr (h'.trans_lt h), Nat.compare_eq_gt.mpr (by omega)]
    | inl h' =>
      rw [if_pos ⟨fun hle => absurd hle (Nat.not_le.mpr h), fun hle => absurd hle (Nat.not_le.mpr h')⟩,
        hhigh e h he, hhigh e' h' he', compare_complement (by omega) (by omega), compare_scaled]

lemma doubleKey_order_iff {a b : BitVec 64} (ha : ¬ binary64.IsNegativeZero a.toNat)
    (hb : ¬ binary64.IsNegativeZero b.toNat) :
    memcmp (doubleKey a) (doubleKey b) = compare (binary64.value a.toNat) (binary64.value b.toNat) ↔
      DoubleKept a.toNat b.toNat := by
  rw [doubleKey_eq, doubleKey_eq, memcmp_threeFields (doubleFields_lt _).1 (doubleFields_lt _).1 (doubleFields_lt _).2
    (doubleFields_lt _).2, DoubleKept]
  cases hna : binary64.negative a.toNat with
  | false =>
    cases hnb : binary64.negative b.toNat with
    | false =>
      rw [compare_value_nonneg hna hnb]
      simp only [doubleExp, doubleMantissa, hna, hnb, Bool.false_eq_true, if_false, compare_scaled]
      exact ⟨fun _ => nofun, fun _ => rfl⟩
    | true =>
      rw [compare_gt_iff_gt.mpr (value_lt_of_signs hnb hb hna)]
      exact ⟨fun _ => nofun, fun _ => rfl⟩
  | true =>
    cases hnb : binary64.negative b.toNat with
    | false =>
      rw [compare_lt_iff_lt.mpr (value_lt_of_signs hna ha hnb)]
      exact ⟨fun _ _ => nofun, fun _ => rfl⟩
    | true =>
      rw [compare_value_neg hna hnb, compare_bool_eq, Ordering.eq_then]
      simp only [doubleExp, doubleMantissa, hna, hnb, if_true]
      rw [compare_doubleExp exponent_lt exponent_lt]
      split
      case isTrue hside =>
        rw [then_eq_then_iff, negatedMantissa_iff binary64 (by decide), Nat.compare_eq_eq]
        exact ⟨fun h _ _ => ⟨hside, fun heq => h heq.symm⟩, fun h heq => (h trivial trivial).2 heq.symm⟩
      case isFalse hside =>
        -- the exponents differ, and the keys order them as the numbers do not
        refine ⟨fun h => ?_, fun h => absurd (h trivial trivial).1 hside⟩
        have hne : binary64.exponent a.toNat ≠ binary64.exponent b.toNat := fun heq => hside (by rw [heq])
        rcases Nat.lt_or_gt_of_ne hne with hlt | hlt
        · rw [Nat.compare_eq_lt.mpr hlt, Nat.compare_eq_gt.mpr hlt] at h
          cases h
        · rw [Nat.compare_eq_lt.mpr hlt, Nat.compare_eq_gt.mpr hlt] at h
          cases h

/-- `memcmp` of two keys is the order of the numbers exactly where the fields of negative numbers keep it. -/
theorem floatingKey_order_iff (a b : BitVec 32) (c d : BitVec 64) :
    (binary32.Ordinary a.toNat → binary32.Ordinary b.toNat →
      (memcmp (floatKey a) (floatKey b) = compare (binary32.value a.toNat) (binary32.value b.toNat) ↔
        FloatKept a.toNat b.toNat)) ∧
    (binary64.Ordinary c.toNat → binary64.Ordinary d.toNat →
      (memcmp (doubleKey c) (doubleKey d) = compare (binary64.value c.toNat) (binary64.value d.toNat) ↔
        DoubleKept c.toNat d.toNat)) :=
  ⟨fun ha hb => floatKey_order_iff ha.2 hb.2, fun hc hd => doubleKey_order_iff hc.2 hd.2⟩

/-- `-1.5` and `-1.25`. -/
theorem floatingKey_order_iff_halves :
    memcmp (floatKey 0xBFC00000) (floatKey 0xBFA00000) =
        compare (binary32.value 0xBFC00000) (binary32.value 0xBFA00000) ∧
      memcmp (doubleKey 0xBFF8000000000000) (doubleKey 0xBFF4000000000000) =
        compare (binary64.value 0xBFF8000000000000) (binary64.value 0xBFF4000000000000) := by
  have horder := floatingKey_order_iff 0xBFC00000 0xBFA00000 0xBFF8000000000000 0xBFF4000000000000
  refine ⟨(horder.1 (by decide) (by decide)).mpr fun _ _ _ => by decide, ?_⟩
  exact (horder.2 (by decide) (by decide)).mpr fun _ _ => ⟨by decide, fun _ => by decide⟩

/-- The key of `-1` is below that of `-1.5`. -/
theorem not_floatingKey_order :
    ¬ ∀ a b : BitVec 32, binary32.Ordinary a.toNat → binary32.Ordinary b.toNat →
      memcmp (floatKey a) (floatKey b) = compare (binary32.value a.toNat) (binary32.value b.toNat) := by
  intro h
  have hkept := (floatKey_order_iff (by decide) (by decide)).mp (h 0xBF800000 0xBFC00000 (by decide) (by decide))
  exact absurd (hkept (by decide) (by decide) (by decide)) (by decide)

end

end GaussKernel.Mot
