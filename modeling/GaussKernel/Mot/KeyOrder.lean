import GaussKernel.Mot.Column

/-!
# The order of MOT index keys

`memcmp` of two keys is the lexicographic order of the tuples in which dates are taken as unsigned words and strings as
filled up with zero bytes to one length (`memcmp_buildKey`). It is the order of the column types for two tuples just
when the first field in which they differ does not show that (`OrderKept`): dates of one sign, strings that are not the
same up to zero bytes behind them.
-/

namespace GaussKernel.Mot

open Lib

/-! ## Comparing bytes -/

lemma then_assoc (o o' o'' : Ordering) : (o.then o').then o'' = o.then (o'.then o'') := by
  cases o <;> rfl

lemma memcmp_self (a : List UInt8) : memcmp a a = .eq := by
  induction a with
  | nil => rfl
  | cons x a ih => rw [memcmp, ih, Nat.compare_eq_eq.mpr rfl, Ordering.then_eq]

lemma memcmp_append {a b x y : List UInt8} (h : a.length = b.length) :
    memcmp (a ++ x) (b ++ y) = (memcmp a b).then (memcmp x y) := by
  induction a generalizing b with
  | nil =>
    cases b with
    | nil => rfl
    | cons _ _ => cases h
  | cons u a ih =>
    cases b with
    | nil => cases h
    | cons v b =>
      simp only [List.cons_append, memcmp]
      rw [ih (Nat.succ.inj h), then_assoc]

lemma compare_add (k n m : Nat) : compare (k + n) (k + m) = compare n m := by
  rcases Nat.lt_trichotomy n m with h | h | h
  · rw [Nat.compare_eq_lt.mpr h, Nat.compare_eq_lt.mpr (Nat.add_lt_add_left h k)]
  · rw [h, Nat.compare_eq_eq.mpr rfl, Nat.compare_eq_eq.mpr rfl]
  · rw [Nat.compare_eq_gt.mpr h, Nat.compare_eq_gt.mpr (Nat.add_lt_add_left h k)]

/-- Two numbers by their quotients and then by their remainders. -/
lemma compare_div_mod {B : Nat} (hB : 0 < B) (n m : Nat) :
    (compare (n / B) (m / B)).then (compare (n % B) (m % B)) = compare n m := by
  have hn := Nat.div_add_mod n B
  have hm := Nat.div_add_mod m B
  have hrn := Nat.mod_lt n hB
  have hrm := Nat.mod_lt m hB
  rcases Nat.lt_trichotomy (n / B) (m / B) with h | h | h
  · rw [Nat.compare_eq_lt.mpr h, Nat.compare_eq_lt.mpr (Nat.lt_of_div_lt_div h)]
    rfl
  · rw [h, Nat.compare_eq_eq.mpr rfl, Ordering.eq_then]
    rw [h] at hn
    exact (compare_add (B * (m / B)) _ _).symm.trans (by rw [hn, hm])
  · rw [Nat.compare_eq_gt.mpr h, Nat.compare_eq_gt.mpr (Nat.lt_of_div_lt_div h)]
    rfl

lemma length_toBE (w n : Nat) : (toBE w n).length = w := by
  induction w generalizing n with
  | zero => rfl
  | succ w ih => exact congrArg (· + 1) (ih _)

lemma memcmp_toBE {w n m : Nat} (hn : n < 256 ^ w) (hm : m < 256 ^ w) :
    memcmp (toBE w n) (toBE w m) = compare n m := by
  induction w generalizing n m with
  | zero =>
    rw [pow_zero, Nat.lt_one_iff] at hn hm
    rw [hn, hm]
    rfl
  | succ w ih =>
    have hpos : 0 < 256 ^ w := Nat.pow_pos (by decide)
    have hqn : n / 256 ^ w < 256 := Nat.div_lt_of_lt_mul (by rwa [← Nat.pow_succ])
    have hqm : m / 256 ^ w < 256 := Nat.div_lt_of_lt_mul (by rwa [← Nat.pow_succ])
    simp only [toBE, memcmp]
    rw [ih (Nat.mod_lt _ hpos) (Nat.mod_lt _ hpos), UInt8.toNat_ofNat_of_lt' hqn, UInt8.toNat_ofNat_of_lt' hqm]
    exact compare_div_mod hpos n m

/-! ## Fields -/

/-- The field of a value in a key. -/
def fieldBytes : (c : Column) → c.Value → List UInt8
  | .char, (v : BitVec 8) => toBE 1 v.toNat
  | .tiny, (v : BitVec 8) => (if v.msb then 0x00 else 0x01) :: toBE 1 v.toNat
  | .short, (v : BitVec 16) => (if v.msb then 0x00 else 0x01) :: toBE 2 v.toNat
  | .int, (v : BitVec 32) => (if v.msb then 0x00 else 0x01) :: toBE 4 v.toNat
  | .long, (v : BitVec 64) => (if v.msb then 0x00 else 0x01) :: toBE 8 v.toNat
  | .date, (v : BitVec 32) => toBE 4 v.toNat ++ [0]
  | .time, ⟨v, _⟩ => toBE 8 v.toNat
  | .timestamp, (v : BitVec 64) => (if v.msb then 0x00 else 0x01) :: toBE 8 v.toNat
  | .timestamptz, (v : BitVec 64) => (if v.msb then 0x00 else 0x01) :: toBE 8 v.toNat
  | .varchar declared, ⟨s, _⟩ => s ++ List.replicate (declared + 1 - s.length) 0

variable {c : Column} {b : Nat} {s s' : List UInt8} {cs : List Column}

lemma length_fieldBytes (v : c.Value) : (fieldBytes c v).length = c.mKeySize := by
  cases c with
  | char => exact length_toBE _ _
  | tiny => exact congrArg (· + 1) (length_toBE _ _)
  | short => exact congrArg (· + 1) (length_toBE _ _)
  | int => exact congrArg (· + 1) (length_toBE _ _)
  | long => exact congrArg (· + 1) (length_toBE _ _)
  | date => exact List.length_append.trans (congrArg (· + 1) (length_toBE _ _))
  | time => exact length_toBE _ _
  | timestamp => exact congrArg (· + 1) (length_toBE _ _)
  | timestamptz => exact congrArg (· + 1) (length_toBE _ _)
  | varchar declared =>
    obtain ⟨s, hs⟩ := v
    have h : (s ++ List.replicate (declared + 1 - s.length) (0 : UInt8)).length = declared + 1 := by
      rw [List.length_append, List.length_replicate]
      omega
    exact h

lemma splice_zero (xs : List UInt8) (k : Nat) :
    splice (List.replicate (xs.length + k) 0) 0 xs = xs ++ List.replicate k 0 := by
  rw [splice, List.take_zero, List.nil_append, Nat.zero_add, List.drop_replicate, Nat.add_sub_cancel_left]

lemma packPlain_zeros (w k : Nat) (v : BitVec b) :
    packPlain w v (List.replicate (w + k) 0) = toBE w v.toNat ++ List.replicate k 0 := by
  have h := splice_zero (toBE w v.toNat) k
  rwa [length_toBE] at h

lemma packSigned_zeros (w k : Nat) (v : BitVec b) :
    packSigned w v (List.replicate (w + 1 + k) 0) =
      (if v.msb then 0x00 else 0x01) :: toBE w v.toNat ++ List.replicate k 0 := by
  have h : splice (List.replicate (w + 1 + k) 0) 1 (toBE w v.toNat) =
      0 :: (toBE w v.toNat ++ List.replicate k 0) := by
    rw [splice, length_toBE, List.drop_replicate, List.take_replicate, Nat.add_comm 1 w,
      Nat.add_sub_cancel_left, Nat.min_eq_left (by omega)]
    rfl
  simp only [packSigned, h]
  rfl

lemma packPlain_date (k : Nat) (v : BitVec 32) :
    packPlain 4 v (List.replicate (5 + k) 0) = toBE 4 v.toNat ++ [0] ++ List.replicate k 0 := by
  have h := packPlain_zeros 4 (1 + k) v
  rw [List.append_assoc, Nat.add_assoc 4 1 k, h, List.replicate_add]
  rfl

/-- The byte behind a string is zero already. -/
lemma splice_delimiter (s : List UInt8) (j k : Nat) :
    splice (s ++ List.replicate (j + 1 + k) 0) (s.length + j) [0] = s ++ List.replicate (j + 1 + k) 0 := by
  have htake : List.take (s.length + j) (s ++ List.replicate (j + 1 + k) 0) = s ++ List.replicate j 0 := by
    rw [List.take_length_add_append, List.take_replicate, Nat.min_eq_left (by omega)]
  have hdrop : List.drop (s.length + j + 1) (s ++ List.replicate (j + 1 + k) 0) = List.replicate k 0 := by
    rw [Nat.add_assoc, List.drop_length_add_append, List.drop_replicate, Nat.add_sub_cancel_left]
  rw [splice, htake, List.length_singleton, hdrop, List.replicate_add, List.replicate_add]
  simp only [List.append_assoc]
  rfl

lemma packVarchar_zeros {size k : Nat} (h : s.length < size) :
    packVarchar size s 0 (List.replicate (size + k) 0) =
      s ++ List.replicate (size - s.length) 0 ++ List.replicate k 0 := by
  have hfirst : splice (List.replicate (size + k) 0) 0 s = s ++ List.replicate (size - s.length + k) 0 := by
    have hs := splice_zero s (size - s.length + k)
    rwa [show s.length + (size - s.length + k) = size + k by omega] at hs
  have hlast := splice_delimiter s (size - s.length - 1) k
  rw [show s.length + (size - s.length - 1) = size - 1 by omega,
    show size - s.length - 1 + 1 = size - s.length by omega] at hlast
  simp only [packVarchar, hfirst, if_pos h, ne_eq, not_true_eq_false, if_false]
  rw [hlast, List.replicate_add, List.append_assoc]

/-- A field of a key, in what is left of the zero bytes. -/
lemma packKey_zeros (v : c.Value) (k : Nat) :
    packKey c v 0x00 (List.replicate (c.mKeySize + k) 0) = fieldBytes c v ++ List.replicate k 0 := by
  cases c with
  | char => exact packPlain_zeros 1 k _
  | tiny => exact packSigned_zeros 1 k _
  | short => exact packSigned_zeros 2 k _
  | int => exact packSigned_zeros 4 k _
  | long => exact packSigned_zeros 8 k _
  | date => exact packPlain_date k _
  | time => exact packPlain_zeros 8 k _
  | timestamp => exact packSigned_zeros 8 k _
  | timestamptz => exact packSigned_zeros 8 k _
  | varchar declared =>
    obtain ⟨s, hs⟩ := v
    exact packVarchar_zeros (Nat.lt_succ_of_le hs)

lemma buildKey_cons (v : c.Value) (t : Tuple cs) : buildKey (c :: cs) (v, t) = fieldBytes c v ++ buildKey cs t := by
  have hlen := length_fieldBytes v
  have h : List.replicate (keyLength (c :: cs)) (0 : UInt8) = List.replicate (c.mKeySize + keyLength cs) 0 := rfl
  simp only [buildKey, packFields, h, packKey_zeros]
  rw [List.take_left' hlen, List.drop_left' hlen]

/-! ## The order of the keys -/

/-- Strings bytewise, the shorter one filled up with zero bytes. -/
def paddedCmp : List UInt8 → List UInt8 → Ordering
  | [], bs => if bs.all (· = 0) then .eq else .lt
  | a :: as, [] => (compare a.toNat 0).then (paddedCmp as [])
  | a :: as, b :: bs => (compare a.toNat b.toNat).then (paddedCmp as bs)

lemma paddedCmp_nil_cons (b : UInt8) (bs : List UInt8) :
    paddedCmp [] (b :: bs) = (compare 0 b.toNat).then (paddedCmp [] bs) := by
  by_cases hb : b = 0
  · rw [hb]
    rfl
  · have hpos : 0 < b.toNat := Nat.pos_of_ne_zero fun h => hb (UInt8.toNat_inj.mp h)
    rw [Nat.compare_eq_lt.mpr hpos, paddedCmp, List.all_cons, decide_eq_false hb]
    rfl

/-- The order of the fields of a column in keys: that of the type, but for dates and strings. -/
def storedCmp : (c : Column) → c.Value → c.Value → Ordering
  | .date, (x : BitVec 32), (y : BitVec 32) => compare x.toNat y.toNat
  | .varchar _, ⟨s, _⟩, ⟨s', _⟩ => paddedCmp s s'
  | c, x, y => c.cmp x y

def storedTupleCmp : (cs : List Column) → Tuple cs → Tuple cs → Ordering
  | [], _, _ => .eq
  | c :: cs, (x, t), (y, t') => (storedCmp c x y).then (storedTupleCmp cs t t')

lemma compare_natCast (n m : Nat) : compare (n : Int) (m : Int) = compare n m := by
  rcases Nat.lt_trichotomy n m with h | h | h
  · rw [Nat.compare_eq_lt.mpr h, Int.compare_eq_lt.mpr (Int.ofNat_lt.mpr h)]
  · rw [h, Nat.compare_eq_eq.mpr rfl, Int.compare_eq_eq.mpr rfl]
  · rw [Nat.compare_eq_gt.mpr h, Int.compare_eq_gt.mpr (Int.ofNat_lt.mpr h)]

lemma compare_natCast_sub (n m k : Nat) : compare ((n : Int) - k) ((m : Int) - k) = compare n m := by
  rcases Nat.lt_trichotomy n m with h | h | h
  · rw [Nat.compare_eq_lt.mpr h, Int.compare_eq_lt.mpr (by omega)]
  · rw [h, Nat.compare_eq_eq.mpr rfl, Int.compare_eq_eq.mpr rfl]
  · rw [Nat.compare_eq_gt.mpr h, Int.compare_eq_gt.mpr (by omega)]

/-- The byte for the sign makes the order of the words that of the numbers. -/
lemma compare_toInt (x y : BitVec b) :
    (compare (if x.msb then 0 else 1) (if y.msb then 0 else 1)).then (compare x.toNat y.toNat) =
      compare x.toInt y.toInt := by
  have hlx := x.isLt
  have hly := y.isLt
  rw [BitVec.toInt_eq_msb_cond, BitVec.toInt_eq_msb_cond]
  cases hx : x.msb with
  | false =>
    cases hy : y.msb with
    | false => exact (compare_natCast _ _).symm
    | true =>
      have h : (y.toNat : Int) - (2 ^ b : Nat) < x.toNat := by omega
      exact (Int.compare_eq_gt.mpr h).symm
  | true =>
    cases hy : y.msb with
    | false =>
      have h : (x.toNat : Int) - (2 ^ b : Nat) < y.toNat := by omega
      exact (Int.compare_eq_lt.mpr h).symm
    | true => exact (compare_natCast_sub _ _ _).symm

lemma memcmp_signed {w : Nat} (hb : 2 ^ b = 256 ^ w) (x y : BitVec b) :
    memcmp ((if x.msb then 0x00 else 0x01) :: toBE w x.toNat) ((if y.msb then 0x00 else 0x01) :: toBE w y.toNat) =
      compare x.toInt y.toInt := by
  rw [memcmp, memcmp_toBE (hb ▸ x.isLt) (hb ▸ y.isLt), ← compare_toInt]
  cases x.msb <;> cases y.msb <;> rfl

lemma memcmp_plain {w : Nat} (hb : 2 ^ b = 256 ^ w) (x y : BitVec b) :
    memcmp (toBE w x.toNat) (toBE w y.toNat) = compare x.toNat y.toNat :=
  memcmp_toBE (hb ▸ x.isLt) (hb ▸ y.isLt)

lemma padded_nil (n : Nat) :
    [] ++ List.replicate (n + 1 - ([] : List UInt8).length) (0 : UInt8) =
      0 :: ([] ++ List.replicate (n - ([] : List UInt8).length) 0) := rfl

lemma padded_cons (n : Nat) (a : UInt8) (s : List UInt8) :
    (a :: s) ++ List.replicate (n + 1 - (a :: s).length) 0 = a :: (s ++ List.replicate (n - s.length) 0) := by
  rw [List.length_cons, Nat.add_sub_add_right]
  rfl

lemma memcmp_padded {n : Nat} (hs : s.length ≤ n) (hs' : s'.length ≤ n) :
    memcmp (s ++ List.replicate (n - s.length) 0) (s' ++ List.replicate (n - s'.length) 0) = paddedCmp s s' := by
  induction n generalizing s s' with
  | zero =>
    rw [List.eq_nil_of_length_eq_zero (Nat.le_zero.mp hs), List.eq_nil_of_length_eq_zero (Nat.le_zero.mp hs')]
    rfl
  | succ n ih =>
    have hnil : ([] : List UInt8).length ≤ n := Nat.zero_le n
    cases s with
    | nil =>
      cases s' with
      | nil => exact (memcmp_self _).trans rfl
      | cons b s' =>
        rw [padded_nil, padded_cons, memcmp, ih hnil (Nat.le_of_succ_le_succ hs'), paddedCmp_nil_cons]
        rfl
    | cons a s =>
      cases s' with
      | nil =>
        rw [padded_nil, padded_cons, memcmp, ih (Nat.le_of_succ_le_succ hs) hnil]
        rfl
      | cons b s' =>
        rw [padded_cons, padded_cons, memcmp, ih (Nat.le_of_succ_le_succ hs) (Nat.le_of_succ_le_succ hs')]
        rfl

lemma memcmp_date (x y : BitVec 32) :
    memcmp (toBE 4 x.toNat ++ [0]) (toBE 4 y.toNat ++ [0]) = compare x.toNat y.toNat := by
  rw [memcmp_append ((length_toBE _ _).trans (length_toBE _ _).symm), memcmp_plain rfl, memcmp_self, Ordering.then_eq]

lemma memcmp_fieldBytes (x y : c.Value) : memcmp (fieldBytes c x) (fieldBytes c y) = storedCmp c x y := by
  cases c with
  | char => exact memcmp_plain rfl _ _
  | tiny => exact memcmp_signed rfl _ _
  | short => exact memcmp_signed rfl _ _
  | int => exact memcmp_signed rfl _ _
  | long => exact memcmp_signed rfl _ _
  | date => exact memcmp_date _ _
  | time =>
    obtain ⟨x, hx⟩ := x
    obtain ⟨y, hy⟩ := y
    refine (memcmp_plain rfl x y).trans ?_
    have h := compare_toInt x y
    rw [hx, hy] at h
    exact h
  | timestamp => exact memcmp_signed rfl _ _
  | timestamptz => exact memcmp_signed rfl _ _
  | varchar declared =>
    obtain ⟨s, hs⟩ := x
    obtain ⟨s', hs'⟩ := y
    exact memcmp_padded (Nat.le_succ_of_le hs) (Nat.le_succ_of_le hs')

/-- Keys are in the order of the tuples with dates unsigned and strings filled up. -/
theorem memcmp_buildKey {cs : List Column} (t t' : Tuple cs) :
    memcmp (buildKey cs t) (buildKey cs t') = storedTupleCmp cs t t' := by
  induction cs with
  | nil => rfl
  | cons c cs ih =>
    obtain ⟨x, t⟩ := t
    obtain ⟨y, t'⟩ := t'
    rw [buildKey_cons, buildKey_cons, memcmp_append ((length_fieldBytes x).trans (length_fieldBytes y).symm),
      memcmp_fieldBytes, ih]
    rfl

/-! ## The order of the tuples -/

lemma compare_toInt_eq {x y : BitVec b} : compare x.toInt y.toInt = .eq ↔ x = y := by
  rw [Int.compare_eq_eq, BitVec.toInt_inj]

lemma strCmp_eq : strCmp s s' = .eq ↔ s = s' := by
  induction s generalizing s' with
  | nil => cases s' <;> simp [strCmp]
  | cons a s ih =>
    cases s' with
    | nil => simp [strCmp]
    | cons b s' => rw [strCmp, Ordering.then_eq_eq, Nat.compare_eq_eq, UInt8.toNat_inj, ih, List.cons.injEq]

/-- The order of a type tells its values apart. -/
lemma Column.cmp_eq {x y : c.Value} : c.cmp x y = .eq ↔ x = y := by
  cases c with
  | char => exact Nat.compare_eq_eq.trans BitVec.toNat_inj
  | tiny => exact compare_toInt_eq
  | short => exact compare_toInt_eq
  | int => exact compare_toInt_eq
  | long => exact compare_toInt_eq
  | date => exact compare_toInt_eq
  | time =>
    obtain ⟨x, hx⟩ := x
    obtain ⟨y, hy⟩ := y
    exact compare_toInt_eq.trans Subtype.mk_eq_mk.symm
  | timestamp => exact compare_toInt_eq
  | timestamptz => exact compare_toInt_eq
  | varchar declared =>
    obtain ⟨s, hs⟩ := x
    obtain ⟨s', hs'⟩ := y
    exact strCmp_eq.trans Subtype.mk_eq_mk.symm

lemma tupleCmp_eq {t t' : Tuple cs} (h : tupleCmp cs t t' = .eq) : t = t' := by
  induction cs with
  | nil => rfl
  | cons c cs ih =>
    obtain ⟨x, t⟩ := t
    obtain ⟨y, t'⟩ := t'
    obtain ⟨hxy, hrest⟩ := Ordering.then_eq_eq.mp h
    rw [Column.cmp_eq.mp hxy, ih hrest]

/-- Two strings that differ in nothing but zero bytes behind one of them. -/
def SameButZeros (s s' : List UInt8) : Prop := s ≠ s' ∧ paddedCmp s s' = .eq

/-- What the first differing field `x` and `y` of two tuples has to satisfy, where `rest` is how the keys go on: dates
are of one sign, and strings that are the same but for zero bytes are put in order by the fields behind them. -/
def FieldKept : (c : Column) → c.Value → c.Value → (rest : Ordering) → Prop
  | .date, (x : BitVec 32), (y : BitVec 32), _ => x.msb = y.msb
  | .varchar _, ⟨s, _⟩, ⟨s', _⟩, rest => SameButZeros s s' → rest = strCmp s s'
  | _, _, _, _ => True

/-- Two tuples whose first differing field does not show that dates are packed without their sign and strings without
their length. -/
def OrderKept : (cs : List Column) → Tuple cs → Tuple cs → Prop
  | [], _, _ => True
  | c :: cs, (x, t), (y, t') => (x = y ∧ OrderKept cs t t') ∨ (x ≠ y ∧ FieldKept c x y (storedTupleCmp cs t t'))

lemma then_of_ne {o : Ordering} (h : o ≠ .eq) (o' : Ordering) : o.then o' = o := by
  cases o with
  | lt => rfl
  | eq => exact absurd rfl h
  | gt => rfl

lemma storedCmp_self (x : c.Value) : storedCmp c x x = .eq := by
  rw [← memcmp_fieldBytes, memcmp_self]

lemma paddedCmp_eq_strCmp (h : paddedCmp s s' ≠ .eq) : paddedCmp s s' = strCmp s s' := by
  induction s generalizing s' with
  | nil =>
    cases s' with
    | nil => exact absurd rfl h
    | cons b s' =>
      rw [paddedCmp] at h ⊢
      split
      case isTrue hz => exact absurd (if_pos hz) h
      case isFalse => rfl
  | cons a s ih =>
    cases s' with
    | nil =>
      rw [paddedCmp] at h ⊢
      rcases Nat.eq_zero_or_pos a.toNat with ha | ha
      · rw [ha, Nat.compare_eq_eq.mpr rfl, Ordering.eq_then] at h ⊢
        rw [ih h]
        -- `s` has a byte, as it is not the same as the empty string
        cases s with
        | nil => exact absurd rfl h
        | cons _ _ => rfl
      · rw [Nat.compare_eq_gt.mpr ha]
        rfl
    | cons b s' =>
      rw [paddedCmp] at h ⊢
      rw [strCmp]
      by_cases hab : compare a.toNat b.toNat = .eq
      · rw [hab, Ordering.eq_then] at h
        rw [ih h]
      · rw [then_of_ne hab, then_of_ne hab]

/-- A negative word is above the others when taken as unsigned. -/
lemma toNat_lt_of_msb {x y : BitVec b} (hx : x.msb = false) (hy : y.msb = true) : x.toNat < y.toNat := by
  have h := BitVec.msb_eq_false_iff_two_mul_lt.mp hx
  have h' := BitVec.msb_eq_true_iff_two_mul_ge.mp hy
  omega

lemma date_kept_iff {x y : BitVec 32} :
    x.msb = y.msb ↔ compare x.toNat y.toNat = compare x.toInt y.toInt := by
  rw [← compare_toInt]
  cases hx : x.msb with
  | false =>
    cases hy : y.msb with
    | false => exact iff_of_true rfl rfl
    | true =>
      rw [Nat.compare_eq_lt.mpr (toNat_lt_of_msb hx hy)]
      exact iff_of_false nofun nofun
  | true =>
    cases hy : y.msb with
    | false =>
      rw [Nat.compare_eq_gt.mpr (toNat_lt_of_msb hy hx)]
      exact iff_of_false nofun nofun
    | true => exact iff_of_true rfl rfl

/-- What a field has to satisfy is that the keys order the tuples by it. -/
lemma fieldKept_iff {x y : c.Value} (h : x ≠ y) (rest : Ordering) :
    FieldKept c x y rest ↔ (storedCmp c x y).then rest = c.cmp x y := by
  have hcmp : c.cmp x y ≠ .eq := fun he => h (Column.cmp_eq.mp he)
  have hsame : ∀ o, o = c.cmp x y → (True ↔ o.then rest = c.cmp x y) := fun o ho => by
    rw [ho, then_of_ne hcmp, true_iff]
  cases c with
  | char => exact hsame _ rfl
  | tiny => exact hsame _ rfl
  | short => exact hsame _ rfl
  | int => exact hsame _ rfl
  | long => exact hsame _ rfl
  | date =>
    have hne : storedCmp .date x y ≠ .eq := fun he => h (BitVec.toNat_inj.mp (Nat.compare_eq_eq.mp he))
    rw [then_of_ne hne]
    exact date_kept_iff
  | time => exact hsame _ rfl
  | timestamp => exact hsame _ rfl
  | timestamptz => exact hsame _ rfl
  | varchar declared =>
    obtain ⟨s, hs⟩ := x
    obtain ⟨s', hs'⟩ := y
    have hss' : s ≠ s' := fun he => h (Subtype.mk_eq_mk.mpr he)
    show (SameButZeros s s' → rest = strCmp s s') ↔ (paddedCmp s s').then rest = strCmp s s'
    by_cases hp : paddedCmp s s' = .eq
    · rw [hp]
      exact ⟨fun hk => hk ⟨hss', hp⟩, fun hr _ => hr⟩
    · rw [then_of_ne hp]
      exact ⟨fun _ => paddedCmp_eq_strCmp hp, fun _ hz => absurd hz.2 hp⟩

lemma storedTupleCmp_iff (t t' : Tuple cs) : storedTupleCmp cs t t' = tupleCmp cs t t' ↔ OrderKept cs t t' := by
  induction cs with
  | nil => exact iff_of_true rfl trivial
  | cons c cs ih =>
    obtain ⟨x, t⟩ := t
    obtain ⟨y, t'⟩ := t'
    rw [storedTupleCmp, tupleCmp, OrderKept]
    by_cases hxy : x = y
    · subst hxy
      rw [storedCmp_self, Column.cmp_eq.mpr rfl, Ordering.eq_then, Ordering.eq_then, ih]
      simp only [true_and, ne_eq, not_true_eq_false, false_and, or_false]
    · have hcmp : c.cmp x y ≠ .eq := fun he => hxy (Column.cmp_eq.mp he)
      rw [then_of_ne hcmp, fieldKept_iff hxy]
      simp only [hxy, false_and, ne_eq, not_false_eq_true, true_and, false_or]

/-- Keys are ordered as their tuples, and equal for equal tuples only, just when the first field in which the tuples
differ keeps its order. -/
theorem key_order_iff (cs : List Column) (t t' : Tuple cs) :
    (memcmp (buildKey cs t) (buildKey cs t') = tupleCmp cs t t' ∧ (buildKey cs t = buildKey cs t' → t = t')) ↔
      OrderKept cs t t' := by
  rw [memcmp_buildKey, ← storedTupleCmp_iff]
  refine ⟨And.left, fun h => ⟨h, fun hkey => tupleCmp_eq ?_⟩⟩
  rw [← h, ← memcmp_buildKey, hkey, memcmp_self]

/-- The day before the epoch of dates comes behind the day after it, and a byte string has the key of the string that
has a zero byte more. -/
theorem key_order_lost : (¬ ∀ (cs : List Column) (t t' : Tuple cs),
      memcmp (buildKey cs t) (buildKey cs t') = tupleCmp cs t t' ∧ (buildKey cs t = buildKey cs t' → t = t')) ∧
    memcmp (buildKey [.date] ((-1 : BitVec 32), ())) (buildKey [.date] ((1 : BitVec 32), ())) = .gt ∧
    buildKey [.varchar 2] (⟨[97], by decide⟩, ()) = buildKey [.varchar 2] (⟨[97, 0], by decide⟩, ()) := by
  refine ⟨fun h => ?_, by decide, by decide⟩
  have hdate := (h [.date] ((-1 : BitVec 32), ()) ((1 : BitVec 32), ())).1
  exact absurd hdate (by decide)

end GaussKernel.Mot
