import Mathlib.Tactic

/-!
# Bit strings

Bit strings as lists of booleans, most significant bit first: `natToBits n v` are the low `n` bits of `v` and
`bitsToNat` reads a bit string as a number. `bytesToBits` is the bit string of a byte string. A number laid out in
pieces of any widths is the number laid out at once (`natToBits_add`). `pushField` adds a field of a given width at
the low end of a word, from where mask and shift take it off again.
-/

namespace GaussKernel.Lib

/-- The low `n` bits of `v`. -/
def natToBits : Nat → Nat → List Bool
  | 0, _ => []
  | n + 1, v => v.testBit n :: natToBits n v

/-- The number a bit string denotes. -/
def bitsToNat (bs : List Bool) : Nat := bs.foldl (fun acc b => 2 * acc + b.toNat) 0

/-- The bits of a byte string. -/
def bytesToBits (bs : List UInt8) : List Bool := bs.flatMap fun b => natToBits 8 b.toNat

@[simp]
lemma natToBits_length (n v : Nat) : (natToBits n v).length = n := by
  induction n with
  | zero => rfl
  | succ n ih => simp [natToBits, ih]

variable {v w : Nat}

lemma natToBits_getElem? {n i : Nat} (h : i < n) : (natToBits n v)[i]? = some (v.testBit (n - 1 - i)) := by
  induction n generalizing i with
  | zero => omega
  | succ n ih =>
    cases i with
    | zero => simp [natToBits]
    | succ i =>
      have hi : n + 1 - 1 - (i + 1) = n - 1 - i := by omega
      rw [natToBits, List.getElem?_cons_succ, ih (by omega), hi]

/-- Bits above the width do not matter. -/
lemma natToBits_mod (n v : Nat) : natToBits n (v % 2 ^ n) = natToBits n v := by
  apply List.ext_getElem?
  intro i
  by_cases h : i < n
  · rw [natToBits_getElem? h, natToBits_getElem? h, Nat.testBit_mod_two_pow]
    simp only [Option.some.injEq, Bool.and_eq_right_iff_imp]
    intro _
    simp
    omega
  · rw [List.getElem?_eq_none (by simp; omega), List.getElem?_eq_none (by simp; omega)]

/-- A wide layout is the layout of its high part followed by that of its low part. -/
lemma natToBits_add (m n v : Nat) : natToBits (m + n) v = natToBits m (v / 2 ^ n) ++ natToBits n v := by
  induction m with
  | zero => simp [natToBits]
  | succ m ih =>
    have hbit : v.testBit (m + n) = (v / 2 ^ n).testBit m := by
      rw [Nat.testBit_div_two_pow]
    rw [Nat.add_right_comm, natToBits, natToBits, ih, hbit, List.cons_append]

lemma natToBits_shift_add (m n v w : Nat) (h : w < 2 ^ n) :
    natToBits (m + n) (v * 2 ^ n + w) = natToBits m v ++ natToBits n w := by
  have hdiv : (v * 2 ^ n + w) / 2 ^ n = v := by
    rw [Nat.mul_comm, Nat.mul_add_div (by positivity), Nat.div_eq_of_lt h, Nat.add_zero]
  have hmod : (v * 2 ^ n + w) % 2 ^ n = w := by
    rw [Nat.mul_comm, Nat.mul_add_mod, Nat.mod_eq_of_lt h]
  rw [natToBits_add, hdiv, ← natToBits_mod n (v * 2 ^ n + w), hmod]

lemma bitsToNat_concat (bs : List Bool) (b : Bool) : bitsToNat (bs ++ [b]) = 2 * bitsToNat bs + b.toNat := by
  simp [bitsToNat]

/-- Reading a layout back gives the number modulo its width. -/
lemma bitsToNat_natToBits {n : Nat} (h : v < 2 ^ n) : bitsToNat (natToBits n v) = v := by
  induction n generalizing v with
  | zero =>
    obtain rfl : v = 0 := by simpa using h
    rfl
  | succ n ih =>
    have hlow : natToBits 1 v = [v.testBit 0] := rfl
    have hbit : (v.testBit 0).toNat = v % 2 := by
      rw [Nat.testBit_zero]
      rcases Nat.mod_two_eq_zero_or_one v with h0 | h0 <;> simp [h0]
    rw [natToBits_add n 1, hlow, bitsToNat_concat, pow_one, ih (by rw [Nat.pow_succ] at h; omega), hbit]
    omega

lemma bytesToBits_append (as bs : List UInt8) : bytesToBits (as ++ bs) = bytesToBits as ++ bytesToBits bs :=
  List.flatMap_append

lemma bytesToBits_singleton (b : UInt8) : bytesToBits [b] = natToBits 8 b.toNat := by
  simp [bytesToBits]

@[simp]
lemma bytesToBits_length (bs : List UInt8) : (bytesToBits bs).length = 8 * bs.length := by
  induction bs with
  | nil => rfl
  | cons b bs ih =>
    rw [← List.singleton_append, bytesToBits_append, bytesToBits_singleton, List.length_append, natToBits_length, ih,
      List.length_append, List.length_singleton]
    omega

/-- Bit `i` of a byte string stands in byte `i / 8`. -/
lemma bytesToBits_getElem? {bs : List UInt8} {i : Nat} (h : i < 8 * bs.length) :
    (bytesToBits bs)[i]? = some ((bs.getD (i / 8) 0).toNat.testBit (7 - i % 8)) := by
  induction bs generalizing i with
  | nil => simp at h
  | cons b bs ih =>
    rw [← List.singleton_append, bytesToBits_append, bytesToBits_singleton]
    by_cases hi : i < 8
    · rw [List.getElem?_append_left (by simpa using hi), natToBits_getElem? hi, Nat.div_eq_of_lt hi,
        Nat.mod_eq_of_lt hi]
      rfl
    · rw [List.length_cons] at h
      have hdiv : i / 8 = (i - 8) / 8 + 1 := by omega
      have hmod : i % 8 = (i - 8) % 8 := by omega
      rw [List.getElem?_append_right (by simp; omega), natToBits_length, ih (by omega), hdiv, hmod]
      rfl

/-! ## Fields of a word -/

/-- The word `info` with the field `v` of `w` bits behind it. -/
def pushField (info w v : Nat) : Nat := info <<< w ||| v

lemma pushField_eq (info : Nat) (h : v < 2 ^ w) : pushField info w v = info * 2 ^ w + v := by
  rw [pushField, ← Nat.shiftLeft_add_eq_or_of_lt h, Nat.shiftLeft_eq]

lemma pushField_and (info : Nat) (h : v < 2 ^ w) : pushField info w v &&& (2 ^ w - 1) = v := by
  rw [pushField_eq info h, Nat.and_two_pow_sub_one_eq_mod, Nat.mul_add_mod_of_lt h]

lemma pushField_shiftRight (info : Nat) (h : v < 2 ^ w) : pushField info w v >>> w = info := by
  rw [pushField_eq info h, Nat.shiftRight_eq_div_pow, Nat.mul_comm, Nat.mul_add_div (Nat.two_pow_pos w),
    Nat.div_eq_of_lt h, Nat.add_zero]

lemma pushField_lt {k info : Nat} (hinfo : info < 2 ^ k) (h : v < 2 ^ w) : pushField info w v < 2 ^ (k + w) := by
  rw [pushField_eq info h, Nat.pow_add]
  calc info * 2 ^ w + v < (info + 1) * 2 ^ w := by rw [Nat.succ_mul]; omega
    _ ≤ 2 ^ k * 2 ^ w := Nat.mul_le_mul_right _ hinfo

end GaussKernel.Lib
