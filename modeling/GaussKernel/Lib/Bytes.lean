import Mathlib.Tactic
import Mathlib.Data.List.GetD

/-!
# Bytes and byte memories

Little-endian integers and byte-addressed memories, as every on-disk and in-page format of the
development uses them. `toLE w n` lays out the low `w` bytes of `n`, `ofLE` reads a byte string back;
the two are inverse on strings of width `w` (`ofLE_toLE`, `toLE_ofLE`). A `Mem` is a total map from
offsets to bytes; `Mem.write` is `memcpy` into it and `Mem.read` is `memcpy` out of it.
-/

namespace GaussKernel.Lib

/-- The low `w` bytes of `n`, least significant first. -/
def toLE : Nat → Nat → List UInt8
  | 0, _ => []
  | w + 1, n => UInt8.ofNat n :: toLE w (n / 256)

/-- The number a little-endian byte string denotes. -/
def ofLE : List UInt8 → Nat
  | [] => 0
  | b :: bs => b.toNat + 256 * ofLE bs

/-- A width-`w` layout has `w` bytes. -/
@[simp]
lemma toLE_length (w n : Nat) : (toLE w n).length = w := by
  induction w generalizing n with
  | zero => rfl
  | succ w ih => simp [toLE, ih]

/-- Reading a layout back gives the number modulo its width. -/
lemma ofLE_toLE (w n : Nat) : ofLE (toLE w n) = n % 256 ^ w := by
  induction w generalizing n with
  | zero => simp [toLE, ofLE, Nat.mod_one]
  | succ w ih =>
    have hb : (UInt8.ofNat n).toNat = n % 256 := by simp
    rw [toLE, ofLE, ih, hb, Nat.pow_succ, Nat.mul_comm (256 ^ w) 256, Nat.mod_mul]

variable {w : Nat} {ws vs : List Nat}

/-- A number below the width's bound survives the layout. -/
lemma ofLE_toLE_of_lt {n : Nat} (h : n < 256 ^ w) : ofLE (toLE w n) = n := by
  rw [ofLE_toLE, Nat.mod_eq_of_lt h]

/-- A byte string denotes a number below `256 ^ length`. -/
lemma ofLE_lt (bs : List UInt8) : ofLE bs < 256 ^ bs.length := by
  induction bs with
  | nil => simp [ofLE]
  | cons b bs ih =>
    have hb : b.toNat < 256 := b.toNat_lt
    rw [ofLE, List.length_cons, Nat.pow_succ]
    omega

/-- Laying out what a byte string denotes gives the string back. -/
lemma toLE_ofLE {bs : List UInt8} (h : bs.length = w) : toLE w (ofLE bs) = bs := by
  induction bs generalizing w with
  | nil =>
    subst h
    rfl
  | cons b bs ih =>
    subst h
    have hb : b.toNat < 256 := b.toNat_lt
    have hq : (b.toNat + 256 * ofLE bs) / 256 = ofLE bs := by omega
    have hr : UInt8.ofNat (b.toNat + 256 * ofLE bs) = b := by
      apply UInt8.toNat_inj.mp
      rw [UInt8.toNat_ofNat']
      omega
    rw [List.length_cons, ofLE, toLE, hq, hr, ih rfl]

/-! ## Packed fields -/

/-- Integers laid out one after the other, each with its own width. -/
def pack : List Nat → List Nat → List UInt8
  | w :: ws, v :: vs => toLE w v ++ pack ws vs
  | _, _ => []

/-- The integers of a packed byte string. -/
def unpack : List Nat → List UInt8 → List Nat
  | [], _ => []
  | w :: ws, bs => ofLE (bs.take w) :: unpack ws (bs.drop w)

/-- A packed string is as long as its widths say. -/
lemma pack_length (h : ws.length = vs.length) : (pack ws vs).length = ws.sum := by
  induction ws generalizing vs with
  | nil => cases vs <;> rfl
  | cons w ws ih =>
    cases vs with
    | nil => simp at h
    | cons v vs => simp [pack, ih (by simpa using h)]

/-- Unpacking packed fields gives the fields back when each fits its width. -/
lemma unpack_pack (h : List.Forall₂ (fun w v => v < 256 ^ w) ws vs) : unpack ws (pack ws vs) = vs := by
  induction h with
  | nil => rfl
  | @cons w v ws vs hv _ ih =>
    rw [pack, unpack, List.take_left' (by simp), List.drop_left' (by simp), ofLE_toLE_of_lt hv, ih]

/-- Every unpacked field fits its width. -/
lemma unpack_lt (ws : List Nat) (bs : List UInt8) :
    List.Forall₂ (fun w v => v < 256 ^ w) ws (unpack ws bs) := by
  induction ws generalizing bs with
  | nil => exact .nil
  | cons w ws ih =>
    refine .cons ?_ (ih _)
    calc ofLE (bs.take w) < 256 ^ (bs.take w).length := ofLE_lt _
      _ ≤ 256 ^ w := Nat.pow_le_pow_right (by norm_num) (by simp)

/-- Packing unpacked fields gives a string of the right length back. -/
lemma pack_unpack {bs : List UInt8} (h : bs.length = ws.sum) : pack ws (unpack ws bs) = bs := by
  induction ws generalizing bs with
  | nil => simpa [pack] using (List.length_eq_zero_iff.mp (by simpa using h)).symm
  | cons w ws ih =>
    rw [List.sum_cons] at h
    rw [unpack, pack, ih (by rw [List.length_drop]; omega),
      toLE_ofLE (by rw [List.length_take]; omega), List.take_append_drop]

/-! ## Arrays of words -/

/-- The `w`-byte integers of a byte string, one after the other. -/
def wordsLE (w : Nat) (bs : List UInt8) : List Nat :=
  (List.range (bs.length / w)).map fun i => ofLE ((bs.drop (i * w)).take w)

@[simp]
lemma wordsLE_length (w : Nat) (bs : List UInt8) : (wordsLE w bs).length = bs.length / w := by
  simp [wordsLE]

lemma wordsLE_lt {v : Nat} {bs : List UInt8} (h : v ∈ wordsLE w bs) : v < 256 ^ w := by
  obtain ⟨i, _, rfl⟩ := List.mem_map.mp h
  calc ofLE ((bs.drop (i * w)).take w) < 256 ^ ((bs.drop (i * w)).take w).length := ofLE_lt _
    _ ≤ 256 ^ w := Nat.pow_le_pow_right (by norm_num) (by simp)

/-- The words, laid out one after the other, are the byte string. -/
lemma flatten_wordsLE {bs : List UInt8} (hw : 0 < w) (h : bs.length % w = 0) :
    ((wordsLE w bs).map (toLE w)).flatten = bs := by
  have htake : ∀ n ≤ bs.length / w,
      (((List.range n).map fun i => ofLE ((bs.drop (i * w)).take w)).map (toLE w)).flatten = bs.take (n * w) := by
    intro n
    induction n with
    | zero => simp
    | succ n ih =>
      intro hn
      have hlen : ((bs.drop (n * w)).take w).length = w := by
        have hmul : (n + 1) * w ≤ bs.length := (Nat.le_div_iff_mul_le hw).mp hn
        rw [Nat.succ_mul] at hmul
        rw [List.length_take, List.length_drop]
        omega
      rw [List.range_succ, List.map_append, List.map_append, List.flatten_append, ih (by omega), List.map_singleton,
        List.map_singleton, List.flatten_singleton, toLE_ofLE hlen, Nat.succ_mul, List.take_add]
  rw [wordsLE, htake _ le_rfl, Nat.div_mul_cancel (Nat.dvd_of_mod_eq_zero h), List.take_length]

lemma wordsLE_toLE_append {v : Nat} (hw : 0 < w) (h : v < 256 ^ w) (bs : List UInt8) :
    wordsLE w (toLE w v ++ bs) = v :: wordsLE w bs := by
  have hcount : (toLE w v ++ bs).length / w = bs.length / w + 1 := by
    rw [List.length_append, toLE_length, Nat.add_comm, Nat.add_div_right _ hw]
  rw [wordsLE, hcount, List.range_succ_eq_map, List.map_cons, List.map_map, Nat.zero_mul, List.drop_zero,
    List.take_left' (toLE_length _ _), ofLE_toLE_of_lt h]
  refine congrArg (v :: ·) (List.map_congr_left fun i _ => ?_)
  rw [Function.comp_apply, Nat.succ_mul, Nat.add_comm, ← List.drop_drop, List.drop_left' (toLE_length _ _)]

/-- The words of integers that are laid out one after the other are the integers. -/
lemma wordsLE_flatMap (hw : 0 < w) (h : ∀ v ∈ vs, v < 256 ^ w) : wordsLE w (vs.flatMap (toLE w)) = vs := by
  induction vs with
  | nil => simp [wordsLE]
  | cons v vs ih =>
    rw [List.flatMap_cons, wordsLE_toLE_append hw (h v List.mem_cons_self),
      ih fun u hu => h u (List.mem_cons_of_mem v hu)]

/-! ## Memories -/

/-- A byte-addressed memory. -/
abbrev Mem := Nat → UInt8

namespace Mem

/-- The `n` bytes from offset `off` on. -/
def read (m : Mem) (off n : Nat) : List UInt8 :=
  (List.range n).map fun i => m (off + i)

/-- Copy `bs` to offset `off`. -/
def write (m : Mem) (off : Nat) (bs : List UInt8) : Mem := fun i =>
  if off ≤ i ∧ i < off + bs.length then bs.getD (i - off) 0 else m i

/-- A read of `n` bytes has length `n`. -/
@[simp]
lemma read_length (m : Mem) (off n : Nat) : (m.read off n).length = n := by
  simp [read]

variable {m : Mem} {off n : Nat}

/-- Byte `i` of a read. -/
lemma read_getD {i : Nat} (h : i < n) : (m.read off n).getD i 0 = m (off + i) := by
  simp [read, List.getD_eq_getElem?_getD, h]

/-- Two memories that agree on a range read the same there. -/
lemma read_congr {m' : Mem} (h : ∀ i < n, m (off + i) = m' (off + i)) : m.read off n = m'.read off n := by
  apply List.map_congr_left
  intro i hi
  exact h i (List.mem_range.mp hi)

/-- A read equals a byte string exactly when every byte does. -/
lemma read_eq_iff {bs : List UInt8} : m.read off bs.length = bs ↔ ∀ i < bs.length, m (off + i) = bs.getD i 0 := by
  constructor
  · intro h i hi
    have hget : (m.read off bs.length).getD i 0 = m (off + i) := read_getD hi
    rw [← hget, h]
  · intro h
    apply List.ext_getElem
    · simp
    · intro i h1 h2
      have hi := h i h2
      rw [List.getD_eq_getElem _ _ h2] at hi
      simp [read, hi]

/-- A split read. -/
lemma read_add (m : Mem) (off n k : Nat) :
    m.read off (n + k) = m.read off n ++ m.read (off + n) k := by
  simp [read, List.range_add, Function.comp_def, Nat.add_assoc]

/-- A memory holds two strings in a row exactly when it holds each of them. -/
lemma read_append_iff {as bs : List UInt8} :
    m.read off (as ++ bs).length = as ++ bs ↔
      m.read off as.length = as ∧ m.read (off + as.length) bs.length = bs := by
  rw [List.length_append, read_add]
  constructor
  · intro h
    exact List.append_inj h (by simp)
  · rintro ⟨h1, h2⟩
    rw [h1, h2]

/-- A prefix of a read. -/
lemma read_take {k : Nat} (h : k ≤ n) : (m.read off n).take k = m.read off k := by
  obtain ⟨j, rfl⟩ := Nat.exists_eq_add_of_le h
  rw [read_add, List.take_left' (by simp)]

/-- A suffix of a read. -/
lemma read_drop {k : Nat} (h : k ≤ n) : (m.read off n).drop k = m.read (off + k) (n - k) := by
  obtain ⟨j, rfl⟩ := Nat.exists_eq_add_of_le h
  rw [read_add, List.drop_left' (by simp), Nat.add_sub_cancel_left]

/-- A write sets the bytes of its range. -/
lemma write_in {i : Nat} {bs : List UInt8} (h1 : off ≤ i) (h2 : i < off + bs.length) :
    m.write off bs i = bs.getD (i - off) 0 :=
  if_pos ⟨h1, h2⟩

/-- A write leaves every byte outside its range. -/
lemma write_out {i : Nat} {bs : List UInt8} (h : i < off ∨ off + bs.length ≤ i) : m.write off bs i = m i := by
  refine if_neg ?_
  omega

/-- An empty write is no write. -/
@[simp]
lemma write_nil (m : Mem) (off : Nat) : m.write off [] = m := by
  funext i
  apply write_out
  simp
  omega

/-- Consecutive writes are one write. -/
lemma write_append (m : Mem) (off : Nat) (as bs : List UInt8) :
    (m.write off as).write (off + as.length) bs = m.write off (as ++ bs) := by
  funext i
  by_cases h1 : i < off ∨ off + (as.length + bs.length) ≤ i
  · rw [write_out (by omega), write_out (by omega), write_out (by simpa using h1)]
  · by_cases h2 : i < off + as.length
    · rw [write_out (by omega), write_in (by omega) h2, write_in (by omega) (by simp; omega),
        List.getD_append _ _ _ _ (by omega)]
    · rw [write_in (by omega) (by omega), write_in (by omega) (by simp; omega),
        List.getD_append_right _ _ _ _ (by omega), Nat.sub_add_eq]

/-- What was written is read back. -/
lemma read_write (m : Mem) (off : Nat) (bs : List UInt8) :
    (m.write off bs).read off bs.length = bs := by
  rw [read_eq_iff]
  intro i hi
  rw [write_in (by omega) (by omega), Nat.add_sub_cancel_left]

/-- A read beside a write is unaffected. -/
lemma read_write_out {bs : List UInt8} {o : Nat} (h : o + n ≤ off ∨ off + bs.length ≤ o) :
    (m.write off bs).read o n = m.read o n := by
  apply read_congr
  intro i hi
  apply write_out
  omega

end Mem

/-! ## Splicing -/

/-- `bs` with the bytes from `i` on replaced by `cs`. -/
def splice (bs : List UInt8) (i : Nat) (cs : List UInt8) : List UInt8 := bs.take i ++ cs ++ bs.drop (i + cs.length)

variable {bs cs : List UInt8} {i j : Nat}

lemma splice_getD_in (h : i + cs.length ≤ bs.length) (hj : j < cs.length) :
    (splice bs i cs).getD (i + j) 0 = cs.getD j 0 := by
  have hi : (bs.take i).length = i := by simp; omega
  rw [splice, List.append_assoc, List.getD_append_right _ _ _ _ (by omega), hi, Nat.add_sub_cancel_left,
    List.getD_append _ _ _ _ hj]

lemma splice_getD_before (h : i ≤ bs.length) (hj : j < i) : (splice bs i cs).getD j 0 = bs.getD j 0 := by
  have hi : (bs.take i).length = i := by simp; omega
  rw [splice, List.append_assoc, List.getD_append _ _ _ _ (by omega), List.getD_eq_getElem?_getD,
    List.getD_eq_getElem?_getD, List.getElem?_take_of_lt hj]

/-- The spliced bytes are where they were put. -/
lemma splice_drop_take (h : i ≤ bs.length) (cs : List UInt8) : ((splice bs i cs).drop i).take cs.length = cs := by
  have hi : (bs.take i).length = i := by simp; omega
  rw [splice, List.append_assoc, List.drop_left' hi, List.take_left' rfl]

/-- A read around a write. -/
lemma Mem.read_write_within (m : Mem) {off n : Nat} (h : i + cs.length ≤ n) :
    (m.write (off + i) cs).read off n = splice (m.read off n) i cs := by
  obtain ⟨k, rfl⟩ := Nat.exists_eq_add_of_le h
  have hbefore : (m.write (off + i) cs).read off i = m.read off i := read_write_out (.inl le_rfl)
  have hafter : (m.write (off + i) cs).read (off + (i + cs.length)) k = m.read (off + (i + cs.length)) k :=
    read_write_out (.inr (by omega))
  rw [splice, read_take (by omega), read_drop h, read_add, read_add, hbefore, read_write, hafter,
    Nat.add_sub_cancel_left]

end GaussKernel.Lib
