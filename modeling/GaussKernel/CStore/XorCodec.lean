import GaussKernel.Lib.Bits
import GaussKernel.Lib.Bytes
import Mathlib.Data.Nat.Bitwise

/-!
# XOR codec for floats

Model of `XORCodec` (`time_series_compress.cpp`, `time_series_compress.h`): `compress`, `appendValue`,
`addValueToBitString`, `flushBitString` and `flushLastBitString` on one side, `decompress`, `readNextValue` and
`readValueFromBitString` on the other. A float is the bit pattern that `read_data_by_size` returns.

A value is written as the xor with its predecessor: one bit for an equal value, otherwise either the bits of the
current window of leading and trailing zeros or a new window and its bits. The encoder fills a one-byte
accumulator, the decoder takes one bit at a time; `valueBits` is the bit string that both agree on.
-/

namespace GaussKernel.CStore

open Lib

abbrev kLeadingZerosLengthBits : Nat := 5

abbrev kBlockSizeLengthBits : Nat := 6

abbrev kMaxLeadingZerosLength : Nat := 31

abbrev kBlockSizeAdjustment : Nat := 1

/-- `__builtin_clzll` of a value that is not 0. -/
def clz (x : Nat) : Nat := 63 - Nat.log2 x

/-- `__builtin_ctzll` of a value that is not 0. -/
def ctz (x : Nat) : Nat := ((List.range 64).takeWhile fun i => !x.testBit i).length

/-! ## The encoder -/

/-- The bit count, the accumulator and the output. The accumulator is a `char`, of which only the byte matters. -/
structure BitWriter where
  numBits : Nat
  bitsStore : UInt8
  out : List UInt8
  deriving DecidableEq, Repr

namespace BitWriter

variable (w : BitWriter)

/-- `flushBitString`. -/
def flush : BitWriter :=
  if w.numBits % 8 = 0 then { w with bitsStore := 0, out := w.out ++ [w.bitsStore] } else w

/-- Count `n` more bits, a `uint32_t`, and add `bits` to the accumulator. -/
def store (n bits : Nat) : BitWriter :=
  { w with numBits := (w.numBits + n) % 2 ^ 32, bitsStore := w.bitsStore + UInt8.ofNat bits }

/-- The loop that writes whole bytes: `n` rounds. -/
def addBytes (value : Nat) : Nat → Nat → BitWriter → BitWriter
  | 0, _, w => w
  | n + 1, bitsLeft, w => addBytes value n (bitsLeft - 8) (w.store 8 (value >>> (bitsLeft - 8) &&& 0xFF)).flush

/-- `addValueToBitString`. -/
def addValue (value bitsInValue : Nat) : BitWriter :=
  let bitsAvailable := if w.numBits % 8 ≠ 0 then 8 - w.numBits % 8 else 0
  if bitsInValue ≤ bitsAvailable then
    (w.store bitsInValue (value <<< (bitsAvailable - bitsInValue))).flush
  else
    let w := if bitsAvailable > 0 then (w.store bitsAvailable (value >>> (bitsInValue - bitsAvailable))).flush else w
    let bitsLeft := bitsInValue - bitsAvailable
    let w := addBytes value (bitsLeft / 8) bitsLeft w
    let bitsLeft := bitsLeft % 8
    if bitsLeft ≠ 0 then w.store bitsLeft ((value &&& (2 ^ bitsLeft - 1)) <<< (8 - bitsLeft)) else w

/-- `flushLastBitString`. -/
def flushLast : BitWriter :=
  if w.numBits % 8 ≠ 0 then { w with bitsStore := 0, out := w.out ++ [w.bitsStore] } else w

end BitWriter

/-- The window of the last block that was written in full. -/
structure Window where
  leadingZeros : Nat
  trailingZeros : Nat
  deriving DecidableEq, Repr

/-- `floatSize` less the zeros. -/
def Window.blockSize (p : Window) : Nat := 64 - p.leadingZeros - p.trailingZeros

/-- The members of `XORCodec` that the encoder uses. -/
structure XorEncoder where
  previousValue : Nat
  window : Window
  writer : BitWriter
  deriving DecidableEq, Repr

/-- The window that `appendValue` derives from an xor, with the leading zeros clamped. -/
def ownWindow (x : Nat) : Window :=
  { leadingZeros := if clz x > kMaxLeadingZerosLength then kMaxLeadingZerosLength else clz x
    trailingZeros := ctz x }

/-- Whether `appendValue` keeps the current window. -/
def keepsWindow (p : Window) (x : Nat) : Bool :=
  (ownWindow x).leadingZeros ≥ p.leadingZeros ∧ (ownWindow x).trailingZeros ≥ p.trailingZeros ∧
    p.blockSize < kLeadingZerosLengthBits + kBlockSizeLengthBits + (ownWindow x).blockSize

/-- `appendValue`. -/
def XorEncoder.appendValue (s : XorEncoder) (value : Nat) : XorEncoder :=
  let x := s.previousValue ^^^ value
  if x = 0 then { s with writer := s.writer.addValue 0 1 }
  else
    let w := s.writer.addValue 1 1
    if keepsWindow s.window x then
      let w := w.addValue 1 1
      let w := w.addValue (x >>> s.window.trailingZeros) s.window.blockSize
      { s with previousValue := value, writer := w }
    else
      let own := ownWindow x
      let w := w.addValue 0 1
      let w := w.addValue own.leadingZeros kLeadingZerosLengthBits
      let w := w.addValue (own.blockSize - kBlockSizeAdjustment) kBlockSizeLengthBits
      let w := w.addValue (x >>> own.trailingZeros) own.blockSize
      { previousValue := value, window := own, writer := w }

/-- The constructor of `XORCodec`. -/
def XorEncoder.init : XorEncoder := ⟨0, ⟨0, 0⟩, ⟨0, 0, []⟩⟩

/-- `XORCodec::compress`. -/
def xorCompress (inbuf : List UInt8) (dataSize : Nat) : List UInt8 :=
  ((wordsLE dataSize inbuf).foldl XorEncoder.appendValue XorEncoder.init).writer.flushLast.out

/-! ## The decoder -/

/-- The position in bits, the current byte and the position of the next one. -/
structure BitReader where
  bitPos : Nat
  bitsStore : UInt8
  inPos : Nat
  deriving DecidableEq, Repr

/-- `readValueFromBitString` with the value read so far. The input buffer is longer than the compressed data. -/
def readValueFromBitString (inbuf : Mem) : Nat → Nat → BitReader → Nat × BitReader
  | 0, value, r => (value, r)
  | n + 1, value, r =>
    let bit := r.bitsStore.toNat >>> (7 - r.bitPos % 8) &&& 1
    let value := (value * 2 + bit) % 2 ^ 64
    let r := if (r.bitPos + 1) % 8 = 0
      then { bitPos := r.bitPos + 1, bitsStore := inbuf r.inPos, inPos := r.inPos + 1 }
      else { r with bitPos := r.bitPos + 1 }
    readValueFromBitString inbuf n value r

/-- The variables of `decompress`. -/
structure XorDecoder where
  previousValue : Nat
  window : Window
  reader : BitReader
  deriving DecidableEq, Repr

/-- `readNextValue`: the value is the new `previousValue`. -/
def XorDecoder.readNextValue (inbuf : Mem) (s : XorDecoder) : XorDecoder :=
  let (nonZeroValue, r) := readValueFromBitString inbuf 1 0 s.reader
  if nonZeroValue = 0 then { s with reader := r }
  else
    let (usePrevious, r) := readValueFromBitString inbuf 1 0 r
    if usePrevious ≠ 0 then
      let (x, r) := readValueFromBitString inbuf s.window.blockSize 0 r
      let x := x <<< s.window.trailingZeros % 2 ^ 64
      { s with previousValue := x ^^^ s.previousValue, reader := r }
    else
      let (leadingZeros, r) := readValueFromBitString inbuf kLeadingZerosLengthBits 0 r
      let (size, r) := readValueFromBitString inbuf kBlockSizeLengthBits 0 r
      let blockSize := size + kBlockSizeAdjustment
      let window : Window := { leadingZeros := leadingZeros, trailingZeros := 64 - blockSize - leadingZeros }
      let (x, r) := readValueFromBitString inbuf blockSize 0 r
      let x := x <<< window.trailingZeros % 2 ^ 64
      { previousValue := x ^^^ s.previousValue, window := window, reader := r }

/-- The loop of `decompress`: `n` values are read and written. -/
def xorDecompressLoop (inbuf : Mem) (dataSize : Nat) : Nat → XorDecoder → List UInt8
  | 0, _ => []
  | n + 1, s =>
    let s := s.readNextValue inbuf
    toLE dataSize s.previousValue ++ xorDecompressLoop inbuf dataSize n s

/-- `XORCodec::decompress`. The count is decremented before it is tested, so that 0 wraps around. -/
def xorDecompress (inbuf : Mem) (outsize dataSize : Nat) : List UInt8 :=
  let loopCount := outsize / dataSize
  xorDecompressLoop inbuf dataSize (if loopCount = 0 then 2 ^ 32 else loopCount) ⟨0, ⟨0, 0⟩, ⟨0, inbuf 0, 1⟩⟩

/-! ## The bits of a value -/

/-- The bits that `appendValue` writes for the xor `x`. -/
def valueBits (p : Window) (x : Nat) : List Bool :=
  if x = 0 then [false]
  else if keepsWindow p x then [true, true] ++ natToBits p.blockSize (x >>> p.trailingZeros)
  else [true, false] ++ natToBits kLeadingZerosLengthBits (ownWindow x).leadingZeros ++
    natToBits kBlockSizeLengthBits ((ownWindow x).blockSize - kBlockSizeAdjustment) ++
    natToBits (ownWindow x).blockSize (x >>> (ownWindow x).trailingZeros)

def nextWindow (p : Window) (x : Nat) : Window :=
  if x = 0 ∨ keepsWindow p x then p else ownWindow x

/-! ## The accumulator -/

namespace BitWriter

/-- The bits written so far: whole bytes in the output, the rest at the top of the accumulator. -/
structure Holds (w : BitWriter) (bits : List Bool) : Prop where
  intro ::
  top : ∃ q < 2 ^ (w.numBits % 8), w.bitsStore.toNat = q * 2 ^ (8 - w.numBits % 8) ∧
    bits = bytesToBits w.out ++ natToBits (w.numBits % 8) q

variable {bits : List Bool}

/-- A piece of `a` bits that does not reach beyond the current byte. -/
lemma Holds.push {w : BitWriter} (h : w.Holds bits) {a p : Nat} (ha : 0 < a) (hfit : w.numBits % 8 + a ≤ 8)
    (hp : p < 2 ^ a) : ((w.store a (p * 2 ^ (8 - w.numBits % 8 - a))).flush).Holds (bits ++ natToBits a p) := by
  obtain ⟨q, hq, hstore, rfl⟩ := h.top
  generalize hr : w.numBits % 8 = r at *
  have hnum : (w.numBits + a) % 2 ^ 32 % 8 = (r + a) % 8 := by omega
  have hsplit : 2 ^ (8 - r) = 2 ^ a * 2 ^ (8 - r - a) := by
    rw [← Nat.pow_add]
    congr 1
    omega
  have hlt : q * 2 ^ a + p < 2 ^ (r + a) := by
    calc q * 2 ^ a + p < q * 2 ^ a + 2 ^ a := by omega
      _ = (q + 1) * 2 ^ a := by ring
      _ ≤ 2 ^ r * 2 ^ a := Nat.mul_le_mul_right _ hq
      _ = 2 ^ (r + a) := (Nat.pow_add _ _ _).symm
  have hbyte : (q * 2 ^ a + p) * 2 ^ (8 - r - a) < 2 ^ 8 := by
    calc (q * 2 ^ a + p) * 2 ^ (8 - r - a) < 2 ^ (r + a) * 2 ^ (8 - r - a) :=
          Nat.mul_lt_mul_of_pos_right hlt (by positivity)
      _ = 2 ^ 8 := by
          rw [← Nat.pow_add]
          congr 1
          omega
  have hsum : (w.bitsStore + UInt8.ofNat (p * 2 ^ (8 - r - a))).toNat = (q * 2 ^ a + p) * 2 ^ (8 - r - a) := by
    have hval : q * 2 ^ (8 - r) + p * 2 ^ (8 - r - a) = (q * 2 ^ a + p) * 2 ^ (8 - r - a) := by
      rw [hsplit]
      ring
    rw [UInt8.toNat_add, UInt8.toNat_ofNat', hstore, Nat.add_mod_mod, hval, Nat.mod_eq_of_lt hbyte]
  have hbits : natToBits (r + a) (q * 2 ^ a + p) = natToBits r q ++ natToBits a p :=
    natToBits_shift_add r a q p hp
  rw [flush, store]
  dsimp only
  rw [hnum]
  by_cases hfull : r + a = 8
  · -- the byte is complete
    have hz : 8 - r - a = 0 := by omega
    rw [hz, Nat.pow_zero, Nat.mul_one, Nat.mul_one] at hsum
    rw [hz, Nat.pow_zero, Nat.mul_one, hfull, if_pos rfl]
    refine ⟨0, ?_, ?_, ?_⟩
    · positivity
    · simp
    · dsimp only
      rw [hnum, hfull, bytesToBits_append, bytesToBits_singleton, hsum, ← hfull, hbits, List.append_assoc,
        List.append_assoc]
      simp [natToBits]
  · rw [if_neg (by omega)]
    refine ⟨q * 2 ^ a + p, ?_, ?_, ?_⟩
    · dsimp only
      rw [hnum, Nat.mod_eq_of_lt (by omega)]
      exact hlt
    · dsimp only
      rw [hnum, Nat.mod_eq_of_lt (by omega), hsum, Nat.sub_add_eq]
    · dsimp only
      rw [hnum, Nat.mod_eq_of_lt (by omega), hbits, List.append_assoc]

/-- A piece that leaves the byte incomplete is not flushed. -/
lemma flush_store_of_lt {w : BitWriter} {a bits : Nat} (ha : 0 < a) (h : w.numBits % 8 + a < 8) :
    (w.store a bits).flush = w.store a bits := by
  rw [flush, store]
  refine if_neg ?_
  dsimp only
  omega

lemma numBits_flush (w : BitWriter) : w.flush.numBits = w.numBits := by
  rw [flush]
  split <;> rfl

/-- Whole bytes, written at a byte boundary. -/
lemma Holds.addBytes {w : BitWriter} (h : w.Holds bits) (hw : w.numBits % 8 = 0) (value n k : Nat) :
    (BitWriter.addBytes value n (8 * n + k) w).Holds (bits ++ natToBits (8 * n) (value / 2 ^ k)) ∧
      (BitWriter.addBytes value n (8 * n + k) w).numBits % 8 = 0 := by
  induction n generalizing w bits with
  | zero => simpa [BitWriter.addBytes, natToBits] using ⟨h, hw⟩
  | succ n ih =>
    have hleft : 8 * (n + 1) + k - 8 = 8 * n + k := by omega
    have hpiece : value >>> (8 * n + k) &&& 0xFF = value / 2 ^ k / 2 ^ (8 * n) % 2 ^ 8 := by
      rw [Nat.and_two_pow_sub_one_eq_mod _ 8, Nat.shiftRight_eq_div_pow, Nat.div_div_eq_div_mul, ← Nat.pow_add,
        Nat.add_comm k]
    have hpush := h.push (a := 8) (p := value / 2 ^ k / 2 ^ (8 * n) % 2 ^ 8) (by omega) (by omega)
      (Nat.mod_lt _ (by norm_num))
    rw [hw, Nat.sub_zero, Nat.sub_self, Nat.pow_zero, Nat.mul_one, natToBits_mod] at hpush
    have hbits : natToBits (8 * (n + 1)) (value / 2 ^ k) =
        natToBits 8 (value / 2 ^ k / 2 ^ (8 * n)) ++ natToBits (8 * n) (value / 2 ^ k) := by
      rw [Nat.mul_succ, Nat.add_comm, natToBits_add]
    rw [BitWriter.addBytes, hleft, hpiece, hbits, ← List.append_assoc]
    refine ih hpush ?_
    rw [numBits_flush, store]
    dsimp only
    omega

/-- From a byte boundary on: whole bytes, then the start of a new byte. -/
lemma Holds.addRest {w : BitWriter} (h : w.Holds bits) (hw : w.numBits % 8 = 0) (value left : Nat) :
    (if left % 8 ≠ 0
      then (BitWriter.addBytes value (left / 8) left w).store (left % 8)
        ((value &&& (2 ^ (left % 8) - 1)) <<< (8 - left % 8))
      else BitWriter.addBytes value (left / 8) left w).Holds (bits ++ natToBits left value) := by
  have hleft : 8 * (left / 8) + left % 8 = left := Nat.div_add_mod left 8
  obtain ⟨hbytes, hw'⟩ := h.addBytes hw value (left / 8) (left % 8)
  rw [hleft] at hbytes hw'
  have hbits : natToBits left value =
      natToBits (8 * (left / 8)) (value / 2 ^ (left % 8)) ++ natToBits (left % 8) value := by
    rw [← natToBits_add, hleft]
  rw [hbits, ← List.append_assoc]
  by_cases hk : left % 8 = 0
  · rw [if_neg (not_not.mpr hk), hk]
    rw [hk] at hbytes
    simpa [natToBits] using hbytes
  · rw [if_pos hk]
    have hpush := hbytes.push (a := left % 8) (p := value % 2 ^ (left % 8)) (by omega) (by omega)
      (Nat.mod_lt _ (by positivity))
    rw [hw', Nat.sub_zero, natToBits_mod, flush_store_of_lt (by omega) (by omega)] at hpush
    rw [Nat.and_two_pow_sub_one_eq_mod, Nat.shiftLeft_eq]
    exact hpush

/-- `addValueToBitString` writes the low bits of the value. -/
lemma Holds.addValue {w : BitWriter} (h : w.Holds bits) (value : Nat) {n : Nat} (hn : 0 < n) (hv : value < 2 ^ n) :
    (w.addValue value n).Holds (bits ++ natToBits n value) := by
  by_cases hr : w.numBits % 8 = 0
  · -- at a byte boundary nothing has to be filled up
    have heq := h.addRest hr value n
    rw [BitWriter.addValue]
    simp only [hr, ne_eq, not_true_eq_false, if_false]
    rw [if_neg (by omega)]
    simp only [gt_iff_lt, lt_irrefl, if_false, Nat.sub_zero]
    exact heq
  rw [BitWriter.addValue]
  simp only [ne_eq, hr, not_false_eq_true, if_true]
  by_cases hfit : n ≤ 8 - w.numBits % 8
  · rw [if_pos hfit, Nat.shiftLeft_eq]
    exact h.push hn (by omega) hv
  · generalize hav : 8 - w.numBits % 8 = avail at *
    have hpiece : value >>> (n - avail) < 2 ^ avail := by
      rw [Nat.shiftRight_eq_div_pow]
      apply Nat.div_lt_of_lt_mul
      rw [← Nat.pow_add]
      exact lt_of_lt_of_le hv (Nat.pow_le_pow_right (by norm_num) (by omega))
    have hpush := h.push (a := avail) (p := value >>> (n - avail)) (by omega) (by omega) hpiece
    rw [hav, Nat.sub_self, Nat.pow_zero, Nat.mul_one] at hpush
    have hfull : (w.store avail (value >>> (n - avail))).flush.numBits % 8 = 0 := by
      rw [numBits_flush, store]
      dsimp only
      omega
    have hbits : natToBits n value = natToBits avail (value >>> (n - avail)) ++ natToBits (n - avail) value := by
      rw [Nat.shiftRight_eq_div_pow, ← natToBits_add]
      congr 1
      omega
    have hpos : avail > 0 := by omega
    rw [if_neg hfit, hbits, ← List.append_assoc]
    simp only [if_pos hpos]
    exact hpush.addRest hfull value (n - avail)

/-- The final output: the bits, padded to whole bytes. -/
lemma Holds.flushLast {w : BitWriter} (h : w.Holds bits) : ∃ pad, bytesToBits w.flushLast.out = bits ++ pad := by
  obtain ⟨q, hq, hstore, rfl⟩ := h.top
  rw [BitWriter.flushLast]
  by_cases hr : w.numBits % 8 = 0
  · rw [if_neg (not_not.mpr hr), hr]
    exact ⟨[], by simp [natToBits]⟩
  · rw [if_pos hr]
    refine ⟨natToBits (8 - w.numBits % 8) 0, ?_⟩
    have hsplit := natToBits_shift_add (w.numBits % 8) (8 - w.numBits % 8) q 0 (by positivity)
    have h8 : w.numBits % 8 + (8 - w.numBits % 8) = 8 := by omega
    rw [h8, Nat.add_zero, ← hstore] at hsplit
    dsimp only
    rw [bytesToBits_append, bytesToBits_singleton, hsplit, List.append_assoc]

end BitWriter

/-! ## Windows -/

variable {x pos : Nat} {p : Window} {bits : List Bool} {m : Mem}

lemma testBit_of_lt_ctz {i : Nat} (h : i < ctz x) : x.testBit i = false := by
  have hpre := List.takeWhile_prefix (fun i => !x.testBit i) (l := List.range 64)
  have hget := hpre.getElem h
  have hall := List.all_takeWhile (p := fun i => !x.testBit i) (l := List.range 64)
  have hmem := List.all_eq_true.mp hall _ (List.getElem_mem h)
  rw [hget, List.getElem_range] at hmem
  simpa using hmem

lemma two_pow_ctz_dvd (x : Nat) : 2 ^ ctz x ∣ x := by
  apply Nat.dvd_of_mod_eq_zero
  apply Nat.eq_of_testBit_eq
  intro i
  rw [Nat.testBit_mod_two_pow, Nat.zero_testBit]
  by_cases h : i < ctz x
  · simp [testBit_of_lt_ctz h]
  · simp [h]

lemma ctz_le_log2 (hx : x ≠ 0) : ctz x ≤ Nat.log2 x := by
  by_contra h
  have hbit := testBit_of_lt_ctz (x := x) (i := Nat.log2 x) (by omega)
  rw [Nat.testBit_log2 hx] at hbit
  cases hbit

/-- A window with room for at least one bit. -/
def Window.Valid (p : Window) : Prop := p.leadingZeros + p.trailingZeros ≤ 63

/-- The window leaves out only zeros of `x`. -/
structure Window.Fits (p : Window) (x : Nat) : Prop where
  high : x < 2 ^ (64 - p.leadingZeros)
  low : 2 ^ p.trailingZeros ∣ x

lemma ownWindow_spec (hx : x ≠ 0) (hlt : x < 2 ^ 64) :
    (ownWindow x).Valid ∧ (ownWindow x).Fits x ∧ (ownWindow x).leadingZeros ≤ 31 := by
  have hlog : Nat.log2 x < 64 := (Nat.log2_lt hx).mpr hlt
  have hctz := ctz_le_log2 hx
  have hhigh : x < 2 ^ (Nat.log2 x + 1) := Nat.lt_log2_self
  have hlead : (ownWindow x).leadingZeros ≤ clz x ∧ (ownWindow x).leadingZeros ≤ 31 := by
    simp only [ownWindow, kMaxLeadingZerosLength]
    split <;> omega
  have htrail : (ownWindow x).trailingZeros = ctz x := rfl
  rw [clz] at hlead
  refine ⟨?_, ⟨?_, two_pow_ctz_dvd x⟩, hlead.2⟩
  · rw [Window.Valid]
    omega
  · exact lt_of_lt_of_le hhigh (Nat.pow_le_pow_right (by norm_num) (by omega))

/-- A window that is kept leaves out only zeros of the new xor. -/
lemma Window.fits_of_keeps (hx : x ≠ 0) (hlt : x < 2 ^ 64) (h : keepsWindow p x = true) : p.Fits x := by
  obtain ⟨_, hfits, _⟩ := ownWindow_spec hx hlt
  simp only [keepsWindow, ge_iff_le, decide_eq_true_eq] at h
  refine ⟨?_, ?_⟩
  · exact lt_of_lt_of_le hfits.high (Nat.pow_le_pow_right (by norm_num) (by omega))
  · exact dvd_trans (Nat.pow_dvd_pow 2 h.2.1) hfits.low

lemma Window.blockSize_pos (h : p.Valid) : 0 < p.blockSize := by
  rw [Valid] at h
  rw [blockSize]
  omega

/-- The bits between the zeros of a window. -/
lemma Window.Fits.block (h : p.Fits x) (hp : p.Valid) :
    x >>> p.trailingZeros < 2 ^ p.blockSize ∧ (x >>> p.trailingZeros) <<< p.trailingZeros = x := by
  rw [Window.Valid] at hp
  rw [Nat.shiftRight_eq_div_pow, Nat.shiftLeft_eq]
  refine ⟨?_, Nat.div_mul_cancel h.low⟩
  apply Nat.div_lt_of_lt_mul
  rw [← Nat.pow_add]
  exact lt_of_lt_of_le h.high (Nat.pow_le_pow_right (by norm_num) (by rw [blockSize]; omega))

lemma nextWindow_valid (hp : p.Valid) (hlt : x < 2 ^ 64) : (nextWindow p x).Valid := by
  rw [nextWindow]
  split
  · exact hp
  next h =>
    exact (ownWindow_spec (fun hx => h (.inl hx)) hlt).1

/-! ## The encoder writes the bits of the values -/

lemma XorEncoder.appendValue_spec {s : XorEncoder} (h : s.writer.Holds bits) (hp : s.window.Valid)
    (hprev : s.previousValue < 2 ^ 64) {value : Nat} (hv : value < 2 ^ 64) :
    (s.appendValue value).writer.Holds (bits ++ valueBits s.window (s.previousValue ^^^ value)) ∧
      (s.appendValue value).window = nextWindow s.window (s.previousValue ^^^ value) ∧
      (s.appendValue value).previousValue = value := by
  have hlt : s.previousValue ^^^ value < 2 ^ 64 := Nat.xor_lt_two_pow hprev hv
  rw [appendValue, valueBits, nextWindow]
  by_cases hx : s.previousValue ^^^ value = 0
  · have heq : s.previousValue = value := by
      rw [← Nat.xor_xor_cancel_left s.previousValue value, hx, Nat.xor_zero]
    simp only [hx, if_true, true_or]
    exact ⟨h.addValue 0 one_pos (by norm_num), trivial, heq⟩
  · generalize s.previousValue ^^^ value = x at *
    simp only [hx, if_false, false_or]
    by_cases hk : keepsWindow s.window x = true
    · have hblock := (Window.fits_of_keeps hx hlt hk).block hp
      simp only [hk, if_true]
      refine ⟨?_, trivial, trivial⟩
      have h1 := (h.addValue 1 one_pos (by norm_num)).addValue 1 one_pos (by norm_num)
      have h2 := h1.addValue _ (Window.blockSize_pos hp) hblock.1
      simpa [natToBits] using h2
    · obtain ⟨hvalid, hfits, h31⟩ := ownWindow_spec hx hlt
      have hblock := hfits.block hvalid
      have hpos := Window.blockSize_pos hvalid
      have hsize : (ownWindow x).blockSize ≤ 64 := by
        rw [Window.blockSize]
        omega
      simp only [hk]
      refine ⟨?_, rfl, rfl⟩
      have h1 := (h.addValue 1 one_pos (by norm_num)).addValue 0 one_pos (by norm_num)
      have h2 := h1.addValue (ownWindow x).leadingZeros (n := kLeadingZerosLengthBits) (by norm_num)
        (by norm_num; omega)
      have h3 := h2.addValue ((ownWindow x).blockSize - kBlockSizeAdjustment) (n := kBlockSizeLengthBits)
        (by norm_num) (by norm_num; omega)
      have h4 := h3.addValue _ hpos hblock.1
      simpa [natToBits] using h4

/-- The bits of a sequence of values. -/
def seriesBits : Window → Nat → List Nat → List Bool
  | _, _, [] => []
  | p, prev, v :: vs => valueBits p (prev ^^^ v) ++ seriesBits (nextWindow p (prev ^^^ v)) v vs

lemma XorEncoder.foldl_holds {vs : List Nat} (hvs : ∀ v ∈ vs, v < 2 ^ 64) {s : XorEncoder} (h : s.writer.Holds bits)
    (hp : s.window.Valid) (hprev : s.previousValue < 2 ^ 64) :
    (vs.foldl XorEncoder.appendValue s).writer.Holds (bits ++ seriesBits s.window s.previousValue vs) := by
  induction vs generalizing s bits with
  | nil => simpa [seriesBits] using h
  | cons v vs ih =>
    have hv : v < 2 ^ 64 := hvs v List.mem_cons_self
    obtain ⟨hw, hwin, hpv⟩ := XorEncoder.appendValue_spec h hp hprev hv
    have hlt : s.previousValue ^^^ v < 2 ^ 64 := Nat.xor_lt_two_pow hprev hv
    rw [List.foldl_cons, seriesBits, ← List.append_assoc, ← hwin]
    have hrest := ih (fun u hu => hvs u (List.mem_cons_of_mem _ hu)) hw (by rw [hwin]; exact nextWindow_valid hp hlt)
      (by rw [hpv]; exact hv)
    rwa [hpv] at hrest

/-! ## The decoder reads the bits of the values -/

/-- Bit `i` of a buffer. -/
def bitAt (m : Mem) (i : Nat) : Bool := (m (i / 8)).toNat.testBit (7 - i % 8)

/-- The buffer holds `bits` from bit `pos` on. -/
def BitsAt (m : Mem) (pos : Nat) (bits : List Bool) : Prop :=
  ∀ i b, bits[i]? = some b → bitAt m (pos + i) = b

lemma BitsAt.append {m : Mem} {pos : Nat} (as : List Bool) {bs : List Bool} (h : BitsAt m pos (as ++ bs)) :
    BitsAt m pos as ∧ BitsAt m (pos + as.length) bs := by
  constructor
  · intro i b hb
    obtain ⟨hi, _⟩ := List.getElem?_eq_some_iff.mp hb
    exact h i b (by rw [List.getElem?_append_left hi]; exact hb)
  · intro i b hb
    have hi := h (as.length + i) b (by rw [List.getElem?_append_right (by omega), Nat.add_sub_cancel_left]; exact hb)
    rwa [← Nat.add_assoc] at hi

/-- The reader stands at bit `pos`. -/
structure BitReader.At (m : Mem) (r : BitReader) (pos : Nat) : Prop where
  bitPos : r.bitPos = pos
  bitsStore : r.bitsStore = m (pos / 8)
  inPos : r.inPos = pos / 8 + 1

lemma readValueFromBitString_spec (hbits : BitsAt m pos bits) {r : BitReader} (hr : r.At m pos) (acc : Nat)
    (hacc : (acc + 1) * 2 ^ bits.length ≤ 2 ^ 64) :
    (readValueFromBitString m bits.length acc r).1 = bits.foldl (fun acc b => 2 * acc + b.toNat) acc ∧
      (readValueFromBitString m bits.length acc r).2.At m (pos + bits.length) := by
  induction bits generalizing pos r acc with
  | nil => exact ⟨rfl, hr⟩
  | cons b bits ih =>
    obtain ⟨hb, hrest⟩ := BitsAt.append [b] hbits
    have hbit : r.bitsStore.toNat >>> (7 - r.bitPos % 8) &&& 1 = b.toNat := by
      have h0 : bitAt m pos = b := hb 0 b rfl
      rw [hr.bitsStore, hr.bitPos, ← h0, bitAt, Nat.and_one_is_mod, Nat.shiftRight_eq_div_pow, Nat.toNat_testBit]
    have hb1 : b.toNat ≤ 1 := Bool.toNat_le b
    have hle : (2 * acc + b.toNat + 1) * 2 ^ bits.length ≤ 2 ^ 64 := by
      rw [List.length_cons, Nat.pow_succ] at hacc
      calc (2 * acc + b.toNat + 1) * 2 ^ bits.length ≤ (2 * (acc + 1)) * 2 ^ bits.length :=
            Nat.mul_le_mul_right _ (by omega)
        _ = (acc + 1) * (2 ^ bits.length * 2) := by ring
        _ ≤ 2 ^ 64 := hacc
    have hmod : (acc * 2 + b.toNat) % 2 ^ 64 = 2 * acc + b.toNat := by
      have hone : 1 ≤ 2 ^ bits.length := Nat.one_le_two_pow
      have hlt : 2 * acc + b.toNat + 1 ≤ 2 ^ 64 :=
        le_trans (Nat.le_mul_of_pos_right _ hone) hle
      rw [Nat.mul_comm, Nat.mod_eq_of_lt (by omega)]
    rw [List.length_cons, readValueFromBitString, hbit, hmod, List.foldl_cons]
    have hnext : (if (r.bitPos + 1) % 8 = 0
        then { bitPos := r.bitPos + 1, bitsStore := m r.inPos, inPos := r.inPos + 1 }
        else { r with bitPos := r.bitPos + 1 } : BitReader).At m (pos + 1) := by
      obtain ⟨h1, h2, h3⟩ := hr
      split
      next hz =>
        have hdiv : (pos + 1) / 8 = pos / 8 + 1 := by omega
        exact ⟨by rw [← h1], by rw [h3, hdiv], by rw [h3, hdiv]⟩
      next hz =>
        have hdiv : (pos + 1) / 8 = pos / 8 := by omega
        exact ⟨by rw [← h1], by rw [hdiv]; exact h2, by rw [hdiv]; exact h3⟩
    have hih := ih hrest hnext _ hle
    rw [List.length_singleton, Nat.add_right_comm] at hih
    exact hih

/-- Reading a number of `n` bits. -/
lemma readValue_natToBits {n v : Nat} (hn : n ≤ 64) (hv : v < 2 ^ n) (hbits : BitsAt m pos (natToBits n v))
    {r : BitReader} (hr : r.At m pos) : ∃ r', readValueFromBitString m n 0 r = (v, r') ∧ r'.At m (pos + n) := by
  have h := readValueFromBitString_spec hbits hr 0 (by
    rw [natToBits_length, Nat.zero_add, Nat.one_mul]
    exact Nat.pow_le_pow_right (by norm_num) hn)
  rw [natToBits_length] at h
  have hval : (natToBits n v).foldl (fun acc b => 2 * acc + b.toNat) 0 = v := bitsToNat_natToBits hv
  rw [hval] at h
  exact ⟨_, Prod.ext h.1 rfl, h.2⟩

lemma shiftLeft_block (h : p.Fits x) (hp : p.Valid) : (x >>> p.trailingZeros) <<< p.trailingZeros % 2 ^ 64 = x := by
  rw [(h.block hp).2]
  exact Nat.mod_eq_of_lt (lt_of_lt_of_le h.high (Nat.pow_le_pow_right (by norm_num) (by omega)))

/-- `readNextValue` finds the value from its bits and ends in the encoder's window. -/
lemma XorDecoder.readNextValue_spec {s : XorDecoder} {value : Nat} (hr : s.reader.At m pos) (hp : s.window.Valid)
    (hprev : s.previousValue < 2 ^ 64) (hv : value < 2 ^ 64)
    (hbits : BitsAt m pos (valueBits s.window (s.previousValue ^^^ value))) :
    ∃ r, s.readNextValue m = ⟨value, nextWindow s.window (s.previousValue ^^^ value), r⟩ ∧
      r.At m (pos + (valueBits s.window (s.previousValue ^^^ value)).length) := by
  have hlt : s.previousValue ^^^ value < 2 ^ 64 := Nat.xor_lt_two_pow hprev hv
  have hback : (s.previousValue ^^^ value) ^^^ s.previousValue = value := by
    rw [Nat.xor_comm, Nat.xor_xor_cancel_left]
  rw [nextWindow]
  rw [valueBits] at hbits ⊢
  by_cases hx : s.previousValue ^^^ value = 0
  · have heq : s.previousValue = value := by
      rw [← Nat.xor_xor_cancel_left s.previousValue value, hx, Nat.xor_zero]
    rw [if_pos hx] at hbits
    obtain ⟨r1, h1, hr1⟩ := readValue_natToBits (n := 1) (v := 0) (by norm_num) (by norm_num) hbits hr
    refine ⟨r1, ?_, by rw [if_pos hx]; exact hr1⟩
    rw [if_pos (.inl hx)]
    simp only [readNextValue, h1, if_true, heq]
  · generalize s.previousValue ^^^ value = x at *
    simp only [hx, if_false, false_or] at hbits ⊢
    by_cases hk : keepsWindow s.window x = true
    · rw [if_pos hk] at hbits
      have hfits := Window.fits_of_keeps hx hlt hk
      have hsize : s.window.blockSize ≤ 64 := by
        rw [Window.blockSize]
        omega
      obtain ⟨hb1, hb⟩ := BitsAt.append (natToBits 1 1) hbits
      obtain ⟨hb2, hb3⟩ := BitsAt.append (natToBits 1 1) hb
      obtain ⟨r1, h1, hr1⟩ := readValue_natToBits (by norm_num) (by norm_num) hb1 hr
      obtain ⟨r2, h2, hr2⟩ := readValue_natToBits (by norm_num) (by norm_num) hb2 hr1
      obtain ⟨r3, h3, hr3⟩ := readValue_natToBits hsize (hfits.block hp).1 hb3 hr2
      refine ⟨r3, ?_, ?_⟩
      · rw [if_pos hk]
        simp only [readNextValue, h1, h2, h3, shiftLeft_block hfits hp, hback]
        rfl
      · have hend : pos + ([true, true] ++ natToBits s.window.blockSize (x >>> s.window.trailingZeros)).length =
            pos + 1 + 1 + s.window.blockSize := by
          rw [List.length_append, natToBits_length, List.length_cons, List.length_singleton]
          omega
        rw [if_pos hk, hend]
        exact hr3
    · rw [if_neg hk] at hbits
      obtain ⟨hvalid, hfits, h31⟩ := ownWindow_spec hx hlt
      have hpos := Window.blockSize_pos hvalid
      have hsize : (ownWindow x).blockSize ≤ 64 := by
        rw [Window.blockSize]
        omega
      rw [List.append_assoc, List.append_assoc] at hbits
      obtain ⟨hb1, hb⟩ := BitsAt.append (natToBits 1 1) hbits
      obtain ⟨hb2, hb⟩ := BitsAt.append (natToBits 1 0) hb
      obtain ⟨hb3, hb⟩ := BitsAt.append _ hb
      obtain ⟨hb4, hb5⟩ := BitsAt.append _ hb
      simp only [natToBits_length] at hb3 hb4 hb5
      obtain ⟨r1, h1, hr1⟩ := readValue_natToBits (by norm_num) (by norm_num) hb1 hr
      obtain ⟨r2, h2, hr2⟩ := readValue_natToBits (by norm_num) (by norm_num) hb2 hr1
      obtain ⟨r3, h3, hr3⟩ := readValue_natToBits (by norm_num) (by norm_num; omega) hb3 hr2
      obtain ⟨r4, h4, hr4⟩ := readValue_natToBits (by norm_num) (by norm_num; omega) hb4 hr3
      obtain ⟨r5, h5, hr5⟩ := readValue_natToBits hsize (hfits.block hvalid).1 hb5 hr4
      have hblock : (ownWindow x).blockSize - kBlockSizeAdjustment + kBlockSizeAdjustment = (ownWindow x).blockSize :=
        Nat.sub_add_cancel hpos
      have htrail : 64 - (ownWindow x).blockSize - (ownWindow x).leadingZeros = (ownWindow x).trailingZeros := by
        rw [Window.Valid] at hvalid
        rw [Window.blockSize]
        omega
      refine ⟨r5, ?_, ?_⟩
      · rw [if_neg hk]
        simp only [readNextValue, h1, h2, h3, h4, hblock, h5, htrail, shiftLeft_block hfits hvalid, hback]
        rfl
      · have hend : pos + ([true, false] ++ natToBits kLeadingZerosLengthBits (ownWindow x).leadingZeros ++
            natToBits kBlockSizeLengthBits ((ownWindow x).blockSize - kBlockSizeAdjustment) ++
            natToBits (ownWindow x).blockSize (x >>> (ownWindow x).trailingZeros)).length =
            pos + 1 + 1 + kLeadingZerosLengthBits + kBlockSizeLengthBits + (ownWindow x).blockSize := by
          simp only [List.length_append, natToBits_length, List.length_cons, List.length_nil]
          omega
        rw [if_neg hk, hend]
        exact hr5

lemma xorDecompressLoop_spec (dataSize : Nat) {vs : List Nat} (hvs : ∀ v ∈ vs, v < 2 ^ 64) {s : XorDecoder}
    (hr : s.reader.At m pos) (hp : s.window.Valid) (hprev : s.previousValue < 2 ^ 64)
    (hbits : BitsAt m pos (seriesBits s.window s.previousValue vs)) :
    xorDecompressLoop m dataSize vs.length s = (vs.map (toLE dataSize)).flatten := by
  induction vs generalizing s pos with
  | nil => rfl
  | cons v vs ih =>
    have hv : v < 2 ^ 64 := hvs v List.mem_cons_self
    have hlt : s.previousValue ^^^ v < 2 ^ 64 := Nat.xor_lt_two_pow hprev hv
    rw [seriesBits] at hbits
    obtain ⟨hb1, hb2⟩ := BitsAt.append _ hbits
    obtain ⟨r, hread, hr'⟩ := XorDecoder.readNextValue_spec hr hp hprev hv hb1
    rw [List.length_cons, xorDecompressLoop, hread, List.map_cons, List.flatten_cons]
    dsimp only
    congr 1
    exact ih (fun u hu => hvs u (List.mem_cons_of_mem _ hu)) hr' (nextWindow_valid hp hlt) hv hb2

/-- A buffer that holds a byte string holds its bits. -/
lemma bitsAt_of_read {bytes : List UInt8} (h : m.read 0 bytes.length = bytes) : BitsAt m 0 (bytesToBits bytes) := by
  intro i b hb
  obtain ⟨hi, _⟩ := List.getElem?_eq_some_iff.mp hb
  rw [bytesToBits_length] at hi
  rw [bytesToBits_getElem? hi] at hb
  have hbyte := Mem.read_eq_iff.mp h (i / 8) (by omega)
  rw [Nat.zero_add] at hbyte ⊢
  rw [bitAt, hbyte]
  exact Option.some.inj hb

/-- Decompressing what was compressed, from a buffer with any bytes behind it, gives the input back. -/
theorem xor_roundTrip {inbuf : List UInt8} {dataSize : Nat} (hsize : dataSize = 4 ∨ dataSize = 8)
    (hpos : 0 < inbuf.length) (hmul : inbuf.length % dataSize = 0) {m : Mem}
    (hm : m.read 0 (xorCompress inbuf dataSize).length = xorCompress inbuf dataSize) :
    xorDecompress m inbuf.length dataSize = inbuf := by
  have hvs : ∀ v ∈ wordsLE dataSize inbuf, v < 2 ^ 64 := by
    intro v hv
    have hlt := wordsLE_lt hv
    rcases hsize with rfl | rfl
    · norm_num at hlt ⊢
      omega
    · norm_num at hlt ⊢
      omega
  have hholds : XorEncoder.init.writer.Holds [] := ⟨0, by decide, rfl, rfl⟩
  have hfold := XorEncoder.foldl_holds hvs hholds (by decide : 0 + 0 ≤ 63) (by decide)
  obtain ⟨pad, hpad⟩ := hfold.flushLast
  rw [← xorCompress, List.nil_append] at hpad
  have hbits := bitsAt_of_read hm
  rw [hpad] at hbits
  have hstart : BitReader.At m ⟨0, m 0, 1⟩ 0 := ⟨rfl, rfl, rfl⟩
  have hloop := xorDecompressLoop_spec dataSize hvs (s := ⟨0, ⟨0, 0⟩, ⟨0, m 0, 1⟩⟩) hstart
    (by decide : 0 + 0 ≤ 63) (by norm_num) (BitsAt.append _ hbits).1
  have hcount : inbuf.length / dataSize ≠ 0 := by
    have hdvd := Nat.le_of_dvd hpos (Nat.dvd_of_mod_eq_zero hmul)
    have hdiv := Nat.div_pos hdvd (by omega)
    omega
  rw [wordsLE_length, flatten_wordsLE (by omega) hmul] at hloop
  rw [xorDecompress]
  simp only [hcount, if_false]
  exact hloop

/-- Two floats of four bytes. -/
def sampleFloats : List UInt8 := [0, 0, 0x80, 0x3F, 0, 0, 0, 0x40]

theorem xor_roundTrip_floats :
    xorDecompress (Mem.write (fun _ => 0xAA) 0 (xorCompress sampleFloats 4)) 8 4 = sampleFloats :=
  xor_roundTrip (.inl rfl) (by decide) (by decide) (Mem.read_write _ _ _)

end GaussKernel.CStore
