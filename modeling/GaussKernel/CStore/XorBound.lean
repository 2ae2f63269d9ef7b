import Mathlib
import GaussKernel.CStore.XorCodec

/-!
# Length of compressed floats

`SequenceCodec::compress` gives `XORCodec::compress` a buffer of one byte more than its size for every value. What a value
costs depends on the window in force: an own window costs 13 bits beside its block.
-/

namespace GaussKernel.CStore
open Lib

/-- The xors of neighbouring values. -/
def neighbourXors : (prev : Nat) → List Nat → List Nat
  | _, [] => []
  | prev, v :: vs => (prev ^^^ v) :: neighbourXors v vs

/-- One bit for an equal value, two beside the block of a window that is kept, 13 beside the block of an own window. -/
def bitCost (p : Window) (x : Nat) : Nat :=
  if x = 0 then 1
  else if keepsWindow p x then 2 + p.blockSize
  else 13 + (ownWindow x).blockSize

def totalCost : Window → List Nat → Nat
  | _, [] => 0
  | p, x :: xs => bitCost p x + totalCost (nextWindow p x) xs

lemma valueBits_length (p : Window) (x : Nat) : (valueBits p x).length = bitCost p x := by
  unfold valueBits bitCost
  split
  · rfl
  · split
    · rw [List.length_append, natToBits_length]
      rfl
    · simp only [List.length_append, natToBits_length, List.length_cons, List.length_nil]
      rfl

lemma seriesBits_length (p : Window) (prev : Nat) (vs : List Nat) :
    (seriesBits p prev vs).length = totalCost p (neighbourXors prev vs) := by
  induction vs generalizing p prev with
  | nil => rfl
  | cons v vs ih => rw [seriesBits, List.length_append, valueBits_length, ih, neighbourXors, totalCost]

/-- The last byte is the only one that is not full. -/
lemma BitWriter.Holds.flushLast_length {w : BitWriter} {bits : List Bool} (h : w.Holds bits) (k : Nat) :
    w.flushLast.out.length ≤ k ↔ bits.length ≤ 8 * k := by
  obtain ⟨q, -, -, rfl⟩ := h.top
  rw [List.length_append, bytesToBits_length, natToBits_length, BitWriter.flushLast]
  split
  · rw [List.length_append, List.length_singleton]
    omega
  · omega

lemma xorCompress_length_le_iff {inbuf : List UInt8} {dataSize : Nat} (hsize : dataSize = 4 ∨ dataSize = 8) (k : Nat) :
    (xorCompress inbuf dataSize).length ≤ k ↔
      totalCost ⟨0, 0⟩ (neighbourXors 0 (wordsLE dataSize inbuf)) ≤ 8 * k := by
  have hvs : ∀ v ∈ wordsLE dataSize inbuf, v < 2 ^ 64 := by
    intro v hv
    have hlt := wordsLE_lt hv
    have hpow : 256 ^ dataSize ≤ 2 ^ 64 := by
      rcases hsize with rfl | rfl
      · norm_num
      · norm_num
    omega
  have hholds : XorEncoder.init.writer.Holds [] := ⟨0, by decide, rfl, rfl⟩
  have hfold := XorEncoder.foldl_holds hvs hholds (by decide : 0 + 0 ≤ 63) (by decide)
  rw [xorCompress, hfold.flushLast_length, List.nil_append, seriesBits_length]
  rfl

/-- The compressed bytes fit into the buffer exactly when the costs sum to no more than its bits. -/
theorem xor_buffer_fits_iff {inbuf : List UInt8} {dataSize : Nat} (hsize : dataSize = 4 ∨ dataSize = 8) :
    (xorCompress inbuf dataSize).length ≤ inbuf.length / dataSize * (dataSize + 1) ↔
      totalCost ⟨0, 0⟩ (neighbourXors 0 (wordsLE dataSize inbuf)) ≤ inbuf.length / dataSize * (8 * (dataSize + 1)) := by
  rw [xorCompress_length_le_iff hsize, Nat.mul_left_comm]

/-- Two floats whose last bits are not set. -/
theorem xor_buffer_fits_iff_floats : (xorCompress sampleFloats 4).length ≤ 2 * (4 + 1) ↔
      totalCost ⟨0, 0⟩ (neighbourXors 0 (wordsLE 4 sampleFloats)) ≤ 2 * (8 * (4 + 1)) :=
  xor_buffer_fits_iff (.inl rfl)

/-- One float whose last bit is set; three doubles, each with a wide window of its own. -/
theorem xor_buffer_overrun : (xorCompress [0xCD, 0xCC, 0xCC, 0x3D] 4).length = 1 * (4 + 1) + 1 ∧
      (xorCompress [0, 4, 0, 0, 0, 0, 0, 64, 2, 4, 0, 0, 0, 0, 0, 192, 3, 4, 0, 0, 0, 0, 0, 128] 8).length =
        3 * (8 + 1) + 1 := by
  decide

end GaussKernel.CStore
