import Mathlib
import GaussKernel.Cbb.Hll
import GaussKernel.Lib.Registers

/-!
# Sparse mode

The registers that the bytes of the sparse mode stand for, and what every routine that reads or writes them does to
the registers.
-/

namespace GaussKernel.Cbb
open Lib

/-- The registers of a byte. -/
def byteRun (byte : UInt8) : List Nat :=
  match byteType byte with
  | .sparseLongzero => List.replicate (byteGetValue byte * 64) 0
  | .sparseZero => List.replicate (byteGetValue byte) 0
  | .denseValue => [byteGetValue byte]
  | .sparseValue => []

def expand (bytes : List UInt8) : List Nat := bytes.flatMap byteRun

/-- The bytes stand for the registers `regs`. -/
structure Codes (bytes : List UInt8) (regs : List Nat) : Prop where
  valid : ∀ byte ∈ bytes, byteType byte ≠ .sparseValue
  expand_eq : expand bytes = regs

@[simp]
lemma expand_nil : expand [] = [] := rfl

@[simp]
lemma expand_cons (byte : UInt8) (bytes : List UInt8) : expand (byte :: bytes) = byteRun byte ++ expand bytes := rfl

@[simp]
lemma expand_append (bytes bytes' : List UInt8) : expand (bytes ++ bytes') = expand bytes ++ expand bytes' := by
  simp [expand]

lemma Codes.nil : Codes [] [] := ⟨by simp, rfl⟩

lemma Codes.append {bytes bytes' : List UInt8} {regs regs' : List Nat} (h : Codes bytes regs)
    (h' : Codes bytes' regs') : Codes (bytes ++ bytes') (regs ++ regs') := by
  refine ⟨fun byte hb => ?_, by rw [expand_append, h.expand_eq, h'.expand_eq]⟩
  rcases List.mem_append.mp hb with hb | hb
  · exact h.valid byte hb
  · exact h'.valid byte hb

variable {pre post bytes : List UInt8} {byte : UInt8} {regs : List Nat} {value count u : Nat}

/-- The parts of a code are codes. -/
lemma Codes.split (h : Codes (pre ++ byte :: post) regs) :
    Codes pre (expand pre) ∧ Codes post (expand post) ∧ byteType byte ≠ .sparseValue ∧
      regs = expand pre ++ byteRun byte ++ expand post := by
  refine ⟨⟨fun b hb => h.valid b (by simp [hb]), rfl⟩, ⟨fun b hb => h.valid b (by simp [hb]), rfl⟩,
    h.valid byte (by simp), ?_⟩
  rw [← h.expand_eq]
  simp

/-! ## Bytes -/

lemma byteGetValue_pos (byte : UInt8) : 0 < byteGetValue byte := Nat.succ_pos _

lemma byteGetValue_le (byte : UInt8) : byteGetValue byte ≤ 64 := by
  unfold byteGetValue
  omega

lemma setDenseValue_toNat (h0 : 0 < value) (h : value ≤ 64) : (setDenseValue value).toNat = 127 + value := by
  have hall : ∀ v < 64, (setDenseValue (v + 1)).toNat = 128 + v := by decide +kernel
  obtain ⟨v, rfl⟩ : ∃ v, value = v + 1 := ⟨value - 1, by omega⟩
  rw [hall v (by omega)]
  omega

lemma setZeroValue_toNat (h0 : 0 < value) (h : value ≤ 64) : (setZeroValue value).toNat = 63 + value := by
  have hall : ∀ v < 64, (setZeroValue (v + 1)).toNat = 64 + v := by decide +kernel
  obtain ⟨v, rfl⟩ : ∃ v, value = v + 1 := ⟨value - 1, by omega⟩
  rw [hall v (by omega)]
  omega

lemma byteType_longzero (h : byte.toNat < 64) : byteType byte = .sparseLongzero := by
  unfold byteType
  rw [show byte.toNat / 64 = 0 by omega]
  rfl

lemma byteType_zero (h : byte.toNat / 64 = 1) : byteType byte = .sparseZero := by
  unfold byteType
  rw [h]
  rfl

lemma byteType_dense (h : byte.toNat / 64 = 2) : byteType byte = .denseValue := by
  unfold byteType
  rw [h]
  rfl

lemma codes_dense (h0 : 0 < value) (h : value ≤ 64) : Codes [setDenseValue value] [value] := by
  have hn := setDenseValue_toNat h0 h
  have hty : byteType (setDenseValue value) = .denseValue := byteType_dense (by omega)
  refine ⟨by simp [hty], ?_⟩
  simp only [expand_cons, expand_nil, byteRun, hty, byteGetValue, List.append_nil]
  congr 1
  omega

lemma codes_zero (h0 : 0 < count) (h : count ≤ 64) : Codes [setZeroValue count] (List.replicate count 0) := by
  have hn := setZeroValue_toNat h0 h
  have hty : byteType (setZeroValue count) = .sparseZero := byteType_zero (by omega)
  refine ⟨by simp [hty], ?_⟩
  simp only [expand_cons, expand_nil, byteRun, hty, byteGetValue, List.append_nil]
  congr 1
  omega

lemma codes_longzero (h0 : 64 ≤ count) (h : count < 4160) :
    Codes [setLongzeroValue count] (List.replicate (count / 64 * 64) 0) := by
  have hn : (setLongzeroValue count).toNat = count / 64 - 1 := by
    rw [setLongzeroValue, UInt8.toNat_ofNat', Nat.mod_eq_of_lt (by omega)]
  have hty : byteType (setLongzeroValue count) = .sparseLongzero := byteType_longzero (by omega)
  refine ⟨by simp [hty], ?_⟩
  simp only [expand_cons, expand_nil, byteRun, hty, byteGetValue, List.append_nil]
  congr 1
  omega

/-- `HLL_LONGZERO_FULL` -/
lemma codes_longzeroFull (n : Nat) : Codes (List.replicate n 0x3F) (List.replicate (n * 4096) 0) := by
  induction n with
  | zero => simpa using Codes.nil
  | succ n ih =>
    have hone : Codes [0x3F] (List.replicate 4096 0) := codes_longzero (show 64 ≤ 4096 by decide) (by decide)
    have h := hone.append ih
    rw [← List.replicate_add] at h
    rw [List.replicate_succ, show (n + 1) * 4096 = 4096 + n * 4096 by omega]
    exact h

/-- The zeros of a count below 64, which may be none. -/
lemma codes_zeroRest (h : count < 64) :
    Codes (if count > 0 then [setZeroValue count] else []) (List.replicate count 0) := by
  split
  case isTrue h0 => exact codes_zero h0 (by omega)
  case isFalse h0 =>
    rw [show count = 0 by omega]
    exact Codes.nil

lemma codes_longzeroRest (h0 : 64 ≤ count) (h : count < 4160) :
    Codes (setLongzeroValue count :: (if count % 64 > 0 then [setZeroValue (count % 64)] else []))
      (List.replicate count 0) := by
  have hc := (codes_longzero h0 h).append (codes_zeroRest (Nat.mod_lt count (by decide)))
  rw [← List.replicate_add, Nat.div_add_mod'] at hc
  exact hc

lemma codes_setSparseZeroBytes (h : count < 4160) : Codes (setSparseZeroBytes count) (List.replicate count 0) := by
  unfold setSparseZeroBytes
  split
  case isTrue h0 => exact codes_longzeroRest h0 h
  case isFalse h0 => exact codes_zeroRest (by omega)

lemma codes_setSparseZero (count : Nat) : Codes (setSparseZero count) (List.replicate count 0) := by
  unfold setSparseZero
  dsimp only
  split
  case isTrue h0 =>
    have hfull := codes_longzeroFull (count / 4096)
    have hsum : count / 4096 * 4096 + count % 4096 = count := Nat.div_add_mod' _ _
    split
    case isTrue h1 =>
      have h := hfull.append (codes_longzeroRest h1 (by omega))
      rw [← List.replicate_add, hsum] at h
      simpa using h
    case isFalse h1 =>
      have h := hfull.append (codes_zeroRest (show count % 4096 < 64 by omega))
      rwa [← List.replicate_add, hsum] at h
  case isFalse h0 => exact codes_zeroRest (by omega)

lemma codes_emptyToSparse (p : HllPara) : Codes (emptyToSparse p) (List.replicate (2 ^ p.log2Registers) 0) := by
  obtain ⟨hmin, hmax⟩ := p.registers_range
  unfold emptyToSparse
  dsimp only
  by_cases h : p.log2Registers > 12
  · have hone : 1 < 2 ^ (p.log2Registers - 12) := Nat.one_lt_two_pow (by omega)
    have hpow : 2 ^ (p.log2Registers - 12) * 4096 = 2 ^ p.log2Registers := by
      rw [show 4096 = 2 ^ 12 by rfl, ← Nat.pow_add]
      congr 1
      omega
    rw [if_pos h, if_pos hone, ← hpow]
    exact codes_longzeroFull _
  · rw [if_neg h, if_neg (by decide)]
    obtain hm | hm | hm : p.log2Registers = 10 ∨ p.log2Registers = 11 ∨ p.log2Registers = 12 := by omega
    all_goals
      rw [hm]
      exact codes_longzero (by decide) (by decide)

/-! ## One register -/

lemma byteRun_pos (h : byteType byte ≠ .sparseValue) : 0 < (byteRun byte).length := by
  have hv := byteGetValue_pos byte
  unfold byteRun
  cases hty : byteType byte with
  | sparseLongzero => simp [hv]
  | sparseZero => simp [hv]
  | denseValue => simp
  | sparseValue => exact absurd hty h

lemma byteRegisters_eq (h : byteType byte ≠ .sparseValue) : byteRegisters byte = some (byteRun byte).length := by
  unfold byteRegisters byteRun
  cases hty : byteType byte with
  | sparseLongzero => simp
  | sparseZero => simp
  | denseValue => rfl
  | sparseValue => exact absurd hty h

lemma registerUnitLoop_spec {registerIndex : Nat} (i sum : Nat) (hvalid : ∀ byte ∈ bytes, byteType byte ≠ .sparseValue)
    (hsum : sum ≤ registerIndex) (hlt : registerIndex < sum + (expand bytes).length) :
    ∃ pre byte post u, bytes = pre ++ byte :: post ∧ u < (byteRun byte).length ∧
      registerIndex = sum + (expand pre).length + u ∧
      registerUnitLoop registerIndex bytes i sum = some (i + pre.length, u) := by
  induction bytes generalizing i sum with
  | nil => simp at hlt; omega
  | cons byte bytes ih =>
    rw [registerUnitLoop, byteRegisters_eq (hvalid byte (by simp))]
    dsimp only
    split
    case isTrue h =>
      refine ⟨[], byte, bytes, registerIndex - sum, rfl, by omega, ?_, rfl⟩
      simp
      omega
    case isFalse h =>
      rw [expand_cons, List.length_append] at hlt
      obtain ⟨pre, b, post, u, hbytes, hu, hidx, hloop⟩ := ih (i + 1) (sum + (byteRun byte).length)
        (fun b hb => hvalid b (by simp [hb])) (by omega) (by omega)
      refine ⟨byte :: pre, b, post, u, by rw [hbytes]; rfl, hu, ?_, ?_⟩
      · rw [expand_cons, List.length_append]
        omega
      · rw [hloop, List.length_cons]
        congr 2
        omega

lemma getRegisterUnit_spec {registerIndex : Nat} (hvalid : ∀ byte ∈ bytes, byteType byte ≠ .sparseValue)
    (hlt : registerIndex < (expand bytes).length) :
    ∃ pre byte post u, bytes = pre ++ byte :: post ∧ u < (byteRun byte).length ∧
      registerIndex = (expand pre).length + u ∧ getRegisterUnit bytes registerIndex = some (pre.length, u) := by
  unfold getRegisterUnit
  split
  case isTrue h0 =>
    cases bytes with
    | nil => simp at hlt
    | cons byte bytes => exact ⟨[], byte, bytes, 0, rfl, byteRun_pos (hvalid byte (by simp)), by simpa using h0, rfl⟩
  case isFalse =>
    obtain ⟨pre, byte, post, u, hbytes, hu, hidx, hloop⟩ :=
      registerUnitLoop_spec 0 0 hvalid (Nat.zero_le registerIndex) (by omega)
    exact ⟨pre, byte, post, u, hbytes, hu, by omega, by rw [hloop, Nat.zero_add]⟩

lemma updateValue_eq (pre mid post insertValue : List UInt8) (h : mid.length ≤ insertValue.length) :
    updateValue (pre ++ mid ++ post) pre.length insertValue mid.length = some (pre ++ insertValue ++ post) := by
  unfold updateValue
  rw [if_neg (by simp; omega)]
  simp [List.drop_append]

/-- The bytes that replace a run of zeros by zeros, a value and zeros. -/
lemma codes_splitZeros {zeros zeros' : List UInt8} {regs' : List Nat} {n : Nat} (hu : u < n) (hpre : Codes pre regs)
    (hz : Codes zeros (List.replicate u 0)) (hz' : Codes zeros' (List.replicate (n - u - 1) 0)) (h0 : 0 < value)
    (hv : value ≤ 64) (hpost : Codes post regs') :
    Codes (pre ++ (zeros ++ [setDenseValue value] ++ zeros') ++ post)
      (raise (regs ++ List.replicate n 0 ++ regs') (regs.length + u) value) := by
  have h := (hpre.append ((hz.append (codes_dense h0 hv)).append hz')).append hpost
  have heq := raise_replicate regs regs' hu value
  simp only [Nat.bot_eq_zero] at heq
  rw [heq]
  simpa using h

lemma setSparseZeroBytes_length (h : 0 < count) : 0 < (setSparseZeroBytes count).length := by
  unfold setSparseZeroBytes
  by_cases h64 : count ≥ 64
  · rw [if_pos h64]
    exact Nat.succ_pos _
  · rw [if_neg h64, if_pos h]
    exact Nat.one_pos

lemma updateSparseType1_alone (hpost : ∀ later ∈ post.head?, byteType later ≠ .sparseZero) :
    updateSparseType1 (pre ++ byte :: post) pre.length u value = some (pre ++ (setSparseZeroBytes u ++
      [setDenseValue value] ++ setSparseZeroBytes (byteGetValue byte * 64 - u - 1)) ++ post) := by
  have h := updateValue_eq pre [byte] post
    (setSparseZeroBytes u ++ [setDenseValue value] ++ setSparseZeroBytes (byteGetValue byte * 64 - u - 1))
    (by simp; omega)
  unfold updateSparseType1
  rw [show (pre ++ byte :: post)[pre.length]? = some byte by simp,
    show (pre ++ byte :: post)[pre.length + 1]? = post[0]? by simp [List.getElem?_append_right]]
  dsimp only [Option.bind_eq_bind, Option.bind_some]
  cases post with
  | nil => simpa using h
  | cons later post =>
    dsimp only [List.getElem?_cons_zero]
    rw [if_neg (hpost later rfl)]
    simpa using h

/-- The zeros of the byte behind join those on the right. -/
lemma updateSparseType1_joined {later : UInt8} (hlater : byteType later = .sparseZero) :
    updateSparseType1 (pre ++ byte :: later :: post) pre.length u value = some (pre ++ (setSparseZeroBytes u ++
      [setDenseValue value] ++ setSparseZeroBytes (byteGetValue byte * 64 - u - 1 + byteGetValue later)) ++ post) := by
  have hlen := setSparseZeroBytes_length (show 0 < byteGetValue byte * 64 - u - 1 + byteGetValue later from
    Nat.add_pos_right _ (byteGetValue_pos later))
  have h := updateValue_eq pre [byte, later] post (setSparseZeroBytes u ++ [setDenseValue value] ++
    setSparseZeroBytes (byteGetValue byte * 64 - u - 1 + byteGetValue later)) (by simp; omega)
  unfold updateSparseType1
  rw [show (pre ++ byte :: later :: post)[pre.length]? = some byte by simp,
    show (pre ++ byte :: later :: post)[pre.length + 1]? = some later by simp]
  dsimp only [Option.bind_eq_bind, Option.bind_some]
  rw [if_pos hlater]
  simpa using h

lemma updateSparseType1_codes (h : Codes (pre ++ byte :: post) regs) (hty : byteType byte = .sparseLongzero)
    (hu : u < (byteRun byte).length) (h0 : 0 < value) (hv : value ≤ 64) :
    ∃ bytes, updateSparseType1 (pre ++ byte :: post) pre.length u value = some bytes ∧
      Codes bytes (raise regs ((expand pre).length + u) value) := by
  obtain ⟨hpre, hpost, -, hregs⟩ := h.split
  have hrun : byteRun byte = List.replicate (byteGetValue byte * 64) 0 := by rw [byteRun, hty]
  have hmax := byteGetValue_le byte
  rw [hrun, List.length_replicate] at hu
  rw [hrun] at hregs
  have halone : (∀ later ∈ post.head?, byteType later ≠ .sparseZero) →
      ∃ bytes, updateSparseType1 (pre ++ byte :: post) pre.length u value = some bytes ∧
        Codes bytes (raise regs ((expand pre).length + u) value) := fun hhead =>
    ⟨_, updateSparseType1_alone hhead, hregs ▸ codes_splitZeros hu hpre (codes_setSparseZeroBytes (by omega))
      (codes_setSparseZeroBytes (by omega)) h0 hv hpost⟩
  cases post with
  | nil => exact halone fun later hl => by cases hl
  | cons later post =>
    by_cases hlater : byteType later = .sparseZero
    · obtain ⟨-, hpost', -, -⟩ := (show Codes ([] ++ later :: post) _ from hpost).split
      have hlrun : byteRun later = List.replicate (byteGetValue later) 0 := by rw [byteRun, hlater]
      have hlmax := byteGetValue_le later
      rw [expand_cons, hlrun, List.append_assoc, ← List.append_assoc (List.replicate _ _), ← List.replicate_add,
        ← List.append_assoc] at hregs
      have hright : byteGetValue byte * 64 - u - 1 + byteGetValue later =
          byteGetValue byte * 64 + byteGetValue later - u - 1 := by omega
      have hzeros := codes_setSparseZeroBytes
        (show byteGetValue byte * 64 + byteGetValue later - u - 1 < 4160 by omega)
      refine ⟨_, updateSparseType1_joined hlater, ?_⟩
      rw [hright]
      exact hregs ▸ codes_splitZeros (by omega) hpre (codes_setSparseZeroBytes (by omega)) hzeros h0 hv hpost'
    · refine halone fun b hb => ?_
      obtain rfl : later = b := Option.some_inj.mp hb
      exact hlater

lemma updateSparseType2_eq :
    updateSparseType2 (pre ++ byte :: post) pre.length u value = some (pre ++
      ((if u > 0 then [setZeroValue u] else []) ++ [setDenseValue value] ++
        (if byteGetValue byte - u - 1 > 0 then [setZeroValue (byteGetValue byte - u - 1)] else [])) ++ post) := by
  have h := updateValue_eq pre [byte] post ((if u > 0 then [setZeroValue u] else []) ++ [setDenseValue value] ++
    (if byteGetValue byte - u - 1 > 0 then [setZeroValue (byteGetValue byte - u - 1)] else [])) (by simp; omega)
  unfold updateSparseType2
  rw [show (pre ++ byte :: post)[pre.length]? = some byte by simp]
  simpa using h

lemma updateSparseType2_codes (h : Codes (pre ++ byte :: post) regs) (hty : byteType byte = .sparseZero)
    (hu : u < (byteRun byte).length) (h0 : 0 < value) (hv : value ≤ 64) :
    ∃ bytes, updateSparseType2 (pre ++ byte :: post) pre.length u value = some bytes ∧
      Codes bytes (raise regs ((expand pre).length + u) value) := by
  obtain ⟨hpre, hpost, -, hregs⟩ := h.split
  have hrun : byteRun byte = List.replicate (byteGetValue byte) 0 := by rw [byteRun, hty]
  have hmax := byteGetValue_le byte
  rw [hrun, List.length_replicate] at hu
  rw [hrun] at hregs
  exact ⟨_, updateSparseType2_eq, hregs ▸ codes_splitZeros hu hpre (codes_zeroRest (by omega))
    (codes_zeroRest (by omega)) h0 hv hpost⟩

lemma updateSparseType3_codes (h : Codes (pre ++ byte :: post) regs) (hty : byteType byte = .denseValue)
    (hu : u < (byteRun byte).length) (h0 : 0 < value) (hv : value ≤ 64) :
    ∃ bytes, updateSparseType3 (pre ++ byte :: post) pre.length value = some bytes ∧
      Codes bytes (raise regs ((expand pre).length + u) value) := by
  obtain ⟨hpre, hpost, -, hregs⟩ := h.split
  have hrun : byteRun byte = [byteGetValue byte] := by rw [byteRun, hty]
  rw [hrun] at hregs hu
  obtain rfl : u = 0 := by simpa using hu
  have hraise : raise regs ((expand pre).length + 0) value =
      expand pre ++ max (byteGetValue byte) value :: expand post := by
    rw [hregs, List.append_assoc]
    exact raise_append_cons _ _ _ _
  rw [hraise]
  unfold updateSparseType3
  rw [show (pre ++ byte :: post)[pre.length]? = some byte by simp]
  dsimp only [Option.bind_eq_bind, Option.bind_some]
  split
  case isTrue hle =>
    rw [max_eq_left hle]
    exact ⟨_, rfl, ⟨h.valid, by rw [h.expand_eq, hregs]; simp⟩⟩
  case isFalse hgt =>
    rw [max_eq_right (by omega)]
    refine ⟨_, rfl, ?_⟩
    have hset : (pre ++ byte :: post).set pre.length (setDenseValue value) =
      pre ++ ([setDenseValue value] ++ post) := by
      simp
    rw [hset]
    exact hpre.append ((codes_dense h0 hv).append hpost)

/-- A register of sparse bytes is raised to the new value. -/
lemma updateSparseValue_codes {index : Nat} (h : Codes bytes regs) (hindex : index < regs.length) (h0 : 0 < value)
    (hv : value ≤ 64) :
    ∃ byteIndex unitIndex bytes', getRegisterUnit bytes index = some (byteIndex, unitIndex) ∧
      updateSparseValue bytes byteIndex unitIndex value = some bytes' ∧ Codes bytes' (raise regs index value) := by
  rw [← h.expand_eq] at hindex
  obtain ⟨pre, byte, post, u, rfl, hu, rfl, hunit⟩ := getRegisterUnit_spec h.valid hindex
  have hbyte : (pre ++ byte :: post)[pre.length]? = some byte := by simp
  refine ⟨pre.length, u, ?_⟩
  unfold updateSparseValue
  rw [hbyte]
  dsimp only [Option.bind_eq_bind, Option.bind_some]
  cases hty : byteType byte with
  | sparseLongzero =>
    obtain ⟨bytes', he, hc⟩ := updateSparseType1_codes h hty hu h0 hv
    exact ⟨bytes', hunit, he, hc⟩
  | sparseZero =>
    obtain ⟨bytes', he, hc⟩ := updateSparseType2_codes h hty hu h0 hv
    exact ⟨bytes', hunit, he, hc⟩
  | denseValue =>
    obtain ⟨bytes', he, hc⟩ := updateSparseType3_codes h hty hu h0 hv
    exact ⟨bytes', hunit, he, hc⟩
  | sparseValue => exact absurd hty (h.valid byte (by simp))

/-! ## From the sparse mode to the full mode -/

lemma byteRun_le {v : Nat} (h : v ∈ byteRun byte) : v ≤ 64 := by
  have hmax := byteGetValue_le byte
  unfold byteRun at h
  cases hty : byteType byte with
  | sparseLongzero => simp [hty] at h; omega
  | sparseZero => simp [hty] at h; omega
  | denseValue => simp [hty] at h; omega
  | sparseValue => simp [hty] at h

lemma Codes.le (h : Codes bytes regs) {v : Nat} (hv : v ∈ regs) : v ≤ 64 := by
  rw [← h.expand_eq, expand, List.mem_flatMap] at hv
  obtain ⟨byte, -, hv⟩ := hv
  exact byteRun_le hv

lemma sparseToFull_eq (h : Codes bytes regs) (done : List UInt8) :
    sparseToFull bytes done.length (done ++ List.replicate regs.length 0) = some (done ++ regs.map UInt8.ofNat) := by
  induction bytes generalizing done regs with
  | nil =>
    rw [← h.expand_eq]
    simp [sparseToFull]
  | cons byte bytes ih =>
    obtain ⟨-, hrest, hbyte, rfl⟩ := (show Codes ([] ++ byte :: bytes) regs from h).split
    rw [expand_nil, List.nil_append, List.length_append, List.replicate_add, List.map_append, ← List.append_assoc,
      ← List.append_assoc, sparseToFull]
    -- a run of zeros is already in place
    have hzeros : ∀ n : Nat, byteRun byte = List.replicate n 0 →
        sparseToFull bytes (done.length + n)
          (done ++ List.replicate (byteRun byte).length 0 ++ List.replicate (expand bytes).length 0) =
            some (done ++ (byteRun byte).map UInt8.ofNat ++ (expand bytes).map UInt8.ofNat) := by
      intro n hn
      rw [hn, List.length_replicate, List.map_replicate]
      have hdone := ih hrest (done ++ List.replicate n 0)
      rw [List.length_append, List.length_replicate] at hdone
      exact hdone
    cases hty : byteType byte with
    | sparseLongzero => exact hzeros _ (by rw [byteRun, hty])
    | sparseZero => exact hzeros _ (by rw [byteRun, hty])
    | denseValue =>
      have hrun : byteRun byte = [byteGetValue byte] := by rw [byteRun, hty]
      have hdone := ih hrest (done ++ [UInt8.ofNat (byteGetValue byte)])
      rw [List.length_append] at hdone
      have hset : (done ++ List.replicate [byteGetValue byte].length 0 ++
          List.replicate (expand bytes).length (0 : UInt8)).set done.length (UInt8.ofNat (byteGetValue byte)) =
            done ++ [UInt8.ofNat (byteGetValue byte)] ++ List.replicate (expand bytes).length 0 := by simp
      rw [hrun]
      dsimp only
      rw [hset]
      exact hdone
    | sparseValue => exact absurd hty hbyte

lemma map_toNat_ofNat (h : ∀ v ∈ regs, v ≤ 64) : (regs.map UInt8.ofNat).map UInt8.toNat = regs := by
  rw [List.map_map]
  refine (List.map_congr_left fun v hv => ?_).trans (List.map_id regs)
  have := h v hv
  rw [Function.comp, UInt8.toNat_ofNat', Nat.mod_eq_of_lt (by omega)]
  rfl

/-- The conversion of sparse bytes to the full mode. -/
lemma transformFull_sparse (ctz0 : UInt8) (p : HllPara) (h : Codes bytes regs)
    (hlen : regs.length = 2 ^ p.log2Registers) :
    ∃ full, transformFull ctz0 p (.sparse bytes) = some (.full full) ∧ full.map UInt8.toNat = regs := by
  refine ⟨regs.map UInt8.ofNat, ?_, map_toNat_ofNat fun v hv => h.le hv⟩
  have heq := sparseToFull_eq h []
  rw [hlen] at heq
  simp only [List.length_nil, List.nil_append] at heq
  simp [transformFull, heq]

/-! ## Hashes and their registers -/

lemma hashIndex_lt (p : HllPara) (h : UInt64) : hashIndex p h < 2 ^ p.log2Registers := by
  obtain ⟨hmin, hmax⟩ := p.registers_range
  unfold hashIndex calzeroLen
  apply Nat.div_lt_of_lt_mul
  rw [← Nat.pow_add, show 64 - p.log2Registers + p.log2Registers = 64 by omega]
  exact h.toNat_lt

lemma hashIndex_mono (p : HllPara) {h h' : UInt64} (hle : h ≤ h') : hashIndex p h ≤ hashIndex p h' :=
  Nat.div_le_div_right (UInt64.le_iff_toNat_le.mp hle)

lemma hashValue_le (ctz0 : UInt8) (p : HllPara) (h : UInt64) : hashValue ctz0 p h ≤ 54 := by
  obtain ⟨hmin, hmax⟩ := p.registers_range
  unfold hashValue calzeroLen
  dsimp only
  split <;> omega

/-- The registers of a set of hashes. -/
def registers (ctz0 : UInt8) (p : HllPara) (S : Finset UInt64) : List Nat :=
  registersOf (hashIndex p) (hashValue ctz0 p) (2 ^ p.log2Registers) S

@[simp]
lemma registers_length (ctz0 : UInt8) (p : HllPara) (S : Finset UInt64) :
    (registers ctz0 p S).length = 2 ^ p.log2Registers := registersOf_length _ _

lemma registers_insert (ctz0 : UInt8) (p : HllPara) (h : UInt64) (S : Finset UInt64) :
    registers ctz0 p (insert h S) = raise (registers ctz0 p S) (hashIndex p h) (hashValue ctz0 p h) :=
  registersOf_insert _ _ _

lemma registers_empty (ctz0 : UInt8) (p : HllPara) :
    registers ctz0 p ∅ = List.replicate (2 ^ p.log2Registers) 0 := registersOf_empty _

lemma registers_insert_zero {ctz0 : UInt8} {p : HllPara} {h : UInt64} (S : Finset UInt64)
    (hv : hashValue ctz0 p h = 0) : registers ctz0 p (insert h S) = registers ctz0 p S :=
  registersOf_insert_of_le _ (hv ▸ Nat.zero_le _)

/-! ## From the explicit mode to the sparse mode -/

/-- What `HllExplicitToSparse` has written after the hashes `hs`: registers up to the last index. -/
structure SparseFold (ctz0 : UInt8) (p : HllPara) (hs : List UInt64) (s : List UInt8 × Int) (regs : List Nat) :
    Prop where
  codes : Codes s.1 regs
  length : (regs.length : Int) = s.2 + 1
  length_le : regs.length ≤ 2 ^ p.log2Registers
  registers_eq : regs ++ List.replicate (2 ^ p.log2Registers - regs.length) 0 = registers ctz0 p hs.toFinset
  lastindex : s.2 = -1 ∨ ∃ h ∈ hs, (hashIndex p h : Int) = s.2
  lastbyte : regs = [] ∨ ∃ bytes w, s.1 = bytes ++ [setDenseValue w] ∧ 0 < w ∧ w ≤ 64

lemma SparseFold.nil (ctz0 : UInt8) (p : HllPara) : SparseFold ctz0 p [] ([], -1) [] where
  codes := Codes.nil
  length := rfl
  length_le := Nat.zero_le _
  registers_eq := by
    rw [List.toFinset_nil, registers_empty]
    rfl
  lastindex := .inl rfl
  lastbyte := .inl rfl

lemma SparseFold.step {ctz0 : UInt8} {p : HllPara} {hs : List UInt64} {s : List UInt8 × Int} {regs : List Nat}
    (inv : SparseFold ctz0 p hs s regs) {h : UInt64} (hlast : ∀ h' ∈ hs, h' ≤ h) :
    ∃ regs', SparseFold ctz0 p (hs ++ [h]) (explicitToSparseStep ctz0 p s h) regs' := by
  obtain ⟨newdata, lastindex⟩ := s
  have hset : (hs ++ [h]).toFinset = insert h hs.toFinset := by
    ext x
    simp
  have hmem : lastindex = -1 ∨ ∃ h' ∈ hs ++ [h], (hashIndex p h' : Int) = lastindex :=
    inv.lastindex.imp id fun ⟨h', hm, he⟩ => ⟨h', List.mem_append_left _ hm, he⟩
  have hidx := hashIndex_lt p h
  have hvle := hashValue_le ctz0 p h
  have hlen := inv.length
  dsimp only at hlen
  unfold explicitToSparseStep
  dsimp only
  split
  case isTrue hv =>
    exact ⟨regs, inv.codes, inv.length, inv.length_le,
      by rw [hset, registers_insert_zero _ hv, inv.registers_eq], hmem, inv.lastbyte⟩
  case isFalse hv =>
    have hpos : 0 < hashValue ctz0 p h := Nat.pos_of_ne_zero hv
    split
    case isTrue heq =>
      -- the register written last
      obtain hnil | ⟨bytes, w, hbytes, hw0, hw⟩ := inv.lastbyte
      · rw [hnil, List.length_nil] at hlen
        omega
      dsimp only at hbytes
      subst hbytes
      have hregs : regs = expand bytes ++ [w] := by
        rw [← inv.codes.expand_eq, expand_append, (codes_dense hw0 hw).expand_eq]
      have hcodes : Codes bytes (expand bytes) := ⟨fun b hb => inv.codes.valid b (by simp [hb]), rfl⟩
      have hpref : (expand bytes).length = hashIndex p h := by
        rw [hregs, List.length_append, List.length_singleton] at hlen
        omega
      have hraise : expand bytes ++ max w (hashValue ctz0 p h) ::
          List.replicate (2 ^ p.log2Registers - regs.length) 0 = registers ctz0 p (hs ++ [h]).toFinset := by
        rw [hset, registers_insert, ← inv.registers_eq, hregs, ← hpref, List.append_assoc, List.singleton_append,
          raise_append_cons]
      have hlength : (expand bytes ++ [max w (hashValue ctz0 p h)]).length = regs.length := by
        rw [hregs, List.length_append, List.length_append]
        rfl
      have hlt : setDenseValue w < setDenseValue (hashValue ctz0 p h) ↔ w < hashValue ctz0 p h := by
        rw [UInt8.lt_iff_toNat_lt, setDenseValue_toNat hw0 hw, setDenseValue_toNat hpos (by omega)]
        omega
      have hget : (bytes ++ [setDenseValue w]).getD ((bytes ++ [setDenseValue w]).length - 1) 0 = setDenseValue w := by
        simp
      rw [hget]
      refine ⟨expand bytes ++ [max w (hashValue ctz0 p h)], ?_⟩
      have hfinal : ∀ v : Nat, v = max w (hashValue ctz0 p h) → SparseFold ctz0 p (hs ++ [h])
          (bytes ++ [setDenseValue v], lastindex) (expand bytes ++ [max w (hashValue ctz0 p h)]) := by
        rintro v rfl
        exact ⟨hcodes.append (codes_dense (by omega) (by omega)), by rw [hlength]; exact inv.length,
          by rw [hlength]; exact inv.length_le, by rw [hlength, ← hraise]; simp, hmem,
          .inr ⟨bytes, _, rfl, by omega, by omega⟩⟩
      split
      case isTrue hlt' =>
        have hmax := hfinal (hashValue ctz0 p h) (max_eq_right (hlt.mp hlt').le).symm
        simpa using hmax
      case isFalse hge => exact hfinal w (max_eq_left (not_lt.mp fun hc => hge (hlt.mpr hc))).symm
    case isFalse hne =>
      have hgt : regs.length ≤ hashIndex p h := by
        obtain hneg | ⟨h', hm, he⟩ := inv.lastindex
        · dsimp only at hneg
          omega
        · have hmono := hashIndex_mono p (hlast h' hm)
          dsimp only at he
          omega
      have hcount : ((hashIndex p h : Int) - lastindex - 1).toNat = hashIndex p h - regs.length := by omega
      rw [hcount]
      have hcodes := (inv.codes.append (codes_setSparseZero (hashIndex p h - regs.length))).append
        (codes_dense hpos (by omega))
      refine ⟨_, hcodes, ?_, ?_, ?_, .inr ⟨h, by simp, rfl⟩, .inr ⟨_, _, rfl, hpos, by omega⟩⟩
      · simp
        omega
      · simp
        omega
      · have hraise := raise_replicate regs [] (n := 2 ^ p.log2Registers - regs.length)
          (u := hashIndex p h - regs.length) (by omega) (hashValue ctz0 p h)
        rw [hset, registers_insert, ← inv.registers_eq]
        simp only [Nat.bot_eq_zero, List.append_nil] at hraise
        rw [show regs.length + (hashIndex p h - regs.length) = hashIndex p h by omega] at hraise
        rw [hraise]
        simp
        omega

lemma sparseFold_foldl (ctz0 : UInt8) (p : HllPara) {hs : List UInt64} (hsort : hs.Pairwise (· ≤ ·)) :
    ∃ regs, SparseFold ctz0 p hs (hs.foldl (explicitToSparseStep ctz0 p) ([], -1)) regs := by
  induction hs using List.reverseRecOn with
  | nil => exact ⟨[], SparseFold.nil ctz0 p⟩
  | append_singleton hs h ih =>
    rw [List.pairwise_append] at hsort
    obtain ⟨regs, inv⟩ := ih hsort.1
    rw [List.foldl_append]
    exact inv.step fun h' hm => hsort.2.2 h' hm h (by simp)

/-- The conversion of sorted hashes takes the greatest value of every register. -/
lemma codes_explicitToSparse (ctz0 : UInt8) (p : HllPara) {hs : List UInt64} (hsort : hs.Pairwise (· ≤ ·)) :
    Codes (explicitToSparse ctz0 p hs) (registers ctz0 p hs.toFinset) := by
  obtain ⟨regs, inv⟩ := sparseFold_foldl ctz0 p hsort
  unfold explicitToSparse
  generalize hs.foldl (explicitToSparseStep ctz0 p) ([], -1) = s at inv
  obtain ⟨newdata, lastindex⟩ := s
  dsimp only
  have hlen := inv.length
  have hle := inv.length_le
  dsimp only at hlen
  have hcount : ((2 ^ p.log2Registers : Int) - lastindex - 1).toNat = 2 ^ p.log2Registers - regs.length := by
    have hcast : ((2 ^ p.log2Registers : Nat) : Int) = 2 ^ p.log2Registers := by push_cast; rfl
    omega
  rw [hcount, ← inv.registers_eq]
  exact inv.codes.append (codes_setSparseZero _)

end GaussKernel.Cbb
