import Mathlib
import GaussKernel.Cbb.HllUnion
import GaussKernel.Cbb.SparseForm
import GaussKernel.Lib.Bytes

/-!
# Buffer of an object

`lenTotal` of an object through `HllAdd` and `HllUnion`: the buffer is expanded, replaced by a new one or copied, and
always holds the data of the mode, whose lengths the mode allows.
-/

namespace GaussKernel.Cbb
open Lib

/-- An object and its `lenTotal`. -/
structure SizedHll where
  hll : HllObject
  lenTotal : Nat

/-- The bytes at `hllData`. -/
def HllData.bytes : HllData → List UInt8
  | .uninit => []
  | .empty => []
  | .explicit hashes => hashes.flatMap fun hashval => toLE 8 hashval.toNat
  | .sparse bytes => bytes
  | .full bytes => bytes

def SizedHll.lenUsed (o : SizedHll) : Nat := o.hll.hllData.bytes.length

/-! ## `lenTotal` after a call -/

def transformFullTotal (p : HllPara) (data : HllData) (lenTotal : Nat) : Nat :=
  match data with
  | .full _ => lenTotal
  | _ => 2 ^ p.log2Registers

/-- `sparsesize` at the end of `HllExplicitToSparse` -/
def explicitToSparseTotal (ctz0 : UInt8) (p : HllPara) (hashes : List UInt64) : Option Nat :=
  (hashes.foldlM (explicitToSparseWrite ctz0 p) (sparseMinsize p, [], -1)).map Prod.fst

def explicitCheckTotal (ctz0 : UInt8) (p : HllPara) (hashes : List UInt64) (lenTotal : Nat) : Option Nat :=
  if 8 * hashes.length > 2 ^ p.log2Explicitsize then
    if p.log2Sparsesize > p.log2Explicitsize then do
      let sparsesize ← explicitToSparseTotal ctz0 p hashes
      let bytes ← explicitToSparseBuffer ctz0 p hashes
      return if bytes.length > 2 ^ p.log2Sparsesize then 2 ^ p.log2Registers else sparsesize
    else some (2 ^ p.log2Registers)
  else some lenTotal

def setExplicitTotal (ctz0 : UInt8) (p : HllPara) (hashes : List UInt64) (hashval : UInt64) (lenTotal : Nat) :
    Option Nat :=
  -- also when the hash is there already
  let lenTotal := if lenTotal - 8 * hashes.length < 8 then lenTotal + 256 else lenTotal
  let bindex := searchExplicit hashes hashval hashes.length 0 hashes.length
  if bindex > 0 ∧ hashes.getD (bindex - 1) 0 = hashval then some lenTotal
  else
    explicitCheckTotal ctz0 p (hashes.take bindex ++ [hashval] ++ hashes.drop bindex)
      (dataExpand 8 (8 * hashes.length) lenTotal)

def setSparseTotal (ctz0 : UInt8) (p : HllPara) (bytes : List UInt8) (hashval : UInt64) (lenTotal : Nat) :
    Option Nat :=
  let value := hashValue ctz0 p hashval
  if value = 0 then some lenTotal
  else do
    let (byteIndex, unitIndex) ← getRegisterUnit bytes (hashIndex p hashval)
    let bytes' ← updateSparseValue bytes byteIndex unitIndex value
    return if bytes'.length > 2 ^ p.log2Sparsesize then 2 ^ p.log2Registers
      else dataExpand (bytes'.length - bytes.length) bytes.length lenTotal

def setEmptyTotal (ctz0 : UInt8) (p : HllPara) (hashval : UInt64) (lenTotal : Nat) : Option Nat :=
  if p.log2Explicitsize = 0 ∧ p.log2Sparsesize = 0 then some (2 ^ p.log2Registers)
  else if p.log2Explicitsize = 0 then setSparseTotal ctz0 p (emptyToSparse p) hashval (emptyToSparse p).length
  else setExplicitTotal ctz0 p [] hashval lenTotal

def setRegisterTotal (ctz0 : UInt8) (p : HllPara) (data : HllData) (hashval : UInt64) (lenTotal : Nat) : Option Nat :=
  match data with
  | .uninit => setEmptyTotal ctz0 p hashval 0
  | .empty => setEmptyTotal ctz0 p hashval lenTotal
  | .explicit hashes => setExplicitTotal ctz0 p hashes hashval lenTotal
  | .sparse bytes => setSparseTotal ctz0 p bytes hashval lenTotal
  | .full _ => some lenTotal

/-- `HllAdd` -/
def sizedAdd (ctz0 : UInt8) (o : SizedHll) (hashval : UInt64) : Option SizedHll := do
  let hll ← hllAdd ctz0 o.hll hashval
  if o.hll.hllpara.duplicateCheck ∧ hashval = o.hll.lastHash then return ⟨hll, o.lenTotal⟩
  let lenTotal ← setRegisterTotal ctz0 o.hll.hllpara o.hll.hllData hashval o.lenTotal
  return ⟨hll, lenTotal⟩

/-- `lenTotal` of both objects after `HllUnion`. -/
def unionTotal (ctz0 : UInt8) (o a : SizedHll) : Option (Nat × Nat) :=
  match a.hll.hllData, o.hll.hllData with
  | .uninit, _ => some (o.lenTotal, a.lenTotal)
  | .empty, _ => some (o.lenTotal, a.lenTotal)
  -- `HllCopy`
  | _, .uninit => some (if o.lenTotal < a.lenTotal then a.lenTotal else o.lenTotal, a.lenTotal)
  | _, .empty => some (if o.lenTotal < a.lenTotal then a.lenTotal else o.lenTotal, a.lenTotal)
  | .explicit hashes', .explicit hashes => do
    let lenTotal ← explicitCheckTotal ctz0 o.hll.hllpara (combineExplicit hashes hashes')
      (8 * hashes.length + 8 * hashes'.length)
    return (lenTotal, a.lenTotal)
  | data', data =>
    some (transformFullTotal o.hll.hllpara data o.lenTotal, transformFullTotal a.hll.hllpara data' a.lenTotal)

/-- `HllUnion`: the object and `aHll` after it. -/
def sizedUnion (ctz0 : UInt8) (o a : SizedHll) : Option (SizedHll × SizedHll) := do
  let (hll, aHll) ← hllUnion ctz0 o.hll a.hll
  let (lenTotal, lenTotal') ← unionTotal ctz0 o a
  return (⟨hll, lenTotal⟩, ⟨aHll, lenTotal'⟩)

/-! ## Data of a mode -/

/-- Data as the modes keep them, of `2 ^ R` registers and at most `2 ^ E` bytes of hashes. A register is less than 64,
the number of elements of the histogram. -/
inductive Formed (R E : Nat) : HllData → Prop where
  | uninit : Formed R E .uninit
  | empty : Formed R E .empty
  | explicit {hashes : List UInt64} : hashes.Pairwise (· < ·) → hashes ≠ [] → 8 * hashes.length ≤ 2 ^ E →
    Formed R E (.explicit hashes)
  | sparse {bytes : List UInt8} {regs : List Nat} : Codes bytes regs → regs.length = 2 ^ R → (∀ r ∈ regs, r < 64) →
    Formed R E (.sparse bytes)
  | full {bytes : List UInt8} : bytes.length = 2 ^ R → (∀ byte ∈ bytes, byte.toNat < 64) → Formed R E (.full bytes)

/-- Room for the data in a buffer that the header can record. -/
structure Room (data : HllData) (lenTotal : Nat) : Prop where
  used_le : data.bytes.length ≤ lenTotal
  total_lt : lenTotal < 2 ^ 17
  none : data.bytes = [] → lenTotal = 0

structure SizedHll.Ok (o : SizedHll) : Prop where
  formed : Formed o.hll.hllpara.log2Registers o.hll.hllpara.log2Explicitsize o.hll.hllData
  room : Room o.hll.hllData o.lenTotal

/-- The call gives data of its mode and a buffer for them. -/
def Fine (p : HllPara) (data : Option HllData) (total : Option Nat) : Prop :=
  ∃ d n, data = some d ∧ total = some n ∧ Formed p.log2Registers p.log2Explicitsize d ∧ Room d n

@[simp]
lemma bytes_explicit_length (hashes : List UInt64) : (HllData.explicit hashes).bytes.length = 8 * hashes.length := by
  induction hashes with
  | nil => rfl
  | cons h hs ih =>
    simp only [HllData.bytes, List.flatMap_cons, List.length_append, toLE_length, List.length_cons] at ih ⊢
    omega

lemma registers_le (p : HllPara) : 2 ^ p.log2Registers ≤ 2 ^ 16 :=
  Nat.pow_le_pow_right Nat.two_pos p.registers_range.2

lemma explicit_le (p : HllPara) : 2 ^ p.log2Explicitsize ≤ 2 ^ 12 := Nat.pow_le_pow_right Nat.two_pos p.explicit_range

variable {bytes f f' : List UInt8} {regs : List Nat} {data : HllData} {n lenTotal : Nat} {p : HllPara} {ctz0 : UInt8}
  {hs : List UInt64} {o a : SizedHll}

/-- Every byte stands for a register at least. -/
lemma Codes.length_le (h : Codes bytes regs) : bytes.length ≤ regs.length := by
  rw [← h.expand_eq]
  have hvalid := h.valid
  clear h
  induction bytes with
  | nil => exact Nat.le_refl 0
  | cons byte bytes ih =>
    have hpos := byteRun_pos (hvalid byte List.mem_cons_self)
    have htail := ih fun b hb => hvalid b (List.mem_cons_of_mem byte hb)
    rw [expand_cons, List.length_append, List.length_cons]
    omega

lemma Codes.ne_nil (h : Codes bytes regs) (hregs : 0 < regs.length) : bytes ≠ [] := by
  rintro rfl
  rw [← h.expand_eq] at hregs
  exact absurd hregs (Nat.lt_irrefl 0)

lemma Room.of_le (h0 : data.bytes ≠ []) (hle : data.bytes.length ≤ n) (hn : n < 2 ^ 17) : Room data n :=
  ⟨hle, hn, fun h => absurd h h0⟩

/-- A buffer of its own size for the full mode. -/
lemma Fine.full {p : HllPara} {bytes : List UInt8} (h : bytes.length = 2 ^ p.log2Registers)
    (hlt : ∀ byte ∈ bytes, byte.toNat < 64) :
    Fine p (some (.full bytes)) (some (2 ^ p.log2Registers)) := by
  have hle := registers_le p
  have hpos : 0 < 2 ^ p.log2Registers := Nat.two_pow_pos _
  refine ⟨_, _, rfl, rfl, .full h hlt, .of_le ?_ h.le (by omega)⟩
  exact List.ne_nil_of_length_pos (h ▸ hpos)

lemma Fine.sparse {p : HllPara} {bytes : List UInt8} {regs : List Nat} {n : Nat} (h : Codes bytes regs)
    (hregs : regs.length = 2 ^ p.log2Registers) (hlt : ∀ r ∈ regs, r < 64) (hle : bytes.length ≤ n)
    (hn : n < 2 ^ 17) : Fine p (some (.sparse bytes)) (some n) :=
  ⟨_, _, rfl, rfl, .sparse h hregs hlt, .of_le (h.ne_nil (hregs ▸ Nat.two_pow_pos _)) hle hn⟩

/-! ## Conversion of the mode -/

lemma foldl_set_length (f : UInt64 → Nat) (g : UInt64 → UInt8) (hashes : List UInt64) (l : List UInt8) :
    (hashes.foldl (fun l h => l.set (f h) (g h)) l).length = l.length := by
  induction hashes generalizing l with
  | nil => rfl
  | cons h hs ih =>
    rw [List.foldl_cons, ih]
    exact List.length_set

lemma zeros_lt : ∀ byte ∈ List.replicate n (0 : UInt8), byte.toNat < 64 := by
  intro byte hbyte
  rw [List.eq_of_mem_replicate hbyte]
  decide

lemma hashValue_toNat_lt (ctz0 : UInt8) (p : HllPara) (h : UInt64) : (UInt8.ofNat (hashValue ctz0 p h)).toNat < 64 := by
  have hle := hashValue_le ctz0 p h
  rw [UInt8.toNat_ofNat', Nat.mod_eq_of_lt (by omega)]
  omega

/-- The registers of hashes are less than 64. -/
lemma registers_lt (ctz0 : UInt8) (p : HllPara) (S : Finset UInt64) : ∀ r ∈ registers ctz0 p S, r < 64 :=
  registersOf_lt (by decide) fun h _ => Nat.lt_of_le_of_lt (hashValue_le ctz0 p h) (by decide)

/-- The values of hashes, written into registers. -/
lemma foldl_set_lt (ctz0 : UInt8) (p : HllPara) (hashes : List UInt64) {l : List UInt8}
    (hl : ∀ byte ∈ l, byte.toNat < 64) :
    ∀ byte ∈ hashes.foldl (fun l h => l.set (hashIndex p h) (UInt8.ofNat (hashValue ctz0 p h))) l, byte.toNat < 64 := by
  induction hashes generalizing l with
  | nil => exact hl
  | cons h hs ih =>
    refine ih fun byte hbyte => ?_
    obtain hbyte | rfl := List.mem_or_eq_of_mem_set hbyte
    · exact hl byte hbyte
    · exact hashValue_toNat_lt ctz0 p h

lemma transformFull_formed (ctz0 : UInt8) {E : Nat} (h : Formed p.log2Registers E data) (hne : data ≠ .uninit) :
    ∃ bytes, transformFull ctz0 p data = some (.full bytes) ∧ bytes.length = 2 ^ p.log2Registers ∧
      ∀ byte ∈ bytes, byte.toNat < 64 := by
  cases h with
  | uninit => exact absurd rfl hne
  | empty => exact ⟨_, rfl, List.length_replicate, zeros_lt⟩
  | explicit =>
    exact ⟨_, rfl, (foldl_set_length _ _ _ _).trans List.length_replicate, foldl_set_lt ctz0 p _ zeros_lt⟩
  | sparse hcodes hregs hlt =>
    obtain ⟨bytes, heq, hmap⟩ := transformFull_sparse ctz0 p hcodes hregs
    refine ⟨bytes, heq, by rw [← hregs, ← hmap, List.length_map], fun byte hbyte => hlt _ ?_⟩
    rw [← hmap]
    exact List.mem_map_of_mem hbyte
  | full h hlt => exact ⟨_, rfl, h, hlt⟩

lemma dataExpand_le (needed lenUsed lenTotal : Nat) (h : lenUsed ≤ lenTotal) :
    dataExpand needed lenUsed lenTotal ≤ max lenTotal (needed + lenUsed + 256) := by
  fun_induction dataExpand needed lenUsed lenTotal with
  | case1 lenTotal hmore ih =>
    have := ih (by omega)
    omega
  | case2 lenTotal hmore => exact le_max_left _ _

/-- `sparsesize` stays close to what is written. -/
lemma explicitToSparseWrite_size {s s' : Nat × List UInt8 × Int} {h : UInt64}
    (hw : explicitToSparseWrite ctz0 p s h = some s') (hs : s.1 ≤ s.2.1.length + sparseMinsize p + 256) :
    s'.1 ≤ s'.2.1.length + sparseMinsize p + 256 := by
  obtain ⟨sparsesize, newdata, lastindex⟩ := s
  have hgrow : newdata.length ≤ (explicitToSparseStep ctz0 p (newdata, lastindex) h).1.length := by
    obtain hstep | ⟨byte, -, hstep⟩ | ⟨byte, -, -, hstep⟩ := explicitToSparseStep_cases ctz0 p newdata lastindex h
    · rw [hstep]
    · rw [hstep, List.length_set]
    · rw [hstep]
      simp only [List.length_append]
      omega
  unfold explicitToSparseWrite at hw
  dsimp only at hw hs
  generalize explicitToSparseStep ctz0 p (newdata, lastindex) h = r at hw hgrow
  split at hw
  · cases hw
  · split at hw
    · cases hw
      dsimp only
      omega
    · cases hw
      dsimp only
      omega

lemma explicitToSparseWrite_foldlM_size {s s' : Nat × List UInt8 × Int}
    (hrun : hs.foldlM (explicitToSparseWrite ctz0 p) s = some s') (h : s.1 ≤ s.2.1.length + sparseMinsize p + 256) :
    s'.1 ≤ s'.2.1.length + sparseMinsize p + 256 := by
  induction hs generalizing s with
  | nil =>
    cases hrun
    exact h
  | cons hashval hs ih =>
    rw [List.foldlM_cons] at hrun
    obtain ⟨t, hw, hrest⟩ := Option.bind_eq_some_iff.mp hrun
    exact ih hrest (explicitToSparseWrite_size hw h)

lemma sparseMinsize_le (p : HllPara) : sparseMinsize p ≤ 18 := by
  have hpow : 2 ^ (p.log2Registers - 12) ≤ 2 ^ 4 := Nat.pow_le_pow_right Nat.two_pos (by
    have := p.registers_range
    omega)
  unfold sparseMinsize
  split <;> omega

/-- The buffer of `HllExplicitToSparse` at its end. -/
lemma explicitToSparse_room (ctz0 : UInt8) (p : HllPara) (hsort : hs.Pairwise (· ≤ ·)) :
    ∃ sparsesize, explicitToSparseTotal ctz0 p hs = some sparsesize ∧
      explicitToSparseBuffer ctz0 p hs = some (explicitToSparse ctz0 p hs) ∧
      (explicitToSparse ctz0 p hs).length ≤ sparsesize ∧ sparsesize ≤ 2 ^ 16 + 512 := by
  obtain ⟨⟨sparsesize, newdata, lastindex⟩, regs, hrun, hfold, -, inv⟩ :=
    explicitToSparseWrite_foldlM ctz0 p hsort
  obtain ⟨bytes, hbuffer, rfl, -⟩ := explicitToSparseBuffer_form ctz0 p hsort
  have hsize := explicitToSparseWrite_foldlM_size hrun (by simp)
  have hnew := inv.codes.length_le
  have hregs := inv.length_le
  have hmin := sparseMinsize_le p
  have hle := registers_le p
  refine ⟨sparsesize, by rw [explicitToSparseTotal, hrun]; rfl, hbuffer, ?_, ?_⟩
  · unfold explicitToSparseBuffer at hbuffer
    rw [hrun] at hbuffer
    dsimp only [Option.bind_eq_bind, Option.bind_some] at hbuffer
    split at hbuffer
    · cases hbuffer
    · rw [← Option.some.inj hbuffer]
      omega
  · dsimp only at hsize hnew
    omega

lemma explicitCheck_fine (ctz0 : UInt8) (p : HllPara) (hsort : hs.Pairwise (· < ·)) (hne : hs ≠ [])
    (hused : 8 * hs.length ≤ lenTotal) (htotal : lenTotal < 2 ^ 17) :
    Fine p (explicitCheck ctz0 p hs) (explicitCheckTotal ctz0 p hs lenTotal) := by
  unfold explicitCheck explicitCheckTotal
  split
  case isFalse h =>
    refine ⟨_, _, rfl, rfl, .explicit hsort hne (by omega), .of_le ?_ (by simpa using hused) htotal⟩
    apply List.ne_nil_of_length_pos
    have := List.length_pos_iff.mpr hne
    rw [bytes_explicit_length]
    omega
  case isTrue h =>
    split
    case isTrue hsparse =>
      have hcodes := codes_explicitToSparse ctz0 p (hsort.imp UInt64.le_of_lt)
      obtain ⟨sparsesize, hsize, hbuffer, hle, hmax⟩ := explicitToSparse_room ctz0 p (hsort.imp UInt64.le_of_lt)
      rw [hsize, hbuffer]
      dsimp only [Option.bind_eq_bind, Option.bind_some]
      split
      · obtain ⟨bytes, heq, hlen, hlt⟩ := transformFull_formed ctz0
          (.sparse (E := 0) hcodes (registers_length ctz0 p hs.toFinset) (registers_lt ctz0 p _)) nofun
        rw [heq]
        exact .full hlen hlt
      · exact .sparse hcodes (registers_length ctz0 p hs.toFinset) (registers_lt ctz0 p _) hle (by omega)
    case isFalse hsparse =>
      exact .full ((foldl_set_length _ _ _ _).trans List.length_replicate) (foldl_set_lt ctz0 p _ zeros_lt)

/-! ## Adding a hash -/

lemma setExplicit_fine (ctz0 : UInt8) (p : HllPara) (hashval : UInt64) (hsort : hs.Pairwise (· < ·))
    (hsmall : 8 * hs.length ≤ 2 ^ p.log2Explicitsize) (hused : 8 * hs.length ≤ lenTotal) (htotal : lenTotal < 2 ^ 17) :
    Fine p (setExplicitValue ctz0 p hs hashval) (setExplicitTotal ctz0 p hs hashval lenTotal) := by
  have hmax := explicit_le p
  have hle := (searchExplicit_spec hashval hsort hs.length 0 hs.length
    (by omega) (Nat.zero_le _) le_rfl (by omega) (by omega)).1
  unfold setExplicitValue setExplicitTotal
  dsimp only
  generalize hb : searchExplicit hs hashval hs.length 0 hs.length = bindex at hle
  -- the buffer is expanded only while it has less than 8 free bytes
  obtain ⟨n, hn, hroom, hnle⟩ : ∃ n, (if lenTotal - 8 * hs.length < 8 then lenTotal + 256 else lenTotal) = n ∧
      8 * hs.length + 8 ≤ n ∧ n < 2 ^ 17 := by
    split
    · exact ⟨_, rfl, by omega, by omega⟩
    · exact ⟨_, rfl, by omega, htotal⟩
  rw [hn]
  split
  case isTrue h =>
    have hne : hs ≠ [] := by
      rintro rfl
      exact absurd h.1 (hb ▸ Nat.lt_irrefl 0)
    refine ⟨_, _, rfl, rfl, .explicit hsort hne hsmall, .of_le ?_ (by rw [bytes_explicit_length]; omega) hnle⟩
    apply List.ne_nil_of_length_pos
    have := List.length_pos_iff.mpr hne
    rw [bytes_explicit_length]
    omega
  case isFalse h =>
    have hlen : (hs.take bindex ++ [hashval] ++ hs.drop bindex).length = hs.length + 1 := by
      simp
      omega
    have hexpand := le_dataExpand 8 (show 8 * hs.length ≤ n by omega)
    have hexpand' := dataExpand_le 8 (8 * hs.length) n (by omega)
    apply explicitCheck_fine ctz0 p (searchExplicit_sorted hashval hsort hb h)
    · simp
    · rw [hlen]
      omega
    · omega

lemma setSparse_fine (ctz0 : UInt8) (p : HllPara) (hashval : UInt64) (h : Codes bytes regs)
    (hregs : regs.length = 2 ^ p.log2Registers) (hlt : ∀ r ∈ regs, r < 64) (hused : bytes.length ≤ lenTotal)
    (htotal : lenTotal < 2 ^ 17) :
    Fine p (setSparseValue ctz0 p bytes hashval) (setSparseTotal ctz0 p bytes hashval lenTotal) := by
  unfold setSparseValue setSparseTotal
  dsimp only
  split
  case isTrue hv => exact .sparse h hregs hlt hused htotal
  case isFalse hv =>
    have hvle := hashValue_le ctz0 p hashval
    obtain ⟨byteIndex, unitIndex, bytes', hunit, hupd, hcodes⟩ := updateSparseValue_codes h
      (hregs ▸ hashIndex_lt p hashval) (Nat.pos_of_ne_zero hv) (by omega)
    have hregs' : (raise regs (hashIndex p hashval) (hashValue ctz0 p hashval)).length = 2 ^ p.log2Registers :=
      (raise_length _ _ _).trans hregs
    have hlt' : ∀ r ∈ raise regs (hashIndex p hashval) (hashValue ctz0 p hashval), r < 64 := raise_lt hlt (by omega)
    rw [hunit]
    dsimp only [Option.bind_eq_bind, Option.bind_some]
    rw [hupd]
    dsimp only [Option.bind_some]
    split
    · obtain ⟨full, heq, hlen, hfull⟩ := transformFull_formed ctz0 (.sparse (E := 0) hcodes hregs' hlt') nofun
      rw [heq]
      exact .full hlen hfull
    · have hlen := h.length_le
      have hlen' := hcodes.length_le
      have hle := registers_le p
      have hexpand := le_dataExpand (bytes'.length - bytes.length) hused
      have hexpand' := dataExpand_le (bytes'.length - bytes.length) _ _ hused
      exact .sparse hcodes hregs' hlt' (by omega) (by omega)

lemma setFullValue_formed (ctz0 : UInt8) (p : HllPara) (hashval : UInt64) (h : bytes.length = 2 ^ p.log2Registers)
    (hlt : ∀ byte ∈ bytes, byte.toNat < 64) :
    ∃ bytes', setFullValue ctz0 p bytes hashval = some (.full bytes') ∧ bytes'.length = 2 ^ p.log2Registers ∧
      ∀ byte ∈ bytes', byte.toNat < 64 := by
  unfold setFullValue
  dsimp only
  split
  case isTrue => exact ⟨_, rfl, h, hlt⟩
  case isFalse =>
    rw [List.getElem?_eq_getElem (h ▸ hashIndex_lt p hashval)]
    refine ⟨_, rfl, ?_⟩
    split
    · refine ⟨List.length_set.trans h, fun byte hbyte => ?_⟩
      obtain hbyte | rfl := List.mem_or_eq_of_mem_set hbyte
      · exact hlt byte hbyte
      · exact hashValue_toNat_lt ctz0 p hashval
    · exact ⟨h, hlt⟩

lemma setEmpty_fine (ctz0 : UInt8) (p : HllPara) (hashval : UInt64) :
    Fine p (setEmptyValue ctz0 p hashval) (setEmptyTotal ctz0 p hashval 0) := by
  unfold setEmptyValue setEmptyTotal
  split
  case isTrue =>
    obtain ⟨bytes, heq, hlen, hlt⟩ := setFullValue_formed ctz0 p hashval List.length_replicate zeros_lt
    rw [heq]
    exact .full hlen hlt
  case isFalse =>
    split
    case isTrue =>
      have hcodes := codes_emptyToSparse p
      have hlen := hcodes.length_le
      have hle := registers_le p
      rw [List.length_replicate] at hlen
      refine setSparse_fine ctz0 p hashval hcodes List.length_replicate (fun r hr => ?_) le_rfl (by omega)
      rw [List.eq_of_mem_replicate hr]
      decide
    case isFalse =>
      exact setExplicit_fine ctz0 p hashval List.Pairwise.nil (Nat.zero_le _) (Nat.zero_le _) (by decide)

lemma setRegister_fine (ctz0 : UInt8) (hashval : UInt64) (h : Formed p.log2Registers p.log2Explicitsize data)
    (hroom : Room data lenTotal) :
    Fine p (setRegisterValue ctz0 p data hashval) (setRegisterTotal ctz0 p data hashval lenTotal) := by
  obtain ⟨hused, htotal, hnone⟩ := hroom
  cases h with
  | uninit => exact setEmpty_fine ctz0 p hashval
  | empty =>
    obtain rfl := hnone rfl
    exact setEmpty_fine ctz0 p hashval
  | explicit hsort _ hsmall =>
    rw [bytes_explicit_length] at hused
    exact setExplicit_fine ctz0 p hashval hsort hsmall hused htotal
  | sparse hcodes hregs hlt => exact setSparse_fine ctz0 p hashval hcodes hregs hlt hused htotal
  | @full bytes h hlt =>
    obtain ⟨bytes', heq, hlen, hlt'⟩ := setFullValue_formed ctz0 p hashval h hlt
    have hpos : 0 < 2 ^ p.log2Registers := Nat.two_pow_pos _
    have hused' : bytes.length ≤ lenTotal := hused
    refine ⟨_, lenTotal, heq, rfl, .full hlen hlt', .of_le ?_ (show bytes'.length ≤ lenTotal by omega) htotal⟩
    exact List.ne_nil_of_length_pos (hlen ▸ hpos)

lemma sizedAdd_ok (ctz0 : UInt8) (h : o.Ok) (hashval : UInt64) : ∃ o', sizedAdd ctz0 o hashval = some o' ∧ o'.Ok := by
  unfold sizedAdd hllAdd
  split
  case isTrue => exact ⟨_, rfl, h⟩
  case isFalse =>
    obtain ⟨data, n, hdata, hn, hformed, hroom⟩ := setRegister_fine ctz0 hashval h.formed h.room
    rw [hdata, hn]
    exact ⟨_, rfl, hformed, hroom⟩

/-! ## Union -/

lemma combineExplicit_length_le (xs ys : List UInt64) : (combineExplicit xs ys).length ≤ xs.length + ys.length := by
  fun_induction combineExplicit xs ys <;> simp only [List.length_cons, List.length_nil] at * <;> omega

lemma combineExplicit_ne_nil {xs ys : List UInt64} (h : xs ≠ []) : combineExplicit xs ys ≠ [] := by
  obtain ⟨x, hx⟩ := List.exists_mem_of_ne_nil xs h
  exact List.ne_nil_of_mem (mem_combineExplicit.mpr (.inl hx))

/-- Every union but of two explicit objects, of objects that hold data. -/
lemma sizedUnion_full (hsame : o.hll.hllpara.same a.hll.hllpara)
    (h : transformFull ctz0 o.hll.hllpara o.hll.hllData = some (.full f))
    (h' : transformFull ctz0 a.hll.hllpara a.hll.hllData = some (.full f')) (hne : o.hll.hllData ≠ .empty)
    (hne' : a.hll.hllData ≠ .empty)
    (hnot : ∀ hs hs', o.hll.hllData = .explicit hs → a.hll.hllData = .explicit hs' → False) :
    sizedUnion ctz0 o a =
      some (⟨{ o.hll with hllData := .full (combineFull f f'), lastHash := 0 },
          transformFullTotal o.hll.hllpara o.hll.hllData o.lenTotal⟩,
        ⟨{ a.hll with hllData := .full f' }, transformFullTotal a.hll.hllpara a.hll.hllData a.lenTotal⟩) := by
  obtain ⟨⟨p, data, last⟩, n⟩ := o
  obtain ⟨⟨p', data', last'⟩, n'⟩ := a
  dsimp only at hsame h h' hne hne' hnot
  have huninit : ∀ q g, transformFull ctz0 q .uninit ≠ some (.full g) := fun q g => by simp [transformFull]
  cases data <;> cases data' <;> first
    | exact absurd rfl hne
    | exact absurd rfl hne'
    | exact absurd h (huninit p f)
    | exact absurd h' (huninit p' f')
    | exact (hnot _ _ rfl rfl).elim
    | simp only [sizedUnion, hllUnion, unionTotal, hsame, if_true, h, h', Option.bind_eq_bind, Option.bind_some,
        Option.pure_def]

/-- The object after its conversion to the full mode. -/
lemma transformFull_fine (hroom : Room data n) (h : Formed p.log2Registers p.log2Explicitsize data)
    (hlen : bytes.length = 2 ^ p.log2Registers) (hlt : ∀ byte ∈ bytes, byte.toNat < 64) :
    Fine p (some (.full bytes)) (some (transformFullTotal p data n)) := by
  cases h with
  | @full bytes' h =>
    have hpos : 0 < 2 ^ p.log2Registers := Nat.two_pow_pos _
    have hused : bytes'.length ≤ n := hroom.used_le
    refine ⟨_, n, rfl, rfl, .full hlen hlt, .of_le ?_ (show bytes.length ≤ n by omega) hroom.total_lt⟩
    exact List.ne_nil_of_length_pos (hlen ▸ hpos)
  | uninit => exact .full hlen hlt
  | empty => exact .full hlen hlt
  | explicit => exact .full hlen hlt
  | sparse => exact .full hlen hlt

lemma Fine.ok {last : UInt64} (h : Fine p (some data) (some n)) : SizedHll.Ok ⟨⟨p, data, last⟩, n⟩ := by
  obtain ⟨d, m, hd, hm, hformed, hroom⟩ := h
  cases hd
  cases hm
  exact ⟨hformed, hroom⟩

/-- An object without data takes the other and its buffer size. -/
lemma sizedUnion_copy (ho : o.Ok) (hempty : o.hll.hllData = .uninit ∨ o.hll.hllData = .empty)
    (hne : a.hll.hllData ≠ .uninit ∧ a.hll.hllData ≠ .empty) : sizedUnion ctz0 o a = some (a, a) := by
  obtain ⟨⟨p, data, last⟩, n⟩ := o
  obtain ⟨⟨p', data', last'⟩, n'⟩ := a
  dsimp only at hempty hne
  have hn : n = 0 := ho.room.none (by rcases hempty with rfl | rfl <;> rfl)
  have hcopy : (if n < n' then n' else n) = n' := by
    split <;> omega
  have heq : sizedUnion ctz0 ⟨⟨p, data, last⟩, n⟩ ⟨⟨p', data', last'⟩, n'⟩ =
      some (⟨⟨p', data', last'⟩, if n < n' then n' else n⟩, ⟨⟨p', data', last'⟩, n'⟩) := by
    rcases hempty with rfl | rfl <;> cases data' <;> first
      | exact absurd rfl hne.1
      | exact absurd rfl hne.2
      | rfl
  rw [heq, hcopy]

/-- Objects with data and different parameters have no union. -/
lemma hllUnion_not_same {hll aHll : HllObject} (hsame : ¬hll.hllpara.same aHll.hllpara)
    (hne : hll.hllData ≠ .uninit ∧ hll.hllData ≠ .empty) (hne' : aHll.hllData ≠ .uninit ∧ aHll.hllData ≠ .empty) :
    hllUnion ctz0 hll aHll = none := by
  obtain ⟨p, data, last⟩ := hll
  obtain ⟨p', data', last'⟩ := aHll
  cases data <;> cases data' <;> first
    | exact absurd rfl hne.1
    | exact absurd rfl hne.2
    | exact absurd rfl hne'.1
    | exact absurd rfl hne'.2
    | exact if_neg hsame

lemma HllPara.same_registers {p' : HllPara} (h : p.same p') : p.log2Registers = p'.log2Registers := by
  unfold HllPara.same at h
  simp at h
  exact h.1

lemma length_combineFull (h : f.length = f'.length) : (combineFull f f').length = f.length := by
  unfold combineFull
  rw [List.length_zipWith, h, Nat.min_self]

/-- A greater register comes from one of the two. -/
lemma combineFull_lt (h : ∀ byte ∈ f, byte.toNat < 64) (h' : ∀ byte ∈ f', byte.toNat < 64) :
    ∀ byte ∈ combineFull f f', byte.toNat < 64 := by
  intro byte hbyte
  unfold combineFull at hbyte
  obtain ⟨i, hi, rfl⟩ := List.getElem_of_mem hbyte
  rw [List.getElem_zipWith]
  split
  · exact h' _ (List.getElem_mem _)
  · exact h _ (List.getElem_mem _)

/-- The union of two explicit objects. -/
lemma sizedUnion_explicit_ok {p' : HllPara} {hs' : List UInt64} {last last' : UInt64} {n' : Nat} {o' a' : SizedHll}
    (hsame : p.same p') (ho : SizedHll.Ok ⟨⟨p, .explicit hs, last⟩, n⟩)
    (ha : SizedHll.Ok ⟨⟨p', .explicit hs', last'⟩, n'⟩)
    (h : sizedUnion ctz0 ⟨⟨p, .explicit hs, last⟩, n⟩ ⟨⟨p', .explicit hs', last'⟩, n'⟩ = some (o', a')) :
    o'.Ok ∧ a'.Ok := by
  cases ho.formed with
  | explicit hsort hne hsmall =>
    cases ha.formed with
    | explicit hsort' _ hsmall' =>
      have hmax := explicit_le p
      have hmax' := explicit_le p'
      have hlen := combineExplicit_length_le hs hs'
      dsimp only at hsmall hsmall'
      obtain ⟨d, m, hd, hm, hformed, hroom⟩ := explicitCheck_fine ctz0 p (combineExplicit_sorted hsort hsort')
        (combineExplicit_ne_nil hne) (show _ ≤ 8 * hs.length + 8 * hs'.length by omega) (by omega)
      simp only [sizedUnion, hllUnion, unionTotal, hsame, if_true, hd, hm, Option.bind_eq_bind, Option.bind_some,
        Option.pure_def] at h
      cases h
      exact ⟨⟨hformed, hroom⟩, ha⟩

lemma sizedUnion_ok {o' a' : SizedHll} (ho : o.Ok) (ha : a.Ok) (h : sizedUnion ctz0 o a = some (o', a')) :
    o'.Ok ∧ a'.Ok := by
  by_cases hempty' : a.hll.hllData = .uninit ∨ a.hll.hllData = .empty
  · obtain ⟨⟨p', data', last'⟩, n'⟩ := a
    rcases hempty' with rfl | rfl <;> cases h <;> exact ⟨ho, ha⟩
  rw [not_or] at hempty'
  by_cases hempty : o.hll.hllData = .uninit ∨ o.hll.hllData = .empty
  · rw [sizedUnion_copy ho hempty hempty'] at h
    cases h
    exact ⟨ha, ha⟩
  rw [not_or] at hempty
  by_cases hsame : o.hll.hllpara.same a.hll.hllpara
  · obtain ⟨f, hf, hlen, hlt⟩ := transformFull_formed ctz0 ho.formed hempty.1
    obtain ⟨f', hf', hlen', hlt'⟩ := transformFull_formed ctz0 ha.formed hempty'.1
    by_cases hexp : ∃ hs hs', o.hll.hllData = .explicit hs ∧ a.hll.hllData = .explicit hs'
    · obtain ⟨⟨p, data, last⟩, n⟩ := o
      obtain ⟨⟨p', data', last'⟩, n'⟩ := a
      obtain ⟨hs, hs', rfl, rfl⟩ := hexp
      exact sizedUnion_explicit_ok hsame ho ha h
    · have heq := sizedUnion_full hsame hf hf' hempty.2 hempty'.2 fun hs hs' hd hd' => hexp ⟨hs, hs', hd, hd'⟩
      rw [heq] at h
      cases h
      have hR := HllPara.same_registers hsame
      have hcomb : (combineFull f f').length = 2 ^ o.hll.hllpara.log2Registers := by
        rw [length_combineFull (by rw [hlen, hlen', hR]), hlen]
      exact ⟨(transformFull_fine ho.room ho.formed hcomb (combineFull_lt hlt hlt')).ok,
        (transformFull_fine ha.room ha.formed hlen' hlt').ok⟩
  · unfold sizedUnion at h
    rw [hllUnion_not_same hsame hempty hempty'] at h
    cases h

end GaussKernel.Cbb
