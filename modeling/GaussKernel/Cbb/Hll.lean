import Mathlib

/-!
# HyperLogLog

Model of the class `Hll` (`hll.cpp`) without its estimate of the number of distinct values: the modes in which an object
keeps its registers, adding a hash and the union of two objects. `none` is an `ereport(ERROR)`.

What `__builtin_ctzll` gives for 0 is not defined; it is the parameter `ctz0`.
-/

namespace GaussKernel.Cbb

/-- Parameters that pass `HllCheckPararange`. -/
structure HllPara where
  log2Registers : Nat
  log2Explicitsize : Nat
  log2Sparsesize : Nat
  duplicateCheck : Bool
  registers_range : 10 ≤ log2Registers ∧ log2Registers ≤ 16
  explicit_range : log2Explicitsize ≤ 12
  sparse_range : log2Sparsesize ≤ 14

/-- `hlltype` and `hllData` -/
inductive HllData where
  | uninit
  | empty
  | explicit (hashes : List UInt64)
  | sparse (bytes : List UInt8)
  | full (bytes : List UInt8)
  deriving DecidableEq, Repr

structure HllObject where
  hllpara : HllPara
  hllData : HllData
  lastHash : UInt64

/-! ## Hashes -/

def ctzll (ctz0 : UInt8) (x : UInt64) : Nat :=
  if x = 0 then ctz0.toNat else ((List.range 64).takeWhile fun i => !x.toNat.testBit i).length

def calzeroLen (p : HllPara) : Nat := 64 - p.log2Registers

/-- The index of `HllHashToValue`. -/
def hashIndex (p : HllPara) (hashval : UInt64) : Nat := hashval.toNat / 2 ^ calzeroLen p

/-- The value of `HllHashToValue`. -/
def hashValue (ctz0 : UInt8) (p : HllPara) (hashval : UInt64) : Nat :=
  let value := (ctzll ctz0 hashval + 1) % 256
  if value > calzeroLen p then 0 else value

/-! ## Bytes of the sparse mode -/

inductive RegisterType where
  | sparseLongzero | sparseZero | denseValue | sparseValue
  deriving DecidableEq, Repr

def byteType (byte : UInt8) : RegisterType :=
  match byte.toNat / 64 with
  | 0 => .sparseLongzero
  | 1 => .sparseZero
  | 2 => .denseValue
  | _ => .sparseValue

def byteGetValue (byte : UInt8) : Nat := byte.toNat % 64 + 1

def setLongzeroValue (value : Nat) : UInt8 := UInt8.ofNat (value / 64 - 1)

def setZeroValue (value : Nat) : UInt8 := UInt8.ofNat ((value - 1) ||| 64)

def setDenseValue (value : Nat) : UInt8 := UInt8.ofNat ((value - 1) ||| 128)

/-- `HllSetSparseZero` -/
def setSparseZero (zerocount : Nat) : List UInt8 :=
  if zerocount ≥ 64 then
    let fullnum := zerocount / 4096
    let zerocount := zerocount % 4096
    let head := List.replicate fullnum 0x3F
    if zerocount ≥ 64 then
      head ++ [setLongzeroValue zerocount] ++ (if zerocount % 64 > 0 then [setZeroValue (zerocount % 64)] else [])
    else head ++ (if zerocount > 0 then [setZeroValue zerocount] else [])
  else if zerocount > 0 then [setZeroValue zerocount]
  else []

/-- The bytes for `count` zero registers beside a value, as `HllUpdateSparseType1` sets them. -/
def setSparseZeroBytes (count : Nat) : List UInt8 :=
  if count ≥ 64 then setLongzeroValue count :: (if count % 64 > 0 then [setZeroValue (count % 64)] else [])
  else if count > 0 then [setZeroValue count]
  else []

/-- `HllUpdateValue`. A difference of the lengths below 0 would be a large `uint32_t`, for which there is no memory. -/
def updateValue (hllData : List UInt8) (index : Nat) (insertValue : List UInt8) (originLen : Nat) :
    Option (List UInt8) :=
  if index + originLen > hllData.length ∨ insertValue.length < originLen then none
  else some (hllData.take index ++ insertValue ++ hllData.drop (index + originLen))

/-- The registers that a byte stands for. -/
def byteRegisters (byte : UInt8) : Option Nat :=
  match byteType byte with
  | .sparseLongzero => some (byteGetValue byte * 64)
  | .sparseZero => some (byteGetValue byte)
  | .denseValue => some 1
  | .sparseValue => none

/-- The loop of `HllGetRegisterUnit` from byte `i` on. -/
def registerUnitLoop (registerIndex : Nat) :
    List UInt8 → (i : Nat) → (currentRegisterSum : Nat) → Option (Nat × Nat)
  | [], _, _ => none
  | byteValue :: bytes, i, sum =>
    match byteRegisters byteValue with
    | none => none
    | some currentRegister =>
      if sum + currentRegister > registerIndex then some (i, registerIndex - sum)
      else registerUnitLoop registerIndex bytes (i + 1) (sum + currentRegister)

/-- `HllGetRegisterUnit`: `byteIndex` and `unitIndex`. -/
def getRegisterUnit (hllData : List UInt8) (registerIndex : Nat) : Option (Nat × Nat) :=
  if registerIndex = 0 then some (0, 0) else registerUnitLoop registerIndex hllData 0 0

def updateSparseType1 (hllData : List UInt8) (byteIndex unitIndex newValue : Nat) : Option (List UInt8) := do
  let byteValue ← hllData[byteIndex]?
  let left := unitIndex
  let right := byteGetValue byteValue * 64 - left - 1
  -- the byte behind may be zeros too
  let (right, originLen) :=
    match hllData[byteIndex + 1]? with
    | some laterByte =>
      if byteType laterByte = .sparseZero then (right + byteGetValue laterByte, 2) else (right, 1)
    | none => (right, 1)
  updateValue hllData byteIndex
    (setSparseZeroBytes left ++ [setDenseValue newValue] ++ setSparseZeroBytes right) originLen

def updateSparseType2 (hllData : List UInt8) (byteIndex unitIndex newValue : Nat) : Option (List UInt8) := do
  let byteValue ← hllData[byteIndex]?
  let left := unitIndex
  let right := byteGetValue byteValue - left - 1
  updateValue hllData byteIndex
    ((if left > 0 then [setZeroValue left] else []) ++ [setDenseValue newValue] ++
      (if right > 0 then [setZeroValue right] else [])) 1

def updateSparseType3 (hllData : List UInt8) (byteIndex newValue : Nat) : Option (List UInt8) := do
  let byteValue ← hllData[byteIndex]?
  if newValue ≤ byteGetValue byteValue then return hllData
  return hllData.set byteIndex (setDenseValue newValue)

def updateSparseValue (hllData : List UInt8) (byteIndex unitIndex newValue : Nat) : Option (List UInt8) := do
  let byteValue ← hllData[byteIndex]?
  match byteType byteValue with
  | .sparseLongzero => updateSparseType1 hllData byteIndex unitIndex newValue
  | .sparseZero => updateSparseType2 hllData byteIndex unitIndex newValue
  | .denseValue => updateSparseType3 hllData byteIndex newValue
  | .sparseValue => none

/-! ## Changes of the mode -/

/-- The loop of `HllTransformFull` over the bytes of the sparse mode, at register `index`. -/
def sparseToFull : List UInt8 → (index : Nat) → (newdata : List UInt8) → Option (List UInt8)
  | [], _, newdata => some newdata
  | byteValue :: bytes, index, newdata =>
    match byteType byteValue with
    | .sparseLongzero => sparseToFull bytes (index + byteGetValue byteValue * 64) newdata
    | .sparseZero => sparseToFull bytes (index + byteGetValue byteValue) newdata
    | .denseValue => sparseToFull bytes (index + 1) (newdata.set index (UInt8.ofNat (byteGetValue byteValue)))
    | .sparseValue => none

def transformFull (ctz0 : UInt8) (p : HllPara) (data : HllData) : Option HllData :=
  let newdata := List.replicate (2 ^ p.log2Registers) 0
  match data with
  | .uninit => none
  | .empty => some (.full newdata)
  | .explicit hashes =>
    some (.full (hashes.foldl
      (fun newdata hashval => newdata.set (hashIndex p hashval) (UInt8.ofNat (hashValue ctz0 p hashval))) newdata))
  | .sparse bytes => (sparseToFull bytes 0 newdata).map .full
  | .full bytes => some (.full bytes)

/-- `HllEmptyToSparse` -/
def emptyToSparse (p : HllPara) : List UInt8 :=
  let nbyte := if p.log2Registers > 12 then 2 ^ (p.log2Registers - 12) else 1
  if nbyte > 1 then List.replicate nbyte 0x3F else [setLongzeroValue (2 ^ p.log2Registers)]

/-- One hash of `HllExplicitToSparse`, with `newdata` up to `sparseindex` and `lastindex`. -/
def explicitToSparseStep (ctz0 : UInt8) (p : HllPara) (s : List UInt8 × Int) (hashval : UInt64) : List UInt8 × Int :=
  let (newdata, lastindex) := s
  let index : Int := hashIndex p hashval
  let value := hashValue ctz0 p hashval
  if value = 0 then (newdata, lastindex)
  else
    let newvalue := setDenseValue value
    if index = lastindex then
      if newdata.getD (newdata.length - 1) 0 < newvalue then (newdata.set (newdata.length - 1) newvalue, lastindex)
      else (newdata, lastindex)
    else (newdata ++ setSparseZero (index - lastindex - 1).toNat ++ [newvalue], index)

def explicitToSparse (ctz0 : UInt8) (p : HllPara) (hashes : List UInt64) : List UInt8 :=
  let (newdata, lastindex) := hashes.foldl (explicitToSparseStep ctz0 p) ([], -1)
  newdata ++ setSparseZero (2 ^ p.log2Registers - lastindex - 1).toNat

/-- `HllExplicitCheck` of an object in explicit mode. -/
def explicitCheck (ctz0 : UInt8) (p : HllPara) (hashes : List UInt64) : Option HllData :=
  if 8 * hashes.length > 2 ^ p.log2Explicitsize then
    if p.log2Sparsesize > p.log2Explicitsize then
      let bytes := explicitToSparse ctz0 p hashes
      if bytes.length > 2 ^ p.log2Sparsesize then transformFull ctz0 p (.sparse bytes) else some (.sparse bytes)
    else transformFull ctz0 p (.explicit hashes)
  else some (.explicit hashes)

/-! ## Adding a hash -/

/-- The search of `HllSetExplicitValue`, which halves `start` to `last` at most `fuel` times. -/
def searchExplicit (hashes : List UInt64) (hashval : UInt64) : (fuel start last : Nat) → Nat
  | 0, start, _ => start
  | fuel + 1, start, last =>
    if start < last then
      let mid := (start + last) / 2
      if hashes.getD mid 0 ≤ hashval then searchExplicit hashes hashval fuel (mid + 1) last
      else searchExplicit hashes hashval fuel start mid
    else start

def setExplicitValue (ctz0 : UInt8) (p : HllPara) (hashes : List UInt64) (hashval : UInt64) : Option HllData :=
  let bindex := searchExplicit hashes hashval hashes.length 0 hashes.length
  if bindex > 0 ∧ hashes.getD (bindex - 1) 0 = hashval then some (.explicit hashes)
  else explicitCheck ctz0 p (hashes.take bindex ++ [hashval] ++ hashes.drop bindex)

def setSparseValue (ctz0 : UInt8) (p : HllPara) (bytes : List UInt8) (hashval : UInt64) : Option HllData :=
  let value := hashValue ctz0 p hashval
  if value = 0 then some (.sparse bytes)
  else do
    let (byteIndex, unitIndex) ← getRegisterUnit bytes (hashIndex p hashval)
    let bytes ← updateSparseValue bytes byteIndex unitIndex value
    if bytes.length > 2 ^ p.log2Sparsesize then transformFull ctz0 p (.sparse bytes) else some (.sparse bytes)

def setFullValue (ctz0 : UInt8) (p : HllPara) (bytes : List UInt8) (hashval : UInt64) : Option HllData :=
  let value := hashValue ctz0 p hashval
  if value = 0 then some (.full bytes)
  else
    match bytes[hashIndex p hashval]? with
    | none => none
    | some byte =>
      some (.full (if value > byte.toNat then bytes.set (hashIndex p hashval) (UInt8.ofNat value) else bytes))

def setEmptyValue (ctz0 : UInt8) (p : HllPara) (hashval : UInt64) : Option HllData :=
  if p.log2Explicitsize = 0 ∧ p.log2Sparsesize = 0 then
    setFullValue ctz0 p (List.replicate (2 ^ p.log2Registers) 0) hashval
  else if p.log2Explicitsize = 0 then setSparseValue ctz0 p (emptyToSparse p) hashval
  else setExplicitValue ctz0 p [] hashval

def setRegisterValue (ctz0 : UInt8) (p : HllPara) (data : HllData) (hashval : UInt64) : Option HllData :=
  match data with
  | .uninit => setEmptyValue ctz0 p hashval
  | .empty => setEmptyValue ctz0 p hashval
  | .explicit hashes => setExplicitValue ctz0 p hashes hashval
  | .sparse bytes => setSparseValue ctz0 p bytes hashval
  | .full bytes => setFullValue ctz0 p bytes hashval

def hllAdd (ctz0 : UInt8) (hll : HllObject) (hashval : UInt64) : Option HllObject :=
  if hll.hllpara.duplicateCheck ∧ hashval = hll.lastHash then some hll
  else do
    let data ← setRegisterValue ctz0 hll.hllpara hll.hllData hashval
    return { hll with hllData := data, lastHash := hashval }

/-! ## Union -/

/-- `HllComibineExplicit`: merges two increasing arrays. -/
def combineExplicit : List UInt64 → List UInt64 → List UInt64
  | [], ys => ys
  | x :: xs, [] => x :: xs
  | x :: xs, y :: ys =>
    if x < y then x :: combineExplicit xs (y :: ys)
    else if x > y then y :: combineExplicit (x :: xs) ys
    else x :: combineExplicit xs ys
  termination_by xs ys => xs.length + ys.length

def combineFull (bytes bytes' : List UInt8) : List UInt8 :=
  List.zipWith (fun b b' => if b < b' then b' else b) bytes bytes'

def HllPara.same (p p' : HllPara) : Bool :=
  p.log2Registers = p'.log2Registers ∧ p.log2Explicitsize = p'.log2Explicitsize ∧
    p.log2Sparsesize = p'.log2Sparsesize ∧ p.duplicateCheck = p'.duplicateCheck

/-- `HllUnion`: the object and `aHll` after it, which it may transform. -/
def hllUnion (ctz0 : UInt8) (hll aHll : HllObject) : Option (HllObject × HllObject) :=
  let p := hll.hllpara
  match aHll.hllData, hll.hllData with
  | .uninit, _ => some (hll, aHll)
  | .empty, _ => some (hll, aHll)
  | _, .uninit => some (aHll, aHll)
  | _, .empty => some (aHll, aHll)
  | .explicit hashes', .explicit hashes =>
    if p.same aHll.hllpara then do
      let data ← explicitCheck ctz0 p (combineExplicit hashes hashes')
      return ({ hll with hllData := data, lastHash := 0 }, aHll)
    else none
  | data', data =>
    if p.same aHll.hllpara then
      match transformFull ctz0 p data, transformFull ctz0 aHll.hllpara data' with
      | some (.full bytes), some (.full bytes') =>
        some ({ hll with hllData := .full (combineFull bytes bytes'), lastHash := 0 },
          { aHll with hllData := .full bytes' })
      | _, _ => none
    else none

end GaussKernel.Cbb
