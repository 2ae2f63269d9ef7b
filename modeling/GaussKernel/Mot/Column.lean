import GaussKernel.Lib.Bytes

/-!
# Keys of MOT indexes

Model of `PackKey` and `SetKeySize` of the column classes (`column.cpp`) for the types that an index may have besides
floating point: a key is the packed fields one after the other, in a buffer of zero bytes, and keys are compared with
`memcmp`.

`packKey` writes into what is left of the buffer; `len` and `fill` are the length of a string and the byte behind it.
-/

namespace GaussKernel.Mot

open Lib

/-- The column classes, `MOT_TYPE_*`; a `VARCHAR` column has the declared length of its strings. -/
inductive Column where
  | char | tiny | short | int | long | date | time | timestamp | timestamptz
  | varchar (declared : Nat)
  deriving DecidableEq, Repr

namespace Column

/-- `m_size`; a string is stored behind its length. -/
def mSize : Column → Nat
  | char => 1
  | tiny => 1
  | short => 2
  | int => 4
  | long => 8
  | date => 4
  | time => 8
  | timestamp => 8
  | timestamptz => 8
  | varchar declared => declared + 4

/-- `SetKeySize` -/
def mKeySize (c : Column) : Nat :=
  match c with
  | char => c.mSize
  | tiny => c.mSize + 1
  | short => c.mSize + 1
  | int => c.mSize + 1
  | long => c.mSize + 1
  | date => c.mSize + 1
  | time => c.mSize
  | timestamp => c.mSize + 1
  | timestamptz => c.mSize + 1
  | varchar _ => (c.mSize - 4) + 1

/-- The values of a column: words, of which a time is not negative, and strings of at most the declared length. -/
def Value : Column → Type
  | char => BitVec 8
  | tiny => BitVec 8
  | short => BitVec 16
  | int => BitVec 32
  | long => BitVec 64
  | date => BitVec 32
  | time => { v : BitVec 64 // v.msb = false }
  | timestamp => BitVec 64
  | timestamptz => BitVec 64
  | varchar declared => { s : List UInt8 // s.length ≤ declared }

end Column

/-! ## Packing -/

/-- The `w` low bytes of a number, the most significant one first (`ntohs`, `ntohl`, `be64toh`). -/
def toBE : Nat → Nat → List UInt8
  | 0, _ => []
  | w + 1, n => UInt8.ofNat (n / 256 ^ w) :: toBE w (n % 256 ^ w)

/-- A word of `w` bytes behind a byte for its sign. -/
def packSigned (w : Nat) {b : Nat} (tmp : BitVec b) (dest : List UInt8) : List UInt8 :=
  let dest := splice dest 1 (toBE w tmp.toNat)
  splice dest 0 [if tmp.msb then 0x00 else 0x01]

/-- A word of `w` bytes. -/
def packPlain (w : Nat) {b : Nat} (tmp : BitVec b) (dest : List UInt8) : List UInt8 :=
  splice dest 0 (toBE w tmp.toNat)

/-- `ColumnVARCHAR::PackKey` -/
def packVarchar (mKeySize : Nat) (src : List UInt8) (fill : UInt8) (dest : List UInt8) : List UInt8 :=
  let dest := splice dest 0 src
  if src.length < mKeySize then
    let dest := if fill ≠ 0x00 then splice dest src.length (List.replicate (mKeySize - src.length - 1) fill) else dest
    splice dest (mKeySize - 1) [0]
  else dest

def packKey : (c : Column) → c.Value → (fill : UInt8) → List UInt8 → List UInt8
  | .char, (v : BitVec 8), _, dest => packPlain 1 v dest
  | .tiny, (v : BitVec 8), _, dest => packSigned 1 v dest
  | .short, (v : BitVec 16), _, dest => packSigned 2 v dest
  | .int, (v : BitVec 32), _, dest => packSigned 4 v dest
  | .long, (v : BitVec 64), _, dest => packSigned 8 v dest
  | .date, (v : BitVec 32), _, dest => packPlain 4 v dest
  | .time, ⟨v, _⟩, _, dest => packPlain 8 v dest
  | .timestamp, (v : BitVec 64), _, dest => packSigned 8 v dest
  | .timestamptz, (v : BitVec 64), _, dest => packSigned 8 v dest
  | .varchar declared, ⟨s, _⟩, fill, dest => packVarchar (Column.varchar declared).mKeySize s fill dest

/-- The values of a list of columns. -/
def Tuple : List Column → Type
  | [] => Unit
  | c :: cs => c.Value × Tuple cs

/-- The fields of a key, each at the place behind the key sizes of those before it. -/
def packFields : (cs : List Column) → Tuple cs → List UInt8 → List UInt8
  | [], _, dest => dest
  | c :: cs, (v, t), dest =>
    let dest := packKey c v 0x00 dest
    dest.take c.mKeySize ++ packFields cs t (dest.drop c.mKeySize)

def keyLength (cs : List Column) : Nat := (cs.map Column.mKeySize).sum

/-- The key of a tuple. -/
def buildKey (cs : List Column) (t : Tuple cs) : List UInt8 := packFields cs t (List.replicate (keyLength cs) 0)

/-! ## Orders -/

/-- `memcmp` of two buffers of one length. -/
def memcmp : List UInt8 → List UInt8 → Ordering
  | a :: as, b :: bs => (compare a.toNat b.toNat).then (memcmp as bs)
  | _, _ => .eq

/-- Strings bytewise, a prefix first. -/
def strCmp : List UInt8 → List UInt8 → Ordering
  | [], [] => .eq
  | [], _ :: _ => .lt
  | _ :: _, [] => .gt
  | a :: as, b :: bs => (compare a.toNat b.toNat).then (strCmp as bs)

/-- The order of a column type. -/
def Column.cmp : (c : Column) → c.Value → c.Value → Ordering
  | .char, (x : BitVec 8), (y : BitVec 8) => compare x.toNat y.toNat
  | .tiny, (x : BitVec 8), (y : BitVec 8) => compare x.toInt y.toInt
  | .short, (x : BitVec 16), (y : BitVec 16) => compare x.toInt y.toInt
  | .int, (x : BitVec 32), (y : BitVec 32) => compare x.toInt y.toInt
  | .long, (x : BitVec 64), (y : BitVec 64) => compare x.toInt y.toInt
  | .date, (x : BitVec 32), (y : BitVec 32) => compare x.toInt y.toInt
  | .time, ⟨x, _⟩, ⟨y, _⟩ => compare x.toInt y.toInt
  | .timestamp, (x : BitVec 64), (y : BitVec 64) => compare x.toInt y.toInt
  | .timestamptz, (x : BitVec 64), (y : BitVec 64) => compare x.toInt y.toInt
  | .varchar _, ⟨s, _⟩, ⟨s', _⟩ => strCmp s s'

def tupleCmp : (cs : List Column) → Tuple cs → Tuple cs → Ordering
  | [], _, _ => .eq
  | c :: cs, (x, t), (y, t') => (c.cmp x y).then (tupleCmp cs t t')

end GaussKernel.Mot
