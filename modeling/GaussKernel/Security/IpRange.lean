import Mathlib.Tactic

/-!
# IP ranges

Model of `IPRange` (`iprange.cpp`, `iprange.h`): the operators on 128-bit addresses, the list `m_ranges` under
`add_range` and `remove_range`, and the binary search of `is_in_range`. An IPv4 address has the words
`(a, 0x0000FFFF, 0, 0)`.

The search loop ends when its two bounds are equal. It is given fuel, since they may miss each other.
-/

namespace GaussKernel.Security

/-- `IPV6`, by its four words `ip_32`; the other view of the union, `ip_64`, is `lower` and `upper`. -/
structure IPV6 where
  a : UInt32
  b : UInt32
  c : UInt32
  d : UInt32
  deriving DecidableEq, Repr

namespace IPV6

variable (lhs rhs : IPV6)

def lower : Nat := lhs.a.toNat + 2 ^ 32 * lhs.b.toNat

def upper : Nat := lhs.c.toNat + 2 ^ 32 * lhs.d.toNat

/-- The 128-bit number that an address is. -/
def toNat : Nat := lhs.lower + 2 ^ 64 * lhs.upper

/-- `operator<` -/
def lt : Bool := lhs.upper < rhs.upper || lhs.lower < rhs.lower

/-- `operator>` -/
def gt : Bool := rhs.lt lhs

/-- `operator<=` -/
def le : Bool := !lhs.gt rhs

/-- `operator>=` -/
def ge : Bool := !lhs.lt rhs

/-- `std::min` -/
def min : IPV6 := if rhs.lt lhs then rhs else lhs

/-- `std::max` -/
def max : IPV6 := if lhs.lt rhs then rhs else lhs

/-- `operator+` -/
def add : IPV6 :=
  if lhs.b = 0x0000FFFF then ⟨lhs.a + rhs.a, 0x0000FFFF, 0, 0⟩
  else
    let tmpA := lhs.a.toUInt64 + rhs.a.toUInt64
    let tmpB := lhs.b.toUInt64 + rhs.b.toUInt64 + tmpA >>> 32
    let tmpC := lhs.c.toUInt64 + rhs.c.toUInt64 + tmpB >>> 32
    let tmpD := lhs.d.toUInt64 + rhs.d.toUInt64 + tmpC >>> 32
    ⟨tmpA.toUInt32, tmpB.toUInt32, tmpC.toUInt32, tmpD.toUInt32⟩

/-- `operator-` -/
def sub : IPV6 :=
  if lhs.b = 0x0000FFFF then ⟨lhs.a - rhs.a, 0x0000FFFF, 0, 0⟩
  else
    let tmpA := lhs.a.toUInt64 - rhs.a.toUInt64
    let tmpB := lhs.b.toUInt64 - rhs.b.toUInt64 - tmpA >>> 63
    let tmpC := lhs.c.toUInt64 - rhs.c.toUInt64 - tmpB >>> 63
    let tmpD := lhs.d.toUInt64 - rhs.d.toUInt64 - tmpC >>> 63
    ⟨tmpA.toUInt32, tmpB.toUInt32, tmpC.toUInt32, tmpD.toUInt32⟩

/-- `lhs + 1` -/
def succ : IPV6 := lhs.add ⟨1, 0, 0, 0⟩

/-- `lhs - 1` -/
def pred : IPV6 := lhs.sub ⟨1, 0, 0, 0⟩

end IPV6

def localhostIpv6 : IPV6 := ⟨1, 0, 0, 0⟩

def localhostIpv4 : IPV6 := ⟨0x7f000001, 0xffff, 0, 0⟩

/-- `Range`, with the fields `from` and `to`. -/
structure Range where
  first : IPV6
  last : IPV6
  deriving DecidableEq, Repr

/-! ## Adding and removing ranges -/

/-- `handle_add_intersection`; `none` is `false`. -/
def handleAddIntersection (newRange existRange : Range) : Option Range :=
  let rangeMin := newRange.first.max existRange.first
  let rangeMax := newRange.last.min existRange.last
  if rangeMin.gt rangeMax then none
  else some ⟨newRange.first.min existRange.first, newRange.last.max existRange.last⟩

/-- The loop of `add_range` from the current range on, with the copying of the rest behind it. -/
def addLoop : List Range → Range → Bool → List Range
  | [], newRange, weHadIntersection => if weHadIntersection then [newRange] else []
  | range :: ranges, newRange, weHadIntersection =>
    match handleAddIntersection newRange range with
    | some newRange => addLoop ranges newRange true
    | none =>
      if weHadIntersection then newRange :: range :: ranges
      else if newRange.last.lt range.first then newRange :: range :: ranges
      else range :: addLoop ranges newRange false

def addRange (mRanges : List Range) (newRange : Range) : List Range :=
  match mRanges.head?, mRanges.getLast? with
  | some front, some back =>
    if newRange.last.lt front.first then newRange :: mRanges
    else if newRange.first.gt back.last then mRanges ++ [newRange]
    else addLoop mRanges newRange false
  | _, _ => newRange :: mRanges

/-- `handle_remove_intersection`: what is left of an existing range. -/
def handleRemoveIntersection (removeRange existRange : Range) : List Range :=
  let rangeMin := removeRange.first.max existRange.first
  let rangeMax := removeRange.last.min existRange.last
  if rangeMin.gt rangeMax then [existRange]
  else if removeRange.first.le existRange.first && removeRange.last.ge existRange.last then []
  else if removeRange.first.le existRange.first then [{ existRange with first := removeRange.last.succ }]
  else if removeRange.last.ge existRange.last then [{ existRange with last := removeRange.first.pred }]
  else [⟨existRange.first, removeRange.first.pred⟩, ⟨removeRange.last.succ, existRange.last⟩]

def removeRange (mRanges : List Range) (range : Range) : List Range :=
  mRanges.flatMap (handleRemoveIntersection range)

/-! ## The search -/

/-- `ip >= range.from && ip <= range.to` -/
def Range.contains (range : Range) (ip : IPV6) : Bool := ip.ge range.first && ip.le range.last

/-- The loop of `binary_search`; `none` when the fuel does not reach. -/
def binarySearchLoop (mRanges : List Range) (ip : IPV6) : Nat → Nat → Nat → Option Bool
  | 0, _, _ => none
  | fuel + 1, i, j =>
    if i = j then (mRanges[i]?).map (·.contains ip)
    else
      let mid := (i + j) / 2
      match mRanges[mid]? with
      | none => none
      | some range =>
        if range.contains ip then some true
        else if ip.lt range.first then binarySearchLoop mRanges ip fuel i (if 0 < mid then mid - 1 else mid)
        else binarySearchLoop mRanges ip fuel (mid + 1) j

def binarySearch (fuel : Nat) (mRanges : List Range) (ip : IPV6) : Option Bool :=
  binarySearchLoop mRanges ip fuel 0 (mRanges.length - 1)

def isInRange (fuel : Nat) (mRanges : List Range) (ip : IPV6) : Option Bool :=
  if mRanges.length = 0 then some false
  else if ip = localhostIpv4 ∨ ip = localhostIpv6 then
    match binarySearch fuel mRanges localhostIpv4 with
    | some false => binarySearch fuel mRanges localhostIpv6
    | found => found
  else binarySearch fuel mRanges ip

end GaussKernel.Security
