import GaussKernel.Security.IpRange

/-!
# The texts of IP ranges

`parse_range` and the four formats it tells apart: `ip/cidr`, `from-to`, `ip|mask` and a single address. `inet_pton`
is a parameter.
-/

namespace GaussKernel.Security

namespace IPV6

variable (lhs rhs : IPV6)

/-- `operator~` -/
def not : IPV6 := ⟨~~~lhs.a, ~~~lhs.b, ~~~lhs.c, ~~~lhs.d⟩

/-- `operator&` -/
def and : IPV6 := ⟨lhs.a &&& rhs.a, lhs.b &&& rhs.b, lhs.c &&& rhs.c, lhs.d &&& rhs.d⟩

/-- `operator|` -/
def or : IPV6 := ⟨lhs.a ||| rhs.a, lhs.b ||| rhs.b, lhs.c ||| rhs.c, lhs.d ||| rhs.d⟩

/-- `IPRANGE_IS_IPV4` -/
def isIpv4 : Bool := lhs.b = 0x0000FFFF

end IPV6

/-! ## Addresses -/

/-- `sin6_addr`, as its four words in network order. -/
structure In6Addr where
  a : UInt32
  b : UInt32
  c : UInt32
  d : UInt32
  deriving DecidableEq, Repr

/-- `inet_pton` for `AF_INET6` and for `AF_INET`; the words are as `ntohl` gives them. -/
structure InetPton where
  inet6 : List Char → Option In6Addr
  inet : List Char → Option UInt32

def netIpv6ToHostOrder (sa : In6Addr) : IPV6 := ⟨sa.d, sa.c, sa.b, sa.a⟩

def netIpv4ToHostOrder (addr : UInt32) : IPV6 := ⟨addr, 0x0000FFFF, 0, 0⟩

/-- `str_to_ip` -/
def strToIp (inetPton : InetPton) (ipStr : List Char) : Option IPV6 :=
  match inetPton.inet6 ipStr with
  | some sa => some (netIpv6ToHostOrder sa)
  | none => (inetPton.inet ipStr).map netIpv4ToHostOrder

/-! ## Masks -/

/-- `MASK_FROM_LUT` -/
def maskFromLut : List UInt32 :=
  (0xFFFFFFFF :: (List.range 31).map fun k => (0xFFFFFFFF : UInt32) <<< UInt32.ofNat (31 - k)).concat 0xFFFFFFFF

/-- `MASK_TO_LUT` -/
def maskToLut : List UInt32 :=
  (0 :: (List.range 31).map fun k => ~~~((0xFFFFFFFF : UInt32) <<< UInt32.ofNat (31 - k))).concat 0xFFFFFFFF

/-- The lower end of a word under the prefix of length `i`. -/
def maskFrom (w : UInt32) (i : Nat) : UInt32 := w &&& maskFromLut.getD i 0

/-- The upper end of a word under the prefix of length `i`. -/
def maskTo (w : UInt32) (i : Nat) : UInt32 := w ||| maskToLut.getD i 0

/-- `mask_range`; `none` is `false`. -/
def maskRange (range : Range) (cidr : Nat) : Option Range :=
  if range.first.isIpv4 then
    if cidr < 1 ∨ 32 < cidr then none
    else some ⟨{ range.first with a := maskFrom range.first.a cidr }, { range.last with a := maskTo range.last.a cidr }⟩
  else if cidr < 1 ∨ 128 < cidr then none
  else
    let complement := cidr % 32
    if 96 < cidr then
      some ⟨{ range.first with a := maskFrom range.first.a complement },
        { range.last with a := maskTo range.last.a complement }⟩
    else if 64 < cidr then
      some ⟨{ range.first with a := 0, b := maskFrom range.first.b complement },
        { range.last with a := 0xFFFFFFFF, b := maskTo range.last.b complement }⟩
    else if 32 < cidr then
      some ⟨{ range.first with a := 0, b := 0, c := maskFrom range.first.c complement },
        { range.last with a := 0xFFFFFFFF, b := 0xFFFFFFFF, c := maskTo range.last.c complement }⟩
    else
      some ⟨⟨0, 0, 0, maskFrom range.first.d complement⟩,
        ⟨0xFFFFFFFF, 0xFFFFFFFF, 0xFFFFFFFF, maskTo range.last.d complement⟩⟩

/-! ## Texts -/

/-- `IP_MAX_LEN` -/
abbrev ipMaxLen : Nat := 128

/-- What `copy_without_spaces` leaves in a buffer of zeros. -/
def copyWithoutSpaces (bufLen : Nat) (original : List Char) : List Char :=
  if original.length = 0 ∨ bufLen < original.length then [] else original.filter (· ≠ ' ')

/-- `isspace` -/
def isspace (c : Char) : Bool := c = ' ' ∨ ('\t' ≤ c ∧ c ≤ '\r')

/-- The number at the start of a text: `strtol` of base 10, which stops at its limits. -/
def strtol (s : List Char) : Int :=
  let digits (s : List Char) : Nat := Nat.ofDigitChars 10 (s.takeWhile Char.isDigit) 0
  match s.dropWhile isspace with
  | '-' :: s => max (-2 ^ 63) (-(digits s : Int))
  | '+' :: s => min (2 ^ 63 - 1) (digits s : Int)
  | s => min (2 ^ 63 - 1) (digits s : Int)

/-- `(unsigned short)atoi(s)` -/
def cidrOf (s : List Char) : Nat := (strtol s % 2 ^ 16).toNat

/-- What the parsers leave in `m_err_str`: the length of the text, a text that is no address, or two addresses in the
wrong order. The message about the length is a pointer into a literal, moved by the length. -/
inductive ParseError where
  | rangeLength
  | convertIp (ip : List Char)
  | convertMaskIp (ip : List Char)
  | parseIp (ip : List Char)
  | order (first second : List Char)
  deriving DecidableEq, Repr

section

variable (inetPton : InetPton) (range : List Char) (ptr : Nat)

/-- `parse_mask`, with `ptr` the index of the bar. -/
def parseMask : Except ParseError Range :=
  if 100 < range.length then .error .rangeLength
  else
    let firstIpStr := copyWithoutSpaces ipMaxLen (range.take ptr)
    let maskIpStr := copyWithoutSpaces ipMaxLen (range.drop (ptr + 1))
    match strToIp inetPton firstIpStr with
    | none => .error (.convertIp firstIpStr)
    | some ip =>
      match strToIp inetPton maskIpStr with
      | none => .error (.convertMaskIp maskIpStr)
      | some maskIp =>
        if maskIp.isIpv4 then
          .ok ⟨⟨ip.a &&& maskIp.a, 0x0000FFFF, 0, 0⟩, ⟨ip.a ||| ~~~maskIp.a, 0x0000FFFF, 0, 0⟩⟩
        else .ok ⟨ip.and maskIp, ip.or maskIp.not⟩

/-- `parse_single` -/
def parseSingle : Except ParseError Range :=
  if 100 < range.length then .error .rangeLength
  else
    let buf := copyWithoutSpaces ipMaxLen range
    match strToIp inetPton buf with
    | none => .error (.convertIp buf)
    | some ip => .ok ⟨ip, ip⟩

/-- `parse_slash`, with `ptr` the index of the slash; what `mask_range` returns is dropped, and where it returns `false`
it leaves the range as it is. -/
def parseSlash : Except ParseError Range :=
  if 100 < range.length then .error .rangeLength
  else
    let buf := copyWithoutSpaces ipMaxLen (range.take ptr)
    let cidr := cidrOf (range.drop (ptr + 1))
    match strToIp inetPton buf with
    | none => .error (.convertIp buf)
    | some ip => .ok ((maskRange ⟨ip, ip⟩ cidr).getD ⟨ip, ip⟩)

/-- `parse_hyphen`, with `ptr` the index of the hyphen. -/
def parseHyphen : Except ParseError Range :=
  if 100 < range.length then .error .rangeLength
  else
    let firstIp := copyWithoutSpaces ipMaxLen (range.take ptr)
    let secondIp := copyWithoutSpaces ipMaxLen (range.drop (ptr + 1))
    match strToIp inetPton firstIp with
    | none => .error (.parseIp firstIp)
    | some first =>
      match strToIp inetPton secondIp with
      | none => .error (.parseIp secondIp)
      | some last => if first.gt last then .error (.order firstIp secondIp) else .ok ⟨first, last⟩

/-- `parse_range`; its message is the text that it could not parse. -/
def parseRange : Except (List Char) Range :=
  let parsed :=
    match range.idxOf? '/', range.idxOf? '-', range.idxOf? '|' with
    | some ptr, _, _ => parseSlash inetPton range ptr
    | none, some ptr, _ => parseHyphen inetPton range ptr
    | none, none, some ptr => parseMask inetPton range ptr
    | none, none, none => parseSingle inetPton range
  parsed.mapError fun _ => range

end

end GaussKernel.Security
