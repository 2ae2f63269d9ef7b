import GaussKernel.Security.IpRangePrefix

/-!
# The ranges of `ip/cidr` and `ip|mask`

`parse_mask` makes exactly the range of the addresses that agree under the mask. `parse_slash` does so for the first
bits only under a condition (`SlashCondition`): it accepts every length, since it drops what `mask_range` returns;
`MASK_TO_LUT` has the wrong entry for the length 32; and an IPv6 address whose second word is `0x0000FFFF` is masked as
an IPv4 address.
-/

namespace GaussKernel.Security

open Lib

variable {inetPton : InetPton} {f : Family} {ip mask x : IPV6} {p : Nat} {digits : List Char}

/-! ## The number behind the slash -/

lemma isspace_of_isDigit {c : Char} (h : c.isDigit = true) : isspace c = false := by
  simp only [Char.isDigit, Bool.and_eq_true, decide_eq_true_eq] at h
  simp only [isspace, Bool.decide_or, Bool.decide_and, Bool.or_eq_false_iff, Bool.and_eq_false_iff,
    decide_eq_false_iff_not]
  refine ⟨fun hc => ?_, .inr fun hc => ?_⟩
  · subst hc
    exact absurd h.1 (by decide)
  · have hlow : '0'.val ≤ '\r'.val := h.1.trans hc
    exact absurd hlow (by decide)

lemma strtol_digits (h : ∀ c ∈ digits, c.isDigit = true) : strtol digits = min (2 ^ 63 - 1) (spelled digits : Int) := by
  have hdrop : digits.dropWhile isspace = digits := by
    cases digits with
    | nil => rfl
    | cons c cs =>
      have hspace := isspace_of_isDigit (h c List.mem_cons_self)
      rw [List.dropWhile_cons_of_neg (Bool.eq_false_iff.mp hspace)]
  have htake : digits.takeWhile Char.isDigit = digits := List.takeWhile_eq_self_iff.mpr h
  rw [strtol, hdrop]
  split
  · exact absurd (h '-' List.mem_cons_self) (by decide)
  · exact absurd (h '+' List.mem_cons_self) (by decide)
  · dsimp only
    rw [htake]
    rfl

lemma cidrOf_digits (h : ∀ c ∈ digits, c.isDigit = true) (hlt : spelled digits < 2 ^ 16) :
    cidrOf digits = spelled digits := by
  rw [cidrOf, strtol_digits h]
  omega

/-! ## The texts -/

lemma copyWithoutSpaces_eq {s : List Char} (h : s.length ≤ ipMaxLen) :
    copyWithoutSpaces ipMaxLen s = s.filter (· ≠ ' ') := by
  rw [copyWithoutSpaces]
  split
  case isTrue hempty =>
    have hnil : s = [] := List.length_eq_zero_iff.mp (hempty.resolve_right (Nat.not_lt.mpr h))
    rw [hnil]
    rfl
  case isFalse => rfl

/-- The two parts of a text around a separator. -/
lemma split_text (s t : List Char) (c : Char) :
    (s ++ c :: t).take s.length = s ∧ (s ++ c :: t).drop (s.length + 1) = t := by
  refine ⟨List.take_left, ?_⟩
  have hassoc : s ++ c :: t = s ++ [c] ++ t := (List.append_assoc s [c] t).symm
  rw [hassoc]
  exact List.drop_left' List.length_append

variable {ipText maskText : List Char}

lemma parseSlash_eq (h : resolve inetPton (ipText.filter (· ≠ ' ')) = some (f, ip))
    (hlen : (ipText ++ '/' :: digits).length ≤ 100) :
    parseSlash inetPton (ipText ++ '/' :: digits) ipText.length =
      .ok ((maskRange ⟨ip, ip⟩ (cidrOf digits)).getD ⟨ip, ip⟩) := by
  obtain ⟨htake, hdrop⟩ := split_text ipText digits '/'
  have hbuf : ipText.length ≤ ipMaxLen := by
    rw [List.length_append] at hlen
    exact (Nat.le_of_add_right_le hlen).trans (by decide)
  rw [parseSlash, if_neg (Nat.not_lt.mpr hlen), htake, hdrop, copyWithoutSpaces_eq hbuf]
  simp only [(strToIp_of_resolve h).1]

lemma parseSlash_long (hlen : 100 < (ipText ++ '/' :: digits).length) :
    parseSlash inetPton (ipText ++ '/' :: digits) ipText.length = .error .rangeLength := if_pos hlen

/-! ## The prefix -/

/-- `parse_slash` accepts exactly the lengths of prefixes, and gives the range of the addresses with that prefix. -/
def SlashExact (inetPton : InetPton) (ipText digits : List Char) (f : Family) (ip : IPV6) : Prop :=
  ((∃ r, parseSlash inetPton (ipText ++ '/' :: digits) ipText.length = .ok r) ↔
      1 ≤ spelled digits ∧ spelled digits ≤ f.bits) ∧
    ∀ r, parseSlash inetPton (ipText ++ '/' :: digits) ipText.length = .ok r → r.set = agreeing f ip (spelled digits)

/-- The lengths at which `mask_range` makes the right range. -/
def PrefixExact : Family → IPV6 → Nat → Prop
  | .ipv4, ip, p => 1 ≤ p ∧ (p ≤ 31 ∨ p = 32 ∧ ip.a = 0xFFFFFFFF)
  | .ipv6, ip, p => 1 ≤ p ∧ p ≤ 128 ∧ (ip.b = 0x0000FFFF → p = 128)

/-- A text that is too long is right to be rejected when its length of a prefix is none. -/
def SlashCondition (textLength : Nat) (f : Family) (ip : IPV6) (p : Nat) : Prop :=
  if 100 < textLength then ¬ (1 ≤ p ∧ p ≤ f.bits) else PrefixExact f ip p

lemma agreeing_bits (hip : ip ∈ f.addresses) : agreeing f ip f.bits = {ip} := by
  ext x
  simp only [agreeing, Nat.sub_self, pow_zero, Nat.div_one]
  refine ⟨fun h => IPV6.toNat_inj h.2, fun h => ?_⟩
  obtain rfl : x = ip := h
  exact ⟨hip, rfl⟩

lemma Range.single_set (ip : IPV6) : (⟨ip, ip⟩ : Range).set = {ip} := by
  ext x
  refine ⟨fun h => IPV6.toNat_inj (Nat.le_antisymm h.2 h.1), fun h => ?_⟩
  obtain rfl : x = ip := h
  exact ⟨le_rfl, le_rfl⟩

lemma maskRange_ipv4_last (hip : ip.b = 0x0000FFFF) :
    maskRange ⟨ip, ip⟩ 32 = some ⟨ip, { ip with a := 0xFFFFFFFF }⟩ := by
  have hfrom : maskFrom ip.a 32 = ip.a := UInt32.and_neg_one
  have hto : maskTo ip.a 32 = 0xFFFFFFFF := UInt32.or_neg_one
  rw [maskRange, if_pos (isIpv4_iff.mpr hip), if_neg (by omega), hfrom, hto]

/-- The ranges of the lengths of prefixes of IPv4 addresses. -/
lemma prefix_ipv4 (hip : ip ∈ Family.ipv4.addresses) (h1 : 1 ≤ p) (h32 : p ≤ 32) :
    ((maskRange ⟨ip, ip⟩ p).getD ⟨ip, ip⟩).set = agreeing .ipv4 ip p ↔ PrefixExact .ipv4 ip p := by
  cases Nat.eq_or_lt_of_le h32 with
  | inr hlt =>
    obtain ⟨r, hr, hblock⟩ := maskRange_ipv4 hip.1 h1 hlt
    rw [hr]
    exact ⟨fun _ => ⟨h1, .inl (Nat.le_of_lt_succ hlt)⟩, fun _ => hblock.set_eq (f := .ipv4) hip⟩
  | inl heq =>
    subst heq
    rw [maskRange_ipv4_last hip.1, Option.getD_some, show agreeing .ipv4 ip 32 = {ip} from agreeing_bits hip]
    constructor
    · intro hset
      -- the last address of the range is one that agrees
      have hlast : (⟨0xFFFFFFFF, ip.b, ip.c, ip.d⟩ : IPV6) ∈ (⟨ip, { ip with a := 0xFFFFFFFF }⟩ : Range).set := by
        refine ⟨?_, le_rfl⟩
        have ha := ip.a.toNat_lt
        have hmax : (0xFFFFFFFF : UInt32).toNat = 2 ^ 32 - 1 := rfl
        change ip.toNat ≤ IPV6.toNat { ip with a := 0xFFFFFFFF }
        rw [toNat_words, toNat_words { ip with a := 0xFFFFFFFF }]
        dsimp only
        omega
      rw [hset] at hlast
      exact ⟨h1, .inr ⟨rfl, (congrArg IPV6.a hlast).symm⟩⟩
    · rintro ⟨-, h31 | ⟨-, ha⟩⟩
      · exact absurd h31 (by decide)
      · have hsame : { ip with a := 0xFFFFFFFF } = ip := by rw [← ha]
        rw [hsame]
        exact Range.single_set ip

/-- An address that agrees on a shorter prefix, and differs from `ip` above the last 32 bits. -/
lemma exists_agreeing_above (hip : ip.b = 0x0000FFFF) (h32 : p ≤ 32) :
    ∃ x ∈ agreeing .ipv6 ip p, x.toNat / 2 ^ 32 ≠ ip.toNat / 2 ^ 32 := by
  have ha := ip.a.toNat_lt
  have hFFFF : (0x0000FFFF : UInt32).toNat = 0xFFFF := rfl
  have hFFFE : (0x0000FFFE : UInt32).toNat = 0xFFFE := rfl
  let x : IPV6 := { ip with b := 0x0000FFFE }
  have hx : x.toNat = ip.a.toNat + 2 ^ 32 * (0xFFFE + 2 ^ 32 * (ip.c.toNat + 2 ^ 32 * ip.d.toNat)) := by
    rw [toNat_words, ← hFFFE]
  have hip' : ip.toNat = ip.a.toNat + 2 ^ 32 * (0xFFFF + 2 ^ 32 * (ip.c.toNat + 2 ^ 32 * ip.d.toNat)) := by
    rw [toNat_words ip, hip, hFFFF]
  refine ⟨x, ⟨trivial, ?_⟩, ?_⟩
  · have hbits : Family.ipv6.bits - p = 33 + (95 - p) := by
      rw [Family.bits]
      omega
    have h33 : x.toNat / 2 ^ 33 = ip.toNat / 2 ^ 33 := by
      rw [hx, hip']
      omega
    rw [hbits, pow_add, ← Nat.div_div_eq_div_mul, ← Nat.div_div_eq_div_mul, h33]
  · rw [hx, hip']
    omega

/-- A prefix that is shorter than the address has more than one address. -/
lemma exists_agreeing_ne (ip : IPV6) (h : p < 128) : ∃ x ∈ agreeing .ipv6 ip p, x ≠ ip := by
  have ha : (ip.a ^^^ 1).toNat / 2 = ip.a.toNat / 2 := by
    have hxor := Nat.xor_div_two_pow (a := ip.a.toNat) (b := 1) (n := 1)
    rw [UInt32.toNat_xor]
    simpa using hxor
  refine ⟨{ ip with a := ip.a ^^^ 1 }, ⟨trivial, ?_⟩, fun heq => ?_⟩
  · have hbits : Family.ipv6.bits - p = 1 + (127 - p) := by
      rw [Family.bits]
      omega
    have hhalf : IPV6.toNat { ip with a := ip.a ^^^ 1 } / 2 ^ 1 = ip.toNat / 2 ^ 1 := by
      rw [toNat_words, toNat_words ip]
      dsimp only
      omega
    rw [hbits, pow_add, ← Nat.div_div_eq_div_mul, ← Nat.div_div_eq_div_mul, hhalf]
  · have hone : ip.a ^^^ 1 = ip.a := congrArg IPV6.a heq
    have hzero : (1 : UInt32) = 0 := by
      calc (1 : UInt32) = ip.a ^^^ (ip.a ^^^ 1) := by rw [← UInt32.xor_assoc, UInt32.xor_self, UInt32.zero_xor]
        _ = 0 := by rw [hone, UInt32.xor_self]
    exact absurd hzero (by decide)

/-- The ranges of the lengths of prefixes of IPv6 addresses. -/
lemma prefix_ipv6 (h1 : 1 ≤ p) (h128 : p ≤ 128) :
    ((maskRange ⟨ip, ip⟩ p).getD ⟨ip, ip⟩).set = agreeing .ipv6 ip p ↔ PrefixExact .ipv6 ip p := by
  by_cases hip : ip.b = 0x0000FFFF
  · -- taken for an IPv4 address: the range of other words is missed up to length 32, and from there on all but `ip`
    have hsingle : 32 < p → ((maskRange ⟨ip, ip⟩ p).getD ⟨ip, ip⟩).set = {ip} := by
      intro h32
      rw [maskRange, if_pos (isIpv4_iff.mpr hip), if_pos (.inr h32), Option.getD_none, Range.single_set]
    constructor
    · intro hset
      refine ⟨h1, h128, fun _ => Nat.le_antisymm h128 (Nat.le_of_not_lt fun hlt => ?_)⟩
      cases Nat.lt_or_ge 32 p with
      | inl h32 =>
        obtain ⟨x, hx, hne⟩ := exists_agreeing_ne ip hlt
        rw [← hset, hsingle h32] at hx
        exact hne hx
      | inr h32 =>
        obtain ⟨x, hx, hne⟩ := exists_agreeing_above hip h32
        rw [← hset] at hx
        exact hne (maskRange_words hip rfl hx)
    · rintro ⟨-, -, hlast⟩
      obtain rfl : p = 128 := hlast hip
      rw [hsingle (by decide)]
      exact (agreeing_bits (f := .ipv6) trivial).symm
  · obtain ⟨r, hr, hblock⟩ := maskRange_ipv6 hip h1 h128
    rw [hr]
    exact ⟨fun _ => ⟨h1, h128, fun h => absurd h hip⟩, fun _ => hblock.set_eq (f := .ipv6) trivial⟩

lemma PrefixExact.bounds (h : PrefixExact f ip p) : 1 ≤ p ∧ p ≤ f.bits := by
  cases f with
  | ipv4 =>
    obtain ⟨h1, h31 | ⟨rfl, -⟩⟩ := h
    · exact ⟨h1, h31.trans (by decide)⟩
    · exact ⟨h1, le_rfl⟩
  | ipv6 => exact ⟨h.1, h.2.1⟩

lemma prefix_iff (hip : ip ∈ f.addresses) (h1 : 1 ≤ p) (hbits : p ≤ f.bits) :
    ((maskRange ⟨ip, ip⟩ p).getD ⟨ip, ip⟩).set = agreeing f ip p ↔ PrefixExact f ip p := by
  cases f with
  | ipv4 => exact prefix_ipv4 hip h1 hbits
  | ipv6 => exact prefix_ipv6 h1 hbits

lemma slashExact_iff (h : resolve inetPton (ipText.filter (· ≠ ' ')) = some (f, ip))
    (hdigits : ∀ c ∈ digits, c.isDigit = true) :
    SlashExact inetPton ipText digits f ip ↔
      SlashCondition (ipText ++ '/' :: digits).length f ip (spelled digits) := by
  rw [SlashExact, SlashCondition]
  split
  case isTrue hlen =>
    rw [parseSlash_long hlen]
    constructor
    · rintro ⟨haccept, -⟩ hvalid
      obtain ⟨_, hr⟩ := haccept.mpr hvalid
      cases hr
    · intro hinvalid
      exact ⟨⟨fun ⟨_, hr⟩ => (nomatch hr), fun hvalid => absurd hvalid hinvalid⟩, nofun⟩
  case isFalse hlen =>
    rw [parseSlash_eq h (Nat.not_lt.mp hlen)]
    have hip := (strToIp_of_resolve h).2
    have hcidr : spelled digits ≤ f.bits → cidrOf digits = spelled digits := fun hle =>
      cidrOf_digits hdigits (hle.trans_lt (by cases f <;> decide))
    constructor
    · rintro ⟨haccept, hset⟩
      obtain ⟨h1, hbits⟩ := haccept.mp ⟨_, rfl⟩
      have hset' := hset _ rfl
      rw [hcidr hbits] at hset'
      exact (prefix_iff hip h1 hbits).mp hset'
    · intro hexact
      obtain ⟨h1, hbits⟩ := hexact.bounds
      refine ⟨⟨fun _ => ⟨h1, hbits⟩, fun _ => ⟨_, rfl⟩⟩, fun r hr => ?_⟩
      cases hr
      rw [hcidr hbits]
      exact (prefix_iff hip h1 hbits).mpr hexact

/-! ## The mask -/

lemma parseMask_eq (h : resolve inetPton (ipText.filter (· ≠ ' ')) = some (f, ip))
    (hmask : resolve inetPton (maskText.filter (· ≠ ' ')) = some (f, mask))
    (hlen : (ipText ++ '|' :: maskText).length ≤ 100) :
    parseMask inetPton (ipText ++ '|' :: maskText) ipText.length =
      .ok (if mask.isIpv4 then ⟨⟨ip.a &&& mask.a, 0x0000FFFF, 0, 0⟩, ⟨ip.a ||| ~~~mask.a, 0x0000FFFF, 0, 0⟩⟩
        else ⟨ip.and mask, ip.or mask.not⟩) := by
  obtain ⟨htake, hdrop⟩ := split_text ipText maskText '|'
  have hsum : ipText.length + (maskText.length + 1) ≤ 100 := by
    rwa [List.length_append, List.length_cons] at hlen
  have hip : ipText.length ≤ ipMaxLen := (Nat.le_of_add_right_le hsum).trans (by decide)
  have hmaskLen : maskText.length ≤ ipMaxLen :=
    (Nat.le_succ _).trans ((Nat.le_of_add_left_le hsum).trans (by decide))
  rw [parseMask, if_neg (Nat.not_lt.mpr hlen), htake, hdrop, copyWithoutSpaces_eq hip, copyWithoutSpaces_eq hmaskLen]
  simp only [(strToIp_of_resolve h).1, (strToIp_of_resolve hmask).1]
  split
  · rfl
  · rfl

/-- The second word of a contiguous mask of 128 bits is not that of an IPv4 address: its bits would have to go on
being set. -/
lemma prefixMask_not_isIpv4 (h : mask.toNat = prefixMask 128 (128 - p)) : mask.b ≠ 0x0000FFFF := by
  intro hb
  have hword : mask.toNat / 2 ^ 32 % 2 ^ 32 = 0xFFFF := by
    have ha := mask.a.toNat_lt
    have hFFFF : mask.b.toNat = 0xFFFF := by
      rw [hb]
      rfl
    rw [toNat_words, hFFFF]
    omega
  have hbit : ∀ i < 32, (decide (128 - p ≤ i + 32) && decide (i + 32 < 128)) = Nat.testBit 0xFFFF i := by
    intro i hi
    have hlow := Nat.testBit_mod_two_pow (mask.toNat / 2 ^ 32) 32 i
    rw [hword, decide_eq_true hi, Bool.true_and, Nat.testBit_div_two_pow, h,
      testBit_prefixMask (Nat.sub_le _ _)] at hlow
    exact hlow.symm
  have hset : 128 - p ≤ 32 := by simpa using hbit 0 (by decide)
  have hclear := hbit 31 (by decide)
  rw [decide_eq_true (hset.trans (by decide))] at hclear
  exact absurd hclear (by decide)

/-- The number of a contiguous mask. -/
lemma mask_toNat (hmask : mask ∈ f.addresses) (h : mask.toNat % 2 ^ f.bits = prefixMask f.bits (f.bits - p)) :
    match f with
    | .ipv4 => mask.a.toNat = prefixMask 32 (32 - p)
    | .ipv6 => mask.toNat = prefixMask 128 (128 - p) := by
  cases f with
  | ipv4 =>
    have ha := mask.a.toNat_lt
    have hmod : mask.toNat % 2 ^ 32 = mask.a.toNat := by
      rw [toNat_words]
      omega
    exact hmod.symm.trans h
  | ipv6 => exact (Nat.mod_eq_of_lt mask.toNat_lt).symm.trans h

/-- Agreeing under a contiguous mask is agreeing on its length. -/
lemma agreeingUnder_eq (hip : ip ∈ f.addresses) (hmask : mask ∈ f.addresses)
    (h : mask.toNat % 2 ^ f.bits = prefixMask f.bits (f.bits - p)) : agreeingUnder f ip mask = agreeing f ip p := by
  have hnum := mask_toNat hmask h
  ext x
  refine and_congr_right fun hx => ?_
  rw [div_eq_iff_blockStart]
  cases f with
  | ipv4 =>
    obtain ⟨hxb, hxc, hxd⟩ := hx
    obtain ⟨hipb, hipc, hipd⟩ := hip
    have hword : ∀ w : UInt32, (w &&& mask.a).toNat = blockStart (32 - p) w.toNat := fun w => by
      rw [UInt32.toNat_and, hnum, and_prefixMask (Nat.sub_le _ _) w.toNat_lt]
    rw [toNat_words, toNat_words ip, hxb, hxc, hxd, hipb, hipc, hipd, Family.bits, blockStart_low (Nat.sub_le _ _),
      blockStart_low (Nat.sub_le _ _), Nat.add_right_cancel_iff, ← hword, ← hword, UInt32.toNat_inj]
    constructor
    · intro heq
      exact congrArg IPV6.a heq
    · intro heq
      simp only [IPV6.and, hxb, hxc, hxd, hipb, hipc, hipd, heq]
  | ipv6 =>
    have hwhole : ∀ y : IPV6, (y.and mask).toNat = blockStart (128 - p) y.toNat := fun y => by
      rw [toNat_and, hnum, and_prefixMask (Nat.sub_le _ _) y.toNat_lt]
    rw [Family.bits, ← hwhole, ← hwhole]
    exact ⟨fun heq => congrArg IPV6.toNat heq, IPV6.toNat_inj⟩

lemma complement_prefixMask {n s : Nat} (hs : s ≤ n) : 2 ^ n - 1 - prefixMask n s = 2 ^ s - 1 := by
  have hle : 2 ^ s ≤ 2 ^ n := Nat.pow_le_pow_right Nat.two_pos hs
  rw [prefixMask]
  omega

/-- The range that `parse_mask` makes is a block. -/
lemma mask_isBlock (hip : ip ∈ f.addresses) (hmask : mask ∈ f.addresses)
    (h : mask.toNat % 2 ^ f.bits = prefixMask f.bits (f.bits - p)) :
    Range.IsBlock (if mask.isIpv4 then ⟨⟨ip.a &&& mask.a, 0x0000FFFF, 0, 0⟩, ⟨ip.a ||| ~~~mask.a, 0x0000FFFF, 0, 0⟩⟩
        else ⟨ip.and mask, ip.or mask.not⟩) ip (f.bits - p) := by
  have hnum := mask_toNat hmask h
  cases f with
  | ipv4 =>
    obtain ⟨hb, hc, hd⟩ := hip
    rw [if_pos (isIpv4_iff.mpr hmask.1)]
    constructor
    · rw [toNat_words, toNat_words ip, hb, hc, hd, Family.bits, blockStart_low (Nat.sub_le _ _), UInt32.toNat_and, hnum,
        and_prefixMask (Nat.sub_le _ _) ip.a.toNat_lt]
    · rw [toNat_words, toNat_words ip, hb, hc, hd, Family.bits, blockEnd_low (Nat.sub_le _ _), UInt32.toNat_or,
        toNat_complement, hnum, complement_prefixMask (Nat.sub_le _ _), or_suffixMask]
  | ipv6 =>
    rw [if_neg fun h => prefixMask_not_isIpv4 hnum (isIpv4_iff.mp h)]
    constructor
    · rw [toNat_and, hnum, and_prefixMask (Nat.sub_le _ _) ip.toNat_lt]
      rfl
    · rw [toNat_or, toNat_not, hnum, complement_prefixMask (Nat.sub_le _ _), or_suffixMask]
      rfl

/-- `parse_mask` gives the range of the addresses that agree under the mask. -/
def MaskExact (inetPton : InetPton) (ipText maskText : List Char) (f : Family) (ip mask : IPV6) : Prop :=
  ∃ r, parseMask inetPton (ipText ++ '|' :: maskText) ipText.length = .ok r ∧ r.set = agreeingUnder f ip mask

lemma maskExact_iff (h : resolve inetPton (ipText.filter (· ≠ ' ')) = some (f, ip))
    (hmask : resolve inetPton (maskText.filter (· ≠ ' ')) = some (f, mask)) (hcontiguous : Contiguous f mask) :
    MaskExact inetPton ipText maskText f ip mask ↔ (ipText ++ '|' :: maskText).length ≤ 100 := by
  constructor
  · rintro ⟨r, hr, -⟩
    refine Nat.le_of_not_lt fun hlen => ?_
    rw [parseMask, if_pos hlen] at hr
    cases hr
  · intro hlen
    have hip := (strToIp_of_resolve h).2
    obtain ⟨hmem, p, -, hnum⟩ := hcontiguous
    refine ⟨_, parseMask_eq h hmask hlen, ?_⟩
    rw [agreeingUnder_eq hip hmem hnum]
    exact (mask_isBlock hip hmem hnum).set_eq hip

/-! ## The separator -/

/-- The first separator of a text is found behind the address. -/
lemma idxOf?_separator {c : Char} (h : c ∉ ipText) (t : List Char) :
    (ipText ++ c :: t).idxOf? c = some ipText.length := by
  induction ipText with
  | nil => rw [List.nil_append, List.idxOf?_cons, if_pos (beq_self_eq_true c), List.length_nil]
  | cons a s ih =>
    obtain ⟨hne, hs⟩ := not_or.mp (mt List.mem_cons.mpr h)
    rw [List.cons_append, List.idxOf?_cons, if_neg (by simpa using Ne.symm hne), ih hs]
    rfl

/-- `parse_range` reads an address and a length of a prefix as the range of the addresses with that prefix. -/
theorem parseRange_slash (h : resolve inetPton (ipText.filter (· ≠ ' ')) = some (f, ip)) (hslash : '/' ∉ ipText)
    (hdigits : ∀ c ∈ digits, c.isDigit = true) (hskip : PrefixExact f ip (spelled digits))
    (hlen : (ipText ++ '/' :: digits).length ≤ 100) :
    ∃ r, parseRange inetPton (ipText ++ '/' :: digits) = .ok r ∧ r.set = agreeing f ip (spelled digits) := by
  have hexact : SlashExact inetPton ipText digits f ip := by
    rwa [slashExact_iff h hdigits, SlashCondition, if_neg (Nat.not_lt.mpr hlen)]
  obtain ⟨r, hr⟩ := hexact.1.mpr hskip.bounds
  refine ⟨r, ?_, hexact.2 r hr⟩
  rw [parseRange, idxOf?_separator hslash]
  dsimp only
  rw [hr]
  rfl

/-- `parse_range` reads an address and a contiguous mask as the range of the addresses that agree under the mask. -/
theorem parseRange_mask (h : resolve inetPton (ipText.filter (· ≠ ' ')) = some (f, ip))
    (hmask : resolve inetPton (maskText.filter (· ≠ ' ')) = some (f, mask)) (hcontiguous : Contiguous f mask)
    (hslash : '/' ∉ ipText ++ '|' :: maskText) (hhyphen : '-' ∉ ipText ++ '|' :: maskText) (hbar : '|' ∉ ipText)
    (hlen : (ipText ++ '|' :: maskText).length ≤ 100) :
    ∃ r, parseRange inetPton (ipText ++ '|' :: maskText) = .ok r ∧ r.set = agreeingUnder f ip mask := by
  obtain ⟨r, hr, hset⟩ := (maskExact_iff h hmask hcontiguous).mpr hlen
  refine ⟨r, ?_, hset⟩
  rw [parseRange, List.idxOf?_eq_none_iff.mpr hslash, List.idxOf?_eq_none_iff.mpr hhyphen, idxOf?_separator hbar]
  dsimp only
  rw [hr]
  rfl

/-! ## Both formats -/

/-- A prefix length makes the exact range under the condition; a contiguous mask does whenever the text is short enough
to be parsed. -/
theorem parse_exact_iff (inetPton : InetPton) (ipText : List Char) (f : Family) (ip : IPV6)
    (h : resolve inetPton (ipText.filter (· ≠ ' ')) = some (f, ip)) :
    (∀ digits : List Char, (∀ c ∈ digits, c.isDigit = true) →
      (SlashExact inetPton ipText digits f ip ↔
        SlashCondition (ipText ++ '/' :: digits).length f ip (spelled digits))) ∧
    ∀ (maskText : List Char) (mask : IPV6), resolve inetPton (maskText.filter (· ≠ ' ')) = some (f, mask) →
      Contiguous f mask →
        (MaskExact inetPton ipText maskText f ip mask ↔ (ipText ++ '|' :: maskText).length ≤ 100) :=
  ⟨fun _ hdigits => slashExact_iff h hdigits, fun _ _ hmask hcontiguous => maskExact_iff h hmask hcontiguous⟩

/-- `inet_pton` on two texts. -/
def inetPtonTwo : InetPton where
  inet6 _ := none
  inet s :=
    if s = "192.168.10.1".toList then some 0xC0A80A01
    else if s = "255.255.255.0".toList then some 0xFFFFFF00
    else none

theorem parse_exact_iff_two :
    SlashExact inetPtonTwo "192.168.10.1".toList ['2', '4'] .ipv4 ⟨0xC0A80A01, 0x0000FFFF, 0, 0⟩ ∧
      MaskExact inetPtonTwo "192.168.10.1".toList "255.255.255.0".toList .ipv4 ⟨0xC0A80A01, 0x0000FFFF, 0, 0⟩
        ⟨0xFFFFFF00, 0x0000FFFF, 0, 0⟩ := by
  obtain ⟨hslash, hmask⟩ :=
    parse_exact_iff inetPtonTwo "192.168.10.1".toList .ipv4 ⟨0xC0A80A01, 0x0000FFFF, 0, 0⟩ (by decide)
  refine ⟨(hslash ['2', '4'] (by simp)).mpr ?_, (hmask _ _ (by decide) ?_).mpr (by decide)⟩
  · exact ⟨by decide, .inl (by decide)⟩
  · have hnum : IPV6.toNat ⟨0xFFFFFF00, 0x0000FFFF, 0, 0⟩ % 2 ^ 32 = prefixMask 32 (32 - 24) := rfl
    exact ⟨⟨rfl, rfl, rfl⟩, 24, show 24 ≤ 32 by decide, hnum⟩

/-- The length 0 is accepted: the result that says it is none is dropped. -/
theorem not_slash_exact :
    ¬ ∀ (inetPton : InetPton) (ipText digits : List Char) (f : Family) (ip : IPV6),
      resolve inetPton (ipText.filter (· ≠ ' ')) = some (f, ip) → (∀ c ∈ digits, c.isDigit = true) →
        SlashExact inetPton ipText digits f ip := by
  intro h
  have hip : resolve inetPtonTwo ("192.168.10.1".toList.filter (· ≠ ' ')) =
      some (.ipv4, ⟨0xC0A80A01, 0x0000FFFF, 0, 0⟩) := by decide
  have hexact := h inetPtonTwo "192.168.10.1".toList ['0'] .ipv4 ⟨0xC0A80A01, 0x0000FFFF, 0, 0⟩ hip (by simp)
  have hvalid := hexact.1.mp ⟨_, parseSlash_eq hip (by decide)⟩
  exact absurd hvalid.1 (by decide)

end GaussKernel.Security
