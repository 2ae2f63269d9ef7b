import GaussKernel.Lib.Decimal
import GaussKernel.Lib.Prefix
import GaussKernel.Security.IpRangeParse
import GaussKernel.Security.IpRangeSet

/-!
# Prefixes and masks of addresses

The ranges that `parse_slash` and `parse_mask` make, against the addresses of one family that agree with the given one.
The family of an address is that of its text: `str_to_ip` forgets it, and `mask_range` guesses it from the second
word.
-/

namespace GaussKernel.Security

open Lib

inductive Family where
  | ipv4
  | ipv6
  deriving DecidableEq, Repr

/-- The length of an address in bits. -/
def Family.bits : Family → Nat
  | ipv4 => 32
  | ipv6 => 128

/-- The addresses of a family among the 128-bit ones. -/
def Family.addresses : Family → Set IPV6
  | ipv4 => {x | x.b = 0x0000FFFF ∧ x.c = 0 ∧ x.d = 0}
  | ipv6 => Set.univ

/-- `str_to_ip` with the family of the text. -/
def resolve (inetPton : InetPton) (ipStr : List Char) : Option (Family × IPV6) :=
  match inetPton.inet6 ipStr with
  | some sa => some (.ipv6, netIpv6ToHostOrder sa)
  | none => (inetPton.inet ipStr).map fun addr => (.ipv4, netIpv4ToHostOrder addr)

/-- The addresses of the family that agree with the given one on its first `p` bits. -/
def agreeing (f : Family) (ip : IPV6) (p : Nat) : Set IPV6 :=
  {x | x ∈ f.addresses ∧ x.toNat / 2 ^ (f.bits - p) = ip.toNat / 2 ^ (f.bits - p)}

/-- The addresses of the family that agree with the given one under the mask. -/
def agreeingUnder (f : Family) (ip mask : IPV6) : Set IPV6 := {x | x ∈ f.addresses ∧ x.and mask = ip.and mask}

/-- The bits of a mask are set up to some length and clear from there on. -/
def Contiguous (f : Family) (mask : IPV6) : Prop :=
  mask ∈ f.addresses ∧ ∃ p ≤ f.bits, mask.toNat % 2 ^ f.bits = prefixMask f.bits (f.bits - p)

variable {inetPton : InetPton} {f : Family} {ip mask x : IPV6} {p : Nat}

lemma strToIp_of_resolve {s : List Char} (h : resolve inetPton s = some (f, ip)) :
    strToIp inetPton s = some ip ∧ ip ∈ f.addresses := by
  rw [resolve] at h
  rw [strToIp]
  cases hsa : inetPton.inet6 s with
  | some sa =>
    rw [hsa] at h
    cases h
    exact ⟨rfl, trivial⟩
  | none =>
    rw [hsa] at h
    cases haddr : inetPton.inet s with
    | none =>
      rw [haddr] at h
      cases h
    | some addr =>
      rw [haddr] at h
      cases h
      exact ⟨rfl, rfl, rfl, rfl⟩

/-! ## Words -/

lemma maskFrom_toNat (w : UInt32) {k : Nat} (hk : k < 32) :
    (maskFrom w k).toNat = blockStart ((32 - k) % 32) w.toNat := by
  have htable : ∀ k < 32, (maskFromLut.getD k 0).toNat = prefixMask 32 ((32 - k) % 32) := by decide
  rw [maskFrom, UInt32.toNat_and, htable k hk]
  exact and_prefixMask (Nat.mod_lt _ (by decide)).le w.toNat_lt

lemma maskTo_toNat (w : UInt32) {k : Nat} (hk : k < 32) : (maskTo w k).toNat = blockEnd ((32 - k) % 32) w.toNat := by
  have htable : ∀ k < 32, (maskToLut.getD k 0).toNat = 2 ^ ((32 - k) % 32) - 1 := by decide
  rw [maskTo, UInt32.toNat_or, htable k hk]
  exact or_suffixMask

/-- An address as its last word and the number of the three others. -/
lemma toNat_words (x : IPV6) :
    x.toNat = x.a.toNat + 2 ^ 32 * (x.b.toNat + 2 ^ 32 * (x.c.toNat + 2 ^ 32 * x.d.toNat)) := by
  simp only [IPV6.toNat, IPV6.lower, IPV6.upper]
  omega

lemma toNat_and (x y : IPV6) : (x.and y).toNat = x.toNat &&& y.toNat := by
  rw [toNat_words, toNat_words x, toNat_words y, and_words x.a.toNat_lt y.a.toNat_lt,
    and_words x.b.toNat_lt y.b.toNat_lt, and_words x.c.toNat_lt y.c.toNat_lt]
  simp only [IPV6.and, UInt32.toNat_and]

lemma toNat_or (x y : IPV6) : (x.or y).toNat = x.toNat ||| y.toNat := by
  rw [toNat_words, toNat_words x, toNat_words y, or_words x.a.toNat_lt y.a.toNat_lt,
    or_words x.b.toNat_lt y.b.toNat_lt, or_words x.c.toNat_lt y.c.toNat_lt]
  simp only [IPV6.or, UInt32.toNat_or]

lemma toNat_complement (w : UInt32) : (~~~w).toNat = 2 ^ 32 - 1 - w.toNat := by
  rw [UInt32.toNat_not]
  rfl

lemma toNat_not (x : IPV6) : x.not.toNat = 2 ^ 128 - 1 - x.toNat := by
  have ha := x.a.toNat_lt
  have hb := x.b.toNat_lt
  have hc := x.c.toNat_lt
  have hd := x.d.toNat_lt
  rw [toNat_words, toNat_words x]
  simp only [IPV6.not, toNat_complement]
  omega

/-! ## Ranges of a block -/

/-- The range of all addresses that agree with `ip` above the last `s` bits. -/
def Range.IsBlock (r : Range) (ip : IPV6) (s : Nat) : Prop :=
  r.first.toNat = blockStart s ip.toNat ∧ r.last.toNat = blockEnd s ip.toNat

lemma Range.IsBlock.mem_iff {r : Range} {s : Nat} (h : r.IsBlock ip s) :
    x ∈ r.set ↔ x.toNat / 2 ^ s = ip.toNat / 2 ^ s := by
  rw [div_eq_iff_block, ← h.1, ← h.2]
  rfl

/-- Addresses that agree above the last 32 bits are of the same family. -/
lemma mem_addresses_of_div_eq (hip : ip ∈ f.addresses) {s : Nat} (hs : s ≤ 32)
    (h : x.toNat / 2 ^ s = ip.toNat / 2 ^ s) : x ∈ f.addresses := by
  cases f with
  | ipv6 => trivial
  | ipv4 =>
    obtain ⟨hb, hc, hd⟩ := hip
    have h32 : x.toNat / 2 ^ 32 = ip.toNat / 2 ^ 32 := by
      obtain ⟨k, hk⟩ := Nat.exists_eq_add_of_le hs
      rw [hk, pow_add, ← Nat.div_div_eq_div_mul, ← Nat.div_div_eq_div_mul, h]
    have hxa := x.a.toNat_lt
    have hxb := x.b.toNat_lt
    have hxc := x.c.toNat_lt
    have hxd := x.d.toNat_lt
    have hipa := ip.a.toNat_lt
    rw [toNat_words, toNat_words ip, hb, hc, hd] at h32
    have hFFFF : (0x0000FFFF : UInt32).toNat = 0xFFFF := rfl
    have hzero : (0 : UInt32).toNat = 0 := rfl
    rw [hFFFF, hzero] at h32
    exact ⟨UInt32.toNat_inj.mp (by omega), UInt32.toNat_inj.mp (by omega), UInt32.toNat_inj.mp (by omega)⟩

lemma Range.IsBlock.set_eq {r : Range} (hip : ip ∈ f.addresses) (hblock : r.IsBlock ip (f.bits - p)) :
    r.set = agreeing f ip p := by
  ext x
  rw [hblock.mem_iff]
  refine ⟨fun h => ⟨?_, h⟩, fun h => h.2⟩
  cases f with
  | ipv4 => exact mem_addresses_of_div_eq hip (Nat.sub_le _ _) h
  | ipv6 => trivial

/-! ## `mask_range` -/

lemma isIpv4_iff : ip.isIpv4 = true ↔ ip.b = 0x0000FFFF := by simp [IPV6.isIpv4]

/-- A prefix of an IPv4 address. -/
lemma maskRange_ipv4 (hip : ip.b = 0x0000FFFF) (h1 : 1 ≤ p) (h32 : p < 32) :
    ∃ r, maskRange ⟨ip, ip⟩ p = some r ∧ r.IsBlock ip (32 - p) := by
  have hs : (32 - p) % 32 = 32 - p := Nat.mod_eq_of_lt (by omega)
  rw [maskRange, if_pos (isIpv4_iff.mpr hip), if_neg (by omega)]
  refine ⟨_, rfl, ?_, ?_⟩
  · rw [toNat_words, toNat_words ip, blockStart_low (Nat.sub_le _ _), maskFrom_toNat _ h32, hs]
  · rw [toNat_words, toNat_words ip, blockEnd_low (Nat.sub_le _ _), maskTo_toNat _ h32, hs]

/-- A prefix of an address that is not taken for an IPv4 address; the length chooses the word that is split. -/
lemma maskRange_ipv6 (hip : ip.b ≠ 0x0000FFFF) (h1 : 1 ≤ p) (h128 : p ≤ 128) :
    ∃ r, maskRange ⟨ip, ip⟩ p = some r ∧ r.IsBlock ip (128 - p) := by
  have hk : p % 32 < 32 := Nat.mod_lt _ (by decide)
  have hs : (32 - p % 32) % 32 ≤ 32 := (Nat.mod_lt _ (by decide)).le
  have ha := ip.a.toNat_lt
  have hb := ip.b.toNat_lt
  have hc := ip.c.toNat_lt
  have hlow : (0 : UInt32).toNat = 0 := rfl
  have hhigh : (0xFFFFFFFF : UInt32).toNat = 2 ^ 32 - 1 := rfl
  rw [maskRange, if_neg (fun h => hip (isIpv4_iff.mp h)), if_neg (by omega)]
  dsimp only
  split
  case isTrue h96 =>
    have hbits : 128 - p = (32 - p % 32) % 32 := by omega
    refine ⟨_, rfl, ?_, ?_⟩
    · rw [hbits, toNat_words, toNat_words ip, blockStart_low hs, maskFrom_toNat _ hk]
    · rw [hbits, toNat_words, toNat_words ip, blockEnd_low hs, maskTo_toNat _ hk]
  case isFalse h96 =>
    split
    case isTrue h64 =>
      have hbits : 128 - p = 32 + (32 - p % 32) % 32 := by omega
      refine ⟨_, rfl, ?_, ?_⟩
      · rw [hbits, toNat_words, toNat_words ip, blockStart_high ha, blockStart_low hs, maskFrom_toNat _ hk, hlow,
          Nat.zero_add]
      · rw [hbits, toNat_words, toNat_words ip, blockEnd_high ha, blockEnd_low hs, maskTo_toNat _ hk, hhigh]
    case isFalse h64 =>
      split
      case isTrue h32 =>
        have hbits : 128 - p = 32 + (32 + (32 - p % 32) % 32) := by omega
        refine ⟨_, rfl, ?_, ?_⟩
        · rw [hbits, toNat_words, toNat_words ip, blockStart_high ha, blockStart_high hb, blockStart_low hs,
            maskFrom_toNat _ hk, hlow, Nat.zero_add, Nat.zero_add]
        · rw [hbits, toNat_words, toNat_words ip, blockEnd_high ha, blockEnd_high hb, blockEnd_low hs,
            maskTo_toNat _ hk, hhigh]
      case isFalse h32 =>
        have hbits : 128 - p = 32 + (32 + (32 + (32 - p % 32) % 32)) := by omega
        refine ⟨_, rfl, ?_, ?_⟩
        · rw [hbits, toNat_words, toNat_words ip, blockStart_high ha, blockStart_high hb, blockStart_high hc,
            maskFrom_toNat _ hk, hlow, Nat.zero_add, Nat.zero_add, Nat.zero_add]
        · rw [hbits, toNat_words, toNat_words ip, blockEnd_high ha, blockEnd_high hb, blockEnd_high hc,
            maskTo_toNat _ hk, hhigh]

/-- Whatever is taken for an IPv4 address keeps its other words. -/
lemma maskRange_words {r : Range} (hip : ip.b = 0x0000FFFF) (hr : (maskRange ⟨ip, ip⟩ p).getD ⟨ip, ip⟩ = r)
    (hx : x ∈ r.set) : x.toNat / 2 ^ 32 = ip.toNat / 2 ^ 32 := by
  have hwords : ∀ a a' : UInt32, x ∈ (⟨{ ip with a := a }, { ip with a := a' }⟩ : Range).set →
      x.toNat / 2 ^ 32 = ip.toNat / 2 ^ 32 := by
    rintro a a' ⟨h1, h2⟩
    have ha := a.toNat_lt
    have ha' := a'.toNat_lt
    have hipa := ip.a.toNat_lt
    rw [toNat_words { ip with a := a }] at h1
    rw [toNat_words { ip with a := a' }] at h2
    rw [toNat_words ip]
    dsimp only at h1 h2
    omega
  subst hr
  rw [maskRange, if_pos (isIpv4_iff.mpr hip)] at hx
  split at hx
  · exact hwords ip.a ip.a hx
  · exact hwords _ _ hx

end GaussKernel.Security
