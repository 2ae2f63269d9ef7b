import GaussKernel.Lib.RangeList
import GaussKernel.Security.IpRange

/-!
# The set of an `IPRange`

The list `m_ranges` against the set of addresses that the calls of `add_range` and `remove_range` describe, with the
addresses taken as the 128-bit numbers that they are.

`operator<` compares both halves of two addresses and not one after the other, so it is the order of the numbers only
on addresses whose halves do not disagree (`Alike`); `operator+` and `operator-` leave the upper half of an address
out when its second word is that of an IPv4 address (`SuccExact`, `PredExact`); and the search runs for ever when its
bounds cross (`CrossedAt`). A run whose steps avoid this keeps the list sorted and denotes the right set.
-/

namespace GaussKernel.Security

open Lib

namespace IPV6

variable {x y : IPV6}

lemma lower_lt (x : IPV6) : x.lower < 2 ^ 64 := by
  have ha := x.a.toNat_lt
  have hb := x.b.toNat_lt
  simp only [lower]
  omega

lemma upper_lt (x : IPV6) : x.upper < 2 ^ 64 := by
  have hc := x.c.toNat_lt
  have hd := x.d.toNat_lt
  simp only [upper]
  omega

lemma toNat_lt (x : IPV6) : x.toNat < 2 ^ 128 := by
  have hl := x.lower_lt
  have hu := x.upper_lt
  simp only [toNat]
  omega

lemma toNat_inj (h : x.toNat = y.toNat) : x = y := by
  have hx := x.lower_lt
  have hy := y.lower_lt
  have hlower : x.lower = y.lower := by simp only [toNat] at h; omega
  have hupper : x.upper = y.upper := by simp only [toNat] at h; omega
  have hxa := x.a.toNat_lt
  have hya := y.a.toNat_lt
  have hxc := x.c.toNat_lt
  have hyc := y.c.toNat_lt
  simp only [lower] at hlower
  simp only [upper] at hupper
  have ha : x.a = y.a := UInt32.toNat_inj.mp (by omega)
  have hb : x.b = y.b := UInt32.toNat_inj.mp (by omega)
  have hc : x.c = y.c := UInt32.toNat_inj.mp (by omega)
  have hd : x.d = y.d := UInt32.toNat_inj.mp (by omega)
  cases x
  cases y
  simp_all

/-- The halves of two addresses do not disagree about which is the smaller one. -/
def Alike (x y : IPV6) : Prop := (x.upper < y.upper → x.lower ≤ y.lower) ∧ (y.upper < x.upper → y.lower ≤ x.lower)

instance (x y : IPV6) : Decidable (Alike x y) := inferInstanceAs (Decidable (_ ∧ _))

lemma Alike.symm (h : Alike x y) : Alike y x := ⟨h.2, h.1⟩

lemma Alike.lt_iff (h : Alike x y) : x.lt y = true ↔ x.toNat < y.toNat := by
  obtain ⟨h1, h2⟩ := h
  have hx := x.lower_lt
  have hy := y.lower_lt
  simp only [lt, toNat, Bool.or_eq_true, decide_eq_true_eq]
  omega

lemma Alike.gt_iff (h : Alike x y) : x.gt y = true ↔ y.toNat < x.toNat := h.symm.lt_iff

lemma Alike.le_iff (h : Alike x y) : x.le y = true ↔ x.toNat ≤ y.toNat := by
  rw [le, Bool.not_eq_true', ← Bool.not_eq_true, h.gt_iff, Nat.not_lt]

lemma Alike.ge_iff (h : Alike x y) : x.ge y = true ↔ y.toNat ≤ x.toNat := by
  rw [ge, Bool.not_eq_true', ← Bool.not_eq_true, h.lt_iff, Nat.not_lt]

lemma Alike.toNat_min (h : Alike x y) : (x.min y).toNat = Min.min x.toNat y.toNat := by
  have hlt := h.symm.lt_iff
  rw [IPV6.min]
  split
  case isTrue hyx => exact (Nat.min_eq_right (hlt.mp hyx).le).symm
  case isFalse hyx => exact (Nat.min_eq_left (Nat.not_lt.mp fun h => hyx (hlt.mpr h))).symm

lemma Alike.toNat_max (h : Alike x y) : (x.max y).toNat = Max.max x.toNat y.toNat := by
  have hlt := h.lt_iff
  rw [IPV6.max]
  split
  case isTrue hxy => exact (Nat.max_eq_right (hlt.mp hxy).le).symm
  case isFalse hxy => exact (Nat.max_eq_left (Nat.not_lt.mp fun h => hxy (hlt.mpr h))).symm

lemma min_mem {S : Set IPV6} (hx : x ∈ S) (hy : y ∈ S) : x.min y ∈ S := by
  rw [IPV6.min]
  split
  · exact hy
  · exact hx

lemma max_mem {S : Set IPV6} (hx : x ∈ S) (hy : y ∈ S) : x.max y ∈ S := by
  rw [IPV6.max]
  split
  · exact hy
  · exact hx

/-- The special case of `operator+` is that of an IPv4 address, and not of the last one. -/
def SuccExact (x : IPV6) : Prop := x.b = 0x0000FFFF → x.upper = 0 ∧ x.a.toNat + 1 < 2 ^ 32

/-- The special case of `operator-` is that of an IPv4 address, and not of the first one. -/
def PredExact (x : IPV6) : Prop := x.b = 0x0000FFFF → x.upper = 0 ∧ 0 < x.a.toNat

instance (x : IPV6) : Decidable (SuccExact x) := inferInstanceAs (Decidable (_ → _))

instance (x : IPV6) : Decidable (PredExact x) := inferInstanceAs (Decidable (_ → _))

/-- One word of an addition with its carry. -/
lemma addWord (w v : UInt32) {r : UInt64} (hr : r.toNat ≤ 1) :
    let tmp := w.toUInt64 + v.toUInt64 + r
    tmp.toUInt32.toNat + 2 ^ 32 * (tmp >>> 32).toNat = w.toNat + v.toNat + r.toNat ∧ (tmp >>> 32).toNat ≤ 1 := by
  intro tmp
  have hw := w.toNat_lt
  have hv := v.toNat_lt
  have htmp : tmp.toNat = w.toNat + v.toNat + r.toNat := by
    simp only [tmp, UInt64.toNat_add, UInt32.toNat_toUInt64]
    omega
  have hword : tmp.toUInt32.toNat = tmp.toNat % 2 ^ 32 := UInt64.toNat_toUInt32 tmp
  have hcarry : (tmp >>> 32).toNat = tmp.toNat / 2 ^ 32 := by
    rw [UInt64.toNat_shiftRight, Nat.shiftRight_eq_div_pow]
    rfl
  rw [hword, hcarry, htmp]
  omega

/-- One word of a subtraction with its borrow. -/
lemma subWord (w v : UInt32) {r : UInt64} (hr : r.toNat ≤ 1) :
    let tmp := w.toUInt64 - v.toUInt64 - r
    tmp.toUInt32.toNat + v.toNat + r.toNat = w.toNat + 2 ^ 32 * (tmp >>> 63).toNat ∧ (tmp >>> 63).toNat ≤ 1 ∧
      tmp.toUInt32.toNat < 2 ^ 32 := by
  intro tmp
  have hw := w.toNat_lt
  have hv := v.toNat_lt
  have htmp : tmp.toNat = (w.toNat + 2 ^ 64 - v.toNat - r.toNat) % 2 ^ 64 := by
    simp only [tmp, UInt64.toNat_sub, UInt32.toNat_toUInt64]
    omega
  have hword : tmp.toUInt32.toNat = tmp.toNat % 2 ^ 32 := UInt64.toNat_toUInt32 tmp
  have hborrow : (tmp >>> 63).toNat = tmp.toNat / 2 ^ 63 := by
    rw [UInt64.toNat_shiftRight, Nat.shiftRight_eq_div_pow]
    rfl
  rw [hword, hborrow, htmp]
  omega

lemma toNat_mk (a b c d : UInt32) :
    (⟨a, b, c, d⟩ : IPV6).toNat = a.toNat + 2 ^ 32 * b.toNat + 2 ^ 64 * c.toNat + 2 ^ 96 * d.toNat := by
  simp only [toNat, lower, upper]
  omega

lemma SuccExact.toNat_succ (h : x.SuccExact) (hlt : x.toNat + 1 < 2 ^ 128) : x.succ.toNat = x.toNat + 1 := by
  obtain ⟨a, b, c, d⟩ := x
  have hd := d.toNat_lt
  rw [toNat_mk] at hlt ⊢
  rw [succ, add]
  split
  case isTrue hv4 =>
    obtain ⟨hupper, hlast⟩ := h hv4
    have hsum : (a + 1).toNat = a.toNat + 1 := by
      rw [UInt32.toNat_add]
      exact Nat.mod_eq_of_lt hlast
    have hb : b = 0x0000FFFF := hv4
    simp only [upper] at hupper
    rw [toNat_mk, hsum, hb]
    simp only [UInt32.toNat_zero]
    omega
  case isFalse =>
    have hone : (1 : UInt32).toNat = 1 := rfl
    have hzero : (0 : UInt32).toNat = 0 := rfl
    have hzero' : (0 : UInt64).toNat = 0 := rfl
    obtain ⟨ha, hca⟩ := addWord a 1 (r := 0) (Nat.zero_le 1)
    rw [UInt64.add_zero] at ha hca
    obtain ⟨hb, hcb⟩ := addWord b 0 hca
    obtain ⟨hc, hcc⟩ := addWord c 0 hcb
    obtain ⟨hd', hcd⟩ := addWord d 0 hcc
    dsimp only
    rw [toNat_mk]
    rw [hone, hzero'] at ha
    rw [hzero] at hb hc hd'
    omega

lemma PredExact.toNat_pred (h : x.PredExact) (hpos : 0 < x.toNat) : x.pred.toNat = x.toNat - 1 := by
  obtain ⟨a, b, c, d⟩ := x
  have hd := d.toNat_lt
  rw [toNat_mk] at hpos ⊢
  rw [pred, sub]
  split
  case isTrue hv4 =>
    obtain ⟨hupper, hfirst⟩ := h hv4
    have hdiff : (a - 1).toNat = a.toNat - 1 := UInt32.toNat_sub_of_le _ _ (UInt32.le_iff_toNat_le.mpr hfirst)
    have hb : b = 0x0000FFFF := hv4
    have ha : 0 < a.toNat := hfirst
    simp only [upper] at hupper
    rw [toNat_mk, hdiff, hb]
    simp only [UInt32.toNat_zero]
    omega
  case isFalse =>
    have hone : (1 : UInt32).toNat = 1 := rfl
    have hzero : (0 : UInt32).toNat = 0 := rfl
    have hzero' : (0 : UInt64).toNat = 0 := rfl
    obtain ⟨ha, hca, hla⟩ := subWord a 1 (r := 0) (Nat.zero_le 1)
    rw [UInt64.sub_zero] at ha hca hla
    obtain ⟨hb, hcb, hlb⟩ := subWord b 0 hca
    obtain ⟨hc, hcc, hlc⟩ := subWord c 0 hcb
    obtain ⟨hd', hcd, hld⟩ := subWord d 0 hcc
    dsimp only
    rw [toNat_mk]
    rw [hone, hzero'] at ha
    rw [hzero] at hb hc hd'
    omega

end IPV6

/-! ## The list as a set of numbers -/

def Range.key (r : Range) : Nat × Nat := (r.first.toNat, r.last.toNat)

def keys (mRanges : List Range) : List (Nat × Nat) := mRanges.map Range.key

/-- The ends of the ranges. -/
def addresses (mRanges : List Range) : List IPV6 := mRanges.flatMap fun r => [r.first, r.last]

/-- The addresses of a range. -/
def Range.set (r : Range) : Set IPV6 := {x | x.toNat ∈ Set.Icc r.first.toNat r.last.toNat}

/-- The addresses that a list of ranges denotes. -/
def denoted (mRanges : List Range) : Set IPV6 := {x | x.toNat ∈ covered (keys mRanges)}

lemma first_mem {r : Range} {mRanges : List Range} (h : r ∈ mRanges) : r.first ∈ addresses mRanges :=
  List.mem_flatMap.mpr ⟨r, h, List.mem_cons_self⟩

lemma last_mem {r : Range} {mRanges : List Range} (h : r ∈ mRanges) : r.last ∈ addresses mRanges :=
  List.mem_flatMap.mpr ⟨r, h, List.mem_cons_of_mem _ List.mem_cons_self⟩

/-! ## Adding -/

section

variable {S : Set IPV6} (hS : ∀ x ∈ S, ∀ y ∈ S, x.Alike y)

/-- The ends of a range are among the addresses of `S`. -/
def Range.In (S : Set IPV6) (r : Range) : Prop := r.first ∈ S ∧ r.last ∈ S

include hS

/-- The test for an intersection, which both kinds of calls make. -/
lemma apart_iff {r e : Range} (hr : r.In S) (he : e.In S) :
    (r.first.max e.first).gt (r.last.min e.last) = true ↔ min r.key.2 e.key.2 < max r.key.1 e.key.1 := by
  rw [(hS _ (IPV6.max_mem hr.1 he.1) _ (IPV6.min_mem hr.2 he.2)).gt_iff, (hS _ hr.1 _ he.1).toNat_max,
    (hS _ hr.2 _ he.2).toNat_min]
  rfl

lemma handleAddIntersection_none {new r : Range} (hnew : new.In S) (hr : r.In S) :
    handleAddIntersection new r = none ↔ min new.key.2 r.key.2 < max new.key.1 r.key.1 := by
  rw [← apart_iff hS hnew hr, handleAddIntersection]
  split
  case isTrue h => exact ⟨fun _ => h, fun _ => rfl⟩
  case isFalse h => exact ⟨nofun, fun h' => absurd h' h⟩

lemma handleAddIntersection_some {new r new' : Range} (hnew : new.In S) (hr : r.In S)
    (h : handleAddIntersection new r = some new') :
    new'.In S ∧ new'.key = (min new.key.1 r.key.1, max new.key.2 r.key.2) := by
  rw [handleAddIntersection] at h
  split at h
  · cases h
  · obtain rfl := Option.some.inj h
    refine ⟨⟨IPV6.min_mem hnew.1 hr.1, IPV6.max_mem hnew.2 hr.2⟩, ?_⟩
    simp only [Range.key]
    rw [(hS _ hnew.1 _ hr.1).toNat_min, (hS _ hnew.2 _ hr.2).toNat_max]

/-- The loop inserts the range; once it has merged ranges, all that follow lie behind the start. -/
lemma addLoop_keys {l : List Range} {new : Range} {had : Bool} (hl : ∀ r ∈ l, r.In S) (hnew : new.In S)
    (hle : new.key.1 ≤ new.key.2) (hsorted : SortedRanges (keys l))
    (hhad : had = true → ∀ r ∈ l, new.key.1 < r.key.1)
    (hplace : had = true ∨ ∃ r ∈ l, new.key.1 ≤ r.key.2) :
    keys (addLoop l new had) = insertRange (keys l) new.key := by
  induction l generalizing new had with
  | nil =>
    have htrue : had = true := by
      refine hplace.resolve_right ?_
      rintro ⟨_, hr, -⟩
      cases hr
    rw [addLoop, if_pos htrue]
    rfl
  | cons r l ih =>
    obtain ⟨hr, hl⟩ := List.forall_mem_cons.mp hl
    obtain ⟨hrle, habove, hsorted⟩ := SortedRanges.cons_iff.mp hsorted
    have hnone := handleAddIntersection_none hS hnew hr
    rw [addLoop, keys, keys, List.map_cons, insertRange]
    cases hmeet : handleAddIntersection new r with
    | some new' =>
      obtain ⟨hnew', hkey⟩ := handleAddIntersection_some hS hnew hr hmeet
      have hmeets : max new.key.1 r.key.1 ≤ min new.key.2 r.key.2 :=
        Nat.not_lt.mp fun h => Option.some_ne_none new' (hmeet.symm.trans (hnone.mpr h))
      rw [if_neg (Nat.not_lt.mpr ((le_max_right _ _).trans (hmeets.trans (min_le_left _ _)))),
        if_neg (Nat.not_lt.mpr ((le_max_left _ _).trans (hmeets.trans (min_le_right _ _)))), ← hkey]
      have hle' : new'.key.1 ≤ new'.key.2 := by
        rw [hkey]
        exact (min_le_left _ _).trans (hle.trans (le_max_left _ _))
      refine ih hl hnew' hle' hsorted (fun _ s hs => ?_) (.inl rfl)
      have hs' := habove s.key (List.mem_map_of_mem hs)
      rw [hkey]
      exact (min_le_right _ _).trans_lt (hrle.trans_lt hs')
    | none =>
      have hapart := hnone.mp hmeet
      dsimp only
      cases had with
      | true =>
        have hbefore := hhad rfl r List.mem_cons_self
        have hlt : new.key.2 < r.key.1 := by omega
        rw [if_pos rfl, if_pos hlt]
        rfl
      | false =>
        have hlt : new.last.lt r.first = true ↔ new.key.2 < r.key.1 := (hS _ hnew.2 _ hr.1).lt_iff
        rw [if_neg Bool.false_ne_true]
        split
        case isTrue h => exact (if_pos (hlt.mp h)).symm
        case isFalse h =>
          have hge : ¬ new.key.2 < r.key.1 := fun h' => h (hlt.mpr h')
          have hbehind : r.key.2 < new.key.1 := by omega
          rw [if_neg hge, if_pos hbehind, List.map_cons]
          congr 1
          refine ih hl hnew hle hsorted (fun htrue => absurd htrue Bool.false_ne_true) (.inr ?_)
          obtain ⟨s, hs, hle'⟩ := hplace.resolve_left Bool.false_ne_true
          cases List.mem_cons.mp hs with
          | inl heq => exact absurd (heq ▸ hle') (Nat.not_le.mpr hbehind)
          | inr hmem => exact ⟨s, hmem, hle'⟩

end

/-- `add_range` inserts the range. -/
lemma addRange_keys {l : List Range} {new : Range}
    (halike : ∀ x ∈ addresses (new :: l), ∀ y ∈ addresses (new :: l), x.Alike y) (hnew : new.key.1 ≤ new.key.2)
    (hsorted : SortedRanges (keys l)) : keys (addRange l new) = insertRange (keys l) new.key := by
  let S : Set IPV6 := {x | x ∈ addresses (new :: l)}
  have hin : ∀ r ∈ new :: l, r.In S := fun r hr => ⟨first_mem hr, last_mem hr⟩
  have hnewS := hin new List.mem_cons_self
  have hlS : ∀ r ∈ l, r.In S := fun r hr => hin r (List.mem_cons_of_mem _ hr)
  rw [addRange]
  cases hfront : l.head? with
  | none =>
    obtain rfl := List.head?_eq_none_iff.mp hfront
    rfl
  | some front =>
    obtain ⟨rest, rfl⟩ := List.head?_eq_some_iff.mp hfront
    cases hback : (front :: rest).getLast? with
    | none => exact absurd (List.getLast?_eq_none_iff.mp hback) (List.cons_ne_nil _ _)
    | some back =>
      have hbackMem := List.mem_of_getLast? hback
      have hlt : new.last.lt front.first = true ↔ new.key.2 < front.key.1 :=
        (halike _ hnewS.2 _ (hlS front List.mem_cons_self).1).lt_iff
      have hgt : new.first.gt back.last = true ↔ back.key.2 < new.key.1 :=
        (halike _ hnewS.1 _ (hlS back hbackMem).2).gt_iff
      dsimp only
      split
      case isTrue h =>
        rw [keys, keys, List.map_cons, List.map_cons, insertRange, if_pos (hlt.mp h)]
      case isFalse =>
        split
        case isTrue h =>
          have hkeyBack : (keys (front :: rest)).getLast? = some back.key := by
            rw [keys, List.getLast?_map, hback]
            rfl
          have hall := hsorted.le_getLast hkeyBack
          rw [insertRange_end hsorted hnew fun s hs => (hall s hs).trans_lt (hgt.mp h), keys, keys, List.map_append]
          rfl
        case isFalse h =>
          refine addLoop_keys halike hlS hnewS hnew hsorted (fun htrue => absurd htrue Bool.false_ne_true)
            (.inr ⟨back, hbackMem, ?_⟩)
          exact Nat.not_lt.mp fun h' => h (hgt.mpr h')

/-! ## Removing -/

/-- One address more or less of the removed range is what it should be where it becomes the end of a range. -/
def CutsExact (r e : Range) : Prop :=
  (e.key.1 ≤ r.key.2 → r.key.2 < e.key.2 → r.last.SuccExact) ∧
    (e.key.1 < r.key.1 → r.key.1 ≤ e.key.2 → r.first.PredExact)

instance (r e : Range) : Decidable (CutsExact r e) := inferInstanceAs (Decidable (_ ∧ _))

lemma handleRemoveIntersection_keys {r e : Range} (halike : ∀ x ∈ addresses [r, e], ∀ y ∈ addresses [r, e], x.Alike y)
    (hexact : CutsExact r e) :
    keys (handleRemoveIntersection r e) = cutRange (r.key.2 + 1) (r.key.1 - 1) r.key e.key := by
  have hr : r ∈ [r, e] := List.mem_cons_self
  have he : e ∈ [r, e] := List.mem_cons_of_mem _ List.mem_cons_self
  have hmeet := apart_iff (S := {x | x ∈ addresses [r, e]}) halike ⟨first_mem hr, last_mem hr⟩
    ⟨first_mem he, last_mem he⟩
  have hle : r.first.le e.first = true ↔ r.key.1 ≤ e.key.1 := (halike _ (first_mem hr) _ (first_mem he)).le_iff
  have hge : r.last.ge e.last = true ↔ e.key.2 ≤ r.key.2 := (halike _ (last_mem hr) _ (last_mem he)).ge_iff
  have hlast := e.last.toNat_lt
  simp only [handleRemoveIntersection, cutRange, hmeet, Bool.and_eq_true, hle, hge]
  split
  case isTrue => rfl
  case isFalse hapart =>
    have h1 : e.key.1 ≤ r.key.2 := (le_max_right _ _).trans ((not_lt.mp hapart).trans (min_le_left _ _))
    have h2 : r.key.1 ≤ e.key.2 := (le_max_left _ _).trans ((not_lt.mp hapart).trans (min_le_right _ _))
    have hsucc : ¬ e.key.2 ≤ r.key.2 → r.last.succ.toNat = r.key.2 + 1 := fun h =>
      (hexact.1 h1 (not_le.mp h)).toNat_succ ((Nat.succ_le_of_lt (not_le.mp h)).trans_lt hlast)
    have hpred : ¬ r.key.1 ≤ e.key.1 → r.first.pred.toNat = r.key.1 - 1 := fun h =>
      (hexact.2 (not_le.mp h) h2).toNat_pred ((Nat.zero_le _).trans_lt (not_le.mp h))
    split
    case isTrue => rfl
    case isFalse hpart =>
      split
      case isTrue hfirst =>
        simp only [keys, List.map_cons, List.map_nil, Range.key]
        rw [hsucc fun h => hpart ⟨hfirst, h⟩]
        rfl
      case isFalse hfirst =>
        split
        case isTrue => simp only [keys, List.map_cons, List.map_nil, Range.key, hpred hfirst]
        case isFalse hlast' =>
          simp only [keys, List.map_cons, List.map_nil, Range.key, hpred hfirst, hsucc hlast']

lemma removeRange_keys {l : List Range} {r : Range}
    (halike : ∀ e ∈ l, ∀ x ∈ addresses [r, e], ∀ y ∈ addresses [r, e], x.Alike y) (hexact : ∀ e ∈ l, CutsExact r e) :
    keys (removeRange l r) = Lib.removeRange (r.key.2 + 1) (r.key.1 - 1) (keys l) r.key := by
  induction l with
  | nil => rfl
  | cons e l ih =>
    obtain ⟨he, hrest⟩ := List.forall_mem_cons.mp halike
    obtain ⟨hcut, hcuts⟩ := List.forall_mem_cons.mp hexact
    have hhead := handleRemoveIntersection_keys he hcut
    have htail := ih hrest hcuts
    rw [removeRange, List.flatMap_cons, keys, List.map_append]
    rw [Lib.removeRange, keys, List.map_cons, List.flatMap_cons]
    exact congrArg₂ _ hhead htail

/-! ## Runs -/

inductive Op where
  | add (r : Range)
  | remove (r : Range)

def Op.range : Op → Range
  | add r => r
  | remove r => r

def Op.exec (mRanges : List Range) : Op → List Range
  | add r => addRange mRanges r
  | remove r => removeRange mRanges r

/-- What a call does to the set. -/
def Op.set (S : Set IPV6) : Op → Set IPV6
  | add r => S ∪ r.set
  | remove r => S \ r.set

/-- The ends of the ranges that the call compares are ordered alike by their halves, and the ends that it makes up are
exact. -/
def Op.Sound (mRanges : List Range) : Op → Prop
  | add r => ∀ x ∈ addresses (r :: mRanges), ∀ y ∈ addresses (r :: mRanges), x.Alike y
  | remove r => ∀ e ∈ mRanges, (∀ x ∈ addresses [r, e], ∀ y ∈ addresses [r, e], x.Alike y) ∧ CutsExact r e

instance (mRanges : List Range) (op : Op) : Decidable (op.Sound mRanges) :=
  match op with
  | .add r => inferInstanceAs (Decidable (∀ x ∈ addresses (r :: mRanges), ∀ y ∈ addresses (r :: mRanges), _))
  | .remove _ => inferInstanceAs (Decidable (∀ e ∈ mRanges, _))

/-- A sequence of calls from the empty list on. -/
inductive Run : List Range → Set IPV6 → Prop where
  | nil : Run [] ∅
  | step {mRanges : List Range} {S : Set IPV6} {op : Op} :
    Run mRanges S →
    op.range.key.1 ≤ op.range.key.2 →
    op.Sound mRanges →
    Run (op.exec mRanges) (op.set S)

/-- One call. -/
lemma Op.Sound.exec {op : Op} {mRanges : List Range} (h : op.Sound mRanges) (hle : op.range.key.1 ≤ op.range.key.2)
    (hsorted : SortedRanges (keys mRanges)) :
    SortedRanges (keys (op.exec mRanges)) ∧ denoted (op.exec mRanges) = op.set (denoted mRanges) := by
  cases op with
  | add r =>
    have hle : r.key.1 ≤ r.key.2 := hle
    have hkeys : keys (Op.exec mRanges (.add r)) = _ := addRange_keys h hle hsorted
    rw [hkeys]
    refine ⟨insertRange_sorted hsorted hle, ?_⟩
    rw [denoted, hkeys, covered_insertRange hsorted hle]
    rfl
  | remove r =>
    have hle : r.key.1 ≤ r.key.2 := hle
    have hkeys : keys (Op.exec mRanges (.remove r)) = _ :=
      removeRange_keys (fun e he => (h e he).1) fun e he => (h e he).2
    have hup : ∀ e ∈ keys mRanges, e.1 ≤ r.key.2 → r.key.2 < e.2 → IsUp r.key.2 (r.key.2 + 1) :=
      fun _ _ _ _ _ => Iff.rfl
    have hdown : ∀ e ∈ keys mRanges, e.1 < r.key.1 → r.key.1 ≤ e.2 → IsDown r.key.1 (r.key.1 - 1) :=
      fun e _ hlt _ _ => Nat.lt_iff_le_pred ((Nat.zero_le _).trans_lt hlt)
    rw [hkeys]
    refine ⟨removeRange_sorted hle hsorted hup hdown, ?_⟩
    rw [denoted, hkeys, covered_removeRange hup hdown]
    rfl

lemma Run.sorted {mRanges : List Range} {S : Set IPV6} (h : Run mRanges S) :
    SortedRanges (keys mRanges) ∧ denoted mRanges = S := by
  induction h with
  | nil => exact ⟨.nil, Set.eq_empty_of_forall_notMem fun x hx => by simp [denoted, keys, covered] at hx⟩
  | step _ hle hsound ih =>
    obtain ⟨hsorted, hset⟩ := hsound.exec hle ih.1
    exact ⟨hsorted, hset.trans (by rw [ih.2])⟩

/-! ## The search -/

/-- The pairs of bounds that halving `0, ..., n - 1` goes through. -/
inductive Halved (n : Nat) : Nat → Nat → Prop where
  | whole : Halved n 0 (n - 1)
  | left {i j : Nat} : Halved n i j → i < j → 0 < (i + j) / 2 → Halved n i ((i + j) / 2 - 1)
  | right {i j : Nat} : Halved n i j → i < j → Halved n ((i + j) / 2 + 1) j

/-- The address lies between two neighbouring ranges, of which the second one starts a segment of two, and is not the
first of all: there the upper bound falls below the lower one. -/
def CrossedAt (mRanges : List Range) (ip : IPV6) : Prop :=
  ∃ (i : Nat) (r s : Range), Halved mRanges.length (i + 1) (i + 2) ∧ mRanges[i]? = some r ∧ mRanges[i + 1]? = some s ∧
    r.key.2 < ip.toNat ∧ ip.toNat < s.key.1

section

variable {mRanges : List Range} {ip : IPV6} (halike : ∀ x ∈ addresses mRanges, ip.Alike x)
  (hsorted : SortedRanges (keys mRanges))

include halike in
lemma contains_iff {i : Nat} {r : Range} (h : mRanges[i]? = some r) :
    r.contains ip = true ↔ r.key.1 ≤ ip.toNat ∧ ip.toNat ≤ r.key.2 := by
  have hr := List.mem_of_getElem? h
  rw [Range.contains, Bool.and_eq_true, (halike _ (first_mem hr)).ge_iff, (halike _ (last_mem hr)).le_iff]
  rfl

include halike in
lemma before_iff {i : Nat} {r : Range} (h : mRanges[i]? = some r) :
    ip.lt r.first = true ↔ ip.toNat < r.key.1 :=
  (halike _ (first_mem (List.mem_of_getElem? h))).lt_iff

include hsorted in
lemma range_le {i : Nat} {r : Range} (h : mRanges[i]? = some r) : r.key.1 ≤ r.key.2 :=
  hsorted.1 _ (List.mem_map_of_mem (List.mem_of_getElem? h))

include hsorted in
lemma ranges_apart {i j : Nat} {r s : Range} (hi : mRanges[i]? = some r) (hj : mRanges[j]? = some s) (h : i < j) :
    r.key.2 < s.key.1 := by
  obtain ⟨hi', hri⟩ := List.getElem?_eq_some_iff.mp hi
  obtain ⟨hj', hsj⟩ := List.getElem?_eq_some_iff.mp hj
  have hpair := List.pairwise_iff_getElem.mp hsorted.2 i j (by simpa [keys] using hi') (by simpa [keys] using hj') h
  simpa [keys, hri, hsj] using hpair

/-- The address lies behind the first `g` ranges and before the others. -/
def Gap (mRanges : List Range) (ip : IPV6) (g : Nat) : Prop :=
  (∀ (k : Nat) (r : Range), mRanges[k]? = some r → k < g → r.key.2 < ip.toNat) ∧
    ∀ (k : Nat) (r : Range), mRanges[k]? = some r → g ≤ k → ip.toNat < r.key.1

/-- An address lies in a range or in a gap. -/
lemma mem_or_gap (mRanges : List Range) (ip : IPV6) (hsorted : SortedRanges (keys mRanges)) :
    (∃ (g : Nat) (r : Range), mRanges[g]? = some r ∧ r.key.1 ≤ ip.toNat ∧ ip.toNat ≤ r.key.2) ∨
      ∃ g ≤ mRanges.length, Gap mRanges ip g := by
  induction mRanges with
  | nil => exact .inr ⟨0, le_rfl, by simp [Gap]⟩
  | cons r l ih =>
    obtain ⟨hle, habove, hl⟩ := SortedRanges.cons_iff.mp hsorted
    have hbehind : ∀ (k : Nat) (s : Range), l[k]? = some s → r.key.2 < s.key.1 := fun k s hs =>
      habove _ (List.mem_map_of_mem (List.mem_of_getElem? hs))
    cases lt_or_ge ip.toNat r.key.1 with
    | inl hlt =>
      refine .inr ⟨0, Nat.zero_le _, fun _ _ _ h => absurd h (Nat.not_lt_zero _), fun k s hs _ => ?_⟩
      cases k with
      | zero => exact Option.some.inj hs ▸ hlt
      | succ k => exact (hlt.trans_le hle).trans (hbehind k s hs)
    | inr hge =>
      cases le_or_gt ip.toNat r.key.2 with
      | inl hin => exact .inl ⟨0, r, rfl, hge, hin⟩
      | inr hgt =>
        cases ih hl with
        | inl hmem =>
          obtain ⟨g, s, hs, hin⟩ := hmem
          exact .inl ⟨g + 1, s, hs, hin⟩
        | inr hgap =>
          obtain ⟨g, hg, hbelow, habove'⟩ := hgap
          refine .inr ⟨g + 1, Nat.succ_le_succ hg, fun k s hs h => ?_, fun k s hs h => ?_⟩
          · cases k with
            | zero => exact Option.some.inj hs ▸ hgt
            | succ k => exact hbelow k s hs (Nat.lt_of_succ_lt_succ h)
          · cases k with
            | zero => exact absurd h (Nat.not_succ_le_zero _)
            | succ k => exact habove' k s hs (Nat.le_of_succ_le_succ h)

lemma exists_range {i : Nat} (h : i < mRanges.length) : ∃ r, mRanges[i]? = some r :=
  ⟨_, List.getElem?_eq_getElem h⟩

include halike hsorted

/-- The search finds the range that holds the address: its bounds never leave it. -/
lemma binarySearchLoop_found {g : Nat} {r : Range} (hg : mRanges[g]? = some r) (h1 : r.key.1 ≤ ip.toNat)
    (h2 : ip.toNat ≤ r.key.2) {n i j : Nat} (hn : j - i < n) (hi : i ≤ g) (hj : g ≤ j) (hlt : j < mRanges.length) :
    binarySearchLoop mRanges ip n i j = some true := by
  induction n generalizing i j with
  | zero => exact absurd hn (Nat.not_lt_zero _)
  | succ n ih =>
    have hin := (contains_iff halike hg).mpr ⟨h1, h2⟩
    rw [binarySearchLoop]
    split
    case isTrue heq =>
      obtain rfl : i = g := by omega
      rw [hg, Option.map_some, hin]
    case isFalse hne =>
      obtain ⟨s, hs⟩ := exists_range (show (i + j) / 2 < mRanges.length by omega)
      have hcontains := contains_iff halike hs
      have hbefore := before_iff halike hs
      simp only [hs]
      split
      case isTrue => rfl
      case isFalse hout =>
        split
        case isTrue hlt' =>
          -- the range lies before the middle one
          have hgm : g < (i + j) / 2 := by
            refine Nat.lt_of_not_le fun h => ?_
            have hlt'' := hbefore.mp hlt'
            cases Nat.eq_or_lt_of_le h with
            | inl heq =>
              obtain rfl : s = r := Option.some.inj (hs.symm.trans (heq ▸ hg))
              omega
            | inr h =>
              have hapart := ranges_apart hsorted hs hg h
              have hle := range_le hsorted hs
              omega
          rw [if_pos (Nat.zero_lt_of_lt hgm)]
          exact ih (by omega) hi (by omega) (by omega)
        case isFalse hge =>
          have hgm : (i + j) / 2 < g := by
            refine Nat.lt_of_not_le fun h => ?_
            have hge' : ¬ ip.toNat < s.key.1 := fun h => hge (hbefore.mpr h)
            have hout' : ¬ (s.key.1 ≤ ip.toNat ∧ ip.toNat ≤ s.key.2) := fun h => hout (hcontains.mpr h)
            cases Nat.eq_or_lt_of_le h with
            | inl heq =>
              obtain rfl : r = s := Option.some.inj (hg.symm.trans (heq ▸ hs))
              omega
            | inr h =>
              have hapart := ranges_apart hsorted hg hs h
              have hle := range_le hsorted hs
              omega
          exact ih (by omega) (by omega) hj hlt

omit hsorted in
/-- A step of the search for an address in a gap. -/
lemma binarySearchLoop_gap {g : Nat} (hgap : Gap mRanges ip g) {n i j : Nat} (hne : i ≠ j) (hi : i < mRanges.length)
    (hj : j < mRanges.length) (hle : ∀ r, mRanges[(i + j) / 2]? = some r → r.key.1 ≤ r.key.2) :
    binarySearchLoop mRanges ip (n + 1) i j =
      if g ≤ (i + j) / 2 then binarySearchLoop mRanges ip n i (if 0 < (i + j) / 2 then (i + j) / 2 - 1 else (i + j) / 2)
      else binarySearchLoop mRanges ip n ((i + j) / 2 + 1) j := by
  obtain ⟨s, hs⟩ := exists_range (show (i + j) / 2 < mRanges.length by omega)
  have hcontains := contains_iff halike hs
  have hbefore := before_iff halike hs
  have hsle := hle s hs
  rw [binarySearchLoop, if_neg hne]
  simp only [hs]
  cases Nat.lt_or_ge ((i + j) / 2) g with
  | inl hlt =>
    have hbelow := hgap.1 _ s hs hlt
    rw [if_neg fun h => absurd (hcontains.mp h).2 (Nat.not_le.mpr hbelow),
      if_neg fun h => absurd (hbefore.mp h) (by omega), if_neg (Nat.not_le.mpr hlt)]
  | inr hge =>
    have habove := hgap.2 _ s hs hge
    rw [if_neg fun h => absurd (hcontains.mp h).1 (Nat.not_le.mpr habove), if_pos (hbefore.mpr habove), if_pos hge]

omit hsorted in
/-- The value of a comparison of two equal bounds. -/
lemma binarySearchLoop_end {g : Nat} (hgap : Gap mRanges ip g) {n i : Nat} (hi : i < mRanges.length) :
    binarySearchLoop mRanges ip (n + 1) i i = some false := by
  obtain ⟨s, hs⟩ := exists_range hi
  have hcontains := contains_iff halike hs
  have hout : s.contains ip = false := by
    refine Bool.eq_false_iff.mpr fun h => ?_
    obtain ⟨h1, h2⟩ := hcontains.mp h
    cases Nat.lt_or_ge i g with
    | inl hlt => exact absurd h2 (Nat.not_le.mpr (hgap.1 i s hs hlt))
    | inr hge => exact absurd h1 (Nat.not_le.mpr (hgap.2 i s hs hge))
  rw [binarySearchLoop, if_pos rfl, hs, Option.map_some, hout]

/-- The search for an address in a gap ends unless its bounds cross there. -/
lemma binarySearchLoop_missed {g : Nat} (hgap : Gap mRanges ip g)
    (hcross : ∀ i, Halved mRanges.length (i + 1) (i + 2) → g ≠ i + 1) {n i j : Nat} (hn : j - i < n)
    (hij : i ≤ j) (hj : j < mRanges.length) (hhalved : Halved mRanges.length i j) (hgi : i ≤ g) (hgj : g ≤ j + 1) :
    binarySearchLoop mRanges ip n i j = some false := by
  induction n generalizing i j with
  | zero => exact absurd hn (Nat.not_lt_zero _)
  | succ n ih =>
    cases Nat.eq_or_lt_of_le hij with
    | inl heq =>
      subst heq
      exact binarySearchLoop_end halike hgap hj
    | inr hlt =>
      rw [binarySearchLoop_gap halike hgap (Nat.ne_of_lt hlt) (by omega) hj fun r hr => range_le hsorted hr]
      split
      case isTrue hle =>
        cases Nat.eq_zero_or_pos ((i + j) / 2) with
        | inl hzero =>
          obtain ⟨k, rfl⟩ : ∃ k, n = k + 1 := ⟨n - 1, by omega⟩
          obtain rfl : i = 0 := by omega
          rw [hzero, if_neg (Nat.lt_irrefl 0)]
          exact binarySearchLoop_end halike hgap (by omega)
        | inr hpos =>
          -- in a segment of two behind the first range the bounds would cross
          have hmid : i < (i + j) / 2 := by
            refine Nat.lt_of_not_le fun h => ?_
            obtain ⟨k, rfl⟩ : ∃ k, i = k + 1 := ⟨i - 1, by omega⟩
            obtain rfl : j = k + 2 := by omega
            exact hcross k hhalved (by omega)
          rw [if_pos hpos]
          exact ih (by omega) (by omega) (by omega) (hhalved.left hlt hpos) hgi (by omega)
      case isFalse hgt => exact ih (by omega) (by omega) hj (hhalved.right hlt) (by omega) hgj

omit halike hsorted in
lemma Halved.lt {n i j : Nat} (h : Halved n i j) (hn : 0 < n) : j < n := by
  induction h with
  | whole => exact Nat.sub_lt hn Nat.zero_lt_one
  | left => omega
  | right _ _ ih => exact ih

/-- The search for an address in a gap passes through every segment that holds the gap. -/
lemma binarySearchLoop_passes {g : Nat} (hgap : Gap mRanges ip g) {i j : Nat} (hhalved : Halved mRanges.length i j)
    (hgi : i ≤ g) (hgj : g ≤ j) (hpos : 0 < mRanges.length) {n : Nat} {b : Bool}
    (h : binarySearch n mRanges ip = some b) : ∃ m, binarySearchLoop mRanges ip m i j = some b := by
  induction hhalved with
  | whole => exact ⟨n, h⟩
  | @left i j hhalved hlt hmid ih =>
    obtain ⟨m, hm⟩ := ih hgi (by omega)
    have hj := hhalved.lt hpos
    cases m with
    | zero => exact absurd hm nofun
    | succ m =>
      rw [binarySearchLoop_gap halike hgap (Nat.ne_of_lt hlt) (by omega) hj fun r hr => range_le hsorted hr,
        if_pos (by omega), if_pos hmid] at hm
      exact ⟨m, hm⟩
  | @right i j hhalved hlt ih =>
    obtain ⟨m, hm⟩ := ih (by omega) hgj
    have hj := hhalved.lt hpos
    cases m with
    | zero => exact absurd hm nofun
    | succ m =>
      rw [binarySearchLoop_gap halike hgap (Nat.ne_of_lt hlt) (by omega) hj fun r hr => range_le hsorted hr,
        if_neg (by omega)] at hm
      exact ⟨m, hm⟩

/-- Bounds that have crossed do not change any more. -/
lemma binarySearchLoop_crossed {g : Nat} (hgap : Gap mRanges ip (g + 1)) (hg : g + 1 < mRanges.length) (n : Nat) :
    binarySearchLoop mRanges ip n (g + 1) g = none := by
  induction n with
  | zero => rfl
  | succ n ih =>
    have hmid : (g + 1 + g) / 2 = g := by omega
    rw [binarySearchLoop_gap halike hgap (Nat.succ_ne_self g) hg (by omega) fun r hr => range_le hsorted hr,
      if_neg (by omega), hmid]
    exact ih

omit halike hsorted in
/-- More fuel gives the same result. -/
lemma binarySearchLoop_mono {n m i j : Nat} {b : Bool} (h : binarySearchLoop mRanges ip n i j = some b) (hle : n ≤ m) :
    binarySearchLoop mRanges ip m i j = some b := by
  induction n generalizing m i j with
  | zero => cases h
  | succ n ih =>
    obtain ⟨m, rfl⟩ : ∃ k, m = k + 1 := ⟨m - 1, by omega⟩
    have hle := Nat.le_of_succ_le_succ hle
    rw [binarySearchLoop] at h ⊢
    split
    case isTrue heq => rwa [if_pos heq] at h
    case isFalse hne =>
      rw [if_neg hne] at h
      cases hs : mRanges[(i + j) / 2]? with
      | none => simp [hs] at h
      | some s =>
        simp only [hs] at h ⊢
        split
        case isTrue hin => rwa [if_pos hin] at h
        case isFalse hout =>
          rw [if_neg hout] at h
          split
          case isTrue hlt =>
            rw [if_pos hlt] at h
            exact ih h hle
          case isFalse hge =>
            rw [if_neg hge] at h
            exact ih h hle

omit halike hsorted in
lemma binarySearch_unique {n m : Nat} {b b' : Bool} (h : binarySearch n mRanges ip = some b)
    (h' : binarySearch m mRanges ip = some b') : b = b' := by
  have hn := binarySearchLoop_mono h (le_max_left n m)
  have hm := binarySearchLoop_mono h' (le_max_right n m)
  exact Option.some.inj (hn.symm.trans hm)

/-- The search returns exactly when its bounds do not cross, and what it returns is right. -/
lemma binarySearch_iff (hpos : 0 < mRanges.length) :
    ((∃ n, (binarySearch n mRanges ip).isSome = true) ↔ ¬ CrossedAt mRanges ip) ∧
      ∀ n b, binarySearch n mRanges ip = some b → (b = true ↔ ip ∈ denoted mRanges) := by
  have hmemIff : (∃ (g : Nat) (r : Range), mRanges[g]? = some r ∧ r.key.1 ≤ ip.toNat ∧ ip.toNat ≤ r.key.2) ↔
      ip ∈ denoted mRanges := by
    constructor
    · rintro ⟨g, r, hr, h1, h2⟩
      exact ⟨r.key, List.mem_map_of_mem (List.mem_of_getElem? hr), h1, h2⟩
    · rintro ⟨k, hk, h⟩
      obtain ⟨r, hr, rfl⟩ := List.mem_map.mp hk
      obtain ⟨g, hg⟩ := List.mem_iff_getElem?.mp hr
      exact ⟨g, r, hg, h.1, h.2⟩
  cases mem_or_gap mRanges ip hsorted with
  | inl hmem =>
    obtain ⟨g, r, hg, h1, h2⟩ := hmem
    have hlt := (List.getElem?_eq_some_iff.mp hg).1
    have hfound : binarySearch mRanges.length mRanges ip = some true :=
      binarySearchLoop_found halike hsorted hg h1 h2 (by omega) (Nat.zero_le _) (by omega) (by omega)
    refine ⟨⟨fun _ => ?_, fun _ => ⟨_, Option.isSome_of_eq_some hfound⟩⟩, fun n b hb => ?_⟩
    · rintro ⟨i, r', s, _, hr', hs, hbelow, habove⟩
      cases Nat.lt_or_ge i g with
      | inl hig =>
        cases Nat.eq_or_lt_of_le (Nat.succ_le_of_lt hig) with
        | inl heq =>
          have hg' : mRanges[i + 1]? = some r := (congrArg (mRanges[·]?) heq).trans hg
          obtain rfl : s = r := Option.some.inj (hs.symm.trans hg')
          exact absurd h1 (Nat.not_le.mpr habove)
        | inr hlt' =>
          have hapart := ranges_apart hsorted hs hg hlt'
          have hle := range_le hsorted hs
          omega
      | inr hgi =>
        cases Nat.eq_or_lt_of_le hgi with
        | inl heq =>
          obtain rfl : r = r' := Option.some.inj (hg.symm.trans (heq ▸ hr'))
          exact absurd h2 (Nat.not_le.mpr hbelow)
        | inr hlt' =>
          have hapart := ranges_apart hsorted hg hr' hlt'
          have hle := range_le hsorted hr'
          omega
    · rw [binarySearch_unique hb hfound]
      exact ⟨fun _ => hmemIff.mp ⟨g, r, hg, h1, h2⟩, fun _ => rfl⟩
  | inr hexists =>
    obtain ⟨g, hle, hgap⟩ := hexists
    have hout : ip ∉ denoted mRanges := by
      intro hin
      obtain ⟨k, r, hr, h1, h2⟩ := hmemIff.mpr hin
      cases Nat.lt_or_ge k g with
      | inl hlt => exact absurd h2 (Nat.not_le.mpr (hgap.1 k r hr hlt))
      | inr hge => exact absurd h1 (Nat.not_le.mpr (hgap.2 k r hr hge))
    by_cases hcross : CrossedAt mRanges ip
    · have hnone : ∀ n b, binarySearch n mRanges ip ≠ some b := by
        intro n b hb
        obtain ⟨i, r, s, hhalved, hr, hs, hbelow, habove⟩ := hcross
        have hlt := hhalved.lt hpos
        have hrle := range_le hsorted hr
        have hsle := range_le hsorted hs
        have h1 : i < g := Nat.lt_of_not_le fun h => absurd (hgap.2 i r hr h) (by omega)
        have h2 : g ≤ i + 1 := Nat.le_of_not_lt fun h => absurd (hgap.1 (i + 1) s hs h) (by omega)
        obtain rfl : g = i + 1 := by omega
        obtain ⟨m, hm⟩ := binarySearchLoop_passes halike hsorted hgap hhalved le_rfl (Nat.le_succ _) hpos hb
        have hmid : (i + 1 + (i + 2)) / 2 = i + 1 := by omega
        cases m with
        | zero => cases hm
        | succ m =>
          rw [binarySearchLoop_gap halike hgap (by omega) (by omega) hlt fun r hr => range_le hsorted hr, hmid,
            if_pos le_rfl, if_pos (Nat.succ_pos i), Nat.add_sub_cancel,
            binarySearchLoop_crossed halike hsorted hgap (by omega)] at hm
          cases hm
      refine ⟨⟨fun ⟨n, hn⟩ => ?_, fun h => absurd hcross h⟩, fun n b hb => absurd hb (hnone n b)⟩
      obtain ⟨b, hb⟩ := Option.isSome_iff_exists.mp hn
      exact absurd hb (hnone n b)
    · have hne : ∀ i, Halved mRanges.length (i + 1) (i + 2) → g ≠ i + 1 := by
        rintro i hhalved rfl
        have hlt := hhalved.lt hpos
        obtain ⟨r, hr⟩ := exists_range (show i < mRanges.length by omega)
        obtain ⟨s, hs⟩ := exists_range (show i + 1 < mRanges.length by omega)
        exact hcross ⟨i, r, s, hhalved, hr, hs, hgap.1 i r hr (Nat.lt_succ_self i), hgap.2 (i + 1) s hs le_rfl⟩
      have hmissed : binarySearch mRanges.length mRanges ip = some false :=
        binarySearchLoop_missed halike hsorted hgap hne (by omega) (Nat.zero_le _) (by omega) .whole (Nat.zero_le _)
          (by omega)
      refine ⟨⟨fun _ => hcross, fun _ => ⟨_, Option.isSome_of_eq_some hmissed⟩⟩, fun n b hb => ?_⟩
      rw [binarySearch_unique hb hmissed]
      exact ⟨nofun, fun h => absurd h hout⟩

end

/-! ## The whole component -/

/-- One of the two addresses of the local host. -/
def IsLocalhost (ip : IPV6) : Prop := ip = localhostIpv4 ∨ ip = localhostIpv6

instance (ip : IPV6) : Decidable (IsLocalhost ip) := inferInstanceAs (Decidable (_ ∨ _))

/-- The addresses that are searched for. -/
def searched (ip : IPV6) : List IPV6 := if IsLocalhost ip then [localhostIpv4, localhostIpv6] else [ip]

/-- An address belongs to the set, both addresses of the local host being one. -/
def Belongs (S : Set IPV6) (ip : IPV6) : Prop := ∃ x ∈ searched ip, x ∈ S

/-- The search ends; for the local host the second address is searched for only when the first is not found. -/
def Answered (mRanges : List Range) (ip : IPV6) : Prop :=
  if IsLocalhost ip then
    ¬ CrossedAt mRanges localhostIpv4 ∧
      (localhostIpv4 ∈ denoted mRanges ∨ ¬ CrossedAt mRanges localhostIpv6)
  else ¬ CrossedAt mRanges ip

/-- `is_in_range` returns exactly when the search ends, and tells whether the address belongs to the set. -/
lemma isInRange_iff {mRanges : List Range} {ip : IPV6}
    (halike : ∀ x ∈ searched ip, ∀ y ∈ addresses mRanges, x.Alike y) (hsorted : SortedRanges (keys mRanges)) :
    ((∃ n, (isInRange n mRanges ip).isSome = true) ↔ Answered mRanges ip) ∧
      ∀ n b, isInRange n mRanges ip = some b → (b = true ↔ Belongs (denoted mRanges) ip) := by
  cases Nat.eq_zero_or_pos mRanges.length with
  | inl hzero =>
    obtain rfl := List.eq_nil_of_length_eq_zero hzero
    have hno : ∀ x, ¬ CrossedAt [] x := by
      rintro x ⟨i, r, s, _, hr, _⟩
      simp at hr
    have hempty : denoted [] = ∅ := Set.eq_empty_of_forall_notMem fun x hx => by simp [denoted, keys, covered] at hx
    refine ⟨⟨fun _ => ?_, fun _ => ⟨0, rfl⟩⟩, fun n b hb => ?_⟩
    · rw [Answered]
      split
      · exact ⟨hno _, .inr (hno _)⟩
      · exact hno _
    · obtain rfl : false = b := Option.some.inj hb
      refine iff_of_false Bool.false_ne_true ?_
      rintro ⟨x, -, hx⟩
      simp [hempty] at hx
  | inr hpos =>
    have hne : ¬ mRanges.length = 0 := Nat.ne_of_gt hpos
    by_cases hlocal : IsLocalhost ip
    · have hsearched : searched ip = [localhostIpv4, localhostIpv6] := if_pos hlocal
      rw [hsearched] at halike
      have hv4 := binarySearch_iff (halike localhostIpv4 (by simp)) hsorted hpos
      have hv6 := binarySearch_iff (halike localhostIpv6 (by simp)) hsorted hpos
      have hlocal' : ip = localhostIpv4 ∨ ip = localhostIpv6 := hlocal
      have hbelongs : Belongs (denoted mRanges) ip ↔
          localhostIpv4 ∈ denoted mRanges ∨ localhostIpv6 ∈ denoted mRanges := by simp [Belongs, hsearched]
      rw [Answered, if_pos hlocal, ← hv4.1, ← hv6.1, hbelongs]
      constructor
      · constructor
        · rintro ⟨n, hn⟩
          rw [isInRange, if_neg hne, if_pos hlocal'] at hn
          cases h4 : binarySearch n mRanges localhostIpv4 with
          | none => simp [h4] at hn
          | some b =>
            refine ⟨⟨n, Option.isSome_of_eq_some h4⟩, ?_⟩
            cases b with
            | true => exact .inl ((hv4.2 n true h4).mp rfl)
            | false =>
              simp only [h4] at hn
              exact .inr ⟨n, hn⟩
        · rintro ⟨⟨n, hn⟩, hsecond⟩
          obtain ⟨b, hb⟩ := Option.isSome_iff_exists.mp hn
          cases hsecond with
          | inl hmem =>
            obtain rfl : b = true := (hv4.2 n b hb).mpr hmem
            exact ⟨n, by rw [isInRange, if_neg hne, if_pos hlocal', hb]; rfl⟩
          | inr hend =>
            obtain ⟨m, hm⟩ := hend
            obtain ⟨b', hb'⟩ := Option.isSome_iff_exists.mp hm
            have h4 : binarySearch (max n m) mRanges localhostIpv4 = some b :=
              binarySearchLoop_mono hb (le_max_left n m)
            have h6 : binarySearch (max n m) mRanges localhostIpv6 = some b' :=
              binarySearchLoop_mono hb' (le_max_right n m)
            refine ⟨max n m, ?_⟩
            rw [isInRange, if_neg hne, if_pos hlocal', h4]
            cases b with
            | true => rfl
            | false => exact Option.isSome_of_eq_some h6
      · intro n b hb
        rw [isInRange, if_neg hne, if_pos hlocal'] at hb
        cases h4 : binarySearch n mRanges localhostIpv4 with
        | none => simp [h4] at hb
        | some b' =>
          have hmem4 := hv4.2 n b' h4
          cases b' with
          | true =>
            simp only [h4] at hb
            obtain rfl := Option.some.inj hb
            exact ⟨fun _ => .inl (hmem4.mp rfl), fun _ => rfl⟩
          | false =>
            simp only [h4] at hb
            have hout : localhostIpv4 ∉ denoted mRanges := fun h => absurd (hmem4.mpr h) Bool.false_ne_true
            rw [hv6.2 n b hb]
            exact ⟨.inr, fun h => h.resolve_left hout⟩
    · have hsearched : searched ip = [ip] := if_neg hlocal
      rw [hsearched] at halike
      have hip := binarySearch_iff (halike ip (by simp)) hsorted hpos
      have hrun : ∀ n, isInRange n mRanges ip = binarySearch n mRanges ip := fun n => by
        rw [isInRange, if_neg hne]
        exact if_neg hlocal
      have hbelongs : Belongs (denoted mRanges) ip ↔ ip ∈ denoted mRanges := by simp [Belongs, hsearched]
      rw [Answered, if_neg hlocal, hbelongs]
      simp only [hrun]
      exact hip

/-- After every run of sound calls the list is sorted and denotes the set that the calls describe, and `is_in_range`
is right whenever the search ends. -/
theorem ipRange_run {mRanges : List Range} {S : Set IPV6} (h : Run mRanges S) :
    SortedRanges (keys mRanges) ∧ denoted mRanges = S ∧
      ∀ ip, (∀ x ∈ searched ip, ∀ y ∈ addresses mRanges, x.Alike y) →
        ((∃ n, (isInRange n mRanges ip).isSome = true) ↔ Answered mRanges ip) ∧
          ∀ n b, isInRange n mRanges ip = some b → (b = true ↔ Belongs S ip) := by
  obtain ⟨hsorted, hset⟩ := h.sorted
  refine ⟨hsorted, hset, fun ip halike => ?_⟩
  obtain ⟨hends, hright⟩ := isInRange_iff halike hsorted
  exact ⟨hends, fun n b hb => hset ▸ hright n b hb⟩

/-- The range of all addresses `::a` with `n ≤ a ≤ m`. -/
def smallRange (n m : UInt32) : Range := ⟨⟨n, 0, 0, 0⟩, ⟨m, 0, 0, 0⟩⟩

/-- `2 - 5` is added and `1 - 3` removed. -/
lemma smallRun : Run [smallRange 4 5] ((∅ ∪ (smallRange 2 5).set) \ (smallRange 1 3).set) := by
  have hadd : Run [smallRange 2 5] (∅ ∪ (smallRange 2 5).set) :=
    @Run.step _ _ (.add (smallRange 2 5)) .nil (by decide) (by decide +kernel)
  exact @Run.step _ _ (.remove (smallRange 1 3)) hadd (by decide) (by decide +kernel)

theorem ipRange_run_small :
    SortedRanges (keys [smallRange 4 5]) ∧
      denoted [smallRange 4 5] = (∅ ∪ (smallRange 2 5).set) \ (smallRange 1 3).set ∧
        ∀ ip, (∀ x ∈ searched ip, ∀ y ∈ addresses [smallRange 4 5], x.Alike y) →
          ((∃ n, (isInRange n [smallRange 4 5] ip).isSome = true) ↔ Answered [smallRange 4 5] ip) ∧
            ∀ n b, isInRange n [smallRange 4 5] ip = some b →
              (b = true ↔ Belongs ((∅ ∪ (smallRange 2 5).set) \ (smallRange 1 3).set) ip) :=
  ipRange_run smallRun

/-- `255.255.255.255` -/
def lastIpv4 : IPV6 := ⟨0xffffffff, 0xffff, 0, 0⟩

/-- The address with upper half 2 and lower half 3 is put before the one with 1 and 5; the last IPv4 address stays in
a range that goes on behind it when it is removed; and the search for 25 in `10, 20, 30, 40` runs for ever. -/
theorem ipRange_goes_wrong :
    ¬ SortedRanges (keys (addRange (addRange [] ⟨⟨5, 0, 1, 0⟩, ⟨5, 0, 1, 0⟩⟩) ⟨⟨3, 0, 2, 0⟩, ⟨3, 0, 2, 0⟩⟩)) ∧
    lastIpv4 ∈ denoted (removeRange [⟨lastIpv4, ⟨5, 0x10000, 0, 0⟩⟩] ⟨lastIpv4, lastIpv4⟩) ∧
    ∀ n, isInRange n [smallRange 10 10, smallRange 20 20, smallRange 30 30, smallRange 40 40] ⟨25, 0, 0, 0⟩ = none := by
  refine ⟨fun h => absurd h.2 (by decide +kernel), ?_, fun n => ?_⟩
  · exact ⟨Range.key ⟨⟨0, 0xffff, 0, 0⟩, ⟨5, 0x10000, 0, 0⟩⟩, by decide +kernel⟩
  · have hsorted : SortedRanges (keys [smallRange 10 10, smallRange 20 20, smallRange 30 30, smallRange 40 40]) :=
      ⟨by decide +kernel, by decide +kernel⟩
    have hcross : CrossedAt [smallRange 10 10, smallRange 20 20, smallRange 30 30, smallRange 40 40] ⟨25, 0, 0, 0⟩ :=
      ⟨1, smallRange 20 20, smallRange 30 30, Halved.whole.right (by decide), rfl, rfl, by decide, by decide⟩
    have halike : ∀ x ∈ searched ⟨25, 0, 0, 0⟩,
        ∀ y ∈ addresses [smallRange 10 10, smallRange 20 20, smallRange 30 30, smallRange 40 40], x.Alike y := by
      decide +kernel
    have hiff := (isInRange_iff halike hsorted).1
    cases hrun : isInRange n [smallRange 10 10, smallRange 20 20, smallRange 30 30, smallRange 40 40] ⟨25, 0, 0, 0⟩ with
    | none => rfl
    | some b => exact absurd hcross (hiff.mp ⟨n, Option.isSome_of_eq_some hrun⟩)

end GaussKernel.Security
