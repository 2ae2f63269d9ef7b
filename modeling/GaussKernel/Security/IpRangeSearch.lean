import GaussKernel.Security.IpRangeSet

/-!
# The bounds of the search

The two bounds of `binary_search` for any list of ranges and any address. The search reads no index outside the list.
It ends unless its bounds cross: that happens in a segment of two that does not start at the first range, when the
address lies before the first of the two (`Crossing`). No order of the list is used for this. On a sorted list whose
ends are ordered alike with the address, crossing is a matter of the gap that the address falls into
(`crossing_iff`).
-/

namespace GaussKernel.Security

section

variable (mRanges : List Range) (ip : IPV6)

/-- The indices that the loop of `binary_search` reads. -/
def readLoop : Nat → Nat → Nat → List Nat
  | 0, _, _ => []
  | fuel + 1, i, j =>
    if i = j then [i]
    else
      let mid := (i + j) / 2
      match mRanges[mid]? with
      | none => [mid]
      | some range =>
        if range.contains ip then [mid]
        else if ip.lt range.first then mid :: readLoop fuel i (if 0 < mid then mid - 1 else mid)
        else mid :: readLoop fuel (mid + 1) j

/-- The indices that `binary_search` reads in the first rounds of its loop. -/
def readIndices (fuel : Nat) : List Nat := readLoop mRanges ip fuel 0 (mRanges.length - 1)

/-- The search ends, and it reads inside the list. -/
def Ends : Prop :=
  (∃ fuel, (binarySearch fuel mRanges ip).isSome = true) ∧
    ∀ fuel, ∀ i ∈ readIndices mRanges ip fuel, i < mRanges.length

/-- The address is outside the range `i`, and the comparison with its start says that it comes before it. -/
def Before (i : Nat) : Prop := ∃ r, mRanges[i]? = some r ∧ r.contains ip = false ∧ ip.lt r.first = true

/-- The address is outside the range `i`, and the comparison with its start says that it comes behind it. -/
def Behind (i : Nat) : Prop := ∃ r, mRanges[i]? = some r ∧ r.contains ip = false ∧ ip.lt r.first = false

/-- The segments of the list, halved around their middle ranges, that lie on the side of the address. -/
inductive Steered : Nat → Nat → Prop where
  | whole : Steered 0 (mRanges.length - 1)
  | left {i j : Nat} :
    Steered i j → i < j → Before mRanges ip ((i + j) / 2) → 0 < (i + j) / 2 → Steered i ((i + j) / 2 - 1)
  | right {i j : Nat} :
    Steered i j → i < j → Behind mRanges ip ((i + j) / 2) → Steered ((i + j) / 2 + 1) j

/-- A segment of two, not at the start of the list, lies on the side of the address, which is before the first of the
two. -/
def Crossing : Prop := ∃ i, Steered mRanges ip (i + 1) (i + 2) ∧ Before mRanges ip (i + 1)

end

variable {mRanges : List Range} {ip : IPV6} {i j n : Nat}

/-! ## One round -/

lemma inside_or_before_or_behind (ip : IPV6) (hi : i < mRanges.length) :
    (∃ r, mRanges[i]? = some r ∧ r.contains ip = true) ∨ Before mRanges ip i ∨ Behind mRanges ip i := by
  obtain ⟨r, hr⟩ := exists_range hi
  cases hin : r.contains ip with
  | true => exact .inl ⟨r, hr, hin⟩
  | false =>
    cases hlt : ip.lt r.first with
    | true => exact .inr (.inl ⟨r, hr, hin, hlt⟩)
    | false => exact .inr (.inr ⟨r, hr, hin, hlt⟩)

lemma binarySearchLoop_equal (hi : i < mRanges.length) : (binarySearchLoop mRanges ip (n + 1) i i).isSome = true := by
  obtain ⟨r, hr⟩ := exists_range hi
  rw [binarySearchLoop, if_pos rfl, hr]
  rfl

lemma binarySearchLoop_inside (hne : i ≠ j) {r : Range} (hr : mRanges[(i + j) / 2]? = some r)
    (hin : r.contains ip = true) : binarySearchLoop mRanges ip (n + 1) i j = some true := by
  rw [binarySearchLoop, if_neg hne]
  simp only [hr]
  exact if_pos hin

lemma binarySearchLoop_before (hne : i ≠ j) (h : Before mRanges ip ((i + j) / 2)) :
    binarySearchLoop mRanges ip (n + 1) i j =
      binarySearchLoop mRanges ip n i (if 0 < (i + j) / 2 then (i + j) / 2 - 1 else (i + j) / 2) := by
  obtain ⟨r, hr, hin, hlt⟩ := h
  rw [binarySearchLoop, if_neg hne]
  simp only [hr]
  rw [if_neg (Bool.eq_false_iff.mp hin), if_pos hlt]

lemma binarySearchLoop_behind (hne : i ≠ j) (h : Behind mRanges ip ((i + j) / 2)) :
    binarySearchLoop mRanges ip (n + 1) i j = binarySearchLoop mRanges ip n ((i + j) / 2 + 1) j := by
  obtain ⟨r, hr, hin, hlt⟩ := h
  rw [binarySearchLoop, if_neg hne]
  simp only [hr]
  rw [if_neg (Bool.eq_false_iff.mp hin), if_neg (Bool.eq_false_iff.mp hlt)]

/-! ## The indices -/

/-- The bounds stay in the list; the lower one is never more than one above the upper one, and it lies just behind a
range that the address comes behind. -/
structure Bounded (mRanges : List Range) (ip : IPV6) (i j : Nat) : Prop where
  lower : i < mRanges.length
  upper : j < mRanges.length
  near : i ≤ j + 1
  behind : 0 < i → Behind mRanges ip (i - 1)

lemma Before.not_behind (h : Before mRanges ip i) : ¬ Behind mRanges ip i := by
  rintro ⟨s, hs, _, hge⟩
  obtain ⟨r, hr, _, hlt⟩ := h
  obtain rfl : r = s := Option.some.inj (hr.symm.trans hs)
  exact absurd (hlt.symm.trans hge) nofun

lemma Bounded.before (h : Bounded mRanges ip i j) (hne : i ≠ j) (hmid : Before mRanges ip ((i + j) / 2)) :
    Bounded mRanges ip i (if 0 < (i + j) / 2 then (i + j) / 2 - 1 else (i + j) / 2) := by
  obtain ⟨hi, hj, hnear, hbehind⟩ := h
  -- crossed bounds have the range just below the lower one as their middle
  have hlt : i < j := by
    refine Nat.lt_of_le_of_ne (Nat.le_of_not_lt fun hlt => ?_) hne
    have hcrossed : i - 1 = (i + j) / 2 := by omega
    exact hmid.not_behind (hcrossed ▸ hbehind (by omega))
  split
  · exact ⟨hi, by omega, by omega, hbehind⟩
  · exact ⟨hi, by omega, by omega, hbehind⟩

lemma Bounded.step_behind (h : Bounded mRanges ip i j) (hne : i ≠ j) (hmid : Behind mRanges ip ((i + j) / 2)) :
    Bounded mRanges ip ((i + j) / 2 + 1) j := by
  obtain ⟨hi, hj, hnear, hbehind⟩ := h
  exact ⟨by omega, hj, by omega, fun _ => hmid⟩

lemma Bounded.readLoop_lt (h : Bounded mRanges ip i j) : ∀ k ∈ readLoop mRanges ip n i j, k < mRanges.length := by
  induction n generalizing i j with
  | zero => exact nofun
  | succ n ih =>
    have hi := h.lower
    have hmid : (i + j) / 2 < mRanges.length := by
      have hj := h.upper
      omega
    rw [readLoop]
    split
    case isTrue => exact List.forall_mem_singleton.mpr hi
    case isFalse hne =>
      obtain ⟨r, hr⟩ := exists_range hmid
      simp only [hr]
      split
      case isTrue => exact List.forall_mem_singleton.mpr hmid
      case isFalse hin =>
        have hin := Bool.eq_false_iff.mpr hin
        split
        case isTrue hlt => exact List.forall_mem_cons.mpr ⟨hmid, ih (h.before hne ⟨r, hr, hin, hlt⟩)⟩
        case isFalse hge =>
          have hge := Bool.eq_false_iff.mpr hge
          exact List.forall_mem_cons.mpr ⟨hmid, ih (h.step_behind hne ⟨r, hr, hin, hge⟩)⟩

lemma readIndices_lt (hne : mRanges ≠ []) : ∀ k ∈ readIndices mRanges ip n, k < mRanges.length := by
  have hpos := List.length_pos_iff.mpr hne
  exact Bounded.readLoop_lt ⟨hpos, Nat.sub_lt hpos Nat.zero_lt_one, Nat.zero_le _, fun h => absurd h (Nat.lt_irrefl 0)⟩

/-! ## The end of the search -/

lemma Steered.behind (h : Steered mRanges ip i j) : i = 0 ∨ Behind mRanges ip (i - 1) := by
  induction h with
  | whole => exact .inl rfl
  | left _ _ _ _ ih => exact ih
  | right _ _ hmid => exact .inr hmid

/-- Without crossing, the segment becomes smaller in every round. -/
lemma Steered.ends (hcross : ¬ Crossing mRanges ip) (hsteered : Steered mRanges ip i j) (hij : i ≤ j)
    (hj : j < mRanges.length) (hn : j - i < n) : (binarySearchLoop mRanges ip n i j).isSome = true := by
  induction n generalizing i j with
  | zero => exact absurd hn (Nat.not_lt_zero _)
  | succ n ih =>
    cases Nat.eq_or_lt_of_le hij with
    | inl heq =>
      subst heq
      exact binarySearchLoop_equal hj
    | inr hlt =>
      have hne := Nat.ne_of_lt hlt
      have hmid : (i + j) / 2 < mRanges.length := by omega
      obtain ⟨r, hr, hin⟩ | hbefore | hbehind := inside_or_before_or_behind ip hmid
      · rw [binarySearchLoop_inside hne hr hin]
        rfl
      · rw [binarySearchLoop_before hne hbefore]
        cases Nat.eq_zero_or_pos ((i + j) / 2) with
        | inl hzero =>
          obtain rfl : i = 0 := by omega
          obtain ⟨n, rfl⟩ : ∃ k, n = k + 1 := ⟨n - 1, by omega⟩
          rw [hzero, if_neg (Nat.lt_irrefl 0)]
          exact binarySearchLoop_equal (by omega)
        | inr hpos =>
          have hhalf : i < (i + j) / 2 := by
            refine Nat.lt_of_not_le fun h => ?_
            obtain ⟨k, rfl⟩ : ∃ k, i = k + 1 := ⟨i - 1, by omega⟩
            obtain rfl : j = k + 2 := by omega
            have hfirst : (k + 1 + (k + 2)) / 2 = k + 1 := by omega
            exact hcross ⟨k, hsteered, hfirst ▸ hbefore⟩
          rw [if_pos hpos]
          exact ih (hsteered.left hlt hbefore hpos) (by omega) (by omega) (by omega)
      · rw [binarySearchLoop_behind hne hbehind]
        exact ih (hsteered.right hlt hbehind) (by omega) hj (by omega)

/-- A search that ends does so on every segment on the side of the address. -/
lemma Steered.passed (hsteered : Steered mRanges ip i j) {b : Bool} (h : binarySearch n mRanges ip = some b) :
    ∃ m, binarySearchLoop mRanges ip m i j = some b := by
  induction hsteered with
  | whole => exact ⟨n, h⟩
  | left _ hlt hmid hpos ih =>
    obtain ⟨m, hm⟩ := ih
    cases m with
    | zero => cases hm
    | succ m =>
      rw [binarySearchLoop_before (Nat.ne_of_lt hlt) hmid, if_pos hpos] at hm
      exact ⟨m, hm⟩
  | right _ hlt hmid ih =>
    obtain ⟨m, hm⟩ := ih
    cases m with
    | zero => cases hm
    | succ m =>
      rw [binarySearchLoop_behind (Nat.ne_of_lt hlt) hmid] at hm
      exact ⟨m, hm⟩

/-- Crossed bounds have the range between them as their middle in every round. -/
lemma Behind.crossed (h : Behind mRanges ip i) : binarySearchLoop mRanges ip n (i + 1) i = none := by
  have hmid : (i + 1 + i) / 2 = i := by omega
  induction n with
  | zero => rfl
  | succ n ih =>
    rw [binarySearchLoop_behind (Nat.succ_ne_self i) (hmid.symm ▸ h), hmid]
    exact ih

lemma Crossing.not_ends (h : Crossing mRanges ip) : binarySearch n mRanges ip = none := by
  obtain ⟨i, hsteered, hbefore⟩ := h
  refine Option.eq_none_iff_forall_ne_some.mpr fun b hb => ?_
  have hmid : (i + 1 + (i + 2)) / 2 = i + 1 := by omega
  have hbehind : Behind mRanges ip i := hsteered.behind.resolve_left (Nat.succ_ne_zero i)
  obtain ⟨m, hm⟩ := hsteered.passed hb
  cases m with
  | zero => cases hm
  | succ m =>
    rw [binarySearchLoop_before (by omega) (hmid.symm ▸ hbefore), hmid, if_pos (Nat.succ_pos i), Nat.add_sub_cancel,
      hbehind.crossed] at hm
    cases hm

lemma binarySearch_isSome_iff (hne : mRanges ≠ []) :
    (∃ fuel, (binarySearch fuel mRanges ip).isSome = true) ↔ ¬ Crossing mRanges ip := by
  have hpos := List.length_pos_iff.mpr hne
  constructor
  · rintro ⟨fuel, h⟩ hcross
    rw [hcross.not_ends] at h
    cases h
  · intro hcross
    exact ⟨_, Steered.whole.ends hcross (Nat.zero_le _) (Nat.sub_lt hpos Nat.zero_lt_one) (Nat.lt_succ_self _)⟩

/-- On a sorted list the bounds cross at a gap. -/
lemma crossing_iff (hne : mRanges ≠ []) (hsorted : Lib.SortedRanges (keys mRanges))
    (halike : ∀ x ∈ addresses mRanges, ip.Alike x) : Crossing mRanges ip ↔ CrossedAt mRanges ip := by
  have hends := (binarySearch_iff halike hsorted (List.length_pos_iff.mpr hne)).1
  exact not_iff_not.mp ((binarySearch_isSome_iff hne).symm.trans hends)

/-- The search of any address in any list ends and reads inside the list exactly when its bounds do not cross; on a
sorted list that is a matter of the length and the gap. -/
theorem binarySearch_ends_iff {mRanges : List Range} (hne : mRanges ≠ []) (ip : IPV6) :
    (Ends mRanges ip ↔ ¬ Crossing mRanges ip) ∧
      (Lib.SortedRanges (keys mRanges) → (∀ x ∈ addresses mRanges, ip.Alike x) →
        (Crossing mRanges ip ↔ CrossedAt mRanges ip)) := by
  refine ⟨⟨fun h => (binarySearch_isSome_iff hne).mp h.1, fun h => ?_⟩, crossing_iff hne⟩
  exact ⟨(binarySearch_isSome_iff hne).mpr h, fun _ => readIndices_lt hne⟩

/-- The ranges of the single addresses `::10`, `::20`, `::30` and `::40`. -/
def fourRanges : List Range := [16, 32, 48, 64].map fun a => ⟨⟨a, 0, 0, 0⟩, ⟨a, 0, 0, 0⟩⟩

theorem binarySearch_ends_iff_inside :
    fourRanges ≠ [] ∧ (Ends fourRanges ⟨48, 0, 0, 0⟩ ↔ ¬ Crossing fourRanges ⟨48, 0, 0, 0⟩) ∧
      ¬ CrossedAt fourRanges ⟨48, 0, 0, 0⟩ := by
  have hne : fourRanges ≠ [] := List.cons_ne_nil _ _
  obtain ⟨hends, hcrossed⟩ := binarySearch_ends_iff hne ⟨48, 0, 0, 0⟩
  refine ⟨hne, hends, fun h => ?_⟩
  obtain ⟨i, r, s, _, hr, hs, h1, h2⟩ := h
  match i with
  | 0 => obtain rfl := Option.some.inj hs; exact absurd h2 (by decide)
  | 1 => obtain rfl := Option.some.inj hs; exact absurd h2 (by decide)
  | 2 => obtain rfl := Option.some.inj hr; exact absurd h1 (by decide)
  | i + 3 => cases hs

/-- Among four ranges, the search for `::25`, which lies in the gap behind the second one, does not end. -/
theorem not_binarySearch_ends :
    ¬ ∀ (mRanges : List Range) (ip : IPV6), mRanges ≠ [] → Lib.SortedRanges (keys mRanges) → Ends mRanges ip := by
  intro h
  have hends := (h fourRanges ⟨37, 0, 0, 0⟩ (List.cons_ne_nil _ _) ⟨by decide, by decide⟩).1
  have hsecond : Behind fourRanges ⟨37, 0, 0, 0⟩ 1 := ⟨_, rfl, rfl, rfl⟩
  have hthird : Before fourRanges ⟨37, 0, 0, 0⟩ 2 := ⟨_, rfl, rfl, rfl⟩
  have hsteered : Steered fourRanges ⟨37, 0, 0, 0⟩ 2 3 := Steered.whole.right (by decide) hsecond
  exact (binarySearch_isSome_iff (List.cons_ne_nil _ _)).mp hends ⟨1, hsteered, hthird⟩

end GaussKernel.Security
